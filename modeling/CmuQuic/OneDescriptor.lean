import CmuQuic.ReadyList

/-! An epoll server that knows a single descriptor, as it is inside a `QuicServer` and
under a `QuicClient`. Seen from that descriptor the rounds are a small protocol, which
the pointer-level server follows. -/
namespace CmuQuic

theorem or_and_ne_zero {a b m : Mask} : (a ||| b) &&& m ≠ 0 ↔ a &&& m ≠ 0 ∨ b &&& m ≠ 0 := by
  rw [BitVec.and_or_distrib_right,Ne,BitVec.ofNat_eq_ofNat,BitVec.or_eq_zero_iff]
  tauto

/-- Where the descriptor stands. A slot holds what is asserted and what is to be faked
while the descriptor is on the ready list. -/
inductive Posted
  | idle (slot : Option (Mask × Mask))
  /-- On the list of this round. -/
  | queued (asserted fake : Mask)
  | called
  /-- At the head of the loop, with nothing left to call. -/
  | done (slot : Option (Mask × Mask))
  deriving DecidableEq

namespace Posted
open EpollConfig (Event)

def control (p : NodePtr) : Posted → Control
  | .idle _ => .idle
  | .queued _ _ => .loop
  | .called => .onEvent p
  | .done _ => .loop

def masks : Posted → Mask × Mask
  | .idle slot => slot.getD (0,0)
  | .queued asserted fake => (asserted,fake)
  | .called => (0,0)
  | .done slot => slot.getD (0,0)

/-- What `OnEvent` is going to be told of the descriptor. -/
def events (φ : Posted) : Mask := φ.masks.1 ||| φ.masks.2

def ready (p : NodePtr) : Posted → List NodePtr
  | .idle slot => if slot.isSome then [p] else []
  | .queued _ _ => []
  | .called => []
  | .done slot => if slot.isSome then [p] else []

def tmp (p : NodePtr) : Posted → List NodePtr
  | .queued _ _ => [p]
  | _ => []

/-- `HandleEvent` replaces what was asserted and keeps what is to be faked. -/
def handleEvent (mask : Mask) : Posted → Posted
  | .idle slot => .idle (some (mask,(slot.getD (0,0)).2))
  | φ => φ

def callReadyListCallbacks : Posted → Posted
  | .idle none => .done none
  | .idle (some (asserted,fake)) => .queued asserted fake
  | φ => φ

def onEventReturns (outReadyMask : Mask) : Posted → Posted
  | .called => .done (if outReadyMask = 0 then none else some (0,outReadyMask))
  | φ => φ

/-- Where a round starts from: a report replaces what was asserted, and without anything
on the ready list there is no round. -/
def roundStart : Option Mask → Option (Mask × Mask) → Posted
  | none,none => .idle none
  | none,some (asserted,fake) => .queued asserted fake
  | some mask,slot => .queued mask (slot.getD (0,0)).2

end Posted

namespace EpollConfig
open EpollServer

def running (c : EpollConfig) : Option EpollServer.OnEventCall :=
  match c.control,c.trace.getLast? with
  | .onEvent _,some (.called call) => some call
  | _,_ => none

theorem running_called {c : EpollConfig} {p : NodePtr} {τ : List Happened}
    {call : EpollServer.OnEventCall} (hc : c.control = .onEvent p)
    (ht : c.trace = τ ++ [.called call]) : c.running = some call := by
  simp [running,hc,ht]

theorem running_idle {c : EpollConfig} (hc : c.control = .idle) : c.running = none := by
  simp [running,hc]

/-- There is no report after a timeout or an interrupted wait. -/
def handleReport (c : EpollConfig) (fd : Fd) : Option Mask → Except Abort EpollConfig
  | none => .ok c
  | some mask => machine.step c (.op (.handleEvent fd mask))

/-- `WaitForEventsAndCallHandleEvents` up to the head of the loop over the ready list. -/
def waitForEvents (c : EpollConfig) (fd : Fd) (report : Option Mask) : Except Abort EpollConfig := do
  let c ← c.handleReport fd report
  c.startCallbacks

/-- The registry holds the node, and lists it as the protocol says. -/
structure Alone (p : NodePtr) (cb : CB) (a : RegistryConfig) (φ : Posted) : Prop where
  node : ∃ n, a.registry.deref p = some n ∧ n.cb = some cb ∧
    (n.eventsAsserted,n.eventsToFake) = φ.masks
  ready : a.registry.lists .readyList = φ.ready p
  tmp : a.registry.lists .tmpList = φ.tmp p
  control : a.control = φ.control p
  only : ∀ fd, fd ≠ p.fd → a.registry.cbMap.lookup fd = none

def Posts (p : NodePtr) (cb : CB) (c : EpollConfig) (φ : Posted) : Prop :=
  ∃ a, Coupled c a ∧ Alone p cb a φ

variable {p : NodePtr} {cb : CB} {c : EpollConfig} {a : RegistryConfig} {φ : Posted}

theorem Alone.lookup (h : Alone p cb a φ) : ∃ n, a.registry.cbMap.lookup p.fd = some n ∧
    n.serial = p.serial ∧ n.cb = some cb ∧ (n.eventsAsserted,n.eventsToFake) = φ.masks := by
  obtain ⟨n,hd,hcb,hm⟩ := h.node
  obtain ⟨hl,hs⟩ := Registry.deref_eq_some.mp hd
  exact ⟨n,hl,hs,hcb,hm⟩

theorem Posts.control (h : Posts p cb c φ) : c.control = φ.control p := by
  obtain ⟨a,hc,ha⟩ := h
  rw [hc.control,ha.control]

theorem Posts.lhFirst (h : Posts p cb c φ) :
    c.server.links.lhFirst .readyList = (φ.ready p).head? := by
  obtain ⟨a,hc,ha⟩ := h
  rw [hc.refines.rep.lhFirst,ha.ready]

theorem Posts.isFDReady {slot : Option (Mask × Mask)} (h : Posts p cb c (.idle slot)) :
    c.server.isFDReady p.fd = slot.isSome := by
  obtain ⟨a,hc,ha⟩ := h
  obtain ⟨n,hl,hs,hcb,_⟩ := ha.lookup
  have hp : (⟨p.fd,n.serial⟩ : NodePtr) = p := by rw [hs]
  have hlinked := hc.refines.rep.linked p
  simp only [EpollServer.isFDReady,hc.refines.cbMap,hl,hcb,hp,Option.isSome_some,Bool.true_and]
  cases slot with
  | none =>
    have hnone : c.server.links.lePrev p = none := by
      by_contra hne
      obtain ⟨k,hk⟩ := hlinked.mp hne
      cases k
      · simp [ha.ready,Posted.ready] at hk
      · simp [ha.tmp,Posted.tmp] at hk
    simp [hnone]
  | some m =>
    have hne := hlinked.mpr ⟨.readyList,by simp [ha.ready,Posted.ready]⟩
    simpa [Option.isSome_iff_ne_none] using hne

/-- A server between two rounds that knows no descriptor; the next node gets the serial. -/
def Vacant (serial : ℕ) (c : EpollConfig) : Prop :=
  ∃ a, Coupled c a ∧ a.control = .idle ∧ a.registry.lists .readyList = [] ∧
    a.registry.nextSerial = serial ∧ ∀ fd, a.registry.cbMap.lookup fd = none

theorem vacant_init : Vacant 0 init := ⟨_,.initial,rfl,rfl,rfl,fun _ => rfl⟩

theorem Vacant.control {serial : ℕ} (h : Vacant serial c) : c.control = .idle := by
  obtain ⟨a,hc,hidle,_⟩ := h
  rw [hc.control,hidle]

theorem Vacant.lhFirst {serial : ℕ} (h : Vacant serial c) :
    c.server.links.lhFirst .readyList = none := by
  obtain ⟨a,hc,_,hready,_⟩ := h
  rw [hc.refines.rep.lhFirst,hready]
  rfl

theorem Vacant.register {serial : ℕ} (h : Vacant serial c) (fd : Fd) (cb : CB) (mask : Mask) :
    ∃ c', machine.step c (.op (.registerFD fd cb mask)) = .ok c' ∧
      Posts ⟨fd,serial⟩ cb c' (.idle none) := by
  obtain ⟨a,hc,hidle,hready,hserial,hnone⟩ := h
  have hne : c.control ≠ .loop := by rw [hc.control,hidle]; simp
  obtain ⟨c',hc',hcoupled⟩ := hc.step (e:=.op (.registerFD fd cb mask)) hne
  have hregister : a.registry.perform (.registerFD fd cb mask) =
      a.registry.insertNode fd cb mask := by simp [Registry.perform,Registry.register,hnone]
  refine ⟨c',hc',_,hcoupled,?_⟩
  refine ⟨⟨⟨some cb,serial,mask,0,0,false⟩,?_,rfl,rfl⟩,?_,?_,hidle,fun x hx => ?_⟩
  · show (a.registry.perform (.registerFD fd cb mask)).deref ⟨fd,serial⟩ = _
    rw [hregister,Registry.deref_eq_some]
    exact ⟨by simp [Registry.insertNode,hserial],rfl⟩
  · show (a.registry.perform (.registerFD fd cb mask)).lists .readyList = []
    rw [hregister]
    exact hready
  · show (a.registry.perform (.registerFD fd cb mask)).lists .tmpList = []
    rw [hregister]
    exact hc.tmp hidle
  · show (a.registry.perform (.registerFD fd cb mask)).cbMap.lookup x = none
    rw [hregister,Registry.insertNode,lookup_insert_ite,if_neg hx,hnone]

theorem Vacant.unregister {serial : ℕ} (h : Vacant serial c) (fd : Fd) :
    ∃ c', machine.step c (.op (.unregisterFD fd)) = .ok c' ∧ Vacant serial c' := by
  obtain ⟨a,hc,hidle,hready,hserial,hnone⟩ := h
  have hne : c.control ≠ .loop := by rw [hc.control,hidle]; simp
  obtain ⟨c',hc',hcoupled⟩ := hc.step (e:=.op (.unregisterFD fd)) hne
  have hsame : a.registry.perform (.unregisterFD fd) = a.registry := by
    simp [Registry.perform,Registry.unregister,Registry.onRegistered,hnone]
  refine ⟨c',hc',_,hcoupled,hidle,?_⟩
  show (a.registry.perform (.unregisterFD fd)).lists .readyList = [] ∧
    (a.registry.perform (.unregisterFD fd)).nextSerial = serial ∧ ∀ x,
      (a.registry.perform (.unregisterFD fd)).cbMap.lookup x = none
  rw [hsame]
  exact ⟨hready,hserial,hnone⟩

theorem Posts.unregister {slot : Option (Mask × Mask)} (h : Posts p cb c (.idle slot)) :
    ∃ c' serial, machine.step c (.op (.unregisterFD p.fd)) = .ok c' ∧ Vacant serial c' := by
  obtain ⟨a,hc,ha⟩ := h
  obtain ⟨n,hl,hs,hcb,hm⟩ := ha.lookup
  have hp : (⟨p.fd,n.serial⟩ : NodePtr) = p := by rw [hs]
  have hidle : a.control = .idle := ha.control
  have hne : c.control ≠ .loop := by rw [hc.control,hidle]; simp
  have huse : n.inUse = false := by
    rw [← Bool.not_eq_true,hc.wf.inUse hl,hidle]
    simp [Control.frame]
  obtain ⟨c',hc',hcoupled⟩ := hc.step (e:=.op (.unregisterFD p.fd)) hne
  have hdrop : a.registry.perform (.unregisterFD p.fd) = (a.registry.unlink p).drop p.fd := by
    simp [Registry.perform,Registry.unregister,Registry.onRegistered,hl,hcb,huse,hp]
  refine ⟨c',_,hc',_,hcoupled,hidle,?_,rfl,fun x => ?_⟩
  · show (a.registry.perform (.unregisterFD p.fd)).lists .readyList = []
    rw [hdrop]
    cases slot <;> simp [Registry.unlink,ha.ready,Posted.ready]
  · show (a.registry.perform (.unregisterFD p.fd)).cbMap.lookup x = none
    rw [hdrop,Registry.drop,Registry.cbMap_unlink,lookup_erase_ite]
    split_ifs with hx
    · rfl
    · exact ha.only x hx

theorem Posts.handleEvent {slot : Option (Mask × Mask)} (h : Posts p cb c (.idle slot))
    (mask : Mask) : ∃ c', machine.step c (.op (.handleEvent p.fd mask)) = .ok c' ∧
      Posts p cb c' (Posted.handleEvent mask (.idle slot)) := by
  obtain ⟨a,hc,ha⟩ := h
  obtain ⟨n,hl,hs,hcb,hm⟩ := ha.lookup
  have hp : (⟨p.fd,n.serial⟩ : NodePtr) = p := by rw [hs]
  have hidle : c.control ≠ .loop := by rw [hc.control,ha.control]; simp [Posted.control]
  obtain ⟨c',hc',hcoupled⟩ := hc.step (e:=.op (.handleEvent p.fd mask)) hidle
  refine ⟨c',hc',_,hcoupled,?_⟩
  have hraise : a.registry.perform (.handleEvent p.fd mask) =
      (a.registry.edit p.fd fun n => { n with eventsAsserted := mask }).link p := by
    simp [Registry.perform,Registry.raise,Registry.onRegistered,hl,hcb,hp]
  refine ⟨⟨{ n with eventsAsserted := mask },?_,hcb,?_⟩,?_,?_,ha.control,fun x hx => ?_⟩
  · show (a.registry.perform (.handleEvent p.fd mask)).deref p = _
    rw [hraise,Registry.deref_congr (Registry.cbMap_link _ p),Registry.deref_eq_some,
      Registry.lookup_edit,if_pos rfl,hl]
    exact ⟨rfl,hs⟩
  · cases slot <;> simp_all [Posted.masks,Posted.handleEvent,Prod.ext_iff]
  · show (a.registry.perform (.handleEvent p.fd mask)).lists .readyList = [p]
    rw [hraise]
    have hready := ha.ready
    have htmp := ha.tmp
    cases slot <;> simp_all [Posted.ready,Posted.tmp,Registry.link]
  · show (a.registry.perform (.handleEvent p.fd mask)).lists .tmpList = []
    rw [hraise,Registry.tmpList_link,Registry.lists_edit,ha.tmp]
    rfl
  · show (a.registry.perform (.handleEvent p.fd mask)).cbMap.lookup x = none
    rw [hraise,Registry.cbMap_link,Registry.lookup_edit,if_neg hx,ha.only x hx]

theorem Posts.callReadyListCallbacks {slot : Option (Mask × Mask)} (h : Posts p cb c (.idle slot)) :
    ∃ c', machine.step c .callReadyListCallbacks = .ok c' ∧
      Posts p cb c' (Posted.callReadyListCallbacks (.idle slot)) := by
  obtain ⟨a,hc,ha⟩ := h
  obtain ⟨c',hc',hcoupled⟩ := hc.step (e:=.callReadyListCallbacks) (hc.control.trans ha.control)
  refine ⟨c',hc',_,hcoupled,?_⟩
  obtain ⟨n,hd,hcb,hm⟩ := ha.node
  have hready := ha.ready
  refine ⟨⟨n,hd,hcb,?_⟩,?_,?_,?_,ha.only⟩ <;>
    cases slot <;> simp_all [Posted.callReadyListCallbacks,Posted.masks,Posted.ready,Posted.tmp,
      Posted.control,RegistryConfig.step,Registry.swapLists]

theorem Posts.nextReady_queued {asserted fake : Mask} (h : Posts p cb c (.queued asserted fake)) :
    ∃ c', machine.step c .nextReady = .ok c' ∧ Posts p cb c' .called ∧
      c'.trace = c.trace ++ [.called ⟨cb,p.fd,asserted ||| fake⟩] := by
  obtain ⟨a,hc,ha⟩ := h
  obtain ⟨c',hc',hcoupled⟩ := hc.step (e:=.nextReady) (hc.control.trans ha.control)
  obtain ⟨n,hd,hcb,hm⟩ := ha.node
  obtain ⟨hl,hs⟩ := Registry.deref_eq_some.mp hd
  have htmp : a.registry.lists .tmpList = [p] := ha.tmp
  have hready : a.registry.lists .readyList = [] := ha.ready
  have hstep : a.step .nextReady = ⟨a.registry.takeReady p,.onEvent p,
      a.trace ++ [.called ⟨cb,p.fd,asserted ||| fake⟩]⟩ := by
    simp_all [RegistryConfig.step,Posted.masks]
  rw [hstep] at hcoupled
  refine ⟨c',hc',⟨_,hcoupled,⟨{ n with eventsAsserted := 0, eventsToFake := 0, inUse := true },
    ?_,hcb,rfl⟩,?_,?_,rfl,fun x hx => ?_⟩,?_⟩
  · show (a.registry.takeReady p).deref p = _
    rw [Registry.takeReady,Registry.deref_eq_some,Registry.lookup_edit,if_pos rfl,
      Registry.cbMap_unlink,hl]
    exact ⟨rfl,hs⟩
  · simp [Registry.takeReady,Registry.unlink,hready,Posted.ready]
  · simp [Registry.takeReady,Registry.unlink,htmp,Posted.tmp]
  · show (a.registry.takeReady p).cbMap.lookup x = none
    rw [Registry.takeReady,Registry.lookup_edit,if_neg hx,Registry.cbMap_unlink,ha.only x hx]
  · rw [hcoupled.trace,hc.trace]

theorem Posts.nextReady_done {slot : Option (Mask × Mask)} (h : Posts p cb c (.done slot)) :
    ∃ c', machine.step c .nextReady = .ok c' ∧ Posts p cb c' (.idle slot) := by
  obtain ⟨a,hc,ha⟩ := h
  obtain ⟨c',hc',hcoupled⟩ := hc.step (e:=.nextReady) (hc.control.trans ha.control)
  have htmp : a.registry.lists .tmpList = [] := ha.tmp
  have hstep : a.step .nextReady = { a with control := .idle } := by
    simp [RegistryConfig.step,htmp]
  rw [hstep] at hcoupled
  exact ⟨c',hc',_,hcoupled,ha.node,ha.ready,htmp,rfl,ha.only⟩

theorem Posts.onEventReturns (h : Posts p cb c .called) (mask : Mask) :
    ∃ c', machine.step c (.onEventReturns mask) = .ok c' ∧
      Posts p cb c' (Posted.onEventReturns mask .called) := by
  obtain ⟨a,hc,ha⟩ := h
  have hcontrol : a.control = .onEvent p := ha.control
  obtain ⟨c',hc',hcoupled⟩ := hc.step (e:=.onEventReturns mask)
    (by show c.control.isOnEvent = true; rw [hc.control,hcontrol]; rfl)
  obtain ⟨n,hd,hcb,hm⟩ := ha.node
  obtain ⟨hl,hs⟩ := Registry.deref_eq_some.mp hd
  have htmp : a.registry.lists .tmpList = [] := ha.tmp
  have hready : a.registry.lists .readyList = [] := ha.ready
  have hstep : a.step (.onEventReturns mask) = ⟨a.registry.finishReady p mask,.loop,
      a.trace ++ [.returned p.fd mask]⟩ := by simp [RegistryConfig.step,hcontrol]
  rw [hstep] at hcoupled
  refine ⟨c',hc',_,hcoupled,?_⟩
  have hedit : (a.registry.edit p.fd fun n => { n with inUse := false }).cbMap.lookup p.fd =
      some { n with inUse := false } := by rw [Registry.lookup_edit,if_pos rfl,hl]; rfl
  by_cases hmask : mask = 0
  · have hfinish : a.registry.finishReady p mask =
        a.registry.edit p.fd fun n => { n with inUse := false } := by
      simp [Registry.finishReady,hedit,hcb,hmask]
    rw [hfinish,Posted.onEventReturns,if_pos hmask]
    refine ⟨⟨_,Registry.deref_eq_some.mpr ⟨hedit,hs⟩,hcb,?_⟩,?_,?_,rfl,fun x hx => ?_⟩
    · exact hm
    · simp [hready,Posted.ready]
    · simp [htmp,Posted.tmp]
    · show (a.registry.edit p.fd _).cbMap.lookup x = none
      rw [Registry.lookup_edit,if_neg hx,ha.only x hx]
  · have hfinish : a.registry.finishReady p mask = ((a.registry.edit p.fd fun n =>
        { n with inUse := false }).edit p.fd fun n => { n with eventsToFake := mask }).link p := by
      simp only [Registry.finishReady,hedit,hcb,hmask,reduceCtorEq,if_false]
    rw [hfinish,Posted.onEventReturns,if_neg hmask]
    refine ⟨⟨{ n with inUse := false, eventsToFake := mask },?_,hcb,?_⟩,?_,?_,rfl,fun x hx => ?_⟩
    · rw [Registry.deref_congr (Registry.cbMap_link _ p),Registry.deref_eq_some,
        Registry.lookup_edit,if_pos rfl,hedit]
      exact ⟨rfl,hs⟩
    · have hasserted : n.eventsAsserted = 0 := congrArg Prod.fst hm
      simp [Posted.masks,hasserted]
    · simp [Registry.link,hready,htmp,Posted.ready]
    · simp [htmp,Posted.tmp]
    · show (Registry.link _ p).cbMap.lookup x = none
      rw [Registry.cbMap_link,Registry.lookup_edit,if_neg hx,Registry.lookup_edit,if_neg hx,
        ha.only x hx]

theorem Posts.waitForEvents {slot : Option (Mask × Mask)} (h : Posts p cb c (.idle slot))
    (report : Option Mask) : ∃ c', c.waitForEvents p.fd report = .ok c' ∧
      Posts p cb c' (Posted.roundStart report slot) := by
  cases report with
  | none =>
    have hfirst := h.lhFirst
    cases slot with
    | none => exact ⟨c,by simp [EpollConfig.waitForEvents,handleReport,startCallbacks,hfirst,Posted.ready],h⟩
    | some m =>
      obtain ⟨c',hc,hposts⟩ := h.callReadyListCallbacks
      exact ⟨c',by simp [EpollConfig.waitForEvents,handleReport,startCallbacks,hfirst,Posted.ready,hc],hposts⟩
  | some mask =>
    obtain ⟨c₁,hc₁,hposts₁⟩ := h.handleEvent mask
    have hfirst := hposts₁.lhFirst
    obtain ⟨c',hc,hposts⟩ := hposts₁.callReadyListCallbacks
    refine ⟨c',?_,hposts⟩
    simp only [Posted.handleEvent,Posted.ready,Option.isSome_some,if_true,List.head?_cons] at hfirst
    simp [EpollConfig.waitForEvents,handleReport,startCallbacks,hc₁,hfirst,hc]

theorem Vacant.waitForEvents {serial : ℕ} (h : Vacant serial c) (fd : Fd) :
    c.waitForEvents fd none = .ok c := by
  simp [EpollConfig.waitForEvents,handleReport,startCallbacks,h.lhFirst]

end EpollConfig
end CmuQuic
