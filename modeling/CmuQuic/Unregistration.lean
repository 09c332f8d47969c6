import CmuQuic.EpollSet
import CmuQuic.EventPhase

/-! `UnregisterFD` runs a callback after it has taken the node off the ready lists and
before it gives the node up. What that callback may do to the ready list. -/
namespace CmuQuic
open IntrusiveList EpollServer

/-- Whether a descriptor ends up ready after some calls: the last of them that is about
it decides. -/
def leavesReady (fd : Fd) : Bool → List ReadyCall → Bool
  | ready, [] => ready
  | ready, .setFDReady x _ :: cs => leavesReady fd (x = fd ∨ ready) cs
  | ready, .setFDNotReady x :: cs => leavesReady fd (x ≠ fd ∧ ready) cs

namespace Registry

variable {r : Registry} {frame : Option NodePtr} {p : NodePtr} {n : CBAndEventMask}

theorem deref_raise (hd : r.deref p = some n) (fd : Fd) {f : CBAndEventMask → CBAndEventMask}
    (hs : ∀ n, (f n).serial = n.serial) (hc : ∀ n, (f n).cb = n.cb) :
    ∃ m, (r.raise fd f).deref p = some m ∧ m.cb = n.cb := by
  obtain ⟨hn,hser⟩ := deref_eq_some.mp hd
  rcases lookup_raise hn fd f with h | h
  · exact ⟨n,deref_eq_some.mpr ⟨h,hser⟩,rfl⟩
  · exact ⟨f n,deref_eq_some.mpr ⟨h,(hs n).trans hser⟩,hc n⟩

theorem mem_raise (hd : r.deref p = some n) (hc : n.cb ≠ none) (fd : Fd)
    (f : CBAndEventMask → CBAndEventMask) :
    (∃ h, p ∈ (r.raise fd f).lists h) ↔ fd = p.fd ∨ ∃ h, p ∈ r.lists h := by
  obtain ⟨hn,hs⟩ := deref_eq_some.mp hd
  by_cases hfd : fd = p.fd
  · subst hfd
    have hp : (⟨p.fd,n.serial⟩ : NodePtr) = p := by rw [hs]
    simp only [raise,onRegistered,hn,hc,if_false,hp,mem_link,true_or]
  · simp only [hfd,false_or]
    unfold raise onRegistered
    split
    · rfl
    rename_i m _
    split_ifs
    · rfl
    rw [mem_link,lists_edit]
    refine or_iff_right fun he => hfd ?_
    rw [he]

theorem mem_notReady (hr : r.WF frame) (hd : r.deref p = some n) (fd : Fd) :
    (∃ h, p ∈ (r.notReady fd).lists h) ↔ fd ≠ p.fd ∧ ∃ h, p ∈ r.lists h := by
  obtain ⟨hn,hs⟩ := deref_eq_some.mp hd
  by_cases hfd : fd = p.fd
  · subst hfd
    have hp : (⟨p.fd,n.serial⟩ : NodePtr) = p := by rw [hs]
    simp only [notReady,hn,hp,ne_eq,not_true_eq_false,false_and,iff_false,not_exists]
    exact hr.not_linked_of_unlink p
  · simp only [ne_eq,hfd,not_false_eq_true,true_and]
    unfold notReady
    split
    · rfl
    simp only [mem_unlink hr.separate]
    refine exists_congr fun h => and_iff_right fun he => hfd ?_
    rw [he]

/-- The calls of a notification callback leave a registered node where the last call
that is about it puts it. -/
theorem mem_makes (hr : r.WF frame) (hd : r.deref p = some n) (hc : n.cb ≠ none) {ready : Bool}
    (hready : (∃ h, p ∈ r.lists h) ↔ ready = true) (cs : List ReadyCall) :
    (∃ h, p ∈ (r.makes cs).lists h) ↔ leavesReady p.fd ready cs = true := by
  induction cs generalizing r n ready with
  | nil => exact hready
  | cons c cs ih =>
    cases c with
    | setFDReady fd mask =>
      have hr₁ := hr.raise fd (f:=fun n => { n with eventsToFake := mask })
        (fun _ => rfl) (fun _ => rfl) (fun _ => rfl)
      obtain ⟨m,hm,hmc⟩ := deref_raise (f:=fun n => { n with eventsToFake := mask }) hd fd
        (fun _ => rfl) (fun _ => rfl)
      refine ih hr₁ hm (hmc ▸ hc) ?_
      rw [mem_raise hd hc,hready]
      simp
    | setFDNotReady fd =>
      refine ih (hr.notReady fd) (n:=n) ?_ hc ?_
      · rw [deref_congr (cbMap_notReady r fd),hd]
      · rw [mem_notReady hr hd,hready]
        simp

theorem mask_makes (r : Registry) (cs : List ReadyCall) (x : Fd) :
    (r.makes cs).mask x = r.mask x := by
  induction cs generalizing r with
  | nil => rfl
  | cons c cs ih =>
    cases c with
    | setFDReady fd mask => exact (ih _).trans (mask_perform r (.setFDReady fd mask) x)
    | setFDNotReady fd => exact (ih _).trans (mask_perform r (.setFDNotReady fd) x)

theorem mask_performWith (k : NotifyCalls) (r : Registry) (o : Op) (x : Fd) :
    (r.performWith k o).mask x = request x (r.mask x) o := by
  have hmodify : ∀ fd a b, (r.modifyWith k fd a b).mask x = (r.modify fd a b).mask x := by
    intro fd a b
    unfold modifyWith modify onRegistered
    split
    · rfl
    split_ifs
    · rfl
    · exact mask_makes _ _ x
  rw [← mask_perform]
  cases o with
  | registerFD fd cb mask =>
    simp only [performWith,perform,register]
    split
    · exact mask_makes _ _ x
    rename_i n hn
    rw [mask_makes]
    by_cases hx : x = fd
    · subst hx
      split_ifs
      · simp [Registry.mask,lookup_edit,hn]
      · obtain ⟨fake,hfake⟩ := lookup_makes (r:=r.unlink ⟨x,n.serial⟩) hn k.onUnregistration
        simp [Registry.mask,lookup_edit,hn,hfake]
    · rw [mask_edit_of_ne hx,mask_edit_of_ne hx]
      split_ifs
      · rfl
      · exact mask_makes _ _ x
  | unregisterFD fd =>
    simp only [performWith,perform,unregister,onRegistered]
    split
    · rfl
    rename_i n hn
    have hmakes := mask_makes (r.unlink ⟨fd,n.serial⟩) k.onUnregistration x
    by_cases hx : x = fd
    · subst hx
      obtain ⟨fake,hfake⟩ := lookup_makes (r:=r.unlink ⟨x,n.serial⟩) hn k.onUnregistration
      split_ifs
      · rfl
      · simp [Registry.mask,lookup_edit,hn,hfake]
      · simp [Registry.mask,drop]
    · split_ifs
      · rfl
      · rw [mask_edit_of_ne hx,mask_edit_of_ne hx,hmakes]
      · simpa [Registry.mask,drop,lookup_erase_ite,hx] using hmakes
  | modifyCallback fd mask => exact hmodify _ _ _
  | stopRead fd => exact hmodify _ _ _
  | startRead fd => exact hmodify _ _ _
  | stopWrite fd => exact hmodify _ _ _
  | startWrite fd => exact hmodify _ _ _
  | handleEvent fd mask => rfl
  | setFDReady fd mask => rfl
  | setFDNotReady fd => rfl

end Registry

namespace EpollConfig

/-- An event and what the notification callbacks do in it, as far as they run. -/
abbrev NotedEvent := NotifyCalls × Event

/-- No `UnregisterFD` is made whose `OnUnregistration` leaves its own descriptor ready. -/
def settles (c : EpollConfig) : NotedEvent → Bool
  | (k,.op (.unregisterFD fd)) => !c.server.registered fd || !leavesReady fd false k.onUnregistration
  | _ => true

def noted : Machine EpollConfig NotedEvent Abort :=
  ⟨fun c e => machine.admits c e.2 ∧ c.settles e = true,fun c e => c.step e.1.notify e.2⟩

instance (c : EpollConfig) (e : NotedEvent) : Decidable (noted.admits c e) :=
  inferInstanceAs (Decidable (machine.admits c e.2 ∧ c.settles e = true))

def NotedEvent.registers (fd : Fd) : NotedEvent → Bool
  | (_,.op (.registerFD x _ _)) => x = fd
  | _ => false

/-- The two lists are intact, and the descriptor is on neither of them. -/
def OffLists (c : EpollConfig) (fd : Fd) : Prop :=
  ∃ ready tmp, c.ReadyLists ready tmp ∧ ∀ p ∈ ready ++ tmp, p.fd ≠ fd

variable {c d : EpollConfig} {a : RegistryConfig} {fd : Fd}

theorem Coupled.offLists (h : Coupled c a) (hm : a.registry.mask fd = none) : c.OffLists fd := by
  refine ⟨_,_,h.readyLists,fun p hp hfd => ?_⟩
  obtain ⟨n,hd,hc⟩ := h.readyLists.live p hp
  rw [h.refines.deref] at hd
  rw [← hfd,Registry.mask,(Registry.deref_eq_some.mp hd).1] at hm
  simp [hc] at hm

/-- The first half of the argument: the callback finds the node registered and on no
list, so it leaves the node on a list exactly if it leaves its descriptor ready. -/
theorem Coupled.unregistered (h : Coupled c a) {n : CBAndEventMask}
    (hn : a.registry.cbMap.lookup fd = some n) (hc : n.cb ≠ none) (k : NotifyCalls) :
    (∃ h, ⟨fd,n.serial⟩ ∈ ((a.registry.unlink ⟨fd,n.serial⟩).makes k.onUnregistration).lists h) ↔
      leavesReady fd false k.onUnregistration = true := by
  refine Registry.mem_makes (p:=⟨fd,n.serial⟩) (h.wf.unlink _) (Registry.deref_eq_some.mpr ⟨hn,rfl⟩)
    hc ?_ _
  simpa using h.wf.not_linked_of_unlink ⟨fd,n.serial⟩

/-- One operation with callbacks that settle: the server does not abort and stays
coupled. -/
theorem Coupled.notedOp (h : Coupled c a) (k : NotifyCalls) (o : Op) (ho : c.settles (k,.op o) = true) :
    ∃ c', c.step k.notify (.op o) = .ok c' ∧ Coupled c' ⟨a.registry.performWith k o,a.control,
      a.trace ++ [Happened.did o]⟩ := by
  obtain ⟨s',h₁,hs',ha'⟩ := performWith_simulates k h.refines h.agree h.wf o
  refine ⟨⟨s',c.control,c.trace ++ [Happened.did o]⟩,by simp [EpollConfig.step,h₁],hs',ha',?_,?_,
    h.control,by rw [h.trace]⟩
  · apply h.wf.performWith
    rintro fd n rfl hn hc
    have hreg : c.server.registered fd = true := by
      simp [EpollServer.registered,h.refines.cbMap,hn,Option.isSome_iff_ne_none,hc]
    have hleaves : ¬leavesReady fd false k.onUnregistration = true := by
      simpa [settles,hreg] using ho
    exact not_exists.mp fun hl => hleaves ((h.unregistered hn hc k).mp hl)
  · intro hi
    exact List.sublist_nil.mp (h.tmp hi ▸ performWith_tmpList k a.registry o)

theorem Coupled.notedStep (h : Coupled c a) {e : NotedEvent} (he : noted.admits c e) :
    ∃ c' a', noted.step c e = .ok c' ∧ Coupled c' a' ∧
      ∀ x, a'.registry.mask x = requestEvent x (a.registry.mask x) e.2 := by
  obtain ⟨k,e⟩ := e
  obtain ⟨he,hset⟩ := he
  cases e with
  | op o =>
    obtain ⟨c',h₁,h₂⟩ := h.notedOp k o hset
    exact ⟨c',_,h₁,h₂,fun x => Registry.mask_performWith k _ o x⟩
  | callReadyListCallbacks =>
    obtain ⟨c',h₁,h₂⟩ := h.step he
    exact ⟨c',_,h₁,h₂,fun x => RegistryConfig.mask_step a _ x⟩
  | nextReady =>
    obtain ⟨c',h₁,h₂⟩ := h.step he
    exact ⟨c',_,h₁,h₂,fun x => RegistryConfig.mask_step a _ x⟩
  | onEventReturns mask =>
    obtain ⟨c',h₁,h₂⟩ := h.step he
    exact ⟨c',_,h₁,h₂,fun x => RegistryConfig.mask_step a _ x⟩

theorem noted_inductive : noted.Inductive Sound where
  keeps := by
    rintro c e ⟨a,ha⟩ he
    obtain ⟨c',a',h₁,h₂,_⟩ := ha.notedStep he
    exact ⟨c',h₁,a',h₂⟩

theorem request_none {o : Op} (ho : ∀ cb mask, o ≠ .registerFD fd cb mask) : request fd none o = none := by
  cases o with
  | registerFD x cb mask =>
    refine if_neg ?_
    rintro rfl
    exact ho cb mask rfl
  | _ => simp [request,modifyRequest]

theorem unregistered_of_run {es : List NotedEvent} (h : noted.Run c es d) (ha : Coupled c a)
    (hm : a.registry.mask fd = none) (hes : ∀ e ∈ es, e.registers fd = false) :
    ∃ b, Coupled d b ∧ b.registry.mask fd = none := by
  induction h generalizing a with
  | nil => exact ⟨a,ha,hm⟩
  | @cons c c₁ d e es he hs _ ih =>
    obtain ⟨c',a',h₁,ha',hmask⟩ := ha.notedStep he
    rw [hs] at h₁
    cases h₁
    refine ih ha' ?_ fun e he => hes e (by simp [he])
    rw [hmask fd,hm]
    have hreg := hes e (by simp)
    obtain ⟨k,e⟩ := e
    cases e with
    | op o =>
      refine request_none fun cb mask ho => ?_
      subst ho
      simp [NotedEvent.registers] at hreg
    | _ => rfl

/-- A callback that leaves its own descriptor ready leaves a node behind that is on the
ready list and that `cb_map_` does not hold any more, or only as a tombstone. -/
theorem Coupled.not_offLists (h : Coupled c a) (hfd : c.server.registered fd = true)
    {k : NotifyCalls} (hk : leavesReady fd false k.onUnregistration = true) {c' : EpollConfig}
    (hc' : c.step k.notify (.op (.unregisterFD fd)) = .ok c') : ¬c'.OffLists fd := by
  obtain ⟨n,hn,hc⟩ := h.registered hfd
  obtain ⟨j,hj⟩ := (h.unregistered hn hc k).mpr hk
  obtain ⟨s',h₁,hs',_⟩ := performWith_simulates k h.refines h.agree h.wf (.unregisterFD fd)
  have hserver : c'.server = s' := by
    rw [EpollConfig.step,h₁] at hc'
    cases hc'
    rfl
  have hlists : (a.registry.performWith k (.unregisterFD fd)).lists =
      ((a.registry.unlink ⟨fd,n.serial⟩).makes k.onUnregistration).lists := by
    simp only [Registry.performWith,Registry.onRegistered,hn,hc,if_false]
    split_ifs
    · exact Registry.lists_edit _ _ _
    · rfl
  rintro ⟨ready,tmp,hl,hoff⟩
  rw [← hlists] at hj
  have hchain := hs'.rep.chain
  rw [← hserver] at hchain
  refine hoff ⟨fd,n.serial⟩ (List.mem_append.mpr ?_) rfl
  cases j with
  | readyList => exact Or.inl ((hchain _).unique hl.readyChain ▸ hj)
  | tmpList => exact Or.inr ((hchain _).unique hl.tmpChain ▸ hj)

/-- After an `UnregisterFD` the descriptor is on neither list and every node on a list is
alive, at once and, unless it is registered again, for ever after, in particular
when the round that is going on is over: exactly if `OnUnregistration` does not leave
its own descriptor ready. -/
theorem unregisterFD_safe_iff {es : List NotedEvent} (h : noted.Run init es c)
    (hc : c.control ≠ .loop) (hfd : c.server.registered fd = true) (k : NotifyCalls) :
    (∃ c', c.step k.notify (.op (.unregisterFD fd)) = .ok c' ∧ c'.OffLists fd ∧
      ∀ es' d, noted.Run c' es' d → noted.Safe d ∧ (∃ ready tmp, d.ReadyLists ready tmp) ∧
        ((∀ e ∈ es', e.registers fd = false) → d.OffLists fd)) ↔
    leavesReady fd false k.onUnregistration = false := by
  obtain ⟨a,ha⟩ := noted_inductive.run h ⟨_,.initial⟩
  constructor
  · rintro ⟨c',hc',hoff,_⟩
    by_contra hk
    exact ha.not_offLists hfd (by simpa using hk) hc' hoff
  · intro hk
    have hadm : noted.admits c (k,.op (.unregisterFD fd)) := ⟨hc,by simp [settles,hk]⟩
    obtain ⟨c',a',h₁,ha',hmask⟩ := ha.notedStep hadm
    have hm : a'.registry.mask fd = none := by
      rw [hmask fd]
      simp [requestEvent,request]
    refine ⟨c',h₁,ha'.offLists hm,fun es' d hrun => ?_⟩
    obtain ⟨b,hb⟩ := noted_inductive.run hrun ⟨a',ha'⟩
    refine ⟨noted_inductive.safe ⟨b,hb⟩,⟨_,_,hb.readyLists⟩,fun hes => ?_⟩
    obtain ⟨b',hb',hm'⟩ := unregistered_of_run hrun ha' hm hes
    exact hb'.offLists hm'

/-- Inside its own `OnEvent` a descriptor is unregistered; its `OnUnregistration` makes
it ready and takes that back, and makes another descriptor ready. -/
theorem unregisterFD_safe_in_use :
    let k : NotifyCalls :=
      ⟨[],[],[.setFDReady 3 epollIn,.setFDReady 4 epollOut,.setFDNotReady 3]⟩
    ∃ c, noted.Run init [(⟨[.setFDReady 3 epollIn],[],[]⟩,.op (.registerFD 3 1 epollIn)),
        (⟨[],[],[]⟩,.op (.registerFD 4 2 epollIn)),(⟨[],[],[]⟩,.callReadyListCallbacks),
        (⟨[],[],[]⟩,.nextReady)] c ∧ c.control ≠ .loop ∧ c.server.registered 3 = true ∧
      ∃ c', c.step k.notify (.op (.unregisterFD 3)) = .ok c' ∧ c'.OffLists 3 := by
  intro k
  obtain ⟨c,hrun,hc⟩ : ∃ c, noted.Run init
      [(⟨[.setFDReady 3 epollIn],[],[]⟩,.op (.registerFD 3 1 epollIn)),
        (⟨[],[],[]⟩,.op (.registerFD 4 2 epollIn)),(⟨[],[],[]⟩,.callReadyListCallbacks),
        (⟨[],[],[]⟩,.nextReady)] c ∧
      decide (c.control ≠ .loop ∧ c.server.registered 3 = true) = true :=
    noted.exists_run_of_exec_any (by decide +kernel)
  obtain ⟨hloop,hreg⟩ := of_decide_eq_true hc
  obtain ⟨c',h₁,h₂,_⟩ := (unregisterFD_safe_iff hrun hloop hreg k).mpr (by decide)
  exact ⟨c,hrun,hloop,hreg,c',h₁,h₂⟩

/-- A descriptor is registered and unregistered, and its `OnUnregistration` makes it
ready: `SetFDReady` still finds it registered and puts the node, which is about to be
freed, back on the ready list. -/
theorem unregisterFD_leaves_dangling_node :
    ¬∀ es c fd k, machine.Run init es c → c.control ≠ .loop → c.server.registered fd = true →
      ∃ c', c.step (NotifyCalls.notify k) (.op (.unregisterFD fd)) = .ok c' ∧ c'.OffLists fd := by
  intro h
  obtain ⟨c,hrun,hc⟩ : ∃ c, machine.Run init [.op (.registerFD 3 1 epollIn)] c ∧
      decide (c.control ≠ .loop ∧ c.server.registered 3 = true) = true :=
    machine.exists_run_of_exec_any (by decide +kernel)
  obtain ⟨hloop,hreg⟩ := of_decide_eq_true hc
  obtain ⟨a,ha⟩ := sound_inductive.run hrun ⟨_,.initial⟩
  obtain ⟨c',h₁,h₂⟩ := h _ c 3 ⟨[],[],[.setFDReady 3 epollIn]⟩ hrun hloop hreg
  exact ha.not_offLists hreg (by decide) h₁ h₂

end EpollConfig
end CmuQuic
