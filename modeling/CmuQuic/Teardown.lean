import CmuQuic.ReadyList

/-! `~EpollServer`: `CleanupFDToCBMap` takes the nodes of `cb_map_` in the order of the
hash map, calls `OnShutdown` for each and erases it. It does not take a node off the
ready list before that. -/
namespace CmuQuic
open IntrusiveList EpollServer

def EpollServer.eraseNode (s : EpollServer) (p : NodePtr) : Except Abort EpollServer :=
  if s.live p then .ok { s with cbMap := s.cbMap.erase p.fd } else .error .access

inductive CleanupControl
  | loop
  | onShutdown (node : NodePtr)
  | done
  deriving DecidableEq

def CleanupControl.frame : CleanupControl → Option NodePtr
  | .onShutdown p => some p
  | _ => none

structure Teardown where
  server : EpollServer
  control : CleanupControl

namespace Teardown

/-- A node becomes the first one of the map, an `OnShutdown` makes a call or comes back,
or the map is empty. -/
inductive Event
  | visit (fd : Fd)
  | op (o : Op)
  | onShutdownReturns
  | finish

def shutdownOp : Op → Bool
  | .unregisterFD _ => true
  | .setFDReady _ _ => true
  | .setFDNotReady _ => true
  | .modifyCallback _ _ => true
  | _ => false

/-- The order of a hash map is unspecified. -/
def admits (t : Teardown) : Event → Prop
  | .visit fd => t.control = .loop ∧ fd ∈ t.server.cbMap
  | .op o => t.control.frame.isSome = true ∧ shutdownOp o = true
  | .onShutdownReturns => t.control.frame.isSome = true
  | .finish => t.control = .loop ∧ t.server.cbMap = ∅

instance (t : Teardown) : (e : Event) → Decidable (t.admits e)
  | .visit _ => inferInstanceAs (Decidable (_ = _ ∧ _ ∈ _))
  | .op _ => inferInstanceAs (Decidable (_ = _ ∧ _ = _))
  | .onShutdownReturns => inferInstanceAs (Decidable (_ = _))
  | .finish => inferInstanceAs (Decidable (_ = _ ∧ _ = _))

def step (t : Teardown) : Event → Except Abort Teardown
  | .visit fd =>
    match t.server.cbMap.lookup fd with
    | none => .error .access
    | some n => do
      let p : NodePtr := ⟨fd,n.serial⟩
      let s ← t.server.writeNode p fun n => { n with inUse := true }
      match n.cb with
      | some _ => .ok ⟨s,.onShutdown p⟩
      | none => do
        let s ← s.eraseNode p
        .ok ⟨s,.loop⟩
  | .op o => do
    let s ← t.server.perform .silent o
    .ok { t with server := s }
  | .onShutdownReturns =>
    match t.control with
    | .onShutdown p => do
      let s ← t.server.eraseNode p
      .ok ⟨s,.loop⟩
    | _ => .ok t
  | .finish => .ok { t with control := .done }

def machine : Machine Teardown Event Abort := ⟨admits,step⟩

instance (t : Teardown) (e : Event) : Decidable (machine.admits t e) :=
  inferInstanceAs (Decidable (t.admits e))

def start (s : EpollServer) : Teardown := ⟨s,.loop⟩

def erases (t : Teardown) : Event → Option NodePtr
  | .visit fd => (t.server.cbMap.lookup fd).bind fun n =>
    if n.cb = none then some ⟨fd,n.serial⟩ else none
  | .onShutdownReturns => t.control.frame
  | _ => none

/-- A node that is erased is not linked. -/
def clean : Machine Teardown Event Abort where
  admits t e := t.admits e ∧ ∀ p ∈ t.erases e, t.server.links.lePrev p = none
  step := step

instance (t : Teardown) (e : Event) : Decidable (clean.admits t e) :=
  inferInstanceAs (Decidable (t.admits e ∧ ∀ p ∈ t.erases e, t.server.links.lePrev p = none))

def Event.isVisit : Event → Bool
  | .visit _ => true
  | _ => false

/-- Whether a descriptor is ready after a call, if it is still registered. -/
def readyCall (fd : Fd) (ready : Option Bool) : Op → Option Bool
  | .unregisterFD x => if x = fd then none else ready
  | .setFDReady x _ => if x = fd then ready.map fun _ => true else ready
  | .setFDNotReady x => if x = fd then ready.map fun _ => false else ready
  | _ => ready

def Event.readyCall (fd : Fd) (ready : Option Bool) : Event → Option Bool
  | .op o => Teardown.readyCall fd ready o
  | _ => ready

/-- What the calls of the clean-up make of a descriptor, which was ready at entry or not. -/
def readyAfter (s : EpollServer) (fs : List Event) (fd : Fd) : Option Bool :=
  fs.foldl (Event.readyCall fd) (some (s.isFDReady fd))

def Event.visited (last : Option Fd) : Event → Option Fd
  | .visit fd => some fd
  | _ => last

def visited (fs : List Event) : Option Fd := fs.foldl Event.visited none

/-- A descriptor is not left ready by the `OnShutdown` of its node: it was not ready at entry
and nobody called `SetFDReady`, or the last call after that was `SetFDNotReady`, or somebody
has unregistered it. -/
def TakenOff (s : EpollServer) (fs : List Event) : Prop :=
  ∀ gs hs fd, fs = gs ++ .onShutdownReturns :: hs → visited gs = some fd →
    readyAfter s gs fd ≠ some true

/-- What should hold at every point of `CleanupFDToCBMap`, entered with the server `s`:
what is on the ready list is in the map, as are the neighbours that an unlink writes
to; nothing aborts; the loop takes no more turns than there were nodes, can be
finished, and is finished with an empty map. -/
structure Holds (s : EpollServer) (fs : List Event) (t : Teardown) : Prop where
  live : ∃ ready, t.server.links.Chain (.first .readyList) ready ∧
    ∀ p ∈ ready, t.server.live p = true
  neighbours : ∀ p q, t.server.live p = true → t.server.links.lePrev p = some q →
    Links.slotLive t.server.live q = true ∧
      ∀ b, t.server.links.leNext p = some b → t.server.live b = true
  safe : machine.Safe t
  turns : fs.countP Event.isVisit ≤ s.cbMap.keys.card
  finishes : ∃ gs t', machine.Run t gs t' ∧ t'.control = .done
  finished : t.control = .done → t.server.cbMap = ∅

/-- What is registered is in the epoll set, which keeps the descriptors of erased nodes. -/
def Covers (m : Finmap (fun _ : Fd => Mask)) (r : Registry) : Prop :=
  ∀ fd, r.watched fd ≠ none → fd ∈ m

end Teardown

def Registry.ready (r : Registry) (fd : Fd) : Option Bool :=
  (r.cbMap.lookup fd).bind fun n => n.cb.map fun _ => decide (⟨fd,n.serial⟩ ∈ r.lists .readyList)

namespace Teardown

/-- The server during a clean-up that has erased no linked node. -/
structure Intact (s : EpollServer) (fs : List Event) (t : Teardown) (r : Registry) : Prop where
  refines : t.server.Refines r
  wf : r.WF t.control.frame
  tmp : r.lists .tmpList = []
  covers : Covers t.server.epollSet r
  turns : fs.countP Event.isVisit + t.server.cbMap.keys.card ≤
    s.cbMap.keys.card + if t.control.frame.isSome then 1 else 0
  finished : t.control = .done → t.server.cbMap = ∅
  shutting : ∀ p, t.control = .onShutdown p → visited fs = some p.fd
  ready : ∀ fd ∈ r.cbMap, readyAfter s fs fd = r.ready fd

section Ops

variable {s : EpollServer} {r : Registry} {frame : Option NodePtr}

theorem Covers.congr {m : Finmap (fun _ : Fd => Mask)} {r' : Registry} (h : Covers m r)
    (hw : ∀ fd, r'.watched fd = r.watched fd) : Covers m r' := fun fd hfd => h fd (hw fd ▸ hfd)

theorem Covers.of_lookup {m : Finmap (fun _ : Fd => Mask)} (h : Covers m r) {fd : Fd}
    {n : CBAndEventMask} (hn : r.cbMap.lookup fd = some n) (hc : n.cb ≠ none) : fd ∈ m :=
  h fd (by simpa [Registry.watched,hn] using hc)

theorem perform_covers (hs : s.Refines r) (hr : r.WF frame) (hcov : Covers s.epollSet r) {o : Op}
    (ho : shutdownOp o = true) : ∃ s', s.perform .silent o = .ok s' ∧ s'.Refines (r.perform o) ∧
      Covers s'.epollSet (r.perform o) := by
  rw [← hr.performWith_nil o]
  cases o with
  | unregisterFD fd =>
    by_cases hreg : ∀ n, r.cbMap.lookup fd = some n → n.cb = none
    · obtain ⟨h₁,h₂⟩ := unregisterFD_ignored hs hreg ⟨[],[],[]⟩
      rw [h₂]
      exact ⟨s,h₁,hs,hcov⟩
    · push Not at hreg
      obtain ⟨n,hn,hc⟩ := hreg
      obtain ⟨s',h₁,hs',he'⟩ := unregisterFD_refines ⟨[],[],[]⟩ hs hr hn hc (hcov.of_lookup hn hc)
      refine ⟨s',h₁,hs',fun x hx => ?_⟩
      rw [watched_unregister] at hx
      split_ifs at hx with hxfd
      · exact absurd rfl hx
      · rw [he']
        exact Finmap.mem_erase.mpr ⟨hxfd,hcov x hx⟩
  | modifyCallback fd mask =>
    by_cases hreg : ∀ n, r.cbMap.lookup fd = some n → n.cb = none
    · obtain ⟨h₁,h₂⟩ := modifyFD_ignored hs hreg ⟨[],[],[]⟩ (~~~0#32) mask
      rw [Registry.performWith,h₂]
      exact ⟨s,h₁,hs,hcov⟩
    · push Not at hreg
      obtain ⟨n,hn,hc⟩ := hreg
      obtain ⟨s',h₁,hs',he'⟩ := modifyFD_refines ⟨[],[],[]⟩ hs hr hn hc (hcov.of_lookup hn hc)
        (~~~0#32) mask
      refine ⟨s',h₁,hs',fun x hx => ?_⟩
      rw [Registry.performWith,watched_modify _ hn hc] at hx
      rw [he',Finmap.mem_insert]
      split_ifs at hx with hxfd
      · exact Or.inl hxfd
      · exact Or.inr (hcov x hx)
  | setFDReady fd mask =>
    obtain ⟨s',h₁,hs',he'⟩ := setFDReady_refines hs hr fd mask
    exact ⟨s',h₁,hs',he' ▸ hcov.congr (watched_raise (fun _ => rfl) (fun _ => rfl))⟩
  | setFDNotReady fd =>
    obtain ⟨s',h₁,hs',he'⟩ := setFDNotReady_refines hs hr fd
    exact ⟨s',h₁,hs',he' ▸ hcov.congr (watched_notReady fd)⟩
  | _ => cases ho

theorem keys_edit (fd : Fd) (f : CBAndEventMask → CBAndEventMask) :
    (r.edit fd f).cbMap.keys = r.cbMap.keys := by
  ext x
  rw [Finmap.mem_keys,Finmap.mem_keys,← Finmap.lookup_isSome,← Finmap.lookup_isSome,
    Registry.lookup_edit]
  split_ifs with hx
  · subst hx
    rw [Option.isSome_map]
  · rfl

theorem keys_perform {o : Op} (ho : shutdownOp o = true) :
    (r.perform o).cbMap.keys ⊆ r.cbMap.keys := by
  cases o with
  | unregisterFD fd =>
    simp only [Registry.perform,Registry.unregister,Registry.onRegistered]
    split
    · rfl
    split_ifs
    · rfl
    · rw [keys_edit]
      rfl
    · show (Finmap.erase fd r.cbMap).keys ⊆ r.cbMap.keys
      rw [Finmap.keys_erase]
      exact Finset.erase_subset fd _
  | modifyCallback fd mask =>
    simp only [Registry.perform,Registry.modify,Registry.onRegistered]
    split
    · rfl
    split_ifs
    · rfl
    · rw [keys_edit]
  | setFDReady fd mask =>
    simp only [Registry.perform,Registry.raise,Registry.onRegistered]
    split
    · rfl
    split_ifs
    · rfl
    · rw [Registry.cbMap_link,keys_edit]
  | setFDNotReady fd =>
    show (r.notReady fd).cbMap.keys ⊆ r.cbMap.keys
    rw [Registry.cbMap_notReady]
  | _ => cases ho

theorem linked_iff_ready (hs : s.Refines r) (htmp : r.lists .tmpList = []) (p : NodePtr) :
    s.links.lePrev p ≠ none ↔ p ∈ r.lists .readyList := by
  rw [hs.rep.linked]
  constructor
  · rintro ⟨k,hk⟩
    cases k with
    | readyList => exact hk
    | tmpList => simp [htmp] at hk
  · exact fun hp => ⟨_,hp⟩

theorem ready_edit {fd : Fd} {f : CBAndEventMask → CBAndEventMask}
    (hf : ∀ n, (f n).cb = n.cb ∧ (f n).serial = n.serial) (x : Fd) :
    (r.edit fd f).ready x = r.ready x := by
  simp only [Registry.ready,Registry.lookup_edit,Registry.lists_edit]
  split_ifs with hx
  · subst hx
    cases r.cbMap.lookup x with
    | none => rfl
    | some n => simp [(hf n).1,(hf n).2]
  · rfl

theorem ready_congr {r' : Registry} {x : Fd} (hmap : r'.cbMap.lookup x = r.cbMap.lookup x)
    (hlist : ∀ m, ⟨x,m⟩ ∈ r'.lists .readyList ↔ ⟨x,m⟩ ∈ r.lists .readyList) :
    r'.ready x = r.ready x := by
  simp only [Registry.ready,hmap,hlist]

theorem mem_unlink_of_ne {fd x : Fd} (hx : fd ≠ x) (k m : ℕ) :
    ⟨x,m⟩ ∈ (r.unlink ⟨fd,k⟩).lists .readyList ↔ ⟨x,m⟩ ∈ r.lists .readyList :=
  List.mem_erase_of_ne fun h => hx (congrArg NodePtr.fd h).symm

theorem ready_onRegistered {g : CBAndEventMask → Registry} {k : Option Bool → Option Bool} {fd x : Fd}
    (hk : k none = none) (hg : ∀ n, r.cbMap.lookup fd = some n → n.cb ≠ none →
      (g n).ready x = if fd = x then k (r.ready x) else r.ready x) :
    (r.onRegistered fd g).ready x = if fd = x then k (r.ready x) else r.ready x := by
  unfold Registry.onRegistered
  split
  · rename_i hl
    split_ifs with hx
    · subst hx
      simp [Registry.ready,hl,hk]
    · rfl
  · rename_i n hl
    split_ifs with hcb hx hx
    · subst hx
      simp [Registry.ready,hl,hcb,hk]
    · rfl
    · simpa [hx] using hg n hl hcb
    · simpa [hx] using hg n hl hcb

theorem ready_unregister (fd x : Fd) :
    (r.unregister fd).ready x = if fd = x then none else r.ready x := by
  refine ready_onRegistered (k:=fun _ => none) rfl fun n hl _ => ?_
  split_ifs with huse hx hx
  · subst hx
    simp [Registry.ready,Registry.lookup_edit,hl]
  · refine ready_congr ?_ fun m => ?_
    · rw [Registry.lookup_edit,if_neg (Ne.symm hx),Registry.cbMap_unlink]
    · rw [Registry.lists_edit]
      exact mem_unlink_of_ne hx _ m
  · subst hx
    simp [Registry.ready,Registry.drop]
  · exact ready_congr (Finmap.lookup_erase_ne (Ne.symm hx)) (mem_unlink_of_ne hx _)

theorem ready_link (htmp : r.lists .tmpList = []) {fd : Fd} {n : CBAndEventMask}
    (hl : r.cbMap.lookup fd = some n) (x : Fd) : (r.link ⟨fd,n.serial⟩).ready x =
      if fd = x then (r.ready x).map fun _ => true else r.ready x := by
  have hlinked : ∀ q, q ∈ (r.link ⟨fd,n.serial⟩).lists .readyList ↔
      q = ⟨fd,n.serial⟩ ∨ q ∈ r.lists .readyList := by
    intro q
    unfold Registry.link
    split_ifs with hin
    · simp only [htmp,List.not_mem_nil,or_false] at hin
      exact ⟨Or.inr,fun hq => hq.elim (fun hq => hq ▸ hin) id⟩
    · simp
  simp only [Registry.ready,Registry.cbMap_link,hlinked]
  split_ifs with hx
  · subst hx
    simp [hl,Option.map_map,Function.comp_def]
  · have hne : ∀ m, (⟨x,m⟩ : NodePtr) ≠ ⟨fd,n.serial⟩ := fun m h => hx (congrArg NodePtr.fd h).symm
    simp [hne]

theorem ready_raise (htmp : r.lists .tmpList = []) {f : CBAndEventMask → CBAndEventMask}
    (hf : ∀ n, (f n).cb = n.cb ∧ (f n).serial = n.serial) (fd x : Fd) :
    (r.raise fd f).ready x = if fd = x then (r.ready x).map fun _ => true else r.ready x := by
  refine ready_onRegistered (k:=Option.map fun _ => true) rfl fun n hl _ => ?_
  have hl' : (r.edit fd f).cbMap.lookup fd = some (f n) := by
    rw [Registry.lookup_edit,if_pos rfl,hl,Option.map_some]
  have hlink := ready_link (r:=r.edit fd f) (by rw [Registry.lists_edit,htmp]) hl' x
  rwa [(hf n).2,ready_edit hf] at hlink

theorem ready_notReady (hr : r.WF frame) (fd x : Fd) :
    (r.notReady fd).ready x = if fd = x then (r.ready x).map fun _ => false else r.ready x := by
  unfold Registry.notReady
  cases hl : r.cbMap.lookup fd with
  | none =>
    split_ifs with hx
    · subst hx
      simp [Registry.ready,hl]
    · rfl
  | some n =>
    split_ifs with hx
    · subst hx
      have hgone := (hr.separate.nodup .readyList).not_mem_erase (a:=⟨fd,n.serial⟩)
      simp [Registry.ready,Registry.unlink,hl,hgone,Option.map_map,Function.comp_def]
    · exact ready_congr rfl (mem_unlink_of_ne hx _)

theorem ready_perform (hr : r.WF frame) (htmp : r.lists .tmpList = []) {o : Op}
    (ho : shutdownOp o = true) (x : Fd) : (r.perform o).ready x = readyCall x (r.ready x) o := by
  cases o with
  | unregisterFD fd => exact ready_unregister fd x
  | modifyCallback fd mask =>
    have hmodify : (r.modify fd (~~~0#32) mask).ready x = if fd = x then r.ready x else r.ready x :=
      ready_onRegistered (k:=id) rfl fun n _ _ =>
        (ready_edit (f:=fun n => { n with eventMask := (n.eventMask &&& ~~~~~~0#32) ||| mask })
          (fun _ => ⟨rfl,rfl⟩) x).trans (ite_self _).symm
    exact hmodify.trans (ite_self _)
  | setFDReady fd mask =>
    exact ready_raise htmp (f:=fun n => { n with eventsToFake := mask }) (fun _ => ⟨rfl,rfl⟩) fd x
  | setFDNotReady fd => exact ready_notReady hr fd x
  | _ => cases ho

end Ops

variable {s : EpollServer} {fs : List Event} {t t' : Teardown} {r : Registry} {p : NodePtr}

theorem Intact.mem_frame (h : Intact s fs t r) (hc : t.control = .onShutdown p) :
    ∃ n, r.deref p = some n ∧ p.fd ∈ t.server.cbMap.keys := by
  obtain ⟨n,hn⟩ := h.wf.frameLive (p:=p) (by rw [hc]; rfl)
  refine ⟨n,hn,?_⟩
  rw [Finmap.mem_keys,h.refines.cbMap,← Finmap.lookup_isSome,(Registry.deref_eq_some.mp hn).1]
  rfl

theorem Intact.registered (h : Intact s fs t r) (hc : t.control = .loop) {fd : Fd}
    {n : CBAndEventMask} (hn : r.cbMap.lookup fd = some n) : n.cb ≠ none := by
  intro hcb
  have hframe := (h.wf.inUse hn).mp (h.wf.tomb hn hcb)
  simp [hc,CleanupControl.frame] at hframe

theorem Intact.visit (h : Intact s fs t r) (hc : t.control = .loop) {fd : Fd} {n : CBAndEventMask}
    (hn : r.cbMap.lookup fd = some n) : ∃ s',
      machine.step t (.visit fd) = .ok ⟨s',.onShutdown ⟨fd,n.serial⟩⟩ ∧
      Intact s (fs ++ [.visit fd]) ⟨s',.onShutdown ⟨fd,n.serial⟩⟩
        (r.edit fd fun n => { n with inUse := true }) := by
  have hcb := h.registered hc hn
  obtain ⟨cb,hcb'⟩ := Option.ne_none_iff_exists'.mp hcb
  have hd : r.deref ⟨fd,n.serial⟩ = some n := Registry.deref_eq_some.mpr ⟨hn,rfl⟩
  have hwf : r.WF none := by simpa [hc,CleanupControl.frame] using h.wf
  obtain ⟨s',h₁,hs',he'⟩ := writeNode_refines h.refines hd (fun n => { n with inUse := true })
  have hedit : (r.edit fd fun n => { n with inUse := true }).WF (some ⟨fd,n.serial⟩) := by
    refine hwf.edit (fun _ => rfl) ?_ ?_ ?_ ?_
    · intro m hm _
      rw [Option.some.inj (hm.symm.trans hn)]
      exact hcb
    · intro m hm
      rw [Option.some.inj (hm.symm.trans hn)]
      exact ⟨by simp,by simp⟩
    · intro q hq
      simp only [Option.some.injEq,reduceCtorEq,iff_false]
      rintro rfl
      exact hq rfl
    · intro q hq
      cases hq
      exact ⟨n,hd⟩
  refine ⟨s',?_,hs',hedit,by rw [Registry.lists_edit,h.tmp],?_,?_,by simp,?_,fun x hx => ?_⟩
  · simp only [machine,step,h.refines.cbMap,hn,h₁,except_ok_bind,hcb']
  · rw [he']
    exact h.covers.congr (watched_edit (fun _ => rfl) (fun _ => rfl))
  · have hcard : s'.cbMap.keys = t.server.cbMap.keys := by
      rw [hs'.cbMap,keys_edit,h.refines.cbMap]
    have hturns := h.turns
    simp only [hc,CleanupControl.frame,Option.isSome_none,Bool.false_eq_true,if_false] at hturns
    simp only [List.countP_append,List.countP_singleton,Event.isVisit,if_true,hcard,
      CleanupControl.frame,Option.isSome_some]
    omega
  · intro p hp
    cases hp
    simp [visited,Event.visited]
  · rw [ready_edit (f:=fun n => { n with inUse := true }) (fun _ => ⟨rfl,rfl⟩),
      ← h.ready x (by rwa [← Finmap.mem_keys,keys_edit] at hx)]
    simp [readyAfter,Event.readyCall]

theorem Intact.op (h : Intact s fs t r) (hf : t.control.frame.isSome = true) {o : Op}
    (ho : shutdownOp o = true) : ∃ s',
    t.server.perform .silent o = .ok s' ∧
    Intact s (fs ++ [.op o]) { t with server := s' } (r.perform o) := by
  obtain ⟨s',h₁,hs',hcov'⟩ := perform_covers h.refines h.wf h.covers ho
  have hkeys : s'.cbMap.keys ⊆ t.server.cbMap.keys := by
    rw [hs'.cbMap,h.refines.cbMap]
    exact keys_perform ho
  refine ⟨s',h₁,hs',h.wf.perform o,?_,hcov',?_,fun hd => ?_,fun p hp => ?_,fun x hx => ?_⟩
  · exact List.sublist_nil.mp (h.tmp ▸ EpollConfig.perform_tmpList h.wf o)
  · have hturns := h.turns
    have hcard := Finset.card_le_card hkeys
    simp only [List.countP_append,List.countP_singleton,Event.isVisit,Bool.false_eq_true,if_false]
    omega
  · replace hd : t.control = .done := hd
    simp [hd,CleanupControl.frame] at hf
  · rw [← h.shutting p hp]
    simp [visited,Event.visited]
  · rw [ready_perform h.wf h.tmp ho,← h.ready x (Finmap.mem_keys.mp (keys_perform ho hx))]
    simp [readyAfter,Event.readyCall]

theorem Intact.step_returns (h : Intact s fs t r) (hc : t.control = .onShutdown p) :
    machine.step t .onShutdownReturns =
      .ok ⟨{ t.server with cbMap := t.server.cbMap.erase p.fd },.loop⟩ := by
  obtain ⟨n,hn,_⟩ := h.mem_frame hc
  simp [machine,step,hc,eraseNode,h.refines.live hn]

theorem Intact.returns (h : Intact s fs t r) (hc : t.control = .onShutdown p)
    (hp : t.server.links.lePrev p = none) : Intact s (fs ++ [.onShutdownReturns])
      ⟨{ t.server with cbMap := t.server.cbMap.erase p.fd },.loop⟩ (r.drop p.fd) := by
  have hwf : r.WF (some p) := by simpa [hc,CleanupControl.frame] using h.wf
  obtain ⟨n,hn,hin⟩ := h.mem_frame hc
  refine ⟨drop_refines h.refines p.fd,hwf.dropFrame (h.refines.rep.not_mem hp),h.tmp,fun x hx => ?_,
    ?_,by simp,by simp,fun x hx => ?_⟩
  · refine h.covers x fun hnone => hx ?_
    rw [Registry.watched] at hnone ⊢
    rw [Registry.drop,lookup_erase_ite]
    split_ifs
    · rfl
    · exact hnone
  · have hturns := h.turns
    have hcard := Finset.card_erase_of_mem hin
    have hpos := Finset.card_pos.mpr ⟨_,hin⟩
    simp only [hc,CleanupControl.frame,Option.isSome_some,if_true] at hturns
    simp only [List.countP_append,List.countP_singleton,Event.isVisit,Bool.false_eq_true,if_false,
      CleanupControl.frame,Option.isSome_none,Finmap.keys_erase,hcard]
    omega
  · obtain ⟨hne,hx⟩ := Finmap.mem_erase.mp hx
    have hsame : (r.drop p.fd).ready x = r.ready x :=
      ready_congr (Finmap.lookup_erase_ne hne) fun _ => Iff.rfl
    rw [hsame,← h.ready x hx]
    simp [readyAfter,Event.readyCall]

theorem onShutdown_of_frame (h : t.control.frame.isSome = true) : ∃ p, t.control = .onShutdown p := by
  cases hc : t.control with
  | onShutdown p => exact ⟨p,rfl⟩
  | loop => simp [hc,CleanupControl.frame] at h
  | done => simp [hc,CleanupControl.frame] at h

theorem Intact.lookup_of_mem (h : Intact s fs t r) {fd : Fd} (hfd : fd ∈ t.server.cbMap) :
    ∃ n, r.cbMap.lookup fd = some n := by
  rw [h.refines.cbMap,← Finmap.lookup_isSome] at hfd
  exact Option.isSome_iff_exists.mp hfd

theorem Intact.step (h : Intact s fs t r) {e : Event} (he : clean.admits t e)
    (hs : machine.step t e = .ok t') : ∃ r', Intact s (fs ++ [e]) t' r' := by
  obtain ⟨hadmits,herases⟩ := he
  cases e with
  | visit fd =>
    obtain ⟨hc,hfd⟩ := hadmits
    obtain ⟨n,hn⟩ := h.lookup_of_mem hfd
    obtain ⟨s',h₁,h'⟩ := h.visit hc hn
    rw [hs] at h₁
    cases h₁
    exact ⟨_,h'⟩
  | op o =>
    obtain ⟨s',h₁,h'⟩ := h.op hadmits.1 hadmits.2
    simp only [machine,Teardown.step,h₁,except_ok_bind] at hs
    cases hs
    exact ⟨_,h'⟩
  | onShutdownReturns =>
    obtain ⟨p,hc⟩ := onShutdown_of_frame hadmits
    have hp : t.server.links.lePrev p = none := herases p (by simp [erases,hc,CleanupControl.frame])
    rw [h.step_returns hc] at hs
    cases hs
    exact ⟨_,h.returns hc hp⟩
  | finish =>
    obtain ⟨hc,hempty⟩ := hadmits
    cases hs
    have hturns := h.turns
    refine ⟨r,h.refines,?_,h.tmp,h.covers,?_,fun _ => hempty,by simp,fun x hx => ?_⟩
    · simpa [hc,CleanupControl.frame] using h.wf
    · simpa [hc,CleanupControl.frame,Event.isVisit] using hturns
    · rw [← h.ready x hx]
      simp [readyAfter,Event.readyCall]

theorem Intact.safe (h : Intact s fs t r) : machine.Safe t := by
  intro e he
  cases e with
  | visit fd =>
    obtain ⟨hc,hfd⟩ := he
    obtain ⟨n,hn⟩ := h.lookup_of_mem hfd
    obtain ⟨s',h₁,_⟩ := h.visit hc hn
    exact ⟨_,h₁⟩
  | op o =>
    obtain ⟨s',h₁,_⟩ := h.op he.1 he.2
    exact ⟨{ t with server := s' },by simp [machine,Teardown.step,h₁]⟩
  | onShutdownReturns =>
    obtain ⟨p,hc⟩ := onShutdown_of_frame he
    exact ⟨_,h.step_returns hc⟩
  | finish => exact ⟨_,rfl⟩

theorem Intact.leaves (h : Intact s fs t r) (hc : t.control = .onShutdown p) :
    ∃ gs t' fs' r', machine.Run t gs t' ∧ Intact s fs' t' r' ∧ t'.control = .loop ∧
      t'.server.cbMap.keys.card+1 ≤ t.server.cbMap.keys.card := by
  obtain ⟨n,hn,_⟩ := h.mem_frame hc
  obtain ⟨hn₁,hn₂⟩ := Registry.deref_eq_some.mp hn
  obtain ⟨s',h₁,h'⟩ := h.op (o:=.setFDNotReady p.fd) (by rw [hc]; rfl) rfl
  have hunlinked : s'.links.lePrev p = none := by
    by_contra hlinked
    obtain ⟨k,hk⟩ := (h'.refines.rep.linked p).mp hlinked
    have hunlink : (r.perform (.setFDNotReady p.fd)).lists k = (r.lists k).erase p := by
      simp [Registry.perform,Registry.notReady,hn₁,hn₂,Registry.unlink]
    rw [hunlink] at hk
    exact (h.wf.separate.nodup k).not_mem_erase hk
  obtain ⟨_,_,hin⟩ := h'.mem_frame hc
  replace hin : p.fd ∈ s'.cbMap.keys := hin
  have hkeys : s'.cbMap.keys ⊆ t.server.cbMap.keys := by
    rw [h'.refines.cbMap,h.refines.cbMap]
    exact keys_perform rfl
  refine ⟨[.op (.setFDNotReady p.fd),.onShutdownReturns],
    ⟨{ s' with cbMap := s'.cbMap.erase p.fd },.loop⟩,_,_,?_,h'.returns hc hunlinked,rfl,?_⟩
  · refine .cons ⟨by rw [hc]; rfl,rfl⟩ ?_ (.single ?_ (h'.step_returns hc))
    · simp only [machine,Teardown.step,h₁,except_ok_bind]
    · show t.control.frame.isSome = true
      rw [hc]
      rfl
  · have hcard := Finset.card_le_card hkeys
    have hpos := Finset.card_pos.mpr ⟨_,hin⟩
    show (s'.cbMap.erase p.fd).keys.card+1 ≤ _
    rw [Finmap.keys_erase,Finset.card_erase_of_mem hin]
    omega

theorem Intact.finishes_loop (h : Intact s fs t r) (hc : t.control = .loop) :
    ∃ gs t', machine.Run t gs t' ∧ t'.control = .done := by
  generalize hk : t.server.cbMap.keys.card = k
  induction k using Nat.strong_induction_on generalizing t fs r with
  | _ k ih =>
  by_cases hempty : t.server.cbMap = ∅
  · exact ⟨[.finish],{ t with control := .done },.single ⟨hc,hempty⟩ rfl,rfl⟩
  · obtain ⟨fd,hfd⟩ : ∃ fd, fd ∈ t.server.cbMap := by
      by_contra hno
      push Not at hno
      exact hempty (Finmap.ext_lookup fun x => by
        rw [Finmap.lookup_empty,Finmap.lookup_eq_none]
        exact hno x)
    obtain ⟨n,hn⟩ := h.lookup_of_mem hfd
    obtain ⟨s',h₁,h'⟩ := h.visit hc hn
    obtain ⟨gs,t',fs',r',hrun,h'',hc',hcard⟩ := h'.leaves rfl
    have hsame : s'.cbMap.keys = t.server.cbMap.keys := by
      rw [h'.refines.cbMap,keys_edit,h.refines.cbMap]
    rw [hsame] at hcard
    obtain ⟨gs',u,hrun',hdone⟩ := ih _ (by omega) h'' hc' rfl
    exact ⟨.visit fd :: (gs ++ gs'),u,.cons ⟨hc,hfd⟩ h₁ (hrun.trans hrun'),hdone⟩

theorem Intact.finishes (h : Intact s fs t r) : ∃ gs t', machine.Run t gs t' ∧ t'.control = .done := by
  cases hc : t.control with
  | loop => exact h.finishes_loop hc
  | onShutdown p =>
    obtain ⟨gs,t',fs',r',hrun,h',hc',_⟩ := h.leaves hc
    obtain ⟨gs',u,hrun',hdone⟩ := h'.finishes_loop hc'
    exact ⟨gs ++ gs',u,hrun.trans hrun',hdone⟩
  | done => exact ⟨[],t,.nil t,hc⟩

theorem Intact.holds (h : Intact s fs t r) : Holds s fs t where
  live := ⟨_,h.refines.rep.chain .readyList,fun _ hp => h.refines.live_of_mem h.wf hp⟩
  neighbours _ _ _ hq := h.refines.neighbours h.wf hq
  safe := h.safe
  turns := by
    have hturns := h.turns
    split_ifs at hturns with hframe
    · -- the node of the running `OnShutdown` is still in the map
      obtain ⟨p,hc⟩ := onShutdown_of_frame hframe
      obtain ⟨n,_,hin⟩ := h.mem_frame hc
      have hpos := Finset.card_pos.mpr ⟨_,hin⟩
      omega
    · omega
  finishes := h.finishes
  finished := h.finished

theorem Intact.erases_linked (h : Intact s fs t r) {e : Event} (he : machine.admits t e)
    (hclean : ¬ clean.admits t e) : e = .onShutdownReturns ∧
      ∃ p, t.control = .onShutdown p ∧ t.server.links.lePrev p ≠ none := by
  obtain ⟨p,hp,hlinked⟩ : ∃ p, t.erases e = some p ∧ t.server.links.lePrev p ≠ none := by
    by_contra hno
    push Not at hno
    exact hclean ⟨he,fun p hp => hno p hp⟩
  cases e with
  | visit fd =>
    obtain ⟨hc,hfd⟩ := he
    obtain ⟨n,hn⟩ := h.lookup_of_mem hfd
    simp [erases,h.refines.cbMap,hn,h.registered hc hn] at hp
  | op o => cases hp
  | onShutdownReturns =>
    obtain ⟨q,hc⟩ := onShutdown_of_frame he
    obtain rfl : q = p := by simpa [erases,hc,CleanupControl.frame] using hp
    exact ⟨rfl,q,hc,hlinked⟩
  | finish => cases hp

theorem Intact.dangles (h : Intact s fs t r) {e : Event} (he : machine.admits t e)
    (hclean : ¬ clean.admits t e) (hs : machine.step t e = .ok t') : ¬ Holds s (fs ++ [e]) t' := by
  obtain ⟨rfl,p,hc,hlinked⟩ := h.erases_linked he hclean
  rw [h.step_returns hc] at hs
  cases hs
  rintro ⟨⟨ready,hchain,hlive⟩,_⟩
  rw [hchain.unique (h.refines.rep.chain .readyList)] at hlive
  have hp := hlive p ((linked_iff_ready h.refines h.tmp p).mp hlinked)
  simp [EpollServer.live,EpollServer.deref] at hp

theorem Intact.unlinked_iff (h : Intact s fs t r) (hc : t.control = .onShutdown p) :
    t.server.links.lePrev p = none ↔ readyAfter s fs p.fd ≠ some true := by
  obtain ⟨n,hn,hin⟩ := h.mem_frame hc
  obtain ⟨hl,hserial⟩ := Registry.deref_eq_some.mp hn
  rw [Finmap.mem_keys,h.refines.cbMap] at hin
  have hready : r.ready p.fd = some true ↔ p ∈ r.lists .readyList := by
    have hp : (⟨p.fd,n.serial⟩ : NodePtr) = p := by rw [hserial]
    simp only [Registry.ready,hl,hp,Option.bind_some,Option.map_eq_some_iff,decide_eq_true_iff]
    refine ⟨fun ⟨_,_,hmem⟩ => hmem,fun hmem => ?_⟩
    obtain ⟨m,hm,hcb⟩ := h.wf.member hmem
    obtain rfl : n = m := Option.some.inj (hn.symm.trans hm)
    obtain ⟨cb,hcb⟩ := Option.ne_none_iff_exists'.mp hcb
    exact ⟨cb,hcb,hmem⟩
  rw [h.ready p.fd hin,Ne,hready,← linked_iff_ready h.refines h.tmp p,not_not]

theorem TakenOff.of_prefix {gs : List Event} (h : TakenOff s fs) (hpre : gs <+: fs) : TakenOff s gs := by
  obtain ⟨rest,rfl⟩ := hpre
  intro xs ys fd heq
  exact h xs (ys ++ rest) fd (by simp [heq])

theorem TakenOff.snoc (h : TakenOff s fs) {e : Event} (he : e = .onShutdownReturns →
    ∀ fd, visited fs = some fd → readyAfter s fs fd ≠ some true) : TakenOff s (fs ++ [e]) := by
  intro gs hs fd heq hv
  rcases List.eq_nil_or_concat hs with rfl | ⟨hs',x,rfl⟩
  · obtain ⟨rfl,hlast⟩ := List.append_inj' heq rfl
    exact he (List.singleton_inj.mp hlast) fd hv
  · have heq : fs ++ [e] = (gs ++ .onShutdownReturns :: hs') ++ [x] := by simpa using heq
    exact h gs hs' fd (List.append_inj' heq rfl).1 hv

theorem Intact.takenOff (h : Intact s fs t r) {e : Event} (he : clean.admits t e)
    (hoff : TakenOff s fs) : TakenOff s (fs ++ [e]) := by
  refine hoff.snoc ?_
  rintro rfl fd hfd
  obtain ⟨p,hc⟩ := onShutdown_of_frame he.1
  obtain rfl : p.fd = fd := Option.some.inj ((h.shutting p hc).symm.trans hfd)
  exact (h.unlinked_iff hc).mp (he.2 p (by simp [erases,hc,CleanupControl.frame]))

theorem Intact.not_takenOff (h : Intact s fs t r) {e : Event} (he : machine.admits t e)
    (hclean : ¬ clean.admits t e) : ¬ TakenOff s (fs ++ [e]) := by
  obtain ⟨rfl,p,hc,hlinked⟩ := h.erases_linked he hclean
  exact fun hoff => hlinked ((h.unlinked_iff hc).mpr (hoff fs [] p.fd rfl (h.shutting p hc)))

theorem Intact.initial {c : EpollConfig} {a : RegistryConfig} (h : c.Coupled a)
    (hc : c.control = .idle) : Intact c.server [] (start c.server) a.registry where
  refines := h.refines
  wf := by
    have hwf := h.wf
    rw [← h.control,hc] at hwf
    exact hwf
  tmp := h.tmp (h.control ▸ hc)
  covers fd hfd := by
    show fd ∈ c.server.epollSet
    rw [← Finmap.lookup_isSome,h.agree fd]
    exact Option.isSome_iff_ne_none.mpr hfd
  turns := by simp [start,CleanupControl.frame]
  finished hd := by cases hd
  shutting p hp := by cases hp
  ready fd hfd := by
    have hwf := h.wf
    rw [← h.control,hc] at hwf
    obtain ⟨n,hn⟩ := Option.isSome_iff_exists.mp (Finmap.lookup_isSome.mpr hfd)
    have hcb : n.cb ≠ none := fun hcb => by
      have hframe := (hwf.inUse hn).mp (hwf.tomb hn hcb)
      simp [Control.frame] at hframe
    obtain ⟨cb,hcb⟩ := Option.ne_none_iff_exists'.mp hcb
    have hlinked : (c.server.links.lePrev ⟨fd,n.serial⟩).isSome =
        decide (⟨fd,n.serial⟩ ∈ a.registry.lists .readyList) := by
      rw [Bool.eq_iff_iff,decide_eq_true_iff,Option.isSome_iff_ne_none]
      exact linked_iff_ready h.refines (h.tmp (h.control ▸ hc)) _
    simp [readyAfter,Registry.ready,hn,hcb,EpollServer.isFDReady,h.refines.cbMap,hlinked]

/-- The destructor starts in any state of any run, between two rounds. A clean-up goes
as it should, at every point, exactly if it never erases a linked node, that is, if the calls
of the `OnShutdown`s take every descriptor off the ready list in time. -/
theorem holds_iff_clean {es : List EpollConfig.Event} {c : EpollConfig}
    (h : EpollConfig.machine.Run EpollConfig.init es c) (hc : c.control = .idle)
    (hrun : machine.Run (start c.server) fs t) :
    ((∀ gs u, gs <+: fs → machine.Run (start c.server) gs u → Holds c.server gs u) ↔
      clean.Run (start c.server) fs t) ∧
    (clean.Run (start c.server) fs t ↔ TakenOff c.server fs) := by
  obtain ⟨a,ha⟩ := EpollConfig.sound_inductive.run h ⟨_,.initial⟩
  have hstart : Intact c.server [] (start c.server) a.registry := .initial ha hc
  refine ⟨Machine.Run.stays_good_iff (M:=machine) (N:=clean) (p:=[])
    (I:=fun gs u => ∃ r, Intact c.server gs u r) (fun he => he.1) rfl (fun ⟨_,hI⟩ => hI.holds)
    (fun ⟨_,hI⟩ he hs => hI.step he hs) (fun ⟨_,hI⟩ he hne hs => hI.dangles he hne hs) hrun
    ⟨_,hstart⟩,?_⟩
  -- the same rule, for what can be read off the calls alone
  have hall : (∀ gs u, gs <+: fs → machine.Run (start c.server) gs u → TakenOff c.server gs) ↔
      clean.Run (start c.server) fs t :=
    Machine.Run.stays_good_iff (M:=machine) (N:=clean) (p:=[])
      (I:=fun gs u => (∃ r, Intact c.server gs u r) ∧ TakenOff c.server gs) (fun he => he.1) rfl
      (fun hI => hI.2) (fun ⟨⟨_,hI⟩,hoff⟩ he hs => ⟨hI.step he hs,hI.takenOff he hoff⟩)
      (fun ⟨⟨_,hI⟩,_⟩ he hne _ => hI.not_takenOff he hne) hrun
      ⟨⟨_,hstart⟩,fun gs hs fd heq => by simp at heq⟩
  exact ⟨fun hclean => hall.mpr hclean fs t (List.prefix_refl _) hrun,
    fun hoff => hall.mp fun gs _ hpre _ => hoff.of_prefix hpre⟩

/-- Two ready descriptors, each taken off the list by the `OnShutdown` of its node. -/
theorem holds_of_clean_run : ∃ c t, EpollConfig.machine.Run EpollConfig.init
    [.op (.registerFD 3 7 epollIn),.op (.registerFD 4 8 epollIn),.op (.handleEvent 3 epollIn),
      .op (.handleEvent 4 epollIn)] c ∧
    machine.Run (start c.server) [.visit 3,.op (.setFDNotReady 3),.onShutdownReturns,.visit 4,
      .op (.unregisterFD 4),.onShutdownReturns,.finish] t ∧ t.control = .done ∧
    Holds c.server [.visit 3,.op (.setFDNotReady 3),.onShutdownReturns,.visit 4,
      .op (.unregisterFD 4),.onShutdownReturns,.finish] t := by
  obtain ⟨c,hc,hclean⟩ : ∃ c, EpollConfig.machine.Run EpollConfig.init
      [.op (.registerFD 3 7 epollIn),.op (.registerFD 4 8 epollIn),.op (.handleEvent 3 epollIn),
        .op (.handleEvent 4 epollIn)] c ∧
      (decide (c.control = .idle) && (clean.exec (start c.server) [.visit 3,.op (.setFDNotReady 3),
        .onShutdownReturns,.visit 4,.op (.unregisterFD 4),.onShutdownReturns,.finish]).any
        fun t => decide (t.control = .done)) = true :=
    EpollConfig.machine.exists_run_of_exec_any (by decide +kernel)
  obtain ⟨hidle,hclean⟩ := (Bool.and_eq_true _ _).mp hclean
  obtain ⟨t,ht,hdone⟩ := clean.exists_run_of_exec_any hclean
  have hrun := ht.weaken (M:=machine) (fun he => he.1) rfl
  exact ⟨c,t,hc,hrun,of_decide_eq_true hdone,
    (holds_iff_clean hc (of_decide_eq_true hidle) hrun).1.mpr ht _ t (List.prefix_refl _) hrun⟩

/-- Two ready descriptors. The first `OnShutdown` does nothing, and its node is erased
behind the other one; the second `OnShutdown` unregisters its own descriptor and writes
to the erased node. -/
theorem unlink_writes_to_erased : ∃ c t, EpollConfig.machine.Run EpollConfig.init
    [.op (.registerFD 3 7 epollIn),.op (.registerFD 4 8 epollIn),.op (.handleEvent 3 epollIn),
      .op (.handleEvent 4 epollIn)] c ∧ c.control = .idle ∧
    machine.Run (start c.server) [.visit 3,.onShutdownReturns,.visit 4] t ∧
    machine.admits t (.op (.unregisterFD 4)) ∧
    t.server.perform .silent (.unregisterFD 4) = .error .access ∧
    ¬ Holds c.server [.visit 3,.onShutdownReturns,.visit 4] t := by
  obtain ⟨c,hc,hbad⟩ : ∃ c, EpollConfig.machine.Run EpollConfig.init
      [.op (.registerFD 3 7 epollIn),.op (.registerFD 4 8 epollIn),.op (.handleEvent 3 epollIn),
        .op (.handleEvent 4 epollIn)] c ∧
      (decide (c.control = .idle) &&
        (machine.exec (start c.server) [.visit 3,.onShutdownReturns,.visit 4]).any fun t =>
          decide (machine.admits t (.op (.unregisterFD 4))) &&
          match t.server.perform .silent (.unregisterFD 4) with
          | .error a => decide (a = .access)
          | .ok _ => false) = true :=
    EpollConfig.machine.exists_run_of_exec_any (by decide +kernel)
  obtain ⟨hidle,hbad⟩ := (Bool.and_eq_true _ _).mp hbad
  obtain ⟨t,ht,hbad⟩ := machine.exists_run_of_exec_any hbad
  obtain ⟨hadmits,hbad⟩ := (Bool.and_eq_true _ _).mp hbad
  have herror : t.server.perform .silent (.unregisterFD 4) = .error .access := by
    cases hp : t.server.perform .silent (.unregisterFD 4) with
    | error a =>
      rw [hp] at hbad
      rw [of_decide_eq_true hbad]
    | ok s => simp [hp] at hbad
  refine ⟨c,t,hc,of_decide_eq_true hidle,ht,of_decide_eq_true hadmits,herror,fun hholds => ?_⟩
  obtain ⟨u,hu⟩ := hholds.safe _ (of_decide_eq_true hadmits)
  simp [machine,step,herror,bind,Except.bind] at hu

end Teardown
end CmuQuic
