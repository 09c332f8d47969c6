import CmuQuic.EpollServer

/-! What the descriptor side of the server is for, without pointers: the
registrations and two duplicate-free queues of registered descriptors. The
operations of the server refine the total operations given here. -/
namespace CmuQuic
open IntrusiveList

theorem lookup_insert_ite {α β : Type} [DecidableEq α] (m : Finmap (fun _ : α => β)) (a x : α)
    (b : β) : (m.insert a b).lookup x = if x = a then some b else m.lookup x := by
  split_ifs with h
  · subst h; exact Finmap.lookup_insert m
  · exact Finmap.lookup_insert_of_ne m h

theorem lookup_erase_ite {α β : Type} [DecidableEq α] (m : Finmap (fun _ : α => β)) (a x : α) :
    (m.erase a).lookup x = if x = a then none else m.lookup x := by
  split_ifs with h
  · subst h; exact Finmap.lookup_erase x m
  · exact Finmap.lookup_erase_ne h

structure Registry where
  cbMap : Finmap (fun _ : Fd => CBAndEventMask)
  nextSerial : ℕ
  lists : ListHead → List NodePtr

namespace Registry

def init : Registry := ⟨∅,0,fun _ => []⟩

def deref (r : Registry) (p : NodePtr) : Option CBAndEventMask :=
  (r.cbMap.lookup p.fd).filter fun n => n.serial = p.serial

theorem deref_eq_some {r : Registry} {p : NodePtr} {n : CBAndEventMask} :
    r.deref p = some n ↔ r.cbMap.lookup p.fd = some n ∧ n.serial = p.serial := by
  simp [deref,Option.filter_eq_some_iff]

def unlink (r : Registry) (p : NodePtr) : Registry :=
  { r with lists := fun h => (r.lists h).erase p }

def link (r : Registry) (p : NodePtr) : Registry :=
  if p ∈ r.lists .readyList ∨ p ∈ r.lists .tmpList then r
  else { r with lists := Function.update r.lists .readyList (p :: r.lists .readyList) }

def edit (r : Registry) (fd : Fd) (f : CBAndEventMask → CBAndEventMask) : Registry :=
  match r.cbMap.lookup fd with
  | none => r
  | some n => { r with cbMap := r.cbMap.insert fd (f n) }

def drop (r : Registry) (fd : Fd) : Registry := { r with cbMap := r.cbMap.erase fd }

def insertNode (r : Registry) (fd : Fd) (cb : CB) (mask : Mask) : Registry :=
  { r with
    cbMap := r.cbMap.insert fd ⟨some cb,r.nextSerial,mask,0,0,false⟩
    nextSerial := r.nextSerial+1 }

/-- Act on the node of a descriptor that has a callback, and on no other. -/
def onRegistered (r : Registry) (fd : Fd) (f : CBAndEventMask → Registry) : Registry :=
  match r.cbMap.lookup fd with
  | none => r
  | some n => if n.cb = none then r else f n

def register (r : Registry) (fd : Fd) (cb : CB) (mask : Mask) : Registry :=
  match r.cbMap.lookup fd with
  | none => r.insertNode fd cb mask
  | some n => (r.unlink ⟨fd,n.serial⟩).edit fd fun n =>
      { n with cb := some cb, eventMask := mask, eventsToFake := 0 }

def unregister (r : Registry) (fd : Fd) : Registry :=
  r.onRegistered fd fun n =>
    if n.inUse then (r.unlink ⟨fd,n.serial⟩).edit fd fun n =>
      { n with cb := none, eventMask := 0, eventsToFake := 0 }
    else (r.unlink ⟨fd,n.serial⟩).drop fd

def modify (r : Registry) (fd : Fd) (removeEvent addEvent : Mask) : Registry :=
  r.onRegistered fd fun _ => r.edit fd fun n =>
    { n with eventMask := (n.eventMask &&& ~~~removeEvent) ||| addEvent }

def raise (r : Registry) (fd : Fd) (f : CBAndEventMask → CBAndEventMask) : Registry :=
  r.onRegistered fd fun n => (r.edit fd f).link ⟨fd,n.serial⟩

def notReady (r : Registry) (fd : Fd) : Registry :=
  match r.cbMap.lookup fd with
  | none => r
  | some n => r.unlink ⟨fd,n.serial⟩

def makes (r : Registry) : List EpollServer.ReadyCall → Registry
  | [] => r
  | .setFDReady fd mask :: cs => (r.raise fd fun n => { n with eventsToFake := mask }).makes cs
  | .setFDNotReady fd :: cs => (r.notReady fd).makes cs

def perform (r : Registry) : EpollServer.Op → Registry
  | .registerFD fd cb mask => r.register fd cb mask
  | .unregisterFD fd => r.unregister fd
  | .modifyCallback fd mask => r.modify fd (~~~0#32) mask
  | .stopRead fd => r.modify fd epollIn 0
  | .startRead fd => r.modify fd 0 epollIn
  | .stopWrite fd => r.modify fd epollOut 0
  | .startWrite fd => r.modify fd 0 epollOut
  | .handleEvent fd mask => r.raise fd fun n => { n with eventsAsserted := mask }
  | .setFDReady fd mask => r.raise fd fun n => { n with eventsToFake := mask }
  | .setFDNotReady fd => r.notReady fd

def modifyWith (k : EpollServer.NotifyCalls) (r : Registry) (fd : Fd) (removeEvent addEvent : Mask) :
    Registry :=
  r.onRegistered fd fun _ => (r.edit fd fun n =>
    { n with eventMask := (n.eventMask &&& ~~~removeEvent) ||| addEvent }).makes k.onModification

/-- The operations together with the notification callbacks they run. -/
def performWith (k : EpollServer.NotifyCalls) (r : Registry) : EpollServer.Op → Registry
  | .registerFD fd cb mask =>
    match r.cbMap.lookup fd with
    | none => (r.insertNode fd cb mask).makes k.onRegistration
    | some n =>
      let r := if n.cb = none then r else (r.unlink ⟨fd,n.serial⟩).makes k.onUnregistration
      (r.edit fd fun n => { n with cb := some cb, eventMask := mask, eventsToFake := 0 }).makes
        k.onRegistration
  | .unregisterFD fd => r.onRegistered fd fun n =>
    let r := (r.unlink ⟨fd,n.serial⟩).makes k.onUnregistration
    if n.inUse then r.edit fd fun n => { n with cb := none, eventMask := 0, eventsToFake := 0 }
    else r.drop fd
  | .modifyCallback fd mask => r.modifyWith k fd (~~~0#32) mask
  | .stopRead fd => r.modifyWith k fd epollIn 0
  | .startRead fd => r.modifyWith k fd 0 epollIn
  | .stopWrite fd => r.modifyWith k fd epollOut 0
  | .startWrite fd => r.modifyWith k fd 0 epollOut
  | .handleEvent fd mask => r.perform (.handleEvent fd mask)
  | .setFDReady fd mask => r.perform (.setFDReady fd mask)
  | .setFDNotReady fd => r.perform (.setFDNotReady fd)

def swapLists (r : Registry) : Registry :=
  { r with lists :=
      Function.update (Function.update r.lists .readyList []) .tmpList (r.lists .readyList) }

def takeReady (r : Registry) (p : NodePtr) : Registry :=
  (r.unlink p).edit p.fd fun n => { n with eventsAsserted := 0, eventsToFake := 0, inUse := true }

def finishReady (r : Registry) (p : NodePtr) (outReadyMask : Mask) : Registry :=
  let r := r.edit p.fd fun n => { n with inUse := false }
  match r.cbMap.lookup p.fd with
  | none => r
  | some n =>
    if n.cb = none then r.drop p.fd
    else if outReadyMask = 0 then r
    else (r.edit p.fd fun n => { n with eventsToFake := outReadyMask }).link p

def watched (r : Registry) (fd : Fd) : Option Mask :=
  (r.cbMap.lookup fd).bind fun n => n.cb.map fun _ => EpollServer.watched n.eventMask

/-- The registry is well formed while the `OnEvent` of `frame` is running. -/
structure WF (r : Registry) (frame : Option NodePtr) : Prop where
  separate : Separate r.lists
  member : ∀ {h p}, p ∈ r.lists h → ∃ n, r.deref p = some n ∧ n.cb ≠ none
  serial : ∀ {fd n}, r.cbMap.lookup fd = some n → n.serial < r.nextSerial
  inUse : ∀ {fd n}, r.cbMap.lookup fd = some n → (n.inUse = true ↔ frame = some ⟨fd,n.serial⟩)
  tomb : ∀ {fd n}, r.cbMap.lookup fd = some n → n.cb = none → n.inUse = true
  frameLive : ∀ {p}, frame = some p → ∃ n, r.deref p = some n

theorem lookup_edit (r : Registry) (fd x : Fd) (f : CBAndEventMask → CBAndEventMask) :
    (r.edit fd f).cbMap.lookup x =
      if x = fd then (r.cbMap.lookup fd).map f else r.cbMap.lookup x := by
  unfold edit
  split
  · rename_i h
    split_ifs with hx
    · subst hx; simp [h]
    · rfl
  · rename_i n h
    rw [lookup_insert_ite,h,Option.map_some]

theorem drop_edit (r : Registry) (fd : Fd) (f : CBAndEventMask → CBAndEventMask) :
    (r.edit fd f).drop fd = r.drop fd := by
  unfold edit
  split
  · rfl
  · have hmap : ∀ n, (r.cbMap.insert fd n).erase fd = r.cbMap.erase fd := by
      intro n
      refine Finmap.ext_lookup fun x => ?_
      rw [lookup_erase_ite,lookup_erase_ite]
      split_ifs with hx
      · rfl
      · exact Finmap.lookup_insert_of_ne r.cbMap hx
    simp only [drop,hmap]

@[simp] theorem lists_edit (r : Registry) (fd : Fd) (f : CBAndEventMask → CBAndEventMask) :
    (r.edit fd f).lists = r.lists := by unfold edit; split <;> rfl
@[simp] theorem nextSerial_edit (r : Registry) (fd : Fd) (f : CBAndEventMask → CBAndEventMask) :
    (r.edit fd f).nextSerial = r.nextSerial := by unfold edit; split <;> rfl
@[simp] theorem lists_drop (r : Registry) (fd : Fd) : (r.drop fd).lists = r.lists := rfl
@[simp] theorem cbMap_unlink (r : Registry) (p : NodePtr) : (r.unlink p).cbMap = r.cbMap := rfl
@[simp] theorem nextSerial_unlink (r : Registry) (p : NodePtr) :
    (r.unlink p).nextSerial = r.nextSerial := rfl
@[simp] theorem cbMap_link (r : Registry) (p : NodePtr) : (r.link p).cbMap = r.cbMap := by
  unfold link; split <;> rfl
@[simp] theorem nextSerial_link (r : Registry) (p : NodePtr) :
    (r.link p).nextSerial = r.nextSerial := by unfold link; split <;> rfl
@[simp] theorem tmpList_link (r : Registry) (p : NodePtr) :
    (r.link p).lists .tmpList = r.lists .tmpList := by
  unfold link
  split_ifs <;> simp

theorem deref_congr {r r' : Registry} (h : r'.cbMap = r.cbMap) (p : NodePtr) :
    r'.deref p = r.deref p := by rw [deref,deref,h]

theorem deref_edit {r : Registry} {fd : Fd} {f : CBAndEventMask → CBAndEventMask}
    (hf : ∀ n, (f n).serial = n.serial) (p : NodePtr) :
    (r.edit fd f).deref p = if p.fd = fd then (r.deref p).map f else r.deref p := by
  unfold deref
  rw [lookup_edit]
  split_ifs with h
  · subst h
    cases hl : r.cbMap.lookup p.fd with
    | none => rfl
    | some n => by_cases hs : n.serial = p.serial <;> simp [Option.filter,hs,hf]
  · rfl

theorem mem_unlink {r : Registry} {p q : NodePtr} {h : ListHead} (hs : Separate r.lists) :
    q ∈ (r.unlink p).lists h ↔ q ≠ p ∧ q ∈ r.lists h := (hs.nodup h).mem_erase_iff

theorem mem_link {r : Registry} {p q : NodePtr} :
    (∃ h, q ∈ (r.link p).lists h) ↔ q = p ∨ ∃ h, q ∈ r.lists h := by
  unfold link
  split_ifs with hp
  · constructor
    · exact Or.inr
    · rintro (rfl | hq)
      · rcases hp with hp | hp
        · exact ⟨_,hp⟩
        · exact ⟨_,hp⟩
      · exact hq
  · simp only [mem_update]
    constructor
    · rintro ⟨h,⟨rfl,hq⟩ | ⟨_,hq⟩⟩
      · rcases List.mem_cons.mp hq with rfl | hq
        · exact Or.inl rfl
        · exact Or.inr ⟨_,hq⟩
      · exact Or.inr ⟨h,hq⟩
    · rintro (rfl | ⟨h,hq⟩)
      · exact ⟨.readyList,Or.inl ⟨rfl,by simp⟩⟩
      · by_cases he : h = .readyList
        · exact ⟨h,Or.inl ⟨he,by simp [← he,hq]⟩⟩
        · exact ⟨h,Or.inr ⟨he,hq⟩⟩

theorem lookup_raise {r : Registry} {x : Fd} {n : CBAndEventMask}
    (hn : r.cbMap.lookup x = some n) (fd : Fd) (f : CBAndEventMask → CBAndEventMask) :
    (r.raise fd f).cbMap.lookup x = some n ∨ (r.raise fd f).cbMap.lookup x = some (f n) := by
  unfold raise onRegistered
  split
  · exact Or.inl hn
  split_ifs
  · exact Or.inl hn
  rw [cbMap_link,lookup_edit]
  split_ifs with hx
  · subst hx
    exact Or.inr (by rw [hn]; rfl)
  · exact Or.inl hn

theorem cbMap_notReady (r : Registry) (fd : Fd) : (r.notReady fd).cbMap = r.cbMap := by
  unfold notReady
  split <;> rfl

theorem lookup_makes {r : Registry} {x : Fd} {n : CBAndEventMask} (hn : r.cbMap.lookup x = some n)
    (cs : List EpollServer.ReadyCall) :
    ∃ fake, (r.makes cs).cbMap.lookup x = some { n with eventsToFake := fake } := by
  induction cs generalizing r n with
  | nil => exact ⟨n.eventsToFake,hn⟩
  | cons c cs ih =>
    cases c with
    | setFDReady fd mask =>
      rcases lookup_raise hn fd (fun n => { n with eventsToFake := mask }) with h | h
      · exact ih h
      · obtain ⟨fake,hfake⟩ := ih h
        exact ⟨fake,hfake⟩
    | setFDNotReady fd =>
      apply ih (r:=r.notReady fd)
      rw [cbMap_notReady]
      exact hn

namespace WF

theorem initial : WF init none where
  separate := ⟨fun _ => .nil,fun h => by simp [Registry.init] at h⟩
  member h := by simp [Registry.init] at h
  serial h := by simp [Registry.init] at h
  inUse h := by simp [Registry.init] at h
  tomb h := by simp [Registry.init] at h
  frameLive h := by simp at h

variable {r : Registry} {frame : Option NodePtr}

theorem unlink (hr : WF r frame) (p : NodePtr) : WF (r.unlink p) frame where
  separate := ⟨fun h => (hr.separate.nodup h).erase p,fun h₁ h₂ =>
    hr.separate.disjoint (List.mem_of_mem_erase h₁) (List.mem_of_mem_erase h₂)⟩
  member h := hr.member ((mem_unlink hr.separate).mp h).2
  serial := hr.serial
  inUse := hr.inUse
  tomb := hr.tomb
  frameLive := hr.frameLive

theorem link (hr : WF r frame) {p : NodePtr} {n : CBAndEventMask} (hp : r.deref p = some n)
    (hn : n.cb ≠ none) : WF (r.link p) frame where
  separate := by
    unfold Registry.link
    split_ifs with hl
    · exact hr.separate
    · refine hr.separate.insert (fun h => ?_) _
      cases h
      · exact fun hm => hl (Or.inl hm)
      · exact fun hm => hl (Or.inr hm)
  member {h q} hq := by
    rw [deref_congr (cbMap_link r p)]
    rcases mem_link.mp ⟨h,hq⟩ with rfl | ⟨k,hk⟩
    · exact ⟨n,hp,hn⟩
    · exact hr.member hk
  serial h := by
    rw [nextSerial_link]
    exact hr.serial (by simpa using h)
  inUse h := hr.inUse (by simpa using h)
  tomb h := hr.tomb (by simpa using h)
  frameLive h := by rw [deref_congr (cbMap_link r p)]; exact hr.frameLive h

/-- Rewriting the fields of one node is harmless if the node keeps its identity,
keeps its callback while linked, and stays consistent with the running frame. -/
theorem edit (hr : WF r frame) {frame' : Option NodePtr} {fd : Fd}
    {f : CBAndEventMask → CBAndEventMask} (hs : ∀ n, (f n).serial = n.serial)
    (hcb : ∀ n, r.cbMap.lookup fd = some n → (∃ h, ⟨fd,n.serial⟩ ∈ r.lists h) → (f n).cb ≠ none)
    (huse : ∀ n, r.cbMap.lookup fd = some n →
      ((f n).inUse = true ↔ frame' = some ⟨fd,n.serial⟩) ∧ ((f n).cb = none → (f n).inUse = true))
    (hother : ∀ p : NodePtr, p.fd ≠ fd → (frame' = some p ↔ frame = some p))
    (hframe : ∀ p, frame' = some p → ∃ n, r.deref p = some n) : WF (r.edit fd f) frame' where
  separate := by simpa using hr.separate
  member {h p} hp := by
    rw [lists_edit] at hp
    obtain ⟨n,hn,hc⟩ := hr.member hp
    rw [deref_edit hs]
    split_ifs with he
    · obtain ⟨hl,hser⟩ := deref_eq_some.mp hn
      subst he
      refine ⟨f n,by rw [hn]; rfl,hcb n hl ⟨h,?_⟩⟩
      rw [hser]
      exact hp
    · exact ⟨n,hn,hc⟩
  serial {x m} hm := by
    rw [lookup_edit] at hm
    rw [nextSerial_edit]
    split_ifs at hm with he
    · obtain ⟨n,hn,rfl⟩ := Option.map_eq_some_iff.mp hm
      rw [hs]
      exact hr.serial hn
    · exact hr.serial hm
  inUse {x m} hm := by
    rw [lookup_edit] at hm
    split_ifs at hm with he
    · obtain ⟨n,hn,rfl⟩ := Option.map_eq_some_iff.mp hm
      rw [hs,he]
      exact (huse n hn).1
    · rw [hother ⟨x,m.serial⟩ he]
      exact hr.inUse hm
  tomb {x m} hm hc := by
    rw [lookup_edit] at hm
    split_ifs at hm with he
    · obtain ⟨n,hn,rfl⟩ := Option.map_eq_some_iff.mp hm
      exact (huse n hn).2 hc
    · exact hr.tomb hm hc
  frameLive {p} hp := by
    obtain ⟨n,hn⟩ := hframe p hp
    rw [deref_edit hs]
    split_ifs
    · exact ⟨f n,by rw [hn]; rfl⟩
    · exact ⟨n,hn⟩

theorem editFields (hr : WF r frame) (fd : Fd) {f : CBAndEventMask → CBAndEventMask}
    (hs : ∀ n, (f n).serial = n.serial) (hu : ∀ n, (f n).inUse = n.inUse)
    (hcb : ∀ n, r.cbMap.lookup fd = some n → (f n).cb = none → n.cb = none ∨
      n.inUse = true ∧ ∀ h, ⟨fd,n.serial⟩ ∉ r.lists h) : WF (r.edit fd f) frame := by
  refine hr.edit hs ?_ ?_ (fun _ _ => Iff.rfl) (fun _ => hr.frameLive)
  · rintro n hn ⟨h,hh⟩ hc
    rcases hcb n hn hc with h₁ | ⟨_,h₁⟩
    · obtain ⟨m,hm,hmc⟩ := hr.member hh
      have he : m = n := Option.some.inj ((deref_eq_some.mp hm).1.symm.trans hn)
      exact hmc (he ▸ h₁)
    · exact h₁ h hh
  · intro n hn
    rw [hu]
    refine ⟨hr.inUse hn,fun hc => ?_⟩
    rcases hcb n hn hc with h₁ | ⟨h₁,_⟩
    · exact hr.tomb hn h₁
    · exact h₁

theorem dropNode (hr : WF r frame) {frame' : Option NodePtr} {fd : Fd} {n : CBAndEventMask}
    (hn : r.cbMap.lookup fd = some n) (hl : ∀ h, ⟨fd,n.serial⟩ ∉ r.lists h)
    (hother : ∀ p : NodePtr, p.fd ≠ fd → (frame' = some p ↔ frame = some p))
    (hframe : ∀ p, frame' = some p → p.fd ≠ fd) : WF (r.drop fd) frame' := by
  have hold : ∀ {x m}, (r.drop fd).cbMap.lookup x = some m → x ≠ fd ∧ r.cbMap.lookup x = some m := by
    intro x m hm
    rw [Registry.drop,lookup_erase_ite] at hm
    split_ifs at hm with hx
    exact ⟨hx,hm⟩
  have hkeep : ∀ {p m}, p.fd ≠ fd → r.deref p = some m → (r.drop fd).deref p = some m := by
    intro p m hp hm
    obtain ⟨hm₁,hm₂⟩ := deref_eq_some.mp hm
    refine deref_eq_some.mpr ⟨?_,hm₂⟩
    rw [Registry.drop,lookup_erase_ite,if_neg hp,hm₁]
  constructor
  · exact hr.separate
  · intro h p hp
    obtain ⟨m,hm,hc⟩ := hr.member hp
    refine ⟨m,hkeep ?_ hm,hc⟩
    rintro rfl
    obtain ⟨hm₁,hm₂⟩ := deref_eq_some.mp hm
    have he : n = m := Option.some.inj (hn.symm.trans hm₁)
    subst he
    exact hl h (by rw [hm₂]; exact hp)
  · intro x m hm
    exact hr.serial (hold hm).2
  · intro x m hm
    rw [hother ⟨x,m.serial⟩ (hold hm).1]
    exact hr.inUse (hold hm).2
  · intro x m hm
    exact hr.tomb (hold hm).2
  · intro p hp
    obtain ⟨m,hm⟩ := hr.frameLive ((hother p (hframe p hp)).mp hp)
    exact ⟨m,hkeep (hframe p hp) hm⟩

theorem drop (hr : WF r frame) {fd : Fd} {n : CBAndEventMask} (hn : r.cbMap.lookup fd = some n)
    (hu : n.inUse = false) (hl : ∀ h, ⟨fd,n.serial⟩ ∉ r.lists h) : WF (r.drop fd) frame := by
  refine hr.dropNode hn hl (fun _ _ => Iff.rfl) ?_
  rintro p hp rfl
  obtain ⟨m,hm⟩ := hr.frameLive hp
  obtain ⟨hm₁,hm₂⟩ := deref_eq_some.mp hm
  have he : n = m := Option.some.inj (hn.symm.trans hm₁)
  subst he
  have h₁ : n.inUse = true := (hr.inUse hn).mpr (by rw [hp,hm₂])
  simp [hu] at h₁

theorem dropFrame {p : NodePtr} (hr : WF r (some p)) (hl : ∀ h, p ∉ r.lists h) :
    WF (r.drop p.fd) none := by
  obtain ⟨n,hn⟩ := hr.frameLive rfl
  obtain ⟨hn₁,hn₂⟩ := deref_eq_some.mp hn
  refine hr.dropNode hn₁ (by rw [hn₂]; exact hl) ?_ (by simp)
  intro q hq
  simp only [reduceCtorEq,Option.some.injEq,false_iff]
  rintro rfl
  exact hq rfl

theorem insertNode (hr : WF r frame) {fd : Fd} (hn : r.cbMap.lookup fd = none) (cb : CB)
    (mask : Mask) : WF (r.insertNode fd cb mask) frame := by
  have hold : ∀ {p n}, r.deref p = some n → (r.insertNode fd cb mask).deref p = some n := by
    intro p n hp
    obtain ⟨h₁,h₂⟩ := deref_eq_some.mp hp
    refine deref_eq_some.mpr ⟨?_,h₂⟩
    rw [Registry.insertNode,lookup_insert_ite,if_neg,h₁]
    rintro rfl
    simp [hn] at h₁
  constructor
  · exact hr.separate
  · intro h p hp
    obtain ⟨n,hn,hc⟩ := hr.member hp
    exact ⟨n,hold hn,hc⟩
  · intro x n hx
    rw [Registry.insertNode,lookup_insert_ite] at hx
    split_ifs at hx
    · cases hx; exact Nat.lt_succ_self _
    · exact Nat.lt_succ_of_lt (hr.serial hx)
  · intro x n hx
    rw [Registry.insertNode,lookup_insert_ite] at hx
    split_ifs at hx with he
    · cases hx
      subst he
      refine ⟨fun h => by simp at h,fun h => ?_⟩
      obtain ⟨m,hm⟩ := hr.frameLive h
      exact absurd ((deref_eq_some.mp hm).1.symm.trans hn) (by simp)
    · exact hr.inUse hx
  · intro x n hx hc
    rw [Registry.insertNode,lookup_insert_ite] at hx
    split_ifs at hx
    · cases hx; simp at hc
    · exact hr.tomb hx hc
  · intro p hp
    obtain ⟨n,hn⟩ := hr.frameLive hp
    exact ⟨n,hold hn⟩

theorem not_linked_of_unlink (hr : WF r frame) (p : NodePtr) (h : ListHead) :
    p ∉ (r.unlink p).lists h := fun hp => ((mem_unlink hr.separate).mp hp).1 rfl

theorem raise (hr : WF r frame) (fd : Fd) {f : CBAndEventMask → CBAndEventMask}
    (hs : ∀ n, (f n).serial = n.serial) (hu : ∀ n, (f n).inUse = n.inUse)
    (hc : ∀ n, (f n).cb = n.cb) : WF (r.raise fd f) frame := by
  unfold Registry.raise onRegistered
  split
  · exact hr
  rename_i n hn
  split_ifs with hcb
  · exact hr
  have h₁ := hr.editFields fd hs hu (fun n _ h => Or.inl ((hc n).symm.trans h))
  refine h₁.link (p:=⟨fd,n.serial⟩) (n:=f n) ?_ (by rwa [hc])
  rw [deref_edit hs,if_pos rfl,deref_eq_some.mpr ⟨hn,rfl⟩]
  rfl

theorem notReady (hr : WF r frame) (fd : Fd) : WF (r.notReady fd) frame := by
  unfold Registry.notReady
  split
  · exact hr
  · exact hr.unlink _

theorem makes (hr : WF r frame) (cs : List EpollServer.ReadyCall) : WF (r.makes cs) frame := by
  induction cs generalizing r with
  | nil => exact hr
  | cons c cs ih =>
    cases c with
    | setFDReady fd mask => exact ih (hr.raise fd (fun _ => rfl) (fun _ => rfl) (fun _ => rfl))
    | setFDNotReady fd => exact ih (hr.notReady fd)

theorem modifyWith (hr : WF r frame) (k : EpollServer.NotifyCalls) (fd : Fd) (a b : Mask) :
    WF (r.modifyWith k fd a b) frame := by
  unfold Registry.modifyWith onRegistered
  split
  · exact hr
  split_ifs
  · exact hr
  · apply WF.makes
    exact hr.editFields fd (fun _ => rfl) (fun _ => rfl) (fun n _ hc => Or.inl hc)

/-- Every operation keeps the registry well formed, whichever `OnEvent` is running,
unless `OnUnregistration` leaves its own descriptor on the ready list. -/
theorem performWith (hr : WF r frame) (k : EpollServer.NotifyCalls) (o : EpollServer.Op)
    (ho : ∀ fd n, o = .unregisterFD fd → r.cbMap.lookup fd = some n → n.cb ≠ none →
      ∀ h, ⟨fd,n.serial⟩ ∉ ((r.unlink ⟨fd,n.serial⟩).makes k.onUnregistration).lists h) :
    WF (r.performWith k o) frame := by
  cases o with
  | registerFD fd cb mask =>
    simp only [Registry.performWith]
    split
    · rename_i hn
      exact (hr.insertNode hn cb mask).makes _
    · have h₁ : ∀ r', WF r' frame → WF ((r'.edit fd fun n =>
          { n with cb := some cb, eventMask := mask, eventsToFake := 0 }).makes k.onRegistration)
          frame := by
        intro r' hr'
        apply WF.makes
        exact hr'.editFields fd (fun _ => rfl) (fun _ => rfl) (fun n _ hc => by simp at hc)
      split_ifs
      · exact h₁ _ hr
      · exact h₁ _ ((hr.unlink _).makes _)
  | unregisterFD fd =>
    simp only [Registry.performWith,onRegistered]
    split
    · exact hr
    rename_i n hn
    split_ifs with hc hu
    · exact hr
    all_goals
      have hr₁ := (hr.unlink ⟨fd,n.serial⟩).makes k.onUnregistration
      have hn' : (r.unlink ⟨fd,n.serial⟩).cbMap.lookup fd = some n := hn
      obtain ⟨fake,hfake⟩ := lookup_makes hn' k.onUnregistration
      have hl := ho fd n rfl hn hc
    · refine hr₁.editFields fd (fun _ => rfl) (fun _ => rfl) (fun m hm _ => Or.inr ?_)
      rw [hfake] at hm
      cases hm
      exact ⟨hu,hl⟩
    · exact hr₁.drop hfake (by simpa using hu) hl
  | modifyCallback fd mask => exact hr.modifyWith k _ _ _
  | stopRead fd => exact hr.modifyWith k _ _ _
  | startRead fd => exact hr.modifyWith k _ _ _
  | stopWrite fd => exact hr.modifyWith k _ _ _
  | startWrite fd => exact hr.modifyWith k _ _ _
  | handleEvent fd mask => exact hr.raise fd (fun _ => rfl) (fun _ => rfl) (fun _ => rfl)
  | setFDReady fd mask => exact hr.raise fd (fun _ => rfl) (fun _ => rfl) (fun _ => rfl)
  | setFDNotReady fd => exact hr.notReady fd

theorem unlink_tombstone (hr : WF r frame) {fd : Fd} {n : CBAndEventMask}
    (hn : r.cbMap.lookup fd = some n) (hc : n.cb = none) : r.unlink ⟨fd,n.serial⟩ = r := by
  have hl : (r.unlink ⟨fd,n.serial⟩).lists = r.lists := by
    funext h
    refine List.erase_of_not_mem fun hm => ?_
    obtain ⟨m,hm,hmc⟩ := hr.member hm
    rw [deref_eq_some.mpr ⟨hn,rfl⟩] at hm
    cases hm
    exact hmc hc
  exact congrArg (fun l => { r with lists := l }) hl

theorem performWith_nil (hr : WF r frame) (o : EpollServer.Op) :
    r.performWith ⟨[],[],[]⟩ o = r.perform o := by
  cases o with
  | registerFD fd cb mask =>
    simp only [Registry.performWith,Registry.perform,register]
    split
    · rfl
    · rename_i n hn
      split_ifs with hc
      · rw [hr.unlink_tombstone hn hc]
        rfl
      · rfl
  | _ => rfl

theorem perform (hr : WF r frame) (o : EpollServer.Op) : WF (r.perform o) frame := by
  rw [← hr.performWith_nil o]
  exact hr.performWith _ o fun fd n _ _ _ => hr.not_linked_of_unlink _

theorem swapLists (hr : WF r frame) : WF r.swapLists frame where
  separate := hr.separate.move _ _
  member {h p} hp := by
    rcases mem_update.mp hp with ⟨_,hp⟩ | ⟨_,hp⟩
    · exact hr.member hp
    · rcases mem_update.mp hp with ⟨_,hp⟩ | ⟨_,hp⟩
      · simp at hp
      · exact hr.member hp
  serial := hr.serial
  inUse := hr.inUse
  tomb := hr.tomb
  frameLive := hr.frameLive

theorem takeReady (hr : WF r none) {p : NodePtr} (hp : p ∈ r.lists .tmpList) :
    WF (r.takeReady p) (some p) := by
  obtain ⟨n,hn,hc⟩ := hr.member hp
  obtain ⟨hn₁,hn₂⟩ := deref_eq_some.mp hn
  refine (hr.unlink p).edit (fun _ => rfl) ?_ ?_ ?_ ?_
  · rintro m hm ⟨h,hh⟩
    have he : m = n := Option.some.inj (hm.symm.trans hn₁)
    rw [he,hn₂] at hh
    exact absurd hh (hr.not_linked_of_unlink p h)
  · intro m hm
    have he : m = n := Option.some.inj (hm.symm.trans hn₁)
    rw [he,hn₂]
    exact ⟨by simp,by simp⟩
  · intro q hq
    simp only [Option.some.injEq,reduceCtorEq,iff_false]
    rintro rfl
    exact hq rfl
  · intro q hq
    cases hq
    exact ⟨n,hn⟩

theorem finishReady {p : NodePtr} (hr : WF r (some p)) (mask : Mask) :
    WF (r.finishReady p mask) none := by
  obtain ⟨n,hn⟩ := hr.frameLive rfl
  obtain ⟨hn₁,hn₂⟩ := deref_eq_some.mp hn
  unfold Registry.finishReady
  simp only [lookup_edit,if_true,hn₁,Option.map_some]
  by_cases hc : n.cb = none
  · -- a tombstone is linked nowhere, so it can go although it still counts as in use
    rw [if_pos hc]
    have hl : ∀ h, p ∉ r.lists h := by
      intro h hp
      obtain ⟨m,hm,hmc⟩ := hr.member hp
      exact hmc (by rw [Option.some.inj (hm.symm.trans hn)]; exact hc)
    rw [drop_edit]
    exact hr.dropFrame hl
  · rw [if_neg hc]
    have h₁ : WF (r.edit p.fd fun n => { n with inUse := false }) none := by
      refine hr.edit (fun _ => rfl) ?_ ?_ ?_ (by simp)
      · intro m hm _
        rw [Option.some.inj (hm.symm.trans hn₁)]
        exact hc
      · intro m hm
        refine ⟨by simp,fun h => absurd ?_ hc⟩
        rw [← Option.some.inj (hm.symm.trans hn₁)]
        exact h
      · intro q hq
        simp only [reduceCtorEq,Option.some.injEq,false_iff]
        rintro rfl
        exact hq rfl
    split_ifs with hm
    · exact h₁
    · have h₂ := h₁.editFields p.fd (f:=fun n => { n with eventsToFake := mask })
        (fun _ => rfl) (fun _ => rfl) (fun n _ h => Or.inl h)
      refine h₂.link (n:={ n with inUse := false, eventsToFake := mask }) ?_ hc
      refine deref_eq_some.mpr ⟨?_,hn₂⟩
      simp [lookup_edit,hn₁]

end WF
end Registry
end CmuQuic
