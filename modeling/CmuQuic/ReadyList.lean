import CmuQuic.Registry

/-! The pointer-level server refines the registry: each operation succeeds, keeps
the intrusive lists intact and computes the abstract operation. -/
namespace CmuQuic
open IntrusiveList

namespace EpollServer

/-- The memory of the server represents the registry. -/
structure Refines (s : EpollServer) (r : Registry) : Prop where
  cbMap : s.cbMap = r.cbMap
  nextSerial : s.nextSerial = r.nextSerial
  rep : s.links.Rep r.lists
  size : s.readyListSize = (r.lists .readyList).length + (r.lists .tmpList).length

def Agree (m : Finmap (fun _ : Fd => Mask)) (r : Registry) : Prop :=
  ∀ fd, m.lookup fd = r.watched fd

/-- An operation succeeds, refines the abstract one and leaves the epoll set alone. -/
def Computes (x : Except Abort EpollServer) (r : Registry) (set : Finmap (fun _ : Fd => Mask)) :
    Prop := ∃ s, x = .ok s ∧ s.Refines r ∧ s.epollSet = set

variable {s : EpollServer} {r : Registry} {frame : Option NodePtr} {p : NodePtr}
  {n : CBAndEventMask}

theorem Refines.deref (hs : s.Refines r) (p : NodePtr) : s.deref p = r.deref p := by
  rw [EpollServer.deref,Registry.deref,hs.cbMap]

theorem Refines.live (hs : s.Refines r) (hp : r.deref p = some n) : s.live p = true := by
  rw [EpollServer.live,hs.deref,hp]; rfl

theorem Refines.live_of_mem (hs : s.Refines r) (hr : r.WF frame) {h : ListHead}
    (hp : p ∈ r.lists h) : s.live p = true :=
  let ⟨_,hn,_⟩ := hr.member hp
  hs.live hn

theorem Refines.initial : init.Refines .init := ⟨rfl,rfl,.initial,rfl⟩

theorem agree_initial : Agree init.epollSet .init := fun _ => rfl

theorem erase_lists {L : ListHead → List NodePtr} (hL : Separate L) {h : ListHead}
    (hp : p ∈ L h) : (fun k => (L k).erase p) = Function.update L h ((L h).erase p) := by
  funext k
  by_cases hk : k = h
  · subst hk; simp
  · rw [Function.update_of_ne hk]
    exact List.erase_of_not_mem fun hm => hk (hL.disjoint hm hp)

theorem Refines.neighbours (hs : s.Refines r) (hr : r.WF frame) {q : Slot ListHead NodePtr}
    (hq : s.links.lePrev p = some q) : Links.slotLive s.live q = true ∧
      ∀ b, s.links.leNext p = some b → s.live b = true := by
  obtain ⟨h,hh⟩ := (hs.rep.linked p).mp (by simp [hq])
  refine ⟨?_,fun b hb => hs.live_of_mem hr ((hs.rep.chain h).next_mem hh hb)⟩
  rcases (hs.rep.chain h).prev_eq hh hq with rfl | ⟨y,hy,rfl⟩
  · rfl
  · exact hs.live_of_mem hr hy

theorem removeFromReadyList_refines (hs : s.Refines r) (hr : r.WF frame)
    (hp : r.deref p = some n) : Computes (s.removeFromReadyList p) (r.unlink p) s.epollSet := by
  have hl := hs.live hp
  by_cases hprev : s.links.lePrev p = none
  · refine ⟨s,by simp [removeFromReadyList,hl,hprev],⟨hs.cbMap,hs.nextSerial,?_,?_⟩,rfl⟩
    all_goals
      have hu : (r.unlink p).lists = r.lists := by
        funext h
        exact List.erase_of_not_mem (hs.rep.not_mem hprev h)
      rw [hu]
    · exact hs.rep
    · exact hs.size
  obtain ⟨h,hh⟩ := (hs.rep.linked p).mp hprev
  obtain ⟨q,hq,_⟩ := (hs.rep.chain h).load_prev hh
  obtain ⟨hslot,hnext⟩ := hs.neighbours hr hq
  obtain ⟨m,hm,he⟩ := Links.remove_eq hl hq hslot hnext
  have hrep : (s.links.removed q p).Rep (r.unlink p).lists := by
    show (s.links.removed q p).Rep fun k => (r.lists k).erase p
    rw [erase_lists hr.separate hh]
    exact hs.rep.removed hh hq
  have hlen : s.readyListSize-1 = ((r.unlink p).lists .readyList).length +
      ((r.unlink p).lists .tmpList).length := by
    have hpos := List.length_pos_of_mem hh
    have hlenh := List.length_erase_of_mem hh
    have hsz := hs.size
    cases h with
    | readyList =>
      have hne : p ∉ r.lists .tmpList := fun hm => by cases hr.separate.disjoint hm hh
      simp only [Registry.unlink,List.erase_of_not_mem hne]
      omega
    | tmpList =>
      have hne : p ∉ r.lists .readyList := fun hm => by cases hr.separate.disjoint hm hh
      simp only [Registry.unlink,List.erase_of_not_mem hne]
      omega
  have hdcheck : ¬(s.readyListSize-1 = 0 ∧ ¬((s.links.removed q p).lhFirst .readyList = none ∧
      (s.links.removed q p).lhFirst .tmpList = none)) := by
    rintro ⟨h0,hne⟩
    apply hne
    rw [hlen] at h0
    have h₁ : ((r.unlink p).lists .readyList) = [] := List.length_eq_zero_iff.mp (by omega)
    have h₂ : ((r.unlink p).lists .tmpList) = [] := List.length_eq_zero_iff.mp (by omega)
    exact ⟨by rw [hrep.lhFirst,h₁]; rfl,by rw [hrep.lhFirst,h₂]; rfl⟩
  refine ⟨{ s with links := s.links.removed q p, readyListSize := s.readyListSize-1 },?_,
    ⟨hs.cbMap,hs.nextSerial,hrep,hlen⟩,rfl⟩
  simp only [removeFromReadyList,hl,hprev,if_true,if_false,hm,he,hdcheck]

theorem addToReadyList_refines (hs : s.Refines r) (hr : r.WF frame) (hp : r.deref p = some n) :
    Computes (s.addToReadyList p) (r.link p) s.epollSet := by
  have hl := hs.live hp
  by_cases hprev : s.links.lePrev p = none
  · have hn := hs.rep.not_mem hprev
    have hf : ∀ b, s.links.lhFirst .readyList = some b → s.live b = true := by
      intro b hb
      rw [hs.rep.lhFirst] at hb
      exact hs.live_of_mem hr (List.mem_of_mem_head? hb)
    have hlink : r.link p =
        { r with lists := Function.update r.lists .readyList (p :: r.lists .readyList) } :=
      if_neg (by simp [hn])
    let s' : EpollServer :=
      { s with links := s.links.inserted .readyList p, readyListSize := s.readyListSize+1 }
    refine ⟨s',?_,?_,rfl⟩
    · simp [addToReadyList,hl,hprev,Links.insertHead_eq hl hf,s']
    · rw [hlink]
      refine ⟨hs.cbMap,hs.nextSerial,hs.rep.inserted hprev,?_⟩
      have hsz := hs.size
      simp only [s',Function.update_self,List.length_cons,ne_eq,reduceCtorEq,not_false_eq_true,
        Function.update_of_ne]
      omega
  · obtain ⟨h,hh⟩ := (hs.rep.linked p).mp hprev
    have hlink : r.link p = r := if_pos (by cases h <;> simp [hh])
    rw [hlink]
    exact ⟨s,by simp [addToReadyList,hl,hprev],hs,rfl⟩

theorem writeNode_refines (hs : s.Refines r) (hp : r.deref p = some n)
    (f : CBAndEventMask → CBAndEventMask) :
    Computes (s.writeNode p f) (r.edit p.fd f) s.epollSet := by
  have hd : s.deref p = some n := by rw [hs.deref,hp]
  have hl := (Registry.deref_eq_some.mp hp).1
  refine ⟨{ s with cbMap := s.cbMap.insert p.fd (f n) },by simp [writeNode,hd],?_,rfl⟩
  simp only [Registry.edit,hl]
  exact ⟨by rw [hs.cbMap],hs.nextSerial,hs.rep,hs.size⟩

theorem drop_refines (hs : s.Refines r) (fd : Fd) :
    Refines { s with cbMap := s.cbMap.erase fd } (r.drop fd) :=
  ⟨by rw [hs.cbMap]; rfl,hs.nextSerial,hs.rep,hs.size⟩

theorem insertNode_refines (hs : s.Refines r) (hr : r.WF frame) (fd : Fd) (cb : CB)
    (mask : Mask) : (s.insertNode fd cb mask).Refines (r.insertNode fd cb mask) := by
  refine ⟨by simp [insertNode,Registry.insertNode,hs.cbMap,hs.nextSerial],
    by simp [insertNode,Registry.insertNode,hs.nextSerial],hs.rep.fresh ?_,hs.size⟩
  -- the new allocation is younger than every node on a list
  intro h hm
  obtain ⟨m,hd,_⟩ := hr.member hm
  obtain ⟨hl,hser⟩ := Registry.deref_eq_some.mp hd
  have hlt := hr.serial hl
  have he : m.serial = r.nextSerial := hser.trans hs.nextSerial
  omega

theorem mem_epollSet {m : Finmap (fun _ : Fd => Mask)} (ha : Agree m r) {fd : Fd}
    (hn : r.cbMap.lookup fd = some n) : fd ∈ m ↔ n.cb ≠ none := by
  rw [← Finmap.lookup_isSome,ha fd,Registry.watched,hn]
  cases hc : n.cb <;> simp [hc]

theorem not_mem_epollSet {m : Finmap (fun _ : Fd => Mask)} (ha : Agree m r) {fd : Fd}
    (hn : r.cbMap.lookup fd = none) : fd ∉ m := by
  rw [← Finmap.lookup_isSome,ha fd,Registry.watched,hn]
  simp

theorem Agree.insert {m : Finmap (fun _ : Fd => Mask)} {r' : Registry} (ha : Agree m r) {fd : Fd}
    {mask : Mask} (hfd : r'.watched fd = some (EpollServer.watched mask))
    (hother : ∀ x, x ≠ fd → r'.watched x = r.watched x) :
    Agree (m.insert fd (EpollServer.watched mask)) r' := by
  intro x
  rw [lookup_insert_ite]
  split_ifs with hx
  · rw [hx,hfd]
  · rw [ha x,hother x hx]

theorem Agree.erase {m : Finmap (fun _ : Fd => Mask)} {r' : Registry} (ha : Agree m r) {fd : Fd}
    (hfd : r'.watched fd = none) (hother : ∀ x, x ≠ fd → r'.watched x = r.watched x) :
    Agree (m.erase fd) r' := by
  intro x
  rw [lookup_erase_ite]
  split_ifs with hx
  · rw [hx,hfd]
  · rw [ha x,hother x hx]

theorem Agree.congr {m : Finmap (fun _ : Fd => Mask)} {r' : Registry} (ha : Agree m r)
    (h : ∀ fd, r'.watched fd = r.watched fd) : Agree m r' := fun fd => by rw [ha fd,h fd]

theorem watched_edit {fd : Fd} {f : CBAndEventMask → CBAndEventMask}
    (hc : ∀ n, (f n).cb = n.cb) (hm : ∀ n, (f n).eventMask = n.eventMask) (x : Fd) :
    (r.edit fd f).watched x = r.watched x := by
  rw [Registry.watched,Registry.lookup_edit,Registry.watched]
  split_ifs with hx
  · subst hx
    cases r.cbMap.lookup x <;> simp [hc,hm]
  · rfl

theorem watched_link (p : NodePtr) (x : Fd) : (r.link p).watched x = r.watched x := by
  rw [Registry.watched,Registry.cbMap_link]; rfl

theorem watched_edit_of_ne {fd x : Fd} (hx : x ≠ fd) (f : CBAndEventMask → CBAndEventMask) :
    (r.edit fd f).watched x = r.watched x := by
  rw [Registry.watched,Registry.lookup_edit,if_neg hx,Registry.watched]

theorem raise_refines (hs : s.Refines r) (hr : r.WF frame) {fd : Fd}
    {f : CBAndEventMask → CBAndEventMask} (hser : ∀ n, (f n).serial = n.serial)
    (hu : ∀ n, (f n).inUse = n.inUse) (hcb : ∀ n, (f n).cb = n.cb)
    (hn : r.cbMap.lookup fd = some n) (hc : n.cb ≠ none) :
    Computes (s.writeNode ⟨fd,n.serial⟩ f >>= fun s => s.addToReadyList ⟨fd,n.serial⟩)
      (r.raise fd f) s.epollSet := by
  have hd : r.deref ⟨fd,n.serial⟩ = some n := Registry.deref_eq_some.mpr ⟨hn,rfl⟩
  obtain ⟨s₁,h₁,hs₁,he₁⟩ := writeNode_refines hs hd f
  have hr₁ := hr.editFields fd hser hu (fun n _ h => Or.inl ((hcb n).symm.trans h))
  have hd₁ : (r.edit fd f).deref ⟨fd,n.serial⟩ = some (f n) := by
    rw [Registry.deref_edit hser,if_pos rfl,hd]; rfl
  obtain ⟨s₂,h₂,hs₂,he₂⟩ := addToReadyList_refines hs₁ hr₁ hd₁
  have hraise : r.raise fd f = (r.edit fd f).link ⟨fd,n.serial⟩ := by
    simp [Registry.raise,Registry.onRegistered,hn,hc]
  exact ⟨s₂,by rw [h₁,except_ok_bind,h₂],hraise ▸ hs₂,he₂.trans he₁⟩

theorem watched_raise {fd : Fd} {f : CBAndEventMask → CBAndEventMask} (hcb : ∀ n, (f n).cb = n.cb)
    (hm : ∀ n, (f n).eventMask = n.eventMask) (x : Fd) :
    (r.raise fd f).watched x = r.watched x := by
  unfold Registry.raise Registry.onRegistered
  split
  · rfl
  split_ifs
  · rfl
  · rw [watched_link,watched_edit hcb hm]

theorem raise_simulates (hs : s.Refines r) (ha : Agree s.epollSet r) (hr : r.WF frame) {fd : Fd}
    {f : CBAndEventMask → CBAndEventMask} (hser : ∀ n, (f n).serial = n.serial)
    (hu : ∀ n, (f n).inUse = n.inUse) (hcb : ∀ n, (f n).cb = n.cb)
    (hm : ∀ n, (f n).eventMask = n.eventMask) (hn : r.cbMap.lookup fd = some n)
    (hc : n.cb ≠ none) :
    ∃ s', (s.writeNode ⟨fd,n.serial⟩ f >>= fun s => s.addToReadyList ⟨fd,n.serial⟩) = .ok s' ∧
      s'.Refines (r.raise fd f) ∧ Agree s'.epollSet (r.raise fd f) := by
  obtain ⟨s',h₁,hs',he'⟩ := raise_refines hs hr hser hu hcb hn hc
  exact ⟨s',h₁,hs',he' ▸ ha.congr (watched_raise hcb hm)⟩

theorem raise_ignored {fd : Fd} (hn : ∀ n, r.cbMap.lookup fd = some n → n.cb = none)
    (f : CBAndEventMask → CBAndEventMask) : r.raise fd f = r := by
  unfold Registry.raise Registry.onRegistered
  split
  · rfl
  · rename_i n h
    exact if_pos (hn n h)

theorem makeReady_refines (hs : s.Refines r) (hr : r.WF frame) (fd : Fd)
    {f : CBAndEventMask → CBAndEventMask} (hser : ∀ n, (f n).serial = n.serial)
    (hu : ∀ n, (f n).inUse = n.inUse) (hcb : ∀ n, (f n).cb = n.cb) :
    Computes (match r.cbMap.lookup fd with
      | none => .ok s
      | some n =>
        match n.cb with
        | none => .ok s
        | some _ => s.writeNode ⟨fd,n.serial⟩ f >>= fun s => s.addToReadyList ⟨fd,n.serial⟩)
      (r.raise fd f) s.epollSet := by
  cases hn : r.cbMap.lookup fd with
  | none =>
    rw [raise_ignored (by simp [hn])]
    exact ⟨s,rfl,hs,rfl⟩
  | some n =>
    cases hc : n.cb with
    | none =>
      rw [raise_ignored (by simp [hn,hc])]
      simp only [hc]
      exact ⟨s,rfl,hs,rfl⟩
    | some cb =>
      simp only [hc]
      exact raise_refines hs hr hser hu hcb hn (by simp [hc])

theorem handleEvent_refines (hs : s.Refines r) (hr : r.WF frame) (fd : Fd) (mask : Mask) :
    Computes (s.handleEvent fd mask) (r.perform (.handleEvent fd mask)) s.epollSet := by
  rw [handleEvent,hs.cbMap]
  exact makeReady_refines hs hr fd (fun _ => rfl) (fun _ => rfl) (fun _ => rfl)

theorem setFDReady_refines (hs : s.Refines r) (hr : r.WF frame) (fd : Fd) (mask : Mask) :
    Computes (s.setFDReady fd mask) (r.perform (.setFDReady fd mask)) s.epollSet := by
  rw [setFDReady,hs.cbMap]
  exact makeReady_refines hs hr fd (fun _ => rfl) (fun _ => rfl) (fun _ => rfl)

theorem setFDNotReady_refines (hs : s.Refines r) (hr : r.WF frame) (fd : Fd) :
    Computes (s.setFDNotReady fd) (r.perform (.setFDNotReady fd)) s.epollSet := by
  simp only [setFDNotReady,hs.cbMap,Registry.perform,Registry.notReady]
  cases hn : r.cbMap.lookup fd with
  | none => exact ⟨s,rfl,hs,rfl⟩
  | some n =>
    exact removeFromReadyList_refines (p:=⟨fd,n.serial⟩) hs hr
      (Registry.deref_eq_some.mpr ⟨hn,rfl⟩)

theorem watched_notReady (fd x : Fd) : (r.notReady fd).watched x = r.watched x := by
  rw [Registry.watched,Registry.cbMap_notReady,Registry.watched]

theorem watched_makes (cs : List ReadyCall) (x : Fd) : (r.makes cs).watched x = r.watched x := by
  induction cs generalizing r with
  | nil => rfl
  | cons c cs ih =>
    cases c with
    | setFDReady fd mask =>
      rw [Registry.makes,ih]
      exact watched_raise (f:=fun n => { n with eventsToFake := mask }) (fun _ => rfl) (fun _ => rfl) x
    | setFDNotReady fd =>
      rw [Registry.makes,ih]
      exact watched_notReady fd x

theorem makes_refines (hs : s.Refines r) (hr : r.WF frame) (cs : List ReadyCall) :
    Computes (s.makes cs) (r.makes cs) s.epollSet := by
  induction cs generalizing s r with
  | nil => exact ⟨s,rfl,hs,rfl⟩
  | cons c cs ih =>
    cases c with
    | setFDReady fd mask =>
      obtain ⟨s₁,h₁,hs₁,he₁⟩ := setFDReady_refines hs hr fd mask
      rw [makes,h₁,← he₁]
      exact ih hs₁ (hr.raise fd (fun _ => rfl) (fun _ => rfl) (fun _ => rfl))
    | setFDNotReady fd =>
      obtain ⟨s₁,h₁,hs₁,he₁⟩ := setFDNotReady_refines hs hr fd
      rw [makes,h₁,← he₁]
      exact ih hs₁ (hr.notReady fd)

/-- What the main theorem of this file says of one operation and its callbacks. -/
def SimulatesWith (k : NotifyCalls) (s : EpollServer) (r : Registry) (o : Op) : Prop :=
  ∃ s', s.perform k.notify o = .ok s' ∧ s'.Refines (r.performWith k o) ∧
    Agree s'.epollSet (r.performWith k o)

theorem makes_simulates (hs : s.Refines r) (ha : Agree s.epollSet r) (hr : r.WF frame)
    (cs : List ReadyCall) :
    ∃ s', s.makes cs = .ok s' ∧ s'.Refines (r.makes cs) ∧ Agree s'.epollSet (r.makes cs) := by
  obtain ⟨s',h₁,hs',he'⟩ := makes_refines hs hr cs
  exact ⟨s',h₁,hs',he' ▸ ha.congr (watched_makes cs)⟩

/-- `RegisterFD` on a node that is there, from the epoll call on: the same for a node in
use and for a recycled one. -/
theorem reregister_simulates (k : NotifyCalls) (hs : s.Refines r) (hr : r.WF frame)
    {es : Finmap fun _ : Fd => Mask} (ha : Agree es r) {p : NodePtr} {n : CBAndEventMask}
    (hd : r.deref p = some n) (cb : CB) (mask : Mask)
    (he : s.epollSet = es.insert p.fd (watched mask)) :
    ∃ s', (do
      let s₁ ← s.writeNode p fun n => { n with cb := some cb, eventMask := mask, eventsToFake := 0 }
      s₁.makes k.onRegistration) = .ok s' ∧
    s'.Refines ((r.edit p.fd fun n =>
      { n with cb := some cb, eventMask := mask, eventsToFake := 0 }).makes k.onRegistration) ∧
    Agree s'.epollSet ((r.edit p.fd fun n =>
      { n with cb := some cb, eventMask := mask, eventsToFake := 0 }).makes k.onRegistration) := by
  obtain ⟨s₁,h₁,hs₁,he₁⟩ := writeNode_refines hs hd
    (fun n => { n with cb := some cb, eventMask := mask, eventsToFake := 0 })
  have hr₁ := hr.editFields p.fd
    (f:=fun n => { n with cb := some cb, eventMask := mask, eventsToFake := 0 })
    (fun _ => rfl) (fun _ => rfl) (fun n _ hc => by simp at hc)
  have ha₁ : Agree s₁.epollSet (r.edit p.fd fun n =>
      { n with cb := some cb, eventMask := mask, eventsToFake := 0 }) := by
    rw [he₁,he]
    refine ha.insert ?_ fun x hx => watched_edit_of_ne hx _
    simp [Registry.watched,Registry.lookup_edit,(Registry.deref_eq_some.mp hd).1]
  rw [h₁,except_ok_bind]
  exact makes_simulates hs₁ ha₁ hr₁ k.onRegistration

theorem registerFD_simulates (k : NotifyCalls) (hs : s.Refines r) (ha : Agree s.epollSet r)
    (hr : r.WF frame) (fd : Fd) (cb : CB) (mask : Mask) :
    SimulatesWith k s r (.registerFD fd cb mask) := by
  simp only [SimulatesWith,perform,registerFD,hs.cbMap,Registry.performWith]
  cases hn : r.cbMap.lookup fd with
  | none =>
    have hnot := not_mem_epollSet ha hn
    let s₁ : EpollServer := { s with epollSet := s.epollSet.insert fd (watched mask) }
    have hs₁ : s₁.Refines r := ⟨hs.cbMap,hs.nextSerial,hs.rep,hs.size⟩
    have ha₁ : Agree (s₁.insertNode fd cb mask).epollSet (r.insertNode fd cb mask) := by
      refine ha.insert ?_ fun x hx => ?_
      · simp [Registry.watched,Registry.insertNode]
      · simp [Registry.watched,Registry.insertNode,hx]
    obtain ⟨s₂,h₂,hs₂,ha₂⟩ := makes_simulates (insertNode_refines hs₁ hr fd cb mask) ha₁
      (hr.insertNode hn cb mask) k.onRegistration
    refine ⟨s₂,?_,hs₂,ha₂⟩
    simp only [addFD,hnot,if_false,except_ok_bind,NotifyCalls.notify]
    exact h₂
  | some n =>
    have hd : r.deref ⟨fd,n.serial⟩ = some n := Registry.deref_eq_some.mpr ⟨hn,rfl⟩
    cases hc : n.cb with
    | some old =>
      simp only [hc,reduceCtorEq,if_false]
      have hr₁ := hr.unlink ⟨fd,n.serial⟩
      obtain ⟨s₁,h₁,hs₁,he₁⟩ := removeFromReadyList_refines hs hr hd
      obtain ⟨s₂,h₂,hs₂,he₂⟩ := makes_refines hs₁ hr₁ k.onUnregistration
      have hn₁ : (r.unlink ⟨fd,n.serial⟩).cbMap.lookup fd = some n := hn
      obtain ⟨fake,hfake⟩ := Registry.lookup_makes hn₁ k.onUnregistration
      have hin : fd ∈ s₂.epollSet := by
        rw [he₂,he₁]; exact (mem_epollSet ha hn).mpr (by simp [hc])
      let s₃ : EpollServer := { s₂ with epollSet := s₂.epollSet.insert fd (watched mask) }
      have hs₃ : s₃.Refines ((r.unlink ⟨fd,n.serial⟩).makes k.onUnregistration) :=
        ⟨hs₂.cbMap,hs₂.nextSerial,hs₂.rep,hs₂.size⟩
      have hd₃ := Registry.deref_eq_some (p:=⟨fd,n.serial⟩).mpr ⟨hfake,rfl⟩
      obtain ⟨s',h',hs',ha'⟩ := reregister_simulates k hs₃ (hr₁.makes _)
        (ha.congr fun x => watched_makes k.onUnregistration x) hd₃ cb mask
        (by simp only [s₃,he₂,he₁])
      refine ⟨s',?_,hs',ha'⟩
      simp only [h₁,except_ok_bind,NotifyCalls.notify,h₂,modFD,hin,if_true]
      exact h'
    | none =>
      simp only [hc,if_true]
      have hnot : fd ∉ s.epollSet := fun h => (mem_epollSet ha hn).mp h hc
      let s₁ : EpollServer := { s with epollSet := s.epollSet.insert fd (watched mask) }
      have hs₁ : s₁.Refines r := ⟨hs.cbMap,hs.nextSerial,hs.rep,hs.size⟩
      obtain ⟨s',h',hs',ha'⟩ := reregister_simulates k hs₁ hr ha hd cb mask rfl
      refine ⟨s',?_,hs',ha'⟩
      simp only [addFD,hnot,if_false,except_ok_bind,NotifyCalls.notify]
      exact h'

theorem unregisterFD_ignored {fd : Fd} (hs : s.Refines r)
    (hn : ∀ n, r.cbMap.lookup fd = some n → n.cb = none) (k : NotifyCalls) :
    s.unregisterFD k.notify fd = .ok s ∧ r.performWith k (.unregisterFD fd) = r := by
  simp only [unregisterFD,hs.cbMap,Registry.performWith,Registry.onRegistered]
  cases hl : r.cbMap.lookup fd with
  | none => exact ⟨rfl,rfl⟩
  | some n => simp [hn n hl]

theorem unregisterFD_refines (k : NotifyCalls) (hs : s.Refines r) (hr : r.WF frame) {fd : Fd}
    (hn : r.cbMap.lookup fd = some n) (hc : n.cb ≠ none) (hin : fd ∈ s.epollSet) :
    Computes (s.unregisterFD k.notify fd) (r.performWith k (.unregisterFD fd))
      (s.epollSet.erase fd) := by
  obtain ⟨old,hc⟩ := Option.ne_none_iff_exists'.mp hc
  simp only [unregisterFD,hs.cbMap,Registry.performWith,Registry.onRegistered,hn,hc,reduceCtorEq,
    if_false]
  have hd : r.deref ⟨fd,n.serial⟩ = some n := Registry.deref_eq_some.mpr ⟨hn,rfl⟩
  obtain ⟨s₁,h₁,hs₁,he₁⟩ := removeFromReadyList_refines hs hr hd
  rw [← he₁] at hin
  have hs₂ : EpollServer.Refines { s₁ with epollSet := s₁.epollSet.erase fd }
      (r.unlink ⟨fd,n.serial⟩) := ⟨hs₁.cbMap,hs₁.nextSerial,hs₁.rep,hs₁.size⟩
  obtain ⟨s₃,h₃,hs₃,he₃⟩ := makes_refines hs₂ (hr.unlink _) k.onUnregistration
  have hn₁ : (r.unlink ⟨fd,n.serial⟩).cbMap.lookup fd = some n := hn
  obtain ⟨fake,hfake⟩ := Registry.lookup_makes hn₁ k.onUnregistration
  have hd₃ := Registry.deref_eq_some (p:=⟨fd,n.serial⟩).mpr ⟨hfake,rfl⟩
  have he₃ : s₃.epollSet = s.epollSet.erase fd := by
    rw [he₃]
    simp only [he₁]
  simp only [h₁,except_ok_bind,delFD,hin,if_true,NotifyCalls.notify,h₃,hs₃.deref,hd₃]
  cases hu : n.inUse with
  | true =>
    obtain ⟨s₄,h₄,hs₄,he₄⟩ := writeNode_refines hs₃ hd₃
      (fun n => { n with cb := none, eventMask := 0, eventsToFake := 0 })
    simp only [if_true]
    exact ⟨s₄,h₄,hs₄,he₄.trans he₃⟩
  | false =>
    simp only [Bool.false_eq_true,if_false]
    exact ⟨_,rfl,drop_refines hs₃ fd,he₃⟩

theorem watched_unregister (k : NotifyCalls) (fd x : Fd) :
    (r.performWith k (.unregisterFD fd)).watched x = if x = fd then none else r.watched x := by
  simp only [Registry.performWith,Registry.onRegistered]
  cases hn : r.cbMap.lookup fd with
  | none =>
    split_ifs with hx
    · subst hx
      simp [Registry.watched,hn]
    · rfl
  | some n =>
    simp only
    split_ifs with hc hx hu hx hx
    · subst hx
      simp [Registry.watched,hn,hc]
    · rfl
    · have hn₁ : (r.unlink ⟨fd,n.serial⟩).cbMap.lookup fd = some n := hn
      obtain ⟨fake,hfake⟩ := Registry.lookup_makes hn₁ k.onUnregistration
      simp [hx,Registry.watched,Registry.lookup_edit,hfake]
    · rw [watched_edit_of_ne hx,watched_makes]
      rfl
    · subst hx
      simp [Registry.watched,Registry.drop]
    · have hdrop : ∀ r' : Registry, (r'.drop fd).watched x = r'.watched x := fun r' => by
        simp [Registry.watched,Registry.drop,hx]
      rw [hdrop,watched_makes]
      rfl

theorem unregisterFD_simulates (k : NotifyCalls) (hs : s.Refines r) (ha : Agree s.epollSet r)
    (hr : r.WF frame) (fd : Fd) : SimulatesWith k s r (.unregisterFD fd) := by
  by_cases hreg : ∀ n, r.cbMap.lookup fd = some n → n.cb = none
  · obtain ⟨h₁,h₂⟩ := unregisterFD_ignored hs hreg k
    rw [SimulatesWith,h₂]
    exact ⟨s,h₁,hs,ha⟩
  · push Not at hreg
    obtain ⟨n,hn,hc⟩ := hreg
    obtain ⟨s',h₁,hs',he'⟩ := unregisterFD_refines k hs hr hn hc ((mem_epollSet ha hn).mpr hc)
    refine ⟨s',h₁,hs',?_⟩
    rw [he']
    refine ha.erase ?_ fun x hx => ?_
    · rw [watched_unregister,if_pos rfl]
    · rw [watched_unregister,if_neg hx]

theorem modifyFD_ignored {fd : Fd} (hs : s.Refines r)
    (hn : ∀ n, r.cbMap.lookup fd = some n → n.cb = none) (k : NotifyCalls) (a b : Mask) :
    s.modifyFD k.notify fd a b = .ok s ∧ r.modifyWith k fd a b = r := by
  simp only [modifyFD,hs.cbMap,Registry.modifyWith,Registry.onRegistered]
  cases hl : r.cbMap.lookup fd with
  | none => exact ⟨rfl,rfl⟩
  | some n => simp [hn n hl]

theorem modifyFD_refines (k : NotifyCalls) (hs : s.Refines r) (hr : r.WF frame) {fd : Fd}
    (hn : r.cbMap.lookup fd = some n) (hc : n.cb ≠ none) (hin : fd ∈ s.epollSet) (a b : Mask) :
    Computes (s.modifyFD k.notify fd a b) (r.modifyWith k fd a b)
      (s.epollSet.insert fd (watched ((n.eventMask &&& ~~~a) ||| b))) := by
  obtain ⟨cb,hc⟩ := Option.ne_none_iff_exists'.mp hc
  simp only [modifyFD,hs.cbMap,Registry.modifyWith,Registry.onRegistered,hn,hc,reduceCtorEq,if_false]
  have hd : r.deref ⟨fd,n.serial⟩ = some n := Registry.deref_eq_some.mpr ⟨hn,rfl⟩
  obtain ⟨s₁,h₁,hs₁,he₁⟩ := writeNode_refines hs hd
    (fun m => { m with eventMask := (n.eventMask &&& ~~~a) ||| b })
  rw [← he₁] at hin
  have hedit : (r.edit fd fun m => { m with eventMask := (n.eventMask &&& ~~~a) ||| b }) =
      r.edit fd fun m => { m with eventMask := (m.eventMask &&& ~~~a) ||| b } := by
    simp [Registry.edit,hn]
  rw [hedit] at hs₁
  have hs₂ : EpollServer.Refines
      { s₁ with epollSet := s₁.epollSet.insert fd (watched ((n.eventMask &&& ~~~a) ||| b)) }
      (r.edit fd fun m => { m with eventMask := (m.eventMask &&& ~~~a) ||| b }) :=
    ⟨hs₁.cbMap,hs₁.nextSerial,hs₁.rep,hs₁.size⟩
  have hr₂ := hr.editFields fd
    (f:=fun m => { m with eventMask := (m.eventMask &&& ~~~a) ||| b })
    (fun _ => rfl) (fun _ => rfl) (fun n _ hc => Or.inl hc)
  obtain ⟨s₃,h₃,hs₃,he₃⟩ := makes_refines hs₂ hr₂ k.onModification
  refine ⟨s₃,?_,hs₃,?_⟩
  · simp only [h₁,except_ok_bind,modFD,hin,if_true,NotifyCalls.notify]
    exact h₃
  · rw [he₃]
    simp only [he₁]

theorem watched_modify (k : NotifyCalls) {fd : Fd} (hn : r.cbMap.lookup fd = some n)
    (hc : n.cb ≠ none) (a b : Mask) (x : Fd) : (r.modifyWith k fd a b).watched x =
      if x = fd then some (watched ((n.eventMask &&& ~~~a) ||| b)) else r.watched x := by
  obtain ⟨cb,hc⟩ := Option.ne_none_iff_exists'.mp hc
  simp only [Registry.modifyWith,Registry.onRegistered,hn,hc,reduceCtorEq,if_false]
  rw [watched_makes]
  split_ifs with hx
  · simp [hx,Registry.watched,Registry.lookup_edit,hn,hc]
  · exact watched_edit_of_ne hx _

theorem modifyFD_simulates (k : NotifyCalls) (hs : s.Refines r) (ha : Agree s.epollSet r)
    (hr : r.WF frame) (fd : Fd) (a b : Mask) :
    ∃ s', s.modifyFD k.notify fd a b = .ok s' ∧ s'.Refines (r.modifyWith k fd a b) ∧
      Agree s'.epollSet (r.modifyWith k fd a b) := by
  by_cases hreg : ∀ n, r.cbMap.lookup fd = some n → n.cb = none
  · obtain ⟨h₁,h₂⟩ := modifyFD_ignored hs hreg k a b
    rw [h₂]
    exact ⟨s,h₁,hs,ha⟩
  · push Not at hreg
    obtain ⟨n,hn,hc⟩ := hreg
    obtain ⟨s',h₁,hs',he'⟩ := modifyFD_refines k hs hr hn hc ((mem_epollSet ha hn).mpr hc) a b
    refine ⟨s',h₁,hs',?_⟩
    rw [he']
    refine ha.insert ?_ fun x hx => ?_
    · rw [watched_modify k hn hc,if_pos rfl]
    · rw [watched_modify k hn hc,if_neg hx]

/-- Every operation of the server succeeds and computes the abstract operation,
whichever calls the notification callbacks make. -/
theorem performWith_simulates (k : NotifyCalls) (hs : s.Refines r) (ha : Agree s.epollSet r)
    (hr : r.WF frame) (o : Op) : SimulatesWith k s r o := by
  cases o with
  | registerFD fd cb mask => exact registerFD_simulates k hs ha hr fd cb mask
  | unregisterFD fd => exact unregisterFD_simulates k hs ha hr fd
  | modifyCallback fd mask => exact modifyFD_simulates k hs ha hr fd _ _
  | stopRead fd => exact modifyFD_simulates k hs ha hr fd _ _
  | startRead fd => exact modifyFD_simulates k hs ha hr fd _ _
  | stopWrite fd => exact modifyFD_simulates k hs ha hr fd _ _
  | startWrite fd => exact modifyFD_simulates k hs ha hr fd _ _
  | handleEvent fd mask =>
    obtain ⟨s',h₁,hs',he'⟩ := handleEvent_refines hs hr fd mask
    exact ⟨s',h₁,hs',he' ▸ ha.congr (watched_raise (fun _ => rfl) (fun _ => rfl))⟩
  | setFDReady fd mask =>
    obtain ⟨s',h₁,hs',he'⟩ := setFDReady_refines hs hr fd mask
    exact ⟨s',h₁,hs',he' ▸ ha.congr (watched_raise (fun _ => rfl) (fun _ => rfl))⟩
  | setFDNotReady fd =>
    obtain ⟨s',h₁,hs',he'⟩ := setFDNotReady_refines hs hr fd
    exact ⟨s',h₁,hs',he' ▸ ha.congr (watched_notReady fd)⟩

def Simulates (s : EpollServer) (r : Registry) (o : Op) : Prop :=
  ∃ s', s.perform .silent o = .ok s' ∧ s'.Refines (r.perform o) ∧ Agree s'.epollSet (r.perform o)

theorem perform_simulates (hs : s.Refines r) (ha : Agree s.epollSet r) (hr : r.WF frame)
    (o : Op) : Simulates s r o := by
  have h := performWith_simulates ⟨[],[],[]⟩ hs ha hr o
  rw [SimulatesWith,hr.performWith_nil] at h
  exact h

theorem swapLists_simulates (hs : s.Refines r) (hr : r.WF frame) (ht : r.lists .tmpList = []) :
    Computes s.swapLists r.swapLists s.epollSet := by
  have hfirst : s.links.lhFirst .tmpList = none := by rw [hs.rep.lhFirst,ht]; rfl
  obtain ⟨m,hm,hrep⟩ := hs.rep.moveHead s.live (h:=.readyList) ht (by simp)
    (fun b hb => hs.live_of_mem hr hb)
  refine ⟨{ s with links := m },by simp [swapLists,hfirst,hm],
    ⟨hs.cbMap,hs.nextSerial,hrep,?_⟩,rfl⟩
  have hsz := hs.size
  simp only [ht,List.length_nil] at hsz
  simpa [Registry.swapLists] using hsz

theorem takeReady_simulates (hs : s.Refines r) (hr : r.WF none) (hp : p ∈ r.lists .tmpList)
    (hd : r.deref p = some n) {cb : CB} (hc : n.cb = some cb) :
    ∃ s', s.takeReady p = .ok (s',⟨cb,p.fd,n.eventsAsserted ||| n.eventsToFake⟩) ∧
      s'.Refines (r.takeReady p) ∧ s'.epollSet = s.epollSet := by
  have hpos : ¬s.readyListSize ≤ 0 := by
    have h₁ := List.length_pos_of_mem hp
    have h₂ := hs.size
    omega
  have huse : n.inUse = false := by
    have h₁ := hr.inUse (Registry.deref_eq_some.mp hd).1
    simpa using h₁
  obtain ⟨s₁,h₁,hs₁,he₁⟩ := removeFromReadyList_refines hs hr hd
  have hd₁ : s₁.deref p = some n := by rw [hs₁.deref]; exact hd
  obtain ⟨s₂,h₂,hs₂,he₂⟩ := writeNode_refines (p:=p) hs₁ hd
    (fun n => { n with eventsAsserted := 0, eventsToFake := 0, inUse := true })
  refine ⟨s₂,?_,hs₂,he₂.trans he₁⟩
  simp only [takeReady,hpos,if_false,h₁,except_ok_bind,hd₁,huse,Bool.false_eq_true,h₂,hc]

theorem finishReady_simulates (hs : s.Refines r) (ha : Agree s.epollSet r)
    (hr : r.WF (some p)) (mask : Mask) :
    ∃ s', s.finishReady p mask = .ok s' ∧ s'.Refines (r.finishReady p mask) ∧
      Agree s'.epollSet (r.finishReady p mask) := by
  obtain ⟨n,hd⟩ := hr.frameLive rfl
  obtain ⟨hl,_⟩ := Registry.deref_eq_some.mp hd
  obtain ⟨s₁,h₁,hs₁,he₁⟩ := writeNode_refines hs hd (fun n => { n with inUse := false })
  have ha₁ : Agree s₁.epollSet (r.edit p.fd fun n => { n with inUse := false }) := by
    rw [he₁]
    exact ha.congr (watched_edit (fun _ => rfl) (fun _ => rfl))
  have hd₁ : s₁.deref p = some { n with inUse := false } := by
    rw [hs₁.deref,Registry.deref_edit (f:=fun n => { n with inUse := false }) (fun _ => rfl),
      if_pos rfl,hd]
    rfl
  have hl₁ : (r.edit p.fd fun n => { n with inUse := false }).cbMap.lookup p.fd =
      some { n with inUse := false } := by rw [Registry.lookup_edit,if_pos rfl,hl]; rfl
  simp only [finishReady,h₁,except_ok_bind,hd₁,Registry.finishReady,hl₁]
  cases hc : n.cb with
  | none =>
    refine ⟨_,rfl,by simpa [hc] using drop_refines hs₁ p.fd,?_⟩
    simp only [if_true]
    refine ha₁.congr fun x => ?_
    rw [Registry.watched,Registry.drop,lookup_erase_ite,Registry.watched]
    split_ifs with hx
    · subst hx; rw [hl₁]; simp [hc]
    · rfl
  | some cb =>
    simp only [reduceCtorEq,if_false]
    by_cases hm : mask = 0
    · simp only [hm,ne_eq,not_true_eq_false,if_false,if_true]
      exact ⟨s₁,rfl,hs₁,ha₁⟩
    · simp only [hm,ne_eq,not_false_eq_true,if_true,if_false]
      have hr₁ := hr.finishReady 0
      simp only [Registry.finishReady,hl₁,hc,reduceCtorEq,if_false,if_true] at hr₁
      have hd₂ : (r.edit p.fd fun n => { n with inUse := false }).deref p =
          some { n with inUse := false } := by rw [← hs₁.deref]; exact hd₁
      obtain ⟨s₂,h₂,hs₂,ha₂⟩ := raise_simulates
        (f:=fun n => { n with eventsToFake := mask }) hs₁ ha₁ hr₁ (fun _ => rfl) (fun _ => rfl)
        (fun _ => rfl) (fun _ => rfl) hl₁ (by simp [hc])
      have hptr : (⟨p.fd,n.serial⟩ : NodePtr) = p := by
        have := (Registry.deref_eq_some.mp hd).2
        cases p
        simp_all
      simp only [Registry.raise,Registry.onRegistered,hl₁,hc,reduceCtorEq,if_false,hptr] at h₂ hs₂ ha₂
      exact ⟨s₂,h₂,hs₂,ha₂⟩

end EpollServer

structure RegistryConfig where
  registry : Registry
  control : Control
  trace : List Happened

namespace RegistryConfig
open EpollConfig (Event)

def init : RegistryConfig := ⟨.init,.idle,[]⟩

def step (a : RegistryConfig) : Event → RegistryConfig
  | .op o => { a with registry := a.registry.perform o, trace := a.trace ++ [.did o] }
  | .callReadyListCallbacks => { a with registry := a.registry.swapLists, control := .loop }
  | .nextReady =>
    match a.registry.lists .tmpList with
    | [] => { a with control := .idle }
    | p :: _ =>
      match a.registry.deref p with
      | none => a
      | some n =>
        ⟨a.registry.takeReady p,.onEvent p,
          a.trace ++ [.called ⟨n.cb.getD 0,p.fd,n.eventsAsserted ||| n.eventsToFake⟩]⟩
  | .onEventReturns mask =>
    match a.control with
    | .onEvent p =>
      ⟨a.registry.finishReady p mask,.loop,a.trace ++ [.returned p.fd mask]⟩
    | _ => a

end RegistryConfig

namespace EpollConfig
open EpollServer

/-- A configuration of the server and the abstract one it stands for. -/
structure Coupled (c : EpollConfig) (a : RegistryConfig) : Prop where
  refines : c.server.Refines a.registry
  agree : Agree c.server.epollSet a.registry
  wf : a.registry.WF a.control.frame
  tmp : a.control = .idle → a.registry.lists .tmpList = []
  control : c.control = a.control
  trace : c.trace = a.trace

theorem Coupled.initial : Coupled init .init :=
  ⟨.initial,agree_initial,.initial,fun _ => rfl,rfl,rfl⟩

theorem tmpList_raise (r : Registry) (fd : Fd) (f : CBAndEventMask → CBAndEventMask) :
    (r.raise fd f).lists .tmpList = r.lists .tmpList := by
  unfold Registry.raise Registry.onRegistered
  split
  · rfl
  split_ifs
  · rfl
  · rw [Registry.tmpList_link,Registry.lists_edit]

theorem tmpList_notReady (r : Registry) (fd : Fd) :
    ((r.notReady fd).lists .tmpList).Sublist (r.lists .tmpList) := by
  unfold Registry.notReady
  split
  · exact List.Sublist.refl _
  · exact List.erase_sublist

theorem tmpList_makes (r : Registry) (cs : List ReadyCall) :
    ((r.makes cs).lists .tmpList).Sublist (r.lists .tmpList) := by
  induction cs generalizing r with
  | nil => exact List.Sublist.refl _
  | cons c cs ih =>
    cases c with
    | setFDReady fd mask =>
      have h := ih (r.raise fd fun n => { n with eventsToFake := mask })
      rwa [tmpList_raise] at h
    | setFDNotReady fd => exact (ih (r.notReady fd)).trans (tmpList_notReady r fd)

theorem performWith_tmpList (k : NotifyCalls) (r : Registry) (o : Op) :
    ((r.performWith k o).lists .tmpList).Sublist (r.lists .tmpList) := by
  have hunlink : ∀ p, (((r.unlink p).makes k.onUnregistration).lists .tmpList).Sublist
      (r.lists .tmpList) := fun p => (tmpList_makes _ _).trans List.erase_sublist
  have hmodify : ∀ fd a b, ((r.modifyWith k fd a b).lists .tmpList).Sublist (r.lists .tmpList) := by
    intro fd a b
    unfold Registry.modifyWith Registry.onRegistered
    split
    · exact List.Sublist.refl _
    split_ifs
    · exact List.Sublist.refl _
    · refine (tmpList_makes _ _).trans ?_
      rw [Registry.lists_edit]
  cases o with
  | registerFD fd cb mask =>
    simp only [Registry.performWith]
    split
    · exact tmpList_makes _ _
    · refine (tmpList_makes _ _).trans ?_
      rw [Registry.lists_edit]
      split_ifs
      · exact List.Sublist.refl _
      · exact hunlink _
  | unregisterFD fd =>
    simp only [Registry.performWith,Registry.onRegistered]
    split
    · exact List.Sublist.refl _
    split_ifs
    · exact List.Sublist.refl _
    · rw [Registry.lists_edit]
      exact hunlink _
    · exact hunlink _
  | setFDNotReady fd => exact tmpList_notReady r fd
  | handleEvent fd mask => exact (tmpList_raise r fd _) ▸ List.Sublist.refl _
  | setFDReady fd mask => exact (tmpList_raise r fd _) ▸ List.Sublist.refl _
  | modifyCallback fd mask => exact hmodify _ _ _
  | stopRead fd => exact hmodify _ _ _
  | startRead fd => exact hmodify _ _ _
  | stopWrite fd => exact hmodify _ _ _
  | startWrite fd => exact hmodify _ _ _

theorem perform_tmpList {r : Registry} {frame : Option NodePtr} (hr : r.WF frame) (o : Op) :
    ((r.perform o).lists .tmpList).Sublist (r.lists .tmpList) := by
  rw [← hr.performWith_nil o]
  exact performWith_tmpList _ r o

theorem Coupled.step {c : EpollConfig} {a : RegistryConfig} (h : Coupled c a) {e : Event}
    (he : machine.admits c e) : ∃ c', machine.step c e = .ok c' ∧ Coupled c' (a.step e) := by
  obtain ⟨server,control,trace⟩ := c
  obtain ⟨registry,control',trace'⟩ := a
  obtain ⟨hs,ha,hr,ht,hc,htr⟩ := h
  dsimp only at hs ha hr ht hc htr
  subst hc htr
  cases e with
  | op o =>
    obtain ⟨s',h₁,hs',ha'⟩ := perform_simulates hs ha hr o
    refine ⟨_,by simp [machine,EpollConfig.step,h₁]; rfl,hs',ha',hr.perform o,?_,rfl,rfl⟩
    intro hi
    exact List.sublist_nil.mp (ht hi ▸ perform_tmpList hr o)
  | callReadyListCallbacks =>
    have hi : control = .idle := he
    subst hi
    obtain ⟨s',h₁,hs',he'⟩ := swapLists_simulates hs hr (ht rfl)
    refine ⟨_,by simp [machine,EpollConfig.step,h₁]; rfl,hs',?_,hr.swapLists,(fun hi => by cases hi),
      rfl,rfl⟩
    simp only [he']
    exact ha
  | nextReady =>
    have hi : control = .loop := he
    subst hi
    have hfirst := hs.rep.lhFirst .tmpList
    cases hl : registry.lists .tmpList with
    | nil =>
      rw [hl] at hfirst
      have hstep : RegistryConfig.step ⟨registry,.loop,trace⟩ .nextReady =
          ⟨registry,.idle,trace⟩ := by simp [RegistryConfig.step,hl]
      rw [hstep]
      exact ⟨⟨server,.idle,trace⟩,by simp [machine,EpollConfig.step,hfirst],hs,ha,hr,
        fun _ => hl,rfl,rfl⟩
    | cons p rest =>
      rw [hl] at hfirst
      have hp : p ∈ registry.lists .tmpList := by simp [hl]
      obtain ⟨n,hd,hcb⟩ := hr.member hp
      obtain ⟨cb,hcb⟩ := Option.ne_none_iff_exists'.mp hcb
      obtain ⟨s',h₁,hs',he'⟩ := takeReady_simulates hs hr hp hd hcb
      have hstep : RegistryConfig.step ⟨registry,.loop,trace⟩ .nextReady =
          ⟨registry.takeReady p,.onEvent p,
            trace ++ [Happened.called ⟨cb,p.fd,n.eventsAsserted ||| n.eventsToFake⟩]⟩ := by
        simp [RegistryConfig.step,hl,hd,hcb]
      rw [hstep]
      refine ⟨_,by simp [machine,EpollConfig.step,hfirst,h₁]; rfl,hs',?_,hr.takeReady hp,by simp,
        rfl,rfl⟩
      simp only [he']
      exact ha.congr (watched_edit (fun _ => rfl) (fun _ => rfl))
  | onEventReturns mask =>
    cases control with
    | idle => exact absurd he (by simp [machine,admits,Control.isOnEvent])
    | loop => exact absurd he (by simp [machine,admits,Control.isOnEvent])
    | onEvent p =>
      obtain ⟨s',h₁,hs',ha'⟩ := finishReady_simulates hs ha hr mask
      exact ⟨_,by simp [machine,EpollConfig.step,h₁]; rfl,hs',ha',hr.finishReady mask,
        (fun hi => by cases hi),rfl,rfl⟩

def Sound (c : EpollConfig) : Prop := ∃ a, Coupled c a

theorem sound_inductive : machine.Inductive Sound where
  keeps := by
    rintro c e ⟨a,ha⟩ he
    obtain ⟨c',hc,ha'⟩ := ha.step he
    exact ⟨c',hc,_,ha'⟩

/-- The ready lists of a configuration, as the intrusive links spell them. -/
structure ReadyLists (c : EpollConfig) (ready tmp : List NodePtr) : Prop where
  readyChain : c.server.links.Chain (.first .readyList) ready
  tmpChain : c.server.links.Chain (.first .tmpList) tmp
  nodup : (ready ++ tmp).Nodup
  back : ∀ p ∈ ready ++ tmp, ∃ q, c.server.links.lePrev p = some q ∧ c.server.links.load q = some p
  linked : ∀ fd n, c.server.cbMap.lookup fd = some n →
    (c.server.links.lePrev ⟨fd,n.serial⟩ ≠ none ↔ ⟨fd,n.serial⟩ ∈ ready ++ tmp)
  live : ∀ p ∈ ready ++ tmp, ∃ n, c.server.deref p = some n ∧ n.cb ≠ none
  size : c.server.readyListSize = ready.length + tmp.length
  idle : c.control = .idle → tmp = []

theorem Coupled.readyLists {c : EpollConfig} {a : RegistryConfig} (h : Coupled c a) :
    c.ReadyLists (a.registry.lists .readyList) (a.registry.lists .tmpList) where
  readyChain := h.refines.rep.chain _
  tmpChain := h.refines.rep.chain _
  nodup := by
    refine List.nodup_append.mpr ⟨h.wf.separate.nodup _,h.wf.separate.nodup _,?_⟩
    rintro p hp q hq rfl
    cases h.wf.separate.disjoint hp hq
  back p hp := by
    rcases List.mem_append.mp hp with hp | hp
    · exact (h.refines.rep.chain _).load_prev hp
    · exact (h.refines.rep.chain _).load_prev hp
  linked fd n _ := by
    rw [h.refines.rep.linked,List.mem_append]
    constructor
    · rintro ⟨k,hk⟩
      cases k
      · exact Or.inl hk
      · exact Or.inr hk
    · rintro (hp | hp)
      · exact ⟨_,hp⟩
      · exact ⟨_,hp⟩
  live p hp := by
    rw [h.refines.deref]
    rcases List.mem_append.mp hp with hp | hp
    · exact h.wf.member hp
    · exact h.wf.member hp
  size := h.refines.size
  idle hi := h.tmp (h.control ▸ hi)

/-- Along every run, at every point between two primitive operations, the two
intrusive lists are intact, and no admitted operation can abort the server. -/
theorem readyLists_of_run {es : List Event} {c : EpollConfig} (h : machine.Run init es c) :
    (∃ ready tmp, c.ReadyLists ready tmp) ∧ machine.Safe c := by
  obtain ⟨a,ha⟩ := sound_inductive.run h ⟨_,.initial⟩
  exact ⟨⟨_,_,ha.readyLists⟩,sound_inductive.safe ⟨a,ha⟩⟩

/-- Two ready descriptors; the first callback unregisters both, registers one
again and makes it ready, and the round still ends with intact lists. -/
theorem readyLists_of_nested_run : ∃ c, machine.Run init
    [.op (.registerFD 3 7 epollIn),.op (.registerFD 4 8 epollIn),.op (.handleEvent 3 epollIn),
      .op (.setFDReady 4 epollIn),.callReadyListCallbacks,.nextReady,.op (.unregisterFD 4),
      .op (.unregisterFD 3),.op (.registerFD 4 9 epollOut),.op (.setFDReady 4 epollOut),
      .onEventReturns epollIn,.nextReady] c ∧
    (∃ ready tmp, c.ReadyLists ready tmp) ∧ machine.Safe c :=
  let ⟨c,hc⟩ := machine.exists_run_of_exec (by decide +kernel)
  ⟨c,hc,readyLists_of_run hc⟩

end EpollConfig
end CmuQuic
