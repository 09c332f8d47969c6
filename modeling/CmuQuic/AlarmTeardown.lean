import CmuQuic.AlarmTokens

/-! The alarms when their `EpollServer` is destroyed before them, as it is inside a
`QuicServer`: `CleanupTimeToAlarmCBMap` tells every alarm that is registered, and from
then on no alarm has a reason to look at the server again. -/
namespace CmuQuic

/-- Where `~EpollServer` stands: at the head of the loop over `alarm_map_`, inside an
`OnShutdown`, or past its end, with the memory of the server gone. -/
inductive TeardownControl
  | loop (i : Option ℕ)
  | onShutdown (i : ℕ)
  | freed
  deriving DecidableEq

namespace TeardownControl

def atLoop : TeardownControl → Bool
  | .loop _ => true
  | _ => false

def inside : TeardownControl → Bool
  | .onShutdown _ => true
  | _ => false

theorem atLoop_iff {k : TeardownControl} : k.atLoop = true ↔ ∃ i, k = .loop i := by
  cases k <;> simp [atLoop]

theorem inside_iff {k : TeardownControl} : k.inside = true ↔ ∃ i, k = .onShutdown i := by
  cases k <;> simp [inside]

end TeardownControl

structure AlarmTeardown where
  config : AlarmConfig
  control : TeardownControl
  /-- The alarms that `OnShutdown` was called on. -/
  told : List AlarmCB

namespace AlarmTeardown

def start (c : AlarmConfig) : AlarmTeardown := ⟨c,.loop c.server.alarmMap.first,[]⟩

inductive Event
  | onShutdown
  | cancel (a : AlarmCB)
  | destroy (a : AlarmCB)
  | returns
  deriving DecidableEq

/-- An `OnShutdown` may cancel or destroy any alarm, and so may everybody else after the
server is gone. -/
def admits (s : AlarmTeardown) : Event → Prop
  | .onShutdown => s.control.atLoop = true
  | .cancel a => s.control.atLoop = false ∧ s.config.isAlive a
  | .destroy a => s.control.atLoop = false ∧ s.config.isAlive a
  | .returns => s.control.inside = true

/-- `EpollAlarm::OnShutdown` of the entry that the iterator points to. -/
def onShutdown (s : AlarmTeardown) : Except Abort AlarmTeardown :=
  match s.control with
  | .loop none => .ok { s with control := .freed }
  | .loop (some i) =>
    match s.config.server.alarmMap.find i with
    | none => .error .access
    | some n =>
      match s.config.alarms n.val with
      | none => .error .access
      | some x => .ok {
        config := s.config.write n.val { x with registered := false }
        control := .onShutdown i
        told := s.told ++ [n.val] }
  | _ => .ok s

/-- The alarm would call the server that is gone. -/
def callsFreed (s : AlarmTeardown) (a : AlarmCB) : Bool :=
  s.control = .freed ∧ (s.config.alarms a).any (fun x => x.registered) = true

def step (s : AlarmTeardown) : Event → Except Abort AlarmTeardown
  | .onShutdown => s.onShutdown
  | .cancel a =>
    if s.callsFreed a then .error .access
    else do
      let c ← s.config.cancel a
      .ok { s with config := c }
  | .destroy a =>
    if s.callsFreed a then .error .access
    else do
      let c ← s.config.destroy a
      .ok { s with config := c }
  | .returns =>
    match s.control with
    | .onShutdown i => do
      let (server,i) ← s.config.server.eraseFired i
      .ok { s with config := { s.config with server := server }, control := .loop i }
    | _ => .ok s

def machine : Machine AlarmTeardown Event Abort := ⟨admits,step⟩

instance (s : AlarmTeardown) : (e : Event) → Decidable (s.admits e)
  | .onShutdown => inferInstanceAs (Decidable (_ = true))
  | .cancel _ => inferInstanceAs (Decidable (_ = false ∧ _ = true))
  | .destroy _ => inferInstanceAs (Decidable (_ = false ∧ _ = true))
  | .returns => inferInstanceAs (Decidable (_ = true))

instance (s : AlarmTeardown) (e : Event) : Decidable (machine.admits s e) :=
  inferInstanceAs (Decidable (s.admits e))

def Event.subject : Event → Option AlarmCB
  | .cancel a => some a
  | .destroy a => some a
  | _ => none

def Event.isTurn : Event → Bool
  | .onShutdown => true
  | _ => false

def waiting (s : AlarmTeardown) : List (Node ℤ AlarmCB) :=
  match s.control with
  | .onShutdown _ => s.config.server.alarmMap.nodes.tail
  | _ => s.config.server.alarmMap.nodes

/-- What holds while a server is torn down that had the given entries. -/
structure Closing (entries : List (Node ℤ AlarmCB)) (fs : List Event) (s : AlarmTeardown) :
    Prop where
  atLoop : ∀ {i}, s.control = .loop i → i = s.config.server.alarmMap.first
  inside : ∀ {i}, s.control = .onShutdown i →
    ∃ n rest, s.config.server.alarmMap.nodes = n :: rest ∧ n.token = i
  freed : s.control = .freed → s.config.server.alarmMap.nodes = []
  entry : ∀ n ∈ s.waiting, ∃ x, s.config.alarms n.val = some x ∧ x.registered = true ∧
    x.token = n.token
  only : ∀ {a x}, s.config.alarms a = some x → x.registered = true →
    ∃ n ∈ s.waiting, n.val = a ∧ n.token = x.token
  order : (s.told ++ s.waiting.map Node.val).Sublist (entries.map Node.val)
  covers : ∀ n ∈ entries, n.val ∈ s.told ∨ n ∈ s.waiting ∨ ∃ e ∈ fs, e.subject = some n.val

/-- What giving up an alarm does: it is no longer registered, and its entry is gone. -/
structure GivenUp (a : AlarmCB) (x : QuicEpollAlarm) (c c' : AlarmConfig) : Prop where
  other : ∀ b, b ≠ a → c'.alarms b = c.alarms b
  self : ∀ y, c'.alarms a = some y → y.registered = false
  nodes : c'.server.alarmMap.nodes = if x.registered then
    c.server.alarmMap.nodes.filter (fun n => n.token ≠ x.token) else c.server.alarmMap.nodes

end AlarmTeardown

namespace AlarmConfig
open AlarmTeardown (GivenUp)

variable {c : AlarmConfig} {a : AlarmCB} {x : QuicEpollAlarm}

theorem unregisterIfRegistered_givenUp (ha : c.alarms a = some x)
    (hentry : x.registered = true → ∃ n ∈ c.server.alarmMap.nodes, n.val = a ∧ n.token = x.token) :
    ∃ c', c.unregisterIfRegistered a = .ok c' ∧ GivenUp a x c c' := by
  cases hr : x.registered with
  | false =>
    refine ⟨c,by simp [unregisterIfRegistered,ha,hr],fun _ _ => rfl,fun y hy => ?_,by simp [hr]⟩
    rw [ha] at hy
    cases hy
    exact hr
  | true =>
    obtain ⟨n,hn,rfl,ht⟩ := hentry hr
    have hfind : c.server.alarmMap.find x.token = some n := Multimap.find_eq_some.mpr ⟨hn,ht⟩
    refine ⟨_,by simp [unregisterIfRegistered,ha,hr,AlarmServer.unregisterAlarm,hfind]; rfl,
      fun b hb => ?_,fun y hy => ?_,by simp [write,hr,Multimap.erase]⟩
    · simp [write,hb]
    · simp only [write,Function.update_self,Option.some.injEq] at hy
      rw [← hy]

theorem cancel_givenUp (ha : c.alarms a = some x)
    (hentry : x.registered = true → ∃ n ∈ c.server.alarmMap.nodes, n.val = a ∧ n.token = x.token) :
    ∃ c', c.cancel a = .ok c' ∧ GivenUp a x c c' := by
  have hwrite : (c.write a { x with deadline := 0 }).alarms a = some { x with deadline := 0 } := by
    simp [write]
  obtain ⟨c',hc',hgiven⟩ := unregisterIfRegistered_givenUp hwrite hentry
  refine ⟨c',by simp [cancel,ha,cancelImpl,hwrite,hc'],fun b hb => ?_,hgiven.self,hgiven.nodes⟩
  rw [hgiven.other b hb]
  simp [write,hb]

theorem destroy_givenUp (ha : c.alarms a = some x)
    (hentry : x.registered = true → ∃ n ∈ c.server.alarmMap.nodes, n.val = a ∧ n.token = x.token) :
    ∃ c', c.destroy a = .ok c' ∧ GivenUp a x c c' := by
  obtain ⟨c',hc',hgiven⟩ := unregisterIfRegistered_givenUp ha hentry
  refine ⟨{ c' with alarms := Function.update c'.alarms a none },by simp [destroy,hc'],
    fun b hb => ?_,fun y hy => ?_,hgiven.nodes⟩
  · simp [hb,hgiven.other b hb]
  · simp at hy

end AlarmConfig

namespace AlarmTeardown

variable {entries : List (Node ℤ AlarmCB)} {fs : List Event} {s t : AlarmTeardown}

theorem Closing.snoc (h : Closing entries fs s) (e : Event) : Closing entries (fs ++ [e]) s := by
  refine ⟨h.atLoop,h.inside,h.freed,h.entry,h.only,h.order,fun n hn => ?_⟩
  refine (h.covers n hn).imp_right (Or.imp_right ?_)
  rintro ⟨e',he',hs⟩
  exact ⟨e',List.mem_append_left _ he',hs⟩

theorem Closing.mem_nodes (_ : Closing entries fs s) {n : Node ℤ AlarmCB} (hn : n ∈ s.waiting) :
    n ∈ s.config.server.alarmMap.nodes := by
  unfold waiting at hn
  split at hn
  · exact List.mem_of_mem_tail hn
  · exact hn

theorem Closing.onShutdown (h : Closing entries fs s) {i : Option ℕ} (hc : s.control = .loop i) :
    ∃ t, s.onShutdown = .ok t ∧ Closing entries fs t := by
  have hwait : s.waiting = s.config.server.alarmMap.nodes := by simp [waiting,hc]
  have hi := h.atLoop hc
  cases hnodes : s.config.server.alarmMap.nodes with
  | nil =>
    have hnone : i = none := by rw [hi,Multimap.first,hnodes]; rfl
    refine ⟨{ s with control := .freed },by simp [AlarmTeardown.onShutdown,hc,hnone],?_⟩
    have hwait' : waiting { s with control := .freed } = s.waiting := by simp [waiting,hc]
    refine ⟨(fun hc' => by cases hc'),(fun hc' => by cases hc'),fun _ => hnodes,?_,?_,?_,?_⟩
    all_goals rw [hwait']
    · exact h.entry
    · exact h.only
    · exact h.order
    · exact h.covers
  | cons n rest =>
    have hsome : i = some n.token := by rw [hi,Multimap.first,hnodes]; rfl
    have hn : n ∈ s.config.server.alarmMap.nodes := by simp [hnodes]
    have hfind := Multimap.find_eq_some.mpr ⟨hn,rfl⟩
    obtain ⟨x,hx,hr,ht⟩ := h.entry n (hwait ▸ hn)
    have hother : ∀ m ∈ rest, m.val ≠ n.val := by
      intro m hm hval
      obtain ⟨y,hy,_,hyt⟩ := h.entry m (by rw [hwait,hnodes]; exact List.mem_cons_of_mem n hm)
      rw [hval,hx] at hy
      cases hy
      have hdistinct := s.config.server.alarmMap.distinct
      rw [hnodes] at hdistinct
      exact (List.pairwise_cons.mp hdistinct).1 m hm (ht.symm.trans hyt)
    refine ⟨_,by simp [AlarmTeardown.onShutdown,hc,hsome,hfind,hx]; rfl,
      (fun hc' => by cases hc'),?_,(fun hc' => by cases hc'),?_,?_,?_,?_⟩
    · intro i hi
      cases hi
      exact ⟨n,rest,hnodes,rfl⟩
    · intro m hm
      have hm : m ∈ rest := by simpa [waiting,AlarmConfig.write,hnodes] using hm
      obtain ⟨y,hy,hyr,hyt⟩ := h.entry m (by rw [hwait,hnodes]; exact List.mem_cons_of_mem n hm)
      exact ⟨y,by simp [AlarmConfig.write,hother m hm,hy],hyr,hyt⟩
    · intro a y hy hyr
      have hne : a ≠ n.val := by
        rintro rfl
        simp only [AlarmConfig.write,Function.update_self,Option.some.injEq] at hy
        rw [← hy] at hyr
        cases hyr
      obtain ⟨m,hm,rfl,hmt⟩ := h.only (by simpa [AlarmConfig.write,hne] using hy) hyr
      rw [hwait,hnodes] at hm
      refine ⟨m,?_,rfl,hmt⟩
      rw [show waiting _ = rest by simp [waiting,AlarmConfig.write,hnodes]]
      exact (List.mem_cons.mp hm).resolve_left fun he => hne (congrArg Node.val he)
    · have horder := h.order
      rw [hwait,hnodes,List.map_cons,List.append_cons] at horder
      simpa [waiting,AlarmConfig.write,hnodes] using horder
    · intro m hm
      rcases h.covers m hm with htold | hwaits | hgone
      · exact Or.inl (List.mem_append_left _ htold)
      · rw [hwait,hnodes] at hwaits
        rcases List.mem_cons.mp hwaits with rfl | hrest
        · exact Or.inl (List.mem_append_right _ (List.mem_singleton.mpr rfl))
        · exact Or.inr (Or.inl (by simpa [waiting,AlarmConfig.write,hnodes] using hrest))
      · exact Or.inr (Or.inr hgone)

theorem Closing.returns (h : Closing entries fs s) {i : ℕ} (hc : s.control = .onShutdown i) :
    ∃ t, s.step .returns = .ok t ∧ Closing entries fs t := by
  obtain ⟨n,rest,hnodes,rfl⟩ := h.inside hc
  have hfind := Multimap.find_eq_some.mpr ⟨show n ∈ s.config.server.alarmMap.nodes by simp [hnodes],rfl⟩
  have hwait : s.waiting = rest := by simp [waiting,hc,hnodes]
  have hdistinct := s.config.server.alarmMap.distinct
  rw [hnodes] at hdistinct
  have herase : (s.config.server.alarmMap.erase n.token).nodes = rest := by
    simp only [Multimap.erase,hnodes,List.filter_cons,decide_not,decide_true,Bool.not_true,
      Bool.false_eq_true,if_false]
    refine List.filter_eq_self.mpr fun m hm => ?_
    simpa using ((List.pairwise_cons.mp hdistinct).1 m hm).symm
  have hnext : s.config.server.alarmMap.next n.token = (s.config.server.alarmMap.erase n.token).first := by
    rw [Multimap.first,herase,Multimap.next,hnodes,Node.dropTo_cons,if_pos rfl]
    rfl
  refine ⟨_,by simp [AlarmTeardown.step,hc,AlarmServer.eraseFired,hfind]; rfl,?_,
    (fun hc' => by cases hc'),(fun hc' => by cases hc'),?_,?_,?_,?_⟩
  · intro i hi
    cases hi
    exact hnext
  all_goals rw [show waiting _ = s.waiting by simp only [waiting,hc,herase,hnodes,List.tail_cons]]
  · exact h.entry
  · exact h.only
  · exact h.order
  · exact h.covers

theorem Closing.entry_of_registered (h : Closing entries fs s) {a : AlarmCB} {x : QuicEpollAlarm}
    (ha : s.config.alarms a = some x) (hr : x.registered = true) :
    ∃ n ∈ s.config.server.alarmMap.nodes, n.val = a ∧ n.token = x.token := by
  obtain ⟨n,hn,hval,ht⟩ := h.only ha hr
  exact ⟨n,h.mem_nodes hn,hval,ht⟩

theorem Closing.val_of_token (h : Closing entries fs s) {a : AlarmCB} {x : QuicEpollAlarm}
    (ha : s.config.alarms a = some x) (hr : x.registered = true) {m : Node ℤ AlarmCB}
    (hm : m ∈ s.waiting) (hmt : m.token = x.token) : m.val = a := by
  obtain ⟨n,hn,rfl,ht⟩ := h.entry_of_registered ha hr
  rw [Multimap.eq_of_token (h.mem_nodes hm) hn (hmt.trans ht.symm)]

theorem Closing.waiting_givenUp (h : Closing entries fs s) {a : AlarmCB} {x : QuicEpollAlarm}
    {c : AlarmConfig} (ha : s.config.alarms a = some x) (hc : s.control.atLoop = false)
    (hg : GivenUp a x s.config c) :
    waiting { s with config := c } = (if x.registered then
      s.waiting.filter (fun n => n.token ≠ x.token) else s.waiting) ∧
    ∀ {i}, s.control = .onShutdown i → ∃ n rest, c.server.alarmMap.nodes = n :: rest ∧ n.token = i := by
  cases hr : x.registered with
  | false =>
    have hnodes : c.server.alarmMap.nodes = s.config.server.alarmMap.nodes := by
      rw [hg.nodes,hr]
      rfl
    refine ⟨by simp only [waiting,hnodes]; rfl,fun hi => ?_⟩
    rw [hnodes]
    exact h.inside hi
  | true =>
    have hnodes := hg.nodes
    rw [hr,if_pos rfl] at hnodes
    rw [if_pos rfl]
    cases hcontrol : s.control with
    | loop i =>
      rw [hcontrol] at hc
      cases hc
    | freed =>
      refine ⟨?_,fun hi => by cases hi⟩
      simp only [waiting,hcontrol,hnodes]
    | onShutdown i =>
      obtain ⟨n,rest,hall,rfl⟩ := h.inside hcontrol
      obtain ⟨m,hm,_,hmt⟩ := h.only ha hr
      have hm : m ∈ rest := by simpa [waiting,hcontrol,hall] using hm
      have hdistinct := s.config.server.alarmMap.distinct
      rw [hall] at hdistinct
      have hne : n.token ≠ x.token := by
        rw [← hmt]
        exact (List.pairwise_cons.mp hdistinct).1 m hm
      rw [hall,List.filter_cons_of_pos (by simpa using hne)] at hnodes
      refine ⟨by simp only [waiting,hcontrol,hall,hnodes,List.tail_cons],fun hi => ?_⟩
      cases hi
      exact ⟨n,_,hnodes,rfl⟩

theorem Closing.givenUp (h : Closing entries fs s) {a : AlarmCB} {x : QuicEpollAlarm}
    {c : AlarmConfig} (ha : s.config.alarms a = some x) (hc : s.control.atLoop = false)
    (hg : GivenUp a x s.config c) {e : Event} (he : e.subject = some a) :
    Closing entries (fs ++ [e]) { s with config := c } := by
  obtain ⟨hwait,hinside⟩ := h.waiting_givenUp ha hc hg
  have hsub : (waiting { s with config := c }).Sublist s.waiting := by
    rw [hwait]
    split_ifs
    · exact List.filter_sublist
    · exact List.Sublist.refl _
  have hkept : ∀ m ∈ s.waiting, m.val ≠ a → m ∈ waiting { s with config := c } := by
    intro m hm hne
    rw [hwait]
    split_ifs with hr
    · refine List.mem_filter.mpr ⟨hm,?_⟩
      simpa using fun hmt => hne (h.val_of_token ha hr hm hmt)
    · exact hm
  refine ⟨fun hi => ?_,hinside,fun hfree => ?_,fun m hm => ?_,fun hb hbr => ?_,?_,?_⟩
  · rw [show s.control = _ from hi] at hc
    cases hc
  · have hnil := h.freed hfree
    rw [hg.nodes]
    split_ifs <;> simp [hnil]
  · obtain ⟨y,hy,hyr,hyt⟩ := h.entry m (hsub.subset hm)
    have hne : m.val ≠ a := by
      intro hval
      rw [hval,ha] at hy
      cases hy
      rw [hwait,if_pos hyr] at hm
      simp [hyt] at hm
    exact ⟨y,by rw [← hy]; exact hg.other m.val hne,hyr,hyt⟩
  · rename_i b y
    have hne : b ≠ a := by
      rintro rfl
      rw [hg.self y hb] at hbr
      cases hbr
    obtain ⟨m,hm,rfl,hmt⟩ := h.only (by rw [← hb]; exact (hg.other _ hne).symm) hbr
    exact ⟨m,hkept m hm hne,rfl,hmt⟩
  · exact ((hsub.map Node.val).append_left s.told).trans h.order
  · intro m hm
    rcases h.covers m hm with htold | hwaits | ⟨e',he',hs⟩
    · exact Or.inl htold
    · by_cases hval : m.val = a
      · exact Or.inr (Or.inr ⟨e,by simp,by rw [he,hval]⟩)
      · exact Or.inr (Or.inl (hkept m hwaits hval))
    · exact Or.inr (Or.inr ⟨e',List.mem_append_left _ he',hs⟩)

theorem Closing.callsFreed (h : Closing entries fs s) (a : AlarmCB) : s.callsFreed a = false := by
  by_contra hcalls
  simp only [AlarmTeardown.callsFreed,decide_eq_true_eq,Bool.not_eq_false] at hcalls
  obtain ⟨hfree,hreg⟩ := hcalls
  obtain ⟨x,hx,hr⟩ := (Option.any_eq_true _ _).mp hreg
  obtain ⟨n,hn,_⟩ := h.entry_of_registered hx hr
  rw [h.freed hfree] at hn
  cases hn

theorem Closing.step (h : Closing entries fs s) {e : Event} (he : s.admits e) :
    ∃ t, s.step e = .ok t ∧ Closing entries (fs ++ [e]) t := by
  cases e with
  | onShutdown =>
    obtain ⟨i,hi⟩ := TeardownControl.atLoop_iff.mp he
    exact (h.snoc .onShutdown).onShutdown hi
  | returns =>
    obtain ⟨i,hi⟩ := TeardownControl.inside_iff.mp he
    exact (h.snoc .returns).returns hi
  | cancel a =>
    obtain ⟨hc,halive⟩ := he
    obtain ⟨x,hx⟩ := Option.isSome_iff_exists.mp halive
    obtain ⟨c,hcancel,hg⟩ := AlarmConfig.cancel_givenUp hx (h.entry_of_registered hx)
    exact ⟨{ s with config := c },by simp [AlarmTeardown.step,h.callsFreed a,hcancel],
      h.givenUp hx hc hg rfl⟩
  | destroy a =>
    obtain ⟨hc,halive⟩ := he
    obtain ⟨x,hx⟩ := Option.isSome_iff_exists.mp halive
    obtain ⟨c,hdestroy,hg⟩ := AlarmConfig.destroy_givenUp hx (h.entry_of_registered hx)
    exact ⟨{ s with config := c },by simp [AlarmTeardown.step,h.callsFreed a,hdestroy],
      h.givenUp hx hc hg rfl⟩

/-- Every turn of the loop tells an alarm, except for the last one. -/
def Turned (fs : List Event) (s : AlarmTeardown) : Prop :=
  fs.countP Event.isTurn = s.told.length + if s.control = .freed then 1 else 0

theorem Turned.step (h : Turned fs s) {e : Event} (he : s.admits e) (ht : s.step e = .ok t) :
    Turned (fs ++ [e]) t := by
  unfold Turned at h ⊢
  rw [List.countP_append,h]
  cases e with
  | onShutdown =>
    obtain ⟨i,hi⟩ := TeardownControl.atLoop_iff.mp he
    simp only [AlarmTeardown.step,AlarmTeardown.onShutdown,hi] at ht
    cases i with
    | none =>
      cases ht
      simp [hi,Event.isTurn]
    | some i =>
      simp only at ht
      split at ht
      · cases ht
      · split at ht
        · cases ht
        · cases ht
          simp [hi,Event.isTurn]
  | cancel a =>
    simp only [AlarmTeardown.step] at ht
    split_ifs at ht
    obtain ⟨c,_,ht⟩ := except_bind_eq_ok ht
    cases ht
    simp [Event.isTurn]
  | destroy a =>
    simp only [AlarmTeardown.step] at ht
    split_ifs at ht
    obtain ⟨c,_,ht⟩ := except_bind_eq_ok ht
    cases ht
    simp [Event.isTurn]
  | returns =>
    obtain ⟨i,hi⟩ := TeardownControl.inside_iff.mp he
    simp only [AlarmTeardown.step,hi] at ht
    obtain ⟨r,_,ht⟩ := except_bind_eq_ok ht
    cases ht
    simp [hi,Event.isTurn]

/-- What a user of alarms may count on while the server goes and after it is gone: no
call of an alarm reaches freed memory; every alarm that was registered is told once and
in the order of the times, unless it was given up before; the loop ends; and nothing is
registered any more. -/
structure TornDown (c : AlarmConfig) (fs : List Event) (s : AlarmTeardown) : Prop where
  safe : machine.Safe s
  once : s.told.Nodup
  order : s.told.Sublist (c.server.alarmMap.nodes.map Node.val)
  covers : ∀ n ∈ c.server.alarmMap.nodes,
    n.val ∈ s.told ∨ n ∈ s.waiting ∨ ∃ e ∈ fs, e.subject = some n.val
  turns : fs.countP Event.isTurn ≤ c.server.alarmMap.nodes.length+1
  freed : s.control = .freed → s.config.server.alarmMap.nodes = [] ∧
    ∀ a x, s.config.alarms a = some x → x.registered = false

theorem Closing.initial {c : AlarmConfig} (hc : c.Coherent) (hidle : c.control = .idle) :
    Closing c.server.alarmMap.nodes [] (start c) := by
  refine ⟨(fun hi => by cases hi; rfl),(fun hi => by cases hi),(fun hi => by cases hi),?_,?_,
    List.Sublist.refl _,fun n hn => Or.inr (Or.inl hn)⟩
  · intro n hn
    obtain ⟨x,hx⟩ := hc.alive n hn
    rcases hc.only hn hx with ⟨hr,ht⟩ | ⟨now,hfire⟩
    · exact ⟨x,hx,hr,ht⟩
    · rw [hidle] at hfire
      cases hfire
  · intro a x hx hr
    exact ⟨_,hc.entry hx hr,rfl,rfl⟩

theorem nodup_of_coherent {c : AlarmConfig} (hc : c.Coherent) (hidle : c.control = .idle) :
    (c.server.alarmMap.nodes.map Node.val).Nodup := by
  refine List.pairwise_map.mpr (c.server.alarmMap.distinct.imp_of_mem fun {m n} hm hn hne => ?_)
  intro hval
  obtain ⟨x,hx,_,hxt⟩ := (Closing.initial hc hidle).entry m hm
  obtain ⟨y,hy,_,hyt⟩ := (Closing.initial hc hidle).entry n hn
  rw [show (start c).config.alarms m.val = (start c).config.alarms n.val by rw [hval],hy] at hx
  cases hx
  exact hne (hxt.symm.trans hyt)

theorem Closing.tornDown {c : AlarmConfig} (h : Closing c.server.alarmMap.nodes fs s)
    (hnodup : (c.server.alarmMap.nodes.map Node.val).Nodup) (hturns : Turned fs s) :
    TornDown c fs s := by
  have hsub : s.told.Sublist (c.server.alarmMap.nodes.map Node.val) :=
    (List.sublist_append_left _ _).trans h.order
  refine ⟨fun e he => let ⟨t,ht,_⟩ := h.step he; ⟨t,ht⟩,hnodup.sublist hsub,hsub,h.covers,?_,?_⟩
  · have hlen := hsub.length_le
    rw [List.length_map] at hlen
    have hturns : fs.countP Event.isTurn = _ := hturns
    rw [hturns]
    split_ifs <;> omega
  · intro hfree
    refine ⟨h.freed hfree,fun a x hx => ?_⟩
    by_contra hr
    obtain ⟨n,hn,_⟩ := h.entry_of_registered hx (by simpa using hr)
    rw [h.freed hfree] at hn
    cases hn

/-- The alarms outlive their server safely: from every state that is reachable between
two rounds, for all that `OnShutdown`s and later users do with the alarms. -/
theorem alarms_outlive_server {es : List AlarmConfig.Event} {c : AlarmConfig}
    (h : AlarmConfig.machine.Run .init es c) (hidle : c.control = .idle)
    (hs : machine.Run (start c) fs s) : TornDown c fs s := by
  have hc : c.Coherent := AlarmConfig.coherent_inductive.run h .initial
  have hstep : ∀ {fs : List Event} {s : AlarmTeardown} {e : Event} {t : AlarmTeardown},
      Closing c.server.alarmMap.nodes fs s ∧ Turned fs s → machine.admits s e →
      machine.step s e = .ok t → Closing c.server.alarmMap.nodes (fs ++ [e]) t ∧ Turned (fs ++ [e]) t := by
    rintro fs s e t ⟨hclosing,hturned⟩ he ht
    obtain ⟨u,hu,hclosing'⟩ := hclosing.step he
    obtain rfl : u = t := Except.ok.inj (hu.symm.trans ht)
    exact ⟨hclosing',hturned.step he ht⟩
  obtain ⟨hclosing,hturned⟩ := hs.history
    (P:=fun fs s => Closing c.server.alarmMap.nodes fs s ∧ Turned fs s) hstep (p:=[])
    ⟨.initial hc hidle,rfl⟩
  exact hclosing.tornDown (nodup_of_coherent hc hidle) hturned

/-- Three alarms; the first one that is told destroys the second and itself, and the third
is cancelled after the server is gone. -/
theorem alarms_outlive_server_three : ∃ c s fs, AlarmConfig.machine.Run .init
      [.create 1,.create 2,.create 3,.set 1 500,.set 2 700,.set 3 900] c ∧ c.control = .idle ∧
    machine.Run (start c) fs s ∧ TornDown c fs s ∧ s.control = .freed ∧ s.told = [1,3] := by
  obtain ⟨c,hc,hrest⟩ : ∃ c, AlarmConfig.machine.Run .init
      [.create 1,.create 2,.create 3,.set 1 500,.set 2 700,.set 3 900] c ∧
    (decide (c.control = .idle) && (machine.exec (start c) [.onShutdown,.destroy 2,.destroy 1,
      .returns,.onShutdown,.returns,.onShutdown,.cancel 3,.destroy 3]).any fun s =>
        decide (s.control = .freed ∧ s.told = [1,3])) = true :=
    AlarmConfig.machine.exists_run_of_exec_any (by decide +kernel)
  obtain ⟨hidle,hs⟩ := (Bool.and_eq_true _ _).mp hrest
  obtain ⟨s,hs,hend⟩ := machine.exists_run_of_exec_any hs
  exact ⟨c,s,_,hc,of_decide_eq_true hidle,hs,
    alarms_outlive_server hc (of_decide_eq_true hidle) hs,of_decide_eq_true hend⟩

end AlarmTeardown
end CmuQuic
