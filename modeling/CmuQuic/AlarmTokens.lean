import CmuQuic.Alarms

/-! The five places that record whether an alarm is registered (its deadline,
`registered_`, `token_`, `all_alarms_` and `alarm_map_`) agree along every run. -/
namespace CmuQuic
namespace AlarmConfig

/-- The records agree, and the only entry without a registration is the one whose
`OnAlarm` is running. -/
structure Coherent (c : AlarmConfig) : Prop where
  alive : ∀ n ∈ c.server.alarmMap.nodes, ∃ x, c.alarms n.val = some x
  known : ∀ a ∈ c.server.allAlarms, ∃ x, c.alarms a = some x
  armed : ∀ {a x}, c.alarms a = some x → (x.deadline ≠ 0 ↔ x.registered = true) ∧
    (x.registered = true ↔ a ∈ c.server.allAlarms)
  entry : ∀ {a x}, c.alarms a = some x → x.registered = true →
    ⟨x.token,x.deadline,a⟩ ∈ c.server.alarmMap.nodes
  only : ∀ {n x}, n ∈ c.server.alarmMap.nodes → c.alarms n.val = some x →
    (x.registered = true ∧ x.token = n.token) ∨ ∃ now, c.control = .onAlarm now n.token n.val
  firing : ∀ {now i a}, c.control = .onAlarm now i a → ∃ x k, c.alarms a = some x ∧
    ⟨i,k,a⟩ ∈ c.server.alarmMap.nodes ∧ k ≤ now ∧ (x.registered = true → x.token ≠ i)
  iterator : ∀ {now i}, c.control = .loop now (some i) →
    ∃ n ∈ c.server.alarmMap.nodes, n.token = i
  skip : c.server.alarmsReregisteredAndShouldBeSkipped = ∅

def armedAt (c : AlarmConfig) (a : AlarmCB) (deadline : ℤ) : AlarmConfig :=
  { c with
    server := { c.server with
      alarmMap := c.server.alarmMap.insert deadline a
      allAlarms := insert a c.server.allAlarms }
    alarms := Function.update c.alarms a (some ⟨deadline,true,c.server.alarmMap.nextToken⟩) }

def disarmed (c : AlarmConfig) (a : AlarmCB) (x : QuicEpollAlarm) : AlarmConfig :=
  { c with
    server := { c.server with
      alarmMap := c.server.alarmMap.erase x.token
      allAlarms := c.server.allAlarms.erase a }
    alarms := Function.update c.alarms a (some ⟨0,false,x.token⟩) }

def fired (c : AlarmConfig) (now : ℤ) (i : ℕ) (a : AlarmCB) (x : QuicEpollAlarm) : AlarmConfig :=
  { c with
    server := c.server.beginAlarm a
    alarms := Function.update c.alarms a (some ⟨0,false,x.token⟩)
    control := .onAlarm now i a }

/-- The state at the head of the loop after the entry `i` was erased. -/
def erased (c : AlarmConfig) (now : ℤ) (i : ℕ) : AlarmConfig :=
  { c with
    server := { c.server with alarmMap := c.server.alarmMap.erase i }
    control := .loop now (c.server.alarmMap.next i) }

structure CoherentAt (c : AlarmConfig) (a : AlarmCB) : Prop where
  alive : ∀ {n}, n ∈ c.server.alarmMap.nodes → n.val = a → ∃ x, c.alarms a = some x
  known : a ∈ c.server.allAlarms → ∃ x, c.alarms a = some x
  armed : ∀ {x}, c.alarms a = some x → (x.deadline ≠ 0 ↔ x.registered = true) ∧
    (x.registered = true ↔ a ∈ c.server.allAlarms)
  entry : ∀ {x}, c.alarms a = some x → x.registered = true →
    ⟨x.token,x.deadline,a⟩ ∈ c.server.alarmMap.nodes
  only : ∀ {n x}, n ∈ c.server.alarmMap.nodes → n.val = a → c.alarms a = some x →
    (x.registered = true ∧ x.token = n.token) ∨ ∃ now, c.control = .onAlarm now n.token a
  firing : ∀ {now i}, c.control = .onAlarm now i a → ∃ x k, c.alarms a = some x ∧
    ⟨i,k,a⟩ ∈ c.server.alarmMap.nodes ∧ k ≤ now ∧ (x.registered = true → x.token ≠ i)

structure SameAt (c c' : AlarmConfig) (b : AlarmCB) : Prop where
  alarms : c'.alarms b = c.alarms b
  nodes : ∀ n : Node ℤ AlarmCB, n.val = b →
    (n ∈ c'.server.alarmMap.nodes ↔ n ∈ c.server.alarmMap.nodes)
  allAlarms : b ∈ c'.server.allAlarms ↔ b ∈ c.server.allAlarms
  control : ∀ now i, c'.control = .onAlarm now i b ↔ c.control = .onAlarm now i b

theorem CoherentAt.congr {c c' : AlarmConfig} {b : AlarmCB} (h : CoherentAt c b)
    (hs : SameAt c c' b) : CoherentAt c' b where
  alive hn hv := by
    rw [hs.alarms]
    exact h.alive ((hs.nodes _ hv).mp hn) hv
  known hb := by
    rw [hs.alarms]
    exact h.known (hs.allAlarms.mp hb)
  armed hx := by
    rw [hs.alarms] at hx
    rw [hs.allAlarms]
    exact h.armed hx
  entry hx hr := by
    rw [hs.alarms] at hx
    exact (hs.nodes _ rfl).mpr (h.entry hx hr)
  only hn hv hx := by
    rw [hs.alarms] at hx
    refine (h.only ((hs.nodes _ hv).mp hn) hv hx).imp_right ?_
    rintro ⟨now,hnow⟩
    exact ⟨now,(hs.control _ _).mpr hnow⟩
  firing hf := by
    obtain ⟨x,k,hx,hk,hle,htok⟩ := h.firing ((hs.control _ _).mp hf)
    exact ⟨x,k,hs.alarms.trans hx,(hs.nodes _ rfl).mpr hk,hle,htok⟩

namespace Coherent

variable {c c' : AlarmConfig} {a : AlarmCB} {x : QuicEpollAlarm}

theorem coherentAt (hc : Coherent c) (a : AlarmCB) : CoherentAt c a where
  alive hn hv := hv ▸ hc.alive _ hn
  known := hc.known a
  armed := hc.armed
  entry := hc.entry
  only hn hv hx := by
    subst hv
    exact hc.only hn hx
  firing := hc.firing

theorem change (hc : Coherent c) (hother : ∀ b, b ≠ a → SameAt c c' b) (hself : CoherentAt c' a)
    (hiterator : ∀ {now i}, c'.control = .loop now (some i) →
      ∃ n ∈ c'.server.alarmMap.nodes, n.token = i)
    (hskip : c'.server.alarmsReregisteredAndShouldBeSkipped = ∅) : Coherent c' := by
  have hall : ∀ b, CoherentAt c' b := by
    intro b
    by_cases hb : b = a
    · exact hb ▸ hself
    · exact (hc.coherentAt b).congr (hother b hb)
  exact ⟨fun n hn => (hall n.val).alive hn rfl,fun b => (hall b).known,fun hb => (hall _).armed hb,
    fun hb => (hall _).entry hb,fun hn => (hall _).only hn rfl,fun hf => (hall _).firing hf,hiterator,
    hskip⟩

theorem initial : Coherent init where
  alive n hn := by simp [init,AlarmServer.init,Multimap.empty] at hn
  known a ha := by simp [init,AlarmServer.init] at ha
  armed h := by simp [init] at h
  entry h := by simp [init] at h
  only hn := by simp [init,AlarmServer.init,Multimap.empty] at hn
  firing h := by simp [init] at h
  iterator h := by simp [init] at h
  skip := rfl

theorem unregistered_of_deadline (hc : Coherent c) (ha : c.alarms a = some x)
    (hd : x.deadline = 0) : x.registered = false ∧ a ∉ c.server.allAlarms := by
  obtain ⟨h₁,h₂⟩ := hc.armed ha
  have hr : x.registered = false := by
    rw [← Bool.not_eq_true,← h₁]
    simpa using hd
  exact ⟨hr,fun hm => by simp [h₂.mpr hm] at hr⟩

theorem set_ok (hc : Coherent c) (ha : c.alarms a = some x) (hd : x.deadline = 0) {d : ℤ}
    (hne : d ≠ 0) : c.set a d = .ok (c.armedAt a d) := by
  obtain ⟨hr,hm⟩ := hc.unregistered_of_deadline ha hd
  simp [set,ha,write,setImpl,hne,AlarmServer.registerAlarm,AlarmServer.containsAlarm,hm,hr,armedAt]

theorem no_iterator (hl : c.control.atLoop = false) {now : ℤ} {i : ℕ}
    (hi : c.control = .loop now (some i)) : ∃ n ∈ c'.server.alarmMap.nodes, n.token = i := by
  simp [hi,AlarmControl.atLoop] at hl

theorem armedAt (hc : Coherent c) (hl : c.control.atLoop = false) (ha : c.alarms a = some x)
    (hd : x.deadline = 0) {d : ℤ} (hne : d ≠ 0) : Coherent (c.armedAt a d) := by
  obtain ⟨hr,hm⟩ := hc.unregistered_of_deadline ha hd
  have hnew : (c.armedAt a d).alarms a = some ⟨d,true,c.server.alarmMap.nextToken⟩ :=
    Function.update_self _ _ _
  refine hc.change (a:=a) (fun b hb => ?_) ?_ (fun hi => no_iterator hl hi) hc.skip
  · refine ⟨Function.update_of_ne hb _ _,fun n hn => ?_,by simp [AlarmConfig.armedAt,hb],fun _ _ => Iff.rfl⟩
    refine Multimap.mem_insert.trans (or_iff_right ?_)
    rintro rfl
    exact hb hn.symm
  · refine ⟨fun _ _ => ⟨_,hnew⟩,fun _ => ⟨_,hnew⟩,fun hy => ?_,fun hy _ => ?_,fun hn hv hy => ?_,
      fun hf => ?_⟩
    · rw [hnew] at hy
      cases hy
      simp [AlarmConfig.armedAt,hne]
    · rw [hnew] at hy
      cases hy
      exact Multimap.mem_insert.mpr (Or.inl rfl)
    · rw [hnew] at hy
      cases hy
      rcases Multimap.mem_insert.mp hn with rfl | hn
      · exact Or.inl ⟨rfl,rfl⟩
      · -- an old entry of an alarm without a deadline is the one being fired
        refine Or.inr ((hc.coherentAt a).only hn hv ha |>.resolve_left ?_)
        simp [hr]
    · obtain ⟨y,k,_,hk,hle,_⟩ := hc.firing hf
      exact ⟨_,k,hnew,Multimap.mem_insert.mpr (Or.inr hk),hle,
        fun _ => (c.server.alarmMap.fresh _ hk).ne'⟩

theorem disarmed (hc : Coherent c) (hl : c.control.atLoop = false) (ha : c.alarms a = some x)
    (hr : x.registered = true) : Coherent (c.disarmed a x) := by
  have hentry := hc.entry ha hr
  have hnew : (c.disarmed a x).alarms a = some ⟨0,false,x.token⟩ := Function.update_self _ _ _
  refine hc.change (a:=a) (fun b hb => ?_) ?_ (fun hi => no_iterator hl hi) hc.skip
  · refine ⟨Function.update_of_ne hb _ _,fun n hn => ?_,by simp [AlarmConfig.disarmed,hb],fun _ _ => Iff.rfl⟩
    refine Multimap.mem_erase.trans (and_iff_left_of_imp fun hmem he => ?_)
    rw [Multimap.eq_of_token hmem hentry he] at hn
    exact hb hn.symm
  · refine ⟨fun _ _ => ⟨_,hnew⟩,fun _ => ⟨_,hnew⟩,fun hy => ?_,fun hy hreg => ?_,fun hn hv hy => ?_,
      fun hf => ?_⟩
    · rw [hnew] at hy
      cases hy
      simp [AlarmConfig.disarmed]
    · rw [hnew] at hy
      cases hy
      cases hreg
    · obtain ⟨hn,hne⟩ := Multimap.mem_erase.mp hn
      exact Or.inr ((hc.coherentAt a).only hn hv ha |>.resolve_left fun h => hne h.2.symm)
    · obtain ⟨y,k,hy,hk,hle,htok⟩ := hc.firing hf
      rw [ha] at hy
      cases hy
      exact ⟨_,k,hnew,Multimap.mem_erase.mpr ⟨hk,(htok hr).symm⟩,hle,by simp⟩

theorem unregisterAlarm_ok (hc : Coherent c) (ha : c.alarms a = some x)
    (hr : x.registered = true) : c.server.unregisterAlarm x.token =
      .ok ((c.disarmed a x).server,a) := by
  have hf := Multimap.find_eq_some.mpr ⟨hc.entry ha hr,rfl⟩
  dsimp only at hf
  simp [AlarmServer.unregisterAlarm,hf,AlarmConfig.disarmed]

theorem cancel_ok (hc : Coherent c) (hl : c.control.atLoop = false) (ha : c.alarms a = some x) :
    ∃ c', c.cancel a = .ok c' ∧ Coherent c' ∧
      c' = if x.registered = true then c.disarmed a x else c := by
  cases hr : x.registered with
  | true =>
    refine ⟨c.disarmed a x,?_,hc.disarmed hl ha hr,by simp⟩
    simp [cancel,ha,write,cancelImpl,unregisterIfRegistered,hr,hc.unregisterAlarm_ok ha hr,
      AlarmConfig.disarmed]
  | false =>
    have hd : x.deadline = 0 := by
      by_contra hd
      simp [(hc.armed ha).1.mp hd] at hr
    have hself : c.write a { x with deadline := 0 } = c := by
      have hx : { x with deadline := 0 } = x := by cases x; simp_all
      rw [hx,write,← ha,Function.update_eq_self]
    refine ⟨c,?_,hc,by simp⟩
    simp only [cancel,ha]
    rw [hself]
    simp [cancelImpl,unregisterIfRegistered,ha,hd,hr]

theorem removed (hc : Coherent c) (ha : c.alarms a = some x) (hr : x.registered = false)
    (hf : c.control.firing ≠ some a) :
    Coherent { c with alarms := Function.update c.alarms a none } := by
  have hidle : ∀ now i, c.control ≠ .onAlarm now i a := fun now i h =>
    hf (by simp [h,AlarmControl.firing])
  have hgone : ∀ {y}, Function.update c.alarms a none a ≠ some y := by simp
  refine hc.change (a:=a) (fun b hb => ?_) ?_ hc.iterator hc.skip
  · exact ⟨Function.update_of_ne hb _ _,fun _ _ => Iff.rfl,Iff.rfl,fun _ _ => Iff.rfl⟩
  · refine ⟨fun hn hv => ?_,fun hm => ?_,fun hy => absurd hy hgone,fun hy => absurd hy hgone,
      fun _ _ hy => absurd hy hgone,fun h => absurd h (hidle _ _)⟩
    · rcases (hc.coherentAt a).only hn hv ha with ⟨h₁,_⟩ | ⟨now,h₁⟩
      · simp [hr] at h₁
      · exact absurd h₁ (hidle now _)
    · simp [(hc.armed ha).2.mpr hm] at hr

theorem created (hc : Coherent c) (hl : c.control.atLoop = false) (ha : c.alarms a = none) :
    Coherent (c.write a .created) := by
  have hnone : ∀ {y}, c.alarms a ≠ some y := by simp [ha]
  have hnew : (c.write a .created).alarms a = some .created := Function.update_self _ _ _
  have hnot : a ∉ c.server.allAlarms := fun hm => (hc.known a hm).elim fun _ hy => hnone hy
  refine hc.change (a:=a) (fun b hb => ?_) ?_ (fun hi => no_iterator hl hi) hc.skip
  · exact ⟨Function.update_of_ne hb _ _,fun _ _ => Iff.rfl,Iff.rfl,fun _ _ => Iff.rfl⟩
  · refine ⟨fun _ _ => ⟨_,hnew⟩,fun _ => ⟨_,hnew⟩,fun hy => ?_,fun hy hreg => ?_,fun hn hv _ => ?_,
      fun hf => ?_⟩
    · rw [hnew] at hy
      cases hy
      simp [QuicEpollAlarm.created,write,hnot]
    · rw [hnew] at hy
      cases hy
      cases hreg
    · obtain ⟨y,hy⟩ := (hc.coherentAt a).alive hn hv
      exact absurd hy hnone
    · obtain ⟨y,_,hy,_⟩ := hc.firing hf
      exact absurd hy hnone

theorem fired (hc : Coherent c) {now : ℤ} {n : Node ℤ AlarmCB}
    (hl : c.control = .loop now (some n.token)) (hn : n ∈ c.server.alarmMap.nodes)
    (hk : n.key ≤ now) (ha : c.alarms n.val = some x) :
    Coherent (c.fired now n.token n.val x) ∧ x.registered = true ∧ x.token = n.token := by
  have hx : x.registered = true ∧ x.token = n.token := by
    rcases hc.only hn ha with h | ⟨t,h⟩
    · exact h
    · simp [hl] at h
  have hnew : (c.fired now n.token n.val x).alarms n.val = some ⟨0,false,x.token⟩ :=
    Function.update_self _ _ _
  refine ⟨hc.change (a:=n.val) (fun b hb => ?_) ?_ (fun hi => by cases hi) hc.skip,hx⟩
  · refine ⟨Function.update_of_ne hb _ _,fun _ _ => Iff.rfl,?_,fun now' i => ?_⟩
    · simp [AlarmConfig.fired,AlarmServer.beginAlarm,hb]
    · simp [AlarmConfig.fired,hl,Ne.symm hb]
  · refine ⟨fun _ _ => ⟨_,hnew⟩,fun _ => ⟨_,hnew⟩,fun hy => ?_,fun hy hreg => ?_,fun hm hv _ => ?_,
      fun hf => ?_⟩
    · rw [hnew] at hy
      cases hy
      simp [AlarmConfig.fired,AlarmServer.beginAlarm]
    · rw [hnew] at hy
      cases hy
      cases hreg
    · rcases (hc.coherentAt n.val).only hm hv ha with ⟨_,h₁⟩ | ⟨t,h₁⟩
      · refine Or.inr ⟨now,?_⟩
        rw [← h₁,hx.2]
        rfl
      · simp [hl] at h₁
    · cases hf
      exact ⟨_,n.key,hnew,hn,hk,by simp⟩

theorem erased (hc : Coherent c) {now : ℤ} {i : ℕ} (hf : c.control = .onAlarm now i a) :
    Coherent (c.erased now i) := by
  obtain ⟨x,k,ha,hk,_,htok⟩ := hc.firing hf
  constructor
  · intro n hn
    exact hc.alive n (Multimap.mem_erase.mp hn).1
  · exact hc.known
  · exact hc.armed
  · intro b y hb hy
    refine Multimap.mem_erase.mpr ⟨hc.entry hb hy,fun he => ?_⟩
    have hnode := Multimap.eq_of_token (hc.entry hb hy) hk he
    have hba : b = a := congrArg Node.val hnode
    subst hba
    rw [show c.alarms b = some y from hb] at ha
    cases ha
    exact htok hy he
  · intro n y hn hy
    obtain ⟨hn,hne⟩ := Multimap.mem_erase.mp hn
    rcases hc.only hn hy with h₁ | ⟨t,h₁⟩
    · exact Or.inl h₁
    · rw [hf] at h₁
      cases h₁
      exact absurd rfl hne
  · intro now' j b hb
    cases hb
  · intro now' j hj
    cases hj' : c.server.alarmMap.next i with
    | none => simp [AlarmConfig.erased,hj'] at hj
    | some u =>
      have hju : u = j := by simpa [AlarmConfig.erased,hj'] using (AlarmControl.loop.inj hj).2
      exact hju ▸ Multimap.next_mem hk hj'
  · exact hc.skip

theorem eraseFired_ok (hc : Coherent c) {now : ℤ} {i : ℕ} (hf : c.control = .onAlarm now i a) :
    c.server.eraseFired i = .ok ((c.erased now i).server,c.server.alarmMap.next i) := by
  obtain ⟨x,k,_,hk,_⟩ := hc.firing hf
  have hfind := Multimap.find_eq_some.mpr ⟨hk,rfl⟩
  dsimp only at hfind
  simp [AlarmServer.eraseFired,hfind,AlarmConfig.erased]

end Coherent

/-- Everything a step of the alarms can be. -/
inductive Stepped (c : AlarmConfig) : Event → AlarmConfig → Prop
  | create (a) : c.alarms a = none → Stepped c (.create a) (c.write a .created)
  | set (a x d) : c.alarms a = some x → x.deadline = 0 → d ≠ 0 →
    Stepped c (.set a d) (c.armedAt a d)
  | cancel (a x) : c.alarms a = some x → x.registered = true →
    Stepped c (.cancel a) (c.disarmed a x)
  | cancelIdle (a x) : c.alarms a = some x → x.registered = false → Stepped c (.cancel a) c
  | destroy (a x) : c.alarms a = some x → x.registered = true → c.control.firing ≠ some a →
    Stepped c (.destroy a)
      { c.disarmed a x with alarms := Function.update (c.disarmed a x).alarms a none }
  | destroyIdle (a x) : c.alarms a = some x → x.registered = false → c.control.firing ≠ some a →
    Stepped c (.destroy a) { c with alarms := Function.update c.alarms a none }
  | begins (now) : c.control = .idle → now ≠ 0 → Stepped c (.callAndReregisterAlarmEvents now)
      { c with control := .loop now c.server.alarmMap.first }
  | ends (now i) : c.control = .loop now i →
    (∀ t, i = some t → ∃ n ∈ c.server.alarmMap.nodes, n.token = t ∧ now < n.key) →
    Stepped c .iterate { c with control := .idle }
  | fire (now n x) : c.control = .loop now (some n.token) → n ∈ c.server.alarmMap.nodes →
    n.key ≤ now → c.alarms n.val = some x → x.registered = true → x.token = n.token →
    Stepped c .iterate (c.fired now n.token n.val x)
  | returns (now i a x d) : c.control = .onAlarm now i a → c.alarms a = some x →
    x.deadline ≠ 0 ∨ d = 0 → Stepped c (.delegateReturns d) (c.erased now i)
  | rearms (now i a x d) : c.control = .onAlarm now i a → c.alarms a = some x →
    x.deadline = 0 → d ≠ 0 → Stepped c (.delegateReturns d) ((c.armedAt a d).erased now i)

/-- The entries that the loop has still ahead of it, the one it is at included. -/
def ahead (c : AlarmConfig) : List (Node ℤ AlarmCB) :=
  match c.control with
  | .idle => []
  | .loop _ i => c.server.alarmMap.ahead i
  | .onAlarm _ i _ => c.server.alarmMap.ahead (some i)

def Event.subject : Event → Option AlarmCB
  | .create a => some a
  | .set a _ => some a
  | .cancel a => some a
  | .destroy a => some a
  | _ => none

section Other

variable {c : AlarmConfig} {a b : AlarmCB} {x y : QuicEpollAlarm}

theorem Stepped.control_eq {c' : AlarmConfig} {e : Event} (hs : Stepped c e c')
    (he : e.subject ≠ none) : c'.control = c.control := by
  cases hs with
  | create => rfl
  | set => rfl
  | cancel => rfl
  | cancelIdle => rfl
  | destroy => rfl
  | destroyIdle => rfl
  | _ => exact absurd rfl he

theorem token_ne (hc : Coherent c) (hb : c.alarms b = some x) (hr : x.registered = true)
    {n : Node ℤ AlarmCB} (hn : n ∈ c.server.alarmMap.nodes) (hne : n.val ≠ b) :
    x.token ≠ n.token := fun he =>
  hne (by rw [← Multimap.eq_of_token (hc.entry hb hr) hn he])

theorem mem_ahead_armedAt (hc : Coherent c) (hl : c.control.atLoop = false) (d : ℤ)
    {n : Node ℤ AlarmCB} (hn : n ∈ c.ahead) : n ∈ (c.armedAt a d).ahead := by
  cases hctl : c.control with
  | idle => simp [ahead,hctl] at hn
  | loop => simp [hctl,AlarmControl.atLoop] at hl
  | onAlarm now i f =>
    obtain ⟨_,k,_,hk,_⟩ := hc.firing hctl
    simp only [ahead,hctl] at hn
    simp only [ahead,armedAt,hctl]
    rw [Multimap.ahead_insert (x:=⟨i,k,f⟩) hk]
    split_ifs
    · exact Node.mem_insertAtUpperBound.mpr (Or.inr hn)
    · exact hn

theorem mem_ahead_disarmed (hc : Coherent c) (hl : c.control.atLoop = false)
    (ha : c.alarms a = some y) (hy : y.registered = true) {n : Node ℤ AlarmCB} (hn : n ∈ c.ahead)
    (hne : y.token ≠ n.token) : n ∈ (c.disarmed a y).ahead := by
  cases hctl : c.control with
  | idle => simp [ahead,hctl] at hn
  | loop => simp [hctl,AlarmControl.atLoop] at hl
  | onAlarm now i f =>
    obtain ⟨z,k,hz,hk,_,htok⟩ := hc.firing hctl
    have hiy : i ≠ y.token := by
      rintro rfl
      have hnode := Multimap.eq_of_token (hc.entry ha hy) hk rfl
      have haf : a = f := congrArg Node.val hnode
      subst haf
      rw [ha] at hz
      cases hz
      exact htok hy rfl
    simp only [ahead,hctl] at hn
    simp only [ahead,disarmed,hctl]
    rw [Multimap.ahead_erase hiy]
    exact List.mem_filter.mpr ⟨hn,by simpa using hne.symm⟩

theorem mem_ahead_erased (hc : Coherent c) {now : ℤ} {i : ℕ} (hf : c.control = .onAlarm now i a)
    {n : Node ℤ AlarmCB} (hn : n ∈ c.ahead) (hne : n.token ≠ i) : n ∈ (c.erased now i).ahead := by
  obtain ⟨_,k,_,hk,_⟩ := hc.firing hf
  obtain ⟨rest,hrest⟩ := Multimap.ahead_cons hk
  simp only [ahead,hf] at hn
  simp only [ahead,erased]
  rw [Multimap.ahead_erase_next hrest]
  rw [hrest] at hn
  refine (List.mem_cons.mp hn).resolve_left ?_
  rintro rfl
  exact hne rfl

/-- A step that is not about an alarm leaves its registration alone, and its entry
ahead of the loop if it was. -/
theorem Stepped.other {c' : AlarmConfig} {e : Event} (hs : Stepped c e c') (hc : Coherent c)
    (he : machine.admits c e) (hb : c.alarms b = some x) (hr : x.registered = true)
    (hsub : e.subject ≠ some b) (hf : c.control.firing ≠ some b)
    (hf' : c'.control.firing ≠ some b) :
    c'.alarms b = some x ∧ (⟨x.token,x.deadline,b⟩ ∈ c.ahead → c'.control ≠ .idle →
      ⟨x.token,x.deadline,b⟩ ∈ c'.ahead) := by
  have hentry := hc.entry hb hr
  cases hs with
  | create a ha =>
    have hba : b ≠ a := fun h => hsub (by rw [h]; rfl)
    exact ⟨by simpa [write,hba] using hb,fun h _ => h⟩
  | set a y d =>
    have hba : b ≠ a := fun h => hsub (by rw [h]; rfl)
    exact ⟨by simpa [armedAt,hba] using hb,fun h _ => mem_ahead_armedAt hc he.1 d h⟩
  | cancel a y ha hy =>
    have hba : b ≠ a := fun h => hsub (by rw [h]; rfl)
    exact ⟨by simpa [disarmed,hba] using hb,fun h _ => mem_ahead_disarmed hc he.1 ha hy h
      (token_ne hc ha hy hentry hba)⟩
  | cancelIdle => exact ⟨hb,fun h _ => h⟩
  | destroy a y ha hy =>
    have hba : b ≠ a := fun h => hsub (by rw [h]; rfl)
    exact ⟨by simpa [disarmed,hba] using hb,fun h _ => mem_ahead_disarmed hc he.1 ha hy h
      (token_ne hc ha hy hentry hba)⟩
  | destroyIdle a y =>
    have hba : b ≠ a := fun h => hsub (by rw [h]; rfl)
    exact ⟨by simpa [hba] using hb,fun h _ => h⟩
  | begins now hi => exact ⟨hb,fun h => by simp [ahead,hi] at h⟩
  | ends => exact ⟨hb,fun _ h => absurd rfl h⟩
  | fire now n y hl hn =>
    have hbn : b ≠ n.val := fun h => hf' (by rw [h]; rfl)
    refine ⟨by simpa [fired,hbn] using hb,fun h _ => ?_⟩
    simpa [ahead,fired,hl,AlarmServer.beginAlarm] using h
  | returns now i a y d hctl =>
    have hba : b ≠ a := fun h => hf (by rw [hctl,h]; rfl)
    obtain ⟨_,k,_,hk,_⟩ := hc.firing hctl
    exact ⟨hb,fun h _ => mem_ahead_erased hc hctl h (token_ne hc hb hr hk hba.symm)⟩
  | rearms now i a y d hctl ha hy hd =>
    have hba : b ≠ a := fun h => hf (by rw [hctl,h]; rfl)
    have hl : c.control.atLoop = false := by simp [hctl,AlarmControl.atLoop]
    obtain ⟨_,k,_,hk,_⟩ := hc.firing hctl
    have hca := hc.armedAt hl ha hy hd
    exact ⟨by simpa [erased,armedAt,hba] using hb,fun h _ => mem_ahead_erased hca (a:=a) hctl
      (mem_ahead_armedAt hc hl d h) (token_ne hc hb hr hk hba.symm)⟩

end Other

theorem Coherent.destroy {c : AlarmConfig} {a : AlarmCB} {x : QuicEpollAlarm} (hc : Coherent c)
    (hl : c.control.atLoop = false) (ha : c.alarms a = some x) (hf : c.control.firing ≠ some a) :
    ∃ c', c.destroy a = .ok c' ∧ Stepped c (.destroy a) c' ∧ Coherent c' := by
  cases hr : x.registered with
  | true =>
    have h₁ := (hc.disarmed hl ha hr).removed (a:=a) (x:=⟨0,false,x.token⟩)
      (Function.update_self _ _ _) rfl hf
    refine ⟨_,?_,.destroy a x ha hr hf,h₁⟩
    simp [AlarmConfig.destroy,unregisterIfRegistered,ha,hr,hc.unregisterAlarm_ok ha hr,write,
      AlarmConfig.disarmed]
  | false =>
    exact ⟨_,by simp [AlarmConfig.destroy,unregisterIfRegistered,ha,hr],.destroyIdle a x ha hr hf,
      hc.removed ha hr hf⟩

theorem Coherent.iterate {c : AlarmConfig} (hc : Coherent c) (hl : c.control.atLoop = true) :
    ∃ c', c.step .iterate = .ok c' ∧ Stepped c .iterate c' ∧ Coherent c' := by
  cases hctl : c.control with
  | idle => simp [hctl,AlarmControl.atLoop] at hl
  | onAlarm => simp [hctl,AlarmControl.atLoop] at hl
  | loop now i =>
    have hend : { c with server := c.server.endAlarms, control := .idle } =
        ({ c with control := .idle } : AlarmConfig) := by
      have hs : c.server.endAlarms = c.server := by
        rw [AlarmServer.endAlarms,← hc.skip]
      rw [hs]
    have hidle : Coherent { c with control := .idle } := by
      refine ⟨hc.alive,hc.known,hc.armed,hc.entry,?_,?_,?_,hc.skip⟩
      · intro n x hn hx
        rcases hc.only hn hx with h | ⟨t,h⟩
        · exact Or.inl h
        · simp [hctl] at h
      · intro t i a h
        cases h
      · intro t i h
        cases h
    cases i with
    | none =>
      refine ⟨_,?_,.ends now none hctl (by simp),hidle⟩
      rw [← hend]
      simp [AlarmConfig.step,hctl,AlarmServer.nextAlarm]
    | some t =>
      obtain ⟨n,hn,rfl⟩ := hc.iterator hctl
      have hfind := Multimap.find_eq_some.mpr ⟨hn,rfl⟩
      by_cases hk : n.key > now
      · refine ⟨_,?_,.ends now _ hctl (fun t ht => ?_),hidle⟩
        · rw [← hend]
          simp [AlarmConfig.step,hctl,AlarmServer.nextAlarm,hfind,hk]
        · cases ht
          exact ⟨n,hn,rfl,hk⟩
      · have hle : n.key ≤ now := not_lt.mp hk
        obtain ⟨x,hx⟩ := hc.alive n hn
        obtain ⟨hcf,hr,htok⟩ := hc.fired hctl hn hle hx
        have hd : x.deadline ≠ 0 := (hc.armed hx).1.mpr hr
        refine ⟨_,?_,.fire now n x hctl hn hle hx hr htok,hcf⟩
        simp [AlarmConfig.step,hctl,AlarmServer.nextAlarm,hfind,hk,hc.skip,onAlarm,hx,hd,write,
          AlarmConfig.fired]

theorem Coherent.delegateReturns {c : AlarmConfig} (hc : Coherent c) {now : ℤ} {i : ℕ}
    {a : AlarmCB} (hf : c.control = .onAlarm now i a) (d : ℤ) :
    ∃ c', c.step (.delegateReturns d) = .ok c' ∧ Stepped c (.delegateReturns d) c' ∧
      Coherent c' := by
  obtain ⟨x,_,hx,_⟩ := hc.firing hf
  have hl : c.control.atLoop = false := by simp [hf,AlarmControl.atLoop]
  by_cases hd : x.deadline = 0 ∧ d ≠ 0
  · have hca := hc.armedAt hl hx hd.1 hd.2
    refine ⟨_,?_,.rearms now i a x d hf hx hd.1 hd.2,hca.erased hf⟩
    have herase := hca.eraseFired_ok (i:=i) (a:=a) hf
    simp only [AlarmConfig.step,hf,AlarmConfig.delegateReturns,hx]
    rw [if_pos hd,hc.set_ok hx hd.1 hd.2,except_ok_bind,herase]
    rfl
  · refine ⟨_,?_,.returns now i a x d hf hx (by tauto),hc.erased hf⟩
    simp only [AlarmConfig.step,hf,AlarmConfig.delegateReturns,hx]
    rw [if_neg hd,except_ok_bind,hc.eraseFired_ok hf]
    rfl

theorem Coherent.step {c : AlarmConfig} (hc : Coherent c) {e : Event} (he : machine.admits c e) :
    ∃ c', machine.step c e = .ok c' ∧ Stepped c e c' ∧ Coherent c' := by
  cases e with
  | create a =>
    obtain ⟨hl,ha⟩ := he
    have ha : c.alarms a = none := by simpa [isAlive] using ha
    exact ⟨_,rfl,.create a ha,hc.created hl ha⟩
  | set a d =>
    obtain ⟨hl,ha,hd⟩ := he
    cases hx : c.alarms a with
    | none => simp [hasNoDeadline,hx] at ha
    | some x =>
      have hx₀ : x.deadline = 0 := by simpa [hasNoDeadline,hx] using ha
      exact ⟨_,hc.set_ok hx hx₀ hd,.set a x d hx hx₀ hd,hc.armedAt hl hx hx₀ hd⟩
  | cancel a =>
    obtain ⟨hl,ha⟩ := he
    obtain ⟨x,hx⟩ := Option.isSome_iff_exists.mp ha
    obtain ⟨c',hc',hcoh,heq⟩ := hc.cancel_ok hl hx
    refine ⟨c',hc',?_,hcoh⟩
    rw [heq]
    split_ifs with hr
    · exact .cancel a x hx hr
    · exact .cancelIdle a x hx (by simpa using hr)
  | destroy a =>
    obtain ⟨hl,ha,hf⟩ := he
    obtain ⟨x,hx⟩ := Option.isSome_iff_exists.mp ha
    exact hc.destroy hl hx hf
  | callAndReregisterAlarmEvents now =>
    obtain ⟨hi,hn⟩ := he
    refine ⟨_,by simp [machine,AlarmConfig.step,hn],.begins now hi hn,?_⟩
    refine ⟨hc.alive,hc.known,hc.armed,hc.entry,?_,?_,?_,hc.skip⟩
    · intro n x hm hx
      rcases hc.only hm hx with h | ⟨t,h⟩
      · exact Or.inl h
      · simp [hi] at h
    · intro t i a h
      cases h
    · intro t i h
      obtain ⟨_,h⟩ := AlarmControl.loop.inj h
      obtain ⟨n,hn,rfl⟩ := Option.map_eq_some_iff.mp h
      exact ⟨n,List.mem_of_mem_head? hn,rfl⟩
  | iterate => exact hc.iterate he
  | delegateReturns d =>
    cases hctl : c.control with
    | idle => simp [machine,admits,hctl,AlarmControl.firing] at he
    | loop => simp [machine,admits,hctl,AlarmControl.firing] at he
    | onAlarm now i a => exact hc.delegateReturns hctl d

theorem Coherent.of_step {c c' : AlarmConfig} (hc : Coherent c) {e : Event} (he : machine.admits c e)
    (h : machine.step c e = .ok c') : Stepped c e c' ∧ Coherent c' := by
  obtain ⟨c₁,h₁,hs,hc₁⟩ := hc.step he
  obtain rfl : c₁ = c' := Except.ok.inj (h₁.symm.trans h)
  exact ⟨hs,hc₁⟩

theorem coherent_inductive : machine.Inductive Coherent where
  keeps hc he :=
    let ⟨c',h₁,_,h₂⟩ := hc.step he
    ⟨c',h₁,h₂⟩

/-- What the tokens of the alarms are good for, alarm by alarm. Outside of its own
firing an alarm is recorded everywhere or nowhere. -/
structure TokensAgree (c : AlarmConfig) : Prop where
  settled : ∀ a x, c.alarms a = some x → c.control.firing ≠ some a →
    (x.deadline ≠ 0 ↔ x.registered = true) ∧
    (x.registered = true ↔ c.server.containsAlarm a = true) ∧
    (c.server.containsAlarm a = true ↔ ∃! n, n ∈ c.server.alarmMap.nodes ∧ n.val = a) ∧
    (x.registered = true → ⟨x.token,x.deadline,a⟩ ∈ c.server.alarmMap.nodes) ∧
    (x.registered = false → ∀ n ∈ c.server.alarmMap.nodes, n.val ≠ a)
  firing : ∀ now i a, c.control = .onAlarm now i a → ∃ x k, c.alarms a = some x ∧
    (x.deadline ≠ 0 ↔ x.registered = true) ∧
    (x.registered = true ↔ c.server.containsAlarm a = true) ∧
    ⟨i,k,a⟩ ∈ c.server.alarmMap.nodes ∧ k ≤ now ∧
    (x.registered = true → x.token ≠ i ∧ ⟨x.token,x.deadline,a⟩ ∈ c.server.alarmMap.nodes) ∧
    ∀ n ∈ c.server.alarmMap.nodes, n.val = a →
      n.token = i ∨ x.registered = true ∧ n.token = x.token

theorem Coherent.tokensAgree {c : AlarmConfig} (hc : Coherent c) : TokensAgree c where
  settled a x ha hf := by
    obtain ⟨h₁,h₂⟩ := hc.armed ha
    have honly : ∀ n ∈ c.server.alarmMap.nodes, n.val = a →
        x.registered = true ∧ x.token = n.token := by
      intro n hn hna
      rcases hc.only hn (hna ▸ ha) with h | ⟨t,h⟩
      · exact h
      · exact absurd (by simp [h,AlarmControl.firing,hna]) hf
    have hcontains : x.registered = true ↔ c.server.containsAlarm a = true := by
      simpa [AlarmServer.containsAlarm] using h₂
    refine ⟨h₁,hcontains,?_,hc.entry ha,?_⟩
    · rw [← hcontains]
      constructor
      · intro hr
        refine ⟨_,⟨hc.entry ha hr,rfl⟩,fun n ⟨hn,hna⟩ => ?_⟩
        exact Multimap.eq_of_token hn (hc.entry ha hr) (honly n hn hna).2.symm
      · rintro ⟨n,⟨hn,hna⟩,_⟩
        exact (honly n hn hna).1
    · intro hr n hn hna
      simp [(honly n hn hna).1] at hr
  firing now i a hf := by
    obtain ⟨x,k,ha,hk,hle,htok⟩ := hc.firing hf
    obtain ⟨h₁,h₂⟩ := hc.armed ha
    refine ⟨x,k,ha,h₁,by simpa [AlarmServer.containsAlarm] using h₂,hk,hle,
      fun hr => ⟨htok hr,hc.entry ha hr⟩,fun n hn hna => ?_⟩
    rcases hc.only hn (hna ▸ ha) with ⟨hr,h⟩ | ⟨t,h⟩
    · exact Or.inr ⟨hr,h.symm⟩
    · rw [hf] at h
      cases h
      exact Or.inl rfl

/-- Along every run the tokens of all alarms are coherent, and no operation on an
alarm uses an erased iterator or aborts. -/
theorem tokensAgree_of_run {es : List Event} {c : AlarmConfig} (h : machine.Run init es c) :
    TokensAgree c ∧ machine.Safe c :=
  have hc := coherent_inductive.run h .initial
  ⟨hc.tokensAgree,coherent_inductive.safe hc⟩

/-- An alarm sets itself, cancels itself and sets itself again while it fires, and
another alarm that is due is destroyed meanwhile. -/
theorem tokensAgree_of_rearming_run : ∃ c, machine.Run init
    [.create 1,.create 2,.set 1 10,.set 2 10,.callAndReregisterAlarmEvents 20,.iterate,
      .set 1 15,.cancel 1,.destroy 2,.set 1 30,.delegateReturns 40,.iterate] c ∧
    TokensAgree c ∧ machine.Safe c :=
  let ⟨c,hc⟩ := machine.exists_run_of_exec (by decide +kernel)
  ⟨c,hc,tokensAgree_of_run hc⟩

end AlarmConfig
end CmuQuic
