import CmuQuic.Alarms

/-! A whole call of `CallAndReregisterAlarmEvents`, for alarms that arm themselves
again while they fire. -/
namespace CmuQuic

/-- A call back into the server from inside an `OnAlarm`. -/
inductive AlarmOp
  | registerAlarm (timeoutTimeInUs : ℤ) (ac : AlarmCB)
  | unregisterAlarm (iteratorToken : ℕ)

def AlarmServer.perform (s : AlarmServer) : List AlarmOp → Except Abort AlarmServer
  | [] => .ok s
  | .registerAlarm t ac :: os => do
    let (s,_) ← s.registerAlarm t ac
    s.perform os
  | .unregisterAlarm i :: os => do
    let (s,_) ← s.unregisterAlarm i
    s.perform os

/-- What each `OnAlarm` does, read off the calls so far, itself included: its calls
into the server and its return value. -/
abbrev AlarmBodies := List AlarmCB → List AlarmOp × ℤ

/-- The state of the loop: the server, the iterator and the `OnAlarm` calls so far. -/
structure AlarmRound where
  server : AlarmServer
  iterator : Option ℕ
  calls : List AlarmCB
  ended : Bool

namespace AlarmRound

def start (s : AlarmServer) : AlarmRound := ⟨s,s.alarmMap.first,[],false⟩

def step (bodies : AlarmBodies) (now : ℤ) (r : AlarmRound) : Except Abort AlarmRound :=
  if r.ended then .ok r
  else do
    match ← r.server.nextAlarm now r.iterator with
    | .done => .ok { r with server := r.server.endAlarms, ended := true }
    | .skip i => .ok { r with iterator := i }
    | .fire i cb => do
      let calls := r.calls ++ [cb]
      let body := bodies calls
      let s ← (r.server.beginAlarm cb).perform body.1
      let (s,j) ← s.eraseFired i
      if body.2 > 0 then do
        let (s,_) ← s.reregister now body.2 cb
        .ok ⟨s,j,calls,false⟩
      else .ok ⟨s,j,calls,false⟩

/-- `CallAndReregisterAlarmEvents`, cut short after a number of iterations. -/
def callAndReregisterAlarmEvents (bodies : AlarmBodies) (now : ℤ) :
    ℕ → AlarmRound → Except Abort AlarmRound
  | 0, r => .ok r
  | fuel+1, r => do
    let r ← r.step bodies now
    callAndReregisterAlarmEvents bodies now fuel r

def ahead (r : AlarmRound) : List (Node ℤ AlarmCB) := r.server.alarmMap.ahead r.iterator

end AlarmRound

/-- The two ways an alarm may arm itself again: it returns a positive time, or it
is registered again before it returns 0. -/
inductive Rearm
  | byReturning (newTimeoutTimeInUs : ℤ)
  | byRegistering (timeoutTimeInUs : ℤ)
  deriving DecidableEq

def Rearm.body (cb : AlarmCB) : Rearm → List AlarmOp × ℤ
  | .byReturning t => ([],t)
  | .byRegistering t => ([.registerAlarm t cb],0)

/-- Alarms that do nothing but arm themselves; what an alarm does may depend on how
often it was called in this round. -/
def selfRearming (rearm : AlarmCB → ℕ → Rearm) : AlarmBodies := fun calls =>
  match calls.getLast? with
  | none => ([],0)
  | some cb => (rearm cb (calls.count cb)).body cb

namespace AlarmServer

structure Table (s : AlarmServer) : Prop where
  distinct : s.alarmMap.nodes.Pairwise fun a b => a.val ≠ b.val
  all : ∀ a, a ∈ s.allAlarms ↔ ∃ n ∈ s.alarmMap.nodes, n.val = a

structure WF (s : AlarmServer) : Prop extends Table s where
  skip : s.alarmsReregisteredAndShouldBeSkipped = ∅

theorem Table.eq_of_val {s : AlarmServer} (hs : Table s) {m n : Node ℤ AlarmCB}
    (hm : m ∈ s.alarmMap.nodes) (hn : n ∈ s.alarmMap.nodes) (h : m.val = n.val) : m = n :=
  List.inj_on_of_nodup_map (f:=Node.val) (List.pairwise_map.mpr hs.distinct) hm hn h

theorem Table.ne_of_mem_erase {s : AlarmServer} (hs : Table s) {n : Node ℤ AlarmCB}
    (hn : n ∈ s.alarmMap.nodes) : ∀ m ∈ (s.alarmMap.erase n.token).nodes, m.val ≠ n.val := by
  intro m hm hv
  obtain ⟨hm,hmt⟩ := Multimap.mem_erase.mp hm
  exact hmt (by rw [hs.eq_of_val hm hn hv])

theorem Table.erase {s : AlarmServer} (hs : Table s) {n : Node ℤ AlarmCB}
    (hn : n ∈ s.alarmMap.nodes) (skip : Finset AlarmCB) :
    Table ⟨s.alarmMap.erase n.token,s.allAlarms.erase n.val,skip⟩ := by
  refine ⟨hs.distinct.filter _,fun a => ?_⟩
  rw [Finset.mem_erase,hs.all]
  constructor
  · rintro ⟨hna,m,hm,rfl⟩
    refine ⟨m,Multimap.mem_erase.mpr ⟨hm,fun he => hna ?_⟩,rfl⟩
    rw [Multimap.eq_of_token hm hn he]
  · rintro ⟨m,hm,rfl⟩
    exact ⟨hs.ne_of_mem_erase hn m hm,m,(Multimap.mem_erase.mp hm).1,rfl⟩

theorem Table.insert {s s' : AlarmServer} (hs : Table s) {x : Node ℤ AlarmCB}
    (hperm : s'.alarmMap.nodes.Perm (x :: s.alarmMap.nodes))
    (hx : ∀ m ∈ s.alarmMap.nodes, m.val ≠ x.val)
    (hall : s'.allAlarms = Insert.insert x.val s.allAlarms) : Table s' := by
  constructor
  · refine (hperm.pairwise_iff (fun h => Ne.symm h)).mpr (List.pairwise_cons.mpr ⟨?_,hs.distinct⟩)
    intro m hm
    exact (hx m hm).symm
  · intro a
    rw [hall,Finset.mem_insert,hs.all]
    simp only [hperm.mem_iff,List.mem_cons]
    constructor
    · rintro (rfl | ⟨m,hm,rfl⟩)
      · exact ⟨x,Or.inl rfl,rfl⟩
      · exact ⟨m,Or.inr hm,rfl⟩
    · rintro ⟨m,rfl | hm,rfl⟩
      · exact Or.inl rfl
      · exact Or.inr ⟨m,hm,rfl⟩

end AlarmServer

namespace AlarmRound

/-- What firing the entry `n` does to the state of the loop. -/
structure Fired (now : ℤ) (r : AlarmRound) (n : Node ℤ AlarmCB) (rearm : Rearm)
    (r' : AlarmRound) : Prop where
  table : r'.server.Table
  calls : r'.calls = r.calls ++ [n.val]
  ended : r'.ended = false
  length : r'.server.alarmMap.nodes.length ≤ r.server.alarmMap.nodes.length
  nodes : ∀ m ∈ r'.server.alarmMap.nodes, m ∈ r.server.alarmMap.nodes ∨ m.val = n.val
  keeps : ∀ m ∈ r.ahead, m.val ≠ n.val → m ∈ r'.ahead
  ahead : ∀ m ∈ r'.ahead, m ∈ r.ahead ∧ m.val ≠ n.val ∨ m.val = n.val ∧ (now < m.key ∨
    n.val ∈ r'.server.alarmsReregisteredAndShouldBeSkipped ∨
    ∃ t, rearm = .byRegistering t ∧ m.key = t ∧ n.key ≤ t)
  again : ∀ t, rearm = .byRegistering t → n.key ≤ t → ∃ m ∈ r'.ahead, m.val = n.val ∧ m.key = t
  skips : ∀ a ∈ r'.server.alarmsReregisteredAndShouldBeSkipped,
    a ∈ r.server.alarmsReregisteredAndShouldBeSkipped ∨
    a = n.val ∧ ∀ t, rearm ≠ .byRegistering t
  keepsSkips : ∀ a ∈ r.server.alarmsReregisteredAndShouldBeSkipped,
    a ∈ r'.server.alarmsReregisteredAndShouldBeSkipped
  valid : ∀ t, r'.iterator = some t → ∃ m ∈ r'.server.alarmMap.nodes, m.token = t

/-- Everything an iteration can be, for alarms that only arm themselves. -/
inductive Stepped (rearm : AlarmCB → ℕ → Rearm) (now : ℤ) (r : AlarmRound) : AlarmRound → Prop
  | ended : r.ended = true → Stepped rearm now r r
  | done : r.ended = false → (∀ m ∈ r.ahead, now < m.key) →
    Stepped rearm now r { r with server := r.server.endAlarms, ended := true }
  | skip (n : Node ℤ AlarmCB) : r.ended = false → n ∈ r.server.alarmMap.nodes → r.iterator = some n.token →
    n.key ≤ now → n.val ∈ r.server.alarmsReregisteredAndShouldBeSkipped →
    Stepped rearm now r { r with iterator := r.server.alarmMap.next n.token }
  | fire (n : Node ℤ AlarmCB) (r' : AlarmRound) : r.ended = false → n ∈ r.server.alarmMap.nodes → r.iterator = some n.token →
    n.key ≤ now → n.val ∉ r.server.alarmsReregisteredAndShouldBeSkipped →
    Fired now r n (rearm n.val (r.calls.count n.val+1)) r' → Stepped rearm now r r'

section Fire

variable {r : AlarmRound} {now : ℤ} {n : Node ℤ AlarmCB} {rest : List (Node ℤ AlarmCB)}

theorem mem_rest (ht : r.server.Table) (hn : n ∈ r.server.alarmMap.nodes)
    (hi : r.iterator = some n.token) (ha : r.ahead = n :: rest) {m : Node ℤ AlarmCB} :
    m ∈ rest ↔ m ∈ r.ahead ∧ m.val ≠ n.val := by
  have hsub := (r.server.alarmMap.ahead_sublist r.iterator).subset
  have hahead : r.server.alarmMap.ahead (some n.token) = n :: rest := hi ▸ ha
  rw [ha,List.mem_cons]
  constructor
  · intro hm
    have hmem : m ∈ r.server.alarmMap.nodes := hsub (show m ∈ r.ahead by simp [ha,hm])
    refine ⟨Or.inr hm,fun hv => Multimap.ahead_tail_ne hahead m hm ?_⟩
    rw [ht.eq_of_val hmem hn hv]
  · rintro ⟨rfl | hm,hv⟩
    · exact absurd rfl hv
    · exact hm

theorem length_erase_add_one (hn : n ∈ r.server.alarmMap.nodes) :
    (r.server.alarmMap.erase n.token).nodes.length+1 ≤ r.server.alarmMap.nodes.length := by
  refine Nat.succ_le_of_lt (List.length_filter_lt_length_iff_exists.mpr ⟨n,hn,by simp⟩)

theorem fired_returning (ht : r.server.Table) (hn : n ∈ r.server.alarmMap.nodes)
    (hi : r.iterator = some n.token) (t : ℤ) :
    Fired now r n (.byReturning t) ⟨⟨(r.server.alarmMap.erase n.token).insert t n.val,
      insert n.val (r.server.allAlarms.erase n.val),
      if t ≤ now then insert n.val r.server.alarmsReregisteredAndShouldBeSkipped
      else r.server.alarmsReregisteredAndShouldBeSkipped⟩,
      r.server.alarmMap.next n.token,r.calls ++ [n.val],false⟩ := by
  obtain ⟨rest,hrest⟩ := Multimap.ahead_cons hn
  have ha : r.ahead = n :: rest := by rw [ahead,hi,hrest]
  have herase := Multimap.ahead_erase_next hrest
  have hvalid : ∀ u, r.server.alarmMap.next n.token = some u →
      ∃ y ∈ (r.server.alarmMap.erase n.token).nodes, y.token = u :=
    fun u hu => Multimap.next_mem hn hu
  have hins := Multimap.ahead_insert_cases hvalid t n.val
  rw [herase] at hins
  constructor
  · have hne := ht.ne_of_mem_erase hn
    exact (ht.erase hn ∅).insert (Node.insertAtUpperBound_perm _ _) hne rfl
  · rfl
  · rfl
  · have h₁ := (Node.insertAtUpperBound_perm
      (⟨(r.server.alarmMap.erase n.token).nextToken,t,n.val⟩ : Node ℤ AlarmCB)
      (r.server.alarmMap.erase n.token).nodes).length_eq
    exact h₁.trans_le (length_erase_add_one hn)
  · intro m hm
    rcases Multimap.mem_insert.mp hm with rfl | hm
    · exact Or.inr rfl
    · exact Or.inl (Multimap.mem_erase.mp hm).1
  · intro m hm hv
    have hm := (mem_rest ht hn hi ha).mpr ⟨hm,hv⟩
    show m ∈ Multimap.ahead _ _
    rcases hins with hins | hins
    · rwa [hins]
    · rw [hins]
      exact Node.mem_insertAtUpperBound.mpr (Or.inr hm)
  · intro m hm
    replace hm : m ∈ Multimap.ahead _ _ := hm
    have hm : m ∈ rest ∨ m = ⟨(r.server.alarmMap.erase n.token).nextToken,t,n.val⟩ := by
      rcases hins with hins | hins
      · exact Or.inl (hins ▸ hm)
      · rw [hins] at hm
        exact (Node.mem_insertAtUpperBound.mp hm).symm
    rcases hm with hm | rfl
    · exact Or.inl ((mem_rest ht hn hi ha).mp hm)
    · refine Or.inr ⟨rfl,?_⟩
      by_cases htn : t ≤ now
      · exact Or.inr (Or.inl (by simp [htn]))
      · exact Or.inl (not_le.mp htn)
  · intro u hu
    cases hu
  · intro a ha
    dsimp only at ha
    split_ifs at ha
    · rcases Finset.mem_insert.mp ha with rfl | ha
      · exact Or.inr ⟨rfl,by simp⟩
      · exact Or.inl ha
    · exact Or.inl ha
  · intro a ha
    dsimp only
    split_ifs
    · exact Finset.mem_insert_of_mem ha
    · exact ha
  · intro u hu
    obtain ⟨y,hy,hyu⟩ := hvalid u hu
    exact ⟨y,Multimap.mem_insert.mpr (Or.inr hy),hyu⟩

theorem fired_silent (ht : r.server.Table) (hn : n ∈ r.server.alarmMap.nodes)
    (hi : r.iterator = some n.token) {t : ℤ} :
    Fired now r n (.byReturning t) ⟨⟨r.server.alarmMap.erase n.token,
      r.server.allAlarms.erase n.val,r.server.alarmsReregisteredAndShouldBeSkipped⟩,
      r.server.alarmMap.next n.token,r.calls ++ [n.val],false⟩ := by
  obtain ⟨rest,hrest⟩ := Multimap.ahead_cons hn
  have ha : r.ahead = n :: rest := by rw [ahead,hi,hrest]
  have herase := Multimap.ahead_erase_next hrest
  constructor
  · exact ht.erase hn _
  · rfl
  · rfl
  · exact (Nat.le_succ _).trans (length_erase_add_one hn)
  · intro m hm
    exact Or.inl (Multimap.mem_erase.mp hm).1
  · intro m hm hv
    show m ∈ Multimap.ahead _ _
    rw [herase]
    exact (mem_rest ht hn hi ha).mpr ⟨hm,hv⟩
  · intro m hm
    replace hm : m ∈ Multimap.ahead _ _ := hm
    rw [herase] at hm
    exact Or.inl ((mem_rest ht hn hi ha).mp hm)
  · intro u hu
    cases hu
  · intro a ha
    exact Or.inl ha
  · intro a ha
    exact ha
  · intro u hu
    exact Multimap.next_mem hn hu

theorem fired_registering (ht : r.server.Table) (hn : n ∈ r.server.alarmMap.nodes)
    (hi : r.iterator = some n.token) (t : ℤ) :
    Fired now r n (.byRegistering t) ⟨⟨(r.server.alarmMap.insert t n.val).erase n.token,
      insert n.val (r.server.allAlarms.erase n.val),
      r.server.alarmsReregisteredAndShouldBeSkipped⟩,
      (r.server.alarmMap.insert t n.val).next n.token,r.calls ++ [n.val],false⟩ := by
  obtain ⟨rest,hrest⟩ := Multimap.ahead_cons hn
  have ha : r.ahead = n :: rest := by rw [ahead,hi,hrest]
  have hn' : n ∈ (r.server.alarmMap.insert t n.val).nodes := Multimap.mem_insert.mpr (Or.inr hn)
  have hfresh : r.server.alarmMap.nextToken ≠ n.token := (r.server.alarmMap.fresh n hn).ne'
  have hahead : ((r.server.alarmMap.insert t n.val).erase n.token).ahead
      ((r.server.alarmMap.insert t n.val).next n.token) =
      if n.key ≤ t then Node.insertAtUpperBound ⟨r.server.alarmMap.nextToken,t,n.val⟩ rest
      else rest := by
    apply Multimap.ahead_erase_next
    rw [Multimap.ahead_insert hn,hrest]
    split_ifs with h
    · rw [Node.insertAtUpperBound,if_pos h]
    · rfl
  have hperm : ((r.server.alarmMap.insert t n.val).erase n.token).nodes.Perm
      (⟨r.server.alarmMap.nextToken,t,n.val⟩ :: (r.server.alarmMap.erase n.token).nodes) := by
    have h₁ := (Node.insertAtUpperBound_perm (⟨r.server.alarmMap.nextToken,t,n.val⟩ : Node ℤ AlarmCB)
      r.server.alarmMap.nodes).filter fun m => m.token ≠ n.token
    rwa [List.filter_cons_of_pos (by simpa using hfresh)] at h₁
  constructor
  · have hne := ht.ne_of_mem_erase hn
    exact (ht.erase hn ∅).insert hperm hne rfl
  · rfl
  · rfl
  · exact hperm.length_eq.trans_le (length_erase_add_one hn)
  · intro m hm
    rcases Multimap.mem_insert.mp (Multimap.mem_erase.mp hm).1 with rfl | hm
    · exact Or.inr rfl
    · exact Or.inl hm
  · intro m hm hv
    have hm := (mem_rest ht hn hi ha).mpr ⟨hm,hv⟩
    show m ∈ Multimap.ahead _ _
    rw [hahead]
    split_ifs
    · exact Node.mem_insertAtUpperBound.mpr (Or.inr hm)
    · exact hm
  · intro m hm
    replace hm : m ∈ Multimap.ahead _ _ := hm
    rw [hahead] at hm
    split_ifs at hm with h
    · rcases Node.mem_insertAtUpperBound.mp hm with rfl | hm
      · exact Or.inr ⟨rfl,Or.inr (Or.inr ⟨t,rfl,rfl,h⟩)⟩
      · exact Or.inl ((mem_rest ht hn hi ha).mp hm)
    · exact Or.inl ((mem_rest ht hn hi ha).mp hm)
  · intro u hu hle
    cases hu
    refine ⟨⟨r.server.alarmMap.nextToken,t,n.val⟩,?_,rfl,rfl⟩
    show _ ∈ Multimap.ahead _ _
    rw [hahead,if_pos hle]
    exact Node.mem_insertAtUpperBound.mpr (Or.inl rfl)
  · intro a ha
    exact Or.inl ha
  · intro a ha
    exact ha
  · intro u hu
    exact Multimap.next_mem hn' hu

end Fire

/-- The loop invariant that every iteration keeps, whatever the alarms do to themselves. -/
structure Good (r : AlarmRound) : Prop where
  table : r.server.Table
  valid : ∀ t, r.iterator = some t → ∃ m ∈ r.server.alarmMap.nodes, m.token = t

theorem good_start {s : AlarmServer} (hs : s.WF) : Good (start s) := by
  refine ⟨hs.toTable,fun t ht => ?_⟩
  obtain ⟨n,hn,rfl⟩ := Option.map_eq_some_iff.mp ht
  exact ⟨n,List.mem_of_mem_head? hn,rfl⟩

theorem Good.nextAlarm_cases {r : AlarmRound} (hr : Good r) (now : ℤ) :
    r.server.nextAlarm now r.iterator = .ok .done ∧ (∀ m ∈ r.ahead, now < m.key) ∨
    ∃ n ∈ r.server.alarmMap.nodes, r.iterator = some n.token ∧ n.key ≤ now ∧
      (n.val ∈ r.server.alarmsReregisteredAndShouldBeSkipped ∧
          r.server.nextAlarm now r.iterator = .ok (.skip (r.server.alarmMap.next n.token)) ∨
        n.val ∉ r.server.alarmsReregisteredAndShouldBeSkipped ∧
          r.server.nextAlarm now r.iterator = .ok (.fire n.token n.val)) := by
  cases hi : r.iterator with
  | none => exact Or.inl ⟨rfl,by simp [ahead,hi,Multimap.ahead]⟩
  | some t =>
    obtain ⟨n,hn,rfl⟩ := hr.valid t hi
    have hfind := Multimap.find_eq_some.mpr ⟨hn,rfl⟩
    obtain ⟨rest,hrest⟩ := Multimap.ahead_cons hn
    have ha : r.ahead = n :: rest := by rw [ahead,hi,hrest]
    by_cases hk : now < n.key
    · refine Or.inl ⟨by simp [AlarmServer.nextAlarm,hfind,hk],?_⟩
      -- the nodes ahead are sorted, so none of them is due either
      have hsorted := r.server.alarmMap.sorted.sublist (r.server.alarmMap.ahead_sublist r.iterator)
      have hsorted : (n :: rest).Pairwise fun a b => a.key ≤ b.key := ha ▸ hsorted
      intro m hm
      rw [ha] at hm
      rcases List.mem_cons.mp hm with rfl | hm
      · exact hk
      · exact hk.trans_le ((List.pairwise_cons.mp hsorted).1 m hm)
    · refine Or.inr ⟨n,hn,rfl,not_lt.mp hk,?_⟩
      by_cases hs : n.val ∈ r.server.alarmsReregisteredAndShouldBeSkipped
      · exact Or.inl ⟨hs,by simp [AlarmServer.nextAlarm,hfind,hk,hs]⟩
      · exact Or.inr ⟨hs,by simp [AlarmServer.nextAlarm,hfind,hk,hs]⟩

theorem good_skip {r : AlarmRound} (hr : Good r) {n : Node ℤ AlarmCB}
    (hn : n ∈ r.server.alarmMap.nodes) :
    Good { r with iterator := r.server.alarmMap.next n.token } := by
  refine ⟨hr.table,fun u hu => ?_⟩
  obtain ⟨y,hy,hyu⟩ := Multimap.next_mem hn hu
  exact ⟨y,(Multimap.mem_erase.mp hy).1,hyu⟩

theorem good_endAlarms {r : AlarmRound} (hr : Good r) :
    Good { r with server := r.server.endAlarms, ended := true } :=
  ⟨⟨hr.table.distinct,hr.table.all⟩,hr.valid⟩

theorem step_of_fire {r : AlarmRound} (hr : Good r) {now : ℤ} {n : Node ℤ AlarmCB}
    (hn : n ∈ r.server.alarmMap.nodes) (hi : r.iterator = some n.token) (he : r.ended = false)
    (hnext : r.server.nextAlarm now r.iterator = .ok (.fire n.token n.val))
    (rearm : AlarmCB → ℕ → Rearm) :
    ∃ r', r.step (selfRearming rearm) now = .ok r' ∧
      Fired now r n (rearm n.val (r.calls.count n.val+1)) r' := by
  have hfind := Multimap.find_eq_some.mpr ⟨hn,rfl⟩
  have hbody : selfRearming rearm (r.calls ++ [n.val]) =
      (rearm n.val (r.calls.count n.val+1)).body n.val := by
    simp [selfRearming,List.count_append]
  simp only [step,he,Bool.false_eq_true,if_false,hnext,except_ok_bind,hbody]
  cases rearm n.val (r.calls.count n.val+1) with
  | byReturning t =>
    by_cases hpos : 0 < t
    · refine ⟨_,?_,fired_returning hr.table hn hi t⟩
      by_cases htn : t ≤ now <;>
      simp [Rearm.body,AlarmServer.perform,AlarmServer.beginAlarm,AlarmServer.eraseFired,hfind,hpos,
        AlarmServer.reregister,AlarmServer.registerAlarm,AlarmServer.containsAlarm,htn]
    · refine ⟨_,?_,fired_silent hr.table hn hi⟩
      simp [Rearm.body,AlarmServer.perform,AlarmServer.beginAlarm,AlarmServer.eraseFired,hfind,
        not_lt.mp hpos]
  | byRegistering t =>
    refine ⟨_,?_,fired_registering hr.table hn hi t⟩
    have hfind' := Multimap.find_eq_some.mpr
      ⟨(Multimap.mem_insert (k:=t) (v:=n.val)).mpr (Or.inr hn),rfl⟩
    simp [Rearm.body,AlarmServer.perform,AlarmServer.beginAlarm,AlarmServer.eraseFired,
      AlarmServer.registerAlarm,AlarmServer.containsAlarm,hfind']

theorem Good.step {r : AlarmRound} (hr : Good r) (rearm : AlarmCB → ℕ → Rearm) (now : ℤ) :
    ∃ r', r.step (selfRearming rearm) now = .ok r' ∧ Stepped rearm now r r' ∧ Good r' := by
  cases he : r.ended with
  | true => exact ⟨r,by simp [AlarmRound.step,he],.ended he,hr⟩
  | false =>
    rcases hr.nextAlarm_cases now with ⟨hnext,hlate⟩ | ⟨n,hn,hi,hk,⟨hs,hnext⟩ | ⟨hs,hnext⟩⟩
    · exact ⟨_,by simp [AlarmRound.step,he,hnext],.done he hlate,good_endAlarms hr⟩
    · exact ⟨_,by simp [AlarmRound.step,he,hnext],.skip n he hn hi hk hs,good_skip hr hn⟩
    · obtain ⟨r',h₁,h₂⟩ := step_of_fire hr hn hi he hnext rearm
      exact ⟨r',h₁,.fire n r' he hn hi hk hs h₂,h₂.table,h₂.valid⟩

theorem Good.run {r : AlarmRound} (hr : Good r) (rearm : AlarmCB → ℕ → Rearm) (now : ℤ)
    {P : AlarmRound → Prop} (hP : ∀ {r r'}, Good r → P r → Stepped rearm now r r' → P r')
    (h : P r) (fuel : ℕ) :
    ∃ r', callAndReregisterAlarmEvents (selfRearming rearm) now fuel r = .ok r' ∧ Good r' ∧ P r' := by
  induction fuel generalizing r with
  | zero => exact ⟨r,rfl,hr,h⟩
  | succ fuel ih =>
    obtain ⟨r₁,h₁,hs,hr₁⟩ := hr.step rearm now
    obtain ⟨r₂,h₂,hr₂,hp⟩ := ih hr₁ (hP hr h hs)
    exact ⟨r₂,by rw [callAndReregisterAlarmEvents,h₁,except_ok_bind,h₂],hr₂,hp⟩

theorem mem_ahead_of_iterator {r : AlarmRound} {n : Node ℤ AlarmCB}
    (hn : n ∈ r.server.alarmMap.nodes) (hi : r.iterator = some n.token) : n ∈ r.ahead := by
  obtain ⟨rest,hrest⟩ := Multimap.ahead_cons hn
  rw [ahead,hi,hrest]
  exact List.mem_cons_self

theorem ahead_skip {r : AlarmRound} {n : Node ℤ AlarmCB} (hn : n ∈ r.server.alarmMap.nodes)
    (hi : r.iterator = some n.token) :
    r.ahead = n :: ahead { r with iterator := r.server.alarmMap.next n.token } := by
  obtain ⟨rest,hrest⟩ := Multimap.ahead_cons hn
  rw [ahead,hi,hrest,ahead,Multimap.ahead_next hrest]

/-- No alarm that is due at a time `k` registers itself in its first `OnAlarm` at a
time between `k` and the recorded now. -/
def Tame (rearm : AlarmCB → ℕ → Rearm) (now : ℤ) (due : List (Node ℤ AlarmCB)) : Prop :=
  ∀ n ∈ due, n.key ≤ now → ∀ t, rearm n.val 1 = .byRegistering t → t < n.key ∨ now < t

/-- As long as every alarm is tame, whoever has fired will not fire again. -/
structure Once (due : List (Node ℤ AlarmCB)) (now : ℤ) (r : AlarmRound) : Prop where
  nodup : r.calls.Nodup
  fresh : ∀ m ∈ r.server.alarmMap.nodes, m.val ∉ r.calls → m ∈ due
  spent : r.ended = false → ∀ m ∈ r.ahead, m.val ∈ r.calls →
    now < m.key ∨ m.val ∈ r.server.alarmsReregisteredAndShouldBeSkipped

theorem Once.step {due : List (Node ℤ AlarmCB)} {now : ℤ} {rearm : AlarmCB → ℕ → Rearm}
    (htame : Tame rearm now due) {r r' : AlarmRound} (hr : Once due now r)
    (hs : Stepped rearm now r r') : Once due now r' := by
  cases hs with
  | ended => exact hr
  | done => exact ⟨hr.nodup,hr.fresh,by simp⟩
  | skip n he hn hi =>
    refine ⟨hr.nodup,hr.fresh,fun _ m hm => hr.spent he m ?_⟩
    rw [ahead_skip hn hi]
    exact List.mem_cons_of_mem n hm
  | fire n _ he hn hi hk hskip hf =>
    have hnew : n.val ∉ r.calls := by
      intro hc
      rcases hr.spent he n (mem_ahead_of_iterator hn hi) hc with h | h
      · exact absurd hk (not_le.mpr h)
      · exact hskip h
    rw [List.count_eq_zero.mpr hnew,Nat.zero_add] at hf
    constructor
    · rw [hf.calls]
      refine List.nodup_append.mpr ⟨hr.nodup,by simp,fun a ha b hb hab => hnew ?_⟩
      rw [← List.mem_singleton.mp hb,← hab]
      exact ha
    · intro m hm hc
      rw [hf.calls,List.mem_append,List.mem_singleton,not_or] at hc
      exact hr.fresh m ((hf.nodes m hm).resolve_right hc.2) hc.1
    · intro _ m hm hc
      rcases hf.ahead m hm with ⟨hm,hv⟩ | ⟨hv,h | h | ⟨t,ht,hmt,hle⟩⟩
      · rw [hf.calls,List.mem_append,List.mem_singleton] at hc
        rcases hr.spent he m hm (hc.resolve_right hv) with h | h
        · exact Or.inl h
        · exact Or.inr (hf.keepsSkips _ h)
      · exact Or.inl h
      · exact Or.inr (hv ▸ h)
      · rcases htame n (hr.fresh n hn hnew) hk t ht with h | h
        · exact absurd hle (not_le.mpr h)
        · exact Or.inl (hmt ▸ h)

/-- An alarm that registers itself between its own time and now fires a second time,
unless the round never gets that far. -/
structure Doomed (x : Node ℤ AlarmCB) (now : ℤ) (r : AlarmRound) : Prop where
  ended : r.ended = false
  unskipped : x.val ∉ r.server.alarmsReregisteredAndShouldBeSkipped
  ahead : (x.val ∉ r.calls ∧ x ∈ r.ahead ∧ ∀ m ∈ r.server.alarmMap.nodes, m.val = x.val → m = x) ∨
    x.val ∈ r.calls ∧ ∃ m ∈ r.ahead, m.val = x.val ∧ m.key ≤ now

theorem Doomed.step {x : Node ℤ AlarmCB} {now t : ℤ} {rearm : AlarmCB → ℕ → Rearm}
    (hx : x.key ≤ now) (ht : rearm x.val 1 = .byRegistering t) (hle : x.key ≤ t) (htn : t ≤ now)
    {r r' : AlarmRound} (hr : Doomed x now r ∨ 2 ≤ r.calls.count x.val)
    (hs : Stepped rearm now r r') : Doomed x now r' ∨ 2 ≤ r'.calls.count x.val := by
  rcases hr with hr | hr
  · cases hs with
    | ended he => simp [hr.ended] at he
    | done _ hlate =>
      rcases hr.ahead with ⟨_,hm,_⟩ | ⟨_,m,hm,_,hk⟩
      · exact absurd hx (not_le.mpr (hlate x hm))
      · exact absurd hk (not_le.mpr (hlate m hm))
    | skip n he hn hi hk hskip =>
      have hne : ∀ m : Node ℤ AlarmCB, m.val = x.val → m ∈ r.ahead →
          m ∈ AlarmRound.ahead { r with iterator := r.server.alarmMap.next n.token } := by
        intro m hm hma
        rw [ahead_skip hn hi] at hma
        refine (List.mem_cons.mp hma).resolve_left ?_
        rintro rfl
        exact hr.unskipped (hm ▸ hskip)
      refine Or.inl ⟨he,hr.unskipped,?_⟩
      rcases hr.ahead with ⟨hc,hm,hu⟩ | ⟨hc,m,hm,hmx,hmk⟩
      · exact Or.inl ⟨hc,hne x rfl hm,hu⟩
      · exact Or.inr ⟨hc,m,hne m hmx hm,hmx,hmk⟩
    | fire n _ he hn hi hk hskip hf =>
      by_cases hnx : n.val = x.val
      · rcases hr.ahead with ⟨hc,_,hu⟩ | ⟨hc,_⟩
        · have hxn : n = x := hu n hn hnx
          subst hxn
          rw [List.count_eq_zero.mpr hc,Nat.zero_add,ht] at hf
          refine Or.inl ⟨hf.ended,fun h => ?_,Or.inr ⟨by simp [hf.calls],?_⟩⟩
          · rcases hf.skips _ h with h | ⟨_,h⟩
            · exact hr.unskipped h
            · exact h t rfl
          · obtain ⟨m,hm,hmv,hmt⟩ := hf.again t rfl hle
            exact ⟨m,hm,hmv,hmt ▸ htn⟩
        · right
          have hpos : 0 < r.calls.count x.val := List.count_pos_iff.mpr hc
          rw [hf.calls,hnx,List.count_append]
          simp
          omega
      · refine Or.inl ⟨hf.ended,fun h => ?_,?_⟩
        · rcases hf.skips _ h with h | ⟨h,_⟩
          · exact hr.unskipped h
          · exact hnx h.symm
        · rcases hr.ahead with ⟨hc,hm,hu⟩ | ⟨hc,m,hm,hmx,hmk⟩
          · refine Or.inl ⟨by simp [hf.calls,hc,Ne.symm hnx],hf.keeps x hm (Ne.symm hnx),
              fun m hm hv => hu m ?_ hv⟩
            exact (hf.nodes m hm).resolve_right fun h => hnx (h.symm.trans hv)
          · exact Or.inr ⟨by simp [hf.calls,hc],m,hf.keeps m hm (hmx ▸ Ne.symm hnx),hmx,hmk⟩
  · right
    cases hs with
    | ended => exact hr
    | done => exact hr
    | skip => exact hr
    | fire n _ _ _ _ _ _ hf =>
      rw [hf.calls,List.count_append]
      exact Nat.le_add_right_of_le hr

structure Within (due : List (Node ℤ AlarmCB)) (r : AlarmRound) : Prop where
  length : r.server.alarmMap.nodes.length ≤ due.length
  nodes : ∀ m ∈ r.server.alarmMap.nodes, m.val ∈ due.map Node.val
  calls : ∀ a ∈ r.calls, a ∈ due.map Node.val

theorem Within.step {due : List (Node ℤ AlarmCB)} {now : ℤ} {rearm : AlarmCB → ℕ → Rearm}
    {r r' : AlarmRound} (hr : Within due r) (hs : Stepped rearm now r r') : Within due r' := by
  cases hs with
  | ended => exact hr
  | done => exact ⟨hr.length,hr.nodes,hr.calls⟩
  | skip => exact ⟨hr.length,hr.nodes,hr.calls⟩
  | fire n _ _ hn _ _ _ hf =>
    have hnd := hr.nodes n hn
    refine ⟨hf.length.trans hr.length,fun m hm => ?_,fun a ha => ?_⟩
    · rcases hf.nodes m hm with h | h
      · exact hr.nodes m h
      · exact h ▸ hnd
    · rw [hf.calls,List.mem_append,List.mem_singleton] at ha
      rcases ha with ha | rfl
      · exact hr.calls a ha
      · exact hnd

/-- A round in which no alarm fires twice ends: every iteration either fires one
more alarm or moves the iterator forward. -/
theorem ends_of_once {due : List (Node ℤ AlarmCB)} {now : ℤ} {rearm : AlarmCB → ℕ → Rearm} {k : ℕ}
    {r : AlarmRound} (hr : Good r) (hw : Within due r)
    (hk : (due.length-r.calls.length)*(due.length+1)+r.ahead.length ≤ k)
    (honce : ∀ fuel r', callAndReregisterAlarmEvents (selfRearming rearm) now fuel r = .ok r' →
      r'.calls.Nodup) :
    ∃ fuel r', callAndReregisterAlarmEvents (selfRearming rearm) now fuel r = .ok r' ∧
      r'.ended = true := by
  induction k generalizing r with
  | zero =>
    obtain ⟨r₁,h₁,hs,_⟩ := hr.step rearm now
    have hempty : r.ahead = [] := List.length_eq_zero_iff.mp (by omega)
    cases hs with
    | ended he => exact ⟨0,r,rfl,he⟩
    | done => exact ⟨1,_,by rw [callAndReregisterAlarmEvents,h₁]; rfl,rfl⟩
    | skip n _ hn hi => simpa [hempty] using mem_ahead_of_iterator hn hi
    | fire n _ _ hn hi => simpa [hempty] using mem_ahead_of_iterator hn hi
  | succ k ih =>
    obtain ⟨r₁,h₁,hs,hr₁⟩ := hr.step rearm now
    have hw₁ := hw.step hs
    have honce₁ : ∀ fuel r', callAndReregisterAlarmEvents (selfRearming rearm) now fuel r₁ = .ok r' →
        r'.calls.Nodup := fun fuel r' h => honce (fuel+1) r' (by
      rw [callAndReregisterAlarmEvents,h₁,except_ok_bind,h])
    have hlater : (due.length-r₁.calls.length)*(due.length+1)+r₁.ahead.length ≤ k →
        ∃ fuel r', callAndReregisterAlarmEvents (selfRearming rearm) now fuel r = .ok r' ∧
          r'.ended = true := by
      intro hk₁
      obtain ⟨fuel,r',hf,he⟩ := ih hr₁ hw₁ hk₁ honce₁
      exact ⟨fuel+1,r',by rw [callAndReregisterAlarmEvents,h₁,except_ok_bind,hf],he⟩
    cases hs with
    | ended he => exact ⟨0,r,rfl,he⟩
    | done => exact ⟨1,_,by rw [callAndReregisterAlarmEvents,h₁]; rfl,rfl⟩
    | skip n _ hn hi =>
      apply hlater
      have hlen := congrArg List.length (ahead_skip hn hi)
      rw [List.length_cons] at hlen
      dsimp only
      omega
    | fire n _ _ hn hi _ _ hf =>
      apply hlater
      have hcalls : r₁.calls.length ≤ due.length := by
        have hnodup : r₁.calls.Nodup := honce₁ 0 r₁ rfl
        simpa using (List.subperm_of_subset hnodup hw₁.calls).length_le
      have hahead : r₁.ahead.length ≤ due.length :=
        (r₁.server.alarmMap.ahead_sublist r₁.iterator).length_le.trans hw₁.length
      have hlen : r₁.calls.length = r.calls.length+1 := by simp [hf.calls]
      have hsucc : due.length-r.calls.length = due.length-r₁.calls.length+1 := by omega
      rw [hsucc,Nat.add_mul,Nat.one_mul] at hk
      omega

theorem once_start {s : AlarmServer} (now : ℤ) : Once s.alarmMap.nodes now (start s) :=
  ⟨by simp [start],fun m hm _ => hm,by simp [start]⟩

theorem within_start (s : AlarmServer) : Within s.alarmMap.nodes (start s) :=
  ⟨le_rfl,fun _ hm => List.mem_map_of_mem hm,by simp [start]⟩

/-- Every alarm fires at most once in a round, and the round ends, exactly if no due
alarm registers itself between its own time and the recorded now: only the return
value of `OnAlarm` is guarded by the set of alarms to skip. -/
theorem fires_once_iff_tame {s : AlarmServer} (hs : s.WF) (now : ℤ)
    (rearm : AlarmCB → ℕ → Rearm) :
    ((∀ fuel, ∃ r, callAndReregisterAlarmEvents (selfRearming rearm) now fuel (start s) = .ok r ∧
        ∀ a, r.calls.count a ≤ 1) ∧
      ∃ fuel r, callAndReregisterAlarmEvents (selfRearming rearm) now fuel (start s) = .ok r ∧
        r.ended = true) ↔
    ∀ n ∈ s.alarmMap.nodes, n.key ≤ now → ∀ t, rearm n.val 1 = .byRegistering t →
      t < n.key ∨ now < t := by
  have hgood := good_start hs
  constructor
  · rintro ⟨honce,fuel,r,hrun,hend⟩ x hx hxk t ht
    by_contra hbad
    rw [not_or,not_lt,not_lt] at hbad
    have hdoomed : Doomed x now (start s) := by
      refine ⟨rfl,by simp [start,hs.skip],Or.inl ⟨by simp [start],?_,?_⟩⟩
      · rw [ahead,start,Multimap.ahead_first]
        exact hx
      · exact fun m hm hv => hs.eq_of_val hm hx hv
    obtain ⟨r₁,h₁,_,hr₁⟩ := hgood.run rearm now
      (fun _ h hst => Doomed.step hxk ht hbad.1 hbad.2 h hst) (Or.inl hdoomed) fuel
    rw [hrun] at h₁
    cases h₁
    rcases hr₁ with h | h
    · simp [h.ended] at hend
    · obtain ⟨r₂,h₂,hcount⟩ := honce fuel
      rw [hrun] at h₂
      cases h₂
      have := hcount x.val
      omega
  · intro htame
    have hrun := fun fuel => hgood.run rearm now (fun _ h hst => Once.step htame h hst)
      (once_start now) fuel
    refine ⟨fun fuel => ?_,?_⟩
    · obtain ⟨r,h₁,_,h₂⟩ := hrun fuel
      exact ⟨r,h₁,List.nodup_iff_count_le_one.mp h₂.nodup⟩
    · refine ends_of_once hgood (within_start s) le_rfl fun fuel r' hr' => ?_
      obtain ⟨r,h₁,_,h₂⟩ := hrun fuel
      rw [hr'] at h₁
      cases h₁
      exact h₂.nodup

/-- Two alarms, both due: one asks to be called again by its return value, and the
other registers itself for a time that is still to come. -/
theorem fires_once_iff_tame_pair :
    (⟨(Multimap.empty.insert 5 1).insert 7 2,{1,2},∅⟩ : AlarmServer).WF ∧
    ((∀ fuel, ∃ r, callAndReregisterAlarmEvents
          (selfRearming fun a _ => if a = 1 then .byReturning 6 else .byRegistering 20) 10 fuel
          (start ⟨(Multimap.empty.insert 5 1).insert 7 2,{1,2},∅⟩) = .ok r ∧
          ∀ a, r.calls.count a ≤ 1) ∧
        ∃ fuel r, callAndReregisterAlarmEvents
          (selfRearming fun a _ => if a = 1 then .byReturning 6 else .byRegistering 20) 10 fuel
          (start ⟨(Multimap.empty.insert 5 1).insert 7 2,{1,2},∅⟩) = .ok r ∧ r.ended = true) := by
  have hs : (⟨(Multimap.empty.insert 5 1).insert 7 2,{1,2},∅⟩ : AlarmServer).WF := by
    refine ⟨⟨by decide,fun a => ?_⟩,rfl⟩
    simp [eq_comm,Multimap.empty,or_comm]
  refine ⟨hs,(fires_once_iff_tame hs 10 _).mpr fun n _ _ t ht => ?_⟩
  split_ifs at ht
  cases ht
  exact Or.inr (by decide)

/-- An alarm that is due now and registers itself for now, as the time-wait clean-up
alarm does when the time-wait period is zero, fires again in the same round. -/
theorem fires_twice_when_registered_for_now :
    ¬∀ fuel, ∃ r, callAndReregisterAlarmEvents (selfRearming fun _ _ => .byRegistering 5) 5 fuel
      (start ⟨Multimap.empty.insert 5 1,{1},∅⟩) = .ok r ∧ ∀ a, r.calls.count a ≤ 1 := by
  intro h
  obtain ⟨r,hr,hcount⟩ := h 2
  have htwo : (callAndReregisterAlarmEvents (selfRearming fun _ _ => .byRegistering 5) 5 2
      (start ⟨Multimap.empty.insert 5 1,{1},∅⟩)).toOption.map (fun r => r.calls) = some [1,1] := by
    decide +kernel
  rw [hr] at htwo
  have hcalls : r.calls = [1,1] := by simpa [Except.toOption] using htwo
  have := hcount 1
  simp [hcalls] at this

end AlarmRound
end CmuQuic
