import CmuQuic.AlarmRound

/-! A whole call of `CallAndReregisterAlarmEvents`, for alarms that arm themselves by
what `OnAlarm` returns and that unregister one another. -/
namespace CmuQuic

/-- What one `OnAlarm` did: the alarms it unregistered, and its return value. -/
structure AlarmCall where
  alarm : AlarmCB
  unregistered : List AlarmCB
  returned : ℤ
  deriving DecidableEq

namespace AlarmCall

def Gone (log : List AlarmCall) (a : AlarmCB) : Prop := ∃ c ∈ log, a ∈ c.unregistered

instance (log : List AlarmCall) (a : AlarmCB) : Decidable (Gone log a) :=
  inferInstanceAs (Decidable (∃ c ∈ log, _))

/-- The calls that a round is meant to make: every due alarm in its turn, except for
those that an earlier call unregistered. What a call does may depend on all the
calls so far, itself included. -/
def serve (call : List AlarmCB → List AlarmCB × ℤ) :
    List AlarmCall → List AlarmCB → List AlarmCall
  | log, [] => log
  | log, a :: due =>
    if Gone log a then serve call log due
    else
      let done := call (log.map alarm ++ [a])
      serve call (log ++ [⟨a,done.1,done.2⟩]) due

/-- The log leaves the alarm armed for a time that its `OnAlarm` returned. -/
def Rearms (log : List AlarmCall) (t : ℤ) (a : AlarmCB) : Prop :=
  ∃ front c back, log = front ++ c :: back ∧ c.alarm = a ∧ c.returned = t ∧ 0 < t ∧ ¬Gone back a

theorem gone_append {log : List AlarmCall} {c : AlarmCall} {a : AlarmCB} :
    Gone (log ++ [c]) a ↔ Gone log a ∨ a ∈ c.unregistered := by
  simp [Gone,or_and_right,exists_or]

theorem rearms_append {log : List AlarmCall} {c : AlarmCall} {t : ℤ} {a : AlarmCB} :
    Rearms (log ++ [c]) t a ↔
      c.alarm = a ∧ c.returned = t ∧ 0 < t ∨ Rearms log t a ∧ a ∉ c.unregistered := by
  constructor
  · rintro ⟨front,d,back,hlog,ha,ht,hpos,hback⟩
    rcases List.eq_nil_or_concat back with rfl | ⟨back,e,rfl⟩
    · obtain ⟨_,rfl⟩ := List.append_singleton_inj.mp hlog
      exact Or.inl ⟨ha,ht,hpos⟩
    · rw [List.concat_eq_append,← List.cons_append,← List.append_assoc] at hlog
      obtain ⟨rfl,rfl⟩ := List.append_singleton_inj.mp hlog
      rw [List.concat_eq_append,gone_append,not_or] at hback
      exact Or.inr ⟨⟨front,d,back,rfl,ha,ht,hpos,hback.1⟩,hback.2⟩
  · rintro (⟨ha,ht,hpos⟩ | ⟨⟨front,d,back,rfl,ha,ht,hpos,hback⟩,hc⟩)
    · exact ⟨log,c,[],rfl,ha,ht,hpos,by simp [Gone]⟩
    · exact ⟨front,d,back ++ [c],by simp,ha,ht,hpos,fun h => (gone_append.mp h).elim hback hc⟩

theorem Rearms.mem {log : List AlarmCall} {t : ℤ} {a : AlarmCB} (h : Rearms log t a) :
    a ∈ log.map alarm := by
  obtain ⟨front,c,back,rfl,rfl,_⟩ := h
  simp

theorem serve_filter (call : List AlarmCB → List AlarmCB × ℤ) (p : AlarmCB → Bool)
    {log : List AlarmCall} {due : List AlarmCB} (h : ∀ a ∈ due, p a = false → Gone log a) :
    serve call log (due.filter p) = serve call log due := by
  induction due generalizing log with
  | nil => rfl
  | cons a due ih =>
    have hdue : ∀ b ∈ due, p b = false → Gone log b := fun b hb => h b (by simp [hb])
    cases hp : p a with
    | false =>
      rw [List.filter_cons_of_neg (by simp [hp]),ih hdue,serve,if_pos (h a (by simp) hp)]
    | true =>
      rw [List.filter_cons_of_pos hp,serve,serve]
      split_ifs
      · exact ih hdue
      · exact ih fun b hb hpb => gone_append.mpr (Or.inl (hdue b hb hpb))

theorem serve_sublist (call : List AlarmCB → List AlarmCB × ℤ) (log : List AlarmCall)
    (due : List AlarmCB) :
    ∃ served, (serve call log due).map alarm = log.map alarm ++ served ∧ served.Sublist due := by
  induction due generalizing log with
  | nil => exact ⟨[],by simp [serve],.slnil⟩
  | cons a due ih =>
    rw [serve]
    split_ifs
    · obtain ⟨served,h₁,h₂⟩ := ih log
      exact ⟨served,h₁,h₂.cons a⟩
    · obtain ⟨served,h₁,h₂⟩ := ih (log ++ [⟨a,_,_⟩])
      exact ⟨a :: served,by rw [h₁]; simp,h₂.cons_cons a⟩

end AlarmCall

namespace AlarmServer

/-- The alarms that the calls of an `OnAlarm` unregister, one after the other, if it
makes no other calls and every one of them is still registered. -/
def unregistrations (s : AlarmServer) : List AlarmOp → Option (List AlarmCB)
  | [] => some []
  | .registerAlarm _ _ :: _ => none
  | .unregisterAlarm i :: os =>
    match s.unregisterAlarm i with
    | .error _ => none
    | .ok (s',a) => if s.containsAlarm a then (s'.unregistrations os).map (a :: ·) else none

/-- The tables with some alarms taken out. -/
structure Without (s : AlarmServer) (as : List AlarmCB) (s' : AlarmServer) : Prop where
  nodes : s'.alarmMap.nodes = s.alarmMap.nodes.filter fun n => n.val ∉ as
  nextToken : s'.alarmMap.nextToken = s.alarmMap.nextToken
  ahead : ∀ n ∈ s.alarmMap.nodes, n.val ∉ as →
    s'.alarmMap.ahead (some n.token) = (s.alarmMap.ahead (some n.token)).filter fun m => m.val ∉ as
  all : ∀ a, a ∈ s'.allAlarms ↔ a ∈ s.allAlarms ∧ a ∉ as
  skip : s'.alarmsReregisteredAndShouldBeSkipped = s.alarmsReregisteredAndShouldBeSkipped
  chronological : s.alarmMap.Chronological → s'.alarmMap.Chronological

theorem without_nil (s : AlarmServer) : s.Without [] s := by
  constructor <;> simp

theorem without_unregister {s : AlarmServer}
    (hs : s.alarmMap.nodes.Pairwise fun a b => a.val ≠ b.val) {n : Node ℤ AlarmCB}
    (hn : n ∈ s.alarmMap.nodes) : s.Without [n.val] { s with
      alarmMap := s.alarmMap.erase n.token
      allAlarms := s.allAlarms.erase n.val } := by
  have heq : ∀ m ∈ s.alarmMap.nodes, (m.token = n.token ↔ m.val = n.val) := by
    intro m hm
    constructor
    · exact fun h => congrArg Node.val (Multimap.eq_of_token hm hn h)
    · exact fun h => congrArg Node.token
        (List.inj_on_of_nodup_map (f:=Node.val) (List.pairwise_map.mpr hs) hm hn h)
  constructor
  · refine List.filter_congr fun m hm => ?_
    simp [heq m hm]
  · rfl
  · intro m hm hmn
    have hne : m.token ≠ n.token := fun h => hmn (List.mem_singleton.mpr ((heq m hm).mp h))
    rw [Multimap.ahead_erase hne]
    refine List.filter_congr fun x hx => ?_
    simp [heq x ((s.alarmMap.ahead_sublist _).subset hx)]
  · intro a
    simp [and_comm]
  · rfl
  · exact fun h => h.erase n.token

theorem Without.trans {s s₁ s₂ : AlarmServer} {as bs : List AlarmCB} (h₁ : s.Without as s₁)
    (h₂ : s₁.Without bs s₂) : s.Without (as ++ bs) s₂ := by
  constructor
  · rw [h₂.nodes,h₁.nodes,List.filter_filter]
    refine List.filter_congr fun m _ => ?_
    simp [Bool.and_comm]
  · rw [h₂.nextToken,h₁.nextToken]
  · intro n hn hna
    rw [List.mem_append,not_or] at hna
    have hn₁ : n ∈ s₁.alarmMap.nodes := by
      rw [h₁.nodes,List.mem_filter]
      exact ⟨hn,by simpa using hna.1⟩
    rw [h₂.ahead n hn₁ hna.2,h₁.ahead n hn hna.1,List.filter_filter]
    refine List.filter_congr fun m _ => ?_
    simp [Bool.and_comm]
  · intro a
    rw [h₂.all,h₁.all,List.mem_append,not_or,and_assoc]
  · rw [h₂.skip,h₁.skip]
  · exact fun h => h₂.chronological (h₁.chronological h)

theorem perform_unregistrations {s : AlarmServer} {os : List AlarmOp} {as : List AlarmCB}
    (hs : s.alarmMap.nodes.Pairwise fun a b => a.val ≠ b.val)
    (h : s.unregistrations os = some as) :
    ∃ s', s.perform os = .ok s' ∧ s.Without as s' ∧ ∀ a ∈ as, a ∈ s.allAlarms := by
  induction os generalizing s as with
  | nil =>
    cases h
    exact ⟨s,rfl,without_nil s,by simp⟩
  | cons o os ih =>
    cases o with
    | registerAlarm => simp [unregistrations] at h
    | unregisterAlarm i =>
      cases hfind : s.alarmMap.find i with
      | none => simp [unregistrations,unregisterAlarm,hfind] at h
      | some n =>
        obtain ⟨hn,rfl⟩ := Multimap.find_eq_some.mp hfind
        have hun : s.unregisterAlarm n.token = .ok ({ s with
            alarmMap := s.alarmMap.erase n.token
            allAlarms := s.allAlarms.erase n.val },n.val) := by simp [unregisterAlarm,hfind]
        have hw := without_unregister hs hn
        simp only [unregistrations,hun,Option.ite_none_right_eq_some,Option.map_eq_some_iff] at h
        obtain ⟨hall,bs,hbs,rfl⟩ := h
        obtain ⟨s',h₁,h₂,h₃⟩ := ih (hs.filter _) hbs
        refine ⟨s',by rw [perform,hun]; exact h₁,hw.trans h₂,fun a ha => ?_⟩
        rcases List.mem_cons.mp ha with rfl | ha
        · simpa [containsAlarm] using hall
        · exact ((hw.all a).mp (h₃ a ha)).1

end AlarmServer

namespace AlarmRound

/-- The entries ahead that the loop is going to fire, if nothing unregisters them. -/
def due (r : AlarmRound) (now : ℤ) : List (Node ℤ AlarmCB) :=
  r.ahead.filter fun n => n.key ≤ now ∧ n.val ∉ r.server.alarmsReregisteredAndShouldBeSkipped

/-- From here on every `OnAlarm` does nothing but unregister other alarms that are
still registered, namely those that are listed for it, and return a value. -/
def OnlyUnregisters (bodies : AlarmBodies) (unregistered : List AlarmCB → List AlarmCB) (now : ℤ)
    (r : AlarmRound) : Prop :=
  ∀ fuel r', callAndReregisterAlarmEvents bodies now fuel r = .ok r' → r'.ended = false →
    ∀ i cb, r'.server.nextAlarm now r'.iterator = .ok (.fire i cb) →
      (r'.server.beginAlarm cb).unregistrations (bodies (r'.calls ++ [cb])).1 =
        some (unregistered (r'.calls ++ [cb]))

/-- What firing the entry `n` does, when `OnAlarm` unregisters the alarms `as` and
returns `t`. -/
structure Served (now : ℤ) (r : AlarmRound) (n : Node ℤ AlarmCB) (as : List AlarmCB) (t : ℤ)
    (r' : AlarmRound) : Prop where
  good : Good r'
  calls : r'.calls = r.calls ++ [n.val]
  ended : r'.ended = false
  others : n.val ∉ as
  nodes : ∀ m, m ∈ r'.server.alarmMap.nodes ↔ (m ∈ r.server.alarmMap.nodes ∧ m.val ≠ n.val ∧ m.val ∉ as) ∨
    0 < t ∧ m = ⟨r.server.alarmMap.nextToken,t,n.val⟩
  due : r'.due now = (r.due now).filter fun m => m.val ≠ n.val ∧ m.val ∉ as
  chronological : r.server.alarmMap.Chronological → r'.server.alarmMap.Chronological

section Fire

variable {r : AlarmRound} {now : ℤ} {n : Node ℤ AlarmCB} {as : List AlarmCB} {s : AlarmServer}

theorem served_silent (hr : Good r) (hn : n ∈ r.server.alarmMap.nodes)
    (hi : r.iterator = some n.token) (hw : (r.server.beginAlarm n.val).Without as s)
    (has : n.val ∉ as) {t : ℤ} (ht : ¬0 < t) :
    Served now r n as t ⟨{ s with alarmMap := s.alarmMap.erase n.token },
      s.alarmMap.next n.token,r.calls ++ [n.val],false⟩ := by
  have hns : n ∈ s.alarmMap.nodes := by
    rw [hw.nodes,List.mem_filter]
    exact ⟨hn,by simpa using has⟩
  have hmem : ∀ m, m ∈ (s.alarmMap.erase n.token).nodes ↔
      m ∈ r.server.alarmMap.nodes ∧ m.val ≠ n.val ∧ m.val ∉ as := by
    intro m
    rw [Multimap.mem_erase,hw.nodes,List.mem_filter,decide_eq_true_eq,and_assoc]
    refine and_congr_right fun hm => ?_
    rw [and_comm]
    refine and_congr_left fun _ => not_congr ?_
    exact ⟨fun h => congrArg Node.val (Multimap.eq_of_token hm hn h),
      fun h => congrArg Node.token (hr.table.eq_of_val hm hn h)⟩
  constructor
  · refine ⟨⟨?_,fun a => ?_⟩,fun u hu => Multimap.next_mem hns hu⟩
    · show ((s.alarmMap.nodes).filter _).Pairwise _
      rw [hw.nodes]
      exact (hr.table.distinct.filter _).filter _
    · simp only [hmem,hw.all,AlarmServer.beginAlarm,Finset.mem_erase,hr.table.all]
      constructor
      · rintro ⟨⟨hna,m,hm,rfl⟩,hma⟩
        exact ⟨m,⟨hm,hna,hma⟩,rfl⟩
      · rintro ⟨m,⟨hm,hna,hma⟩,rfl⟩
        exact ⟨⟨hna,m,hm,rfl⟩,hma⟩
  · rfl
  · rfl
  · exact has
  · intro m
    simp only [hmem,ht,false_and,or_false]
  · obtain ⟨rest,hrest⟩ := Multimap.ahead_cons hn
    have ha : r.ahead = n :: rest := by rw [ahead,hi,hrest]
    have hs : s.alarmMap.ahead (some n.token) = n :: rest.filter fun m => m.val ∉ as := by
      rw [hw.ahead n hn has,AlarmServer.beginAlarm,hrest,List.filter_cons_of_pos (by simpa using has)]
    have hrestne : ∀ m ∈ rest, m.val ≠ n.val := fun m hm => ((mem_rest hr.table hn hi ha).mp hm).2
    have hahead : AlarmRound.ahead ⟨{ s with alarmMap := s.alarmMap.erase n.token },
        s.alarmMap.next n.token,r.calls ++ [n.val],false⟩ = rest.filter fun m => m.val ∉ as :=
      Multimap.ahead_erase_next hs
    have hskip : s.alarmsReregisteredAndShouldBeSkipped =
        r.server.alarmsReregisteredAndShouldBeSkipped := hw.skip
    rw [AlarmRound.due,hahead,AlarmRound.due,ha,hskip,List.filter_filter,List.filter_filter,
      List.filter_cons_of_neg (by simp)]
    refine List.filter_congr fun m hm => ?_
    rw [Bool.eq_iff_iff]
    simp [hrestne m hm,and_comm]
  · exact fun h => (hw.chronological h).erase n.token

theorem served_returning {r₁ : AlarmRound} {t₀ t : ℤ} (h : Served now r n as t₀ r₁)
    (ht₀ : ¬0 < t₀) (ht : 0 < t)
    (htoken : r₁.server.alarmMap.nextToken = r.server.alarmMap.nextToken) :
    Served now r n as t { r₁ with server := ⟨r₁.server.alarmMap.insert t n.val,
      insert n.val r₁.server.allAlarms,
      if t ≤ now then insert n.val r₁.server.alarmsReregisteredAndShouldBeSkipped
      else r₁.server.alarmsReregisteredAndShouldBeSkipped⟩ } := by
  have hnodes : ∀ m, m ∈ r₁.server.alarmMap.nodes ↔
      m ∈ r.server.alarmMap.nodes ∧ m.val ≠ n.val ∧ m.val ∉ as := by
    intro m
    simp only [h.nodes,ht₀,false_and,or_false]
  constructor
  · refine ⟨?_,fun u hu => ?_⟩
    · exact h.good.table.insert (Node.insertAtUpperBound_perm _ _)
        (fun m hm => ((hnodes m).mp hm).2.1) rfl
    · obtain ⟨m,hm,hmu⟩ := h.good.valid u hu
      exact ⟨m,Multimap.mem_insert.mpr (Or.inr hm),hmu⟩
  · exact h.calls
  · exact h.ended
  · exact h.others
  · intro m
    rw [Multimap.mem_insert,hnodes,htoken]
    simp only [ht,true_and,or_comm]
  · rw [← h.due]
    unfold AlarmRound.due
    dsimp only
    generalize hS : (if t ≤ now then insert n.val r₁.server.alarmsReregisteredAndShouldBeSkipped
      else r₁.server.alarmsReregisteredAndShouldBeSkipped) = S
    -- the new entry is skipped or not due, so it makes no difference where it went
    have hnew : ¬(t ≤ now ∧ n.val ∉ S) := by
      rintro ⟨htn,hv⟩
      simp [← hS,htn] at hv
    have hcongr : ∀ m ∈ r₁.ahead, decide (m.key ≤ now ∧ m.val ∉ S) =
        decide (m.key ≤ now ∧ m.val ∉ r₁.server.alarmsReregisteredAndShouldBeSkipped) := by
      intro m hm
      have hne := ((hnodes m).mp ((r₁.server.alarmMap.ahead_sublist _).subset hm)).2.1
      rw [← hS,decide_eq_decide]
      split_ifs
      · simp [hne]
      · rfl
    rcases Multimap.ahead_insert_cases h.good.valid t n.val with hins | hins
    · rw [AlarmRound.ahead,hins]
      exact List.filter_congr hcongr
    · rw [AlarmRound.ahead,hins,Node.filter_insertAtUpperBound (by simpa using hnew)]
      exact List.filter_congr hcongr
  · exact fun hc => (h.chronological hc).insert t n.val

theorem step_serves {bodies : AlarmBodies} (hr : Good r) (hn : n ∈ r.server.alarmMap.nodes)
    (hi : r.iterator = some n.token) (he : r.ended = false)
    (hnext : r.server.nextAlarm now r.iterator = .ok (.fire n.token n.val))
    (hb : (r.server.beginAlarm n.val).unregistrations (bodies (r.calls ++ [n.val])).1 = some as) :
    ∃ r', r.step bodies now = .ok r' ∧ Served now r n as (bodies (r.calls ++ [n.val])).2 r' := by
  have hd : (r.server.beginAlarm n.val).alarmMap.nodes.Pairwise fun a b => a.val ≠ b.val :=
    hr.table.distinct
  obtain ⟨s,hs,hw,hall⟩ := AlarmServer.perform_unregistrations hd hb
  have has : n.val ∉ as := fun h => by simpa [AlarmServer.beginAlarm] using hall n.val h
  have hfind : s.alarmMap.find n.token = some n := by
    rw [Multimap.find_eq_some,hw.nodes,List.mem_filter]
    exact ⟨⟨hn,by simpa using has⟩,rfl⟩
  have herase : s.eraseFired n.token =
      .ok ({ s with alarmMap := s.alarmMap.erase n.token },s.alarmMap.next n.token) := by
    simp [AlarmServer.eraseFired,hfind]
  have hout : n.val ∉ s.allAlarms := by
    rw [hw.all]
    simp [AlarmServer.beginAlarm]
  generalize hbody : bodies (r.calls ++ [n.val]) = body at hs
  simp only [step,he,Bool.false_eq_true,if_false,hnext,except_ok_bind,hbody,hs,herase]
  by_cases hpos : body.2 > 0
  · refine ⟨_,?_,served_returning (served_silent hr hn hi hw has (lt_irrefl 0)) (lt_irrefl 0) hpos
      hw.nextToken⟩
    by_cases htn : body.2 ≤ now <;>
    simp [hpos,AlarmServer.reregister,AlarmServer.registerAlarm,AlarmServer.containsAlarm,hout,htn]
  · exact ⟨_,by simp [hpos],served_silent hr hn hi hw has hpos⟩

end Fire

open AlarmCall

/-- The loop in the middle of a round that began in `s`, after the calls of `log`. -/
structure Serving (call : List AlarmCB → List AlarmCB × ℤ) (now : ℤ) (s : AlarmServer)
    (log : List AlarmCall) (r : AlarmRound) : Prop where
  good : Good r
  calls : r.calls = log.map alarm
  ended : r.ended = false
  serve : serve call log ((r.due now).map Node.val) = serve call [] (((start s).due now).map Node.val)
  waiting : ∀ n ∈ r.due now, n ∈ s.alarmMap.nodes ∧ n.val ∉ r.calls ∧ ¬Gone log n.val
  entries : ∀ t a, (∃ n ∈ r.server.alarmMap.nodes, n.key = t ∧ n.val = a) ↔
    (∃ n ∈ s.alarmMap.nodes, n.key = t ∧ n.val = a ∧ ¬Gone log a ∧ (now < t ∨ n ∈ r.due now)) ∨
      Rearms log t a
  chronological : s.alarmMap.Chronological → r.server.alarmMap.Chronological

section Round

variable {call : List AlarmCB → List AlarmCB × ℤ} {now : ℤ} {s : AlarmServer}
  {log : List AlarmCall} {r : AlarmRound} {n : Node ℤ AlarmCB}

theorem due_start (hs : s.WF) (now : ℤ) :
    (start s).due now = s.alarmMap.nodes.filter fun n => n.key ≤ now := by
  rw [due,ahead,start,Multimap.ahead_first]
  refine List.filter_congr fun n _ => ?_
  simp [hs.skip]

theorem serving_start (hs : s.WF) : Serving call now s [] (start s) := by
  refine ⟨good_start hs,rfl,rfl,rfl,fun n hn => ?_,fun t a => ?_,fun h => h⟩
  · rw [due_start hs] at hn
    exact ⟨List.mem_of_mem_filter hn,by simp [start],by simp [Gone]⟩
  · constructor
    · rintro ⟨n,hn,rfl,rfl⟩
      refine Or.inl ⟨n,hn,rfl,rfl,by simp [Gone],?_⟩
      rw [due_start hs,List.mem_filter,decide_eq_true_eq]
      exact (lt_or_ge now n.key).imp_right fun h => ⟨hn,h⟩
    · rintro (⟨n,hn,ht,ha,_⟩ | ⟨front,c,back,h,_⟩)
      · exact ⟨n,hn,ht,ha⟩
      · simp at h

theorem due_skip (hn : n ∈ r.server.alarmMap.nodes) (hi : r.iterator = some n.token)
    (hs : n.val ∈ r.server.alarmsReregisteredAndShouldBeSkipped) :
    r.due now = due { r with iterator := r.server.alarmMap.next n.token } now := by
  rw [due,ahead_skip hn hi,List.filter_cons_of_neg (by simp [hs])]
  rfl

theorem Serving.skip (hr : Serving call now s log r) (hn : n ∈ r.server.alarmMap.nodes)
    (hi : r.iterator = some n.token)
    (hs : n.val ∈ r.server.alarmsReregisteredAndShouldBeSkipped) :
    Serving call now s log { r with iterator := r.server.alarmMap.next n.token } := by
  have hdue : r.due now = _ := due_skip hn hi hs
  refine ⟨good_skip hr.good hn,hr.calls,hr.ended,?_,?_,?_,hr.chronological⟩
  · rw [← hdue]
    exact hr.serve
  · rw [← hdue]
    exact hr.waiting
  · rw [← hdue]
    exact hr.entries

theorem due_cons (hr : Good r) (hn : n ∈ r.server.alarmMap.nodes) (hi : r.iterator = some n.token)
    (hk : n.key ≤ now) (hs : n.val ∉ r.server.alarmsReregisteredAndShouldBeSkipped) :
    ∃ rest, r.due now = n :: rest ∧ ∀ m ∈ rest, m.val ≠ n.val := by
  obtain ⟨rest,hrest⟩ := Multimap.ahead_cons hn
  have ha : r.ahead = n :: rest := by rw [ahead,hi,hrest]
  refine ⟨_,by rw [due,ha,List.filter_cons_of_pos (by simp [hk,hs])],fun m hm => ?_⟩
  exact ((mem_rest hr.table hn hi ha).mp (List.mem_of_mem_filter hm)).2

/-- The entries after a call: what the call has not taken away, and the alarm itself if
it returned a deadline. -/
theorem Serving.fire_entries (hs : s.WF) (hr : Serving call now s log r) (hk : n.key ≤ now)
    (hns : n ∈ s.alarmMap.nodes) (hcalled : n.val ∉ r.calls) {r' : AlarmRound}
    (hf : Served now r n (call (r.calls ++ [n.val])).1 (call (r.calls ++ [n.val])).2 r')
    (hmem : ∀ m, m ∈ r'.due now ↔
      m ∈ r.due now ∧ m.val ≠ n.val ∧ m.val ∉ (call (r.calls ++ [n.val])).1) (t : ℤ) (a : AlarmCB) :
    (∃ m ∈ r'.server.alarmMap.nodes, m.key = t ∧ m.val = a) ↔
      (∃ m ∈ s.alarmMap.nodes, m.key = t ∧ m.val = a ∧
        ¬Gone (log ++ [⟨n.val,(call (r.calls ++ [n.val])).1,(call (r.calls ++ [n.val])).2⟩]) a ∧
        (now < t ∨ m ∈ r'.due now)) ∨
      Rearms (log ++ [⟨n.val,(call (r.calls ++ [n.val])).1,(call (r.calls ++ [n.val])).2⟩]) t a := by
  constructor
  · rintro ⟨m,hm,rfl,rfl⟩
    rcases (hf.nodes m).mp hm with ⟨hm,hv,ha⟩ | ⟨hpos,rfl⟩
    · rcases (hr.entries m.key m.val).mp ⟨m,hm,rfl,rfl⟩ with ⟨x,hx,hxk,hxv,hg,hl⟩ | h
      · refine Or.inl ⟨x,hx,hxk,hxv,fun h => (gone_append.mp h).elim hg ha,hl.imp_right ?_⟩
        exact fun h => (hmem x).mpr ⟨h,hxv ▸ hv,hxv ▸ ha⟩
      · exact Or.inr (rearms_append.mpr (Or.inr ⟨h,ha⟩))
    · exact Or.inr (rearms_append.mpr (Or.inl ⟨rfl,rfl,hpos⟩))
  · rintro (⟨x,hx,rfl,rfl,hg,hl⟩ | h)
    · rw [gone_append,not_or] at hg
      have hxn : x.val ≠ n.val := by
        intro hv
        rcases hl with hl | hl
        · rw [hs.eq_of_val hx hns hv] at hl
          exact absurd hk (not_le.mpr hl)
        · exact ((hmem x).mp hl).2.1 hv
      obtain ⟨m,hm,hmk,hmv⟩ := (hr.entries x.key x.val).mpr
        (Or.inl ⟨x,hx,rfl,rfl,hg.1,hl.imp_right fun h => ((hmem x).mp h).1⟩)
      exact ⟨m,(hf.nodes m).mpr (Or.inl ⟨hm,hmv ▸ hxn,hmv ▸ hg.2⟩),hmk,hmv⟩
    · rcases rearms_append.mp h with ⟨rfl,rfl,hpos⟩ | ⟨h,ha⟩
      · exact ⟨_,(hf.nodes _).mpr (Or.inr ⟨hpos,rfl⟩),rfl,rfl⟩
      · have hne : a ≠ n.val := by
          rintro rfl
          rw [hr.calls] at hcalled
          exact hcalled h.mem
        obtain ⟨m,hm,hmk,hmv⟩ := (hr.entries t a).mpr (Or.inr h)
        exact ⟨m,(hf.nodes m).mpr (Or.inl ⟨hm,hmv ▸ hne,hmv ▸ ha⟩),hmk,hmv⟩

theorem Serving.fire (hs : s.WF) (hr : Serving call now s log r) (hn : n ∈ r.server.alarmMap.nodes)
    (hi : r.iterator = some n.token) (hk : n.key ≤ now)
    (hskip : n.val ∉ r.server.alarmsReregisteredAndShouldBeSkipped) {r' : AlarmRound}
    (hf : Served now r n (call (r.calls ++ [n.val])).1 (call (r.calls ++ [n.val])).2 r') :
    Serving call now s
      (log ++ [⟨n.val,(call (r.calls ++ [n.val])).1,(call (r.calls ++ [n.val])).2⟩]) r' := by
  obtain ⟨rest,hdue,hrest⟩ := due_cons hr.good hn hi hk hskip
  obtain ⟨hns,hcalled,hgone⟩ := hr.waiting n (by simp [hdue])
  have hmem : ∀ m, m ∈ r'.due now ↔
      m ∈ r.due now ∧ m.val ≠ n.val ∧ m.val ∉ (call (r.calls ++ [n.val])).1 := by
    intro m
    rw [hf.due,List.mem_filter,decide_eq_true_eq]
  constructor
  · exact hf.good
  · rw [hf.calls,hr.calls,List.map_append]
    rfl
  · exact hf.ended
  · have hrest' : r'.due now = rest.filter fun m => m.val ∉ (call (r.calls ++ [n.val])).1 := by
      rw [hf.due,hdue,List.filter_cons_of_neg (by simp)]
      refine List.filter_congr fun m hm => ?_
      simp [hrest m hm]
    have hmap : (r'.due now).map Node.val =
        (rest.map Node.val).filter fun a => a ∉ (call (r.calls ++ [n.val])).1 := by
      rw [hrest',List.filter_map]
      rfl
    rw [← hr.serve,hdue,List.map_cons,AlarmCall.serve,if_neg hgone,← hr.calls,hmap]
    refine serve_filter call _ fun a _ ha => gone_append.mpr (Or.inr ?_)
    simpa using ha
  · intro m hm
    obtain ⟨hm,hv,ha⟩ := (hmem m).mp hm
    obtain ⟨h₁,h₂,h₃⟩ := hr.waiting m hm
    refine ⟨h₁,?_,fun h => (gone_append.mp h).elim h₃ ha⟩
    rw [hf.calls,List.mem_append,List.mem_singleton]
    exact not_or.mpr ⟨h₂,hv⟩
  · exact hr.fire_entries hs hk hns hcalled hf hmem
  · exact fun h => hf.chronological (hr.chronological h)

theorem OnlyUnregisters.step {bodies : AlarmBodies} {unregistered : List AlarmCB → List AlarmCB}
    (hb : OnlyUnregisters bodies unregistered now r) {r₁ : AlarmRound}
    (h : r.step bodies now = .ok r₁) : OnlyUnregisters bodies unregistered now r₁ := by
  intro fuel r' hr'
  apply hb (fuel+1) r'
  rw [callAndReregisterAlarmEvents,h,except_ok_bind,hr']

def Completes (bodies : AlarmBodies) (call : List AlarmCB → List AlarmCB × ℤ) (now : ℤ)
    (s : AlarmServer) (r : AlarmRound) : Prop :=
  ∃ fuel r' log, callAndReregisterAlarmEvents bodies now fuel r =
      .ok { r' with server := r'.server.endAlarms, ended := true } ∧ r'.due now = [] ∧
    Serving call now s log r'

theorem Completes.of_step {bodies : AlarmBodies} {r₁ : AlarmRound}
    (h : Completes bodies call now s r₁) (hr : r.step bodies now = .ok r₁) :
    Completes bodies call now s r := by
  obtain ⟨fuel,r',log,h₁,h₂⟩ := h
  exact ⟨fuel+1,r',log,by rw [callAndReregisterAlarmEvents,hr,except_ok_bind,h₁],h₂⟩

/-- An iteration either fires one of the entries that are due or leaves fewer
entries ahead. -/
theorem Serving.completes {bodies : AlarmBodies} {unregistered : List AlarmCB → List AlarmCB}
    {log : List AlarmCall} {r : AlarmRound} (hs : s.WF)
    (hb : OnlyUnregisters bodies unregistered now r)
    (hr : Serving (fun calls => (unregistered calls,(bodies calls).2)) now s log r) :
    Completes bodies (fun calls => (unregistered calls,(bodies calls).2)) now s r := by
  rcases hr.good.nextAlarm_cases now with ⟨hnext,hlate⟩ | ⟨n,hn,hi,hk,⟨hskip,hnext⟩ | ⟨hskip,hnext⟩⟩
  · refine ⟨1,r,log,by simp [callAndReregisterAlarmEvents,AlarmRound.step,hr.ended,hnext],?_,hr⟩
    refine List.filter_eq_nil_iff.mpr fun m hm => ?_
    simp [not_le.mpr (hlate m hm)]
  · have hstep : r.step bodies now = .ok { r with iterator := r.server.alarmMap.next n.token } := by
      simp [AlarmRound.step,hr.ended,hnext]
    have hahead := congrArg List.length (ahead_skip hn hi)
    have hdue : r.due now = _ := due_skip hn hi hskip
    exact (Serving.completes hs (hb.step hstep) (hr.skip hn hi hskip)).of_step hstep
  · obtain ⟨r₁,hstep,hf⟩ := step_serves hr.good hn hi hr.ended hnext
      (hb 0 r rfl hr.ended n.token n.val hnext)
    obtain ⟨rest,hdue,_⟩ := due_cons hr.good hn hi hk hskip
    have hlength : (r₁.due now).length < (r.due now).length := by
      rw [hf.due,List.length_filter_lt_length_iff_exists]
      exact ⟨n,by simp [hdue],by simp⟩
    exact (Serving.completes hs (hb.step hstep) (hr.fire hs hn hi hk hskip hf)).of_step hstep
termination_by ((r.due now).length,r.ahead.length)
decreasing_by
  · rw [← hdue]
    exact Prod.Lex.right _ (by rw [hahead,List.length_cons]; exact Nat.lt_succ_self _)
  · exact Prod.Lex.left _ _ hlength

end Round

theorem pair_sublist_of_mem {a b : AlarmCB} {calls due : List AlarmCB} (hd : due.Nodup)
    (hc : calls.Sublist due) (ha : a ∈ calls) (hb : b ∈ calls) (hab : [a,b].Sublist due) :
    [a,b].Sublist calls := by
  have hfilter : due.filter (· ∈ calls) = calls := by
    refine (List.Sublist.eq_of_length_le ?_ ?_).symm
    · have h := hc.filter (· ∈ calls)
      rwa [List.filter_eq_self.mpr (by simp)] at h
    · refine (List.subperm_of_subset (hd.filter _) fun x hx => ?_).length_le
      simpa using (List.mem_filter.mp hx).2
  have h := hab.filter (· ∈ calls)
  rwa [hfilter,List.filter_eq_self.mpr (by simp [ha,hb])] at h

/-- Whatever the alarms return and whichever of the others they unregister, a round
ends, after it has called the due alarms in their turn, each once, without those that
were unregistered before; and it leaves the entries that were not due and the alarms
that asked to be called again, again without those that were unregistered. -/
theorem round_serves_due {s : AlarmServer} (hs : s.WF) (now : ℤ) (bodies : AlarmBodies)
    (unregistered : List AlarmCB → List AlarmCB)
    (hb : OnlyUnregisters bodies unregistered now (start s)) :
    ∃ fuel r log, callAndReregisterAlarmEvents bodies now fuel (start s) = .ok r ∧
      r.ended = true ∧
      log = serve (fun calls => (unregistered calls,(bodies calls).2)) []
        ((s.alarmMap.nodes.filter fun n => n.key ≤ now).map Node.val) ∧
      r.calls = log.map alarm ∧ r.calls.Nodup ∧
      (s.alarmMap.Chronological → r.server.alarmMap.Chronological ∧
        ∀ m ∈ s.alarmMap.nodes, ∀ n ∈ s.alarmMap.nodes, m.val ∈ r.calls → n.val ∈ r.calls →
          Node.Before m n → [m.val,n.val].Sublist r.calls) ∧
      (∀ t a, (∃ n ∈ r.server.alarmMap.nodes, n.key = t ∧ n.val = a) ↔
        (∃ n ∈ s.alarmMap.nodes, n.key = t ∧ n.val = a) ∧ now < t ∧ ¬Gone log a ∨
          Rearms log t a) ∧
      r.server.WF := by
  obtain ⟨fuel,r,log,hrun,hdue,hr⟩ := (serving_start hs).completes hs hb
  have hlog := hr.serve
  rw [hdue,due_start hs,List.map_nil,AlarmCall.serve] at hlog
  have hdistinct : ((s.alarmMap.nodes.filter fun n => n.key ≤ now).map Node.val).Nodup :=
    List.pairwise_map.mpr (hs.distinct.filter _)
  have hsub : r.calls.Sublist ((s.alarmMap.nodes.filter fun n => n.key ≤ now).map Node.val) := by
    obtain ⟨served,h₁,h₂⟩ := serve_sublist (fun calls => (unregistered calls,(bodies calls).2)) []
      ((s.alarmMap.nodes.filter fun n => n.key ≤ now).map Node.val)
    rw [hr.calls,hlog,h₁]
    exact h₂
  refine ⟨fuel,_,log,hrun,rfl,hlog,hr.calls,hsub.nodup hdistinct,fun hc => ?_,fun t a => ?_,?_⟩
  · refine ⟨hr.chronological hc,fun m hm n hn hmc hnc hmn => ?_⟩
    have hkey : ∀ x ∈ s.alarmMap.nodes, x.val ∈ r.calls → x.key ≤ now := by
      intro x hx hxc
      obtain ⟨y,hy,hyx⟩ := List.mem_map.mp (hsub.subset hxc)
      rw [List.mem_filter,decide_eq_true_eq] at hy
      rw [← hs.eq_of_val hy.1 hx hyx]
      exact hy.2
    have hpair := ((hc.pair_sublist hm hn hmn).filter fun n => n.key ≤ now).map Node.val
    rw [List.filter_eq_self.mpr (by simp [hkey m hm hmc,hkey n hn hnc])] at hpair
    exact pair_sublist_of_mem hdistinct hsub hmc hnc hpair
  · refine (hr.entries t a).trans (or_congr_left ⟨?_,?_⟩)
    · rintro ⟨n,hn,ht,ha,hg,hl⟩
      exact ⟨⟨n,hn,ht,ha⟩,hl.resolve_right (by simp [hdue]),hg⟩
    · rintro ⟨⟨n,hn,ht,ha⟩,hl,hg⟩
      exact ⟨n,hn,ht,ha,hg,Or.inl hl⟩
  · exact ⟨⟨hr.good.table.distinct,hr.good.table.all⟩,rfl⟩

theorem ended_of_le {bodies : AlarmBodies} {now : ℤ} {a b : ℕ} {r r₁ r₂ : AlarmRound}
    (h₁ : callAndReregisterAlarmEvents bodies now a r = .ok r₁) (he : r₁.ended = true)
    (h₂ : callAndReregisterAlarmEvents bodies now b r = .ok r₂) (hab : a ≤ b) : r₂.ended = true := by
  induction b generalizing a r with
  | zero =>
    obtain rfl : a = 0 := by omega
    rw [h₁] at h₂
    cases h₂
    exact he
  | succ b ih =>
    cases hs : r.step bodies now with
    | error e =>
      rw [callAndReregisterAlarmEvents,hs] at h₂
      cases h₂
    | ok r' =>
      rw [callAndReregisterAlarmEvents,hs,except_ok_bind] at h₂
      cases a with
      | zero =>
        cases h₁
        obtain rfl : r₁ = r' := by simpa [AlarmRound.step,he] using hs
        exact ih rfl h₂ (Nat.zero_le b)
      | succ a =>
        rw [callAndReregisterAlarmEvents,hs,except_ok_bind] at h₁
        exact ih h₁ h₂ (by omega)

/-- Four alarms, of which the first three are due. The first asks to be called again
and unregisters the third; the second asks to be called again at once and
unregisters the first, which by then has a new entry. -/
theorem round_serves_due_four :
    let s : AlarmServer := ⟨(((Multimap.empty.insert 5 1).insert 5 2).insert 7 3).insert 20 4,
      {1,2,3,4},∅⟩
    let bodies : AlarmBodies := fun calls =>
      if calls = [1] then ([.unregisterAlarm 2],30) else ([.unregisterAlarm 4],6)
    s.WF ∧ ∃ fuel r, callAndReregisterAlarmEvents bodies 10 fuel (start s) = .ok r ∧
      r.ended = true ∧ r.calls = [1,2] ∧ r.server.WF := by
  intro s bodies
  have hs : s.WF := by
    refine ⟨⟨by decide,fun a => ?_⟩,rfl⟩
    have hall : s.allAlarms = (s.alarmMap.nodes.map Node.val).toFinset := by decide
    rw [hall]
    simp
  have hb : OnlyUnregisters bodies (fun calls => if calls = [1] then [3] else [1]) 10 (start s) := by
    intro fuel r hr he i cb hnext
    by_cases hfuel : fuel < 4
    · have hcheck : ∀ k < 4, (callAndReregisterAlarmEvents bodies 10 k (start s)).toOption.all
          (fun r => match r.server.nextAlarm 10 r.iterator with
            | .ok (.fire _ cb) => (r.server.beginAlarm cb).unregistrations (bodies (r.calls ++ [cb])).1 =
                some (if r.calls ++ [cb] = [1] then [3] else [1])
            | _ => true) = true := by decide +kernel
      have h := hcheck fuel hfuel
      rw [hr] at h
      simpa [Except.toOption,hnext] using h
    · have hend : (callAndReregisterAlarmEvents bodies 10 4 (start s)).toOption.any
          (fun r => r.ended) = true := by decide +kernel
      cases h : callAndReregisterAlarmEvents bodies 10 4 (start s) with
      | error e => simp [h,Except.toOption] at hend
      | ok r₄ =>
        rw [h] at hend
        rw [ended_of_le h (by simpa [Except.toOption] using hend) hr (by omega)] at he
        cases he
  obtain ⟨fuel,r,log,h₁,h₂,h₃,h₄,_,_,_,h₅⟩ := round_serves_due hs 10 bodies _ hb
  refine ⟨hs,fuel,r,h₁,h₂,?_,h₅⟩
  rw [h₄,h₃]
  decide +kernel

end AlarmRound
end CmuQuic
