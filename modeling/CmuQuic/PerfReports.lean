import CmuQuic.Punctuality

/-! The reports of a `QuicServerStream`: an alarm that prints what was received and asks to
be called again a second after the time of the round. -/
namespace CmuQuic
namespace EventLoop

def reportPeriodInUs : ℤ := 1000000

/-- The deadline that `SetupPerformanceAlarm` sets, and that `OnAlarm` returns. -/
def nextReport (s : EventLoop) : ℤ := s.approximateNowInUsec+reportPeriodInUs

/-- What the delegate of the alarm returns, if it is a `QuicServerStream`. -/
def onAlarm (s : EventLoop) (a : AlarmCB) : Event → Prop
  | .delegateReturns d => s.alarms.control.firing = some a → d = s.nextReport
  | _ => True

instance (s : EventLoop) (a : AlarmCB) : (e : Event) → Decidable (s.onAlarm a e)
  | .delegateReturns _ => inferInstanceAs (Decidable (_ = _ → _ = _))
  | .tick _ | .approximateNowInUsec | .waitForEventsAndExecuteCallbacks | .epollWaitReturns _
  | .epollWaitFails _ | .op _ | .alarm _ | .nextReady | .onEventReturns _ | .eventsEnd | .iterate =>
    inferInstanceAs (Decidable True)

def reporting (a : AlarmCB) : Machine EventLoop Event Abort where
  admits s e := round.admits s e ∧ s.onAlarm a e
  step := step

instance (a : AlarmCB) (s : EventLoop) (e : Event) : Decidable ((reporting a).admits s e) :=
  inferInstanceAs (Decidable (round.admits s e ∧ s.onAlarm a e))

def reports (a : AlarmCB) (fired : List (AlarmCB × ℤ)) : List ℤ :=
  fired.filterMap fun e => if e.1 = a then some e.2 else none

@[simp] theorem reports_append (a : AlarmCB) (xs ys : List (AlarmCB × ℤ)) :
    reports a (xs ++ ys) = reports a xs ++ reports a ys := List.filterMap_append

theorem reports_singleton (a : AlarmCB) (τ : ℤ) : reports a [(a,τ)] = [τ] := by simp [reports]

theorem reports_nil {a : AlarmCB} {fired : List (AlarmCB × ℤ)} (h : ∀ τ, (a,τ) ∉ fired) :
    reports a fired = [] := by
  refine List.filterMap_eq_nil_iff.mpr fun e he => if_neg ?_
  rintro rfl
  exact h e.2 he

variable {s t u : EventLoop} {a : AlarmCB} {x : QuicEpollAlarm} {timeoutInUs busy lateness : ℤ}

theorem Calling.nextReport_eq (h : Calling a s) (hs : Ticking s) :
    s.nextReport = s.polledAtInUs+reportPeriodInUs := by
  have hne := (hs.recorded (by simp [h.phase,WaitPhase.inRound])).1.ne'
  rw [nextReport,approximateNowInUsec,if_pos hne,h.polled]

theorem Calling.step (h : Calling a s) (hs : Ticking s) {e : Event} (he : (reporting a).admits s e)
    (hsub : e.subject ≠ some a) (ht : s.step e = .ok t) : t.fired = s.fired ∧
      t.polledAtInUs = s.polledAtInUs ∧ (Calling a t ∨ (t.phase = .alarms ∧ ∃ y,
        y.registered = true ∧ y.deadline = s.polledAtInUs+reportPeriodInUs ∧ Awaits a y t)) := by
  have hfiring := h.firing
  obtain ⟨⟨he,hp⟩,hreturn⟩ := he
  cases hs.effect he ht with
  | starts hout => exact absurd hout hp
  | polls e b c _ hb => simp [h.phase] at hb
  | skips hb => simp [h.phase] at hb
  | begins hb => simp [h.phase] at hb
  | ends i _ hctl => simp [hctl,AlarmControl.firing] at hfiring
  | fires n x _ hctl => simp [hctl,AlarmControl.firing] at hfiring
  | alarms e c _ hsome hstep =>
    have hctl := hstep.control_eq hsome
    have hsame := hstep.alarms_eq hsome hsub
    exact ⟨rfl,rfl,Or.inl ⟨h.phase,hctl ▸ h.firing,hsame ▸ h.unarmed,h.polled⟩⟩
  | returns d c _ _ hstep =>
    obtain rfl := hreturn h.firing
    have hdeadline := h.nextReport_eq hs
    have hrec := (hs.recorded (by simp [h.phase,WaitPhase.inRound])).1
    have hpolled := h.polled
    obtain ⟨y,hy,hzero⟩ := h.unarmed
    refine ⟨rfl,rfl,Or.inr ⟨h.phase,?_⟩⟩
    cases hstep with
    | returns now i b z d hctl hz hor =>
      obtain rfl : b = a := by simpa [hctl,AlarmControl.firing] using hfiring
      obtain rfl : y = z := Option.some.inj (hy.symm.trans hz)
      have hd : s.nextReport = 0 := hor.resolve_left (fun hne => hne hzero)
      simp only [reportPeriodInUs] at hdeadline
      omega
    | rearms now i b z d hctl hz hz₀ hd =>
      obtain rfl : b = a := by simpa [hctl,AlarmControl.firing] using hfiring
      refine ⟨⟨s.nextReport,true,s.alarms.server.alarmMap.nextToken⟩,rfl,hdeadline,
        by simp [AlarmConfig.erased,AlarmConfig.armedAt],by simp [AlarmConfig.erased,AlarmControl.firing],
        ?_,fun _ => hpolled,fun _ hle => ?_,fun hout => ?_⟩
      · rintro v (hv | hv) <;> simp [h.phase] at hv
      · have hle : s.nextReport ≤ s.recordedNowInUs := hle
        simp only [reportPeriodInUs] at hdeadline
        omega
      · have hout : s.phase = .outside := hout
        simp [h.phase] at hout
  | _ => exact ⟨rfl,rfl,Or.inl ⟨h.phase,h.firing,h.unarmed,h.polled⟩⟩

theorem round_of_reporting {fs : List Event} (h : (reporting a).Run s fs t) : round.Run s fs t :=
  h.weaken (fun he => he.1) rfl

theorem Calling.run {fs : List Event} (hrun : (reporting a).Run s fs t) (h : Calling a s)
    (hs : Ticking s) (hkept : ∀ e ∈ fs, e.subject ≠ some a) (hend : t.phase = .outside) :
    t.polledAtInUs = s.polledAtInUs ∧ (∃ y, y.registered = true ∧
      y.deadline = t.polledAtInUs+reportPeriodInUs ∧ Awaits a y t) ∧
    ∃ new, t.fired = s.fired ++ new ∧ reports a new = [] := by
  induction hrun with
  | nil s =>
    rw [h.phase] at hend
    cases hend
  | @cons s u t e fs he hst hrest ih =>
    have hu : Ticking u := hs.step he.1.1 hst
    have hkept' : ∀ e ∈ fs, e.subject ≠ some a := fun e he => hkept e (by simp [he])
    obtain ⟨hfired,hpolled,hcase⟩ := h.step hs he (hkept e (by simp)) hst
    rcases hcase with hcalling | ⟨hphase,y,hr,hy,hwait⟩
    · obtain ⟨hpolled',hnext,new,hnew,hnone⟩ := ih hcalling hu hkept' hend
      exact ⟨hpolled'.trans hpolled,hnext,new,by rw [hnew,hfired],hnone⟩
    · have hpolled' := (hu.polledAt_of_round hphase (round_of_reporting hrest)).trans hpolled
      obtain ⟨new,hnew,hcase⟩ := hwait.round hr (round_of_reporting hrest) hu hkept'
      rcases hcase with ⟨_,hdue⟩ | ⟨hwait',hnot⟩
      · -- the next report is a second away
        simp only [reportPeriodInUs] at hy
        omega
      · exact ⟨hpolled',⟨y,hr,by rw [hy,hpolled'],hwait'⟩,new,by rw [hnew,hfired],reports_nil hnot⟩

/-- What a round does to the reports: one at the time of the round, and the next a second
later, or none. -/
theorem Awaits.reportingRound {fs : List Event} (hrun : (reporting a).Run s fs t)
    (h : Awaits a x s) (hs : Ticking s) (hr : x.registered = true)
    (hkept : ∀ e ∈ fs, e.subject ≠ some a) (hend : t.phase = .outside) :
    ∃ new, t.fired = s.fired ++ new ∧
      ((reports a new = [t.polledAtInUs] ∧ x.deadline ≤ t.polledAtInUs ∧ ∃ y, y.registered = true ∧
          y.deadline = t.polledAtInUs+reportPeriodInUs ∧ Awaits a y t) ∨
        (reports a new = [] ∧ Awaits a x t)) := by
  induction hrun with
  | nil s => exact ⟨[],by simp,Or.inr ⟨rfl,h⟩⟩
  | @cons s u t e fs he hst hrest ih =>
    have hu : Ticking u := hs.step he.1.1 hst
    have hkept' : ∀ e ∈ fs, e.subject ≠ some a := fun e he => hkept e (by simp [he])
    obtain ⟨new,hnew,hcase⟩ := h.step hs hr he.1.1 he.1.2 (hkept e (by simp)) hst
    rcases hcase with ⟨rfl,hdue,hcalling,hpolled⟩ | ⟨hwait,hnot⟩
    · obtain ⟨hpolled',hnext,more,hmore,hnone⟩ := hcalling.run hrest hu hkept' hend
      have htime : s.polledAtInUs = t.polledAtInUs := (hpolled'.trans hpolled).symm
      refine ⟨[(a,s.polledAtInUs)] ++ more,by rw [hmore,hnew,List.append_assoc],Or.inl ?_⟩
      rw [reports_append,hnone,reports_singleton,List.append_nil,htime]
      exact ⟨rfl,htime ▸ hdue,hnext⟩
    · obtain ⟨more,hmore,hcase⟩ := ih hwait hu hkept' hend
      refine ⟨new ++ more,by rw [hmore,hnew,List.append_assoc],?_⟩
      rw [reports_append,reports_nil hnot,List.nil_append]
      exact hcase

theorem Pending.reportingTurn (h : Pending a x s) (hr : x.registered = true)
    (htimeout : 0 ≤ timeoutInUs ∧ timeoutInUs < 1000*2^31)
    (hturn : Turn (reporting a) timeoutInUs busy lateness a s t) :
    ∃ new, t.fired = s.fired ++ new ∧
      ((∃ τ y, reports a new = [τ] ∧ x.deadline ≤ τ ∧ τ ≤ x.deadline+max busy 999+lateness ∧
          y.registered = true ∧ y.deadline = τ+reportPeriodInUs ∧ Pending a y t) ∨
        (reports a new = [] ∧ Pending a x t)) := by
  have hlate := h.polled_le hr htimeout hturn
  obtain @⟨_,_,u,v,howner,howners,_,_,hstart,hrun,hkept,hends,_⟩ := hturn
  obtain ⟨hu,_,hfired⟩ := h.owners howner howners
  have hround := round_of_reporting hrun
  obtain rfl : u.startRound = v := Except.ok.inj ((hu.ticking.starts hu.outside).symm.trans hstart)
  obtain ⟨new,hnew,hcase⟩ := (Awaits.start hu.ticking hu.outside hu.armed hr).reportingRound hrun
    (hu.ticking.startRound hu.outside) hr hkept hends
  refine ⟨new,by rw [hnew,fired_waitForEvents hstart,hfired],?_⟩
  rcases hcase with ⟨hone,hdue,y,hy,hdeadline,hwait⟩ | ⟨hnone,hwait⟩
  · exact Or.inl ⟨_,y,hone,hdue,hlate,hy,hdeadline,hu.of_awaits hstart hround hends hwait⟩
  · exact Or.inr ⟨hnone,hu.of_awaits hstart hround hends hwait⟩

def setupPerformanceAlarm (s : EventLoop) (a : AlarmCB) : List Event :=
  [.alarm (.create a),.alarm (.set a s.nextReport)]

/-- The time of the last poll is the time of the round, and it has passed. -/
structure Polled (s : EventLoop) : Prop where
  ticking : Ticking s
  recorded : s.phase.inRound = true → s.polledAtInUs = s.recordedNowInUs
  passed : s.polledAtInUs ≤ s.nowInUsec

theorem Polled.step {e : Event} (h : Polled s) (he : s.admits e) (ht : s.step e = .ok t) :
    Polled t := by
  have hticking := h.ticking.step he ht
  cases h.ticking.effect he ht with
  | ticks now hle => exact ⟨hticking,h.recorded,h.passed.trans hle⟩
  | starts => exact ⟨hticking,(fun hp => by cases hp),h.passed⟩
  | polls => exact ⟨hticking,fun _ => rfl,le_rfl⟩
  | skips => exact ⟨hticking,(fun hp => by cases hp),h.passed⟩
  | begins hb => exact ⟨hticking,fun _ => h.recorded (by simp [hb,WaitPhase.inRound]),h.passed⟩
  | ends => exact ⟨hticking,(fun hp => by cases hp),h.passed⟩
  | _ => exact ⟨hticking,h.recorded,h.passed⟩

theorem Polled.of_run {debug : Bool} {now : ℤ} (hnow : 0 < now) {es : List Event}
    (hrun : machine.Run (init debug now) es s) : Polled s :=
  hrun.invariant (P:=Polled) (fun h he ht => h.step he ht)
    ⟨.initial hnow,(fun hp => by cases hp),hnow.le⟩

theorem Polled.le_approximate (h : Polled s) : s.polledAtInUs ≤ s.approximateNowInUsec := by
  unfold approximateNowInUsec
  split_ifs with hne
  · cases hp : s.phase.inRound with
    | false => exact absurd (h.ticking.unrecorded hp) hne
    | true => exact (h.recorded hp).le
  · exact h.passed

structure Early (a : AlarmCB) (x : QuicEpollAlarm) (s : EventLoop) : Prop where
  polled : Polled s
  polling : ∀ b, s.phase ≠ .waiting b
  armed : s.alarms.alarms a = some x
  silent : s.alarms.control.firing ≠ some a
  early : s.polledAtInUs < x.deadline

theorem Early.step (h : Early a x s) {e : Event} (he : s.admits e) (hp : s.phase ≠ .outside)
    (hsub : e.subject ≠ some a) (ht : s.step e = .ok t) :
    Early a x t ∧ ∃ new, t.fired = s.fired ++ new ∧ ∀ τ, (a,τ) ∉ new := by
  have hs := h.polled.ticking
  rcases hs.clock_of_step he hp ht with ⟨⟨b,hb⟩,_⟩ | ⟨hpolledAt,hwaiting⟩
  · exact absurd hb (h.polling b)
  rcases hs.alarm_of_step he hsub (fun _ _ => h.silent) ht with hkept | ⟨_,hphase,hdue,_⟩
  · refine ⟨⟨h.polled.step he ht,?_,hkept.same ▸ h.armed,?_,hpolledAt ▸ h.early⟩,hkept.fired⟩
    · exact fun b hb => h.polling b ((hwaiting b).mp hb)
    · exact fun hf => h.silent (hkept.firing.mpr hf)
  · -- the alarm is not due in this round
    have hrec := h.polled.recorded (by simp [hphase,WaitPhase.inRound])
    exact absurd (hdue x h.armed) (not_le.mpr (hrec ▸ h.early))

theorem Early.round {fs : List Event} (hround : round.Run s fs t) (h : Early a x s)
    (hkept : ∀ e ∈ fs, e.subject ≠ some a) :
    Early a x t ∧ ∃ new, t.fired = s.fired ++ new ∧ reports a new = [] := by
  induction hround with
  | nil s => exact ⟨h,[],by simp,rfl⟩
  | @cons s u t e fs he hst _ ih =>
    obtain ⟨hu,new,hnew,hnot⟩ := h.step he.1 he.2 (hkept e (by simp)) hst
    obtain ⟨ht,more,hmore,hnone⟩ := ih hu fun e he => hkept e (by simp [he])
    refine ⟨ht,new ++ more,by rw [hmore,hnew,List.append_assoc],?_⟩
    rw [reports_append,reports_nil hnot,hnone,List.nil_append]

theorem Early.setup (h : Polled s) (hrun : machine.Run s (s.setupPerformanceAlarm a) t) :
    t.fired = s.fired ∧ ∃ x, x.registered = true ∧
      x.deadline = s.approximateNowInUsec+reportPeriodInUs ∧ Early a x t := by
  cases hrun with | cons he hu hrest =>
  cases hrest with | cons he' hv hrest =>
  cases hrest
  have hpolled' := h.step (e:=.alarm (.create a)) he hu
  have hpolled := hpolled'.step (e:=.alarm (.set a s.nextReport)) he' hv
  have hle := h.le_approximate
  obtain ⟨c,hc,hu⟩ := except_bind_eq_ok hu
  cases hu
  obtain ⟨d,hd,hv⟩ := except_bind_eq_ok hv
  cases hv
  obtain ⟨hrunning,_,hadm⟩ := he
  obtain ⟨hstep,_⟩ := h.ticking.coherent.of_step (e:=.create a) hadm hc
  obtain ⟨hstep',_⟩ := hpolled'.ticking.coherent.of_step (e:=.set a s.nextReport) he'.2.2 hd
  cases hstep with
  | create _ hfresh =>
    cases hstep' with
    | set _ y _ hy hz hne =>
      have hsilent : s.alarms.control.firing ≠ some a := fun hf => by
        cases hctl : s.alarms.control with
        | onAlarm now i b =>
          obtain rfl : b = a := by simpa [hctl,AlarmControl.firing] using hf
          obtain ⟨z,_,hz,_⟩ := h.ticking.coherent.firing hctl
          simp [hfresh] at hz
        | _ => simp [hctl,AlarmControl.firing] at hf
      refine ⟨rfl,⟨s.nextReport,true,s.alarms.server.alarmMap.nextToken⟩,rfl,rfl,hpolled,
        fun b hb => ?_,by simp [AlarmConfig.armedAt,AlarmConfig.write],hsilent,?_⟩
      · have hb : s.phase = .waiting b := hb
        simp [running,hb] at hrunning
      · show s.polledAtInUs < s.nextReport
        simp only [nextReport,reportPeriodInUs]
        omega

def Spaced (busy lateness τ τ' : ℤ) : Prop :=
  τ+reportPeriodInUs ≤ τ' ∧ τ' ≤ τ+reportPeriodInUs+max busy 999+lateness

/-- The reports so far, since the stream was made, and the one that is due next. -/
def Steady (busy lateness : ℤ) (a : AlarmCB) (s t : EventLoop) : Prop :=
  ∃ new last, t.fired = s.fired ++ new ∧
    (s.approximateNowInUsec :: reports a new).IsChain (Spaced busy lateness) ∧
    (s.approximateNowInUsec :: reports a new).getLast? = some last ∧
    t.polledAtInUs < last+reportPeriodInUs

structure Due (busy lateness τ₀ : ℤ) (a : AlarmCB) (reports : List ℤ) (s : EventLoop) : Prop where
  chain : (τ₀ :: reports).IsChain (Spaced busy lateness)
  next : ∃ last y, (τ₀ :: reports).getLast? = some last ∧ y.registered = true ∧
    y.deadline = last+reportPeriodInUs ∧ Pending a y s

theorem Due.turn {τ₀ : ℤ} {past : List ℤ} (h : Due busy lateness τ₀ a past s)
    (htimeout : 0 ≤ timeoutInUs ∧ timeoutInUs < 1000*2^31)
    (hturn : Turn (reporting a) timeoutInUs busy lateness a s t) :
    ∃ new, t.fired = s.fired ++ new ∧ Due busy lateness τ₀ a (past ++ reports a new) t := by
  obtain ⟨last,y,hlast,hy,hdeadline,hpending⟩ := h.next
  obtain ⟨new,hnew,hcase⟩ := hpending.reportingTurn hy htimeout hturn
  refine ⟨new,hnew,?_⟩
  rcases hcase with ⟨τ,z,hone,hdue,hlate,hz,hnext,hpending'⟩ | ⟨hnone,hpending'⟩
  · rw [hone]
    refine ⟨h.chain.append (List.isChain_singleton τ) ?_,τ,z,
      List.getLast?_concat (l:=τ₀ :: past),hz,hnext,hpending'⟩
    intro v hv w hw
    obtain rfl : last = v := Option.some.inj (hlast.symm.trans hv)
    obtain rfl : τ = w := by simpa using hw
    exact ⟨by omega,by omega⟩
  · rw [hnone,List.append_nil]
    exact ⟨h.chain,last,y,hlast,hy,hdeadline,hpending'⟩

theorem Due.turns {τ₀ : ℤ} {past : List ℤ} (h : Due busy lateness τ₀ a past s)
    (htimeout : 0 ≤ timeoutInUs ∧ timeoutInUs < 1000*2^31)
    (hturns : Relation.ReflTransGen (Turn (reporting a) timeoutInUs busy lateness a) s t) :
    ∃ new, t.fired = s.fired ++ new ∧ Due busy lateness τ₀ a (past ++ reports a new) t := by
  induction hturns with
  | refl => exact ⟨[],by simp,by simpa [reports] using h⟩
  | @tail u t _ hturn ih =>
    obtain ⟨new,hnew,hdue⟩ := ih
    obtain ⟨more,hmore,hdue'⟩ := hdue.turn htimeout hturn
    refine ⟨new ++ more,by rw [hmore,hnew,List.append_assoc],?_⟩
    rw [reports_append,← List.append_assoc]
    exact hdue'

/-- A stream that calls `SetupPerformanceAlarm`, in a callback or outside of a round, reports
steadily from then on in a loop over rounds, until somebody touches its alarm. -/
theorem reports_steady {debug : Bool} {now : ℤ} (hnow : 0 < now) {es fs : List Event} {r : EventLoop}
    (hrun : machine.Run (init debug now) es s) (hsetup : machine.Run s (s.setupPerformanceAlarm a) r)
    (hrest : round.Run r fs u) (hkept : ∀ e ∈ fs, e.subject ≠ some a) (hend : u.phase = .outside)
    (htimeout : 0 ≤ timeoutInUs ∧ timeoutInUs < 1000*2^31)
    (hturns : Relation.ReflTransGen (Turn (reporting a) timeoutInUs busy lateness a) u t) :
    Steady busy lateness a s t := by
  obtain ⟨hsame,x,hr,hdeadline,hearly⟩ := Early.setup (Polled.of_run hnow hrun) hsetup
  obtain ⟨hend',new,hnew,hnone⟩ := hearly.round hrest hkept
  have hdue : Due busy lateness s.approximateNowInUsec a (reports a new) u := by
    rw [hnone]
    exact ⟨List.isChain_singleton _,_,x,rfl,hr,hdeadline,
      ⟨hend'.polled.ticking,hend,hend'.armed,hend'.early⟩⟩
  obtain ⟨more,hmore,hchain,last,y,hlast,_,hnext,hpending⟩ := hdue.turns htimeout hturns
  refine ⟨new ++ more,last,by rw [hmore,hnew,hsame,List.append_assoc],?_⟩
  rw [reports_append]
  exact ⟨hchain,hlast,hnext ▸ hpending.ahead⟩

/-- The stream is made in a descriptor callback, in a round that had no alarms when it
started. It reports twice; the second time, the poll before it starts late. -/
theorem reports_steady_twice : ∃ s r u t, machine.Run (init true 5000)
      [.op (.registerFD 3 7 epollIn),.waitForEventsAndExecuteCallbacks,.tick 6000,
        .epollWaitReturns [(3,epollIn)],.nextReady,.tick 7000] s ∧
    machine.Run s (s.setupPerformanceAlarm 1) r ∧
    round.Run r [.onEventReturns 0,.nextReady,.eventsEnd] u ∧
    Relation.ReflTransGen (Turn (reporting 1) 2000000 10000 500 1) u t ∧
    Steady 10000 500 1 s t ∧ t.fired = [(1,1006300),(1,2016000)] := by
  obtain ⟨s,hs,hrest⟩ : ∃ s, machine.Run (init true 5000)
      [.op (.registerFD 3 7 epollIn),.waitForEventsAndExecuteCallbacks,.tick 6000,
        .epollWaitReturns [(3,epollIn)],.nextReady,.tick 7000] s ∧
      ((machine.exec s (s.setupPerformanceAlarm 1)).any fun r =>
        (round.exec r [.onEventReturns 0,.nextReady,.eventsEnd]).any fun u =>
          decide (u.phase = .outside) &&
          turnEnds (reporting 1) 2000000 10000 500 u [.tick 8000] [.tick 1006300,
            .epollWaitReturns [],.eventsEnd,.iterate,.delegateReturns 2006300,.iterate] fun v =>
          turnEnds (reporting 1) 2000000 10000 500 v [] [.tick 2006000,.epollWaitReturns [(3,epollIn)],
            .nextReady,.onEventReturns 0,.nextReady,.eventsEnd,.iterate] fun w =>
          turnEnds (reporting 1) 2000000 10000 500 w [.tick 2016000] [.epollWaitReturns [],
            .eventsEnd,.iterate,.delegateReturns 3016000,.iterate] fun t =>
              decide (t.fired = [(1,1006300),(1,2016000)])) = true :=
    machine.exists_run_of_exec_any (by decide +kernel)
  obtain ⟨r,hr,hrest⟩ := machine.exists_run_of_exec_any hrest
  obtain ⟨u,hu,hrest⟩ := round.exists_run_of_exec_any hrest
  obtain ⟨hend,hrest⟩ := Bool.and_eq_true_iff.mp hrest
  obtain ⟨v,hv,hrest⟩ := turn_of_turnEnds hrest (a:=1) (by simp [Event.subject,Event.isOwners])
    (by simp [Event.subject])
  obtain ⟨w,hw,hrest⟩ := turn_of_turnEnds hrest (a:=1) (by simp) (by simp [Event.subject])
  obtain ⟨t,ht,hfired⟩ := turn_of_turnEnds hrest (a:=1) (by simp [Event.subject,Event.isOwners])
    (by simp [Event.subject])
  have hturns := ((Relation.ReflTransGen.single hv).tail hw).tail ht
  exact ⟨s,r,u,t,hs,hr,hu,hturns,reports_steady (by decide) hs hr hu (by simp [Event.subject])
    (of_decide_eq_true hend) (by decide) hturns,of_decide_eq_true hfired⟩

end EventLoop
end CmuQuic
