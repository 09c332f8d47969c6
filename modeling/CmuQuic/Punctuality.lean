import CmuQuic.EventLoop
import CmuQuic.PollTimeout

/-! When an alarm is called by a loop that does nothing but rounds: never before its
deadline, and after it by no more than what the owner, the callbacks and `epoll_wait` take
beyond what they are asked for, and the millisecond that `epoll_wait` counts in. -/
namespace CmuQuic
namespace EventLoop

def Event.isOwners : Event → Bool
  | .tick _ => true
  | .approximateNowInUsec => true
  | .op _ => true
  | .alarm _ => true
  | _ => false

def timeoutInMs (s : EventLoop) (timeoutInUs : ℤ) : ℤ :=
  s.epoll.server.pollTimeout s.alarms.server timeoutInUs s.nowInUsec

/-- The times of the clock and of the alarms are values of an `int64`. -/
def InRange (s : EventLoop) : Prop :=
  s.nowInUsec < 2^63 ∧ ∀ n ∈ s.alarms.server.alarmMap.nodes, 0 ≤ n.key ∧ n.key < 2^63

instance (s : EventLoop) : Decidable s.InRange := inferInstanceAs (Decidable (_ < _ ∧ _))

/-- One turn of a loop over rounds, which go as the machine says. It is `busy` for at most
so long between two polls, and `epoll_wait` sleeps at most so much longer than it is asked
to. Nobody touches the alarm. -/
inductive Turn (M : Machine EventLoop Event Abort) (timeoutInUs busy lateness : ℤ) (a : AlarmCB)
    (s t : EventLoop) : Prop
  | intro {es fs : List Event} {u v : EventLoop} (owner : machine.Run s es u)
    (owners : ∀ e ∈ es, e.isOwners = true ∧ e.subject ≠ some a) (inRange : u.InRange)
    (starts : u.nowInUsec ≤ s.polledAtInUs+busy)
    (begins : u.waitForEventsAndExecuteCallbacks = .ok v) (run : M.Run v fs t)
    (kept : ∀ e ∈ fs, e.subject ≠ some a) (ends : t.phase = .outside)
    (sleeps : t.polledAtInUs ≤ u.nowInUsec+1000*u.timeoutInMs timeoutInUs+lateness)

variable {s t u : EventLoop} {a : AlarmCB} {x : QuicEpollAlarm} {timeoutInUs busy lateness : ℤ}

/-- The alarm stands between two rounds, and its deadline had not passed at the last poll. -/
structure Pending (a : AlarmCB) (x : QuicEpollAlarm) (s : EventLoop) : Prop where
  ticking : Ticking s
  outside : s.phase = .outside
  armed : s.alarms.alarms a = some x
  ahead : s.polledAtInUs < x.deadline

theorem Pending.owner (h : Pending a x s) {e : Event}
    (howner : e.isOwners = true) (hsub : e.subject ≠ some a) (he : s.admits e)
    (ht : s.step e = .ok t) :
    Pending a x t ∧ t.polledAtInUs = s.polledAtInUs ∧ t.fired = s.fired := by
  have hticking := h.ticking.step he ht
  cases h.ticking.effect he ht with
  | ticks => exact ⟨⟨hticking,h.outside,h.armed,h.ahead⟩,rfl,rfl⟩
  | answers => exact ⟨⟨hticking,h.outside,h.armed,h.ahead⟩,rfl,rfl⟩
  | operates => exact ⟨⟨hticking,h.outside,h.armed,h.ahead⟩,rfl,rfl⟩
  | alarms e c _ hsome hstep =>
    have hsame := hstep.alarms_eq hsome hsub
    exact ⟨⟨hticking,h.outside,hsame.trans h.armed,h.ahead⟩,rfl,rfl⟩
  | polls e b c hpoll => cases e <;> cases hpoll <;> cases howner
  | _ => cases howner

theorem Pending.owners (h : Pending a x s) {es : List Event}
    (hrun : machine.Run s es u) (hes : ∀ e ∈ es, e.isOwners = true ∧ e.subject ≠ some a) :
    Pending a x u ∧ u.polledAtInUs = s.polledAtInUs ∧ u.fired = s.fired := by
  induction hrun with
  | nil s => exact ⟨h,rfl,rfl⟩
  | @cons s v u e es he hst _ ih =>
    obtain ⟨howner,hsub⟩ := hes e (by simp)
    obtain ⟨hv,hpolled,hfired⟩ := h.owner howner hsub he hst
    obtain ⟨hu,hpolled',hfired'⟩ := ih hv fun e he => hes e (by simp [he])
    exact ⟨hu,hpolled'.trans hpolled,hfired'.trans hfired⟩

theorem nextAlarm_le {m : AlarmServer} {n : Node ℤ AlarmCB} (hn : n ∈ m.alarmMap.nodes) :
    ∃ k ∈ m.alarmMap.nodes, m.nextAlarmTimeInUs = some k.key ∧ k.key ≤ n.key := by
  have hsorted := m.alarmMap.sorted
  cases hnodes : m.alarmMap.nodes with
  | nil => simp [hnodes] at hn
  | cons k rest =>
    rw [hnodes] at hn hsorted
    refine ⟨k,by simp,by simp [AlarmServer.nextAlarmTimeInUs,hnodes],?_⟩
    rcases List.mem_cons.mp hn with rfl | hn
    · exact le_rfl
    · exact (List.pairwise_cons.mp hsorted).1 n hn

theorem Pending.sleeps (h : Pending a x s) (hr : x.registered = true) (hrange : s.InRange)
    (htimeout : 0 ≤ timeoutInUs ∧ timeoutInUs < 1000*2^31) :
    s.nowInUsec+1000*s.timeoutInMs timeoutInUs ≤ max s.nowInUsec (x.deadline+999) := by
  obtain ⟨k,hk,hnext,hle⟩ := nextAlarm_le (h.ticking.coherent.entry h.armed hr)
  have hle : k.key ≤ x.deadline := hle
  have hnow : 0 ≤ s.nowInUsec ∧ s.nowInUsec < 2^63 := ⟨h.ticking.clock.le,hrange.1⟩
  cases hready : s.epoll.server.hasReady with
  | true =>
    have hzero : s.timeoutInMs timeoutInUs = 0 := timeoutInMs_of_ready hready _
    omega
  | false =>
    have hlimit : 0 ≤ sleepLimit s.alarms.server timeoutInUs s.nowInUsec ∧
        sleepLimit s.alarms.server timeoutInUs s.nowInUsec ≤ timeoutInUs := by
      simp only [sleepLimit,hnext]
      split_ifs <;> omega
    have hpolls : PollsInTime s.epoll.server s.alarms.server timeoutInUs s.nowInUsec :=
      (pollsInTime_of_alarm hready hnext (hrange.2 k hk) hnow).mpr (by omega)
    obtain ⟨hnonneg,hupper,_,hzero⟩ := hpolls.alarm k.key hnext
    show s.nowInUsec+1000*s.epoll.server.pollTimeout s.alarms.server timeoutInUs s.nowInUsec ≤ _
    by_cases hpast : k.key ≤ s.nowInUsec
    · rw [hzero (Or.inr (Or.inl hpast))]
      omega
    · omega

/-- Where the alarm stands after some turns: it was called in time, or its time has not
come. -/
def Punctual (busy lateness : ℤ) (a : AlarmCB) (x : QuicEpollAlarm) (s t : EventLoop) : Prop :=
  ∃ new, t.fired = s.fired ++ new ∧
    ((∃ τ, (a,τ) ∈ new ∧ x.deadline ≤ τ ∧ τ ≤ x.deadline+max busy 999+lateness) ∨
      (Pending a x t ∧ ∀ τ, (a,τ) ∉ new))

theorem Turn.fired_grows (h : Turn round timeoutInUs busy lateness a s t) : s.fired <+: t.fired := by
  obtain @⟨es,fs,u,v,howner,_,_,_,hstart,hround,_⟩ := h
  have h₁ : s.fired <+: u.fired := howner.invariant (P:=fun v => s.fired <+: v.fired)
    (fun hpre _ hv => hpre.trans (EventLoop.fired_grows hv)) List.prefix_rfl
  refine hround.invariant (P:=fun v => s.fired <+: v.fired)
    (fun hpre _ hv => hpre.trans (EventLoop.fired_grows hv)) ?_
  rw [fired_waitForEvents hstart]
  exact h₁

variable {M : Machine EventLoop Event Abort}

theorem Pending.polled_le (h : Pending a x s) (hr : x.registered = true)
    (htimeout : 0 ≤ timeoutInUs ∧ timeoutInUs < 1000*2^31)
    (hturn : Turn M timeoutInUs busy lateness a s t) :
    t.polledAtInUs ≤ x.deadline+max busy 999+lateness := by
  obtain ⟨howner,howners,hrange,hstarts,_,_,_,_,hsleeps⟩ := hturn
  obtain ⟨hu,_⟩ := h.owners howner howners
  have hasked := hu.sleeps hr hrange htimeout
  have hahead := h.ahead
  omega

theorem Pending.of_awaits (hu : Pending a x u) {v : EventLoop} {fs : List Event}
    (hstart : u.waitForEventsAndExecuteCallbacks = .ok v) (hround : round.Run v fs t)
    (hend : t.phase = .outside) {y : QuicEpollAlarm} (hwait : Awaits a y t) : Pending a y t := by
  obtain rfl : u.startRound = v := Except.ok.inj ((hu.ticking.starts hu.outside).symm.trans hstart)
  exact ⟨(hu.ticking.startRound hu.outside).of_round hround,hend,hwait.armed,hwait.missed hend⟩

theorem Pending.turn (h : Pending a x s) (hr : x.registered = true)
    (htimeout : 0 ≤ timeoutInUs ∧ timeoutInUs < 1000*2^31)
    (hturn : Turn round timeoutInUs busy lateness a s t) : Punctual busy lateness a x s t := by
  have hlate := h.polled_le hr htimeout hturn
  obtain ⟨howner,howners,_,_,hstart,hround,hkept,hends,_⟩ := hturn
  obtain ⟨hu,_,hfired⟩ := h.owners howner howners
  obtain ⟨new,hnew,hcase⟩ := hu.ticking.wholeRound hu.outside hu.armed hr hstart hround hkept
  refine ⟨new,by rw [hnew,hfired],?_⟩
  rcases hcase with ⟨hcall,hdue⟩ | ⟨hwait,hnot⟩
  · exact Or.inl ⟨_,hcall,hdue,hlate⟩
  · exact Or.inr ⟨hu.of_awaits hstart hround hends hwait,hnot⟩

/-- An alarm that is set for a time after the last poll, and that nobody touches, is called
by a loop over rounds at a time between its deadline and the bound, however many turns it
takes and whatever else happens in them; until it is called, its deadline has not passed. -/
theorem alarm_punctual {debug : Bool} {now : ℤ} (hnow : 0 < now) {es : List Event}
    (hrun : machine.Run (init debug now) es s) (hp : s.phase = .outside)
    (hx : s.alarms.alarms a = some x) (hr : x.registered = true)
    (hset : s.polledAtInUs < x.deadline) (htimeout : 0 ≤ timeoutInUs ∧ timeoutInUs < 1000*2^31)
    (hturns : Relation.ReflTransGen (Turn round timeoutInUs busy lateness a) s t) :
    Punctual busy lateness a x s t := by
  have hs : Ticking s := (Ticking.initial hnow).run hrun
  induction hturns with
  | refl => exact ⟨[],by simp,Or.inr ⟨⟨hs,hp,hx,hset⟩,by simp⟩⟩
  | @tail u t _ hturn ih =>
    obtain ⟨new,hnew,hcase⟩ := ih
    rcases hcase with hcalled | ⟨hpending,hnot⟩
    · obtain ⟨more,hmore⟩ := hturn.fired_grows
      refine ⟨new ++ more,by rw [← hmore,hnew,List.append_assoc],Or.inl ?_⟩
      obtain ⟨τ,hτ,hwindow⟩ := hcalled
      exact ⟨τ,by simp [hτ],hwindow⟩
    · obtain ⟨more,hmore,hcase⟩ := hpending.turn hr htimeout hturn
      refine ⟨new ++ more,by rw [hmore,hnew,List.append_assoc],?_⟩
      rcases hcase with ⟨τ,hτ,hwindow⟩ | ⟨hstill,hnot'⟩
      · exact Or.inl ⟨τ,by simp [hτ],hwindow⟩
      · exact Or.inr ⟨hstill,fun τ hτ => (List.mem_append.mp hτ).elim (hnot τ) (hnot' τ)⟩

def turnEnds (M : Machine EventLoop Event Abort) [∀ s e, Decidable (M.admits s e)]
    (timeoutInUs busy lateness : ℤ) (s : EventLoop) (es fs : List Event) (f : EventLoop → Bool) :
    Bool :=
  (machine.exec s es).any fun u => decide (u.InRange ∧ u.nowInUsec ≤ s.polledAtInUs+busy) &&
    match u.waitForEventsAndExecuteCallbacks with
    | .error _ => false
    | .ok v => (M.exec v fs).any fun t =>
      decide (t.phase = .outside ∧
        t.polledAtInUs ≤ u.nowInUsec+1000*u.timeoutInMs timeoutInUs+lateness) && f t

theorem turn_of_turnEnds [∀ s e, Decidable (M.admits s e)] {es fs : List Event}
    {f : EventLoop → Bool} (h : turnEnds M timeoutInUs busy lateness s es fs f = true)
    (hes : ∀ e ∈ es, e.isOwners = true ∧ e.subject ≠ some a) (hfs : ∀ e ∈ fs, e.subject ≠ some a) :
    ∃ t, Turn M timeoutInUs busy lateness a s t ∧ f t = true := by
  obtain ⟨u,hu,h⟩ := machine.exists_run_of_exec_any h
  obtain ⟨hu',h⟩ := Bool.and_eq_true_iff.mp h
  split at h
  · cases h
  rename_i v hstart
  obtain ⟨t,ht,h⟩ := M.exists_run_of_exec_any h
  obtain ⟨ht',hf⟩ := Bool.and_eq_true_iff.mp h
  obtain ⟨hrange,hstarts⟩ := of_decide_eq_true hu'
  obtain ⟨hends,hsleeps⟩ := of_decide_eq_true ht'
  exact ⟨t,⟨hu,hes,hrange,hstarts,hstart,ht,hfs,hends,hsleeps⟩,hf⟩

/-- A poll every fifty milliseconds and an alarm in ninety-five: it is called in the second
turn, which starts a little later than it could and oversleeps by 300 microseconds. -/
theorem alarm_punctual_two_turns : ∃ s t x,
    machine.Run (init true 5000) [.alarm (.create 1),.alarm (.set 1 100000)] s ∧
    s.alarms.alarms 1 = some x ∧ Relation.ReflTransGen (Turn round 50000 10000 500 1) s t ∧
    Punctual 10000 500 1 x s t ∧ t.fired = [(1,100300)] := by
  obtain ⟨s,hs,hrest⟩ : ∃ s, machine.Run (init true 5000) [.alarm (.create 1),.alarm (.set 1 100000)] s ∧
      (decide (s.phase = .outside ∧ s.polledAtInUs = 0 ∧ (s.alarms.alarms 1).any
        (fun x => decide (x.registered = true ∧ 0 < x.deadline)) = true) &&
      turnEnds round 50000 10000 500 s [] [.tick 55200,.epollWaitReturns [],.eventsEnd,.iterate] fun u =>
        turnEnds round 50000 10000 500 u [.tick 56000]
          [.tick 100300,.epollWaitReturns [],.eventsEnd,.iterate,.delegateReturns 0,.iterate] fun t =>
            decide (t.fired = [(1,100300)])) = true :=
    machine.exists_run_of_exec_any (by decide +kernel)
  obtain ⟨hs',hrest⟩ := Bool.and_eq_true_iff.mp hrest
  obtain ⟨hp,hpolled,hx⟩ := of_decide_eq_true hs'
  obtain ⟨x,hx,hr⟩ := (Option.any_eq_true _ _).mp hx
  obtain ⟨hr,hd⟩ := of_decide_eq_true hr
  obtain ⟨u,hu,hrest⟩ := turn_of_turnEnds hrest (a:=1) (by simp) (by simp [Event.subject])
  obtain ⟨t,ht,hfired⟩ := turn_of_turnEnds hrest (a:=1)
    (by simp [Event.subject,Event.isOwners]) (by simp [Event.subject])
  have hturns := (Relation.ReflTransGen.single hu).tail ht
  exact ⟨s,t,x,hs,hx,hturns,alarm_punctual (by decide) hs hp hx hr (by omega) (by decide) hturns,
    of_decide_eq_true hfired⟩

end EventLoop
end CmuQuic
