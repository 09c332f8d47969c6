import CmuQuic.Alarms

/-! The timeout of `epoll_wait` that one `WaitForEventsAndExecuteCallbacks` comes to,
from the first alarm, the configured timeout and the ready list. Microseconds are
`int64`, the milliseconds that are handed over are an `int`. -/
namespace CmuQuic

def toInt64 (n : ℤ) : ℤ := n.bmod (2^64)

def toInt (n : ℤ) : ℤ := n.bmod (2^32)

def AlarmServer.nextAlarmTimeInUs (a : AlarmServer) : Option ℤ := a.alarmMap.nodes.head?.map Node.key

/-- What `WaitForEventsAndExecuteCallbacks` waits for: without an alarm the configured
timeout, with one the time until the alarm if that is sooner. -/
def AlarmServer.waitTimeInUs (a : AlarmServer) (timeoutInUs nowInUs : ℤ) : ℤ :=
  match a.nextAlarmTimeInUs with
  | none => timeoutInUs
  | some nextAlarmTimeInUs =>
    let alarmTimeoutInUs := toInt64 (nextAlarmTimeInUs-nowInUs)
    if alarmTimeoutInUs < timeoutInUs ∨ timeoutInUs < 0 then max alarmTimeoutInUs 0 else timeoutInUs

namespace EpollServer

def hasReady (s : EpollServer) : Bool := (s.links.lhFirst .readyList).isSome

/-- The argument of `epoll_wait_impl` in `WaitForEventsAndCallHandleEvents`. -/
def timeoutInMs (s : EpollServer) (timeoutInUs : ℤ) : ℤ :=
  let timeoutInUs :=
    if timeoutInUs = 0 ∨ s.hasReady then 0
    else if timeoutInUs < 0 then -1000
    else if timeoutInUs < 1000 then 1000 else timeoutInUs
  toInt (timeoutInUs.tdiv 1000)

def pollTimeout (s : EpollServer) (a : AlarmServer) (timeoutInUs nowInUs : ℤ) : ℤ :=
  s.timeoutInMs (a.waitTimeInUs timeoutInUs nowInUs)

end EpollServer

/-- The poll does not sleep past the first alarm or the timeout, and without an alarm it
sleeps for ever exactly if it is asked to. -/
structure PollsInTime (s : EpollServer) (a : AlarmServer) (timeoutInUs nowInUs : ℤ) : Prop where
  alarm : ∀ t, a.nextAlarmTimeInUs = some t →
    0 ≤ s.pollTimeout a timeoutInUs nowInUs ∧
    s.pollTimeout a timeoutInUs nowInUs ≤ max 1 (max 0 (t-nowInUs)/1000) ∧
    (0 < timeoutInUs → s.pollTimeout a timeoutInUs nowInUs ≤ max 1 (timeoutInUs/1000)) ∧
    (s.hasReady = true ∨ t ≤ nowInUs ∨ timeoutInUs = 0 → s.pollTimeout a timeoutInUs nowInUs = 0)
  noAlarm : a.nextAlarmTimeInUs = none →
    (s.pollTimeout a timeoutInUs nowInUs < 0 ↔ timeoutInUs < 0 ∧ s.hasReady = false)

/-- How long a poll may sleep: until the first alarm, and no longer than a timeout that
is not negative. -/
def sleepLimit (a : AlarmServer) (timeoutInUs nowInUs : ℤ) : ℤ :=
  match a.nextAlarmTimeInUs with
  | none => max 0 timeoutInUs
  | some t => if timeoutInUs < 0 then max 0 (t-nowInUs) else max 0 (min (t-nowInUs) timeoutInUs)

theorem toInt64_of_range {n : ℤ} (h₁ : -2^63 ≤ n) (h₂ : n < 2^63) : toInt64 n = n := by
  rw [toInt64,Int.bmod_eq_of_le] <;> omega

theorem toInt_of_nonneg {n : ℤ} (h : 0 ≤ n) :
    (n%2^32 < 2^31 → toInt n = n%2^32 ∧ toInt n ≤ n) ∧ (2^31 ≤ n%2^32 → toInt n < 0) := by
  simp only [toInt,Int.bmod]
  split_ifs <;> omega

variable {s : EpollServer} {a : AlarmServer} {timeoutInUs nowInUs : ℤ}

theorem waitTime_of_alarm {t : ℤ} (ha : a.nextAlarmTimeInUs = some t) (ht : 0 ≤ t ∧ t < 2^63)
    (hn : 0 ≤ nowInUs ∧ nowInUs < 2^63) :
    a.waitTimeInUs timeoutInUs nowInUs = sleepLimit a timeoutInUs nowInUs := by
  have hdiff : toInt64 (t-nowInUs) = t-nowInUs := toInt64_of_range (by omega) (by omega)
  simp only [AlarmServer.waitTimeInUs,sleepLimit,ha,hdiff]
  split_ifs <;> omega

theorem waitTime_of_noAlarm (ha : a.nextAlarmTimeInUs = none) :
    a.waitTimeInUs timeoutInUs nowInUs = timeoutInUs ∧
      sleepLimit a timeoutInUs nowInUs = max 0 timeoutInUs := by
  simp [AlarmServer.waitTimeInUs,sleepLimit,ha]

theorem timeoutInMs_of_ready (h : s.hasReady = true) (w : ℤ) : s.timeoutInMs w = 0 := by
  simp [EpollServer.timeoutInMs,h,toInt]

theorem timeoutInMs_of_neg (h : s.hasReady = false) {w : ℤ} (hw : w < 0) : s.timeoutInMs w = -1 := by
  have hne : ¬ w = 0 := by omega
  simp [EpollServer.timeoutInMs,h,hw,hne,toInt]

theorem timeoutInMs_of_nonneg (h : s.hasReady = false) {w : ℤ} (hw : 0 ≤ w) :
    s.timeoutInMs w = if w = 0 then 0 else toInt (max 1 (w/1000)) := by
  have hneg : ¬ w < 0 := by omega
  simp only [EpollServer.timeoutInMs,h,Bool.false_eq_true,or_false]
  split_ifs with h₀ h₁
  · simp [toInt]
  · have hq : max 1 (w/1000) = 1 := by omega
    rw [hq]
    rfl
  · rw [Int.tdiv_eq_ediv_of_nonneg hw]
    have hq : max 1 (w/1000) = w/1000 := by omega
    rw [hq]

theorem timeoutInMs_bounds (h : s.hasReady = false) {w : ℤ} (hw : 0 ≤ w)
    (hfits : w/1000%2^32 < 2^31) : 0 ≤ s.timeoutInMs w ∧ s.timeoutInMs w ≤ max 1 (w/1000) ∧
      (w = 0 → s.timeoutInMs w = 0) := by
  rw [timeoutInMs_of_nonneg h hw]
  split_ifs with h₀
  · omega
  · have hq : max 1 (w/1000)%2^32 < 2^31 := by omega
    obtain ⟨h₁,h₂⟩ := (toInt_of_nonneg (by omega)).1 hq
    omega

theorem timeoutInMs_wraps (h : s.hasReady = false) {w : ℤ} (hw : 0 ≤ w)
    (hwraps : 2^31 ≤ w/1000%2^32) : s.timeoutInMs w < 0 := by
  have hbig : 1 ≤ w/1000 := by omega
  have h₀ : ¬ w = 0 := by omega
  rw [timeoutInMs_of_nonneg h hw,if_neg h₀]
  refine (toInt_of_nonneg (by omega)).2 ?_
  rw [max_eq_right hbig]
  exact hwraps

theorem pollsInTime_of_alarm (hr : s.hasReady = false) {t : ℤ} (ht : a.nextAlarmTimeInUs = some t)
    (ha : 0 ≤ t ∧ t < 2^63) (hn : 0 ≤ nowInUs ∧ nowInUs < 2^63) :
    PollsInTime s a timeoutInUs nowInUs ↔ sleepLimit a timeoutInUs nowInUs/1000%2^32 < 2^31 := by
  have hwait : a.waitTimeInUs timeoutInUs nowInUs = sleepLimit a timeoutInUs nowInUs :=
    waitTime_of_alarm ht ha hn
  have hpoll : s.pollTimeout a timeoutInUs nowInUs =
      s.timeoutInMs (sleepLimit a timeoutInUs nowInUs) := by
    rw [EpollServer.pollTimeout,hwait]
  have hlimit : 0 ≤ sleepLimit a timeoutInUs nowInUs ∧
      sleepLimit a timeoutInUs nowInUs ≤ max 0 (t-nowInUs) ∧
      (0 ≤ timeoutInUs → sleepLimit a timeoutInUs nowInUs ≤ timeoutInUs) := by
    simp only [sleepLimit,ht]
    split_ifs <;> omega
  generalize sleepLimit a timeoutInUs nowInUs = w at hpoll hlimit ⊢
  constructor
  · intro h
    by_contra hwraps
    have hneg := timeoutInMs_wraps hr hlimit.1 (not_lt.mp hwraps)
    have hpos := (h.alarm t ht).1
    rw [hpoll] at hpos
    omega
  · intro hfits
    obtain ⟨h₁,h₂,h₃⟩ := timeoutInMs_bounds hr hlimit.1 hfits
    refine ⟨fun t' ht' => ?_,fun hnone => ?_⟩
    case refine_2 =>
      rw [ht] at hnone
      cases hnone
    rw [ht] at ht'
    cases ht'
    rw [hpoll]
    refine ⟨h₁,by omega,fun hpos => by omega,fun hnow => h₃ ?_⟩
    rcases hnow with hready | hpast | hzero
    · rw [hr] at hready
      cases hready
    · omega
    · omega

theorem pollsInTime_of_noAlarm (hr : s.hasReady = false) (ht : a.nextAlarmTimeInUs = none) :
    PollsInTime s a timeoutInUs nowInUs ↔ sleepLimit a timeoutInUs nowInUs/1000%2^32 < 2^31 := by
  obtain ⟨hwait,hlimit⟩ : a.waitTimeInUs timeoutInUs nowInUs = timeoutInUs ∧
      sleepLimit a timeoutInUs nowInUs = max 0 timeoutInUs := waitTime_of_noAlarm ht
  have hpoll : s.pollTimeout a timeoutInUs nowInUs = s.timeoutInMs timeoutInUs := by
    rw [EpollServer.pollTimeout,hwait]
  rw [hlimit]
  constructor
  · intro h
    by_contra hwraps
    have hw : 0 ≤ timeoutInUs := by omega
    rw [max_eq_right hw] at hwraps
    have hneg := timeoutInMs_wraps hr hw (not_lt.mp hwraps)
    rw [← hpoll] at hneg
    have hasked := ((h.noAlarm ht).mp hneg).1
    omega
  · intro hfits
    refine ⟨fun t ht' => ?_,fun _ => ?_⟩
    · rw [ht] at ht'
      cases ht'
    rw [hpoll]
    rcases lt_or_ge timeoutInUs 0 with hneg | hw
    · rw [timeoutInMs_of_neg hr hneg]
      simp [hneg,hr]
    · rw [max_eq_right hw] at hfits
      have hpos := (timeoutInMs_bounds hr hw hfits).1
      omega

/-- The poll is in time exactly if it does not sleep at all or the milliseconds that it
may sleep, reduced to 32 bits, are those of a non-negative `int`. -/
theorem pollsInTime_iff_fits (hn : 0 ≤ nowInUs ∧ nowInUs < 2^63)
    (ha : ∀ t, a.nextAlarmTimeInUs = some t → 0 ≤ t ∧ t < 2^63) :
    PollsInTime s a timeoutInUs nowInUs ↔
      s.hasReady = true ∨ sleepLimit a timeoutInUs nowInUs/1000%2^32 < 2^31 := by
  cases hr : s.hasReady with
  | true =>
    simp only [true_or,iff_true]
    have hzero : s.pollTimeout a timeoutInUs nowInUs = 0 := timeoutInMs_of_ready hr _
    exact ⟨fun t _ => by rw [hzero]; omega,fun _ => by rw [hzero]; simp [hr]⟩
  | false =>
    simp only [Bool.false_eq_true,false_or]
    cases ht : a.nextAlarmTimeInUs with
    | some t => exact pollsInTime_of_alarm hr ht (ha t ht) hn
    | none => exact pollsInTime_of_noAlarm hr ht

/-- An alarm one minute ahead. -/
theorem pollsInTime_before_minute : PollsInTime .init ⟨Multimap.empty.insert 60000000 1,{1},∅⟩ (-1) 0 :=
  (pollsInTime_iff_fits (by decide) (by decide)).mpr (Or.inr (by decide))

/-- An alarm twenty-five days ahead: the poll waits for ever. -/
theorem polls_past_far_alarm :
    ¬ PollsInTime .init ⟨Multimap.empty.insert 2160000000000 1,{1},∅⟩ (-1) 0 := by
  intro h
  have hpos := (h.alarm 2160000000000 rfl).1
  exact absurd hpos (by decide)

end CmuQuic
