import CmuQuic.EventPhase
import CmuQuic.TimeWaitPeriod

/-! `WaitForEventsAndExecuteCallbacks` as a whole: the descriptors, the alarms, the guard
against recursion and the clock that is read once in a round. Callbacks of both kinds may
do whatever the server offers, and ask for another round in the middle of one. -/
namespace CmuQuic

def WaitPhase.inRound : WaitPhase → Bool
  | .outside => false
  | .waiting _ => false
  | .events _ => true
  | .alarms => true

theorem AlarmConfig.Stepped.alarms_eq {c c' : AlarmConfig} {e : AlarmConfig.Event} {a : AlarmCB}
    (h : AlarmConfig.Stepped c e c') (hsub : e.subject ≠ none) (hne : e.subject ≠ some a) :
    c'.alarms a = c.alarms a := by
  cases h with
  | create b => simp [AlarmConfig.write,show a ≠ b from fun h => hne (by rw [h]; rfl)]
  | set b => simp [AlarmConfig.armedAt,show a ≠ b from fun h => hne (by rw [h]; rfl)]
  | cancel b => simp [AlarmConfig.disarmed,show a ≠ b from fun h => hne (by rw [h]; rfl)]
  | cancelIdle => rfl
  | destroy b => simp [AlarmConfig.disarmed,show a ≠ b from fun h => hne (by rw [h]; rfl)]
  | destroyIdle b => simp [show a ≠ b from fun h => hne (by rw [h]; rfl)]
  | begins => exact absurd rfl hsub
  | ends => exact absurd rfl hsub
  | fire => exact absurd rfl hsub
  | returns => exact absurd rfl hsub
  | rearms => exact absurd rfl hsub

structure EventLoop where
  epoll : EpollConfig
  alarms : AlarmConfig
  inWaitForEventsAndExecuteCallbacks : Bool
  nowInUsec : ℤ
  recordedNowInUs : ℤ
  phase : WaitPhase
  /-- The number of attempts to nest. -/
  dfatals : ℕ
  /-- What `ApproximateNowInUsec` has answered. -/
  answers : List ℤ
  /-- The alarms whose delegate was called, and the time that they were compared with. -/
  fired : List (AlarmCB × ℤ)
  /-- When `epoll_wait` returned last. -/
  polledAtInUs : ℤ
  /-- Whether `LOG(DFATAL)` aborts, as it does in DEBUG mode. -/
  debug : Bool

namespace EventLoop

def init (debug : Bool) (nowInUsec : ℤ) : EventLoop :=
  ⟨.init,.init,false,nowInUsec,0,.outside,0,[],[],0,debug⟩

def approximateNowInUsec (s : EventLoop) : ℤ :=
  if s.recordedNowInUs ≠ 0 then s.recordedNowInUs else s.nowInUsec

/-- Whether code outside of the loop may run: its owner between two rounds, or a callback. -/
def running (s : EventLoop) : Bool :=
  match s.phase with
  | .outside => true
  | .waiting _ => false
  | .events _ => s.epoll.control.isOnEvent
  | .alarms => s.alarms.control.firing.isSome

def startRound (s : EventLoop) : EventLoop :=
  { s with
    inWaitForEventsAndExecuteCallbacks := true
    phase := .waiting (!s.alarms.server.alarmMap.nodes.isEmpty) }

/-- Up to the call of `epoll_wait`. -/
def waitForEventsAndExecuteCallbacks (s : EventLoop) : Except Abort EventLoop :=
  if s.inWaitForEventsAndExecuteCallbacks then
    if s.debug then .error (.fatal .nestedRound)
    else .ok { s with dfatals := s.dfatals+1 }
  else .ok s.startRound

/-- From `epoll_wait` to the head of the loop over the ready list. -/
def epollWaitReturns (s : EventLoop) (hasAlarms : Bool) (batch : List (Fd × Mask)) :
    Except Abort EventLoop := do
  let c ← s.epoll.handleEvents batch
  let c ← c.startCallbacks
  .ok { s with
    epoll := c
    recordedNowInUs := s.nowInUsec
    polledAtInUs := s.nowInUsec
    phase := .events hasAlarms }

/-- An `epoll_wait` that fails is ignored if `errno` is `NETDP_EINTR` or 0. -/
def epollWaitFails (s : EventLoop) (hasAlarms interrupted : Bool) : Except Abort EventLoop :=
  if interrupted then s.epollWaitReturns hasAlarms [] else .error (.fatal .epollWaitError)

def finish (s : EventLoop) : EventLoop :=
  { s with inWaitForEventsAndExecuteCallbacks := false, recordedNowInUs := 0, phase := .outside }

/-- There are alarms to be called only if there were some in the beginning. -/
def eventsEnd (s : EventLoop) (hasAlarms : Bool) : Except Abort EventLoop :=
  if hasAlarms then do
    let a ← s.alarms.step (.callAndReregisterAlarmEvents s.recordedNowInUs)
    .ok { s with alarms := a, phase := .alarms }
  else .ok s.finish

def iterate (s : EventLoop) : Except Abort EventLoop := do
  let a ← s.alarms.step .iterate
  match a.control with
  | .idle => .ok { s with alarms := a }.finish
  | .loop _ _ => .ok { s with alarms := a }
  | .onAlarm _ _ cb => .ok { s with alarms := a, fired := s.fired ++ [(cb,s.recordedNowInUs)] }

inductive Event
  | tick (nowInUsec : ℤ)
  | approximateNowInUsec
  | waitForEventsAndExecuteCallbacks
  | epollWaitReturns (batch : List (Fd × Mask))
  | epollWaitFails (interrupted : Bool)
  | op (o : EpollServer.Op)
  | alarm (e : AlarmConfig.Event)
  | nextReady
  | onEventReturns (outReadyMask : Mask)
  | eventsEnd
  | iterate
  | delegateReturns (deadline : ℤ)

/-- The clock never goes back. -/
def admits (s : EventLoop) : Event → Prop
  | .tick t => s.nowInUsec ≤ t
  | .approximateNowInUsec => s.running = true
  | .waitForEventsAndExecuteCallbacks => s.running = true
  | .epollWaitReturns _ => s.phase = .waiting true ∨ s.phase = .waiting false
  | .epollWaitFails _ => s.phase = .waiting true ∨ s.phase = .waiting false
  | .op _ => s.running = true
  | .alarm e => s.running = true ∧ e.subject ≠ none ∧ s.alarms.admits e
  | .nextReady => s.epoll.control = .loop
  | .onEventReturns _ => s.epoll.control.isOnEvent = true
  | .eventsEnd => (s.phase = .events true ∨ s.phase = .events false) ∧ s.epoll.control = .idle
  | .iterate => s.alarms.control.atLoop = true
  | .delegateReturns _ => s.alarms.control.firing ≠ none

def epollStep (s : EventLoop) (e : EpollConfig.Event) : Except Abort EventLoop := do
  let c ← EpollConfig.machine.step s.epoll e
  .ok { s with epoll := c }

def alarmStep (s : EventLoop) (e : AlarmConfig.Event) : Except Abort EventLoop := do
  let a ← s.alarms.step e
  .ok { s with alarms := a }

def step (s : EventLoop) : Event → Except Abort EventLoop
  | .tick t => .ok { s with nowInUsec := t }
  | .approximateNowInUsec => .ok { s with answers := s.answers ++ [s.approximateNowInUsec] }
  | .waitForEventsAndExecuteCallbacks => s.waitForEventsAndExecuteCallbacks
  | .epollWaitReturns batch =>
    match s.phase with
    | .waiting hasAlarms => s.epollWaitReturns hasAlarms batch
    | _ => .ok s
  | .epollWaitFails interrupted =>
    match s.phase with
    | .waiting hasAlarms => s.epollWaitFails hasAlarms interrupted
    | _ => .ok s
  | .op o => s.epollStep (.op o)
  | .alarm e => s.alarmStep e
  | .nextReady => s.epollStep .nextReady
  | .onEventReturns mask => s.epollStep (.onEventReturns mask)
  | .eventsEnd =>
    match s.phase with
    | .events hasAlarms => s.eventsEnd hasAlarms
    | _ => .ok s
  | .iterate => s.iterate
  | .delegateReturns deadline => s.alarmStep (.delegateReturns deadline)

def machine : Machine EventLoop Event Abort := ⟨admits,step⟩

instance (s : EventLoop) : (e : Event) → Decidable (s.admits e)
  | .tick _ => inferInstanceAs (Decidable (_ ≤ _))
  | .approximateNowInUsec => inferInstanceAs (Decidable (_ = true))
  | .waitForEventsAndExecuteCallbacks => inferInstanceAs (Decidable (_ = true))
  | .epollWaitReturns _ => inferInstanceAs (Decidable (_ = _ ∨ _ = _))
  | .epollWaitFails _ => inferInstanceAs (Decidable (_ = _ ∨ _ = _))
  | .op _ => inferInstanceAs (Decidable (_ = true))
  | .alarm e => inferInstanceAs (Decidable (_ = true ∧ _ ≠ _ ∧ s.alarms.admits e))
  | .nextReady => inferInstanceAs (Decidable (_ = _))
  | .onEventReturns _ => inferInstanceAs (Decidable (_ = true))
  | .eventsEnd => inferInstanceAs (Decidable ((_ = _ ∨ _ = _) ∧ _ = _))
  | .iterate => inferInstanceAs (Decidable (_ = true))
  | .delegateReturns _ => inferInstanceAs (Decidable (_ ≠ _))

instance (s : EventLoop) (e : Event) : Decidable (machine.admits s e) :=
  inferInstanceAs (Decidable (s.admits e))

/-- The two sides take turns, and the clock of a round stands still. -/
structure Ticking (s : EventLoop) : Prop where
  sound : s.epoll.Sound
  coherent : s.alarms.Coherent
  guard : s.inWaitForEventsAndExecuteCallbacks = true ↔ s.phase ≠ .outside
  epollIdle : (∀ b, s.phase ≠ .events b) → s.epoll.control = .idle
  alarmsIdle : s.phase ≠ .alarms → s.alarms.control = .idle
  alarmsNow : s.phase = .alarms → s.alarms.control.now = some s.recordedNowInUs
  clock : 0 < s.nowInUsec
  unrecorded : s.phase.inRound = false → s.recordedNowInUs = 0
  recorded : s.phase.inRound = true → 0 < s.recordedNowInUs ∧ s.recordedNowInUs ≤ s.nowInUsec
  sorted : s.answers.Pairwise (· ≤ ·)
  answered : ∀ t ∈ s.answers, t ≤ s.approximateNowInUsec

variable {s t : EventLoop}

theorem Ticking.initial {debug : Bool} {now : ℤ} (h : 0 < now) : Ticking (init debug now) where
  sound := ⟨_,.initial⟩
  coherent := .initial
  guard := by simp [init]
  epollIdle _ := rfl
  alarmsIdle _ := rfl
  alarmsNow hp := by cases hp
  clock := h
  unrecorded _ := rfl
  recorded hp := by cases hp
  sorted := .nil
  answered _ ht := by cases ht

theorem Ticking.approximate_le (h : Ticking s) : s.approximateNowInUsec ≤ s.nowInUsec := by
  unfold approximateNowInUsec
  split_ifs with hz
  · cases hp : s.phase.inRound with
    | false => exact absurd (h.unrecorded hp) hz
    | true => exact (h.recorded hp).2
  · exact le_rfl

theorem Ticking.epollStep (h : Ticking s) {e : EpollConfig.Event}
    (he : EpollConfig.machine.admits s.epoll e)
    (hkeep : (∀ b, s.phase ≠ .events b) → ∀ c, EpollConfig.machine.step s.epoll e = .ok c →
      c.control = .idle) : ∃ t, s.epollStep e = .ok t ∧ Ticking t := by
  obtain ⟨c,hc,hsound⟩ := EpollConfig.sound_inductive.keeps h.sound he
  exact ⟨{ s with epoll := c },by simp [EventLoop.epollStep,hc],hsound,h.coherent,h.guard,
    fun hp => hkeep hp c hc,h.alarmsIdle,h.alarmsNow,h.clock,h.unrecorded,h.recorded,h.sorted,
    h.answered⟩

theorem control_of_op {c c' : EpollConfig} {o : EpollServer.Op}
    (h : EpollConfig.machine.step c (.op o) = .ok c') : c'.control = c.control := by
  obtain ⟨server,_,h⟩ := except_bind_eq_ok h
  cases h
  rfl

theorem Ticking.op (h : Ticking s) (hrun : s.running = true) (o : EpollServer.Op) :
    ∃ t, s.epollStep (.op o) = .ok t ∧ Ticking t := by
  refine h.epollStep ?_ fun hp c hc => (control_of_op hc).trans (h.epollIdle hp)
  show s.epoll.control ≠ .loop
  cases hphase : s.phase with
  | waiting b => simp [running,hphase] at hrun
  | events b =>
    intro hloop
    simp [running,hphase,hloop,Control.isOnEvent] at hrun
  | outside => simp [h.epollIdle (by simp [hphase])]
  | alarms => simp [h.epollIdle (by simp [hphase])]

theorem Ticking.withAlarms (h : Ticking s) {a : AlarmConfig} (ha : a.Coherent)
    (hidle : s.phase ≠ .alarms → a.control = .idle)
    (hnow : s.phase = .alarms → a.control.now = some s.recordedNowInUs)
    (fired : List (AlarmCB × ℤ)) :
    Ticking { s with alarms := a, fired := fired } :=
  ⟨h.sound,ha,h.guard,h.epollIdle,hidle,hnow,h.clock,h.unrecorded,h.recorded,h.sorted,h.answered⟩

theorem Ticking.alarm (h : Ticking s) {e : AlarmConfig.Event} (hsub : e.subject ≠ none)
    (he : s.alarms.admits e) : ∃ t, s.alarmStep e = .ok t ∧ Ticking t := by
  obtain ⟨a,ha,hstep,hco⟩ := h.coherent.step he
  have hctl := hstep.control_eq hsub
  refine ⟨{ s with alarms := a },?_,h.withAlarms hco (fun hp => hctl ▸ h.alarmsIdle hp)
    (fun hp => hctl ▸ h.alarmsNow hp) s.fired⟩
  have ha : s.alarms.step e = .ok a := ha
  simp [EventLoop.alarmStep,ha]

theorem Ticking.finish (h : Ticking s) (he : s.epoll.control = .idle)
    (ha : s.alarms.control = .idle) : Ticking s.finish := by
  refine ⟨h.sound,h.coherent,by simp [EventLoop.finish],fun _ => he,fun _ => ha,
    (fun hp => by cases hp),h.clock,fun _ => rfl,(fun hp => by cases hp),h.sorted,fun t ht => ?_⟩
  exact (h.answered t ht).trans h.approximate_le

theorem Ticking.epollWaitReturns (h : Ticking s) {b : Bool} (hp : s.phase = .waiting b)
    (batch : List (Fd × Mask)) : ∃ c, s.epollWaitReturns b batch = .ok { s with
        epoll := c
        recordedNowInUs := s.nowInUsec
        polledAtInUs := s.nowInUsec
        phase := .events b } ∧
      Ticking { s with
        epoll := c
        recordedNowInUs := s.nowInUsec
        polledAtInUs := s.nowInUsec
        phase := .events b } := by
  have hidle : s.epoll.control = .idle := h.epollIdle (by simp [hp])
  obtain ⟨a,ha⟩ := h.sound
  obtain ⟨c₁,hc₁,_,hctl,ha₁⟩ := EpollConfig.perform_ok ha (by simp [hidle])
    (batch.map fun e => .handleEvent e.1 e.2)
  obtain ⟨c₂,hc₂,hsound₂⟩ : ∃ c₂, c₁.startCallbacks = .ok c₂ ∧ c₂.Sound := by
    unfold EpollConfig.startCallbacks
    split_ifs
    · exact ⟨c₁,rfl,_,ha₁⟩
    · exact EpollConfig.sound_inductive.keeps ⟨_,ha₁⟩ (hctl.trans hidle)
  refine ⟨c₂,?_,hsound₂,h.coherent,?_,fun hne => absurd rfl (hne b),fun _ => ?_,
    (fun hp' => by cases hp'),h.clock,(fun hp' => by cases hp'),fun _ => ⟨h.clock,le_rfl⟩,h.sorted,?_⟩
  · simp only [EventLoop.epollWaitReturns,EpollConfig.handleEvents,hc₁,except_ok_bind,hc₂]
  · simpa [hp] using h.guard
  · exact h.alarmsIdle (by simp [hp])
  · intro t ht
    have hne : s.nowInUsec ≠ 0 := h.clock.ne'
    simpa [approximateNowInUsec,hne] using (h.answered t ht).trans h.approximate_le

theorem Ticking.eventsEnd (h : Ticking s) {b : Bool} (hp : s.phase = .events b)
    (he : s.epoll.control = .idle) : ∃ t, s.eventsEnd b = .ok t ∧ Ticking t := by
  have hidle := h.alarmsIdle (by simp [hp])
  cases b with
  | false => exact ⟨s.finish,by simp [EventLoop.eventsEnd],h.finish he hidle⟩
  | true =>
    have hrec := (h.recorded (by simp [hp,WaitPhase.inRound])).1.ne'
    obtain ⟨a,ha,hstep,hco⟩ := h.coherent.step
      (e:=.callAndReregisterAlarmEvents s.recordedNowInUs) ⟨hidle,hrec⟩
    have ha : s.alarms.step (.callAndReregisterAlarmEvents s.recordedNowInUs) = .ok a := ha
    have hctl : a.control.now = some s.recordedNowInUs := by
      cases hstep
      rfl
    refine ⟨{ s with alarms := a, phase := .alarms },by simp [EventLoop.eventsEnd,ha],h.sound,hco,
      ?_,fun _ => he,(fun hne => absurd rfl hne),fun _ => hctl,h.clock,(fun hp' => by cases hp'),
      fun _ => h.recorded (by simp [hp,WaitPhase.inRound]),h.sorted,h.answered⟩
    simpa [hp] using h.guard

theorem Ticking.phase_of_busy (h : Ticking s) (hbusy : s.alarms.control ≠ .idle) :
    s.phase = .alarms := by
  by_contra hp
  exact hbusy (h.alarmsIdle hp)

theorem Ticking.iterate (h : Ticking s) (hl : s.alarms.control.atLoop = true) :
    ∃ a t, AlarmConfig.Stepped s.alarms .iterate a ∧ a.Coherent ∧ s.iterate = .ok t ∧ Ticking t ∧
      ((a.control = .idle ∧ t = { s with alarms := a }.finish) ∨
        ∃ now i cb, a.control = .onAlarm now i cb ∧
          t = { s with alarms := a, fired := s.fired ++ [(cb,s.recordedNowInUs)] }) := by
  have hp : s.phase = .alarms := h.phase_of_busy fun hi => by simp [hi,AlarmControl.atLoop] at hl
  have hnow := h.alarmsNow hp
  obtain ⟨a,ha,hstep,hco⟩ := h.coherent.step (e:=.iterate) hl
  have ha : s.alarms.step .iterate = .ok a := ha
  refine ⟨a,?_⟩
  cases hstep with
  | ends now i hctl hi =>
    have hfin : Ticking (EventLoop.finish { s with alarms := { s.alarms with control := .idle } }) := by
      refine ⟨h.sound,hco,by simp [EventLoop.finish],?_,?_,?_,h.clock,?_,?_,h.sorted,?_⟩
      · exact fun _ => h.epollIdle (by simp [hp])
      · exact fun _ => rfl
      · exact fun hp' => by cases hp'
      · exact fun _ => rfl
      · exact fun hp' => by cases hp'
      · exact fun t ht => (h.answered t ht).trans h.approximate_le
    exact ⟨_,.ends now i hctl hi,hco,by simp [EventLoop.iterate,ha],hfin,Or.inl ⟨rfl,rfl⟩⟩
  | fire now n x hctl hn hk hx hr htok =>
    have hnow : now = s.recordedNowInUs := by simpa [hctl,AlarmControl.now] using hnow
    refine ⟨_,.fire now n x hctl hn hk hx hr htok,hco,by
      simp only [EventLoop.iterate,ha,except_ok_bind,AlarmConfig.fired],
      h.withAlarms hco (fun hne => absurd hp hne) (fun _ => ?_) _,
      Or.inr ⟨now,n.token,n.val,rfl,rfl⟩⟩
    simp [AlarmConfig.fired,AlarmControl.now,hnow]

theorem Ticking.delegateReturns (h : Ticking s) (hf : s.alarms.control.firing ≠ none)
    (deadline : ℤ) : ∃ t, s.alarmStep (.delegateReturns deadline) = .ok t ∧ Ticking t := by
  have hp : s.phase = .alarms := h.phase_of_busy fun hi => by simp [hi,AlarmControl.firing] at hf
  have hnow := h.alarmsNow hp
  obtain ⟨a,ha,hstep,hco⟩ := h.coherent.step (e:=.delegateReturns deadline) hf
  have ha : s.alarms.step (.delegateReturns deadline) = .ok a := ha
  have hctl : a.control.now = some s.recordedNowInUs := by
    cases hstep with
    | returns now i b x d hctl =>
      rw [hctl] at hnow
      exact hnow
    | rearms now i b x d hctl =>
      rw [hctl] at hnow
      exact hnow
  exact ⟨{ s with alarms := a },by simp [EventLoop.alarmStep,ha],
    h.withAlarms hco (fun hne => absurd hp hne) (fun _ => hctl) s.fired⟩

def abort (s : EventLoop) : Event → Option Abort
  | .waitForEventsAndExecuteCallbacks =>
    if s.debug = true ∧ s.phase ≠ .outside then some (.fatal .nestedRound) else none
  | .epollWaitFails interrupted => if interrupted then none else some (.fatal .epollWaitError)
  | _ => none

theorem Ticking.startRound (h : Ticking s) (hp : s.phase = .outside) : Ticking s.startRound :=
  ⟨h.sound,h.coherent,by simp [EventLoop.startRound],fun _ => h.epollIdle (by simp [hp]),
    fun _ => h.alarmsIdle (by simp [hp]),(fun hp' => by cases hp'),h.clock,
    fun _ => h.unrecorded (by simp [hp,WaitPhase.inRound]),(fun hp' => by cases hp'),h.sorted,
    h.answered⟩

theorem Ticking.starts (h : Ticking s) (hp : s.phase = .outside) :
    s.waitForEventsAndExecuteCallbacks = .ok s.startRound := by
  have hin : ¬ s.inWaitForEventsAndExecuteCallbacks = true := fun hin => h.guard.mp hin hp
  rw [EventLoop.waitForEventsAndExecuteCallbacks,if_neg hin]

theorem Ticking.nests (h : Ticking s) (hp : s.phase ≠ .outside) :
    s.waitForEventsAndExecuteCallbacks = if s.debug then .error (.fatal .nestedRound)
      else .ok { s with dfatals := s.dfatals+1 } := by
  rw [EventLoop.waitForEventsAndExecuteCallbacks,if_pos (h.guard.mpr hp)]

theorem Ticking.waitForEvents (h : Ticking s) (hn : s.abort .waitForEventsAndExecuteCallbacks = none) :
    ∃ t, s.waitForEventsAndExecuteCallbacks = .ok t ∧ Ticking t := by
  by_cases hp : s.phase = .outside
  · exact ⟨_,h.starts hp,h.startRound hp⟩
  · have hdebug : ¬ s.debug = true := fun hd => by simp [EventLoop.abort,hd,hp] at hn
    refine ⟨_,(h.nests hp).trans (if_neg hdebug),?_⟩
    exact ⟨h.sound,h.coherent,h.guard,h.epollIdle,h.alarmsIdle,h.alarmsNow,h.clock,h.unrecorded,
      h.recorded,h.sorted,h.answered⟩

theorem waiting_of_or (h : s.phase = .waiting true ∨ s.phase = .waiting false) :
    ∃ b, s.phase = .waiting b := h.elim (fun hp => ⟨true,hp⟩) fun hp => ⟨false,hp⟩

theorem Ticking.proceeds (h : Ticking s) {e : Event} (he : s.admits e) (hn : s.abort e = none) :
    ∃ t, s.step e = .ok t ∧ Ticking t := by
  cases e with
  | tick t =>
    have he : s.nowInUsec ≤ t := he
    refine ⟨_,rfl,h.sound,h.coherent,h.guard,h.epollIdle,h.alarmsIdle,h.alarmsNow,
      h.clock.trans_le he,h.unrecorded,fun hp => ⟨(h.recorded hp).1,(h.recorded hp).2.trans he⟩,
      h.sorted,fun u hu => (h.answered u hu).trans ?_⟩
    unfold approximateNowInUsec
    split_ifs
    · exact le_rfl
    · exact he
  | approximateNowInUsec =>
    refine ⟨_,rfl,h.sound,h.coherent,h.guard,h.epollIdle,h.alarmsIdle,h.alarmsNow,h.clock,
      h.unrecorded,h.recorded,?_,fun t ht => ?_⟩
    · refine List.pairwise_append.mpr ⟨h.sorted,List.pairwise_singleton _ _,fun t ht u hu => ?_⟩
      rw [List.mem_singleton.mp hu]
      exact h.answered t ht
    · rcases List.mem_append.mp ht with ht | ht
      · exact h.answered t ht
      · exact le_of_eq (List.mem_singleton.mp ht)
  | waitForEventsAndExecuteCallbacks => exact h.waitForEvents hn
  | epollWaitReturns batch =>
    obtain ⟨b,hp⟩ := waiting_of_or he
    obtain ⟨c,hc,ht⟩ := h.epollWaitReturns hp batch
    exact ⟨_,by simp only [EventLoop.step,hp]; exact hc,ht⟩
  | epollWaitFails interrupted =>
    obtain ⟨b,hp⟩ := waiting_of_or he
    obtain rfl : interrupted = true := by simpa [EventLoop.abort] using hn
    obtain ⟨c,hc,ht⟩ := h.epollWaitReturns hp []
    exact ⟨_,by simp only [EventLoop.step,hp]; exact hc,ht⟩
  | op o => exact h.op he o
  | alarm e => exact h.alarm he.2.1 he.2.2
  | nextReady =>
    have he : s.epoll.control = .loop := he
    exact h.epollStep he fun hp => by simp [h.epollIdle hp] at he
  | onEventReturns mask =>
    have he : s.epoll.control.isOnEvent = true := he
    exact h.epollStep he fun hp => by simp [h.epollIdle hp,Control.isOnEvent] at he
  | eventsEnd =>
    have hp : ∃ b, s.phase = .events b := he.1.elim (fun hp => ⟨true,hp⟩) fun hp => ⟨false,hp⟩
    obtain ⟨b,hp⟩ := hp
    obtain ⟨t,ht,htick⟩ := h.eventsEnd hp he.2
    exact ⟨t,by simp only [EventLoop.step,hp]; exact ht,htick⟩
  | iterate =>
    obtain ⟨_,t,_,_,ht,htick,_⟩ := h.iterate he
    exact ⟨t,ht,htick⟩
  | delegateReturns deadline => exact h.delegateReturns he deadline

theorem Ticking.step_abort (h : Ticking s) {e : Event} (he : s.admits e) {x : Abort}
    (hx : s.abort e = some x) : s.step e = .error x := by
  cases e with
  | waitForEventsAndExecuteCallbacks =>
    simp only [EventLoop.abort] at hx
    split_ifs at hx with hd
    cases hx
    exact (h.nests hd.2).trans (if_pos hd.1)
  | epollWaitFails interrupted =>
    obtain ⟨b,hp⟩ := waiting_of_or he
    simp only [EventLoop.abort] at hx
    split_ifs at hx with hi
    cases hx
    simp only [EventLoop.step,hp,EventLoop.epollWaitFails,if_neg hi]
  | _ => cases hx

theorem Ticking.step (h : Ticking s) {e : Event} (he : s.admits e) (ht : s.step e = .ok t) :
    Ticking t := by
  cases hx : s.abort e with
  | some x =>
    rw [h.step_abort he hx] at ht
    cases ht
  | none =>
    obtain ⟨u,hu,htick⟩ := h.proceeds he hx
    obtain rfl : u = t := Except.ok.inj (hu.symm.trans ht)
    exact htick

theorem Ticking.run {es : List Event} (hs : Ticking s) (h : machine.Run s es t) : Ticking t :=
  h.invariant (P:=Ticking) (fun hs he ht => hs.step he ht) hs

/-- What everybody who runs inside the loop may rely on: nothing aborts but a round inside a
round in DEBUG mode, and an `epoll_wait` that fails without being interrupted; elsewhere a
round inside a round is refused and changes nothing else; descriptor callbacks and alarm
callbacks do not nest in one another; the approximate clock never goes back, and it is the
time that the alarms are compared with. -/
structure Orderly (s : EventLoop) : Prop where
  aborts : ∀ e x, machine.admits s e → (machine.step s e = .error x ↔ s.abort e = some x)
  refused : s.debug = false → s.phase ≠ .outside →
    s.waitForEventsAndExecuteCallbacks = .ok { s with dfatals := s.dfatals+1 }
  apart : s.epoll.control = .idle ∨ s.alarms.control = .idle
  clock : s.answers.Pairwise (· ≤ ·) ∧ ∀ t ∈ s.answers, t ≤ s.approximateNowInUsec
  due : ∀ now, s.alarms.control.now = some now → s.approximateNowInUsec = now

theorem Ticking.orderly (h : Ticking s) : Orderly s where
  aborts e x he := by
    refine ⟨fun hstep => ?_,h.step_abort he⟩
    cases hx : s.abort e with
    | some y => rw [Except.error.inj ((h.step_abort he hx).symm.trans hstep)]
    | none =>
      obtain ⟨t,ht,_⟩ := h.proceeds he hx
      have ht : machine.step s e = .ok t := ht
      rw [ht] at hstep
      cases hstep
  refused hdebug hp := (h.nests hp).trans (if_neg (by simp [hdebug]))
  apart := by
    by_cases hp : s.phase = .alarms
    · exact Or.inl (h.epollIdle (by simp [hp]))
    · exact Or.inr (h.alarmsIdle hp)
  clock := ⟨h.sorted,h.answered⟩
  due now hnow := by
    have hp : s.phase = .alarms := h.phase_of_busy fun hi => by simp [hi,AlarmControl.now] at hnow
    have hrec := h.alarmsNow hp
    rw [hnow] at hrec
    have hne : s.recordedNowInUs ≠ 0 := (h.recorded (by simp [hp,WaitPhase.inRound])).1.ne'
    rw [approximateNowInUsec,if_pos hne]
    exact (Option.some.inj hrec).symm

theorem rounds_orderly {debug : Bool} {now : ℤ} (hnow : 0 < now) {es : List Event}
    (h : machine.Run (init debug now) es s) : Orderly s :=
  ((Ticking.initial hnow).run h).orderly

/-- A descriptor callback sets an alarm for a time that has passed and asks for a round in
the middle of this one; the alarm waits for the next round, whose poll is interrupted and in
which its delegate reads the clock. -/
theorem rounds_orderly_nested : ∃ s, machine.Run (init false 5000)
      [.op (.registerFD 3 7 epollIn),.alarm (.create 1),.waitForEventsAndExecuteCallbacks,
        .tick 6000,.epollWaitReturns [(3,epollIn)],.nextReady,.alarm (.set 1 5500),
        .approximateNowInUsec,.waitForEventsAndExecuteCallbacks,.onEventReturns 0,.nextReady,
        .eventsEnd,.tick 7000,.approximateNowInUsec,.waitForEventsAndExecuteCallbacks,
        .epollWaitFails true,.tick 8000,.eventsEnd,.iterate,.approximateNowInUsec] s ∧
    Orderly s ∧ s.answers = [6000,7000,7000] ∧ s.fired = [(1,7000)] ∧ s.dfatals = 1 := by
  obtain ⟨s,hs,hend⟩ : ∃ s, machine.Run (init false 5000)
      [.op (.registerFD 3 7 epollIn),.alarm (.create 1),.waitForEventsAndExecuteCallbacks,
        .tick 6000,.epollWaitReturns [(3,epollIn)],.nextReady,.alarm (.set 1 5500),
        .approximateNowInUsec,.waitForEventsAndExecuteCallbacks,.onEventReturns 0,.nextReady,
        .eventsEnd,.tick 7000,.approximateNowInUsec,.waitForEventsAndExecuteCallbacks,
        .epollWaitFails true,.tick 8000,.eventsEnd,.iterate,.approximateNowInUsec] s ∧
      decide (s.answers = [6000,7000,7000] ∧ s.fired = [(1,7000)] ∧ s.dfatals = 1) = true :=
    machine.exists_run_of_exec_any (by decide +kernel)
  exact ⟨s,hs,rounds_orderly (by decide) hs,of_decide_eq_true hend⟩

def Event.isPoll : Event → Bool
  | .epollWaitReturns _ => true
  | .epollWaitFails _ => true
  | _ => false

/-- What a step of the loop does, one branch after the other. -/
inductive Effect (s : EventLoop) : Event → EventLoop → Prop
  | ticks (now) : s.nowInUsec ≤ now → Effect s (.tick now) { s with nowInUsec := now }
  | answers : Effect s .approximateNowInUsec
    { s with answers := s.answers ++ [s.approximateNowInUsec] }
  | refuses : s.phase ≠ .outside →
    Effect s .waitForEventsAndExecuteCallbacks { s with dfatals := s.dfatals+1 }
  | starts : s.phase = .outside → Effect s .waitForEventsAndExecuteCallbacks s.startRound
  | polls (e b c) : e.isPoll = true → s.phase = .waiting b → Effect s e { s with
      epoll := c
      recordedNowInUs := s.nowInUsec
      polledAtInUs := s.nowInUsec
      phase := .events b }
  | operates (o c) : Effect s (.op o) { s with epoll := c }
  | readies (c) : Effect s .nextReady { s with epoll := c }
  | handles (mask c) : Effect s (.onEventReturns mask) { s with epoll := c }
  | alarms (e c) : AlarmConfig.machine.admits s.alarms e → e.subject ≠ none →
    AlarmConfig.Stepped s.alarms e c → Effect s (.alarm e) { s with alarms := c }
  | skips : s.phase = .events false → Effect s .eventsEnd s.finish
  | begins : s.phase = .events true → Effect s .eventsEnd { s with
      alarms := { s.alarms with control := .loop s.recordedNowInUs s.alarms.server.alarmMap.first }
      phase := .alarms }
  | ends (i) : s.phase = .alarms → s.alarms.control = .loop s.recordedNowInUs i →
    (∀ t, i = some t → ∃ n ∈ s.alarms.server.alarmMap.nodes, n.token = t ∧
      s.recordedNowInUs < n.key) →
    Effect s .iterate { s with alarms := { s.alarms with control := .idle } }.finish
  | fires (n x) : s.phase = .alarms → s.alarms.control = .loop s.recordedNowInUs (some n.token) →
    n ∈ s.alarms.server.alarmMap.nodes → n.key ≤ s.recordedNowInUs →
    s.alarms.alarms n.val = some x → x.registered = true → x.token = n.token →
    Effect s .iterate { s with
      alarms := s.alarms.fired s.recordedNowInUs n.token n.val x
      fired := s.fired ++ [(n.val,s.recordedNowInUs)] }
  | returns (d c) : s.phase = .alarms → AlarmConfig.machine.admits s.alarms (.delegateReturns d) →
    AlarmConfig.Stepped s.alarms (.delegateReturns d) c →
    Effect s (.delegateReturns d) { s with alarms := c }

theorem Ticking.effect (h : Ticking s) {e : Event} (he : s.admits e) (ht : s.step e = .ok t) :
    Effect s e t := by
  cases e with
  | tick now => cases ht; exact .ticks now he
  | approximateNowInUsec => cases ht; exact .answers
  | waitForEventsAndExecuteCallbacks =>
    have ht : s.waitForEventsAndExecuteCallbacks = .ok t := ht
    by_cases hp : s.phase = .outside
    · rw [h.starts hp] at ht
      exact Except.ok.inj ht ▸ .starts hp
    · rw [h.nests hp] at ht
      split_ifs at ht
      exact Except.ok.inj ht ▸ .refuses hp
  | epollWaitReturns batch =>
    obtain ⟨b,hb⟩ := waiting_of_or he
    obtain ⟨c,hc,_⟩ := h.epollWaitReturns hb batch
    simp only [EventLoop.step,hb,hc] at ht
    cases ht
    exact .polls _ b c rfl hb
  | epollWaitFails interrupted =>
    obtain ⟨b,hb⟩ := waiting_of_or he
    obtain ⟨c,hc,_⟩ := h.epollWaitReturns hb []
    simp only [EventLoop.step,hb,EventLoop.epollWaitFails,hc] at ht
    split_ifs at ht
    cases ht
    exact .polls _ b c rfl hb
  | op o =>
    obtain ⟨c,_,ht⟩ := except_bind_eq_ok ht
    cases ht
    exact .operates o c
  | nextReady =>
    obtain ⟨c,_,ht⟩ := except_bind_eq_ok ht
    cases ht
    exact .readies c
  | onEventReturns mask =>
    obtain ⟨c,_,ht⟩ := except_bind_eq_ok ht
    cases ht
    exact .handles mask c
  | alarm e =>
    obtain ⟨c,hc,ht⟩ := except_bind_eq_ok ht
    cases ht
    exact .alarms e c he.2.2 he.2.1 (h.coherent.of_step he.2.2 hc).1
  | eventsEnd =>
    obtain ⟨b,hb⟩ : ∃ b, s.phase = .events b := he.1.elim (fun hp => ⟨true,hp⟩) fun hp => ⟨false,hp⟩
    cases b with
    | false =>
      simp only [EventLoop.step,hb,EventLoop.eventsEnd] at ht
      cases ht
      exact .skips hb
    | true =>
      simp only [EventLoop.step,hb,EventLoop.eventsEnd,if_true] at ht
      obtain ⟨c,hc,ht⟩ := except_bind_eq_ok ht
      cases ht
      have hidle := h.alarmsIdle (by simp [hb])
      have hrec := (h.recorded (by simp [hb,WaitPhase.inRound])).1.ne'
      obtain ⟨hstep,_⟩ := h.coherent.of_step (e:=.callAndReregisterAlarmEvents s.recordedNowInUs)
        ⟨hidle,hrec⟩ hc
      cases hstep
      exact .begins hb
  | iterate =>
    have hp : s.phase = .alarms := h.phase_of_busy fun hi => by
      have he : s.alarms.control.atLoop = true := he
      simp [hi,AlarmControl.atLoop] at he
    have hnow := h.alarmsNow hp
    obtain ⟨c,u,hstep,_,hu,_,hcases⟩ := h.iterate he
    obtain rfl : u = t := Except.ok.inj (hu.symm.trans ht)
    cases hstep with
    | ends now i hctl hi =>
      obtain rfl : now = s.recordedNowInUs := by simpa [hctl,AlarmControl.now] using hnow
      rcases hcases with ⟨_,rfl⟩ | ⟨_,_,_,hfire,_⟩
      · exact .ends i hp hctl hi
      · cases hfire
    | fire now n x hctl hn hk hx hr htok =>
      obtain rfl : now = s.recordedNowInUs := by simpa [hctl,AlarmControl.now] using hnow
      rcases hcases with ⟨hidle,_⟩ | ⟨_,_,_,hfire,rfl⟩
      · cases hidle
      · cases hfire
        exact .fires n x hp hctl hn hk hx hr htok
  | delegateReturns d =>
    have hp : s.phase = .alarms := h.phase_of_busy fun hi => by
      have he : s.alarms.control.firing ≠ none := he
      simp [hi,AlarmControl.firing] at he
    obtain ⟨c,hc,ht⟩ := except_bind_eq_ok ht
    cases ht
    exact .returns d c hp he (h.coherent.of_step (e:=.delegateReturns d) he hc).1

section Due

def Event.subject : Event → Option AlarmCB
  | .alarm e => e.subject
  | _ => none

def round : Machine EventLoop Event Abort where
  admits s e := s.admits e ∧ s.phase ≠ .outside
  step := step

instance (s : EventLoop) (e : Event) : Decidable (round.admits s e) :=
  inferInstanceAs (Decidable (s.admits e ∧ s.phase ≠ .outside))

variable {a : AlarmCB} {x : QuicEpollAlarm}

/-- The alarm stands as it did, and the round has still to come to it if it is due. -/
structure Awaits (a : AlarmCB) (x : QuicEpollAlarm) (s : EventLoop) : Prop where
  armed : s.alarms.alarms a = some x
  silent : s.alarms.control.firing ≠ some a
  hasAlarms : ∀ b, s.phase = .waiting b ∨ s.phase = .events b → b = true
  polled : s.phase.inRound = true → s.polledAtInUs = s.recordedNowInUs
  ahead : s.phase = .alarms → x.deadline ≤ s.recordedNowInUs →
    ⟨x.token,x.deadline,a⟩ ∈ s.alarms.ahead
  missed : s.phase = .outside → s.polledAtInUs < x.deadline

/-- The delegate of the alarm is running, in the round of the last poll. -/
structure Calling (a : AlarmCB) (s : EventLoop) : Prop where
  phase : s.phase = .alarms
  firing : s.alarms.control.firing = some a
  unarmed : ∃ y, s.alarms.alarms a = some y ∧ y.deadline = 0
  polled : s.polledAtInUs = s.recordedNowInUs

theorem key_le_of_ahead {m : Multimap ℤ AlarmCB} {n k : Node ℤ AlarmCB} (hn : n ∈ m.nodes)
    (hk : k ∈ m.ahead (some n.token)) : n.key ≤ k.key := by
  obtain ⟨rest,hrest⟩ := Multimap.ahead_cons hn
  have hsorted := m.sorted.sublist (m.ahead_sublist (some n.token))
  rw [hrest] at hk hsorted
  rcases List.mem_cons.mp hk with rfl | hk
  · exact le_rfl
  · exact (List.pairwise_cons.mp hsorted).1 k hk

theorem Awaits.ends (h : Awaits a x s) (hp : s.phase = .alarms) {i : Option ℕ}
    (hctl : s.alarms.control = .loop s.recordedNowInUs i)
    (hi : ∀ t, i = some t → ∃ n ∈ s.alarms.server.alarmMap.nodes, n.token = t ∧
      s.recordedNowInUs < n.key) : s.polledAtInUs < x.deadline := by
  rw [h.polled (by simp [hp,WaitPhase.inRound])]
  by_contra hdue
  have hahead := h.ahead hp (not_lt.mp hdue)
  cases i with
  | none => simp [AlarmConfig.ahead,hctl,Multimap.ahead] at hahead
  | some t =>
    obtain ⟨n,hn,rfl,hlt⟩ := hi t rfl
    simp only [AlarmConfig.ahead,hctl] at hahead
    have hle := key_le_of_ahead hn hahead
    exact hdue (hlt.trans_le hle)

theorem Awaits.other (h : Awaits a x s) (hs : Ticking s) (hr : x.registered = true)
    {e : AlarmConfig.Event} {c : AlarmConfig} (he : AlarmConfig.machine.admits s.alarms e)
    (hstep : AlarmConfig.Stepped s.alarms e c) (hsub : e.subject ≠ some a)
    (hsilent : c.control.firing ≠ some a) (hbusy : s.phase = .alarms → c.control ≠ .idle)
    (fired : List (AlarmCB × ℤ)) : Awaits a x { s with alarms := c, fired := fired } := by
  obtain ⟨hx,hahead⟩ := hstep.other hs.coherent he h.armed hr hsub h.silent hsilent
  exact ⟨hx,hsilent,h.hasAlarms,h.polled,fun hp hdue => hahead (h.ahead hp hdue) (hbusy hp),h.missed⟩

theorem Ticking.entry_eq (h : Ticking s) {n : Node ℤ AlarmCB}
    (hn : n ∈ s.alarms.server.alarmMap.nodes) (hx : s.alarms.alarms n.val = some x)
    (hr : x.registered = true) (htok : x.token = n.token) : x.deadline = n.key :=
  congrArg Node.key (Multimap.eq_of_token (h.coherent.entry hx hr) hn htok)

structure KeepsAlarm (a : AlarmCB) (s t : EventLoop) : Prop where
  same : t.alarms.alarms a = s.alarms.alarms a
  firing : s.alarms.control.firing = some a ↔ t.alarms.control.firing = some a
  fired : ∃ new, t.fired = s.fired ++ new ∧ ∀ τ, (a,τ) ∉ new

theorem KeepsAlarm.of_eq (halarms : t.alarms = s.alarms) (hfired : t.fired = s.fired) :
    KeepsAlarm a s t :=
  ⟨by rw [halarms],by rw [halarms],[],by simp [hfired]⟩

/-- What happens to an alarm in a step that is not about it: nothing, or its delegate is
called because it is due. -/
theorem Ticking.alarm_of_step (hs : Ticking s) {e : Event} (he : s.admits e)
    (hsub : e.subject ≠ some a)
    (hreturn : ∀ d, e = .delegateReturns d → s.alarms.control.firing ≠ some a)
    (ht : s.step e = .ok t) :
    KeepsAlarm a s t ∨ (t.alarms.control.firing = some a ∧ s.phase = .alarms ∧
      (∀ x, s.alarms.alarms a = some x → x.deadline ≤ s.recordedNowInUs) ∧
      ∃ y, t.alarms.alarms a = some y ∧ y.deadline = 0) := by
  cases hs.effect he ht with
  | alarms e c _ hsome hstep =>
    exact Or.inl ⟨hstep.alarms_eq hsome hsub,by rw [hstep.control_eq hsome],[],by simp⟩
  | begins hp =>
    have hidle := hs.alarmsIdle (by simp [hp])
    exact Or.inl ⟨rfl,by simp [hidle,AlarmControl.firing],[],by simp⟩
  | ends i _ hctl =>
    exact Or.inl ⟨rfl,by simp [EventLoop.finish,hctl,AlarmControl.firing],[],by simp [EventLoop.finish]⟩
  | fires n x hp hctl hn hk hx hr htok =>
    by_cases hna : n.val = a
    · subst hna
      refine Or.inr ⟨rfl,hp,fun y hy => ?_,⟨0,false,x.token⟩,by simp [AlarmConfig.fired],rfl⟩
      obtain rfl : x = y := Option.some.inj (hx.symm.trans hy)
      exact hs.entry_eq hn hx hr htok ▸ hk
    · refine Or.inl ⟨by simp [AlarmConfig.fired,Ne.symm hna],?_,[(n.val,s.recordedNowInUs)],rfl,
        fun τ hτ => ?_⟩
      · simp [hctl,AlarmConfig.fired,AlarmControl.firing,hna]
      · exact hna (Prod.ext_iff.mp (List.mem_singleton.mp hτ)).1.symm
  | returns d c _ _ hstep =>
    have hne := hreturn d rfl
    cases hstep with
    | returns now i b y d hctl =>
      exact Or.inl ⟨rfl,by simpa [AlarmConfig.erased,AlarmControl.firing] using hne,[],by simp⟩
    | rearms now i b y d hctl =>
      have hb : b ≠ a := fun hb => hne (by rw [hctl,hb]; rfl)
      exact Or.inl ⟨by simp [AlarmConfig.erased,AlarmConfig.armedAt,Ne.symm hb],
        by simpa [AlarmConfig.erased,AlarmControl.firing] using hne,[],by simp⟩
  | _ => exact Or.inl (.of_eq rfl rfl)

theorem Ticking.now_le (hs : Ticking s) {e : Event} (he : s.admits e) (ht : s.step e = .ok t) :
    s.nowInUsec ≤ t.nowInUsec := by
  cases hs.effect he ht with
  | ticks now hle => exact hle
  | _ => exact le_rfl

/-- What a step of a round does to the clocks: `epoll_wait` returns and the time is read, or
the time of the last poll stands. -/
theorem Ticking.clock_of_step (hs : Ticking s) {e : Event} (he : s.admits e)
    (hp : s.phase ≠ .outside) (ht : s.step e = .ok t) :
    ((∃ b, s.phase = .waiting b) ∧ (∀ b, t.phase ≠ .waiting b) ∧ t.polledAtInUs = s.nowInUsec) ∨
      (t.polledAtInUs = s.polledAtInUs ∧ ∀ b, t.phase = .waiting b ↔ s.phase = .waiting b) := by
  cases hs.effect he ht with
  | starts hout => exact absurd hout hp
  | polls e b c _ hb => exact Or.inl ⟨⟨b,hb⟩,(fun b hb => by cases hb),rfl⟩
  | skips hphase => exact Or.inr ⟨rfl,by simp [EventLoop.finish,hphase]⟩
  | begins hphase => exact Or.inr ⟨rfl,by simp [hphase]⟩
  | ends i hphase => exact Or.inr ⟨rfl,by simp [EventLoop.finish,hphase]⟩
  | _ => exact Or.inr ⟨rfl,fun _ => Iff.rfl⟩

theorem Awaits.step (h : Awaits a x s) (hs : Ticking s) (hr : x.registered = true) {e : Event}
    (he : s.admits e) (hp : s.phase ≠ .outside) (hsub : e.subject ≠ some a)
    (ht : s.step e = .ok t) : ∃ new, t.fired = s.fired ++ new ∧
      ((new = [(a,s.polledAtInUs)] ∧ x.deadline ≤ s.polledAtInUs ∧ Calling a t ∧
          t.polledAtInUs = s.polledAtInUs) ∨ (Awaits a x t ∧ ∀ τ, (a,τ) ∉ new)) := by
  cases hs.effect he ht with
  | starts hout => exact absurd hout hp
  | polls e b c _ hb =>
    refine ⟨[],by simp,Or.inr ⟨⟨h.armed,h.silent,fun b' hb' => ?_,fun _ => rfl,
      (fun hp' => by cases hp'),(fun hp' => by cases hp')⟩,by simp⟩⟩
    rcases hb' with hb' | hb' <;> cases hb'
    exact h.hasAlarms _ (Or.inl hb)
  | alarms e c hadm hsome hstep =>
    have hctl := hstep.control_eq hsome
    refine ⟨[],by simp,Or.inr ⟨h.other hs hr hadm hstep hsub (hctl ▸ h.silent) (fun hp => ?_) _,
      by simp⟩⟩
    intro hidle
    have hnow := hs.alarmsNow hp
    simp [← hctl,hidle,AlarmControl.now] at hnow
  | skips hb => cases h.hasAlarms false (Or.inr hb)
  | begins hb =>
    refine ⟨[],by simp,Or.inr ⟨⟨h.armed,by simp [AlarmControl.firing],?_,
      fun _ => h.polled (by simp [hb,WaitPhase.inRound]),fun _ _ => ?_,(fun hp' => by cases hp')⟩,
      by simp⟩⟩
    · rintro b' (hb' | hb') <;> cases hb'
    · show _ ∈ s.alarms.server.alarmMap.ahead s.alarms.server.alarmMap.first
      rw [Multimap.ahead_first]
      exact hs.coherent.entry h.armed hr
  | ends i hphase hctl hi =>
    refine ⟨[],by simp [EventLoop.finish],Or.inr ⟨⟨h.armed,by simp [EventLoop.finish,AlarmControl.firing],
      ?_,(fun hp' => by cases hp'),(fun hp' => by cases hp'),fun _ => h.ends hphase hctl hi⟩,by simp⟩⟩
    rintro b' (hb' | hb') <;> cases hb'
  | fires n y hphase hctl hn hk hy hyr htok =>
    have hpolled := h.polled (by simp [hphase,WaitPhase.inRound])
    refine ⟨[(n.val,s.recordedNowInUs)],rfl,?_⟩
    by_cases hna : n.val = a
    · subst hna
      obtain rfl : x = y := Option.some.inj (h.armed.symm.trans hy)
      have hdue : x.deadline ≤ s.polledAtInUs := by rwa [hpolled,hs.entry_eq hn hy hyr htok]
      exact Or.inl ⟨by rw [hpolled],hdue,⟨hphase,rfl,⟨⟨0,false,x.token⟩,by simp [AlarmConfig.fired],rfl⟩,
        hpolled⟩,rfl⟩
    · refine Or.inr ⟨h.other (e:=.iterate) hs hr (by simp [AlarmConfig.machine,AlarmConfig.admits,hctl,
        AlarmControl.atLoop]) (.fire _ n y hctl hn hk hy hyr htok) (by simp [AlarmConfig.Event.subject])
        (by simpa [AlarmConfig.fired,AlarmControl.firing] using hna) (fun _ => by simp [AlarmConfig.fired])
        _,fun τ hτ => ?_⟩
      exact hna (Prod.ext_iff.mp (List.mem_singleton.mp hτ)).1.symm
  | returns d c hphase hadm hstep =>
    obtain ⟨now,i,hctl⟩ : ∃ now i, c.control = .loop now i := by
      cases hstep with
      | returns now i b y d hctl => exact ⟨now,_,rfl⟩
      | rearms now i b y d hctl => exact ⟨now,_,rfl⟩
    exact ⟨[],by simp,Or.inr ⟨h.other (e:=.delegateReturns d) hs hr hadm hstep
      (by simp [AlarmConfig.Event.subject]) (by simp [hctl,AlarmControl.firing])
      (fun _ => by simp [hctl]) _,by simp⟩⟩
  | _ =>
    exact ⟨[],by simp,Or.inr ⟨⟨h.armed,h.silent,h.hasAlarms,h.polled,h.ahead,h.missed⟩,by simp⟩⟩

theorem fired_waitForEvents (h : s.waitForEventsAndExecuteCallbacks = .ok t) : t.fired = s.fired := by
  unfold EventLoop.waitForEventsAndExecuteCallbacks at h
  split_ifs at h <;> cases h <;> rfl

theorem fired_epollWaitReturns {b : Bool} {batch : List (Fd × Mask)}
    (h : s.epollWaitReturns b batch = .ok t) : t.fired = s.fired := by
  obtain ⟨_,_,h⟩ := except_bind_eq_ok h
  obtain ⟨_,_,h⟩ := except_bind_eq_ok h
  cases h
  rfl

theorem fired_grows {e : Event} (ht : s.step e = .ok t) : s.fired <+: t.fired := by
  cases e with
  | tick u => cases ht; exact List.prefix_rfl
  | approximateNowInUsec => cases ht; exact List.prefix_rfl
  | waitForEventsAndExecuteCallbacks => exact (fired_waitForEvents ht).symm ▸ List.prefix_rfl
  | epollWaitReturns batch =>
    simp only [EventLoop.step] at ht
    split at ht
    · exact (fired_epollWaitReturns ht).symm ▸ List.prefix_rfl
    · cases ht
      exact List.prefix_rfl
  | epollWaitFails interrupted =>
    simp only [EventLoop.step,EventLoop.epollWaitFails] at ht
    split at ht
    · split_ifs at ht
      exact (fired_epollWaitReturns ht).symm ▸ List.prefix_rfl
    · cases ht
      exact List.prefix_rfl
  | eventsEnd =>
    simp only [EventLoop.step,EventLoop.eventsEnd] at ht
    split at ht
    · split_ifs at ht
      · obtain ⟨_,_,ht⟩ := except_bind_eq_ok ht
        cases ht
        exact List.prefix_rfl
      · cases ht
        exact List.prefix_rfl
    · cases ht
      exact List.prefix_rfl
  | iterate =>
    obtain ⟨c,_,ht⟩ := except_bind_eq_ok ht
    split at ht
    · cases ht; exact List.prefix_rfl
    · cases ht; exact List.prefix_rfl
    · cases ht; exact List.prefix_append _ _
  | op | alarm | nextReady | onEventReturns | delegateReturns =>
    obtain ⟨_,_,ht⟩ := except_bind_eq_ok ht
    cases ht
    exact List.prefix_rfl

theorem Ticking.of_round {fs : List Event} (hs : Ticking s) (h : round.Run s fs t) : Ticking t :=
  hs.run (h.weaken (fun he => he.1) rfl)

theorem Ticking.polledAt_eq (hs : Ticking s) (hp : s.phase = .alarms) {e : Event} (he : s.admits e)
    (ht : s.step e = .ok t) :
    (t.phase = .alarms ∨ t.phase = .outside) ∧ t.polledAtInUs = s.polledAtInUs := by
  cases hs.effect he ht with
  | starts hout => simp [hp] at hout
  | polls e b c _ hb => simp [hp] at hb
  | skips hb => simp [hp] at hb
  | begins hb => simp [hp] at hb
  | ends => exact ⟨Or.inr rfl,rfl⟩
  | _ => exact ⟨Or.inl hp,rfl⟩

theorem Ticking.polledAt_of_round {fs : List Event} (hs : Ticking s) (hp : s.phase = .alarms)
    (h : round.Run s fs t) : t.polledAtInUs = s.polledAtInUs := by
  have hrest := h.invariant (P:=fun u => Ticking u ∧ (u.phase = .alarms ∨ u.phase = .outside) ∧
    u.polledAtInUs = s.polledAtInUs) ?_ ⟨hs,Or.inl hp,rfl⟩
  · exact hrest.2.2
  · rintro u e v ⟨hu,hphase,hpolled⟩ he hv
    obtain ⟨hphase',hpolled'⟩ := hu.polledAt_eq (hphase.resolve_right he.2) he.1 hv
    exact ⟨hu.step he.1 hv,hphase',hpolled'.trans hpolled⟩

theorem Awaits.round (hr : x.registered = true) {fs : List Event} (hround : round.Run s fs t)
    (hs : Ticking s) (hkept : ∀ e ∈ fs, e.subject ≠ some a) (h : Awaits a x s) :
    ∃ new, t.fired = s.fired ++ new ∧
      (((a,t.polledAtInUs) ∈ new ∧ x.deadline ≤ t.polledAtInUs) ∨
        (Awaits a x t ∧ ∀ τ, (a,τ) ∉ new)) := by
  induction hround with
  | nil s => exact ⟨[],by simp,Or.inr ⟨h,by simp⟩⟩
  | @cons s u t e es he hst hrest ih =>
    have hu : Ticking u := hs.step he.1 hst
    obtain ⟨new,hnew,hcase⟩ := h.step hs hr he.1 he.2 (hkept e (by simp)) hst
    rcases hcase with ⟨rfl,hdue,hcalling,hpolled⟩ | ⟨hwait,hnot⟩
    · -- it was called in this step, and nothing takes that back
      obtain ⟨more,hmore⟩ : u.fired <+: t.fired :=
        hrest.invariant (P:=fun v => u.fired <+: v.fired)
          (fun hpre _ hv => hpre.trans (fired_grows hv)) List.prefix_rfl
      refine ⟨[(a,s.polledAtInUs)] ++ more,by rw [← hmore,hnew,List.append_assoc],Or.inl ?_⟩
      rw [hu.polledAt_of_round hcalling.phase hrest,hpolled]
      exact ⟨by simp,hdue⟩
    · obtain ⟨more,hmore,hcase⟩ := ih hu (fun e he => hkept e (by simp [he])) hwait
      refine ⟨new ++ more,by rw [hmore,hnew,List.append_assoc],?_⟩
      refine hcase.imp (fun hcall => ⟨by simp [hcall.1],hcall.2⟩) fun hstill =>
        ⟨hstill.1,fun τ hτ => ?_⟩
      exact (List.mem_append.mp hτ).elim (hnot τ) (hstill.2 τ)

theorem Awaits.start (hs : Ticking s) (hp : s.phase = .outside) (hx : s.alarms.alarms a = some x)
    (hr : x.registered = true) : Awaits a x s.startRound := by
  have hidle : s.alarms.control = .idle := hs.alarmsIdle (by simp [hp])
  have hnodes : s.alarms.server.alarmMap.nodes ≠ [] :=
    List.ne_nil_of_mem (hs.coherent.entry hx hr)
  refine ⟨hx,by simp [EventLoop.startRound,hidle,AlarmControl.firing],?_,(fun hp' => by cases hp'),
    (fun hp' => by cases hp'),(fun hp' => by cases hp')⟩
  rintro b (hb | hb)
  · cases hb
    simpa using hnodes
  · cases hb

theorem Ticking.wholeRound (hs : Ticking s) (hp : s.phase = .outside)
    (hx : s.alarms.alarms a = some x) (hr : x.registered = true) {u : EventLoop} {fs : List Event}
    (hstart : s.waitForEventsAndExecuteCallbacks = .ok u) (hround : round.Run u fs t)
    (hkept : ∀ e ∈ fs, e.subject ≠ some a) :
    ∃ new, t.fired = s.fired ++ new ∧
      (((a,t.polledAtInUs) ∈ new ∧ x.deadline ≤ t.polledAtInUs) ∨
        (Awaits a x t ∧ ∀ τ, (a,τ) ∉ new)) := by
  obtain rfl : s.startRound = u := Except.ok.inj ((hs.starts hp).symm.trans hstart)
  have hwhole := (Awaits.start hs hp hx hr).round hr hround (hs.startRound hp) hkept
  exact hwhole

/-- An alarm that stands when a round starts, and that nobody cancels, moves or destroys in
this round, is called in it exactly if its deadline had passed when `epoll_wait` returned,
whatever the other callbacks of the round do. -/
theorem alarm_fires_iff_due {debug : Bool} {now : ℤ} (hnow : 0 < now) {es fs : List Event}
    {u : EventLoop} (hrun : machine.Run (init debug now) es s) (hp : s.phase = .outside)
    (hx : s.alarms.alarms a = some x) (hr : x.registered = true)
    (hstart : s.waitForEventsAndExecuteCallbacks = .ok u) (hround : round.Run u fs t)
    (hkept : ∀ e ∈ fs, e.subject ≠ some a) (hend : t.phase = .outside) :
    ∃ new, t.fired = s.fired ++ new ∧ ((∃ τ, (a,τ) ∈ new) ↔ x.deadline ≤ t.polledAtInUs) := by
  have hs : Ticking s := (Ticking.initial hnow).run hrun
  obtain ⟨new,hnew,hcase⟩ := hs.wholeRound hp hx hr hstart hround hkept
  refine ⟨new,hnew,?_⟩
  rcases hcase with ⟨hcall,hdue⟩ | ⟨hwait,hnot⟩
  · exact ⟨fun _ => hdue,fun _ => ⟨_,hcall⟩⟩
  · refine ⟨fun ⟨τ,hτ⟩ => absurd hτ (hnot τ),fun hdue => ?_⟩
    exact absurd hdue (not_le.mpr (hwait.missed hend))

/-- The round of the second of three alarms: the descriptor that came first cancels one of
the others, and the delegate of the first sets itself again for a time that has passed. -/
theorem alarm_fires_iff_due_second : ∃ s u t new, machine.Run (init true 5000)
      [.op (.registerFD 3 7 epollIn),.alarm (.create 1),.alarm (.create 2),.alarm (.create 4),
        .alarm (.set 1 5500),.alarm (.set 2 5600),.alarm (.set 4 5700)] s ∧
    s.waitForEventsAndExecuteCallbacks = .ok u ∧ round.Run u
      [.tick 6000,.epollWaitReturns [(3,epollIn)],.nextReady,.alarm (.cancel 4),
        .onEventReturns 0,.nextReady,.eventsEnd,.iterate,.alarm (.set 1 5550),.delegateReturns 0,
        .iterate,.delegateReturns 0,.iterate,.delegateReturns 0,.iterate] t ∧
    t.fired = s.fired ++ new ∧ ((∃ τ, (2,τ) ∈ new) ↔ 5600 ≤ t.polledAtInUs) ∧
    t.fired = [(1,6000),(1,6000),(2,6000)] := by
  obtain ⟨s,hs,hend⟩ : ∃ s, machine.Run (init true 5000)
      [.op (.registerFD 3 7 epollIn),.alarm (.create 1),.alarm (.create 2),.alarm (.create 4),
        .alarm (.set 1 5500),.alarm (.set 2 5600),.alarm (.set 4 5700)] s ∧
      (decide (s.phase = .outside ∧ (s.alarms.alarms 2).any
          (fun x => decide (x.registered = true ∧ x.deadline = 5600)) = true) &&
        (round.exec s.startRound
          [.tick 6000,.epollWaitReturns [(3,epollIn)],.nextReady,.alarm (.cancel 4),
            .onEventReturns 0,.nextReady,.eventsEnd,.iterate,.alarm (.set 1 5550),.delegateReturns 0,
            .iterate,.delegateReturns 0,.iterate,.delegateReturns 0,.iterate]).any (fun t =>
              decide (t.phase = .outside ∧ t.fired = [(1,6000),(1,6000),(2,6000)]))) = true :=
    machine.exists_run_of_exec_any (by decide +kernel)
  obtain ⟨hs',ht⟩ := Bool.and_eq_true_iff.mp hend
  obtain ⟨hp,hx⟩ := of_decide_eq_true hs'
  obtain ⟨x,hx,hr⟩ := (Option.any_eq_true _ _).mp hx
  obtain ⟨hr,hd⟩ := of_decide_eq_true hr
  obtain ⟨t,hround,ht⟩ := round.exists_run_of_exec_any ht
  obtain ⟨hout,hfired⟩ := of_decide_eq_true ht
  have hstart := ((Ticking.initial (by decide)).run hs).starts hp
  obtain ⟨new,hnew,hiff⟩ := alarm_fires_iff_due (by decide) hs hp hx hr hstart hround
    (by simp [Event.subject,AlarmConfig.Event.subject]) hout
  exact ⟨s,_,t,new,hs,hstart,hround,hnew,hd ▸ hiff,hfired⟩

end Due

end EventLoop
end CmuQuic
