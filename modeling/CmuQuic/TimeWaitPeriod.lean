import CmuQuic.AlarmTokens
import CmuQuic.TimeWaitList

/-! The time-wait list driven by the event loop: the approximate clock, the clean-up
alarm and every other alarm of the process. -/
namespace CmuQuic

/-- How far `WaitForEventsAndExecuteCallbacks` has got; the flag says whether it
found `alarm_map_` non-empty when it began. -/
inductive WaitPhase
  | outside
  | waiting (hasAlarms : Bool)
  | events (hasAlarms : Bool)
  | alarms
  deriving DecidableEq

structure TimeWaitServer where
  alarms : AlarmConfig
  list : TimeWaitList
  nowInUsec : ℤ
  recordedNowInUs : ℤ
  phase : WaitPhase
  lingeredErrors : ℕ

namespace TimeWaitServer

def approximateNowInUsec (c : TimeWaitServer) : ℤ :=
  if c.recordedNowInUs ≠ 0 then c.recordedNowInUs else c.nowInUsec

section Manager

variable (period : ℤ) (cleanUp : AlarmCB)

/-- The interval until the next clean-up, and the number of error lines logged. -/
def nextAlarmInterval (l : TimeWaitList) (now : ℤ) : ℤ × ℕ :=
  match l.entries with
  | [] => (period,0)
  | (_,data) :: _ =>
    if now-data.timeAdded < period then (data.timeAdded+period-now,0) else (0,1)

def setConnectionIdCleanUpAlarm (c : TimeWaitServer) : Except Abort TimeWaitServer := do
  let a ← c.alarms.cancel cleanUp
  let next := nextAlarmInterval period c.list c.approximateNowInUsec
  let a ← a.set cleanUp (c.approximateNowInUsec+next.1)
  .ok { c with alarms := a, lingeredErrors := c.lingeredErrors+next.2 }

def cleanUpOldConnectionIds (c : TimeWaitServer) : Except Abort TimeWaitServer :=
  setConnectionIdCleanUpAlarm period cleanUp
    { c with list := c.list.expireOldConnections (.us (c.approximateNowInUsec-period)) }

/-- The manager is constructed between two rounds, with its own fresh alarm. -/
def start (a : AlarmConfig) (nowInUsec : ℤ) : Except Abort TimeWaitServer :=
  setConnectionIdCleanUpAlarm period cleanUp ⟨a,.init,nowInUsec,0,.outside,0⟩

inductive Event
  | tick (nowInUsec : ℤ)
  | add (maxConnections : ℤ) (id : ConnectionId) (version : QuicVersion)
    (closePacket : Option PacketId)
  | processPacket (id : ConnectionId)
  | alarm (e : AlarmConfig.Event)
  | waitForEventsAndExecuteCallbacks
  | epollWaitReturns
  | callAndReregisterAlarmEvents
  | iterate
  | delegateReturns (deadline : ℤ)

def running (c : TimeWaitServer) : Bool :=
  match c.phase with
  | .outside => true
  | .waiting _ => false
  | .events _ => true
  | .alarms => !c.alarms.control.atLoop

/-- The clock never goes back, and only the manager uses its own alarm. -/
def admits (c : TimeWaitServer) : Event → Prop
  | .tick t => c.nowInUsec ≤ t
  | .add maxConnections _ _ _ => c.running = true ∧ (maxConnections < 0 ∨ 1 ≤ maxConnections)
  | .processPacket id => c.running = true ∧ c.list.isConnectionIdInTimeWait id = true
  | .alarm e => c.running = true ∧ e.subject ≠ none ∧ e.subject ≠ some cleanUp ∧ c.alarms.admits e
  | .waitForEventsAndExecuteCallbacks => c.phase = .outside
  | .epollWaitReturns => c.phase = .waiting true ∨ c.phase = .waiting false
  | .callAndReregisterAlarmEvents => c.phase = .events true ∨ c.phase = .events false
  | .iterate => c.phase = .alarms ∧ c.alarms.control.atLoop = true
  | .delegateReturns _ => c.phase = .alarms ∧ c.alarms.control.firing ≠ none

/-- One iteration of the alarm loop. The delegate of the clean-up alarm runs to its
end here; every other delegate is left to later events. -/
def iterate (c : TimeWaitServer) : Except Abort TimeWaitServer := do
  let a ← c.alarms.step .iterate
  let c := { c with alarms := a }
  match a.control with
  | .idle => .ok { c with phase := .outside, recordedNowInUs := 0 }
  | .loop _ _ => .ok c
  | .onAlarm _ _ cb =>
    if cb = cleanUp then do
      let c ← cleanUpOldConnectionIds period cleanUp c
      let a ← c.alarms.step (.delegateReturns 0)
      .ok { c with alarms := a }
    else .ok c

def step (c : TimeWaitServer) : Event → Except Abort TimeWaitServer
  | .tick t => .ok { c with nowInUsec := t }
  | .add maxConnections id version closePacket => do
    let l ← c.list.addConnectionIdToTimeWait maxConnections c.approximateNowInUsec id version
      closePacket
    .ok { c with list := l }
  | .processPacket id => .ok { c with list := c.list.countPacket id }
  | .alarm e => do
    let a ← c.alarms.step e
    .ok { c with alarms := a }
  | .waitForEventsAndExecuteCallbacks =>
    .ok { c with phase := .waiting (!c.alarms.server.alarmMap.nodes.isEmpty) }
  | .epollWaitReturns =>
    match c.phase with
    | .waiting hasAlarms => .ok { c with phase := .events hasAlarms, recordedNowInUs := c.nowInUsec }
    | _ => .ok c
  | .callAndReregisterAlarmEvents =>
    if c.phase = .events true then do
      let a ← c.alarms.step (.callAndReregisterAlarmEvents c.recordedNowInUs)
      .ok { c with alarms := a, phase := .alarms }
    else .ok { c with phase := .outside, recordedNowInUs := 0 }
  | .iterate => c.iterate period cleanUp
  | .delegateReturns deadline => do
    let a ← c.alarms.step (.delegateReturns deadline)
    .ok { c with alarms := a }

def machine : Machine TimeWaitServer Event Abort := ⟨admits cleanUp,step period cleanUp⟩

def cleanUpIsNext (c : TimeWaitServer) : Prop :=
  ∃ now n, c.alarms.control = .loop now (some n.token) ∧ n ∈ c.alarms.server.alarmMap.nodes ∧
    n.val = cleanUp ∧ n.key ≤ now

end Manager

structure Timely (period : ℤ) (cleanUp : AlarmCB) (c : TimeWaitServer) : Prop where
  coherent : c.alarms.Coherent
  ordered : c.list.entries.Pairwise fun e e' => e.2.timeAdded ≤ e'.2.timeAdded
  past : ∀ e ∈ c.list.entries, e.2.timeAdded ≤ c.approximateNowInUsec
  recorded : c.recordedNowInUs ≠ 0 → c.recordedNowInUs ≤ c.nowInUsec
  armed : ∃ x, c.alarms.alarms cleanUp = some x ∧ x.registered = true ∧
    (∀ e ∈ c.list.entries, x.deadline ≤ e.2.timeAdded+period) ∧
    x.deadline ≤ c.approximateNowInUsec+period ∧
    (c.phase = .alarms → x.deadline ≤ c.recordedNowInUs →
      ⟨x.token,x.deadline,cleanUp⟩ ∈ c.alarms.ahead)
  before : c.phase = .outside ∨ (∃ b, c.phase = .waiting b) → c.recordedNowInUs = 0
  idle : c.phase ≠ .alarms → c.alarms.control = .idle
  looping : c.phase = .alarms → c.recordedNowInUs ≠ 0 ∧
    c.alarms.control.now = some c.recordedNowInUs ∧ c.alarms.control.firing ≠ some cleanUp
  hasAlarms : c.phase ≠ .waiting false ∧ c.phase ≠ .events false
  quiet : c.lingeredErrors = 0

section Steps

variable {period : ℤ} {cleanUp : AlarmCB} {c : TimeWaitServer}

theorem approximate_tick {t : ℤ} (h : c.nowInUsec ≤ t) :
    c.approximateNowInUsec ≤ approximateNowInUsec { c with nowInUsec := t } := by
  unfold approximateNowInUsec
  split_ifs
  · exact le_rfl
  · exact h

theorem Timely.firing (h : Timely period cleanUp c) :
    c.alarms.control.firing ≠ some cleanUp := by
  by_cases hp : c.phase = .alarms
  · exact (h.looping hp).2.2
  · simp [h.idle hp,AlarmControl.firing]

theorem Timely.tick (h : Timely period cleanUp c) {t : ℤ} (ht : c.nowInUsec ≤ t) :
    Timely period cleanUp { c with nowInUsec := t } := by
  have hle := approximate_tick ht
  obtain ⟨x,hx,hr,hd,hnow,hahead⟩ := h.armed
  exact ⟨h.coherent,h.ordered,fun e he => (h.past e he).trans hle,fun hrec => (h.recorded hrec).trans ht,
    ⟨x,hx,hr,hd,hnow.trans (by gcongr),hahead⟩,h.before,h.idle,h.looping,h.hasAlarms,h.quiet⟩

theorem Timely.add (h : Timely period cleanUp c) {max : ℤ} (hmax : max < 0 ∨ 1 ≤ max)
    {id : ConnectionId} {version : QuicVersion} {closePacket : Option PacketId} {l : TimeWaitList}
    (hl : c.list.addConnectionIdToTimeWait max c.approximateNowInUsec id version closePacket = .ok l) :
    Timely period cleanUp { c with list := l } := by
  obtain ⟨l₁,k,_,hk,hl⟩ := TimeWaitList.add_ok hmax hl
  have hsub : l₁.entries.Sublist c.list.entries := by
    rw [hk]
    exact (List.drop_sublist _ _).trans List.filter_sublist
  have hmem : ∀ e ∈ l.entries, e ∈ c.list.entries ∨ e.2.timeAdded = c.approximateNowInUsec := by
    intro e he
    rw [hl] at he
    rcases List.mem_append.mp he with he | he
    · exact Or.inl (hsub.subset he)
    · exact Or.inr (by rw [List.mem_singleton.mp he])
  obtain ⟨x,hx,hr,hd,hnow,hahead⟩ := h.armed
  refine ⟨h.coherent,?_,?_,h.recorded,⟨x,hx,hr,?_,hnow,hahead⟩,h.before,h.idle,h.looping,h.hasAlarms,
    h.quiet⟩
  · show l.entries.Pairwise _
    rw [hl]
    refine List.pairwise_append.mpr ⟨h.ordered.sublist hsub,by simp,fun a ha b hb => ?_⟩
    rw [List.mem_singleton.mp hb]
    exact h.past a (hsub.subset ha)
  · intro e he
    rcases hmem e he with he | he
    · exact h.past e he
    · exact he.le
  · intro e he
    rcases hmem e he with he | he
    · exact hd e he
    · exact he ▸ hnow

theorem Timely.counts (h : Timely period cleanUp c) (id : ConnectionId) :
    Timely period cleanUp { c with list := c.list.countPacket id } := by
  obtain ⟨f,hf,htime⟩ := c.list.entries_countPacket id
  have hmem : ∀ e ∈ (c.list.countPacket id).entries,
      ∃ e₀ ∈ c.list.entries, e.2.timeAdded = e₀.2.timeAdded := by
    intro e he
    rw [hf] at he
    obtain ⟨e₀,he₀,rfl⟩ := List.mem_map.mp he
    exact ⟨e₀,he₀,(htime e₀).2⟩
  obtain ⟨x,hx,hr,hd,hnow,hahead⟩ := h.armed
  refine ⟨h.coherent,?_,?_,h.recorded,⟨x,hx,hr,?_,hnow,hahead⟩,h.before,h.idle,h.looping,h.hasAlarms,
    h.quiet⟩
  · show (c.list.countPacket id).entries.Pairwise _
    rw [hf,List.pairwise_map]
    exact h.ordered.imp fun hab => by rwa [(htime _).2,(htime _).2]
  · intro e he
    obtain ⟨e₀,he₀,ht⟩ := hmem e he
    exact ht ▸ h.past e₀ he₀
  · intro e he
    obtain ⟨e₀,he₀,ht⟩ := hmem e he
    exact ht ▸ hd e₀ he₀

theorem Timely.other (h : Timely period cleanUp c) {e : AlarmConfig.Event} {a : AlarmConfig}
    (he : AlarmConfig.machine.admits c.alarms e) (hs : AlarmConfig.Stepped c.alarms e a)
    (ha : a.Coherent) (hsub : e.subject ≠ some cleanUp) (hf : a.control.firing ≠ some cleanUp)
    (hidle : c.phase ≠ .alarms → a.control = .idle)
    (hnow : c.phase = .alarms → a.control.now = some c.recordedNowInUs) :
    Timely period cleanUp { c with alarms := a } := by
  obtain ⟨x,hx,hr,hd,hle,hahead⟩ := h.armed
  obtain ⟨hx',hahead'⟩ := hs.other h.coherent he hx hr hsub h.firing hf
  refine ⟨ha,h.ordered,h.past,h.recorded,⟨x,hx',hr,hd,hle,fun hp hdue => ?_⟩,h.before,hidle,
    fun hp => ⟨(h.looping hp).1,hnow hp,hf⟩,h.hasAlarms,h.quiet⟩
  refine hahead' (hahead hp hdue) fun hi => ?_
  have hn := hnow hp
  simp [hi,AlarmControl.now] at hn

theorem Timely.alarm (h : Timely period cleanUp c) {e : AlarmConfig.Event} {a : AlarmConfig}
    (he : c.alarms.admits e) (hsome : e.subject ≠ none) (hsub : e.subject ≠ some cleanUp)
    (ha : c.alarms.step e = .ok a) : Timely period cleanUp { c with alarms := a } := by
  obtain ⟨hs,hco⟩ := h.coherent.of_step he ha
  have hctl := hs.control_eq hsome
  exact h.other he hs hco hsub (by rw [hctl]; exact h.firing) (fun hp => by rw [hctl]; exact h.idle hp)
    (fun hp => by rw [hctl]; exact (h.looping hp).2.1)

theorem Timely.waits (h : Timely period cleanUp c) (hp : c.phase = .outside) :
    Timely period cleanUp
      { c with phase := .waiting (!c.alarms.server.alarmMap.nodes.isEmpty) } := by
  obtain ⟨x,hx,hr,hd,hnow,_⟩ := h.armed
  have hne : c.alarms.server.alarmMap.nodes.isEmpty = false := by
    simpa using List.ne_nil_of_mem (h.coherent.entry hx hr)
  have h0 := h.before (Or.inl hp)
  refine ⟨h.coherent,h.ordered,h.past,h.recorded,⟨x,hx,hr,hd,hnow,by simp⟩,fun _ => h0,
    fun _ => h.idle (by simp [hp]),by simp,by simp [hne],h.quiet⟩

theorem Timely.records (h : Timely period cleanUp c) {b : Bool} (hp : c.phase = .waiting b) :
    Timely period cleanUp { c with phase := .events b, recordedNowInUs := c.nowInUsec } := by
  have h0 : c.recordedNowInUs = 0 := h.before (Or.inr ⟨b,hp⟩)
  have happrox : approximateNowInUsec { c with phase := .events b, recordedNowInUs := c.nowInUsec } =
      c.approximateNowInUsec := by simp [approximateNowInUsec,h0]
  obtain ⟨x,hx,hr,hd,hnow,_⟩ := h.armed
  refine ⟨h.coherent,h.ordered,happrox ▸ h.past,fun _ => le_rfl,
    ⟨x,hx,hr,hd,happrox ▸ hnow,by simp⟩,by simp,fun _ => h.idle (by simp [hp]),by simp,?_,h.quiet⟩
  have hb := h.hasAlarms.1
  rw [hp] at hb
  exact ⟨by simp,by simpa using hb⟩

theorem Timely.begins (h : Timely period cleanUp c) (hp : c.phase = .events true) {a : AlarmConfig}
    (ha : c.alarms.step (.callAndReregisterAlarmEvents c.recordedNowInUs) = .ok a) :
    Timely period cleanUp { c with alarms := a, phase := .alarms } := by
  have hidle := h.idle (by simp [hp])
  have hne : c.recordedNowInUs ≠ 0 := by
    intro h0
    simp [AlarmConfig.step,h0] at ha
  obtain ⟨hs,hco⟩ := h.coherent.of_step
    (e:=.callAndReregisterAlarmEvents c.recordedNowInUs) ⟨hidle,hne⟩ ha
  cases hs with
  | begins =>
    obtain ⟨x,hx,hr,hd,hnow,_⟩ := h.armed
    refine ⟨hco,h.ordered,h.past,h.recorded,⟨x,hx,hr,hd,hnow,fun _ _ => ?_⟩,by simp,by simp,
      fun _ => ⟨hne,rfl,by simp [AlarmControl.firing]⟩,by simp,h.quiet⟩
    show _ ∈ c.alarms.server.alarmMap.ahead c.alarms.server.alarmMap.first
    rw [Multimap.ahead_first]
    exact h.coherent.entry hx hr

theorem Timely.approximate (h : Timely period cleanUp c) (hp : c.phase = .alarms) :
    c.approximateNowInUsec = c.recordedNowInUs := if_pos (h.looping hp).1

/-- When the loop ends it has gone past every deadline that is due, so the clean-up
alarm is set for later. -/
theorem Timely.later (h : Timely period cleanUp c) (hp : c.phase = .alarms) {now : ℤ} {i : Option ℕ}
    (hctl : c.alarms.control = .loop now i)
    (hi : ∀ t, i = some t → ∃ n ∈ c.alarms.server.alarmMap.nodes, n.token = t ∧ now < n.key) :
    ∃ x, c.alarms.alarms cleanUp = some x ∧ c.recordedNowInUs < x.deadline := by
  obtain ⟨x,hx,_,_,_,hahead⟩ := h.armed
  refine ⟨x,hx,not_le.mp fun hle => ?_⟩
  have hnow : now = c.recordedNowInUs := by
    simpa [hctl,AlarmControl.now] using (h.looping hp).2.1
  have hmem := hahead hp hle
  simp only [AlarmConfig.ahead,hctl] at hmem
  cases i with
  | none => simp [Multimap.ahead] at hmem
  | some t =>
    obtain ⟨n,hn,rfl,hlt⟩ := hi t rfl
    obtain ⟨rest,hrest⟩ := Multimap.ahead_cons hn
    have hsorted := c.alarms.server.alarmMap.sorted.sublist
      (c.alarms.server.alarmMap.ahead_sublist (some n.token))
    rw [hrest] at hmem hsorted
    rcases List.mem_cons.mp hmem with he | he
    · rw [← he] at hlt
      exact absurd hlt (by simp [hnow,hle])
    · have hkey := (List.pairwise_cons.mp hsorted).1 _ he
      exact absurd (hlt.trans_le hkey) (by simp [hnow,hle])

theorem Timely.ends (h : Timely period cleanUp c) (hp : c.phase = .alarms) {a : AlarmConfig}
    (ha : a.Coherent) (hidle : a.control = .idle) (hsame : a.alarms = c.alarms.alarms) :
    Timely period cleanUp { c with alarms := a, phase := .outside, recordedNowInUs := 0 } := by
  have happrox := h.approximate hp
  have hle : c.approximateNowInUsec ≤ c.nowInUsec :=
    happrox.trans_le (h.recorded (h.looping hp).1)
  obtain ⟨x,hx,hr,hd,hnow,_⟩ := h.armed
  refine ⟨ha,h.ordered,fun e he => (h.past e he).trans hle,by simp,
    ⟨x,hsame ▸ hx,hr,hd,hnow.trans ?_,by simp⟩,by simp,fun _ => hidle,by simp,by simp,h.quiet⟩
  show _ ≤ c.nowInUsec+period
  gcongr

/-- With everything that has expired gone, the interval is positive and leads to the
expiry of the oldest entry. -/
theorem nextAlarmInterval_pos {l : TimeWaitList} {now : ℤ} (hper : 0 < period)
    (ho : l.entries.Pairwise fun e e' => e.2.timeAdded ≤ e'.2.timeAdded)
    (hpast : ∀ e ∈ l.entries, e.2.timeAdded ≤ now)
    (hfresh : ∀ e ∈ l.entries, now-period < e.2.timeAdded) :
    (nextAlarmInterval period l now).2 = 0 ∧ 0 < (nextAlarmInterval period l now).1 ∧
      (nextAlarmInterval period l now).1 ≤ period ∧
      ∀ e ∈ l.entries, now+(nextAlarmInterval period l now).1 ≤ e.2.timeAdded+period := by
  cases he : l.entries with
  | nil => simp [nextAlarmInterval,he,hper]
  | cons x xs =>
    rw [he] at ho hpast hfresh
    have hx := hfresh x (List.mem_cons_self ..)
    have hx' := hpast x (List.mem_cons_self ..)
    have hlt : now-x.2.timeAdded < period := by omega
    simp only [nextAlarmInterval,he,if_pos hlt]
    refine ⟨trivial,by omega,by omega,fun e hmem => ?_⟩
    rcases List.mem_cons.mp hmem with rfl | hmem
    · omega
    · have hle := (List.pairwise_cons.mp ho).1 e hmem
      omega

theorem setConnectionIdCleanUpAlarm_ok {c' : TimeWaitServer} {x : QuicEpollAlarm}
    (hco : c.alarms.Coherent) (hl : c.alarms.control.atLoop = false)
    (hx : c.alarms.alarms cleanUp = some x) (hd : x.deadline = 0)
    (h : c.setConnectionIdCleanUpAlarm period cleanUp = .ok c') :
    ∃ d, d = c.approximateNowInUsec+(nextAlarmInterval period c.list c.approximateNowInUsec).1 ∧
      d ≠ 0 ∧ c' = { c with
        alarms := c.alarms.armedAt cleanUp d
        lingeredErrors := c.lingeredErrors +
          (nextAlarmInterval period c.list c.approximateNowInUsec).2 } := by
  obtain ⟨a,ha,_,haeq⟩ := hco.cancel_ok hl hx
  rw [if_neg (by simp [(hco.unregistered_of_deadline hx hd).1])] at haeq
  subst haeq
  rw [setConnectionIdCleanUpAlarm,ha,except_ok_bind] at h
  have h₀ : c.approximateNowInUsec+(nextAlarmInterval period c.list c.approximateNowInUsec).1 ≠ 0 := by
    intro h₀
    simp [h₀,AlarmConfig.set,hx,AlarmConfig.write,AlarmConfig.setImpl] at h
    cases h
  refine ⟨_,rfl,h₀,?_⟩
  simp only [hco.set_ok hx hd h₀,except_ok_bind] at h
  exact (Except.ok.inj h).symm

theorem Timely.start {a : AlarmConfig} {now : ℤ} (ha : a.Coherent)
    (hidle : a.control = .idle) (hnew : a.hasNoDeadline cleanUp)
    (h : TimeWaitServer.start period cleanUp a now = .ok c) : Timely period cleanUp c := by
  obtain ⟨x,hx,hd⟩ : ∃ x, a.alarms cleanUp = some x ∧ x.deadline = 0 := by
    simpa [AlarmConfig.hasNoDeadline,Option.any_eq_true] using hnew
  have hl : a.control.atLoop = false := by simp [hidle,AlarmControl.atLoop]
  obtain ⟨d,hdef,hd₀,rfl⟩ := setConnectionIdCleanUpAlarm_ok (c:=⟨a,.init,now,0,.outside,0⟩) ha hl hx hd h
  have hnil : TimeWaitList.init.entries = [] := rfl
  have happrox : approximateNowInUsec ⟨a,.init,now,0,.outside,0⟩ = now := rfl
  simp only [happrox,nextAlarmInterval,hnil] at hdef
  refine ⟨ha.armedAt hl hx hd hd₀,by simp [hnil],by simp [hnil],by simp,
    ⟨⟨d,true,_⟩,Function.update_self _ _ _,rfl,by simp [hnil],hdef.le,by simp⟩,by simp,
    fun _ => hidle,by simp,by simp,by simp [nextAlarmInterval,hnil]⟩

theorem Timely.cleansUp (h : Timely period cleanUp c) (hper : 0 < period) (hp : c.phase = .alarms)
    {now : ℤ} {i : ℕ} {x : QuicEpollAlarm} {c₁ c' : TimeWaitServer} {a : AlarmConfig}
    (hco : (c.alarms.fired now i cleanUp x).Coherent) (hnow : now = c.recordedNowInUs)
    (hc₁ : cleanUpOldConnectionIds period cleanUp
      { c with alarms := c.alarms.fired now i cleanUp x } = .ok c₁)
    (ha : c₁.alarms.step (.delegateReturns 0) = .ok a) (hc' : c' = { c₁ with alarms := a }) :
    Timely period cleanUp c' ∧
      c'.list = c.list.expireOldConnections (.us (c.approximateNowInUsec-period)) ∧
      c'.phase = .alarms ∧
      ∃ y, c'.alarms.alarms cleanUp = some y ∧ y.registered = true ∧
        c.approximateNowInUsec < y.deadline := by
  have happrox := h.approximate hp
  obtain ⟨d,hdef,hd₀,rfl⟩ := setConnectionIdCleanUpAlarm_ok (c:={ c with
      alarms := c.alarms.fired now i cleanUp x
      list := c.list.expireOldConnections (.us (c.approximateNowInUsec-period)) })
    hco rfl (Function.update_self _ _ _) rfl hc₁
  have hca := hco.armedAt rfl (Function.update_self _ _ _) rfl hd₀
  obtain ⟨hs,hcoa⟩ := hca.of_step (e:=.delegateReturns 0)
    (by simp [AlarmConfig.machine,AlarmConfig.admits,AlarmConfig.armedAt,AlarmConfig.fired,
      AlarmControl.firing]) ha
  subst hc'
  have hmem := fun e => c.list.mem_expireOldConnections h.ordered (c.approximateNowInUsec-period) (e:=e)
  have ho : (c.list.expireOldConnections (.us (c.approximateNowInUsec-period))).entries.Pairwise
      fun e e' => e.2.timeAdded ≤ e'.2.timeAdded := by
    rw [TimeWaitList.entries_expireOldConnections]
    exact h.ordered.sublist (List.dropWhile_sublist _)
  obtain ⟨hquiet,hpos,hle,hdl⟩ := nextAlarmInterval_pos hper ho
    (fun e he => h.past e ((hmem e).mp he).1) (fun e he => ((hmem e).mp he).2)
  have hdef : d = c.approximateNowInUsec+(nextAlarmInterval period (c.list.expireOldConnections
    (.us (c.approximateNowInUsec-period))) c.approximateNowInUsec).1 := hdef
  have hd : c.approximateNowInUsec < d := by omega
  cases hs with
  | rearms => simp_all
  | returns now' i' b y _ hctl =>
    obtain ⟨rfl,rfl,rfl⟩ := AlarmControl.onAlarm.inj hctl
    refine ⟨⟨hcoa,ho,fun e he => h.past e ((hmem e).mp he).1,h.recorded,⟨⟨d,true,_⟩,
      Function.update_self _ _ _,rfl,?_,?_,fun _ hdue => ?_⟩,h.before,fun hne => absurd hp hne,
      fun _ => ⟨(h.looping hp).1,?_,by simp [AlarmConfig.erased,AlarmControl.firing]⟩,h.hasAlarms,?_⟩,rfl,hp,
      ⟨d,true,_⟩,Function.update_self _ _ _,rfl,hd⟩
    · exact fun e he => hdef ▸ hdl e he
    · show d ≤ c.approximateNowInUsec+period
      omega
    · exact absurd (happrox ▸ hdue : d ≤ c.approximateNowInUsec) (not_le.mpr hd)
    · simp [AlarmConfig.erased,AlarmControl.now,hnow]
    · show c.lingeredErrors+_ = 0
      rw [h.quiet,Nat.zero_add]
      exact hquiet

/-- Everything an iteration of the alarm loop can be for the manager. -/
inductive Iterated (period : ℤ) (cleanUp : AlarmCB) (c c' : TimeWaitServer) : Prop
  | ends : c'.list = c.list → c'.phase = .outside →
    (∀ e ∈ c'.list.entries, c.recordedNowInUs-period < e.2.timeAdded) → ¬cleanUpIsNext cleanUp c →
    Iterated period cleanUp c c'
  | other : c'.list = c.list → c'.phase = .alarms → ¬cleanUpIsNext cleanUp c →
    Iterated period cleanUp c c'
  | cleansUp : cleanUpIsNext cleanUp c →
    c'.list = c.list.expireOldConnections (.us (c.approximateNowInUsec-period)) → c'.phase = .alarms →
    (∃ y, c'.alarms.alarms cleanUp = some y ∧ y.registered = true ∧
      c.approximateNowInUsec < y.deadline) → Iterated period cleanUp c c'

theorem Timely.iterate (h : Timely period cleanUp c) (hper : 0 < period) (hp : c.phase = .alarms)
    (hl : c.alarms.control.atLoop = true) {c' : TimeWaitServer}
    (hc' : c.iterate period cleanUp = .ok c') :
    Timely period cleanUp c' ∧ Iterated period cleanUp c c' := by
  obtain ⟨a,ha,hs,hco⟩ := h.coherent.iterate hl
  rw [TimeWaitServer.iterate,ha,except_ok_bind] at hc'
  have hloop := (h.looping hp).2.1
  have hold := fun n m => Multimap.eq_of_token (m:=c.alarms.server.alarmMap) (x:=n) (y:=m)
  cases hs with
  | ends now i hctl hi =>
    obtain rfl := Except.ok.inj hc'
    obtain ⟨x,hx,hlt⟩ := h.later hp hctl hi
    refine ⟨h.ends hp hco rfl rfl,.ends rfl rfl (fun e he => ?_) ?_⟩
    · obtain ⟨y,hy,_,hd,_⟩ := h.armed
      rw [hx] at hy
      cases hy
      have hde := hd e he
      omega
    · rintro ⟨now',n,hctl',hn,_,hk⟩
      rw [hctl] at hctl'
      obtain ⟨rfl,rfl⟩ := AlarmControl.loop.inj hctl'
      obtain ⟨m,hm,htok,hkm⟩ := hi _ rfl
      rw [hold m n hm hn htok] at hkm
      omega
  | fire now n x hctl hn hk hx hr htok =>
    have hnow : now = c.recordedNowInUs := by simpa [hctl,AlarmControl.now] using hloop
    by_cases hcb : n.val = cleanUp
    · have hnext : cleanUpIsNext cleanUp c := ⟨now,n,hctl,hn,hcb,hk⟩
      subst hcb
      have hc₂ : (do
          let c₁ ← cleanUpOldConnectionIds period n.val
            { c with alarms := c.alarms.fired now n.token n.val x }
          let a ← c₁.alarms.step (.delegateReturns 0)
          .ok { c₁ with alarms := a }) = .ok c' := by
        simpa only [AlarmConfig.fired,if_true] using hc'
      obtain ⟨c₁,hc₁,hc₂⟩ := except_bind_eq_ok hc₂
      obtain ⟨a,ha',hc₂⟩ := except_bind_eq_ok hc₂
      obtain ⟨ht,hlist,hphase,hy⟩ := h.cleansUp hper hp hco hnow hc₁ ha' (Except.ok.inj hc₂).symm
      exact ⟨ht,.cleansUp hnext hlist hphase hy⟩
    · obtain rfl : { c with alarms := c.alarms.fired now n.token n.val x } = c' := by
        simpa [AlarmConfig.fired,hcb] using hc'
      have hstep : AlarmConfig.Stepped c.alarms .iterate (c.alarms.fired now n.token n.val x) :=
        .fire now n x hctl hn hk hx hr htok
      refine ⟨h.other (e:=.iterate) hl hstep hco (by simp [AlarmConfig.Event.subject]) ?_ (fun hne => absurd hp hne)
        fun _ => by simp [AlarmConfig.fired,AlarmControl.now,hnow],.other rfl hp ?_⟩
      · simpa [AlarmConfig.fired,AlarmControl.firing] using hcb
      · rintro ⟨now',m,hctl',hm,hmc,_⟩
        rw [hctl] at hctl'
        obtain ⟨_,htok'⟩ := AlarmControl.loop.inj hctl'
        rw [hold n m hn hm (Option.some.inj htok')] at hcb
        exact hcb hmc

theorem Timely.delegateReturns (h : Timely period cleanUp c) (hp : c.phase = .alarms)
    (hf : c.alarms.control.firing ≠ none) {deadline : ℤ} {a : AlarmConfig}
    (ha : c.alarms.step (.delegateReturns deadline) = .ok a) :
    Timely period cleanUp { c with alarms := a } := by
  obtain ⟨hs,hco⟩ := h.coherent.of_step (e:=.delegateReturns deadline) hf ha
  have hctl : ∃ i, a.control = .loop c.recordedNowInUs i := by
    have hloop := (h.looping hp).2.1
    cases hs with
    | returns now i b x d hctl =>
      simp only [hctl,AlarmControl.now,Option.some.injEq] at hloop
      exact ⟨_,by rw [← hloop]; rfl⟩
    | rearms now i b x d hctl =>
      simp only [hctl,AlarmControl.now,Option.some.injEq] at hloop
      exact ⟨_,by rw [← hloop]; rfl⟩
  obtain ⟨i,hi⟩ := hctl
  exact h.other (e:=.delegateReturns deadline) hf hs hco (by simp [AlarmConfig.Event.subject])
    (by simp [hi,AlarmControl.firing]) (fun hne => absurd hp hne) fun _ => by simp [hi,AlarmControl.now]

theorem epollWaitReturns_ok {c' : TimeWaitServer}
    (he : (machine period cleanUp).admits c .epollWaitReturns)
    (hc' : (machine period cleanUp).step c .epollWaitReturns = .ok c') : ∃ b, c.phase = .waiting b ∧
      c' = { c with phase := .events b, recordedNowInUs := c.nowInUsec } := by
  obtain ⟨b,hb⟩ : ∃ b, c.phase = .waiting b := he.elim (fun h => ⟨_,h⟩) fun h => ⟨_,h⟩
  simp only [machine,TimeWaitServer.step,hb] at hc'
  exact ⟨b,hb,(Except.ok.inj hc').symm⟩

theorem Timely.callAndReregisterAlarmEvents_ok (h : Timely period cleanUp c) {c' : TimeWaitServer}
    (he : (machine period cleanUp).admits c .callAndReregisterAlarmEvents)
    (hc' : (machine period cleanUp).step c .callAndReregisterAlarmEvents = .ok c') :
    c.phase = .events true ∧ ∃ a,
      c.alarms.step (.callAndReregisterAlarmEvents c.recordedNowInUs) = .ok a ∧
      c' = { c with alarms := a, phase := .alarms } := by
  have hp : c.phase = .events true := he.resolve_right h.hasAlarms.2
  simp only [machine,TimeWaitServer.step,hp,if_true] at hc'
  obtain ⟨a,ha,hc'⟩ := except_bind_eq_ok hc'
  exact ⟨hp,a,ha,(Except.ok.inj hc').symm⟩

theorem Timely.step (h : Timely period cleanUp c) (hper : 0 < period) {e : Event} {c' : TimeWaitServer}
    (he : (machine period cleanUp).admits c e) (hc' : (machine period cleanUp).step c e = .ok c') :
    Timely period cleanUp c' := by
  cases e with
  | tick t =>
    obtain rfl := Except.ok.inj hc'
    exact h.tick he
  | add max id version closePacket =>
    obtain ⟨l,hl,hc'⟩ := except_bind_eq_ok hc'
    obtain rfl := Except.ok.inj hc'
    exact h.add he.2 hl
  | processPacket id =>
    obtain rfl := Except.ok.inj hc'
    exact h.counts id
  | alarm e =>
    obtain ⟨_,hsome,hsub,he⟩ := he
    obtain ⟨a,ha,hc'⟩ := except_bind_eq_ok hc'
    obtain rfl := Except.ok.inj hc'
    exact h.alarm he hsome hsub ha
  | waitForEventsAndExecuteCallbacks =>
    obtain rfl := Except.ok.inj hc'
    exact h.waits he
  | epollWaitReturns =>
    obtain ⟨b,hb,rfl⟩ := epollWaitReturns_ok he hc'
    exact h.records hb
  | callAndReregisterAlarmEvents =>
    obtain ⟨hp,a,ha,rfl⟩ := h.callAndReregisterAlarmEvents_ok he hc'
    exact h.begins hp ha
  | iterate => exact (h.iterate hper he.1 he.2 hc').1
  | delegateReturns deadline =>
    obtain ⟨a,ha,hc'⟩ := except_bind_eq_ok hc'
    obtain rfl := Except.ok.inj hc'
    exact h.delegateReturns he.1 he.2 ha

end Steps

section Period

variable (period : ℤ) (cleanUp : AlarmCB)

/-- The entries are distinct and in order, their expiry is covered by the clean-up
alarm, and nothing has lingered. -/
structure InOrder (c : TimeWaitServer) : Prop where
  distinct : (c.list.entries.map Prod.fst).Nodup
  ordered : c.list.entries.Pairwise fun e e' => e.2.timeAdded ≤ e'.2.timeAdded
  armed : ∃ x, c.alarms.alarms cleanUp = some x ∧ x.registered = true ∧ x.deadline ≠ 0 ∧
    ⟨x.token,x.deadline,cleanUp⟩ ∈ c.alarms.server.alarmMap.nodes ∧
    ∀ e ∈ c.list.entries, x.deadline ≤ e.2.timeAdded+period
  quiet : c.lingeredErrors = 0

/-- How an entry can leave the list in one step. -/
inductive Removal (c : TimeWaitServer) (x : ConnectionId × ConnectionIdData) : Event → Prop
  | replaced (maxConnections version closePacket) :
    Removal c x (.add maxConnections x.1 version closePacket)
  | trimmed (maxConnections id version closePacket l) : x ∈ (c.list.eraseRecord id).entries →
    (c.list.eraseRecord id).trimTimeWaitListIfNeeded maxConnections = .ok l → x ∉ l.entries →
    Removal c x (.add maxConnections id version closePacket)
  | expired : cleanUpIsNext cleanUp c → x.2.timeAdded+period ≤ c.approximateNowInUsec →
    Removal c x .iterate

/-- What one step of a run does with the entries. -/
structure KeepsPeriod (c : TimeWaitServer) (e : Event) (c' : TimeWaitServer) : Prop where
  removed : ∀ x ∈ c.list.entries,
    (∃ y ∈ c'.list.entries, y.1 = x.1 ∧ y.2.timeAdded = x.2.timeAdded) ∨ Removal period cleanUp c x e
  expired : c.phase ≠ .outside → c'.phase = .outside →
    ∀ x ∈ c'.list.entries, c.recordedNowInUs-period < x.2.timeAdded
  rearmed : e = .iterate → cleanUpIsNext cleanUp c →
    ∃ y, c'.alarms.alarms cleanUp = some y ∧ y.registered = true ∧ c.approximateNowInUsec < y.deadline

variable {period cleanUp} {c c' : TimeWaitServer}

theorem Timely.inOrder (h : Timely period cleanUp c) : InOrder period cleanUp c := by
  obtain ⟨x,hx,hr,hd,_⟩ := h.armed
  exact ⟨c.list.connectionIdMap.nodup,h.ordered,
    ⟨x,hx,hr,(h.coherent.armed hx).1.mpr hr,h.coherent.entry hx hr,hd⟩,h.quiet⟩

theorem KeepsPeriod.of_list_eq {e : Event} (hl : c'.list = c.list)
    (hp : c.phase ≠ .outside → c'.phase ≠ .outside) (he : e ≠ .iterate) :
    KeepsPeriod period cleanUp c e c' :=
  ⟨fun x hx => Or.inl ⟨x,hl ▸ hx,rfl,rfl⟩,fun h h' => absurd h' (hp h),fun h => absurd h he⟩

theorem KeepsPeriod.of_add {max : ℤ} {id : ConnectionId} {version : QuicVersion}
    {closePacket : Option PacketId} {l : TimeWaitList} (hmax : max < 0 ∨ 1 ≤ max)
    (hl : c.list.addConnectionIdToTimeWait max c.approximateNowInUsec id version closePacket = .ok l) :
    KeepsPeriod period cleanUp c (.add max id version closePacket) { c with list := l } := by
  refine ⟨fun x hx => ?_,fun h h' => absurd h' h,by simp⟩
  obtain ⟨l₁,k,htrim,hk,hl⟩ := TimeWaitList.add_ok hmax hl
  by_cases hid : x.1 = id
  · subst hid
    exact Or.inr (.replaced _ _ _)
  · by_cases hx₁ : x ∈ l₁.entries
    · refine Or.inl ⟨x,?_,rfl,rfl⟩
      show x ∈ l.entries
      rw [hl]
      exact List.mem_append_left _ hx₁
    · refine Or.inr (.trimmed _ _ _ _ l₁ ?_ htrim hx₁)
      rw [TimeWaitList.entries_eraseRecord]
      simpa [hx] using hid

theorem Timely.keepsPeriod (h : Timely period cleanUp c) (hper : 0 < period) {e : Event}
    (he : (machine period cleanUp).admits c e) (hc' : (machine period cleanUp).step c e = .ok c') :
    KeepsPeriod period cleanUp c e c' := by
  cases e with
  | tick t =>
    obtain rfl := Except.ok.inj hc'
    exact .of_list_eq rfl id (by simp)
  | add max id version closePacket =>
    obtain ⟨l,hl,hc'⟩ := except_bind_eq_ok hc'
    obtain rfl := Except.ok.inj hc'
    exact .of_add he.2 hl
  | processPacket id =>
    obtain rfl := Except.ok.inj hc'
    obtain ⟨f,hf,htime⟩ := c.list.entries_countPacket id
    refine ⟨fun x hx => Or.inl ⟨f x,?_,htime x⟩,fun h h' => absurd h' h,by simp⟩
    show f x ∈ (c.list.countPacket id).entries
    exact hf ▸ List.mem_map_of_mem hx
  | alarm e =>
    obtain ⟨a,_,hc'⟩ := except_bind_eq_ok hc'
    obtain rfl := Except.ok.inj hc'
    exact .of_list_eq rfl id (by simp)
  | waitForEventsAndExecuteCallbacks =>
    obtain rfl := Except.ok.inj hc'
    exact .of_list_eq rfl (by simp) (by simp)
  | epollWaitReturns =>
    obtain ⟨b,hb,rfl⟩ := epollWaitReturns_ok he hc'
    exact .of_list_eq rfl (by simp) (by simp)
  | callAndReregisterAlarmEvents =>
    obtain ⟨hp,a,_,rfl⟩ := h.callAndReregisterAlarmEvents_ok he hc'
    exact .of_list_eq rfl (by simp) (by simp)
  | delegateReturns deadline =>
    obtain ⟨a,_,hc'⟩ := except_bind_eq_ok hc'
    obtain rfl := Except.ok.inj hc'
    exact .of_list_eq rfl id (by simp)
  | iterate =>
    cases (h.iterate hper he.1 he.2 hc').2 with
    | ends hl _ hfresh hnot =>
      exact ⟨fun x hx => Or.inl ⟨x,hl ▸ hx,rfl,rfl⟩,fun _ _ => hfresh,fun _ h => absurd h hnot⟩
    | other hl hp hnot =>
      exact ⟨fun x hx => Or.inl ⟨x,hl ▸ hx,rfl,rfl⟩,fun _ h => by simp [hp] at h,
        fun _ h => absurd h hnot⟩
    | cleansUp hnext hl hp hy =>
      refine ⟨fun x hx => ?_,fun _ h => by simp [hp] at h,fun _ _ => hy⟩
      by_cases hold : c.approximateNowInUsec-period < x.2.timeAdded
      · exact Or.inl ⟨x,hl ▸ (c.list.mem_expireOldConnections h.ordered _).mpr ⟨hx,hold⟩,rfl,rfl⟩
      · exact Or.inr (.expired hnext (by omega))

/-- A manager constructed in any state of the alarms, and any run from there: in
every state the entries are distinct, in order and covered by the clean-up alarm, and
every step keeps each entry for its period. -/
theorem timeWait_of_run (hper : 0 < period) {es₀ : List AlarmConfig.Event} {a : AlarmConfig}
    (ha : AlarmConfig.machine.Run .init es₀ a) (hidle : a.control = .idle)
    (hnew : a.hasNoDeadline cleanUp) {now : ℤ} {c₀ : TimeWaitServer}
    (hstart : start period cleanUp a now = .ok c₀) {es : List Event}
    (hrun : (machine period cleanUp).Run c₀ es c) :
    InOrder period cleanUp c ∧ ∀ e c', (machine period cleanUp).admits c e →
      (machine period cleanUp).step c e = .ok c' → KeepsPeriod period cleanUp c e c' := by
  have hco := AlarmConfig.coherent_inductive.run ha .initial
  have h := hrun.invariant (P:=Timely period cleanUp) (fun h he hc' => h.step hper he hc')
    (.start hco hidle hnew hstart)
  exact ⟨h.inOrder,fun e c' he hc' => h.keepsPeriod hper he hc'⟩

end Period

instance (c : TimeWaitServer) (cleanUp : AlarmCB) : (e : Event) → Decidable (c.admits cleanUp e)
  | .tick _ => inferInstanceAs (Decidable (_ ≤ _))
  | .add _ _ _ _ => inferInstanceAs (Decidable (_ = true ∧ (_ < _ ∨ _ ≤ _)))
  | .processPacket _ => inferInstanceAs (Decidable (_ = true ∧ _ = true))
  | .alarm e => inferInstanceAs (Decidable (_ = true ∧ _ ≠ _ ∧ _ ≠ _ ∧ c.alarms.admits e))
  | .waitForEventsAndExecuteCallbacks => inferInstanceAs (Decidable (_ = _))
  | .epollWaitReturns => inferInstanceAs (Decidable (_ = _ ∨ _ = _))
  | .callAndReregisterAlarmEvents => inferInstanceAs (Decidable (_ = _ ∨ _ = _))
  | .iterate => inferInstanceAs (Decidable (_ = _ ∧ _ = _))
  | .delegateReturns _ => inferInstanceAs (Decidable (_ = _ ∧ _ ≠ _))

instance (period : ℤ) (cleanUp : AlarmCB) (c : TimeWaitServer) (e : Event) :
    Decidable ((machine period cleanUp).admits c e) :=
  inferInstanceAs (Decidable (c.admits cleanUp e))

/-- Two ids are added, another alarm fires before the clean-up alarm, and the
clean-up expires the older id. -/
theorem timeWait_of_round : ∃ a c₀ c, AlarmConfig.machine.Run .init [.create 0,.create 1] a ∧
    start 10 0 a 100 = .ok c₀ ∧ (machine 10 0).Run c₀
      [.add (-1) 5 1 none,.tick 105,.add 2 6 1 (some 3),.processPacket 6,.alarm (.set 1 107),.tick 111,
        .waitForEventsAndExecuteCallbacks,.epollWaitReturns,.callAndReregisterAlarmEvents,.iterate,
        .delegateReturns 0,.iterate,.iterate] c ∧
    c.list.entries.map Prod.fst = [6] ∧
    InOrder 10 0 c ∧ ∀ e c', (machine 10 0).admits c e → (machine 10 0).step c e = .ok c' →
      KeepsPeriod 10 0 c e c' := by
  have ha : AlarmConfig.machine.Run .init [.create 0,.create 1]
      ((AlarmConfig.init.write 0 .created).write 1 .created) :=
    .cons (by decide) rfl (.cons (by decide) rfl (.nil _))
  obtain ⟨c₀,hs,c,hc,hkeys⟩ : ∃ c₀, start 10 0
      ((AlarmConfig.init.write 0 .created).write 1 .created) 100 = .ok c₀ ∧ ∃ c, (machine 10 0).Run c₀
        [.add (-1) 5 1 none,.tick 105,.add 2 6 1 (some 3),.processPacket 6,.alarm (.set 1 107),.tick 111,
          .waitForEventsAndExecuteCallbacks,.epollWaitReturns,.callAndReregisterAlarmEvents,.iterate,
          .delegateReturns 0,.iterate,.iterate] c ∧ (decide (c.list.entries.map Prod.fst = [6])) = true :=
    ⟨_,rfl,(machine 10 0).exists_run_of_exec_any (by decide +kernel)⟩
  exact ⟨_,c₀,c,ha,hs,hc,of_decide_eq_true hkeys,
    timeWait_of_run (by decide) ha rfl rfl hs hc⟩

end TimeWaitServer
end CmuQuic
