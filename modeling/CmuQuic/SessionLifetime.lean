import CmuQuic.EventLoop
import CmuQuic.ResponseQueue
import CmuQuic.Shutdown

/-! The end of a session: the dispatcher on top of the event loop, whose alarm deletes the
closed sessions one round later at the latest, and the destructor, which deletes the rest. -/
namespace CmuQuic

namespace Dispatcher

variable {d d' : Dispatcher}

def Reached (d : Dispatcher) : Prop :=
  ∀ s, (d.sessions s).isSome = true → s ∈ d.liveSessions ++ d.closedSessionList

theorem Reached.update (h : Reached d) {s : SessionId} {x y : QuicServerSession}
    (hx : d.sessions s = some x)
    (hlists : ∀ t ∈ d.liveSessions ++ d.closedSessionList, t ∈ d'.liveSessions ++ d'.closedSessionList)
    (hsessions : d'.sessions = Function.update d.sessions s (some y)) : Reached d' := by
  intro t ht
  refine hlists t (h t ?_)
  by_cases hts : t = s
  · rw [hts,hx]
    rfl
  · simpa [hsessions,Function.update,hts] using ht

theorem Reached.change (h : Reached d) (ho : Owned d)
    (hc : Change (fun x => x.connected = true) d d') : Reached d' := by
  cases hc with
  | rehashes es hperm =>
    exact fun s hs => (((hperm.map Prod.snd).append_right _).mem_iff).mpr (h s hs)
  | opens id version hid =>
    have hentries : (d.sessionMap.insert id d.created).entries = d.sessionMap.entries ++ [(id,d.created)] :=
      LinkedHashMap.entries_insert hid
    intro s hs
    simp only [liveSessions,Dispatcher.opened,hentries,List.map_append,List.map_cons,List.map_nil]
    by_cases hsc : s = d.created
    · simp [hsc]
    · have hold := h s (by simpa [Dispatcher.opened,hsc] using hs)
      rcases List.mem_append.mp hold with hlive | hclosed
      · exact List.mem_append_left _ (List.mem_append_left _ hlive)
      · exact List.mem_append_right _ hclosed
  | changes s x version p hx => exact h.update hx (fun _ ht => ht) rfl
  | disconnects s x hx => exact h.update hx (fun _ ht => ht) rfl
  | closes s x s' y alarm l hx hcon hfind hy =>
    obtain rfl := ho.find_reporter hx hcon hfind
    have hw : Reached (d.writeSession s' { x with connected := false }) :=
      h.update hx (fun _ ht => ht) rfl
    refine hw.update hy (fun t ht => ?_) rfl
    have hperm := (LinkedHashMap.perm_erase (LinkedHashMap.find_eq_some.mp hfind)).map Prod.snd
    rcases List.mem_append.mp ht with hlive | hclosed
    · rcases List.mem_cons.mp (hperm.mem_iff.mpr hlive) with rfl | hlive
      · exact List.mem_append_right _ (List.mem_append_right _ (List.mem_singleton_self _))
      · exact List.mem_append_left _ hlive
    · exact List.mem_append_right _ (List.mem_append_left _ hclosed)
  | deletes alarm =>
    intro s hs
    by_cases hmem : s ∈ d.closedSessionList
    · simp [Dispatcher.cleared,hmem] at hs
    · have hold := h s (by simpa [Dispatcher.cleared,hmem] using hs)
      exact List.mem_append_left _ ((List.mem_append.mp hold).resolve_right hmem)
  | _ => exact h

/-- The dispatcher stands, and no session is lost. -/
structure Tracked (d : Dispatcher) : Prop where
  standing : Standing d
  reached : Reached d

theorem Tracked.change (h : Tracked d) (hc : Change (fun x => x.connected = true) d d') :
    Tracked d' :=
  let ⟨howned,hseparate,halive,hattached⟩ := h.standing
  ⟨⟨howned.change hc,hseparate.change hc,halive.change hc,hattached.change halive howned hc⟩,
    h.reached.change howned hc⟩

theorem Tracked.step (h : Tracked d) {e : Event} (he : reporting.admits d e)
    (hs : d.step e = .ok d') : Tracked d' :=
  (step_changes he.1 he.2 hs).keeps (fun h hc => h.change hc) h

theorem Tracked.initial {versions : List QuicVersion} {period max now : ℤ} {version : QuicVersion}
    (hmax : max < 0 ∨ 1 ≤ max) : Tracked (init versions period max now version) :=
  ⟨standing_of_run hmax (.nil _),fun s hs => by simp [init] at hs⟩

theorem Tracked.gone (h : Tracked d) {s : SessionId} (hs : s ∈ d.deleted) :
    d.deleted.count s = 1 ∧ d.sessions s = none := by
  have hmem : s ∈ d.liveSessions ++ (d.closedSessionList ++ d.deleted) :=
    List.mem_append_right _ (List.mem_append_right _ hs)
  have hlt : s < d.created := List.mem_range.mp (h.standing.owned.partition.mem_iff.mp hmem)
  have honce := h.standing.owned.accounted.once s hlt
  have hpos := List.count_pos_iff.mpr hs
  refine ⟨by omega,Option.not_isSome_iff_eq_none.mp fun hsome => ?_⟩
  rcases List.mem_append.mp (h.reached s hsome) with hlive | hclosed
  · have hlive := List.count_pos_iff.mpr hlive
    omega
  · have hclosed := List.count_pos_iff.mpr hclosed
    omega

theorem Tracked.onDeleteSessionsAlarm (h : Tracked d) : d.onDeleteSessionsAlarm = .ok (d.cleared 0) := by
  obtain ⟨hnodup,halive,hold⟩ := h.standing.alive
  exact Alive.deleteSessions (d:={ d with deleteSessionsAlarm := 0 }) ⟨hnodup,halive,hold⟩

/-- What a step does to the closed sessions: nothing, or it deletes them. -/
def Retires (d d' : Dispatcher) : Prop :=
  (d'.closedSessionList = d.closedSessionList ∧ d'.deleted = d.deleted) ∨
    (d'.closedSessionList = [] ∧ d'.deleted = d.deleted ++ d.closedSessionList)

theorem retires_of_step {e : Event} (he : d.admits e)
    (hclose : ∀ s, e ≠ .sessionOnConnectionClosed s) (h : d.step e = .ok d') : Retires d d' := by
  have hchange : ∀ {u v}, Retires d u → Change (fun _ => False) u v → Retires d v := by
    intro u v hu hc
    cases hc with
    | deletes alarm =>
      refine Or.inr ⟨rfl,?_⟩
      rcases hu with ⟨hclosed,hdeleted⟩ | ⟨hclosed,hdeleted⟩
      · simp [Dispatcher.cleared,hclosed,hdeleted]
      · simp [Dispatcher.cleared,hclosed,hdeleted]
    | closes s x s' y alarm l _ hfalse => exact hfalse.elim
    | _ => exact hu
  cases hreporter : e.reporter with
  | none =>
    refine (step_changes he (fun s x hs _ => ?_) h).keeps hchange (Or.inl ⟨rfl,rfl⟩)
    simp [hreporter] at hs
  | some s =>
    cases e with
    | sessionOnConnectionClosed t => exact absurd rfl (hclose t)
    | sessionOnWriteBlocked t =>
      obtain ⟨x,_,h⟩ := withSession_ok h
      cases h
      unfold onWriteBlocked
      split_ifs <;> exact Or.inl ⟨rfl,rfl⟩
    | _ => cases hreporter

theorem closedSessionList_of_close {s : SessionId} (h : d.step (.sessionOnConnectionClosed s) = .ok d') :
    ∃ x, d.sessions s = some x ∧ d'.deleted = d.deleted ∧
      ((d.sessionMap.find x.connectionId = none ∧ d'.closedSessionList = d.closedSessionList) ∨
        ∃ t, d.sessionMap.find x.connectionId = some t ∧
          d'.closedSessionList = d.closedSessionList ++ [t]) := by
  obtain ⟨x,hx,h⟩ := withSession_ok h
  refine ⟨x,hx,?_⟩
  cases hfind : d.sessionMap.find x.connectionId with
  | none =>
    have hfind' : (d.writeSession s { x with connected := false }).sessionMap.find x.connectionId =
      none := hfind
    simp only [onConnectionClosed,hfind'] at h
    cases h
    exact ⟨rfl,Or.inl ⟨rfl,rfl⟩⟩
  | some t =>
    obtain ⟨y,alarm,l,_,_,_,_,rfl⟩ := onConnectionClosed_cases
      (d:=d.writeSession s { x with connected := false }) hfind h
    exact ⟨rfl,Or.inr ⟨t,rfl,rfl⟩⟩

end Dispatcher

structure DispatchLoop where
  loop : EventLoop
  dispatcher : Dispatcher

namespace DispatchLoop

inductive Event
  | loop (e : EventLoop.Event)
  | dispatcher (e : Dispatcher.Event)
  /-- The delegate of `delete_sessions_alarm_` runs and returns. -/
  | onDeleteSessionsAlarm

/-- Whether the event is one of the dispatcher alone; the clock is the loop's and the alarm
is called by it. -/
def isOwn : Dispatcher.Event → Bool
  | .tick _ => false
  | .deleteSessionsAlarm => false
  | _ => true

def isReturn : EventLoop.Event → Bool
  | .delegateReturns _ => true
  | _ => false

def setsAlarm (d : Dispatcher) : Dispatcher.Event → Bool
  | .sessionOnConnectionClosed s => (d.sessions s).any fun x =>
    (d.sessionMap.find x.connectionId).isSome && d.closedSessionList.isEmpty
  | _ => false

/-- `Cancel` and `Set` of `delete_sessions_alarm_`. -/
def setAlarm (l : EventLoop) (alarm : AlarmCB) : Except Abort EventLoop := do
  let l ← l.alarmStep (.cancel alarm)
  l.alarmStep (.set alarm l.approximateNowInUsec)

def setAlarmIf (l : EventLoop) (alarm : AlarmCB) (sets : Bool) : Except Abort EventLoop :=
  if sets then setAlarm l alarm else .ok l

section Machine

variable (alarm : AlarmCB)

def init (debug : Bool) (nowInUsec : ℤ) (supportedVersions : List QuicVersion)
    (timeWaitPeriod maxConnections : ℤ) (framerVersion : QuicVersion) : DispatchLoop where
  loop := { EventLoop.init debug nowInUsec with alarms := AlarmConfig.init.write alarm .created }
  dispatcher := .init supportedVersions timeWaitPeriod maxConnections nowInUsec framerVersion

/-- Nobody but the dispatcher uses its alarm, and nothing of the dispatcher is called while
its delegate deletes sessions. -/
def admits (s : DispatchLoop) : Event → Prop
  | .loop e => s.loop.admits e ∧ e.subject ≠ some alarm ∧
    (isReturn e = true → s.loop.alarms.control.firing ≠ some alarm)
  | .dispatcher e => s.loop.running = true ∧ s.loop.alarms.control.firing ≠ some alarm ∧
    Dispatcher.reporting.admits s.dispatcher e ∧ isOwn e = true
  | .onDeleteSessionsAlarm => s.loop.alarms.control.firing = some alarm

def step (s : DispatchLoop) : Event → Except Abort DispatchLoop
  | .loop e => do
    let l ← s.loop.step e
    .ok { s with loop := l }
  | .dispatcher e => do
    let l ← setAlarmIf s.loop alarm (setsAlarm s.dispatcher e)
    let d ← { s.dispatcher with approximateNow := s.loop.approximateNowInUsec }.step e
    .ok ⟨l,d⟩
  | .onDeleteSessionsAlarm => do
    let d ← s.dispatcher.onDeleteSessionsAlarm
    let l ← s.loop.step (.delegateReturns 0)
    .ok ⟨l,d⟩

def machine : Machine DispatchLoop Event Abort := ⟨admits alarm,step alarm⟩

def round : Machine DispatchLoop Event Abort where
  admits s e := admits alarm s e ∧ s.loop.phase ≠ .outside
  step := step alarm

instance (s : DispatchLoop) : (e : Event) → Decidable (admits alarm s e)
  | .loop e => inferInstanceAs (Decidable (s.loop.admits e ∧ _ ≠ some alarm ∧
    (isReturn e = true → _ ≠ some alarm)))
  | .dispatcher e => inferInstanceAs (Decidable (_ = true ∧ _ ≠ some alarm ∧
    Dispatcher.reporting.admits s.dispatcher e ∧ isOwn e = true))
  | .onDeleteSessionsAlarm => inferInstanceAs (Decidable (_ = some alarm))

instance (s : DispatchLoop) (e : Event) : Decidable ((machine alarm).admits s e) :=
  inferInstanceAs (Decidable (admits alarm s e))

instance (s : DispatchLoop) (e : Event) : Decidable ((round alarm).admits s e) :=
  inferInstanceAs (Decidable (admits alarm s e ∧ s.loop.phase ≠ .outside))

end Machine

def waitForEventsAndExecuteCallbacks (s : DispatchLoop) : Except Abort DispatchLoop := do
  let l ← s.loop.waitForEventsAndExecuteCallbacks
  .ok { s with loop := l }

/-- As long as there are closed sessions, the alarm is set for a time that has come, or its
delegate is running. -/
structure Minded (alarm : AlarmCB) (s : DispatchLoop) : Prop where
  ticking : s.loop.Ticking
  tracked : s.dispatcher.Tracked
  alarm : ∃ x, s.loop.alarms.alarms alarm = some x ∧ x.deadline ≤ s.loop.nowInUsec ∧
    (s.dispatcher.closedSessionList ≠ [] →
      x.registered = true ∨ s.loop.alarms.control.firing = some alarm)

variable {alarm : AlarmCB} {s t : DispatchLoop} {l l' : EventLoop} {x : QuicEpollAlarm}

theorem atLoop_of_running (h : l.Ticking) (hrun : l.running = true) :
    l.alarms.control.atLoop = false := by
  by_cases hp : l.phase = .alarms
  · simp only [EventLoop.running,hp] at hrun
    cases hctl : l.alarms.control <;> simp_all [AlarmControl.firing,AlarmControl.atLoop]
  · simp [h.alarmsIdle hp,AlarmControl.atLoop]

theorem approximateNow_pos (h : l.Ticking) : 0 < l.approximateNowInUsec := by
  unfold EventLoop.approximateNowInUsec
  split_ifs with hne
  · cases hp : l.phase.inRound with
    | false => exact absurd (h.unrecorded hp) hne
    | true => exact (h.recorded hp).1
  · exact h.clock

theorem setAlarm_ok (h : l.Ticking) (hrun : l.running = true) (hx : l.alarms.alarms alarm = some x)
    (hset : setAlarm l alarm = .ok l') : l'.Ticking ∧ l'.nowInUsec = l.nowInUsec ∧
      ∃ y, l'.alarms.alarms alarm = some y ∧ y.deadline = l.approximateNowInUsec ∧
        y.registered = true := by
  have hloop := atLoop_of_running h hrun
  obtain ⟨l₁,h₁,h₂⟩ := except_bind_eq_ok hset
  have hcancel : l.admits (.alarm (.cancel alarm)) := ⟨hrun,by simp [AlarmConfig.Event.subject],
    hloop,by simp [AlarmConfig.isAlive,hx]⟩
  have htick₁ := h.step (e:=.alarm (.cancel alarm)) hcancel h₁
  obtain ⟨c₁,hc₁,h₁⟩ := except_bind_eq_ok h₁
  cases h₁
  obtain ⟨hstep₁,_⟩ := h.coherent.of_step (e:=.cancel alarm) hcancel.2.2 hc₁
  have hctl₁ := hstep₁.control_eq (by simp [AlarmConfig.Event.subject])
  -- there is no deadline after the cancellation
  obtain ⟨z,hz,hzero⟩ : ∃ z, c₁.alarms alarm = some z ∧ z.deadline = 0 := by
    cases hstep₁ with
    | cancel _ y => exact ⟨⟨0,false,y.token⟩,by simp [AlarmConfig.disarmed],rfl⟩
    | cancelIdle _ y hy hidle =>
      refine ⟨y,hy,?_⟩
      by_contra hne
      simp [((h.coherent.armed hy).1).mp hne] at hidle
  have hset' : EventLoop.admits { l with alarms := c₁ } (.alarm (.set alarm l.approximateNowInUsec)) := by
    refine ⟨?_,by simp [AlarmConfig.Event.subject],?_,?_,(approximateNow_pos h).ne'⟩
    · simpa [EventLoop.running,hctl₁] using hrun
    · simpa [hctl₁] using hloop
    · simp [AlarmConfig.hasNoDeadline,hz,hzero]
  have htick₂ := htick₁.step (e:=.alarm (.set alarm l.approximateNowInUsec)) hset' h₂
  obtain ⟨c₂,hc₂,h₂⟩ := except_bind_eq_ok h₂
  cases h₂
  obtain ⟨hstep₂,_⟩ := htick₁.coherent.of_step (e:=.set alarm l.approximateNowInUsec) hset'.2.2 hc₂
  cases hstep₂
  exact ⟨htick₂,rfl,⟨l.approximateNowInUsec,true,c₁.server.alarmMap.nextToken⟩,
    by simp [AlarmConfig.armedAt],rfl,rfl⟩

theorem Minded.initial {debug : Bool} {now : ℤ} (hnow : 0 < now) {versions : List QuicVersion} {period max : ℤ}
    (hmax : max < 0 ∨ 1 ≤ max) (version : QuicVersion) :
    Minded alarm (init alarm debug now versions period max version) := by
  have hcreate : AlarmConfig.machine.admits .init (.create alarm) :=
    ⟨rfl,by simp [AlarmConfig.isAlive,AlarmConfig.init]⟩
  obtain ⟨_,hco⟩ := AlarmConfig.Coherent.initial.of_step (e:=.create alarm) hcreate rfl
  have hinit : (EventLoop.init debug now).Ticking := .initial hnow
  have hticking := hinit.withAlarms hco (fun _ => rfl)
    (fun hp => by cases hp) []
  exact ⟨hticking,.initial hmax,.created,by simp [init,AlarmConfig.write],hnow.le,
    fun hne => absurd rfl hne⟩

theorem reporting_now {d : Dispatcher} {e : Dispatcher.Event} (now : ℤ)
    (he : Dispatcher.reporting.admits d e) :
    Dispatcher.reporting.admits { d with approximateNow := now } e := by
  refine ⟨?_,he.2⟩
  have he := he.1
  cases e <;> exact he

theorem Minded.dispatcherStep (h : Minded alarm s) {e : Dispatcher.Event} {now : ℤ} {d : Dispatcher}
    (he : Dispatcher.reporting.admits s.dispatcher e)
    (hd : { s.dispatcher with approximateNow := now }.step e = .ok d) : d.Tracked := by
  have hnow := h.tracked.change (.notes s.dispatcher.framerVersion now s.dispatcher.calls
    s.dispatcher.fatals)
  exact hnow.step (reporting_now now he) hd

theorem closed_of_step {d d' : Dispatcher} {e : Dispatcher.Event} {now : ℤ} (he : d.admits e)
    (hset : setsAlarm d e = false) (hd : { d with approximateNow := now }.step e = .ok d')
    (hne : d'.closedSessionList ≠ []) : d.closedSessionList ≠ [] := by
  by_cases hclose : ∃ s, e = .sessionOnConnectionClosed s
  · obtain ⟨s,rfl⟩ := hclose
    obtain ⟨x,hx,_,hcase⟩ := Dispatcher.closedSessionList_of_close hd
    have hx : d.sessions s = some x := hx
    rcases hcase with ⟨_,hsame⟩ | ⟨t,hfind,_⟩
    · exact hsame ▸ hne
    · have hfind : d.sessionMap.find x.connectionId = some t := hfind
      simpa [setsAlarm,hx,hfind] using hset
  · have hadm : Dispatcher.admits { d with approximateNow := now } e := by cases e <;> exact he
    rcases Dispatcher.retires_of_step hadm (fun s hs => hclose ⟨s,hs⟩) hd with ⟨hsame,_⟩ | ⟨hnil,_⟩
    · exact hsame ▸ hne
    · exact absurd hnil hne

theorem Minded.step (h : Minded alarm s) {e : Event} (he : admits alarm s e)
    (ht : step alarm s e = .ok t) : Minded alarm t := by
  obtain ⟨x,hx,hdeadline,harmed⟩ := h.alarm
  cases e with
  | loop e =>
    obtain ⟨hadm,hsub,hreturn⟩ := he
    obtain ⟨l,hl,ht⟩ := except_bind_eq_ok ht
    cases ht
    have hticking := h.ticking.step hadm hl
    refine ⟨hticking,h.tracked,?_⟩
    rcases h.ticking.alarm_of_step hadm hsub (fun d hd => hreturn (by rw [hd]; rfl)) hl with hkept | ⟨hfiring,_,_,y,hy,hzero⟩
    · exact ⟨x,hkept.same.trans hx,hdeadline.trans (h.ticking.now_le hadm hl),
        fun hne => (harmed hne).imp_right hkept.firing.mp⟩
    · exact ⟨y,hy,hzero ▸ hticking.clock.le,fun _ => Or.inr hfiring⟩
  | dispatcher e =>
    obtain ⟨hrun,hsilent,hadm,hown⟩ := he
    obtain ⟨l,hl,ht⟩ := except_bind_eq_ok ht
    obtain ⟨d,hd,ht⟩ := except_bind_eq_ok ht
    cases ht
    have htracked := h.dispatcherStep hadm hd
    cases hset : setsAlarm s.dispatcher e with
    | true =>
      rw [hset,setAlarmIf,if_pos rfl] at hl
      obtain ⟨hticking,hnow,y,hy,hdue,hr⟩ := setAlarm_ok h.ticking hrun hx hl
      refine ⟨hticking,htracked,y,hy,?_,fun _ => Or.inl hr⟩
      show y.deadline ≤ l.nowInUsec
      rw [hdue,hnow]
      exact h.ticking.approximate_le
    | false =>
      rw [hset] at hl
      cases hl
      exact ⟨h.ticking,htracked,x,hx,hdeadline,fun hne => harmed (closed_of_step hadm.1 hset hd hne)⟩
  | onDeleteSessionsAlarm =>
    obtain ⟨d,hd,ht⟩ := except_bind_eq_ok ht
    obtain ⟨l,hl,ht⟩ := except_bind_eq_ok ht
    cases ht
    have hfiring : s.loop.alarms.control.firing = some alarm := he
    have hadm : s.loop.admits (.delegateReturns 0) := by simp [EventLoop.admits,hfiring]
    have hticking := h.ticking.step (e:=.delegateReturns 0) hadm hl
    obtain ⟨c,hc,hl⟩ := except_bind_eq_ok hl
    cases hl
    obtain ⟨hstep,_⟩ := h.ticking.coherent.of_step (e:=.delegateReturns 0) hadm hc
    obtain rfl := Dispatcher.deleteSessions_ok hd
    refine ⟨hticking,h.tracked.change (.deletes 0),x,?_,hdeadline,fun hne => absurd rfl hne⟩
    cases hstep with
    | returns => exact hx
    | rearms _ _ _ _ _ _ _ _ hne => exact absurd rfl hne


/-- The sessions that were closed when the round started are still to be deleted in it. -/
structure Doomed (alarm : AlarmCB) (x : QuicEpollAlarm) (sessions : List SessionId)
    (s : DispatchLoop) : Prop where
  closed : ∀ σ ∈ sessions, σ ∈ s.dispatcher.closedSessionList
  awaits : EventLoop.Awaits alarm x s.loop ∨ s.loop.alarms.control.firing = some alarm
  come : x.deadline ≤ s.loop.nowInUsec
  polled : (∀ b, s.loop.phase ≠ .waiting b) → x.deadline ≤ s.loop.polledAtInUs

theorem deleted_grows {e : Event} (he : admits alarm s e) (ht : step alarm s e = .ok t)
    {σ : SessionId} (hσ : σ ∈ s.dispatcher.deleted) : σ ∈ t.dispatcher.deleted := by
  cases e with
  | loop e =>
    obtain ⟨l,_,ht⟩ := except_bind_eq_ok ht
    cases ht
    exact hσ
  | dispatcher e =>
    obtain ⟨l,_,ht⟩ := except_bind_eq_ok ht
    obtain ⟨d,hd,ht⟩ := except_bind_eq_ok ht
    cases ht
    by_cases hclose : ∃ s, e = .sessionOnConnectionClosed s
    · obtain ⟨s,rfl⟩ := hclose
      obtain ⟨_,_,hsame,_⟩ := Dispatcher.closedSessionList_of_close hd
      exact hsame ▸ hσ
    · have hadm := (reporting_now s.loop.approximateNowInUsec he.2.2.1).1
      rcases Dispatcher.retires_of_step hadm (fun s hs => hclose ⟨s,hs⟩) hd with ⟨_,hsame⟩ | ⟨_,hmore⟩
      · exact hsame ▸ hσ
      · exact hmore ▸ List.mem_append_left _ hσ
  | onDeleteSessionsAlarm =>
    obtain ⟨d,hd,ht⟩ := except_bind_eq_ok ht
    obtain ⟨l,_,ht⟩ := except_bind_eq_ok ht
    cases ht
    obtain rfl := Dispatcher.deleteSessions_ok hd
    exact List.mem_append_left _ hσ

theorem Doomed.step {sessions : List SessionId} (h : Doomed alarm x sessions s)
    (hs : Minded alarm s) (hr : x.registered = true) (hsessions : sessions ≠ []) {e : Event}
    (he : admits alarm s e) (hp : s.loop.phase ≠ .outside) (ht : step alarm s e = .ok t) :
    Doomed alarm x sessions t ∨ ∀ σ ∈ sessions, σ ∈ t.dispatcher.deleted := by
  have hne : s.dispatcher.closedSessionList ≠ [] := by
    obtain ⟨σ,hσ⟩ := List.exists_mem_of_ne_nil _ hsessions
    exact List.ne_nil_of_mem (h.closed σ hσ)
  cases e with
  | loop e =>
    obtain ⟨hadm,hsub,hreturn⟩ := he
    obtain ⟨l,hl,ht⟩ := except_bind_eq_ok ht
    cases ht
    refine Or.inl ⟨h.closed,?_,h.come.trans (hs.ticking.now_le hadm hl),fun hphase => ?_⟩
    · rcases h.awaits with hwait | hfiring
      · obtain ⟨_,_,hcase⟩ := hwait.step hs.ticking hr hadm hp hsub hl
        exact hcase.symm.imp (fun hwait => hwait.1) fun hcall => hcall.2.2.1.firing
      · rcases hs.ticking.alarm_of_step hadm hsub (fun d hd => hreturn (by rw [hd]; rfl)) hl with hkept | hcall
        · exact Or.inr (hkept.firing.mp hfiring)
        · exact Or.inr hcall.1
    · show x.deadline ≤ l.polledAtInUs
      rcases hs.ticking.clock_of_step hadm hp hl with ⟨_,_,hpolled⟩ | ⟨hpolled,hwaiting⟩
      · exact hpolled ▸ h.come
      · exact hpolled ▸ h.polled fun b hb => hphase b ((hwaiting b).mpr hb)
  | dispatcher e =>
    obtain ⟨l,hl,ht⟩ := except_bind_eq_ok ht
    obtain ⟨d,hd,ht⟩ := except_bind_eq_ok ht
    cases ht
    -- the alarm is set only for the first closed session
    have hset : setsAlarm s.dispatcher e = false := by
      have hsome : s.dispatcher.closedSessionList.isEmpty = false := by simpa using hne
      cases e <;> simp [setsAlarm,hsome]
    rw [hset] at hl
    cases hl
    by_cases hclose : ∃ s, e = .sessionOnConnectionClosed s
    · obtain ⟨s',rfl⟩ := hclose
      obtain ⟨_,_,_,hcase⟩ := Dispatcher.closedSessionList_of_close hd
      refine Or.inl ⟨fun σ hσ => ?_,h.awaits,h.come,h.polled⟩
      show σ ∈ d.closedSessionList
      rcases hcase with ⟨_,hsame⟩ | ⟨t,_,hmore⟩
      · exact hsame ▸ h.closed σ hσ
      · exact hmore ▸ List.mem_append_left _ (h.closed σ hσ)
    · have hadm := (reporting_now s.loop.approximateNowInUsec he.2.2.1).1
      rcases Dispatcher.retires_of_step hadm (fun s hs => hclose ⟨s,hs⟩) hd with ⟨hsame,_⟩ | ⟨_,hmore⟩
      · exact Or.inl ⟨fun σ hσ => hsame ▸ h.closed σ hσ,h.awaits,h.come,h.polled⟩
      · exact Or.inr fun σ hσ => hmore ▸ List.mem_append_right _ (h.closed σ hσ)
  | onDeleteSessionsAlarm =>
    obtain ⟨d,hd,ht⟩ := except_bind_eq_ok ht
    obtain ⟨l,_,ht⟩ := except_bind_eq_ok ht
    cases ht
    obtain rfl := Dispatcher.deleteSessions_ok hd
    exact Or.inr fun σ hσ => List.mem_append_right _ (h.closed σ hσ)

theorem Doomed.round {sessions : List SessionId} {fs : List Event}
    (hround : (round alarm).Run s fs t) (h : Doomed alarm x sessions s) (hs : Minded alarm s)
    (hr : x.registered = true) (hsessions : sessions ≠ []) :
    Doomed alarm x sessions t ∨ ∀ σ ∈ sessions, σ ∈ t.dispatcher.deleted := by
  induction hround with
  | nil s => exact Or.inl h
  | @cons s u t e fs he hst hrest ih =>
    rcases h.step hs hr hsessions he.1 he.2 hst with hu | hdeleted
    · exact ih hu (hs.step he.1 hst)
    · refine Or.inr fun σ hσ => ?_
      refine hrest.invariant (P:=fun v => σ ∈ v.dispatcher.deleted) ?_ (hdeleted σ hσ)
      exact fun hv he ht => deleted_grows he.1 ht hv

theorem Minded.starts (h : Minded alarm s) (hp : s.loop.phase = .outside)
    (hstart : s.waitForEventsAndExecuteCallbacks = .ok t) : t = { s with loop := s.loop.startRound } := by
  obtain ⟨l,hl,ht⟩ := except_bind_eq_ok hstart
  obtain rfl : s.loop.startRound = l := Except.ok.inj ((h.ticking.starts hp).symm.trans hl)
  cases ht
  rfl

theorem Doomed.start (h : Minded alarm s) (hp : s.loop.phase = .outside)
    (hne : s.dispatcher.closedSessionList ≠ []) : ∃ x, x.registered = true ∧
      Doomed alarm x s.dispatcher.closedSessionList { s with loop := s.loop.startRound } := by
  obtain ⟨x,hx,hdeadline,harmed⟩ := h.alarm
  have hidle := h.ticking.alarmsIdle (by simp [hp])
  have hr : x.registered = true := (harmed hne).resolve_right (by simp [hidle,AlarmControl.firing])
  refine ⟨x,hr,fun σ hσ => hσ,Or.inl (.start h.ticking hp hx hr),hdeadline,fun hphase => ?_⟩
  exact absurd rfl (hphase (!s.loop.alarms.server.alarmMap.nodes.isEmpty))

/-- What the dispatcher can rely on: its delegate never aborts, and at the end of a round
every session that was closed before it is gone, deleted once. -/
structure Tended (alarm : AlarmCB) (s : DispatchLoop) : Prop where
  deletes : s.loop.alarms.control.firing = some alarm →
    ∃ t, step alarm s .onDeleteSessionsAlarm = .ok t
  reaps : s.loop.phase = .outside → ∀ {u fs t}, s.waitForEventsAndExecuteCallbacks = .ok u →
    (round alarm).Run u fs t → t.loop.phase = .outside →
    ∀ σ ∈ s.dispatcher.closedSessionList,
      t.dispatcher.deleted.count σ = 1 ∧ t.dispatcher.sessions σ = none

theorem Minded.deletes (h : Minded alarm s) (hf : s.loop.alarms.control.firing = some alarm) :
    ∃ t, DispatchLoop.step alarm s .onDeleteSessionsAlarm = .ok t := by
  have hd := h.tracked.onDeleteSessionsAlarm
  obtain ⟨l,hl,_⟩ := h.ticking.proceeds (e:=.delegateReturns 0)
    (show s.loop.alarms.control.firing ≠ none by simp [hf]) rfl
  exact ⟨⟨l,s.dispatcher.cleared 0⟩,by simp only [DispatchLoop.step,hd,hl,except_ok_bind]⟩

theorem Minded.started (h : Minded alarm s) (hp : s.loop.phase = .outside) :
    Minded alarm { s with loop := s.loop.startRound } :=
  ⟨h.ticking.startRound hp,h.tracked,h.alarm⟩

theorem Minded.reaps (h : Minded alarm s) (hp : s.loop.phase = .outside) {fs : List Event}
    (hround : (round alarm).Run { s with loop := s.loop.startRound } fs t)
    (hend : t.loop.phase = .outside) {σ : SessionId} (hσ : σ ∈ s.dispatcher.closedSessionList) :
    σ ∈ t.dispatcher.deleted := by
  have hne := List.ne_nil_of_mem hσ
  obtain ⟨x,hr,hdoomed⟩ := Doomed.start h hp hne
  have ht : Minded alarm t := hround.invariant (fun hs he ht => hs.step he.1 ht) (h.started hp)
  rcases hdoomed.round hround (h.started hp) hr hne with hstill | hdeleted
  · -- the round would have ended in front of an alarm whose time had come
    have hpolled := hstill.polled (by simp [hend])
    rcases hstill.awaits with hwait | hfiring
    · exact absurd hpolled (not_le.mpr (hwait.missed hend))
    · simp [ht.ticking.alarmsIdle (by simp [hend]),AlarmControl.firing] at hfiring
  · exact hdeleted σ hσ

/-- In every run of the loop and the dispatcher, whatever the other callbacks, alarms and
connections do. -/
theorem closed_sessions_reaped {debug : Bool} {now : ℤ} (hnow : 0 < now) {versions : List QuicVersion}
    {period max : ℤ} (hmax : max < 0 ∨ 1 ≤ max) {version : QuicVersion} {es : List Event}
    (hrun : (machine alarm).Run (init alarm debug now versions period max version) es s) :
    Tended alarm s := by
  have hs : Minded alarm s :=
    hrun.invariant (fun hs he ht => hs.step he ht) (.initial hnow hmax version)
  refine ⟨hs.deletes,fun hp u fs t hstart hround hend σ hσ => ?_⟩
  obtain rfl := hs.starts hp hstart
  have ht : Minded alarm t := hround.invariant (fun hs he ht => hs.step he.1 ht) (hs.started hp)
  exact ht.tracked.gone (hs.reaps hp hround hend hσ)

/-- Two sessions. The first is closed in a round that had no alarms when it started; the
second in the next round, before the alarm is called, and is deleted with it. -/
theorem closed_sessions_reaped_two : ∃ s u t, (machine 9).Run (init 9 true 5000 [25] 200 (-1) 25)
      [.loop (.op (.registerFD 3 7 epollIn)),.loop .waitForEventsAndExecuteCallbacks,
        .loop (.tick 6000),.loop (.epollWaitReturns [(3,epollIn)]),.loop .nextReady,
        .dispatcher (.processPacket ⟨1,443⟩ ⟨2,5000⟩ ⟨some ⟨7,false,true,25⟩,some 1⟩ true .ok),
        .dispatcher .returns,
        .dispatcher (.processPacket ⟨1,443⟩ ⟨3,6000⟩ ⟨some ⟨8,false,true,25⟩,some 1⟩ true .ok),
        .dispatcher (.sessionOnConnectionClosed 0),.dispatcher .returns,.loop (.onEventReturns 0),
        .loop .nextReady,.loop .eventsEnd] s ∧
    s.waitForEventsAndExecuteCallbacks = .ok u ∧ (round 9).Run u
      [.loop (.tick 7000),.loop (.epollWaitReturns [(3,epollIn)]),.loop .nextReady,
        .dispatcher (.sessionOnConnectionClosed 1),.loop (.onEventReturns 0),.loop .nextReady,
        .loop .eventsEnd,.loop .iterate,.onDeleteSessionsAlarm,.loop .iterate] t ∧
    t.dispatcher.deleted.count 0 = 1 ∧ t.dispatcher.deleted = [0,1] := by
  obtain ⟨s,hs,hrest⟩ : ∃ s, (machine 9).Run (init 9 true 5000 [25] 200 (-1) 25)
      [.loop (.op (.registerFD 3 7 epollIn)),.loop .waitForEventsAndExecuteCallbacks,
        .loop (.tick 6000),.loop (.epollWaitReturns [(3,epollIn)]),.loop .nextReady,
        .dispatcher (.processPacket ⟨1,443⟩ ⟨2,5000⟩ ⟨some ⟨7,false,true,25⟩,some 1⟩ true .ok),
        .dispatcher .returns,
        .dispatcher (.processPacket ⟨1,443⟩ ⟨3,6000⟩ ⟨some ⟨8,false,true,25⟩,some 1⟩ true .ok),
        .dispatcher (.sessionOnConnectionClosed 0),.dispatcher .returns,.loop (.onEventReturns 0),
        .loop .nextReady,.loop .eventsEnd] s ∧
      (decide (s.loop.phase = .outside ∧ s.loop.inWaitForEventsAndExecuteCallbacks = false ∧
        s.dispatcher.closedSessionList = [0]) &&
      ((round 9).exec { s with loop := s.loop.startRound }
        [.loop (.tick 7000),.loop (.epollWaitReturns [(3,epollIn)]),.loop .nextReady,
          .dispatcher (.sessionOnConnectionClosed 1),.loop (.onEventReturns 0),.loop .nextReady,
          .loop .eventsEnd,.loop .iterate,.onDeleteSessionsAlarm,.loop .iterate]).any fun t =>
            decide (t.loop.phase = .outside ∧ t.dispatcher.deleted = [0,1])) = true :=
    (machine 9).exists_run_of_exec_any (by decide +kernel)
  obtain ⟨hs',hrest⟩ := Bool.and_eq_true_iff.mp hrest
  obtain ⟨hp,hin,hclosed⟩ := of_decide_eq_true hs'
  obtain ⟨t,ht,hend⟩ := (round 9).exists_run_of_exec_any hrest
  obtain ⟨hend,hdeleted⟩ := of_decide_eq_true hend
  have htended := closed_sessions_reaped (by decide) (by decide) hs
  have hstart : s.waitForEventsAndExecuteCallbacks = .ok { s with loop := s.loop.startRound } := by
    simp [waitForEventsAndExecuteCallbacks,EventLoop.waitForEventsAndExecuteCallbacks,hin]
  exact ⟨s,_,t,hs,hstart,ht,(htended.reaps hp hstart ht hend 0 (by simp [hclosed])).1,hdeleted⟩

end DispatchLoop

namespace Dispatcher

variable {d d' : Dispatcher}

/-- `~QuicTimeWaitListManager` deletes what waits in the queue and the close packets. -/
def destroyTimeWaitListManager (d : Dispatcher) : Dispatcher :=
  let released := d.timeWaitList.entries.flatMap fun e => TimeWaitList.release e.2.closePacket
  { d with
    pendingPacketsQueue := []
    timeWaitList := { d.timeWaitList with notes := d.timeWaitList.notes ++ released } }

/-- `~QuicDispatcher`, and then the member that has a destructor of its own. -/
def destroy (d : Dispatcher) : Except Abort Dispatcher := do
  let d ← d.deleteElements d.liveSessions
  let d := { d with sessionMap := .empty }
  let d ← d.deleteElements d.closedSessionList
  .ok { d with closedSessionList := [] }.destroyTimeWaitListManager

/-- The end of a dispatcher: every session that it ever made was deleted once and none is
left, and the responses that are lost are the last ones. -/
structure Destroyed (d d' : Dispatcher) : Prop where
  deleted : d'.deleted.Perm (List.range d.created)
  gone : ∀ s, d'.sessions s = none
  lost : d'.written ++ d.pendingPacketsQueue = d'.generated

def without (d : Dispatcher) (ss : List SessionId) : Dispatcher :=
  { d with
    sessions := fun s => if s ∈ ss then none else d.sessions s
    deleted := d.deleted ++ ss }

theorem deleteElements_eq {ss : List SessionId} (hnd : ss.Nodup)
    (ha : ∀ s ∈ ss, (d.sessions s).isSome = true) : d.deleteElements ss = .ok (d.without ss) := by
  obtain ⟨d',h⟩ := deleteElements_total hnd ha
  rw [h,deleteElements_ok h]
  rfl

def withoutMap (d : Dispatcher) : Dispatcher :=
  { d.without d.liveSessions with sessionMap := .empty }

def destroyed (d : Dispatcher) : Dispatcher :=
  { d.withoutMap.without d.closedSessionList with closedSessionList := [] }.destroyTimeWaitListManager

theorem Alive.destroy (h : Alive d) : d.destroy = .ok d.destroyed := by
  obtain ⟨hlive,hclosed,hdisjoint⟩ := List.nodup_append.mp h.nodup
  have h₁ : d.deleteElements d.liveSessions = .ok (d.without d.liveSessions) :=
    deleteElements_eq hlive fun s hs => h.alive s (List.mem_append_left _ hs)
  have h₂ : d.withoutMap.deleteElements d.closedSessionList =
      .ok (d.withoutMap.without d.closedSessionList) := by
    refine deleteElements_eq hclosed fun s hs => ?_
    have hopen : s ∉ d.liveSessions := fun hmem => hdisjoint s hmem s hs rfl
    simpa [withoutMap,without,hopen] using h.alive s (List.mem_append_right _ hs)
  rw [Dispatcher.destroy,h₁,except_ok_bind]
  show (d.withoutMap.deleteElements d.closedSessionList >>= _) = _
  rw [h₂,except_ok_bind]
  rfl

theorem Tracked.destroyed (h : Tracked d) (hq : Sequenced d) : Destroyed d d.destroyed where
  deleted := by
    show (d.deleted ++ d.liveSessions ++ d.closedSessionList).Perm (List.range d.created)
    refine .trans ?_ h.standing.owned.partition
    rw [List.append_assoc]
    exact List.perm_append_comm.trans (by rw [List.append_assoc])
  gone s := by
    show (if s ∈ d.closedSessionList then none
      else if s ∈ d.liveSessions then none else d.sessions s) = none
    split_ifs with hc hl
    · rfl
    · rfl
    · refine Option.not_isSome_iff_eq_none.mp fun hsome => ?_
      exact (List.mem_append.mp (h.reached s hsome)).elim hl hc
  lost := hq.order

/-- After any run of connections that report as they should, the dispatcher can be
destroyed. -/
theorem destroyed_of_run {versions : List QuicVersion} {period max now : ℤ} {version : QuicVersion}
    (hmax : max < 0 ∨ 1 ≤ max) {es : List Event}
    (h : reporting.Run (init versions period max now version) es d) :
    ∃ d', d.destroy = .ok d' ∧ Destroyed d d' := by
  have htracked : Tracked d := h.invariant (fun hd he hs => hd.step he hs) (.initial hmax)
  have hsequenced : Sequenced d := by
    refine h.invariant (P:=Sequenced) (fun hd he hs => ?_) (.initial versions period max now version)
    exact (step_changes he.1 he.2 hs).keeps (fun hd hc => hd.change hc) hd
  exact ⟨d.destroyed,htracked.standing.alive.destroy,htracked.destroyed hsequenced⟩

/-- One session is closed and waits for its deletion, one is in the map, and a response
waits for the writer. -/
theorem destroyed_of_blocked_run : ∃ d d', reporting.Run (init [25] 200 (-1) 100 25)
    [.processPacket ⟨1,443⟩ ⟨2,5000⟩ ⟨some ⟨7,false,true,25⟩,some 1⟩ true .ok,.returns,
      .processPacket ⟨1,443⟩ ⟨3,6000⟩ ⟨some ⟨8,false,true,25⟩,some 1⟩ true .ok,
      .sessionOnConnectionClosed 0,.connectionWrites 1 .blocked,.returns,
      .processPacket ⟨1,443⟩ ⟨2,5000⟩ ⟨some ⟨7,false,false,25⟩,some 2⟩ true .ok] d ∧
    d.destroy = .ok d' ∧ Destroyed d d' ∧ d.pendingPacketsQueue.length = 1 := by
  obtain ⟨d,hd,hout⟩ : ∃ d, reporting.Run (init [25] 200 (-1) 100 25)
    [.processPacket ⟨1,443⟩ ⟨2,5000⟩ ⟨some ⟨7,false,true,25⟩,some 1⟩ true .ok,.returns,
      .processPacket ⟨1,443⟩ ⟨3,6000⟩ ⟨some ⟨8,false,true,25⟩,some 1⟩ true .ok,
      .sessionOnConnectionClosed 0,.connectionWrites 1 .blocked,.returns,
      .processPacket ⟨1,443⟩ ⟨2,5000⟩ ⟨some ⟨7,false,false,25⟩,some 2⟩ true .ok] d ∧
      decide (d.pendingPacketsQueue.length = 1) = true :=
    reporting.exists_run_of_exec_any (by decide +kernel)
  obtain ⟨d',hd',hdestroyed⟩ := destroyed_of_run (by decide) hd
  exact ⟨d,d',hd,hd',hdestroyed,of_decide_eq_true hout⟩

end Dispatcher
end CmuQuic
