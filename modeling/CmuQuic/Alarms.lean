import CmuQuic.EpollServer
import CmuQuic.Multimap

/-! The alarm side of `EpollServer`, and the alarms of the QUIC code on top of it.
A registration token is an iterator into `alarm_map_`. -/
namespace CmuQuic

structure AlarmServer where
  alarmMap : Multimap ℤ AlarmCB
  allAlarms : Finset AlarmCB
  alarmsReregisteredAndShouldBeSkipped : Finset AlarmCB

namespace AlarmServer

def init : AlarmServer := ⟨.empty,∅,∅⟩

def containsAlarm (s : AlarmServer) (ac : AlarmCB) : Bool := ac ∈ s.allAlarms

/-- Besides the new state, the token that `OnRegistration` is called with. -/
def registerAlarm (s : AlarmServer) (timeoutTimeInUs : ℤ) (ac : AlarmCB) :
    Except Abort (AlarmServer × ℕ) :=
  if s.containsAlarm ac then .error (.fatal (.alarmAlreadyExists ac))
  else .ok ({ s with
    alarmMap := s.alarmMap.insert timeoutTimeInUs ac
    allAlarms := insert ac s.allAlarms },s.alarmMap.nextToken)

/-- Besides the new state, the alarm that `OnUnregistration` is called on. -/
def unregisterAlarm (s : AlarmServer) (iteratorToken : ℕ) : Except Abort (AlarmServer × AlarmCB) :=
  match s.alarmMap.find iteratorToken with
  | none => .error .access
  | some n => .ok ({ s with
    alarmMap := s.alarmMap.erase iteratorToken
    allAlarms := s.allAlarms.erase n.val },n.val)

/-- What the head of the alarm loop decides to do. -/
inductive Turn
  | done
  | skip (i : Option ℕ)
  | fire (i : ℕ) (cb : AlarmCB)
  deriving DecidableEq

def nextAlarm (s : AlarmServer) (now : ℤ) : Option ℕ → Except Abort Turn
  | none => .ok .done
  | some i =>
    match s.alarmMap.find i with
    | none => .error .access
    | some n =>
      if n.key > now then .ok .done
      else if n.val ∈ s.alarmsReregisteredAndShouldBeSkipped then .ok (.skip (s.alarmMap.next i))
      else .ok (.fire i n.val)

def beginAlarm (s : AlarmServer) (cb : AlarmCB) : AlarmServer :=
  { s with allAlarms := s.allAlarms.erase cb }

/-- Just after `OnAlarm`: step past the entry and erase it. -/
def eraseFired (s : AlarmServer) (i : ℕ) : Except Abort (AlarmServer × Option ℕ) :=
  match s.alarmMap.find i with
  | none => .error .access
  | some _ => .ok ({ s with alarmMap := s.alarmMap.erase i },s.alarmMap.next i)

def reregister (s : AlarmServer) (now newTimeoutTimeInUs : ℤ) (cb : AlarmCB) :
    Except Abort (AlarmServer × ℕ) :=
  let s := if newTimeoutTimeInUs ≤ now then
      { s with alarmsReregisteredAndShouldBeSkipped :=
          insert cb s.alarmsReregisteredAndShouldBeSkipped }
    else s
  s.registerAlarm newTimeoutTimeInUs cb

def endAlarms (s : AlarmServer) : AlarmServer :=
  { s with alarmsReregisteredAndShouldBeSkipped := ∅ }

end AlarmServer

/-- A `QuicEpollAlarm` with its `EpollAlarm` part; the deadline 0 is no deadline. -/
structure QuicEpollAlarm where
  deadline : ℤ
  registered : Bool
  token : ℕ
  deriving DecidableEq

namespace QuicEpollAlarm

def created : QuicEpollAlarm := ⟨0,false,0⟩

end QuicEpollAlarm

/-- Where control stands: outside of `CallAndReregisterAlarmEvents`, at the head of
its loop, or inside the `OnAlarm` of the entry that the iterator points to. -/
inductive AlarmControl
  | idle
  | loop (now : ℤ) (i : Option ℕ)
  | onAlarm (now : ℤ) (i : ℕ) (cb : AlarmCB)
  deriving DecidableEq

namespace AlarmControl

def atLoop : AlarmControl → Bool
  | .loop _ _ => true
  | _ => false

def now : AlarmControl → Option ℤ
  | .idle => none
  | .loop now _ => some now
  | .onAlarm now _ _ => some now

def firing : AlarmControl → Option AlarmCB
  | .onAlarm _ _ cb => some cb
  | _ => none

end AlarmControl

structure AlarmConfig where
  server : AlarmServer
  alarms : AlarmCB → Option QuicEpollAlarm
  control : AlarmControl

namespace AlarmConfig

def init : AlarmConfig := ⟨.init,fun _ => none,.idle⟩

def write (c : AlarmConfig) (a : AlarmCB) (x : QuicEpollAlarm) : AlarmConfig :=
  { c with alarms := Function.update c.alarms a (some x) }

/-- `SetImpl`, and the `OnRegistration` that `RegisterAlarm` ends with. -/
def setImpl (c : AlarmConfig) (a : AlarmCB) : Except Abort AlarmConfig :=
  match c.alarms a with
  | none => .error .access
  | some x =>
    if x.deadline = 0 then .error .dcheck
    else do
      let (s,token) ← c.server.registerAlarm x.deadline a
      if x.registered then .error .dcheck
      else .ok ({ c with server := s }.write a { x with token := token, registered := true })

/-- `UnregisterIfRegistered`; the alarm that `OnUnregistration` reaches is the one
the token leads to. -/
def unregisterIfRegistered (c : AlarmConfig) (a : AlarmCB) : Except Abort AlarmConfig :=
  match c.alarms a with
  | none => .error .access
  | some x =>
    if x.registered then do
      let (s,cb) ← c.server.unregisterAlarm x.token
      match c.alarms cb with
      | none => .error .access
      | some y => .ok ({ c with server := s }.write cb { y with registered := false })
    else .ok c

def cancelImpl (c : AlarmConfig) (a : AlarmCB) : Except Abort AlarmConfig :=
  match c.alarms a with
  | none => .error .access
  | some x => if x.deadline = 0 then c.unregisterIfRegistered a else .error .dcheck

def set (c : AlarmConfig) (a : AlarmCB) (deadline : ℤ) : Except Abort AlarmConfig :=
  match c.alarms a with
  | none => .error .access
  | some x => (c.write a { x with deadline := deadline }).setImpl a

def cancel (c : AlarmConfig) (a : AlarmCB) : Except Abort AlarmConfig :=
  match c.alarms a with
  | none => .error .access
  | some x => (c.write a { x with deadline := 0 }).cancelImpl a

def destroy (c : AlarmConfig) (a : AlarmCB) : Except Abort AlarmConfig := do
  let c ← c.unregisterIfRegistered a
  .ok { c with alarms := Function.update c.alarms a none }

/-- The part of `OnAlarm` before the delegate runs. Without a deadline `Fire` does
nothing, and the loop goes on at once. -/
def onAlarm (c : AlarmConfig) (now : ℤ) (i : ℕ) (cb : AlarmCB) : Except Abort AlarmConfig :=
  match c.alarms cb with
  | none => .error .access
  | some x =>
    let c := c.write cb { x with registered := false, deadline := 0 }
    if x.deadline = 0 then do
      let (s,i) ← c.server.eraseFired i
      .ok { c with server := s, control := .loop now i }
    else .ok { c with control := .onAlarm now i cb }

/-- The rest of `OnAlarm` after the delegate returned, and the rest of the loop
body. `OnAlarm` returns 0, so there is nothing to register again. -/
def delegateReturns (c : AlarmConfig) (now : ℤ) (i : ℕ) (cb : AlarmCB) (deadline : ℤ) :
    Except Abort AlarmConfig :=
  match c.alarms cb with
  | none => .error .access
  | some x => do
    let c ← if x.deadline = 0 ∧ deadline ≠ 0 then c.set cb deadline else .ok c
    let (s,i) ← c.server.eraseFired i
    .ok { c with server := s, control := .loop now i }

inductive Event
  | create (a : AlarmCB)
  | set (a : AlarmCB) (deadline : ℤ)
  | cancel (a : AlarmCB)
  | destroy (a : AlarmCB)
  | callAndReregisterAlarmEvents (now : ℤ)
  | iterate
  | delegateReturns (deadline : ℤ)

def hasNoDeadline (c : AlarmConfig) (a : AlarmCB) : Prop :=
  (c.alarms a).any (fun x => x.deadline = 0) = true

def isAlive (c : AlarmConfig) (a : AlarmCB) : Prop := (c.alarms a).isSome = true

/-- `Set` is called only without a deadline, and no alarm is destroyed by its own
delegate. Nothing but the loop itself runs at the head of the loop. -/
def admits (c : AlarmConfig) : Event → Prop
  | .create a => c.control.atLoop = false ∧ ¬c.isAlive a
  | .set a deadline => c.control.atLoop = false ∧ c.hasNoDeadline a ∧ deadline ≠ 0
  | .cancel a => c.control.atLoop = false ∧ c.isAlive a
  | .destroy a => c.control.atLoop = false ∧ c.isAlive a ∧ c.control.firing ≠ some a
  | .callAndReregisterAlarmEvents now => c.control = .idle ∧ now ≠ 0
  | .iterate => c.control.atLoop = true
  | .delegateReturns _ => c.control.firing ≠ none

def step (c : AlarmConfig) : Event → Except Abort AlarmConfig
  | .create a => .ok (c.write a .created)
  | .set a deadline => c.set a deadline
  | .cancel a => c.cancel a
  | .destroy a => c.destroy a
  | .callAndReregisterAlarmEvents now =>
    if now = 0 then .error .dcheck
    else .ok { c with control := .loop now c.server.alarmMap.first }
  | .iterate =>
    match c.control with
    | .loop now i => do
      match ← c.server.nextAlarm now i with
      | .done => .ok { c with server := c.server.endAlarms, control := .idle }
      | .skip i => .ok { c with control := .loop now i }
      | .fire i cb => onAlarm { c with server := c.server.beginAlarm cb } now i cb
    | _ => .ok c
  | .delegateReturns deadline =>
    match c.control with
    | .onAlarm now i cb => c.delegateReturns now i cb deadline
    | _ => .ok c

def machine : Machine AlarmConfig Event Abort := ⟨admits,step⟩

instance (c : AlarmConfig) : (e : Event) → Decidable (c.admits e)
  | .create _ => inferInstanceAs (Decidable (_ = false ∧ ¬(_ = true)))
  | .set _ _ => inferInstanceAs (Decidable (_ = false ∧ _ = true ∧ _ ≠ _))
  | .cancel _ => inferInstanceAs (Decidable (_ = false ∧ _ = true))
  | .destroy _ => inferInstanceAs (Decidable (_ = false ∧ _ = true ∧ _ ≠ _))
  | .callAndReregisterAlarmEvents _ => inferInstanceAs (Decidable (_ = _ ∧ _ ≠ _))
  | .iterate => inferInstanceAs (Decidable (_ = true))
  | .delegateReturns _ => inferInstanceAs (Decidable (_ ≠ _))

instance (c : AlarmConfig) (e : Event) : Decidable (machine.admits c e) :=
  inferInstanceAs (Decidable (c.admits e))

end AlarmConfig
end CmuQuic
