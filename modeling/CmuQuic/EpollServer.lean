import CmuQuic.IntrusiveList
import CmuQuic.Machine
import Mathlib.Data.Finmap

/-! The descriptor side of `EpollServer`: registrations, the two intrusive ready
lists and the netdp epoll set. A node of `cb_map_` is addressed by its descriptor
and by the allocation that holds it, so that a pointer to an erased node stays
different from a pointer to a later node for the same descriptor. -/
namespace CmuQuic
open IntrusiveList

abbrev Fd := ℤ

abbrev Mask := BitVec 32

/-- The identity of a callback object; `NULL` is `none` where it may occur. -/
abbrev CB := ℕ

def epollIn : Mask := 0x001#32
def epollOut : Mask := 0x004#32
def epollErr : Mask := 0x008#32
def epollHup : Mask := 0x010#32

structure CBAndEventMask where
  cb : Option CB
  serial : ℕ
  eventMask : Mask
  eventsAsserted : Mask
  eventsToFake : Mask
  inUse : Bool
  deriving DecidableEq

structure NodePtr where
  fd : Fd
  serial : ℕ
  deriving DecidableEq

inductive ListHead
  | readyList | tmpList
  deriving DecidableEq

abbrev AlarmCB := ℕ

/-- The `LOG(FATAL)` messages of the server, and the `LOG(DFATAL)` of a round inside a round. -/
inductive Fatal
  | setRemovalError (fd : Fd)
  | setInsertionError (fd : Fd)
  | setModificationError (fd : Fd)
  | alarmAlreadyExists (ac : AlarmCB)
  | epollWaitError
  | nestedRound
  deriving DecidableEq

/-- The ways a call does not come back: an access to freed or null memory, a failed
debug check, a fatal log line, or a loop that runs for ever. -/
inductive Abort
  | access
  | dcheck
  | fatal (what : Fatal)
  | hang
  deriving DecidableEq

structure EpollServer where
  cbMap : Finmap (fun _ : Fd => CBAndEventMask)
  nextSerial : ℕ
  links : Links ListHead NodePtr
  readyListSize : ℤ
  epollSet : Finmap (fun _ : Fd => Mask)

namespace EpollServer

def init : EpollServer := ⟨∅,0,.init,0,∅⟩

/-- The node behind a pointer, if that very allocation is still in `cb_map_`. -/
def deref (s : EpollServer) (p : NodePtr) : Option CBAndEventMask :=
  (s.cbMap.lookup p.fd).filter fun n => n.serial = p.serial

def live (s : EpollServer) (p : NodePtr) : Bool := (s.deref p).isSome

def writeNode (s : EpollServer) (p : NodePtr) (f : CBAndEventMask → CBAndEventMask) :
    Except Abort EpollServer :=
  match s.deref p with
  | none => .error .access
  | some n => .ok { s with cbMap := s.cbMap.insert p.fd (f n) }

/-- What `epoll_ctl` is told to watch for a requested mask. -/
def watched (mask : Mask) : Mask := mask ||| epollErr ||| epollHup

def delFD (s : EpollServer) (fd : Fd) : Except Abort EpollServer :=
  if fd ∈ s.epollSet then .ok { s with epollSet := s.epollSet.erase fd }
  else .error (.fatal (.setRemovalError fd))

def addFD (s : EpollServer) (fd : Fd) (mask : Mask) : Except Abort EpollServer :=
  if fd ∈ s.epollSet then .error (.fatal (.setInsertionError fd))
  else .ok { s with epollSet := s.epollSet.insert fd (watched mask) }

def modFD (s : EpollServer) (fd : Fd) (mask : Mask) : Except Abort EpollServer :=
  if fd ∈ s.epollSet then .ok { s with epollSet := s.epollSet.insert fd (watched mask) }
  else .error (.fatal (.setModificationError fd))

def addToReadyList (s : EpollServer) (p : NodePtr) : Except Abort EpollServer :=
  if s.live p then
    if s.links.lePrev p = none then
      match s.links.insertHead s.live .readyList p with
      | none => .error .access
      | some l => .ok { s with links := l, readyListSize := s.readyListSize+1 }
    else .ok s
  else .error .access

def removeFromReadyList (s : EpollServer) (p : NodePtr) : Except Abort EpollServer :=
  if s.live p then
    if s.links.lePrev p = none then .ok s
    else match s.links.remove s.live p with
      | none => .error .access
      | some l =>
        let l := l.setPrev p none
        if s.readyListSize-1 = 0 ∧ ¬(l.lhFirst .readyList = none ∧ l.lhFirst .tmpList = none) then
          .error .dcheck
        else .ok { s with links := l, readyListSize := s.readyListSize-1 }
  else .error .access

/-- What the notification callbacks do to the server while they run. -/
structure Notify where
  onRegistration : Fd → Mask → EpollServer → Except Abort EpollServer
  onModification : Fd → Mask → EpollServer → Except Abort EpollServer
  onUnregistration : Fd → Bool → EpollServer → Except Abort EpollServer

def Notify.silent : Notify := ⟨fun _ _ s => .ok s,fun _ _ s => .ok s,fun _ _ s => .ok s⟩

def insertNode (s : EpollServer) (fd : Fd) (cb : CB) (mask : Mask) : EpollServer :=
  { s with
    cbMap := s.cbMap.insert fd ⟨some cb,s.nextSerial,mask,0,0,false⟩
    nextSerial := s.nextSerial+1
    links := s.links.fresh ⟨fd,s.nextSerial⟩ }

def registerFD (note : Notify) (s : EpollServer) (fd : Fd) (cb : CB) (mask : Mask) :
    Except Abort EpollServer :=
  match s.cbMap.lookup fd with
  | some n => do
    let p : NodePtr := ⟨fd,n.serial⟩
    let s ← match n.cb with
      | some _ => do
        let s ← s.removeFromReadyList p
        let s ← note.onUnregistration fd true s
        s.modFD fd mask
      | none => s.addFD fd mask
    let s ← s.writeNode p fun n => { n with cb := some cb, eventMask := mask, eventsToFake := 0 }
    note.onRegistration fd mask s
  | none => do
    let s ← s.addFD fd mask
    note.onRegistration fd mask (s.insertNode fd cb mask)

def unregisterFD (note : Notify) (s : EpollServer) (fd : Fd) : Except Abort EpollServer :=
  match s.cbMap.lookup fd with
  | none => .ok s
  | some n =>
    match n.cb with
    | none => .ok s
    | some _ => do
      let p : NodePtr := ⟨fd,n.serial⟩
      let s ← s.removeFromReadyList p
      let s ← s.delFD fd
      let s ← note.onUnregistration fd false s
      match s.deref p with
      | none => .error .access
      | some n =>
        if n.inUse then
          s.writeNode p fun n => { n with cb := none, eventMask := 0, eventsToFake := 0 }
        else .ok { s with cbMap := s.cbMap.erase fd }

def modifyFD (note : Notify) (s : EpollServer) (fd : Fd) (removeEvent addEvent : Mask) :
    Except Abort EpollServer :=
  match s.cbMap.lookup fd with
  | none => .ok s
  | some n =>
    match n.cb with
    | none => .ok s
    | some _ => do
      let mask := (n.eventMask &&& ~~~removeEvent) ||| addEvent
      let s ← s.writeNode ⟨fd,n.serial⟩ fun n => { n with eventMask := mask }
      let s ← s.modFD fd mask
      note.onModification fd mask s

def modifyCallback (note : Notify) (s : EpollServer) (fd : Fd) (mask : Mask) :=
  s.modifyFD note fd (~~~0#32) mask
def stopRead (note : Notify) (s : EpollServer) (fd : Fd) := s.modifyFD note fd epollIn 0
def startRead (note : Notify) (s : EpollServer) (fd : Fd) := s.modifyFD note fd 0 epollIn
def stopWrite (note : Notify) (s : EpollServer) (fd : Fd) := s.modifyFD note fd epollOut 0
def startWrite (note : Notify) (s : EpollServer) (fd : Fd) := s.modifyFD note fd 0 epollOut

def handleEvent (s : EpollServer) (fd : Fd) (mask : Mask) : Except Abort EpollServer :=
  match s.cbMap.lookup fd with
  | none => .ok s
  | some n =>
    match n.cb with
    | none => .ok s
    | some _ => do
      let p : NodePtr := ⟨fd,n.serial⟩
      let s ← s.writeNode p fun n => { n with eventsAsserted := mask }
      s.addToReadyList p

def setFDReady (s : EpollServer) (fd : Fd) (eventsToFake : Mask) : Except Abort EpollServer :=
  match s.cbMap.lookup fd with
  | none => .ok s
  | some n =>
    match n.cb with
    | none => .ok s
    | some _ => do
      let p : NodePtr := ⟨fd,n.serial⟩
      let s ← s.writeNode p fun n => { n with eventsToFake := eventsToFake }
      s.addToReadyList p

def setFDNotReady (s : EpollServer) (fd : Fd) : Except Abort EpollServer :=
  match s.cbMap.lookup fd with
  | none => .ok s
  | some n => s.removeFromReadyList ⟨fd,n.serial⟩

def isFDReady (s : EpollServer) (fd : Fd) : Bool :=
  match s.cbMap.lookup fd with
  | none => false
  | some n => n.cb.isSome && (s.links.lePrev ⟨fd,n.serial⟩).isSome

/-- A call that a notification callback makes on the ready list. -/
inductive ReadyCall
  | setFDReady (fd : Fd) (eventsToFake : Mask)
  | setFDNotReady (fd : Fd)
  deriving DecidableEq

def makes (s : EpollServer) : List ReadyCall → Except Abort EpollServer
  | [] => .ok s
  | .setFDReady fd mask :: cs => do
    let s ← s.setFDReady fd mask
    s.makes cs
  | .setFDNotReady fd :: cs => do
    let s ← s.setFDNotReady fd
    s.makes cs

/-- What each notification callback does, if it runs. -/
structure NotifyCalls where
  onRegistration : List ReadyCall
  onModification : List ReadyCall
  onUnregistration : List ReadyCall
  deriving DecidableEq

def NotifyCalls.notify (k : NotifyCalls) : Notify :=
  ⟨fun _ _ s => s.makes k.onRegistration,fun _ _ s => s.makes k.onModification,
    fun _ _ s => s.makes k.onUnregistration⟩

/-- The public operations a client or a callback may perform on the server. -/
inductive Op
  | registerFD (fd : Fd) (cb : CB) (mask : Mask)
  | unregisterFD (fd : Fd)
  | modifyCallback (fd : Fd) (mask : Mask)
  | stopRead (fd : Fd)
  | startRead (fd : Fd)
  | stopWrite (fd : Fd)
  | startWrite (fd : Fd)
  | handleEvent (fd : Fd) (mask : Mask)
  | setFDReady (fd : Fd) (eventsToFake : Mask)
  | setFDNotReady (fd : Fd)
  deriving DecidableEq

def perform (note : Notify) (s : EpollServer) : Op → Except Abort EpollServer
  | .registerFD fd cb mask => s.registerFD note fd cb mask
  | .unregisterFD fd => s.unregisterFD note fd
  | .modifyCallback fd mask => s.modifyCallback note fd mask
  | .stopRead fd => s.stopRead note fd
  | .startRead fd => s.startRead note fd
  | .stopWrite fd => s.stopWrite note fd
  | .startWrite fd => s.startWrite note fd
  | .handleEvent fd mask => s.handleEvent fd mask
  | .setFDReady fd mask => s.setFDReady fd mask
  | .setFDNotReady fd => s.setFDNotReady fd

structure OnEventCall where
  cb : CB
  fd : Fd
  inEvents : Mask
  deriving DecidableEq

/-- The opening of `CallReadyListCallbacks`: hand the ready list over. -/
def swapLists (s : EpollServer) : Except Abort EpollServer :=
  if s.links.lhFirst .tmpList = none then
    match s.links.moveHead s.live .readyList .tmpList with
    | none => .error .access
    | some l => .ok { s with links := l }
  else .error .dcheck

/-- The part of one loop iteration before `OnEvent`: unlink the first entry of
`tmp_list_`, collect and clear its masks, and mark it in use. -/
def takeReady (s : EpollServer) (p : NodePtr) : Except Abort (EpollServer × OnEventCall) :=
  if s.readyListSize ≤ 0 then .error .dcheck
  else do
    let s ← s.removeFromReadyList p
    match s.deref p with
    | none => .error .access
    | some n =>
      if n.inUse then .error .dcheck
      else do
        let s ← s.writeNode p fun n =>
          { n with eventsAsserted := 0, eventsToFake := 0, inUse := true }
        match n.cb with
        | none => .error .access
        | some cb => .ok (s,⟨cb,p.fd,n.eventsAsserted ||| n.eventsToFake⟩)

/-- The part of one loop iteration after `OnEvent`: release the node, drop it if
it was unregistered meanwhile, and requeue it if the callback asked for that. -/
def finishReady (s : EpollServer) (p : NodePtr) (outReadyMask : Mask) :
    Except Abort EpollServer := do
  let s ← s.writeNode p fun n => { n with inUse := false }
  match s.deref p with
  | none => .error .access
  | some n =>
    match n.cb with
    | none => .ok { s with cbMap := s.cbMap.erase p.fd }
    | some _ =>
      if outReadyMask ≠ 0 then do
        let s ← s.writeNode p fun n => { n with eventsToFake := outReadyMask }
        s.addToReadyList p
      else .ok s

end EpollServer

/-- Where control stands between two primitive operations: outside of
`CallReadyListCallbacks`, at the head of its loop, or inside an `OnEvent`. -/
inductive Control
  | idle
  | loop
  | onEvent (node : NodePtr)
  deriving DecidableEq

def Control.isOnEvent : Control → Bool
  | .onEvent _ => true
  | _ => false

def Control.frame : Control → Option NodePtr
  | .onEvent p => some p
  | _ => none

/-- What an outside observer sees happen at the server, in order. -/
inductive Happened
  | did (op : EpollServer.Op)
  | called (call : EpollServer.OnEventCall)
  | returned (fd : Fd) (outReadyMask : Mask)
  deriving DecidableEq

structure EpollConfig where
  server : EpollServer
  control : Control
  trace : List Happened

namespace EpollConfig
open EpollServer

inductive Event
  | op (o : Op)
  | callReadyListCallbacks
  | nextReady
  | onEventReturns (outReadyMask : Mask)

/-- Operations come from clients between rounds or from inside an `OnEvent`;
`OnEvent` itself never starts another `CallReadyListCallbacks`. -/
def admits (c : EpollConfig) : Event → Prop
  | .op _ => c.control ≠ .loop
  | .callReadyListCallbacks => c.control = .idle
  | .nextReady => c.control = .loop
  | .onEventReturns _ => c.control.isOnEvent = true

instance (c : EpollConfig) : (e : Event) → Decidable (c.admits e)
  | .op _ => inferInstanceAs (Decidable (_ ≠ _))
  | .callReadyListCallbacks => inferInstanceAs (Decidable (_ = _))
  | .nextReady => inferInstanceAs (Decidable (_ = _))
  | .onEventReturns _ => inferInstanceAs (Decidable (_ = _))

def step (note : Notify) (c : EpollConfig) : Event → Except Abort EpollConfig
  | .op o => do
    let s ← c.server.perform note o
    .ok { c with server := s, trace := c.trace ++ [.did o] }
  | .callReadyListCallbacks => do
    let s ← c.server.swapLists
    .ok { c with server := s, control := .loop }
  | .nextReady =>
    match c.server.links.lhFirst .tmpList with
    | none => .ok { c with control := .idle }
    | some p => do
      let (s,call) ← c.server.takeReady p
      .ok { c with server := s, control := .onEvent p, trace := c.trace ++ [.called call] }
  | .onEventReturns mask =>
    match c.control with
    | .onEvent p => do
      let s ← c.server.finishReady p mask
      .ok { c with server := s, control := .loop, trace := c.trace ++ [.returned p.fd mask] }
    | _ => .ok c

/-- The server with silent notification callbacks and arbitrary `OnEvent`s. -/
def machine : Machine EpollConfig Event Abort := ⟨admits,step .silent⟩

instance (c : EpollConfig) (e : Event) : Decidable (machine.admits c e) :=
  inferInstanceAs (Decidable (c.admits e))

def init : EpollConfig := ⟨.init,.idle,[]⟩

/-- `CallReadyListCallbacks` is called only if there is something on the ready list. -/
def startCallbacks (c : EpollConfig) : Except Abort EpollConfig :=
  if c.server.links.lhFirst .readyList = none then .ok c else machine.step c .callReadyListCallbacks

end EpollConfig
end CmuQuic
