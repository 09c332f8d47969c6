import CmuQuic.TimeWaitList

/-! `QuicDispatcher` with the objects that it shares one writer with: the sessions
and the time-wait list manager. Code of libquic is visible as the events that the
dispatcher sees: what the framer reports, and what connections do through the writer
and the session visitor. -/
namespace CmuQuic

/-- The identity of a session object, and of the connection that it owns. -/
abbrev SessionId := ℕ

structure IPEndPoint where
  address : ℕ
  port : ℕ
  deriving DecidableEq

structure QuicPacketPublicHeader where
  connectionId : ConnectionId
  resetFlag : Bool
  versionFlag : Bool
  /-- `versions.front()`, which is there with the version flag. -/
  version : QuicVersion

/-- An incoming packet as far as the framer can parse it. -/
structure QuicEncryptedPacket where
  publicHeader : Option QuicPacketPublicHeader
  packetSequenceNumber : Option ℕ

inductive WriteStatus
  | ok
  | blocked
  | error
  deriving DecidableEq

inductive QuicBlockedWriter
  | connection (s : SessionId)
  | timeWaitListManager
  deriving DecidableEq

inductive ResponsePacket
  | closePacket (p : PacketId)
  | publicReset (id : ConnectionId) (rejectedSequenceNumber : ℕ)
  deriving DecidableEq

structure QueuedPacket where
  serverAddress : IPEndPoint
  clientAddress : IPEndPoint
  packet : ResponsePacket
  deriving DecidableEq

/-- The part of a session and its connection that the dispatcher reads. A connection
that has reported its close is no longer connected. -/
structure QuicServerSession where
  connectionId : ConnectionId
  version : QuicVersion
  connectionClosePacket : Option PacketId
  connected : Bool

/-- Calls that leave the dispatcher while it handles a packet. -/
inductive DispatcherCall
  | createQuicSession (id : ConnectionId)
  | processUdpPacket (s : SessionId)
  | timeWaitProcessPacket (id : ConnectionId)
  deriving DecidableEq

/-- Lines logged as DFATAL. -/
inductive DispatcherFatal
  | connectionIdNotInSessionMap (id : ConnectionId)
  | writerNotBlocked
  | versionMismatch (id : ConnectionId)
  deriving DecidableEq

/-- Where control stands when the dispatcher is not running itself. -/
inductive DispatcherControl
  | idle
  | processUdpPacket (s : SessionId)
  | canWriteLoop
  | connectionOnCanWrite (s : SessionId)
  | timeWaitOnCanWrite
  | shutdownLoop
  | sendConnectionClose (s : SessionId)
  deriving DecidableEq

def DispatcherControl.running : DispatcherControl → Bool
  | .idle => true
  | .processUdpPacket _ => true
  | .connectionOnCanWrite _ => true
  | .sendConnectionClose _ => true
  | _ => false

structure Dispatcher where
  supportedVersions : List QuicVersion
  timeWaitPeriod : ℤ
  maxConnections : ℤ
  approximateNow : ℤ
  framerVersion : QuicVersion
  /-- `write_blocked_` of the shared `QuicDefaultPacketWriter`. -/
  writeBlocked : Bool
  /-- The session objects that are alive. -/
  sessions : SessionId → Option QuicServerSession
  created : ℕ
  deleted : List SessionId
  sessionMap : LinkedHashMap ConnectionId SessionId
  closedSessionList : List SessionId
  /-- The deadline of `delete_sessions_alarm_`, 0 if it is not set. -/
  deleteSessionsAlarm : ℤ
  writeBlockedList : LinkedHashMap QuicBlockedWriter Bool
  timeWaitList : TimeWaitList
  pendingPacketsQueue : List QueuedPacket
  /-- The responses that were generated, and those that `WriteToWire` was done with. -/
  generated : List QueuedPacket
  written : List QueuedPacket
  calls : List DispatcherCall
  fatals : List DispatcherFatal
  control : DispatcherControl

namespace Dispatcher

def init (supportedVersions : List QuicVersion) (timeWaitPeriod maxConnections approximateNow : ℤ)
    (framerVersion : QuicVersion) : Dispatcher where
  supportedVersions := supportedVersions
  timeWaitPeriod := timeWaitPeriod
  maxConnections := maxConnections
  approximateNow := approximateNow
  framerVersion := framerVersion
  writeBlocked := false
  sessions := fun _ => none
  created := 0
  deleted := []
  sessionMap := .empty
  closedSessionList := []
  deleteSessionsAlarm := 0
  writeBlockedList := .empty
  timeWaitList := .init
  pendingPacketsQueue := []
  generated := []
  written := []
  calls := []
  fatals := []
  control := .idle

def call (d : Dispatcher) (c : DispatcherCall) : Dispatcher := { d with calls := d.calls ++ [c] }

def fatal (d : Dispatcher) (e : DispatcherFatal) : Dispatcher := { d with fatals := d.fatals ++ [e] }

def writeSession (d : Dispatcher) (s : SessionId) (x : QuicServerSession) : Dispatcher :=
  { d with sessions := Function.update d.sessions s (some x) }

/-- `QuicDefaultPacketWriter::WritePacket`. -/
def writePacket (d : Dispatcher) (status : WriteStatus) : Except Abort Dispatcher :=
  if d.writeBlocked then .error .dcheck
  else if status = .blocked then .ok { d with writeBlocked := true }
  else .ok d

def isWriteBlockedDataBuffered (_ : Dispatcher) : Bool := false

def onWriteBlocked (d : Dispatcher) (blockedWriter : QuicBlockedWriter) : Dispatcher :=
  if d.writeBlocked then
    { d with writeBlockedList := d.writeBlockedList.insert blockedWriter true }
  else d.fatal .writerNotBlocked

section TimeWaitListManager

def writeToWire (d : Dispatcher) (queuedPacket : QueuedPacket) (status : WriteStatus) :
    Except Abort (Dispatcher × Bool) :=
  if d.writeBlocked then .ok (d.onWriteBlocked .timeWaitListManager,false)
  else do
    let d ← d.writePacket status
    if status = .blocked then
      if d.writeBlocked then
        let d := d.onWriteBlocked .timeWaitListManager
        if d.isWriteBlockedDataBuffered then
          .ok ({ d with written := d.written ++ [queuedPacket] },true)
        else .ok (d,false)
      else .error .dcheck
    else .ok ({ d with written := d.written ++ [queuedPacket] },true)

def sendOrQueuePacket (d : Dispatcher) (packet : QueuedPacket) (status : WriteStatus) :
    Except Abort Dispatcher := do
  let d := { d with generated := d.generated ++ [packet] }
  match ← d.writeToWire packet status with
  | (d,true) => .ok d
  | (d,false) => .ok { d with pendingPacketsQueue := d.pendingPacketsQueue ++ [packet] }

/-- Whether the number of packets is a power of two. -/
def shouldSendResponse (receivedPacketCount : ℕ) : Bool :=
  receivedPacketCount &&& (receivedPacketCount-1) = 0

def sendPublicReset (d : Dispatcher) (serverAddress clientAddress : IPEndPoint) (id : ConnectionId)
    (rejectedSequenceNumber : ℕ) (status : WriteStatus) : Except Abort Dispatcher :=
  d.sendOrQueuePacket ⟨serverAddress,clientAddress,.publicReset id rejectedSequenceNumber⟩ status

/-- `QuicTimeWaitListManager::ProcessPacket`. -/
def timeWaitProcessPacket (d : Dispatcher) (serverAddress clientAddress : IPEndPoint)
    (id : ConnectionId) (sequenceNumber : ℕ) (status : WriteStatus) : Except Abort Dispatcher :=
  let d := d.call (.timeWaitProcessPacket id)
  match d.timeWaitList.connectionIdMap.find id with
  | none => .error .dcheck
  | some data =>
    let d := { d with timeWaitList := d.timeWaitList.countPacket id }
    if shouldSendResponse (data.numPackets+1) then
      match data.closePacket with
      | some p => d.sendOrQueuePacket ⟨serverAddress,clientAddress,.closePacket p⟩ status
      | none => d.sendPublicReset serverAddress clientAddress id sequenceNumber status
    else .ok d

def addConnectionIdToTimeWait (d : Dispatcher) (id : ConnectionId) (version : QuicVersion)
    (closePacket : Option PacketId) : Except Abort Dispatcher := do
  let l ← d.timeWaitList.addConnectionIdToTimeWait d.maxConnections d.approximateNow id version
    closePacket
  .ok { d with timeWaitList := l }

def getQuicVersionFromConnectionId (d : Dispatcher) (id : ConnectionId) : Except Abort QuicVersion :=
  match d.timeWaitList.connectionIdMap.find id with
  | none => .error .dcheck
  | some data => .ok data.version

/-- One turn of the loop of `QuicTimeWaitListManager::OnCanWrite`. -/
def timeWaitOnCanWrite (d : Dispatcher) (status : WriteStatus) : Except Abort Dispatcher :=
  match d.pendingPacketsQueue with
  | [] => .ok { d with control := .canWriteLoop }
  | queuedPacket :: rest => do
    match ← d.writeToWire queuedPacket status with
    | (d,true) => .ok { d with pendingPacketsQueue := rest }
    | (d,false) => .ok { d with control := .canWriteLoop }

/-- The expiry in `CleanUpOldConnectionIds`. -/
def cleanUpOldConnectionIds (d : Dispatcher) : Dispatcher :=
  let expiration := d.approximateNow-d.timeWaitPeriod
  { d with timeWaitList := d.timeWaitList.expireOldConnections (.us expiration) }

end TimeWaitListManager

/-- The answer says whether the framer goes on with the packet. -/
def handlePacketForTimeWait (d : Dispatcher) (header : QuicPacketPublicHeader) :
    Except Abort (Dispatcher × Bool) :=
  if header.resetFlag then .ok (d,false)
  else do
    let version ← d.getQuicVersionFromConnectionId header.connectionId
    .ok ({ d with framerVersion := version },true)

def isSupportedVersion (d : Dispatcher) (version : QuicVersion) : Bool :=
  version ∈ d.supportedVersions

/-- `CreateQuicSession` is virtual and may fail. A connection starts with the first of
the supported versions. -/
def createQuicSession (d : Dispatcher) (id : ConnectionId) (succeeds : Bool) :
    Dispatcher × Option SessionId :=
  let d := d.call (.createQuicSession id)
  if succeeds then
    ({ d.writeSession d.created ⟨id,d.supportedVersions.headD 0,none,true⟩ with
      created := d.created+1 },some d.created)
  else (d,none)

/-- Add an id without a close packet, and check that it is there. -/
def addUnknownToTimeWait (d : Dispatcher) (id : ConnectionId) (version : QuicVersion) :
    Except Abort Dispatcher := do
  let d ← d.addConnectionIdToTimeWait id version none
  if d.timeWaitList.isConnectionIdInTimeWait id then .ok d else .error .dcheck

def additionalValidityChecksThenCreateSession (d : Dispatcher) (header : QuicPacketPublicHeader)
    (succeeds : Bool) : Except Abort (Dispatcher × Option SessionId) :=
  match d.createQuicSession header.connectionId succeeds with
  | (d,none) =>
    if d.isSupportedVersion header.version then do
      let d ← d.addUnknownToTimeWait header.connectionId header.version
      let (d,_) ← d.handlePacketForTimeWait header
      .ok (d,none)
    else .ok (d,none)
  | (d,some session) =>
    .ok ({ d with sessionMap := d.sessionMap.insert header.connectionId session },some session)

def processUdpPacket (d : Dispatcher) (session : SessionId) : Except Abort (Dispatcher × Bool) :=
  match d.sessions session with
  | none => .error .access
  | some _ =>
    .ok ({ d.call (.processUdpPacket session) with control := .processUdpPacket session },false)

def onUnauthenticatedPublicHeader (d : Dispatcher) (clientAddress : IPEndPoint)
    (header : QuicPacketPublicHeader) (succeeds : Bool) : Except Abort (Dispatcher × Bool) :=
  if clientAddress.port = 0 then .ok (d,false)
  else match d.sessionMap.find header.connectionId with
    | some session => d.processUdpPacket session
    | none =>
      if d.timeWaitList.isConnectionIdInTimeWait header.connectionId then
        d.handlePacketForTimeWait header
      else if header.resetFlag then .ok (d,false)
      else if !header.versionFlag then
        match d.supportedVersions with
        | [] => .error .access
        | version :: _ => do
          let d ← d.addUnknownToTimeWait header.connectionId version
          d.handlePacketForTimeWait header
      else do
        match ← d.additionalValidityChecksThenCreateSession header succeeds with
        | (d,none) => .ok (d,false)
        | (d,some session) => d.processUdpPacket session

def onProtocolVersionMismatch (d : Dispatcher) (id : ConnectionId) : Dispatcher × Bool :=
  if d.timeWaitList.isConnectionIdInTimeWait id then (d,true)
  else (d.fatal (.versionMismatch id),false)

def onUnauthenticatedHeader (d : Dispatcher) (serverAddress clientAddress : IPEndPoint)
    (id : ConnectionId) (sequenceNumber : ℕ) (status : WriteStatus) : Except Abort Dispatcher :=
  if d.timeWaitList.isConnectionIdInTimeWait id then
    d.timeWaitProcessPacket serverAddress clientAddress id sequenceNumber status
  else .error .dcheck

/-- The rest of the framer's work after the version is settled. `OnPublicResetPacket`
asserts that it is never called. -/
def framerParsesHeader (d : Dispatcher) (serverAddress clientAddress : IPEndPoint)
    (header : QuicPacketPublicHeader) (packetSequenceNumber : Option ℕ) (status : WriteStatus) :
    Except Abort Dispatcher :=
  if header.resetFlag then .error .dcheck
  else match packetSequenceNumber with
    | none => .ok d
    | some n => d.onUnauthenticatedHeader serverAddress clientAddress header.connectionId n status

/-- What the framer of a server does with a packet that it may go on with. -/
def framerContinues (d : Dispatcher) (serverAddress clientAddress : IPEndPoint)
    (header : QuicPacketPublicHeader) (packetSequenceNumber : Option ℕ) (status : WriteStatus) :
    Except Abort Dispatcher :=
  if header.versionFlag ∧ header.version ≠ d.framerVersion then
    match d.onProtocolVersionMismatch header.connectionId with
    | (d,true) =>
      d.framerParsesHeader serverAddress clientAddress header packetSequenceNumber status
    | (d,false) => .ok d
  else d.framerParsesHeader serverAddress clientAddress header packetSequenceNumber status

def processPacket (d : Dispatcher) (serverAddress clientAddress : IPEndPoint)
    (packet : QuicEncryptedPacket) (succeeds : Bool) (status : WriteStatus) :
    Except Abort Dispatcher :=
  match packet.publicHeader with
  | none => .ok d
  | some header => do
    match ← d.onUnauthenticatedPublicHeader clientAddress header succeeds with
    | (d,true) =>
      d.framerContinues serverAddress clientAddress header packet.packetSequenceNumber status
    | (d,false) => .ok d

def cleanUpSession (d : Dispatcher) (id : ConnectionId) (session : SessionId) :
    Except Abort Dispatcher :=
  match d.sessions session with
  | none => .error .access
  | some x => do
    -- the close packet is released by the connection
    let d := d.writeSession session { x with connectionClosePacket := none }
    let d := { d with writeBlockedList := d.writeBlockedList.erase (.connection session) }
    let d ← d.addConnectionIdToTimeWait id x.version x.connectionClosePacket
    .ok { d with sessionMap := d.sessionMap.erase id }

/-- `Cancel` and `Set` of the alarm before the first closed session; there is no alarm
for the time 0. -/
def setDeleteSessionsAlarm (d : Dispatcher) : Except Abort Dispatcher :=
  if d.closedSessionList.isEmpty then
    if d.approximateNow = 0 then .error .dcheck
    else .ok { d with deleteSessionsAlarm := d.approximateNow }
  else .ok d

def onConnectionClosed (d : Dispatcher) (id : ConnectionId) : Except Abort Dispatcher :=
  match d.sessionMap.find id with
  | none => .ok (d.fatal (.connectionIdNotInSessionMap id))
  | some session => do
    let d ← d.setDeleteSessionsAlarm
    cleanUpSession { d with closedSessionList := d.closedSessionList ++ [session] } id session

def deleteSession (d : Dispatcher) (session : SessionId) : Except Abort Dispatcher :=
  match d.sessions session with
  | none => .error .access
  | some _ => .ok { d with
    sessions := Function.update d.sessions session none
    deleted := d.deleted ++ [session] }

def deleteElements (d : Dispatcher) : List SessionId → Except Abort Dispatcher
  | [] => .ok d
  | session :: rest => do
    let d ← d.deleteSession session
    d.deleteElements rest

def deleteSessions (d : Dispatcher) : Except Abort Dispatcher := do
  let d ← d.deleteElements d.closedSessionList
  .ok { d with closedSessionList := [] }

/-- `Fire`, and the delegate of the alarm. -/
def onDeleteSessionsAlarm (d : Dispatcher) : Except Abort Dispatcher :=
  deleteSessions { d with deleteSessionsAlarm := 0 }

def onCanWrite (d : Dispatcher) : Dispatcher :=
  { d with writeBlocked := false, control := .canWriteLoop }

/-- One turn of the loop of `OnCanWrite`, up to the call of the blocked writer. -/
def serveBlockedWriter (d : Dispatcher) : Except Abort Dispatcher :=
  match d.writeBlockedList.entries with
  | [] => .ok { d with control := .idle }
  | (blockedWriter,_) :: _ =>
    if d.writeBlocked then .ok { d with control := .idle }
    else
      let d := { d with writeBlockedList := d.writeBlockedList.popFront }
      match blockedWriter with
      | .timeWaitListManager => .ok { d with control := .timeWaitOnCanWrite }
      | .connection session =>
        match d.sessions session with
        | none => .error .access
        | some _ => .ok { d with control := .connectionOnCanWrite session }

def hasPendingWrites (d : Dispatcher) : Bool := !d.writeBlockedList.entries.isEmpty

/-- One turn of the loop of `Shutdown`, up to the call of `SendConnectionClose`. -/
def closeFirstSession (d : Dispatcher) : Except Abort Dispatcher :=
  match d.sessionMap.entries with
  | [] => do
    let d ← d.deleteSessions
    .ok { d with control := .idle }
  | (_,session) :: _ =>
    match d.sessions session with
    | none => .error .access
    | some _ => .ok { d with control := .sendConnectionClose session }

/-- The code that the dispatcher has called returns. -/
def returns (d : Dispatcher) : Except Abort Dispatcher :=
  match d.control with
  | .processUdpPacket _ => .ok { d with control := .idle }
  | .connectionOnCanWrite _ => .ok { d with control := .canWriteLoop }
  | .sendConnectionClose session =>
    if d.sessionMap.entries.head?.map Prod.snd = some session then .error .dcheck
    else .ok { d with control := .shutdownLoop }
  | _ => .ok d

inductive Event
  | tick (approximateNow : ℤ)
  | setMaxConnections (maxConnections : ℤ)
  | processPacket (serverAddress clientAddress : IPEndPoint) (packet : QuicEncryptedPacket)
    (succeeds : Bool) (status : WriteStatus)
  | onCanWrite
  | serveBlockedWriter
  | timeWaitOnCanWrite (status : WriteStatus)
  | cleanUpOldConnectionIds
  | deleteSessionsAlarm
  | rehash (entries : List (ConnectionId × SessionId))
  | shutdown
  | closeFirstSession
  | returns
  | connectionWrites (s : SessionId) (status : WriteStatus)
  | connectionChanges (s : SessionId) (version : QuicVersion) (closePacket : Option PacketId)
  | sessionOnWriteBlocked (s : SessionId)
  | sessionOnConnectionClosed (s : SessionId)

/-- The entry points are taken one after another; in between, and in the code that
the dispatcher calls, any connection may write or call back. The order of a hash map
is unspecified. -/
def admits (d : Dispatcher) : Event → Prop
  | .tick _ => True
  | .setMaxConnections maxConnections => maxConnections < 0 ∨ 1 ≤ maxConnections
  | .processPacket _ _ _ _ _ => d.control = .idle
  | .onCanWrite => d.control = .idle
  | .serveBlockedWriter => d.control = .canWriteLoop
  | .timeWaitOnCanWrite _ => d.control = .timeWaitOnCanWrite
  | .cleanUpOldConnectionIds => d.control = .idle
  | .deleteSessionsAlarm => d.control = .idle ∧ d.deleteSessionsAlarm ≠ 0
  | .rehash entries => d.control = .idle ∧ entries.Perm d.sessionMap.entries
  | .shutdown => d.control = .idle
  | .closeFirstSession => d.control = .shutdownLoop
  | .returns => d.control ≠ .idle ∧ d.control.running = true
  | .connectionWrites _ _ => d.control.running = true
  | .connectionChanges _ _ _ => d.control.running = true
  | .sessionOnWriteBlocked _ => d.control.running = true
  | .sessionOnConnectionClosed _ => d.control.running = true

def withSession (d : Dispatcher) (s : SessionId)
    (f : QuicServerSession → Except Abort Dispatcher) : Except Abort Dispatcher :=
  match d.sessions s with
  | none => .error .access
  | some x => f x

def step (d : Dispatcher) : Event → Except Abort Dispatcher
  | .tick t => .ok { d with approximateNow := t }
  | .setMaxConnections maxConnections => .ok { d with maxConnections := maxConnections }
  | .processPacket serverAddress clientAddress packet succeeds status =>
    d.processPacket serverAddress clientAddress packet succeeds status
  | .onCanWrite => .ok d.onCanWrite
  | .serveBlockedWriter => d.serveBlockedWriter
  | .timeWaitOnCanWrite status => d.timeWaitOnCanWrite status
  | .cleanUpOldConnectionIds => .ok d.cleanUpOldConnectionIds
  | .deleteSessionsAlarm => d.onDeleteSessionsAlarm
  | .rehash entries =>
    if h : entries.Perm d.sessionMap.entries then
      .ok { d with sessionMap := d.sessionMap.reorder entries h }
    else .ok d
  | .shutdown => .ok { d with control := .shutdownLoop }
  | .closeFirstSession => d.closeFirstSession
  | .returns => d.returns
  | .connectionWrites s status => d.withSession s fun _ => d.writePacket status
  | .connectionChanges s version closePacket => d.withSession s fun x =>
    .ok (d.writeSession s { x with version := version, connectionClosePacket := closePacket })
  | .sessionOnWriteBlocked s => d.withSession s fun _ => .ok (d.onWriteBlocked (.connection s))
  | .sessionOnConnectionClosed s => d.withSession s fun x =>
    (d.writeSession s { x with connected := false }).onConnectionClosed x.connectionId

def machine : Machine Dispatcher Event Abort := ⟨admits,step⟩

instance (d : Dispatcher) : (e : Event) → Decidable (d.admits e)
  | .tick _ => inferInstanceAs (Decidable True)
  | .setMaxConnections _ => inferInstanceAs (Decidable (_ < _ ∨ _ ≤ _))
  | .processPacket _ _ _ _ _ => inferInstanceAs (Decidable (_ = _))
  | .onCanWrite => inferInstanceAs (Decidable (_ = _))
  | .serveBlockedWriter => inferInstanceAs (Decidable (_ = _))
  | .timeWaitOnCanWrite _ => inferInstanceAs (Decidable (_ = _))
  | .cleanUpOldConnectionIds => inferInstanceAs (Decidable (_ = _))
  | .deleteSessionsAlarm => inferInstanceAs (Decidable (_ = _ ∧ _ ≠ _))
  | .rehash _ => inferInstanceAs (Decidable (_ = _ ∧ List.Perm _ _))
  | .shutdown => inferInstanceAs (Decidable (_ = _))
  | .closeFirstSession => inferInstanceAs (Decidable (_ = _))
  | .returns => inferInstanceAs (Decidable (_ ≠ _ ∧ _ = _))
  | .connectionWrites _ _ => inferInstanceAs (Decidable (_ = _))
  | .connectionChanges _ _ _ => inferInstanceAs (Decidable (_ = _))
  | .sessionOnWriteBlocked _ => inferInstanceAs (Decidable (_ = _))
  | .sessionOnConnectionClosed _ => inferInstanceAs (Decidable (_ = _))

instance (d : Dispatcher) (e : Event) : Decidable (machine.admits d e) :=
  inferInstanceAs (Decidable (d.admits e))

end Dispatcher
end CmuQuic
