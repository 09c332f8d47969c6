import CmuQuic.DatagramSocket
import CmuQuic.Dispatcher
import CmuQuic.OneDescriptor
import CmuQuic.SocketAccounting

/-! A `QuicClient` with its socket, its sessions and the epoll server that it shares with the
clients before and after it. Sessions and packet writers live on the heap and belong to
`session_` and `writer_`; a session goes on using the writer that it was made with. -/
namespace CmuQuic

structure PacketWriter where
  fd : Fd
  writeBlocked : Bool

/-- A session and its connection, which does not own its writer. -/
structure ClientSession where
  writer : ℕ
  connected : Bool
  encryptionEstablished : Bool

inductive ClientControl
  | outside
  /-- At the head of the loop that reads. -/
  | reads (inEvents : Mask)
  /-- In `OnCanWrite` of the connection, or behind it. -/
  | returns
  deriving DecidableEq

def ClientControl.reading : ClientControl → Bool
  | .reads _ => true
  | _ => false

structure ClientLoop (D : Type) where
  client : QuicClient
  writers : ℕ → Option PacketWriter
  sessions : ℕ → Option ClientSession
  writer : Option ℕ
  session : Option ℕ
  /-- The heap has handed out the addresses below. -/
  heapTop : ℕ
  /-- Inside the loop of `Connect`. -/
  connecting : Bool
  control : ClientControl
  socket : DatagramSocket D
  /-- The datagrams that were handed to a session since the socket was opened. -/
  processed : List D

namespace ClientLoop

variable {D : Type}

def init (self : CB) : ClientLoop D :=
  ⟨.init self .init,fun _ => none,fun _ => none,none,none,0,false,.outside,.added [] false,[]⟩

def fd (s : ClientLoop D) : Fd := s.client.owner.fd
def epoll (s : ClientLoop D) : EpollConfig := s.client.owner.epoll

def setEpoll (s : ClientLoop D) (c : EpollConfig) : ClientLoop D :=
  { s with client := { s.client with owner := { s.client.owner with epoll := c } } }

def log (s : ClientLoop D) (c : SocketCall) : ClientLoop D :=
  { s with client := { s.client with owner := s.client.owner.log c } }

def theSession (s : ClientLoop D) : Option ClientSession := s.session.bind s.sessions

def theWriter (s : ClientLoop D) : Option PacketWriter :=
  s.theSession.bind fun x => s.writers x.writer

def connected (s : ClientLoop D) : Bool := s.theSession.any fun x => x.connected

def writeBlocked (s : ClientLoop D) : Bool := s.theWriter.any fun w => w.writeBlocked

def awaitsHandshake (s : ClientLoop D) : Bool :=
  s.theSession.any fun x => !x.encryptionEstablished && x.connected

def writeSession (s : ClientLoop D) (f : ClientSession → ClientSession) : ClientLoop D :=
  match s.session with
  | none => s
  | some i => { s with sessions := Function.update s.sessions i ((s.sessions i).map f) }

def sendTo (s : ClientLoop D) (v : ℕ) (w : PacketWriter) (status : WriteStatus) : ClientLoop D :=
  let blocked := decide (status = .blocked)
  { s.log (.netdp .sendto w.fd) with
    writers := Function.update s.writers v (some { w with writeBlocked := blocked })
    socket := if w.fd = s.fd then s.socket.wrote false blocked else s.socket }

def writePacket (s : ClientLoop D) (status : WriteStatus) : Except Abort (ClientLoop D) :=
  match s.theSession with
  | none => .error .access
  | some x =>
    match s.writers x.writer with
    | none => .error .access
    | some w =>
      if w.writeBlocked then .error .dcheck else .ok (s.sendTo x.writer w status)

/-- The destructor of a session may look at its writer. -/
def deleteSession (s : ClientLoop D) : Option ℕ → Except Abort (ClientLoop D)
  | none => .ok s
  | some i =>
    match s.sessions i with
    | none => .error .access
    | some x =>
      if (s.writers x.writer).isSome then
        .ok { s with sessions := Function.update s.sessions i none }
      else .error .access

def deleteWriter (s : ClientLoop D) : Option ℕ → Except Abort (ClientLoop D)
  | none => .ok s
  | some w =>
    if (s.writers w).isSome then .ok { s with writers := Function.update s.writers w none }
    else .error .access

def resetSession (s : ClientLoop D) (i : Option ℕ) : Except Abort (ClientLoop D) :=
  { s with session := i }.deleteSession s.session

def resetWriter (s : ClientLoop D) (w : Option ℕ) : Except Abort (ClientLoop D) :=
  { s with writer := w }.deleteWriter s.writer

/-- Nobody uses the socket of an `Initialize` that failed. -/
def initializeClient (s : ClientLoop D) (family : AddressFamily) (u : SetUp) (received : List D)
    (writable : Bool) : Except Abort (ClientLoop D) := do
  let (c,_) ← s.client.initializeClient family u
  .ok { s with client := c, socket := .added received writable, processed := [] }

/-- The new writer and the new session get the next two addresses. -/
def newSession (s : ClientLoop D) : ClientLoop D :=
  { s with
    writers := Function.update s.writers s.heapTop (some ⟨s.fd,false⟩)
    sessions := Function.update s.sessions (s.heapTop+1) (some ⟨s.heapTop,true,false⟩)
    heapTop := s.heapTop+2 }

/-- The writer of the old session outlives it. -/
def adoptWriter (s : ClientLoop D) (w : ℕ) : Except Abort (ClientLoop D) :=
  if s.writer = some w then .ok s else s.resetWriter (some w)

def connect (s : ClientLoop D) : Except Abort (ClientLoop D) := do
  let t ← s.newSession.resetSession (some (s.heapTop+1))
  let t ← t.adoptWriter s.heapTop
  .ok { t with client := t.client.connect, connecting := true }

/-- The last packet of a connection, if it has one to send and is not blocked. -/
def writeClose (s : ClientLoop D) : Option WriteStatus → Except Abort (ClientLoop D)
  | none => .ok s
  | some status => s.writePacket status

def sendConnectionClose (s : ClientLoop D) (status : Option WriteStatus) :
    Except Abort (ClientLoop D) :=
  if s.connected then do
    let s ← s.writeClose status
    .ok (s.writeSession fun x => { x with connected := false })
  else .ok s

def disconnect (s : ClientLoop D) (status : Option WriteStatus) : Except Abort (ClientLoop D) := do
  let s ← s.sendConnectionClose status
  let c ← s.client.disconnect 0
  .ok { s with client := c }

/-- `~QuicClient`, with its members in reverse order of their declaration, and the
construction of the next client. -/
def reconstruct (s : ClientLoop D) (status : Option WriteStatus) : Except Abort (ClientLoop D) := do
  let s ← s.disconnect status
  let s ← s.resetSession none
  let s ← s.resetWriter none
  .ok { s with client := ⟨{ SocketOwner.init s.client.owner.self s.epoll with
    calls := s.client.owner.calls },false⟩ }

def waitForEvents (s : ClientLoop D) (report : Option Mask) : Except Abort (ClientLoop D) := do
  let c ← s.epoll.waitForEvents s.fd report
  .ok { s.setEpoll c with socket := if report.isSome then s.socket.report else s.socket }

def setWritable (s : ClientLoop D) : Except Abort (ClientLoop D) :=
  match s.writer with
  | none => .error .access
  | some w =>
    match s.writers w with
    | none => .error .access
    | some x => .ok { s with
      writers := Function.update s.writers w (some { x with writeBlocked := false }) }

def afterReads (s : ClientLoop D) (inEvents : Mask) : Except Abort (ClientLoop D) :=
  let s := { s with control := .returns }
  if s.connected then if inEvents &&& epollOut ≠ 0 then s.setWritable else .ok s else .ok s

def onEvent (s : ClientLoop D) (fd : Fd) (inEvents : Mask) : Except Abort (ClientLoop D) :=
  if fd = s.fd then
    if inEvents &&& epollIn ≠ 0 then .ok { s with control := .reads inEvents }
    else s.afterReads inEvents
  else .error .dcheck

def nextReady (s : ClientLoop D) : Except Abort (ClientLoop D) := do
  let c ← EpollConfig.machine.step s.epoll .nextReady
  match c.running with
  | none => .ok (s.setEpoll c)
  | some call => (s.setEpoll c).onEvent call.fd call.inEvents

def readAndProcessPacket (s : ClientLoop D) : ClientLoop D :=
  match s.socket.received with
  | [] => s
  | d :: _ => { s.log (.netdp .recvfrom s.fd) with
    socket := s.socket.take
    processed := s.processed ++ [d] }

def leaveLoop (s : ClientLoop D) : Except Abort (ClientLoop D) :=
  match s.control with
  | .reads inEvents => s.afterReads inEvents
  | _ => .ok s

/-- `OnEvent` of the client asks for nothing. -/
def onEventReturns (s : ClientLoop D) : Except Abort (ClientLoop D) := do
  let c ← EpollConfig.machine.step s.epoll (.onEventReturns 0)
  .ok { s.setEpoll c with control := .outside }

inductive Event (D : Type)
  | initializeClient (family : AddressFamily) (u : SetUp) (received : List D) (writable : Bool)
  | connect
  | connectReturns
  | disconnect (status : Option WriteStatus)
  | reconstruct (status : Option WriteStatus)
  | arrives (d : D)
  | becomesWritable
  | fills
  | waitForEvents (report : Option Mask)
  | nextReady
  | readPacket
  /-- The error of `recvfrom` is `NETDP_EAGAIN`, or another one. -/
  | readFails (again : Bool)
  | stopsReading
  | connectionWrites (status : WriteStatus)
  | connectionCloses
  | encryptionEstablished
  | onEventReturns

def idle (s : ClientLoop D) : Prop := s.epoll.control = .idle ∧ s.connecting = false

/-- As the header asks, `Initialize` comes before `Connect`, and only without a socket. A
connection that is not up sends nothing, and a blocked writer is not asked to. -/
def admits (s : ClientLoop D) : Event D → Prop
  | .initializeClient _ _ _ _ => s.idle ∧ s.client.initialized = false ∧ s.fd < 0
  | .connect => s.idle ∧ s.client.initialized = true
  | .connectReturns => s.epoll.control = .idle ∧ s.connecting = true ∧ s.awaitsHandshake = false
  | .disconnect status => s.idle ∧ (status ≠ none → s.writeBlocked = false)
  | .reconstruct status => s.idle ∧ (status ≠ none → s.writeBlocked = false)
  | .arrives _ => True
  | .becomesWritable => s.socket.writable = false
  | .fills => True
  | .waitForEvents report => s.epoll.control = .idle ∧
    (s.connecting = true → s.awaitsHandshake = true) ∧ ∀ mask ∈ report, s.client.initialized = true ∧
      s.socket.Shows (mask &&& epollIn ≠ 0) (mask &&& epollOut ≠ 0)
  | .nextReady => s.epoll.control = .loop
  | .readPacket => s.control.reading = true ∧ s.connected = true ∧ s.socket.received ≠ []
  | .readFails again => s.control.reading = true ∧ s.connected = true ∧
    (again = true → s.socket.received = [])
  | .stopsReading => s.control.reading = true ∧ s.connected = false
  | .connectionWrites _ => s.connected = true ∧ s.writeBlocked = false
  | .connectionCloses => s.connected = true
  | .encryptionEstablished => s.connected = true
  | .onEventReturns => s.control = .returns

def step (s : ClientLoop D) : Event D → Except Abort (ClientLoop D)
  | .initializeClient family u received writable => s.initializeClient family u received writable
  | .connect => s.connect
  | .connectReturns => .ok { s with connecting := false }
  | .disconnect status => s.disconnect status
  | .reconstruct status => s.reconstruct status
  | .arrives d => .ok { s with socket := s.socket.arrive d }
  | .becomesWritable => .ok { s with socket := s.socket.becomeWritable }
  | .fills => .ok { s with socket := s.socket.fill }
  | .waitForEvents report => s.waitForEvents report
  | .nextReady => s.nextReady
  | .readPacket => .ok s.readAndProcessPacket
  | .readFails _ => (s.log (.netdp .recvfrom s.fd)).leaveLoop
  | .stopsReading => s.leaveLoop
  | .connectionWrites status => s.writePacket status
  | .connectionCloses => .ok (s.writeSession fun x => { x with connected := false })
  | .encryptionEstablished =>
    .ok (s.writeSession fun x => { x with encryptionEstablished := true })
  | .onEventReturns => s.onEventReturns

def machine : Machine (ClientLoop D) (Event D) Abort := ⟨admits,step⟩

instance (s : ClientLoop D) : Decidable s.idle := inferInstanceAs (Decidable (_ = _ ∧ _ = _))

instance (s : ClientLoop D) : (e : Event D) → Decidable (s.admits e)
  | .initializeClient _ _ _ _ => inferInstanceAs (Decidable (s.idle ∧ _ = _ ∧ _ < _))
  | .connect => inferInstanceAs (Decidable (s.idle ∧ _ = _))
  | .connectReturns => inferInstanceAs (Decidable (_ = _ ∧ _ = _ ∧ _ = _))
  | .disconnect _ => inferInstanceAs (Decidable (s.idle ∧ (_ → _ = _)))
  | .reconstruct _ => inferInstanceAs (Decidable (s.idle ∧ (_ → _ = _)))
  | .arrives _ => inferInstanceAs (Decidable True)
  | .becomesWritable => inferInstanceAs (Decidable (_ = _))
  | .fills => inferInstanceAs (Decidable True)
  | .waitForEvents none => decidable_of_iff (s.epoll.control = .idle ∧
      (s.connecting = true → s.awaitsHandshake = true)) (by simp [admits])
  | .waitForEvents (some mask) => decidable_of_iff (s.epoll.control = .idle ∧
      (s.connecting = true → s.awaitsHandshake = true) ∧ s.client.initialized = true ∧
        s.socket.Shows (mask &&& epollIn ≠ 0) (mask &&& epollOut ≠ 0)) (by simp [admits])
  | .nextReady => inferInstanceAs (Decidable (_ = _))
  | .readPacket => inferInstanceAs (Decidable (_ = _ ∧ _ = _ ∧ s.socket.received ≠ []))
  | .readFails _ => inferInstanceAs (Decidable (_ = _ ∧ _ = _ ∧ (_ = _ → s.socket.received = [])))
  | .stopsReading => inferInstanceAs (Decidable (_ = _ ∧ _ = _))
  | .connectionWrites _ => inferInstanceAs (Decidable (_ = _ ∧ _ = _))
  | .connectionCloses => inferInstanceAs (Decidable (_ = _))
  | .encryptionEstablished => inferInstanceAs (Decidable (_ = _))
  | .onEventReturns => inferInstanceAs (Decidable (_ = _))

instance (s : ClientLoop D) (e : Event D) : Decidable (machine.admits s e) :=
  inferInstanceAs (Decidable (s.admits e))

def Event.isArrival : Event D → Bool
  | .arrives _ => true
  | _ => false

def Event.isFailure : Event D → Bool
  | .readFails again => !again
  | _ => false

def Event.isConnect : Event D → Bool
  | .connect => true
  | _ => false

/-- A read failed though there was no lack of datagrams, and none has come in since. -/
def Starved (es : List (Event D)) : Prop := Since Event.isFailure Event.isArrival es

def Unanswered (es : List (Event D)) : Prop := Since Event.isConnect Event.isArrival es

end ClientLoop

/-- The descriptor that a call needs to be open. -/
def SocketCall.target : SocketCall → Option Fd
  | .netdp _ fd => some fd
  | .netdpClose fd => some fd
  | _ => none

/-- The descriptor has been obtained once more than released. -/
def IsOpen (calls : List SocketCall) (fd : Fd) : Prop :=
  0 ≤ fd ∧ calls.count (.netdpSocket fd) = calls.count (.netdpClose fd) + 1

/-- No call ever went to a socket that was not open at the time. -/
def OpenOnly (calls : List SocketCall) : Prop :=
  ∀ pre c post fd, calls = pre ++ c :: post → c.target = some fd → IsOpen pre fd

theorem OpenOnly.snoc {calls : List SocketCall} {c : SocketCall} (h : OpenOnly calls)
    (hc : ∀ fd, c.target = some fd → IsOpen calls fd) : OpenOnly (calls ++ [c]) := by
  intro pre c' post fd heq htarget
  rcases List.eq_nil_or_concat post with rfl | ⟨post,last,rfl⟩
  · obtain ⟨rfl,hlast⟩ := List.append_inj' heq rfl
    cases hlast
    exact hc fd htarget
  · rw [List.concat_eq_append,← List.cons_append,← List.append_assoc] at heq
    exact h pre c' post fd (List.append_inj' heq rfl).1 htarget

namespace SocketOwner

variable {o : SocketOwner}

structure Tidy (o : SocketOwner) : Prop where
  openOnly : OpenOnly o.calls
  isOpen : IsOpen o.calls o.fd

theorem Tidy.use (h : Tidy o) (f : NetdpFunction) : Tidy (o.log (.netdp f o.fd)) := by
  refine ⟨h.openOnly.snoc fun fd hfd => ?_,h.isOpen.1,?_⟩
  · cases hfd
    exact h.isOpen
  · simp [log,h.isOpen.2]

theorem Tidy.setOverflow (h : Tidy o) (u : SetUp) : Tidy (o.setOverflow u) := by
  have ho := h.use .setsockopt
  unfold SocketOwner.setOverflow
  split_ifs
  · exact ho
  · exact ⟨ho.openOnly,ho.isOpen⟩

theorem Tidy.setBufferSizes (h : Tidy o) (u : SetUp) : Tidy (o.setBufferSizes u).1 := by
  have ho := h.use .setsockopt
  unfold SocketOwner.setBufferSizes
  split_ifs
  · exact ho
  · exact ho.use .setsockopt

theorem Tidy.setGetAddressInfo (h : Tidy o) (u : SetUp) (family : AddressFamily) :
    Tidy (o.setGetAddressInfo u family).1 := by
  have ho := h.use .setsockopt
  unfold SocketOwner.setGetAddressInfo
  split_ifs
  · exact ho.use .setsockopt
  · exact ho

theorem Accounts.tidy_createSocket (h : Accounts o) (hopen : OpenOnly o.calls) (hfd : o.fd < 0)
    {u : SetUp} (hu : 0 ≤ u.socket) : Tidy (o.createSocket u) := by
  refine ⟨hopen.snoc fun fd hfd => (by cases hfd),hu,?_⟩
  have hnew := (h.createSocket hfd u).balance u.socket hu
  rwa [if_pos (show (o.createSocket u).fd = u.socket from rfl)] at hnew

theorem Accounts.isOpen (h : Accounts o) (hfd : 0 ≤ o.fd) : IsOpen o.calls o.fd :=
  ⟨hfd,by simpa using h.balance o.fd hfd⟩

end SocketOwner

namespace QuicClient
open SocketOwner

theorem createUDPSocket_tidy {o : SocketOwner} (h : Accounts o) (hopen : OpenOnly o.calls)
    (hfd : o.fd < 0) (family : AddressFamily) (u : SetUp) :
    OpenOnly (createUDPSocket o family u).1.calls := by
  unfold createUDPSocket
  dsimp only
  split_ifs with hu
  · exact hopen.snoc fun fd hfd => (by cases hfd)
  · have h₁ := (h.tidy_createSocket hopen hfd (not_lt.mp hu)).setOverflow u
    have h₂ := h₁.setBufferSizes u
    generalize ((o.createSocket u).setOverflow u).setBufferSizes u = r at h₂
    obtain ⟨o₁,ok⟩ := r
    cases ok with
    | false => exact h₂.openOnly
    | true =>
      dsimp only at h₂ ⊢
      have h₃ := h₂.setGetAddressInfo u family
      split_ifs
      · exact h₃.openOnly
      · have h₄ : Tidy ((o₁.setGetAddressInfo u family).1.bind u).1 := h₃.use .bind
        generalize (o₁.setGetAddressInfo u family).1.bind u = r at h₄
        obtain ⟨o₂,ok⟩ := r
        cases ok with
        | false => exact h₄.openOnly
        | true => exact (h₄.use .getsockname).openOnly

end QuicClient

namespace ClientLoop

variable {D : Type} {s t : ClientLoop D} {es : List (Event D)} {φ : Posted}

/-- The heap holds what the two smart pointers point to and nothing else, and the writer
that a session uses is the one that `writer_` keeps for it. -/
structure Held (s : ClientLoop D) : Prop where
  writers : ∀ w, (s.writers w).isSome = true ↔ s.writer = some w
  sessions : ∀ i, (s.sessions i).isSome = true ↔ s.session = some i
  uses : ∀ {i x}, s.sessions i = some x → s.writer = some x.writer
  below : ∀ n, s.writer = some n ∨ s.session = some n → n < s.heapTop

theorem Held.frame (h : Held s) {client : QuicClient} {connecting : Bool} {control : ClientControl}
    {socket : DatagramSocket D} {processed : List D} : Held { s with
      client := client, connecting := connecting, control := control, socket := socket,
      processed := processed } :=
  ⟨h.writers,h.sessions,h.uses,h.below⟩

structure Current (s : ClientLoop D) (i : ℕ) (x : ClientSession) (w : PacketWriter) : Prop where
  session : s.session = some i
  object : s.sessions i = some x
  writer : s.writer = some x.writer
  writerObject : s.writers x.writer = some w

theorem Held.current (h : Held s) {i : ℕ} (hi : s.session = some i) : ∃ x w, Current s i x w := by
  obtain ⟨x,hx⟩ := Option.isSome_iff_exists.mp ((h.sessions i).mpr hi)
  have hwriter := h.uses hx
  obtain ⟨w,hw⟩ := Option.isSome_iff_exists.mp ((h.writers x.writer).mpr hwriter)
  exact ⟨x,w,hi,hx,hwriter,hw⟩

namespace Current

variable {i : ℕ} {x : ClientSession} {w : PacketWriter}

theorem theSession (h : Current s i x w) : s.theSession = some x := by
  simp [ClientLoop.theSession,h.session,h.object]

theorem theWriter (h : Current s i x w) : s.theWriter = some w := by
  simp [ClientLoop.theWriter,h.theSession,h.writerObject]

theorem connected (h : Current s i x w) : s.connected = x.connected := by
  simp [ClientLoop.connected,h.theSession]

theorem writeBlocked (h : Current s i x w) : s.writeBlocked = w.writeBlocked := by
  simp [ClientLoop.writeBlocked,h.theWriter]

theorem writeSession (h : Current s i x w) (f : ClientSession → ClientSession) :
    s.writeSession f = { s with sessions := Function.update s.sessions i (some (f x)) } := by
  simp [ClientLoop.writeSession,h.session,h.object]

end Current

theorem Held.of_connected (h : Held s) (hc : s.connected = true) :
    ∃ i x w, Current s i x w ∧ x.connected = true := by
  cases hi : s.session with
  | none => simp [ClientLoop.connected,ClientLoop.theSession,hi] at hc
  | some i =>
    obtain ⟨x,w,hcur⟩ := h.current hi
    exact ⟨i,x,w,hcur,hcur.connected ▸ hc⟩

theorem isSome_overwrite {α : Type} {f : ℕ → Option α} {n : ℕ} {a : α} (hn : f n = some a) (b : α)
    (m : ℕ) : (Function.update f n (some b) m).isSome = (f m).isSome := by
  by_cases hm : m = n
  · subst hm
    simp [hn]
  · simp [hm]

theorem Held.overwriteWriter (h : Held s) {v : ℕ} {w : PacketWriter} (hw : s.writers v = some w)
    (w' : PacketWriter) : Held { s with writers := Function.update s.writers v (some w') } where
  writers m := by
    show (Function.update s.writers v (some w') m).isSome = true ↔ _
    rw [isSome_overwrite hw]
    exact h.writers m
  sessions := h.sessions
  uses := h.uses
  below := h.below

theorem Held.overwriteSession (h : Held s) {i : ℕ} {x : ClientSession} (hx : s.sessions i = some x)
    {x' : ClientSession} (hsame : x'.writer = x.writer) :
    Held { s with sessions := Function.update s.sessions i (some x') } where
  writers := h.writers
  sessions m := by
    show (Function.update s.sessions i (some x') m).isSome = true ↔ _
    rw [isSome_overwrite hx]
    exact h.sessions m
  uses := by
    intro j y hy
    by_cases hj : j = i
    · subst hj
      obtain rfl : x' = y := by simpa using hy
      rw [hsame]
      exact h.uses hx
    · exact h.uses (i:=j) (by simpa [hj] using hy)
  below := h.below

theorem Current.sendTo {i : ℕ} {x : ClientSession} {w : PacketWriter} (h : Current s i x w)
    (status : WriteStatus) : Current (s.sendTo x.writer w status) i x
      { w with writeBlocked := decide (status = .blocked) } :=
  ⟨h.session,h.object,h.writer,by simp [ClientLoop.sendTo]⟩

theorem update_owned {α : Type} {f : ℕ → Option α} {n : ℕ}
    (h : ∀ m, (f m).isSome = true ↔ some n = some m) : Function.update f n none = fun _ => none := by
  funext m
  by_cases hm : m = n
  · simp [hm]
  · have hnone : ¬ (f m).isSome = true := fun hs => hm (Option.some.inj ((h m).mp hs)).symm
    simpa [hm] using hnone

theorem eq_none_of_unowned {α : Type} {f : ℕ → Option α}
    (h : ∀ m, (f m).isSome = true ↔ none = some m) : f = fun _ => none := by
  funext m
  have hnone : ¬ (f m).isSome = true := fun hs => by cases (h m).mp hs
  simpa using hnone

theorem Held.resetSession (h : Held s) : s.resetSession none = .ok { s with
    session := none
    sessions := fun _ => none } := by
  cases hi : s.session with
  | none => simp [ClientLoop.resetSession,hi,deleteSession,← eq_none_of_unowned (hi ▸ h.sessions)]
  | some i =>
    obtain ⟨x,w,hcur⟩ := h.current hi
    simp [ClientLoop.resetSession,hi,deleteSession,hcur.object,hcur.writerObject,
      update_owned (hi ▸ h.sessions)]

theorem resetWriter_ok (h : ∀ w, (s.writers w).isSome = true ↔ s.writer = some w) :
    s.resetWriter none = .ok { s with writer := none, writers := fun _ => none } := by
  cases hw : s.writer with
  | none => simp [resetWriter,hw,deleteWriter,← eq_none_of_unowned (hw ▸ h)]
  | some w =>
    have hsome := (h w).mpr hw
    simp [resetWriter,hw,deleteWriter,hsome,update_owned (hw ▸ h)]

theorem Held.newSession (h : Held s) : s.newSession.resetSession (some (s.heapTop+1)) =
    .ok { s.newSession with
      sessions := Function.update (fun _ => none) (s.heapTop+1) (some ⟨s.heapTop,true,false⟩)
      session := some (s.heapTop+1) } := by
  cases hi : s.session with
  | none =>
    simp [ClientLoop.resetSession,ClientLoop.newSession,hi,deleteSession,
      eq_none_of_unowned (hi ▸ h.sessions)]
  | some i =>
    obtain ⟨x,w,hcur⟩ := h.current hi
    have hlt : i < s.heapTop := h.below i (Or.inr hi)
    have hw : x.writer < s.heapTop := h.below _ (Or.inl hcur.writer)
    have hdrop := update_owned (hi ▸ h.sessions)
    simp only [ClientLoop.resetSession,ClientLoop.newSession,hi,deleteSession]
    rw [Function.update_of_ne (by omega),hcur.object]
    simp only
    rw [Function.update_of_ne (by omega),hcur.writerObject,Function.update_comm (by omega),hdrop]
    rfl

theorem Held.adoptWriter (h : Held s) (session : Option ℕ) (sessions : ℕ → Option ClientSession) :
    { s.newSession with sessions := sessions, session := session }.adoptWriter s.heapTop =
      .ok { s.newSession with
        writers := Function.update (fun _ => none) s.heapTop (some ⟨s.fd,false⟩)
        sessions := sessions
        writer := some s.heapTop
        session := session } := by
  have hne : s.writer ≠ some s.heapTop := fun he => (h.below _ (Or.inl he)).false
  cases hw : s.writer with
  | none =>
    simp [ClientLoop.adoptWriter,resetWriter,ClientLoop.newSession,hw,deleteWriter,
      eq_none_of_unowned (hw ▸ h.writers)]
  | some w =>
    have hlt : w < s.heapTop := h.below w (Or.inl hw)
    have hsome := (h.writers w).mpr hw
    have hdrop := update_owned (hw ▸ h.writers)
    rw [hw] at hne
    simp only [ClientLoop.adoptWriter,resetWriter,ClientLoop.newSession,hw,hne,if_false,deleteWriter]
    rw [Function.update_of_ne (by omega),if_pos hsome,Function.update_comm (by omega),hdrop]

theorem Held.connect (h : Held s) : s.connect = .ok { s with
    client := s.client.connect
    writers := Function.update (fun _ => none) s.heapTop (some ⟨s.fd,false⟩)
    sessions := Function.update (fun _ => none) (s.heapTop+1) (some ⟨s.heapTop,true,false⟩)
    writer := some s.heapTop
    session := some (s.heapTop+1)
    heapTop := s.heapTop+2
    connecting := true } := by
  simp only [ClientLoop.connect,h.newSession,except_ok_bind,h.adoptWriter]
  rfl

end ClientLoop

def Posted.Still : Posted → Prop
  | .idle slot => slot = none
  | .done slot => slot = none
  | _ => True

/-- The events that the running `OnEvent` has still to look at. -/
def ClientControl.inEvents : ClientControl → Mask
  | .reads inEvents => inEvents
  | _ => 0

theorem ClientControl.reading_iff {c : ClientControl} :
    c.reading = true ↔ ∃ inEvents, c = .reads inEvents := by
  cases c <;> simp [reading]

namespace ClientLoop
open EpollConfig (Posts Vacant)

variable {D : Type} {s t : ClientLoop D} {es : List (Event D)} {φ : Posted}

/-- The epoll server knows the socket of a client that is initialized, and else none. -/
def Watched (s : ClientLoop D) (φ : Posted) : Prop :=
  (s.client.initialized = true ∧ 0 ≤ s.fd ∧ ∃ n, Posts ⟨s.fd,n⟩ s.client.owner.self s.epoll φ) ∨
    (s.client.initialized = false ∧ φ = .idle none ∧ ∃ n, Vacant n s.epoll)

/-- Whoever is waiting is going to be told, and nobody uses what is gone. -/
structure Served (es : List (Event D)) (s : ClientLoop D) (φ : Posted) : Prop where
  watched : Watched s φ
  still : φ.Still
  inside : φ = .called ↔ s.control ≠ .outside
  held : Held s
  attached : s.connected = true → s.client.initialized = true ∧
    ∀ w, s.theWriter = some w → w.fd = s.fd
  accounts : s.client.owner.Accounts
  openOnly : OpenOnly s.client.owner.calls
  order : s.processed ++ s.socket.received = s.socket.arrived
  input : s.socket.InputNoted (φ.events &&& epollIn ≠ 0 ∨ s.control.reading = true ∨
    s.connected = false ∨ Starved es ∨ Unanswered es)
  output : s.socket.OutputNoted (s.connected && s.writeBlocked)
    (φ.events &&& epollOut ≠ 0 ∨ s.control.inEvents &&& epollOut ≠ 0)

theorem Watched.idle (h : Watched s φ) (hidle : s.epoll.control = .idle) :
    ∃ slot, φ = .idle slot := by
  rcases h with ⟨_,_,n,hposts⟩ | ⟨_,rfl,_⟩
  · have hcontrol := hposts.control
    rw [hidle] at hcontrol
    cases φ with
    | idle slot => exact ⟨slot,rfl⟩
    | queued a f => cases hcontrol
    | called => cases hcontrol
    | done slot => cases hcontrol
  · exact ⟨none,rfl⟩

theorem Watched.busy (h : Watched s φ) (hbusy : s.epoll.control ≠ .idle) :
    s.client.initialized = true ∧ 0 ≤ s.fd ∧
      ∃ n, Posts ⟨s.fd,n⟩ s.client.owner.self s.epoll φ := by
  rcases h with hposts | ⟨_,_,n,hvacant⟩
  · exact hposts
  · exact absurd hvacant.control hbusy

theorem Served.idle (h : Served es s φ) (hidle : s.epoll.control = .idle) :
    φ = .idle none ∧ s.control = .outside := by
  obtain ⟨slot,rfl⟩ := h.watched.idle hidle
  obtain rfl : slot = none := h.still
  refine ⟨rfl,?_⟩
  by_contra hne
  cases h.inside.mpr hne

theorem Served.snoc (h : Served es s φ) {e : Event D} (he : e.isArrival = false) :
    Served (es ++ [e]) s φ := by
  refine ⟨h.watched,h.still,h.inside,h.held,h.attached,h.accounts,h.openOnly,h.order,
    h.input.mono ?_,h.output⟩
  exact Or.imp_right (Or.imp_right (Or.imp_right (Or.imp (fun hs => Since.snoc hs he)
    fun hu => Since.snoc hu he)))

theorem Served.tidy (h : Served es s φ) (hc : s.connected = true) : s.client.owner.Tidy := by
  have hinit := (h.attached hc).1
  rcases h.watched with ⟨_,hfd,_⟩ | ⟨hno,_⟩
  · exact ⟨h.openOnly,h.accounts.isOpen hfd⟩
  · rw [hinit] at hno
    cases hno

theorem accounts_withEpoll {o : SocketOwner} (h : o.Accounts) {c : EpollConfig} (hc : c.Sound) :
    SocketOwner.Accounts { o with epoll := c } := ⟨h.negative,h.balance,hc⟩

theorem sound_of_posts {p : NodePtr} {cb : CB} {c : EpollConfig} (h : Posts p cb c φ) : c.Sound :=
  let ⟨a,ha,_⟩ := h; ⟨a,ha⟩

theorem Served.waitForEvents (h : Served es s φ) {report : Option Mask}
    (hidle : s.epoll.control = .idle) (hshow : ∀ mask ∈ report, s.client.initialized = true ∧
      s.socket.Shows (mask &&& epollIn ≠ 0) (mask &&& epollOut ≠ 0)) :
    ∃ t φ', s.waitForEvents report = .ok t ∧ Served es t φ' := by
  obtain ⟨rfl,hout⟩ := h.idle hidle
  rcases h.watched with ⟨hinit,hfd,n,hposts⟩ | ⟨hno,_,n,hvacant⟩
  · obtain ⟨c,hc,hposts'⟩ := hposts.waitForEvents report
    refine ⟨{ s.setEpoll c with socket := if report.isSome then s.socket.report else s.socket },
      Posted.roundStart report none,by simp only [ClientLoop.waitForEvents,hc,except_ok_bind],
      Or.inl ⟨hinit,hfd,n,hposts'⟩,?_,?_,h.held.frame,
      h.attached,accounts_withEpoll h.accounts (sound_of_posts hposts'),h.openOnly,?_,?_,?_⟩
    · cases report <;> simp [Posted.roundStart,Posted.Still]
    · cases report <;> simp [Posted.roundStart,setEpoll,hout]
    · cases report <;> exact h.order
    · cases report with
      | none => exact h.input
      | some mask =>
        refine h.input.report (Or.imp_left fun hev => absurd rfl hev) fun hedge hne => Or.inl ?_
        exact or_and_ne_zero.mpr (Or.inl ((hshow mask rfl).2.1 hedge hne))
    · cases report with
      | none => exact h.output
      | some mask =>
        refine h.output.report (Or.imp_left fun hev => absurd rfl hev) fun hedge hw => Or.inl ?_
        exact or_and_ne_zero.mpr (Or.inl ((hshow mask rfl).2.2 hedge hw))
  · cases report with
    | some mask =>
      rw [(hshow mask rfl).1] at hno
      cases hno
    | none =>
      refine ⟨s,.idle none,?_,h⟩
      simp only [ClientLoop.waitForEvents,hvacant.waitForEvents,except_ok_bind]
      rfl

theorem Served.afterReads {inEvents : Mask} (h : Served es s .called)
    (hcontrol : s.control = .reads inEvents)
    (hin : s.socket.InputNoted (s.connected = false ∨ Starved es ∨ Unanswered es)) :
    ∃ t, s.afterReads inEvents = .ok t ∧ Served es t .called := by
  have hleft : s.socket.OutputNoted (s.connected && s.writeBlocked)
      (inEvents &&& epollOut ≠ 0) := h.output.mono fun hev => by
    rcases hev with hev | hev
    · exact absurd rfl hev
    · rwa [hcontrol] at hev
  have hreturn : s.socket.OutputNoted (s.connected && s.writeBlocked)
      (Posted.called.events &&& epollOut ≠ 0 ∨ (0 : Mask) &&& epollOut ≠ 0) →
      Served es { s with control := .returns } .called := fun hout =>
    ⟨h.watched,h.still,by simp,h.held.frame,h.attached,h.accounts,h.openOnly,h.order,
      hin.mono fun hev => Or.inr (Or.inr hev),hout⟩
  have hsame : ({ s with control := .returns } : ClientLoop D).connected = s.connected := rfl
  simp only [ClientLoop.afterReads,hsame]
  cases hc : s.connected with
  | false => exact ⟨_,rfl,hreturn (by rw [hc]; exact .of_free)⟩
  | true =>
    by_cases hwrite : inEvents &&& epollOut = 0
    · exact ⟨_,by simp [hwrite],hreturn (hleft.mono fun hev => absurd hwrite hev)⟩
    · obtain ⟨i,x,w,hcur,hx⟩ := h.held.of_connected hc
      have hfree : Current { s with
          control := .returns
          writers := Function.update s.writers x.writer (some { w with writeBlocked := false }) }
          i x { w with writeBlocked := false } :=
        ⟨hcur.session,hcur.object,hcur.writer,by simp⟩
      refine ⟨{ s with
          control := .returns
          writers := Function.update s.writers x.writer (some { w with writeBlocked := false }) },
        by rw [if_pos rfl,if_pos hwrite]; simp [setWritable,hcur.writer,hcur.writerObject],h.watched,h.still,by simp,
        (h.held.overwriteWriter hcur.writerObject _).frame,fun _ => ⟨(h.attached hc).1,fun v hv => ?_⟩,
        h.accounts,h.openOnly,h.order,hin.mono fun hev => Or.inr (Or.inr ?_),?_⟩
      · rw [hfree.theWriter] at hv
        cases hv
        exact (h.attached hc).2 w hcur.theWriter
      · exact hev.imp_left fun hno => by rw [hc] at hno; cases hno
      · rw [hfree.writeBlocked,Bool.and_false]
        exact .of_free

theorem Served.onEvent {asserted fake : Mask} (h : Served es s (.queued asserted fake))
    (hinit : s.client.initialized = true) (hfd : 0 ≤ s.fd) {c : EpollConfig} {n : ℕ}
    (hposts : Posts ⟨s.fd,n⟩ s.client.owner.self c .called) :
    ∃ t, (s.setEpoll c).onEvent s.fd (asserted ||| fake) = .ok t ∧ Served es t .called := by
  have hout : s.control = .outside := by
    by_contra hne
    cases h.inside.mpr hne
  have henter : Served es { s.setEpoll c with control := .reads (asserted ||| fake) } .called := by
    refine ⟨Or.inl ⟨hinit,hfd,n,hposts⟩,trivial,by simp,
      h.held.frame,h.attached,
      accounts_withEpoll h.accounts (sound_of_posts hposts),h.openOnly,h.order,
      h.input.mono fun _ => Or.inr (Or.inl rfl),h.output.mono fun hev => Or.inr ?_⟩
    exact hev.resolve_right (by simp [hout,ClientControl.inEvents])
  unfold ClientLoop.onEvent
  rw [if_pos (show s.fd = (s.setEpoll c).fd from rfl)]
  split_ifs with hin
  · exact ⟨_,rfl,henter⟩
  · refine henter.afterReads rfl (h.input.mono ?_)
    rintro (hev | hev | hev)
    · exact absurd hev hin
    · simp [hout,ClientControl.reading] at hev
    · exact hev

theorem Served.nextReady (h : Served es s φ) (hloop : s.epoll.control = .loop) :
    ∃ t φ', s.nextReady = .ok t ∧ Served es t φ' := by
  obtain ⟨hinit,hfd,n,hposts⟩ := h.watched.busy (by simp [hloop])
  have hcontrol := hposts.control
  rw [hloop] at hcontrol
  cases φ with
  | idle slot => cases hcontrol
  | called => cases hcontrol
  | queued a f =>
    obtain ⟨c,hc,hposts',htrace⟩ := hposts.nextReady_queued
    obtain ⟨t,ht,hserved⟩ := h.onEvent hinit hfd hposts'
    refine ⟨t,_,?_,hserved⟩
    simp only [ClientLoop.nextReady,hc,except_ok_bind,
      EpollConfig.running_called hposts'.control htrace]
    exact ht
  | done slot =>
    obtain ⟨c,hc,hposts'⟩ := hposts.nextReady_done
    have hout : s.control = .outside := by
      by_contra hne
      cases h.inside.mpr hne
    refine ⟨s.setEpoll c,.idle slot,?_,Or.inl ⟨hinit,hfd,n,hposts'⟩,h.still,by simp [setEpoll,hout],
      h.held.frame,h.attached,
      accounts_withEpoll h.accounts (sound_of_posts hposts'),h.openOnly,h.order,h.input,h.output⟩
    simp only [ClientLoop.nextReady,hc,except_ok_bind,EpollConfig.running_idle hposts'.control]

theorem Served.onEventReturns (h : Served es s φ) (hcontrol : s.control = .returns) :
    ∃ t φ', s.onEventReturns = .ok t ∧ Served es t φ' := by
  obtain rfl : φ = .called := h.inside.mpr (by simp [hcontrol])
  have hbusy : s.epoll.control ≠ .idle := fun hidle => by cases (h.idle hidle).1
  obtain ⟨hinit,hfd,n,hposts⟩ := h.watched.busy hbusy
  obtain ⟨c,hc,hposts'⟩ := hposts.onEventReturns 0
  refine ⟨{ s.setEpoll c with control := .outside },.done none,
    by simp only [ClientLoop.onEventReturns,hc,except_ok_bind],Or.inl ⟨hinit,hfd,n,hposts'⟩,rfl,by simp,
    h.held.frame,h.attached,
    accounts_withEpoll h.accounts (sound_of_posts hposts'),h.openOnly,h.order,h.input.mono ?_,
    h.output.mono ?_⟩
  · rintro (hev | hev | hev)
    · exact absurd rfl hev
    · simp [hcontrol,ClientControl.reading] at hev
    · exact Or.inr (Or.inr hev)
  · rintro (hev | hev)
    · exact absurd rfl hev
    · simp [hcontrol,ClientControl.inEvents] at hev

theorem Served.use (h : Served es s φ) (hc : s.connected = true) (f : NetdpFunction) :
    Served es (s.log (.netdp f s.fd)) φ :=
  ⟨h.watched,h.still,h.inside,h.held.frame,h.attached,
    h.accounts.kept (SocketOwner.kept_log _ _ _),((h.tidy hc).use f).openOnly,h.order,h.input,
    h.output⟩

theorem Served.read (h : Served es s φ) (hc : s.connected = true) :
    Served es s.readAndProcessPacket φ := by
  unfold readAndProcessPacket
  split
  · exact h
  · rename_i d rest hreceived
    have hu := h.use hc .recvfrom
    refine ⟨hu.watched,hu.still,hu.inside,
      h.held.frame,hu.attached,hu.accounts,
      hu.openOnly,?_,hu.input.take,hu.output⟩
    show (s.processed ++ [d]) ++ s.socket.received.tail = s.socket.arrived
    rw [← h.order,hreceived]
    simp

theorem Served.leaveLoop (h : Served es s φ) (hreading : s.control.reading = true)
    (hin : s.socket.InputNoted (s.connected = false ∨ Starved es ∨ Unanswered es)) :
    ∃ t φ', s.leaveLoop = .ok t ∧ Served es t φ' := by
  obtain ⟨inEvents,hcontrol⟩ := ClientControl.reading_iff.mp hreading
  obtain rfl : φ = .called := h.inside.mpr (by simp [hcontrol])
  obtain ⟨t,ht,hserved⟩ := h.afterReads hcontrol hin
  exact ⟨t,_,by simp only [ClientLoop.leaveLoop,hcontrol,ht],hserved⟩

theorem Served.writePacket (h : Served es s φ) (hc : s.connected = true)
    (hfree : s.writeBlocked = false) (status : WriteStatus) : ∃ t, s.writePacket status = .ok t ∧
      Served es t φ ∧ t.connected = true ∧ t.epoll = s.epoll := by
  obtain ⟨i,x,w,hcur,hx⟩ := h.held.of_connected hc
  have hfd : w.fd = s.fd := (h.attached hc).2 w hcur.theWriter
  have hu := h.use hc .sendto
  have hcur' := hcur.sendTo status
  have hsocket : (s.sendTo x.writer w status).socket =
      s.socket.wrote false (decide (status = .blocked)) := if_pos hfd
  have howner : (s.sendTo x.writer w status).client = (s.log (.netdp .sendto s.fd)).client := by
    rw [← hfd]
    rfl
  refine ⟨s.sendTo x.writer w status,?_,?_,hcur'.connected.trans hx,rfl⟩
  · simp [ClientLoop.writePacket,hcur.theSession,hcur.writerObject,← hcur.writeBlocked,hfree]
  · refine ⟨h.watched,h.still,h.inside,(h.held.overwriteWriter hcur.writerObject _).frame,
      fun _ => ⟨(h.attached hc).1,fun v hv => ?_⟩,?_,?_,?_,?_,?_⟩
    · rw [hcur'.theWriter] at hv
      cases hv
      exact hfd
    · rw [howner]
      exact hu.accounts
    · rw [howner]
      exact hu.openOnly
    · rw [hsocket,DatagramSocket.received_wrote,DatagramSocket.arrived_wrote]
      exact h.order
    · rw [hsocket,hcur'.connected,← hcur.connected]
      exact h.input.wrote
    · rw [hsocket,hcur'.connected,hx,hcur'.writeBlocked,Bool.true_and]
      exact DatagramSocket.OutputNoted.of_free.wrote

theorem Served.close (h : Served es s φ) :
    Served es (s.writeSession fun x => { x with connected := false }) φ ∧
      (s.writeSession fun x => { x with connected := false }).connected = false ∧
      (s.writeSession fun x => { x with connected := false }).epoll = s.epoll := by
  cases hi : s.session with
  | none =>
    have hsame : (s.writeSession fun x => { x with connected := false }) = s := by
      simp [writeSession,hi]
    rw [hsame]
    exact ⟨h,by simp [ClientLoop.connected,theSession,hi],rfl⟩
  | some i =>
    obtain ⟨x,w,hcur⟩ := h.held.current hi
    rw [hcur.writeSession]
    have hcur' : Current { s with
        sessions := Function.update s.sessions i (some { x with connected := false }) } i
        { x with connected := false } w := ⟨hcur.session,by simp,hcur.writer,hcur.writerObject⟩
    have hdown := hcur'.connected
    refine ⟨⟨h.watched,h.still,h.inside,h.held.overwriteSession hcur.object rfl,fun hc => ?_,
      h.accounts,h.openOnly,h.order,h.input.mono fun _ => Or.inr (Or.inr (Or.inl hdown)),?_⟩,
      hdown,rfl⟩
    · rw [hdown] at hc
      cases hc
    · rw [hdown]
      exact .of_free

theorem Served.established (h : Served es s φ) (hc : s.connected = true) :
    Served es (s.writeSession fun x => { x with encryptionEstablished := true }) φ := by
  obtain ⟨i,x,w,hcur,hx⟩ := h.held.of_connected hc
  rw [hcur.writeSession]
  have hcur' : Current { s with
      sessions := Function.update s.sessions i (some { x with encryptionEstablished := true }) } i
      { x with encryptionEstablished := true } w :=
    ⟨hcur.session,by simp,hcur.writer,hcur.writerObject⟩
  have hup := hcur'.connected.trans hcur.connected.symm
  have hblocked := hcur'.writeBlocked.trans hcur.writeBlocked.symm
  refine ⟨h.watched,h.still,h.inside,h.held.overwriteSession hcur.object rfl,
    fun _ => ⟨(h.attached hc).1,fun v hv => ?_⟩,h.accounts,h.openOnly,h.order,?_,?_⟩
  · rw [hcur'.theWriter] at hv
    exact (h.attached hc).2 v (hcur.theWriter.trans hv)
  · rw [hup]
    exact h.input
  · rw [hup,hblocked]
    exact h.output

theorem Served.down (h : Served es s φ) (hno : s.client.initialized = false) :
    s.connected = false := by
  by_contra hc
  have hinit := (h.attached (by simpa using hc)).1
  rw [hno] at hinit
  cases hinit

theorem createUDPSocket_socket {o : SocketOwner} {family : AddressFamily} {u : SetUp}
    (h : (QuicClient.createUDPSocket o family u).2 = true) : 0 ≤ u.socket := by
  by_contra hu
  simp [QuicClient.createUDPSocket,not_le.mp hu] at h

theorem Served.initializeClient (h : Served es s φ) (hidle : s.epoll.control = .idle)
    (hno : s.client.initialized = false) (hfd : s.fd < 0) (family : AddressFamily) (u : SetUp)
    (received : List D) (writable : Bool) :
    ∃ t, s.initializeClient family u received writable = .ok t ∧ Served es t (.idle none) := by
  have hdown := h.down hno
  obtain ⟨rfl,hout⟩ := h.idle hidle
  obtain ⟨n,hvacant⟩ : ∃ n, Vacant n s.epoll := by
    rcases h.watched with ⟨hinit,_⟩ | ⟨_,_,hvacant⟩
    · rw [hno] at hinit
      cases hinit
    · exact hvacant
  have hserved : ∀ {c : QuicClient}, c.owner.Accounts → OpenOnly c.owner.calls →
      Watched { s with client := c } (.idle none) → Served es { s with
        client := c
        socket := .added received writable
        processed := [] } (.idle none) := by
    intro c hacc hopen hwatched
    refine ⟨hwatched,rfl,by simp [hout],h.held.frame,fun hc => ?_,hacc,hopen,rfl,.added _ _,?_⟩
    · exact absurd (hdown.symm.trans hc) Bool.false_ne_true
    · rw [show ClientLoop.connected { s with
        client := c
        socket := .added received writable
        processed := [] } = false from hdown]
      exact .of_free
  have hkept := QuicClient.createUDPSocket_kept s.client.owner family u
  have htidy := QuicClient.createUDPSocket_tidy h.accounts h.openOnly hfd family u
  have haccounts := (h.accounts.createSocket hfd u).kept hkept
  have hsocket : (QuicClient.createUDPSocket s.client.owner family u).2 = true → 0 ≤ u.socket :=
    createUDPSocket_socket
  simp only [ClientLoop.initializeClient,QuicClient.initializeClient,hno,Bool.false_eq_true,if_false]
  generalize QuicClient.createUDPSocket s.client.owner family u = r at hkept htidy haccounts hsocket ⊢
  obtain ⟨o,ok⟩ := r
  have hep : o.epoll = s.epoll := hkept.2.1
  cases ok with
  | false =>
    have hvacant : Vacant n o.epoll := hep ▸ hvacant
    exact ⟨_,rfl,hserved haccounts htidy (Or.inr ⟨rfl,rfl,n,hvacant⟩)⟩
  | true =>
    have hopen : 0 ≤ o.fd := by
      rw [show o.fd = u.socket from hkept.1]
      exact hsocket rfl
    obtain ⟨c,hc,hposts⟩ := hvacant.register o.fd o.self kEpollFlags
    have hop : o.epollOp (.registerFD o.fd o.self kEpollFlags) = .ok { o with epoll := c } := by
      simp only [SocketOwner.epollOp,hep,hc,except_ok_bind]
    refine ⟨_,by simp only [hop,except_ok_bind],hserved (c:=⟨{ o with epoll := c },true⟩)
      (accounts_withEpoll haccounts (sound_of_posts hposts)) htidy (Or.inl ⟨rfl,hopen,n,hposts⟩)⟩

theorem Served.connect (h : Served es s φ) (hinit : s.client.initialized = true) :
    ∃ t, s.connect = .ok t ∧ Served (es ++ [.connect]) t φ := by
  refine ⟨_,h.held.connect,?_⟩
  have hcur : Current { s with
      client := s.client.connect
      writers := Function.update (fun _ => none) s.heapTop (some ⟨s.fd,false⟩)
      sessions := Function.update (fun _ => none) (s.heapTop+1) (some ⟨s.heapTop,true,false⟩)
      writer := some s.heapTop
      session := some (s.heapTop+1)
      heapTop := s.heapTop+2
      connecting := true } (s.heapTop+1) ⟨s.heapTop,true,false⟩ ⟨s.fd,false⟩ :=
    ⟨rfl,by simp,rfl,by simp⟩
  refine ⟨h.watched,h.still,h.inside,?_,fun _ => ⟨hinit,fun w hw => ?_⟩,h.accounts.writer _,
    h.openOnly,h.order,h.input.mono fun _ => ?_,?_⟩
  · refine ⟨fun w => ?_,fun i => ?_,fun {i x} hx => ?_,fun n hn => ?_⟩
    · by_cases hw : w = s.heapTop
      · simp [hw]
      · simp [hw,Ne.symm hw]
    · by_cases hi : i = s.heapTop+1
      · simp [hi]
      · simp [hi,Ne.symm hi]
    · by_cases hi : i = s.heapTop+1
      · subst hi
        obtain rfl : ⟨s.heapTop,true,false⟩ = x := by simpa using hx
        rfl
      · simp [hi] at hx
    · show n < s.heapTop+2
      rcases hn with hn | hn <;> cases hn <;> omega
  · rw [hcur.theWriter] at hw
    cases hw
    rfl
  · exact Or.inr (Or.inr (Or.inr (Or.inr (Since.now es rfl))))
  · rw [hcur.writeBlocked,Bool.and_false]
    exact .of_free

theorem Served.sendConnectionClose (h : Served es s φ) {status : Option WriteStatus}
    (hfree : status ≠ none → s.writeBlocked = false) : ∃ t, s.sendConnectionClose status = .ok t ∧
      Served es t φ ∧ t.connected = false ∧ t.epoll = s.epoll := by
  cases hc : s.connected with
  | false => exact ⟨s,by simp [ClientLoop.sendConnectionClose,hc],h,hc,rfl⟩
  | true =>
    obtain ⟨u,hu,hserved,hep⟩ : ∃ u, s.writeClose status = .ok u ∧ Served es u φ ∧
        u.epoll = s.epoll := by
      cases status with
      | none => exact ⟨s,rfl,h,rfl⟩
      | some status =>
        obtain ⟨u,hu,hserved,_,hep⟩ := h.writePacket hc (hfree (by simp)) status
        exact ⟨u,hu,hserved,hep⟩
    obtain ⟨hclosed,hdown,hep'⟩ := hserved.close
    exact ⟨_,by simp only [ClientLoop.sendConnectionClose,hc,if_true,hu,except_ok_bind],hclosed,hdown,
      hep'.trans hep⟩

theorem writePackets_zero (o : SocketOwner) : o.writePackets 0 = o := by
  unfold SocketOwner.writePackets
  split <;> simp

/-- A client that is disconnected has no connection and no socket, and the epoll server has
forgotten it. -/
theorem Served.disconnect (h : Served es s φ) (hidle : s.epoll.control = .idle)
    {status : Option WriteStatus} (hfree : status ≠ none → s.writeBlocked = false) :
    ∃ t, s.disconnect status = .ok t ∧ Served es t (.idle none) ∧ t.connected = false ∧ t.fd < 0 ∧
      t.client.initialized = false := by
  obtain ⟨u,hu,hserved,hdown,hep⟩ := h.sendConnectionClose hfree
  obtain ⟨rfl,hout⟩ := hserved.idle (hep ▸ hidle)
  have hidle : u.epoll.control = .idle := hep ▸ hidle
  have haccounts : ∀ {c : QuicClient}, u.client.disconnect 0 = .ok c → c.owner.Accounts :=
    fun hc => (QuicClient.disconnect_accounts hserved.accounts hidle hc).1
  have hgone : ∀ {c : QuicClient}, u.client.disconnect 0 = .ok c → c.initialized = false →
      OpenOnly c.owner.calls → (∃ n, Vacant n c.owner.epoll) →
      Served es { u with client := c } (.idle none) := by
    intro c hc hno hopen hvacant
    refine ⟨Or.inr ⟨hno,rfl,hvacant⟩,rfl,by simp [hout],hserved.held.frame,fun hup => ?_,
      haccounts hc,hopen,hserved.order,fun hne => Or.inr (Or.inr (Or.inr (Or.inl hdown))),?_⟩
    · exact absurd (hdown.symm.trans hup) Bool.false_ne_true
    · rw [show ClientLoop.connected { u with client := c } = false from hdown]
      exact .of_free
  simp only [ClientLoop.disconnect,hu,except_ok_bind]
  by_cases hfd : u.fd > -1
  · obtain ⟨c,hc,hvacant⟩ : ∃ c, EpollConfig.machine.step u.epoll (.op (.unregisterFD u.fd)) = .ok c ∧
        ∃ n, Vacant n c := by
      rcases hserved.watched with ⟨_,_,n,hposts⟩ | ⟨_,_,n,hvacant⟩
      · obtain ⟨c,m,hc,hvacant⟩ := hposts.unregister
        exact ⟨c,hc,m,hvacant⟩
      · obtain ⟨c,hc,hvacant⟩ := hvacant.unregister u.fd
        exact ⟨c,hc,n,hvacant⟩
    have hop : u.client.owner.epollOp (.unregisterFD u.fd) =
        .ok { u.client.owner with epoll := c } := by
      have hc : EpollConfig.machine.step u.client.owner.epoll (.op (.unregisterFD u.fd)) = .ok c := hc
      simp only [SocketOwner.epollOp,hc,except_ok_bind]
    have hdis : u.client.disconnect 0 = .ok ⟨{ SocketOwner.log { u.client.owner with epoll := c }
        (.netdpClose u.fd) with fd := -1 },false⟩ := by
      have hfd : u.client.owner.fd > -1 := hfd
      have hop : u.client.owner.epollOp (.unregisterFD u.client.owner.fd) =
        .ok { u.client.owner with epoll := c } := hop
      simp only [QuicClient.disconnect,writePackets_zero,hfd,if_true,hop,except_ok_bind]
      rfl
    rw [hdis]
    refine ⟨_,rfl,hgone hdis rfl (hserved.openOnly.snoc fun fd hfd' => ?_) hvacant,hdown,
      show (-1 : Fd) < 0 by decide,rfl⟩
    cases hfd'
    exact hserved.accounts.isOpen (Int.lt_iff_add_one_le.mp hfd)
  · have hdis : u.client.disconnect 0 = .ok ⟨u.client.owner,false⟩ := by
      have hfd : ¬ u.client.owner.fd > -1 := hfd
      simp only [QuicClient.disconnect,writePackets_zero,hfd,if_false]
    rw [hdis]
    refine ⟨_,rfl,hgone hdis rfl hserved.openOnly ?_,hdown,Int.lt_add_one_iff.mpr (not_lt.mp hfd),rfl⟩
    rcases hserved.watched with ⟨_,hfd',_⟩ | ⟨_,_,hvacant⟩
    · exact absurd (lt_of_lt_of_le (by decide) hfd') hfd
    · exact hvacant

theorem Served.reconstruct (h : Served es s φ) (hidle : s.epoll.control = .idle)
    {status : Option WriteStatus} (hfree : status ≠ none → s.writeBlocked = false) :
    ∃ t, s.reconstruct status = .ok t ∧ Served es t (.idle none) := by
  obtain ⟨u,hu,hserved,hdown,hfd,hno⟩ := h.disconnect hidle hfree
  have hvacant : ∃ n, Vacant n u.epoll := by
    rcases hserved.watched with ⟨hinit,_⟩ | ⟨_,_,hvacant⟩
    · rw [hno] at hinit
      cases hinit
    · exact hvacant
  obtain ⟨n,hv⟩ := hvacant
  have hout := (hserved.idle hv.control).2
  have hwriter := resetWriter_ok (s:={ u with session := none, sessions := fun _ => none })
    hserved.held.writers
  simp only [ClientLoop.reconstruct,hu,except_ok_bind,hserved.held.resetSession,hwriter]
  refine ⟨_,rfl,Or.inr ⟨rfl,rfl,n,hv⟩,rfl,by simp [hout],⟨by simp,by simp,(fun hx => by cases hx),
    by simp⟩,(fun hc => by cases hc),⟨hserved.accounts.negative,fun fd h₀ => ?_,
    hserved.accounts.sound⟩,hserved.openOnly,hserved.order,
    fun _ => Or.inr (Or.inr (Or.inr (Or.inl rfl))),.of_free⟩
  have hold := hserved.accounts.balance fd h₀
  have hne : u.client.owner.fd ≠ fd := (lt_of_lt_of_le hfd h₀).ne
  rw [if_neg hne] at hold
  rw [if_neg (show SocketOwner.fd _ ≠ fd from SocketOwner.closed_ne h₀)]
  exact hold

theorem Served.step (h : Served es s φ) {e : Event D} (he : s.admits e) :
    ∃ t φ', s.step e = .ok t ∧ Served (es ++ [e]) t φ' := by
  cases e with
  | initializeClient family u received writable =>
    obtain ⟨⟨hidle,_⟩,hno,hfd⟩ := he
    obtain ⟨t,ht,hserved⟩ := h.initializeClient hidle hno hfd family u received writable
    exact ⟨t,_,ht,hserved.snoc rfl⟩
  | connect =>
    obtain ⟨t,ht,hserved⟩ := h.connect he.2
    exact ⟨t,φ,ht,hserved⟩
  | connectReturns =>
    have h := h.snoc (e:=.connectReturns) rfl
    exact ⟨_,φ,rfl,h.watched,h.still,h.inside,h.held.frame,h.attached,h.accounts,h.openOnly,h.order,
      h.input,h.output⟩
  | disconnect status =>
    obtain ⟨t,ht,hserved,_⟩ := h.disconnect he.1.1 he.2
    exact ⟨t,_,ht,hserved.snoc rfl⟩
  | reconstruct status =>
    obtain ⟨t,ht,hserved⟩ := h.reconstruct he.1.1 he.2
    exact ⟨t,_,ht,hserved.snoc rfl⟩
  | arrives d =>
    refine ⟨_,φ,rfl,h.watched,h.still,h.inside,h.held.frame,h.attached,h.accounts,h.openOnly,?_,
      .arrive s.socket d,h.output⟩
    show s.processed ++ (s.socket.received ++ [d]) = s.socket.arrived ++ [d]
    rw [← h.order,List.append_assoc]
  | becomesWritable =>
    have h := h.snoc (e:=.becomesWritable) rfl
    exact ⟨_,φ,rfl,h.watched,h.still,h.inside,h.held.frame,h.attached,h.accounts,h.openOnly,h.order,
      h.input,.becomeWritable _ _⟩
  | fills =>
    have h := h.snoc (e:=.fills) rfl
    exact ⟨_,φ,rfl,h.watched,h.still,h.inside,h.held.frame,h.attached,h.accounts,h.openOnly,h.order,
      h.input,.fill _ _⟩
  | waitForEvents report => exact (h.snoc rfl).waitForEvents he.1 he.2.2
  | nextReady => exact (h.snoc rfl).nextReady he
  | readPacket => exact ⟨_,φ,rfl,(h.snoc rfl).read he.2.1⟩
  | readFails again =>
    obtain ⟨hreading,hc,hagain⟩ := he
    refine ((h.snoc rfl).use hc .recvfrom).leaveLoop hreading ?_
    cases again with
    | true => exact .of_nil (hagain rfl)
    | false => exact fun _ => Or.inr (Or.inr (Or.inl (Since.now es rfl)))
  | stopsReading => exact (h.snoc rfl).leaveLoop he.1 fun _ => Or.inr (Or.inl he.2)
  | connectionWrites status =>
    obtain ⟨t,ht,hserved,_⟩ := (h.snoc (e:=.connectionWrites status) rfl).writePacket he.1 he.2 status
    exact ⟨t,φ,ht,hserved⟩
  | connectionCloses => exact ⟨_,φ,rfl,(h.snoc rfl).close.1⟩
  | encryptionEstablished => exact ⟨_,φ,rfl,(h.snoc rfl).established he⟩
  | onEventReturns => exact (h.snoc rfl).onEventReturns he

theorem Served.initial (self : CB) : Served [] (init self : ClientLoop D) (.idle none) where
  watched := Or.inr ⟨rfl,rfl,0,EpollConfig.vacant_init⟩
  still := rfl
  inside := by simp [init]
  held := ⟨by simp [init],by simp [init],(fun hx => by cases hx),by simp [init]⟩
  attached hc := by cases hc
  accounts := .initial self ⟨_,.initial⟩
  openOnly pre c post fd heq := by simp [init,QuicClient.init,SocketOwner.init] at heq
  order := rfl
  input := .added _ _
  output := .of_free

/-- Nothing aborts, and nothing that came in on a socket is lost, repeated or overtaken.
Between two rounds, what has come in since `Connect` and was not read will be reported to a
connection that is up, unless a read has failed for no lack of datagrams, and a writer that
it waits for waits for room in the socket or will be told of it. No call goes to a socket
that is not open, every socket but the current one has been closed, and the heap holds
nothing but the current session and the writer that it uses. -/
structure Reliable (es : List (Event D)) (s : ClientLoop D) : Prop where
  safe : machine.Safe s
  order : s.processed ++ s.socket.received = s.socket.arrived
  input : s.epoll.control = .idle → s.connected = true → s.socket.received ≠ [] →
    s.socket.inEdge = true ∨ Starved es ∨ Unanswered es
  output : s.epoll.control = .idle → s.connected = true → s.writeBlocked = true →
    s.socket.writable = false ∨ s.socket.outEdge = true
  openOnly : OpenOnly s.client.owner.calls
  closed : ∀ fd, 0 ≤ fd → s.client.owner.calls.count (.netdpSocket fd) =
    s.client.owner.calls.count (.netdpClose fd) + if s.fd = fd then 1 else 0
  held : Held s

theorem Served.reliable (h : Served es s φ) : Reliable es s where
  safe e he := let ⟨t,_,ht,_⟩ := h.step he; ⟨t,ht⟩
  order := h.order
  input hidle hc hne := by
    obtain ⟨rfl,hout⟩ := h.idle hidle
    refine (h.input hne).imp_right ?_
    rintro (hev | hev | hev | hev)
    · exact absurd rfl hev
    · simp [hout,ClientControl.reading] at hev
    · rw [hc] at hev
      cases hev
    · exact hev
  output hidle hc hblocked := by
    obtain ⟨rfl,hout⟩ := h.idle hidle
    refine (h.output (by simp [hc,hblocked])).imp_right (Or.rec id ?_)
    rintro (hev | hev)
    · exact absurd rfl hev
    · simp [hout,ClientControl.inEvents] at hev
  openOnly := h.openOnly
  closed := h.accounts.balance
  held := h.held

/-- Clients that are made one after the other over one epoll server are reliable, however
the network, the connections and the calls of the user interleave. -/
theorem clients_reliable {self : CB} (h : machine.Run (init self) es s) : Reliable es s := by
  have hstep : ∀ {hs : List (Event D)} {s : ClientLoop D} {e : Event D} {t : ClientLoop D},
      (∃ φ, Served hs s φ) → machine.admits s e → machine.step s e = .ok t →
        ∃ φ, Served (hs ++ [e]) t φ := by
    rintro hs s e t ⟨φ,hserved⟩ he ht
    obtain ⟨u,φ',hu,hserved'⟩ := hserved.step he
    obtain rfl : u = t := Except.ok.inj (hu.symm.trans ht)
    exact ⟨φ',hserved'⟩
  obtain ⟨φ,hserved⟩ := h.history (P:=fun hs s => ∃ φ, Served hs s φ) hstep (p:=[])
    ⟨_,.initial self⟩
  exact hserved.reliable

/-- Two clients that are given the same descriptor. The first connects twice; the second
fails to initialize once, is blocked, and has a datagram left when its connection reads. -/
theorem clients_reliable_reusing : ∃ (s : ClientLoop ℕ) (es : List (Event ℕ)),
    machine.Run (init 1) es s ∧ Reliable es s ∧ s.connected = true ∧ s.writeBlocked = true ∧
    s.processed = [21,22] ∧ s.socket.received = [23] ∧ s.fd = 5 := by
  obtain ⟨s,hs,hend⟩ : ∃ s : ClientLoop ℕ, machine.Run (init 1)
      [.initializeClient .inet ⟨5,0,0,0,0,0,0⟩ [] true,.connect,.connectionWrites .ok,.arrives 11,
        .waitForEvents (some (epollIn ||| epollOut)),.nextReady,.readPacket,.readFails true,
        .connectionCloses,.onEventReturns,.nextReady,.connectReturns,.connect,.arrives 12,
        .waitForEvents (some epollIn),.nextReady,.readPacket,.encryptionEstablished,.readFails true,
        .onEventReturns,.nextReady,.connectReturns,.disconnect (some .ok),.reconstruct none,
        .initializeClient .inet6 ⟨5,0,0,0,0,-1,0⟩ [] true,.disconnect none,
        .initializeClient .inet ⟨5,0,0,-1,0,0,0⟩ [21] true,.connect,.connectionWrites .ok,
        .waitForEvents (some (epollIn ||| epollOut)),.nextReady,.readPacket,.encryptionEstablished,
        .readFails true,.onEventReturns,.nextReady,.connectReturns,.connectionWrites .blocked,
        .arrives 22,.arrives 23,.waitForEvents (some epollIn),.nextReady,.readPacket] s ∧
      decide (s.connected = true ∧ s.writeBlocked = true ∧ s.processed = [21,22] ∧
        s.socket.received = [23] ∧ s.fd = 5) = true :=
    machine.exists_run_of_exec_any (by decide +kernel)
  exact ⟨s,_,hs,clients_reliable hs,of_decide_eq_true hend⟩

end ClientLoop
end CmuQuic
