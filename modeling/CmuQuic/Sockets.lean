import CmuQuic.EpollServer

/-! The socket of a `QuicServer` and of a `QuicClient`: how it is set up, used and torn
down. Every call that takes a descriptor is recorded, netdp calls and kernel calls
apart. -/
namespace CmuQuic

inductive NetdpFunction
  | setsockopt | bind | getsockname | recvfrom | sendto
  deriving DecidableEq

inductive KernelFunction
  | close | getsockname
  deriving DecidableEq

/-- A call with the descriptor that it returned or was given. -/
inductive SocketCall
  | netdpSocket (fd : Fd)
  | netdp (f : NetdpFunction) (fd : Fd)
  | netdpClose (fd : Fd)
  | kernel (f : KernelFunction) (fd : Fd)
  deriving DecidableEq

inductive AddressFamily
  | inet | inet6
  deriving DecidableEq

/-- What the calls that set up a socket return. -/
structure SetUp where
  socket : Fd
  ipPktinfo : ℤ
  ipv6RecvPktinfo : ℤ
  soRxqOvfl : ℤ
  soRcvbuf : ℤ
  soSndbuf : ℤ
  bind : ℤ

def kEpollFlags : Mask := epollIn ||| epollOut ||| 0x80000000#32

structure SocketOwner where
  /-- The callback object that is registered with the `EpollServer`. -/
  self : CB
  fd : Fd
  overflowSupported : Bool
  /-- The descriptor of the packet writer, if there is one. -/
  writerFd : Option Fd
  epoll : EpollConfig
  calls : List SocketCall

namespace SocketOwner

def init (self : CB) (epoll : EpollConfig) : SocketOwner := ⟨self,-1,false,none,epoll,[]⟩

def log (o : SocketOwner) (c : SocketCall) : SocketOwner := { o with calls := o.calls ++ [c] }

def setsockopt (o : SocketOwner) : SocketOwner := o.log (.netdp .setsockopt o.fd)

def createSocket (o : SocketOwner) (u : SetUp) : SocketOwner :=
  { o with fd := u.socket }.log (.netdpSocket u.socket)

def setGetAddressInfo (o : SocketOwner) (u : SetUp) (family : AddressFamily) : SocketOwner × ℤ :=
  if u.ipPktinfo = 0 ∧ family = .inet6 then (o.setsockopt.setsockopt,u.ipv6RecvPktinfo)
  else (o.setsockopt,u.ipPktinfo)

def setOverflow (o : SocketOwner) (u : SetUp) : SocketOwner :=
  if u.soRxqOvfl < 0 then o.setsockopt else { o.setsockopt with overflowSupported := true }

/-- `SetReceiveBufferSize` and `SetSendBufferSize`. -/
def setBufferSizes (o : SocketOwner) (u : SetUp) : SocketOwner × Bool :=
  if u.soRcvbuf ≠ 0 then (o.setsockopt,false)
  else (o.setsockopt.setsockopt,u.soSndbuf = 0)

def bind (o : SocketOwner) (u : SetUp) : SocketOwner × Bool :=
  (o.log (.netdp .bind o.fd),0 ≤ u.bind)

def epollOp (o : SocketOwner) (op : EpollServer.Op) : Except Abort SocketOwner := do
  let e ← EpollConfig.machine.step o.epoll (.op op)
  .ok { o with epoll := e }

def writePackets (o : SocketOwner) (n : ℕ) : SocketOwner :=
  match o.writerFd with
  | none => o
  | some fd => { o with calls := o.calls ++ List.replicate n (.netdp .sendto fd) }

end SocketOwner

structure QuicServer where
  owner : SocketOwner
  port : ℕ

namespace QuicServer

def init (self : CB) : QuicServer := ⟨.init self .init,0⟩

/-- The part of `Listen` up to `netdpsock_bind`. -/
def setUpSocket (o : SocketOwner) (family : AddressFamily) (u : SetUp) : SocketOwner × Bool :=
  let o := o.createSocket u
  if u.socket < 0 then (o,false)
  else
    let (o,rc) := o.setGetAddressInfo u family
    if rc < 0 then (o,false)
    else
      let o := o.setOverflow u
      match o.setBufferSizes u with
      | (o,false) => (o,false)
      | (o,true) => o.bind u

/-- The port that was asked for, or the one that the kernel call finds. -/
def findPort (s : QuicServer) (selfPort : Option ℕ) : QuicServer × Bool :=
  if s.port = 0 then
    let s := { s with owner := s.owner.log (.kernel .getsockname s.owner.fd) }
    match selfPort with
    | none => (s,false)
    | some port => ({ s with port := port },true)
  else (s,true)

def listen (s : QuicServer) (family : AddressFamily) (port : ℕ) (u : SetUp)
    (selfPort : Option ℕ) : Except Abort (QuicServer × Bool) :=
  match setUpSocket s.owner family u with
  | (o,false) => .ok (⟨o,port⟩,false)
  | (o,true) =>
    match findPort ⟨o,port⟩ selfPort with
    | (s,false) => .ok (s,false)
    | (s,true) => do
      let o ← s.owner.epollOp (.registerFD s.owner.fd s.owner.self kEpollFlags)
      -- the dispatcher and its writer
      .ok ({ s with owner := { o with writerFd := some o.fd } },true)

/-- The dispatcher sends what it has to send, and the descriptor goes to the kernel. -/
def shutdown (s : QuicServer) (packets : ℕ) : Except Abort QuicServer :=
  match s.owner.writerFd with
  | none => .error .access
  | some _ =>
    let o := s.owner.writePackets packets
    .ok { s with owner := { o.log (.kernel .close o.fd) with fd := -1 } }

inductive Event
  | listen (family : AddressFamily) (port : ℕ) (u : SetUp) (selfPort : Option ℕ)
  | waitForEvents (e : EpollConfig.Event)
  | readPacket
  | writePacket
  | shutdown (packets : ℕ)

/-- The calls of the user come between two rounds of the event loop. -/
def admits (s : QuicServer) : Event → Prop
  | .listen _ _ _ _ => s.owner.epoll.control = .idle
  | .waitForEvents e => EpollConfig.machine.admits s.owner.epoll e
  | .readPacket => True
  | .writePacket => True
  | .shutdown _ => s.owner.epoll.control = .idle

def step (s : QuicServer) : Event → Except Abort QuicServer
  | .listen family port u selfPort => do
    let (s,_) ← s.listen family port u selfPort
    .ok s
  | .waitForEvents e => do
    let c ← EpollConfig.machine.step s.owner.epoll e
    .ok { s with owner := { s.owner with epoll := c } }
  | .readPacket => .ok { s with owner := s.owner.log (.netdp .recvfrom s.owner.fd) }
  | .writePacket => .ok { s with owner := s.owner.writePackets 1 }
  | .shutdown packets => s.shutdown packets

def machine : Machine QuicServer Event Abort := ⟨admits,step⟩

instance (s : QuicServer) : (e : Event) → Decidable (s.admits e)
  | .listen _ _ _ _ => inferInstanceAs (Decidable (_ = _))
  | .waitForEvents e => inferInstanceAs (Decidable (EpollConfig.machine.admits s.owner.epoll e))
  | .readPacket => inferInstanceAs (Decidable True)
  | .writePacket => inferInstanceAs (Decidable True)
  | .shutdown _ => inferInstanceAs (Decidable (_ = _))

instance (s : QuicServer) (e : Event) : Decidable (machine.admits s e) :=
  inferInstanceAs (Decidable (s.admits e))

end QuicServer

structure QuicClient where
  owner : SocketOwner
  initialized : Bool

namespace QuicClient

def init (self : CB) (epoll : EpollConfig) : QuicClient := ⟨.init self epoll,false⟩

def createUDPSocket (o : SocketOwner) (family : AddressFamily) (u : SetUp) : SocketOwner × Bool :=
  let o := o.createSocket u
  if u.socket < 0 then (o,false)
  else
    let o := o.setOverflow u
    match o.setBufferSizes u with
    | (o,false) => (o,false)
    | (o,true) =>
      let (o,rc) := o.setGetAddressInfo u family
      if rc < 0 then (o,false)
      else match o.bind u with
        | (o,false) => (o,false)
        -- a failure of this call is only logged
        | (o,true) => (o.log (.netdp .getsockname o.fd),true)

def initializeClient (c : QuicClient) (family : AddressFamily) (u : SetUp) :
    Except Abort (QuicClient × Bool) :=
  if c.initialized then .error .dcheck
  else match createUDPSocket c.owner family u with
    | (o,false) => .ok ({ c with owner := o },false)
    | (o,true) => do
      let o ← o.epollOp (.registerFD o.fd o.self kEpollFlags)
      .ok (⟨o,true⟩,true)

def connect (c : QuicClient) : QuicClient :=
  { c with owner := { c.owner with writerFd := some c.owner.fd } }

def disconnect (c : QuicClient) (packets : ℕ) : Except Abort QuicClient :=
  let o := c.owner.writePackets packets
  if o.fd > -1 then do
    let o ← o.epollOp (.unregisterFD o.fd)
    .ok ⟨{ o.log (.netdpClose o.fd) with fd := -1 },false⟩
  else .ok ⟨o,false⟩

inductive Event
  | initializeClient (family : AddressFamily) (u : SetUp)
  | connect
  | waitForEvents (e : EpollConfig.Event)
  | readPacket
  | writePacket
  | disconnect (packets : ℕ)

/-- `Initialize` is called only while the client is not initialized. -/
def admits (c : QuicClient) : Event → Prop
  | .initializeClient _ _ => c.owner.epoll.control = .idle ∧ c.initialized = false
  | .connect => c.owner.epoll.control = .idle
  | .waitForEvents e => EpollConfig.machine.admits c.owner.epoll e
  | .readPacket => True
  | .writePacket => True
  | .disconnect _ => c.owner.epoll.control = .idle

def step (c : QuicClient) : Event → Except Abort QuicClient
  | .initializeClient family u => do
    let (c,_) ← c.initializeClient family u
    .ok c
  | .connect => .ok c.connect
  | .waitForEvents e => do
    let e ← EpollConfig.machine.step c.owner.epoll e
    .ok { c with owner := { c.owner with epoll := e } }
  | .readPacket => .ok { c with owner := c.owner.log (.netdp .recvfrom c.owner.fd) }
  | .writePacket => .ok { c with owner := c.owner.writePackets 1 }
  | .disconnect packets => c.disconnect packets

def machine : Machine QuicClient Event Abort := ⟨admits,step⟩

instance (c : QuicClient) : (e : Event) → Decidable (c.admits e)
  | .initializeClient _ _ => inferInstanceAs (Decidable (_ = _ ∧ _ = _))
  | .connect => inferInstanceAs (Decidable (_ = _))
  | .waitForEvents e => inferInstanceAs (Decidable (EpollConfig.machine.admits c.owner.epoll e))
  | .readPacket => inferInstanceAs (Decidable True)
  | .writePacket => inferInstanceAs (Decidable True)
  | .disconnect _ => inferInstanceAs (Decidable (_ = _))

instance (c : QuicClient) (e : Event) : Decidable (machine.admits c e) :=
  inferInstanceAs (Decidable (c.admits e))

end QuicClient
end CmuQuic
