import CmuQuic.BlockedWriters
import CmuQuic.DatagramSocket
import CmuQuic.OneDescriptor
import CmuQuic.ResponseQueue
import CmuQuic.SocketAccounting

/-! A `QuicServer` between `Listen` and `Shutdown`: its epoll server, its dispatcher and
the socket, with the network acting at any time. The socket is watched edge-triggered,
so that an event that is not followed up is not reported again. -/
namespace CmuQuic

structure Datagram where
  clientAddress : IPEndPoint
  packet : QuicEncryptedPacket

inductive ServerControl
  | outside
  /-- At the head of the loop that reads. -/
  | reads (inEvents : Mask)
  /-- In `OnCanWrite` of the dispatcher, or just behind it. -/
  | writes
  | returns
  deriving DecidableEq

def ServerControl.reading : ServerControl → Bool
  | .reads _ => true
  | _ => false

structure ServerLoop where
  self : CB
  fd : Fd
  port : ℕ
  epoll : EpollConfig
  dispatcher : Dispatcher
  socket : DatagramSocket Datagram
  control : ServerControl
  /-- The datagrams that were handed to the dispatcher. -/
  dispatched : List Datagram

/-- Not one of the calls that a `QuicServer` makes itself. -/
def Dispatcher.Event.isInner : Dispatcher.Event → Bool
  | .processPacket _ _ _ _ _ => false
  | .onCanWrite => false
  | .shutdown => false
  | .closeFirstSession => false
  | _ => true

namespace ServerLoop

/-- After a successful `Listen`; datagrams may have come in before the registration. -/
def listening (q : QuicServer) (dispatcher : Dispatcher) (received : List Datagram)
    (writable : Bool) : ServerLoop :=
  ⟨q.owner.self,q.owner.fd,q.port,q.owner.epoll,dispatcher,.added received writable,.outside,[]⟩

def waitForEvents (s : ServerLoop) (report : Option Mask) : Except Abort ServerLoop := do
  let c ← s.epoll.waitForEvents s.fd report
  .ok { s with
    epoll := c
    socket := if report.isSome then s.socket.report else s.socket }

/-- The part of `OnEvent` behind the loop that reads, up to the loop of `OnCanWrite`. -/
def afterReads (s : ServerLoop) (inEvents : Mask) : ServerLoop :=
  if inEvents &&& epollOut ≠ 0 then
    { s with dispatcher := s.dispatcher.onCanWrite, control := .writes }
  else { s with control := .returns }

def onEvent (s : ServerLoop) (fd : Fd) (inEvents : Mask) : Except Abort ServerLoop :=
  if fd = s.fd then
    if inEvents &&& epollIn ≠ 0 then .ok { s with control := .reads inEvents }
    else .ok (s.afterReads inEvents)
  else .error .dcheck

def nextReady (s : ServerLoop) : Except Abort ServerLoop := do
  let c ← EpollConfig.machine.step s.epoll .nextReady
  match c.running with
  | none => .ok { s with epoll := c }
  | some call => onEvent { s with epoll := c } call.fd call.inEvents

/-- `ReadAndDispatchSinglePacket` with a datagram there. netdp does not tell the local
address, which stays empty. -/
def readAndDispatchSinglePacket (s : ServerLoop) (succeeds : Bool) (status : WriteStatus) :
    Except Abort ServerLoop :=
  match s.socket.received with
  | [] => .ok s
  | d :: _ => do
    let dispatcher ← s.dispatcher.step
      (.processPacket ⟨0,s.port⟩ d.clientAddress d.packet succeeds status)
    .ok { s with
      dispatcher := dispatcher
      socket := s.socket.take.wrote s.dispatcher.writeBlocked dispatcher.writeBlocked
      dispatched := s.dispatched ++ [d] }

def readFails (s : ServerLoop) : ServerLoop :=
  match s.control with
  | .reads inEvents => s.afterReads inEvents
  | _ => s

def outReadyMask (s : ServerLoop) : Mask :=
  if s.control = .writes ∧ s.dispatcher.hasPendingWrites = true then epollOut else 0

def onEventReturns (s : ServerLoop) : Except Abort ServerLoop := do
  let c ← EpollConfig.machine.step s.epoll (.onEventReturns s.outReadyMask)
  .ok { s with epoll := c, control := .outside }

inductive Event
  | arrives (d : Datagram)
  | becomesWritable
  | fills
  | waitForEvents (report : Option Mask)
  | nextReady
  | readPacket (succeeds : Bool) (status : WriteStatus)
  /-- The error of `recvfrom` is `NETDP_EAGAIN`, or another one. -/
  | readFails (again : Bool)
  /-- Sessions, alarms and the loop of `OnCanWrite`. -/
  | dispatcher (e : Dispatcher.Event)
  | onEventReturns

/-- A read fails with `NETDP_EAGAIN` only if there is nothing to read. -/
def admits (s : ServerLoop) : Event → Prop
  | .arrives _ => True
  | .becomesWritable => s.socket.writable = false
  | .fills => True
  | .waitForEvents report => s.epoll.control = .idle ∧
    ∀ mask ∈ report, s.socket.Shows (mask &&& epollIn ≠ 0) (mask &&& epollOut ≠ 0)
  | .nextReady => s.epoll.control = .loop
  | .readPacket _ _ => s.control.reading = true ∧ s.dispatcher.control = .idle ∧
    s.socket.received ≠ []
  | .readFails again => s.control.reading = true ∧ s.dispatcher.control = .idle ∧
    (again = true → s.socket.received = [])
  | .dispatcher e => e.isInner = true ∧ s.dispatcher.admits e
  | .onEventReturns => (s.control = .writes ∨ s.control = .returns) ∧ s.dispatcher.control = .idle

def step (s : ServerLoop) : Event → Except Abort ServerLoop
  | .arrives d => .ok { s with socket := s.socket.arrive d }
  | .becomesWritable => .ok { s with socket := s.socket.becomeWritable }
  | .fills => .ok { s with socket := s.socket.fill }
  | .waitForEvents report => s.waitForEvents report
  | .nextReady => s.nextReady
  | .readPacket succeeds status => s.readAndDispatchSinglePacket succeeds status
  | .readFails _ => .ok s.readFails
  | .dispatcher e => do
    let d ← s.dispatcher.step e
    .ok { s with
      dispatcher := d
      socket := s.socket.wrote s.dispatcher.writeBlocked d.writeBlocked }
  | .onEventReturns => s.onEventReturns

def machine : Machine ServerLoop Event Abort := ⟨admits,step⟩

instance (s : ServerLoop) : (e : Event) → Decidable (s.admits e)
  | .arrives _ => inferInstanceAs (Decidable True)
  | .becomesWritable => inferInstanceAs (Decidable (_ = _))
  | .fills => inferInstanceAs (Decidable True)
  | .waitForEvents none => decidable_of_iff (s.epoll.control = .idle) (by simp [admits])
  | .waitForEvents (some mask) => decidable_of_iff (s.epoll.control = .idle ∧
      s.socket.Shows (mask &&& epollIn ≠ 0) (mask &&& epollOut ≠ 0)) (by simp [admits])
  | .nextReady => inferInstanceAs (Decidable (_ = _))
  | .readPacket _ _ => inferInstanceAs (Decidable (_ = _ ∧ _ = _ ∧ s.socket.received ≠ []))
  | .readFails _ => inferInstanceAs (Decidable (_ = _ ∧ _ = _ ∧ (_ = _ → s.socket.received = [])))
  | .dispatcher e => inferInstanceAs (Decidable (_ = _ ∧ s.dispatcher.admits e))
  | .onEventReturns => inferInstanceAs (Decidable ((_ = _ ∨ _ = _) ∧ _ = _))

instance (s : ServerLoop) (e : Event) : Decidable (machine.admits s e) :=
  inferInstanceAs (Decidable (s.admits e))

def Event.isRound : Event → Bool
  | .waitForEvents _ => true
  | .nextReady => true
  | .onEventReturns => true
  | _ => false

def Event.isArrival : Event → Bool
  | .arrives _ => true
  | _ => false

def Event.isFailure : Event → Bool
  | .readFails again => !again
  | _ => false

/-- A read failed though there was no lack of datagrams, and none has come in since. -/
def Starved (es : List Event) : Prop := Since Event.isFailure Event.isArrival es

end ServerLoop

/-- Nothing is asserted between two rounds, and nothing but room for writes is faked. -/
def Posted.Quiet : Posted → Prop
  | .idle slot => slot = none ∨ slot = some (0,epollOut)
  | .done slot => slot = none ∨ slot = some (0,epollOut)
  | _ => True

def ServerControl.inEvents : ServerControl → Mask
  | .reads inEvents => inEvents
  | _ => 0

theorem ServerControl.reading_iff {c : ServerControl} :
    c.reading = true ↔ ∃ inEvents, c = .reads inEvents := by
  cases c <;> simp [reading]

namespace Dispatcher

variable {d d' : Dispatcher}

theorem idle_of_inner {e : Event} (hin : e.isInner = true) (hd : d.control = .idle)
    (he : d.admits e) (h : d.step e = .ok d') : d'.control = .idle := by
  cases e with
  | tick t => cases h; exact hd
  | setMaxConnections m => cases h; exact hd
  | processPacket => cases hin
  | onCanWrite => cases hin
  | serveBlockedWriter =>
    have hc : d.control = .canWriteLoop := he
    rw [hd] at hc
    cases hc
  | timeWaitOnCanWrite status =>
    have hc : d.control = .timeWaitOnCanWrite := he
    rw [hd] at hc
    cases hc
  | cleanUpOldConnectionIds => cases h; exact hd
  | deleteSessionsAlarm =>
    obtain rfl := deleteSessions_ok h
    exact hd
  | rehash es =>
    simp only [step,dif_pos he.2] at h
    cases h
    exact hd
  | shutdown => cases hin
  | closeFirstSession => cases hin
  | returns => exact absurd hd he.1
  | connectionWrites s status =>
    obtain ⟨_,_,h⟩ := withSession_ok h
    exact (writePacket_steady h).1.control.trans hd
  | connectionChanges s version p =>
    obtain ⟨_,_,h⟩ := withSession_ok h
    cases h
    exact hd
  | sessionOnWriteBlocked s =>
    obtain ⟨_,_,h⟩ := withSession_ok h
    cases h
    exact (onWriteBlocked_steady d _).1.control.trans hd
  | sessionOnConnectionClosed s => exact (sessionOnConnectionClosed_steady h).1.control.trans hd

theorem Sequenced.step {e : Event} (hs : Sequenced d) (he : d.admits e) (h : d.step e = .ok d') :
    Sequenced d' :=
  (step_changes (R:=fun _ => True) he (fun _ _ _ _ => trivial) h).keeps (fun hd hc => hd.change hc) hs

theorem Sequenced.blocked_of_pending (hs : Sequenced d) (hc : d.control = .idle)
    (h : d.hasPendingWrites = true) : d.writeBlocked = true := by
  refine hs.blocked (fun he => ?_) (by simp [hc,DispatcherControl.inCanWrite])
  simp [hasPendingWrites,he] at h

end Dispatcher

namespace ServerLoop
open EpollConfig (Posts)

/-- Whoever is waiting, the datagrams in the socket and the writers behind it, is known to
the server or is going to be reported. -/
structure Attentive (es : List Event) (s : ServerLoop) (φ : Posted) : Prop where
  posts : Posts ⟨s.fd,0⟩ s.self s.epoll φ
  inside : φ = .called ↔ s.control ≠ .outside
  quiet : φ.Quiet
  rest : s.control = .outside → s.dispatcher.control = .idle
  sequenced : s.dispatcher.Sequenced
  order : s.dispatched ++ s.socket.received = s.socket.arrived
  input : s.socket.InputNoted
    (φ.events &&& epollIn ≠ 0 ∨ s.control.reading = true ∨ Starved es)
  output : s.socket.OutputNoted s.dispatcher.writeBlocked
    (φ.events &&& epollOut ≠ 0 ∨ s.control.inEvents &&& epollOut ≠ 0)

variable {es : List Event} {s t : ServerLoop} {φ : Posted}

theorem Attentive.snoc (h : Attentive es s φ) {e : Event} (he : e.isArrival = false) :
    Attentive (es ++ [e]) s φ :=
  ⟨h.posts,h.inside,h.quiet,h.rest,h.sequenced,h.order,
    h.input.mono (Or.imp_right (Or.imp_right fun hs => Since.snoc hs he)),h.output⟩

theorem Attentive.outside (h : Attentive es s φ) (hφ : φ ≠ .called) : s.control = .outside := by
  by_contra hne
  exact hφ (h.inside.mpr hne)

theorem Attentive.waitForEvents (h : Attentive es s φ) {report : Option Mask}
    (hidle : s.epoll.control = .idle)
    (hshow : ∀ mask ∈ report, s.socket.Shows (mask &&& epollIn ≠ 0) (mask &&& epollOut ≠ 0)) :
    ∃ t φ', s.waitForEvents report = .ok t ∧ Attentive es t φ' := by
  have hcontrol := h.posts.control
  rw [hidle] at hcontrol
  cases φ with
  | queued a f => cases hcontrol
  | called => cases hcontrol
  | done slot => cases hcontrol
  | idle slot =>
    have hout : s.control = .outside := h.outside (by simp)
    obtain ⟨c,hc,hposts⟩ := h.posts.waitForEvents report
    have hwait : s.waitForEvents report = .ok { s with
        epoll := c
        socket := if report.isSome then s.socket.report else s.socket } := by
      simp only [ServerLoop.waitForEvents,hc,except_ok_bind]
    refine ⟨_,_,hwait,hposts,?_,?_,h.rest,h.sequenced,?_,?_,?_⟩
    · cases report <;> rcases slot with _ | ⟨a,f⟩ <;> simp [Posted.roundStart,hout]
    · cases report <;> rcases slot with _ | ⟨a,f⟩ <;> simp [Posted.roundStart,Posted.Quiet]
    · cases report <;> exact h.order
    · cases report with
      | none =>
        refine h.input.mono (Or.imp_left fun hev => ?_)
        cases slot <;> exact hev
      | some mask =>
        refine h.input.report (Or.imp_left fun hev => ?_) fun hedge hne => Or.inl ?_
        · rcases h.quiet with rfl | rfl
          · exact absurd rfl hev
          · exact absurd (by decide) hev
        · exact or_and_ne_zero.mpr (Or.inl ((hshow mask rfl).1 hedge hne))
    · cases report with
      | none =>
        refine h.output.mono (Or.imp_left fun hev => ?_)
        cases slot <;> exact hev
      | some mask =>
        refine h.output.report (Or.imp_left fun hev => ?_) fun hedge hw => Or.inl ?_
        · rcases h.quiet with rfl | rfl
          · exact absurd rfl hev
          · exact or_and_ne_zero.mpr (Or.inr (show epollOut &&& epollOut ≠ 0 by decide))
        · exact or_and_ne_zero.mpr (Or.inl ((hshow mask rfl).2 hedge hw))

theorem Attentive.afterReads {inEvents : Mask} (h : Attentive es s .called)
    (hcontrol : s.control = .reads inEvents) (hidle : s.dispatcher.control = .idle)
    (hin : s.socket.InputNoted (Starved es)) : Attentive es (s.afterReads inEvents) .called := by
  unfold ServerLoop.afterReads
  split_ifs with hwrite
  · exact ⟨h.posts,by simp,h.quiet,(fun hc => by cases hc),
      h.sequenced.step (e:=.onCanWrite) hidle rfl,h.order,hin.mono fun hs => Or.inr (Or.inr hs),
      .of_free⟩
  · refine ⟨h.posts,by simp,h.quiet,(fun hc => by cases hc),h.sequenced,h.order,
      hin.mono fun hs => Or.inr (Or.inr hs),h.output.mono (Or.imp_right fun hev => ?_)⟩
    rw [hcontrol] at hev
    exact absurd hev hwrite

theorem Attentive.onEvent {asserted fake : Mask} (h : Attentive es s (.queued asserted fake))
    {c : EpollConfig} (hposts : Posts ⟨s.fd,0⟩ s.self c .called) :
    ∃ t, ServerLoop.onEvent { s with epoll := c } s.fd (asserted ||| fake) = .ok t ∧
      Attentive es t .called := by
  have hout : s.control = .outside := h.outside (by simp)
  have henter : Attentive es { s with epoll := c, control := .reads (asserted ||| fake) }
      .called := by
    refine ⟨hposts,by simp,trivial,(fun hc => by cases hc),h.sequenced,h.order,
      h.input.mono fun _ => Or.inr (Or.inl rfl),h.output.mono fun hev => Or.inr ?_⟩
    exact hev.resolve_right (by simp [hout,ServerControl.inEvents])
  unfold ServerLoop.onEvent
  rw [if_pos rfl]
  split_ifs with hin
  · exact ⟨_,rfl,henter⟩
  · refine ⟨_,rfl,henter.afterReads rfl (h.rest hout) (h.input.mono ?_)⟩
    rintro (hev | hev | hev)
    · exact absurd hev hin
    · simp [hout,ServerControl.reading] at hev
    · exact hev

theorem Attentive.nextReady (h : Attentive es s φ) (hloop : s.epoll.control = .loop) :
    ∃ t φ', s.nextReady = .ok t ∧ Attentive es t φ' := by
  have hcontrol := h.posts.control
  rw [hloop] at hcontrol
  cases φ with
  | idle slot => cases hcontrol
  | called => cases hcontrol
  | queued a f =>
    obtain ⟨c,hc,hposts,htrace⟩ := h.posts.nextReady_queued
    obtain ⟨t,ht,hatt⟩ := h.onEvent hposts
    refine ⟨t,_,?_,hatt⟩
    simp only [ServerLoop.nextReady,hc,except_ok_bind,EpollConfig.running_called hposts.control htrace]
    exact ht
  | done slot =>
    obtain ⟨c,hc,hposts⟩ := h.posts.nextReady_done
    have hout : s.control = .outside := h.outside (by simp)
    refine ⟨{ s with epoll := c },.idle slot,?_,hposts,by simp [hout],h.quiet,h.rest,h.sequenced,
      h.order,h.input,h.output⟩
    simp only [ServerLoop.nextReady,hc,except_ok_bind,EpollConfig.running_idle hposts.control]

theorem Attentive.onEventReturns (h : Attentive es s φ)
    (hcontrol : s.control = .writes ∨ s.control = .returns) (hidle : s.dispatcher.control = .idle) :
    ∃ t φ', s.onEventReturns = .ok t ∧ Attentive es t φ' := by
  obtain rfl : φ = .called := h.inside.mpr (by rcases hcontrol with hc | hc <;> simp [hc])
  obtain ⟨c,hc,hposts⟩ := h.posts.onEventReturns s.outReadyMask
  refine ⟨{ s with epoll := c, control := .outside },_,by simp [ServerLoop.onEventReturns,hc],
    hposts,by simp [Posted.onEventReturns],?_,fun _ => hidle,h.sequenced,h.order,?_,?_⟩
  · unfold ServerLoop.outReadyMask
    split_ifs <;> simp [Posted.onEventReturns,Posted.Quiet,epollOut]
  · refine h.input.mono ?_
    rintro (hev | hev | hev)
    · exact absurd rfl hev
    · rcases hcontrol with hc | hc <;> simp [hc,ServerControl.reading] at hev
    · exact Or.inr (Or.inr hev)
  · refine h.output.mono ?_
    rintro (hev | hev)
    · exact absurd rfl hev
    · rcases hcontrol with hc | hc <;> simp [hc,ServerControl.inEvents] at hev

theorem Attentive.dispatch (h : Attentive es s φ) {e : Dispatcher.Event} {d : Dispatcher}
    (he : s.dispatcher.admits e) (hd : s.dispatcher.step e = .ok d)
    (hrest : s.control = .outside → d.control = .idle) :
    Attentive es { s with
      dispatcher := d
      socket := s.socket.wrote s.dispatcher.writeBlocked d.writeBlocked } φ := by
  refine ⟨h.posts,h.inside,h.quiet,hrest,h.sequenced.step he hd,?_,h.input.wrote,h.output.wrote⟩
  simp only [DatagramSocket.received_wrote,DatagramSocket.arrived_wrote]
  exact h.order

theorem Attentive.read (h : Attentive es s φ) {succeeds : Bool} {status : WriteStatus}
    (hcontrol : s.control.reading = true) (hidle : s.dispatcher.control = .idle)
    (ht : s.readAndDispatchSinglePacket succeeds status = .ok t) : Attentive es t φ := by
  unfold readAndDispatchSinglePacket at ht
  split at ht
  · cases ht
    exact h
  · rename_i d rest hreceived
    obtain ⟨d',hd,ht⟩ := except_bind_eq_ok ht
    cases ht
    have htake : Attentive es { s with socket := s.socket.take, dispatched := s.dispatched ++ [d] }
        φ := by
      refine ⟨h.posts,h.inside,h.quiet,h.rest,h.sequenced,?_,h.input.take,h.output⟩
      show (s.dispatched ++ [d]) ++ s.socket.received.tail = s.socket.arrived
      rw [← h.order,hreceived]
      simp
    exact htake.dispatch (e:=.processPacket _ _ _ succeeds status) hidle hd fun hout => by
      have hout : s.control = .outside := hout
      simp [hout,ServerControl.reading] at hcontrol

theorem Attentive.step (h : Attentive es s φ) {e : Event} (he : s.admits e)
    (ht : s.step e = .ok t) : ∃ φ', Attentive (es ++ [e]) t φ' := by
  cases e with
  | arrives d =>
    cases ht
    refine ⟨φ,h.posts,h.inside,h.quiet,h.rest,h.sequenced,?_,.arrive s.socket d,h.output⟩
    show s.dispatched ++ (s.socket.received ++ [d]) = s.socket.arrived ++ [d]
    rw [← h.order,List.append_assoc]
  | becomesWritable =>
    cases ht
    have h := h.snoc (e:=.becomesWritable) rfl
    exact ⟨φ,h.posts,h.inside,h.quiet,h.rest,h.sequenced,h.order,h.input,.becomeWritable _ _⟩
  | fills =>
    cases ht
    have h := h.snoc (e:=.fills) rfl
    exact ⟨φ,h.posts,h.inside,h.quiet,h.rest,h.sequenced,h.order,h.input,.fill _ _⟩
  | waitForEvents report =>
    obtain ⟨u,φ',hu,hatt⟩ := (h.snoc (e:=.waitForEvents report) rfl).waitForEvents he.1 he.2
    obtain rfl : u = t := Except.ok.inj (hu.symm.trans ht)
    exact ⟨φ',hatt⟩
  | nextReady =>
    obtain ⟨u,φ',hu,hatt⟩ := (h.snoc (e:=.nextReady) rfl).nextReady he
    obtain rfl : u = t := Except.ok.inj (hu.symm.trans ht)
    exact ⟨φ',hatt⟩
  | readPacket succeeds status =>
    obtain ⟨hc,hidle,_⟩ := he
    exact ⟨φ,(h.snoc rfl).read hc hidle ht⟩
  | readFails again =>
    cases ht
    obtain ⟨hreading,hidle,hagain⟩ := he
    obtain ⟨inEvents,hc⟩ := ServerControl.reading_iff.mp hreading
    obtain rfl : φ = .called := h.inside.mpr (by simp [hc])
    simp only [ServerLoop.readFails,hc]
    refine ⟨_,(h.snoc rfl).afterReads hc hidle ?_⟩
    cases again with
    | true => exact .of_nil (hagain rfl)
    | false => exact fun _ => Or.inr (Since.now es rfl)
  | dispatcher e =>
    obtain ⟨d,hd,ht⟩ := except_bind_eq_ok ht
    cases ht
    exact ⟨φ,(h.snoc rfl).dispatch he.2 hd fun hc =>
      Dispatcher.idle_of_inner he.1 (h.rest hc) he.2 hd⟩
  | onEventReturns =>
    obtain ⟨u,φ',hu,hatt⟩ := (h.snoc (e:=.onEventReturns) rfl).onEventReturns he.1 he.2
    obtain rfl : u = t := Except.ok.inj (hu.symm.trans ht)
    exact ⟨φ',hatt⟩

theorem posts_of_listen {self : CB} {family : AddressFamily} {port : ℕ} {u : SetUp}
    {selfPort : Option ℕ} {q : QuicServer}
    (h : (QuicServer.init self).listen family port u selfPort = .ok (q,true)) :
    Posts ⟨q.owner.fd,0⟩ q.owner.self q.owner.epoll (.idle none) := by
  have hkept := QuicServer.setUpSocket_kept (QuicServer.init self).owner family u
  unfold QuicServer.listen at h
  generalize QuicServer.setUpSocket (QuicServer.init self).owner family u = r at h hkept
  obtain ⟨o,b⟩ := r
  cases b with
  | false => cases h
  | true =>
    simp only at h
    have hfound : (QuicServer.findPort ⟨o,port⟩ selfPort).1.owner.epoll = .init := by
      have hep : o.epoll = .init := hkept.2.1
      unfold QuicServer.findPort
      split_ifs
      · cases selfPort <;> exact hep
      · exact hep
    generalize QuicServer.findPort ⟨o,port⟩ selfPort = r at h hfound
    obtain ⟨s,b⟩ := r
    cases b with
    | false => cases h
    | true =>
      obtain ⟨o',ho',h⟩ := except_bind_eq_ok h
      obtain ⟨c,hc,rfl⟩ := SocketOwner.epollOp_ok ho'
      cases h
      rw [show s.owner.epoll = .init from hfound] at hc
      obtain ⟨c',hc',hposts⟩ := EpollConfig.vacant_init.register s.owner.fd s.owner.self kEpollFlags
      obtain rfl : c' = c := Except.ok.inj (hc'.symm.trans hc)
      exact hposts

theorem Attentive.initial {self : CB} {family : AddressFamily} {port : ℕ} {u : SetUp}
    {selfPort : Option ℕ} {q : QuicServer}
    (h : (QuicServer.init self).listen family port u selfPort = .ok (q,true))
    (versions : List QuicVersion) (period max now : ℤ) (version : QuicVersion)
    (received : List Datagram) (writable : Bool) :
    Attentive [] (listening q (.init versions period max now version) received writable)
      (.idle none) :=
  ⟨posts_of_listen h,by simp [listening],Or.inl rfl,fun _ => rfl,.initial _ _ _ _ _,rfl,.added _ _,
    .of_free⟩

/-- Nothing that came in is lost, repeated or overtaken. Between two rounds, what is
unread will be reported, unless a read has failed for no lack of datagrams; and whoever
waits for the writer waits for room in the socket, or will be called. The epoll server
can take every one of its steps. -/
structure Responsive (es : List Event) (s : ServerLoop) : Prop where
  order : s.dispatched ++ s.socket.received = s.socket.arrived
  input : s.epoll.control = .idle → s.socket.received ≠ [] → s.socket.inEdge = true ∨ Starved es
  output : s.epoll.control = .idle →
    s.dispatcher.hasPendingWrites = true ∨ s.dispatcher.pendingPacketsQueue ≠ [] →
    s.socket.writable = false ∨ s.socket.outEdge = true ∨ s.epoll.server.isFDReady s.fd = true
  rounds : ∀ e, e.isRound = true → s.admits e → ∃ t, s.step e = .ok t

theorem pending_of_queue {d : Dispatcher} (h : d.Sequenced) (hc : d.control = .idle)
    (hq : d.pendingPacketsQueue ≠ []) : d.hasPendingWrites = true := by
  have hmem := h.waiting hq (by simp [hc])
  cases he : d.writeBlockedList.entries with
  | nil => simp [LinkedHashMap.keys,he] at hmem
  | cons x xs => simp [Dispatcher.hasPendingWrites,he]

theorem Attentive.idle (h : Attentive es s φ) (hidle : s.epoll.control = .idle) :
    ∃ slot, φ = .idle slot ∧ (slot = none ∨ slot = some (0,epollOut)) ∧ s.control = .outside := by
  have hcontrol := h.posts.control
  rw [hidle] at hcontrol
  cases φ with
  | queued a f => cases hcontrol
  | called => cases hcontrol
  | done slot => cases hcontrol
  | idle slot => exact ⟨slot,rfl,h.quiet,h.outside (by simp)⟩

theorem Attentive.responsive (h : Attentive es s φ) : Responsive es s where
  order := h.order
  input hidle hne := by
    obtain ⟨slot,rfl,hslot,hout⟩ := h.idle hidle
    refine (h.input hne).imp_right ?_
    rintro (hev | hev | hev)
    · rcases hslot with rfl | rfl <;> exact absurd (by decide) hev
    · simp [hout,ServerControl.reading] at hev
    · exact hev
  output hidle hpending := by
    obtain ⟨slot,rfl,hslot,hout⟩ := h.idle hidle
    have hpending := hpending.elim id (pending_of_queue h.sequenced (h.rest hout))
    refine (h.output (h.sequenced.blocked_of_pending (h.rest hout) hpending)).imp_right
      (Or.imp_right ?_)
    rintro (hev | hev)
    · rw [h.posts.isFDReady]
      rcases hslot with rfl | rfl
      · exact absurd rfl hev
      · rfl
    · simp [hout,ServerControl.inEvents] at hev
  rounds e hround he := by
    cases e with
    | waitForEvents report => exact let ⟨t,_,ht,_⟩ := h.waitForEvents he.1 he.2; ⟨t,ht⟩
    | nextReady => exact let ⟨t,_,ht,_⟩ := h.nextReady he; ⟨t,ht⟩
    | onEventReturns => exact let ⟨t,_,ht,_⟩ := h.onEventReturns he.1 he.2; ⟨t,ht⟩
    | _ => cases hround

/-- A listening server is responsive in every run, however the network, the sessions and
the rounds of the epoll server interleave. -/
theorem server_responsive {self : CB} {family : AddressFamily} {port : ℕ} {u : SetUp}
    {selfPort : Option ℕ} {q : QuicServer}
    (hlisten : (QuicServer.init self).listen family port u selfPort = .ok (q,true))
    {versions : List QuicVersion} {period max now : ℤ} {version : QuicVersion}
    {received : List Datagram} {writable : Bool}
    (h : machine.Run (listening q (.init versions period max now version) received writable) es s) :
    Responsive es s := by
  have hinit := Attentive.initial hlisten versions period max now version received writable
  have hstep : ∀ {hs : List Event} {s : ServerLoop} {e : Event} {t : ServerLoop},
      (∃ φ, Attentive hs s φ) → machine.admits s e → machine.step s e = .ok t →
        ∃ φ, Attentive (hs ++ [e]) t φ := fun ⟨_,hs⟩ he ht => hs.step he ht
  obtain ⟨φ,hatt⟩ := h.history (P:=fun hs s => ∃ φ, Attentive hs s φ) hstep (p:=[]) ⟨_,hinit⟩
  exact hatt.responsive

/-- A session blocks the writer, a third datagram arrives while the loop reads, and the
loop is left by an error. -/
theorem server_responsive_blocked : ∃ q s es, (QuicServer.init 1).listen .inet 6121
      ⟨5,0,0,0,0,0,0⟩ none = .ok (q,true) ∧
    machine.Run (listening q (.init [25] 200 (-1) 100 25) [] false) es s ∧ Responsive es s ∧
    s.epoll.control = .idle ∧ s.socket.received.length = 1 ∧ s.dispatched.length = 2 ∧
    s.dispatcher.hasPendingWrites = true := by
  obtain ⟨q,hq⟩ : ∃ q, (QuicServer.init 1).listen .inet 6121 ⟨5,0,0,0,0,0,0⟩ none = .ok (q,true) :=
    ⟨_,rfl⟩
  obtain ⟨s,hs,hend⟩ : ∃ s, machine.Run (listening q (.init [25] 200 (-1) 100 25) [] false)
      [.arrives ⟨⟨2,5000⟩,⟨some ⟨7,false,true,25⟩,some 1⟩⟩,.becomesWritable,
        .arrives ⟨⟨3,6000⟩,⟨some ⟨8,false,false,0⟩,some 1⟩⟩,
        .waitForEvents (some (epollIn ||| epollOut)),.nextReady,.readPacket true .ok,
        .dispatcher (.connectionWrites 0 .blocked),.dispatcher (.sessionOnWriteBlocked 0),
        .dispatcher .returns,.readPacket true .ok,
        .arrives ⟨⟨3,6000⟩,⟨some ⟨8,false,false,0⟩,some 2⟩⟩,.readFails false,
        .dispatcher .serveBlockedWriter,.dispatcher (.connectionWrites 0 .ok),.dispatcher .returns,
        .dispatcher .serveBlockedWriter,.dispatcher (.timeWaitOnCanWrite .blocked),
        .dispatcher .serveBlockedWriter,.onEventReturns,.nextReady] s ∧
      decide (s.epoll.control = .idle ∧ s.socket.received.length = 1 ∧ s.dispatched.length = 2 ∧
        s.dispatcher.hasPendingWrites = true) = true := by
    cases hq
    exact machine.exists_run_of_exec_any (by decide +kernel)
  exact ⟨q,s,_,hq,hs,server_responsive hq hs,of_decide_eq_true hend⟩

end ServerLoop
end CmuQuic
