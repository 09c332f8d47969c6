import CmuQuic.Dispatcher

/-! Everything a step of the dispatcher can do, said once: each step is a sequence of
the changes below, and what every change keeps, every run keeps. -/
namespace CmuQuic

def DispatcherControl.inCanWrite : DispatcherControl → Bool
  | .canWriteLoop => true
  | .connectionOnCanWrite _ => true
  | .timeWaitOnCanWrite => true
  | _ => false

def QuicBlockedWriter.onCanWrite : QuicBlockedWriter → DispatcherControl
  | .connection s => .connectionOnCanWrite s
  | .timeWaitListManager => .timeWaitOnCanWrite

namespace Dispatcher

def opened (d : Dispatcher) (id : ConnectionId) (x : QuicServerSession) : Dispatcher :=
  { d with
    sessions := Function.update d.sessions d.created (some x)
    created := d.created+1
    sessionMap := d.sessionMap.insert id d.created }

def closed (d : Dispatcher) (id : ConnectionId) (session : SessionId) (x : QuicServerSession)
    (alarm : ℤ) (l : TimeWaitList) : Dispatcher :=
  { d with
    sessions := Function.update d.sessions session (some { x with connectionClosePacket := none })
    closedSessionList := d.closedSessionList ++ [session]
    deleteSessionsAlarm := alarm
    writeBlockedList := d.writeBlockedList.erase (.connection session)
    timeWaitList := l
    sessionMap := d.sessionMap.erase id }

def cleared (d : Dispatcher) (alarm : ℤ) : Dispatcher :=
  { d with
    sessions := fun s => if s ∈ d.closedSessionList then none else d.sessions s
    deleted := d.deleted ++ d.closedSessionList
    closedSessionList := []
    deleteSessionsAlarm := alarm }

/-- One change of the state. A session that calls back satisfies `R`. -/
inductive Change (R : QuicServerSession → Prop) (d : Dispatcher) : Dispatcher → Prop
  | notes (version now calls fatals) : Change R d
    { d with framerVersion := version, approximateNow := now, calls := calls, fatals := fatals }
  | limits (m) : m < 0 ∨ 1 ≤ m → Change R d { d with maxConnections := m }
  | moves (c) : d.control.inCanWrite = false → c.inCanWrite = false →
    Change R d { d with control := c }
  | setsWritable : d.control = .idle → Change R d d.onCanWrite
  | stops : d.control = .canWriteLoop → d.writeBlockedList.entries = [] ∨ d.writeBlocked = true →
    Change R d { d with control := .idle }
  | serves (e rest) : d.control = .canWriteLoop → d.writeBlockedList.entries = e :: rest →
    Change R d { d with writeBlockedList := d.writeBlockedList.popFront, control := e.1.onCanWrite }
  | resumes (s) : d.control = .connectionOnCanWrite s → Change R d { d with control := .canWriteLoop }
  | drained : d.pendingPacketsQueue = [] → Change R d { d with control := .canWriteLoop }
  | stalls : Change R d { d with
      writeBlocked := true
      writeBlockedList := d.writeBlockedList.insert .timeWaitListManager true
      control := .canWriteLoop }
  | flushes (p rest) : d.control = .timeWaitOnCanWrite → d.pendingPacketsQueue = p :: rest →
    Change R d { d with written := d.written ++ [p], pendingPacketsQueue := rest }
  | sends (p) : d.control = .idle → d.writeBlocked = false →
    Change R d { d with generated := d.generated ++ [p], written := d.written ++ [p] }
  | queues (p) : d.control = .idle → Change R d { d with
      writeBlocked := true
      writeBlockedList := d.writeBlockedList.insert .timeWaitListManager true
      generated := d.generated ++ [p]
      pendingPacketsQueue := d.pendingPacketsQueue ++ [p] }
  | blocks : Change R d { d with writeBlocked := true }
  | reportsBlocked (s x) : d.sessions s = some x → R x → d.writeBlocked = true →
    Change R d { d with writeBlockedList := d.writeBlockedList.insert (.connection s) true }
  | waits (id version p l) : id ∉ d.sessionMap.keys →
    d.timeWaitList.addConnectionIdToTimeWait d.maxConnections d.approximateNow id version p = .ok l →
    Change R d { d with timeWaitList := l }
  | expires : Change R d d.cleanUpOldConnectionIds
  | counts (id) : Change R d { d with timeWaitList := d.timeWaitList.countPacket id }
  | rehashes (es) (h : es.Perm d.sessionMap.entries) :
    Change R d { d with sessionMap := d.sessionMap.reorder es h }
  | opens (id version) : id ∉ d.sessionMap.keys → id ∉ d.timeWaitList.connectionIdMap.keys →
    Change R d (d.opened id ⟨id,version,none,true⟩)
  | changes (s x version p) : d.sessions s = some x →
    Change R d (d.writeSession s { x with version := version, connectionClosePacket := p })
  | disconnects (s x) : d.sessions s = some x → R x → x.connectionId ∉ d.sessionMap.keys →
    Change R d (d.writeSession s { x with connected := false })
  | closes (s x s' y alarm l) : d.sessions s = some x → R x →
    d.sessionMap.find x.connectionId = some s' →
    (d.writeSession s { x with connected := false }).sessions s' = some y →
    (d.closedSessionList = [] → alarm ≠ 0) →
    (d.closedSessionList ≠ [] → alarm = d.deleteSessionsAlarm) →
    d.timeWaitList.addConnectionIdToTimeWait d.maxConnections d.approximateNow x.connectionId
      y.version y.connectionClosePacket = .ok l →
    Change R d ((d.writeSession s { x with connected := false }).closed x.connectionId s' y alarm l)
  | deletes (alarm) : Change R d (d.cleared alarm)

abbrev Changes (R : QuicServerSession → Prop) : Dispatcher → Dispatcher → Prop :=
  Relation.ReflTransGen (Change R)

variable {R : QuicServerSession → Prop} {d d' : Dispatcher}

theorem isSome_update {f : SessionId → Option QuicServerSession} {s t : SessionId}
    {x : QuicServerSession} (h : (f t).isSome = true) :
    (Function.update f s (some x) t).isSome = true := by
  by_cases hts : t = s <;> simp [Function.update,hts,h]

theorem Changes.keeps {P : Dispatcher → Prop} (hP : ∀ {d d'}, P d → Change R d d' → P d')
    (h : Changes R d d') (hd : P d) : P d' := by
  induction h with
  | refl => exact hd
  | tail _ hs ih => exact hP ih hs

theorem Changes.of_note (version : QuicVersion) (now : ℤ) (calls : List DispatcherCall)
    (fatals : List DispatcherFatal) : Changes R d
      { d with framerVersion := version, approximateNow := now, calls := calls, fatals := fatals } :=
  .single (.notes version now calls fatals)

theorem changes_call (c : DispatcherCall) : Changes R d (d.call c) :=
  .of_note d.framerVersion d.approximateNow _ d.fatals

theorem changes_fatal (e : DispatcherFatal) : Changes R d (d.fatal e) :=
  .of_note d.framerVersion d.approximateNow d.calls _

theorem writePacket_changes {status : WriteStatus} (h : d.writePacket status = .ok d') :
    Changes R d d' := by
  unfold writePacket at h
  split_ifs at h with h₁ h₂
  · cases h
    exact .single .blocks
  · cases h
    exact .refl

theorem writeToWire_ok (p : QueuedPacket) (status : WriteStatus) :
    ∃ r, d.writeToWire p status = .ok r := by
  cases hb : d.writeBlocked with
  | true => simp [writeToWire,hb]
  | false =>
    by_cases hs : status = .blocked
    · simp [writeToWire,hb,hs,writePacket,isWriteBlockedDataBuffered]
    · simp [writeToWire,hb,hs,writePacket]

/-- `WriteToWire` is done with the packet, or the writer is blocked and the manager
waits for it. -/
theorem writeToWire_cases {p : QueuedPacket} {status : WriteStatus} {b : Bool}
    (h : d.writeToWire p status = .ok (d',b)) :
    (b = true ∧ d.writeBlocked = false ∧ d' = { d with written := d.written ++ [p] }) ∨
    (b = false ∧ d' = { d with
      writeBlocked := true
      writeBlockedList := d.writeBlockedList.insert .timeWaitListManager true }) := by
  cases hb : d.writeBlocked with
  | true =>
    simp only [writeToWire,hb,onWriteBlocked,if_true] at h
    cases h
    exact Or.inr ⟨rfl,by rw [← hb]⟩
  | false =>
    by_cases hs : status = .blocked
    · simp [writeToWire,hb,hs,writePacket,onWriteBlocked,isWriteBlockedDataBuffered] at h
      obtain ⟨rfl,rfl⟩ := h
      exact Or.inr ⟨rfl,rfl⟩
    · simp [writeToWire,hb,hs,writePacket] at h
      obtain ⟨rfl,rfl⟩ := h
      exact Or.inl ⟨rfl,rfl,rfl⟩

theorem sendOrQueuePacket_changes {p : QueuedPacket} {status : WriteStatus} (hc : d.control = .idle)
    (h : d.sendOrQueuePacket p status = .ok d') : Changes R d d' := by
  obtain ⟨⟨d₁,b⟩,h₁,h⟩ := except_bind_eq_ok h
  rcases writeToWire_cases h₁ with ⟨rfl,hb,rfl⟩ | ⟨rfl,rfl⟩
  · cases h
    exact .single (.sends p hc hb)
  · cases h
    exact .single (.queues p hc)

theorem timeWaitProcessPacket_changes {server client : IPEndPoint} {id : ConnectionId} {n : ℕ}
    {status : WriteStatus} (hc : d.control = .idle)
    (h : d.timeWaitProcessPacket server client id n status = .ok d') : Changes R d d' := by
  refine .trans (changes_call (.timeWaitProcessPacket id)) ?_
  simp only [timeWaitProcessPacket] at h
  split at h
  · cases h
  · refine .head (.counts id) ?_
    split_ifs at h with hsend
    · split at h
      · exact sendOrQueuePacket_changes hc h
      · exact sendOrQueuePacket_changes hc h
    · cases h
      exact .refl

theorem addConnectionIdToTimeWait_cases {id : ConnectionId} {version : QuicVersion}
    {p : Option PacketId} (h : d.addConnectionIdToTimeWait id version p = .ok d') :
    ∃ l, d.timeWaitList.addConnectionIdToTimeWait d.maxConnections d.approximateNow id version p =
      .ok l ∧ d' = { d with timeWaitList := l } := by
  obtain ⟨l,hl,h⟩ := except_bind_eq_ok h
  cases h
  exact ⟨l,hl,rfl⟩

theorem addUnknownToTimeWait_cases {id : ConnectionId} {version : QuicVersion}
    (h : d.addUnknownToTimeWait id version = .ok d') :
    ∃ l, d.timeWaitList.addConnectionIdToTimeWait d.maxConnections d.approximateNow id version none =
      .ok l ∧ d' = { d with timeWaitList := l } ∧ l.isConnectionIdInTimeWait id = true := by
  obtain ⟨d₁,h₁,h⟩ := except_bind_eq_ok h
  obtain ⟨l,hl,rfl⟩ := addConnectionIdToTimeWait_cases h₁
  split_ifs at h with hin
  cases h
  exact ⟨l,hl,rfl,hin⟩

theorem handlePacketForTimeWait_cases {header : QuicPacketPublicHeader} {b : Bool}
    (h : d.handlePacketForTimeWait header = .ok (d',b)) :
    ∃ version, d' = { d with framerVersion := version } := by
  unfold handlePacketForTimeWait at h
  split_ifs at h
  · cases h
    exact ⟨d.framerVersion,rfl⟩
  · obtain ⟨version,_,h⟩ := except_bind_eq_ok h
    cases h
    exact ⟨version,rfl⟩

theorem handlePacketForTimeWait_changes {header : QuicPacketPublicHeader} {b : Bool}
    (h : d.handlePacketForTimeWait header = .ok (d',b)) : Changes R d d' := by
  obtain ⟨version,rfl⟩ := handlePacketForTimeWait_cases h
  exact .of_note version d.approximateNow d.calls d.fatals

theorem processUdpPacket_changes {session : SessionId} {b : Bool}
    (hc : d.control.inCanWrite = false) (h : d.processUdpPacket session = .ok (d',b)) :
    Changes R d d' ∧ b = false := by
  unfold processUdpPacket at h
  split at h
  · cases h
  · cases h
    exact ⟨.tail (changes_call (.processUdpPacket session)) (.moves _ hc rfl),rfl⟩

theorem additionalValidityChecks_changes {header : QuicPacketPublicHeader} {succeeds : Bool}
    {o : Option SessionId} (hmap : header.connectionId ∉ d.sessionMap.keys)
    (hwait : header.connectionId ∉ d.timeWaitList.connectionIdMap.keys)
    (h : d.additionalValidityChecksThenCreateSession header succeeds = .ok (d',o)) :
    Changes R d d' ∧ d'.control = d.control := by
  cases succeeds with
  | true =>
    cases h
    exact ⟨.tail (changes_call (.createQuicSession header.connectionId))
      (.opens header.connectionId _ hmap hwait),rfl⟩
  | false =>
    simp only [additionalValidityChecksThenCreateSession,createQuicSession,Bool.false_eq_true,
      if_false] at h
    split_ifs at h
    · obtain ⟨d₁,h₁,h⟩ := except_bind_eq_ok h
      obtain ⟨⟨d₂,b⟩,h₂,h⟩ := except_bind_eq_ok h
      cases h
      obtain ⟨l,hl,rfl,_⟩ := addUnknownToTimeWait_cases h₁
      obtain ⟨version,rfl⟩ := handlePacketForTimeWait_cases h₂
      exact ⟨((changes_call (.createQuicSession header.connectionId)).tail
        (.waits _ _ _ l hmap hl)).trans (handlePacketForTimeWait_changes h₂),rfl⟩
    · cases h
      exact ⟨changes_call _,rfl⟩

theorem onUnauthenticatedPublicHeader_changes {client : IPEndPoint} {header : QuicPacketPublicHeader}
    {succeeds b : Bool} (hc : d.control = .idle)
    (h : d.onUnauthenticatedPublicHeader client header succeeds = .ok (d',b)) :
    Changes R d d' ∧ (b = true → d'.control = .idle) := by
  have hout : d.control.inCanWrite = false := by simp [hc,DispatcherControl.inCanWrite]
  by_cases hport : client.port = 0
  · rw [onUnauthenticatedPublicHeader,if_pos hport] at h
    cases h
    exact ⟨.refl,fun _ => hc⟩
  rw [onUnauthenticatedPublicHeader,if_neg hport] at h
  cases hfind : d.sessionMap.find header.connectionId with
  | some session =>
    rw [hfind] at h
    obtain ⟨h₁,h₂⟩ := processUdpPacket_changes hout h
    exact ⟨h₁,by simp [h₂]⟩
  | none =>
    have hmap := LinkedHashMap.find_eq_none.mp hfind
    simp only [hfind] at h
    split_ifs at h with hwait hreset hflag
    · obtain ⟨version,rfl⟩ := handlePacketForTimeWait_cases h
      exact ⟨handlePacketForTimeWait_changes h,fun _ => hc⟩
    · cases h
      exact ⟨.refl,fun _ => hc⟩
    · split at h
      · cases h
      · obtain ⟨d₁,h₁,h⟩ := except_bind_eq_ok h
        obtain ⟨l,hl,rfl,_⟩ := addUnknownToTimeWait_cases h₁
        refine ⟨.head (.waits _ _ _ l hmap hl) (handlePacketForTimeWait_changes h),fun _ => ?_⟩
        obtain ⟨version,rfl⟩ := handlePacketForTimeWait_cases h
        exact hc
    · obtain ⟨⟨d₁,o⟩,h₁,h⟩ := except_bind_eq_ok h
      have hwait : header.connectionId ∉ d.timeWaitList.connectionIdMap.keys := by
        simpa [TimeWaitList.isConnectionIdInTimeWait,LinkedHashMap.contains] using hwait
      obtain ⟨h₂,h₃⟩ := additionalValidityChecks_changes (R:=R) hmap hwait h₁
      cases o with
      | none =>
        cases h
        exact ⟨h₂,fun _ => h₃.trans hc⟩
      | some session =>
        obtain ⟨h₄,h₅⟩ := processUdpPacket_changes (R:=R) (by rw [h₃]; exact hout) h
        exact ⟨h₂.trans h₄,by simp [h₅]⟩

theorem framerParsesHeader_changes {server client : IPEndPoint} {header : QuicPacketPublicHeader}
    {n : Option ℕ} {status : WriteStatus} (hc : d.control = .idle)
    (h : d.framerParsesHeader server client header n status = .ok d') : Changes R d d' := by
  unfold framerParsesHeader at h
  split_ifs at h
  cases n with
  | none =>
    cases h
    exact .refl
  | some n =>
    simp only [onUnauthenticatedHeader] at h
    split_ifs at h
    exact timeWaitProcessPacket_changes hc h

theorem framerContinues_changes {server client : IPEndPoint} {header : QuicPacketPublicHeader}
    {n : Option ℕ} {status : WriteStatus} (hc : d.control = .idle)
    (h : d.framerContinues server client header n status = .ok d') : Changes R d d' := by
  unfold framerContinues at h
  split_ifs at h
  · unfold onProtocolVersionMismatch at h
    split_ifs at h
    · exact framerParsesHeader_changes hc h
    · cases h
      exact changes_fatal _
  · exact framerParsesHeader_changes hc h

theorem processPacket_changes {server client : IPEndPoint} {packet : QuicEncryptedPacket}
    {succeeds : Bool} {status : WriteStatus} (hc : d.control = .idle)
    (h : d.processPacket server client packet succeeds status = .ok d') : Changes R d d' := by
  unfold processPacket at h
  split at h
  · cases h
    exact .refl
  · obtain ⟨⟨d₁,b⟩,h₁,h⟩ := except_bind_eq_ok h
    obtain ⟨h₂,h₃⟩ := onUnauthenticatedPublicHeader_changes (R:=R) hc h₁
    cases b with
    | true => exact h₂.trans (framerContinues_changes (h₃ rfl) h)
    | false =>
      cases h
      exact h₂

theorem onConnectionClosed_cases {id : ConnectionId} {session : SessionId}
    (hfind : d.sessionMap.find id = some session) (h : d.onConnectionClosed id = .ok d') :
    ∃ x alarm l, d.sessions session = some x ∧ (d.closedSessionList = [] → alarm ≠ 0) ∧
      (d.closedSessionList ≠ [] → alarm = d.deleteSessionsAlarm) ∧
      d.timeWaitList.addConnectionIdToTimeWait d.maxConnections d.approximateNow id x.version
        x.connectionClosePacket = .ok l ∧ d' = d.closed id session x alarm l := by
  simp only [onConnectionClosed,hfind] at h
  obtain ⟨d₁,h₁,h⟩ := except_bind_eq_ok h
  obtain ⟨alarm,halarm,hsame,rfl⟩ : ∃ alarm, (d.closedSessionList = [] → alarm ≠ 0) ∧
      (d.closedSessionList ≠ [] → alarm = d.deleteSessionsAlarm) ∧
      d₁ = { d with deleteSessionsAlarm := alarm } := by
    cases he : d.closedSessionList with
    | nil =>
      simp only [setDeleteSessionsAlarm,he,List.isEmpty_nil,if_true] at h₁
      split_ifs at h₁ with hnow
      cases h₁
      exact ⟨d.approximateNow,fun _ => hnow,fun hne => absurd rfl hne,by rw [← he]⟩
    | cons s ss =>
      simp only [setDeleteSessionsAlarm,he,List.isEmpty_cons,Bool.false_eq_true,if_false] at h₁
      cases h₁
      exact ⟨d.deleteSessionsAlarm,by simp,fun _ => rfl,by rw [← he]⟩
  unfold cleanUpSession at h
  split at h
  · cases h
  · rename_i x hx
    obtain ⟨d₂,h₂,h⟩ := except_bind_eq_ok h
    obtain ⟨l,hl,rfl⟩ := addConnectionIdToTimeWait_cases h₂
    cases h
    exact ⟨x,alarm,l,hx,halarm,hsame,hl,rfl⟩

theorem sessionOnConnectionClosed_changes {s : SessionId} {x : QuicServerSession}
    (hx : d.sessions s = some x) (hR : R x)
    (h : (d.writeSession s { x with connected := false }).onConnectionClosed x.connectionId = .ok d') :
    Changes R d d' := by
  cases hfind : d.sessionMap.find x.connectionId with
  | none =>
    have hmap := LinkedHashMap.find_eq_none.mp hfind
    have hfind' : (d.writeSession s { x with connected := false }).sessionMap.find x.connectionId =
      none := hfind
    simp only [onConnectionClosed,hfind'] at h
    cases h
    exact .head (.disconnects s x hx hR hmap) (changes_fatal _)
  | some s' =>
    obtain ⟨y,alarm,l,hy,halarm,hsame,hl,rfl⟩ := onConnectionClosed_cases
      (d:=d.writeSession s { x with connected := false }) hfind h
    exact .single (.closes s x s' y alarm l hx hR hfind hy halarm hsame hl)

theorem deleteElements_ok {ss : List SessionId} (h : d.deleteElements ss = .ok d') :
    d' = { d with
      sessions := fun s => if s ∈ ss then none else d.sessions s
      deleted := d.deleted ++ ss } := by
  induction ss generalizing d with
  | nil =>
    cases h
    simp
  | cons s ss ih =>
    obtain ⟨d₁,h₁,h⟩ := except_bind_eq_ok h
    unfold deleteSession at h₁
    split at h₁
    · cases h₁
    · cases h₁
      rw [ih h]
      simp only [List.append_assoc,List.singleton_append,List.mem_cons,mk.injEq,true_and,and_true]
      funext t
      by_cases ht : t = s
      · simp [ht]
      · simp [ht]

theorem deleteSessions_ok (h : d.deleteSessions = .ok d') : d' = d.cleared d.deleteSessionsAlarm := by
  obtain ⟨d₁,h₁,h⟩ := except_bind_eq_ok h
  cases h
  rw [deleteElements_ok h₁]
  rfl

theorem timeWaitOnCanWrite_ok (status : WriteStatus) : ∃ d', d.timeWaitOnCanWrite status = .ok d' := by
  unfold timeWaitOnCanWrite
  split
  · exact ⟨_,rfl⟩
  · rename_i p rest _
    obtain ⟨⟨d₁,b⟩,h₁⟩ := writeToWire_ok (d:=d) p status
    rw [h₁,except_ok_bind]
    cases b with
    | true => exact ⟨_,rfl⟩
    | false => exact ⟨_,rfl⟩

/-- One turn of the time-wait list manager: the queue is empty, a packet is sent, or the
writer is blocked and the manager waits again. -/
theorem timeWaitOnCanWrite_cases {status : WriteStatus} (h : d.timeWaitOnCanWrite status = .ok d') :
    (d.pendingPacketsQueue = [] ∧ d' = { d with control := .canWriteLoop }) ∨
    (∃ p rest, d.pendingPacketsQueue = p :: rest ∧
      d' = { d with written := d.written ++ [p], pendingPacketsQueue := rest }) ∨
    (d.pendingPacketsQueue ≠ [] ∧ d' = { d with
      writeBlocked := true
      writeBlockedList := d.writeBlockedList.insert .timeWaitListManager true
      control := .canWriteLoop }) := by
  unfold timeWaitOnCanWrite at h
  split at h
  · rename_i hq
    cases h
    exact Or.inl ⟨hq,rfl⟩
  · rename_i p rest hq
    obtain ⟨⟨d₁,b⟩,h₁,h⟩ := except_bind_eq_ok h
    rcases writeToWire_cases h₁ with ⟨rfl,_,rfl⟩ | ⟨rfl,rfl⟩
    · cases h
      exact Or.inr (Or.inl ⟨p,rest,hq,rfl⟩)
    · cases h
      exact Or.inr (Or.inr ⟨by simp [hq],rfl⟩)

theorem timeWaitOnCanWrite_changes {status : WriteStatus} (hc : d.control = .timeWaitOnCanWrite)
    (h : d.timeWaitOnCanWrite status = .ok d') : Changes R d d' := by
  rcases timeWaitOnCanWrite_cases h with ⟨hq,rfl⟩ | ⟨p,rest,hq,rfl⟩ | ⟨_,rfl⟩
  · exact .single (.drained hq)
  · exact .single (.flushes p rest hc hq)
  · exact .single .stalls

theorem serveBlockedWriter_changes (hc : d.control = .canWriteLoop)
    (h : d.serveBlockedWriter = .ok d') : Changes R d d' := by
  unfold serveBlockedWriter at h
  split at h
  · rename_i he
    cases h
    exact .single (.stops hc (Or.inl he))
  · rename_i w b rest he
    split_ifs at h with hb
    · cases h
      exact .single (.stops hc (Or.inr hb))
    · cases w with
      | timeWaitListManager =>
        cases h
        exact .single (.serves _ rest hc he)
      | connection s =>
        simp only at h
        split at h
        · cases h
        · cases h
          exact .single (.serves _ rest hc he)

theorem closeFirstSession_changes (hc : d.control = .shutdownLoop)
    (h : d.closeFirstSession = .ok d') : Changes R d d' := by
  have hout : d.control.inCanWrite = false := by simp [hc,DispatcherControl.inCanWrite]
  unfold closeFirstSession at h
  split at h
  · obtain ⟨d₁,h₁,h⟩ := except_bind_eq_ok h
    obtain rfl := deleteSessions_ok h₁
    cases h
    exact .tail (.single (.deletes _)) (.moves _ hout rfl)
  · split at h
    · cases h
    · cases h
      exact .single (.moves _ hout rfl)

theorem returns_changes (h : d.returns = .ok d') : Changes R d d' := by
  unfold returns at h
  split at h
  · rename_i hc
    cases h
    exact .single (.moves _ (by simp [hc,DispatcherControl.inCanWrite]) rfl)
  · rename_i s hc
    cases h
    exact .single (.resumes s hc)
  · rename_i s hc
    split_ifs at h
    cases h
    exact .single (.moves _ (by simp [hc,DispatcherControl.inCanWrite]) rfl)
  · cases h
    exact .refl

def Event.reporter : Event → Option SessionId
  | .sessionOnWriteBlocked s => some s
  | .sessionOnConnectionClosed s => some s
  | _ => none

theorem withSession_ok {s : SessionId} {f : QuicServerSession → Except Abort Dispatcher}
    (h : d.withSession s f = .ok d') : ∃ x, d.sessions s = some x ∧ f x = .ok d' := by
  unfold withSession at h
  split at h
  · cases h
  · rename_i x hx
    exact ⟨x,hx,h⟩

theorem step_changes {e : Event} (he : d.admits e)
    (hR : ∀ s x, e.reporter = some s → d.sessions s = some x → R x) (h : d.step e = .ok d') :
    Changes R d d' := by
  cases e with
  | tick t =>
    cases h
    exact .of_note d.framerVersion t d.calls d.fatals
  | setMaxConnections m =>
    cases h
    exact .single (.limits m he)
  | processPacket server client packet succeeds status => exact processPacket_changes he h
  | onCanWrite =>
    cases h
    exact .single (.setsWritable he)
  | serveBlockedWriter => exact serveBlockedWriter_changes he h
  | timeWaitOnCanWrite status => exact timeWaitOnCanWrite_changes he h
  | cleanUpOldConnectionIds =>
    cases h
    exact .single .expires
  | deleteSessionsAlarm =>
    obtain rfl := deleteSessions_ok h
    exact .single (.deletes 0)
  | rehash es =>
    simp only [step,dif_pos he.2] at h
    cases h
    exact .single (.rehashes es he.2)
  | shutdown =>
    cases h
    exact .single (.moves _ (by simp [show d.control = .idle from he,DispatcherControl.inCanWrite]) rfl)
  | closeFirstSession => exact closeFirstSession_changes he h
  | returns => exact returns_changes h
  | connectionWrites s status =>
    obtain ⟨x,_,h⟩ := withSession_ok h
    exact writePacket_changes h
  | connectionChanges s version p =>
    obtain ⟨x,hx,h⟩ := withSession_ok h
    cases h
    exact .single (.changes s x version p hx)
  | sessionOnWriteBlocked s =>
    obtain ⟨x,hx,h⟩ := withSession_ok h
    cases h
    unfold onWriteBlocked
    split_ifs with hb
    · exact .single (.reportsBlocked s x hx (hR s x rfl hx) hb)
    · exact changes_fatal _
  | sessionOnConnectionClosed s =>
    obtain ⟨x,hx,h⟩ := withSession_ok h
    exact sessionOnConnectionClosed_changes hx (hR s x rfl hx) h

theorem keeps_of_run {P : Dispatcher → Prop}
    (hP : ∀ {d d'}, P d → Change (fun _ => True) d d' → P d') {es : List Event}
    (h : machine.Run d es d') (hd : P d) : P d' := by
  have hstep : ∀ {d e d'}, P d → machine.admits d e → machine.step d e = .ok d' → P d' :=
    fun hd he hs => (step_changes he (fun _ _ _ _ => trivial) hs).keeps hP hd
  exact h.invariant hstep hd

end Dispatcher
end CmuQuic
