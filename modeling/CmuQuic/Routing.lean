import CmuQuic.DispatcherSteps

/-! A connection id is in the session map or in time wait, never in both, and an id in
time wait leads to no session. -/
namespace CmuQuic
namespace Dispatcher

/-- The two maps are disjoint, and a trim always ends. -/
structure Separate (d : Dispatcher) : Prop where
  limit : d.maxConnections < 0 ∨ 1 ≤ d.maxConnections
  disjoint : ∀ id ∈ d.sessionMap.keys, id ∉ d.timeWaitList.connectionIdMap.keys

variable {R : QuicServerSession → Prop} {d d' : Dispatcher}

theorem Separate.change (h : Separate d) (hc : Change R d d') : Separate d' := by
  cases hc with
  | limits m hm => exact ⟨hm,h.disjoint⟩
  | waits id version p l hmap hl =>
    refine ⟨h.limit,fun x hx hl' => ?_⟩
    rcases (TimeWaitList.add_keys h.limit hl).1 x hl' with rfl | hold
    · exact hmap hx
    · exact h.disjoint x hx hold
  | expires => exact ⟨h.limit,fun x hx hl => h.disjoint x hx (TimeWaitList.keys_expireOldConnections _ hl)⟩
  | counts id =>
    refine ⟨h.limit,fun x hx hl => h.disjoint x hx ?_⟩
    simpa [TimeWaitList.countPacket] using hl
  | rehashes es hperm =>
    exact ⟨h.limit,fun x hx => h.disjoint x ((hperm.map Prod.fst).mem_iff.mp hx)⟩
  | opens id version hmap hwait =>
    refine ⟨h.limit,fun x hx => ?_⟩
    rcases LinkedHashMap.mem_keys_insert.mp hx with rfl | hx
    · exact hwait
    · exact h.disjoint x hx
  | closes s x s' y alarm l _ _ _ _ _ _ hl =>
    refine ⟨h.limit,fun z hz hl' => ?_⟩
    obtain ⟨hz,hne⟩ := LinkedHashMap.mem_keys_erase.mp hz
    rcases (TimeWaitList.add_keys h.limit hl).1 z hl' with rfl | hold
    · exact hne rfl
    · exact h.disjoint z hz hold
  | _ => exact ⟨h.limit,h.disjoint⟩

theorem sendOrQueuePacket_calls {p : QueuedPacket} {status : WriteStatus}
    (h : d.sendOrQueuePacket p status = .ok d') : d'.calls = d.calls ∧ d'.control = d.control := by
  obtain ⟨⟨d₁,b⟩,h₁,h⟩ := except_bind_eq_ok h
  rcases writeToWire_cases h₁ with ⟨rfl,_,rfl⟩ | ⟨rfl,rfl⟩
  · cases h
    exact ⟨rfl,rfl⟩
  · cases h
    exact ⟨rfl,rfl⟩

theorem timeWaitProcessPacket_calls {server client : IPEndPoint} {id : ConnectionId} {n : ℕ}
    {status : WriteStatus} (h : d.timeWaitProcessPacket server client id n status = .ok d') :
    d'.calls = d.calls ++ [.timeWaitProcessPacket id] ∧ d'.control = d.control := by
  simp only [timeWaitProcessPacket] at h
  split at h
  · cases h
  · split_ifs at h
    · split at h
      · exact sendOrQueuePacket_calls h
      · exact sendOrQueuePacket_calls h
    · cases h
      exact ⟨rfl,rfl⟩

/-- Nothing but the time-wait list manager is called with the packet. -/
def Refused (d : Dispatcher) (id : ConnectionId) (d' : Dispatcher) : Prop :=
  (d'.calls = d.calls ∨ d'.calls = d.calls ++ [.timeWaitProcessPacket id]) ∧ d'.control = d.control

theorem framerParsesHeader_refused {server client : IPEndPoint} {header : QuicPacketPublicHeader}
    {n : Option ℕ} {status : WriteStatus}
    (h : d.framerParsesHeader server client header n status = .ok d') :
    Refused d header.connectionId d' := by
  unfold framerParsesHeader at h
  split_ifs at h
  cases n with
  | none =>
    cases h
    exact ⟨Or.inl rfl,rfl⟩
  | some n =>
    simp only [onUnauthenticatedHeader] at h
    split_ifs at h
    obtain ⟨h₁,h₂⟩ := timeWaitProcessPacket_calls h
    exact ⟨Or.inr h₁,h₂⟩

theorem framerContinues_refused {server client : IPEndPoint} {header : QuicPacketPublicHeader}
    {n : Option ℕ} {status : WriteStatus}
    (h : d.framerContinues server client header n status = .ok d') :
    Refused d header.connectionId d' := by
  unfold framerContinues at h
  split_ifs at h
  · unfold onProtocolVersionMismatch at h
    split_ifs at h
    · exact framerParsesHeader_refused h
    · cases h
      exact ⟨Or.inl rfl,rfl⟩
  · exact framerParsesHeader_refused h

theorem Separate.processPacket_refused (hd : Separate d) {server client : IPEndPoint}
    {packet : QuicEncryptedPacket} {header : QuicPacketPublicHeader} {succeeds : Bool}
    {status : WriteStatus} (hp : packet.publicHeader = some header)
    (hwait : d.timeWaitList.isConnectionIdInTimeWait header.connectionId = true)
    (h : d.processPacket server client packet succeeds status = .ok d') :
    Refused d header.connectionId d' := by
  have hmem : header.connectionId ∈ d.timeWaitList.connectionIdMap.keys := by
    simpa [TimeWaitList.isConnectionIdInTimeWait,LinkedHashMap.contains] using hwait
  have hfind : d.sessionMap.find header.connectionId = none :=
    LinkedHashMap.find_eq_none.mpr fun hm => hd.disjoint _ hm hmem
  simp only [processPacket,hp] at h
  obtain ⟨⟨d₁,b⟩,h₁,h⟩ := except_bind_eq_ok h
  obtain ⟨version,rfl⟩ : ∃ version, d₁ = { d with framerVersion := version } := by
    simp only [onUnauthenticatedPublicHeader,hfind,hwait,if_true] at h₁
    split_ifs at h₁
    · cases h₁
      exact ⟨d.framerVersion,rfl⟩
    · exact handlePacketForTimeWait_cases h₁
  cases b with
  | true => exact framerContinues_refused (d:={ d with framerVersion := version }) h
  | false =>
    cases h
    exact ⟨Or.inl rfl,rfl⟩

/-- What holds of the ids in every state. -/
structure Routed (d : Dispatcher) : Prop where
  disjoint : ∀ id ∈ d.sessionMap.keys, d.timeWaitList.isConnectionIdInTimeWait id = false
  unique : d.sessionMap.keys.Nodup
  refused : ∀ server client packet header succeeds status d', packet.publicHeader = some header →
    d.timeWaitList.isConnectionIdInTimeWait header.connectionId = true →
    d.processPacket server client packet succeeds status = .ok d' →
    Refused d header.connectionId d'
  closed : ∀ s x session y d', d.sessions s = some x →
    d.sessionMap.find x.connectionId = some session → d.sessions session = some y →
    d.step (.sessionOnConnectionClosed s) = .ok d' →
    x.connectionId ∉ d'.sessionMap.keys ∧
    ∃ data, d'.timeWaitList.connectionIdMap.find x.connectionId = some data ∧
      data.version = y.version ∧ data.closePacket = y.connectionClosePacket

theorem Separate.closed (hd : Separate d) {s session : SessionId} {x y : QuicServerSession}
    (hx : d.sessions s = some x) (hfind : d.sessionMap.find x.connectionId = some session)
    (hy : d.sessions session = some y) (h : d.step (.sessionOnConnectionClosed s) = .ok d') :
    x.connectionId ∉ d'.sessionMap.keys ∧
      ∃ data, d'.timeWaitList.connectionIdMap.find x.connectionId = some data ∧
        data.version = y.version ∧ data.closePacket = y.connectionClosePacket := by
  obtain ⟨x',hx',h⟩ := withSession_ok h
  rw [hx] at hx'
  cases hx'
  obtain ⟨z,alarm,l,hz,_,_,hl,rfl⟩ := onConnectionClosed_cases
    (d:=d.writeSession s { x with connected := false }) hfind h
  have hzy : z.version = y.version ∧ z.connectionClosePacket = y.connectionClosePacket := by
    by_cases hs : session = s
    · subst hs
      rw [hx] at hy
      cases hy
      obtain rfl : _ = z := by simpa [writeSession] using hz
      exact ⟨rfl,rfl⟩
    · obtain rfl : y = z := by simpa [writeSession,hs,hy] using hz
      exact ⟨rfl,rfl⟩
  obtain ⟨data,hdata,hv,hp⟩ := (TimeWaitList.add_keys hd.limit hl).2
  refine ⟨?_,data,hdata,hv.trans hzy.1,hp.trans hzy.2⟩
  simp [Dispatcher.closed]

theorem Separate.routed (h : Separate d) : Routed d where
  disjoint id hid := by
    simpa [TimeWaitList.isConnectionIdInTimeWait,LinkedHashMap.contains] using h.disjoint id hid
  unique := d.sessionMap.nodup
  refused _ _ _ _ _ _ _ hp hwait hd' := h.processPacket_refused hp hwait hd'
  closed _ _ _ _ _ hx hfind hy hd' := h.closed hx hfind hy hd'

/-- In every state of every run the ids are routed, whatever the packets, the
closes, the alarms and the writes. -/
theorem routed_of_run {versions : List QuicVersion} {period max now : ℤ} {version : QuicVersion}
    (hmax : max < 0 ∨ 1 ≤ max) {es : List Event}
    (h : machine.Run (init versions period max now version) es d) : Routed d := by
  have hinit : Separate (init versions period max now version) := ⟨hmax,by simp [init,LinkedHashMap.keys,
    LinkedHashMap.empty]⟩
  have hsep : Separate d := keeps_of_run (fun hd hc => hd.change hc) h hinit
  exact hsep.routed

/-- A session is created and closes itself while it processes its packet; another id
without a version then takes its place in a time-wait list of one entry, and gets two
responses. -/
theorem routed_of_trimming_run : ∃ d, machine.Run (init [25,24] 200 1 100 25)
    [.processPacket ⟨1,443⟩ ⟨2,5000⟩ ⟨some ⟨7,false,true,24⟩,some 1⟩ true .ok,
      .connectionChanges 0 24 (some 9),.sessionOnConnectionClosed 0,.returns,
      .processPacket ⟨1,443⟩ ⟨2,5000⟩ ⟨some ⟨7,false,true,24⟩,some 2⟩ true .blocked,
      .processPacket ⟨1,443⟩ ⟨3,6000⟩ ⟨some ⟨8,false,false,0⟩,some 1⟩ true .ok,
      .deleteSessionsAlarm,.onCanWrite,.serveBlockedWriter,.timeWaitOnCanWrite .ok,
      .timeWaitOnCanWrite .ok,.timeWaitOnCanWrite .ok,.serveBlockedWriter,.shutdown,
      .closeFirstSession] d ∧ Routed d :=
  let ⟨d,hd⟩ := machine.exists_run_of_exec (by decide +kernel)
  ⟨d,hd,routed_of_run (by decide) hd⟩

end Dispatcher
end CmuQuic
