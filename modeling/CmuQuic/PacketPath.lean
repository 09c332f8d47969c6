import CmuQuic.Routing
import CmuQuic.TimeWaitManager

/-! What the dispatcher decides in one callback of the framer still holds in the later
callbacks for the same packet: no assertion on the way of a packet fails. -/
namespace CmuQuic
namespace Dispatcher

/-- The sessions in the map and those that wait for their deletion are different, live
objects. -/
structure Alive (d : Dispatcher) : Prop where
  nodup : (d.sessionMap.entries.map Prod.snd ++ d.closedSessionList).Nodup
  alive : ∀ s ∈ d.sessionMap.entries.map Prod.snd ++ d.closedSessionList,
    (d.sessions s).isSome = true
  old : ∀ s ∈ d.sessionMap.entries.map Prod.snd ++ d.closedSessionList, s < d.created

variable {R : QuicServerSession → Prop} {d d' : Dispatcher}

theorem Alive.perm (h : Alive d) (hsessions : ∀ s, (d.sessions s).isSome = true →
      (d'.sessions s).isSome = true) (hcreated : d'.created = d.created)
    (hp : (d'.sessionMap.entries.map Prod.snd ++ d'.closedSessionList).Perm
      (d.sessionMap.entries.map Prod.snd ++ d.closedSessionList)) : Alive d' where
  nodup := hp.nodup_iff.mpr h.nodup
  alive s hs := hsessions s (h.alive s (hp.mem_iff.mp hs))
  old s hs := hcreated ▸ h.old s (hp.mem_iff.mp hs)

theorem Alive.opened (h : Alive d) {id : ConnectionId} {x : QuicServerSession}
    (hid : id ∉ d.sessionMap.keys) : Alive (d.opened id x) := by
  have hentries : (d.sessionMap.insert id d.created).entries = d.sessionMap.entries ++ [(id,d.created)] :=
    LinkedHashMap.entries_insert hid
  have hp : ((d.opened id x).sessionMap.entries.map Prod.snd ++ d.closedSessionList).Perm
      (d.created :: (d.sessionMap.entries.map Prod.snd ++ d.closedSessionList)) := by
    simp only [Dispatcher.opened,hentries,List.map_append,List.map_cons,List.map_nil,
      List.append_assoc,List.singleton_append]
    exact List.perm_middle
  refine ⟨hp.nodup_iff.mpr (List.nodup_cons.mpr ⟨fun hm => ?_,h.nodup⟩),fun s hs => ?_,fun s hs => ?_⟩
  · exact Nat.lt_irrefl _ (h.old _ hm)
  · rcases List.mem_cons.mp (hp.mem_iff.mp hs) with rfl | hs
    · simp [Dispatcher.opened]
    · exact isSome_update (h.alive s hs)
  · show s < d.created+1
    rcases List.mem_cons.mp (hp.mem_iff.mp hs) with rfl | hs
    · exact Nat.lt_succ_self _
    · exact Nat.lt_succ_of_lt (h.old s hs)

theorem Alive.closed (h : Alive d) {id : ConnectionId} {s : SessionId} {x : QuicServerSession}
    {alarm : ℤ} {l : TimeWaitList} (hfind : d.sessionMap.find id = some s) :
    Alive (d.closed id s x alarm l) := by
  refine h.perm (fun t ht => isSome_update ht) rfl ?_
  have hp := (LinkedHashMap.perm_erase (LinkedHashMap.find_eq_some.mp hfind)).map Prod.snd
  refine .trans ?_ (hp.append_right d.closedSessionList)
  show ((d.sessionMap.erase id).entries.map Prod.snd ++ (d.closedSessionList ++ [s])).Perm _
  rw [← List.append_assoc]
  exact List.perm_append_comm

theorem Alive.cleared (h : Alive d) (alarm : ℤ) : Alive (d.cleared alarm) := by
  obtain ⟨hlive,_,hdisjoint⟩ := List.nodup_append.mp h.nodup
  have hlist : (d.cleared alarm).sessionMap.entries.map Prod.snd ++ (d.cleared alarm).closedSessionList =
      d.sessionMap.entries.map Prod.snd := List.append_nil _
  refine ⟨?_,fun s hs => ?_,fun s hs => ?_⟩
  · rw [hlist]
    exact hlive
  · rw [hlist] at hs
    have hopen : s ∉ d.closedSessionList := fun hc => hdisjoint s hs s hc rfl
    simpa [Dispatcher.cleared,hopen] using h.alive s (List.mem_append_left _ hs)
  · rw [hlist] at hs
    exact h.old s (List.mem_append_left _ hs)

theorem Alive.change (h : Alive d) (hc : Change R d d') : Alive d' := by
  cases hc with
  | rehashes es hperm =>
    exact h.perm (fun _ hs => hs) rfl ((hperm.map Prod.snd).append_right _)
  | opens id version hid => exact h.opened hid
  | changes s x version p => exact h.perm (fun t ht => isSome_update ht) rfl (.refl _)
  | disconnects s x => exact h.perm (fun t ht => isSome_update ht) rfl (.refl _)
  | closes s x s' y alarm l _ _ hfind =>
    have hw : Alive (d.writeSession s { x with connected := false }) :=
      h.perm (fun t ht => isSome_update ht) rfl (.refl _)
    exact hw.closed hfind
  | deletes alarm => exact h.cleared alarm
  | _ => exact h.perm (fun _ hs => hs) rfl (.refl _)

theorem Alive.of_find (h : Alive d) {id : ConnectionId} {s : SessionId}
    (hfind : d.sessionMap.find id = some s) : ∃ x, d.sessions s = some x := by
  have hmem : s ∈ d.sessionMap.entries.map Prod.snd :=
    List.mem_map_of_mem (f:=Prod.snd) (LinkedHashMap.find_eq_some.mp hfind)
  exact Option.isSome_iff_exists.mp (h.alive s (List.mem_append_left _ hmem))

section TimeWaitListManager

theorem sendOrQueuePacket_ok (p : QueuedPacket) (status : WriteStatus) :
    ∃ d', d.sendOrQueuePacket p status = .ok d' ∧ d'.fatals = d.fatals ∧ d'.calls = d.calls := by
  obtain ⟨⟨d₁,b⟩,h₁⟩ := writeToWire_ok (d:={ d with generated := d.generated ++ [p] }) p status
  simp only [sendOrQueuePacket,h₁,except_ok_bind]
  rcases writeToWire_cases h₁ with ⟨rfl,_,rfl⟩ | ⟨rfl,rfl⟩
  · exact ⟨_,rfl,rfl,rfl⟩
  · exact ⟨_,rfl,rfl,rfl⟩

theorem timeWaitProcessPacket_ok {id : ConnectionId} {data : ConnectionIdData}
    (hf : d.timeWaitList.connectionIdMap.find id = some data) (server client : IPEndPoint) (n : ℕ)
    (status : WriteStatus) : ∃ d', d.timeWaitProcessPacket server client id n status = .ok d' ∧
      d'.fatals = d.fatals ∧ d'.calls = d.calls ++ [.timeWaitProcessPacket id] := by
  have hf' : (d.call (.timeWaitProcessPacket id)).timeWaitList.connectionIdMap.find id = some data := hf
  simp only [timeWaitProcessPacket,hf']
  split_ifs
  · split
    · exact sendOrQueuePacket_ok _ status
    · exact sendOrQueuePacket_ok _ status
  · exact ⟨_,rfl,rfl,rfl⟩

end TimeWaitListManager

def timeWaitCalls (header : QuicPacketPublicHeader) (n : Option ℕ) : List DispatcherCall :=
  if header.resetFlag = false ∧ n.isSome then [.timeWaitProcessPacket header.connectionId] else []

theorem framerParsesHeader_ok {header : QuicPacketPublicHeader} {data : ConnectionIdData}
    (hf : d.timeWaitList.connectionIdMap.find header.connectionId = some data)
    (hr : header.resetFlag = false) (server client : IPEndPoint) (n : Option ℕ)
    (status : WriteStatus) : ∃ d', d.framerParsesHeader server client header n status = .ok d' ∧
      d'.fatals = d.fatals ∧ d'.calls = d.calls ++ timeWaitCalls header n := by
  have hin : d.timeWaitList.isConnectionIdInTimeWait header.connectionId = true :=
    decide_eq_true (List.mem_map_of_mem (f:=Prod.fst) (LinkedHashMap.find_eq_some.mp hf))
  cases n with
  | none => exact ⟨d,by simp [framerParsesHeader,hr],rfl,by simp [timeWaitCalls]⟩
  | some n =>
    obtain ⟨d',h₁,h₂,h₃⟩ := timeWaitProcessPacket_ok hf server client n status
    exact ⟨d',by simp [framerParsesHeader,hr,onUnauthenticatedHeader,hin,h₁],h₂,
      by simp [timeWaitCalls,hr,h₃]⟩

/-- A packet for an id in the list: the framer goes on only with what is no reset, a
version mismatch is accepted, and the list is asked for an id that it has. -/
theorem timeWaitPacket_ok {header : QuicPacketPublicHeader} {data : ConnectionIdData}
    (hf : d.timeWaitList.connectionIdMap.find header.connectionId = some data)
    (server client : IPEndPoint) (n : Option ℕ) (status : WriteStatus) :
    ∃ d₁ b d', d.handlePacketForTimeWait header = .ok (d₁,b) ∧
      (if b then d₁.framerContinues server client header n status else .ok d₁) = .ok d' ∧
      d'.fatals = d.fatals ∧ d'.calls = d.calls ++ timeWaitCalls header n := by
  cases hr : header.resetFlag with
  | true =>
    exact ⟨d,false,d,by simp [handlePacketForTimeWait,hr],rfl,rfl,by simp [timeWaitCalls,hr]⟩
  | false =>
    have hf' : ({ d with framerVersion := data.version } :
      Dispatcher).timeWaitList.connectionIdMap.find header.connectionId = some data := hf
    have hin : d.timeWaitList.isConnectionIdInTimeWait header.connectionId = true :=
      decide_eq_true (List.mem_map_of_mem (f:=Prod.fst) (LinkedHashMap.find_eq_some.mp hf))
    obtain ⟨d',h₁,h₂,h₃⟩ := framerParsesHeader_ok hf' hr server client n status
    refine ⟨{ d with framerVersion := data.version },true,d',?_,?_,h₂,h₃⟩
    · simp [handlePacketForTimeWait,hr,getQuicVersionFromConnectionId,hf]
    rw [if_pos rfl]
    unfold framerContinues
    split_ifs
    · simp only [onProtocolVersionMismatch,hin,if_true]
      exact h₁
    · exact h₁

/-- There are more entries than a negative limit stands for as a `size_t`. An addition
then fails its own check of the limit. -/
def Overfull (d : Dispatcher) : Prop :=
  d.maxConnections < 0 ∧ TimeWaitList.toSizeT d.maxConnections ≤ d.timeWaitList.numConnections

theorem add_total {l : TimeWaitList} {max : ℤ} (hmax : max < 0 ∨ 1 ≤ max) (hint : max < 2^63)
    {id : ConnectionId} (hid : id ∉ l.connectionIdMap.keys) (now : ℤ) (version : QuicVersion)
    (p : Option PacketId) :
    (∃ l', l.addConnectionIdToTimeWait max now id version p = .ok l') ∨
    (l.addConnectionIdToTimeWait max now id version p = .error .dcheck ∧ max < 0 ∧
      TimeWaitList.toSizeT max ≤ l.numConnections) := by
  rcases hmax with hneg | hpos
  · have herase : l.eraseRecord id = l := by
      simp [TimeWaitList.eraseRecord,LinkedHashMap.find_eq_none.mpr hid]
    have htrim : l.trimTimeWaitListIfNeeded max = .ok l := by
      simp [TimeWaitList.trimTimeWaitListIfNeeded,hneg]
    simp only [TimeWaitList.addConnectionIdToTimeWait,herase,htrim,except_ok_bind]
    by_cases hroom : (l.numConnections : ℤ) < TimeWaitList.toSizeT max
    · rw [if_pos hroom]
      exact Or.inl ⟨_,rfl⟩
    · rw [if_neg hroom]
      exact Or.inr ⟨rfl,hneg,not_lt.mp hroom⟩
  · obtain ⟨m,rfl⟩ : ∃ m : ℕ, max = m+1 := ⟨(max-1).toNat,by omega⟩
    obtain ⟨l',hl,_⟩ := l.add_length hint now id version p
    exact Or.inl ⟨l',hl⟩

theorem addUnknownToTimeWait_total (hs : Separate d) (hint : d.maxConnections < 2^63)
    {id : ConnectionId} (hid : id ∉ d.timeWaitList.connectionIdMap.keys) (version : QuicVersion) :
    (∃ l data d₁, d.addUnknownToTimeWait id version = .ok d₁ ∧ d₁ = { d with timeWaitList := l } ∧
      d₁.timeWaitList.connectionIdMap.find id = some data) ∨
    (d.addUnknownToTimeWait id version = .error .dcheck ∧ Overfull d) := by
  rcases add_total hs.limit hint hid d.approximateNow version none with ⟨l,hl⟩ | ⟨hl,hfull⟩
  · obtain ⟨data,hdata,_⟩ := (TimeWaitList.add_keys hs.limit hl).2
    have hin : l.isConnectionIdInTimeWait id = true :=
      decide_eq_true (List.mem_map_of_mem (f:=Prod.fst) (LinkedHashMap.find_eq_some.mp hdata))
    exact Or.inl ⟨l,data,{ d with timeWaitList := l },
      by simp [addUnknownToTimeWait,addConnectionIdToTimeWait,hl,hin],rfl,hdata⟩
  · exact Or.inr ⟨by simp [addUnknownToTimeWait,addConnectionIdToTimeWait,hl,bind,Except.bind],hfull⟩

/-- A packet whose header can be parsed reaches the time-wait list manager unless it has
no port to answer to, is a reset or belongs to a session; its id is in time wait, or
comes into it because the packet has no version. -/
def ReachesTimeWait (d : Dispatcher) (client : IPEndPoint) (header : QuicPacketPublicHeader)
    (n : Option ℕ) : Prop :=
  client.port ≠ 0 ∧ header.connectionId ∉ d.sessionMap.keys ∧
  (header.connectionId ∈ d.timeWaitList.connectionIdMap.keys ∨ header.versionFlag = false) ∧
  header.resetFlag = false ∧ n.isSome = true

/-- A packet was handled without an assertion, and the time-wait list manager was
called with it if it should be. -/
structure Handled (d : Dispatcher) (client : IPEndPoint) (header : QuicPacketPublicHeader)
    (n : Option ℕ) (d' : Dispatcher) : Prop where
  fatals : d'.fatals = d.fatals
  reached : ∃ made, d'.calls = d.calls ++ made ∧ ∀ id, .timeWaitProcessPacket id ∈ made ↔
    id = header.connectionId ∧ ReachesTimeWait d client header n

theorem mem_timeWaitCalls {header : QuicPacketPublicHeader} {n : Option ℕ} {id : ConnectionId} :
    .timeWaitProcessPacket id ∈ timeWaitCalls header n ↔
      id = header.connectionId ∧ header.resetFlag = false ∧ n.isSome = true := by
  unfold timeWaitCalls
  split_ifs with h <;> simp [h]

theorem supportedVersions_change (hc : Change R d d') :
    d'.supportedVersions = d.supportedVersions := by
  cases hc <;> rfl

section

variable {server client : IPEndPoint} {header : QuicPacketPublicHeader} {n : Option ℕ}
  {succeeds : Bool} {status : WriteStatus}

theorem processPacket_eq : d.processPacket server client ⟨some header,n⟩ succeeds status =
    (d.onUnauthenticatedPublicHeader client header succeeds >>= fun r =>
      if r.2 then r.1.framerContinues server client header n status else .ok r.1) := by
  show (d.onUnauthenticatedPublicHeader client header succeeds >>= _) = _
  congr 1
  funext r
  obtain ⟨d₁,b⟩ := r
  cases b <;> rfl

theorem processUdpPacket_ok {session : SessionId} {x : QuicServerSession}
    (hx : d.sessions session = some x) : d.processUdpPacket session =
      .ok ({ d.call (.processUdpPacket session) with control := .processUdpPacket session },false) := by
  simp [processUdpPacket,hx]

theorem Handled.of_stop (made : List DispatcherCall)
    (h : d.onUnauthenticatedPublicHeader client header succeeds = .ok (d',false))
    (hf : d'.fatals = d.fatals) (hcalls : d'.calls = d.calls ++ made)
    (hmade : ∀ id, .timeWaitProcessPacket id ∉ made) (hno : ¬ ReachesTimeWait d client header n) :
    ∃ d', d.processPacket server client ⟨some header,n⟩ succeeds status = .ok d' ∧
      Handled d client header n d' := by
  refine ⟨d',?_,hf,made,hcalls,fun id => by simp [hmade,hno]⟩
  rw [processPacket_eq,h]
  rfl

theorem Handled.of_timeWait {l : TimeWaitList} {data : ConnectionIdData}
    (hf : l.connectionIdMap.find header.connectionId = some data)
    (h : d.onUnauthenticatedPublicHeader client header succeeds =
      ({ d with timeWaitList := l } : Dispatcher).handlePacketForTimeWait header)
    (hreach : ReachesTimeWait d client header n ↔ header.resetFlag = false ∧ n.isSome = true) :
    ∃ d', d.processPacket server client ⟨some header,n⟩ succeeds status = .ok d' ∧
      Handled d client header n d' := by
  obtain ⟨d₁,b,d',h₁,h₂,h₃,h₄⟩ := timeWaitPacket_ok (d:={ d with timeWaitList := l }) hf server client
    n status
  refine ⟨d',?_,h₃,_,h₄,fun id => ?_⟩
  · rw [processPacket_eq,h,h₁]
    exact h₂
  · rw [mem_timeWaitCalls,hreach]

theorem additionalValidityChecks_total (hs : Separate d) (hint : d.maxConnections < 2^63)
    (hwait : header.connectionId ∉ d.timeWaitList.connectionIdMap.keys) (succeeds : Bool) :
    (∃ d' made, (d.additionalValidityChecksThenCreateSession header succeeds >>= fun r =>
        match r with
        | (d,none) => .ok (d,false)
        | (d,some session) => d.processUdpPacket session) = .ok (d',false) ∧
      d'.fatals = d.fatals ∧ d'.calls = d.calls ++ made ∧ ∀ id, .timeWaitProcessPacket id ∉ made) ∨
    (d.additionalValidityChecksThenCreateSession header succeeds = .error .dcheck ∧ Overfull d) := by
  cases succeeds with
  | true =>
    have hx : ({ (d.createQuicSession header.connectionId true).1 with
        sessionMap := d.sessionMap.insert header.connectionId d.created } : Dispatcher).sessions d.created =
        some ⟨header.connectionId,d.supportedVersions.headD 0,none,true⟩ := by
      simp [createQuicSession,writeSession,call]
    exact Or.inl ⟨_,[.createQuicSession header.connectionId,.processUdpPacket d.created],
      processUdpPacket_ok hx,rfl,by simp [writeSession,call],by simp⟩
  | false =>
    simp only [additionalValidityChecksThenCreateSession,createQuicSession,Bool.false_eq_true,
      if_false]
    split_ifs with hsupported
    · have hs' : Separate (d.call (.createQuicSession header.connectionId)) := ⟨hs.limit,hs.disjoint⟩
      rcases addUnknownToTimeWait_total hs' hint hwait header.version with
        ⟨l,data,d₁,h₁,hd₁,hf⟩ | ⟨h₁,hfull⟩
      · obtain ⟨d₂,b,_,h₂,_⟩ := timeWaitPacket_ok hf ⟨0,0⟩ ⟨0,0⟩ none .ok
        obtain ⟨version,hd₂⟩ := handlePacketForTimeWait_cases h₂
        refine Or.inl ⟨d₂,[.createQuicSession header.connectionId],?_,?_,?_,by simp⟩
        · rw [h₁,except_ok_bind,h₂,except_ok_bind]
          rfl
        · rw [hd₂,hd₁]
          rfl
        · rw [hd₂,hd₁]
          rfl
      · refine Or.inr ⟨?_,hfull⟩
        rw [h₁]
        rfl
    · exact Or.inl ⟨_,[.createQuicSession header.connectionId],rfl,rfl,rfl,by simp⟩

theorem processPacket_unknown (hs : Separate d) (hv : d.supportedVersions ≠ [])
    (hint : d.maxConnections < 2^63) (hport : client.port ≠ 0)
    (hmap : header.connectionId ∉ d.sessionMap.keys)
    (hwait : header.connectionId ∉ d.timeWaitList.connectionIdMap.keys) :
    (∃ d', d.processPacket server client ⟨some header,n⟩ succeeds status = .ok d' ∧
      Handled d client header n d') ∨
    (d.processPacket server client ⟨some header,n⟩ succeeds status = .error .dcheck ∧ Overfull d) := by
  have hfind : d.sessionMap.find header.connectionId = none := LinkedHashMap.find_eq_none.mpr hmap
  have hout : d.timeWaitList.isConnectionIdInTimeWait header.connectionId = false :=
    decide_eq_false hwait
  cases hr : header.resetFlag with
  | true =>
    have heq : d.onUnauthenticatedPublicHeader client header succeeds = .ok (d,false) := by
      simp [onUnauthenticatedPublicHeader,hport,hfind,hout,hr]
    exact Or.inl (Handled.of_stop [] heq rfl (by simp) (by simp)
      fun h => by simp [h.2.2.2.1] at hr)
  | false =>
    cases hflag : header.versionFlag with
    | false =>
      obtain ⟨v,vs,hvs⟩ := List.exists_cons_of_ne_nil hv
      have heq : d.onUnauthenticatedPublicHeader client header succeeds =
          (d.addUnknownToTimeWait header.connectionId v >>= fun d =>
            d.handlePacketForTimeWait header) := by
        simp [onUnauthenticatedPublicHeader,hport,hfind,hout,hr,hflag,hvs]
      rcases addUnknownToTimeWait_total hs hint hwait v with
        ⟨l,data,d₁,h₁,rfl,hdata⟩ | ⟨h₁,hfull⟩
      · refine Or.inl (Handled.of_timeWait hdata ?_ ?_)
        · rw [heq,h₁,except_ok_bind]
        · simp [ReachesTimeWait,hport,hmap,hflag]
      · refine Or.inr ⟨?_,hfull⟩
        rw [processPacket_eq,heq,h₁]
        rfl
    | true =>
      have heq : d.onUnauthenticatedPublicHeader client header succeeds =
          (d.additionalValidityChecksThenCreateSession header succeeds >>= fun r =>
            match r with
            | (d,none) => .ok (d,false)
            | (d,some session) => d.processUdpPacket session) := by
        rw [onUnauthenticatedPublicHeader,if_neg hport,hfind]
        have hout : ¬ d.timeWaitList.isConnectionIdInTimeWait header.connectionId = true := by simp [hout]
        exact (if_neg hout).trans ((if_neg (by simp [hr])).trans (if_neg (by simp [hflag])))
      have hno : ¬ ReachesTimeWait d client header n := by
        simp [ReachesTimeWait,hwait,hflag]
      rcases additionalValidityChecks_total hs hint hwait succeeds with
        ⟨d',made,h₁,h₂,h₃,h₄⟩ | ⟨h₁,hfull⟩
      · exact Or.inl (Handled.of_stop made (heq.trans h₁) h₂ h₃ h₄ hno)
      · refine Or.inr ⟨?_,hfull⟩
        rw [processPacket_eq,heq,h₁]
        rfl

theorem processPacket_handled (hs : Separate d) (ha : Alive d) (hv : d.supportedVersions ≠ [])
    (hint : d.maxConnections < 2^63) :
    (∃ d', d.processPacket server client ⟨some header,n⟩ succeeds status = .ok d' ∧
      Handled d client header n d') ∨
    (d.processPacket server client ⟨some header,n⟩ succeeds status = .error .dcheck ∧ Overfull d ∧
      header.connectionId ∉ d.sessionMap.keys ∧
      header.connectionId ∉ d.timeWaitList.connectionIdMap.keys) := by
  by_cases hport : client.port = 0
  · have heq : d.onUnauthenticatedPublicHeader client header succeeds = .ok (d,false) := by
      simp [onUnauthenticatedPublicHeader,hport]
    exact Or.inl (Handled.of_stop [] heq rfl (by simp) (by simp) fun hr => hr.1 hport)
  cases hfind : d.sessionMap.find header.connectionId with
  | some session =>
    obtain ⟨x,hx⟩ := ha.of_find hfind
    have hin : header.connectionId ∈ d.sessionMap.keys :=
      List.mem_map_of_mem (f:=Prod.fst) (LinkedHashMap.find_eq_some.mp hfind)
    have heq : d.onUnauthenticatedPublicHeader client header succeeds = d.processUdpPacket session := by
      simp only [onUnauthenticatedPublicHeader,hport,if_false,hfind]
    rw [processUdpPacket_ok hx] at heq
    exact Or.inl (Handled.of_stop [.processUdpPacket session] heq rfl rfl (by simp)
      fun hr => hr.2.1 hin)
  | none =>
    have hmap := LinkedHashMap.find_eq_none.mp hfind
    cases hf : d.timeWaitList.connectionIdMap.find header.connectionId with
    | some data =>
      have hin : header.connectionId ∈ d.timeWaitList.connectionIdMap.keys :=
        List.mem_map_of_mem (f:=Prod.fst) (LinkedHashMap.find_eq_some.mp hf)
      refine Or.inl (Handled.of_timeWait hf ?_ ?_)
      · simp [onUnauthenticatedPublicHeader,hport,hfind,TimeWaitList.isConnectionIdInTimeWait,
          LinkedHashMap.contains,hin]
      · simp [ReachesTimeWait,hport,hmap,hin]
    | none =>
      have hwait := LinkedHashMap.find_eq_none.mp hf
      refine (processPacket_unknown hs hv hint hport hmap hwait).imp_right ?_
      rintro ⟨herror,hfull⟩
      exact ⟨herror,hfull,hmap,hwait⟩

end

/-- On the way of a packet, in any state of any run: the visitor methods that must not
be called are not called, no version mismatch is fatal, and every lookup in the
time-wait list finds its entry. Only `AddConnectionIdToTimeWait` may stop at its own
check of the limit, with an unknown id and more entries than a negative limit allows. -/
theorem packet_path_holds {version : QuicVersion} {versions : List QuicVersion}
    {period max now : ℤ} (hmax : max < 0 ∨ 1 ≤ max) {es : List Event}
    (h : machine.Run (init (version :: versions) period max now version) es d)
    (hint : d.maxConnections < 2^63) (server client : IPEndPoint) (header : QuicPacketPublicHeader)
    (n : Option ℕ) (succeeds : Bool) (status : WriteStatus) :
    (∃ d', d.processPacket server client ⟨some header,n⟩ succeeds status = .ok d' ∧
      Handled d client header n d') ∨
    (d.processPacket server client ⟨some header,n⟩ succeeds status = .error .dcheck ∧ Overfull d ∧
      header.connectionId ∉ d.sessionMap.keys ∧
      header.connectionId ∉ d.timeWaitList.connectionIdMap.keys) := by
  have hsep : Separate d := keeps_of_run (fun hd hc => hd.change hc) h ⟨hmax,by
    simp [init,LinkedHashMap.keys,LinkedHashMap.empty]⟩
  have halive : Alive d := keeps_of_run (fun hd hc => hd.change hc) h
    ⟨by simp [init,LinkedHashMap.empty],by simp [init,LinkedHashMap.empty],
      by simp [init,LinkedHashMap.empty]⟩
  have hversions : d.supportedVersions = version :: versions :=
    keeps_of_run (P:=fun d => d.supportedVersions = version :: versions)
      (fun hd hc => (supportedVersions_change hc).trans hd) h rfl
  exact processPacket_handled hsep halive (by simp [hversions]) hint

/-- The list is full with one entry; a packet without a version for another id evicts
it, is accepted and answered. -/
theorem packet_path_holds_at_capacity : ∃ d, machine.Run (init [25,24] 200 1 100 25)
    [.processPacket ⟨1,443⟩ ⟨2,5000⟩ ⟨some ⟨7,false,false,0⟩,some 1⟩ true .ok] d ∧
    ∃ d', d.processPacket ⟨1,443⟩ ⟨3,6000⟩ ⟨some ⟨8,false,false,0⟩,some 4⟩ true .ok = .ok d' ∧
      Handled d ⟨3,6000⟩ ⟨8,false,false,0⟩ (some 4) d' := by
  obtain ⟨d,hd,hlimit⟩ : ∃ d, machine.Run (init [25,24] 200 1 100 25)
      [.processPacket ⟨1,443⟩ ⟨2,5000⟩ ⟨some ⟨7,false,false,0⟩,some 1⟩ true .ok] d ∧
      (d.maxConnections == 1) = true := machine.exists_run_of_exec_any (by decide +kernel)
  have hone := eq_of_beq hlimit
  refine ⟨d,hd,?_⟩
  rcases packet_path_holds (by decide) hd (by rw [hone]; decide) ⟨1,443⟩ ⟨3,6000⟩ ⟨8,false,false,0⟩
    (some 4) true .ok with h | ⟨_,⟨hneg,_⟩,_⟩
  · exact h
  · omega

end Dispatcher
end CmuQuic
