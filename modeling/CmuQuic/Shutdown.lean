import CmuQuic.PacketPath
import CmuQuic.SessionOwnership

/-! `QuicDispatcher::Shutdown`: the loop closes the first session of the map until the map
is empty. The sessions leave the map from inside of the closes that the loop asks for. -/
namespace CmuQuic
namespace Dispatcher

def reported (d : Dispatcher) : Bool :=
  match d.control with
  | .sendConnectionClose s => (d.sessions s).any fun x => !x.connected
  | _ => false

/-- What happens while `Shutdown` is running: the connection that is to be closed may
write, change, report that it is blocked and report its close, and does not return
before it has done that. No clock shows the time 0. -/
def closes (d : Dispatcher) : Event → Bool
  | .tick t => t ≠ 0
  | .closeFirstSession => true
  | .returns => d.reported
  | .connectionWrites s _ => d.control = .sendConnectionClose s ∧ d.writeBlocked = false
  | .connectionChanges s _ _ => d.control = .sendConnectionClose s
  | .sessionOnWriteBlocked s => d.control = .sendConnectionClose s
  | .sessionOnConnectionClosed s => d.control = .sendConnectionClose s
  | _ => false

def closing : Machine Dispatcher Event Abort :=
  ⟨fun d e => reporting.admits d e ∧ d.closes e = true,step⟩

instance (d : Dispatcher) (e : Event) : Decidable (closing.admits d e) :=
  inferInstanceAs (Decidable (reporting.admits d e ∧ d.closes e = true))

def Event.closed : Event → Option SessionId
  | .sessionOnConnectionClosed s => some s
  | _ => none

def Event.isTurn : Event → Bool
  | .closeFirstSession => true
  | _ => false

/-- Those of the ids, from the oldest to the newest, that a time-wait list with the given
limit has room for. -/
def newest (maxConnections : ℤ) (ids : List ConnectionId) : List ConnectionId :=
  if maxConnections < 0 then ids else ids.drop (ids.length-maxConnections.toNat)

/-- What a call of `Shutdown` has done when it comes back. -/
structure Drained (d₀ : Dispatcher) (fs : List Event) (d : Dispatcher) : Prop where
  closes : fs.filterMap Event.closed = d₀.liveSessions
  turns : fs.countP Event.isTurn = d₀.sessionMap.size+1
  sessionMap : d.sessionMap.entries = []
  closedSessionList : d.closedSessionList = []
  writeBlockedList : ∀ s, .connection s ∉ d.writeBlockedList.keys
  timeWaitList : ∀ id ∈ newest d₀.maxConnections d₀.sessionMap.keys,
    d.timeWaitList.isConnectionIdInTimeWait id = true

/-- The dispatcher comes back from `Shutdown`, or stops at an addition to the list. -/
def Finishes (d : Dispatcher) : Prop :=
  ∃ gs d', closing.Run d gs d' ∧ (d'.control = .idle ∨ Overfull d')

/-- What holds at every point of a call of `Shutdown`. Only an addition to the time-wait
list may stop it, with more entries than a negative limit stands for. -/
structure Drains (d₀ : Dispatcher) (fs : List Event) (d : Dispatcher) : Prop where
  turns : fs.countP Event.isTurn ≤ d₀.sessionMap.size+1
  safe : closing.Safe d ∨ Overfull d
  finishes : Finishes d
  drained : d.control = .idle → Drained d₀ fs d

def Attached (d : Dispatcher) : Prop :=
  ∀ id s, (id,s) ∈ d.sessionMap.entries →
    ∃ x, d.sessions s = some x ∧ x.connectionId = id ∧ x.connected = true

variable {d d' d₀ : Dispatcher}

theorem Attached.congr (h : Attached d)
    (he : ∀ e ∈ d'.sessionMap.entries, e ∈ d.sessionMap.entries)
    (hs : ∀ e ∈ d'.sessionMap.entries, d'.sessions e.2 = d.sessions e.2) : Attached d' := by
  intro id s hmem
  obtain ⟨x,hx,hid,hc⟩ := h id s (he _ hmem)
  exact ⟨x,(hs _ hmem).trans hx,hid,hc⟩

theorem Attached.writeSession (h : Attached d) {s : SessionId} {x y : QuicServerSession}
    (hx : d.sessions s = some x) (hid : y.connectionId = x.connectionId)
    (hc : y.connected = x.connected) : Attached (d.writeSession s y) := by
  intro id t hmem
  obtain ⟨z,hz,hzid,hzc⟩ := h id t hmem
  by_cases hts : t = s
  · subst hts
    rw [hx] at hz
    cases hz
    exact ⟨y,by simp [Dispatcher.writeSession],hid.trans hzid,hc.trans hzc⟩
  · exact ⟨z,by simpa [Dispatcher.writeSession,hts] using hz,hzid,hzc⟩

theorem Attached.opened (h : Attached d) (ha : Alive d) {id : ConnectionId} {version : QuicVersion}
    (hid : id ∉ d.sessionMap.keys) : Attached (d.opened id ⟨id,version,none,true⟩) := by
  have hentries : (d.sessionMap.insert id d.created).entries = d.sessionMap.entries ++ [(id,d.created)] :=
    LinkedHashMap.entries_insert hid
  intro id' s hmem
  rw [Dispatcher.opened,hentries] at hmem
  rcases List.mem_append.mp hmem with hmem | hmem
  · obtain ⟨x,hx,hxid,hxc⟩ := h id' s hmem
    have hold := ha.old s (List.mem_append_left _ (List.mem_map_of_mem (f:=Prod.snd) hmem))
    exact ⟨x,by simpa [Dispatcher.opened,hold.ne] using hx,hxid,hxc⟩
  · cases List.mem_singleton.mp hmem
    exact ⟨⟨id,version,none,true⟩,by simp [Dispatcher.opened],rfl,rfl⟩

theorem Attached.closed (h : Attached d) {s : SessionId} {x : QuicServerSession} {alarm : ℤ}
    {l : TimeWaitList} (hx : d.sessions s = some x) (y z : QuicServerSession) :
    Attached ((d.writeSession s y).closed x.connectionId s z alarm l) := by
  have hmem : ∀ e ∈ (d.sessionMap.erase x.connectionId).entries, e ∈ d.sessionMap.entries :=
    fun e he => (LinkedHashMap.mem_erase.mp he).1
  refine h.congr hmem ?_
  rintro ⟨id,t⟩ he
  -- the session that is closed has no other entry
  have hts : t ≠ s := by
    rintro rfl
    obtain ⟨x',hx',hid,_⟩ := h id t (hmem _ he)
    rw [hx] at hx'
    cases hx'
    exact (LinkedHashMap.mem_erase.mp he).2 hid.symm
  simp [Dispatcher.closed,Dispatcher.writeSession,hts]

theorem Attached.cleared (h : Attached d) (ha : Alive d) (alarm : ℤ) : Attached (d.cleared alarm) := by
  refine h.congr (fun _ he => he) fun e he => ?_
  have hopen : e.2 ∉ d.closedSessionList := fun hc =>
    (List.nodup_append.mp ha.nodup).2.2 e.2 (List.mem_map_of_mem (f:=Prod.snd) he) e.2 hc rfl
  simp [Dispatcher.cleared,hopen]

theorem Attached.change (h : Attached d) (ha : Alive d) (ho : Owned d)
    (hc : Change (fun x => x.connected = true) d d') : Attached d' := by
  cases hc with
  | rehashes es hperm => exact h.congr (fun _ he => hperm.mem_iff.mp he) fun _ _ => rfl
  | opens id version hid => exact h.opened ha hid
  | changes s x version p hx => exact h.writeSession hx rfl rfl
  | disconnects s x hx hcon hnot =>
    exact absurd (List.mem_map_of_mem (f:=Prod.fst) (ho.connected hx hcon)) hnot
  | closes s x s' y alarm l hx hcon hfind =>
    obtain rfl := ho.find_reporter hx hcon hfind
    exact h.closed hx _ _
  | deletes alarm => exact h.cleared ha alarm
  | _ => exact h.congr (fun _ he => he) fun _ _ => rfl

/-- What holds of the dispatcher in every run of connections that report as they should. -/
structure Standing (d : Dispatcher) : Prop where
  owned : Owned d
  separate : Separate d
  alive : Alive d
  attached : Attached d

theorem Standing.step (h : Standing d) {e : Event} (he : reporting.admits d e)
    (hs : d.step e = .ok d') : Standing d' := by
  refine (step_changes he.1 he.2 hs).keeps (fun h hc => ?_) h
  exact ⟨h.owned.change hc,h.separate.change hc,h.alive.change hc,
    h.attached.change h.alive h.owned hc⟩

theorem standing_of_run {versions : List QuicVersion} {period max now : ℤ} {version : QuicVersion}
    (hmax : max < 0 ∨ 1 ≤ max) {es : List Event}
    (h : reporting.Run (init versions period max now version) es d) : Standing d := by
  refine h.invariant (fun hs he ht => hs.step he ht) ⟨.initial versions period max now version,?_,?_,?_⟩
  · exact ⟨hmax,by simp [init,LinkedHashMap.keys,LinkedHashMap.empty]⟩
  · exact ⟨by simp [init,LinkedHashMap.empty],by simp [init,LinkedHashMap.empty],
      by simp [init,LinkedHashMap.empty]⟩
  · intro id s hmem
    simp [init,LinkedHashMap.empty] at hmem

section Effects

theorem newest_add {l l' : TimeWaitList} {max now : ℤ} (hmax : max < 0 ∨ 1 ≤ max)
    (hint : max < 2^63) {id : ConnectionId} (hid : id ∉ l.connectionIdMap.keys)
    {version : QuicVersion} {p : Option PacketId}
    (h : l.addConnectionIdToTimeWait max now id version p = .ok l') {ids : List ConnectionId}
    (hids : newest max ids <:+ l.connectionIdMap.keys) :
    newest max (ids ++ [id]) <:+ l'.connectionIdMap.keys := by
  have hothers : l.others id = l.entries := by
    refine List.filter_eq_self.mpr fun e he => ?_
    have hne : e.1 ≠ id := fun heq => hid (List.mem_map.mpr ⟨e,he,heq⟩)
    simpa using hne
  rcases hmax with hneg | hpos
  · obtain ⟨l₁,_,h₁,_,h₂⟩ := TimeWaitList.add_ok (Or.inl hneg) h
    obtain rfl : l.eraseRecord id = l₁ := by
      simpa [TimeWaitList.trimTimeWaitListIfNeeded,hneg] using h₁
    have hkeys : l'.connectionIdMap.keys = l.connectionIdMap.keys ++ [id] := by
      show l'.entries.map Prod.fst = _
      rw [h₂,TimeWaitList.entries_eraseRecord,List.map_append]
      exact congrArg (fun es => es.map Prod.fst ++ [id]) hothers
    simp only [newest,if_pos hneg] at hids ⊢
    rw [hkeys]
    exact List.suffix_append_self_iff.mpr hids
  · obtain ⟨m,rfl⟩ : ∃ m : ℕ, max = m+1 := ⟨(max-1).toNat,by omega⟩
    obtain ⟨_,h₁,h₂⟩ := l.add_length hint now id version p
    rw [h] at h₁
    cases h₁
    have hkeys : l'.connectionIdMap.keys =
        l.connectionIdMap.keys.drop (l.connectionIdMap.keys.length-m) ++ [id] := by
      show l'.entries.map Prod.fst = _
      rw [h₂,hothers,List.map_append,List.map_drop]
      simp only [LinkedHashMap.keys,TimeWaitList.entries,List.length_map,List.map_cons,List.map_nil]
    have hneg : ¬ (m : ℤ)+1 < 0 := by omega
    have hroom : ((m : ℤ)+1).toNat = m+1 := by omega
    simp only [newest,if_neg hneg,hroom] at hids ⊢
    rw [hkeys,List.length_append,List.length_singleton,Nat.add_sub_add_right,
      List.drop_append_of_le_length (Nat.sub_le _ _)]
    refine List.suffix_append_self_iff.mpr ?_
    -- both are suffixes of the old keys, and the first one is not the longer one
    have hold : ids.drop (ids.length-m) <:+ l.connectionIdMap.keys := by
      refine .trans ?_ hids
      rw [show ids.length-m = ids.length-(m+1)+(ids.length-m-(ids.length-(m+1))) by omega,
        ← List.drop_drop]
      exact List.drop_suffix _ _
    have hlen := hold.length_le
    refine List.suffix_of_suffix_length_le hold (List.drop_suffix _ _) ?_
    rw [List.length_drop] at hlen ⊢
    rw [List.length_drop]
    omega

theorem deleteElements_total {ss : List SessionId} (hnd : ss.Nodup)
    (ha : ∀ s ∈ ss, (d.sessions s).isSome = true) : ∃ d', d.deleteElements ss = .ok d' := by
  induction ss generalizing d with
  | nil => exact ⟨d,rfl⟩
  | cons s ss ih =>
    obtain ⟨hfresh,hnd⟩ := List.nodup_cons.mp hnd
    obtain ⟨x,hx⟩ := Option.isSome_iff_exists.mp (ha s List.mem_cons_self)
    simp only [deleteElements,deleteSession,hx,except_ok_bind]
    refine ih hnd fun t ht => ?_
    have hts : t ≠ s := fun hts => hfresh (hts ▸ ht)
    simpa [Function.update,hts] using ha t (List.mem_cons_of_mem s ht)

theorem Alive.deleteSessions (h : Alive d) :
    d.deleteSessions = .ok (d.cleared d.deleteSessionsAlarm) := by
  obtain ⟨d₁,h₁⟩ := deleteElements_total (List.nodup_append.mp h.nodup).2.1
    fun s hs => h.alive s (List.mem_append_right _ hs)
  have hok : d.deleteSessions = .ok { d₁ with closedSessionList := [] } := by
    simp [Dispatcher.deleteSessions,h₁]
  rw [hok,deleteSessions_ok hok]

/-- A session in the map can be closed at any time but 0, if the time-wait list takes
its id. -/
theorem onConnectionClosed_total {id : ConnectionId} {s : SessionId} {x : QuicServerSession}
    (hs : Separate d) (hint : d.maxConnections < 2^63) (hnow : d.approximateNow ≠ 0)
    (hfind : d.sessionMap.find id = some s) (hx : d.sessions s = some x) :
    (∃ d', d.onConnectionClosed id = .ok d') ∨
    (d.onConnectionClosed id = .error .dcheck ∧ Overfull d) := by
  obtain ⟨alarm,halarm⟩ : ∃ alarm, d.setDeleteSessionsAlarm =
      .ok { d with deleteSessionsAlarm := alarm } := by
    unfold setDeleteSessionsAlarm
    split_ifs
    · exact ⟨d.approximateNow,rfl⟩
    · exact ⟨d.deleteSessionsAlarm,rfl⟩
  have hid : id ∉ d.timeWaitList.connectionIdMap.keys :=
    hs.disjoint id (List.mem_map_of_mem (f:=Prod.fst) (LinkedHashMap.find_eq_some.mp hfind))
  simp only [onConnectionClosed,hfind,halarm,except_ok_bind,cleanUpSession,hx,writeSession,
    addConnectionIdToTimeWait]
  rcases add_total hs.limit hint hid d.approximateNow x.version x.connectionClosePacket with
    ⟨l,hl⟩ | ⟨hl,hfull⟩
  · exact Or.inl ⟨_,by rw [hl]; rfl⟩
  · exact Or.inr ⟨by rw [hl]; rfl,hfull⟩

end Effects

/-- Where the loop stands after the given numbers of turns and of closed sessions. -/
inductive Phase (d : Dispatcher) (turns gone : ℕ) : Prop
  | loop : d.control = .shutdownLoop → turns = gone → Phase d turns gone
  | sending (id s x rest) : d.control = .sendConnectionClose s →
    d.sessionMap.entries = (id,s) :: rest → d.sessions s = some x → x.connectionId = id →
    x.connected = true → turns = gone+1 → Phase d turns gone
  | reported (s x) : d.control = .sendConnectionClose s → s ∉ d.liveSessions →
    d.sessions s = some x → x.connected = false → turns = gone → Phase d turns gone
  | finished : d.control = .idle → d.sessionMap.entries = [] → d.closedSessionList = [] →
    turns = gone+1 → Phase d turns gone

/-- What a call of `Shutdown` has done so far: the sessions that are gone are the first
ones of the map, in its order. -/
structure Progress (d₀ : Dispatcher) (gone : List (ConnectionId × SessionId)) (fs : List Event)
    (d : Dispatcher) : Prop where
  limit : d.maxConnections = d₀.maxConnections
  now : d.approximateNow ≠ 0
  rest : gone ++ d.sessionMap.entries = d₀.sessionMap.entries
  closes : fs.filterMap Event.closed = gone.map Prod.snd
  waiting : newest d₀.maxConnections (gone.map Prod.fst) <:+ d.timeWaitList.connectionIdMap.keys
  phase : Phase d (fs.countP Event.isTurn) gone.length

variable {gone : List (ConnectionId × SessionId)} {fs : List Event} {e : Event}

theorem Progress.size (h : Progress d₀ gone fs d) :
    gone.length+d.sessionMap.size = d₀.sessionMap.size := by
  rw [LinkedHashMap.size,LinkedHashMap.size,← h.rest,List.length_append]

theorem Progress.quiet (h : Progress d₀ gone fs d) (hclosed : e.closed = none)
    (hturn : e.isTurn = false) (hlimit : d'.maxConnections = d.maxConnections)
    (hnow : d'.approximateNow ≠ 0) (hmap : d'.sessionMap = d.sessionMap)
    (hwait : d'.timeWaitList = d.timeWaitList)
    (hphase : Phase d' (fs.countP Event.isTurn) gone.length) : Progress d₀ gone (fs ++ [e]) d' where
  limit := hlimit.trans h.limit
  now := hnow
  rest := by rw [hmap,h.rest]
  closes := by simp [h.closes,hclosed]
  waiting := by rw [hwait]; exact h.waiting
  phase := by simpa [hturn] using hphase

theorem Progress.turn (h : Progress d₀ gone fs d) (hlimit : d'.maxConnections = d.maxConnections)
    (hnow : d'.approximateNow = d.approximateNow) (hmap : d'.sessionMap = d.sessionMap)
    (hwait : d'.timeWaitList = d.timeWaitList)
    (hphase : Phase d' (fs.countP Event.isTurn+1) gone.length) :
    Progress d₀ gone (fs ++ [.closeFirstSession]) d' where
  limit := hlimit.trans h.limit
  now := by rw [hnow]; exact h.now
  rest := by rw [hmap,h.rest]
  closes := by simp [h.closes,Event.closed]
  waiting := by rw [hwait]; exact h.waiting
  phase := by simpa [Event.isTurn] using hphase

theorem Phase.turns_of_loop {turns n : ℕ} (h : Phase d turns n) (hc : d.control = .shutdownLoop) :
    turns = n := by
  cases h with
  | loop _ ht => exact ht
  | sending id s x rest hs => simp [hc] at hs
  | reported s x hs => simp [hc] at hs
  | finished hi => simp [hc] at hi

/-- While a connection is being closed it is the first one in the map, or it has
reported its close and the map has lost it. -/
theorem Phase.of_sendConnectionClose {turns n : ℕ} {s : SessionId} (h : Phase d turns n)
    (hc : d.control = .sendConnectionClose s) : ∃ x, d.sessions s = some x ∧
      ((∃ rest, d.sessionMap.entries = (x.connectionId,s) :: rest ∧ x.connected = true ∧ turns = n+1) ∨
        (s ∉ d.liveSessions ∧ x.connected = false ∧ turns = n)) := by
  cases h with
  | loop hl => simp [hc] at hl
  | sending id t x rest ht he hx hid hcon hturns =>
    obtain rfl : s = t := by simpa [hc] using ht
    exact ⟨x,hx,Or.inl ⟨rest,by rw [hid,he],hcon,hturns⟩⟩
  | reported t x ht hlive hx hcon hturns =>
    obtain rfl : s = t := by simpa [hc] using ht
    exact ⟨x,hx,Or.inr ⟨hlive,hcon,hturns⟩⟩
  | finished hi => simp [hc] at hi

theorem Progress.closeFirstSession (h : Progress d₀ gone fs d) (hd : Standing d)
    (hc : d.control = .shutdownLoop) : ∃ d', d.closeFirstSession = .ok d' ∧
      Progress d₀ gone (fs ++ [.closeFirstSession]) d' := by
  have hturns := h.phase.turns_of_loop hc
  cases he : d.sessionMap.entries with
  | nil =>
    refine ⟨{ d.cleared d.deleteSessionsAlarm with control := .idle },?_,
      h.turn rfl rfl rfl rfl (.finished rfl he rfl (by rw [hturns]))⟩
    simp [Dispatcher.closeFirstSession,he,hd.alive.deleteSessions]
  | cons entry rest =>
    obtain ⟨id,s⟩ := entry
    obtain ⟨x,hx,hid,hcon⟩ := hd.attached id s (he ▸ List.mem_cons_self)
    refine ⟨{ d with control := .sendConnectionClose s },?_,
      h.turn rfl rfl rfl rfl (.sending id s x rest rfl he hx hid hcon (by rw [hturns]))⟩
    simp [Dispatcher.closeFirstSession,he,hx]

theorem Progress.returns (h : Progress d₀ gone fs d) {s : SessionId} {x : QuicServerSession}
    (hc : d.control = .sendConnectionClose s) (hx : d.sessions s = some x)
    (hcon : x.connected = false) : d.returns = .ok { d with control := .shutdownLoop } ∧
      Progress d₀ gone (fs ++ [.returns]) { d with control := .shutdownLoop } := by
  obtain ⟨y,hy,hphase⟩ := h.phase.of_sendConnectionClose hc
  rw [hx] at hy
  cases hy
  rcases hphase with ⟨_,_,hcon',_⟩ | ⟨hlive,_,hturns⟩
  · simp [hcon] at hcon'
  refine ⟨?_,h.quiet rfl rfl rfl h.now rfl rfl (.loop rfl hturns)⟩
  have hhead : d.sessionMap.entries.head?.map Prod.snd ≠ some s := by
    intro hs
    obtain ⟨e,he,rfl⟩ := Option.map_eq_some_iff.mp hs
    exact hlive (List.mem_map_of_mem (List.mem_of_head? he))
  simp only [Dispatcher.returns,hc]
  rw [if_neg hhead]

theorem Progress.closed (h : Progress d₀ gone fs d) (hd : Standing d)
    (hint : d₀.maxConnections < 2^63) {s : SessionId} {x : QuicServerSession} {alarm : ℤ}
    {l : TimeWaitList} {rest : List (ConnectionId × SessionId)}
    (hc : d.control = .sendConnectionClose s)
    (he : d.sessionMap.entries = (x.connectionId,s) :: rest)
    (hturns : fs.countP Event.isTurn = gone.length+1)
    (hl : d.timeWaitList.addConnectionIdToTimeWait d.maxConnections d.approximateNow x.connectionId
      x.version x.connectionClosePacket = .ok l) :
    Progress d₀ (gone ++ [(x.connectionId,s)]) (fs ++ [.sessionOnConnectionClosed s])
      ((d.writeSession s { x with connected := false }).closed x.connectionId s
        { x with connected := false } alarm l) := by
  have herase := LinkedHashMap.erase_of_cons he
  have hlive : s ∉ rest.map Prod.snd := by
    have hnd := (List.nodup_append.mp hd.alive.nodup).1
    rw [he,List.map_cons,List.nodup_cons] at hnd
    exact hnd.1
  have hid : x.connectionId ∉ d.timeWaitList.connectionIdMap.keys := by
    refine hd.separate.disjoint _ (List.mem_map_of_mem (f:=Prod.fst) (a:=(x.connectionId,s)) ?_)
    rw [he]
    exact List.mem_cons_self
  refine ⟨h.limit,h.now,?_,?_,?_,?_⟩
  · show gone ++ [(x.connectionId,s)] ++ (d.sessionMap.erase x.connectionId).entries = _
    rw [herase,List.append_assoc,List.singleton_append,← he,h.rest]
  · simp [h.closes,Event.closed]
  · rw [List.map_append]
    have hmax := hd.separate.limit
    rw [h.limit] at hmax hl
    exact newest_add hmax hint hid hl h.waiting
  · refine .reported s { x with connected := false, connectionClosePacket := none } hc ?_ ?_ rfl ?_
    · show s ∉ (d.sessionMap.erase x.connectionId).entries.map Prod.snd
      rw [herase]
      exact hlive
    · simp [Dispatcher.closed]
    · simp [Event.isTurn,hturns]

theorem Progress.close (h : Progress d₀ gone fs d) (hd : Standing d)
    (hint : d₀.maxConnections < 2^63) {s : SessionId} {x : QuicServerSession}
    (hc : d.control = .sendConnectionClose s) (hx : d.sessions s = some x)
    (hcon : x.connected = true) :
    (∃ d', d.step (.sessionOnConnectionClosed s) = .ok d' ∧
      Progress d₀ (gone ++ [(x.connectionId,s)]) (fs ++ [.sessionOnConnectionClosed s]) d') ∨
    (d.step (.sessionOnConnectionClosed s) = .error .dcheck ∧ Overfull d) := by
  obtain ⟨y,hy,hphase⟩ := h.phase.of_sendConnectionClose hc
  rw [hx] at hy
  cases hy
  rcases hphase with ⟨rest,he,_,hturns⟩ | ⟨_,hcon',_⟩
  swap
  · simp [hcon] at hcon'
  have hfind : (d.writeSession s { x with connected := false }).sessionMap.find x.connectionId =
    some s := LinkedHashMap.find_eq_some.mpr (he ▸ List.mem_cons_self)
  have hstep : d.step (.sessionOnConnectionClosed s) =
      (d.writeSession s { x with connected := false }).onConnectionClosed x.connectionId := by
    simp [Dispatcher.step,withSession,hx]
  have hw : (d.writeSession s { x with connected := false }).sessions s =
      some { x with connected := false } := by simp [Dispatcher.writeSession]
  have hint' : d.maxConnections < 2^63 := by rw [h.limit]; exact hint
  rw [hstep]
  rcases onConnectionClosed_total (d:=d.writeSession s { x with connected := false })
    ⟨hd.separate.limit,hd.separate.disjoint⟩ hint' h.now hfind hw with ⟨d',hd'⟩ | hfull
  · obtain ⟨z,alarm,l,hz,_,_,hl,rfl⟩ := onConnectionClosed_cases hfind hd'
    rw [hw] at hz
    cases hz
    exact Or.inl ⟨_,hd',h.closed hd hint hc he hturns hl⟩
  · exact Or.inr hfull

theorem Phase.congr {turns n : ℕ} (h : Phase d turns n) (hcontrol : d'.control = d.control)
    (hmap : d'.sessionMap = d.sessionMap) (hsessions : d'.sessions = d.sessions)
    (hclosed : d'.closedSessionList = d.closedSessionList) : Phase d' turns n := by
  have hlive : d'.liveSessions = d.liveSessions := by rw [liveSessions,hmap]; rfl
  cases h with
  | loop hc ht => exact .loop (hcontrol.trans hc) ht
  | sending id s x rest hc he hx hid hcon ht =>
    exact .sending id s x rest (hcontrol.trans hc) (by rw [hmap,he]) (by rw [hsessions,hx]) hid hcon ht
  | reported s x hc hs hx hcon ht =>
    exact .reported s x (hcontrol.trans hc) (by rw [hlive]; exact hs) (by rw [hsessions,hx]) hcon ht
  | finished hc he hl ht =>
    exact .finished (hcontrol.trans hc) (by rw [hmap,he]) (by rw [hclosed,hl]) ht

/-- The record of the connection that is being closed changes, but for its id and for
whether it is connected. -/
theorem Phase.writeSession {turns n : ℕ} {s : SessionId} {x y : QuicServerSession}
    (h : Phase d turns n) (hc : d.control = .sendConnectionClose s) (hx : d.sessions s = some x)
    (hid : y.connectionId = x.connectionId) (hcon : y.connected = x.connected) :
    Phase (d.writeSession s y) turns n := by
  have hy : (d.writeSession s y).sessions s = some y := by simp [Dispatcher.writeSession]
  obtain ⟨z,hz,hphase⟩ := h.of_sendConnectionClose hc
  rw [hx] at hz
  cases hz
  rcases hphase with ⟨rest,he,hx',ht⟩ | ⟨hlive,hx',ht⟩
  · exact .sending x.connectionId s y rest hc he hy hid (hcon.trans hx') ht
  · exact .reported s y hc hlive hy (hcon.trans hx') ht

theorem Progress.step (h : Progress d₀ gone fs d) (hd : Standing d) (hint : d₀.maxConnections < 2^63)
    (he : closing.admits d e) :
    (∃ d' gone', d.step e = .ok d' ∧ Progress d₀ gone' (fs ++ [e]) d') ∨
    (d.step e = .error .dcheck ∧ Overfull d) := by
  obtain ⟨⟨hadmits,hreports⟩,hcloses⟩ := he
  cases e with
  | tick t =>
    have ht : t ≠ 0 := by simpa [Dispatcher.closes] using hcloses
    exact Or.inl ⟨_,gone,rfl,h.quiet rfl rfl rfl ht rfl rfl (h.phase.congr rfl rfl rfl rfl)⟩
  | closeFirstSession =>
    obtain ⟨d',hd',h'⟩ := h.closeFirstSession hd hadmits
    exact Or.inl ⟨d',gone,hd',h'⟩
  | returns =>
    obtain ⟨s,hc,x,hx,hcon⟩ : ∃ s, d.control = .sendConnectionClose s ∧
        ∃ x, d.sessions s = some x ∧ x.connected = false := by
      have hr : d.reported = true := hcloses
      unfold Dispatcher.reported at hr
      split at hr
      · rename_i s hc
        obtain ⟨x,hx,hcon⟩ := (Option.any_eq_true _ _).mp hr
        exact ⟨s,hc,x,hx,by simpa using hcon⟩
      · cases hr
    obtain ⟨hd',h'⟩ := h.returns hc hx hcon
    exact Or.inl ⟨_,gone,hd',h'⟩
  | connectionWrites s status =>
    obtain ⟨hc,hb⟩ : d.control = .sendConnectionClose s ∧ d.writeBlocked = false := by
      simpa [Dispatcher.closes] using hcloses
    obtain ⟨x,hx,_⟩ := h.phase.of_sendConnectionClose hc
    by_cases hs : status = .blocked
    · exact Or.inl ⟨{ d with writeBlocked := true },gone,
        by simp [Dispatcher.step,withSession,hx,writePacket,hb,hs],
        h.quiet rfl rfl rfl h.now rfl rfl (h.phase.congr rfl rfl rfl rfl)⟩
    · exact Or.inl ⟨d,gone,by simp [Dispatcher.step,withSession,hx,writePacket,hb,hs],
        h.quiet rfl rfl rfl h.now rfl rfl h.phase⟩
  | connectionChanges s version p =>
    have hc : d.control = .sendConnectionClose s := by simpa [Dispatcher.closes] using hcloses
    obtain ⟨x,hx,_⟩ := h.phase.of_sendConnectionClose hc
    exact Or.inl ⟨d.writeSession s { x with version := version, connectionClosePacket := p },gone,
      by simp [Dispatcher.step,withSession,hx],
      h.quiet rfl rfl rfl h.now rfl rfl (h.phase.writeSession hc hx rfl rfl)⟩
  | sessionOnWriteBlocked s =>
    have hc : d.control = .sendConnectionClose s := by simpa [Dispatcher.closes] using hcloses
    obtain ⟨x,hx,_⟩ := h.phase.of_sendConnectionClose hc
    refine Or.inl ⟨d.onWriteBlocked (.connection s),gone,by simp [Dispatcher.step,withSession,hx],?_⟩
    unfold onWriteBlocked
    split_ifs
    · exact h.quiet rfl rfl rfl h.now rfl rfl (h.phase.congr rfl rfl rfl rfl)
    · exact h.quiet rfl rfl rfl h.now rfl rfl (h.phase.congr rfl rfl rfl rfl)
  | sessionOnConnectionClosed s =>
    have hc : d.control = .sendConnectionClose s := by simpa [Dispatcher.closes] using hcloses
    obtain ⟨x,hx,_⟩ := h.phase.of_sendConnectionClose hc
    refine (h.close hd hint hc hx (hreports s x rfl hx)).imp_left ?_
    rintro ⟨d',hd',h'⟩
    exact ⟨d',_,hd',h'⟩
  | _ => simp [Dispatcher.closes] at hcloses

/-- The dispatcher inside of a call of `Shutdown` that began in the state `d₀`. -/
structure Draining (d₀ : Dispatcher) (fs : List Event) (d : Dispatcher) : Prop where
  standing : Standing d
  progress : ∃ gone, Progress d₀ gone fs d

theorem Draining.step (h : Draining d₀ fs d) (hint : d₀.maxConnections < 2^63)
    (he : closing.admits d e) : (∃ d', closing.step d e = .ok d' ∧ Draining d₀ (fs ++ [e]) d') ∨
      (closing.step d e = .error .dcheck ∧ Overfull d) := by
  obtain ⟨gone,hp⟩ := h.progress
  refine (hp.step h.standing hint he).imp_left ?_
  rintro ⟨d',gone',hd',hp'⟩
  exact ⟨d',hd',h.standing.step he.1 hd',gone',hp'⟩

theorem draining_of_run (hd : Standing d) (hint : d.maxConnections < 2^63)
    (hnow : d.approximateNow ≠ 0) (h : closing.Run { d with control := .shutdownLoop } fs d') :
    Draining d fs d' := by
  have hstart : Draining d [] { d with control := .shutdownLoop } := by
    refine ⟨⟨⟨hd.owned.partition,hd.owned.connected,hd.owned.armed,hd.owned.blocked⟩,
      ⟨hd.separate.limit,hd.separate.disjoint⟩,
      ⟨hd.alive.nodup,hd.alive.alive,hd.alive.old⟩,hd.attached⟩,[],rfl,hnow,rfl,rfl,?_,.loop rfl rfl⟩
    simp [newest]
  refine h.history (P:=Draining d) (fun hs he ht => ?_) hstart
  rcases hs.step hint he with ⟨t,ht',hs'⟩ | ⟨herr,_⟩
  · rw [ht] at ht'
    cases ht'
    exact hs'
  · rw [ht] at herr
    cases herr

theorem Finishes.cons (he : closing.admits d e) (hs : d.step e = .ok d') (h : Finishes d') :
    Finishes d := by
  obtain ⟨gs,d'',hrun,hend⟩ := h
  exact ⟨e :: gs,d'',.cons he hs hrun,hend⟩

theorem Finishes.of_sending {s : SessionId} {x : QuicServerSession} (h : Progress d₀ gone fs d)
    (hd : Standing d) (hint : d₀.maxConnections < 2^63) (hc : d.control = .sendConnectionClose s)
    (hx : d.sessions s = some x) (hcon : x.connected = true)
    (hturns : fs.countP Event.isTurn = gone.length+1)
    (hnext : ∀ {gone' fs' d'}, Progress d₀ gone' fs' d' → Standing d' →
      gone'.length = gone.length+1 → fs'.countP Event.isTurn = gone'.length → Finishes d') :
    Finishes d := by
  rcases h.close hd hint hc hx hcon with ⟨d',hd',h'⟩ | ⟨_,hfull⟩
  · have hadmits : closing.admits d (.sessionOnConnectionClosed s) := by
      refine ⟨⟨by simp [admits,hc,DispatcherControl.running],?_⟩,by simp [closes,hc]⟩
      intro t y ht hy
      obtain rfl : s = t := by simpa [Event.reporter] using ht
      rw [hx] at hy
      cases hy
      exact hcon
    refine .cons hadmits hd' (hnext h' (hd.step hadmits.1 hd') (by simp) ?_)
    simp [Event.isTurn,hturns]
  · exact ⟨[],d,.nil d,Or.inr hfull⟩

theorem Finishes.of_settled (hint : d₀.maxConnections < 2^63) {n : ℕ} (h : Progress d₀ gone fs d)
    (hd : Standing d) (hn : gone.length+n = d₀.sessionMap.size)
    (hturns : fs.countP Event.isTurn = gone.length) : Finishes d := by
  induction n using Nat.strong_induction_on generalizing d gone fs with
  | _ n ih =>
  have hloop : ∀ {d fs}, Progress d₀ gone fs d → Standing d → d.control = .shutdownLoop →
      Finishes d := by
    intro d fs h hd hc
    obtain ⟨d',hd',h'⟩ := h.closeFirstSession hd hc
    have hadmits : closing.admits d .closeFirstSession := ⟨⟨hc,fun _ _ hr => by cases hr⟩,rfl⟩
    have hstanding := hd.step hadmits.1 hd'
    have hcount : (fs ++ [Event.closeFirstSession]).countP Event.isTurn = gone.length+1 := by
      simp [Event.isTurn,h.phase.turns_of_loop hc]
    refine .cons hadmits hd' ?_
    cases h'.phase with
    | loop _ ht => omega
    | sending id s x rest hc' he hx _ hcon ht =>
      refine .of_sending h' hstanding hint hc' hx hcon hcount fun h'' hd'' hlen hturns => ?_
      have hpos : gone.length < d₀.sessionMap.size := by
        rw [LinkedHashMap.size,← h'.rest,he]
        simp
      exact ih (n-1) (by omega) h'' hd'' (by omega) hturns
    | reported s x _ _ _ _ ht => omega
    | finished hidle => exact ⟨[],d',.nil d',Or.inl hidle⟩
  cases h.phase with
  | loop hc => exact hloop h hd hc
  | sending id s x rest _ _ _ _ _ ht => omega
  | reported s x hc hlive hx hcon =>
    obtain ⟨hd',h'⟩ := h.returns hc hx hcon
    have hadmits : closing.admits d .returns := by
      refine ⟨⟨by simp [admits,hc,DispatcherControl.running],fun _ _ hr => by cases hr⟩,?_⟩
      simp [closes,Dispatcher.reported,hc,hx,hcon]
    exact .cons hadmits hd' (hloop h' (hd.step hadmits.1 hd') rfl)
  | finished _ _ _ ht => omega

theorem Draining.finishes (h : Draining d₀ fs d) (hint : d₀.maxConnections < 2^63) : Finishes d := by
  obtain ⟨gone,hp⟩ := h.progress
  cases hp.phase with
  | loop _ ht => exact .of_settled hint hp h.standing hp.size ht
  | sending id s x rest hc _ hx _ hcon ht =>
    exact .of_sending hp h.standing hint hc hx hcon ht fun h' hd' _ hturns =>
      .of_settled hint h' hd' h'.size hturns
  | reported s x _ _ _ _ ht => exact .of_settled hint hp h.standing hp.size ht
  | finished hidle => exact ⟨[],d,.nil d,Or.inl hidle⟩

theorem Draining.drained (h : Draining d₀ fs d) (hidle : d.control = .idle) : Drained d₀ fs d := by
  obtain ⟨gone,hp⟩ := h.progress
  cases hp.phase with
  | loop hc => simp [hidle] at hc
  | sending id s x rest hc => simp [hidle] at hc
  | reported s x hc => simp [hidle] at hc
  | finished _ hmap hclosed ht =>
    have hgone : gone = d₀.sessionMap.entries := by
      rw [← hp.rest,hmap,List.append_nil]
    refine ⟨by rw [hp.closes,hgone]; rfl,by rw [ht,hgone]; rfl,hmap,hclosed,fun s hs => ?_,fun id hid => ?_⟩
    · simpa [liveSessions,hmap] using h.standing.owned.blocked hs
    · rw [hgone] at hp
      exact decide_eq_true (hp.waiting.subset hid)

theorem Draining.turns (h : Draining d₀ fs d) : fs.countP Event.isTurn ≤ d₀.sessionMap.size+1 := by
  obtain ⟨gone,hp⟩ := h.progress
  have hlen := hp.size
  cases hp.phase <;> omega

/-- `Shutdown` in any state of any run, whatever the connections do while they are
closed. The clock of the alarm never shows the time 0. -/
theorem shutdown_drains {versions : List QuicVersion} {period max now : ℤ} {version : QuicVersion}
    (hmax : max < 0 ∨ 1 ≤ max) {es : List Event}
    (h : reporting.Run (init versions period max now version) es d) (hint : d.maxConnections < 2^63)
    (hnow : d.approximateNow ≠ 0) (hrun : closing.Run { d with control := .shutdownLoop } fs d') :
    Drains d fs d' := by
  have hd := draining_of_run (standing_of_run hmax h) hint hnow hrun
  refine ⟨hd.turns,?_,hd.finishes hint,hd.drained⟩
  by_cases hfull : Overfull d'
  · exact Or.inr hfull
  · refine Or.inl fun e he => ?_
    rcases hd.step hint he with ⟨t,ht,_⟩ | ⟨_,hfull'⟩
    · exact ⟨t,ht⟩
    · exact absurd hfull' hfull

/-- Two sessions, of which the second is blocked, and a time-wait list for one id. The
first one is blocked while it is closed. -/
theorem shutdown_drains_two : ∃ d fs d', reporting.Run (init [25] 200 1 100 25)
    [.processPacket ⟨1,443⟩ ⟨2,5000⟩ ⟨some ⟨7,false,true,25⟩,some 1⟩ true .ok,.returns,
      .processPacket ⟨1,443⟩ ⟨3,6000⟩ ⟨some ⟨8,false,true,25⟩,some 1⟩ true .ok,
      .connectionWrites 1 .blocked,.sessionOnWriteBlocked 1,.returns] d ∧
    d.sessionMap.keys = [7,8] ∧ closing.Run { d with control := .shutdownLoop } fs d' ∧
    d'.control = .idle ∧ Drains d fs d' := by
  obtain ⟨d,hd,hrun⟩ : ∃ d, reporting.Run (init [25] 200 1 100 25)
      [.processPacket ⟨1,443⟩ ⟨2,5000⟩ ⟨some ⟨7,false,true,25⟩,some 1⟩ true .ok,.returns,
        .processPacket ⟨1,443⟩ ⟨3,6000⟩ ⟨some ⟨8,false,true,25⟩,some 1⟩ true .ok,
        .connectionWrites 1 .blocked,.sessionOnWriteBlocked 1,.returns] d ∧
      (decide (d.sessionMap.keys = [7,8] ∧ d.maxConnections = 1 ∧ d.approximateNow = 100) &&
      (closing.exec { d with control := .shutdownLoop }
        [.closeFirstSession,.sessionOnWriteBlocked 0,.connectionChanges 0 25 (some 4),
          .sessionOnConnectionClosed 0,.returns,.closeFirstSession,.sessionOnConnectionClosed 1,
          .returns,.closeFirstSession]).any fun d' => decide (d'.control = .idle)) = true :=
    reporting.exists_run_of_exec_any (by decide +kernel)
  obtain ⟨hvalues,hrun⟩ := (Bool.and_eq_true _ _).mp hrun
  obtain ⟨hkeys,hmax,hnow⟩ := of_decide_eq_true hvalues
  obtain ⟨d',hd',hidle⟩ := closing.exists_run_of_exec_any hrun
  exact ⟨d,_,d',hd,hkeys,hd',of_decide_eq_true hidle,
    shutdown_drains (by decide) hd (by rw [hmax]; decide) (by rw [hnow]; decide) hd'⟩

end Dispatcher
end CmuQuic
