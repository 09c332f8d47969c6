import CmuQuic.DispatcherSteps

/-! Every session object has exactly one owner: the session map, the list of closed
sessions, or nobody because it is deleted. -/
namespace CmuQuic
namespace Dispatcher

/-- A connection reports its close at most once, and nothing after its close. -/
def reporting : Machine Dispatcher Event Abort where
  admits d e := d.admits e ∧
    ∀ s x, e.reporter = some s → d.sessions s = some x → x.connected = true
  step := step

def liveSessions (d : Dispatcher) : List SessionId := d.sessionMap.entries.map Prod.snd

structure Owned (d : Dispatcher) : Prop where
  partition : (d.liveSessions ++ (d.closedSessionList ++ d.deleted)).Perm (List.range d.created)
  connected : ∀ {s x}, d.sessions s = some x → x.connected = true →
    (x.connectionId,s) ∈ d.sessionMap.entries
  armed : d.closedSessionList ≠ [] → d.deleteSessionsAlarm ≠ 0
  blocked : ∀ {s}, .connection s ∈ d.writeBlockedList.keys → s ∈ d.liveSessions

namespace Owned

variable {d : Dispatcher}

theorem initial (versions : List QuicVersion) (period max now : ℤ) (version : QuicVersion) :
    Owned (init versions period max now version) where
  partition := .refl _
  connected h := by simp [init] at h
  armed h := absurd rfl h
  blocked h := by simp [init,LinkedHashMap.keys,LinkedHashMap.empty] at h

theorem writeSession (h : Owned d) {s : SessionId} {x y : QuicServerSession}
    (hx : d.sessions s = some x) (hid : y.connectionId = x.connectionId)
    (hy : y.connected = true → x.connected = true) : Owned (d.writeSession s y) where
  partition := h.partition
  connected := by
    intro t z ht hz
    by_cases hts : t = s
    · subst hts
      obtain rfl : y = z := by simpa [Dispatcher.writeSession] using ht
      exact hid ▸ h.connected hx (hy hz)
    · exact h.connected (by simpa [Dispatcher.writeSession,hts] using ht) hz
  armed := h.armed
  blocked := h.blocked

theorem opened (h : Owned d) {id : ConnectionId} {version : QuicVersion}
    (hid : id ∉ d.sessionMap.keys) : Owned (d.opened id ⟨id,version,none,true⟩) := by
  have hentries : (d.sessionMap.insert id d.created).entries = d.sessionMap.entries ++ [(id,d.created)] :=
    LinkedHashMap.entries_insert hid
  have hlive : (d.opened id ⟨id,version,none,true⟩).liveSessions = d.liveSessions ++ [d.created] := by
    simp [liveSessions,Dispatcher.opened,hentries]
  refine ⟨?_,?_,h.armed,fun hs => ?_⟩
  · rw [hlive]
    show (d.liveSessions ++ [d.created] ++ (d.closedSessionList ++ d.deleted)).Perm
      (List.range (d.created+1))
    rw [List.range_succ,List.append_assoc]
    refine (List.perm_append_comm.append_left _).trans ?_
    rw [← List.append_assoc]
    exact h.partition.append_right _
  · intro t z ht hz
    show _ ∈ (d.sessionMap.insert id d.created).entries
    rw [hentries]
    by_cases hts : t = d.created
    · obtain rfl : _ = z := by simpa [Dispatcher.opened,hts] using ht
      simp [hts]
    · exact List.mem_append_left _ (h.connected (by simpa [Dispatcher.opened,hts] using ht) hz)
  · rw [hlive]
    exact List.mem_append_left _ (h.blocked hs)

theorem find_reporter (h : Owned d) {s s' : SessionId} {x : QuicServerSession}
    (hx : d.sessions s = some x) (hc : x.connected = true)
    (hfind : d.sessionMap.find x.connectionId = some s') : s' = s := by
  have hmem := LinkedHashMap.find_eq_some.mpr (h.connected hx hc)
  rw [hfind] at hmem
  exact Option.some.inj hmem

theorem closed (h : Owned d) {id : ConnectionId} {s : SessionId} {x : QuicServerSession} {alarm : ℤ}
    {l : TimeWaitList} (hmem : (id,s) ∈ d.sessionMap.entries) (hc : x.connected = false)
    (hempty : d.closedSessionList = [] → alarm ≠ 0)
    (hsame : d.closedSessionList ≠ [] → alarm = d.deleteSessionsAlarm) :
    Owned (d.closed id s x alarm l) := by
  have hperm : (s :: (d.closed id s x alarm l).liveSessions).Perm d.liveSessions :=
    (LinkedHashMap.perm_erase hmem).map Prod.snd
  refine ⟨?_,?_,fun _ => ?_,?_⟩
  · show ((d.closed id s x alarm l).liveSessions ++ (d.closedSessionList ++ [s] ++ d.deleted)).Perm
      (List.range d.created)
    refine .trans ?_ h.partition
    refine .trans ?_ (hperm.append_right _)
    rw [List.append_assoc,List.singleton_append,← List.append_assoc]
    exact List.perm_middle.trans (by simp)
  · intro t z ht hz
    by_cases hts : t = s
    · obtain rfl : _ = z := by simpa [Dispatcher.closed,hts] using ht
      simp [hc] at hz
    · have hold := h.connected (by simpa [Dispatcher.closed,hts] using ht) hz
      refine LinkedHashMap.mem_erase.mpr ⟨hold,fun hid => hts ?_⟩
      exact congrArg Prod.snd (LinkedHashMap.eq_of_key hold hmem hid)
  · by_cases he : d.closedSessionList = []
    · exact hempty he
    · show alarm ≠ 0
      rw [hsame he]
      exact h.armed he
  · intro t ht
    obtain ⟨ht,hne⟩ := LinkedHashMap.mem_keys_erase.mp ht
    refine (List.mem_cons.mp (hperm.mem_iff.mpr (h.blocked ht))).resolve_left ?_
    rintro rfl
    exact hne rfl

theorem cleared (h : Owned d) (alarm : ℤ) : Owned (d.cleared alarm) where
  partition := by
    show (d.liveSessions ++ ([] ++ (d.deleted ++ d.closedSessionList))).Perm (List.range d.created)
    rw [List.nil_append]
    exact (List.perm_append_comm.append_left _).trans h.partition
  connected := by
    intro s x hs hx
    by_cases hmem : s ∈ d.closedSessionList
    · simp [Dispatcher.cleared,hmem] at hs
    · exact h.connected (by simpa [Dispatcher.cleared,hmem] using hs) hx
  armed h := absurd rfl h
  blocked := h.blocked

end Owned

variable {d d' : Dispatcher}

theorem Owned.change (h : Owned d) (hc : Change (fun x => x.connected = true) d d') : Owned d' := by
  cases hc with
  | serves e rest _ he =>
    refine ⟨h.partition,h.connected,h.armed,fun hs => h.blocked ?_⟩
    exact ((List.tail_sublist _).map Prod.fst).subset hs
  | stalls =>
    exact ⟨h.partition,h.connected,h.armed,fun hs =>
      h.blocked ((LinkedHashMap.mem_keys_insert.mp hs).resolve_left (by simp))⟩
  | queues p =>
    exact ⟨h.partition,h.connected,h.armed,fun hs =>
      h.blocked ((LinkedHashMap.mem_keys_insert.mp hs).resolve_left (by simp))⟩
  | reportsBlocked s x hx hcon =>
    refine ⟨h.partition,h.connected,h.armed,fun hs => ?_⟩
    rcases LinkedHashMap.mem_keys_insert.mp hs with hs | hs
    · cases hs
      exact List.mem_map_of_mem (f:=Prod.snd) (h.connected hx hcon)
    · exact h.blocked hs
  | rehashes es hperm =>
    have hlive := hperm.map Prod.snd
    exact ⟨(hlive.append_right _).trans h.partition,fun hx hcon => hperm.mem_iff.mpr (h.connected hx hcon),
      h.armed,fun hs => hlive.mem_iff.mpr (h.blocked hs)⟩
  | opens id version hid => exact h.opened hid
  | changes s x version p hx => exact h.writeSession hx rfl id
  | disconnects s x hx => exact h.writeSession hx rfl (by simp)
  | closes s x s' y alarm l hx hcon hfind hy hempty hsame =>
    obtain rfl := h.find_reporter hx hcon hfind
    have hw := h.writeSession (y:={ x with connected := false }) hx rfl (by simp)
    obtain rfl : _ = y := by simpa [Dispatcher.writeSession] using hy
    exact hw.closed (LinkedHashMap.find_eq_some.mp hfind) rfl hempty hsame
  | deletes alarm => exact h.cleared alarm
  | _ => exact ⟨h.partition,h.connected,h.armed,h.blocked⟩

/-- Every session ever created is owned once: by the map, by the list of closed
sessions, or it is deleted. The closed ones have their alarm, and a blocked writer is
the connection of a session in the map. -/
structure Accounted (d : Dispatcher) : Prop where
  once : ∀ s < d.created,
    d.liveSessions.count s + d.closedSessionList.count s + d.deleted.count s = 1
  armed : d.closedSessionList ≠ [] → d.deleteSessionsAlarm ≠ 0
  blocked : ∀ s, .connection s ∈ d.writeBlockedList.keys → s ∈ d.liveSessions

theorem Owned.accounted (h : Owned d) : Accounted d where
  once s hs := by
    have hcount := h.partition.count_eq s
    rw [List.count_append,List.count_append,
      List.count_eq_one_of_mem List.nodup_range (List.mem_range.mpr hs)] at hcount
    omega
  armed := h.armed
  blocked _ := h.blocked

theorem accounted_of_run {versions : List QuicVersion} {period max now : ℤ} {version : QuicVersion}
    {es : List Event} (h : reporting.Run (init versions period max now version) es d) :
    Accounted d := by
  have hstep : ∀ {d e d'}, Owned d → reporting.admits d e → reporting.step d e = .ok d' → Owned d' :=
    fun hd he hs => (step_changes he.1 he.2 hs).keeps (fun hd hc => hd.change hc) hd
  exact (h.invariant hstep (.initial versions period max now version)).accounted

instance (d : Dispatcher) (e : Event) : Decidable (reporting.admits d e) :=
  decidable_of_iff (d.admits e ∧ ∀ s ∈ e.reporter, ∀ x ∈ d.sessions s, x.connected = true)
    (and_congr_right' ⟨fun h s x hs hx => h s hs x hx,fun h s hs x hx => h s x hs hx⟩)

/-- Two sessions; one closes itself while the other is being served, and is deleted;
`Shutdown` closes the other. -/
theorem accounted_of_closing_run : ∃ d, reporting.Run (init [25] 200 (-1) 100 25)
    [.processPacket ⟨1,443⟩ ⟨2,5000⟩ ⟨some ⟨7,false,true,25⟩,some 1⟩ true .ok,.returns,
      .processPacket ⟨1,443⟩ ⟨3,6000⟩ ⟨some ⟨8,false,true,25⟩,some 1⟩ true .ok,
      .connectionWrites 1 .blocked,.sessionOnWriteBlocked 1,.sessionOnWriteBlocked 0,.returns,
      .onCanWrite,.serveBlockedWriter,.sessionOnConnectionClosed 0,.returns,.serveBlockedWriter,
      .deleteSessionsAlarm,.shutdown,.closeFirstSession,.sessionOnConnectionClosed 1,.returns,
      .closeFirstSession] d ∧ Accounted d :=
  let ⟨d,hd⟩ := reporting.exists_run_of_exec (by decide +kernel)
  ⟨d,hd,accounted_of_run hd⟩

end Dispatcher
end CmuQuic
