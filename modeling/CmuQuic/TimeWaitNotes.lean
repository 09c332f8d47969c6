import CmuQuic.TimeWaitManager

/-! The visitor of the time-wait list manager can tell from what it is told which ids
are in the list, and no close packet is lost or deleted twice. -/
namespace CmuQuic

/-- What the visitor hears about one id: `true` for an addition, `false` for a removal. -/
def visits (id : ConnectionId) (notes : List TimeWaitNote) : List Bool :=
  notes.filterMap fun
    | .added x => if x = id then some true else none
    | .removed x => if x = id then some false else none
    | .released _ => none

def releases (notes : List TimeWaitNote) : List PacketId :=
  notes.filterMap fun
    | .released p => some p
    | _ => none

@[simp] theorem visits_append (id : ConnectionId) (xs ys : List TimeWaitNote) :
    visits id (xs ++ ys) = visits id xs ++ visits id ys := List.filterMap_append

@[simp] theorem releases_append (xs ys : List TimeWaitNote) :
    releases (xs ++ ys) = releases xs ++ releases ys := List.filterMap_append

@[simp] theorem visits_release (id : ConnectionId) (p : Option PacketId) :
    visits id (TimeWaitList.release p) = [] := by
  cases p <;> rfl

@[simp] theorem visits_added (id x : ConnectionId) :
    visits id [.added x] = if x = id then [true] else [] := by
  by_cases hx : x = id <;> simp [visits,hx]

@[simp] theorem visits_removed (id x : ConnectionId) :
    visits id [.removed x] = if x = id then [false] else [] := by
  by_cases hx : x = id <;> simp [visits,hx]

@[simp] theorem releases_release (p : Option PacketId) :
    releases (TimeWaitList.release p) = p.toList := by
  cases p <;> rfl

@[simp] theorem releases_removed (id : ConnectionId) : releases [.removed id] = [] := rfl

theorem count_releases (p : PacketId) (notes : List TimeWaitNote) :
    (releases notes).count p = notes.count (.released p) := by
  induction notes with
  | nil => rfl
  | cons n ns ih =>
    cases n with
    | released q =>
      have h₁ : releases (.released q :: ns) = q :: releases ns := rfl
      rw [h₁,List.count_cons,List.count_cons,ih]
      simp
    | added x => simpa [releases] using ih
    | removed x => simpa [releases] using ih

/-- Additions and removals in turn, an addition first. -/
def Alternates (v : List Bool) : Prop := (false :: v).IsChain (· ≠ ·)

theorem Alternates.append {v : List Bool} {b : Bool} (h : Alternates v)
    (hb : b = true ↔ v.getLast? ≠ some true) : Alternates (v ++ [b]) := by
  have hlast : ∀ x ∈ (false :: v).getLast?, ∀ y ∈ [b].head?, x ≠ y := by
    intro x hx y hy
    obtain rfl : b = y := by simpa using hy
    cases v with
    | nil =>
      obtain rfl : false = x := by simpa using hx
      simpa using hb
    | cons a v =>
      rw [List.getLast?_cons_cons] at hx
      rw [Option.mem_def] at hx
      rw [hx] at hb
      cases x <;> cases b <;> simp at hb ⊢
  exact List.IsChain.append h (List.isChain_singleton b) hlast

namespace TimeWaitList

/-- The visitor knows the ids in the list, and those that are about to come back into
it. -/
structure Notified (pending : ConnectionId → Prop) (l : TimeWaitList) : Prop where
  alternates : ∀ id, Alternates (visits id l.notes)
  last : ∀ id, (visits id l.notes).getLast? = some true ↔
    id ∈ l.connectionIdMap.keys ∨ pending id
  apart : ∀ id, pending id → id ∉ l.connectionIdMap.keys

variable {l l' : TimeWaitList} {pending : ConnectionId → Prop}

theorem keys_drop {id : ConnectionId} {data : ConnectionIdData}
    {es : List (ConnectionId × ConnectionIdData)} (he : l.entries = (id,data) :: es) :
    l.connectionIdMap.keys = id :: l.connectionIdMap.popFront.keys ∧
      id ∉ l.connectionIdMap.popFront.keys := by
  have he' : l.connectionIdMap.entries = (id,data) :: es := he
  have hk : l.connectionIdMap.keys = id :: l.connectionIdMap.popFront.keys := by
    rw [LinkedHashMap.keys,LinkedHashMap.keys,LinkedHashMap.popFront_of_cons he',he',List.map_cons]
  have hnd : l.connectionIdMap.keys.Nodup := l.connectionIdMap.nodup
  rw [hk] at hnd
  exact ⟨hk,(List.nodup_cons.mp hnd).1⟩

theorem Notified.drop (h : Notified pending l) (hd : Drops l l') : Notified pending l' := by
  obtain ⟨id,data,es,he,rfl⟩ := hd
  obtain ⟨hkeys,hfresh⟩ := keys_drop he
  have hin : id ∈ l.connectionIdMap.keys := by simp [hkeys]
  have hvisits : ∀ x, visits x (l.notes ++ release data.closePacket ++ [.removed id]) =
      visits x l.notes ++ if id = x then [false] else [] := by simp
  refine ⟨fun x => ?_,fun x => ?_,fun x hx hmem => h.apart x hx (by simp [hkeys,hmem])⟩
  · rw [hvisits]
    by_cases hx : id = x
    · subst hx
      have hlast := (h.last id).mpr (Or.inl hin)
      rw [if_pos rfl]
      exact (h.alternates id).append (by simp [hlast])
    · simpa [hx] using h.alternates x
  · rw [hvisits]
    by_cases hx : id = x
    · subst hx
      have hout : ¬ pending id := fun hp => h.apart id hp hin
      simp [hfresh,hout]
    · have hne : ¬ x = id := fun hxi => hx hxi.symm
      have := h.last x
      rw [hkeys] at this
      simpa [hx,hne] using this

theorem Notified.eraseRecord (h : Notified (fun _ => False) l) (id : ConnectionId) :
    Notified (fun x => x = id ∧ id ∈ l.connectionIdMap.keys) (l.eraseRecord id) := by
  cases hf : l.connectionIdMap.find id with
  | none =>
    have hout := LinkedHashMap.find_eq_none.mp hf
    have hsame : l.eraseRecord id = l := by simp [TimeWaitList.eraseRecord,hf]
    rw [hsame]
    exact ⟨h.alternates,fun x => by simpa [hout] using h.last x,fun x hx => absurd hx.2 hout⟩
  | some data =>
    have hin : id ∈ l.connectionIdMap.keys :=
      List.mem_map_of_mem (f:=Prod.fst) (LinkedHashMap.find_eq_some.mp hf)
    have hrec : l.eraseRecord id = ⟨l.connectionIdMap.erase id,l.notes ++ release data.closePacket⟩ := by
      simp [TimeWaitList.eraseRecord,hf]
    rw [hrec]
    refine ⟨fun x => by simpa using h.alternates x,fun x => ?_,fun x hx => by simp [hx.1]⟩
    have hlast := h.last x
    by_cases hx : x = id
    · subst hx
      simpa [hin] using hlast
    · simpa [hx] using hlast

theorem Notified.insert {id : ConnectionId} {data : ConnectionIdData} {known : Prop}
    [Decidable known] (h : Notified (fun x => x = id ∧ known) l)
    (hid : id ∉ l.connectionIdMap.keys) : Notified (fun _ => False)
      ⟨l.connectionIdMap.insert id data,l.notes ++ if known then [] else [.added id]⟩ := by
  by_cases hk : known
  · rw [if_pos hk,List.append_nil]
    refine ⟨h.alternates,fun x => ?_,fun _ hx => absurd hx not_false⟩
    simpa [hk,or_comm] using h.last x
  · rw [if_neg hk]
    have hvisits : ∀ x, visits x (l.notes ++ [.added id]) =
        visits x l.notes ++ if id = x then [true] else [] := by simp
    refine ⟨fun x => ?_,fun x => ?_,fun _ hx => absurd hx not_false⟩
    · rw [hvisits]
      by_cases hx : id = x
      · subst hx
        have hlast := h.last id
        rw [if_pos rfl]
        exact (h.alternates id).append (by simpa [hid,hk] using hlast)
      · simpa [hx] using h.alternates x
    · rw [hvisits]
      by_cases hx : id = x
      · subst hx
        simp
      · have hne : ¬ x = id := fun hxi => hx hxi.symm
        simpa [hx,hne,hk] using h.last x

theorem Notified.add {max now : ℤ} {id : ConnectionId} {version : QuicVersion}
    {p : Option PacketId} (h : Notified (fun _ => False) l)
    (ha : l.addConnectionIdToTimeWait max now id version p = .ok l') :
    Notified (fun _ => False) l' := by
  obtain ⟨l₁,_,hd,hnew,rfl⟩ := add_cases ha
  have h₁ := hd.keeps (fun hn hs => hn.drop hs) (h.eraseRecord id)
  have hknown : (if (l.connectionIdMap.find id).isNone then [TimeWaitNote.added id] else []) =
      if id ∈ l.connectionIdMap.keys then [] else [.added id] := by
    cases hf : l.connectionIdMap.find id with
    | none => simp [LinkedHashMap.find_eq_none.mp hf]
    | some data =>
      have hin : id ∈ l.connectionIdMap.keys :=
        List.mem_map_of_mem (f:=Prod.fst) (LinkedHashMap.find_eq_some.mp hf)
      simp [hin]
  rw [hknown]
  exact h₁.insert hnew

def stored (l : TimeWaitList) : List PacketId := l.entries.filterMap fun e => e.2.closePacket

/-- Every close packet that was handed over was deleted or is in the list, under the id
that it was handed over for. -/
structure Owns (handed : List (ConnectionId × PacketId)) (l : TimeWaitList) : Prop where
  perm : (releases l.notes ++ l.stored).Perm (handed.map Prod.snd)
  own : ∀ e ∈ l.entries, ∀ p, e.2.closePacket = some p → (e.1,p) ∈ handed

variable {handed : List (ConnectionId × PacketId)}

theorem Owns.drop (h : Owns handed l) (hd : Drops l l') : Owns handed l' := by
  obtain ⟨e,he⟩ := hd.entries
  obtain ⟨id,data,es,he₁,rfl⟩ := hd
  obtain ⟨rfl,hes⟩ := List.cons.inj (he₁.symm.trans he)
  refine ⟨?_,fun e hmem => h.own e (by rw [he]; exact List.mem_cons_of_mem _ hmem)⟩
  have hstored : l.stored = data.closePacket.toList ++
      stored ⟨l.connectionIdMap.popFront,l.notes ++ release data.closePacket ++ [.removed id]⟩ := by
    unfold stored
    rw [he]
    cases hp : data.closePacket <;> simp [hp]
  have hperm := h.perm
  rw [hstored] at hperm
  simpa using hperm

theorem stored_perm_erase {id : ConnectionId} {data : ConnectionIdData}
    (hf : l.connectionIdMap.find id = some data) :
    (data.closePacket.toList ++ (l.eraseRecord id).stored).Perm l.stored := by
  have hperm := (LinkedHashMap.perm_erase (LinkedHashMap.find_eq_some.mp hf)).filterMap
    fun e => e.2.closePacket
  have hrec : (l.eraseRecord id).stored =
      (l.connectionIdMap.erase id).entries.filterMap fun e => e.2.closePacket := by
    simp only [stored,TimeWaitList.eraseRecord,hf]
    rfl
  have hall : l.stored = l.connectionIdMap.entries.filterMap fun e => e.2.closePacket := rfl
  rw [hrec,hall]
  cases hp : data.closePacket with
  | none => simpa [List.filterMap_cons,hp] using hperm
  | some p => simpa [List.filterMap_cons,hp] using hperm

theorem Owns.eraseRecord (h : Owns handed l) (id : ConnectionId) :
    Owns handed (l.eraseRecord id) := by
  refine ⟨?_,fun e he => h.own e ?_⟩
  · cases hf : l.connectionIdMap.find id with
    | none => simpa [TimeWaitList.eraseRecord,hf] using h.perm
    | some data =>
      have hnotes : (l.eraseRecord id).notes = l.notes ++ release data.closePacket := by
        simp [TimeWaitList.eraseRecord,hf]
      rw [hnotes,releases_append,releases_release,List.append_assoc]
      exact ((stored_perm_erase hf).append_left _).trans h.perm
  · rw [entries_eraseRecord] at he
    exact (List.mem_filter.mp he).1

theorem Owns.add {max now : ℤ} {id : ConnectionId} {version : QuicVersion} {p : Option PacketId}
    (h : Owns handed l) (ha : l.addConnectionIdToTimeWait max now id version p = .ok l') :
    Owns (handed ++ (p.map (Prod.mk id)).toList) l' := by
  obtain ⟨l₁,_,hd,hnew,rfl⟩ := add_cases ha
  have h₁ := hd.keeps (fun ho hs => Owns.drop ho hs) (h.eraseRecord id)
  have hentries : ∀ data notes, entries ⟨l₁.connectionIdMap.insert id data,notes⟩ =
      l₁.entries ++ [(id,data)] := fun data _ => LinkedHashMap.entries_insert hnew
  constructor
  · have hnotes : ∀ b : Bool, releases (if b then [TimeWaitNote.added id] else []) = [] := by
      intro b
      cases b <;> rfl
    have hstored : ∀ data notes, stored ⟨l₁.connectionIdMap.insert id data,notes⟩ =
        l₁.stored ++ data.closePacket.toList := by
      intro data notes
      rw [stored,hentries,List.filterMap_append]
      cases hp : data.closePacket <;> simp [hp,stored]
    rw [hstored,releases_append,hnotes,List.append_nil,← List.append_assoc,List.map_append]
    cases p with
    | none => simpa using h₁.perm
    | some p => simpa using h₁.perm.append_right [p]
  · intro e he q hq
    rw [hentries] at he
    rcases List.mem_append.mp he with he | he
    · exact List.mem_append_left _ (h₁.own e he q hq)
    · obtain rfl := List.mem_singleton.mp he
      simp only at hq
      simp [hq]

theorem stored_countPacket (l : TimeWaitList) (id : ConnectionId) :
    (l.countPacket id).stored = l.stored := by
  unfold stored countPacket entries LinkedHashMap.modify
  rw [List.filterMap_map]
  refine List.filterMap_congr fun e _ => ?_
  simp only [Function.comp_apply]
  split_ifs <;> rfl

theorem Owns.countPacket (h : Owns handed l) (id : ConnectionId) : Owns handed (l.countPacket id) := by
  refine ⟨by rw [stored_countPacket]; exact h.perm,fun e he p hp => ?_⟩
  obtain ⟨e',he',rfl⟩ := List.mem_map.mp he
  have hsame := h.own e' he' p
  by_cases hid : e'.1 = id
  · simp only [hid,if_true] at hp ⊢
    rw [← hid]
    exact hsame hp
  · simp only [hid,if_false] at hp ⊢
    exact hsame hp

theorem Notified.countPacket (h : Notified pending l) (id : ConnectionId) :
    Notified pending (l.countPacket id) := by
  refine ⟨h.alternates,fun x => ?_,fun x hx => ?_⟩
  · simpa [TimeWaitList.countPacket] using h.last x
  · simpa [TimeWaitList.countPacket] using h.apart x hx

end TimeWaitList

namespace TimeWaitManager

def Event.handed : Event → Option (ConnectionId × PacketId)
  | .addConnectionIdToTimeWait id _ p => p.map (Prod.mk id)
  | _ => none

def handed (es : List Event) : List (ConnectionId × PacketId) := es.filterMap Event.handed

/-- The list after some calls, as its visitor and the owners of the packets see it. -/
structure Reported (es : List Event) (d : Dispatcher) : Prop where
  notified : d.timeWaitList.Notified fun _ => False
  owns : d.timeWaitList.Owns (handed es)

variable {d d' : Dispatcher}

theorem Reported.initial (versions : List QuicVersion) (period max now : ℤ)
    (version : QuicVersion) : Reported [] (.init versions period max now version) where
  notified := ⟨fun _ => List.isChain_singleton _,fun _ => by
    simp [Dispatcher.init,TimeWaitList.init,LinkedHashMap.empty,LinkedHashMap.keys,visits],
    fun _ h => absurd h not_false⟩
  owns := ⟨by rfl,fun e he => by cases he⟩

theorem Reported.step {es : List Event} {e : Event} (h : Reported es d) (hs : step d e = .ok d') :
    Reported (es ++ [e]) d' := by
  have hstep : handed (es ++ [e]) = handed es ++ e.handed.toList := by
    cases he : e.handed <;> simp [handed,he]
  have hlist : d'.timeWaitList.Notified (fun _ => False) ∧
      d'.timeWaitList.Owns (handed es ++ e.handed.toList) := by
    have heff := step_effect hs
    generalize d'.timeWaitList = l at heff ⊢
    cases heff with
    | keeps _ hadd hproc =>
      have hnone : e.handed = none := by
        cases e <;> first | rfl | exact absurd rfl (hadd _ _ _)
      simpa [hnone] using And.intro h.notified h.owns
    | adds id version p l ha => exact ⟨h.notified.add ha,h.owns.add ha⟩
    | counts server client id n status data =>
      exact ⟨h.notified.countPacket id,by simpa [Event.handed] using h.owns.countPacket id⟩
    | drops _ _ hadd hproc hd =>
      have hnone : e.handed = none := by
        cases e <;> first | rfl | exact absurd rfl (hadd _ _ _)
      rw [hnone,Option.toList_none,List.append_nil]
      exact ⟨hd.keeps (fun hn hs => hn.drop hs) h.notified,
        hd.keeps (fun ho hs => TimeWaitList.Owns.drop ho hs) h.owns⟩
  exact ⟨hlist.1,hstep ▸ hlist.2⟩

/-- A close packet that is like no other was deleted once and is gone, or is the one in
the record of its id. -/
theorem Reported.owned {es : List Event} (h : Reported es d)
    (hfresh : ((handed es).map Prod.snd).Nodup) {id : ConnectionId} {p : PacketId}
    (hp : (id,p) ∈ handed es) :
    ((∃ data, d.timeWaitList.connectionIdMap.find id = some data ∧ data.closePacket = some p) ∧
      d.timeWaitList.notes.count (.released p) = 0) ∨
    ((∀ e ∈ d.timeWaitList.entries, e.2.closePacket ≠ some p) ∧
      d.timeWaitList.notes.count (.released p) = 1) := by
  have hnd := h.owns.perm.nodup_iff.mpr hfresh
  obtain ⟨hreleased,_,hdisjoint⟩ := List.nodup_append.mp hnd
  have hmem := h.owns.perm.mem_iff.mpr (List.mem_map_of_mem (f:=Prod.snd) hp)
  rw [← count_releases]
  rcases List.mem_append.mp hmem with hmem | hmem
  · refine Or.inr ⟨fun e he hep => ?_,List.count_eq_one_of_mem hreleased hmem⟩
    exact hdisjoint p hmem p (List.mem_filterMap.mpr ⟨e,he,hep⟩) rfl
  · refine Or.inl ⟨?_,List.count_eq_zero.mpr fun hr => hdisjoint p hr p hmem rfl⟩
    obtain ⟨e,he,hep⟩ := List.mem_filterMap.mp hmem
    have hsame : (e.1,p) = (id,p) := List.inj_on_of_nodup_map hfresh (h.owns.own e he p hep) hp rfl
    obtain rfl : e.1 = id := congrArg Prod.fst hsame
    exact ⟨e.2,LinkedHashMap.find_eq_some.mpr he,hep⟩

/-- After any calls under any limits: for each id the visitor was told of additions and
removals in turn, an addition last exactly if the id is in the list; and a fresh close
packet is in the record of its id, or was deleted once. -/
theorem visitor_sees_list {versions : List QuicVersion} {period max now : ℤ} {version : QuicVersion}
    {es : List Event} (h : machine.Run (.init versions period max now version) es d) :
    (∀ id, Alternates (visits id d.timeWaitList.notes) ∧
      ((visits id d.timeWaitList.notes).getLast? = some true ↔
        d.timeWaitList.isConnectionIdInTimeWait id = true)) ∧
    (((handed es).map Prod.snd).Nodup → ∀ id p, (id,p) ∈ handed es →
      ((∃ data, d.timeWaitList.connectionIdMap.find id = some data ∧ data.closePacket = some p) ∧
        d.timeWaitList.notes.count (.released p) = 0) ∨
      ((∀ e ∈ d.timeWaitList.entries, e.2.closePacket ≠ some p) ∧
        d.timeWaitList.notes.count (.released p) = 1)) := by
  have hrep : Reported ([] ++ es) d := h.history (P:=Reported) (fun hr _ hs => hr.step hs)
    (.initial versions period max now version)
  rw [List.nil_append] at hrep
  refine ⟨fun id => ⟨hrep.notified.alternates id,?_⟩,fun hfresh id p hp => hrep.owned hfresh hp⟩
  simpa [TimeWaitList.isConnectionIdInTimeWait,LinkedHashMap.contains] using
    hrep.notified.last id

/-- Two ids with close packets; the second is added again, trims the first away, and
expires in the end. -/
theorem visitor_sees_trims : ∃ d, machine.Run (.init [25] 200 (-1) 100 25)
    [.addConnectionIdToTimeWait 1 25 (some 5),.addConnectionIdToTimeWait 2 25 (some 6),
      .setMaxConnections 1,.addConnectionIdToTimeWait 2 24 (some 7),.tick 400,
      .cleanUpOldConnectionIds,.addConnectionIdToTimeWait 1 25 none] d ∧
    (∀ id, Alternates (visits id d.timeWaitList.notes) ∧
      ((visits id d.timeWaitList.notes).getLast? = some true ↔
        d.timeWaitList.isConnectionIdInTimeWait id = true)) ∧
    d.timeWaitList.notes.count (.released 7) = 1 := by
  obtain ⟨d,hd,hout⟩ : ∃ d, machine.Run (.init [25] 200 (-1) 100 25)
    [.addConnectionIdToTimeWait 1 25 (some 5),.addConnectionIdToTimeWait 2 25 (some 6),
      .setMaxConnections 1,.addConnectionIdToTimeWait 2 24 (some 7),.tick 400,
      .cleanUpOldConnectionIds,.addConnectionIdToTimeWait 1 25 none] d ∧
      (d.timeWaitList.connectionIdMap.find 2).isNone = true :=
    machine.exists_run_of_exec_any (by decide +kernel)
  obtain ⟨h₁,h₂⟩ := visitor_sees_list hd
  refine ⟨d,hd,h₁,?_⟩
  rcases h₂ (by decide) 2 7 (by decide) with ⟨⟨data,hdata,_⟩,_⟩ | ⟨_,hone⟩
  · rw [hdata] at hout
    cases hout
  · exact hone

end TimeWaitManager
end CmuQuic
