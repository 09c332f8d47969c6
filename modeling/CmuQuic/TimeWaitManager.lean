import CmuQuic.DispatcherSteps

/-! `QuicTimeWaitListManager` by itself: its public operations in any order and with any
arguments, over the writer and the visitor that it shares with the dispatcher. -/
namespace CmuQuic
namespace TimeWaitList

/-- The oldest entry is removed, its close packet deleted and the visitor told. -/
def Drops (l l' : TimeWaitList) : Prop :=
  ∃ id data es, l.entries = (id,data) :: es ∧
    l' = ⟨l.connectionIdMap.popFront,l.notes ++ release data.closePacket ++ [.removed id]⟩

abbrev DropsMany : TimeWaitList → TimeWaitList → Prop := Relation.ReflTransGen Drops

variable {l l' : TimeWaitList}

theorem DropsMany.keeps {P : TimeWaitList → Prop} (hP : ∀ {l l'}, P l → Drops l l' → P l')
    (h : DropsMany l l') (hl : P l) : P l' := by
  induction h with
  | refl => exact hl
  | tail _ hs ih => exact hP ih hs

theorem Drops.entries (h : Drops l l') : ∃ e, l.entries = e :: l'.entries := by
  obtain ⟨id,data,es,he,rfl⟩ := h
  have hpop : (l.connectionIdMap.popFront).entries = es := LinkedHashMap.popFront_of_cons he
  exact ⟨(id,data),by rw [he]; exact congrArg _ hpop.symm⟩

theorem DropsMany.entries (h : DropsMany l l') : ∃ k, l'.entries = l.entries.drop k := by
  induction h with
  | refl => exact ⟨0,rfl⟩
  | tail _ hs ih =>
    obtain ⟨k,hk⟩ := ih
    obtain ⟨e,he⟩ := hs.entries
    exact ⟨k+1,by rw [← List.tail_drop,← hk,he,List.tail_cons]⟩

theorem maybeExpire_cases (l : TimeWaitList) (t : QuicTime) :
    l.maybeExpireOldestConnection t = (l,false) ∨
      ∃ l', l.maybeExpireOldestConnection t = (l',true) ∧ Drops l l' := by
  cases he : l.entries with
  | nil => exact Or.inl (maybeExpire_nil he t)
  | cons e es =>
    cases ht : t.isBefore e.2.timeAdded with
    | true => exact Or.inl ((maybeExpire_cons he t).1 ht)
    | false =>
      exact Or.inr ⟨_,by simp [maybeExpireOldestConnection,he,ht],e.1,e.2,es,he,rfl⟩

theorem expireLoop_drops (t : QuicTime) (fuel : ℕ) (l : TimeWaitList) :
    DropsMany l (expireLoop t fuel l) := by
  induction fuel generalizing l with
  | zero => exact .refl
  | succ fuel ih =>
    rcases maybeExpire_cases l t with h | ⟨l',h,hd⟩
    · simp only [expireLoop,h]
      exact .refl
    · simp only [expireLoop,h]
      exact .head hd (ih l')

theorem trimLoop_drops {max : ℤ} {fuel : ℕ} (h : trimLoop max fuel l = some l') :
    DropsMany l l' := by
  induction fuel generalizing l with
  | zero => cases h
  | succ fuel ih =>
    rw [trimLoop] at h
    split_ifs at h with hm
    · rcases maybeExpire_cases l .infinite with h₁ | ⟨l₁,h₁,hd⟩
      · rw [h₁] at h
        exact ih h
      · rw [h₁] at h
        exact .head hd (ih h)
    · cases h
      exact .refl

theorem trim_drops {max : ℤ} (h : l.trimTimeWaitListIfNeeded max = .ok l') : DropsMany l l' := by
  unfold trimTimeWaitListIfNeeded at h
  split_ifs at h
  · cases h
    exact .refl
  · split at h
    · cases h
    · rename_i l₁ h₁
      cases h
      exact trimLoop_drops h₁

theorem notMem_eraseRecord (l : TimeWaitList) (id : ConnectionId) :
    id ∉ (l.eraseRecord id).connectionIdMap.keys := by
  intro hmem
  obtain ⟨e,he,hid⟩ := List.mem_map.mp hmem
  have he : e ∈ (l.eraseRecord id).entries := he
  rw [entries_eraseRecord] at he
  simp [hid] at he

theorem DropsMany.notMem (h : DropsMany l l') {id : ConnectionId}
    (hid : id ∉ l.connectionIdMap.keys) : id ∉ l'.connectionIdMap.keys := by
  obtain ⟨k,hk⟩ := h.entries
  intro hmem
  obtain ⟨e,he,rfl⟩ := List.mem_map.mp hmem
  have he : e ∈ l'.entries := he
  rw [hk] at he
  exact hid (List.mem_map_of_mem (List.mem_of_mem_drop he))

/-- An addition that comes back: the old record is erased, the oldest entries are
dropped, and the new record is put at the end. -/
theorem add_cases {max now : ℤ} {id : ConnectionId} {version : QuicVersion} {p : Option PacketId}
    (h : l.addConnectionIdToTimeWait max now id version p = .ok l') :
    ∃ l₁, (l.eraseRecord id).trimTimeWaitListIfNeeded max = .ok l₁ ∧
      DropsMany (l.eraseRecord id) l₁ ∧ id ∉ l₁.connectionIdMap.keys ∧
      l' = ⟨l₁.connectionIdMap.insert id
          ⟨((l.connectionIdMap.find id).map (·.numPackets)).getD 0,version,now,p⟩,
        l₁.notes ++ if (l.connectionIdMap.find id).isNone then [.added id] else []⟩ := by
  obtain ⟨l₁,h₁,h⟩ := except_bind_eq_ok h
  have hd := trim_drops h₁
  refine ⟨l₁,h₁,hd,hd.notMem (notMem_eraseRecord l id),?_⟩
  by_cases hroom : (l₁.numConnections : ℤ) < toSizeT max
  · rw [if_pos hroom] at h
    cases h
    rfl
  · rw [if_neg hroom] at h
    cases h

def others (l : TimeWaitList) (id : ConnectionId) : List (ConnectionId × ConnectionIdData) :=
  l.entries.filter fun e => e.1 ≠ id

def newRecord (l : TimeWaitList) (now : ℤ) (id : ConnectionId) (version : QuicVersion)
    (p : Option PacketId) : ConnectionIdData :=
  ⟨((l.connectionIdMap.find id).map (·.numPackets)).getD 0,version,now,p⟩

theorem trim_length (l : TimeWaitList) {m : ℕ} :
    ∃ l', l.trimTimeWaitListIfNeeded (m+1) = .ok l' ∧
      l'.entries = l.entries.drop (l.entries.length-m) := by
  obtain ⟨l',h₁,h₂⟩ := entries_trimLoop (l:=l) (m:=m) (Nat.lt_succ_self _)
  have h₃ : trimLoop (m+1) (l.numConnections+1) l = some l' := h₁
  have hneg : ¬ ((m : ℤ)+1 < 0) := by omega
  exact ⟨l',by simp [trimTimeWaitListIfNeeded,hneg,h₃],h₂⟩

theorem add_length (l : TimeWaitList) {m : ℕ} (hm : (m : ℤ)+1 < 2^63) (now : ℤ) (id : ConnectionId)
    (version : QuicVersion) (p : Option PacketId) :
    ∃ l', l.addConnectionIdToTimeWait (m+1) now id version p = .ok l' ∧
      l'.entries = (l.others id).drop ((l.others id).length-m) ++
        [(id,l.newRecord now id version p)] := by
  obtain ⟨l₁,h₁,h₂⟩ := trim_length (l.eraseRecord id) (m:=m)
  rw [entries_eraseRecord] at h₂
  have hroom : (l₁.numConnections : ℤ) < toSizeT (m+1) := by
    have hlen : l₁.numConnections = ((l.others id).drop ((l.others id).length-m)).length :=
      congrArg List.length h₂
    rw [hlen,List.length_drop,toSizeT]
    omega
  have hnew := (trim_drops h₁).notMem (notMem_eraseRecord l id)
  have hadd : l.addConnectionIdToTimeWait (m+1) now id version p =
      .ok ⟨l₁.connectionIdMap.insert id (l.newRecord now id version p),
        l₁.notes ++ if (l.connectionIdMap.find id).isNone then [.added id] else []⟩ := by
    simp only [addConnectionIdToTimeWait,h₁,except_ok_bind,if_pos hroom,newRecord]
  exact ⟨_,hadd,(LinkedHashMap.entries_insert hnew).trans (congrArg (· ++ _) h₂)⟩

theorem trimLoop_zero (fuel : ℕ) (l : TimeWaitList) : trimLoop 0 fuel l = none := by
  induction fuel generalizing l with
  | zero => rfl
  | succ fuel ih =>
    have hge : (0 : ℤ) ≤ l.numConnections := Int.natCast_nonneg _
    rw [trimLoop,if_pos hge]
    exact ih _

/-- The call of `TrimTimeWaitListIfNeeded` comes back after some number of rounds. -/
def TrimReturns (l : TimeWaitList) (max : ℤ) : Prop :=
  max < 0 ∨ ∃ fuel, (trimLoop max fuel l).isSome = true

theorem trimReturns_iff (l : TimeWaitList) (max : ℤ) : l.TrimReturns max ↔ max ≠ 0 := by
  constructor
  · rintro (hneg | ⟨fuel,hf⟩) rfl
    · omega
    · rw [trimLoop_zero] at hf
      cases hf
  · intro hne
    rcases lt_or_gt_of_ne hne with hneg | hpos
    · exact Or.inl hneg
    · obtain ⟨m,rfl⟩ : ∃ m : ℕ, max = m+1 := ⟨(max-1).toNat,by omega⟩
      obtain ⟨l',hl,_⟩ := entries_trimLoop (l:=l) (m:=m) (Nat.lt_succ_self _)
      exact Or.inr ⟨_,by rw [hl]; rfl⟩

theorem trim_hangs_iff (l : TimeWaitList) (max : ℤ) :
    l.trimTimeWaitListIfNeeded max = .error .hang ↔ max = 0 := by
  constructor
  · intro h
    by_contra hne
    obtain ⟨l',hl,_⟩ := trim_ok l (show max < 0 ∨ 1 ≤ max by omega)
    rw [hl] at h
    cases h
  · rintro rfl
    simp [trimTimeWaitListIfNeeded,trimLoop_zero]

theorem add_hangs_iff (l : TimeWaitList) (max now : ℤ) (id : ConnectionId) (version : QuicVersion)
    (p : Option PacketId) :
    l.addConnectionIdToTimeWait max now id version p = .error .hang ↔ max = 0 := by
  rw [← trim_hangs_iff (l.eraseRecord id)]
  unfold addConnectionIdToTimeWait
  cases h : (l.eraseRecord id).trimTimeWaitListIfNeeded max with
  | error a => exact Iff.rfl
  | ok l₁ =>
    simp only [except_ok_bind,reduceCtorEq,iff_false]
    split_ifs <;> simp

end TimeWaitList

/-- What answers a packet for an id with this record. -/
def ConnectionIdData.response (data : ConnectionIdData) (id : ConnectionId)
    (sequenceNumber : ℕ) : ResponsePacket :=
  match data.closePacket with
  | some p => .closePacket p
  | none => .publicReset id sequenceNumber

namespace TimeWaitManager

/-- A call of a public method of the manager, or what happens around it: the clock
goes on, the flag is set, and others use the shared writer. `onCanWrite` is one turn of
its loop. -/
inductive Event
  | tick (approximateNow : ℤ)
  | setMaxConnections (maxConnections : ℤ)
  | setWriteBlocked (writeBlocked : Bool)
  | addConnectionIdToTimeWait (id : ConnectionId) (version : QuicVersion)
    (closePacket : Option PacketId)
  | processPacket (serverAddress clientAddress : IPEndPoint) (id : ConnectionId)
    (sequenceNumber : ℕ) (status : WriteStatus)
  | onCanWrite (status : WriteStatus)
  | cleanUpOldConnectionIds
  | trimTimeWaitListIfNeeded

/-- The flag is an `int64`. -/
def admits : Event → Prop
  | .setMaxConnections maxConnections => -2^63 ≤ maxConnections ∧ maxConnections < 2^63
  | _ => True

def step (d : Dispatcher) : Event → Except Abort Dispatcher
  | .tick t => .ok { d with approximateNow := t }
  | .setMaxConnections maxConnections => .ok { d with maxConnections := maxConnections }
  | .setWriteBlocked writeBlocked => .ok { d with writeBlocked := writeBlocked }
  | .addConnectionIdToTimeWait id version closePacket =>
    d.addConnectionIdToTimeWait id version closePacket
  | .processPacket serverAddress clientAddress id sequenceNumber status =>
    d.timeWaitProcessPacket serverAddress clientAddress id sequenceNumber status
  | .onCanWrite status => d.timeWaitOnCanWrite status
  | .cleanUpOldConnectionIds => .ok d.cleanUpOldConnectionIds
  | .trimTimeWaitListIfNeeded => do
    let l ← d.timeWaitList.trimTimeWaitListIfNeeded d.maxConnections
    .ok { d with timeWaitList := l }

def machine : Machine Dispatcher Event Abort := ⟨fun _ => admits,step⟩

instance (d : Dispatcher) : (e : Event) → Decidable (machine.admits d e)
  | .tick _ => inferInstanceAs (Decidable True)
  | .setMaxConnections _ => inferInstanceAs (Decidable (_ ≤ _ ∧ _ < _))
  | .setWriteBlocked _ => inferInstanceAs (Decidable True)
  | .addConnectionIdToTimeWait _ _ _ => inferInstanceAs (Decidable True)
  | .processPacket _ _ _ _ _ => inferInstanceAs (Decidable True)
  | .onCanWrite _ => inferInstanceAs (Decidable True)
  | .cleanUpOldConnectionIds => inferInstanceAs (Decidable True)
  | .trimTimeWaitListIfNeeded => inferInstanceAs (Decidable True)

/-- Everything the manager does besides its list: the record of what it sends, and the
shared writer. -/
structure Untouched (d d' : Dispatcher) : Prop where
  list : d'.timeWaitList = d.timeWaitList
  limit : d'.maxConnections = d.maxConnections

variable {d d' : Dispatcher}

theorem sendOrQueuePacket_effect {p : QueuedPacket} {status : WriteStatus}
    (h : d.sendOrQueuePacket p status = .ok d') :
    Untouched d d' ∧ d'.generated = d.generated ++ [p] := by
  obtain ⟨⟨d₁,b⟩,h₁,h⟩ := except_bind_eq_ok h
  rcases Dispatcher.writeToWire_cases h₁ with ⟨rfl,_,rfl⟩ | ⟨rfl,rfl⟩
  · cases h
    exact ⟨⟨rfl,rfl⟩,rfl⟩
  · cases h
    exact ⟨⟨rfl,rfl⟩,rfl⟩

theorem processPacket_effect {server client : IPEndPoint} {id : ConnectionId} {n : ℕ}
    {status : WriteStatus} (h : d.timeWaitProcessPacket server client id n status = .ok d') :
    ∃ data, d.timeWaitList.connectionIdMap.find id = some data ∧
      d'.timeWaitList = d.timeWaitList.countPacket id ∧ d'.maxConnections = d.maxConnections ∧
      d'.generated = d.generated ++ if Dispatcher.shouldSendResponse (data.numPackets+1) then
        [⟨server,client,data.response id n⟩] else [] := by
  simp only [Dispatcher.timeWaitProcessPacket] at h
  cases hfind : d.timeWaitList.connectionIdMap.find id with
  | none =>
    simp only [Dispatcher.call,hfind] at h
    cases h
  | some data =>
    refine ⟨data,rfl,?_⟩
    simp only [Dispatcher.call,hfind] at h
    split_ifs at h ⊢ with hsend
    · obtain ⟨hu,hg⟩ : Untouched { d with timeWaitList := d.timeWaitList.countPacket id } d' ∧
          d'.generated = d.generated ++ [⟨server,client,data.response id n⟩] := by
        unfold ConnectionIdData.response
        cases hp : data.closePacket with
        | some p =>
          simp only [hp] at h
          obtain ⟨⟨h₁,h₂⟩,h₃⟩ := sendOrQueuePacket_effect h
          exact ⟨⟨h₁,h₂⟩,h₃⟩
        | none =>
          simp only [hp] at h
          obtain ⟨⟨h₁,h₂⟩,h₃⟩ := sendOrQueuePacket_effect h
          exact ⟨⟨h₁,h₂⟩,h₃⟩
      exact ⟨hu.list,hu.limit,hg⟩
    · cases h
      exact ⟨rfl,rfl,by simp⟩

theorem onCanWrite_effect {status : WriteStatus} (h : d.timeWaitOnCanWrite status = .ok d') :
    Untouched d d' := by
  rcases Dispatcher.timeWaitOnCanWrite_cases h with ⟨_,rfl⟩ | ⟨p,rest,_,rfl⟩ | ⟨_,rfl⟩
  · exact ⟨rfl,rfl⟩
  · exact ⟨rfl,rfl⟩
  · exact ⟨rfl,rfl⟩

/-- What one call does to the list: nothing, an addition, a count, or removals of the
oldest entries. -/
inductive Effect (d : Dispatcher) : Event → TimeWaitList → Prop
  | keeps (e) : (∀ id version p, e ≠ .addConnectionIdToTimeWait id version p) →
    (∀ server client id n status, e ≠ .processPacket server client id n status) →
    Effect d e d.timeWaitList
  | adds (id version p l) :
    d.timeWaitList.addConnectionIdToTimeWait d.maxConnections d.approximateNow id version p = .ok l →
    Effect d (.addConnectionIdToTimeWait id version p) l
  | counts (server client id n status data) : d.timeWaitList.connectionIdMap.find id = some data →
    Effect d (.processPacket server client id n status) (d.timeWaitList.countPacket id)
  | drops (e l) : (∀ id version p, e ≠ .addConnectionIdToTimeWait id version p) →
    (∀ server client id n status, e ≠ .processPacket server client id n status) →
    d.timeWaitList.DropsMany l → Effect d e l

theorem step_effect {e : Event} (h : step d e = .ok d') : Effect d e d'.timeWaitList := by
  cases e with
  | tick t =>
    cases h
    exact .keeps _ (by simp) (by simp)
  | setMaxConnections m =>
    cases h
    exact .keeps _ (by simp) (by simp)
  | setWriteBlocked b =>
    cases h
    exact .keeps _ (by simp) (by simp)
  | addConnectionIdToTimeWait id version p =>
    obtain ⟨l,hl,rfl⟩ := Dispatcher.addConnectionIdToTimeWait_cases h
    exact .adds id version p l hl
  | processPacket server client id n status =>
    obtain ⟨data,hf,hl,_⟩ := processPacket_effect h
    rw [hl]
    exact .counts server client id n status data hf
  | onCanWrite status =>
    rw [(onCanWrite_effect h).list]
    exact .keeps _ (by simp) (by simp)
  | cleanUpOldConnectionIds =>
    cases h
    exact .drops _ _ (by simp) (by simp) (TimeWaitList.expireLoop_drops _ _ _)
  | trimTimeWaitListIfNeeded =>
    obtain ⟨l,hl,h⟩ := except_bind_eq_ok h
    cases h
    exact .drops _ _ (by simp) (by simp) (TimeWaitList.trim_drops hl)

theorem step_limit {e : Event} (h : step d e = .ok d') (he : ∀ m, e ≠ .setMaxConnections m) :
    d'.maxConnections = d.maxConnections := by
  cases e with
  | setMaxConnections m => exact absurd rfl (he m)
  | addConnectionIdToTimeWait id version p =>
    obtain ⟨l,_,rfl⟩ := Dispatcher.addConnectionIdToTimeWait_cases h
    rfl
  | processPacket server client id n status =>
    obtain ⟨_,_,_,hm,_⟩ := processPacket_effect h
    exact hm
  | onCanWrite status => exact (onCanWrite_effect h).limit
  | trimTimeWaitListIfNeeded =>
    obtain ⟨l,_,h⟩ := except_bind_eq_ok h
    cases h
    rfl
  | _ =>
    cases h
    rfl

theorem Effect.length {e : Event} {l : TimeWaitList} {M : ℤ} (h : Effect d e l)
    (h₁ : 1 ≤ M) (h₂ : M < 2^63) (hd : d.maxConnections = M)
    (hl : (d.timeWaitList.numConnections : ℤ) ≤ M) : (l.numConnections : ℤ) ≤ M := by
  cases h with
  | keeps => exact hl
  | adds id version p l ha =>
    obtain ⟨m,rfl⟩ : ∃ m : ℕ, M = m+1 := ⟨(M-1).toNat,by omega⟩
    rw [hd] at ha
    obtain ⟨l',ha',he⟩ := d.timeWaitList.add_length h₂ d.approximateNow id version p
    rw [ha] at ha'
    cases ha'
    have hlen : l.numConnections = _ := congrArg List.length he
    rw [hlen,List.length_append,List.length_drop,List.length_singleton]
    omega
  | counts server client id n status data =>
    have hlen : (d.timeWaitList.countPacket id).numConnections = d.timeWaitList.numConnections := by
      obtain ⟨f,hf,_⟩ := d.timeWaitList.entries_countPacket id
      exact (congrArg List.length hf).trans (List.length_map f)
    rw [hlen]
    exact hl
  | drops _ _ _ _ hdrops =>
    obtain ⟨k,hk⟩ := hdrops.entries
    have hlen : l.numConnections = _ := congrArg List.length hk
    rw [hlen,List.length_drop]
    have hn : d.timeWaitList.numConnections = d.timeWaitList.entries.length := rfl
    omega

theorem length_of_run {M : ℤ} (h₁ : 1 ≤ M) (h₂ : M < 2^63) {es : List Event}
    (h : machine.Run d es d') (hes : ∀ m, .setMaxConnections m ∉ es) (hd : d.maxConnections = M)
    (hl : (d.timeWaitList.numConnections : ℤ) ≤ M) : (d'.timeWaitList.numConnections : ℤ) ≤ M := by
  induction h with
  | nil => exact hl
  | cons _ hs _ ih =>
    have he : ∀ m, _ ≠ Event.setMaxConnections m := fun m hm => hes m (hm ▸ List.mem_cons_self)
    exact ih (fun m hm => hes m (List.mem_cons_of_mem _ hm)) ((step_limit hs he).trans hd)
      ((step_effect hs).length h₁ h₂ hd hl)

/-- Whatever the list held before and whatever limit it was held to, an addition comes
back with the id as the newest entry and with the oldest other entries removed, as many
as are too many; and under one limit the list never outgrows it. -/
theorem addition_evicts_oldest (M : ℤ) (h₁ : 1 ≤ M) (h₂ : M < 2^63) :
    (∀ (l : TimeWaitList) (now : ℤ) (id : ConnectionId) (version : QuicVersion)
      (p : Option PacketId), ∃ l', ∃ k : ℕ,
      l.addConnectionIdToTimeWait M now id version p = .ok l' ∧
      (k : ℤ) = max 0 (((l.others id).length : ℤ)-(M-1)) ∧
      l'.entries = (l.others id).drop k ++ [(id,l.newRecord now id version p)] ∧
      (l'.numConnections : ℤ) ≤ M) ∧
    ∀ (versions : List QuicVersion) (period now : ℤ) (version : QuicVersion) (es : List Event)
      (d : Dispatcher), machine.Run (.init versions period M now version) es d →
      (∀ m, .setMaxConnections m ∉ es) → (d.timeWaitList.numConnections : ℤ) ≤ M := by
  obtain ⟨m,rfl⟩ : ∃ m : ℕ, M = m+1 := ⟨(M-1).toNat,by omega⟩
  constructor
  · intro l now id version p
    obtain ⟨l',hl,he⟩ := l.add_length h₂ now id version p
    refine ⟨l',_,hl,?_,he,?_⟩
    · omega
    · have hlen : l'.numConnections = _ := congrArg List.length he
      rw [hlen,List.length_append,List.length_drop,List.length_singleton]
      omega
  · intro versions period now version es d h hes
    exact length_of_run h₁ h₂ h hes rfl (by simp [Dispatcher.init,TimeWaitList.init,
      TimeWaitList.numConnections,LinkedHashMap.size,LinkedHashMap.empty]; omega)

/-- An id is added again to a list that was filled under a larger limit. -/
theorem addition_evicts_oldest_of_two : ∃ d, machine.Run (.init [25] 200 4 100 25)
      [.addConnectionIdToTimeWait 1 25 none,.addConnectionIdToTimeWait 2 25 (some 7),
        .addConnectionIdToTimeWait 3 25 none,.addConnectionIdToTimeWait 4 25 none] d ∧
    ∃ l' k, d.timeWaitList.addConnectionIdToTimeWait 2 100 3 24 (some 8) = .ok l' ∧
      k = 2 ∧ l'.entries = (d.timeWaitList.others 3).drop k ++
        [(3,d.timeWaitList.newRecord 100 3 24 (some 8))] := by
  obtain ⟨d,hd,hlen⟩ : ∃ d, machine.Run (.init [25] 200 4 100 25)
      [.addConnectionIdToTimeWait 1 25 none,.addConnectionIdToTimeWait 2 25 (some 7),
        .addConnectionIdToTimeWait 3 25 none,.addConnectionIdToTimeWait 4 25 none] d ∧
      ((d.timeWaitList.others 3).length == 3) = true :=
    machine.exists_run_of_exec_any (by decide +kernel)
  obtain ⟨l',k,h₁,hk,h₂,_⟩ := (addition_evicts_oldest 2 (by decide) (by decide)).1 d.timeWaitList
    100 3 24 (some 8)
  rw [eq_of_beq hlen] at hk
  exact ⟨d,hd,l',k,h₁,by omega,h₂⟩

end TimeWaitManager

def Returns {A : Type} (x : Except Abort A) : Prop := x ≠ .error .hang

namespace Returns

variable {A B : Type} {x : Except Abort A} {f : A → Except Abort B}

@[simp] theorem of_ok (a : A) : Returns (.ok a : Except Abort A) := by simp [Returns]

theorem bind (hx : Returns x) (hf : ∀ a, x = .ok a → Returns (f a)) : Returns (x >>= f) := by
  cases x with
  | error e => exact fun h => hx (by cases h; rfl)
  | ok a => exact hf a rfl

end Returns

namespace Dispatcher

variable {d : Dispatcher}

theorem writePacket_returns (status : WriteStatus) : Returns (d.writePacket status) := by
  unfold writePacket
  split_ifs <;> simp [Returns]

theorem writeToWire_returns (p : QueuedPacket) (status : WriteStatus) :
    Returns (d.writeToWire p status) := by
  unfold writeToWire
  split_ifs
  · simp
  · refine (writePacket_returns status).bind fun d₁ _ => ?_
    split_ifs <;> simp [Returns,isWriteBlockedDataBuffered]
  · refine (writePacket_returns status).bind fun d₁ _ => ?_
    simp

theorem sendOrQueuePacket_returns (p : QueuedPacket) (status : WriteStatus) :
    Returns (d.sendOrQueuePacket p status) := by
  refine (writeToWire_returns p status).bind fun r _ => ?_
  obtain ⟨d₁,b⟩ := r
  cases b <;> simp

theorem timeWaitProcessPacket_returns (server client : IPEndPoint) (id : ConnectionId) (n : ℕ)
    (status : WriteStatus) : Returns (d.timeWaitProcessPacket server client id n status) := by
  simp only [timeWaitProcessPacket]
  split
  · simp [Returns]
  · split_ifs
    · split
      · exact sendOrQueuePacket_returns _ status
      · exact sendOrQueuePacket_returns _ status
    · simp

theorem handlePacketForTimeWait_returns (header : QuicPacketPublicHeader) :
    Returns (d.handlePacketForTimeWait header) := by
  unfold handlePacketForTimeWait
  split_ifs
  · simp
  · refine Returns.bind ?_ fun _ _ => by simp
    unfold getQuicVersionFromConnectionId
    split <;> simp [Returns]

theorem addConnectionIdToTimeWait_returns_iff (id : ConnectionId) (version : QuicVersion)
    (p : Option PacketId) :
    Returns (d.addConnectionIdToTimeWait id version p) ↔ d.maxConnections ≠ 0 := by
  rw [ne_eq,← d.timeWaitList.add_hangs_iff d.maxConnections d.approximateNow id version p]
  unfold addConnectionIdToTimeWait Returns
  cases d.timeWaitList.addConnectionIdToTimeWait d.maxConnections d.approximateNow id version p with
  | error a => simp [bind,Except.bind]
  | ok l => simp

theorem addUnknownToTimeWait_returns (hm : d.maxConnections ≠ 0) (id : ConnectionId)
    (version : QuicVersion) : Returns (d.addUnknownToTimeWait id version) := by
  refine ((addConnectionIdToTimeWait_returns_iff id version none).mpr hm).bind fun d₁ _ => ?_
  split_ifs <;> simp [Returns]

theorem processUdpPacket_returns (session : SessionId) : Returns (d.processUdpPacket session) := by
  unfold processUdpPacket
  split <;> simp [Returns]

theorem additionalValidityChecks_returns (hm : d.maxConnections ≠ 0)
    (header : QuicPacketPublicHeader) (succeeds : Bool) :
    Returns (d.additionalValidityChecksThenCreateSession header succeeds) := by
  cases succeeds with
  | true => simp [additionalValidityChecksThenCreateSession,createQuicSession]
  | false =>
    simp only [additionalValidityChecksThenCreateSession,createQuicSession,Bool.false_eq_true,
      if_false]
    split_ifs
    · refine Returns.bind (addUnknownToTimeWait_returns (d:=d.call _) hm _ _) fun d₁ _ => ?_
      exact (handlePacketForTimeWait_returns header).bind fun _ _ => by simp
    · simp

theorem onUnauthenticatedPublicHeader_returns (hm : d.maxConnections ≠ 0) (client : IPEndPoint)
    (header : QuicPacketPublicHeader) (succeeds : Bool) :
    Returns (d.onUnauthenticatedPublicHeader client header succeeds) := by
  by_cases hport : client.port = 0
  · simp [onUnauthenticatedPublicHeader,hport]
  rw [onUnauthenticatedPublicHeader,if_neg hport]
  cases hfind : d.sessionMap.find header.connectionId with
  | some session => exact processUdpPacket_returns session
  | none =>
    simp only
    split_ifs
    · exact handlePacketForTimeWait_returns header
    · simp
    · split
      · simp [Returns]
      · exact (addUnknownToTimeWait_returns hm _ _).bind fun _ _ =>
          handlePacketForTimeWait_returns header
    · refine (additionalValidityChecks_returns hm header succeeds).bind fun r _ => ?_
      obtain ⟨d₁,o⟩ := r
      cases o with
      | none => simp
      | some session => exact processUdpPacket_returns session

theorem framerParsesHeader_returns (server client : IPEndPoint) (header : QuicPacketPublicHeader)
    (n : Option ℕ) (status : WriteStatus) :
    Returns (d.framerParsesHeader server client header n status) := by
  unfold framerParsesHeader
  split_ifs
  · simp [Returns]
  · cases n with
    | none => simp
    | some n =>
      simp only [onUnauthenticatedHeader]
      split_ifs
      · exact timeWaitProcessPacket_returns server client _ n status
      · simp [Returns]

theorem processPacket_returns (hm : d.maxConnections ≠ 0) (server client : IPEndPoint)
    (packet : QuicEncryptedPacket) (succeeds : Bool) (status : WriteStatus) :
    Returns (d.processPacket server client packet succeeds status) := by
  unfold processPacket
  split
  · simp
  · rename_i header _
    refine (onUnauthenticatedPublicHeader_returns hm client header succeeds).bind fun r _ => ?_
    obtain ⟨d₁,b⟩ := r
    cases b with
    | false => simp
    | true =>
      simp only [framerContinues,onProtocolVersionMismatch]
      split_ifs
      · exact framerParsesHeader_returns server client header _ status
      · simp
      · exact framerParsesHeader_returns server client header _ status

theorem cleanUpSession_returns (hm : d.maxConnections ≠ 0) (id : ConnectionId)
    (session : SessionId) : Returns (d.cleanUpSession id session) := by
  unfold cleanUpSession
  split
  · simp [Returns]
  · refine Returns.bind ?_ fun _ _ => Returns.of_ok _
    exact (addConnectionIdToTimeWait_returns_iff _ _ _).mpr hm

theorem onConnectionClosed_returns (hm : d.maxConnections ≠ 0) (id : ConnectionId) :
    Returns (d.onConnectionClosed id) := by
  unfold onConnectionClosed
  split
  · simp
  · rename_i session _
    have halarm : Returns d.setDeleteSessionsAlarm := by
      unfold setDeleteSessionsAlarm
      split_ifs <;> simp [Returns]
    refine halarm.bind fun d₁ h₁ => ?_
    have hm₁ : d₁.maxConnections ≠ 0 := by
      unfold setDeleteSessionsAlarm at h₁
      split_ifs at h₁
      · cases h₁
        exact hm
      · cases h₁
        exact hm
    exact cleanUpSession_returns (d:={ d₁ with closedSessionList := d₁.closedSessionList ++ [session] })
      hm₁ id session

/-- A trim comes back, and with it every addition, every close of a connection and every
packet, exactly under a limit that is not zero: with the limit zero the loop of
`TrimTimeWaitListIfNeeded` never ends. -/
theorem trim_returns_iff (d : Dispatcher) :
    (d.timeWaitList.TrimReturns d.maxConnections ∧
      (∀ id version p, Returns (d.addConnectionIdToTimeWait id version p)) ∧
      (∀ id, Returns (d.onConnectionClosed id)) ∧
      ∀ server client packet succeeds status,
        Returns (d.processPacket server client packet succeeds status)) ↔ d.maxConnections ≠ 0 := by
  rw [TimeWaitList.trimReturns_iff]
  constructor
  · exact fun h => h.1
  · intro hm
    exact ⟨hm,fun id version p => (addConnectionIdToTimeWait_returns_iff id version p).mpr hm,
      fun id => onConnectionClosed_returns hm id,
      fun server client packet succeeds status =>
        processPacket_returns hm server client packet succeeds status⟩

/-- One packet without a version, for an id that nobody knows, under the limit zero. -/
theorem trim_never_returns : ¬ (Dispatcher.init [25] 200 0 100 25).timeWaitList.TrimReturns 0 ∧
    (Dispatcher.init [25] 200 0 100 25).processPacket ⟨1,443⟩ ⟨2,5000⟩ ⟨some ⟨7,false,false,0⟩,some 1⟩
      true .ok = .error .hang := by
  constructor
  · rw [TimeWaitList.trimReturns_iff]
    exact fun h => h rfl
  · rfl

end Dispatcher
end CmuQuic
