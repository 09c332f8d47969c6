import CmuQuic.EpollServer
import CmuQuic.LinkedHashMap

/-! The map of `QuicTimeWaitListManager`: the connection ids in time wait, in the
order in which they were added. Times are exact microseconds. -/
namespace CmuQuic

abbrev ConnectionId := ℕ

abbrev QuicVersion := ℕ

abbrev PacketId := ℕ

/-- A point in time, or `QuicTime::Infinite()`. -/
inductive QuicTime
  | us (t : ℤ)
  | infinite
  deriving DecidableEq

def QuicTime.isBefore : QuicTime → ℤ → Bool
  | .us t, u => t < u
  | .infinite, _ => false

structure ConnectionIdData where
  numPackets : ℕ
  version : QuicVersion
  timeAdded : ℤ
  closePacket : Option PacketId
  deriving DecidableEq

/-- What the manager tells its visitor, and which close packets it deletes. -/
inductive TimeWaitNote
  | added (id : ConnectionId)
  | removed (id : ConnectionId)
  | released (closePacket : PacketId)
  deriving DecidableEq

structure TimeWaitList where
  connectionIdMap : LinkedHashMap ConnectionId ConnectionIdData
  notes : List TimeWaitNote

namespace TimeWaitList

def init : TimeWaitList := ⟨.empty,[]⟩

def entries (l : TimeWaitList) : List (ConnectionId × ConnectionIdData) := l.connectionIdMap.entries

def numConnections (l : TimeWaitList) : ℕ := l.connectionIdMap.size

def isConnectionIdInTimeWait (l : TimeWaitList) (id : ConnectionId) : Bool :=
  l.connectionIdMap.contains id

def release : Option PacketId → List TimeWaitNote
  | none => []
  | some p => [.released p]

def maybeExpireOldestConnection (l : TimeWaitList) (expirationTime : QuicTime) :
    TimeWaitList × Bool :=
  match l.entries with
  | [] => (l,false)
  | (id,data) :: _ =>
    if expirationTime.isBefore data.timeAdded then (l,false)
    else (⟨l.connectionIdMap.popFront,l.notes ++ release data.closePacket ++ [.removed id]⟩,true)

/-- The loop of `CleanUpOldConnectionIds`, cut short after a number of rounds. -/
def expireLoop (expirationTime : QuicTime) : ℕ → TimeWaitList → TimeWaitList
  | 0, l => l
  | fuel+1, l =>
    match l.maybeExpireOldestConnection expirationTime with
    | (l,true) => expireLoop expirationTime fuel l
    | (l,false) => l

/-- Every round of the loop that goes on removes an entry, so that there are never
more rounds than entries. -/
def expireOldConnections (l : TimeWaitList) (expirationTime : QuicTime) : TimeWaitList :=
  expireLoop expirationTime (l.numConnections+1) l

/-- The loop of `TrimTimeWaitListIfNeeded`; `none` if it is still running. -/
def trimLoop (maxConnections : ℤ) : ℕ → TimeWaitList → Option TimeWaitList
  | 0, _ => none
  | fuel+1, l =>
    if maxConnections ≤ l.numConnections then
      trimLoop maxConnections fuel (l.maybeExpireOldestConnection .infinite).1
    else some l

/-- A trim that has emptied the list and still goes on never ends. -/
def trimTimeWaitListIfNeeded (l : TimeWaitList) (maxConnections : ℤ) :
    Except Abort TimeWaitList :=
  if maxConnections < 0 then .ok l
  else match trimLoop maxConnections (l.numConnections+1) l with
    | none => .error .hang
    | some l => .ok l

def toSizeT (n : ℤ) : ℤ := n % 2^64

def eraseRecord (l : TimeWaitList) (id : ConnectionId) : TimeWaitList :=
  match l.connectionIdMap.find id with
  | none => l
  | some data => ⟨l.connectionIdMap.erase id,l.notes ++ release data.closePacket⟩

def addConnectionIdToTimeWait (l : TimeWaitList) (maxConnections now : ℤ) (id : ConnectionId)
    (version : QuicVersion) (closePacket : Option PacketId) : Except Abort TimeWaitList := do
  let old := l.connectionIdMap.find id
  let l ← (l.eraseRecord id).trimTimeWaitListIfNeeded maxConnections
  if (l.numConnections : ℤ) < toSizeT maxConnections then
    let data : ConnectionIdData := ⟨(old.map (·.numPackets)).getD 0,version,now,closePacket⟩
    .ok ⟨l.connectionIdMap.insert id data,l.notes ++ if old.isNone then [.added id] else []⟩
  else .error .dcheck

/-- `ProcessPacket` counts the packet before anything else. -/
def countPacket (l : TimeWaitList) (id : ConnectionId) : TimeWaitList :=
  { l with connectionIdMap := l.connectionIdMap.modify id fun data =>
      { data with numPackets := data.numPackets+1 } }

variable {l : TimeWaitList}

theorem maybeExpire_nil (h : l.entries = []) (t : QuicTime) :
    l.maybeExpireOldestConnection t = (l,false) := by
  simp [maybeExpireOldestConnection,h]

theorem maybeExpire_cons {e : ConnectionId × ConnectionIdData}
    {es : List (ConnectionId × ConnectionIdData)} (h : l.entries = e :: es) (t : QuicTime) :
    (t.isBefore e.2.timeAdded = true → l.maybeExpireOldestConnection t = (l,false)) ∧
    (t.isBefore e.2.timeAdded = false →
      ∃ l', l.maybeExpireOldestConnection t = (l',true) ∧ l'.entries = es) := by
  constructor
  · intro ht
    simp [maybeExpireOldestConnection,h,ht]
  · intro ht
    refine ⟨⟨l.connectionIdMap.popFront,l.notes ++ release e.2.closePacket ++ [.removed e.1]⟩,?_,
      LinkedHashMap.popFront_of_cons h⟩
    simp [maybeExpireOldestConnection,h,ht]

/-- The loop drops what has expired from the front and stops at the first entry
that has not. -/
theorem entries_expireLoop {fuel : ℕ} {t : QuicTime} (hf : l.entries.length < fuel) :
    (expireLoop t fuel l).entries = l.entries.dropWhile fun e => !t.isBefore e.2.timeAdded := by
  induction fuel generalizing l with
  | zero => omega
  | succ fuel ih =>
    cases he : l.entries with
    | nil => simp [expireLoop,maybeExpire_nil he,he]
    | cons e es =>
      rw [he,List.length_cons] at hf
      cases ht : t.isBefore e.2.timeAdded with
      | false =>
        obtain ⟨l',h₁,h₂⟩ := (maybeExpire_cons he t).2 ht
        simp only [expireLoop,h₁]
        rw [ih (by rw [h₂]; omega),h₂]
        simp [ht]
      | true =>
        have h₁ := (maybeExpire_cons he t).1 ht
        simp [expireLoop,h₁,he,ht]

theorem entries_expireOldConnections (t : QuicTime) : (l.expireOldConnections t).entries =
    l.entries.dropWhile fun e => !t.isBefore e.2.timeAdded :=
  entries_expireLoop (Nat.lt_succ_self _)

theorem entries_trimLoop {fuel : ℕ} {m : ℕ} (hf : l.entries.length < fuel) :
    ∃ l', trimLoop (m+1) fuel l = some l' ∧ l'.entries = l.entries.drop (l.entries.length-m) := by
  induction fuel generalizing l with
  | zero => omega
  | succ fuel ih =>
    have hn : l.numConnections = l.entries.length := rfl
    by_cases hm : ((m : ℤ)+1) ≤ l.numConnections
    · have hlen : m+1 ≤ l.entries.length := by omega
      cases he : l.entries with
      | nil => simp [he] at hlen
      | cons e es =>
        obtain ⟨l',h₁,h₂⟩ := (maybeExpire_cons he .infinite).2 rfl
        rw [he,List.length_cons] at hf hlen
        obtain ⟨l'',h₃,h₄⟩ := ih (l:=l') (by rw [h₂]; omega)
        refine ⟨l'',by simp only [trimLoop,hm,if_true,h₁,h₃],?_⟩
        rw [h₄,h₂,List.length_cons,show es.length+1-m = es.length-m+1 by omega,List.drop_succ_cons]
    · refine ⟨l,by simp only [trimLoop,hm,if_false],?_⟩
      have h₂ : l.entries.length-m = 0 := by omega
      rw [h₂,List.drop_zero]

theorem trim_ok (l : TimeWaitList) {max : ℤ} (hmax : max < 0 ∨ 1 ≤ max) :
    ∃ l', l.trimTimeWaitListIfNeeded max = .ok l' ∧
      ∃ k, l'.entries = l.entries.drop k ∧ (1 ≤ max → (l'.entries.length : ℤ) < max) := by
  by_cases hneg : max < 0
  · exact ⟨l,by simp [trimTimeWaitListIfNeeded,hneg],0,rfl,fun h => by omega⟩
  · obtain ⟨m,rfl⟩ : ∃ m : ℕ, max = m+1 := ⟨(max-1).toNat,by omega⟩
    obtain ⟨l',h₁,h₂⟩ := entries_trimLoop (l:=l) (m:=m) (Nat.lt_succ_self _)
    refine ⟨l',?_,_,h₂,fun _ => ?_⟩
    · have h₃ : trimLoop (m+1) (l.numConnections+1) l = some l' := h₁
      simp [trimTimeWaitListIfNeeded,hneg,h₃]
    · rw [h₂,List.length_drop]
      omega

theorem entries_eraseRecord (l : TimeWaitList) (id : ConnectionId) :
    (l.eraseRecord id).entries = l.entries.filter fun e => e.1 ≠ id := by
  unfold eraseRecord
  cases hf : l.connectionIdMap.find id with
  | none =>
    refine (List.filter_eq_self.mpr fun e he => ?_).symm
    have hne : e.1 ≠ id := fun hid =>
      LinkedHashMap.find_eq_none.mp hf (List.mem_map.mpr ⟨e,he,hid⟩)
    simpa using hne
  | some data => rfl

/-- What an addition that comes back has done: the id is the newest entry, and what
is left of the others is the newest part of them, in their old order. -/
theorem add_ok {max now : ℤ} {id : ConnectionId} {version : QuicVersion}
    {closePacket : Option PacketId} {l' : TimeWaitList} (hmax : max < 0 ∨ 1 ≤ max)
    (h : l.addConnectionIdToTimeWait max now id version closePacket = .ok l') :
    ∃ l₁ k, (l.eraseRecord id).trimTimeWaitListIfNeeded max = .ok l₁ ∧
      l₁.entries = (l.entries.filter fun e => e.1 ≠ id).drop k ∧ l'.entries = l₁.entries ++
      [(id,⟨((l.connectionIdMap.find id).map (·.numPackets)).getD 0,version,now,closePacket⟩)] := by
  obtain ⟨l₁,h₁,k,hk,_⟩ := trim_ok (l.eraseRecord id) hmax
  rw [entries_eraseRecord] at hk
  refine ⟨l₁,k,h₁,hk,?_⟩
  have hnew : id ∉ l₁.connectionIdMap.keys := by
    intro hmem
    obtain ⟨e,he,hid⟩ := List.mem_map.mp hmem
    have he : e ∈ l₁.entries := he
    rw [hk] at he
    have hne := (List.mem_filter.mp (List.mem_of_mem_drop he)).2
    simp [hid] at hne
  simp only [addConnectionIdToTimeWait,h₁,except_ok_bind] at h
  by_cases hlt : (l₁.numConnections : ℤ) < toSizeT max
  · rw [if_pos hlt] at h
    cases h
    exact LinkedHashMap.entries_insert hnew
  · rw [if_neg hlt] at h
    cases h

theorem add_keys {max now : ℤ} {id : ConnectionId} {version : QuicVersion}
    {closePacket : Option PacketId} {l' : TimeWaitList} (hmax : max < 0 ∨ 1 ≤ max)
    (h : l.addConnectionIdToTimeWait max now id version closePacket = .ok l') :
    (∀ x ∈ l'.connectionIdMap.keys, x = id ∨ x ∈ l.connectionIdMap.keys) ∧
      ∃ data, l'.connectionIdMap.find id = some data ∧ data.version = version ∧
        data.closePacket = closePacket := by
  obtain ⟨l₁,k,_,hk,hl⟩ := add_ok hmax h
  constructor
  · intro x hx
    obtain ⟨e,he,rfl⟩ := List.mem_map.mp hx
    have he : e ∈ l'.entries := he
    rw [hl,hk] at he
    rcases List.mem_append.mp he with he | he
    · exact Or.inr (List.mem_map_of_mem (List.mem_filter.mp (List.mem_of_mem_drop he)).1)
    · exact Or.inl (by rw [List.mem_singleton.mp he])
  · have hmem := List.mem_append_right l₁.entries (List.mem_singleton_self
      (id,(⟨((l.connectionIdMap.find id).map (·.numPackets)).getD 0,version,now,closePacket⟩ :
        ConnectionIdData)))
    rw [← hl] at hmem
    exact ⟨_,LinkedHashMap.find_eq_some.mpr hmem,rfl,rfl⟩

theorem keys_expireOldConnections (t : QuicTime) {x : ConnectionId}
    (h : x ∈ (l.expireOldConnections t).connectionIdMap.keys) : x ∈ l.connectionIdMap.keys := by
  obtain ⟨e,he,rfl⟩ := List.mem_map.mp h
  have he : e ∈ (l.expireOldConnections t).entries := he
  rw [entries_expireOldConnections] at he
  exact List.mem_map_of_mem ((List.dropWhile_sublist _).subset he)

theorem entries_countPacket (l : TimeWaitList) (id : ConnectionId) :
    ∃ f : ConnectionId × ConnectionIdData → ConnectionId × ConnectionIdData,
      (l.countPacket id).entries = l.entries.map f ∧
      ∀ e, (f e).1 = e.1 ∧ (f e).2.timeAdded = e.2.timeAdded := by
  refine ⟨_,rfl,fun e => ?_⟩
  split_ifs <;> exact ⟨rfl,rfl⟩

/-- In a list that is ordered by time exactly the entries up to the expiration time
are dropped. -/
theorem mem_expireOldConnections
    (ho : l.entries.Pairwise fun e e' => e.2.timeAdded ≤ e'.2.timeAdded) (t : ℤ)
    {e : ConnectionId × ConnectionIdData} :
    e ∈ (l.expireOldConnections (.us t)).entries ↔ e ∈ l.entries ∧ t < e.2.timeAdded := by
  rw [entries_expireOldConnections]
  generalize l.entries = es at ho ⊢
  induction es with
  | nil => simp
  | cons x xs ih =>
    obtain ⟨hx,hxs⟩ := List.pairwise_cons.mp ho
    by_cases ht : t < x.2.timeAdded
    · simp only [List.dropWhile_cons,QuicTime.isBefore,ht,decide_true,Bool.not_true,Bool.false_eq_true,
        if_false]
      refine ⟨fun he => ⟨he,?_⟩,fun he => he.1⟩
      rcases List.mem_cons.mp he with rfl | he
      · exact ht
      · exact ht.trans_le (hx e he)
    · simp only [List.dropWhile_cons,QuicTime.isBefore,ht,decide_false,Bool.not_false,if_true]
      refine (ih hxs).trans ⟨fun he => ⟨List.mem_cons_of_mem _ he.1,he.2⟩,fun he => ⟨?_,he.2⟩⟩
      refine (List.mem_cons.mp he.1).resolve_left ?_
      rintro rfl
      exact ht he.2

end TimeWaitList
end CmuQuic
