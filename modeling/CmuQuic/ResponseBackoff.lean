import CmuQuic.TimeWaitManager

/-! The time-wait list manager answers a packet only if its number, counted since the id
came into the list, is a power of two. -/
namespace CmuQuic

def powersUpTo (k : ℕ) : ℕ := if k = 0 then 0 else Nat.log 2 k+1

theorem powersUpTo_succ (k : ℕ) :
    powersUpTo (k+1) = powersUpTo k + if (k+1).isPowerOfTwo then 1 else 0 := by
  rcases Nat.eq_zero_or_pos k with rfl | hk
  · simp [powersUpTo,Nat.isPowerOfTwo_one]
  have h₁ : powersUpTo (k+1) = Nat.log 2 (k+1)+1 := by simp [powersUpTo]
  have h₂ : powersUpTo k = Nat.log 2 k+1 := by simp [powersUpTo,hk.ne']
  rw [h₁,h₂]
  split_ifs with hp
  · obtain ⟨j,hj⟩ := hp
    cases j with
    | zero => omega
    | succ j =>
      have hlow : 2^j ≤ k := by
        have := Nat.one_le_two_pow (n:=j)
        rw [Nat.pow_succ] at hj
        omega
      have hlog : Nat.log 2 k = j := by
        rw [Nat.log_eq_iff (Or.inr ⟨by decide,hk.ne'⟩)]
        exact ⟨hlow,by omega⟩
      rw [hj,Nat.log_pow (by decide),hlog]
  · have hb := Nat.lt_pow_succ_log_self (b:=2) (by decide) (k+1)
    have ha := Nat.pow_log_le_self 2 (x:=k+1) (by omega)
    have hne : 2^Nat.log 2 (k+1) ≠ k+1 := fun he => hp ⟨_,he.symm⟩
    have hlog : Nat.log 2 k = Nat.log 2 (k+1) := by
      rw [Nat.log_eq_iff (Or.inr ⟨by decide,hk.ne'⟩)]
      omega
    rw [hlog]

theorem shouldSendResponse_iff (k : ℕ) :
    Dispatcher.shouldSendResponse (k+1) = true ↔ (k+1).isPowerOfTwo := by
  rw [← Nat.and_sub_one_eq_zero_iff_isPowerOfTwo (by omega)]
  simp [Dispatcher.shouldSendResponse]

namespace TimeWaitManager

def Event.isPacketFor (id : ConnectionId) : Event → Bool
  | .processPacket _ _ x _ _ => x = id
  | _ => false

def packetsFor (id : ConnectionId) (es : List Event) : ℕ := es.countP (Event.isPacketFor id)

def responses (id : ConnectionId) : Dispatcher → List Event → List QueuedPacket
  | _, [] => []
  | d, e :: es =>
    match step d e with
    | .error _ => []
    | .ok d' =>
      (if e.isPacketFor id then d'.generated.drop d.generated.length else []) ++ responses id d' es

/-- If the id is in the list, then with the number of its packets. -/
def Counts (id : ConnectionId) (k : ℕ) (l : TimeWaitList) : Prop :=
  ∀ data, l.connectionIdMap.find id = some data → data.numPackets = k

variable {id : ConnectionId} {k : ℕ} {d d' : Dispatcher} {l l' : TimeWaitList}

theorem Counts.of_mem (h : Counts id k l)
    (hsub : ∀ data, (id,data) ∈ l'.entries → (id,data) ∈ l.entries) : Counts id k l' := by
  intro data hdata
  have hmem : (id,data) ∈ l'.entries := LinkedHashMap.find_eq_some.mp hdata
  exact h data (LinkedHashMap.find_eq_some.mpr (hsub data hmem))

theorem Counts.drops (h : Counts id k l) (hd : l.DropsMany l') : Counts id k l' := by
  obtain ⟨n,hn⟩ := hd.entries
  exact h.of_mem fun data hmem => List.mem_of_mem_drop (hn ▸ hmem)

/-- An addition of the id keeps its number of packets, and one of another id its
record. -/
theorem Counts.add {max now : ℤ} {x : ConnectionId} {version : QuicVersion} {p : Option PacketId}
    (h : Counts id k l) (hx : x = id → id ∈ l.connectionIdMap.keys ∨ k = 0)
    (ha : l.addConnectionIdToTimeWait max now x version p = .ok l') : Counts id k l' := by
  obtain ⟨l₁,_,hd,hnew,rfl⟩ := TimeWaitList.add_cases ha
  intro data hdata
  have hmem := LinkedHashMap.find_eq_some.mp hdata
  rw [LinkedHashMap.entries_insert hnew,List.mem_append,List.mem_singleton] at hmem
  rcases hmem with hmem | hmem
  · obtain ⟨n,hn⟩ := hd.entries
    have hold : (id,data) ∈ l₁.entries := hmem
    rw [hn,TimeWaitList.entries_eraseRecord] at hold
    replace hold := List.mem_of_mem_drop hold
    exact h data (LinkedHashMap.find_eq_some.mpr (List.mem_filter.mp hold).1)
  · obtain ⟨rfl,rfl⟩ := Prod.mk.inj hmem
    cases hf : l.connectionIdMap.find id with
    | some old => exact h old hf
    | none =>
      rcases hx rfl with hin | rfl
      · exact absurd hin (LinkedHashMap.find_eq_none.mp hf)
      · rfl

theorem Counts.countPacket (h : Counts id k l) (x : ConnectionId) :
    Counts id (if x = id then k+1 else k) (l.countPacket x) := by
  intro data hdata
  obtain ⟨e,he,hed⟩ := List.mem_map.mp (LinkedHashMap.find_eq_some.mp hdata)
  by_cases hx : e.1 = x
  · rw [if_pos hx] at hed
    obtain ⟨hid,rfl⟩ := Prod.mk.inj hed
    have hold := h e.2 (LinkedHashMap.find_eq_some.mpr (hid ▸ he))
    rw [if_pos (hx.symm.trans hid)]
    simp [hold]
  · rw [if_neg hx] at hed
    subst hed
    have hne : ¬ x = id := fun hxi => hx hxi.symm
    rw [if_neg hne]
    exact h data (LinkedHashMap.find_eq_some.mpr he)

theorem Counts.step {e : Event} (h : Counts id k d.timeWaitList) (hs : step d e = .ok d')
    (he : ∀ version p, e = .addConnectionIdToTimeWait id version p →
      id ∈ d.timeWaitList.connectionIdMap.keys) :
    Counts id (if e.isPacketFor id then k+1 else k) d'.timeWaitList := by
  have heff := step_effect hs
  generalize d'.timeWaitList = l at heff ⊢
  cases heff with
  | keeps _ _ hproc =>
    have hno : e.isPacketFor id = false := by
      cases e <;> first | rfl | exact absurd rfl (hproc _ _ _ _ _)
    rw [hno]
    exact h
  | adds x version p l ha =>
    exact h.add (fun hx => Or.inl (he version p (by rw [hx]))) ha
  | counts server client x n status data => simpa [Event.isPacketFor] using h.countPacket x
  | drops _ _ _ hproc hd =>
    have hno : e.isPacketFor id = false := by
      cases e <;> first | rfl | exact absurd rfl (hproc _ _ _ _ _)
    rw [hno]
    exact h.drops hd

/-- Among these calls the id never comes into the list as a new one: where it is added,
it is there. -/
def NoNewEntry (id : ConnectionId) (d : Dispatcher) (es : List Event) : Prop :=
  ∀ before rest version p d₁, es = before ++ .addConnectionIdToTimeWait id version p :: rest →
    machine.Run d before d₁ → id ∈ d₁.timeWaitList.connectionIdMap.keys

theorem NoNewEntry.head {e : Event} {es : List Event} (h : NoNewEntry id d (e :: es))
    (version : QuicVersion) (p : Option PacketId)
    (he : e = .addConnectionIdToTimeWait id version p) :
    id ∈ d.timeWaitList.connectionIdMap.keys :=
  h [] es version p d (by rw [he]; rfl) (.nil d)

theorem NoNewEntry.tail {e : Event} {es : List Event} (h : NoNewEntry id d (e :: es))
    (ha : machine.admits d e) (hs : step d e = .ok d') : NoNewEntry id d' es := by
  intro before rest version p d₁ he hr
  exact h (e :: before) rest version p d₁ (by rw [he]; rfl) (.cons ha hs hr)

theorem packetsFor_cons (id : ConnectionId) (e : Event) (es : List Event) :
    packetsFor id (e :: es) = packetsFor id es + if e.isPacketFor id then 1 else 0 :=
  List.countP_cons

theorem counts_of_run {es : List Event} (h : machine.Run d es d')
    (hc : Counts id k d.timeWaitList) (hn : NoNewEntry id d es) :
    Counts id (k+packetsFor id es) d'.timeWaitList := by
  induction h generalizing k with
  | nil => exact hc
  | cons ha hs _ ih =>
    have hnext := ih (hc.step hs hn.head) (hn.tail ha hs)
    rw [packetsFor_cons]
    split_ifs at hnext ⊢
    · rw [Nat.add_right_comm] at hnext
      exact hnext
    · exact hnext

theorem generated_of_packet {server client : IPEndPoint} {n : ℕ} {status : WriteStatus}
    (hc : Counts id k d.timeWaitList)
    (hs : step d (.processPacket server client id n status) = .ok d') :
    ∃ data, d.timeWaitList.connectionIdMap.find id = some data ∧ data.numPackets = k ∧
      d'.generated = d.generated ++
        if (k+1).isPowerOfTwo then [⟨server,client,data.response id n⟩] else [] := by
  obtain ⟨data,hf,_,_,hg⟩ := processPacket_effect hs
  have hk := hc data hf
  refine ⟨data,hf,hk,?_⟩
  rw [hg,hk]
  by_cases hp : (k+1).isPowerOfTwo
  · rw [if_pos hp,if_pos ((shouldSendResponse_iff k).mpr hp)]
  · rw [if_neg hp,if_neg fun hr => hp ((shouldSendResponse_iff k).mp hr)]

theorem responses_length {es : List Event} (h : machine.Run d es d')
    (hc : Counts id k d.timeWaitList) (hn : NoNewEntry id d es) :
    powersUpTo k+(responses id d es).length = powersUpTo (k+packetsFor id es) := by
  induction h generalizing k with
  | nil => rfl
  | @cons s t u e es ha hs _ ih =>
    have hs' : step s e = .ok t := hs
    have hnext := ih (hc.step hs hn.head) (hn.tail ha hs)
    rw [packetsFor_cons,responses,hs']
    simp only [List.length_append]
    cases he : e.isPacketFor id with
    | false =>
      simp only [he,Bool.false_eq_true,if_false] at hnext ⊢
      simpa using hnext
    | true =>
      simp only [he,if_true] at hnext ⊢
      obtain ⟨server,client,n,status,rfl⟩ : ∃ server client n status,
          e = .processPacket server client id n status := by
        cases e with
        | processPacket server client x n status =>
          obtain rfl : x = id := by simpa [Event.isPacketFor] using he
          exact ⟨server,client,n,status,rfl⟩
        | _ => cases he
      obtain ⟨data,_,_,hg⟩ := generated_of_packet hc hs'
      have hlen : (t.generated.drop s.generated.length).length =
          if (k+1).isPowerOfTwo then 1 else 0 := by
        rw [hg,List.drop_left]
        split_ifs <;> rfl
      rw [hlen,show k+(packetsFor id es+1) = k+1+packetsFor id es by omega,← hnext,powersUpTo_succ]
      omega

/-- The answers to the packets for an id. -/
structure BacksOff (id : ConnectionId) (d : Dispatcher) (es : List Event) : Prop where
  /-- The packet with a given number is answered if the number is a power of two, with
  what is then stored for the id, to where the packet came from. The number is an `int`. -/
  answered : ∀ before rest server client n status d₁ d₂,
    es = before ++ .processPacket server client id n status :: rest → machine.Run d before d₁ →
    step d₁ (.processPacket server client id n status) = .ok d₂ →
    ∃ data, d₁.timeWaitList.connectionIdMap.find id = some data ∧
      data.numPackets = packetsFor id before ∧ data.numPackets+1 < 2^31 ∧
      d₂.generated = d₁.generated ++ if (packetsFor id before+1).isPowerOfTwo then
        [⟨server,client,data.response id n⟩] else []
  count : (responses id d es).length =
    if packetsFor id es = 0 then 0 else Nat.log 2 (packetsFor id es)+1

theorem NoNewEntry.initial {before rest : List Event} (h : NoNewEntry id d (before ++ rest)) :
    NoNewEntry id d before := by
  intro b r version p d₁ he hr
  exact h b (r ++ rest) version p d₁ (by rw [he]; simp) hr

/-- Since an id came into the list as a new one, whatever else was called: its packets
with the numbers 1, 2, 4, 8 and so on were answered, and no others. -/
theorem responses_back_off {version : QuicVersion} {p : Option PacketId} {es : List Event}
    {d₀ : Dispatcher} (hnew : d₀.timeWaitList.isConnectionIdInTimeWait id = false)
    (hadd : step d₀ (.addConnectionIdToTimeWait id version p) = .ok d) (h : machine.Run d es d')
    (hlast : NoNewEntry id d es) (hk : packetsFor id es < 2^31) : BacksOff id d es := by
  have hout : id ∉ d₀.timeWaitList.connectionIdMap.keys := by
    simpa [TimeWaitList.isConnectionIdInTimeWait,LinkedHashMap.contains] using hnew
  have hzero : Counts id 0 d.timeWaitList := by
    obtain ⟨l,hl,rfl⟩ := Dispatcher.addConnectionIdToTimeWait_cases hadd
    have hnone : Counts id 0 d₀.timeWaitList := by
      intro data hf
      rw [LinkedHashMap.find_eq_none.mpr hout] at hf
      cases hf
    exact hnone.add (fun _ => Or.inr rfl) hl
  constructor
  · intro before rest server client n status d₁ d₂ he hr hs
    rw [he] at hlast hk
    have hc := counts_of_run hr hzero hlast.initial
    rw [zero_add] at hc
    obtain ⟨data,hf,hnum,hg⟩ := generated_of_packet hc hs
    refine ⟨data,hf,hnum,?_,hg⟩
    have hcount : packetsFor id before+1 ≤
        packetsFor id (before ++ .processPacket server client id n status :: rest) := by
      simp [packetsFor,Event.isPacketFor]
    omega
  · have hlen := responses_length h hzero hlast
    simpa [powersUpTo] using hlen

/-- An id gets a packet, is added again with a close packet, and gets another one. -/
theorem responses_back_off_across_addition : ∃ d d', step (.init [25] 200 1 100 25)
      (.addConnectionIdToTimeWait 7 25 none) = .ok d ∧
    machine.Run d [.processPacket ⟨1,443⟩ ⟨2,5000⟩ 7 1 .blocked,
      .addConnectionIdToTimeWait 7 25 (some 4),.processPacket ⟨1,443⟩ ⟨3,5000⟩ 7 2 .ok] d' ∧
    BacksOff 7 d [.processPacket ⟨1,443⟩ ⟨2,5000⟩ 7 1 .blocked,
      .addConnectionIdToTimeWait 7 25 (some 4),.processPacket ⟨1,443⟩ ⟨3,5000⟩ 7 2 .ok] := by
  obtain ⟨d',h⟩ : ∃ d', machine.Run (.init [25] 200 1 100 25) [.addConnectionIdToTimeWait 7 25 none,
      .processPacket ⟨1,443⟩ ⟨2,5000⟩ 7 1 .blocked,.addConnectionIdToTimeWait 7 25 (some 4),
      .processPacket ⟨1,443⟩ ⟨3,5000⟩ 7 2 .ok] d' := machine.exists_run_of_exec (by decide +kernel)
  obtain ⟨d,_,hadd,hrun⟩ := h.cons_inv
  refine ⟨d,d',hadd,hrun,responses_back_off (by decide) hadd hrun ?_ (by decide)⟩
  intro before rest version p d₁ he hr
  obtain ⟨t,ht,hin⟩ : ∃ t, machine.Run (.init [25] 200 1 100 25) [.addConnectionIdToTimeWait 7 25 none,
      .processPacket ⟨1,443⟩ ⟨2,5000⟩ 7 1 .blocked] t ∧
      decide (7 ∈ t.timeWaitList.connectionIdMap.keys) = true :=
    machine.exists_run_of_exec_any (by decide +kernel)
  obtain ⟨d₂,_,hadd₂,ht⟩ := ht.cons_inv
  rw [hadd] at hadd₂
  cases hadd₂
  have hbefore : before = [.processPacket ⟨1,443⟩ ⟨2,5000⟩ 7 1 .blocked] := by
    rcases before with _ | ⟨a,_ | ⟨b,_ | ⟨c,_ | ⟨x,before⟩⟩⟩⟩
    · cases he
    · rw [(List.cons.inj he).1]
    · cases he
    · cases he
    · cases he
  rw [hbefore] at hr
  rw [hr.unique ht]
  exact of_decide_eq_true hin

end TimeWaitManager
end CmuQuic
