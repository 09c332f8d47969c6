import Mathlib.Tactic

/-! What `quic_perf_server` sends on a stream: the number of packets goes from the
command line through the server, the dispatcher and the session to the stream, as
an `int`, and bounds a loop that counts with a `uint64`. -/
namespace CmuQuic
namespace PerfServer

/-- One result of `getopt`, with the value that `atoi` has for its argument. -/
inductive Getopt
  | p (value : Int32)
  | n (value : Int32)
  | missingArgument
  | unrecognizedOption
  deriving DecidableEq

/-- The options of `main`; a `usageError` does not return. -/
def parseOptions : List Getopt → Int32 × Int32 → Option (Int32 × Int32)
  | [], options => some options
  | .p value :: opts, (_,packetNum) => parseOptions opts (value,packetNum)
  | .n value :: opts, (portNumber,_) => parseOptions opts (portNumber,value)
  | .missingArgument :: _, _ => none
  | .unrecognizedOption :: _, _ => none

def main (opts : List Getopt) : Option (Int32 × Int32) := do
  let (portNumber,packetNum) ← parseOptions opts (-1,-1)
  if portNumber = -1 ∨ packetNum = -1 then none else some (portNumber,packetNum)

structure QuicServer where
  packetNum : Int32

structure QuicDispatcher where
  packetNum : Int32

structure QuicServerSession where
  packetNum : Int32

structure QuicServerStream where
  packetNum : Int32
  payload : List Char

def QuicServer.setPacketNum (_ : QuicServer) (packetNum : Int32) : QuicServer := ⟨packetNum⟩

def QuicDispatcher.setPacketNum (_ : QuicDispatcher) (packetNum : Int32) : QuicDispatcher :=
  ⟨packetNum⟩

def QuicServerSession.setPacketNum (_ : QuicServerSession) (packetNum : Int32) :
    QuicServerSession := ⟨packetNum⟩

def QuicServerStream.setPacketNum (x : QuicServerStream) (packetNum : Int32) : QuicServerStream :=
  { x with packetNum := packetNum }

/-- The constructors leave the number of packets uninitialized. -/
def QuicServerStream.construct (uninitialized : Int32) : QuicServerStream :=
  ⟨uninitialized,List.replicate 1300 'x'⟩

def QuicServer.listen (s : QuicServer) (uninitialized : Int32) : QuicDispatcher :=
  QuicDispatcher.setPacketNum ⟨uninitialized⟩ s.packetNum

def QuicDispatcher.createQuicSession (d : QuicDispatcher) (uninitialized : Int32) :
    QuicServerSession := QuicServerSession.setPacketNum ⟨uninitialized⟩ d.packetNum

def QuicServerSession.createIncomingDynamicStream (x : QuicServerSession)
    (uninitialized : Int32) : QuicServerStream :=
  (QuicServerStream.construct uninitialized).setPacketNum x.packetNum

def servedStream (packetNum : Int32) (uninitialized : Fin 4 → Int32) : QuicServerStream :=
  let server := QuicServer.setPacketNum ⟨uninitialized 0⟩ packetNum
  let dispatcher := server.listen (uninitialized 1)
  let session := dispatcher.createQuicSession (uninitialized 2)
  session.createIncomingDynamicStream (uninitialized 3)

structure StreamWrite where
  data : List Char
  fin : Bool
  deriving DecidableEq

/-- The usual conversion of an `int` that is compared with a `uint64`. -/
def toUInt64 (n : Int32) : UInt64 := n.toInt64.toUInt64

namespace QuicServerStream

def writePayload (x : QuicServerStream) : StreamWrite := ⟨x.payload,false⟩

def writeEnd : StreamWrite := ⟨"server_end".toList,true⟩

/-- The loop of `OnFinRead` from the given value of its counter; `none` if it is still
running. -/
def finReadLoop (x : QuicServerStream) : ℕ → UInt64 → Option (List StreamWrite)
  | 0, _ => none
  | fuel+1, i =>
    if i < toUInt64 x.packetNum then do
      let ws ← x.finReadLoop fuel (i+1)
      some (x.writePayload :: ws)
    else some []

def onFinRead (x : QuicServerStream) (fuel : ℕ) : Option (List StreamWrite) := do
  let ws ← x.finReadLoop fuel 0
  some (ws ++ [writeEnd])

end QuicServerStream

/-- The response that is wanted for a number of packets. -/
structure Responds (x : QuicServerStream) (n : Int32) : Prop where
  writes : ∃ fuel, x.onFinRead fuel =
    some (List.replicate (max n.toInt 0).toNat x.writePayload ++ [QuicServerStream.writeEnd])
  payload : x.payload.length = 1300
  bytes : ∀ fuel ws, x.onFinRead fuel = some ws →
    ((ws.map fun w => w.data.length).sum : ℤ) = 1300*max n.toInt 0+10
  fin : ∀ fuel ws, x.onFinRead fuel = some ws →
    ws.countP (fun w => w.fin) = 1 ∧ ∃ w, ws.getLast? = some w ∧ w.fin = true

theorem toNat_toUInt64 (n : Int32) :
    ((toUInt64 n).toNat : ℤ) = if 0 ≤ n.toInt then n.toInt else 2^64+n.toInt := by
  have hn : n.toInt64.toInt = n.toInt := Int32.toInt_toInt64 n
  have hcond := BitVec.toInt_eq_toNat_cond n.toInt64.toBitVec
  have hlt : (toUInt64 n).toNat < 2^64 := UInt64.toNat_lt _
  have hto : (toUInt64 n).toNat = n.toInt64.toBitVec.toNat := rfl
  have heq : n.toInt64.toBitVec.toInt = n.toInt := hn
  rw [heq] at hcond
  split_ifs at hcond ⊢ <;> omega

namespace QuicServerStream

variable {x : QuicServerStream}

theorem finReadLoop_eq_some {fuel : ℕ} {i : UInt64} {ws : List StreamWrite} :
    x.finReadLoop fuel i = some ws ↔ (toUInt64 x.packetNum).toNat-i.toNat < fuel ∧
      ws = List.replicate ((toUInt64 x.packetNum).toNat-i.toNat) x.writePayload := by
  induction fuel generalizing i ws with
  | zero => simp [finReadLoop]
  | succ fuel ih =>
    rw [finReadLoop]
    split_ifs with hi
    · have hlt : i.toNat < (toUInt64 x.packetNum).toNat := UInt64.lt_iff_toNat_lt.mp hi
      have hbound := (toUInt64 x.packetNum).toNat_lt
      have hnext : (i+1).toNat = i.toNat+1 := by
        rw [UInt64.toNat_add,UInt64.toNat_one]
        omega
      obtain ⟨k,hk⟩ : ∃ k, (toUInt64 x.packetNum).toNat-i.toNat = k+1 :=
        ⟨(toUInt64 x.packetNum).toNat-i.toNat-1,by omega⟩
      have hk' : (toUInt64 x.packetNum).toNat-(i.toNat+1) = k := by omega
      simp only [Option.bind_eq_bind,Option.bind_eq_some_iff,ih,hnext,hk,hk',List.replicate_succ]
      constructor
      · rintro ⟨ws',⟨hf,rfl⟩,h⟩
        cases h
        exact ⟨by omega,rfl⟩
      · rintro ⟨hf,rfl⟩
        exact ⟨_,⟨by omega,rfl⟩,rfl⟩
    · have hle : (toUInt64 x.packetNum).toNat ≤ i.toNat := by
        rw [UInt64.lt_iff_toNat_lt] at hi
        omega
      rw [Nat.sub_eq_zero_of_le hle]
      simp [eq_comm]

theorem onFinRead_eq_some {fuel : ℕ} {ws : List StreamWrite} :
    x.onFinRead fuel = some ws ↔ (toUInt64 x.packetNum).toNat < fuel ∧
      ws = List.replicate (toUInt64 x.packetNum).toNat x.writePayload ++ [writeEnd] := by
  simp only [onFinRead,Option.bind_eq_bind,Option.bind_eq_some_iff,finReadLoop_eq_some]
  constructor
  · rintro ⟨ws',⟨hf,rfl⟩,h⟩
    cases h
    exact ⟨hf,rfl⟩
  · rintro ⟨hf,rfl⟩
    exact ⟨_,⟨hf,rfl⟩,rfl⟩

end QuicServerStream

theorem main_accepts_iff (n : Int32) : (∃ opts port, main opts = some (port,n)) ↔ n ≠ -1 := by
  constructor
  · rintro ⟨opts,port,h⟩ rfl
    obtain ⟨⟨a,b⟩,_,h⟩ := Option.bind_eq_some_iff.mp h
    dsimp only at h
    split_ifs at h with hmissing
    cases h
    exact hmissing (Or.inr rfl)
  · intro hn
    refine ⟨[.p 1,.n n],1,?_⟩
    simp [main,parseOptions,hn]

variable {x : QuicServerStream} {n : Int32}

theorem Responds.nonneg (h : Responds x x.packetNum) : 0 ≤ x.packetNum.toInt := by
  obtain ⟨fuel,hw⟩ := h.writes
  have hlen := congrArg List.length (QuicServerStream.onFinRead_eq_some.mp hw).2
  have hto := toNat_toUInt64 x.packetNum
  have hge := x.packetNum.le_toInt
  by_contra hneg
  rw [if_neg hneg] at hto
  simp only [List.length_append,List.length_replicate,List.length_cons,List.length_nil] at hlen
  omega

theorem responds_of_nonneg (hx : x.payload.length = 1300) (hn : 0 ≤ x.packetNum.toInt) :
    Responds x x.packetNum := by
  have hto := toNat_toUInt64 x.packetNum
  rw [if_pos hn] at hto
  have hmax : max x.packetNum.toInt 0 = x.packetNum.toInt := max_eq_left hn
  have hcount : (max x.packetNum.toInt 0).toNat = (toUInt64 x.packetNum).toNat := by omega
  refine ⟨⟨(toUInt64 x.packetNum).toNat+1,?_⟩,hx,fun fuel ws h => ?_,fun fuel ws h => ?_⟩
  · rw [hcount,QuicServerStream.onFinRead_eq_some]
    exact ⟨Nat.lt_succ_self _,rfl⟩
  · obtain ⟨_,rfl⟩ := QuicServerStream.onFinRead_eq_some.mp h
    have hend : QuicServerStream.writeEnd.data.length = 10 := by decide
    simp only [List.map_append,List.map_replicate,List.sum_append,List.sum_replicate,List.map_cons,
      List.map_nil,List.sum_cons,List.sum_nil,QuicServerStream.writePayload,hx,hend]
    push_cast
    rw [nsmul_eq_mul,hto,hmax]
    ring
  · obtain ⟨_,rfl⟩ := QuicServerStream.onFinRead_eq_some.mp h
    refine ⟨?_,QuicServerStream.writeEnd,by simp,rfl⟩
    rw [List.countP_append,List.countP_replicate]
    rfl

/-- `main` accepts every number of packets but -1. A stream responds as its number says
exactly if the number is not negative. -/
theorem responds_iff_nonneg (n : Int32) (uninitialized : Fin 4 → Int32) :
    ((∃ opts port, main opts = some (port,n)) ↔ n ≠ -1) ∧
    (Responds (servedStream n uninitialized) n ↔ 0 ≤ n.toInt) :=
  ⟨main_accepts_iff n,fun h => Responds.nonneg (x:=servedStream n uninitialized) h,
    fun hn => responds_of_nonneg (x:=servedStream n uninitialized) (List.length_replicate ..) hn⟩

/-- With `-n -2` the loop would run for all but two of the values of a `uint64`. -/
theorem responds_without_bound : ¬∀ opts port n uninitialized, main opts = some (port,n) →
    Responds (servedStream n uninitialized) n := by
  intro h
  have hneg : Responds (servedStream (-2) fun _ => 0) (-2) :=
    h [.p 6121,.n (-2)] 6121 (-2) _ (by decide)
  have hle := Responds.nonneg (x:=servedStream (-2) fun _ => 0) hneg
  revert hle
  decide

end PerfServer
end CmuQuic
