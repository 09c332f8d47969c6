import CmuQuic.Machine
import CmuQuic.EpollServer

/-! `tcp_perf_client` and `tcp_perf_server`, with the connection between them: what the
client writes in chunks, the server counts in a `uint64` and prints once a second. -/
namespace CmuQuic

structure TcpFlags where
  totalTransfer : UInt64 := 10*1000*1000
  chunkSize : UInt64 := 1000
  duration : UInt64 := 0

/-- Where the client stands: in the loop over a number of bytes, in the loop over a number
of seconds, at the end of `main`, or in `exit`. -/
inductive TcpClient
  | transfer (i : UInt64)
  | timed (dest : ℤ)
  | returned
  | exited
  deriving DecidableEq

inductive TcpServer
  | reading
  | returned
  | exited
  deriving DecidableEq

structure TcpPerf where
  flags : TcpFlags
  /-- What `time` returns. -/
  now : ℤ
  client : TcpClient
  server : TcpServer
  /-- The client has closed its socket. -/
  closed : Bool
  /-- The bytes that were written and not yet read. -/
  wire : ℕ
  bytesReceived : UInt64
  reports : List UInt64
  /-- The number of turns that the client made, and of bytes that it has written. -/
  chunks : ℕ
  written : ℕ

namespace TcpPerf

/-- The sum is one of `uint64` and is then converted to `time_t`. -/
def destination (now : ℤ) (duration : UInt64) : ℤ := (now+duration.toNat).bmod (2^64)

def init (flags : TcpFlags) (now : ℤ) : TcpPerf where
  flags := flags
  now := now
  client := if flags.duration = 0 then .transfer 0 else .timed (destination now flags.duration)
  server := .reading
  closed := false
  wire := 0
  bytesReceived := 0
  reports := []
  chunks := 0
  written := 0

def goesOn (s : TcpPerf) : Bool :=
  match s.client with
  | .transfer i => i < s.flags.totalTransfer
  | .timed dest => s.now < dest
  | _ => false

def inLoop (s : TcpPerf) : Bool :=
  match s.client with
  | .transfer _ => true
  | .timed _ => true
  | _ => false

def advance (s : TcpPerf) : TcpClient :=
  match s.client with
  | .transfer i => .transfer (i+s.flags.chunkSize)
  | c => c

/-- A turn of the client, in which `write` returns `n`. The buffer has the length of the
chunk as an `uint`, and `write` reads beyond it if that is not the length of the chunk. -/
def write (s : TcpPerf) (n : ℤ) : Except Abort TcpPerf :=
  if s.flags.chunkSize.toNat % 2^32 < s.flags.chunkSize.toNat then .error .access
  else if n < 0 then .ok { s with client := .exited, closed := true }
  else .ok { s with
    client := s.advance
    wire := s.wire+n.toNat
    written := s.written+n.toNat
    chunks := s.chunks+1 }

def read (s : TcpPerf) (n : ℤ) : TcpPerf :=
  if n < 0 then { s with server := .exited }
  else if n = 0 then { s with server := .returned }
  else { s with wire := s.wire-n.toNat, bytesReceived := s.bytesReceived+.ofNat n.toNat }

inductive Event
  | tick (now : ℤ)
  | write (n : ℤ)
  | close
  | read (n : ℤ)
  | alarmHandler

/-- A `write` takes at most what it is given and at most `0x7ffff000` bytes; a `read`
returns nothing only at the end, and never more than fits into the buffer. -/
def admits (s : TcpPerf) : Event → Prop
  | .tick now => s.now ≤ now
  | .write n => s.goesOn = true ∧
    (n = -1 ∨ (0 ≤ n ∧ n ≤ s.flags.chunkSize.toNat ∧ n ≤ 0x7ffff000))
  | .close => s.inLoop = true ∧ s.goesOn = false
  | .read n => s.server = .reading ∧
    (n = -1 ∨ (n = 0 ∧ s.closed = true ∧ s.wire = 0) ∨ (1 ≤ n ∧ n ≤ 1023 ∧ n ≤ s.wire))
  | .alarmHandler => s.server = .reading

def step (s : TcpPerf) : Event → Except Abort TcpPerf
  | .tick now => .ok { s with now := now }
  | .write n => s.write n
  | .close => .ok { s with client := .returned, closed := true }
  | .read n => .ok (s.read n)
  | .alarmHandler => .ok { s with reports := s.reports ++ [s.bytesReceived] }

def machine : Machine TcpPerf Event Abort := ⟨admits,step⟩

instance (s : TcpPerf) : (e : Event) → Decidable (s.admits e)
  | .tick _ => inferInstanceAs (Decidable (_ ≤ _))
  | .write _ => inferInstanceAs (Decidable (_ = true ∧ (_ = _ ∨ _ ≤ _ ∧ _ ≤ _ ∧ _ ≤ _)))
  | .close => inferInstanceAs (Decidable (_ = true ∧ _ = false))
  | .read _ => inferInstanceAs (Decidable (_ = _ ∧ (_ = _ ∨ _ = _ ∧ _ = _ ∧ _ = _ ∨ _ ≤ _ ∧ _ ≤ _ ∧ _ ≤ _)))
  | .alarmHandler => inferInstanceAs (Decidable (_ = _))

instance (s : TcpPerf) (e : Event) : Decidable (machine.admits s e) :=
  inferInstanceAs (Decidable (s.admits e))

variable {s t : TcpPerf}

/-- What every turn of either side keeps. -/
structure Conserved (s : TcpPerf) : Prop where
  wire : s.wire ≤ s.written
  received : s.bytesReceived = .ofNat (s.written-s.wire)
  closed : s.closed = true → s.inLoop = false
  returned : s.server = .returned → s.closed = true ∧ s.wire = 0
  written : s.written ≤ s.chunks*s.flags.chunkSize.toNat
  /-- What was printed are the counts of some earlier moments. -/
  reports : ∃ counts : List ℕ, s.reports = counts.map .ofNat ∧ counts.Pairwise (· ≤ ·) ∧
    ∀ n ∈ counts, n ≤ s.written-s.wire

theorem Conserved.initial (flags : TcpFlags) (now : ℤ) : Conserved (init flags now) where
  wire := le_rfl
  received := rfl
  closed h := by cases h
  returned h := by cases h
  written := Nat.zero_le _
  reports := ⟨[],rfl,.nil,by simp⟩

theorem Conserved.write (h : Conserved s) {n : ℤ} (he : s.admits (.write n))
    (ht : s.write n = .ok t) : Conserved t := by
  have hin : s.closed = false := by
    by_contra hc
    have hout := h.closed (by simpa using hc)
    have hgo := he.1
    cases hclient : s.client <;> simp [inLoop,goesOn,hclient] at hout hgo
  unfold TcpPerf.write at ht
  split_ifs at ht with hshort hneg
  · cases ht
    refine ⟨h.wire,h.received,fun _ => rfl,fun hret => ?_,h.written,h.reports⟩
    have hret := (h.returned hret).1
    simp [hin] at hret
  · cases ht
    have hn : n ≤ s.flags.chunkSize.toNat := by rcases he.2 with rfl | ⟨_,hn,_⟩ <;> omega
    have hsame : s.written+n.toNat-(s.wire+n.toNat) = s.written-s.wire := by omega
    refine ⟨Nat.add_le_add_right h.wire _,?_,fun hc => ?_,fun hret => ?_,?_,?_⟩
    · show s.bytesReceived = .ofNat (s.written+n.toNat-(s.wire+n.toNat))
      rw [hsame]
      exact h.received
    · simp [hin] at hc
    · have hret := (h.returned hret).1
      simp [hin] at hret
    · show s.written+n.toNat ≤ (s.chunks+1)*s.flags.chunkSize.toNat
      have hle := h.written
      rw [Nat.succ_mul]
      omega
    · obtain ⟨counts,hreports,hsorted,hbound⟩ := h.reports
      exact ⟨counts,hreports,hsorted,fun k hk => by simpa [hsame] using hbound k hk⟩

theorem Conserved.read (h : Conserved s) {n : ℤ} (he : s.admits (.read n)) :
    Conserved (s.read n) := by
  have hwire := h.wire
  unfold TcpPerf.read
  split_ifs with hneg hzero
  · exact ⟨h.wire,h.received,h.closed,(fun hret => by cases hret),h.written,h.reports⟩
  · obtain ⟨hclosed,hempty⟩ : s.closed = true ∧ s.wire = 0 := by
      rcases he.2 with hn | ⟨_,hend⟩ | ⟨hn,_⟩
      · omega
      · exact hend
      · omega
    exact ⟨h.wire,h.received,h.closed,fun _ => ⟨hclosed,hempty⟩,h.written,h.reports⟩
  · have hn : n.toNat ≤ s.wire := by rcases he.2 with hn | ⟨hn,_⟩ | ⟨_,_,hn⟩ <;> omega
    have hmore : s.written-(s.wire-n.toNat) = s.written-s.wire+n.toNat := by omega
    refine ⟨(Nat.sub_le _ _).trans h.wire,?_,h.closed,fun hret => ?_,h.written,?_⟩
    · show s.bytesReceived+.ofNat n.toNat = .ofNat (s.written-(s.wire-n.toNat))
      rw [hmore,h.received,UInt64.ofNat_add]
    · have hreading := he.1
      have hret : s.server = .returned := hret
      simp [hret] at hreading
    · obtain ⟨counts,hreports,hsorted,hbound⟩ := h.reports
      exact ⟨counts,hreports,hsorted,fun k hk => by
        have := hbound k hk
        show k ≤ s.written-(s.wire-n.toNat)
        omega⟩

theorem Conserved.step (h : Conserved s) {e : Event} (he : s.admits e) (ht : s.step e = .ok t) :
    Conserved t := by
  cases e with
  | tick now =>
    cases ht
    exact ⟨h.wire,h.received,h.closed,h.returned,h.written,h.reports⟩
  | write n => exact h.write he ht
  | close =>
    cases ht
    exact ⟨h.wire,h.received,fun _ => rfl,fun hret => ⟨rfl,(h.returned hret).2⟩,h.written,h.reports⟩
  | read n =>
    cases ht
    exact h.read he
  | alarmHandler =>
    cases ht
    obtain ⟨counts,hreports,hsorted,hbound⟩ := h.reports
    refine ⟨h.wire,h.received,h.closed,h.returned,h.written,counts ++ [s.written-s.wire],?_,?_,?_⟩
    · simp [hreports,h.received]
    · refine List.pairwise_append.mpr ⟨hsorted,List.pairwise_singleton _ _,fun k hk m hm => ?_⟩
      rw [List.mem_singleton.mp hm]
      exact hbound k hk
    · intro k hk
      rcases List.mem_append.mp hk with hk | hk
      · exact hbound k hk
      · exact (List.mem_singleton.mp hk).le

def counter (flags : TcpFlags) (k : ℕ) : ℕ := k*flags.chunkSize.toNat % 2^64

/-- The loop over a number of bytes: it has gone on as long as the counter was below the
bound, and ended when it was not. -/
structure Looped (flags : TcpFlags) (s : TcpPerf) : Prop where
  given : s.flags = flags
  untimed : ∀ dest, s.client ≠ .timed dest
  current : ∀ i, s.client = .transfer i → i.toNat = counter flags s.chunks
  before : ∀ k < s.chunks, counter flags k < flags.totalTransfer.toNat
  returned : s.client = .returned → flags.totalTransfer.toNat ≤ counter flags s.chunks

theorem Looped.initial {flags : TcpFlags} (hd : flags.duration = 0) (now : ℤ) :
    Looped flags (init flags now) where
  given := rfl
  untimed dest h := by simp [init,hd] at h
  current i h := by
    obtain rfl : (0 : UInt64) = i := by simpa [init,hd] using h
    simp [counter,init]
  before k hk := by cases hk
  returned h := by simp [init,hd] at h

theorem Looped.step {flags : TcpFlags} (h : Looped flags s) {e : Event} (he : s.admits e)
    (ht : s.step e = .ok t) : Looped flags t := by
  obtain ⟨rfl,huntimed,hcounter,hbefore,hreturned⟩ := h
  cases e with
  | tick now => cases ht; exact ⟨rfl,huntimed,hcounter,hbefore,hreturned⟩
  | write n =>
    have ht : s.write n = .ok t := ht
    unfold TcpPerf.write at ht
    split_ifs at ht with hshort hneg
    · cases ht
      exact ⟨rfl,by simp,by simp,hbefore,by simp⟩
    · cases ht
      have hgo := he.1
      cases hclient : s.client with
      | transfer i =>
        have hi := hcounter i hclient
        have hlt : i.toNat < s.flags.totalTransfer.toNat := by
          simpa [goesOn,hclient,UInt64.lt_iff_toNat_lt] using hgo
        refine ⟨rfl,by simp [advance,hclient],fun j hj => ?_,fun k hk => ?_,by simp [advance,hclient]⟩
        · obtain rfl : i+s.flags.chunkSize = j := by simpa [advance,hclient] using hj
          simp only [counter] at hi ⊢
          rw [UInt64.toNat_add,hi,Nat.succ_mul]
          omega
        · rcases Nat.lt_succ_iff_lt_or_eq.mp hk with hk | rfl
          · exact hbefore k hk
          · exact hi ▸ hlt
      | timed dest => exact absurd hclient (huntimed dest)
      | returned => simp [goesOn,hclient] at hgo
      | exited => simp [goesOn,hclient] at hgo
  | close =>
    cases ht
    refine ⟨rfl,by simp,by simp,hbefore,fun _ => ?_⟩
    obtain ⟨hin,hstop⟩ := he
    cases hclient : s.client with
    | transfer i =>
      have hle : s.flags.totalTransfer.toNat ≤ i.toNat := by
        simpa [goesOn,hclient,UInt64.lt_iff_toNat_lt] using hstop
      exact hcounter i hclient ▸ hle
    | timed dest => exact absurd hclient (huntimed dest)
    | returned => simp [inLoop,hclient] at hin
    | exited => simp [inLoop,hclient] at hin
  | read n =>
    cases ht
    unfold TcpPerf.read
    split_ifs <;> exact ⟨rfl,huntimed,hcounter,hbefore,hreturned⟩
  | alarmHandler => cases ht; exact ⟨rfl,huntimed,hcounter,hbefore,hreturned⟩

theorem Looped.turns {flags : TcpFlags} (h : Looped flags s) (hc : s.client = .returned)
    (hsmall : flags.totalTransfer.toNat+flags.chunkSize.toNat ≤ 2^64) :
    flags.totalTransfer.toNat ≤ s.chunks*flags.chunkSize.toNat ∧
      ∀ k < s.chunks, k*flags.chunkSize.toNat < flags.totalTransfer.toNat := by
  refine ⟨(h.returned hc).trans (Nat.mod_le _ _),fun k hk => ?_⟩
  induction k with
  | zero => simpa [counter] using h.before 0 hk
  | succ k ih =>
    have hlt := ih (by omega)
    have hnext := h.before (k+1) hk
    rwa [counter,Nat.mod_eq_of_lt (by rw [Nat.succ_mul]; omega)] at hnext

/-- What the count of the server says, at any time and at the end. -/
structure Counted (s : TcpPerf) : Prop where
  received : s.wire ≤ s.written ∧ s.bytesReceived.toNat = (s.written-s.wire) % 2^64
  complete : s.server = .returned → s.bytesReceived.toNat = s.written % 2^64
  reports : s.written < 2^64 → (s.reports.map UInt64.toNat).Pairwise (· ≤ ·) ∧
    ∀ r ∈ s.reports, r.toNat ≤ s.bytesReceived.toNat
  /-- If no write was cut short, the server has counted what was asked for, up to a chunk. -/
  delivered : s.server = .returned → s.client = .returned → s.flags.duration = 0 →
    s.flags.totalTransfer.toNat+s.flags.chunkSize.toNat ≤ 2^64 →
    s.written = s.chunks*s.flags.chunkSize.toNat →
    s.flags.totalTransfer.toNat ≤ s.bytesReceived.toNat ∧
      s.bytesReceived.toNat ≤ s.flags.totalTransfer.toNat+(s.flags.chunkSize.toNat-1)

theorem Conserved.toNat_received (h : Conserved s) :
    s.bytesReceived.toNat = (s.written-s.wire) % 2^64 := by
  rw [h.received]
  exact UInt64.toNat_ofNat'

theorem Conserved.complete (h : Conserved s) (hret : s.server = .returned) :
    s.bytesReceived.toNat = s.written % 2^64 := by
  rw [h.toNat_received,(h.returned hret).2,Nat.sub_zero]

theorem Conserved.reports_sorted (h : Conserved s) (hsmall : s.written < 2^64) :
    (s.reports.map UInt64.toNat).Pairwise (· ≤ ·) ∧
      ∀ r ∈ s.reports, r.toNat ≤ s.bytesReceived.toNat := by
  obtain ⟨counts,hreports,hsorted,hbound⟩ := h.reports
  have hfits : ∀ n ∈ counts, (UInt64.ofNat n).toNat = n := fun n hn => by
    have hle := hbound n hn
    rw [UInt64.toNat_ofNat',Nat.mod_eq_of_lt (by omega)]
  constructor
  · have hcounts : counts.map (UInt64.toNat ∘ UInt64.ofNat) = counts := calc
      counts.map (UInt64.toNat ∘ UInt64.ofNat) = counts.map id := List.map_congr_left hfits
      _ = counts := List.map_id counts
    rw [hreports,List.map_map,hcounts]
    exact hsorted
  · intro r hr
    rw [hreports] at hr
    obtain ⟨n,hn,rfl⟩ := List.mem_map.mp hr
    rw [hfits n hn,h.toNat_received,Nat.mod_eq_of_lt (by omega)]
    exact hbound n hn

theorem flags_of_step {e : Event} (ht : s.step e = .ok t) : t.flags = s.flags := by
  cases e with
  | write n =>
    have ht : s.write n = .ok t := ht
    unfold TcpPerf.write at ht
    split_ifs at ht <;> cases ht <;> rfl
  | read n =>
    cases ht
    unfold TcpPerf.read
    split_ifs <;> rfl
  | tick | close | alarmHandler => cases ht; rfl

theorem whole_chunks {total chunk m : ℕ} (h₁ : total ≤ m*chunk) (h₂ : ∀ k < m, k*chunk < total) :
    m*chunk ≤ total+(chunk-1) := by
  cases m with
  | zero => simp
  | succ m =>
    have hlast := h₂ m (Nat.lt_succ_self m)
    rw [Nat.succ_mul] at h₁ ⊢
    omega

/-- In every run, whatever the sizes of the single writes and reads are. -/
theorem transfer_counted {flags : TcpFlags} {now : ℤ} {es : List Event}
    (hrun : machine.Run (init flags now) es s) : Counted s := by
  have h : Conserved s := hrun.invariant (fun h he ht => h.step he ht) (.initial flags now)
  have hflags : s.flags = flags :=
    hrun.invariant (P:=fun s => s.flags = flags) (fun hs _ ht => (flags_of_step ht).trans hs) rfl
  refine ⟨⟨h.wire,h.toNat_received⟩,h.complete,h.reports_sorted,?_⟩
  rw [hflags]
  intro hret hclient hd hsmall hwhole
  have hl : Looped flags s := hrun.invariant (fun h he ht => h.step he ht) (.initial hd now)
  obtain ⟨henough,hturns⟩ := hl.turns hclient hsmall
  have hupper := whole_chunks henough hturns
  have hfits : s.written < 2^64 := by
    by_cases hzero : flags.chunkSize.toNat = 0
    · simp [hwhole,hzero]
    · omega
  rw [h.complete hret,Nat.mod_eq_of_lt hfits,hwhole]
  exact ⟨henough,hupper⟩

/-- A transfer of 2500 bytes in chunks of 1000, read in pieces; the last report is printed
before the end of the connection is seen. -/
theorem transfer_counted_three_chunks : ∃ s, machine.Run (init ⟨2500,1000,0⟩ 100)
      [.write 1000,.read 600,.alarmHandler,.write 1000,.read 1023,.write 1000,.close,.read 1023,
        .tick 101,.alarmHandler,.read 354,.alarmHandler,.read 0] s ∧
    Counted s ∧ s.reports = [600,2646,3000] ∧ s.server = .returned := by
  obtain ⟨s,hs,hend⟩ : ∃ s, machine.Run (init ⟨2500,1000,0⟩ 100)
      [.write 1000,.read 600,.alarmHandler,.write 1000,.read 1023,.write 1000,.close,.read 1023,
        .tick 101,.alarmHandler,.read 354,.alarmHandler,.read 0] s ∧
      decide (s.reports = [600,2646,3000] ∧ s.server = .returned) = true :=
    machine.exists_run_of_exec_any (by decide +kernel)
  exact ⟨s,hs,transfer_counted hs,of_decide_eq_true hend⟩

section Ends

theorem mul_mod_le (k : ℕ) {c m : ℕ} (hm : 0 < m) : k*c % m ≤ m-Nat.gcd c m := by
  have hdvd : Nat.gcd c m ∣ k*c % m :=
    (Nat.dvd_mod_iff (Nat.gcd_dvd_right c m)).mpr ((Nat.gcd_dvd_left c m).mul_left k)
  have hlt := Nat.mod_lt (k*c) hm
  have hsub : Nat.gcd c m ∣ m-k*c % m := Nat.dvd_sub (Nat.gcd_dvd_right c m) hdvd
  have hle := Nat.le_of_dvd (by omega) hsub
  omega

theorem exists_mul_mod_eq {c m : ℕ} (hm : 0 < m) : ∃ k, k*c % m = m-Nat.gcd c m := by
  obtain ⟨q,hq⟩ := Nat.gcd_dvd_right c m
  rcases (Nat.le_of_dvd hm (Nat.gcd_dvd_right c m)).lt_or_eq with hlt | heq
  · obtain ⟨k,_,hk⟩ := Nat.exists_mul_mod_eq_gcd hlt
    have hg : 0 < Nat.gcd c m := Nat.gcd_pos_of_pos_right c hm
    have hrest : Nat.gcd c m*(q-1) = m-Nat.gcd c m := by
      rw [Nat.mul_sub_one,← hq]
    refine ⟨k*(q-1),?_⟩
    calc k*(q-1)*c % m = c*k*(q-1) % m := by rw [Nat.mul_comm c k,Nat.mul_right_comm]
      _ = c*k % m*(q-1) % m := by rw [Nat.mod_mul_mod]
      _ = (m-Nat.gcd c m) % m := by rw [hk,hrest]
      _ = m-Nat.gcd c m := Nat.mod_eq_of_lt (by omega)
  · exact ⟨0,by simp [heq]⟩

theorem exists_turns {flags : TcpFlags} (hd : flags.duration = 0) (hc : flags.chunkSize.toNat < 2^32)
    (now : ℤ) {n : ℕ} (hn : ∀ k < n, counter flags k < flags.totalTransfer.toNat) :
    ∃ es s, machine.Run (init flags now) es s ∧ s.chunks = n ∧ s.flags = flags ∧
      ∃ i, s.client = .transfer i ∧ i.toNat = counter flags n := by
  induction n with
  | zero => exact ⟨[],_,.nil _,rfl,rfl,0,by simp [init,hd],by simp [counter]⟩
  | succ n ih =>
    obtain ⟨es,s,hrun,hchunks,hflags,i,hclient,hi⟩ := ih fun k hk => hn k (by omega)
    have hlt : i.toNat < s.flags.totalTransfer.toNat := by
      rw [hflags,hi]
      exact hn n (Nat.lt_succ_self n)
    have hgo : s.goesOn = true := by simpa [goesOn,hclient,UInt64.lt_iff_toNat_lt] using hlt
    have hwide : ¬ s.flags.chunkSize.toNat % 2^32 < s.flags.chunkSize.toNat := by
      rw [hflags,Nat.mod_eq_of_lt hc]
      exact lt_irrefl _
    -- a write takes as much as it can
    let m : ℕ := min s.flags.chunkSize.toNat 0x7ffff000
    have hadm : machine.admits s (.write m) :=
      ⟨hgo,Or.inr ⟨by omega,by simp [m],by simp [m]⟩⟩
    have hstep : machine.step s (.write m) = .ok { s with
        client := s.advance
        wire := s.wire+m
        written := s.written+m
        chunks := s.chunks+1 } := by
      show s.write m = _
      rw [TcpPerf.write,if_neg hwide,if_neg (by omega),Int.toNat_natCast]
    have hadvance : s.advance = .transfer (i+s.flags.chunkSize) := by simp [advance,hclient]
    refine ⟨es ++ [.write m],_,hrun.trans (.single hadm hstep),congrArg (·+1) hchunks,hflags,
      i+s.flags.chunkSize,hadvance,?_⟩
    rw [UInt64.toNat_add,hflags,hi]
    simp only [counter]
    rw [Nat.succ_mul]
    omega

/-- The client makes boundedly many turns, whatever happens, exactly if the bytes asked for
are within the largest value that the counter takes. -/
theorem transfer_ends_iff {flags : TcpFlags} (hd : flags.duration = 0)
    (hc : flags.chunkSize.toNat < 2^32) (now : ℤ) :
    (∃ bound, ∀ es s, machine.Run (init flags now) es s → s.chunks ≤ bound) ↔
      flags.totalTransfer.toNat ≤ 2^64-Nat.gcd flags.chunkSize.toNat (2^64) := by
  constructor
  · rintro ⟨bound,hbound⟩
    by_contra hlarge
    obtain ⟨es,s,hrun,hchunks,_⟩ := exists_turns hd hc now (n:=bound+1) fun k _ =>
      (mul_mod_le k (by decide)).trans_lt (not_le.mp hlarge)
    have hle := hbound es s hrun
    omega
  · intro hsmall
    obtain ⟨k,hk⟩ := exists_mul_mod_eq (c:=flags.chunkSize.toNat) (m:=2^64) (by decide)
    refine ⟨k,fun es s hrun => ?_⟩
    have hl : Looped flags s := hrun.invariant (fun h he ht => h.step he ht) (.initial hd now)
    by_contra hmore
    have hlt := hl.before k (not_le.mp hmore)
    rw [counter,hk] at hlt
    omega

/-- The defaults end; chunks of no bytes never do. -/
theorem transfer_ends_by_default : (∃ bound, ∀ es s, machine.Run (init {} 100) es s → s.chunks ≤ bound) ∧
    ¬ ∃ bound, ∀ es s, machine.Run (init ⟨1,0,0⟩ 100) es s → s.chunks ≤ bound := by
  constructor
  · exact (transfer_ends_iff rfl (by decide) 100).mpr (by decide +kernel)
  · rw [transfer_ends_iff rfl (by decide) 100]
    decide +kernel

end Ends

end TcpPerf
end CmuQuic
