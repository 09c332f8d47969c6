import Mathlib.Tactic

/-! A non-blocking datagram socket in an edge-triggered poll set. An edge is raised when
the socket gets ready and is gone once it was reported, whether or not anybody acts on
the report. What nobody has been told about is the concern of this file. -/
namespace CmuQuic

structure DatagramSocket (D : Type*) where
  /-- Everything that has come in. -/
  arrived : List D
  /-- What has not been read. -/
  received : List D
  writable : Bool
  inEdge : Bool
  outEdge : Bool

namespace DatagramSocket

variable {D : Type*} {s : DatagramSocket D} {P Q : Prop} {blocked blocked' : Bool}

/-- A socket that is added to the poll set is reported if it is ready already. -/
def added (received : List D) (writable : Bool) : DatagramSocket D :=
  ⟨received,received,writable,!received.isEmpty,writable⟩

def arrive (s : DatagramSocket D) (d : D) : DatagramSocket D :=
  { s with arrived := s.arrived ++ [d], received := s.received ++ [d], inEdge := true }

def take (s : DatagramSocket D) : DatagramSocket D := { s with received := s.received.tail }

def becomeWritable (s : DatagramSocket D) : DatagramSocket D :=
  { s with writable := true, outEdge := true }

def fill (s : DatagramSocket D) : DatagramSocket D := { s with writable := false }

def report (s : DatagramSocket D) : DatagramSocket D := { s with inEdge := false, outEdge := false }

/-- A report shows each edge whose cause still stands, and perhaps more. -/
def Shows (s : DatagramSocket D) (input output : Prop) : Prop :=
  (s.inEdge = true → s.received ≠ [] → input) ∧ (s.outEdge = true → s.writable = true → output)

instance (s : DatagramSocket D) [Decidable P] [Decidable Q] : Decidable (s.Shows P Q) :=
  haveI : Decidable (s.received ≠ []) := decidable_of_iff (s.received.isEmpty = false)
    (by cases s.received <;> simp)
  inferInstanceAs (Decidable ((_ → _ → _) ∧ (_ → _ → _)))

/-- Whatever is unread will be reported, or somebody knows of it. -/
def InputNoted (s : DatagramSocket D) (P : Prop) : Prop := s.received ≠ [] → s.inEdge = true ∨ P

/-- A writer that was turned away will hear of the room for it, or somebody knows of it. -/
def OutputNoted (s : DatagramSocket D) (blocked : Bool) (P : Prop) : Prop :=
  blocked = true → s.writable = false ∨ s.outEdge = true ∨ P

theorem InputNoted.added (received : List D) (writable : Bool) :
    (added received writable).InputNoted P := by
  intro h
  cases received with
  | nil => exact absurd rfl h
  | cons d ds => exact Or.inl rfl

theorem InputNoted.arrive (s : DatagramSocket D) (d : D) : (s.arrive d).InputNoted P :=
  fun _ => Or.inl rfl

theorem InputNoted.take (h : s.InputNoted P) : s.take.InputNoted P := by
  intro hne
  apply h
  intro hnil
  simp [DatagramSocket.take,hnil] at hne

theorem InputNoted.mono (h : s.InputNoted P) (hPQ : P → Q) : s.InputNoted Q :=
  fun hne => (h hne).imp_right hPQ

theorem InputNoted.of_nil (h : s.received = []) : s.InputNoted P := fun hne => absurd h hne

theorem InputNoted.report (h : s.InputNoted P) (hPQ : P → Q)
    (hshow : s.inEdge = true → s.received ≠ [] → Q) : s.report.InputNoted Q :=
  fun hne => Or.inr ((h hne).elim (fun he => hshow he hne) hPQ)

theorem OutputNoted.mono (h : s.OutputNoted blocked P) (hPQ : P → Q) : s.OutputNoted blocked Q :=
  fun hb => (h hb).imp_right (Or.imp_right hPQ)

theorem OutputNoted.of_free : s.OutputNoted false P := fun h => by cases h

theorem OutputNoted.becomeWritable (s : DatagramSocket D) (blocked : Bool) :
    s.becomeWritable.OutputNoted blocked P := fun _ => Or.inr (Or.inl rfl)

theorem OutputNoted.fill (s : DatagramSocket D) (blocked : Bool) : s.fill.OutputNoted blocked P :=
  fun _ => Or.inl rfl

theorem OutputNoted.report (h : s.OutputNoted blocked P) (hPQ : P → Q)
    (hshow : s.outEdge = true → s.writable = true → Q) : s.report.OutputNoted blocked Q := by
  intro hb
  rcases h hb with hfull | hedge | hP
  · exact Or.inl hfull
  · cases hw : s.writable with
    | false => exact Or.inl hw
    | true => exact Or.inr (Or.inr (hshow hedge hw))
  · exact Or.inr (Or.inr (hPQ hP))

/-- Writes of one step: a writer that was turned away in it found the socket full. -/
def wrote (s : DatagramSocket D) (blocked blocked' : Bool) : DatagramSocket D :=
  if blocked = false ∧ blocked' = true then s.fill else s

@[simp] theorem received_wrote (s : DatagramSocket D) (b b' : Bool) :
    (s.wrote b b').received = s.received := by unfold wrote; split <;> rfl
@[simp] theorem arrived_wrote (s : DatagramSocket D) (b b' : Bool) :
    (s.wrote b b').arrived = s.arrived := by unfold wrote; split <;> rfl
@[simp] theorem inEdge_wrote (s : DatagramSocket D) (b b' : Bool) :
    (s.wrote b b').inEdge = s.inEdge := by unfold wrote; split <;> rfl

theorem InputNoted.wrote (h : s.InputNoted P) : (s.wrote blocked blocked').InputNoted P := by
  intro hne
  rw [inEdge_wrote]
  exact h (by simpa using hne)

theorem OutputNoted.wrote (h : s.OutputNoted blocked P) :
    (s.wrote blocked blocked').OutputNoted blocked' P := by
  unfold DatagramSocket.wrote
  split_ifs with hturned
  · exact .fill s blocked'
  · intro hb
    cases hblocked : blocked with
    | false => exact absurd ⟨hblocked,hb⟩ hturned
    | true => exact h hblocked

end DatagramSocket
end CmuQuic
