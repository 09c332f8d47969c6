import Mathlib.Tactic
import Mathlib.Order.Basic

/-! Ordered multimaps with stable iterators. A node keeps its token for as long as
it is in the map, so an iterator is a token, and the end iterator is `none`. -/
namespace CmuQuic

/-- A node of the tree, named by the token that was drawn when it was inserted. -/
structure Node (K V : Type) where
  token : ℕ
  key : K
  val : V
  deriving DecidableEq

namespace Node

variable {K V : Type}

/-- The part of a list that starts at the node with a given token. -/
def dropTo (t : ℕ) (l : List (Node K V)) : List (Node K V) := l.dropWhile fun n => n.token ≠ t

theorem dropTo_cons (t : ℕ) (x : Node K V) (l : List (Node K V)) :
    dropTo t (x :: l) = if x.token = t then x :: l else dropTo t l := by
  by_cases h : x.token = t <;> simp [dropTo,h]

theorem dropTo_sublist (t : ℕ) (l : List (Node K V)) : (dropTo t l).Sublist l :=
  (List.dropWhile_suffix _).sublist

theorem dropTo_of_mem {x : Node K V} {l : List (Node K V)}
    (hl : l.Pairwise fun a b => a.token ≠ b.token) (hx : x ∈ l) :
    ∃ rest, dropTo x.token l = x :: rest := by
  induction l with
  | nil => simp at hx
  | cons y ys ih =>
    obtain ⟨hy,hys⟩ := List.pairwise_cons.mp hl
    rw [dropTo_cons]
    rcases List.mem_cons.mp hx with rfl | hx
    · exact ⟨ys,if_pos rfl⟩
    · rw [if_neg (hy x hx)]
      exact ih hys hx

theorem dropTo_filter {t u : ℕ} (h : t ≠ u) (l : List (Node K V)) :
    dropTo t (l.filter fun n => n.token ≠ u) = (dropTo t l).filter fun n => n.token ≠ u := by
  induction l with
  | nil => rfl
  | cons y ys ih =>
    rw [List.filter_cons,dropTo_cons]
    by_cases hyu : y.token = u
    · have hyt : y.token ≠ t := fun he => h (he.symm.trans hyu)
      simpa [hyu,hyt,h.symm] using ih
    · by_cases hyt : y.token = t
      · simp [hyt,dropTo_cons,h]
      · simpa [hyu,hyt,dropTo_cons] using ih

theorem dropTo_tail_head {x z : Node K V} {l rest : List (Node K V)}
    (hl : l.Pairwise fun a b => a.token ≠ b.token) (h : dropTo x.token l = x :: z :: rest) :
    dropTo z.token l = z :: rest := by
  induction l with
  | nil => simp [dropTo] at h
  | cons y ys ih =>
    obtain ⟨hy,hys⟩ := List.pairwise_cons.mp hl
    rw [dropTo_cons] at h ⊢
    split_ifs at h with hx
    · obtain ⟨rfl,rfl⟩ := List.cons.inj h
      rw [if_neg (hy z (by simp)),dropTo_cons,if_pos rfl]
    · have hzmem : z ∈ ys := (dropTo_sublist x.token ys).subset (by simp [h])
      rw [if_neg (hy z hzmem)]
      exact ih hys h

variable [LinearOrder K]

/-- Insert a node behind every node whose key is not greater. -/
def insertAtUpperBound (x : Node K V) : List (Node K V) → List (Node K V)
  | [] => [x]
  | y :: ys => if y.key ≤ x.key then y :: insertAtUpperBound x ys else x :: y :: ys

theorem insertAtUpperBound_perm (x : Node K V) (l : List (Node K V)) :
    (insertAtUpperBound x l).Perm (x :: l) := by
  induction l with
  | nil => exact .refl _
  | cons y ys ih =>
    unfold insertAtUpperBound
    split_ifs
    · exact (ih.cons y).trans (.swap x y ys)
    · exact .refl _

theorem mem_insertAtUpperBound {x y : Node K V} {l : List (Node K V)} :
    y ∈ insertAtUpperBound x l ↔ y = x ∨ y ∈ l := by
  rw [(insertAtUpperBound_perm x l).mem_iff,List.mem_cons]

theorem insertAtUpperBound_sorted {x : Node K V} {l : List (Node K V)}
    (hl : l.Pairwise fun a b => a.key ≤ b.key) :
    (insertAtUpperBound x l).Pairwise fun a b => a.key ≤ b.key := by
  induction l with
  | nil => simp [insertAtUpperBound]
  | cons y ys ih =>
    obtain ⟨hy,hys⟩ := List.pairwise_cons.mp hl
    unfold insertAtUpperBound
    split_ifs with h
    · refine List.pairwise_cons.mpr ⟨fun z hz => ?_,ih hys⟩
      rcases mem_insertAtUpperBound.mp hz with rfl | hz
      · exact h
      · exact hy z hz
    · have hlt : x.key < y.key := not_le.mp h
      refine List.pairwise_cons.mpr ⟨fun z hz => ?_,hl⟩
      rcases List.mem_cons.mp hz with rfl | hz
      · exact hlt.le
      · exact hlt.le.trans (hy z hz)

theorem filter_insertAtUpperBound {p : Node K V → Bool} {x : Node K V} (hx : p x = false)
    (l : List (Node K V)) : (insertAtUpperBound x l).filter p = l.filter p := by
  induction l with
  | nil => simp [insertAtUpperBound,hx]
  | cons y ys ih =>
    unfold insertAtUpperBound
    split_ifs
    · rw [List.filter_cons,List.filter_cons,ih]
    · rw [List.filter_cons_of_neg (by simp [hx])]

/-- The order of a multimap: by key, and among equal keys by insertion. -/
def Before (a b : Node K V) : Prop := a.key < b.key ∨ a.key = b.key ∧ a.token < b.token

theorem Before.asymm {a b : Node K V} (h : Before a b) : ¬Before b a := by
  rcases h with h | ⟨h,ht⟩
  · rintro (h' | ⟨h',_⟩)
    · exact lt_asymm h h'
    · exact h.ne' h'
  · rintro (h' | ⟨_,ht'⟩)
    · exact h'.ne' h
    · exact lt_asymm ht ht'

theorem insertAtUpperBound_before {x : Node K V} {l : List (Node K V)} (hl : l.Pairwise Before)
    (hx : ∀ y ∈ l, y.token < x.token) : (insertAtUpperBound x l).Pairwise Before := by
  induction l with
  | nil => simp [insertAtUpperBound]
  | cons y ys ih =>
    obtain ⟨hy,hys⟩ := List.pairwise_cons.mp hl
    unfold insertAtUpperBound
    split_ifs with h
    · refine List.pairwise_cons.mpr ⟨fun z hz => ?_,ih hys fun z hz => hx z (by simp [hz])⟩
      rcases mem_insertAtUpperBound.mp hz with rfl | hz
      · exact h.lt_or_eq.imp_right fun he => ⟨he,hx y (by simp)⟩
      · exact hy z hz
    · refine List.pairwise_cons.mpr ⟨fun z hz => Or.inl ?_,hl⟩
      rcases List.mem_cons.mp hz with rfl | hz
      · exact not_le.mp h
      · rcases hy z hz with hlt | ⟨he,_⟩
        · exact (not_le.mp h).trans hlt
        · exact he ▸ not_le.mp h

theorem dropTo_insert {x y : Node K V} {l : List (Node K V)}
    (hs : l.Pairwise fun a b => a.key ≤ b.key) (hl : l.Pairwise fun a b => a.token ≠ b.token)
    (hx : x ∈ l) (hy : ∀ z ∈ l, y.token ≠ z.token) :
    dropTo x.token (insertAtUpperBound y l) =
      if x.key ≤ y.key then insertAtUpperBound y (dropTo x.token l) else dropTo x.token l := by
  induction l with
  | nil => simp at hx
  | cons z zs ih =>
    obtain ⟨hz,hzs⟩ := List.pairwise_cons.mp hs
    obtain ⟨hzt,hzst⟩ := List.pairwise_cons.mp hl
    have hyx := hy x hx
    rw [insertAtUpperBound,dropTo_cons]
    rcases List.mem_cons.mp hx with rfl | hx'
    · rw [if_pos rfl]
      split_ifs with h
      · rw [dropTo_cons,if_pos rfl,insertAtUpperBound,if_pos h]
      · rw [dropTo_cons,if_neg hyx,dropTo_cons,if_pos rfl]
    · have hne : z.token ≠ x.token := hzt x hx'
      rw [if_neg hne]
      by_cases h : z.key ≤ y.key
      · rw [if_pos h,dropTo_cons,if_neg hne]
        exact ih hzs hzst hx' fun w hw => hy w (by simp [hw])
      · have hxy : ¬x.key ≤ y.key := fun hle => h ((hz x hx').trans hle)
        rw [if_neg h,if_neg hxy,dropTo_cons,if_neg hyx,dropTo_cons,if_neg hne]

end Node

/-- The map: its nodes in iteration order, and the next token to draw. -/
structure Multimap (K V : Type) [LinearOrder K] where
  nodes : List (Node K V)
  nextToken : ℕ
  sorted : nodes.Pairwise fun a b => a.key ≤ b.key
  distinct : nodes.Pairwise fun a b => a.token ≠ b.token
  fresh : ∀ n ∈ nodes, n.token < nextToken

namespace Multimap

open Node

variable {K V : Type} [LinearOrder K]

def empty : Multimap K V := ⟨[],0,.nil,.nil,by simp⟩

def find (m : Multimap K V) (t : ℕ) : Option (Node K V) := m.nodes.find? fun n => n.token = t

def insert (m : Multimap K V) (k : K) (v : V) : Multimap K V where
  nodes := insertAtUpperBound ⟨m.nextToken,k,v⟩ m.nodes
  nextToken := m.nextToken+1
  sorted := insertAtUpperBound_sorted m.sorted
  distinct := by
    refine ((insertAtUpperBound_perm _ _).pairwise_iff (fun h => Ne.symm h)).mpr ?_
    exact List.pairwise_cons.mpr ⟨fun n hn => (m.fresh n hn).ne',m.distinct⟩
  fresh n hn := by
    rcases mem_insertAtUpperBound.mp hn with rfl | hn
    · exact Nat.lt_succ_self _
    · exact Nat.lt_succ_of_lt (m.fresh n hn)

def erase (m : Multimap K V) (t : ℕ) : Multimap K V where
  nodes := m.nodes.filter fun n => n.token ≠ t
  nextToken := m.nextToken
  sorted := m.sorted.filter _
  distinct := m.distinct.filter _
  fresh n hn := m.fresh n (List.mem_of_mem_filter hn)

def first (m : Multimap K V) : Option ℕ := m.nodes.head?.map Node.token

def next (m : Multimap K V) (t : ℕ) : Option ℕ :=
  ((dropTo t m.nodes).drop 1).head?.map Node.token

def ahead (m : Multimap K V) : Option ℕ → List (Node K V)
  | none => []
  | some t => dropTo t m.nodes

theorem eq_of_token {m : Multimap K V} {x y : Node K V} (hx : x ∈ m.nodes) (hy : y ∈ m.nodes)
    (h : x.token = y.token) : x = y :=
  List.inj_on_of_nodup_map (f:=Node.token) (List.pairwise_map.mpr m.distinct) hx hy h

theorem find_eq_some {m : Multimap K V} {t : ℕ} {x : Node K V} :
    m.find t = some x ↔ x ∈ m.nodes ∧ x.token = t := by
  constructor
  · intro h
    exact ⟨List.mem_of_find?_eq_some h,by simpa using List.find?_some h⟩
  · rintro ⟨hx,rfl⟩
    cases h : m.find x.token with
    | none => simpa using List.find?_eq_none.mp h x hx
    | some y =>
      have hy : y.token = x.token := by simpa using List.find?_some h
      rw [eq_of_token (List.mem_of_find?_eq_some h) hx hy]

@[simp] theorem mem_insert {m : Multimap K V} {k : K} {v : V} {x : Node K V} :
    x ∈ (m.insert k v).nodes ↔ x = ⟨m.nextToken,k,v⟩ ∨ x ∈ m.nodes := mem_insertAtUpperBound

@[simp] theorem mem_erase {m : Multimap K V} {t : ℕ} {x : Node K V} :
    x ∈ (m.erase t).nodes ↔ x ∈ m.nodes ∧ x.token ≠ t := by simp [erase]

/-- Entries of equal keys stand in the order in which they were inserted. -/
def Chronological (m : Multimap K V) : Prop := m.nodes.Pairwise Before

theorem Chronological.insert {m : Multimap K V} (h : m.Chronological) (k : K) (v : V) :
    (m.insert k v).Chronological := insertAtUpperBound_before h m.fresh

theorem Chronological.erase {m : Multimap K V} (h : m.Chronological) (t : ℕ) :
    (m.erase t).Chronological := h.filter _

theorem Chronological.pair_sublist {m : Multimap K V} (h : m.Chronological) {x y : Node K V}
    (hx : x ∈ m.nodes) (hy : y ∈ m.nodes) (hxy : Before x y) : [x,y].Sublist m.nodes := by
  obtain ⟨front,back,hm⟩ := List.append_of_mem hy
  have hp : (front ++ y :: back).Pairwise Before := hm ▸ h
  obtain ⟨_,hback,_⟩ := List.pairwise_append.mp hp
  have hfront : x ∈ front := by
    rw [hm,List.mem_append,List.mem_cons] at hx
    rcases hx with hx | rfl | hx
    · exact hx
    · exact absurd hxy hxy.asymm
    · exact absurd ((List.pairwise_cons.mp hback).1 x hx) hxy.asymm
  rw [hm]
  exact (List.singleton_sublist.mpr hfront).append (List.singleton_sublist.mpr (by simp))

theorem ahead_cons {m : Multimap K V} {x : Node K V} (hx : x ∈ m.nodes) :
    ∃ rest, m.ahead (some x.token) = x :: rest := dropTo_of_mem m.distinct hx

theorem ahead_sublist (m : Multimap K V) (i : Option ℕ) : (m.ahead i).Sublist m.nodes := by
  cases i with
  | none => exact List.nil_sublist _
  | some t => exact dropTo_sublist t m.nodes

theorem ahead_first (m : Multimap K V) : m.ahead m.first = m.nodes := by
  unfold first
  cases h : m.nodes with
  | nil => rfl
  | cons x xs => simp [ahead,h,dropTo_cons]

theorem ahead_insert {m : Multimap K V} {x : Node K V} (hx : x ∈ m.nodes) (k : K) (v : V) :
    (m.insert k v).ahead (some x.token) =
      if x.key ≤ k then insertAtUpperBound ⟨m.nextToken,k,v⟩ (m.ahead (some x.token))
      else m.ahead (some x.token) :=
  dropTo_insert m.sorted m.distinct hx fun z hz => (m.fresh z hz).ne'

/-- An insertion while an iterator stands: the new node is ahead of it or is not, and
nothing else moves. -/
theorem ahead_insert_cases {m : Multimap K V} {i : Option ℕ}
    (hi : ∀ t, i = some t → ∃ x ∈ m.nodes, x.token = t) (k : K) (v : V) :
    (m.insert k v).ahead i = m.ahead i ∨
      (m.insert k v).ahead i = insertAtUpperBound ⟨m.nextToken,k,v⟩ (m.ahead i) := by
  cases i with
  | none => exact Or.inl rfl
  | some t =>
    obtain ⟨x,hx,rfl⟩ := hi t rfl
    rw [ahead_insert hx]
    split_ifs
    · exact Or.inr rfl
    · exact Or.inl rfl

theorem ahead_erase {m : Multimap K V} {t u : ℕ} (h : t ≠ u) :
    (m.erase u).ahead (some t) = (m.ahead (some t)).filter fun n => n.token ≠ u :=
  dropTo_filter h m.nodes

theorem ahead_next {m : Multimap K V} {x : Node K V} {rest : List (Node K V)}
    (h : m.ahead (some x.token) = x :: rest) : m.ahead (m.next x.token) = rest := by
  have hd : dropTo x.token m.nodes = x :: rest := h
  unfold next
  rw [hd]
  cases rest with
  | nil => rfl
  | cons z zs => exact dropTo_tail_head m.distinct hd

theorem ahead_tail_ne {m : Multimap K V} {x : Node K V} {rest : List (Node K V)}
    (h : m.ahead (some x.token) = x :: rest) : ∀ n ∈ rest, n.token ≠ x.token := by
  have hp := m.distinct.sublist (m.ahead_sublist (some x.token))
  rw [h] at hp
  exact fun n hn => ((List.pairwise_cons.mp hp).1 n hn).symm

theorem next_eq {m : Multimap K V} {x : Node K V} {rest : List (Node K V)}
    (h : m.ahead (some x.token) = x :: rest) :
    m.next x.token = rest.head?.map Node.token := by
  have hd : dropTo x.token m.nodes = x :: rest := h
  simp [next,hd]

theorem next_mem {m : Multimap K V} {x : Node K V} {u : ℕ} (hx : x ∈ m.nodes)
    (h : m.next x.token = some u) : ∃ y ∈ (m.erase x.token).nodes, y.token = u := by
  obtain ⟨rest,hr⟩ := ahead_cons hx
  rw [next_eq hr] at h
  obtain ⟨y,hy,rfl⟩ := Option.map_eq_some_iff.mp h
  have hmem : y ∈ rest := List.mem_of_mem_head? hy
  have hsub := m.ahead_sublist (some x.token)
  rw [hr] at hsub
  exact ⟨y,mem_erase.mpr ⟨hsub.subset (by simp [hmem]),ahead_tail_ne hr y hmem⟩,rfl⟩

theorem ahead_erase_next {m : Multimap K V} {x : Node K V} {rest : List (Node K V)}
    (h : m.ahead (some x.token) = x :: rest) : (m.erase x.token).ahead (m.next x.token) = rest := by
  have hnext := ahead_next h
  have hrest := ahead_tail_ne h
  cases hu : m.next x.token with
  | none =>
    rw [hu] at hnext
    exact hnext
  | some u =>
    rw [hu] at hnext
    have hux : u ≠ x.token := by
      rw [next_eq h] at hu
      obtain ⟨y,hy,rfl⟩ := Option.map_eq_some_iff.mp hu
      exact hrest y (List.mem_of_mem_head? hy)
    rw [ahead_erase hux,hnext]
    exact List.filter_eq_self.mpr fun n hn => by simpa using hrest n hn

end Multimap
end CmuQuic
