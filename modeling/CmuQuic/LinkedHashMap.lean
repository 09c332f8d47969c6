import Mathlib.Tactic

/-! Maps that remember the order in which their keys were inserted. -/
namespace CmuQuic

structure LinkedHashMap (K V : Type) where
  entries : List (K × V)
  nodup : (entries.map Prod.fst).Nodup

namespace LinkedHashMap

variable {K V : Type}

def empty : LinkedHashMap K V := ⟨[],.nil⟩

def keys (m : LinkedHashMap K V) : List K := m.entries.map Prod.fst

def size (m : LinkedHashMap K V) : ℕ := m.entries.length

def popFront (m : LinkedHashMap K V) : LinkedHashMap K V where
  entries := m.entries.tail
  nodup := m.nodup.sublist ((List.tail_sublist m.entries).map Prod.fst)

def reorder (m : LinkedHashMap K V) (es : List (K × V)) (h : es.Perm m.entries) :
    LinkedHashMap K V where
  entries := es
  nodup := (h.map Prod.fst).nodup_iff.mpr m.nodup

theorem eq_of_key {m : LinkedHashMap K V} {e e' : K × V} (h : e ∈ m.entries) (h' : e' ∈ m.entries)
    (hk : e.1 = e'.1) : e = e' := List.inj_on_of_nodup_map m.nodup h h' hk

theorem popFront_of_cons {m : LinkedHashMap K V} {e : K × V} {es : List (K × V)}
    (h : m.entries = e :: es) : m.popFront.entries = es := by
  show m.entries.tail = es
  rw [h,List.tail_cons]

variable [DecidableEq K]

def find (m : LinkedHashMap K V) (k : K) : Option V :=
  (m.entries.find? fun e => e.1 = k).map Prod.snd

def contains (m : LinkedHashMap K V) (k : K) : Bool := k ∈ m.keys

def erase (m : LinkedHashMap K V) (k : K) : LinkedHashMap K V where
  entries := m.entries.filter fun e => e.1 ≠ k
  nodup := m.nodup.sublist (List.filter_sublist.map Prod.fst)

/-- A key that is present keeps its place and its value. -/
def insert (m : LinkedHashMap K V) (k : K) (v : V) : LinkedHashMap K V :=
  if h : k ∈ m.keys then m
  else
    { entries := m.entries ++ [(k,v)]
      nodup := by
        rw [List.map_append,List.nodup_append]
        refine ⟨m.nodup,by simp,fun a ha b hb hab => h ?_⟩
        have hbk : b = k := by simpa using hb
        rw [← hbk,← hab]
        exact ha }

def modify (m : LinkedHashMap K V) (k : K) (f : V → V) : LinkedHashMap K V where
  entries := m.entries.map fun e => if e.1 = k then (e.1,f e.2) else e
  nodup := by
    have h : (m.entries.map fun e => if e.1 = k then (e.1,f e.2) else e).map Prod.fst =
        m.entries.map Prod.fst := by
      rw [List.map_map]
      refine List.map_congr_left fun e _ => ?_
      simp only [Function.comp_apply]
      split_ifs <;> rfl
    rw [h]
    exact m.nodup

variable {m : LinkedHashMap K V} {k : K} {v : V}

theorem find_eq_some : m.find k = some v ↔ (k,v) ∈ m.entries := by
  unfold find
  constructor
  · intro h
    obtain ⟨e,he,rfl⟩ := Option.map_eq_some_iff.mp h
    have hk : e.1 = k := by simpa using List.find?_some he
    exact hk ▸ List.mem_of_find?_eq_some he
  · intro h
    cases he : m.entries.find? fun e => e.1 = k with
    | none => simpa using List.find?_eq_none.mp he (k,v) h
    | some e =>
      have hk : e.1 = k := by simpa using List.find?_some he
      rw [eq_of_key (List.mem_of_find?_eq_some he) h hk]
      rfl

theorem find_eq_none : m.find k = none ↔ k ∉ m.keys := by
  rw [← not_iff_not,← ne_eq,Option.ne_none_iff_exists',not_not,keys,List.mem_map]
  constructor
  · rintro ⟨v,hv⟩
    exact ⟨(k,v),find_eq_some.mp hv,rfl⟩
  · rintro ⟨⟨k',v⟩,hv,rfl⟩
    exact ⟨v,find_eq_some.mpr hv⟩

@[simp] theorem mem_erase {e : K × V} : e ∈ (m.erase k).entries ↔ e ∈ m.entries ∧ e.1 ≠ k := by
  simp [erase]

theorem erase_of_cons {es : List (K × V)} (h : m.entries = (k,v) :: es) :
    (m.erase k).entries = es := by
  have hnd := m.nodup
  rw [h,List.map_cons,List.nodup_cons] at hnd
  simp only [erase,h]
  rw [List.filter_cons_of_neg (by simp)]
  refine List.filter_eq_self.mpr fun e he => ?_
  have hne : e.1 ≠ k := fun hk => hnd.1 (List.mem_map.mpr ⟨e,he,hk⟩)
  simpa using hne

theorem perm_erase (h : (k,v) ∈ m.entries) : ((k,v) :: (m.erase k).entries).Perm m.entries := by
  have hnd := m.nodup
  simp only [erase]
  generalize m.entries = es at h hnd
  induction es with
  | nil => cases h
  | cons e es ih =>
    obtain ⟨hfresh,hnd⟩ := List.nodup_cons.mp hnd
    have hne : ∀ e' ∈ es, e'.1 ≠ e.1 := fun e' he' hk => hfresh (hk ▸ List.mem_map_of_mem he')
    rcases List.mem_cons.mp h with rfl | h
    · have hself : es.filter (fun e => e.1 ≠ k) = es :=
        List.filter_eq_self.mpr fun e he => by simpa using hne e he
      rw [List.filter_cons_of_neg (by simp),hself]
    · have hk : e.1 ≠ k := fun hk => hne _ h hk.symm
      rw [List.filter_cons_of_pos (by simpa using hk)]
      exact (List.Perm.swap _ _ _).trans ((ih h hnd).cons e)

@[simp] theorem mem_keys_erase {x : K} : x ∈ (m.erase k).keys ↔ x ∈ m.keys ∧ x ≠ k := by
  simp only [keys,List.mem_map,mem_erase]
  constructor
  · rintro ⟨e,⟨he,hk⟩,rfl⟩
    exact ⟨⟨e,he,rfl⟩,hk⟩
  · rintro ⟨⟨e,he,rfl⟩,hk⟩
    exact ⟨e,⟨he,hk⟩,rfl⟩

theorem entries_insert (h : k ∉ m.keys) : (m.insert k v).entries = m.entries ++ [(k,v)] := by
  rw [insert,dif_neg h]

theorem keys_insert (m : LinkedHashMap K V) (k : K) (v : V) :
    (m.insert k v).keys = if k ∈ m.keys then m.keys else m.keys ++ [k] := by
  by_cases h : k ∈ m.keys
  · rw [insert,dif_pos h,if_pos h]
  · rw [if_neg h,keys,entries_insert h,List.map_append]
    rfl

theorem keys_erase (m : LinkedHashMap K V) (k : K) :
    (m.erase k).keys = m.keys.filter fun x => x ≠ k := by
  rw [keys,keys,List.filter_map]
  rfl

@[simp] theorem mem_keys_insert {x : K} : x ∈ (m.insert k v).keys ↔ x = k ∨ x ∈ m.keys := by
  by_cases h : k ∈ m.keys
  · rw [insert,dif_pos h]
    constructor
    · exact Or.inr
    · rintro (rfl | hx)
      · exact h
      · exact hx
  · rw [keys,entries_insert h]
    simp [keys,or_comm]

@[simp] theorem keys_modify (m : LinkedHashMap K V) (k : K) (f : V → V) :
    (m.modify k f).keys = m.keys := by
  simp only [keys,modify,List.map_map]
  refine List.map_congr_left fun e _ => ?_
  simp only [Function.comp_apply]
  split_ifs <;> rfl

end LinkedHashMap
end CmuQuic
