import Mathlib.Tactic

/-! A queue that is served from the front and accepts newcomers only while its server
is blocked. Members may leave at any time. -/
namespace CmuQuic

variable {W : Type} [DecidableEq W] {all served closed reported keys : List W} {blocked : Bool}

/-- Where everybody is who waited in the beginning, and where the newcomers are: in
front those who were served or left, then those who still wait in their old order, and
after them those who were reported since. -/
structure Waiting (all served closed reported keys : List W) (blocked : Bool) : Prop where
  order : ∃ front back newly, all = front ++ back ∧ served.Sublist front ∧
    (∀ w ∈ front, w ∈ served ∨ w ∈ closed) ∧
    keys = (back.filter fun w => w ∉ closed) ++ newly ∧ newly.Sublist reported
  heard : ∀ w ∈ reported, w ∈ keys ∨ w ∈ closed
  quiet : blocked = false → reported = []

namespace Waiting

theorem initial (all : List W) : Waiting all [] [] [] all false where
  order := ⟨[],all,[],rfl,.refl [],by simp,by simp,.refl []⟩
  heard := by simp
  quiet _ := rfl

theorem block (h : Waiting all served closed reported keys blocked) :
    Waiting all served closed reported keys true :=
  ⟨h.order,h.heard,by simp⟩

theorem report (h : Waiting all served closed reported keys true) (w : W) :
    Waiting all served closed (reported ++ [w]) (if w ∈ keys then keys else keys ++ [w]) true := by
  obtain ⟨front,back,newly,hall,hserved,hfront,hkeys,hnewly⟩ := h.order
  refine ⟨?_,fun x hx => ?_,by simp⟩
  · split_ifs with hw
    · exact ⟨front,back,newly,hall,hserved,hfront,hkeys,hnewly.trans (List.sublist_append_left _ _)⟩
    · refine ⟨front,back,newly ++ [w],hall,hserved,hfront,?_,hnewly.append (.refl [w])⟩
      rw [hkeys,List.append_assoc]
  · rcases List.mem_append.mp hx with hx | hx
    · rcases h.heard x hx with hk | hc
      · left
        split_ifs
        · exact hk
        · exact List.mem_append_left _ hk
      · exact Or.inr hc
    · obtain rfl := List.mem_singleton.mp hx
      left
      split_ifs with hw
      · exact hw
      · simp

theorem close (h : Waiting all served closed reported keys blocked) (w : W) :
    Waiting all served (closed ++ [w]) reported (keys.filter fun x => x ≠ w) blocked := by
  obtain ⟨front,back,newly,hall,hserved,hfront,hkeys,hnewly⟩ := h.order
  refine ⟨⟨front,back,newly.filter fun x => x ≠ w,hall,hserved,fun x hx => ?_,?_,
    List.filter_sublist.trans hnewly⟩,fun x hx => ?_,h.quiet⟩
  · rcases hfront x hx with hs | hc
    · exact Or.inl hs
    · exact Or.inr (List.mem_append_left _ hc)
  · rw [hkeys,List.filter_append,List.filter_filter]
    congr 1
    refine List.filter_congr fun x _ => ?_
    by_cases hx : x = w <;> simp [hx]
  · by_cases hxw : x = w
    · exact Or.inr (by simp [hxw])
    · rcases h.heard x hx with hk | hc
      · exact Or.inl (List.mem_filter.mpr ⟨hk,by simpa using hxw⟩)
      · exact Or.inr (List.mem_append_left _ hc)

theorem serve {w : W} {rest : List W} (h : Waiting all served closed reported (w :: rest) false) :
    Waiting all (served ++ [w]) closed reported rest false := by
  have hnone := h.quiet rfl
  obtain ⟨front,back,newly,hall,hserved,hfront,hkeys,hnewly⟩ := h.order
  rw [hnone] at hnewly
  obtain rfl := List.sublist_nil.mp hnewly
  rw [List.append_nil] at hkeys
  obtain ⟨left,back',rfl,hleft,_,hrest⟩ := List.filter_eq_cons_iff.mp hkeys.symm
  refine ⟨⟨front ++ (left ++ [w]),back',[],by simp [hall],?_,fun x hx => ?_,by rw [hrest,List.append_nil],
    by simp⟩,by simp [hnone],fun _ => hnone⟩
  · exact hserved.append (List.sublist_append_right left [w])
  · rcases List.mem_append.mp hx with hx | hx
    · rcases hfront x hx with hs | hc
      · exact Or.inl (List.mem_append_left _ hs)
      · exact Or.inr hc
    · rcases List.mem_append.mp hx with hx | hx
      · exact Or.inr (by simpa using hleft x hx)
      · exact Or.inl (List.mem_append_right _ hx)

theorem mem_all {w : W} (h : Waiting all served closed reported keys false) (hw : w ∈ keys) :
    w ∈ all := by
  obtain ⟨front,back,newly,hall,_,_,hkeys,hnewly⟩ := h.order
  rw [h.quiet rfl] at hnewly
  obtain rfl := List.sublist_nil.mp hnewly
  rw [hkeys,List.append_nil] at hw
  rw [hall]
  exact List.mem_append_right _ (List.mem_filter.mp hw).1

end Waiting
end CmuQuic
