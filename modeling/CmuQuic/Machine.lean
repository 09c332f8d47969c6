import Mathlib.Tactic

/-! Event-driven machines whose transition function may abort.
An event is taken only where the environment admits it; the transition itself
is a total function into `Except`, so that an abort is a value and not a gap. -/
namespace CmuQuic

@[simp] theorem except_ok_bind {A B C : Type} (b : B) (f : B → Except A C) :
    (Except.ok b >>= f) = f b := rfl

theorem except_bind_eq_ok {A B C : Type} {x : Except A B} {f : B → Except A C} {r : C}
    (h : (x >>= f) = .ok r) : ∃ b, x = .ok b ∧ f b = .ok r := by
  cases x with
  | error e => cases h
  | ok b => exact ⟨b,rfl,h⟩

/-- An event of the first kind has happened, and none of the second kind since. -/
def Since {E : Type*} (p q : E → Bool) (es : List E) : Prop :=
  ∃ pre e post, es = pre ++ e :: post ∧ p e = true ∧ ∀ e' ∈ post, q e' = false

theorem Since.snoc {E : Type*} {p q : E → Bool} {es : List E} {e : E} (h : Since p q es)
    (he : q e = false) : Since p q (es ++ [e]) := by
  obtain ⟨pre,e₀,post,rfl,hp,hpost⟩ := h
  refine ⟨pre,e₀,post ++ [e],by simp,hp,fun e' he' => ?_⟩
  rcases List.mem_append.mp he' with he' | he'
  · exact hpost e' he'
  · rw [List.mem_singleton.mp he',he]

theorem Since.now {E : Type*} {p q : E → Bool} (es : List E) {e : E} (he : p e = true) :
    Since p q (es ++ [e]) := ⟨es,e,[],rfl,he,by simp⟩

/-- A deterministic machine. `admits` collects what the environment promises
before it raises an event; `step` is the program. -/
structure Machine (S E A : Type*) where
  admits : S → E → Prop
  step : S → E → Except A S

namespace Machine

variable {S E A : Type*}

/-- The admitted runs that do not abort, with their events in order. -/
inductive Run (M : Machine S E A) : S → List E → S → Prop
  | nil (s) : Run M s [] s
  | cons {s t u e es} : M.admits s e → M.step s e = .ok t → Run M t es u → Run M s (e :: es) u

/-- No admitted event makes the program abort in this state. -/
def Safe (M : Machine S E A) (s : S) : Prop :=
  ∀ e, M.admits s e → ∃ t, M.step s e = .ok t

/-- A property of states that every admitted event keeps without an abort. -/
structure Inductive (M : Machine S E A) (P : S → Prop) : Prop where
  keeps : ∀ {s e}, P s → M.admits s e → ∃ t, M.step s e = .ok t ∧ P t

theorem Inductive.safe {M : Machine S E A} {P : S → Prop} (hM : M.Inductive P) {s : S}
    (hs : P s) : M.Safe s := fun _ he => let ⟨t,ht,_⟩ := hM.keeps hs he; ⟨t,ht⟩

theorem Inductive.step {M : Machine S E A} {P : S → Prop} (hM : M.Inductive P) {s t : S} {e : E}
    (hs : P s) (he : M.admits s e) (ht : M.step s e = .ok t) : P t := by
  obtain ⟨u,hu,hp⟩ := hM.keeps hs he
  rw [ht] at hu
  cases hu
  exact hp

namespace Run

variable {M : Machine S E A}

theorem trans {s t u : S} {es fs : List E} (h₁ : M.Run s es t) (h₂ : M.Run t fs u) :
    M.Run s (es ++ fs) u := by
  induction h₁ with
  | nil => exact h₂
  | cons he hs _ ih => exact .cons he hs (ih h₂)

theorem single {s t : S} {e : E} (he : M.admits s e) (hs : M.step s e = .ok t) :
    M.Run s [e] t := .cons he hs (.nil t)

theorem split {s u : S} {es fs : List E} (h : M.Run s (es ++ fs) u) :
    ∃ t, M.Run s es t ∧ M.Run t fs u := by
  induction es generalizing s with
  | nil => exact ⟨s,.nil s,h⟩
  | cons e es ih =>
    cases h with
    | cons he hs ht =>
      obtain ⟨t,h₁,h₂⟩ := ih ht
      exact ⟨t,.cons he hs h₁,h₂⟩

theorem cons_inv {s u : S} {e : E} {es : List E} (h : M.Run s (e :: es) u) :
    ∃ t, M.admits s e ∧ M.step s e = .ok t ∧ M.Run t es u := by
  cases h with
  | cons he hs ht => exact ⟨_,he,hs,ht⟩

theorem unique {s t u : S} {es : List E} (h₁ : M.Run s es t) (h₂ : M.Run s es u) : t = u := by
  induction h₁ with
  | nil =>
    cases h₂
    rfl
  | cons _ hs _ ih =>
    obtain ⟨v,_,hv,hr⟩ := h₂.cons_inv
    rw [hs] at hv
    cases hv
    exact ih hr

theorem invariant {P : S → Prop} (hP : ∀ {s e t}, P s → M.admits s e → M.step s e = .ok t → P t)
    {s t : S} {es : List E} (h : M.Run s es t) (hs : P s) : P t := by
  induction h with
  | nil => exact hs
  | cons he hst _ ih => exact ih (hP hs he hst)

theorem history {P : List E → S → Prop}
    (hP : ∀ {hs s e t}, P hs s → M.admits s e → M.step s e = .ok t → P (hs ++ [e]) t)
    {s t : S} {p es : List E} (h : M.Run s es t) (hs : P p s) : P (p ++ es) t := by
  induction h generalizing p with
  | nil => simpa using hs
  | cons he hst _ ih => simpa using ih (hP hs he hst)

theorem weaken {N : Machine S E A} {s t : S} {es : List E} (h : N.Run s es t)
    (hN : ∀ {s e}, N.admits s e → M.admits s e) (hstep : N.step = M.step) : M.Run s es t := by
  induction h with
  | nil => exact .nil _
  | cons he hs _ ih => exact .cons (hN he) (hstep ▸ hs) ih

/-- The runs that stay good are those of the machine that admits less, if its events
keep an invariant that is good, and every other event leads at once to a bad state. -/
theorem stays_good_iff {N : Machine S E A} {I Good : List E → S → Prop}
    (hN : ∀ {s e}, N.admits s e → M.admits s e) (hstep : N.step = M.step)
    (hgood : ∀ {hs s}, I hs s → Good hs s)
    (hkeep : ∀ {hs s e t}, I hs s → N.admits s e → M.step s e = .ok t → I (hs ++ [e]) t)
    (hbreak : ∀ {hs s e t}, I hs s → M.admits s e → ¬ N.admits s e → M.step s e = .ok t →
      ¬ Good (hs ++ [e]) t)
    {s t : S} {es p : List E} (h : M.Run s es t) (hI : I p s) :
    (∀ gs u, gs <+: es → M.Run s gs u → Good (p ++ gs) u) ↔ N.Run s es t := by
  constructor
  · intro hall
    induction h generalizing p with
    | nil => exact .nil _
    | @cons s u t e es he hs _ ih =>
      have hNe : N.admits s e := by
        by_contra hNe
        exact hbreak hI he hNe hs (hall [e] u (List.prefix_append [e] es) (.single he hs))
      refine .cons hNe (hstep ▸ hs) (ih (hkeep hI hNe hs) fun gs v hgs hv => ?_)
      have hgood := hall (e :: gs) v ((List.prefix_cons_inj e).mpr hgs) (.cons he hs hv)
      rwa [List.append_cons] at hgood
  · rintro hNrun gs u ⟨rest,rfl⟩ hu
    obtain ⟨v,hv,_⟩ := hNrun.split
    obtain rfl := hu.unique (hv.weaken hN hstep)
    exact hgood (hv.history (fun hI he hs => hkeep hI he (hstep ▸ hs)) hI)

end Run

theorem Inductive.run {M : Machine S E A} {P : S → Prop} (hM : M.Inductive P) {s t : S}
    {es : List E} (h : M.Run s es t) (hs : P s) : P t :=
  h.invariant (fun hs he ht => hM.step hs he ht) hs

def exec (M : Machine S E A) [∀ s e, Decidable (M.admits s e)] : S → List E → Option S
  | s, [] => some s
  | s, e :: es =>
    if M.admits s e then
      match M.step s e with
      | .ok t => exec M t es
      | .error _ => none
    else none

theorem run_of_exec (M : Machine S E A) [∀ s e, Decidable (M.admits s e)] {s t : S}
    {es : List E} (h : M.exec s es = some t) : M.Run s es t := by
  induction es generalizing s with
  | nil =>
    simp only [exec,Option.some.injEq] at h
    exact h ▸ .nil s
  | cons e es ih =>
    simp only [exec] at h
    split at h
    · rename_i he
      split at h
      · rename_i u hu
        exact .cons he hu (ih h)
      · simp at h
    · simp at h

theorem exists_run_of_exec (M : Machine S E A) [∀ s e, Decidable (M.admits s e)] {s : S}
    {es : List E} (h : (M.exec s es).isSome = true) : ∃ t, M.Run s es t :=
  let ⟨t,ht⟩ := Option.isSome_iff_exists.mp h
  ⟨t,M.run_of_exec ht⟩

theorem exists_run_of_exec_any (M : Machine S E A) [∀ s e, Decidable (M.admits s e)] {s : S}
    {es : List E} {f : S → Bool} (h : (M.exec s es).any f = true) :
    ∃ t, M.Run s es t ∧ f t = true := by
  cases ht : M.exec s es with
  | none => simp [ht] at h
  | some t => exact ⟨t,M.run_of_exec ht,by simpa [ht] using h⟩

end Machine
end CmuQuic
