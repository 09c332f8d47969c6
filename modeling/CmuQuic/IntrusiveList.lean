import Mathlib.Tactic

/-! Intrusive doubly linked lists in the manner of `sys/queue.h`.
The links of all elements live in one memory; a backward link holds the address
of the forward link that leads to its element. Every operation faults on an
element that the owner has already freed. -/
set_option linter.unusedSectionVars false
namespace CmuQuic
namespace IntrusiveList

/-- The cells a backward link can point at: the `lh_first` of a head or the
`le_next` of an element. -/
inductive Slot (H A : Type)
  | first (h : H)
  | next (a : A)
  deriving DecidableEq

structure Links (H A : Type) where
  lhFirst : H → Option A
  leNext : A → Option A
  lePrev : A → Option (Slot H A)

variable {H A : Type} [DecidableEq H] [DecidableEq A]

/-- The lists of the heads are duplicate-free and share no element. -/
structure Separate (L : H → List A) : Prop where
  nodup : ∀ h, (L h).Nodup
  disjoint : ∀ {h k a}, a ∈ L h → a ∈ L k → h = k

theorem mem_update {L : H → List A} {h : H} {l : List A} {k : H} {x : A} :
    x ∈ Function.update L h l k ↔ k = h ∧ x ∈ l ∨ k ≠ h ∧ x ∈ L k := by
  by_cases hk : k = h
  · subst hk; simp
  · simp [hk]

namespace Separate

/-- Replacing one list keeps the family separate if the new list brings in no
element of another one. -/
theorem update {L : H → List A} (hL : Separate L) {h : H} {l : List A} (hl : l.Nodup)
    (hd : ∀ {k a}, a ∈ l → a ∈ L k → k = h) : Separate (Function.update L h l) where
  nodup k := by
    by_cases hk : k = h
    · subst hk; simpa using hl
    · simpa [hk] using hL.nodup k
  disjoint {k k' a} ha ha' := by
    rcases mem_update.mp ha with ⟨hk,ha⟩ | ⟨hk,ha⟩ <;>
      rcases mem_update.mp ha' with ⟨hk',ha'⟩ | ⟨hk',ha'⟩
    · rw [hk,hk']
    · exact absurd (hd ha ha') hk'
    · exact absurd (hd ha' ha) hk
    · exact hL.disjoint ha ha'

theorem insert {L : H → List A} (hL : Separate L) {a : A} (ha : ∀ h, a ∉ L h) (h : H) :
    Separate (Function.update L h (a :: L h)) := by
  refine hL.update (List.nodup_cons.mpr ⟨ha h,hL.nodup h⟩) ?_
  intro k x hx hk
  rcases List.mem_cons.mp hx with rfl | hx
  · exact absurd hk (ha k)
  · exact hL.disjoint hk hx

theorem erase {L : H → List A} (hL : Separate L) (a : A) (h : H) :
    Separate (Function.update L h ((L h).erase a)) :=
  hL.update ((hL.nodup h).erase a) fun hx hk => hL.disjoint hk (List.mem_of_mem_erase hx)

theorem move {L : H → List A} (hL : Separate L) (h k : H) :
    Separate (Function.update (Function.update L h []) k (L h)) := by
  refine (hL.update .nil (by simp)).update (hL.nodup h) ?_
  intro j x hx hj
  rcases mem_update.mp hj with ⟨_,hj⟩ | ⟨hne,hj⟩
  · simp at hj
  · exact absurd (hL.disjoint hj hx) hne

end Separate

namespace Links

def init : Links H A := ⟨fun _ => none,fun _ => none,fun _ => none⟩

def load (m : Links H A) : Slot H A → Option A
  | .first h => m.lhFirst h
  | .next a => m.leNext a

def store (m : Links H A) (s : Slot H A) (v : Option A) : Links H A :=
  match s with
  | .first h => { m with lhFirst := Function.update m.lhFirst h v }
  | .next a => { m with leNext := Function.update m.leNext a v }

def setPrev (m : Links H A) (a : A) (s : Option (Slot H A)) : Links H A :=
  { m with lePrev := Function.update m.lePrev a s }

def fresh (m : Links H A) (a : A) : Links H A := (m.store (.next a) none).setPrev a none

/-- `LIST_INSERT_HEAD`; `none` is an access to freed memory. -/
def insertHead (live : A → Bool) (m : Links H A) (h : H) (a : A) : Option (Links H A) :=
  if live a then
    let m₁ := m.store (.next a) (m.lhFirst h)
    match m.lhFirst h with
    | none => some ((m₁.store (.first h) (some a)).setPrev a (some (.first h)))
    | some b =>
      if live b then
        some (((m₁.setPrev b (some (.next a))).store (.first h) (some a)).setPrev a
          (some (.first h)))
      else none
  else none

/-- Whether the object that holds the cell still exists; heads always do. -/
def slotLive (live : A → Bool) : Slot H A → Bool
  | .first _ => true
  | .next a => live a

/-- `LIST_REMOVE`; `none` is an access to freed memory or through a null `le_prev`. -/
def remove (live : A → Bool) (m : Links H A) (a : A) : Option (Links H A) :=
  if live a then
    match m.lePrev a with
    | none => none
    | some p =>
      if slotLive live p && (m.leNext a).all live then
        let m₁ := match m.leNext a with
          | none => m
          | some b => m.setPrev b (some p)
        some (m₁.store p (m.leNext a))
      else none
  else none

def moveHead (live : A → Bool) (m : Links H A) (h k : H) : Option (Links H A) :=
  let v := m.lhFirst h
  let m₁ := (m.store (.first h) (m.lhFirst k)).store (.first k) v
  match v with
  | none => some m₁
  | some b => if live b then some (m₁.setPrev b (some (.first k))) else none

@[simp] theorem load_first (m : Links H A) (h : H) : m.load (.first h) = m.lhFirst h := rfl
@[simp] theorem load_next (m : Links H A) (a : A) : m.load (.next a) = m.leNext a := rfl
@[simp] theorem load_setPrev (m : Links H A) (a : A) (p : Option (Slot H A)) (s : Slot H A) :
    (m.setPrev a p).load s = m.load s := by cases s <;> rfl
@[simp] theorem lhFirst_setPrev (m : Links H A) (a : A) (p : Option (Slot H A)) :
    (m.setPrev a p).lhFirst = m.lhFirst := rfl
@[simp] theorem lePrev_setPrev (m : Links H A) (a : A) (p : Option (Slot H A)) :
    (m.setPrev a p).lePrev = Function.update m.lePrev a p := rfl
@[simp] theorem lePrev_store (m : Links H A) (s : Slot H A) (v : Option A) :
    (m.store s v).lePrev = m.lePrev := by cases s <;> rfl
@[simp] theorem load_store_self (m : Links H A) (s : Slot H A) (v : Option A) :
    (m.store s v).load s = v := by cases s <;> simp [store]
theorem load_store_ne (m : Links H A) {s t : Slot H A} (v : Option A) (h : t ≠ s) :
    (m.store s v).load t = m.load t := by
  cases s <;> cases t <;> simp_all [store]
theorem load_store (m : Links H A) (s t : Slot H A) (v : Option A) :
    (m.store s v).load t = if t = s then v else m.load t := by
  split_ifs with h
  · rw [h,load_store_self]
  · exact load_store_ne m v h

/-- The cell `s` starts the forward chain `xs`, and each element of the chain
points back at the cell that leads to it. -/
def Chain (m : Links H A) : Slot H A → List A → Prop
  | s, [] => m.load s = none
  | s, x :: xs => m.load s = some x ∧ m.lePrev x = some s ∧ Chain m (.next x) xs

theorem Chain.congr {m m' : Links H A} {s : Slot H A} {xs : List A} (h : m.Chain s xs)
    (hs : m'.load s = m.load s)
    (hx : ∀ x ∈ xs, m'.leNext x = m.leNext x ∧ m'.lePrev x = m.lePrev x) : m'.Chain s xs := by
  induction xs generalizing s with
  | nil => exact hs.trans h
  | cons x xs ih =>
    obtain ⟨hl,hp,ht⟩ := h
    have h₁ := hx x (by simp)
    exact ⟨hs.trans hl,h₁.2.trans hp,ih ht h₁.1 (fun y hy => hx y (by simp [hy]))⟩

theorem Chain.load_prev {m : Links H A} {s : Slot H A} {xs : List A} (h : m.Chain s xs)
    {x : A} (hx : x ∈ xs) : ∃ p, m.lePrev x = some p ∧ m.load p = some x := by
  induction xs generalizing s with
  | nil => simp at hx
  | cons y xs ih =>
    obtain ⟨hl,hp,ht⟩ := h
    rcases List.mem_cons.mp hx with rfl | hx
    · exact ⟨s,hp,hl⟩
    · exact ih ht hx

theorem Chain.unique {m : Links H A} {s : Slot H A} {xs ys : List A} (hx : m.Chain s xs)
    (hy : m.Chain s ys) : xs = ys := by
  induction xs generalizing s ys with
  | nil =>
    cases ys with
    | nil => rfl
    | cons y ys => exact absurd (hx.symm.trans hy.1) (by simp)
  | cons x xs ih =>
    cases ys with
    | nil => exact absurd (hx.1.symm.trans hy) (by simp)
    | cons y ys =>
      obtain rfl : x = y := Option.some.inj (hx.1.symm.trans hy.1)
      rw [ih hx.2.2 hy.2.2]

/-- The memory holds exactly the lists `L`: each is reached from its head, and an
element has a backward link exactly if it is on one of them. -/
structure Rep (m : Links H A) (L : H → List A) : Prop where
  chain : ∀ h, m.Chain (.first h) (L h)
  separate : Separate L
  linked : ∀ a, m.lePrev a ≠ none ↔ ∃ h, a ∈ L h

namespace Rep

theorem initial : Rep (init : Links H A) (fun _ => []) where
  chain _ := rfl
  separate := ⟨fun _ => .nil,fun h => by simp at h⟩
  linked a := by simp [init]

theorem not_mem {m : Links H A} {L : H → List A} (hm : Rep m L) {a : A} (ha : m.lePrev a = none)
    (h : H) : a ∉ L h := fun hx => (hm.linked a).mpr ⟨h,hx⟩ ha

theorem lhFirst {m : Links H A} {L : H → List A} (hm : Rep m L) (h : H) :
    m.lhFirst h = (L h).head? := by
  have hc := hm.chain h
  cases hh : L h with
  | nil => rw [hh] at hc; exact hc
  | cons b t => rw [hh] at hc; exact hc.1

theorem fresh {m : Links H A} {L : H → List A} (hm : Rep m L) {a : A} (ha : ∀ h, a ∉ L h) :
    Rep (m.fresh a) L where
  chain h := by
    refine (hm.chain h).congr rfl ?_
    intro x hx
    have hne : x ≠ a := fun he => ha h (he ▸ hx)
    exact ⟨by simp [Links.fresh,store,setPrev,hne],by simp [Links.fresh,hne]⟩
  separate := hm.separate
  linked x := by
    by_cases hx : x = a
    · subst hx; simp [Links.fresh,ha]
    · simpa [Links.fresh,hx] using hm.linked x

end Rep

def inserted (m : Links H A) (h : H) (a : A) : Links H A where
  lhFirst := Function.update m.lhFirst h (some a)
  leNext := Function.update m.leNext a (m.lhFirst h)
  lePrev x := if x = a then some (.first h)
    else if m.lhFirst h = some x then some (.next a) else m.lePrev x

theorem insertHead_eq {live : A → Bool} {m : Links H A} {h : H} {a : A} (ha : live a = true)
    (hf : ∀ b, m.lhFirst h = some b → live b = true) :
    m.insertHead live h a = some (m.inserted h a) := by
  cases hh : m.lhFirst h with
  | none =>
    simp only [insertHead,ha,hh,store,setPrev,inserted,if_true,Option.some.injEq,Links.mk.injEq,
      true_and]
    funext x
    by_cases hx : x = a <;> simp [hx]
  | some b =>
    simp only [insertHead,ha,hh,hf b hh,store,setPrev,inserted,if_true,Option.some.injEq,
      Links.mk.injEq,true_and]
    funext x
    by_cases hx : x = a
    · simp [hx]
    · by_cases hb : x = b
      · subst hb; simp [hx]
      · simp [hx,hb,Ne.symm hb]

theorem Rep.inserted {m : Links H A} {L : H → List A} (hm : Rep m L) {h : H} {a : A}
    (ha : m.lePrev a = none) : Rep (m.inserted h a) (Function.update L h (a :: L h)) := by
  have hn := hm.not_mem ha
  have hprev : ∀ x, x ≠ a → m.lhFirst h ≠ some x → (m.inserted h a).lePrev x = m.lePrev x :=
    fun x hx hb => by simp [Links.inserted,hx,hb]
  have hnext : ∀ x, x ≠ a → (m.inserted h a).leNext x = m.leNext x :=
    fun x hx => by simp [Links.inserted,hx]
  have hin : (m.inserted h a).Chain (.next a) (L h) := by
    have hc := hm.chain h
    have hf := hm.lhFirst h
    have hnd := hm.separate.nodup h
    cases hh : L h with
    | nil => simpa [Chain,Links.inserted,hh] using hf
    | cons b t =>
      rw [hh] at hc hf hnd
      have hba : b ≠ a := fun he => hn h (by simp [hh,he])
      refine ⟨by simpa [Links.inserted] using hf,?_,hc.2.2.congr (hnext b hba) ?_⟩
      · simp [Links.inserted,hba,hf]
      intro x hx
      have hxa : x ≠ a := fun he => hn h (by simp [hh,← he,hx])
      have hxb : b ≠ x := fun he => (List.nodup_cons.mp hnd).1 (he ▸ hx)
      exact ⟨hnext x hxa,hprev x hxa (by simpa [hf] using hxb)⟩
  constructor
  · intro k
    by_cases hk : k = h
    · subst hk
      simpa using ⟨by simp [Links.inserted],by simp [Links.inserted],hin⟩
    · rw [Function.update_of_ne hk]
      refine (hm.chain k).congr (by simp [Links.inserted,hk]) ?_
      intro x hx
      have hxa : x ≠ a := fun he => hn k (he ▸ hx)
      refine ⟨hnext x hxa,hprev x hxa fun hb => hk ?_⟩
      rw [hm.lhFirst h] at hb
      exact hm.separate.disjoint hx (List.mem_of_mem_head? hb)
  · exact hm.separate.insert hn h
  · intro x
    have hmem : (∃ k, x ∈ Function.update L h (a :: L h) k) ↔ x = a ∨ ∃ k, x ∈ L k := by
      simp only [mem_update,List.mem_cons]
      constructor
      · rintro ⟨k,⟨rfl,rfl | hx⟩ | ⟨_,hx⟩⟩
        · exact Or.inl rfl
        · exact Or.inr ⟨_,hx⟩
        · exact Or.inr ⟨_,hx⟩
      · rintro (rfl | ⟨k,hx⟩)
        · exact ⟨h,Or.inl ⟨rfl,Or.inl rfl⟩⟩
        · by_cases hk : k = h
          · exact ⟨k,Or.inl ⟨hk,Or.inr (hk ▸ hx)⟩⟩
          · exact ⟨k,Or.inr ⟨hk,hx⟩⟩
    rw [hmem,← hm.linked x]
    by_cases hx : x = a
    · simp [Links.inserted,hx]
    · by_cases hb : m.lhFirst h = some x
      · have h₁ : m.lePrev x ≠ none :=
          (hm.linked x).mpr ⟨h,List.mem_of_mem_head? (hm.lhFirst h ▸ hb)⟩
        simp [Links.inserted,hb,hx,h₁]
      · simp [hprev x hx hb,hx]

def removed (m : Links H A) (p : Slot H A) (a : A) : Links H A :=
  let m₁ := match m.leNext a with
    | none => m
    | some b => m.setPrev b (some p)
  (m₁.store p (m.leNext a)).setPrev a none

theorem remove_eq {live : A → Bool} {m : Links H A} {p : Slot H A} {a : A} (ha : live a = true)
    (hp : m.lePrev a = some p) (hs : slotLive live p = true)
    (hn : ∀ b, m.leNext a = some b → live b = true) :
    ∃ m', m.remove live a = some m' ∧ m'.setPrev a none = m.removed p a := by
  refine ⟨_,?_,rfl⟩
  cases hh : m.leNext a with
  | none => simp [remove,ha,hp,hs,hh]
  | some b => simp [remove,ha,hp,hs,hh,hn b hh]

@[simp] theorem load_removed (m : Links H A) (p s : Slot H A) (a : A) :
    (m.removed p a).load s = if s = p then m.leNext a else m.load s := by
  cases hh : m.leNext a <;> simp [removed,hh,load_store]

theorem lePrev_removed (m : Links H A) (p : Slot H A) (a x : A) :
    (m.removed p a).lePrev x =
      if x = a then none else if m.leNext a = some x then some p else m.lePrev x := by
  by_cases hx : x = a
  · cases hh : m.leNext a <;> simp [removed,hh,hx]
  · cases hh : m.leNext a with
    | none => simp [removed,hh,hx]
    | some b =>
      by_cases hb : x = b
      · subst hb; simp [removed,hh,hx]
      · simp [removed,hh,hx,hb,Ne.symm hb]

theorem Chain.prev_eq {m : Links H A} {s : Slot H A} {xs : List A} (h : m.Chain s xs)
    {x : A} (hx : x ∈ xs) {p : Slot H A} (hp : m.lePrev x = some p) :
    p = s ∨ ∃ y ∈ xs, p = .next y := by
  induction xs generalizing s with
  | nil => simp at hx
  | cons y xs ih =>
    obtain ⟨_,hy,ht⟩ := h
    rcases List.mem_cons.mp hx with rfl | hx
    · left
      exact Option.some.inj (hp.symm.trans hy)
    · rcases ih ht hx with rfl | ⟨z,hz,rfl⟩
      · exact Or.inr ⟨y,by simp,rfl⟩
      · exact Or.inr ⟨z,by simp [hz],rfl⟩

theorem Chain.next_mem {m : Links H A} {s : Slot H A} {xs : List A} (h : m.Chain s xs)
    {x b : A} (hx : x ∈ xs) (hb : m.leNext x = some b) : b ∈ xs := by
  induction xs generalizing s with
  | nil => simp at hx
  | cons y xs ih =>
    obtain ⟨_,_,ht⟩ := h
    rcases List.mem_cons.mp hx with rfl | hx
    · cases xs with
      | nil => exact absurd (hb.symm.trans ht) (by simp)
      | cons z xs =>
        have he : z = b := Option.some.inj (ht.1.symm.trans hb)
        simp [he]
    · exact List.mem_cons_of_mem _ (ih ht hx)

/-- Unlinking an element shortens the chain around it. The induction is on the
elements before it; `s` is never written unless it leads to the element. -/
theorem Chain.removed {m : Links H A} {s p : Slot H A} {xs : List A} {a : A} (h : m.Chain s xs)
    (hnd : xs.Nodup) (hs : ∀ y ∈ xs, s ≠ .next y) (ha : a ∈ xs) (hp : m.lePrev a = some p) :
    (m.removed p a).Chain s (xs.erase a) := by
  induction xs generalizing s with
  | nil => simp at ha
  | cons x xs ih =>
    obtain ⟨hl,hx,ht⟩ := h
    obtain ⟨hxn,hnd'⟩ := List.nodup_cons.mp hnd
    by_cases he : x = a
    · subst he
      have hps : p = s := Option.some.inj (hp.symm.trans hx)
      subst hps
      rw [List.erase_cons_head]
      cases xs with
      | nil => simpa [Chain] using ht
      | cons b t =>
        obtain ⟨hb,_,htl⟩ := ht
        have hbx : b ≠ x := fun he => hxn (by simp [he])
        obtain ⟨hbt,_⟩ := List.nodup_cons.mp hnd'
        rw [load_next] at hb
        refine ⟨by simp [hb],by simp [lePrev_removed,hbx,hb],?_⟩
        refine htl.congr ?_ ?_
        · rw [load_removed,if_neg (fun he => hs b (by simp) he.symm)]
        intro y hy
        have hyx : y ≠ x := fun he => hxn (by simp [← he,hy])
        have hby : b ≠ y := fun he => hbt (he ▸ hy)
        refine ⟨?_,by simp [lePrev_removed,hyx,hb,hby]⟩
        rw [← load_next,load_removed,if_neg (fun he => hs y (by simp [hy]) he.symm),load_next]
    · have hax : a ∈ xs := by simpa [Ne.symm he] using ha
      rw [List.erase_cons_tail (by simpa using he)]
      have hsp : s ≠ p := by
        intro hsp
        rcases ht.prev_eq hax hp with h₁ | ⟨y,hy,h₁⟩
        · exact hs x (by simp) (hsp.trans h₁)
        · exact hs y (by simp [hy]) (hsp.trans h₁)
      have hxb : m.leNext a ≠ some x := fun hb => hxn (ht.next_mem hax hb)
      refine ⟨by simp [hsp,hl],by simp [lePrev_removed,he,hxb,hx],ih ht hnd' ?_ hax⟩
      intro y hy hyx
      exact hxn (by cases hyx; exact hy)

theorem Rep.removed {m : Links H A} {L : H → List A} (hm : Rep m L) {h : H} {a : A}
    {p : Slot H A} (ha : a ∈ L h) (hp : m.lePrev a = some p) :
    Rep (m.removed p a) (Function.update L h ((L h).erase a)) := by
  have hps := (hm.chain h).prev_eq ha hp
  have hother : ∀ {k}, k ≠ h → ∀ x ∈ L k, x ≠ a ∧ m.leNext a ≠ some x ∧ p ≠ .next x := by
    intro k hk x hx
    refine ⟨fun he => hk (hm.separate.disjoint hx (he ▸ ha)),fun hb => ?_,fun he => ?_⟩
    · exact hk (hm.separate.disjoint hx ((hm.chain h).next_mem ha hb))
    · rcases hps with rfl | ⟨y,hy,rfl⟩
      · cases he
      · cases he; exact hk (hm.separate.disjoint hx hy)
  constructor
  · intro k
    by_cases hk : k = h
    · subst hk
      simpa using (hm.chain k).removed (hm.separate.nodup k) (by simp) ha hp
    · rw [Function.update_of_ne hk]
      refine (hm.chain k).congr ?_ ?_
      · rw [load_removed,if_neg]
        rintro rfl
        rcases hps with he | ⟨y,_,he⟩
        · cases he; exact hk rfl
        · cases he
      intro x hx
      obtain ⟨hxa,hxb,hxp⟩ := hother hk x hx
      refine ⟨?_,by simp [lePrev_removed,hxa,hxb]⟩
      rw [← load_next,load_removed,if_neg (Ne.symm hxp),load_next]
  · exact hm.separate.erase a h
  · intro x
    rw [lePrev_removed]
    have hmem : (∃ k, x ∈ Function.update L h ((L h).erase a) k) ↔ x ≠ a ∧ ∃ k, x ∈ L k := by
      simp only [mem_update,(hm.separate.nodup h).mem_erase_iff]
      constructor
      · rintro ⟨k,⟨rfl,hx⟩ | ⟨hk,hx⟩⟩
        · exact ⟨hx.1,_,hx.2⟩
        · exact ⟨(hother hk x hx).1,_,hx⟩
      · rintro ⟨hxa,k,hx⟩
        by_cases hk : k = h
        · exact ⟨k,Or.inl ⟨hk,hxa,hk ▸ hx⟩⟩
        · exact ⟨k,Or.inr ⟨hk,hx⟩⟩
    rw [hmem,← hm.linked x]
    by_cases hx : x = a
    · simp [hx]
    · by_cases hb : m.leNext a = some x
      · have h₁ : m.lePrev x ≠ none := (hm.linked x).mpr ⟨h,(hm.chain h).next_mem ha hb⟩
        simp [hx,hb,h₁]
      · simp [hx,hb]

theorem Rep.moveHead (live : A → Bool) {m : Links H A} {L : H → List A} (hm : Rep m L) {h k : H}
    (hk : L k = []) (hne : h ≠ k) (hL : ∀ b ∈ L h, live b = true) :
    ∃ m', m.moveHead live h k = some m' ∧
      Rep m' (Function.update (Function.update L h []) k (L h)) := by
  have hf := hm.lhFirst h
  have hfk : m.lhFirst k = none := by rw [hm.lhFirst k,hk]; rfl
  cases hh : L h with
  | nil =>
    rw [hh] at hf
    refine ⟨m,?_,?_⟩
    · have h₁ : Function.update (Function.update m.lhFirst h none) k none = m.lhFirst := by
        funext j
        by_cases hj : j = k <;> by_cases hj' : j = h <;> simp_all
      simp [Links.moveHead,hf,hfk,store,h₁]
    · have h₂ : Function.update (Function.update L h []) k [] = L := by
        funext j
        by_cases hj : j = k <;> by_cases hj' : j = h <;> simp_all
      rw [h₂]
      exact hm
  | cons b t =>
    rw [hh] at hf
    have hfb : m.lhFirst h = some b := hf
    have hlb : live b = true := hL b (by simp [hh])
    have hsep := hm.separate.move h k
    rw [hh] at hsep
    refine ⟨_,by simp [Links.moveHead,hfb,hlb,hfk]; rfl,?_,hsep,?_⟩
    · intro j
      by_cases hj : j = k
      · subst hj
        have hc := hm.chain h
        rw [hh] at hc
        have hnd := hh ▸ hm.separate.nodup h
        rw [Function.update_self]
        refine ⟨by simp [store],by simp,hc.2.2.congr rfl ?_⟩
        intro x hx
        have hxb : x ≠ b := fun he => (List.nodup_cons.mp hnd).1 (he ▸ hx)
        exact ⟨rfl,by simp [hxb]⟩
      · rw [Function.update_of_ne hj]
        by_cases hj' : j = h
        · subst hj'; simp [Chain,store,hj]
        · rw [Function.update_of_ne hj']
          refine (hm.chain j).congr (by simp [store,hj,hj']) ?_
          intro x hx
          have hxb : x ≠ b := fun he => hj' (hm.separate.disjoint hx (by simp [hh,he]))
          exact ⟨rfl,by simp [hxb]⟩
    · intro x
      have hmem : (∃ j, x ∈ Function.update (Function.update L h []) k (b :: t) j) ↔
          ∃ j, x ∈ L j := by
        simp only [mem_update,← hh]
        constructor
        · rintro ⟨j,⟨_,hx⟩ | ⟨_,⟨_,hx⟩ | ⟨_,hx⟩⟩⟩
          · exact ⟨h,hx⟩
          · simp at hx
          · exact ⟨j,hx⟩
        · rintro ⟨j,hx⟩
          by_cases hj : j = h
          · exact ⟨k,Or.inl ⟨rfl,hj ▸ hx⟩⟩
          · have hjk : j ≠ k := fun he => by simp [he,hk] at hx
            exact ⟨j,Or.inr ⟨hjk,Or.inr ⟨hj,hx⟩⟩⟩
      rw [hmem,← hm.linked x]
      by_cases hx : x = b
      · have h₁ : m.lePrev b ≠ none := (hm.linked b).mpr ⟨h,by simp [hh]⟩
        simp [hx,h₁]
      · simp [hx]

end Links
end IntrusiveList
end CmuQuic
