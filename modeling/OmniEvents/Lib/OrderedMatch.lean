import Mathlib.Data.List.Nodup
import Mathlib.Logic.Relator
import Mathlib.Logic.Relation
import Mathlib.Order.Basic

set_option autoImplicit false

/-! # Matching up the elements of two orders

Things that pass from one place to another are numbered at both ends, and `r a b` says that the one
with the number `a` here has the number `b` there. None is passed twice if `r` is `Relator.BiUnique`,
and none overtakes another if it has `KeepsOrder`. Both survive when relations are put one after the
other, and both can be read off a record in which each passage was noted when it took place. -/

namespace OrderedMatch

variable {α β γ ι : Type*}

/-- Two related pairs stand in the same order on both sides. -/
def KeepsOrder [LT α] [LT β] (r : α → β → Prop) : Prop :=
  ∀ ⦃a a' b b'⦄, r a b → r a' b' → (a < a' ↔ b < b')

theorem keepsOrder_eq [LT α] : KeepsOrder (Eq : α → α → Prop) := by
  rintro a a' _ _ rfl rfl
  exact Iff.rfl

theorem biUnique_eq : Relator.BiUnique (Eq : α → α → Prop) :=
  ⟨fun _ _ _ ha hb => ha.trans hb.symm, fun _ _ _ ha hb => ha.symm.trans hb⟩

theorem KeepsOrder.mono [LT α] [LT β] {r s : α → β → Prop} (hs : KeepsOrder s)
    (h : ∀ a b, r a b → s a b) : KeepsOrder r :=
  fun _ _ _ _ hab hab' => hs (h _ _ hab) (h _ _ hab')

theorem biUnique_mono {r s : α → β → Prop} (hs : Relator.BiUnique s)
    (h : ∀ a b, r a b → s a b) : Relator.BiUnique r :=
  ⟨fun _ _ _ hab hab' => hs.1 (h _ _ hab) (h _ _ hab'),
    fun _ _ _ hab hab' => hs.2 (h _ _ hab) (h _ _ hab')⟩

theorem KeepsOrder.comp [LT α] [LT β] [LT γ] {r : α → β → Prop} {s : β → γ → Prop}
    (hr : KeepsOrder r) (hs : KeepsOrder s) : KeepsOrder (Relation.Comp r s) := by
  rintro a a' c c' ⟨b, hab, hbc⟩ ⟨b', hab', hbc'⟩
  exact (hr hab hab').trans (hs hbc hbc')

theorem biUnique_comp {r : α → β → Prop} {s : β → γ → Prop} (hr : Relator.BiUnique r)
    (hs : Relator.BiUnique s) : Relator.BiUnique (Relation.Comp r s) := by
  constructor
  · rintro a c a' ⟨b, hab, hbc⟩ ⟨b', hab', hbc'⟩
    obtain rfl := hs.1 hbc hbc'
    exact hr.1 hab hab'
  · rintro a c c' ⟨b, hab, hbc⟩ ⟨b', hab', hbc'⟩
    obtain rfl := hr.2 hab hab'
    exact hs.2 hbc hbc'

/-! ## Records

A record is a list of entries, each of which relates two things. If its entries are distinct on both
sides it relates them one to one, and if they are in order it keeps the order. -/

/-- The record `xs` has an entry for the pair. -/
def Recorded (xs : List ι) (f : ι → α) (g : ι → β) (a : α) (b : β) : Prop :=
  ∃ x ∈ xs, f x = a ∧ g x = b

variable {xs : List ι} {f : ι → α} {g : ι → β}

/-- Of two entries one comes before the other, unless they are one. -/
theorem pairwise_cases {R : ι → ι → Prop} (h : xs.Pairwise R) {x y : ι} (hx : x ∈ xs)
    (hy : y ∈ xs) : x = y ∨ R x y ∨ R y x := by
  induction h with
  | nil => cases hx
  | cons hhead _ ih =>
      rcases List.mem_cons.1 hx with hx | hx <;> rcases List.mem_cons.1 hy with hy | hy
      · exact Or.inl (hx.trans hy.symm)
      · exact Or.inr (Or.inl (hx ▸ hhead y hy))
      · exact Or.inr (Or.inr (hy ▸ hhead x hx))
      · exact ih hx hy

theorem biUnique_recorded (h : xs.Pairwise fun x y => f x ≠ f y ∧ g x ≠ g y) :
    Relator.BiUnique (Recorded xs f g) := by
  constructor
  · rintro _ _ _ ⟨x, hx, rfl, rfl⟩ ⟨y, hy, rfl, hxy⟩
    rcases pairwise_cases h hx hy with rfl | hne | hne
    · rfl
    · exact absurd hxy.symm hne.2
    · exact absurd hxy hne.2
  · rintro _ _ _ ⟨x, hx, rfl, rfl⟩ ⟨y, hy, hxy, rfl⟩
    rcases pairwise_cases h hx hy with rfl | hne | hne
    · rfl
    · exact absurd hxy.symm hne.1
    · exact absurd hxy hne.1

/-- If the numbers grow on both sides from entry to entry, then the order is kept. -/
theorem keepsOrder_recorded [Preorder α] [Preorder β]
    (h : xs.Pairwise fun x y => f x < f y ∧ g x < g y) : KeepsOrder (Recorded xs f g) := by
  rintro _ _ _ _ ⟨x, hx, rfl, rfl⟩ ⟨y, hy, rfl, rfl⟩
  rcases pairwise_cases h hx hy with rfl | hlt | hlt
  · exact iff_of_false (lt_irrefl _) (lt_irrefl _)
  · exact iff_of_true hlt.1 hlt.2
  · exact iff_of_false (lt_asymm hlt.1) (lt_asymm hlt.2)

/-! ## Positions in a list -/

/-- The elements of an increasing list, with their positions. -/
theorem keepsOrder_getElem? [Preorder α] {l : List α} (h : l.Pairwise (· < ·)) :
    KeepsOrder fun (a : α) (i : ℕ) => l[i]? = some a := by
  have hlt : ∀ {a b : α} {i j : ℕ}, l[i]? = some a → l[j]? = some b → i < j → a < b := by
    intro a b i j ha hb hij
    obtain ⟨hi, rfl⟩ := List.getElem?_eq_some_iff.1 ha
    obtain ⟨hj, rfl⟩ := List.getElem?_eq_some_iff.1 hb
    exact List.pairwise_iff_getElem.1 h i j hi hj hij
  intro a b i j ha hb
  rcases Nat.lt_trichotomy i j with hij | rfl | hij
  · exact iff_of_true (hlt ha hb hij) hij
  · obtain rfl := Option.some.inj (ha.symm.trans hb)
    exact iff_of_false (lt_irrefl _) (Nat.lt_irrefl _)
  · exact iff_of_false (lt_asymm (hlt hb ha hij)) (Nat.lt_asymm hij)

theorem biUnique_getElem? {l : List α} (h : l.Nodup) :
    Relator.BiUnique fun (a : α) (i : ℕ) => l[i]? = some a := by
  constructor
  · intro a i b ha hb
    exact Option.some.inj (ha.symm.trans hb)
  · intro a i j hi hj
    obtain ⟨hi, rfl⟩ := List.getElem?_eq_some_iff.1 hi
    obtain ⟨hj, hji⟩ := List.getElem?_eq_some_iff.1 hj
    exact (h.getElem_inj_iff.1 hji).symm

end OrderedMatch
