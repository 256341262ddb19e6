import Mathlib.Data.List.Infix

set_option autoImplicit false

/-! # Trees as maps from paths

A tree whose nodes carry a value of type `α` is, seen from outside, a function from paths to the
value found there. The two updates of a path-addressed store are `set`, which replaces whatever was
at or below a path by a single node and creates its missing ancestors, and `remove`, which deletes
everything at or below a path and creates nothing. -/

namespace PathMap

variable {κ α : Type*} [DecidableEq κ]

/-- Put `a` at `p`. The ancestors of `p` that are missing get the value `blank`. -/
def set (blank : α) (p : List κ) (a : α) (f : List κ → Option α) : List κ → Option α :=
  fun q =>
    if q = p then some a
    else if p <+: q then none
    else if q <+: p then some ((f q).getD blank)
    else f q

/-- Delete everything at or below `p`. -/
def remove (p : List κ) (f : List κ → Option α) : List κ → Option α :=
  fun q => if p <+: q then none else f q

variable {blank : α} {p q : List κ} {a : α} {f : List κ → Option α}

@[simp] theorem set_self : set blank p a f p = some a := by simp [set]

theorem set_below (h : p <+: q) (hne : q ≠ p) : set blank p a f q = none := by
  simp [set, h, hne]

theorem set_above (h : q <+: p) (hne : q ≠ p) :
    set blank p a f q = some ((f q).getD blank) := by
  have : ¬ p <+: q := fun h' => hne (List.IsPrefix.eq_of_length h (le_antisymm h.length_le h'.length_le))
  simp [set, h, hne, this]

theorem set_apart (h₁ : ¬ p <+: q) (h₂ : ¬ q <+: p) : set blank p a f q = f q := by
  have hne : q ≠ p := fun h => h₁ (h ▸ List.prefix_refl _)
  simp [set, h₁, h₂, hne]

theorem remove_below (h : p <+: q) : remove p f q = none := by simp [remove, h]

theorem remove_apart (h : ¬ p <+: q) : remove p f q = f q := by simp [remove, h]

/-! ## Updates at paths of which neither is above the other

They commute, whatever they do. -/

section Comm

variable {p' : List κ} {a' : α} (h₁ : ¬ p <+: p') (h₂ : ¬ p' <+: p)

include h₁ h₂

omit [DecidableEq κ] in
/-- A path at or below one of them is neither above nor below the other. -/
theorem apart_of_below (hq : p <+: q) : ¬ p' <+: q ∧ ¬ q <+: p' := by
  refine ⟨?_, fun hq' => h₁ (hq.trans hq')⟩
  intro hq'
  exact (List.prefix_or_prefix_of_prefix hq hq').elim h₁ h₂

theorem set_comm : set blank p a (set blank p' a' f) = set blank p' a' (set blank p a f) := by
  funext q
  by_cases hp : p <+: q
  · obtain ⟨hp', hq'⟩ := apart_of_below h₁ h₂ hp
    rw [set_apart hp' hq']
    simp only [set, if_pos hp]
  · by_cases hp' : p' <+: q
    · obtain ⟨-, hq⟩ := apart_of_below h₂ h₁ hp'
      rw [set_apart hp hq]
      simp only [set, if_pos hp']
    · have hne : q ≠ p := fun heq => hp (heq ▸ List.prefix_refl _)
      have hne' : q ≠ p' := fun heq => hp' (heq ▸ List.prefix_refl _)
      simp only [set, hne, hne', hp, hp', if_false]
      split <;> split <;> rfl

theorem set_remove_comm :
    set blank p a (remove p' f) = remove p' (set blank p a f) := by
  funext q
  by_cases hp' : p' <+: q
  · obtain ⟨hp, hq⟩ := apart_of_below h₂ h₁ hp'
    rw [set_apart hp hq, remove_below hp', remove_below hp']
  · simp only [set, remove, if_neg hp']

end Comm

theorem remove_comm (p p' : List κ) : remove p (remove p' f) = remove p' (remove p f) := by
  funext q
  simp only [remove]
  split <;> split <;> rfl

/-! ## Updates that change nothing -/

/-- Where nothing is found, nothing is found below. -/
def PrefixClosed (f : List κ → Option α) : Prop := ∀ q r, f q = none → f (q ++ r) = none

/-- A single node with this value is at `p` already. -/
def IsLeaf (f : List κ → Option α) (p : List κ) (a : α) : Prop :=
  f p = some a ∧ ∀ q, p <+: q → q ≠ p → f q = none

theorem set_eq_self_iff (hf : PrefixClosed f) : set blank p a f = f ↔ IsLeaf f p a := by
  constructor
  · intro h
    refine ⟨by rw [← h, set_self], ?_⟩
    intro q hq hne
    rw [← h, set_below hq hne]
  · rintro ⟨hself, hbelow⟩
    funext q
    by_cases hne : q = p
    · rw [hne, set_self, hself]
    by_cases hq : p <+: q
    · rw [set_below hq hne, hbelow q hq hne]
    by_cases hq' : q <+: p
    · obtain ⟨r, rfl⟩ := hq'
      obtain ⟨b, hb⟩ : ∃ b, f q = some b := by
        refine Option.ne_none_iff_exists'.1 ?_
        intro hnone
        rw [hf q r hnone] at hself
        cases hself
      rw [set_above (List.prefix_append q r) hne, hb]
      rfl
    · exact set_apart hq hq'

theorem remove_eq_self_iff (hf : PrefixClosed f) : remove p f = f ↔ f p = none := by
  constructor
  · intro h
    rw [← h, remove_below (List.prefix_refl p)]
  · intro h
    funext q
    by_cases hq : p <+: q
    · obtain ⟨r, rfl⟩ := hq
      rw [remove_below (List.prefix_append p r), hf p r h]
    · exact remove_apart hq

/-- A node put at a path that is not below `p` does what one at `p` does only if it is the same, or
    is there already. -/
theorem set_eq_set {p' : List κ} {a' : α} (hp : p <+: p' → p' = p)
    (h : set blank p' a' f = set blank p a f) : p' = p ∧ a' = a ∨ IsLeaf f p' a' := by
  by_cases heq : p' = p
  · subst heq
    have hself := congrFun h p'
    rw [set_self, set_self] at hself
    exact Or.inl ⟨rfl, Option.some_inj.1 hself⟩
  have hnp : ¬ p <+: p' := fun hpre => heq (hp hpre)
  have hnp' : ¬ p' <+: p := by
    intro hpre
    have hat := congrFun h p
    rw [set_below hpre (Ne.symm heq), set_self] at hat
    cases hat
  refine Or.inr ⟨?_, ?_⟩
  · have hself := congrFun h p'
    rwa [set_self, set_apart hnp hnp', eq_comm] at hself
  · intro q hq hne
    obtain ⟨hq₁, hq₂⟩ := apart_of_below hnp' hnp hq
    have hbelow := congrFun h q
    rwa [set_below hq hne, set_apart hq₁ hq₂, eq_comm] at hbelow

theorem remove_eq_remove {p' : List κ} (hp : p <+: p' → p' = p)
    (h : remove p' f = remove p f) : p' = p ∨ f p' = none := by
  by_cases hpre : p <+: p'
  · exact Or.inl (hp hpre)
  · have hself := congrFun h p'
    rw [remove_below (List.prefix_refl p'), remove_apart hpre, eq_comm] at hself
    exact Or.inr hself

/-! ## Putting a whole tree at a path -/

/-- Put the tree `g` at `p`. The ancestors of `p` that are missing get the value `blank`. -/
def graft (blank : α) (p : List κ) (g f : List κ → Option α) : List κ → Option α :=
  fun q =>
    if p <+: q then g (q.drop p.length)
    else if q <+: p then some ((f q).getD blank)
    else f q

/-- A tree of one node. -/
def leaf (a : α) : List κ → Option α := fun q => if q = [] then some a else none

theorem graft_nil (g : List κ → Option α) : graft blank [] g f = g := by
  funext q
  simp [graft]

theorem graft_leaf : graft blank p (leaf a) f = set blank p a f := by
  funext q
  simp only [graft, set, leaf]
  by_cases hp : p <+: q
  · obtain ⟨r, rfl⟩ := hp
    simp
  · have hne : q ≠ p := fun heq => hp (heq ▸ List.prefix_refl _)
    rw [if_neg hp, if_neg hne, if_neg hp]

/-- Grafting below a path where a tree was grafted is grafting below the root of that tree. -/
theorem graft_graft (s : κ) (h g : List κ → Option α) :
    graft blank (p ++ [s]) h (graft blank p g f) = graft blank p (graft blank [s] h g) f := by
  funext q
  by_cases hp : p <+: q
  · obtain ⟨r, rfl⟩ := hp
    simp [graft, List.prefix_append_right_inj]
  · have hps : ¬ p ++ [s] <+: q := fun h' => hp ((List.prefix_append _ _).trans h')
    have habove : q <+: p ++ [s] ↔ q <+: p := by
      rw [List.prefix_concat_iff]
      refine or_iff_right ?_
      rintro rfl
      exact hp (List.prefix_append _ _)
    simp only [graft, if_neg hp, if_neg hps, habove]
    split <;> rfl

end PathMap
