import Mathlib.Data.List.Basic

set_option autoImplicit false

/-! # Loops that an element can end

A loop over a list that stops at the first element for which `ends` holds: `reached` are the elements
it comes to, that one included, and `missed` are those after it. Whatever is to hold of all elements
that a loop has come to holds of the others exactly if it holds of all that stand behind one that
ends it (`forall_missed`). -/

namespace Reached

variable {α : Type*} (ends : α → Bool)

/-- The elements up to and including the first that ends the loop. -/
def reached : List α → List α
  | [] => []
  | x :: xs => if ends x then [x] else x :: reached xs

/-- The elements behind it. -/
def missed : List α → List α
  | [] => []
  | x :: xs => if ends x then xs else missed xs

variable {ends}

theorem reached_map {β : Type*} (f : β → α) (xs : List β) :
    reached ends (xs.map f) = (reached (fun x => ends (f x)) xs).map f := by
  induction xs with
  | nil => rfl
  | cons x xs ih => cases hx : ends (f x) <;> simp [reached, hx, ih]

theorem reached_append_of_any {xs : List α} (h : xs.any ends = true) (ys : List α) :
    reached ends (xs ++ ys) = reached ends xs := by
  induction xs with
  | nil => cases h
  | cons x xs ih =>
      cases hx : ends x with
      | true => simp [reached, hx]
      | false =>
          rw [List.any_cons, hx, Bool.false_or] at h
          simp [reached, hx, ih h]

theorem reached_append_of_not_any {xs : List α} (h : xs.any ends = false) (ys : List α) :
    reached ends (xs ++ ys) = xs ++ reached ends ys := by
  induction xs with
  | nil => rfl
  | cons x xs ih =>
      rw [List.any_cons, Bool.or_eq_false_iff] at h
      simp [reached, h.1, ih h.2]

theorem reached_of_not_any {xs : List α} (h : xs.any ends = false) : reached ends xs = xs := by
  simpa [reached] using reached_append_of_not_any h []

theorem missed_of_split {xs pre post : List α} {x : α} (h : xs = pre ++ x :: post)
    (hx : ends x = true) : post <:+ missed ends xs := by
  induction pre generalizing xs with
  | nil =>
      subst h
      simp [missed, hx]
  | cons y pre ih =>
      subst h
      rw [List.cons_append, missed]
      split
      · exact (List.suffix_cons x post).trans (List.suffix_append pre (x :: post))
      · exact ih rfl

/-- The element that ended the loop, if the loop has missed any. -/
theorem split_of_mem_missed {xs : List α} {y : α} (h : y ∈ missed ends xs) :
    ∃ pre x, xs = pre ++ x :: missed ends xs ∧ ends x = true := by
  induction xs with
  | nil => cases h
  | cons x xs ih =>
      cases hx : ends x with
      | true => exact ⟨[], x, by simp [missed, hx]⟩
      | false =>
          simp only [missed, hx] at h ⊢
          obtain ⟨pre, z, hsplit, hz⟩ := ih h
          exact ⟨x :: pre, z, congrArg (x :: ·) hsplit, hz⟩

theorem forall_missed {P : α → Prop} {xs : List α} :
    (∀ y ∈ missed ends xs, P y) ↔
      ∀ pre x post, xs = pre ++ x :: post → ends x = true → ∀ y ∈ post, P y := by
  constructor
  · intro h pre x post hsplit hx y hy
    exact h y ((missed_of_split hsplit hx).subset hy)
  · intro h y hy
    obtain ⟨pre, x, hsplit, hx⟩ := split_of_mem_missed hy
    exact h pre x _ hsplit hx y hy

end Reached
