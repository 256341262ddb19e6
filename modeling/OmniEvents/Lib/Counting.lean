import Mathlib.Data.List.Count

set_option autoImplicit false

/-! # Counting in a list that changes in one place

How `List.countP` changes when one element of a list is replaced, taken out, or put in. The equations
add on both sides, so that `omega` can use them without a bound. -/

namespace Counting

variable {α : Type*} {p : α → Bool} {l : List α} {i : ℕ} {a b : α}

theorem countP_set (h : l[i]? = some a) :
    (l.set i b).countP p + (p a).toNat = l.countP p + (p b).toNat := by
  induction l generalizing i with
  | nil => cases h
  | cons c l ih =>
      cases i with
      | zero =>
          cases h
          simp only [List.set_cons_zero, List.countP_cons]
          cases p a <;> cases p b <;> simp
      | succ i =>
          simp only [List.set_cons_succ, List.countP_cons]
          have := ih h
          omega

theorem countP_set_of_eq (h : l[i]? = some a) (hp : p b = p a) :
    (l.set i b).countP p = l.countP p := by
  have hset := countP_set (p := p) (b := b) h
  rw [hp] at hset
  exact Nat.add_right_cancel hset

theorem countP_eraseIdx (h : l[i]? = some a) :
    (l.eraseIdx i).countP p + (p a).toNat = l.countP p := by
  induction l generalizing i with
  | nil => cases h
  | cons c l ih =>
      cases i with
      | zero =>
          cases h
          simp only [List.eraseIdx_cons_zero, List.countP_cons]
          cases p a <;> simp
      | succ i =>
          simp only [List.eraseIdx_cons_succ, List.countP_cons]
          have := ih h
          omega

theorem countP_insert (i : ℕ) :
    (l.take i ++ a :: l.drop i).countP p = l.countP p + (p a).toNat := by
  calc (l.take i ++ a :: l.drop i).countP p
      = (l.take i).countP p + ((l.drop i).countP p + (p a).toNat) := by
        rw [List.countP_append, List.countP_cons]
        cases p a <;> rfl
    _ = l.countP p + (p a).toNat := by
        rw [← Nat.add_assoc, ← List.countP_append, List.take_append_drop]

end Counting
