import Mathlib.Algebra.Order.BigOperators.Group.List
import Mathlib.Algebra.Order.Ring.Nat

set_option autoImplicit false

/-! # A list that changes in one place

What is where in a list of which one element is replaced, or that becomes longer, and how a sum over it
changes. The equation adds on both sides, so that `omega` can use it without a bound. -/

namespace ListUpdate

variable {α : Type*} {l : List α} {i j : ℕ} {a b c : α}

theorem getElem?_set_iff (h : l[i]? = some a) :
    (l.set i b)[j]? = some c ↔ j = i ∧ c = b ∨ j ≠ i ∧ l[j]? = some c := by
  by_cases hj : j = i
  · subst hj
    rw [List.getElem?_set_self (List.getElem?_eq_some_iff.1 h).1]
    simp [eq_comm]
  · rw [List.getElem?_set_ne (Ne.symm hj)]
    simp [hj]

theorem getElem?_concat_iff :
    (l ++ [a])[i]? = some c ↔ l[i]? = some c ∨ i = l.length ∧ c = a := by
  rcases Nat.lt_or_ge i l.length with hlt | hge
  · rw [List.getElem?_append_left hlt]
    simp [hlt.ne]
  · rw [List.getElem?_append_right hge, List.getElem?_eq_none hge, List.getElem?_singleton]
    have hlast : i - l.length = 0 ↔ i = l.length := by omega
    simp [hlast, eq_comm]

theorem sum_set {w : α → ℕ} (h : l[i]? = some a) :
    ((l.set i b).map w).sum + w a = (l.map w).sum + w b := by
  induction l generalizing i with
  | nil => cases h
  | cons c l ih =>
      cases i with
      | zero =>
          cases h
          simp only [List.set_cons_zero, List.map_cons, List.sum_cons]
          omega
      | succ i =>
          simp only [List.set_cons_succ, List.map_cons, List.sum_cons]
          have := ih h
          omega

theorem le_sum {w : α → ℕ} (h : l[i]? = some a) : w a ≤ (l.map w).sum :=
  List.le_sum_of_mem (List.mem_map_of_mem (List.mem_of_getElem? h))

end ListUpdate
