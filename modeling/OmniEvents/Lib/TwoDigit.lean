import Mathlib.Algebra.Order.Ring.Nat
import Mathlib.Tactic.Ring

set_option autoImplicit false

/-! # Numbers of two digits

A number written with a low digit below some base and a high digit of any size. `add` carries once
and `sub` borrows once, as is done by hand on a pair of machine words; on normal numbers both are
those of the values, and the digits are ordered as the values are (`less_iff`). -/

/-- Two digits, of which the low one has a base. -/
structure TwoDigit where
  high : ℕ
  low : ℕ
  deriving DecidableEq, Repr

namespace TwoDigit

variable {base : ℕ} {d e : TwoDigit}

/-- The number that they mean. -/
def value (base : ℕ) (d : TwoDigit) : ℕ := d.high * base + d.low

/-- The low digit is less than the base. -/
def Normal (base : ℕ) (d : TwoDigit) : Prop := d.low < base

/-- Digit by digit, from the high one. -/
def less (d e : TwoDigit) : Prop := if d.high = e.high then d.low < e.low else d.high < e.high

/-- Addition, with a carry into the high digit. -/
def add (base : ℕ) (d e : TwoDigit) : TwoDigit :=
  if d.low + e.low < base then ⟨d.high + e.high, d.low + e.low⟩
  else ⟨d.high + e.high + 1, d.low + e.low - base⟩

/-- For `e` not greater than `d`. -/
def sub (base : ℕ) (d e : TwoDigit) : TwoDigit :=
  if d.low < e.low then ⟨d.high - e.high - 1, d.low + base - e.low⟩
  else ⟨d.high - e.high, d.low - e.low⟩

/-! ## Order -/

theorem value_lt_of_high_lt (hd : d.Normal base) (h : d.high < e.high) :
    d.value base < e.value base := by
  calc d.high * base + d.low < d.high * base + base := Nat.add_lt_add_left hd _
    _ = (d.high + 1) * base := (Nat.succ_mul _ _).symm
    _ ≤ e.high * base := Nat.mul_le_mul_right _ h
    _ ≤ e.high * base + e.low := Nat.le_add_right _ _

theorem less_iff (hd : d.Normal base) (he : e.Normal base) :
    d.less e ↔ d.value base < e.value base := by
  unfold less
  split
  · next heq => rw [value, value, heq, Nat.add_lt_add_iff_left]
  · next hne =>
      constructor
      · exact value_lt_of_high_lt hd
      · intro hvalue
        rcases Nat.lt_or_gt_of_ne hne with hlt | hgt
        · exact hlt
        · exact absurd hvalue (Nat.lt_asymm (value_lt_of_high_lt he hgt))

/-- A value has one normal number only. -/
theorem eq_of_value_eq (hd : d.Normal base) (he : e.Normal base)
    (h : d.value base = e.value base) : d = e := by
  obtain ⟨high, low⟩ := d
  obtain ⟨high', low'⟩ := e
  have hhigh : high = high' := by
    rcases Nat.lt_trichotomy high high' with hlt | heq | hgt
    · exact absurd h (Nat.ne_of_lt (value_lt_of_high_lt hd hlt))
    · exact heq
    · exact absurd h (Nat.ne_of_gt (value_lt_of_high_lt he hgt))
  subst hhigh
  have hlow : low = low' := Nat.add_left_cancel h
  rw [hlow]

/-! ## Sum and difference -/

theorem normal_add (hd : d.Normal base) (he : e.Normal base) : (add base d e).Normal base := by
  unfold Normal at hd he
  unfold add
  split
  · next hlt => exact hlt
  · show d.low + e.low - base < base
    omega

theorem value_add (d e : TwoDigit) : (add base d e).value base = d.value base + e.value base := by
  unfold add value
  split
  · ring
  · next hge =>
      have hlow : d.low + e.low - base + base = d.low + e.low := by omega
      calc (d.high + e.high + 1) * base + (d.low + e.low - base)
          = (d.high + e.high) * base + (d.low + e.low - base + base) := by ring
        _ = d.high * base + d.low + (e.high * base + e.low) := by rw [hlow]; ring

/-- The high digits of a number that is not less: one is left to borrow from where it is needed. -/
theorem high_of_not_less (h : ¬d.less e) :
    e.high ≤ d.high ∧ (d.low < e.low → e.high < d.high) := by
  unfold less at h
  split at h
  · next heq => exact ⟨heq.ge, fun hlow => absurd hlow h⟩
  · exact ⟨by omega, fun _ => by omega⟩

theorem normal_sub (hd : d.Normal base) (he : e.Normal base) : (sub base d e).Normal base := by
  unfold Normal at hd he
  unfold sub
  split
  · next hlow =>
      show d.low + base - e.low < base
      omega
  · show d.low - e.low < base
    omega

theorem value_sub (he : e.Normal base) (h : ¬d.less e) :
    (sub base d e).value base + e.value base = d.value base := by
  obtain ⟨hhigh, hborrow⟩ := high_of_not_less h
  unfold Normal at he
  unfold sub value
  split
  · next hlow =>
      obtain ⟨rest, hrest⟩ := Nat.exists_eq_add_of_lt (hborrow hlow)
      have hdigit : d.low + base - e.low + e.low = d.low + base := by omega
      have hone : d.high - e.high - 1 = rest := by omega
      calc (d.high - e.high - 1) * base + (d.low + base - e.low) + (e.high * base + e.low)
          = (rest + e.high) * base + (d.low + base - e.low + e.low) := by rw [hone]; ring
        _ = d.high * base + d.low := by rw [hdigit, hrest]; ring
  · next hlow =>
      obtain ⟨rest, hrest⟩ := Nat.exists_eq_add_of_le hhigh
      have hdigit : d.low - e.low + e.low = d.low := by omega
      calc (d.high - e.high) * base + (d.low - e.low) + (e.high * base + e.low)
          = (rest + e.high) * base + (d.low - e.low + e.low) := by
            rw [hrest, Nat.add_sub_cancel_left]; ring
        _ = d.high * base + d.low := by rw [hdigit, hrest]; ring

end TwoDigit
