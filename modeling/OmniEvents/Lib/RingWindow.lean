import Mathlib.Data.Nat.ModEq
import Mathlib.Tactic.Ring

set_option autoImplicit false

/-! # The window of a circular buffer

Items numbered `0, 1, 2, …` are written one after the other into a buffer of `size` slots, item `e`
into slot `e % size`. After `count` writes the buffer holds the items of the *window*: the last
`size` of them. This file relates a wrapped slot index to absolute item numbers, for any number of
wrap-arounds; it knows nothing of what the items are. -/

namespace RingWindow

variable {size count : ℕ}

/-- Item `e` is one of the last `size` items of the `count` written. -/
def InWindow (size count e : ℕ) : Prop := e < count ∧ count ≤ e + size

/-- Two items of one window never share a slot. -/
theorem eq_of_mod_eq {e f : ℕ} (he : InWindow size count e) (hf : InWindow size count f)
    (h : e % size = f % size) : e = f := by
  obtain ⟨he₁, he₂⟩ := he
  obtain ⟨hf₁, hf₂⟩ := hf
  have hmod : e ≡ f [MOD size] := h
  rcases Nat.le_total e f with hle | hle
  · have hdvd : size ∣ f - e := (Nat.modEq_iff_dvd' hle).1 hmod
    have : f - e = 0 := Nat.eq_zero_of_dvd_of_lt hdvd (by omega)
    omega
  · have hdvd : size ∣ e - f := (Nat.modEq_iff_dvd' hle).1 hmod.symm
    have : e - f = 0 := Nat.eq_zero_of_dvd_of_lt hdvd (by omega)
    omega

/-- Writing the next item overwrites no other item of the new window. -/
theorem mod_ne_of_inWindow_succ {e : ℕ} (he : InWindow size (count + 1) e) (hne : e ≠ count) :
    e % size ≠ count % size := by
  intro h
  have hpos : 0 < size := by have := he.1; have := he.2; omega
  exact hne (eq_of_mod_eq he ⟨by omega, by omega⟩ h)

/-- An item of the window after a write is the new one or was in the window before. -/
theorem InWindow.of_succ {e : ℕ} (he : InWindow size (count + 1) e) (hne : e ≠ count) :
    InWindow size count e := by
  obtain ⟨h₁, h₂⟩ := he
  exact ⟨by omega, by omega⟩

/-! ## Reading at a wrapped position -/

/-- The number of the item found in the slot of position `pos`: the last one written there. -/
def wrapped (size count pos : ℕ) : ℕ := pos + size * ((count - 1 - pos) / size)

@[simp] theorem wrapped_mod (pos : ℕ) : wrapped size count pos % size = pos % size := by
  simp [wrapped]

theorem wrapped_inWindow {pos : ℕ} (hsize : 0 < size) (hpos : pos < count) :
    InWindow size count (wrapped size count pos) := by
  have hdiv := Nat.div_add_mod (count - 1 - pos) size
  have hlt := Nat.mod_lt (count - 1 - pos) hsize
  unfold InWindow wrapped
  constructor <;> omega

/-- A position that has not been overrun is read back as it stands. -/
theorem wrapped_eq_self {pos : ℕ} (hpos : pos < count) (h : count ≤ pos + size) :
    wrapped size count pos = pos := by
  have : (count - 1 - pos) / size = 0 := Nat.div_eq_of_lt (by omega)
  simp [wrapped, this]

end RingWindow
