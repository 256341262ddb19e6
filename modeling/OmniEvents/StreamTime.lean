import Mathlib.Data.UInt
import OmniEvents.Lib.TwoDigit

set_option autoImplicit false

/-! # Time arithmetic of the event streamer

`class Time` of the `events` tool: seconds and nanoseconds in two unsigned longs of 32 bits, added and
subtracted by hand. The difference borrows as it should. The sum carries if the nanoseconds come to
more than a billion, not if they come to exactly one, and is then left with a billion nanoseconds;
such a time is no longer in the order of the times that it is compared with. In all other cases the
machine's pair is the number of two digits that it stands for (`digits_add`, `digits_sub`). -/

namespace OmniEvents.Events

/-- The exceptions that the tool itself raises or that unmarshalling raises. -/
inductive SystemException where
  | BAD_PARAM
  | MARSHAL
  deriving DecidableEq, Repr

/-! ## The class -/

/-- The nanoseconds of a second. -/
def BILLION : UInt32 := 1000000000

/-- `Time`, as two numbers of the stream. -/
structure Time where
  sec : UInt32
  nano : UInt32
  deriving DecidableEq, Repr

namespace Time

/-- `Time()`. -/
def nil : Time := ⟨0, 0⟩

/-- `operator<`. -/
def lt (left right : Time) : Bool :=
  if left.sec = right.sec then decide (left.nano < right.nano) else decide (left.sec < right.sec)

/-- `operator+`, by `operator+=`. -/
def add (left right : Time) : Time :=
  let sum : Time := ⟨left.sec + right.sec, left.nano + right.nano⟩
  if BILLION < sum.nano then ⟨sum.sec + 1, sum.nano % BILLION⟩ else sum

/-- `operator-`, by `operator-=`. -/
def sub (left right : Time) : Except SystemException Time :=
  if left.lt right then .error .BAD_PARAM
  else
    let borrowed : Time :=
      if left.nano < right.nano then ⟨left.sec - right.sec - 1, left.nano + BILLION⟩
      else ⟨left.sec - right.sec, left.nano⟩
    .ok ⟨borrowed.sec, borrowed.nano - right.nano⟩

/-- `Time::is_nil`. -/
def is_nil (t : Time) : Bool := t.sec == 0 && t.nano == 0

/-- For how long `sleepUntil` sleeps, if at all. -/
def sleepUntil (now futureTime : Time) : Except SystemException (Option Time) :=
  if now.lt futureTime then (futureTime.sub now).map some else .ok none

/-! ## What a time stands for

A time stands for a number of nanoseconds, and the operators are the arithmetic of these as far as
32 bits go. -/

/-- The numbers without their width. -/
def digits (t : Time) : TwoDigit := ⟨t.sec.toNat, t.nano.toNat⟩

/-- In nanoseconds. -/
def total (t : Time) : ℕ := t.digits.value 1000000000

/-- The nanoseconds are less than a second. -/
def Normal (t : Time) : Prop := t.nano < BILLION

instance decidableNormal (t : Time) : Decidable t.Normal :=
  inferInstanceAs (Decidable (t.nano < BILLION))

/-- The seconds of the sum are fewer than 2^32. -/
def Fits (a b : Time) : Prop := a.total + b.total < UInt32.size * 1000000000

instance decidableFits (a b : Time) : Decidable (Fits a b) := Nat.decLt _ _

variable {a b : Time}

theorem normal_iff {t : Time} : t.Normal ↔ t.digits.Normal 1000000000 := UInt32.lt_iff_toNat_lt

theorem digits_injective : Function.Injective digits := by
  intro a b h
  obtain ⟨sec, nano⟩ := a
  obtain ⟨sec', nano'⟩ := b
  have hsec : sec.toNat = sec'.toNat := congrArg TwoDigit.high h
  have hnano : nano.toNat = nano'.toNat := congrArg TwoDigit.low h
  rw [UInt32.toNat_inj.1 hsec, UInt32.toNat_inj.1 hnano]

theorem lt_iff_less (a b : Time) : a.lt b = true ↔ a.digits.less b.digits := by
  have hsec : a.sec = b.sec ↔ a.digits.high = b.digits.high := UInt32.toNat_inj.symm
  unfold lt TwoDigit.less
  by_cases h : a.sec = b.sec
  · rw [if_pos h, if_pos (hsec.1 h), decide_eq_true_iff]
    exact UInt32.lt_iff_toNat_lt
  · rw [if_neg h, if_neg (mt hsec.2 h), decide_eq_true_iff]
    exact UInt32.lt_iff_toNat_lt

/-- On normal times `operator<` is the order of the nanoseconds. -/
theorem lt_iff (ha : a.Normal) (hb : b.Normal) : a.lt b = true ↔ a.total < b.total := by
  rw [lt_iff_less]
  exact TwoDigit.less_iff (normal_iff.1 ha) (normal_iff.1 hb)

/-! ## Sum -/

theorem toNat_nano_add (ha : a.Normal) (hb : b.Normal) :
    (a.nano + b.nano).toNat = a.nano.toNat + b.nano.toNat := by
  have hna : a.nano.toNat < 1000000000 := normal_iff.1 ha
  have hnb : b.nano.toNat < 1000000000 := normal_iff.1 hb
  rw [UInt32.toNat_add]
  omega

/-- The carry is taken for more than a billion nanoseconds. -/
theorem carry_iff (ha : a.Normal) (hb : b.Normal) :
    BILLION < a.nano + b.nano ↔ 1000000000 < a.nano.toNat + b.nano.toNat := by
  rw [UInt32.lt_iff_toNat_lt, toNat_nano_add ha hb]
  rfl

/-- Unless the nanoseconds come to exactly a billion, the sum is the one of two digits. -/
theorem digits_add (ha : a.Normal) (hb : b.Normal) (hfits : Fits a b)
    (hne : a.nano.toNat + b.nano.toNat ≠ 1000000000) :
    (a.add b).digits = TwoDigit.add 1000000000 a.digits b.digits := by
  have hna : a.nano.toNat < 1000000000 := normal_iff.1 ha
  have hnb : b.nano.toNat < 1000000000 := normal_iff.1 hb
  have hsum : a.sec.toNat * 1000000000 + a.nano.toNat + (b.sec.toNat * 1000000000 + b.nano.toNat)
      < 4294967296 * 1000000000 := hfits
  unfold add TwoDigit.add
  by_cases hcarry : BILLION < a.nano + b.nano
  · have hgt := (carry_iff ha hb).1 hcarry
    have hge : ¬a.digits.low + b.digits.low < 1000000000 := Nat.not_lt.2 hgt.le
    have hsec : (a.sec + b.sec + 1).toNat = a.sec.toNat + b.sec.toNat + 1 := by
      rw [UInt32.toNat_add, UInt32.toNat_add, UInt32.toNat_one]
      omega
    have hnano : ((a.nano + b.nano) % BILLION).toNat
        = a.nano.toNat + b.nano.toNat - 1000000000 := by
      rw [UInt32.toNat_mod, toNat_nano_add ha hb]
      show (a.nano.toNat + b.nano.toNat) % 1000000000 = _
      omega
    simp only [if_pos hcarry, if_neg hge]
    exact congrArg₂ TwoDigit.mk hsec hnano
  · have hle := mt (carry_iff ha hb).2 hcarry
    have hlt : a.digits.low + b.digits.low < 1000000000 :=
      Nat.lt_of_le_of_ne (Nat.not_lt.1 hle) hne
    have hsec : (a.sec + b.sec).toNat = a.sec.toNat + b.sec.toNat := by
      rw [UInt32.toNat_add]
      omega
    simp only [if_neg hcarry, if_pos hlt]
    exact congrArg₂ TwoDigit.mk hsec (toNat_nano_add ha hb)

/-- With exactly a billion nanoseconds nothing is carried. -/
theorem not_normal_add (ha : a.Normal) (hb : b.Normal)
    (heq : a.nano.toNat + b.nano.toNat = 1000000000) : ¬(a.add b).Normal := by
  have hnot : ¬BILLION < a.nano + b.nano := by
    rw [carry_iff ha hb, heq]
    exact Nat.lt_irrefl _
  have hnano : (a.add b).nano = a.nano + b.nano := by
    unfold add
    simp only [if_neg hnot]
  rw [normal_iff, TwoDigit.Normal]
  show ¬(a.add b).nano.toNat < 1000000000
  rw [hnano, toNat_nano_add ha hb, heq]
  exact Nat.lt_irrefl _

/-! ## Difference -/

/-- One second is borrowed from seconds that are more. -/
theorem toNat_sec_borrow {sec sec' : UInt32} (h : sec'.toNat < sec.toNat) :
    (sec - sec' - 1).toNat = sec.toNat - sec'.toNat - 1 := by
  have hsub : (sec - sec').toNat = sec.toNat - sec'.toNat :=
    UInt32.toNat_sub_of_le _ _ (UInt32.le_iff_toNat_le.2 h.le)
  have hone : 1 ≤ sec - sec' := by
    rw [UInt32.le_iff_toNat_le, hsub, UInt32.toNat_one]
    omega
  rw [UInt32.toNat_sub_of_le _ _ hone, hsub, UInt32.toNat_one]

/-- It is a billion nanoseconds. -/
theorem toNat_nano_borrow (ha : a.Normal) (hb : b.Normal) :
    (a.nano + BILLION - b.nano).toNat = a.nano.toNat + 1000000000 - b.nano.toNat := by
  have hna : a.nano.toNat < 1000000000 := normal_iff.1 ha
  have hnb : b.nano.toNat < 1000000000 := normal_iff.1 hb
  have hsum : (a.nano + BILLION).toNat = a.nano.toNat + 1000000000 := by
    rw [UInt32.toNat_add]
    show (a.nano.toNat + 1000000000) % 2 ^ 32 = _
    omega
  have hle : b.nano ≤ a.nano + BILLION := by
    rw [UInt32.le_iff_toNat_le, hsum]
    omega
  rw [UInt32.toNat_sub_of_le _ _ hle, hsum]

/-- The difference is the one of two digits, and is refused to a time that is less. -/
theorem digits_sub (ha : a.Normal) (hb : b.Normal) :
    (a.lt b = true ∧ a.sub b = .error .BAD_PARAM) ∨
      (¬a.digits.less b.digits ∧ ∃ d, a.sub b = .ok d ∧
        d.digits = TwoDigit.sub 1000000000 a.digits b.digits) := by
  by_cases hlt : a.lt b = true
  · exact .inl ⟨hlt, if_pos hlt⟩
  right
  have hless : ¬a.digits.less b.digits := mt (lt_iff_less a b).2 hlt
  obtain ⟨hhigh, hborrow⟩ := TwoDigit.high_of_not_less hless
  refine ⟨hless, _, if_neg hlt, ?_⟩
  unfold TwoDigit.sub
  by_cases hnano : a.nano < b.nano
  · have hlow : a.digits.low < b.digits.low := UInt32.lt_iff_toNat_lt.1 hnano
    simp only [if_pos hnano, if_pos hlow]
    exact congrArg₂ TwoDigit.mk (toNat_sec_borrow (hborrow hlow)) (toNat_nano_borrow ha hb)
  · have hlow : ¬a.digits.low < b.digits.low := mt UInt32.lt_iff_toNat_lt.2 hnano
    have hsec : b.sec ≤ a.sec := UInt32.le_iff_toNat_le.2 hhigh
    have hle : b.nano ≤ a.nano := UInt32.le_iff_toNat_le.2 (Nat.not_lt.1 hlow)
    simp only [if_neg hnano, if_neg hlow]
    exact congrArg₂ TwoDigit.mk (UInt32.toNat_sub_of_le _ _ hsec) (UInt32.toNat_sub_of_le _ _ hle)

theorem sub_raises_iff (ha : a.Normal) (hb : b.Normal) :
    a.sub b = .error .BAD_PARAM ↔ a.total < b.total := by
  rw [← lt_iff ha hb]
  rcases digits_sub ha hb with ⟨hlt, hraised⟩ | ⟨hless, d, hd, -⟩
  · exact iff_of_true hraised hlt
  · rw [hd]
    exact iff_of_false (by intro h; cases h) (mt (lt_iff_less a b).1 hless)

theorem sub_spec (ha : a.Normal) (hb : b.Normal) {d : Time} (h : a.sub b = .ok d) :
    d.Normal ∧ d.total + b.total = a.total := by
  rcases digits_sub ha hb with ⟨-, hraised⟩ | ⟨hless, d', hd', hdigits⟩
  · rw [hraised] at h
    cases h
  · obtain rfl : d' = d := Except.ok.inj (hd'.symm.trans h)
    have hna := normal_iff.1 ha
    have hnb := normal_iff.1 hb
    rw [normal_iff, total, hdigits]
    exact ⟨TwoDigit.normal_sub hna hnb, TwoDigit.value_sub hnb hless⟩

theorem total_injective (ha : a.Normal) (hb : b.Normal) (h : a.total = b.total) : a = b :=
  digits_injective (TwoDigit.eq_of_value_eq (normal_iff.1 ha) (normal_iff.1 hb) h)

/-- A time is slept until only if it lies ahead, so its difference is never refused. -/
theorem sleepUntil_ok (now futureTime : Time) : ∃ slept, sleepUntil now futureTime = .ok slept := by
  unfold sleepUntil
  by_cases hlt : now.lt futureTime = true
  · have hback : ¬futureTime.lt now = true := by
      rw [lt_iff_less] at hlt ⊢
      unfold TwoDigit.less at hlt ⊢
      split at hlt <;> split <;> omega
    rw [if_pos hlt, sub, if_neg hback]
    exact ⟨_, rfl⟩
  · exact ⟨none, if_neg hlt⟩

/-! ## The laws -/

/-- What is expected of the arithmetic of two times. -/
structure Laws (a b : Time) : Prop where
  sum_normal : (a.add b).Normal
  sum_total : (a.add b).total = a.total + b.total
  sum_order : ∀ t : Time, t.Normal → ((a.add b).lt t = true ↔ (a.add b).total < t.total) ∧
    (t.lt (a.add b) = true ↔ t.total < (a.add b).total)
  difference_raises : a.sub b = .error .BAD_PARAM ↔ a.total < b.total
  difference : ∀ d, a.sub b = .ok d → d.Normal ∧ d.total + b.total = a.total
  sum_back : (a.add b).sub b = .ok a

/-- The nanoseconds come to one second exactly. -/
def ExactSecond (a b : Time) : Prop := a.nano.toNat + b.nano.toNat = 1000000000

/-- What comes out of normal times by sums, of those that are allowed, and differences. -/
inductive Reached (allowed : Time → Time → Prop) : Time → Prop where
  | given {t : Time} : t.Normal → Reached allowed t
  | sum {s t : Time} : Reached allowed s → Reached allowed t → Fits s t → allowed s t →
      Reached allowed (s.add t)
  | difference {s t d : Time} : Reached allowed s → Reached allowed t → s.sub t = .ok d →
      Reached allowed d

theorem add_spec (ha : a.Normal) (hb : b.Normal) (hfits : Fits a b) (hne : ¬ExactSecond a b) :
    (a.add b).Normal ∧ (a.add b).total = a.total + b.total := by
  rw [normal_iff, total, digits_add ha hb hfits hne]
  exact ⟨TwoDigit.normal_add (normal_iff.1 ha) (normal_iff.1 hb), TwoDigit.value_add _ _⟩

theorem sub_of_add (ha : a.Normal) (hb : b.Normal) (hfits : Fits a b) (hne : ¬ExactSecond a b) :
    (a.add b).sub b = .ok a := by
  obtain ⟨hnormal, htotal⟩ := add_spec ha hb hfits hne
  cases hsub : (a.add b).sub b with
  | error ex =>
      rcases digits_sub hnormal hb with ⟨hlt, -⟩ | ⟨-, d, hd, -⟩
      · rw [lt_iff hnormal hb, htotal] at hlt
        exact absurd hlt (Nat.not_lt.2 (Nat.le_add_left _ _))
      · rw [hd] at hsub
        cases hsub
  | ok d =>
      obtain ⟨hd, hback⟩ := sub_spec hnormal hb hsub
      rw [htotal] at hback
      rw [total_injective hd ha (Nat.add_right_cancel hback)]

theorem laws_iff (ha : a.Normal) (hb : b.Normal) (hfits : Fits a b) :
    Laws a b ↔ ¬ExactSecond a b := by
  constructor
  · intro h heq
    exact not_normal_add ha hb heq h.sum_normal
  · intro hne
    obtain ⟨hnormal, htotal⟩ := add_spec ha hb hfits hne
    exact
      { sum_normal := hnormal
        sum_total := htotal
        sum_order := fun t ht => ⟨lt_iff hnormal ht, lt_iff ht hnormal⟩
        difference_raises := sub_raises_iff ha hb
        difference := fun d hd => sub_spec ha hb hd
        sum_back := sub_of_add ha hb hfits hne }

theorem normal_of_reached {t : Time} (h : Reached (fun a b => ¬ExactSecond a b) t) : t.Normal := by
  induction h with
  | given ht => exact ht
  | sum _ _ hfits hne ihs iht => exact (add_spec ihs iht hfits hne).1
  | difference _ _ hd ihs iht => exact (sub_spec ihs iht hd).1

/-- The arithmetic of two times is right unless their nanoseconds come to exactly one second, and
    where no sum of a run does, all times of the run are normal and in the order of their
    nanoseconds. -/
theorem time_arithmetic (a b : Time) (ha : a.Normal) (hb : b.Normal) (hfits : Fits a b) :
    (Laws a b ↔ ¬ExactSecond a b) ∧
      ∀ s t, Reached (fun a b => ¬ExactSecond a b) s → Reached (fun a b => ¬ExactSecond a b) t →
        s.Normal ∧ (s.lt t = true ↔ s.total < t.total) := by
  refine ⟨laws_iff ha hb hfits, ?_⟩
  intro s t hs ht
  exact ⟨normal_of_reached hs, lt_iff (normal_of_reached hs) (normal_of_reached ht)⟩

/-- One second and a half and as much again less a nanosecond. -/
theorem time_arithmetic_carry :
    (Laws ⟨1, 500000000⟩ ⟨1, 499999999⟩ ↔ ¬ExactSecond ⟨1, 500000000⟩ ⟨1, 499999999⟩) ∧
      ∀ s t, Reached (fun a b => ¬ExactSecond a b) s → Reached (fun a b => ¬ExactSecond a b) t →
        s.Normal ∧ (s.lt t = true ↔ s.total < t.total) :=
  time_arithmetic ⟨1, 500000000⟩ ⟨1, 499999999⟩ (by decide) (by decide) (by decide)

/-- Half a second and half a second stay a billion nanoseconds, which is less than the second that
    it is, so that the order of the times reached is not that of their nanoseconds. -/
theorem half_second_twice :
    Normal ⟨0, 500000000⟩ ∧ Fits ⟨0, 500000000⟩ ⟨0, 500000000⟩ ∧
      ¬Laws ⟨0, 500000000⟩ ⟨0, 500000000⟩ ∧
      ∃ s t, Reached (fun _ _ => True) s ∧ Reached (fun _ _ => True) t ∧ ¬s.Normal ∧
        s.lt t = true ∧ s.total = t.total := by
  have hhalf : Normal ⟨0, 500000000⟩ := by decide
  have hfits : Fits ⟨0, 500000000⟩ ⟨0, 500000000⟩ := by decide
  refine ⟨hhalf, hfits, ?_, add ⟨0, 500000000⟩ ⟨0, 500000000⟩, ⟨1, 0⟩, ?_, ?_, ?_, ?_, ?_⟩
  · intro h
    exact absurd h.sum_normal (by decide)
  · exact .sum (.given hhalf) (.given hhalf) hfits trivial
  · exact .given (by decide)
  · decide
  · decide
  · decide

end Time

end OmniEvents.Events
