import Mathlib.Data.List.Basic
import Mathlib.Data.Option.Basic
import Mathlib.Tactic.Ring

set_option autoImplicit false

/-! # Aligned streams

A value is marshalled as a list of primitives, each of them a list of bytes. A primitive stands at the
next multiple of its size, counted from the start of the stream; what fills the gap is whatever the
memory holds there. A parser reads primitive by primitive and may choose what to read next by what it
has read. It gets back what was marshalled at the offset it reads from (`run_marshal`), nothing of
which it has a part only (`run_take`), and what was marshalled at another offset if the sizes of all
primitives divide the difference (`marshal_shift`). -/

namespace Cdr

variable {β α γ : Type*}

/-! ## Marshalling -/

/-- The bytes between an offset and the next multiple of `size`. -/
def padding (size offset : ℕ) : ℕ := (size - offset % size) % size

theorem padding_add {size shift : ℕ} (h : size ∣ shift) (offset : ℕ) :
    padding size (shift + offset) = padding size offset := by
  obtain ⟨k, rfl⟩ := h
  rw [padding, padding, Nat.mul_add_mod]

/-- What lies in memory where the padding is: it is not written. -/
def pad (memory : ℕ → β) (offset k : ℕ) : List β := (List.range' offset k).map memory

@[simp] theorem length_pad (memory : ℕ → β) (offset k : ℕ) : (pad memory offset k).length = k := by
  rw [pad, List.length_map, List.length_range']

/-- A primitive at an offset, with the gap before it. -/
def put (memory : ℕ → β) (offset : ℕ) (p : List β) : List β :=
  pad memory offset (padding p.length offset) ++ p

theorem length_put (memory : ℕ → β) (offset : ℕ) (p : List β) :
    (put memory offset p).length = padding p.length offset + p.length := by
  rw [put, List.length_append, length_pad]

/-- Primitives one after the other, each behind its padding. -/
def marshal (memory : ℕ → β) : ℕ → List (List β) → List β
  | _, [] => []
  | offset, p :: ps =>
      put memory offset p ++ marshal memory (offset + (padding p.length offset + p.length)) ps

/-- At an offset that the sizes of all primitives divide. -/
def Aligned (offset : ℕ) (ps : List (List β)) : Prop := ∀ p ∈ ps, p.length ∣ offset

instance decidableAligned (offset : ℕ) (ps : List (List β)) : Decidable (Aligned offset ps) :=
  List.decidableBAll _ ps

theorem put_shift {shift : ℕ} {p : List β} (h : p.length ∣ shift) (memory : ℕ → β) (offset : ℕ) :
    put memory (shift + offset) p = put (fun i => memory (shift + i)) offset p := by
  rw [put, put, padding_add h, pad, pad, ← List.map_add_range', List.map_map]
  rfl

/-- What is marshalled at one offset is what is marshalled at the other. -/
theorem marshal_shift {shift : ℕ} {ps : List (List β)} (h : Aligned shift ps) (memory : ℕ → β)
    (offset : ℕ) :
    marshal memory (shift + offset) ps = marshal (fun i => memory (shift + i)) offset ps := by
  induction ps generalizing offset with
  | nil => rfl
  | cons p ps ih =>
      obtain ⟨hp, hps⟩ := List.forall_mem_cons.1 h
      rw [marshal, marshal, put_shift hp, padding_add hp, Nat.add_assoc, ih hps]

/-- A record from the start of its own stream, read at an aligned offset. -/
theorem marshal_zero {shift : ℕ} {ps : List (List β)} (h : Aligned shift ps) (memory : ℕ → β) :
    marshal memory 0 ps = marshal (fun i => memory (i - shift)) shift ps := by
  have hshift := marshal_shift h (fun i => memory (i - shift)) 0
  simp only [Nat.add_sub_cancel_left, Nat.add_zero] at hshift
  exact hshift.symm

/-! ## Unmarshalling

A parser asks for bytes by size, so that it can be run on a stream that is cut anywhere. -/

/-- What is left of a stream, and where that begins. -/
structure Input (β : Type*) where
  pos : ℕ
  rest : List β
  deriving DecidableEq, Repr

/-- A reader that is given bytes by size, and decides by them what to read next. -/
inductive Parser (β α : Type*) where
  | done (a : α)
  | fail
  | read (size : ℕ) (next : List β → Parser β α)

namespace Parser

/-- One reader after the other. -/
def bind : Parser β α → (α → Parser β γ) → Parser β γ
  | done a, f => f a
  | fail, _ => fail
  | read size next, f => read size fun bytes => (next bytes).bind f

/-- What is read, taken further. -/
def map (f : α → γ) (p : Parser β α) : Parser β γ := p.bind fun a => done (f a)

/-- No value if the stream ends before the parser has read what it wants. -/
def run : Parser β α → Input β → Option (α × Input β)
  | done a, input => some (a, input)
  | fail, _ => none
  | read size next, input =>
      let gap := padding size input.pos
      if gap + size ≤ input.rest.length then
        (next ((input.rest.drop gap).take size)).run
          ⟨input.pos + (gap + size), input.rest.drop (gap + size)⟩
      else none

/-- Read primitives that are given one by one, each of which must have the size asked for; and those
    that are left. -/
def feed : Parser β α → List (List β) → Option (α × List (List β))
  | done a, ps => some (a, ps)
  | fail, _ => none
  | read _ _, [] => none
  | read size next, p :: ps => if p.length = size then (next p).feed ps else none

/-- Along the primitives that a parser takes. -/
theorem feed_induct {motive : Parser β α → List (List β) → Prop} {a : α} {rest : List (List β)}
    (hdone : motive (done a) rest)
    (hread : ∀ next p ps, (next p).feed ps = some (a, rest) → motive (next p) ps →
      motive (read p.length next) (p :: ps))
    {parser : Parser β α} {ps : List (List β)} (h : parser.feed ps = some (a, rest)) :
    motive parser ps := by
  induction parser generalizing ps with
  | done b =>
      obtain ⟨rfl, rfl⟩ := Prod.mk.inj (Option.some.inj h)
      exact hdone
  | fail => cases h
  | read size next ih =>
      cases ps with
      | nil => cases h
      | cons p ps =>
          rw [feed] at h
          split at h
          · next hsize =>
              subst hsize
              exact hread next p ps h (ih p h)
          · cases h

theorem feed_read (next : List β → Parser β α) (p : List β) (ps : List (List β)) :
    (read p.length next).feed (p :: ps) = (next p).feed ps := if_pos rfl

theorem feed_append {parser : Parser β α} {ps rest : List (List β)} {a : α}
    (h : parser.feed ps = some (a, rest)) (qs : List (List β)) :
    parser.feed (ps ++ qs) = some (a, rest ++ qs) := by
  refine feed_induct (motive := fun parser ps => parser.feed (ps ++ qs) = _) rfl ?_ h
  intro next p ps _ ih
  rw [List.cons_append, feed_read, ih]

theorem feed_bind {parser : Parser β α} {f : α → Parser β γ} {ps rest : List (List β)} {a : α}
    (h : parser.feed ps = some (a, rest)) : (parser.bind f).feed ps = (f a).feed rest := by
  refine feed_induct (motive := fun parser ps => (parser.bind f).feed ps = (f a).feed rest) rfl ?_ h
  intro next p ps _ ih
  rw [bind, feed_read, ih]

/-- A parser only ever reads on. -/
theorem run_rest_le {parser : Parser β α} {input input' : Input β} {a : α}
    (h : parser.run input = some (a, input')) : input'.rest.length ≤ input.rest.length := by
  induction parser generalizing input with
  | done b =>
      obtain ⟨rfl, rfl⟩ := Prod.mk.inj (Option.some.inj h)
      exact Nat.le_refl _
  | fail => cases h
  | read size next ih =>
      rw [run] at h
      split at h
      · exact (ih _ h).trans (List.drop_sublist _ _).length_le
      · cases h

/-- It has read its first primitive. -/
theorem run_read_rest_le {size : ℕ} {next : List β → Parser β α} {input input' : Input β} {a : α}
    (h : (read size next).run input = some (a, input')) :
    input'.rest.length + size ≤ input.rest.length := by
  rw [run] at h
  split at h
  · next hle =>
      have hrest := run_rest_le h
      rw [List.length_drop] at hrest
      omega
  · cases h

/-! ## What was marshalled is read back -/

theorem drop_put (memory : ℕ → β) (offset : ℕ) (p rest : List β) :
    ((put memory offset p ++ rest).drop (padding p.length offset)).take p.length = p := by
  rw [put, List.append_assoc, List.drop_left' (length_pad _ _ _), List.take_left' rfl]

theorem run_read_put {next : List β → Parser β α} (memory : ℕ → β) (offset : ℕ)
    (p rest : List β) :
    (read p.length next).run ⟨offset, put memory offset p ++ rest⟩
      = (next p).run ⟨offset + (padding p.length offset + p.length), rest⟩ := by
  have hlength := length_put memory offset p
  have hle : padding p.length offset + p.length ≤ (put memory offset p ++ rest).length := by
    rw [List.length_append, hlength]
    exact Nat.le_add_right _ _
  rw [run]
  simp only
  rw [if_pos hle, drop_put, List.drop_left' hlength]

theorem run_marshal {parser : Parser β α} {ps : List (List β)} {a : α}
    (h : parser.feed ps = some (a, [])) (memory : ℕ → β) (offset : ℕ) (rest : List β) :
    parser.run ⟨offset, marshal memory offset ps ++ rest⟩
      = some (a, ⟨offset + (marshal memory offset ps).length, rest⟩) := by
  revert offset
  refine feed_induct (motive := fun parser ps => ∀ offset,
    parser.run ⟨offset, marshal memory offset ps ++ rest⟩
      = some (a, ⟨offset + (marshal memory offset ps).length, rest⟩)) (fun offset => rfl) ?_ h
  intro next p ps _ ih offset
  rw [marshal, List.append_assoc, run_read_put, ih, List.length_append, length_put,
    Nat.add_assoc offset]

/-- A part of what was marshalled is not enough. -/
theorem run_take {parser : Parser β α} {ps : List (List β)} {a : α}
    (h : parser.feed ps = some (a, [])) (memory : ℕ → β) (offset n : ℕ)
    (hn : n < (marshal memory offset ps).length) :
    parser.run ⟨offset, (marshal memory offset ps).take n⟩ = none := by
  revert offset n
  refine feed_induct (motive := fun parser ps => ∀ offset n,
    n < (marshal memory offset ps).length →
      parser.run ⟨offset, (marshal memory offset ps).take n⟩ = none) ?_ ?_ h
  · intro offset n hn
    exact absurd hn (Nat.not_lt_zero _)
  · intro next p ps _ ih offset n hn
    have hput := length_put memory offset p
    rw [marshal, List.length_append] at hn
    rw [marshal, List.take_append, hput]
    by_cases hle : padding p.length offset + p.length ≤ n
    · rw [List.take_of_length_le (hput.trans_le hle), run_read_put]
      exact ih _ _ (by omega)
    · -- the first primitive is cut
      rw [run]
      simp only
      rw [if_neg]
      rw [List.length_append, List.length_take, List.length_take, hput]
      omega

end Parser

/-! ## Integers -/

/-- A number in `size` bytes, the low one first. -/
def littleEndian : ℕ → ℕ → List UInt8
  | 0, _ => []
  | size + 1, n => UInt8.ofNat n :: littleEndian size (n / 256)

/-- The number that such bytes mean. -/
def ofLittleEndian : List UInt8 → ℕ
  | [] => 0
  | b :: bytes => b.toNat + 256 * ofLittleEndian bytes

@[simp] theorem length_littleEndian (size n : ℕ) : (littleEndian size n).length = size := by
  induction size generalizing n with
  | zero => rfl
  | succ size ih => rw [littleEndian, List.length_cons, ih]

theorem ofLittleEndian_littleEndian (size : ℕ) {n : ℕ} (h : n < 256 ^ size) :
    ofLittleEndian (littleEndian size n) = n := by
  induction size generalizing n with
  | zero =>
      rw [Nat.pow_zero, Nat.lt_one_iff] at h
      rw [h]
      rfl
  | succ size ih =>
      rw [Nat.pow_succ'] at h
      rw [littleEndian, ofLittleEndian, ih (Nat.div_lt_of_lt_mul h), UInt8.toNat_ofNat']
      exact Nat.mod_add_div n 256

end Cdr
