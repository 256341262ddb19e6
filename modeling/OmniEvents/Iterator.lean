import Mathlib.Data.List.Basic

set_option autoImplicit false

/-! # Paging through a list

`Iterator::list` hands out the first page of a sequence and, if that is not all of it, an iterator
for the rest. `next_one` and `next_n` share `offset_`, a `CORBA::ULong`. An access outside the
sequence, or a subtraction that would go below zero, is no step of the model at all. A page of no
items may well be followed by others: only `false` is the end (`paging_lossless`). -/

namespace OmniEvents

/-! ## Sequences and calls -/

/-- A CORBA sequence, whose length is an unsigned long. -/
structure Sequence (Item : Type) where
  items : List Item
  length_lt : items.length < UInt32.size
  deriving DecidableEq, Repr

/-- `length` of the sequence, as the code reads it. -/
def Sequence.length {Item : Type} (s : Sequence Item) : UInt32 := .ofNat s.items.length

/-- `length-offset_`, of unsigned longs. -/
def Sequence.rest {Item : Type} (s : Sequence Item) (offset : UInt32) : Option UInt32 :=
  if offset ≤ s.length then some (s.length - offset) else none

/-- The `n` items of the buffer from the `i`-th on. -/
def Sequence.slice {Item : Type} (s : Sequence Item) (i n : UInt32) : Option (List Item) :=
  if i.toNat + n.toNat ≤ s.items.length then some ((s.items.drop i.toNat).take n.toNat) else none

/-- An iterator of the factory: the list that was made when it was, and how far it has come. -/
structure Iterator (Item : Type) where
  list_ : Sequence Item
  offset : UInt32
  deriving DecidableEq, Repr

/-- A call of the client: `next_one` or `next_n`. -/
inductive Iterator.Call where
  | next_one
  | next_n (how_many : UInt32)
  deriving DecidableEq, Repr

/-- What a call hands out, and what it returns. -/
inductive Iterator.Reply (Item : Type) where
  | one (item : Item) (returned : Bool)
  | many (bl : List Item) (returned : Bool)
  deriving DecidableEq, Repr

namespace Iterator

variable {Item : Type} [Inhabited Item]

/-- `next_one`. At the end it hands out a blank item. -/
def next_one (s : Iterator Item) : Option (Reply Item × Iterator Item) :=
  if s.list_.length ≤ s.offset then some (.one default false, s)
  else
    match s.list_.items[s.offset.toNat]? with
    | none => none
    | some item => some (.one item true, { s with offset := s.offset + 1 })

omit [Inhabited Item] in
/-- `next_n`, of which the page shares the buffer. -/
def next_n (s : Iterator Item) (how_many : UInt32) : Option (Reply Item × Iterator Item) :=
  if s.list_.length ≤ s.offset then some (.many [] false, s)
  else
    match s.list_.rest s.offset with
    | none => none
    | some rest =>
        let how_many := if rest < how_many then rest else how_many
        match s.list_.slice s.offset how_many with
        | none => none
        | some bl => some (.many bl true, { s with offset := s.offset + how_many })

/-- A call to the iterator, whichever it is. -/
def call (s : Iterator Item) : Call → Option (Reply Item × Iterator Item)
  | .next_one => s.next_one
  | .next_n how_many => s.next_n how_many

/-- The replies to the calls, and the iterator after them. -/
def run (s : Iterator Item) : List Call → Option (List (Reply Item) × Iterator Item)
  | [] => some ([], s)
  | c :: cs =>
      match s.call c with
      | none => none
      | some (r, s) => (run s cs).map fun rest => (r :: rest.1, rest.2)

omit [Inhabited Item] in
/-- `Iterator::list`: the first page, and an iterator unless it is nil. -/
def list (count : UInt32) (items : Sequence Item) :
    Option (Reply Item × Option (Iterator Item)) :=
  if items.length ≤ count then some (.many items.items true, none)
  else (next_n ⟨items, 0⟩ count).map fun r => (r.1, some r.2)

/-! ## What the replies hold

The pages put together are the list from the place where the iterator was made, and after its end
each call says so. -/

namespace Reply

omit [Inhabited Item] in
/-- Does the call say that it has returned something? -/
def returned : Reply Item → Bool
  | one _ returned | many _ returned => returned

/-- The items of a call that returned true. -/
def items : Reply Item → List Item
  | one item true => [item]
  | many bl true => bl
  | _ => []

/-- The result of a call at the end. -/
def blank : Reply Item → Prop
  | one item _ => item = default
  | many bl _ => bl = []

end Reply

/-- The cursor is within the sequence. -/
def Within (s : Iterator Item) : Prop := s.offset.toNat ≤ s.list_.items.length

omit [Inhabited Item] in
theorem toNat_length (q : Sequence Item) : q.length.toNat = q.items.length :=
  UInt32.toNat_ofNat_of_lt' q.length_lt

/-- What one call does: it goes on from the cursor, and returns false at the end only. -/
structure Continues (s : Iterator Item) (r : Reply Item) (t : Iterator Item) : Prop where
  list_ : t.list_ = s.list_
  within : t.Within
  items : s.list_.items.take s.offset.toNat ++ r.items = s.list_.items.take t.offset.toNat
  ended : r.returned = false → s.list_.items.length ≤ s.offset.toNat ∧ t = s ∧ r.blank

theorem next_one_spec {s : Iterator Item} (hs : s.Within) :
    ∃ r t, s.next_one = some (r, t) ∧ s.Continues r t := by
  have hlength := toNat_length s.list_
  have hlt : s.list_.items.length < 4294967296 := s.list_.length_lt
  unfold next_one
  by_cases hend : s.list_.length ≤ s.offset
  · rw [if_pos hend]
    rw [UInt32.le_iff_toNat_le, hlength] at hend
    exact ⟨_, s, rfl, rfl, hs, List.append_nil _, fun _ => ⟨hend, rfl, rfl⟩⟩
  · rw [if_neg hend]
    rw [UInt32.le_iff_toNat_le, hlength, Nat.not_le] at hend
    have hoffset : (s.offset + 1).toNat = s.offset.toNat + 1 := by
      rw [UInt32.toNat_add, UInt32.toNat_one]
      omega
    rw [List.getElem?_eq_getElem hend]
    refine ⟨_, _, rfl, rfl, ?_, ?_, fun h => Bool.noConfusion h⟩
    · show (s.offset + 1).toNat ≤ _
      rw [hoffset]
      exact hend
    · show _ = s.list_.items.take (s.offset + 1).toNat
      rw [hoffset, List.take_add_one, List.getElem?_eq_getElem hend]
      rfl

theorem next_n_spec {s : Iterator Item} (hs : s.Within) (how_many : UInt32) :
    ∃ r t, s.next_n how_many = some (r, t) ∧ s.Continues r t := by
  have hlength := toNat_length s.list_
  have hlt : s.list_.items.length < 4294967296 := s.list_.length_lt
  unfold next_n
  by_cases hend : s.list_.length ≤ s.offset
  · rw [if_pos hend]
    rw [UInt32.le_iff_toNat_le, hlength] at hend
    exact ⟨_, s, rfl, rfl, hs, List.append_nil _, fun _ => ⟨hend, rfl, rfl⟩⟩
  · rw [if_neg hend]
    -- the subtraction does not go below zero, and what it leaves clamps the page
    have hle := UInt32.le_of_lt (UInt32.not_le.1 hend)
    have hrest : (s.list_.length - s.offset).toNat = s.list_.items.length - s.offset.toNat := by
      rw [UInt32.toNat_sub_of_le _ _ hle, hlength]
    rw [Sequence.rest, if_pos hle]
    simp only
    generalize hpage : (if s.list_.length - s.offset < how_many then s.list_.length - s.offset
      else how_many) = page
    have hclamped : s.offset.toNat + page.toNat ≤ s.list_.items.length := by
      have hle : page.toNat ≤ s.list_.items.length - s.offset.toNat := by
        rw [← hpage, ← hrest]
        split
        · exact Nat.le_refl _
        · next hmore => exact UInt32.le_iff_toNat_le.1 (UInt32.not_lt.1 hmore)
      have hs : s.offset.toNat ≤ s.list_.items.length := hs
      omega
    have hoffset : (s.offset + page).toNat = s.offset.toNat + page.toNat := by
      rw [UInt32.toNat_add]
      omega
    rw [Sequence.slice, if_pos hclamped]
    refine ⟨_, _, rfl, rfl, ?_, ?_, fun h => Bool.noConfusion h⟩
    · show (s.offset + page).toNat ≤ _
      rw [hoffset]
      exact hclamped
    · show _ = s.list_.items.take (s.offset + page).toNat
      rw [hoffset, List.take_add]
      rfl

theorem call_spec {s : Iterator Item} (hs : s.Within) (c : Call) :
    ∃ r t, s.call c = some (r, t) ∧ s.Continues r t := by
  cases c with
  | next_one => exact next_one_spec hs
  | next_n how_many => exact next_n_spec hs how_many

/-! ## Runs -/

/-- At the end of the sequence every call returns false. -/
theorem call_of_end {s : Iterator Item} (hend : s.list_.items.length ≤ s.offset.toNat) (c : Call) :
    ∃ r, s.call c = some (r, s) ∧ r.returned = false ∧ r.blank := by
  have hle : s.list_.length ≤ s.offset := by rwa [UInt32.le_iff_toNat_le, toNat_length]
  cases c with
  | next_one => exact ⟨.one default false, if_pos hle, rfl, rfl⟩
  | next_n how_many => exact ⟨.many [] false, if_pos hle, rfl, rfl⟩

theorem run_of_end {s : Iterator Item} (hend : s.list_.items.length ≤ s.offset.toNat)
    (cs : List Call) : ∃ rs, s.run cs = some (rs, s) ∧
      ∀ r ∈ rs, r.returned = false ∧ r.blank := by
  induction cs with
  | nil => exact ⟨[], rfl, nofun⟩
  | cons c cs ih =>
      obtain ⟨r, hcall, hr⟩ := call_of_end hend c
      obtain ⟨rs, hrun, hrs⟩ := ih
      refine ⟨r :: rs, ?_, List.forall_mem_cons.2 ⟨hr, hrs⟩⟩
      rw [run, hcall]
      simp only [hrun, Option.map_some]

/-- What a run has handed out, and where the end was. -/
theorem run_spec {s : Iterator Item} (hs : s.Within) (cs : List Call) :
    ∃ rs t, s.run cs = some (rs, t) ∧ t.list_ = s.list_ ∧ t.Within ∧
      s.list_.items.take s.offset.toNat ++ rs.flatMap Reply.items
        = s.list_.items.take t.offset.toNat ∧
      ∀ pre r post, rs = pre ++ r :: post → r.returned = false →
        s.list_.items.take s.offset.toNat ++ pre.flatMap Reply.items = s.list_.items ∧
        ∀ r' ∈ r :: post, r'.returned = false ∧ r'.blank := by
  induction cs generalizing s with
  | nil =>
      refine ⟨[], s, rfl, rfl, hs, List.append_nil _, ?_⟩
      intro pre r post hsplit
      simp at hsplit
  | cons c cs ih =>
      obtain ⟨r, u, hcall, hcontinues⟩ := call_spec hs c
      obtain ⟨rs, t, hrun, hlist, hwithin, hitems, hended⟩ := ih hcontinues.within
      rw [hcontinues.list_] at hlist hitems hended
      have hall : s.run (c :: cs) = some (r :: rs, t) := by
        rw [run, hcall]
        simp only [hrun, Option.map_some]
      refine ⟨r :: rs, t, hall, hlist, hwithin, ?_, ?_⟩
      · rw [List.flatMap_cons, ← List.append_assoc, hcontinues.items]
        exact hitems
      · intro pre r' post hsplit hreturned
        cases pre with
        | nil =>
            obtain ⟨rfl, rfl⟩ := List.cons.inj hsplit
            have hend := (hcontinues.ended hreturned).1
            obtain ⟨rest, hrest, hblank⟩ := run_of_end hend (c :: cs)
            obtain ⟨rfl, -⟩ := Prod.mk.inj (Option.some.inj (hrest.symm.trans hall))
            rw [List.take_of_length_le hend]
            exact ⟨List.append_nil _, hblank⟩
        | cons p pre =>
            obtain ⟨rfl, hrest⟩ := List.cons.inj hsplit
            rw [List.flatMap_cons, ← List.append_assoc, hcontinues.items]
            exact hended pre r' post hrest hreturned

omit [Inhabited Item] in
theorem length_slice {q : Sequence Item} {i n : UInt32} {bl : List Item}
    (h : q.slice i n = some bl) : bl.length ≤ n.toNat := by
  unfold Sequence.slice at h
  split at h
  · cases h
    exact List.length_take_le _ _
  · cases h

omit [Inhabited Item] in
theorem length_next_n {s t : Iterator Item} {how_many : UInt32} {r : Reply Item}
    (h : s.next_n how_many = some (r, t)) : r.items.length ≤ how_many.toNat := by
  unfold next_n at h
  split at h
  · cases h
    exact Nat.zero_le _
  · split at h
    · cases h
    · next rest _ =>
        simp only at h
        generalize hpage : (if rest < how_many then rest else how_many) = page at h
        have hle : page.toNat ≤ how_many.toNat := by
          rw [← hpage]
          split
          · next hless => exact Nat.le_of_lt (UInt32.lt_iff_toNat_lt.1 hless)
          · exact Nat.le_refl _
        split at h
        · cases h
        · next hslice =>
            cases h
            exact Nat.le_trans (length_slice hslice) hle

/-- **Paging is lossless.** For every sequence, every size of the first page and all calls after it:
    no access is out of bounds, and what was handed out by calls that returned true is the beginning
    of the sequence up to the cursor. A call returns false only when that is all of it, and so do
    then all others, with nothing to hand out. There is no iterator exactly if the first page is all. -/
theorem paging_lossless (items : Sequence Item) (count : UInt32) (cs : List Call) :
    ∃ first it, list count items = some (first, it) ∧
      (it = none ↔ first.items = items.items) ∧
      ∀ s, it = some s → ∃ rs t, s.run cs = some (rs, t) ∧
        t.offset.toNat ≤ items.items.length ∧
        first.items ++ rs.flatMap Reply.items = items.items.take t.offset.toNat ∧
        ∀ pre r post, rs = pre ++ r :: post → r.returned = false →
          first.items ++ pre.flatMap Reply.items = items.items ∧
          ∀ r' ∈ r :: post, r'.returned = false ∧ r'.blank := by
  unfold list
  by_cases hall : items.length ≤ count
  · rw [if_pos hall]
    exact ⟨_, _, rfl, ⟨fun _ => rfl, fun _ => rfl⟩, fun s hs => by cases hs⟩
  · rw [if_neg hall]
    obtain ⟨first, s, hfirst, hcontinues⟩ :=
      @next_n_spec _ _ ⟨items, 0⟩ (Nat.zero_le _) count
    rw [hfirst]
    refine ⟨first, some s, rfl, ⟨?_, ?_⟩, ?_⟩
    · intro hit
      cases hit
    · intro hitems
      have hle := length_next_n hfirst
      rw [hitems, ← toNat_length items] at hle
      exact absurd (UInt32.le_iff_toNat_le.2 hle) hall
    · intro u hu
      obtain rfl := Option.some.inj hu
      obtain ⟨rs, t, hrun, hlist, hwithin, hitems, hended⟩ := run_spec hcontinues.within cs
      have hpage : first.items = items.items.take s.offset.toNat := hcontinues.items
      have hsame : s.list_ = items := hcontinues.list_
      unfold Within at hwithin
      rw [hlist, hsame] at hwithin
      rw [hsame, ← hpage] at hitems hended
      exact ⟨rs, t, hrun, hwithin, hitems, hended⟩

/-- Three items, a first page of one, and an empty page before the rest. -/
example : (list 1 ⟨[7, 8, 9], by decide⟩).bind (fun r => r.2.bind fun s =>
    (s.run [.next_n 0, .next_one, .next_n 4294967295, .next_n 1]).map fun q => (r.1, q.1)) =
      some (.many [7] true, [.many [] true, .one 8 true, .many [9] true, .many [] false]) := by
  decide

end Iterator

end OmniEvents
