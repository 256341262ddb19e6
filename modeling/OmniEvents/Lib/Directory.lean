import Mathlib.Logic.Function.Basic
import Mathlib.Data.Nat.Basic

set_option autoImplicit false

/-! # Names and inodes

A directory maps names to inodes, and an inode has contents; two names may stand for one inode.
`link` refuses a name that exists, `unlink` removes a name and leaves the inode alone, and opening
with truncation keeps the inode of a name that exists. -/

/-- A directory with names in `ν` and contents in `δ`. -/
structure Directory (ν δ : Type) where
  entry : ν → Option ℕ
  data : ℕ → δ
  /-- Inodes from here on have never been used. -/
  next : ℕ

namespace Directory

variable {ν δ : Type}

/-- The contents of the file of this name. -/
def read (d : Directory ν δ) (name : ν) : Option δ := (d.entry name).map d.data

/-- Replace the contents of an inode. -/
def write (d : Directory ν δ) (i : ℕ) (contents : δ) : Directory ν δ :=
  { d with data := Function.update d.data i contents }

/-- All inodes with a name have been used. -/
def Bounded (d : Directory ν δ) : Prop := ∀ name i, d.entry name = some i → i < d.next

section Write

variable {d : Directory ν δ} {i j : ℕ} {contents : δ}

@[simp] theorem entry_write : (d.write i contents).entry = d.entry := rfl

@[simp] theorem data_write_self : (d.write i contents).data i = contents := by simp [write]

@[simp] theorem data_write_of_ne (h : j ≠ i) : (d.write i contents).data j = d.data j := by
  simp [write, h]

theorem Bounded.write (h : d.Bounded) : (d.write i contents).Bounded := h

theorem read_of_entry {name : ν} (h : d.entry name = some i) : d.read name = some (d.data i) := by
  rw [read, h, Option.map_some]

end Write

variable [DecidableEq ν]

/-- A name is taken away; the file stays. -/
def unlink (d : Directory ν δ) (name : ν) : Directory ν δ :=
  { d with entry := Function.update d.entry name none }

/-- `link`: a second name for the inode of `old`. -/
def link (d : Directory ν δ) (old new : ν) : Option (Directory ν δ) :=
  match d.entry old, d.entry new with
  | some i, none => some { d with entry := Function.update d.entry new (some i) }
  | _, _ => none

/-- `rename`, for a name that exists. -/
def rename (d : Directory ν δ) (old new : ν) (i : ℕ) : Directory ν δ :=
  { d with entry := Function.update (Function.update d.entry new (some i)) old none }

/-- Open with creation and truncation: the inode of the name, or a new one. -/
def openTruncate (d : Directory ν δ) (name : ν) (empty : δ) : Directory ν δ × ℕ :=
  match d.entry name with
  | some i => (d.write i empty, i)
  | none =>
      ({ d.write d.next empty with
          entry := Function.update d.entry name (some d.next), next := d.next + 1 }, d.next)

section Lemmas

variable {d d' : Directory ν δ} {name old new : ν} {i j : ℕ}

@[simp] theorem entry_unlink_self : (d.unlink name).entry name = none := by simp [unlink]

@[simp] theorem entry_unlink_of_ne {other : ν} (h : other ≠ name) :
    (d.unlink name).entry other = d.entry other := by simp [unlink, h]

@[simp] theorem data_unlink : (d.unlink name).data = d.data := rfl

/-- A link that is made: the new name stands for the inode of the old one. -/
theorem link_eq_some :
    d.link old new = some d' ↔
      ∃ i, d.entry old = some i ∧ d.entry new = none ∧
        d' = { d with entry := Function.update d.entry new (some i) } := by
  rw [link]
  cases d.entry old <;> cases d.entry new <;> simp [eq_comm]

/-- What an opened file is: empty, under its name. -/
theorem openTruncate_self (d : Directory ν δ) (name : ν) (empty : δ) :
    (d.openTruncate name empty).1.entry name = some (d.openTruncate name empty).2 ∧
      (d.openTruncate name empty).1.data (d.openTruncate name empty).2 = empty := by
  rw [openTruncate]
  cases h : d.entry name with
  | none => simp [write]
  | some i => simp [h]

theorem entry_openTruncate_of_ne {other : ν} (h : other ≠ name) (empty : δ) :
    (d.openTruncate name empty).1.entry other = d.entry other := by
  rw [openTruncate]
  cases d.entry name <;> simp [h]

/-- Opening leaves the contents of every file alone that is not the opened one. -/
theorem data_openTruncate (hd : d.Bounded) {other : ν} (hother : d.entry other = some j)
    (h : d.entry name ≠ some j) (empty : δ) :
    (d.openTruncate name empty).2 ≠ j ∧ (d.openTruncate name empty).1.data j = d.data j := by
  have hlt := hd other j hother
  rw [openTruncate]
  cases hname : d.entry name with
  | none =>
      have hne : d.next ≠ j := by omega
      simp [hne, hne.symm, write]
  | some i =>
      have hne : i ≠ j := fun heq => h (by rw [hname, heq])
      simp [hne, hne.symm]

theorem Bounded.unlink (h : d.Bounded) (name : ν) : (d.unlink name).Bounded := by
  intro other i hi
  by_cases hother : other = name
  · subst hother
    simp at hi
  · rw [entry_unlink_of_ne hother] at hi
    exact h other i hi

theorem Bounded.update (h : d.Bounded) (hold : d.entry old = some i) (new : ν) :
    Bounded { d with entry := Function.update d.entry new (some i) } := by
  intro other j hj
  by_cases hother : other = new
  · subst hother
    simp only [Function.update_self, Option.some_inj] at hj
    exact hj ▸ h old i hold
  · simp only [Function.update_of_ne hother] at hj
    exact h other j hj

theorem Bounded.rename (h : d.Bounded) (hold : d.entry old = some i) (new : ν) :
    (d.rename old new i).Bounded := (h.update hold new).unlink old

theorem Bounded.openTruncate (h : d.Bounded) (name : ν) (empty : δ) :
    (d.openTruncate name empty).1.Bounded := by
  rw [Directory.openTruncate]
  cases hname : d.entry name with
  | some i => exact h
  | none =>
      intro other j hj
      by_cases hother : other = name
      · subst hother
        simp only [Function.update_self, Option.some_inj] at hj
        simp only
        omega
      · simp only [Function.update_of_ne hother] at hj
        have := h other j hj
        simp only
        omega

end Lemmas

end Directory
