import Mathlib.Logic.Relation
import Mathlib.Order.Basic

set_option autoImplicit false

/-! # Threads and mutexes

A thread is the locks it holds and the lock operations it has still to do. A lock that some thread
holds cannot be taken, also not by its own holder. A circular wait is a cycle of threads, each of
which is about to take a lock that the next one holds. The rule of the file is
`not_circularWait_of_rank`: there is none in a state where every thread that is about to take a
lock ranks it above all the locks it holds. What a program nests is said by a relation on the
locks (`Nests`), and `Keeps` composes the programs that keep to it. -/

namespace LockOrder

variable {κ : Type*}

/-- Taking a lock, and letting it go. -/
inductive LockOp (κ : Type*) where
  | lock (l : κ)
  | unlock (l : κ)
  deriving DecidableEq, Repr

/-- A thread, with what it has still to do. -/
structure Thread (κ : Type*) where
  held : List κ
  todo : List (LockOp κ)
  deriving DecidableEq, Repr

namespace Thread

/-- A thread that starts to run a program. -/
def start (ops : List (LockOp κ)) : Thread κ := ⟨[], ops⟩

/-- The lock that the thread is about to take. -/
def next (t : Thread κ) : Option κ :=
  match t.todo with
  | .lock l :: _ => some l
  | _ => none

end Thread

/-! ## Circular waits

A rank of the locks that goes up along every nesting excludes a circle of threads that wait for each
other. -/

/-- Thread `i` is about to take a lock that thread `j` holds. -/
def WaitsFor (threads : List (Thread κ)) (i j : ℕ) : Prop :=
  ∃ t u l, threads[i]? = some t ∧ threads[j]? = some u ∧ t.next = some l ∧ l ∈ u.held

/-- A cycle of threads, each waiting for a lock that the next one holds. -/
def CircularWait (threads : List (Thread κ)) : Prop :=
  ∃ i, Relation.TransGen (WaitsFor threads) i i

/-- Along a chain of waiting threads the awaited locks go up. -/
theorem rank_lt_of_transGen {α : Type*} [Preorder α] {rank : κ → α} {threads : List (Thread κ)}
    (hrank : ∀ t ∈ threads, ∀ l, t.next = some l → ∀ h ∈ t.held, rank h < rank l) {i j : ℕ}
    (hchain : Relation.TransGen (WaitsFor threads) i j) {t u : Thread κ} {l l' : κ}
    (ht : threads[i]? = some t) (hl : t.next = some l) (hu : threads[j]? = some u)
    (hl' : u.next = some l') : rank l < rank l' := by
  induction hchain generalizing u l' with
  | single hwait =>
      obtain ⟨t₁, u₁, l₁, ht₁, hu₁, hl₁, hheld⟩ := hwait
      obtain rfl : t₁ = t := Option.some_inj.1 (ht₁.symm.trans ht)
      obtain rfl : u₁ = u := Option.some_inj.1 (hu₁.symm.trans hu)
      obtain rfl : l₁ = l := Option.some_inj.1 (hl₁.symm.trans hl)
      exact hrank _ (List.mem_of_getElem? hu) l' hl' _ hheld
  | tail _ hwait ih =>
      obtain ⟨t₁, u₁, l₁, ht₁, hu₁, hl₁, hheld⟩ := hwait
      obtain rfl : u₁ = u := Option.some_inj.1 (hu₁.symm.trans hu)
      exact lt_trans (ih ht₁ hl₁) (hrank _ (List.mem_of_getElem? hu) l' hl' _ hheld)

/-- **Locks taken in order exclude a circular wait.** -/
theorem not_circularWait_of_rank {α : Type*} [Preorder α] (rank : κ → α)
    {threads : List (Thread κ)}
    (hrank : ∀ t ∈ threads, ∀ l, t.next = some l → ∀ h ∈ t.held, rank h < rank l) :
    ¬CircularWait threads := by
  rintro ⟨i, hcycle⟩
  -- the thread at which the cycle closes waits for something itself
  have hfirst : ∃ j, WaitsFor threads i j := by
    rcases (Relation.TransGen.head'_iff.1 hcycle) with ⟨j, hwait, -⟩
    exact ⟨j, hwait⟩
  obtain ⟨j, t, u, l, ht, -, hl, -⟩ := hfirst
  exact lt_irrefl _ (rank_lt_of_transGen hrank hcycle ht hl ht hl)

/-! ## Steps -/

variable [DecidableEq κ]

/-- Thread `i` does its next operation. -/
def advance (threads : List (Thread κ)) (i : ℕ) : Option (List (Thread κ)) :=
  match threads[i]? with
  | some ⟨held, .lock l :: todo⟩ =>
      if ∃ u ∈ threads, l ∈ u.held then none else some (threads.set i ⟨l :: held, todo⟩)
  | some ⟨held, .unlock l :: todo⟩ => some (threads.set i ⟨held.filter (· ≠ l), todo⟩)
  | _ => none

/-- What one operation does. -/
theorem advance_cases {threads threads' : List (Thread κ)} {i : ℕ}
    (h : advance threads i = some threads') :
    (∃ held l todo, threads[i]? = some ⟨held, .lock l :: todo⟩ ∧ (∀ u ∈ threads, l ∉ u.held) ∧
      threads' = threads.set i ⟨l :: held, todo⟩) ∨
    ∃ held l todo, threads[i]? = some ⟨held, .unlock l :: todo⟩ ∧
      threads' = threads.set i ⟨held.filter (· ≠ l), todo⟩ := by
  rw [advance] at h
  split at h
  · next held l todo ht =>
      split at h
      · cases h
      · next hfree =>
          cases h
          exact Or.inl ⟨held, l, todo, ht, fun u hu hl => hfree ⟨u, hu, hl⟩, rfl⟩
  · next held l todo ht =>
      cases h
      exact Or.inr ⟨held, l, todo, ht, rfl⟩
  · cases h

/-! ## What a program nests -/

/-- The program takes a lock only with locks held that it may be nested in. -/
def Nests (R : κ → κ → Prop) : List κ → List (LockOp κ) → Prop
  | _, [] => True
  | held, .lock l :: todo => (∀ h ∈ held, R h l) ∧ Nests R (l :: held) todo
  | held, .unlock l :: todo => Nests R (held.filter (· ≠ l)) todo

variable {R : κ → κ → Prop}

/-- The threads keep to the relation, whatever they do. -/
theorem nests_advance {threads threads' : List (Thread κ)} {i : ℕ}
    (hnests : ∀ t ∈ threads, Nests R t.held t.todo) (h : advance threads i = some threads') :
    ∀ t ∈ threads', Nests R t.held t.todo := by
  intro t ht
  rcases advance_cases h with ⟨held, l, todo, hi, -, rfl⟩ | ⟨held, l, todo, hi, rfl⟩
  · rcases List.mem_or_eq_of_mem_set ht with ht | rfl
    · exact hnests t ht
    · exact (hnests _ (List.mem_of_getElem? hi)).2
  · rcases List.mem_or_eq_of_mem_set ht with ht | rfl
    · exact hnests t ht
    · have hold := hnests _ (List.mem_of_getElem? hi)
      exact hold

theorem Nests.next {t : Thread κ} {l : κ} (h : Nests R t.held t.todo) (hl : t.next = some l) :
    ∀ h ∈ t.held, R h l := by
  obtain ⟨held, todo⟩ := t
  match todo with
  | .lock l' :: _ =>
      cases hl
      exact h.1

/-- The critical section of `l`. -/
def locked (l : κ) (ops : List (LockOp κ)) : List (LockOp κ) := .lock l :: ops ++ [.unlock l]

/-- The program may run where `held` is held, and gives back what it takes. -/
def Keeps (R : κ → κ → Prop) (held : List κ) (ops : List (LockOp κ)) : Prop :=
  ∀ rest, Nests R held rest → Nests R held (ops ++ rest)

namespace Keeps

variable {held : List κ} {ops ops' : List (LockOp κ)}

theorem nil : Keeps R held [] := fun _ h => h

theorem append (h : Keeps R held ops) (h' : Keeps R held ops') : Keeps R held (ops ++ ops') := by
  intro rest hrest
  rw [List.append_assoc]
  exact h _ (h' rest hrest)

theorem flatMap {α : Type*} {f : α → List (LockOp κ)} {xs : List α}
    (h : ∀ x ∈ xs, Keeps R held (f x)) : Keeps R held (xs.flatMap f) := by
  induction xs with
  | nil => exact nil
  | cons x xs ih =>
      rw [List.flatMap_cons]
      exact (h x (List.mem_cons_self ..)).append (ih fun y hy => h y (List.mem_cons_of_mem _ hy))

theorem ite {c : Prop} [Decidable c] (h : Keeps R held ops) (h' : Keeps R held ops') :
    Keeps R held (if c then ops else ops') := by
  split
  · exact h
  · exact h'

theorem locked {l : κ} (hheld : ∀ h ∈ held, R h l) (hfree : l ∉ held)
    (h : Keeps R (l :: held) ops) : Keeps R held (locked l ops) := by
  intro rest hrest
  refine ⟨hheld, ?_⟩
  show Nests R (l :: held) (ops ++ [LockOp.unlock l] ++ rest)
  rw [List.append_assoc]
  refine h _ ?_
  have hfilter : (l :: held).filter (· ≠ l) = held := by
    rw [List.filter_cons_of_neg (by simp), List.filter_eq_self]
    exact fun k hk => decide_eq_true fun heq => hfree (heq ▸ hk)
  show Nests R ((l :: held).filter (· ≠ l)) rest
  rwa [hfilter]

theorem nests (h : Keeps R held ops) : Nests R held ops := by
  simpa using h [] trivial

end Keeps

/-! ## Threads that nest -/

/-- The program takes a lock before it gives back `l`. -/
def takesBefore (l : κ) : List (LockOp κ) → Bool
  | [] => false
  | .lock _ :: _ => true
  | .unlock l' :: todo => !decide (l' = l) && takesBefore l todo

/-- The thread holds `l` and will take another lock before it gives `l` back. -/
def Thread.NestsIn (t : Thread κ) (l : κ) : Prop := l ∈ t.held ∧ takesBefore l t.todo = true

instance (t : Thread κ) (l : κ) : Decidable (t.NestsIn l) := inferInstanceAs (Decidable (_ ∧ _))

theorem Thread.nestsIn_of_next {t : Thread κ} {l l' : κ} (hheld : l ∈ t.held)
    (hnext : t.next = some l') : t.NestsIn l := by
  obtain ⟨held, todo⟩ := t
  match todo with
  | .lock _ :: _ => exact ⟨hheld, rfl⟩

/-- A thread begins to nest in `l` only when it takes `l`. -/
theorem nestsIn_advance {threads threads' : List (Thread κ)} {i : ℕ} {l : κ}
    (h : advance threads i = some threads') {t : Thread κ} (ht : t ∈ threads')
    (hnests : t.NestsIn l) :
    (∃ u ∈ threads, u.NestsIn l) ∨
      ∃ held todo, threads[i]? = some ⟨held, .lock l :: todo⟩ ∧ takesBefore l todo = true := by
  rcases advance_cases h with ⟨held, l', todo, hi, -, rfl⟩ | ⟨held, l', todo, hi, rfl⟩
  · rcases List.mem_or_eq_of_mem_set ht with ht | rfl
    · exact Or.inl ⟨t, ht, hnests⟩
    · obtain ⟨hmem, htakes⟩ := hnests
      rcases List.mem_cons.1 hmem with rfl | hmem
      · exact Or.inr ⟨held, todo, hi, htakes⟩
      · exact Or.inl ⟨_, List.mem_of_getElem? hi, hmem, rfl⟩
  · rcases List.mem_or_eq_of_mem_set ht with ht | rfl
    · exact Or.inl ⟨t, ht, hnests⟩
    · obtain ⟨hmem, htakes⟩ := hnests
      obtain ⟨hmem, hne⟩ := List.mem_filter.1 hmem
      refine Or.inl ⟨_, List.mem_of_getElem? hi, hmem, ?_⟩
      have hne' : ¬l' = l := fun heq => by simp [heq] at hne
      simpa [takesBefore, hne'] using htakes

end LockOrder
