import Mathlib.Data.List.Induction

set_option autoImplicit false

/-! # Statements that may raise

A statement changes the state, or raises and leaves it as it is. The statements of a list are carried
out one after the other until one raises; what those before it have done stays. -/

namespace Attempt

variable {σ ε : Type*}

/-- The state in the end, and the exception that has stopped the list, if any. -/
def exec : List (σ → Except ε σ) → σ → σ × Option ε
  | [], s => (s, none)
  | f :: fs, s =>
      match f s with
      | .error ex => (s, some ex)
      | .ok t => exec fs t

variable {f : σ → Except ε σ} {fs gs : List (σ → Except ε σ)} {s t : σ} {ex : ε}

@[simp] theorem exec_nil : exec ([] : List (σ → Except ε σ)) s = (s, none) := rfl

theorem exec_cons_of_ok (h : f s = .ok t) : exec (f :: fs) s = exec fs t := by rw [exec, h]

theorem exec_cons_of_error (h : f s = .error ex) : exec (f :: fs) s = (s, some ex) := by
  rw [exec, h]

theorem exec_append_of_raised (h : (exec fs s).2 = some ex) : exec (fs ++ gs) s = exec fs s := by
  induction fs generalizing s with
  | nil => cases h
  | cons f fs ih =>
      cases hf : f s with
      | error ex' => rw [List.cons_append, exec_cons_of_error hf, exec_cons_of_error hf]
      | ok t =>
          rw [exec_cons_of_ok hf] at h
          rw [List.cons_append, exec_cons_of_ok hf, exec_cons_of_ok hf, ih h]

theorem exec_append_of_ok (h : exec fs s = (t, none)) : exec (fs ++ gs) s = exec gs t := by
  induction fs generalizing s with
  | nil =>
      cases h
      rfl
  | cons f fs ih =>
      cases hf : f s with
      | error ex => rw [exec_cons_of_error hf] at h; cases h
      | ok u =>
          rw [exec_cons_of_ok hf] at h
          rw [List.cons_append, exec_cons_of_ok hf, ih h]

/-- What every statement keeps is kept wherever the list stops. -/
theorem exec_induct {P : σ → Prop} (hkeep : ∀ f ∈ fs, ∀ s t, P s → f s = .ok t → P t) (hs : P s) :
    P (exec fs s).1 := by
  induction fs generalizing s with
  | nil => exact hs
  | cons f fs ih =>
      obtain ⟨hf, hfs⟩ := List.forall_mem_cons.1 hkeep
      cases h : f s with
      | error ex => rwa [exec_cons_of_error h]
      | ok t =>
          rw [exec_cons_of_ok h]
          exact ih hfs (hf s t hs h)

theorem raised_cons_eq_none :
    (exec (f :: fs) s).2 = none ↔ ∃ t, f s = .ok t ∧ (exec fs t).2 = none := by
  cases h : f s with
  | error ex => simp [exec_cons_of_error h]
  | ok t => simp [exec_cons_of_ok h]

/-! ## What comes after -/

/-- A part that has raised is all there is; after any other comes `k`, which may have no value. -/
def following (r : σ × Option ε) (k : σ → Option (σ × Option ε)) : Option (σ × Option ε) :=
  match r with
  | (s, some ex) => some (s, some ex)
  | (s, none) => k s

variable {r out : σ × Option ε} {k k' : σ → Option (σ × Option ε)}

theorem following_of_raised (h : r.2 ≠ none) : following r k = some r := by
  obtain ⟨s, raised⟩ := r
  cases raised with
  | none => exact absurd rfl h
  | some ex => rfl

theorem following_of_none (h : r.2 = none) : following r k = k r.1 := by
  obtain ⟨s, raised⟩ := r
  obtain rfl : raised = none := h
  rfl

theorem following_bind :
    (following r k).bind (fun r => following r k')
      = following r fun s => (k s).bind fun r => following r k' := by
  obtain ⟨s, raised⟩ := r
  cases raised with
  | none => rfl
  | some ex => rfl

theorem following_exec_append (fs gs : List (σ → Except ε σ)) (s : σ)
    (k : σ → Option (σ × Option ε)) :
    following (exec (fs ++ gs) s) k
      = following (exec fs s) fun s => following (exec gs s) k := by
  cases hexec : exec fs s with
  | mk t raised =>
      cases raised with
      | none =>
          rw [exec_append_of_ok hexec]
          rfl
      | some ex =>
          rw [exec_append_of_raised (congrArg Prod.snd hexec)]
          exact congrArg (following · k) hexec

/-- A relation to the state in the end that `k` keeps holds after the part as well. -/
theorem of_following {P : σ → Prop} (hk : ∀ s, k s = some out → P s) (hout : P out.1)
    (h : following r k = some out) : P r.1 := by
  by_cases hraised : r.2 = none
  · rw [following_of_none hraised] at h
    exact hk r.1 h
  · rw [following_of_raised hraised] at h
    obtain rfl := Option.some.inj h
    exact hout

end Attempt
