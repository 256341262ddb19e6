import Mathlib.Data.List.Induction

set_option autoImplicit false

/-! # Runs of a partial step function

A system is a step function `σ → α → Option σ`: the label `α` says which step is taken (and carries
whatever the environment chooses), `none` says that the step is not enabled. `Run step s as` is the
state after taking the steps `as` one after the other. Everything proved about *every run* of the
systems below goes through the two induction rules of this file: `Run.invariant` for a property
that each step preserves, and `Run.invariant_of_along` for one that only the steps satisfying a
condition preserve. -/

namespace Transition

variable {σ α : Type*}

/-- The state reached from `s` by the steps `as`, if each of them is enabled in turn. -/
def Run (step : σ → α → Option σ) (s : σ) (as : List α) : Option σ :=
  as.foldlM step s

variable {step : σ → α → Option σ}

@[simp] theorem run_nil (s : σ) : Run step s [] = some s := rfl

theorem run_cons (s : σ) (a : α) (as : List α) :
    Run step s (a :: as) = (step s a).bind (fun t => Run step t as) := by
  simp only [Run, List.foldlM_cons]
  rfl

theorem run_append (s : σ) (as bs : List α) :
    Run step s (as ++ bs) = (Run step s as).bind (fun t => Run step t bs) := by
  simp only [Run, List.foldlM_append]
  rfl

/-- A run that ends with the step `a` is a run followed by that step. -/
theorem run_concat {s u : σ} {as : List α} {a : α} :
    Run step s (as ++ [a]) = some u ↔ ∃ t, Run step s as = some t ∧ step t a = some u := by
  rw [run_append, Option.bind_eq_some_iff]
  refine exists_congr (fun t => and_congr_right ?_)
  intro _
  rw [run_cons, Option.bind_eq_some_iff]
  simp

/-- Induction over a run from its start, with the steps taken so far in view. -/
theorem Run.induct {s₀ : σ} {P : List α → σ → Prop} (hinit : P [] s₀)
    (hstep : ∀ as s a t, Run step s₀ as = some s → P as s → step s a = some t → P (as ++ [a]) t)
    {as : List α} {s : σ} (h : Run step s₀ as = some s) : P as s := by
  induction as using List.reverseRecOn generalizing s with
  | nil =>
      cases h
      exact hinit
  | append_singleton as a ih =>
      obtain ⟨t, ht, hts⟩ := run_concat.1 h
      exact hstep as t a s ht (ih ht) hts

/-- A property of the first state that every step preserves holds in every state reached. -/
theorem Run.invariant {Inv : σ → Prop} (hstep : ∀ s a t, Inv s → step s a = some t → Inv t)
    {s₀ s : σ} {as : List α} (hinit : Inv s₀) (h : Run step s₀ as = some s) : Inv s :=
  Run.induct (P := fun _ s => Inv s) hinit (fun _ s a t _ hs hst => hstep s a t hs hst) h

/-! ## Runs whose steps all meet a condition

Most results are about runs in which something does not happen. The condition is on a step and the
state before it. -/

/-- Every step that the run `as` takes from `s` meets the condition `Ok` in the state before it. -/
def Along (step : σ → α → Option σ) (Ok : σ → α → Prop) : σ → List α → Prop
  | _, [] => True
  | s, a :: as => Ok s a ∧ (match step s a with | some t => Along step Ok t as | none => True)

variable {Ok : σ → α → Prop}

instance decidableAlong [∀ s a, Decidable (Ok s a)] :
    ∀ (s : σ) (as : List α), Decidable (Along step Ok s as)
  | _, [] => isTrue trivial
  | s, a :: as =>
      have : Decidable (match step s a with | some t => Along step Ok t as | none => True) :=
        match step s a with
        | some t => decidableAlong t as
        | none => isTrue trivial
      inferInstanceAs (Decidable (Ok s a ∧ _))

theorem along_cons {s t : σ} {a : α} {as : List α} (h : step s a = some t) :
    Along step Ok s (a :: as) ↔ Ok s a ∧ Along step Ok t as := by
  simp only [Along, h]

/-- A condition that the steps meet in every state. -/
theorem along_of_forall {as : List α} (h : ∀ a ∈ as, ∀ s, Ok s a) (s : σ) : Along step Ok s as := by
  induction as generalizing s with
  | nil => trivial
  | cons a as ih =>
      obtain ⟨ha, has⟩ := List.forall_mem_cons.1 h
      refine ⟨ha s, ?_⟩
      cases step s a with
      | none => trivial
      | some t => exact ih has t

theorem along_concat {s t : σ} {as : List α} {a : α} (h : Run step s as = some t) :
    Along step Ok s (as ++ [a]) ↔ Along step Ok s as ∧ Ok t a := by
  induction as generalizing s with
  | nil =>
      cases h
      simp only [List.nil_append, Along, true_and]
      cases step t a <;> simp
  | cons b as ih =>
      rw [run_cons, Option.bind_eq_some_iff] at h
      obtain ⟨u, hu, hut⟩ := h
      rw [List.cons_append, along_cons hu, along_cons hu, ih hut, and_assoc]

/-- The condition holds along the first part of a run along which it holds. -/
theorem along_initial {s : σ} {as bs : List α} (hinitial : bs <+: as) (h : Along step Ok s as) :
    Along step Ok s bs := by
  induction bs generalizing s as with
  | nil => trivial
  | cons b bs ih =>
      obtain ⟨as, rfl⟩ := hinitial
      rw [List.cons_append, Along] at h
      refine ⟨h.1, ?_⟩
      cases hstep : step s b with
      | none => trivial
      | some t =>
          rw [hstep] at h
          exact ih (List.prefix_append bs as) h.2

/-- A property that the steps meeting `Ok` preserve holds in every state of a run made of them. -/
theorem Run.invariant_of_along {Inv : σ → Prop}
    (hstep : ∀ s a t, Inv s → Ok s a → step s a = some t → Inv t)
    {s₀ s : σ} {as : List α} (hinit : Inv s₀) (hok : Along step Ok s₀ as)
    (h : Run step s₀ as = some s) : Inv s := by
  revert hok
  refine Run.induct (P := fun as s => Along step Ok s₀ as → Inv s) (fun _ => hinit) ?_ h
  intro as s a t hs ih hst hok
  rw [along_concat hs] at hok
  exact hstep s a t (ih hok.1) hok.2 hst

/-! ## Simulation

Each step of one system that meets a condition is matched by a run of another; then so is each run
made of such steps. -/

theorem run_singleton (s : σ) (a : α) : Run step s [a] = step s a := by
  rw [run_cons]
  cases step s a <;> rfl

theorem Run.simulate {τ β : Type*} {step' : τ → β → Option τ} {R : σ → τ → Prop}
    (hstep : ∀ s a t s', R s s' → Ok s a → step s a = some t →
      ∃ bs t', Run step' s' bs = some t' ∧ R t t')
    {s₀ s : σ} {s₀' : τ} {as : List α} (hinit : R s₀ s₀') (hok : Along step Ok s₀ as)
    (h : Run step s₀ as = some s) : ∃ bs s', Run step' s₀' bs = some s' ∧ R s s' := by
  revert hok
  refine Run.induct (P := fun as s => Along step Ok s₀ as →
    ∃ bs s', Run step' s₀' bs = some s' ∧ R s s') (fun _ => ⟨[], s₀', rfl, hinit⟩) ?_ h
  intro as s a t hs ih hst hok
  rw [along_concat hs] at hok
  obtain ⟨bs, s', hbs, hR⟩ := ih hok.1
  obtain ⟨cs, t', hcs, hR'⟩ := hstep s a t s' hR hok.2 hst
  exact ⟨bs ++ cs, t', by rw [run_append, hbs, Option.bind_some, hcs], hR'⟩

/-! ## Runs that come to an end -/

/-- A run is no longer than what each of its steps takes off a measure. -/
theorem Run.length_add_le {P : σ → Prop} {μ : σ → ℕ}
    (hstep : ∀ s a t, P s → step s a = some t → P t ∧ μ t < μ s) {s₀ s : σ} {as : List α}
    (hinit : P s₀) (h : Run step s₀ as = some s) : P s ∧ as.length + μ s ≤ μ s₀ := by
  refine Run.induct (P := fun as s => P s ∧ as.length + μ s ≤ μ s₀) ⟨hinit, by simp⟩ ?_ h
  rintro as s a t - ⟨hs, hle⟩ hst
  obtain ⟨ht, hlt⟩ := hstep s a t hs hst
  refine ⟨ht, ?_⟩
  rw [List.length_append, List.length_singleton]
  omega

end Transition
