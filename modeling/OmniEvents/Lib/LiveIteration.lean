import OmniEvents.Lib.Transition
import Mathlib.Data.List.Nodup

set_option autoImplicit false

/-! # A loop over a set from which others erase

`for(i=begin(); i!=end(); ++i) body(*i)` goes through an ordered set without a lock, while other
threads may erase any element that is not active. The body of the loop can itself make the element it
stands on inactive, and it can raise, which ends the loop. An iterator is `Stale` when its element is
erased under it; the loop then has no defined next step.

`sound_iff` says for which sets and bodies no schedule does harm: those in which no element that the
iterator comes to can be erased while it stands there, and no exception passes over another one. -/

namespace LiveIteration

open Transition

variable {κ σ : Type*}

/-- The keys of the elements of a set, in the order of the set. -/
abbrev keys (es : List (κ × σ)) : List κ := es.map Prod.fst

/-- Where the loop is: at an element, for which the body has run or not, or at its end. -/
inductive Cursor (κ : Type*) where
  | standing (k : κ) (ran : Bool)
  | finished
  deriving DecidableEq, Repr

/-- A loop over a container that others erase from meanwhile. -/
structure Loop (κ σ : Type*) where
  present : List (κ × σ)
  cursor : Cursor κ
  visited : List κ
  deriving DecidableEq, Repr

/-- A step of the loop, or of somebody else. -/
inductive Action (κ : Type*) where
  /-- The loop takes its next step. -/
  | loop
  /-- Another thread erases an element. -/
  | erase (k : κ)
  deriving DecidableEq, Repr

namespace Loop

/-- The iterator stands on an element that is no longer in the set. -/
def Stale (s : Loop κ σ) : Prop :=
  match s.cursor with
  | .standing k _ => k ∉ keys s.present
  | .finished => False

end Loop

/-- `begin()`, or the element after one: the first of the elements that follow. -/
def cursorAt : List (κ × σ) → Cursor κ
  | [] => .finished
  | e :: _ => .standing e.1 false

/-- The loop is about to visit the first element. -/
def start (es : List (κ × σ)) : Loop κ σ := ⟨es, cursorAt es, []⟩

variable {body : σ → σ × Bool}

/-- What the body leaves behind of an element. -/
def ran (body : σ → σ × Bool) (e : κ × σ) : κ × σ := (e.1, (body e.2).1)

@[simp] theorem keys_map_ran (pre : List (κ × σ)) : keys (pre.map (ran body)) = keys pre := by
  simp [keys, ran]

theorem notMem_keys {pre post : List (κ × σ)} {e : κ × σ} (h : (keys (pre ++ e :: post)).Nodup) :
    e.1 ∉ keys pre := by
  intro hmem
  rw [keys, List.map_append, List.map_cons] at h
  exact (List.disjoint_of_nodup_append h) hmem List.mem_cons_self

/-- Every element is active and stays so, and its body does not raise, unless it is the last one. -/
def Steady (body : σ → σ × Bool) (active : σ → Bool) (es : List (κ × σ)) : Prop :=
  ∀ pre e post, es = pre ++ e :: post →
    active e.2 = true ∧
      ((body e.2).2 = true ∧ post = [] ∨ (body e.2).2 = false ∧ active (body e.2).1 = true)

variable {active : σ → Bool} {es : List (κ × σ)}

/-- All elements that the loop has passed are active, and so are those to come. -/
theorem Steady.active_of_mem (h : Steady body active es) {pre post : List (κ × σ)} {e : κ × σ}
    (hes : es = pre ++ e :: post) :
    (∀ d ∈ pre.map (ran body), active d.2 = true) ∧ ∀ d ∈ e :: post, active d.2 = true := by
  constructor
  · intro d hd
    obtain ⟨c, hc, rfl⟩ := List.mem_map.1 hd
    obtain ⟨xs, ys, rfl⟩ := List.append_of_mem hc
    -- something follows, so the body has not raised
    rcases (h xs c (ys ++ e :: post) (by simp [hes])).2 with ⟨-, hlast⟩ | ⟨-, hactive⟩
    · simp at hlast
    · exact hactive
  · intro d hd
    obtain ⟨xs, ys, hsplit⟩ := List.append_of_mem hd
    exact (h (pre ++ xs) d ys (by rw [hes, hsplit, List.append_assoc])).1

/-- A body that makes its element inactive, as it must be active before, leaves room for one element,
    and it has to raise there. -/
theorem steady_of_deactivating (hbody : ∀ x, active x = true → active (body x).1 = false) :
    Steady body active es ↔
      es = [] ∨ ∃ e, es = [e] ∧ active e.2 = true ∧ (body e.2).2 = true := by
  constructor
  · intro h
    cases es with
    | nil => exact .inl rfl
    | cons e es =>
        obtain ⟨hactive, hrest⟩ := h [] e es rfl
        rcases hrest with ⟨hraised, rfl⟩ | ⟨-, hstays⟩
        · exact .inr ⟨e, rfl, hactive, hraised⟩
        · exact Bool.noConfusion ((hbody e.2 hactive).symm.trans hstays)
  · rintro (rfl | ⟨e, rfl, hactive, hraised⟩)
    · intro pre e post hes
      simp at hes
    · intro pre d post hes
      obtain ⟨rfl, rfl, rfl⟩ : pre = [] ∧ e = d ∧ post = [] := by
        cases pre <;> simp_all
      exact ⟨hactive, .inl ⟨hraised, rfl⟩⟩

/-- A body that neither makes its element inactive nor raises asks for active elements only. -/
theorem steady_of_harmless (hactive : ∀ x, active (body x).1 = active x)
    (hraised : ∀ x, (body x).2 = false) :
    Steady body active es ↔ ∀ e ∈ es, active e.2 = true := by
  constructor
  · intro h e he
    obtain ⟨pre, post, rfl⟩ := List.append_of_mem he
    exact (h pre e post rfl).1
  · rintro h pre e post rfl
    have he := h e (by simp)
    exact ⟨he, .inr ⟨hraised e.2, (hactive e.2).trans he⟩⟩

/-- The loop stands before `e`, with all elements still in the set. -/
def standingAt (body : σ → σ × Bool) (pre : List (κ × σ)) (e : κ × σ) (post : List (κ × σ)) :
    Loop κ σ :=
  ⟨pre.map (ran body) ++ e :: post, .standing e.1 false, keys pre⟩

/-- The body has run for `e`, and the set is what it and those before it have left. -/
def ranAt (body : σ → σ × Bool) (pre : List (κ × σ)) (e : κ × σ) (post : List (κ × σ))
    (cursor : Cursor κ) : Loop κ σ :=
  ⟨pre.map (ran body) ++ ran body e :: post, cursor, keys pre ++ [e.1]⟩

/-- Where a loop over a steady set can be. -/
inductive Reachable (body : σ → σ × Bool) (es : List (κ × σ)) : Loop κ σ → Prop
  | standing {pre e post} (h : es = pre ++ e :: post) : Reachable body es (standingAt body pre e post)
  | ran {pre e post} (h : es = pre ++ e :: post) (hraised : (body e.2).2 = false) :
      Reachable body es (ranAt body pre e post (.standing e.1 true))
  | finished {s} (h : s.cursor = .finished) (hvisited : s.visited = keys es) : Reachable body es s

theorem reachable_start : Reachable body es (start es) := by
  cases es with
  | nil => exact .finished rfl rfl
  | cons e es =>
      show Reachable body (e :: es) (standingAt body [] e es)
      exact .standing rfl

variable [DecidableEq κ]

/-- What follows the element with the key `k`. -/
def after (k : κ) : List (κ × σ) → List (κ × σ)
  | [] => []
  | e :: es => if e.1 = k then es else after k es

/-- The element with the key `k` becomes `x`. -/
def replace (k : κ) (x : σ) : List (κ × σ) → List (κ × σ)
  | [] => []
  | e :: es => if e.1 = k then (k, x) :: es else e :: replace k x es

/-- One step. `body` gives the element that it leaves behind, and whether it raises. -/
def step (body : σ → σ × Bool) (active : σ → Bool) (s : Loop κ σ) :
    Action κ → Option (Loop κ σ)
  | .loop =>
      match s.cursor with
      | .finished => none
      | .standing k false =>
          (s.present.lookup k).map fun x =>
            { present := replace k (body x).1 s.present
              cursor := if (body x).2 then .finished else .standing k true
              visited := s.visited ++ [k] }
      | .standing k true =>
          (s.present.lookup k).map fun _ => { s with cursor := cursorAt (after k s.present) }
  | .erase k =>
      match s.present.lookup k with
      | none => none
      | some x =>
          if active x then none
          else some { s with present := s.present.filter (fun e => e.1 ≠ k) }

/-- No schedule makes the iterator stale, and when the loop is over, every element has been visited
    once but those erased before their turn. -/
def Sound (body : σ → σ × Bool) (active : σ → Bool) (es : List (κ × σ)) : Prop :=
  ∀ acts s, Run (step body active) (start es) acts = some s →
    ¬s.Stale ∧ (s.cursor = .finished →
      ∀ k ∈ keys es, s.visited.count k ≤ 1 ∧ (k ∉ s.visited → k ∉ keys s.present))

/-! ## Looking at one element -/

section Element

variable {pre post : List (κ × σ)} {e : κ × σ}

theorem lookup_append (h : e.1 ∉ keys pre) : (pre ++ e :: post).lookup e.1 = some e.2 := by
  induction pre with
  | nil => exact List.lookup_cons_self
  | cons d pre ih =>
      rw [keys, List.map_cons, List.mem_cons, not_or] at h
      rw [List.cons_append, List.lookup_cons, beq_false_of_ne h.1]
      exact ih h.2

theorem after_append (h : e.1 ∉ keys pre) : after e.1 (pre ++ e :: post) = post := by
  induction pre with
  | nil => simp [after]
  | cons d pre ih =>
      rw [keys, List.map_cons, List.mem_cons, not_or] at h
      rw [List.cons_append, after, if_neg (Ne.symm h.1)]
      exact ih h.2

theorem replace_append (h : e.1 ∉ keys pre) (x : σ) :
    replace e.1 x (pre ++ e :: post) = pre ++ (e.1, x) :: post := by
  induction pre with
  | nil => simp [replace]
  | cons d pre ih =>
      rw [keys, List.map_cons, List.mem_cons, not_or] at h
      rw [List.cons_append, replace, if_neg (Ne.symm h.1), ih h.2, List.cons_append]

theorem mem_of_lookup {es : List (κ × σ)} {k : κ} {x : σ} (h : es.lookup k = some x) :
    (k, x) ∈ es := by
  induction es with
  | nil => cases h
  | cons d es ih =>
      rw [List.lookup_cons] at h
      split at h
      · next hk =>
          cases h
          rw [beq_iff_eq.1 hk]
          exact List.mem_cons_self
      · exact List.mem_cons_of_mem d (ih h)

end Element

/-! ## A loop that nobody disturbs -/

variable (body active) in
theorem step_standingAt {pre post : List (κ × σ)} {e : κ × σ}
    (h : (keys (pre ++ e :: post)).Nodup) :
    step body active (standingAt body pre e post) .loop
      = some (ranAt body pre e post
          (if (body e.2).2 then .finished else .standing e.1 true)) := by
  have hmem : e.1 ∉ keys (pre.map (ran body)) := by
    rw [keys_map_ran]
    exact notMem_keys h
  simp only [step, standingAt, lookup_append hmem, Option.map_some, replace_append hmem]
  rfl

variable (body active) in
theorem step_ranAt {pre post : List (κ × σ)} {e : κ × σ} (h : (keys (pre ++ e :: post)).Nodup) :
    step body active (ranAt body pre e post (.standing e.1 true)) .loop
      = some (ranAt body pre e post (cursorAt post)) := by
  have hmem : (ran body e).1 ∉ keys (pre.map (ran body)) := by
    rw [keys_map_ran]
    show e.1 ∉ keys pre
    exact notMem_keys h
  have hlookup := @lookup_append _ _ _ (pre.map (ran body)) post (ran body e) hmem
  have hafter := @after_append _ _ _ (pre.map (ran body)) post (ran body e) hmem
  simp only [ran] at hlookup hafter
  simp only [step, ranAt, ran, hlookup, Option.map_some, hafter]

/-! ## Steady sets are safe

A set is steady if its elements are active and the bodies leave them so, and none raises but the
last. Then nothing is ever erased under the cursor. -/

/-- Nothing can be erased while everything is active. -/
theorem step_erase_of_active {s : Loop κ σ} (h : ∀ d ∈ s.present, active d.2 = true) (k : κ) :
    step body active s (.erase k) = none := by
  simp only [step]
  cases hk : s.present.lookup k with
  | none => rfl
  | some x => simp [h _ (mem_of_lookup hk)]

theorem Reachable.step (h : Steady body active es) (hkeys : (keys es).Nodup) {s t : Loop κ σ}
    (hs : Reachable body es s) {a : Action κ} (hst : step body active s a = some t) :
    Reachable body es t := by
  cases hs with
  | @standing pre e post hes =>
      have hnodup : (keys (pre ++ e :: post)).Nodup := hes ▸ hkeys
      obtain ⟨hpre, hpost⟩ := h.active_of_mem hes
      cases a with
      | erase k =>
          rw [step_erase_of_active] at hst
          · cases hst
          · intro d hd
            exact (List.mem_append.1 hd).elim (hpre d) (hpost d)
      | loop =>
          rw [step_standingAt body active hnodup] at hst
          cases hst
          rcases (h pre e post hes).2 with ⟨hraised, rfl⟩ | ⟨hraised, -⟩
          · rw [if_pos hraised]
            exact .finished rfl (by simp [ranAt, keys, hes])
          · rw [hraised]
            exact .ran hes hraised
  | @ran pre e post hes hraised =>
      have hnodup : (keys (pre ++ e :: post)).Nodup := hes ▸ hkeys
      obtain ⟨hpre, hpost⟩ := h.active_of_mem hes
      cases a with
      | erase k =>
          rw [step_erase_of_active] at hst
          · cases hst
          · intro d hd
            rcases List.mem_append.1 hd with hd | hd
            · exact hpre d hd
            rcases List.mem_cons.1 hd with rfl | hd
            · rcases (h pre e post hes).2 with ⟨hraised', -⟩ | ⟨-, hactive⟩
              · exact Bool.noConfusion (hraised.symm.trans hraised')
              · exact hactive
            · exact hpost d (List.mem_cons_of_mem e hd)
      | loop =>
          rw [step_ranAt body active hnodup] at hst
          cases hst
          cases post with
          | nil => exact .finished rfl (by simp [ranAt, keys, hes])
          | cons d post =>
              have hnext : Reachable body es (standingAt body (pre ++ [e]) d post) :=
                .standing (by simp [hes])
              simpa [standingAt, ranAt, cursorAt, keys] using hnext
  | finished hcursor hvisited =>
      cases a with
      | erase k =>
          simp only [LiveIteration.step] at hst
          split at hst
          · cases hst
          · split at hst
            · cases hst
            · cases hst
              exact .finished hcursor hvisited
      | loop =>
          simp only [LiveIteration.step, hcursor] at hst
          cases hst

theorem Steady.sound (h : Steady body active es) (hkeys : (keys es).Nodup) :
    Sound body active es := by
  intro acts s hrun
  have hs : Reachable body es s :=
    Run.invariant (fun _ _ _ hs hst => hs.step h hkeys hst) reachable_start hrun
  cases hs with
  | standing hes => exact ⟨fun hstale => hstale (by simp [standingAt, keys]), nofun⟩
  | ran hes _ => exact ⟨fun hstale => hstale (by simp [ranAt, LiveIteration.ran, keys]), nofun⟩
  | finished hcursor hvisited =>
      refine ⟨?_, ?_⟩
      · intro hstale
        unfold Loop.Stale at hstale
        rw [hcursor] at hstale
        exact hstale
      · intro _ k hk
        rw [hvisited]
        exact ⟨List.nodup_iff_count_le_one.1 hkeys k, fun hnot => absurd hk hnot⟩

/-! ## Other sets are not

Otherwise some schedule erases the element that the cursor stands on, or an exception ends the loop
before the last element. -/

variable (body active) in
/-- The loop comes to every element before which no body raises. -/
theorem exists_run_standingAt (hkeys : (keys es).Nodup) (pre : List (κ × σ)) :
    ∀ e post, es = pre ++ e :: post → (∀ d ∈ pre, (body d.2).2 = false) →
      ∃ acts, Run (step body active) (start es) acts = some (standingAt body pre e post) := by
  induction pre using List.reverseRecOn with
  | nil =>
      rintro e post rfl _
      exact ⟨[], rfl⟩
  | append_singleton pre d ih =>
      intro e post hes hraised
      have hes' : es = pre ++ d :: e :: post := by simp [hes]
      have hnodup : (keys (pre ++ d :: e :: post)).Nodup := hes' ▸ hkeys
      obtain ⟨acts, hrun⟩ := ih d (e :: post) hes'
        (fun c hc => hraised c (List.mem_append_left _ hc))
      have hd : (body d.2).2 = false := hraised d (by simp)
      have hran := step_standingAt body active hnodup
      have hnext := step_ranAt body active hnodup
      rw [hd] at hran
      refine ⟨acts ++ [.loop] ++ [.loop], run_concat.2 ⟨_, run_concat.2 ⟨_, hrun, hran⟩, ?_⟩⟩
      rw [if_neg (by decide), hnext]
      simp [standingAt, ranAt, cursorAt, keys]

/-- An inactive element under the iterator can be erased there. -/
theorem not_sound_of_erase {acts : List (Action κ)} {s : Loop κ σ} {k : κ} {x : σ} {b : Bool}
    (hrun : Run (step body active) (start es) acts = some s) (hcursor : s.cursor = .standing k b)
    (hlookup : s.present.lookup k = some x) (hinactive : active x = false) :
    ¬Sound body active es := by
  intro hsound
  have herase : step body active s (.erase k)
      = some { s with present := s.present.filter (fun e => e.1 ≠ k) } := by
    simp [step, hlookup, hinactive]
  refine (hsound _ _ (run_concat.2 ⟨s, hrun, herase⟩)).1 ?_
  unfold Loop.Stale
  rw [hcursor]
  simp [keys]

theorem Sound.steady (h : Sound body active es) (hkeys : (keys es).Nodup) :
    Steady body active es := by
  -- the bodies before an element do not raise, since it is visited
  have key : ∀ pre e post, es = pre ++ e :: post → (∀ d ∈ pre, (body d.2).2 = false) →
      active e.2 = true ∧
        ((body e.2).2 = true ∧ post = [] ∨ (body e.2).2 = false ∧ active (body e.2).1 = true) := by
    intro pre e post hes hraised
    have hnodup : (keys (pre ++ e :: post)).Nodup := hes ▸ hkeys
    obtain ⟨acts, hrun⟩ := exists_run_standingAt body active hkeys pre e post hes hraised
    have hmem : e.1 ∉ keys (pre.map (ran body)) := by
      rw [keys_map_ran]
      exact notMem_keys hnodup
    have hran := run_concat.2 ⟨_, hrun, step_standingAt body active hnodup⟩
    refine ⟨?_, ?_⟩
    · by_contra hinactive
      exact not_sound_of_erase hrun rfl (lookup_append hmem) (by simpa using hinactive) h
    cases hbody : (body e.2).2 with
    | false =>
        refine .inr ⟨rfl, ?_⟩
        by_contra hinactive
        rw [hbody] at hran
        have hlookup : (pre.map (ran body) ++ ran body e :: post).lookup e.1 = some (body e.2).1 :=
          @lookup_append _ _ _ (pre.map (ran body)) post (ran body e) hmem
        exact not_sound_of_erase hran rfl hlookup (by simpa using hinactive) h
    | true =>
        refine .inl ⟨rfl, ?_⟩
        rw [hbody] at hran
        cases post with
        | nil => rfl
        | cons d post =>
            -- the loop is over, and has not come to the next element
            have hd : d.1 ∈ keys es := by simp [hes, keys]
            refine absurd ?_ (((h _ _ hran).2 rfl d.1 hd).2 ?_)
            · simp [ranAt, keys]
            · have hdisjoint : d.1 ∉ keys (pre ++ [e]) := by
                have hsplit : (keys ((pre ++ [e]) ++ d :: post)).Nodup := by simpa using hnodup
                exact notMem_keys hsplit
              simpa [ranAt, keys] using hdisjoint
  have hraised : ∀ pre e post, es = pre ++ e :: post → ∀ d ∈ pre, (body d.2).2 = false := by
    intro pre
    induction pre using List.reverseRecOn with
    | nil => exact fun _ _ _ d hd => by cases hd
    | append_singleton pre c ih =>
        intro e post hes d hd
        have hes' : es = pre ++ c :: e :: post := by simp [hes]
        rcases List.mem_append.1 hd with hd | hd
        · exact ih c (e :: post) hes' d hd
        · rw [List.mem_singleton.1 hd]
          rcases (key pre c (e :: post) hes' (ih c (e :: post) hes')).2 with ⟨-, hlast⟩ | ⟨hc, -⟩
          · cases hlast
          · exact hc
  exact fun pre e post hes => key pre e post hes (hraised pre e post hes)

/-- **No schedule does harm exactly if the set is steady.** -/
theorem sound_iff (hkeys : (keys es).Nodup) : Sound body active es ↔ Steady body active es :=
  ⟨fun h => h.steady hkeys, fun h => h.sound hkeys⟩

end LiveIteration
