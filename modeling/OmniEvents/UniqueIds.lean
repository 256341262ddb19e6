import OmniEvents.RestartChannel
import OmniEvents.Lib.Transition

set_option autoImplicit false

/-! # Unique ids

The objects of all lives of the server share one log file, and their ids are made by `newUniqueId` of
a counter that begins anew in each life, the process id and the time. A thread reads the clock before
it takes the lock; others may pass it in between, and the clock may be set back. -/

namespace OmniEvents

open Transition

/-! ## The text of an id

The three numbers are printed with dots between, so they can be read back from the text: different
numbers give different ids. -/

theorem mem_toDigits {b : ℕ} (hb : 1 < b) {n : ℕ} {c : Char} (hc : c ∈ Nat.toDigits b n) :
    ∃ m < b, c = m.digitChar := by
  induction n using Nat.strong_induction_on with
  | _ n ih =>
      rw [Nat.toDigits_eq_if hb] at hc
      split at hc
      · next hlt => exact ⟨n, hlt, List.mem_singleton.1 hc⟩
      · next hle =>
          rcases List.mem_append.1 hc with hc | hc
          · exact ih (n / b) (Nat.div_lt_self (by omega) hb) hc
          · exact ⟨n % b, Nat.mod_lt n (by omega), List.mem_singleton.1 hc⟩

theorem toDigits_inj {b : ℕ} (hb : 1 < b) (hb16 : b ≤ 16) {n m : ℕ}
    (h : Nat.toDigits b n = Nat.toDigits b m) : n = m := by
  have hdigit : ∀ i < 16, ∀ j < 16, i.digitChar = j.digitChar → i = j := by decide
  induction n using Nat.strong_induction_on generalizing m with
  | _ n ih =>
      have hshort : ∀ {n m : ℕ}, n < b → ¬ m < b → Nat.toDigits b n ≠ Nat.toDigits b m := by
        intro n m hn hm heq
        rw [Nat.toDigits_eq_if hb, if_pos hn, Nat.toDigits_eq_if hb, if_neg hm] at heq
        have hlength := congrArg List.length heq
        have hpos := List.length_pos_iff.2 (Nat.toDigits_ne_nil (b := b) (n := m / b))
        simp only [List.length_singleton, List.length_append] at hlength
        omega
      by_cases hn : n < b <;> by_cases hm : m < b
      · rw [Nat.toDigits_eq_if hb, if_pos hn, Nat.toDigits_eq_if hb, if_pos hm] at h
        exact hdigit n (by omega) m (by omega) (List.singleton_inj.1 h)
      · exact absurd h (hshort hn hm)
      · exact absurd h.symm (hshort hm hn)
      · have hlong : ∀ {n : ℕ}, ¬ n < b →
            Nat.toDigits b n = Nat.toDigits b (n / b) ++ [(n % b).digitChar] := by
          intro n hn
          rw [Nat.toDigits_eq_if hb, if_neg hn]
        rw [hlong hn, hlong hm] at h
        obtain ⟨hquot, hrem⟩ := List.append_inj' h rfl
        have hquot := ih (n / b) (Nat.div_lt_self (by omega) hb) hquot
        have hrem := hdigit (n % b) (lt_of_lt_of_le (Nat.mod_lt n (by omega)) hb16) (m % b)
          (lt_of_lt_of_le (Nat.mod_lt m (by omega)) hb16) (List.singleton_inj.1 hrem)
        rw [← Nat.div_add_mod n b, ← Nat.div_add_mod m b, hquot, hrem]

theorem append_dot_inj {x x' z z' : Str} (hx : '.' ∉ x) (hx' : '.' ∉ x')
    (h : x ++ '.' :: z = x' ++ '.' :: z') : x = x' ∧ z = z' := by
  induction x generalizing x' with
  | nil =>
      cases x' with
      | nil => exact ⟨rfl, (List.cons.inj h).2⟩
      | cons c x' => exact absurd ((List.cons.inj h).1 ▸ List.mem_cons_self) hx'
  | cons c x ih =>
      cases x' with
      | nil => exact absurd ((List.cons.inj h).1 ▸ List.mem_cons_self) hx
      | cons c' x' =>
          obtain ⟨rfl, htail⟩ := List.cons.inj h
          obtain ⟨rfl, rfl⟩ := ih (fun hc => hx (List.mem_cons_of_mem _ hc))
            (fun hc => hx' (List.mem_cons_of_mem _ hc)) htail
          exact ⟨rfl, rfl⟩

theorem newUniqueId_inj {count count' mypid mypid' sec sec' : ℕ} :
    newUniqueId count mypid sec = newUniqueId count' mypid' sec' ↔
      count = count' ∧ mypid = mypid' ∧ sec = sec' := by
  have hdot : ∀ b, 1 < b → b ≤ 16 → ∀ n, '.' ∉ Nat.toDigits b n := by
    intro b hb hb16 n hc
    obtain ⟨m, hm, heq⟩ := mem_toDigits hb hc
    have hdigit : ∀ i < 16, '.' ≠ i.digitChar := by decide
    exact hdigit m (by omega) heq
  have hhex := hdot 16 (by decide) (by decide)
  have hdec := hdot 10 (by decide) (by decide)
  constructor
  · intro h
    obtain ⟨hcount, h⟩ := append_dot_inj (hhex _) (hhex _) h
    obtain ⟨hpid, hsec⟩ := append_dot_inj (hdec _) (hdec _) h
    exact ⟨toDigits_inj (by decide) (by decide) hcount, toDigits_inj (by decide) (by decide) hpid,
      toDigits_inj (by decide) (by decide) hsec⟩
  · rintro ⟨rfl, rfl, rfl⟩
    rfl

/-! ## The ids of all lives

The counter begins anew with each process. What tells two lives apart is the process id and the
clock, and neither need do so. -/

/-- An id, and the life it is of. -/
structure GivenId where
  life : ℕ
  count : ℕ
  mypid : ℕ
  sec : ℕ
  deriving DecidableEq, Repr

/-- The id that the server has given. -/
def GivenId.text (g : GivenId) : Str := newUniqueId g.count g.mypid g.sec

/-- The server over all its lives. `count` is the `static long` of `newUniqueId`, as a number
    without a bound: a life gives fewer than 2^63 ids. -/
structure IdServer where
  life : ℕ
  count : ℕ
  mypid : ℕ
  /-- What the threads in `newUniqueId` have read from the clock. -/
  times : List ℕ
  given : List GivenId
  deriving DecidableEq, Repr

namespace IdServer

/-- The server is started, or a thread in `newUniqueId` takes its next step. -/
inductive Action where
  | start (mypid : ℕ)
  | get_time (sec : ℕ)
  /-- The thread that has read the `i`th time holds the lock. -/
  | sprintf (i : ℕ)

/-- The server has never been started. -/
def boot : IdServer := { life := 0, count := 0, mypid := 0, times := [], given := [] }

/-- The steps. The clock is read before the lock is taken, so a time may be an old one. -/
def step (s : IdServer) : Action → Option IdServer
  | .start mypid =>
      some { s with life := s.life + 1, count := 0, mypid := mypid, times := [] }
  | .get_time sec => some { s with times := s.times ++ [sec] }
  | .sprintf i =>
      s.times[i]?.map fun sec =>
        { s with
          count := s.count + 1
          times := s.times.eraseIdx i
          given := s.given ++ [⟨s.life, s.count + 1, s.mypid, sec⟩] }

/-- In one life the counter tells the ids apart. -/
structure Counted (s : IdServer) : Prop where
  life : ∀ g ∈ s.given, g.life ≤ s.life
  count : ∀ g ∈ s.given, g.life = s.life → g.count ≤ s.count
  pairwise : s.given.Pairwise fun g g' => g.life = g'.life → g.count ≠ g'.count

variable {s t : IdServer}

theorem Counted.step (h : s.Counted) {a : Action} (hst : s.step a = some t) : t.Counted := by
  cases a with
  | start mypid =>
      cases hst
      refine ⟨fun g hg => Nat.le_succ_of_le (h.life g hg), ?_, h.pairwise⟩
      intro g hg hlife
      have hle := h.life g hg
      simp only at hlife
      omega
  | get_time sec =>
      cases hst
      exact ⟨h.life, h.count, h.pairwise⟩
  | sprintf i =>
      obtain ⟨sec, -, rfl⟩ := Option.map_eq_some_iff.1 hst
      refine ⟨?_, ?_, ?_⟩
      · intro g hg
        rcases List.mem_append.1 hg with hg | hg
        · exact h.life g hg
        · rw [List.mem_singleton.1 hg]
      · intro g hg hlife
        rcases List.mem_append.1 hg with hg | hg
        · exact Nat.le_succ_of_le (h.count g hg hlife)
        · rw [List.mem_singleton.1 hg]
      · refine List.pairwise_append.2 ⟨h.pairwise, List.pairwise_singleton .., ?_⟩
        intro g hg g' hg' hlife
        obtain rfl := List.mem_singleton.1 hg'
        have hle := h.count g hg hlife
        simp only
        omega

/-- **Unique ids.** Over all lives of the server, with any interleaving of the threads and whatever the
    clock shows, the ids are all different if and only if no two lives with the same process id have
    given an id with the same count in the same second. -/
theorem ids_nodup_iff {as : List Action} (hrun : Run step boot as = some s) :
    (s.given.map GivenId.text).Nodup ↔
      s.given.Pairwise fun g g' => g.life ≠ g'.life →
        ¬ (g.mypid = g'.mypid ∧ g.sec = g'.sec ∧ g.count = g'.count) := by
  have h : s.Counted := Run.induct (P := fun _ s => s.Counted) ⟨nofun, nofun, .nil⟩
    (fun _ _ _ _ _ hs hst => hs.step hst) hrun
  rw [List.Nodup, List.pairwise_map]
  constructor
  · refine List.Pairwise.imp ?_
    rintro g g' hne - ⟨hpid, hsec, hcount⟩
    exact hne (newUniqueId_inj.2 ⟨hcount, hpid, hsec⟩)
  · intro hlives
    refine List.Pairwise.imp ?_ (hlives.and h.pairwise)
    rintro g g' ⟨hother, hsame⟩ htext
    obtain ⟨hcount, hpid, hsec⟩ := newUniqueId_inj.1 htext
    by_cases hlife : g.life = g'.life
    · exact hsame hlife hcount
    · exact hother hlife ⟨hpid, hsec, hcount⟩

/-- A process started with the same id in the same second gives the same ids again. -/
theorem ids_nodup_iff_same_second :
    ∃ s, Run step boot [.start 1, .get_time 5, .sprintf 0, .start 1, .get_time 5, .sprintf 0] =
        some s ∧ ¬ (s.given.map GivenId.text).Nodup := by
  obtain ⟨s, hrun, hsame⟩ : ∃ s, Run step boot
      [.start 1, .get_time 5, .sprintf 0, .start 1, .get_time 5, .sprintf 0] = some s ∧
      s.given = [⟨1, 1, 1, 5⟩, ⟨2, 1, 1, 5⟩] := ⟨_, rfl, rfl⟩
  refine ⟨s, hrun, fun hnodup => ?_⟩
  have hlives := (ids_nodup_iff hrun).1 hnodup
  rw [hsame] at hlives
  exact (List.pairwise_cons.1 hlives).1 _ List.mem_cons_self (by decide) ⟨rfl, rfl, rfl⟩

end IdServer

end OmniEvents
