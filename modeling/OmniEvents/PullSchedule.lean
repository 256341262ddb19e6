import OmniEvents.Transfer

set_option autoImplicit false

/-! # When suppliers are pulled

`SupplierAdmin_i::collect` sends out new requests when `_nextPull` is over, and then moves it on by
whole periods until it lies in the future. Here the loop is over the machine's integers: seconds and
nanoseconds are unsigned longs of 64 bits, the period is a `CORBA::ULong`. It is the loop of
`SupplierAdmin.trigger` (`trigger_eq`), and in every run a collect sends out requests exactly if no
collect before it fell into the same period (`pull_schedule`). -/

namespace OmniEvents.PullSchedule

variable {Ref : Type}

/-! ## The loop -/

/-- `pair<unsigned long,unsigned long>`, of seconds and nanoseconds. -/
abbrev TimePair := UInt64 × UInt64

/-- `now>=t` of pairs. -/
def ge (now t : TimePair) : Bool := decide (t.1 < now.1) || (t.1 == now.1 && decide (t.2 ≤ now.2))

/-- The body of the loop. The product is of 32 bits. -/
def turn (p : UInt32) (t : TimePair) : TimePair :=
  let second := t.2 + (p % 1000 * 1000000).toUInt64
  (t.1 + ((p / 1000).toUInt64 + second / 1000000000), second % 1000000000)

/-- `do { … } while(now>=_nextPull)`; no value after too few turns. -/
def doWhile (p : UInt32) (now : TimePair) : ℕ → TimePair → Option TimePair
  | 0, _ => none
  | turns + 1, t => if ge now (turn p t) then doWhile p now turns (turn p t) else some (turn p t)

/-- `_nextPull` after the constructor, which has read the clock. -/
def construct (pullRetryPeriod_ms : UInt32) (cyclePeriod_ns : UInt64) (now : TimePair) : TimePair :=
  if cyclePeriod_ns / 1000000 < pullRetryPeriod_ms.toUInt64 then now else (0, 0)

/-- A `collect`: does it call `triggerRequest`, and what `_nextPull` is then. -/
structure Collected where
  now : TimePair
  triggered : Bool
  nextPull : TimePair
  deriving DecidableEq, Repr

/-- `SupplierAdmin_i::collect` with a `ProxyPullConsumerManager`. -/
def collect (turns : ℕ) (p : UInt32) (nextPull now : TimePair) : Option Collected :=
  if nextPull.1 = 0 then some ⟨now, true, nextPull⟩
  else if ge now nextPull then (doWhile p now turns nextPull).map (⟨now, true, ·⟩)
  else some ⟨now, false, nextPull⟩

/-- The thread calls `collect` at each reading of the clock. -/
def run (turns : ℕ) (p : UInt32) : TimePair → List TimePair → Option (List Collected)
  | _, [] => some []
  | nextPull, now :: readings =>
      match collect turns p nextPull now with
      | none => none
      | some e => (run turns p e.nextPull readings).map (e :: ·)

/-! ## Times -/

/-- A time as a pair of numbers without bounds. -/
def natPair (t : TimePair) : ℕ × ℕ := (t.1.toNat, t.2.toNat)

/-- A time in nanoseconds. -/
def instant (t : TimePair) : ℕ := nanosec (natPair t)

/-- A time that a clock can show, far from the end of 64 bits. -/
structure Shown (t : TimePair) : Prop where
  nsec : t.2.toNat < 1000000000
  sec_pos : 0 < t.1.toNat
  sec_lt : t.1.toNat < 2 ^ 63

theorem ge_eq_reached (now t : TimePair) : ge now t = reached (natPair now) (natPair t) := by
  have hsec : (t.1 == now.1) = (t.1.toNat == now.1.toNat) := by
    rw [Bool.eq_iff_iff, beq_iff_eq, beq_iff_eq, UInt64.toNat_inj]
  rw [ge, reached, hsec]
  rfl

/-- Pairs are ordered as the times are, if the nanoseconds are normalised. -/
theorem ge_iff {now t : TimePair} (hnow : now.2.toNat < 1000000000) (ht : t.2.toNat < 1000000000) :
    ge now t = true ↔ instant t ≤ instant now := by
  have hreached : ge now t = true ↔ t.1.toNat < now.1.toNat ∨
      t.1.toNat = now.1.toNat ∧ t.2.toNat ≤ now.2.toNat := by
    rw [ge_eq_reached, reached, Bool.or_eq_true, Bool.and_eq_true, decide_eq_true_iff, beq_iff_eq,
      decide_eq_true_iff]
    rfl
  rw [hreached]
  simp only [instant, nanosec, natPair]
  omega

/-- No operation of the body wraps round. -/
theorem natPair_turn (p : UInt32) {t : TimePair} (hnsec : t.2.toNat < 1000000000)
    (hsec : t.1.toNat < 2 ^ 63) : natPair (turn p t) = addPeriod p.toNat (natPair t) := by
  have hp := p.toNat_lt
  have hproduct : (p % 1000 * 1000000).toNat = p.toNat % 1000 * 1000000 := by
    rw [UInt32.toNat_mul, UInt32.toNat_mod]
    show p.toNat % 1000 * 1000000 % 2 ^ 32 = _
    omega
  have hsecond : (t.2 + (p % 1000 * 1000000).toUInt64).toNat
      = t.2.toNat + p.toNat % 1000 * 1000000 := by
    rw [UInt64.toNat_add, UInt32.toNat_toUInt64, hproduct]
    omega
  have hdiv : (p / 1000).toUInt64.toNat = p.toNat / 1000 := by
    rw [UInt32.toNat_toUInt64, UInt32.toNat_div]
    rfl
  refine Prod.ext ?_ ?_
  · show (t.1 + ((p / 1000).toUInt64
      + (t.2 + (p % 1000 * 1000000).toUInt64) / 1000000000)).toNat = _
    rw [UInt64.toNat_add, UInt64.toNat_add, UInt64.toNat_div, hsecond, hdiv]
    show (t.1.toNat + (p.toNat / 1000 + (t.2.toNat + p.toNat % 1000 * 1000000) / 1000000000)
      % 2 ^ 64) % 2 ^ 64 = t.1.toNat + (p.toNat / 1000
        + (t.2.toNat + p.toNat % 1000 * 1000000) / 1000000000)
    omega
  · show ((t.2 + (p % 1000 * 1000000).toUInt64) % 1000000000).toNat = _
    rw [UInt64.toNat_mod, hsecond]
    rfl

theorem instant_turn (p : UInt32) {t : TimePair} (hnsec : t.2.toNat < 1000000000)
    (hsec : t.1.toNat < 2 ^ 63) : instant (turn p t) = instant t + p.toNat * 1000000 := by
  rw [instant, natPair_turn p hnsec hsec, nanosec_addPeriod]
  rfl

theorem nsec_turn (p : UInt32) (t : TimePair) : (turn p t).2.toNat < 1000000000 := by
  show (_ % 1000000000 : UInt64).toNat < _
  rw [UInt64.toNat_mod]
  exact Nat.mod_lt _ (by decide)

theorem sec_lt_of_le {now t : TimePair} (hnow : Shown now) (hle : instant t ≤ instant now) :
    t.1.toNat < 2 ^ 63 := by
  have hnsec := hnow.nsec
  have hsec := hnow.sec_lt
  simp only [instant, nanosec, natPair] at hle
  omega

theorem instant_lt {t : TimePair} (ht : Shown t) : instant t < 2 ^ 93 := by
  have hnsec := ht.nsec
  have hsec := ht.sec_lt
  simp only [instant, nanosec, natPair]
  omega

/-! ## What the loop does

The loop by 64-bit arithmetic is the loop over natural numbers, as long as the clock shows a time
that is far from the end of 64 bits. -/

/-- Where the loop leaves `_nextPull`. -/
structure MovedOn (p : UInt32) (now t t' : TimePair) : Prop where
  nsec : t'.2.toNat < 1000000000
  future : instant now < instant t'
  close : instant t' ≤ instant now + p.toNat * 1000000
  grid : ∃ k, instant t' = instant t + k * (p.toNat * 1000000)

/-- The loop ends, if the period is not zero. -/
theorem doWhile_spec {p : UInt32} (hp : 0 < p.toNat) {now : TimePair} (hnow : Shown now) (n : ℕ)
    {t : TimePair} (hnsec : t.2.toNat < 1000000000) (hle : instant t ≤ instant now)
    (hn : instant now < instant t + n) :
    ∃ t', (∀ turns, n ≤ turns → doWhile p now turns t = some t') ∧ MovedOn p now t t' := by
  induction n generalizing t with
  | zero => omega
  | succ n ih =>
      have hmoved := instant_turn p hnsec (sec_lt_of_le hnow hle)
      cases hge : ge now (turn p t) with
      | false =>
          refine ⟨turn p t, ?_, nsec_turn p t, ?_, ?_, 1, ?_⟩
          · intro turns hturns
            obtain ⟨turns, rfl⟩ := Nat.exists_eq_add_one.2 (Nat.lt_of_lt_of_le n.succ_pos hturns)
            rw [doWhile, hge, if_neg Bool.false_ne_true]
          · refine Nat.not_le.1 ?_
            intro h
            rw [(ge_iff hnow.nsec (nsec_turn p t)).2 h] at hge
            exact Bool.noConfusion hge
          · omega
          · rw [hmoved, Nat.one_mul]
      | true =>
          have hle' := (ge_iff hnow.nsec (nsec_turn p t)).1 hge
          obtain ⟨t', hloop, hnsec', hfuture, hclose, k, hk⟩ :=
            ih (nsec_turn p t) hle' (by omega)
          refine ⟨t', ?_, hnsec', hfuture, hclose, k + 1, ?_⟩
          · intro turns hturns
            obtain ⟨turns, rfl⟩ := Nat.exists_eq_add_one.2 (Nat.lt_of_lt_of_le n.succ_pos hturns)
            rw [doWhile, hge, if_pos rfl]
            exact hloop turns (Nat.le_of_succ_le_succ hturns)
          · rw [hk, hmoved, Nat.add_mul, Nat.one_mul]
            omega

/-- The loop of `SupplierAdmin.trigger`, whose turns are not counted down to a failure. -/
theorem advance_eq {p : UInt32} {now : TimePair} (hnow : Shown now) {turns m : ℕ} {t t' : TimePair}
    (hnsec : t.2.toNat < 1000000000) (hle : instant t ≤ instant now) (hm : turns ≤ m + 1)
    (hloop : doWhile p now turns t = some t') :
    advance p.toNat (natPair now) m (natPair t) = natPair t' := by
  induction m generalizing turns t with
  | zero =>
      cases turns with
      | zero => exact absurd hloop nofun
      | succ turns =>
          obtain rfl : turns = 0 := by omega
          rw [doWhile] at hloop
          split at hloop
          · exact absurd hloop nofun
          · obtain rfl := Option.some.inj hloop
            exact (natPair_turn p hnsec (sec_lt_of_le hnow hle)).symm
  | succ m ih =>
      cases turns with
      | zero => exact absurd hloop nofun
      | succ turns =>
          have hturn := natPair_turn p hnsec (sec_lt_of_le hnow hle)
          rw [doWhile, ge_eq_reached, hturn] at hloop
          rw [advance]
          split at hloop
          · next hreached =>
              rw [if_pos hreached, ← hturn]
              rw [← hturn, ← ge_eq_reached] at hreached
              exact ih (nsec_turn p t) ((ge_iff hnow.nsec (nsec_turn p t)).1 hreached)
                (Nat.le_of_succ_le_succ hm) hloop
          · next hreached =>
              rw [if_neg hreached, ← hturn]
              exact congrArg natPair (Option.some.inj hloop)

/-- `collect` is the trigger of the admin. -/
theorem trigger_eq {sa : SupplierAdmin Ref} {p : UInt32} (hp : 0 < p.toNat) {nextPull now : TimePair}
    (hnow : Shown now) (hnsec : nextPull.2.toNat < 1000000000)
    (hsa : sa.nextPull = natPair nextPull) (servants : List (ProxyPullConsumer Ref)) :
    ∃ e, (∀ turns, 2 ^ 93 ≤ turns → collect turns p nextPull now = some e) ∧
      sa.trigger p.toNat (natPair now) servants
        = (if e.triggered then servants.map (·.triggerRequest) else servants,
            natPair e.nextPull) := by
  rw [SupplierAdmin.trigger, hsa]
  by_cases hzero : nextPull.1 = 0
  · have hnat : (natPair nextPull).1 = 0 := by rw [natPair, hzero]; rfl
    rw [if_pos hnat]
    exact ⟨⟨now, true, nextPull⟩, fun turns _ => if_pos hzero, rfl⟩
  · have hnat : (natPair nextPull).1 ≠ 0 := fun h => hzero (UInt64.toNat_inj.1 h)
    rw [if_neg hnat, ← ge_eq_reached]
    cases hge : ge now nextPull with
    | false =>
        rw [if_neg Bool.false_ne_true]
        refine ⟨⟨now, false, nextPull⟩, ?_, rfl⟩
        intro turns _
        rw [collect, if_neg hzero, hge]
        rfl
    | true =>
        have hle := (ge_iff hnow.nsec hnsec).1 hge
        obtain ⟨t', hloop, -⟩ := doWhile_spec hp hnow (instant now + 1) hnsec hle (by omega)
        rw [if_pos rfl]
        refine ⟨⟨now, true, t'⟩, ?_, ?_⟩
        · intro turns hturns
          have hlt : instant now < 2 ^ 93 := instant_lt hnow
          rw [collect, if_neg hzero, hge, if_pos rfl, hloop turns (by omega)]
          rfl
        · exact congrArg _ (advance_eq hnow hnsec hle (Nat.le_refl _) (hloop _ (Nat.le_refl _)))

/-- `construct` is what a new channel begins with. -/
theorem construct_eq (maxQueueLength : ℕ) (p : UInt32) (cyclePeriod_ns : UInt64)
    (filter : Option Filter) (now : TimePair) :
    (@Channel.new Ref maxQueueLength p.toNat cyclePeriod_ns.toNat filter
      (natPair now)).supplierAdmin.nextPull = natPair (construct p cyclePeriod_ns now) := by
  have hlt : cyclePeriod_ns / 1000000 < p.toUInt64
      ↔ cyclePeriod_ns.toNat / 1000000 < p.toNat := by
    rw [UInt64.lt_iff_toNat_lt, UInt64.toNat_div, UInt32.toNat_toUInt64]
    rfl
  rw [Channel.new, construct]
  by_cases hperiod : cyclePeriod_ns / 1000000 < p.toUInt64
  · rw [if_pos hperiod, if_pos (hlt.1 hperiod)]
  · rw [if_neg hperiod, if_neg (hlt.not.1 hperiod)]
    rfl

/-! ## Runs

The times at which requests go out are fixed by the first one: a reading of the clock falls into a
period, and the first reading in a period sends the requests. -/

/-- The number of the period that a time falls into, counted from `start` on. -/
def period (start : TimePair) (p : UInt32) (t : TimePair) : ℕ :=
  (instant t - instant start) / (p.toNat * 1000000)

/-- `_nextPull` after the collects at `seen`. -/
structure Scheduled (start : TimePair) (p : UInt32) (seen : List TimePair) (nextPull : TimePair) :
    Prop where
  nsec : nextPull.2.toNat < 1000000000
  sec : nextPull.1 ≠ 0
  grid : ∃ k, instant nextPull = instant start + k * (p.toNat * 1000000)
  passed : ∀ d ∈ seen, instant d < instant nextPull
  /-- Nothing is skipped. -/
  close : (seen = [] ∧ instant nextPull = instant start) ∨
    ∃ d ∈ seen, instant nextPull ≤ instant d + p.toNat * 1000000

/-- What is said of one collect, given those before it. -/
structure OnSchedule (start : TimePair) (p : UInt32) (seen : List TimePair) (e : Collected) :
    Prop where
  nsec : e.nextPull.2.toNat < 1000000000
  grid : ∃ k, instant e.nextPull = instant start + k * (p.toNat * 1000000)
  moved : e.triggered = true →
    instant e.now < instant e.nextPull ∧ instant e.nextPull ≤ instant e.now + p.toNat * 1000000
  first : e.triggered = true ↔ ∀ d ∈ seen, period start p d ≠ period start p e.now

theorem sec_ne_zero {t now : TimePair} (hnow : Shown now) (hnsec : t.2.toNat < 1000000000)
    (hlt : instant now < instant t) : t.1 ≠ 0 := by
  have hpos := hnow.sec_pos
  intro hzero
  have hzero : t.1.toNat = 0 := congrArg UInt64.toNat hzero
  simp only [instant, nanosec, natPair] at hlt
  omega

theorem period_lt {start t : TimePair} {p : UInt32} (hp : 0 < p.toNat) {k : ℕ}
    (hlt : instant t < instant start + k * (p.toNat * 1000000)) (hk : 0 < k) :
    period start p t < k := by
  have hpos : 0 < k * (p.toNat * 1000000) := Nat.mul_pos hk (by omega)
  exact (Nat.div_lt_iff_lt_mul (by omega)).2 (by omega)

theorem le_period {start t : TimePair} {p : UInt32} (hp : 0 < p.toNat) {k : ℕ}
    (hle : instant start + k * (p.toNat * 1000000) ≤ instant t) : k ≤ period start p t :=
  (Nat.le_div_iff_mul_le (by omega)).2 (by omega)

theorem period_eq {start t : TimePair} {p : UInt32} (hp : 0 < p.toNat) {k : ℕ}
    (hle : instant start + k * (p.toNat * 1000000) ≤ instant t)
    (hlt : instant t < instant start + (k + 1) * (p.toNat * 1000000)) : period start p t = k :=
  Nat.le_antisymm (Nat.le_of_lt_succ (period_lt hp hlt k.succ_pos)) (le_period hp hle)

/-- One collect: the step of the run. -/
theorem collect_spec {start now nextPull : TimePair} {p : UInt32} {seen : List TimePair}
    (hp : 0 < p.toNat) (hs : Scheduled start p seen nextPull) (hnow : Shown now)
    (hstart : instant start ≤ instant now)
    (hseen : ∀ d ∈ seen, instant start ≤ instant d ∧ instant d ≤ instant now) :
    ∃ e, (∀ turns, 2 ^ 93 ≤ turns → collect turns p nextPull now = some e) ∧ e.now = now ∧
      OnSchedule start p seen e ∧ Scheduled start p (seen ++ [now]) e.nextPull := by
  obtain ⟨k, hk⟩ := hs.grid
  cases hge : ge now nextPull with
  | true =>
      have hle := (ge_iff hnow.nsec hs.nsec).1 hge
      obtain ⟨t', hloop, hmoved⟩ := doWhile_spec hp hnow (instant now + 1) hs.nsec hle (by omega)
      obtain ⟨j, hj⟩ := hmoved.grid
      have hgrid : instant t' = instant start + (k + j) * (p.toNat * 1000000) := by
        rw [hj, hk, Nat.add_mul, Nat.add_assoc]
      refine ⟨⟨now, true, t'⟩, ?_, rfl,
        ⟨hmoved.nsec, ⟨_, hgrid⟩, fun _ => ⟨hmoved.future, hmoved.close⟩, ?_⟩, ?_⟩
      · intro turns hturns
        have hlt := instant_lt hnow
        rw [collect, if_neg hs.sec, hge, if_pos rfl, hloop turns (by omega)]
        rfl
      · -- the collects before it were all before `_nextPull`
        refine iff_of_true rfl fun d hd => Nat.ne_of_lt ?_
        have hbefore := hs.passed d hd
        have hkpos : 0 < k := by
          refine Nat.pos_of_ne_zero ?_
          intro hzero
          rw [hzero, Nat.zero_mul] at hk
          exact absurd (hseen d hd).1 (by omega)
        exact Nat.lt_of_lt_of_le (period_lt hp (hk ▸ hbefore) hkpos) (le_period hp (hk ▸ hle))
      · refine ⟨hmoved.nsec, sec_ne_zero hnow hmoved.nsec hmoved.future, ⟨_, hgrid⟩, ?_,
          .inr ⟨now, List.mem_append_right _ (List.mem_singleton_self _), hmoved.close⟩⟩
        intro d hd
        rcases List.mem_append.1 hd with hd | hd
        · exact Nat.lt_of_le_of_lt (hseen d hd).2 hmoved.future
        · obtain rfl := List.mem_singleton.1 hd
          exact hmoved.future
  | false =>
      have hlt : instant now < instant nextPull := by
        refine Nat.not_le.1 ?_
        intro h
        rw [(ge_iff hnow.nsec hs.nsec).2 h] at hge
        exact Bool.noConfusion hge
      refine ⟨⟨now, false, nextPull⟩, ?_, rfl, ⟨hs.nsec, hs.grid, nofun, ?_⟩, ?_⟩
      · intro turns _
        rw [collect, if_neg hs.sec, hge]
        rfl
      · refine iff_of_false Bool.false_ne_true ?_
        intro hfirst
        rcases hs.close with ⟨-, hnext⟩ | ⟨d, hd, hclose⟩
        · omega
        · -- the collect that set `_nextPull` was in this period
          have hbefore := hs.passed d hd
          obtain ⟨j, rfl⟩ : ∃ j, k = j + 1 := by
            refine Nat.exists_eq_add_one.2 (Nat.pos_of_ne_zero ?_)
            intro hzero
            rw [hzero, Nat.zero_mul] at hk
            exact absurd (hseen d hd).1 (by omega)
          have hback : instant start + j * (p.toNat * 1000000) ≤ instant d := by
            rw [hk, Nat.add_mul, Nat.one_mul] at hclose
            omega
          refine hfirst d hd ?_
          rw [period_eq hp hback (hk ▸ hbefore),
            period_eq hp (Nat.le_trans hback (hseen d hd).2) (hk ▸ hlt)]
      · refine ⟨hs.nsec, hs.sec, hs.grid, ?_, ?_⟩
        · intro d hd
          rcases List.mem_append.1 hd with hd | hd
          · exact hs.passed d hd
          · obtain rfl := List.mem_singleton.1 hd
            exact hlt
        · rcases hs.close with ⟨-, hnext⟩ | ⟨d, hd, hclose⟩
          · omega
          · exact .inr ⟨d, List.mem_append_left _ hd, hclose⟩

/-- What a clock shows in turn. -/
structure Readings (readings : List TimePair) : Prop where
  shown : ∀ t ∈ readings, Shown t
  sorted : readings.Pairwise fun t u => instant t ≤ instant u

theorem run_spec {start nextPull : TimePair} {p : UInt32} {seen readings : List TimePair}
    (hp : 0 < p.toNat) (hs : Scheduled start p seen nextPull)
    (hreadings : Readings (start :: (seen ++ readings))) :
    ∃ log, (∀ turns, 2 ^ 93 ≤ turns → run turns p nextPull readings = some log) ∧
      log.map Collected.now = readings ∧
      ∀ before e after, log = before ++ e :: after →
        OnSchedule start p (seen ++ before.map Collected.now) e := by
  induction readings generalizing seen nextPull with
  | nil =>
      refine ⟨[], fun _ _ => rfl, rfl, ?_⟩
      intro before e after h
      simp at h
  | cons now readings ih =>
      have hmem : ∀ d ∈ seen, d ∈ seen ++ now :: readings := fun d => List.mem_append_left _
      have hnow : now ∈ seen ++ now :: readings := List.mem_append_right _ List.mem_cons_self
      obtain ⟨hstart, hsorted⟩ := List.pairwise_cons.1 hreadings.sorted
      have hle := (List.pairwise_append.1 hsorted).2.2
      obtain ⟨e, hcollect, hpast, hon, hs'⟩ := collect_spec hp hs
        (hreadings.shown now (List.mem_cons_of_mem _ hnow)) (hstart now hnow)
        fun d hd => ⟨hstart d (hmem d hd), hle d hd now List.mem_cons_self⟩
      have hassoc : seen ++ now :: readings = seen ++ [now] ++ readings := by
        rw [List.append_assoc]
        rfl
      rw [hassoc] at hreadings
      obtain ⟨log, hrun, hlog, hall⟩ := ih hs' hreadings
      refine ⟨e :: log, ?_, ?_, ?_⟩
      · intro turns hturns
        rw [run, hcollect turns hturns]
        simp only [hrun turns hturns, Option.map_some]
      · rw [List.map_cons, hpast, hlog]
      · intro before d after hsplit
        cases before with
        | nil =>
            obtain ⟨rfl, -⟩ := List.cons.inj hsplit
            rw [List.map_nil, List.append_nil]
            exact hon
        | cons b before =>
            obtain ⟨rfl, hrest⟩ := List.cons.inj hsplit
            have hd := hall before d after hrest
            rw [List.append_assoc] at hd
            rw [List.map_cons, hpast]
            exact hd

/-- Without a schedule every collect pulls, and the loop is not reached. -/
theorem run_zero (p : UInt32) (readings : List TimePair) :
    run 0 p (0, 0) readings = some (readings.map (⟨·, true, (0, 0)⟩)) := by
  induction readings with
  | nil => rfl
  | cons now readings ih =>
      rw [run, collect, if_pos rfl]
      simp only [ih]
      rfl

theorem period_pos {p : UInt32} {cyclePeriod_ns : UInt64}
    (h : cyclePeriod_ns / 1000000 < p.toUInt64) : 0 < p.toNat := by
  rw [UInt64.lt_iff_toNat_lt, UInt32.toNat_toUInt64] at h
  omega

/-- **The pull schedule.** For every period and every clock that is read first by the constructor and
    then by each `collect`: the loop ends, `_nextPull` stays normalised and on the grid of whole
    periods, a collect that pulls leaves it after now but not by more than a period, and a collect
    pulls if and only if it is the first of its period. Without a schedule, as with a period of zero,
    every collect pulls and no turn of the loop is made. -/
theorem pull_schedule (p : UInt32) (cyclePeriod_ns : UInt64) (start : TimePair)
    (readings : List TimePair) (hreadings : Readings (start :: readings)) :
    (cyclePeriod_ns / 1000000 < p.toUInt64 →
      ∃ log, (∀ turns, 2 ^ 93 ≤ turns →
          run turns p (construct p cyclePeriod_ns start) readings = some log) ∧
        log.map Collected.now = readings ∧
        ∀ before e after, log = before ++ e :: after →
          OnSchedule start p (before.map Collected.now) e) ∧
    (¬ cyclePeriod_ns / 1000000 < p.toUInt64 →
      run 0 p (construct p cyclePeriod_ns start) readings
        = some (readings.map (⟨·, true, (0, 0)⟩))) ∧
    (p = 0 → ¬ cyclePeriod_ns / 1000000 < p.toUInt64) := by
  refine ⟨?_, ?_, ?_⟩
  · intro hperiod
    have hp := period_pos hperiod
    have hstart := hreadings.shown start List.mem_cons_self
    have hs : Scheduled start p [] start :=
      ⟨hstart.nsec, fun h => by
          have hpos := hstart.sec_pos
          rw [h] at hpos
          exact absurd hpos (Nat.lt_irrefl _),
        ⟨0, by rw [Nat.zero_mul, Nat.add_zero]⟩, nofun, .inl ⟨rfl, rfl⟩⟩
    obtain ⟨log, hrun, hlog, hall⟩ := run_spec hp hs hreadings
    rw [construct, if_pos hperiod]
    exact ⟨log, hrun, hlog, hall⟩
  · intro hperiod
    rw [construct, if_neg hperiod]
    exact run_zero p readings
  · rintro rfl
    exact UInt64.not_lt_zero

theorem pull_schedule_quarters :
    ∃ log, (∀ turns, 2 ^ 93 ≤ turns →
        run turns 250 (construct 250 100000000 (10, 900000000))
          [(11, 0), (11, 100000000), (12, 0)] = some log) ∧
      log.map Collected.now = [(11, 0), (11, 100000000), (12, 0)] ∧
      ∀ before e after, log = before ++ e :: after →
        OnSchedule (10, 900000000) 250 (before.map Collected.now) e := by
  refine (pull_schedule 250 100000000 (10, 900000000) _ ⟨?_, by decide⟩).1 (by decide)
  intro t ht
  simp only [List.mem_cons, List.not_mem_nil, or_false] at ht
  rcases ht with rfl | rfl | rfl | rfl
  all_goals exact ⟨by decide, by decide, by decide⟩

/-- The third reading is four periods later: the phase is kept. -/
example : run 5 250 (10, 900000000) [(11, 0), (11, 100000000), (12, 0)] =
    some [⟨(11, 0), true, (11, 150000000)⟩, ⟨(11, 100000000), false, (11, 150000000)⟩,
      ⟨(12, 0), true, (12, 150000000)⟩] := by
  decide

end OmniEvents.PullSchedule
