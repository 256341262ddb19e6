import OmniEvents.Criteria
import OmniEvents.Overflow
import OmniEvents.PullSchedule

set_option autoImplicit false

/-! # Where the parameters of a channel are used

`parseCriteria` refuses no number but zero. The cycle period goes to `omni_thread::sleep` as
nanoseconds, which must be fewer than a second; the length of the queue bounds the index of a reader,
an `int`; and the retry period drives the loop of `SupplierAdmin_i::collect`, which the constructor's
test protects (`inRange_iff`). -/

namespace OmniEvents

open Transition

/-! ## The three uses

The time that the loop sleeps, the schedule of the pulls, and the index of a reader. Each has a
range of its own. -/

/-- The seconds and nanoseconds that `mainLoop` sleeps. -/
def sleepTime (properties : PersistNode) : UInt64 × UInt64 := (0, properties.cyclePeriod_ns)

/-- `_next` of a reader is an index of the queue, and `_next+1` does not overflow. -/
structure IndexOk (w : QueueWorld) (r : ReaderTrace) : Prop where
  nonneg : 0 ≤ r.reader.next
  lt : r.reader.next < w.queue.size
  index : r.reader.next = ((r.position w.kept % w.queue.size : ℕ) : ℤ)
  increment : r.reader.next + 1 < 2 ^ 31

/-- What the main loop, the pull schedule and the readers make of the properties is in range. -/
structure InRange (properties : PersistNode) : Prop where
  sleep : (sleepTime properties).2.toNat < 1000000000
  /-- `_nextPull` is used if its seconds are not zero. -/
  period : ∀ now, (PullSchedule.construct properties.pullRetryPeriod_ms properties.cyclePeriod_ns
    now).1 ≠ 0 → 1 ≤ properties.pullRetryPeriod_ms.toNat
  reader : ∀ (filter : Option Filter) (acts : List QueueAction) (w : QueueWorld),
    Run QueueWorld.step (QueueWorld.init properties.maxQueueLength.toNat filter) acts = some w →
      ∀ r ∈ w.readers, IndexOk w r

/-- The numbers that are not too large for their uses. -/
structure Narrow (criteria : List Criterion) : Prop where
  cyclePeriod_ns : ∀ value, lastOf (Criterion.size keyCyclePeriod_ns) criteria = some value →
    value.toNat < 1000000000
  maxQueueLength : ∀ value, lastOf (Criterion.size keyMaxQueueLength) criteria = some value →
    value.toNat ≤ 2147483646

/-! ## The readers -/

theorem indexOk_of_run {n : ℕ} (hn : n + 1 ≤ 2 ^ 31 - 1) {filter : Option Filter}
    {acts : List QueueAction} {w : QueueWorld}
    (hrun : Run QueueWorld.step (QueueWorld.init n filter) acts = some w) :
    ∀ r ∈ w.readers, IndexOk w r := by
  intro r hr
  have hinv := worldInv_of_run hn hrun
  obtain ⟨i, hi⟩ := List.getElem?_of_mem hr
  obtain ⟨nums, hnums, -⟩ := hinv.readers i r hi
  have hsize := hinv.queue.size
  have hnext := hnums.next
  rw [← hnums.position_eq hinv.queue.nodup] at hnext
  have hlt : r.position w.kept % (n + 1) < n + 1 := Nat.mod_lt _ n.succ_pos
  refine ⟨?_, ?_, ?_, ?_⟩
  · omega
  · rw [hsize]
    omega
  · rw [hsize]
    exact hnext
  · omega

/-- A reader constructed after `k` appends starts where they end. -/
theorem run_newReader (n k : ℕ) :
    ∃ acts w r, Run QueueWorld.step (QueueWorld.init n none) acts = some w ∧ r ∈ w.readers ∧
      r.reader.next = toInt ((k % (n + 1) : ℕ) : ℤ) := by
  obtain ⟨w, hrun, hinv, hlength, -, -⟩ := run_appends n k
  refine ⟨_ ++ [.newReader], w.newReader, ⟨Reader.new w.queue, w.kept.length, []⟩,
    run_concat.2 ⟨w, hrun, rfl⟩, by simp [QueueWorld.newReader], ?_⟩
  rw [Reader.new, hinv.next, hlength]

/-- In a longer queue a reader can be constructed at the last index that an `int` can hold. -/
theorem exists_overflow {n : ℕ} (hn : 2 ^ 31 ≤ n + 1) :
    ∃ acts w r, Run QueueWorld.step (QueueWorld.init n none) acts = some w ∧ r ∈ w.readers ∧
      ¬ IndexOk w r := by
  obtain ⟨acts, w, r, hrun, hr, hnext⟩ := run_newReader n (2 ^ 31 - 1)
  rw [Nat.mod_eq_of_lt (by omega), toInt_of_lt (by decide)] at hnext
  refine ⟨acts, w, r, hrun, hr, ?_⟩
  intro h
  have hincrement := h.increment
  rw [hnext] at hincrement
  exact absurd hincrement (by decide)

theorem readers_iff {n : ℕ} :
    (∀ (filter : Option Filter) (acts : List QueueAction) (w : QueueWorld),
      Run QueueWorld.step (QueueWorld.init n filter) acts = some w → ∀ r ∈ w.readers, IndexOk w r) ↔
      n + 1 ≤ 2 ^ 31 - 1 := by
  refine ⟨?_, fun hn _ _ _ hrun => indexOk_of_run hn hrun⟩
  intro h
  by_contra hn
  obtain ⟨acts, w, r, hrun, hr, hbad⟩ := @exists_overflow n (by omega)
  exact hbad (h none acts w hrun r hr)

/-! ## The numbers -/

variable {criteria : List Criterion} {n : PersistNode}

theorem sleep_iff (hn : Stored criteria n) :
    (sleepTime n).2.toNat < 1000000000 ↔
      ∀ value, lastOf (Criterion.size keyCyclePeriod_ns) criteria = some value →
        value.toNat < 1000000000 := by
  rw [sleepTime, PersistNode.cyclePeriod_ns, attrLong_of_lookup (hn.size _ (by decide))]
  cases lastOf (Criterion.size keyCyclePeriod_ns) criteria with
  | none => exact iff_of_true (by decide) fun value h => by cases h
  | some value =>
      have hvalue := value.toNat_lt
      simp only [Option.map_some, Option.getD_some, Option.some.injEq, forall_eq']
      rw [toNat_ofInt64_storedText]
      split
      · exact Iff.rfl
      · omega

theorem maxQueueLength_iff (hn : Stored criteria n) :
    n.maxQueueLength.toNat + 1 ≤ 2 ^ 31 - 1 ↔
      ∀ value, lastOf (Criterion.size keyMaxQueueLength) criteria = some value →
        value.toNat ≤ 2147483646 := by
  rw [PersistNode.maxQueueLength, attrLong_of_lookup (hn.size _ (by decide))]
  cases lastOf (Criterion.size keyMaxQueueLength) criteria with
  | none => exact iff_of_true (by decide) fun value h => by cases h
  | some value =>
      simp only [Option.map_some, Option.getD_some, Option.some.injEq, forall_eq']
      rw [ofInt_storedText]
      omega

/-- The loop of `collect` is only reached with a period. -/
theorem period_of_construct (p : UInt32) (cyclePeriod_ns : UInt64) (now : PullSchedule.TimePair)
    (h : (PullSchedule.construct p cyclePeriod_ns now).1 ≠ 0) : 1 ≤ p.toNat := by
  unfold PullSchedule.construct at h
  split at h
  · next hperiod => exact PullSchedule.period_pos hperiod
  · exact absurd rfl h

/-- **The parameters are within the ranges of their uses** if and only if the cycle period asked for is
    less than a second and the queue is not too long for the index of a reader. -/
theorem inRange_iff (h : parseCriteria criteria = .ok n) : InRange n ↔ Narrow criteria := by
  have hn := stored_of_parseCriteria h
  constructor
  · intro hrange
    exact ⟨(sleep_iff hn).1 hrange.sleep,
      (maxQueueLength_iff hn).1 (readers_iff.1 hrange.reader)⟩
  · intro hnarrow
    exact ⟨(sleep_iff hn).2 hnarrow.cyclePeriod_ns, fun now => period_of_construct _ _ now,
      readers_iff.2 ((maxQueueLength_iff hn).2 hnarrow.maxQueueLength)⟩

theorem inRange_iff_defaults : InRange .empty :=
  (@inRange_iff [] .empty rfl).2 ⟨nofun, nofun⟩

/-- A cycle period of two seconds, and a queue with an index that no `int` can hold. -/
theorem out_of_range :
    (∃ n, parseCriteria [⟨keyCyclePeriod_ns, .ulong 2000000000⟩] = .ok n ∧
      sleepTime n = (0, 2000000000)) ∧
    (∃ n, parseCriteria [⟨keyMaxQueueLength, .ulong 2147483648⟩] = .ok n ∧
      ∃ acts w r, Run QueueWorld.step (QueueWorld.init n.maxQueueLength.toNat none) acts = some w ∧
        r ∈ w.readers ∧ r.reader.next = -2147483648) ∧
    ¬ ∀ criteria n, parseCriteria criteria = .ok n → InRange n := by
  have hcycle : ∃ n, parseCriteria [⟨keyCyclePeriod_ns, .ulong 2000000000⟩] = .ok n ∧
      sleepTime n = (0, 2000000000) := ⟨_, rfl, by decide⟩
  refine ⟨hcycle, ?_, ?_⟩
  · obtain ⟨n, hn, hlength⟩ : ∃ n, parseCriteria [⟨keyMaxQueueLength, .ulong 2147483648⟩] = .ok n ∧
        n.maxQueueLength.toNat = 2147483648 := ⟨_, rfl, by decide⟩
    obtain ⟨acts, w, r, hrun, hr, hnext⟩ := run_newReader n.maxQueueLength.toNat 2147483648
    refine ⟨n, hn, acts, w, r, hrun, hr, ?_⟩
    rw [hnext, hlength, Nat.mod_eq_of_lt (by decide)]
    decide
  · intro hall
    obtain ⟨n, hn, hsleep⟩ := hcycle
    have hlt := (hall _ n hn).sleep
    rw [hsleep] at hlt
    exact absurd hlt (by decide)

end OmniEvents
