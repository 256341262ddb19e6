import OmniEvents.Lib.Counting
import OmniEvents.Lib.ListUpdate
import OmniEvents.Lib.Transition

set_option autoImplicit false

/-! # The end of the thread that pushes

`ProxyPushSupplierManager` counts its references, and is a thread. Whoever drops the last reference
waits for the thread, and `join` deletes the object. The count is read and written under `_lock`, which
the thread has for the whole of a pass; so it cannot look at the count and then go to sleep while the
last reference is being dropped, and the signal that comes with the drop finds it asleep or not yet
there. But the signal is given after the lock has been let go, and so after the reference. A thread
that has dropped another reference than the last one may be late with it: then it is given to a
condition that has been deleted. -/

namespace OmniEvents

open Transition Counting ListUpdate

/-- What is done under the lock. -/
inductive LockUse where
  /-- `PauseThenWake`, in `incarnate` and `ConsumerAdmin_i::send`. -/
  | pauseThenWake
  /-- The lock alone, in `etherealize`. -/
  | pause
  | _add_ref
  | _remove_ref
  deriving DecidableEq, Repr

/-- Is the condition signalled afterwards? -/
def LockUse.signals : LockUse → Bool
  | pauseThenWake | _remove_ref => true
  | pause | _add_ref => false

/-- The references that the caller has afterwards. -/
def LockUse.returns : LockUse → ℕ
  | pauseThenWake | pause => 1
  | _add_ref => 2
  | _remove_ref => 0

/-- What the use of the lock makes of the count. -/
def LockUse.count (refCount : ℤ) : LockUse → ℤ
  | pauseThenWake | pause => refCount
  | _add_ref => refCount + 1
  | _remove_ref => refCount - 1

namespace PushThread

/-- Where a call is; `myref` is the count that it has read. -/
inductive CallPhase where
  | lock (c : LockUse)
  | locked (c : LockUse) (myref : ℤ)
  | signal (c : LockUse) (myref : ℤ)
  | join
  | done
  deriving DecidableEq, Repr

/-- Where the thread is: in a pass, under the lock; asleep; awake and in need of the lock; or at its
    end. -/
inductive Phase where
  | triggering
  | timedwait
  | wait
  | woken
  | ended
  deriving DecidableEq, Repr

end PushThread

/-- A manager. `held` are the references that nobody is using for a call. `refCount` is an `int`, and
    taken for a number without bounds: there are fewer than 2^31 references. -/
structure PushThread where
  refCount : ℤ
  held : ℕ
  phase : PushThread.Phase
  /-- The call that has the lock. -/
  owner : Option ℕ
  calls : List PushThread.CallPhase
  deleted : Bool
  /-- The object was used after it had been deleted. -/
  misused : Bool
  deriving DecidableEq, Repr

namespace PushThread

/-- A step of a call, or one of the thread. -/
inductive Action where
  /-- A thread that has a reference begins a call. -/
  | call (c : LockUse)
  | lock (u : ℕ)
  | unlock (u : ℕ)
  | signal (u : ℕ)
  | join (u : ℕ)
  /-- The thread gets the lock, and looks at the count. -/
  | takeLock
  | endPass (busy waiting : Bool)
  /-- A CORBA exception is ignored; any other ends the thread. -/
  | raise (corba : Bool)
  | timeout
  deriving DecidableEq, Repr

/-- The constructor has one reference, and starts the thread. -/
def init : PushThread :=
  { refCount := 1, held := 1, phase := .woken, owner := none, calls := [], deleted := false
    misused := false }

/-- `_refCount<1` at the beginning of the loop. -/
def loop (s : PushThread) : PushThread :=
  { s with phase := if s.refCount < 1 then .ended else .triggering }

/-- The steps. The lock is free unless a call has it or the thread is in a pass. Spurious wake-ups
    of `wait` are not modelled. -/
def step (s : PushThread) : Action → Option PushThread
  | .call c =>
      if 0 < s.held then some { s with held := s.held - 1, calls := s.calls ++ [.lock c] } else none
  | .lock u =>
      match s.calls[u]? with
      | some (.lock c) =>
          if s.owner = none ∧ s.phase ≠ .triggering then
            some { s with
              refCount := c.count s.refCount
              owner := some u
              calls := s.calls.set u (.locked c (c.count s.refCount))
              misused := s.misused || s.deleted }
          else none
      | _ => none
  | .unlock u =>
      match s.calls[u]? with
      | some (.locked c myref) =>
          some { s with
            owner := none
            held := if c.signals then s.held else s.held + c.returns
            calls := s.calls.set u (if c.signals then .signal c myref else .done)
            misused := s.misused || s.deleted }
      | _ => none
  | .signal u =>
      match s.calls[u]? with
      | some (.signal c myref) =>
          some { s with
            phase := if s.phase = .timedwait ∨ s.phase = .wait then .woken else s.phase
            held := s.held + c.returns
            calls := s.calls.set u (if c = ._remove_ref ∧ myref = 0 then .join else .done)
            misused := s.misused || s.deleted }
      | _ => none
  | .join u =>
      match s.calls[u]? with
      | some .join =>
          if s.phase = .ended then
            some { s with
              calls := s.calls.set u .done, deleted := true, misused := s.misused || s.deleted }
          else none
      | _ => none
  | .takeLock => if s.phase = .woken ∧ s.owner = none then some s.loop else none
  | .endPass busy waiting =>
      if s.phase = .triggering then
        some { s with phase := if busy then .woken else if waiting then .timedwait else .wait }
      else none
  | .raise corba =>
      if s.phase = .triggering then
        some (if corba then s.loop else { s with phase := .ended })
      else none
  | .timeout => if s.phase = .timedwait then some { s with phase := .woken } else none

/-! ## What is counted

The references that are owed, by those who use the manager and by the calls that are under way, and
the steps that are left when nobody owes any. -/

/-- The references that a call has, or is going to give back. -/
def CallPhase.refs : CallPhase → ℕ
  | .lock _ => 1
  | .locked c _ | .signal c _ => c.returns
  | .join | .done => 0

/-- Is the call going to signal? -/
def CallPhase.wakes : CallPhase → Bool
  | .locked c _ => c.signals
  | .signal _ _ => true
  | .lock _ | .join | .done => false

/-- The call has dropped the last reference. -/
def CallPhase.last : CallPhase → Bool
  | .locked c myref | .signal c myref => decide (c = ._remove_ref ∧ myref = 0)
  | .join => true
  | .lock _ | .done => false

/-- The steps that a call has left at most. -/
def CallPhase.left : CallPhase → ℕ
  | .lock _ => 4
  | .locked _ _ => 3
  | .signal _ _ => 2
  | .join => 1
  | .done => 0

/-- The steps that the thread has left at most when the count is zero. -/
def Phase.left : Phase → ℕ
  | .triggering => 3
  | .timedwait | .wait => 2
  | .woken => 1
  | .ended => 0

/-- How many steps are left at most, once the count is zero. -/
def left (s : PushThread) : ℕ := s.phase.left + (s.calls.map CallPhase.left).sum

/-- What holds in every state: the references that are counted are the ones that somebody has, and a
    thread that sleeps with a count of zero will be signalled. -/
structure Inv (s : PushThread) : Prop where
  refs : s.refCount = s.held + (s.calls.map CallPhase.refs).sum
  locked : ∀ (u : ℕ) (c : LockUse) (myref : ℤ), s.calls[u]? = some (.locked c myref) →
    s.owner = some u ∧ myref = s.refCount
  owner : ∀ u, s.owner = some u → ∃ c, s.calls[u]? = some (.locked c s.refCount)
  triggering : s.phase = .triggering → s.owner = none ∧ 0 < s.refCount
  asleep : s.phase = .wait → s.refCount = 0 → 0 < s.calls.countP CallPhase.wakes
  last : s.calls.countP CallPhase.last + s.deleted.toNat = if s.refCount = 0 then 1 else 0
  deleted : s.deleted = true → s.phase = .ended

variable {s t : PushThread} {a : Action} {u : ℕ} {c : LockUse} {myref : ℤ}

theorem LockUse.eq_remove_ref (h : c.returns = 0) : c = ._remove_ref := by
  cases c with
  | _remove_ref => rfl
  | pauseThenWake => cases h
  | pause => cases h
  | _add_ref => cases h

theorem Inv.nonneg (hs : Inv s) : 0 ≤ s.refCount := by
  have := hs.refs
  omega

/-- Who wants the lock has a reference. -/
theorem Inv.pos_of_lock (hs : Inv s) (h : s.calls[u]? = some (.lock c)) : 0 < s.refCount := by
  have hrefs := hs.refs
  have hle := le_sum (w := CallPhase.refs) h
  simp only [CallPhase.refs] at hle
  omega

/-- Only `_remove_ref` is under way when there are no references. -/
theorem Inv.locked_of_zero (hs : Inv s) (hzero : s.refCount = 0)
    (h : s.calls[u]? = some (.locked c myref)) : c = ._remove_ref := by
  have hrefs := hs.refs
  have hle := le_sum (w := CallPhase.refs) h
  simp only [CallPhase.refs] at hle
  refine LockUse.eq_remove_ref ?_
  omega

theorem Inv.of_deleted (hs : Inv s) (h : s.deleted = true) :
    s.refCount = 0 ∧ ∀ p ∈ s.calls, p.last = false := by
  have hlast := hs.last
  rw [h, Bool.toNat_true] at hlast
  split at hlast
  case isFalse => omega
  case isTrue hzero =>
    refine ⟨hzero, ?_⟩
    intro p hp
    have hnone : s.calls.countP CallPhase.last = 0 := by omega
    simpa using List.countP_eq_zero.1 hnone p hp

theorem inv_init : Inv init where
  refs := rfl
  locked u c myref h := by cases h
  owner u h := by cases h
  triggering h := by cases h
  asleep h := by cases h
  last := rfl
  deleted h := by cases h

/-! ## What a step does -/

theorem call_spec (h : step s (.call c) = some t) :
    0 < s.held ∧ t = { s with held := s.held - 1, calls := s.calls ++ [.lock c] } := by
  simp only [step] at h
  split at h
  case isFalse => cases h
  case isTrue hheld =>
    cases h
    exact ⟨hheld, rfl⟩

theorem lock_spec (h : step s (.lock u) = some t) :
    ∃ c, s.calls[u]? = some (.lock c) ∧ s.owner = none ∧ s.phase ≠ .triggering ∧
      t = { s with
        refCount := c.count s.refCount
        owner := some u
        calls := s.calls.set u (.locked c (c.count s.refCount))
        misused := s.misused || s.deleted } := by
  simp only [step] at h
  split at h
  case h_2 => cases h
  case h_1 c hu =>
    split at h
    case isFalse => cases h
    case isTrue hfree =>
      cases h
      exact ⟨c, hu, hfree.1, hfree.2, rfl⟩

theorem unlock_spec (h : step s (.unlock u) = some t) :
    ∃ c myref, s.calls[u]? = some (.locked c myref) ∧
      t = { s with
        owner := none
        held := if c.signals then s.held else s.held + c.returns
        calls := s.calls.set u (if c.signals then .signal c myref else .done)
        misused := s.misused || s.deleted } := by
  simp only [step] at h
  split at h
  case h_2 => cases h
  case h_1 c myref hu =>
    cases h
    exact ⟨c, myref, hu, rfl⟩

theorem signal_spec (h : step s (.signal u) = some t) :
    ∃ c myref, s.calls[u]? = some (.signal c myref) ∧
      t = { s with
        phase := if s.phase = .timedwait ∨ s.phase = .wait then .woken else s.phase
        held := s.held + c.returns
        calls := s.calls.set u (if c = ._remove_ref ∧ myref = 0 then .join else .done)
        misused := s.misused || s.deleted } := by
  simp only [step] at h
  split at h
  case h_2 => cases h
  case h_1 c myref hu =>
    cases h
    exact ⟨c, myref, hu, rfl⟩

theorem join_spec (h : step s (.join u) = some t) :
    s.calls[u]? = some .join ∧ s.phase = .ended ∧
      t = { s with
        calls := s.calls.set u .done, deleted := true, misused := s.misused || s.deleted } := by
  simp only [step] at h
  split at h
  case h_2 => cases h
  case h_1 hu =>
    split at h
    case isFalse => cases h
    case isTrue hended =>
      cases h
      exact ⟨hu, hended, rfl⟩

/-- The thread goes on by itself. It does not go to sleep without a reference. -/
structure Turn (s : PushThread) (phase : Phase) : Prop where
  awake : s.phase ≠ .ended
  triggering : phase = .triggering → s.owner = none ∧ 0 < s.refCount
  wait : phase = .wait → 0 < s.refCount
  left : s.refCount = 0 → phase.left < s.phase.left

/-- Is it a step of the thread, and not of a call? -/
def Action.ofThread : Action → Bool
  | .takeLock | .endPass _ _ | .raise _ | .timeout => true
  | .call _ | .lock _ | .unlock _ | .signal _ | .join _ => false

/-- The loop goes round, in the hands of a thread that has the lock. -/
theorem turn_loop (hfree : s.owner = none) (hawake : s.phase ≠ .ended) : Turn s s.loop.phase where
  awake := hawake
  triggering h := by
    simp only [loop] at h
    split at h
    case isTrue => cases h
    case isFalse hrefs => exact ⟨hfree, by omega⟩
  wait h := by
    simp only [loop] at h
    split at h <;> cases h
  left hzero := by
    simp only [loop, hzero, Int.zero_lt_one, if_true]
    cases hphase : s.phase with
    | ended => exact absurd hphase hawake
    | triggering => decide
    | timedwait => decide
    | wait => decide
    | woken => decide

theorem turn_spec (hs : Inv s) (ha : a.ofThread = true) (h : step s a = some t) :
    ∃ phase, Turn s phase ∧ t = { s with phase := phase } := by
  have hne : ∀ phase, s.phase = phase → phase ≠ .ended → s.phase ≠ .ended := by
    rintro phase rfl hphase
    exact hphase
  cases a with
  | call c => cases ha
  | lock u => cases ha
  | unlock u => cases ha
  | signal u => cases ha
  | join u => cases ha
  | takeLock =>
      simp only [step] at h
      split at h
      case isFalse => cases h
      case isTrue hwoken =>
        cases h
        exact ⟨_, turn_loop hwoken.2 (hne _ hwoken.1 Phase.noConfusion), rfl⟩
  | endPass busy waiting =>
      simp only [step] at h
      split at h
      case isFalse => cases h
      case isTrue hphase =>
        cases h
        have hpos := (hs.triggering hphase).2
        refine ⟨_, ⟨hne _ hphase Phase.noConfusion, ?_, fun _ => hpos, ?_⟩, rfl⟩
        · intro h
          cases busy <;> cases waiting <;> cases h
        · intro hzero
          exact absurd hzero hpos.ne'
  | raise corba =>
      simp only [step] at h
      split at h
      case isFalse => cases h
      case isTrue hphase =>
        have hawake := hne _ hphase Phase.noConfusion
        cases corba with
        | true =>
            cases h
            exact ⟨_, turn_loop (hs.triggering hphase).1 hawake, rfl⟩
        | false =>
            cases h
            refine ⟨_, ⟨hawake, (fun h => by cases h), (fun h => by cases h), fun _ => ?_⟩, rfl⟩
            rw [hphase]
            decide
  | timeout =>
      simp only [step] at h
      split at h
      case isFalse => cases h
      case isTrue hphase =>
        cases h
        refine ⟨_, ⟨hne _ hphase Phase.noConfusion, (fun h => by cases h), (fun h => by cases h),
          fun _ => ?_⟩, rfl⟩
        rw [hphase]
        decide

/-! ## What a step leaves as it is -/

theorem unlocked_ne (c : LockUse) (myref : ℤ) (c' : LockUse) (myref' : ℤ) :
    (if c.signals then .signal c myref else .done : CallPhase) ≠ .locked c' myref' := by
  split <;> exact CallPhase.noConfusion

theorem signalled_ne (c : LockUse) (myref : ℤ) (c' : LockUse) (myref' : ℤ) :
    (if c = ._remove_ref ∧ myref = 0 then .join else .done : CallPhase) ≠ .locked c' myref' := by
  split <;> exact CallPhase.noConfusion

theorem refs_signalled (c : LockUse) (myref : ℤ) :
    (if c = ._remove_ref ∧ myref = 0 then .join else .done : CallPhase).refs = 0 := by
  split <;> rfl

/-- The references of a call stay with it, or are given back. -/
theorem Inv.refs_set {p q : CallPhase} {refCount : ℤ} {held : ℕ} (hs : Inv s)
    (hu : s.calls[u]? = some p) (h : refCount + s.held + p.refs = s.refCount + held + q.refs) :
    refCount = held + ((s.calls.set u q).map CallPhase.refs).sum := by
  have hrefs := hs.refs
  have hset := sum_set (w := CallPhase.refs) (b := q) hu
  omega

theorem Inv.last_set {p q : CallPhase} (hs : Inv s) (hu : s.calls[u]? = some p)
    (h : q.last = p.last) : (s.calls.set u q).countP CallPhase.last + s.deleted.toNat =
      if s.refCount = 0 then 1 else 0 := by
  rw [countP_set_of_eq hu h]
  exact hs.last

/-- A call that does not get the lock. -/
theorem Inv.locked_set {p q : CallPhase} (hs : Inv s) (hu : s.calls[u]? = some p)
    (hq : ∀ c myref, q ≠ .locked c myref) (v : ℕ) (c : LockUse) (myref : ℤ)
    (hv : (s.calls.set u q)[v]? = some (.locked c myref)) :
    v ≠ u ∧ s.owner = some v ∧ myref = s.refCount := by
  rcases (getElem?_set_iff hu).1 hv with ⟨-, hv⟩ | ⟨hne, hv⟩
  · exact absurd hv.symm (hq c myref)
  · exact ⟨hne, hs.locked v c myref hv⟩

/-- A call that does not have the lock. -/
theorem Inv.owner_set {p q : CallPhase} (hs : Inv s) (hu : s.calls[u]? = some p)
    (hp : ∀ c myref, p ≠ .locked c myref) (v : ℕ) (hv : s.owner = some v) :
    ∃ c, (s.calls.set u q)[v]? = some (.locked c s.refCount) := by
  obtain ⟨c, hc⟩ := hs.owner v hv
  refine ⟨c, (getElem?_set_iff hu).2 (Or.inr ⟨?_, hc⟩)⟩
  rintro rfl
  rw [hu] at hc
  exact hp c _ (Option.some.inj hc)

theorem inv_call (hs : Inv s) (h : step s (.call c) = some t) : Inv t := by
  obtain ⟨hheld, rfl⟩ := call_spec h
  exact {
    refs := by
      have hrefs := hs.refs
      simp only [List.map_append, List.sum_append, List.map_cons, List.map_nil, List.sum_cons,
        List.sum_nil, CallPhase.refs]
      omega
    locked := by
      intro v c' myref hv
      rcases getElem?_concat_iff.1 hv with hv | ⟨-, hv⟩
      · exact hs.locked v c' myref hv
      · cases hv
    owner := by
      intro v hv
      obtain ⟨c', hc'⟩ := hs.owner v hv
      exact ⟨c', getElem?_concat_iff.2 (Or.inl hc')⟩
    triggering := hs.triggering
    asleep := by
      intro hphase hzero
      have hwakes := hs.asleep hphase hzero
      rw [List.countP_append]
      omega
    last := by
      have hlast := hs.last
      simpa [List.countP_append, CallPhase.last] using hlast
    deleted := hs.deleted }

/-- The count is changed by what the call has had, and is going to give back. -/
theorem inv_lock (hs : Inv s) (h : step s (.lock u) = some t) : Inv t := by
  obtain ⟨c, hu, hfree, hphase, rfl⟩ := lock_spec h
  have hpos := hs.pos_of_lock hu
  have hcount : c.count s.refCount + 1 = s.refCount + c.returns := by
    cases c <;> simp only [LockUse.count, LockUse.returns] <;> omega
  have hzero : c.count s.refCount = 0 → c = ._remove_ref := by
    intro hc
    refine LockUse.eq_remove_ref ?_
    omega
  exact {
    refs := by
      refine hs.refs_set hu ?_
      simp only [CallPhase.refs]
      omega
    locked := by
      intro v c' myref hv
      rcases (getElem?_set_iff hu).1 hv with ⟨rfl, heq⟩ | ⟨-, hv⟩
      · cases heq
        exact ⟨rfl, rfl⟩
      · have howner := (hs.locked v c' myref hv).1
        rw [hfree] at howner
        cases howner
    owner := by
      intro v hv
      cases hv
      exact ⟨c, (getElem?_set_iff hu).2 (Or.inl ⟨rfl, rfl⟩)⟩
    triggering := fun h => absurd h hphase
    asleep := by
      intro _ hc
      obtain rfl := hzero hc
      have hset := countP_set (p := CallPhase.wakes)
        (b := .locked ._remove_ref (LockUse.count s.refCount ._remove_ref)) hu
      simp only [CallPhase.wakes, LockUse.signals, Bool.toNat_true, Bool.toNat_false] at hset ⊢
      omega
    last := by
      have hlast := hs.last
      have hset := countP_set (p := CallPhase.last)
        (b := .locked c (c.count s.refCount)) hu
      rw [if_neg hpos.ne'] at hlast
      simp only [CallPhase.last, Bool.toNat_false] at hset ⊢
      split
      case isTrue hc =>
        rw [decide_eq_true ⟨hzero hc, hc⟩, Bool.toNat_true] at hset
        omega
      case isFalse hc =>
        rw [decide_eq_false fun h => hc h.2, Bool.toNat_false] at hset
        omega
    deleted := hs.deleted }

theorem inv_unlock (hs : Inv s) (h : step s (.unlock u) = some t) : Inv t := by
  obtain ⟨c, myref, hu, rfl⟩ := unlock_spec h
  obtain ⟨howner, rfl⟩ := hs.locked u c myref hu
  exact {
    refs := by
      refine hs.refs_set hu ?_
      cases c.signals with
      | true => rfl
      | false =>
          simp only [Bool.false_eq_true, if_false, CallPhase.refs]
          omega
    locked := by
      intro v c' myref hv
      obtain ⟨hne, hv, -⟩ := hs.locked_set hu (unlocked_ne c _) v c' myref hv
      rw [howner] at hv
      exact absurd (Option.some.inj hv).symm hne
    owner := by
      intro v hv
      cases hv
    triggering := fun h => ⟨rfl, (hs.triggering h).2⟩
    asleep := by
      intro hphase hzero
      have hwakes := hs.asleep hphase hzero
      rwa [countP_set_of_eq hu (by cases c <;> rfl)]
    last := hs.last_set hu (by cases c <;> rfl)
    deleted := hs.deleted }

theorem inv_signal (hs : Inv s) (h : step s (.signal u) = some t) : Inv t := by
  obtain ⟨c, myref, hu, rfl⟩ := signal_spec h
  exact {
    refs := by
      refine hs.refs_set hu ?_
      rw [refs_signalled]
      simp only [CallPhase.refs]
      omega
    locked v c' myref' hv := (hs.locked_set hu (signalled_ne c myref) v c' myref' hv).2
    owner := hs.owner_set hu fun _ _ => CallPhase.noConfusion
    triggering := by
      intro h
      simp only at h
      split at h
      · cases h
      · exact hs.triggering h
    asleep := by
      intro h
      simp only at h
      split at h
      case isTrue => cases h
      case isFalse hawake => exact absurd (Or.inr h) hawake
    last := by
      refine hs.last_set hu ?_
      by_cases hlast : c = ._remove_ref ∧ myref = 0
      · rw [if_pos hlast, CallPhase.last, CallPhase.last, decide_eq_true hlast]
      · rw [if_neg hlast, CallPhase.last, CallPhase.last, decide_eq_false hlast]
    deleted := by
      intro h
      have hended := hs.deleted h
      simp [hended] }

/-- The object is deleted by the call that has dropped the last reference. -/
theorem inv_join (hs : Inv s) (h : step s (.join u) = some t) : Inv t := by
  obtain ⟨hu, hended, rfl⟩ := join_spec h
  exact {
    refs := by
      refine hs.refs_set hu ?_
      rfl
    locked v c' myref hv :=
      (hs.locked_set hu (fun _ _ => CallPhase.noConfusion) v c' myref hv).2
    owner := hs.owner_set hu fun _ _ => CallPhase.noConfusion
    triggering := hs.triggering
    asleep := by
      intro h
      rw [hended] at h
      cases h
    last := by
      have hlast := hs.last
      have hset := countP_set (p := CallPhase.last) (b := .done) hu
      simp only [CallPhase.last, Bool.toNat_true, Bool.toNat_false] at hset ⊢
      have hle : (if s.refCount = 0 then 1 else 0) ≤ 1 := by
        split <;> omega
      omega
    deleted := fun _ => hended }

theorem inv_turn {phase : Phase} (hs : Inv s) (h : Turn s phase) :
    Inv { s with phase := phase } where
  refs := hs.refs
  locked := hs.locked
  owner := hs.owner
  triggering := h.triggering
  asleep hphase hzero := absurd hzero (h.wait hphase).ne'
  last := hs.last
  deleted hdeleted := absurd (hs.deleted hdeleted) h.awake

theorem inv_step (hs : Inv s) (h : step s a = some t) : Inv t := by
  cases a with
  | call c => exact inv_call hs h
  | lock u => exact inv_lock hs h
  | unlock u => exact inv_unlock hs h
  | signal u => exact inv_signal hs h
  | join u => exact inv_join hs h
  | takeLock | endPass busy waiting | raise corba | timeout =>
      obtain ⟨phase, hturn, rfl⟩ := turn_spec hs rfl h
      exact inv_turn hs hturn

/-! ## The object is not used after it has been deleted -/

/-- No other call is going to signal when the thread is joined. -/
def Apart (s : PushThread) : Action → Prop
  | .join _ => ∀ p ∈ s.calls, p.wakes = false
  | _ => True

instance decidableApart (s : PushThread) : ∀ a, Decidable (Apart s a)
  | .join _ => inferInstanceAs (Decidable (∀ p ∈ s.calls, p.wakes = false))
  | .call _ | .lock _ | .unlock _ | .signal _ | .takeLock | .endPass _ _ | .raise _ | .timeout =>
      isTrue trivial

/-- The object has not been used after its deletion, and nobody is left who would use it. -/
structure Safe (s : PushThread) : Prop where
  inv : Inv s
  misused : s.misused = false
  apart : s.deleted = true → ∀ p ∈ s.calls, p.wakes = false

/-- The object of a call that has something left to do is there. -/
theorem Safe.alive {p : CallPhase} (hs : Safe s) (h : s.calls[u]? = some p) (hp : p ≠ .done) :
    s.deleted = false := by
  refine Bool.eq_false_iff.2 fun hdeleted => ?_
  obtain ⟨hzero, hlast⟩ := hs.inv.of_deleted hdeleted
  have hlast := hlast p (List.mem_of_getElem? h)
  have hwakes := hs.apart hdeleted p (List.mem_of_getElem? h)
  cases p with
  | lock c => exact (hs.inv.pos_of_lock h).ne' hzero
  | locked c myref =>
      rw [hs.inv.locked_of_zero hzero h] at hwakes
      cases hwakes
  | signal c myref => cases hwakes
  | join => cases hlast
  | done => exact hp rfl

theorem safe_init : Safe init where
  inv := inv_init
  misused := rfl
  apart h := by cases h

/-- A step of a call that has something left to do. -/
theorem Safe.use {p : CallPhase} (hs : Safe s) (hinv : Inv t) (hu : s.calls[u]? = some p)
    (hp : p ≠ .done) (hmisused : t.misused = (s.misused || s.deleted))
    (hdeleted : t.deleted = s.deleted) : Safe t := by
  have halive := hs.alive hu hp
  refine ⟨hinv, by rw [hmisused, hs.misused, halive, Bool.or_false], fun h => ?_⟩
  rw [hdeleted, halive] at h
  cases h

theorem safe_step (hs : Safe s) (hok : Apart s a) (h : step s a = some t) : Safe t := by
  have hinv := inv_step hs.inv h
  cases a with
  | call c =>
      obtain ⟨hheld, rfl⟩ := call_spec h
      refine ⟨hinv, hs.misused, fun hdeleted => ?_⟩
      have hrefs := hs.inv.refs
      have hzero := (hs.inv.of_deleted hdeleted).1
      omega
  | lock u =>
      obtain ⟨c, hu, -, -, rfl⟩ := lock_spec h
      exact hs.use hinv hu CallPhase.noConfusion rfl rfl
  | unlock u =>
      obtain ⟨c, myref, hu, rfl⟩ := unlock_spec h
      exact hs.use hinv hu CallPhase.noConfusion rfl rfl
  | signal u =>
      obtain ⟨c, myref, hu, rfl⟩ := signal_spec h
      exact hs.use hinv hu CallPhase.noConfusion rfl rfl
  | join u =>
      obtain ⟨hu, -, rfl⟩ := join_spec h
      have halive := hs.alive hu CallPhase.noConfusion
      refine ⟨hinv, by rw [hs.misused, halive, Bool.or_false], ?_⟩
      intro _ p hp
      rcases List.mem_or_eq_of_mem_set hp with hp | rfl
      · exact hok p hp
      · rfl
  | takeLock | endPass busy waiting | raise corba | timeout =>
      obtain ⟨phase, -, rfl⟩ := turn_spec hs.inv rfl h
      exact ⟨hinv, hs.misused, hs.apart⟩

/-! ## The thread comes to its end

With a count of zero every step takes something off what is left, and where no step is possible the
object has been deleted. -/

/-- Without a reference every step brings the end nearer. -/
theorem left_lt (hs : Inv s) (hzero : s.refCount = 0) (h : step s a = some t) :
    t.refCount = 0 ∧ t.left < s.left := by
  cases a with
  | call c =>
      have hheld := (call_spec h).1
      have hrefs := hs.refs
      omega
  | lock u =>
      obtain ⟨c, hu, -⟩ := lock_spec h
      exact absurd hzero (hs.pos_of_lock hu).ne'
  | unlock u =>
      obtain ⟨c, myref, hu, rfl⟩ := unlock_spec h
      obtain rfl := hs.locked_of_zero hzero hu
      refine ⟨hzero, ?_⟩
      have hset := sum_set (w := CallPhase.left) (b := .signal ._remove_ref myref) hu
      simp only [CallPhase.left] at hset
      simp only [left, LockUse.signals, if_true]
      omega
  | signal u =>
      obtain ⟨c, myref, hu, rfl⟩ := signal_spec h
      refine ⟨hzero, ?_⟩
      have hset := sum_set (w := CallPhase.left)
        (b := if c = ._remove_ref ∧ myref = 0 then .join else .done) hu
      have hcall : (if c = ._remove_ref ∧ myref = 0 then .join else .done : CallPhase).left ≤ 1 := by
        split
        · exact le_rfl
        · exact Nat.zero_le 1
      have hphase : (if s.phase = .timedwait ∨ s.phase = .wait then .woken else s.phase).left ≤
          s.phase.left := by
        split
        case isTrue hasleep => rcases hasleep with h | h <;> rw [h] <;> decide
        case isFalse => exact le_rfl
      change _ + 2 = _ at hset
      simp only [left]
      omega
  | join u =>
      obtain ⟨hu, -, rfl⟩ := join_spec h
      refine ⟨hzero, ?_⟩
      have hset := sum_set (w := CallPhase.left) (b := .done) hu
      simp only [CallPhase.left] at hset
      simp only [left]
      omega
  | takeLock | endPass busy waiting | raise corba | timeout =>
      obtain ⟨phase, hturn, rfl⟩ := turn_spec hs rfl h
      exact ⟨hzero, Nat.add_lt_add_right (hturn.left hzero) _⟩

theorem unlock_ne_none (h : s.calls[u]? = some (.locked c myref)) : step s (.unlock u) ≠ none := by
  simp [step, h]

theorem signal_ne_none (h : s.calls[u]? = some (.signal c myref)) : step s (.signal u) ≠ none := by
  simp [step, h]

/-- Somebody can go on as long as the object has not been deleted. -/
theorem deleted_of_stuck (hs : Inv s) (hzero : s.refCount = 0) (h : ∀ a, step s a = none) :
    s.deleted = true := by
  by_contra hdeleted
  rw [Bool.not_eq_true] at hdeleted
  have hlast := hs.last
  rw [hdeleted, if_pos hzero] at hlast
  obtain ⟨p, hp, hplast⟩ := List.countP_pos_iff.1 (hlast ▸ Nat.one_pos : 0 < s.calls.countP _)
  obtain ⟨u, hu⟩ := List.getElem?_of_mem hp
  cases p with
  | lock c => exact (hs.pos_of_lock hu).ne' hzero
  | locked c myref => exact unlock_ne_none hu (h _)
  | signal c myref => exact signal_ne_none hu (h _)
  | done => cases hplast
  | join =>
      cases hphase : s.phase with
      | triggering => exact (hs.triggering hphase).2.ne' hzero
      | timedwait =>
          have htimeout := h .timeout
          simp [step, hphase] at htimeout
      | wait =>
          -- The thread was asleep before the last reference was dropped: a signal is on its way.
          obtain ⟨q, hq, hwakes⟩ := List.countP_pos_iff.1 (hs.asleep hphase hzero)
          obtain ⟨v, hv⟩ := List.getElem?_of_mem hq
          cases q with
          | locked c myref => exact unlock_ne_none hv (h _)
          | signal c myref => exact signal_ne_none hv (h _)
          | lock c => cases hwakes
          | join => cases hwakes
          | done => cases hwakes
      | woken =>
          cases howner : s.owner with
          | none =>
              have hlock := h .takeLock
              simp [step, hphase, howner] at hlock
          | some v =>
              obtain ⟨c, hv⟩ := hs.owner v howner
              exact unlock_ne_none hv (h _)
      | ended =>
          have hjoin := h (.join u)
          simp [step, hu, hphase] at hjoin

/-- **The thread comes to its end.** In every run of a manager that is used by threads with a reference
    to it, the count is never negative, and the object is deleted when it is zero, by the one call that
    has made it so, after the thread has ended. Once it is zero only so many steps are left, and when
    none of them is possible any more the object has been deleted: the signal is not lost, and `join`
    does not wait for ever. And if no other call has still to signal when the thread is joined, the
    object is not used after it has been deleted. -/
theorem thread_ends (as : List Action) (s : PushThread) (hrun : Run step init as = some s) :
    0 ≤ s.refCount ∧
      s.calls.countP CallPhase.last + s.deleted.toNat = (if s.refCount = 0 then 1 else 0) ∧
      (s.deleted = true → s.phase = .ended) ∧
      (s.refCount = 0 → ∀ bs t, Run step s bs = some t →
        bs.length + t.left ≤ s.left ∧ ((∀ a, step t a = none) → t.deleted = true)) ∧
      (Along step Apart init as → s.misused = false) := by
  have hs : Inv s := Run.invariant (fun _ _ _ hs h => inv_step hs h) inv_init hrun
  refine ⟨hs.nonneg, hs.last, hs.deleted, ?_, ?_⟩
  · intro hzero bs t hbs
    obtain ⟨⟨ht, hzero⟩, hle⟩ :=
      Run.length_add_le (P := fun s : PushThread => Inv s ∧ s.refCount = 0)
        (fun s a t hs h => ⟨⟨inv_step hs.1 h, (left_lt hs.1 hs.2 h).1⟩, (left_lt hs.1 hs.2 h).2⟩)
        ⟨hs, hzero⟩ hbs
    exact ⟨hle, deleted_of_stuck ht hzero⟩
  · intro hok
    exact (Run.invariant_of_along (fun _ _ _ hs hok h => safe_step hs hok h) safe_init hok
      hrun).misused

/-- The last reference is dropped while the thread is asleep. -/
def asleep : List Action :=
  [.takeLock, .endPass false false, .call ._remove_ref, .lock 0, .unlock 0, .signal 0, .takeLock,
    .join 0]

theorem thread_ends_asleep :
    ∃ s, Run step init asleep = some s ∧ s.deleted = true ∧ s.phase = .ended ∧ s.misused = false := by
  obtain ⟨s, hrun, hdeleted⟩ : ∃ s, Run step init asleep = some s ∧ s.deleted = true :=
    ⟨_, rfl, rfl⟩
  obtain ⟨-, -, hended, -, hsafe⟩ := thread_ends asleep s hrun
  exact ⟨s, hrun, hdeleted, hended hdeleted, hsafe (by decide)⟩

/-- Of two references the one dropped first is signalled last, to a condition that is gone. -/
example : (Run step init [.call ._add_ref, .lock 0, .unlock 0, .call ._remove_ref, .lock 1, .unlock 1,
    .call ._remove_ref, .lock 2, .unlock 2, .signal 2, .takeLock, .join 2, .signal 1]).map misused =
      some true := by decide

end PushThread

end OmniEvents
