import OmniEvents.PushManager

set_option autoImplicit false

/-! # When the thread that pushes events may sleep

The thread blocks without a time limit when a pass over its servants has neither pushed an event nor
found an outstanding request. Whatever brings new work afterwards signals the condition, with two
exceptions: `connect_push_consumer` gives a servant its target without the lock and without a signal,
and a failed push of a consumer that has disconnected in the meantime leaves the request where it is.
Where neither happens behind the back of the thread, no wake-up is lost (`no_lost_wakeup`). -/

namespace OmniEvents

open Transition

variable {Ref : Type}

namespace PushManager

/-- While the thread is blocked and no signal is on its way, there is nothing to do. -/
def NoLostWakeup (m : PushManager Ref) : Prop :=
  m.phase = .wait → m.signals = 0 → ∀ p ∈ m.servants, p.Settled m.consumerAdmin.queue

/-- Will the thread come to the `i`-th servant before it blocks? -/
def looksAt (m : PushManager Ref) (i : ℕ) : Bool :=
  match m.phase with
  | .triggering count busy waiting => decide (count ≤ i) || busy || waiting
  | .wait => decide (m.signals ≠ 0)
  | _ => true

/-- Is the servant free for a consumer, and are there events for it already? -/
def catchesUp (q : EventQueue) (p : PushServant Ref) : Bool :=
  p.active && p.target.isNone && p.req.isNone && p.reader.moreEvents q

/-- Will `trigger` leave a request where it is? -/
def leavesRequest (log : Bool) (calls : TriggerCall → Bool) (q : EventQueue) (p : PushServant Ref) :
    Bool :=
  p.failed && p.target.isNone && !p.raises log calls q

/-- No consumer is connected to a servant with unread events that the thread has passed already; and
    no request is left in a pass that has found nothing to do. -/
def timely (log : Bool) (m : PushManager Ref) : Action Ref → Bool
  | .connect_push_consumer i (some _) =>
      match m.servants[i]? with
      | some p => !catchesUp m.consumerAdmin.queue p || m.looksAt i
      | none => true
  | .trigger calls =>
      match m.phase with
      | .triggering i busy waiting =>
          match m.servants[i]? with
          | some p => !leavesRequest log calls m.consumerAdmin.queue p || busy || waiting
          | none => true
      | _ => true
  | _ => true

/-! ## The invariant -/

/-- What the thread has passed without finding anything to do, and what it sleeps over, is settled. -/
structure Awake (m : PushManager Ref) : Prop where
  asleep : m.NoLostWakeup
  passed : ∀ count, m.phase = .triggering count false false → ∀ i < count, ∀ p,
    m.servants[i]? = some p → p.Settled m.consumerAdmin.queue

section Steps

variable {log : Bool} {orb : Orb Ref} {m t : PushManager Ref} {a : Action Ref}

/-- A phase in which there is nothing to show. -/
theorem Awake.of_phase (hwait : m.phase ≠ .wait)
    (hpass : ∀ count, m.phase ≠ .triggering (count + 1) false false) : m.Awake := by
  constructor
  · exact fun h => absurd h hwait
  · intro count h i hi
    cases count with
    | zero => exact absurd hi (Nat.not_lt_zero i)
    | succ count => exact absurd h (hpass count)

/-- A servant that is touched stays settled, unless it is connected to events. -/
theorem Touched.settled {i : ℕ} {p r : PushServant Ref} (h : Touched a i p r) {q : EventQueue}
    (hp : p.Settled q) :
    r.Settled q ∨ (∃ pushConsumer, a = .connect_push_consumer i (some pushConsumer)) ∧
      catchesUp q p = true := by
  obtain ⟨hreq, hevents⟩ := hp
  rcases h.target with hsame | hnone | ⟨hconnect, hactive, htarget, -⟩
  · exact Or.inl ⟨h.req.trans hreq, by rw [hsame, h.reader]; exact hevents⟩
  · exact Or.inl ⟨h.req.trans hreq, Or.inl hnone⟩
  · cases hmore : p.reader.moreEvents q with
    | false => exact Or.inl ⟨h.req.trans hreq, Or.inr (by rw [h.reader, hmore])⟩
    | true => exact Or.inr ⟨hconnect, by simp [catchesUp, hactive, htarget, hreq, hmore]⟩

theorem Awake.touch (h : m.Awake) {i : ℕ} {p r : PushServant Ref} (hp : m.servants[i]? = some p)
    (htouched : Touched a i p r) (hok : timely log m a = true) : (m.setServant i r).Awake := by
  -- a servant that the thread will not look at stays settled
  have key : m.looksAt i = false → p.Settled m.consumerAdmin.queue → r.Settled m.consumerAdmin.queue := by
    intro hlooks hsettled
    rcases htouched.settled hsettled with hr | ⟨⟨pushConsumer, rfl⟩, hcatches⟩
    · exact hr
    · simp [timely, hp, hcatches, hlooks] at hok
  have hlt : i < m.servants.length := (List.getElem?_eq_some_iff.1 hp).1
  constructor
  · intro hwait hsignals r' hr'
    rcases List.mem_or_eq_of_mem_set hr' with hmem | rfl
    · exact h.asleep hwait hsignals r' hmem
    · have hphase : m.phase = .wait := hwait
      have hnone : m.signals = 0 := hsignals
      exact key (by simp [looksAt, hphase, hnone])
        (h.asleep hwait hsignals p (List.mem_of_getElem? hp))
  · intro count hpass j hj r' hr'
    have hphase : m.phase = .triggering count false false := hpass
    by_cases hij : i = j
    · subst hij
      simp only [setServant, List.getElem?_set_self hlt, Option.some.injEq] at hr'
      subst hr'
      exact key (by simp [looksAt, hphase, hj]) (h.passed count hpass i hj p hp)
    · simp only [setServant, List.getElem?_set_ne hij] at hr'
      exact h.passed count hpass j hj r' hr'

theorem Awake.trigger (h : m.Awake) {i : ℕ} {busy waiting : Bool} {p : PushServant Ref}
    {calls : TriggerCall → Bool} (hphase : m.phase = .triggering i busy waiting)
    (hp : m.servants[i]? = some p) (hok : timely log m (.trigger calls) = true) :
    (m.triggerAt log i busy waiting p calls).Awake := by
  have hlt : i < m.servants.length := (List.getElem?_eq_some_iff.1 hp).1
  cases hraised : (p.trigger log calls m.consumerAdmin.queue).raised with
  | true =>
      refine .of_phase ?_ ?_
      · simp [triggerAt, hraised]
      · intro count
        simp [triggerAt, hraised]
  | false =>
      constructor
      · intro hwait
        simp [triggerAt, hraised] at hwait
      · intro count hpass j hj r hr
        simp only [triggerAt, hraised, Bool.false_eq_true, if_false, Phase.triggering.injEq,
          Bool.or_eq_false_iff] at hpass
        -- no flag is set, neither before nor by this servant
        obtain ⟨rfl, ⟨rfl, -⟩, ⟨rfl, hwaiting⟩⟩ := hpass
        by_cases hij : i = j
        · subst hij
          simp only [triggerAt, setServant, List.getElem?_set_self hlt, Option.some.injEq] at hr
          subst hr
          -- the request that is left in spite of this is what `timely` excludes
          refine PushServant.trigger_settled hraised hwaiting ?_
          intro hfailed htarget
          rw [PushServant.trigger_raised] at hraised
          simp [timely, hphase, hp, leavesRequest, hfailed, htarget, hraised] at hok
        · simp only [triggerAt, setServant, List.getElem?_set_ne hij] at hr
          exact h.passed i hphase j (by omega) r hr

theorem Awake.step (h : m.Awake) (hok : timely log m a = true)
    (hst : m.step log orb a = some t) : t.Awake := by
  cases step_cases hst with
  | aside constructed other => exact ⟨h.asleep, h.passed⟩
  | touch hp touched other => exact h.touch hp touched hok
  | work worked other =>
      constructor
      -- a signal is pending, and the thread is not in a pass
      · intro _ hsignals
        rw [worked.signals] at hsignals
        cases hsignals
      · intro count hpass
        have hunlocked := worked.unlocked
        simp [locked, ← worked.phase, hpass] at hunlocked
  | etherealize hp unlocked =>
      constructor
      · intro hwait hsignals r hr
        exact h.asleep hwait hsignals r (List.mem_of_mem_eraseIdx hr)
      · intro count hpass
        simp [locked, show m.phase = _ from hpass] at unlocked
  | signal signals =>
      constructor
      · intro hwait
        cases hphase : m.phase <;> simp [signalled, hphase] at hwait
      · intro count hpass
        refine h.passed count ?_
        cases hphase : m.phase <;> simp [signalled, hphase] at hpass ⊢
        exact hpass
  | lock unlocked => exact .of_phase (by simp) (by simp)
  | timeout phase => exact .of_phase (by simp) (by simp)
  | trigger calls phase hp => exact h.trigger phase hp hok
  | @endPass busy waiting phase =>
      cases busy with
      | true => exact .of_phase (by simp [sleep]) (by simp [sleep])
      | false =>
          cases waiting with
          | true => exact .of_phase (by simp [sleep]) (by simp [sleep])
          | false =>
              constructor
              -- the thread blocks: all servants have been passed without a flag
              · intro _ _ p hp
                obtain ⟨i, hi, rfl⟩ := List.getElem_of_mem hp
                exact h.passed _ phase i hi _ (List.getElem?_eq_getElem hi)
              · intro count hpass
                simp [sleep] at hpass

/-- A connect behind the back of the blocked thread does lose a wake-up. -/
theorem not_noLostWakeup_of_untimely (hphase : m.phase = .wait) (hsignals : m.signals = 0)
    (huntimely : timely log m a = false) (hst : m.step log orb a = some t) : ¬t.NoLostWakeup := by
  unfold timely at huntimely
  split at huntimely
  · next i c =>
      cases hp : m.servants[i]? with
      | none => simp [hp] at huntimely
      | some p =>
          have hlt : i < m.servants.length := (List.getElem?_eq_some_iff.1 hp).1
          have hcatches : catchesUp m.consumerAdmin.queue p = true := by
            simp only [hp, Bool.or_eq_false_iff] at huntimely
            simpa using huntimely.1
          simp only [catchesUp, Bool.and_eq_true, Option.isNone_iff_eq_none] at hcatches
          obtain ⟨⟨⟨hactive, htarget⟩, hreq⟩, hmore⟩ := hcatches
          simp only [PushManager.step, hp, hactive, ProxyPushSupplier.connect_push_consumer, htarget,
            hreq, Option.isSome_none, Bool.or_self, Bool.false_eq_true, if_false, if_true] at hst
          cases hst
          -- the servant has a target and unread events now
          intro h
          have hsettled := (h hphase hsignals _ (List.mem_set hlt _)).2
          simp [setServant, hmore] at hsettled
  · simp [hphase] at huntimely
  · cases huntimely

end Steps

/-- **No wake-up is lost** in a run in which no consumer is connected behind the back of the thread,
    and no request left there. -/
theorem no_lost_wakeup {log : Bool} {orb : Orb Ref} {consumerAdmin : ConsumerAdmin} {heap : Heap}
    {as : List (Action Ref)} {m : PushManager Ref}
    (hok : Along (step log orb) (fun m a => timely log m a = true) (new consumerAdmin heap) as)
    (hrun : Run (step log orb) (new consumerAdmin heap) as = some m) : m.NoLostWakeup := by
  have hinit : (new consumerAdmin heap : PushManager Ref).Awake := .of_phase (by simp [new]) (by simp [new])
  exact (Run.invariant_of_along (fun _ _ _ => Awake.step) hinit hok hrun).asleep

/-- A manager with no servants, before its thread has started. -/
def emptyManager : PushManager Str := new ⟨EventQueue.new 4 none, []⟩ ⟨[], []⟩

/-- All calls of `trigger` succeed. -/
def calm : TriggerCall → Bool := fun _ => false

/-- A pass over one servant. -/
def passOverOne : List (Action Str) := [.lock, .trigger calm, .endPass]

/-- Somebody sends an event to the manager. -/
def oneEvent : Action Str := .send ⟨⟨.tk_long, []⟩, [1]⟩

/-- A consumer is connected, and then receives an event. -/
def connectThenSend : List (Action Str) :=
  [.construct ['1'], .insert 0 0, .connect_push_consumer 0 (some ['I'])] ++ passOverOne ++
    [.signal] ++ passOverOne ++ [oneEvent, .signal] ++ passOverOne ++ [.reply 0 .returned] ++
    passOverOne ++ passOverOne

/-- A nil consumer is rejected, an event arrives, and only then a consumer is connected. -/
def connectAfterSend : List (Action Str) :=
  [.construct ['1'], .insert 0 0, .connect_push_consumer 0 none] ++ passOverOne ++ [.signal] ++
    passOverOne ++ [oneEvent, .signal] ++ passOverOne ++ [.connect_push_consumer 0 (some ['I'])]

theorem no_lost_wakeup_connectThenSend :
    ∃ m, Run (step false stringOrb) emptyManager connectThenSend = some m ∧ m.phase = .wait ∧
      m.signals = 0 ∧ m.NoLostWakeup := by
  have hok : Along (step false stringOrb) (fun m a => timely false m a = true) emptyManager
      connectThenSend := by
    decide +kernel
  obtain ⟨m, hrun, hphase, hsignals⟩ : ∃ m, Run (step false stringOrb) emptyManager connectThenSend
      = some m ∧ m.phase = .wait ∧ m.signals = 0 := by
    refine ⟨_, rfl, ?_, ?_⟩
    · rfl
    · rfl
  exact ⟨m, hrun, hphase, hsignals, no_lost_wakeup hok hrun⟩

/-- The thread stays blocked, although there is an event for the consumer. -/
theorem event_waits :
    ∃ m, Run (step false stringOrb) emptyManager connectAfterSend = some m ∧ ¬m.NoLostWakeup :=
  ⟨_, rfl, fun h => absurd (h rfl rfl _ (List.mem_singleton_self _)).2 (by decide)⟩

end PushManager

end OmniEvents
