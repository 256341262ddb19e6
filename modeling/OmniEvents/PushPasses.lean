import OmniEvents.PushManager

set_option autoImplicit false

/-! # Passes of the thread that pushes events

An exception in `trigger` leaves the pass before the thread has come to all servants, and leads into
the next pass without letting go of the lock. `PassLog` watches the passes: it is `fair` as long as
each of them has triggered every servant and has released the lock before the next began. That is so
exactly until `trigger` raises (`fair_iff`). A consumer that disconnects while an event is on its way
to it makes `trigger` raise again and again, and then nobody ever gets the lock (`lock_kept`). -/

namespace OmniEvents

open Transition

variable {Ref : Type}

/-- A manager with the passes of its thread: how many servants there were when this pass began, which
    of them it has triggered, and whether the lock has been free since. -/
structure PassLog (Ref : Type) where
  manager : PushManager Ref
  present : ℕ
  triggered : List ℕ
  released : Bool
  fair : Bool
  deriving DecidableEq, Repr

namespace PassLog

open PushManager

/-- The manager before the first pass of its thread. -/
def new (consumerAdmin : ConsumerAdmin) (heap : Heap) : PassLog Ref :=
  { manager := PushManager.new consumerAdmin heap
    present := 0
    triggered := []
    released := true
    fair := true }

/-- `run_undetached` begins a pass. -/
def beginPass (s : PassLog Ref) (m : PushManager Ref) : PassLog Ref :=
  { manager := m
    present := m.servants.length
    triggered := []
    released := false
    fair := s.fair && decide (s.triggered = List.range s.present) && s.released }

/-- The manager after a step, and whether the lock has been let go. -/
def goOn (s : PassLog Ref) (m : PushManager Ref) : PassLog Ref :=
  { s with manager := m, released := s.released || !m.locked }

/-- What is seen of a step. -/
def record (s : PassLog Ref) (a : Action Ref) (m : PushManager Ref) : PassLog Ref :=
  match a, s.manager.phase with
  | .lock, _ => s.beginPass m
  | .trigger _, .triggering i _ _ =>
      let s := { s with triggered := s.triggered ++ [i] }
      -- an exception has led into the next pass
      if m.phase = .triggering 0 false false then s.beginPass m else s.goOn m
  | _, _ => s.goOn m

/-- A step of the manager, with what is noted of the passes. -/
def step (log : Bool) (orb : Orb Ref) (s : PassLog Ref) (a : Action Ref) : Option (PassLog Ref) :=
  (s.manager.step log orb a).map (s.record a)

/-- Does the step call `trigger`, and does that raise? -/
def raising (log : Bool) (s : PassLog Ref) : Action Ref → Bool
  | .trigger calls =>
      match s.manager.phase with
      | .triggering i _ _ =>
          match s.manager.servants[i]? with
          | some p => p.raises log calls s.manager.consumerAdmin.queue
          | none => false
      | _ => false
  | _ => false

/-- Within a pass, the servants triggered are those that were passed; between passes, they are all
    that there were. -/
structure Inv (s : PassLog Ref) : Prop where
  pass : ∀ count busy waiting, s.manager.phase = .triggering count busy waiting →
    s.present = s.manager.servants.length ∧ s.triggered = List.range count ∧ s.released = false
  between : s.manager.locked = false →
    s.triggered = List.range s.present ∧ s.released = true

section Steps

variable {log : Bool} {orb : Orb Ref} {s t : PassLog Ref} {a : Action Ref}

theorem record_of_other (h : a.ofThread = false) (m : PushManager Ref) : s.record a m = s.goOn m := by
  cases a <;> first | rfl | cases h

theorem locked_eq_true {m : PushManager Ref} :
    m.locked = true ↔ ∃ count busy waiting, m.phase = .triggering count busy waiting := by
  cases h : m.phase <;> simp [locked, h]

theorem Inv.new (consumerAdmin : ConsumerAdmin) (heap : Heap) :
    (PassLog.new consumerAdmin heap : PassLog Ref).Inv := by
  constructor
  · intro count busy waiting h
    cases h
  · exact fun _ => ⟨rfl, rfl⟩

/-- A step that leaves the phase and the number of servants alone. -/
theorem Inv.goOn_of_same (h : s.Inv) {m : PushManager Ref} (hphase : m.phase = s.manager.phase)
    (hlength : m.servants.length = s.manager.servants.length) : (s.goOn m).Inv := by
  have hlocked : m.locked = s.manager.locked := by simp only [locked, hphase]
  constructor
  · intro count busy waiting hcount
    obtain ⟨hpresent, htriggered, hreleased⟩ := h.pass count busy waiting (hphase ▸ hcount)
    have hheld : m.locked = true := locked_eq_true.2 ⟨_, _, _, hcount⟩
    exact ⟨hpresent.trans hlength.symm, htriggered, by simp [goOn, hreleased, hheld]⟩
  · intro hfree
    obtain ⟨htriggered, hreleased⟩ := h.between (hlocked ▸ hfree)
    exact ⟨htriggered, by simp [goOn, hreleased]⟩

/-- A step outside the passes. -/
theorem Inv.goOn_of_unlocked (h : s.Inv) {m : PushManager Ref} (hs : s.manager.locked = false)
    (hm : m.locked = false) : (s.goOn m).Inv := by
  constructor
  · intro count busy waiting hcount
    have hheld : m.locked = true := locked_eq_true.2 ⟨_, _, _, hcount⟩
    rw [hm] at hheld
    cases hheld
  · exact fun _ => ⟨(h.between hs).1, by simp [goOn, (h.between hs).2]⟩

theorem Inv.beginPass {m : PushManager Ref} (hphase : m.phase = .triggering 0 false false) :
    (s.beginPass m).Inv := by
  constructor
  · intro count busy waiting hcount
    obtain ⟨rfl, -, -⟩ := Phase.triggering.inj (hphase.symm.trans hcount)
    exact ⟨rfl, rfl, rfl⟩
  · intro hfree
    have hheld : m.locked = true := locked_eq_true.2 ⟨_, _, _, hphase⟩
    have hfree : m.locked = false := hfree
    rw [hfree] at hheld
    cases hheld

theorem raising_of_other (h : a.ofThread = false) : s.raising log a = false := by
  cases a <;> first | rfl | cases h

theorem Inv.trigger (h : s.Inv) {i : ℕ} {busy waiting : Bool} {p : PushServant Ref}
    {calls : TriggerCall → Bool} (hphase : s.manager.phase = .triggering i busy waiting)
    (hp : s.manager.servants[i]? = some p) :
    (s.record (.trigger calls) (s.manager.triggerAt log i busy waiting p calls)).Inv ∧
      ((s.record (.trigger calls) (s.manager.triggerAt log i busy waiting p calls)).fair = true ↔
        s.fair = true ∧ s.raising log (.trigger calls) = false) := by
  obtain ⟨hpresent, htriggered, hreleased⟩ := h.pass i busy waiting hphase
  have hraising : s.raising log (.trigger calls)
      = (p.trigger log calls s.manager.consumerAdmin.queue).raised := by
    simp [raising, hphase, hp, PushServant.trigger_raised]
  rw [hraising]
  cases hraised : (p.trigger log calls s.manager.consumerAdmin.queue).raised with
  | true =>
      have hbegin : (s.manager.triggerAt log i busy waiting p calls).phase
          = .triggering 0 false false := by
        simp [triggerAt, hraised]
      simp only [record, hphase, hbegin, if_true]
      -- the lock has not been free since the pass began
      exact ⟨.beginPass hbegin, by simp [PassLog.beginPass, hreleased]⟩
  | false =>
      have hnext : (s.manager.triggerAt log i busy waiting p calls).phase
          = .triggering (i + 1)
            (busy || (p.trigger log calls s.manager.consumerAdmin.queue).busy)
            (waiting || (p.trigger log calls s.manager.consumerAdmin.queue).waiting) := by
        simp [triggerAt, hraised]
      have hcount : (s.manager.triggerAt log i busy waiting p calls).phase
          ≠ .triggering 0 false false := by
        simp [hnext]
      simp only [record, hphase, if_neg hcount]
      constructor
      · constructor
        · intro count busy' waiting' hphase'
          obtain ⟨rfl, -, -⟩ := Phase.triggering.inj (hnext.symm.trans hphase')
          refine ⟨?_, ?_, ?_⟩
          · simpa [goOn, triggerAt, setServant] using hpresent
          · simp [goOn, htriggered, List.range_succ]
          · simp [goOn, hreleased, locked, hnext]
        · intro hfree
          simp [goOn, locked, hnext] at hfree
      · simp [goOn]

theorem Inv.step (h : s.Inv) (hst : s.step log orb a = some t) :
    t.Inv ∧ (t.fair = true ↔ s.fair = true ∧ s.raising log a = false) := by
  obtain ⟨m, hm, rfl⟩ := Option.map_eq_some_iff.1 hst
  cases step_cases hm with
  | aside constructed other =>
      rw [record_of_other other, raising_of_other other]
      exact ⟨h.goOn_of_same rfl rfl, by simp [goOn]⟩
  | touch hp touched other =>
      rw [record_of_other other, raising_of_other other]
      exact ⟨h.goOn_of_same rfl (by simp [setServant]), by simp [goOn]⟩
  | work worked other =>
      rw [record_of_other other, raising_of_other other]
      refine ⟨h.goOn_of_unlocked worked.unlocked ?_, by simp [goOn]⟩
      have hunlocked := worked.unlocked
      simpa only [locked, worked.phase] using hunlocked
  | etherealize hp unlocked =>
      exact ⟨h.goOn_of_unlocked unlocked unlocked, by simp [record, goOn, raising]⟩
  | signal signals =>
      refine ⟨?_, by simp [record, goOn, raising]⟩
      -- a signal wakes the thread, but does not hand it the lock
      cases hlocked : s.manager.locked with
      | true =>
          obtain ⟨count, busy, waiting, hphase⟩ := locked_eq_true.1 hlocked
          exact h.goOn_of_same (by simp [signalled, hphase]) rfl
      | false =>
          refine h.goOn_of_unlocked hlocked ?_
          cases hphase : s.manager.phase <;> simp [locked, signalled, hphase] at hlocked ⊢
  | lock unlocked =>
      obtain ⟨htriggered, hreleased⟩ := h.between unlocked
      exact ⟨.beginPass rfl, by simp [record, PassLog.beginPass, htriggered, hreleased, raising]⟩
  | timeout phase =>
      refine ⟨h.goOn_of_unlocked ?_ rfl, by simp [record, goOn, raising]⟩
      simp [locked, phase]
  | trigger calls phase hp => exact h.trigger phase hp
  | @endPass busy waiting phase =>
      obtain ⟨hpresent, htriggered, -⟩ := h.pass _ busy waiting phase
      have hfree : ({ s.manager with phase := sleep busy waiting } : PushManager Ref).locked = false := by
        cases busy <;> cases waiting <;> rfl
      refine ⟨⟨?_, ?_⟩, by simp [record, goOn, raising]⟩
      · intro count busy' waiting' hphase
        have hheld := locked_eq_true.2 ⟨count, busy', waiting', hphase⟩
        exact absurd (hheld.symm.trans hfree) (by decide)
      · intro _
        exact ⟨by simp [record, goOn, htriggered, hpresent], by simp [record, goOn, hfree]⟩

end Steps

/-- **Every pass so far has triggered all servants and has released the lock before the next, exactly if
    `trigger` has not raised.** -/
theorem fair_iff {log : Bool} {orb : Orb Ref} {consumerAdmin : ConsumerAdmin} {heap : Heap}
    {as : List (Action Ref)} {s : PassLog Ref}
    (hrun : Run (step log orb) (new consumerAdmin heap) as = some s) :
    s.fair = true ↔
      Along (step log orb) (fun s a => s.raising log a = false) (new consumerAdmin heap) as := by
  have key : s.Inv ∧ (s.fair = true ↔
      Along (step log orb) (fun s a => s.raising log a = false) (new consumerAdmin heap) as) := by
    refine Run.induct (P := fun as s => s.Inv ∧ (s.fair = true ↔ Along (step log orb)
      (fun s a => s.raising log a = false) (new consumerAdmin heap) as)) ⟨.new _ _, ?_⟩ ?_ hrun
    · exact ⟨fun _ => trivial, fun _ => rfl⟩
    · intro as s a t hs ih hst
      obtain ⟨hinv, hfair⟩ := ih.1.step hst
      exact ⟨hinv, by rw [hfair, ih.2, along_concat hs]⟩
  exact key.2

/-! ## A servant that raises for ever

A servant that has been disconnected while its push was out, and the push has failed. With a log
`trigger` raises whenever it comes to it, and changes nothing. -/

/-- A servant that has been disconnected, and whose push has failed. -/
structure Abandoned (p : PushServant Ref) : Prop where
  active : p.active = false
  target : p.target = none
  req : p.req ≠ none
  reply : p.reply = some .exception

/-- With a log, `trigger` raises and changes nothing. -/
theorem Abandoned.trigger {p : PushServant Ref} (h : Abandoned p) (calls : TriggerCall → Bool)
    (q : EventQueue) : p.trigger true calls q = ⟨p, false, false, true⟩ := by
  obtain ⟨req, hreq⟩ := Option.ne_none_iff_exists'.1 h.req
  have hsame : ({ p with target := none, reply := some .exception } : PushServant Ref) = p := by
    rw [← h.target, ← h.reply]
  cases hpoll : calls .poll_response with
  | true => simp [PushServant.trigger, hreq, hpoll]
  | false =>
      simp [PushServant.trigger, PushServant.shutDown, PushServant.disconnected, hreq, hpoll, h.reply,
        h.target, h.active, hsame]

/-- What others do to it leaves it as it is. -/
theorem Abandoned.touched {a : Action Ref} {i : ℕ} {p r : PushServant Ref} (h : Abandoned p)
    (htouched : Touched a i p r) : Abandoned r := by
  refine ⟨htouched.active h.active, ?_, by rw [htouched.req]; exact h.req, htouched.reply _ h.reply⟩
  rcases htouched.target with hsame | hnone | ⟨-, hconnected, -⟩
  · rw [hsame, h.target]
  · exact hnone
  · rw [h.active] at hconnected
    cases hconnected

/-- The thread is in a pass, and has yet to come to such a servant. -/
structure Stuck (m : PushManager Ref) (i : ℕ) : Prop where
  pass : ∃ count busy waiting, m.phase = .triggering count busy waiting ∧ count ≤ i
  servant : ∃ p, m.servants[i]? = some p ∧ Abandoned p

section Stuck

variable {orb : Orb Ref} {m t : PushManager Ref} {a : Action Ref} {i : ℕ}

theorem Stuck.locked (h : Stuck m i) : m.locked = true := by
  obtain ⟨⟨count, busy, waiting, hphase, -⟩, -⟩ := h
  exact locked_eq_true.2 ⟨count, busy, waiting, hphase⟩

theorem Stuck.step (h : Stuck m i) (hst : m.step true orb a = some t) : Stuck t i := by
  have hlocked := h.locked
  obtain ⟨⟨count, busy, waiting, hphase, hcount⟩, p, hp, habandoned⟩ := h
  have hlt : i < m.servants.length := (List.getElem?_eq_some_iff.1 hp).1
  cases step_cases hst with
  | aside constructed other =>
      exact ⟨⟨count, busy, waiting, hphase, hcount⟩, p, hp, habandoned⟩
  | @touch _ j p' r hp' touched other =>
      refine ⟨⟨count, busy, waiting, hphase, hcount⟩, ?_⟩
      by_cases hij : j = i
      · subst hij
        obtain rfl : p' = p := Option.some.inj (hp'.symm.trans hp)
        exact ⟨r, by simp [setServant, hlt], habandoned.touched touched⟩
      · exact ⟨p, by simpa [setServant, hij] using hp, habandoned⟩
  | work worked other =>
      rw [worked.unlocked] at hlocked
      cases hlocked
  | etherealize hp unlocked =>
      rw [unlocked] at hlocked
      cases hlocked
  | signal signals =>
      exact ⟨⟨count, busy, waiting, by simp [signalled, hphase], hcount⟩,
        p, hp, habandoned⟩
  | lock unlocked =>
      rw [unlocked] at hlocked
      cases hlocked
  | timeout phase =>
      rw [hphase] at phase
      cases phase
  | @trigger j busy' waiting' p' calls phase hp' =>
      obtain ⟨rfl, -, -⟩ := Phase.triggering.inj (hphase.symm.trans phase)
      by_cases hij : count = i
      · subst hij
        obtain rfl : p' = p := Option.some.inj (hp'.symm.trans hp)
        -- it raises, and the next pass begins with the lock held
        have htrigger := habandoned.trigger calls m.consumerAdmin.queue
        exact ⟨⟨0, false, false, by simp [triggerAt, htrigger], Nat.zero_le _⟩,
          p', by simp [triggerAt, setServant, htrigger, hlt], habandoned⟩
      · have hservant : (m.triggerAt true count busy' waiting' p' calls).servants[i]? = some p := by
          simpa [triggerAt, setServant, hij] using hp
        refine ⟨?_, p, hservant, habandoned⟩
        cases hraised : (p'.trigger true calls m.consumerAdmin.queue).raised with
        -- another servant raises first
        | true => exact ⟨0, false, false, by simp [triggerAt, hraised], Nat.zero_le _⟩
        | false => exact ⟨count + 1, _, _, by simp only [triggerAt, hraised]; rfl, by omega⟩
  | endPass phase =>
      rw [hphase] at phase
      obtain ⟨rfl, -, -⟩ := Phase.triggering.inj phase
      -- the pass cannot end before the servant has been triggered
      exact absurd hlt (Nat.not_lt.2 hcount)

/-- From then on the lock is never free again, whatever others attempt. -/
theorem lock_kept {as : List (Action Ref)} (h : Stuck m i)
    (hrun : Run (PushManager.step true orb) m as = some t) : t.locked = true := by
  have hstuck : Stuck t i := Run.invariant (fun _ _ _ => Stuck.step) h hrun
  exact hstuck.locked

end Stuck

/-- A consumer is connected, disconnects while an event is on its way to it, and then fails. -/
def disconnectWhilePushing : List (Action Str) :=
  [.construct ['1'], .insert 0 0, .connect_push_consumer 0 (some ['I']),
    .send ⟨⟨.tk_long, []⟩, [1]⟩, .lock, .trigger fun _ => false, .endPass, .deactivate 0,
    .clearTarget 0, .reply 0 .exception, .lock, .trigger fun _ => false]

/-- Without a log, nothing raises. -/
theorem fair_iff_no_log :
    ∃ s, Run (step false stringOrb) (new ⟨EventQueue.new 4 none, []⟩ ⟨[], []⟩) disconnectWhilePushing
        = some s ∧ s.fair = true := by
  obtain ⟨s, hrun⟩ : ∃ s, Run (step false stringOrb) (new ⟨EventQueue.new 4 none, []⟩ ⟨[], []⟩)
      disconnectWhilePushing = some s := ⟨_, rfl⟩
  exact ⟨s, hrun, (fair_iff hrun).2 (by decide +kernel)⟩

/-- With a log, the next pass begins while the lock is held. -/
theorem lock_not_released :
    ∃ s, Run (step true stringOrb) (new ⟨EventQueue.new 4 none, []⟩ ⟨[], []⟩) disconnectWhilePushing
        = some s ∧ s.fair = false ∧ Stuck s.manager 0 :=
  ⟨_, rfl, rfl, ⟨0, false, false, rfl, le_rfl⟩, _, rfl, rfl, rfl, by decide, rfl⟩

end PassLog

end OmniEvents
