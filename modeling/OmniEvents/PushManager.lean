import OmniEvents.Transfer

set_option autoImplicit false

/-! # The thread that pushes events

`ProxyPushSupplierManager::run_undetached` triggers its servants one after the other, holding `_lock`,
and goes to sleep when there is nothing more to do; `incarnate`, `etherealize` and
`ConsumerAdmin_i::send` take the lock, and those that bring work signal the condition after they have
let it go. Connects and disconnects change a servant without the lock. `PushManager.step` interleaves
all of these. A section under the lock is one step, except that of the manager's thread itself, which
is one step for each servant; the servants are numbered in the order of the set. The POA of the
servants has the `SINGLE_THREAD_MODEL`, so the calls of clients never overlap and a connect is one
step; `disconnect_push_supplier` is two, since the manager's thread can come in between. The shutdown
of a manager that is no longer referenced is left out. -/

namespace OmniEvents

variable {Ref : Type}

/-! ## One servant

`trigger` with all its calls of the ORB, any of which may raise. It has no loop, so what it does is
a case distinction. -/

/-- What `env()` of an outstanding request comes to, whether returned or raised. -/
inductive PushReply where
  | returned
  | TIMEOUT
  | exception
  deriving DecidableEq, Repr

/-- The calls out of `trigger`; each may raise. -/
inductive TriggerCall where
  | poll_response
  | reportObjectFailure
  | disconnect_push_consumer
  | deactivateObject
  | push
  | send_deferred
  deriving DecidableEq, Repr

/-- `ProxyPushSupplier_i`, with the reply to its request once that has arrived. -/
structure PushServant (Ref : Type) extends ProxyPushSupplier Ref where
  reader : Reader
  reply : Option PushReply
  deriving DecidableEq, Repr

/-- The servant after a call of `trigger`, the flags that it has set, and whether it has raised. -/
structure Triggered (Ref : Type) where
  servant : PushServant Ref
  busy : Bool
  waiting : Bool
  raised : Bool
  deriving DecidableEq, Repr

namespace PushServant

/-- The operation of the deferred request of `trigger`. -/
def opPush : Str := ['p', 'u', 's', 'h']

/-- A servant constructed when the queue is `q`. -/
def new (oid : Str) (q : EventQueue) : PushServant Ref :=
  { (ProxyPushSupplier.new oid true : ProxyPushSupplier Ref) with
    reader := Reader.new q, reply := none }

section Trigger

variable (log : Bool) (calls : TriggerCall → Bool) (q : EventQueue) (p : PushServant Ref)

/-- The end of the catch clause. With a log, `eraseKey` raises if the object is not active. -/
def disconnected : Triggered Ref :=
  if (log && !p.active) || calls .deactivateObject then
    ⟨{ p with target := none }, false, false, true⟩
  -- `return`: neither flag is set
  else ⟨{ p with target := none, active := false }, false, false, false⟩

/-- The catch clause: the request is dropped only if the consumer is still to be told. -/
def shutDown : Triggered Ref :=
  match p.target with
  | none => p.disconnected log calls
  | some _ =>
      if calls .reportObjectFailure then ⟨p, false, false, true⟩
      else if calls .disconnect_push_consumer then
        -- `_req` is nil already, `_target` is not yet
        ⟨{ p with req := none, reply := none }, false, false, true⟩
      else { p with req := none, reply := none }.disconnected log calls

/-- The second half: push the next event. -/
def pushNext (busy : Bool) : Triggered Ref :=
  if p.req.isNone && p.target.isSome && p.reader.moreEvents q then
    if calls .push then ⟨p, busy, false, true⟩
    else
      -- `_req` and the index of the reader are set before anything is sent
      let p := { p with req := some opPush, reader := (p.reader.nextEvent q).2 }
      if calls .send_deferred then ⟨p, busy, false, true⟩ else ⟨p, true, true, false⟩
  else ⟨p, busy, p.req.isSome, false⟩

/-- `ProxyPushSupplier_i::trigger`. -/
def trigger : Triggered Ref :=
  if p.req.isSome && calls .poll_response then ⟨p, false, false, true⟩
  else
    match p.req, p.reply with
    | some _, some .exception => p.shutDown log calls
    -- a `TIMEOUT` passes through like an answer
    | some _, some _ => { p with req := none, reply := none }.pushNext calls q true
    | _, _ => p.pushNext calls q false

/-- Is there a reply that ends the connection? -/
def failed : Bool := p.req.isSome && decide (p.reply = some .exception)

/-- Will an event be pushed? -/
def pushes : Bool :=
  (p.req.isNone || (p.reply.isSome && decide (p.reply ≠ some .exception))) &&
    p.target.isSome && p.reader.moreEvents q

/-- Does `trigger` raise? -/
def raises : Bool :=
  (p.req.isSome && calls .poll_response) ||
    (p.failed &&
      ((p.target.isSome && (calls .reportObjectFailure || calls .disconnect_push_consumer)) ||
        (log && !p.active) || calls .deactivateObject)) ||
    (p.pushes q && (calls .push || calls .send_deferred))

end Trigger

/-- There is nothing to do for the servant. -/
def Settled (q : EventQueue) (p : PushServant Ref) : Prop :=
  p.req = none ∧ (p.target = none ∨ p.reader.moreEvents q = false)

instance (q : EventQueue) (p : PushServant Ref) [DecidableEq Ref] : Decidable (p.Settled q) :=
  inferInstanceAs (Decidable (_ ∧ _))

theorem disconnected_raised (log : Bool) (calls : TriggerCall → Bool) (p : PushServant Ref) :
    (p.disconnected log calls).raised = ((log && !p.active) || calls .deactivateObject) := by
  unfold disconnected
  split
  · next h => exact h.symm
  · next h => simpa using h

theorem shutDown_raised (log : Bool) (calls : TriggerCall → Bool) (p : PushServant Ref) :
    (p.shutDown log calls).raised =
      ((p.target.isSome && (calls .reportObjectFailure || calls .disconnect_push_consumer)) ||
        (log && !p.active) || calls .deactivateObject) := by
  unfold shutDown
  cases htarget : p.target with
  | none => simp [disconnected_raised]
  | some target =>
      cases hreport : calls .reportObjectFailure with
      | true => simp
      | false =>
          cases hnotify : calls .disconnect_push_consumer with
          | true => simp
          | false => simp [disconnected_raised]

theorem pushNext_raised (calls : TriggerCall → Bool) (q : EventQueue) (p : PushServant Ref)
    (busy : Bool) :
    (p.pushNext calls q busy).raised =
      ((p.req.isNone && p.target.isSome && p.reader.moreEvents q) &&
        (calls .push || calls .send_deferred)) := by
  unfold pushNext
  cases hpush : p.req.isNone && p.target.isSome && p.reader.moreEvents q with
  | false => simp
  | true => cases calls .push <;> cases calls .send_deferred <;> simp

/-- What `trigger` does, once it is known whether there is a reply. -/
theorem trigger_cases (log : Bool) (calls : TriggerCall → Bool) (q : EventQueue)
    (p : PushServant Ref) (hpoll : (p.req.isSome && calls .poll_response) = false) :
    (p.failed = true ∧ p.pushes q = false ∧ p.trigger log calls q = p.shutDown log calls) ∨
      (p.failed = false ∧ ∃ (r : PushServant Ref) (busy : Bool),
        p.trigger log calls q = r.pushNext calls q busy ∧
          p.pushes q = (r.req.isNone && r.target.isSome && r.reader.moreEvents q)) := by
  unfold trigger
  rw [hpoll]
  cases hreq : p.req with
  | none => exact Or.inr ⟨by simp [failed, hreq], p, false, rfl, by simp [pushes, hreq]⟩
  | some req =>
      rcases hreply : p.reply with _ | reply
      · exact Or.inr ⟨by simp [failed, hreply], p, false, rfl, by simp [pushes, hreq, hreply]⟩
      · by_cases hfailed : reply = .exception
        · subst hfailed
          exact Or.inl ⟨by simp [failed, hreq, hreply], by simp [pushes, hreq, hreply], rfl⟩
        · refine Or.inr ⟨by simp [failed, hreply, hfailed],
            { p with req := none, reply := none }, true, ?_, by simp [pushes, hreply, hfailed]⟩
          cases reply with
          | returned => rfl
          | TIMEOUT => rfl
          | exception => exact absurd rfl hfailed

theorem trigger_raised (log : Bool) (calls : TriggerCall → Bool) (q : EventQueue)
    (p : PushServant Ref) : (p.trigger log calls q).raised = p.raises log calls q := by
  cases hpoll : p.req.isSome && calls .poll_response with
  | true => simp [trigger, raises, hpoll]
  | false =>
      obtain ⟨hfailed, hpushes, htrigger⟩ | ⟨hfailed, r, busy, htrigger, hpushes⟩ :=
        trigger_cases log calls q p hpoll
      · simp [htrigger, raises, hpoll, hfailed, hpushes, shutDown_raised]
      · simp [htrigger, raises, hpoll, hfailed, hpushes, pushNext_raised]

/-- A servant that `trigger` has nothing to do for afterwards, unless its reply had to be left. -/
theorem pushNext_settled {calls : TriggerCall → Bool} {q : EventQueue} {p : PushServant Ref}
    {busy : Bool} (hraised : (p.pushNext calls q busy).raised = false)
    (hwaiting : (p.pushNext calls q busy).waiting = false) :
    (p.pushNext calls q busy).servant.Settled q := by
  unfold pushNext at *
  split at hraised
  · next hpush =>
      rw [if_pos hpush] at hwaiting
      split at hraised
      · cases hraised
      · next hcall =>
          rw [if_neg hcall] at hwaiting
          simp only at hraised hwaiting
          split at hraised
          · cases hraised
          · next hsend =>
              rw [if_neg hsend] at hwaiting
              cases hwaiting
  · next hpush =>
      rw [if_neg hpush] at hwaiting ⊢
      have hreq : p.req = none := by simpa using hwaiting
      refine ⟨hreq, ?_⟩
      cases htarget : p.target with
      | none => exact Or.inl rfl
      | some target => exact Or.inr (by simpa [hreq, htarget] using hpush)

theorem shutDown_settled {log : Bool} {calls : TriggerCall → Bool} {q : EventQueue}
    {p : PushServant Ref} (hraised : (p.shutDown log calls).raised = false)
    (htarget : p.target ≠ none) : (p.shutDown log calls).servant.Settled q := by
  obtain ⟨target, htarget⟩ := Option.ne_none_iff_exists'.1 htarget
  unfold shutDown disconnected at *
  simp only [htarget] at hraised ⊢
  split at hraised
  · cases hraised
  · next hreport =>
      rw [if_neg hreport]
      split at hraised
      · cases hraised
      · next hnotify =>
          rw [if_neg hnotify]
          split
          · exact ⟨rfl, Or.inl rfl⟩
          · exact ⟨rfl, Or.inl rfl⟩

theorem trigger_settled {log : Bool} {calls : TriggerCall → Bool} {q : EventQueue}
    {p : PushServant Ref} (hraised : (p.trigger log calls q).raised = false)
    (hwaiting : (p.trigger log calls q).waiting = false)
    (hkept : p.failed = true → p.target ≠ none) :
    (p.trigger log calls q).servant.Settled q := by
  cases hpoll : p.req.isSome && calls .poll_response with
  | true => simp [trigger, hpoll] at hraised
  | false =>
      obtain ⟨hfailed, -, htrigger⟩ | ⟨-, r, busy, htrigger, -⟩ := trigger_cases log calls q p hpoll
      · rw [htrigger] at hraised ⊢
        exact shutDown_settled hraised (hkept hfailed)
      · rw [htrigger] at hraised hwaiting ⊢
        exact pushNext_settled hraised hwaiting

end PushServant

/-! ## The manager

The lock of the manager is held through a pass. What others do at a servant between two steps of a
pass needs no lock. -/

/-- Where the thread is: in a pass, with the number of servants triggered so far and the flags set by
    them; letting others have the lock; asleep; or awake and in need of the lock. -/
inductive Phase where
  | triggering (count : ℕ) (busy waiting : Bool)
  | unlocked
  | timedwait
  | wait
  | woken
  deriving DecidableEq, Repr

/-- `ProxyPushSupplierManager` and its queue. Servants just constructed are not yet in the set;
    `signals` counts the signals that are about to be given. -/
structure PushManager (Ref : Type) where
  consumerAdmin : ConsumerAdmin
  heap : Heap
  constructed : List (PushServant Ref)
  servants : List (PushServant Ref)
  phase : Phase
  signals : ℕ
  deriving DecidableEq, Repr

/-- A step of the ORB, of a client, of the channel's thread or of the manager's own thread. -/
inductive PushManager.Action (Ref : Type) where
  /-- `incarnate` constructs a servant, and inserts it somewhere in the set. -/
  | construct (oid : Str)
  | insert (k i : ℕ)
  | connect_push_consumer (i : ℕ) (pushConsumer : Option Ref)
  /-- The first half of `disconnect_push_supplier`, and its second half. -/
  | deactivate (i : ℕ)
  | clearTarget (i : ℕ)
  | etherealize (i : ℕ)
  /-- `ConsumerAdmin_i::send`, for one event and for a list of them. -/
  | send (event : Any)
  | sendAll (events : List Any)
  | signal
  | reply (i : ℕ) (reply : PushReply)
  | lock
  | timeout
  | trigger (calls : TriggerCall → Bool)
  /-- All servants have been triggered. -/
  | endPass

namespace PushManager

/-- A manager is made when the first proxy is asked for, and its thread is started. -/
def new (consumerAdmin : ConsumerAdmin) (heap : Heap) : PushManager Ref :=
  { consumerAdmin := consumerAdmin
    heap := heap
    constructed := []
    servants := []
    phase := .woken
    signals := 0 }

/-- Is the lock in the hands of the manager's thread? -/
def locked (m : PushManager Ref) : Bool :=
  match m.phase with
  | .triggering _ _ _ => true
  | _ => false

/-- The events of a list, allocated one after the other. -/
def allocAll (h : Heap) : List Any → List Ptr × Heap
  | [] => ([], h)
  | event :: events =>
      let (p, h) := h.alloc event
      let (ps, h) := allocAll h events
      (p :: ps, h)

/-- `ConsumerAdmin_i::send`, but for the signal. -/
def append (m : PushManager Ref) (events : List Any) : PushManager Ref :=
  let (ps, h) := allocAll m.heap events
  let (ca, h) := m.consumerAdmin.sendAll h ps
  { m with consumerAdmin := ca, heap := h, signals := m.signals + 1 }

/-- Servant `i` has become `p`. -/
def setServant (m : PushManager Ref) (i : ℕ) (p : PushServant Ref) : PushManager Ref :=
  { m with servants := m.servants.set i p }

/-- `omni_condition::signal`, which only a sleeping thread notices. -/
def signalled : Phase → Phase
  | .timedwait | .wait => .woken
  | phase => phase

/-- How the thread leaves a pass. -/
def sleep (busy waiting : Bool) : Phase :=
  if busy then .unlocked else if waiting then .timedwait else .wait

/-- The body of the loop over the servants. An exception leads straight into the next pass. -/
def triggerAt (log : Bool) (m : PushManager Ref) (i : ℕ) (busy waiting : Bool) (p : PushServant Ref)
    (calls : TriggerCall → Bool) : PushManager Ref :=
  let t := p.trigger log calls m.consumerAdmin.queue
  { m.setServant i t.servant with
    phase :=
      if t.raised then .triggering 0 false false
      else .triggering (i + 1) (busy || t.busy) (waiting || t.waiting) }

/-- One step of the manager or of those who use it. -/
def step (log : Bool) (orb : Orb Ref) (m : PushManager Ref) : Action Ref → Option (PushManager Ref)
  | .construct oid =>
      some { m with constructed := m.constructed ++ [PushServant.new oid m.consumerAdmin.queue] }
  | .insert k i =>
      match m.constructed[k]? with
      | none => none
      | some p =>
          -- `PauseThenWake`: the lock is taken, and a signal given later
          if m.locked || decide (m.servants.length < i) then none
          else some { m with
            constructed := m.constructed.eraseIdx k
            servants := m.servants.insertIdx i p
            signals := m.signals + 1 }
  | .connect_push_consumer i pushConsumer =>
      match m.servants[i]? with
      | none => none
      | some p =>
          if p.active then
            match p.connect_push_consumer orb pushConsumer with
            | .error _ => some m
            | .ok r => some (m.setServant i { p with toProxyPushSupplier := r })
          else none
  | .deactivate i =>
      match m.servants[i]? with
      | none => none
      | some p => if p.active then some (m.setServant i { p with active := false }) else none
  | .clearTarget i =>
      match m.servants[i]? with
      | none => none
      | some p => if p.active then none else some (m.setServant i { p with target := none })
  | .etherealize i =>
      match m.servants[i]? with
      | none => none
      | some p =>
          -- the POA waits until the calls of the object are over
          if m.locked || p.active || p.target.isSome then none
          else some { m with servants := m.servants.eraseIdx i }
  | .send event => if m.locked then none else some (m.append [event])
  | .sendAll events =>
      -- the lock is not taken for an empty list
      if events.isEmpty then some m else if m.locked then none else some (m.append events)
  | .signal =>
      if m.signals = 0 then none
      else some { m with signals := m.signals - 1, phase := signalled m.phase }
  | .reply i reply =>
      match m.servants[i]? with
      | none => none
      | some p =>
          if p.req.isSome && p.reply.isNone then some (m.setServant i { p with reply := some reply })
          else none
  | .lock =>
      match m.phase with
      | .unlocked | .woken => some { m with phase := .triggering 0 false false }
      | _ => none
  | .timeout =>
      match m.phase with
      | .timedwait => some { m with phase := .woken }
      | _ => none
  | .trigger calls =>
      match m.phase with
      | .triggering i busy waiting =>
          match m.servants[i]? with
          | none => none
          | some p => some (m.triggerAt log i busy waiting p calls)
      | _ => none
  | .endPass =>
      match m.phase with
      | .triggering i busy waiting =>
          if i = m.servants.length then some { m with phase := sleep busy waiting } else none
      | _ => none

/-! ## What a step can do

The steps are taken apart once (`StepOf`). Whatever holds in every run of a manager is proved from
these cases. -/

section Steps

variable {log : Bool} {orb : Orb Ref} {m t : PushManager Ref} {a : Action Ref}

/-- Is it the thread of the manager that takes the step? -/
def Action.ofThread : Action Ref → Bool
  | .lock | .timeout | .trigger _ | .endPass => true
  | _ => false

/-- What others do to the `i`-th servant without the lock. -/
structure Touched (a : Action Ref) (i : ℕ) (p r : PushServant Ref) : Prop where
  req : r.req = p.req
  reader : r.reader = p.reader
  active : p.active = false → r.active = false
  reply : ∀ reply, p.reply = some reply → r.reply = some reply
  target : r.target = p.target ∨ r.target = none ∨
    (∃ pushConsumer, a = .connect_push_consumer i (some pushConsumer)) ∧
      p.active = true ∧ p.target = none ∧ p.req = none

/-- The lock was free, and a signal will follow. -/
structure Worked (m t : PushManager Ref) : Prop where
  unlocked : m.locked = false
  phase : t.phase = m.phase
  signals : t.signals = m.signals + 1

/-- Everything that a step can do. -/
inductive StepOf (log : Bool) (m : PushManager Ref) : Action Ref → PushManager Ref → Prop where
  | aside {a : Action Ref} (constructed : List (PushServant Ref)) (other : a.ofThread = false) :
      StepOf log m a { m with constructed := constructed }
  | touch {a : Action Ref} {i : ℕ} {p r : PushServant Ref} (hp : m.servants[i]? = some p)
      (touched : Touched a i p r) (other : a.ofThread = false) : StepOf log m a (m.setServant i r)
  | work {a : Action Ref} {t : PushManager Ref} (worked : Worked m t) (other : a.ofThread = false) :
      StepOf log m a t
  | etherealize {i : ℕ} {p : PushServant Ref} (hp : m.servants[i]? = some p)
      (unlocked : m.locked = false) :
      StepOf log m (.etherealize i) { m with servants := m.servants.eraseIdx i }
  | signal (signals : m.signals ≠ 0) :
      StepOf log m .signal { m with signals := m.signals - 1, phase := signalled m.phase }
  | lock (unlocked : m.locked = false) :
      StepOf log m .lock { m with phase := .triggering 0 false false }
  | timeout (phase : m.phase = .timedwait) : StepOf log m .timeout { m with phase := .woken }
  | trigger {i : ℕ} {busy waiting : Bool} {p : PushServant Ref} (calls : TriggerCall → Bool)
      (phase : m.phase = .triggering i busy waiting) (hp : m.servants[i]? = some p) :
      StepOf log m (.trigger calls) (m.triggerAt log i busy waiting p calls)
  | endPass {busy waiting : Bool} (phase : m.phase = .triggering m.servants.length busy waiting) :
      StepOf log m .endPass { m with phase := sleep busy waiting }

theorem connect_push_consumer_ok {p r : ProxyPushSupplier Ref} {pushConsumer : Option Ref}
    (h : p.connect_push_consumer orb pushConsumer = .ok r) :
    (∃ c, pushConsumer = some c) ∧ p.target = none ∧ p.req = none ∧ r.toProxy = p.toProxy := by
  unfold ProxyPushSupplier.connect_push_consumer at h
  split at h
  · cases h
  · next c =>
      split at h
      · cases h
      · next hfree =>
          cases h
          have hfree : p.target = none ∧ p.req = none := by simpa using hfree
          exact ⟨⟨c, rfl⟩, hfree.1, hfree.2, rfl⟩

theorem worked_append (events : List Any) (h : m.locked = false) : Worked m (m.append events) :=
  ⟨h, rfl, rfl⟩

theorem stepOf_insert {k i : ℕ} (h : m.step log orb (.insert k i) = some t) :
    StepOf log m (.insert k i) t := by
  simp only [step] at h
  split at h
  · cases h
  next p hp =>
  obtain ⟨hfree, ⟨⟩⟩ := Option.ite_none_left_eq_some.1 h
  rw [Bool.not_eq_true, Bool.or_eq_false_iff] at hfree
  exact .work ⟨hfree.1, rfl, rfl⟩ rfl

/-- The only step that can bring back work to a servant. -/
theorem stepOf_connect {i : ℕ} {pushConsumer : Option Ref}
    (h : m.step log orb (.connect_push_consumer i pushConsumer) = some t) :
    StepOf log m (.connect_push_consumer i pushConsumer) t := by
  simp only [step] at h
  split at h
  · cases h
  next p hp =>
  obtain ⟨hactive, h⟩ := Option.ite_none_right_eq_some.1 h
  split at h
  · cases h
    exact .aside m.constructed rfl
  · next r hr =>
      cases h
      obtain ⟨⟨c, rfl⟩, htarget, hreq, hproxy⟩ := connect_push_consumer_ok hr
      refine .touch hp ⟨congrArg Proxy.req hproxy, rfl, ?_, fun _ hreply => hreply,
        Or.inr (Or.inr ⟨⟨c, rfl⟩, hactive, htarget, hreq⟩)⟩ rfl
      intro hinactive
      rw [hactive] at hinactive
      cases hinactive

theorem stepOf_deactivate {i : ℕ} (h : m.step log orb (.deactivate i) = some t) :
    StepOf log m (.deactivate i) t := by
  simp only [step] at h
  split at h
  · cases h
  next p hp =>
  obtain ⟨-, ⟨⟩⟩ := Option.ite_none_right_eq_some.1 h
  exact .touch hp ⟨rfl, rfl, fun _ => rfl, fun _ hreply => hreply, Or.inl rfl⟩ rfl

theorem stepOf_clearTarget {i : ℕ} (h : m.step log orb (.clearTarget i) = some t) :
    StepOf log m (.clearTarget i) t := by
  simp only [step] at h
  split at h
  · cases h
  next p hp =>
  obtain ⟨-, ⟨⟩⟩ := Option.ite_none_left_eq_some.1 h
  exact .touch hp ⟨rfl, rfl, id, fun _ hreply => hreply, Or.inr (Or.inl rfl)⟩ rfl

theorem stepOf_etherealize {i : ℕ} (h : m.step log orb (.etherealize i) = some t) :
    StepOf log m (.etherealize i) t := by
  simp only [step] at h
  split at h
  · cases h
  next p hp =>
  obtain ⟨hfree, ⟨⟩⟩ := Option.ite_none_left_eq_some.1 h
  rw [Bool.not_eq_true, Bool.or_eq_false_iff, Bool.or_eq_false_iff] at hfree
  exact .etherealize hp hfree.1.1

theorem stepOf_reply {i : ℕ} {reply : PushReply} (h : m.step log orb (.reply i reply) = some t) :
    StepOf log m (.reply i reply) t := by
  simp only [step] at h
  split at h
  · cases h
  next p hp =>
  obtain ⟨hfree, ⟨⟩⟩ := Option.ite_none_right_eq_some.1 h
  rw [Bool.and_eq_true, Option.isNone_iff_eq_none] at hfree
  refine .touch hp ⟨rfl, rfl, id, ?_, Or.inl rfl⟩ rfl
  intro reply hreply
  rw [hfree.2] at hreply
  cases hreply

theorem stepOf_send {event : Any} (h : m.step log orb (.send event) = some t) :
    StepOf log m (.send event) t := by
  obtain ⟨hfree, ⟨⟩⟩ := Option.ite_none_left_eq_some.1 h
  exact .work (worked_append _ (Bool.not_eq_true _ ▸ hfree)) rfl

theorem stepOf_sendAll {events : List Any} (h : m.step log orb (.sendAll events) = some t) :
    StepOf log m (.sendAll events) t := by
  simp only [step] at h
  split at h
  · cases h
    exact .aside m.constructed rfl
  · obtain ⟨hfree, ⟨⟩⟩ := Option.ite_none_left_eq_some.1 h
    exact .work (worked_append _ (Bool.not_eq_true _ ▸ hfree)) rfl

theorem stepOf_lock (h : m.step log orb .lock = some t) : StepOf log m .lock t := by
  simp only [step] at h
  split at h
  · next hphase =>
      cases h
      exact .lock (by simp [locked, hphase])
  · next hphase =>
      cases h
      exact .lock (by simp [locked, hphase])
  · cases h

theorem stepOf_timeout (h : m.step log orb .timeout = some t) : StepOf log m .timeout t := by
  simp only [step] at h
  split at h
  · next hphase =>
      cases h
      exact .timeout hphase
  · cases h

theorem stepOf_trigger {calls : TriggerCall → Bool}
    (h : m.step log orb (.trigger calls) = some t) : StepOf log m (.trigger calls) t := by
  simp only [step] at h
  split at h
  · next i busy waiting hphase =>
      split at h
      · cases h
      · next p hp =>
          cases h
          exact .trigger calls hphase hp
  · cases h

theorem stepOf_endPass (h : m.step log orb .endPass = some t) : StepOf log m .endPass t := by
  simp only [step] at h
  split at h
  · next i busy waiting hphase =>
      obtain ⟨rfl, ⟨⟩⟩ := Option.ite_none_right_eq_some.1 h
      exact .endPass hphase
  · cases h

theorem step_cases (h : m.step log orb a = some t) : StepOf log m a t := by
  cases a with
  | construct oid =>
      cases h
      exact .aside _ rfl
  | insert k i => exact stepOf_insert h
  | connect_push_consumer i pushConsumer => exact stepOf_connect h
  | deactivate i => exact stepOf_deactivate h
  | clearTarget i => exact stepOf_clearTarget h
  | etherealize i => exact stepOf_etherealize h
  | send event => exact stepOf_send h
  | sendAll events => exact stepOf_sendAll h
  | signal =>
      obtain ⟨hsignals, ⟨⟩⟩ := Option.ite_none_left_eq_some.1 h
      exact .signal hsignals
  | reply i reply => exact stepOf_reply h
  | lock => exact stepOf_lock h
  | timeout => exact stepOf_timeout h
  | trigger calls => exact stepOf_trigger h
  | endPass => exact stepOf_endPass h

end Steps

end PushManager

end OmniEvents
