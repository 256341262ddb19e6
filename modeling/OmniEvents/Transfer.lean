import OmniEvents.Proxies
import OmniEvents.Lib.Transition

set_option autoImplicit false

/-! # Moving events from suppliers to consumers

Events enter a channel in two ways: `ProxyPushConsumer_i::push` is called, or
`ProxyPullConsumer_i::collect` finds the reply to a `pull` that was sent out before. They leave it
through `EventQueue::append`, either straight from `push` or at the end of a cycle of
`EventChannel_i::mainLoop`. This file holds these functions and the steps of one channel
(`Channel.step`). A cycle is one step: the POAManager holds all calls while it runs. What the peers
answer is chosen by the environment; an exception that escapes from `collect` ends the channel's
thread with the calls still held, so that no further step is possible. -/

namespace OmniEvents

variable {Ref : Type}

/-! ## Pull consumers -/

/-- What comes back for a deferred request. `env()` reports an exception as a value or raises it,
    depending on the version of the ORB. -/
inductive Reply where
  | exception (envRaises : Bool)
  /-- The return value, and the arguments with what they hold if it is a boolean. -/
  | returned (value : Any) (arguments : List (Str × Option Bool))
  deriving DecidableEq, Repr

namespace ProxyPullConsumer

/-- The operation of a request in mode `Pull`. -/
def opPull : Str := ['p', 'u', 'l', 'l']

/-- The operation of a request in mode `TryPull`. -/
def opTryPull : Str := ['t', 'r', 'y', '_', 'p', 'u', 'l', 'l']

/-- The argument of `try_pull`. -/
def argHasEvent : Str := ['h', 'a', 's', '_', 'e', 'v', 'e', 'n', 't']

/-- Does a reply to the operation `opname` bring an event? -/
def hasEvent (opname : Str) (arguments : List (Str × Option Bool)) : Bool :=
  if opname = opPull then true
  else if opname = opTryPull then
    match arguments with
    | [(name, value)] => name == argHasEvent && value == some true
    | _ => false
  else false

/-- The proxy after an exception in reply to `opname`; `none` if an exception escapes, which is what
    a call through a nil target or the erasure of an inactive object come to. -/
def countException (p : ProxyPullConsumer Ref) (opname : Str) : Option (ProxyPullConsumer Ref) :=
  let p :=
    if opname = opPull ∨ opname = opTryPull then
      { p with exceptionCount := p.exceptionCount + 1
               mode := if p.mode = .Pull then .TryPull else .Pull }
    else p
  if 4 ≤ p.exceptionCount then
    if p.target.isNone || !p.active then none
    else some { p with target := none, active := false, req := none }
  else some { p with req := none }

/-- `ProxyPullConsumer_i::collect`, where `reply` is what `poll_response` has found. The flag says
    whether an exception escapes. -/
def collect (p : ProxyPullConsumer Ref) (reply : Option Reply) (h : Heap) (queue : List Ptr) :
    ProxyPullConsumer Ref × Heap × List Ptr × Bool :=
  match p.req, reply with
  | some opname, some (.exception envRaises) =>
      if envRaises then (p, h, queue, true)
      else
        match p.countException opname with
        | none => (p, h, queue, true)
        | some p => (p, h, queue, false)
  | some opname, some (.returned value arguments) =>
      let p := { p with exceptionCount := 0, req := none }
      if hasEvent opname arguments then
        (p, (h.alloc value).2, queue ++ [(h.alloc value).1], false)
      else (p, h, queue, false)
  | _, _ => (p, h, queue, false)

/-- `ProxyPullConsumer_i::triggerRequest`. -/
def triggerRequest (p : ProxyPullConsumer Ref) : ProxyPullConsumer Ref :=
  if p.req.isNone && p.target.isSome then
    match p.mode with
    | .Pull => { p with req := some opPull }
    | .TryPull => { p with req := some opTryPull }
  else p

/-- `disconnect_pull_consumer`. -/
def disconnect_pull_consumer (p : ProxyPullConsumer Ref) : ProxyPullConsumer Ref :=
  { p with active := false, target := none }

end ProxyPullConsumer

/-- `ProxyPullConsumerManager::collect`: each servant in turn, up to the first exception. -/
def collectAll (poll : Str → Option Reply) :
    List (ProxyPullConsumer Ref) → Heap → List Ptr → List (ProxyPullConsumer Ref) × Heap × List Ptr × Bool
  | [], h, queue => ([], h, queue, false)
  | p :: servants, h, queue =>
      match p.collect (poll p.oid) h queue with
      | (p, h, queue, true) => (p :: servants, h, queue, true)
      | (p, h, queue, false) =>
          match collectAll poll servants h queue with
          | (servants, h, queue, raised) => (p :: servants, h, queue, raised)

/-! ## The two admins

`SupplierAdmin_i` collects events from the suppliers, `ConsumerAdmin_i` hands them to the queue. The
time of the next pull is a pair of numbers without bounds here; `PullSchedule` has the machine's. -/

/-- `SupplierAdmin_i`, with `_useLocalQueue` of its `ProxyPushConsumer_i`. -/
structure SupplierAdmin (Ref : Type) where
  pullConsumer : Option (List (ProxyPullConsumer Ref))
  queue : List Ptr
  nextPull : ℕ × ℕ
  useLocalQueue : Bool
  deriving DecidableEq, Repr

/-- `ConsumerAdmin_i`, with the events handed to its queue so far. -/
structure ConsumerAdmin where
  queue : EventQueue
  handed : List Ptr
  deriving DecidableEq, Repr

/-- Seconds and nanoseconds as nanoseconds. -/
def nanosec (t : ℕ × ℕ) : ℕ := t.1 * 1000000000 + t.2

/-- `now >= t`, as `std::pair` compares. -/
def reached (now t : ℕ × ℕ) : Bool := decide (t.1 < now.1) || (t.1 == now.1 && decide (t.2 ≤ now.2))

/-- One turn of the loop that sets `_nextPull`. -/
def addPeriod (p : ℕ) (t : ℕ × ℕ) : ℕ × ℕ :=
  let nsec := t.2 + p % 1000 * 1000000
  (t.1 + (p / 1000 + nsec / 1000000000), nsec % 1000000000)

/-- `do { … } while(now>=_nextPull)`, at most `fuel + 1` turns. -/
def advance (p : ℕ) (now : ℕ × ℕ) : ℕ → ℕ × ℕ → ℕ × ℕ
  | 0, t => addPeriod p t
  | fuel + 1, t =>
      if reached now (addPeriod p t) then advance p now fuel (addPeriod p t) else addPeriod p t

theorem nanosec_addPeriod (p : ℕ) (t : ℕ × ℕ) :
    nanosec (addPeriod p t) = nanosec t + p * 1000000 := by
  simp only [nanosec, addPeriod]
  omega

namespace SupplierAdmin

/-- Send out new requests, and set the time of the next ones. -/
def trigger (sa : SupplierAdmin Ref) (pullRetryPeriod_ms : ℕ) (now : ℕ × ℕ)
    (servants : List (ProxyPullConsumer Ref)) : List (ProxyPullConsumer Ref) × (ℕ × ℕ) :=
  if sa.nextPull.1 = 0 then (servants.map (·.triggerRequest), sa.nextPull)
  else if reached now sa.nextPull then
    (servants.map (·.triggerRequest), advance pullRetryPeriod_ms now (nanosec now) sa.nextPull)
  else (servants, sa.nextPull)

/-- `SupplierAdmin_i::collect`: the events collected, or `none` if an exception escapes. -/
def collect (sa : SupplierAdmin Ref) (pullRetryPeriod_ms : ℕ) (poll : Str → Option Reply)
    (now : ℕ × ℕ) (h : Heap) : SupplierAdmin Ref × Heap × Option (List Ptr) :=
  match sa.pullConsumer with
  | none => ({ sa with queue := [], useLocalQueue := false }, h, some sa.queue)
  | some servants =>
      match collectAll poll servants h sa.queue with
      | (servants, h, queue, true) => ({ sa with pullConsumer := some servants, queue := queue }, h, none)
      | (servants, h, queue, false) =>
          let (servants, nextPull) := sa.trigger pullRetryPeriod_ms now servants
          ({ pullConsumer := some servants
             queue := []
             nextPull := nextPull
             useLocalQueue := false }, h, some queue)

end SupplierAdmin

namespace ConsumerAdmin

/-- `ConsumerAdmin_i::send(CORBA::Any*)`. -/
def send (ca : ConsumerAdmin) (h : Heap) (event : Ptr) : ConsumerAdmin × Heap :=
  ({ queue := (ca.queue.append h event).1, handed := ca.handed ++ [event] },
    (ca.queue.append h event).2)

/-- `ConsumerAdmin_i::send(list<CORBA::Any*>&)`. -/
def sendAll (ca : ConsumerAdmin) (h : Heap) : List Ptr → ConsumerAdmin × Heap
  | [] => (ca, h)
  | event :: events => sendAll (ca.send h event).1 (ca.send h event).2 events

end ConsumerAdmin

/-! ## The channel -/

/-- A channel as its main loop sees it. -/
structure Channel (Ref : Type) where
  pullRetryPeriod_ms : ℕ
  supplierAdmin : SupplierAdmin Ref
  consumerAdmin : ConsumerAdmin
  heap : Heap
  /-- Is the main loop still going round? -/
  running : Bool
  deriving DecidableEq, Repr

/-- A step on the side of the suppliers. -/
inductive Channel.Action (Ref : Type) where
  /-- A supplier calls `push`. -/
  | push (event : Any)
  /-- One cycle of `mainLoop`, given what `poll_response` finds and the time. -/
  | cycle (poll : Str → Option Reply) (now : ℕ × ℕ)
  /-- The ORB incarnates a `ProxyPullConsumer` that `obtain_pull_consumer` made a reference to. -/
  | incarnate (oid : Str)
  | connect_pull_supplier (oid : Str) (pullSupplier : Option Ref)
  | disconnect_pull_consumer (oid : Str)
  | etherealize (oid : Str)

namespace Channel

/-- A new channel; `now` is the time if it does not pull in every cycle. -/
def new (maxQueueLength pullRetryPeriod_ms cyclePeriod_ns : ℕ) (filter : Option Filter)
    (now : ℕ × ℕ) : Channel Ref :=
  { pullRetryPeriod_ms := pullRetryPeriod_ms
    supplierAdmin :=
      { pullConsumer := none
        queue := []
        nextPull := if cyclePeriod_ns / 1000000 < pullRetryPeriod_ms then now else (0, 0)
        useLocalQueue := false }
    consumerAdmin := { queue := EventQueue.new maxQueueLength filter, handed := [] }
    heap := ⟨[], []⟩
    running := true }

/-- `ProxyPushConsumer_i::push`, with `OMNIEVENTS_REAL_TIME_PUSH` defined or not. -/
def push (realTimePush : Bool) (c : Channel Ref) (event : Any) : Channel Ref :=
  let (p, h) := c.heap.alloc event
  if realTimePush && !c.supplierAdmin.useLocalQueue then
    let (ca, h) := c.consumerAdmin.send h p
    { c with consumerAdmin := ca
             heap := h
             supplierAdmin := { c.supplierAdmin with useLocalQueue := true } }
  else
    { c with heap := h
             supplierAdmin := { c.supplierAdmin with queue := c.supplierAdmin.queue ++ [p] } }

/-- The transfer phase of `EventChannel_i::mainLoop`. -/
def cycle (c : Channel Ref) (poll : Str → Option Reply) (now : ℕ × ℕ) : Channel Ref :=
  match c.supplierAdmin.collect c.pullRetryPeriod_ms poll now c.heap with
  | (sa, h, none) => { c with supplierAdmin := sa, heap := h, running := false }
  | (sa, h, some events) =>
      let (ca, h) := c.consumerAdmin.sendAll h events
      { c with supplierAdmin := sa, consumerAdmin := ca, heap := h }

/-- The servants of the pull consumers' manager have changed. -/
def mapServants (c : Channel Ref) (f : List (ProxyPullConsumer Ref) → List (ProxyPullConsumer Ref)) : Channel Ref :=
  { c with supplierAdmin :=
      { c.supplierAdmin with pullConsumer := some (f (c.supplierAdmin.pullConsumer.getD [])) } }

/-- One step of a channel whose main loop is running and which is not being destroyed. -/
def step (realTimePush : Bool) (c : Channel Ref) (a : Action Ref) : Option (Channel Ref) :=
  if !c.running then none
  else
    match a with
    | .push event => some (c.push realTimePush event)
    | .cycle poll now => some (c.cycle poll now)
    | .incarnate oid => some (c.mapServants (ProxyPullConsumer.new oid :: ·))
    | .connect_pull_supplier oid pullSupplier =>
        some (c.mapServants (·.map fun p =>
          if p.oid = oid ∧ p.active then (p.connect_pull_supplier pullSupplier).toOption.getD p else p))
    | .disconnect_pull_consumer oid =>
        some (c.mapServants (·.map fun p =>
          if p.oid = oid ∧ p.active then p.disconnect_pull_consumer else p))
    | .etherealize oid =>
        some (c.mapServants (·.filter fun p => p.oid ≠ oid ∨ p.active))

end Channel

end OmniEvents
