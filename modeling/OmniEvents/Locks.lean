import Mathlib.Data.Nat.Basic
import OmniEvents.Lib.LockOrder
import OmniEvents.Lib.Transition

set_option autoImplicit false

/-! # The locks of the server

The mutexes of the log, of the channel store, of the push supplier managers and of the deferred
requests, and what every thread takes and releases of them. A persistent log exists. Requests are
sent deferred, so the target never runs in the thread of the sender, and the ORB calls `etherealize`
from a thread of its own. A thread that runs one call after the other is taken apart into threads
that run one call each, since no lock is held between the calls. -/

namespace OmniEvents

open Transition LockOrder

/-- The mutexes of the server. -/
inductive Mutex where
  | log
  | store
  /-- The `_lock` of a `ProxyPushSupplierManager`. -/
  | manager (i : ℕ)
  | deferredRequests
  deriving DecidableEq, Repr

namespace Mutex

/-! ## What the functions lock

Each function is the sequence of its locks and unlocks, as its scopes have them. What it does in
between is left out, but for the choices that decide which locks come next. -/

/-- What a thread locks and unlocks, in this order. -/
abbrev Ops := List (LockOp Mutex)

/-- A scope with a `WriteLock`, as in `Proxy::eraseKey`. -/
def writeLock : Ops := locked .log []

/-- `Orb::deferredRequest` appends to the queue of the requests. -/
def deferredRequest : Ops := locked .deferredRequests []

/-- The scope of a `PauseThenWake`, in which nothing else is locked. -/
def pauseThenWake (i : ℕ) : Ops := locked (.manager i) []

/-- `ProxyPushSupplier_i::connect_push_consumer`: the `_is_a`, and then the record. -/
def connect_push_consumer : Ops := deferredRequest ++ writeLock

/-- `ProxyPushConsumer_i::connect_push_supplier`. -/
def connect_push_supplier : Ops := deferredRequest ++ writeLock

/-- `ProxyPullConsumer_i::connect_pull_supplier`, which asks nothing. -/
def connect_pull_supplier : Ops := writeLock

/-- `ProxyPullSupplier_i::connect_pull_consumer`. -/
def connect_pull_consumer : Ops := writeLock

/-- `disconnect_push_supplier`, `disconnect_pull_consumer` and `disconnect_pull_supplier`; a target
    is told. -/
def disconnectProxy (target : Bool) : Ops := writeLock ++ if target then deferredRequest else []

/-- `ProxyPushConsumer_i::disconnect_push_consumer`: the supplier is told before the record is
    written. -/
def disconnect_push_consumer : Ops := deferredRequest ++ writeLock

/-- A step of the `disconnect` of the managers and of `ProxyPushConsumer_i`. A manager may have to
    incarnate an object that has been deactivated meanwhile. -/
inductive Disconnect where
  | proxy (incarnated : Option ℕ) (target : Bool)
  | connection
  deriving DecidableEq, Repr

/-- What the step of a disconnect locks. -/
def Disconnect.ops : Disconnect → Ops
  | proxy incarnated target => incarnated.elim [] pauseThenWake ++ disconnectProxy target
  | connection => deferredRequest

/-- `EventChannel_i::destroy`, up to its end or to the first exception. -/
def destroy (disconnects : List Disconnect) : Ops := disconnects.flatMap Disconnect.ops

namespace EventChannelStore

/-- `EventChannelStore::insert`. -/
def insert : Ops := locked .store []

/-- `EventChannelStore::erase`. -/
def erase : Ops := locked .store []

/-- `EventChannelStore::output`: the channels write their records inside the lock, and take no
    other. -/
def output : Ops := locked .store []

/-- The channels are destroyed one after the other. -/
def empty (channels : List (List Disconnect)) : Ops := locked .store (channels.flatMap destroy)

/-- `EventChannelStore::list`. -/
def list : Ops := locked .store []

end EventChannelStore

/-- How a pass of the worker goes. -/
inductive CheckpointPass where
  /-- No checkpoint is needed, or the file cannot be opened. -/
  | skipped
  | written
  /-- An exception leaves `output`, and the log stays locked. -/
  | raised
  deriving DecidableEq, Repr

/-- A pass of `omniEventsLog::checkpoint`: the lock of the log is held while the store writes
    itself. -/
def checkpoint : CheckpointPass → Ops
  | .skipped => locked .log []
  | .written => locked .log EventChannelStore.output
  | .raised => .lock .log :: EventChannelStore.output

/-- A pass of `ProxyPushSupplierManager::run_undetached`: of the servants triggered some have failed,
    and the target of these is told if there still is one. -/
def managerPass (i : ℕ) (failed : List Bool) : Ops :=
  locked (.manager i)
    (failed.flatMap fun target => (if target then deferredRequest else []) ++ writeLock)

/-- `ProxyPushSupplierManager::etherealize`; the destructor of a servant hands its request on. -/
def etherealize (i : ℕ) (pending : Bool) : Ops :=
  locked (.manager i) (if pending then deferredRequest else [])

/-- A pass of `Orb::run`: callbacks that write a record, and then the servants that the used
    callbacks were the last to refer to. -/
def orbPass (callbacks : ℕ) (freed : List Bool) : Ops :=
  locked .deferredRequests ((List.replicate callbacks ()).flatMap fun _ => writeLock) ++
    freed.flatMap fun pending => if pending then deferredRequest else []

/-- A round of `EventChannel_i::mainLoop`: pull suppliers that failed too often, and the events for
    the push suppliers of a manager. -/
structure Round where
  failed : ℕ
  sent : Option ℕ
  deriving DecidableEq, Repr

/-- What a round of the main loop locks. -/
def Round.ops (r : Round) : Ops :=
  ((List.replicate r.failed ()).flatMap fun _ => deferredRequest ++ writeLock) ++
    r.sent.elim [] pauseThenWake

/-- `EventChannel_i::run_undetached`. -/
def run_undetached (rounds : List Round) (shutdownRequested : Bool) : Ops :=
  EventChannelStore.insert ++ writeLock ++ rounds.flatMap Round.ops ++ EventChannelStore.erase ++
    if shutdownRequested then writeLock else []

/-- A call that a thread makes from beginning to end, with what the locks depend on in it. -/
inductive Call where
  | checkpoint (pass : CheckpointPass)
  | delete_all (channels : List (List Disconnect))
  /-- The `exists` of the factory. -/
  | existsChannel
  | list_channels
  | destroy (disconnects : List Disconnect)
  | run_undetached (rounds : List Round) (shutdownRequested : Bool)
  | connect_push_consumer
  | connect_push_supplier
  | connect_pull_supplier
  | connect_pull_consumer
  | disconnectProxy (target : Bool)
  | disconnect_push_consumer
  /-- `incarnate`, `send`, `_add_ref` or `_remove_ref`. -/
  | pauseThenWake (i : ℕ)
  | etherealize (i : ℕ) (pending : Bool)
  | managerPass (i : ℕ) (failed : List Bool)
  | orbPass (callbacks : ℕ) (freed : List Bool)
  deriving DecidableEq, Repr

/-- What a call locks. -/
def Call.ops : Call → Ops
  | checkpoint pass => Mutex.checkpoint pass
  | delete_all channels => EventChannelStore.empty channels
  | existsChannel => locked .store []
  | list_channels => EventChannelStore.list
  | destroy disconnects => Mutex.destroy disconnects
  | run_undetached rounds shutdownRequested => Mutex.run_undetached rounds shutdownRequested
  | connect_push_consumer => Mutex.connect_push_consumer
  | connect_push_supplier => Mutex.connect_push_supplier
  | connect_pull_supplier => Mutex.connect_pull_supplier
  | connect_pull_consumer => Mutex.connect_pull_consumer
  | disconnectProxy target => Mutex.disconnectProxy target
  | disconnect_push_consumer => Mutex.disconnect_push_consumer
  | pauseThenWake i => Mutex.pauseThenWake i
  | etherealize i pending => Mutex.etherealize i pending
  | managerPass i failed => Mutex.managerPass i failed
  | orbPass callbacks freed => Mutex.orbPass callbacks freed

/-! ## What is nested in what

A program takes a mutex only while those that it holds may stand before it. One pair goes both ways,
the log and the store. -/

/-- The second mutex is taken while the first is held. -/
inductive Nested : Mutex → Mutex → Prop
  | checkpoint : Nested .log .store
  | delete_all_manager (i : ℕ) : Nested .store (.manager i)
  | delete_all_log : Nested .store .log
  | delete_all_deferred : Nested .store .deferredRequests
  | manager_log (i : ℕ) : Nested (.manager i) .log
  | manager_deferred (i : ℕ) : Nested (.manager i) .deferredRequests
  | callback : Nested .deferredRequests .log

section Keeps

variable {held : List Mutex}

theorem keeps_writeLock (h : ∀ m ∈ held, Nested m .log) : Keeps Nested held writeLock :=
  .locked h (fun hmem => nomatch h _ hmem) .nil

theorem keeps_deferredRequest (h : ∀ m ∈ held, Nested m .deferredRequests) :
    Keeps Nested held deferredRequest :=
  .locked h (fun hmem => nomatch h _ hmem) .nil

theorem keeps_pauseThenWake {i : Option ℕ} (h : ∀ i, ∀ m ∈ held, Nested m (.manager i)) :
    Keeps Nested held (i.elim [] pauseThenWake) := by
  cases i with
  | none => exact .nil
  | some i => exact .locked (h i) (fun hmem => nomatch h i _ hmem) .nil

theorem keeps_alone {m : Mutex} : Keeps Nested [] (locked m []) :=
  .locked (by simp) (by simp) .nil

theorem keeps_destroy (hmanager : ∀ i, ∀ m ∈ held, Nested m (.manager i))
    (hlog : ∀ m ∈ held, Nested m .log) (hdeferred : ∀ m ∈ held, Nested m .deferredRequests)
    (disconnects : List Disconnect) : Keeps Nested held (destroy disconnects) := by
  refine .flatMap ?_
  intro d _
  cases d with
  | proxy incarnated target =>
      exact (keeps_pauseThenWake hmanager).append
        ((keeps_writeLock hlog).append (.ite (keeps_deferredRequest hdeferred) .nil))
  | connection => exact keeps_deferredRequest hdeferred

theorem keeps_empty (channels : List (List Disconnect)) :
    Keeps Nested [] (EventChannelStore.empty channels) :=
  .locked (by simp) (by simp)
    (.flatMap fun disconnects _ => keeps_destroy (by simpa using .delete_all_manager)
      (by simpa using .delete_all_log) (by simpa using .delete_all_deferred) disconnects)

theorem keeps_managerPass (i : ℕ) (failed : List Bool) :
    Keeps Nested [] (managerPass i failed) :=
  .locked (by simp) (by simp)
    (.flatMap fun target _ => .append
      (.ite (keeps_deferredRequest (by simpa using .manager_deferred i)) .nil)
      (keeps_writeLock (by simpa using .manager_log i)))

theorem keeps_etherealize (i : ℕ) (pending : Bool) : Keeps Nested [] (etherealize i pending) :=
  .locked (by simp) (by simp)
    (.ite (keeps_deferredRequest (by simpa using .manager_deferred i)) .nil)

theorem keeps_orbPass (callbacks : ℕ) (freed : List Bool) :
    Keeps Nested [] (orbPass callbacks freed) :=
  .append
    (.locked (by simp) (by simp)
      (.flatMap fun _ _ => keeps_writeLock (by simpa using .callback)))
    (.flatMap fun _ _ => .ite (keeps_deferredRequest (by simp)) .nil)

theorem keeps_round (r : Round) : Keeps Nested [] r.ops :=
  .append (.flatMap fun _ _ => .append keeps_alone keeps_alone)
    (keeps_pauseThenWake (by simp))

theorem keeps_run_undetached (rounds : List Round) (shutdownRequested : Bool) :
    Keeps Nested [] (run_undetached rounds shutdownRequested) :=
  .append (.append (.append (.append keeps_alone keeps_alone) (.flatMap fun r _ => keeps_round r))
    keeps_alone) (.ite keeps_alone .nil)

theorem nests_checkpoint (pass : CheckpointPass) : Nests Nested [] (checkpoint pass) := by
  have hstore : Keeps Nested [.log] EventChannelStore.output :=
    .locked (by simpa using .checkpoint) (by simp) .nil
  cases pass with
  | skipped => exact keeps_alone.nests
  | written => exact (Keeps.locked (by simp) (by simp) hstore).nests
  | raised => exact ⟨by simp, hstore.nests⟩

/-- Every call keeps to the nesting. -/
theorem nests_ops (c : Call) : Nests Nested [] c.ops := by
  cases c with
  | checkpoint pass => exact nests_checkpoint pass
  | delete_all channels => exact (keeps_empty channels).nests
  | existsChannel => exact keeps_alone.nests
  | list_channels => exact keeps_alone.nests
  | destroy disconnects => exact (keeps_destroy (by simp) (by simp) (by simp) disconnects).nests
  | run_undetached rounds shutdownRequested =>
      exact (keeps_run_undetached rounds shutdownRequested).nests
  | connect_push_consumer => exact (Keeps.append keeps_alone keeps_alone).nests
  | connect_push_supplier => exact (Keeps.append keeps_alone keeps_alone).nests
  | connect_pull_supplier => exact keeps_alone.nests
  | connect_pull_consumer => exact keeps_alone.nests
  | disconnectProxy target => exact (Keeps.append keeps_alone (.ite keeps_alone .nil)).nests
  | disconnect_push_consumer => exact (Keeps.append keeps_alone keeps_alone).nests
  | pauseThenWake i => exact keeps_alone.nests
  | etherealize i pending => exact (keeps_etherealize i pending).nests
  | managerPass i failed => exact (keeps_managerPass i failed).nests
  | orbPass callbacks freed => exact (keeps_orbPass callbacks freed).nests

end Keeps

/-! ## Runs of the server -/

/-- A thread begins a call, or takes the next lock of the one it is in. -/
inductive ServerStep where
  | start (c : Call)
  | advance (i : ℕ)
  deriving DecidableEq, Repr

/-- A thread may wait for a lock: then it cannot advance. -/
def step (threads : List (Thread Mutex)) : ServerStep → Option (List (Thread Mutex))
  | .start c => some (threads ++ [Thread.start c.ops])
  | .advance i => advance threads i

/-- A checkpoint that has yet to walk the store takes the log only when no `delete_all` that has a
    proxy to disconnect holds the store, and conversely. -/
def TakesApart (threads : List (Thread Mutex)) : ServerStep → Prop
  | .start _ => True
  | .advance i =>
      match threads[i]? with
      | some ⟨_, .lock .log :: todo⟩ =>
          takesBefore .log todo → ∀ u ∈ threads, ¬u.NestsIn .store
      | some ⟨_, .lock .store :: todo⟩ =>
          takesBefore .store todo → ∀ u ∈ threads, ¬u.NestsIn .log
      | _ => True

instance (threads : List (Thread Mutex)) (a : ServerStep) : Decidable (TakesApart threads a) := by
  unfold TakesApart
  repeat' split
  all_goals infer_instance

/-- The locks are nested as `Nested` says, in one of the two orders of log and store only. -/
structure Inv (threads : List (Thread Mutex)) : Prop where
  nests : ∀ t ∈ threads, Nests Nested t.held t.todo
  /-- Nobody is inside the log on the way to the store, or nobody inside the store on the way out. -/
  apart : (∀ t ∈ threads, ¬t.NestsIn .log) ∨ ∀ t ∈ threads, ¬t.NestsIn .store

variable {threads threads' : List (Thread Mutex)}

theorem inv_start {c : Call} (h : Inv threads) : Inv (threads ++ [Thread.start c.ops]) := by
  refine ⟨?_, ?_⟩
  · rw [List.forall_mem_append, List.forall_mem_singleton]
    exact ⟨h.nests, nests_ops c⟩
  · simp only [List.forall_mem_append, List.forall_mem_singleton]
    exact h.apart.imp (fun hlog => ⟨hlog, by simp [Thread.NestsIn, Thread.start]⟩)
      (fun hstore => ⟨hstore, by simp [Thread.NestsIn, Thread.start]⟩)

theorem inv_advance {i : ℕ} (h : Inv threads) (hapart : TakesApart threads (.advance i))
    (hst : advance threads i = some threads') : Inv threads' := by
  refine ⟨nests_advance h.nests hst, ?_⟩
  by_contra hboth
  push Not at hboth
  obtain ⟨⟨t, ht, hlog⟩, u, hu, hstore⟩ := hboth
  rcases nestsIn_advance hst ht hlog with hlog | ⟨held, todo, hi, htakes⟩
  · rcases nestsIn_advance hst hu hstore with hstore | ⟨held, todo, hi, htakes⟩
    · obtain ⟨t, ht, hlog⟩ := hlog
      obtain ⟨u, hu, hstore⟩ := hstore
      exact h.apart.elim (fun hnone => hnone t ht hlog) (fun hnone => hnone u hu hstore)
    · obtain ⟨t, ht, hlog⟩ := hlog
      simp only [TakesApart, hi] at hapart
      exact hapart htakes t ht hlog
  · rcases nestsIn_advance hst hu hstore with hstore | ⟨held', todo', hi', -⟩
    · obtain ⟨u, hu, hstore⟩ := hstore
      simp only [TakesApart, hi] at hapart
      exact hapart htakes u hu hstore
    · rw [hi] at hi'
      cases hi'

theorem Inv.step {a : ServerStep} (h : Inv threads) (hapart : TakesApart threads a)
    (hst : Mutex.step threads a = some threads') : Inv threads' := by
  cases a with
  | start c =>
      cases hst
      exact inv_start h
  | advance i => exact inv_advance h hapart hst

/-! ## No circular wait

If nobody is on the way from the log into the store, the store comes first in an order of all
mutexes, and if nobody is on the way out, it comes last. Either order forbids a circle. -/

/-- The order of the mutexes when nothing is nested in the log. -/
def rankStoreFirst : Mutex → ℕ
  | .store => 0
  | .manager _ => 1
  | .deferredRequests => 2
  | .log => 3

/-- The order of the mutexes when nothing is nested in the store. -/
def rankStoreLast : Mutex → ℕ
  | .manager _ => 0
  | .deferredRequests => 1
  | .log => 2
  | .store => 3

theorem not_circularWait (h : Inv threads) : ¬CircularWait threads := by
  rcases h.apart with hlog | hstore
  · refine not_circularWait_of_rank rankStoreFirst ?_
    intro t ht l hl m hm
    cases (h.nests t ht).next hl m hm with
    | checkpoint => exact absurd (Thread.nestsIn_of_next hm hl) (hlog t ht)
    | _ => simp [rankStoreFirst]
  · refine not_circularWait_of_rank rankStoreLast ?_
    intro t ht l hl m hm
    cases (h.nests t ht).next hl m hm with
    | delete_all_manager => exact absurd (Thread.nestsIn_of_next hm hl) (hstore t ht)
    | delete_all_log => exact absurd (Thread.nestsIn_of_next hm hl) (hstore t ht)
    | delete_all_deferred => exact absurd (Thread.nestsIn_of_next hm hl) (hstore t ht)
    | _ => simp [rankStoreLast]

/-- **No circular wait** in a run in which no checkpoint on its way to the store and no `delete_all`
    on its way out of it hold their locks together. -/
theorem no_circular_wait {as : List ServerStep} (hapart : Along step TakesApart [] as)
    (hrun : Run step [] as = some threads) : ¬CircularWait threads := by
  have hinv : Inv threads :=
    Run.invariant_of_along (fun _ _ _ hs ha hst => hs.step ha hst)
      ⟨by simp, Or.inl (by simp)⟩ hapart hrun
  exact not_circularWait hinv

/-- A checkpoint has taken the log and a `delete_all` with a connected proxy has taken the store. -/
def checkpointMeetsDeleteAll : List ServerStep :=
  [.start (.checkpoint .written), .start (.delete_all [[.proxy none true]]), .advance 0, .advance 1]

/-- The checkpoint waits for the store and the `delete_all` for the log. -/
theorem circular_wait :
    ∃ threads, Run step [] checkpointMeetsDeleteAll = some threads ∧ CircularWait threads := by
  refine ⟨_, rfl, 0, ?_⟩
  refine .tail (.single (b := 1) ⟨_, _, .store, rfl, rfl, rfl, ?_⟩) ⟨_, _, .log, rfl, rfl, rfl, ?_⟩
  · exact List.mem_cons_self ..
  · exact List.mem_cons_self ..

/-- The `delete_all` takes the store before the checkpoint starts, and the checkpoint takes the log
    when the store is free again. -/
def checkpointAfterDeleteAll : List ServerStep :=
  .start (.checkpoint .written) :: .start (.delete_all [[.proxy none true]]) ::
    (List.replicate 6 (.advance 1) ++ [.advance 0])

theorem no_circular_wait_apart :
    ∃ threads, Run step [] checkpointAfterDeleteAll = some threads ∧ ¬CircularWait threads := by
  have hapart : Along step TakesApart [] checkpointAfterDeleteAll := by
    decide +kernel
  exact ⟨_, rfl, no_circular_wait hapart rfl⟩

end Mutex

end OmniEvents
