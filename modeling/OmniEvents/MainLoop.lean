import OmniEvents.Lib.Transition

set_option autoImplicit false

/-! # The main loop and destroy

`EventChannel_i::mainLoop` makes the POAManager hold requests while it transfers events, and waits
until those that are being executed have finished. `EventChannel_i::destroy` disconnects the proxies by
calls through their POAs, which block while requests are held; it is called by a client, and is then
such a request itself, or by `EventChannelStore::empty`, which has the lock of the store that the
channel's thread needs to leave it. `destroy` looks at the state of the POAManager once, before the
first of its calls. The steps of one channel's thread, of any number of calls of `destroy`, of other
requests, and of the holders of the store's lock interleave in any order. -/

namespace OmniEvents

open Transition

/-! ## States -/

/-- `POAManager::get_state`, and what comes of it when the POA is destroyed. -/
inductive POAState where
  | HOLDING
  | ACTIVE
  | destroyed
  deriving DecidableEq, Repr

/-- What the channel's thread does next. -/
inductive LoopPhase where
  | insert
  | start
  | test
  | hold
  /-- In `hold_requests`, waiting for completion. -/
  | holding
  | retest
  | transfer
  | activate
  | sleep
  | erase
  | destroyPOA
  | exited
  deriving DecidableEq, Repr

/-- What a call of `destroy` does next. `left` proxies are still to be disconnected, not counting the
    one that is being called. -/
inductive DestroyPhase where
  | test
  | setFlag
  | testState
  | activate
  | disconnecting (left : ℕ) (calling : Bool)
  deriving DecidableEq, Repr

/-- A call of `destroy` by a client, through the POA, or by `EventChannelStore::empty`, and how many
    proxies are called through their POAs. -/
structure DestroyCall where
  byClient : Bool
  proxies : ℕ
  phase : DestroyPhase
  deriving DecidableEq, Repr

/-- Who holds the lock of the store, as far as it matters to the channel. -/
inductive StoreLock where
  | free
  | empty
  | other
  deriving DecidableEq, Repr

/-- A channel, its thread, and the calls of `destroy` that have begun. -/
structure ChannelState where
  poaManager : POAState
  shutdownRequested : Bool
  stored : Bool
  thread : LoopPhase
  destroys : List DestroyCall
  /-- Other requests that are being executed. -/
  requests : ℕ
  storeLock : StoreLock
  deriving DecidableEq, Repr

namespace DestroyCall

/-- How many proxies are to be disconnected after the test of the state. -/
def left (d : DestroyCall) : ℕ :=
  match d.phase with
  | .disconnecting left _ => left
  | _ => 0

/-- Is a request being executed for this call? -/
def executing (d : DestroyCall) : Bool :=
  d.byClient ||
    match d.phase with
    | .disconnecting _ calling => calling
    | _ => false

/-- The next thing to do is a call through the POA. -/
def waiting (d : DestroyCall) : Bool :=
  match d.phase with
  | .disconnecting left calling => decide (0 < left) && !calling
  | _ => false

end DestroyCall

namespace ChannelState

/-- Its thread is about to be started. -/
def new : ChannelState :=
  { poaManager := .HOLDING
    shutdownRequested := false
    stored := false
    thread := .insert
    destroys := []
    requests := 0
    storeLock := .free }

/-- Is no request being executed in the POAs of the manager? -/
def completed (s : ChannelState) : Bool :=
  decide (s.requests = 0) && s.destroys.all (!·.executing)

/-! ## Steps

The thread, the calls of `destroy` and the other requests, each with its own phases. A call goes on
as long as it is not blocked, by held requests or by the lock of the store. -/

/-- What can happen to the channel. -/
inductive Action where
  /-- The channel's thread takes its next step. The flag says what it depends on otherwise: whether
      the channel is still referenced, and whether the transfer raises. -/
  | thread (flag : Bool)
  /-- A call of `destroy` begins, and the `i`-th takes its next step; a call to a proxy may raise. -/
  | callDestroy (byClient : Bool) (proxies : ℕ)
  | destroy (i : ℕ) (raised : Bool)
  | beginRequest
  | endRequest
  /-- `EventChannelStore::empty` or another method of the store takes the lock. -/
  | lockStore (empty : Bool)
  | unlockStore
  deriving DecidableEq, Repr

/-- `EventChannel_i::run_undetached` with `mainLoop`. -/
def threadStep (s : ChannelState) (flag : Bool) : Option ChannelState :=
  match s.thread with
  | .insert => if s.storeLock = .free then some { s with stored := true, thread := .start } else none
  | .start => some { s with poaManager := .ACTIVE, thread := .test }
  | .test => some { s with thread := if flag && !s.shutdownRequested then .hold else .erase }
  | .hold => some { s with poaManager := .HOLDING, thread := .holding }
  | .holding =>
      -- `hold_requests(1)` returns when nothing is executing, or when the state changes
      if s.poaManager ≠ .HOLDING ∨ s.completed = true then some { s with thread := .retest } else none
  -- the `break` leaves the manager in the state HOLDING
  | .retest => some { s with thread := if s.shutdownRequested then .erase else .transfer }
  -- the handlers are behind the removal from the store
  | .transfer => some { s with thread := if flag then .exited else .activate }
  | .activate => some { s with poaManager := .ACTIVE, thread := .sleep }
  | .sleep => some { s with thread := .test }
  | .erase =>
      if s.storeLock = .free then some { s with stored := false, thread := .destroyPOA } else none
  | .destroyPOA =>
      some { s with
        poaManager := if s.shutdownRequested then .destroyed else s.poaManager
        thread := .exited }
  | .exited => none

/-- Call `i` of `destroy` has come to another phase. -/
def setDestroy (s : ChannelState) (i : ℕ) (d : DestroyCall) (phase : DestroyPhase) : ChannelState :=
  { s with destroys := s.destroys.set i { d with phase := phase } }

/-- The call has returned or raised. -/
def endDestroy (s : ChannelState) (i : ℕ) : ChannelState :=
  { s with destroys := s.destroys.eraseIdx i }

/-- `EventChannel_i::destroy`. -/
def destroyStep (s : ChannelState) (i : ℕ) (d : DestroyCall) (raised : Bool) : Option ChannelState :=
  match d.phase with
  | .test => some (if s.shutdownRequested then s.endDestroy i else s.setDestroy i d .setFlag)
  | .setFlag => some { s.setDestroy i d .testState with shutdownRequested := true }
  | .testState =>
      some (s.setDestroy i d
        (if s.poaManager = .HOLDING then .activate else .disconnecting d.proxies false))
  | .activate =>
      some { s.setDestroy i d (.disconnecting d.proxies false) with
        poaManager := if s.poaManager = .destroyed then .destroyed else .ACTIVE }
  | .disconnecting 0 false => some (s.endDestroy i)
  -- a call through the POA, which blocks while requests are held
  | .disconnecting (left + 1) false =>
      match s.poaManager with
      | .HOLDING => none
      | .ACTIVE => some (s.setDestroy i d (.disconnecting left true))
      | .destroyed => some (s.endDestroy i)
  | .disconnecting left true =>
      some (if raised then s.endDestroy i else s.setDestroy i d (.disconnecting left false))

/-- The steps of the thread, of the calls and of the requests. -/
def step (s : ChannelState) : Action → Option ChannelState
  | .thread flag => s.threadStep flag
  | .callDestroy byClient proxies =>
      if byClient then
        if s.poaManager = .ACTIVE then
          some { s with destroys := s.destroys ++ [⟨true, proxies, .test⟩] }
        else none
      -- the loop of the store calls one channel after the other
      else if s.stored ∧ s.storeLock = .empty ∧ s.destroys.all (·.byClient) then
        some { s with destroys := s.destroys ++ [⟨false, proxies, .test⟩] }
      else none
  | .destroy i raised =>
      match s.destroys[i]? with
      | none => none
      | some d => s.destroyStep i d raised
  | .beginRequest =>
      if s.poaManager = .ACTIVE then some { s with requests := s.requests + 1 } else none
  | .endRequest => if s.requests = 0 then none else some { s with requests := s.requests - 1 }
  | .lockStore empty =>
      if s.storeLock = .free then some { s with storeLock := if empty then .empty else .other }
      else none
  | .unlockStore =>
      -- `empty` keeps the lock until its call has returned
      if s.storeLock = .free ∨ s.destroys.any (!·.byClient) then none
      else some { s with storeLock := .free }

/-! ## What a step does

The functions with their many branches are taken apart once, into one case for each kind of step. -/

/-- A call of `destroy`, one case for each thing it may do next. -/
inductive DestroyStepped (s : ChannelState) (i : ℕ) (d : DestroyCall) : ChannelState → Prop where
  | ended (hphase : d.phase = .test ∨ ∃ left calling, d.phase = .disconnecting left calling) :
      DestroyStepped s i d (s.endDestroy i)
  | tested (hphase : d.phase = .test) : DestroyStepped s i d (s.setDestroy i d .setFlag)
  | flagged (hphase : d.phase = .setFlag) :
      DestroyStepped s i d { s.setDestroy i d .testState with shutdownRequested := true }
  | held (hphase : d.phase = .testState) (hheld : s.poaManager = .HOLDING) :
      DestroyStepped s i d (s.setDestroy i d .activate)
  | unheld (hphase : d.phase = .testState) (hheld : s.poaManager ≠ .HOLDING) :
      DestroyStepped s i d (s.setDestroy i d (.disconnecting d.proxies false))
  | activated (hphase : d.phase = .activate) :
      DestroyStepped s i d { s.setDestroy i d (.disconnecting d.proxies false) with
        poaManager := if s.poaManager = .destroyed then .destroyed else .ACTIVE }
  | called (left : ℕ) (hphase : d.phase = .disconnecting (left + 1) false)
      (hactive : s.poaManager = .ACTIVE) :
      DestroyStepped s i d (s.setDestroy i d (.disconnecting left true))
  | answered (left : ℕ) (hphase : d.phase = .disconnecting left true) :
      DestroyStepped s i d (s.setDestroy i d (.disconnecting left false))

theorem stepped_of_destroyStep {s t : ChannelState} {i : ℕ} {d : DestroyCall} {raised : Bool}
    (hst : s.destroyStep i d raised = some t) : DestroyStepped s i d t := by
  unfold destroyStep at hst
  split at hst
  · next hphase =>
      cases hst
      split
      · exact .ended (Or.inl hphase)
      · exact .tested hphase
  · next hphase =>
      cases hst
      exact .flagged hphase
  · next hphase =>
      cases hst
      split
      · next hheld => exact .held hphase hheld
      · next hheld => exact .unheld hphase hheld
  · next hphase =>
      cases hst
      exact .activated hphase
  · next hphase =>
      cases hst
      exact .ended (Or.inr ⟨_, _, hphase⟩)
  · next left hphase =>
      split at hst
      · cases hst
      · next hactive =>
          cases hst
          exact .called left hphase hactive
      · cases hst
        exact .ended (Or.inr ⟨_, _, hphase⟩)
  · next left hphase =>
      cases hst
      split
      · exact .ended (Or.inr ⟨_, _, hphase⟩)
      · exact .answered left hphase

/-- Any step; that of the channel's thread is left as it is. -/
inductive Stepped (s : ChannelState) : Action → ChannelState → Prop where
  | thread (flag : Bool) {t : ChannelState} (hst : s.threadStep flag = some t) :
      Stepped s (.thread flag) t
  | callDestroy (byClient : Bool) (proxies : ℕ)
      (hclient : byClient = true → s.poaManager = .ACTIVE)
      (hstore : byClient = false →
        s.stored = true ∧ s.storeLock = .empty ∧ s.destroys.all (·.byClient) = true) :
      Stepped s (.callDestroy byClient proxies)
        { s with destroys := s.destroys ++ [⟨byClient, proxies, .test⟩] }
  | destroy (i : ℕ) (raised : Bool) {d : DestroyCall} {t : ChannelState}
      (hd : s.destroys[i]? = some d) (hst : DestroyStepped s i d t) :
      Stepped s (.destroy i raised) t
  | beginRequest (hactive : s.poaManager = .ACTIVE) :
      Stepped s .beginRequest { s with requests := s.requests + 1 }
  | endRequest (hrequests : s.requests ≠ 0) :
      Stepped s .endRequest { s with requests := s.requests - 1 }
  | lockStore (empty : Bool) (hfree : s.storeLock = .free) :
      Stepped s (.lockStore empty) { s with storeLock := if empty then .empty else .other }
  | unlockStore (hlocked : ¬ (s.storeLock = .free ∨ s.destroys.any (!·.byClient) = true)) :
      Stepped s .unlockStore { s with storeLock := .free }

theorem stepped_of_step {s t : ChannelState} {a : Action} (hst : s.step a = some t) :
    Stepped s a t := by
  cases a with
  | thread flag => exact .thread flag hst
  | callDestroy byClient proxies =>
      simp only [step] at hst
      split at hst
      · next hclient =>
          split at hst
          · next hactive =>
              cases hst
              cases hclient
              exact .callDestroy true proxies (fun _ => hactive) nofun
          · cases hst
      · next hclient =>
          split at hst
          · next hstore =>
              cases hst
              cases Bool.eq_false_iff.2 hclient
              exact .callDestroy false proxies nofun fun _ => hstore
          · cases hst
  | destroy i raised =>
      simp only [step] at hst
      split at hst
      · cases hst
      · next d hd => exact .destroy i raised hd (stepped_of_destroyStep hst)
  | beginRequest =>
      simp only [step] at hst
      split at hst
      · next hactive =>
          cases hst
          exact .beginRequest hactive
      · cases hst
  | endRequest =>
      simp only [step] at hst
      split at hst
      · cases hst
      · next hrequests =>
          cases hst
          exact .endRequest hrequests
  | lockStore empty =>
      simp only [step] at hst
      split at hst
      · next hfree =>
          cases hst
          exact .lockStore empty hfree
      · cases hst
  | unlockStore =>
      simp only [step] at hst
      split at hst
      · cases hst
      · next hlocked =>
          cases hst
          exact .unlockStore hlocked

/-! ## Deadlocks -/

/-- A call of `destroy` waits for requests to be let through, while the channel's thread waits for that
    call to complete or for the lock of the store. -/
def Deadlocked (s : ChannelState) : Prop :=
  s.poaManager = .HOLDING ∧ ∃ d ∈ s.destroys, d.waiting = true ∧
    (s.thread = .holding ∧ d.byClient = true ∨ s.thread = .erase ∧ s.storeLock ≠ .free)

/-- Requests are held only while no call of `destroy` has tested the state already and has proxies
    left to disconnect. -/
def timely (s : ChannelState) : Action → Bool
  | .thread _ => decide (s.thread ≠ .hold) || s.destroys.all (fun d => decide (d.left = 0))
  | _ => true

/-! ## The invariant -/

/-- While requests are held, no call of `destroy` has proxies left to call. -/
def NoneLeft (s : ChannelState) : Prop :=
  s.poaManager = .HOLDING → ∀ d ∈ s.destroys, d.left = 0

section Steps

variable {s t : ChannelState}

theorem NoneLeft.of_active (h : s.poaManager ≠ .HOLDING) : s.NoneLeft := fun hheld => absurd hheld h

theorem NoneLeft.noDeadlock (h : s.NoneLeft) : ¬s.Deadlocked := by
  rintro ⟨hheld, d, hd, hwaiting, -⟩
  have hleft := h hheld d hd
  unfold DestroyCall.waiting at hwaiting
  unfold DestroyCall.left at hleft
  split at hwaiting
  · next hphase =>
      rw [hphase] at hleft
      simp only at hleft
      simp [hleft] at hwaiting
  · cases hwaiting

theorem NoneLeft.setDestroy (h : s.NoneLeft) {i : ℕ} {d : DestroyCall} {phase : DestroyPhase}
    (hleft : s.poaManager = .HOLDING → ({ d with phase := phase } : DestroyCall).left = 0) :
    (s.setDestroy i d phase).NoneLeft := by
  intro hheld d' hd'
  rcases List.mem_or_eq_of_mem_set hd' with hmem | rfl
  · exact h hheld d' hmem
  · exact hleft hheld

theorem NoneLeft.endDestroy (h : s.NoneLeft) (i : ℕ) : (s.endDestroy i).NoneLeft :=
  fun hheld d hd => h hheld d (List.mem_of_mem_eraseIdx hd)

theorem NoneLeft.append (h : s.NoneLeft) (byClient : Bool) (proxies : ℕ) :
    ({ s with destroys := s.destroys ++ [⟨byClient, proxies, .test⟩] } : ChannelState).NoneLeft := by
  intro hheld d hd
  rcases List.mem_append.1 hd with hmem | hnew
  · exact h hheld d hmem
  · obtain rfl := List.mem_singleton.1 hnew
    rfl

theorem NoneLeft.threadStep (h : s.NoneLeft) {flag : Bool} (hok : s.timely (.thread flag) = true)
    (hst : s.threadStep flag = some t) : t.NoneLeft := by
  unfold ChannelState.threadStep at hst
  split at hst
  · split at hst
    · cases hst
      exact h
    · cases hst
  · cases hst
    exact .of_active (by simp)
  · cases hst
    exact h
  · next hphase =>
      cases hst
      intro _ d hd
      simp only [timely, hphase, ne_eq, not_true_eq_false, decide_false, Bool.false_or,
        List.all_eq_true, decide_eq_true_eq] at hok
      exact hok d hd
  · split at hst
    · cases hst
      exact h
    · cases hst
  · cases hst
    exact h
  · cases hst
    exact h
  · cases hst
    exact .of_active (by simp)
  · cases hst
    exact h
  · split at hst
    · cases hst
      exact h
    · cases hst
  · cases hst
    intro hheld
    refine h ?_
    cases hflag : s.shutdownRequested with
    | true => simp [hflag] at hheld
    | false => simpa [hflag] using hheld
  · cases hst

theorem NoneLeft.destroyStep (h : s.NoneLeft) {i : ℕ} {d : DestroyCall}
    (hd : s.destroys[i]? = some d) (hst : DestroyStepped s i d t) : t.NoneLeft := by
  cases hst with
  | ended hphase => exact h.endDestroy i
  | tested hphase => exact h.setDestroy fun _ => rfl
  | flagged hphase => exact @NoneLeft.setDestroy s h i d .testState fun _ => rfl
  -- if requests are held, the next thing to do is to activate the manager
  | held hphase hheld => exact h.setDestroy fun _ => rfl
  | unheld hphase hheld => exact .of_active hheld
  | activated hphase =>
      refine .of_active ?_
      simp only
      split <;> simp
  -- a call gets through only while the manager is active
  | called left hphase hactive => exact .of_active (by simp [ChannelState.setDestroy, hactive])
  | answered left hphase =>
      refine h.setDestroy ?_
      intro hheld
      have hleft := h hheld d (List.mem_of_getElem? hd)
      simpa only [DestroyCall.left, hphase] using hleft

theorem NoneLeft.step {a : Action} (h : s.NoneLeft) (hok : s.timely a = true)
    (hst : s.step a = some t) : t.NoneLeft := by
  cases stepped_of_step hst with
  | thread flag hst => exact h.threadStep hok hst
  | callDestroy byClient proxies hclient hstore => exact h.append byClient proxies
  | destroy i raised hd hst => exact h.destroyStep hd hst
  | beginRequest hactive => exact h
  | endRequest hrequests => exact h
  | lockStore empty hfree => exact h
  | unlockStore hlocked => exact h

/-- Requests held behind the back of a client's call do block both. -/
theorem deadlocked_of_hold {d : DestroyCall} {flag : Bool} (hthread : s.thread = .hold)
    (hd : d ∈ s.destroys) (hclient : d.byClient = true) (hwaiting : d.waiting = true)
    (hst : s.step (.thread flag) = some t) : t.Deadlocked := by
  simp only [ChannelState.step, ChannelState.threadStep, hthread, Option.some.injEq] at hst
  subst hst
  exact ⟨rfl, d, hd, hwaiting, Or.inl ⟨rfl, hclient⟩⟩

end Steps

/-- **`destroy` and the main loop do not block each other** in a run in which requests are never held
    behind the back of a call of `destroy`. -/
theorem not_deadlocked {as : List Action} {s : ChannelState}
    (hok : Along step (fun s a => s.timely a = true) new as) (hrun : Run step new as = some s) :
    ¬s.Deadlocked := by
  have hinit : new.NoneLeft := fun _ d hd => by cases hd
  exact (Run.invariant_of_along (fun _ _ _ => NoneLeft.step) hinit hok hrun).noDeadlock

/-- The thread comes to the call of `hold_requests`. -/
def beforeHold : List Action := [.thread true, .thread true, .thread true]

/-- Then a call of `destroy` is made, which looks at the state before or after that call. -/
def destroyFirst (byClient : Bool) : List Action :=
  beforeHold ++ (if byClient then [] else [.lockStore true]) ++
    [.callDestroy byClient 1, .destroy 0 false, .destroy 0 false, .destroy 0 false, .thread true] ++
      if byClient then [] else [.thread true, .thread true]

/-- A call of the store comes while requests are held, and makes the POAManager active again before
    it calls a proxy. -/
def holdFirst : List Action :=
  beforeHold ++ [.lockStore true, .thread true, .callDestroy false 1, .destroy 0 false,
    .destroy 0 false, .destroy 0 false, .destroy 0 false, .thread true, .thread true]

theorem not_deadlocked_holdFirst :
    ∃ s, Run step new holdFirst = some s ∧ s.thread = .erase ∧ ¬s.Deadlocked := by
  obtain ⟨s, hrun, hthread⟩ : ∃ s, Run step new holdFirst = some s ∧ s.thread = .erase :=
    ⟨_, rfl, rfl⟩
  exact ⟨s, hrun, hthread, not_deadlocked (by decide) hrun⟩

/-- A client's call and one of the store that have looked at the state just before requests are held. -/
theorem destroy_deadlocks :
    ∃ s t, Run step new (destroyFirst true) = some s ∧ s.Deadlocked ∧
      Run step new (destroyFirst false) = some t ∧ t.Deadlocked :=
  ⟨_, _, rfl, ⟨rfl, _, List.mem_singleton_self _, rfl, Or.inl ⟨rfl, rfl⟩⟩,
    rfl, ⟨rfl, _, List.mem_singleton_self _, rfl, Or.inr ⟨rfl, by decide⟩⟩⟩

end ChannelState

end OmniEvents
