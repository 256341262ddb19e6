import OmniEvents.MainLoop
import Mathlib.Data.List.Perm.Basic

set_option autoImplicit false

/-! # The transfer phase of the main loop

`SupplierAdmin_i::collect` copies the list of events that `push` appends to, and then clears it. No lock
is held: the calls of the channel's POAs are. `TransferState` puts that list next to the steps of the
channel's thread and of `destroy`, with the copying and the clearing as steps of their own. What breaks
the exclusion is the call of `activate` in `destroy`, if `EventChannelStore::empty` makes it while the
thread transfers events; a client's call cannot, since `hold_requests` has waited for it. -/

namespace OmniEvents

open Transition

/-- Is this a phase in which requests need not be held? -/
def LoopPhase.calm : LoopPhase → Bool
  | .holding | .retest | .transfer | .activate => false
  | _ => true

namespace ChannelState

/-- No operation of the channel's POAs is being executed, and none can begin. -/
def Quiet (s : ChannelState) : Prop := s.poaManager = .HOLDING ∧ s.completed = true

/-- Does a call of `destroy` activate the POAManager? -/
def activating (s : ChannelState) : Action → Bool
  | .destroy i _ => (s.destroys[i]?).any (fun d => d.phase = .activate)
  | _ => false

/-- The POAManager is not activated by `destroy` while the channel's thread transfers events. -/
def undisturbed (s : ChannelState) (a : Action) : Bool :=
  !s.activating a || decide (s.thread ≠ .transfer ∧ s.thread ≠ .activate)

/-- A call of `destroy` sets the flag before it looks at the state. -/
def Flagged (s : ChannelState) : Prop :=
  ∀ d ∈ s.destroys, d.phase ≠ .test → d.phase ≠ .setFlag → s.shutdownRequested = true

/-- While events are transferred nothing else is executed, as long as no shutdown is requested. -/
structure Exclusive (s : ChannelState) : Prop where
  flagged : s.Flagged
  holding : s.thread = .holding → s.shutdownRequested = false → s.poaManager = .HOLDING
  retest : s.thread = .retest → s.shutdownRequested = false → s.Quiet
  transfer : s.thread = .transfer ∨ s.thread = .activate → s.Quiet

section Steps

variable {s t : ChannelState}

/-! ## What the other steps leave alone -/

theorem destroyStep_frame {i : ℕ} {d : DestroyCall} (hst : DestroyStepped s i d t) :
    t.thread = s.thread ∧ (d.phase ≠ .activate → t.poaManager = s.poaManager) ∧
      (s.shutdownRequested = true → t.shutdownRequested = true) := by
  cases hst with
  | flagged hphase => exact ⟨rfl, fun _ => rfl, fun _ => rfl⟩
  | activated hphase => exact ⟨rfl, fun h => absurd hphase h, id⟩
  | _ => exact ⟨rfl, fun _ => rfl, id⟩

theorem step_frame {a : Action} (ha : ∀ flag, a ≠ .thread flag) (hst : s.step a = some t) :
    t.thread = s.thread ∧ (s.activating a = false → t.poaManager = s.poaManager) ∧
      (s.shutdownRequested = true → t.shutdownRequested = true) := by
  cases stepped_of_step hst with
  | thread flag hst => exact absurd rfl (ha flag)
  | destroy i raised hd hst =>
      obtain ⟨hthread, hmanager, hflag⟩ := destroyStep_frame hst
      refine ⟨hthread, fun hnot => hmanager ?_, hflag⟩
      simpa [activating, hd] using hnot
  | _ => exact ⟨rfl, fun _ => rfl, id⟩

/-! ## Quiet states -/

theorem completed_iff :
    s.completed = true ↔ s.requests = 0 ∧ ∀ d ∈ s.destroys, d.executing = false := by
  simp [completed]

theorem completed_setDestroy (h : s.completed = true) {i : ℕ} {d : DestroyCall}
    {phase : DestroyPhase} (hphase : ({ d with phase := phase } : DestroyCall).executing = false) :
    (s.setDestroy i d phase).completed = true := by
  rw [completed_iff] at h ⊢
  refine ⟨h.1, ?_⟩
  intro d' hd'
  rcases List.mem_or_eq_of_mem_set hd' with hmem | rfl
  · exact h.2 d' hmem
  · exact hphase

theorem completed_endDestroy (h : s.completed = true) (i : ℕ) : (s.endDestroy i).completed = true := by
  rw [completed_iff] at h ⊢
  exact ⟨h.1, fun d hd => h.2 d (List.mem_of_mem_eraseIdx hd)⟩

theorem Quiet.destroyStep (h : s.Quiet) {i : ℕ} {d : DestroyCall}
    (hd : s.destroys[i]? = some d) (hnot : d.phase ≠ .activate) (hst : DestroyStepped s i d t) :
    t.Quiet := by
  obtain ⟨hheld, hdone⟩ := h
  refine ⟨((destroyStep_frame hst).2.1 hnot).trans hheld, ?_⟩
  have hexecuting := (completed_iff.1 hdone).2 d (List.mem_of_getElem? hd)
  -- a call that executes nothing is none by a client
  have hclient : d.byClient = false := by
    unfold DestroyCall.executing at hexecuting
    exact (Bool.or_eq_false_iff.1 hexecuting).1
  cases hst with
  | ended hphase => exact completed_endDestroy hdone i
  | tested hphase => exact completed_setDestroy hdone (by simp [DestroyCall.executing, hclient])
  | flagged hphase =>
      exact @completed_setDestroy s hdone i d .testState (by simp [DestroyCall.executing, hclient])
  | held hphase _ => exact completed_setDestroy hdone (by simp [DestroyCall.executing, hclient])
  | unheld hphase hactive => exact absurd hheld hactive
  | activated hphase => exact absurd hphase hnot
  | called left hphase hactive => exact POAState.noConfusion (hheld.symm.trans hactive)
  | answered left hphase => simp [DestroyCall.executing, hphase] at hexecuting

theorem Quiet.step {a : Action} (h : s.Quiet) (ha : ∀ flag, a ≠ .thread flag)
    (hnot : s.activating a = false) (hst : s.step a = some t) : t.Quiet := by
  obtain ⟨hheld, hdone⟩ := h
  obtain ⟨hrequests, hdestroys⟩ := completed_iff.1 hdone
  cases stepped_of_step hst with
  | thread flag hst => exact absurd rfl (ha flag)
  | callDestroy byClient proxies hclient hstore =>
      have hempty : byClient = false := Bool.eq_false_iff.2 fun hbyClient =>
        POAState.noConfusion (hheld.symm.trans (hclient hbyClient))
      refine ⟨hheld, completed_iff.2 ⟨hrequests, ?_⟩⟩
      intro d hd
      rcases List.mem_append.1 hd with hd | hd
      · exact hdestroys d hd
      · rw [List.mem_singleton.1 hd, hempty]
        rfl
  | destroy i raised hd hst =>
      refine Quiet.destroyStep ⟨hheld, hdone⟩ hd ?_ hst
      simpa [activating, hd] using hnot
  | beginRequest hactive => exact POAState.noConfusion (hheld.symm.trans hactive)
  | endRequest hexecuting => exact absurd hrequests hexecuting
  | lockStore empty hfree => exact ⟨hheld, hdone⟩
  | unlockStore hlocked => exact ⟨hheld, hdone⟩

/-! ## The invariant -/

theorem Flagged.setDestroy (h : s.Flagged) {i : ℕ} {d : DestroyCall} {phase : DestroyPhase}
    (hphase : phase ≠ .test → phase ≠ .setFlag → s.shutdownRequested = true) :
    (s.setDestroy i d phase).Flagged := by
  intro d' hd' htest hset
  rcases List.mem_or_eq_of_mem_set hd' with hmem | rfl
  · exact h d' hmem htest hset
  · exact hphase htest hset

theorem Flagged.endDestroy (h : s.Flagged) (i : ℕ) : (s.endDestroy i).Flagged :=
  fun d hd => h d (List.mem_of_mem_eraseIdx hd)

theorem Flagged.destroyStep (h : s.Flagged) {i : ℕ} {d : DestroyCall}
    (hd : s.destroys[i]? = some d) (hst : DestroyStepped s i d t) : t.Flagged := by
  have hflag := h d (List.mem_of_getElem? hd)
  cases hst with
  | ended hphase => exact h.endDestroy i
  | tested hphase => exact h.setDestroy fun _ hset => absurd rfl hset
  | flagged hphase => exact fun _ _ _ _ => rfl
  | held hphase _ => exact h.setDestroy fun _ _ => hflag (by simp [hphase]) (by simp [hphase])
  | unheld hphase _ => exact h.setDestroy fun _ _ => hflag (by simp [hphase]) (by simp [hphase])
  | activated hphase =>
      exact @Flagged.setDestroy s h i d (.disconnecting d.proxies false)
        fun _ _ => hflag (by simp [hphase]) (by simp [hphase])
  | called left hphase _ =>
      exact h.setDestroy fun _ _ => hflag (by simp [hphase]) (by simp [hphase])
  | answered left hphase =>
      exact h.setDestroy fun _ _ => hflag (by simp [hphase]) (by simp [hphase])

theorem threadStep_frame {flag : Bool} (hst : s.threadStep flag = some t) :
    t.destroys = s.destroys ∧ t.shutdownRequested = s.shutdownRequested := by
  unfold threadStep at hst
  cases hthread : s.thread with
  | insert | holding | erase =>
      rw [hthread] at hst
      simp only at hst
      split at hst
      · cases hst
        exact ⟨rfl, rfl⟩
      · cases hst
  | exited =>
      rw [hthread] at hst
      cases hst
  | _ =>
      rw [hthread] at hst
      cases hst
      exact ⟨rfl, rfl⟩

theorem Flagged.step (h : s.Flagged) {a : Action} (hst : s.step a = some t) : t.Flagged := by
  cases stepped_of_step hst with
  | thread flag hst =>
      obtain ⟨hdestroys, hflag⟩ := threadStep_frame hst
      unfold Flagged
      rw [hdestroys, hflag]
      exact h
  | callDestroy byClient proxies hclient hstore =>
      intro d hd htest hset
      rcases List.mem_append.1 hd with hd | hd
      · exact h d hd htest hset
      · rw [List.mem_singleton.1 hd] at htest
        exact absurd rfl htest
  | destroy i raised hd hst => exact h.destroyStep hd hst
  | beginRequest hactive => exact h
  | endRequest hrequests => exact h
  | lockStore empty hfree => exact h
  | unlockStore hlocked => exact h

/-- No call of `destroy` activates the manager before the flag is set. -/
theorem Flagged.not_activating (h : s.Flagged) (hflag : s.shutdownRequested = false) (a : Action) :
    s.activating a = false := by
  cases a with
  | destroy i raised =>
      cases hd : s.destroys[i]? with
      | none => simp [activating, hd]
      | some d =>
          refine Bool.eq_false_iff.2 ?_
          intro hactivate
          have hphase : d.phase = .activate := by simpa [activating, hd] using hactivate
          have hset := h d (List.mem_of_getElem? hd) (by simp [hphase]) (by simp [hphase])
          exact Bool.noConfusion (hset.symm.trans hflag)
  | _ => rfl

theorem Exclusive.of_calm (h : s.Flagged) (hcalm : s.thread.calm = true) :
    s.Exclusive where
  flagged := h
  holding := fun hthread => by simp [hthread, LoopPhase.calm] at hcalm
  retest := fun hthread => by simp [hthread, LoopPhase.calm] at hcalm
  transfer := fun hthread => by rcases hthread with hthread | hthread <;>
    simp [hthread, LoopPhase.calm] at hcalm

theorem Exclusive.threadStep (h : s.Exclusive) {flag : Bool} (hst : s.threadStep flag = some t) :
    t.Exclusive := by
  obtain ⟨hdestroys, hflag⟩ := threadStep_frame hst
  have hflagged : t.Flagged := by
    unfold Flagged
    rw [hdestroys, hflag]
    exact h.flagged
  unfold ChannelState.threadStep at hst
  cases hthread : s.thread with
  | hold =>
      rw [hthread] at hst
      cases hst
      exact ⟨hflagged, fun _ _ => rfl, nofun, nofun⟩
  | holding =>
      rw [hthread] at hst
      simp only at hst
      split at hst
      · next hreturns =>
          cases hst
          refine ⟨hflagged, nofun, ?_, nofun⟩
          intro _ hclear
          -- as long as the flag is clear, nothing but completion ends the wait
          have hheld := h.holding hthread hclear
          exact ⟨hheld, hreturns.resolve_left (fun hne => hne hheld)⟩
      · cases hst
  | retest =>
      rw [hthread] at hst
      cases hst
      refine ⟨hflagged, ?_, ?_, ?_⟩
      · intro ht
        simp only at ht
        split at ht <;> cases ht
      · intro ht
        simp only at ht
        split at ht <;> cases ht
      · intro ht
        refine h.retest hthread (Bool.eq_false_iff.2 ?_)
        intro hset
        simp [hset] at ht
  | transfer =>
      rw [hthread] at hst
      cases hst
      have hquiet := h.transfer (.inl hthread)
      cases flag with
      | true => exact Exclusive.of_calm hflagged rfl
      | false => exact ⟨hflagged, nofun, nofun, fun _ => hquiet⟩
  | insert | erase =>
      rw [hthread] at hst
      simp only at hst
      split at hst
      · cases hst
        exact Exclusive.of_calm hflagged rfl
      · cases hst
  | test =>
      rw [hthread] at hst
      cases hst
      refine Exclusive.of_calm hflagged ?_
      show LoopPhase.calm (if _ then .hold else .erase) = true
      split <;> rfl
  | start | activate | sleep | destroyPOA =>
      rw [hthread] at hst
      cases hst
      exact Exclusive.of_calm hflagged rfl
  | exited =>
      rw [hthread] at hst
      cases hst

theorem Exclusive.step (h : s.Exclusive) {a : Action} (hok : s.undisturbed a = true)
    (hst : s.step a = some t) : t.Exclusive := by
  by_cases ha : ∃ flag, a = .thread flag
  · obtain ⟨flag, rfl⟩ := ha
    exact h.threadStep hst
  · have ha : ∀ flag, a ≠ .thread flag := fun flag heq => ha ⟨flag, heq⟩
    obtain ⟨hthread, hmanager, hflag⟩ := step_frame ha hst
    have hclear : t.shutdownRequested = false → s.shutdownRequested = false := by
      intro hclear
      refine Bool.eq_false_iff.2 ?_
      intro hset
      exact Bool.noConfusion ((hflag hset).symm.trans hclear)
    refine ⟨h.flagged.step hst, ?_, ?_, ?_⟩
    · intro ht hunset
      rw [hmanager (h.flagged.not_activating (hclear hunset) a)]
      exact h.holding (hthread ▸ ht) (hclear hunset)
    · intro ht hunset
      exact (h.retest (hthread ▸ ht) (hclear hunset)).step ha
        (h.flagged.not_activating (hclear hunset) a) hst
    · intro ht
      rw [hthread] at ht
      refine (h.transfer ht).step ha ?_ hst
      unfold undisturbed at hok
      rcases Bool.or_eq_true _ _ ▸ hok with hnot | hphase
      · simpa using hnot
      · have hphase := of_decide_eq_true hphase
        exact absurd ht (fun ht => ht.elim hphase.1 hphase.2)

/-- An activation that comes too early lets a request in. -/
theorem request_of_disturbed {a : Action} (h : s.Exclusive) (hok : s.undisturbed a = false)
    (hst : s.step a = some t) :
    t.thread = s.thread ∧ (t.step .beginRequest).isSome = true := by
  simp only [undisturbed, Bool.or_eq_false_iff, Bool.not_eq_false', decide_eq_false_iff_not] at hok
  obtain ⟨hactivating, hphase⟩ := hok
  have hheld : s.poaManager = .HOLDING := by
    refine (h.transfer ?_).1
    by_contra hne
    exact hphase ⟨fun h => hne (.inl h), fun h => hne (.inr h)⟩
  cases a with
  | destroy i raised =>
      simp only [step] at hst
      split at hst
      · cases hst
      · next d hd =>
          have hd' : d.phase = .activate := by simpa [activating, hd] using hactivating
          refine ⟨(destroyStep_frame (stepped_of_destroyStep hst)).1, ?_⟩
          simp only [destroyStep, hd', hheld] at hst
          cases hst
          rfl
  | _ => cases hactivating

end Steps

end ChannelState

/-! ## The events

The transfer itself in steps: the copy of `_queue` and its `clear` are two of them, and a `push` may
come between. -/

/-- Where `collect` and `send` are while they transfer events. -/
inductive Collecting where
  | idle
  /-- `events=_queue` is done. -/
  | copied (events : List ℕ)
  /-- So is `_queue.clear()`. -/
  | cleared (events : List ℕ)
  deriving DecidableEq, Repr

/-- The events that `_queue` no longer holds. -/
def Collecting.events : Collecting → List ℕ
  | .cleared events => events
  | _ => []

/-- The channel with its accepted events, which are numbered: those in the queue of the push consumers,
    and those sent to the consumer admin. -/
structure TransferState where
  channel : ChannelState
  collecting : Collecting
  queue : List ℕ
  sent : List ℕ
  accepted : ℕ
  deriving DecidableEq, Repr

namespace TransferState

/-- A channel whose thread is about to start, with nothing to transfer. -/
def new : TransferState :=
  { channel := .new, collecting := .idle, queue := [], sent := [], accepted := 0 }

/-- A step of the channel, or a `push`. -/
inductive Action where
  | channel (a : ChannelState.Action)
  /-- A request that is being executed is a `push`, which appends its event to `_queue` or, with
      `OMNIEVENTS_REAL_TIME_PUSH`, may send it at once. -/
  | push (direct : Bool)
  deriving DecidableEq, Repr

/-- One statement of the transfer, or an exception from the pull consumers before it. -/
def transferStep (s : TransferState) (raised : Bool) : Option TransferState :=
  match s.collecting with
  | .idle =>
      if raised then (s.channel.step (.thread true)).map fun c => { s with channel := c }
      else some { s with collecting := .copied s.queue }
  | .copied events => some { s with queue := [], collecting := .cleared events }
  | .cleared events =>
      (s.channel.step (.thread false)).map fun c =>
        { s with channel := c, sent := s.sent ++ events, collecting := .idle }

/-- The steps. The transfer phase of the thread takes its own, in which events are collected and
    sent. -/
def step (s : TransferState) : Action → Option TransferState
  | .channel (.thread flag) =>
      if s.channel.thread = .transfer then s.transferStep flag
      else (s.channel.step (.thread flag)).map fun c => { s with channel := c }
  | .channel a => (s.channel.step a).map fun c => { s with channel := c }
  | .push direct =>
      if s.channel.requests = 0 then none
      else if direct then
        some { s with sent := s.sent ++ [s.accepted], accepted := s.accepted + 1 }
      else some { s with queue := s.queue ++ [s.accepted], accepted := s.accepted + 1 }

/-- Does the POAManager stay as it is while the channel's thread transfers events? -/
def undisturbed (s : TransferState) : Action → Bool
  | .channel a => s.channel.undisturbed a
  | .push _ => true

/-- Nothing is lost or doubled: what was accepted is sent, or on its way, or in the queue. -/
structure TransferInv (s : TransferState) : Prop where
  exclusive : s.channel.Exclusive
  phase : s.collecting ≠ .idle → s.channel.thread = .transfer
  copied : ∀ events, s.collecting = .copied events → events = s.queue
  ledger : (s.sent ++ s.collecting.events ++ s.queue).Perm (List.range s.accepted)

variable {s t : TransferState}

theorem transferInv_new : new.TransferInv where
  exclusive := ChannelState.Exclusive.of_calm (fun _ hd => by cases hd) rfl
  phase := fun h => absurd rfl h
  copied := fun _ h => Collecting.noConfusion h
  ledger := List.Perm.refl _

/-- A step of the channel, while nothing has been copied, leaves the events where they are. -/
theorem TransferInv.channel (h : s.TransferInv) {c : ChannelState} (hc : c.Exclusive)
    (hphase : s.collecting ≠ .idle → c.thread = .transfer) :
    TransferInv { s with channel := c } :=
  ⟨hc, hphase, h.copied, h.ledger⟩

theorem TransferInv.transferStep (h : s.TransferInv) (hthread : s.channel.thread = .transfer)
    {raised : Bool} (hst : s.transferStep raised = some t) : t.TransferInv := by
  have hledger := h.ledger
  unfold TransferState.transferStep at hst
  cases hcollecting : s.collecting with
  | idle =>
      rw [hcollecting] at hst hledger
      simp only at hst
      split at hst
      · obtain ⟨c, hc, rfl⟩ := Option.map_eq_some_iff.1 hst
        exact ⟨h.exclusive.threadStep hc, fun hne => absurd rfl hne, nofun, hledger⟩
      · cases hst
        exact ⟨h.exclusive, fun _ => hthread, fun _ heq => (Collecting.copied.inj heq).symm, hledger⟩
  | copied events =>
      rw [hcollecting] at hst hledger
      cases hst
      -- nothing has been pushed since the list was copied
      obtain rfl := h.copied events hcollecting
      refine ⟨h.exclusive, fun _ => hthread, nofun, ?_⟩
      simpa [Collecting.events] using hledger
  | cleared events =>
      rw [hcollecting] at hst hledger
      obtain ⟨c, hc, rfl⟩ := Option.map_eq_some_iff.1 hst
      refine ⟨h.exclusive.threadStep hc, fun hne => absurd rfl hne, nofun, ?_⟩
      simpa [Collecting.events] using hledger

/-- No push is executed between the copying of the list and its clearing. -/
theorem TransferInv.push (h : s.TransferInv) {direct : Bool} (hst : s.step (.push direct) = some t) :
    t.TransferInv := by
  simp only [TransferState.step] at hst
  split at hst
  · cases hst
  next hrequests =>
  have hidle : s.collecting = .idle := by
    by_contra hne
    have hquiet := h.exclusive.transfer (.inl (h.phase hne))
    exact hrequests (ChannelState.completed_iff.1 hquiet.2).1
  have hledger := h.ledger
  rw [hidle] at hledger
  have hledger : (s.sent ++ s.queue).Perm (List.range s.accepted) := by
    simpa [Collecting.events] using hledger
  have hcopied : ∀ events, s.collecting ≠ .copied events := fun events => by simp [hidle]
  split at hst
  · cases hst
    refine ⟨h.exclusive, h.phase, fun events heq => absurd heq (hcopied events), ?_⟩
    simp only [hidle, Collecting.events, List.append_nil, List.range_succ, List.append_assoc,
      List.singleton_append]
    exact List.perm_middle.trans ((hledger.cons _).trans (List.perm_append_singleton _ _).symm)
  · cases hst
    refine ⟨h.exclusive, h.phase, fun events heq => absurd heq (hcopied events), ?_⟩
    simp only [hidle, Collecting.events, List.append_nil, List.range_succ, ← List.append_assoc]
    exact hledger.append_right _

theorem TransferInv.step (h : s.TransferInv) {a : Action} (hok : s.undisturbed a = true)
    (hst : s.step a = some t) : t.TransferInv := by
  cases a with
  | push direct => exact h.push hst
  | channel a =>
      by_cases ha : ∃ flag, a = .thread flag
      · obtain ⟨flag, rfl⟩ := ha
        simp only [TransferState.step] at hst
        split at hst
        · next hthread => exact h.transferStep hthread hst
        · next hthread =>
            obtain ⟨c, hc, rfl⟩ := Option.map_eq_some_iff.1 hst
            exact h.channel (h.exclusive.threadStep hc) (fun hne => absurd (h.phase hne) hthread)
      · have ha : ∀ flag, a ≠ .thread flag := fun flag heq => ha ⟨flag, heq⟩
        have hmap : (s.channel.step a).map (fun c => { s with channel := c }) = some t := by
          cases a with
          | thread flag => exact absurd rfl (ha flag)
          | _ => exact hst
        obtain ⟨c, hc, rfl⟩ := Option.map_eq_some_iff.1 hmap
        refine h.channel (h.exclusive.step hok hc) ?_
        intro hne
        rw [(ChannelState.step_frame ha hc).1]
        exact h.phase hne

/-- **The transfer phase is exclusive** in every run in which `destroy` does not activate the POAManager
    while the channel's thread transfers events: no operation is being executed and none can begin, from
    the test of the flag to the thread's own call of `activate`, and every accepted event has been sent,
    is about to be, or is still in the queue. -/
theorem transfer_exclusive {as : List Action} {s : TransferState}
    (hok : Along step (fun s a => s.undisturbed a = true) new as) (hrun : Run step new as = some s) :
    (s.channel.thread = .transfer ∨ s.channel.thread = .activate →
      s.channel.poaManager = .HOLDING ∧ s.channel.completed = true) ∧
    (s.sent ++ s.collecting.events ++ s.queue).Perm (List.range s.accepted) := by
  have hinv := Run.invariant_of_along (fun _ _ _ h hok hst => h.step hok hst) transferInv_new hok hrun
  exact ⟨hinv.exclusive.transfer, hinv.ledger⟩

/-- The thread passes the test of the flag, with one event in the queue. -/
def beforeTransfer : List Action :=
  [.channel (.thread true), .channel (.thread true), .channel .beginRequest, .push false,
    .channel .endRequest, .channel (.thread true), .channel (.thread true), .channel (.thread true),
    .channel (.thread true)]

/-- A call of `destroy` begins before the transfer, but sees the state only after it. -/
theorem transfer_exclusive_late :
    ∃ s, Run step new (beforeTransfer ++ [.channel (.lockStore true), .channel (.callDestroy false 1),
        .channel (.destroy 0 false), .channel (.destroy 0 false), .channel (.thread false),
        .channel (.thread false), .channel (.thread false)]) = some s ∧
      s.channel.thread = .activate ∧ s.sent = [0] ∧ s.channel.completed = true := by
  obtain ⟨s, hrun, hthread, hsent⟩ : ∃ s, Run step new (beforeTransfer ++
      [.channel (.lockStore true), .channel (.callDestroy false 1),
        .channel (.destroy 0 false), .channel (.destroy 0 false), .channel (.thread false),
        .channel (.thread false), .channel (.thread false)]) = some s ∧
      s.channel.thread = .activate ∧ s.sent = [0] := ⟨_, rfl, rfl, rfl⟩
  exact ⟨s, hrun, hthread, hsent, ((transfer_exclusive (by decide) hrun).1 (.inr hthread)).2⟩

/-- `delete_all` activates the POAManager after the list has been copied: a `push` is executed before
    the list is cleared, and its event is lost. -/
theorem push_during_transfer :
    ∃ s t, Run step new (beforeTransfer ++ [.channel (.lockStore true),
        .channel (.callDestroy false 1), .channel (.destroy 0 false), .channel (.destroy 0 false),
        .channel (.destroy 0 false), .channel (.thread false), .channel (.destroy 0 false),
        .channel .beginRequest, .push false]) = some s ∧
      s.channel.thread = .transfer ∧ s.channel.completed = false ∧
      Run step s [.channel (.thread false), .channel (.thread false)] = some t ∧
      ¬(t.sent ++ t.collecting.events ++ t.queue).Perm (List.range t.accepted) :=
  ⟨_, _, rfl, rfl, rfl, rfl, by decide⟩

end TransferState

end OmniEvents
