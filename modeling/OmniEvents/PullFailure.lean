import OmniEvents.TransferOrder

set_option autoImplicit false

/-! # A pull supplier that fails

`ProxyPullConsumer_i::collect` deals with an exceptional reply, but not with an exception that `env()`
raises while it looks at the reply; and the fourth failure is reported to the peer through the target,
which a disconnection may have cleared. An exception that escapes ends the round of `collect` and the
channel's thread, with the calls still held (`collectsAll_iff`). -/

namespace OmniEvents

variable {Ref : Type}

/-! ## One reply

What `collect` does with a reply, and which replies make an exception escape. -/

namespace ProxyPullConsumer

/-- `_exceptionCount` after an exception in reply to `opname`. -/
def failures (p : ProxyPullConsumer Ref) (opname : Str) : ℕ :=
  if opname = opPull ∨ opname = opTryPull then p.exceptionCount + 1 else p.exceptionCount

/-- The reply makes an exception escape: `env()` raises it, or the peer is given up and there is no
    target to tell it through, or no active object to erase. -/
def escapes (p : ProxyPullConsumer Ref) (reply : Option Reply) : Bool :=
  match p.req, reply with
  | some opname, some (.exception envRaises) =>
      envRaises || (decide (4 ≤ p.failures opname) && (p.target.isNone || !p.active))
  | _, _ => false

/-- The proxy when its reply has been dealt with. -/
def processed (p : ProxyPullConsumer Ref) (reply : Option Reply) : ProxyPullConsumer Ref :=
  match p.req, reply with
  | some opname, some (.exception _) => (p.countException opname).getD p
  | some _, some (.returned _ _) => { p with exceptionCount := 0, req := none }
  | _, _ => p

theorem countException_eq_none {p : ProxyPullConsumer Ref} {opname : Str} :
    p.countException opname = none ↔
      4 ≤ p.failures opname ∧ (p.target = none ∨ p.active = false) := by
  unfold countException failures
  split
  · simp only
    split
    · next hcount =>
        split
        · next h => simpa [hcount] using h
        · next h => simpa [hcount] using h
    · next hcount => simp [hcount]
  · simp only
    split
    · next hcount =>
        split
        · next h => simpa [hcount] using h
        · next h => simpa [hcount] using h
    · next hcount => simp [hcount]

/-- What an exception leaves of a proxy: after the fourth failure it is disconnected. -/
theorem countException_spec {p q : ProxyPullConsumer Ref} {opname : Str}
    (h : p.countException opname = some q) :
    q.req = none ∧ q.exceptionCount = p.failures opname ∧
      if 4 ≤ p.failures opname then
        p.target.isSome = true ∧ p.active = true ∧ q.target = none ∧ q.active = false
      else q.target = p.target ∧ q.active = p.active := by
  have counted : ∀ p : ProxyPullConsumer Ref,
      (if 4 ≤ p.exceptionCount then
        if p.target.isNone || !p.active then none
        else some { p with target := none, active := false, req := none }
      else some { p with req := none }) = some q →
        q.req = none ∧ q.exceptionCount = p.exceptionCount ∧
          if 4 ≤ p.exceptionCount then
            p.target.isSome = true ∧ p.active = true ∧ q.target = none ∧ q.active = false
          else q.target = p.target ∧ q.active = p.active := by
    intro p h
    split at h
    · next hcount =>
        split at h
        · cases h
        · next hup =>
            cases h
            rw [if_pos hcount]
            obtain ⟨htarget, hactive⟩ : p.target ≠ none ∧ p.active = true := by simpa using hup
            exact ⟨rfl, rfl, Option.isSome_iff_ne_none.2 htarget, hactive, rfl, rfl⟩
    · next hcount =>
        cases h
        rw [if_neg hcount]
        exact ⟨rfl, rfl, rfl, rfl⟩
  unfold failures
  by_cases hname : opname = opPull ∨ opname = opTryPull
  · simp only [countException, if_pos hname] at h
    rw [if_pos hname]
    exact counted { p with exceptionCount := p.exceptionCount + 1
                           mode := if p.mode = .Pull then .TryPull else .Pull } h
  · simp only [countException, if_neg hname] at h
    rw [if_neg hname]
    exact counted p h

theorem collect_of_escapes {p : ProxyPullConsumer Ref} {reply : Option Reply}
    (hp : p.escapes reply = true) (h : Heap) (queue : List Ptr) :
    p.collect reply h queue = (p, h, queue, true) := by
  unfold escapes at hp
  split at hp
  · next opname envRaises hreq =>
      simp only [collect, hreq]
      cases envRaises with
      | true => rfl
      | false =>
          have hnone : p.countException opname = none :=
            countException_eq_none.2 (by simpa using hp)
          simp [hnone]
  · cases hp

theorem countException_of_not_escapes {p : ProxyPullConsumer Ref} {opname : Str} {envRaises : Bool}
    (hreq : p.req = some opname) (hp : p.escapes (some (.exception envRaises)) = false) :
    envRaises = false ∧ ∃ q, p.countException opname = some q := by
  simp only [escapes, hreq, Bool.or_eq_false_iff] at hp
  refine ⟨hp.1, Option.ne_none_iff_exists'.1 ?_⟩
  intro hnone
  have hfails : (decide (4 ≤ p.failures opname) && (p.target.isNone || !p.active)) = true := by
    simpa using countException_eq_none.1 hnone
  rw [hp.2] at hfails
  cases hfails

theorem collect_of_not_escapes {p : ProxyPullConsumer Ref} {reply : Option Reply}
    (hp : p.escapes reply = false) (h : Heap) (queue : List Ptr) :
    ∃ h' queue', p.collect reply h queue = (p.processed reply, h', queue', false) := by
  cases hreq : p.req with
  | none => exact ⟨h, queue, by simp [collect, processed, hreq]⟩
  | some opname =>
      rcases reply with _ | envRaises | ⟨value, arguments⟩
      · exact ⟨h, queue, by simp [collect, processed, hreq]⟩
      · obtain ⟨rfl, q, hq⟩ := countException_of_not_escapes hreq hp
        exact ⟨h, queue, by simp [collect, processed, hreq, hq]⟩
      · by_cases hev : hasEvent opname arguments = true
        · exact ⟨_, _, by simp [collect, processed, hreq, hev]; exact ⟨rfl, rfl⟩⟩
        · exact ⟨h, queue, by simp [collect, processed, hreq, hev]⟩

/-- A reply that has been dealt with is gone. -/
theorem processed_req {p : ProxyPullConsumer Ref} {reply : Option Reply}
    (hp : p.escapes reply = false) (hreply : reply ≠ none) : (p.processed reply).req = none := by
  cases hreq : p.req with
  | none => simp [processed, hreq]
  | some opname =>
      rcases reply with _ | envRaises | ⟨value, arguments⟩
      · exact absurd rfl hreply
      · obtain ⟨-, q, hq⟩ := countException_of_not_escapes hreq hp
        simpa [processed, hreq, hq] using (countException_spec hq).1
      · simp [processed, hreq]

end ProxyPullConsumer

/-! ## A round of replies -/

theorem collectAll_of_escapes {poll : Str → Option Reply} {servants : List (ProxyPullConsumer Ref)}
    (hs : ∃ p ∈ servants, p.escapes (poll p.oid) = true) (h : Heap) (queue : List Ptr) :
    (collectAll poll servants h queue).2.2.2 = true := by
  induction servants generalizing h queue with
  | nil => simp at hs
  | cons p servants ih =>
      rw [collectAll]
      cases hp : p.escapes (poll p.oid) with
      | true => rw [ProxyPullConsumer.collect_of_escapes hp]
      | false =>
          obtain ⟨h', queue', hcollect⟩ := ProxyPullConsumer.collect_of_not_escapes hp h queue
          obtain ⟨q, hq, hescapes⟩ := hs
          rcases List.mem_cons.1 hq with rfl | hq
          · rw [hp] at hescapes
            cases hescapes
          · rw [hcollect]
            exact ih ⟨q, hq, hescapes⟩ h' queue'

theorem collectAll_of_not_escapes {poll : Str → Option Reply}
    {servants : List (ProxyPullConsumer Ref)}
    (hs : ∀ p ∈ servants, p.escapes (poll p.oid) = false) (h : Heap) (queue : List Ptr) :
    ∃ h' queue', collectAll poll servants h queue
      = (servants.map (fun p => p.processed (poll p.oid)), h', queue', false) := by
  induction servants generalizing h queue with
  | nil => exact ⟨h, queue, rfl⟩
  | cons p servants ih =>
      obtain ⟨hp, hservants⟩ := List.forall_mem_cons.1 hs
      obtain ⟨h₁, queue₁, hcollect⟩ := ProxyPullConsumer.collect_of_not_escapes hp h queue
      obtain ⟨h₂, queue₂, hrest⟩ := ih hservants h₁ queue₁
      exact ⟨h₂, queue₂, by simp only [collectAll, hcollect, hrest, List.map_cons]⟩

/-! ## A cycle of the channel -/

/-- A cycle that is completed: every reply is dealt with once, every event is handed over once and
    after those that were waiting, and the loop goes on. -/
structure Channel.CollectsAll (c : Channel Ref) (poll : Str → Option Reply) (now : ℕ × ℕ) : Prop where
  running : (c.cycle poll now).running = true
  processed : (c.cycle poll now).supplierAdmin.pullConsumer = c.supplierAdmin.pullConsumer.map
    fun servants => (c.supplierAdmin.trigger c.pullRetryPeriod_ms now
      (servants.map (fun p => p.processed (poll p.oid)))).1
  gone : ∀ p ∈ c.supplierAdmin.pullConsumer.getD [], poll p.oid ≠ none →
    (p.processed (poll p.oid)).req = none
  events : (c.cycle poll now).heap.events = c.heap.events ++ c.accepts (.cycle poll now)
  sent : (c.cycle poll now).consumerAdmin.handed = c.consumerAdmin.handed ++ (c.supplierAdmin.queue ++
    List.range' c.heap.events.length (c.accepts (.cycle poll now)).length)
  waiting : (c.cycle poll now).supplierAdmin.queue = []

/-- **A failing pull supplier stops the channel exactly if an exception escapes.** -/
theorem collectsAll_iff (c : Channel Ref) (hrunning : c.running = true) (poll : Str → Option Reply)
    (now : ℕ × ℕ) :
    c.CollectsAll poll now ↔
      ∀ p ∈ c.supplierAdmin.pullConsumer.getD [], p.escapes (poll p.oid) = false := by
  constructor
  · intro hdone p hp
    rw [← Bool.not_eq_true]
    intro hescapes
    cases hsome : c.supplierAdmin.pullConsumer with
    | none => simp [hsome] at hp
    | some servants =>
        rw [hsome, Option.getD_some] at hp
        -- what escapes one proxy ends the loop, and with it the thread
        have hraised := collectAll_of_escapes ⟨p, hp, hescapes⟩ c.heap c.supplierAdmin.queue
        rcases hall : collectAll poll servants c.heap c.supplierAdmin.queue with ⟨ss, h, queue, raised⟩
        rw [hall] at hraised
        obtain rfl : raised = true := hraised
        have hstop : (c.cycle poll now).running = false := by
          simp [Channel.cycle, SupplierAdmin.collect, hsome, hall]
        rw [hdone.running] at hstop
        cases hstop
  · intro hs
    obtain ⟨sa, h, events, hcollect, hservants⟩ : ∃ sa h events,
        c.supplierAdmin.collect c.pullRetryPeriod_ms poll now c.heap = (sa, h, some events) ∧
          sa.pullConsumer = c.supplierAdmin.pullConsumer.map
            fun servants => (c.supplierAdmin.trigger c.pullRetryPeriod_ms now
              (servants.map (fun p => p.processed (poll p.oid)))).1 := by
      cases hsome : c.supplierAdmin.pullConsumer with
      | none =>
          refine ⟨{ c.supplierAdmin with queue := [], useLocalQueue := false }, c.heap,
            c.supplierAdmin.queue, ?_, ?_⟩
          · simp only [SupplierAdmin.collect, hsome]
          · simp only [hsome, Option.map_none]
      | some servants =>
          rw [hsome, Option.getD_some] at hs
          obtain ⟨h', queue', hall⟩ := collectAll_of_not_escapes hs c.heap c.supplierAdmin.queue
          refine ⟨{ pullConsumer := some (c.supplierAdmin.trigger c.pullRetryPeriod_ms now
                      (servants.map (fun p => p.processed (poll p.oid)))).1
                    queue := []
                    nextPull := (c.supplierAdmin.trigger c.pullRetryPeriod_ms now
                      (servants.map (fun p => p.processed (poll p.oid)))).2
                    useLocalQueue := false }, h', queue', ?_, rfl⟩
          simp only [SupplierAdmin.collect, hsome, hall]
    obtain ⟨hqueue, -, hevents, hevents'⟩ := SupplierAdmin.collect_spec _ _ _ _ _ hcollect
    obtain ⟨hhanded, hheap⟩ := c.consumerAdmin.sendAll_spec h events
    constructor
    · simp [Channel.cycle, hcollect, hrunning]
    · simp [Channel.cycle, hcollect, hservants]
    · exact fun p hp hreply => ProxyPullConsumer.processed_req (hs p hp) hreply
    · simp only [Channel.cycle, hcollect, hheap, hevents, Channel.accepts]
    · simp only [Channel.cycle, hcollect, Channel.accepts]
      rw [hhanded, hevents']
    · simp only [Channel.cycle, hcollect, hqueue]

/-- Two pull suppliers that are waited for. -/
def twoPulls : List (Channel.Action Str) :=
  [.incarnate ['b'], .connect_pull_supplier ['b'] (some ['J']), .incarnate ['a'],
    .connect_pull_supplier ['a'] (some ['I']), .cycle (fun _ => none) (0, 0)]

/-- The first of them has failed, the second has an event. -/
def onePullFails (envRaises : Bool) (oid : Str) : Option Reply :=
  if oid = ['a'] then some (.exception envRaises)
  else some (.returned ⟨⟨.tk_long, []⟩, [3]⟩ [])

/-- Where `env()` returns, one failure does no harm. -/
theorem collectsAll_iff_first_failure :
    ∃ c, Transition.Run (Channel.step true) (Channel.new 4 0 0 none (0, 0)) twoPulls = some c ∧
      c.CollectsAll (onePullFails false) (0, 1) := by
  refine ⟨_, rfl, (collectsAll_iff _ rfl _ _).2 ?_⟩
  decide

/-- Where it raises, the event is not picked up and the calls stay held. -/
theorem env_raises :
    ∃ c, Transition.Run (Channel.step true) (Channel.new 4 0 0 none (0, 0)) twoPulls = some c ∧
      ¬ c.CollectsAll (onePullFails true) (0, 1) :=
  ⟨_, rfl, fun hdone => absurd hdone.running (by decide)⟩

end OmniEvents
