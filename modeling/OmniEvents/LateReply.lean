import OmniEvents.ServantLoops

set_option autoImplicit false

/-! # A reply that comes after the disconnection

`disconnect_pull_consumer` clears the target of a pull consumer but not its outstanding request, and the
servant stays in `_servants` until it is etherealized. A reply that is collected in between is dealt
with as ever: if it is an exception, and the fourth in a row, `collect` reports a failure of the nil
target and builds a request from it. One servant is followed here from its incarnation on; what its
client, its supplier and the ORB do comes in any order. -/

namespace OmniEvents

open Transition

variable {Ref : Type}

/-- `ProxyPullConsumer_i`, with the reply to its request and what has come of it. -/
structure PulledServant (Ref : Type) where
  proxy : ProxyPullConsumer Ref
  /-- The reply to `_req`, once it has arrived. -/
  reply : Option Reply
  heap : Heap
  queue : List Ptr
  etherealized : Bool
  /-- The suppliers that were sent `disconnect_pull_supplier`. -/
  sent : List Ref
  /-- Has `collect` given up a supplier through a nil target? -/
  nilUsed : Bool
  deriving DecidableEq, Repr

/-- A call to the servant, a step of the channel's thread, or the arrival of a reply. -/
inductive PulledServant.Action (Ref : Type) where
  | connect_pull_supplier (pullSupplier : Option Ref)
  | disconnect_pull_consumer
  | triggerRequest
  | arrive (reply : Reply)
  | collect
  | etherealize
  deriving DecidableEq, Repr

namespace PulledServant

/-- A servant that has no request out. -/
def init (p : ProxyPullConsumer Ref) : PulledServant Ref :=
  { proxy := p, reply := none, heap := ⟨[], []⟩, queue := [], etherealized := false, sent := []
    nilUsed := false }

/-- A servant just incarnated, whatever it counts and however it prefers to pull. -/
def fresh (oid : Str) (mode : Mode) (exceptionCount : ℕ) : ProxyPullConsumer Ref :=
  { ProxyPullConsumer.new oid with mode := mode, exceptionCount := exceptionCount }

/-- `ProxyPullConsumer_i::collect`. If it gives up the supplier, it sends the message before anything
    else can raise. An exception that escapes leaves the proxy as it was: the channel's thread, which it
    ends, does not come back to the counters. -/
def collect (s : PulledServant Ref) : PulledServant Ref :=
  let r := s.proxy.collect s.reply s.heap s.queue
  { s with
    proxy := r.1
    reply := if r.1.req.isSome then s.reply else none
    heap := r.2.1
    queue := r.2.2.1
    sent := if s.proxy.givesUp s.reply then s.sent ++ s.proxy.target.toList else s.sent
    nilUsed := s.nilUsed || (s.proxy.givesUp s.reply && s.proxy.target.isNone) }

/-- Calls through the POA reach the servant while it is active; the channel's thread comes to it until
    it is etherealized. -/
def step (s : PulledServant Ref) (a : Action Ref) : Option (PulledServant Ref) :=
  if s.etherealized then none
  else
    match a with
    | .connect_pull_supplier pullSupplier =>
        if s.proxy.active then
          some { s with
            proxy := (s.proxy.connect_pull_supplier pullSupplier).toOption.getD s.proxy }
        else none
    | .disconnect_pull_consumer =>
        if s.proxy.active then
          some { s with
            proxy := (Destroy.disconnect_pull_consumer s.proxy).state
            sent := s.sent ++ (Destroy.disconnect_pull_consumer s.proxy).sent.map Prod.fst }
        else none
    | .triggerRequest => some { s with proxy := s.proxy.triggerRequest }
    | .arrive reply =>
        if s.proxy.req.isSome ∧ s.reply = none then some { s with reply := some reply } else none
    | .collect => some s.collect
    | .etherealize => if s.proxy.active then none else some { s with etherealized := true }

/-- Is the reply an exception that `collect` gets to see? -/
def failing (reply : Option Reply) : Bool := decide (reply = some (.exception false))

/-- A fourth failure in a row does not meet a disconnected servant: no disconnection while it waits to be
    collected, and none of that kind arrives after a disconnection. -/
def timely (s : PulledServant Ref) : Action Ref → Bool
  | .disconnect_pull_consumer => !(failing s.reply && decide (3 ≤ s.proxy.exceptionCount))
  | .arrive reply =>
      !(failing (some reply) && decide (3 ≤ s.proxy.exceptionCount) && s.proxy.target.isNone)
  | _ => true

/-! ## The invariant -/

/-- What holds of the servant in every state. One that is not active has no target any more. -/
structure LateInv (s : PulledServant Ref) : Prop where
  gone : s.proxy.active = false → s.proxy.target = none
  /-- A message is sent when the servant is deactivated. -/
  sent : s.sent ≠ [] → s.proxy.active = false
  once : s.sent.length ≤ 1
  opname : ∀ opname, s.proxy.req = some opname →
    opname = ProxyPullConsumer.opPull ∨ opname = ProxyPullConsumer.opTryPull
  pending : s.reply ≠ none → s.proxy.req ≠ none

/-- A fourth failure that waits to be collected finds its supplier. -/
def Connected (s : PulledServant Ref) : Prop :=
  failing s.reply = true → 3 ≤ s.proxy.exceptionCount → s.proxy.target ≠ none

variable {s t : PulledServant Ref}

/-- What a step does, one case for each action. -/
inductive Stepped (s : PulledServant Ref) : Action Ref → PulledServant Ref → Prop where
  | connect (pullSupplier : Option Ref) (hactive : s.proxy.active = true) :
      Stepped s (.connect_pull_supplier pullSupplier) { s with
        proxy := (s.proxy.connect_pull_supplier pullSupplier).toOption.getD s.proxy }
  | disconnect (hactive : s.proxy.active = true) :
      Stepped s .disconnect_pull_consumer { s with
        proxy := (Destroy.disconnect_pull_consumer s.proxy).state
        sent := s.sent ++ (Destroy.disconnect_pull_consumer s.proxy).sent.map Prod.fst }
  | trigger : Stepped s .triggerRequest { s with proxy := s.proxy.triggerRequest }
  | arrive (reply : Reply) (hreq : s.proxy.req.isSome = true) (hreply : s.reply = none) :
      Stepped s (.arrive reply) { s with reply := some reply }
  | collect : Stepped s .collect s.collect
  | etherealize (hactive : s.proxy.active = false) :
      Stepped s .etherealize { s with etherealized := true }

theorem stepped_of_step {a : Action Ref} (hst : s.step a = some t) : Stepped s a t := by
  unfold PulledServant.step at hst
  split at hst
  · cases hst
  cases a with
  | connect_pull_supplier pullSupplier =>
      simp only at hst
      split at hst
      · next hactive =>
          cases hst
          exact .connect pullSupplier hactive
      · cases hst
  | disconnect_pull_consumer =>
      simp only at hst
      split at hst
      · next hactive =>
          cases hst
          exact .disconnect hactive
      · cases hst
  | triggerRequest =>
      cases hst
      exact .trigger
  | arrive reply =>
      simp only at hst
      split at hst
      · next harrives =>
          cases hst
          exact .arrive reply harrives.1 harrives.2
      · cases hst
  | collect =>
      cases hst
      exact .collect
  | etherealize =>
      simp only at hst
      split at hst
      · cases hst
      · next hactive =>
          cases hst
          exact .etherealize (Bool.eq_false_iff.2 hactive)

theorem LateInv.failures (h : s.LateInv) {opname : Str} (hreq : s.proxy.req = some opname) :
    s.proxy.failures opname = s.proxy.exceptionCount + 1 :=
  if_pos (h.opname opname hreq)

/-- `collect` on a servant that needs its target and has none. -/
theorem LateInv.givesUp_iff (h : s.LateInv) : s.proxy.givesUp s.reply = true ↔
    s.reply = some (.exception false) ∧ 3 ≤ s.proxy.exceptionCount := by
  cases hreq : s.proxy.req with
  | none =>
      have hreply : s.reply = none := by
        by_contra hne
        exact h.pending hne hreq
      simp [ProxyPullConsumer.givesUp, hreq, hreply]
  | some opname =>
      rcases hreply : s.reply with _ | envRaises | ⟨value, arguments⟩
      · simp [ProxyPullConsumer.givesUp, hreq]
      · simp [ProxyPullConsumer.givesUp, hreq, h.failures hreq]
      · simp [ProxyPullConsumer.givesUp, hreq]

/-- An exception that escapes leaves everything as it is, but for the nil target it may have met. -/
theorem LateInv.collect_of_escapes (h : s.LateInv) (hescapes : s.proxy.escapes s.reply = true) :
    s.collect = { s with
      nilUsed := s.nilUsed || (s.proxy.givesUp s.reply && s.proxy.target.isNone) } := by
  have hreq : s.proxy.req.isSome = true := by
    unfold ProxyPullConsumer.escapes at hescapes
    split at hescapes
    · next hreq _ => rw [hreq]; rfl
    · cases hescapes
  have hsent : (if s.proxy.givesUp s.reply then s.sent ++ s.proxy.target.toList else s.sent)
      = s.sent := by
    split
    · next hup =>
        -- it escapes although `env()` has not raised it, so there is no target to send to
        obtain ⟨hreply, -⟩ := h.givesUp_iff.1 hup
        have htarget : s.proxy.target = none := by
          obtain ⟨opname, hopname⟩ := Option.isSome_iff_exists.1 hreq
          simp only [ProxyPullConsumer.escapes, hopname, hreply, Bool.false_or, Bool.and_eq_true,
            Bool.or_eq_true, Bool.not_eq_true'] at hescapes
          rcases hescapes.2 with hnone | hgone
          · exact Option.isNone_iff_eq_none.1 hnone
          · exact h.gone hgone
        rw [htarget]
        exact List.append_nil _
    · rfl
  unfold PulledServant.collect
  simp only [ProxyPullConsumer.collect_of_escapes hescapes, hreq, if_true, hsent]

theorem LateInv.collect (h : s.LateInv) : s.collect.LateInv := by
  cases hescapes : s.proxy.escapes s.reply with
  | true =>
      rw [h.collect_of_escapes hescapes]
      exact { h with }
  | false =>
      obtain ⟨h', queue', heq⟩ := ProxyPullConsumer.collect_of_not_escapes hescapes s.heap s.queue
      unfold PulledServant.collect
      simp only [heq]
      cases hreq : s.proxy.req with
      | none =>
          have hprocessed : s.proxy.processed s.reply = s.proxy := by
            simp [ProxyPullConsumer.processed, hreq]
          have hup : s.proxy.givesUp s.reply = false := by simp [ProxyPullConsumer.givesUp, hreq]
          simp only [hprocessed, hup, hreq]
          exact ⟨h.gone, h.sent, h.once, h.opname, fun hne => absurd rfl hne⟩
      | some opname =>
          have hopname := h.opname opname hreq
          rcases hreply : s.reply with _ | envRaises | ⟨value, arguments⟩
          · simp only [ProxyPullConsumer.processed, ProxyPullConsumer.givesUp, hreq]
            exact ⟨h.gone, h.sent, h.once, h.opname, fun hne => absurd rfl hne⟩
          · rw [hreply] at hescapes
            obtain ⟨rfl, q, hq⟩ := ProxyPullConsumer.countException_of_not_escapes hreq hescapes
            obtain ⟨hqreq, -, hspec⟩ := ProxyPullConsumer.countException_spec hq
            simp only [ProxyPullConsumer.processed, ProxyPullConsumer.givesUp, hreq, hq,
              Option.getD_some, hqreq]
            split at hspec
            · next hcount =>
                obtain ⟨htarget, hactive, hnone, hgone⟩ := hspec
                -- an active servant has sent nothing yet
                have hempty : s.sent = [] := by
                  by_contra hne
                  exact Bool.noConfusion (hactive.symm.trans (h.sent hne))
                refine ⟨fun _ => hnone, fun _ => hgone, ?_, by simp [hqreq],
                  fun hne => absurd rfl hne⟩
                obtain ⟨target, htarget⟩ := Option.isSome_iff_exists.1 htarget
                simp [hcount, hempty, htarget]
            · next hcount =>
                obtain ⟨htarget, hactive⟩ := hspec
                simp only [hcount]
                refine ⟨?_, ?_, h.once, by simp [hqreq], fun hne => absurd rfl hne⟩
                · intro hgone
                  exact htarget.trans (h.gone (hactive ▸ hgone))
                · intro hne
                  exact hactive.trans (h.sent hne)
          · simp only [ProxyPullConsumer.processed, ProxyPullConsumer.givesUp, hreq]
            exact ⟨h.gone, h.sent, h.once, by simp, fun hne => absurd rfl hne⟩

theorem LateInv.connect (h : s.LateInv) (hactive : s.proxy.active = true)
    (pullSupplier : Option Ref) :
    LateInv { s with
      proxy := (s.proxy.connect_pull_supplier pullSupplier).toOption.getD s.proxy } := by
  unfold ProxyPullConsumer.connect_pull_supplier
  split
  · exact h
  · split
    · exact h
    · exact ⟨fun hgone => Bool.noConfusion (hactive.symm.trans hgone), h.sent, h.once, h.opname,
        h.pending⟩

theorem LateInv.disconnect (h : s.LateInv) (hactive : s.proxy.active = true) :
    LateInv { s with
      proxy := (Destroy.disconnect_pull_consumer s.proxy).state
      sent := s.sent ++ (Destroy.disconnect_pull_consumer s.proxy).sent.map Prod.fst } := by
  have hempty : s.sent = [] := by
    by_contra hne
    exact Bool.noConfusion (hactive.symm.trans (h.sent hne))
  unfold Destroy.disconnect_pull_consumer
  cases htarget : s.proxy.target with
  | none => exact ⟨fun _ => rfl, fun _ => rfl, by simp [hempty], h.opname, h.pending⟩
  | some target => exact ⟨fun _ => rfl, fun _ => rfl, by simp [hempty], h.opname, h.pending⟩

theorem LateInv.trigger (h : s.LateInv) : LateInv { s with proxy := s.proxy.triggerRequest } := by
  unfold ProxyPullConsumer.triggerRequest
  split
  · split
    · exact ⟨h.gone, h.sent, h.once, fun _ heq => .inl (Option.some.inj heq).symm, fun _ => nofun⟩
    · exact ⟨h.gone, h.sent, h.once, fun _ heq => .inr (Option.some.inj heq).symm, fun _ => nofun⟩
  · exact h

theorem LateInv.step (h : s.LateInv) {a : Action Ref} (hst : s.step a = some t) : t.LateInv := by
  cases stepped_of_step hst with
  | connect pullSupplier hactive => exact h.connect hactive pullSupplier
  | disconnect hactive => exact h.disconnect hactive
  | trigger => exact h.trigger
  | arrive reply hreq hreply =>
      exact ⟨h.gone, h.sent, h.once, h.opname, fun _ => Option.isSome_iff_ne_none.1 hreq⟩
  | collect => exact h.collect
  | etherealize hactive => exact { h with }

/-- With a target to report, `collect` never uses a nil one. -/
theorem Connected.nilUsed_collect (hc : s.Connected) (h : s.LateInv) :
    s.collect.nilUsed = s.nilUsed := by
  unfold PulledServant.collect
  cases hup : s.proxy.givesUp s.reply with
  | false => simp
  | true =>
      obtain ⟨hreply, hcount⟩ := h.givesUp_iff.1 hup
      have htarget := hc (decide_eq_true hreply) hcount
      simp [Option.isNone_eq_false_iff.2 (Option.isSome_iff_ne_none.2 htarget)]

/-- A reply that has been collected is gone, unless it made an exception escape. -/
theorem Connected.collect (hc : s.Connected) (h : s.LateInv) : s.collect.Connected := by
  cases hescapes : s.proxy.escapes s.reply with
  | true =>
      rw [h.collect_of_escapes hescapes]
      exact hc
  | false =>
      obtain ⟨h', queue', heq⟩ := ProxyPullConsumer.collect_of_not_escapes hescapes s.heap s.queue
      have hreply : s.collect.reply = none := by
        unfold PulledServant.collect
        simp only [heq]
        by_cases hnone : s.reply = none
        · rw [hnone]
          split <;> rfl
        · rw [ProxyPullConsumer.processed_req hescapes hnone]
          rfl
      intro hfailing
      rw [hreply] at hfailing
      simp [failing] at hfailing

theorem Connected.step (hc : s.Connected) (h : s.LateInv) {a : Action Ref}
    (hok : s.timely a = true) (hst : s.step a = some t) :
    t.Connected ∧ t.nilUsed = s.nilUsed := by
  cases stepped_of_step hst with
  | connect pullSupplier hactive =>
      refine ⟨?_, rfl⟩
      unfold ProxyPullConsumer.connect_pull_supplier
      split
      · exact hc
      · split
        · exact hc
        · exact fun _ _ => nofun
  | disconnect hactive =>
      have hcount : (Destroy.disconnect_pull_consumer s.proxy).state.exceptionCount
          = s.proxy.exceptionCount := by
        unfold Destroy.disconnect_pull_consumer
        split <;> rfl
      refine ⟨?_, rfl⟩
      intro hfailing hthree
      have hthree : 3 ≤ s.proxy.exceptionCount := hcount ▸ hthree
      have hfailing : failing s.reply = true := hfailing
      simp [timely, hfailing, hthree] at hok
  | trigger =>
      refine ⟨?_, rfl⟩
      unfold ProxyPullConsumer.triggerRequest
      split
      · split <;> exact hc
      · exact hc
  | arrive reply hreq hreply =>
      refine ⟨?_, rfl⟩
      intro hfailing hthree hnone
      have hfailing : failing (some reply) = true := hfailing
      have hthree : 3 ≤ s.proxy.exceptionCount := hthree
      have hnone : s.proxy.target = none := hnone
      simp [timely, hfailing, hthree, hnone] at hok
  | collect => exact ⟨hc.collect h, hc.nilUsed_collect h⟩
  | etherealize hactive => exact ⟨hc, rfl⟩

/-- Otherwise the next `collect` gives up a supplier through a nil target. -/
theorem nilUsed_of_not_timely (h : s.LateInv) {a : Action Ref} (hok : s.timely a = false)
    (hst : s.step a = some t) : t.collect.nilUsed = true := by
  have ht := h.step hst
  obtain ⟨hreply, hcount, hnone⟩ : t.reply = some (.exception false) ∧
      3 ≤ t.proxy.exceptionCount ∧ t.proxy.target = none := by
    cases stepped_of_step hst with
    | disconnect hactive =>
        obtain ⟨hreply, hcount⟩ : s.reply = some (.exception false) ∧
            3 ≤ s.proxy.exceptionCount := by simpa [timely, failing] using hok
        unfold Destroy.disconnect_pull_consumer
        split
        · next htarget => exact ⟨hreply, hcount, htarget⟩
        · exact ⟨hreply, hcount, rfl⟩
    | arrive reply hreq hreply =>
        obtain ⟨⟨rfl, hcount⟩, hnone⟩ : (reply = .exception false ∧
            3 ≤ s.proxy.exceptionCount) ∧ s.proxy.target = none := by
          simpa [timely, failing] using hok
        exact ⟨rfl, hcount, hnone⟩
    | _ => cases hok
  unfold PulledServant.collect
  simp [ht.givesUp_iff.2 ⟨hreply, hcount⟩, hnone]

theorem lateInv_init (oid : Str) (mode : Mode) (exceptionCount : ℕ) :
    LateInv (init (fresh oid mode exceptionCount) : PulledServant Ref) where
  gone := fun _ => rfl
  sent := fun hne => absurd rfl hne
  once := Nat.zero_le 1
  opname := nofun
  pending := fun hne => absurd rfl hne

/-- A supplier is sent `disconnect_pull_supplier` once at most, in every run. -/
theorem sent_le_one {oid : Str} {mode : Mode} {exceptionCount : ℕ} {acts : List (Action Ref)}
    (hrun : Run PulledServant.step (init (fresh oid mode exceptionCount)) acts = some s) :
    s.sent.length ≤ 1 :=
  (Run.invariant (fun _ _ _ h hst => h.step hst) (lateInv_init oid mode exceptionCount) hrun).once

/-- **A late reply is harmless** in every run in which a fourth failure in a row neither waits for its
    collection when the servant is disconnected nor arrives after that: `collect` uses no nil target,
    and the supplier is sent one message at most. -/
theorem late_reply_harmless (oid : Str) (mode : Mode) (exceptionCount : ℕ)
    (acts : List (Action Ref)) (s : PulledServant Ref)
    (hok : Along PulledServant.step (fun s a => s.timely a = true)
      (init (fresh oid mode exceptionCount)) acts)
    (hrun : Run PulledServant.step (init (fresh oid mode exceptionCount)) acts = some s) :
    s.nilUsed = false ∧ s.sent.length ≤ 1 := by
  refine ⟨?_, sent_le_one hrun⟩
  have hinit : Connected (init (fresh oid mode exceptionCount) : PulledServant Ref) :=
    fun hfailing => by simp [failing, init] at hfailing
  have hinv : s.LateInv ∧ s.Connected ∧ s.nilUsed = false := by
    refine @Run.invariant_of_along _ _ _ _ (fun s => s.LateInv ∧ s.Connected ∧ s.nilUsed = false) ?_
      _ _ _ ⟨lateInv_init oid mode exceptionCount, hinit, rfl⟩ hok hrun
    rintro u a v ⟨hu, hconnected, hused⟩ ha hstep
    obtain ⟨hv, hsame⟩ := hconnected.step hu ha hstep
    exact ⟨hu.step hstep, hv, hsame.trans hused⟩
  exact hinv.2.2

/-- Three failures, then a disconnection while the fourth request is out, which is answered. -/
theorem late_reply_harmless_answered :
    ∃ s, Run PulledServant.step (init (fresh ['p'] .Pull 3))
        [.connect_pull_supplier (some ['s']), .triggerRequest, .disconnect_pull_consumer,
          .arrive (.returned ⟨⟨.tk_long, []⟩, []⟩ []), .collect, .etherealize] = some s ∧
      s.sent = [['s']] ∧ s.nilUsed = false := by
  obtain ⟨s, hrun, hsent⟩ : ∃ s, Run PulledServant.step (init (fresh ['p'] .Pull 3))
        [.connect_pull_supplier (some ['s']), .triggerRequest, .disconnect_pull_consumer,
          .arrive (.returned ⟨⟨.tk_long, []⟩, []⟩ []), .collect, .etherealize] = some s ∧
      s.sent = [['s']] := ⟨_, rfl, rfl⟩
  exact ⟨s, hrun, hsent, (late_reply_harmless ['p'] .Pull 3 _ s (by decide) hrun).1⟩

/-- The same with a fourth failure. -/
theorem late_failure :
    ∃ s, Run PulledServant.step (init (fresh ['p'] .Pull 3))
        [.connect_pull_supplier (some ['s']), .triggerRequest, .disconnect_pull_consumer,
          .arrive (.exception false), .collect] = some s ∧ s.nilUsed = true :=
  ⟨_, rfl, rfl⟩

end PulledServant

end OmniEvents
