import OmniEvents.Destroy
import OmniEvents.PullFailure
import OmniEvents.Lib.LiveIteration

set_option autoImplicit false

/-! # Loops over the servants of a manager

`etherealize` erases a servant from `_servants` some time after it was deactivated, in a thread of the
ORB. The three `disconnect` loops run without a lock, and the call they make deactivates the very
servant that the iterator stands on; `collect` does so for a supplier that it gives up, and
`triggerRequest`, which follows it, may come to a servant deactivated before. The trigger loop of the
push suppliers is not among them: it holds the lock that their `etherealize` takes. -/

namespace OmniEvents

open Transition LiveIteration

variable {Ref : Type}

/-! ## The bodies of the loops -/

/-- A servant as a call leaves it, and whether the call raises. -/
def Called.outcome {σ : Type*} (a : Called Ref σ) : σ × Bool := (a.state, a.raised.isSome)

/-- The body of `ProxyPushSupplierManager::disconnect`. -/
def ProxyPushSupplier.disconnectOne (p : ProxyPushSupplier Ref) : ProxyPushSupplier Ref × Bool :=
  (Called.through p.active p (Destroy.disconnect_push_supplier p)).outcome

/-- The body of `ProxyPullSupplierManager::disconnect`. -/
def ProxyPullSupplier.disconnectOne (now : ℕ) (p : ProxyPullSupplier Ref) :
    ProxyPullSupplier Ref × Bool :=
  (Called.through p.active p (Destroy.disconnect_pull_supplier now p)).outcome

namespace ProxyPullConsumer

/-- The body of `ProxyPullConsumerManager::disconnect`. -/
def disconnectOne (p : ProxyPullConsumer Ref) : ProxyPullConsumer Ref × Bool :=
  (Called.through p.active p (Destroy.disconnect_pull_consumer p)).outcome

/-- The body of `ProxyPullConsumerManager::collect`, which also fills the queue. -/
def collectOne (poll : Str → Option Reply) (h : Heap) (queue : List Ptr)
    (p : ProxyPullConsumer Ref) : ProxyPullConsumer Ref × Bool :=
  ((p.collect (poll p.oid) h queue).1, (p.collect (poll p.oid) h queue).2.2.2)

/-- The body of `ProxyPullConsumerManager::triggerRequest`. -/
def triggerOne (p : ProxyPullConsumer Ref) : ProxyPullConsumer Ref × Bool :=
  (p.triggerRequest, false)

/-- The reply is the failure after which the supplier is disconnected. -/
def givesUp (p : ProxyPullConsumer Ref) (reply : Option Reply) : Bool :=
  match p.req, reply with
  | some opname, some (.exception envRaises) => !envRaises && decide (4 ≤ p.failures opname)
  | _, _ => false

end ProxyPullConsumer

/-! ## What the bodies do to a servant -/

theorem ProxyPushSupplier.disconnectOne_of_active {p : ProxyPushSupplier Ref}
    (h : p.active = true) :
    p.disconnectOne.1.active = false ∧ p.disconnectOne.2 = p.target.isNone := by
  simp only [disconnectOne, Called.through, h, if_true, Called.outcome,
    Destroy.disconnect_push_supplier]
  cases p.target <;> exact ⟨rfl, rfl⟩

theorem ProxyPullSupplier.disconnectOne_of_active {p : ProxyPullSupplier Ref} (now : ℕ)
    (h : p.active = true) :
    (p.disconnectOne now).1.active = false ∧ (p.disconnectOne now).2 = !p.connected := by
  simp only [disconnectOne, Called.through, h, if_true, Called.outcome,
    Destroy.disconnect_pull_supplier]
  cases p.connected with
  | false => exact ⟨rfl, rfl⟩
  | true => cases p.target <;> exact ⟨rfl, rfl⟩

namespace ProxyPullConsumer

theorem disconnectOne_of_active {p : ProxyPullConsumer Ref} (h : p.active = true) :
    p.disconnectOne.1.active = false ∧ p.disconnectOne.2 = p.target.isNone := by
  simp only [disconnectOne, Called.through, h, if_true, Called.outcome,
    Destroy.disconnect_pull_consumer]
  cases p.target <;> exact ⟨rfl, rfl⟩

/-- The outcome of `collect` does not depend on the queue. -/
theorem collectOne_eq (poll : Str → Option Reply) (h : Heap) (queue : List Ptr)
    (p : ProxyPullConsumer Ref) :
    p.collectOne poll h queue =
      if p.escapes (poll p.oid) then (p, true) else (p.processed (poll p.oid), false) := by
  unfold collectOne
  split
  · next hescapes => rw [collect_of_escapes hescapes]
  · next hescapes =>
      obtain ⟨h', queue', heq⟩ := collect_of_not_escapes (by simpa using hescapes) h queue
      rw [heq]

theorem processed_active {p : ProxyPullConsumer Ref} {reply : Option Reply} (hp : p.active = true)
    (hreply : p.escapes reply = false) : (p.processed reply).active = !p.givesUp reply := by
  cases hreq : p.req with
  | none => simp [processed, givesUp, hreq, hp]
  | some opname =>
      rcases reply with _ | envRaises | ⟨value, arguments⟩
      · simp [processed, givesUp, hreq, hp]
      · obtain ⟨rfl, q, hq⟩ := countException_of_not_escapes hreq hreply
        obtain ⟨-, -, hspec⟩ := countException_spec hq
        split at hspec
        · next hcount => simp [processed, givesUp, hreq, hq, hcount, hspec.2.2.2]
        · next hcount => simp [processed, givesUp, hreq, hq, hcount, hspec.2, hp]
      · simp [processed, givesUp, hreq, hp]

theorem triggerRequest_active (p : ProxyPullConsumer Ref) : p.triggerRequest.active = p.active := by
  unfold triggerRequest
  split
  · split <;> rfl
  · rfl

end ProxyPullConsumer

/-! ## The loops

What it means for each loop that its set is steady, by what the body does with a servant. -/

/-- `collect` keeps every servant, up to the last one, where an exception may escape. -/
theorem steady_collect_iff (poll : Str → Option Reply) (h : Heap) (queue : List Ptr)
    (servants : List (ℕ × ProxyPullConsumer Ref)) :
    Steady (ProxyPullConsumer.collectOne poll h queue) (·.active) servants ↔
      ∀ pre e post, servants = pre ++ e :: post → e.2.active = true ∧
        if e.2.escapes (poll e.2.oid) then post = [] else e.2.givesUp (poll e.2.oid) = false := by
  unfold Steady
  refine forall_congr' fun pre => forall_congr' fun e => forall_congr' fun post =>
    imp_congr_right fun _ => and_congr_right ?_
  intro hactive
  rw [ProxyPullConsumer.collectOne_eq]
  cases hescapes : e.2.escapes (poll e.2.oid) with
  | true => simp
  | false => simp [ProxyPullConsumer.processed_active hactive hescapes]

/-- **When the loops over the servants are safe against etherealization**, for every schedule: a
    `disconnect` with no servant at all, or with a single one whose call raises; `collect` and
    `triggerRequest` if the servants are active and `collect` gives up none. -/
theorem servant_loops_sound_iff (now : ℕ) (poll : Str → Option Reply) (h : Heap) (queue : List Ptr)
    (pushSuppliers : List (ℕ × ProxyPushSupplier Ref))
    (pullSuppliers : List (ℕ × ProxyPullSupplier Ref))
    (pullConsumers : List (ℕ × ProxyPullConsumer Ref))
    (hpush : (keys pushSuppliers).Nodup) (hpull : (keys pullSuppliers).Nodup)
    (hconsumers : (keys pullConsumers).Nodup) :
    (Sound ProxyPushSupplier.disconnectOne (·.active) pushSuppliers ↔
      pushSuppliers = [] ∨
        ∃ e, pushSuppliers = [e] ∧ e.2.active = true ∧ e.2.target.isNone = true) ∧
    (Sound (ProxyPullSupplier.disconnectOne now) (·.active) pullSuppliers ↔
      pullSuppliers = [] ∨
        ∃ e, pullSuppliers = [e] ∧ e.2.active = true ∧ e.2.connected = false) ∧
    (Sound ProxyPullConsumer.disconnectOne (·.active) pullConsumers ↔
      pullConsumers = [] ∨
        ∃ e, pullConsumers = [e] ∧ e.2.active = true ∧ e.2.target.isNone = true) ∧
    (Sound (ProxyPullConsumer.collectOne poll h queue) (·.active) pullConsumers ↔
      ∀ pre e post, pullConsumers = pre ++ e :: post → e.2.active = true ∧
        if e.2.escapes (poll e.2.oid) then post = [] else e.2.givesUp (poll e.2.oid) = false) ∧
    (Sound ProxyPullConsumer.triggerOne (·.active) pullConsumers ↔
      ∀ e ∈ pullConsumers, e.2.active = true) := by
  refine ⟨?_, ?_, ?_, ?_, ?_⟩
  · rw [sound_iff hpush, steady_of_deactivating fun p hp => (p.disconnectOne_of_active hp).1]
    refine or_congr_right (exists_congr fun e => and_congr_right fun _ => and_congr_right ?_)
    intro he
    rw [(e.2.disconnectOne_of_active he).2]
  · rw [sound_iff hpull, steady_of_deactivating fun p hp => (p.disconnectOne_of_active now hp).1]
    refine or_congr_right (exists_congr fun e => and_congr_right fun _ => and_congr_right ?_)
    intro he
    rw [(e.2.disconnectOne_of_active now he).2, Bool.not_eq_true']
  · rw [sound_iff hconsumers, steady_of_deactivating fun p hp => (p.disconnectOne_of_active hp).1]
    refine or_congr_right (exists_congr fun e => and_congr_right fun _ => and_congr_right ?_)
    intro he
    rw [(e.2.disconnectOne_of_active he).2]
  · rw [sound_iff hconsumers, steady_collect_iff]
  · rw [sound_iff hconsumers,
      steady_of_harmless (fun p => p.triggerRequest_active) (fun _ => rfl)]

/-- Two connected consumers of the pull kind, for the runs below. -/
def pullServants : List (ℕ × ProxyPullConsumer Str) :=
  [(1, { (ProxyPullConsumer.new ['a'] : ProxyPullConsumer Str) with target := some ['x'] }),
    (2, { (ProxyPullConsumer.new ['b'] : ProxyPullConsumer Str) with target := some ['y'] })]

/-- Requests can be sent out for two active servants, whatever is etherealized meanwhile. -/
theorem servant_loops_sound_iff_trigger :
    Sound ProxyPullConsumer.triggerOne (·.active) pullServants :=
  (servant_loops_sound_iff 0 (fun _ => none) ⟨[], []⟩ [] [] [] pullServants (by decide) (by decide)
    (by decide)).2.2.2.2.2 (by decide)

/-- The first servant is erased as soon as its call has returned, and the iterator stands on it. -/
theorem disconnect_stale :
    ∃ s, Run (LiveIteration.step ProxyPullConsumer.disconnectOne (·.active))
        (LiveIteration.start pullServants)
        [.loop, .erase 1] = some s ∧ s.cursor = .standing 1 true ∧ s.Stale :=
  ⟨_, rfl, rfl, (by decide : 1 ∉ [2])⟩

end OmniEvents
