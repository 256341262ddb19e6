import OmniEvents.Delivery
import OmniEvents.Lib.OrderedMatch

set_option autoImplicit false

/-! # Federated channels

Two channels are federated when a `ProxyPushSupplier` of one has a `ProxyPushConsumer` of the other
as its consumer, as `eventf` connects them. `Federation.step` interleaves the steps of any number of
channels, each in its own server or several in one, with the arrival of the `push` requests that
travel between them and with their loss. Channels may be federated in any way, also in a circle. A
proxy sends its next request when it has the reply to the last or a `TIMEOUT`, and a request that has
timed out may arrive all the same. The numbers of the requests and what has arrived are kept for the
observer. -/

namespace OmniEvents

open Transition OrderedMatch

variable {Ref : Type}

/-! ## What a step of one channel changes

What federation needs to know of a channel: what it has kept only grows, and a push that is out has
been given and waits for its reply. -/

section Offered

variable {realTimePush : Bool} {n : ℕ} {filter : Option Filter} {s : History Ref}

theorem Offering.kept_increasing (hs : Offering realTimePush n filter s) :
    s.channel.kept.Pairwise (· < ·) := by
  rw [Channel.kept, hs.handed]
  exact List.pairwise_lt_range.filter _

/-- An event that was kept was accepted, and passes the filter. -/
theorem Offering.accepted_of_kept (hs : Offering realTimePush n filter s) {p : Ptr}
    (hp : p ∈ s.channel.kept) :
    ∃ e, s.channel.heap.events[p]? = some e ∧ s.accepted[p]? = some e ∧
      s.channel.consumerAdmin.queue.keeps e = true := by
  obtain ⟨hhanded, hkeeps⟩ := List.mem_filter.1 hp
  rw [hs.handed, List.mem_range] at hhanded
  obtain ⟨e, he, hkeeps⟩ := (Option.any_eq_true _ _).1 hkeeps
  exact ⟨e, he, (hs.events p hhanded).symm.trans he, hkeeps⟩

end Offered

namespace Outlet

/-- The request of the proxy has been sent, and there is no reply yet. -/
def Waits (o : Outlet Ref) : Prop :=
  ∃ p : PushServant Ref, o.servant = .push p ∧ p.req.isSome = true ∧ p.reply = none

/-- A reply is the reply to a request. -/
def Coherent (o : Outlet Ref) : Prop :=
  ∀ p : PushServant Ref, o.servant = .push p → p.req = none → p.reply = none

theorem pushNext_coherent (calls : TriggerCall → Bool) (q : EventQueue) {p : PushServant Ref}
    (hp : p.req = none → p.reply = none) (busy : Bool) :
    (p.pushNext calls q busy).servant.req = none →
      (p.pushNext calls q busy).servant.reply = none := by
  unfold PushServant.pushNext
  split
  · split
    · exact hp
    · split
      · rintro ⟨⟩
      · rintro ⟨⟩
  · exact hp

/-- A reply that is no exception is put away, before the next event is pushed. -/
theorem trigger_eq_pushNext (log : Bool) (calls : TriggerCall → Bool) (q : EventQueue)
    {p : PushServant Ref} (hpoll : (p.req.isSome && calls .poll_response) = false)
    (hfailed : p.failed = false) :
    ∃ (r : PushServant Ref) (busy : Bool), p.trigger log calls q = r.pushNext calls q busy ∧
      ((r = p ∧ (p.req = none ∨ p.reply = none)) ∨ r = { p with req := none, reply := none }) := by
  unfold PushServant.trigger
  rw [if_neg (Bool.not_eq_true _ ▸ hpoll)]
  cases hreq : p.req with
  | none => exact ⟨p, false, rfl, Or.inl ⟨rfl, Or.inl rfl⟩⟩
  | some opname =>
      rcases hreply : p.reply with _ | reply
      · exact ⟨p, false, rfl, Or.inl ⟨rfl, Or.inr rfl⟩⟩
      · by_cases hexception : reply = .exception
        · simp [PushServant.failed, hreq, hreply, hexception] at hfailed
        · refine ⟨{ p with req := none, reply := none }, true, ?_, Or.inr rfl⟩
          cases reply with
          | returned => rfl
          | TIMEOUT => rfl
          | exception => exact absurd rfl hexception

theorem shutDown_coherent (log : Bool) (calls : TriggerCall → Bool) {p : PushServant Ref}
    (hp : p.req = none → p.reply = none) :
    (p.shutDown log calls).servant.req = none →
      (p.shutDown log calls).servant.reply = none := by
  unfold PushServant.shutDown PushServant.disconnected
  split
  · split <;> exact hp
  · split
    · exact hp
    · split
      · exact fun _ => rfl
      · split <;> exact fun _ => rfl

theorem trigger_coherent (log : Bool) (calls : TriggerCall → Bool) (q : EventQueue)
    {p : PushServant Ref} (hp : p.req = none → p.reply = none) :
    (p.trigger log calls q).servant.req = none →
      (p.trigger log calls q).servant.reply = none := by
  cases hpoll : p.req.isSome && calls .poll_response with
  | true => simpa [PushServant.trigger, hpoll] using hp
  | false =>
      cases hfailed : p.failed with
      | true =>
          obtain ⟨-, -, htrigger⟩ | ⟨hnot, -⟩ := PushServant.trigger_cases log calls q p hpoll
          · exact htrigger ▸ shutDown_coherent log calls hp
          · rw [hfailed] at hnot
            cases hnot
      | false =>
          obtain ⟨r, busy, htrigger, ⟨rfl, -⟩ | rfl⟩ :=
            trigger_eq_pushNext log calls q hpoll hfailed
          · exact htrigger ▸ pushNext_coherent calls q hp busy
          · exact htrigger ▸ pushNext_coherent calls q (fun _ => rfl) busy

/-- The proxy that has sent an event waits for the reply to this request. -/
theorem trigger_of_pushes (log : Bool) {calls : TriggerCall → Bool} {q : EventQueue}
    {p : PushServant Ref} (hp : p.req = none → p.reply = none)
    (hpoll : (p.req.isSome && calls .poll_response) = false) (hpushes : p.pushes q = true)
    (hpush : calls .push = false) :
    (p.trigger log calls q).servant.req.isSome = true ∧
      (p.trigger log calls q).servant.reply = none ∧
      (p.trigger log calls q).servant.target = p.target := by
  have hfailed : p.failed = false := by
    obtain ⟨-, hnot, -⟩ | ⟨hfailed, -⟩ := PushServant.trigger_cases log calls q p hpoll
    · rw [hpushes] at hnot
      cases hnot
    · exact hfailed
  unfold PushServant.pushes at hpushes
  simp only [Bool.and_eq_true] at hpushes
  obtain ⟨⟨hfree, htarget⟩, hmore⟩ := hpushes
  obtain ⟨r, busy, htrigger, hr⟩ := trigger_eq_pushNext log calls q hpoll hfailed
  have hreq : r.req = none ∧ r.reply = none ∧ r.target = p.target ∧ r.reader = p.reader := by
    rcases hr with ⟨rfl, hnone | hnone⟩ | rfl
    · exact ⟨hnone, hp hnone, rfl, rfl⟩
    · -- without a reply it pushes only if it has no request
      have hreq : r.req = none := by simpa [hnone] using hfree
      exact ⟨hreq, hnone, rfl, rfl⟩
    · exact ⟨rfl, rfl, rfl, rfl⟩
  obtain ⟨hnone, hreply, htarget', hreader⟩ := hreq
  rw [htrigger, PushServant.pushNext, if_pos (by simp [hnone, htarget', htarget, hreader, hmore])]
  rw [hpush, if_neg Bool.false_ne_true]
  split <;> exact ⟨rfl, hreply, htarget'⟩

/-- What a step can do to a proxy that pushes. -/
inductive PushStep (log : Bool) (q : EventQueue) (p : PushServant Ref) :
    Action Ref → PushServant Ref → Prop where
  | kept {a : Action Ref} {p' : PushServant Ref} (hreq : p'.req = p.req)
      (hreply : p'.reply = p.reply) (htarget : p'.target = p.target ∨ p'.target = none) :
      PushStep log q p a p'
  | connected {p' : PushServant Ref} (pushConsumer : Ref) (hreq : p'.req = p.req)
      (hreply : p'.reply = p.reply) (htarget : p'.target = some pushConsumer) :
      PushStep log q p (.connect_push_consumer (some pushConsumer)) p'
  | replied (reply : PushReply) (hreq : p.req.isSome = true) :
      PushStep log q p (.reply reply) { p with reply := some reply }
  | triggered (calls : TriggerCall → Bool) :
      PushStep log q p (.trigger calls) (p.trigger log calls q).servant

theorem connect_push_consumer_ok {orb : Orb Ref} {p : ProxyPushSupplier Ref}
    {pushConsumer : Option Ref} {r : ProxyPushSupplier Ref}
    (h : p.connect_push_consumer orb pushConsumer = .ok r) :
    ∃ consumer, pushConsumer = some consumer ∧ p.req = none ∧ r.req = p.req ∧
      r.target = some consumer := by
  unfold ProxyPushSupplier.connect_push_consumer at h
  cases pushConsumer with
  | none => cases h
  | some consumer =>
      simp only at h
      split at h
      · cases h
      · next hfree =>
          have hfree : p.target = none ∧ p.req = none := by simpa using hfree
          cases h
          exact ⟨consumer, rfl, hfree.2, rfl, rfl⟩

/-- A proxy that pushes was one before the step. -/
theorem pushStep_of_step {log : Bool} {orb : Orb Ref} {q : EventQueue} {o o' : Outlet Ref}
    {a : Action Ref} {p' : PushServant Ref} (hst : o.step log orb q a = some o')
    (hp' : o'.servant = .push p') : ∃ p, o.servant = .push p ∧ PushStep log q p a p' := by
  cases stepped_of_step hst with
  | refused => exact ⟨p', hp', .kept rfl rfl (Or.inl rfl)⟩
  | connectPush p pushConsumer r ho hconnect =>
      cases hp'
      obtain ⟨consumer, rfl, -, hreq, htarget⟩ := connect_push_consumer_ok hconnect
      exact ⟨p, ho, .connected consumer hreq rfl htarget⟩
  | deactivatePush p ho =>
      cases hp'
      exact ⟨p, ho, .kept rfl rfl (Or.inl rfl)⟩
  | clearPush p ho =>
      cases hp'
      exact ⟨p, ho, .kept rfl rfl (Or.inr rfl)⟩
  | reply p reply ho hreq =>
      cases hp'
      exact ⟨p, ho, .replied reply hreq⟩
  | trigger p calls ho =>
      cases hp'
      exact ⟨p, ho, .triggered calls⟩
  | keepReader _ p p'' reader ho => cases hp'
  | pull p reader now ho =>
      unfold pull at hp'
      simp only at hp'
      split at hp' <;> cases hp'

theorem Coherent.step {log : Bool} {orb : Orb Ref} {q : EventQueue} {o o' : Outlet Ref}
    {a : Action Ref} (hcoherent : o.Coherent) (hst : o.step log orb q a = some o') :
    o'.Coherent := by
  intro p' hp'
  obtain ⟨p, hp, hstep⟩ := pushStep_of_step hst hp'
  have hcoherent : p.req = none → p.reply = none := hcoherent p hp
  cases hstep with
  | kept hreq hreply htarget => exact fun h => hreply.trans (hcoherent (hreq.symm.trans h))
  | connected consumer hreq hreply htarget =>
      exact fun h => hreply.trans (hcoherent (hreq.symm.trans h))
  | replied reply hreq =>
      intro hnone
      rw [show p.req = none from hnone] at hreq
      cases hreq
  | triggered calls => exact trigger_coherent log calls q hcoherent

theorem Moved.given_initial {q : EventQueue} {loses : Bool} {o o' : Outlet Ref}
    (h : Moved q loses o o') : o.given <+: o'.given := by
  cases h with
  | stayed htrace hgiven => exact hgiven ▸ List.prefix_rfl
  | read hmore htrace hgiven =>
      rw [hgiven]
      split
      · exact List.prefix_rfl
      · exact List.prefix_append _ _

theorem Moved.start_eq {q : EventQueue} {loses : Bool} {o o' : Outlet Ref}
    (h : Moved q loses o o') : o'.start = o.start := by
  cases h with
  | stayed htrace hgiven => exact congrArg ReaderTrace.start htrace
  | read hmore htrace hgiven => exact congrArg ReaderTrace.start htrace

/-- While the proxy waits, `trigger` does nothing. -/
theorem trigger_of_waiting (log : Bool) (q : EventQueue) {p : PushServant Ref}
    (hreq : p.req.isSome = true) (hreply : p.reply = none) (calls : TriggerCall → Bool) :
    p.pushes q = false ∧ (p.trigger log calls q).servant = p := by
  obtain ⟨opname, hreq⟩ := Option.isSome_iff_exists.1 hreq
  refine ⟨by simp [PushServant.pushes, hreq, hreply], ?_⟩
  unfold PushServant.trigger
  cases hpoll : p.req.isSome && calls .poll_response with
  | true => simp
  | false => simp [hreq, hreply, PushServant.pushNext]

/-- Only a reply ends the waiting. -/
theorem Waits.step {log : Bool} {orb : Orb Ref} {q : EventQueue} {o o' : Outlet Ref}
    {a : Action Ref} (hwaits : o.Waits) (hreply : ∀ reply, a ≠ .reply reply)
    (hst : o.step log orb q a = some o') : o'.Waits ∧ o'.given = o.given := by
  obtain ⟨servant, start, read, given⟩ := o
  obtain ⟨p, hp, hreq, hnone⟩ := hwaits
  obtain rfl : servant = .push p := hp
  cases a with
  | connect_push_consumer pushConsumer =>
      simp only [Outlet.step] at hst
      split at hst
      · split at hst
        · cases hst
          exact ⟨⟨p, rfl, hreq, hnone⟩, rfl⟩
        · next hconnect =>
            -- `AlreadyConnected`: the request is still there
            obtain ⟨-, -, hnot, -⟩ := connect_push_consumer_ok hconnect
            rw [show p.req = none from hnot] at hreq
            cases hreq
      · cases hst
  | deactivate =>
      simp only [Outlet.step] at hst
      split at hst
      · cases hst
        exact ⟨⟨_, rfl, hreq, hnone⟩, rfl⟩
      · cases hst
  | clearTarget =>
      simp only [Outlet.step] at hst
      split at hst
      · cases hst
      · cases hst
        exact ⟨⟨_, rfl, hreq, hnone⟩, rfl⟩
  | trigger calls =>
      cases hst
      obtain ⟨hpushes, hservant⟩ := trigger_of_waiting log q hreq hnone calls
      refine ⟨⟨p, by rw [trigger, hservant], hreq, hnone⟩, ?_⟩
      simp [trigger, hpushes]
  | reply reply => exact absurd rfl (hreply reply)
  | connect_pull_consumer pullConsumer now => cases hst
  | pull now => cases hst

end Outlet

namespace Feed

/-- What no step of a channel takes back. -/
structure Grows (s t : Feed Ref) : Prop where
  accepted : s.history.accepted <+: t.history.accepted
  kept : s.history.channel.kept <+: t.history.channel.kept
  outlets : ∀ (j : ℕ) (o : Outlet Ref), s.outlets[j]? = some o →
    ∃ o' : Outlet Ref, t.outlets[j]? = some o' ∧ o'.start = o.start ∧ o.given <+: o'.given

theorem Grows.refl (s : Feed Ref) : s.Grows s where
  accepted := List.prefix_rfl
  kept := List.prefix_rfl
  outlets := fun _ o ho => ⟨o, ho, rfl, List.prefix_rfl⟩

theorem Grows.trans {s t u : Feed Ref} (hst : s.Grows t) (htu : t.Grows u) : s.Grows u where
  accepted := hst.accepted.trans htu.accepted
  kept := hst.kept.trans htu.kept
  outlets := by
    intro j o ho
    obtain ⟨o', ho', hstart', hgiven'⟩ := hst.outlets j o ho
    obtain ⟨o'', ho'', hstart'', hgiven''⟩ := htu.outlets j o' ho'
    exact ⟨o'', ho'', hstart''.trans hstart', hgiven'.trans hgiven''⟩

/-- The request that a step sends: by which proxy, to whom, and the event with its number. -/
def sends (s : Feed Ref) : Action Ref → Option (ℕ × Ref × Ptr × Any)
  | .outlet j (.trigger calls) =>
      match s.outlets[j]? with
      | some ⟨.push p, _, _, _⟩ =>
          if !(p.req.isSome && calls .poll_response) && p.pushes s.queue && !calls .push &&
              !calls .send_deferred then
            match p.target, (p.reader.nextEvent s.queue).1 with
            | some target, some place =>
                (s.history.channel.heap.events[place]?).map fun event => (j, target, place, event)
            | _, _ => none
          else none
      | _ => none
  | _ => none

section Steps

variable {realTimePush log : Bool} {orb : Orb Ref} {n : ℕ} {filter : Option Filter}
  {keepsUp : ℕ → Prop} {s t : Feed Ref} {a : Action Ref}

/-- A proxy has given events that were kept, in the order of their numbers. -/
theorem Inv.places (hs : s.Inv realTimePush n filter keepsUp) {j : ℕ} {o : Outlet Ref}
    (ho : s.outlets[j]? = some o) :
    ∃ places : List Ptr, o.given = places.map some ∧ places.Pairwise (· < ·) ∧
      ∀ p ∈ places, p ∈ s.history.channel.kept := by
  have hreader : s.world.readers[j]? = some o.trace := by
    simp only [Feed.world, List.getElem?_map, ho, Option.map_some]
  obtain ⟨nums, hnums, -⟩ := hs.world.readers j o.trace hreader
  have hread : o.read = nums.map (fun k => s.history.channel.kept[k]?) := hnums.returned
  obtain ⟨given, hgiven, heq⟩ := List.sublist_map_iff.1 (hread ▸ (hs.given j o ho).1)
  have hlt : ∀ k ∈ given, k < s.history.channel.kept.length :=
    fun k hk => hnums.lt_length k (hgiven.subset hk)
  have hget : ∀ k ∈ given,
      s.history.channel.kept[k]? = some (s.history.channel.kept.getD k 0) := by
    intro k hk
    rw [List.getD_eq_getElem?_getD, List.getElem?_eq_getElem (hlt k hk), Option.getD_some]
  refine ⟨given.map (s.history.channel.kept.getD · 0), ?_, ?_, ?_⟩
  · rw [heq, List.map_map]
    exact List.map_congr_left hget
  · refine List.pairwise_map.2 ((hnums.skips.strictlyIncreasing.sublist hgiven).imp_of_mem ?_)
    intro k k' hk hk' hkk'
    have hincreasing := List.pairwise_iff_getElem.1 hs.offering.kept_increasing k k' (hlt k hk)
      (hlt k' hk') hkk'
    simpa [List.getD_eq_getElem?_getD, hlt k hk, hlt k' hk'] using hincreasing
  · intro p hp
    obtain ⟨k, hk, rfl⟩ := List.mem_map.1 hp
    exact List.mem_of_getElem? (hget k hk)

/-- A proxy stays where it is: the step leaves it alone, or is one of its own. -/
theorem outlet_step (hst : s.step realTimePush log orb a = some t) {j : ℕ} {o : Outlet Ref}
    (ho : s.outlets[j]? = some o) :
    ∃ o', t.outlets[j]? = some o' ∧
      (o' = o ∨ ∃ b, a = .outlet j b ∧ o.step log orb s.queue b = some o') := by
  have hadd : ∀ servant, (s.add servant).outlets[j]? = some o := by
    intro servant
    rw [add, List.getElem?_append_left (List.getElem?_eq_some_iff.1 ho).1, ho]
  cases a with
  | channel a =>
      obtain ⟨h, hh, rfl⟩ := Option.map_eq_some_iff.1 hst
      exact ⟨o, ho, Or.inl rfl⟩
  | incarnatePush oid =>
      cases hst
      exact ⟨o, hadd _, Or.inl rfl⟩
  | incarnatePull oid now =>
      cases hst
      exact ⟨o, hadd _, Or.inl rfl⟩
  | outlet i b =>
      simp only [Feed.step] at hst
      split at hst
      · cases hst
      · next p hp =>
          obtain ⟨p', hp', rfl⟩ := Option.map_eq_some_iff.1 hst
          by_cases hij : i = j
          · subst hij
            obtain rfl := Option.some.inj (hp.symm.trans ho)
            refine ⟨p', ?_, Or.inr ⟨b, rfl, hp'⟩⟩
            rw [List.getElem?_set_self (List.getElem?_eq_some_iff.1 hp).1]
          · exact ⟨o, by rw [List.getElem?_set_ne hij, ho], Or.inl rfl⟩

/-- A proxy was there before the step, or has given nothing yet and has no consumer. -/
theorem outlets_step (hst : s.step realTimePush log orb a = some t) {j : ℕ} {o' : Outlet Ref}
    (ho' : t.outlets[j]? = some o') :
    (∃ o, s.outlets[j]? = some o ∧
      (o' = o ∨ ∃ b, a = .outlet j b ∧ o.step log orb s.queue b = some o')) ∨
    (o'.given = [] ∧ ∀ p, o'.servant = .push p → p.target = none ∧ p.reply = none) := by
  cases ho : s.outlets[j]? with
  | some o =>
      obtain ⟨o₁, ho₁, hstep⟩ := outlet_step hst ho
      obtain rfl := Option.some.inj (ho₁.symm.trans ho')
      exact Or.inl ⟨o, rfl, hstep⟩
  | none =>
      right
      have hlength := List.getElem?_eq_none_iff.1 ho
      have hadd : ∀ servant, (s.add servant).outlets[j]? = some o' →
          o' = ⟨servant, s.history.channel.kept.length, [], []⟩ := by
        intro servant h
        rw [add, List.getElem?_append_right hlength, List.getElem?_singleton] at h
        split at h
        · exact (Option.some.inj h).symm
        · cases h
      cases a with
      | channel a =>
          obtain ⟨h, hh, rfl⟩ := Option.map_eq_some_iff.1 hst
          rw [ho] at ho'
          cases ho'
      | incarnatePush oid =>
          cases hst
          obtain rfl := hadd _ ho'
          refine ⟨rfl, ?_⟩
          rintro _ ⟨⟩
          exact ⟨rfl, rfl⟩
      | incarnatePull oid now =>
          cases hst
          obtain rfl := hadd _ ho'
          refine ⟨rfl, ?_⟩
          rintro _ ⟨⟩
      | outlet i b =>
          simp only [Feed.step] at hst
          split at hst
          · cases hst
          · obtain ⟨p', hp', rfl⟩ := Option.map_eq_some_iff.1 hst
            rw [List.getElem?_eq_none_iff.2 (by rwa [List.length_set])] at ho'
            cases ho'

theorem step_grows (hs : s.Inv realTimePush n filter keepsUp)
    (hst : s.step realTimePush log orb a = some t) : s.Grows t := by
  have houtlets : ∀ (j : ℕ) (o : Outlet Ref), s.outlets[j]? = some o →
      ∃ o', t.outlets[j]? = some o' ∧ o'.start = o.start ∧ o.given <+: o'.given := by
    intro j o ho
    obtain ⟨o', ho', rfl | ⟨b, -, hb⟩⟩ := outlet_step hst ho
    · exact ⟨o', ho', rfl, List.prefix_rfl⟩
    · have hmoved := Outlet.step_moved hb
      exact ⟨o', ho', hmoved.start_eq, hmoved.given_initial⟩
  cases a with
  | channel a =>
      obtain ⟨h, hh, rfl⟩ := Option.map_eq_some_iff.1 hst
      refine ⟨?_, (hs.offering.step hh).2, houtlets⟩
      simp only [History.step, Option.map_eq_some_iff] at hh
      obtain ⟨c, -, rfl⟩ := hh
      exact List.prefix_append _ _
  | incarnatePush oid =>
      cases hst
      exact ⟨List.prefix_rfl, List.prefix_rfl, houtlets⟩
  | incarnatePull oid now =>
      cases hst
      exact ⟨List.prefix_rfl, List.prefix_rfl, houtlets⟩
  | outlet i a =>
      simp only [Feed.step] at hst
      split at hst
      · cases hst
      · obtain ⟨o', ho', rfl⟩ := Option.map_eq_some_iff.1 hst
        exact ⟨List.prefix_rfl, List.prefix_rfl, houtlets⟩

/-- A proxy that waits goes on waiting, until a reply comes. -/
theorem waits_step {j : ℕ} {o : Outlet Ref} (ho : s.outlets[j]? = some o) (hwaits : o.Waits)
    (hreply : ∀ reply, a ≠ .outlet j (.reply reply))
    (hst : s.step realTimePush log orb a = some t) :
    ∃ o', t.outlets[j]? = some o' ∧ o'.Waits ∧ o'.given = o.given := by
  obtain ⟨o', ho', rfl | ⟨b, rfl, hb⟩⟩ := outlet_step hst ho
  · exact ⟨o', ho', hwaits, rfl⟩
  · exact ⟨o', ho', hwaits.step (fun reply h => hreply reply (h ▸ rfl)) hb⟩

theorem coherent_step (hcoherent : ∀ o ∈ s.outlets, o.Coherent)
    (hst : s.step realTimePush log orb a = some t) : ∀ o ∈ t.outlets, o.Coherent := by
  intro o' ho'
  obtain ⟨j, ho'⟩ := List.mem_iff_getElem?.1 ho'
  rcases outlets_step hst ho' with ⟨o, ho, rfl | ⟨b, -, hb⟩⟩ | ⟨-, hnone⟩
  · exact hcoherent _ (List.mem_of_getElem? ho)
  · exact (hcoherent o (List.mem_of_getElem? ho)).step hb
  · exact fun p hp _ => (hnone p hp).2

/-- A request is sent by a proxy that waited for no reply, and now waits for this one. -/
theorem sends_spec {j : ℕ} {target : Ref} {place : Ptr} {event : Any}
    (hcoherent : ∀ o ∈ s.outlets, o.Coherent) (hsends : s.sends a = some (j, target, place, event))
    (hst : s.step realTimePush log orb a = some t) :
    ∃ o o', s.outlets[j]? = some o ∧ t.outlets[j]? = some o' ∧ ¬ o.Waits ∧ o'.Waits ∧
      o'.given = o.given ++ [some place] ∧
      s.history.channel.heap.events[place]? = some event ∧ t.history = s.history := by
  unfold sends at hsends
  split at hsends
  case h_2 => cases hsends
  next j' calls =>
  split at hsends
  case h_2 => cases hsends
  next p start read given ho =>
  split at hsends
  case isFalse => cases hsends
  next hpush =>
  split at hsends
  case h_2 => cases hsends
  next target' place' htarget hplace =>
  obtain ⟨event', hevent, heq⟩ := Option.map_eq_some_iff.1 hsends
  cases heq
  simp only [Feed.step, ho, Outlet.step, Option.map_some] at hst
  cases hst
  simp only [Bool.and_eq_true, Bool.not_eq_true'] at hpush
  obtain ⟨⟨⟨hpolled, hpushes⟩, hcall⟩, hsend⟩ := hpush
  refine ⟨_, _, ho, List.getElem?_set_self (List.getElem?_eq_some_iff.1 ho).1, ?_, ?_, ?_, hevent,
    rfl⟩
  · rintro ⟨p', hp', hreq, hnone⟩
    cases hp'
    rw [(Outlet.trigger_of_waiting false s.queue hreq hnone calls).1] at hpushes
    cases hpushes
  · obtain ⟨hreq, hreply, -⟩ := Outlet.trigger_of_pushes log
      (hcoherent _ (List.mem_of_getElem? ho) p rfl) hpolled hpushes hcall
    exact ⟨_, rfl, hreq, hreply⟩
  · simp [Outlet.trigger, hpolled, hpushes, hcall, hsend, hplace]

end Steps

end Feed

/-! ## The channels and the requests between them -/

/-- How a channel is built and configured. -/
structure Site where
  realTimePush : Bool
  log : Bool
  maxQueueLength : ℕ
  filter : Option Filter
  pullRetryPeriod_ms : ℕ
  cyclePeriod_ns : ℕ
  /-- When the channel is made. -/
  now : ℕ × ℕ

/-- A `push` request from a proxy of one channel to another channel. `place` is the number of its
    event among those that the sender has accepted. -/
structure Request where
  sender : ℕ
  proxy : ℕ
  place : Ptr
  event : Any
  receiver : ℕ
  deriving DecidableEq, Repr

/-- No request is sent twice. -/
def Request.key (r : Request) : ℕ × ℕ × Ptr := (r.sender, r.proxy, r.place)

/-- Channels, the requests between them, and what has become of these. -/
structure Federation (Ref : Type) where
  feeds : List (Feed Ref)
  inFlight : List Request
  lost : List Request
  /-- The requests that have arrived, with the number that the receiver gave to the event. -/
  arrived : List (Request × ℕ)

namespace Federation

/-- `count` channels, just made, with nothing in flight. -/
def new (sites : ℕ → Site) (count : ℕ) : Federation Ref where
  feeds := (List.range count).map fun i =>
    Feed.new (Channel.new (sites i).maxQueueLength (sites i).pullRetryPeriod_ms
      (sites i).cyclePeriod_ns (sites i).filter (sites i).now)
  inFlight := []
  lost := []
  arrived := []

/-- A step of a channel, or of a request. -/
inductive Action (Ref : Type) where
  /-- A step of channel `i`. -/
  | feed (i : ℕ) (a : Feed.Action Ref)
  /-- The request `m` of those in flight comes to its channel, or to nobody. -/
  | arrive (m : ℕ)
  | lose (m : ℕ)

/-- The requests that a step of channel `i` puts on their way; `channelOf` tells to which channel the
    `ProxyPushConsumer` with a given reference belongs. -/
def sent (channelOf : Ref → Option ℕ) (i : ℕ) (f : Feed Ref) (a : Feed.Action Ref) :
    List Request :=
  match f.sends a with
  | none => []
  | some (j, target, place, event) =>
      match channelOf target with
      | none => []
      | some k => [⟨i, j, place, event, k⟩]

/-- `push` returns to a proxy only when its last request has arrived. -/
def answers (s : Federation Ref) (i : ℕ) (f : Feed Ref) : Feed.Action Ref → Bool
  | .outlet j (.reply .returned) =>
      (s.inFlight ++ s.lost).all fun r =>
        !(r.sender == i && r.proxy == j &&
          (f.outlets[j]?).bind (fun o => o.given.getLast?) == some (some r.place))
  | _ => true

section Step

variable (sites : ℕ → Site) (orb : Orb Ref) (channelOf : Ref → Option ℕ)

/-- A step of channel `i`, as its settings have it. -/
def stepFeed (i : ℕ) (f : Feed Ref) (a : Feed.Action Ref) : Option (Feed Ref) :=
  f.step (sites i).realTimePush (sites i).log orb a

/-- The steps. What a proxy gives to a consumer that is another channel becomes a request in
    flight. -/
def step (s : Federation Ref) : Action Ref → Option (Federation Ref)
  | .feed i a =>
      match s.feeds[i]? with
      | none => none
      | some f =>
          if s.answers i f a then
            (stepFeed sites orb i f a).map fun f' =>
              { s with feeds := s.feeds.set i f'
                       inFlight := s.inFlight ++ sent channelOf i f a }
          else none
  | .arrive m =>
      match s.inFlight[m]? with
      | none => none
      | some r =>
          match s.feeds[r.receiver]? with
          | none => none
          | some f =>
              (stepFeed sites orb r.receiver f (.channel (.push r.event))).map fun f' =>
                { s with feeds := s.feeds.set r.receiver f'
                         inFlight := s.inFlight.eraseIdx m
                         arrived := s.arrived ++ [(r, f.history.accepted.length)] }
  | .lose m =>
      match s.inFlight[m]? with
      | none => none
      | some r => some { s with inFlight := s.inFlight.eraseIdx m, lost := s.lost ++ [r] }

end Step

/-! ## From the first channel to the last

An event has a place in each channel that it comes through. `Delivered` relates the place in the
first to the place among what the last consumer got. -/

/-- Event `p` of channel `i`. -/
def event (s : Federation Ref) (i p : ℕ) : Option Any :=
  (s.feeds[i]?).bind fun f => f.history.accepted[p]?

/-- Event `p` of channel `i` has come through proxy `j` to channel `k`, as its event `q`. -/
def Passed (s : Federation Ref) (i j k : ℕ) : ℕ → ℕ → Prop :=
  Recorded (s.arrived.filter fun x => x.1.sender = i ∧ x.1.proxy = j ∧ x.1.receiver = k)
    (fun x => x.1.place) Prod.snd

/-- The same over several channels: from proxy to channel, and from there on. -/
def PassedAlong (s : Federation Ref) : ℕ → List (ℕ × ℕ) → ℕ → ℕ → Prop
  | _, [] => Eq
  | i, (j, k) :: path => Relation.Comp (s.Passed i j k) (s.PassedAlong k path)

/-- The channel at the end. -/
def destination : ℕ → List (ℕ × ℕ) → ℕ
  | i, [] => i
  | _, (_, k) :: path => destination k path

/-- Proxy `j` of channel `i` has given event `p` to its consumer, as the one with the number `a`. -/
def Given (s : Federation Ref) (i j p a : ℕ) : Prop :=
  ∃ f o, s.feeds[i]? = some f ∧ f.outlets[j]? = some o ∧ o.given[a]? = some (some p)

/-- Event `p` of channel `i` was given to the consumer of proxy `j` at the end of the path. -/
def Delivered (s : Federation Ref) (i : ℕ) (path : List (ℕ × ℕ)) (j : ℕ) : ℕ → ℕ → Prop :=
  Relation.Comp (s.PassedAlong i path) (s.Given (destination i path) j)

end Federation

end OmniEvents
