import OmniEvents.PushManager
import OmniEvents.ReaderLaw

set_option autoImplicit false

/-! # What a push supplier sends

`ProxyPushSupplier_i::trigger` clears `_req`, reads the next event and sends it in one call. Here it
comes with what it lets others see (`deliver`), and is followed through any sequence of triggers,
replies and appends on one connected proxy. What was seen is a number of rounds, each a push and its
reply, and an end that the servant's state tells (`Ending`). -/

namespace OmniEvents

open Transition

variable {Ref : Type}

/-! ## A trigger and what it sends -/

/-- What is seen of a proxy from outside, in order. -/
inductive Observed where
  /-- The request `push`, with the event that `nextEvent` returned. -/
  | pushed (event : Option Ptr)
  | replied (reply : PushReply)
  | disconnect_push_consumer
  /-- The record that deletes the key from the log. -/
  | eraseKey
  | deactivateObject
  deriving DecidableEq, Repr

/-- The servant after `trigger`, its flags, and what was sent. -/
structure Delivered (Ref : Type) where
  servant : PushServant Ref
  busy : Bool
  waiting : Bool
  observed : List Observed
  deriving DecidableEq, Repr

namespace PushServant

/-- The catch clause; `eraseKey` raises for an object that is not active. -/
def close (log : Bool) (p : PushServant Ref) : Option (Delivered Ref) :=
  let (p, told) : PushServant Ref × List Observed :=
    match p.target with
    | none => (p, [])
    | some _ => ({ p with req := none, reply := none }, [.disconnect_push_consumer])
  if log && !p.active then none
  else some ⟨{ p with target := none, active := false }, false, false,
    told ++ (if log then [.eraseKey] else []) ++ [.deactivateObject]⟩

/-- The part of `trigger` that sends: the next event, if there is one and no request is out. -/
def send (q : EventQueue) (p : PushServant Ref) (busy : Bool) : Delivered Ref :=
  if p.req.isNone && p.target.isSome && p.reader.moreEvents q then
    ⟨{ p with req := some opPush, reader := (p.reader.nextEvent q).2 }, true, true,
      [.pushed (p.reader.nextEvent q).1]⟩
  else ⟨p, busy, p.req.isSome, []⟩

/-- `trigger`, when no call out of it raises; no value if `eraseKey` does. -/
def deliver (log : Bool) (q : EventQueue) (p : PushServant Ref) : Option (Delivered Ref) :=
  match p.req, p.reply with
  | some _, some .exception => p.close log
  | some _, some _ => some ({ p with req := none, reply := none }.send q true)
  | _, _ => some (p.send q false)

theorem send_eq (q : EventQueue) (p : PushServant Ref) (busy : Bool) :
    p.pushNext (fun _ => false) q busy
      = ⟨(p.send q busy).servant, (p.send q busy).busy, (p.send q busy).waiting, false⟩ := by
  unfold pushNext send
  split
  · rfl
  · rfl

/-- It is the `trigger` of the manager's model. -/
theorem trigger_of_deliver {log : Bool} {q : EventQueue} {p : PushServant Ref} {d : Delivered Ref}
    (h : p.deliver log q = some d) :
    p.trigger log (fun _ => false) q = ⟨d.servant, d.busy, d.waiting, false⟩ := by
  unfold deliver at h
  unfold trigger
  rw [Bool.and_false, if_neg Bool.false_ne_true]
  cases hreq : p.req with
  | none =>
      simp only [hreq] at h
      obtain rfl := Option.some.inj h
      rw [← send_eq]
  | some opname =>
      cases hreply : p.reply with
      | none =>
          simp only [hreq, hreply] at h
          obtain rfl := Option.some.inj h
          rw [← send_eq]
      | some reply =>
          cases reply with
          | returned =>
              simp only [hreq, hreply] at h
              obtain rfl := Option.some.inj h
              rw [← send_eq]
          | TIMEOUT =>
              simp only [hreq, hreply] at h
              obtain rfl := Option.some.inj h
              rw [← send_eq]
          | exception =>
              simp only [hreq, hreply, close] at h
              unfold shutDown disconnected
              cases htarget : p.target with
              | none =>
                  simp only [htarget] at h ⊢
                  split at h
                  · cases h
                  · next hactive =>
                      cases h
                      rw [Bool.or_false, if_neg hactive]
              | some target =>
                  simp only [htarget] at h ⊢
                  split at h
                  · cases h
                  · next hactive =>
                      cases h
                      rw [if_neg Bool.false_ne_true, if_neg Bool.false_ne_true, Bool.or_false,
                        if_neg hactive]

end PushServant

/-! ## Runs of one proxy -/

/-- A proxy, its queue, and what was seen of the proxy so far. -/
structure Pushing (Ref : Type) where
  servant : PushServant Ref
  queue : EventQueue
  heap : Heap
  trace : List Observed
  deriving DecidableEq, Repr

/-- An event comes to the queue, a reply to the servant, or the manager's thread. -/
inductive Pushing.Call where
  | append (event : Any)
  /-- The reply to the outstanding request arrives. -/
  | reply (reply : PushReply)
  | trigger
  deriving DecidableEq, Repr

namespace Pushing

/-- The steps. A reply comes only to a request that is out. -/
def step (log : Bool) (s : Pushing Ref) : Call → Option (Pushing Ref)
  | .append event =>
      let (p, heap) := s.heap.alloc event
      let (queue, heap) := s.queue.append heap p
      some { s with queue := queue, heap := heap }
  | .reply reply =>
      if s.servant.req.isSome && s.servant.reply.isNone then
        some { s with servant := { s.servant with reply := some reply }
                      trace := s.trace ++ [.replied reply] }
      else none
  | .trigger =>
      match s.servant.deliver log s.queue with
      | none => none
      | some d => some { s with servant := d.servant, trace := s.trace ++ d.observed }

end Pushing

/-- The events pushed, in order. -/
def pushes (trace : List Observed) : List (Option Ptr) :=
  trace.filterMap fun o => match o with
    | .pushed event => some event
    | _ => none

/-- The replies of a trace. -/
def replies (trace : List Observed) : List PushReply :=
  trace.filterMap fun o => match o with
    | .replied reply => some reply
    | _ => none

/-- What a proxy does when its push has failed. -/
def shutdown (log : Bool) : List Observed :=
  [.disconnect_push_consumer] ++ (if log then [.eraseKey] else []) ++ [.deactivateObject]

/-! ## The shape of what is seen

What is seen at a servant alternates: a push, the reply to it, the next push. What comes last is one
of a few endings. -/

/-- Pushes with their replies. -/
def told (rounds : List (Option Ptr × PushReply)) : List Observed :=
  rounds.flatMap fun x => [.pushed x.1, .replied x.2]

/-- The end of the trace, and the servant's state after it. -/
inductive Ending (log : Bool) (p : PushServant Ref) : List Observed → Prop where
  | idle (htarget : p.target.isSome = true) (hactive : p.active = true) (hreq : p.req = none)
      (hreply : p.reply = none) : Ending log p []
  | waiting (event : Option Ptr) (htarget : p.target.isSome = true) (hactive : p.active = true)
      (hreq : p.req.isSome = true) (hreply : p.reply = none) : Ending log p [.pushed event]
  | answered (event : Option Ptr) (reply : PushReply) (htarget : p.target.isSome = true)
      (hactive : p.active = true) (hreq : p.req.isSome = true) (hreply : p.reply = some reply) :
      Ending log p [.pushed event, .replied reply]
  | closed (event : Option Ptr) (htarget : p.target = none) (hactive : p.active = false)
      (hreq : p.req = none) (hreply : p.reply = none) :
      Ending log p ([.pushed event, .replied .exception] ++ shutdown log)

/-- The trace is made of rounds that did not fail, and an end. -/
def Shaped (log : Bool) (s : Pushing Ref) : Prop :=
  ∃ rounds ending, (∀ x ∈ rounds, x.2 ≠ PushReply.exception) ∧ s.trace = told rounds ++ ending ∧
    Ending log s.servant ending

/-! ## What one trigger does -/

/-- The reader after a trigger, and the event taken from it. -/
def Reads (q : EventQueue) (p : PushServant Ref) (d : Delivered Ref) : Prop :=
  (pushes d.observed = [] ∧ d.servant.reader = p.reader) ∨
  (p.reader.moreEvents q = true ∧ pushes d.observed = [(p.reader.nextEvent q).1] ∧
    d.servant.reader = (p.reader.nextEvent q).2)

/-- The flag is set if and only if a request is left; if none is, there is nothing to push. -/
structure Reported (q : EventQueue) (d : Delivered Ref) : Prop where
  waiting : d.waiting = d.servant.req.isSome
  settled : d.servant.req = none →
    d.servant.target = none ∨ d.servant.reader.moreEvents q = false

namespace PushServant

/-- The second half, on a proxy without a request. -/
theorem send_spec {log : Bool} {q : EventQueue} {p : PushServant Ref}
    (htarget : p.target.isSome = true) (hactive : p.active = true) (hreq : p.req = none)
    (hreply : p.reply = none) (busy : Bool) :
    Ending log (p.send q busy).servant (p.send q busy).observed ∧ Reported q (p.send q busy) ∧
      Reads q p (p.send q busy) := by
  have hpush : (p.req.isNone && p.target.isSome && p.reader.moreEvents q)
      = p.reader.moreEvents q := by
    rw [hreq, htarget]
    rfl
  unfold send
  rw [hpush]
  cases hmore : p.reader.moreEvents q with
  | true =>
      rw [if_pos rfl]
      exact ⟨.waiting _ htarget hactive rfl hreply, ⟨rfl, nofun⟩, .inr ⟨hmore, rfl, rfl⟩⟩
  | false =>
      rw [if_neg Bool.false_ne_true]
      refine ⟨.idle htarget hactive hreq hreply, ⟨?_, fun _ => .inr hmore⟩, .inl ⟨rfl, rfl⟩⟩
      rw [hreq]

/-- With a request, or without a target, nothing is sent. -/
theorem send_of_busy {q : EventQueue} {p : PushServant Ref}
    (hp : p.req.isSome = true ∨ p.target = none) (busy : Bool) :
    p.send q busy = ⟨p, busy, p.req.isSome, []⟩ := by
  unfold send
  refine if_neg ?_
  intro h
  rw [Bool.and_eq_true, Bool.and_eq_true] at h
  rcases hp with hreq | htarget
  · rw [Option.isNone_iff_eq_none.1 h.1.1] at hreq
    exact absurd hreq Bool.false_ne_true
  · rw [htarget] at h
    exact absurd h.1.2 Bool.false_ne_true

/-- A push has failed; the target is still set, so the consumer is told. -/
theorem deliver_exception {log : Bool} {q : EventQueue} {p : PushServant Ref}
    (hreq : p.req.isSome = true) (hreply : p.reply = some .exception)
    (htarget : p.target.isSome = true) (hactive : p.active = true) :
    p.deliver log q = some ⟨{ p with target := none, active := false, req := none, reply := none },
      false, false, shutdown log⟩ := by
  obtain ⟨opname, hopname⟩ := Option.isSome_iff_exists.1 hreq
  obtain ⟨target, htarget⟩ := Option.isSome_iff_exists.1 htarget
  simp only [deliver, hopname, hreply, close, htarget, hactive, Bool.not_true, Bool.and_false,
    Bool.false_eq_true, if_false]
  rfl

/-- What `trigger` does to a proxy that the trace ends with. -/
theorem deliver_spec {log : Bool} (q : EventQueue) {p : PushServant Ref} {ending : List Observed}
    (h : Ending log p ending) :
    ∃ d rounds ending', p.deliver log q = some d ∧ Reported q d ∧ Reads q p d ∧
      (∀ x ∈ rounds, x.2 ≠ PushReply.exception) ∧
      ending ++ d.observed = told rounds ++ ending' ∧ Ending log d.servant ending' := by
  cases h with
  | idle htarget hactive hreq hreply =>
      obtain ⟨hending, hreported, hreads⟩ := send_spec htarget hactive hreq hreply false
      refine ⟨p.send q false, [], _, ?_, hreported, hreads, nofun, rfl, hending⟩
      simp only [deliver, hreq]
  | waiting event htarget hactive hreq hreply =>
      refine ⟨⟨p, false, p.req.isSome, []⟩, [], [.pushed event], ?_, ⟨rfl, ?_⟩,
        .inl ⟨rfl, rfl⟩, nofun, rfl, .waiting event htarget hactive hreq hreply⟩
      · obtain ⟨opname, hopname⟩ := Option.isSome_iff_exists.1 hreq
        rw [← send_of_busy (q := q) (.inl hreq) false]
        simp only [deliver, hopname, hreply]
      · intro h
        have hnone : p.req = none := h
        rw [hnone] at hreq
        exact absurd hreq Bool.false_ne_true
  | answered event reply htarget hactive hreq hreply =>
      obtain ⟨opname, hopname⟩ := Option.isSome_iff_exists.1 hreq
      by_cases hexception : reply = .exception
      · subst hexception
        refine ⟨_, [], _, deliver_exception hreq hreply htarget hactive,
          ⟨rfl, fun _ => .inl rfl⟩, .inl ⟨?_, rfl⟩, nofun, rfl, .closed event rfl rfl rfl rfl⟩
        cases log with
        | true => rfl
        | false => rfl
      · have hdeliver : p.deliver log q = some ({ p with req := none, reply := none }.send q true) := by
          cases reply with
          | returned => simp only [deliver, hopname, hreply]
          | TIMEOUT => simp only [deliver, hopname, hreply]
          | exception => exact absurd rfl hexception
        obtain ⟨hending, hreported, hreads⟩ :=
          @send_spec _ log q { p with req := none, reply := none } htarget hactive rfl rfl true
        refine ⟨_, [(event, reply)], _, hdeliver, hreported, hreads, ?_, rfl, hending⟩
        intro x hx
        obtain rfl := List.mem_singleton.1 hx
        exact hexception
  | closed event htarget hactive hreq hreply =>
      refine ⟨⟨p, false, p.req.isSome, []⟩, [], _, ?_, ⟨rfl, fun _ => .inl htarget⟩,
        .inl ⟨rfl, rfl⟩, nofun, List.append_nil _, .closed event htarget hactive hreq hreply⟩
      rw [← send_of_busy (q := q) (.inr htarget) false]
      simp only [deliver, hreq]

end PushServant

namespace Pushing

variable {log : Bool} {s t : Pushing Ref}

theorem told_append (xs ys : List (Option Ptr × PushReply)) : told (xs ++ ys) = told xs ++ told ys :=
  List.flatMap_append

theorem shaped_step {c : Call} (hs : Shaped log s) (hstep : s.step log c = some t) :
    Shaped log t := by
  obtain ⟨rounds, ending, hrounds, htrace, hending⟩ := hs
  cases c with
  | append event =>
      obtain rfl := Option.some.inj hstep
      exact ⟨rounds, ending, hrounds, htrace, hending⟩
  | reply reply =>
      rw [step] at hstep
      split at hstep
      · next hout =>
          obtain rfl := Option.some.inj hstep
          obtain ⟨hreq, hreply⟩ := Bool.and_eq_true_iff.1 hout
          -- the only end that waits for a reply
          cases hending with
          | idle htarget hactive hnone _ =>
              rw [hnone] at hreq
              exact absurd hreq Bool.false_ne_true
          | waiting event htarget hactive hreq _ =>
              refine ⟨rounds, [.pushed event, .replied reply], hrounds, ?_,
                .answered event reply htarget hactive hreq rfl⟩
              rw [htrace, List.append_assoc]
              rfl
          | answered event reply' _ _ _ hsome =>
              rw [hsome] at hreply
              exact absurd hreply Bool.false_ne_true
          | closed event _ _ hnone _ =>
              rw [hnone] at hreq
              exact absurd hreq Bool.false_ne_true
      · exact absurd hstep nofun
  | trigger =>
      obtain ⟨d, more, ending', hdeliver, -, -, hmore, hobserved, hending'⟩ :=
        PushServant.deliver_spec s.queue hending
      rw [step, hdeliver] at hstep
      obtain rfl := Option.some.inj hstep
      refine ⟨rounds ++ more, ending', ?_, ?_, hending'⟩
      · intro x hx
        rcases List.mem_append.1 hx with hx | hx
        · exact hrounds x hx
        · exact hmore x hx
      · rw [htrace, List.append_assoc, hobserved, told_append, List.append_assoc]

theorem shaped_run {calls : List Call} (hs : Shaped log s) (hrun : Run (step log) s calls = some t) :
    Shaped log t :=
  Run.invariant (fun _ _ _ hs hstep => shaped_step hs hstep) hs hrun

/-! ## The reader behind it

The events that are pushed are those that the reader returns, one for each push. -/

theorem pushes_append (xs ys : List Observed) : pushes (xs ++ ys) = pushes xs ++ pushes ys :=
  List.filterMap_append

theorem replies_append (xs ys : List Observed) : replies (xs ++ ys) = replies xs ++ replies ys :=
  List.filterMap_append

/-- The queue and its `i`-th reader, which has returned what was pushed. -/
structure Follows (i : ℕ) (start : ℕ) (returned : List (Option Ptr)) (s : Pushing Ref)
    (w : QueueWorld) : Prop where
  queue : w.queue = s.queue
  heap : w.heap = s.heap
  reader : w.readers[i]? = some ⟨s.servant.reader, start, returned ++ pushes s.trace⟩

theorem follows_step {i start : ℕ} {returned : List (Option Ptr)} {w : QueueWorld} {c : Call}
    (hshaped : Shaped log s) (h : Follows i start returned s w) (hstep : s.step log c = some t) :
    ∃ acts w', Run QueueWorld.step w acts = some w' ∧ Follows i start returned t w' := by
  cases c with
  | append event =>
      obtain rfl := Option.some.inj hstep
      refine ⟨[.append event], w.append event, rfl, ?_, ?_, h.reader⟩
      · rw [QueueWorld.append, h.queue, h.heap]
        rfl
      · rw [QueueWorld.append, h.queue, h.heap]
        rfl
  | reply reply =>
      rw [step] at hstep
      split at hstep
      · obtain rfl := Option.some.inj hstep
        refine ⟨[], w, rfl, h.queue, h.heap, ?_⟩
        rw [h.reader, pushes_append]
        exact congrArg (fun l => some (ReaderTrace.mk _ start (returned ++ l)))
          (List.append_nil _).symm
      · cases hstep
  | trigger =>
      obtain ⟨rounds, ending, -, -, hending⟩ := hshaped
      obtain ⟨d, -, -, hdeliver, -, hreads, -⟩ := PushServant.deliver_spec s.queue hending
      rw [step, hdeliver] at hstep
      obtain rfl := Option.some.inj hstep
      rcases hreads with ⟨hnone, hreader⟩ | ⟨hmore, hone, hreader⟩
      · refine ⟨[], w, rfl, h.queue, h.heap, ?_⟩
        rw [h.reader, pushes_append, hnone, List.append_nil, hreader]
      · have hlt : i < w.readers.length := (List.getElem?_eq_some_iff.1 h.reader).1
        refine ⟨[.nextEvent i],
          w.nextEvent i ⟨s.servant.reader, start, returned ++ pushes s.trace⟩, ?_, ?_⟩
        · rw [run_cons, QueueWorld.step, h.reader]
          simp only [h.queue, hmore, if_true]
          rfl
        · refine ⟨h.queue, h.heap, ?_⟩
          rw [QueueWorld.nextEvent, h.queue]
          simp only
          rw [List.getElem?_set_self hlt, pushes_append, hone, hreader, List.append_assoc]

theorem follows_run {i start : ℕ} {returned : List (Option Ptr)} {w : QueueWorld}
    {calls : List Call} (hshaped : Shaped log s) (h : Follows i start returned s w)
    (hrun : Run (step log) s calls = some t) :
    ∃ acts w', Run QueueWorld.step w acts = some w' ∧ Follows i start returned t w' := by
  induction calls generalizing s w with
  | nil =>
      obtain rfl := Option.some.inj hrun
      exact ⟨[], w, rfl, h⟩
  | cons c calls ih =>
      rw [run_cons, Option.bind_eq_some_iff] at hrun
      obtain ⟨u, hstep, hrun⟩ := hrun
      obtain ⟨acts, w', hacts, hfollows⟩ := follows_step hshaped h hstep
      obtain ⟨acts', w'', hacts', hfollows'⟩ := ih (shaped_step hshaped hstep) hfollows hrun
      exact ⟨acts ++ acts', w'', by rw [run_append, hacts, Option.bind_some, hacts'], hfollows'⟩

/-! ## Reading the trace -/

/-- A push is only sent when every push before it has its reply. -/
theorem answered_before_push {p : PushServant Ref} {rounds : List (Option Ptr × PushReply)}
    {ending before after : List Observed} {event : Option Ptr} (hending : Ending log p ending)
    (h : told rounds ++ ending = before ++ .pushed event :: after) :
    (pushes before).length = (replies before).length := by
  induction rounds generalizing before with
  | nil =>
      -- at the end there is one push at most, and it comes first
      cases before with
      | nil => rfl
      | cons o before =>
          have hmem : Observed.pushed event ∈ ending.tail := by
            have h : ending = o :: (before ++ .pushed event :: after) := h
            rw [h]
            exact List.mem_append_right _ List.mem_cons_self
          cases hending with
          | idle _ _ _ _ => exact absurd hmem (by simp)
          | waiting _ _ _ _ _ => exact absurd hmem (by simp)
          | answered _ _ _ _ _ _ => exact absurd hmem (by simp)
          | closed _ _ _ _ _ =>
              cases log with
              | true => exact absurd hmem (by simp [shutdown])
              | false => exact absurd hmem (by simp [shutdown])
  | cons x rounds ih =>
      have h : .pushed x.1 :: .replied x.2 :: (told rounds ++ ending)
          = before ++ .pushed event :: after := h
      cases before with
      | nil => rfl
      | cons o before =>
          obtain ⟨hpush, hrest⟩ := List.cons.inj h
          subst hpush
          cases before with
          | nil => exact absurd (List.cons.inj hrest).1 nofun
          | cons o before =>
              obtain ⟨hreply, hlater⟩ := List.cons.inj hrest
              subst hreply
              exact congrArg (· + 1) (ih hlater)

/-- A failed push ends the trace, but for what `trigger` then does. -/
theorem closed_after_exception {p : PushServant Ref} {rounds : List (Option Ptr × PushReply)}
    {ending before after : List Observed} (hending : Ending log p ending)
    (hrounds : ∀ x ∈ rounds, x.2 ≠ PushReply.exception)
    (h : told rounds ++ ending = before ++ .replied .exception :: after) :
    (after = [] ∧ p.req.isSome = true ∧ p.reply = some .exception) ∨
    (after = shutdown log ∧ p.target = none ∧ p.active = false ∧ p.req = none) := by
  induction rounds generalizing before with
  | nil =>
      have h : ending = before ++ .replied .exception :: after := h
      cases hending with
      | idle _ _ _ _ => simp at h
      | waiting _ _ _ _ _ =>
          cases before with
          | nil => exact absurd (List.cons.inj h).1 nofun
          | cons o before => simp at h
      | answered event reply _ _ hreq hreply =>
          left
          cases before with
          | nil => exact absurd (List.cons.inj h).1 nofun
          | cons o before =>
              cases before with
              | nil =>
                  obtain ⟨-, hrest⟩ := List.cons.inj h
                  obtain ⟨hlast, hnil⟩ := List.cons.inj hrest
                  obtain rfl := Observed.replied.inj hlast
                  exact ⟨hnil.symm, hreq, hreply⟩
              | cons o before => simp at h
      | closed event htarget hactive hreq _ =>
          right
          cases before with
          | nil => exact absurd (List.cons.inj h).1 nofun
          | cons o before =>
              obtain ⟨-, hrest⟩ := List.cons.inj h
              cases before with
              | nil => exact ⟨(List.cons.inj hrest).2.symm, htarget, hactive, hreq⟩
              | cons o before =>
                  obtain ⟨-, hrest⟩ := List.cons.inj hrest
                  have hmem : Observed.replied .exception ∈ shutdown log := by
                    have hrest : shutdown log = before ++ .replied .exception :: after := hrest
                    rw [hrest]
                    exact List.mem_append_right _ List.mem_cons_self
                  cases log with
                  | true => exact absurd hmem (by decide)
                  | false => exact absurd hmem (by decide)
  | cons x rounds ih =>
      obtain ⟨hx, hrounds⟩ := List.forall_mem_cons.1 hrounds
      have h : .pushed x.1 :: .replied x.2 :: (told rounds ++ ending)
          = before ++ .replied .exception :: after := h
      cases before with
      | nil => exact absurd (List.cons.inj h).1 nofun
      | cons o before =>
          have hrest := (List.cons.inj h).2
          cases before with
          | nil => exact absurd (Observed.replied.inj (List.cons.inj hrest).1) hx
          | cons o before => exact ih hrounds (List.cons.inj hrest).2

theorem length_told (rounds : List (Option Ptr × PushReply)) :
    (pushes (told rounds)).length = (replies (told rounds)).length := by
  induction rounds with
  | nil => rfl
  | cons x rounds ih => exact congrArg (· + 1) ih

/-- No more than one push is without its reply. -/
theorem one_outstanding (hs : Shaped log s) :
    (pushes s.trace).length ≤ (replies s.trace).length + 1 := by
  obtain ⟨rounds, ending, -, htrace, hending⟩ := hs
  have hend : (pushes ending).length ≤ (replies ending).length + 1 := by
    cases hending with
    | idle _ _ _ _ => exact Nat.zero_le _
    | waiting _ _ _ _ _ => exact Nat.le_refl _
    | answered _ _ _ _ _ _ => exact Nat.le_succ _
    | closed _ _ _ _ _ =>
        cases log with
        | true => exact Nat.le_succ _
        | false => exact Nat.le_succ _
  rw [htrace, pushes_append, replies_append, List.length_append, List.length_append, length_told]
  omega

/-- Without a failed push nothing is shut down. -/
theorem open_of_no_exception (hs : Shaped log s) (hno : .replied .exception ∉ s.trace) :
    s.servant.target.isSome = true ∧ s.servant.active = true ∧
      ∀ o ∈ s.trace, (∃ event, o = .pushed event) ∨ ∃ reply, o = .replied reply := by
  obtain ⟨rounds, ending, -, htrace, hending⟩ := hs
  rw [htrace] at hno ⊢
  have htold : ∀ o ∈ told rounds, (∃ event, o = .pushed event) ∨ ∃ reply, o = .replied reply := by
    intro o ho
    obtain ⟨x, -, hx⟩ := List.mem_flatMap.1 ho
    rcases List.mem_cons.1 hx with rfl | hx
    · exact .inl ⟨_, rfl⟩
    · exact .inr ⟨_, List.mem_singleton.1 hx⟩
  have hend : s.servant.target.isSome = true ∧ s.servant.active = true ∧
      ∀ o ∈ ending, (∃ event, o = .pushed event) ∨ ∃ reply, o = .replied reply := by
    cases hending with
    | idle htarget hactive _ _ => exact ⟨htarget, hactive, nofun⟩
    | waiting event htarget hactive _ _ =>
        refine ⟨htarget, hactive, fun o ho => .inl ⟨event, List.mem_singleton.1 ho⟩⟩
    | answered event reply htarget hactive _ _ =>
        refine ⟨htarget, hactive, ?_⟩
        intro o ho
        rcases List.mem_cons.1 ho with rfl | ho
        · exact .inl ⟨_, rfl⟩
        · exact .inr ⟨_, List.mem_singleton.1 ho⟩
    | closed event _ _ _ _ => exact absurd (by simp) hno
  refine ⟨hend.1, hend.2.1, ?_⟩
  intro o ho
  rcases List.mem_append.1 ho with ho | ho
  · exact htold o ho
  · exact hend.2.2 o ho

/-- A proxy just connected, without anything seen of it yet. -/
structure Connected (s : Pushing Ref) : Prop where
  target : s.servant.target.isSome = true
  active : s.servant.active = true
  req : s.servant.req = none
  reply : s.servant.reply = none
  trace : s.trace = []

/-- **Push delivery.** After any calls on a connected proxy, with any replies and any appends: the
    events pushed are those its reader has returned, a push is sent when all before it have their
    replies, and at most one has none. A push that fails with an exception other than `TIMEOUT` is the
    last, and the next trigger tells the consumer, erases the key and deactivates the object, once;
    without such an exception none of that is done. A trigger never raises, sets the flag if and only
    if it leaves a request, and leaves none only if the proxy is disconnected or `moreEvents()` is
    false. -/
theorem push_delivery (log : Bool) {s₀ s : Pushing Ref} (hs₀ : Connected s₀) {calls : List Call}
    (hrun : Run (step log) s₀ calls = some s) :
    (∀ (w₀ : QueueWorld) (i start : ℕ) (returned : List (Option Ptr)), w₀.queue = s₀.queue →
      w₀.heap = s₀.heap → w₀.readers[i]? = some ⟨s₀.servant.reader, start, returned⟩ →
      ∃ acts w, Run QueueWorld.step w₀ acts = some w ∧ w.queue = s.queue ∧ w.heap = s.heap ∧
        w.readers[i]? = some ⟨s.servant.reader, start, returned ++ pushes s.trace⟩) ∧
    (∀ before event after, s.trace = before ++ .pushed event :: after →
      (pushes before).length = (replies before).length) ∧
    (pushes s.trace).length ≤ (replies s.trace).length + 1 ∧
    (∀ before after, s.trace = before ++ .replied .exception :: after →
      (after = [] ∧ ∃ t, s.step log .trigger = some t ∧ t.trace = s.trace ++ shutdown log) ∨
      (after = shutdown log ∧ s.servant.target = none ∧ s.servant.active = false ∧
        s.servant.req = none)) ∧
    (.replied .exception ∉ s.trace → s.servant.target.isSome = true ∧ s.servant.active = true ∧
      ∀ o ∈ s.trace, (∃ event, o = .pushed event) ∨ ∃ reply, o = .replied reply) ∧
    ∃ d, s.servant.deliver log s.queue = some d ∧ d.waiting = d.servant.req.isSome ∧
      (d.servant.req = none →
        d.servant.target = none ∨ d.servant.reader.moreEvents s.queue = false) := by
  have hshaped₀ : Shaped log s₀ :=
    ⟨[], [], nofun, hs₀.trace, .idle hs₀.target hs₀.active hs₀.req hs₀.reply⟩
  have hshaped := shaped_run hshaped₀ hrun
  refine ⟨?_, ?_, one_outstanding hshaped, ?_, open_of_no_exception hshaped, ?_⟩
  · intro w₀ i start returned hqueue hheap hreader
    have hfollows : Follows i start returned s₀ w₀ := by
      refine ⟨hqueue, hheap, ?_⟩
      rw [hreader, hs₀.trace]
      exact congrArg (fun l => some (ReaderTrace.mk _ start l)) (List.append_nil _).symm
    obtain ⟨acts, w, hacts, hw⟩ := follows_run hshaped₀ hfollows hrun
    exact ⟨acts, w, hacts, hw.queue, hw.heap, hw.reader⟩
  · intro before event after hsplit
    obtain ⟨rounds, ending, -, htrace, hending⟩ := hshaped
    exact answered_before_push hending (htrace.symm.trans hsplit)
  · intro before after hsplit
    obtain ⟨rounds, ending, hrounds, htrace, hending⟩ := hshaped
    rcases closed_after_exception hending hrounds (htrace.symm.trans hsplit) with
      ⟨hafter, hreq, hreply⟩ | hclosed
    · left
      -- the reply is there, and the next trigger deals with it
      cases hending with
      | idle _ _ hnone _ =>
          rw [hnone] at hreq
          exact absurd hreq Bool.false_ne_true
      | waiting _ _ _ _ hnone =>
          rw [hnone] at hreply
          exact absurd hreply nofun
      | answered event reply htarget hactive _ _ =>
          rw [step, PushServant.deliver_exception hreq hreply htarget hactive]
          exact ⟨hafter, _, rfl, rfl⟩
      | closed _ _ _ hnone _ =>
          rw [hnone] at hreq
          exact absurd hreq Bool.false_ne_true
    · exact .inr hclosed
  · obtain ⟨rounds, ending, -, -, hending⟩ := hshaped
    obtain ⟨d, -, -, hdeliver, hreported, -⟩ := PushServant.deliver_spec s.queue hending
    exact ⟨d, hdeliver, hreported.waiting, hreported.settled⟩

/-- A proxy connected to an empty queue, and two events of which the second is refused. -/
def connected : Pushing Str :=
  { servant := { (PushServant.new ['a'] (EventQueue.new 4 none) : PushServant Str) with
      target := some ['I'] }
    queue := EventQueue.new 4 none
    heap := ⟨[], []⟩
    trace := [] }

/-- A consumer that times out and then raises. -/
def refused : List Call :=
  [.append ⟨⟨.tk_long, []⟩, []⟩, .append ⟨⟨.tk_long, []⟩, []⟩, .trigger, .reply .TIMEOUT, .trigger,
    .reply .exception, .trigger, .trigger]

theorem push_delivery_refused :
    ∃ s, Run (step true) connected refused = some s ∧
      s.trace = [.pushed (some 0), .replied .TIMEOUT, .pushed (some 1), .replied .exception,
        .disconnect_push_consumer, .eraseKey, .deactivateObject] ∧
      (∃ acts w, Run QueueWorld.step ((QueueWorld.init 4 none).newReader) acts = some w ∧
        w.readers[0]? = some ⟨s.servant.reader, 0, [] ++ pushes s.trace⟩) ∧
      (pushes s.trace).length ≤ (replies s.trace).length + 1 := by
  obtain ⟨s, hrun, htrace⟩ : ∃ s, Run (step true) connected refused = some s ∧
      s.trace = [.pushed (some 0), .replied .TIMEOUT, .pushed (some 1), .replied .exception,
        .disconnect_push_consumer, .eraseKey, .deactivateObject] := ⟨_, rfl, rfl⟩
  obtain ⟨hfollows, -, hone, -⟩ := @push_delivery _ true connected s ⟨rfl, rfl, rfl, rfl, rfl⟩ refused hrun
  obtain ⟨acts, w, hacts, -, -, hreader⟩ :=
    hfollows (QueueWorld.init 4 none).newReader 0 0 [] rfl rfl rfl
  exact ⟨s, hrun, htrace, ⟨acts, w, hacts, hreader⟩, hone⟩

end Pushing

end OmniEvents
