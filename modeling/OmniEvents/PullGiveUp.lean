import OmniEvents.Transfer

set_option autoImplicit false

/-! # When a pull consumer gives up

A `ProxyPullConsumer_i` counts exceptions, and tries the other operation after each. Nowhere does it
count the operations they came from. But the request that is out is always of the current mode, so
the exceptions since the last success alternate, and the fourth in a row is the second of both modes
(`gives_up`). -/

namespace OmniEvents

open Transition

variable {Ref : Type}

/-! ## Requests and replies -/

/-- The way of asking that the failed one is replaced by. -/
def Mode.other (m : Mode) : Mode := if m = .Pull then .TryPull else .Pull

@[simp] theorem Mode.other_other (m : Mode) : m.other.other = m := by cases m <;> rfl

namespace ProxyPullConsumer

/-- The operation that `triggerRequest` calls in a mode. -/
def operation : Mode → Str
  | .Pull => opPull
  | .TryPull => opTryPull

/-- The request that `triggerRequest` sends. -/
def requested (p : ProxyPullConsumer Ref) : Option Str :=
  if p.req.isNone && p.target.isSome then some (operation p.mode) else none

/-- The request whose reply `collect` finds. -/
def answered (p : ProxyPullConsumer Ref) (reply : Option Reply) : List (Str × Reply) :=
  match p.req, reply with
  | some opname, some reply => [(opname, reply)]
  | _, _ => []

theorem triggerRequest_of_idle {p : ProxyPullConsumer Ref}
    (hidle : (p.req.isNone && p.target.isSome) = true) :
    p.triggerRequest = { p with req := some (operation p.mode) } := by
  obtain ⟨⟨oid, active, req⟩, target, mode, exceptionCount⟩ := p
  rw [triggerRequest, if_pos hidle]
  cases mode with
  | Pull => rfl
  | TryPull => rfl

end ProxyPullConsumer

open ProxyPullConsumer

/-- The event that a reply carries. -/
def carried : Str × Reply → Option Any
  | (opname, .returned value arguments) => if hasEvent opname arguments then some value else none
  | (_, .exception _) => none

/-- Is the reply an exception? -/
def failed (r : Str × Reply) : Bool :=
  match r.2 with
  | .exception _ => true
  | .returned _ _ => false

/-- The last four replies, the last first. -/
def lastFour (replies : List (Str × Reply)) : List (Str × Reply) := replies.reverse.take 4

/-! ## The calls on one proxy -/

/-- A proxy with the requests it has sent and the replies it has dealt with. -/
structure Puller (Ref : Type) where
  proxy : ProxyPullConsumer Ref
  heap : Heap
  queue : List Ptr
  sent : List Str
  replies : List (Str × Reply)
  deriving DecidableEq, Repr

/-- A step of the channel's thread at a proxy. -/
inductive Puller.Call where
  | triggerRequest
  /-- What `poll_response` finds, if a request is out. -/
  | collect (reply : Option Reply)
  deriving DecidableEq, Repr

namespace Puller

/-- A proxy that has sent nothing. -/
def new (p : ProxyPullConsumer Ref) (h : Heap) (queue : List Ptr) : Puller Ref :=
  ⟨p, h, queue, [], []⟩

/-- A call; there is no next state if an exception escapes from it. -/
def step (s : Puller Ref) : Call → Option (Puller Ref)
  | .triggerRequest =>
      some { s with proxy := s.proxy.triggerRequest
                    sent := s.sent ++ s.proxy.requested.toList }
  | .collect reply =>
      match s.proxy.collect reply s.heap s.queue with
      | (_, _, _, true) => none
      | (p, h, queue, false) =>
          some ⟨p, h, queue, s.sent, s.replies ++ s.proxy.answered reply⟩

end Puller

/-! ## Alternation

While a supplier fails, `pull` and `try_pull` take turns, and a success ends the row. -/

/-- Operations in turn, from the one of the mode on. -/
def alternating : Mode → ℕ → List Str
  | _, 0 => []
  | m, n + 1 => operation m :: alternating m.other n

/-- The exceptions since the last success, the last first. -/
def inARow (replies : List (Str × Reply)) : List (Str × Reply) := replies.reverse.takeWhile failed

theorem inARow_concat (replies : List (Str × Reply)) (r : Str × Reply) :
    inARow (replies ++ [r]) = if failed r then r :: inARow replies else [] := by
  rw [inARow, List.reverse_append, List.reverse_singleton, List.singleton_append,
    List.takeWhile_cons]
  rfl

theorem le_length_takeWhile {α : Type} {p : α → Bool} {n : ℕ} {l : List α} :
    n ≤ (l.takeWhile p).length ↔ n ≤ l.length ∧ ∀ x ∈ l.take n, p x = true := by
  induction l generalizing n with
  | nil => simp
  | cons a l ih =>
      cases n with
      | zero => simp
      | succ n =>
          rw [List.takeWhile_cons, List.take_succ_cons, List.forall_mem_cons]
          cases ha : p a with
          | true =>
              rw [if_pos rfl, List.length_cons, List.length_cons, Nat.succ_le_succ_iff,
                Nat.succ_le_succ_iff, ih]
              exact ⟨fun h => ⟨h.1, rfl, h.2⟩, fun h => ⟨h.1, h.2.2⟩⟩
          | false =>
              rw [if_neg Bool.false_ne_true]
              exact ⟨nofun, fun h => absurd h.2.1 Bool.false_ne_true⟩

namespace Puller

/-- What holds after any calls, where `h` and `queue` are what the proxy was given. -/
structure Inv (p : ProxyPullConsumer Ref) (h : Heap) (queue : List Ptr) (s : Puller Ref) : Prop where
  count : s.proxy.exceptionCount = (inARow s.replies).length
  alternate : (inARow s.replies).map Prod.fst
    = alternating s.proxy.mode.other s.proxy.exceptionCount
  le : s.proxy.exceptionCount ≤ 4
  connected : s.proxy.exceptionCount < 4 → s.proxy.target = p.target ∧ s.proxy.active = true
  disconnected : s.proxy.exceptionCount = 4 →
    s.proxy.target = none ∧ s.proxy.active = false ∧ s.proxy.req = none
  req : ∀ opname, s.proxy.req = some opname → opname = operation s.proxy.mode
  sent : s.sent = s.replies.map Prod.fst ++ s.proxy.req.toList
  events : s.heap.events = h.events ++ s.replies.filterMap carried
  queue : s.queue = queue ++ List.range' h.events.length (s.replies.filterMap carried).length

variable {p : ProxyPullConsumer Ref} {h : Heap} {queue : List Ptr} {s : Puller Ref}

theorem inv_triggerRequest (hs : Inv p h queue s) :
    Inv p h queue { s with proxy := s.proxy.triggerRequest
                           sent := s.sent ++ s.proxy.requested.toList } := by
  by_cases hidle : (s.proxy.req.isNone && s.proxy.target.isSome) = true
  · obtain ⟨hreq, htarget⟩ := Bool.and_eq_true_iff.1 hidle
    have hsent := hs.sent
    rw [Option.isNone_iff_eq_none.1 hreq, Option.toList_none, List.append_nil] at hsent
    rw [triggerRequest_of_idle hidle, requested, if_pos hidle, hsent]
    exact { hs with
      disconnected := fun hfour => by
        rw [(hs.disconnected hfour).1] at htarget
        exact absurd htarget Bool.false_ne_true
      req := fun opname hopname => (Option.some.inj hopname).symm
      sent := rfl }
  · rw [triggerRequest, if_neg hidle, requested, if_neg hidle, Option.toList_none,
      List.append_nil]
    exact hs

/-- A success, whether it carries an event or not. -/
theorem inv_returned {opname : Str} {value : Any} {arguments : List (Str × Option Bool)}
    (hs : Inv p h queue s) (hreq : s.proxy.req = some opname) :
    ∃ t, s.step (.collect (some (.returned value arguments))) = some t ∧ Inv p h queue t := by
  have hrow : inARow (s.replies ++ [(opname, .returned value arguments)]) = [] := inARow_concat _ _
  have hsent := hs.sent
  rw [hreq] at hsent
  have hlt : s.proxy.exceptionCount < 4 := by
    refine Nat.lt_of_le_of_ne hs.le ?_
    intro hfour
    rw [(hs.disconnected hfour).2.2] at hreq
    exact absurd hreq nofun
  simp only [step, collect, hreq, answered]
  by_cases hev : hasEvent opname arguments = true
  · rw [if_pos hev]
    have hcarried : (s.replies ++ [(opname, Reply.returned value arguments)]).filterMap carried
        = s.replies.filterMap carried ++ [value] := by
      have hone : carried (opname, .returned value arguments) = some value := if_pos hev
      rw [List.filterMap_append, List.filterMap_cons_some hone]
      rfl
    refine ⟨_, rfl, ⟨by rw [hrow]; rfl, by rw [hrow]; rfl, Nat.zero_le 4,
      fun _ => hs.connected hlt, nofun, nofun, ?_, ?_, ?_⟩⟩
    · rw [hsent, List.map_append, Option.toList_none, List.append_nil]
      rfl
    · rw [hcarried, Heap.alloc_events, hs.events, List.append_assoc]
    · rw [hcarried, hs.queue, List.length_append, List.length_singleton, List.range'_concat,
        List.append_assoc, Heap.alloc_fst, hs.events, List.length_append, Nat.one_mul]
  · rw [if_neg hev]
    have hcarried : (s.replies ++ [(opname, Reply.returned value arguments)]).filterMap carried
        = s.replies.filterMap carried := by
      have hnone : carried (opname, .returned value arguments) = none := if_neg hev
      rw [List.filterMap_append, List.filterMap_cons_none hnone]
      exact List.append_nil _
    refine ⟨_, rfl, ⟨by rw [hrow]; rfl, by rw [hrow]; rfl, Nat.zero_le 4,
      fun _ => hs.connected hlt, nofun, nofun, ?_, ?_, ?_⟩⟩
    · rw [hsent, List.map_append, Option.toList_none, List.append_nil]
      rfl
    · rw [hcarried, hs.events]
    · rw [hcarried, hs.queue]

/-- An exception: the mode changes, and the fourth in a row disconnects. -/
theorem inv_exception {opname : Str} (hp : p.target.isSome = true) (hs : Inv p h queue s)
    (hreq : s.proxy.req = some opname) :
    ∃ t, s.step (.collect (some (.exception false))) = some t ∧ Inv p h queue t := by
  have hname := hs.req opname hreq
  have hlt : s.proxy.exceptionCount < 4 := by
    refine Nat.lt_of_le_of_ne hs.le ?_
    intro hfour
    rw [(hs.disconnected hfour).2.2] at hreq
    exact absurd hreq nofun
  obtain ⟨htarget, hactive⟩ := hs.connected hlt
  have hpulls : opname = opPull ∨ opname = opTryPull := by
    rw [hname]
    cases s.proxy.mode with
    | Pull => exact .inl rfl
    | TryPull => exact .inr rfl
  have hrow : inARow (s.replies ++ [(opname, .exception false)])
      = (opname, .exception false) :: inARow s.replies := inARow_concat _ _
  have hcount : s.proxy.exceptionCount + 1
      = (inARow (s.replies ++ [(opname, .exception false)])).length := by
    rw [hrow, hs.count]
    rfl
  have halternate : (inARow (s.replies ++ [(opname, .exception false)])).map Prod.fst
      = alternating s.proxy.mode.other.other (s.proxy.exceptionCount + 1) := by
    rw [hrow, List.map_cons, hs.alternate, hname, Mode.other_other]
    rfl
  have hsent : s.sent = (s.replies ++ [(opname, Reply.exception false)]).map Prod.fst := by
    have hsent := hs.sent
    rw [hreq] at hsent
    rw [hsent, List.map_append]
    rfl
  have hcarried : (s.replies ++ [(opname, Reply.exception false)]).filterMap carried
      = s.replies.filterMap carried := by
    rw [List.filterMap_append]
    exact List.append_nil _
  simp only [step, collect, hreq, answered, countException, if_pos hpulls, Bool.false_eq_true,
    if_false]
  by_cases hfour : 4 ≤ s.proxy.exceptionCount + 1
  · have hup : (s.proxy.target.isNone || !s.proxy.active) = false := by
      rw [htarget, hactive, Option.isNone_eq_false_iff.2 hp]
      rfl
    rw [if_pos hfour, hup]
    refine ⟨_, rfl, ⟨hcount, halternate, hlt, fun h => absurd hfour (Nat.not_le.2 h),
      fun _ => ⟨rfl, rfl, rfl⟩, nofun, ?_, ?_, ?_⟩⟩
    · rw [hsent]
      exact (List.append_nil _).symm
    · rw [hcarried, hs.events]
    · rw [hcarried, hs.queue]
  · rw [if_neg hfour]
    refine ⟨_, rfl, ⟨hcount, halternate, hlt, fun _ => ⟨htarget, hactive⟩,
      fun h => absurd (Nat.le_of_eq h.symm) hfour, nofun, ?_, ?_, ?_⟩⟩
    · rw [hsent]
      exact (List.append_nil _).symm
    · rw [hcarried, hs.events]
    · rw [hcarried, hs.queue]

/-- One call on a proxy, if `env()` does not raise. -/
theorem inv_step {c : Call} (hp : p.target.isSome = true)
    (hc : c ≠ .collect (some (.exception true))) (hs : Inv p h queue s) :
    ∃ t, s.step c = some t ∧ Inv p h queue t := by
  cases c with
  | triggerRequest => exact ⟨_, rfl, inv_triggerRequest hs⟩
  | collect reply =>
      cases hreq : s.proxy.req with
      | none =>
          refine ⟨s, ?_, hs⟩
          simp only [step, collect, hreq, answered, List.append_nil]
      | some opname =>
          rcases reply with _ | ⟨_ | _⟩ | ⟨value, arguments⟩
          · refine ⟨s, ?_, hs⟩
            simp only [step, collect, hreq, answered, List.append_nil]
          · exact inv_exception hp hs hreq
          · exact absurd rfl hc
          · exact inv_returned hs hreq

theorem inv_run {calls : List Call} (hp : p.target.isSome = true)
    (hcalls : ∀ c ∈ calls, c ≠ .collect (some (.exception true))) (hs : Inv p h queue s) :
    ∃ t, Run step s calls = some t ∧ Inv p h queue t := by
  induction calls generalizing s with
  | nil => exact ⟨s, rfl, hs⟩
  | cons c calls ih =>
      obtain ⟨hc, hcalls⟩ := List.forall_mem_cons.1 hcalls
      obtain ⟨t, hstep, ht⟩ := inv_step hp hc hs
      obtain ⟨u, hrun, hu⟩ := ih hcalls ht
      exact ⟨u, by rw [run_cons, hstep, Option.bind_some, hrun], hu⟩

/-! ## Giving up

The fourth exception in a row gives the supplier up, and four in a row are two from each
operation. -/

/-- The last four replies are exceptions. -/
def FourFailed (replies : List (Str × Reply)) : Prop :=
  4 ≤ replies.length ∧ ∀ r ∈ lastFour replies, failed r = true

theorem fourFailed_iff {replies : List (Str × Reply)} :
    FourFailed replies ↔ 4 ≤ (inARow replies).length := by
  rw [inARow, le_length_takeWhile, List.length_reverse]
  rfl

/-- Four exceptions in a row come two from each operation. -/
theorem lastFour_of_four (hs : Inv p h queue s) (hfour : s.proxy.exceptionCount = 4) :
    ((lastFour s.replies).map Prod.fst).count opPull = 2 ∧
      ((lastFour s.replies).map Prod.fst).count opTryPull = 2 := by
  have hlast : (lastFour s.replies).map Prod.fst = alternating s.proxy.mode.other 4 := by
    have hlength : (inARow s.replies).length = 4 := by rw [← hs.count, hfour]
    have htake : lastFour s.replies = inARow s.replies := by
      have hinitial : inARow s.replies <+: s.replies.reverse := List.takeWhile_prefix _
      rw [lastFour, ← hlength]
      exact (List.prefix_iff_eq_take.1 hinitial).symm
    rw [htake, hs.alternate, hfour]
  rw [hlast]
  cases s.proxy.mode with
  | Pull => decide
  | TryPull => decide

/-- **A pull consumer gives up** exactly when the last four replies were exceptions, which is when they
    were two from each operation. For every sequence of calls on a connected proxy, whatever its mode,
    and all replies: nothing escapes, each request is answered before the next is sent, and the events
    of the replies are queued in order. -/
theorem gives_up {p : ProxyPullConsumer Ref} (htarget : p.target.isSome = true)
    (hactive : p.active = true) (hreq : p.req = none) (hcount : p.exceptionCount = 0) (h : Heap)
    (queue : List Ptr) {calls : List Call}
    (hcalls : ∀ c ∈ calls, c ≠ .collect (some (.exception true))) :
    ∃ s, Run step (new p h queue) calls = some s ∧
      s.sent = s.replies.map Prod.fst ++ s.proxy.req.toList ∧
      s.heap.events = h.events ++ s.replies.filterMap carried ∧
      s.queue = queue ++ List.range' h.events.length (s.replies.filterMap carried).length ∧
      (s.proxy.target = none ∧ s.proxy.active = false ↔ FourFailed s.replies) ∧
      (s.proxy.target = p.target ∧ s.proxy.active = true ↔ ¬ FourFailed s.replies) ∧
      (FourFailed s.replies → ((lastFour s.replies).map Prod.fst).count opPull = 2 ∧
        ((lastFour s.replies).map Prod.fst).count opTryPull = 2) := by
  have hnew : Inv p h queue (new p h queue) := by
    refine ⟨hcount, ?_, ?_, fun _ => ⟨rfl, hactive⟩, ?_, ?_, ?_, ?_, ?_⟩
    · show [] = alternating _ p.exceptionCount
      rw [hcount]
      rfl
    · show p.exceptionCount ≤ 4
      rw [hcount]
      exact Nat.zero_le 4
    · intro hfour
      exact absurd (hcount.symm.trans hfour) (by decide)
    · intro opname hopname
      exact absurd (hreq.symm.trans hopname) nofun
    · show [] = [] ++ p.req.toList
      rw [hreq]
      rfl
    · exact (List.append_nil _).symm
    · exact (List.append_nil _).symm
  obtain ⟨s, hrun, hs⟩ := inv_run htarget hcalls hnew
  refine ⟨s, hrun, hs.sent, hs.events, hs.queue, ?_⟩
  have hle := hs.le
  rw [fourFailed_iff, ← hs.count]
  by_cases hfour : s.proxy.exceptionCount = 4
  · obtain ⟨hnone, hinactive, -⟩ := hs.disconnected hfour
    refine ⟨iff_of_true ⟨hnone, hinactive⟩ (Nat.le_of_eq hfour.symm), ?_,
      fun _ => lastFour_of_four hs hfour⟩
    refine iff_of_false ?_ (fun h => h (Nat.le_of_eq hfour.symm))
    intro h
    rw [hinactive] at h
    exact absurd h.2 Bool.false_ne_true
  · have hlt : ¬ 4 ≤ s.proxy.exceptionCount := by omega
    obtain ⟨hsome, hup⟩ := hs.connected (Nat.lt_of_not_le hlt)
    refine ⟨iff_of_false ?_ hlt, iff_of_true ⟨hsome, hup⟩ hlt, fun h => absurd h hlt⟩
    intro h
    rw [hup] at h
    exact absurd h.2 nofun

/-- A proxy just connected. -/
def connected : ProxyPullConsumer Str :=
  { (ProxyPullConsumer.new ['a'] : ProxyPullConsumer Str) with target := some ['I'] }

/-- Four requests that the supplier answers with an exception. -/
def fourFailures : List Call :=
  (List.replicate 4 [.triggerRequest, .collect (some (.exception false))]).flatten

theorem gives_up_connected :
    ∃ s, Run step (new connected ⟨[], []⟩ []) fourFailures = some s ∧
      s.sent = s.replies.map Prod.fst ++ s.proxy.req.toList ∧
      s.heap.events = [] ++ s.replies.filterMap carried ∧
      s.queue = [] ++ List.range' 0 (s.replies.filterMap carried).length ∧
      (s.proxy.target = none ∧ s.proxy.active = false ↔ FourFailed s.replies) ∧
      (s.proxy.target = connected.target ∧ s.proxy.active = true ↔ ¬ FourFailed s.replies) ∧
      (FourFailed s.replies → ((lastFour s.replies).map Prod.fst).count opPull = 2 ∧
        ((lastFour s.replies).map Prod.fst).count opTryPull = 2) :=
  @gives_up _ connected rfl rfl rfl rfl ⟨[], []⟩ [] fourFailures (by decide)

/-- After the four it is disconnected, and after three it was not. -/
example : (Run step (new connected ⟨[], []⟩ []) fourFailures).map (·.proxy.target) = some none ∧
    (Run step (new connected ⟨[], []⟩ []) (fourFailures.take 7)).map (·.proxy.target)
      = some (some ['I']) := by
  decide

end Puller

end OmniEvents
