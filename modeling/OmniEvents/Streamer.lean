import OmniEvents.Lib.Attempt
import OmniEvents.Lib.Cdr
import OmniEvents.StreamTime

set_option autoImplicit false

/-! # Recording and replaying events

The `events` tool writes every event that it is pushed as a record, marshalled from the start of a
stream of its own, and plays the records back with `-s`: it reads up to 1024 bytes at a time, each time
into a new stream, and unmarshals one record after the other from there. So a record that does not
begin where a read begins is read at another alignment than it was written at, and one that goes on in
the next read cannot be read at all. This module has both sides and what a record reads as where it
stands (`run_push`, `run_cut`); `StreamChunks` has the whole recording. -/

namespace OmniEvents.Events

open Cdr

/-! ## Marshalling

The ORB's marshalling as a parameter: what it writes for a value it reads back, if it reads at the
same alignment. -/

/-- What is taken from omniORB: the primitives of an `ULong` and of an `Any`, and how they are read
    back. -/
structure Marshalling (β Any : Type) where
  ulong : UInt32 → List β
  toULong : List β → UInt32
  any : Any → List (List β)
  anyParser : Parser β Any
  length_ulong : ∀ x, (ulong x).length = 4
  toULong_ulong : ∀ x, toULong (ulong x) = x
  feed_any : ∀ a, anyParser.feed (any a) = some (a, [])

variable {β Any : Type} (orb : Marshalling β Any)

/-- `Time::operator>>=`. -/
def Time.prims (t : Time) : List (List β) := [orb.ulong t.sec, orb.ulong t.nano]

/-- `Time::operator<<=`. -/
def Time.parser : Parser β Time :=
  .read 4 fun sec => .read 4 fun nano => .done ⟨orb.toULong sec, orb.toULong nano⟩

/-! ## The consumer -/

/-- A call of `push`, with the time at which it is called and what the memory of `_memstream` holds
    where nothing is written to. -/
structure Event (β Any : Type) where
  now : Time
  data : Any
  memory : ℕ → β

/-- What is put into the stream for one event: the time, and then the event. -/
def Event.prims (e : Event β Any) : List (List β) := e.now.prims orb ++ orb.any e.data

/-- `Consumer_i::push`: the bytes it writes. -/
def push (e : Event β Any) : List β := marshal e.memory 0 (e.prims orb)

/-- What the tool writes when it records these events. -/
def recorded (events : List (Event β Any)) : List β := events.flatMap (push orb)

/-! ## The supplier -/

/-- A call of the proxy's `push`, and how long the supplier has slept before it. -/
structure Pushed (Any : Type) where
  slept : Option Time
  any : Any
  deriving DecidableEq, Repr

/-- Where `supply` stands. The clock is read time and again, `readings` times so far. -/
structure Supplying (Any : Type) where
  offsetTime : Time
  readings : ℕ
  pushed : List (Pushed Any)
  deriving DecidableEq, Repr

/-- Nothing has been read. -/
def Supplying.start : Supplying Any := ⟨.nil, 0, []⟩

variable (clock : ℕ → Time)

/-- `offsetTime` for an event and the readings then: the first time is special. -/
def settleOffset (offsetTime : Time) (readings : ℕ) (eventTime : Time) :
    Except SystemException (Time × ℕ) :=
  if offsetTime.is_nil then
    match (clock readings).sub eventTime with
    | .error ex => .error ex
    | .ok offsetTime => .ok (offsetTime, readings + 1)
  else .ok (offsetTime, readings)

/-- What `supply` does with an event that it has read. -/
def deliver (eventTime : Time) (any : Any) (s : Supplying Any) :
    Except SystemException (Supplying Any) :=
  match settleOffset clock s.offsetTime s.readings eventTime with
  | .error ex => .error ex
  | .ok (offsetTime, readings) =>
      match Time.sleepUntil (clock readings) (eventTime.add offsetTime) with
      | .error ex => .error ex
      | .ok slept => .ok ⟨offsetTime, readings + 1, s.pushed ++ [⟨slept, any⟩]⟩

/-- `eventTime<<=memstr; any<<=memstr`. -/
def eventParser : Parser β (Time × Any) :=
  (Time.parser orb).bind fun eventTime => orb.anyParser.map fun any => (eventTime, any)

/-- How far a loop has come, and the exception that has ended it, if any. -/
abbrev Outcome (Any : Type) := Supplying Any × Option SystemException

/-- The loop over a buffer; no value after too few rounds. -/
def supplyBuffer : ℕ → Input β → Supplying Any → Option (Outcome Any)
  | 0, _, _ => none
  | rounds + 1, memstr, s =>
      if memstr.rest.isEmpty then some (s, none)
      else
        match (eventParser orb).run memstr with
        | none => some (s, some .MARSHAL)
        | some ((eventTime, any), memstr) =>
            match deliver clock eventTime any s with
            | .error ex => some (s, some ex)
            | .ok s => supplyBuffer rounds memstr s

/-- `Supplier_i::supply` from what the calls of `read` give one after the other, while it is
    connected. A read of nothing is the end. -/
def supply : List (List β) → Supplying Any → Option (Outcome Any)
  | [], s => some (s, none)
  | buf :: reads, s =>
      if buf.isEmpty then some (s, none)
      else
        match supplyBuffer orb clock (buf.length + 1) ⟨0, buf⟩ s with
        | none => none
        | some (s, some ex) => some (s, some ex)
        | some (s, none) => supply reads s

/-- The `Any`s that have been pushed. -/
def Supplying.anys (s : Supplying Any) : List Any := s.pushed.map (·.any)

/-! ## What a replay is -/

/-- The events delivered one by one. -/
def replay (events : List (Event β Any)) (s : Supplying Any) : Outcome Any :=
  Attempt.exec (events.map fun e => deliver clock e.now e.data) s

/-- While the offset is nil, the clock is not behind the event. -/
def Punctual : ℕ → List (Event β Any) → Prop
  | _, [] => True
  | readings, e :: events =>
      ∃ offsetTime, (clock readings).sub e.now = .ok offsetTime ∧
        (offsetTime.is_nil = true → Punctual (readings + 2) events)

variable {clock} {e : Event β Any} {events : List (Event β Any)} {s : Supplying Any}

/-- An event is delivered unless the clock is behind the event that is to set the offset. -/
theorem deliver_cases (clock : ℕ → Time) (eventTime : Time) (any : Any) (s : Supplying Any) :
    (s.offsetTime.is_nil = true ∧ ∃ ex, (clock s.readings).sub eventTime = .error ex ∧
      deliver clock eventTime any s = .error ex) ∨
    (∃ s', deliver clock eventTime any s = .ok s' ∧ s'.anys = s.anys ++ [any] ∧
      ((s.offsetTime.is_nil = true ∧ (clock s.readings).sub eventTime = .ok s'.offsetTime ∧
          s'.readings = s.readings + 2) ∨
        (s.offsetTime.is_nil = false ∧ s'.offsetTime = s.offsetTime))) := by
  cases hnil : s.offsetTime.is_nil with
  | true =>
      cases hsub : (clock s.readings).sub eventTime with
      | error ex =>
          refine .inl ⟨rfl, ex, rfl, ?_⟩
          rw [deliver, settleOffset, if_pos hnil, hsub]
      | ok offsetTime =>
          obtain ⟨slept, hslept⟩ :=
            Time.sleepUntil_ok (clock (s.readings + 1)) (eventTime.add offsetTime)
          refine .inr ⟨⟨offsetTime, s.readings + 2, s.pushed ++ [⟨slept, any⟩]⟩, ?_, ?_, ?_⟩
          · rw [deliver, settleOffset, if_pos hnil, hsub]
            simp only [hslept]
          · exact List.map_append
          · exact .inl ⟨rfl, rfl, rfl⟩
  | false =>
      obtain ⟨slept, hslept⟩ :=
        Time.sleepUntil_ok (clock s.readings) (eventTime.add s.offsetTime)
      refine .inr ⟨⟨s.offsetTime, s.readings + 1, s.pushed ++ [⟨slept, any⟩]⟩, ?_, ?_, ?_⟩
      · rw [deliver, settleOffset, if_neg (by rw [hnil]; exact Bool.false_ne_true)]
        simp only [hslept]
      · exact List.map_append
      · exact .inr ⟨rfl, rfl⟩

/-- A replay that nothing ends has pushed every event, and one that something ends fewer. -/
theorem replay_anys (clock : ℕ → Time) (events : List (Event β Any)) (s : Supplying Any) :
    ∃ k ≤ events.length,
      (replay clock events s).1.anys = s.anys ++ (events.take k).map (·.data) ∧
      ((replay clock events s).2 = none ↔ k = events.length) := by
  induction events generalizing s with
  | nil => exact ⟨0, Nat.le_refl _, (List.append_nil _).symm, iff_of_true rfl rfl⟩
  | cons e events ih =>
      rcases deliver_cases clock e.now e.data s with ⟨-, ex, -, hraised⟩ | ⟨s', hs', hanys, -⟩
      · have hreplay : replay clock (e :: events) s = (s, some ex) :=
          Attempt.exec_cons_of_error hraised
        refine ⟨0, Nat.zero_le _, ?_, ?_⟩
        · rw [hreplay]
          exact (List.append_nil _).symm
        · rw [hreplay]
          exact iff_of_false (Option.some_ne_none _) (Nat.succ_ne_zero _).symm
      · have hreplay : replay clock (e :: events) s = replay clock events s' :=
          Attempt.exec_cons_of_ok hs'
        obtain ⟨k, hk, hpushed, hall⟩ := ih s'
        refine ⟨k + 1, Nat.succ_le_succ hk, ?_, ?_⟩
        · rw [hreplay, hpushed, hanys, List.append_assoc]
          rfl
        · rw [hreplay, hall]
          exact Nat.succ_inj.symm

theorem replay_raises_iff (clock : ℕ → Time) (events : List (Event β Any)) (s : Supplying Any) :
    (replay clock events s).2 = none ↔
      (s.offsetTime.is_nil = true → Punctual clock s.readings events) := by
  induction events generalizing s with
  | nil => exact iff_of_true rfl fun _ => trivial
  | cons e events ih =>
      rcases deliver_cases clock e.now e.data s with ⟨hnil, ex, hsub, hraised⟩ | ⟨s', hs', -, hnext⟩
      · have hreplay : replay clock (e :: events) s = (s, some ex) :=
          Attempt.exec_cons_of_error hraised
        rw [hreplay]
        refine iff_of_false (Option.some_ne_none _) ?_
        intro hpunctual
        obtain ⟨offsetTime, hok, -⟩ := hpunctual hnil
        rw [hsub] at hok
        cases hok
      · have hreplay : replay clock (e :: events) s = replay clock events s' :=
          Attempt.exec_cons_of_ok hs'
        rw [hreplay, ih]
        rcases hnext with ⟨hnil, hsub, hreadings⟩ | ⟨hset, hoffset⟩
        · rw [hreadings]
          constructor
          · intro h _
            exact ⟨_, hsub, h⟩
          · intro h hnil'
            obtain ⟨offsetTime, hok, hrest⟩ := h hnil
            obtain rfl := Except.ok.inj (hsub.symm.trans hok)
            exact hrest hnil'
        · rw [hoffset, hset]
          exact iff_of_true (fun h => Bool.noConfusion h) (fun h => Bool.noConfusion h)

/-! ## Reading a record -/

variable {orb}

theorem feed_prims (e : Event β Any) :
    (eventParser orb).feed (e.prims orb) = some ((e.now, e.data), []) := by
  have htime : (Time.parser orb).feed (e.now.prims orb) = some (e.now, []) := by
    simp only [Time.parser, Time.prims, Parser.feed, orb.length_ulong, orb.toULong_ulong, if_true]
  rw [Event.prims, eventParser, Parser.feed_bind (Parser.feed_append htime _), List.nil_append,
    Parser.map, Parser.feed_bind (orb.feed_any e.data)]
  rfl

theorem run_push {o : ℕ} (h : Aligned o (e.prims orb)) (rest : List β) :
    (eventParser orb).run ⟨o, push orb e ++ rest⟩
      = some ((e.now, e.data), ⟨o + (push orb e).length, rest⟩) := by
  rw [push, marshal_zero h]
  exact Parser.run_marshal (feed_prims e) _ o rest

theorem run_cut {o n : ℕ} (h : Aligned o (e.prims orb)) (hn : n < (push orb e).length) :
    (eventParser orb).run ⟨o, (push orb e).take n⟩ = none := by
  rw [push, marshal_zero h] at hn ⊢
  exact Parser.run_take (feed_prims e) _ o n hn

/-- A record has its seconds at least. -/
theorem push_ne_nil (orb : Marshalling β Any) (e : Event β Any) : push orb e ≠ [] := by
  intro h
  have hlength : 4 ≤ (push orb e).length := by
    rw [push, Event.prims, Time.prims, List.cons_append, marshal, List.length_append, length_put,
      orb.length_ulong]
    omega
  rw [h] at hlength
  exact Nat.not_succ_le_zero 3 hlength

/-- Every round takes something from the buffer. -/
theorem run_lt {memstr memstr' : Input β} {x : Time × Any}
    (h : (eventParser orb).run memstr = some (x, memstr')) :
    memstr'.rest.length < memstr.rest.length :=
  Nat.lt_of_lt_of_le (Nat.lt_add_of_pos_right (by decide)) (Parser.run_read_rest_le h)

end OmniEvents.Events
