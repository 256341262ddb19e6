import OmniEvents.ReaderLaw

set_option autoImplicit false

/-! # Draining an event queue that has overflowed

`Drains` is the loop that calls `nextEvent` while `moreEvents` holds. The reader knows its lag only
modulo the buffer size: with `u` kept events unread it gets the last `u % size` of them
(`drains_iff`). That is all of them up to the length of the queue, and after that the events skipped
are whole buffers, as `EventQueue.h` says, and not just the oldest events. -/

namespace OmniEvents

open Transition RingWindow

/-- `while(moreEvents()) nextEvent()`, and what it returns. -/
inductive Drains (q : EventQueue) : Reader → List (Option Ptr) → Prop where
  | stop {r : Reader} (h : r.moreEvents q = false) : Drains q r []
  | next {r : Reader} {es : List (Option Ptr)} (h : r.moreEvents q = true)
      (rest : Drains q (r.nextEvent q).2 es) : Drains q r ((r.nextEvent q).1 :: es)

theorem Drains.unique {q : EventQueue} {r : Reader} {es es' : List (Option Ptr)}
    (h : Drains q r es) (h' : Drains q r es') : es = es' := by
  induction h generalizing es' with
  | stop h =>
      cases h' with
      | stop => rfl
      | next hmore => rw [h] at hmore; cases hmore
  | next h _ ih =>
      cases h' with
      | stop hstop => rw [h] at hstop; cases hstop
      | next _ rest => rw [ih rest]

theorem Drains.stops {q : EventQueue} {r : Reader} (h : Drains q r []) :
    r.moreEvents q = false := by
  cases h with
  | stop h => exact h

/-- The last `m` events kept. -/
def QueueWorld.newest (w : QueueWorld) (m : ℕ) : List (Option Ptr) :=
  (w.kept.drop (w.kept.length - m)).map some

variable {n : ℕ} {w : QueueWorld}

/-- One call of `nextEvent` by a reader that is `j + 1` events behind, and not lapped. -/
theorem QueueInv.nextEvent_eq (hq : QueueInv n w) (hn : n + 1 ≤ 2 ^ 31 - 1) {j : ℕ} (hj : j < n)
    (hcount : j < w.kept.length) :
    Reader.nextEvent ⟨((w.kept.length - (j + 1)) % (n + 1) : ℕ)⟩ w.queue
      = (w.kept[w.kept.length - (j + 1)]?, ⟨((w.kept.length - j) % (n + 1) : ℕ)⟩) := by
  have hwin : InWindow (n + 1) w.kept.length (w.kept.length - (j + 1)) := by
    constructor <;> omega
  have hsucc : w.kept.length - (j + 1) + 1 = w.kept.length - j := by omega
  refine Prod.ext ?_ ?_
  · simp only [Reader.nextEvent, EventQueue.slot_natCast, hq.slots _ hwin, Option.join_some]
  · rw [← hsucc]
    exact Reader.nextEvent_snd hq.size hn _

/-- A reader that is not lapped gets everything that it has not read. -/
theorem QueueInv.drains (hq : QueueInv n w) (hn : n + 1 ≤ 2 ^ 31 - 1) {j : ℕ} (hj : j ≤ n)
    (hcount : j ≤ w.kept.length) :
    Drains w.queue ⟨((w.kept.length - j) % (n + 1) : ℕ)⟩ (w.newest j) := by
  induction j with
  | zero =>
      have hnewest : w.newest 0 = [] := by simp [QueueWorld.newest]
      rw [hnewest]
      exact .stop (by simp [Reader.moreEvents, hq.next])
  | succ j ih =>
      have hlt : w.kept.length - (j + 1) < w.kept.length := by omega
      have hnewest : w.newest (j + 1) = w.kept[w.kept.length - (j + 1)]? :: w.newest j := by
        rw [QueueWorld.newest, List.drop_eq_getElem_cons hlt, List.map_cons,
          List.getElem?_eq_getElem hlt, QueueWorld.newest,
          show w.kept.length - (j + 1) + 1 = w.kept.length - j by omega]
      have hmore : Reader.moreEvents ⟨((w.kept.length - (j + 1)) % (n + 1) : ℕ)⟩ w.queue = true := by
        have hne : (w.kept.length - (j + 1)) % (n + 1) ≠ w.kept.length % (n + 1) :=
          @mod_ne_of_inWindow_succ (n + 1) w.kept.length _ (by constructor <;> omega) (by omega)
        simp only [Reader.moreEvents, hq.next, bne_iff_ne, ne_eq, Nat.cast_inj]
        exact hne
      have hstep := hq.nextEvent_eq hn (Nat.lt_of_succ_le hj) (Nat.lt_of_succ_le hcount)
      have hdrains := Drains.next hmore (by rw [hstep]; exact ih (by omega) (by omega))
      rwa [hstep, ← hnewest] at hdrains

/-- The lag of a reader is known modulo the buffer size. -/
theorem ReaderInv.next_eq {r : ReaderTrace} {nums : List ℕ} (h : ReaderInv n w r nums)
    (hq : QueueInv n w) : w.unread r ≤ w.kept.length ∧
      r.reader = ⟨((w.kept.length - w.unread r % (n + 1)) % (n + 1) : ℕ)⟩ := by
  have hbound := h.bound
  have hunread : w.unread r = w.kept.length - positionAfter r.start nums := by
    rw [QueueWorld.unread, h.position_eq hq.nodup]
  refine ⟨by omega, ?_⟩
  have hdiv := Nat.div_add_mod (w.unread r) (n + 1)
  -- the writer is a whole number of turns ahead
  have hpos : w.kept.length - w.unread r % (n + 1)
      = positionAfter r.start nums + (n + 1) * (w.unread r / (n + 1)) := by omega
  rw [hpos, Nat.add_mul_mod_self_left, ← h.next]

/-- **What a reader gets after an overflow.** In every state reached, a reader with `u` kept events
    unread gets the last `u % (n + 1)` events kept, in order. These are the last `min u n` exactly if
    it was not lapped, or was lapped and is `n` events behind again. -/
theorem drains_iff (n : ℕ) (hn : n + 1 ≤ 2 ^ 31 - 1) (f : Option Filter) (acts : List QueueAction)
    (w : QueueWorld) (hrun : Run QueueWorld.step (QueueWorld.init n f) acts = some w)
    (i : ℕ) (r : ReaderTrace) (hr : w.readers[i]? = some r) :
    (∀ es, Drains w.queue r.reader es ↔ es = w.newest (w.unread r % (n + 1))) ∧
    (Drains w.queue r.reader (w.newest (min (w.unread r) n)) ↔
      w.unread r ≤ n ∨ w.unread r % (n + 1) = n) := by
  have hinv := worldInv_of_run hn hrun
  obtain ⟨nums, hnums, -⟩ := hinv.readers i r hr
  obtain ⟨hunread, hreader⟩ := hnums.next_eq hinv.queue
  have hmod : w.unread r % (n + 1) ≤ n := Nat.lt_succ_iff.1 (Nat.mod_lt _ (Nat.succ_pos n))
  have hdrains : Drains w.queue r.reader (w.newest (w.unread r % (n + 1))) := by
    rw [hreader]
    exact hinv.queue.drains hn hmod ((Nat.mod_le _ _).trans hunread)
  have hiff : ∀ es, Drains w.queue r.reader es ↔ es = w.newest (w.unread r % (n + 1)) :=
    fun es => ⟨fun h => h.unique hdrains, fun h => h ▸ hdrains⟩
  refine ⟨hiff, (hiff _).trans ?_⟩
  have hlength : ∀ m, m ≤ w.kept.length → (w.newest m).length = m := fun m hm => by
    simp [QueueWorld.newest]
    omega
  constructor
  · intro heq
    -- the two lists end alike, so only their lengths matter
    have hlen := congrArg List.length heq
    rw [hlength _ ((min_le_left _ _).trans hunread),
      hlength _ ((Nat.mod_le _ _).trans hunread)] at hlen
    omega
  · rintro (hle | heq)
    · rw [min_eq_left hle, Nat.mod_eq_of_lt (Nat.lt_succ_of_le hle)]
    · have hge : n ≤ w.unread r := heq ▸ Nat.mod_le _ _
      rw [min_eq_right hge, heq]

/-- An event for the runs below. -/
def anyLong : Any := ⟨⟨.tk_long, []⟩, []⟩

/-- A reader that was lapped gets the last two events where the queue has length two. -/
theorem drains_iff_lapped :
    ∃ w r, Run QueueWorld.step (QueueWorld.init 2 none)
        (.newReader :: List.replicate 5 (.append anyLong)) = some w ∧
      w.readers[0]? = some r ∧ w.unread r = 5 ∧ Drains w.queue r.reader [some 3, some 4] := by
  refine ⟨_, _, rfl, rfl, rfl, ?_⟩
  exact ((drains_iff 2 (by decide) none (.newReader :: List.replicate 5 (.append anyLong)) _ rfl 0 _
    rfl).1 _).2 rfl

/-- Appending `k` events to a queue without a filter keeps all of them. -/
theorem run_appends (n k : ℕ) :
    ∃ w, Run QueueWorld.step (QueueWorld.init n none) (List.replicate k (.append anyLong)) = some w ∧
      QueueInv n w ∧ w.kept.length = k ∧ w.queue.filter = none ∧ w.readers = [] := by
  induction k with
  | zero => exact ⟨_, rfl, QueueInv.init n none, rfl, rfl, rfl⟩
  | succ k ih =>
      obtain ⟨w, hrun, hinv, hlength, hfilter, hreaders⟩ := ih
      have hkeep : w.queue.keeps anyLong = true := by simp [EventQueue.keeps, hfilter]
      refine ⟨w.append anyLong, ?_, hinv.append anyLong, ?_, ?_, hreaders⟩
      · rw [List.replicate_succ', run_concat]
        exact ⟨w, hrun, rfl⟩
      · rw [append_of_kept hkeep, List.length_append, hlength, List.length_singleton]
      · rw [append_of_kept hkeep]
        exact hfilter

/-- A reader whose index does not fit into an `int` gets events of which none is unread. -/
theorem exists_newReader_of_not_int {n : ℕ} (hn : toInt n ≠ n) :
    ∃ w r, Run QueueWorld.step (QueueWorld.init n none)
        (List.replicate n (.append anyLong) ++ [.newReader]) = some w ∧
      w.readers[0]? = some r ∧ w.unread r = 0 ∧
      ¬ Drains w.queue r.reader (w.newest (min (w.unread r) n)) := by
  obtain ⟨w, hrun, hinv, hlength, -, hreaders⟩ := run_appends n n
  have hnext : w.queue.next = n := by
    rw [hinv.next, hlength, Nat.mod_eq_of_lt (Nat.lt_succ_self n)]
  have hmore : (Reader.new w.queue).moreEvents w.queue = true := by
    simpa [Reader.moreEvents, Reader.new, hnext] using hn
  have hunread : w.newReader.unread ⟨Reader.new w.queue, w.kept.length, []⟩ = 0 := by
    simp [QueueWorld.unread, ReaderTrace.position, QueueWorld.newReader]
  have hnil : w.newReader.newest 0 = [] := by simp [QueueWorld.newest]
  refine ⟨w.newReader, ⟨Reader.new w.queue, w.kept.length, []⟩, run_concat.2 ⟨w, hrun, rfl⟩,
    by simp [QueueWorld.newReader, hreaders], hunread, ?_⟩
  intro h
  rw [hunread, Nat.zero_min, hnil] at h
  exact Bool.noConfusion (hmore.symm.trans h.stops)

/-- One more than the largest `int`. -/
def intLimit : ℕ := 2 ^ 31

/-- One event more than the queue has room for, and the reader gets none; and where the queue is so
    long that an index does not fit into an `int`, a new reader gets events. -/
theorem overflow_discards_all :
    (∃ w r, Run QueueWorld.step (QueueWorld.init 1 none)
        (.newReader :: List.replicate 2 (.append anyLong)) = some w ∧
      w.readers[0]? = some r ∧ w.unread r = 2 ∧
      ¬ Drains w.queue r.reader (w.newest (min (w.unread r) 1))) ∧
    ∃ w r, Run QueueWorld.step (QueueWorld.init intLimit none)
        (List.replicate intLimit (.append anyLong) ++ [.newReader]) = some w ∧
      w.readers[0]? = some r ∧ w.unread r = 0 ∧
      ¬ Drains w.queue r.reader (w.newest (min (w.unread r) intLimit)) := by
  refine ⟨?_, ?_⟩
  · refine ⟨_, _, rfl, rfl, rfl, ?_⟩
    intro h
    have hnil := h.unique (.stop rfl)
    revert hnil
    decide
  · exact exists_newReader_of_not_int (by decide)

end OmniEvents
