import OmniEvents.EventQueue
import OmniEvents.Lib.RingWindow
import OmniEvents.Lib.Transition
import Mathlib.Data.List.Nodup

set_option autoImplicit false

/-! # What a reader of the event queue gets to see

One writer and any number of readers share an `EventQueue`. A reader stores nothing but an index
modulo the buffer size, so what it returns is stated against the *numbers* of the kept events, which
only the observer knows: `QueueWorld.kept` lists the events that passed the filter, in append order,
and a `ReaderTrace` lists what each call of `nextEvent` returned.

The invariant ties the two together. The buffer holds the last `size` kept events, event `e` in slot
`e % size` (`QueueInv`), and a reader's index is its absolute position modulo `size`
(`ReaderInv`); a lapped reader therefore resumes at the last event written to its slot, a multiple
of `size` further on. -/

namespace OmniEvents

open Transition RingWindow

/-! ## The queue with its observers -/

/-- A reader, the number of events kept when it was constructed, and what it returned since. -/
structure ReaderTrace where
  reader : Reader
  start : ℕ
  returned : List (Option Ptr)
  deriving DecidableEq, Repr

/-- A queue and its readers, with all events that the filter has kept. -/
structure QueueWorld where
  queue : EventQueue
  heap : Heap
  kept : List Ptr
  readers : List ReaderTrace
  deriving DecidableEq, Repr

/-- A call to the queue or to one of its readers. -/
inductive QueueAction where
  | append (event : Any)
  | newReader
  | nextEvent (i : ℕ)
  deriving DecidableEq, Repr

/-- A queue that has just been made. -/
def QueueWorld.init (maxQueueLength : ℕ) (filter : Option Filter) : QueueWorld :=
  ⟨EventQueue.new maxQueueLength filter, ⟨[], []⟩, [], []⟩

/-- `append`, of an event that is copied before. -/
def QueueWorld.append (w : QueueWorld) (event : Any) : QueueWorld :=
  let (p, heap) := w.heap.alloc event
  let (queue, heap) := w.queue.append heap p
  { w with queue, heap, kept := if w.queue.keeps event then w.kept ++ [p] else w.kept }

/-- `Reader::Reader`, which begins at the end of the queue. -/
def QueueWorld.newReader (w : QueueWorld) : QueueWorld :=
  { w with readers := w.readers ++ [⟨Reader.new w.queue, w.kept.length, []⟩] }

/-- Reader `i` calls `nextEvent`. -/
def QueueWorld.nextEvent (w : QueueWorld) (i : ℕ) (r : ReaderTrace) : QueueWorld :=
  let (event, reader) := r.reader.nextEvent w.queue
  { w with readers := w.readers.set i ⟨reader, r.start, r.returned ++ [event]⟩ }

/-- `nextEvent` is only called when `moreEvents` is true. -/
def QueueWorld.step (w : QueueWorld) : QueueAction → Option QueueWorld
  | .append event => some (w.append event)
  | .newReader => some w.newReader
  | .nextEvent i =>
      match w.readers[i]? with
      | none => none
      | some r => if r.reader.moreEvents w.queue then some (w.nextEvent i r) else none

/-- The number of the next event a reader expects: one more than that of the last it returned. -/
def ReaderTrace.position (kept : List Ptr) (r : ReaderTrace) : ℕ :=
  match r.returned.getLast? with
  | some (some p) => kept.idxOf p + 1
  | _ => r.start

/-- How many kept events a reader has not read. -/
def QueueWorld.unread (w : QueueWorld) (r : ReaderTrace) : ℕ :=
  w.kept.length - r.position w.kept

/-! ## The writes of `append`

A kept event takes three writes: the old event of its slot is deleted, the new one is stored, and the
writer's index moves on. `BufferInv` holds between any two of them; it counts how many of the kept
events are deleted, and how far the index has come. -/

/-- The slots hold the last `n + 1` events kept. The numbers say how many of them are deleted and
    how many are written, which differ in the midst of an `append`. -/
structure BufferInv (n : ℕ) (q : EventQueue) (h : Heap) (kept : List Ptr) (deleted written : ℕ) :
    Prop where
  size : q.size = n + 1
  length : q.queue.length = n + 1
  next : q.next = written % (n + 1)
  slots : ∀ e, InWindow (n + 1) kept.length e → q.queue[e % (n + 1)]? = some kept[e]?
  unused : ∀ i, kept.length ≤ i → i < n + 1 → q.queue[i]? = some none
  freed : h.freed = kept.take deleted
  allocated : ∀ p ∈ kept, p < h.events.length
  nodup : kept.Nodup

section Writes

variable {n deleted written : ℕ} {q : EventQueue} {h : Heap} {kept : List Ptr}

/-- The slot that the next kept event will overwrite holds the oldest event, if it was ever used. -/
theorem BufferInv.slot_next (hinv : BufferInv n q h kept deleted kept.length) :
    q.slot q.next = if kept.length < n + 1 then none else kept[kept.length - (n + 1)]? := by
  rw [EventQueue.slot_natCast, hinv.next]
  split
  · next hlt => rw [Nat.mod_eq_of_lt hlt, hinv.unused _ le_rfl hlt, Option.join_some]
  · next hge =>
      have hwin : InWindow (n + 1) kept.length (kept.length - (n + 1)) := by
        constructor <;> omega
      rw [Nat.mod_eq_sub_mod (by omega), hinv.slots _ hwin, Option.join_some]

/-- Deleting the overwritten event keeps the deleted events an initial segment of the kept ones. -/
theorem BufferInv.deleteOld (hinv : BufferInv n q h kept (kept.length - (n + 1)) kept.length) :
    BufferInv n q (q.deleteOld h) kept (kept.length + 1 - (n + 1)) kept.length := by
  unfold EventQueue.deleteOld
  refine { hinv with freed := ?_, allocated := ?_ }
  · rw [Heap.delete_freed, hinv.slot_next, hinv.freed]
    split
    · next hlt =>
        rw [Nat.sub_eq_zero_of_le (by omega), Nat.sub_eq_zero_of_le (by omega)]
        rfl
    · next hge =>
        rw [show kept.length + 1 - (n + 1) = kept.length - (n + 1) + 1 by omega, List.take_add_one]
  · intro p hp
    rw [Heap.delete_events]
    exact hinv.allocated p hp

/-- The new event is found in its slot, the others of the window where they were. -/
theorem BufferInv.store {p : Ptr} (hinv : BufferInv n q h kept deleted kept.length)
    (hdeleted : deleted ≤ kept.length) (halloc : p < h.events.length) (hnew : p ∉ kept) :
    BufferInv n (q.store p) h (kept ++ [p]) deleted kept.length := by
  unfold EventQueue.store
  refine ⟨hinv.size, by simp [hinv.length], hinv.next, ?_, ?_, ?_, ?_, ?_⟩
  · intro e he
    simp only [List.length_append, List.length_singleton] at he
    simp only [hinv.next]
    by_cases hlast : e = kept.length
    · subst hlast
      have hbound : kept.length % (n + 1) < q.queue.length := by
        rw [hinv.length]
        exact Nat.mod_lt _ (Nat.succ_pos n)
      simp [hbound]
    · have hold := he.of_succ hlast
      rw [List.getElem?_set_ne (mod_ne_of_inWindow_succ he hlast).symm, hinv.slots e hold,
        List.getElem?_append_left hold.1]
  · -- a slot not reached yet stays null
    intro i hi hlt
    simp only [List.length_append, List.length_singleton] at hi
    have hne : q.next ≠ i := by
      rw [hinv.next, Nat.mod_eq_of_lt (by omega)]
      omega
    rw [List.getElem?_set_ne hne]
    exact hinv.unused i (by omega) hlt
  · rw [hinv.freed, List.take_append_of_le_length hdeleted]
  · intro e he
    rcases List.mem_append.1 he with he | he
    · exact hinv.allocated e he
    · exact List.mem_singleton.1 he ▸ halloc
  · exact hinv.nodup.append (List.nodup_singleton p) (List.disjoint_singleton.2 hnew)

/-- The writer's slot moves on by one. -/
theorem BufferInv.advance (hinv : BufferInv n q h kept deleted written) :
    BufferInv n q.advance h kept deleted (written + 1) := by
  refine { hinv with next := ?_ }
  show (q.next + 1) % q.size = (written + 1) % (n + 1)
  rw [hinv.size, hinv.next, Nat.mod_add_mod]

/-- Allocating events changes nothing. -/
theorem BufferInv.allocate {h' : Heap} (hinv : BufferInv n q h kept deleted written)
    (hevents : h.events <+: h'.events) (hfreed : h'.freed = h.freed) :
    BufferInv n q h' kept deleted written :=
  { hinv with
    freed := hfreed.trans hinv.freed
    allocated := fun p hp => (hinv.allocated p hp).trans_le hevents.length_le }

/-- All the writes of `append`, one after the other. -/
theorem BufferInv.append {p : Ptr} (hinv : BufferInv n q h kept (kept.length - (n + 1)) kept.length)
    (hkeep : q.keepsAt h p = true) (hnew : p ∉ kept) :
    BufferInv n (q.append h p).1 (q.append h p).2 (kept ++ [p])
      ((kept ++ [p]).length - (n + 1)) (kept ++ [p]).length := by
  have halloc : p < h.events.length := by
    by_contra hge
    rw [EventQueue.keepsAt, List.getElem?_eq_none (Nat.not_lt.1 hge)] at hkeep
    cases hkeep
  rw [EventQueue.append_eq, if_pos hkeep, List.length_append, List.length_singleton]
  refine (hinv.deleteOld.store (by omega) ?_ hnew).advance
  unfold EventQueue.deleteOld
  rw [Heap.delete_events]
  exact halloc

end Writes

/-! ## The buffer holds the last `size` kept events -/

/-- What `BufferInv` says, between two calls of `append`. -/
structure QueueInv (n : ℕ) (w : QueueWorld) : Prop where
  size : w.queue.size = n + 1
  length : w.queue.queue.length = n + 1
  next : w.queue.next = w.kept.length % (n + 1)
  slots : ∀ e, InWindow (n + 1) w.kept.length e → w.queue.queue[e % (n + 1)]? = some w.kept[e]?
  unused : ∀ i, w.kept.length ≤ i → i < n + 1 → w.queue.queue[i]? = some none
  freed : w.heap.freed = w.kept.take (w.kept.length - (n + 1))
  allocated : ∀ p ∈ w.kept, p < w.heap.events.length
  nodup : w.kept.Nodup

/-- Between two calls of `append`. -/
theorem queueInv_iff {n : ℕ} {w : QueueWorld} : QueueInv n w ↔
    BufferInv n w.queue w.heap w.kept (w.kept.length - (n + 1)) w.kept.length :=
  ⟨fun h => { h with }, fun h => { h with }⟩

theorem bufferInv_new (n : ℕ) (f : Option Filter) :
    BufferInv n (EventQueue.new n f) ⟨[], []⟩ [] (0 - (n + 1)) 0 where
  size := rfl
  length := by simp [EventQueue.new]
  next := by simp [EventQueue.new]
  slots := by
    intro e he
    exact absurd he.1 (Nat.not_lt_zero e)
  unused := by
    intro i _ hi
    simp [EventQueue.new, hi]
  freed := by simp
  allocated := by simp
  nodup := List.nodup_nil

theorem QueueInv.init (n : ℕ) (f : Option Filter) : QueueInv n (QueueWorld.init n f) :=
  queueInv_iff.2 (bufferInv_new n f)

theorem append_of_rejected {w : QueueWorld} {event : Any} (h : w.queue.keeps event = false) :
    w.append event = { w with heap := (w.heap.alloc event).2 } := by
  simp [QueueWorld.append, EventQueue.append, h]

theorem append_of_kept {w : QueueWorld} {event : Any} (h : w.queue.keeps event = true) :
    w.append event =
      { w with
        queue := { w.queue with
          queue := w.queue.queue.set w.queue.next (some w.heap.events.length)
          next := (w.queue.next + 1) % w.queue.size }
        heap := (w.heap.alloc event).2.delete (w.queue.slot w.queue.next)
        kept := w.kept ++ [w.heap.events.length] } := by
  simp [QueueWorld.append, EventQueue.append, h]

theorem QueueInv.append {n : ℕ} {w : QueueWorld} (hinv : QueueInv n w) (event : Any) :
    QueueInv n (w.append event) := by
  have hfresh : w.heap.events.length ∉ w.kept :=
    fun hmem => absurd (hinv.allocated _ hmem) (Nat.lt_irrefl _)
  have halloc := (queueInv_iff.1 hinv).allocate (List.prefix_append w.heap.events [event])
    (Heap.alloc_freed w.heap event)
  cases hkeep : w.queue.keeps event with
  | false =>
      rw [append_of_rejected hkeep]
      exact queueInv_iff.2 halloc
  | true =>
      have hkeepsAt : w.queue.keepsAt (w.heap.alloc event).2 w.heap.events.length = true := by
        simp [EventQueue.keepsAt, hkeep]
      have happend := halloc.append hkeepsAt hfresh
      rw [EventQueue.append_eq, if_pos hkeepsAt] at happend
      rw [append_of_kept hkeep]
      exact queueInv_iff.2 happend

/-! ## Positions of a reader

A position counts all events ever kept, where the index counts slots. The law is about positions,
and the index follows from them. -/

/-- `nums` starts at `start` and goes up, each number being the one expected next or a multiple of
    `size` further on. -/
def SkipsFrom (size : ℕ) : ℕ → List ℕ → Prop
  | _, [] => True
  | start, k :: nums => (∃ m, k = start + size * m) ∧ SkipsFrom size (k + 1) nums

/-- The number expected after `nums`. -/
def positionAfter (start : ℕ) (nums : List ℕ) : ℕ :=
  match nums.getLast? with
  | some k => k + 1
  | none => start

@[simp] theorem positionAfter_nil (start : ℕ) : positionAfter start [] = start := rfl

@[simp] theorem positionAfter_concat (start k : ℕ) (nums : List ℕ) :
    positionAfter start (nums ++ [k]) = k + 1 := by
  simp [positionAfter]

theorem positionAfter_cons (start k : ℕ) (nums : List ℕ) :
    positionAfter start (k :: nums) = positionAfter (k + 1) nums := by
  cases nums with
  | nil => rfl
  | cons l nums =>
      simp only [positionAfter, List.getLast?_cons_cons]
      rw [List.getLast?_eq_getLast_of_ne_nil (List.cons_ne_nil l nums)]

theorem skipsFrom_concat (size start k : ℕ) (nums : List ℕ) :
    SkipsFrom size start (nums ++ [k]) ↔
      SkipsFrom size start nums ∧ ∃ m, k = positionAfter start nums + size * m := by
  induction nums generalizing start with
  | nil => simp [SkipsFrom]
  | cons l nums ih => simp [SkipsFrom, ih, positionAfter_cons, and_assoc]

theorem SkipsFrom.start_le {size start : ℕ} {nums : List ℕ} (h : SkipsFrom size start nums) :
    ∀ k ∈ nums, start ≤ k := by
  induction nums generalizing start with
  | nil => simp
  | cons l nums ih =>
      obtain ⟨⟨m, hm⟩, hrest⟩ := h
      have hl : start ≤ l := hm ▸ Nat.le_add_right _ _
      intro k hk
      rcases List.mem_cons.1 hk with rfl | hk
      · exact hl
      · have := ih hrest k hk
        omega

theorem SkipsFrom.strictlyIncreasing {size start : ℕ} {nums : List ℕ}
    (h : SkipsFrom size start nums) : nums.Pairwise (· < ·) := by
  induction nums generalizing start with
  | nil => exact List.Pairwise.nil
  | cons l nums ih => exact List.Pairwise.cons (fun k hk => h.2.start_le k hk) (ih h.2)

theorem SkipsFrom.lt_positionAfter {size start : ℕ} {nums : List ℕ}
    (h : SkipsFrom size start nums) : ∀ k ∈ nums, k < positionAfter start nums := by
  induction nums generalizing start with
  | nil => simp
  | cons l nums ih =>
      intro k hk
      rw [positionAfter_cons]
      rcases List.mem_cons.1 hk with rfl | hk
      · cases nums with
        | nil => simp
        | cons j nums =>
            have hj := h.2.start_le j (List.mem_cons_self ..)
            have := ih h.2 j (List.mem_cons_self ..)
            omega
      · exact ih h.2 k hk

theorem positionAfter_range' (start len : ℕ) :
    positionAfter start (List.range' start len) = start + len := by
  cases len with
  | zero => simp
  | succ len => rw [List.range'_concat]; simp; omega

/-! ## What a reader has returned -/

/-- The state of one reader: `nums` are the numbers of the events it returned. -/
structure ReaderInv (n : ℕ) (w : QueueWorld) (r : ReaderTrace) (nums : List ℕ) : Prop where
  returned : r.returned = nums.map (fun k => w.kept[k]?)
  skips : SkipsFrom (n + 1) r.start nums
  bound : positionAfter r.start nums ≤ w.kept.length
  next : r.reader.next = ((positionAfter r.start nums % (n + 1) : ℕ) : ℤ)

theorem ReaderInv.lt_length {n : ℕ} {w : QueueWorld} {r : ReaderTrace} {nums : List ℕ}
    (h : ReaderInv n w r nums) : ∀ k ∈ nums, k < w.kept.length :=
  fun k hk => (h.skips.lt_positionAfter k hk).trans_le h.bound

/-- The position recovered from the last pointer returned is the absolute position. -/
theorem ReaderInv.position_eq {n : ℕ} {w : QueueWorld} {r : ReaderTrace} {nums : List ℕ}
    (h : ReaderInv n w r nums) (hnodup : w.kept.Nodup) :
    r.position w.kept = positionAfter r.start nums := by
  unfold ReaderTrace.position positionAfter
  rw [h.returned, List.getLast?_map]
  cases hlast : nums.getLast? with
  | none => rfl
  | some k =>
      have hk := h.lt_length k (List.mem_of_getLast? hlast)
      simp [List.getElem?_eq_getElem hk, hnodup.idxOf_getElem]

/-- `moreEvents` tells that the reader's position is not the writer's. -/
theorem ReaderInv.moreEvents_iff {n : ℕ} {w : QueueWorld} {r : ReaderTrace} {nums : List ℕ}
    (h : ReaderInv n w r nums) (hq : QueueInv n w) :
    r.reader.moreEvents w.queue = true ↔
      positionAfter r.start nums % (n + 1) ≠ w.kept.length % (n + 1) := by
  simp only [Reader.moreEvents, h.next, hq.next, bne_iff_ne, ne_eq, Nat.cast_inj]

/-- What `nextEvent` finds when there are more events: the last event written to the slot. -/
theorem ReaderInv.nextEvent_eq {n : ℕ} {w : QueueWorld} {r : ReaderTrace} {nums : List ℕ}
    (h : ReaderInv n w r nums) (hq : QueueInv n w) (hn : n + 1 ≤ 2 ^ 31 - 1)
    (hmore : r.reader.moreEvents w.queue = true) :
    let k := wrapped (n + 1) w.kept.length (positionAfter r.start nums)
    InWindow (n + 1) w.kept.length k ∧
      r.reader.nextEvent w.queue = (w.kept[k]?, ⟨(((k + 1) % (n + 1) : ℕ) : ℤ)⟩) := by
  intro k
  have hpos : positionAfter r.start nums < w.kept.length := by
    refine lt_of_le_of_ne h.bound ?_
    intro heq
    exact (h.moreEvents_iff hq).1 hmore (by rw [heq])
  have hwin : InWindow (n + 1) w.kept.length k := wrapped_inWindow (Nat.succ_pos n) hpos
  have hmod : positionAfter r.start nums % (n + 1) = k % (n + 1) := (wrapped_mod _).symm
  refine ⟨hwin, ?_⟩
  have hslot : w.queue.slot r.reader.next = w.kept[k]? := by
    rw [h.next, hmod, EventQueue.slot_natCast, hq.slots k hwin, Option.join_some]
  have hreader : r.reader = ⟨((k % (n + 1) : ℕ) : ℤ)⟩ := by rw [← hmod, ← h.next]
  refine Prod.ext hslot ?_
  rw [hreader]
  exact Reader.nextEvent_snd hq.size hn k

theorem ReaderInv.of_new {n : ℕ} {w : QueueWorld} (hq : QueueInv n w) (hn : n + 1 ≤ 2 ^ 31 - 1) :
    ReaderInv n w ⟨Reader.new w.queue, w.kept.length, []⟩ [] where
  returned := rfl
  skips := trivial
  bound := le_rfl
  next := by
    have : w.kept.length % (n + 1) < n + 1 := Nat.mod_lt _ (Nat.succ_pos n)
    simp only [Reader.new, hq.next, positionAfter_nil]
    exact toInt_of_lt (by omega)

theorem ReaderInv.append {n : ℕ} {w : QueueWorld} {r : ReaderTrace} {nums : List ℕ}
    (h : ReaderInv n w r nums) (event : Any) : ReaderInv n (w.append event) r nums := by
  cases hkeep : w.queue.keeps event with
  | false => rw [append_of_rejected hkeep]; exact ⟨h.returned, h.skips, h.bound, h.next⟩
  | true =>
      rw [append_of_kept hkeep]
      refine ⟨?_, h.skips, ?_, h.next⟩
      · rw [h.returned]
        refine List.map_congr_left ?_
        intro k hk
        rw [List.getElem?_append_left (h.lt_length k hk)]
      · have := h.bound
        simp
        omega

theorem ReaderInv.nextEvent {n : ℕ} {w : QueueWorld} {r : ReaderTrace} {nums : List ℕ}
    (h : ReaderInv n w r nums) (hq : QueueInv n w) (hn : n + 1 ≤ 2 ^ 31 - 1)
    (hmore : r.reader.moreEvents w.queue = true) :
    ReaderInv n w
      ⟨(r.reader.nextEvent w.queue).2, r.start, r.returned ++ [(r.reader.nextEvent w.queue).1]⟩
      (nums ++ [wrapped (n + 1) w.kept.length (positionAfter r.start nums)]) := by
  obtain ⟨hwin, heq⟩ := h.nextEvent_eq hq hn hmore
  refine ⟨?_, ?_, ?_, ?_⟩
  · simp [h.returned, heq]
  · exact (skipsFrom_concat _ _ _ _).2 ⟨h.skips, _, rfl⟩
  · rw [positionAfter_concat]
    exact hwin.1
  · simp [heq]

/-! ## Every run

Neither invariant looks at the readers other than the one it is about. -/

theorem QueueInv.setReaders {n : ℕ} {w : QueueWorld} (h : QueueInv n w)
    (readers : List ReaderTrace) : QueueInv n { w with readers } :=
  { h with }

theorem ReaderInv.setReaders {n : ℕ} {w : QueueWorld} {r : ReaderTrace} {nums : List ℕ}
    (h : ReaderInv n w r nums) (readers : List ReaderTrace) :
    ReaderInv n { w with readers } r nums :=
  { h with }

/-- Reader `i` never had more than `n` kept events unread, at any moment of the run. -/
def KeepsUp (n : ℕ) (w₀ : QueueWorld) (acts : List QueueAction) (i : ℕ) : Prop :=
  ∀ pre, pre <+: acts → ∀ w r, Run QueueWorld.step w₀ pre = some w → w.readers[i]? = some r →
    w.unread r ≤ n

/-- The invariant of the whole world. `keepsUp i` stands for what is known of the past of
    reader `i`. -/
structure WorldInv (n : ℕ) (keepsUp : ℕ → Prop) (w : QueueWorld) : Prop where
  queue : QueueInv n w
  readers : ∀ i r, w.readers[i]? = some r →
    ∃ nums, ReaderInv n w r nums ∧ (keepsUp i → nums = List.range' r.start nums.length)

section Steps

variable {n : ℕ} {keepsUp : ℕ → Prop} {w : QueueWorld}

theorem WorldInv.append (hinv : WorldInv n keepsUp w) (event : Any) :
    WorldInv n keepsUp (w.append event) := by
  refine ⟨hinv.queue.append event, ?_⟩
  intro i r hr
  have hreaders : (w.append event).readers = w.readers := rfl
  obtain ⟨nums, hnums, hkeeps⟩ := hinv.readers i r (hreaders ▸ hr)
  exact ⟨nums, hnums.append event, hkeeps⟩

theorem WorldInv.newReader (hinv : WorldInv n keepsUp w) (hn : n + 1 ≤ 2 ^ 31 - 1) :
    WorldInv n keepsUp w.newReader := by
  refine ⟨hinv.queue.setReaders _, ?_⟩
  intro i r hr
  rcases Nat.lt_trichotomy i w.readers.length with hlt | heq | hgt
  · rw [QueueWorld.newReader, List.getElem?_append_left hlt] at hr
    obtain ⟨nums, hnums, hkeeps⟩ := hinv.readers i r hr
    exact ⟨nums, hnums.setReaders _, hkeeps⟩
  · subst heq
    obtain rfl : ⟨Reader.new w.queue, w.kept.length, []⟩ = r := by
      simpa [QueueWorld.newReader] using hr
    exact ⟨[], (ReaderInv.of_new hinv.queue hn).setReaders _, fun _ => rfl⟩
  · rw [QueueWorld.newReader, List.getElem?_eq_none (by simp; omega)] at hr
    cases hr

/-- A reader that has at most `n` events unread reads the very next one. -/
theorem ReaderInv.wrapped_of_unread_le {r : ReaderTrace} {nums : List ℕ}
    (h : ReaderInv n w r nums) (hq : QueueInv n w) (hmore : r.reader.moreEvents w.queue = true)
    (hunread : w.unread r ≤ n) :
    wrapped (n + 1) w.kept.length (positionAfter r.start nums) = positionAfter r.start nums := by
  have hpos : positionAfter r.start nums < w.kept.length := by
    refine lt_of_le_of_ne h.bound ?_
    intro heq
    exact (h.moreEvents_iff hq).1 hmore (by rw [heq])
  rw [QueueWorld.unread, h.position_eq hq.nodup] at hunread
  exact wrapped_eq_self hpos (by omega)

theorem WorldInv.nextEvent (hinv : WorldInv n keepsUp w) (hn : n + 1 ≤ 2 ^ 31 - 1)
    {i : ℕ} {r : ReaderTrace} (hr : w.readers[i]? = some r)
    (hmore : r.reader.moreEvents w.queue = true)
    (hunread : keepsUp i → w.unread r ≤ n) :
    WorldInv n keepsUp (w.nextEvent i r) := by
  refine ⟨hinv.queue.setReaders _, ?_⟩
  intro j s hs
  by_cases hij : i = j
  · subst hij
    obtain ⟨nums, hnums, hkeeps⟩ := hinv.readers i r hr
    have hlt : i < w.readers.length := (List.getElem?_eq_some_iff.1 hr).1
    obtain rfl : ⟨(r.reader.nextEvent w.queue).2, r.start,
        r.returned ++ [(r.reader.nextEvent w.queue).1]⟩ = s := by
      simpa [QueueWorld.nextEvent, hlt] using hs
    refine ⟨_, (hnums.nextEvent hinv.queue hn hmore).setReaders _, ?_⟩
    intro hk
    -- the numbers so far are consecutive, and the new one is the one expected
    have hconsecutive := hkeeps hk
    rw [hnums.wrapped_of_unread_le hinv.queue hmore (hunread hk), List.length_append,
      List.length_singleton, List.range'_concat]
    rw [hconsecutive, positionAfter_range', List.length_range', Nat.one_mul]
  · rw [QueueWorld.nextEvent, List.getElem?_set_ne hij] at hs
    obtain ⟨nums, hnums, hkeeps⟩ := hinv.readers j s hs
    exact ⟨nums, hnums.setReaders _, hkeeps⟩

theorem WorldInv.mono {keepsUp' : ℕ → Prop} (hinv : WorldInv n keepsUp w)
    (himp : ∀ i, keepsUp' i → keepsUp i) : WorldInv n keepsUp' w := by
  refine ⟨hinv.queue, ?_⟩
  intro i r hr
  obtain ⟨nums, hnums, hkeeps⟩ := hinv.readers i r hr
  exact ⟨nums, hnums, fun hk => hkeeps (himp i hk)⟩

theorem WorldInv.step (hinv : WorldInv n keepsUp w) (hn : n + 1 ≤ 2 ^ 31 - 1)
    (hunread : ∀ i r, keepsUp i → w.readers[i]? = some r → w.unread r ≤ n)
    {a : QueueAction} {w' : QueueWorld} (hstep : w.step a = some w') : WorldInv n keepsUp w' := by
  cases a with
  | append event =>
      cases hstep
      exact hinv.append event
  | newReader =>
      cases hstep
      exact hinv.newReader hn
  | nextEvent i =>
      simp only [QueueWorld.step] at hstep
      split at hstep
      · cases hstep
      · next r hr =>
          split at hstep
          · next hmore =>
              cases hstep
              exact hinv.nextEvent hn hr hmore (fun hk => hunread i r hk hr)
          · cases hstep

end Steps

theorem worldInv_of_run {n : ℕ} (hn : n + 1 ≤ 2 ^ 31 - 1) {f : Option Filter}
    {acts : List QueueAction} {w : QueueWorld}
    (hrun : Run QueueWorld.step (QueueWorld.init n f) acts = some w) :
    WorldInv n (KeepsUp n (QueueWorld.init n f) acts) w := by
  refine Run.induct
    (P := fun acts w => WorldInv n (KeepsUp n (QueueWorld.init n f) acts) w) ?_ ?_ hrun
  · exact ⟨QueueInv.init n f, fun i r hr => by simp [QueueWorld.init] at hr⟩
  · intro as w a w' hw hinv hstep
    have hpast : ∀ i, KeepsUp n (QueueWorld.init n f) (as ++ [a]) i →
        KeepsUp n (QueueWorld.init n f) as i :=
      fun i hk pre hpre => hk pre (hpre.trans (List.prefix_append ..))
    exact (hinv.mono hpast).step hn
      (fun i r hk hr => hk as (List.prefix_append ..) w r hw hr) hstep

/-- **What a reader returns.** After any run, the events returned by reader `i` are kept events
    whose numbers go up strictly from the number of events kept when the reader was constructed,
    each exceeding the one before by one plus a multiple of the buffer size; a reader that never
    lagged more than `n` events behind missed none; and a further `nextEvent` would return a kept
    event that has not been deleted. -/
theorem reader_law (n : ℕ) (hn : n + 1 ≤ 2 ^ 31 - 1) (f : Option Filter)
    (acts : List QueueAction) (w : QueueWorld)
    (hrun : Run QueueWorld.step (QueueWorld.init n f) acts = some w)
    (i : ℕ) (r : ReaderTrace) (hr : w.readers[i]? = some r) :
    (∃ nums : List ℕ,
      r.returned = nums.map (fun k => w.kept[k]?) ∧
      (∀ k ∈ nums, r.start ≤ k ∧ k < w.kept.length) ∧
      nums.Pairwise (· < ·) ∧
      SkipsFrom w.queue.size r.start nums ∧
      (KeepsUp n (QueueWorld.init n f) acts i → nums = List.range' r.start nums.length)) ∧
    (r.reader.moreEvents w.queue = true →
      ∃ p ∈ w.kept, (r.reader.nextEvent w.queue).1 = some p ∧ p ∉ w.heap.freed) := by
  have hinv := worldInv_of_run hn hrun
  obtain ⟨nums, hnums, hkeeps⟩ := hinv.readers i r hr
  refine ⟨⟨nums, hnums.returned, ?_, hnums.skips.strictlyIncreasing, ?_, hkeeps⟩, ?_⟩
  · exact fun k hk => ⟨hnums.skips.start_le k hk, hnums.lt_length k hk⟩
  · rw [hinv.queue.size]
    exact hnums.skips
  · intro hmore
    obtain ⟨hwin, heq⟩ := hnums.nextEvent_eq hinv.queue hn hmore
    have hget := List.getElem?_eq_getElem hwin.1
    refine ⟨_, List.getElem_mem hwin.1, by rw [heq, hget], ?_⟩
    intro hfreed
    -- the deleted events come before the window, and no event is kept twice
    rw [hinv.queue.freed] at hfreed
    obtain ⟨j, hj, hjeq⟩ := List.getElem_of_mem hfreed
    rw [List.getElem_take, hinv.queue.nodup.getElem_inj_iff] at hjeq
    rw [List.length_take] at hj
    have := hwin.2
    omega

/-- A reader of a queue of length one is lapped twice before its first read. -/
theorem reader_law_lapped :
    ∃ w r nums,
      Run QueueWorld.step (QueueWorld.init 1 none)
        (.newReader :: List.replicate 5 (.append ⟨⟨.tk_long, []⟩, []⟩) ++ [.nextEvent 0]) = some w ∧
      w.readers[0]? = some r ∧ r.returned = [some 4] ∧
      r.returned = nums.map (fun k => w.kept[k]?) ∧ SkipsFrom w.queue.size r.start nums := by
  obtain ⟨⟨nums, hreturned, -, -, hskips, -⟩, -⟩ :=
    reader_law 1 (by decide) none
      (.newReader :: List.replicate 5 (.append ⟨⟨.tk_long, []⟩, []⟩) ++ [.nextEvent 0]) _ rfl 0 _ rfl
  exact ⟨_, _, nums, rfl, rfl, rfl, hreturned, hskips⟩

end OmniEvents
