import Mathlib.Algebra.Group.Int.Defs
import Mathlib.Algebra.Group.Nat.Defs
import Mathlib.Data.List.Basic
import Mathlib.Data.Int.Init

set_option autoImplicit false

/-! # The event queue of a channel

`EventQueue` (`EventQueue.h`, `EventQueue.cc`) is the circular buffer between the two admins of a
channel, and `Reader` the mix-in through which each supplier proxy consumes it. Events are passed as
pointers to `CORBA::Any`, so the model keeps a `Heap` next to the queue: which events have been
allocated, and which have been deleted. `long` members are naturals (they stay far below `2^63`);
the `int` member `Reader::_next` is an integer that is wrapped to 32 bits when it is stored. -/

namespace OmniEvents

/-- Strings are lists of characters throughout. -/
abbrev Str := List Char

instance : LawfulBEq Str := List.instLawfulBEq

/-! ## Events

An `Any` as far as filters look at it: its type code, and a value that nobody looks into. -/

/-- `CORBA::TCKind`, as enumerated in `FilterByRepositoryId::keep`. -/
inductive TCKind where
  | tk_null | tk_void | tk_short | tk_long | tk_ushort | tk_ulong | tk_float | tk_double
  | tk_boolean | tk_char | tk_octet | tk_any | tk_TypeCode | tk_Principal | tk_objref | tk_struct
  | tk_union | tk_enum | tk_string | tk_sequence | tk_array | tk_alias | tk_except | tk_longlong
  | tk_ulonglong | tk_longdouble | tk_wchar | tk_wstring | tk_fixed | tk_value | tk_value_box
  | tk_native | tk_abstract_interface | tk_local_interface
  deriving DecidableEq, Repr

/-- What the filters read of a `CORBA::TypeCode`: its kind and, for the kinds that have one, its
    repository id. -/
structure TypeCode where
  kind : TCKind
  id : Str
  deriving DecidableEq, Repr

/-- A `CORBA::Any`: its type and its (opaque) value. -/
structure Any where
  type : TypeCode
  value : List UInt8
  deriving DecidableEq, Repr

/-- The two filters of `Filter.h`. -/
inductive Filter where
  | FilterByTCKind (kind : TCKind)
  | FilterByRepositoryId (rid : Str)
  deriving DecidableEq, Repr

/-- `Filter::keep`: a repository id is compared only for the kinds that carry one. -/
def Filter.keep : Filter → Any → Bool
  | .FilterByTCKind kind, event => event.type.kind == kind
  | .FilterByRepositoryId rid, event =>
      match event.type.kind with
      | .tk_objref | .tk_struct | .tk_union | .tk_enum | .tk_alias | .tk_except =>
          rid == event.type.id
      | _ => false

/-! ## Allocated events

Events are numbered as they are allocated. A number stays when its event is deleted, so that a
pointer to it can still be asked about. -/

/-- A `CORBA::Any*` that is not null: the number of the allocation it came from. -/
abbrev Ptr := ℕ

/-- The events allocated so far (event `p` is the `p`-th of them) and those deleted since. -/
structure Heap where
  events : List Any
  freed : List Ptr
  deriving DecidableEq, Repr

/-- `new CORBA::Any(event)`. -/
def Heap.alloc (h : Heap) (event : Any) : Ptr × Heap :=
  (h.events.length, { h with events := h.events ++ [event] })

/-- `delete p`, which does nothing for a null pointer. -/
def Heap.delete (h : Heap) : Option Ptr → Heap
  | none => h
  | some p => { h with freed := h.freed ++ [p] }

@[simp] theorem Heap.alloc_fst (h : Heap) (event : Any) : (h.alloc event).1 = h.events.length := rfl

@[simp] theorem Heap.alloc_events (h : Heap) (event : Any) :
    (h.alloc event).2.events = h.events ++ [event] := rfl

@[simp] theorem Heap.alloc_freed (h : Heap) (event : Any) : (h.alloc event).2.freed = h.freed := rfl

@[simp] theorem Heap.delete_events (h : Heap) (p : Option Ptr) :
    (h.delete p).events = h.events := by
  cases p <;> rfl

@[simp] theorem Heap.delete_freed (h : Heap) (p : Option Ptr) :
    (h.delete p).freed = h.freed ++ p.toList := by
  cases p <;> simp [Heap.delete]

/-! ## The queue -/

/-- `EventQueue`: a ring of slots, the next of which is written. -/
structure EventQueue where
  /-- `_next`: the next slot to which an event will be written. -/
  next : ℕ
  size : ℕ
  queue : List (Option Ptr)
  filter : Option Filter
  deriving DecidableEq, Repr

/-- `EventQueue::EventQueue`: one slot more than the requested length, all of them null. -/
def EventQueue.new (maxQueueLength : ℕ) (filter : Option Filter) : EventQueue :=
  { next := 0
    size := maxQueueLength + 1
    queue := List.replicate (maxQueueLength + 1) none
    filter := filter }

/-- The test of `append`: `!_filter.get() || _filter->keep(*event)`. -/
def EventQueue.keeps (q : EventQueue) (event : Any) : Bool :=
  match q.filter with
  | none => true
  | some f => f.keep event

/-- `_queue[i]`, null outside the array. -/
def EventQueue.slot (q : EventQueue) (i : ℤ) : Option Ptr :=
  if 0 ≤ i then (q.queue[i.toNat]?).join else none

@[simp] theorem EventQueue.slot_natCast (q : EventQueue) (i : ℕ) :
    q.slot i = (q.queue[i]?).join := by
  simp [EventQueue.slot]

/-- `EventQueue::append` for the event at `p`: an event that the filter rejects is left alone. -/
def EventQueue.append (q : EventQueue) (h : Heap) (p : Ptr) : EventQueue × Heap :=
  match h.events[p]? with
  | none => (q, h)
  | some event =>
      if q.keeps event then
        ({ q with queue := q.queue.set q.next (some p), next := (q.next + 1) % q.size },
          h.delete (q.slot q.next))
      else (q, h)

/-- `delete _queue[_next]`, the first thing `append` does with an event that is kept. -/
def EventQueue.deleteOld (q : EventQueue) (h : Heap) : Heap := h.delete (q.slot q.next)

/-- `_queue[_next]=event`. -/
def EventQueue.store (q : EventQueue) (p : Ptr) : EventQueue :=
  { q with queue := q.queue.set q.next (some p) }

/-- `_next=(_next+1)%_size`. -/
def EventQueue.advance (q : EventQueue) : EventQueue := { q with next := (q.next + 1) % q.size }

/-- Does the filter keep the event at `p`? -/
def EventQueue.keepsAt (q : EventQueue) (h : Heap) (p : Ptr) : Bool := (h.events[p]?).any q.keeps

theorem EventQueue.append_eq (q : EventQueue) (h : Heap) (p : Ptr) :
    q.append h p = if q.keepsAt h p then ((q.store p).advance, q.deleteOld h) else (q, h) := by
  unfold append keepsAt
  cases h.events[p]? with
  | none => rfl
  | some event => rfl

/-- `EventQueue::~EventQueue` deletes what is in the buffer. -/
def EventQueue.destroy (q : EventQueue) (h : Heap) : Heap :=
  q.queue.foldl Heap.delete h

/-! ## Readers

A reader has an index into the slots, and no count: it cannot tell how often the writer has been
round. -/

/-- The conversion of a `long` to the 32-bit `int` it is stored in. -/
def toInt (i : ℤ) : ℤ := Int.bmod i (2 ^ 32)

theorem toInt_of_lt {i : ℕ} (h : i < 2 ^ 31) : toInt i = i := by
  rw [toInt, Int.bmod_def]
  split <;> omega

/-- `EventQueue::Reader`: the next event to read. -/
structure Reader where
  next : ℤ
  deriving DecidableEq, Repr

/-- `Reader::Reader` starts at the slot the next event will be written to. -/
def Reader.new (q : EventQueue) : Reader := ⟨toInt q.next⟩

/-- `Reader::moreEvents`. -/
def Reader.moreEvents (r : Reader) (q : EventQueue) : Bool := r.next != q.next

/-- `Reader::nextEvent`: the pointer found in the reader's slot, and the reader moved on. -/
def Reader.nextEvent (r : Reader) (q : EventQueue) : Option Ptr × Reader :=
  (q.slot r.next, ⟨toInt ((r.next + 1).tmod q.size)⟩)

/-- A reader moves on to the slot of the next position, if it fits into an `int`. -/
theorem Reader.nextEvent_snd {n : ℕ} {q : EventQueue} (hsize : q.size = n + 1)
    (hn : n + 1 ≤ 2 ^ 31 - 1) (pos : ℕ) :
    (Reader.nextEvent ⟨((pos % (n + 1) : ℕ) : ℤ)⟩ q).2 = ⟨(((pos + 1) % (n + 1) : ℕ) : ℤ)⟩ := by
  have hadvance : (((pos % (n + 1) : ℕ) : ℤ) + 1).tmod q.size = (((pos + 1) % (n + 1) : ℕ) : ℤ) := by
    rw [hsize, ← Nat.mod_add_mod pos (n + 1) 1]
    exact (Int.ofNat_tmod _ _).symm
  have hlt : (pos + 1) % (n + 1) < 2 ^ 31 := by
    have : (pos + 1) % (n + 1) < n + 1 := Nat.mod_lt _ (Nat.succ_pos n)
    omega
  simp only [Reader.nextEvent, hadvance, toInt_of_lt hlt]

end OmniEvents
