import OmniEvents.Transfer
import OmniEvents.Lib.Transition
import Mathlib.Data.List.ReduceOption
import Mathlib.Data.List.Nodup
import Mathlib.Tactic.NormNum

set_option autoImplicit false

/-! # Who deletes an event

`ConsumerAdmin_i::send` takes ownership of the event it is given, and leaves it to
`EventQueue::append` and to the destructor of the queue to delete it. `append` forgets an event that
the filter rejects, so the ledger of the queue covers the kept events alone: what has been deleted
and what is in the buffer are together the events handed over that the filter keeps
(`OwnerInv.ledger`).

Sending a list of events is sending its events one after the other (`run_sendAll`), and a call of
`append` is one step: at a moment between two steps no event is on its way. -/

namespace OmniEvents

open Transition

/-! ## Events handed over one by one -/

/-- The queue of a channel, and the heap with its events. -/
structure EventOwner where
  admin : ConsumerAdmin
  heap : Heap
  deriving DecidableEq, Repr

/-- An event is copied, or handed over. -/
inductive EventOwner.Action where
  /-- A supplier's event is copied, for `send` to own it. -/
  | create (event : Any)
  /-- `send` hands event `p` to `append`. -/
  | send (p : Ptr)
  deriving DecidableEq, Repr

namespace EventOwner

/-- A channel of which nothing has been handed over yet. -/
def init (maxQueueLength : ℕ) (filter : Option Filter) : EventOwner :=
  ⟨⟨EventQueue.new maxQueueLength filter, []⟩, ⟨[], []⟩⟩

/-- An event is given away once. -/
def step (w : EventOwner) : Action → Option EventOwner
  | .create event => some { w with heap := (w.heap.alloc event).2 }
  | .send p =>
      if p < w.heap.events.length ∧ p ∉ w.admin.handed then
        some ⟨(w.admin.send w.heap p).1, (w.admin.send w.heap p).2⟩
      else none

/-- The heap once the queue is destroyed. -/
def destroy (w : EventOwner) : Heap := w.admin.queue.destroy w.heap

/-- Does the filter keep the event at `p`? -/
def kept (w : EventOwner) (p : Ptr) : Bool := w.admin.queue.keepsAt w.heap p

/-- The events handed over that are not deleted yet. -/
def undeleted (w : EventOwner) : List Ptr := w.admin.handed.filter (· ∉ w.heap.freed)

/-- Sending a list is a run in which each event is sent in turn. -/
theorem run_sendAll (w : EventOwner) (events : List Ptr) (hnodup : events.Nodup)
    (halloc : ∀ p ∈ events, p < w.heap.events.length) (hnew : ∀ p ∈ events, p ∉ w.admin.handed) :
    Run step w (events.map .send)
      = some ⟨(w.admin.sendAll w.heap events).1, (w.admin.sendAll w.heap events).2⟩ := by
  induction events generalizing w with
  | nil => rfl
  | cons p events ih =>
      rw [List.nodup_cons] at hnodup
      have hfirst : step w (.send p)
          = some ⟨(w.admin.send w.heap p).1, (w.admin.send w.heap p).2⟩ :=
        if_pos ⟨halloc p List.mem_cons_self, hnew p List.mem_cons_self⟩
      have hevents : (w.admin.send w.heap p).2.events = w.heap.events := by
        simp only [ConsumerAdmin.send, EventQueue.append]
        split
        · rfl
        · split <;> simp
      rw [List.map_cons, run_cons, hfirst, Option.bind_some, ConsumerAdmin.sendAll]
      refine ih _ hnodup.2 ?_ ?_
      · intro q hq
        show q < (w.admin.send w.heap p).2.events.length
        rw [hevents]
        exact halloc q (List.mem_cons_of_mem p hq)
      · intro q hq hmem
        have hmem : q ∈ w.admin.handed ++ [p] := hmem
        rcases List.mem_append.1 hmem with hmem | hmem
        · exact hnew q (List.mem_cons_of_mem p hq) hmem
        · exact hnodup.1 (List.mem_singleton.1 hmem ▸ hq)

/-! ## The ledger of the queue

Every event that was kept is in a slot or deleted. An event that the filter rejected is in neither
list, and nobody deletes it. -/

/-- Storing an event in a slot puts it in the place of the one found there. -/
theorem reduceOption_set_perm (slots : List (Option Ptr)) (i : ℕ) (hi : i < slots.length) (p : Ptr) :
    ((slots[i]?).join.toList ++ (slots.set i (some p)).reduceOption).Perm
      (p :: slots.reduceOption) := by
  have hslots : slots = slots.take i ++ slots[i] :: slots.drop (i + 1) := by
    rw [← List.drop_eq_getElem_cons hi, List.take_append_drop]
  have hold : slots.reduceOption
      = (slots.take i).reduceOption ++ (slots[i].toList ++ (slots.drop (i + 1)).reduceOption) := by
    conv_lhs => rw [hslots]
    rw [List.reduceOption_append]
    cases slots[i] with
    | none => simp [List.reduceOption_cons_of_none]
    | some q => simp [List.reduceOption_cons_of_some]
  have hset : (slots.set i (some p)).reduceOption
      = (slots.take i).reduceOption ++ p :: (slots.drop (i + 1)).reduceOption := by
    rw [List.set_eq_take_append_cons_drop, if_pos hi, List.reduceOption_append,
      List.reduceOption_cons_of_some]
  rw [List.getElem?_eq_getElem hi, Option.join_some, hold, hset]
  -- `p` goes to the front, and the old event into its place
  refine (List.perm_append_comm_assoc _ _ _).trans ?_
  refine (List.Perm.append_left _ List.perm_middle).trans ?_
  exact List.perm_middle

/-- Everything handed over and kept is in the queue or has been deleted, once. -/
structure OwnerInv (n : ℕ) (w : EventOwner) : Prop where
  size : w.admin.queue.size = n + 1
  length : w.admin.queue.queue.length = n + 1
  next : w.admin.queue.next < n + 1
  handed : w.admin.handed.Nodup
  allocated : ∀ p ∈ w.admin.handed, p < w.heap.events.length
  /-- What is deleted and what is stored are the kept events. -/
  ledger : (w.heap.freed ++ w.admin.queue.queue.reduceOption).Perm (w.admin.handed.filter w.kept)

theorem OwnerInv.init (n : ℕ) (filter : Option Filter) : OwnerInv n (init n filter) where
  size := rfl
  length := List.length_replicate
  next := Nat.succ_pos n
  handed := List.nodup_nil
  allocated := by simp [EventOwner.init]
  ledger := by
    show ([] ++ (List.replicate (n + 1) none).reduceOption).Perm []
    simp [List.reduceOption]

/-- An event keeps its verdict: neither the filter nor an event ever changes. -/
theorem filter_kept_eq {w w' : EventOwner} {ps : List Ptr} {event : List Any}
    (hps : ∀ p ∈ ps, p < w.heap.events.length) (hevents : w'.heap.events = w.heap.events ++ event)
    (hfilter : w'.admin.queue.filter = w.admin.queue.filter) :
    ps.filter w'.kept = ps.filter w.kept := by
  refine List.filter_congr ?_
  intro p hp
  have hkeeps : w'.admin.queue.keeps = w.admin.queue.keeps := by
    unfold EventQueue.keeps
    rw [hfilter]
  rw [kept, kept, EventQueue.keepsAt, EventQueue.keepsAt, hkeeps, hevents,
    List.getElem?_append_left (hps p hp)]

theorem OwnerInv.create {n : ℕ} {w : EventOwner} (hinv : OwnerInv n w) (event : Any) :
    OwnerInv n { w with heap := (w.heap.alloc event).2 } where
  size := hinv.size
  length := hinv.length
  next := hinv.next
  handed := hinv.handed
  allocated := by
    intro p hp
    rw [Heap.alloc_events, List.length_append]
    exact Nat.lt_add_right _ (hinv.allocated p hp)
  ledger := by
    have hverdict := @filter_kept_eq w { w with heap := (w.heap.alloc event).2 } w.admin.handed
      [event] hinv.allocated (Heap.alloc_events w.heap event) rfl
    show (w.heap.freed ++ w.admin.queue.queue.reduceOption).Perm (w.admin.handed.filter _)
    rw [hverdict]
    exact hinv.ledger

theorem OwnerInv.send {n : ℕ} {w : EventOwner} (hinv : OwnerInv n w) {p : Ptr}
    (halloc : p < w.heap.events.length) (hnew : p ∉ w.admin.handed) :
    OwnerInv n ⟨(w.admin.send w.heap p).1, (w.admin.send w.heap p).2⟩ := by
  have hhanded : (w.admin.handed ++ [p]).Nodup :=
    hinv.handed.append (List.nodup_singleton p) (List.disjoint_singleton.2 hnew)
  have hallocated : ∀ q ∈ w.admin.handed ++ [p], q < w.heap.events.length := by
    intro q hq
    rcases List.mem_append.1 hq with hq | hq
    · exact hinv.allocated q hq
    · exact List.mem_singleton.1 hq ▸ halloc
  have hget : w.heap.events[p]? = some w.heap.events[p] := List.getElem?_eq_getElem halloc
  have hkept : w.kept p = w.admin.queue.keeps w.heap.events[p] := by
    rw [kept, EventQueue.keepsAt, hget, Option.any_some]
  simp only [ConsumerAdmin.send, EventQueue.append, hget]
  split
  · next hkeep =>
      refine ⟨hinv.size, by simp [hinv.length], ?_, hhanded, ?_, ?_⟩
      · show (w.admin.queue.next + 1) % w.admin.queue.size < n + 1
        rw [hinv.size]
        exact Nat.mod_lt _ (Nat.succ_pos n)
      · intro q hq
        rw [Heap.delete_events]
        exact hallocated q hq
      · have hverdict := @filter_kept_eq w
          ⟨⟨{ w.admin.queue with
                queue := w.admin.queue.queue.set w.admin.queue.next (some p)
                next := (w.admin.queue.next + 1) % w.admin.queue.size }, w.admin.handed ++ [p]⟩,
            w.heap.delete (w.admin.queue.slot w.admin.queue.next)⟩
          (w.admin.handed ++ [p]) [] hallocated (by simp) rfl
        have hnext : w.admin.queue.next < w.admin.queue.queue.length := hinv.length ▸ hinv.next
        rw [hverdict, Heap.delete_freed, EventQueue.slot_natCast, List.append_assoc,
          List.filter_append, List.filter_singleton, hkept, hkeep]
        -- the event moves from the buffer to the deleted ones, and the new one takes its slot
        refine ((reduceOption_set_perm _ _ hnext p).append_left w.heap.freed).trans ?_
        refine List.perm_middle.trans ?_
        exact (hinv.ledger.cons p).trans (List.perm_append_singleton p _).symm
  · next hkeep =>
      refine ⟨hinv.size, hinv.length, hinv.next, hhanded, hallocated, ?_⟩
      have hverdict := @filter_kept_eq w ⟨⟨w.admin.queue, w.admin.handed ++ [p]⟩, w.heap⟩
        (w.admin.handed ++ [p]) [] hallocated (by simp) rfl
      rw [hverdict, List.filter_append, List.filter_singleton, hkept, Bool.eq_false_iff.2 hkeep]
      simpa using hinv.ledger

theorem OwnerInv.step {n : ℕ} {w w' : EventOwner} (hinv : OwnerInv n w) {a : Action}
    (h : step w a = some w') : OwnerInv n w' := by
  cases a with
  | create event =>
      cases h
      exact hinv.create event
  | send p =>
      simp only [EventOwner.step] at h
      split at h
      · next hp =>
          cases h
          exact hinv.send hp.1 hp.2
      · cases h

theorem ownerInv_of_run {n : ℕ} {filter : Option Filter} {acts : List Action} {w : EventOwner}
    (hrun : Run EventOwner.step (EventOwner.init n filter) acts = some w) : OwnerInv n w :=
  Run.invariant (fun _ _ _ hinv h => hinv.step h) (OwnerInv.init n filter) hrun

/-! ## After the destruction of the queue -/

theorem foldl_delete_freed (slots : List (Option Ptr)) (h : Heap) :
    (slots.foldl Heap.delete h).freed = h.freed ++ slots.reduceOption := by
  induction slots generalizing h with
  | nil => simp
  | cons slot slots ih =>
      rw [List.foldl_cons, ih, Heap.delete_freed]
      cases slot with
      | none => simp [List.reduceOption_cons_of_none]
      | some p => simp [List.reduceOption_cons_of_some]

/-- The destructor deletes what `append` has not: every kept event is deleted once, and no other. -/
theorem OwnerInv.destroy_perm {n : ℕ} {w : EventOwner} (hinv : OwnerInv n w) :
    w.destroy.freed.Perm (w.admin.handed.filter w.kept) := by
  unfold EventOwner.destroy EventQueue.destroy
  rw [foldl_delete_freed]
  exact hinv.ledger

/-- No event is deleted twice, whether the filter keeps it or not. -/
theorem OwnerInv.destroy_nodup {n : ℕ} {w : EventOwner} (hinv : OwnerInv n w) :
    w.destroy.freed.Nodup :=
  hinv.destroy_perm.nodup_iff.2 (hinv.handed.filter _)

theorem OwnerInv.mem_destroy_iff {n : ℕ} {w : EventOwner} (hinv : OwnerInv n w) {p : Ptr} :
    p ∈ w.destroy.freed ↔ p ∈ w.admin.handed ∧ w.kept p = true := by
  rw [hinv.destroy_perm.mem_iff, List.mem_filter]

/-- If all events are kept, those not deleted are those in the buffer. -/
theorem OwnerInv.undeleted_perm {n : ℕ} {w : EventOwner} (hinv : OwnerInv n w)
    (hkept : ∀ p ∈ w.admin.handed, w.kept p = true) :
    w.undeleted.Perm w.admin.queue.queue.reduceOption := by
  have hledger := hinv.ledger
  rw [List.filter_eq_self.2 hkept] at hledger
  have hdisjoint := (hledger.nodup_iff.2 hinv.handed).disjoint
  have hstored : w.admin.queue.queue.reduceOption.filter (· ∉ w.heap.freed)
      = w.admin.queue.queue.reduceOption :=
    List.filter_eq_self.2 (fun p hp => decide_eq_true (fun hfreed => hdisjoint hfreed hp))
  have hfreed : w.heap.freed.filter (· ∉ w.heap.freed) = [] :=
    List.filter_eq_nil_iff.2 (fun p hp => by simp [hp])
  have hperm := (hledger.filter (fun p => decide (p ∉ w.heap.freed))).symm
  rwa [List.filter_append, hfreed, hstored, List.nil_append] at hperm

theorem OwnerInv.undeleted_le {n : ℕ} {w : EventOwner} (hinv : OwnerInv n w)
    (hkept : ∀ p ∈ w.admin.handed, w.kept p = true) : w.undeleted.length ≤ n + 1 := by
  rw [(hinv.undeleted_perm hkept).length_eq, ← hinv.length]
  exact List.reduceOption_length_le _

/-! ## The events handed over so far -/

/-- A step adds events and events handed over at the end of what was there. -/
theorem step_extends {w w' : EventOwner} {a : Action} (h : step w a = some w') :
    w.admin.handed <+: w'.admin.handed ∧ w.heap.events <+: w'.heap.events ∧
      w'.admin.queue.filter = w.admin.queue.filter := by
  cases a with
  | create event =>
      cases h
      exact ⟨List.prefix_rfl, List.prefix_append _ _, rfl⟩
  | send p =>
      simp only [step] at h
      split at h
      · cases h
        simp only [ConsumerAdmin.send, EventQueue.append]
        refine ⟨List.prefix_append _ _, ?_⟩
        split
        · exact ⟨List.prefix_rfl, rfl⟩
        · split
          · exact ⟨by rw [Heap.delete_events], rfl⟩
          · exact ⟨List.prefix_rfl, rfl⟩
      · cases h

theorem run_extends {w w' : EventOwner} {acts : List Action} (h : Run step w acts = some w') :
    w.admin.handed <+: w'.admin.handed ∧ w.heap.events <+: w'.heap.events ∧
      w'.admin.queue.filter = w.admin.queue.filter := by
  refine @Run.invariant _ _ step (fun w' => w.admin.handed <+: w'.admin.handed ∧
    w.heap.events <+: w'.heap.events ∧ w'.admin.queue.filter = w.admin.queue.filter) ?_ _ _ _ ?_ h
  · rintro w₁ a w₂ ⟨hhanded, hevents, hfilter⟩ hstep
    obtain ⟨hhanded', hevents', hfilter'⟩ := step_extends hstep
    exact ⟨hhanded.trans hhanded', hevents.trans hevents', hfilter'.trans hfilter⟩
  · exact ⟨List.prefix_rfl, List.prefix_rfl, rfl⟩

/-- An event that is kept in the end was kept when it was handed over. -/
theorem kept_of_run {n : ℕ} {w w' : EventOwner} {acts : List Action} (hinv : OwnerInv n w)
    (h : Run step w acts = some w') (hkept : ∀ p ∈ w'.admin.handed, w'.kept p = true) :
    ∀ p ∈ w.admin.handed, w.kept p = true := by
  obtain ⟨hhanded, ⟨events, hevents⟩, hfilter⟩ := run_extends h
  have hverdict := filter_kept_eq hinv.allocated hevents.symm hfilter
  have hall : w.admin.handed.filter w'.kept = w.admin.handed :=
    List.filter_eq_self.2 (fun p hp => hkept p (hhanded.subset hp))
  exact List.filter_eq_self.1 (hverdict.symm.trans hall)

/-- **Every event is deleted exactly once, within the bound, exactly if the filter keeps all of
    them.** The bound is that of the buffer: one event more than the queue may hold. -/
theorem deleted_once_iff (n : ℕ) (filter : Option Filter) (acts : List Action) (w : EventOwner)
    (hrun : Run step (init n filter) acts = some w) :
    ((∀ p ∈ w.admin.handed, w.destroy.freed.count p = 1) ∧
      ∀ acts' w', acts' <+: acts → Run step (init n filter) acts' = some w' →
        w'.undeleted.length ≤ n + 1) ↔
    ∀ p ∈ w.admin.handed, w.kept p = true := by
  have hinv := ownerInv_of_run hrun
  constructor
  · rintro ⟨hcount, -⟩ p hp
    have hpos : 0 < w.destroy.freed.count p := by rw [hcount p hp]; exact Nat.one_pos
    exact (hinv.mem_destroy_iff.1 (List.count_pos_iff.1 hpos)).2
  · intro hkept
    refine ⟨?_, ?_⟩
    · intro p hp
      exact List.count_eq_one_of_mem hinv.destroy_nodup (hinv.mem_destroy_iff.2 ⟨hp, hkept p hp⟩)
    · rintro acts' w' ⟨rest, rfl⟩ hrun'
      have hinv' := ownerInv_of_run hrun'
      rw [run_append, hrun', Option.bind_some] at hrun
      exact hinv'.undeleted_le (kept_of_run hinv' hrun hkept)

/-- Two events for the runs below, one of a kind that the filter keeps. -/
def anyOf (kind : TCKind) : Any := ⟨⟨kind, []⟩, []⟩

/-- Three events through a queue of length one: the first is deleted by `append`. -/
theorem deleted_once_iff_three :
    ∃ w, Run step (init 1 (some (.FilterByTCKind .tk_long)))
        [.create (anyOf .tk_long), .send 0, .create (anyOf .tk_long), .send 1,
          .create (anyOf .tk_long), .send 2] = some w ∧
      w.heap.freed = [0] ∧ ∀ p ∈ w.admin.handed, w.destroy.freed.count p = 1 :=
  ⟨_, rfl, by decide, ((deleted_once_iff 1 (some (.FilterByTCKind .tk_long))
    [.create (anyOf .tk_long), .send 0, .create (anyOf .tk_long), .send 1,
      .create (anyOf .tk_long), .send 2] _ rfl).2 (by decide)).1⟩

/-- A rejected event is never deleted, and rejected events pile up past any bound. -/
theorem rejected_never_deleted :
    ∃ w, Run step (init 1 (some (.FilterByTCKind .tk_long)))
        [.create (anyOf .tk_short), .send 0, .create (anyOf .tk_short), .send 1,
          .create (anyOf .tk_short), .send 2] = some w ∧
      0 ∈ w.admin.handed ∧ w.destroy.freed.count 0 = 0 ∧ ¬ w.undeleted.length ≤ 1 + 1 :=
  ⟨_, rfl, by decide, by decide, by decide⟩

end EventOwner

end OmniEvents
