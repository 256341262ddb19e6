import OmniEvents.Lib.Counting
import OmniEvents.Lib.Transition

set_option autoImplicit false

/-! # Deferred requests

`Orb::run` polls the deferred requests with `_deferredRequestsLock` held, and drops the references to
their callbacks after it has let the lock go: the last reference to a proxy takes its outstanding
request through `deferredRequest`, which needs the lock. The final clean-up does both under the lock.
All other threads come in between: they make and drop references, push through proxies, and call
`deferredRequest`, which looks at the flag and adds its reference before it waits for the lock (in
one step: the caller has a reference of its own, which keeps the callback alive between the two). The
exception of a reply is found in its environment; `poll_response` and `get_response` do not raise. -/

namespace OmniEvents

open Transition Counting

/-- What a request comes back with. -/
inductive DeferredReply where
  | returned
  | exception
  deriving DecidableEq, Repr

/-- A `Callback`: a `ProxyPushSupplier_i`, or a `Connection`, which makes no requests of its own. -/
structure CallbackObject where
  refCount : ℕ
  /-- The references of the POA, the manager and the threads that use the object. -/
  others : ℕ
  req : Option ℕ
  deriving DecidableEq, Repr

/-- Where the thread in `Orb::run` is. It holds the lock while it polls, with an iterator and
    `usedCallbacks`, and while it cleans up. -/
inductive RunPhase where
  | checking
  | asleep
  | polling (next : ℕ) (usedCallbacks : List ℕ)
  | releasing (usedCallbacks : List ℕ)
  | cleaning
  | returned
  /-- It waits for the lock that it holds itself. -/
  | deadlocked
  deriving DecidableEq, Repr

/-- Requests and callbacks are numbered in the order in which they are made. -/
structure DeferredState where
  objects : List CallbackObject
  /-- `_deferredRequests`: the request and its callback, if any. -/
  deferredRequests : List (ℕ × Option ℕ)
  /-- The calls of `deferredRequest` that wait for the lock. -/
  arriving : List (ℕ × Option ℕ)
  shutdownRequested : Bool
  phase : RunPhase
  requests : ℕ
  replies : List (ℕ × DeferredReply)
  /-- The requests stored before the end of the final clean-up. -/
  adopted : List ℕ
  released : List ℕ
  /-- The requests that a callback was invoked for. -/
  called : List ℕ
  /-- The callbacks that `deferredRequest` took a reference to, and those that `run` dropped one of. -/
  added : List ℕ
  removed : List ℕ
  deriving DecidableEq, Repr

/-- A step of one of the threads, or the arrival of a reply. -/
inductive DeferredState.Action where
  | new
  | addRef (o : ℕ)
  | removeRef (o : ℕ)
  /-- A proxy pushes an event, and picks up the reply. -/
  | push (o : ℕ)
  | collect (o : ℕ)
  /-- `deferredRequest` up to the lock, and from there on. -/
  | defer (callback : Option ℕ)
  | store (k : ℕ)
  | reply (r : ℕ) (reply : DeferredReply)
  | shutdown
  | run
  deriving DecidableEq, Repr

/-- `usedCallbacks`. -/
def RunPhase.used : RunPhase → List ℕ
  | polling _ usedCallbacks | releasing usedCallbacks => usedCallbacks
  | _ => []

/-- Does the thread hold the lock? -/
def RunPhase.locks : RunPhase → Bool
  | polling _ _ | cleaning | deadlocked => true
  | _ => false

namespace CallbackObject

/-- The object after `_remove_ref`, and the request that `~Proxy` defers if it was the last one. -/
def dropRef (x : CallbackObject) : CallbackObject × Option ℕ :=
  if x.refCount = 1 then ({ x with refCount := 0, req := none }, x.req)
  else ({ x with refCount := x.refCount - 1 }, none)

end CallbackObject

namespace DeferredState

/-- Before the first request. -/
def init : DeferredState :=
  { objects := [], deferredRequests := [], arriving := [], shutdownRequested := false
    phase := .checking, requests := 0, replies := [], adopted := [], released := [], called := []
    added := [], removed := [] }

/-- An object that somebody has a reference to. -/
def object (s : DeferredState) (o : ℕ) : Option CallbackObject :=
  match s.objects[o]? with
  | none => none
  | some x => if x.others = 0 then none else some x

/-- One step of the thread in `Orb::run`. -/
def run (s : DeferredState) : Option DeferredState :=
  match s.phase with
  | .checking => some { s with phase := if s.shutdownRequested then .cleaning else .asleep }
  | .asleep => some { s with phase := .polling 0 [] }
  | .polling next usedCallbacks =>
      match s.deferredRequests[next]? with
      | none => some { s with phase := .releasing usedCallbacks }
      | some (r, callback) =>
          match s.replies.lookup r with
          | none => some { s with phase := .polling (next + 1) usedCallbacks }
          | some reply =>
              some { s with
                called :=
                  if reply = .returned ∧ callback.isSome then s.called ++ [r] else s.called
                released := s.released ++ [r]
                deferredRequests := s.deferredRequests.eraseIdx next
                phase := .polling next (usedCallbacks ++ callback.toList) }
  | .releasing [] => some { s with phase := .checking }
  | .releasing (o :: usedCallbacks) =>
      match s.objects[o]? with
      | none => none
      | some x =>
          some { s with
            objects := s.objects.set o x.dropRef.1
            removed := s.removed ++ [o]
            -- `~Proxy` finds the lock free
            deferredRequests := s.deferredRequests ++ x.dropRef.2.toList.map fun r => (r, none)
            adopted := s.adopted ++ x.dropRef.2.toList
            phase := .releasing usedCallbacks }
  | .cleaning =>
      match s.deferredRequests with
      | [] => some { s with phase := .returned }
      | (r, callback) :: rest =>
          -- `get_response` waits for the reply
          match s.replies.lookup r, callback with
          | none, _ => none
          | some _, none => some { s with released := s.released ++ [r], deferredRequests := rest }
          | some _, some o =>
              match s.objects[o]? with
              | none => none
              | some x =>
                  let s := { s with released := s.released ++ [r], removed := s.removed ++ [o]
                                    objects := s.objects.set o x.dropRef.1 }
                  match x.dropRef.2 with
                  | some _ => some { s with phase := .deadlocked }
                  | none => some { s with deferredRequests := rest }
  | .returned | .deadlocked => none

/-- The steps. `run` and the calls of `deferredRequest` exclude each other by the lock, everything
    else goes on beside them. -/
def step (s : DeferredState) : Action → Option DeferredState
  | .new => some { s with objects := s.objects ++ [⟨1, 1, none⟩] }
  | .addRef o =>
      match s.object o with
      | none => none
      | some x =>
          some { s with
            objects := s.objects.set o { x with refCount := x.refCount + 1, others := x.others + 1 } }
  | .removeRef o =>
      match s.object o with
      | none => none
      | some x =>
          some { s with
            objects := s.objects.set o { x with others := x.others - 1 }.dropRef.1
            arriving := s.arriving ++ x.dropRef.2.toList.map fun r => (r, none) }
  | .push o =>
      match s.object o with
      | none => none
      | some x =>
          match x.req with
          | some _ => none
          | none =>
              some { s with objects := s.objects.set o { x with req := some s.requests }
                            requests := s.requests + 1 }
  | .collect o =>
      match s.object o with
      | none => none
      | some x =>
          match x.req with
          | none => none
          | some r =>
              if (s.replies.lookup r).isSome then
                some { s with objects := s.objects.set o { x with req := none }
                              released := s.released ++ [r] }
              else none
  | .defer none =>
      some { s with arriving := s.arriving ++ [(s.requests, none)], requests := s.requests + 1 }
  | .defer (some o) =>
      match s.object o with
      | none => none
      | some x =>
          if s.shutdownRequested then
            some { s with arriving := s.arriving ++ [(s.requests, none)], requests := s.requests + 1 }
          else
            some { s with
              objects := s.objects.set o { x with refCount := x.refCount + 1 }
              added := s.added ++ [o]
              arriving := s.arriving ++ [(s.requests, some o)]
              requests := s.requests + 1 }
  | .store k =>
      match s.arriving[k]? with
      | none => none
      | some e =>
          if s.phase.locks then none
          else
            some { s with
              arriving := s.arriving.eraseIdx k
              deferredRequests := s.deferredRequests ++ [e]
              adopted := if s.phase = .returned then s.adopted else s.adopted ++ [e.1] }
  | .reply r reply =>
      if r < s.requests ∧ s.replies.lookup r = none then
        some { s with replies := (r, reply) :: s.replies }
      else none
  | .shutdown => some { s with shutdownRequested := true }
  | .run => s.run

/-- The final clean-up does not begin before the callbacks that have a reference are stored, and it
    does not drop the last reference to a proxy with an outstanding request. -/
def timely (s : DeferredState) : Action → Bool
  | .run =>
      match s.phase, s.deferredRequests with
      | .checking, _ => !s.shutdownRequested || s.arriving.all (·.2.isNone)
      | .cleaning, (_, some o) :: _ =>
          (s.objects[o]?).all fun x => !(decide (x.refCount = 1) && x.req.isSome)
      | _, _ => true
  | _ => true

/-- What is promised of the deferred requests. -/
structure Settled (s : DeferredState) : Prop where
  /-- The thread in `run` does not wait for the lock that it holds. -/
  not_deadlocked : s.phase ≠ .deadlocked
  released : ∀ r, s.released.count r ≤ 1
  called : ∀ r, s.called.count r ≤ 1
  normal : ∀ r ∈ s.called, s.replies.lookup r = some .returned
  removed : ∀ o, s.removed.count o ≤ s.added.count o
  /-- When `run` has returned, everything that it has adopted is released. -/
  all_released : s.phase = .returned → ∀ r ∈ s.adopted, s.released.count r = 1
  all_removed : s.phase = .returned → ∀ o, s.removed.count o = s.added.count o

/-! ## Where the requests and the references are

A request waits for the lock, is stored, or is with the object that sent it. Each place is counted,
and the sums are what the steps of the threads keep. -/

/-- How often a request is in a queue. -/
def queued (l : List (ℕ × Option ℕ)) (r : ℕ) : ℕ := l.countP fun e => decide (e.1 = r)

/-- How often a queue has a callback to an object. -/
def callbacks (l : List (ℕ × Option ℕ)) (o : ℕ) : ℕ := l.countP fun e => decide (e.2 = some o)

/-- How many objects have a request of their own in flight. -/
def outstanding (objects : List CallbackObject) (r : ℕ) : ℕ :=
  objects.countP fun x => decide (x.req = some r)

/-- The references that `run` is to drop. -/
def owed (s : DeferredState) (o : ℕ) : ℕ :=
  callbacks s.deferredRequests o + callbacks s.arriving o + s.phase.used.count o

/-- The places that a request is in until it is released. -/
def places (s : DeferredState) (r : ℕ) : ℕ :=
  queued s.deferredRequests r + queued s.arriving r + outstanding s.objects r

section Counts

variable {l m : List (ℕ × Option ℕ)} {e : ℕ × Option ℕ} {o r k : ℕ} {x y : CallbackObject}
  {objects : List CallbackObject}

@[simp] theorem queued_append : queued (l ++ m) r = queued l r + queued m r := List.countP_append

@[simp] theorem callbacks_append : callbacks (l ++ m) o = callbacks l o + callbacks m o :=
  List.countP_append

@[simp] theorem queued_cons : queued (e :: l) r = queued l r + if e.1 = r then 1 else 0 := by
  simp [queued, List.countP_cons]

@[simp] theorem callbacks_cons :
    callbacks (e :: l) o = callbacks l o + if e.2 = some o then 1 else 0 := by
  simp [callbacks, List.countP_cons]

@[simp] theorem queued_nil : queued [] r = 0 := rfl

@[simp] theorem callbacks_nil : callbacks [] o = 0 := rfl

theorem queued_eraseIdx (h : l[k]? = some e) :
    queued (l.eraseIdx k) r + (if e.1 = r then 1 else 0) = queued l r := by
  have := countP_eraseIdx (p := fun e : ℕ × Option ℕ => decide (e.1 = r)) h
  by_cases he : e.1 = r <;> simpa [queued, he] using this

theorem callbacks_eraseIdx (h : l[k]? = some e) :
    callbacks (l.eraseIdx k) o + (if e.2 = some o then 1 else 0) = callbacks l o := by
  have := countP_eraseIdx (p := fun e : ℕ × Option ℕ => decide (e.2 = some o)) h
  by_cases he : e.2 = some o <;> simpa [callbacks, he] using this

theorem outstanding_set (h : objects[o]? = some x) :
    outstanding (objects.set o y) r + (if x.req = some r then 1 else 0) =
      outstanding objects r + if y.req = some r then 1 else 0 := by
  have := countP_set (p := fun x : CallbackObject => decide (x.req = some r)) (b := y) h
  by_cases hx : x.req = some r <;> by_cases hy : y.req = some r <;>
    simpa [outstanding, hx, hy] using this

theorem callbacks_eq_zero : callbacks l o = 0 ↔ ∀ e ∈ l, e.2 ≠ some o := by
  simp [callbacks, List.countP_eq_zero]

theorem queued_pos (h : e ∈ l) : 0 < queued l e.1 := List.countP_pos_iff.2 ⟨e, h, by simp⟩

theorem queued_orphans (req : Option ℕ) :
    queued (req.toList.map fun r => (r, none)) r = if req = some r then 1 else 0 := by
  cases req <;> simp

theorem callbacks_orphans (req : Option ℕ) :
    callbacks (req.toList.map fun r => (r, none)) o = 0 := by
  cases req <;> simp

end Counts

theorem object_eq_some {s : DeferredState} {o : ℕ} {x : CallbackObject} :
    s.object o = some x ↔ s.objects[o]? = some x ∧ 0 < x.others := by
  unfold object
  cases s.objects[o]? with
  | none => simp
  | some y =>
      by_cases hy : y.others = 0
      · simp only [hy, if_true, Option.some.injEq]
        constructor
        · exact nofun
        · rintro ⟨rfl, hpos⟩
          omega
      · simp only [hy, if_false, Option.some.injEq]
        constructor
        · rintro rfl
          exact ⟨rfl, Nat.pos_of_ne_zero hy⟩
        · exact And.left

/-- A proxy keeps its request, or hands it over when the last reference goes. -/
theorem dropRef_spec (x : CallbackObject) :
    x.dropRef.1.refCount = x.refCount - 1 ∧ x.dropRef.1.others = x.others ∧
      ∀ r, (if x.dropRef.1.req = some r then 1 else 0) + (if x.dropRef.2 = some r then 1 else 0) =
        if x.req = some r then 1 else 0 := by
  unfold CallbackObject.dropRef
  split
  · next h => exact ⟨by simp [h], rfl, by simp⟩
  · exact ⟨rfl, rfl, by simp⟩

/-! ## The invariant -/

/-- Every request is in one place until it is released, and an object has a reference for each
    callback to it that is kept somewhere. -/
structure Inv (s : DeferredState) : Prop where
  refCount : ∀ o x, s.objects[o]? = some x → x.refCount = x.others + s.owed o
  known : ∀ o, s.objects.length ≤ o → s.owed o = 0
  added : ∀ o, s.added.count o = s.removed.count o + s.owed o
  placed : ∀ r, s.released.count r + s.places r = if r < s.requests then 1 else 0
  adopted : ∀ r ∈ s.adopted, s.released.count r + queued s.deferredRequests r = 1
  called : ∀ r, s.called.count r ≤ s.released.count r
  normal : ∀ r ∈ s.called, s.replies.lookup r = some .returned
  closing : s.phase = .cleaning ∨ s.phase = .returned →
    s.shutdownRequested = true ∧ ∀ o, callbacks s.arriving o = 0
  late : s.phase = .returned → (∀ r ∈ s.adopted, queued s.deferredRequests r = 0) ∧
    ∀ o, callbacks s.deferredRequests o = 0
  not_deadlocked : s.phase ≠ .deadlocked

theorem Inv.called_release {s : DeferredState} (h : s.Inv) (r r' : ℕ) :
    s.called.count r' ≤ (s.released ++ [r]).count r' := by
  rw [List.count_append]
  exact Nat.le_trans (h.called r') (Nat.le_add_right _ _)

theorem Inv.settled {s : DeferredState} (h : s.Inv) : s.Settled where
  not_deadlocked := h.not_deadlocked
  released r := by
    have := h.placed r
    split at this <;> omega
  called r := by
    have hplaced := h.placed r
    have hcalled := h.called r
    split at hplaced <;> omega
  normal := h.normal
  removed o := by
    have := h.added o
    omega
  all_released hreturned r hr := by
    have hadopted := h.adopted r hr
    rw [(h.late hreturned).1 r hr] at hadopted
    exact hadopted
  all_removed hreturned o := by
    have hadded := h.added o
    rw [owed, (h.late hreturned).2 o, (h.closing (Or.inr hreturned)).2 o, hreturned] at hadded
    exact hadded.symm

/-! ## The steps of the other threads -/

section Steps

variable {s t : DeferredState} {o r k : ℕ} {x y : CallbackObject}

/-- The reference counts when one object changes. -/
theorem refCount_set {objects : List CallbackObject} {f g : ℕ → ℕ}
    (h : ∀ o x, objects[o]? = some x → x.refCount = x.others + f o)
    (hy : y.refCount = y.others + g o) (hg : ∀ o', o' ≠ o → g o' = f o') :
    ∀ o' x', (objects.set o y)[o']? = some x' → x'.refCount = x'.others + g o' := by
  intro o' x' hx'
  by_cases ho : o' = o
  · subst ho
    rw [List.getElem?_set_self' ] at hx'
    obtain ⟨-, -, rfl⟩ := Option.map_eq_some_iff.1 hx'
    exact hy
  · rw [List.getElem?_set_ne (Ne.symm ho)] at hx'
    rw [hg o' ho]
    exact h o' x' hx'

theorem inv_new (hs : s.Inv) : Inv { s with objects := s.objects ++ [⟨1, 1, none⟩] } where
  refCount o x hx := by
    rcases Nat.lt_or_ge o s.objects.length with hlt | hge
    · rw [List.getElem?_append_left hlt] at hx
      exact hs.refCount o x hx
    · rw [List.getElem?_append_right hge, List.getElem?_singleton] at hx
      split at hx
      · cases hx
        show 1 = 1 + s.owed o
        rw [hs.known o hge]
      · cases hx
  known o ho := by
    rw [List.length_append] at ho
    exact hs.known o (by omega)
  added := hs.added
  placed r := by
    have := hs.placed r
    unfold places outstanding at this ⊢
    simpa using this
  adopted := hs.adopted
  called := hs.called
  normal := hs.normal
  closing := hs.closing
  late := hs.late
  not_deadlocked := hs.not_deadlocked

/-- An object changes, but not its request. -/
theorem inv_set (hs : s.Inv) (hx : s.objects[o]? = some x) (hy : y.refCount = y.others + s.owed o)
    (hreq : y.req = x.req) : Inv { s with objects := s.objects.set o y } where
  refCount := refCount_set hs.refCount hy fun _ _ => rfl
  known o ho := by
    rw [List.length_set] at ho
    exact hs.known o ho
  added := hs.added
  placed r := by
    have hplaced := hs.placed r
    have hset := outstanding_set (y := y) (r := r) hx
    rw [hreq] at hset
    unfold places at hplaced ⊢
    simp only at hset ⊢
    omega
  adopted := hs.adopted
  called := hs.called
  normal := hs.normal
  closing := hs.closing
  late := hs.late
  not_deadlocked := hs.not_deadlocked

/-- The references are accounted for as before if nothing that they are counted by changes. -/
theorem refs_of_owed (hs : s.Inv) (howed : ∀ o, t.owed o = s.owed o)
    (hobjects : t.objects = s.objects) (hadded : t.added = s.added)
    (hremoved : t.removed = s.removed) :
    (∀ o x, t.objects[o]? = some x → x.refCount = x.others + t.owed o) ∧
      (∀ o, t.objects.length ≤ o → t.owed o = 0) ∧
        ∀ o, t.added.count o = t.removed.count o + t.owed o := by
  rw [hobjects, hadded, hremoved]
  refine ⟨?_, ?_, ?_⟩
  · intro o x hx
    rw [howed]
    exact hs.refCount o x hx
  · intro o ho
    rw [howed]
    exact hs.known o ho
  · intro o
    rw [howed]
    exact hs.added o

/-- The thread in `run` drops a reference that it owed. -/
theorem refs_of_dropRef (hs : s.Inv) (hx : s.objects[o]? = some x)
    (howed : ∀ o', t.owed o' + (if o = o' then 1 else 0) = s.owed o')
    (hobjects : t.objects = s.objects.set o x.dropRef.1) (hadded : t.added = s.added)
    (hremoved : t.removed = s.removed ++ [o]) :
    (∀ o x, t.objects[o]? = some x → x.refCount = x.others + t.owed o) ∧
      (∀ o, t.objects.length ≤ o → t.owed o = 0) ∧
        ∀ o, t.added.count o = t.removed.count o + t.owed o := by
  obtain ⟨hcount, hothers, -⟩ := dropRef_spec x
  rw [hobjects, hadded, hremoved]
  refine ⟨refCount_set hs.refCount ?_ ?_, ?_, ?_⟩
  · have hrefs := hs.refCount o x hx
    have howed := howed o
    rw [if_pos rfl] at howed
    omega
  · intro o' ho'
    have := howed o'
    rw [if_neg (Ne.symm ho')] at this
    omega
  · intro o' ho'
    rw [List.length_set] at ho'
    have := howed o'
    have := hs.known o' ho'
    omega
  · intro o'
    have hadded := hs.added o'
    have howed := howed o'
    simp only [List.count_append, List.count_singleton, beq_iff_eq]
    omega

theorem inv_removeRef (hs : s.Inv) (hx : s.objects[o]? = some x) (hpos : 0 < x.others) :
    Inv { s with
      objects := s.objects.set o { x with others := x.others - 1 }.dropRef.1
      arriving := s.arriving ++ x.dropRef.2.toList.map fun r => (r, none) } := by
  obtain ⟨hcount, hothers, hreq⟩ := dropRef_spec { x with others := x.others - 1 }
  have howed : ∀ o', owed { s with
      objects := s.objects.set o { x with others := x.others - 1 }.dropRef.1
      arriving := s.arriving ++ x.dropRef.2.toList.map fun r => (r, none) } o' = s.owed o' := by
    intro o'
    simp [owed, callbacks_orphans]
  have hdropped : ({ x with others := x.others - 1 } : CallbackObject).dropRef.2 = x.dropRef.2 := by
    unfold CallbackObject.dropRef
    split <;> rfl
  refine ⟨?_, ?_, ?_, ?_, hs.adopted, hs.called, hs.normal, ?_, hs.late, hs.not_deadlocked⟩
  · refine refCount_set hs.refCount ?_ fun o' _ => howed o'
    have hx := hs.refCount o x hx
    rw [hcount, hothers, howed]
    simp only
    omega
  · intro o ho
    rw [List.length_set] at ho
    rw [howed]
    exact hs.known o ho
  · intro o
    rw [howed]
    exact hs.added o
  · intro r
    have hplaced := hs.placed r
    have hset := outstanding_set (y := { x with others := x.others - 1 }.dropRef.1) (r := r) hx
    have hreq := hreq r
    unfold places at hplaced ⊢
    simp only [queued_append, queued_orphans, hdropped] at hset hreq ⊢
    omega
  · intro hphase
    obtain ⟨hshut, harriving⟩ := hs.closing hphase
    refine ⟨hshut, ?_⟩
    intro o
    rw [callbacks_append, callbacks_orphans, harriving]

theorem inv_push (hs : s.Inv) (hx : s.objects[o]? = some x) (hreq : x.req = none) :
    Inv { s with objects := s.objects.set o { x with req := some s.requests }
                 requests := s.requests + 1 } := by
  refine ⟨refCount_set hs.refCount (hs.refCount o x hx) fun _ _ => rfl, ?_, hs.added, ?_,
    hs.adopted, hs.called, hs.normal, hs.closing, hs.late, hs.not_deadlocked⟩
  · intro o ho
    rw [List.length_set] at ho
    exact hs.known o ho
  · intro r
    have hplaced := hs.placed r
    have hset := outstanding_set (y := { x with req := some s.requests }) (r := r) hx
    unfold places at hplaced ⊢
    simp only [hreq, reduceCtorEq, if_false, Option.some.injEq] at hset ⊢
    split at hset <;> split at hplaced <;> split <;> omega

theorem inv_collect (hs : s.Inv) (hx : s.objects[o]? = some x) (hreq : x.req = some r) :
    Inv { s with objects := s.objects.set o { x with req := none }
                 released := s.released ++ [r] } := by
  have hset := fun r' => outstanding_set (y := { x with req := none }) (r := r') hx
  have hplaced : ∀ r', (s.released ++ [r]).count r' +
      (queued s.deferredRequests r' + queued s.arriving r' +
        outstanding (s.objects.set o { x with req := none }) r') =
      if r' < s.requests then 1 else 0 := by
    intro r'
    have hplaced := hs.placed r'
    have hset := hset r'
    unfold places at hplaced
    simp only [hreq, Option.some.injEq, reduceCtorEq, if_false] at hset
    rw [List.count_append, List.count_singleton]
    by_cases hr : r = r'
    · simp only [hr, if_true, beq_self_eq_true] at hset ⊢
      omega
    · simp only [hr, if_false, beq_iff_eq] at hset ⊢
      omega
  refine ⟨refCount_set hs.refCount (hs.refCount o x hx) fun _ _ => rfl, ?_, hs.added, hplaced, ?_, ?_,
    hs.normal, hs.closing, hs.late, hs.not_deadlocked⟩
  · intro o ho
    rw [List.length_set] at ho
    exact hs.known o ho
  · intro r' hr'
    have hadopted := hs.adopted r' hr'
    have hold := hs.placed r'
    have hnew := hplaced r'
    have hset := hset r'
    unfold places at hold
    simp only [hreq, Option.some.injEq, reduceCtorEq, if_false] at hset
    -- the request of a proxy is not among the adopted ones
    rw [List.count_append, List.count_singleton] at hnew ⊢
    by_cases hr : r = r'
    · simp only [hr, if_true, beq_self_eq_true] at hset hnew ⊢
      split at hold <;> omega
    · simpa [hr] using hadopted
  · exact hs.called_release _

theorem inv_defer_none (hs : s.Inv) :
    Inv { s with arriving := s.arriving ++ [(s.requests, none)], requests := s.requests + 1 } := by
  have howed : ∀ o, owed { s with
      arriving := s.arriving ++ [(s.requests, none)], requests := s.requests + 1 } o = s.owed o := by
    intro o
    simp [owed]
  obtain ⟨hrefs, hknown, hadded⟩ := refs_of_owed hs howed rfl rfl rfl
  refine ⟨hrefs, hknown, hadded, ?_, hs.adopted, hs.called,
    hs.normal, ?_, hs.late, hs.not_deadlocked⟩
  · intro r
    have hplaced := hs.placed r
    unfold places at hplaced ⊢
    simp only [queued_append, queued_cons, queued_nil] at hplaced ⊢
    split at hplaced <;> split <;> split <;> omega
  · intro hphase
    obtain ⟨hshut, harriving⟩ := hs.closing hphase
    refine ⟨hshut, ?_⟩
    intro o
    simpa using harriving o

theorem inv_defer_some (hs : s.Inv) (hx : s.objects[o]? = some x)
    (hshut : s.shutdownRequested = false) :
    Inv { s with
      objects := s.objects.set o { x with refCount := x.refCount + 1 }
      added := s.added ++ [o]
      arriving := s.arriving ++ [(s.requests, some o)]
      requests := s.requests + 1 } := by
  have howed : ∀ o', owed { s with
      objects := s.objects.set o { x with refCount := x.refCount + 1 }
      added := s.added ++ [o]
      arriving := s.arriving ++ [(s.requests, some o)]
      requests := s.requests + 1 } o' = s.owed o' + if o = o' then 1 else 0 := by
    intro o'
    simp only [owed, callbacks_append, callbacks_cons, callbacks_nil, Option.some.injEq]
    omega
  have hlt := (List.getElem?_eq_some_iff.1 hx).1
  refine ⟨?_, ?_, ?_, ?_, hs.adopted, hs.called, hs.normal, ?_, hs.late, hs.not_deadlocked⟩
  · refine refCount_set hs.refCount ?_ ?_
    · have := hs.refCount o x hx
      rw [howed, if_pos rfl]
      simp only
      omega
    · intro o' ho'
      rw [howed, if_neg (Ne.symm ho'), Nat.add_zero]
  · intro o' ho'
    rw [List.length_set] at ho'
    rw [howed, hs.known o' ho', if_neg (by omega)]
  · intro o'
    have hadded := hs.added o'
    rw [howed]
    show (s.added ++ [o]).count o' = _
    rw [List.count_append, List.count_singleton]
    by_cases ho : o = o'
    · simp only [ho, beq_self_eq_true, if_true]
      show _ = s.removed.count o' + _
      omega
    · simp only [ho, beq_iff_eq, if_false]
      exact hadded
  · intro r
    have hplaced := hs.placed r
    have hset := outstanding_set (y := { x with refCount := x.refCount + 1 }) (r := r) hx
    unfold places at hplaced ⊢
    simp only [queued_append, queued_cons, queued_nil] at hset hplaced ⊢
    split at hplaced <;> split <;> split <;> omega
  · intro hphase
    exact absurd (hs.closing hphase).1 (by simp [hshut])

theorem inv_store {e : ℕ × Option ℕ} (hs : s.Inv) (he : s.arriving[k]? = some e) :
    Inv { s with
      arriving := s.arriving.eraseIdx k
      deferredRequests := s.deferredRequests ++ [e]
      adopted := if s.phase = .returned then s.adopted else s.adopted ++ [e.1] } := by
  have hcallbacks := fun o => callbacks_eraseIdx (o := o) he
  have hqueued := fun r => queued_eraseIdx (r := r) he
  have howed : ∀ o, owed { s with
      arriving := s.arriving.eraseIdx k
      deferredRequests := s.deferredRequests ++ [e]
      adopted := if s.phase = .returned then s.adopted else s.adopted ++ [e.1] } o = s.owed o := by
    intro o
    have := hcallbacks o
    simp only [owed, callbacks_append, callbacks_cons, callbacks_nil]
    omega
  -- a request that arrives is nowhere else
  have hfresh : s.released.count e.1 = 0 ∧ queued s.deferredRequests e.1 = 0 := by
    have hplaced := hs.placed e.1
    have hpos : 0 < queued s.arriving e.1 := queued_pos (List.mem_of_getElem? he)
    unfold places at hplaced
    split at hplaced <;> omega
  obtain ⟨hrefs, hknown, hadded⟩ := refs_of_owed hs howed rfl rfl rfl
  refine ⟨hrefs, hknown, hadded, ?_, ?_, hs.called, hs.normal, ?_, ?_, hs.not_deadlocked⟩
  · intro r
    have hplaced := hs.placed r
    have hqueued := hqueued r
    unfold places at hplaced ⊢
    simp only [queued_append, queued_cons, queued_nil]
    omega
  · intro r hr
    simp only [queued_append, queued_cons, queued_nil]
    by_cases hre : e.1 = r
    · subst hre
      simp [hfresh]
    · have hmem : r ∈ s.adopted := by
        simp only at hr
        split at hr
        · exact hr
        · rcases List.mem_append.1 hr with hr | hr
          · exact hr
          · exact absurd (List.mem_singleton.1 hr).symm hre
      simpa [hre] using hs.adopted r hmem
  · intro hphase
    obtain ⟨hshut, harriving⟩ := hs.closing hphase
    refine ⟨hshut, ?_⟩
    intro o
    have := hcallbacks o
    have := harriving o
    simp only
    omega
  · intro hphase
    have hreturned : s.phase = .returned := hphase
    obtain ⟨hqueue, hcallback⟩ := hs.late hreturned
    simp only [if_pos hreturned, queued_append, queued_cons, queued_nil, callbacks_append,
      callbacks_cons, callbacks_nil]
    refine ⟨?_, ?_⟩
    · intro r hr
      have hadopted := hs.adopted r hr
      rw [hqueue r hr, Nat.zero_add, if_neg]
      rintro rfl
      omega
    · intro o
      have harriving := (hs.closing (Or.inr hreturned)).2 o
      have := hcallbacks o
      rw [hcallback o]
      omega

theorem inv_reply {x : DeferredReply} (hs : s.Inv) (hnew : s.replies.lookup r = none) :
    Inv { s with replies := (r, x) :: s.replies } where
  refCount := hs.refCount
  known := hs.known
  added := hs.added
  placed := hs.placed
  adopted := hs.adopted
  called := hs.called
  normal r' hr' := by
    have hnormal := hs.normal r' hr'
    have hne : (r' == r) = false := by
      rw [beq_eq_false_iff_ne]
      rintro rfl
      rw [hnew] at hnormal
      cases hnormal
    rwa [List.lookup_cons, hne]
  closing := hs.closing
  late := hs.late
  not_deadlocked := hs.not_deadlocked

theorem inv_shutdown (hs : s.Inv) : Inv { s with shutdownRequested := true } where
  refCount := hs.refCount
  known := hs.known
  added := hs.added
  placed := hs.placed
  adopted := hs.adopted
  called := hs.called
  normal := hs.normal
  closing hphase := ⟨rfl, (hs.closing hphase).2⟩
  late := hs.late
  not_deadlocked := hs.not_deadlocked

/-! ## The steps of the thread in `run`

The thread drops the references of the callbacks that it has used. The last reference deletes the
object, which hands its own request on: to the queue while the lock is free, and into a deadlock in
the clean-up. -/

/-- The thread goes on, and drops no reference. -/
theorem inv_phase (hs : s.Inv) {phase : RunPhase} (hused : ∀ o, phase.used.count o =
      s.phase.used.count o) (hphase : phase ≠ .deadlocked)
    (hclosing : phase = .cleaning ∨ phase = .returned →
      s.shutdownRequested = true ∧ ∀ o, callbacks s.arriving o = 0)
    (hlate : phase = .returned → s.deferredRequests = []) :
    Inv { s with phase := phase } := by
  have howed : ∀ o, owed { s with phase := phase } o = s.owed o := by
    intro o
    simp only [owed, hused]
  obtain ⟨hrefs, hknown, hadded⟩ := refs_of_owed hs howed rfl rfl rfl
  refine ⟨hrefs, hknown, hadded, hs.placed, hs.adopted, hs.called, hs.normal, hclosing, ?_, hphase⟩
  · intro hreturned
    simp [hlate hreturned]

/-- A reply is dealt with in a pass. -/
theorem inv_poll (hs : s.Inv) {next : ℕ} {used : List ℕ} {callback : Option ℕ}
    {reply : DeferredReply} (hphase : s.phase = .polling next used)
    (he : s.deferredRequests[next]? = some (r, callback)) (hreply : s.replies.lookup r = some reply) :
    Inv { s with
      called := if reply = .returned ∧ callback.isSome then s.called ++ [r] else s.called
      released := s.released ++ [r]
      deferredRequests := s.deferredRequests.eraseIdx next
      phase := .polling next (used ++ callback.toList) } := by
  have hcallbacks := fun o => callbacks_eraseIdx (o := o) he
  have hqueued := fun r => queued_eraseIdx (r := r) he
  have howed : ∀ o, owed { s with
      called := if reply = .returned ∧ callback.isSome then s.called ++ [r] else s.called
      released := s.released ++ [r]
      deferredRequests := s.deferredRequests.eraseIdx next
      phase := .polling next (used ++ callback.toList) } o = s.owed o := by
    intro o
    have := hcallbacks o
    have hlist : callback.toList.count o = if callback = some o then 1 else 0 := by
      cases callback <;> simp [List.count_singleton]
    simp only [owed, hphase, RunPhase.used, List.count_append, hlist] at this ⊢
    omega
  -- it is not released yet
  have hfirst : s.released.count r = 0 := by
    have hplaced := hs.placed r
    have hpos : 0 < queued s.deferredRequests r := queued_pos (List.mem_of_getElem? he)
    unfold places at hplaced
    split at hplaced <;> omega
  obtain ⟨hrefs, hknown, hadded⟩ := refs_of_owed hs howed rfl rfl rfl
  refine ⟨hrefs, hknown, hadded, ?_, ?_, ?_, ?_, nofun, nofun, nofun⟩
  · intro r'
    have hplaced := hs.placed r'
    have hqueued := hqueued r'
    unfold places at hplaced ⊢
    simp only [List.count_append, List.count_singleton, beq_iff_eq] at hqueued ⊢
    omega
  · intro r' hr'
    have hadopted := hs.adopted r' hr'
    have hqueued := hqueued r'
    simp only [List.count_append, List.count_singleton, beq_iff_eq] at hqueued ⊢
    omega
  · intro r'
    have hcalled := hs.called r'
    have hnot := hs.called r
    simp only [List.count_append, List.count_singleton, beq_iff_eq]
    split
    · simp only [List.count_append, List.count_singleton, beq_iff_eq]
      omega
    · omega
  · intro r' hr'
    simp only at hr'
    split at hr'
    · next hboth =>
        rcases List.mem_append.1 hr' with hr' | hr'
        · exact hs.normal r' hr'
        · rw [List.mem_singleton.1 hr', ← hboth.1]
          exact hreply
    · exact hs.normal r' hr'

/-- A used callback is dropped, and its outstanding request is deferred. -/
theorem inv_release (hs : s.Inv) {used : List ℕ} (hphase : s.phase = .releasing (o :: used))
    (hx : s.objects[o]? = some x) :
    Inv { s with
      objects := s.objects.set o x.dropRef.1
      removed := s.removed ++ [o]
      deferredRequests := s.deferredRequests ++ x.dropRef.2.toList.map fun r => (r, none)
      adopted := s.adopted ++ x.dropRef.2.toList
      phase := .releasing used } := by
  obtain ⟨-, -, hreq⟩ := dropRef_spec x
  have howed : ∀ o', owed { s with
      objects := s.objects.set o x.dropRef.1
      removed := s.removed ++ [o]
      deferredRequests := s.deferredRequests ++ x.dropRef.2.toList.map fun r => (r, none)
      adopted := s.adopted ++ x.dropRef.2.toList
      phase := .releasing used } o' + (if o = o' then 1 else 0) = s.owed o' := by
    intro o'
    simp only [owed, callbacks_append, callbacks_orphans, hphase, RunPhase.used, List.count_cons,
      beq_iff_eq]
    omega
  have hset := fun r => outstanding_set (y := x.dropRef.1) (r := r) hx
  obtain ⟨hrefs, hknown, hadded⟩ := refs_of_dropRef hs hx howed rfl rfl rfl
  refine ⟨hrefs, hknown, hadded, ?_, ?_, hs.called, hs.normal, nofun, nofun, nofun⟩
  · intro r
    have hplaced := hs.placed r
    have hset := hset r
    have hreq := hreq r
    unfold places at hplaced ⊢
    simp only [queued_append, queued_orphans]
    omega
  · intro r hr
    simp only [queued_append, queued_orphans]
    rcases List.mem_append.1 hr with hr | hr
    · have hadopted := hs.adopted r hr
      have hplaced := hs.placed r
      have hreq := hreq r
      have hset := hset r
      unfold places at hplaced
      split at hplaced <;> omega
    · -- `~Proxy` defers a request that was in no list before
      have hdropped : x.dropRef.2 = some r := Option.mem_toList.1 hr
      have hplaced := hs.placed r
      have hreq := hreq r
      have hset := hset r
      unfold places at hplaced
      rw [if_pos hdropped] at hreq ⊢
      split at hplaced <;> omega

/-- A request that is released from the head of the queue is still settled once. -/
theorem adopted_release (hs : s.Inv) {callback : Option ℕ} {rest : List (ℕ × Option ℕ)}
    (hqueue : s.deferredRequests = (r, callback) :: rest) {r' : ℕ} (hr' : r' ∈ s.adopted) :
    (s.released ++ [r]).count r' + queued rest r' = 1 := by
  have hadopted := hs.adopted r' hr'
  simp only [hqueue, queued_cons, List.count_append, List.count_singleton, beq_iff_eq] at hadopted ⊢
  omega

/-- The final clean-up settles a request without a callback. -/
theorem inv_clean_orphan (hs : s.Inv) {rest : List (ℕ × Option ℕ)} (hphase : s.phase = .cleaning)
    (hqueue : s.deferredRequests = (r, none) :: rest) :
    Inv { s with released := s.released ++ [r], deferredRequests := rest } := by
  have howed : ∀ o, owed { s with released := s.released ++ [r], deferredRequests := rest } o =
      s.owed o := by
    intro o
    simp [owed, hqueue]
  obtain ⟨hrefs, hknown, hadded⟩ := refs_of_owed hs howed rfl rfl rfl
  refine ⟨hrefs, hknown, hadded, ?_, ?_, ?_, hs.normal, hs.closing, ?_, hs.not_deadlocked⟩
  · intro r'
    have hplaced := hs.placed r'
    unfold places at hplaced ⊢
    simp only [hqueue, queued_cons, List.count_append, List.count_singleton, beq_iff_eq] at hplaced ⊢
    omega
  · intro r' hr'
    exact adopted_release hs hqueue hr'
  · intro r'
    exact hs.called_release r r'
  · intro hreturned
    rw [show s.phase = .returned from hreturned] at hphase
    cases hphase

/-- The final clean-up settles a request and drops its callback, which hands no request over. -/
theorem inv_clean (hs : s.Inv) {rest : List (ℕ × Option ℕ)} (hphase : s.phase = .cleaning)
    (hqueue : s.deferredRequests = (r, some o) :: rest) (hx : s.objects[o]? = some x)
    (hdrop : x.dropRef.2 = none) :
    Inv { s with
      released := s.released ++ [r], removed := s.removed ++ [o]
      objects := s.objects.set o x.dropRef.1, deferredRequests := rest } := by
  obtain ⟨-, -, hreq⟩ := dropRef_spec x
  have howed : ∀ o', owed { s with
      released := s.released ++ [r], removed := s.removed ++ [o]
      objects := s.objects.set o x.dropRef.1, deferredRequests := rest } o' +
        (if o = o' then 1 else 0) = s.owed o' := by
    intro o'
    simp only [owed, hqueue, callbacks_cons, Option.some.injEq]
    omega
  have hset := fun r => outstanding_set (y := x.dropRef.1) (r := r) hx
  obtain ⟨hrefs, hknown, hadded⟩ := refs_of_dropRef hs hx howed rfl rfl rfl
  refine ⟨hrefs, hknown, hadded, ?_, ?_, ?_, hs.normal, hs.closing, ?_, hs.not_deadlocked⟩
  · intro r'
    have hplaced := hs.placed r'
    have hset := hset r'
    have hreq := hreq r'
    unfold places at hplaced ⊢
    simp only [hqueue, hdrop, reduceCtorEq, if_false, queued_cons, List.count_append,
      List.count_singleton, beq_iff_eq] at hplaced hreq ⊢
    omega
  · intro r' hr'
    exact adopted_release hs hqueue hr'
  · intro r'
    exact hs.called_release r r'
  · intro hreturned
    rw [show s.phase = .returned from hreturned] at hphase
    cases hphase

theorem inv_run (hs : s.Inv) (hok : s.timely .run = true) (h : s.run = some t) : t.Inv := by
  unfold run at h
  unfold timely at hok
  split at h
  · next hphase =>
      cases h
      rw [hphase] at hok
      refine inv_phase hs ?_ ?_ ?_ ?_
      · intro o
        rw [hphase]
        split <;> rfl
      · split <;> nofun
      · intro hclosing
        cases hshut : s.shutdownRequested with
        | false => simp [hshut] at hclosing
        | true =>
            refine ⟨rfl, fun o => callbacks_eq_zero.2 ?_⟩
            intro e he heq
            have hnone : ∀ e ∈ s.arriving, e.2 = none := by simpa [hshut] using hok
            rw [hnone e he] at heq
            cases heq
      · intro hreturned
        split at hreturned <;> cases hreturned
  · next hphase =>
      cases h
      exact inv_phase hs (fun o => by rw [hphase]; rfl) nofun nofun nofun
  · next next used hphase =>
      split at h
      · cases h
        exact inv_phase hs (fun o => by rw [hphase]; rfl) nofun nofun nofun
      · next r callback he =>
          split at h
          · cases h
            exact inv_phase hs (fun o => by rw [hphase]; rfl) nofun nofun nofun
          · next reply hreply =>
              cases h
              exact inv_poll hs hphase he hreply
  · next hphase =>
      cases h
      exact inv_phase hs (fun o => by rw [hphase]; rfl) nofun nofun nofun
  · next o used hphase =>
      split at h
      · cases h
      · next x hx =>
          cases h
          exact inv_release hs hphase hx
  · next hphase =>
      split at h
      · next hqueue =>
          cases h
          exact inv_phase hs (fun o => by rw [hphase]; rfl) nofun
            (fun _ => hs.closing (Or.inl hphase)) fun _ => hqueue
      · next r callback rest hqueue =>
          rw [hphase, hqueue] at hok
          split at h
          · cases h
          · cases h
            exact inv_clean_orphan hs hphase hqueue
          · next o _ =>
              split at h
              · cases h
              · next x hx =>
                  have hdrop : x.dropRef.2 = none := by
                    simp only [hx, Option.all_some] at hok
                    unfold CallbackObject.dropRef
                    split
                    · next hlast => simpa [hlast] using hok
                    · rfl
                  simp only [hdrop] at h
                  cases h
                  exact inv_clean hs hphase hqueue hx hdrop
  · cases h
  · cases h

theorem inv_step {a : Action} (hs : s.Inv) (hok : s.timely a = true) (h : s.step a = some t) :
    t.Inv := by
  cases a with
  | new =>
      cases h
      exact inv_new hs
  | addRef o =>
      simp only [step] at h
      split at h
      · cases h
      · next x hx =>
          cases h
          have hobject := (object_eq_some.1 hx).1
          have hcount := hs.refCount o x hobject
          refine inv_set hs hobject ?_ rfl
          simp only
          omega
  | removeRef o =>
      simp only [step] at h
      split at h
      · cases h
      · next x hx =>
          cases h
          exact inv_removeRef hs (object_eq_some.1 hx).1 (object_eq_some.1 hx).2
  | push o =>
      simp only [step] at h
      split at h
      · cases h
      · next x hx =>
          split at h
          · cases h
          · next hreq =>
              cases h
              exact inv_push hs (object_eq_some.1 hx).1 hreq
  | collect o =>
      simp only [step] at h
      split at h
      · cases h
      · next x hx =>
          split at h
          · cases h
          · next r hreq =>
              split at h
              · cases h
                exact inv_collect hs (object_eq_some.1 hx).1 hreq
              · cases h
  | defer callback =>
      cases callback with
      | none =>
          cases h
          exact inv_defer_none hs
      | some o =>
          simp only [step] at h
          split at h
          · cases h
          · next x hx =>
              split at h
              · cases h
                exact inv_defer_none hs
              · next hshut =>
                  cases h
                  exact inv_defer_some hs (object_eq_some.1 hx).1 (by simpa using hshut)
  | store k =>
      simp only [step] at h
      split at h
      · cases h
      · next e he =>
          split at h
          · cases h
          · cases h
            exact inv_store hs he
  | reply r reply =>
      simp only [step] at h
      split at h
      · next hnew =>
          cases h
          exact inv_reply hs hnew.2
      · cases h
  | shutdown =>
      cases h
      exact inv_shutdown hs
  | run => exact inv_run hs hok h

end Steps

theorem inv_init : init.Inv where
  refCount _ _ := nofun
  known _ _ := rfl
  added _ := rfl
  placed r := by
    show 0 = if r < 0 then 1 else 0
    rw [if_neg (Nat.not_lt_zero r)]
  adopted _ := nofun
  called _ := Nat.le_refl 0
  normal _ := nofun
  closing := nofun
  late := nofun
  not_deadlocked := nofun

/-- **Deferred requests are settled exactly once**, in every run whose final clean-up begins when the
    callbacks that have a reference are stored, and drops no last reference to a proxy with an
    outstanding request. -/
theorem deferred_settled (as : List Action) (s : DeferredState) (hrun : Run step init as = some s)
    (hok : Along step (fun s a => s.timely a = true) init as) : s.Settled :=
  (Run.invariant_of_along (fun _ _ _ hs hok h => inv_step hs hok h) inv_init hok hrun).settled

/-- The reply to the `_is_a` request of a proxy comes before it is etherealized with a push
    outstanding; the push is answered during the clean-up. -/
def orderly : List Action :=
  [.new, .defer (some 0), .store 0, .reply 0 .returned, .run, .push 0, .run, .removeRef 0, .run,
    .run, .run, .shutdown, .run, .run, .reply 1 .exception, .run, .run]

theorem deferred_settled_orderly : ∃ s, Run step init orderly = some s ∧ s.phase = .returned ∧
    s.called = [0] ∧ s.removed = [0] ∧ s.released = [0, 1] ∧ s.Settled := by
  obtain ⟨s, hrun, hphase, hcalled, hremoved, hreleased⟩ : ∃ s, Run step init orderly = some s ∧
      s.phase = .returned ∧ s.called = [0] ∧ s.removed = [0] ∧ s.released = [0, 1] :=
    ⟨_, rfl, rfl, rfl, rfl, rfl⟩
  exact ⟨s, hrun, hphase, hcalled, hremoved, hreleased,
    deferred_settled orderly s hrun (by decide)⟩

/-- The reply to the `_is_a` request comes during the clean-up, which drops the last reference to the
    proxy and waits for its own lock. -/
theorem shutdown_deadlocks : ∃ s, Run step init
    [.new, .defer (some 0), .store 0, .push 0, .removeRef 0, .shutdown, .run, .reply 0 .returned,
      .run] = some s ∧ s.phase = .deadlocked :=
  ⟨_, rfl, rfl⟩

end DeferredState

end OmniEvents
