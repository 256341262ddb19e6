import OmniEvents.Transfer

set_option autoImplicit false

/-! # The order in which events are transferred

What a channel accepts is said without its queues (`Channel.accepts`): a pushed event, or in a cycle
one event for every reply that brings one. `History` runs this specification next to the channel.
Events are numbered by their allocation, which is when they are accepted, so the invariant is that
the events handed to the queue of the consumers followed by those still in the local queue are the
numbers `0, 1, 2, …`. The flag `_useLocalQueue` is what makes a direct append safe: while it is clear
the local queue is empty. -/

namespace OmniEvents

variable {Ref : Type}

/-! ## Accepted events -/

/-- The event that a reply brings to a pull consumer. -/
def ProxyPullConsumer.accepts (p : ProxyPullConsumer Ref) (reply : Option Reply) : List Any :=
  match p.req, reply with
  | some opname, some (.returned value arguments) =>
      if hasEvent opname arguments then [value] else []
  | _, _ => []

/-- The events that a channel accepts in one step. -/
def Channel.accepts (c : Channel Ref) : Channel.Action Ref → List Any
  | .push event => [event]
  | .cycle poll _ =>
      (c.supplierAdmin.pullConsumer.getD []).flatMap (fun p => p.accepts (poll p.oid))
  | _ => []

/-- The events that were handed to `EventQueue::append`. -/
def Channel.handedEvents (c : Channel Ref) : List (Option Any) :=
  c.consumerAdmin.handed.map (fun p => c.heap.events[p]?)

/-- A channel with the events it has accepted, and how many it had handed over at the end of its last
    cycle. -/
structure History (Ref : Type) where
  channel : Channel Ref
  accepted : List Any
  handedAtCycle : ℕ

namespace History

/-- Nothing has been accepted. -/
def new (c : Channel Ref) : History Ref := { channel := c, accepted := [], handedAtCycle := 0 }

/-- A step, with what it accepts and how much was handed over at the cycle. -/
def step (realTimePush : Bool) (s : History Ref) (a : Channel.Action Ref) : Option (History Ref) :=
  (s.channel.step realTimePush a).map fun c =>
    { channel := c
      accepted := s.accepted ++ s.channel.accepts a
      handedAtCycle :=
        match a with
        | .cycle _ _ => c.consumerAdmin.handed.length
        | _ => s.handedAtCycle }

end History

/-! ## One operation at a time -/

/-- The numbers of `n` events allocated one after the other. -/
theorem range_append_range' (m n : ℕ) : List.range m ++ List.range' m n = List.range (m + n) := by
  rw [List.range_eq_range', List.range_eq_range', ← List.range'_append_1]
  simp

/-- Looking up all the numbers of a list gives back the list. -/
theorem map_getElem?_range {α : Type*} (xs : List α) :
    (List.range xs.length).map (fun i => xs[i]?) = xs.map some := by
  refine List.ext_getElem (by simp) ?_
  intro i h₁ h₂
  have hi : i < xs.length := by simpa using h₁
  simp [hi]

theorem ProxyPullConsumer.collect_spec (p : ProxyPullConsumer Ref) (reply : Option Reply) (h : Heap)
    (queue : List Ptr) {q : ProxyPullConsumer Ref} {h' : Heap} {queue' : List Ptr}
    (hc : p.collect reply h queue = (q, h', queue', false)) :
    h'.events = h.events ++ p.accepts reply ∧
      queue' = queue ++ List.range' h.events.length (p.accepts reply).length := by
  cases hreq : p.req with
  | none =>
      simp only [collect, hreq] at hc
      cases hc
      simp [accepts, hreq]
  | some opname =>
      rcases reply with _ | envRaises | ⟨value, arguments⟩
      · simp only [collect, hreq] at hc
        cases hc
        simp [accepts]
      · simp only [collect, hreq] at hc
        split at hc
        · cases hc
        · split at hc <;> cases hc
          simp [accepts]
      · simp only [collect, hreq] at hc
        split at hc
        · next hev =>
            cases hc
            simp [accepts, hreq, hev]
        · next hev =>
            cases hc
            simp [accepts, hreq, hev]

/-- A round of `collect` that no exception ends picks up one event for every reply with one. -/
theorem collectAll_spec (poll : Str → Option Reply) (servants : List (ProxyPullConsumer Ref)) (h : Heap)
    (queue : List Ptr) {servants' : List (ProxyPullConsumer Ref)} {h' : Heap} {queue' : List Ptr}
    (hc : collectAll poll servants h queue = (servants', h', queue', false)) :
    h'.events = h.events ++ servants.flatMap (fun p => p.accepts (poll p.oid)) ∧
      queue' = queue ++ List.range' h.events.length
        (servants.flatMap (fun p => p.accepts (poll p.oid))).length := by
  induction servants generalizing h queue servants' with
  | nil =>
      cases hc
      simp
  | cons p servants ih =>
      rw [collectAll] at hc
      rcases hp : p.collect (poll p.oid) h queue with ⟨q, h₁, queue₁, raised⟩
      rw [hp] at hc
      cases raised with
      | true => cases hc
      | false =>
          obtain ⟨hev₁, hqueue₁⟩ := p.collect_spec _ _ _ hp
          simp only at hc
          rcases hrest : collectAll poll servants h₁ queue₁ with ⟨rest, h₂, queue₂, raised⟩
          rw [hrest] at hc
          cases hc
          obtain ⟨hev₂, hqueue₂⟩ := ih h₁ queue₁ hrest
          refine ⟨by rw [hev₂, hev₁, List.flatMap_cons, List.append_assoc], ?_⟩
          rw [hqueue₂, hqueue₁, hev₁, List.flatMap_cons, List.append_assoc, List.length_append,
            List.length_append, List.range'_append_1]

/-- What `SupplierAdmin_i::collect` returns: the local queue, then the events picked up. -/
theorem SupplierAdmin.collect_spec (sa : SupplierAdmin Ref) (p : ℕ) (poll : Str → Option Reply)
    (now : ℕ × ℕ) (h : Heap) {sa' : SupplierAdmin Ref} {h' : Heap} {events : List Ptr}
    (hc : sa.collect p poll now h = (sa', h', some events)) :
    sa'.queue = [] ∧ sa'.useLocalQueue = false ∧
      h'.events = h.events ++
        (sa.pullConsumer.getD []).flatMap (fun p => p.accepts (poll p.oid)) ∧
      events = sa.queue ++ List.range' h.events.length
        ((sa.pullConsumer.getD []).flatMap (fun p => p.accepts (poll p.oid))).length := by
  unfold collect at hc
  split at hc
  · next hnone =>
      cases hc
      simp [hnone]
  · next servants hsome =>
      split at hc
      · cases hc
      · next servants' h₁ queue₁ hall =>
          cases hc
          obtain ⟨hev, hqueue⟩ := collectAll_spec poll servants h sa.queue hall
          refine ⟨rfl, rfl, ?_⟩
          rw [hsome]
          exact ⟨hev, hqueue⟩

@[simp] theorem EventQueue.append_events (q : EventQueue) (h : Heap) (p : Ptr) :
    (q.append h p).2.events = h.events := by
  unfold append
  split
  · rfl
  · split <;> simp

@[simp] theorem ConsumerAdmin.send_handed (ca : ConsumerAdmin) (h : Heap) (event : Ptr) :
    (ca.send h event).1.handed = ca.handed ++ [event] := rfl

@[simp] theorem ConsumerAdmin.send_events (ca : ConsumerAdmin) (h : Heap) (event : Ptr) :
    (ca.send h event).2.events = h.events := EventQueue.append_events ..

theorem ConsumerAdmin.sendAll_spec (ca : ConsumerAdmin) (h : Heap) (events : List Ptr) :
    (ca.sendAll h events).1.handed = ca.handed ++ events ∧
      (ca.sendAll h events).2.events = h.events := by
  induction events generalizing ca h with
  | nil => simp [sendAll]
  | cons event events ih =>
      rw [sendAll, (ih _ _).1, (ih _ _).2]
      simp

/-! ## The invariant

The events that the channel has accepted are numbered in that order, and the queue of the suppliers
continues what has been handed over. -/

/-- What holds in every state: the events are in the order of their acceptance, all of them. -/
structure TransferInv (realTimePush : Bool) (s : History Ref) : Prop where
  /-- Events are numbered by the order in which they were accepted. -/
  events : s.channel.running = true → s.channel.heap.events = s.accepted
  /-- Those handed over come first, then those in the local queue. -/
  order : s.channel.running = true →
    s.channel.consumerAdmin.handed ++ s.channel.supplierAdmin.queue = List.range s.accepted.length
  /-- While `push` may append directly, it overtakes nothing. -/
  direct : s.channel.running = true → realTimePush = true →
    s.channel.supplierAdmin.useLocalQueue = false → s.channel.supplierAdmin.queue = []
  /-- It has not done so since the last cycle. -/
  unused : s.channel.running = true → s.channel.supplierAdmin.useLocalQueue = false →
    s.channel.consumerAdmin.handed.length = s.handedAtCycle
  once : s.channel.consumerAdmin.handed.length ≤ s.handedAtCycle + 1

theorem TransferInv.push {realTimePush : Bool} {s : History Ref} (hs : TransferInv realTimePush s)
    (hrun : s.channel.running = true) (event : Any) :
    TransferInv realTimePush
      ⟨s.channel.push realTimePush event, s.accepted ++ [event], s.handedAtCycle⟩ := by
  have hev := hs.events hrun
  have horder := hs.order hrun
  have hnext : List.range (s.accepted ++ [event]).length
      = List.range s.accepted.length ++ [s.accepted.length] := by
    rw [List.length_append, List.length_singleton, List.range_succ]
  by_cases hdirect : (realTimePush && !s.channel.supplierAdmin.useLocalQueue) = true
  · obtain ⟨hrt, hflag⟩ : realTimePush = true ∧ s.channel.supplierAdmin.useLocalQueue = false := by
      simpa using hdirect
    have hempty := hs.direct hrun hrt hflag
    have hunused := hs.unused hrun hflag
    rw [hempty, List.append_nil] at horder
    simp only [Channel.push, if_pos hdirect]
    constructor
    · intro _
      simp [hev]
    · intro _
      simp only [ConsumerAdmin.send_handed, hempty, List.append_nil, Heap.alloc_fst, hev, horder]
      exact hnext.symm
    · intro _ _ h
      cases h
    · intro _ h
      cases h
    · simp [hunused]
  · simp only [Channel.push, if_neg hdirect]
    constructor
    · intro _
      simp [hev]
    · intro _
      rw [← List.append_assoc, horder, hnext, Heap.alloc_fst, hev]
    · intro _ hrt hflag
      exact absurd (by simpa [hrt] using hflag) hdirect
    · intro _ hflag
      exact hs.unused hrun hflag
    · exact hs.once

/-- A completed cycle hands over everything that has been accepted. -/
theorem TransferInv.cycle_complete {realTimePush : Bool} {s : History Ref}
    (hs : TransferInv realTimePush s) (hrun : s.channel.running = true)
    (poll : Str → Option Reply) (now : ℕ × ℕ)
    (hdone : (s.channel.cycle poll now).running = true) :
    (s.channel.cycle poll now).supplierAdmin.queue = [] ∧
      (s.channel.cycle poll now).supplierAdmin.useLocalQueue = false ∧
      (s.channel.cycle poll now).heap.events
        = s.accepted ++ s.channel.accepts (.cycle poll now) ∧
      (s.channel.cycle poll now).consumerAdmin.handed
        = List.range (s.accepted ++ s.channel.accepts (.cycle poll now)).length := by
  rcases hc : s.channel.supplierAdmin.collect s.channel.pullRetryPeriod_ms poll now s.channel.heap
    with ⟨sa, h, _ | events⟩
  · simp [Channel.cycle, hc] at hdone
  · obtain ⟨hqueue, hflag, hev, hevents⟩ := SupplierAdmin.collect_spec _ _ _ _ _ hc
    obtain ⟨hhanded, hheap⟩ := s.channel.consumerAdmin.sendAll_spec h events
    simp only [Channel.cycle, hc]
    refine ⟨hqueue, hflag, ?_, ?_⟩
    · rw [hheap, hev, hs.events hrun]
      rfl
    · rw [hhanded, hevents, ← List.append_assoc, hs.order hrun, hs.events hrun,
        range_append_range', List.length_append]
      rfl

theorem TransferInv.step {realTimePush : Bool} {s t : History Ref} {a : Channel.Action Ref}
    (hs : TransferInv realTimePush s) (hst : s.step realTimePush a = some t) :
    TransferInv realTimePush t := by
  simp only [History.step, Option.map_eq_some_iff] at hst
  obtain ⟨c, hc, rfl⟩ := hst
  simp only [Channel.step] at hc
  split at hc
  · cases hc
  next hrun =>
  have hrun : s.channel.running = true := by simpa using hrun
  -- the steps of the pull consumers touch neither queue
  have hservants : ∀ f : List (ProxyPullConsumer Ref) → List (ProxyPullConsumer Ref),
      TransferInv realTimePush ⟨s.channel.mapServants f, s.accepted, s.handedAtCycle⟩ := fun f =>
    ⟨hs.events, hs.order, hs.direct, hs.unused, hs.once⟩
  cases a with
  | push event =>
      cases hc
      exact hs.push hrun event
  | cycle poll now =>
      cases hc
      have hdone := hs.cycle_complete hrun poll now
      constructor
      · exact fun h => (hdone h).2.2.1
      · intro h
        rw [(hdone h).1, List.append_nil, (hdone h).2.2.2]
      · exact fun h _ _ => (hdone h).1
      · exact fun _ _ => rfl
      · exact Nat.le_succ _
  | incarnate oid =>
      cases hc
      simpa [Channel.accepts] using hservants _
  | connect_pull_supplier oid pullSupplier =>
      cases hc
      simpa [Channel.accepts] using hservants _
  | disconnect_pull_consumer oid =>
      cases hc
      simpa [Channel.accepts] using hservants _
  | etherealize oid =>
      cases hc
      simpa [Channel.accepts] using hservants _

theorem transferInv_new (realTimePush : Bool) (maxQueueLength pullRetryPeriod_ms cyclePeriod_ns : ℕ)
    (filter : Option Filter) (now : ℕ × ℕ) :
    TransferInv realTimePush
      (History.new (Channel.new maxQueueLength pullRetryPeriod_ms cyclePeriod_ns filter now) :
        History Ref) :=
  ⟨fun _ => rfl, fun _ => rfl, fun _ _ _ => rfl, fun _ _ => rfl, Nat.zero_le _⟩

/-- **Transfer order.** In every run of a channel, each completed cycle leaves exactly the accepted
    events handed over, every one of them once and in the order of acceptance; and since the last
    cycle at most one event has been handed over. -/
theorem transfer_order (realTimePush : Bool)
    (maxQueueLength pullRetryPeriod_ms cyclePeriod_ns : ℕ) (filter : Option Filter) (now₀ : ℕ × ℕ)
    (as : List (Channel.Action Ref)) (s : History Ref)
    (hrun : Transition.Run (History.step realTimePush)
      (History.new (Channel.new maxQueueLength pullRetryPeriod_ms cyclePeriod_ns filter now₀)) as
        = some s) :
    (∀ poll now t, s.step realTimePush (.cycle poll now) = some t → t.channel.running = true →
      t.accepted = s.accepted ++ s.channel.accepts (.cycle poll now) ∧
        t.channel.handedEvents = t.accepted.map some ∧
        t.channel.consumerAdmin.handed.Nodup) ∧
      s.channel.consumerAdmin.handed.length ≤ s.handedAtCycle + 1 := by
  have hinv : TransferInv realTimePush s :=
    Transition.Run.invariant (fun _ _ _ => TransferInv.step) (transferInv_new ..) hrun
  refine ⟨?_, hinv.once⟩
  intro poll now t hst hdone
  have hinv' := hinv.step hst
  simp only [History.step, Option.map_eq_some_iff] at hst
  obtain ⟨c, hc, rfl⟩ := hst
  simp only [Channel.step] at hc
  split at hc
  · cases hc
  next hrunning =>
  cases hc
  have hqueue := (hinv.cycle_complete (by simpa using hrunning) poll now hdone).1
  have horder := hinv'.order hdone
  rw [hqueue, List.append_nil] at horder
  have hev := hinv'.events hdone
  simp only at horder hev hdone ⊢
  refine ⟨trivial, ?_, by rw [horder]; exact List.nodup_range⟩
  rw [Channel.handedEvents, horder, hev, map_getElem?_range]

/-- Two pushed events, the first of them appended directly, and one pulled in the second cycle. -/
theorem transfer_order_push_and_pull :
    ∃ s t, Transition.Run (History.step true) (History.new (Channel.new 4 0 0 none (0, 0)) : History Str)
        [.push ⟨⟨.tk_long, []⟩, [1]⟩, .push ⟨⟨.tk_long, []⟩, [2]⟩, .incarnate ['a'],
          .connect_pull_supplier ['a'] (some ['I']), .cycle (fun _ => none) (0, 0)] = some s ∧
      s.step true (.cycle (fun _ => some (.returned ⟨⟨.tk_long, []⟩, [3]⟩ [])) (0, 1)) = some t ∧
      t.channel.handedEvents =
        [some ⟨⟨.tk_long, []⟩, [1]⟩, some ⟨⟨.tk_long, []⟩, [2]⟩, some ⟨⟨.tk_long, []⟩, [3]⟩] := by
  refine ⟨_, _, rfl, rfl, ?_⟩
  have h := transfer_order true 4 0 0 none (0, 0)
    [.push ⟨⟨.tk_long, []⟩, [1]⟩, .push ⟨⟨.tk_long, []⟩, [2]⟩, .incarnate ['a'],
      .connect_pull_supplier ['a'] (some ['I']), .cycle (fun _ => none) (0, 0)] _ rfl
  exact (h.1 (fun _ => some (.returned ⟨⟨.tk_long, []⟩, [3]⟩ [])) (0, 1) _ rfl rfl).2.1

end OmniEvents
