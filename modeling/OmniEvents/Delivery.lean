import OmniEvents.PullRace
import OmniEvents.PushManager

set_option autoImplicit false

/-! # From suppliers to consumers

One channel as a whole: events are accepted from push and pull suppliers, handed to the queue
directly or at the end of a cycle, filtered, and read by any number of proxies, those whose events
the manager's thread pushes and those whose clients pull. `Feed.step` interleaves all of these. A
proxy keeps, for the observer, the number of events kept by the filter when it was made, what its
reader has returned since, and what of this was given to its consumer; a push that cannot be sent is
read and given to nobody. A call of `pull` is one step here; what happens within it, and beside it,
is the subject of `PullRace`, and the two agree where nothing comes in between
(`Outlet.exists_run_of_pull`). Servants that are etherealized stay in the list, and are never active
again. -/

namespace OmniEvents

open Transition

variable {Ref : Type}

/-! ## The events kept by the filter

What has been handed over is a beginning of what has been accepted, and what the filter keeps of it
is what the queue holds or has held. Pointers are counted in this order, so a pointer is a place in
it. -/

/-- The events handed to the queue that its filter has kept. -/
def Channel.kept (c : Channel Ref) : List Ptr :=
  c.consumerAdmin.handed.filter (c.consumerAdmin.queue.keepsAt c.heap)

theorem keepsAt_congr {q q' : EventQueue} {h h' : Heap} (hfilter : q'.filter = q.filter)
    (hevents : h.events <+: h'.events) {p : Ptr} (hp : p < h.events.length) :
    q'.keepsAt h' p = q.keepsAt h p := by
  obtain ⟨events, hevents⟩ := hevents
  unfold EventQueue.keepsAt
  rw [← hevents, List.getElem?_append_left hp]
  have hkeeps : q'.keeps = q.keeps := by
    funext event
    unfold EventQueue.keeps
    rw [hfilter]
  rw [hkeeps]

theorem ConsumerAdmin.sendAll_filter (ca : ConsumerAdmin) (h : Heap) (events : List Ptr) :
    (ca.sendAll h events).1.queue.filter = ca.queue.filter := by
  induction events generalizing ca h with
  | nil => rfl
  | cons event events ih =>
      rw [sendAll, ih, send, EventQueue.append_eq]
      split
      · rfl
      · rfl

theorem ConsumerAdmin.send_eq_sendAll (ca : ConsumerAdmin) (h : Heap) (event : Ptr) :
    ca.send h event = ca.sendAll h [event] := rfl

/-- What is true of a channel in every state of a run, also after its thread has ended. -/
structure Offering (realTimePush : Bool) (n : ℕ) (filter : Option Filter)
    (s : History Ref) : Prop where
  transfer : TransferInv realTimePush s
  buffer : BufferInv n s.channel.consumerAdmin.queue s.channel.heap s.channel.kept
    (s.channel.kept.length - (n + 1)) s.channel.kept.length
  filter : s.channel.consumerAdmin.queue.filter = filter
  /-- Events are handed over in the order of their numbers. -/
  handed : s.channel.consumerAdmin.handed = List.range s.channel.consumerAdmin.handed.length
  allocated : s.channel.consumerAdmin.handed.length ≤ s.channel.heap.events.length
  events : ∀ p < s.channel.consumerAdmin.handed.length, s.channel.heap.events[p]? = s.accepted[p]?

section Offer

variable {realTimePush : Bool} {n : ℕ} {filter : Option Filter} {s t : History Ref}

theorem offering_new (realTimePush : Bool) (n pullRetryPeriod_ms cyclePeriod_ns : ℕ)
    (filter : Option Filter) (now : ℕ × ℕ) :
    Offering realTimePush n filter
      (History.new (Channel.new n pullRetryPeriod_ms cyclePeriod_ns filter now) : History Ref) where
  transfer := transferInv_new ..
  buffer := bufferInv_new n filter
  filter := rfl
  handed := rfl
  allocated := le_rfl
  events := by
    intro p hp
    exact absurd hp (Nat.not_lt_zero p)

/-- While the thread runs, all events handed over have been accepted. -/
theorem Offering.handed_le (hs : Offering realTimePush n filter s)
    (hrun : s.channel.running = true) :
    s.channel.consumerAdmin.handed.length + s.channel.supplierAdmin.queue.length
      = s.accepted.length := by
  rw [← List.length_append, hs.transfer.order hrun, List.length_range]

/-- A list of events is handed over that continues those handed over before. -/
theorem Offering.sendAll (hs : Offering realTimePush n filter s) {h : Heap} (events : List Ptr)
    (hheap : s.channel.heap.events <+: h.events) (hfreed : h.freed = s.channel.heap.freed)
    (hevents : s.channel.consumerAdmin.handed ++ events
      = List.range (s.channel.consumerAdmin.handed.length + events.length))
    {c : Channel Ref} (hadmin : c.consumerAdmin = (s.channel.consumerAdmin.sendAll h events).1)
    (hc : c.heap = (s.channel.consumerAdmin.sendAll h events).2) :
    c.kept = s.channel.kept ++ events.filter (c.consumerAdmin.queue.keepsAt c.heap) ∧
      BufferInv n c.consumerAdmin.queue c.heap c.kept (c.kept.length - (n + 1)) c.kept.length := by
  have hhanded : ∀ p ∈ s.channel.consumerAdmin.handed, p < s.channel.heap.events.length := by
    intro p hp
    rw [hs.handed, List.mem_range] at hp
    exact hp.trans_le hs.allocated
  have hkeepsAt :
      c.consumerAdmin.queue.keepsAt c.heap = s.channel.consumerAdmin.queue.keepsAt h := by
    rw [hadmin, hc, ConsumerAdmin.sendAll_keepsAt]
  have hkept : c.kept = s.channel.kept ++ events.filter (c.consumerAdmin.queue.keepsAt c.heap) := by
    unfold Channel.kept
    rw [hkeepsAt, hadmin, (s.channel.consumerAdmin.sendAll_spec h events).1, List.filter_append]
    congr 1
    exact List.filter_congr fun p hp => keepsAt_congr rfl hheap (hhanded p hp)
  have hnodup : (s.channel.kept ++ events).Nodup := by
    refine List.Nodup.sublist (List.filter_sublist.append (List.Sublist.refl events)) ?_
    rw [hevents]
    exact List.nodup_range
  refine ⟨hkept, ?_⟩
  have hbuffer := BufferInv.sendAll (hs.buffer.allocate hheap hfreed) hnodup
  rw [hkept, hkeepsAt, hadmin, hc]
  exact hbuffer

/-- `push`: the event is queued or handed over at once. -/
theorem Offering.push (hs : Offering realTimePush n filter s) (hrun : s.channel.running = true)
    (event : Any) :
    Offering realTimePush n filter
        ⟨s.channel.push realTimePush event, s.accepted ++ [event], s.handedAtCycle⟩ ∧
      s.channel.kept <+: (s.channel.push realTimePush event).kept := by
  have htransfer := hs.transfer.push hrun event
  have hevents := hs.transfer.events hrun
  have hheap : s.channel.heap.events <+: (s.channel.heap.alloc event).2.events :=
    List.prefix_append _ _
  have hlength := hs.handed_le hrun
  have hle : s.channel.consumerAdmin.handed.length ≤ s.accepted.length := by omega
  by_cases hdirect : (realTimePush && !s.channel.supplierAdmin.useLocalQueue) = true
  · obtain ⟨hrt, hflag⟩ : realTimePush = true ∧ s.channel.supplierAdmin.useLocalQueue = false := by
      simpa using hdirect
    have hempty := hs.transfer.direct hrun hrt hflag
    rw [hempty, List.length_nil, Nat.add_zero] at hlength
    have hnext : s.channel.consumerAdmin.handed ++ [s.channel.heap.events.length]
        = List.range (s.channel.consumerAdmin.handed.length + 1) := by
      rw [List.range_succ, ← hs.handed, hevents, hlength]
    obtain ⟨hkept, hbuffer⟩ := hs.sendAll [s.channel.heap.events.length]
      (c := s.channel.push realTimePush event) hheap rfl hnext
      (by simp [Channel.push, hrt, hflag]; rfl) (by simp [Channel.push, hrt, hflag]; rfl)
    have hhanded : (s.channel.push realTimePush event).consumerAdmin.handed
        = s.channel.consumerAdmin.handed ++ [s.channel.heap.events.length] := by
      simp [Channel.push, hrt, hflag]
    have hheap' : (s.channel.push realTimePush event).heap.events = s.accepted ++ [event] := by
      simp [Channel.push, hrt, hflag, hevents]
    refine ⟨⟨htransfer, hbuffer, ?_, ?_, ?_, ?_⟩, hkept ▸ List.prefix_append _ _⟩
    · simp only [Channel.push, if_pos hdirect]
      rw [ConsumerAdmin.send_eq_sendAll, ConsumerAdmin.sendAll_filter]
      exact hs.filter
    · simp only [hhanded, List.length_append, List.length_singleton]
      exact hnext
    · simp only [hhanded, hheap', List.length_append, List.length_singleton]
      omega
    · exact fun p _ => congrArg (·[p]?) hheap'
  · have hpush : s.channel.push realTimePush event = { s.channel with
        heap := (s.channel.heap.alloc event).2
        supplierAdmin := { s.channel.supplierAdmin with
          queue := s.channel.supplierAdmin.queue ++ [(s.channel.heap.alloc event).1] } } := by
      simp only [Channel.push, if_neg hdirect]
    obtain ⟨hkept, hbuffer⟩ := hs.sendAll [] (c := s.channel.push realTimePush event)
      hheap rfl (by rw [List.append_nil]; exact hs.handed) (by rw [hpush]; rfl) (by rw [hpush]; rfl)
    refine ⟨⟨htransfer, hbuffer, ?_, ?_, ?_, ?_⟩, hkept ▸ List.prefix_append _ _⟩
    · rw [hpush]
      exact hs.filter
    · rw [hpush]
      exact hs.handed
    · rw [hpush]
      exact hs.allocated.trans hheap.length_le
    · rw [hpush]
      intro p _
      simp [hevents]

/-- A cycle hands over what has been accepted, or ends the thread and hands over nothing. -/
theorem Offering.cycle (hs : Offering realTimePush n filter s) (hrun : s.channel.running = true)
    (poll : Str → Option Reply) (now : ℕ × ℕ)
    (ht : TransferInv realTimePush ⟨s.channel.cycle poll now,
      s.accepted ++ s.channel.accepts (.cycle poll now),
      (s.channel.cycle poll now).consumerAdmin.handed.length⟩) :
    Offering realTimePush n filter ⟨s.channel.cycle poll now,
        s.accepted ++ s.channel.accepts (.cycle poll now),
        (s.channel.cycle poll now).consumerAdmin.handed.length⟩ ∧
      s.channel.kept <+: (s.channel.cycle poll now).kept := by
  have hevents := hs.transfer.events hrun
  have hlength := hs.handed_le hrun
  have hheap := s.channel.supplierAdmin.collect_heap s.channel.pullRetryPeriod_ms poll now
    s.channel.heap
  rcases hc : s.channel.supplierAdmin.collect s.channel.pullRetryPeriod_ms poll now s.channel.heap
    with ⟨sa, h, _ | events⟩
  · rw [hc] at hheap
    have hcycle : s.channel.cycle poll now
        = { s.channel with supplierAdmin := sa, heap := h, running := false } := by
      simp only [Channel.cycle, hc]
    obtain ⟨hkept, hbuffer⟩ := hs.sendAll [] (c := s.channel.cycle poll now)
      hheap.1 hheap.2 (by rw [List.append_nil]; exact hs.handed) (by rw [hcycle]; rfl)
      (by rw [hcycle]; rfl)
    refine ⟨⟨ht, hbuffer, ?_, ?_, ?_, ?_⟩, hkept ▸ List.prefix_append _ _⟩
    · rw [hcycle]
      exact hs.filter
    · rw [hcycle]
      exact hs.handed
    · rw [hcycle]
      exact hs.allocated.trans hheap.1.length_le
    · rw [hcycle]
      intro p hp
      -- the events of earlier cycles are where they were
      have hp' : p < s.accepted.length := by
        have hp : p < s.channel.consumerAdmin.handed.length := hp
        omega
      obtain ⟨more, hmore⟩ := hheap.1
      simp only at hmore ⊢
      rw [← hmore, List.getElem?_append_left (hevents ▸ hp'), List.getElem?_append_left hp',
        hevents]
  · rw [hc] at hheap
    obtain ⟨hqueue, hflag, hcollected, hqueued⟩ := SupplierAdmin.collect_spec _ _ _ _ _ hc
    have hsent := s.channel.consumerAdmin.sendAll_spec h events
    have hcycle : s.channel.cycle poll now = { s.channel with
        supplierAdmin := sa
        consumerAdmin := (s.channel.consumerAdmin.sendAll h events).1
        heap := (s.channel.consumerAdmin.sendAll h events).2 } := by
      simp only [Channel.cycle, hc]
    have hdone : (s.channel.cycle poll now).running = true := by
      rw [hcycle]
      exact hrun
    obtain ⟨-, -, hheap', hhanded⟩ := hs.transfer.cycle_complete hrun poll now hdone
    have hnext : s.channel.consumerAdmin.handed ++ events
        = List.range (s.channel.consumerAdmin.handed.length + events.length) := by
      rw [hcycle] at hhanded
      simp only [hsent.1] at hhanded
      have hcount := congrArg List.length hhanded
      rw [List.length_append, List.length_range] at hcount
      rw [hhanded, hcount]
    obtain ⟨hkept, hbuffer⟩ := hs.sendAll events (c := s.channel.cycle poll now) hheap.1 hheap.2
      hnext (by rw [hcycle]) (by rw [hcycle])
    refine ⟨⟨ht, hbuffer, ?_, ?_, ?_, ?_⟩, hkept ▸ List.prefix_append _ _⟩
    · rw [hcycle]
      exact (ConsumerAdmin.sendAll_filter ..).trans hs.filter
    · simp only [hhanded, List.length_range]
    · simp only [hhanded, hheap', List.length_range]
      exact le_rfl
    · exact fun p _ => congrArg (·[p]?) hheap'

theorem Offering.step (hs : Offering realTimePush n filter s) {a : Channel.Action Ref}
    (hst : s.step realTimePush a = some t) :
    Offering realTimePush n filter t ∧ s.channel.kept <+: t.channel.kept := by
  have htransfer := hs.transfer.step hst
  simp only [History.step, Option.map_eq_some_iff] at hst
  obtain ⟨c, hc, rfl⟩ := hst
  simp only [Channel.step] at hc
  split at hc
  · cases hc
  next hrun =>
  have hrun : s.channel.running = true := by simpa using hrun
  -- the steps of the pull consumers hand over nothing
  have hservants : ∀ f : List (ProxyPullConsumer Ref) → List (ProxyPullConsumer Ref),
      Offering realTimePush n filter ⟨s.channel.mapServants f, s.accepted ++ [], s.handedAtCycle⟩ ∧
        s.channel.kept <+: (s.channel.mapServants f).kept := by
    intro f
    rw [List.append_nil]
    exact ⟨⟨⟨hs.transfer.events, hs.transfer.order, hs.transfer.direct, hs.transfer.unused,
      hs.transfer.once⟩, hs.buffer, hs.filter, hs.handed, hs.allocated, hs.events⟩, List.prefix_rfl⟩
  cases a with
  | push event =>
      cases hc
      exact hs.push hrun event
  | cycle poll now =>
      cases hc
      exact hs.cycle hrun poll now htransfer
  | incarnate oid =>
      cases hc
      exact hservants _
  | connect_pull_supplier oid pullSupplier =>
      cases hc
      exact hservants _
  | disconnect_pull_consumer oid =>
      cases hc
      exact hservants _
  | etherealize oid =>
      cases hc
      exact hservants _

end Offer

/-! ## Proxies that supply consumers

A proxy of either kind is a reader with a consumer behind it. What its steps can mean for the reader
is little (`Moved`), and the rest of the module uses nothing else of them. -/

/-- A servant that gives events to a consumer, by pushing them or by being pulled from. -/
inductive SupplierServant (Ref : Type) where
  | push (p : PushServant Ref)
  | pull (p : ProxyPullSupplier Ref) (reader : Reader)
  deriving DecidableEq, Repr

/-- The `Reader` that the servant is. -/
def SupplierServant.reader : SupplierServant Ref → Reader
  | push p => p.reader
  | pull _ reader => reader

/-- A servant, and what it has read and given. -/
structure Outlet (Ref : Type) where
  servant : SupplierServant Ref
  /-- How many events the filter had kept when the servant was constructed. -/
  start : ℕ
  /-- What `nextEvent` has returned. -/
  read : List (Option Ptr)
  /-- What of it was sent to the consumer, or returned to it. -/
  given : List (Option Ptr)
  deriving DecidableEq, Repr

/-- What can happen to a servant and its consumer. -/
inductive Outlet.Action (Ref : Type) where
  | connect_push_consumer (pushConsumer : Option Ref)
  | connect_pull_consumer (pullConsumer : Option Ref) (now : ℕ)
  /-- The first half of a disconnect, and its second half. -/
  | deactivate
  | clearTarget
  | reply (reply : PushReply)
  /-- The manager's thread comes to the servant. -/
  | trigger (calls : TriggerCall → Bool)
  /-- `pull` or `try_pull`. -/
  | pull (now : ℕ)

namespace Outlet

/-- `trigger`, with the event that it reads and the one that it sends. -/
def trigger (log : Bool) (q : EventQueue) (o : Outlet Ref) (p : PushServant Ref)
    (calls : TriggerCall → Bool) : Outlet Ref :=
  let polled := !(p.req.isSome && calls .poll_response)
  let event := (p.reader.nextEvent q).1
  { o with
    servant := .push (p.trigger log calls q).servant
    read := if polled && p.pushes q && !calls .push then o.read ++ [event] else o.read
    given :=
      if polled && p.pushes q && !calls .push && !calls .send_deferred then o.given ++ [event]
      else o.given }

/-- `pull` and `try_pull` of a connected proxy. -/
def pull (q : EventQueue) (o : Outlet Ref) (p : ProxyPullSupplier Ref) (reader : Reader)
    (now : ℕ) : Outlet Ref :=
  let p := { p with timestamp := now }
  if reader.moreEvents q then
    let (event, reader) := reader.nextEvent q
    { o with servant := .pull p reader, read := o.read ++ [event], given := o.given ++ [event] }
  else { o with servant := .pull p reader }

/-- The steps of a servant. A call comes through as long as the object is active. -/
def step (log : Bool) (orb : Orb Ref) (q : EventQueue) (o : Outlet Ref) (a : Action Ref) :
    Option (Outlet Ref) :=
  match o.servant, a with
  | .push p, .connect_push_consumer pushConsumer =>
      if p.active then
        match p.connect_push_consumer orb pushConsumer with
        | .error _ => some o
        | .ok r => some { o with servant := .push { p with toProxyPushSupplier := r } }
      else none
  | .pull p reader, .connect_pull_consumer pullConsumer now =>
      if p.active then
        match p.connect_pull_consumer pullConsumer now with
        | .error _ => some o
        | .ok r => some { o with servant := .pull r reader }
      else none
  | .push p, .deactivate =>
      if p.active then some { o with servant := .push { p with active := false } } else none
  | .pull p reader, .deactivate =>
      if p.active then some { o with servant := .pull { p with active := false } reader } else none
  | .push p, .clearTarget =>
      if p.active then none else some { o with servant := .push { p with target := none } }
  | .pull p reader, .clearTarget =>
      if p.active then none else some { o with servant := .pull { p with target := none } reader }
  | .push p, .reply reply =>
      if p.req.isSome && p.reply.isNone then
        some { o with servant := .push { p with reply := some reply } }
      else none
  | .push p, .trigger calls => some (o.trigger log q p calls)
  | .pull p reader, .pull now =>
      if p.active && p.connected then some (o.pull q p reader now) else none
  | _, _ => none

/-- A proxy of `PullRace` as an outlet: all that it has returned was given to its client. -/
def ofPullProxy (r : PullProxy Ref) (start : ℕ) : Outlet Ref :=
  { servant := .pull r.toProxyPullSupplier r.reader
    start := start
    read := r.returned
    given := r.returned }

theorem pull_ofPullProxy (q : EventQueue) (r : PullProxy Ref) (start now : ℕ) :
    (ofPullProxy r start).pull q r.toProxyPullSupplier r.reader now =
      ofPullProxy (PullRace.pulled q r now) start := by
  unfold pull PullRace.pulled
  split
  · rfl
  · rfl

/-- A call of `pull`, one step here, is a run of its steps in `PullRace` with nothing in between. -/
theorem exists_run_of_pull {log : Bool} {orb : Orb Ref} {s : PullRace Ref} {i start now : ℕ}
    {r : PullProxy Ref} {o' : Outlet Ref} (hrun : s.channel.running = true)
    (hidle : s.pull = .idle) (hr : s.proxies[i]? = some r)
    (hstep : (ofPullProxy r start).step log orb s.channel.consumerAdmin.queue (.pull now) =
      some o') :
    ∃ k t r', Run PullRace.step s (.pull i now :: List.replicate k .pullStep) = some t ∧
      t.channel = s.channel ∧ t.pull = .idle ∧ t.proxies = s.proxies.set i r' ∧
      o' = ofPullProxy r' start := by
  obtain ⟨hconnected, ho'⟩ := Option.ite_none_right_eq_some.1 hstep
  rw [Bool.and_eq_true] at hconnected
  rw [pull_ofPullProxy] at ho'
  obtain ⟨k, t, hsteps, hchannel, -, hpull, hproxies⟩ :=
    PullRace.run_pull hrun hidle hr hconnected.2 now
  exact ⟨k, t, _, hsteps, hchannel, hpull, hproxies, (Option.some_inj.1 ho').symm⟩

/-- A step, taken apart. -/
inductive Stepped (log : Bool) (orb : Orb Ref) (q : EventQueue) (o : Outlet Ref) :
    Action Ref → Outlet Ref → Prop where
  /-- An exception has been raised. -/
  | refused (a : Action Ref) : Stepped log orb q o a o
  | connectPush (p : PushServant Ref) (pushConsumer : Option Ref) (r : ProxyPushSupplier Ref)
      (ho : o.servant = .push p) (hconnect : p.connect_push_consumer orb pushConsumer = .ok r) :
      Stepped log orb q o (.connect_push_consumer pushConsumer)
        { o with servant := .push { p with toProxyPushSupplier := r } }
  | deactivatePush (p : PushServant Ref) (ho : o.servant = .push p) :
      Stepped log orb q o .deactivate { o with servant := .push { p with active := false } }
  | clearPush (p : PushServant Ref) (ho : o.servant = .push p) :
      Stepped log orb q o .clearTarget { o with servant := .push { p with target := none } }
  | reply (p : PushServant Ref) (reply : PushReply) (ho : o.servant = .push p)
      (hreq : p.req.isSome = true) :
      Stepped log orb q o (.reply reply) { o with servant := .push { p with reply := some reply } }
  | trigger (p : PushServant Ref) (calls : TriggerCall → Bool) (ho : o.servant = .push p) :
      Stepped log orb q o (.trigger calls) (o.trigger log q p calls)
  /-- The other steps of a proxy that is pulled from leave its reader alone. -/
  | keepReader (a : Action Ref) (p p' : ProxyPullSupplier Ref) (reader : Reader)
      (ho : o.servant = .pull p reader) : Stepped log orb q o a { o with servant := .pull p' reader }
  | pull (p : ProxyPullSupplier Ref) (reader : Reader) (now : ℕ) (ho : o.servant = .pull p reader) :
      Stepped log orb q o (.pull now) (o.pull q p reader now)

theorem stepped_of_step {log : Bool} {orb : Orb Ref} {q : EventQueue} {o o' : Outlet Ref}
    {a : Action Ref} (h : o.step log orb q a = some o') : Stepped log orb q o a o' := by
  unfold step at h
  split at h
  · next p pushConsumer ho =>
      obtain ⟨-, h⟩ := Option.ite_none_right_eq_some.1 h
      split at h
      · cases h
        exact .refused _
      · next r hconnect =>
          cases h
          exact .connectPush p pushConsumer r ho hconnect
  · next p reader pullConsumer now ho =>
      obtain ⟨-, h⟩ := Option.ite_none_right_eq_some.1 h
      split at h
      · cases h
        exact .refused _
      · next r _ =>
          cases h
          exact .keepReader _ p r reader ho
  · next p ho =>
      obtain ⟨-, ⟨⟩⟩ := Option.ite_none_right_eq_some.1 h
      exact .deactivatePush p ho
  · next p reader ho =>
      obtain ⟨-, ⟨⟩⟩ := Option.ite_none_right_eq_some.1 h
      exact .keepReader _ p _ reader ho
  · next p ho =>
      obtain ⟨-, ⟨⟩⟩ := Option.ite_none_left_eq_some.1 h
      exact .clearPush p ho
  · next p reader ho =>
      obtain ⟨-, ⟨⟩⟩ := Option.ite_none_left_eq_some.1 h
      exact .keepReader _ p _ reader ho
  · next p reply ho =>
      obtain ⟨hfree, ⟨⟩⟩ := Option.ite_none_right_eq_some.1 h
      rw [Bool.and_eq_true] at hfree
      exact .reply p reply ho hfree.1
  · next p calls ho =>
      cases h
      exact .trigger p calls ho
  · next p reader now ho =>
      obtain ⟨-, ⟨⟩⟩ := Option.ite_none_right_eq_some.1 h
      exact .pull p reader now ho
  · cases h

/-- The reader with what it has returned. -/
def trace (o : Outlet Ref) : ReaderTrace := ⟨o.servant.reader, o.start, o.read⟩

/-- Is the event that is read lost? -/
def Action.loses : Action Ref → Bool
  | .trigger calls => calls .send_deferred
  | _ => false

/-- What a step can mean for the reader. -/
inductive Moved (q : EventQueue) (loses : Bool) (o o' : Outlet Ref) : Prop where
  | stayed (trace : o'.trace = o.trace) (given : o'.given = o.given)
  | read (more : o.servant.reader.moreEvents q = true)
      (trace : o'.trace = ⟨(o.servant.reader.nextEvent q).2, o.start,
        o.read ++ [(o.servant.reader.nextEvent q).1]⟩)
      (given : o'.given =
        if loses then o.given else o.given ++ [(o.servant.reader.nextEvent q).1])

theorem pushNext_reader (calls : TriggerCall → Bool) (q : EventQueue) (p : PushServant Ref)
    (busy : Bool) :
    (p.pushNext calls q busy).servant.reader =
      if p.req.isNone && p.target.isSome && p.reader.moreEvents q && !calls .push then
        (p.reader.nextEvent q).2
      else p.reader := by
  unfold PushServant.pushNext
  cases hpush : p.req.isNone && p.target.isSome && p.reader.moreEvents q with
  | false => simp
  | true => cases hcall : calls .push <;> cases calls .send_deferred <;> simp

theorem shutDown_reader (log : Bool) (calls : TriggerCall → Bool) (p : PushServant Ref) :
    (p.shutDown log calls).servant.reader = p.reader := by
  unfold PushServant.shutDown PushServant.disconnected
  split
  · split <;> rfl
  · split
    · rfl
    · split
      · rfl
      · split <;> rfl

/-- `trigger` moves the reader exactly when it takes an event for a push. -/
theorem trigger_reader (log : Bool) (calls : TriggerCall → Bool) (q : EventQueue)
    (p : PushServant Ref) :
    (p.trigger log calls q).servant.reader =
      if !(p.req.isSome && calls .poll_response) && p.pushes q && !calls .push then
        (p.reader.nextEvent q).2
      else p.reader := by
  cases hpoll : p.req.isSome && calls .poll_response with
  | true => simp [PushServant.trigger, hpoll]
  | false =>
      unfold PushServant.trigger PushServant.pushes
      rw [hpoll]
      cases hreq : p.req with
      | none => simpa [hreq] using pushNext_reader calls q p false
      | some opname =>
          cases hreply : p.reply with
          | none => simpa [hreq] using pushNext_reader calls q p false
          | some reply =>
              cases reply with
              | exception => simpa using shutDown_reader log calls p
              | returned =>
                  simpa using pushNext_reader calls q { p with req := none, reply := none } true
              | TIMEOUT =>
                  simpa using pushNext_reader calls q { p with req := none, reply := none } true

theorem trigger_moved (log : Bool) (q : EventQueue) {o : Outlet Ref} {p : PushServant Ref}
    (hp : o.servant = .push p) (calls : TriggerCall → Bool) :
    Moved q (calls .send_deferred) o (o.trigger log q p calls) := by
  have hreader : o.servant.reader = p.reader := by rw [hp]; rfl
  have htrigger := trigger_reader log calls q p
  cases hread : !(p.req.isSome && calls .poll_response) && p.pushes q && !calls .push with
  | false =>
      rw [hread, if_neg Bool.false_ne_true] at htrigger
      refine .stayed ?_ ?_
      · simp only [trace, trigger, hread, Bool.false_eq_true, if_false, SupplierServant.reader,
          htrigger, hp]
      · simp only [trigger, hread, Bool.false_and, Bool.false_eq_true, if_false]
  | true =>
      rw [hread, if_pos rfl] at htrigger
      have hpushes : p.pushes q = true := by
        rw [Bool.and_eq_true, Bool.and_eq_true] at hread
        exact hread.1.2
      refine .read ?_ ?_ ?_
      · rw [hreader]
        unfold PushServant.pushes at hpushes
        rw [Bool.and_eq_true] at hpushes
        exact hpushes.2
      · simp only [trace, trigger, hread, if_true, SupplierServant.reader, htrigger, hp]
      · rw [hreader]
        simp only [trigger, hread, Bool.true_and]
        cases calls .send_deferred with
        | true => rfl
        | false => rfl

theorem pull_moved (q : EventQueue) {o : Outlet Ref} {p : ProxyPullSupplier Ref} {reader : Reader}
    (hp : o.servant = .pull p reader) (now : ℕ) : Moved q false o (o.pull q p reader now) := by
  have hreader : o.servant.reader = reader := by rw [hp]; rfl
  unfold pull
  split
  · next hmore =>
      refine .read (hreader ▸ hmore) ?_ ?_
      · simp only [trace, SupplierServant.reader, hp]
      · simp only [hreader, Bool.false_eq_true, if_false]
  · exact .stayed (by simp only [trace, SupplierServant.reader, hp]) rfl

theorem step_moved {log : Bool} {orb : Orb Ref} {q : EventQueue} {o o' : Outlet Ref}
    {a : Action Ref} (h : o.step log orb q a = some o') : Moved q a.loses o o' := by
  -- a new servant with the reader of the old one
  have stayed : ∀ {old : SupplierServant Ref}, o.servant = old → ∀ servant,
      servant.reader = old.reader → Moved q a.loses o { o with servant := servant } := by
    intro old ho servant hservant
    exact .stayed (by simp only [trace, hservant, ho]) rfl
  cases stepped_of_step h with
  | refused => exact .stayed rfl rfl
  | connectPush p pushConsumer r ho hconnect => exact stayed ho _ rfl
  | deactivatePush p ho => exact stayed ho _ rfl
  | clearPush p ho => exact stayed ho _ rfl
  | reply p reply ho hreq => exact stayed ho _ rfl
  | trigger p calls ho => exact trigger_moved log q ho calls
  | keepReader _ p p' reader ho => exact stayed ho _ rfl
  | pull p reader now ho => exact pull_moved q ho now

end Outlet

/-! ## The channel with its proxies -/

/-- The channel and its suppliers, with all proxies that supply consumers. -/
structure Feed (Ref : Type) where
  history : History Ref
  outlets : List (Outlet Ref)

/-- A step on the side of the suppliers, or one of the proxies. -/
inductive Feed.Action (Ref : Type) where
  | channel (a : Channel.Action Ref)
  /-- The ORB incarnates a proxy that `obtain_push_supplier` or `obtain_pull_supplier` made a
      reference to. -/
  | incarnatePush (oid : Str)
  | incarnatePull (oid : Str) (now : ℕ)
  /-- Something happens to proxy `i`. -/
  | outlet (i : ℕ) (a : Outlet.Action Ref)

namespace Feed

/-- A channel that has just been made, without a proxy. -/
def new (c : Channel Ref) : Feed Ref := { history := History.new c, outlets := [] }

/-- `EventQueue` of the channel. -/
def queue (s : Feed Ref) : EventQueue := s.history.channel.consumerAdmin.queue

/-- The event that a pointer points to. -/
def event (s : Feed Ref) (p : Option Ptr) : Option Any := p.bind (s.history.channel.heap.events[·]?)

/-- `incarnate` constructs a servant, whose reader begins at the end of the queue. -/
def add (s : Feed Ref) (servant : SupplierServant Ref) : Feed Ref :=
  { s with outlets := s.outlets ++
      [{ servant := servant, start := s.history.channel.kept.length, read := [], given := [] }] }

/-- The steps. The queue is the one that the channel has when the step is taken. -/
def step (realTimePush log : Bool) (orb : Orb Ref) (s : Feed Ref) : Action Ref → Option (Feed Ref)
  | .channel a => (s.history.step realTimePush a).map fun h => { s with history := h }
  | .incarnatePush oid => some (s.add (.push (PushServant.new oid s.queue)))
  | .incarnatePull oid now =>
      some (s.add (.pull (ProxyPullSupplier.new oid true now) (Reader.new s.queue)))
  | .outlet i a =>
      match s.outlets[i]? with
      | none => none
      | some o => (o.step log orb s.queue a).map fun o => { s with outlets := s.outlets.set i o }

/-- The events that the channel has accepted and handed over, as far as its filter keeps them. -/
def offered (s : Feed Ref) : List Any :=
  (s.history.accepted.take s.history.channel.consumerAdmin.handed.length).filter s.queue.keeps

/-- The queue and its readers. -/
def world (s : Feed Ref) : QueueWorld :=
  { queue := s.queue
    heap := s.history.channel.heap
    kept := s.history.channel.kept
    readers := s.outlets.map Outlet.trace }

/-- How many kept events a proxy has not read. -/
def unread (s : Feed Ref) (o : Outlet Ref) : ℕ := s.world.unread o.trace

/-! ## The invariant -/

/-- `keepsUp i` stands for what is known of the past of proxy `i`. -/
structure Inv (realTimePush : Bool) (n : ℕ) (filter : Option Filter) (keepsUp : ℕ → Prop)
    (s : Feed Ref) : Prop where
  offering : Offering realTimePush n filter s.history
  world : WorldInv n keepsUp s.world
  given : ∀ i o, s.outlets[i]? = some o →
    o.given.Sublist o.read ∧ (keepsUp i → o.given = o.read)

section Steps

variable {realTimePush log : Bool} {orb : Orb Ref} {n : ℕ} {filter : Option Filter}
  {keepsUp : ℕ → Prop} {s t : Feed Ref}

/-- Events that are kept later do not change what a reader has returned. -/
theorem readerInv_extend {w w' : QueueWorld} {r : ReaderTrace} {nums : List ℕ}
    (h : ReaderInv n w r nums) (hkept : w.kept <+: w'.kept) : ReaderInv n w' r nums := by
  obtain ⟨more, hmore⟩ := hkept
  refine ⟨?_, h.skips, ?_, h.next⟩
  · rw [h.returned, ← hmore]
    refine List.map_congr_left ?_
    intro k hk
    rw [List.getElem?_append_left (h.lt_length k hk)]
  · rw [← hmore, List.length_append]
    exact h.bound.trans (Nat.le_add_right _ _)

theorem Inv.channel (hs : s.Inv realTimePush n filter keepsUp) {a : Channel.Action Ref}
    {h : History Ref} (hst : s.history.step realTimePush a = some h) :
    ({ s with history := h } : Feed Ref).Inv realTimePush n filter keepsUp := by
  obtain ⟨hoffering, hkept⟩ := hs.offering.step hst
  refine ⟨hoffering, ⟨queueInv_iff.2 hoffering.buffer, ?_⟩, hs.given⟩
  intro i r hr
  obtain ⟨nums, hnums, hkeeps⟩ := hs.world.readers i r hr
  exact ⟨nums, readerInv_extend hnums hkept, hkeeps⟩

theorem Inv.add (hs : s.Inv realTimePush n filter keepsUp) (hn : n + 1 ≤ 2 ^ 31 - 1)
    {servant : SupplierServant Ref} (hservant : servant.reader = Reader.new s.queue) :
    (s.add servant).Inv realTimePush n filter keepsUp := by
  have hworld : (s.add servant).world = s.world.newReader := by
    simp only [Feed.world, Feed.add, queue, QueueWorld.newReader, List.map_append,
      List.map_singleton, Outlet.trace, hservant]
  refine ⟨hs.offering, hworld ▸ hs.world.newReader hn, ?_⟩
  intro i o ho
  rcases List.mem_append.1 (List.mem_of_getElem? ho) with hmem | hmem
  · by_cases hlt : i < s.outlets.length
    · exact hs.given i o (by rwa [Feed.add, List.getElem?_append_left hlt] at ho)
    · obtain ⟨hi, -⟩ := List.getElem?_eq_some_iff.1 ho
      rw [Feed.add, List.getElem?_append_right (Nat.not_lt.1 hlt), List.getElem?_singleton] at ho
      split at ho
      · obtain rfl := Option.some.inj ho
        exact ⟨List.Sublist.refl _, fun _ => rfl⟩
      · cases ho
  · obtain rfl := List.mem_singleton.1 hmem
    exact ⟨List.Sublist.refl _, fun _ => rfl⟩

theorem Inv.outlet (hs : s.Inv realTimePush n filter keepsUp) (hn : n + 1 ≤ 2 ^ 31 - 1) {i : ℕ}
    {o o' : Outlet Ref} {loses : Bool} (ho : s.outlets[i]? = some o)
    (hmoved : Outlet.Moved s.queue loses o o')
    (hpast : keepsUp i → s.unread o ≤ n ∧ loses = false) :
    ({ s with outlets := s.outlets.set i o' } : Feed Ref).Inv realTimePush n filter keepsUp := by
  have hreader : s.world.readers[i]? = some o.trace := by
    simp only [Feed.world, List.getElem?_map, ho, Option.map_some]
  obtain ⟨hgiven, hall⟩ := hs.given i o ho
  have hset : o'.given.Sublist o'.read ∧ (keepsUp i → o'.given = o'.read) →
      ∀ j p, (s.outlets.set i o')[j]? = some p →
        p.given.Sublist p.read ∧ (keepsUp j → p.given = p.read) := by
    intro ho' j p hp
    rw [List.getElem?_set] at hp
    split at hp
    · next hij =>
        subst hij
        split at hp
        · obtain rfl := Option.some.inj hp
          exact ho'
        · cases hp
    · exact hs.given j p hp
  cases hmoved with
  | stayed htrace hsame =>
      have hworld : ({ s with outlets := s.outlets.set i o' } : Feed Ref).world = s.world := by
        have hlt : i < (s.outlets.map Outlet.trace).length := by
          rw [List.length_map]
          exact (List.getElem?_eq_some_iff.1 ho).1
        have hi : (s.outlets.map Outlet.trace)[i] = o.trace :=
          (List.getElem?_eq_some_iff.1 hreader).2
        simp only [Feed.world, queue, List.map_set, htrace]
        rw [← hi, List.set_getElem_self hlt]
      refine ⟨hs.offering, hworld ▸ hs.world, hset ?_⟩
      have hread : o'.read = o.read := congrArg ReaderTrace.returned htrace
      rw [hsame, hread]
      exact ⟨hgiven, hall⟩
  | read hmore htrace hsent =>
      have hworld : ({ s with outlets := s.outlets.set i o' } : Feed Ref).world
          = s.world.nextEvent i o.trace := by
        simp only [Feed.world, queue, List.map_set, htrace, QueueWorld.nextEvent]
        rfl
      have hread : o'.read = o.read ++ [(o.servant.reader.nextEvent s.queue).1] :=
        congrArg ReaderTrace.returned htrace
      refine ⟨hs.offering, ?_, hset ⟨?_, ?_⟩⟩
      · rw [hworld]
        exact hs.world.nextEvent hn hreader hmore (fun hk => (hpast hk).1)
      · rw [hread, hsent]
        split
        · exact hgiven.trans (List.sublist_append_left _ _)
        · exact hgiven.append (List.Sublist.refl _)
      · intro hk
        rw [hread, hsent, (hpast hk).2, hall hk]
        rfl

/-- Does the step lose an event read by proxy `i`? -/
def Action.loses (i : ℕ) : Action Ref → Bool
  | .outlet j a => decide (j = i) && a.loses
  | _ => false

/-- Before the step, proxy `i` has at most `n` kept events unread, and the step loses none of
    them. -/
def Punctual (n : ℕ) (s : Feed Ref) (a : Action Ref) (i : ℕ) : Prop :=
  (∀ o ∈ s.outlets[i]?, s.unread o ≤ n) ∧ a.loses i = false

instance (n : ℕ) (s : Feed Ref) (a : Action Ref) (i : ℕ) : Decidable (s.Punctual n a i) :=
  inferInstanceAs (Decidable (_ ∧ _))

theorem Inv.step (hs : s.Inv realTimePush n filter keepsUp) (hn : n + 1 ≤ 2 ^ 31 - 1)
    {a : Action Ref} (hpast : ∀ i, keepsUp i → s.Punctual n a i)
    (hst : s.step realTimePush log orb a = some t) : t.Inv realTimePush n filter keepsUp := by
  cases a with
  | channel a =>
      obtain ⟨h, hh, rfl⟩ := Option.map_eq_some_iff.1 hst
      exact hs.channel hh
  | incarnatePush oid =>
      cases hst
      exact hs.add hn rfl
  | incarnatePull oid now =>
      cases hst
      exact hs.add hn rfl
  | outlet i a =>
      simp only [Feed.step] at hst
      split at hst
      · cases hst
      · next o ho =>
          obtain ⟨o', ho', rfl⟩ := Option.map_eq_some_iff.1 hst
          refine hs.outlet hn ho (Outlet.step_moved ho') ?_
          intro hk
          obtain ⟨hunread, hsent⟩ := hpast i hk
          exact ⟨hunread o ho, by simpa [Action.loses] using hsent⟩

end Steps

/-! ## What consumers get

From the readers to the consumers: what is given is a part of what is read, all of it if no push
fails, and what is read is what `reader_law` says. -/

/-- The numbers below `k` of events that pass a test, looked up. -/
theorem map_filter_range {α : Type*} (xs : List α) (test : α → Bool) {k : ℕ} (hk : k ≤ xs.length) :
    ((List.range k).filter (fun i => (xs[i]?).any test)).map (xs[·]?)
      = ((xs.take k).filter test).map some := by
  induction k with
  | zero => rfl
  | succ k ih =>
      have hlt : k < xs.length := hk
      rw [List.range_succ, List.filter_append, List.map_append, ih hlt.le, List.take_add_one,
        List.getElem?_eq_getElem hlt, List.filter_append, List.map_append]
      cases htest : test xs[k] with
      | false => simp [List.getElem?_eq_getElem hlt, htest]
      | true => simp [List.getElem?_eq_getElem hlt, htest]

section Values

variable {realTimePush : Bool} {n : ℕ} {filter : Option Filter} {s : Feed Ref}

theorem handed_le_accepted (hs : Offering realTimePush n filter s.history) :
    s.history.channel.consumerAdmin.handed.length ≤ s.history.accepted.length := by
  by_contra hlt
  have hlt := Nat.not_le.1 hlt
  have hnone := hs.events s.history.accepted.length hlt
  rw [List.getElem?_eq_none le_rfl, List.getElem?_eq_none_iff] at hnone
  have := hs.allocated
  omega

/-- The kept pointers point to the events offered. -/
theorem map_event_kept (hs : Offering realTimePush n filter s.history) :
    s.history.channel.kept.map (s.history.channel.heap.events[·]?) = s.offered.map some := by
  rw [offered, ← map_filter_range _ _ (handed_le_accepted hs), Channel.kept]
  have hmem : ∀ p ∈ s.history.channel.consumerAdmin.handed,
      s.history.channel.heap.events[p]? = s.history.accepted[p]? := by
    intro p hp
    rw [hs.handed, List.mem_range] at hp
    exact hs.events p hp
  rw [← hs.handed]
  have hkeeps : s.history.channel.consumerAdmin.handed.filter
      (s.history.channel.consumerAdmin.queue.keepsAt s.history.channel.heap)
      = s.history.channel.consumerAdmin.handed.filter
          (fun i => (s.history.accepted[i]?).any s.queue.keeps) := by
    refine List.filter_congr ?_
    intro p hp
    rw [EventQueue.keepsAt, hmem p hp]
    rfl
  rw [hkeeps]
  refine List.map_congr_left ?_
  intro p hp
  exact hmem p (List.mem_filter.1 hp).1

theorem length_kept (hs : Offering realTimePush n filter s.history) :
    s.history.channel.kept.length = s.offered.length := by
  have h := congrArg List.length (map_event_kept hs)
  rwa [List.length_map, List.length_map] at h

theorem event_kept (hs : Offering realTimePush n filter s.history) (k : ℕ) :
    s.event s.history.channel.kept[k]? = s.offered[k]? := by
  have h := congrArg (·[k]?) (map_event_kept hs)
  simp only [List.getElem?_map] at h
  unfold event
  cases hkept : s.history.channel.kept[k]? with
  | none =>
      rw [hkept, Option.map_none, eq_comm, Option.map_eq_none_iff] at h
      rw [h]
      rfl
  | some p =>
      rw [hkept, Option.map_some] at h
      cases hoffered : s.offered[k]? with
      | none =>
          rw [hoffered] at h
          cases h
      | some e =>
          rw [hoffered, Option.map_some, Option.some_inj] at h
          exact h

end Values

variable {realTimePush log : Bool} {orb : Orb Ref} {n : ℕ} {filter : Option Filter} {s t : Feed Ref}

theorem inv_new (keepsUp : ℕ → Prop) (pullRetryPeriod_ms cyclePeriod_ns : ℕ) (now : ℕ × ℕ) :
    (new (Channel.new n pullRetryPeriod_ms cyclePeriod_ns filter now) : Feed Ref).Inv
      realTimePush n filter keepsUp where
  offering := offering_new ..
  world := ⟨queueInv_iff.2 (bufferInv_new n filter), by
    intro i r hr
    simp [Feed.world, new] at hr⟩
  given := by
    intro i o ho
    simp [new] at ho

/-- **Delivery in order.** In every run of a channel with an index for each slot in an `int`, with any
    suppliers, consumers and replies, each consumer is given events that were accepted and handed
    over, that the filter keeps, and that were kept after its proxy was made: each of them at most
    once, and in the order of their acceptance. An event that is about to be read has not been
    deleted. -/
theorem delivered_in_order (hn : n + 1 ≤ 2 ^ 31 - 1) (pullRetryPeriod_ms cyclePeriod_ns : ℕ)
    (now₀ : ℕ × ℕ) (as : List (Action Ref))
    (hrun : Run (step realTimePush log orb)
      (new (Channel.new n pullRetryPeriod_ms cyclePeriod_ns filter now₀)) as = some s)
    (o : Outlet Ref) (ho : o ∈ s.outlets) :
    (∃ nums : List ℕ, nums.Pairwise (· < ·) ∧ (∀ k ∈ nums, o.start ≤ k ∧ k < s.offered.length) ∧
      o.given.map s.event = nums.map (s.offered[·]?)) ∧
    (o.servant.reader.moreEvents s.queue = true →
      ∃ p e, (o.servant.reader.nextEvent s.queue).1 = some p ∧
        p ∉ s.history.channel.heap.freed ∧ s.event (some p) = some e ∧ e ∈ s.offered) := by
  have hs : s.Inv realTimePush n filter (fun _ => False) :=
    Run.invariant (fun _ _ _ hs hst => Inv.step hs hn (fun _ h => h.elim) hst) (inv_new ..) hrun
  obtain ⟨i, hi⟩ := List.mem_iff_getElem?.1 ho
  have hreader : s.world.readers[i]? = some o.trace := by
    simp only [Feed.world, List.getElem?_map, hi, Option.map_some]
  obtain ⟨nums, hnums, -⟩ := hs.world.readers i o.trace hreader
  refine ⟨?_, ?_⟩
  · have hread : o.read = nums.map (fun k => s.history.channel.kept[k]?) := hnums.returned
    obtain ⟨given, hgiven, heq⟩ := List.sublist_map_iff.1 (hread ▸ (hs.given i o hi).1)
    refine ⟨given, hnums.skips.strictlyIncreasing.sublist hgiven, ?_, ?_⟩
    · intro k hk
      have hk := hgiven.subset hk
      exact ⟨hnums.skips.start_le k hk, length_kept hs.offering ▸ hnums.lt_length k hk⟩
    · rw [heq, List.map_map]
      exact List.map_congr_left (fun k _ => event_kept hs.offering k)
  · intro hmore
    obtain ⟨hwin, hnext⟩ := hnums.nextEvent_eq hs.world.queue hn hmore
    have hlt := hwin.1
    have hget := List.getElem?_eq_getElem hlt
    obtain ⟨e, he⟩ : ∃ e, s.offered[RingWindow.wrapped (n + 1) s.world.kept.length
        (positionAfter o.trace.start nums)]? = some e := by
      refine ⟨_, List.getElem?_eq_getElem ?_⟩
      rw [← length_kept hs.offering]
      exact hlt
    refine ⟨_, e, (congrArg Prod.fst hnext).trans hget, ?_, ?_, List.mem_of_getElem? he⟩
    · intro hfreed
      have hfreed : _ ∈ s.world.heap.freed := hfreed
      rw [hs.world.queue.freed] at hfreed
      obtain ⟨j, hj, hjeq⟩ := List.getElem_of_mem hfreed
      rw [List.getElem_take, hs.world.queue.nodup.getElem_inj_iff] at hjeq
      rw [List.length_take] at hj
      have := hwin.2
      omega
    · rw [← he, ← event_kept hs.offering]
      exact congrArg s.event hget.symm

/-- The elements at consecutive places. -/
theorem map_getElem?_range' {α : Type*} {xs : List α} {start len : ℕ}
    (h : start + len ≤ xs.length) :
    (List.range' start len).map (xs[·]?) = ((xs.drop start).take len).map some := by
  refine List.ext_getElem? ?_
  intro i
  by_cases hi : i < len
  · have hlt : start + i < xs.length := by omega
    simp [hi, hlt]
  · have hi := Nat.not_lt.1 hi
    rw [List.getElem?_eq_none (by simpa using hi), List.getElem?_eq_none]
    simp only [List.length_map, List.length_take]
    omega

/-- A proxy that keeps up has given the kept events one after the other; when it has no more events,
    all of them. -/
theorem Inv.given_eq {keepsUp : ℕ → Prop} (hs : s.Inv realTimePush n filter keepsUp) {i : ℕ}
    (hkeeps : keepsUp i) {o : Outlet Ref} (ho : s.outlets[i]? = some o) (hunread : s.unread o ≤ n) :
    o.start + o.given.length ≤ s.history.channel.kept.length ∧
    o.given = (List.range' o.start o.given.length).map (s.history.channel.kept[·]?) ∧
    (o.servant.reader.moreEvents s.queue = false →
      o.start + o.given.length = s.history.channel.kept.length) := by
  have hreader : s.world.readers[i]? = some o.trace := by
    simp only [Feed.world, List.getElem?_map, ho, Option.map_some]
  obtain ⟨nums, hnums, hconsecutive⟩ := hs.world.readers i o.trace hreader
  have hnums' : nums = List.range' o.start nums.length := hconsecutive hkeeps
  have hread : o.given = nums.map (fun k => s.history.channel.kept[k]?) :=
    ((hs.given i o ho).2 hkeeps).trans hnums.returned
  have hlength : o.given.length = nums.length := by rw [hread, List.length_map]
  have hpos : positionAfter o.trace.start nums = o.start + o.given.length := by
    have hrange := positionAfter_range' o.start nums.length
    rwa [← hnums', ← hlength] at hrange
  refine ⟨hpos ▸ hnums.bound, ?_, ?_⟩
  · rw [hlength, ← hnums', hread]
  · intro hmore
    -- at most `n` events unread, and a multiple of `n + 1` of them
    have hmod : positionAfter o.trace.start nums % (n + 1) = s.world.kept.length % (n + 1) := by
      by_contra hne
      have htrue := (hnums.moreEvents_iff hs.world.queue).2 hne
      exact absurd (hmore.symm.trans htrue) Bool.false_ne_true
    have hle := hnums.bound
    rw [unread, QueueWorld.unread, hnums.position_eq hs.world.queue.nodup] at hunread
    have hdvd : n + 1 ∣ s.world.kept.length - positionAfter o.trace.start nums :=
      (Nat.modEq_iff_dvd' hle).1 hmod
    have hzero := Nat.eq_zero_of_dvd_of_lt hdvd (Nat.lt_succ_of_le hunread)
    have hall : positionAfter o.trace.start nums = s.world.kept.length := by omega
    exact hpos.symm.trans hall

/-- **Delivery in full.** In the same runs, a proxy that never has more than `n` kept events unread,
    and none of whose pushes fails to be sent, gives its consumer the events offered since it was
    made, one after the other; when it has no more events, all of them; and if then the local queue
    of the suppliers is empty, as after every completed cycle, these are all events accepted that
    the filter keeps. -/
theorem delivered_in_full (hn : n + 1 ≤ 2 ^ 31 - 1) (pullRetryPeriod_ms cyclePeriod_ns : ℕ)
    (now₀ : ℕ × ℕ) (as : List (Action Ref)) (i : ℕ)
    (hpast : Along (step realTimePush log orb) (fun s a => s.Punctual n a i)
      (new (Channel.new n pullRetryPeriod_ms cyclePeriod_ns filter now₀)) as)
    (hrun : Run (step realTimePush log orb)
      (new (Channel.new n pullRetryPeriod_ms cyclePeriod_ns filter now₀)) as = some s)
    (o : Outlet Ref) (ho : s.outlets[i]? = some o) (hunread : s.unread o ≤ n) :
    o.given.map s.event = ((s.offered.drop o.start).take o.given.length).map some ∧
    (o.servant.reader.moreEvents s.queue = false →
      o.given.map s.event = (s.offered.drop o.start).map some) ∧
    (s.history.channel.running = true → s.history.channel.supplierAdmin.queue = [] →
      s.offered = s.history.accepted.filter s.queue.keeps) := by
  have hs : s.Inv realTimePush n filter (· = i) :=
    Run.invariant_of_along (fun _ _ _ hs hok hst => Inv.step hs hn (fun _ h => h ▸ hok) hst)
      (inv_new ..) hpast hrun
  obtain ⟨hbound, hread, hall⟩ := hs.given_eq rfl ho hunread
  rw [length_kept hs.offering] at hbound hall
  have hgiven : o.given.map s.event
      = ((s.offered.drop o.start).take o.given.length).map some := by
    rw [← map_getElem?_range' hbound]
    conv_lhs => rw [hread, List.map_map]
    exact List.map_congr_left (fun k _ => event_kept hs.offering k)
  refine ⟨hgiven, ?_, ?_⟩
  · intro hmore
    have hall := hall hmore
    rw [hgiven, List.take_of_length_le]
    rw [List.length_drop]
    omega
  · intro hrunning hempty
    have horder := hs.offering.handed_le hrunning
    rw [hempty, List.length_nil, Nat.add_zero] at horder
    rw [offered, horder, List.take_length]

/-! ## One push consumer and one pull consumer -/

/-- An event that the filter of the witness keeps. -/
def longEvent : Any := ⟨⟨.tk_long, []⟩, [1]⟩

/-- An event that the filter of the witness rejects. -/
def shortEvent : Any := ⟨⟨.tk_short, []⟩, [2]⟩

/-- Of three events the filter keeps two; the first is appended directly, and pushed before the
    others are transferred. -/
def twoConsumers : List (Action Str) :=
  [.incarnatePush ['p'], .outlet 0 (.connect_push_consumer (some ['I'])), .incarnatePull ['q'] 0,
    .outlet 1 (.connect_pull_consumer none 0), .channel (.push longEvent),
    .outlet 0 (.trigger fun _ => false), .channel (.push shortEvent), .channel (.push longEvent),
    .channel (.cycle (fun _ => none) (0, 0)), .outlet 1 (.pull 1), .outlet 0 (.reply .returned),
    .outlet 0 (.trigger fun _ => false), .outlet 1 (.pull 2)]

/-- A filter by `TCKind`. -/
def longsOnly : Option Filter := some (.FilterByTCKind .tk_long)

theorem delivered_in_order_two :
    ∃ s : Feed Str, Run (step true true stringOrb)
        (new (Channel.new 4 0 0 longsOnly (0, 0))) twoConsumers = some s ∧
      ∀ o ∈ s.outlets, o.given = [some 0, some 2] ∧
        ∃ nums : List ℕ, nums.Pairwise (· < ·) ∧
          (∀ k ∈ nums, o.start ≤ k ∧ k < s.offered.length) ∧
          o.given.map s.event = nums.map (s.offered[·]?) := by
  obtain ⟨s, hrun, hgiven⟩ : ∃ s : Feed Str, Run (step true true stringOrb)
      (new (Channel.new 4 0 0 longsOnly (0, 0))) twoConsumers = some s ∧
      ∀ o ∈ s.outlets, o.given = [some 0, some 2] := ⟨_, rfl, by decide⟩
  refine ⟨s, hrun, ?_⟩
  intro o ho
  exact ⟨hgiven o ho, (delivered_in_order (by decide) 0 0 (0, 0) twoConsumers hrun o ho).1⟩

theorem delivered_in_full_two :
    ∃ (s : Feed Str) (o : Outlet Str), Run (step true true stringOrb)
        (new (Channel.new 4 0 0 longsOnly (0, 0))) twoConsumers = some s ∧
      s.outlets[0]? = some o ∧ o.given.map s.event = [some longEvent, some longEvent] ∧
      o.given.map s.event = (s.offered.drop o.start).map some ∧
      s.offered = s.history.accepted.filter s.queue.keeps := by
  obtain ⟨s, o, hrun, ho, hgiven, hunread, hmore, hrunning, hempty⟩ :
      ∃ (s : Feed Str) (o : Outlet Str), Run (step true true stringOrb)
        (new (Channel.new 4 0 0 longsOnly (0, 0))) twoConsumers = some s ∧
      s.outlets[0]? = some o ∧ o.given.map s.event = [some longEvent, some longEvent] ∧
      s.unread o ≤ 4 ∧ o.servant.reader.moreEvents s.queue = false ∧
      s.history.channel.running = true ∧ s.history.channel.supplierAdmin.queue = [] :=
    ⟨_, _, rfl, rfl, by decide, by decide, by decide, rfl, rfl⟩
  obtain ⟨-, hall, hoffered⟩ := delivered_in_full (by decide) 0 0 (0, 0) twoConsumers 0 (by decide)
    hrun o ho hunread
  exact ⟨s, o, hrun, ho, hgiven, hall hmore, hoffered hrunning hempty⟩

end Feed

end OmniEvents
