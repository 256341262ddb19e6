import OmniEvents.Overflow
import OmniEvents.TransferOrder

set_option autoImplicit false

/-! # Pulling while an event is appended

With `OMNIEVENTS_REAL_TIME_PUSH` the POA of the push consumers writes to the event queue while that
of the pull suppliers reads it, and no lock is held. Each POA has a single thread, so at most one
`push` and one `pull` are under way; both are split here into the accesses they make. A cycle of the
main loop runs only when neither is (`hold_requests` waits for them), and only a cycle clears
`_useLocalQueue`. A pull that has begun therefore sees the index of the writer move by one at most,
away from a slot that is not its own; `RaceInv.horizon` is the count that says so.

`pull` and `try_pull` differ in what they answer if there is no event, not in the steps they take. -/

namespace OmniEvents

open Transition RingWindow

variable {Ref : Type}

/-! ## The steps of `push` and `pull`

Each access to the queue is a step of its own. `run_push` and `run_pull` say what the steps of one
call come to when nothing comes between them. -/

/-- How far a direct `append` has come. -/
inductive PushPhase where
  | idle
  /-- `append` is about to ask the filter about the event. -/
  | created (p : Ptr)
  | deleted (p : Ptr)
  | stored
  /-- `append` has returned. -/
  | appended
  deriving DecidableEq, Repr

/-- How far proxy `i` has come with a `pull`. -/
inductive PullPhase where
  | idle
  | called (i : ℕ)
  /-- `moreEvents` was true. -/
  | tested (i : ℕ)
  /-- `nextEvent` has read the slot. -/
  | taken (i : ℕ) (event : Option Ptr)
  /-- `nextEvent` has returned, and its event is to be copied. -/
  | advanced (i : ℕ) (event : Option Ptr)
  deriving DecidableEq, Repr

/-- The proxy that pulls. -/
def PullPhase.proxy : PullPhase → Option ℕ
  | .idle => none
  | .called i | .tested i | .taken i _ | .advanced i _ => some i

/-- `ProxyPullSupplier_i` with its `Reader`, and the events it has returned. -/
structure PullProxy (Ref : Type) extends ProxyPullSupplier Ref where
  reader : Reader
  returned : List (Option Ptr)
  deriving DecidableEq, Repr

/-- The channel while calls of `push` and of `pull` are under way. `kept` is for the observer. -/
structure PullRace (Ref : Type) where
  channel : Channel Ref
  /-- The events that the filter kept, in the order in which they were stored. -/
  kept : List Ptr
  proxies : List (PullProxy Ref)
  push : PushPhase
  pull : PullPhase
  deriving DecidableEq, Repr

/-- A step of a supplier, of the client that pulls, or of one of the two calls that are under
    way. -/
inductive PullRace.Action (Ref : Type) where
  /-- A step on the side of the suppliers: a call of `push`, a cycle, or a call to a pull consumer. -/
  | channel (a : Channel.Action Ref)
  /-- The `push` under way takes its next step. -/
  | pushStep
  | incarnate (oid : Str) (now : ℕ)
  | connect_pull_consumer (i : ℕ) (pullConsumer : Option Ref) (now : ℕ)
  /-- `pull` of proxy `i` is called. -/
  | pull (i : ℕ) (now : ℕ)
  /-- The `pull` under way takes its next step. -/
  | pullStep

namespace PullRace

/-- A channel without proxies, in which nothing is under way. -/
def init (c : Channel Ref) : PullRace Ref :=
  { channel := c, kept := [], proxies := [], push := .idle, pull := .idle }

/-- `push` looks at `_useLocalQueue` and copies the event. -/
def callPush (s : PullRace Ref) (event : Any) : PullRace Ref :=
  let (p, h) := s.channel.heap.alloc event
  if s.channel.supplierAdmin.useLocalQueue then
    { s with channel := { s.channel with
        heap := h
        supplierAdmin := { s.channel.supplierAdmin with
          queue := s.channel.supplierAdmin.queue ++ [p] } } }
  else
    { s with
      channel := { s.channel with
        heap := h
        consumerAdmin := { s.channel.consumerAdmin with
          handed := s.channel.consumerAdmin.handed ++ [p] } }
      push := .created p }

/-- The queue of the channel has changed. -/
def setQueue (c : Channel Ref) (q : EventQueue) : Channel Ref :=
  { c with consumerAdmin := { c.consumerAdmin with queue := q } }

/-- The next step of the `push` under way: `append` asks the filter, deletes the old event, stores
    the new one and moves the index; then `push` sets `_useLocalQueue`. -/
def pushStep (s : PullRace Ref) : Option (PullRace Ref) :=
  let q := s.channel.consumerAdmin.queue
  match s.push with
  | .idle => none
  | .created p =>
      if q.keepsAt s.channel.heap p then
        some { s with channel := { s.channel with heap := q.deleteOld s.channel.heap }
                      push := .deleted p }
      else some { s with push := .appended }
  | .deleted p =>
      some { s with channel := setQueue s.channel (q.store p), kept := s.kept ++ [p], push := .stored }
  | .stored => some { s with channel := setQueue s.channel q.advance, push := .appended }
  | .appended =>
      some { s with channel := { s.channel with
                      supplierAdmin := { s.channel.supplierAdmin with useLocalQueue := true } }
                    push := .idle }

/-- The next step of the `pull` under way. -/
def pullStep (s : PullRace Ref) : Option (PullRace Ref) :=
  let q := s.channel.consumerAdmin.queue
  match s.pull with
  | .idle => none
  | .called i =>
      (s.proxies[i]?).map fun r =>
        if r.reader.moreEvents q then { s with pull := .tested i } else { s with pull := .idle }
  | .tested i =>
      (s.proxies[i]?).map fun r => { s with pull := .taken i (r.reader.nextEvent q).1 }
  | .taken i event =>
      (s.proxies[i]?).map fun r =>
        { s with proxies := s.proxies.set i { r with reader := (r.reader.nextEvent q).2 }
                 pull := .advanced i event }
  | .advanced i event =>
      (s.proxies[i]?).map fun r =>
        { s with proxies := s.proxies.set i { r with returned := r.returned ++ [event] }
                 pull := .idle }

/-- A cycle, whose events are stored before any other step. -/
def cycle (s : PullRace Ref) (poll : Str → Option Reply) (now : ℕ × ℕ) : PullRace Ref :=
  let c := s.channel.cycle poll now
  { s with
    channel := c
    kept := s.kept ++ (c.consumerAdmin.handed.drop s.channel.consumerAdmin.handed.length).filter
      (c.consumerAdmin.queue.keepsAt c.heap) }

/-- A call begins when its POA has no other under way. -/
def step (s : PullRace Ref) (a : Action Ref) : Option (PullRace Ref) :=
  if !s.channel.running then none
  else
    match a with
    | .channel (.push event) => if s.push = .idle then some (s.callPush event) else none
    | .channel (.cycle poll now) =>
        if s.push = .idle ∧ s.pull = .idle then some (s.cycle poll now) else none
    | .channel a => (s.channel.step true a).map fun c => { s with channel := c }
    | .pushStep => s.pushStep
    | .incarnate oid now =>
        some { s with proxies := s.proxies ++
          [{ ProxyPullSupplier.new oid true now with
              reader := Reader.new s.channel.consumerAdmin.queue, returned := [] }] }
    | .connect_pull_consumer i pullConsumer now =>
        if s.pull = .idle then
          (s.proxies[i]?).map fun r =>
            match r.toProxyPullSupplier.connect_pull_consumer pullConsumer now with
            | .error _ => s
            | .ok p => { s with proxies := s.proxies.set i { r with toProxyPullSupplier := p } }
        else none
    | .pull i now =>
        if s.pull = .idle then
          (s.proxies[i]?).map fun r =>
            if r.connected then
              { s with proxies := s.proxies.set i { r with timestamp := now }, pull := .called i }
            else s
        else none
    | .pullStep => s.pullStep

/-- Without any other step in between, the steps of `push` come to what `Channel.push` says. -/
theorem run_push {s : PullRace Ref} (hrun : s.channel.running = true) (hidle : s.push = .idle)
    (event : Any) : ∃ k t, Run step s (.channel (.push event) :: List.replicate k .pushStep) = some t ∧
      t.channel = s.channel.push true event ∧ t.push = .idle ∧ t.proxies = s.proxies ∧
      t.pull = s.pull := by
  obtain ⟨c, kept, proxies, push, pull⟩ := s
  obtain rfl : push = .idle := hidle
  have hrun : c.running = true := hrun
  cases hflag : c.supplierAdmin.useLocalQueue with
  | true =>
      refine ⟨0, callPush ⟨c, kept, proxies, .idle, pull⟩ event, ?_, ?_⟩
      · simp [run_cons, step, hrun]
      · simp [callPush, hflag, Channel.push]
  | false =>
      cases hkeep : c.consumerAdmin.queue.keepsAt (c.heap.alloc event).2 c.heap.events.length with
      | true =>
          refine ⟨4, ⟨c.push true event, kept ++ [c.heap.events.length], proxies, .idle, pull⟩, ?_,
            rfl, rfl, rfl, rfl⟩
          simp [List.replicate, run_cons, step, hrun, callPush, hflag, pushStep, hkeep, setQueue,
            Channel.push, ConsumerAdmin.send, EventQueue.append_eq]
      | false =>
          refine ⟨2, ⟨c.push true event, kept, proxies, .idle, pull⟩, ?_, rfl, rfl, rfl, rfl⟩
          simp [List.replicate, run_cons, step, hrun, callPush, hflag, pushStep, hkeep,
            Channel.push, ConsumerAdmin.send, EventQueue.append_eq]

/-- What `pull` or `try_pull` makes of a connected proxy, if nothing is appended meanwhile. -/
def pulled (q : EventQueue) (r : PullProxy Ref) (now : ℕ) : PullProxy Ref :=
  if r.reader.moreEvents q then
    { r with
      timestamp := now
      reader := (r.reader.nextEvent q).2
      returned := r.returned ++ [(r.reader.nextEvent q).1] }
  else { r with timestamp := now }

theorem run_pull {s : PullRace Ref} {i : ℕ} {r : PullProxy Ref}
    (hrun : s.channel.running = true) (hidle : s.pull = .idle) (hr : s.proxies[i]? = some r)
    (hconnected : r.connected = true) (now : ℕ) :
    ∃ k t, Run step s (.pull i now :: List.replicate k .pullStep) = some t ∧
      t.channel = s.channel ∧ t.push = s.push ∧ t.pull = .idle ∧
      t.proxies = s.proxies.set i (pulled s.channel.consumerAdmin.queue r now) := by
  obtain ⟨c, kept, proxies, push, pull⟩ := s
  obtain rfl : pull = .idle := hidle
  have hrun : c.running = true := hrun
  obtain ⟨hlt, rfl⟩ := List.getElem?_eq_some_iff.1 (show proxies[i]? = some r from hr)
  cases hmore : proxies[i].reader.moreEvents c.consumerAdmin.queue with
  | true =>
      refine ⟨4, ⟨c, kept, proxies.set i (pulled c.consumerAdmin.queue proxies[i] now), push,
        .idle⟩, ?_, rfl, rfl, rfl, rfl⟩
      simp [List.replicate, run_cons, step, hrun, hconnected, pullStep, hlt, hmore, pulled]
  | false =>
      refine ⟨1, ⟨c, kept, proxies.set i (pulled c.consumerAdmin.queue proxies[i] now), push,
        .idle⟩, ?_, rfl, rfl, rfl, rfl⟩
      simp [List.replicate, run_cons, step, hrun, hconnected, pullStep, hlt, hmore, pulled]

/-! ## What holds of a proxy

`m` is how often the index of the writer has moved, and `z` how often it will have when the next
cycle begins, if the event of the direct append is kept. -/

/-- The proxy is at position `pos`, and `nums` are the numbers of the events it returned. -/
structure Position (n m : ℕ) (kept : List Ptr) (r : PullProxy Ref) (pos : ℕ) (nums : List ℕ) :
    Prop where
  next : r.reader.next = ((pos % (n + 1) : ℕ) : ℤ)
  le : pos ≤ m
  returned : r.returned = nums.map (fun k => kept[k]?)
  increasing : nums.Pairwise (· < ·)
  lt : ∀ k ∈ nums, k < pos

/-- Event `e` is written, and stays in the buffer until the next cycle. -/
def Safe (n m z e : ℕ) : Prop := e < m ∧ z ≤ e + (n + 1)

/-- What the steps of `pull` so far have established. -/
def PullOk (n m z : ℕ) (kept : List Ptr) (pos : ℕ) (nums : List ℕ) : PullPhase → Prop
  | .idle | .called _ => True
  | .tested _ => pos < m ∧ (m < z → pos % (n + 1) ≠ m % (n + 1))
  | .taken _ event =>
      ∃ e, event = kept[e]? ∧ Safe n m z e ∧ pos ≤ e ∧ e % (n + 1) = pos % (n + 1)
  | .advanced _ event =>
      ∃ e, event = kept[e]? ∧ Safe n m z e ∧ pos = e + 1 ∧ ∀ k ∈ nums, k < e

/-- Every proxy is at a position, and the one that pulls has established what its phase says. -/
def ProxiesOk (n m z : ℕ) (kept : List Ptr) (pull : PullPhase) (proxies : List (PullProxy Ref)) :
    Prop :=
  ∀ i r, proxies[i]? = some r → ∃ pos nums, Position n m kept r pos nums ∧
    (pull.proxy = some i → PullOk n m z kept pos nums pull)

section Proxies

variable {n m z m' z' : ℕ} {kept kept' : List Ptr}

theorem Position.mono {r : PullProxy Ref} {pos : ℕ} {nums : List ℕ}
    (h : Position n m kept r pos nums) (hkept : kept <+: kept') (hlength : m ≤ kept.length)
    (hm : m ≤ m') : Position n m' kept' r pos nums := by
  obtain ⟨rest, rfl⟩ := hkept
  refine { h with le := h.le.trans hm, returned := ?_ }
  rw [h.returned]
  refine List.map_congr_left ?_
  intro k hk
  rw [List.getElem?_append_left ((h.lt k hk).trans_le (h.le.trans hlength))]

/-- The writer moves on, but not past the horizon. -/
theorem PullOk.mono {pos : ℕ} {nums : List ℕ} {pull : PullPhase}
    (h : PullOk n m z kept pos nums pull) (hkept : kept <+: kept') (hlength : m ≤ kept.length)
    (hm : m' = m ∨ m ≤ m' ∧ z' ≤ m') (hz : z' ≤ z) : PullOk n m' z' kept' pos nums pull := by
  obtain ⟨rest, rfl⟩ := hkept
  have hget : ∀ e, Safe n m z e → kept[e]? = (kept ++ rest)[e]? := fun e he =>
    (List.getElem?_append_left (he.1.trans_le hlength)).symm
  have hsafe : ∀ e, Safe n m z e → Safe n m' z' e := by
    unfold Safe
    omega
  cases pull with
  | idle => trivial
  | called i => trivial
  | tested i =>
      obtain ⟨hlt, hne⟩ := h
      refine ⟨by omega, ?_⟩
      intro hcold
      obtain rfl : m' = m := by omega
      exact hne (hcold.trans_le hz)
  | taken i event =>
      obtain ⟨e, hevent, he, hrest⟩ := h
      exact ⟨e, hevent.trans (hget e he), hsafe e he, hrest⟩
  | advanced i event =>
      obtain ⟨e, hevent, he, hrest⟩ := h
      exact ⟨e, hevent.trans (hget e he), hsafe e he, hrest⟩

theorem ProxiesOk.mono {pull : PullPhase} {proxies : List (PullProxy Ref)}
    (h : ProxiesOk n m z kept pull proxies) (hkept : kept <+: kept') (hlength : m ≤ kept.length)
    (hm : m' = m ∨ m ≤ m' ∧ z' ≤ m') (hz : z' ≤ z) :
    ProxiesOk n m' z' kept' pull proxies := by
  intro i r hr
  obtain ⟨pos, nums, hpos, hpull⟩ := h i r hr
  exact ⟨pos, nums, hpos.mono hkept hlength (by omega),
    fun hi => (hpull hi).mono hkept hlength hm hz⟩

/-- While no proxy pulls, the writer may go anywhere. -/
theorem ProxiesOk.mono_of_idle {pull : PullPhase} {proxies : List (PullProxy Ref)}
    (h : ProxiesOk n m z kept pull proxies) (hkept : kept <+: kept') (hlength : m ≤ kept.length)
    (hm : m ≤ m') (hidle : pull = .idle) : ProxiesOk n m' z' kept' pull proxies := by
  intro i r hr
  obtain ⟨pos, nums, hpos, -⟩ := h i r hr
  refine ⟨pos, nums, hpos.mono hkept hlength hm, ?_⟩
  intro hi
  rw [hidle] at hi
  cases hi

/-- One proxy changes, and is the only one of which the phase of the pull says anything. -/
theorem ProxiesOk.set {pull pull' : PullPhase} {proxies : List (PullProxy Ref)} {i : ℕ}
    {r : PullProxy Ref} (h : ProxiesOk n m z kept pull proxies)
    (hother : ∀ j, j ≠ i → pull'.proxy ≠ some j)
    (hr : ∃ pos nums, Position n m kept r pos nums ∧
      (pull'.proxy = some i → PullOk n m z kept pos nums pull')) :
    ProxiesOk n m z kept pull' (proxies.set i r) := by
  intro j r' hr'
  by_cases hij : i = j
  · subst hij
    have hlt : i < proxies.length := by
      have := (List.getElem?_eq_some_iff.1 hr').1
      rwa [List.length_set] at this
    rw [List.getElem?_set_self hlt] at hr'
    cases hr'
    exact hr
  · rw [List.getElem?_set_ne hij] at hr'
    obtain ⟨pos, nums, hpos, -⟩ := h j r' hr'
    exact ⟨pos, nums, hpos, fun hj => absurd hj (hother j (Ne.symm hij))⟩

/-- A new phase of the pull by proxy `i`, whose own fields stay. -/
theorem ProxiesOk.setPull {pull pull' : PullPhase} {proxies : List (PullProxy Ref)} {i : ℕ}
    (h : ProxiesOk n m z kept pull proxies) (hother : ∀ j, j ≠ i → pull'.proxy ≠ some j)
    (hi : ∀ r pos nums, proxies[i]? = some r → Position n m kept r pos nums →
      (pull.proxy = some i → PullOk n m z kept pos nums pull) →
      pull'.proxy = some i → PullOk n m z kept pos nums pull') :
    ProxiesOk n m z kept pull' proxies := by
  intro j r hr
  obtain ⟨pos, nums, hpos, hpull⟩ := h j r hr
  refine ⟨pos, nums, hpos, ?_⟩
  intro hj
  by_cases hij : j = i
  · subst hij
    exact hi r pos nums hr hpos hpull hj
  · exact absurd hj (hother j hij)

/-! ## Reading -/

variable {q : EventQueue} {h : Heap} {deleted pos : ℕ} {nums : List ℕ} {r : PullProxy Ref}

theorem Position.tested (hr : Position n m kept r pos nums)
    (hq : BufferInv n q h kept deleted m) (hmore : r.reader.moreEvents q = true) (i : ℕ) :
    PullOk n m z kept pos nums (.tested i) := by
  have hne : pos % (n + 1) ≠ m % (n + 1) := by
    simpa only [Reader.moreEvents, hr.next, hq.next, bne_iff_ne, ne_eq, Nat.cast_inj] using hmore
  refine ⟨lt_of_le_of_ne hr.le ?_, fun _ => hne⟩
  intro heq
  exact hne (by rw [heq])

/-- The slot holds the last event written to it, and that is not the one that a direct append is
    about to delete. -/
theorem Position.taken (hr : Position n m kept r pos nums)
    (hq : BufferInv n q h kept deleted m) (hlength : m ≤ kept.length) (hz : kept.length ≤ z)
    (hm : z ≤ m + 1) {i : ℕ} (htested : PullOk n m z kept pos nums (.tested i)) :
    PullOk n m z kept pos nums (.taken i (r.reader.nextEvent q).1) := by
  obtain ⟨hlt, hne⟩ := htested
  have hmod : wrapped (n + 1) m pos % (n + 1) = pos % (n + 1) := wrapped_mod pos
  have hwin : InWindow (n + 1) m (wrapped (n + 1) m pos) := wrapped_inWindow (Nat.succ_pos n) hlt
  have hsafe : Safe n m z (wrapped (n + 1) m pos) := by
    refine ⟨hwin.1, ?_⟩
    by_contra hgt
    -- the writer would be a whole turn ahead, at the slot of this position
    have hturn : m = wrapped (n + 1) m pos + (n + 1) := by
      have := hwin.2
      omega
    refine hne (by omega) ?_
    conv_rhs => rw [hturn]
    rw [Nat.add_mod_right, hmod]
  refine ⟨wrapped (n + 1) m pos, ?_, hsafe, Nat.le_add_right _ _, hmod⟩
  have hwin' : InWindow (n + 1) kept.length (wrapped (n + 1) m pos) :=
    ⟨hsafe.1.trans_le hlength, hz.trans hsafe.2⟩
  show q.slot r.reader.next = _
  rw [hr.next, ← hmod, EventQueue.slot_natCast, hq.slots _ hwin', Option.join_some]

/-- `nextEvent` moves the proxy to the position after the event it has read. -/
theorem Position.advanced (hr : Position n m kept r pos nums)
    (hq : BufferInv n q h kept deleted m) (hn : n + 1 ≤ 2 ^ 31 - 1) {i : ℕ} {event : Option Ptr}
    (htaken : PullOk n m z kept pos nums (.taken i event)) :
    ∃ pos', Position n m kept { r with reader := (r.reader.nextEvent q).2 } pos' nums ∧
      PullOk n m z kept pos' nums (.advanced i event) := by
  obtain ⟨e, hevent, hsafe, hle, hmod⟩ := htaken
  have hreader : r.reader = ⟨((e % (n + 1) : ℕ) : ℤ)⟩ := by rw [hmod, ← hr.next]
  have hlt : ∀ k ∈ nums, k < e := fun k hk => (hr.lt k hk).trans_le hle
  refine ⟨e + 1, ⟨?_, hsafe.1, hr.returned, hr.increasing, ?_⟩, e, hevent, hsafe, rfl, hlt⟩
  · show (r.reader.nextEvent q).2.next = _
    rw [hreader, Reader.nextEvent_snd hq.size hn]
  · exact fun k hk => Nat.lt_succ_of_lt (hlt k hk)

theorem Position.copied (hr : Position n m kept r pos nums) {i : ℕ} {event : Option Ptr}
    (hadvanced : PullOk n m z kept pos nums (.advanced i event)) :
    ∃ nums', Position n m kept { r with returned := r.returned ++ [event] } pos nums' := by
  obtain ⟨e, hevent, -, rfl, hlt⟩ := hadvanced
  refine ⟨nums ++ [e], hr.next, hr.le, ?_, ?_, ?_⟩
  · show r.returned ++ [event] = _
    rw [hr.returned, hevent, List.map_append]
    rfl
  · refine List.pairwise_append.2 ⟨hr.increasing, List.pairwise_singleton _ _, ?_⟩
    intro k hk e' he'
    rw [List.mem_singleton.1 he']
    exact hlt k hk
  · intro k hk
    rcases List.mem_append.1 hk with hk | hk
    · exact Nat.lt_succ_of_lt (hlt k hk)
    · rw [List.mem_singleton.1 hk]
      exact Nat.lt_succ_self e

end Proxies

end PullRace

/-! ## A cycle -/

theorem ProxyPullConsumer.collect_heap (p : ProxyPullConsumer Ref) (reply : Option Reply) (h : Heap)
    (queue : List Ptr) : h.events <+: (p.collect reply h queue).2.1.events ∧
      (p.collect reply h queue).2.1.freed = h.freed := by
  unfold collect
  split
  · split
    · exact ⟨List.prefix_rfl, rfl⟩
    · split <;> exact ⟨List.prefix_rfl, rfl⟩
  · simp only
    split
    · exact ⟨List.prefix_append _ _, rfl⟩
    · exact ⟨List.prefix_rfl, rfl⟩
  · exact ⟨List.prefix_rfl, rfl⟩

theorem collectAll_heap (poll : Str → Option Reply) (servants : List (ProxyPullConsumer Ref))
    (h : Heap) (queue : List Ptr) :
    h.events <+: (collectAll poll servants h queue).2.1.events ∧
      (collectAll poll servants h queue).2.1.freed = h.freed := by
  induction servants generalizing h queue with
  | nil => exact ⟨List.prefix_rfl, rfl⟩
  | cons p servants ih =>
      have hp := p.collect_heap (poll p.oid) h queue
      rw [collectAll]
      rcases hc : p.collect (poll p.oid) h queue with ⟨p', h', queue', raised⟩
      rw [hc] at hp
      cases raised with
      | true => exact hp
      | false => exact ⟨hp.1.trans (ih h' queue').1, (ih h' queue').2.trans hp.2⟩

/-- `collect` allocates events and deletes none, whether an exception escapes or not. -/
theorem SupplierAdmin.collect_heap (sa : SupplierAdmin Ref) (p : ℕ) (poll : Str → Option Reply)
    (now : ℕ × ℕ) (h : Heap) : h.events <+: (sa.collect p poll now h).2.1.events ∧
      (sa.collect p poll now h).2.1.freed = h.freed := by
  unfold collect
  split
  · exact ⟨List.prefix_rfl, rfl⟩
  · next servants _ =>
      have hall := collectAll_heap poll servants h sa.queue
      split
      · next heq => rwa [heq] at hall
      · next heq => rwa [heq] at hall

@[simp] theorem EventQueue.append_keepsAt (q : EventQueue) (h : Heap) (p : Ptr) :
    (q.append h p).1.keepsAt (q.append h p).2 = q.keepsAt h := by
  rw [append_eq]
  split
  · funext p'
    unfold keepsAt deleteOld
    rw [Heap.delete_events]
    rfl
  · rfl

theorem ConsumerAdmin.sendAll_keepsAt (ca : ConsumerAdmin) (h : Heap) (events : List Ptr) :
    (ca.sendAll h events).1.queue.keepsAt (ca.sendAll h events).2 = ca.queue.keepsAt h := by
  induction events generalizing ca h with
  | nil => rfl
  | cons event events ih =>
      rw [sendAll, ih]
      exact ca.queue.append_keepsAt h event

/-- A batch of events: those that the filter keeps are stored, in order. -/
theorem BufferInv.sendAll {n : ℕ} {ca : ConsumerAdmin} {h : Heap} {kept events : List Ptr}
    (hinv : BufferInv n ca.queue h kept (kept.length - (n + 1)) kept.length)
    (hnodup : (kept ++ events).Nodup) :
    let kept' := kept ++ events.filter (ca.queue.keepsAt h)
    BufferInv n (ca.sendAll h events).1.queue (ca.sendAll h events).2 kept'
      (kept'.length - (n + 1)) kept'.length := by
  induction events generalizing ca h kept with
  | nil => simpa [ConsumerAdmin.sendAll] using hinv
  | cons event events ih =>
      have hnew : event ∉ kept := fun hmem =>
        (List.disjoint_of_nodup_append hnodup) hmem List.mem_cons_self
      rw [ConsumerAdmin.sendAll, List.filter_cons]
      cases hkeep : ca.queue.keepsAt h event with
      | true =>
          have happend := hinv.append hkeep hnew
          have hrest := @ih (ca.send h event).1 (ca.send h event).2 (kept ++ [event]) happend
            (by simpa using hnodup)
          rw [show (ca.send h event).1.queue.keepsAt (ca.send h event).2 = ca.queue.keepsAt h from
            ca.queue.append_keepsAt h event] at hrest
          simpa using hrest
      | false =>
          have hsame : ca.send h event = (⟨ca.queue, ca.handed ++ [event]⟩, h) := by
            rw [ConsumerAdmin.send, EventQueue.append_eq, hkeep]
            rfl
          rw [hsame]
          refine ih hinv (hnodup.sublist ?_)
          exact (List.Sublist.refl kept).append (List.sublist_cons_self event events)

/-! ## The invariant of every run

Where the writer is, what it is about to delete, and that no reader which has tested for events is
at that slot. -/

/-- Is the slot of the oldest event deleted, and the index not yet moved on? -/
def PushPhase.deleting : PushPhase → ℕ
  | .deleted _ | .stored => 1
  | _ => 0

/-- Is the new event stored, and the index not yet moved on? -/
def PushPhase.late : PushPhase → ℕ
  | .stored => 1
  | _ => 0

/-- The event that `append` is to store. -/
def PushPhase.pending : PushPhase → List Ptr
  | .created p | .deleted p => [p]
  | _ => []

namespace PullRace

/-- May the index of the writer still move on in this cycle? -/
def hot (s : PullRace Ref) : ℕ :=
  match s.push with
  | .idle => if s.channel.supplierAdmin.useLocalQueue then 0 else 1
  | .created _ | .deleted _ | .stored => 1
  | .appended => 0

/-- What holds in every state of a run, `m` being how often the index of the writer has moved. -/
structure RaceInv (n m : ℕ) (s : PullRace Ref) : Prop where
  buffer : BufferInv n s.channel.consumerAdmin.queue s.channel.heap s.kept
    (m + s.push.deleting - (n + 1)) m
  count : s.kept.length = m + s.push.late
  order : s.channel.running = true → s.channel.consumerAdmin.handed ++ s.channel.supplierAdmin.queue
    = List.range s.channel.heap.events.length
  direct : s.channel.running = true → s.channel.supplierAdmin.useLocalQueue = false →
    s.channel.supplierAdmin.queue = []
  flag : s.push ≠ .idle → s.channel.supplierAdmin.useLocalQueue = false
  pending : (s.kept ++ s.push.pending).Sublist s.channel.consumerAdmin.handed
  proxies : ProxiesOk n m (m + s.hot) s.kept s.pull s.proxies
  pulling : ∀ i, s.pull.proxy = some i → i < s.proxies.length

theorem raceInv_init (n pullRetryPeriod_ms cyclePeriod_ns : ℕ) (filter : Option Filter)
    (now : ℕ × ℕ) :
    RaceInv n 0
      (init (Channel.new n pullRetryPeriod_ms cyclePeriod_ns filter now) : PullRace Ref) where
  buffer := bufferInv_new n filter
  count := rfl
  order := fun _ => rfl
  direct := fun _ _ => rfl
  flag := fun h => absurd rfl h
  pending := List.nil_sublist _
  proxies := by
    intro i r hr
    simp [init] at hr
  pulling := by
    intro i hi
    cases hi

variable {n m : ℕ} {s : PullRace Ref}

theorem RaceInv.callPush (hs : RaceInv n m s) (hrun : s.channel.running = true)
    (hidle : s.push = .idle) (event : Any) : RaceInv n m (s.callPush event) := by
  have hbuffer := hs.buffer.allocate (List.prefix_append s.channel.heap.events [event])
    (Heap.alloc_freed s.channel.heap event)
  have horder := hs.order hrun
  have hproxies := hs.proxies
  unfold hot at hproxies
  rw [hidle] at hproxies
  unfold PullRace.callPush
  cases hflag : s.channel.supplierAdmin.useLocalQueue with
  | true =>
      rw [hflag] at hproxies
      refine ⟨hbuffer, hs.count, ?_, ?_, fun h => absurd hidle h, hs.pending, ?_, hs.pulling⟩
      · intro _
        simp [← List.append_assoc, horder, List.range_succ]
      · intro _ h
        exact Bool.noConfusion (hflag.symm.trans h)
      · simpa [hot, hidle, hflag] using hproxies
  | false =>
      rw [hflag] at hproxies
      have hempty := hs.direct hrun hflag
      rw [hempty, List.append_nil] at horder
      have hpending := hs.pending
      rw [hidle] at hpending
      have hcount := hs.count
      rw [hidle] at hbuffer hcount
      refine ⟨hbuffer, hcount, ?_, fun _ _ => hempty, fun _ => hflag, ?_, hproxies, hs.pulling⟩
      · intro _
        simp [hempty, horder, List.range_succ]
      · simpa [PushPhase.pending] using hpending

/-- An event handed over and not yet stored has been allocated, and is not among the kept ones. -/
theorem RaceInv.fresh (hs : RaceInv n m s) (hrun : s.channel.running = true) {p : Ptr}
    (hp : s.push.pending = [p]) : p < s.channel.heap.events.length ∧ p ∉ s.kept := by
  have horder := hs.order hrun
  have hpending := hs.pending
  rw [hp] at hpending
  have hmem : p ∈ s.channel.consumerAdmin.handed := hpending.subset (by simp)
  have hhanded : s.channel.consumerAdmin.handed.Nodup := by
    have hall : (List.range s.channel.heap.events.length).Nodup := List.nodup_range
    rw [← horder] at hall
    exact hall.of_append_left
  refine ⟨List.mem_range.1 (horder ▸ List.mem_append_left _ hmem), ?_⟩
  intro hkept
  exact List.disjoint_of_nodup_append (hhanded.sublist hpending) hkept (by simp)

theorem RaceInv.pushStep (hs : RaceInv n m s) (hrun : s.channel.running = true) {t : PullRace Ref}
    (h : s.pushStep = some t) : ∃ m', RaceInv n m' t := by
  have hbuffer := hs.buffer
  have hcount := hs.count
  have hproxies := hs.proxies
  have hpending := hs.pending
  unfold hot at hproxies
  unfold PullRace.pushStep at h
  cases hpush : s.push with
  | idle =>
      rw [hpush] at h
      cases h
  | created p =>
      rw [hpush] at h hbuffer hcount hproxies hpending
      have hflag := hs.flag (by simp [hpush])
      simp only at h
      split at h
      · cases h
        have hlength : s.kept.length = m := hcount
        refine ⟨m, ?_, hcount, ?_, hs.direct, fun _ => hflag, hpending, hproxies, hs.pulling⟩
        · subst hlength
          exact hbuffer.deleteOld
        · unfold EventQueue.deleteOld
          rw [Heap.delete_events]
          exact hs.order
      · cases h
        have hlength : m ≤ s.kept.length := hcount.ge
        refine ⟨m, hbuffer, hcount, hs.order, hs.direct, fun _ => hflag, ?_,
          hproxies.mono List.prefix_rfl hlength (.inl rfl) (Nat.le_succ m), hs.pulling⟩
        simpa [PushPhase.pending] using (List.sublist_append_left s.kept [p]).trans hpending
  | deleted p =>
      rw [hpush] at h hbuffer hcount hproxies hpending
      have hflag := hs.flag (by simp [hpush])
      obtain ⟨halloc, hnew⟩ := hs.fresh hrun (p := p) (by rw [hpush]; rfl)
      cases h
      have hlength : s.kept.length = m := hcount
      refine ⟨m, ?_, ?_, hs.order, hs.direct, fun _ => hflag, ?_,
        hproxies.mono (List.prefix_append _ _) hlength.ge (.inl rfl) le_rfl, hs.pulling⟩
      · subst hlength
        exact hbuffer.store (by simp [PushPhase.deleting]) halloc hnew
      · simp [hlength, PushPhase.late]
      · simpa [PushPhase.pending, setQueue] using hpending
  | stored =>
      rw [hpush] at h hbuffer hcount hproxies hpending
      have hflag := hs.flag (by simp [hpush])
      cases h
      have hlength : s.kept.length = m + 1 := hcount
      refine ⟨m + 1, hbuffer.advance, hcount, hs.order, hs.direct, fun _ => hflag, hpending,
        hproxies.mono List.prefix_rfl (by omega) (.inr ⟨Nat.le_succ m, le_rfl⟩) le_rfl, hs.pulling⟩
  | appended =>
      rw [hpush] at h hbuffer hcount hproxies hpending
      cases h
      exact ⟨m, hbuffer, hcount, hs.order, fun _ h => Bool.noConfusion h, fun h => absurd rfl h,
        hpending, hproxies, hs.pulling⟩

theorem RaceInv.cycle (hs : RaceInv n m s) (hrun : s.channel.running = true)
    (hidle : s.push = .idle ∧ s.pull = .idle) (poll : Str → Option Reply) (now : ℕ × ℕ) :
    ∃ m', RaceInv n m' (s.cycle poll now) := by
  have hbuffer := hs.buffer
  have hcount := hs.count
  have hpending := hs.pending
  have horder := hs.order hrun
  rw [hidle.1] at hbuffer hcount hpending
  obtain rfl : s.kept.length = m := hcount
  have hpending : s.kept.Sublist s.channel.consumerAdmin.handed := by
    simpa [PushPhase.pending] using hpending
  have hheap := s.channel.supplierAdmin.collect_heap s.channel.pullRetryPeriod_ms poll now
    s.channel.heap
  unfold PullRace.cycle Channel.cycle
  rcases hc : s.channel.supplierAdmin.collect s.channel.pullRetryPeriod_ms poll now s.channel.heap
    with ⟨sa, h, _ | events⟩
  · -- the loop is over, and the calls stay held
    rw [hc] at hheap
    have hbuffer := hbuffer.allocate hheap.1 hheap.2
    have hproxies : ProxiesOk n s.kept.length
        (s.kept.length + hot { s with channel := { s.channel with
          supplierAdmin := sa, heap := h, running := false } }) s.kept s.pull s.proxies :=
      hs.proxies.mono_of_idle List.prefix_rfl le_rfl le_rfl hidle.2
    have hkept : s.kept ++ (s.channel.consumerAdmin.handed.drop
        s.channel.consumerAdmin.handed.length).filter
          (s.channel.consumerAdmin.queue.keepsAt h) = s.kept := by simp
    refine ⟨s.kept.length, ?_⟩
    simp only [hkept]
    refine ⟨?_, ?_, fun h => Bool.noConfusion h, fun h => Bool.noConfusion h,
      fun h => absurd hidle.1 h, ?_, hproxies, hs.pulling⟩
    · simpa [hidle.1] using hbuffer
    · simp [hidle.1, PushPhase.late]
    · simpa [hidle.1, PushPhase.pending] using hpending
  · rw [hc] at hheap
    obtain ⟨hqueue, hflag, hevents, hcollected⟩ := SupplierAdmin.collect_spec _ _ _ _ _ hc
    obtain ⟨hhanded, hsent⟩ := s.channel.consumerAdmin.sendAll_spec h events
    -- all that was accepted has now been handed over, in the order of allocation
    have hall : s.channel.consumerAdmin.handed ++ events = List.range h.events.length := by
      rw [hcollected, ← List.append_assoc, horder, hevents, range_append_range', List.length_append]
    have hnodup : (s.kept ++ events).Nodup := by
      refine List.Nodup.sublist (hpending.append (List.Sublist.refl events)) ?_
      rw [hall]
      exact List.nodup_range
    have hnew : ((s.channel.consumerAdmin.sendAll h events).1.handed.drop
        s.channel.consumerAdmin.handed.length).filter
          ((s.channel.consumerAdmin.sendAll h events).1.queue.keepsAt
            (s.channel.consumerAdmin.sendAll h events).2)
        = events.filter (s.channel.consumerAdmin.queue.keepsAt h) := by
      rw [hhanded, List.drop_left, ConsumerAdmin.sendAll_keepsAt]
    have hbuffer := BufferInv.sendAll (hbuffer.allocate hheap.1 hheap.2) hnodup
    simp only [hnew]
    refine ⟨(s.kept ++ events.filter (s.channel.consumerAdmin.queue.keepsAt h)).length, ?_, ?_,
      ?_, fun _ _ => hqueue, fun h => absurd hidle.1 h, ?_, hs.proxies.mono_of_idle
        (List.prefix_append _ _) le_rfl ?_ hidle.2, hs.pulling⟩
    · simpa [hidle.1, PushPhase.deleting] using hbuffer
    · simp [hidle.1, PushPhase.late]
    · intro _
      rw [hhanded, hqueue, List.append_nil, hall, hsent]
    · rw [hhanded]
      simpa [hidle.1, PushPhase.pending] using hpending.append List.filter_sublist
    · rw [List.length_append]
      exact Nat.le_add_right _ _

/-- The other steps on the side of the suppliers touch no event. -/
theorem RaceInv.mapServants (hs : RaceInv n m s)
    (f : List (ProxyPullConsumer Ref) → List (ProxyPullConsumer Ref)) :
    RaceInv n m { s with channel := s.channel.mapServants f } :=
  ⟨hs.buffer, hs.count, hs.order, hs.direct, hs.flag, hs.pending, hs.proxies, hs.pulling⟩

theorem RaceInv.channel (hs : RaceInv n m s) {a : Channel.Action Ref} {t : PullRace Ref}
    (h : s.step (.channel a) = some t) : ∃ m', RaceInv n m' t := by
  simp only [PullRace.step] at h
  split at h
  · cases h
  next hrun =>
  have hrun : s.channel.running = true := by simpa using hrun
  cases a with
  | push event =>
      simp only at h
      split at h
      · next hidle =>
          cases h
          exact ⟨m, hs.callPush hrun hidle event⟩
      · cases h
  | cycle poll now =>
      simp only at h
      split at h
      · next hidle =>
          cases h
          exact hs.cycle hrun hidle poll now
      · cases h
  | incarnate oid =>
      simp only [Channel.step, hrun] at h
      cases h
      exact ⟨m, hs.mapServants _⟩
  | connect_pull_supplier oid pullSupplier =>
      simp only [Channel.step, hrun] at h
      cases h
      exact ⟨m, hs.mapServants _⟩
  | disconnect_pull_consumer oid =>
      simp only [Channel.step, hrun] at h
      cases h
      exact ⟨m, hs.mapServants _⟩
  | etherealize oid =>
      simp only [Channel.step, hrun] at h
      cases h
      exact ⟨m, hs.mapServants _⟩

/-- A step that changes nothing but the proxies and the phase of the pull. -/
theorem RaceInv.setProxies (hs : RaceInv n m s) {proxies : List (PullProxy Ref)} {pull : PullPhase}
    (hproxies : ProxiesOk n m (m + s.hot) s.kept pull proxies)
    (hpulling : ∀ i, pull.proxy = some i → i < proxies.length) :
    RaceInv n m { s with proxies := proxies, pull := pull } :=
  ⟨hs.buffer, hs.count, hs.order, hs.direct, hs.flag, hs.pending, hproxies, hpulling⟩

/-- The length of the queue lets the reader's index fit into an `int`. -/
theorem RaceInv.incarnate (hs : RaceInv n m s) (hn : n + 1 ≤ 2 ^ 31 - 1)
    (p : ProxyPullSupplier Ref) :
    RaceInv n m { s with proxies := s.proxies ++
      [{ p with reader := Reader.new s.channel.consumerAdmin.queue, returned := [] }] } := by
  refine hs.setProxies ?_ ?_
  · intro i r hr
    rcases Nat.lt_trichotomy i s.proxies.length with hlt | heq | hgt
    · rw [List.getElem?_append_left hlt] at hr
      exact hs.proxies i r hr
    · subst heq
      rw [List.getElem?_concat_length] at hr
      cases hr
      have hlt : m % (n + 1) < n + 1 := Nat.mod_lt _ (Nat.succ_pos n)
      have hnext : (Reader.new s.channel.consumerAdmin.queue).next = ((m % (n + 1) : ℕ) : ℤ) := by
        simp only [Reader.new, hs.buffer.next]
        exact toInt_of_lt (by omega)
      refine ⟨m, [], ⟨hnext, le_rfl, rfl, List.Pairwise.nil, by simp⟩, ?_⟩
      intro hi
      exact absurd (hs.pulling _ hi) (Nat.lt_irrefl _)
    · rw [List.getElem?_eq_none (by simp; omega)] at hr
      cases hr
  · intro i hi
    rw [List.length_append]
    exact Nat.lt_add_right _ (hs.pulling i hi)

/-- A call to a proxy sets members that the reader has no part in. -/
theorem RaceInv.setMembers (hs : RaceInv n m s) {i : ℕ} {r : PullProxy Ref}
    (hr : s.proxies[i]? = some r) (p : ProxyPullSupplier Ref) {pull : PullPhase}
    (hpull : pull = .idle ∨ pull = .called i) :
    RaceInv n m { s with proxies := s.proxies.set i { r with toProxyPullSupplier := p }
                         pull := pull } := by
  refine hs.setProxies (hs.proxies.set ?_ ?_) ?_
  · rcases hpull with rfl | rfl
    · exact fun j _ => nofun
    · exact fun j hj h => hj (Option.some.inj h).symm
  · obtain ⟨pos, nums, hpos, -⟩ := hs.proxies i r hr
    refine ⟨pos, nums, { hpos with }, ?_⟩
    intro _
    rcases hpull with rfl | rfl <;> trivial
  · intro j hj
    rw [List.length_set]
    rcases hpull with rfl | rfl
    · cases hj
    · cases hj
      exact (List.getElem?_eq_some_iff.1 hr).1

/-- A phase after the first write is one in which the index is still to move. -/
theorem hot_bounds (s : PullRace Ref) :
    s.push.late ≤ s.push.deleting ∧ s.push.deleting ≤ s.hot ∧ s.hot ≤ 1 := by
  unfold hot
  cases s.push with
  | idle =>
      refine ⟨le_rfl, Nat.zero_le _, ?_⟩
      show (if _ then 0 else 1) ≤ 1
      split <;> decide
  | created p => exact ⟨le_rfl, Nat.zero_le _, le_rfl⟩
  | deleted p => exact ⟨Nat.zero_le _, le_rfl, le_rfl⟩
  | stored => exact ⟨le_rfl, le_rfl, le_rfl⟩
  | appended => exact ⟨le_rfl, le_rfl, Nat.zero_le _⟩

theorem RaceInv.horizon (hs : RaceInv n m s) :
    m ≤ s.kept.length ∧ s.kept.length ≤ m + s.hot ∧ m + s.hot ≤ m + 1 := by
  have hcount := hs.count
  have hbounds := hot_bounds s
  omega

theorem RaceInv.pullStep (hs : RaceInv n m s) (hn : n + 1 ≤ 2 ^ 31 - 1) {t : PullRace Ref}
    (h : s.pullStep = some t) : RaceInv n m t := by
  obtain ⟨hlength, hz, hm⟩ := hs.horizon
  have hother : ∀ i j : ℕ, j ≠ i → some i ≠ some j := fun i j hj h => hj (Option.some.inj h).symm
  have hproxies := hs.proxies
  have hpulling := hs.pulling
  unfold PullRace.pullStep at h
  cases hpull : s.pull with
  | idle =>
      rw [hpull] at h
      cases h
  | called i =>
      rw [hpull] at h hpulling
      obtain ⟨r, hr, rfl⟩ := Option.map_eq_some_iff.1 h
      split
      · next hmore =>
          refine hs.setProxies (hproxies.setPull (hother i) ?_) hpulling
          intro r' pos nums hr' hpos _ _
          obtain rfl : r = r' := Option.some.inj (hr.symm.trans hr')
          exact hpos.tested hs.buffer hmore i
      · refine hs.setProxies (hproxies.setPull (i := i) (fun j _ => nofun) ?_) (fun j => nofun)
        intro _ _ _ _ _ _ hi
        cases hi
  | tested i =>
      rw [hpull] at h hpulling hproxies
      obtain ⟨r, hr, rfl⟩ := Option.map_eq_some_iff.1 h
      refine hs.setProxies (hproxies.setPull (hother i) ?_) hpulling
      intro r' pos nums hr' hpos htested _
      obtain rfl : r = r' := Option.some.inj (hr.symm.trans hr')
      exact hpos.taken hs.buffer hlength hz hm (htested rfl)
  | taken i event =>
      rw [hpull] at h hpulling hproxies
      obtain ⟨r, hr, rfl⟩ := Option.map_eq_some_iff.1 h
      obtain ⟨pos, nums, hpos, htaken⟩ := hproxies i r hr
      obtain ⟨pos', hpos', hadvanced⟩ := hpos.advanced hs.buffer hn (htaken rfl)
      refine hs.setProxies (hproxies.set (hother i) ⟨pos', nums, hpos', fun _ => hadvanced⟩) ?_
      rw [List.length_set]
      exact hpulling
  | advanced i event =>
      rw [hpull] at h hpulling hproxies
      obtain ⟨r, hr, rfl⟩ := Option.map_eq_some_iff.1 h
      obtain ⟨pos, nums, hpos, hadvanced⟩ := hproxies i r hr
      obtain ⟨nums', hpos'⟩ := hpos.copied (hadvanced rfl)
      exact hs.setProxies (hproxies.set (fun j _ => nofun)
        ⟨pos, nums', hpos', nofun⟩) (fun j => nofun)

theorem RaceInv.step (hs : RaceInv n m s) (hn : n + 1 ≤ 2 ^ 31 - 1) {a : Action Ref}
    {t : PullRace Ref} (h : s.step a = some t) : ∃ m', RaceInv n m' t := by
  cases a with
  | channel a => exact hs.channel h
  | pushStep =>
      simp only [PullRace.step] at h
      split at h
      · cases h
      next hrun =>
      exact hs.pushStep (by simpa using hrun) h
  | incarnate oid now =>
      simp only [PullRace.step] at h
      split at h
      · cases h
      · cases h
        exact ⟨m, hs.incarnate hn _⟩
  | connect_pull_consumer i pullConsumer now =>
      simp only [PullRace.step] at h
      split at h
      · cases h
      split at h
      · next hidle =>
          obtain ⟨r, hr, rfl⟩ := Option.map_eq_some_iff.1 h
          refine ⟨m, ?_⟩
          split
          · exact hs
          · next p _ => exact hs.setMembers hr p (.inl hidle)
      · cases h
  | pull i now =>
      simp only [PullRace.step] at h
      split at h
      · cases h
      split at h
      · next hidle =>
          obtain ⟨r, hr, rfl⟩ := Option.map_eq_some_iff.1 h
          refine ⟨m, ?_⟩
          split
          · exact hs.setMembers hr _ (.inr rfl)
          · exact hs
      · cases h
  | pullStep =>
      simp only [PullRace.step] at h
      split at h
      · cases h
      · exact ⟨m, hs.pullStep hn h⟩

theorem raceInv_of_run {pullRetryPeriod_ms cyclePeriod_ns : ℕ} {filter : Option Filter}
    {now : ℕ × ℕ} {acts : List (Action Ref)} (hn : n + 1 ≤ 2 ^ 31 - 1)
    (hrun : Run PullRace.step
      (init (Channel.new n pullRetryPeriod_ms cyclePeriod_ns filter now)) acts = some s) :
    ∃ m, RaceInv n m s := by
  have hstep : ∀ (s : PullRace Ref) a t, (∃ m, RaceInv n m s) → PullRace.step s a = some t →
      ∃ m, RaceInv n m t :=
    fun _ _ _ ⟨_, hs⟩ h => hs.step hn h
  exact Run.invariant hstep ⟨0, raceInv_init ..⟩ hrun

/-- An event that stays in the buffer until the next cycle is not deleted. -/
theorem RaceInv.not_freed (hs : RaceInv n m s) {e : ℕ} (he : Safe n m (m + s.hot) e) :
    ∃ p ∈ s.kept, s.kept[e]? = some p ∧ p ∉ s.channel.heap.freed := by
  have hlt : e < s.kept.length := he.1.trans_le hs.horizon.1
  refine ⟨s.kept[e], List.getElem_mem hlt, List.getElem?_eq_getElem hlt, fun hfreed => ?_⟩
  rw [hs.buffer.freed] at hfreed
  obtain ⟨j, hj, hjeq⟩ := List.getElem_of_mem hfreed
  rw [List.getElem_take, hs.buffer.nodup.getElem_inj_iff] at hjeq
  rw [List.length_take] at hj
  have hdeleting := (hot_bounds s).2.1
  have := he.2
  omega

/-- **A pull never copies a freed event.** In every run whose queue length leaves the indices of its
    slots within an `int`, what `nextEvent` has read is an event that the filter kept and that is not
    deleted before it is copied, and each proxy returns kept events in the order in which they were
    appended, none of them twice. -/
theorem pull_not_freed (n : ℕ) (hn : n + 1 ≤ 2 ^ 31 - 1) (pullRetryPeriod_ms cyclePeriod_ns : ℕ)
    (filter : Option Filter) (now : ℕ × ℕ) (acts : List (Action Ref)) (s : PullRace Ref)
    (hrun : Run step (init (Channel.new n pullRetryPeriod_ms cyclePeriod_ns filter now)) acts
      = some s) :
    (∀ i event, s.pull = .taken i event ∨ s.pull = .advanced i event →
      ∃ p ∈ s.kept, event = some p ∧ p ∉ s.channel.heap.freed) ∧
    ∀ (i : ℕ) (r : PullProxy Ref), s.proxies[i]? = some r →
      ∃ nums : List ℕ, r.returned = nums.map (fun k => s.kept[k]?) ∧
        (∀ k ∈ nums, k < s.kept.length) ∧ nums.Pairwise (· < ·) := by
  obtain ⟨m, hs⟩ := raceInv_of_run hn hrun
  constructor
  · intro i event hpull
    have hi : s.pull.proxy = some i := by rcases hpull with h | h <;> rw [h] <;> rfl
    obtain ⟨pos, nums, -, hok⟩ := hs.proxies i _ (List.getElem?_eq_getElem (hs.pulling i hi))
    have hok := hok hi
    obtain ⟨e, rfl, hsafe⟩ : ∃ e, event = s.kept[e]? ∧ Safe n m (m + s.hot) e := by
      rcases hpull with h | h <;> rw [h] at hok <;> obtain ⟨e, hevent, hsafe, -⟩ := hok <;>
        exact ⟨e, hevent, hsafe⟩
    obtain ⟨p, hp, hget, hfreed⟩ := hs.not_freed hsafe
    exact ⟨p, hp, hget, hfreed⟩
  · intro i r hr
    obtain ⟨pos, nums, hpos, -⟩ := hs.proxies i r hr
    refine ⟨nums, hpos.returned, ?_, hpos.increasing⟩
    intro k hk
    exact (hpos.lt k hk).trans_le (hpos.le.trans hs.horizon.1)

/-- A proxy is one event behind, and pulls while the next event takes the last slot of a buffer of
    two: what it has read is the older event. -/
theorem pull_not_freed_during_append :
    ∃ s : PullRace Str, Run step (init (Channel.new 1 0 0 none (0, 0)))
        [.incarnate ['p'] 0, .connect_pull_consumer 0 none 0, .channel (.push anyLong), .pushStep,
          .pushStep, .pushStep, .pushStep, .channel (.cycle (fun _ => none) (0, 0)),
          .channel (.push anyLong), .pull 0 1, .pullStep, .pushStep, .pushStep, .pullStep, .pushStep,
          .pullStep] = some s ∧
      s.kept = [0, 1] ∧ s.pull = .advanced 0 (some 0) ∧
      ∃ p ∈ s.kept, some 0 = some p ∧ p ∉ s.channel.heap.freed := by
  obtain ⟨s, hrun, hkept, hpull⟩ : ∃ s : PullRace Str,
      Run step (init (Channel.new 1 0 0 none (0, 0)))
        [.incarnate ['p'] 0, .connect_pull_consumer 0 none 0, .channel (.push anyLong), .pushStep,
          .pushStep, .pushStep, .pushStep, .channel (.cycle (fun _ => none) (0, 0)),
          .channel (.push anyLong), .pull 0 1, .pullStep, .pushStep, .pushStep, .pullStep, .pushStep,
          .pullStep] = some s ∧ s.kept = [0, 1] ∧ s.pull = .advanced 0 (some 0) := ⟨_, rfl, rfl, rfl⟩
  exact ⟨s, hrun, hkept, hpull,
    (pull_not_freed 1 (by decide) 0 0 none (0, 0) _ s hrun).1 0 (some 0) (.inr hpull)⟩

/-! ## An index that is no `int`

From 2^31 slots on the index of a reader does not fit its type. Then the slot that it reads is
outside the buffer. -/

/-- Nothing is under way after `k` events have been pushed and transferred. -/
structure Pushed (n k : ℕ) (s : PullRace Ref) : Prop where
  phases : s.push = .idle ∧ s.pull = .idle ∧ s.proxies = []
  running : s.channel.running = true
  admin : s.channel.supplierAdmin.pullConsumer = none ∧ s.channel.supplierAdmin.queue = [] ∧
    s.channel.supplierAdmin.useLocalQueue = false
  next : s.channel.consumerAdmin.queue.next = k % (n + 1)
  size : s.channel.consumerAdmin.queue.size = n + 1
  filter : s.channel.consumerAdmin.queue.filter = none

theorem run_pushes (n k : ℕ) : ∃ acts, ∃ s : PullRace Ref,
    Run step (init (Channel.new n 0 0 none (0, 0))) acts = some s ∧ Pushed n k s := by
  induction k with
  | zero => exact ⟨[], _, rfl, ⟨rfl, rfl, rfl⟩, rfl, ⟨rfl, rfl, rfl⟩, (Nat.zero_mod _).symm, rfl, rfl⟩
  | succ k ih =>
      obtain ⟨acts, s, hrun, hs⟩ := ih
      obtain ⟨j, t, hpush, hchannel, hidle, hproxies, hpull⟩ :=
        run_push hs.running hs.phases.1 anyLong
      have hkeep : s.channel.consumerAdmin.queue.keepsAt (s.channel.heap.alloc anyLong).2
          s.channel.heap.events.length = true := by
        simp [EventQueue.keepsAt, EventQueue.keeps, hs.filter]
      have hdirect : s.channel.push true anyLong =
          { s.channel with
            heap := s.channel.consumerAdmin.queue.deleteOld (s.channel.heap.alloc anyLong).2
            consumerAdmin :=
              ⟨(s.channel.consumerAdmin.queue.store s.channel.heap.events.length).advance,
                s.channel.consumerAdmin.handed ++ [s.channel.heap.events.length]⟩
            supplierAdmin := { s.channel.supplierAdmin with useLocalQueue := true } } := by
        simp [Channel.push, ConsumerAdmin.send, EventQueue.append_eq, hkeep, hs.admin]
      have hrunning : t.channel.running = true := by
        rw [hchannel, hdirect]
        exact hs.running
      have hcycle : step t (.channel (.cycle (fun _ => none) (0, 0)))
          = some (t.cycle (fun _ => none) (0, 0)) := by
        simp [step, hrunning, hidle, hpull, hs.phases]
      refine ⟨acts ++ (.channel (.push anyLong) :: List.replicate j .pushStep ++
        [.channel (.cycle (fun _ => none) (0, 0))]), t.cycle (fun _ => none) (0, 0), ?_, ?_⟩
      · rw [run_append, hrun, Option.bind_some, run_concat]
        exact ⟨t, hpush, hcycle⟩
      · have hcycled : (t.cycle (fun _ => none) (0, 0)).channel =
            { s.channel with
              heap := s.channel.consumerAdmin.queue.deleteOld (s.channel.heap.alloc anyLong).2
              consumerAdmin :=
                ⟨(s.channel.consumerAdmin.queue.store s.channel.heap.events.length).advance,
                  s.channel.consumerAdmin.handed ++ [s.channel.heap.events.length]⟩
              supplierAdmin :=
                { s.channel.supplierAdmin with queue := [], useLocalQueue := false } } := by
          simp [cycle, Channel.cycle, SupplierAdmin.collect, ConsumerAdmin.sendAll, hchannel, hdirect,
            hs.admin]
        refine ⟨⟨hidle, hpull.trans hs.phases.2.1, hproxies.trans hs.phases.2.2⟩, ?_, ?_, ?_, ?_, ?_⟩
        all_goals rw [hcycled]
        · exact hs.running
        · exact ⟨hs.admin.1, rfl, rfl⟩
        · show (s.channel.consumerAdmin.queue.next + 1) % s.channel.consumerAdmin.queue.size = _
          rw [hs.size, hs.next, Nat.mod_add_mod]
        · exact hs.size
        · exact hs.filter

/-- A proxy made when the writer is at an index that is negative as an `int` reads no slot at all. -/
theorem exists_taken_of_not_int {n : ℕ} (hn : toInt n < 0) :
    ∃ acts, ∃ s : PullRace Str, Run step (init (Channel.new n 0 0 none (0, 0))) acts = some s ∧
      s.pull = .taken 0 none := by
  obtain ⟨acts, s, hrun, hs⟩ := @run_pushes Str n n
  have hnext : s.channel.consumerAdmin.queue.next = n := by
    rw [hs.next, Nat.mod_eq_of_lt (Nat.lt_succ_self n)]
  have hmore : (Reader.new s.channel.consumerAdmin.queue).moreEvents s.channel.consumerAdmin.queue
      = true := by
    simp only [Reader.moreEvents, Reader.new, hnext, bne_iff_ne, ne_eq]
    omega
  have hslot : ((Reader.new s.channel.consumerAdmin.queue).nextEvent s.channel.consumerAdmin.queue).1
      = none := by
    simp only [Reader.nextEvent, Reader.new, hnext, EventQueue.slot]
    exact if_neg (by omega)
  refine ⟨acts ++ [.incarnate ['p'] 0, .connect_pull_consumer 0 none 0, .pull 0 0, .pullStep,
    .pullStep], { s with
      proxies := [{ ProxyPullSupplier.new ['p'] true 0 with
        connected := true
        reader := Reader.new s.channel.consumerAdmin.queue, returned := [] }]
      pull := .taken 0 none }, ?_, rfl⟩
  rw [run_append, hrun, Option.bind_some]
  simp [run_cons, step, hs.running, hs.phases, ProxyPullSupplier.connect_pull_consumer,
    ProxyPullSupplier.new, pullStep, hmore, hslot]

/-- Where the queue is so long that an index does not fit into an `int`, what `nextEvent` returns is
    no event. -/
theorem pull_no_event :
    ∃ acts, ∃ s : PullRace Str, ∃ i event,
      Run step (init (Channel.new intLimit 0 0 none (0, 0))) acts = some s ∧
      s.pull = .taken i event ∧ ¬ ∃ p ∈ s.kept, event = some p ∧ p ∉ s.channel.heap.freed := by
  obtain ⟨acts, s, hrun, hpull⟩ := exists_taken_of_not_int (n := intLimit) (by decide)
  exact ⟨acts, s, 0, none, hrun, hpull, fun ⟨p, _, hp, _⟩ => nomatch hp⟩

end PullRace

end OmniEvents
