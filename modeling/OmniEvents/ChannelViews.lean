import OmniEvents.FailedCreation
import OmniEvents.ListChannels

set_option autoImplicit false

/-! # What the factory knows about a channel

That a channel of some name exists is recorded in three places: its POA has the name, the omniINSPOA has
a mapper of the name, and the store has the channel. A creation makes the first two and starts the
channel's thread, which makes the third some time later; at the end the thread takes the channel out of
the store, then destroys the POA, and when it has exited the channel is deleted and its destructor takes
the mapper away. `exists` and `list_channels` look into the store, `get_channel` and `join_channel`
into the omniINSPOA. Creations, threads, calls of `destroy` and of `list_channels` interleave in any
order. A client that has been given the new channel may ask before its thread has begun
(`views_agree`). -/

namespace OmniEvents

open Transition
open PersistNode (attrString)

namespace ChannelViews

/-! ## States -/

/-- How far the creation of a channel has come. -/
inductive CreationPhase where
  /-- The POA is there. -/
  | createdPOA
  /-- `setInsName` has returned. -/
  | mapped
  /-- `start_undetached` has returned. -/
  | started
  | returned
  | failed
  deriving DecidableEq, Repr

/-- What the channel's thread does next. -/
inductive ThreadPhase where
  | notStarted
  | insert
  | mainLoop
  | erase
  | destroyPOA
  /-- The thread is at its end, and the POA is not there any more. -/
  | ended
  | deleted
  /-- An exception has ended the thread. -/
  | exited
  deriving DecidableEq, Repr

/-- A channel that `create_object` has begun to make: what the factory, the store, the omniINSPOA
    and the POAs can see of it. -/
structure NamedChannel where
  name : Str
  properties : PersistNode
  creation : CreationPhase
  thread : ThreadPhase
  /-- A call of `destroy` has begun. -/
  destroyCalled : Bool
  shutdownRequested : Bool

/-- A call of `list_channels`, of which the sequence has its length. -/
structure ListCall where
  length : ℕ
  /-- It has the lock of the store. -/
  locked : Bool
  deriving DecidableEq, Repr

/-- The channels are numbered in the order of their creation. -/
structure FactoryViews where
  /-- The POAs of channels. -/
  poas : List (Str × ℕ)
  /-- The objects in the omniINSPOA, the mappers of channels and others. -/
  insPoa : List (Str × Option ℕ)
  /-- The store, by address. -/
  store : List ℕ
  channels : List NamedChannel
  lists : List ListCall

namespace NamedChannel

/-- A channel whose POA has just been created. -/
def new (name : Str) (properties : PersistNode) : NamedChannel :=
  ⟨name, properties, .createdPOA, .notStarted, false, false⟩

variable (c : NamedChannel)

/-- `InsName`, empty if the channel has none. -/
def insName : Str := c.properties.attrString keyInsName

/-- The creation has returned, and `destroy` has not been called. -/
structure Serving : Prop where
  returned : c.creation = .returned
  notDestroyed : c.destroyCalled = false
  insName_ne_nil : c.insName ≠ []

/-- The thread has put the channel into the store. -/
structure Inserted : Prop where
  started : c.thread ≠ .notStarted
  inserted : c.thread ≠ .insert

instance : Decidable c.Inserted :=
  decidable_of_iff (c.thread ≠ .notStarted ∧ c.thread ≠ .insert)
    ⟨fun h => ⟨h.1, h.2⟩, fun h => ⟨h.1, h.2⟩⟩

/-- Its POA exists, which the thread of the channel destroys at its end. -/
structure HasPOA : Prop where
  notEnded : c.thread ≠ .ended
  notDeleted : c.thread ≠ .deleted

instance : Decidable c.HasPOA :=
  decidable_of_iff (c.thread ≠ .ended ∧ c.thread ≠ .deleted)
    ⟨fun h => ⟨h.1, h.2⟩, fun h => ⟨h.1, h.2⟩⟩

end NamedChannel

namespace FactoryViews

/-- A factory without channels, whose own id is in the omniINSPOA. -/
def init : FactoryViews := ⟨[], [("omniEvents".toList, none)], [], [], []⟩

variable (s : FactoryViews)

/-- Channel `i` has become `c`. -/
def setChannel (i : ℕ) (c : NamedChannel) : FactoryViews :=
  { s with channels := s.channels.set i c }

/-- Somebody has the lock of the store. -/
def locked : Bool := s.lists.any (·.locked)

/-! ## The views

What four functions tell of the channels there are: `EventChannelStore::exists` and `list`,
`EventChannelFactory_i::get_channel`, and the omniINSPOA, which clients ask by the name of an
object. -/

/-- What `EventChannelStore::list` reads of a channel. -/
def stored (i : ℕ) : Option StoredChannel :=
  (s.channels[i]?).map fun c =>
    ⟨c.name, c.properties, s.insPoa.any fun e => decide (e.2 = some i)⟩

/-- `EventChannelStore::exists`. -/
def exists_ (cname : Str) : Bool :=
  s.store.any fun i => (s.stored i).any fun c => decide (c.name = cname)

/-- The names in the sequence that `list_channels` returns; those of blank entries are empty. What
    `operator[]` does past the length makes no difference to them (`ListChannels.fill_replicate`). -/
def listed (length : ℕ) : List Str :=
  (ListChannels.fill (fun _ _ => true) 0 (List.replicate length none) []
    ((s.store.filterMap s.stored).map (·.info))).1.map
      fun eci => (eci.map (·.channel_name)).getD []

/-- `get_channel`, with the channel that the mapper forwards to. -/
def get_channel (channel_name : Str) : Option ℕ := (s.insPoa.lookup channel_name).join

/-- `omniEvents.cc` asks the omniINSPOA: the number of the channel that has this `InsName`. -/
def join_channel (channel_name : Str) : Option ℕ := (s.insPoa.lookup channel_name).join

end FactoryViews

/-! ## Steps -/

/-- What can happen in the factory: a step of a creation, of a channel's thread or of its
    destruction. -/
inductive Action where
  /-- A creation, as far as its POA; it is refused if there is one of that name. -/
  | create (criteria : List Criterion) (uniqueId : { id : Str // id ≠ [] })
  /-- `setInsName`. -/
  | setInsName (i : ℕ)
  /-- Another call of `activate` raises. -/
  | raise (i : ℕ)
  | start (i : ℕ)
  /-- `_this()`, and the return. -/
  | returnThis (i : ℕ)
  /-- The channel's thread; `place` is that of the channel in the store. -/
  | thread (i place : ℕ) (raised : Bool)
  | delete (i : ℕ)
  | destroy (i : ℕ)
  | requestShutdown (i : ℕ)
  /-- `list_channels` sets the length of its sequence, takes the lock and releases it. -/
  | setLength
  | lock (j : ℕ)
  | unlock (j : ℕ)

namespace FactoryViews

/-- `_mapper->destroy()`. -/
def destroyMapper (s : FactoryViews) (c : NamedChannel) : List (Str × Option ℕ) :=
  if c.insName = [] then s.insPoa else OrdMap.erase c.insName s.insPoa

/-- `run_undetached`. -/
def threadStep (s : FactoryViews) (i : ℕ) (c : NamedChannel) (place : ℕ) (raised : Bool) :
    Option FactoryViews :=
  match c.thread with
  | .insert =>
      if s.locked then none
      else
        some { s.setChannel i { c with thread := .mainLoop } with
          store := s.store.take place ++ i :: s.store.drop place }
  -- the POA has a reference to the channel, so that the loop is left only for `destroy`
  | .mainLoop =>
      if raised then some (s.setChannel i { c with thread := .exited })
      else if c.shutdownRequested then some (s.setChannel i { c with thread := .erase })
      else none
  | .erase =>
      if s.locked then none
      else
        some { s.setChannel i { c with thread := .destroyPOA } with store := s.store.erase i }
  | .destroyPOA =>
      if raised then some (s.setChannel i { c with thread := .exited })
      else
        some { s.setChannel i { c with thread := .ended } with poas := OrdMap.erase c.name s.poas }
  | _ => none

/-- The steps of the creation of channel `i`, once it has its POA. -/
def creationStep (s : FactoryViews) (i : ℕ) (c : NamedChannel) : Action → Option FactoryViews
  | .setInsName _ =>
      if c.creation ≠ .createdPOA then none
      else if c.insName = [] then some (s.setChannel i { c with creation := .mapped })
      else
        match s.insPoa.lookup c.insName with
        -- `ObjectAlreadyActive`; the POA stays
        | some _ => some (s.setChannel i { c with creation := .failed })
        | none =>
            some { s.setChannel i { c with creation := .mapped } with
              insPoa := OrdMap.insert c.insName (some i) s.insPoa }
  | .raise _ =>
      match c.creation with
      | .createdPOA => some (s.setChannel i { c with creation := .failed })
      | .mapped =>
          some { s.setChannel i { c with creation := .failed } with insPoa := s.destroyMapper c }
      | _ => none
  | .start _ =>
      if c.creation = .mapped then
        some (s.setChannel i { c with creation := .started, thread := .insert })
      else none
  | .returnThis _ =>
      if c.creation = .started then some (s.setChannel i { c with creation := .returned }) else none
  | _ => none

/-- The steps. A creation goes on only where it has not been refused, and a thread takes its steps
    in the order of `EventChannel_i::run_undetached`. -/
def step (s : FactoryViews) : Action → Option FactoryViews
  | .create criteria uniqueId =>
      match parseCriteria criteria with
      | .error _ => some s
      | .ok node =>
          match s.poas.lookup (channelId node uniqueId) with
          -- `AdapterAlreadyExists`
          | some _ => some s
          | none =>
              some { s with
                poas := OrdMap.insert (channelId node uniqueId) s.channels.length s.poas
                channels := s.channels ++ [.new (channelId node uniqueId) node] }
  | .setInsName i => (s.channels[i]?).bind fun c => s.creationStep i c (.setInsName i)
  | .raise i => (s.channels[i]?).bind fun c => s.creationStep i c (.raise i)
  | .start i => (s.channels[i]?).bind fun c => s.creationStep i c (.start i)
  | .returnThis i => (s.channels[i]?).bind fun c => s.creationStep i c (.returnThis i)
  | .thread i place raised => (s.channels[i]?).bind fun c => s.threadStep i c place raised
  | .delete i =>
      (s.channels[i]?).bind fun c =>
        if c.thread = .ended then
          some { s.setChannel i { c with thread := .deleted } with insPoa := s.destroyMapper c }
        else none
  -- a call through the POA, or by `delete_all`
  | .destroy i =>
      (s.channels[i]?).bind fun c =>
        if c.Inserted ∧ c.HasPOA then some (s.setChannel i { c with destroyCalled := true })
        else none
  | .requestShutdown i =>
      (s.channels[i]?).bind fun c =>
        if c.destroyCalled then some (s.setChannel i { c with shutdownRequested := true }) else none
  | .setLength => some { s with lists := s.lists ++ [⟨s.store.length, false⟩] }
  | .lock j =>
      (s.lists[j]?).bind fun call =>
        if s.locked then none
        else some { s with lists := s.lists.set j { call with locked := true } }
  | .unlock j =>
      (s.lists[j]?).bind fun call =>
        if call.locked then some { s with lists := s.lists.eraseIdx j } else none

end FactoryViews

/-! ## What a step does

The steps of the thread and those of a creation, taken apart once. Every lemma on the invariant is
then about one kind of change, and not about a function with many branches. -/

/-- The thread, one case for each of its steps. -/
inductive ThreadStepped (s : FactoryViews) (i : ℕ) (c : NamedChannel) : FactoryViews → Prop where
  | insert (place : ℕ) (hthread : c.thread = .insert) (hfree : s.locked = false) :
      ThreadStepped s i c { s.setChannel i { c with thread := .mainLoop } with
        store := s.store.take place ++ i :: s.store.drop place }
  | exit (hthread : c.thread = .mainLoop ∨ c.thread = .destroyPOA) :
      ThreadStepped s i c (s.setChannel i { c with thread := .exited })
  | leave (hthread : c.thread = .mainLoop) (hshutdown : c.shutdownRequested = true) :
      ThreadStepped s i c (s.setChannel i { c with thread := .erase })
  | erase (hthread : c.thread = .erase) (hfree : s.locked = false) :
      ThreadStepped s i c { s.setChannel i { c with thread := .destroyPOA } with
        store := s.store.erase i }
  | destroyPOA (hthread : c.thread = .destroyPOA) :
      ThreadStepped s i c { s.setChannel i { c with thread := .ended } with
        poas := OrdMap.erase c.name s.poas }

theorem stepped_of_threadStep {s t : FactoryViews} {i : ℕ} {c : NamedChannel} {place : ℕ}
    {raised : Bool} (hst : s.threadStep i c place raised = some t) : ThreadStepped s i c t := by
  unfold FactoryViews.threadStep at hst
  split at hst
  · next hthread =>
      split at hst
      · cases hst
      · next hfree =>
          cases hst
          exact .insert place hthread (Bool.eq_false_iff.2 hfree)
  · next hthread =>
      split at hst
      · cases hst
        exact .exit (Or.inl hthread)
      · split at hst
        · next hshutdown =>
            cases hst
            exact .leave hthread hshutdown
        · cases hst
  · next hthread =>
      split at hst
      · cases hst
      · next hfree =>
          cases hst
          exact .erase hthread (Bool.eq_false_iff.2 hfree)
  · next hthread =>
      split at hst
      · cases hst
        exact .exit (Or.inr hthread)
      · cases hst
        exact .destroyPOA hthread
  · cases hst

/-- A creation, once it has its POA. -/
inductive CreationStepped (s : FactoryViews) (i : ℕ) (c : NamedChannel) :
    Action → FactoryViews → Prop where
  | unnamed (j : ℕ) (hcreation : c.creation = .createdPOA) (hins : c.insName = []) :
      CreationStepped s i c (.setInsName j) (s.setChannel i { c with creation := .mapped })
  | conflict (j : ℕ) (hcreation : c.creation = .createdPOA) :
      CreationStepped s i c (.setInsName j) (s.setChannel i { c with creation := .failed })
  | map (j : ℕ) (hcreation : c.creation = .createdPOA)
      (hfree : s.insPoa.lookup c.insName = none) :
      CreationStepped s i c (.setInsName j) { s.setChannel i { c with creation := .mapped } with
        insPoa := OrdMap.insert c.insName (some i) s.insPoa }
  | fail (j : ℕ) (hcreation : c.creation = .createdPOA) :
      CreationStepped s i c (.raise j) (s.setChannel i { c with creation := .failed })
  | failMapped (j : ℕ) (hcreation : c.creation = .mapped) :
      CreationStepped s i c (.raise j) { s.setChannel i { c with creation := .failed } with
        insPoa := s.destroyMapper c }
  | start (j : ℕ) (hcreation : c.creation = .mapped) :
      CreationStepped s i c (.start j)
        (s.setChannel i { c with creation := .started, thread := .insert })
  | returnThis (j : ℕ) (hcreation : c.creation = .started) :
      CreationStepped s i c (.returnThis j) (s.setChannel i { c with creation := .returned })

theorem stepped_of_creationStep {s t : FactoryViews} {i : ℕ} {c : NamedChannel} {a : Action}
    (hst : s.creationStep i c a = some t) : CreationStepped s i c a t := by
  unfold FactoryViews.creationStep at hst
  split at hst
  · split at hst
    · cases hst
    next hcreation =>
      rw [ne_eq, not_not] at hcreation
      split at hst
      · next hins =>
          cases hst
          exact .unnamed _ hcreation hins
      · split at hst
        · cases hst
          exact .conflict _ hcreation
        · next hfree =>
            cases hst
            exact .map _ hcreation hfree
  · split at hst
    · next hcreation =>
        cases hst
        exact .fail _ hcreation
    · next hcreation =>
        cases hst
        exact .failMapped _ hcreation
    · cases hst
  · split at hst
    · next hcreation =>
        cases hst
        exact .start _ hcreation
    · cases hst
  · split at hst
    · next hcreation =>
        cases hst
        exact .returnThis _ hcreation
    · cases hst
  · cases hst

/-! ## The invariant

Each channel says by its phases what is recorded of it, and the records of the factory are these and
no others. So a name, or an id of the omniINSPOA, is that of one channel at most. -/

namespace NamedChannel

variable (c : NamedChannel)

/-- Its mapper is in the omniINSPOA: `setInsName` has activated it, and nothing has destroyed it. -/
structure HasMapper : Prop where
  insName_ne_nil : c.insName ≠ []
  notCreatedPOA : c.creation ≠ .createdPOA
  notFailed : c.creation ≠ .failed
  notDeleted : c.thread ≠ .deleted

/-- The thread has put the channel into the store and not taken it out again. -/
def InStore : Prop :=
  c.thread = .mainLoop ∨ c.thread = .erase ∨ c.thread = .exited ∧ c.shutdownRequested = false

/-- Its thread has come out of `insert` and not through `erase`, if no exception has ended it. -/
def MayBeInStore : Prop := c.thread = .mainLoop ∨ c.thread = .erase ∨ c.thread = .exited

/-- What holds of a channel by itself. -/
structure Coherent : Prop where
  name_ne_nil : c.name ≠ []
  insName : c.insName ≠ [] → c.insName = c.name
  destroyCalled : c.shutdownRequested = true → c.destroyCalled = true
  leaving : c.thread = .erase ∨ c.thread = .destroyPOA ∨ c.thread = .ended ∨ c.thread = .deleted →
    c.shutdownRequested = true
  notStarted : c.creation = .createdPOA ∨ c.creation = .mapped ∨ c.creation = .failed →
    c.thread = .notStarted

end NamedChannel

/-- The three places have what the channel has in them. -/
structure Recorded (s : FactoryViews) (i : ℕ) (c : NamedChannel) : Prop where
  poa : c.HasPOA → s.poas.lookup c.name = some i
  mapper : c.HasMapper → s.insPoa.lookup c.insName = some (some i)
  store : c.InStore → i ∈ s.store

/-- The four views of one factory agree on every channel. -/
structure ViewsInv (s : FactoryViews) : Prop where
  coherent : ∀ (i : ℕ) (c : NamedChannel), s.channels[i]? = some c → c.Coherent
  recorded : ∀ i c, s.channels[i]? = some c → Recorded s i c
  store : ∀ i ∈ s.store, ∃ c, s.channels[i]? = some c ∧ c.MayBeInStore
  nodup : s.store.Nodup

section Invariant

variable {s t : FactoryViews} {i j : ℕ} {c c' d : NamedChannel}

theorem hasPOA_of_thread {thread : ThreadPhase} (hthread : c.thread = thread)
    (hended : thread ≠ .ended) (hdeleted : thread ≠ .deleted) : c.HasPOA :=
  ⟨hthread.trans_ne hended, hthread.trans_ne hdeleted⟩

theorem thread_of_mayBeInStore {thread : ThreadPhase} (h : c.MayBeInStore)
    (hthread : c.thread = thread) : thread = .mainLoop ∨ thread = .erase ∨ thread = .exited := by
  subst hthread
  exact h

theorem mayBeInStore_of_inStore (h : c.InStore) : c.MayBeInStore := h.imp id (Or.imp id And.left)

theorem ViewsInv.eq_of_name (h : ViewsInv s) (hi : s.channels[i]? = some c) (hj : s.channels[j]? = some d)
    (hc : c.HasPOA) (hd : d.HasPOA) (hname : c.name = d.name) : i = j := by
  have hpi := (h.recorded i c hi).poa hc
  have hpj := (h.recorded j d hj).poa hd
  rw [hname, hpj] at hpi
  exact (Option.some.inj hpi).symm

theorem ViewsInv.eq_of_insName (h : ViewsInv s) (hi : s.channels[i]? = some c)
    (hj : s.channels[j]? = some d) (hc : c.HasMapper) (hd : d.HasMapper)
    (hname : c.insName = d.insName) : i = j := by
  have hpi := (h.recorded i c hi).mapper hc
  have hpj := (h.recorded j d hj).mapper hd
  rw [hname, hpj] at hpi
  exact (Option.some.inj (Option.some.inj hpi)).symm

/-- A step of channel `i` that leaves the records of the others. -/
theorem ViewsInv.setChannel (h : ViewsInv s) (hi : s.channels[i]? = some c)
    (hchannels : t.channels = s.channels.set i c') (hcoherent : c'.Coherent)
    (hrecorded : Recorded t i c') (hstored : i ∈ t.store → c'.MayBeInStore)
    (hpoas : ∀ j d, j ≠ i → s.channels[j]? = some d → d.HasPOA →
      t.poas.lookup d.name = s.poas.lookup d.name)
    (hins : ∀ j d, j ≠ i → s.channels[j]? = some d → d.HasMapper →
      t.insPoa.lookup d.insName = s.insPoa.lookup d.insName)
    (hstore : ∀ j, j ≠ i → (j ∈ t.store ↔ j ∈ s.store)) (hnodup : t.store.Nodup) : ViewsInv t := by
  have hget : ∀ j d, t.channels[j]? = some d →
      j = i ∧ d = c' ∨ j ≠ i ∧ s.channels[j]? = some d := by
    intro j d hj
    rw [hchannels, List.getElem?_set] at hj
    split at hj
    · next heq =>
        split at hj
        · exact Or.inl ⟨heq.symm, (Option.some.inj hj).symm⟩
        · cases hj
    · next hne => exact Or.inr ⟨fun heq => hne heq.symm, hj⟩
  have hlt : i < s.channels.length := (List.getElem?_eq_some_iff.1 hi).1
  constructor
  · intro j d hj
    rcases hget j d hj with ⟨rfl, rfl⟩ | ⟨-, hj⟩
    · exact hcoherent
    · exact h.coherent j d hj
  · intro j d hj
    rcases hget j d hj with ⟨rfl, rfl⟩ | ⟨hne, hj⟩
    · exact hrecorded
    · have hd := h.recorded j d hj
      exact ⟨fun hpoa => (hpoas j d hne hj hpoa).trans (hd.poa hpoa),
        fun hmapper => (hins j d hne hj hmapper).trans (hd.mapper hmapper),
        fun hin => (hstore j hne).2 (hd.store hin)⟩
  · intro j hj
    by_cases hne : j = i
    · subst hne
      exact ⟨c', by rw [hchannels, List.getElem?_set_self hlt], hstored hj⟩
    · obtain ⟨d, hd, hin⟩ := h.store j ((hstore j hne).1 hj)
      exact ⟨d, by rw [hchannels, List.getElem?_set_ne (Ne.symm hne), hd], hin⟩
  · exact hnodup

/-- A step that changes nothing but channel `i`. -/
theorem ViewsInv.setChannel_self (h : ViewsInv s) (hi : s.channels[i]? = some c) (hcoherent : c'.Coherent)
    (hname : c'.name = c.name) (hinsName : c'.insName = c.insName) (hpoa : c'.HasPOA → c.HasPOA)
    (hmapper : c'.HasMapper → c.HasMapper) (hin : c'.InStore → c.InStore)
    (hmay : c.MayBeInStore → c'.MayBeInStore) : ViewsInv (s.setChannel i c') := by
  have hrecorded := h.recorded i c hi
  refine h.setChannel hi rfl hcoherent ⟨?_, ?_, ?_⟩ ?_
    (fun _ _ _ _ _ => rfl) (fun _ _ _ _ _ => rfl) (fun _ _ => Iff.rfl) h.nodup
  · intro hp
    rw [hname]
    exact hrecorded.poa (hpoa hp)
  · intro hm
    rw [hinsName]
    exact hrecorded.mapper (hmapper hm)
  · intro hs
    exact hrecorded.store (hin hs)
  · intro hstore
    obtain ⟨d, hd, hmayd⟩ := h.store i hstore
    cases hi.symm.trans hd
    exact hmay hmayd

/-- The destructor of one channel leaves the mappers of the others. -/
theorem ViewsInv.lookup_destroyMapper (h : ViewsInv s) (hi : s.channels[i]? = some c)
    (hc : c.insName ≠ [] → c.HasMapper) (hne : j ≠ i) (hj : s.channels[j]? = some d)
    (hd : d.HasMapper) : (s.destroyMapper c).lookup d.insName = s.insPoa.lookup d.insName := by
  unfold FactoryViews.destroyMapper
  split
  · rfl
  · next hins =>
      rw [OrdMap.lookup_erase, if_neg fun heq => hne (h.eq_of_insName hj hi hd (hc hins) heq)]

theorem ViewsInv.of_lists (h : ViewsInv s) (lists : List ListCall) :
    ViewsInv { s with lists := lists } where
  coherent := h.coherent
  recorded i c hi := ⟨(h.recorded i c hi).poa, (h.recorded i c hi).mapper, (h.recorded i c hi).store⟩
  store := h.store
  nodup := h.nodup

theorem ViewsInv.mayBeInStore (h : ViewsInv s) (hi : s.channels[i]? = some c) (hmem : i ∈ s.store) :
    c.MayBeInStore := by
  obtain ⟨d, hd, hmay⟩ := h.store i hmem
  cases hi.symm.trans hd
  exact hmay

/-! ### The thread -/

section Thread

variable {thread : ThreadPhase}

theorem NamedChannel.Coherent.setThread (hc : c.Coherent) (hstarted : c.thread ≠ .notStarted)
    (hleaving : thread = .erase ∨ thread = .destroyPOA ∨ thread = .ended ∨ thread = .deleted →
      c.shutdownRequested = true) :
    ({ c with thread := thread } : NamedChannel).Coherent where
  name_ne_nil := hc.name_ne_nil
  insName := hc.insName
  destroyCalled := hc.destroyCalled
  leaving := hleaving
  notStarted hcreation := absurd (hc.notStarted hcreation) hstarted

theorem NamedChannel.HasMapper.of_setThread
    (h : ({ c with thread := thread } : NamedChannel).HasMapper) (hdeleted : c.thread ≠ .deleted) :
    c.HasMapper :=
  ⟨h.insName_ne_nil, h.notCreatedPOA, h.notFailed, hdeleted⟩

/-- A step of the thread that leaves the three places. -/
theorem ViewsInv.setThread (h : ViewsInv s) (hi : s.channels[i]? = some c)
    (hstarted : c.thread ≠ .notStarted) (hpoa : c.HasPOA)
    (hleaving : thread = .erase ∨ thread = .destroyPOA ∨ thread = .ended ∨ thread = .deleted →
      c.shutdownRequested = true)
    (hin : ({ c with thread := thread } : NamedChannel).InStore → c.InStore)
    (hmay : c.MayBeInStore → ({ c with thread := thread } : NamedChannel).MayBeInStore) :
    ViewsInv (s.setChannel i { c with thread := thread }) :=
  h.setChannel_self hi ((h.coherent i c hi).setThread hstarted hleaving) rfl rfl (fun _ => hpoa)
    (·.of_setThread hpoa.notDeleted) hin hmay

theorem ViewsInv.insert (h : ViewsInv s) (hi : s.channels[i]? = some c) (hthread : c.thread = .insert)
    (place : ℕ) :
    ViewsInv { s.setChannel i { c with thread := .mainLoop } with
      store := s.store.take place ++ i :: s.store.drop place } := by
  have hrecorded := h.recorded i c hi
  have hnot : i ∉ s.store := fun hmem =>
    absurd (thread_of_mayBeInStore (h.mayBeInStore hi hmem) hthread) (by decide)
  refine h.setChannel hi rfl
    ((h.coherent i c hi).setThread (hthread.trans_ne nofun) (by simp)) ⟨?_, ?_, ?_⟩
    (fun _ => Or.inl rfl) (fun _ _ _ _ _ => rfl) (fun _ _ _ _ _ => rfl) ?_ ?_
  · exact fun _ => hrecorded.poa (hasPOA_of_thread hthread nofun nofun)
  · exact fun hm => hrecorded.mapper (hm.of_setThread (hthread.trans_ne nofun))
  · exact fun _ => List.mem_append_right _ (List.mem_cons_self ..)
  · intro j hne
    show j ∈ s.store.take place ++ i :: s.store.drop place ↔ j ∈ s.store
    rw [List.mem_append, List.mem_cons, or_iff_right hne, ← List.mem_append, List.take_append_drop]
  · show (s.store.take place ++ i :: s.store.drop place).Nodup
    rw [List.nodup_middle, List.take_append_drop, List.nodup_cons]
    exact ⟨hnot, h.nodup⟩

theorem ViewsInv.erase (h : ViewsInv s) (hi : s.channels[i]? = some c) (hthread : c.thread = .erase) :
    ViewsInv { s.setChannel i { c with thread := .destroyPOA } with store := s.store.erase i } := by
  have hc := h.coherent i c hi
  have hrecorded := h.recorded i c hi
  refine h.setChannel hi rfl
    (hc.setThread (hthread.trans_ne nofun) fun _ => hc.leaving (Or.inl hthread)) ⟨?_, ?_, ?_⟩
    (fun hmem => absurd hmem h.nodup.not_mem_erase) (fun _ _ _ _ _ => rfl) (fun _ _ _ _ _ => rfl)
    (fun j hne => List.mem_erase_of_ne hne) (h.nodup.erase i)
  · exact fun _ => hrecorded.poa (hasPOA_of_thread hthread nofun nofun)
  · exact fun hm => hrecorded.mapper (hm.of_setThread (hthread.trans_ne nofun))
  · exact fun hin => absurd (thread_of_mayBeInStore (mayBeInStore_of_inStore hin) rfl) (by simp)

theorem ViewsInv.destroyPOA (h : ViewsInv s) (hi : s.channels[i]? = some c)
    (hthread : c.thread = .destroyPOA) :
    ViewsInv { s.setChannel i { c with thread := .ended } with
      poas := OrdMap.erase c.name s.poas } := by
  have hc := h.coherent i c hi
  have hrecorded := h.recorded i c hi
  have hpoa : c.HasPOA := hasPOA_of_thread hthread nofun nofun
  refine h.setChannel hi rfl
    (hc.setThread (hthread.trans_ne nofun) fun _ => hc.leaving (Or.inr (Or.inl hthread)))
    ⟨fun hended => absurd rfl hended.notEnded, ?_, ?_⟩ ?_ ?_
    (fun _ _ _ _ _ => rfl) (fun _ _ => Iff.rfl) h.nodup
  · exact fun hm => hrecorded.mapper (hm.of_setThread hpoa.notDeleted)
  · exact fun hin => absurd (thread_of_mayBeInStore (mayBeInStore_of_inStore hin) rfl) (by simp)
  · intro hmem
    exact absurd (thread_of_mayBeInStore (h.mayBeInStore hi hmem) hthread) (by decide)
  · intro j d hne hj hd
    show List.lookup d.name (OrdMap.erase c.name s.poas) = _
    rw [OrdMap.lookup_erase, if_neg fun heq => hne (h.eq_of_name hj hi hd hpoa heq)]

theorem ViewsInv.threadStep (h : ViewsInv s) (hi : s.channels[i]? = some c)
    (hst : ThreadStepped s i c t) : ViewsInv t := by
  have hc := h.coherent i c hi
  cases hst with
  | insert place hthread hfree => exact h.insert hi hthread place
  | exit hthread =>
      rcases hthread with hthread | hthread
      · exact h.setThread hi (hthread.trans_ne nofun) (hasPOA_of_thread hthread nofun nofun)
          (by simp) (fun _ => Or.inl hthread) fun _ => Or.inr (Or.inr rfl)
      · have hshutdown := hc.leaving (Or.inr (Or.inl hthread))
        refine h.setThread hi (hthread.trans_ne nofun) (hasPOA_of_thread hthread nofun nofun)
          (by simp) ?_ fun _ => Or.inr (Or.inr rfl)
        rintro (hin | hin | hin)
        · cases hin
        · cases hin
        · cases hshutdown.symm.trans hin.2
  | leave hthread hshutdown =>
      exact h.setThread hi (hthread.trans_ne nofun) (hasPOA_of_thread hthread nofun nofun)
        (fun _ => hshutdown) (fun _ => Or.inl hthread) fun _ => Or.inr (Or.inl rfl)
  | erase hthread hfree => exact h.erase hi hthread
  | destroyPOA hthread => exact h.destroyPOA hi hthread

end Thread

/-! ### Creations -/

theorem coherent_new {criteria : List Criterion} {node : PersistNode} {uniqueId : Str}
    (hid : uniqueId ≠ []) (hparse : parseCriteria criteria = .ok node) :
    (NamedChannel.new (channelId node uniqueId) node).Coherent where
  name_ne_nil := (@created_of_parseCriteria Unit uniqueId criteria node hid hparse).name_ne_nil
  insName hne := by
    show node.attrString keyInsName = channelId node uniqueId
    have hattr : node.hasAttr keyInsName = true := by
      by_contra hnone
      refine hne ?_
      show node.attrString keyInsName = []
      rw [PersistNode.hasAttr, Bool.not_eq_true, Option.isSome_eq_false_iff,
        Option.isNone_iff_eq_none] at hnone
      rw [attrString, hnone, Option.getD_none]
    rw [channelId, if_pos hattr]
  destroyCalled := nofun
  leaving := by simp [NamedChannel.new]
  notStarted _ := rfl

theorem ViewsInv.create (h : ViewsInv s) (hc : c.Coherent) (hcreation : c.creation = .createdPOA)
    (hfree : s.poas.lookup c.name = none) :
    ViewsInv { s with
      poas := OrdMap.insert c.name s.channels.length s.poas, channels := s.channels ++ [c] } := by
  have hthread := hc.notStarted (Or.inl hcreation)
  have hget : ∀ j d, (s.channels ++ [c])[j]? = some d →
      j = s.channels.length ∧ d = c ∨ s.channels[j]? = some d := by
    intro j d hj
    rw [List.getElem?_append] at hj
    split at hj
    · exact Or.inr hj
    · next hge =>
        obtain ⟨hlt, heq⟩ := List.getElem?_eq_some_iff.1 hj
        simp only [List.length_singleton] at hlt
        have hj : j = s.channels.length := by omega
        subst hj
        exact Or.inl ⟨rfl, by simpa using heq.symm⟩
  constructor
  · intro j d hj
    rcases hget j d hj with ⟨-, rfl⟩ | hj
    · exact hc
    · exact h.coherent j d hj
  · intro j d hj
    rcases hget j d hj with ⟨rfl, rfl⟩ | hj
    · refine ⟨?_, fun hm => absurd hcreation hm.notCreatedPOA, ?_⟩
      · intro _
        show List.lookup d.name (OrdMap.insert d.name _ s.poas) = _
        rw [OrdMap.lookup_insert, if_pos rfl]
      · exact fun hin =>
          absurd (thread_of_mayBeInStore (mayBeInStore_of_inStore hin) hthread) (by decide)
    · have hd := h.recorded j d hj
      refine ⟨?_, hd.mapper, hd.store⟩
      intro hp
      show List.lookup d.name (OrdMap.insert c.name _ s.poas) = _
      have hlookup := hd.poa hp
      rw [OrdMap.lookup_insert, if_neg fun heq => ?_, hlookup]
      rw [heq, hfree] at hlookup
      cases hlookup
  · intro j hj
    obtain ⟨d, hd, hmay⟩ := h.store j hj
    exact ⟨d, List.getElem?_append_left (List.getElem?_eq_some_iff.1 hd).1 ▸ hd, hmay⟩
  · exact h.nodup

section Creation

variable {creation : CreationPhase}

theorem NamedChannel.Coherent.setCreation (hc : c.Coherent)
    (hnotStarted : creation = .createdPOA ∨ creation = .mapped ∨ creation = .failed →
      c.thread = .notStarted) : ({ c with creation := creation } : NamedChannel).Coherent where
  name_ne_nil := hc.name_ne_nil
  insName := hc.insName
  destroyCalled := hc.destroyCalled
  leaving := hc.leaving
  notStarted := hnotStarted

/-- A step of the creation that leaves the three places. -/
theorem ViewsInv.setCreation (h : ViewsInv s) (hi : s.channels[i]? = some c)
    (hnotStarted : creation = .createdPOA ∨ creation = .mapped ∨ creation = .failed →
      c.thread = .notStarted)
    (hmapper : ({ c with creation := creation } : NamedChannel).HasMapper → c.HasMapper) :
    ViewsInv (s.setChannel i { c with creation := creation }) :=
  h.setChannel_self hi ((h.coherent i c hi).setCreation hnotStarted) rfl rfl
    (fun hp => ⟨hp.notEnded, hp.notDeleted⟩) hmapper id id

theorem ViewsInv.map (h : ViewsInv s) (hi : s.channels[i]? = some c)
    (hthread : c.thread = .notStarted) (hfree : s.insPoa.lookup c.insName = none) :
    ViewsInv { s.setChannel i { c with creation := .mapped } with
      insPoa := OrdMap.insert c.insName (some i) s.insPoa } := by
  have hrecorded := h.recorded i c hi
  have hmay := h.mayBeInStore hi
  refine h.setChannel hi rfl ((h.coherent i c hi).setCreation fun _ => hthread)
    ⟨fun hp => hrecorded.poa ⟨hp.notEnded, hp.notDeleted⟩, ?_, hrecorded.store⟩
    hmay (fun _ _ _ _ _ => rfl) ?_ (fun _ _ => Iff.rfl) h.nodup
  · intro _
    show List.lookup c.insName (OrdMap.insert c.insName (some i) s.insPoa) = _
    rw [OrdMap.lookup_insert, if_pos rfl]
  · intro j d hne hj hd
    show List.lookup d.insName (OrdMap.insert c.insName (some i) s.insPoa) = _
    rw [OrdMap.lookup_insert, if_neg fun heq => ?_]
    have hlookup := (h.recorded j d hj).mapper hd
    rw [heq, hfree] at hlookup
    cases hlookup

/-- The channel fails after it has its mapper. -/
theorem ViewsInv.failMapped (h : ViewsInv s) (hi : s.channels[i]? = some c)
    (hcreation : c.creation = .mapped) :
    ViewsInv { s.setChannel i { c with creation := .failed } with insPoa := s.destroyMapper c } := by
  have hc := h.coherent i c hi
  have hrecorded := h.recorded i c hi
  have hthread := hc.notStarted (Or.inr (Or.inl hcreation))
  have hmay := h.mayBeInStore hi
  refine h.setChannel hi rfl (hc.setCreation fun _ => hthread)
    ⟨fun hp => hrecorded.poa ⟨hp.notEnded, hp.notDeleted⟩, fun hm => absurd rfl hm.notFailed,
      hrecorded.store⟩
    hmay (fun _ _ _ _ _ => rfl) ?_ (fun _ _ => Iff.rfl) h.nodup
  intro j d hne hj hd
  exact h.lookup_destroyMapper hi (fun hins => ⟨hins, hcreation.trans_ne nofun,
    hcreation.trans_ne nofun, hthread.trans_ne nofun⟩) hne hj hd

theorem ViewsInv.start (h : ViewsInv s) (hi : s.channels[i]? = some c)
    (hcreation : c.creation = .mapped) :
    ViewsInv (s.setChannel i { c with creation := .started, thread := .insert }) := by
  have hc := h.coherent i c hi
  have hthread := hc.notStarted (Or.inr (Or.inl hcreation))
  refine h.setChannel_self hi ⟨hc.name_ne_nil, hc.insName, hc.destroyCalled, by simp, by simp⟩ rfl rfl
    (fun _ => hasPOA_of_thread hthread nofun nofun)
    (fun hm => ⟨hm.insName_ne_nil, hcreation.trans_ne nofun, hcreation.trans_ne nofun,
      hthread.trans_ne nofun⟩) ?_ ?_
  · exact fun hin => absurd (thread_of_mayBeInStore (mayBeInStore_of_inStore hin) rfl) (by simp)
  · exact fun hmay => absurd (thread_of_mayBeInStore hmay hthread) (by decide)

theorem ViewsInv.creationStep (h : ViewsInv s) (hi : s.channels[i]? = some c) {a : Action}
    (hst : CreationStepped s i c a t) : ViewsInv t := by
  have hc := h.coherent i c hi
  cases hst with
  | unnamed j hcreation hins =>
      exact h.setCreation hi (fun _ => hc.notStarted (Or.inl hcreation))
        fun hm => absurd hins hm.insName_ne_nil
  | conflict j hcreation =>
      exact h.setCreation hi (fun _ => hc.notStarted (Or.inl hcreation))
        fun hm => absurd rfl hm.notFailed
  | map j hcreation hfree => exact h.map hi (hc.notStarted (Or.inl hcreation)) hfree
  | fail j hcreation =>
      exact h.setCreation hi (fun _ => hc.notStarted (Or.inl hcreation))
        fun hm => absurd rfl hm.notFailed
  | failMapped j hcreation => exact h.failMapped hi hcreation
  | start j hcreation => exact h.start hi hcreation
  | returnThis j hcreation =>
      exact h.setCreation hi (by simp) fun hm => ⟨hm.insName_ne_nil, hcreation.trans_ne nofun,
        hcreation.trans_ne nofun, hm.notDeleted⟩

end Creation

/-! ### Every step -/

theorem ViewsInv.delete (h : ViewsInv s) (hi : s.channels[i]? = some c) (hthread : c.thread = .ended) :
    ViewsInv { s.setChannel i { c with thread := .deleted } with insPoa := s.destroyMapper c } := by
  have hc := h.coherent i c hi
  have hcreation : ∀ creation : CreationPhase,
      creation = .createdPOA ∨ creation = .mapped ∨ creation = .failed → c.creation ≠ creation := by
    rintro creation hphase rfl
    cases hthread.symm.trans (hc.notStarted hphase)
  refine h.setChannel hi rfl
    (hc.setThread (hthread.trans_ne nofun) fun _ => hc.leaving (Or.inr (Or.inr (Or.inl hthread))))
    ⟨fun hp => absurd rfl hp.notDeleted, fun hm => absurd rfl hm.notDeleted, ?_⟩ ?_
    (fun _ _ _ _ _ => rfl) ?_ (fun _ _ => Iff.rfl) h.nodup
  · exact fun hin => absurd (thread_of_mayBeInStore (mayBeInStore_of_inStore hin) rfl) (by simp)
  · intro hmem
    exact absurd (thread_of_mayBeInStore (h.mayBeInStore hi hmem) hthread) (by decide)
  · intro j d hne hj hd
    exact h.lookup_destroyMapper hi (fun hins => ⟨hins, hcreation _ (Or.inl rfl),
      hcreation _ (Or.inr (Or.inr rfl)), hthread.trans_ne nofun⟩) hne hj hd

theorem ViewsInv.init : ViewsInv .init where
  coherent i c hi := by cases hi
  recorded i c hi := by cases hi
  store i hi := by cases hi
  nodup := List.nodup_nil

theorem ViewsInv.step (h : ViewsInv s) {a : Action} (hst : s.step a = some t) : ViewsInv t := by
  cases a with
  | create criteria uniqueId =>
      simp only [FactoryViews.step] at hst
      split at hst
      · cases hst
        exact h
      next node hparse =>
        split at hst
        · cases hst
          exact h
        · next hfree =>
            cases hst
            exact h.create (coherent_new uniqueId.2 hparse) rfl hfree
  | setInsName i =>
      obtain ⟨c, hi, hst⟩ := Option.bind_eq_some_iff.1 hst
      exact h.creationStep hi (stepped_of_creationStep hst)
  | raise i =>
      obtain ⟨c, hi, hst⟩ := Option.bind_eq_some_iff.1 hst
      exact h.creationStep hi (stepped_of_creationStep hst)
  | start i =>
      obtain ⟨c, hi, hst⟩ := Option.bind_eq_some_iff.1 hst
      exact h.creationStep hi (stepped_of_creationStep hst)
  | returnThis i =>
      obtain ⟨c, hi, hst⟩ := Option.bind_eq_some_iff.1 hst
      exact h.creationStep hi (stepped_of_creationStep hst)
  | thread i place raised =>
      obtain ⟨c, hi, hst⟩ := Option.bind_eq_some_iff.1 hst
      exact h.threadStep hi (stepped_of_threadStep hst)
  | delete i =>
      obtain ⟨c, hi, hst⟩ := Option.bind_eq_some_iff.1 hst
      split at hst
      · next hthread =>
          cases hst
          exact h.delete hi hthread
      · cases hst
  | destroy i =>
      obtain ⟨c, hi, hst⟩ := Option.bind_eq_some_iff.1 hst
      split at hst
      · cases hst
        have hc := h.coherent i c hi
        exact h.setChannel_self hi
          ⟨hc.name_ne_nil, hc.insName, fun _ => rfl, hc.leaving, hc.notStarted⟩ rfl rfl
          (fun hp => ⟨hp.notEnded, hp.notDeleted⟩)
          (fun hm => ⟨hm.insName_ne_nil, hm.notCreatedPOA, hm.notFailed, hm.notDeleted⟩) id id
      · cases hst
  | requestShutdown i =>
      obtain ⟨c, hi, hst⟩ := Option.bind_eq_some_iff.1 hst
      split at hst
      · next hcalled =>
          cases hst
          have hc := h.coherent i c hi
          exact h.setChannel_self hi
            ⟨hc.name_ne_nil, hc.insName, fun _ => hcalled, fun _ => rfl, hc.notStarted⟩ rfl rfl
            (fun hp => ⟨hp.notEnded, hp.notDeleted⟩)
            (fun hm => ⟨hm.insName_ne_nil, hm.notCreatedPOA, hm.notFailed, hm.notDeleted⟩)
            (fun hin => hin.imp id (Or.imp id fun hexited => by cases hexited.2)) id
      · cases hst
  | setLength =>
      cases hst
      exact h.of_lists _
  | lock j =>
      obtain ⟨call, hj, hst⟩ := Option.bind_eq_some_iff.1 hst
      split at hst
      · cases hst
      · cases hst
        exact h.of_lists _
  | unlock j =>
      obtain ⟨call, hj, hst⟩ := Option.bind_eq_some_iff.1 hst
      split at hst
      · cases hst
        exact h.of_lists _
      · cases hst

theorem viewsInv_of_run {as : List Action} (hrun : Run FactoryViews.step .init as = some s) :
    ViewsInv s :=
  Run.invariant (fun _ _ _ h hst => h.step hst) .init hrun

end Invariant

/-! ## Creations that are refused

A creation is refused if its name is reported by one of the views, at once or when the mapper is
made. -/

/-- `exists` reports the name, or a call of `list_channels` that is being executed. -/
def Listed (s : FactoryViews) (name : Str) : Prop :=
  s.exists_ name = true ∨ ∃ call ∈ s.lists, call.locked = true ∧ name ∈ s.listed call.length

/-- One of the views reports the name. -/
def Reported (s : FactoryViews) (name : Str) : Prop :=
  Listed s name ∨ (s.get_channel name).isSome ∨ (s.join_channel name).isSome

/-- A name in the store is refused at once, and any that is reported when the mapper is made. -/
structure Refusing (s : FactoryViews) : Prop where
  create : ∀ criteria (uniqueId : { id : Str // id ≠ [] }) node,
    parseCriteria criteria = .ok node → Listed s (channelId node uniqueId) →
      s.step (.create criteria uniqueId) = some s
  setInsName : ∀ i c, s.channels[i]? = some c → c.creation = .createdPOA → c.insName ≠ [] →
    Reported s c.insName →
      s.step (.setInsName i) = some (s.setChannel i { c with creation := .failed })

section Views

variable {s : FactoryViews} {i : ℕ} {c : NamedChannel} {name : Str}

/-- The names of the channels in the store. -/
def storeNames (s : FactoryViews) : List Str := (s.store.filterMap s.stored).map (·.name)

theorem mem_storeNames : name ∈ storeNames s ↔
    ∃ i ∈ s.store, ∃ c, s.channels[i]? = some c ∧ c.name = name := by
  simp only [storeNames, FactoryViews.stored, List.mem_map, List.mem_filterMap, Option.map_eq_some_iff]
  constructor
  · rintro ⟨_, ⟨i, hi, c, hc, rfl⟩, hname⟩
    exact ⟨i, hi, c, hc, hname⟩
  · rintro ⟨i, hi, c, hc, hname⟩
    exact ⟨_, ⟨i, hi, c, hc, rfl⟩, hname⟩

theorem exists_iff : s.exists_ name = true ↔ name ∈ storeNames s := by
  simp only [mem_storeNames, FactoryViews.exists_, FactoryViews.stored, List.any_eq_true,
    Option.any_eq_true, Option.map_eq_some_iff, decide_eq_true_eq]
  constructor
  · rintro ⟨i, hi, _, ⟨c, hc, rfl⟩, hname⟩
    exact ⟨i, hi, c, hc, hname⟩
  · rintro ⟨i, hi, c, hc, hname⟩
    exact ⟨i, hi, _, ⟨c, hc, rfl⟩, hname⟩

/-- The entries there is room for, and blank ones. -/
theorem listed_eq (s : FactoryViews) (length : ℕ) :
    s.listed length = (storeNames s).take length ++
      List.replicate (length - (storeNames s).length) [] := by
  rw [FactoryViews.listed, ListChannels.fill_replicate, storeNames]
  simp [Function.comp_def, StoredChannel.info]

theorem mem_storeNames_of_listed (hname : name ≠ []) (h : Listed s name) : name ∈ storeNames s := by
  rcases h with h | ⟨call, -, -, h⟩
  · exact exists_iff.1 h
  · rw [listed_eq, List.mem_append] at h
    rcases h with h | h
    · exact List.mem_of_mem_take h
    · exact absurd (List.eq_of_mem_replicate h) hname

theorem hasPOA_of_mayBeInStore (h : c.MayBeInStore) : c.HasPOA := by
  rcases h with h | h | h
  · exact hasPOA_of_thread h nofun nofun
  · exact hasPOA_of_thread h nofun nofun
  · exact hasPOA_of_thread h nofun nofun

/-- The name is in the omniINSPOA already. -/
theorem step_setInsName_taken (hi : s.channels[i]? = some c) (hcreation : c.creation = .createdPOA)
    (hins : c.insName ≠ []) {entry : Option ℕ} (htaken : s.insPoa.lookup c.insName = some entry) :
    s.step (.setInsName i) = some (s.setChannel i { c with creation := .failed }) := by
  simp only [FactoryViews.step, hi, Option.bind_some, FactoryViews.creationStep, hcreation, hins,
    ne_eq, not_true_eq_false, if_false, htaken]

theorem refusing_of_inv (h : ViewsInv s) : Refusing s where
  create criteria uniqueId node hparse hlisted := by
    have hname : channelId node uniqueId ≠ [] := (coherent_new uniqueId.2 hparse).name_ne_nil
    obtain ⟨i, hi, c, hc, heq⟩ := mem_storeNames.1 (mem_storeNames_of_listed hname hlisted)
    have hlookup := (h.recorded i c hc).poa (hasPOA_of_mayBeInStore (h.mayBeInStore hc hi))
    rw [heq] at hlookup
    simp only [FactoryViews.step, hparse]
    rw [hlookup]
  setInsName i c hc hcreation hins hreported := by
    have hcoherent := h.coherent i c hc
    have hthread := hcoherent.notStarted (Or.inl hcreation)
    have hpoa : c.HasPOA := hasPOA_of_thread hthread nofun nofun
    obtain ⟨entry, hlookup⟩ : ∃ entry, s.insPoa.lookup c.insName = some entry := by
      rcases hreported with hlisted | hget | hget
      · -- the POA of the name is that of the new channel
        obtain ⟨j, hj, d, hd, heq⟩ := mem_storeNames.1 (mem_storeNames_of_listed hins hlisted)
        have hmay := h.mayBeInStore hd hj
        obtain rfl : j = i := h.eq_of_name hd hc (hasPOA_of_mayBeInStore hmay) hpoa
          (heq.trans (hcoherent.insName hins))
        cases hc.symm.trans hd
        exact absurd (thread_of_mayBeInStore hmay hthread) (by decide)
      · rw [FactoryViews.get_channel, Option.isSome_iff_exists] at hget
        obtain ⟨k, hk⟩ := hget
        exact ⟨some k, Option.join_eq_some_iff.1 hk⟩
      · rw [FactoryViews.join_channel, Option.isSome_iff_exists] at hget
        obtain ⟨k, hk⟩ := hget
        exact ⟨some k, Option.join_eq_some_iff.1 hk⟩
    exact step_setInsName_taken hc hcreation hins hlookup

end Views

/-! ## Views that agree -/

/-- From the return of its creation until `destroy` is called every view reports a channel. -/
structure Agree (s : FactoryViews) : Prop where
  exists_ : ∀ (i : ℕ) (c : NamedChannel), s.channels[i]? = some c → c.Serving →
    s.exists_ c.insName = true
  list_channels : ∀ call ∈ s.lists, call.locked = true → ∀ (i : ℕ) (c : NamedChannel),
    s.channels[i]? = some c → c.Serving → (s.listed call.length).count c.insName = 1
  get_channel : ∀ (i : ℕ) (c : NamedChannel), s.channels[i]? = some c → c.Serving →
    s.get_channel c.insName = some i
  join_channel : ∀ (i : ℕ) (c : NamedChannel), s.channels[i]? = some c → c.Serving →
    s.join_channel c.insName = some i

/-- A creation returns when the channel is in the store, and when `list_channels` gets the lock there
    are not more channels in the store than when it set the length. -/
def Timely (s : FactoryViews) : Action → Prop
  | .returnThis i => ∀ c, s.channels[i]? = some c → c.Inserted
  | .lock j => ∀ call, s.lists[j]? = some call → s.store.length ≤ call.length
  | _ => True

/-- What timely steps keep. -/
structure Punctual (s : FactoryViews) : Prop where
  returned : ∀ (i : ℕ) (c : NamedChannel), s.channels[i]? = some c → c.creation = .returned →
    c.Inserted
  locked : ∀ call ∈ s.lists, call.locked = true → s.store.length ≤ call.length

section Agree

variable {s t : FactoryViews} {i : ℕ} {c c' : NamedChannel}

theorem count_storeNames (h : ViewsInv s) (hi : s.channels[i]? = some c) (hmem : i ∈ s.store) :
    (storeNames s).count c.name = 1 := by
  rw [storeNames, List.map_filterMap, List.count_filterMap, ← List.count_eq_one_of_mem h.nodup hmem,
    List.count]
  refine List.countP_congr ?_
  intro j hj
  obtain ⟨d, hd, hmay⟩ := h.store j hj
  simp only [FactoryViews.stored, hd, Option.map_some, beq_iff_eq, Option.some.injEq]
  constructor
  · intro hname
    exact h.eq_of_name hd hi (hasPOA_of_mayBeInStore hmay)
      (hasPOA_of_mayBeInStore (h.mayBeInStore hi hmem)) hname
  · rintro rfl
    cases hi.symm.trans hd
    rfl

/-- A channel that is served is in the three places. -/
theorem inStore_of_serving (h : ViewsInv s) (hp : Punctual s) (hi : s.channels[i]? = some c)
    (hc : c.Serving) : i ∈ s.store ∧ c.HasMapper := by
  have hcoherent := h.coherent i c hi
  have hinserted := hp.returned i c hi hc.returned
  have hshutdown : c.shutdownRequested = false := by
    by_contra hne
    rw [Bool.not_eq_false] at hne
    cases hc.notDestroyed.symm.trans (hcoherent.destroyCalled hne)
  have hleaving : ∀ thread : ThreadPhase, c.thread = thread → thread = .erase ∨
      thread = .destroyPOA ∨ thread = .ended ∨ thread = .deleted → False := by
    rintro thread rfl hphase
    cases hshutdown.symm.trans (hcoherent.leaving hphase)
  have hin : c.InStore := by
    cases hthread : c.thread with
    | notStarted => exact absurd hthread hinserted.started
    | insert => exact absurd hthread hinserted.inserted
    | mainLoop => exact Or.inl hthread
    | erase => exact (hleaving _ hthread (by simp)).elim
    | destroyPOA => exact (hleaving _ hthread (by simp)).elim
    | ended => exact (hleaving _ hthread (by simp)).elim
    | deleted => exact (hleaving _ hthread (by simp)).elim
    | exited => exact Or.inr (Or.inr ⟨hthread, hshutdown⟩)
  exact ⟨(h.recorded i c hi).store hin, hc.insName_ne_nil, hc.returned.trans_ne nofun,
    hc.returned.trans_ne nofun, fun hthread => hleaving _ hthread (by simp)⟩

theorem agree_of_inv (h : ViewsInv s) (hp : Punctual s) : Agree s := by
  have hmapper : ∀ (i : ℕ) (c : NamedChannel), s.channels[i]? = some c → c.Serving →
      s.insPoa.lookup c.insName = some (some i) := fun i c hi hc =>
    (h.recorded i c hi).mapper (inStore_of_serving h hp hi hc).2
  refine ⟨?_, ?_, ?_, ?_⟩
  · intro i c hi hc
    rw [exists_iff, (h.coherent i c hi).insName hc.insName_ne_nil]
    exact mem_storeNames.2 ⟨i, (inStore_of_serving h hp hi hc).1, c, hi, rfl⟩
  · intro call hcall hlocked i c hi hc
    have hlength : (storeNames s).length ≤ call.length := by
      refine le_trans ?_ (hp.locked call hcall hlocked)
      rw [storeNames, List.length_map]
      exact List.length_filterMap_le ..
    have hname := (h.coherent i c hi).insName hc.insName_ne_nil
    rw [listed_eq, List.take_of_length_le hlength, List.count_append, hname,
      count_storeNames h hi (inStore_of_serving h hp hi hc).1, List.count_replicate, if_neg]
    rw [beq_iff_eq, ← hname]
    exact hc.insName_ne_nil.symm
  · intro i c hi hc
    rw [FactoryViews.get_channel, hmapper i c hi hc]
    rfl
  · intro i c hi hc
    rw [FactoryViews.join_channel, hmapper i c hi hc]
    rfl

/-! ### Timely steps -/

/-- A step of channel `i` that leaves the store and the calls. -/
theorem Punctual.setChannel (hp : Punctual s) (hchannels : t.channels = s.channels.set i c')
    (hstore : t.store = s.store) (hlists : t.lists = s.lists)
    (hreturned : c'.creation = .returned → c'.Inserted) : Punctual t := by
  refine ⟨?_, ?_⟩
  · intro j d hj hd
    rw [hchannels, List.getElem?_set] at hj
    split at hj
    · split at hj
      · cases hj
        exact hreturned hd
      · cases hj
    · exact hp.returned j d hj hd
  · intro call hcall hlocked
    rw [hlists] at hcall
    rw [hstore]
    exact hp.locked call hcall hlocked

theorem Punctual.creationStep (hp : Punctual s) {a : Action}
    (hok : ∀ j, a = .returnThis j → c.Inserted) (hst : CreationStepped s i c a t) : Punctual t := by
  cases hst with
  | unnamed j hcreation hins => exact hp.setChannel rfl rfl rfl nofun
  | conflict j hcreation => exact hp.setChannel rfl rfl rfl nofun
  | map j hcreation hfree => exact hp.setChannel rfl rfl rfl nofun
  | fail j hcreation => exact hp.setChannel rfl rfl rfl nofun
  | failMapped j hcreation => exact hp.setChannel rfl rfl rfl nofun
  | start j hcreation => exact hp.setChannel rfl rfl rfl nofun
  | returnThis j hcreation =>
      have hinserted := hok j rfl
      exact hp.setChannel rfl rfl rfl fun _ => ⟨hinserted.started, hinserted.inserted⟩

/-- The store changes only while nobody has its lock. -/
theorem Punctual.of_unlocked (hp : Punctual s) (hfree : s.locked = false)
    (hchannels : t.channels = s.channels.set i c') (hlists : t.lists = s.lists)
    (hreturned : c'.creation = .returned → c'.Inserted) : Punctual t := by
  refine ⟨(hp.setChannel (t := { t with store := s.store }) hchannels rfl hlists hreturned).returned,
    ?_⟩
  intro call hcall hlocked
  rw [hlists] at hcall
  rw [FactoryViews.locked, List.any_eq_false] at hfree
  exact absurd hlocked (hfree call hcall)

theorem Punctual.threadStep (hp : Punctual s) (hst : ThreadStepped s i c t) : Punctual t := by
  have hinserted : ∀ thread : ThreadPhase, thread ≠ .notStarted → thread ≠ .insert →
      ({ c with thread := thread } : NamedChannel).Inserted := fun _ h h' => ⟨h, h'⟩
  cases hst with
  | insert place hthread hfree =>
      exact hp.of_unlocked hfree rfl rfl fun _ => hinserted _ nofun nofun
  | exit hthread => exact hp.setChannel rfl rfl rfl fun _ => hinserted _ nofun nofun
  | leave hthread hshutdown => exact hp.setChannel rfl rfl rfl fun _ => hinserted _ nofun nofun
  | erase hthread hfree =>
      exact hp.of_unlocked hfree rfl rfl fun _ => hinserted _ nofun nofun
  | destroyPOA hthread => exact hp.setChannel rfl rfl rfl fun _ => hinserted _ nofun nofun

theorem Punctual.step (hp : Punctual s) {a : Action} (hok : Timely s a) (hst : s.step a = some t) :
    Punctual t := by
  cases a with
  | create criteria uniqueId =>
      simp only [FactoryViews.step] at hst
      split at hst
      · cases hst
        exact hp
      split at hst
      · cases hst
        exact hp
      · cases hst
        refine ⟨?_, hp.locked⟩
        intro j d hj hd
        rw [List.getElem?_append] at hj
        split at hj
        · exact hp.returned j d hj hd
        · rw [List.mem_singleton.1 (List.mem_of_getElem? hj)] at hd
          cases hd
  | setInsName i =>
      obtain ⟨c, hi, hst⟩ := Option.bind_eq_some_iff.1 hst
      exact hp.creationStep (fun _ h => by cases h) (stepped_of_creationStep hst)
  | raise i =>
      obtain ⟨c, hi, hst⟩ := Option.bind_eq_some_iff.1 hst
      exact hp.creationStep (fun _ h => by cases h) (stepped_of_creationStep hst)
  | start i =>
      obtain ⟨c, hi, hst⟩ := Option.bind_eq_some_iff.1 hst
      exact hp.creationStep (fun _ h => by cases h) (stepped_of_creationStep hst)
  | returnThis i =>
      obtain ⟨c, hi, hst⟩ := Option.bind_eq_some_iff.1 hst
      exact hp.creationStep (fun _ _ => hok c hi) (stepped_of_creationStep hst)
  | thread i place raised =>
      obtain ⟨c, hi, hst⟩ := Option.bind_eq_some_iff.1 hst
      exact hp.threadStep (stepped_of_threadStep hst)
  | delete i =>
      obtain ⟨c, hi, hst⟩ := Option.bind_eq_some_iff.1 hst
      split at hst
      · cases hst
        exact hp.setChannel rfl rfl rfl fun _ => ⟨nofun, nofun⟩
      · cases hst
  | destroy i =>
      obtain ⟨c, hi, hst⟩ := Option.bind_eq_some_iff.1 hst
      split at hst
      · next hcalled =>
          cases hst
          exact hp.setChannel rfl rfl rfl fun _ => ⟨hcalled.1.started, hcalled.1.inserted⟩
      · cases hst
  | requestShutdown i =>
      obtain ⟨c, hi, hst⟩ := Option.bind_eq_some_iff.1 hst
      split at hst
      · cases hst
        refine hp.setChannel rfl rfl rfl ?_
        intro hreturned
        have hinserted := hp.returned i c hi hreturned
        exact ⟨hinserted.started, hinserted.inserted⟩
      · cases hst
  | setLength =>
      cases hst
      refine ⟨hp.returned, ?_⟩
      intro call hcall hlocked
      rcases List.mem_append.1 hcall with hcall | hcall
      · exact hp.locked call hcall hlocked
      · cases List.mem_singleton.1 hcall
        cases hlocked
  | lock j =>
      obtain ⟨call, hj, hst⟩ := Option.bind_eq_some_iff.1 hst
      split at hst
      · cases hst
      · cases hst
        refine ⟨hp.returned, ?_⟩
        intro call' hcall' hlocked
        rcases List.mem_or_eq_of_mem_set hcall' with hcall' | rfl
        · exact hp.locked call' hcall' hlocked
        · exact hok call hj
  | unlock j =>
      obtain ⟨call, hj, hst⟩ := Option.bind_eq_some_iff.1 hst
      split at hst
      · cases hst
        exact ⟨hp.returned, fun call' hcall' => hp.locked call' (List.mem_of_mem_eraseIdx hcall')⟩
      · cases hst

theorem Punctual.init : Punctual .init where
  returned i c hi := by cases hi
  locked call hcall := by cases hcall

end Agree

/-- **The views agree** in every run in which a creation returns when the channel is in the store, and
    no channel has come into the store while `list_channels` waits for its lock. In every run a name
    that is reported is refused. -/
theorem views_agree (as : List Action) (s : FactoryViews)
    (hrun : Run FactoryViews.step .init as = some s) :
    Refusing s ∧ (Along FactoryViews.step Timely .init as → Agree s) := by
  have hinv := viewsInv_of_run hrun
  refine ⟨refusing_of_inv hinv, fun htimely => agree_of_inv hinv ?_⟩
  exact Run.invariant_of_along (fun _ _ _ h hok hst => h.step hok hst) .init htimely hrun

/-- A creation up to its return. -/
def creation (i : ℕ) (name : Str) : List Action :=
  [.create (FactoryState.nameCriteria name) ⟨newUniqueId 1 1 1, by simp [newUniqueId]⟩, .setInsName i,
    .start i, .returnThis i]

/-- The same, with the thread in time. -/
def timelyCreation (i : ℕ) (name : Str) : List Action :=
  [.create (FactoryState.nameCriteria name) ⟨newUniqueId 1 1 1, by simp [newUniqueId]⟩, .setInsName i,
    .start i, .thread i 0 false, .returnThis i]

/-- A channel in its three places, while it is listed. -/
theorem views_agree_created : ∃ s c, Run FactoryViews.step .init
      (timelyCreation 0 ['a'] ++ [.setLength, .lock 0]) = some s ∧
    s.channels[0]? = some c ∧ c.Serving ∧ Agree s := by
  obtain ⟨s, c, hrun, hc, hserving⟩ : ∃ s c, Run FactoryViews.step .init
      (timelyCreation 0 ['a'] ++ [.setLength, .lock 0]) = some s ∧
      s.channels[0]? = some c ∧ c.Serving :=
    ⟨_, _, rfl, rfl, rfl, rfl, by decide⟩
  refine ⟨s, c, hrun, hc, hserving, (views_agree _ s hrun).2 ?_⟩
  refine ⟨trivial, trivial, trivial, trivial, ?_, trivial, ?_, trivial⟩
  · rintro c ⟨⟩
    exact ⟨nofun, nofun⟩
  · rintro call ⟨⟩
    exact le_refl 1

/-- A client asks for its new channel before the thread has begun; and a channel that comes into the
    store in front of another drives that one out of the list. -/
theorem unseen_channel :
    (∃ s c, Run FactoryViews.step .init (creation 0 ['a']) = some s ∧
      s.channels[0]? = some c ∧ c.Serving ∧ s.exists_ c.insName = false) ∧
    (∃ s c, Run FactoryViews.step .init (timelyCreation 0 ['a'] ++ .setLength ::
        timelyCreation 1 ['b'] ++ [.lock 0]) = some s ∧
      s.channels[0]? = some c ∧ c.Serving ∧ s.listed 1 = [['b']]) ∧
    ¬ ∀ (as : List Action) (s : FactoryViews), Run FactoryViews.step .init as = some s →
        Refusing s ∧ Agree s := by
  have hunseen : ∃ s c, Run FactoryViews.step .init (creation 0 ['a']) = some s ∧
      s.channels[0]? = some c ∧ c.Serving ∧ s.exists_ c.insName = false :=
    ⟨_, _, rfl, rfl, ⟨rfl, rfl, by decide⟩, by decide⟩
  refine ⟨hunseen, ⟨_, _, rfl, rfl, ⟨rfl, rfl, by decide⟩, by decide⟩, ?_⟩
  intro hall
  obtain ⟨s, c, hrun, hc, hserving, hexists⟩ := hunseen
  have hagree := (hall _ s hrun).2.exists_ 0 c hc hserving
  rw [hexists] at hagree
  cases hagree

/-! ## A creation alone -/

theorem mem_keys_iff {β : Type} {k : Str} {m : List (Str × β)} :
    k ∈ m.map Prod.fst ↔ ∃ v, m.lookup k = some v := by
  rw [← Option.isSome_iff_exists, List.lookup_isSome_iff]
  simp only [List.mem_map, beq_iff_eq]
  exact exists_congr fun e => and_congr_right fun _ => eq_comm

theorem getElem?_setChannel {s : FactoryViews} {i : ℕ} {c : NamedChannel}
    (hi : s.channels[i]? = some c) (c' : NamedChannel) : (s.setChannel i c').channels[i]? = some c' :=
  List.getElem?_set_self (List.getElem?_eq_some_iff.1 hi).1

/-- Without a conflict the creation goes on, with or without a mapper. -/
theorem step_setInsName_free {s : FactoryViews} {i : ℕ} {c : NamedChannel}
    (hi : s.channels[i]? = some c) (hcreation : c.creation = .createdPOA)
    (hfree : c.insName ≠ [] → s.insPoa.lookup c.insName = none) :
    ∃ t, s.step (.setInsName i) = some t ∧
      t.channels[i]? = some { c with creation := .mapped } := by
  by_cases hins : c.insName = []
  · refine ⟨s.setChannel i { c with creation := .mapped }, ?_, getElem?_setChannel hi _⟩
    simp only [FactoryViews.step, hi, Option.bind_some, FactoryViews.creationStep, hcreation, hins,
      ne_eq, not_true_eq_false, if_false, if_true]
  · refine ⟨{ s.setChannel i { c with creation := .mapped } with
      insPoa := OrdMap.insert c.insName (some i) s.insPoa }, ?_, getElem?_setChannel hi _⟩
    simp only [FactoryViews.step, hi, Option.bind_some, FactoryViews.creationStep, hcreation, hins,
      ne_eq, not_true_eq_false, if_false, hfree hins]

/-- The rest of a creation, after `setInsName`. -/
theorem run_start_returnThis {s : FactoryViews} {i : ℕ} {c : NamedChannel}
    (hi : s.channels[i]? = some c) (hcreation : c.creation = .mapped) :
    ∃ t d, Run FactoryViews.step s [.start i, .returnThis i] = some t ∧
      t.channels[i]? = some d ∧ d.creation = .returned ∧ d.name = c.name := by
  let started : NamedChannel := { c with creation := .started, thread := .insert }
  have hstart : s.step (.start i) = some (s.setChannel i started) := by
    simp only [FactoryViews.step, hi, Option.bind_some, FactoryViews.creationStep, hcreation, if_true,
      started]
  have hget := getElem?_setChannel hi started
  have hreturn : (s.setChannel i started).step (.returnThis i)
      = some ((s.setChannel i started).setChannel i { started with creation := .returned }) := by
    simp only [FactoryViews.step, hget, Option.bind_some, FactoryViews.creationStep, if_true, started]
  refine ⟨_, { started with creation := .returned }, ?_, getElem?_setChannel hget _, rfl, rfl⟩
  rw [run_cons, hstart, Option.bind_some, run_cons, hreturn, Option.bind_some, run_nil]

/-- A creation that nothing comes between has the result of `create_object`: it is refused at its POA,
    or fails at its mapper, or returns the channel. -/
theorem creation_alone {Ref : Type} (orb : Orb Ref) (env : Env) (s : FactoryViews)
    (criteria : List Criterion) (uniqueId : { id : Str // id ≠ [] }) :
    match OmniEvents.create_object orb env (s.poas.map Prod.fst) (s.insPoa.map Prod.fst) uniqueId
      channelKey criteria with
    | .error _ =>
        s.step (.create criteria uniqueId) = some s ∨
          ∃ t c, Run FactoryViews.step s
              [.create criteria uniqueId, .setInsName s.channels.length] = some t ∧
            t.channels[s.channels.length]? = some c ∧ c.creation = .failed
    | .ok channel =>
        ∃ t c, Run FactoryViews.step s
            [.create criteria uniqueId, .setInsName s.channels.length, .start s.channels.length,
              .returnThis s.channels.length] = some t ∧
          t.channels[s.channels.length]? = some c ∧ c.creation = .returned ∧
          c.name = channel.name := by
  have hkey : supports channelKey = true := rfl
  simp only [OmniEvents.create_object, hkey, Bool.not_true, Bool.false_eq_true, if_false]
  cases hparse : parseCriteria criteria with
  | error ex => exact Or.inl (by simp only [FactoryViews.step, hparse])
  | ok node =>
      simp only [activate_of_leaf orb env _ (criteriaNode_parseCriteria hparse).leaf]
      by_cases hname : channelId node uniqueId ∈ s.poas.map Prod.fst
      · obtain ⟨i, hi⟩ := mem_keys_iff.1 hname
        rw [if_pos hname]
        exact Or.inl (by simp only [FactoryViews.step, hparse, hi])
      · have hfree := mt mem_keys_iff.2 hname
        rw [not_exists, ← Option.eq_none_iff_forall_ne_some] at hfree
        obtain ⟨t, hcreate, hget, hins⟩ : ∃ t, s.step (.create criteria uniqueId) = some t ∧
            t.channels[s.channels.length]? = some (.new (channelId node uniqueId) node) ∧
            t.insPoa = s.insPoa := by
          refine ⟨{ s with
            poas := OrdMap.insert (channelId node uniqueId) s.channels.length s.poas
            channels := s.channels ++ [.new (channelId node uniqueId) node] }, ?_, ?_, rfl⟩
          · simp only [FactoryViews.step, hparse, hfree]
          · simp
        rw [if_neg hname, run_cons, run_cons, hcreate, Option.bind_some, Option.bind_some, ← hins]
        by_cases hconflict : node.attrString keyInsName ≠ [] ∧
            node.attrString keyInsName ∈ t.insPoa.map Prod.fst
        · obtain ⟨e, he⟩ := mem_keys_iff.1 hconflict.2
          rw [if_pos hconflict]
          dsimp only
          rw [run_cons, step_setInsName_taken hget rfl hconflict.1 he]
          exact Or.inr ⟨_, _, rfl, getElem?_setChannel hget _, rfl⟩
        · rw [if_neg hconflict]
          dsimp only
          rw [run_cons]
          obtain ⟨u, hmap, hmapped⟩ := step_setInsName_free hget rfl fun hnil => by
            rw [Option.eq_none_iff_forall_ne_some, ← not_exists]
            exact mt mem_keys_iff.2 fun hmem => hconflict ⟨hnil, hmem⟩
          rw [hmap, Option.bind_some]
          exact run_start_returnThis hmapped rfl

end ChannelViews

end OmniEvents
