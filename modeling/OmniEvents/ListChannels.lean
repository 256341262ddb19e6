import OmniEvents.CreateChannel
import OmniEvents.Lib.Transition
import Mathlib.Data.List.Perm.Basic

set_option autoImplicit false

/-! # Listing channels

`list_channels` reads the number of channels twice before `EventChannelStore::list` takes the lock of
the store: once to allocate the sequence, and once more to set its length. Channels come and go in
between, as their threads begin and end, and the loop under the lock writes an entry for every channel
there is by then. What `operator[]` does with an index past the length is up to the ORB, and a
parameter here: if it raises, the loop ignores the exception and goes on. The entries are right
exactly if their number is, or if those that do not fit can be done without (`list_snapshot_iff`). -/

namespace OmniEvents

open Transition

/-! ## Entries

What the reply has of a channel: its name, the numbers of its properties, whether it has a mapper,
and its filter. -/

/-- What the store has of a channel. -/
structure StoredChannel where
  name : Str
  properties : PersistNode
  /-- `_mapper` is not null. -/
  mapper : Bool

/-- The struct of the idl file. -/
structure EventChannelInfo where
  channel_name : Str
  pull_retry_period : Int32
  max_queue_length : Int32
  max_num_proxies : Int32
  cycle_period : Int32
  has_mapper : Bool
  filter_id : Str
  deriving DecidableEq, Repr

/-- The entry for a channel. Each number is converted to 32 bits. -/
def StoredChannel.info (c : StoredChannel) : EventChannelInfo :=
  { channel_name := c.name
    pull_retry_period := .ofInt (c.properties.attrLong keyPullRetryPeriod_ms 1000)
    max_queue_length := .ofInt (c.properties.attrLong keyMaxQueueLength 1023)
    max_num_proxies := .ofInt (c.properties.attrLong keyMaxNumProxies defaultMaxNumProxies)
    cycle_period := .ofInt (c.properties.attrLong keyCyclePeriod_ns 100000000)
    has_mapper := c.mapper
    filter_id :=
      if c.properties.hasAttr keyFilterId then c.properties.attrString keyFilterId else [] }

/-! ## The call -/

/-- How far a call of `list_channels` has come. -/
inductive ListPhase where
  | called
  /-- `all->length(size)` has been executed. -/
  | allocated
  /-- `clist.length(_channels.size())` has been executed. -/
  | sized
  | returned
  deriving DecidableEq, Repr

/-- A call of `list_channels` and the store. -/
structure ListChannels where
  /-- `_channels`, by address. -/
  channels : List (ℕ × StoredChannel)
  phase : ListPhase
  /-- The sequence; `none` is a blank entry. -/
  clist : List (Option EventChannelInfo)
  /-- The entries written at or beyond the length of the sequence. -/
  beyond : List EventChannelInfo
  /-- What the store has been since the call, for the observer. -/
  moments : List (List (ℕ × StoredChannel))

/-- What the threads of channels do to the store, and the call. -/
inductive ListChannels.Action where
  | insert (channel : ℕ) (c : StoredChannel)
  | erase (channel : ℕ)
  /-- The next step of the call. -/
  | list

namespace ListChannels

/-- `list_channels` is called. -/
def call (channels : List (ℕ × StoredChannel)) : ListChannels :=
  { channels := channels, phase := .called, clist := [], beyond := [], moments := [channels] }

/-- `clist.length(n)`: the sequence is cut off, or extended with blank entries. -/
def setLength (n : ℕ) (clist : List (Option EventChannelInfo)) : List (Option EventChannelInfo) :=
  clist.take n ++ List.replicate (n - clist.length) none

/-- `_channels` has become `channels`. -/
def setChannels (s : ListChannels) (channels : List (ℕ × StoredChannel)) : ListChannels :=
  { s with
    channels := channels
    moments := if s.phase = .returned then s.moments else s.moments ++ [channels] }

/-- The entries for the channels, in their order. -/
def infos (channels : List (ℕ × StoredChannel)) : List EventChannelInfo :=
  channels.map fun e => e.2.info

section

-- whether `operator[]` raises for an index at or beyond a length
variable (raises : ℕ → ℕ → Bool)

/-- `clist[i]=eci`: the sequence, and what is past its end, or an exception. -/
def assign (i : ℕ) (eci : EventChannelInfo) (clist : List (Option EventChannelInfo))
    (beyond : List EventChannelInfo) :
    Option (List (Option EventChannelInfo) × List EventChannelInfo) :=
  if i < clist.length then some (clist.set i (some eci), beyond)
  else if raises clist.length i then none
  else some (clist, beyond ++ [eci])

/-- The loop of `EventChannelStore::list`, from the `i`-th entry on. -/
def fill (i : ℕ) (clist : List (Option EventChannelInfo)) (beyond : List EventChannelInfo) :
    List EventChannelInfo → List (Option EventChannelInfo) × List EventChannelInfo
  | [] => (clist, beyond)
  | eci :: ecis =>
      match assign raises i eci clist beyond with
      | some (clist, beyond) => fill (i + 1) clist beyond ecis
      -- `catch(...)`
      | none => fill (i + 1) clist beyond ecis

/-- A step of the call, or of another thread. -/
def step (s : ListChannels) : Action → Option ListChannels
  | .insert channel c =>
      match s.channels.lookup channel with
      | some _ => some s
      | none => some (s.setChannels (OrdMap.insert channel c s.channels))
  | .erase channel => some (s.setChannels (OrdMap.erase channel s.channels))
  | .list =>
      match s.phase with
      | .called =>
          some { s with clist := setLength s.channels.length s.clist, phase := .allocated }
      | .allocated =>
          some { s with clist := setLength s.channels.length s.clist, phase := .sized }
      | .sized =>
          -- the lock keeps `insert` and `erase` out
          let filled := fill raises 0 s.clist s.beyond (infos s.channels)
          some { s with clist := filled.1, beyond := filled.2, phase := .returned }
      | .returned => none

/-- When the lock is taken there are as many channels as when the length was set; or there are more,
    `operator[]` raises for each that does not fit, and the others are what the store had at some
    moment since the call. -/
def Steady (s : ListChannels) : Action → Prop
  | .list => s.phase = .sized → s.channels.length = s.clist.length ∨
      s.clist.length < s.channels.length ∧
        (∀ i, s.clist.length ≤ i → i < s.channels.length → raises s.clist.length i = true) ∧
        ∃ m ∈ s.moments, ((infos s.channels).take s.clist.length).Perm (infos m)
  | _ => True

end

/-- Nothing is written outside the sequence, and at one moment between the call and the return it has
    exactly one entry for every channel in the store. -/
def Snapshot (s : ListChannels) : Prop :=
  s.beyond = [] ∧ ∃ m ∈ s.moments, s.clist.Perm ((infos m).map some)

/-! ## The loop

The loop meets a sequence of blank entries. The first channels fill it, in their order; of the others
those are written past its end for which `operator[]` does not raise. -/

variable {raises : ℕ → ℕ → Bool} {s t : ListChannels} {channels : List (ℕ × StoredChannel)}

/-- What is written past the end of a sequence of this length, from the `i`-th entry on. -/
def past (raises : ℕ → ℕ → Bool) (length i : ℕ) : List EventChannelInfo → List EventChannelInfo
  | [] => []
  | eci :: ecis =>
      if raises length i then past raises length (i + 1) ecis
      else eci :: past raises length (i + 1) ecis

theorem past_eq_nil_iff {length i : ℕ} {ecis : List EventChannelInfo} :
    past raises length i ecis = [] ↔
      ∀ j, i ≤ j → j < i + ecis.length → raises length j = true := by
  induction ecis generalizing i with
  | nil =>
      refine iff_of_true rfl ?_
      intro j hij hj
      exact absurd hj (Nat.not_lt.2 hij)
  | cons eci ecis ih =>
      rw [past, List.length_cons]
      cases hraises : raises length i with
      | false =>
          simp only [Bool.false_eq_true, if_false, reduceCtorEq, false_iff]
          intro h
          rw [h i le_rfl (by omega)] at hraises
          cases hraises
      | true =>
          rw [if_pos rfl, ih]
          constructor
          · intro h j hij hj
            rcases hij.eq_or_lt with rfl | hlt
            · exact hraises
            · exact h j hlt (by omega)
          · intro h j hij hj
            exact h j (by omega) (by omega)

theorem fill_past {i : ℕ} {clist : List (Option EventChannelInfo)} (hi : clist.length ≤ i)
    (beyond ecis : List EventChannelInfo) :
    fill raises i clist beyond ecis = (clist, beyond ++ past raises clist.length i ecis) := by
  induction ecis generalizing i beyond with
  | nil => simp [fill, past]
  | cons eci ecis ih =>
      rw [fill, past, assign, if_neg (Nat.not_lt.2 hi)]
      cases raises clist.length i with
      | true => exact ih (by omega) beyond
      | false =>
          simp only [Bool.false_eq_true, if_false]
          rw [ih (by omega), List.append_assoc, List.singleton_append]

theorem fill_blank (front : List (Option EventChannelInfo)) (n : ℕ)
    (beyond ecis : List EventChannelInfo) :
    fill raises front.length (front ++ List.replicate n none) beyond ecis =
      (front ++ (ecis.take n).map some ++ List.replicate (n - ecis.length) none,
        beyond ++ past raises (front.length + n) (front.length + n) (ecis.drop n)) := by
  induction ecis generalizing front n with
  | nil => simp [fill, past]
  | cons eci ecis ih =>
      cases n with
      | zero =>
          have hpast : fill raises front.length front beyond (eci :: ecis) = _ :=
            fill_past le_rfl beyond (eci :: ecis)
          simpa using hpast
      | succ n =>
          have hset : (front ++ List.replicate (n + 1) none).set front.length (some eci) =
              (front ++ [some eci]) ++ List.replicate n none := by
            rw [List.set_append_right _ _ (Nat.le_refl _), Nat.sub_self, List.replicate_succ]
            simp
          have hlength : front.length + 1 = (front ++ [some eci]).length := by simp
          have hsum : front.length + (n + 1) = (front ++ [some eci]).length + n := by
            rw [← hlength]
            omega
          rw [fill, assign, if_pos (by simp), hset]
          simp only
          rw [hlength, ih, hsum]
          simp

/-- What the loop makes of a sequence of blank entries. -/
theorem fill_replicate (n : ℕ) (ecis : List EventChannelInfo) :
    fill raises 0 (List.replicate n none) [] ecis =
      ((ecis.take n).map some ++ List.replicate (n - ecis.length) none,
        past raises n n (ecis.drop n)) := by
  have hfill : fill raises 0 ([] ++ List.replicate n none) [] ecis = _ := fill_blank [] n [] ecis
  simpa using hfill

/-! ## Runs

A call that has returned has found the condition met exactly if its sequence is a snapshot. -/

/-- Nothing has been written yet. -/
def Blank (s : ListChannels) : Prop :=
  (∃ n, s.clist = List.replicate n none) ∧ s.beyond = []

theorem blank_setLength (h : s.Blank) (n : ℕ) (phase : ListPhase) :
    Blank { s with clist := setLength n s.clist, phase := phase } := by
  obtain ⟨⟨m, hclist⟩, hbeyond⟩ := h
  refine ⟨⟨min n m + (n - m), ?_⟩, hbeyond⟩
  show setLength n s.clist = _
  rw [setLength, hclist, List.take_replicate, List.length_replicate, List.replicate_append_replicate]

/-- The loop makes a snapshot exactly under the condition. -/
theorem snapshot_fill_iff (hs : s.Blank) (hphase : s.phase = .sized)
    (hmoment : s.channels ∈ s.moments) (h : s.step raises .list = some t) :
    t.Snapshot ↔ s.Steady raises .list := by
  obtain ⟨⟨n, hclist⟩, hbeyond⟩ := hs
  simp only [step, hphase, hclist, hbeyond, fill_replicate] at h
  cases h
  have hlength : (infos s.channels).length = s.channels.length := List.length_map ..
  simp only [Snapshot, Steady, hphase, hclist, List.length_replicate, true_implies,
    past_eq_nil_iff, List.length_drop, hlength]
  constructor
  · rintro ⟨hraises, m, hm, hperm⟩
    have hle : n ≤ s.channels.length := by
      by_contra hlt
      have hblank : none ∈ (infos m).map some := by
        refine hperm.mem_iff.1 (List.mem_append_right _ (List.mem_replicate.2 ⟨?_, rfl⟩))
        omega
      simp at hblank
    rcases hle.eq_or_lt with heq | hlt
    · exact Or.inl heq.symm
    · refine Or.inr ⟨hlt, fun i hi hlt => hraises i hi (by omega), m, hm, ?_⟩
      rw [Nat.sub_eq_zero_of_le hle, List.replicate_zero, List.append_nil] at hperm
      exact (List.map_perm_map_iff fun _ _ h => Option.some_inj.1 h).1 hperm
  · rintro (heq | ⟨hlt, hraises, m, hm, hperm⟩)
    · refine ⟨fun j hj hlt => absurd hlt (by omega), s.channels, hmoment, ?_⟩
      rw [← heq, Nat.sub_self, List.replicate_zero, List.append_nil, ← hlength, List.take_length]
    · refine ⟨fun j hj hlt => hraises j hj (by omega), m, hm, ?_⟩
      rw [Nat.sub_eq_zero_of_le hlt.le, List.replicate_zero, List.append_nil]
      exact hperm.map some

/-- What others do to the store does not touch the call. -/
theorem step_other {a : Action} (ha : a ≠ .list) (h : s.step raises a = some t) :
    t = s ∨ ∃ channels, t = s.setChannels channels := by
  cases a with
  | insert channel c =>
      simp only [step] at h
      split at h
      · cases h
        exact Or.inl rfl
      · cases h
        exact Or.inr ⟨_, rfl⟩
  | erase channel =>
      cases h
      exact Or.inr ⟨_, rfl⟩
  | list => exact absurd rfl ha

/-- What a run has done, before and after the return. -/
structure Listed (raises : ℕ → ℕ → Bool) (channels : List (ℕ × StoredChannel)) (as : List Action)
    (s : ListChannels) : Prop where
  blank : s.phase ≠ .returned →
    s.Blank ∧ s.channels ∈ s.moments ∧ Along (step raises) (Steady raises) (call channels) as
  filled : s.phase = .returned →
    (s.Snapshot ↔ Along (step raises) (Steady raises) (call channels) as)

theorem listed_fill {as : List Action} (hrun : Run (step raises) (call channels) as = some s)
    (hs : Listed raises channels as s) (hphase : s.phase = .sized)
    (h : s.step raises .list = some t) : Listed raises channels (as ++ [.list]) t := by
  obtain ⟨hblank, hmoment, halong⟩ := hs.blank (by rw [hphase]; nofun)
  have hsnapshot := snapshot_fill_iff hblank hphase hmoment h
  simp only [step, hphase] at h
  cases h
  refine ⟨fun hne => absurd rfl hne, fun _ => ?_⟩
  rw [hsnapshot, along_concat hrun]
  exact (and_iff_right halong).symm

/-- A length is set, and nothing is written. -/
theorem listed_setLength {as : List Action} (hrun : Run (step raises) (call channels) as = some s)
    (hs : Listed raises channels as s) (hphase : s.phase = .called ∨ s.phase = .allocated) (n : ℕ)
    {phase : ListPhase} (hnext : phase ≠ .returned) :
    Listed raises channels (as ++ [.list])
      { s with clist := setLength n s.clist, phase := phase } := by
  obtain ⟨hblank, hmoment, halong⟩ := hs.blank (by rcases hphase with h | h <;> rw [h] <;> nofun)
  refine ⟨fun _ => ⟨blank_setLength hblank n phase, hmoment, ?_⟩, fun h => absurd h hnext⟩
  rw [along_concat hrun]
  refine ⟨halong, ?_⟩
  intro hsized
  rcases hphase with h | h <;> rw [h] at hsized <;> cases hsized

theorem listed_setChannels {as : List Action} {a : Action}
    (hrun : Run (step raises) (call channels) as = some s) (hs : Listed raises channels as s)
    (ha : s.Steady raises a) (channels' : List (ℕ × StoredChannel)) :
    Listed raises channels (as ++ [a]) (s.setChannels channels') := by
  refine ⟨fun hne => ?_, fun hreturned => ?_⟩
  · have hne : s.phase ≠ .returned := hne
    obtain ⟨hblank, -, halong⟩ := hs.blank hne
    refine ⟨hblank, ?_, (along_concat hrun).2 ⟨halong, ha⟩⟩
    simp [setChannels, hne]
  · have hreturned : s.phase = .returned := hreturned
    rw [along_concat hrun, and_iff_left ha, ← hs.filled hreturned]
    simp [Snapshot, setChannels, hreturned]

theorem listed_step (as : List Action) (s : ListChannels) (a : Action) (t : ListChannels)
    (hrun : Run (step raises) (call channels) as = some s) (hs : Listed raises channels as s)
    (h : s.step raises a = some t) : Listed raises channels (as ++ [a]) t := by
  by_cases ha : a = .list
  · subst ha
    cases hphase : s.phase with
    | sized => exact listed_fill hrun hs hphase h
    | called =>
        simp only [step, hphase] at h
        cases h
        exact listed_setLength hrun hs (.inl hphase) _ nofun
    | allocated =>
        simp only [step, hphase] at h
        cases h
        exact listed_setLength hrun hs (.inr hphase) _ nofun
    | returned =>
        simp only [step, hphase] at h
        cases h
  · have hsteady : s.Steady raises a := by
      cases a with
      | list => exact absurd rfl ha
      | insert channel c => trivial
      | erase channel => trivial
    rcases step_other ha h with rfl | ⟨channels', rfl⟩
    · refine ⟨fun hne => ?_, fun hreturned => ?_⟩
      · obtain ⟨hblank, hmoment, halong⟩ := hs.blank hne
        exact ⟨hblank, hmoment, (along_concat hrun).2 ⟨halong, hsteady⟩⟩
      · rw [along_concat hrun, and_iff_left hsteady]
        exact hs.filled hreturned
    · exact listed_setChannels hrun hs hsteady channels'

theorem listed_call : Listed raises channels [] (call channels) where
  blank _ := ⟨⟨⟨0, rfl⟩, rfl⟩, List.mem_singleton.2 rfl, trivial⟩
  filled h := by cases h

/-- **When `list_channels` returns a snapshot of the store**, whatever comes and goes during the call
    and whatever `operator[]` does past the length: exactly if there are as many channels when the
    lock is taken as when the length was set, or more, and those that do not fit are refused and not
    missed. -/
theorem list_snapshot_iff (raises : ℕ → ℕ → Bool) (channels : List (ℕ × StoredChannel))
    (as : List Action) (s : ListChannels) (hrun : Run (step raises) (call channels) as = some s)
    (hreturned : s.phase = .returned) :
    Snapshot s ↔ Along (step raises) (Steady raises) (call channels) as :=
  (Run.induct (P := Listed raises channels) listed_call listed_step hrun).filled hreturned

/-- A channel of this name. -/
def named (name : Str) : StoredChannel := ⟨name, .empty, false⟩

/-- One channel is replaced by another during the call. -/
theorem list_snapshot_replaced : ∃ s, Run (step fun _ _ => true) (call [(1, named ['a'])])
    [.list, .list, .erase 1, .insert 2 (named ['b']), .list] = some s ∧
    s.clist = [some (named ['b']).info] ∧ Snapshot s := by
  obtain ⟨s, hrun, hphase, hclist⟩ : ∃ s, Run (step fun _ _ => true) (call [(1, named ['a'])])
      [.list, .list, .erase 1, .insert 2 (named ['b']), .list] = some s ∧ s.phase = .returned ∧
      s.clist = [some (named ['b']).info] := ⟨_, rfl, rfl, rfl⟩
  refine ⟨s, hrun, hclist, (list_snapshot_iff _ _ _ s hrun hphase).2 ?_⟩
  exact ⟨nofun, nofun, trivial, trivial, fun _ => Or.inl rfl, trivial⟩

/-- A channel that goes before the lock is taken leaves a blank entry. One that comes, at a lower
    address, drives another out of the list if `operator[]` raises; if it does not, the other is
    written beyond the end of the sequence. -/
theorem list_not_snapshot :
    (∃ s, Run (step fun _ _ => true) (call [(1, named ['a'])])
      [.list, .list, .erase 1, .list] = some s ∧ s.phase = .returned ∧ s.clist = [none] ∧
      ¬ Snapshot s) ∧
    (∃ s, Run (step fun _ _ => true) (call [(1, named ['a'])])
      [.list, .list, .insert 0 (named ['b']), .list] = some s ∧ s.phase = .returned ∧
      s.clist = [some (named ['b']).info] ∧ ¬ Snapshot s) ∧
    ∃ s, Run (step fun _ _ => false) (call [(1, named ['a'])])
      [.list, .list, .insert 0 (named ['b']), .list] = some s ∧ s.phase = .returned ∧
      s.clist.length = 1 ∧ s.beyond = [(named ['a']).info] := by
  have hne : (named ['b']).info ≠ (named ['a']).info := by
    intro h
    exact absurd (congrArg EventChannelInfo.channel_name h) (by decide)
  refine ⟨⟨_, rfl, rfl, rfl, ?_⟩, ⟨_, rfl, rfl, rfl, ?_⟩, ⟨_, rfl, rfl, rfl, rfl⟩⟩
  · rintro ⟨-, m, -, hperm⟩
    simpa using hperm.mem_iff.1 (List.mem_singleton.2 rfl)
  · rintro ⟨-, m, hm, hperm⟩
    rcases List.mem_cons.1 hm with rfl | hm
    · exact hne (Option.some_inj.1 (List.mem_singleton.1 (hperm.mem_iff.1 (List.mem_singleton.2 rfl))))
    · obtain rfl := List.mem_singleton.1 hm
      exact absurd hperm.length_eq (by decide)

end ListChannels

end OmniEvents
