import OmniEvents.Channels
import Mathlib.Data.List.Nodup

set_option autoImplicit false

/-! # A checkpoint while proxies are torn down

A servant that has been deactivated stays in its set until it is etherealized, and until then its
`output` raises. This file follows such an exception through one pass of `omniEventsLog::checkpoint`.
`ConsumerAdmin_i::output` catches it around the loop over the push suppliers, so those after the
servant are left out; for pull suppliers and pull consumers nobody catches it, and it ends the worker
with the lock held. -/

namespace OmniEvents

variable {Ref : Type}

/-! ## One pass -/

/-- What a pass uses of `omniEventsLog`: whether the worker holds `_lock`, whether it still runs,
    and which file is in force with what it contains. -/
structure LogState where
  locked : Bool
  running : Bool
  file : ℕ
  active : List LogRecord
  firstCheckPoint : Bool
  checkpointNeeded : Bool
  deriving DecidableEq, Repr

/-- Can the checkpoint file be opened, and can it be written and closed? -/
structure CheckpointIo where
  opens : Bool
  closes : Bool
  deriving DecidableEq, Repr

/-- One turn of the loop of `omniEventsLog::checkpoint`. An `IOError` is caught in it; any other
    exception leaves it, is caught by `omniEventsLogWorker::run_undetached`, and ends the thread. -/
def checkpointPass (orb : Orb Ref) (f : EventChannelFactory Ref) (disk : CheckpointIo)
    (s : LogState) : LogState :=
  if !s.firstCheckPoint && !s.checkpointNeeded then s
  else
    let s := { s with locked := true, firstCheckPoint := false }
    if !disk.opens then { s with locked := false }
    else
      match f.output orb with
      | ⟨_, some _⟩ => { s with running := false }
      | ⟨records, none⟩ =>
          if !disk.closes then { s with locked := false }
          else { s with locked := false, file := s.file + 1, active := records
                        checkpointNeeded := false }

/-! ## What is asked of it -/

/-- Whether each proxy of a channel is connected, and what its own `output` does. -/
def EventChannel.ownOutputs (c : EventChannel Ref) (orb : Orb Ref) : List (Bool × Written) :=
  c.connections.map (fun e => (true, ⟨[e.2.output], none⟩)) ++
  (c.pullConsumer.getD []).map (fun p => (p.target.isSome, p.output orb c.name)) ++
  (c.pushSupplier.getD []).map (fun p => (p.target.isSome, p.output c.name)) ++
  (c.pullSupplier.getD []).map (fun p => (p.connected, p.output orb c.name))

/-- The pass ends with the lock released and the worker running, and the file in force is either the
    old one, unchanged, or has the record of every connected proxy whose own output does not raise. -/
def SurvivesPass (orb : Orb Ref) (f : EventChannelFactory Ref) (disk : CheckpointIo)
    (s : LogState) : Prop :=
  let s' := checkpointPass orb f disk s
  s'.locked = false ∧ s'.running = true ∧
    ((s'.file = s.file ∧ s'.active = s.active) ∨
      ∀ c ∈ f.channels, ∀ w, (true, w) ∈ c.ownOutputs orb → w.raised = none →
        ∀ r ∈ w.records, r ∈ s'.active)

/-- No push supplier that is connected and active comes after an inactive one. -/
def EventChannel.NoneHidden (c : EventChannel Ref) : Prop :=
  (c.pushSupplier.getD []).Pairwise
    (fun p q => p.active = false → ¬(q.active = true ∧ q.target.isSome = true))

/-- Object ids are unique among the active push suppliers of a channel, and names among channels, as
    the POAs see to. -/
structure EventChannelFactory.UniqueIds (f : EventChannelFactory Ref) : Prop where
  names : (f.channels.map (·.name)).Nodup
  oids : ∀ c ∈ f.channels,
    (c.pushSupplier.getD []).Pairwise
      (fun p q => p.active = true → q.active = true → p.oid ≠ q.oid)

/-! ## Hidden neighbours

The output of the push suppliers ends at the first that is not active. What comes after it in the
set is hidden from the new log. -/

/-- The elements that satisfy `a` and `c` all come before the first one that does not satisfy `a`. -/
theorem forall_mem_takeWhile_iff {α : Type*} {a c : α → Bool} {l : List α}
    (hne : l.Pairwise (fun p q => a p = true → a q = true → p ≠ q)) :
    (∀ q ∈ l, a q = true → c q = true → q ∈ l.takeWhile a) ↔
      l.Pairwise (fun p q => a p = false → ¬(a q = true ∧ c q = true)) := by
  induction l with
  | nil => simp
  | cons p l ih =>
      obtain ⟨hhead, htail⟩ := List.pairwise_cons.1 hne
      rw [List.pairwise_cons, ← ih htail]
      cases hp : a p with
      | true =>
          rw [List.takeWhile_cons_of_pos hp]
          constructor
          · intro h
            refine ⟨fun q _ hfalse => by simp at hfalse, ?_⟩
            intro q hq haq hcq
            have hmem := h q (List.mem_cons_of_mem _ hq) haq hcq
            exact (List.mem_cons.1 hmem).resolve_left (Ne.symm (hhead q hq hp haq))
          · rintro ⟨-, h⟩ q hq haq hcq
            rcases List.mem_cons.1 hq with rfl | hq
            · exact List.mem_cons_self ..
            · exact List.mem_cons_of_mem _ (h q hq haq hcq)
      | false =>
          rw [List.takeWhile_cons_of_neg (by simp [hp])]
          constructor
          · intro h
            exact ⟨fun q hq _ hac => absurd (h q (List.mem_cons_of_mem _ hq) hac.1 hac.2) (by simp),
              fun q hq haq hcq => absurd (h q (List.mem_cons_of_mem _ hq) haq hcq) (by simp)⟩
          · rintro ⟨h, -⟩ q hq haq hcq
            rcases List.mem_cons.1 hq with rfl | hq
            · simp [hp] at haq
            · exact absurd ⟨haq, hcq⟩ (h q hq rfl)

/-- Where keys are unique among the elements that satisfy `a`, one with the key of an element before
    the first that does not is itself before it. -/
theorem mem_takeWhile_of_key {α κ : Type*} {a : α → Bool} {key : α → κ} {l : List α}
    (hkeys : l.Pairwise (fun p q => a p = true → a q = true → key p ≠ key q)) {p q : α}
    (hp : p ∈ l.takeWhile a) (hq : q ∈ l) (haq : a q = true) (hkey : key p = key q) :
    q ∈ l.takeWhile a := by
  induction l with
  | nil => cases hq
  | cons x l ih =>
      obtain ⟨hhead, htail⟩ := List.pairwise_cons.1 hkeys
      by_cases hx : a x = true
      · rw [List.takeWhile_cons_of_pos hx] at hp ⊢
        rcases List.mem_cons.1 hq with rfl | hql
        · exact List.mem_cons_self ..
        · rcases List.mem_cons.1 hp with rfl | hpl
          · exact absurd hkey (hhead q hql hx haq)
          · exact List.mem_cons_of_mem _ (ih htail hpl hql)
      · rw [List.takeWhile_cons_of_neg hx] at hp
        cases hp

/-! ## Which records a new log has -/

/-- The record of a push supplier in the log of a channel comes from one that was visited before the
    first inactive one. -/
theorem EventChannel.mem_output_pushSupplier {c : EventChannel Ref} {orb : Orb Ref}
    (hpulls : c.PullsActive) {channelName oid : Str} {attrs : List (Str × Str)}
    (h : .entry (keyPath channelName .ProxyPushSupplier oid) attrs ∈ (c.output orb).records) :
    c.name = channelName ∧
      ∃ p ∈ (c.pushSupplier.getD []).takeWhile (·.active), p.oid = oid := by
  rw [c.output_records orb hpulls] at h
  simp only [List.mem_cons, List.mem_append, List.mem_map, List.mem_flatMap] at h
  rcases h with h | (⟨e, -, h⟩ | ⟨p, -, h⟩) | ⟨p, hp, h⟩ | ⟨p, -, h⟩
  · cases h
  · obtain ⟨hpath, -⟩ := LogRecord.entry.inj h
    cases (keyPath_inj.1 hpath).2.1
  · cases (keyPath_inj.1 (Proxy.path_of_mem_basicOutputRef h)).2.1
  · obtain ⟨hname, -, hoid⟩ := keyPath_inj.1 (Proxy.path_of_mem_basicOutput h)
    exact ⟨hname.symm, p, hp, hoid.symm⟩
  · cases (keyPath_inj.1 (Proxy.path_of_mem_basicOutputRef h)).2.1

/-- A connected proxy of a channel without hidden neighbours gets its record into the log. -/
theorem EventChannel.mem_output_of_own {c : EventChannel Ref} {orb : Orb Ref}
    (hpulls : c.PullsActive)
    (hvisited : ∀ q ∈ c.pushSupplier.getD [], q.active = true → q.target.isSome = true →
      q ∈ (c.pushSupplier.getD []).takeWhile (·.active))
    {w : Written} (hw : (true, w) ∈ c.ownOutputs orb) (hraised : w.raised = none) {r : LogRecord}
    (hr : r ∈ w.records) : r ∈ (c.output orb).records := by
  rw [c.output_records orb hpulls]
  simp only [ownOutputs, List.mem_append, List.mem_map, Prod.mk.injEq] at hw
  simp only [List.mem_cons, List.mem_append, List.mem_map, List.mem_flatMap]
  rcases hw with ((⟨e, he, -, rfl⟩ | ⟨p, hp, -, rfl⟩) | ⟨p, hp, hconn, rfl⟩) | ⟨p, hp, -, rfl⟩
  · exact Or.inr (Or.inl (Or.inl ⟨e, he, (List.mem_singleton.1 hr).symm⟩))
  · exact Or.inr (Or.inl (Or.inr ⟨p, hp, hr⟩))
  · have hactive := (p.output_raised c.name).1 hraised
    exact Or.inr (Or.inr (Or.inl ⟨p, hvisited p hp hactive hconn, hr⟩))
  · exact Or.inr (Or.inr (Or.inr ⟨p, hp, hr⟩))

/-- A checkpoint that is written to the end has the records of all connected proxies that can be
    written, if and only if none of them is hidden. -/
theorem EventChannelFactory.complete_iff {f : EventChannelFactory Ref} (orb : Orb Ref)
    (hids : f.UniqueIds) (hpulls : ∀ c ∈ f.channels, c.PullsActive) :
    (∀ c ∈ f.channels, ∀ w, (true, w) ∈ c.ownOutputs orb → w.raised = none →
        ∀ r ∈ w.records, r ∈ (f.output orb).records) ↔
      ∀ c ∈ f.channels, c.NoneHidden := by
  have hrecords := f.output_records orb hpulls
  have hunique : ∀ c ∈ f.channels, (c.pushSupplier.getD []).Pairwise
      (fun p q => p.active = true → q.active = true → p ≠ q) := fun c hc =>
    (hids.oids c hc).imp (fun h hp hq hpq => h hp hq (by rw [hpq]))
  constructor
  · intro h c hc
    refine (forall_mem_takeWhile_iff (hunique c hc)).1 ?_
    intro q hq hactive hconn
    have hown : (true, q.output c.name) ∈ c.ownOutputs orb := by
      simp only [EventChannel.ownOutputs, List.mem_append, List.mem_map]
      exact Or.inl (Or.inr ⟨q, hq, by rw [hconn]⟩)
    have hmem := h c hc _ hown ((q.output_raised c.name).2 hactive) _
      (by rw [ProxyPushSupplier.output, Proxy.basicOutput_of_active _ _ hactive]
          exact List.mem_singleton_self _)
    rw [hrecords, List.mem_cons, List.mem_flatMap] at hmem
    rcases hmem with hmem | ⟨c', hc', hmem⟩
    · have := congrArg List.length (LogRecord.entry.inj hmem).1
      simp [keyPath] at this
    · obtain ⟨hname, p, hp, hoid⟩ := EventChannel.mem_output_pushSupplier (hpulls c' hc') hmem
      have : c' = c := List.inj_on_of_nodup_map hids.names hc' hc hname
      subst this
      exact mem_takeWhile_of_key (hids.oids c' hc) hp hq hactive hoid
  · intro h c hc w hw hraised r hr
    rw [hrecords, List.mem_cons, List.mem_flatMap]
    have hvisited := (forall_mem_takeWhile_iff (hunique c hc)).2 (h c hc)
    exact Or.inr ⟨c, hc, EventChannel.mem_output_of_own (hpulls c hc) hvisited hw hraised hr⟩

/-! ## When a checkpoint survives -/

/-- **A checkpoint survives the proxies being torn down exactly when** it has nothing to write, or
    its file cannot be opened, or no pull servant of any channel is inactive and, unless the file
    cannot be completed, no inactive push supplier stands before a connected active one. -/
theorem checkpoint_survives_iff (orb : Orb Ref) (f : EventChannelFactory Ref) (disk : CheckpointIo)
    (s : LogState) (hids : f.UniqueIds) (hlocked : s.locked = false) (hrunning : s.running = true) :
    SurvivesPass orb f disk s ↔
      (s.firstCheckPoint = false ∧ s.checkpointNeeded = false) ∨ disk.opens = false ∨
        ((∀ c ∈ f.channels, c.PullsActive) ∧
          (disk.closes = false ∨ ∀ c ∈ f.channels, c.NoneHidden)) := by
  by_cases hskip : s.firstCheckPoint = false ∧ s.checkpointNeeded = false
  · simp [SurvivesPass, checkpointPass, hskip, hlocked, hrunning]
  have hneeded : (!s.firstCheckPoint && !s.checkpointNeeded) = false := by
    simpa [Bool.and_eq_false_iff, or_iff_not_imp_left] using hskip
  cases hopens : disk.opens with
  | false => simp [SurvivesPass, checkpointPass, hneeded, hopens, hrunning]
  | true =>
      rcases hout : f.output orb with ⟨records, raised⟩
      have hpulls := f.output_raised orb
      rw [hout] at hpulls
      simp only at hpulls
      cases raised with
      | some ex =>
          -- the exception ends the worker
          have hnot : ¬∀ c ∈ f.channels, c.PullsActive := fun h => by simpa using hpulls.2 h
          simp [SurvivesPass, checkpointPass, hneeded, hopens, hout, hskip, hnot]
      | none =>
          have hactive := hpulls.1 rfl
          cases hcloses : disk.closes with
          | false =>
              simpa [SurvivesPass, checkpointPass, hneeded, hopens, hout, hcloses, hrunning]
                using Or.inr hactive
          | true =>
              have hcomplete := EventChannelFactory.complete_iff orb hids hactive
              rw [hout] at hcomplete
              simpa [SurvivesPass, checkpointPass, hneeded, hopens, hout, hcloses, hrunning, hskip,
                hcomplete] using fun _ => hactive

/-- A factory with one channel, which has these servants. -/
def oneChannel (pullConsumer : Option (List (ProxyPullConsumer Str)))
    (pushSupplier : Option (List (ProxyPushSupplier Str))) : EventChannelFactory Str :=
  { port := 11169
    endPointNoListen := []
    channels :=
      [{ name := ['a'], properties := [], connections := [], pullConsumer, pushSupplier
         pullSupplier := none }] }

/-- A push supplier connected to the consumer `I`. -/
def connectedPushSupplier (oid : Str) : ProxyPushSupplier Str :=
  { oid, active := true, req := none, target := some ['I'], target_sior := ['I']
    targetIsProxy := false }

/-- A pull consumer between `deactivateObject` and its etherealization ends the worker with the lock
    held; such a push supplier takes the record of its connected neighbour out of the new log. -/
theorem checkpoint_not_survives :
    ¬SurvivesPass stringOrb
      (oneChannel (some [{ oid := ['1'], active := false, req := none, target := none
                           mode := .Pull, exceptionCount := 0 }]) none)
      ⟨true, true⟩ ⟨false, true, 0, [], true, true⟩ ∧
    ¬SurvivesPass stringOrb
      (oneChannel none (some [.new ['1'] false, connectedPushSupplier ['2']]))
      ⟨true, true⟩ ⟨false, true, 0, [], true, true⟩ := by
  constructor
  · intro h
    exact absurd h.1 (by decide)
  · intro h
    rcases h.2.2 with h | h
    · exact absurd h.1 (by decide)
    · have hmem := h _ (List.mem_singleton_self _) ((connectedPushSupplier ['2']).output ['a'])
        (by decide) (by decide) _ (List.mem_singleton_self _)
      exact absurd hmem (by decide)

/-- A connected push supplier before an inactive one: the pass survives. -/
theorem checkpoint_survives_inactive_last :
    SurvivesPass stringOrb
      (oneChannel none (some [connectedPushSupplier ['2'], .new ['1'] false]))
      ⟨true, true⟩ ⟨false, true, 0, [], true, true⟩ := by
  refine (checkpoint_survives_iff stringOrb _ _ _ ⟨by decide, ?_⟩ rfl rfl).2
    (Or.inr (Or.inr ⟨?_, Or.inr ?_⟩))
  · simp [oneChannel, connectedPushSupplier, ProxyPushSupplier.new]
  · simp [oneChannel, EventChannel.PullsActive]
  · simp [oneChannel, EventChannel.NoneHidden, connectedPushSupplier, ProxyPushSupplier.new]

end OmniEvents
