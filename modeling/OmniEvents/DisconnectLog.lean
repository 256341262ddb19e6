import OmniEvents.Lib.Transition
import OmniEvents.RestartRounds

set_option autoImplicit false

/-! # Disconnects and checkpoints

`disconnect_push_supplier`, `disconnect_pull_consumer` and `disconnect_pull_supplier` take the same
steps: the `-` record is written under the `WriteLock`, the object is deactivated, the target is
cleared, and later the servant is etherealized. A checkpoint holds the lock while it writes the
servants one after the other, and then replaces the log. The steps of any number of servants and of
the checkpoints interleave in any order; a set of servants is visited in any order. -/

namespace OmniEvents

open Transition
open LogRecord (Clean CleanName replay attrMap ecf)

variable {Ref : Type}

/-! ## Servants -/

/-- A servant of one of the three managers. -/
inductive Servant (Ref : Type) where
  | pushSupplier (p : ProxyPushSupplier Ref)
  | pullConsumer (p : ProxyPullConsumer Ref)
  | pullSupplier (p : ProxyPullSupplier Ref)

namespace Servant

/-- The part that all servants have in common. -/
def toProxy : Servant Ref → Proxy
  | pushSupplier p => p.toProxy
  | pullConsumer p => p.toProxy
  | pullSupplier p => p.toProxy

/-- What a checkpoint and a restart can see of the servant. -/
def view (orb : Orb Ref) : Servant Ref → ProxyView Ref
  | pushSupplier p => p.view
  | pullConsumer p => p.view orb
  | pullSupplier p => p.view orb

/-- `output` of the servant, which raises if its object is deactivated. -/
def output (orb : Orb Ref) (channelName : Str) : Servant Ref → Written
  | pushSupplier p => p.output channelName
  | pullConsumer p => p.output orb channelName
  | pullSupplier p => p.output orb channelName

/-- The call that connects the servant. -/
def connect (orb : Orb Ref) (target : Option Ref) (now : ℕ) : Servant Ref → Except Exn (Servant Ref)
  | pushSupplier p => (p.connect_push_consumer orb target).map pushSupplier
  | pullConsumer p => (p.connect_pull_supplier target).map pullConsumer
  | pullSupplier p => (p.connect_pull_consumer target now).map pullSupplier

/-- `Proxy::deactivateObject`. -/
def deactivateObject : Servant Ref → Servant Ref
  | pushSupplier p => pushSupplier { p with active := false }
  | pullConsumer p => pullConsumer { p with active := false }
  | pullSupplier p => pullSupplier { p with active := false }

/-- The call sets `_target` to nil. -/
def clearTarget : Servant Ref → Servant Ref
  | pushSupplier p => pushSupplier { p with target := none }
  | pullConsumer p => pullConsumer { p with target := none }
  | pullSupplier p => pullSupplier { p with target := none }

end Servant

/-- How far the disconnect of a servant has come. -/
inductive DisconnectPhase where
  | none
  | erased
  | deactivated
  | completed
  deriving DecidableEq, Repr

/-- A servant with the name of its channel, and how far its disconnect has come. -/
structure ServantState (Ref : Type) where
  channelName : Str
  servant : Servant Ref
  phase : DisconnectPhase

namespace ServantState

variable (e : ServantState Ref)

/-- The kind of the servant, which is that of its manager. -/
def kind (orb : Orb Ref) : ProxyKind := (e.servant.view orb).kind

/-- The path of its node in the log. -/
def path (orb : Orb Ref) : List Str :=
  keyPath e.channelName (e.servant.view orb).kind (e.servant.view orb).oid

/-- The attributes that `output` of the servant writes. -/
def attrs (orb : Orb Ref) : List (Str × Str) := (e.servant.view orb).attrs

/-- The names and the IOR of the servant can stand in a log. -/
structure Loggable (orb : Orb Ref) : Prop where
  channelName : CleanName e.channelName
  oid : CleanName (e.servant.view orb).oid
  ior : ∀ c ∈ (e.servant.view orb).ior, isSpace c = false

/-- And once its object is deactivated it has no object id. -/
structure WellFormed (orb : Orb Ref) : Prop extends e.Loggable orb where
  inactive : e.phase = .deactivated ∨ e.phase = .completed → e.servant.toProxy.active = false

end ServantState

/-! ## Steps

The `WriteLock` is what separates the records from the checkpoints; nothing separates them from the
deactivation. -/

/-- The worker of the log. It holds the lock while it writes a checkpoint, and for ever if an
    exception has ended it. Servants that are incarnated after the checkpoint has begun may be
    missed. -/
inductive LogWorker where
  | idle
  | dumping (present : List ℕ) (out : List LogRecord) (visited : List ℕ) (skipped : List Str)
  | dead
  deriving DecidableEq, Repr

/-- What the servants of all channels and the log share. -/
structure DisconnectLog (Ref : Type) where
  /-- The servants in the `_servants` of all managers, numbered. -/
  servants : List (ℕ × ServantState Ref)
  worker : LogWorker
  log : List LogRecord

/-- A record that is not at or below the node of a servant. -/
def IsOther (r : LogRecord) : Prop :=
  r.Clean ∧ ∀ channelName kind oid, kind ≠ .ProxyPushConsumer →
    ¬ keyPath channelName kind oid <+: r.path

/-- A step of a call to a servant, of the worker of the log, or of somebody else who writes to the
    log. -/
inductive DisconnectStep (Ref : Type) (orb : Orb Ref) where
  | incarnate (i : ℕ) (e : { e : ServantState Ref // e.phase = .none ∧ e.Loggable orb })
  /-- `connect_push_consumer`, `connect_pull_supplier` or `connect_pull_consumer` sets the target. -/
  | connect (i : ℕ) (target : Option Ref) (now : ℕ)
  /-- The same call writes the record. -/
  | output (i : ℕ)
  | eraseKey (i : ℕ)
  | deactivateObject (i : ℕ)
  | clearTarget (i : ℕ)
  | etherealize (i : ℕ)
  /-- Something else is appended to the log. -/
  | other (r : { r // IsOther r })
  | beginCheckpoint
  /-- The checkpoint writes something else. -/
  | dumpOther (r : { r // IsOther r })
  | dump (i : ℕ)
  | abandon
  | commit

namespace DisconnectLog

/-- Servant `i` has become `e`. -/
def setServant (s : DisconnectLog Ref) (i : ℕ) (e : ServantState Ref) : DisconnectLog Ref :=
  { s with servants := OrdMap.insert i e s.servants }

/-- A record is written at the end of the active log. -/
def append (s : DisconnectLog Ref) (r : LogRecord) : DisconnectLog Ref :=
  { s with log := s.log ++ [r] }

/-- The steps. What appends to the log takes the lock. An inactive push supplier ends the output of
    its manager, any other inactive servant ends the worker. -/
def step {orb : Orb Ref} (s : DisconnectLog Ref) : DisconnectStep Ref orb →
    Option (DisconnectLog Ref)
  | .incarnate i e => if (s.servants.lookup i).isSome then none else some (s.setServant i e.1)
  | .connect i target now =>
      (s.servants.lookup i).bind fun e =>
        if e.phase = .none ∧ e.servant.toProxy.active then
          match e.servant.connect orb target now with
          | .error _ => some s
          | .ok servant => some (s.setServant i { e with servant := servant })
        else none
  | .output i =>
      (s.servants.lookup i).bind fun e =>
        if s.worker = .idle ∧ e.phase = .none ∧ e.servant.toProxy.active then
          some (s.append ((e.servant.view orb).record e.channelName))
        else none
  | .eraseKey i =>
      (s.servants.lookup i).bind fun e =>
        if s.worker = .idle ∧ e.phase = .none ∧ e.servant.toProxy.active then
          some ((s.setServant i { e with phase := .erased }).append (.erase (e.path orb)))
        else none
  | .deactivateObject i =>
      (s.servants.lookup i).bind fun e =>
        if e.phase = .erased then
          some (s.setServant i
            { e with servant := e.servant.deactivateObject, phase := .deactivated })
        else none
  | .clearTarget i =>
      (s.servants.lookup i).bind fun e =>
        if e.phase = .deactivated then
          some (s.setServant i { e with servant := e.servant.clearTarget, phase := .completed })
        else none
  | .etherealize i =>
      (s.servants.lookup i).bind fun e =>
        if e.phase = .completed then some { s with servants := OrdMap.erase i s.servants }
        else none
  | .other r => if s.worker = .idle then some (s.append r.1) else none
  | .beginCheckpoint =>
      if s.worker = .idle then
        some { s with worker := .dumping (s.servants.map (·.1)) [] [] [] }
      else none
  | .dumpOther r =>
      match s.worker with
      | .dumping present out visited skipped =>
          some { s with worker := .dumping present (out ++ [r.1]) visited skipped }
      | _ => none
  | .dump i =>
      match s.worker with
      | .dumping present out visited skipped =>
          (s.servants.lookup i).bind fun e =>
            if i ∈ visited ∨ e.kind orb = .ProxyPushSupplier ∧ e.channelName ∈ skipped then none
            else
              match e.servant.output orb e.channelName with
              | ⟨records, none⟩ =>
                  some { s with worker := .dumping present (out ++ records) (i :: visited) skipped }
              | ⟨_, some _⟩ =>
                  if e.kind orb = .ProxyPushSupplier then
                    some { s with
                      worker := .dumping present out visited (e.channelName :: skipped) }
                  else some { s with worker := .dead }
      | _ => none
  | .abandon =>
      match s.worker with
      | .dumping _ _ _ _ => some { s with worker := .idle }
      | _ => none
  | .commit =>
      match s.worker with
      | .dumping present out visited skipped =>
          if ∀ e ∈ s.servants, e.1 ∈ present → e.1 ∈ visited ∨
              e.2.kind orb = .ProxyPushSupplier ∧ e.2.channelName ∈ skipped then
            some { s with worker := .idle, log := out }
          else none
      | _ => none

/-- Every connection in a tree is that of a servant whose disconnect has not begun. -/
def Holds (orb : Orb Ref) (s : DisconnectLog Ref) (root : PersistNode) : Prop :=
  ∀ channelName kind oid, kind ≠ .ProxyPushConsumer →
    (connectionsOf root channelName kind oid).isSome →
    ∃ i e, s.servants.lookup i = some e ∧ e.phase = .none ∧
      e.path orb = keyPath channelName kind oid

/-- The worker does not write a connected servant that has written its `-` record and is not
    deactivated yet. -/
def DumpsNoErased {orb : Orb Ref} (s : DisconnectLog Ref) : DisconnectStep Ref orb → Prop
  | .dump i => ∀ e, s.servants.lookup i = some e → e.phase = .erased →
      (e.servant.view orb).ior = []
  | _ => True

/-! ## What the servants write -/

section Servants

variable {orb : Orb Ref} {e : ServantState Ref}

theorem output_of_active {p : Servant Ref} (h : p.toProxy.active = true) (channelName : Str) :
    p.output orb channelName = ⟨[(p.view orb).record channelName], none⟩ := by
  cases p with
  | pushSupplier p => exact p.output_of_active h channelName
  | pullConsumer p => exact p.output_of_active h orb channelName
  | pullSupplier p => exact p.output_of_active h orb channelName

theorem output_of_inactive {p : Servant Ref} (h : p.toProxy.active = false) (channelName : Str) :
    p.output orb channelName = ⟨[], some .ServantNotActive⟩ := by
  cases p with
  | pushSupplier p => exact Proxy.basicOutput_of_inactive _ _ h _ _
  | pullConsumer p => exact Proxy.basicOutputRef_of_inactive orb _ _ h _
  | pullSupplier p => exact Proxy.basicOutputRef_of_inactive orb _ _ h _

theorem recorded (p : Servant Ref) : (p.view orb).Recorded := by
  cases p with
  | pushSupplier p => exact .push _ rfl (Or.inr rfl)
  | pullConsumer p => exact recorded_of_ref orb p.target rfl (Or.inl rfl) rfl
  | pullSupplier p => exact recorded_of_ref orb p.target rfl (Or.inr rfl) rfl

theorem clean_path (h : e.Loggable orb) : (LogRecord.erase (e.path orb)).Clean := by
  refine ⟨rfl, ?_⟩
  simp only [ServantState.path, keyPath, List.forall_mem_cons, List.not_mem_nil, false_implies,
    implies_true, and_true]
  exact ⟨cleanName_ecf, h.channelName, ProxyKind.cleanName_admin _, ProxyKind.cleanName_name _,
    h.oid⟩

theorem clean_servant (h : e.Loggable orb) :
    ((e.servant.view orb).record e.channelName).Clean :=
  clean_record h.channelName h.oid (recorded e.servant) h.ior

theorem ior_refAttrs (target : Option Ref) : ((refAttrs orb target).lookup keyIOR).getD [] = [] ∨
    ∃ r, ((refAttrs orb target).lookup keyIOR).getD [] = orb.object_to_string r := by
  cases target with
  | none => exact Or.inl rfl
  | some r => exact Or.inr ⟨r, by simp [refAttrs]⟩

/-- A connection keeps the key of the servant, and its record has a reference or none. -/
theorem connect_view {p p' : Servant Ref} {target : Option Ref} {now : ℕ}
    (h : p.connect orb target now = .ok p') :
    (p'.view orb).kind = (p.view orb).kind ∧ (p'.view orb).oid = (p.view orb).oid ∧
      ((p'.view orb).ior = [] ∨ ∃ r, (p'.view orb).ior = orb.object_to_string r) := by
  cases p with
  | pushSupplier p =>
      cases target with
      | none => cases h
      | some r =>
          simp only [Servant.connect, ProxyPushSupplier.connect_push_consumer] at h
          split at h
          · cases h
          · cases h
            exact ⟨rfl, rfl, Or.inr ⟨r, by simp [Servant.view, ProxyPushSupplier.view, ProxyView.ior]⟩⟩
  | pullConsumer p =>
      cases target with
      | none => cases h
      | some r =>
          simp only [Servant.connect, ProxyPullConsumer.connect_pull_supplier] at h
          split at h
          · cases h
          · cases h
            exact ⟨rfl, rfl, ior_refAttrs (some r)⟩
  | pullSupplier p =>
      simp only [Servant.connect, ProxyPullSupplier.connect_pull_consumer] at h
      split at h
      · cases h
      · cases h
        exact ⟨rfl, rfl, ior_refAttrs target⟩

theorem connect_ior {p p' : Servant Ref} {target : Option Ref} {now : ℕ}
    (horb : ∀ r, ∀ c ∈ orb.object_to_string r, isSpace c = false)
    (h : p.connect orb target now = .ok p') : ∀ c ∈ (p'.view orb).ior, isSpace c = false := by
  obtain ⟨-, -, hnil | ⟨r, hr⟩⟩ := connect_view h
  · rw [hnil]
    nofun
  · rw [hr]
    exact horb r

theorem active_deactivateObject (p : Servant Ref) : p.deactivateObject.toProxy.active = false := by
  cases p <;> rfl

theorem active_clearTarget (p : Servant Ref) : p.clearTarget.toProxy.active = p.toProxy.active := by
  cases p <;> rfl

theorem Loggable.deactivateObject (h : e.Loggable orb) (phase : DisconnectPhase) :
    ServantState.Loggable { e with servant := e.servant.deactivateObject, phase := phase } orb := by
  rcases e with ⟨channelName, servant, _⟩
  cases servant <;> exact ⟨h.channelName, h.oid, h.ior⟩

theorem Loggable.clearTarget (h : e.Loggable orb) (phase : DisconnectPhase) :
    ServantState.Loggable { e with servant := e.servant.clearTarget, phase := phase } orb := by
  rcases e with ⟨channelName, servant, _⟩
  cases servant with
  | pushSupplier p => exact ⟨h.channelName, h.oid, h.ior⟩
  | pullConsumer p =>
      exact ⟨h.channelName, h.oid, by
        simp [Servant.clearTarget, Servant.view, ProxyPullConsumer.view, ProxyView.ior, refAttrs]⟩
  | pullSupplier p =>
      exact ⟨h.channelName, h.oid, by
        simp [Servant.clearTarget, Servant.view, ProxyPullSupplier.view, ProxyView.ior, refAttrs]⟩

end Servants

/-! ## What a record does to the connections of a tree

A record brings no connection but its own, and the `-` record of a servant leaves those at other
keys. -/

section Records

variable {orb : Orb Ref} {root : PersistNode} {channelName oid : Str} {kind : ProxyKind}

theorem isSome_connectionsOf :
    (connectionsOf root channelName kind oid).isSome ↔
      ∃ attrs, root.attrsAt (keyPath channelName kind oid) = some attrs ∧
        (attrs.lookup keyIOR).getD [] ≠ [] := by
  simp only [Option.isSome_iff_exists, connectionsOf_eq_some]

/-- A record that is not at or below the node of a servant brings no connection. -/
theorem connectionsOf_other {r : LogRecord} (hr : IsOther r) (hkind : kind ≠ .ProxyPushConsumer)
    (h : (connectionsOf (LogRecord.apply root r) channelName kind oid).isSome) :
    (connectionsOf root channelName kind oid).isSome := by
  obtain ⟨attrs, hattrs, hior⟩ := isSome_connectionsOf.1 h
  rw [LogRecord.attrsAt_apply hr.1] at hattrs
  exact isSome_connectionsOf.2
    ⟨attrs, LogRecord.of_update_eq_some (hr.2 channelName kind oid hkind) hattrs, hior⟩

/-- A record of a servant brings its own connection. -/
theorem connectionsOf_record {e : ServantState Ref} (he : e.Loggable orb)
    (h : (connectionsOf (LogRecord.apply root ((e.servant.view orb).record e.channelName))
      channelName kind oid).isSome) :
    e.path orb = keyPath channelName kind oid ∧ (e.servant.view orb).ior ≠ [] ∨
      (connectionsOf root channelName kind oid).isSome := by
  obtain ⟨attrs, hattrs, hior⟩ := isSome_connectionsOf.1 h
  rw [LogRecord.attrsAt_apply (clean_servant he)] at hattrs
  by_cases hpath : e.path orb = keyPath channelName kind oid
  · refine Or.inl ⟨hpath, ?_⟩
    rw [ProxyView.record, LogRecord.update] at hattrs
    rw [ServantState.path] at hpath
    rw [hpath, PathMap.set_self, Option.some_inj,
      LogRecord.attrMap_of_sorted (recorded e.servant).sorted] at hattrs
    rwa [ProxyView.ior, hattrs]
  · have hnot : ¬ keyPath channelName kind oid <+:
        ((e.servant.view orb).record e.channelName).path :=
      fun hinitial => hpath (hinitial.eq_of_length rfl).symm
    exact Or.inr (isSome_connectionsOf.2
      ⟨attrs, LogRecord.of_update_eq_some hnot hattrs, hior⟩)

/-- A `-` record leaves the connections at other keys. -/
theorem connectionsOf_erase {e : ServantState Ref} (he : e.Loggable orb)
    (h : (connectionsOf (LogRecord.apply root (.erase (e.path orb))) channelName kind oid).isSome) :
    e.path orb ≠ keyPath channelName kind oid ∧
      (connectionsOf root channelName kind oid).isSome := by
  obtain ⟨attrs, hattrs, hior⟩ := isSome_connectionsOf.1 h
  rw [LogRecord.attrsAt_apply (clean_path he), LogRecord.update] at hattrs
  by_cases hpath : e.path orb = keyPath channelName kind oid
  · rw [hpath, PathMap.remove_below (List.prefix_refl _)] at hattrs
    cases hattrs
  · have hapart : ¬ e.path orb <+: keyPath channelName kind oid :=
      fun hinitial => hpath (hinitial.eq_of_length rfl)
    rw [PathMap.remove_apart hapart] at hattrs
    exact ⟨hpath, isSome_connectionsOf.2 ⟨attrs, hattrs, hior⟩⟩

end Records

/-! ## The invariant -/

section Steps

variable {orb : Orb Ref} {s t : DisconnectLog Ref} {lines : List LogRecord} {i : ℕ}
  {e e' : ServantState Ref}

/-- A log is clean, and its connections are those of servants. -/
structure Accounted (orb : Orb Ref) (s : DisconnectLog Ref) (lines : List LogRecord) : Prop where
  clean : ∀ r ∈ lines, r.Clean
  holds : Holds orb s (replay lines)

/-- The active log, and the one that is being written. -/
def logs (s : DisconnectLog Ref) : List (List LogRecord) :=
  match s.worker with
  | .dumping _ out _ _ => [s.log, out]
  | _ => [s.log]

/-- Every servant can stand in a log, and every record in one of the logs is accounted for by the
    servants. -/
structure Inv (orb : Orb Ref) (s : DisconnectLog Ref) : Prop where
  wellFormed : ∀ i e, s.servants.lookup i = some e → e.WellFormed orb
  accounted : ∀ lines ∈ s.logs, Accounted orb s lines

theorem mem_logs : s.log ∈ s.logs := by
  rw [logs]
  split <;> simp

theorem logs_append {r : LogRecord} (h : s.worker = .idle) :
    (s.append r).logs = [s.log ++ [r]] := by
  simp only [logs, append, h]

/-- The servants whose disconnect has not begun keep their keys from `s` to `t`. -/
def KeepsKeys (orb : Orb Ref) (s t : DisconnectLog Ref) : Prop :=
  ∀ i e, s.servants.lookup i = some e → e.phase = .none →
    ∃ i' e', t.servants.lookup i' = some e' ∧ e'.phase = .none ∧ e'.path orb = e.path orb

theorem Accounted.of_keepsKeys (h : Accounted orb s lines) (hkeeps : KeepsKeys orb s t) :
    Accounted orb t lines := by
  refine ⟨h.clean, ?_⟩
  intro channelName kind oid hkind hsome
  obtain ⟨i, e, hlookup, hphase, hpath⟩ := h.holds channelName kind oid hkind hsome
  obtain ⟨i', e', hlookup', hphase', hpath'⟩ := hkeeps i e hlookup hphase
  exact ⟨i', e', hlookup', hphase', hpath'.trans hpath⟩

theorem KeepsKeys.of_servants_eq (h : t.servants = s.servants) : KeepsKeys orb s t :=
  fun i e hlookup hphase => ⟨i, e, h ▸ hlookup, hphase, rfl⟩

/-! ## What may be appended to a log -/

theorem Accounted.nil : Accounted orb s [] := by
  refine ⟨by simp, ?_⟩
  intro channelName kind oid hkind hsome
  cases hsome

theorem Accounted.append {r : LogRecord} (h : Accounted orb s lines) (hr : r.Clean)
    (hholds : Holds orb s (LogRecord.apply (replay lines) r)) : Accounted orb s (lines ++ [r]) := by
  refine ⟨?_, by rwa [LogRecord.replay_append]⟩
  simpa [or_imp, forall_and] using ⟨h.clean, hr⟩

theorem Accounted.other {r : LogRecord} (h : Accounted orb s lines) (hr : IsOther r) :
    Accounted orb s (lines ++ [r]) :=
  h.append hr.1 fun channelName kind oid hkind hsome =>
    h.holds channelName kind oid hkind (connectionsOf_other hr hkind hsome)

/-- The record of a servant may stand in a log unless the servant is connected and its disconnect has
    begun. -/
theorem Accounted.record (h : Accounted orb s lines) (he : e.Loggable orb)
    (hlookup : s.servants.lookup i = some e)
    (hphase : e.phase = .none ∨ (e.servant.view orb).ior = []) :
    Accounted orb s (lines ++ [(e.servant.view orb).record e.channelName]) := by
  refine h.append (clean_servant he) ?_
  intro channelName kind oid hkind hsome
  rcases connectionsOf_record he hsome with ⟨hpath, hior⟩ | hsome
  · exact ⟨i, e, hlookup, hphase.resolve_right hior, hpath⟩
  · exact h.holds channelName kind oid hkind hsome

/-! ## What a step preserves

One lemma for each step. The only one with a condition is that of the worker writing a servant whose
`-` record is already in the log. -/

@[simp] theorem lookup_setServant (j : ℕ) :
    (s.setServant i e).servants.lookup j = if j = i then some e else s.servants.lookup j := by
  rw [setServant, OrdMap.lookup_insert]

theorem wellFormed_setServant (h : s.Inv orb) (he : e.WellFormed orb) :
    ∀ j f, (s.setServant i e).servants.lookup j = some f → f.WellFormed orb := by
  intro j f hf
  rw [lookup_setServant] at hf
  split at hf
  · cases hf
    exact he
  · exact h.wellFormed j f hf

/-- A servant is replaced by one with the same key. -/
theorem KeepsKeys.setServant (hlookup : s.servants.lookup i = some e)
    (hkeys : e.phase = .none → e'.phase = .none ∧ e'.path orb = e.path orb) :
    KeepsKeys orb s (s.setServant i e') := by
  intro j f hf hphase
  by_cases hji : j = i
  · subst hji
    obtain rfl : e = f := Option.some_inj.1 (hlookup.symm.trans hf)
    exact ⟨j, e', by simp, hkeys hphase⟩
  · exact ⟨j, f, by simpa [hji] using hf, hphase, rfl⟩

theorem Inv.setServant (h : s.Inv orb) (hlookup : s.servants.lookup i = some e)
    (he' : e'.WellFormed orb)
    (hkeys : e.phase = .none → e'.phase = .none ∧ e'.path orb = e.path orb) :
    (s.setServant i e').Inv orb :=
  ⟨wellFormed_setServant h he',
    fun lines hlines => (h.accounted lines hlines).of_keepsKeys (.setServant hlookup hkeys)⟩

theorem Inv.incarnate (h : s.Inv orb) (hfresh : s.servants.lookup i = none)
    (he : e.WellFormed orb) : (s.setServant i e).Inv orb := by
  refine ⟨wellFormed_setServant h he, ?_⟩
  intro lines hlines
  refine (h.accounted lines hlines).of_keepsKeys ?_
  intro j f hf hphase
  have hji : j ≠ i := by
    rintro rfl
    rw [hfresh] at hf
    cases hf
  exact ⟨j, f, by simpa [hji] using hf, hphase, rfl⟩

theorem Inv.etherealize (h : s.Inv orb) (hlookup : s.servants.lookup i = some e)
    (hphase : e.phase ≠ .none) :
    Inv orb { s with servants := OrdMap.erase i s.servants } := by
  refine ⟨?_, ?_⟩
  · intro j f hf
    simp only [OrdMap.lookup_erase] at hf
    split at hf
    · cases hf
    · exact h.wellFormed j f hf
  · intro lines hlines
    refine (h.accounted lines hlines).of_keepsKeys ?_
    intro j f hf hfphase
    have hji : j ≠ i := by
      rintro rfl
      obtain rfl : e = f := Option.some_inj.1 (hlookup.symm.trans hf)
      exact hphase hfphase
    exact ⟨j, f, by simpa [hji] using hf, hfphase, rfl⟩

theorem Inv.append {r : LogRecord} (h : s.Inv orb) (hidle : s.worker = .idle)
    (hr : Accounted orb s (s.log ++ [r])) : (s.append r).Inv orb := by
  refine ⟨h.wellFormed, ?_⟩
  intro lines hlines
  rw [logs_append hidle, List.mem_singleton] at hlines
  subst hlines
  exact hr.of_keepsKeys (.of_servants_eq rfl)

/-- The `-` record takes the place of the servant among those the log may name. -/
theorem Inv.eraseKey (h : s.Inv orb) (hidle : s.worker = .idle)
    (hlookup : s.servants.lookup i = some e) :
    ((s.setServant i { e with phase := .erased }).append (.erase (e.path orb))).Inv orb := by
  have he := h.wellFormed i e hlookup
  refine ⟨wellFormed_setServant h ⟨⟨he.channelName, he.oid, he.ior⟩, by simp⟩, ?_⟩
  intro lines hlines
  rw [logs_append (by exact hidle), List.mem_singleton] at hlines
  subst hlines
  have hlog := h.accounted s.log mem_logs
  refine ⟨?_, ?_⟩
  · simpa [or_imp, forall_and] using ⟨hlog.clean, clean_path he.toLoggable⟩
  · intro channelName kind oid hkind hsome
    rw [LogRecord.replay_append] at hsome
    obtain ⟨hne, hsome⟩ := connectionsOf_erase he.toLoggable hsome
    obtain ⟨j, f, hf, hphase, hpath⟩ := hlog.holds channelName kind oid hkind hsome
    have hji : j ≠ i := by
      rintro rfl
      obtain rfl : e = f := Option.some_inj.1 (hlookup.symm.trans hf)
      exact hne hpath
    exact ⟨j, f, by simpa [DisconnectLog.append, hji] using hf, hphase, hpath⟩

/-- The worker goes on. -/
theorem Inv.worker {worker : LogWorker} (h : s.Inv orb)
    (hworker : ∀ lines ∈ logs { s with worker := worker }, Accounted orb s lines) :
    Inv orb { s with worker := worker } :=
  ⟨h.wellFormed, fun lines hlines => (hworker lines hlines).of_keepsKeys (.of_servants_eq rfl)⟩

theorem Inv.dumping {present visited present' visited' : List ℕ} {out out' : List LogRecord}
    {skipped skipped' : List Str} (h : s.Inv orb)
    (hworker : s.worker = .dumping present out visited skipped)
    (hout : Accounted orb s out → Accounted orb s out') :
    Inv orb { s with worker := .dumping present' out' visited' skipped' } := by
  refine h.worker ?_
  simp only [logs, List.forall_mem_cons, List.not_mem_nil, false_implies, implies_true, and_true]
  exact ⟨h.accounted s.log mem_logs, hout (h.accounted out (by simp [logs, hworker]))⟩

theorem inv_incarnate {e : { e : ServantState Ref // e.phase = .none ∧ e.Loggable orb }}
    (h : s.Inv orb) (hst : step s (.incarnate i e) = some t) : t.Inv orb := by
  simp only [step] at hst
  split at hst
  · cases hst
  · next hfresh =>
      cases hst
      exact h.incarnate (Option.not_isSome_iff_eq_none.1 hfresh) ⟨e.2.2, by simp [e.2.1]⟩

theorem inv_connect {target : Option Ref} {now : ℕ} (h : s.Inv orb)
    (horb : ∀ r, ∀ c ∈ orb.object_to_string r, isSpace c = false)
    (hst : step s (.connect i target now : DisconnectStep Ref orb) = some t) : t.Inv orb := by
  obtain ⟨e, hlookup, hst⟩ := Option.bind_eq_some_iff.1 hst
  obtain ⟨⟨hphase, -⟩, hst⟩ := Option.ite_none_right_eq_some.1 hst
  split at hst
  · cases hst
    exact h
  · next p hconnect =>
      cases hst
      obtain ⟨hkind, hoid, -⟩ := connect_view hconnect
      have he := h.wellFormed i e hlookup
      refine h.setServant hlookup
        ⟨⟨he.channelName, ?_, connect_ior horb hconnect⟩, by simp [hphase]⟩
        fun _ => ⟨hphase, by simp only [ServantState.path, hkind, hoid]⟩
      simpa only [hoid] using he.oid

theorem inv_output (h : s.Inv orb)
    (hst : step s (.output i : DisconnectStep Ref orb) = some t) : t.Inv orb := by
  obtain ⟨e, hlookup, hst⟩ := Option.bind_eq_some_iff.1 hst
  obtain ⟨⟨hidle, hphase, -⟩, hst⟩ := Option.ite_none_right_eq_some.1 hst
  cases hst
  exact h.append hidle ((h.accounted s.log mem_logs).record
    (h.wellFormed i e hlookup).toLoggable hlookup (Or.inl hphase))

theorem inv_eraseKey (h : s.Inv orb)
    (hst : step s (.eraseKey i : DisconnectStep Ref orb) = some t) : t.Inv orb := by
  obtain ⟨e, hlookup, hst⟩ := Option.bind_eq_some_iff.1 hst
  obtain ⟨⟨hidle, -⟩, hst⟩ := Option.ite_none_right_eq_some.1 hst
  cases hst
  exact h.eraseKey hidle hlookup

theorem inv_deactivateObject (h : s.Inv orb)
    (hst : step s (.deactivateObject i : DisconnectStep Ref orb) = some t) : t.Inv orb := by
  obtain ⟨e, hlookup, hst⟩ := Option.bind_eq_some_iff.1 hst
  obtain ⟨hphase, hst⟩ := Option.ite_none_right_eq_some.1 hst
  cases hst
  have he := h.wellFormed i e hlookup
  exact h.setServant hlookup ⟨Loggable.deactivateObject he.toLoggable _,
    fun _ => active_deactivateObject e.servant⟩ (by simp [hphase])

theorem inv_clearTarget (h : s.Inv orb)
    (hst : step s (.clearTarget i : DisconnectStep Ref orb) = some t) : t.Inv orb := by
  obtain ⟨e, hlookup, hst⟩ := Option.bind_eq_some_iff.1 hst
  obtain ⟨hphase, hst⟩ := Option.ite_none_right_eq_some.1 hst
  cases hst
  have he := h.wellFormed i e hlookup
  refine h.setServant hlookup ⟨Loggable.clearTarget he.toLoggable _, ?_⟩ (by simp [hphase])
  intro _
  rw [active_clearTarget]
  exact he.inactive (Or.inl hphase)

theorem inv_etherealize (h : s.Inv orb)
    (hst : step s (.etherealize i : DisconnectStep Ref orb) = some t) : t.Inv orb := by
  obtain ⟨e, hlookup, hst⟩ := Option.bind_eq_some_iff.1 hst
  obtain ⟨hphase, hst⟩ := Option.ite_none_right_eq_some.1 hst
  cases hst
  exact h.etherealize hlookup (by simp [hphase])

/-- A checkpoint begins with an empty file. -/
theorem inv_beginCheckpoint (h : s.Inv orb)
    (hst : step s (.beginCheckpoint : DisconnectStep Ref orb) = some t) : t.Inv orb := by
  simp only [step] at hst
  split at hst
  · cases hst
    exact h.worker (by simpa [logs] using ⟨h.accounted s.log mem_logs, Accounted.nil⟩)
  · cases hst

theorem inv_dumpOther {r : { r // IsOther r }} (h : s.Inv orb)
    (hst : step s (.dumpOther r : DisconnectStep Ref orb) = some t) : t.Inv orb := by
  simp only [step] at hst
  split at hst
  · next hworker =>
      cases hst
      exact h.dumping hworker fun hout => hout.other r.2
  · cases hst

theorem inv_dump (h : s.Inv orb)
    (hdumps : ∀ e, s.servants.lookup i = some e → e.phase = .erased →
      (e.servant.view orb).ior = [])
    (hst : step s (.dump i : DisconnectStep Ref orb) = some t) : t.Inv orb := by
  simp only [step] at hst
  split at hst
  · next present out visited skipped hworker =>
      obtain ⟨e, hlookup, hst⟩ := Option.bind_eq_some_iff.1 hst
      have he := h.wellFormed i e hlookup
      split at hst
      · cases hst
      · cases hactive : e.servant.toProxy.active with
        | true =>
            -- the servant has not been deactivated: its record is written
            rw [output_of_active hactive] at hst
            cases hst
            refine h.dumping hworker fun hout => hout.record he.toLoggable hlookup ?_
            cases hphase : e.phase with
            | none => exact Or.inl rfl
            | erased => exact Or.inr (hdumps e hlookup hphase)
            | deactivated =>
                rw [he.inactive (Or.inl hphase)] at hactive
                cases hactive
            | completed =>
                rw [he.inactive (Or.inr hphase)] at hactive
                cases hactive
        | false =>
            rw [output_of_inactive hactive] at hst
            split at hst
            · next heq => cases heq
            · split at hst
              · cases hst
                exact h.dumping hworker id
              · cases hst
                exact h.worker (by simpa [logs] using h.accounted s.log mem_logs)
  · cases hst

theorem inv_abandon (h : s.Inv orb)
    (hst : step s (.abandon : DisconnectStep Ref orb) = some t) : t.Inv orb := by
  simp only [step] at hst
  split at hst
  · cases hst
    exact h.worker (by simpa [logs] using h.accounted s.log mem_logs)
  · cases hst

/-- What has been written becomes the log. -/
theorem inv_commit (h : s.Inv orb)
    (hst : step s (.commit : DisconnectStep Ref orb) = some t) : t.Inv orb := by
  simp only [step] at hst
  split at hst
  · next present out visited skipped hworker =>
      obtain ⟨-, hst⟩ := Option.ite_none_right_eq_some.1 hst
      cases hst
      have hout := h.accounted out (by simp [logs, hworker])
      exact ⟨h.wellFormed, List.forall_mem_singleton.2 (hout.of_keepsKeys (.of_servants_eq rfl))⟩
  · cases hst

/-- Every step preserves the invariant, if the worker does not write an erased servant. -/
theorem Inv.step {a : DisconnectStep Ref orb} (h : s.Inv orb)
    (horb : ∀ r, ∀ c ∈ orb.object_to_string r, isSpace c = false) (hdumps : s.DumpsNoErased a)
    (hst : DisconnectLog.step s a = some t) : t.Inv orb := by
  cases a with
  | incarnate i e => exact inv_incarnate h hst
  | connect i target now => exact inv_connect h horb hst
  | output i => exact inv_output h hst
  | eraseKey i => exact inv_eraseKey h hst
  | deactivateObject i => exact inv_deactivateObject h hst
  | clearTarget i => exact inv_clearTarget h hst
  | etherealize i => exact inv_etherealize h hst
  | other r =>
      obtain ⟨hidle, hst⟩ := Option.ite_none_right_eq_some.1 hst
      cases hst
      exact h.append hidle ((h.accounted s.log mem_logs).other r.2)
  | beginCheckpoint => exact inv_beginCheckpoint h hst
  | dumpOther r => exact inv_dumpOther h hst
  | dump i => exact inv_dump h hdumps hst
  | abandon => exact inv_abandon h hst
  | commit => exact inv_commit h hst

/-- A server whose disconnects have not begun, with a log that names no other connections. -/
structure Started (orb : Orb Ref) (s : DisconnectLog Ref) : Prop where
  idle : s.worker = .idle
  servants : ∀ i e, s.servants.lookup i = some e → e.phase = .none ∧ e.Loggable orb
  accounted : Accounted orb s s.log

theorem Started.inv (h : s.Started orb) : s.Inv orb := by
  refine ⟨?_, ?_⟩
  · intro i e hlookup
    obtain ⟨hphase, hloggable⟩ := h.servants i e hlookup
    exact ⟨hloggable, by simp [hphase]⟩
  · rw [logs, h.idle]
    exact List.forall_mem_singleton.2 h.accounted

end Steps

/-! ## A checkpoint between the record and the deactivation -/

end DisconnectLog

end OmniEvents
