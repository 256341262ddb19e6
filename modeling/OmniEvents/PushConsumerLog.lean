import OmniEvents.Lib.Transition
import OmniEvents.RestartChannel

set_option autoImplicit false

/-! # The log of a push consumer

The connections of one `ProxyPushConsumer_i` over any order of connects, disconnects, replies to the
deferred `_is_a` requests, checkpoints, and the destruction of the channel. A request holds a
reference to its `Connection`, so the object outlives its entry in `_connections`: objects are
numbered in the order in which they are made, `_connections` and the requests hold their numbers.

The other proxies of the channel and the other channels write to the same log. They write below
their own nodes only, which the types of their records say. -/

namespace OmniEvents

open Transition
open LogRecord (Clean CleanName CleanPath CleanAttr replay attrMap ecf)

variable {Ref : Type}

/-! ## Replies -/

/-- What comes back for an `_is_a` request. -/
inductive IsAReply where
  | returned (isProxy : Bool)
  | unexpected
  | exception
  deriving DecidableEq, Repr

/-- `Connection::callback`: the object afterwards and the record written, if any. It is not called
    for an exception. -/
def Connection.callback (c : Connection Ref) : IsAReply → Connection Ref × Option LogRecord
  | .returned isProxy =>
      let c' := { c with targetIsProxy := isProxy }
      (c', if isProxy then some c'.output else none)
  | .unexpected | .exception => (c, none)

/-- The attributes of the record of a connection. -/
def Connection.attrs (c : Connection Ref) : List (Str × Str) :=
  (keyIOR, c.target_sior) :: proxyAttr c.targetIsProxy

/-! ## Records of others -/

/-- The record of the factory, which is no connection. -/
def IsFactory (r : LogRecord) : Prop := r.Clean ∧ r.path = [ecf]

/-- A record at or below another channel. -/
def IsForeign (channelName : Str) (r : LogRecord) : Prop :=
  r.Clean ∧ ∃ other rest, other ≠ channelName ∧ r.path = ecf :: other :: rest

/-- A record of another proxy of the channel. -/
def IsBeside (channelName : Str) (r : LogRecord) : Prop :=
  r.Clean ∧ ∃ kind oid, kind ≠ .ProxyPushConsumer ∧ r.path = keyPath channelName kind oid

/-! ## Steps -/

/-- What the push consumer of a channel, the log and the deferred requests share. -/
structure PushConsumerLog (Ref : Type) where
  /-- `destroy` has been called and the channel's thread has ended. -/
  destroyed : Bool
  /-- `_connections`. -/
  connections : List (Str × ℕ)
  /-- The `Connection` objects, in the order in which they were made. -/
  objects : List (Connection Ref)
  /-- The objects that a deferred `_is_a` request calls back. -/
  pending : List ℕ
  /-- The active log. -/
  log : List LogRecord

/-- The steps; the checkpoint carries what it writes for the factory, the channels before this one,
    the other proxies of this channel, and the channels after it. -/
inductive PushConsumerStep (Ref : Type) (channelName : Str) where
  | connect_push_supplier (oid : Str) (pushSupplier : Option Ref)
  | disconnect_push_consumer (oid : Str)
  | destroy
  | reply (i : ℕ) (r : IsAReply)
  | checkpoint (factory : { r // IsFactory r }) (pre : List { r // IsForeign channelName r })
      (own : List { r // IsBeside channelName r }) (post : List { r // IsForeign channelName r })
  | foreign (r : { r // IsForeign channelName r })
  | beside (r : { r // IsBeside channelName r })

namespace PushConsumerLog

/-- The `Connection` of an object id. -/
def current (s : PushConsumerLog Ref) (oid : Str) : Option (Connection Ref) :=
  (s.connections.lookup oid).bind (fun i => s.objects[i]?)

/-- The objects in `_connections`, in its order. -/
def live (s : PushConsumerLog Ref) : List (Connection Ref) :=
  s.connections.filterMap (fun e => s.objects[e.2]?)

/-- What a checkpoint writes for the channel. -/
def channelRecords (channelName : Str) (properties : List (Str × Str)) (s : PushConsumerLog Ref)
    (own : List LogRecord) : List LogRecord :=
  if s.destroyed then []
  else
    .block [ecf, channelName] properties ::
      (s.live.map (·.output) ++ own)

/-- The steps. A `Connection` stays where it is when it is taken out of `_connections`, and so does
    the request that calls it back. -/
def step (orb : Orb Ref) (channelName : Str) (properties : List (Str × Str))
    (s : PushConsumerLog Ref) : PushConsumerStep Ref channelName → Option (PushConsumerLog Ref)
  | .connect_push_supplier oid pushSupplier =>
      if s.destroyed then none
      else
        match pushSupplier, s.connections.lookup oid with
        | none, _ => some s
        | some _, some _ => some s -- AlreadyConnected
        | some pushSupplier, none =>
            let newConnection := Connection.new orb channelName oid pushSupplier
            some { s with connections := OrdMap.insert oid s.objects.length s.connections
                          objects := s.objects ++ [newConnection]
                          pending := s.objects.length :: s.pending
                          log := s.log ++ [newConnection.output] }
  | .disconnect_push_consumer oid =>
      if s.destroyed then none
      else
        match s.connections.lookup oid with
        | none => some s
        | some _ =>
            some { s with connections := OrdMap.erase oid s.connections
                          log := s.log ++ [.erase (keyPath channelName .ProxyPushConsumer oid)] }
  | .destroy =>
      if s.destroyed then none
      else some { s with destroyed := true, connections := []
                         log := s.log ++ [.erase [ecf, channelName]] }
  | .reply i r =>
      match s.objects[i]? with
      | none => none
      | some c =>
          if i ∈ s.pending then
            some { s with objects := s.objects.set i (c.callback r).1
                          pending := s.pending.erase i
                          log := s.log ++ (c.callback r).2.toList }
          else none
  | .checkpoint factory pre own post =>
      some { s with
        log := factory.1 :: (pre.map (·.1) ++
          (s.channelRecords channelName properties (own.map (·.1)) ++ post.map (·.1))) }
  | .foreign r => some { s with log := s.log ++ [r.1] }
  | .beside r => if s.destroyed then none else some { s with log := s.log ++ [r.1] }

/-- The tree of the log has exactly the connections, each with the IOR and flag of its object, and
    nothing of a channel that has been removed. -/
structure Agrees (channelName : Str) (s : PushConsumerLog Ref) (root : PersistNode) : Prop where
  connections : ∀ oid, root.attrsAt (keyPath channelName .ProxyPushConsumer oid)
    = (s.current oid).map (·.attrs)
  removed : s.destroyed = true → root.attrsAt [ecf, channelName] = none

/-- No reply says `true` to a `Connection` that is not in `_connections` any more, and the object ids
    of new connections can stand in a path. -/
def Timely {channelName : Str} (s : PushConsumerLog Ref) :
    PushConsumerStep Ref channelName → Prop
  | .reply i (.returned true) => ∃ oid, s.connections.lookup oid = some i
  | .connect_push_supplier oid (some _) => CleanName oid
  | _ => True

/-! ## What single records do -/

section Records

variable {channelName : Str} {r : LogRecord} {c : Connection Ref}

theorem IsForeign.apart (h : IsForeign channelName r) (rest : List Str) :
    ¬ r.path <+: ecf :: channelName :: rest ∧ ¬ ecf :: channelName :: rest <+: r.path := by
  obtain ⟨-, other, rest', hne, hpath⟩ := h
  rw [hpath]
  constructor
  · intro hinitial
    rw [List.cons_prefix_cons, List.cons_prefix_cons] at hinitial
    exact hne hinitial.2.1
  · intro hinitial
    rw [List.cons_prefix_cons, List.cons_prefix_cons] at hinitial
    exact hne hinitial.2.1.symm

theorem IsForeign.apart_keyPath (h : IsForeign channelName r) (kind : ProxyKind) (oid : Str) :
    ¬ r.path <+: keyPath channelName kind oid ∧ ¬ keyPath channelName kind oid <+: r.path :=
  IsForeign.apart h _

theorem keyPath_apart {kind kind' : ProxyKind} {oid oid' : Str} (h : kind ≠ kind' ∨ oid ≠ oid') :
    ¬ keyPath channelName kind oid <+: keyPath channelName kind' oid' := by
  intro hinitial
  obtain ⟨-, hkind, hoid⟩ := keyPath_inj.1 (hinitial.eq_of_length rfl)
  rcases h with h | h
  · exact h hkind
  · exact h hoid

theorem IsBeside.apart (h : IsBeside channelName r) (oid : Str) :
    ¬ r.path <+: keyPath channelName .ProxyPushConsumer oid ∧
      ¬ keyPath channelName .ProxyPushConsumer oid <+: r.path := by
  obtain ⟨-, kind, oid', hkind, hpath⟩ := h
  rw [hpath]
  exact ⟨keyPath_apart (Or.inl hkind), keyPath_apart (Or.inl hkind.symm)⟩

theorem attrMap_attrs (c : Connection Ref) : attrMap c.attrs = c.attrs :=
  LogRecord.attrMap_of_sorted (sorted_proxyRecord c.target_sior c.targetIsProxy)

/-- The record of a connection puts it at its object id, and touches no other. -/
theorem attrsAt_output (hclean : c.output.Clean) (hchannel : c.channelName = channelName)
    (root : PersistNode) (oid : Str) :
    (LogRecord.apply root c.output).attrsAt (keyPath channelName .ProxyPushConsumer oid)
      = if oid = c.oidstr then some c.attrs
        else root.attrsAt (keyPath channelName .ProxyPushConsumer oid) := by
  subst hchannel
  rw [LogRecord.attrsAt_apply hclean]
  split
  · next h =>
      rw [h, ← attrMap_attrs c]
      exact PathMap.set_self
  · next h =>
      exact PathMap.set_apart (keyPath_apart (Or.inr (Ne.symm h))) (keyPath_apart (Or.inr h))

theorem attrsAt_erase {oid : Str} (hclean : (LogRecord.erase
      (keyPath channelName .ProxyPushConsumer oid)).Clean) (root : PersistNode) (oid' : Str) :
    (LogRecord.apply root (.erase (keyPath channelName .ProxyPushConsumer oid))).attrsAt
        (keyPath channelName .ProxyPushConsumer oid')
      = if oid' = oid then none
        else root.attrsAt (keyPath channelName .ProxyPushConsumer oid') := by
  rw [LogRecord.attrsAt_apply hclean]
  split
  · next h =>
      rw [h]
      exact PathMap.remove_below (List.prefix_refl _)
  · next h => exact PathMap.remove_apart (keyPath_apart (Or.inr (Ne.symm h)))

/-- A list of connections with different object ids. -/
theorem attrsAt_outputs {cs : List (Connection Ref)} (hclean : ∀ c ∈ cs, c.output.Clean)
    (hchannel : ∀ c ∈ cs, c.channelName = channelName) (hnodup : (cs.map (·.oidstr)).Nodup)
    (root : PersistNode) (oid : Str) :
    ((cs.map (·.output)).foldl LogRecord.apply root).attrsAt
        (keyPath channelName .ProxyPushConsumer oid)
      = match cs.find? (fun c => c.oidstr = oid) with
        | some c => some c.attrs
        | none => root.attrsAt (keyPath channelName .ProxyPushConsumer oid) := by
  induction cs generalizing root with
  | nil => rfl
  | cons c cs ih =>
      obtain ⟨hc, hcs⟩ := List.forall_mem_cons.1 hclean
      obtain ⟨hchannelc, hchannels⟩ := List.forall_mem_cons.1 hchannel
      rw [List.map_cons, List.nodup_cons] at hnodup
      rw [List.map_cons, List.foldl_cons, ih hcs hchannels hnodup.2, attrsAt_output hc hchannelc]
      by_cases hoid : c.oidstr = oid
      · have hnone : cs.find? (fun c => c.oidstr = oid) = none := by
          rw [List.find?_eq_none]
          intro d hd
          simp only [decide_eq_true_eq]
          exact fun h => hnodup.1 (hoid ▸ h ▸ List.mem_map_of_mem hd)
        simp [hnone, hoid]
      · simp [hoid, Ne.symm hoid]

end Records

/-! ## The invariant

The map, the objects and the requests. Of all steps only a reply that comes too late may break the
agreement with the log. -/

/-- What a connection has that can be written to the log of the channel. -/
structure Loggable (channelName : Str) (c : Connection Ref) : Prop where
  channelName_eq : c.channelName = channelName
  oidstr : CleanName c.oidstr
  ior : ∀ ch ∈ c.target_sior, isSpace ch = false

/-- The objects, the map and the requests agree. -/
structure Inv (channelName : Str) (s : PushConsumerLog Ref) : Prop where
  sorted : OrdMap.Sorted s.connections
  /-- `_connections` holds each object under its object id. -/
  lookup : ∀ oid i, s.connections.lookup oid = some i → ∃ c, s.objects[i]? = some c ∧ c.oidstr = oid
  objects : ∀ c ∈ s.objects, Loggable channelName c
  /-- One request for an object, whose flag is not set before the reply. -/
  pending : ∀ i ∈ s.pending, ∃ c, s.objects[i]? = some c ∧ c.targetIsProxy = false
  nodup : s.pending.Nodup
  destroyed : s.destroyed = true → s.connections = []
  clean : ∀ r ∈ s.log, r.Clean
  agrees : s.Agrees channelName (replay s.log)

/-- The channel runs, its log agrees, and no reply is outstanding. -/
structure Started (channelName : Str) (s : PushConsumerLog Ref) : Prop extends
    Inv channelName s where
  running : s.destroyed = false
  quiet : s.pending = []

section Steps

variable {channelName : Str} {s : PushConsumerLog Ref}

theorem Loggable.callback {c : Connection Ref} (h : Loggable channelName c) (r : IsAReply) :
    Loggable channelName (c.callback r).1 := by
  cases r <;> exact ⟨h.channelName_eq, h.oidstr, h.ior⟩

theorem Loggable.clean_output {c : Connection Ref} (hname : CleanName channelName)
    (h : Loggable channelName c) : c.output.Clean := by
  have hrecord : (c.view).record channelName = c.output := by
    rw [← h.channelName_eq]
    rfl
  rw [← hrecord]
  refine clean_record hname h.oidstr (.push c.target_sior rfl (Or.inl rfl)) ?_
  rw [ProxyView.ior, Connection.view, lookup_keyIOR_cons]
  exact h.ior

theorem clean_erase {oid : Str} (hname : CleanName channelName) (hoid : CleanName oid) :
    (LogRecord.erase (keyPath channelName .ProxyPushConsumer oid)).Clean := by
  refine ⟨rfl, ?_⟩
  simp only [keyPath, List.forall_mem_cons, List.not_mem_nil, false_implies, implies_true,
    and_true]
  exact ⟨cleanName_ecf, hname, ProxyKind.cleanName_admin _, ProxyKind.cleanName_name _, hoid⟩

theorem clean_concat {log : List LogRecord} {r : LogRecord} (hlog : ∀ r ∈ log, r.Clean)
    (hr : r.Clean) : ∀ r' ∈ log ++ [r], r'.Clean := by
  rw [List.forall_mem_append]
  exact ⟨hlog, by simpa using hr⟩

/-- Objects that are added or changed elsewhere do not matter for the connections. -/
theorem current_append (h : s.Inv channelName) (c : Connection Ref) (oid : Str) :
    (s.connections.lookup oid).bind (fun i => (s.objects ++ [c])[i]?) = s.current oid := by
  rw [current]
  cases hi : s.connections.lookup oid with
  | none => rfl
  | some i =>
      obtain ⟨d, hd, -⟩ := h.lookup oid i hi
      obtain ⟨hlt, -⟩ := List.getElem?_eq_some_iff.1 hd
      simp only [Option.bind_some]
      rw [List.getElem?_append_left hlt]

variable {orb : Orb Ref} {properties : List (Str × Str)} {t : PushConsumerLog Ref}

theorem inv_connect {oid : Str} {pushSupplier : Option Ref} (h : s.Inv channelName)
    (hname : CleanName channelName)
    (horb : ∀ r, ∀ ch ∈ orb.object_to_string r, isSpace ch = false)
    (htimely : ∀ supp, pushSupplier = some supp → CleanName oid)
    (hst : step orb channelName properties s (.connect_push_supplier oid pushSupplier) = some t) :
    t.Inv channelName := by
  simp only [step] at hst
  split at hst
  · cases hst
  · next hrunning =>
      split at hst
      · cases hst
        exact h
      · cases hst
        exact h
      · next supp hlookup =>
          cases hst
          have hlog : Loggable channelName (Connection.new orb channelName oid supp) :=
            ⟨rfl, htimely supp rfl, horb supp⟩
          have hfresh : ∀ i ∈ s.pending, i < s.objects.length := by
            intro i hi
            obtain ⟨c, hc, -⟩ := h.pending i hi
            exact (List.getElem?_eq_some_iff.1 hc).1
          have hkeep : ∀ (i : ℕ) (c : Connection Ref), s.objects[i]? = some c →
              (s.objects ++ [Connection.new orb channelName oid supp])[i]? = some c := by
            intro i c hc
            rw [List.getElem?_append_left (List.getElem?_eq_some_iff.1 hc).1, hc]
          refine ⟨h.sorted.insert, ?_, ?_, ?_, ?_, ?_, ?_, ⟨?_, ?_⟩⟩
          · intro oid' i hi
            rw [OrdMap.lookup_insert] at hi
            split at hi
            · next heq =>
                cases hi
                exact ⟨Connection.new orb channelName oid supp, by simp, heq.symm⟩
            · obtain ⟨c, hc, hoid⟩ := h.lookup oid' i hi
              exact ⟨c, hkeep i c hc, hoid⟩
          · simp only [List.forall_mem_append]
            exact ⟨h.objects, by simpa using hlog⟩
          · refine List.forall_mem_cons.2
              ⟨⟨Connection.new orb channelName oid supp, by simp, rfl⟩, ?_⟩
            intro i hi
            obtain ⟨c, hc, hflag⟩ := h.pending i hi
            exact ⟨c, hkeep i c hc, hflag⟩
          · exact List.nodup_cons.2 ⟨fun hi => lt_irrefl _ (hfresh _ hi), h.nodup⟩
          · exact fun hdestroyed => absurd hdestroyed hrunning
          · exact clean_concat h.clean (hlog.clean_output hname)
          · intro oid'
            rw [LogRecord.replay_append, attrsAt_output (hlog.clean_output hname) hlog.channelName_eq,
              h.agrees.connections, ← current_append h (Connection.new orb channelName oid supp)]
            simp only [current, OrdMap.lookup_insert]
            by_cases heq : oid' = oid
            · simp [heq, Connection.new]
            · rw [if_neg heq, if_neg (by simpa [Connection.new] using heq)]
          · exact fun hdestroyed => absurd hdestroyed hrunning

theorem inv_disconnect {oid : Str} (h : s.Inv channelName) (hname : CleanName channelName)
    (hst : step orb channelName properties s (.disconnect_push_consumer oid) = some t) :
    t.Inv channelName := by
  simp only [step] at hst
  split at hst
  · cases hst
  · next hrunning =>
      split at hst
      · cases hst
        exact h
      · next i hlookup =>
          cases hst
          obtain ⟨c, hc, hoid⟩ := h.lookup oid i hlookup
          have hclean := clean_erase hname
            (hoid ▸ (h.objects c (List.mem_of_getElem? hc)).oidstr)
          refine ⟨h.sorted.erase, ?_, h.objects, h.pending, h.nodup, ?_, clean_concat h.clean hclean,
            ⟨?_, ?_⟩⟩
          · intro oid' j hj
            rw [OrdMap.lookup_erase] at hj
            split at hj
            · cases hj
            · exact h.lookup oid' j hj
          · exact fun hdestroyed => absurd hdestroyed hrunning
          · intro oid'
            rw [LogRecord.replay_append, attrsAt_erase hclean, h.agrees.connections, current, current,
              OrdMap.lookup_erase]
            split <;> rfl
          · exact fun hdestroyed => absurd hdestroyed hrunning

theorem inv_destroy (h : s.Inv channelName) (hname : CleanName channelName)
    (hst : step orb channelName properties s .destroy = some t) : t.Inv channelName := by
  simp only [step] at hst
  split at hst
  · cases hst
  · cases hst
    have hclean : (LogRecord.erase [ecf, channelName]).Clean :=
      ⟨rfl, by simpa using ⟨cleanName_ecf, hname⟩⟩
    have hremoved : ∀ q, [ecf, channelName] <+: q →
        (replay (s.log ++ [.erase [ecf, channelName]])).attrsAt q = none := by
      intro q hq
      rw [LogRecord.replay_append, LogRecord.attrsAt_apply hclean]
      exact PathMap.remove_below hq
    exact ⟨OrdMap.Sorted.nil, by simp, h.objects, h.pending, h.nodup, fun _ => rfl,
      clean_concat h.clean hclean,
      ⟨fun oid => hremoved _ ⟨_, rfl⟩, fun _ => hremoved _ (List.prefix_refl _)⟩⟩

/-- A reply other than `true` changes nothing, since the flag is not set before it. -/
theorem callback_of_not_true {c : Connection Ref} (hflag : c.targetIsProxy = false)
    {r : IsAReply} (hr : r ≠ .returned true) : c.callback r = (c, none) := by
  cases r with
  | returned isProxy =>
      cases isProxy with
      | true => exact absurd rfl hr
      | false =>
          obtain ⟨channelName, oidstr, target, sior, flag⟩ := c
          cases hflag
          rfl
  | unexpected => rfl
  | exception => rfl

/-- The object of a connection that is still there hears that its supplier is a proxy, and writes its
    record. -/
theorem inv_callback {i : ℕ} {c : Connection Ref} {oid : Str} (h : s.Inv channelName)
    (hname : CleanName channelName) (hc : s.objects[i]? = some c)
    (hlookup : s.connections.lookup oid = some i) :
    Inv channelName { s with
      objects := s.objects.set i (c.callback (.returned true)).1
      pending := s.pending.erase i
      log := s.log ++ [(c.callback (.returned true)).1.output] } := by
  obtain ⟨d, hd, hoid⟩ := h.lookup oid i hlookup
  obtain rfl : c = d := Option.some_inj.1 (hc.symm.trans hd)
  have hlog := (h.objects c (List.mem_of_getElem? hc)).callback (.returned true)
  have hlt := (List.getElem?_eq_some_iff.1 hc).1
  -- no other object has this id
  have hother : ∀ oid' j, oid' ≠ oid → s.connections.lookup oid' = some j → i ≠ j := by
    rintro oid' j hne hj rfl
    obtain ⟨d, hd, hoid'⟩ := h.lookup oid' i hj
    obtain rfl : c = d := Option.some_inj.1 (hc.symm.trans hd)
    exact hne (hoid'.symm.trans hoid)
  refine ⟨h.sorted, ?_, ?_, ?_, h.nodup.erase i, h.destroyed,
    clean_concat h.clean (hlog.clean_output hname), ⟨?_, ?_⟩⟩
  · intro oid' j hj
    by_cases hji : j = i
    · subst hji
      obtain ⟨d, hd, hoid'⟩ := h.lookup oid' j hj
      obtain rfl : c = d := Option.some_inj.1 (hc.symm.trans hd)
      exact ⟨(c.callback (.returned true)).1, by simp [hlt], hoid'⟩
    · obtain ⟨d, hd, hoid'⟩ := h.lookup oid' j hj
      exact ⟨d, by rw [List.getElem?_set_ne (Ne.symm hji), hd], hoid'⟩
  · intro d hd
    rcases List.mem_or_eq_of_mem_set hd with hd | rfl
    · exact h.objects d hd
    · exact hlog
  · intro j hj
    obtain ⟨d, hd, hflag⟩ := h.pending j (List.mem_of_mem_erase hj)
    have hji : i ≠ j := Ne.symm (h.nodup.mem_erase_iff.1 hj).1
    exact ⟨d, by rw [List.getElem?_set_ne hji, hd], hflag⟩
  · intro oid'
    have hrecord := attrsAt_output (hlog.clean_output hname) hlog.channelName_eq (replay s.log) oid'
    have hself : (c.callback (.returned true)).1.oidstr = oid := hoid
    rw [hself, h.agrees.connections] at hrecord
    rw [LogRecord.replay_append, hrecord]
    by_cases heq : oid' = oid
    · subst heq
      simp [current, hlookup, hlt]
    · rw [if_neg heq, current, current]
      cases hj : s.connections.lookup oid' with
      | none => rfl
      | some j => simp [List.getElem?_set_ne (hother oid' j heq hj)]
  · intro hdestroyed
    rw [h.destroyed hdestroyed] at hlookup
    cases hlookup

theorem inv_reply {i : ℕ} {r : IsAReply} (h : s.Inv channelName) (hname : CleanName channelName)
    (htimely : r = .returned true → ∃ oid, s.connections.lookup oid = some i)
    (hst : step orb channelName properties s (.reply i r) = some t) : t.Inv channelName := by
  simp only [step] at hst
  split at hst
  · cases hst
  · next c hc =>
      split at hst
      · next hi =>
          cases hst
          by_cases hr : r = .returned true
          · subst hr
            obtain ⟨oid, hlookup⟩ := htimely rfl
            exact inv_callback h hname hc hlookup
          · obtain ⟨c', hc', hflag⟩ := h.pending i hi
            obtain rfl : c = c' := Option.some_inj.1 (hc.symm.trans hc')
            have hset : s.objects.set i c = s.objects := by
              obtain ⟨hlt, rfl⟩ := List.getElem?_eq_some_iff.1 hc
              exact List.set_getElem_self hlt
            rw [callback_of_not_true hflag hr]
            simp only [hset, Option.toList_none, List.append_nil]
            exact ⟨h.sorted, h.lookup, h.objects,
              fun j hj => h.pending j (List.mem_of_mem_erase hj), h.nodup.erase i, h.destroyed,
              h.clean, ⟨h.agrees.connections, h.agrees.removed⟩⟩
      · cases hst

/-- The log gets a record that is neither above nor below the connections. -/
theorem inv_append {r : LogRecord} (h : s.Inv channelName) (hr : r.Clean)
    (hapart : ∀ oid, ¬ r.path <+: keyPath channelName .ProxyPushConsumer oid ∧
      ¬ keyPath channelName .ProxyPushConsumer oid <+: r.path)
    (hchannel : s.destroyed = true → ¬ [ecf, channelName] <+: r.path) :
    Inv channelName { s with log := s.log ++ [r] } := by
  refine ⟨h.sorted, h.lookup, h.objects, h.pending, h.nodup, h.destroyed, clean_concat h.clean hr,
    ⟨?_, ?_⟩⟩
  · intro oid
    rw [LogRecord.replay_append, LogRecord.attrsAt_apply hr,
      LogRecord.update_of_apart (hapart oid).1 (hapart oid).2, h.agrees.connections]
    rfl
  · intro hdestroyed
    rw [LogRecord.replay_append, LogRecord.attrsAt_apply hr]
    exact LogRecord.update_none (hchannel hdestroyed) (h.agrees.removed hdestroyed)

theorem inv_foreign {r : { r // IsForeign channelName r }} (h : s.Inv channelName)
    (hst : step orb channelName properties s (.foreign r) = some t) : t.Inv channelName := by
  cases hst
  exact inv_append h r.2.1 (IsForeign.apart_keyPath r.2 _)
    (fun _ => (IsForeign.apart r.2 []).2)

theorem inv_beside {r : { r // IsBeside channelName r }} (h : s.Inv channelName)
    (hst : step orb channelName properties s (.beside r) = some t) : t.Inv channelName := by
  simp only [step] at hst
  split at hst
  · cases hst
  · next hrunning =>
      cases hst
      exact inv_append h r.2.1 (IsBeside.apart r.2) (fun hdestroyed => absurd hdestroyed hrunning)

/-- The objects in `_connections` are found by their object ids. -/
theorem find_live {connections : List (Str × ℕ)} {objects : List (Connection Ref)}
    (h : ∀ e ∈ connections, ∃ c, objects[e.2]? = some c ∧ c.oidstr = e.1) (oid : Str) :
    (connections.filterMap (fun e => objects[e.2]?)).map (·.oidstr) = connections.map Prod.fst ∧
      (connections.filterMap (fun e => objects[e.2]?)).find? (fun c => c.oidstr = oid)
        = (connections.lookup oid).bind (fun i => objects[i]?) := by
  induction connections with
  | nil => exact ⟨rfl, rfl⟩
  | cons e connections ih =>
      obtain ⟨⟨c, hc, hoid⟩, hrest⟩ := List.forall_mem_cons.1 h
      obtain ⟨hmap, hfind⟩ := ih hrest
      obtain ⟨oid', i⟩ := e
      simp only at hc hoid
      subst hoid
      rw [List.filterMap_cons_some (by exact hc), OrdMap.lookup_cons_ite]
      refine ⟨by rw [List.map_cons, List.map_cons, hmap], ?_⟩
      by_cases heq : c.oidstr = oid
      · subst heq
        simp [hc]
      · rw [if_neg (Ne.symm heq), ← hfind, List.find?_cons_of_neg (by simpa using heq)]

theorem Inv.entry (h : s.Inv channelName) :
    ∀ e ∈ s.connections, ∃ c, s.objects[e.2]? = some c ∧ c.oidstr = e.1 := by
  rintro ⟨oid, i⟩ he
  exact h.lookup oid i (h.sorted.mem_iff_lookup.1 he)

theorem Inv.live_loggable (h : s.Inv channelName) : ∀ c ∈ s.live, Loggable channelName c := by
  intro c hc
  obtain ⟨e, -, he⟩ := List.mem_filterMap.1 hc
  exact h.objects c (List.mem_of_getElem? he)

/-- What a checkpoint writes for the channel is its connections, and other records beside these. -/
theorem Inv.attrsAt_channelRecords (h : s.Inv channelName) (hname : CleanName channelName)
    (hproperties : ∀ kv ∈ properties, CleanAttr kv) {own : List LogRecord}
    (hown : ∀ r ∈ own, IsBeside channelName r) {root : PersistNode}
    (hroot : ∀ oid, root.attrsAt (keyPath channelName .ProxyPushConsumer oid) = none) (oid : Str) :
    ((s.channelRecords channelName properties own).foldl LogRecord.apply root).attrsAt
        (keyPath channelName .ProxyPushConsumer oid) = (s.current oid).map (·.attrs) := by
  rw [channelRecords]
  split
  · next hdestroyed =>
      rw [List.foldl_nil, hroot, current, h.destroyed hdestroyed]
      rfl
  · have hblock : (LogRecord.block [ecf, channelName] properties).Clean :=
      ⟨⟨rfl, by simpa using ⟨cleanName_ecf, hname⟩⟩, hproperties⟩
    have hnone : (LogRecord.apply root (.block [ecf, channelName] properties)).attrsAt
        (keyPath channelName .ProxyPushConsumer oid) = none := by
      rw [LogRecord.attrsAt_apply hblock]
      exact LogRecord.update_none (fun hinitial => by simpa [keyPath, LogRecord.path] using hinitial.length_le)
        (hroot oid)
    obtain ⟨hoids, hfind⟩ := find_live h.entry oid
    have hnodup : (s.live.map (·.oidstr)).Nodup := by
      rw [live, hoids]
      exact h.sorted.nodup_keys
    rw [List.foldl_cons, List.foldl_append,
      LogRecord.attrsAt_foldl_of_apart (fun r hr => (hown r hr).1)
        (fun r hr => IsBeside.apart (hown r hr) oid),
      attrsAt_outputs (fun c hc => (h.live_loggable c hc).clean_output hname)
        (fun c hc => (h.live_loggable c hc).channelName_eq) hnodup, hnone, live, hfind, current]
    cases (s.connections.lookup oid).bind (fun i => s.objects[i]?) <;> rfl

theorem Inv.clean_channelRecords (h : s.Inv channelName) (hname : CleanName channelName)
    (hproperties : ∀ kv ∈ properties, CleanAttr kv) {own : List LogRecord}
    (hown : ∀ r ∈ own, IsBeside channelName r) :
    ∀ r ∈ s.channelRecords channelName properties own, r.Clean := by
  rw [channelRecords]
  split
  · simp
  · refine List.forall_mem_cons.2 ⟨⟨⟨rfl, by simpa using ⟨cleanName_ecf, hname⟩⟩, hproperties⟩, ?_⟩
    simp only [List.forall_mem_append, List.forall_mem_map]
    exact ⟨fun c hc => (h.live_loggable c hc).clean_output hname, fun r hr => (hown r hr).1⟩

theorem inv_checkpoint {factory : { r // IsFactory r }}
    {pre post : List { r // IsForeign channelName r }} {own : List { r // IsBeside channelName r }}
    (h : s.Inv channelName) (hname : CleanName channelName)
    (hproperties : ∀ kv ∈ properties, CleanAttr kv)
    (hst : step orb channelName properties s (.checkpoint factory pre own post) = some t) :
    t.Inv channelName := by
  cases hst
  have hpre : ∀ r ∈ pre.map (·.1), IsForeign channelName r := by
    simp only [List.forall_mem_map]
    exact fun r _ => r.2
  have hpost : ∀ r ∈ post.map (·.1), IsForeign channelName r := by
    simp only [List.forall_mem_map]
    exact fun r _ => r.2
  have hown : ∀ r ∈ own.map (·.1), IsBeside channelName r := by
    simp only [List.forall_mem_map]
    exact fun r _ => r.2
  -- nothing of the channel is there before its own records
  have hbefore : ∀ q, [ecf, channelName] <+: q → q.length ≠ 1 →
      (((pre.map (·.1)).foldl LogRecord.apply (LogRecord.apply PersistNode.empty factory.1))).attrsAt
        q = none := by
    intro q hq hlength
    obtain ⟨rest, rfl⟩ := hq
    refine LogRecord.attrsAt_foldl_none (fun r hr => (hpre r hr).1)
      (fun r hr => (IsForeign.apart (hpre r hr) rest).2) ?_
    rw [LogRecord.attrsAt_apply factory.2.1]
    refine LogRecord.update_none ?_ rfl
    intro hinitial
    rw [factory.2.2] at hinitial
    simpa using hinitial.length_le
  refine ⟨h.sorted, h.lookup, h.objects, h.pending, h.nodup, h.destroyed, ?_, ⟨?_, ?_⟩⟩
  · refine List.forall_mem_cons.2 ⟨factory.2.1, ?_⟩
    rw [List.forall_mem_append, List.forall_mem_append]
    exact ⟨fun r hr => (hpre r hr).1, h.clean_channelRecords hname hproperties hown,
      fun r hr => (hpost r hr).1⟩
  · intro oid
    rw [replay, List.foldl_cons, List.foldl_append, List.foldl_append,
      LogRecord.attrsAt_foldl_of_apart (fun r hr => (hpost r hr).1)
        (fun r hr => IsForeign.apart_keyPath (hpost r hr) _ _)]
    exact h.attrsAt_channelRecords hname hproperties hown
      (fun oid' => hbefore _ ⟨_, rfl⟩ (by simp [keyPath])) oid
  · intro hdestroyed
    simp only at hdestroyed
    rw [replay, List.foldl_cons, List.foldl_append, channelRecords, if_pos hdestroyed,
      List.nil_append]
    exact LogRecord.attrsAt_foldl_none (fun r hr => (hpost r hr).1)
      (fun r hr => (IsForeign.apart (hpost r hr) []).2)
      (hbefore _ (List.prefix_refl _) (by simp))

/-- Every timely step preserves the invariant. -/
theorem Inv.step {a : PushConsumerStep Ref channelName} (h : s.Inv channelName)
    (hname : CleanName channelName) (hproperties : ∀ kv ∈ properties, CleanAttr kv)
    (horb : ∀ r, ∀ ch ∈ orb.object_to_string r, isSpace ch = false) (htimely : s.Timely a)
    (hst : PushConsumerLog.step orb channelName properties s a = some t) : t.Inv channelName := by
  cases a with
  | connect_push_supplier oid pushSupplier =>
      refine inv_connect h hname horb ?_ hst
      intro supp hsupp
      subst hsupp
      exact htimely
  | disconnect_push_consumer oid => exact inv_disconnect h hname hst
  | destroy => exact inv_destroy h hname hst
  | reply i r =>
      refine inv_reply h hname ?_ hst
      intro hr
      subst hr
      exact htimely
  | checkpoint factory pre own post => exact inv_checkpoint h hname hproperties hst
  | foreign r => exact inv_foreign h hst
  | beside r => exact inv_beside h hst

end Steps

/-! ## A late reply

A connection is disconnected while its `_is_a` is outstanding. The reply sets the flag of an object
that is in no map, and writes a record for it. -/

end PushConsumerLog

end OmniEvents
