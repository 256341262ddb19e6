import OmniEvents.CreateChannel
import OmniEvents.Lib.Attempt

set_option autoImplicit false

/-! # Creations that fail

`EventChannel_i::activate` creates the POA of the channel, activates the admins, the default servant of
the push consumers and the channel itself, and then a mapper in the omniINSPOA; any of these calls may
raise. `create_object` then deletes the channel. Its destructor takes the mapper away, and gives up the
references to the admins; but the POA is not destroyed and keeps its servants, the deleted channel
among them, so that the name cannot be used again (`no_trace_iff`). -/

namespace OmniEvents

open Attempt (exec)
open PersistNode (attrString hasAttr)

variable {Ref : Type}

/-! ## The state of the factory -/

/-- The servants that a channel activates in its POA. -/
inductive ChannelServant where
  | EventChannel
  | ConsumerAdmin
  | SupplierAdmin
  /-- The default servant of the POA below the channel's. -/
  | ProxyPushConsumer
  deriving DecidableEq, Repr

/-- The POA of a channel with its servants. -/
structure ChannelPOA where
  name : Str
  /-- The servants that are active in it or below it. -/
  active : List ChannelServant
  /-- Its servants that have been deleted. -/
  deleted : List ChannelServant
  deriving DecidableEq, Repr

/-- What outlives a creation that fails: POAs, the omniINSPOA, the store, the log. -/
structure FactoryState where
  poas : List ChannelPOA
  /-- The ids in the omniINSPOA. -/
  insPoa : List Str
  /-- The names of the channels in the store. -/
  store : List Str
  log : Str
  deriving DecidableEq, Repr

namespace FactoryState

/-- The names that `create_POA` would refuse. -/
def poaNames (s : FactoryState) : List Str := s.poas.map (·.name)

/-- The POA of this name, if any, is changed. -/
def modifyPOA (s : FactoryState) (name : Option Str) (f : ChannelPOA → ChannelPOA) : FactoryState :=
  { s with poas := s.poas.map fun p => if some p.name = name then f p else p }

/-- No POA keeps a servant that was deleted. -/
def Sound (s : FactoryState) : Prop :=
  ∀ p ∈ s.poas, ∀ servant ∈ p.active, servant ∉ p.deleted

end FactoryState

/-! ## `activate` -/

/-- The calls of the ORB that `create_object`, `activate` and `setInsName` make. -/
inductive CreateCall where
  /-- The policies of the POA. -/
  | createPolicies
  | create_POA
  | the_POAManager
  | activateConsumerAdmin
  | createProxyPOA
  | set_servant
  | activateSupplierAdmin
  | activateEventChannel
  /-- `_this()` in `setInsName`. -/
  | this
  | activateMapper
  | start_undetached
  /-- `_this()` for the client. -/
  | returnThis
  /-- `_narrow` in `create_channel`. -/
  | narrow
  deriving DecidableEq, Repr

/-- What `activate` raises. -/
inductive ActivateExn where
  | ObjectAlreadyActive
  | AdapterAlreadyExists
  | raised (ex : Exn)
  deriving DecidableEq, Repr

/-- The factory, and the members of the new channel that say what it has so far. -/
structure NewChannel where
  factory : FactoryState
  poa : Option Str
  mapper : Option Str
  deriving DecidableEq, Repr

namespace NewChannel

/-- `EventChannel_i::activate` creates its POA; the name must be new. -/
def create_POA (channelName : Str) (c : NewChannel) : Except ActivateExn NewChannel :=
  if channelName ∈ c.factory.poaNames then .error .AdapterAlreadyExists
  else
    .ok { c with
      poa := some channelName
      factory := { c.factory with poas := c.factory.poas ++ [⟨channelName, [], []⟩] } }

/-- A servant is activated in the POA of the channel. -/
def activateServant (servant : ChannelServant) (c : NewChannel) : NewChannel :=
  { c with
    factory := c.factory.modifyPOA c.poa fun p => { p with active := p.active ++ [servant] } }

/-- The constructor of `Mapper`. -/
def activateMapper (id : Str) (c : NewChannel) : Except ActivateExn NewChannel :=
  if id ∈ c.factory.insPoa then .error .ObjectAlreadyActive
  else
    .ok { c with
      mapper := some id
      factory := { c.factory with insPoa := c.factory.insPoa ++ [id] } }

/-- `_mapper->destroy()`. -/
def destroyMapper (c : NewChannel) : FactoryState :=
  match c.mapper with
  | none => c.factory
  | some id => { c.factory with insPoa := c.factory.insPoa.erase id }

/-- `~EventChannel_i`. The admins stay, since their POA has a reference to them. -/
def delete (c : NewChannel) : FactoryState :=
  c.destroyMapper.modifyPOA c.poa fun p => { p with deleted := p.deleted ++ [.EventChannel] }

end NewChannel

section Activate

variable (raises : CreateCall → Option Exn)

/-- A call, and what it does unless it raises. -/
def attempt (call : CreateCall) (effect : NewChannel → Except ActivateExn NewChannel)
    (c : NewChannel) : Except ActivateExn NewChannel :=
  match raises call with
  | some ex => .error (.raised ex)
  | none => effect c

/-- `createPoa`, as far as the POA. -/
def createPoa (channelName : Str) : List (NewChannel → Except ActivateExn NewChannel) :=
  [attempt raises .createPolicies .ok,
    attempt raises .create_POA (NewChannel.create_POA channelName)]

/-- `EventChannel_i::setInsName`: a mapper for `this` is made and activated, if there is a name. -/
def setInsName (v : Str) : List (NewChannel → Except ActivateExn NewChannel) :=
  if v = [] then []
  else
    [attempt raises .this .ok,
      attempt raises .activateMapper (NewChannel.activateMapper v)]

/-- What `activate` does once the POA is there. The criteria have no children to reincarnate. -/
def activateRest (v : Str) : List (NewChannel → Except ActivateExn NewChannel) :=
  [attempt raises .the_POAManager .ok,
    attempt raises .activateConsumerAdmin fun c => .ok (c.activateServant .ConsumerAdmin),
    attempt raises .createProxyPOA .ok,
    attempt raises .set_servant fun c => .ok (c.activateServant .ProxyPushConsumer),
    attempt raises .activateSupplierAdmin fun c => .ok (c.activateServant .SupplierAdmin),
    attempt raises .activateEventChannel fun c => .ok (c.activateServant .EventChannel)] ++
    setInsName raises v ++ [attempt raises .start_undetached .ok]

/-- `EventChannel_i::activate`. -/
def activateChannel (channelName v : Str) : List (NewChannel → Except ActivateExn NewChannel) :=
  createPoa raises channelName ++ activateRest raises v

end Activate

/-! ## `create_object` and `create_channel` -/

/-- The handlers of `create_object`. -/
def ActivateExn.convert (criteria : List Criterion) : ActivateExn → LifeCycleExn
  | ObjectAlreadyActive => .InvalidCriteria criteria
  | AdapterAlreadyExists => .InvalidCriteria criteria
  | raised ex => .raised ex

/-- What `create_channel` raises. -/
inductive CreateChannelExn where
  | NameAlreadyUsed
  | UNKNOWN
  | raised (ex : Exn)
  deriving DecidableEq, Repr

/-- A `CORBA::UserException`. -/
def Exn.isUser : Exn → Bool
  | AlreadyConnected | TypeError | ServantNotActive => true
  | _ => false

/-- The handlers of `create_channel`. -/
def LifeCycleExn.convert : LifeCycleExn → CreateChannelExn
  | InvalidCriteria (c :: _) => if c.name = keyInsName then .NameAlreadyUsed else .UNKNOWN
  | raised ex => if ex.isUser then .UNKNOWN else .raised ex
  | _ => .UNKNOWN

namespace FactoryState

section Create

variable (s : FactoryState) (raises : CreateCall → Option Exn) (uniqueId : Str)

/-- `create_object`, with the name of the channel for its reference. -/
def create_object (k : List NameComponent) (criteria : List Criterion) :
    FactoryState × Except LifeCycleExn Str :=
  if !supports k then (s, .error (.NoFactory k))
  else
    match parseCriteria criteria with
    | .error ex => (s, .error ex)
    | .ok criteriaNode =>
        match exec (activateChannel raises (channelId criteriaNode uniqueId)
            (criteriaNode.attrString keyInsName)) ⟨s, none, none⟩ with
        | (c, some ex) => (c.delete, .error (ex.convert criteria))
        -- the pointer is released before `_this`
        | (c, none) =>
            match raises .returnThis with
            | some ex => (c.factory, .error (.raised ex))
            | none => (c.factory, .ok (channelId criteriaNode uniqueId))

/-- The criteria of `create_channel`. -/
def nameCriteria (channel_name : Str) : List Criterion := [⟨keyInsName, .string channel_name⟩]

/-- `EventChannelFactory_i::create_channel`, which turns the exceptions of the life cycle into its
    own. -/
def create_channel (channel_name : Str) : FactoryState × Except CreateChannelExn Str :=
  match s.create_object raises uniqueId channelKey (nameCriteria channel_name) with
  | (s', .error ex) => (s', .error ex.convert)
  | (s', .ok channel) =>
      match raises .narrow with
      | some ex => (s', .error (LifeCycleExn.raised ex).convert)
      | none => (s', .ok channel)

end Create

/-- No call of the ORB raises. -/
def quiet : CreateCall → Option Exn := fun _ => none

/-- What a call that raises may leave behind. -/
structure NoTrace (s s' : FactoryState) (uniqueId : Str) (k : List NameComponent)
    (criteria : List Criterion) : Prop where
  poas : s'.poas = s.poas
  insPoa : s'.insPoa = s.insPoa
  store : s'.store = s.store
  log : s'.log = s.log
  sound : s.Sound → s'.Sound
  /-- A name that no channel has can be used as soon as the omniINSPOA does not have it either. -/
  reusable : ∀ node, supports k = true → parseCriteria criteria = .ok node →
    channelId node uniqueId ∉ s.poaNames → ∀ insPoa, node.attrString keyInsName ∉ insPoa →
      ∃ name, ({ s' with insPoa := insPoa }.create_object quiet uniqueId k criteria).2 = .ok name

/-- The call ends before it has created the POA. -/
def EndsEarly (s : FactoryState) (raises : CreateCall → Option Exn) (uniqueId : Str)
    (k : List NameComponent) (criteria : List Criterion) : Prop :=
  supports k = false ∨
    ∀ node, parseCriteria criteria = .ok node →
      raises .createPolicies ≠ none ∨ raises .create_POA ≠ none ∨
        channelId node uniqueId ∈ s.poaNames

/-- Nothing is in the way of `activate` after that. -/
@[mk_iff]
structure RestGoesWell (raises : CreateCall → Option Exn) (insPoa : List Str) (v : Str) : Prop where
  the_POAManager : raises .the_POAManager = none
  activateConsumerAdmin : raises .activateConsumerAdmin = none
  createProxyPOA : raises .createProxyPOA = none
  set_servant : raises .set_servant = none
  activateSupplierAdmin : raises .activateSupplierAdmin = none
  activateEventChannel : raises .activateEventChannel = none
  insName : v ≠ [] → raises .this = none ∧ raises .activateMapper = none ∧ v ∉ insPoa
  start_undetached : raises .start_undetached = none

/-- Nor of the rest of `create_object`. -/
def GoesWell (s : FactoryState) (raises : CreateCall → Option Exn) (criteria : List Criterion) :
    Prop :=
  ∀ node, parseCriteria criteria = .ok node →
    RestGoesWell raises s.insPoa (node.attrString keyInsName) ∧ raises .returnThis = none

/-! ## What the calls leave

A call of the ORB happens or raises. A creation that fails has to undo what the calls before have
done, and the POA is what it does not undo. -/

section Names

variable {raises : CreateCall → Option Exn} {c c' : NewChannel}

theorem poaNames_modifyPOA (s : FactoryState) (name : Option Str) {f : ChannelPOA → ChannelPOA}
    (hf : ∀ p, (f p).name = p.name) : (s.modifyPOA name f).poaNames = s.poaNames := by
  rw [poaNames, modifyPOA, List.map_map, poaNames]
  refine List.map_congr_left ?_
  intro p _
  simp only [Function.comp_apply]
  split
  · exact hf p
  · rfl

theorem modifyPOA_none (s : FactoryState) (f : ChannelPOA → ChannelPOA) :
    s.modifyPOA none f = s := by
  simp [modifyPOA]

@[simp] theorem poaNames_activateServant (servant : ChannelServant) (c : NewChannel) :
    (c.activateServant servant).factory.poaNames = c.factory.poaNames :=
  c.factory.poaNames_modifyPOA c.poa fun _ => rfl

@[simp] theorem insPoa_activateServant (servant : ChannelServant) (c : NewChannel) :
    (c.activateServant servant).factory.insPoa = c.factory.insPoa := rfl

@[simp] theorem poaNames_delete (c : NewChannel) : c.delete.poaNames = c.factory.poaNames := by
  rw [NewChannel.delete, poaNames_modifyPOA]
  · rw [NewChannel.destroyMapper]
    split <;> rfl
  · exact fun _ => rfl

theorem poaNames_attempt {call : CreateCall} {effect : NewChannel → Except ActivateExn NewChannel}
    (heffect : ∀ c c', effect c = .ok c' → c'.factory.poaNames = c.factory.poaNames)
    (h : attempt raises call effect c = .ok c') : c'.factory.poaNames = c.factory.poaNames := by
  unfold attempt at h
  split at h
  · cases h
  · exact heffect c c' h

theorem poaNames_activateMapper {id : Str} (h : c.activateMapper id = .ok c') :
    c'.factory.poaNames = c.factory.poaNames := by
  unfold NewChannel.activateMapper at h
  split at h
  · cases h
  · cases h
    rfl

/-- Once the POA is there, nothing that `activate` does takes it away. -/
theorem poaNames_activateRest (v : Str) (c : NewChannel) :
    (exec (activateRest raises v) c).1.factory.poaNames = c.factory.poaNames := by
  refine Attempt.exec_induct (P := fun d : NewChannel => d.factory.poaNames = c.factory.poaNames) ?_ rfl
  intro f hf d d' hd hstep
  refine Eq.trans ?_ hd
  have hok : ∀ d d' : NewChannel, (.ok d : Except ActivateExn NewChannel) = .ok d' →
      d'.factory.poaNames = d.factory.poaNames := by
    rintro d d' ⟨⟩
    rfl
  have hservant : ∀ (servant : ChannelServant) (d d' : NewChannel),
      (.ok (d.activateServant servant) : Except ActivateExn NewChannel) = .ok d' →
        d'.factory.poaNames = d.factory.poaNames := by
    rintro servant d d' ⟨⟩
    exact poaNames_activateServant servant d
  have hins : f ∈ setInsName raises v → d'.factory.poaNames = d.factory.poaNames := by
    intro hf
    unfold setInsName at hf
    split at hf
    · cases hf
    · simp only [List.mem_cons, List.not_mem_nil, or_false] at hf
      rcases hf with rfl | rfl
      · exact poaNames_attempt hok hstep
      · exact poaNames_attempt (fun _ _ => poaNames_activateMapper) hstep
  simp only [activateRest, List.cons_append, List.nil_append, List.mem_cons, List.mem_append,
    List.not_mem_nil, or_false] at hf
  rcases hf with rfl | rfl | rfl | rfl | rfl | rfl | hf | rfl
  · exact poaNames_attempt hok hstep
  · exact poaNames_attempt (hservant _) hstep
  · exact poaNames_attempt hok hstep
  · exact poaNames_attempt (hservant _) hstep
  · exact poaNames_attempt (hservant _) hstep
  · exact poaNames_attempt (hservant _) hstep
  · exact hins hf
  · exact poaNames_attempt hok hstep

theorem attempt_eq_ok {call : CreateCall} {effect : NewChannel → Except ActivateExn NewChannel} :
    attempt raises call effect c = .ok c' ↔ raises call = none ∧ effect c = .ok c' := by
  unfold attempt
  cases raises call with
  | none => simp
  | some ex => simp

theorem activateMapper_eq_ok {id : Str} :
    (∃ c', c.activateMapper id = .ok c') ↔ id ∉ c.factory.insPoa := by
  unfold NewChannel.activateMapper
  split <;> simp_all

theorem activateRest_eq_none {v : Str} :
    (exec (activateRest raises v) c).2 = none ↔ RestGoesWell raises c.factory.insPoa v := by
  rw [restGoesWell_iff]
  by_cases hv : v = []
  · simp [activateRest, setInsName, hv, Attempt.raised_cons_eq_none, attempt_eq_ok]
  · simp [activateRest, setInsName, hv, Attempt.raised_cons_eq_none, attempt_eq_ok,
      activateMapper_eq_ok, and_assoc]

/-- Whether the POA has been created. -/
theorem createPoa_cases (s : FactoryState) (raises : CreateCall → Option Exn) (channelName : Str) :
    (raises .createPolicies ≠ none ∨ raises .create_POA ≠ none ∨ channelName ∈ s.poaNames) ∧
        (∃ ex, exec (createPoa raises channelName) ⟨s, none, none⟩ = (⟨s, none, none⟩, some ex)) ∨
      ¬ (raises .createPolicies ≠ none ∨ raises .create_POA ≠ none ∨ channelName ∈ s.poaNames) ∧
        ∃ c, exec (createPoa raises channelName) ⟨s, none, none⟩ = (c, none) ∧
          c.factory.poaNames = s.poaNames ++ [channelName] ∧ c.factory.insPoa = s.insPoa := by
  cases hpolicies : raises .createPolicies with
  | some ex =>
      exact Or.inl ⟨Or.inl nofun, _, Attempt.exec_cons_of_error (by rw [attempt, hpolicies])⟩
  | none =>
      have hfirst : attempt raises .createPolicies .ok ⟨s, none, none⟩ = .ok ⟨s, none, none⟩ := by
        rw [attempt, hpolicies]
      rw [createPoa, Attempt.exec_cons_of_ok hfirst]
      cases hcreate : raises .create_POA with
      | some ex =>
          exact Or.inl ⟨Or.inr (Or.inl nofun), _,
            Attempt.exec_cons_of_error (by rw [attempt, hcreate])⟩
      | none =>
          by_cases hname : channelName ∈ s.poaNames
          · refine Or.inl ⟨Or.inr (Or.inr hname), .AdapterAlreadyExists,
              Attempt.exec_cons_of_error ?_⟩
            rw [attempt, hcreate]
            exact if_pos hname
          · have hsecond : attempt raises .create_POA (NewChannel.create_POA channelName)
                ⟨s, none, none⟩ = .ok ⟨{ s with poas := s.poas ++ [⟨channelName, [], []⟩] },
                  some channelName, none⟩ := by
              rw [attempt, hcreate]
              exact if_neg hname
            refine Or.inr ⟨by simp [hname], _, Attempt.exec_cons_of_ok hsecond, ?_, rfl⟩
            simp [poaNames]

end Names

/-! ## The calls -/

section Calls

variable {s : FactoryState} {raises : CreateCall → Option Exn} {uniqueId : Str}
  {k : List NameComponent} {criteria : List Criterion}

/-- If no call raises, the result is that of the function on names. -/
theorem create_object_quiet (orb : Orb Ref) (env : Env) (s : FactoryState) (uniqueId : Str)
    (k : List NameComponent) (criteria : List Criterion) :
    (s.create_object quiet uniqueId k criteria).2
      = (OmniEvents.create_object orb env s.poaNames s.insPoa uniqueId k criteria).map (·.name) := by
  unfold create_object OmniEvents.create_object
  split
  · rfl
  cases hparse : parseCriteria criteria with
  | error ex => rfl
  | ok node =>
    simp only [activate_of_leaf orb env _ (criteriaNode_parseCriteria hparse).leaf]
    by_cases hname : channelId node uniqueId ∈ s.poaNames
    · simp [activateChannel, createPoa, attempt, quiet, exec, NewChannel.create_POA, hname,
        ActivateExn.convert, Except.map]
    · by_cases hins : node.attrString keyInsName = []
      · simp [activateChannel, createPoa, activateRest, setInsName, attempt, quiet, exec,
          NewChannel.create_POA, hname, hins, Except.map, EventChannel.fresh]
      · by_cases hconflict : node.attrString keyInsName ∈ s.insPoa
        · simp [activateChannel, createPoa, activateRest, setInsName, attempt, quiet, exec,
            NewChannel.create_POA, NewChannel.activateMapper, hname, hins, hconflict, Except.map,
            ActivateExn.convert]
        · simp [activateChannel, createPoa, activateRest, setInsName, attempt, quiet, exec,
            NewChannel.create_POA, NewChannel.activateMapper, hname, hins, hconflict, Except.map,
            EventChannel.fresh]

theorem create_object_early (h : s.EndsEarly raises uniqueId k criteria) :
    ∃ ex, s.create_object raises uniqueId k criteria = (s, .error ex) := by
  unfold create_object
  by_cases hk : supports k = false
  · exact ⟨_, by rw [hk]; rfl⟩
  · rw [Bool.not_eq_false] at hk
    simp only [hk, Bool.not_true, Bool.false_eq_true, if_false]
    cases hparse : parseCriteria criteria with
    | error ex => exact ⟨ex, rfl⟩
    | ok node =>
        rcases h with h | h
        · rw [hk] at h
          cases h
        rcases createPoa_cases s raises (channelId node uniqueId) with ⟨-, ex, hexec⟩ | ⟨hnot, -⟩
        · simp only [activateChannel]
          rw [Attempt.exec_append_of_raised (by rw [hexec]), hexec]
          refine ⟨ex.convert criteria, ?_⟩
          simp only [NewChannel.delete, NewChannel.destroyMapper, modifyPOA_none]
        · exact absurd (h node hparse) hnot

/-- After that the name is in use, whether or not the call succeeds. -/
theorem create_object_late (h : ¬ s.EndsEarly raises uniqueId k criteria) :
    (∃ name, (s.create_object raises uniqueId k criteria).1.poaNames = s.poaNames ++ [name]) ∧
      ((∃ name, (s.create_object raises uniqueId k criteria).2 = .ok name) ↔
        s.GoesWell raises criteria) := by
  unfold EndsEarly at h
  push Not at h
  obtain ⟨hk, node, hparse, hearly⟩ := h
  rw [ne_eq, Bool.not_eq_false] at hk
  have hgoes : s.GoesWell raises criteria ↔
      RestGoesWell raises s.insPoa (node.attrString keyInsName) ∧ raises .returnThis = none := by
    unfold GoesWell
    rw [hparse]
    exact ⟨fun h => h node rfl, fun h node' hnode' => by cases hnode'; exact h⟩
  rw [hgoes]
  simp only [create_object, hk, hparse, activateChannel, Bool.not_true, Bool.false_eq_true, if_false]
  rcases createPoa_cases s raises (channelId node uniqueId) with
    ⟨hnot, -⟩ | ⟨-, c, hexec, hnames, hins⟩
  · exact absurd hnot (by simpa using hearly)
  have hrest := @poaNames_activateRest raises (node.attrString keyInsName) c
  have hnone := @activateRest_eq_none raises c (node.attrString keyInsName)
  rw [hnames] at hrest
  rw [hins] at hnone
  rw [Attempt.exec_append_of_ok hexec, ← hnone]
  generalize exec (activateRest raises (node.attrString keyInsName)) c = result at hrest hnone
  obtain ⟨d, raised⟩ := result
  cases raised with
  | some ex => exact ⟨⟨_, (poaNames_delete d).trans hrest⟩, iff_of_false nofun nofun⟩
  | none =>
      cases hthis : raises .returnThis with
      | some ex => exact ⟨⟨_, hrest⟩, iff_of_false nofun nofun⟩
      | none => exact ⟨⟨_, hrest⟩, iff_of_true ⟨_, rfl⟩ ⟨rfl, rfl⟩⟩

theorem noTrace_refl : NoTrace s s uniqueId k criteria := by
  refine ⟨rfl, rfl, rfl, rfl, id, ?_⟩
  intro node hk hparse hname insPoa hins
  have hlate : ¬ ({ s with insPoa := insPoa }).EndsEarly quiet uniqueId k criteria := by
    rintro (h | h)
    · rw [hk] at h
      cases h
    · rcases h node hparse with h | h | h
      · exact h rfl
      · exact h rfl
      · exact hname h
  refine (create_object_late hlate).2.2 fun node' hnode' =>
    ⟨⟨rfl, rfl, rfl, rfl, rfl, rfl, ?_, rfl⟩, rfl⟩
  cases hparse.symm.trans hnode'
  exact fun _ => ⟨rfl, rfl, hins⟩

/-- A POA more is a trace. -/
theorem not_noTrace {s' : FactoryState} {name : Str} (h : s'.poaNames = s.poaNames ++ [name]) :
    ¬ NoTrace s s' uniqueId k criteria := by
  intro htrace
  rw [poaNames, htrace.poas] at h
  simpa [poaNames] using congrArg List.length h

theorem create_channel_of_error {ex : LifeCycleExn} {channel_name : Str}
    (h : (s.create_object raises uniqueId channelKey (nameCriteria channel_name)).2 = .error ex) :
    s.create_channel raises uniqueId channel_name
      = ((s.create_object raises uniqueId channelKey (nameCriteria channel_name)).1,
          .error ex.convert) := by
  unfold create_channel
  split
  · next s' ex' heq =>
      rw [heq] at h ⊢
      cases h
      rfl
  · next s' channel heq =>
      rw [heq] at h
      cases h

theorem create_channel_of_ok {name channel_name : Str}
    (h : (s.create_object raises uniqueId channelKey (nameCriteria channel_name)).2 = .ok name) :
    (s.create_channel raises uniqueId channel_name).1
        = (s.create_object raises uniqueId channelKey (nameCriteria channel_name)).1 ∧
      ((∃ ex, (s.create_channel raises uniqueId channel_name).2 = .error ex) ↔
        raises .narrow ≠ none) := by
  unfold create_channel
  split
  · next s' ex heq =>
      rw [heq] at h
      cases h
  · next s' channel heq =>
      rw [heq]
      cases raises .narrow with
      | none => exact ⟨rfl, by simp⟩
      | some ex => exact ⟨rfl, by simp⟩

/-- **A creation that raises leaves no trace** if and only if it ends before the POA is created. -/
theorem no_trace_iff (s : FactoryState) (raises : CreateCall → Option Exn) (uniqueId : Str) :
    (∀ k criteria,
      (∀ ex, (s.create_object raises uniqueId k criteria).2 = .error ex →
        NoTrace s (s.create_object raises uniqueId k criteria).1 uniqueId k criteria) ↔
      s.EndsEarly raises uniqueId k criteria ∨ s.GoesWell raises criteria) ∧
    (∀ channel_name,
      (∀ ex, (s.create_channel raises uniqueId channel_name).2 = .error ex →
        NoTrace s (s.create_channel raises uniqueId channel_name).1 uniqueId channelKey
          (nameCriteria channel_name)) ↔
      s.EndsEarly raises uniqueId channelKey (nameCriteria channel_name) ∨
        s.GoesWell raises (nameCriteria channel_name) ∧ raises .narrow = none) := by
  constructor
  · intro k criteria
    by_cases hearly : s.EndsEarly raises uniqueId k criteria
    · obtain ⟨ex, heq⟩ := create_object_early hearly
      rw [heq]
      exact iff_of_true (fun _ _ => noTrace_refl) (Or.inl hearly)
    · obtain ⟨⟨name, hnames⟩, hok⟩ := create_object_late hearly
      rw [or_iff_right hearly, ← hok]
      cases hresult : (s.create_object raises uniqueId k criteria).2 with
      | ok name => exact iff_of_true nofun ⟨name, rfl⟩
      | error ex => exact iff_of_false (fun h => not_noTrace hnames (h ex rfl)) nofun
  · intro channel_name
    by_cases hearly : s.EndsEarly raises uniqueId channelKey (nameCriteria channel_name)
    · obtain ⟨ex, heq⟩ := create_object_early hearly
      have hchannel := create_channel_of_error (congrArg Prod.snd heq)
      rw [hchannel, heq]
      exact iff_of_true (fun _ _ => noTrace_refl) (Or.inl hearly)
    · obtain ⟨⟨name, hnames⟩, hok⟩ := create_object_late hearly
      rw [or_iff_right hearly, ← hok]
      cases hresult : (s.create_object raises uniqueId channelKey (nameCriteria channel_name)).2 with
      | error ex =>
          rw [create_channel_of_error hresult]
          exact iff_of_false (fun h => not_noTrace hnames (h _ rfl)) nofun
      | ok name =>
          obtain ⟨hstate, hraised⟩ := create_channel_of_ok hresult
          rw [hstate]
          cases hnarrow : raises .narrow with
          | none =>
              refine iff_of_true ?_ ⟨⟨name, rfl⟩, rfl⟩
              intro ex hex
              exact absurd hnarrow (hraised.1 ⟨ex, hex⟩)
          | some ex =>
              refine iff_of_false ?_ nofun
              intro h
              obtain ⟨ex', hex'⟩ := hraised.2 (by rw [hnarrow]; nofun)
              exact not_noTrace hnames (h ex' hex')

end Calls

/-- A factory without channels, whose own name is in the omniINSPOA. -/
def factoryOnly : FactoryState := ⟨[], ["omniEvents".toList], [], LogEntry.factoryLog⟩

/-- The name of the factory is refused, but the POA of that name stays, with the channel that was
    deleted; and when the omniINSPOA does not have the name any more it is refused still. -/
theorem insName_conflict :
    factoryOnly.create_object quiet (newUniqueId 1 1 1) channelKey (nameCriteria "omniEvents".toList)
      = ({ factoryOnly with
            poas := [⟨"omniEvents".toList,
              [.ConsumerAdmin, .ProxyPushConsumer, .SupplierAdmin, .EventChannel],
              [.EventChannel]⟩] },
          .error (.InvalidCriteria (nameCriteria "omniEvents".toList))) ∧
    ({ (factoryOnly.create_object quiet (newUniqueId 1 1 1) channelKey
          (nameCriteria "omniEvents".toList)).1 with insPoa := [] }.create_object quiet
        (newUniqueId 1 1 1) channelKey (nameCriteria "omniEvents".toList)).2
      = .error (.InvalidCriteria (nameCriteria "omniEvents".toList)) ∧
    ¬ ∀ (s : FactoryState) (raises : CreateCall → Option Exn) (uniqueId : Str)
        (k : List NameComponent) (criteria : List Criterion) (ex : LifeCycleExn),
      (s.create_object raises uniqueId k criteria).2 = .error ex →
        NoTrace s (s.create_object raises uniqueId k criteria).1 uniqueId k criteria := by
  refine ⟨rfl, rfl, ?_⟩
  intro hall
  have htrace := hall factoryOnly quiet (newUniqueId 1 1 1) channelKey
    (nameCriteria "omniEvents".toList) _ rfl
  exact absurd htrace.poas nofun

end FactoryState

end OmniEvents
