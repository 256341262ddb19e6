import OmniEvents.Proxies

set_option autoImplicit false

/-! # Saving and restarting channels

The persistent side of a channel and of the factory: `output` writes the records of all proxies of
all channels, and a restart builds the channels again from the tree that was parsed. A restart makes
calls to remote peers and reads the clock (`Env`). The order in which a set of servants is visited is
that of their addresses, so it is any order; the models of such sets are lists. Not modelled is what
has no part in the log: the threads, the POAs beyond which objects are active, and the entry in the
omniINSPOA. -/

namespace OmniEvents

open PersistNode (attrString attrLong)

variable {Ref : Type}

/-- What a restart meets outside: what each attempt to reconnect raises, and when each pull supplier
    is incarnated. -/
structure Env where
  remote : Str → ProxyKind → Str → Option Exn
  now : Str → Str → ℕ

/-- An environment in which all peers answer. -/
def Env.quiet : Env := ⟨fun _ _ _ => none, fun _ _ => 0⟩

/-! ## Proxy managers -/

/-- The loop of `ProxyManager::reincarnate`. `makeRoom` is what `incarnate` does to the other
    servants; a servant that raises `BAD_PARAM` is dropped again. -/
def reincarnateAll {σ : Type} (makeRoom : List σ → List σ)
    (reincarnate : Str → PersistNode → Except Exn σ) :
    List (Str × PersistNode) → List σ → Except Exn (List σ)
  | [], servants => .ok servants
  | (oid, node) :: nodes, servants =>
      match reincarnate oid node with
      | .ok proxy => reincarnateAll makeRoom reincarnate nodes (makeRoom servants ++ [proxy])
      | .error .BAD_PARAM => reincarnateAll makeRoom reincarnate nodes (makeRoom servants)
      | .error ex => .error ex

/-- A manager is created only for a node that has children. -/
def reincarnateManager {σ : Type} (makeRoom : List σ → List σ)
    (reincarnate : Str → PersistNode → Except Exn σ) :
    Option PersistNode → Except Exn (Option (List σ))
  | none => .ok none
  | some node =>
      if node.children.isEmpty then .ok none
      else (reincarnateAll makeRoom reincarnate node.children []).map some

/-- `ProxyManager::output`, where there is a manager. -/
def outputManager {σ : Type} (output : σ → Written) : Option (List σ) → Written
  | none => .nothing
  | some servants => .each output servants

/-- The loop of `ProxyPushConsumer_i::reincarnate`. -/
def reincarnateConnections {σ : Type} (reincarnate : Str → PersistNode → Except Exn (Option σ)) :
    List (Str × PersistNode) → List (Str × σ) → Except Exn (List (Str × σ))
  | [], connections => .ok connections
  | (oidstr, node) :: nodes, connections =>
      match reincarnate oidstr node with
      | .ok none => reincarnateConnections reincarnate nodes connections
      | .ok (some c) =>
          reincarnateConnections reincarnate nodes (OrdMap.insert oidstr c connections)
      | .error ex => .error ex

/-! ## Channels

A channel as it is written and read: the managers may not have been made, and each writes its
servants in the order of its set. -/

/-- `EventChannel_i`, as far as it is persistent. A manager may not have been made yet. -/
structure EventChannel (Ref : Type) where
  /-- The name of the POA. -/
  name : Str
  /-- `_properties._attr`. -/
  properties : List (Str × Str)
  /-- `_connections` of the push consumer. -/
  connections : List (Str × Connection Ref)
  pullConsumer : Option (List (ProxyPullConsumer Ref))
  pushSupplier : Option (List (ProxyPushSupplier Ref))
  pullSupplier : Option (List (ProxyPullSupplier Ref))

/-- `MAX_NUM_PROXIES`. -/
def defaultMaxNumProxies : ℤ := 1024

/-- `maxNumProxies()`, which converts to an unsigned 32-bit value. -/
def maxNumProxies (properties : List (Str × Str)) : ℕ :=
  ((PersistNode.attrLong (.mk properties []) "MaxNumProxies".toList defaultMaxNumProxies)
    % 2 ^ 32).toNat

namespace EventChannel

/-- `SupplierAdmin_i::output`. -/
def outputSupplierAdmin (c : EventChannel Ref) (orb : Orb Ref) : Written :=
  (Written.caught ⟨c.connections.map (fun e => e.2.output), none⟩).andThen
    (outputManager (ProxyPullConsumer.output · orb c.name) c.pullConsumer)

/-- `ConsumerAdmin_i::output`. -/
def outputConsumerAdmin (c : EventChannel Ref) (orb : Orb Ref) : Written :=
  (outputManager (ProxyPushSupplier.output · c.name) c.pushSupplier).caught.andThen
    (outputManager (ProxyPullSupplier.output · orb c.name) c.pullSupplier)

/-- `EventChannel_i::output`. -/
def output (c : EventChannel Ref) (orb : Orb Ref) : Written :=
  (Written.mk [.block [LogRecord.ecf, c.name] c.properties] none).andThen
    ((c.outputSupplierAdmin orb).andThen (c.outputConsumerAdmin orb))

/-- The node of a kind of proxies below that of its channel. -/
def kindNode (node : Option PersistNode) (kind : ProxyKind) : Option PersistNode :=
  (node.bind (·.child kind.admin)).bind (·.child kind.name)

/-- `EventChannel_i::activate`: the properties, then `SupplierAdmin_i::reincarnate`, then
    `ConsumerAdmin_i::reincarnate`. -/
def activate (orb : Orb Ref) (env : Env) (channelName : Str) (node : Option PersistNode) :
    Except Exn (EventChannel Ref) := do
  let properties := (node.map (·.attrs)).getD []
  let connections ←
    reincarnateConnections
      (fun oid => Connection.reincarnate orb (env.remote channelName .ProxyPushConsumer oid)
        channelName oid)
      ((kindNode node .ProxyPushConsumer).map (·.children) |>.getD []) []
  let pullConsumer ←
    reincarnateManager id (ProxyPullConsumer.reincarnate orb) (kindNode node .ProxyPullConsumer)
  let pushSupplier ←
    reincarnateManager id
      (fun oid => ProxyPushSupplier.reincarnate orb (env.remote channelName .ProxyPushSupplier oid)
        oid)
      (kindNode node .ProxyPushSupplier)
  let pullSupplier ←
    reincarnateManager (ProxyPullSupplier.evict (maxNumProxies properties))
      (fun oid => ProxyPullSupplier.reincarnate orb (env.now channelName oid) oid)
      (kindNode node .ProxyPullSupplier)
  return { name := channelName, properties, connections, pullConsumer, pushSupplier, pullSupplier }

end EventChannel

/-! ## The factory and the log

A start reads the log into a tree, makes the factory of its root and activates a channel for each
child. An exception that leaves one of them ends the start. -/

/-- `EventChannelFactory_i`, as far as it is persistent. -/
structure EventChannelFactory (Ref : Type) where
  port : ℕ
  endPointNoListen : Str
  /-- The channels of its store. -/
  channels : List (EventChannel Ref)

namespace EventChannelFactory

/-- The port that the server listens on. -/
def keyPort : Str := ['p', 'o', 'r', 't']

/-- The end point that the server tells its clients. -/
def keyEndPoint : Str := "endPointNoListen".toList

/-- The channels for the children of the factory's node. -/
def activateAll (orb : Orb Ref) (env : Env) :
    List (Str × PersistNode) → Except Exn (List (EventChannel Ref))
  | [] => .ok []
  | (channelName, node) :: nodes => do
      let c ← EventChannel.activate orb env channelName (some node)
      let cs ← activateAll orb env nodes
      return c :: cs

/-- `EventChannelFactory_i::EventChannelFactory_i`. -/
def new (orb : Orb Ref) (env : Env) (node : PersistNode) :
    Except Exn (EventChannelFactory Ref) := do
  let channels ← activateAll orb env node.children
  return { port := (node.attrLong keyPort 11169 % 2 ^ 32).toNat
           endPointNoListen := node.attrString keyEndPoint
           channels }

/-- `ecf port=… endPointNoListen=… ;;`. -/
def factoryRecord (f : EventChannelFactory Ref) : LogRecord :=
  .entry [LogRecord.ecf]
    ((keyPort, Nat.toDigits 10 f.port) ::
      (if f.endPointNoListen.isEmpty then [] else [(keyEndPoint, f.endPointNoListen)]))

/-- `EventChannelFactory_i::output`. -/
def output (f : EventChannelFactory Ref) (orb : Orb Ref) : Written :=
  (Written.mk [f.factoryRecord] none).andThen (.each (fun c => c.output orb) f.channels)

end EventChannelFactory

open EventChannelFactory (keyPort)

/-- `omniEventsLog::parse`: the node of the factory, or `exit(1)`. -/
def parseLog (text : Str) : Option PersistNode :=
  match (PersistNode.parse text).child LogRecord.ecf with
  | none => none
  | some ecf => if ecf.attrLong keyPort (-1) ≤ 0 then none else some ecf

/-- A warm start from the text of the active log. -/
def start (orb : Orb Ref) (env : Env) (text : Str) : Option (EventChannelFactory Ref) :=
  (parseLog text).bind (fun ecf => (EventChannelFactory.new orb env ecf).toOption)

/-- The text of a checkpoint (`omniEventsLog::output`), if it can be written to the end. -/
def checkpointText (orb : Orb Ref) (f : EventChannelFactory Ref) : Option Str :=
  match f.output orb with
  | ⟨records, none⟩ => some (records.flatMap LogRecord.text ++ ['\n'])
  | ⟨_, some _⟩ => none

/-- One start from a log and the checkpoint after it. A server that does not get so far leaves the
    log as it is. -/
def round (orb : Orb Ref) (env : Env) (text : Str) : Str :=
  ((start orb env text).bind (checkpointText orb)).getD text

/-- `k` of them, the `i`-th in the environment `envs i`. -/
def rounds (orb : Orb Ref) (envs : ℕ → Env) : ℕ → Str → Str
  | 0, text => text
  | k + 1, text => round orb (envs k) (rounds orb envs k text)

/-! ## What is written

Output that raises is cut off; output that does not is the records of all proxies. -/

/-- No servant of the two sets whose exceptions nobody catches is inactive. -/
def EventChannel.PullsActive (c : EventChannel Ref) : Prop :=
  (∀ p ∈ c.pullConsumer.getD [], p.active = true) ∧
    (∀ p ∈ c.pullSupplier.getD [], p.active = true)

theorem outputManager_raised {σ : Type} {output : σ → Written} {servants : Option (List σ)} :
    (outputManager output servants).raised = none ↔
      ∀ p ∈ servants.getD [], (output p).raised = none := by
  cases servants with
  | none => simp [outputManager, Written.nothing]
  | some servants => exact Written.each_raised

theorem outputManager_records {σ : Type} {output : σ → Written}
    (houtput : ∀ p, (output p).raised ≠ none → (output p).records = [])
    (servants : Option (List σ)) :
    (outputManager output servants).records
      = ((servants.getD []).takeWhile (fun p => (output p).raised.isNone)).flatMap
          (fun p => (output p).records) := by
  cases servants with
  | none => rfl
  | some servants => exact Written.each_records houtput servants

theorem ProxyPushSupplier.output_raised (p : ProxyPushSupplier Ref) (channelName : Str) :
    (p.output channelName).raised = none ↔ p.active = true :=
  p.basicOutput_raised ..

theorem ProxyPushSupplier.output_records_of_raised {p : ProxyPushSupplier Ref} {channelName : Str}
    (h : (p.output channelName).raised ≠ none) : (p.output channelName).records = [] := by
  rw [Ne, output_raised, Bool.not_eq_true] at h
  rw [output, Proxy.basicOutput_of_inactive _ _ h]

theorem outputManager_records_of_ok {σ : Type} {output : σ → Written}
    {servants : Option (List σ)} (h : ∀ p ∈ servants.getD [], (output p).raised = none) :
    (outputManager output servants).records
      = (servants.getD []).flatMap (fun p => (output p).records) := by
  cases servants with
  | none => rfl
  | some servants => exact Written.each_records_of_ok h

section Channel

variable (c : EventChannel Ref) (orb : Orb Ref)

theorem EventChannel.outputSupplierAdmin_raised :
    (c.outputSupplierAdmin orb).raised = none ↔
      ∀ p ∈ c.pullConsumer.getD [], p.active = true := by
  rw [outputSupplierAdmin, Written.andThen_raised, outputManager_raised]
  simp [ProxyPullConsumer.output, Proxy.basicOutputRef_raised]

theorem EventChannel.outputConsumerAdmin_raised :
    (c.outputConsumerAdmin orb).raised = none ↔
      ∀ p ∈ c.pullSupplier.getD [], p.active = true := by
  rw [outputConsumerAdmin, Written.andThen_raised, outputManager_raised]
  simp [ProxyPullSupplier.output, Proxy.basicOutputRef_raised]

/-- The output of a channel raises exactly when one of its pull servants is inactive. -/
theorem EventChannel.output_raised : (c.output orb).raised = none ↔ c.PullsActive := by
  rw [output, Written.andThen_raised, Written.andThen_raised, outputSupplierAdmin_raised,
    outputConsumerAdmin_raised, PullsActive]
  simp

/-- The records of a channel whose output does not raise. The push suppliers are those before the
    first inactive one. -/
theorem EventChannel.output_records (h : c.PullsActive) :
    (c.output orb).records =
      .block [LogRecord.ecf, c.name] c.properties ::
        ((c.connections.map (fun e => e.2.output) ++
            (c.pullConsumer.getD []).flatMap (fun p => (p.output orb c.name).records)) ++
          (((c.pushSupplier.getD []).takeWhile (·.active)).flatMap
              (fun p => (p.output c.name).records) ++
            (c.pullSupplier.getD []).flatMap (fun p => (p.output orb c.name).records))) := by
  have hsa : (c.outputSupplierAdmin orb).raised = none := (c.outputSupplierAdmin_raised orb).2 h.1
  have hraised : (fun p : ProxyPushSupplier Ref => (p.output c.name).raised.isNone) = (·.active) := by
    funext p
    rw [Bool.eq_iff_iff, Option.isNone_iff_eq_none]
    exact p.output_raised c.name
  have hpush : (outputManager (ProxyPushSupplier.output · c.name) c.pushSupplier).caught.records
      = ((c.pushSupplier.getD []).takeWhile (·.active)).flatMap
          (fun p => (p.output c.name).records) := by
    rw [Written.caught_records, ← hraised]
    exact outputManager_records (fun p => ProxyPushSupplier.output_records_of_raised) _
  have hpullConsumer : ∀ p ∈ c.pullConsumer.getD [], (p.output orb c.name).raised = none :=
    fun p hp => (p.basicOutputRef_raised ..).2 (h.1 p hp)
  have hpullSupplier : ∀ p ∈ c.pullSupplier.getD [], (p.output orb c.name).raised = none :=
    fun p hp => (p.basicOutputRef_raised ..).2 (h.2 p hp)
  rw [output, Written.andThen_records rfl, Written.andThen_records hsa, outputSupplierAdmin,
    outputConsumerAdmin, Written.andThen_records (Written.caught_raised _),
    Written.andThen_records (Written.caught_raised _),
    outputManager_records_of_ok hpullConsumer, outputManager_records_of_ok hpullSupplier, hpush]
  rfl

end Channel

theorem EventChannelFactory.output_raised (f : EventChannelFactory Ref) (orb : Orb Ref) :
    (f.output orb).raised = none ↔ ∀ c ∈ f.channels, c.PullsActive := by
  rw [output, Written.andThen_raised, Written.each_raised]
  simp [EventChannel.output_raised]


theorem EventChannelFactory.output_records (f : EventChannelFactory Ref) (orb : Orb Ref)
    (h : ∀ c ∈ f.channels, c.PullsActive) :
    (f.output orb).records =
      f.factoryRecord :: f.channels.flatMap (fun c => (c.output orb).records) := by
  rw [output, Written.andThen_records rfl,
    Written.each_records_of_ok (fun c hc => (c.output_raised orb).2 (h c hc))]
  rfl

end OmniEvents
