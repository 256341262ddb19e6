import OmniEvents.Eviction
import OmniEvents.PullFailure
import OmniEvents.PushManager

set_option autoImplicit false

/-! # The disconnect handshake

Each end of a connection answers a disconnect by calling the disconnect of the other end; it is for the
proxy to see that this comes to an end. The network has any number of channels and of clients, and the
peer of a proxy is a client or a proxy of another channel. Disconnect messages, and the calls by which
clients answer them, are in flight until they are delivered, in any order. Every operation of a proxy
is one step, the re-incarnation of a servant included. -/

namespace OmniEvents

/-! ## Addresses and messages -/

/-- Where a proxy is: its channel, its manager and its object id. -/
structure Address where
  channel : ℕ
  kind : ProxyKind
  oid : Str
  deriving DecidableEq, Repr

/-- What a proxy has a reference to. -/
inductive Party where
  | client (n : ℕ)
  | proxy (a : Address)
  deriving DecidableEq, Repr

/-- The disconnect operation of a proxy. -/
def ProxyKind.disconnect : ProxyKind → DisconnectMessage
  | ProxyPushConsumer => .disconnect_push_consumer
  | ProxyPullConsumer => .disconnect_pull_consumer
  | ProxyPushSupplier => .disconnect_push_supplier
  | ProxyPullSupplier => .disconnect_pull_supplier

/-- A request that is on its way. -/
inductive Message where
  /-- A proxy disconnects its peer. -/
  | disconnect (sender : Address) (target : Party) (operation : DisconnectMessage)
  /-- A client calls the disconnect of a proxy. -/
  | call (proxy : Address)
  deriving DecidableEq, Repr

/-! ## Operations of one servant

What happens at a servant, called by a client or by its peer, and the message that it may send to
the peer. -/

variable {Ref : Type}

/-- A connect that raises changes nothing. -/
def Called.ofExcept {σ : Type*} (p : σ) : Except Exn σ → Called Ref σ
  | .ok q => ⟨q, [], none⟩
  | .error ex => ⟨p, [], some ex⟩

namespace ProxyPushSupplier

variable (logging : Bool) (calls : TriggerCall → Bool) (p : ProxyPushSupplier Ref)

/-- The end of the catch clause of `trigger`. -/
def disconnected : Called Ref (ProxyPushSupplier Ref) :=
  if (logging && !p.active) || calls .deactivateObject then
    ⟨{ p with target := none }, [], some .other⟩
  else ⟨{ p with target := none, active := false }, [], none⟩

/-- The catch clause of `trigger`. -/
def shutDown : Called Ref (ProxyPushSupplier Ref) :=
  match p.target with
  | none => p.disconnected logging calls
  | some target =>
      if calls .reportObjectFailure then ⟨p, [], some .other⟩
      else if calls .disconnect_push_consumer then ⟨{ p with req := none }, [], some .other⟩
      else
        let call := { p with req := none }.disconnected logging calls
        ⟨call.state, (target, .disconnect_push_consumer) :: call.sent, call.raised⟩

/-- The second half of `trigger`. -/
def pushNext (moreEvents : Bool) : Called Ref (ProxyPushSupplier Ref) :=
  if p.req.isNone && p.target.isSome && moreEvents then
    if calls .push then ⟨p, [], some .other⟩
    else
      ⟨{ p with req := some PushServant.opPush }, [],
        if calls .send_deferred then some .other else none⟩
  else ⟨p, [], none⟩

/-- `trigger`, with the reply to `_req` and whether there are more events. -/
def trigger (reply : Option PushReply) (moreEvents : Bool) : Called Ref (ProxyPushSupplier Ref) :=
  if p.req.isSome && calls .poll_response then ⟨p, [], some .other⟩
  else
    match p.req, reply with
    | some _, some .exception => p.shutDown logging calls
    | some _, some _ => { p with req := none }.pushNext calls moreEvents
    | _, _ => p.pushNext calls moreEvents

end ProxyPushSupplier

/-- `trigger` does to the connection what it does to the servant as a whole. -/
theorem PushServant.trigger_toProxyPushSupplier (logging : Bool) (calls : TriggerCall → Bool)
    (q : EventQueue) (p : PushServant Ref) :
    (p.trigger logging calls q).servant.toProxyPushSupplier =
      (p.toProxyPushSupplier.trigger logging calls p.reply (p.reader.moreEvents q)).state := by
  have hnext : ∀ (p : PushServant Ref) busy, (p.pushNext calls q busy).servant.toProxyPushSupplier =
      (p.toProxyPushSupplier.pushNext calls (p.reader.moreEvents q)).state := by
    intro p busy
    unfold pushNext ProxyPushSupplier.pushNext
    split
    · split
      · rfl
      · simp only
        split <;> rfl
    · rfl
  have hend : ∀ p : PushServant Ref, (p.disconnected logging calls).servant.toProxyPushSupplier =
      (p.toProxyPushSupplier.disconnected logging calls).state := by
    intro p
    unfold disconnected ProxyPushSupplier.disconnected
    split <;> rfl
  have hdown : (p.shutDown logging calls).servant.toProxyPushSupplier =
      (p.toProxyPushSupplier.shutDown logging calls).state := by
    unfold shutDown ProxyPushSupplier.shutDown
    cases htarget : p.target with
    | none => exact hend p
    | some target =>
        simp only
        split
        · rfl
        · split
          · rfl
          · exact hend _
  unfold trigger ProxyPushSupplier.trigger
  split
  · rfl
  · cases p.req with
    | none => exact hnext p false
    | some req =>
        rcases p.reply with _ | reply
        · exact hnext p false
        · cases reply with
          | returned => exact hnext _ true
          | TIMEOUT => exact hnext _ true
          | exception => exact hdown

namespace ProxyPullConsumer

/-- An exception in reply to `opname`. The fourth in a row is reported through the target. -/
def failed (logging : Bool) (p : ProxyPullConsumer Ref) (opname : Str) :
    Called Ref (ProxyPullConsumer Ref) :=
  let p :=
    if opname = opPull ∨ opname = opTryPull then
      { p with exceptionCount := p.exceptionCount + 1
               mode := if p.mode = .Pull then .TryPull else .Pull }
    else p
  if 4 ≤ p.exceptionCount then
    match p.target with
    | none => ⟨p, [], some .other⟩
    | some target =>
        -- the message is sent before `eraseKey` looks for the object
        if logging && !p.active then
          ⟨{ p with target := none }, [(target, .disconnect_pull_supplier)], some .ServantNotActive⟩
        else
          ⟨{ p with target := none, active := false, req := none },
            [(target, .disconnect_pull_supplier)], none⟩
  else ⟨{ p with req := none }, [], none⟩

/-- `collect`, but for the event. -/
def collected (logging : Bool) (p : ProxyPullConsumer Ref) (reply : Option Reply) :
    Called Ref (ProxyPullConsumer Ref) :=
  match p.req, reply with
  | some opname, some (.exception envRaises) =>
      if envRaises then ⟨p, [], some .other⟩ else p.failed logging opname
  | some _, some (.returned _ _) => ⟨{ p with exceptionCount := 0, req := none }, [], none⟩
  | _, _ => ⟨p, [], none⟩

theorem failed_of_countException {p q : ProxyPullConsumer Ref} {opname : Str} (logging : Bool)
    (h : p.countException opname = some q) : (p.failed logging opname).state = q := by
  unfold countException at h
  unfold failed
  generalize (if opname = opPull ∨ opname = opTryPull then
    { p with exceptionCount := p.exceptionCount + 1
             mode := if p.mode = .Pull then .TryPull else .Pull } else p) = r at h ⊢
  simp only at h ⊢
  split at h
  · next hcount =>
      rw [if_pos hcount]
      split at h
      · cases h
      · next hup =>
          obtain ⟨htarget, hactive⟩ : r.target ≠ none ∧ r.active = true := by simpa using hup
          obtain ⟨target, htarget⟩ := Option.ne_none_iff_exists'.1 htarget
          simp [htarget, hactive, ← Option.some.inj h]
  · next hcount =>
      rw [if_neg hcount]
      exact Option.some.inj h

/-- `collect` does to the connection what it does to the servant as a whole. -/
theorem collect_eq_collected {p : ProxyPullConsumer Ref} {reply : Option Reply} (logging : Bool)
    (hreply : p.escapes reply = false) (h : Heap) (queue : List Ptr) :
    (p.collect reply h queue).1 = (p.collected logging reply).state := by
  unfold collect collected
  cases hreq : p.req with
  | none => rfl
  | some opname =>
      rcases reply with _ | envRaises | ⟨value, arguments⟩
      · rfl
      · obtain ⟨rfl, q, hq⟩ := countException_of_not_escapes hreq hreply
        simp [hq, failed_of_countException logging hq]
      · simp only
        split <;> rfl

end ProxyPullConsumer

/-! ## The servants of a manager

A call reaches its servant, or makes one: an object id that is not active is incarnated again, and
the call goes to the new servant. -/

/-- What the handshake needs to know of a servant. -/
class PeerServant (P : Type) where
  oid : P → Str
  active : P → Bool
  target : P → Option Party

instance : PeerServant (ProxyPushSupplier Party) := ⟨(·.oid), (·.active), (·.target)⟩

instance : PeerServant (ProxyPullSupplier Party) := ⟨(·.oid), (·.active), (·.target)⟩

instance : PeerServant (ProxyPullConsumer Party) := ⟨(·.oid), (·.active), (·.target)⟩

/-- What a call to a manager's servants leaves, its messages with the ids of their senders. -/
abbrev ManagerCall (σ : Type) := Called (Str × Party) σ

namespace PeerServant

variable {P : Type} [PeerServant P]

/-- An operation of the `i`-th servant. -/
def callAt (servants : List P) (i : ℕ) (op : P → Called Party P) : Option (ManagerCall (List P)) :=
  match servants[i]? with
  | none => none
  | some p => some (((op p).sentBy (oid p)).map (servants.set i))

/-- A call to the active servant of an object id. -/
def callActive (servants : List P) (id : Str) (op : P → Called Party P) :
    Option (ManagerCall (List P)) :=
  match servants.findIdx? (fun p => decide (oid p = id) && active p) with
  | none => none
  | some i => callAt servants i op

/-- There is no servant of this object id, be it active or not. -/
def Absent (servants : List P) (id : Str) : Prop := ∀ p ∈ servants, oid p ≠ id

instance (servants : List P) (id : Str) : Decidable (Absent servants id) :=
  inferInstanceAs (Decidable (∀ p ∈ servants, _))

/-- A call through the POA. If there is no servant one is incarnated; a deactivated one has to be
    etherealized first. -/
def callThrough (servants : List P) (id : Str) (incarnated : Option (ManagerCall (List P)))
    (op : P → Called Party P) : Option (ManagerCall (List P)) :=
  if Absent servants id then
    match incarnated with
    | none => none
    | some made =>
        match made.raised with
        | some _ => some made
        | none =>
            (callActive made.state id op).map fun call => { call with sent := made.sent ++ call.sent }
  else callActive servants id op

/-- `etherealize` of the `i`-th servant. -/
def etherealize (servants : List P) (i : ℕ) : Option (List P) :=
  match servants[i]? with
  | none => none
  | some p => if active p then none else some (servants.eraseIdx i)

/-- The servants of an object id that have a target. -/
def held (servants : List P) (id : Str) : ℕ :=
  servants.countP fun p => decide (oid p = id) && (target p).isSome

end PeerServant

/-! ## The calls of clients -/

/-- The calls that a client makes to a proxy, whatever its kind. -/
inductive ClientCall where
  | connect (peer : Option Party)
  | disconnect
  | pull
  deriving DecidableEq, Repr

namespace ClientCall

variable (orb : Orb Party) (now : ℕ)

/-- A call to a push supplier, which has no `pull`. -/
def pushSupplier (p : ProxyPushSupplier Party) : ClientCall → Called Party (ProxyPushSupplier Party)
  | connect peer => .ofExcept p (p.connect_push_consumer orb peer)
  | disconnect => Destroy.disconnect_push_supplier p
  | pull => ⟨p, [], some .other⟩

/-- `pull` and `try_pull` raise `Disconnected` if the proxy is not connected. -/
def pullSupplier (p : ProxyPullSupplier Party) : ClientCall → Called Party (ProxyPullSupplier Party)
  | connect peer => .ofExcept p (p.connect_pull_consumer peer now)
  | disconnect => Destroy.disconnect_pull_supplier now p
  | pull => ⟨p.contact now, [], if p.connected then none else some .other⟩

/-- A call to a pull consumer, which has no `pull` either. -/
def pullConsumer (p : ProxyPullConsumer Party) : ClientCall → Called Party (ProxyPullConsumer Party)
  | connect peer => .ofExcept p (p.connect_pull_supplier peer)
  | disconnect => Destroy.disconnect_pull_consumer p
  | pull => ⟨p, [], some .other⟩

/-- `ProxyPushConsumer_i`, the one servant of all object ids. -/
def pushConsumer (channelName : Str) (connections : List (Str × Connection Party)) (oid : Str) :
    ClientCall → ManagerCall (List (Str × Connection Party))
  | connect none => ⟨connections, [], none⟩
  | connect (some peer) =>
      match connections.lookup oid with
      | some _ => ⟨connections, [], some .AlreadyConnected⟩
      | none =>
          ⟨OrdMap.insert oid (.new orb channelName oid peer) connections, [], none⟩
  | disconnect =>
      match connections.lookup oid with
      | none => ⟨connections, [], none⟩
      | some connection =>
          ⟨OrdMap.erase oid connections, [((oid, connection.target), .disconnect_push_supplier)], none⟩
  | pull => ⟨connections, [], some .other⟩

end ClientCall

/-- What a fresh unconnected servant sends and raises. -/
def ClientCall.onFresh (orb : Orb Party) (now : ℕ) (oid : Str) (request : ClientCall) :
    ProxyKind → List (Party × DisconnectMessage) × Option Exn
  | .ProxyPushSupplier =>
      let call := request.pushSupplier orb (.new oid true)
      (call.sent, call.raised)
  | .ProxyPullSupplier =>
      let call := request.pullSupplier now (.new oid true now)
      (call.sent, call.raised)
  | .ProxyPullConsumer =>
      let call := request.pullConsumer (.new oid)
      (call.sent, call.raised)
  | .ProxyPushConsumer => ([], none)

/-! ## Channels -/

/-- The proxies of a channel. A limit of 0 is ignored when the channel is created. -/
structure ProxyChannel where
  name : Str
  maxNumProxies : ℕ
  pushSuppliers : List (ProxyPushSupplier Party)
  pullSuppliers : List (ProxyPullSupplier Party)
  pullConsumers : List (ProxyPullConsumer Party)
  connections : List (Str × Connection Party)
  /-- The POAs are gone. -/
  destroyed : Bool
  maxNumProxies_pos : 0 < maxNumProxies
  deriving DecidableEq

namespace ProxyChannel

open PeerServant

/-- A channel without a proxy. `MaxNumProxies` is not zero, or no pull supplier could be made. -/
def new (name : Str) (maxNumProxies : ℕ) (h : 0 < maxNumProxies) : ProxyChannel :=
  ⟨name, maxNumProxies, [], [], [], [], false, h⟩

/-- `_servants` of the push suppliers' manager. -/
def setPushSuppliers (c : ProxyChannel) (servants : List (ProxyPushSupplier Party)) : ProxyChannel :=
  { c with pushSuppliers := servants }

/-- `_servants` of the pull suppliers' manager. -/
def setPullSuppliers (c : ProxyChannel) (servants : List (ProxyPullSupplier Party)) : ProxyChannel :=
  { c with pullSuppliers := servants }

/-- `_servants` of the pull consumers' manager. -/
def setPullConsumers (c : ProxyChannel) (servants : List (ProxyPullConsumer Party)) : ProxyChannel :=
  { c with pullConsumers := servants }

/-- `_connections` of the push consumer. -/
def setConnections (c : ProxyChannel) (connections : List (Str × Connection Party)) :
    ProxyChannel :=
  { c with connections := connections }

section Calls

variable (logging : Bool) (orb : Orb Party) (c : ProxyChannel)

/-- A client's call of a proxy. A servant incarnated for it becomes the `i`-th. -/
def call (kind : ProxyKind) (oid : Str) (now i : ℕ) (request : ClientCall) :
    Option (ManagerCall ProxyChannel) :=
  if c.destroyed then some ⟨c, [], some .OBJECT_NOT_EXIST⟩
  else
    match kind with
    | .ProxyPushSupplier =>
        (callThrough c.pushSuppliers oid
          (some ⟨insertServant c.pushSuppliers i (.new oid true), [], none⟩)
          (request.pushSupplier orb)).map (Called.map c.setPushSuppliers)
    | .ProxyPullSupplier =>
        (callThrough c.pullSuppliers oid
          (ProxyPullSupplier.incarnate logging c.maxNumProxies c.pullSuppliers oid now i)
          (request.pullSupplier now)).map (Called.map c.setPullSuppliers)
    | .ProxyPullConsumer =>
        (callThrough c.pullConsumers oid
          (some ⟨insertServant c.pullConsumers i (.new oid), [], none⟩)
          request.pullConsumer).map (Called.map c.setPullConsumers)
    | .ProxyPushConsumer =>
        some ((request.pushConsumer orb c.name c.connections oid).map c.setConnections)

/-- What the channel's own threads, and those of the ORB, do to a proxy. -/
inductive Internal where
  | trigger (i : ℕ) (calls : TriggerCall → Bool) (reply : Option PushReply) (moreEvents : Bool)
  | collect (i : ℕ) (reply : Option Reply)
  | triggerRequest (i : ℕ)
  /-- `destroy` comes to the `i`-th servant of a kind, or to the push consumers. -/
  | disconnect (kind : ProxyKind) (now i : ℕ)
  | etherealize (kind : ProxyKind) (i : ℕ)

/-- The kind of proxy concerned. -/
def Internal.kind : Internal → ProxyKind
  | trigger _ _ _ _ => .ProxyPushSupplier
  | collect _ _ | triggerRequest _ => .ProxyPullConsumer
  | disconnect kind _ _ | etherealize kind _ => kind

/-- What happens without a client: the manager's thread, the channel's thread or the ORB comes to a
    servant. -/
def internal : Internal → Option (ManagerCall ProxyChannel)
  | .trigger i calls reply moreEvents =>
      (callAt c.pushSuppliers i (·.trigger logging calls reply moreEvents)).map
        (Called.map c.setPushSuppliers)
  | .collect i reply =>
      (callAt c.pullConsumers i (·.collected logging reply)).map (Called.map c.setPullConsumers)
  | .triggerRequest i =>
      (callAt c.pullConsumers i fun p => ⟨p.triggerRequest, [], none⟩).map
        (Called.map c.setPullConsumers)
  | .disconnect .ProxyPushSupplier _ i =>
      (callAt c.pushSuppliers i fun p =>
        .through p.active p (Destroy.disconnect_push_supplier p)).map (Called.map c.setPushSuppliers)
  | .disconnect .ProxyPullSupplier now i =>
      (callAt c.pullSuppliers i fun p =>
        .through p.active p (Destroy.disconnect_pull_supplier now p)).map
        (Called.map c.setPullSuppliers)
  | .disconnect .ProxyPullConsumer _ i =>
      (callAt c.pullConsumers i fun p =>
        .through p.active p (Destroy.disconnect_pull_consumer p)).map (Called.map c.setPullConsumers)
  | .disconnect .ProxyPushConsumer _ _ =>
      some ⟨c.setConnections [],
        c.connections.map fun e => ((e.1, e.2.target), .disconnect_push_supplier), none⟩
  | .etherealize .ProxyPushSupplier i =>
      (etherealize c.pushSuppliers i).map fun servants => ⟨c.setPushSuppliers servants, [], none⟩
  | .etherealize .ProxyPullSupplier i =>
      (etherealize c.pullSuppliers i).map fun servants => ⟨c.setPullSuppliers servants, [], none⟩
  | .etherealize .ProxyPullConsumer i =>
      (etherealize c.pullConsumers i).map fun servants => ⟨c.setPullConsumers servants, [], none⟩
  | .etherealize .ProxyPushConsumer _ => none

/-- The end of the channel's thread: the POAs are destroyed, and with them all servants. -/
def shutdown : ProxyChannel :=
  { c with pushSuppliers := [], pullSuppliers := [], pullConsumers := [], connections := []
           destroyed := true }

end Calls

/-- There is no servant of this object id. Push consumers have one servant for all. -/
def Etherealized (c : ProxyChannel) (oid : Str) : ProxyKind → Prop
  | .ProxyPushSupplier => Absent c.pushSuppliers oid
  | .ProxyPullSupplier => Absent c.pullSuppliers oid
  | .ProxyPullConsumer => Absent c.pullConsumers oid
  | .ProxyPushConsumer => False

/-- There is the servant that a fresh unconnected one becomes by the call. -/
def Incarnated (c : ProxyChannel) (orb : Orb Party) (now : ℕ) (oid : Str) (request : ClientCall) :
    ProxyKind → Prop
  | .ProxyPushSupplier => (request.pushSupplier orb (.new oid true)).state ∈ c.pushSuppliers
  | .ProxyPullSupplier => (request.pullSupplier now (.new oid true now)).state ∈ c.pullSuppliers
  | .ProxyPullConsumer => (request.pullConsumer (.new oid)).state ∈ c.pullConsumers
  | .ProxyPushConsumer => False

/-- The log prevents an eviction, and with it the incarnation of a pull supplier. -/
def Stuck (logging : Bool) (c : ProxyChannel) (kind : ProxyKind) : Prop :=
  kind = .ProxyPullSupplier ∧ c.maxNumProxies ≤ c.pullSuppliers.length ∧ logging = true ∧
    ∃ p, ProxyPullSupplier.oldest c.pullSuppliers = some p ∧ p.active = false

/-- What an incarnation sends: to the consumer of the servant that it evicts, if it has to. -/
def evictionSent (logging : Bool) (c : ProxyChannel) (kind : ProxyKind) (now : ℕ) :
    List ((Str × Party) × DisconnectMessage) :=
  if kind = .ProxyPullSupplier ∧ c.maxNumProxies ≤ c.pullSuppliers.length then
    match ProxyPullSupplier.oldest c.pullSuppliers with
    | none => []
    | some p => ((p.disconnectDirect logging now).sentBy p.oid).sent
  else []

/-- The proxies of an address that have a target. -/
def held (c : ProxyChannel) (oid : Str) : ProxyKind → ℕ
  | .ProxyPushSupplier => PeerServant.held c.pushSuppliers oid
  | .ProxyPullSupplier => PeerServant.held c.pullSuppliers oid
  | .ProxyPullConsumer => PeerServant.held c.pullConsumers oid
  | .ProxyPushConsumer => c.connections.countP fun e => decide (e.1 = oid)

end ProxyChannel

/-! ## The network

Messages may arrive in any order. Each comes to the address that it was sent to, whatever has become
of the proxy meanwhile. -/

/-- Channels, federated with one another and with clients, and what is on its way between them. The
    counts are for the observer. -/
structure Network where
  channels : List ProxyChannel
  inFlight : List Message
  /-- The proxies of the successful connects, and those that have sent a disconnect message. -/
  connects : List Address
  sent : List Address
  /-- How many messages have been delivered, and how many calls clients have made on their own. -/
  delivered : ℕ
  started : ℕ
  deriving DecidableEq

namespace Network

/-- A client acts, a message arrives, or something happens in a channel. -/
inductive Action where
  | connect (a : Address) (peer : Option Party) (now i : ℕ)
  | pull (a : Address) (now i : ℕ)
  /-- A client calls the disconnect of a proxy on its own. -/
  | start (a : Address)
  /-- The `k`-th message in flight arrives. -/
  | deliver (k now i : ℕ)
  | internal (channel : ℕ) (action : ProxyChannel.Internal)
  | shutdown (channel : ℕ)

/-- Channels without proxies, given by their names and limits. -/
def init (channels : List (Str × { m : ℕ // 0 < m })) : Network :=
  { channels := channels.map fun e => .new e.1 e.2.1 e.2.2
    inFlight := [], connects := [], sent := [], delivered := 0, started := 0 }

/-- A call to the proxies of one kind of the `k`-th channel, and what it raises. -/
def act (n : Network) (k : ℕ) (kind : ProxyKind)
    (f : ProxyChannel → Option (ManagerCall ProxyChannel)) : Option (Network × Option Exn) :=
  match n.channels[k]? with
  | none => none
  | some c =>
      match f c with
      | none => none
      | some call =>
          some ({ n with
            channels := n.channels.set k call.state
            inFlight := n.inFlight ++
              call.sent.map fun m => .disconnect ⟨k, kind, m.1.1⟩ m.1.2 m.2
            sent := n.sent ++ call.sent.map fun m => ⟨k, kind, m.1.1⟩ }, call.raised)

variable (logging : Bool) (orb : Orb Party)

/-- A call to a proxy by its address. -/
def call (n : Network) (a : Address) (now i : ℕ) (request : ClientCall) :
    Option (Network × Option Exn) :=
  n.act a.channel a.kind fun c => c.call logging orb a.kind a.oid now i request

/-- A message arrives. A client answers with the disconnect of the proxy; a proxy has the operation
    that its kind has, and any other request comes to nothing. -/
def deliver (n : Network) (now i : ℕ) : Message → Option Network
  -- a client answers by calling the proxy's disconnect
  | .disconnect sender (.client _) _ => some { n with inFlight := n.inFlight ++ [.call sender] }
  | .disconnect _ (.proxy a) operation =>
      if operation = a.kind.disconnect then (n.call logging orb a now i .disconnect).map Prod.fst
      else some n
  | .call a => (n.call logging orb a now i .disconnect).map Prod.fst

/-- The steps of the network: clients act, messages arrive, and channels do what they do by
    themselves. -/
def step (n : Network) : Action → Option Network
  | .connect a peer now i =>
      (n.call logging orb a now i (.connect peer)).map fun r =>
        match r.2 with
        | none => { r.1 with connects := r.1.connects ++ [a] }
        | some _ => r.1
  | .pull a now i => (n.call logging orb a now i .pull).map Prod.fst
  | .start a => some { n with inFlight := n.inFlight ++ [.call a], started := n.started + 1 }
  | .deliver k now i =>
      match n.inFlight[k]? with
      | none => none
      | some message =>
          { n with inFlight := n.inFlight.eraseIdx k
                   delivered := n.delivered + 1 }.deliver logging orb now i message
  | .internal k action => (n.act k action.kind (·.internal logging action)).map Prod.fst
  | .shutdown k =>
      match n.channels[k]? with
      | none => none
      | some c => some { n with channels := n.channels.set k c.shutdown }

end Network

end OmniEvents
