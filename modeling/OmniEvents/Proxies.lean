import OmniEvents.LogRecord

set_option autoImplicit false

/-! # Proxies and their records

The four kinds of proxy of a channel, with what they keep of their peer, the record each of them
writes to the log (`output`) and how each is built again from that record (`reincarnate`). Three
kinds are servants derived from `Proxy`; push consumers share one servant, which keeps a `Connection`
for every supplier that is known by a reference. The ORB is a parameter: how references are turned
into strings and back, and what a call to a remote peer comes to. -/

namespace OmniEvents

open PersistNode (attrString attrLong)

/-! ## The ORB

What the log needs of it are two functions. Exceptions are told apart as far as a handler does. -/

/-- The exceptions that the code tells apart, and all others. -/
inductive Exn where
  | BAD_PARAM
  | OBJECT_NOT_EXIST
  | TRANSIENT
  | COMM_FAILURE
  | AlreadyConnected
  | TypeError
  | ServantNotActive
  | other
  deriving DecidableEq, Repr

/-- Those that both `reincarnate` methods with a reconnect pass over. -/
def Exn.ignored : Exn → Bool
  | AlreadyConnected | TypeError | OBJECT_NOT_EXIST | TRANSIENT | COMM_FAILURE => true
  | _ => false

/-- The two operations of the ORB that the log needs. -/
structure Orb (Ref : Type) where
  object_to_string : Ref → Str
  /-- The reference, which may be nil, or the exception raised. -/
  string_to_object : Str → Except Exn (Option Ref)

/-- `string_to_<T>`. Its `_unchecked_narrow` keeps the reference. -/
def Orb.string_to_ {Ref : Type} (orb : Orb Ref) (oidStr : Str) : Except Exn Ref :=
  match orb.string_to_object oidStr with
  | .error ex => .error ex
  | .ok none => .error .BAD_PARAM
  | .ok (some obj) => .ok obj

/-- An ORB whose references are their own strings. -/
def stringOrb : Orb Str :=
  { object_to_string := id
    string_to_object := fun s => if s.isEmpty then .error .BAD_PARAM else .ok (some s) }

/-- What a call that writes to a stream has written, and the exception that ended it, if any. -/
structure Written where
  records : List LogRecord
  raised : Option Exn
  deriving DecidableEq, Repr

namespace Written

/-- Nothing is written, and nothing raised. -/
def nothing : Written := ⟨[], none⟩

/-- The statements of `w`, then those of `w'`. -/
def andThen (w w' : Written) : Written :=
  match w.raised with
  | none => ⟨w.records ++ w'.records, w'.raised⟩
  | some _ => w

/-- `try { … } catch(CORBA::Exception&) {}`. -/
def caught (w : Written) : Written := { w with raised := none }

/-- A loop that calls `output` for each element in turn. -/
def each {α : Type*} (output : α → Written) : List α → Written
  | [] => nothing
  | x :: xs => (output x).andThen (each output xs)

@[simp] theorem caught_raised (w : Written) : w.caught.raised = none := rfl

@[simp] theorem caught_records (w : Written) : w.caught.records = w.records := rfl

theorem andThen_raised (w w' : Written) :
    (w.andThen w').raised = none ↔ w.raised = none ∧ w'.raised = none := by
  unfold andThen
  cases h : w.raised <;> simp [h]

theorem andThen_records {w : Written} (h : w.raised = none) (w' : Written) :
    (w.andThen w').records = w.records ++ w'.records := by
  unfold andThen
  rw [h]

theorem each_raised {α : Type*} {output : α → Written} {xs : List α} :
    (each output xs).raised = none ↔ ∀ x ∈ xs, (output x).raised = none := by
  induction xs with
  | nil => simp [each, nothing]
  | cons x xs ih => rw [each, andThen_raised, ih, List.forall_mem_cons]

theorem each_records_of_ok {α : Type*} {output : α → Written} {xs : List α}
    (h : ∀ x ∈ xs, (output x).raised = none) :
    (each output xs).records = xs.flatMap (fun x => (output x).records) := by
  induction xs with
  | nil => rfl
  | cons x xs ih =>
      obtain ⟨hx, hxs⟩ := List.forall_mem_cons.1 h
      rw [each, andThen_records hx, ih hxs, List.flatMap_cons]

/-- A loop writes the records of every element before the first one that raises, which is assumed to
    write nothing itself. -/
theorem each_records {α : Type*} {output : α → Written}
    (houtput : ∀ x, (output x).raised ≠ none → (output x).records = []) (xs : List α) :
    (each output xs).records
      = (xs.takeWhile (fun x => (output x).raised.isNone)).flatMap (fun x => (output x).records) := by
  induction xs with
  | nil => rfl
  | cons x xs ih =>
      cases hx : (output x).raised with
      | none =>
          rw [each, andThen_records hx, ih]
          simp [hx]
      | some ex =>
          have hrecords := houtput x (by simp [hx])
          simp [each, andThen, hx, hrecords]

end Written

/-! ## Keys -/

/-- The four kinds of proxies, named as their nodes in the log. -/
inductive ProxyKind where
  | ProxyPushConsumer
  | ProxyPullConsumer
  | ProxyPushSupplier
  | ProxyPullSupplier
  deriving DecidableEq, Repr

/-- The name of the node that holds the proxies of this kind. -/
def ProxyKind.name : ProxyKind → Str
  | ProxyPushConsumer => "ProxyPushConsumer".toList
  | ProxyPullConsumer => "ProxyPullConsumer".toList
  | ProxyPushSupplier => "ProxyPushSupplier".toList
  | ProxyPullSupplier => "ProxyPullSupplier".toList

/-- The name of the admin node above it. -/
def ProxyKind.admin : ProxyKind → Str
  | ProxyPushConsumer | ProxyPullConsumer => "SupplierAdmin".toList
  | ProxyPushSupplier | ProxyPullSupplier => "ConsumerAdmin".toList

theorem ProxyKind.name_injective : Function.Injective ProxyKind.name := by
  intro kind kind'
  cases kind <;> cases kind' <;>
    first
    | exact fun _ => rfl
    | exact fun h => absurd h (by decide)

/-- `ecf/<channel>/<admin>/<kind>/<oid>`. -/
def keyPath (channelName : Str) (kind : ProxyKind) (oid : Str) : List Str :=
  [LogRecord.ecf, channelName, kind.admin, kind.name, oid]

theorem keyPath_inj {channelName channelName' oid oid' : Str} {kind kind' : ProxyKind} :
    keyPath channelName kind oid = keyPath channelName' kind' oid' ↔
      channelName = channelName' ∧ kind = kind' ∧ oid = oid' := by
  constructor
  · intro h
    simp only [keyPath, List.cons.injEq, true_and, and_true] at h
    exact ⟨h.1, ProxyKind.name_injective h.2.2.1, h.2.2.2⟩
  · rintro ⟨rfl, rfl, rfl⟩
    rfl

/-- The attribute with the string of the peer's reference. -/
def keyIOR : Str := ['I', 'O', 'R']

/-- The attribute that says that the peer is a proxy of omniEvents. -/
def keyProxy : Str := ['p', 'r', 'o', 'x', 'y']

/-- The attribute ` proxy=1`. -/
def proxyAttr (targetIsProxy : Bool) : List (Str × Str) :=
  if targetIsProxy then [(keyProxy, ['1'])] else []

/-- `bool(node.attrLong("proxy"))`. -/
def isProxyOf (node : PersistNode) : Bool := decide (node.attrLong keyProxy ≠ 0)

/-! ## Servants

The part of a proxy that the four kinds have in common: its object id, whether its object is active,
and its request. -/

/-- `Proxy`: the object id, whether the object is active under it, and the operation of `_req`. -/
structure Proxy where
  oid : Str
  active : Bool
  req : Option Str
  deriving DecidableEq, Repr

variable {Ref : Type}

/-- `Proxy::keyOutput`: `servant_to_id` knows only active servants. -/
def Proxy.keyOutput (p : Proxy) (channelName : Str) (kind : ProxyKind) : Except Exn (List Str) :=
  if p.active then .ok (keyPath channelName kind p.oid) else .error .ServantNotActive

/-- `Proxy::basicOutput` for an IOR string. -/
def Proxy.basicOutput (p : Proxy) (channelName : Str) (kind : ProxyKind) (iorstr : Str)
    (extraAttributes : List (Str × Str)) : Written :=
  match p.keyOutput channelName kind with
  | .error ex => ⟨[], some ex⟩
  | .ok path => ⟨[.entry path ((keyIOR, iorstr) :: extraAttributes)], none⟩

/-- `Proxy::basicOutput` for a reference, which may be nil. -/
def Proxy.basicOutputRef (p : Proxy) (orb : Orb Ref) (channelName : Str) (kind : ProxyKind)
    (target : Option Ref) : Written :=
  match p.keyOutput channelName kind with
  | .error ex => ⟨[], some ex⟩
  | .ok path =>
      match target with
      | none => ⟨[.entry path []], none⟩
      | some target => ⟨[.entry path [(keyIOR, orb.object_to_string target)]], none⟩

section Output

variable (p : Proxy) (orb : Orb Ref) (channelName : Str) (kind : ProxyKind)

theorem Proxy.basicOutput_of_active {p : Proxy} (h : p.active = true) (iorstr : Str)
    (extraAttributes : List (Str × Str)) :
    p.basicOutput channelName kind iorstr extraAttributes
      = ⟨[.entry (keyPath channelName kind p.oid) ((keyIOR, iorstr) :: extraAttributes)], none⟩ := by
  simp [basicOutput, keyOutput, h]

theorem Proxy.basicOutput_of_inactive {p : Proxy} (h : p.active = false) (iorstr : Str)
    (extraAttributes : List (Str × Str)) :
    p.basicOutput channelName kind iorstr extraAttributes = ⟨[], some .ServantNotActive⟩ := by
  simp [basicOutput, keyOutput, h]

theorem Proxy.basicOutputRef_of_active {p : Proxy} (h : p.active = true) (target : Option Ref) :
    p.basicOutputRef orb channelName kind target
      = ⟨[.entry (keyPath channelName kind p.oid)
          ((target.map (fun r => (keyIOR, orb.object_to_string r))).toList)], none⟩ := by
  cases target <;> simp [basicOutputRef, keyOutput, h]

theorem Proxy.basicOutputRef_of_inactive {p : Proxy} (h : p.active = false)
    (target : Option Ref) :
    p.basicOutputRef orb channelName kind target = ⟨[], some .ServantNotActive⟩ := by
  simp [basicOutputRef, keyOutput, h]

theorem Proxy.basicOutput_raised (iorstr : Str) (extraAttributes : List (Str × Str)) :
    (p.basicOutput channelName kind iorstr extraAttributes).raised = none ↔ p.active = true := by
  cases h : p.active with
  | true => simp [basicOutput_of_active _ _ h]
  | false => simp [basicOutput_of_inactive _ _ h]

theorem Proxy.basicOutputRef_raised (target : Option Ref) :
    (p.basicOutputRef orb channelName kind target).raised = none ↔ p.active = true := by
  cases h : p.active with
  | true => simp [basicOutputRef_of_active orb _ _ h]
  | false => simp [basicOutputRef_of_inactive orb _ _ h]

theorem Proxy.path_of_mem_basicOutput {iorstr : Str} {extraAttributes attrs : List (Str × Str)}
    {path : List Str} {p : Proxy} {channelName : Str} {kind : ProxyKind}
    (h : .entry path attrs ∈ (p.basicOutput channelName kind iorstr extraAttributes).records) :
    path = keyPath channelName kind p.oid := by
  cases hactive : p.active with
  | true =>
      rw [basicOutput_of_active _ _ hactive, List.mem_singleton] at h
      exact (LogRecord.entry.inj h).1
  | false =>
      rw [basicOutput_of_inactive _ _ hactive] at h
      cases h

theorem Proxy.path_of_mem_basicOutputRef {target : Option Ref} {attrs : List (Str × Str)}
    {path : List Str} {p : Proxy} {orb : Orb Ref} {channelName : Str} {kind : ProxyKind}
    (h : .entry path attrs ∈ (p.basicOutputRef orb channelName kind target).records) :
    path = keyPath channelName kind p.oid := by
  cases hactive : p.active with
  | true =>
      rw [basicOutputRef_of_active orb _ _ hactive, List.mem_singleton] at h
      exact (LogRecord.entry.inj h).1
  | false =>
      rw [basicOutputRef_of_inactive orb _ _ hactive] at h
      cases h

end Output

/-! ## Push suppliers -/

/-- `ProxyPushSupplier_i`, as far as the log is concerned. -/
structure ProxyPushSupplier (Ref : Type) extends Proxy where
  target : Option Ref
  target_sior : Str
  targetIsProxy : Bool
  deriving DecidableEq, Repr

namespace ProxyPushSupplier

/-- A servant just made by `incarnate`. -/
def new (oid : Str) (active : Bool) : ProxyPushSupplier Ref :=
  { oid := oid, active := active, req := none, target := none, target_sior := []
    targetIsProxy := false }

/-- `ProxyPushSupplier_i::connect_push_consumer`, without the `_is_a` that it sends off. -/
def connect_push_consumer (p : ProxyPushSupplier Ref) (orb : Orb Ref) (pushConsumer : Option Ref) :
    Except Exn (ProxyPushSupplier Ref) :=
  match pushConsumer with
  | none => .error .BAD_PARAM
  | some pushConsumer =>
      if p.target.isSome || p.req.isSome then .error .AlreadyConnected
      else .ok { p with target := some pushConsumer
                        target_sior := orb.object_to_string pushConsumer }

/-- `ProxyPushSupplier_i::output`, which writes the stored string and not the target. -/
def output (p : ProxyPushSupplier Ref) (channelName : Str) : Written :=
  p.basicOutput channelName .ProxyPushSupplier p.target_sior (proxyAttr p.targetIsProxy)

/-- `reincarnate`; `remote` is what the call to reconnect raises, if it is made. -/
def reincarnate (orb : Orb Ref) (remote : Option Exn) (oid : Str) (node : PersistNode) :
    Except Exn (ProxyPushSupplier Ref) :=
  match orb.string_to_ (node.attrString keyIOR) with
  | .error ex => if ex.ignored then .ok (new oid false) else .error ex
  | .ok pushConsumer =>
      let fresh : ProxyPushSupplier Ref := new oid true
      let p := { fresh with target := some pushConsumer, targetIsProxy := isProxyOf node }
      if p.targetIsProxy then
        match remote with
        | none => .ok p
        | some ex => if ex.ignored then .ok p else .error ex
      else .ok p

end ProxyPushSupplier

/-! ## Pull suppliers -/

/-- `ProxyPullSupplier_i`. The target is nil if the client gave none, so `_connected` says whether
    there is a connection. -/
structure ProxyPullSupplier (Ref : Type) extends Proxy where
  target : Option Ref
  connected : Bool
  timestamp : ℕ
  deriving DecidableEq, Repr

namespace ProxyPullSupplier

/-- A servant just made by `incarnate` at the time `now`. -/
def new (oid : Str) (active : Bool) (now : ℕ) : ProxyPullSupplier Ref :=
  { oid := oid, active := active, req := none, target := none, connected := false
    timestamp := now }

/-- `ProxyPullSupplier_i::connect_pull_consumer`. -/
def connect_pull_consumer (p : ProxyPullSupplier Ref) (pullConsumer : Option Ref) (now : ℕ) :
    Except Exn (ProxyPullSupplier Ref) :=
  if p.connected || p.target.isSome || p.req.isSome then .error .AlreadyConnected
  else .ok { p with timestamp := now, connected := true, target := pullConsumer }

/-- `ProxyPullSupplier_i::output`. -/
def output (p : ProxyPullSupplier Ref) (orb : Orb Ref) (channelName : Str) : Written :=
  p.basicOutputRef orb channelName .ProxyPullSupplier p.target

/-- `ProxyPullSupplier_i::reincarnate`. -/
def reincarnate (orb : Orb Ref) (now : ℕ) (oid : Str) (node : PersistNode) :
    Except Exn (ProxyPullSupplier Ref) :=
  match orb.string_to_ (node.attrString keyIOR) with
  | .error ex => .error ex
  | .ok pullConsumer => (new oid true now).connect_pull_consumer (some pullConsumer) now

/-- The servant that was contacted longest ago, the first of several. -/
def oldest (servants : List (ProxyPullSupplier Ref)) : Option (ProxyPullSupplier Ref) :=
  servants.foldl (fun oldest p =>
    match oldest with
    | none => some p
    | some q => if p.timestamp < q.timestamp then some p else some q) none

/-- The eviction in `ProxyPullSupplierManager::incarnate`: the oldest servant is disconnected, and so
    etherealized, to make space for one more. -/
def evict (maxNumProxies : ℕ) (servants : List (ProxyPullSupplier Ref)) :
    List (ProxyPullSupplier Ref) :=
  if maxNumProxies ≤ servants.length then
    match oldest servants with
    | none => servants
    | some q => servants.filter (fun p => p.oid ≠ q.oid)
  else servants

end ProxyPullSupplier

/-! ## Pull consumers -/

/-- How the channel asks the supplier for an event: it changes to the other way when the supplier
    fails. -/
inductive Mode where
  | Pull
  | TryPull
  deriving DecidableEq, Repr

/-- `ProxyPullConsumer_i`, with what it knows of its supplier. -/
structure ProxyPullConsumer (Ref : Type) extends Proxy where
  target : Option Ref
  mode : Mode
  exceptionCount : ℕ
  deriving DecidableEq, Repr

namespace ProxyPullConsumer

/-- A servant just made by `incarnate`. -/
def new (oid : Str) : ProxyPullConsumer Ref :=
  { oid := oid, active := true, req := none, target := none, mode := .Pull, exceptionCount := 0 }

/-- `ProxyPullConsumer_i::connect_pull_supplier`. -/
def connect_pull_supplier (p : ProxyPullConsumer Ref) (pullSupplier : Option Ref) :
    Except Exn (ProxyPullConsumer Ref) :=
  match pullSupplier with
  | none => .error .BAD_PARAM
  | some pullSupplier =>
      if p.target.isSome || p.req.isSome then .error .AlreadyConnected
      else .ok { p with target := some pullSupplier }

/-- `ProxyPullConsumer_i::output`. -/
def output (p : ProxyPullConsumer Ref) (orb : Orb Ref) (channelName : Str) : Written :=
  p.basicOutputRef orb channelName .ProxyPullConsumer p.target

/-- `ProxyPullConsumer_i::reincarnate`. -/
def reincarnate (orb : Orb Ref) (oid : Str) (node : PersistNode) :
    Except Exn (ProxyPullConsumer Ref) :=
  match orb.string_to_ (node.attrString keyIOR) with
  | .error ex => .error ex
  | .ok pullSupplier => (new oid).connect_pull_supplier (some pullSupplier)

end ProxyPullConsumer

/-! ## Push consumers -/

/-- `ProxyPushConsumer_i::Connection`. -/
structure Connection (Ref : Type) where
  channelName : Str
  oidstr : Str
  target : Ref
  target_sior : Str
  targetIsProxy : Bool
  deriving DecidableEq, Repr

namespace Connection

/-- The constructor of `Connection`. -/
def new (orb : Orb Ref) (channelName oidstr : Str) (pushSupplier : Ref) (isProxy : Bool := false) :
    Connection Ref :=
  { channelName := channelName, oidstr := oidstr, target := pushSupplier
    target_sior := orb.object_to_string pushSupplier, targetIsProxy := isProxy }

/-- `Connection::output`, which asks the ORB for nothing. -/
def output (c : Connection Ref) : LogRecord :=
  .entry (keyPath c.channelName .ProxyPushConsumer c.oidstr)
    ((keyIOR, c.target_sior) :: proxyAttr c.targetIsProxy)

/-- The body of the loop of `ProxyPushConsumer_i::reincarnate`: the connection to insert, if any, or
    the exception that escapes. -/
def reincarnate (orb : Orb Ref) (remote : Option Exn) (channelName oidstr : Str)
    (node : PersistNode) : Except Exn (Option (Connection Ref)) :=
  match orb.string_to_ (node.attrString keyIOR) with
  | .error ex => if ex.ignored || ex == .BAD_PARAM then .ok none else .error ex
  | .ok supp =>
      let c := Connection.new orb channelName oidstr supp (isProxyOf node)
      if c.targetIsProxy then
        match remote with
        | none => .ok (some c)
        | some ex => if ex.ignored || ex == .BAD_PARAM then .ok (some c) else .error ex
      else .ok (some c)

end Connection

end OmniEvents
