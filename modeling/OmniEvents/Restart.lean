import OmniEvents.Channels
import OmniEvents.Accepted
import Mathlib.Data.List.Nodup

set_option autoImplicit false

/-! # What a restart makes of a log

The four kinds of proxy are looked at in one way here: `ProxyView` is what a proxy is connected to,
together with the attributes of the record it writes. Writing a channel writes the records of its
views (`output_of_active`), and activating one from a node decodes each record on its own
(`toOption_activate`). Between the two stands the log: in the tree parsed from a checkpoint, a record
is found at a path exactly if a proxy wrote it there (`attrsAt_log`). -/

namespace OmniEvents

open LogRecord (Clean replay attrMap ecf)

variable {Ref : Type}

/-! ## Views

A proxy as both sides see it, the one that writes and the one that reads. Everything that a restart
should bring back is in it. -/

/-- What a restart can tell of a proxy: everything but the queue and the requests. -/
structure ProxyView (Ref : Type) where
  kind : ProxyKind
  oid : Str
  active : Bool
  connected : Bool
  target : Option Ref
  targetIsProxy : Bool
  attrs : List (Str × Str)

/-- The record that the proxy writes of itself. -/
def ProxyView.record (channelName : Str) (v : ProxyView Ref) : LogRecord :=
  .entry (keyPath channelName v.kind v.oid) v.attrs

/-- The attributes written for a reference that may be nil. -/
def refAttrs (orb : Orb Ref) (target : Option Ref) : List (Str × Str) :=
  (target.map (fun r => (keyIOR, orb.object_to_string r))).toList

/-- A connection is connected as long as it is there. -/
def Connection.view (c : Connection Ref) : ProxyView Ref :=
  { kind := .ProxyPushConsumer, oid := c.oidstr, active := true, connected := true
    target := some c.target, targetIsProxy := c.targetIsProxy
    attrs := (keyIOR, c.target_sior) :: proxyAttr c.targetIsProxy }

/-- A pull consumer writes the string of its target, if it has one. -/
def ProxyPullConsumer.view (orb : Orb Ref) (p : ProxyPullConsumer Ref) : ProxyView Ref :=
  { kind := .ProxyPullConsumer, oid := p.oid, active := p.active, connected := p.target.isSome
    target := p.target, targetIsProxy := false, attrs := refAttrs orb p.target }

/-- A push supplier writes the string that it has stored. -/
def ProxyPushSupplier.view (p : ProxyPushSupplier Ref) : ProxyView Ref :=
  { kind := .ProxyPushSupplier, oid := p.oid, active := p.active, connected := p.target.isSome
    target := p.target, targetIsProxy := p.targetIsProxy
    attrs := (keyIOR, p.target_sior) :: proxyAttr p.targetIsProxy }

/-- A pull supplier may be connected without a target. -/
def ProxyPullSupplier.view (orb : Orb Ref) (p : ProxyPullSupplier Ref) : ProxyView Ref :=
  { kind := .ProxyPullSupplier, oid := p.oid, active := p.active, connected := p.connected
    target := p.target, targetIsProxy := false, attrs := refAttrs orb p.target }

/-- All proxies of a channel, in the order in which they are written. -/
def EventChannel.views (c : EventChannel Ref) (orb : Orb Ref) : List (ProxyView Ref) :=
  (c.connections.map (fun e => e.2.view) ++ (c.pullConsumer.getD []).map (·.view orb)) ++
    ((c.pushSupplier.getD []).map (·.view) ++ (c.pullSupplier.getD []).map (·.view orb))

/-! ## Writing -/

theorem ProxyPullConsumer.output_of_active {p : ProxyPullConsumer Ref} (h : p.active = true)
    (orb : Orb Ref) (channelName : Str) :
    p.output orb channelName = ⟨[(p.view orb).record channelName], none⟩ :=
  Proxy.basicOutputRef_of_active orb _ _ h _

theorem ProxyPushSupplier.output_of_active {p : ProxyPushSupplier Ref} (h : p.active = true)
    (channelName : Str) : p.output channelName = ⟨[p.view.record channelName], none⟩ :=
  Proxy.basicOutput_of_active _ _ h _ _

theorem ProxyPullSupplier.output_of_active {p : ProxyPullSupplier Ref} (h : p.active = true)
    (orb : Orb Ref) (channelName : Str) :
    p.output orb channelName = ⟨[(p.view orb).record channelName], none⟩ :=
  Proxy.basicOutputRef_of_active orb _ _ h _

/-- A loop whose outputs are one record each. -/
theorem flatMap_singleton_of {α β : Type*} {f : α → List β} {g : α → β} {xs : List α}
    (h : ∀ x ∈ xs, f x = [g x]) : xs.flatMap f = xs.map g := by
  induction xs with
  | nil => rfl
  | cons x xs ih =>
      obtain ⟨hx, hxs⟩ := List.forall_mem_cons.1 h
      rw [List.flatMap_cons, hx, ih hxs]
      rfl

/-- The records of a channel: its own, and one for each of its views. -/
def EventChannel.log (c : EventChannel Ref) (orb : Orb Ref) : List LogRecord :=
  .block [ecf, c.name] c.properties :: (c.views orb).map (·.record c.name)

/-- A channel all of whose servants are active writes its log. -/
theorem EventChannel.output_of_active {c : EventChannel Ref} {orb : Orb Ref}
    (hactive : ∀ v ∈ c.views orb, v.active = true)
    (hnames : ∀ e ∈ c.connections, e.2.channelName = c.name) :
    c.output orb = ⟨c.log orb, none⟩ := by
  simp only [views, List.forall_mem_append, List.forall_mem_map] at hactive
  obtain ⟨⟨-, hpullc⟩, hpushs, hpulls⟩ := hactive
  have hraised : (c.output orb).raised = none := (c.output_raised orb).2 ⟨hpullc, hpulls⟩
  have hrecords := c.output_records orb ⟨hpullc, hpulls⟩
  have hvisited : (c.pushSupplier.getD []).takeWhile (·.active) = c.pushSupplier.getD [] :=
    List.takeWhile_eq_self_iff.2 hpushs
  have hconn : c.connections.map (fun e => e.2.output)
      = c.connections.map (fun e => e.2.view.record c.name) :=
    List.map_congr_left (fun e he => by rw [← hnames e he]; rfl)
  rw [hvisited,
    flatMap_singleton_of (fun p hp => by rw [ProxyPullConsumer.output_of_active (hpullc p hp)]),
    flatMap_singleton_of (fun p hp => by rw [ProxyPushSupplier.output_of_active (hpushs p hp)]),
    flatMap_singleton_of (fun p hp => by rw [ProxyPullSupplier.output_of_active (hpulls p hp)]),
    hconn] at hrecords
  rcases hout : c.output orb with ⟨records, raised⟩
  rw [hout] at hraised hrecords
  simp only at hraised hrecords
  rw [hraised, hrecords, log, views]
  simp only [List.map_append, List.map_map]
  rfl

/-! ## Reading -/

/-- What the manager of a servant makes of its `reincarnate`: `BAD_PARAM` drops the servant. -/
def keep {α : Type*} : Except Exn α → Except Exn (Option α)
  | .ok a => .ok (some a)
  | .error .BAD_PARAM => .ok none
  | .error ex => .error ex

@[simp] theorem keep_ok {α : Type*} (a : α) : keep (.ok a) = .ok (some a) := rfl

@[simp] theorem keep_badParam {α : Type*} : keep (.error .BAD_PARAM : Except Exn α) = .ok none := rfl

/-- The proxy that a record comes back as, if any, or the exception that ends the start. -/
def decode (orb : Orb Ref) (env : Env) (channelName : Str) :
    ProxyKind → Str → PersistNode → Except Exn (Option (ProxyView Ref))
  | .ProxyPushConsumer, oid, node =>
      (Connection.reincarnate orb (env.remote channelName .ProxyPushConsumer oid) channelName oid
        node).map (·.map (·.view))
  | .ProxyPullConsumer, oid, node =>
      keep ((ProxyPullConsumer.reincarnate orb oid node).map (·.view orb))
  | .ProxyPushSupplier, oid, node =>
      keep ((ProxyPushSupplier.reincarnate orb (env.remote channelName .ProxyPushSupplier oid) oid
        node).map (·.view))
  | .ProxyPullSupplier, oid, node =>
      keep ((ProxyPullSupplier.reincarnate orb (env.now channelName oid) oid node).map (·.view orb))

/-- What all of them come to, if none ends the start. -/
def gather {α β : Type*} (g : α → Except Exn (Option β)) : List α → Option (List β)
  | [] => some []
  | x :: xs =>
      match g x with
      | .error _ => none
      | .ok none => gather g xs
      | .ok (some b) => (gather g xs).map (b :: ·)

section Gather

variable {α β γ : Type*} (g : α → Except Exn (Option β)) {x : α} {xs : List α}

theorem gather_cons_error {ex : Exn} (h : g x = .error ex) : gather g (x :: xs) = none := by
  simp [gather, h]

theorem gather_cons_none (h : g x = .ok none) : gather g (x :: xs) = gather g xs := by
  simp [gather, h]

theorem gather_cons_some {b : β} (h : g x = .ok (some b)) :
    gather g (x :: xs) = (gather g xs).map (b :: ·) := by
  simp [gather, h]

theorem gather_map {g : α → Except Exn (Option β)} (f : β → γ) (xs : List α) :
    gather (fun x => (g x).map (·.map f)) xs = (gather g xs).map (·.map f) := by
  induction xs with
  | nil => rfl
  | cons x xs ih =>
      rcases hx : g x with ex | (_ | b)
      · rw [gather_cons_error _ hx, gather_cons_error _ (by rw [hx]; rfl)]
        rfl
      · rw [gather_cons_none _ hx, gather_cons_none _ (by rw [hx]; rfl), ih]
      · rw [gather_cons_some _ hx, gather_cons_some _ (by rw [hx]; rfl), ih]
        cases gather g xs <;> rfl

variable {g}

theorem gather_eq_none_iff : gather g xs = none ↔ ∃ x ∈ xs, ∃ ex, g x = .error ex := by
  induction xs with
  | nil => simp [gather]
  | cons x xs ih =>
      rcases hx : g x with ex | (_ | b)
      · simp [gather_cons_error _ hx, hx]
      · simp [gather_cons_none _ hx, ih, hx]
      · simp [gather_cons_some _ hx, ih, hx]

theorem mem_of_gather {ys : List β} (h : gather g xs = some ys) {y : β} :
    y ∈ ys ↔ ∃ x ∈ xs, g x = .ok (some y) := by
  induction xs generalizing ys with
  | nil =>
      cases h
      simp
  | cons x xs ih =>
      rcases hx : g x with ex | (_ | b)
      · rw [gather_cons_error _ hx] at h
        cases h
      · rw [gather_cons_none _ hx] at h
        simp [ih h, hx]
      · rw [gather_cons_some _ hx, Option.map_eq_some_iff] at h
        obtain ⟨zs, hzs, rfl⟩ := h
        simp [ih hzs, hx, eq_comm]

/-- The keys that come back are among those that were there, in the same order. -/
theorem gather_keys {κ : Type*} (key : α → κ) (key' : β → κ) {ys : List β}
    (hkey : ∀ x ∈ xs, ∀ b, g x = .ok (some b) → key' b = key x) (h : gather g xs = some ys) :
    (ys.map key').Sublist (xs.map key) := by
  induction xs generalizing ys with
  | nil =>
      cases h
      simp
  | cons x xs ih =>
      obtain ⟨hkeyx, hkeyxs⟩ := List.forall_mem_cons.1 hkey
      rcases hx : g x with ex | (_ | b)
      · rw [gather_cons_error _ hx] at h
        cases h
      · rw [gather_cons_none _ hx] at h
        exact (ih hkeyxs h).cons _
      · rw [gather_cons_some _ hx, Option.map_eq_some_iff] at h
        obtain ⟨zs, hzs, rfl⟩ := h
        rw [List.map_cons, List.map_cons, hkeyx b hx]
        exact (ih hkeyxs hzs).cons_cons _

end Gather

section Managers

variable {σ : Type} {makeRoom : List σ → List σ} {f : Str → PersistNode → Except Exn σ}

/-- The loop of a manager, as long as no servant has to make room for another. -/
theorem toOption_reincarnateAll {nodes : List (Str × PersistNode)} {servants : List σ}
    (hroom : ∀ l : List σ, l.length < servants.length + nodes.length → makeRoom l = l) :
    (reincarnateAll makeRoom f nodes servants).toOption
      = (gather (fun e => keep (f e.1 e.2)) nodes).map (servants ++ ·) := by
  induction nodes generalizing servants with
  | nil => simp [reincarnateAll, gather, Except.toOption]
  | cons e nodes ih =>
      obtain ⟨oid, node⟩ := e
      have hself : makeRoom servants = servants := hroom _ (by simp)
      rw [reincarnateAll, gather]
      simp only [hself]
      cases hf : f oid node with
      | error ex =>
          cases ex with
          | BAD_PARAM =>
              simp only [keep_badParam]
              exact ih (fun l hl => hroom l (by simp only [List.length_cons]; omega))
          | _ => simp [keep, Except.toOption]
      | ok proxy =>
          simp only [keep_ok]
          rw [ih (fun l hl => hroom l (by simp at hl ⊢; omega))]
          cases gather (fun e => keep (f e.1 e.2)) nodes <;> simp

/-- The manager that is created, if any, has the servants of the loop. -/
theorem toOption_reincarnateManager {node : Option PersistNode}
    (hroom : ∀ l : List σ, l.length < ((node.map (·.children)).getD []).length → makeRoom l = l) :
    (reincarnateManager makeRoom f node).toOption.map (·.getD [])
      = gather (fun e => keep (f e.1 e.2)) ((node.map (·.children)).getD []) := by
  cases node with
  | none => rfl
  | some node =>
      rw [reincarnateManager]
      split
      · next hempty =>
          rw [List.isEmpty_iff] at hempty
          simp [hempty, gather, Except.toOption]
      · have hall := @toOption_reincarnateAll _ makeRoom f node.children [] (by simpa using hroom)
        simp only [Option.map_some, Option.getD_some]
        cases hloop : reincarnateAll makeRoom f node.children [] with
        | error ex =>
            rw [hloop] at hall
            simpa [Except.map, Except.toOption] using hall
        | ok servants =>
            rw [hloop] at hall
            simpa [Except.map, Except.toOption] using hall

/-- The loop over the connections, whose keys go up. -/
theorem toOption_reincarnateConnections {f : Str → PersistNode → Except Exn (Option σ)}
    {nodes : List (Str × PersistNode)} {connections : List (Str × σ)} (hnodes : OrdMap.Sorted nodes)
    (hbelow : ∀ c ∈ connections, ∀ e ∈ nodes, c.1 < e.1) :
    (reincarnateConnections f nodes connections).toOption
      = (gather (fun e => (f e.1 e.2).map (·.map (fun c => (e.1, c)))) nodes).map
          (connections ++ ·) := by
  induction nodes generalizing connections with
  | nil => simp [reincarnateConnections, gather, Except.toOption]
  | cons e nodes ih =>
      obtain ⟨oid, node⟩ := e
      obtain ⟨hhead, htail⟩ := List.pairwise_cons.1 hnodes
      rw [reincarnateConnections, gather]
      cases hf : f oid node with
      | error ex => simp [Except.map, Except.toOption]
      | ok c =>
          cases c with
          | none => exact ih htail (fun c hc e he => hbelow c hc e (List.mem_cons_of_mem _ he))
          | some c =>
              show (reincarnateConnections f nodes (OrdMap.insert oid c connections)).toOption
                = ((gather (fun e => (f e.1 e.2).map (·.map (fun c => (e.1, c)))) nodes).map
                    ((oid, c) :: ·)).map (connections ++ ·)
              rw [OrdMap.insert_append (fun c hc => hbelow c hc _ (List.mem_cons_self ..)),
                ih htail]
              · cases gather (fun e => (f e.1 e.2).map (·.map (fun c => (e.1, c)))) nodes <;> simp
              · intro c' hc' e he
                rcases List.mem_append.1 hc' with hc' | hc'
                · exact hbelow c' hc' e (List.mem_cons_of_mem _ he)
                · rw [List.mem_singleton.1 hc']
                  exact hhead e he

end Managers

/-! ## Activating a channel -/

/-- The records of a kind below the node of a channel. -/
def kindChildren (n : PersistNode) (kind : ProxyKind) : List (Str × PersistNode) :=
  ((EventChannel.kindNode (some n) kind).map (·.children)).getD []

/-- What the records of a kind come back as. -/
def decodeKind (orb : Orb Ref) (env : Env) (channelName : Str) (n : PersistNode)
    (kind : ProxyKind) : Option (List (ProxyView Ref)) :=
  gather (fun e => decode orb env channelName kind e.1 e.2) (kindChildren n kind)

/-- What the node of a channel comes back as. -/
def decodeAll (orb : Orb Ref) (env : Env) (channelName : Str) (n : PersistNode) :
    Option (List (ProxyView Ref)) := do
  let connections ← decodeKind orb env channelName n .ProxyPushConsumer
  let pullConsumer ← decodeKind orb env channelName n .ProxyPullConsumer
  let pushSupplier ← decodeKind orb env channelName n .ProxyPushSupplier
  let pullSupplier ← decodeKind orb env channelName n .ProxyPullSupplier
  return (connections ++ pullConsumer) ++ (pushSupplier ++ pullSupplier)

theorem keep_map {α β : Type*} (f : α → β) (r : Except Exn α) :
    keep (r.map f) = (keep r).map (·.map f) := by
  cases r with
  | ok a => rfl
  | error ex => cases ex <;> rfl

theorem sorted_kindChildren {n : PersistNode} (hn : n.Sorted) (kind : ProxyKind) :
    OrdMap.Sorted (kindChildren n kind) := by
  simp only [kindChildren, EventChannel.kindNode, Option.bind_some]
  cases hadmin : n.child kind.admin with
  | none => exact OrdMap.Sorted.nil
  | some a =>
      simp only [Option.bind_some]
      cases hkind : a.child kind.name with
      | none => exact OrdMap.Sorted.nil
      | some k => exact ((hn.child hadmin).child hkind).children

/-- The records of a kind are the nodes found below it. -/
theorem mem_kindChildren {n : PersistNode} (hn : n.Sorted) {kind : ProxyKind} {oid : Str}
    {m : PersistNode} :
    (oid, m) ∈ kindChildren n kind ↔ n.find [kind.admin, kind.name, oid] = some m := by
  simp only [kindChildren, EventChannel.kindNode, Option.bind_some, PersistNode.find]
  cases hadmin : n.child kind.admin with
  | none => simp
  | some a =>
      simp only [Option.bind_some]
      cases hkind : a.child kind.name with
      | none => simp
      | some k =>
          simp only [Option.map_some, Option.getD_some, Option.bind_some, Option.bind_fun_some]
          exact ((hn.child hadmin).child hkind).mem_children

theorem evict_of_lt {max : ℕ} {servants : List (ProxyPullSupplier Ref)}
    (h : servants.length < max) : ProxyPullSupplier.evict max servants = servants := by
  rw [ProxyPullSupplier.evict, if_neg (by omega)]

section Activate

variable (orb : Orb Ref) (env : Env) (channelName : Str) {n : PersistNode}

theorem decodeKind_pushConsumer (hn : n.Sorted) :
    decodeKind orb env channelName n .ProxyPushConsumer
      = (reincarnateConnections
          (fun oid => Connection.reincarnate orb (env.remote channelName .ProxyPushConsumer oid)
            channelName oid) (kindChildren n .ProxyPushConsumer) []).toOption.map
          (·.map (fun e => e.2.view)) := by
  rw [toOption_reincarnateConnections (sorted_kindChildren hn _) (by simp)]
  simp only [List.nil_append, Option.map_id']
  rw [← gather_map, decodeKind]
  congr 1
  funext e
  simp only [decode]
  rcases Connection.reincarnate orb (env.remote channelName .ProxyPushConsumer e.1) channelName e.1
    e.2 with ex | (_ | c) <;> rfl

theorem decodeKind_pullConsumer :
    decodeKind orb env channelName n .ProxyPullConsumer
      = (reincarnateManager id (ProxyPullConsumer.reincarnate orb)
          (EventChannel.kindNode (some n) .ProxyPullConsumer)).toOption.map
          (fun m => (m.getD []).map (·.view orb)) := by
  have h := @toOption_reincarnateManager _ id (ProxyPullConsumer.reincarnate orb)
    (EventChannel.kindNode (some n) .ProxyPullConsumer) (fun _ _ => rfl)
  simp only [decodeKind, decode, keep_map, gather_map, kindChildren]
  rw [← h, Option.map_map]
  rfl

theorem decodeKind_pushSupplier :
    decodeKind orb env channelName n .ProxyPushSupplier
      = (reincarnateManager id
          (fun oid => ProxyPushSupplier.reincarnate orb
            (env.remote channelName .ProxyPushSupplier oid) oid)
          (EventChannel.kindNode (some n) .ProxyPushSupplier)).toOption.map
          (fun m => (m.getD []).map (·.view)) := by
  have h := @toOption_reincarnateManager _ id
    (fun oid => ProxyPushSupplier.reincarnate orb
      (env.remote channelName .ProxyPushSupplier oid) oid)
    (EventChannel.kindNode (some n) .ProxyPushSupplier) (fun _ _ => rfl)
  simp only [decodeKind, decode, keep_map, gather_map, kindChildren]
  rw [← h, Option.map_map]
  rfl

theorem decodeKind_pullSupplier {max : ℕ}
    (hroom : (kindChildren n .ProxyPullSupplier).length ≤ max) :
    decodeKind orb env channelName n .ProxyPullSupplier
      = (reincarnateManager (ProxyPullSupplier.evict max)
          (fun oid => ProxyPullSupplier.reincarnate orb (env.now channelName oid) oid)
          (EventChannel.kindNode (some n) .ProxyPullSupplier)).toOption.map
          (fun m => (m.getD []).map (·.view orb)) := by
  have h := @toOption_reincarnateManager _ (ProxyPullSupplier.evict max)
    (fun oid => ProxyPullSupplier.reincarnate orb (env.now channelName oid) oid)
    (EventChannel.kindNode (some n) .ProxyPullSupplier)
    (fun l hl => evict_of_lt (lt_of_lt_of_le hl hroom))
  simp only [decodeKind, decode, keep_map, gather_map, kindChildren]
  rw [← h, Option.map_map]
  rfl

/-- Activating a channel decodes each of its records on its own. -/
theorem toOption_activate (hn : n.Sorted)
    (hroom : (kindChildren n .ProxyPullSupplier).length ≤ maxNumProxies n.attrs) :
    (EventChannel.activate orb env channelName (some n)).toOption.map
        (fun c => (c.name, c.properties, c.views orb))
      = (decodeAll orb env channelName n).map (fun views => (channelName, n.attrs, views)) := by
  rw [decodeAll, decodeKind_pushConsumer orb env channelName hn, decodeKind_pullConsumer,
    decodeKind_pushSupplier, decodeKind_pullSupplier orb env channelName hroom]
  simp only [EventChannel.activate, kindChildren, Option.map_some, Option.getD_some]
  generalize reincarnateConnections _ _ [] = connections
  generalize reincarnateManager id (ProxyPullConsumer.reincarnate orb) _ = pullConsumer
  generalize reincarnateManager id _ _ = pushSupplier
  generalize reincarnateManager _ _ _ = pullSupplier
  cases connections <;> cases pullConsumer <;> cases pushSupplier <;> cases pullSupplier <;> rfl

end Activate

/-! ## The log in between -/

/-- No two proxies of a channel share kind and object id. -/
def EventChannel.UniqueKeys (c : EventChannel Ref) (orb : Orb Ref) : Prop :=
  ((c.views orb).map (fun v => (v.kind, v.oid))).Nodup

section Log

variable {orb : Orb Ref} {pre : List LogRecord} {channels : List (EventChannel Ref)}

theorem mem_log {c : EventChannel Ref} {r : LogRecord} :
    r ∈ c.log orb ↔
      r = .block [ecf, c.name] c.properties ∨ ∃ v ∈ c.views orb, r = v.record c.name := by
  simp [EventChannel.log, eq_comm]

theorem length_keyPath (channelName : Str) (kind : ProxyKind) (oid : Str) :
    (keyPath channelName kind oid).length = 5 := rfl

/-- Every record of a channel is at or below its node. -/
theorem path_of_mem_log {c : EventChannel Ref} {r : LogRecord} (h : r ∈ c.log orb) :
    ∃ rest, r.path = ecf :: c.name :: rest ∧ r.path.length ≤ 5 := by
  rcases mem_log.1 h with rfl | ⟨v, -, rfl⟩
  · exact ⟨[], rfl, by simp [LogRecord.path]⟩
  · exact ⟨_, rfl, le_of_eq rfl⟩

theorem EventChannel.UniqueKeys.ordered_log {c : EventChannel Ref} (h : c.UniqueKeys orb) :
    LogRecord.Ordered (c.log orb) := by
  refine List.pairwise_cons.2 ⟨?_, List.pairwise_map.2 ?_⟩
  · intro r hr hinitial
    obtain ⟨v, -, rfl⟩ := List.mem_map.1 hr
    have := hinitial.length_le
    simp [ProxyView.record, LogRecord.path, length_keyPath] at this
  · refine (List.pairwise_map.1 h).imp (fun {v w} hne hinitial => hne ?_)
    have heq := hinitial.eq_of_length rfl
    obtain ⟨-, hkind, hoid⟩ := keyPath_inj.1 heq
    rw [hkind, hoid]

/-- The log of a server is ordered: its own record if any, then channel by channel. -/
theorem ordered_serverLog (hpre : LogRecord.Ordered pre) (hecf : ∀ r ∈ pre, r.path = [ecf])
    (hnames : (channels.map (·.name)).Nodup) (hkeys : ∀ c ∈ channels, c.UniqueKeys orb) :
    LogRecord.Ordered (pre ++ channels.flatMap (·.log orb)) := by
  refine List.pairwise_append.2 ⟨hpre, List.pairwise_flatMap.2 ⟨?_, ?_⟩, ?_⟩
  · exact fun c hc => (hkeys c hc).ordered_log
  · refine (List.pairwise_map.1 hnames).imp (fun {c c'} hne r hr r' hr' hinitial => hne ?_)
    obtain ⟨rest, hpath, -⟩ := path_of_mem_log hr
    obtain ⟨rest', hpath', -⟩ := path_of_mem_log hr'
    rw [hpath, hpath', List.cons_prefix_cons, List.cons_prefix_cons] at hinitial
    exact hinitial.2.1.symm
  · intro r hr r' hr' hinitial
    obtain ⟨c, -, hr'⟩ := List.mem_flatMap.1 hr'
    obtain ⟨rest', hpath', -⟩ := path_of_mem_log hr'
    rw [hecf r hr, hpath'] at hinitial
    simpa using hinitial.length_le

theorem find_of_attrsAt {n : PersistNode} {path : List Str} {a : List (Str × Str)}
    (h : n.attrsAt path = some a) : ∃ m, n.find path = some m ∧ m.attrs = a := by
  simpa [PersistNode.attrsAt] using h

/-- In the log of a server a record is found at the path of a proxy exactly if a proxy has written
    it. -/
theorem attrsAt_serverLog (hecf : ∀ r ∈ pre, r.path = [ecf])
    (hordered : LogRecord.Ordered (pre ++ channels.flatMap (·.log orb)))
    (hclean : ∀ r ∈ pre ++ channels.flatMap (·.log orb), r.Clean)
    (channelName : Str) (kind : ProxyKind) (oid : Str) (a : List (Str × Str)) :
    (replay (pre ++ channels.flatMap (·.log orb))).attrsAt (keyPath channelName kind oid) = some a ↔
      ∃ c ∈ channels, c.name = channelName ∧
        ∃ v ∈ c.views orb, v.kind = kind ∧ v.oid = oid ∧ attrMap v.attrs = a := by
  have hfound : ∀ c ∈ channels, ∀ v ∈ c.views orb,
      (replay (pre ++ channels.flatMap (·.log orb))).attrsAt (keyPath c.name v.kind v.oid)
        = some (attrMap v.attrs) := by
    intro c hc v hv
    refine LogRecord.attrsAt_replay_of_mem hclean hordered (Or.inl (List.mem_append_right _ ?_))
    exact List.mem_flatMap.2 ⟨c, hc, mem_log.2 (Or.inr ⟨v, hv, rfl⟩)⟩
  constructor
  · intro h
    by_cases hex : ∃ c ∈ channels, c.name = channelName ∧
        ∃ v ∈ c.views orb, v.kind = kind ∧ v.oid = oid
    · obtain ⟨c, hc, rfl, v, hv, rfl, rfl⟩ := hex
      rw [hfound c hc v hv, Option.some_inj] at h
      exact ⟨c, hc, rfl, v, hv, rfl, rfl, h⟩
    · -- no proxy has this key, so no record is at or below it
      rw [LogRecord.attrsAt_replay_none hclean (by simp [keyPath]) ?_] at h
      · cases h
      · intro r hr hinitial
        rcases List.mem_append.1 hr with hr | hr
        · rw [hecf r hr] at hinitial
          simpa [length_keyPath] using hinitial.length_le
        · obtain ⟨c, hc, hr⟩ := List.mem_flatMap.1 hr
          rcases mem_log.1 hr with rfl | ⟨v, hv, rfl⟩
          · simpa [LogRecord.path, length_keyPath] using hinitial.length_le
          · obtain ⟨hname, hkind, hoid⟩ := keyPath_inj.1 (hinitial.eq_of_length rfl)
            exact hex ⟨c, hc, hname.symm, v, hv, hkind.symm, hoid.symm⟩
  · rintro ⟨c, hc, rfl, v, hv, rfl, rfl, rfl⟩
    exact hfound c hc v hv

/-- The node of a channel has its properties. -/
theorem attrsAt_channel (hecf : ∀ r ∈ pre, r.path = [ecf])
    (hordered : LogRecord.Ordered (pre ++ channels.flatMap (·.log orb)))
    (hclean : ∀ r ∈ pre ++ channels.flatMap (·.log orb), r.Clean)
    (channelName : Str) (a : List (Str × Str)) :
    (replay (pre ++ channels.flatMap (·.log orb))).attrsAt [ecf, channelName] = some a ↔
      ∃ c ∈ channels, c.name = channelName ∧ attrMap c.properties = a := by
  have hfound : ∀ c ∈ channels,
      (replay (pre ++ channels.flatMap (·.log orb))).attrsAt [ecf, c.name]
        = some (attrMap c.properties) := by
    intro c hc
    refine LogRecord.attrsAt_replay_of_mem hclean hordered (Or.inr (List.mem_append_right _ ?_))
    exact List.mem_flatMap.2 ⟨c, hc, mem_log.2 (Or.inl rfl)⟩
  constructor
  · intro h
    by_cases hex : ∃ c ∈ channels, c.name = channelName
    · obtain ⟨c, hc, rfl⟩ := hex
      rw [hfound c hc, Option.some_inj] at h
      exact ⟨c, hc, rfl, h⟩
    · rw [LogRecord.attrsAt_replay_none hclean (by simp) ?_] at h
      · cases h
      · intro r hr hinitial
        rcases List.mem_append.1 hr with hr | hr
        · rw [hecf r hr] at hinitial
          simpa using hinitial.length_le
        · obtain ⟨c, hc, hr⟩ := List.mem_flatMap.1 hr
          obtain ⟨rest, hpath, -⟩ := path_of_mem_log hr
          rw [hpath, List.cons_prefix_cons, List.cons_prefix_cons] at hinitial
          exact hex ⟨c, hc, hinitial.2.1.symm⟩
  · rintro ⟨c, hc, rfl, rfl⟩
    exact hfound c hc

end Log

/-- The records below the node of a channel, as they are found from the root. -/
theorem exists_kindChildren {root n : PersistNode} (hroot : root.Sorted) {channelName : Str}
    (hn : root.find [ecf, channelName] = some n) (kind : ProxyKind) (oid : Str)
    (a : List (Str × Str)) :
    (∃ m, (oid, m) ∈ kindChildren n kind ∧ m.attrs = a) ↔
      root.attrsAt (keyPath channelName kind oid) = some a := by
  have hsorted : n.Sorted := hroot.find hn
  have hpath : root.find (keyPath channelName kind oid)
      = n.find [kind.admin, kind.name, oid] := by
    have := PersistNode.find_append [ecf, channelName] [kind.admin, kind.name, oid] root
    rw [hn] at this
    exact this
  rw [PersistNode.attrsAt, hpath]
  simp only [mem_kindChildren hsorted, Option.map_eq_some_iff]

/-! ## Decoding one record

What a record is decoded to, kind by kind, and which exceptions are ignored on the way. -/

/-- The flag that a record carries; only the kinds that push have one. -/
def flagOf (kind : ProxyKind) (node : PersistNode) : Bool :=
  match kind with
  | .ProxyPushConsumer | .ProxyPushSupplier => isProxyOf node
  | .ProxyPullConsumer | .ProxyPullSupplier => false

/-- A proxy that has come back with the target `r`. Its record has the string of the target, except
    that a push supplier has not been given one. -/
def reborn (orb : Orb Ref) (kind : ProxyKind) (oid : Str) (r : Ref) (flag : Bool) :
    ProxyView Ref :=
  { kind, oid, active := true, connected := true, target := some r, targetIsProxy := flag
    attrs := (keyIOR, match kind with
      | .ProxyPushSupplier => []
      | _ => orb.object_to_string r) :: proxyAttr flag }

/-- The attempt to reconnect, if there is one, raises nothing that keeps the proxy from coming
    back. -/
def Calm (env : Env) (channelName : Str) (kind : ProxyKind) (oid : Str) (flag : Bool) : Prop :=
  flag = true → ∀ ex, env.remote channelName kind oid = some ex →
    match kind with
    | .ProxyPushConsumer => ex.ignored = true ∨ ex = .BAD_PARAM
    | .ProxyPushSupplier => ex.ignored = true
    | _ => True

section Decode

variable {orb : Orb Ref} {env : Env} {channelName oid : Str} {kind : ProxyKind}
  {node : PersistNode}

/-- A record that denotes nothing is dropped. -/
theorem decode_badParam (h : orb.string_to_ (node.attrString keyIOR) = .error .BAD_PARAM) :
    decode orb env channelName kind oid node = .ok none := by
  cases kind with
  | ProxyPushConsumer => simp [decode, Connection.reincarnate, h, Except.map]
  | ProxyPullConsumer => simp [decode, ProxyPullConsumer.reincarnate, h, Except.map]
  | ProxyPushSupplier =>
      simp [decode, ProxyPushSupplier.reincarnate, h, Except.map, Exn.ignored]
  | ProxyPullSupplier => simp [decode, ProxyPullSupplier.reincarnate, h, Except.map]

/-- A record that denotes a reference comes back, connected to it, exactly if nothing goes wrong when
    it is reconnected. -/
theorem decode_eq_some_iff {r : Ref} (h : orb.string_to_ (node.attrString keyIOR) = .ok r)
    (v : ProxyView Ref) :
    decode orb env channelName kind oid node = .ok (some v) ↔
      Calm env channelName kind oid (flagOf kind node) ∧
        reborn orb kind oid r (flagOf kind node) = v := by
  cases kind with
  | ProxyPullConsumer =>
      simp [decode, ProxyPullConsumer.reincarnate, h, ProxyPullConsumer.connect_pull_supplier,
        ProxyPullConsumer.new, ProxyPullConsumer.view, Except.map, reborn, flagOf, refAttrs, Calm,
        proxyAttr]
  | ProxyPullSupplier =>
      simp [decode, ProxyPullSupplier.reincarnate, h, ProxyPullSupplier.connect_pull_consumer,
        ProxyPullSupplier.new, ProxyPullSupplier.view, Except.map, reborn, flagOf, refAttrs, Calm,
        proxyAttr]
  | ProxyPushConsumer =>
      simp only [decode, Connection.reincarnate, h, flagOf, Connection.new]
      by_cases hflag : isProxyOf node = true
      · simp only [hflag, if_true, Calm]
        cases hremote : env.remote channelName .ProxyPushConsumer oid with
        | none => simp [Except.map, Connection.view, reborn]
        | some ex =>
            by_cases hex : (ex.ignored || ex == .BAD_PARAM) = true
            · have hex' : ex.ignored = true ∨ ex = .BAD_PARAM := by simpa using hex
              simp [hex, hex', Except.map, Connection.view, reborn]
            · have hex' : ¬(ex.ignored = true ∨ ex = .BAD_PARAM) := by simpa using hex
              simp [hex, hex', Except.map]
      · simp [hflag, Except.map, Connection.view, reborn, Calm]
  | ProxyPushSupplier =>
      simp only [decode, ProxyPushSupplier.reincarnate, h, flagOf, ProxyPushSupplier.new]
      by_cases hflag : isProxyOf node = true
      · simp only [hflag, if_true, Calm]
        cases hremote : env.remote channelName .ProxyPushSupplier oid with
        | none => simp [Except.map, ProxyPushSupplier.view, reborn]
        | some ex =>
            by_cases hex : ex.ignored = true
            · simp [hex, Except.map, ProxyPushSupplier.view, reborn]
            · have hne : keep (.error ex : Except Exn (ProxyView Ref)) ≠ .ok (some v) := by
                cases ex <;> simp [keep]
              simp [hex, Except.map, hne]
      · simp [hflag, Except.map, ProxyPushSupplier.view, reborn, Calm]

/-- Only the record of a push supplier can denote a reference and be dropped nevertheless. -/
theorem decode_ne_none {r : Ref} (h : orb.string_to_ (node.attrString keyIOR) = .ok r)
    (hkind : kind ≠ .ProxyPushSupplier) : decode orb env channelName kind oid node ≠ .ok none := by
  cases kind with
  | ProxyPushSupplier => exact absurd rfl hkind
  | ProxyPullConsumer =>
      simp [decode, ProxyPullConsumer.reincarnate, h, ProxyPullConsumer.connect_pull_supplier,
        ProxyPullConsumer.new, Except.map]
  | ProxyPullSupplier =>
      simp [decode, ProxyPullSupplier.reincarnate, h, ProxyPullSupplier.connect_pull_consumer,
        ProxyPullSupplier.new, Except.map]
  | ProxyPushConsumer =>
      simp only [decode, Connection.reincarnate, h]
      split
      · cases env.remote channelName .ProxyPushConsumer oid with
        | none => simp [Except.map]
        | some ex =>
            simp only
            split <;> simp [Except.map]
      · simp [Except.map]

/-- A record that either denotes a reference or is recognised as denoting none. -/
def Readable (orb : Orb Ref) (node : PersistNode) : Prop :=
  (∃ r, orb.string_to_ (node.attrString keyIOR) = .ok r) ∨
    orb.string_to_ (node.attrString keyIOR) = .error .BAD_PARAM

/-- What comes back from a readable record is connected, active, and has the key of the record. -/
theorem decode_key (hreadable : Readable orb node) {v : ProxyView Ref}
    (h : decode orb env channelName kind oid node = .ok (some v)) :
    v.kind = kind ∧ v.oid = oid ∧ v.active = true ∧ v.connected = true := by
  rcases hreadable with ⟨r, hr⟩ | hbad
  · rw [← ((decode_eq_some_iff hr v).1 h).2]
    exact ⟨rfl, rfl, rfl, rfl⟩
  · rw [decode_badParam hbad] at h
    cases h

/-- The start goes on after a readable record exactly if that record calls for no reconnection that
    fails. -/
theorem decode_ok_of_calm (hreadable : Readable orb node)
    (hcalm : Calm env channelName kind oid (flagOf kind node)) :
    ∃ v, decode orb env channelName kind oid node = .ok v := by
  rcases hreadable with ⟨r, hr⟩ | hbad
  · exact ⟨_, (decode_eq_some_iff hr _).2 ⟨hcalm, rfl⟩⟩
  · exact ⟨_, decode_badParam hbad⟩

end Decode

section DecodeAll

variable {orb : Orb Ref} {env : Env} {channelName : Str} {n : PersistNode}
  {views : List (ProxyView Ref)}

theorem decodeAll_eq_some :
    decodeAll orb env channelName n = some views ↔
      ∃ a b c d, decodeKind orb env channelName n .ProxyPushConsumer = some a ∧
        decodeKind orb env channelName n .ProxyPullConsumer = some b ∧
        decodeKind orb env channelName n .ProxyPushSupplier = some c ∧
        decodeKind orb env channelName n .ProxyPullSupplier = some d ∧
        views = (a ++ b) ++ (c ++ d) := by
  simp only [decodeAll, Option.bind_eq_bind, Option.bind_eq_some_iff, Option.pure_def,
    Option.some_inj]
  constructor
  · rintro ⟨a, ha, b, hb, c, hc, d, hd, rfl⟩
    exact ⟨a, b, c, d, ha, hb, hc, hd, rfl⟩
  · rintro ⟨a, b, c, d, ha, hb, hc, hd, rfl⟩
    exact ⟨a, ha, b, hb, c, hc, d, hd, rfl⟩

/-- A channel comes back if every record below its node lets the start go on. -/
theorem decodeAll_isSome
    (h : ∀ kind, ∀ e ∈ kindChildren n kind, ∃ v, decode orb env channelName kind e.1 e.2 = .ok v) :
    ∃ views, decodeAll orb env channelName n = some views := by
  have hkind : ∀ kind, ∃ vs, decodeKind orb env channelName n kind = some vs := by
    intro kind
    rw [← Option.isSome_iff_exists, ← Option.ne_none_iff_isSome, Ne, decodeKind,
      gather_eq_none_iff]
    rintro ⟨e, he, ex, hex⟩
    obtain ⟨v, hv⟩ := h kind e he
    rw [hv] at hex
    cases hex
  obtain ⟨a, ha⟩ := hkind .ProxyPushConsumer
  obtain ⟨b, hb⟩ := hkind .ProxyPullConsumer
  obtain ⟨c, hc⟩ := hkind .ProxyPushSupplier
  obtain ⟨d, hd⟩ := hkind .ProxyPullSupplier
  exact ⟨_, decodeAll_eq_some.2 ⟨a, b, c, d, ha, hb, hc, hd, rfl⟩⟩

/-- The proxies of a channel that has come back are those of its records. -/
theorem ok_of_decodeAll (h : decodeAll orb env channelName n = some views) (kind : ProxyKind) :
    ∀ e ∈ kindChildren n kind, ∃ v, decode orb env channelName kind e.1 e.2 = .ok v := by
  obtain ⟨a, b, c, d, ha, hb, hc, hd, -⟩ := decodeAll_eq_some.1 h
  have hkind : ∃ vs, decodeKind orb env channelName n kind = some vs := by
    cases kind with
    | ProxyPushConsumer => exact ⟨a, ha⟩
    | ProxyPullConsumer => exact ⟨b, hb⟩
    | ProxyPushSupplier => exact ⟨c, hc⟩
    | ProxyPullSupplier => exact ⟨d, hd⟩
  obtain ⟨vs, hvs⟩ := hkind
  intro e he
  cases hdec : decode orb env channelName kind e.1 e.2 with
  | ok v => exact ⟨v, rfl⟩
  | error ex =>
      rw [decodeKind, gather_eq_none_iff.2 ⟨e, he, ex, hdec⟩] at hvs
      cases hvs

theorem mem_of_decodeAll (h : decodeAll orb env channelName n = some views) {v : ProxyView Ref} :
    v ∈ views ↔ ∃ kind, ∃ e ∈ kindChildren n kind,
      decode orb env channelName kind e.1 e.2 = .ok (some v) := by
  obtain ⟨a, b, c, d, ha, hb, hc, hd, rfl⟩ := decodeAll_eq_some.1 h
  simp only [List.mem_append, mem_of_gather ha, mem_of_gather hb, mem_of_gather hc,
    mem_of_gather hd]
  constructor
  · rintro ((h | h) | h | h) <;> exact ⟨_, h⟩
  · rintro ⟨kind, h⟩
    cases kind with
    | ProxyPushConsumer => exact Or.inl (Or.inl h)
    | ProxyPullConsumer => exact Or.inl (Or.inr h)
    | ProxyPushSupplier => exact Or.inr (Or.inl h)
    | ProxyPullSupplier => exact Or.inr (Or.inr h)

/-- They have distinct keys. -/
theorem nodup_of_decodeAll (hn : n.Sorted)
    (hreadable : ∀ kind, ∀ e ∈ kindChildren n kind, Readable orb e.2)
    (h : decodeAll orb env channelName n = some views) :
    (views.map (fun v => (v.kind, v.oid))).Nodup := by
  have hkind : ∀ kind vs, decodeKind orb env channelName n kind = some vs →
      (∀ v ∈ vs, v.kind = kind) ∧ (vs.map (fun v => (v.kind, v.oid))).Nodup := by
    intro kind vs hvs
    have hkeys : ∀ e ∈ kindChildren n kind, ∀ v,
        decode orb env channelName kind e.1 e.2 = .ok (some v) → v.kind = kind ∧ v.oid = e.1 :=
      fun e he v hv => ⟨(decode_key (hreadable kind e he) hv).1,
        (decode_key (hreadable kind e he) hv).2.1⟩
    refine ⟨?_, ?_⟩
    · intro v hv
      obtain ⟨e, he, hdec⟩ := (mem_of_gather hvs).1 hv
      exact (hkeys e he v hdec).1
    · have hsub := gather_keys (fun e => (kind, e.1)) (fun v => (v.kind, v.oid))
        (fun e he v hv => Prod.ext (hkeys e he v hv).1 (hkeys e he v hv).2) hvs
      refine hsub.nodup ?_
      have hnodup := (sorted_kindChildren hn kind).nodup_keys
      have hpairs : (((kindChildren n kind).map Prod.fst).map (fun o => (kind, o))).Nodup :=
        List.Nodup.map (fun o o' ho => (Prod.mk.inj ho).2) hnodup
      rwa [List.map_map] at hpairs
  obtain ⟨a, b, c, d, ha, hb, hc, hd, rfl⟩ := decodeAll_eq_some.1 h
  obtain ⟨hak, han⟩ := hkind _ _ ha
  obtain ⟨hbk, hbn⟩ := hkind _ _ hb
  obtain ⟨hck, hcn⟩ := hkind _ _ hc
  obtain ⟨hdk, hdn⟩ := hkind _ _ hd
  have hapart : ∀ {k k' : ProxyKind} {us vs : List (ProxyView Ref)}, (∀ v ∈ us, v.kind = k) →
      (∀ v ∈ vs, v.kind = k') → k ≠ k' →
      ∀ x ∈ us.map (fun v => (v.kind, v.oid)), ∀ y ∈ vs.map (fun v => (v.kind, v.oid)), x ≠ y := by
    intro k k' us vs hus hvs hne x hx y hy hxy
    obtain ⟨u, hu, rfl⟩ := List.mem_map.1 hx
    obtain ⟨v, hv, rfl⟩ := List.mem_map.1 hy
    exact hne ((hus u hu).symm.trans ((Prod.mk.inj hxy).1.trans (hvs v hv)))
  simp only [List.map_append]
  refine List.nodup_append.2 ⟨List.nodup_append.2 ⟨han, hbn, hapart hak hbk (by decide)⟩,
    List.nodup_append.2 ⟨hcn, hdn, hapart hck hdk (by decide)⟩, ?_⟩
  intro x hx y hy
  rcases List.mem_append.1 hx with hx | hx <;> rcases List.mem_append.1 hy with hy | hy
  · exact hapart hak hck (by decide) x hx y hy
  · exact hapart hak hdk (by decide) x hx y hy
  · exact hapart hbk hck (by decide) x hx y hy
  · exact hapart hbk hdk (by decide) x hx y hy

end DecodeAll

end OmniEvents
