import OmniEvents.DisconnectLog
import OmniEvents.Eviction
import OmniEvents.PushConsumerLog

set_option autoImplicit false

/-! # Calls to the proxies of a channel

A call to a proxy, and the record that it appends to the log, as one step; what may come between the
two is the subject of `PushConsumerLog` and `DisconnectLog`, and `ServerSteps` says how their steps
make up a call. A servant that is deactivated is gone, and so is one that is evicted. Whatever is
called, the channel stays one that can be written to a log, and what is appended is the record of the
one proxy that has changed (`called_of_call`). -/

namespace OmniEvents

open LogRecord (Clean CleanName)

variable {Ref : Type}

/-! ## Servants -/

namespace Servant

/-- Which manager the servant belongs to, and under which id. -/
def key (p : Servant Ref) : ProxyKind × Str :=
  match p with
  | pushSupplier p => (.ProxyPushSupplier, p.oid)
  | pullConsumer p => (.ProxyPullConsumer, p.oid)
  | pullSupplier p => (.ProxyPullSupplier, p.oid)

/-- What `incarnate` makes. The push consumer of a channel is a default servant. -/
def new (oid : Str) (now : ℕ) : ProxyKind → Option (Servant Ref)
  | .ProxyPushConsumer => none
  | .ProxyPullConsumer => some (pullConsumer (.new oid))
  | .ProxyPushSupplier => some (pushSupplier (.new oid true))
  | .ProxyPullSupplier => some (pullSupplier (.new oid true now))

/-- The reply to `_is_a`: the servant afterwards, and whether it writes its record. Only a push
    supplier asks. -/
def callback (r : IsAReply) : Servant Ref → Servant Ref × Bool
  | pushSupplier p =>
      match r with
      | .returned isProxy =>
          -- `Multiple connections`
          if p.targetIsProxy then (pushSupplier p, false)
          else (pushSupplier { p with targetIsProxy := isProxy }, isProxy)
      | .unexpected | .exception => (pushSupplier p, false)
  | p => (p, false)

@[simp] theorem key_fst (p : Servant Ref) (orb : Orb Ref) : (p.view orb).kind = p.key.1 := by
  cases p <;> rfl

@[simp] theorem key_snd (p : Servant Ref) (orb : Orb Ref) : (p.view orb).oid = p.key.2 := by
  cases p <;> rfl

theorem key_callback (p : Servant Ref) (r : IsAReply) : (p.callback r).1.key = p.key := by
  cases p with
  | pushSupplier p =>
      cases r with
      | returned isProxy =>
          simp only [callback]
          split <;> rfl
      | unexpected => rfl
      | exception => rfl
  | pullConsumer p => rfl
  | pullSupplier p => rfl

theorem key_new {oid : Str} {now : ℕ} {kind : ProxyKind} {p : Servant Ref}
    (h : new oid now kind = some p) : p.key = (kind, oid) := by
  cases kind <;> cases h <;> rfl

theorem key_connect {orb : Orb Ref} {target : Option Ref} {now : ℕ} {p p' : Servant Ref}
    (h : p.connect orb target now = .ok p') : p'.key = p.key := by
  obtain ⟨hkind, hoid, -⟩ := DisconnectLog.connect_view h
  rw [key_fst, key_fst] at hkind
  rw [key_snd, key_snd] at hoid
  exact Prod.ext hkind hoid

end Servant

/-! ## Calls to the proxies of a channel -/

namespace EventChannel

variable (c : EventChannel Ref)

/-- The servants of the three managers. -/
def servants : List (Servant Ref) :=
  (c.pullConsumer.getD []).map .pullConsumer ++
    ((c.pushSupplier.getD []).map .pushSupplier ++ (c.pullSupplier.getD []).map .pullSupplier)

/-- The servant of a manager with this object id. -/
def servant (kind : ProxyKind) (oid : Str) : Option (Servant Ref) :=
  c.servants.find? (fun p => p.key = (kind, oid))

/-- `_servants.insert`; there is a manager from then on. -/
def insert : Servant Ref → EventChannel Ref
  | .pushSupplier p => { c with pushSupplier := some (c.pushSupplier.getD [] ++ [p]) }
  | .pullConsumer p => { c with pullConsumer := some (c.pullConsumer.getD [] ++ [p]) }
  | .pullSupplier p => { c with pullSupplier := some (c.pullSupplier.getD [] ++ [p]) }

/-- The servant with the key of `p` has become `p`. -/
def update : Servant Ref → EventChannel Ref
  | .pushSupplier p =>
      { c with pushSupplier := c.pushSupplier.map (·.map fun q => if q.oid = p.oid then p else q) }
  | .pullConsumer p =>
      { c with pullConsumer := c.pullConsumer.map (·.map fun q => if q.oid = p.oid then p else q) }
  | .pullSupplier p =>
      { c with pullSupplier := c.pullSupplier.map (·.map fun q => if q.oid = p.oid then p else q) }

/-- The connection is erased, or the servant deactivated and etherealized. -/
def remove (oid : Str) : ProxyKind → EventChannel Ref
  | .ProxyPushConsumer => { c with connections := OrdMap.erase oid c.connections }
  | .ProxyPushSupplier => { c with pushSupplier := c.pushSupplier.map (·.filter (·.oid ≠ oid)) }
  | .ProxyPullConsumer => { c with pullConsumer := c.pullConsumer.map (·.filter (·.oid ≠ oid)) }
  | .ProxyPullSupplier => { c with pullSupplier := c.pullSupplier.map (·.filter (·.oid ≠ oid)) }

/-- Is there a connection or a servant with this key? -/
def hasProxy (kind : ProxyKind) (oid : Str) : Bool :=
  match kind with
  | .ProxyPushConsumer => (c.connections.lookup oid).isSome
  | kind => (c.servant kind oid).isSome

/-- The pull supplier that `incarnate` disconnects to make room for a new one. -/
def victim : ProxyKind → Option (ProxyPullSupplier Ref)
  | .ProxyPullSupplier =>
      if maxNumProxies c.properties ≤ (c.pullSupplier.getD []).length then
        ProxyPullSupplier.oldest (c.pullSupplier.getD [])
      else none
  | _ => none

end EventChannel

/-- A call to a proxy, by a client, by the ORB or by the server itself. -/
inductive ProxyCall (Ref : Type) where
  /-- A call to the default servant under a new object id. -/
  | connect_push_supplier (count mypid sec : ℕ) (pushSupplier : Option Ref)
  | incarnate (kind : ProxyKind) (count mypid sec now : ℕ)
  /-- `connect_push_consumer`, `connect_pull_supplier` or `connect_pull_consumer`. -/
  | connect (kind : ProxyKind) (oid : Str) (target : Option Ref) (now : ℕ)
  | callback (kind : ProxyKind) (oid : Str) (r : IsAReply)
  /-- A disconnect by the client, on the destruction of the channel, or after a failure. -/
  | disconnect (kind : ProxyKind) (oid : Str)

/-- The connection that a call makes, unless it fails. -/
def ProxyCall.made : ProxyCall Ref → Option (ProxyKind × Str)
  | .connect_push_supplier count mypid sec _ =>
      some (.ProxyPushConsumer, newUniqueId count mypid sec)
  | .connect kind oid _ _ => some (kind, oid)
  | _ => none

/-- The proxy that goes with a call. -/
def EventChannel.ended (c : EventChannel Ref) : ProxyCall Ref → Option (ProxyKind × Str)
  | .incarnate kind _ _ _ _ => (c.victim kind).map fun q => (.ProxyPullSupplier, q.oid)
  | .disconnect kind oid => some (kind, oid)
  | _ => none

/-- What a call makes of the channel, and what it appends to the log. The two are one step here, in a
    disconnect and in an eviction too; `ServerSteps` takes them apart. -/
def EventChannel.call (orb : Orb Ref) (c : EventChannel Ref) :
    ProxyCall Ref → Option (EventChannel Ref × List LogRecord)
  | .connect_push_supplier count mypid sec pushSupplier =>
      let oid := newUniqueId count mypid sec
      match pushSupplier, c.connections.lookup oid with
      | none, _ => some (c, []) -- BAD_PARAM
      | some _, some _ => some (c, []) -- AlreadyConnected
      | some pushSupplier, none =>
          let connection := Connection.new orb c.name oid pushSupplier
          some ({ c with connections := OrdMap.insert oid connection c.connections },
            [connection.output])
  | .incarnate kind count mypid sec now =>
      let oid := newUniqueId count mypid sec
      if c.hasProxy kind oid then none
      else
        match Servant.new oid now kind, c.victim kind with
        | none, _ => none
        | some p, none =>
            -- `oldest` is a null pointer
            if kind = .ProxyPullSupplier ∧
                maxNumProxies c.properties ≤ (c.pullSupplier.getD []).length then none
            else some (c.insert p, [])
        | some p, some oldest =>
            some ((c.remove oldest.oid .ProxyPullSupplier).insert p,
              [.erase (keyPath c.name .ProxyPullSupplier oldest.oid)])
  | .connect kind oid target now =>
      (c.servant kind oid).map fun p =>
        match p.connect orb target now with
        | .error _ => (c, [])
        | .ok p => (c.update p, (p.output orb c.name).records)
  | .callback .ProxyPushConsumer oid r =>
      match c.connections.lookup oid with
      | none => none
      | some connection =>
          -- there is no request for a connection that is known to be federated
          if connection.targetIsProxy then none
          else
            some ({ c with
                connections := OrdMap.insert oid (connection.callback r).1 c.connections },
              (connection.callback r).2.toList)
  | .callback kind oid r =>
      (c.servant kind oid).map fun p =>
        (c.update (p.callback r).1,
          if (p.callback r).2 then ((p.callback r).1.output orb c.name).records else [])
  | .disconnect kind oid =>
      if c.hasProxy kind oid then some (c.remove oid kind, [.erase (keyPath c.name kind oid)])
      else none

/-! ## Channels that are sound

What holds of every channel of a server between two calls, and what makes its log say what it has:
active servants, ids that the server has made, strings that belong to their references. -/

/-- A servant that is active, with an id that the server has made, and the string of its target or,
    for a push supplier, none. -/
structure Servant.Sound (orb : Orb Ref) (p : Servant Ref) : Prop where
  active : p.toProxy.active = true
  oid : ∃ count mypid sec, p.key.2 = newUniqueId count mypid sec
  target : match p with
    | .pushSupplier p =>
        p.target_sior = [] ∨ ∃ r, p.target = some r ∧ p.target_sior = orb.object_to_string r
    | .pullConsumer _ => True
    | .pullSupplier p => p.connected = false → p.target = none

/-- A connection of this channel, with the string of its target and an id that the server has
    made. -/
structure Connection.Sound (orb : Orb Ref) (channelName : Str) (c : Connection Ref) : Prop where
  channelName_eq : c.channelName = channelName
  target_sior : c.target_sior = orb.object_to_string c.target
  oid : ∃ count mypid sec, c.oidstr = newUniqueId count mypid sec

/-- A channel that can be written to a log and read back: everything in it is where its key says,
    and has its own key. -/
structure EventChannel.Sound (orb : Orb Ref) (c : EventChannel Ref) : Prop where
  sorted : OrdMap.Sorted c.connections
  keyed : ∀ e ∈ c.connections, e.1 = e.2.oidstr
  connections : ∀ e ∈ c.connections, e.2.Sound orb c.name
  keys : (c.servants.map Servant.key).Nodup
  servants : ∀ p ∈ c.servants, p.Sound orb
  properties : OrdMap.Sorted c.properties
  room : (c.pullSupplier.getD []).length ≤ maxNumProxies c.properties

namespace EventChannel

section Views

variable {orb : Orb Ref} {c : EventChannel Ref}

theorem views_eq (c : EventChannel Ref) (orb : Orb Ref) :
    c.views orb = c.connections.map (·.2.view) ++ c.servants.map (·.view orb) := by
  simp only [views, servants, List.map_append, List.map_map, List.append_assoc]
  rfl

theorem mem_views {v : ProxyView Ref} :
    v ∈ c.views orb ↔
      (∃ e ∈ c.connections, e.2.view = v) ∨ ∃ p ∈ c.servants, p.view orb = v := by
  rw [views_eq, List.mem_append, List.mem_map, List.mem_map]

theorem kind_servant {p : Servant Ref} : p.key.1 ≠ .ProxyPushConsumer := by
  cases p <;> simp [Servant.key]

theorem uniqueKeys_iff : c.UniqueKeys orb ↔
    (c.connections.map (·.2.oidstr)).Nodup ∧ (c.servants.map Servant.key).Nodup := by
  have hconnections : (c.connections.map (·.2.view)).map (fun v => (v.kind, v.oid))
      = (c.connections.map (·.2.oidstr)).map (Prod.mk ProxyKind.ProxyPushConsumer) := by
    simp only [List.map_map]
    rfl
  have hservants : (c.servants.map (·.view orb)).map (fun v => (v.kind, v.oid))
      = c.servants.map Servant.key := by
    rw [List.map_map]
    refine List.map_congr_left ?_
    intro p _
    simp
  have hdisjoint : List.Disjoint
      ((c.connections.map (·.2.oidstr)).map (Prod.mk ProxyKind.ProxyPushConsumer))
      (c.servants.map Servant.key) := by
    intro key hkey hkey'
    obtain ⟨oid, -, rfl⟩ := List.mem_map.1 hkey
    obtain ⟨p, -, hp⟩ := List.mem_map.1 hkey'
    exact kind_servant (congrArg Prod.fst hp)
  rw [UniqueKeys, views_eq, List.map_append, hconnections, hservants, List.nodup_append']
  rw [List.nodup_map_iff (Prod.mk_right_injective _)]
  tauto

theorem mem_pushSupplier {p : ProxyPushSupplier Ref} :
    p ∈ c.pushSupplier.getD [] ↔ .pushSupplier p ∈ c.servants := by
  simp [servants]

theorem mem_pullSupplier {p : ProxyPullSupplier Ref} :
    p ∈ c.pullSupplier.getD [] ↔ .pullSupplier p ∈ c.servants := by
  simp [servants]

theorem servant_eq_some {kind : ProxyKind} {oid : Str} {p : Servant Ref}
    (h : c.servant kind oid = some p) : p ∈ c.servants ∧ p.key = (kind, oid) :=
  ⟨List.mem_of_find?_eq_some h, by simpa using List.find?_some h⟩

end Views

/-- A sound channel is a live one. -/
theorem Sound.live {orb : Orb Ref} {c : EventChannel Ref} (hc : c.Sound orb) : c.Live orb where
  active := by
    intro v hv
    rcases mem_views.1 hv with ⟨e, -, rfl⟩ | ⟨p, hp, rfl⟩
    · rfl
    · have h := (hc.servants p hp).active
      cases p <;> exact h
  keys := by
    refine uniqueKeys_iff.2 ⟨?_, hc.keys⟩
    have heq : c.connections.map (·.2.oidstr) = c.connections.map Prod.fst :=
      List.map_congr_left (fun e he => (hc.keyed e he).symm)
    rw [heq]
    exact hc.sorted.nodup_keys
  oids := by
    intro v hv
    rcases mem_views.1 hv with ⟨e, he, rfl⟩ | ⟨p, hp, rfl⟩
    · exact (hc.connections e he).oid
    · rw [Servant.key_snd]
      exact (hc.servants p hp).oid
  properties := hc.properties
  connections e he := ⟨(hc.connections e he).channelName_eq, (hc.connections e he).target_sior⟩
  pushSupplier p hp := (hc.servants _ (mem_pushSupplier.1 hp)).target
  pullSupplier p hp := (hc.servants _ (mem_pullSupplier.1 hp)).target
  room := hc.room

/-! ## What the calls make of the servants -/

section Servants

variable {orb : Orb Ref} {c : EventChannel Ref} {p : Servant Ref} {oid : Str}

theorem servants_insert (c : EventChannel Ref) (p : Servant Ref) :
    (c.insert p).servants.Perm (p :: c.servants) := by
  cases p with
  | pullConsumer p =>
      simp only [servants, insert, Option.getD_some, List.map_append, List.map_cons, List.map_nil,
        List.append_assoc, List.singleton_append]
      exact List.perm_middle
  | pushSupplier p =>
      simp only [servants, insert, Option.getD_some, List.map_append, List.map_cons, List.map_nil,
        List.append_assoc, List.singleton_append]
      exact (List.Perm.append_left _ List.perm_middle).trans List.perm_middle
  | pullSupplier p =>
      simp only [servants, insert, Option.getD_some, List.map_append, List.map_cons, List.map_nil]
      rw [← List.append_assoc, ← List.append_assoc, ← List.append_assoc]
      exact List.perm_append_comm

/-- The other managers have no servant with the key of `p`. -/
theorem servants_update (c : EventChannel Ref) (p : Servant Ref) :
    (c.update p).servants = c.servants.map (fun q => if q.key = p.key then p else q) := by
  have hmap : ∀ {σ : Type} (servants : Option (List σ)) (f : σ → σ),
      (servants.map (·.map f)).getD [] = (servants.getD []).map f := by
    intro σ servants f
    cases servants <;> rfl
  cases p <;>
    simp only [servants, update, hmap, List.map_append, List.map_map] <;>
    refine congrArg₂ _ ?_ (congrArg₂ _ ?_ ?_) <;>
    refine List.map_congr_left ?_ <;>
    intro q _ <;>
    simp only [Function.comp_apply, Servant.key, Prod.mk.injEq, true_and, reduceCtorEq, false_and,
      if_false] <;>
    split <;> rfl

theorem servants_remove (c : EventChannel Ref) (oid : Str) (kind : ProxyKind) :
    (c.remove oid kind).servants = c.servants.filter (·.key ≠ (kind, oid)) := by
  have hfilter : ∀ {σ : Type} (servants : Option (List σ)) (f : σ → Bool),
      (servants.map (·.filter f)).getD [] = (servants.getD []).filter f := by
    intro σ servants f
    cases servants <;> rfl
  cases kind <;>
    simp only [servants, remove, hfilter, List.filter_append, List.filter_map] <;>
    refine congrArg₂ _ ?_ (congrArg₂ _ ?_ ?_) <;>
    refine congrArg _ ?_ <;>
    first
      | (refine List.filter_congr ?_
         intro q _
         simp [Servant.key])
      | (refine (List.filter_eq_self.2 ?_).symm
         intro q _
         simp [Servant.key])

@[simp] theorem name_insert : (c.insert p).name = c.name := by cases p <;> rfl

@[simp] theorem properties_insert : (c.insert p).properties = c.properties := by cases p <;> rfl

@[simp] theorem connections_insert : (c.insert p).connections = c.connections := by cases p <;> rfl

@[simp] theorem name_update : (c.update p).name = c.name := by cases p <;> rfl

@[simp] theorem properties_update : (c.update p).properties = c.properties := by cases p <;> rfl

@[simp] theorem connections_update : (c.update p).connections = c.connections := by cases p <;> rfl

@[simp] theorem name_remove {kind : ProxyKind} : (c.remove oid kind).name = c.name := by
  cases kind <;> rfl

@[simp] theorem properties_remove {kind : ProxyKind} :
    (c.remove oid kind).properties = c.properties := by
  cases kind <;> rfl

theorem connections_remove {kind : ProxyKind} (hkind : kind ≠ .ProxyPushConsumer) :
    (c.remove oid kind).connections = c.connections := by
  cases kind with
  | ProxyPushConsumer => exact absurd rfl hkind
  | _ => rfl

theorem connections_remove_pushConsumer :
    (c.remove oid .ProxyPushConsumer).connections = OrdMap.erase oid c.connections := rfl

theorem mem_insert {q : Servant Ref} :
    q ∈ (c.insert p).servants ↔ q = p ∨ q ∈ c.servants := by
  rw [(servants_insert c p).mem_iff, List.mem_cons]

theorem length_pullSupplier (c : EventChannel Ref) :
    (c.pullSupplier.getD []).length
      = c.servants.countP (·.key.1 = .ProxyPullSupplier) := by
  simp [servants, List.countP_append, List.countP_map, Function.comp_def, Servant.key]

end Servants

/-! ## Soundness is kept -/

section Sound

variable {orb : Orb Ref} {c : EventChannel Ref} {p : Servant Ref} {oid : Str}

theorem Sound.insert (hc : c.Sound orb) (hp : p.Sound orb)
    (hfresh : ∀ q ∈ c.servants, q.key ≠ p.key)
    (hroom : p.key.1 = .ProxyPullSupplier →
      (c.pullSupplier.getD []).length < maxNumProxies c.properties) :
    (c.insert p).Sound orb where
  sorted := by
    rw [connections_insert]
    exact hc.sorted
  keyed := by
    rw [connections_insert]
    exact hc.keyed
  connections := by
    rw [connections_insert, name_insert]
    exact hc.connections
  keys := by
    refine ((servants_insert c p).map Servant.key).nodup_iff.2 ?_
    rw [List.map_cons, List.nodup_cons]
    refine ⟨?_, hc.keys⟩
    intro hmem
    obtain ⟨q, hq, hkey⟩ := List.mem_map.1 hmem
    exact hfresh q hq hkey
  servants := by
    intro q hq
    rcases mem_insert.1 hq with rfl | hq
    · exact hp
    · exact hc.servants q hq
  properties := by
    rw [properties_insert]
    exact hc.properties
  room := by
    have hle := hc.room
    rw [length_pullSupplier] at hle hroom ⊢
    rw [(servants_insert c p).countP_eq, List.countP_cons, properties_insert]
    split
    · next hkind => exact hroom (by simpa using hkind)
    · exact hle

theorem Sound.update (hc : c.Sound orb) (hp : p.Sound orb) : (c.update p).Sound orb where
  sorted := by
    rw [connections_update]
    exact hc.sorted
  keyed := by
    rw [connections_update]
    exact hc.keyed
  connections := by
    rw [connections_update, name_update]
    exact hc.connections
  keys := by
    have hkeys : (c.update p).servants.map Servant.key = c.servants.map Servant.key := by
      rw [servants_update, List.map_map]
      refine List.map_congr_left ?_
      intro q _
      simp only [Function.comp_apply]
      split
      · next h => exact h.symm
      · rfl
    rw [hkeys]
    exact hc.keys
  servants := by
    intro q hq
    rw [servants_update, List.mem_map] at hq
    obtain ⟨q, hq, rfl⟩ := hq
    split
    · exact hp
    · exact hc.servants q hq
  properties := by
    rw [properties_update]
    exact hc.properties
  room := by
    have hle := hc.room
    rw [length_pullSupplier] at hle ⊢
    rw [servants_update, List.countP_map, properties_update]
    refine le_of_eq_of_le (List.countP_congr ?_) hle
    intro q _
    simp only [Function.comp_apply]
    split
    · next h => rw [h]
    · rfl

theorem Sound.remove (hc : c.Sound orb) (oid : Str) (kind : ProxyKind) :
    (c.remove oid kind).Sound orb := by
  have hsub : (c.remove oid kind).connections.Sublist c.connections := by
    by_cases hkind : kind = .ProxyPushConsumer
    · rw [hkind, connections_remove_pushConsumer]
      exact List.filter_sublist
    · rw [connections_remove hkind]
  have hservants : (c.remove oid kind).servants.Sublist c.servants := by
    rw [servants_remove]
    exact List.filter_sublist
  refine ⟨hc.sorted.sublist hsub, ?_, ?_, hc.keys.sublist (hservants.map _), ?_, ?_, ?_⟩
  · exact fun e he => hc.keyed e (hsub.subset he)
  · intro e he
    rw [name_remove]
    exact hc.connections e (hsub.subset he)
  · exact fun q hq => hc.servants q (hservants.subset hq)
  · rw [properties_remove]
    exact hc.properties
  · rw [properties_remove, length_pullSupplier]
    refine le_trans (hservants.countP_le) ?_
    rw [← length_pullSupplier]
    exact hc.room

/-- A new connection, or a connection that has changed. -/
theorem Sound.setConnection (hc : c.Sound orb) {connection : Connection Ref}
    (hconnection : connection.Sound orb c.name) :
    { c with connections :=
        OrdMap.insert connection.oidstr connection c.connections }.Sound orb where
  sorted := hc.sorted.insert
  keyed := by
    intro e he
    rcases OrdMap.mem_insert he with rfl | he
    · rfl
    · exact hc.keyed e he
  connections := by
    intro e he
    rcases OrdMap.mem_insert he with rfl | he
    · exact hconnection
    · exact hc.connections e he
  keys := hc.keys
  servants := hc.servants
  properties := hc.properties
  room := hc.room

end Sound

/-! ## What the calls make of the views

A call changes one view or none, or puts another in the place of one. Its record is that of the
view, so what the log says and what the channel has change together. -/

end EventChannel

/-- Under what the record of the proxy stands in the log. -/
def ProxyView.key (v : ProxyView Ref) : ProxyKind × Str := (v.kind, v.oid)

namespace EventChannel

/-- What a call does to the views of a channel, what it appends to the log, which proxy goes, and
    which connection is made. -/
inductive Change (orb : Orb Ref) (c c' : EventChannel Ref) :
    List LogRecord → Option (ProxyKind × Str) → Option (ProxyKind × Str) → Prop where
  | same (made : Option (ProxyKind × Str)) (views : ∀ w, w ∈ c'.views orb ↔ w ∈ c.views orb) :
      Change orb c c' [] none made
  /-- A proxy that is not connected. -/
  | add (v : ProxyView Ref) (ior : v.ior = []) (fresh : ∀ w ∈ c.views orb, w.key ≠ v.key)
      (views : ∀ w, w ∈ c'.views orb ↔ w ∈ c.views orb ∨ w = v) : Change orb c c' [] none none
  | connect (v : ProxyView Ref) (old : ∀ w ∈ c.views orb, w.key = v.key → w.ior = [])
      (views : ∀ w, w ∈ c'.views orb ↔ w ∈ c.views orb ∧ w.key ≠ v.key ∨ w = v) :
      Change orb c c' [v.record c.name] none (some v.key)
  /-- The target turns out to be a proxy. -/
  | rewrite (v : ProxyView Ref)
      (old : ∀ w ∈ c.views orb, w.key = v.key → v.ior = w.ior ∧ v.target = w.target)
      (mem : ∃ w ∈ c.views orb, w.key = v.key)
      (views : ∀ w, w ∈ c'.views orb ↔ w ∈ c.views orb ∧ w.key ≠ v.key ∨ w = v) :
      Change orb c c' [v.record c.name] none none
  | erase (kind : ProxyKind) (oid : Str) (mem : ∃ w ∈ c.views orb, w.key = (kind, oid))
      (views : ∀ w, w ∈ c'.views orb ↔ w ∈ c.views orb ∧ w.key ≠ (kind, oid)) :
      Change orb c c' [.erase (keyPath c.name kind oid)] (some (kind, oid)) none
  /-- A proxy makes room for another. -/
  | evict (kind : ProxyKind) (oid : Str) (v : ProxyView Ref)
      (mem : ∃ w ∈ c.views orb, w.key = (kind, oid)) (ior : v.ior = [])
      (fresh : ∀ w ∈ c.views orb, w.key ≠ v.key)
      (views : ∀ w, w ∈ c'.views orb ↔ w ∈ c.views orb ∧ w.key ≠ (kind, oid) ∨ w = v) :
      Change orb c c' [.erase (keyPath c.name kind oid)] (some (kind, oid)) none

section Changes

variable {orb : Orb Ref} {c : EventChannel Ref} {p : Servant Ref} {oid : Str} {w : ProxyView Ref}

theorem key_view (p : Servant Ref) (orb : Orb Ref) : (p.view orb).key = p.key := by
  rw [ProxyView.key, Servant.key_fst, Servant.key_snd]

theorem mem_views_insert : w ∈ (c.insert p).views orb ↔ w ∈ c.views orb ∨ w = p.view orb := by
  rw [mem_views, mem_views, connections_insert]
  constructor
  · rintro (h | ⟨q, hq, rfl⟩)
    · exact Or.inl (Or.inl h)
    · rcases mem_insert.1 hq with rfl | hq
      · exact Or.inr rfl
      · exact Or.inl (Or.inr ⟨q, hq, rfl⟩)
  · rintro ((h | ⟨q, hq, rfl⟩) | rfl)
    · exact Or.inl h
    · exact Or.inr ⟨q, mem_insert.2 (Or.inr hq), rfl⟩
    · exact Or.inr ⟨p, mem_insert.2 (Or.inl rfl), rfl⟩

theorem key_connection_ne (e : Str × Connection Ref) : e.2.view.key ≠ p.key := by
  intro h
  exact kind_servant (congrArg Prod.fst h).symm

theorem mem_views_update (hp : ∃ q ∈ c.servants, q.key = p.key) :
    w ∈ (c.update p).views orb ↔ w ∈ c.views orb ∧ w.key ≠ p.key ∨ w = p.view orb := by
  rw [mem_views, mem_views, connections_update, servants_update]
  constructor
  · rintro (⟨e, he, rfl⟩ | ⟨q, hq, rfl⟩)
    · exact Or.inl ⟨Or.inl ⟨e, he, rfl⟩, key_connection_ne e⟩
    · obtain ⟨q, hmem, rfl⟩ := List.mem_map.1 hq
      by_cases hkey : q.key = p.key
      · rw [if_pos hkey]
        exact Or.inr rfl
      · rw [if_neg hkey]
        exact Or.inl ⟨Or.inr ⟨q, hmem, rfl⟩, by rwa [key_view]⟩
  · rintro (⟨⟨e, he, rfl⟩ | ⟨q, hq, rfl⟩, hkey⟩ | rfl)
    · exact Or.inl ⟨e, he, rfl⟩
    · rw [key_view] at hkey
      exact Or.inr ⟨q, List.mem_map.2 ⟨q, hq, if_neg hkey⟩, rfl⟩
    · obtain ⟨q, hq, hkey⟩ := hp
      exact Or.inr ⟨p, List.mem_map.2 ⟨q, hq, if_pos hkey⟩, rfl⟩

theorem mem_views_remove (hc : c.Sound orb) (oid : Str) (kind : ProxyKind) :
    w ∈ (c.remove oid kind).views orb ↔ w ∈ c.views orb ∧ w.key ≠ (kind, oid) := by
  have hconnections : (∃ e ∈ (c.remove oid kind).connections, e.2.view = w) ↔
      (∃ e ∈ c.connections, e.2.view = w) ∧ w.key ≠ (kind, oid) := by
    by_cases hkind : kind = .ProxyPushConsumer
    · subst hkind
      rw [connections_remove_pushConsumer, OrdMap.erase]
      constructor
      · rintro ⟨e, he, rfl⟩
        obtain ⟨he, hne⟩ := List.mem_filter.1 he
        refine ⟨⟨e, he, rfl⟩, ?_⟩
        intro hkey
        have hoid : e.2.oidstr = oid := congrArg Prod.snd hkey
        rw [← hc.keyed e he] at hoid
        simp [hoid] at hne
      · rintro ⟨⟨e, he, rfl⟩, hkey⟩
        have hne : e.1 ≠ oid := fun hoid => hkey (Prod.ext rfl ((hc.keyed e he).symm.trans hoid))
        exact ⟨e, List.mem_filter.2 ⟨he, by simpa using hne⟩, rfl⟩
    · rw [connections_remove hkind]
      refine ⟨?_, And.left⟩
      rintro ⟨e, he, rfl⟩
      exact ⟨⟨e, he, rfl⟩, fun hkey => hkind (congrArg Prod.fst hkey).symm⟩
  have hservants : (∃ p ∈ (c.remove oid kind).servants, p.view orb = w) ↔
      (∃ p ∈ c.servants, p.view orb = w) ∧ w.key ≠ (kind, oid) := by
    rw [servants_remove]
    constructor
    · rintro ⟨p, hp, rfl⟩
      obtain ⟨hp, hne⟩ := List.mem_filter.1 hp
      exact ⟨⟨p, hp, rfl⟩, by rwa [key_view, ← decide_eq_true_eq (p := p.key ≠ (kind, oid))]⟩
    · rintro ⟨⟨p, hp, rfl⟩, hkey⟩
      rw [key_view] at hkey
      exact ⟨p, List.mem_filter.2 ⟨hp, by simpa using hkey⟩, rfl⟩
  rw [mem_views, mem_views, hconnections, hservants, or_and_right]

theorem mem_views_setConnection (hc : c.Sound orb) {connection : Connection Ref} :
    w ∈ ({ c with connections :=
        OrdMap.insert connection.oidstr connection c.connections } : EventChannel Ref).views orb ↔
      w ∈ c.views orb ∧ w.key ≠ connection.view.key ∨ w = connection.view := by
  have hmem : ∀ e, e ∈ OrdMap.insert connection.oidstr connection c.connections ↔
      e = (connection.oidstr, connection) ∨ e ∈ c.connections ∧ e.1 ≠ connection.oidstr := by
    rintro ⟨k, d⟩
    rw [hc.sorted.insert.mem_iff_lookup, OrdMap.lookup_insert, hc.sorted.mem_iff_lookup]
    by_cases hk : k = connection.oidstr
    · simp [hk, eq_comm]
    · simp [hk]
  simp only [mem_views, hmem]
  constructor
  · rintro (⟨e, rfl | ⟨he, hne⟩, rfl⟩ | ⟨p, hp, rfl⟩)
    · exact Or.inr rfl
    · refine Or.inl ⟨Or.inl ⟨e, he, rfl⟩, ?_⟩
      intro hkey
      exact hne ((hc.keyed e he).trans (congrArg Prod.snd hkey))
    · refine Or.inl ⟨Or.inr ⟨p, hp, rfl⟩, ?_⟩
      rw [key_view]
      exact (key_connection_ne (connection.oidstr, connection)).symm
  · rintro (⟨⟨e, he, rfl⟩ | hp, hkey⟩ | rfl)
    · refine Or.inl ⟨e, Or.inr ⟨he, ?_⟩, rfl⟩
      intro hoid
      exact hkey (Prod.ext rfl ((hc.keyed e he).symm.trans hoid))
    · exact Or.inr hp
    · exact Or.inl ⟨(connection.oidstr, connection), Or.inl rfl, rfl⟩

end Changes

/-- What is true of every call. -/
structure Called (orb : Orb Ref) (c c' : EventChannel Ref) (records : List LogRecord)
    (ended made : Option (ProxyKind × Str)) : Prop where
  sound : c'.Sound orb
  name : c'.name = c.name
  properties : c'.properties = c.properties
  change : Change orb c c' records ended made

section Calls

variable {orb : Orb Ref} {c : EventChannel Ref} {p : Servant Ref} {kind : ProxyKind} {oid : Str}
  {now : ℕ} {r : IsAReply}

theorem Called.same (hc : c.Sound orb) (made : Option (ProxyKind × Str)) :
    Called orb c c [] none made :=
  ⟨hc, rfl, rfl, .same made fun _ => Iff.rfl⟩

theorem Connection.sound_new (orb : Orb Ref) (channelName : Str) (count mypid sec : ℕ)
    (pushSupplier : Ref) :
    (Connection.new orb channelName (newUniqueId count mypid sec) pushSupplier).Sound orb
      channelName :=
  ⟨rfl, rfl, count, mypid, sec, rfl⟩

theorem Connection.sound_callback {connection : Connection Ref} {channelName : Str}
    (h : connection.Sound orb channelName) : (connection.callback r).1.Sound orb channelName := by
  cases r <;> exact ⟨h.channelName_eq, h.target_sior, h.oid⟩

theorem sound_new {count mypid sec : ℕ}
    (h : Servant.new (newUniqueId count mypid sec) now kind = some p) :
    p.Sound orb ∧ (p.view orb).ior = [] := by
  cases kind <;> cases h
  · exact ⟨⟨rfl, ⟨count, mypid, sec, rfl⟩, trivial⟩, rfl⟩
  · exact ⟨⟨rfl, ⟨count, mypid, sec, rfl⟩, Or.inl rfl⟩, rfl⟩
  · exact ⟨⟨rfl, ⟨count, mypid, sec, rfl⟩, fun _ => rfl⟩, rfl⟩

theorem sound_connect {p' : Servant Ref} {target : Option Ref} (hp : p.Sound orb)
    (h : p.connect orb target now = .ok p') : p'.Sound orb := by
  have hoid := Servant.key_connect h ▸ hp.oid
  cases p with
  | pushSupplier p =>
      cases target with
      | none => cases h
      | some r =>
          simp only [Servant.connect, ProxyPushSupplier.connect_push_consumer] at h
          split at h
          · cases h
          · cases h
            exact ⟨hp.active, hoid, Or.inr ⟨r, rfl, rfl⟩⟩
  | pullConsumer p =>
      cases target with
      | none => cases h
      | some r =>
          simp only [Servant.connect, ProxyPullConsumer.connect_pull_supplier] at h
          split at h
          · cases h
          · cases h
            exact ⟨hp.active, hoid, trivial⟩
  | pullSupplier p =>
      simp only [Servant.connect, ProxyPullSupplier.connect_pull_consumer] at h
      split at h
      · cases h
      · cases h
        exact ⟨hp.active, hoid, fun hconnected => absurd hconnected (by simp)⟩

theorem sound_callback (hp : p.Sound orb) : (p.callback r).1.Sound orb := by
  have hoid := (Servant.key_callback p r).symm ▸ hp.oid
  cases p with
  | pushSupplier p =>
      cases r with
      | returned isProxy =>
          simp only [Servant.callback] at hoid ⊢
          split
          · exact hp
          · exact ⟨hp.active, hp.oid, hp.target⟩
      | unexpected => exact hp
      | exception => exact hp
  | pullConsumer p => exact hp
  | pullSupplier p => exact hp

/-- A reply that writes nothing changes nothing. -/
theorem callback_of_quiet (h : (p.callback r).2 = false) : (p.callback r).1 = p := by
  cases p with
  | pushSupplier p =>
      cases r with
      | returned isProxy =>
          simp only [Servant.callback] at h ⊢
          split
          · rfl
          · next hproxy =>
              rw [if_neg hproxy] at h
              simp only at h
              rw [h]
              cases p
              simp_all
      | unexpected => rfl
      | exception => rfl
  | pullConsumer p => rfl
  | pullSupplier p => rfl

theorem records_output (hp : p.Sound orb) (channelName : Str) :
    (p.output orb channelName).records = [(p.view orb).record channelName] := by
  rw [DisconnectLog.output_of_active hp.active]

theorem eq_of_key (hc : c.Sound orb) {w : ProxyView Ref} (hw : w ∈ c.views orb) {q : Servant Ref}
    (hq : q ∈ c.servants) (hkey : w.key = q.key) : w = q.view orb := by
  refine List.inj_on_of_nodup_map hc.live.keys hw (mem_views.2 (Or.inr ⟨q, hq, rfl⟩)) ?_
  show w.key = (q.view orb).key
  rw [hkey, key_view]

/-- A servant writes what it has become. -/
theorem Called.connect {q : Servant Ref} (hc : c.Sound orb) (hq : q ∈ c.servants)
    (hp : p.Sound orb) (hkey : p.key = q.key) (hior : (q.view orb).ior = []) :
    Called orb c (c.update p) (p.output orb c.name).records none (some q.key) := by
  rw [records_output hp, ← hkey, ← key_view p orb]
  refine ⟨hc.update hp, name_update, properties_update, .connect (p.view orb) ?_ ?_⟩
  · intro w hw hwkey
    rwa [eq_of_key hc hw hq (hwkey.trans ((key_view p orb).trans hkey))]
  · intro w
    rw [mem_views_update ⟨q, hq, hkey.symm⟩, key_view]

theorem Called.rewrite {q : Servant Ref} (hc : c.Sound orb) (hq : q ∈ c.servants)
    (hp : p.Sound orb) (hkey : p.key = q.key) (hior : (p.view orb).ior = (q.view orb).ior)
    (htarget : (p.view orb).target = (q.view orb).target) :
    Called orb c (c.update p) (p.output orb c.name).records none none := by
  rw [records_output hp]
  refine ⟨hc.update hp, name_update, properties_update, .rewrite (p.view orb) ?_ ?_ ?_⟩
  · intro w hw hwkey
    rw [eq_of_key hc hw hq (hwkey.trans ((key_view p orb).trans hkey))]
    exact ⟨hior, htarget⟩
  · exact ⟨q.view orb, mem_views.2 (Or.inr ⟨q, hq, rfl⟩), by rw [key_view, key_view, hkey]⟩
  · intro w
    rw [mem_views_update ⟨q, hq, hkey.symm⟩, key_view]

/-- A servant that has an IOR cannot be connected again. -/
theorem ior_of_connect {p' : Servant Ref} {target : Option Ref} (hp : p.Sound orb)
    (h : p.connect orb target now = .ok p') : (p.view orb).ior = [] := by
  have hior : ∀ target : Option Ref, target.isSome = false →
      ((refAttrs orb target).lookup keyIOR).getD [] = [] := by
    intro target htarget
    cases target with
    | none => rfl
    | some r => cases htarget
  cases p with
  | pushSupplier p =>
      cases target with
      | none => cases h
      | some r =>
          simp only [Servant.connect, ProxyPushSupplier.connect_push_consumer] at h
          split at h
          · cases h
          · next hfree =>
              rcases hp.target with hsior | ⟨r, hr, -⟩
              · rw [Servant.view, ProxyView.ior, ProxyPushSupplier.view, lookup_keyIOR_cons, hsior]
                rfl
              · simp [hr] at hfree
  | pullConsumer p =>
      cases target with
      | none => cases h
      | some r =>
          simp only [Servant.connect, ProxyPullConsumer.connect_pull_supplier] at h
          split at h
          · cases h
          · next hfree => exact hior p.target (by simp_all)
  | pullSupplier p =>
      simp only [Servant.connect, ProxyPullSupplier.connect_pull_consumer] at h
      split at h
      · cases h
      · next hfree => exact hior p.target (by simp_all)

theorem view_callback (p : Servant Ref) (r : IsAReply) (orb : Orb Ref) :
    ((p.callback r).1.view orb).ior = (p.view orb).ior ∧
      ((p.callback r).1.view orb).target = (p.view orb).target := by
  cases p with
  | pushSupplier p =>
      cases r with
      | returned isProxy =>
          simp only [Servant.callback]
          split
          · exact ⟨rfl, rfl⟩
          · refine ⟨?_, rfl⟩
            simp only [Servant.view, ProxyPushSupplier.view, ProxyView.ior, lookup_keyIOR_cons]
      | unexpected => exact ⟨rfl, rfl⟩
      | exception => exact ⟨rfl, rfl⟩
  | pullConsumer p => exact ⟨rfl, rfl⟩
  | pullSupplier p => exact ⟨rfl, rfl⟩

theorem output_connection {connection : Connection Ref} {channelName : Str}
    (h : connection.Sound orb channelName) :
    connection.output = connection.view.record channelName := by
  rw [← h.channelName_eq]
  rfl

theorem Called.new_connection (hc : c.Sound orb) {connection : Connection Ref}
    (hconnection : connection.Sound orb c.name)
    (hlookup : c.connections.lookup connection.oidstr = none) :
    Called orb c { c with connections := OrdMap.insert connection.oidstr connection c.connections }
      [connection.output] none (some (.ProxyPushConsumer, connection.oidstr)) := by
  rw [output_connection hconnection]
  refine ⟨hc.setConnection hconnection, rfl, rfl, .connect connection.view ?_ fun w =>
    mem_views_setConnection hc⟩
  intro w hw hkey
  rcases mem_views.1 hw with ⟨e, he, rfl⟩ | ⟨p, -, rfl⟩
  · have hoid : e.1 = connection.oidstr := (hc.keyed e he).trans (congrArg Prod.snd hkey)
    rw [← hoid, hc.sorted.mem_iff_lookup.1 he] at hlookup
    cases hlookup
  · rw [key_view] at hkey
    exact absurd hkey.symm (key_connection_ne (connection.oidstr, connection))

theorem Called.rewrite_connection (hc : c.Sound orb) {old d : Connection Ref}
    (hlookup : c.connections.lookup d.oidstr = some old)
    (hd : d.Sound orb c.name) (htarget : d.target = old.target)
    (hsior : d.target_sior = old.target_sior) :
    Called orb c { c with connections := OrdMap.insert d.oidstr d c.connections }
      [d.output] none none := by
  have hmem := hc.sorted.mem_iff_lookup.2 hlookup
  have hview : old.view ∈ c.views orb := mem_views.2 (Or.inl ⟨_, hmem, rfl⟩)
  have hkey : old.view.key = d.view.key := Prod.ext rfl (hc.keyed _ hmem).symm
  rw [output_connection hd]
  refine ⟨hc.setConnection hd, rfl, rfl, .rewrite d.view ?_ ⟨_, hview, hkey⟩
    fun w => mem_views_setConnection hc⟩
  intro w hw hwkey
  have heq : w = old.view := List.inj_on_of_nodup_map hc.live.keys hw hview (hwkey.trans hkey.symm)
  subst heq
  refine ⟨?_, congrArg some htarget⟩
  simp only [Connection.view, ProxyView.ior, lookup_keyIOR_cons, hsior]

theorem hasProxy_iff (hc : c.Sound orb) :
    c.hasProxy kind oid = true ↔ ∃ w ∈ c.views orb, w.key = (kind, oid) := by
  have hservant : (c.servant kind oid).isSome = true ↔ ∃ p ∈ c.servants, p.key = (kind, oid) := by
    simp [servant]
  have hconnection : (c.connections.lookup oid).isSome = true ↔
      ∃ e ∈ c.connections, e.2.view.key = (.ProxyPushConsumer, oid) := by
    rw [Option.isSome_iff_exists]
    constructor
    · rintro ⟨d, hd⟩
      have hmem := hc.sorted.mem_iff_lookup.2 hd
      exact ⟨_, hmem, Prod.ext rfl (hc.keyed _ hmem).symm⟩
    · rintro ⟨e, he, hkey⟩
      have hoid : e.1 = oid := (hc.keyed e he).trans (congrArg Prod.snd hkey)
      exact ⟨e.2, hc.sorted.mem_iff_lookup.1 (hoid ▸ he)⟩
  have hviews : (∃ w ∈ c.views orb, w.key = (kind, oid)) ↔
      (∃ e ∈ c.connections, e.2.view.key = (kind, oid)) ∨
        ∃ p ∈ c.servants, p.key = (kind, oid) := by
    simp only [mem_views]
    constructor
    · rintro ⟨w, ⟨e, he, rfl⟩ | ⟨p, hp, rfl⟩, hkey⟩
      · exact Or.inl ⟨e, he, hkey⟩
      · exact Or.inr ⟨p, hp, key_view p orb ▸ hkey⟩
    · rintro (⟨e, he, hkey⟩ | ⟨p, hp, hkey⟩)
      · exact ⟨_, Or.inl ⟨e, he, rfl⟩, hkey⟩
      · exact ⟨_, Or.inr ⟨p, hp, rfl⟩, (key_view p orb).trans hkey⟩
  rw [hviews]
  by_cases hkind : kind = .ProxyPushConsumer
  · subst hkind
    rw [hasProxy, hconnection]
    refine (or_iff_left ?_).symm
    rintro ⟨p, -, hkey⟩
    exact kind_servant (congrArg Prod.fst hkey)
  · have hhas : c.hasProxy kind oid = (c.servant kind oid).isSome := by
      cases kind with
      | ProxyPushConsumer => exact absurd rfl hkind
      | _ => rfl
    rw [hhas, hservant]
    refine (or_iff_right ?_).symm
    rintro ⟨e, -, hkey⟩
    exact hkind (congrArg Prod.fst hkey).symm

theorem victim_spec {q : ProxyPullSupplier Ref} (h : c.victim kind = some q) :
    kind = .ProxyPullSupplier ∧ q ∈ c.pullSupplier.getD [] := by
  cases kind with
  | ProxyPullSupplier =>
      simp only [victim] at h
      split at h
      · obtain ⟨i, hi, -⟩ := ProxyPullSupplier.oldest_spec h
        exact ⟨rfl, List.mem_of_getElem? hi⟩
      · cases h
  | _ => cases h

/-- A servant that has gone leaves room for another. -/
theorem length_remove_lt {q : ProxyPullSupplier Ref} (hq : q ∈ c.pullSupplier.getD []) :
    ((c.remove q.oid .ProxyPullSupplier).pullSupplier.getD []).length
      < (c.pullSupplier.getD []).length := by
  cases hservants : c.pullSupplier with
  | none =>
      rw [hservants] at hq
      cases hq
  | some servants =>
      rw [hservants] at hq
      simp only [remove, hservants, Option.map_some, Option.getD_some]
      exact List.length_filter_lt_length_iff_exists.2 ⟨q, hq, by simp⟩

theorem fresh_of_hasProxy (hc : c.Sound orb) (h : ¬ c.hasProxy kind oid = true)
    (hkey : p.key = (kind, oid)) : ∀ w ∈ c.views orb, w.key ≠ (p.view orb).key := by
  intro w hw heq
  rw [key_view, hkey] at heq
  exact h ((hasProxy_iff hc).2 ⟨w, hw, heq⟩)

theorem fresh_servants (hfresh : ∀ w ∈ c.views orb, w.key ≠ (p.view orb).key) :
    ∀ q ∈ c.servants, q.key ≠ p.key := by
  intro q hq heq
  refine hfresh (q.view orb) (mem_views.2 (Or.inr ⟨q, hq, rfl⟩)) ?_
  rw [key_view, key_view, heq]

theorem Called.insert (hc : c.Sound orb) (hp : p.Sound orb) (hior : (p.view orb).ior = [])
    (hfresh : ∀ w ∈ c.views orb, w.key ≠ (p.view orb).key)
    (hroom : p.key.1 = .ProxyPullSupplier →
      (c.pullSupplier.getD []).length < maxNumProxies c.properties) :
    Called orb c (c.insert p) [] none none :=
  ⟨hc.insert hp (fresh_servants hfresh) hroom, name_insert, properties_insert,
    .add (p.view orb) hior hfresh fun _ => mem_views_insert⟩

theorem Called.evict {q : ProxyPullSupplier Ref} (hc : c.Sound orb) (hp : p.Sound orb)
    (hior : (p.view orb).ior = []) (hfresh : ∀ w ∈ c.views orb, w.key ≠ (p.view orb).key)
    (hq : q ∈ c.pullSupplier.getD []) :
    Called orb c ((c.remove q.oid .ProxyPullSupplier).insert p)
      [.erase (keyPath c.name .ProxyPullSupplier q.oid)] (some (.ProxyPullSupplier, q.oid))
      none := by
  have hremove := hc.remove q.oid .ProxyPullSupplier
  have hfresh' : ∀ w ∈ (c.remove q.oid .ProxyPullSupplier).views orb, w.key ≠ (p.view orb).key :=
    fun w hw => hfresh w ((mem_views_remove hc _ _).1 hw).1
  refine ⟨hremove.insert hp (fresh_servants hfresh') ?_, ?_, ?_, .evict .ProxyPullSupplier q.oid
    (p.view orb) ?_ hior hfresh ?_⟩
  · intro _
    rw [properties_remove]
    exact (length_remove_lt hq).trans_le hc.room
  · rw [name_insert, name_remove]
  · rw [properties_insert, properties_remove]
  · exact ⟨_, mem_views.2 (Or.inr ⟨_, mem_pullSupplier.1 hq, rfl⟩), rfl⟩
  · intro w
    rw [mem_views_insert, mem_views_remove hc]

theorem Called.remove (hc : c.Sound orb) (h : c.hasProxy kind oid = true) :
    Called orb c (c.remove oid kind) [.erase (keyPath c.name kind oid)] (some (kind, oid)) none :=
  ⟨hc.remove oid kind, name_remove, properties_remove,
    .erase kind oid ((hasProxy_iff hc).1 h) fun _ => mem_views_remove hc oid kind⟩

/-- A request is outstanding only for a connection that is not known to be federated. -/
theorem Called.callback_connection {connection : Connection Ref} (hc : c.Sound orb)
    (hlookup : c.connections.lookup connection.oidstr = some connection)
    (hproxy : connection.targetIsProxy = false) :
    Called orb c
      { c with connections :=
          OrdMap.insert connection.oidstr (connection.callback r).1 c.connections }
      (connection.callback r).2.toList none none := by
  have hmem := hc.sorted.mem_iff_lookup.2 hlookup
  have hsame : OrdMap.insert connection.oidstr connection c.connections = c.connections := by
    refine hc.sorted.insert.ext hc.sorted ?_
    intro k
    rw [OrdMap.lookup_insert]
    split
    · next hk => rw [hk, hlookup]
    · rfl
  have hquiet : Called orb c
      { c with connections := OrdMap.insert connection.oidstr connection c.connections } []
      none none := by
    rw [hsame]
    exact .same hc none
  cases r with
  | returned isProxy =>
      cases isProxy with
      | true =>
          exact .rewrite_connection (d := (connection.callback (.returned true)).1) hc hlookup
            (Connection.sound_callback (hc.connections _ hmem)) rfl rfl
      | false =>
          have hunchanged : (connection.callback (.returned false)).1 = connection := by
            simp only [Connection.callback]
            rw [← hproxy]
          rw [hunchanged]
          exact hquiet
  | unexpected => exact hquiet
  | exception => exact hquiet

theorem Called.callback_servant (hc : c.Sound orb) (hp : p ∈ c.servants) :
    Called orb c (c.update (p.callback r).1)
      (if (p.callback r).2 then ((p.callback r).1.output orb c.name).records else [])
      none none := by
  cases hwrites : (p.callback r).2 with
  | true =>
      exact .rewrite hc hp (sound_callback (hc.servants p hp)) (Servant.key_callback p r)
        (view_callback p r orb).1 (view_callback p r orb).2
  | false =>
      rw [callback_of_quiet hwrites]
      refine ⟨hc.update (hc.servants p hp), name_update, properties_update, .same none fun w => ?_⟩
      have hservants : (c.update p).servants = c.servants := by
        rw [servants_update]
        refine (List.map_congr_left ?_).trans (List.map_id _)
        intro q hq
        by_cases hkey : q.key = p.key
        · rw [if_pos hkey, List.inj_on_of_nodup_map hc.keys hq hp hkey]
          rfl
        · rw [if_neg hkey]
          rfl
      rw [mem_views, mem_views, connections_update, hservants]

theorem called_of_call (hc : c.Sound orb) {a : ProxyCall Ref} {c' : EventChannel Ref}
    {records : List LogRecord} (h : c.call orb a = some (c', records)) :
    Called orb c c' records (c.ended a) a.made := by
  cases a with
  | connect_push_supplier count mypid sec pushSupplier =>
      simp only [call] at h
      split at h
      · cases h
        exact .same hc _
      · cases h
        exact .same hc _
      · next hlookup =>
          cases h
          exact .new_connection hc (Connection.sound_new orb c.name count mypid sec _) hlookup
  | incarnate kind count mypid sec now =>
      simp only [call] at h
      split at h
      · cases h
      next hfree =>
      split at h
      · cases h
      · next p hnew hvictim =>
          split at h
          · cases h
          next hroom =>
          cases h
          obtain ⟨hp, hior⟩ := sound_new hnew
          have hkey := Servant.key_new hnew
          rw [ended, hvictim]
          refine .insert hc hp hior (fresh_of_hasProxy hc hfree hkey) ?_
          intro hkind
          rw [hkey] at hkind
          exact Nat.lt_of_not_le fun hle => hroom ⟨hkind, hle⟩
      · next p q hnew hvictim =>
          cases h
          obtain ⟨hp, hior⟩ := sound_new hnew
          rw [ended, hvictim]
          exact .evict hc hp hior (fresh_of_hasProxy hc hfree (Servant.key_new hnew))
            (victim_spec hvictim).2
  | connect kind oid target now =>
      obtain ⟨p, hp, heq⟩ := Option.map_eq_some_iff.1 h
      obtain ⟨hmem, hkey⟩ := servant_eq_some hp
      split at heq
      · cases heq
        exact .same hc _
      · next p' hconnect =>
          cases heq
          have hsound := hc.servants p hmem
          rw [ProxyCall.made, ← hkey]
          exact .connect hc hmem (sound_connect hsound hconnect) (Servant.key_connect hconnect)
            (ior_of_connect hsound hconnect)
  | callback kind oid r =>
      by_cases hkind : kind = .ProxyPushConsumer
      · subst hkind
        simp only [call] at h
        split at h
        · cases h
        next connection hlookup =>
        split at h
        · cases h
        next hproxy =>
        have hoid := hc.keyed _ (hc.sorted.mem_iff_lookup.2 hlookup)
        simp only at hoid
        subst hoid
        cases h
        exact .callback_connection hc hlookup (by simpa using hproxy)
      · have hservant : c.call orb (.callback kind oid r) = (c.servant kind oid).map fun p =>
            (c.update (p.callback r).1,
              if (p.callback r).2 then ((p.callback r).1.output orb c.name).records else []) := by
          cases kind with
          | ProxyPushConsumer => exact absurd rfl hkind
          | _ => rfl
        rw [hservant] at h
        obtain ⟨p, hp, heq⟩ := Option.map_eq_some_iff.1 h
        obtain ⟨hmem, -⟩ := servant_eq_some hp
        cases heq
        exact .callback_servant hc hmem
  | disconnect kind oid =>
      simp only [call] at h
      split at h
      · next hhas =>
          cases h
          exact .remove hc hhas
      · cases h

/-- What a call appends can stand in the log. -/
theorem Called.clean {c' : EventChannel Ref} {records : List LogRecord}
    {ended made : Option (ProxyKind × Str)} (horb : orb.Lawful)
    (hc : c.Sound orb) (hprint : c.Printable) (h : Called orb c c' records ended made) :
    ∀ r ∈ records, r.Clean := by
  have hprint' : c'.Printable := ⟨h.name ▸ hprint.name, h.properties ▸ hprint.properties⟩
  have herase : ∀ kind oid, (∃ w ∈ c.views orb, w.key = (kind, oid)) →
      (LogRecord.erase (keyPath c.name kind oid)).Clean := by
    rintro kind oid ⟨w, hw, hkey⟩
    obtain ⟨count, mypid, sec, hoid⟩ := hc.live.oids w hw
    have hclean : CleanName oid := by
      rw [← show w.oid = oid from congrArg Prod.snd hkey, hoid]
      exact cleanName_newUniqueId count mypid sec
    refine ⟨rfl, ?_⟩
    simp only [keyPath, List.forall_mem_cons, List.not_mem_nil, false_implies, implies_true,
      and_true]
    exact ⟨cleanName_ecf, hprint.name, kind.cleanName_admin, kind.cleanName_name, hclean⟩
  have hrecord : ∀ v ∈ c'.views orb, (v.record c.name).Clean := by
    intro v hv
    rw [← h.name]
    exact h.sound.live.clean_log horb hprint' _ (mem_log.2 (Or.inr ⟨v, hv, rfl⟩))
  cases h.change with
  | same _ _ => simp
  | add v _ _ _ => simp
  | connect v _ hviews =>
      rw [List.forall_mem_singleton]
      exact hrecord v ((hviews v).2 (Or.inr rfl))
  | rewrite v _ _ hviews =>
      rw [List.forall_mem_singleton]
      exact hrecord v ((hviews v).2 (Or.inr rfl))
  | erase kind oid hmem _ =>
      rw [List.forall_mem_singleton]
      exact herase kind oid hmem
  | evict kind oid v hmem _ _ _ =>
      rw [List.forall_mem_singleton]
      exact herase kind oid hmem

section Connections

variable {c' : EventChannel Ref} {records : List LogRecord} {ended made : Option (ProxyKind × Str)}

end Connections

end Calls

end EventChannel

end OmniEvents
