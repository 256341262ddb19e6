import OmniEvents.Accepted
import OmniEvents.RestartChannel

set_option autoImplicit false

/-! # Rounds of restart and checkpoint

A server starts from its log and writes a checkpoint right after. One such round gives back the
records of the connections that were in the log, except those of push suppliers: these are started
without the string of their target, so they are written with an empty IOR, and the round after that
drops them. -/

namespace OmniEvents

open LogRecord (Clean CleanName CleanPath CleanAttr replay attrMap ecf)
open EventChannelFactory (keyPort keyEndPoint)

variable {Ref : Type}

/-! ## One record -/

/-- What a proxy that has been reincarnated from a record writes for itself. -/
def rewritten (orb : Orb Ref) (env : Env) (channelName : Str) :
    ProxyKind → Str → PersistNode → Except Exn Written
  | .ProxyPushConsumer, oid, node =>
      (Connection.reincarnate orb (env.remote channelName .ProxyPushConsumer oid) channelName oid
        node).map (fun c => ⟨(c.map (·.output)).toList, none⟩)
  | .ProxyPullConsumer, oid, node =>
      (ProxyPullConsumer.reincarnate orb oid node).map (·.output orb channelName)
  | .ProxyPushSupplier, oid, node =>
      (ProxyPushSupplier.reincarnate orb (env.remote channelName .ProxyPushSupplier oid) oid
        node).map (·.output channelName)
  | .ProxyPullSupplier, oid, node =>
      (ProxyPullSupplier.reincarnate orb (env.now channelName oid) oid node).map
        (·.output orb channelName)

/-- The attributes of a record of a connection to `r`. -/
structure ConnectionAttrs (orb : Orb Ref) (kind : ProxyKind) (attrs : List (Str × Str)) (r : Ref)
    (flag : Bool) : Prop where
  attrs_eq : attrs = (keyIOR, orb.object_to_string r) :: proxyAttr flag
  ior_ne_nil : orb.object_to_string r ≠ []
  denotes : orb.string_to_object (orb.object_to_string r) = .ok (some r)
  /-- Only the kinds that push write a flag. -/
  push : flag = true → kind = .ProxyPushConsumer ∨ kind = .ProxyPushSupplier

section Record

variable {orb : Orb Ref} {env : Env} {channelName oid : Str} {kind : ProxyKind}
  {node : PersistNode} {r : Ref} {flag : Bool}

theorem ConnectionAttrs.string_to_ (h : ConnectionAttrs orb kind node.attrs r flag) :
    orb.string_to_ (node.attrString keyIOR) = .ok r := by
  have hlookup : node.attrString keyIOR = orb.object_to_string r := by
    rw [PersistNode.attrString, h.attrs_eq, lookup_keyIOR_cons, Option.getD_some]
  rw [hlookup, Orb.string_to_, h.denotes]

theorem ConnectionAttrs.flagOf (h : ConnectionAttrs orb kind node.attrs r flag) :
    flagOf kind node = flag := by
  have hflag := isProxyOf_of_attrs h.attrs_eq
  have hpush := h.push
  cases kind <;> cases flag <;> simp_all [OmniEvents.flagOf]

theorem ConnectionAttrs.isProxyOf (h : ConnectionAttrs orb kind node.attrs r flag) :
    isProxyOf node = flag :=
  isProxyOf_of_attrs h.attrs_eq

/-- A proxy that is accepted writes the record that it has been started from, unless it is a push
    supplier. -/
theorem rewritten_iff (h : ConnectionAttrs orb kind node.attrs r flag) {w : Written}
    (hw : rewritten orb env channelName kind oid node = .ok w) :
    w = ⟨[.entry (keyPath channelName kind oid) node.attrs], none⟩ ↔
      kind ≠ .ProxyPushSupplier := by
  have hdenotes := h.string_to_
  have hproxy := h.isProxyOf
  have hflag : kind = .ProxyPullConsumer ∨ kind = .ProxyPullSupplier → proxyAttr flag = [] := by
    have hpush := h.push
    rintro (rfl | rfl) <;> cases flag <;> simp_all [proxyAttr]
  cases kind with
  | ProxyPushConsumer =>
      have hc : ∀ c, Connection.reincarnate orb (env.remote channelName .ProxyPushConsumer oid)
          channelName oid node = .ok c → c = some (.new orb channelName oid r flag) := by
        intro c hc
        simp only [Connection.reincarnate, hdenotes, hproxy] at hc
        repeat' split at hc
        all_goals first | (cases hc; done) | exact (Except.ok.inj hc).symm
      obtain ⟨c, hreinc, rfl⟩ : ∃ c, Connection.reincarnate orb
          (env.remote channelName .ProxyPushConsumer oid) channelName oid node = .ok c ∧
          ⟨(c.map (·.output)).toList, none⟩ = w := by
        cases hreinc : Connection.reincarnate orb (env.remote channelName .ProxyPushConsumer oid)
            channelName oid node with
        | error ex => simp [rewritten, hreinc, Except.map] at hw
        | ok c => exact ⟨c, rfl, by simpa [rewritten, hreinc, Except.map] using hw⟩
      rw [hc c hreinc]
      simp [Connection.new, Connection.output, h.attrs_eq]
  | ProxyPullConsumer =>
      simp only [rewritten, ProxyPullConsumer.reincarnate, hdenotes,
        ProxyPullConsumer.connect_pull_supplier, ProxyPullConsumer.new, Except.map] at hw
      obtain rfl : _ = w := Except.ok.inj hw
      simp [ProxyPullConsumer.output, Proxy.basicOutputRef, Proxy.keyOutput, h.attrs_eq, hflag]
  | ProxyPushSupplier =>
      have hw' : w = ⟨[.entry (keyPath channelName .ProxyPushSupplier oid)
          ((keyIOR, []) :: proxyAttr flag)], none⟩ := by
        simp only [rewritten, ProxyPushSupplier.reincarnate, hdenotes, ProxyPushSupplier.new,
          hproxy] at hw
        cases flag with
        | false => exact (Except.ok.inj hw).symm
        | true =>
            simp only [if_true] at hw
            split at hw
            · exact (Except.ok.inj hw).symm
            · split at hw
              · exact (Except.ok.inj hw).symm
              · cases hw
      have hne : [] ≠ orb.object_to_string r := fun heq => h.ior_ne_nil heq.symm
      simp [hw', h.attrs_eq, hne]
  | ProxyPullSupplier =>
      simp only [rewritten, ProxyPullSupplier.reincarnate, hdenotes,
        ProxyPullSupplier.connect_pull_consumer, ProxyPullSupplier.new, Except.map] at hw
      obtain rfl : _ = w := Except.ok.inj hw
      simp [ProxyPullSupplier.output, Proxy.basicOutputRef, Proxy.keyOutput, h.attrs_eq, hflag]

end Record

/-! ## What a start makes of a tree -/

section Start

variable {orb : Orb Ref} {env : Env}

theorem reincarnateConnections_forall {σ : Type} {P : σ → Prop}
    {reincarnate : Str → PersistNode → Except Exn (Option σ)}
    (hreincarnate : ∀ oid node c, reincarnate oid node = .ok (some c) → P c)
    {nodes : List (Str × PersistNode)} {connections result : List (Str × σ)}
    (h : reincarnateConnections reincarnate nodes connections = .ok result)
    (hconnections : ∀ e ∈ connections, P e.2) : ∀ e ∈ result, P e.2 := by
  induction nodes generalizing connections with
  | nil =>
      cases h
      exact hconnections
  | cons node nodes ih =>
      obtain ⟨oid, node⟩ := node
      rw [reincarnateConnections] at h
      cases hnode : reincarnate oid node with
      | error ex => simp [hnode] at h
      | ok c =>
          rw [hnode] at h
          cases c with
          | none => exact ih h hconnections
          | some c =>
              refine ih h ?_
              intro e he
              rcases OrdMap.mem_insert he with rfl | he
              · exact hreincarnate oid node c hnode
              · exact hconnections e he

theorem channelName_of_reincarnate {remote : Option Exn} {channelName oid : Str}
    {node : PersistNode} {c : Connection Ref}
    (h : Connection.reincarnate orb remote channelName oid node = .ok (some c)) :
    c.channelName = channelName := by
  have hnew : c = .new orb channelName oid c.target (isProxyOf node) → c.channelName = channelName :=
    fun hc => by rw [hc]; rfl
  refine hnew ?_
  simp only [Connection.reincarnate] at h
  repeat' split at h
  all_goals first
    | (cases h; done)
    | (cases h; rfl)

/-- What a channel is made of its node, with the connections under the name of the channel. -/
theorem activate_spec {channelName : Str} {n : PersistNode} (hn : n.Sorted)
    (hroom : (kindChildren n .ProxyPullSupplier).length ≤ maxNumProxies n.attrs)
    (hreadable : ∀ kind, ∀ e ∈ kindChildren n kind, Readable orb e.2) {c : EventChannel Ref}
    (h : EventChannel.activate orb env channelName (some n) = .ok c) :
    c.name = channelName ∧ c.properties = n.attrs ∧ c.UniqueKeys orb ∧
      (∀ e ∈ c.connections, e.2.channelName = channelName) ∧
      (∀ v, v ∈ c.views orb ↔ ∃ kind, ∃ e ∈ kindChildren n kind,
        decode orb env channelName kind e.1 e.2 = .ok (some v)) ∧
      ∀ kind, ∀ e ∈ kindChildren n kind, ∃ v,
        decode orb env channelName kind e.1 e.2 = .ok v := by
  have hactivate := toOption_activate orb env channelName hn hroom
  rw [h] at hactivate
  obtain ⟨views, hviews, heq⟩ := Option.map_eq_some_iff.1 hactivate.symm
  simp only [Prod.mk.injEq] at heq
  obtain ⟨hname, hproperties, rfl⟩ := heq
  refine ⟨hname.symm, hproperties.symm, nodup_of_decodeAll hn hreadable hviews, ?_,
    fun v => mem_of_decodeAll hviews, ok_of_decodeAll hviews⟩
  rw [EventChannel.activate] at h
  cases hconn : reincarnateConnections
      (fun oid => Connection.reincarnate orb (env.remote channelName .ProxyPushConsumer oid)
        channelName oid)
      (((EventChannel.kindNode (some n) .ProxyPushConsumer).map (·.children)).getD []) [] with
  | error ex =>
      rw [hconn] at h
      cases h
  | ok connections =>
      have hall := reincarnateConnections_forall (P := fun c => c.channelName = channelName)
        (fun oid node c hc => channelName_of_reincarnate hc) hconn (by simp)
      rw [hconn] at h
      simp only [bind, Except.bind] at h
      repeat' split at h
      all_goals first
        | (cases h; done)
        | (cases h; exact hall)

theorem name_of_activate {channelName : Str} {node : Option PersistNode} {c : EventChannel Ref}
    (h : EventChannel.activate orb env channelName node = .ok c) : c.name = channelName := by
  simp only [EventChannel.activate, bind, Except.bind] at h
  repeat' split at h
  all_goals first
    | (cases h; done)
    | (cases h; rfl)

/-- The channels are those of the nodes, one for one. -/
theorem activateAll_spec {nodes : List (Str × PersistNode)} {channels : List (EventChannel Ref)}
    (h : EventChannelFactory.activateAll orb env nodes = .ok channels) :
    channels.map (·.name) = nodes.map Prod.fst ∧
      ∀ c ∈ channels, ∃ n, (c.name, n) ∈ nodes ∧
        EventChannel.activate orb env c.name (some n) = .ok c := by
  induction nodes generalizing channels with
  | nil =>
      cases h
      simp
  | cons e nodes ih =>
      obtain ⟨channelName, node⟩ := e
      rw [EventChannelFactory.activateAll] at h
      cases hc : EventChannel.activate orb env channelName (some node) with
      | error ex =>
          rw [hc] at h
          cases h
      | ok c =>
          rw [hc] at h
          cases hcs : EventChannelFactory.activateAll orb env nodes with
          | error ex =>
              rw [hcs] at h
              cases h
          | ok cs =>
              rw [hcs] at h
              cases h
              obtain ⟨hnames, hmem⟩ := ih hcs
              have hname := name_of_activate hc
              refine ⟨by simp [hnames, hname], List.forall_mem_cons.2 ⟨?_, ?_⟩⟩
              · exact ⟨node, by simp [hname], hname ▸ hc⟩
              · intro d hd
                obtain ⟨n, hn, hd⟩ := hmem d hd
                exact ⟨n, List.mem_cons_of_mem _ hn, hd⟩

theorem activateAll_isOk {nodes : List (Str × PersistNode)}
    (h : ∀ e ∈ nodes, ∃ c, EventChannel.activate orb env e.1 (some e.2) = .ok c) :
    ∃ channels, EventChannelFactory.activateAll orb env nodes = .ok channels := by
  induction nodes with
  | nil => exact ⟨[], rfl⟩
  | cons e nodes ih =>
      obtain ⟨⟨c, hc⟩, hrest⟩ := List.forall_mem_cons.1 h
      obtain ⟨cs, hcs⟩ := ih hrest
      exact ⟨c :: cs, by rw [EventChannelFactory.activateAll, hc, hcs]; rfl⟩

end Start

/-! ## Saved trees -/

/-- The persisted connections: the records that have an IOR. -/
def connectionsOf (root : PersistNode) (channelName : Str) (kind : ProxyKind) (oid : Str) :
    Option (List (Str × Str)) :=
  (root.attrsAt (keyPath channelName kind oid)).filter
    (fun attrs => !((attrs.lookup keyIOR).getD []).isEmpty)

/-- The log of a server: each persisted connection has a record as the server writes it, with an IOR
    that the ORB knows, and no channel has more pull suppliers than it may have. -/
structure Saved (orb : Orb Ref) (root : PersistNode) : Prop where
  connection : ∀ channelName kind oid attrs, connectionsOf root channelName kind oid = some attrs →
    ∃ r flag, ConnectionAttrs orb kind attrs r flag
  room : ∀ channelName n, root.find [ecf, channelName] = some n →
    (kindChildren n .ProxyPullSupplier).length ≤ maxNumProxies n.attrs

theorem connectionsOf_eq_some {root : PersistNode} {channelName oid : Str} {kind : ProxyKind}
    {attrs : List (Str × Str)} :
    connectionsOf root channelName kind oid = some attrs ↔
      root.attrsAt (keyPath channelName kind oid) = some attrs ∧
        (attrs.lookup keyIOR).getD [] ≠ [] := by
  rw [connectionsOf, Option.filter_eq_some_iff]
  simp

/-- The path of a record, in two steps. -/
theorem find_keyPath {root n : PersistNode} {channelName : Str}
    (hn : root.find [ecf, channelName] = some n) (kind : ProxyKind) (oid : Str) :
    root.find (keyPath channelName kind oid) = n.find [kind.admin, kind.name, oid] := by
  have hpath := PersistNode.find_append [ecf, channelName] [kind.admin, kind.name, oid] root
  rw [hn] at hpath
  exact hpath

theorem exists_channel_of_find {root node : PersistNode} {channelName oid : Str} {kind : ProxyKind}
    (h : root.find (keyPath channelName kind oid) = some node) :
    ∃ n, root.find [ecf, channelName] = some n := by
  have hpath := PersistNode.find_append [ecf, channelName] [kind.admin, kind.name, oid] root
  cases hn : root.find [ecf, channelName] with
  | some n => exact ⟨n, rfl⟩
  | none =>
      rw [hn] at hpath
      cases hpath.symm.trans h

section Decode

variable {orb : Orb Ref} {env : Env} {root node : PersistNode} {channelName oid : Str}
  {kind : ProxyKind}

/-- A record is that of a connection, or has no IOR. -/
theorem Saved.cases (hsaved : Saved orb root)
    (h : root.find (keyPath channelName kind oid) = some node) :
    (∃ r flag, ConnectionAttrs orb kind node.attrs r flag) ∨ node.attrString keyIOR = [] := by
  by_cases hior : node.attrString keyIOR = []
  · exact Or.inr hior
  · refine Or.inl (hsaved.connection channelName kind oid node.attrs ?_)
    rw [connectionsOf_eq_some]
    exact ⟨PersistNode.attrsAt_of_find h, hior⟩

theorem Saved.readable (hempty : orb.string_to_object [] = .error .BAD_PARAM)
    (hsaved : Saved orb root) (h : root.find (keyPath channelName kind oid) = some node) :
    Readable orb node := by
  rcases hsaved.cases h with ⟨r, flag, hr⟩ | hior
  · exact Or.inl ⟨r, hr.string_to_⟩
  · refine Or.inr ?_
    rw [hior, Orb.string_to_, hempty]

/-- What a record comes back as. -/
theorem Saved.decode_iff (hempty : orb.string_to_object [] = .error .BAD_PARAM)
    (hsaved : Saved orb root) (h : root.find (keyPath channelName kind oid) = some node)
    (v : ProxyView Ref) :
    decode orb env channelName kind oid node = .ok (some v) ↔
      ∃ r flag, ConnectionAttrs orb kind node.attrs r flag ∧
        Calm env channelName kind oid flag ∧ reborn orb kind oid r flag = v := by
  constructor
  · intro hdec
    rcases hsaved.cases h with ⟨r, flag, hr⟩ | hior
    · have := (decode_eq_some_iff hr.string_to_ v).1 hdec
      rw [hr.flagOf] at this
      exact ⟨r, flag, hr, this⟩
    · have hbad : orb.string_to_ (node.attrString keyIOR) = .error .BAD_PARAM := by
        rw [hior, Orb.string_to_, hempty]
      rw [decode_badParam hbad] at hdec
      cases hdec
  · rintro ⟨r, flag, hr, hcalm, hv⟩
    refine (decode_eq_some_iff hr.string_to_ v).2 ?_
    rw [hr.flagOf]
    exact ⟨hcalm, hv⟩

/-- The attributes of what has come back from a record: those of the record, unless it is that of a
    push supplier, which has an empty IOR. -/
theorem attrs_reborn {r : Ref} {flag : Bool} (h : ConnectionAttrs orb kind node.attrs r flag) :
    (reborn orb kind oid r flag).attrs =
      if kind = .ProxyPushSupplier then (keyIOR, []) :: proxyAttr flag else node.attrs := by
  rw [h.attrs_eq]
  cases kind <;> simp [reborn]

theorem sorted_attrs_reborn (kind : ProxyKind) (oid : Str) (r : Ref) (flag : Bool) :
    OrdMap.Sorted (reborn orb kind oid r flag).attrs :=
  sorted_proxyRecord _ flag

end Decode

/-! ## One round

A start from a log, and what the server then has: which of the records come back as proxies. -/

/-- What a server has been made of the tree it has read. -/
structure Restarted (orb : Orb Ref) (env : Env) (root : PersistNode)
    (f : EventChannelFactory Ref) : Prop where
  names : (f.channels.map (·.name)).Nodup
  channel : ∀ c ∈ f.channels, ∃ n, root.find [ecf, c.name] = some n ∧ c.properties = n.attrs
  find : ∀ channelName n, root.find [ecf, channelName] = some n →
    ∃ c ∈ f.channels, c.name = channelName
  keys : ∀ c ∈ f.channels, c.UniqueKeys orb
  channelNames : ∀ c ∈ f.channels, ∀ e ∈ c.connections, e.2.channelName = c.name
  view : ∀ c ∈ f.channels, ∀ v, v ∈ c.views orb ↔
    ∃ kind oid node, root.find (keyPath c.name kind oid) = some node ∧
      decode orb env c.name kind oid node = .ok (some v)
  ok : ∀ channelName kind oid node, root.find (keyPath channelName kind oid) = some node →
    ∃ v, decode orb env channelName kind oid node = .ok v
  endPoint : ∀ c ∈ f.endPointNoListen, isSpace c = false

section Round

variable {orb : Orb Ref} {env : Env} {text : Str} {f : EventChannelFactory Ref}

theorem start_eq_some :
    start orb env text = some f ↔
      ∃ e, (PersistNode.parse text).child ecf = some e ∧ 0 < e.attrLong keyPort (-1) ∧
        ∃ channels, EventChannelFactory.activateAll orb env e.children = .ok channels ∧
          f = { port := (e.attrLong keyPort 11169 % 2 ^ 32).toNat
                endPointNoListen := e.attrString keyEndPoint
                channels } := by
  have hnew : ∀ e : PersistNode, (EventChannelFactory.new orb env e).toOption = some f ↔
      ∃ channels, EventChannelFactory.activateAll orb env e.children = .ok channels ∧
        f = { port := (e.attrLong keyPort 11169 % 2 ^ 32).toNat
              endPointNoListen := e.attrString keyEndPoint
              channels } := by
    intro e
    rw [EventChannelFactory.new]
    cases EventChannelFactory.activateAll orb env e.children with
    | error ex => simp [bind, Except.bind, Except.toOption]
    | ok channels => simp [bind, Except.bind, Except.toOption, pure, Except.pure, eq_comm]
  rw [start, parseLog]
  cases hchild : (PersistNode.parse text).child ecf with
  | none => simp
  | some e =>
      by_cases hport : e.attrLong keyPort (-1) ≤ 0
      · have hnot : ¬0 < e.attrLong keyPort (-1) := by omega
        simp [hport, hnot]
      · have hpos : 0 < e.attrLong keyPort (-1) := by omega
        simp [hport, hpos, hnew]

theorem find_channel {root e : PersistNode} (he : root.child ecf = some e) (channelName : Str) :
    root.find [ecf, channelName] = e.child channelName := by
  simp [PersistNode.find, he]

/-- The records below a channel of a saved tree are readable. -/
theorem Saved.readable_kindChildren {root n : PersistNode} {channelName : Str}
    (hempty : orb.string_to_object [] = .error .BAD_PARAM) (hsaved : Saved orb root)
    (hroot : root.Sorted) (hn : root.find [ecf, channelName] = some n) (kind : ProxyKind) :
    ∀ e ∈ kindChildren n kind, Readable orb e.2 := by
  rintro ⟨oid, m⟩ he
  have hfind := (mem_kindChildren (hroot.find hn)).1 he
  rw [← find_keyPath hn] at hfind
  exact hsaved.readable hempty hfind

theorem cleanAttr_of_lookup {root node : PersistNode} {path : List Str} {key s : Str}
    (hroot : PersistNode.CleanTree root) (hsorted : root.Sorted)
    (hnode : root.find path = some node) (h : node.attrs.lookup key = some s) :
    CleanAttr (key, s) :=
  (hroot path node.attrs (PersistNode.attrsAt_of_find hnode)).2 _
    ((hsorted.find hnode).attrs.mem_iff_lookup.2 h)

theorem restarted_of_start (hempty : orb.string_to_object [] = .error .BAD_PARAM)
    (hsaved : Saved orb (PersistNode.parse text)) (h : start orb env text = some f) :
    Restarted orb env (PersistNode.parse text) f := by
  obtain ⟨e, he, -, channels, hall, rfl⟩ := start_eq_some.1 h
  have hroot := PersistNode.sorted_parse text
  obtain ⟨hnames, hmem⟩ := activateAll_spec hall
  -- one channel, from the node that it has been activated with
  have hspec : ∀ c ∈ channels, ∃ n, (PersistNode.parse text).find [ecf, c.name] = some n ∧
      c.properties = n.attrs ∧ c.UniqueKeys orb ∧
      (∀ e ∈ c.connections, e.2.channelName = c.name) ∧
      (∀ v, v ∈ c.views orb ↔ ∃ kind, ∃ e ∈ kindChildren n kind,
        decode orb env c.name kind e.1 e.2 = .ok (some v)) ∧
      ∀ kind, ∀ e ∈ kindChildren n kind, ∃ v,
        decode orb env c.name kind e.1 e.2 = .ok v := by
    intro c hc
    obtain ⟨n, hn, hactivate⟩ := hmem c hc
    have hfind : (PersistNode.parse text).find [ecf, c.name] = some n := by
      rw [find_channel he]
      exact (hroot.child he).mem_children.1 hn
    exact ⟨n, hfind, (activate_spec (hroot.find hfind) (hsaved.room c.name n hfind)
      (hsaved.readable_kindChildren hempty hroot hfind) hactivate).2⟩
  have hfound : ∀ channelName n, (PersistNode.parse text).find [ecf, channelName] = some n →
      ∃ c ∈ channels, c.name = channelName := by
    intro channelName n hn
    rw [find_channel he] at hn
    have hkey : channelName ∈ channels.map (·.name) := by
      rw [hnames]
      exact List.mem_map_of_mem ((hroot.child he).mem_children.2 hn)
    simpa using hkey
  refine ⟨?_, ?_, hfound, ?_, ?_, ?_, ?_, ?_⟩
  · rw [hnames]
    exact (hroot.child he).children.nodup_keys
  · intro c hc
    obtain ⟨n, hfind, hproperties, -⟩ := hspec c hc
    exact ⟨n, hfind, hproperties⟩
  · intro c hc
    obtain ⟨n, -, -, hkeys, -⟩ := hspec c hc
    exact hkeys
  · intro c hc
    obtain ⟨n, -, -, -, hchannelNames, -⟩ := hspec c hc
    exact hchannelNames
  · intro c hc v
    obtain ⟨n, hfind, -, -, -, hviews, -⟩ := hspec c hc
    rw [hviews v]
    have hrecord : ∀ kind oid m, (oid, m) ∈ kindChildren n kind ↔
        (PersistNode.parse text).find (keyPath c.name kind oid) = some m := by
      intro kind oid m
      rw [find_keyPath hfind, mem_kindChildren (hroot.find hfind)]
    constructor
    · rintro ⟨kind, ⟨oid, m⟩, hm, hdec⟩
      exact ⟨kind, oid, m, (hrecord kind oid m).1 hm, hdec⟩
    · rintro ⟨kind, oid, m, hm, hdec⟩
      exact ⟨kind, (oid, m), (hrecord kind oid m).2 hm, hdec⟩
  · intro channelName kind oid node hnode
    obtain ⟨n, hn⟩ := exists_channel_of_find hnode
    obtain ⟨c, hc, rfl⟩ := hfound channelName n hn
    obtain ⟨n', hfind, -, -, -, -, hok⟩ := hspec c hc
    rw [find_keyPath hfind] at hnode
    exact hok kind (oid, node) ((mem_kindChildren (hroot.find hfind)).2 hnode)
  · have hnode : (PersistNode.parse text).find [ecf] = some e := by
      simp [PersistNode.find, he]
    simp only [PersistNode.attrString]
    cases hlookup : e.attrs.lookup keyEndPoint with
    | none => simp
    | some s => exact (cleanAttr_of_lookup (PersistNode.cleanTree_parse text) hroot hnode hlookup).value

/-- Everything that has been started is active. -/
theorem Restarted.active {root : PersistNode} (h : Restarted orb env root f)
    (hempty : orb.string_to_object [] = .error .BAD_PARAM) (hsaved : Saved orb root) :
    ∀ c ∈ f.channels, ∀ v ∈ c.views orb, v.active = true := by
  intro c hc v hv
  obtain ⟨kind, oid, node, hnode, hdec⟩ := (h.view c hc v).1 hv
  exact (decode_key (hsaved.readable hempty hnode) hdec).2.2.1

/-- The records of a server: its own, and those of its channels. -/
def EventChannelFactory.log (f : EventChannelFactory Ref) (orb : Orb Ref) : List LogRecord :=
  [f.factoryRecord] ++ f.channels.flatMap (·.log orb)

theorem path_factoryRecord (f : EventChannelFactory Ref) :
    ∀ r ∈ [f.factoryRecord], r.path = [ecf] := by
  intro r hr
  rw [List.mem_singleton.1 hr]
  rfl

theorem Restarted.ordered_log {root : PersistNode} (h : Restarted orb env root f) :
    LogRecord.Ordered (f.log orb) :=
  ordered_serverLog (List.pairwise_singleton ..) (path_factoryRecord f) h.names h.keys

/-- The checkpoint after a start goes through. -/
theorem Restarted.checkpointText_eq {root : PersistNode} (h : Restarted orb env root f)
    (hempty : orb.string_to_object [] = .error .BAD_PARAM) (hsaved : Saved orb root) :
    checkpointText orb f = some ((f.log orb).flatMap LogRecord.text ++ ['\n']) := by
  have houtput : ∀ c ∈ f.channels, c.output orb = ⟨c.log orb, none⟩ := fun c hc =>
    EventChannel.output_of_active (h.active hempty hsaved c hc) (h.channelNames c hc)
  have hactive : ∀ c ∈ f.channels, c.PullsActive := fun c hc =>
    (c.output_raised orb).1 (by rw [houtput c hc])
  have hrecords : (f.output orb).records = f.log orb := by
    rw [f.output_records orb hactive, EventChannelFactory.log, List.singleton_append]
    exact congrArg _ (List.flatMap_congr (fun c hc => by rw [houtput c hc]))
  have hraised : (f.output orb).raised = none := (f.output_raised orb).2 hactive
  rw [checkpointText]
  rcases hout : f.output orb with ⟨records, raised⟩
  rw [hout] at hrecords hraised
  subst hraised
  simp only at hrecords
  rw [hrecords]

theorem clean_factoryRecord (hendPoint : ∀ c ∈ f.endPointNoListen, isSpace c = false) :
    f.factoryRecord.Clean := by
  refine ⟨⟨rfl, by simpa using cleanName_ecf⟩, List.forall_mem_cons.2 ⟨?_, ?_⟩⟩
  · exact ⟨(by decide : ∀ c ∈ keyPort, c ≠ '=' ∧ isSpace c = false),
      fun c hc => (cleanName_toDigits (by decide) (by decide) f.port c hc).2,
      (by decide : keyPort.head? ≠ some '#')⟩
  · split
    · simp
    · refine List.forall_mem_cons.2 ⟨?_, by simp⟩
      exact ⟨(by decide : ∀ c ∈ keyEndPoint, c ≠ '=' ∧ isSpace c = false), hendPoint,
        (by decide : keyEndPoint.head? ≠ some '#')⟩

/-- What a server writes after it has been started can be read back. -/
theorem Restarted.clean_log (h : Restarted orb env (PersistNode.parse text) f)
    (hempty : orb.string_to_object [] = .error .BAD_PARAM)
    (hsaved : Saved orb (PersistNode.parse text)) : ∀ r ∈ f.log orb, r.Clean := by
  have htree := PersistNode.cleanTree_parse text
  have hsorted := PersistNode.sorted_parse text
  intro r hr
  rcases List.mem_append.1 hr with hr | hr
  · rw [List.mem_singleton.1 hr]
    exact clean_factoryRecord h.endPoint
  obtain ⟨c, hc, hr⟩ := List.mem_flatMap.1 hr
  obtain ⟨n, hn, hproperties⟩ := h.channel c hc
  obtain ⟨hnames, hattrs⟩ := htree [ecf, c.name] n.attrs (PersistNode.attrsAt_of_find hn)
  rcases mem_log.1 hr with rfl | ⟨v, hv, rfl⟩
  · exact ⟨⟨rfl, hnames⟩, hproperties ▸ hattrs⟩
  obtain ⟨kind, oid, node, hnode, hdec⟩ := (h.view c hc v).1 hv
  have hpath := (htree _ node.attrs (PersistNode.attrsAt_of_find hnode)).1
  obtain ⟨r, flag, hconn, -, rfl⟩ := (hsaved.decode_iff hempty hnode v).1 hdec
  refine clean_record (hnames c.name (by simp)) (hpath oid (by simp [keyPath])) (c.recorded hv) ?_
  have hior : CleanAttr (keyIOR, orb.object_to_string r) :=
    cleanAttr_of_lookup htree hsorted hnode (by rw [hconn.attrs_eq, lookup_keyIOR_cons])
  have hcases : (reborn orb kind oid r flag).ior = orb.object_to_string r ∨
      (reborn orb kind oid r flag).ior = [] := by
    cases kind <;> simp [ProxyView.ior, reborn]
  rcases hcases with heq | heq
  · rw [heq]
    exact hior.value
  · simp [heq]

/-- The records below the channels in the new log: one for each proxy that has come back. -/
theorem Restarted.attrsAt_log (h : Restarted orb env (PersistNode.parse text) f)
    (hempty : orb.string_to_object [] = .error .BAD_PARAM)
    (hsaved : Saved orb (PersistNode.parse text)) (channelName : Str) (kind : ProxyKind)
    (oid : Str) (a : List (Str × Str)) :
    (replay (f.log orb)).attrsAt (keyPath channelName kind oid) = some a ↔
      ∃ node, (PersistNode.parse text).find (keyPath channelName kind oid) = some node ∧
        ∃ r flag, ConnectionAttrs orb kind node.attrs r flag ∧
          Calm env channelName kind oid flag ∧ (reborn orb kind oid r flag).attrs = a := by
  rw [EventChannelFactory.log, attrsAt_serverLog (path_factoryRecord f) h.ordered_log
    (h.clean_log hempty hsaved)]
  constructor
  · rintro ⟨c, hc, rfl, v, hv, rfl, rfl, rfl⟩
    obtain ⟨kind, oid, node, hnode, hdec⟩ := (h.view c hc v).1 hv
    obtain ⟨r, flag, hr, hcalm, rfl⟩ := (hsaved.decode_iff hempty hnode v).1 hdec
    exact ⟨node, hnode, r, flag, hr, hcalm,
      (LogRecord.attrMap_of_sorted (sorted_attrs_reborn kind oid r flag)).symm⟩
  · rintro ⟨node, hnode, r, flag, hr, hcalm, rfl⟩
    obtain ⟨n, hn⟩ := exists_channel_of_find hnode
    obtain ⟨c, hc, rfl⟩ := h.find channelName n hn
    refine ⟨c, hc, rfl, reborn orb kind oid r flag, ?_, rfl, rfl,
      LogRecord.attrMap_of_sorted (sorted_attrs_reborn kind oid r flag)⟩
    exact (h.view c hc _).2 ⟨kind, oid, node, hnode,
      (hsaved.decode_iff hempty hnode _).2 ⟨r, flag, hr, hcalm, rfl⟩⟩

/-- The connections in the new log. -/
theorem Restarted.connectionsOf_log (h : Restarted orb env (PersistNode.parse text) f)
    (hempty : orb.string_to_object [] = .error .BAD_PARAM)
    (hsaved : Saved orb (PersistNode.parse text)) (channelName : Str) (kind : ProxyKind)
    (oid : Str) :
    connectionsOf (replay (f.log orb)) channelName kind oid =
      if kind = .ProxyPushSupplier then none
      else connectionsOf (PersistNode.parse text) channelName kind oid := by
  have hnew : ∀ a, connectionsOf (replay (f.log orb)) channelName kind oid = some a ↔
      kind ≠ .ProxyPushSupplier ∧
        connectionsOf (PersistNode.parse text) channelName kind oid = some a := by
    intro a
    rw [connectionsOf_eq_some, connectionsOf_eq_some, h.attrsAt_log hempty hsaved]
    constructor
    · rintro ⟨⟨node, hnode, r, flag, hr, -, rfl⟩, hior⟩
      rw [attrs_reborn hr] at hior ⊢
      by_cases hkind : kind = .ProxyPushSupplier
      · simp [hkind] at hior
      · rw [if_neg hkind] at hior ⊢
        exact ⟨hkind, PersistNode.attrsAt_of_find hnode, hior⟩
    · rintro ⟨hkind, hattrs, hior⟩
      obtain ⟨node, hnode, rfl⟩ := find_of_attrsAt hattrs
      obtain ⟨r, flag, hr⟩ := hsaved.connection channelName kind oid node.attrs
        (connectionsOf_eq_some.2 ⟨hattrs, hior⟩)
      obtain ⟨v, hv⟩ := h.ok channelName kind oid node hnode
      cases v with
      | none => exact absurd hv (decode_ne_none hr.string_to_ hkind)
      | some v =>
          obtain ⟨hcalm, -⟩ := (decode_eq_some_iff hr.string_to_ v).1 hv
          rw [hr.flagOf] at hcalm
          refine ⟨⟨node, hnode, r, flag, hr, hcalm, ?_⟩, hior⟩
          rw [attrs_reborn hr, if_neg hkind]
  split
  · next hkind =>
      by_contra hsome
      obtain ⟨a, ha⟩ := Option.ne_none_iff_exists'.1 hsome
      exact ((hnew a).1 ha).1 hkind
  · next hkind =>
      ext a
      rw [hnew a]
      exact ⟨fun h => h.2, fun h => ⟨hkind, h⟩⟩

/-- The new log is saved like the old one. -/
theorem Restarted.saved (h : Restarted orb env (PersistNode.parse text) f)
    (hempty : orb.string_to_object [] = .error .BAD_PARAM)
    (hsaved : Saved orb (PersistNode.parse text)) : Saved orb (replay (f.log orb)) where
  connection channelName kind oid attrs hattrs := by
    rw [h.connectionsOf_log hempty hsaved] at hattrs
    split at hattrs
    · cases hattrs
    · exact hsaved.connection channelName kind oid attrs hattrs
  room channelName n' hn' := by
    have hclean := h.clean_log hempty hsaved
    have hattrs := PersistNode.attrsAt_of_find hn'
    rw [EventChannelFactory.log, attrsAt_channel (path_factoryRecord f) h.ordered_log hclean]
      at hattrs
    obtain ⟨c, hc, rfl, hattrs⟩ := hattrs
    obtain ⟨n, hn, hproperties⟩ := h.channel c hc
    have hsorted := (PersistNode.sorted_parse text).find hn
    have hsorted' : n'.Sorted := (LogRecord.sorted_replay _).find hn'
    rw [hproperties, LogRecord.attrMap_of_sorted hsorted.attrs] at hattrs
    have hsub : (kindChildren n' .ProxyPullSupplier).map Prod.fst ⊆
        (kindChildren n .ProxyPullSupplier).map Prod.fst := by
      intro oid hoid
      obtain ⟨⟨_, m⟩, hm, rfl⟩ := List.mem_map.1 hoid
      obtain ⟨node, hnode, -⟩ := (h.attrsAt_log hempty hsaved c.name .ProxyPullSupplier _
        m.attrs).1 ((exists_kindChildren (LogRecord.sorted_replay _) hn' _ _ _).1 ⟨m, hm, rfl⟩)
      rw [find_keyPath hn] at hnode
      exact List.mem_map.2 ⟨(_, node), (mem_kindChildren hsorted).2 hnode, rfl⟩
    have hle := (sorted_kindChildren hsorted' .ProxyPullSupplier).nodup_keys.length_le_of_subset
      hsub
    simp only [List.length_map] at hle
    rw [← hattrs]
    exact hle.trans (hsaved.room c.name n hn)

/-- One round: the log stays as it is, or it is the checkpoint of the server that has been started
    from it. -/
theorem round_cases (env : Env) (hempty : orb.string_to_object [] = .error .BAD_PARAM)
    (hsaved : Saved orb (PersistNode.parse text)) :
    (start orb env text = none ∧ round orb env text = text) ∨
      ∃ f, start orb env text = some f ∧ Restarted orb env (PersistNode.parse text) f ∧
        PersistNode.parse (round orb env text) = replay (f.log orb) := by
  cases hstart : start orb env text with
  | none => exact Or.inl ⟨rfl, by simp [round, hstart]⟩
  | some f =>
      have h := restarted_of_start hempty hsaved hstart
      refine Or.inr ⟨f, rfl, h, ?_⟩
      rw [round, hstart, Option.bind_some, h.checkpointText_eq hempty hsaved, Option.getD_some]
      exact LogRecord.replay_text (h.clean_log hempty hsaved) ['\n'] (by simp; decide)

end Round

/-! ## Any number of rounds -/

section Rounds

variable {orb : Orb Ref} {text : Str}

/-- What one round keeps. -/
theorem round_spec (hempty : orb.string_to_object [] = .error .BAD_PARAM)
    (hsaved : Saved orb (PersistNode.parse text)) (env : Env) :
    Saved orb (PersistNode.parse (round orb env text)) ∧
      ∀ channelName kind oid,
        (kind = .ProxyPushSupplier →
          connectionsOf (PersistNode.parse text) channelName kind oid = none) →
        connectionsOf (PersistNode.parse (round orb env text)) channelName kind oid
          = connectionsOf (PersistNode.parse text) channelName kind oid := by
  rcases round_cases env hempty hsaved with ⟨-, hround⟩ | ⟨f, -, h, hround⟩
  · rw [hround]
    exact ⟨hsaved, fun _ _ _ _ => rfl⟩
  · rw [hround]
    refine ⟨h.saved hempty hsaved, ?_⟩
    intro channelName kind oid hpush
    rw [h.connectionsOf_log hempty hsaved]
    split
    · next hkind => exact (hpush hkind).symm
    · rfl

/-- Where there is no connection of a push supplier, rounds keep all connections. -/
theorem rounds_spec (hempty : orb.string_to_object [] = .error .BAD_PARAM)
    (hsaved : Saved orb (PersistNode.parse text))
    (hpush : ∀ channelName oid,
      connectionsOf (PersistNode.parse text) channelName .ProxyPushSupplier oid = none)
    (envs : ℕ → Env) (k : ℕ) :
    Saved orb (PersistNode.parse (rounds orb envs k text)) ∧
      connectionsOf (PersistNode.parse (rounds orb envs k text))
        = connectionsOf (PersistNode.parse text) := by
  induction k with
  | zero => exact ⟨hsaved, rfl⟩
  | succ k ih =>
      obtain ⟨hsavedk, hk⟩ := ih
      obtain ⟨hsaved', h⟩ := round_spec hempty hsavedk (envs k)
      refine ⟨hsaved', ?_⟩
      funext channelName kind oid
      rw [rounds, h channelName kind oid (fun hkind => ?_), hk]
      rw [hk, hkind]
      exact hpush channelName oid

/-- A server can be started from a saved log if all peers answer. -/
theorem exists_start (hempty : orb.string_to_object [] = .error .BAD_PARAM)
    (hsaved : Saved orb (PersistNode.parse text)) {e : PersistNode}
    (he : (PersistNode.parse text).child ecf = some e) (hport : 0 < e.attrLong keyPort (-1)) :
    ∃ f, start orb Env.quiet text = some f := by
  have hroot := PersistNode.sorted_parse text
  have hchannel : ∀ n ∈ e.children, ∃ c,
      EventChannel.activate orb Env.quiet n.1 (some n.2) = .ok c := by
    rintro ⟨channelName, n⟩ hn
    have hfind : (PersistNode.parse text).find [ecf, channelName] = some n := by
      rw [find_channel he]
      exact (hroot.child he).mem_children.1 hn
    obtain ⟨views, hviews⟩ : ∃ views, decodeAll orb Env.quiet channelName n = some views := by
      refine decodeAll_isSome ?_
      intro kind m hm
      refine decode_ok_of_calm (hsaved.readable_kindChildren hempty hroot hfind kind m hm) ?_
      intro _ ex hex
      cases hex
    have hactivate := toOption_activate orb Env.quiet channelName (hroot.find hfind)
      (hsaved.room channelName n hfind)
    rw [hviews, Option.map_some] at hactivate
    obtain ⟨c, hc, -⟩ := Option.map_eq_some_iff.1 hactivate
    refine ⟨c, ?_⟩
    revert hc
    cases EventChannel.activate orb Env.quiet channelName (some n) with
    | ok c' => simp [Except.toOption]
    | error ex => simp [Except.toOption]
  obtain ⟨channels, hall⟩ := activateAll_isOk hchannel
  exact ⟨_, start_eq_some.2 ⟨e, he, hport, channels, hall, rfl⟩⟩

/-- **Rounds of restart and checkpoint**: a proxy that is started from its record writes the same
    record, and any number of rounds keeps all persisted connections, exactly if no push supplier is
    concerned. -/
theorem restart_rounds_iff (orb : Orb Ref)
    (hempty : orb.string_to_object [] = .error .BAD_PARAM) :
    (∀ env channelName kind oid node r flag w, ConnectionAttrs orb kind node.attrs r flag →
      rewritten orb env channelName kind oid node = .ok w →
      (w = ⟨[.entry (keyPath channelName kind oid) node.attrs], none⟩ ↔
        kind ≠ .ProxyPushSupplier)) ∧
    ∀ text e, Saved orb (PersistNode.parse text) →
      (PersistNode.parse text).child ecf = some e → 0 < e.attrLong keyPort (-1) →
      ((∀ envs k, connectionsOf (PersistNode.parse (rounds orb envs k text))
          = connectionsOf (PersistNode.parse text)) ↔
        ∀ channelName oid,
          connectionsOf (PersistNode.parse text) channelName .ProxyPushSupplier oid = none) := by
  refine ⟨fun env channelName kind oid node r flag w h hw => rewritten_iff h hw,
    fun text e hsaved he hport => ⟨?_, fun hpush envs k =>
      (rounds_spec hempty hsaved hpush envs k).2⟩⟩
  intro hrounds channelName oid
  obtain ⟨f, hf⟩ := exists_start hempty hsaved he hport
  rcases round_cases Env.quiet hempty hsaved with ⟨hnone, -⟩ | ⟨f', hf', h, hround⟩
  · rw [hf] at hnone
    cases hnone
  · have hone := congrFun (congrFun (congrFun (hrounds (fun _ => Env.quiet) 1) channelName)
      .ProxyPushSupplier) oid
    rw [show rounds orb (fun _ => Env.quiet) 1 text = round orb Env.quiet text from rfl, hround,
      h.connectionsOf_log hempty hsaved, if_pos rfl] at hone
    exact hone.symm

/-! ## The log of a live server -/

section Server

variable {f : EventChannelFactory Ref}

theorem EventChannelFactory.ordered_log (hnames : (f.channels.map (·.name)).Nodup)
    (hlive : ∀ c ∈ f.channels, c.Live orb) : LogRecord.Ordered (f.log orb) :=
  ordered_serverLog (List.pairwise_singleton ..) (path_factoryRecord f) hnames
    (fun c hc => (hlive c hc).keys)

theorem EventChannelFactory.clean_log (horb : orb.Lawful) (hlive : ∀ c ∈ f.channels, c.Live orb)
    (hprint : ∀ c ∈ f.channels, c.Printable)
    (hendPoint : ∀ c ∈ f.endPointNoListen, isSpace c = false) : ∀ r ∈ f.log orb, r.Clean := by
  intro r hr
  rcases List.mem_append.1 hr with hr | hr
  · rw [List.mem_singleton.1 hr]
    exact clean_factoryRecord hendPoint
  · obtain ⟨c, hc, hr⟩ := List.mem_flatMap.1 hr
    exact (hlive c hc).clean_log horb (hprint c hc) r hr

/-- The record of a view that has an IOR is that of a connection. -/
theorem EventChannel.Live.connectionAttrs {c : EventChannel Ref} (horb : orb.Lawful)
    (hc : c.Live orb) {v : ProxyView Ref} (hv : v ∈ c.views orb) (hior : v.ior ≠ []) :
    ∃ r flag, ConnectionAttrs orb v.kind v.attrs r flag := by
  obtain ⟨-, r, -, heq⟩ := (hc.ior_cases hv).resolve_right hior
  have hs : ∀ s flag, v.attrs = (keyIOR, s) :: proxyAttr flag → s = orb.object_to_string r := by
    intro s flag hattrs
    rw [← heq, ProxyView.ior, hattrs, lookup_keyIOR_cons, Option.getD_some]
  have hne : orb.object_to_string r ≠ [] := heq ▸ hior
  cases c.recorded hv with
  | nil attrs _ _ => exact absurd (by simp [ProxyView.ior, attrs]) hior
  | pull s attrs kind flag =>
      exact ⟨r, false, hs s _ attrs ▸ flag ▸ attrs, hne, horb.string_to_object_to_string r, by simp⟩
  | push s attrs kind =>
      exact ⟨r, v.targetIsProxy, hs s _ attrs ▸ attrs, hne, horb.string_to_object_to_string r,
        fun _ => kind⟩

/-- A record below a channel has been written by a proxy. -/
theorem EventChannelFactory.view_of_attrsAt (hnames : (f.channels.map (·.name)).Nodup)
    (hlive : ∀ c ∈ f.channels, c.Live orb) (hclean : ∀ r ∈ f.log orb, r.Clean)
    {channelName oid : Str} {kind : ProxyKind} {a : List (Str × Str)}
    (ha : (replay (f.log orb)).attrsAt (keyPath channelName kind oid) = some a) :
    ∃ c ∈ f.channels, c.name = channelName ∧
      ∃ v ∈ c.views orb, v.kind = kind ∧ v.oid = oid ∧ v.attrs = a := by
  obtain ⟨c, hc, hname, v, hv, hkind, hoid, hattrs⟩ :=
    (attrsAt_serverLog (path_factoryRecord f) (ordered_log hnames hlive) hclean channelName kind
      oid a).1 ha
  rw [LogRecord.attrMap_of_sorted (c.recorded hv).sorted] at hattrs
  exact ⟨c, hc, hname, v, hv, hkind, hoid, hattrs⟩

/-- **What a live server writes is a saved log.** -/
theorem EventChannelFactory.saved_log (horb : orb.Lawful)
    (hnames : (f.channels.map (·.name)).Nodup) (hlive : ∀ c ∈ f.channels, c.Live orb)
    (hprint : ∀ c ∈ f.channels, c.Printable)
    (hendPoint : ∀ c ∈ f.endPointNoListen, isSpace c = false) :
    Saved orb (replay (f.log orb)) := by
  have hclean := f.clean_log horb hlive hprint hendPoint
  have hordered := EventChannelFactory.ordered_log hnames hlive
  constructor
  · intro channelName kind oid attrs hattrs
    obtain ⟨hattrs, hior⟩ := connectionsOf_eq_some.1 hattrs
    obtain ⟨c, hc, -, v, hv, rfl, -, rfl⟩ := view_of_attrsAt hnames hlive hclean hattrs
    exact (hlive c hc).connectionAttrs horb hv hior
  · intro channelName n hn
    have hsorted : n.Sorted := (LogRecord.sorted_replay _).find hn
    obtain ⟨c, hc, rfl, hproperties⟩ := (attrsAt_channel (path_factoryRecord f) hordered hclean
      channelName n.attrs).1 (PersistNode.attrsAt_of_find hn)
    have hsub : (kindChildren n .ProxyPullSupplier).map Prod.fst ⊆
        (c.pullSupplier.getD []).map (·.oid) := by
      intro oid hoid
      obtain ⟨⟨_, m⟩, hm, rfl⟩ := List.mem_map.1 hoid
      obtain ⟨c', hc', hname, v, hv, hkind, rfl, -⟩ := view_of_attrsAt hnames hlive hclean
        ((exists_kindChildren (LogRecord.sorted_replay _) hn _ _ _).1 ⟨m, hm, rfl⟩)
      obtain rfl := List.inj_on_of_nodup_map hnames hc' hc hname
      exact c'.oid_mem_of_pullSupplier hv hkind
    have hle := (sorted_kindChildren hsorted .ProxyPullSupplier).nodup_keys.length_le_of_subset
      hsub
    simp only [List.length_map] at hle
    rw [← hproperties, LogRecord.attrMap_of_sorted (hlive c hc).properties]
    exact hle.trans (hlive c hc).room

end Server

end Rounds

/-! ## Two logs -/

/-- A server with the channel `a`, whose push supplier `1.2.3` is connected to `I`. -/
def pushSupplierLog : Str :=
  ("ecf port=11169 ;;\n" ++ "ecf/a\n ;;\n" ++
    "ecf/a/ConsumerAdmin/ProxyPushSupplier/1.2.3 IOR=I ;;\n").toList

/-- One round makes the IOR of the push supplier empty. -/
theorem push_supplier_lost :
    connectionsOf (PersistNode.parse pushSupplierLog) ['a'] .ProxyPushSupplier
        (newUniqueId 1 2 3) = some [(keyIOR, ['I'])] ∧
      connectionsOf
        (PersistNode.parse (rounds wordOrb (fun _ => Env.quiet) 1 pushSupplierLog)) ['a']
        .ProxyPushSupplier (newUniqueId 1 2 3) = none ∧
      rewritten wordOrb Env.quiet ['a'] .ProxyPushSupplier (newUniqueId 1 2 3)
          (.mk [(keyIOR, ['I'])] [])
        = .ok ⟨[.entry (keyPath ['a'] .ProxyPushSupplier (newUniqueId 1 2 3)) [(keyIOR, [])]],
            none⟩ := by
  refine ⟨?_, ?_, ?_⟩
  · decide +kernel
  · decide +kernel
  · rfl

/-- A server with one channel, whose pull supplier is connected to `I`. -/
def pullSupplierServer : EventChannelFactory Word :=
  { port := 11169, endPointNoListen := []
    channels := [pullSupplierChannel (some ⟨['I'], word_I⟩)] }

theorem pullSupplierServer_live : ∀ c ∈ pullSupplierServer.channels, c.Live wordOrb := by
  simpa [pullSupplierServer] using live_pullSupplierChannel _

theorem pullSupplierServer_printable : ∀ c ∈ pullSupplierServer.channels, c.Printable := by
  simpa [pullSupplierServer] using ⟨cleanName_a, by simp [pullSupplierChannel]⟩

theorem pullSupplierServer_clean : ∀ r ∈ pullSupplierServer.log wordOrb, r.Clean :=
  EventChannelFactory.clean_log wordOrb_lawful pullSupplierServer_live
    pullSupplierServer_printable (by simp [pullSupplierServer])

/-- The pull supplier writes its record again, and it survives any number of rounds. -/
theorem pull_supplier_survives :
    rewritten wordOrb Env.quiet ['a'] .ProxyPullSupplier (newUniqueId 1 2 3)
        (.mk [(keyIOR, ['I'])] [])
      = .ok ⟨[.entry (keyPath ['a'] .ProxyPullSupplier (newUniqueId 1 2 3)) [(keyIOR, ['I'])]],
          none⟩ ∧
    ∀ envs k, connectionsOf (PersistNode.parse
        (rounds wordOrb envs k ((pullSupplierServer.log wordOrb).flatMap LogRecord.text)))
      = connectionsOf (PersistNode.parse
          ((pullSupplierServer.log wordOrb).flatMap LogRecord.text)) := by
  obtain ⟨hrecord, hrounds⟩ := restart_rounds_iff wordOrb wordOrb_lawful.empty
  constructor
  · have hconn : ConnectionAttrs wordOrb .ProxyPullSupplier
        (PersistNode.mk [(keyIOR, ['I'])] []).attrs ⟨['I'], by decide⟩ false :=
      ⟨rfl, by simp [wordOrb], by decide +kernel, by simp⟩
    exact congrArg _ ((hrecord _ ['a'] .ProxyPullSupplier _ _ _ _ _ hconn rfl).2 (by decide))
  have hparse : PersistNode.parse ((pullSupplierServer.log wordOrb).flatMap LogRecord.text)
      = replay (pullSupplierServer.log wordOrb) := by
    simpa using LogRecord.replay_text pullSupplierServer_clean [] (by simp)
  have hport : ((replay (pullSupplierServer.log wordOrb)).child ecf).map
      (fun e => e.attrLong keyPort (-1)) = some 11169 := by
    decide +kernel
  obtain ⟨e, he, hport⟩ := Option.map_eq_some_iff.1 hport
  have hnames : (pullSupplierServer.channels.map (·.name)).Nodup := List.nodup_singleton _
  have hsaved : Saved wordOrb (replay (pullSupplierServer.log wordOrb)) :=
    EventChannelFactory.saved_log wordOrb_lawful hnames pullSupplierServer_live
      pullSupplierServer_printable (by simp [pullSupplierServer])
  refine (hrounds _ e (hparse ▸ hsaved) (hparse ▸ he) (by omega)).2 ?_
  intro channelName oid
  rw [hparse]
  by_contra hsome
  obtain ⟨attrs, hattrs⟩ := Option.ne_none_iff_exists'.1 hsome
  obtain ⟨c, hc, -, v, hv, hkind, -⟩ := EventChannelFactory.view_of_attrsAt hnames
    pullSupplierServer_live pullSupplierServer_clean (connectionsOf_eq_some.1 hattrs).1
  rw [List.mem_singleton.1 hc] at hv
  rw [List.mem_singleton.1 hv] at hkind
  cases hkind

end OmniEvents
