import OmniEvents.Criteria
import OmniEvents.ServerMirror

set_option autoImplicit false

/-! # The life of a server

The factory, its channels and all their proxies, over any number of starts. An operation and what it
appends to the log are one step (`ServerSteps` has the steps that it is made of, `DisconnectLog` and
`PushConsumerLog` what comes of it when others fall between them); only the reply that comes too late
for its connection is a step of its own. How a checkpoint gets to the disk is the subject of
`CheckpointCommit`. A crash is no step: a start finds the log as it is when it comes. A server that
is started cold writes nothing of the factory before its first checkpoint. -/

namespace OmniEvents

open Transition
open LogRecord (Clean CleanName replay ecf)
open EventChannelFactory (keyPort keyEndPoint)

variable {Ref : Type}

/-! ## The server

A log and a factory. Between a call and its record nothing happens here; `ServerSteps` connects
these calls with their single steps. -/

/-- The options `-p` and `-a`. -/
structure Options where
  port : ℕ
  endPointNoListen : Option Str

/-- The options do not conflict with what the log says of the factory. -/
def Options.agree (o : Options) (node : PersistNode) : Bool :=
  (o.port = 0 || (o.port : ℤ) = node.attrLong keyPort) &&
    o.endPointNoListen.all (· = node.attrString keyEndPoint)

/-- A server that runs, or that has ended, with its log. -/
structure Server (Ref : Type) where
  factory : EventChannelFactory Ref
  /-- The active log. -/
  log : List LogRecord
  /-- There has been a checkpoint since the start. -/
  checkpointed : Bool

namespace Server

/-- Something happens to the server while it runs, or it is started again. -/
inductive Action (Ref : Type) where
  /-- `others` are the POAs of channels that are being made or destroyed. -/
  | create_object (count mypid sec : ℕ) (others insNames : List Str) (k : List NameComponent)
      (criteria : List Criterion)
  /-- The thread of a channel ends. -/
  | channelEnds (channelName : Str)
  | call (channelName : Str) (a : ProxyCall Ref)
  /-- The reply to the request of a `Connection` that is in the `_connections` of no channel any
      more: it has been disconnected, or its channel is gone. -/
  | lateReply (connection : Connection Ref) (r : IsAReply)
  | checkpoint
  /-- The server is started again. -/
  | restart (options : Options) (env : Env)

/-- A server after a cold start, with the port and the end point of its options. -/
def cold (port : ℕ) (endPointNoListen : Str) : Server Ref :=
  ⟨⟨port, endPointNoListen, []⟩, [], false⟩

/-- The text of the active log. -/
def text (s : Server Ref) : Str := s.log.flatMap LogRecord.text

/-- `main`, as far as the factory is concerned, with an active log. -/
def start (orb : Orb Ref) (options : Options) (env : Env) (text : Str) :
    Option (EventChannelFactory Ref) :=
  (parseLog text).bind fun node =>
    if options.agree node then (EventChannelFactory.new orb env node).toOption else none

/-- The steps. A call and its records are one, and so is a checkpoint. -/
def step (orb : Orb Ref) (s : Server Ref) : Action Ref → Option (Server Ref)
  | .create_object count mypid sec others insNames k criteria =>
      match OmniEvents.create_object orb .quiet (s.factory.channels.map (·.name) ++ others) insNames
          (newUniqueId count mypid sec) k criteria with
      | .error _ => some s
      | .ok c =>
          some { s with factory := { s.factory with channels := s.factory.channels ++ [c] }
                        log := s.log ++ (c.output orb).records }
  | .channelEnds channelName =>
      if channelName ∈ s.factory.channels.map (·.name) then
        some { s with
          factory := { s.factory with channels := s.factory.channels.filter (·.name ≠ channelName) }
          log := s.log ++ [.erase [ecf, channelName]] }
      else none
  | .call channelName a =>
      (s.factory.channels.find? (·.name = channelName)).bind fun c =>
        (c.call orb a).map fun (c, records) =>
          { s with factory := s.factory.setChannel c, log := s.log ++ records }
  | .lateReply connection r =>
      some { s with log := s.log ++ (connection.callback r).2.toList }
  | .checkpoint =>
      match s.factory.output orb with
      | ⟨_, some _⟩ => none
      | ⟨records, none⟩ => some { s with log := records, checkpointed := true }
  | .restart options env =>
      (start orb options env s.text).map fun f => { s with factory := f, checkpointed := false }

end Server

/-! ## Starting from a log that mirrors the server

The connections that the log has are those of the server, so what comes back from the one is what
was in the other. -/

section Start

variable {orb : Orb Ref} {env : Env} {f f' : EventChannelFactory Ref} {root : PersistNode}

theorem EventChannelFactory.Mirrors.saved (h : f.Mirrors orb root) (horb : orb.Lawful)
    (hroot : root.Sorted) (hnames : (f.channels.map (·.name)).Nodup)
    (hsound : ∀ c ∈ f.channels, c.Sound orb) : Saved orb root where
  connection channelName kind oid attrs hattrs := by
    obtain ⟨hattrs, hior⟩ := connectionsOf_eq_some.1 hattrs
    obtain ⟨v, ⟨c, hc, -, hv⟩, hkey, rfl⟩ := h.record channelName kind oid attrs hattrs
    cases hkey
    exact (hsound c hc).live.connectionAttrs horb hv hior
  room channelName n hn := by
    obtain ⟨c, hc, rfl, hproperties⟩ := (h.channels channelName n.attrs).1
      (PersistNode.attrsAt_of_find hn)
    have hsub : (kindChildren n .ProxyPullSupplier).map Prod.fst ⊆
        (c.pullSupplier.getD []).map (·.oid) := by
      intro oid hoid
      obtain ⟨⟨oid, m⟩, hm, rfl⟩ := List.mem_map.1 hoid
      obtain ⟨v, hv, hkey, -⟩ := h.record c.name _ _ _
        ((exists_kindChildren hroot hn _ _ _).1 ⟨m, hm, rfl⟩)
      have hv := (EventChannelFactory.hasView_iff hc hnames).1 hv
      have hoid : v.oid = oid := congrArg Prod.snd hkey
      exact hoid ▸ c.oid_mem_of_pullSupplier hv (congrArg Prod.fst hkey)
    have hle := (sorted_kindChildren (hroot.find hn) .ProxyPullSupplier).nodup_keys
      |>.length_le_of_subset hsub
    rw [List.length_map, List.length_map] at hle
    rw [← hproperties]
    exact hle.trans (hsound c hc).room

/-- The loop of `ProxyPushConsumer_i::reincarnate` puts each connection under its object id. -/
theorem keyed_reincarnateConnections
    {reincarnate : Str → PersistNode → Except Exn (Option (Connection Ref))}
    (hoid : ∀ oid node c, reincarnate oid node = .ok (some c) → c.oidstr = oid)
    {nodes : List (Str × PersistNode)} {connections result : List (Str × Connection Ref)}
    (h : reincarnateConnections reincarnate nodes connections = .ok result)
    (hsorted : OrdMap.Sorted connections) (hkeyed : ∀ e ∈ connections, e.1 = e.2.oidstr) :
    OrdMap.Sorted result ∧ ∀ e ∈ result, e.1 = e.2.oidstr := by
  induction nodes generalizing connections with
  | nil =>
      cases h
      exact ⟨hsorted, hkeyed⟩
  | cons node nodes ih =>
      obtain ⟨oid, node⟩ := node
      rw [reincarnateConnections] at h
      cases hnode : reincarnate oid node with
      | error ex => simp [hnode] at h
      | ok c =>
          rw [hnode] at h
          cases c with
          | none => exact ih h hsorted hkeyed
          | some c =>
              refine ih h hsorted.insert ?_
              intro e he
              rcases OrdMap.mem_insert he with rfl | he
              · exact (hoid oid node c hnode).symm
              · exact hkeyed e he

theorem oidstr_of_reincarnate {remote : Option Exn} {channelName oid : Str} {node : PersistNode}
    {c : Connection Ref}
    (h : Connection.reincarnate orb remote channelName oid node = .ok (some c)) :
    c.oidstr = oid := by
  simp only [Connection.reincarnate] at h
  repeat' split at h
  all_goals first
    | (cases h; done)
    | (cases h; rfl)

theorem keyed_of_activate {channelName : Str} {node : Option PersistNode} {c : EventChannel Ref}
    (h : EventChannel.activate orb env channelName node = .ok c) :
    OrdMap.Sorted c.connections ∧ ∀ e ∈ c.connections, e.1 = e.2.oidstr := by
  rw [EventChannel.activate] at h
  cases hconn : reincarnateConnections
      (fun oid => Connection.reincarnate orb (env.remote channelName .ProxyPushConsumer oid)
        channelName oid)
      (((EventChannel.kindNode node .ProxyPushConsumer).map (·.children)).getD []) [] with
  | error ex =>
      rw [hconn] at h
      cases h
  | ok connections =>
      have hkeyed := keyed_reincarnateConnections (fun _ _ _ => oidstr_of_reincarnate) hconn
        OrdMap.Sorted.nil (by simp)
      rw [hconn] at h
      simp only [bind, Except.bind] at h
      repeat' split at h
      all_goals first
        | (cases h; done)
        | (cases h; exact hkeyed)

/-- What a proxy is started as: what is written of it, and what it has become. -/
theorem exists_reborn (h : f.Mirrors orb root) (horb : orb.Lawful)
    (hnames : (f.channels.map (·.name)).Nodup) (hsound : ∀ c ∈ f.channels, c.Sound orb)
    (hroot : root.Sorted) (hrestarted : Restarted orb env root f') {c' : EventChannel Ref}
    (hc' : c' ∈ f'.channels) {w : ProxyView Ref} (hw : w ∈ c'.views orb) :
    ∃ v r flag, f.HasView orb c'.name v ∧ v.ior ≠ [] ∧ ConnectionAttrs orb v.kind v.attrs r flag ∧
      Calm env c'.name v.kind v.oid flag ∧ w = reborn orb v.kind v.oid r flag := by
  have hsaved := h.saved horb hroot hnames hsound
  obtain ⟨kind, oid, node, hnode, hdecode⟩ := (hrestarted.view c' hc' w).1 hw
  obtain ⟨r, flag, hattrs, hcalm, rfl⟩ := (hsaved.decode_iff horb.empty hnode w).1 hdecode
  obtain ⟨v, hv, hkey, hvattrs⟩ := h.record _ _ _ _ (PersistNode.attrsAt_of_find hnode)
  cases hkey
  refine ⟨v, r, flag, hv, ?_, hvattrs ▸ hattrs, hcalm, rfl⟩
  rw [ProxyView.ior, hvattrs, hattrs.attrs_eq, lookup_keyIOR_cons]
  exact hattrs.ior_ne_nil

/-- A server that has been started is sound. -/
theorem sound_of_restarted (h : f.Mirrors orb root) (horb : orb.Lawful)
    (hnames : (f.channels.map (·.name)).Nodup) (hsound : ∀ c ∈ f.channels, c.Sound orb)
    (hroot : root.Sorted) (hrestarted : Restarted orb env root f') {c' : EventChannel Ref}
    (hc' : c' ∈ f'.channels) (hkeyed : OrdMap.Sorted c'.connections ∧
      ∀ e ∈ c'.connections, e.1 = e.2.oidstr) : c'.Sound orb := by
  have hreborn := fun w hw => exists_reborn h horb hnames hsound hroot hrestarted hc' (w := w) hw
  have hoid : ∀ w ∈ c'.views orb, ∃ count mypid sec, w.oid = newUniqueId count mypid sec := by
    intro w hw
    obtain ⟨v, r, flag, ⟨c, hc, -, hv⟩, -, -, -, rfl⟩ := hreborn w hw
    exact (hsound c hc).live.oids v hv
  obtain ⟨n, hn, hproperties⟩ := hrestarted.channel c' hc'
  have hsaved := h.saved horb hroot hnames hsound
  have hkeys := (EventChannel.uniqueKeys_iff.1 (hrestarted.keys c' hc')).2
  refine ⟨hkeyed.1, hkeyed.2, ?_, hkeys, ?_, ?_, ?_⟩
  · intro e he
    have hmem : e.2.view ∈ c'.views orb := EventChannel.mem_views.2 (Or.inl ⟨e, he, rfl⟩)
    obtain ⟨v, r, flag, -, -, -, -, heq⟩ := hreborn e.2.view hmem
    have hkind : v.kind = .ProxyPushConsumer := (congrArg ProxyView.kind heq).symm
    have htarget : e.2.target = r := Option.some_inj.1 (congrArg ProxyView.target heq)
    have hior := congrArg ProxyView.attrs heq
    simp only [Connection.view, reborn, hkind, List.cons.injEq, Prod.mk.injEq, true_and] at hior
    exact ⟨hrestarted.channelNames c' hc' e he, htarget ▸ hior.1, hoid _ hmem⟩
  · intro p hp
    have hmem : p.view orb ∈ c'.views orb := EventChannel.mem_views.2 (Or.inr ⟨p, hp, rfl⟩)
    obtain ⟨v, r, flag, -, -, -, -, heq⟩ := hreborn _ hmem
    refine ⟨?_, Servant.key_snd p orb ▸ hoid _ hmem, ?_⟩
    · have hactive := congrArg ProxyView.active heq
      cases p <;> exact hactive
    · cases p with
      | pushSupplier p =>
          have hkind : v.kind = .ProxyPushSupplier := (congrArg ProxyView.kind heq).symm
          have hior := congrArg ProxyView.attrs heq
          simp only [Servant.view, ProxyPushSupplier.view, reborn, hkind, List.cons.injEq,
            Prod.mk.injEq, true_and] at hior
          exact Or.inl hior.1
      | pullConsumer p => trivial
      | pullSupplier p =>
          have hconnected : p.connected = true := congrArg ProxyView.connected heq
          intro hne
          rw [hconnected] at hne
          cases hne
  · rw [hproperties]
    exact (hroot.find hn).attrs
  · have hsub : (c'.pullSupplier.getD []).map (·.oid) ⊆
        (kindChildren n .ProxyPullSupplier).map Prod.fst := by
      intro oid hoid
      obtain ⟨p, hp, rfl⟩ := List.mem_map.1 hoid
      have hmem : p.view orb ∈ c'.views orb :=
        EventChannel.mem_views.2 (Or.inr ⟨_, EventChannel.mem_pullSupplier.1 hp, rfl⟩)
      obtain ⟨kind, oid, node, hnode, hdecode⟩ := (hrestarted.view c' hc' _).1 hmem
      obtain ⟨hkind, hoid, -⟩ := decode_key (hsaved.readable horb.empty hnode) hdecode
      rw [find_keyPath hn] at hnode
      cases hkind
      cases hoid
      exact List.mem_map.2 ⟨(_, node), (mem_kindChildren (hroot.find hn)).2 hnode, rfl⟩
    have hnodup : ((c'.pullSupplier.getD []).map (·.oid)).Nodup := by
      rw [EventChannel.servants, List.map_append, List.map_append, List.nodup_append,
        List.nodup_append] at hkeys
      have hpull := hkeys.2.1.2.1
      rw [List.map_map] at hpull
      exact List.Nodup.of_map (Prod.mk ProxyKind.ProxyPullSupplier) (by rwa [List.map_map])
    have hle := hnodup.length_le_of_subset hsub
    rw [List.length_map, List.length_map] at hle
    rw [hproperties]
    exact hle.trans (hsaved.room c'.name n hn)

theorem channels_of_restarted (h : f.Mirrors orb root) (hrestarted : Restarted orb env root f')
    (channelName : Str) (a : List (Str × Str)) :
    f'.HasChannel channelName a ↔ f.HasChannel channelName a := by
  rw [← h.channels]
  constructor
  · rintro ⟨c', hc', rfl, rfl⟩
    obtain ⟨n, hn, hproperties⟩ := hrestarted.channel c' hc'
    rw [hproperties]
    exact PersistNode.attrsAt_of_find hn
  · intro ha
    obtain ⟨n, hn, rfl⟩ := find_of_attrsAt ha
    obtain ⟨c', hc', rfl⟩ := hrestarted.find channelName n hn
    obtain ⟨n', hn', hproperties⟩ := hrestarted.channel c' hc'
    rw [hn] at hn'
    cases hn'
    exact ⟨c', hc', rfl, hproperties⟩

/-- What a connected proxy with an IOR is, from the attributes of its record. -/
theorem peer_eq (horb : orb.Lawful) {c : EventChannel Ref} (hc : c.Live orb) {v : ProxyView Ref}
    (hv : v ∈ c.views orb) (hior : v.ior ≠ []) {r : Ref} {flag : Bool}
    (hattrs : ConnectionAttrs orb v.kind v.attrs r flag) :
    v.peer = (v.kind, v.oid, true, some r, flag) := by
  obtain ⟨hconnected, r', htarget, hior'⟩ := (hc.ior_cases hv).resolve_right hior
  have hr : r' = r := by
    have hstring : orb.object_to_string r' = orb.object_to_string r := by
      rw [← hior', ProxyView.ior, hattrs.attrs_eq, lookup_keyIOR_cons]
      rfl
    have hobject := horb.string_to_object_to_string r'
    rw [hstring, horb.string_to_object_to_string] at hobject
    cases hobject
    rfl
  have hflag : v.targetIsProxy = flag := by
    have hwritten : flagOf v.kind (.mk v.attrs []) = v.targetIsProxy :=
      (c.recorded hv).flagOf_eq rfl
    have hread : flagOf v.kind (.mk v.attrs []) = flag := ConnectionAttrs.flagOf hattrs
    exact hwritten.symm.trans hread
  rw [ProxyView.peer, hconnected, htarget, hr, hflag]

/-- The consumer of a federated push supplier answers its reconnection with `BAD_PARAM`. -/
def ProxyView.Refused (env : Env) (channelName : Str) (v : ProxyView Ref) : Prop :=
  v.kind = .ProxyPushSupplier ∧ v.targetIsProxy = true ∧
    env.remote channelName v.kind v.oid = some .BAD_PARAM

theorem remote_of_decode_none {channelName oid : Str} {kind : ProxyKind} {node : PersistNode}
    {r : Ref} {flag : Bool} (hattrs : ConnectionAttrs orb kind node.attrs r flag)
    (h : decode orb env channelName kind oid node = .ok none) :
    kind = .ProxyPushSupplier ∧ flag = true ∧
      env.remote channelName kind oid = some .BAD_PARAM := by
  by_cases hkind : kind = .ProxyPushSupplier
  · subst hkind
    simp only [decode, ProxyPushSupplier.reincarnate, hattrs.string_to_, hattrs.isProxyOf] at h
    cases flag with
    | false => cases h
    | true =>
        simp only [if_true] at h
        cases hremote : env.remote channelName .ProxyPushSupplier oid with
        | none =>
            rw [hremote] at h
            cases h
        | some ex =>
            rw [hremote] at h
            cases ex with
            | BAD_PARAM => exact ⟨rfl, rfl, rfl⟩
            | _ => cases h
  · exact absurd h (decode_ne_none hattrs.string_to_ hkind)

/-- The proxies after a start: those that knew an IOR, unless they have been refused. -/
theorem peers_of_restarted (h : f.Mirrors orb root) (horb : orb.Lawful)
    (hnames : (f.channels.map (·.name)).Nodup) (hsound : ∀ c ∈ f.channels, c.Sound orb)
    (hroot : root.Sorted) (hrestarted : Restarted orb env root f') (channelName : Str)
    (x : ProxyKind × Str × Bool × Option Ref × Bool) :
    (∃ w, f'.HasView orb channelName w ∧ w.peer = x) ↔
      ∃ v, f.HasView orb channelName v ∧ v.ior ≠ [] ∧ ¬ v.Refused env channelName ∧ v.peer = x := by
  constructor
  · rintro ⟨w, ⟨c', hc', rfl, hw⟩, rfl⟩
    obtain ⟨v, r, flag, hv, hior, hattrs, hcalm, rfl⟩ :=
      exists_reborn h horb hnames hsound hroot hrestarted hc' hw
    obtain ⟨c, hc, hname, hvc⟩ := hv
    have hpeer := peer_eq horb (hsound c hc).live hvc hior hattrs
    refine ⟨v, ⟨c, hc, hname, hvc⟩, hior, ?_, hpeer⟩
    rintro ⟨hkind, hproxy, hremote⟩
    have hflag : flag = true := by
      simp only [ProxyView.peer, Prod.mk.injEq] at hpeer
      exact hpeer.2.2.2.2.symm.trans hproxy
    have hignored := hcalm hflag _ hremote
    rw [hkind] at hignored
    cases hignored
  · rintro ⟨v, ⟨c, hc, rfl, hv⟩, hior, hrefused, rfl⟩
    obtain ⟨r, flag, hattrs⟩ := (hsound c hc).live.connectionAttrs horb hv hior
    have hpeer := peer_eq horb (hsound c hc).live hv hior hattrs
    obtain ⟨node, hnode, hnattrs⟩ := find_of_attrsAt (h.stored c.name v ⟨c, hc, rfl, hv⟩ hior)
    rw [← hnattrs] at hattrs
    obtain ⟨w, hw⟩ := hrestarted.ok c.name v.kind v.oid node hnode
    cases w with
    | none =>
        obtain ⟨hkind, hflag, hremote⟩ := remote_of_decode_none hattrs hw
        simp only [ProxyView.peer, Prod.mk.injEq] at hpeer
        exact absurd ⟨hkind, hpeer.2.2.2.2.trans hflag, hremote⟩ hrefused
    | some w =>
        obtain ⟨n, hn⟩ := exists_channel_of_find hnode
        obtain ⟨c', hc', hname⟩ := hrestarted.find c.name n hn
        rw [← hname] at hnode hw
        have hmem := (hrestarted.view c' hc' w).2 ⟨_, _, node, hnode, hw⟩
        have hreborn := ((decode_eq_some_iff hattrs.string_to_ w).1 hw).2
        rw [hattrs.flagOf] at hreborn
        refine ⟨w, ⟨c', hc', hname, hmem⟩, ?_⟩
        rw [hpeer, ← hreborn]
        rfl

end Start

/-! ## The invariant -/

namespace Server

/-- The server has the port and the end point that it was started with at first. Its log can be
    read, and mirrors it from the first checkpoint on. -/
structure Inv (orb : Orb Ref) (port : ℕ) (endPointNoListen : Str) (s : Server Ref) : Prop where
  port : s.factory.port = port
  endPointNoListen : s.factory.endPointNoListen = endPointNoListen
  names : (s.factory.channels.map (·.name)).Nodup
  sound : ∀ c ∈ s.factory.channels, c.Sound orb
  printable : ∀ c ∈ s.factory.channels, c.Printable
  clean : ∀ r ∈ s.log, r.Clean
  mirrors : s.checkpointed = true → s.factory.Mirrors orb (replay s.log)

/-- The strings of a client that makes a channel can stand in a log, no reply says `true` to a
    `Connection` that is not in `_connections` any more, and no server is started again that has not
    been up long enough for its first checkpoint. -/
def Proper (orb : Orb Ref) (s : Server Ref) : Action Ref → Prop
  | .create_object count mypid sec others insNames k criteria =>
      ∀ c, OmniEvents.create_object orb .quiet (s.factory.channels.map (·.name) ++ others) insNames
          (newUniqueId count mypid sec) k criteria = .ok c →
        CleanName c.name ∧ ∀ v, (keyFilterId, v) ∈ c.properties → ∀ ch ∈ v, isSpace ch = false
  | .lateReply _ r => r ≠ .returned true
  | .restart _ _ => s.checkpointed = true
  | _ => True

section Invariant

variable {orb : Orb Ref} {port : ℕ} {endPointNoListen : Str} {s t : Server Ref}
  {f : EventChannelFactory Ref} {options : Options} {env : Env}

theorem start_eq_some_iff {text : Str} :
    start orb options env text = some f ↔
      (∃ node, parseLog text = some node ∧ options.agree node = true) ∧
        OmniEvents.start orb env text = some f := by
  rw [start, OmniEvents.start]
  cases parseLog text with
  | none => simp
  | some node =>
      by_cases hagree : options.agree node = true
      · simp [hagree]
      · simp [hagree]

/-- What a tree says of the factory. -/
theorem attrLong_port (h : f.Mirrors orb (replay s.log)) (hport : f.port < 2 ^ 31) {e : PersistNode}
    (he : (replay s.log).child ecf = some e) (fallback : ℤ) :
    e.attrLong keyPort fallback = f.port ∧ e.attrString keyEndPoint = f.endPointNoListen := by
  obtain ⟨a, ha, hkeyPort, hkeyEndPoint⟩ := h.factory
  have hattrs : (replay s.log).attrsAt [ecf] = some e.attrs := by
    simp [PersistNode.attrsAt, PersistNode.find, he]
  rw [hattrs, Option.some_inj] at ha
  subst ha
  refine ⟨?_, hkeyEndPoint⟩
  have hspace : ∀ c ∈ Nat.toDigits 10 f.port, isSpace c = false := fun c hc =>
    (cleanName_toDigits (by decide) (by decide) f.port c hc).2
  have hlt : PersistNode.digitsVal 0 (Nat.toDigits 10 f.port) < 2 ^ 63 := by
    rw [digitsVal_toDigits]
    omega
  rw [PersistNode.attrLong, hkeyPort]
  simp only
  rw [atol_of_digits (isDigit_toDigits f.port) hspace hlt, digitsVal_toDigits]

theorem parse_text (hclean : ∀ r ∈ s.log, r.Clean) : PersistNode.parse s.text = replay s.log := by
  simpa [text] using LogRecord.replay_text hclean [] (by simp)

/-- What a start makes of the log of a server. -/
structure Restored (orb : Orb Ref) (env : Env) (f f' : EventChannelFactory Ref) : Prop where
  same : EventChannelFactory.SameChannels f f'
  peers : ∀ channelName x, (∃ w, f'.HasView orb channelName w ∧ w.peer = x) ↔
    ∃ v, f.HasView orb channelName v ∧ v.ior ≠ [] ∧ ¬ v.Refused env channelName ∧ v.peer = x

theorem Inv.start (horb : orb.Lawful) (hport : port < 2 ^ 31)
    (hs : s.Inv orb port endPointNoListen) (hcheck : s.checkpointed = true)
    (h : start orb options env s.text = some f) :
    Restored orb env s.factory f ∧
      ({ s with factory := f, checkpointed := false } : Server Ref).Inv orb port
        endPointNoListen := by
  have hmirrors := hs.mirrors hcheck
  have hparse := parse_text hs.clean
  have hroot := LogRecord.sorted_replay s.log
  obtain ⟨-, hstart⟩ := start_eq_some_iff.1 h
  have hsaved := hmirrors.saved horb hroot hs.names hs.sound
  have hrestarted := restarted_of_start horb.empty (hparse ▸ hsaved) hstart
  rw [hparse] at hrestarted
  obtain ⟨e, he, -, channels, hall, hf⟩ := start_eq_some.1 hstart
  rw [hparse] at he
  have hidentity := attrLong_port hmirrors (hs.port.symm ▸ hport) he 11169
  have hsame : EventChannelFactory.SameChannels s.factory f := by
    refine ⟨?_, ?_, channels_of_restarted hmirrors hrestarted⟩
    · rw [hf]
      simp only [hidentity.1, hs.port]
      omega
    · rw [hf]
      exact hidentity.2
  refine ⟨⟨hsame, peers_of_restarted hmirrors horb hs.names hs.sound hroot hrestarted⟩, ?_⟩
  refine ⟨hsame.port.trans hs.port, hsame.endPointNoListen.trans hs.endPointNoListen,
    hrestarted.names, ?_, ?_, hs.clean, by simp⟩
  · intro c hc
    refine sound_of_restarted hmirrors horb hs.names hs.sound hroot hrestarted hc ?_
    obtain ⟨n, -, hactivate⟩ := (activateAll_spec hall).2 c (by rw [hf] at hc; exact hc)
    exact keyed_of_activate hactivate
  · intro c hc
    obtain ⟨d, hd, hname, hproperties⟩ := (hsame.channels c.name c.properties).1 ⟨c, hc, rfl, rfl⟩
    have hprint := hs.printable d hd
    exact ⟨hname ▸ hprint.name, hproperties ▸ hprint.properties⟩

/-- The output of a sound server goes through. -/
theorem output_of_sound (hsound : ∀ c ∈ f.channels, c.Sound orb) :
    f.output orb = ⟨f.log orb, none⟩ := by
  have houtput : ∀ c ∈ f.channels, c.output orb = ⟨c.log orb, none⟩ := fun c hc =>
    EventChannel.output_of_active (hsound c hc).live.active
      (fun e he => ((hsound c hc).live.connections e he).1)
  have hactive : ∀ c ∈ f.channels, c.PullsActive := fun c hc =>
    (c.output_raised orb).1 (by rw [houtput c hc])
  have hrecords : (f.output orb).records = f.log orb := by
    rw [f.output_records orb hactive, EventChannelFactory.log, List.singleton_append]
    exact congrArg _ (List.flatMap_congr (fun c hc => by rw [houtput c hc]))
  have hraised : (f.output orb).raised = none := (f.output_raised orb).2 hactive
  rcases hout : f.output orb with ⟨records, raised⟩
  rw [hout] at hrecords hraised
  simp only at hrecords hraised
  rw [hrecords, hraised]

theorem name_of_create_object {poas insNames : List Str} {uniqueId : Str} {k : List NameComponent}
    {criteria : List Criterion} {c : EventChannel Ref}
    (h : OmniEvents.create_object orb env poas insNames uniqueId k criteria = .ok c) :
    c.name ∉ poas := by
  unfold OmniEvents.create_object at h
  split at h
  · cases h
  split at h
  · cases h
  split at h
  · cases h
  next hpoas =>
  split at h
  · cases h
  next channel hactivate =>
  split at h
  · cases h
  · cases h
    rw [name_of_activate hactivate]
    exact hpoas

theorem sound_of_created {c : EventChannel Ref} (hc : Created c) : c.Sound orb := by
  have hfresh := hc.fresh
  have hsorted := hc.sorted
  generalize c.name = name at hfresh
  generalize c.properties = properties at hfresh hsorted
  subst hfresh
  exact ⟨.nil, by simp [EventChannel.fresh], by simp [EventChannel.fresh], by
    simp [EventChannel.servants, EventChannel.fresh], by
    simp [EventChannel.servants, EventChannel.fresh], hsorted, by simp [EventChannel.fresh]⟩

theorem Inv.create (hs : s.Inv orb port endPointNoListen) {count mypid sec : ℕ}
    {others insNames : List Str} {k : List NameComponent} {criteria : List Criterion}
    (hproper : s.Proper orb (.create_object count mypid sec others insNames k criteria))
    (hst : s.step orb (.create_object count mypid sec others insNames k criteria) = some t) :
    t.Inv orb port endPointNoListen := by
  simp only [step] at hst
  split at hst
  · cases hst
    exact hs
  next c hcreate =>
  cases hst
  obtain ⟨hname, hfilter⟩ := hproper c hcreate
  have hc := created_of_create_object (by simp [newUniqueId]) hcreate
  have hprint : c.Printable := ⟨hname, hc.cleanAttrs hname hfilter⟩
  have hfresh : c.name ∉ s.factory.channels.map (·.name) := fun hmem =>
    name_of_create_object hcreate (List.mem_append_left _ hmem)
  have hrecords : (c.output orb).records = [.block [ecf, c.name] c.properties] :=
    congrArg Written.records ((congrArg (·.output orb) hc.fresh).trans rfl)
  have hr : (LogRecord.block [ecf, c.name] c.properties).Clean :=
    ⟨⟨rfl, by simpa using ⟨cleanName_ecf, hprint.name⟩⟩, hprint.properties⟩
  rw [hrecords]
  refine ⟨hs.port, hs.endPointNoListen, ?_, ?_, ?_, ?_, ?_⟩
  · rw [List.map_append, List.nodup_append']
    refine ⟨hs.names, List.nodup_singleton _, ?_⟩
    simpa using hfresh
  · simp only [List.forall_mem_append, List.forall_mem_singleton]
    exact ⟨hs.sound, sound_of_created hc⟩
  · simp only [List.forall_mem_append, List.forall_mem_singleton]
    exact ⟨hs.printable, hprint⟩
  · simp only [List.forall_mem_append, List.forall_mem_singleton]
    exact ⟨hs.clean, hr⟩
  · intro hcheck
    rw [LogRecord.replay_append]
    exact (hs.mirrors hcheck).create hc hprint hfresh

/-- What the late reply appends, unless it says `true`. -/
theorem callback_eq_none {connection : Connection Ref} {r : IsAReply} (h : r ≠ .returned true) :
    (connection.callback r).2 = none := by
  cases r with
  | returned isProxy =>
      cases isProxy with
      | false => rfl
      | true => exact absurd rfl h
  | unexpected => rfl
  | exception => rfl

theorem Inv.step (horb : orb.Lawful) (hport : port < 2 ^ 31)
    (hendPoint : ∀ ch ∈ endPointNoListen, isSpace ch = false)
    (hs : s.Inv orb port endPointNoListen) {a : Action Ref} (hproper : s.Proper orb a)
    (hst : s.step orb a = some t) : t.Inv orb port endPointNoListen := by
  cases a with
  | create_object count mypid sec others insNames k criteria => exact hs.create hproper hst
  | channelEnds channelName =>
      simp only [Server.step] at hst
      split at hst
      · next hmem =>
          cases hst
          obtain ⟨c, hc, rfl⟩ := List.mem_map.1 hmem
          have hprint := hs.printable c hc
          have hsub := List.filter_sublist (l := s.factory.channels) (p := (·.name ≠ c.name))
          refine ⟨hs.port, hs.endPointNoListen, hs.names.sublist (hsub.map _),
            fun d hd => hs.sound d (hsub.subset hd), fun d hd => hs.printable d (hsub.subset hd),
            ?_, ?_⟩
          · simp only [List.forall_mem_append, List.forall_mem_singleton]
            exact ⟨hs.clean, rfl, by simpa using ⟨cleanName_ecf, hprint.name⟩⟩
          · intro hcheck
            rw [LogRecord.replay_append]
            exact (hs.mirrors hcheck).delete hprint
      · cases hst
  | call channelName a =>
      simp only [Server.step, Option.bind_eq_some_iff, Option.map_eq_some_iff] at hst
      obtain ⟨c, hfind, ⟨c', records⟩, hcall, rfl⟩ := hst
      have hc := List.mem_of_find?_eq_some hfind
      have hcalled := EventChannel.called_of_call (hs.sound c hc) hcall
      have hmem := fun d => EventChannelFactory.mem_setChannel hc hcalled.name (d := d)
      refine ⟨hs.port, hs.endPointNoListen, ?_, ?_, ?_, ?_, ?_⟩
      · rw [EventChannelFactory.names_setChannel]
        exact hs.names
      · intro d hd
        rcases (hmem d).1 hd with ⟨hd, -⟩ | rfl
        · exact hs.sound d hd
        · exact hcalled.sound
      · intro d hd
        rcases (hmem d).1 hd with ⟨hd, -⟩ | rfl
        · exact hs.printable d hd
        · have hprint := hs.printable c hc
          exact ⟨hcalled.name ▸ hprint.name, hcalled.properties ▸ hprint.properties⟩
      · exact List.forall_mem_append.2
          ⟨hs.clean, hcalled.clean horb (hs.sound c hc) (hs.printable c hc)⟩
      · intro hcheck
        rw [replay, List.foldl_append]
        exact (hs.mirrors hcheck).change horb hs.names hc (hs.sound c hc) (hs.printable c hc)
          hcalled
  | lateReply connection r =>
      simp only [Server.step, callback_eq_none hproper, Option.toList_none, List.append_nil] at hst
      cases hst
      exact hs
  | checkpoint =>
      have hlive : ∀ c ∈ s.factory.channels, c.Live orb := fun c hc => (hs.sound c hc).live
      have hclean := s.factory.clean_log horb hlive hs.printable (hs.endPointNoListen ▸ hendPoint)
      simp only [Server.step, output_of_sound hs.sound] at hst
      cases hst
      exact ⟨hs.port, hs.endPointNoListen, hs.names, hs.sound, hs.printable, hclean,
        fun _ => .checkpoint hs.names hlive hclean⟩
  | restart options env =>
      obtain ⟨f, hf, rfl⟩ := Option.map_eq_some_iff.1 hst
      exact (hs.start horb hport hproper hf).2

theorem inv_cold : (cold port endPointNoListen : Server Ref).Inv orb port endPointNoListen where
  port := rfl
  endPointNoListen := rfl
  names := List.nodup_nil
  sound := by simp [cold]
  printable := by simp [cold]
  clean := by simp [cold]
  mirrors := by simp [cold]

end Invariant

/-! ## Over any number of starts -/

end Server

namespace Server

section Connections

variable {orb : Orb Ref} {port : ℕ} {endPointNoListen channelName : Str} {s t : Server Ref}
  {key : ProxyKind × Str} {r : Ref} {a : Action Ref}

end Connections

end Server

end OmniEvents
