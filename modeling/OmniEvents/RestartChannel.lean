import OmniEvents.Restart

set_option autoImplicit false

/-! # Saving a channel and starting it again

A channel is written with `EventChannel_i::output`, the text is parsed, and the channel is activated
from the node of its name. Each record decides on its own whether its proxy comes back: the record of
a pull supplier that is connected to a nil consumer has no IOR, and that of a push supplier that has
itself been started from the log has an empty one. -/

namespace OmniEvents

open LogRecord (Clean CleanName CleanPath CleanAttr replay attrMap ecf)

variable {Ref : Type}

/-! ## Object ids -/

/-- `newUniqueId`: `%lx.%d.%lx` of a counter, the process id and the time. -/
def newUniqueId (count mypid sec : ℕ) : Str :=
  Nat.toDigits 16 count ++ '.' :: (Nat.toDigits 10 mypid ++ '.' :: Nat.toDigits 16 sec)

theorem cleanName_toDigits {b : ℕ} (hb : 1 < b) (hb16 : b ≤ 16) (n : ℕ) :
    CleanName (Nat.toDigits b n) := by
  have hdigit : ∀ m < 16, m.digitChar ≠ '/' ∧ isSpace m.digitChar = false := by decide
  induction n using Nat.strong_induction_on with
  | _ n ih =>
      intro c hc
      rw [Nat.toDigits_eq_if hb] at hc
      split at hc
      · rw [List.mem_singleton.1 hc]
        exact hdigit n (by omega)
      · next hle =>
          rcases List.mem_append.1 hc with hc | hc
          · exact ih (n / b) (Nat.div_lt_self (by omega) hb) c hc
          · rw [List.mem_singleton.1 hc]
            exact hdigit _ (lt_of_lt_of_le (Nat.mod_lt n (by omega)) hb16)

theorem cleanName_ecf : CleanName ecf := by
  show ∀ c ∈ ecf, c ≠ '/' ∧ isSpace c = false
  decide

theorem ProxyKind.cleanName_admin (kind : ProxyKind) : CleanName kind.admin := by
  show ∀ c ∈ kind.admin, c ≠ '/' ∧ isSpace c = false
  cases kind <;> decide

theorem ProxyKind.cleanName_name (kind : ProxyKind) : CleanName kind.name := by
  show ∀ c ∈ kind.name, c ≠ '/' ∧ isSpace c = false
  cases kind <;> decide

/-- The ids that the server makes can stand in a path. -/
theorem cleanName_newUniqueId (count mypid sec : ℕ) : CleanName (newUniqueId count mypid sec) := by
  intro c hc
  simp only [newUniqueId, List.mem_append, List.mem_cons] at hc
  rcases hc with hc | rfl | hc | rfl | hc
  · exact cleanName_toDigits (by decide) (by decide) _ c hc
  · decide
  · exact cleanName_toDigits (by decide) (by decide) _ c hc
  · decide
  · exact cleanName_toDigits (by decide) (by decide) _ c hc

/-! ## Live channels

What holds of a channel whose proxies are not being torn down, and what the strings in it must be
for the log to have all there is. -/

/-- What is assumed of the ORB: references and strings correspond, the strings have no white space,
    and the empty string is refused. -/
structure Orb.Lawful (orb : Orb Ref) : Prop where
  string_to_object_to_string : ∀ r, orb.string_to_object (orb.object_to_string r) = .ok (some r)
  empty : orb.string_to_object [] = .error .BAD_PARAM
  noSpace : ∀ r, ∀ c ∈ orb.object_to_string r, isSpace c = false

/-- A channel as it stands while no proxy is being torn down. -/
structure EventChannel.Live (orb : Orb Ref) (c : EventChannel Ref) : Prop where
  active : ∀ v ∈ c.views orb, v.active = true
  keys : c.UniqueKeys orb
  oids : ∀ v ∈ c.views orb, ∃ count mypid sec, v.oid = newUniqueId count mypid sec
  /-- The properties are a map. -/
  properties : OrdMap.Sorted c.properties
  /-- What the constructor of `Connection` is given, and what it stores. -/
  connections : ∀ e ∈ c.connections,
    e.2.channelName = c.name ∧ e.2.target_sior = orb.object_to_string e.2.target
  /-- `connect_push_consumer` stores the string, `reincarnate` does not. -/
  pushSupplier : ∀ p ∈ c.pushSupplier.getD [],
    p.target_sior = [] ∨ ∃ r, p.target = some r ∧ p.target_sior = orb.object_to_string r
  pullSupplier : ∀ p ∈ c.pullSupplier.getD [], p.connected = false → p.target = none
  /-- `incarnate` evicts a servant when there is no room for another. -/
  room : (c.pullSupplier.getD []).length ≤ maxNumProxies c.properties

/-- The name of the channel and its properties can stand in a log. -/
structure EventChannel.Printable (c : EventChannel Ref) : Prop where
  name : CleanName c.name
  properties : ∀ kv ∈ c.properties, CleanAttr kv

/-- What it takes for the connections of a channel to come back: a name that can stand in a log if
    there is any, a consumer for each pull supplier that is connected, a stored IOR for each push
    supplier, and no reconnection that ends in an exception other than a failure to communicate. -/
structure EventChannel.Restorable (orb : Orb Ref) (env : Env) (c : EventChannel Ref) : Prop where
  name : CleanName c.name ∨ ∀ v ∈ c.views orb, v.connected = false
  pullSupplier : ∀ p ∈ c.pullSupplier.getD [], p.connected = true → p.target ≠ none
  pushSupplier : ∀ p ∈ c.pushSupplier.getD [], p.target ≠ none → p.target_sior ≠ []
  reconnect : ∀ v ∈ c.views orb, v.connected = true →
    Calm env c.name v.kind v.oid v.targetIsProxy

/-- Write the channel, parse what was written, and activate the channel again. -/
def restartChannel (orb : Orb Ref) (env : Env) (c : EventChannel Ref) :
    Except Exn (EventChannel Ref) :=
  match c.output orb with
  | ⟨_, some ex⟩ => .error ex
  | ⟨records, none⟩ =>
      EventChannel.activate orb env c.name
        (((PersistNode.parse (records.flatMap LogRecord.text)).child ecf).bind (·.child c.name))

/-- What a connected proxy is: kind, object id, connected status, target and proxy flag. -/
def ProxyView.peer (v : ProxyView Ref) : ProxyKind × Str × Bool × Option Ref × Bool :=
  (v.kind, v.oid, v.connected, v.target, v.targetIsProxy)

/-- The restart succeeds, and the proxies afterwards are the connected ones before, and no others. -/
def RestoresConnections (orb : Orb Ref) (env : Env) (c : EventChannel Ref) : Prop :=
  ∃ c', restartChannel orb env c = .ok c' ∧
    ((c'.views orb).map (·.peer)).Perm (((c.views orb).filter (·.connected)).map (·.peer))

/-! ## The record of a view -/

/-- The IOR in the record of a proxy. -/
def ProxyView.ior (v : ProxyView Ref) : Str := (v.attrs.lookup keyIOR).getD []

theorem lookup_keyIOR_cons (s : Str) (attrs : List (Str × Str)) :
    ((keyIOR, s) :: attrs).lookup keyIOR = some s := by simp

theorem isProxyOf_of_attrs {node : PersistNode} {s : Str} {flag : Bool}
    (h : node.attrs = (keyIOR, s) :: proxyAttr flag) : isProxyOf node = flag := by
  have hne : (keyProxy == keyIOR) = false := by decide
  cases flag with
  | true =>
      have hlookup : node.attrs.lookup keyProxy = some ['1'] := by
        rw [h, List.lookup_cons, hne]
        simp [proxyAttr]
      have hatol : PersistNode.atol ['1'] = 1 := by decide
      simp [isProxyOf, PersistNode.attrLong, hlookup, hatol]
  | false =>
      have hlookup : node.attrs.lookup keyProxy = none := by
        rw [h, List.lookup_cons, hne]
        rfl
      simp [isProxyOf, PersistNode.attrLong, hlookup]

theorem sorted_proxyRecord (s : Str) (flag : Bool) :
    OrdMap.Sorted ((keyIOR, s) :: proxyAttr flag) := by
  cases flag with
  | false => exact List.pairwise_singleton ..
  | true =>
      refine List.pairwise_cons.2 ⟨?_, List.pairwise_singleton ..⟩
      intro e he
      rw [List.mem_singleton.1 he]
      exact (by decide : keyIOR < keyProxy)

/-- How the record of a proxy looks: nothing for a nil reference, else an IOR and, for the kinds that
    push, the flag. -/
inductive ProxyView.Recorded (v : ProxyView Ref) : Prop where
  | nil (attrs : v.attrs = []) (kind : v.kind = .ProxyPullConsumer ∨ v.kind = .ProxyPullSupplier)
      (flag : v.targetIsProxy = false)
  | pull (s : Str) (attrs : v.attrs = (keyIOR, s) :: proxyAttr v.targetIsProxy)
      (kind : v.kind = .ProxyPullConsumer ∨ v.kind = .ProxyPullSupplier)
      (flag : v.targetIsProxy = false)
  | push (s : Str) (attrs : v.attrs = (keyIOR, s) :: proxyAttr v.targetIsProxy)
      (kind : v.kind = .ProxyPushConsumer ∨ v.kind = .ProxyPushSupplier)

theorem ProxyView.Recorded.sorted {v : ProxyView Ref} (h : v.Recorded) : OrdMap.Sorted v.attrs := by
  cases h with
  | nil attrs _ _ => rw [attrs]; exact OrdMap.Sorted.nil
  | pull s attrs _ _ => rw [attrs]; exact sorted_proxyRecord s _
  | push s attrs _ => rw [attrs]; exact sorted_proxyRecord s _

/-- The flag read back is the one written. -/
theorem ProxyView.Recorded.flagOf_eq {v : ProxyView Ref} (h : v.Recorded) {node : PersistNode}
    (hnode : node.attrs = v.attrs) : flagOf v.kind node = v.targetIsProxy := by
  cases h with
  | nil attrs kind flag => rcases kind with kind | kind <;> simp [flagOf, kind, flag]
  | pull s attrs kind flag => rcases kind with kind | kind <;> simp [flagOf, kind, flag]
  | push s attrs kind =>
      have hflag := isProxyOf_of_attrs (hnode.trans attrs)
      rcases kind with kind | kind <;> simp [flagOf, kind, hflag]

section Live

variable {orb : Orb Ref} {c : EventChannel Ref}

theorem recorded_of_ref (orb : Orb Ref) {v : ProxyView Ref} (target : Option Ref)
    (hattrs : v.attrs = refAttrs orb target)
    (kind : v.kind = .ProxyPullConsumer ∨ v.kind = .ProxyPullSupplier)
    (flag : v.targetIsProxy = false) : v.Recorded := by
  cases target with
  | none => exact .nil hattrs kind flag
  | some r => exact .pull (orb.object_to_string r) (by rw [hattrs, flag]; rfl) kind flag

theorem EventChannel.recorded {v : ProxyView Ref} (hv : v ∈ c.views orb) : v.Recorded := by
  simp only [views, List.mem_append, List.mem_map] at hv
  rcases hv with (⟨e, -, rfl⟩ | ⟨p, -, rfl⟩) | ⟨p, -, rfl⟩ | ⟨p, -, rfl⟩
  · exact .push _ rfl (Or.inl rfl)
  · exact recorded_of_ref orb p.target rfl (Or.inl rfl) rfl
  · exact .push _ rfl (Or.inr rfl)
  · exact recorded_of_ref orb p.target rfl (Or.inr rfl) rfl

/-- The record of a proxy holds the string of its target, or no IOR; the latter if the proxy is not
    connected. -/
theorem EventChannel.Live.ior_cases (hc : c.Live orb) {v : ProxyView Ref} (hv : v ∈ c.views orb) :
    (v.connected = true ∧ ∃ r, v.target = some r ∧ v.ior = orb.object_to_string r) ∨
      v.ior = [] := by
  simp only [views, List.mem_append, List.mem_map] at hv
  rcases hv with (⟨e, he, rfl⟩ | ⟨p, hp, rfl⟩) | ⟨p, hp, rfl⟩ | ⟨p, hp, rfl⟩
  · refine Or.inl ⟨rfl, e.2.target, rfl, ?_⟩
    rw [ProxyView.ior, Connection.view, lookup_keyIOR_cons, (hc.connections e he).2]
    rfl
  · cases htarget : p.target with
    | none => exact Or.inr (by simp [ProxyView.ior, ProxyPullConsumer.view, refAttrs, htarget])
    | some r =>
        exact Or.inl ⟨by simp [ProxyPullConsumer.view, htarget], r,
          by simp [ProxyPullConsumer.view, htarget],
          by simp [ProxyView.ior, ProxyPullConsumer.view, refAttrs, htarget]⟩
  · rcases hc.pushSupplier p hp with hsior | ⟨r, htarget, hsior⟩
    · exact Or.inr (by simp [ProxyView.ior, ProxyPushSupplier.view, hsior])
    · exact Or.inl ⟨by simp [ProxyPushSupplier.view, htarget], r,
        by simp [ProxyPushSupplier.view, htarget],
        by simp [ProxyView.ior, ProxyPushSupplier.view, hsior]⟩
  · cases htarget : p.target with
    | none => exact Or.inr (by simp [ProxyView.ior, ProxyPullSupplier.view, refAttrs, htarget])
    | some r =>
        have hconn : p.connected = true := by
          cases hconn : p.connected with
          | true => rfl
          | false => simp [hc.pullSupplier p hp hconn] at htarget
        exact Or.inl ⟨hconn, r, by simp [ProxyPullSupplier.view, htarget],
          by simp [ProxyView.ior, ProxyPullSupplier.view, refAttrs, htarget]⟩

/-- The records of a view can stand in a log. -/
theorem clean_record {channelName : Str} {v : ProxyView Ref} (hname : CleanName channelName)
    (hoid : CleanName v.oid) (hv : v.Recorded) (hior : ∀ c ∈ v.ior, isSpace c = false) :
    (v.record channelName).Clean := by
  have hattr : ∀ s flag, v.attrs = (keyIOR, s) :: proxyAttr flag → ∀ kv ∈ v.attrs, CleanAttr kv := by
    intro s flag hattrs kv hkv
    have hs : v.ior = s := by rw [ProxyView.ior, hattrs, lookup_keyIOR_cons]; rfl
    rw [hattrs, List.mem_cons] at hkv
    rcases hkv with rfl | hkv
    · exact ⟨(by decide : ∀ c ∈ keyIOR, c ≠ '=' ∧ isSpace c = false), hs ▸ hior,
        (by decide : keyIOR.head? ≠ some '#')⟩
    · cases flag with
      | false => cases hkv
      | true =>
          rw [List.mem_singleton.1 hkv]
          exact ⟨by decide, by decide, by decide⟩
  refine ⟨⟨rfl, ?_⟩, ?_⟩
  · simp only [keyPath, List.forall_mem_cons, List.not_mem_nil, false_implies, implies_true, and_true]
    exact ⟨cleanName_ecf, hname, v.kind.cleanName_admin, v.kind.cleanName_name, hoid⟩
  · cases hv with
    | nil attrs _ _ => simp [attrs]
    | pull s attrs _ _ => exact hattr s _ attrs
    | push s attrs _ => exact hattr s _ attrs

theorem EventChannel.Live.clean_log (horb : orb.Lawful) (hc : c.Live orb) (hprint : c.Printable) :
    ∀ r ∈ c.log orb, r.Clean := by
  intro r hr
  rcases mem_log.1 hr with rfl | ⟨v, hv, rfl⟩
  · exact ⟨⟨rfl, by simpa using ⟨cleanName_ecf, hprint.name⟩⟩, hprint.properties⟩
  · obtain ⟨count, mypid, sec, hoid⟩ := hc.oids v hv
    have hcleanOid : CleanName v.oid := by
      rw [hoid]
      exact cleanName_newUniqueId count mypid sec
    refine clean_record hprint.name hcleanOid (c.recorded hv) ?_
    rcases hc.ior_cases hv with ⟨-, r, -, hior⟩ | hior
    · rw [hior]
      exact horb.noSpace r
    · simp [hior]

/-- A live channel writes its log, from which its node is parsed. -/
theorem EventChannel.Live.restart_eq (horb : orb.Lawful) (hc : c.Live orb) (hprint : c.Printable)
    (env : Env) :
    ∃ n, (replay (c.log orb)).find [ecf, c.name] = some n ∧ n.attrs = c.properties ∧
      restartChannel orb env c = EventChannel.activate orb env c.name (some n) := by
  have hclean := hc.clean_log horb hprint
  have hparse : PersistNode.parse ((c.log orb).flatMap LogRecord.text) = replay (c.log orb) := by
    simpa using LogRecord.replay_text hclean [] (by simp)
  have hnode : (replay (c.log orb)).attrsAt [ecf, c.name] = some (attrMap c.properties) :=
    LogRecord.attrsAt_replay_of_mem hclean hc.keys.ordered_log
      (Or.inr (mem_log.2 (Or.inl rfl)))
  obtain ⟨n, hn, hattrs⟩ := find_of_attrsAt hnode
  refine ⟨n, hn, hattrs.trans (LogRecord.attrMap_of_sorted hc.properties), ?_⟩
  rw [restartChannel, EventChannel.output_of_active hc.active (fun e he => (hc.connections e he).1)]
  simp only [PersistNode.find, Option.bind_fun_some] at hn
  simp only [hparse, hn]

end Live

/-! ## Which connections come back -/

section Restores

variable {orb : Orb Ref} {env : Env} {c : EventChannel Ref} {n : PersistNode}

/-- The records below the node of a channel are those of its views. -/
theorem EventChannel.Live.mem_kindChildren_iff (horb : orb.Lawful) (hc : c.Live orb)
    (hprint : c.Printable) (hn : (replay (c.log orb)).find [ecf, c.name] = some n)
    (kind : ProxyKind) (oid : Str) (a : List (Str × Str)) :
    (∃ m, (oid, m) ∈ kindChildren n kind ∧ m.attrs = a) ↔
      ∃ v ∈ c.views orb, v.kind = kind ∧ v.oid = oid ∧ v.attrs = a := by
  have hlog : ([] : List LogRecord) ++ [c].flatMap (·.log orb) = c.log orb := by simp
  rw [exists_kindChildren (LogRecord.sorted_replay _) hn, ← hlog,
    attrsAt_serverLog (by simp) (by rw [hlog]; exact hc.keys.ordered_log)
      (by rw [hlog]; exact hc.clean_log horb hprint)]
  constructor
  · rintro ⟨c', hc', -, v, hv, rfl, rfl, rfl⟩
    rw [List.mem_singleton.1 hc'] at hv
    exact ⟨v, hv, rfl, rfl, (LogRecord.attrMap_of_sorted (c.recorded hv).sorted).symm⟩
  · rintro ⟨v, hv, rfl, rfl, rfl⟩
    exact ⟨c, List.mem_singleton_self c, rfl, v, hv, rfl, rfl,
      LogRecord.attrMap_of_sorted (c.recorded hv).sorted⟩

/-- What the record of a view denotes. -/
theorem attrString_of_attrs {node : PersistNode} {v : ProxyView Ref} (h : node.attrs = v.attrs) :
    node.attrString keyIOR = v.ior := by
  rw [PersistNode.attrString, h, ProxyView.ior]

theorem Orb.Lawful.string_to_ (horb : orb.Lawful) (r : Ref) :
    orb.string_to_ (orb.object_to_string r) = .ok r := by
  rw [Orb.string_to_, horb.string_to_object_to_string]

theorem Orb.Lawful.string_to_nil (horb : orb.Lawful) : orb.string_to_ [] = .error .BAD_PARAM := by
  rw [Orb.string_to_, horb.empty]

theorem EventChannel.Live.readable (horb : orb.Lawful) (hc : c.Live orb) {v : ProxyView Ref}
    (hv : v ∈ c.views orb) {node : PersistNode} (hnode : node.attrs = v.attrs) :
    Readable orb node := by
  rw [Readable, attrString_of_attrs hnode]
  rcases hc.ior_cases hv with ⟨-, r, -, hior⟩ | hior
  · exact Or.inl ⟨r, by rw [hior, horb.string_to_]⟩
  · exact Or.inr (by rw [hior, horb.string_to_nil])

/-- The record of a view brings back a proxy exactly if it has an IOR and the reconnection does not
    fail, and then it is the same connection. -/
theorem EventChannel.Live.decode_iff (horb : orb.Lawful) (hc : c.Live orb) {v : ProxyView Ref}
    (hv : v ∈ c.views orb) {node : PersistNode} (hnode : node.attrs = v.attrs)
    (w : ProxyView Ref) :
    decode orb env c.name v.kind v.oid node = .ok (some w) ↔
      v.ior ≠ [] ∧ Calm env c.name v.kind v.oid v.targetIsProxy ∧
        ∃ r, v.target = some r ∧ reborn orb v.kind v.oid r v.targetIsProxy = w := by
  rcases hc.ior_cases hv with ⟨-, r, htarget, hior⟩ | hior
  · have hdenotes : orb.string_to_ (node.attrString keyIOR) = .ok r := by
      rw [attrString_of_attrs hnode, hior, horb.string_to_]
    have hne : v.ior ≠ [] := by
      intro hnil
      have := horb.string_to_ r
      rw [← hior, hnil, horb.string_to_nil] at this
      cases this
    rw [decode_eq_some_iff hdenotes, (c.recorded hv).flagOf_eq hnode]
    simp [hne, htarget]
  · have hbad : orb.string_to_ (node.attrString keyIOR) = .error .BAD_PARAM := by
      rw [attrString_of_attrs hnode, hior, horb.string_to_nil]
    rw [decode_badParam hbad]
    simp [hior]

theorem EventChannel.UniqueKeys.eq (h : c.UniqueKeys orb) {v w : ProxyView Ref}
    (hv : v ∈ c.views orb) (hw : w ∈ c.views orb) (hkind : v.kind = w.kind) (hoid : v.oid = w.oid) :
    v = w :=
  List.inj_on_of_nodup_map h hv hw (by rw [hkind, hoid])

/-- A live channel has a record with an IOR for each connected proxy exactly if no target is nil and
    no IOR has been lost. -/
theorem EventChannel.Live.ior_ne_nil_iff (horb : orb.Lawful) (hc : c.Live orb) :
    (∀ v ∈ c.views orb, v.connected = true → v.ior ≠ []) ↔
      (∀ p ∈ c.pullSupplier.getD [], p.connected = true → p.target ≠ none) ∧
        ∀ p ∈ c.pushSupplier.getD [], p.target ≠ none → p.target_sior ≠ [] := by
  have hne : ∀ r, orb.object_to_string r ≠ [] := by
    intro r hnil
    have := horb.string_to_ r
    rw [hnil, horb.string_to_nil] at this
    cases this
  constructor
  · intro h
    constructor
    · intro p hp hconn htarget
      have hv : p.view orb ∈ c.views orb :=
        List.mem_append_right _ (List.mem_append_right _ (List.mem_map_of_mem hp))
      refine h (p.view orb) hv hconn ?_
      simp [ProxyView.ior, ProxyPullSupplier.view, refAttrs, htarget]
    · intro p hp htarget
      have hv : p.view ∈ c.views orb :=
        List.mem_append_right _ (List.mem_append_left _ (List.mem_map_of_mem hp))
      have hior := h p.view hv
        (by simpa [ProxyPushSupplier.view, Option.isSome_iff_ne_none] using htarget)
      simpa [ProxyView.ior, ProxyPushSupplier.view] using hior
  · rintro ⟨hpull, hpush⟩ v hv hconn
    simp only [views, List.mem_append, List.mem_map] at hv
    rcases hv with (⟨e, he, rfl⟩ | ⟨p, hp, rfl⟩) | ⟨p, hp, rfl⟩ | ⟨p, hp, rfl⟩
    · simp only [ProxyView.ior, Connection.view, lookup_keyIOR_cons, Option.getD_some,
        (hc.connections e he).2]
      exact hne _
    · obtain ⟨r, hr⟩ := Option.isSome_iff_exists.1 hconn
      simpa [ProxyView.ior, ProxyPullConsumer.view, refAttrs, hr] using hne r
    · have := hpush p hp (Option.isSome_iff_ne_none.1 hconn)
      simpa [ProxyView.ior, ProxyPushSupplier.view] using this
    · obtain ⟨r, hr⟩ := Option.ne_none_iff_exists'.1 (hpull p hp hconn)
      simpa [ProxyView.ior, ProxyPullSupplier.view, refAttrs, hr] using hne r

theorem EventChannel.oid_mem_of_pullSupplier {v : ProxyView Ref} (hv : v ∈ c.views orb)
    (hkind : v.kind = .ProxyPullSupplier) : v.oid ∈ (c.pullSupplier.getD []).map (·.oid) := by
  simp only [views, List.mem_append, List.mem_map] at hv
  rcases hv with (⟨e, he, rfl⟩ | ⟨p, hp, rfl⟩) | ⟨p, hp, rfl⟩ | ⟨p, hp, rfl⟩
  · cases hkind
  · cases hkind
  · cases hkind
  · exact List.mem_map_of_mem hp

/-- There is room for all pull suppliers that come back. -/
theorem EventChannel.Live.room_kindChildren (horb : orb.Lawful) (hc : c.Live orb)
    (hprint : c.Printable) (hn : (replay (c.log orb)).find [ecf, c.name] = some n)
    (hsorted : n.Sorted) :
    (kindChildren n .ProxyPullSupplier).length ≤ maxNumProxies c.properties := by
  have hsub : (kindChildren n .ProxyPullSupplier).map Prod.fst ⊆
      (c.pullSupplier.getD []).map (·.oid) := by
    intro oid hoid
    obtain ⟨⟨_, m⟩, he, rfl⟩ := List.mem_map.1 hoid
    obtain ⟨v, hv, hkind, rfl, -⟩ :=
      (hc.mem_kindChildren_iff horb hprint hn .ProxyPullSupplier _ m.attrs).1 ⟨m, he, rfl⟩
    exact c.oid_mem_of_pullSupplier hv hkind
  have hnodup := (sorted_kindChildren hsorted .ProxyPullSupplier).nodup_keys
  have hle := hnodup.length_le_of_subset hsub
  simp only [List.length_map] at hle
  exact hle.trans hc.room

/-- What comes back: the connected proxies that have an IOR and are reconnected calmly. -/
theorem EventChannel.Live.mem_decodeAll_iff (horb : orb.Lawful) (hc : c.Live orb)
    (hprint : c.Printable) (hn : (replay (c.log orb)).find [ecf, c.name] = some n)
    {views : List (ProxyView Ref)} (hviews : decodeAll orb env c.name n = some views)
    (w : ProxyView Ref) :
    w ∈ views ↔ ∃ v ∈ c.views orb, v.ior ≠ [] ∧ Calm env c.name v.kind v.oid v.targetIsProxy ∧
      ∃ r, v.target = some r ∧ reborn orb v.kind v.oid r v.targetIsProxy = w := by
  rw [mem_of_decodeAll hviews]
  constructor
  · rintro ⟨kind, ⟨oid, m⟩, he, hdec⟩
    obtain ⟨v, hv, rfl, rfl, hattrs⟩ :=
      (hc.mem_kindChildren_iff horb hprint hn kind oid m.attrs).1 ⟨m, he, rfl⟩
    exact ⟨v, hv, (hc.decode_iff horb hv hattrs.symm w).1 hdec⟩
  · rintro ⟨v, hv, hw⟩
    obtain ⟨m, he, hattrs⟩ :=
      (hc.mem_kindChildren_iff horb hprint hn v.kind v.oid v.attrs).2 ⟨v, hv, rfl, rfl, rfl⟩
    exact ⟨v.kind, (v.oid, m), he, (hc.decode_iff horb hv hattrs w).2 hw⟩

/-- The records of a live channel are readable. -/
theorem EventChannel.Live.readable_kindChildren (horb : orb.Lawful) (hc : c.Live orb)
    (hprint : c.Printable) (hn : (replay (c.log orb)).find [ecf, c.name] = some n)
    (kind : ProxyKind) : ∀ e ∈ kindChildren n kind, Readable orb e.2 := by
  rintro ⟨oid, m⟩ he
  obtain ⟨v, hv, -, -, hattrs⟩ :=
    (hc.mem_kindChildren_iff horb hprint hn kind oid m.attrs).1 ⟨m, he, rfl⟩
  exact hc.readable horb hv hattrs.symm

theorem EventChannel.Live.connected_of_ior (hc : c.Live orb) {v : ProxyView Ref}
    (hv : v ∈ c.views orb) (hior : v.ior ≠ []) : v.connected = true := by
  rcases hc.ior_cases hv with ⟨hconn, -⟩ | hnil
  · exact hconn
  · exact absurd hnil hior

/-- If all connected proxies have an IOR and are reconnected calmly, the start goes through. -/
theorem EventChannel.Live.decodeAll_isSome (horb : orb.Lawful) (hc : c.Live orb)
    (hprint : c.Printable) (hn : (replay (c.log orb)).find [ecf, c.name] = some n)
    (hcalm : ∀ v ∈ c.views orb, v.connected = true →
      Calm env c.name v.kind v.oid v.targetIsProxy) :
    ∃ views, decodeAll orb env c.name n = some views := by
  refine OmniEvents.decodeAll_isSome ?_
  intro kind
  rintro ⟨oid, m⟩ he
  obtain ⟨v, hv, rfl, rfl, hattrs⟩ :=
    (hc.mem_kindChildren_iff horb hprint hn kind oid m.attrs).1 ⟨m, he, rfl⟩
  by_cases hior : v.ior = []
  · refine ⟨_, decode_badParam ?_⟩
    rw [attrString_of_attrs hattrs.symm, hior, horb.string_to_nil]
  · refine decode_ok_of_calm (hc.readable horb hv hattrs.symm) ?_
    rw [(c.recorded hv).flagOf_eq hattrs.symm]
    exact hcalm v hv (hc.connected_of_ior hv hior)

/-- The peers of the proxies that come back are those of the connected proxies, if all of these have
    an IOR and are reconnected calmly. -/
theorem EventChannel.Live.perm_peers (horb : orb.Lawful) (hc : c.Live orb)
    (hprint : c.Printable) (hn : (replay (c.log orb)).find [ecf, c.name] = some n)
    (hsorted : n.Sorted) {views : List (ProxyView Ref)}
    (hviews : decodeAll orb env c.name n = some views)
    (hior : ∀ v ∈ c.views orb, v.connected = true → v.ior ≠ [])
    (hcalm : ∀ v ∈ c.views orb, v.connected = true →
      Calm env c.name v.kind v.oid v.targetIsProxy) :
    (views.map (·.peer)).Perm (((c.views orb).filter (·.connected)).map (·.peer)) := by
  have hpeers : ∀ vs : List (ProxyView Ref), (vs.map (fun v => (v.kind, v.oid))).Nodup →
      (vs.map (·.peer)).Nodup := by
    intro vs hvs
    exact (List.pairwise_map.1 hvs).map _ (fun v w hne heq => hne (by
      simp only [ProxyView.peer, Prod.mk.injEq] at heq
      rw [heq.1, heq.2.1]))
  have hsub : ((c.views orb).filter (·.connected)).Sublist (c.views orb) := List.filter_sublist
  refine (List.perm_ext_iff_of_nodup (hpeers _ (nodup_of_decodeAll hsorted
    (hc.readable_kindChildren horb hprint hn) hviews))
    (hpeers _ (hc.keys.sublist (hsub.map _)))).2 ?_
  intro peer
  simp only [List.mem_map, List.mem_filter, hc.mem_decodeAll_iff horb hprint hn hviews]
  constructor
  · rintro ⟨w, ⟨v, hv, hne, -, r, htarget, rfl⟩, rfl⟩
    have hconn := hc.connected_of_ior hv hne
    exact ⟨v, ⟨hv, hconn⟩, by simp [ProxyView.peer, reborn, htarget, hconn]⟩
  · rintro ⟨v, ⟨hv, hconn⟩, rfl⟩
    have hne := hior v hv hconn
    rcases hc.ior_cases hv with ⟨-, r, htarget, -⟩ | hnil
    · exact ⟨_, ⟨v, hv, hne, hcalm v hv hconn, r, htarget, rfl⟩,
        by simp [ProxyView.peer, reborn, htarget, hconn]⟩
    · exact absurd hnil hne

/-- A proxy whose peer comes back has an IOR and is reconnected calmly. -/
theorem EventChannel.Live.of_mem_peers (horb : orb.Lawful) (hc : c.Live orb)
    (hprint : c.Printable) (hn : (replay (c.log orb)).find [ecf, c.name] = some n)
    {views : List (ProxyView Ref)} (hviews : decodeAll orb env c.name n = some views)
    {v : ProxyView Ref} (hv : v ∈ c.views orb) (hmem : v.peer ∈ views.map (·.peer)) :
    v.ior ≠ [] ∧ Calm env c.name v.kind v.oid v.targetIsProxy := by
  obtain ⟨w, hw, hpeer⟩ := List.mem_map.1 hmem
  obtain ⟨u, hu, hior, hcalm, r, -, rfl⟩ := (hc.mem_decodeAll_iff horb hprint hn hviews w).1 hw
  simp only [ProxyView.peer, reborn, Prod.mk.injEq] at hpeer
  obtain rfl := hc.keys.eq hu hv hpeer.1 hpeer.2.1
  exact ⟨hior, hcalm⟩

/-- A channel whose name can stand in a log comes back exactly if all its connections do. -/
theorem EventChannel.Live.restores_iff (horb : orb.Lawful) (hc : c.Live orb)
    (hprint : c.Printable) :
    RestoresConnections orb env c ↔
      (∀ v ∈ c.views orb, v.connected = true → v.ior ≠ []) ∧
        ∀ v ∈ c.views orb, v.connected = true →
          Calm env c.name v.kind v.oid v.targetIsProxy := by
  obtain ⟨n, hn, hattrs, hrestart⟩ := hc.restart_eq horb hprint env
  have hsorted : n.Sorted := (LogRecord.sorted_replay _).find hn
  have hroom := hc.room_kindChildren horb hprint hn hsorted
  rw [← hattrs] at hroom
  have hactivate := toOption_activate orb env c.name hsorted hroom
  constructor
  · rintro ⟨c', hc', hperm⟩
    rw [hrestart] at hc'
    rw [hc'] at hactivate
    obtain ⟨views, hviews, heq⟩ := Option.map_eq_some_iff.1 hactivate.symm
    simp only [Prod.mk.injEq] at heq
    obtain ⟨-, -, rfl⟩ := heq
    have hback : ∀ v ∈ c.views orb, v.connected = true →
        v.ior ≠ [] ∧ Calm env c.name v.kind v.oid v.targetIsProxy := fun v hv hconn =>
      hc.of_mem_peers horb hprint hn hviews hv
        (hperm.mem_iff.2 (List.mem_map_of_mem (List.mem_filter.2 ⟨hv, hconn⟩)))
    exact ⟨fun v hv hconn => (hback v hv hconn).1, fun v hv hconn => (hback v hv hconn).2⟩
  · rintro ⟨hior, hcalm⟩
    obtain ⟨views, hviews⟩ := hc.decodeAll_isSome horb hprint hn hcalm
    rw [hviews, Option.map_some] at hactivate
    obtain ⟨c', hc', heq⟩ := Option.map_eq_some_iff.1 hactivate
    simp only [Prod.mk.injEq] at heq
    obtain ⟨-, -, rfl⟩ := heq
    refine ⟨c', ?_, hc.perm_peers horb hprint hn hsorted hviews hior hcalm⟩
    rw [hrestart]
    revert hc'
    cases EventChannel.activate orb env c.name (some n) with
    | ok c'' => simp [Except.toOption]
    | error ex => simp [Except.toOption]

/-- A name that cannot stand in a log is not found again, and a channel without a node starts
    empty. -/
theorem EventChannel.Live.restores_iff_of_unclean (hc : c.Live orb) (hname : ¬CleanName c.name) :
    RestoresConnections orb env c ↔ ∀ v ∈ c.views orb, v.connected = false := by
  have hnone : ∀ text, ((PersistNode.parse text).child ecf).bind (·.child c.name) = none := by
    intro text
    by_contra hsome
    obtain ⟨n, hn⟩ := Option.ne_none_iff_exists'.1 hsome
    have hattrs : (PersistNode.parse text).attrsAt [ecf, c.name] = some n.attrs := by
      simp [PersistNode.attrsAt, PersistNode.find, hn]
    exact hname ((PersistNode.cleanTree_parse text _ _ hattrs).1 _ (by simp))
  have hempty : ∀ c', EventChannel.activate orb env c.name none = .ok c' → c'.views orb = [] := by
    intro c' hc'
    cases hc'
    rfl
  rw [RestoresConnections, restartChannel,
    EventChannel.output_of_active hc.active (fun e he => (hc.connections e he).1)]
  simp only [hnone]
  constructor
  · rintro ⟨c', hc', hperm⟩ v hv
    rw [hempty c' hc'] at hperm
    have hfilter : (c.views orb).filter (·.connected) = [] := by simpa using hperm.symm
    simpa using List.filter_eq_nil_iff.1 hfilter v hv
  · intro hconn
    have hfilter : (c.views orb).filter (·.connected) = [] :=
      List.filter_eq_nil_iff.2 (fun v hv => by simp [hconn v hv])
    exact ⟨_, rfl, by rw [hfilter]; exact List.Perm.refl _⟩

/-- **Restart restores the connections** of a live channel exactly if the channel is restorable. -/
theorem restart_restores_iff (horb : orb.Lawful) (hc : c.Live orb)
    (hproperties : ∀ kv ∈ c.properties, CleanAttr kv) :
    RestoresConnections orb env c ↔ c.Restorable orb env := by
  by_cases hname : CleanName c.name
  · rw [hc.restores_iff horb ⟨hname, hproperties⟩, hc.ior_ne_nil_iff horb]
    constructor
    · rintro ⟨⟨hpull, hpush⟩, hcalm⟩
      exact ⟨Or.inl hname, hpull, hpush, hcalm⟩
    · intro h
      exact ⟨⟨h.pullSupplier, h.pushSupplier⟩, h.reconnect⟩
  · rw [hc.restores_iff_of_unclean hname]
    constructor
    · intro hconn
      have hior : ∀ v ∈ c.views orb, v.connected = true → v.ior ≠ [] :=
        fun v hv h => by simp [hconn v hv] at h
      obtain ⟨hpull, hpush⟩ := (hc.ior_ne_nil_iff horb).1 hior
      exact ⟨Or.inr hconn, hpull, hpush, fun v hv h => by simp [hconn v hv] at h⟩
    · exact fun h => h.name.resolve_left hname

end Restores

/-! ## Two channels -/

/-- Strings of object references. -/
abbrev Word : Type := { s : Str // s ≠ [] ∧ ∀ c ∈ s, isSpace c = false }

theorem word_I : (['I'] : Str) ≠ [] ∧ ∀ c ∈ ['I'], isSpace c = false := by decide

/-- An ORB whose references are their own strings. -/
def wordOrb : Orb Word :=
  { object_to_string := Subtype.val
    string_to_object := fun s =>
      if h : s ≠ [] ∧ ∀ c ∈ s, isSpace c = false then .ok (some ⟨s, h⟩) else .error .BAD_PARAM }

theorem wordOrb_lawful : wordOrb.Lawful where
  string_to_object_to_string r := by simp only [wordOrb, dif_pos r.2]
  empty := by simp [wordOrb]
  noSpace r := r.2.2

/-- A channel with one pull supplier, which is connected to the consumer `target`. -/
def pullSupplierChannel (target : Option Word) : EventChannel Word :=
  { name := ['a'], properties := [], connections := [], pullConsumer := none, pushSupplier := none
    pullSupplier := some [{ oid := newUniqueId 1 2 3, active := true, req := none, target
                            connected := true, timestamp := 0 }] }

theorem live_pullSupplierChannel (target : Option Word) :
    (pullSupplierChannel target).Live wordOrb where
  active := by simp [pullSupplierChannel, EventChannel.views, ProxyPullSupplier.view]
  keys := List.nodup_singleton _
  oids v hv := by
    rw [List.mem_singleton.1 hv]
    exact ⟨1, 2, 3, rfl⟩
  properties := OrdMap.Sorted.nil
  connections := by simp [pullSupplierChannel]
  pushSupplier := by simp [pullSupplierChannel]
  pullSupplier := by simp [pullSupplierChannel]
  room := (by decide : 1 ≤ maxNumProxies [])

theorem cleanName_a : CleanName ['a'] := by
  show ∀ c ∈ ['a'], c ≠ '/' ∧ isSpace c = false
  decide

/-- A pull supplier that is connected to the nil consumer does not come back. -/
theorem restart_loses_nil_consumer :
    (pullSupplierChannel none).Live wordOrb ∧ (pullSupplierChannel none).Printable ∧
      ¬RestoresConnections wordOrb Env.quiet (pullSupplierChannel none) := by
  have hprint : (pullSupplierChannel none).Printable := ⟨cleanName_a, by simp [pullSupplierChannel]⟩
  refine ⟨live_pullSupplierChannel none, hprint, ?_⟩
  intro h
  have hior := (((live_pullSupplierChannel none).restores_iff wordOrb_lawful hprint).1 h).1
  refine hior _ (List.mem_singleton_self _) rfl ?_
  rfl

/-- A pull supplier that is connected to a consumer does. -/
theorem restart_restores_consumer :
    RestoresConnections wordOrb Env.quiet
      (pullSupplierChannel (some ⟨['I'], by decide⟩)) := by
  refine (restart_restores_iff wordOrb_lawful (live_pullSupplierChannel _)
    (by simp [pullSupplierChannel])).2 ⟨Or.inl cleanName_a, ?_, ?_, ?_⟩
  · simp [pullSupplierChannel]
  · simp [pullSupplierChannel]
  · simp [Calm, Env.quiet]

end OmniEvents
