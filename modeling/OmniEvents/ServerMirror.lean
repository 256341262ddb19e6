import OmniEvents.CreateChannel
import OmniEvents.ServerCalls

set_option autoImplicit false

/-! # A log that mirrors a server

What a tree that has been read from a log says of the factory, its channels and their proxies
(`Mirrors`), and how it keeps up with them: the records of calls, of new channels and of channels
that have gone, and a checkpoint. -/

namespace OmniEvents

open LogRecord (Clean CleanName replay attrMap ecf)
open EventChannelFactory (keyPort keyEndPoint)

variable {Ref : Type}

/-! ## The log mirrors the server

Each record changes what is mirrored by one proxy or one channel. From the log of a checkpoint on,
the map of the log is that of the factory. -/

namespace EventChannelFactory

variable (f : EventChannelFactory Ref)

/-- The channel with the name of `c` has become `c`. -/
def setChannel (c : EventChannel Ref) : EventChannelFactory Ref :=
  { f with channels := f.channels.map fun d => if d.name = c.name then c else d }

/-- The factory has a channel of this name, with these properties. -/
def HasChannel (channelName : Str) (properties : List (Str × Str)) : Prop :=
  ∃ c ∈ f.channels, c.name = channelName ∧ c.properties = properties

/-- A channel of the factory has a proxy that looks like this. -/
def HasView (orb : Orb Ref) (channelName : Str) (v : ProxyView Ref) : Prop :=
  ∃ c ∈ f.channels, c.name = channelName ∧ v ∈ c.views orb

/-- The tree has the factory, its channels, no records but those of its proxies, and the records of
    all of them that know an IOR. -/
structure Mirrors (orb : Orb Ref) (root : PersistNode) : Prop where
  factory : ∃ a, root.attrsAt [ecf] = some a ∧ a.lookup keyPort = some (Nat.toDigits 10 f.port) ∧
    (a.lookup keyEndPoint).getD [] = f.endPointNoListen
  channels : ∀ channelName a, root.attrsAt [ecf, channelName] = some a ↔ f.HasChannel channelName a
  record : ∀ channelName kind oid a, root.attrsAt (keyPath channelName kind oid) = some a →
    ∃ v, f.HasView orb channelName v ∧ v.key = (kind, oid) ∧ v.attrs = a
  stored : ∀ channelName v, f.HasView orb channelName v → v.ior ≠ [] →
    root.attrsAt (keyPath channelName v.kind v.oid) = some v.attrs

end EventChannelFactory

section Records

variable {r : LogRecord} {root : PersistNode} {channelName name oid : Str} {kind : ProxyKind}

/-- The record of a proxy leaves the channels as they are. -/
theorem attrsAt_apply_channel (hr : r.Clean) (hpath : r.path = keyPath channelName kind oid)
    (hchannel : (root.attrsAt [ecf, channelName]).isSome = true) (name : Str) :
    (LogRecord.apply root r).attrsAt [ecf, name] = root.attrsAt [ecf, name] := by
  rw [LogRecord.attrsAt_apply hr]
  cases hname : root.attrsAt [ecf, name] with
  | some a =>
      refine LogRecord.update_of_not_prefix ?_ hname
      intro hinitial
      have := hinitial.length_le
      rw [hpath, length_keyPath] at this
      simp at this
  | none =>
      refine LogRecord.update_none ?_ hname
      rw [hpath]
      intro hinitial
      rw [keyPath, List.cons_prefix_cons, List.cons_prefix_cons] at hinitial
      rw [← hinitial.2.1, hname] at hchannel
      cases hchannel

theorem attrsAt_apply_keyPath (hr : r.Clean) {path : List Str} {kind' : ProxyKind} {oid' : Str}
    (hpath : r.path = path) (h₁ : ¬ path <+: keyPath name kind' oid')
    (h₂ : ¬ keyPath name kind' oid' <+: path) :
    (LogRecord.apply root r).attrsAt (keyPath name kind' oid')
      = root.attrsAt (keyPath name kind' oid') := by
  subst hpath
  rw [LogRecord.attrsAt_apply hr, LogRecord.update_of_apart h₁ h₂]

theorem attrsAt_apply_factory (hr : r.Clean) (hpath : ¬ r.path <+: [ecf]) {a : List (Str × Str)}
    (ha : root.attrsAt [ecf] = some a) : (LogRecord.apply root r).attrsAt [ecf] = some a := by
  rw [LogRecord.attrsAt_apply hr]
  exact LogRecord.update_of_not_prefix hpath ha

theorem keyPath_ne {name' oid' : Str} {kind' : ProxyKind}
    (h : ¬ (name' = name ∧ (kind', oid') = (kind, oid))) :
    ¬ keyPath name kind oid <+: keyPath name' kind' oid' ∧
      ¬ keyPath name' kind' oid' <+: keyPath name kind oid := by
  have hne : keyPath name kind oid ≠ keyPath name' kind' oid' := by
    intro heq
    obtain ⟨hname, hkind, hoid⟩ := keyPath_inj.1 heq
    exact h ⟨hname.symm, by rw [hkind, hoid]⟩
  exact ⟨fun hinitial => hne (hinitial.eq_of_length rfl),
    fun hinitial => hne (hinitial.eq_of_length rfl).symm⟩

theorem keyPath_not_factory : ¬ keyPath channelName kind oid <+: [ecf] := by
  intro hinitial
  simpa [length_keyPath] using hinitial.length_le

end Records

namespace EventChannelFactory

section Views

variable {orb : Orb Ref} {f : EventChannelFactory Ref} {c c' : EventChannel Ref}

theorem mem_setChannel (hc : c ∈ f.channels) (hname : c'.name = c.name) {d : EventChannel Ref} :
    d ∈ (f.setChannel c').channels ↔ d ∈ f.channels ∧ d.name ≠ c.name ∨ d = c' := by
  simp only [setChannel, List.mem_map, hname]
  constructor
  · rintro ⟨e, he, rfl⟩
    split
    · exact Or.inr rfl
    · next hne => exact Or.inl ⟨he, hne⟩
  · rintro (⟨hd, hne⟩ | rfl)
    · exact ⟨d, hd, if_neg hne⟩
    · exact ⟨c, hc, if_pos rfl⟩

theorem names_setChannel (f : EventChannelFactory Ref) (c : EventChannel Ref) :
    (f.setChannel c).channels.map (·.name) = f.channels.map (·.name) := by
  rw [setChannel, List.map_map]
  refine List.map_congr_left ?_
  intro d _
  simp only [Function.comp_apply]
  split
  · next h => exact h.symm
  · rfl

theorem hasChannel_setChannel (hc : c ∈ f.channels) (hnames : (f.channels.map (·.name)).Nodup)
    (hname : c'.name = c.name) (hproperties : c'.properties = c.properties) (channelName : Str)
    (a : List (Str × Str)) :
    (f.setChannel c').HasChannel channelName a ↔ f.HasChannel channelName a := by
  simp only [HasChannel, mem_setChannel hc hname]
  constructor
  · rintro ⟨d, ⟨hd, -⟩ | rfl, hdname, hd'⟩
    · exact ⟨d, hd, hdname, hd'⟩
    · exact ⟨c, hc, hname.symm.trans hdname, hproperties.symm.trans hd'⟩
  · rintro ⟨d, hd, rfl, rfl⟩
    by_cases hdc : d.name = c.name
    · obtain rfl := List.inj_on_of_nodup_map hnames hd hc hdc
      exact ⟨c', Or.inr rfl, hname, hproperties⟩
    · exact ⟨d, Or.inl ⟨hd, hdc⟩, rfl, rfl⟩

theorem hasView_iff (hc : c ∈ f.channels) (hnames : (f.channels.map (·.name)).Nodup)
    {v : ProxyView Ref} : f.HasView orb c.name v ↔ v ∈ c.views orb := by
  constructor
  · rintro ⟨d, hd, hname, hv⟩
    rwa [List.inj_on_of_nodup_map hnames hd hc hname] at hv
  · exact fun hv => ⟨c, hc, rfl, hv⟩

theorem hasView_setChannel (hc : c ∈ f.channels) (hname : c'.name = c.name) {channelName : Str}
    {v : ProxyView Ref} :
    (f.setChannel c').HasView orb channelName v ↔
      f.HasView orb channelName v ∧ channelName ≠ c.name ∨
        channelName = c.name ∧ v ∈ c'.views orb := by
  simp only [HasView, mem_setChannel hc hname]
  constructor
  · rintro ⟨d, ⟨hd, hne⟩ | rfl, rfl, hv⟩
    · exact Or.inl ⟨⟨d, hd, rfl, hv⟩, hne⟩
    · exact Or.inr ⟨hname, hv⟩
  · rintro (⟨⟨d, hd, rfl, hv⟩, hne⟩ | ⟨rfl, hv⟩)
    · exact ⟨d, Or.inl ⟨hd, hne⟩, rfl, hv⟩
    · exact ⟨c', Or.inr rfl, hname, hv⟩

theorem hasView_setChannel_self (hc : c ∈ f.channels) (hname : c'.name = c.name)
    {v : ProxyView Ref} : (f.setChannel c').HasView orb c.name v ↔ v ∈ c'.views orb := by
  rw [hasView_setChannel hc hname]
  simp

/-- What the new channel has kept is there as before, and the other channels are. -/
theorem HasView.setChannel (P : ProxyView Ref → Prop) (hc : c ∈ f.channels)
    (hnames : (f.channels.map (·.name)).Nodup) (hname : c'.name = c.name)
    (hP : ∀ w, P w → w ∈ c.views orb → w ∈ c'.views orb) {channelName : Str} {v : ProxyView Ref}
    (hv : channelName = c.name → P v) (h : f.HasView orb channelName v) :
    (f.setChannel c').HasView orb channelName v := by
  by_cases hsame : channelName = c.name
  · subst hsame
    exact (hasView_setChannel_self hc hname).2 (hP v (hv rfl) ((hasView_iff hc hnames).1 h))
  · exact (hasView_setChannel hc hname).2 (Or.inl ⟨h, hsame⟩)

theorem HasView.of_setChannel (P : ProxyView Ref → Prop) (hc : c ∈ f.channels)
    (hnames : (f.channels.map (·.name)).Nodup) (hname : c'.name = c.name)
    (hP : ∀ w, P w → w ∈ c'.views orb → w ∈ c.views orb) {channelName : Str} {v : ProxyView Ref}
    (hv : channelName = c.name → P v) (h : (f.setChannel c').HasView orb channelName v) :
    f.HasView orb channelName v := by
  rcases (hasView_setChannel hc hname).1 h with ⟨hold, -⟩ | ⟨rfl, hmem⟩
  · exact hold
  · exact (hasView_iff hc hnames).2 (hP v (hv rfl) hmem)

end Views

/-- The same factory, with the same channels. -/
structure SameChannels (f f' : EventChannelFactory Ref) : Prop where
  port : f'.port = f.port
  endPointNoListen : f'.endPointNoListen = f.endPointNoListen
  channels : ∀ channelName a, f'.HasChannel channelName a ↔ f.HasChannel channelName a

namespace Mirrors

section Change

variable {orb : Orb Ref} {f f' : EventChannelFactory Ref} {root : PersistNode} {channelName : Str}
  {v : ProxyView Ref}

/-- Proxies come that have no IOR, the others stay. -/
theorem of_views (h : f.Mirrors orb root) (hsame : SameChannels f f')
    (hmore : ∀ name w, f.HasView orb name w → f'.HasView orb name w)
    (hior : ∀ name w, f'.HasView orb name w → w.ior ≠ [] → f.HasView orb name w) :
    f'.Mirrors orb root where
  factory := by
    rw [hsame.port, hsame.endPointNoListen]
    exact h.factory
  channels name a := (h.channels name a).trans (hsame.channels name a).symm
  record name kind oid a ha := by
    obtain ⟨w, hw, hkey, hattrs⟩ := h.record name kind oid a ha
    exact ⟨w, hmore name w hw, hkey, hattrs⟩
  stored name w hw hne := h.stored name w (hior name w hw hne) hne

/-- What a record of a proxy does not touch. -/
theorem of_record (h : f.Mirrors orb root) (hsame : SameChannels f f') {r : LogRecord}
    {kind : ProxyKind} {oid : Str} (hr : r.Clean) (hpath : r.path = keyPath channelName kind oid)
    (hchannel : ∃ a, f.HasChannel channelName a)
    (hmore : ∀ name w, ¬ (name = channelName ∧ w.key = (kind, oid)) →
      f.HasView orb name w → f'.HasView orb name w)
    (hior : ∀ name w, ¬ (name = channelName ∧ w.key = (kind, oid)) →
      f'.HasView orb name w → w.ior ≠ [] → f.HasView orb name w)
    (hrecord : ∀ a, (LogRecord.apply root r).attrsAt (keyPath channelName kind oid) = some a →
      ∃ w, f'.HasView orb channelName w ∧ w.key = (kind, oid) ∧ w.attrs = a)
    (hstored : ∀ w, f'.HasView orb channelName w → w.key = (kind, oid) → w.ior ≠ [] →
      (LogRecord.apply root r).attrsAt (keyPath channelName kind oid) = some w.attrs) :
    f'.Mirrors orb (LogRecord.apply root r) where
  factory := by
    obtain ⟨a, ha, hport, hendPoint⟩ := h.factory
    refine ⟨a, attrsAt_apply_factory hr (hpath ▸ keyPath_not_factory) ha, ?_, ?_⟩
    · rw [hsame.port, hport]
    · rw [hsame.endPointNoListen, hendPoint]
  channels name a := by
    obtain ⟨b, hb⟩ := hchannel
    have hsome : (root.attrsAt [ecf, channelName]).isSome = true := by
      rw [(h.channels channelName b).2 hb]
      rfl
    rw [attrsAt_apply_channel hr hpath hsome, h.channels, hsame.channels]
  record name kind' oid' a ha := by
    by_cases hkey : name = channelName ∧ (kind', oid') = (kind, oid)
    · obtain ⟨rfl, hkey⟩ := hkey
      cases hkey
      exact hrecord a ha
    · rw [attrsAt_apply_keyPath hr hpath (keyPath_ne hkey).1 (keyPath_ne hkey).2] at ha
      obtain ⟨w, hw, hwkey, hattrs⟩ := h.record name kind' oid' a ha
      exact ⟨w, hmore name w (hwkey ▸ hkey) hw, hwkey, hattrs⟩
  stored name w hw hne := by
    by_cases hkey : name = channelName ∧ w.key = (kind, oid)
    · obtain ⟨rfl, hkey⟩ := hkey
      have hstored := hstored w hw hkey hne
      cases hkey
      exact hstored
    · rw [attrsAt_apply_keyPath hr hpath (keyPath_ne hkey).1 (keyPath_ne hkey).2]
      exact h.stored name w (hior name w hkey hw hne) hne

theorem of_erase (h : f.Mirrors orb root) (hsame : SameChannels f f') {kind : ProxyKind} {oid : Str}
    (hr : (LogRecord.erase (keyPath channelName kind oid)).Clean)
    (hchannel : ∃ a, f.HasChannel channelName a)
    (hmore : ∀ name w, ¬ (name = channelName ∧ w.key = (kind, oid)) →
      f.HasView orb name w → f'.HasView orb name w)
    (hior : ∀ name w, ¬ (name = channelName ∧ w.key = (kind, oid)) →
      f'.HasView orb name w → w.ior ≠ [] → f.HasView orb name w)
    (hgone : ∀ w, f'.HasView orb channelName w → w.key = (kind, oid) → w.ior = []) :
    f'.Mirrors orb (LogRecord.apply root (.erase (keyPath channelName kind oid))) := by
  have hnone : (LogRecord.apply root (.erase (keyPath channelName kind oid))).attrsAt
      (keyPath channelName kind oid) = none := by
    rw [LogRecord.attrsAt_apply hr]
    exact PathMap.remove_below (List.prefix_refl _)
  refine h.of_record hsame hr rfl hchannel hmore hior ?_ ?_
  · intro a ha
    rw [hnone] at ha
    cases ha
  · exact fun w hw hkey hne => absurd (hgone w hw hkey) hne

/-- A proxy has come, or is another than before, and has written its record. -/
theorem of_rewrite (h : f.Mirrors orb root) {c c' : EventChannel Ref}
    (hsame : SameChannels f (f.setChannel c')) (hnames : (f.channels.map (·.name)).Nodup)
    (hc : c ∈ f.channels) (hname : c'.name = c.name) (hr : (v.record c.name).Clean)
    (hviews : ∀ w, w ∈ c'.views orb ↔ w ∈ c.views orb ∧ w.key ≠ v.key ∨ w = v) :
    (f.setChannel c').Mirrors orb (LogRecord.apply root (v.record c.name)) := by
  have hv : v ∈ c'.views orb := (hviews v).2 (Or.inr rfl)
  have hself : (LogRecord.apply root (v.record c.name)).attrsAt (keyPath c.name v.kind v.oid)
      = some v.attrs := by
    rw [LogRecord.attrsAt_apply hr, ← LogRecord.attrMap_of_sorted (c'.recorded hv).sorted]
    exact PathMap.set_self
  refine h.of_record hsame hr rfl ⟨_, c, hc, rfl, rfl⟩ ?_ ?_ ?_ ?_
  · intro name w hkey
    refine HasView.setChannel (fun w => w.key ≠ v.key) hc hnames hname ?_
      fun hname heq => hkey ⟨hname, heq⟩
    exact fun w hne hw => (hviews w).2 (Or.inl ⟨hw, hne⟩)
  · intro name w hkey hw _
    refine HasView.of_setChannel (fun w => w.key ≠ v.key) hc hnames hname ?_
      (fun hname heq => hkey ⟨hname, heq⟩) hw
    intro w hne hw
    exact (((hviews w).1 hw).resolve_right fun heq => hne (heq ▸ rfl)).1
  · intro a ha
    rw [hself] at ha
    exact ⟨v, (hasView_setChannel_self hc hname).2 hv, rfl, Option.some_inj.1 ha⟩
  · intro w hw hkey _
    obtain rfl := ((hviews w).1 ((hasView_setChannel_self hc hname).1 hw)).resolve_left
      fun hne => hne.2 hkey
    exact hself

theorem change (horb : orb.Lawful) (h : f.Mirrors orb root)
    (hnames : (f.channels.map (·.name)).Nodup) {c c' : EventChannel Ref} (hc : c ∈ f.channels)
    (hsound : c.Sound orb) (hprint : c.Printable) {records : List LogRecord}
    {ended made : Option (ProxyKind × Str)}
    (hcall : EventChannel.Called orb c c' records ended made) :
    (f.setChannel c').Mirrors orb (records.foldl LogRecord.apply root) := by
  have hname := hcall.name
  have hclean := hcall.clean horb hsound hprint
  have hsame : SameChannels f (f.setChannel c') :=
    ⟨rfl, rfl, hasChannel_setChannel hc hnames hname hcall.properties⟩
  have hchannel : ∃ a, f.HasChannel c.name a := ⟨_, c, hc, rfl, rfl⟩
  cases hcall.change with
  | same _ hviews =>
      refine h.of_views hsame ?_ ?_
      · exact fun name w => HasView.setChannel (fun _ => True) hc hnames hname
          (fun w _ => (hviews w).2) fun _ => trivial
      · exact fun name w hw _ => HasView.of_setChannel (fun _ => True) hc hnames hname
          (fun w _ => (hviews w).1) (fun _ => trivial) hw
  | add v hior _ hviews =>
      refine h.of_views hsame ?_ ?_
      · exact fun name w => HasView.setChannel (fun _ => True) hc hnames hname
          (fun w _ hw => (hviews w).2 (Or.inl hw)) fun _ => trivial
      · intro name w hw hne
        refine HasView.of_setChannel (fun w => w.ior ≠ []) hc hnames hname ?_ (fun _ => hne) hw
        intro w hne hw
        exact ((hviews w).1 hw).resolve_right fun heq => hne (heq ▸ hior)
  | connect v _ hviews =>
      exact h.of_rewrite hsame hnames hc hname (hclean _ (List.mem_singleton.2 rfl)) hviews
  | rewrite v _ _ hviews =>
      exact h.of_rewrite hsame hnames hc hname (hclean _ (List.mem_singleton.2 rfl)) hviews
  | erase kind oid _ hviews =>
      refine h.of_erase hsame (hclean _ (List.mem_singleton.2 rfl)) hchannel ?_ ?_ ?_
      · exact fun name w hkey => HasView.setChannel (fun w => w.key ≠ (kind, oid)) hc hnames hname
          (fun w hne hw => (hviews w).2 ⟨hw, hne⟩) fun hname heq => hkey ⟨hname, heq⟩
      · exact fun name w _ hw _ => HasView.of_setChannel (fun _ => True) hc hnames hname
          (fun w _ hw => ((hviews w).1 hw).1) (fun _ => trivial) hw
      · intro w hw hkey
        exact absurd hkey ((hviews w).1 ((hasView_setChannel_self hc hname).1 hw)).2
  | evict kind oid v _ hior _ hviews =>
      refine h.of_erase hsame (hclean _ (List.mem_singleton.2 rfl)) hchannel ?_ ?_ ?_
      · exact fun name w hkey => HasView.setChannel (fun w => w.key ≠ (kind, oid)) hc hnames hname
          (fun w hne hw => (hviews w).2 (Or.inl ⟨hw, hne⟩)) fun hname heq => hkey ⟨hname, heq⟩
      · intro name w _ hw hne
        refine HasView.of_setChannel (fun w => w.ior ≠ []) hc hnames hname ?_ (fun _ => hne) hw
        intro w hne hw
        exact (((hviews w).1 hw).resolve_right fun heq => hne (heq ▸ hior)).1
      · intro w hw hkey
        rcases (hviews w).1 ((hasView_setChannel_self hc hname).1 hw) with ⟨-, hne⟩ | rfl
        · exact absurd hkey hne
        · exact hior

end Change

section Channels

variable {orb : Orb Ref} {f : EventChannelFactory Ref} {root : PersistNode} {c : EventChannel Ref}

/-- A path at or below another channel. -/
theorem apart_channel {name : Str} (hname : name ≠ c.name) (rest : List Str) :
    ¬ [ecf, c.name] <+: ecf :: name :: rest ∧ ¬ ecf :: name :: rest <+: [ecf, c.name] := by
  constructor
  · intro hinitial
    rw [List.cons_prefix_cons, List.cons_prefix_cons] at hinitial
    exact hname hinitial.2.1.symm
  · intro hinitial
    rw [List.cons_prefix_cons, List.cons_prefix_cons] at hinitial
    exact hname hinitial.2.1

/-- A record at the node of a channel, which changes nothing elsewhere. -/
theorem of_channel {f' : EventChannelFactory Ref} (h : f.Mirrors orb root)
    (hport : f'.port = f.port) (hendPoint : f'.endPointNoListen = f.endPointNoListen)
    {r : LogRecord} (hr : r.Clean)
    (hpath : r.path = [ecf, c.name])
    (hchannel : ∀ a, (LogRecord.apply root r).attrsAt [ecf, c.name] = some a ↔
      f'.HasChannel c.name a)
    (hbelow : ∀ kind oid, (LogRecord.apply root r).attrsAt (keyPath c.name kind oid) = none)
    (hviews : ∀ v, ¬ f'.HasView orb c.name v)
    (hsame : ∀ name, name ≠ c.name → (∀ a, f'.HasChannel name a ↔ f.HasChannel name a) ∧
      ∀ v, f'.HasView orb name v ↔ f.HasView orb name v) :
    f'.Mirrors orb (LogRecord.apply root r) where
  factory := by
    obtain ⟨a, ha, hattrs⟩ := h.factory
    refine ⟨a, attrsAt_apply_factory hr ?_ ha, hport ▸ hendPoint ▸ hattrs⟩
    rw [hpath]
    intro hinitial
    simpa using hinitial.length_le
  channels name a := by
    by_cases hname : name = c.name
    · rw [hname]
      exact hchannel a
    · rw [LogRecord.attrsAt_apply hr, LogRecord.update_of_apart (hpath ▸ (apart_channel hname []).1)
        (hpath ▸ (apart_channel hname []).2), (hsame name hname).1, h.channels]
  record name kind oid a ha := by
    by_cases hname : name = c.name
    · rw [hname, hbelow] at ha
      cases ha
    · rw [attrsAt_apply_keyPath hr hpath (apart_channel hname _).1 (apart_channel hname _).2] at ha
      obtain ⟨v, hv, hkey, hattrs⟩ := h.record name kind oid a ha
      exact ⟨v, ((hsame name hname).2 v).2 hv, hkey, hattrs⟩
  stored name v hv hne := by
    by_cases hname : name = c.name
    · exact absurd (hname ▸ hv) (hviews v)
    · rw [attrsAt_apply_keyPath hr hpath (apart_channel hname _).1 (apart_channel hname _).2]
      exact h.stored name v (((hsame name hname).2 v).1 hv) hne

theorem below_channel (kind : ProxyKind) (oid : Str) :
    [ecf, c.name] <+: keyPath c.name kind oid ∧ keyPath c.name kind oid ≠ [ecf, c.name] :=
  ⟨⟨_, rfl⟩, by simp [keyPath]⟩

/-- A channel that is new, and has no proxies yet. -/
theorem create (h : f.Mirrors orb root) (hc : Created c) (hprint : c.Printable)
    (hfresh : c.name ∉ f.channels.map (·.name)) :
    ({ f with channels := f.channels ++ [c] } : EventChannelFactory Ref).Mirrors orb
      (LogRecord.apply root (.block [ecf, c.name] c.properties)) := by
  have hr : (LogRecord.block [ecf, c.name] c.properties).Clean :=
    ⟨⟨rfl, by simpa using ⟨cleanName_ecf, hprint.name⟩⟩, hprint.properties⟩
  have hviews : c.views orb = [] := by
    rw [hc.fresh]
    rfl
  have hold : ∀ d ∈ f.channels, d.name ≠ c.name := by
    intro d hd heq
    exact hfresh (heq ▸ List.mem_map_of_mem hd)
  refine h.of_channel ?_ ?_ hr rfl ?_ ?_ ?_ ?_
  · rfl
  · rfl
  · intro a
    rw [LogRecord.attrsAt_apply hr, LogRecord.update, PathMap.set_self,
      LogRecord.attrMap_of_sorted hc.sorted, Option.some_inj]
    constructor
    · rintro rfl
      exact ⟨c, by simp, rfl, rfl⟩
    · rintro ⟨d, hd, hname, rfl⟩
      rcases List.mem_append.1 hd with hd | hd
      · exact absurd hname (hold d hd)
      · rw [List.mem_singleton.1 hd]
  · intro kind oid
    rw [LogRecord.attrsAt_apply hr]
    exact PathMap.set_below (below_channel kind oid).1 (below_channel kind oid).2
  · rintro v ⟨d, hd, hname, hv⟩
    rcases List.mem_append.1 hd with hd | hd
    · exact hold d hd hname
    · rw [List.mem_singleton.1 hd, hviews] at hv
      cases hv
  · intro name hname
    have hmem : ∀ d ∈ f.channels ++ [c], d.name = name → d ∈ f.channels := by
      intro d hd hdname
      rcases List.mem_append.1 hd with hd | hd
      · exact hd
      · exact absurd ((List.mem_singleton.1 hd) ▸ hdname).symm hname
    refine ⟨fun a => ⟨?_, ?_⟩, fun v => ⟨?_, ?_⟩⟩
    · rintro ⟨d, hd, hdname, hattrs⟩
      exact ⟨d, hmem d hd hdname, hdname, hattrs⟩
    · rintro ⟨d, hd, hd'⟩
      exact ⟨d, List.mem_append_left _ hd, hd'⟩
    · rintro ⟨d, hd, hdname, hv⟩
      exact ⟨d, hmem d hd hdname, hdname, hv⟩
    · rintro ⟨d, hd, hd'⟩
      exact ⟨d, List.mem_append_left _ hd, hd'⟩

/-- A channel that has gone. -/
theorem delete (h : f.Mirrors orb root) (hprint : c.Printable) :
    ({ f with channels :=
        f.channels.filter (·.name ≠ c.name) } : EventChannelFactory Ref).Mirrors orb
      (LogRecord.apply root (.erase [ecf, c.name])) := by
  have hr : (LogRecord.erase [ecf, c.name]).Clean :=
    ⟨rfl, by simpa using ⟨cleanName_ecf, hprint.name⟩⟩
  have hgone : ∀ q, [ecf, c.name] <+: q →
      (LogRecord.apply root (.erase [ecf, c.name])).attrsAt q = none := by
    intro q hq
    rw [LogRecord.attrsAt_apply hr]
    exact PathMap.remove_below hq
  have hmem : ∀ d, d ∈ f.channels.filter (·.name ≠ c.name) ↔ d ∈ f.channels ∧ d.name ≠ c.name := by
    simp
  refine h.of_channel ?_ ?_ hr rfl ?_ ?_ ?_ ?_
  · rfl
  · rfl
  · intro a
    rw [hgone _ (List.prefix_refl _)]
    constructor
    · intro hsome
      cases hsome
    · rintro ⟨d, hd, hname, -⟩
      exact absurd hname ((hmem d).1 hd).2
  · exact fun kind oid => hgone _ (below_channel kind oid).1
  · rintro v ⟨d, hd, hname, -⟩
    exact ((hmem d).1 hd).2 hname
  · intro name hname
    refine ⟨fun a => ⟨?_, ?_⟩, fun v => ⟨?_, ?_⟩⟩
    · rintro ⟨d, hd, hd'⟩
      exact ⟨d, ((hmem d).1 hd).1, hd'⟩
    · rintro ⟨d, hd, hdname, hattrs⟩
      exact ⟨d, (hmem d).2 ⟨hd, hdname ▸ hname⟩, hdname, hattrs⟩
    · rintro ⟨d, hd, hd'⟩
      exact ⟨d, ((hmem d).1 hd).1, hd'⟩
    · rintro ⟨d, hd, hdname, hv⟩
      exact ⟨d, (hmem d).2 ⟨hd, hdname ▸ hname⟩, hdname, hv⟩

/-- A checkpoint has all of it. -/
theorem checkpoint (hnames : (f.channels.map (·.name)).Nodup) (hlive : ∀ c ∈ f.channels, c.Live orb)
    (hclean : ∀ r ∈ f.log orb, r.Clean) : f.Mirrors orb (replay (f.log orb)) where
  factory := by
    have hordered := EventChannelFactory.ordered_log hnames hlive
    refine ⟨_, LogRecord.attrsAt_replay_of_mem hclean hordered (Or.inl List.mem_cons_self), ?_, ?_⟩
    · have hne : keyEndPoint ≠ keyPort := by decide
      split
      · simp [attrMap]
      · simp [attrMap, hne.symm]
    · cases hempty : f.endPointNoListen.isEmpty with
      | true =>
          have hne : keyEndPoint ≠ keyPort := by decide
          simp [attrMap, hne, List.isEmpty_iff.1 hempty]
      | false => simp [attrMap]
  channels channelName a := by
    rw [EventChannelFactory.log, attrsAt_channel (path_factoryRecord f)
      (EventChannelFactory.ordered_log hnames hlive) hclean]
    constructor
    · rintro ⟨c, hc, hname, rfl⟩
      exact ⟨c, hc, hname, (LogRecord.attrMap_of_sorted (hlive c hc).properties).symm⟩
    · rintro ⟨c, hc, hname, rfl⟩
      exact ⟨c, hc, hname, LogRecord.attrMap_of_sorted (hlive c hc).properties⟩
  record channelName kind oid a ha := by
    obtain ⟨c, hc, hname, v, hv, hkind, hoid, hattrs⟩ :=
      EventChannelFactory.view_of_attrsAt hnames hlive hclean ha
    exact ⟨v, ⟨c, hc, hname, hv⟩, Prod.ext hkind hoid, hattrs⟩
  stored channelName v := by
    rintro ⟨c, hc, hname, hv⟩ -
    rw [EventChannelFactory.log, attrsAt_serverLog (path_factoryRecord f)
      (EventChannelFactory.ordered_log hnames hlive) hclean]
    exact ⟨c, hc, hname, v, hv, rfl, rfl, LogRecord.attrMap_of_sorted (c.recorded hv).sorted⟩

end Channels

end Mirrors

end EventChannelFactory

end OmniEvents
