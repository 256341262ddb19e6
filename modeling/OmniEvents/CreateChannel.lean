import OmniEvents.RestartChannel
import OmniEvents.RoundTrip

set_option autoImplicit false

/-! # Creating channels

`create_object` of the factory reads the criteria that a client sends (`parseCriteria`) and activates a
channel with them; its name is the `InsName` of the client, or a new unique id. The channel's thread
then appends what `EventChannel_i::output` writes to the log, and the deletion of its path when it
ends. Nothing escapes the strings of the client: the channel survives a restart exactly if its name
could be a path component and its `FilterId` an attribute value (`survives_iff`). -/

namespace OmniEvents

open PersistNode (attrString hasAttr recordText)
open LogRecord (CleanName CleanAttr CleanPath ecf)
open LogEntry (Spells ShortComment meaning CompleteLog factoryLog completeLog_factoryLog)

variable {Ref : Type}

/-! ## Criteria

`parseCriteria` puts each criterion under its key, or raises with the criterion in the exception. A
number is stored as text, as it will be in the log. -/

/-- A CORBA `Any`, as far as criteria look into it. -/
inductive AnyValue where
  | ulong (value : UInt32)
  | string (value : Str)
  | other
  deriving DecidableEq, Repr

/-- `CosLifeCycle::NameValuePair`. -/
structure Criterion where
  name : Str
  value : AnyValue
  deriving DecidableEq, Repr

/-- `CosNaming::NameComponent`. -/
structure NameComponent where
  id : Str
  kind : Str
  deriving DecidableEq, Repr

/-- The exceptions of `create_object`. -/
inductive LifeCycleExn where
  | NoFactory (key : List NameComponent)
  | InvalidCriteria (invalid_criteria : List Criterion)
  | CannotMeetCriteria (unmet_criteria : List Criterion)
  /-- Raised by the channel's `activate`. -/
  | raised (ex : Exn)
  deriving DecidableEq, Repr

/-- `extract`: the first criterion of the name. -/
def extract (name : Str) (criteria : List Criterion) : List Criterion :=
  (criteria.find? (fun c => c.name = name)).toList

/-- `%i` of a `long`, of which it prints the low 32 bits. -/
def intText : ℤ → Str
  | .ofNat n => Nat.toDigits 10 n
  | .negSucc n => '-' :: Nat.toDigits 10 (n + 1)

/-- `addattr` for a number. -/
def PersistNode.addattrLong (n : PersistNode) (key : Str) (value : UInt32) : PersistNode :=
  .mk (OrdMap.insert key (intText value.toInt32.toInt) n.attrs) n.children

/-- The period in milliseconds, as it is stored. -/
def keyPullRetryPeriod_ms : Str := "PullRetryPeriod_ms".toList

/-- The older name of the period, in seconds. -/
def keyPullRetryPeriod : Str := "PullRetryPeriod".toList

/-- How many events the queue holds. -/
def keyMaxQueueLength : Str := "MaxQueueLength".toList

/-- How many pull suppliers there may be. -/
def keyMaxNumProxies : Str := "MaxNumProxies".toList

/-- The period of the main loop. -/
def keyCyclePeriod_ns : Str := "CyclePeriod_ns".toList

/-- The name of the channel in the omniINSPOA. -/
def keyInsName : Str := "InsName".toList

/-- The repository id of the events that are kept. -/
def keyFilterId : Str := "FilterId".toList

namespace Criterion

variable (criteria : List Criterion)

/-- The value of a criterion that must be a `CORBA::ULong`. -/
def ulong (c : Criterion) : Except LifeCycleExn UInt32 :=
  match c.value with
  | .ulong value => .ok value
  | _ => .error (.InvalidCriteria (extract c.name criteria))

/-- The value of a criterion that must be a string. -/
def string (c : Criterion) : Except LifeCycleExn Str :=
  match c.value with
  | .string value => .ok value
  | _ => .error (.InvalidCriteria (extract c.name criteria))

/-- A period in milliseconds: `scale` is the number of them in the unit of the criterion. -/
def parsePeriod (scale : UInt32) (c : Criterion) (result : PersistNode) :
    Except LifeCycleExn PersistNode :=
  match c.ulong criteria with
  | .error ex => .error ex
  | .ok value =>
      if value = 0 then .error (.CannotMeetCriteria (extract c.name criteria))
      else .ok (result.addattrLong keyPullRetryPeriod_ms (value * scale))

/-- A number of which zero is ignored. -/
def parseSize (c : Criterion) (result : PersistNode) : Except LifeCycleExn PersistNode :=
  match c.ulong criteria with
  | .error ex => .error ex
  | .ok value => .ok (if value > 0 then result.addattrLong c.name value else result)

/-- A string of which the empty one is ignored. -/
def parseString (c : Criterion) (result : PersistNode) : Except LifeCycleExn PersistNode :=
  match c.string criteria with
  | .error ex => .error ex
  | .ok value => .ok (if value = [] then result else result.addattr (c.name ++ '=' :: value))

/-- The body of the loop of `parseCriteria`. -/
def parse (result : PersistNode) (c : Criterion) : Except LifeCycleExn PersistNode :=
  if c.name = keyPullRetryPeriod_ms then c.parsePeriod criteria 1 result
  else if c.name = keyPullRetryPeriod then
    -- deprecated, and overridden by the criterion in milliseconds
    if result.hasAttr keyPullRetryPeriod_ms then .ok result else c.parsePeriod criteria 1000 result
  else if c.name = keyMaxQueueLength then c.parseSize criteria result
  else if c.name = keyMaxNumProxies then c.parseSize criteria result
  else if c.name = keyCyclePeriod_ns then c.parseSize criteria result
  else if c.name = keyInsName then c.parseString criteria result
  else if c.name = keyFilterId then c.parseString criteria result
  else .ok result

end Criterion

/-- `EventChannelFactory_i::parseCriteria`: the criteria are looked at in their order, and the first
    that is wrong raises. -/
def parseCriteria (criteria : List Criterion) : Except LifeCycleExn PersistNode :=
  criteria.foldlM (Criterion.parse criteria) .empty

/-! ## `create_object` -/

/-- `EventChannelFactory_i::supports`. -/
def supports (k : List NameComponent) : Bool :=
  k == [⟨"EventChannel".toList, "object interface".toList⟩]

/-- The name of the new channel. -/
def channelId (criteriaNode : PersistNode) (uniqueId : Str) : Str :=
  if criteriaNode.hasAttr keyInsName then criteriaNode.attrString keyInsName else uniqueId

/-- `create_object`. `poas` are the names of the POAs of all channels and `insNames` the ids in the
    omniINSPOA; `uniqueId` is what `newUniqueId` returns. -/
def create_object (orb : Orb Ref) (env : Env) (poas insNames : List Str) (uniqueId : Str)
    (k : List NameComponent) (criteria : List Criterion) :
    Except LifeCycleExn (EventChannel Ref) :=
  if !supports k then .error (.NoFactory k)
  else
    match parseCriteria criteria with
    | .error ex => .error ex
    | .ok criteriaNode =>
        -- `AdapterAlreadyExists`
        if channelId criteriaNode uniqueId ∈ poas then .error (.InvalidCriteria criteria)
        else
          match EventChannel.activate orb env (channelId criteriaNode uniqueId)
              (some criteriaNode) with
          | .error ex => .error (.raised ex)
          | .ok channel =>
              -- `setInsName`: `ObjectAlreadyActive`
              if criteriaNode.attrString keyInsName ≠ [] ∧
                  criteriaNode.attrString keyInsName ∈ insNames then
                .error (.InvalidCriteria criteria)
              else .ok channel

/-! ## What the criteria come to

The node that `parseCriteria` makes has attributes only, and their values have no white space unless
a string of the client brought it in. -/

/-- What a node made of criteria holds. -/
structure CriteriaNode (n : PersistNode) : Prop where
  sorted : OrdMap.Sorted n.attrs
  leaf : n.children = []
  value_ne_nil : ∀ kv ∈ n.attrs, kv.2 ≠ []
  attrs : ∀ kv ∈ n.attrs, kv.1 = keyInsName ∨ kv.1 = keyFilterId ∨ CleanAttr kv

theorem intText_ne_nil (i : ℤ) : intText i ≠ [] := by
  cases i with
  | ofNat n => exact Nat.toDigits_ne_nil
  | negSucc n => simp [intText]

theorem isSpace_intText (i : ℤ) : ∀ c ∈ intText i, isSpace c = false := by
  cases i with
  | ofNat n => exact fun c hc => (cleanName_toDigits (by decide) (by decide) n c hc).2
  | negSucc n =>
      exact List.forall_mem_cons.2 ⟨by decide,
        fun c hc => (cleanName_toDigits (by decide) (by decide) (n + 1) c hc).2⟩

theorem CriteriaNode.empty : CriteriaNode .empty :=
  ⟨.nil, rfl, by simp [PersistNode.empty], by simp [PersistNode.empty]⟩

theorem CriteriaNode.insert {n : PersistNode} (h : CriteriaNode n) {key value : Str}
    (hvalue : value ≠ [])
    (hkv : key = keyInsName ∨ key = keyFilterId ∨ CleanAttr (key, value)) :
    CriteriaNode (.mk (OrdMap.insert key value n.attrs) n.children) := by
  refine ⟨h.sorted.insert, h.leaf, ?_, ?_⟩
  · intro kv hmem
    rcases OrdMap.mem_insert hmem with rfl | hmem
    · exact hvalue
    · exact h.value_ne_nil kv hmem
  · intro kv hmem
    rcases OrdMap.mem_insert hmem with rfl | hmem
    · exact hkv
    · exact h.attrs kv hmem

theorem CriteriaNode.addattrLong {n : PersistNode} (h : CriteriaNode n) {key : Str}
    (hkey : ∀ c ∈ key, c ≠ '=' ∧ isSpace c = false) (hhash : key.head? ≠ some '#')
    (value : UInt32) : CriteriaNode (n.addattrLong key value) :=
  h.insert (intText_ne_nil _) (Or.inr (Or.inr ⟨hkey, isSpace_intText _, hhash⟩))

theorem splitAttr_key {key : Str} (h : '=' ∉ key) (value : Str) :
    PersistNode.splitAttr (key ++ '=' :: value) = (key, value) := by
  have hkey : ∀ c ∈ key, (fun c => decide (c ≠ '=')) c = true := fun c hc => by
    have hne : c ≠ '=' := fun heq => h (heq ▸ hc)
    simpa using hne
  simp only [PersistNode.splitAttr]
  rw [List.takeWhile_append_of_pos hkey, List.dropWhile_append_of_pos hkey]
  simp

theorem CriteriaNode.parsePeriod {criteria : List Criterion} {scale : UInt32} {c : Criterion}
    {n n' : PersistNode} (h : CriteriaNode n) (hparse : c.parsePeriod criteria scale n = .ok n') :
    CriteriaNode n' := by
  simp only [Criterion.parsePeriod] at hparse
  split at hparse
  · cases hparse
  · split at hparse
    · cases hparse
    · cases hparse
      exact h.addattrLong (by decide) (by decide) _

theorem CriteriaNode.parseSize {criteria : List Criterion} {c : Criterion} {n n' : PersistNode}
    (h : CriteriaNode n) (hkey : ∀ ch ∈ c.name, ch ≠ '=' ∧ isSpace ch = false)
    (hhash : c.name.head? ≠ some '#') (hparse : c.parseSize criteria n = .ok n') :
    CriteriaNode n' := by
  simp only [Criterion.parseSize] at hparse
  split at hparse
  · cases hparse
  · cases hparse
    split
    · exact h.addattrLong hkey hhash _
    · exact h

theorem CriteriaNode.parseString {criteria : List Criterion} {c : Criterion} {n n' : PersistNode}
    (h : CriteriaNode n) (hname : c.name = keyInsName ∨ c.name = keyFilterId)
    (hparse : c.parseString criteria n = .ok n') : CriteriaNode n' := by
  simp only [Criterion.parseString] at hparse
  split at hparse
  · cases hparse
  · cases hparse
    split
    · exact h
    · next hvalue =>
        have hkey : '=' ∉ c.name := by
          rcases hname with hname | hname
          · rw [hname]
            decide
          · rw [hname]
            decide
        rw [PersistNode.addattr, splitAttr_key hkey]
        exact h.insert hvalue (hname.imp_right Or.inl)

theorem CriteriaNode.parse {criteria : List Criterion} {c : Criterion} {n n' : PersistNode}
    (h : CriteriaNode n) (hparse : c.parse criteria n = .ok n') : CriteriaNode n' := by
  unfold Criterion.parse at hparse
  split at hparse
  · exact h.parsePeriod hparse
  split at hparse
  · split at hparse
    · cases hparse
      exact h
    · exact h.parsePeriod hparse
  split at hparse
  · next hname => exact h.parseSize (by rw [hname]; decide) (by rw [hname]; decide) hparse
  split at hparse
  · next hname => exact h.parseSize (by rw [hname]; decide) (by rw [hname]; decide) hparse
  split at hparse
  · next hname => exact h.parseSize (by rw [hname]; decide) (by rw [hname]; decide) hparse
  split at hparse
  · next hname => exact h.parseString (Or.inl hname) hparse
  split at hparse
  · next hname => exact h.parseString (Or.inr hname) hparse
  · cases hparse
    exact h

theorem criteriaNode_parseCriteria {criteria : List Criterion} {n : PersistNode}
    (h : parseCriteria criteria = .ok n) : CriteriaNode n := by
  have hloop : ∀ (cs : List Criterion) (m : PersistNode), CriteriaNode m →
      cs.foldlM (Criterion.parse criteria) m = .ok n → CriteriaNode n := by
    intro cs
    induction cs with
    | nil =>
        intro m hm hfold
        cases hfold
        exact hm
    | cons c cs ih =>
        intro m hm hfold
        rw [List.foldlM_cons] at hfold
        cases hc : Criterion.parse criteria m c with
        | error ex =>
            rw [hc] at hfold
            cases hfold
        | ok m' =>
            rw [hc] at hfold
            exact ih m' (hm.parse hc) hfold
  exact hloop criteria .empty .empty h

/-! ## The channel that is created -/

/-- A channel of which only the name and the properties are there. -/
def EventChannel.fresh (name : Str) (properties : List (Str × Str)) : EventChannel Ref :=
  { name, properties, connections := [], pullConsumer := none, pushSupplier := none
    pullSupplier := none }

theorem activate_of_leaf (orb : Orb Ref) (env : Env) (channelName : Str) {n : PersistNode}
    (h : n.children = []) :
    EventChannel.activate orb env channelName (some n) = .ok (.fresh channelName n.attrs) := by
  obtain ⟨attrs, children⟩ := n
  obtain rfl : children = [] := h
  rfl

/-- What a client gets is a channel with the criteria as its properties. -/
structure Created (c : EventChannel Ref) : Prop where
  fresh : c = .fresh c.name c.properties
  sorted : OrdMap.Sorted c.properties
  name_ne_nil : c.name ≠ []
  insName : ∀ v, (keyInsName, v) ∈ c.properties → v = c.name
  attrs : ∀ kv ∈ c.properties, kv.1 = keyInsName ∨ kv.1 = keyFilterId ∨ CleanAttr kv

theorem created_of_parseCriteria {uniqueId : Str} {criteria : List Criterion} {n : PersistNode}
    (hid : uniqueId ≠ []) (h : parseCriteria criteria = .ok n) :
    Created (.fresh (channelId n uniqueId) n.attrs : EventChannel Ref) := by
  have hn := criteriaNode_parseCriteria h
  refine ⟨rfl, hn.sorted, ?_, ?_, hn.attrs⟩
  -- neither the name of the client nor the unique id is empty
  · show channelId n uniqueId ≠ []
    rw [channelId]
    split
    · next hattr =>
        obtain ⟨v, hv⟩ := Option.isSome_iff_exists.1 hattr
        rw [attrString, hv, Option.getD_some]
        exact hn.value_ne_nil _ (hn.sorted.mem_iff_lookup.2 hv)
    · exact hid
  · intro v hv
    have hlookup := hn.sorted.mem_iff_lookup.1 hv
    have hattr : n.hasAttr keyInsName = true := by
      rw [hasAttr, hlookup]
      rfl
    show v = channelId n uniqueId
    rw [channelId, if_pos hattr, attrString, hlookup, Option.getD_some]

theorem created_of_create_object {orb : Orb Ref} {env : Env} {poas insNames : List Str}
    {uniqueId : Str} {k : List NameComponent} {criteria : List Criterion} {c : EventChannel Ref}
    (hid : uniqueId ≠ [])
    (h : create_object orb env poas insNames uniqueId k criteria = .ok c) : Created c := by
  unfold create_object at h
  split at h
  · cases h
  split at h
  · cases h
  next n hparse =>
    split at h
    · cases h
    rw [activate_of_leaf orb env _ (criteriaNode_parseCriteria hparse).leaf] at h
    simp only at h
    split at h
    · cases h
    cases h
    exact created_of_parseCriteria hid hparse

/-! ## Its records in the log

A new channel writes its record, and when it goes a `-` record takes that away again. What the log
says of other channels has to stay as it was. -/

/-- What `EventChannel_i::output` appends. -/
def EventChannel.outputText (orb : Orb Ref) (c : EventChannel Ref) : Str :=
  (c.output orb).records.flatMap LogRecord.text

/-- `-ecf/NAME`, appended when the channel's thread ends. -/
def EventChannel.eraseText (c : EventChannel Ref) : Str := "-ecf/".toList ++ c.name ++ ['\n']

/-- Nothing but the channel of this name differs in the two trees. -/
def SameChannelsBut (name : Str) (n m : PersistNode) : Prop :=
  ∀ s, s ≠ name → n.find [ecf, s] = m.find [ecf, s]

/-- The channel comes back from the log as it was created, and goes when it is deleted. `between` and
    `later` are what is appended while it is there and after it has gone. -/
structure Survives (orb : Orb Ref) (c : EventChannel Ref) (log : Str) : Prop where
  added : (PersistNode.parse (log ++ c.outputText orb)).find [ecf, c.name]
    = some (.mk c.properties [])
  addedOthers :
    SameChannelsBut c.name (PersistNode.parse (log ++ c.outputText orb)) (PersistNode.parse log)
  removed : ∀ entries between, CompleteLog entries between →
    (PersistNode.parse (log ++ c.outputText orb ++ between ++ c.eraseText)).find [ecf, c.name]
      = none
  removedOthers : ∀ entries between, CompleteLog entries between →
    SameChannelsBut c.name (PersistNode.parse (log ++ c.outputText orb ++ between ++ c.eraseText))
      (PersistNode.parse (log ++ c.outputText orb ++ between))
  following : ∀ entries between entries' later, CompleteLog entries between →
    CompleteLog entries' later →
    (PersistNode.parse (log ++ c.outputText orb ++ between ++ c.eraseText ++ later)).attrsAt
      = entries'.foldl meaning
          (PersistNode.parse (log ++ c.outputText orb ++ between ++ c.eraseText)).attrsAt

/-- A path below another channel. -/
theorem not_prefix_other {s name : Str} (h : s ≠ name) (q : List Str) :
    ¬ [ecf, name] <+: [ecf, s] ++ q := by
  simpa [List.cons_prefix_cons] using fun heq => h heq.symm

/-- The entry that a new channel is written as. -/
def EventChannel.entry (c : EventChannel Ref) : LogEntry :=
  .add (LogRecord.pathText [ecf, c.name]) (c.properties.map LogRecord.attrText)

/-- The entry that deletes it. -/
def EventChannel.eraseEntry (c : EventChannel Ref) : LogEntry :=
  .erase (LogRecord.pathText [ecf, c.name])

theorem Created.outputText {c : EventChannel Ref} (hc : Created c) (orb : Orb Ref) :
    c.outputText orb = recordText (LogRecord.pathText [ecf, c.name]) c.properties := by
  have hrecords : c.output orb = ⟨[.block [ecf, c.name] c.properties], none⟩ :=
    (congrArg (·.output orb) hc.fresh).trans rfl
  rw [EventChannel.outputText, hrecords]
  simp [LogRecord.text, recordText]

/-! ### A channel whose name and strings are clean -/

section Clean

variable {c : EventChannel Ref} (hc : Created c) (hname : CleanName c.name)

include hc hname

theorem Created.writablePath : PersistNode.WritablePath [ecf, c.name] := by
  refine ⟨List.forall_mem_cons.2 ⟨⟨by decide, cleanName_ecf⟩,
    List.forall_mem_cons.2 ⟨⟨hc.name_ne_nil, hname⟩, by simp⟩⟩, ?_⟩
  simp only [List.head?_cons, Option.mem_def, Option.some.injEq, forall_eq']
  decide

theorem Created.completeLog_eraseText : CompleteLog [c.eraseEntry] c.eraseText := by
  have hpath := hc.writablePath hname
  have htext : c.eraseText = ('-' :: LogRecord.pathText [ecf, c.name]) ++ '\n' :: [] := by
    have hmark : "-ecf/".toList = '-' :: (ecf ++ ['/']) := by decide
    refine (congrArg (· ++ c.name ++ ['\n']) hmark).trans ?_
    simp [LogRecord.pathText]
  have hspace : ∀ ch ∈ LogRecord.pathText [ecf, c.name], isSpace ch = false :=
    (hpath.isWord (by simp)).noSpace
  rw [htext]
  refine ⟨List.forall_mem_singleton.2 hspace, ?_, IStream.endsLine_concat _⟩
  exact .wordSpace ⟨by simp, List.forall_mem_cons.2 ⟨by decide, hspace⟩, by simp⟩ (by decide) .nil

/-- The deletion leaves the channel out of the tree, and nothing else. -/
theorem Created.attrsAt_eraseText {entries : List LogEntry} {log : Str}
    (hlog : CompleteLog entries log) :
    (PersistNode.parse (log ++ c.eraseText)).attrsAt
      = PathMap.remove [ecf, c.name] (PersistNode.parse log).attrsAt := by
  rw [hlog.attrsAt_append (hc.completeLog_eraseText hname), List.foldl_cons, List.foldl_nil,
    EventChannel.eraseEntry, meaning, (hc.writablePath hname).components_pathText (by simp)]

theorem Created.find_eraseText {entries : List LogEntry} {log : Str}
    (hlog : CompleteLog entries log) :
    (PersistNode.parse (log ++ c.eraseText)).find [ecf, c.name] = none := by
  have hnone : (PersistNode.parse (log ++ c.eraseText)).attrsAt [ecf, c.name] = none := by
    rw [hc.attrsAt_eraseText hname hlog, PathMap.remove_below (List.prefix_refl _)]
  exact Option.map_eq_none_iff.1 hnone

theorem Created.sameChannels_eraseText {entries : List LogEntry} {log : Str}
    (hlog : CompleteLog entries log) :
    SameChannelsBut c.name (PersistNode.parse (log ++ c.eraseText)) (PersistNode.parse log) := by
  intro s hs
  refine (PersistNode.sorted_parse _).find_congr (PersistNode.sorted_parse _) ?_
  intro q
  rw [hc.attrsAt_eraseText hname hlog, PathMap.remove_apart (not_prefix_other hs q)]

variable (hattrs : ∀ kv ∈ c.properties, CleanAttr kv)

include hattrs

theorem Created.completeLog_outputText (orb : Orb Ref) :
    CompleteLog [c.entry] (c.outputText orb) := by
  have hpath := hc.writablePath hname
  rw [hc.outputText]
  exact ⟨List.forall_mem_singleton.2 (hpath.wellFormed (by simp) hattrs),
    hpath.spells_recordText (by simp) hattrs, PersistNode.endsLine_recordText _ _⟩

/-- The record sets the channel's node, and nothing else. -/
theorem Created.attrsAt_outputText (orb : Orb Ref) {entries : List LogEntry} {log : Str}
    (hlog : CompleteLog entries log) :
    (PersistNode.parse (log ++ c.outputText orb)).attrsAt
      = PathMap.set [] [ecf, c.name] c.properties (PersistNode.parse log).attrsAt := by
  rw [hlog.attrsAt_append (hc.completeLog_outputText hname hattrs orb), List.foldl_cons,
    List.foldl_nil, EventChannel.entry, meaning,
    (hc.writablePath hname).components_pathText (by simp),
    PersistNode.attrMap_entry hattrs hc.sorted]

theorem Created.find_outputText (orb : Orb Ref) {entries : List LogEntry} {log : Str}
    (hlog : CompleteLog entries log) :
    (PersistNode.parse (log ++ c.outputText orb)).find [ecf, c.name]
      = some (.mk c.properties []) := by
  refine (PersistNode.sorted_parse _).find_eq_some (.mk hc.sorted .nil (by simp)) ?_
  intro q
  rw [hc.attrsAt_outputText hname hattrs orb hlog]
  cases q with
  | nil => rw [List.append_nil, PathMap.set_self, PersistNode.attrsAt_nil, PersistNode.attrs_mk]
  | cons t q => rw [PathMap.set_below (List.prefix_append _ _) (by simp)]; rfl

theorem Created.sameChannels_outputText (orb : Orb Ref) {entries : List LogEntry} {log : Str}
    (hlog : CompleteLog entries log) :
    SameChannelsBut c.name (PersistNode.parse (log ++ c.outputText orb))
      (PersistNode.parse log) := by
  intro s hs
  refine (PersistNode.sorted_parse _).find_congr (PersistNode.sorted_parse _) ?_
  intro q
  have habove : ¬ [ecf, s] ++ q <+: [ecf, c.name] := by
    simpa [List.cons_prefix_cons] using fun heq => absurd heq hs
  rw [hc.attrsAt_outputText hname hattrs orb hlog, PathMap.set_apart (not_prefix_other hs q) habove]

theorem Created.survives (orb : Orb Ref) {entries : List LogEntry} {log : Str}
    (hlog : CompleteLog entries log) : Survives orb c log := by
  have hout := hlog.append (hc.completeLog_outputText hname hattrs orb)
  refine ⟨hc.find_outputText hname hattrs orb hlog, hc.sameChannels_outputText hname hattrs orb hlog,
    fun es between hbetween => hc.find_eraseText hname (hout.append hbetween),
    fun es between hbetween => hc.sameChannels_eraseText hname (hout.append hbetween), ?_⟩
  intro es between es' later hbetween hlater
  exact ((hout.append hbetween).append (hc.completeLog_eraseText hname)).attrsAt_append hlater

end Clean

/-- What can be read back from any text is clean. -/
theorem clean_of_survives {orb : Orb Ref} {c : EventChannel Ref} {log : Str}
    (h : Survives orb c log) : CleanName c.name ∧ ∀ kv ∈ c.properties, CleanAttr kv := by
  obtain ⟨hnames, hattrs⟩ := PersistNode.cleanTree_parse (log ++ c.outputText orb) [ecf, c.name]
    c.properties (PersistNode.attrsAt_of_find h.added)
  exact ⟨hnames c.name (by simp), hattrs⟩

/-- A value without white space for one of the two strings of the client. -/
theorem cleanAttr_of_value {key v : Str} (hkey : key = keyInsName ∨ key = keyFilterId)
    (hv : ∀ ch ∈ v, isSpace ch = false) : CleanAttr (key, v) := by
  rcases hkey with rfl | rfl
  · exact ⟨(by decide : ∀ ch ∈ keyInsName, ch ≠ '=' ∧ isSpace ch = false), hv,
      (by decide : keyInsName.head? ≠ some '#')⟩
  · exact ⟨(by decide : ∀ ch ∈ keyFilterId, ch ≠ '=' ∧ isSpace ch = false), hv,
      (by decide : keyFilterId.head? ≠ some '#')⟩

theorem Created.cleanAttrs {c : EventChannel Ref} (hc : Created c) (hname : CleanName c.name)
    (hfilter : ∀ v, (keyFilterId, v) ∈ c.properties → ∀ ch ∈ v, isSpace ch = false) :
    ∀ kv ∈ c.properties, CleanAttr kv := by
  rintro ⟨key, v⟩ hkv
  rcases hc.attrs _ hkv with hkey | hkey | hclean
  · obtain rfl : key = keyInsName := hkey
    obtain rfl := hc.insName v hkv
    exact cleanAttr_of_value (Or.inl rfl) fun ch hch => (hname ch hch).2
  · obtain rfl : key = keyFilterId := hkey
    exact cleanAttr_of_value (Or.inr rfl) (hfilter v hkv)
  · exact hclean

/-- **A channel survives the log if its strings are clean, and only then.** The name must have no
    white space and no slash, and the `FilterId` no white space. -/
theorem survives_iff {orb : Orb Ref} {env : Env} {poas insNames : List Str} {count mypid sec : ℕ}
    {k : List NameComponent} {criteria : List Criterion} {c : EventChannel Ref}
    (hcreate : create_object orb env poas insNames (newUniqueId count mypid sec) k criteria = .ok c)
    {entries : List LogEntry} {log : Str} (hlog : CompleteLog entries log) :
    Survives orb c log ↔
      CleanName c.name ∧ ∀ v, (keyFilterId, v) ∈ c.properties → ∀ ch ∈ v, isSpace ch = false := by
  have hc := created_of_create_object (by simp [newUniqueId]) hcreate
  constructor
  · intro h
    obtain ⟨hname, hattrs⟩ := clean_of_survives h
    exact ⟨hname, fun v hv => (hattrs _ hv).value⟩
  · rintro ⟨hname, hfilter⟩
    exact hc.survives hname (hc.cleanAttrs hname hfilter) orb hlog

/-- The key of every `create_object`. -/
def channelKey : List NameComponent := [⟨"EventChannel".toList, "object interface".toList⟩]

/-- A channel with a filter. -/
def filteredChannel : EventChannel Str :=
  .fresh ['a'] [(keyFilterId, "IDL:x:1.0".toList), (keyInsName, ['a'])]

theorem survives_iff_filteredChannel :
    create_object stringOrb .quiet [] [] (newUniqueId 1 1 1) channelKey
        [⟨keyInsName, .string ['a']⟩, ⟨keyFilterId, .string "IDL:x:1.0".toList⟩]
      = .ok filteredChannel ∧
    Survives stringOrb filteredChannel factoryLog := by
  have hcreate : create_object stringOrb .quiet [] [] (newUniqueId 1 1 1) channelKey
      [⟨keyInsName, .string ['a']⟩, ⟨keyFilterId, .string "IDL:x:1.0".toList⟩]
        = .ok filteredChannel := by rfl
  have hvalues : ∀ kv ∈ filteredChannel.properties, ∀ ch ∈ kv.2, isSpace ch = false := by decide
  refine ⟨hcreate, (survives_iff hcreate completeLog_factoryLog).2 ⟨?_, fun v hv => hvalues _ hv⟩⟩
  exact (by decide : ∀ ch ∈ ['a'], ch ≠ '/' ∧ isSpace ch = false)

/-- A name with a blank in it is accepted, and its channel does not come back. -/
theorem blank_in_name :
    create_object stringOrb .quiet [] [] (newUniqueId 1 1 1) channelKey
        [⟨keyInsName, .string "a b".toList⟩]
      = .ok (.fresh "a b".toList [(keyInsName, "a b".toList)]) ∧
    CompleteLog [.add ecf ["port=11169".toList]] factoryLog ∧
    ¬ Survives stringOrb (.fresh "a b".toList [(keyInsName, "a b".toList)]) factoryLog := by
  refine ⟨by rfl, completeLog_factoryLog, ?_⟩
  intro h
  have hspace := ((clean_of_survives h).1 ' ' (by decide)).2
  revert hspace
  decide

end OmniEvents
