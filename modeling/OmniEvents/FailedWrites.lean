import OmniEvents.DisconnectLog
import OmniEvents.TornAppend

set_option autoImplicit false

/-! # Writes that fail

A block with a `WriteLock` sends its text to the log piece by piece, and calls the ORB in between. When
such a call raises, the pieces sent before it stay in the log. `keyOutput` makes all its calls before
its first piece; but `eraseKey` sends a `-` before it calls `keyOutput`, and `basicOutput` turns the
reference into a string after it has sent the key (`allOrNothing_iff`). A `-` that is left alone turns
the next record, whosever it is, into a deletion (`stray_minus`). -/

namespace OmniEvents

open LogRecord (pathText attrText)
open LogEntry (CompleteLog)

variable {Ref : Type}

/-! ## Blocks

A record is sent to the stream piece by piece, and a call of the ORB in between may raise. A block
is what was sent until then, and the exception. -/

/-- What a block has sent, and the exception that has left it, if any. -/
structure Block where
  text : Str
  raised : Option Exn
  deriving DecidableEq, Repr

namespace Block

/-- The end of the block, where the `WriteLock` goes out of scope. -/
def done : Block := ⟨[], none⟩

/-- `os << text`, and the rest of the block. -/
def send (text : Str) (rest : Block) : Block := ⟨text ++ rest.text, rest.raised⟩

/-- A call, and the rest of the block unless it raises. -/
def call {α : Type} (result : Except Exn α) (rest : α → Block) : Block :=
  match result with
  | .error ex => ⟨[], some ex⟩
  | .ok a => rest a

@[simp] theorem raised_done : done.raised = none := rfl

@[simp] theorem text_done : done.text = [] := rfl

@[simp] theorem raised_send (text : Str) (rest : Block) : (send text rest).raised = rest.raised :=
  rfl

@[simp] theorem text_send (text : Str) (rest : Block) : (send text rest).text = text ++ rest.text :=
  rfl

@[simp] theorem call_ok {α : Type} (a : α) (rest : α → Block) : call (.ok a) rest = rest a := rfl

@[simp] theorem call_error {α : Type} (ex : Exn) (rest : α → Block) :
    call (.error ex) rest = ⟨[], some ex⟩ := rfl

end Block

/-- What the text of records comes to as a block. -/
def Written.toBlock (w : Written) : Block := ⟨w.records.flatMap LogRecord.text, w.raised⟩

/-! ## The calls of the ORB -/

/-- What the calls inside the blocks come to. -/
structure OrbCalls (Ref : Type) where
  /-- `_poa->the_parent()->the_name()`. -/
  the_name : Except Exn Str
  /-- `ObjectId_to_string(_poa->servant_to_id(this))` of an active servant. -/
  ObjectId_to_string : Except Exn Unit
  object_to_string : Ref → Except Exn Str

/-- An ORB in which no call raises. -/
def Orb.calls (orb : Orb Ref) (channelName : Str) : OrbCalls Ref :=
  ⟨.ok channelName, .ok (), fun r => .ok (orb.object_to_string r)⟩

namespace Proxy

variable (p : Proxy) (calls : OrbCalls Ref) (kind : ProxyKind)

/-- The calls of `keyOutput`. -/
def keyCalls : Except Exn Str :=
  calls.the_name.bind fun channelName =>
    (p.keyOutput channelName kind).bind fun path =>
      calls.ObjectId_to_string.map fun _ => pathText path

/-- `Proxy::keyOutput`, which asks the ORB for the key before it sends it. -/
def keyOutputBlock (rest : Block) : Block := .call (p.keyCalls calls kind) fun key => .send key rest

/-- `Proxy::eraseKey`: the `-` is sent before the key is asked for. -/
def eraseKeyBlock : Block := .send ['-'] (p.keyOutputBlock calls kind (.send ['\n'] .done))

/-- What `basicOutput` sends after the key for a reference. -/
def targetBlock : Option Ref → Block
  | none => .send " ;;\n".toList .done
  | some target =>
      .call (calls.object_to_string target) fun iorstr =>
        .send (" IOR=".toList ++ iorstr) (.send " ;;\n".toList .done)

/-- `basicOutput` for a reference. -/
def basicOutputRefBlock (target : Option Ref) : Block :=
  p.keyOutputBlock calls kind (targetBlock calls target)

/-- `basicOutput` for a string. -/
def basicOutputBlock (iorstr : Str) (extraAttributes : List (Str × Str)) : Block :=
  p.keyOutputBlock calls kind
    (.send (" IOR=".toList ++ iorstr)
      (.send (extraAttributes.flatMap fun kv => ' ' :: attrText kv) (.send " ;;\n".toList .done)))

end Proxy

/-- `Connection::output`. -/
def Connection.outputBlock (c : Connection Ref) : Block :=
  .send (pathText (keyPath c.channelName .ProxyPushConsumer c.oidstr))
    (.send (" IOR=".toList ++ c.target_sior)
      (.send ((proxyAttr c.targetIsProxy).flatMap fun kv => ' ' :: attrText kv)
        (.send " ;;\n".toList .done)))

/-- The blocks of `eraseKey`, and of the methods that connect a proxy or are called back. -/
inductive WriteBlock (Ref : Type) where
  | eraseKey (p : Servant Ref)
  /-- `connect_push_consumer`, `connect_pull_supplier`, `connect_pull_consumer`, and
      `ProxyPushSupplier_i::callback`. -/
  | output (p : Servant Ref)
  /-- `connect_push_supplier`, and `Connection::callback`. -/
  | connection (c : Connection Ref)

namespace Servant

/-- The kind of a servant. -/
def kind : Servant Ref → ProxyKind
  | pushSupplier _ => .ProxyPushSupplier
  | pullConsumer _ => .ProxyPullConsumer
  | pullSupplier _ => .ProxyPullSupplier

/-- `output` of a servant. -/
def outputBlock (calls : OrbCalls Ref) : Servant Ref → Block
  | pushSupplier p =>
      p.basicOutputBlock calls .ProxyPushSupplier p.target_sior (proxyAttr p.targetIsProxy)
  | pullConsumer p => p.basicOutputRefBlock calls .ProxyPullConsumer p.target
  | pullSupplier p => p.basicOutputRefBlock calls .ProxyPullSupplier p.target

/-- The reference that `output` turns into a string after it has sent the key. -/
def outputRef : Servant Ref → Option Ref
  | pushSupplier _ => none
  | pullConsumer p => p.target
  | pullSupplier p => p.target

/-- The servant is active, and no call of `keyOutput` raises. -/
structure HasKey (calls : OrbCalls Ref) (p : Servant Ref) : Prop where
  active : p.toProxy.active = true
  the_name : ∃ channelName, calls.the_name = .ok channelName
  ObjectId_to_string : calls.ObjectId_to_string = .ok ()

end Servant

/-- What is sent inside the block, and what is asked of the ORB between. -/
def WriteBlock.run (calls : OrbCalls Ref) : WriteBlock Ref → Block
  | eraseKey p => p.toProxy.eraseKeyBlock calls p.kind
  | output p => p.outputBlock calls
  | connection c => c.outputBlock

/-- A block that an exception leaves has sent whole records, or nothing, and what is appended later is
    replayed as if the block had not run. -/
structure AllOrNothing (b : Block) : Prop where
  complete : b.raised ≠ none → ∃ entries, CompleteLog entries b.text
  unseen : b.raised ≠ none → ∀ entries log entries' later, CompleteLog entries log →
    CompleteLog entries' later →
      PersistNode.parse (log ++ b.text ++ later) = PersistNode.parse (log ++ later)

/-- No call raises after a piece has been sent. -/
def WriteBlock.Guarded (calls : OrbCalls Ref) : WriteBlock Ref → Prop
  | eraseKey p => p.HasKey calls
  | output p => p.HasKey calls → ∀ target ∈ p.outputRef,
      ∃ iorstr, calls.object_to_string target = .ok iorstr
  | connection _ => True

/-! ## What the blocks send -/

section Calls

variable {calls : OrbCalls Ref} {p : Servant Ref}

theorem keyCalls_of_hasKey (h : p.HasKey calls) :
    ∃ channelName, p.toProxy.keyCalls calls p.kind
      = .ok (pathText (keyPath channelName p.kind p.toProxy.oid)) := by
  obtain ⟨channelName, hname⟩ := h.the_name
  refine ⟨channelName, ?_⟩
  rw [Proxy.keyCalls, hname, Except.bind, Proxy.keyOutput, if_pos h.active,
    h.ObjectId_to_string]
  rfl

theorem keyCalls_of_not_hasKey (h : ¬ p.HasKey calls) :
    ∃ ex, p.toProxy.keyCalls calls p.kind = .error ex := by
  cases hname : calls.the_name with
  | error ex => exact ⟨ex, by rw [Proxy.keyCalls, hname]; rfl⟩
  | ok channelName =>
      cases hactive : p.toProxy.active with
      | false =>
          refine ⟨.ServantNotActive, ?_⟩
          rw [Proxy.keyCalls, hname, Except.bind, Proxy.keyOutput, hactive]
          rfl
      | true =>
          cases hid : calls.ObjectId_to_string with
          | error ex =>
              refine ⟨ex, ?_⟩
              rw [Proxy.keyCalls, hname, Except.bind, Proxy.keyOutput, if_pos hactive, hid]
              rfl
          | ok u => exact absurd ⟨hactive, ⟨channelName, hname⟩, hid⟩ h

theorem Proxy.keyOutputBlock_of_ok {p : Proxy} {kind : ProxyKind} {key : Str}
    (h : p.keyCalls calls kind = .ok key) (rest : Block) :
    p.keyOutputBlock calls kind rest = .send key rest := by
  rw [keyOutputBlock, h, Block.call_ok]

theorem Proxy.keyOutputBlock_of_error {p : Proxy} {kind : ProxyKind} {ex : Exn}
    (h : p.keyCalls calls kind = .error ex) (rest : Block) :
    p.keyOutputBlock calls kind rest = ⟨[], some ex⟩ := by
  rw [keyOutputBlock, h, Block.call_error]

theorem eraseKey_of_hasKey (h : p.HasKey calls) :
    ((WriteBlock.eraseKey p).run calls).raised = none := by
  obtain ⟨channelName, hkey⟩ := keyCalls_of_hasKey h
  rw [WriteBlock.run, Proxy.eraseKeyBlock, Proxy.keyOutputBlock_of_ok hkey]
  rfl

/-- The `-` is left alone. -/
theorem eraseKey_of_not_hasKey (h : ¬ p.HasKey calls) :
    ∃ ex, (WriteBlock.eraseKey p).run calls = ⟨['-'], some ex⟩ := by
  obtain ⟨ex, hkey⟩ := keyCalls_of_not_hasKey h
  refine ⟨ex, ?_⟩
  rw [WriteBlock.run, Proxy.eraseKeyBlock, Proxy.keyOutputBlock_of_error hkey]
  rfl

theorem output_of_not_hasKey (h : ¬ p.HasKey calls) :
    ∃ ex, (WriteBlock.output p).run calls = ⟨[], some ex⟩ := by
  obtain ⟨ex, hkey⟩ := keyCalls_of_not_hasKey h
  refine ⟨ex, ?_⟩
  cases p with
  | pushSupplier p => exact Proxy.keyOutputBlock_of_error hkey _
  | pullConsumer p => exact Proxy.keyOutputBlock_of_error hkey _
  | pullSupplier p => exact Proxy.keyOutputBlock_of_error hkey _

/-- With the key, an exception can only come from the reference. -/
theorem raised_of_output (hkey : p.HasKey calls)
    (href : ∀ target ∈ p.outputRef, ∃ iorstr, calls.object_to_string target = .ok iorstr) :
    ((WriteBlock.output p).run calls).raised = none := by
  obtain ⟨channelName, hkey⟩ := keyCalls_of_hasKey hkey
  have htarget : ∀ target : Option Ref,
      (∀ r ∈ target, ∃ iorstr, calls.object_to_string r = .ok iorstr) →
        (Proxy.targetBlock calls target).raised = none := by
    intro target hok
    cases target with
    | none => rfl
    | some r =>
        obtain ⟨iorstr, hior⟩ := hok r rfl
        rw [Proxy.targetBlock, hior]
        rfl
  cases p with
  | pushSupplier p => exact congrArg Block.raised (Proxy.keyOutputBlock_of_ok hkey _)
  | pullConsumer p =>
      exact (congrArg Block.raised (Proxy.keyOutputBlock_of_ok hkey _)).trans (htarget _ href)
  | pullSupplier p =>
      exact (congrArg Block.raised (Proxy.keyOutputBlock_of_ok hkey _)).trans (htarget _ href)

/-- It leaves the key alone. -/
theorem output_of_error (hkey : p.HasKey calls) {target : Ref} (htarget : target ∈ p.outputRef)
    {ex : Exn} (href : calls.object_to_string target = .error ex) :
    ∃ channelName, (WriteBlock.output p).run calls
      = ⟨pathText (keyPath channelName p.kind p.toProxy.oid), some ex⟩ := by
  obtain ⟨channelName, hkey⟩ := keyCalls_of_hasKey hkey
  refine ⟨channelName, ?_⟩
  have hblock : ∀ key : Str,
      Block.send key (Proxy.targetBlock calls (some target)) = ⟨key, some ex⟩ := by
    intro key
    rw [Proxy.targetBlock, href, Block.call_error, Block.send, List.append_nil]
  cases p with
  | pushSupplier p => cases htarget
  | pullConsumer p =>
      have heq : p.target = some target := htarget
      refine (Proxy.keyOutputBlock_of_ok hkey _).trans ?_
      rw [heq]
      exact hblock _
  | pullSupplier p =>
      have heq : p.target = some target := htarget
      refine (Proxy.keyOutputBlock_of_ok hkey _).trans ?_
      rw [heq]
      exact hblock _

end Calls

/-! ### The blocks and the records -/

section Records

variable (orb : Orb Ref) (channelName : Str)

theorem connection_run (c : Connection Ref) :
    (WriteBlock.connection c).run (orb.calls channelName) = (Written.mk [c.output] none).toBlock := by
  simp [WriteBlock.run, Connection.outputBlock, Connection.output, Written.toBlock, Block.send,
    Block.done, LogRecord.text, attrText, keyIOR]

theorem basicOutputRef_run (p : Proxy) (kind : ProxyKind) (target : Option Ref) :
    p.basicOutputRefBlock (orb.calls channelName) kind target
      = (p.basicOutputRef orb channelName kind target).toBlock := by
  cases h : p.active with
  | false =>
      rw [p.basicOutputRef_of_inactive orb channelName kind h]
      simp [Proxy.basicOutputRefBlock, Proxy.keyOutputBlock, Proxy.keyCalls, Proxy.keyOutput,
        Orb.calls, Except.bind, Written.toBlock, h]
  | true =>
      rw [p.basicOutputRef_of_active orb channelName kind h]
      cases target <;>
        simp [Proxy.basicOutputRefBlock, Proxy.keyOutputBlock, Proxy.keyCalls, Proxy.keyOutput,
          Proxy.targetBlock, Orb.calls, Except.bind, Except.map, Written.toBlock, Block.send,
          Block.done, LogRecord.text, attrText, keyIOR, h]

theorem basicOutput_run (p : Proxy) (kind : ProxyKind) (iorstr : Str)
    (extraAttributes : List (Str × Str)) :
    p.basicOutputBlock (orb.calls channelName) kind iorstr extraAttributes
      = (p.basicOutput channelName kind iorstr extraAttributes).toBlock := by
  cases h : p.active with
  | false =>
      rw [Proxy.basicOutput_of_inactive channelName kind h]
      simp [Proxy.basicOutputBlock, Proxy.keyOutputBlock, Proxy.keyCalls, Proxy.keyOutput,
        Orb.calls, Except.bind, Written.toBlock, h]
  | true =>
      rw [Proxy.basicOutput_of_active channelName kind h]
      simp [Proxy.basicOutputBlock, Proxy.keyOutputBlock, Proxy.keyCalls, Proxy.keyOutput,
        Orb.calls, Except.bind, Except.map, Written.toBlock, Block.send, Block.done,
        LogRecord.text, attrText, keyIOR, h]

/-- If the ORB does what it is asked, a block writes the records of the servant. -/
theorem output_run (p : Servant Ref) :
    (WriteBlock.output p).run (orb.calls channelName) = (p.output orb channelName).toBlock := by
  cases p with
  | pushSupplier p => exact basicOutput_run orb channelName ..
  | pullConsumer p => exact basicOutputRef_run orb channelName ..
  | pullSupplier p => exact basicOutputRef_run orb channelName ..

theorem eraseKey_run {p : Servant Ref} (h : p.toProxy.active = true) :
    (WriteBlock.eraseKey p).run (orb.calls channelName)
      = (Written.mk [.erase (keyPath channelName p.kind p.toProxy.oid)] none).toBlock := by
  simp [WriteBlock.run, Proxy.eraseKeyBlock, Proxy.keyOutputBlock, Proxy.keyCalls, Proxy.keyOutput,
    Orb.calls, Except.bind, Except.map, Written.toBlock, Block.send, Block.done, LogRecord.text, h]

end Records

/-! ## Whole records -/

/-- What a record leaves at a path depends on what was there, unless something is there afterwards. -/
theorem LogEntry.meaning_congr_or {f g : LogEntry.Paths} {q : List Str} (h : f q = g q ∨ f q ≠ none)
    (e : LogEntry) :
    LogEntry.meaning f e q = LogEntry.meaning g e q ∨ LogEntry.meaning f e q ≠ none := by
  cases e with
  | add path attrs =>
      simp only [LogEntry.meaning, PathMap.set]
      split
      · exact Or.inl rfl
      · split
        · exact Or.inl rfl
        · split
          · exact Or.inr (Option.some_ne_none _)
          · exact h
  | erase path =>
      simp only [LogEntry.meaning, PathMap.remove]
      split
      · exact Or.inl rfl
      · exact h

theorem LogEntry.foldl_meaning_congr_or (entries : List LogEntry) {f g : LogEntry.Paths}
    {q : List Str} (h : f q = g q ∨ f q ≠ none) :
    entries.foldl LogEntry.meaning f q = entries.foldl LogEntry.meaning g q ∨
      entries.foldl LogEntry.meaning f q ≠ none := by
  induction entries generalizing f g with
  | nil => exact h
  | cons e entries ih => exact ih (LogEntry.meaning_congr_or h e)

/-- What starts with a key cannot go unseen. In the log of nothing it leaves the node of the factory,
    unless a later record sets or deletes that node, and so in every log. -/
theorem exists_seen {entries : List LogEntry} {rest : Str}
    (h : CompleteLog entries ("ecf/".toList ++ rest)) :
    ∃ entries' log, CompleteLog entries' log ∧
      PersistNode.parse (log ++ ("ecf/".toList ++ rest)) ≠ PersistNode.parse log := by
  by_contra hall
  have hunseen : ∀ entries' log, CompleteLog entries' log →
      PersistNode.parse (log ++ ("ecf/".toList ++ rest)) = PersistNode.parse log := by
    intro entries' log hlog
    by_contra hne
    exact hall ⟨entries', log, hlog, hne⟩
  obtain ⟨v, ts, hwords⟩ : ∃ v ts, entries.flatMap LogEntry.words = ("ecf/".toList ++ v) :: ts :=
    h.spells.head_word ⟨by decide, by decide, by decide⟩
  obtain ⟨attrs, es, rfl⟩ : ∃ attrs es, entries = .add ("ecf/".toList ++ v) attrs :: es := by
    cases entries with
    | nil => cases hwords
    | cons e es =>
        cases e with
        | add path attrs => exact ⟨attrs, es, by cases hwords; rfl⟩
        | erase path => cases hwords
  have hnil : CompleteLog [] [] := ⟨by simp, .nil, IStream.endsLine_nil⟩
  have hempty := hnil.attrsAt_append h
  rw [hunseen _ _ hnil, hnil.attrsAt] at hempty
  have hfactory := LogEntry.completeLog_factoryLog.attrsAt_append h
  rw [hunseen _ _ LogEntry.completeLog_factoryLog, LogEntry.completeLog_factoryLog.attrsAt]
    at hfactory
  rw [List.foldl_cons] at hempty hfactory
  have hfirst : LogEntry.meaning (LogEntry.reference []) (.add ("ecf/".toList ++ v) attrs)
      [LogRecord.ecf] ≠ none := by
    have hpath : PersistNode.components ("ecf/".toList ++ v)
        = LogRecord.ecf :: PersistNode.components v :=
      PersistNode.components_branch v (by decide : '/' ∉ LogRecord.ecf)
    rw [LogEntry.meaning, hpath, PathMap.set_above (by simp)
      (by simpa using PersistNode.components_ne_nil v)]
    exact Option.some_ne_none _
  have hend := LogEntry.foldl_meaning_congr_or (g := LogEntry.meaning
    (LogEntry.reference [.add LogRecord.ecf ["port=11169".toList]]) (.add ("ecf/".toList ++ v) attrs))
    es (Or.inr hfirst)
  rw [← hempty, ← hfactory] at hend
  rcases hend with heq | hne
  · revert heq
    decide
  · exact hne rfl

theorem allOrNothing_of_raised {b : Block} (h : b.raised = none) : AllOrNothing b :=
  ⟨fun hraised => absurd h hraised, fun hraised => absurd h hraised⟩

theorem allOrNothing_nil (raised : Option Exn) : AllOrNothing ⟨[], raised⟩ where
  complete := fun _ => ⟨[], by simp, .nil, IStream.endsLine_nil⟩
  unseen := fun _ entries log entries' later _ _ => by rw [List.append_nil]

theorem not_allOrNothing_minus (ex : Exn) : ¬ AllOrNothing ⟨['-'], some ex⟩ := by
  intro h
  obtain ⟨entries, hentries⟩ := h.complete nofun
  exact absurd (hentries.endsLine '-' rfl) (by decide)

/-- What is left of a record is the key, or more if the object id has white space. -/
theorem not_allOrNothing_key (channelName oid : Str) (kind : ProxyKind) (ex : Exn) :
    ¬ AllOrNothing ⟨pathText (keyPath channelName kind oid), some ex⟩ := by
  intro h
  obtain ⟨entries, hentries⟩ := h.complete nofun
  have hkey : pathText (keyPath channelName kind oid)
      = "ecf/".toList ++ pathText [channelName, kind.admin, kind.name, oid] := by
    rw [keyPath, LogRecord.pathText_cons _ (by simp)]
    rfl
  change CompleteLog entries (pathText (keyPath channelName kind oid)) at hentries
  have hunseen := h.unseen nofun
  simp only [hkey] at hentries hunseen
  obtain ⟨entries', log, hlog, hne⟩ := exists_seen hentries
  refine hne ?_
  have hlater : CompleteLog [] [] := ⟨by simp, .nil, IStream.endsLine_nil⟩
  simpa using hunseen entries' log [] [] hlog hlater

/-- **A failed block writes all or nothing** if and only if no call raises after a piece has been sent:
    for `eraseKey` the servant must be active and the calls of `keyOutput` go well, and the reference
    of a pull proxy must go into a string. -/
theorem allOrNothing_iff (calls : OrbCalls Ref) (b : WriteBlock Ref) :
    AllOrNothing (b.run calls) ↔ b.Guarded calls := by
  cases b with
  | eraseKey p =>
      by_cases hkey : p.HasKey calls
      · exact iff_of_true (allOrNothing_of_raised (eraseKey_of_hasKey hkey)) hkey
      · obtain ⟨ex, hrun⟩ := eraseKey_of_not_hasKey hkey
        rw [hrun]
        exact iff_of_false (not_allOrNothing_minus ex) hkey
  | output p =>
      by_cases hkey : p.HasKey calls
      · by_cases href : ∀ target ∈ p.outputRef, ∃ iorstr,
            calls.object_to_string target = .ok iorstr
        · exact iff_of_true (allOrNothing_of_raised (raised_of_output hkey href)) fun _ => href
        · refine iff_of_false ?_ fun hguarded => href (hguarded hkey)
          push Not at href
          obtain ⟨target, htarget, hior⟩ := href
          cases hraised : calls.object_to_string target with
          | ok iorstr => exact absurd hraised (hior iorstr)
          | error ex =>
              obtain ⟨channelName, hrun⟩ := output_of_error hkey htarget hraised
              rw [hrun]
              exact not_allOrNothing_key channelName _ _ ex
      · obtain ⟨ex, hrun⟩ := output_of_not_hasKey hkey
        rw [hrun]
        exact iff_of_true (allOrNothing_nil _) fun h => absurd h hkey
  | connection c => exact iff_of_true (allOrNothing_of_raised rfl) trivial

/-- A connected push supplier. -/
def pushingSupplier (oid : Str) : ProxyPushSupplier Str :=
  let fresh : ProxyPushSupplier Str := .new oid true
  { fresh with target := some ['x'], target_sior := ['x'] }

/-- One whose disconnect has got as far as its deactivation, when its request fails. -/
def disconnectedSupplier : Servant Str := .deactivateObject (.pushSupplier (pushingSupplier ['1']))

/-- One that has just been connected. -/
def newSupplier : Servant Str := .pushSupplier (pushingSupplier ['2'])

/-- `trigger` calls `eraseKey` for a servant that is not active any more, and the record of the next
    connection is taken for a deletion. -/
theorem stray_minus :
    (WriteBlock.eraseKey disconnectedSupplier).run (stringOrb.calls ['a'])
      = ⟨['-'], some .ServantNotActive⟩ ∧
    (PersistNode.parse (LogEntry.factoryLog ++
        ((WriteBlock.output newSupplier).run (stringOrb.calls ['a'])).text)).attrsAt
      (keyPath ['a'] .ProxyPushSupplier ['2']) = some [(keyIOR, ['x'])] ∧
    (PersistNode.parse (LogEntry.factoryLog ++
        ((WriteBlock.eraseKey disconnectedSupplier).run (stringOrb.calls ['a'])).text ++
        ((WriteBlock.output newSupplier).run (stringOrb.calls ['a'])).text)).attrsAt
      (keyPath ['a'] .ProxyPushSupplier ['2']) = none ∧
    ¬ ∀ (calls : OrbCalls Str) (b : WriteBlock Str), AllOrNothing (b.run calls) := by
  refine ⟨rfl, by decide, by decide, ?_⟩
  intro hall
  exact not_allOrNothing_minus .ServantNotActive
    (hall (stringOrb.calls ['a']) (.eraseKey disconnectedSupplier))

/-! ## A run of blocks -/

theorem completeLog_blocks {blocks : List Block}
    (h : ∀ b ∈ blocks, ∃ entries, CompleteLog entries b.text) :
    ∃ entries, CompleteLog entries (blocks.flatMap Block.text) := by
  induction blocks with
  | nil => exact ⟨[], by simp, .nil, IStream.endsLine_nil⟩
  | cons b blocks ih =>
      obtain ⟨⟨entries, hb⟩, hblocks⟩ := List.forall_mem_cons.1 h
      obtain ⟨entries', hentries'⟩ := ih hblocks
      exact ⟨entries ++ entries', hb.append hentries'⟩

/-- A log is replayed as if the blocks that failed had not run, whoever ran them. -/
theorem parse_blocks {blocks : List Block} (h : ∀ b ∈ blocks, AllOrNothing b)
    (hok : ∀ b ∈ blocks, b.raised = none → ∃ entries, CompleteLog entries b.text)
    {entries : List LogEntry} {log : Str} (hlog : CompleteLog entries log) :
    PersistNode.parse (log ++ blocks.flatMap Block.text)
      = PersistNode.parse (log ++ (blocks.filter (·.raised.isNone)).flatMap Block.text) := by
  induction blocks generalizing entries log with
  | nil => rfl
  | cons b blocks ih =>
      obtain ⟨hb, hblocks⟩ := List.forall_mem_cons.1 h
      obtain ⟨hokb, hokblocks⟩ := List.forall_mem_cons.1 hok
      cases hraised : b.raised with
      | none =>
          obtain ⟨bentries, hbentries⟩ := hokb hraised
          have hrest := ih hblocks hokblocks (hlog.append hbentries)
          simpa [hraised] using hrest
      | some ex =>
          obtain ⟨later, hlater⟩ := @completeLog_blocks blocks fun b hb => by
            by_cases hnone : b.raised = none
            · exact hokblocks b hb hnone
            · exact (hblocks b hb).complete hnone
          rw [List.flatMap_cons, ← List.append_assoc,
            hb.unseen (by rw [hraised]; nofun) _ _ _ _ hlog hlater, ih hblocks hokblocks hlog]
          simp [hraised]

end OmniEvents
