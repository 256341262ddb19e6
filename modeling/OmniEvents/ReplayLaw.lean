import OmniEvents.Lib.Layout
import OmniEvents.Accepted

set_option autoImplicit false

/-! # What a log means

`LogEntry` is a record as anybody may have written it: a path, attribute words, and `;;`, or a deletion,
with any white space and any comments between the words. What a sequence of such records means is
said without the parser, on a map from paths to attributes (`reference`). The tree that is parsed
from the text has this map (`replay_reference`). The one limit is that the parser drops at most
`INT_MAX` characters of a comment. -/

namespace OmniEvents

open PersistNode (components splitAttr endMark intMax ReadState)
open LogRecord (attrMap)

/-- A complete entry of a log, as words. -/
inductive LogEntry where
  /-- `path attrs ;;`. -/
  | add (path : Str) (attrs : List Str)
  /-- `-path`. -/
  | erase (path : Str)
  deriving DecidableEq, Repr

namespace LogEntry

/-- The words of an entry. -/
def words : LogEntry → List Str
  | add path attrs => path :: (attrs ++ [endMark])
  | erase path => ['-' :: path]

/-- The path, split at each `/`. -/
def path : LogEntry → List Str
  | add path _ => components path
  | erase path => components path

/-- No word of the record is taken for something else. -/
def WellFormed : LogEntry → Prop
  | add path attrs => IStream.IsWord '#' path ∧ path.head? ≠ some '-' ∧ path ≠ endMark ∧
      ∀ t ∈ attrs, IStream.IsWord '#' t ∧ t ≠ endMark
  | erase path => ∀ c ∈ path, isSpace c = false

/-! ## The reference -/

/-- A set of paths with attribute maps. -/
abbrev Paths : Type := List Str → Option (List (Str × Str))

/-- The root alone. -/
def rootOnly : Paths := fun q => if q = [] then some [] else none

/-- An addition replaces everything at or below its path, and creates missing ancestors without
    attributes; a deletion removes everything at or below its path. -/
def meaning (f : Paths) : LogEntry → Paths
  | add path attrs => PathMap.set [] (components path) (attrMap (attrs.map splitAttr)) f
  | erase path => PathMap.remove (components path) f

/-- What a log means, entry by entry, whatever was there before. -/
def reference (entries : List LogEntry) : Paths := entries.foldl meaning rootOnly

/-- A text that spells the records; `ok` is asked of every comment. -/
def Spells (ok : Str → Prop) (entries : List LogEntry) (text : Str) : Prop :=
  IStream.Layout '#' ok (entries.flatMap words) text

/-- A comment whose end the parser gets to. -/
abbrev ShortComment : Str → Prop := IStream.Short intMax

/-! ## The parser -/

/-- The tree after one record. -/
def apply (n : PersistNode) : LogEntry → PersistNode
  | add path attrs =>
      attrs.foldl (fun n t => n.modifyAt (·.addattr t) (components path)) (n.addnode path)
  | erase path => n.delnode path

theorem read_attrs {attrs : List Str} (h : ∀ t ∈ attrs, t ≠ endMark) (root : PersistNode)
    (path : List Str) (ts : List Str) :
    ReadState.read ⟨root, some path⟩ (attrs ++ endMark :: ts)
      = ReadState.read ⟨attrs.foldl (fun n t => n.modifyAt (·.addattr t) path) root, none⟩ ts := by
  induction attrs generalizing root with
  | nil => simp [ReadState.read]
  | cons t attrs ih =>
      obtain ⟨ht, hattrs⟩ := List.forall_mem_cons.1 h
      rw [List.cons_append, ReadState.read, if_neg ht, ih hattrs]
      rfl

theorem read_words {e : LogEntry} (h : e.WellFormed) (root : PersistNode) (ts : List Str) :
    ReadState.read ⟨root, none⟩ (e.words ++ ts) = ReadState.read ⟨apply root e, none⟩ ts := by
  cases e with
  | add path attrs =>
      obtain ⟨-, hdash, hmark, hattrs⟩ := h
      rw [words, List.cons_append, ReadState.read, if_neg hmark, if_neg hdash, List.append_assoc]
      exact read_attrs (fun t ht => (hattrs t ht).2) _ _ ts
  | erase path =>
      have hmark : '-' :: path ≠ endMark := by simp [endMark]
      rw [words, List.cons_append, List.nil_append, ReadState.read, if_neg hmark]
      simp [apply]

theorem read_entries {entries : List LogEntry} (h : ∀ e ∈ entries, e.WellFormed)
    (root : PersistNode) (ts : List Str) :
    ReadState.read ⟨root, none⟩ (entries.flatMap words ++ ts)
      = ReadState.read ⟨entries.foldl apply root, none⟩ ts := by
  induction entries generalizing root with
  | nil => rfl
  | cons e entries ih =>
      obtain ⟨he, hentries⟩ := List.forall_mem_cons.1 h
      rw [List.flatMap_cons, List.append_assoc, read_words he, ih hentries, List.foldl_cons]

theorem parse_of_spells {entries : List LogEntry} {text : Str}
    (h : ∀ e ∈ entries, e.WellFormed) (htext : Spells ShortComment entries text) :
    PersistNode.parse text = entries.foldl apply PersistNode.empty := by
  have hwords : PersistNode.logWords text = entries.flatMap words :=
    IStream.words_of_layout (by decide) htext
  have hread := read_entries h PersistNode.empty []
  rw [List.append_nil, ReadState.read] at hread
  rw [PersistNode.parse_eq (by rw [hwords, hread]), hwords, hread]

/-! ## The tree has the map of the reference -/

theorem attrsAt_addattrs (attrs : List Str) (n : PersistNode) (p q : List Str) :
    (attrs.foldl (fun n t => n.modifyAt (·.addattr t) p) n).attrsAt q
      = if q = p then (n.attrsAt p).map (fun m =>
          (attrs.map splitAttr).foldl (fun m kv => OrdMap.insert kv.1 kv.2 m) m)
        else n.attrsAt q := by
  induction attrs generalizing n with
  | nil =>
      split
      · next hq => subst hq; simp
      · rfl
  | cons t attrs ih =>
      rw [List.foldl_cons, ih, PersistNode.attrsAt_addattr, PersistNode.attrsAt_addattr,
        if_pos rfl]
      split
      · rw [Option.map_map]
        rfl
      · rfl

theorem attrsAt_apply (n : PersistNode) (e : LogEntry) : (apply n e).attrsAt = meaning n.attrsAt e := by
  cases e with
  | add path attrs =>
      funext q
      rw [apply, attrsAt_addattrs, PersistNode.addnode,
        PersistNode.attrsAt_addPath (PersistNode.components_ne_nil path), PathMap.set_self,
        Option.map_some, meaning]
      -- the attributes are added to the node of the path alone
      by_cases hq : q = components path
      · rw [if_pos hq, hq, PathMap.set_self, attrMap]
      · simp only [if_neg hq, PathMap.set]
  | erase path =>
      rw [apply, PersistNode.delnode, PersistNode.attrsAt_delPath (PersistNode.components_ne_nil path),
        meaning]

theorem attrsAt_foldl (entries : List LogEntry) (n : PersistNode) :
    (entries.foldl apply n).attrsAt = entries.foldl meaning n.attrsAt := by
  induction entries generalizing n with
  | nil => rfl
  | cons e entries ih => rw [List.foldl_cons, ih, attrsAt_apply, List.foldl_cons]

theorem attrsAt_empty : PersistNode.empty.attrsAt = rootOnly := by
  funext q
  cases q <;> rfl

/-- The tree parsed from a text that spells the records. -/
theorem attrsAt_parse {entries : List LogEntry} {text : Str} (h : ∀ e ∈ entries, e.WellFormed)
    (htext : Spells ShortComment entries text) :
    (PersistNode.parse text).attrsAt = reference entries := by
  rw [parse_of_spells h htext, attrsAt_foldl, attrsAt_empty, reference]

/-! ## Records that commute

Two records at paths of which neither is above the other can be exchanged. A path that is above the
other cannot, since a `-` takes what is below. -/

theorem meaning_comm {e e' : LogEntry} (h : ¬ e.path <+: e'.path) (h' : ¬ e'.path <+: e.path)
    (f : Paths) : meaning (meaning f e) e' = meaning (meaning f e') e := by
  cases e with
  | add p as =>
      cases e' with
      | add p' as' => exact PathMap.set_comm h' h
      | erase p' => exact (PathMap.set_remove_comm h h').symm
  | erase p =>
      cases e' with
      | add p' as' => exact PathMap.set_remove_comm h' h
      | erase p' => exact PathMap.remove_comm _ _

theorem reference_comm {pre post : List LogEntry} {e e' : LogEntry} (h : ¬ e.path <+: e'.path)
    (h' : ¬ e'.path <+: e.path) :
    reference (pre ++ e :: e' :: post) = reference (pre ++ e' :: e :: post) := by
  simp only [reference, List.foldl_append, List.foldl_cons]
  rw [meaning_comm h h']

/-- **Replay is the reference.** The tree parsed from a text of complete records is sorted and has the
    map of paths that the records mean, and two neighbouring records of which neither path is above
    the other may change places. -/
theorem replay_reference {entries : List LogEntry} {text : Str} (h : ∀ e ∈ entries, e.WellFormed)
    (htext : Spells ShortComment entries text) :
    (PersistNode.parse text).Sorted ∧ (PersistNode.parse text).attrsAt = reference entries ∧
      ∀ pre e e' post text', entries = pre ++ e :: e' :: post → ¬ e.path <+: e'.path →
        ¬ e'.path <+: e.path → Spells ShortComment (pre ++ e' :: e :: post) text' →
        PersistNode.parse text' = PersistNode.parse text := by
  refine ⟨PersistNode.sorted_parse text, attrsAt_parse h htext, ?_⟩
  rintro pre e e' post text' rfl hpath hpath' htext'
  have hswapped : ∀ d ∈ pre ++ e' :: e :: post, d.WellFormed := fun d hd => by
    refine h d ?_
    simp only [List.mem_append, List.mem_cons] at hd ⊢
    tauto
  refine (PersistNode.sorted_parse text').ext (PersistNode.sorted_parse text) ?_
  rw [attrsAt_parse hswapped htext', attrsAt_parse h htext, reference_comm hpath hpath']

/-- An addition, a comment and a deletion without a trailing newline. -/
theorem replay_reference_example :
    (PersistNode.parse "a/b k=v ;;  # -a\n -a/c".toList).attrsAt
      = reference [.add "a/b".toList ["k=v".toList], .erase "a/c".toList] := by
  have htext : Spells ShortComment [.add "a/b".toList ["k=v".toList], .erase "a/c".toList]
      "a/b k=v ;;  # -a\n -a/c".toList := by
    have hlast : IStream.Layout '#' ShortComment ["-a/c".toList] "-a/c".toList :=
      .word ⟨by decide, by decide, by decide⟩ (by simp [IStream.Separated]) .nil
    have hcomment : IStream.Layout '#' ShortComment ["-a/c".toList] "# -a\n -a/c".toList :=
      .comment (by decide : '\n' ∉ " -a".toList) (by decide) (.space (by decide) hlast)
    exact .wordSpace ⟨by decide, by decide, by decide⟩ (by decide)
      (.wordSpace ⟨by decide, by decide, by decide⟩ (by decide)
        (.wordSpace (w := endMark) ⟨by decide, by decide, by decide⟩ (by decide)
          (.space (by decide) hcomment)))
  refine (replay_reference ?_ htext).2.1
  simp only [List.forall_mem_cons]
  refine ⟨⟨⟨by decide, by decide, by decide⟩, by decide, by decide, ?_⟩, ?_, by simp⟩
  · simp only [List.forall_mem_cons]
    exact ⟨⟨⟨by decide, by decide, by decide⟩, by decide⟩, by simp⟩
  · exact (by decide : ∀ c ∈ "a/c".toList, isSpace c = false)

/-- A comment of more than `INT_MAX` characters. -/
def longComment : Str := '#' :: ((List.replicate intMax ' ' ++ "x ;;".toList) ++ ['\n'])

/-- What stands beyond `INT_MAX` characters of a comment is read as a record. -/
theorem long_comment : Spells (fun _ => True) [] longComment ∧
    (PersistNode.parse longComment).attrsAt [['x']] ≠ reference [] [['x']] := by
  have hline : '\n' ∉ List.replicate intMax ' ' ++ "x ;;".toList := by
    simp only [List.mem_append, List.mem_replicate]
    decide
  have hlast : IStream.Layout '#' ShortComment [['x'], endMark] "x ;;\n".toList :=
    .wordSpace ⟨by decide, by decide, by decide⟩ (by decide)
      (.wordSpace (w := endMark) ⟨by decide, by decide, by decide⟩ (by decide) .nil)
  refine ⟨.comment hline trivial .nil, ?_⟩
  have hwords : PersistNode.logWords longComment = [['x'], endMark] := by
    rw [longComment, List.append_assoc, PersistNode.logWords,
      IStream.words_long_comment (by decide) (by decide)]
    exact IStream.words_of_layout (by decide) hlast
  have hread : ReadState.read ⟨PersistNode.empty, none⟩ [['x'], endMark]
      = ⟨PersistNode.empty.addnode ['x'], none⟩ := by rfl
  rw [PersistNode.parse_eq (by rw [hwords, hread]), hwords, hread]
  decide

/-! ## Appending to a log -/

/-- A text of complete records and complete lines. -/
structure CompleteLog (entries : List LogEntry) (text : Str) : Prop where
  wellFormed : ∀ e ∈ entries, e.WellFormed
  spells : Spells ShortComment entries text
  endsLine : IStream.EndsLine text

theorem CompleteLog.append {entries entries' : List LogEntry} {text text' : Str}
    (h : CompleteLog entries text) (h' : CompleteLog entries' text') :
    CompleteLog (entries ++ entries') (text ++ text') := by
  refine ⟨List.forall_mem_append.2 ⟨h.wellFormed, h'.wellFormed⟩, ?_, h.endsLine.append h'.endsLine⟩
  rw [Spells, List.flatMap_append]
  exact h.spells.append h.endsLine (by decide) h'.spells

theorem CompleteLog.attrsAt {entries : List LogEntry} {text : Str} (h : CompleteLog entries text) :
    (PersistNode.parse text).attrsAt = reference entries :=
  attrsAt_parse h.wellFormed h.spells

/-- Appending to a log applies the records that are appended. -/
theorem CompleteLog.attrsAt_append {entries entries' : List LogEntry} {text text' : Str}
    (h : CompleteLog entries text) (h' : CompleteLog entries' text') :
    (PersistNode.parse (text ++ text')).attrsAt
      = entries'.foldl meaning (PersistNode.parse text).attrsAt := by
  rw [(h.append h').attrsAt, h.attrsAt, reference, List.foldl_append, reference]

/-- A log with the record of the factory. -/
def factoryLog : Str := "ecf port=11169 ;;\n".toList

theorem completeLog_factoryLog :
    CompleteLog [.add LogRecord.ecf ["port=11169".toList]] factoryLog := by
  refine ⟨List.forall_mem_singleton.2 ⟨⟨by decide, by decide, by decide⟩, by decide, by decide, ?_⟩,
    ?_, IStream.endsLine_concat "ecf port=11169 ;;".toList⟩
  · exact List.forall_mem_singleton.2 ⟨⟨by decide, by decide, by decide⟩, by decide⟩
  · exact .wordSpace ⟨by decide, by decide, by decide⟩ (by decide)
      (.wordSpace ⟨by decide, by decide, by decide⟩ (by decide)
        (.wordSpace (w := endMark) ⟨by decide, by decide, by decide⟩ (by decide) .nil))

end LogEntry

end OmniEvents
