import OmniEvents.Lib.Layout
import OmniEvents.Replay

set_option autoImplicit false

/-! # Log records

Everything that the server writes to its log is a sequence of three kinds of record: the one-line
record of a proxy or of the factory (`Proxy::basicOutput`, `Connection::output`,
`EventChannelFactory_i::output`), the record of a channel with one attribute on each line
(`PersistNode::output`), and the deletion of a path (`Proxy::eraseKey` and the like). `LogRecord.text`
is what is written and `LogRecord.apply` is what the parser makes of it; `replay_text` says that
parsing the text of a log applies its records in order, and `attrsAt_apply` what one record does to
the map from paths to attributes. -/

namespace OmniEvents

/-- What is written to the log by one call. -/
inductive LogRecord where
  /-- `path k=v … ;;` on one line. -/
  | entry (path : List Str) (attrs : List (Str × Str))
  /-- The same over several lines. -/
  | block (path : List Str) (attrs : List (Str × Str))
  /-- `-path`. -/
  | erase (path : List Str)
  deriving DecidableEq, Repr

namespace LogRecord

open PersistNode

/-! ## Text -/

/-- The path of a node, as `output` writes it. -/
def pathText (path : List Str) : Str := ['/'].intercalate path

/-- An attribute, as `output` writes it. -/
def attrText (kv : Str × Str) : Str := kv.1 ++ '=' :: kv.2

/-- The characters written for a record. -/
def text : LogRecord → Str
  | entry path attrs =>
      pathText path ++ (attrs.flatMap (fun kv => ' ' :: attrText kv) ++ [' ', ';', ';', '\n'])
  | block path attrs =>
      pathText path ++ '\n' ::
        (attrs.flatMap (fun kv => ' ' :: (attrText kv ++ ['\n'])) ++ [' ', ';', ';', '\n'])
  | erase path => '-' :: (pathText path ++ ['\n'])

/-- The node that the record is about. -/
def path : LogRecord → List Str
  | entry path _ => path
  | block path _ => path
  | erase path => path

/-- The tree after reading one record. -/
def apply (n : PersistNode) : LogRecord → PersistNode
  | entry path attrs =>
      attrs.foldl (fun n kv => n.modifyAt (·.addattr (attrText kv)) path) (n.addPath path)
  | block path attrs =>
      attrs.foldl (fun n kv => n.modifyAt (·.addattr (attrText kv)) path) (n.addPath path)
  | erase path => n.delPath path

/-- The tree that a log describes. -/
def replay (log : List LogRecord) : PersistNode := log.foldl apply PersistNode.empty

@[simp] theorem replay_nil : replay [] = PersistNode.empty := rfl

theorem replay_append (log : List LogRecord) (r : LogRecord) :
    replay (log ++ [r]) = apply (replay log) r := by
  simp [replay]

/-! ## Records that survive being read back

The parser splits the text at white space, a path at `/` and an attribute at its first `=`, and it
passes over comments. What is asked of names and attributes follows from that. -/

/-- The first component of every path: the factory. -/
def ecf : Str := ['e', 'c', 'f']

/-- A path component: no `/`, no white space. -/
def CleanName (s : Str) : Prop := ∀ c ∈ s, c ≠ '/' ∧ isSpace c = false

/-- An attribute: no white space, and a key that is not a comment and holds no `=`. -/
structure CleanAttr (kv : Str × Str) : Prop where
  key : ∀ c ∈ kv.1, c ≠ '=' ∧ isSpace c = false
  value : ∀ c ∈ kv.2, isSpace c = false
  notComment : kv.1.head? ≠ some '#'

/-- A path that the parser reads back: it begins with `ecf`, and its names have no `/` and no white
    space. -/
structure CleanPath (path : List Str) : Prop where
  head : path.head? = some ecf
  names : ∀ s ∈ path, CleanName s

/-- Records that the parser reads back as they were written. -/
def Clean : LogRecord → Prop
  | entry path attrs => CleanPath path ∧ ∀ kv ∈ attrs, CleanAttr kv
  | block path attrs => CleanPath path ∧ ∀ kv ∈ attrs, CleanAttr kv
  | erase path => CleanPath path

theorem CleanPath.ne_nil {path : List Str} (h : CleanPath path) : path ≠ [] := by
  rintro rfl
  simpa using h.head

theorem components_pathText {path : List Str} (h : ∀ s ∈ path, CleanName s) (hne : path ≠ []) :
    PersistNode.components (pathText path) = path :=
  List.splitOn_intercalate '/' (fun s hs hmem => (h s hs _ hmem).1 rfl) hne

theorem CleanPath.components {path : List Str} (h : CleanPath path) :
    PersistNode.components (pathText path) = path :=
  components_pathText h.names h.ne_nil

theorem pathText_cons (s : Str) {path : List Str} (h : path ≠ []) :
    pathText (s :: path) = s ++ '/' :: pathText path := by
  obtain ⟨t, path, rfl⟩ := List.exists_cons_of_ne_nil h
  simp [pathText, List.intercalate_cons_cons]

theorem isSpace_pathText {path : List Str} (h : ∀ s ∈ path, CleanName s) :
    ∀ c ∈ pathText path, isSpace c = false := by
  induction path with
  | nil => simp [pathText]
  | cons s path ih =>
      intro c hc
      have hs : ∀ c ∈ s, isSpace c = false := fun c hc => (h s (List.mem_cons_self ..) c hc).2
      by_cases hpath : path = []
      · subst hpath
        exact hs c (by simpa [pathText] using hc)
      · rw [pathText_cons s hpath, List.mem_append, List.mem_cons] at hc
        rcases hc with hc | rfl | hc
        · exact hs c hc
        · rfl
        · exact ih (fun t ht => h t (List.mem_cons_of_mem _ ht)) c hc

theorem CleanPath.head_pathText {path : List Str} (h : CleanPath path) :
    (pathText path).head? = some 'e' := by
  obtain ⟨s, path, rfl⟩ := List.exists_cons_of_ne_nil h.ne_nil
  have hs : s = ecf := by simpa using h.head
  subst hs
  by_cases hpath : path = []
  · subst hpath
    rfl
  · rw [pathText_cons _ hpath]
    rfl

theorem CleanPath.isWord {path : List Str} (h : CleanPath path) :
    IStream.IsWord '#' (pathText path) where
  ne_nil := by
    intro hnil
    have := h.head_pathText
    simp [hnil] at this
  noSpace := isSpace_pathText h.names
  notComment := by rw [h.head_pathText]; decide

theorem CleanPath.isWord_erase {path : List Str} (h : CleanPath path) :
    IStream.IsWord '#' ('-' :: pathText path) where
  ne_nil := by simp
  noSpace := List.forall_mem_cons.2 ⟨rfl, isSpace_pathText h.names⟩
  notComment := by simp

theorem CleanAttr.isWord {kv : Str × Str} (h : CleanAttr kv) : IStream.IsWord '#' (attrText kv) where
  ne_nil := by simp [attrText]
  noSpace := by
    intro c hc
    rw [attrText, List.mem_append, List.mem_cons] at hc
    rcases hc with hc | rfl | hc
    · exact (h.key c hc).2
    · rfl
    · exact h.value c hc
  notComment := by
    obtain ⟨k, v⟩ := kv
    cases k with
    | nil => simp [attrText]
    | cons c k => exact h.notComment

theorem CleanAttr.ne_endMark {kv : Str × Str} : attrText kv ≠ endMark := by
  intro h
  have hmem : '=' ∈ attrText kv := by simp [attrText]
  rw [h] at hmem
  revert hmem
  decide

/-- Reading an attribute back gives its key and its value. -/
theorem CleanAttr.splitAttr {kv : Str × Str} (h : CleanAttr kv) : splitAttr (attrText kv) = kv := by
  obtain ⟨k, v⟩ := kv
  have hk : ∀ c ∈ k, (fun c => decide (c ≠ '=')) c = true := fun c hc => by
    simpa using (h.key c hc).1
  simp only [PersistNode.splitAttr, attrText]
  rw [List.takeWhile_append_of_pos hk, List.dropWhile_append_of_pos hk]
  simp

/-! ## The words of a record -/

/-- The words that the parser finds in a record. -/
def words : LogRecord → List Str
  | entry path attrs => pathText path :: (attrs.map attrText ++ [endMark])
  | block path attrs => pathText path :: (attrs.map attrText ++ [endMark])
  | erase path => ['-' :: pathText path]

section Layout

variable {ok : Str → Prop}

theorem layout_endMark : IStream.Layout '#' ok [endMark] [' ', ';', ';', '\n'] :=
  .space (by decide) (.wordSpace (w := endMark) ⟨by decide, by decide, by decide⟩ (by decide) .nil)

theorem layout_entryAttrs {attrs : List (Str × Str)} (h : ∀ kv ∈ attrs, CleanAttr kv) :
    IStream.Layout '#' ok (attrs.map attrText ++ [endMark])
        (attrs.flatMap (fun kv => ' ' :: attrText kv) ++ [' ', ';', ';', '\n']) ∧
      IStream.Separated
        (attrs.flatMap (fun kv => ' ' :: attrText kv) ++ [' ', ';', ';', '\n']) := by
  induction attrs with
  | nil => exact ⟨layout_endMark, IStream.separated_cons (by decide)⟩
  | cons kv attrs ih =>
      obtain ⟨hkv, hattrs⟩ := List.forall_mem_cons.1 h
      obtain ⟨hlayout, hsep⟩ := ih hattrs
      simp only [List.flatMap_cons, List.cons_append, List.append_assoc, List.map_cons]
      exact ⟨.space (by decide) (.word hkv.isWord hsep hlayout), IStream.separated_cons (by decide)⟩

theorem layout_blockAttrs {attrs : List (Str × Str)} (h : ∀ kv ∈ attrs, CleanAttr kv) :
    IStream.Layout '#' ok (attrs.map attrText ++ [endMark])
      (attrs.flatMap (fun kv => ' ' :: (attrText kv ++ ['\n'])) ++ [' ', ';', ';', '\n']) := by
  induction attrs with
  | nil => exact layout_endMark
  | cons kv attrs ih =>
      obtain ⟨hkv, hattrs⟩ := List.forall_mem_cons.1 h
      simp only [List.flatMap_cons, List.cons_append, List.append_assoc, List.nil_append,
        List.map_cons]
      exact .space (by decide) (.wordSpace hkv.isWord (by decide) (ih hattrs))

/-- The text of a record spells its words. -/
theorem layout_text {r : LogRecord} (h : r.Clean) : IStream.Layout '#' ok r.words r.text := by
  cases r with
  | entry path attrs =>
      obtain ⟨hlayout, hsep⟩ := layout_entryAttrs h.2
      exact .word h.1.isWord hsep hlayout
  | block path attrs => exact .wordSpace h.1.isWord (by decide) (layout_blockAttrs h.2)
  | erase path =>
      rw [text, ← List.cons_append]
      exact .wordSpace (CleanPath.isWord_erase h) (by decide) .nil

theorem endsLine_text (r : LogRecord) : IStream.EndsLine r.text := by
  have hmark : IStream.EndsLine [' ', ';', ';', '\n'] := IStream.endsLine_concat [' ', ';', ';']
  cases r with
  | entry path attrs =>
      rw [text, ← List.append_assoc]
      exact hmark.append_left (by simp) _
  | block path attrs =>
      rw [text, ← List.cons_append, ← List.append_assoc]
      exact hmark.append_left (by simp) _
  | erase path => exact IStream.endsLine_concat ('-' :: pathText path)

end Layout

/-- The parser sees the words of a record, and then those of the rest of the log. -/
theorem logWords_text {r : LogRecord} (h : r.Clean) (rest : Str) :
    logWords (r.text ++ rest) = r.words ++ logWords rest :=
  (layout_text h).words_append (by decide) (endsLine_text r) rest

/-! ## Replay -/

theorem read_attrs (attrs : List (Str × Str)) (root : PersistNode) (path : List Str)
    (ts : List Str) :
    ReadState.read ⟨root, some path⟩ (attrs.map attrText ++ endMark :: ts)
      = ReadState.read
          ⟨attrs.foldl (fun n kv => n.modifyAt (·.addattr (attrText kv)) path) root, none⟩ ts := by
  induction attrs generalizing root with
  | nil => simp [ReadState.read]
  | cons kv attrs ih =>
      rw [List.map_cons, List.cons_append, ReadState.read, if_neg CleanAttr.ne_endMark, ih]
      rfl

theorem read_path {root : PersistNode} {path : List Str} (h : CleanPath path) (ts : List Str) :
    ReadState.read ⟨root, none⟩ (pathText path :: ts)
      = ReadState.read ⟨root.addPath path, some path⟩ ts := by
  have hhead := h.head_pathText
  have hmark : pathText path ≠ endMark := by
    intro hmark
    rw [hmark] at hhead
    revert hhead
    decide
  have hdash : (pathText path).head? ≠ some '-' := by
    rw [hhead]
    decide
  rw [ReadState.read, if_neg hmark, if_neg hdash, addnode, h.components]

/-- One record takes the reader from one tree to the next, and leaves it between records. -/
theorem read_words {r : LogRecord} (h : r.Clean) (root : PersistNode) (ts : List Str) :
    ReadState.read ⟨root, none⟩ (r.words ++ ts) = ReadState.read ⟨apply root r, none⟩ ts := by
  cases r with
  | entry path attrs =>
      rw [words, List.cons_append, read_path h.1, List.append_assoc]
      exact read_attrs attrs _ path ts
  | block path attrs =>
      rw [words, List.cons_append, read_path h.1, List.append_assoc]
      exact read_attrs attrs _ path ts
  | erase path =>
      have hmark : '-' :: pathText path ≠ endMark := by simp [endMark]
      rw [words, List.cons_append, ReadState.read, if_neg hmark]
      simp only [List.head?_cons, if_true, List.tail_cons, List.nil_append]
      rw [delnode, CleanPath.components h, apply]

theorem read_log {log : List LogRecord} (h : ∀ r ∈ log, r.Clean) (root : PersistNode)
    (rest : Str) (hrest : logWords rest = []) :
    ReadState.read ⟨root, none⟩ (logWords (log.flatMap text ++ rest))
      = ⟨log.foldl apply root, none⟩ := by
  induction log generalizing root with
  | nil => rw [List.flatMap_nil, List.nil_append, hrest, ReadState.read]; rfl
  | cons r log ih =>
      obtain ⟨hr, hlog⟩ := List.forall_mem_cons.1 h
      rw [List.flatMap_cons, List.append_assoc, logWords_text hr, read_words hr, ih hlog,
        List.foldl_cons]

/-- **Replay.** The tree parsed from the text of a log, with any white space after it, is the one
    that its records describe. -/
theorem replay_text {log : List LogRecord} (h : ∀ r ∈ log, r.Clean) (ws : Str)
    (hws : ∀ c ∈ ws, isSpace c = true) : parse (log.flatMap text ++ ws) = replay log := by
  have hrest : logWords ws = [] := by
    have := @IStream.words_space_append '#' intMax _ hws []
    rwa [List.append_nil, IStream.words_nil] at this
  have hread := read_log h PersistNode.empty ws hrest
  rw [parse_eq (by rw [hread]), hread, replay]

example : parse "ecf port=11169 ;;\necf/a\n FilterId=x\n ;;\n-ecf/b\n\n".toList
    = replay [entry [ecf] [("port".toList, "11169".toList)],
        block [ecf, ['a']] [("FilterId".toList, ['x'])], erase [ecf, ['b']]] := by rfl

/-! ## Replay as updates of a map from paths

A log as a map from paths to attributes: a record puts its attributes at its path, with nothing
below it and with blank nodes above it where there were none, and a `-` takes away what is at its
path or below. The tree is forgotten. -/

/-- The attribute map built from a list of attributes. -/
def attrMap (attrs : List (Str × Str)) : List (Str × Str) :=
  attrs.foldl (fun m kv => OrdMap.insert kv.1 kv.2 m) []

/-- What a record does to the map from paths to attributes. -/
def update (f : List Str → Option (List (Str × Str))) :
    LogRecord → List Str → Option (List (Str × Str))
  | entry path attrs => PathMap.set [] path (attrMap attrs) f
  | block path attrs => PathMap.set [] path (attrMap attrs) f
  | erase path => PathMap.remove path f

theorem attrsAt_addattrs {attrs : List (Str × Str)} (h : ∀ kv ∈ attrs, CleanAttr kv)
    (n : PersistNode) (p q : List Str) :
    (attrs.foldl (fun n kv => n.modifyAt (·.addattr (attrText kv)) p) n).attrsAt q
      = if q = p then
          (n.attrsAt p).map (fun m => attrs.foldl (fun m kv => OrdMap.insert kv.1 kv.2 m) m)
        else n.attrsAt q := by
  induction attrs generalizing n with
  | nil =>
      split
      · next hq => subst hq; simp
      · rfl
  | cons kv attrs ih =>
      obtain ⟨hkv, hattrs⟩ := List.forall_mem_cons.1 h
      rw [List.foldl_cons, ih hattrs, attrsAt_addattr, attrsAt_addattr, if_pos rfl, hkv.splitAttr]
      split
      · rw [Option.map_map]
        rfl
      · rfl

theorem attrsAt_addRecord {path : List Str} {attrs : List (Str × Str)} (hpath : path ≠ [])
    (h : ∀ kv ∈ attrs, CleanAttr kv) (n : PersistNode) :
    (attrs.foldl (fun n kv => n.modifyAt (·.addattr (attrText kv)) path) (n.addPath path)).attrsAt
      = PathMap.set [] path (attrMap attrs) n.attrsAt := by
  funext q
  rw [attrsAt_addattrs h, attrsAt_addPath hpath, PathMap.set_self, Option.map_some]
  by_cases hq : q = path
  · rw [if_pos hq, hq, PathMap.set_self, attrMap]
  · simp only [if_neg hq, PathMap.set]

theorem attrsAt_apply {r : LogRecord} (h : r.Clean) (n : PersistNode) :
    (apply n r).attrsAt = r.update n.attrsAt := by
  cases r with
  | entry path attrs => exact attrsAt_addRecord h.1.ne_nil h.2 n
  | block path attrs => exact attrsAt_addRecord h.1.ne_nil h.2 n
  | erase path => exact attrsAt_delPath (CleanPath.ne_nil h) n

/-- A record whose path is not at or above `q` leaves what is found there. -/
theorem update_of_not_prefix {r : LogRecord} {q : List Str}
    {f : List Str → Option (List (Str × Str))} {a : List (Str × Str)} (h : ¬ r.path <+: q)
    (hf : f q = some a) : r.update f q = some a := by
  have hset : ∀ (p : List Str) (b : List (Str × Str)), ¬ p <+: q →
      PathMap.set [] p b f q = some a := by
    intro p b hp
    by_cases habove : q <+: p
    · rw [PathMap.set_above habove (fun heq => hp (heq ▸ List.prefix_refl _)), hf]
      rfl
    · rw [PathMap.set_apart hp habove, hf]
  cases r with
  | entry path attrs => exact hset path _ h
  | block path attrs => exact hset path _ h
  | erase path => exact (PathMap.remove_apart h).trans hf

/-- A record whose path is not at or below `q` puts nothing there. -/
theorem update_none {r : LogRecord} {q : List Str} {f : List Str → Option (List (Str × Str))}
    (h : ¬ q <+: r.path) (hf : f q = none) : r.update f q = none := by
  have hset : ∀ (p : List Str) (b : List (Str × Str)), ¬ q <+: p →
      PathMap.set [] p b f q = none := by
    intro p b hp
    by_cases hbelow : p <+: q
    · exact PathMap.set_below hbelow (fun heq => hp (heq ▸ List.prefix_refl _))
    · rw [PathMap.set_apart hbelow hp, hf]
  cases r with
  | entry path attrs => exact hset path _ h
  | block path attrs => exact hset path _ h
  | erase path =>
      by_cases hbelow : path <+: q
      · rw [update, PathMap.remove_below hbelow]
      · rw [update, PathMap.remove_apart hbelow, hf]

/-- What is found at `q` after a record whose path is not at or below `q` was there before. -/
theorem of_update_eq_some {r : LogRecord} {q : List Str}
    {f : List Str → Option (List (Str × Str))} {a : List (Str × Str)} (h : ¬ q <+: r.path)
    (hf : r.update f q = some a) : f q = some a := by
  have hset : ∀ (p : List Str) (b : List (Str × Str)), ¬ q <+: p →
      PathMap.set [] p b f q = some a → f q = some a := by
    intro p b hp hq
    by_cases hbelow : p <+: q
    · rw [PathMap.set_below hbelow (fun heq => hp (heq ▸ List.prefix_refl _))] at hq
      cases hq
    · rwa [PathMap.set_apart hbelow hp] at hq
  cases r with
  | entry path attrs => exact hset path _ h hf
  | block path attrs => exact hset path _ h hf
  | erase path =>
      by_cases hbelow : path <+: q
      · rw [update, PathMap.remove_below hbelow] at hf
        cases hf
      · rwa [update, PathMap.remove_apart hbelow] at hf

/-- A record whose path is neither above nor below `q` changes nothing there. -/
theorem update_of_apart {r : LogRecord} {q : List Str} (h₁ : ¬ r.path <+: q) (h₂ : ¬ q <+: r.path)
    (f : List Str → Option (List (Str × Str))) : r.update f q = f q := by
  cases r with
  | entry path attrs => exact PathMap.set_apart h₁ h₂
  | block path attrs => exact PathMap.set_apart h₁ h₂
  | erase path => exact PathMap.remove_apart h₁

theorem attrsAt_foldl_of_apart {log : List LogRecord} (hclean : ∀ r ∈ log, r.Clean) {q : List Str}
    (h : ∀ r ∈ log, ¬ r.path <+: q ∧ ¬ q <+: r.path) (n : PersistNode) :
    (log.foldl apply n).attrsAt q = n.attrsAt q := by
  induction log generalizing n with
  | nil => rfl
  | cons r log ih =>
      obtain ⟨hr, hlog⟩ := List.forall_mem_cons.1 hclean
      obtain ⟨hrq, hlogq⟩ := List.forall_mem_cons.1 h
      rw [List.foldl_cons, ih hlog hlogq, attrsAt_apply hr, update_of_apart hrq.1 hrq.2]

theorem attrsAt_foldl_none {log : List LogRecord} (hclean : ∀ r ∈ log, r.Clean) {q : List Str}
    (h : ∀ r ∈ log, ¬ q <+: r.path) {n : PersistNode} (hn : n.attrsAt q = none) :
    (log.foldl apply n).attrsAt q = none := by
  induction log generalizing n with
  | nil => exact hn
  | cons r log ih =>
      obtain ⟨hr, hlog⟩ := List.forall_mem_cons.1 hclean
      obtain ⟨hrq, hlogq⟩ := List.forall_mem_cons.1 h
      refine ih hlog hlogq ?_
      rw [attrsAt_apply hr]
      exact update_none hrq hn

/-- A log in which no record is at or above the path of an earlier one. -/
def Ordered (log : List LogRecord) : Prop := log.Pairwise (fun r r' => ¬ r'.path <+: r.path)

theorem attrsAt_foldl_of_not_prefix {log : List LogRecord} (hclean : ∀ r ∈ log, r.Clean)
    {q : List Str} (h : ∀ r ∈ log, ¬ r.path <+: q) {n : PersistNode} {a : List (Str × Str)}
    (hn : n.attrsAt q = some a) : (log.foldl apply n).attrsAt q = some a := by
  induction log generalizing n with
  | nil => exact hn
  | cons r log ih =>
      obtain ⟨hr, hlog⟩ := List.forall_mem_cons.1 hclean
      obtain ⟨hrq, hlogq⟩ := List.forall_mem_cons.1 h
      refine ih hlog hlogq ?_
      rw [attrsAt_apply hr]
      exact update_of_not_prefix hrq hn

/-- In an ordered log the attributes of a record are found at its path. -/
theorem attrsAt_replay_of_mem {log : List LogRecord} (hclean : ∀ r ∈ log, r.Clean)
    (hordered : Ordered log) {q : List Str} {attrs : List (Str × Str)}
    (h : .entry q attrs ∈ log ∨ .block q attrs ∈ log) :
    (replay log).attrsAt q = some (attrMap attrs) := by
  obtain ⟨r, hr, hpath, hupdate⟩ : ∃ r ∈ log, r.path = q ∧
      ∀ f, r.update f q = some (attrMap attrs) := by
    rcases h with h | h
    · exact ⟨_, h, rfl, fun f => PathMap.set_self⟩
    · exact ⟨_, h, rfl, fun f => PathMap.set_self⟩
  obtain ⟨pre, post, rfl⟩ := List.append_of_mem hr
  have hpost := (List.pairwise_cons.1 (List.pairwise_append.1 hordered).2.1).1
  rw [replay, List.foldl_append, List.foldl_cons]
  refine attrsAt_foldl_of_not_prefix
    (fun r' hr' => hclean r' (List.mem_append_right _ (List.mem_cons_of_mem _ hr')))
    (fun r' hr' => hpath ▸ hpost r' hr') ?_
  rw [attrsAt_apply (hclean r hr)]
  exact hupdate _

/-- Nothing is found at a path that no record is at or below. -/
theorem attrsAt_replay_none {log : List LogRecord} (hclean : ∀ r ∈ log, r.Clean) {q : List Str}
    (hq : q ≠ []) (h : ∀ r ∈ log, ¬ q <+: r.path) : (replay log).attrsAt q = none := by
  obtain ⟨s, q, rfl⟩ := List.exists_cons_of_ne_nil hq
  exact attrsAt_foldl_none hclean h (attrsAt_empty_cons s q)

/-- Building a map from a sorted list of entries gives back the list. -/
theorem attrMap_of_sorted {attrs : List (Str × Str)} (h : OrdMap.Sorted attrs) :
    attrMap attrs = attrs := by
  have key : ∀ (attrs m : List (Str × Str)), OrdMap.Sorted (m ++ attrs) →
      attrs.foldl (fun m kv => OrdMap.insert kv.1 kv.2 m) m = m ++ attrs := by
    intro attrs
    induction attrs with
    | nil => simp
    | cons kv attrs ih =>
        intro m hm
        have hbelow : ∀ e ∈ m, e.1 < kv.1 := fun e he =>
          (List.pairwise_append.1 hm).2.2 e he kv (List.mem_cons_self ..)
        rw [List.foldl_cons, OrdMap.insert_append hbelow, ih _ (by simpa using hm)]
        simp
  simpa [attrMap] using key attrs [] h

theorem Sorted.apply {n : PersistNode} (h : n.Sorted) (r : LogRecord) :
    (LogRecord.apply n r).Sorted := by
  have hadd : ∀ (path : List Str) (attrs : List (Str × Str)) (m : PersistNode), m.Sorted →
      (attrs.foldl (fun n kv => n.modifyAt (·.addattr (attrText kv)) path) m).Sorted := by
    intro path attrs
    induction attrs with
    | nil => exact fun m hm => hm
    | cons kv attrs ih =>
        exact fun m hm => ih _ (hm.modifyAt (fun _ hk => hk.addattr _) path)
  cases r with
  | entry path attrs => exact hadd path attrs _ (h.addPath path)
  | block path attrs => exact hadd path attrs _ (h.addPath path)
  | erase path => exact h.delPath path

theorem sorted_replay (log : List LogRecord) : (replay log).Sorted := by
  induction log using List.reverseRecOn with
  | nil => exact PersistNode.Sorted.empty
  | append_singleton log r ih =>
      rw [replay_append]
      exact Sorted.apply ih r

end LogRecord

end OmniEvents
