import OmniEvents.ReplayLaw

set_option autoImplicit false

/-! # Writing a tree and reading it back

`PersistNode::output` writes one record for each node, parents before children. `entries` is the list
of these records; the text spells them (`spells_output`), and what they mean is the tree
(`foldl_meaning_entries`): the record of a node clears what was below its path, and the records
of its children then graft one subtree after the other under it. -/

namespace OmniEvents.PersistNode

open LogRecord (CleanName CleanAttr attrText attrMap pathText)
open LogEntry (Spells ShortComment meaning)

/-! ## The records of a tree -/

mutual

/-- The records written for a node and what is below it, given the path of the node. -/
def entries : PersistNode → List Str → List LogEntry
  | mk attrs children, path =>
      (if path = [] then [] else [.add (pathText path) (attrs.map attrText)])
        ++ childEntries children path

/-- The entries that the children write. -/
def childEntries : List (Str × PersistNode) → List Str → List LogEntry
  | [], _ => []
  | (key, c) :: rest, path => entries c (path ++ [key]) ++ childEntries rest path

end

/-- Every name and every attribute can stand in a record, and no name is empty. -/
def Writable (n : PersistNode) : Prop :=
  ∀ path attrs, n.attrsAt path = some attrs →
    (∀ s ∈ path, s ≠ [] ∧ CleanName s) ∧ ∀ kv ∈ attrs, CleanAttr kv

/-- A path at which a record can be written: its text is no marker and no comment. -/
structure WritablePath (path : List Str) : Prop where
  names : ∀ s ∈ path, s ≠ [] ∧ CleanName s
  head : ∀ s ∈ path.head?, s.head? ≠ some '-' ∧ s.head? ≠ some '#' ∧ s ≠ endMark

theorem Writable.child {n c : PersistNode} (h : n.Writable) {s : Str} (hc : n.child s = some c) :
    (s ≠ [] ∧ CleanName s) ∧ c.Writable := by
  have hbelow : ∀ rest, n.attrsAt (s :: rest) = c.attrsAt rest := fun rest => by
    rw [attrsAt_cons, hc, Option.bind_some]
  constructor
  · exact (h [s] c.attrs (hbelow [])).1 s (List.mem_cons_self ..)
  · intro path attrs hpath
    obtain ⟨hnames, hattrs⟩ := h (s :: path) attrs ((hbelow path).trans hpath)
    exact ⟨fun t ht => hnames t (List.mem_cons_of_mem _ ht), hattrs⟩

theorem Writable.mk {attrs : List (Str × Str)} {children : List (Str × PersistNode)}
    (hattrs : ∀ kv ∈ attrs, CleanAttr kv)
    (h : ∀ e ∈ children, (e.1 ≠ [] ∧ CleanName e.1) ∧ e.2.Writable) :
    (PersistNode.mk attrs children).Writable := by
  intro path as hpath
  cases path with
  | nil =>
      cases hpath
      exact ⟨by simp, hattrs⟩
  | cons s rest =>
      rw [attrsAt_cons] at hpath
      obtain ⟨c, hc, hrest⟩ := Option.bind_eq_some_iff.1 hpath
      obtain ⟨pre, post, rfl, -⟩ := List.lookup_eq_some_iff.1 hc
      obtain ⟨hs, hsub⟩ := h (s, c) (by simp)
      obtain ⟨hnames, has⟩ := hsub rest as hrest
      exact ⟨List.forall_mem_cons.2 ⟨hs, hnames⟩, has⟩

theorem Writable.attrs {n : PersistNode} (h : n.Writable) : ∀ kv ∈ n.attrs, CleanAttr kv :=
  (h [] n.attrs rfl).2

theorem WritablePath.concat {path : List Str} (h : WritablePath path) (hne : path ≠ []) {s : Str}
    (hs : s ≠ [] ∧ CleanName s) : WritablePath (path ++ [s]) := by
  refine ⟨?_, ?_⟩
  · intro t ht
    rcases List.mem_append.1 ht with ht | ht
    · exact h.names t ht
    · exact List.mem_singleton.1 ht ▸ hs
  · rw [List.head?_append_of_ne_nil _ hne]
    exact h.head

/-! ## What is written -/

/-- The record of one node. -/
def recordText (name : Str) (attrs : List (Str × Str)) : Str :=
  name ++ '\n' ::
    (attrs.flatMap (fun kv => ' ' :: (attrText kv ++ ['\n'])) ++ [' ', ';', ';', '\n'])

theorem output_mk {name : Str} (h : name ≠ []) (attrs : List (Str × Str))
    (children : List (Str × PersistNode)) :
    (mk attrs children).output name
      = recordText name attrs ++ outputChildren children (name ++ ['/']) := by
  simp [output, h, recordText, attrText]

theorem endsLine_recordText (name : Str) (attrs : List (Str × Str)) :
    IStream.EndsLine (recordText name attrs) := by
  have hlast : recordText name attrs
      = (name ++ '\n' :: (attrs.flatMap (fun kv => ' ' :: (attrText kv ++ ['\n'])) ++ [' ', ';', ';']))
        ++ ['\n'] := by
    simp [recordText]
  rw [hlast]
  exact IStream.endsLine_concat _

section Path

variable {path : List Str} (h : WritablePath path) (hne : path ≠ [])

include h hne

theorem WritablePath.head_pathText :
    ∃ c cs, pathText path = c :: cs ∧ c ≠ '-' ∧ c ≠ '#' := by
  obtain ⟨s, rest, rfl⟩ := List.exists_cons_of_ne_nil hne
  obtain ⟨c, cs, rfl⟩ := List.exists_cons_of_ne_nil (h.names s (List.mem_cons_self ..)).1
  obtain ⟨hdash, hhash, -⟩ := h.head _ rfl
  simp only [List.head?_cons, ne_eq, Option.some.injEq] at hdash hhash
  by_cases hrest : rest = []
  · subst hrest
    exact ⟨c, cs, by simp [pathText], hdash, hhash⟩
  · rw [LogRecord.pathText_cons _ hrest]
    exact ⟨c, _, rfl, hdash, hhash⟩

theorem WritablePath.components_pathText : components (pathText path) = path :=
  LogRecord.components_pathText (fun s hs => (h.names s hs).2) hne

theorem WritablePath.isWord : IStream.IsWord '#' (pathText path) := by
  obtain ⟨c, cs, htext, -, hhash⟩ := h.head_pathText hne
  refine ⟨by simp [htext], LogRecord.isSpace_pathText (fun s hs => (h.names s hs).2), ?_⟩
  simpa [htext] using hhash

theorem WritablePath.wellFormed {attrs : List (Str × Str)} (hattrs : ∀ kv ∈ attrs, CleanAttr kv) :
    (LogEntry.add (pathText path) (attrs.map attrText)).WellFormed := by
  obtain ⟨c, cs, htext, hdash, -⟩ := h.head_pathText hne
  refine ⟨h.isWord hne, by simpa [htext] using hdash, ?_, ?_⟩
  · intro hmark
    -- a path whose text is the end mark has one component
    have hpath : path = [endMark] := by
      rw [← h.components_pathText hne, hmark]
      decide
    exact (h.head endMark (by rw [hpath]; rfl)).2.2 rfl
  · simp only [List.forall_mem_map]
    exact fun kv hkv => ⟨(hattrs kv hkv).isWord, CleanAttr.ne_endMark⟩

theorem WritablePath.spells_recordText {attrs : List (Str × Str)}
    (hattrs : ∀ kv ∈ attrs, CleanAttr kv) :
    Spells ShortComment [.add (pathText path) (attrs.map attrText)]
      (recordText (pathText path) attrs) := by
  have hlines := @LogRecord.layout_blockAttrs ShortComment _ hattrs
  simpa [Spells, LogEntry.words, recordText] using IStream.Layout.wordSpace (h.isWord hne) (by decide) hlines

end Path

/-! ## The records of the children -/

/-- The text in front of the name of a child. -/
def namePrefix (path : List Str) : Str := if path = [] then [] else pathText path ++ ['/']

theorem pathText_concat (path : List Str) (s : Str) :
    pathText (path ++ [s]) = namePrefix path ++ s := by
  induction path with
  | nil => simp [pathText, namePrefix]
  | cons t path ih =>
      rw [List.cons_append, LogRecord.pathText_cons t (by simp), ih]
      by_cases hpath : path = []
      · subst hpath
        simp [namePrefix, pathText]
      · simp [namePrefix, hpath, LogRecord.pathText_cons t hpath]

/-- The text written for the node spells its records, and these mean the tree. -/
structure Written (n : PersistNode) (path : List Str) : Prop where
  wellFormed : ∀ e ∈ n.entries path, e.WellFormed
  spells : Spells ShortComment (n.entries path) (n.output (pathText path))
  endsLine : IStream.EndsLine (n.output (pathText path))
  meaning : ∀ f, (n.entries path).foldl meaning f = PathMap.graft [] path n.attrsAt f

/-- A further child is grafted below the root. -/
theorem attrsAt_concat {attrs : List (Str × Str)} {done : List (Str × PersistNode)} {s : Str}
    {c : PersistNode} (hs : done.lookup s = none) :
    PathMap.graft [] [s] c.attrsAt (mk attrs done).attrsAt
      = (mk attrs (done ++ [(s, c)])).attrsAt := by
  funext q
  cases q with
  | nil => simp [PathMap.graft]
  | cons t q =>
      rw [attrsAt_cons, child_mk, List.lookup_append]
      by_cases hts : t = s
      · subst hts
        simp [PathMap.graft, hs]
      · have hnone : List.lookup t [(s, c)] = none := by
          simp [List.lookup_cons, beq_eq_false_iff_ne.2 hts]
        rw [hnone, Option.or_none]
        simp [PathMap.graft, hts, Ne.symm hts, attrsAt_cons]

section Children

variable {cs : List (Str × PersistNode)} {path : List Str}
  (h : ∀ e ∈ cs, Written e.2 (path ++ [e.1]))

include h

theorem wellFormed_childEntries : ∀ e ∈ childEntries cs path, e.WellFormed := by
  induction cs with
  | nil => simp [childEntries]
  | cons c cs ih =>
      obtain ⟨hc, hcs⟩ := List.forall_mem_cons.1 h
      intro e he
      rcases List.mem_append.1 he with he | he
      · exact hc.wellFormed e he
      · exact ih hcs e he

theorem spells_outputChildren :
    Spells ShortComment (childEntries cs path) (outputChildren cs (namePrefix path)) ∧
      IStream.EndsLine (outputChildren cs (namePrefix path)) := by
  induction cs with
  | nil => exact ⟨.nil, IStream.endsLine_nil⟩
  | cons c cs ih =>
      obtain ⟨hc, hcs⟩ := List.forall_mem_cons.1 h
      obtain ⟨hspells, hends⟩ := ih hcs
      have hfirst := hc.spells
      have hend := hc.endsLine
      rw [pathText_concat] at hfirst hend
      rw [childEntries, outputChildren]
      refine ⟨?_, hend.append hends⟩
      rw [Spells, List.flatMap_append]
      exact hfirst.append hend (by decide) hspells

theorem foldl_meaning_childEntries {attrs : List (Str × Str)} {done : List (Str × PersistNode)}
    (hsorted : OrdMap.Sorted (done ++ cs)) (f : LogEntry.Paths) :
    (childEntries cs path).foldl meaning (PathMap.graft [] path (mk attrs done).attrsAt f)
      = PathMap.graft [] path (mk attrs (done ++ cs)).attrsAt f := by
  induction cs generalizing done with
  | nil => simp [childEntries]
  | cons c cs ih =>
      obtain ⟨hc, hcs⟩ := List.forall_mem_cons.1 h
      -- the names are sorted, so this one is new
      have hnew : done.lookup c.1 = none := by
        rw [List.lookup_eq_none_iff]
        intro e he
        have hlt := (List.pairwise_append.1 hsorted).2.2 e he c (List.mem_cons_self ..)
        simpa using (ne_of_lt hlt).symm
      have hstep : done ++ c :: cs = (done ++ [c]) ++ cs := by simp
      rw [hstep] at hsorted ⊢
      rw [childEntries, List.foldl_append, hc.meaning, PathMap.graft_graft, attrsAt_concat hnew,
        ih hcs hsorted]

end Children

/-! ## The records of a node -/

theorem attrMap_entry {attrs : List (Str × Str)} (hattrs : ∀ kv ∈ attrs, CleanAttr kv)
    (hsorted : OrdMap.Sorted attrs) : attrMap ((attrs.map attrText).map splitAttr) = attrs := by
  have hmap : (attrs.map attrText).map splitAttr = attrs := by
    rw [List.map_map]
    exact (List.map_congr_left fun kv hkv => (hattrs kv hkv).splitAttr).trans (List.map_id attrs)
  rw [hmap, LogRecord.attrMap_of_sorted hsorted]

/-- Induction on the tree: every node writes its record and then, one by one, its subtrees. -/
theorem written {n : PersistNode} (hsorted : n.Sorted) (hn : n.Writable) {path : List Str}
    (hpath : WritablePath path) (hne : path ≠ []) : Written n path := by
  induction hsorted generalizing path with
  | @mk attrs children hattrs hchildren hsub ih =>
      have hclean : ∀ kv ∈ attrs, CleanAttr kv := hn.attrs
      have hbelow : ∀ e ∈ children, Written e.2 (path ++ [e.1]) := by
        rintro ⟨s, c⟩ he
        obtain ⟨hs, hc⟩ := hn.child (hchildren.mem_iff_lookup.1 he)
        exact ih (s, c) he hc (hpath.concat hne hs) (by simp)
      have htext : pathText path ≠ [] := (hpath.isWord hne).ne_nil
      have hrecord := hpath.spells_recordText hne hclean
      obtain ⟨hspells, hends⟩ := spells_outputChildren hbelow
      have hinitial : namePrefix path = pathText path ++ ['/'] := if_neg hne
      rw [hinitial] at hspells hends
      refine ⟨?_, ?_, ?_, ?_⟩
      -- the record of the node, and then those of its children
      · rw [entries, if_neg hne, List.singleton_append, List.forall_mem_cons]
        exact ⟨hpath.wellFormed hne hclean, wellFormed_childEntries hbelow⟩
      · rw [entries, output_mk htext, if_neg hne, Spells, List.flatMap_append]
        exact hrecord.append (endsLine_recordText _ attrs) (by decide) hspells
      · rw [output_mk htext]
        exact (endsLine_recordText _ attrs).append hends
      -- the record clears what is below the path; the subtrees are grafted onto it
      · intro f
        have hset : meaning f (.add (pathText path) (attrs.map attrText))
            = PathMap.graft [] path (mk attrs []).attrsAt f := by
          have hleaf : (mk attrs []).attrsAt = PathMap.leaf attrs := by
            funext q
            cases q <;> rfl
          rw [meaning, hpath.components_pathText hne, attrMap_entry hclean hattrs, hleaf,
            PathMap.graft_leaf]
        rw [entries, if_neg hne, List.singleton_append, List.foldl_cons, hset]
        exact @foldl_meaning_childEntries _ _ hbelow _ [] hchildren f

/-! ## The round trip

`output` writes a tree as records, and `parse` makes the same tree of them if its names and values
can stand in a record. -/

/-- A tree that the log can hold. -/
structure Encodable (n : PersistNode) : Prop where
  sorted : n.Sorted
  root : n.attrs = []
  writable : n.Writable
  /-- No name on the first level is taken for a deletion, a comment or an end of record. -/
  head : ∀ e ∈ n.children, e.1.head? ≠ some '-' ∧ e.1.head? ≠ some '#' ∧ e.1 ≠ endMark

/-- **Decoding undoes encoding.** -/
theorem parse_output {n : PersistNode} (h : Encodable n) : parse (n.output []) = n := by
  obtain ⟨attrs, children⟩ := n
  obtain rfl : attrs = [] := h.root
  have hchildren : OrdMap.Sorted children := h.sorted.children
  have hbelow : ∀ e ∈ children, Written e.2 ([] ++ [e.1]) := by
    rintro ⟨s, c⟩ he
    obtain ⟨hs, hc⟩ := h.writable.child (h.sorted.mem_children.1 he)
    refine written (h.sorted.sub _ he) hc ⟨by simpa using hs, ?_⟩ (by simp)
    simpa using h.head _ he
  obtain ⟨hspells, -⟩ := spells_outputChildren hbelow
  have houtput : (mk [] children).output [] = outputChildren children (namePrefix []) := by
    simp [output, namePrefix]
  have hroot : LogEntry.rootOnly = PathMap.graft [] [] (mk [] []).attrsAt LogEntry.rootOnly := by
    rw [PathMap.graft_nil]
    exact LogEntry.attrsAt_empty.symm
  refine (sorted_parse _).ext h.sorted ?_
  rw [houtput, LogEntry.attrsAt_parse (wellFormed_childEntries hbelow) hspells, LogEntry.reference,
    hroot, @foldl_meaning_childEntries _ _ hbelow _ [] hchildren, PathMap.graft_nil,
    List.nil_append]

/-- Keys that look like markers, an empty value, and a node below another. -/
def sampleTree : PersistNode :=
  mk [] [("ecf".toList, mk [("-x".toList, []), (";;".toList, ['1'])]
    [("-a".toList, mk [] [])])]

theorem parse_output_sampleTree : parse (sampleTree.output []) = sampleTree := by
  have hname : ∀ {s : Str}, s ≠ [] → (∀ c ∈ s, c ≠ '/' ∧ isSpace c = false) →
      s ≠ [] ∧ CleanName s := fun h h' => ⟨h, h'⟩
  refine parse_output ⟨?_, rfl, ?_, by simp [sampleTree]; decide⟩
  · refine .mk .nil (List.pairwise_singleton ..) (List.forall_mem_singleton.2 ?_)
    refine .mk ?_ (List.pairwise_singleton ..) (List.forall_mem_singleton.2 .empty)
    exact List.pairwise_pair.2 (by decide)
  · refine .mk (by simp) (List.forall_mem_singleton.2 ⟨hname (by decide) (by decide), ?_⟩)
    refine .mk ?_ (List.forall_mem_singleton.2 ⟨hname (by decide) (by decide), ?_⟩)
    · simp only [List.forall_mem_cons]
      exact ⟨⟨by decide, by decide, by decide⟩, ⟨by decide, by decide, by decide⟩, by simp⟩
    · exact .mk (by simp) (by simp)

end OmniEvents.PersistNode
