import OmniEvents.LogRecord

set_option autoImplicit false

/-! # What the parser accepts

Whatever the text of a log, also one that ends in the middle of a record, the tree that is parsed
from it is sorted and clean: its names and attributes are such that a record made of them is read
back as it was. Both facts come from one induction over the loops of the parser (`parse_induct`),
which needs only that every token delivered is a word. -/

namespace OmniEvents.PersistNode

/-! ## Induction over a parse

A property of trees that every token keeps holds of every tree that `parse` returns. The induction
follows `readnodes` and `readnode`, and is done once here. -/

/-- No character of the token is white space. -/
def NoSpace (tok : Str) : Prop := ∀ c ∈ tok, isSpace c = false

theorem noSpace_word (cs : Str) : NoSpace (IStream.word cs) := by
  intro c hc
  simpa using List.mem_takeWhile_imp hc

theorem noSpace_extract (is : IStream) {tok : Str} (h : NoSpace tok) :
    NoSpace (is.extract tok).2 := by
  unfold IStream.extract
  split
  · exact h
  · split
    · exact h
    · exact noSpace_word _

/-- The token buffer never holds white space, and a token that is delivered is a word. -/
theorem readtoken_word (fuel : ℕ) (is : IStream) {tok : Str} (h : NoSpace tok) :
    NoSpace (readtoken fuel is tok).2.1 ∧
      ((readtoken fuel is tok).2.2 = true → IStream.IsWord '#' (readtoken fuel is tok).2.1) := by
  induction fuel generalizing is tok with
  | zero => exact ⟨h, fun hok => by cases hok⟩
  | succ fuel ih =>
      rw [readtoken]
      split
      · exact ⟨h, fun hok => by cases hok⟩
      · have hext := noSpace_extract is h
        rcases hex : is.extract tok with ⟨is', _ | ⟨c, cs⟩⟩
        · exact ⟨fun c hc => absurd hc (by simp), fun hok => absurd hok (by simp)⟩
        · rw [hex] at hext
          simp only
          split
          · next hne => exact ⟨hext, fun _ => ⟨by simp, hext, by simpa using hne⟩⟩
          · exact ih _ hext

section Induct

variable {P : PersistNode → Prop}
  (hadd : ∀ n tok, IStream.IsWord '#' tok → P n → P (n.addnode tok))
  (hattr : ∀ n tok path, IStream.IsWord '#' tok → P n → P (n.modifyAt (·.addattr tok) path))
  (hdel : ∀ n name, P n → P (n.delnode name))

include hadd hattr hdel

theorem readnode_induct (fuel : ℕ) (is : IStream) {root : PersistNode} (node : Option (List Str))
    {tok : Str} (hroot : P root) (htok : NoSpace tok) :
    P (readnode fuel is root node tok).2.1 := by
  induction fuel generalizing is root node tok with
  | zero => exact hroot
  | succ fuel ih =>
      rw [readnode]
      have hword := readtoken_word (is.rest.length + 2) is htok
      rcases hread : readtoken (is.rest.length + 2) is tok with ⟨is', tok', ok⟩
      rw [hread] at hword
      simp only at hword ⊢
      split
      · exact hroot
      · next hgo =>
          have hok : ok = true := by
            cases ok with
            | false => simp at hgo
            | true => rfl
          cases node with
          | some path => exact ih _ _ (hattr _ _ path (hword.2 hok) hroot) hword.1
          | none =>
              simp only
              split
              · exact ih _ _ (hdel _ _ hroot) hword.1
              · exact ih _ _ (hadd _ _ (hword.2 hok) hroot) hword.1

theorem readnodes_induct (fuel : ℕ) (is : IStream) {root : PersistNode} (hroot : P root) :
    P (readnodes fuel is root) := by
  induction fuel generalizing is root with
  | zero => exact hroot
  | succ fuel ih =>
      have hnode := readnode_induct hadd hattr hdel (is.rest.length + 2) is none hroot
        (fun c hc => absurd hc List.not_mem_nil : NoSpace [])
      rw [readnodes]
      rcases hread : readnode (is.rest.length + 2) is root none [] with ⟨is', root', more⟩
      rw [hread] at hnode
      cases more with
      | true => exact ih is' hnode
      | false => exact hnode

/-- A property of the empty tree that the three updates preserve holds of every parsed tree. -/
theorem parse_induct (hempty : P empty) (text : Str) : P (parse text) :=
  readnodes_induct hadd hattr hdel _ _ hempty

end Induct

/-! ## Parsed trees

What is read is well formed whatever the text: the attributes and the children are maps, and no name
or value has white space in it. -/

open LogRecord (CleanName CleanAttr)

/-- Every name and every attribute found in the tree can stand in a record. -/
def CleanTree (n : PersistNode) : Prop :=
  ∀ path attrs, n.attrsAt path = some attrs →
    (∀ s ∈ path, CleanName s) ∧ ∀ kv ∈ attrs, CleanAttr kv

theorem sorted_parse (text : Str) : (parse text).Sorted := by
  refine parse_induct ?_ ?_ ?_ Sorted.empty text
  · exact fun n tok _ h => h.addPath _
  · exact fun n tok path _ h => h.modifyAt (fun _ hm => hm.addattr tok) path
  · exact fun n name h => h.delPath _

theorem cleanName_components (tok : Str) (h : NoSpace tok) :
    ∀ s ∈ components tok, CleanName s := by
  induction hn : tok.length using Nat.strong_induction_on generalizing tok with
  | _ n ih =>
      subst hn
      by_cases hmem : '/' ∈ tok
      · -- the first component, and the components of the rest
        obtain ⟨s, rest, rfl, hs⟩ := List.eq_append_cons_of_mem hmem
        rw [components_branch rest hs, List.forall_mem_cons]
        refine ⟨fun c hc => ⟨fun hslash => hs (hslash ▸ hc), h c (List.mem_append_left _ hc)⟩, ?_⟩
        exact ih rest.length (by simp; omega) rest
          (fun c hc => h c (List.mem_append_right _ (List.mem_cons_of_mem _ hc))) rfl
      · rw [components_leaf hmem, List.forall_mem_singleton]
        exact fun c hc => ⟨fun hslash => hmem (hslash ▸ hc), h c hc⟩

theorem cleanAttr_splitAttr {tok : Str} (h : IStream.IsWord '#' tok) :
    CleanAttr (splitAttr tok) where
  key c hc := ⟨by simpa using List.mem_takeWhile_imp hc,
    h.noSpace c ((List.takeWhile_prefix _).subset hc)⟩
  value c hc := h.noSpace c ((List.dropWhile_suffix _).subset (List.mem_of_mem_drop hc))
  notComment := by
    intro hhead
    refine h.notComment ?_
    obtain ⟨c, cs, rfl⟩ := List.exists_cons_of_ne_nil h.ne_nil
    simp only [splitAttr] at hhead
    by_cases hc : c = '='
    · simp [hc] at hhead
    · simpa [hc] using hhead

theorem CleanTree.addnode {n : PersistNode} (h : CleanTree n) {tok : Str} (htok : NoSpace tok) :
    CleanTree (n.addnode tok) := by
  have hnames := cleanName_components tok htok
  intro path as hpath
  rw [PersistNode.addnode, attrsAt_addPath (components_ne_nil tok)] at hpath
  by_cases hself : path = components tok
  · subst hself
    rw [PathMap.set_self] at hpath
    cases hpath
    exact ⟨hnames, by simp⟩
  by_cases hbelow : components tok <+: path
  · rw [PathMap.set_below hbelow hself] at hpath
    cases hpath
  by_cases habove : path <+: components tok
  · rw [PathMap.set_above habove hself] at hpath
    refine ⟨fun s hs => hnames s (habove.subset hs), ?_⟩
    cases hold : n.attrsAt path with
    | none =>
        rw [hold] at hpath
        cases hpath
        simp
    | some old =>
        rw [hold] at hpath
        cases hpath
        exact (h path old hold).2
  · rw [PathMap.set_apart hbelow habove] at hpath
    exact h path as hpath

theorem CleanTree.addattr {n : PersistNode} (h : CleanTree n) {tok : Str}
    (htok : IStream.IsWord '#' tok) (p : List Str) :
    CleanTree (n.modifyAt (·.addattr tok) p) := by
  intro path as hpath
  rw [attrsAt_addattr] at hpath
  split at hpath
  · next hself =>
      obtain ⟨old, hold, rfl⟩ := Option.map_eq_some_iff.1 hpath
      refine ⟨hself ▸ (h p old hold).1, ?_⟩
      intro kv hkv
      rcases OrdMap.mem_insert hkv with rfl | hkv
      · exact cleanAttr_splitAttr htok
      · exact (h p old hold).2 kv hkv
  · exact h path as hpath

theorem CleanTree.delnode {n : PersistNode} (h : CleanTree n) (name : Str) :
    CleanTree (n.delnode name) := by
  intro path as hpath
  rw [PersistNode.delnode, attrsAt_delPath (components_ne_nil name), PathMap.remove] at hpath
  split at hpath
  · cases hpath
  · exact h path as hpath

/-- **What is accepted is well formed.** -/
theorem cleanTree_parse (text : Str) : CleanTree (parse text) := by
  refine parse_induct ?_ ?_ ?_ ?_ text
  · exact fun n tok htok h => CleanTree.addnode h htok.noSpace
  · exact fun n tok path htok h => CleanTree.addattr h htok path
  · exact fun n name h => CleanTree.delnode h name
  · intro path as hpath
    cases path with
    | nil =>
        cases hpath
        exact ⟨by simp, by simp [attrs, empty]⟩
    | cons s rest => cases hpath

end OmniEvents.PersistNode
