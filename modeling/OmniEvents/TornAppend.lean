import OmniEvents.ReplayLaw

set_option autoImplicit false

/-! # A record that is cut off

A crash or a full disk may leave any prefix of an appended record in the log. The parser takes the end
of the text for the end of the record, so what is left is a record of its own (`cutEntry`): of a path
cut short, which names an ancestor or a sibling, or of attributes cut short. `torn_append` says when
this does no harm. -/

namespace OmniEvents

open PersistNode (components splitAttr endMark intMax ReadState Stale lastToken logWords)
open LogRecord (Clean CleanPath CleanAttr attrText attrMap pathText)

namespace LogEntry

/-- The record that the words of a cut text are taken for. A path without attributes is still in the
    buffer at the end of the text, and becomes an attribute. -/
def cutEntry : List Str → Option LogEntry
  | [] => none
  | t :: ts =>
      if t.head? = some '-' then some (.erase t.tail)
      else if ts = [] then some (.add t [t])
      else some (.add t (ts.takeWhile (· ≠ endMark)))

/-- The tree has what the record says. -/
def Satisfied (f : Paths) : LogEntry → Prop
  | add path attrs => PathMap.IsLeaf f (components path) (attrMap (attrs.map splitAttr))
  | erase path => f (components path) = none

/-- The same path and, for an addition, the same attributes. -/
def SameAs : LogEntry → LogEntry → Prop
  | add path attrs, add path' attrs' => components path = components path' ∧
      attrMap (attrs.map splitAttr) = attrMap (attrs'.map splitAttr)
  | erase path, erase path' => components path = components path'
  | _, _ => False

theorem meaning_eq_self_iff {f : Paths} (hf : PathMap.PrefixClosed f) (e : LogEntry) :
    meaning f e = f ↔ Satisfied f e := by
  cases e with
  | add path attrs => exact PathMap.set_eq_self_iff hf
  | erase path => exact PathMap.remove_eq_self_iff hf

theorem SameAs.meaning {e e' : LogEntry} (h : e.SameAs e') (f : Paths) :
    LogEntry.meaning f e = LogEntry.meaning f e' := by
  cases e with
  | add path attrs =>
      cases e' with
      | add path' attrs' => simp only [LogEntry.meaning, h.1, h.2]
      | erase path' => exact h.elim
  | erase path =>
      cases e' with
      | add path' attrs' => exact h.elim
      | erase path' => simp only [LogEntry.meaning, show components path = components path' from h]

theorem prefixClosed_attrsAt (n : PersistNode) : PathMap.PrefixClosed n.attrsAt := by
  intro q r h
  rw [PersistNode.attrsAt, Option.map_eq_none_iff] at h ⊢
  rw [PersistNode.find_append, h, Option.bind_none]

/-! ## Paths cut short -/

theorem length_components (name : Str) : (components name).length = name.count '/' + 1 := by
  induction hn : name.length using Nat.strong_induction_on generalizing name with
  | _ n ih =>
      subst hn
      -- at the first slash
      by_cases hmem : '/' ∈ name
      · obtain ⟨s, rest, rfl, hs⟩ := List.eq_append_cons_of_mem hmem
        rw [PersistNode.components_branch rest hs, List.length_cons,
          ih rest.length (by simp; omega) rest rfl, List.count_append, List.count_cons_self,
          List.count_eq_zero.2 hs]
        omega
      · rw [PersistNode.components_leaf hmem, List.count_eq_zero.2 hmem]
        rfl

/-- The path of a text cut short is not below that of the text. -/
theorem components_initial {s t : Str} (h : s <+: t) (hp : components t <+: components s) :
    components s = components t := by
  have hlen : (components s).length ≤ (components t).length := by
    rw [length_components, length_components]
    exact Nat.succ_le_succ (h.sublist.count_le _)
  exact (hp.eq_of_length (le_antisymm hp.length_le hlen)).symm

/-! ## What the parser makes of it

A record that is cut off is read as a path cut short, as the path with some of the attributes, or as
a `-` of a path cut short. -/

/-- Reading the words after the path, up to the end of the text. -/
theorem attrsAt_finish {n : PersistNode} {path : List Str} {init : List Str} {x : Str}
    (hinit : ∀ t ∈ init, t ≠ endMark) (hx : Stale x) :
    ((ReadState.read ⟨n, some path⟩ (init ++ [x])).finish x).attrsAt
      = (((init ++ [x]).takeWhile (· ≠ endMark)).foldl
          (fun n t => n.modifyAt (·.addattr t) path) n).attrsAt := by
  induction init generalizing n with
  | nil =>
      rw [List.nil_append, ReadState.read]
      split
      · next hmark => simp [ReadState.read, ReadState.finish, hmark]
      · next hmark =>
          rw [ReadState.read, ReadState.finish, if_pos hx]
          -- the attribute is added twice
          funext q
          simp only [ne_eq, decide_not, List.takeWhile_cons, hmark, decide_false, Bool.not_false,
            if_true, List.takeWhile_nil, List.foldl_cons, List.foldl_nil,
            PersistNode.attrsAt_addattr]
          split
          · rw [Option.map_map]
            refine congrFun (congrArg _ (funext ?_)) _
            intro m
            exact OrdMap.insert_insert ..
          · rfl
  | cons t init ih =>
      obtain ⟨ht, hinit⟩ := List.forall_mem_cons.1 hinit
      rw [List.cons_append, ReadState.read, if_neg ht, ih hinit]
      simp [ht]

/-- What may be left of the words of a record. -/
inductive Cut : LogEntry → List Str → Prop where
  | nothing {e : LogEntry} : Cut e []
  | path {path t : Str} {attrs : List Str} (ht : t <+: path) (hne : t ≠ []) :
      Cut (.add path attrs) [t]
  /-- Some attributes, and then one more or the beginning of one, or of the end mark. -/
  | attrs {path x : Str} {attrs init : List Str} (hinit : ∀ t ∈ init, t ∈ attrs) :
      Cut (.add path attrs) (path :: (init ++ [x]))
  | erase {path t : Str} (ht : t <+: path) : Cut (.erase path) ['-' :: t]

theorem cut_of_cutShort {e : LogEntry} (he : e.WellFormed) {ws : List Str}
    (h : IStream.CutShort e.words ws) (hword : ∀ w ∈ ws, IStream.IsWord '#' w) : Cut e ws := by
  cases e with
  | add path attrs =>
      cases h with
      | nil => exact .nothing
      | last hv hne => exact .path hv hne
      | @cons _ _ ws h =>
          induction ws using List.reverseRecOn with
          | nil => exact .path (List.prefix_refl path) he.1.ne_nil
          | append_singleton init x => exact .attrs h.mem_of_mem_init
  | erase path =>
      cases h with
      | nil => exact .nothing
      | @last _ v _ hv hne =>
          obtain ⟨c, v, rfl⟩ := List.exists_cons_of_ne_nil hne
          obtain ⟨rfl, hrest⟩ := List.cons_prefix_cons.1 hv
          exact .erase hrest
      | cons h =>
          cases h
          exact .erase (List.prefix_refl path)

/-- Reading what is left of a record, up to the end of the text. -/
theorem attrsAt_cut {e : LogEntry} (he : e.WellFormed) (hmark : ∀ path attrs, e = .add path attrs →
      path.head? ≠ some ';') {ws : List Str} (h : Cut e ws)
    (hword : ∀ w ∈ ws, IStream.IsWord '#' w) (n : PersistNode) (tok : Str) :
    ((ReadState.read ⟨n, none⟩ ws).finish (ws.getLast?.getD tok)).attrsAt
      = ((cutEntry ws).map (meaning n.attrsAt)).getD n.attrsAt := by
  have hstale : ∀ w ∈ ws, Stale w := fun w hw => ⟨(hword w hw).ne_nil, (hword w hw).notComment⟩
  cases h with
  | nothing => rfl
  | @path path t attrs ht hne =>
      obtain ⟨c, t, rfl⟩ := List.exists_cons_of_ne_nil hne
      obtain ⟨u, rfl⟩ := ht
      have hdash : (c :: t).head? ≠ some '-' := he.2.1
      have hne : c :: t ≠ endMark := by
        intro heq
        -- a path that begins with `;` could be cut down to the end mark
        refine hmark _ attrs rfl ?_
        rw [heq]
        rfl
      rw [ReadState.read, if_neg hne, if_neg hdash, cutEntry, if_neg hdash, if_pos rfl,
        ReadState.read, ReadState.finish, List.getLast?_singleton, Option.getD_some,
        if_pos (hstale _ (List.mem_cons_self ..))]
      exact attrsAt_apply n (.add (c :: t) [c :: t])
  | @attrs path x attrs init hinit =>
      obtain ⟨-, hdash, hne, hattrs⟩ := he
      have hx : Stale x := hstale x (by simp)
      rw [ReadState.read, if_neg hne, if_neg hdash, cutEntry, if_neg hdash, if_neg (by simp),
        ← List.cons_append, List.getLast?_concat, Option.getD_some,
        attrsAt_finish (fun t ht => (hattrs t (hinit t ht)).2) hx]
      exact attrsAt_apply n (.add path _)
  | @erase path t ht =>
      have hne : '-' :: t ≠ endMark := by simp [endMark]
      have hdash : ('-' :: t).head? = some '-' := rfl
      rw [ReadState.read, if_neg hne, if_pos hdash, cutEntry, if_pos hdash, ReadState.read,
        ReadState.finish]
      exact attrsAt_apply n (.erase t)

/-- What is left of a record is a record of the same kind, whose path is not below that of the first. -/
theorem cut_harmless {e e' : LogEntry} {ws : List Str} (h : Cut e ws) (hcut : cutEntry ws = some e')
    (he : e.WellFormed) {f : Paths} (hmeaning : meaning f e' = meaning f e) :
    Satisfied f e' ∨ e'.SameAs e := by
  cases h with
  | nothing => cases hcut
  | @path path t attrs ht hne =>
      obtain ⟨c, t, rfl⟩ := List.exists_cons_of_ne_nil hne
      have hdash : (c :: t).head? ≠ some '-' := by
        obtain ⟨u, rfl⟩ := ht
        exact he.2.1
      rw [cutEntry, if_neg hdash, if_pos rfl] at hcut
      cases hcut
      exact (PathMap.set_eq_set (components_initial ht) hmeaning).symm
  | @attrs path x attrs init hinit =>
      rw [cutEntry, if_neg he.2.1, if_neg (by simp)] at hcut
      cases hcut
      exact (PathMap.set_eq_set (fun _ => rfl) hmeaning).symm
  | @erase path t ht =>
      rw [cutEntry, if_pos rfl] at hcut
      cases hcut
      exact (PathMap.remove_eq_remove (components_initial ht) hmeaning).symm

end LogEntry

/-! ## The words of a record that is cut off -/

namespace LogRecord

/-- The record as an entry. -/
def toEntry : LogRecord → LogEntry
  | entry path attrs => .add (pathText path) (attrs.map attrText)
  | block path attrs => .add (pathText path) (attrs.map attrText)
  | erase path => .erase (pathText path)

theorem words_toEntry (r : LogRecord) : r.words = r.toEntry.words := by
  cases r <;> rfl

theorem CleanPath.head_ne_dash {path : List Str} (h : CleanPath path) :
    (pathText path).head? ≠ some '-' := by
  rw [h.head_pathText]
  decide

theorem CleanPath.ne_endMark {path : List Str} (h : CleanPath path) : pathText path ≠ endMark := by
  intro heq
  have hhead := h.head_pathText
  rw [heq] at hhead
  revert hhead
  decide

theorem Clean.wellFormed {r : LogRecord} (h : r.Clean) : r.toEntry.WellFormed := by
  have hadd : ∀ (path : List Str) (attrs : List (Str × Str)), CleanPath path →
      (∀ kv ∈ attrs, CleanAttr kv) →
        (LogEntry.add (pathText path) (attrs.map attrText)).WellFormed := by
    refine fun path attrs hpath hattrs => ⟨hpath.isWord, hpath.head_ne_dash, hpath.ne_endMark, ?_⟩
    simp only [List.forall_mem_map]
    exact fun kv hkv => ⟨(hattrs kv hkv).isWord, CleanAttr.ne_endMark⟩
  cases r with
  | entry path attrs => exact hadd path attrs h.1 h.2
  | block path attrs => exact hadd path attrs h.1 h.2
  | erase path => exact isSpace_pathText (CleanPath.names h)

/-! ## Replaying a log with a record that is cut off -/

section Torn

open LogEntry (CompleteLog Cut Satisfied SameAs ShortComment cutEntry meaning)

variable {entries : List LogEntry} {log : Str} (hlog : CompleteLog entries log) {r : LogRecord}
  (hr : r.Clean)

include hr

theorem Clean.head_ne_semicolon : ∀ path attrs, r.toEntry = .add path attrs →
    path.head? ≠ some ';' := by
  have hhead : ∀ {path : List Str}, CleanPath path → (pathText path).head? ≠ some ';' :=
    fun h => by rw [h.head_pathText]; decide
  rintro path attrs heq
  cases r with
  | entry p as =>
      cases heq
      exact hhead hr.1
  | block p as =>
      cases heq
      exact hhead hr.1
  | erase p => cases heq

theorem Clean.cut {p : Str} (hp : p <+: r.text) :
    IStream.Layout '#' (fun _ => False) (logWords p) p ∧ Cut r.toEntry (logWords p) := by
  obtain ⟨ws, hcut, hlayout⟩ := (layout_text hr).initial hp
  have hwords : logWords p = ws :=
    IStream.words_of_layout (by decide) (hlayout.mono fun _ h => h.elim)
  rw [hwords]
  rw [words_toEntry] at hcut
  exact ⟨hlayout, LogEntry.cut_of_cutShort hr.wellFormed hcut hlayout.isWord⟩

theorem Clean.completeLog : CompleteLog [r.toEntry] r.text := by
  refine ⟨List.forall_mem_singleton.2 hr.wellFormed, ?_, endsLine_text r⟩
  have hlayout : IStream.Layout '#' ShortComment r.words r.text := layout_text hr
  rw [words_toEntry] at hlayout
  simpa [LogEntry.Spells] using hlayout

include hlog

/-- The tree of the log, changed by what is left of the record. -/
theorem attrsAt_torn {p : Str} (hp : p <+: r.text) :
    (PersistNode.parse (log ++ p)).attrsAt
      = ((cutEntry (logWords p)).map (meaning (PersistNode.parse log).attrsAt)).getD
          (PersistNode.parse log).attrsAt := by
  obtain ⟨hlayout, hcut⟩ := hr.cut hp
  have hwords : logWords (log ++ p) = entries.flatMap LogEntry.words ++ logWords p :=
    hlog.spells.words_append (by decide) hlog.endsLine p
  obtain ⟨tok, htok⟩ : ∃ tok, IStream.lastRead '#' intMax [] (log ++ p)
      = IStream.lastRead '#' intMax tok p :=
    hlog.spells.lastRead_append (by decide) hlog.endsLine []
  have hlast : lastToken [] (log ++ p) = (logWords p).getLast?.getD tok := by
    rw [lastToken, htok]
    exact hlayout.lastRead_eq tok
  rw [PersistNode.parse_eq_finish, hwords, hlast, LogEntry.read_entries hlog.wellFormed,
    LogEntry.attrsAt_cut hr.wellFormed hr.head_ne_semicolon hcut hlayout.isWord,
    LogEntry.parse_of_spells hlog.wellFormed hlog.spells]

end Torn

end LogRecord

open LogRecord LogEntry in
/-- **A torn append.** What a prefix `p` of a record leaves behind does no harm exactly if it is
    nothing, or the whole record in effect, or something that was true before. Otherwise it is
    carried out like any other record. -/
theorem torn_append {entries : List LogEntry} {log : Str} (hlog : CompleteLog entries log)
    {r : LogRecord} (hr : r.Clean) {p : Str} (hp : p <+: r.text) :
    (PersistNode.parse (log ++ p) = PersistNode.parse log ∨
        PersistNode.parse (log ++ p) = PersistNode.parse (log ++ r.text) ↔
      ∀ e ∈ cutEntry (logWords p),
        Satisfied (PersistNode.parse log).attrsAt e ∨ e.SameAs r.toEntry) ∧
    ∀ e ∈ cutEntry (logWords p), (PersistNode.parse (log ++ p)).attrsAt
      = meaning (PersistNode.parse log).attrsAt e := by
  have htorn := attrsAt_torn hlog hr hp
  have hfull : (PersistNode.parse (log ++ r.text)).attrsAt
      = meaning (PersistNode.parse log).attrsAt r.toEntry := by
    rw [hlog.attrsAt_append hr.completeLog]
    rfl
  have hext : ∀ text text', (PersistNode.parse text).attrsAt = (PersistNode.parse text').attrsAt →
      PersistNode.parse text = PersistNode.parse text' := fun text text' =>
    (PersistNode.sorted_parse text).ext (PersistNode.sorted_parse text')
  cases hcut : cutEntry (logWords p) with
  | none =>
      rw [hcut] at htorn
      simp only [Option.mem_def, reduceCtorEq, false_implies, implies_true, iff_true, and_true]
      exact Or.inl (hext _ _ htorn)
  | some e =>
      rw [hcut, Option.map_some, Option.getD_some] at htorn
      simp only [Option.mem_def, Option.some.injEq, forall_eq']
      refine ⟨⟨?_, ?_⟩, htorn⟩
      · rintro (heq | heq)
        · rw [heq] at htorn
          exact Or.inl ((meaning_eq_self_iff (prefixClosed_attrsAt _) e).1 htorn.symm)
        · rw [heq, hfull] at htorn
          exact cut_harmless (hr.cut hp).2 hcut hr.wellFormed htorn.symm
      · rintro (hsat | hsame)
        · exact Or.inl (hext _ _ (htorn.trans
            ((meaning_eq_self_iff (prefixClosed_attrsAt _) e).2 hsat)))
        · exact Or.inr (hext _ _ (htorn.trans ((hsame.meaning _).trans hfull.symm)))

open LogRecord LogEntry in
/-- The path that is left of a deletion names a channel that is not there. -/
theorem torn_append_nothing :
    PersistNode.parse (factoryLog ++ "-ecf/a".toList) = PersistNode.parse factoryLog ∨
      PersistNode.parse (factoryLog ++ "-ecf/a".toList)
        = PersistNode.parse (factoryLog ++ (erase [ecf, ['a', 'b']]).text) := by
  have hr : (erase [ecf, ['a', 'b']]).Clean := by
    refine ⟨rfl, ?_⟩
    exact (by decide : ∀ s ∈ [ecf, ['a', 'b']], ∀ c ∈ s, c ≠ '/' ∧ isSpace c = false)
  have hp : "-ecf/a".toList <+: (erase [ecf, ['a', 'b']]).text := by decide
  refine (torn_append completeLog_factoryLog hr hp).1.2 fun e he => Or.inl ?_
  have hwords : logWords "-ecf/a".toList = ["-ecf/a".toList] :=
    IStream.words_of_layout (by decide) (.word ⟨by decide, by decide, by decide⟩
      (by simp [IStream.Separated]) .nil)
  rw [hwords] at he
  cases he
  exact (by decide : (PersistNode.parse factoryLog).attrsAt (components "ecf/a".toList) = none)

/-- A log with a channel. -/
def channelLog : Str := LogEntry.factoryLog ++ "ecf/a ;;\n".toList

open LogRecord LogEntry in
/-- The path that is left of a deletion names another channel, which is deleted. -/
theorem torn_deletion :
    CompleteLog [.add ecf ["port=11169".toList], .add "ecf/a".toList []] channelLog ∧
    (erase [ecf, ['a', 'b']]).Clean ∧
    "-ecf/a".toList <+: (erase [ecf, ['a', 'b']]).text ∧
    "-ecf/a".toList ≠ (erase [ecf, ['a', 'b']]).text ∧
    ¬ (PersistNode.parse (channelLog ++ "-ecf/a".toList) = PersistNode.parse channelLog ∨
      PersistNode.parse (channelLog ++ "-ecf/a".toList)
        = PersistNode.parse (channelLog ++ (erase [ecf, ['a', 'b']]).text)) := by
  have hchannel : CompleteLog [.add "ecf/a".toList []] "ecf/a ;;\n".toList := by
    refine ⟨List.forall_mem_singleton.2 ⟨⟨by decide, by decide, by decide⟩, by decide, by decide,
      by simp⟩, ?_, IStream.endsLine_concat "ecf/a ;;".toList⟩
    exact .wordSpace ⟨by decide, by decide, by decide⟩ (by decide)
      (.wordSpace (w := endMark) ⟨by decide, by decide, by decide⟩ (by decide) .nil)
  have hgone : (PersistNode.parse (channelLog ++ "-ecf/a".toList)).attrsAt [ecf, ['a']] = none := by
    decide
  refine ⟨completeLog_factoryLog.append hchannel, ⟨rfl, ?_⟩, by decide, by decide, ?_⟩
  · exact (by decide : ∀ s ∈ [ecf, ['a', 'b']], ∀ c ∈ s, c ≠ '/' ∧ isSpace c = false)
  · rintro (heq | heq)
    · rw [heq] at hgone
      revert hgone
      decide
    · rw [heq] at hgone
      revert hgone
      decide

end OmniEvents
