import OmniEvents.PersistTree

set_option autoImplicit false

/-! # Replaying a log

The parser reads a text character by character and reuses its token buffer. Seen from outside it is
a small machine over the words of the text (`ReadState.read`), as long as the text does not end in
the middle of a record (`parse_eq`): the buffer is stale only after the last word, where it can at
most repeat a deletion. On top of that machine a log is a list of records (`LogRecord`): its text
replays to the tree that the records describe one after the other (`replay_text`). -/

namespace OmniEvents.PersistNode

/-! ## The parser as a machine over words -/

/-- The words of a log, comments left out. -/
abbrev logWords (text : Str) : List Str := IStream.words '#' intMax text

/-- The tree read so far and the path of the record being read. -/
structure ReadState where
  root : PersistNode
  node : Option (List Str)

/-- Read words up to the end, or up to an end marker that ends no record. -/
def ReadState.read : ReadState → List Str → ReadState
  | s, [] => s
  | ⟨root, some path⟩, t :: ts =>
      if t = endMark then ReadState.read ⟨root, none⟩ ts
      else ReadState.read ⟨root.modifyAt (·.addattr t) path, some path⟩ ts
  | ⟨root, none⟩, t :: ts =>
      if t = endMark then ⟨root, none⟩
      else if t.head? = some '-' then ReadState.read ⟨root.delnode t.tail, none⟩ ts
      else ReadState.read ⟨root.addnode t, some (components t)⟩ ts

/-- The stream has delivered everything before the words `ts`, and has not failed. -/
structure Delivers (is : IStream) (ts : List Str) : Prop where
  notFail : is.fail = false
  atEnd : is.eof = true → is.rest = []
  rest : logWords is.rest = ts

theorem delivers_ofText (text : Str) : Delivers (IStream.ofText text) (logWords text) :=
  ⟨rfl, by simp [IStream.ofText], rfl⟩

/-- One extraction from a stream that has not failed. -/
theorem extract_cases {is : IStream} (hfail : is.fail = false) (heof : is.eof = true → is.rest = [])
    (tok : Str) :
    (is.rest.dropWhile isSpace = [] ∧
      ∃ is' : IStream, is.extract tok = (is', tok) ∧ is'.fail = true) ∨
    (∃ c cs, is.rest.dropWhile isSpace = c :: cs ∧ isSpace c = false ∧
      is.extract tok =
        (⟨IStream.afterWord (c :: cs), (IStream.afterWord (c :: cs)).isEmpty, false⟩,
          c :: IStream.word cs)) := by
  cases hdrop : is.rest.dropWhile isSpace with
  | nil =>
      refine Or.inl ⟨rfl, ?_⟩
      by_cases h : is.eof = true
      · exact ⟨{ is with fail := true }, by simp [IStream.extract, h], rfl⟩
      · exact ⟨⟨[], true, true⟩, by simp [IStream.extract, h, hfail, hdrop], rfl⟩
  | cons c cs =>
      have hc := IStream.not_isSpace_of_dropWhile hdrop
      have h : is.eof = false := by
        cases h : is.eof with
        | false => rfl
        | true => rw [heof h] at hdrop; cases hdrop
      exact Or.inr ⟨c, cs, rfl, hc, by simp [IStream.extract, h, hfail, hdrop, IStream.word_cons cs hc]⟩

/-- Skipping the rest of a line, right after a word. -/
theorem ignore_cases (ds : Str) :
    (IStream.ignore ⟨ds, ds.isEmpty, false⟩ intMax '\n').fail = true ∧ ds = [] ∨
    IStream.ignore ⟨ds, ds.isEmpty, false⟩ intMax '\n'
      = ⟨(IStream.ignoreUpTo '\n' intMax ds).1, (IStream.ignoreUpTo '\n' intMax ds).2, false⟩ := by
  cases ds with
  | nil => exact Or.inl ⟨rfl, rfl⟩
  | cons d ds => exact Or.inr rfl

theorem readtoken_fail {fuel : ℕ} {is : IStream} {tok : Str} (h : is.fail = true) :
    readtoken fuel is tok = (is, tok, false) := by
  cases fuel with
  | zero => rfl
  | succ fuel => simp [readtoken, h]

/-- What the buffer holds when the words run out. -/
abbrev lastToken (tok text : Str) : Str := IStream.lastRead '#' intMax tok text

/-- A token that is left in the buffer is delivered once more. -/
def Stale (tok : Str) : Prop := tok ≠ [] ∧ tok.head? ≠ some '#'

instance (tok : Str) : Decidable (Stale tok) := inferInstanceAs (Decidable (_ ∧ _))

/-- What `readtoken` does at the words `ts`. After the last of them it fails, or delivers the stale
    token once more. -/
theorem readtoken_spec (fuel : ℕ) (is : IStream) (ts : List Str) (tok : Str)
    (hd : Delivers is ts) (hfuel : is.rest.length + 2 ≤ fuel) :
    (∃ t us is', ts = t :: us ∧ readtoken fuel is tok = (is', t, true) ∧ Delivers is' us ∧
      is'.rest.length < is.rest.length ∧ lastToken tok is.rest = lastToken t is'.rest) ∨
    (ts = [] ∧ ∃ is' ok, readtoken fuel is tok = (is', lastToken tok is.rest, ok) ∧
      is'.fail = true ∧ (ok = true ↔ Stale (lastToken tok is.rest)) ∧
      (ok = true → lastToken tok is.rest = tok)) := by
  induction hn : is.rest.length using Nat.strong_induction_on generalizing fuel is tok with
  | _ n ih =>
      subst hn
      obtain ⟨fuel, rfl⟩ : ∃ k, fuel = k + 1 := ⟨fuel - 1, by omega⟩
      rcases extract_cases hd.notFail hd.atEnd tok with
        ⟨hdrop, is', hext, hfail⟩ | ⟨c, cs, hdrop, hc, hext⟩
      · -- no word is left: the target keeps its value
        have hts : ts = [] := by rw [← hd.rest, logWords, IStream.words_of_dropWhile_nil hdrop]
        refine Or.inr ⟨hts, ?_⟩
        rw [lastToken, IStream.lastRead_of_dropWhile_nil hdrop, readtoken,
          if_neg (by simp [hd.notFail]), hext]
        cases tok with
        | nil => exact ⟨is', false, rfl, hfail, by simp [Stale], by simp⟩
        | cons d ds =>
            by_cases hhash : d = '#'
            · have hign : (is'.ignore intMax '\n').fail = true := by
                simp [IStream.ignore, hfail]
              refine ⟨is'.ignore intMax '\n', false, ?_, hign, by simp [Stale, hhash], by simp⟩
              simp only [hhash, ne_eq, not_true_eq_false, if_false]
              exact readtoken_fail hign
            · exact ⟨is', true, by simp [hhash], hfail, by simp [Stale, hhash], by simp⟩
      · have hwords := @IStream.words_of_dropWhile_cons '#' intMax _ _ _ hdrop
        have hlast := @IStream.lastRead_of_dropWhile_cons '#' intMax tok _ _ _ hdrop
        have hle : (c :: cs).length ≤ is.rest.length :=
          hdrop ▸ (List.dropWhile_suffix isSpace).sublist.length_le
        have hafter := IStream.length_afterWord_le cs
        simp only [List.length_cons] at hle
        rw [readtoken, if_neg (by simp [hd.notFail]), hext]
        rw [IStream.afterWord_cons cs hc] at hwords hlast ⊢
        by_cases hhash : c = '#'
        · -- a comment: skip the rest of its line and go on
          rw [if_pos hhash] at hwords hlast
          simp only [hhash, ne_eq, not_true_eq_false, if_false]
          rw [IStream.word_cons cs hc, hhash] at hlast
          generalize hrest : IStream.afterWord cs = ds at hwords hlast hafter
          have hlen := IStream.length_ignoreUpTo_le '\n' intMax ds
          rcases ignore_cases ds with ⟨hfail, hnil⟩ | heq
          · have hbuffer : lastToken tok is.rest = '#' :: IStream.word cs := by
              rw [lastToken, hlast, hnil]
              exact IStream.lastRead_of_dropWhile_nil rfl
            rw [hbuffer]
            refine Or.inr ⟨?_, _, _, readtoken_fail hfail, hfail, by simp [Stale], by simp⟩
            rw [← hd.rest, logWords, hwords, hnil]
            exact IStream.words_nil
          · rw [heq]
            have hdel : Delivers ⟨(IStream.ignoreUpTo '\n' intMax ds).1,
                (IStream.ignoreUpTo '\n' intMax ds).2, false⟩ ts :=
              ⟨rfl, IStream.ignoreUpTo_eof, by
                show logWords _ = ts
                rw [← hd.rest]
                exact hwords.symm⟩
            have := ih (IStream.ignoreUpTo '\n' intMax ds).1.length (by omega) fuel _
              ('#' :: IStream.word cs) hdel
              (by show (IStream.ignoreUpTo '\n' intMax ds).1.length + 2 ≤ fuel; omega) rfl
            rw [lastToken, hlast]
            rcases this with ⟨t, us, is', hts, hread, hdel', hlt, hsame⟩ |
              ⟨hts, is', ok, hread, hf, hok, hsame⟩
            · exact Or.inl ⟨t, us, is', hts, hread, hdel', by omega, hsame⟩
            · -- the token left over is the comment itself, which is never delivered
              refine Or.inr ⟨hts, is', ok, hread, hf, hok, ?_⟩
              intro h
              have hstale := hok.1 h
              rw [hsame h] at hstale
              exact absurd rfl hstale.2
        · rw [if_neg hhash, IStream.word_cons cs hc] at hwords
          rw [if_neg hhash, IStream.word_cons cs hc] at hlast
          refine Or.inl ⟨c :: IStream.word cs, IStream.words '#' intMax (IStream.afterWord cs),
            ⟨IStream.afterWord cs, (IStream.afterWord cs).isEmpty, false⟩,
            hd.rest.symm.trans hwords, by simp [hhash], ⟨rfl, by simp, rfl⟩, ?_, hlast⟩
          show (IStream.afterWord cs).length < is.rest.length
          omega

/-- Between records the buffer may hold nothing, or a deletion that has been done already. -/
def StaleSafe (root : PersistNode) (tok : Str) : Prop :=
  tok ≠ [] → tok.head? = some '-' ∧ root.delnode tok.tail = root

theorem delnode_delnode (n : PersistNode) (name : Str) :
    (n.delnode name).delnode name = n.delnode name :=
  delPath_delPath _ n

/-- What is left to do when the words have run out: a record that is still open gets the stale token
    as an attribute. -/
def ReadState.finish (tok : Str) : ReadState → PersistNode
  | ⟨root, none⟩ => root
  | ⟨root, some path⟩ => if Stale tok then root.modifyAt (·.addattr tok) path else root

/-- What the loop of the constructor makes of the result of one `readnode`. -/
def continueWith (fuel : ℕ) : IStream × PersistNode × Bool → PersistNode
  | (is, root, true) => readnodes fuel is root
  | (_, root, false) => root

theorem readnodes_succ (fuel : ℕ) (is : IStream) (root : PersistNode) :
    readnodes (fuel + 1) is root
      = continueWith fuel (readnode (is.rest.length + 2) is root none []) := by
  rw [readnodes]
  rcases readnode (is.rest.length + 2) is root none [] with ⟨is', root', b⟩
  cases b <;> rfl

theorem readnode_fail {fuel : ℕ} {is : IStream} {root : PersistNode} {node : Option (List Str)}
    {tok : Str} (h : is.fail = true) :
    readnode fuel is root node tok = (is, root, node.isSome) := by
  cases fuel with
  | zero => rfl
  | succ fuel =>
      rw [readnode, readtoken_fail h]
      rfl

theorem readnodes_fail {fuel : ℕ} {is : IStream} {root : PersistNode} (h : is.fail = true) :
    readnodes fuel is root = root := by
  cases fuel with
  | zero => rfl
  | succ fuel =>
      rw [readnodes_succ, readnode_fail h]
      rfl

/-- The end of the text between records. -/
theorem readnode_end_none {fuel outer : ℕ} {is : IStream} {root : PersistNode} {tok : Str}
    (hd : Delivers is []) (hfuel : 1 ≤ fuel) (hstale : StaleSafe root tok) :
    continueWith outer (readnode fuel is root none tok) = root := by
  obtain ⟨fuel, rfl⟩ : ∃ k, fuel = k + 1 := ⟨fuel - 1, by omega⟩
  rcases readtoken_spec (is.rest.length + 2) is [] tok hd le_rfl with
    ⟨t, us, is', hts, -⟩ | ⟨-, is', ok, hread, hfail, hok, hsame⟩
  · cases hts
  rw [readnode, hread]
  cases ok with
  | false => rfl
  | true =>
      -- the last deletion is delivered again
      obtain ⟨hne, -⟩ := hok.1 rfl
      rw [hsame rfl] at hne ⊢
      obtain ⟨hdash, hdel⟩ := hstale hne
      have hmark : tok ≠ endMark := by
        rintro rfl
        simp [endMark] at hdash
      simp only [Bool.not_true, Bool.false_or, beq_iff_eq, hmark, if_false, hdash, if_true, hdel]
      rw [readnode_fail hfail]
      rfl

/-- The end of the text in the middle of a record. -/
theorem readnode_end_some {fuel outer : ℕ} {is : IStream} {root : PersistNode} {path : List Str}
    {tok : Str} (hd : Delivers is []) (hfuel : 1 ≤ fuel) (hopen : tok ≠ endMark) :
    continueWith outer (readnode fuel is root (some path) tok)
      = ReadState.finish (lastToken tok is.rest) ⟨root, some path⟩ := by
  obtain ⟨fuel, rfl⟩ : ∃ k, fuel = k + 1 := ⟨fuel - 1, by omega⟩
  rcases readtoken_spec (is.rest.length + 2) is [] tok hd le_rfl with
    ⟨t, us, is', hts, -⟩ | ⟨-, is', ok, hread, hfail, hok, hsame⟩
  · cases hts
  rw [readnode, hread, ReadState.finish]
  cases ok with
  | false =>
      rw [if_neg (fun h => Bool.noConfusion (hok.2 h))]
      exact readnodes_fail hfail
  | true =>
      rw [if_pos (hok.1 rfl), hsame rfl]
      simp only [Bool.not_true, Bool.false_or, beq_iff_eq, hopen, if_false]
      rw [readnode_fail hfail]
      exact readnodes_fail hfail

/-- A word that is still to be read makes the buffer forget what it held. -/
theorem lastToken_congr {is : IStream} {t : Str} {ts : List Str} (hd : Delivers is (t :: ts))
    (tok tok' : Str) : lastToken tok is.rest = lastToken tok' is.rest := by
  cases hdrop : is.rest.dropWhile isSpace with
  | nil =>
      have hnil : logWords is.rest = [] := IStream.words_of_dropWhile_nil hdrop
      rw [hd.rest] at hnil
      cases hnil
  | cons c cs =>
      rw [lastToken, lastToken, IStream.lastRead_of_dropWhile_cons hdrop,
        IStream.lastRead_of_dropWhile_cons hdrop]

/-- From any point of the loop to its end. -/
theorem continueWith_readnode {fuel outer : ℕ} {is : IStream} {root : PersistNode}
    {node : Option (List Str)} {tok : Str} {ts : List Str} (hd : Delivers is ts)
    (hfuel : is.rest.length + 2 ≤ fuel) (houter : is.rest.length + 1 ≤ outer)
    (hstale : node = none → StaleSafe root tok) (hopen : node ≠ none → tok ≠ endMark) :
    continueWith outer (readnode fuel is root node tok)
      = (ReadState.read ⟨root, node⟩ ts).finish (lastToken tok is.rest) := by
  induction ts generalizing fuel outer is root node tok with
  | nil =>
      cases node with
      | none => exact readnode_end_none hd (by omega) (hstale rfl)
      | some path => exact readnode_end_some hd (by omega) (hopen (by simp))
  | cons t us ih =>
      obtain ⟨fuel, rfl⟩ : ∃ k, fuel = k + 1 := ⟨fuel - 1, by omega⟩
      rcases readtoken_spec (is.rest.length + 2) is (t :: us) tok hd le_rfl with
        ⟨t', us', is', hts, hread, hd', hlt, hsame⟩ | ⟨hts, -⟩
      · cases hts
        rw [readnode, hread, hsame]
        simp only [Bool.not_true, Bool.false_or, beq_iff_eq]
        cases node with
        | some path =>
            rw [ReadState.read]
            split
            · next hmark =>
                obtain ⟨outer, rfl⟩ : ∃ k, outer = k + 1 := ⟨outer - 1, by omega⟩
                show readnodes (outer + 1) is' root = _
                rw [readnodes_succ]
                refine (ih hd' le_rfl (by omega) (fun _ h => absurd rfl h)
                  (fun h => absurd rfl h)).trans ?_
                -- the buffer is fresh; it matters only if a word follows
                cases us with
                | nil => rfl
                | cons u us => rw [lastToken_congr hd' [] t]
            · next hmark => exact ih hd' (by omega) (by omega) (by simp) (fun _ => hmark)
        | none =>
            rw [ReadState.read]
            split
            · rfl
            · next hmark =>
                simp only
                split
                · next hdash =>
                    exact ih hd' (by omega) (by omega)
                      (fun _ _ => ⟨hdash, delnode_delnode root t.tail⟩) (fun h => absurd rfl h)
                · next hdash =>
                    exact ih hd' (by omega) (by omega) (by simp) (fun _ => hmark)
      · cases hts

/-- The constructor reads the words of the text one after the other, and perhaps the last of them
    twice. -/
theorem parse_eq_finish (text : Str) :
    parse text = (ReadState.read ⟨empty, none⟩ (logWords text)).finish (lastToken [] text) := by
  rw [parse]
  show readnodes ((IStream.ofText text).rest.length + 1 + 1) _ _ = _
  rw [readnodes_succ]
  exact continueWith_readnode (delivers_ofText text) le_rfl le_rfl
    (fun _ h => absurd rfl h) (fun h => absurd rfl h)

/-- The same for a text in which no record is cut off. -/
theorem parse_eq {text : Str} (hend : (ReadState.read ⟨empty, none⟩ (logWords text)).node = none) :
    parse text = (ReadState.read ⟨empty, none⟩ (logWords text)).root := by
  rw [parse_eq_finish]
  revert hend
  cases ReadState.read ⟨empty, none⟩ (logWords text) with
  | mk root node =>
      rintro rfl
      rfl

end OmniEvents.PersistNode
