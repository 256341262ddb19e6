import OmniEvents.Lib.IStream

set_option autoImplicit false

/-! # Texts that spell words

`Layout comment ok ts text` says that `text` spells the words `ts`, with white space and line comments
anywhere between them. A comment is a word that starts with `comment`, and goes on to the end of its
line; `ok` is what is asked of the rest of the line. A reader that drops at most `limit` characters
of a comment reads the words back (`words_of_layout`) where no comment is longer than that. -/

namespace IStream

/-- The text is empty or starts with white space. -/
def Separated (text : List Char) : Prop := ∀ c ∈ text.head?, isSpace c = true

/-- Texts that are read as these tokens: they stand between white space, and comments do not
    count. -/
inductive Layout (comment : Char) (ok : List Char → Prop) :
    List (List Char) → List Char → Prop where
  | nil : Layout comment ok [] []
  | space {c : Char} {ts : List (List Char)} {text : List Char} (hc : isSpace c = true)
      (h : Layout comment ok ts text) : Layout comment ok ts (c :: text)
  | comment {line : List Char} {ts : List (List Char)} {text : List Char} (hline : '\n' ∉ line)
      (hok : ok line) (h : Layout comment ok ts text) :
      Layout comment ok ts (comment :: (line ++ '\n' :: text))
  /-- A comment that the text ends in. -/
  | lastComment {line : List Char} (hline : '\n' ∉ line) (hok : ok line) :
      Layout comment ok [] (comment :: line)
  | word {w : List Char} {ts : List (List Char)} {text : List Char} (hw : IsWord comment w)
      (hsep : Separated text) (h : Layout comment ok ts text) :
      Layout comment ok (w :: ts) (w ++ text)

/-- A reader that drops at most `limit` characters gets to the end of the line. -/
def Short (limit : ℕ) (line : List Char) : Prop := (afterWord line).length ≤ limit

instance (limit : ℕ) (line : List Char) : Decidable (Short limit line) :=
  inferInstanceAs (Decidable (_ ≤ _))

variable {comment : Char} {limit : ℕ} {ok : List Char → Prop} {ts us : List (List Char)}
  {text rest : List Char}

theorem Layout.isWord (h : Layout comment ok ts text) : ∀ w ∈ ts, IsWord comment w := by
  induction h with
  | nil => simp
  | space _ _ ih => exact ih
  | comment _ _ _ ih => exact ih
  | lastComment _ _ => simp
  | word hw _ _ ih => exact List.forall_mem_cons.2 ⟨hw, ih⟩

theorem separated_cons {c : Char} (hc : isSpace c = true) : Separated (c :: text) := by
  simpa [Separated] using hc

theorem Layout.mono {ok' : List Char → Prop} (himp : ∀ line, ok line → ok' line)
    (h : Layout comment ok ts text) : Layout comment ok' ts text := by
  induction h with
  | nil => exact .nil
  | space hc _ ih => exact .space hc ih
  | comment hline hok _ ih => exact .comment hline (himp _ hok) ih
  | lastComment hline hok => exact .lastComment hline (himp _ hok)
  | word hw hsep _ ih => exact .word hw hsep ih

/-! ## Putting texts together

Two texts can be put together if the first ends a line, since no word and no comment then goes from
the one into the other. -/

/-- The text is empty or its last line is complete. -/
def EndsLine (text : List Char) : Prop := ∀ c ∈ text.getLast?, c = '\n'

theorem endsLine_nil : EndsLine [] := by simp [EndsLine]

theorem endsLine_concat (text : List Char) : EndsLine (text ++ ['\n']) := by simp [EndsLine]

theorem EndsLine.of_cons {c : Char} (h : EndsLine (c :: text)) : EndsLine text := by
  cases text with
  | nil => exact endsLine_nil
  | cons d text => simpa [EndsLine] using h

theorem EndsLine.of_append {pre : List Char} (h : EndsLine (pre ++ text)) : EndsLine text := by
  induction pre with
  | nil => exact h
  | cons c pre ih => exact ih h.of_cons

theorem EndsLine.mem_of_ne_nil (h : EndsLine text) (hne : text ≠ []) : '\n' ∈ text := by
  have hlast := List.getLast?_eq_some_getLast hne
  rw [← h _ hlast]
  exact List.getLast_mem hne

theorem EndsLine.append_left (h : EndsLine text) (hne : text ≠ []) (pre : List Char) :
    EndsLine (pre ++ text) := by
  obtain ⟨c, text, rfl⟩ := List.exists_cons_of_ne_nil hne
  simpa [EndsLine, List.getLast?_append] using h

theorem EndsLine.append (h : EndsLine text) (hrest : EndsLine rest) : EndsLine (text ++ rest) := by
  by_cases hne : rest = []
  · simpa [hne] using h
  · exact hrest.append_left hne text

/-- What stands between a word and a line end is not lost when more text follows. -/
theorem Separated.append {w : List Char} (hsep : Separated text) (hw : IsWord comment w)
    (hend : EndsLine (w ++ text)) (rest : List Char) : Separated (text ++ rest) := by
  cases text with
  | nil =>
      rw [List.append_nil] at hend
      cases (hw.noSpace '\n' (hend.mem_of_ne_nil hw.ne_nil)).symm.trans
        (by decide : isSpace '\n' = true)
  | cons c text => exact hsep

theorem not_endsLine_comment (hcomment : isSpace comment = false) {line : List Char}
    (hline : '\n' ∉ line) : ¬ EndsLine (comment :: line) := by
  intro hend
  rcases List.mem_cons.1 (hend.mem_of_ne_nil (by simp)) with heq | hmem
  · rw [← heq] at hcomment
    cases hcomment.symm.trans (by decide : isSpace '\n' = true)
  · exact hline hmem

/-- A text of whole lines may be followed by any other. -/
theorem Layout.append (h : Layout comment ok ts text) (hend : EndsLine text)
    (hcomment : isSpace comment = false) (hrest : Layout comment ok us rest) :
    Layout comment ok (ts ++ us) (text ++ rest) := by
  induction h with
  | nil => exact hrest
  | space hc _ ih => exact .space hc (ih hend.of_cons)
  | @comment line ts text hline hok _ ih =>
      have htext : EndsLine text := hend.of_cons.of_append.of_cons
      simpa using Layout.comment hline hok (ih htext)
  | lastComment hline _ => exact absurd hend (not_endsLine_comment hcomment hline)
  | word hw hsep _ ih =>
      rw [List.append_assoc, List.cons_append]
      exact .word hw (hsep.append hw hend rest) (ih hend.of_append)

/-- A text that starts with a word has a first word that starts with it. -/
theorem Layout.head_word {w : List Char} (hw : IsWord comment w)
    (h : Layout comment ok ts (w ++ rest)) : ∃ v us, ts = (w ++ v) :: us := by
  obtain ⟨c, w, rfl⟩ := List.exists_cons_of_ne_nil hw.ne_nil
  generalize htext : c :: w ++ rest = text at h
  cases h with
  | nil => cases htext
  | space hc _ =>
      obtain ⟨rfl, -⟩ := List.cons.inj htext
      cases (hw.noSpace c (List.mem_cons_self ..)).symm.trans hc
  | comment =>
      obtain ⟨rfl, -⟩ := List.cons.inj htext
      exact absurd rfl hw.notComment
  | lastComment =>
      obtain ⟨rfl, -⟩ := List.cons.inj htext
      exact absurd rfl hw.notComment
  | @word w' us text' hw' hsep _ =>
      rcases List.append_eq_append_iff.1 htext with ⟨v, rfl, rfl⟩ | ⟨v, hv, rfl⟩
      · exact ⟨v, us, rfl⟩
      · cases v with
        | nil => exact ⟨[], us, by rw [hv, List.append_nil, List.append_nil]⟩
        | cons d v =>
            -- what follows the shorter word is a character of the longer one
            have hd : d ∈ c :: w := by rw [hv]; simp
            cases (hw.noSpace d hd).symm.trans (hsep d rfl)

/-- One word and one character of white space. -/
theorem Layout.wordSpace {w : List Char} {c : Char} (hw : IsWord comment w) (hc : isSpace c = true)
    (h : Layout comment ok ts text) : Layout comment ok (w :: ts) (w ++ c :: text) :=
  .word hw (separated_cons hc) (.space hc h)

/-! ## Reading the words -/

/-- Dropping a line of at most `n` characters leaves what follows it, and perhaps its end. -/
theorem ignoreUpTo_line {n : ℕ} {line : List Char} (hline : '\n' ∉ line) (hn : line.length ≤ n)
    (text : List Char) :
    (ignoreUpTo '\n' n (line ++ '\n' :: text)).1 = text ∨
      (ignoreUpTo '\n' n (line ++ '\n' :: text)).1 = '\n' :: text := by
  induction line generalizing n with
  | nil =>
      simp only [List.nil_append, ignoreUpTo]
      split
      · exact Or.inr rfl
      · exact Or.inl rfl
  | cons c line ih =>
      simp only [List.length_cons] at hn
      have hc : c ≠ '\n' := fun heq => hline (heq ▸ List.mem_cons_self ..)
      simp only [List.cons_append, ignoreUpTo]
      rw [if_neg (by omega), if_neg hc]
      exact ih (fun hmem => hline (List.mem_cons_of_mem _ hmem)) (by omega)

theorem words_ignoreUpTo {n : ℕ} {line : List Char} (hline : '\n' ∉ line) (hn : line.length ≤ n)
    (text : List Char) :
    words comment limit (ignoreUpTo '\n' n (line ++ '\n' :: text)).1 = words comment limit text := by
  rcases ignoreUpTo_line hline hn text with heq | heq
  · rw [heq]
  · rw [heq]
    exact words_cons_space (by decide) text

theorem ignoreUpTo_of_not_mem {n : ℕ} {line : List Char} (hline : '\n' ∉ line)
    (hn : line.length ≤ n) : (ignoreUpTo '\n' n line).1 = [] := by
  induction line generalizing n with
  | nil => rfl
  | cons c line ih =>
      simp only [List.length_cons] at hn
      have hc : c ≠ '\n' := fun heq => hline (heq ▸ List.mem_cons_self ..)
      simp only [ignoreUpTo]
      rw [if_neg (by omega), if_neg hc]
      exact ih (fun hmem => hline (List.mem_cons_of_mem _ hmem)) (by omega)

theorem not_mem_afterWord {c : Char} {line : List Char} (h : c ∉ line) : c ∉ afterWord line :=
  fun hmem => h ((List.dropWhile_suffix _).subset hmem)

/-- The first word of a comment ends where the line ends, at the latest. -/
theorem afterWord_append_newline (line text : List Char) :
    afterWord (line ++ '\n' :: text) = afterWord line ++ '\n' :: text := by
  induction line with
  | nil =>
      have hspace : isSpace '\n' = true := by decide
      simp [afterWord, hspace]
  | cons c line ih =>
      by_cases hc : isSpace c = true
      · simp [afterWord, hc]
      · rw [Bool.not_eq_true] at hc
        rw [List.cons_append, afterWord_cons _ hc, afterWord_cons _ hc, ih]

theorem words_word_append {w : List Char} (hw : IsWord comment w) (hsep : Separated text) :
    words comment limit (w ++ text) = w :: words comment limit text := by
  cases text with
  | nil =>
      obtain ⟨c, cs, rfl⟩ := List.exists_cons_of_ne_nil hw.ne_nil
      have hc : isSpace c = false := hw.noSpace c (List.mem_cons_self ..)
      have hne : c ≠ comment := fun heq => hw.notComment (by simp [heq])
      have hall : ∀ d ∈ c :: cs, (!isSpace d) = true := by simpa using hw.noSpace
      have hdrop : (c :: cs).dropWhile isSpace = c :: cs := by simp [hc]
      rw [List.append_nil, words_of_dropWhile_cons hdrop, if_neg hne, word, afterWord,
        List.takeWhile_eq_self_iff.2 hall, List.dropWhile_eq_nil_iff.2 hall]
  | cons c text =>
      have hc : isSpace c = true := hsep c rfl
      rw [words_append hw hc, words_cons_space hc]

/-- The words of a text are read, and then those of what follows its lines. -/
theorem Layout.words_append (hcomment : isSpace comment = false)
    (h : Layout comment (Short limit) ts text) (hend : EndsLine text) (rest : List Char) :
    words comment limit (text ++ rest) = ts ++ words comment limit rest := by
  induction h with
  | nil => rfl
  | space hc _ ih =>
      rw [List.cons_append, words_cons_space hc, ih hend.of_cons]
  | @comment line ts text hline hok _ ih =>
      have htext : EndsLine text := hend.of_cons.of_append.of_cons
      have hdrop : ((comment :: (line ++ '\n' :: text)) ++ rest).dropWhile isSpace
          = comment :: (line ++ '\n' :: (text ++ rest)) := by simp [hcomment]
      rw [words_of_dropWhile_cons hdrop, if_pos rfl, afterWord_cons _ hcomment,
        afterWord_append_newline, words_ignoreUpTo (not_mem_afterWord hline) hok, ih htext]
  | lastComment hline _ => exact absurd hend (not_endsLine_comment hcomment hline)
  | word hw hsep _ ih =>
      rw [List.append_assoc, words_word_append hw (hsep.append hw hend rest), ih hend.of_append,
        List.cons_append]

/-- **The words are read back** where no comment is too long. -/
theorem words_of_layout (hcomment : isSpace comment = false)
    (h : Layout comment (Short limit) ts text) : words comment limit text = ts := by
  induction h with
  | nil => exact words_nil
  | space hc _ ih => rw [words_cons_space hc, ih]
  | @comment line ts text hline hok _ ih =>
      have hdrop : (comment :: (line ++ '\n' :: text)).dropWhile isSpace
          = comment :: (line ++ '\n' :: text) := by simp [hcomment]
      rw [words_of_dropWhile_cons hdrop, if_pos rfl, afterWord_cons _ hcomment,
        afterWord_append_newline, words_ignoreUpTo (not_mem_afterWord hline) hok, ih]
  | @lastComment line hline hok =>
      have hdrop : (comment :: line).dropWhile isSpace = comment :: line := by simp [hcomment]
      rw [words_of_dropWhile_cons hdrop, if_pos rfl, afterWord_cons _ hcomment,
        ignoreUpTo_of_not_mem (not_mem_afterWord hline) hok, words_nil]
  | word hw hsep _ ih => rw [words_word_append hw hsep, ih]

/-! ## The word read last -/

theorem lastRead_word_append {tok w : List Char} (hw : IsWord comment w) (hsep : Separated text) :
    lastRead comment limit tok (w ++ text) = lastRead comment limit w text := by
  obtain ⟨c, cs, rfl⟩ := List.exists_cons_of_ne_nil hw.ne_nil
  have hc : isSpace c = false := hw.noSpace c (List.mem_cons_self ..)
  have hne : c ≠ comment := fun heq => hw.notComment (by simp [heq])
  have hall : ∀ d ∈ c :: cs, (!isSpace d) = true := by simpa using hw.noSpace
  have hdrop : ((c :: cs) ++ text).dropWhile isSpace = c :: (cs ++ text) := by simp [hc]
  have hword : word (c :: (cs ++ text)) = c :: cs := by
    rw [← List.cons_append, word, List.takeWhile_append_of_pos hall]
    cases text with
    | nil => simp
    | cons d text =>
        have hd : isSpace d = true := hsep d rfl
        simp [hd]
  have hafter : afterWord (c :: (cs ++ text)) = text := by
    rw [← List.cons_append, afterWord, List.dropWhile_append_of_pos hall]
    cases text with
    | nil => rfl
    | cons d text =>
        have hd : isSpace d = true := hsep d rfl
        simp [hd]
  rw [lastRead_of_dropWhile_cons hdrop, if_neg hne, hword, hafter]

/-- What is read before whole lines have been read does not matter for what is read after them. -/
theorem Layout.lastRead_append (hcomment : isSpace comment = false)
    (h : Layout comment (Short limit) ts text) (hend : EndsLine text) (tok : List Char) :
    ∃ tok', lastRead comment limit tok (text ++ rest) = lastRead comment limit tok' rest := by
  induction h generalizing tok with
  | nil => exact ⟨tok, rfl⟩
  | space hc _ ih =>
      rw [List.cons_append, lastRead_cons_space hc]
      exact ih hend.of_cons tok
  | @comment line ts text hline hok _ ih =>
      have htext : EndsLine text := hend.of_cons.of_append.of_cons
      have hdrop : ((comment :: (line ++ '\n' :: text)) ++ rest).dropWhile isSpace
          = comment :: (line ++ '\n' :: (text ++ rest)) := by simp [hcomment]
      rw [lastRead_of_dropWhile_cons hdrop, if_pos rfl, afterWord_cons _ hcomment,
        afterWord_append_newline]
      rcases ignoreUpTo_line (not_mem_afterWord hline) hok (text ++ rest) with heq | heq
      · rw [heq]
        exact ih htext _
      · rw [heq, lastRead_cons_space (by decide)]
        exact ih htext _
  | lastComment hline _ => exact absurd hend (not_endsLine_comment hcomment hline)
  | @word w ts text hw hsep _ ih =>
      rw [List.append_assoc, lastRead_word_append hw (hsep.append hw hend rest)]
      exact ih hend.of_append w

/-- In a text without comments it is the last of the words. -/
theorem Layout.lastRead_eq (h : Layout comment (fun _ => False) ts text) (tok : List Char) :
    lastRead comment limit tok text = ts.getLast?.getD tok := by
  induction h generalizing tok with
  | nil => exact lastRead_of_dropWhile_nil rfl
  | space hc _ ih => rw [lastRead_cons_space hc, ih]
  | comment _ hok _ _ => exact hok.elim
  | lastComment _ hok => exact hok.elim
  | @word w ts text hw hsep _ ih =>
      rw [lastRead_word_append hw hsep, ih, List.getLast?_cons, Option.getD_some]

/-! ## Cutting a text short

A beginning of a text has the tokens of the text in their order, and the last of them may be cut
short. -/

theorem Separated.initial {p : List Char} (h : Separated text) (hp : p <+: text) :
    Separated p := by
  cases p with
  | nil => simp [Separated]
  | cons c p =>
      obtain ⟨q, rfl⟩ := hp
      exact h

theorem IsWord.initial {w v : List Char} (h : IsWord comment w) (hv : v <+: w) (hne : v ≠ []) :
    IsWord comment v := by
  obtain ⟨u, rfl⟩ := hv
  obtain ⟨c, v, rfl⟩ := List.exists_cons_of_ne_nil hne
  exact ⟨hne, fun c hc => h.noSpace c (List.mem_append_left _ hc), h.notComment⟩

/-- Some of the words, and perhaps the beginning of the next one. -/
inductive CutShort : List (List Char) → List (List Char) → Prop where
  | nil {ts : List (List Char)} : CutShort ts []
  | last {w v : List Char} {ts : List (List Char)} (hv : v <+: w) (hne : v ≠ []) :
      CutShort (w :: ts) [v]
  | cons {w : List Char} {ts ws : List (List Char)} (h : CutShort ts ws) :
      CutShort (w :: ts) (w :: ws)

theorem CutShort.eq_nil {ws : List (List Char)} (h : CutShort [] ws) : ws = [] := by
  cases h
  rfl

theorem CutShort.of_cons {w v : List Char} {ws : List (List Char)}
    (h : CutShort (w :: ts) (v :: ws)) (hne : ws ≠ []) : v = w ∧ CutShort ts ws := by
  cases h with
  | last => exact absurd rfl hne
  | cons h => exact ⟨rfl, h⟩

/-- All words but the last are there in full. -/
theorem CutShort.mem_of_mem_init {as init : List (List Char)} {m x : List Char}
    (h : CutShort (as ++ [m]) (init ++ [x])) : ∀ t ∈ init, t ∈ as := by
  induction as generalizing init with
  | nil =>
      cases init with
      | nil => simp
      | cons b init =>
          -- after the only word nothing is left
          have hnil := (h.of_cons (by simp)).2.eq_nil
          simp at hnil
  | cons a as ih =>
      cases init with
      | nil => simp
      | cons b init =>
          obtain ⟨rfl, hrest⟩ := h.of_cons (by simp)
          exact List.forall_mem_cons.2
            ⟨List.mem_cons_self .., fun t ht => List.mem_cons_of_mem _ (ih hrest t ht)⟩

/-- A prefix of a text without comments. -/
theorem Layout.initial (h : Layout comment (fun _ => False) ts text) {p : List Char}
    (hp : p <+: text) : ∃ ws, CutShort ts ws ∧ Layout comment (fun _ => False) ws p := by
  induction h generalizing p with
  | nil =>
      obtain rfl := List.prefix_nil.1 hp
      exact ⟨[], .nil, .nil⟩
  | @space c ts text hc _ ih =>
      cases p with
      | nil => exact ⟨[], .nil, .nil⟩
      | cons d p =>
          obtain ⟨rfl, htail⟩ := List.cons_prefix_cons.1 hp
          obtain ⟨ws, hcut, hlayout⟩ := ih htail
          exact ⟨ws, hcut, .space hc hlayout⟩
  | comment _ hok _ _ => exact hok.elim
  | lastComment _ hok => exact hok.elim
  | @word w ts text hw hsep _ ih =>
      rcases List.prefix_or_prefix_of_prefix hp (List.prefix_append w text) with hpw | hwp
      · by_cases hnil : p = []
        · subst hnil
          exact ⟨[], .nil, .nil⟩
        · refine ⟨[p], .last hpw hnil, ?_⟩
          simpa using Layout.word (hw.initial hpw hnil) (by simp [Separated]) .nil
      · obtain ⟨q, rfl⟩ := hwp
        have hq : q <+: text := (List.prefix_append_right_inj w).1 hp
        obtain ⟨ws, hcut, hlayout⟩ := ih hq
        exact ⟨w :: ws, .cons hcut, .word hw (hsep.initial hq) hlayout⟩

/-! ## A comment that is too long -/

theorem ignoreUpTo_replicate (n : ℕ) (text : List Char) :
    (ignoreUpTo '\n' n (List.replicate n ' ' ++ text)).1 = text := by
  induction n with
  | zero => cases text <;> rfl
  | succ n ih =>
      rw [List.replicate_succ, List.cons_append, ignoreUpTo, if_neg (Nat.succ_ne_zero n),
        if_neg (by decide)]
      exact ih

/-- What stands more than `limit` characters into a comment is read as words. -/
theorem words_long_comment (hcomment : isSpace comment = false) (hlimit : 0 < limit)
    (text : List Char) :
    words comment limit (comment :: (List.replicate limit ' ' ++ text))
      = words comment limit text := by
  have hdrop : (comment :: (List.replicate limit ' ' ++ text)).dropWhile isSpace
      = comment :: (List.replicate limit ' ' ++ text) := by simp [hcomment]
  have hafter : afterWord (List.replicate limit ' ' ++ text) = List.replicate limit ' ' ++ text := by
    obtain ⟨k, rfl⟩ : ∃ k, limit = k + 1 := ⟨limit - 1, by omega⟩
    have hspace : isSpace ' ' = true := by decide
    simp [List.replicate_succ, afterWord, hspace]
  rw [words_of_dropWhile_cons hdrop, if_pos rfl, afterWord_cons _ hcomment, hafter,
    ignoreUpTo_replicate]

end IStream
