import Mathlib.Data.List.TakeWhile

set_option autoImplicit false

/-! # Formatted input from a C++ stream

The part of `std::istream` that a word-by-word reader observes: the characters not read yet and the
`eofbit` and `failbit`. `extract` is `is >> word`, which leaves its target untouched when there is no
word left, and `ignore` is `is.ignore(n, delim)`. `words` is what a reader that skips line comments
gets to see of a text. -/

/-- `isspace` in the C locale. -/
def isSpace (c : Char) : Bool :=
  c == ' ' || c == '\n' || c == '\t' || c == '\r' || c.toNat == 11 || c.toNat == 12

/-- A statement about the characters of a text is decided over the text, not over all characters. -/
instance decidableForallMem (p : Char → Prop) [DecidablePred p] (cs : List Char) :
    Decidable (∀ c, c ∈ cs → p c) := List.decidableBAll p cs

/-- A stream of characters with its two flags. -/
structure IStream where
  rest : List Char
  eof : Bool
  fail : Bool
  deriving DecidableEq, Repr

namespace IStream

/-- A stream that is about to be read. -/
def ofText (text : List Char) : IStream := ⟨text, false, false⟩

/-- The longest initial segment without white space. -/
def word (cs : List Char) : List Char := cs.takeWhile (fun c => !isSpace c)

/-- What follows it. -/
def afterWord (cs : List Char) : List Char := cs.dropWhile (fun c => !isSpace c)

/-- `is >> tok`. A stream that is not good fails at once; one with nothing but white space left
    fails at the end of the text; both leave `tok` as it was. -/
def extract (is : IStream) (tok : List Char) : IStream × List Char :=
  if is.eof || is.fail then ({ is with fail := true }, tok)
  else
    match is.rest.dropWhile isSpace with
    | [] => (⟨[], true, true⟩, tok)
    | c :: cs => (⟨afterWord (c :: cs), (afterWord (c :: cs)).isEmpty, false⟩, word (c :: cs))

/-- Drop characters up to and including `delim`, at most `n` of them; and whether the end of the
    text was met. -/
def ignoreUpTo (delim : Char) : ℕ → List Char → List Char × Bool
  | n, [] => ([], decide (n ≠ 0))
  | n, c :: cs =>
      if n = 0 then (c :: cs, false)
      else if c = delim then (cs, false)
      else ignoreUpTo delim (n - 1) cs

/-- `is.ignore(n, delim)`. -/
def ignore (is : IStream) (n : ℕ) (delim : Char) : IStream :=
  if is.eof || is.fail then { is with fail := true }
  else ⟨(ignoreUpTo delim n is.rest).1, (ignoreUpTo delim n is.rest).2, false⟩

theorem length_ignoreUpTo_le (delim : Char) (n : ℕ) (cs : List Char) :
    (ignoreUpTo delim n cs).1.length ≤ cs.length := by
  induction cs generalizing n with
  | nil => simp [ignoreUpTo]
  | cons c cs ih =>
      simp only [ignoreUpTo]
      split
      · exact le_rfl
      · split
        · exact Nat.le_succ _
        · exact (ih (n - 1)).trans (Nat.le_succ _)

/-- The end of the text is met only when nothing is left. -/
theorem ignoreUpTo_eof {delim : Char} {n : ℕ} {cs : List Char}
    (h : (ignoreUpTo delim n cs).2 = true) : (ignoreUpTo delim n cs).1 = [] := by
  induction cs generalizing n with
  | nil => rfl
  | cons c cs ih =>
      simp only [ignoreUpTo] at h ⊢
      split at h
      · cases h
      · split at h
        · cases h
        · next h₁ h₂ =>
            rw [if_neg h₁, if_neg h₂]
            exact ih h

/-! ## The words of a text -/

theorem length_afterWord_le (cs : List Char) : (afterWord cs).length ≤ cs.length :=
  (List.dropWhile_suffix _).sublist.length_le

theorem word_cons {c : Char} (cs : List Char) (h : isSpace c = false) :
    word (c :: cs) = c :: word cs := by
  simp [word, h]

theorem afterWord_cons {c : Char} (cs : List Char) (h : isSpace c = false) :
    afterWord (c :: cs) = afterWord cs := by
  simp [afterWord, h]

/-- What white space is skipped before starts with a character of a word. -/
theorem not_isSpace_of_dropWhile {c : Char} {cs ds : List Char}
    (h : ds.dropWhile isSpace = c :: cs) : isSpace c = false := by
  have := List.head?_dropWhile_not isSpace ds
  rw [h] at this
  simpa using this

/-- The words of a text, leaving out comments: a word that starts with `comment` hides itself and
    the rest of its line (up to `limit` characters of it). -/
def words (comment : Char) (limit : ℕ) (cs : List Char) : List (List Char) :=
  match _h : cs.dropWhile isSpace with
  | [] => []
  | c :: ds =>
      if c = comment then words comment limit (ignoreUpTo '\n' limit (afterWord (c :: ds))).1
      else word (c :: ds) :: words comment limit (afterWord (c :: ds))
termination_by cs.length
decreasing_by
  all_goals
    have hc := not_isSpace_of_dropWhile _h
    have hle : (c :: ds).length ≤ cs.length :=
      _h ▸ (List.dropWhile_suffix isSpace).sublist.length_le
    have hafter := length_afterWord_le ds
    rw [afterWord_cons ds hc]
    simp only [List.length_cons] at hle
  · have := length_ignoreUpTo_le '\n' limit (afterWord ds)
    omega
  · omega

variable {comment : Char} {limit : ℕ}

theorem words_of_dropWhile_nil {cs : List Char} (h : cs.dropWhile isSpace = []) :
    words comment limit cs = [] := by
  rw [words]
  split
  · rfl
  · next h' => rw [h] at h'; cases h'

theorem words_of_dropWhile_cons {cs ds : List Char} {c : Char}
    (h : cs.dropWhile isSpace = c :: ds) :
    words comment limit cs =
      if c = comment then words comment limit (ignoreUpTo '\n' limit (afterWord (c :: ds))).1
      else word (c :: ds) :: words comment limit (afterWord (c :: ds)) := by
  rw [words]
  split
  · next h' => rw [h] at h'; cases h'
  · next h' =>
      rw [h] at h'
      cases h'
      rfl

@[simp] theorem words_nil : words comment limit [] = [] := words_of_dropWhile_nil rfl

/-- White space before a text changes none of its words. -/
theorem words_cons_space {c : Char} (hc : isSpace c = true) (cs : List Char) :
    words comment limit (c :: cs) = words comment limit cs := by
  have hdrop : (c :: cs).dropWhile isSpace = cs.dropWhile isSpace := by simp [hc]
  cases h : cs.dropWhile isSpace with
  | nil => rw [words_of_dropWhile_nil (hdrop.trans h), words_of_dropWhile_nil h]
  | cons d ds => rw [words_of_dropWhile_cons (hdrop.trans h), words_of_dropWhile_cons h]

theorem words_space_append {ws : List Char} (hws : ∀ c ∈ ws, isSpace c = true) (cs : List Char) :
    words comment limit (ws ++ cs) = words comment limit cs := by
  induction ws with
  | nil => rfl
  | cons c ws ih =>
      rw [List.cons_append, words_cons_space (hws c (List.mem_cons_self ..)),
        ih (fun d hd => hws d (List.mem_cons_of_mem _ hd))]

/-- A word of a text: not empty, without white space, not a comment. -/
structure IsWord (comment : Char) (w : List Char) : Prop where
  ne_nil : w ≠ []
  noSpace : ∀ c ∈ w, isSpace c = false
  notComment : w.head? ≠ some comment

theorem word_append {w cs : List Char} {c : Char} (hw : ∀ c ∈ w, isSpace c = false)
    (hc : isSpace c = true) : word (w ++ c :: cs) = w := by
  rw [word, List.takeWhile_append_of_pos (by simpa using hw)]
  simp [hc]

theorem afterWord_append {w cs : List Char} {c : Char} (hw : ∀ c ∈ w, isSpace c = false)
    (hc : isSpace c = true) : afterWord (w ++ c :: cs) = c :: cs := by
  rw [afterWord, List.dropWhile_append_of_pos (by simpa using hw)]
  simp [hc]

/-- A word followed by white space is read, and reading goes on after the white space. -/
theorem words_append {w cs : List Char} {c : Char} (hw : IsWord comment w)
    (hc : isSpace c = true) :
    words comment limit (w ++ c :: cs) = w :: words comment limit cs := by
  obtain ⟨d, ds, rfl⟩ := List.exists_cons_of_ne_nil hw.ne_nil
  have hd : isSpace d = false := hw.noSpace d (List.mem_cons_self ..)
  have hdrop : ((d :: ds) ++ c :: cs).dropWhile isSpace = d :: (ds ++ c :: cs) := by simp [hd]
  have hne : d ≠ comment := fun h => hw.notComment (by simp [h])
  rw [words_of_dropWhile_cons hdrop, if_neg hne, ← List.cons_append, word_append hw.noSpace hc,
    afterWord_append hw.noSpace hc, words_cons_space hc]

/-! ## The buffer at the end of a text -/

/-- What is left in the buffer `tok` when the words have run out: the word read last, or the first
    word of the last comment if that comes later. -/
def lastRead (comment : Char) (limit : ℕ) (tok cs : List Char) : List Char :=
  match _h : cs.dropWhile isSpace with
  | [] => tok
  | c :: ds =>
      lastRead comment limit (word (c :: ds))
        (if c = comment then (ignoreUpTo '\n' limit (afterWord (c :: ds))).1
          else afterWord (c :: ds))
termination_by cs.length
decreasing_by
  have hc := not_isSpace_of_dropWhile _h
  have hle : (c :: ds).length ≤ cs.length :=
    _h ▸ (List.dropWhile_suffix isSpace).sublist.length_le
  have hafter := length_afterWord_le ds
  have hignore := length_ignoreUpTo_le '\n' limit (afterWord ds)
  rw [afterWord_cons ds hc]
  simp only [List.length_cons] at hle
  split <;> omega

variable {tok : List Char}

theorem lastRead_of_dropWhile_nil {cs : List Char} (h : cs.dropWhile isSpace = []) :
    lastRead comment limit tok cs = tok := by
  rw [lastRead]
  split
  · rfl
  · next h' => rw [h] at h'; cases h'

theorem lastRead_of_dropWhile_cons {cs ds : List Char} {c : Char}
    (h : cs.dropWhile isSpace = c :: ds) :
    lastRead comment limit tok cs = lastRead comment limit (word (c :: ds))
      (if c = comment then (ignoreUpTo '\n' limit (afterWord (c :: ds))).1
        else afterWord (c :: ds)) := by
  rw [lastRead]
  split
  · next h' => rw [h] at h'; cases h'
  · next h' =>
      rw [h] at h'
      cases h'
      rfl

theorem lastRead_cons_space {c : Char} (hc : isSpace c = true) (cs : List Char) :
    lastRead comment limit tok (c :: cs) = lastRead comment limit tok cs := by
  have hdrop : (c :: cs).dropWhile isSpace = cs.dropWhile isSpace := by simp [hc]
  cases h : cs.dropWhile isSpace with
  | nil => rw [lastRead_of_dropWhile_nil (hdrop.trans h), lastRead_of_dropWhile_nil h]
  | cons d ds => rw [lastRead_of_dropWhile_cons (hdrop.trans h), lastRead_of_dropWhile_cons h]

end IStream
