import OmniEvents.PersistNode

set_option autoImplicit false

/-! # The command line

Where the system has no `getopt`, omniEvents brings its own. It keeps its place in `letP` and `optind`
from one call to the next; the programs here call it until it returns `EOF`, and stop at an error. The
grammar of the command lines is `OptionWord` and `OptionTail`, and `getopt_reads` says that this is
what `getopt` reads.

On Windows the options of the service are kept in the registry: `writeParameters` joins them to one
text, and `setArgcArgv` splits that text up and puts its pieces before the arguments of a new start. -/

namespace OmniEvents

/-! ## `getopt` -/

/-- The state that `getopt` keeps between its calls: its static `letP`, and `optind`. -/
structure Getopt where
  /-- The rest of the argument that is being read, if it is not `NULL`. -/
  letP : Option Str
  optind : ℕ
  deriving DecidableEq, Repr

/-- What a call returns, none for `EOF`, the `optarg` that it leaves, and the new place. -/
abbrev GetoptResult := Option Char × Option Str × Getopt

namespace Getopt

/-- The static variables before the first call. -/
def init : Getopt := { letP := none, optind := 1 }

/-- What `optionS` says of a character: no option, or an option that needs a parameter or none. -/
def option (optionS : Str) (ch : Char) : Option Bool :=
  if ch = ':' then none
  else
    match optionS.dropWhile (· ≠ ch) with
    | [] => none
    | _ :: optP => some (decide (optP.head? = some ':'))

/-- The exit by `gotEOF`: no more options. -/
def eof (optind : ℕ) : GetoptResult := (none, none, { letP := none, optind := optind })

/-- The exit by `gotError`: an option is unknown, or its parameter missing. -/
def error (letP : Str) (optind : ℕ) : GetoptResult :=
  (some '?', none, { letP := some letP, optind := optind })

/-- The character at `letP`. -/
def next (argv : List Str) (optionS : Str) (optind : ℕ) : Str → GetoptResult
  | [] => eof (optind + 1)
  | ch :: letP =>
      match option optionS ch, letP with
      | none, letP => error letP optind
      | some true, [] =>
          -- the parameter is in the next argument
          match argv[optind + 1]? with
          | none => error [] (optind + 1)
          | some optarg => (some ch, some optarg, { letP := none, optind := optind + 2 })
      | some true, c :: letP =>
          (some ch, some (c :: letP), { letP := none, optind := optind + 1 })
      | some false, [] => (some ch, none, { letP := none, optind := optind + 1 })
      | some false, c :: letP => (some ch, none, { letP := some (c :: letP), optind := optind })

/-- `getopt`. If `letP` is inside no argument, the next one is looked at: it has options if it
    begins with `-`, and is skipped, with an end of the options, if it begins with `--`. -/
def getopt (argv : List Str) (optionS : Str) (g : Getopt) : GetoptResult :=
  match argv[g.optind]? with
  | none => eof g.optind
  | some arg =>
      match g.letP with
      | some letP => next argv optionS g.optind letP
      | none =>
          if arg.head? ≠ some '-' then eof g.optind
          else if arg.tail.head? = some '-' then eof (g.optind + 1)
          else next argv optionS g.optind arg.tail

/-- The options that a program reads, with their parameters, and `optind` if it gets to the end. -/
def options (argv : List Str) (optionS : Str) :
    ℕ → Getopt → Option (List (Char × Option Str) × Option ℕ)
  | 0, _ => none
  | fuel + 1, g =>
      match getopt argv optionS g with
      | (none, _, g) => some ([], some g.optind)
      | (some ch, optarg, g) =>
          if ch = '?' then some ([], none)
          else (options argv optionS fuel g).map fun r => ((ch, optarg) :: r.1, r.2)

/-- Every option takes a character at least. -/
def readOptions (argv : List Str) (optionS : Str) : Option (List (Char × Option Str) × Option ℕ) :=
  options argv optionS (argv.flatten.length + 1) init

end Getopt

/-! ## The grammar

What a command line looks like to somebody who does not know the code: words of flags, of which
the last may take a parameter, and then the rest or a mistake. Nothing here is about `letP` or
`optind`. -/

/-- An argument of options, and the one after it if that is a parameter. -/
inductive OptionWord where
  | flags (flags : Str)
  | attached (flags : Str) (ch : Char) (param : Str)
  | separate (flags : Str) (ch : Char) (param : Str)

/-- What is left after the options. -/
inductive OptionTail where
  | operands (args : List Str)
  /-- `-`, or anything that begins with `--`. -/
  | dash (arg : Str) (args : List Str)
  | invalid (flags : Str) (ch : Char) (more : Str) (args : List Str)
  | missing (flags : Str) (ch : Char)

/-- An option without a parameter. -/
def IsFlag (optionS : Str) (ch : Char) : Prop := ch ≠ '?' ∧ Getopt.option optionS ch = some false

/-- An option that needs a parameter. -/
def TakesParam (optionS : Str) (ch : Char) : Prop := ch ≠ '?' ∧ Getopt.option optionS ch = some true

instance (optionS : Str) (ch : Char) : Decidable (IsFlag optionS ch) :=
  inferInstanceAs (Decidable (_ ∧ _))

instance (optionS : Str) (ch : Char) : Decidable (TakesParam optionS ch) :=
  inferInstanceAs (Decidable (_ ∧ _))

/-- Flags that may stand at the beginning of an argument, with what comes after them: an argument does
    not begin with two dashes. -/
def Opens (optionS flags more : Str) : Prop :=
  (∀ ch ∈ flags, IsFlag optionS ch) ∧ (flags ++ more).head? ≠ some '-'

instance (optionS flags more : Str) : Decidable (Opens optionS flags more) :=
  inferInstanceAs (Decidable (_ ∧ _))

namespace OptionWord

/-- The arguments that the word is made of. -/
def args : OptionWord → List Str
  | flags fs => ['-' :: fs]
  | attached fs ch param => ['-' :: (fs ++ ch :: param)]
  | separate fs ch param => ['-' :: (fs ++ [ch]), param]

/-- The options that a word gives, each with its parameter. -/
def options : OptionWord → List (Char × Option Str)
  | flags fs => fs.map (·, none)
  | attached fs ch param => fs.map (·, none) ++ [(ch, some param)]
  | separate fs ch param => fs.map (·, none) ++ [(ch, some param)]

/-- Its characters are what `optionS` says they are, and none is left over. -/
def Valid (optionS : Str) : OptionWord → Prop
  | flags fs => Opens optionS fs [] ∧ fs ≠ []
  | attached fs ch param => Opens optionS fs (ch :: param) ∧ TakesParam optionS ch ∧ param ≠ []
  | separate fs ch _ => Opens optionS fs [ch] ∧ TakesParam optionS ch

instance (optionS : Str) : ∀ w : OptionWord, Decidable (w.Valid optionS)
  | flags _ => inferInstanceAs (Decidable (_ ∧ _))
  | attached _ _ _ => inferInstanceAs (Decidable (_ ∧ _ ∧ _))
  | separate _ _ _ => inferInstanceAs (Decidable (_ ∧ _))

end OptionWord

namespace OptionTail

/-- The arguments of the tail, as they stand on the command line. -/
def args : OptionTail → List Str
  | operands args => args
  | dash arg args => arg :: args
  | invalid flags ch more args => ('-' :: (flags ++ ch :: more)) :: args
  | missing flags ch => ['-' :: (flags ++ [ch])]

/-- The flags in front of an error are options all the same. -/
def options : OptionTail → List (Char × Option Str)
  | operands _ => []
  | dash _ _ => []
  | invalid flags _ _ _ => flags.map (·, none)
  | missing flags _ => flags.map (·, none)

/-- The index of the first operand, if the tail begins at `n`; none for an error. -/
def optind (n : ℕ) : OptionTail → Option ℕ
  | operands _ => some n
  | dash _ _ => some (n + 1)
  | invalid _ _ _ _ => none
  | missing _ _ => none

/-- The tail begins with no option, or with one that is in error. -/
def Valid (optionS : Str) : OptionTail → Prop
  | operands args => ∀ arg ∈ args.head?, arg.head? ≠ some '-'
  | dash arg _ => arg.head? = some '-' ∧ ∀ ch ∈ arg.tail.head?, ch = '-'
  | invalid flags ch more _ =>
      Opens optionS flags (ch :: more) ∧ ¬ IsFlag optionS ch ∧ ¬ TakesParam optionS ch
  | missing flags ch => Opens optionS flags [ch] ∧ TakesParam optionS ch

instance (optionS : Str) : ∀ tail : OptionTail, Decidable (tail.Valid optionS)
  | operands _ => inferInstanceAs (Decidable (∀ arg ∈ _, _))
  | dash _ _ => inferInstanceAs (Decidable (_ ∧ _))
  | invalid _ _ _ _ => inferInstanceAs (Decidable (_ ∧ _ ∧ _))
  | missing _ _ => inferInstanceAs (Decidable (_ ∧ _))

end OptionTail

/-! ## What `getopt` reads

From one word to the next. `letP` is `NULL` between words, so the state that a word leaves is that
of the beginning, further on in the arguments. -/

namespace Getopt

variable {argv : List Str} {optionS arg flags more : Str} {n : ℕ}

/-- Some options have been read before the others. -/
def prepend (opts : List (Char × Option Str)) (r : List (Char × Option Str) × Option ℕ) :
    List (Char × Option Str) × Option ℕ :=
  (opts ++ r.1, r.2)

@[simp] theorem prepend_nil : prepend [] = id := rfl

theorem prepend_prepend (opts opts' : List (Char × Option Str))
    (r : Option (List (Char × Option Str) × Option ℕ)) :
    (r.map (prepend opts')).map (prepend opts) = r.map (prepend (opts ++ opts')) := by
  rw [Option.map_map]
  congr 1
  funext r
  simp [prepend]

theorem getopt_some (hn : argv[n]? = some arg) (letP : Str) :
    getopt argv optionS { letP := some letP, optind := n } = next argv optionS n letP := by
  simp only [getopt, hn]

/-- An argument that begins with one dash is read from the character after it. -/
theorem getopt_none (hn : argv[n]? = some ('-' :: more)) (hmore : more.head? ≠ some '-') :
    getopt argv optionS { letP := none, optind := n } = next argv optionS n more := by
  simp [getopt, hn, hmore]

theorem options_none (hn : argv[n]? = some ('-' :: more)) (hmore : more.head? ≠ some '-')
    (fuel : ℕ) :
    options argv optionS fuel { letP := none, optind := n } =
      options argv optionS fuel { letP := some more, optind := n } := by
  cases fuel with
  | zero => rfl
  | succ fuel => simp only [options, getopt_none hn hmore, getopt_some hn]

/-- A call that returns an option. -/
theorem options_succ {g g' : Getopt} {ch : Char} {optarg : Option Str}
    (h : getopt argv optionS g = (some ch, optarg, g')) (hch : ch ≠ '?') (fuel : ℕ) :
    options argv optionS (fuel + 1) g =
      (options argv optionS fuel g').map (prepend [(ch, optarg)]) := by
  simp only [options, h, if_neg hch]
  rfl

/-- Flags with something after them. -/
theorem options_flags (hn : argv[n]? = some arg) (hflags : ∀ ch ∈ flags, IsFlag optionS ch)
    (hmore : more ≠ []) (fuel : ℕ) :
    options argv optionS (fuel + flags.length) { letP := some (flags ++ more), optind := n } =
      (options argv optionS fuel { letP := some more, optind := n }).map
        (prepend (flags.map (·, none))) := by
  induction flags with
  | nil => simp
  | cons ch flags ih =>
      obtain ⟨hch, hopt⟩ := hflags ch List.mem_cons_self
      have hcall : getopt argv optionS { letP := some (ch :: (flags ++ more)), optind := n } =
          (some ch, none, { letP := some (flags ++ more), optind := n }) := by
        rw [getopt_some hn]
        cases hrest : flags ++ more with
        | nil => exact absurd (List.append_eq_nil_iff.1 hrest).2 hmore
        | cons c rest => simp only [next, hopt]
      rw [List.length_cons, ← add_assoc, List.cons_append, options_succ hcall hch,
        ih fun ch hch => hflags ch (List.mem_cons_of_mem _ hch), prepend_prepend]
      rfl

/-- Flags and one more option, with which the argument is read. -/
theorem options_cluster (hn : argv[n]? = some ('-' :: (flags ++ more)))
    (hopens : Opens optionS flags more) (hmore : more ≠ []) {ch : Char} {optarg : Option Str} {n' : ℕ}
    (hnext : next argv optionS n more = (some ch, optarg, { letP := none, optind := n' }))
    (hch : ch ≠ '?') (fuel : ℕ) :
    options argv optionS (fuel + (flags.map (·, (none : Option Str)) ++ [(ch, optarg)]).length)
        { letP := none, optind := n } =
      (options argv optionS fuel { letP := none, optind := n' }).map
        (prepend (flags.map (·, none) ++ [(ch, optarg)])) := by
  have hlast := options_succ ((getopt_some hn more).trans hnext) hch fuel
  have hlength : (flags.map (·, (none : Option Str)) ++ [(ch, optarg)]).length = 1 + flags.length := by
    simp [add_comm]
  rw [hlength, ← add_assoc, options_none hn hopens.2, options_flags hn hopens.1 hmore, hlast,
    prepend_prepend]

/-- One word, from its first argument to what comes after it. -/
theorem options_word {w : OptionWord} {before : List Str} (after : List Str) (hw : w.Valid optionS)
    (hargv : argv = before ++ (w.args ++ after)) (fuel : ℕ) :
    options argv optionS (fuel + w.options.length) { letP := none, optind := before.length } =
      (options argv optionS fuel
        { letP := none, optind := before.length + w.args.length }).map (prepend w.options) := by
  cases w with
  | flags fs =>
      obtain ⟨⟨hflags, hhead⟩, hne⟩ := hw
      -- the last flag ends the argument
      obtain ⟨fs, ch, rfl⟩ := (List.eq_nil_or_concat' fs).resolve_left hne
      obtain ⟨hch, hopt⟩ := hflags ch (by simp)
      have hopens : Opens optionS fs [ch] :=
        ⟨fun c hc => hflags c (by simp [hc]), by simpa using hhead⟩
      have hn : argv[before.length]? = some ('-' :: (fs ++ [ch])) := by simp [hargv, OptionWord.args]
      have hnext : next argv optionS before.length [ch] =
          (some ch, none, { letP := none, optind := before.length + 1 }) := by
        simp only [next, hopt]
      simpa [OptionWord.options, OptionWord.args] using
        options_cluster hn hopens (by simp) hnext hch fuel
  | attached fs ch param =>
      obtain ⟨hopens, ⟨hch, hopt⟩, hparam⟩ := hw
      obtain ⟨c, rest, rfl⟩ := List.exists_cons_of_ne_nil hparam
      have hn : argv[before.length]? = some ('-' :: (fs ++ ch :: c :: rest)) := by
        simp [hargv, OptionWord.args]
      have hnext : next argv optionS before.length (ch :: c :: rest) =
          (some ch, some (c :: rest), { letP := none, optind := before.length + 1 }) := by
        simp only [next, hopt]
      exact options_cluster hn hopens (by simp) hnext hch fuel
  | separate fs ch param =>
      obtain ⟨hopens, hch, hopt⟩ := hw
      have hn : argv[before.length]? = some ('-' :: (fs ++ [ch])) := by simp [hargv, OptionWord.args]
      have hparam : argv[before.length + 1]? = some param := by simp [hargv, OptionWord.args]
      have hnext : next argv optionS before.length [ch] =
          (some ch, some param, { letP := none, optind := before.length + 2 }) := by
        simp only [next, hopt, hparam]
      exact options_cluster hn hopens (by simp) hnext hch fuel

/-- All words, one after the other. -/
theorem options_words {words : List OptionWord} (before : List Str) {after : List Str}
    (hwords : ∀ w ∈ words, w.Valid optionS)
    (hargv : argv = before ++ (words.flatMap OptionWord.args ++ after)) (fuel : ℕ) :
    options argv optionS (fuel + (words.flatMap OptionWord.options).length)
        { letP := none, optind := before.length } =
      (options argv optionS fuel
        { letP := none, optind := before.length + (words.flatMap OptionWord.args).length }).map
          (prepend (words.flatMap OptionWord.options)) := by
  induction words generalizing before with
  | nil => simp
  | cons w words ih =>
      have hfirst := options_word (words.flatMap OptionWord.args ++ after)
        (hwords w List.mem_cons_self) (by simpa using hargv)
        (fuel + (words.flatMap OptionWord.options).length)
      have hrest := ih (before ++ w.args) (fun w hw => hwords w (List.mem_cons_of_mem _ hw))
        (by simpa using hargv)
      rw [List.length_append] at hrest
      rw [List.flatMap_cons, List.flatMap_cons, List.length_append, List.length_append,
        ← prepend_prepend, ← add_assoc before.length, ← hrest, ← hfirst]
      congr 1
      omega

theorem options_eof {g g' : Getopt} {optarg : Option Str}
    (h : getopt argv optionS g = (none, optarg, g')) (fuel : ℕ) :
    options argv optionS (fuel + 1) g = some ([], some g'.optind) := by
  simp only [options, h]

/-- The option itself, or an error. -/
theorem next_fst (argv : List Str) (optionS : Str) (n : ℕ) (ch : Char) (more : Str) :
    (next argv optionS n (ch :: more)).1 = some ch ∨
      (next argv optionS n (ch :: more)).1 = some '?' := by
  simp only [next]
  split
  · exact Or.inr rfl
  · split
    · exact Or.inr rfl
    · exact Or.inl rfl
  · exact Or.inl rfl
  · exact Or.inl rfl
  · exact Or.inl rfl

/-- Flags and an error. -/
theorem options_stop (hn : argv[n]? = some ('-' :: (flags ++ more)))
    (hopens : Opens optionS flags more) (hmore : more ≠ [])
    (herror : (next argv optionS n more).1 = some '?') (fuel : ℕ) :
    options argv optionS (fuel + 1 + (flags.map (·, (none : Option Str))).length)
        { letP := none, optind := n } = some (flags.map (·, none), none) := by
  have hstop : options argv optionS (fuel + 1) { letP := some more, optind := n } =
      some ([], none) := by
    rw [options, getopt_some hn]
    split
    · next h => rw [h] at herror; cases herror
    · next ch optarg g h =>
        rw [h] at herror
        cases herror
        rfl
  rw [List.length_map, options_none hn hopens.2, options_flags hn hopens.1 hmore, hstop]
  simp [prepend]

/-- The tail: how the reading ends. -/
theorem options_tail {tail : OptionTail} {before : List Str} (htail : tail.Valid optionS)
    (hargv : argv = before ++ tail.args) (fuel : ℕ) :
    options argv optionS (fuel + 1 + tail.options.length)
        { letP := none, optind := before.length } =
      some (tail.options, tail.optind before.length) := by
  cases tail with
  | operands args =>
      have hn : argv[before.length]? = args.head? := by cases args <;> simp [hargv, OptionTail.args]
      have heof : getopt argv optionS { letP := none, optind := before.length } =
          eof before.length := by
        cases hargs : args.head? with
        | none => simp only [getopt, hn, hargs]
        | some arg => simp only [getopt, hn, hargs, if_pos (htail arg hargs)]
      exact options_eof heof fuel
  | dash arg args =>
      obtain ⟨hhead, htail⟩ := htail
      have hn : argv[before.length]? = some arg := by simp [hargv, OptionTail.args]
      have heof : getopt argv optionS { letP := none, optind := before.length } =
          eof (before.length + 1) := by
        simp only [getopt, hn, if_neg (not_not.2 hhead)]
        cases hrest : arg.tail with
        | nil => rfl
        | cons ch rest => exact if_pos (congrArg some (htail ch (by rw [hrest]; rfl)))
      exact options_eof heof fuel
  | invalid flags ch more args =>
      obtain ⟨hopens, hflag, hparam⟩ := htail
      have hn : argv[before.length]? = some ('-' :: (flags ++ ch :: more)) := by
        simp [hargv, OptionTail.args]
      have herror : (next argv optionS before.length (ch :: more)).1 = some '?' := by
        by_cases hch : ch = '?'
        · rcases next_fst argv optionS before.length ch more with h | h
          · exact h.trans (congrArg some hch)
          · exact h
        · cases hopt : option optionS ch with
          | none => simp only [next, hopt, error]
          | some b =>
              cases b with
              | false => exact absurd ⟨hch, hopt⟩ hflag
              | true => exact absurd ⟨hch, hopt⟩ hparam
      exact options_stop hn hopens (by simp) herror fuel
  | missing flags ch =>
      obtain ⟨hopens, -, hopt⟩ := htail
      have hn : argv[before.length]? = some ('-' :: (flags ++ [ch])) := by simp [hargv, OptionTail.args]
      have hend : argv[before.length + 1]? = none := by simp [hargv, OptionTail.args]
      have herror : (next argv optionS before.length [ch]).1 = some '?' := by
        simp only [next, hopt, hend, error]
      exact options_stop hn hopens (by simp) herror fuel

/-! ## Every command line is one of the grammar

No argument is left over: it is a word, or it is where the options end. The words are found from the
left, as `getopt` finds them. -/

/-- An argument begins with as many flags as it can. -/
theorem exists_opens (optionS : Str) {cs : Str} (hcs : cs.head? ≠ some '-') :
    ∃ flags more, cs = flags ++ more ∧ Opens optionS flags more ∧
      ∀ ch ∈ more.head?, ¬ IsFlag optionS ch := by
  refine ⟨cs.takeWhile (IsFlag optionS ·), cs.dropWhile (IsFlag optionS ·),
    (List.takeWhile_append_dropWhile ..).symm, ⟨?_, ?_⟩, ?_⟩
  · intro ch hch
    simpa using List.mem_takeWhile_imp hch
  · rwa [List.takeWhile_append_dropWhile]
  · intro ch hch
    have hnot := List.head?_dropWhile_not (IsFlag optionS ·) cs
    rw [hch] at hnot
    simpa using hnot

/-- The arguments are words of the grammar and a tail. -/
def Reads (optionS : Str) (args : List Str) (words : List OptionWord) (tail : OptionTail) : Prop :=
  (∀ w ∈ words, w.Valid optionS) ∧ tail.Valid optionS ∧
    args = words.flatMap OptionWord.args ++ tail.args

theorem Reads.append {args : List Str} {words words' : List OptionWord} {tail : OptionTail}
    (h : Reads optionS args words' tail) (hwords : ∀ w ∈ words, w.Valid optionS) :
    Reads optionS (words.flatMap OptionWord.args ++ args) (words ++ words') tail := by
  obtain ⟨hwords', htail, rfl⟩ := h
  refine ⟨?_, htail, by simp⟩
  intro w hw
  exact (List.mem_append.1 hw).elim (hwords w) (hwords' w)

theorem exists_reads (optionS : Str) (args : List Str) :
    ∃ words tail, Reads optionS args words tail := by
  induction hlength : args.length using Nat.strong_induction_on generalizing args with
  | _ n ih =>
      subst hlength
      have hrest : ∀ (w : OptionWord) (rest : List Str), args = w.args ++ rest → w.Valid optionS →
          ∃ words tail, Reads optionS args words tail := by
        rintro w rest rfl hw
        have hpos : 0 < w.args.length := by cases w <;> exact Nat.succ_pos _
        have hlt : rest.length < (w.args ++ rest).length := by
          rw [List.length_append]
          omega
        obtain ⟨words, tail, h⟩ := ih _ hlt rest rfl
        exact ⟨[w] ++ words, tail, by simpa using h.append (List.forall_mem_singleton.2 hw)⟩
      have htail : ∀ tail : OptionTail, args = tail.args → tail.Valid optionS →
          ∃ words tail, Reads optionS args words tail := by
        intro tail hargs hvalid
        exact ⟨[], tail, nofun, hvalid, hargs⟩
      cases args with
      | nil => exact htail (.operands []) rfl nofun
      | cons arg args =>
          match arg with
          | [] => exact htail (.operands ([] :: args)) rfl (by simp [OptionTail.Valid])
          | ch :: cs =>
              by_cases hdash : ch = '-'
              · subst hdash
                by_cases hcs : ∀ ch ∈ cs.head?, ch = '-'
                · exact htail (.dash ('-' :: cs) args) rfl ⟨rfl, hcs⟩
                · have hhead : cs.head? ≠ some '-' := by
                    intro h
                    exact hcs (by simp [h])
                  obtain ⟨flags, more, rfl, hopens, hmore⟩ := exists_opens optionS hhead
                  match more with
                  | [] =>
                      refine hrest (.flags flags) args (by simp [OptionWord.args]) ⟨hopens, ?_⟩
                      rintro rfl
                      exact hcs (by simp)
                  | ch :: more =>
                      by_cases hparam : TakesParam optionS ch
                      · match more, args with
                        | c :: more, args =>
                            exact hrest (.attached flags ch (c :: more)) args rfl
                              ⟨hopens, hparam, by simp⟩
                        | [], param :: args =>
                            exact hrest (.separate flags ch param) args rfl ⟨hopens, hparam⟩
                        | [], [] => exact htail (.missing flags ch) rfl ⟨hopens, hparam⟩
                      · exact htail (.invalid flags ch more args) rfl
                          ⟨hopens, hmore ch rfl, hparam⟩
              · exact htail (.operands ((ch :: cs) :: args)) rfl (by simpa [OptionTail.Valid] using hdash)

theorem length_word (w : OptionWord) : w.options.length ≤ w.args.flatten.length := by
  cases w <;> simp [OptionWord.options, OptionWord.args]

theorem length_words (words : List OptionWord) :
    (words.flatMap OptionWord.options).length ≤ (words.flatMap OptionWord.args).flatten.length := by
  induction words with
  | nil => simp
  | cons w words ih =>
      have := length_word w
      simp only [List.flatMap_cons, List.flatten_append, List.length_append]
      omega

theorem length_tail (tail : OptionTail) : tail.options.length ≤ tail.args.flatten.length := by
  cases tail <;> simp [OptionTail.options, OptionTail.args] <;> omega

theorem readOptions_of_reads {args : List Str} {words : List OptionWord} {tail : OptionTail}
    (h : Reads optionS args words tail) (prog : Str) :
    readOptions (prog :: args) optionS =
      some (words.flatMap OptionWord.options ++ tail.options,
        tail.optind (1 + (words.flatMap OptionWord.args).length)) := by
  obtain ⟨hwords, htail, rfl⟩ := h
  -- there is fuel enough
  obtain ⟨fuel, hfuel⟩ : ∃ fuel,
      (prog :: (words.flatMap OptionWord.args ++ tail.args)).flatten.length + 1 =
        fuel + 1 + tail.options.length + (words.flatMap OptionWord.options).length := by
    have hw := length_words words
    have ht := length_tail tail
    refine ⟨(prog :: (words.flatMap OptionWord.args ++ tail.args)).flatten.length -
      (tail.options.length + (words.flatMap OptionWord.options).length), ?_⟩
    simp only [List.flatten_cons, List.flatten_append, List.length_append]
    omega
  have hargv : prog :: (words.flatMap OptionWord.args ++ tail.args) =
      (prog :: words.flatMap OptionWord.args) ++ tail.args := by
    simp
  have hfirst := options_words [prog] hwords
    (rfl : prog :: (words.flatMap OptionWord.args ++ tail.args) = _)
    (fuel + 1 + tail.options.length)
  have hlast := options_tail htail hargv fuel
  have hlength : (prog :: words.flatMap OptionWord.args).length =
      1 + (words.flatMap OptionWord.args).length := by
    simp [add_comm]
  rw [hlength] at hlast
  rw [List.length_singleton, hlast] at hfirst
  rw [readOptions, hfuel]
  exact hfirst

/-- **What `getopt` reads.** A program that calls it until it returns `EOF`, or `?`, comes to an end on
    every command line, and reads the options of the words that its arguments are, and then the tail:
    the index of the first operand, or an error. -/
theorem getopt_reads (optionS prog : Str) (args : List Str) :
    (∃ r, readOptions (prog :: args) optionS = some r) ∧
    ∀ opts optind, readOptions (prog :: args) optionS = some (opts, optind) ↔
      ∃ words tail, Reads optionS args words tail ∧
        opts = words.flatMap OptionWord.options ++ tail.options ∧
        optind = tail.optind (1 + (words.flatMap OptionWord.args).length) := by
  obtain ⟨words, tail, hreads⟩ := exists_reads optionS args
  have hread := readOptions_of_reads hreads prog
  refine ⟨⟨_, hread⟩, fun opts optind => ⟨?_, ?_⟩⟩
  · intro h
    rw [hread] at h
    cases h
    exact ⟨words, tail, hreads, rfl, rfl⟩
  · rintro ⟨words, tail, hreads, rfl, rfl⟩
    exact readOptions_of_reads hreads prog

end Getopt

/-! ## The options of the service

The Windows service keeps its options in the registry as one string. `strtok` takes it apart at
blanks and tabs, so an argument that has one comes back in pieces. -/

namespace Service

/-- What `strtok` takes for a separator. -/
def isBlank (c : Char) : Bool := c = '\t' || c = ' '

/-- `strtok` until it returns `NULL`: the pieces between tabs and blanks. -/
def strtok (parameters : Str) : List Str := (parameters.splitOnP isBlank).filter (· ≠ [])

/-- The value `Parameters` in the registry, none if the service is not installed. -/
abbrev Registry := Option Str

/-- What `install` and `setoptions` store: the arguments with a blank between each two. -/
def join (args : List Str) : Str :=
  args.foldl (fun parameters arg =>
    (if parameters = [] then parameters else parameters ++ [' ']) ++ arg) []

/-- The text that `writeParameters` puts there. -/
def writeParameters (argv : List Str) : Str := join (argv.drop 2)

/-- None if the process exits: the value, with its end, must fit the buffer of `queryValueStr`. -/
def readParameters (registry : Registry) : Option Str :=
  registry.filter fun parameters => decide (parameters.length + 1 ≤ 2048)

/-- `Service::setArgcArgv`: the stored parameters come after the name of the program. -/
def setArgcArgv (registry : Registry) (argv : List Str) : Option (List Str) :=
  (readParameters registry).map fun parameters =>
    if strtok parameters = [] then argv
    else argv.take 1 ++ strtok parameters ++ argv.drop 1

/-- `start`: the registry after it, and the arguments that `main` goes on with, none if the process
    exits. When the service is started `main` is called once more. -/
def start (callCount : ℕ) (registry : Registry) (argv : List Str) :
    Registry × Option (List Str) :=
  if 1 < callCount + 1 then (registry, setArgcArgv registry argv)
  else if argv[1]? = some "service".toList then (registry, none)
  -- the installation fails if there is a service already
  else if argv[1]? = some "install".toList then
    (some (registry.getD (writeParameters argv)), none)
  else if argv[1]? = some "uninstall".toList then (none, none)
  else if argv[1]? = some "getoptions".toList then (registry, none)
  else if argv[1]? = some "setoptions".toList then
    (registry.map fun _ => writeParameters argv, none)
  else if argv[1]? = some "run".toList then (registry, setArgcArgv registry argv)
  else (registry, some argv)

/-- The registry after some calls of the program. -/
def registryAfter (history : List (List Str)) : Registry :=
  history.foldl (fun registry argv => (start 0 registry argv).1) none

/-- The options that were given last to the service, if there is one. -/
def given (history : List (List Str)) : Option (List Str) :=
  history.foldl (fun args argv =>
    if argv[1]? = some "install".toList then some (args.getD (argv.drop 2))
    else if argv[1]? = some "uninstall".toList then none
    else if argv[1]? = some "setoptions".toList then args.map fun _ => argv.drop 2
    else args) none

/-- The registry holds the options that were given last. -/
theorem registryAfter_eq (history : List (List Str)) :
    registryAfter history = (given history).map join := by
  have hstep : ∀ (args : Option (List Str)) (argv : List Str),
      (start 0 (args.map join) argv).1 =
        (if argv[1]? = some "install".toList then some (args.getD (argv.drop 2))
          else if argv[1]? = some "uninstall".toList then none
          else if argv[1]? = some "setoptions".toList then args.map fun _ => argv.drop 2
          else args).map join := by
    intro args argv
    unfold start
    by_cases hinstall : argv[1]? = some "install".toList
    · rw [hinstall]
      cases args <;> rfl
    by_cases huninstall : argv[1]? = some "uninstall".toList
    · rw [huninstall]
      rfl
    by_cases hset : argv[1]? = some "setoptions".toList
    · rw [hset]
      cases args <;> rfl
    simp only [if_neg hinstall, if_neg huninstall, if_neg hset]
    split
    · rfl
    · split
      · rfl
      · split
        · rfl
        · split <;> rfl
  suffices hall : ∀ args : Option (List Str),
      history.foldl (fun registry argv => (start 0 registry argv).1) (args.map join) =
        (history.foldl _ args).map join from hall none
  induction history with
  | nil => exact fun _ => rfl
  | cons argv history ih =>
      intro args
      rw [List.foldl_cons, List.foldl_cons, hstep]
      exact ih _

/-- A piece has no tab and no blank. -/
theorem isBlank_of_mem_splitOnP {text piece : Str} (h : piece ∈ text.splitOnP isBlank) :
    ∀ c ∈ piece, isBlank c = false := by
  induction text generalizing piece with
  | nil =>
      rw [List.splitOnP_nil, List.mem_singleton] at h
      subst h
      exact nofun
  | cons c text ih =>
      rw [List.splitOnP_cons_eq_if_modifyHead] at h
      split at h
      · rcases List.mem_cons.1 h with rfl | h
        · exact nofun
        · exact ih h
      · next hc =>
          cases hpieces : text.splitOnP isBlank with
          | nil => exact absurd hpieces (List.splitOnP_ne_nil _ _)
          | cons first rest =>
              rw [hpieces] at h ih
              rcases List.mem_cons.1 h with rfl | h
              · rintro d (_ | ⟨_, hd⟩)
                · simpa using hc
                · exact ih List.mem_cons_self d hd
              · exact ih (List.mem_cons_of_mem _ h)

/-- Each argument is split up on its own. -/
theorem strtok_join (args : List Str) : strtok (join args) = args.flatMap strtok := by
  have hstep : ∀ parameters arg : Str,
      strtok ((if parameters = [] then parameters else parameters ++ [' ']) ++ arg) =
        strtok parameters ++ strtok arg := by
    intro parameters arg
    split
    · next h =>
        subst h
        rfl
    · rw [List.append_assoc, List.singleton_append, strtok,
        List.splitOnP_append_cons _ _ (by decide), List.filter_append]
      rfl
  suffices hall : ∀ parameters, strtok (args.foldl _ parameters) =
      strtok parameters ++ args.flatMap strtok from hall []
  induction args with
  | nil => simp
  | cons arg args ih =>
      intro parameters
      rw [List.foldl_cons, ih, hstep, List.append_assoc, List.flatMap_cons]

/-- The arguments come back as they were if none is empty and none has a tab or a blank in it. -/
theorem flatMap_strtok_eq_iff (args : List Str) :
    args.flatMap strtok = args ↔ ∀ arg ∈ args, arg ≠ [] ∧ ∀ c ∈ arg, isBlank c = false := by
  constructor
  · intro h arg harg
    rw [← h] at harg
    obtain ⟨_, _, hmem⟩ := List.mem_flatMap.1 harg
    obtain ⟨hmem, hne⟩ := List.mem_filter.1 hmem
    exact ⟨by simpa using hne, isBlank_of_mem_splitOnP hmem⟩
  · intro h
    induction args with
    | nil => rfl
    | cons arg args ih =>
        obtain ⟨hne, hblank⟩ := h arg List.mem_cons_self
        rw [List.flatMap_cons, ih fun arg harg => h arg (List.mem_cons_of_mem _ harg), strtok,
          List.splitOnP_eq_singleton hblank]
        simp [hne]

/-- What `run` puts before its own arguments. -/
theorem start_run {history : List (List Str)} {args : List Str} (hgiven : given history = some args)
    (hfits : (join args).length < 2048) (prog : Str) (extra : List Str) :
    (start 0 (registryAfter history) (prog :: "run".toList :: extra)).2 =
      some (prog :: (args.flatMap strtok ++ "run".toList :: extra)) := by
  have hread : readParameters (registryAfter history) = some (join args) := by
    rw [registryAfter_eq, hgiven]
    exact if_pos (decide_eq_true hfits)
  have hstart : (start 0 (registryAfter history) (prog :: "run".toList :: extra)).2 =
      setArgcArgv (registryAfter history) (prog :: "run".toList :: extra) := rfl
  rw [hstart, setArgcArgv, hread, Option.map_some, strtok_join]
  split
  · next h =>
      rw [h]
      rfl
  · rfl

open Getopt in
/-- More arguments after a command line: they are read only if a parameter was missing. -/
theorem readOptions_append_iff (optionS prog : Str) (args extra : List Str) :
    readOptions (prog :: (args ++ "run".toList :: extra)) optionS =
        readOptions (prog :: args) optionS ↔
      ∀ words flags ch, ¬ Reads optionS args words (.missing flags ch) := by
  constructor
  · intro heq words flags ch h
    -- `run` becomes the parameter
    obtain ⟨hwords, ⟨hopens, hparam⟩, rfl⟩ := h
    obtain ⟨words', tail, hextra⟩ := exists_reads optionS extra
    have hlast : ∀ w ∈ words ++ [.separate flags ch "run".toList], w.Valid optionS := by
      intro w hw
      rcases List.mem_append.1 hw with hw | hw
      · exact hwords w hw
      · obtain rfl := List.mem_singleton.1 hw
        exact ⟨hopens, hparam⟩
    have hmore := readOptions_of_reads (hextra.append hlast) prog
    have hold := readOptions_of_reads (⟨hwords, ⟨hopens, hparam⟩, rfl⟩ :
      Reads optionS (words.flatMap OptionWord.args ++ (OptionTail.missing flags ch).args) words
        (.missing flags ch)) prog
    have hsame : (words ++ [OptionWord.separate flags ch "run".toList]).flatMap OptionWord.args ++ extra =
        words.flatMap OptionWord.args ++ (OptionTail.missing flags ch).args ++
          "run".toList :: extra := by
      simp [OptionWord.args, OptionTail.args]
    rw [hsame, heq, hold] at hmore
    have hopts := congrArg List.length (Prod.mk.inj (Option.some.inj hmore)).1
    simp [OptionWord.options, OptionTail.options] at hopts
  · intro hmissing
    obtain ⟨words, tail, h⟩ := exists_reads optionS args
    have hold := readOptions_of_reads h prog
    obtain ⟨hwords, htail, rfl⟩ := h
    obtain ⟨tail', htail', hargs, hopts, hoptind⟩ : ∃ tail' : OptionTail, tail'.Valid optionS ∧
        tail.args ++ "run".toList :: extra = tail'.args ∧ tail.options = tail'.options ∧
        ∀ n, tail.optind n = tail'.optind n := by
      cases tail with
      | operands args =>
          refine ⟨.operands (args ++ "run".toList :: extra), ?_, rfl, rfl, fun _ => rfl⟩
          cases args with
          | nil => simp [OptionTail.Valid]
          | cons arg args => exact htail
      | dash arg args =>
          exact ⟨.dash arg (args ++ "run".toList :: extra), htail, rfl, rfl, fun _ => rfl⟩
      | invalid flags ch more args =>
          exact ⟨.invalid flags ch more (args ++ "run".toList :: extra), htail, rfl, rfl,
            fun _ => rfl⟩
      | missing flags ch => exact absurd ⟨hwords, htail, rfl⟩ (hmissing words flags ch)
    have hnew : Reads optionS (words.flatMap OptionWord.args ++ tail.args ++ "run".toList :: extra) words
        tail' := ⟨hwords, htail', by rw [List.append_assoc, hargs]⟩
    rw [readOptions_of_reads hnew, hold, hopts, hoptind]

/-- **The options of the service.** After any calls of the program that leave a service with some
    options, `run` goes on with these before its own arguments, exactly as they were given if and only
    if none is empty or has a tab or a blank in it. Then it reads the options that the program would
    read from them alone, if and only if the parameter of the last one is not missing. -/
theorem run_reads_given {history : List (List Str)} {args : List Str}
    (hgiven : given history = some args) (hfits : (join args).length < 2048)
    (optionS prog : Str) (extra : List Str) :
    ∃ argv, (start 0 (registryAfter history) (prog :: "run".toList :: extra)).2 = some argv ∧
      (argv = prog :: (args ++ "run".toList :: extra) ↔
        ∀ arg ∈ args, arg ≠ [] ∧ ∀ c ∈ arg, isBlank c = false) ∧
      ((∀ arg ∈ args, arg ≠ [] ∧ ∀ c ∈ arg, isBlank c = false) →
        (Getopt.readOptions argv optionS = Getopt.readOptions (prog :: args) optionS ↔
          ∀ words flags ch, ¬ Getopt.Reads optionS args words (.missing flags ch))) := by
  refine ⟨_, start_run hgiven hfits prog extra, ?_, ?_⟩
  · rw [List.cons_inj_right, List.append_left_inj, flatMap_strtok_eq_iff]
  · intro hproper
    rw [(flatMap_strtok_eq_iff args).2 hproper]
    exact readOptions_append_iff optionS prog args extra

/-- The options are set anew, and the last one's parameter is missing. -/
theorem run_reads_given_missing :
    ∃ argv, (start 0 (registryAfter [["omniEvents", "install", "-v"].map String.toList,
          ["omniEvents", "setoptions", "-p", "8000", "-l"].map String.toList])
        (["omniEvents", "run"].map String.toList)).2 = some argv ∧
      Getopt.readOptions argv "p:l:v".toList ≠
        Getopt.readOptions (["omniEvents", "-p", "8000", "-l"].map String.toList) "p:l:v".toList := by
  have hgiven : given [["omniEvents", "install", "-v"].map String.toList,
      ["omniEvents", "setoptions", "-p", "8000", "-l"].map String.toList] =
      some (["-p", "8000", "-l"].map String.toList) := rfl
  obtain ⟨argv, hargv, -, hreads⟩ :=
    run_reads_given hgiven (by decide) "p:l:v".toList "omniEvents".toList []
  refine ⟨argv, hargv, fun heq => ?_⟩
  exact (hreads (by decide)).1 heq [.separate [] 'p' "8000".toList] [] 'l'
    ⟨by decide, by decide, rfl⟩

end Service

end OmniEvents
