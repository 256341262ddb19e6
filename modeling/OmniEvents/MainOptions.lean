import OmniEvents.CommandLine
import OmniEvents.Daemon

set_option autoImplicit false

/-! # The options of omniEvents

The loop in `main` that reads the options of the daemon, without those of the ORB, which are taken out
before it. An option that is not known, `-V`, `-h` and a port that is not positive make the process
exit, with status 0. What is written to `cout` and `cerr` is left out.

`getopt` is the one in `getopt.cc`, which stops at the first argument that is no option. Where the
build takes the system's instead, and that permutes its arguments, options may also come after
operands, and nothing is said of them here. -/

namespace OmniEvents

/-- `atoi`: the low bits of the `long`. -/
def atoi (s : Str) : ℤ := (PersistNode.atol s).bmod (2 ^ 32)

/-- What the options decide, and the daemon that they make. -/
structure MainOptions where
  endPointNoListen : Option Str
  port : ℤ
  logDir : Option Str
  factoryName : Option Str
  verbose : Bool
  daemon : DaemonImpl
  deriving DecidableEq, Repr

namespace MainOptions

/-- The options that `main` gives to `getopt`. -/
def optionS : Str := "O:a:p:l:P:N:dft:vVh".toList

/-- The configuration before the first option is read. -/
def init : MainOptions :=
  { endPointNoListen := none, port := 0, logDir := none
    factoryName := some "EventChannelFactory".toList, verbose := false, daemon := .new }

/-- The `switch` in `main`; none if the process exits. -/
def set (o : MainOptions) (c : Char) (optarg : Option Str) : Option MainOptions :=
  if c = 'O' then some o
  else if c = 'a' then some { o with endPointNoListen := optarg }
  else if c = 'p' then
    if atoi (optarg.getD []) ≤ 0 then none else some { o with port := atoi (optarg.getD []) }
  else if c = 'l' then some { o with logDir := optarg }
  else if c = 'P' then some { o with daemon := o.daemon.setPidfile (optarg.getD []) }
  else if c = 'N' then some { o with factoryName := optarg }
  else if c = 'd' then some { o with daemon := o.daemon.setForeground true }
  else if c = 'f' then some { o with daemon := o.daemon.setForeground true }
  else if c = 't' then some { o with daemon := o.daemon.setTracefile (optarg.getD []) }
  else if c = 'v' then some { o with verbose := true }
  else none

/-- The loop in `main`, over the options that `getopt` has read. -/
def setAll (o : MainOptions) (opts : List (Char × Option Str)) : Option MainOptions :=
  opts.foldlM (fun o opt => o.set opt.1 opt.2) o

/-- The options of a command line. A `?` of `getopt` makes `main` exit too. -/
def read (argv : List Str) : Option MainOptions :=
  match Getopt.readOptions argv optionS with
  | some (opts, some _) => setAll init opts
  | _ => none

/-! ## What the options come to

An option takes the place of an earlier one of the same letter, and those of different letters do
not touch each other. So the loop over the options comes to the last of each letter. -/

/-- The process goes on after the option. -/
def Accepted (opt : Char × Option Str) : Prop :=
  opt.1 ∈ "OalPNdftv".toList ∨ opt.1 = 'p' ∧ 0 < atoi (opt.2.getD [])

/-- The last option of a letter, if there is one. -/
def last (c : Char) (opts : List (Char × Option Str)) : Option (Option Str) :=
  (opts.reverse.find? (·.1 = c)).map (·.2)

/-- The last option of a letter decides. -/
def ofOptions (opts : List (Char × Option Str)) : MainOptions :=
  { endPointNoListen := (last 'a' opts).join
    port := (last 'p' opts).elim 0 fun optarg => atoi (optarg.getD [])
    logDir := (last 'l' opts).join
    factoryName := (last 'N' opts).getD (some "EventChannelFactory".toList)
    verbose := (last 'v' opts).isSome
    daemon := .configured ((last 't' opts).map (·.getD [])) ((last 'P' opts).map (·.getD []))
      ((last 'd' opts).isSome || (last 'f' opts).isSome) }

theorem last_concat (c : Char) (opts : List (Char × Option Str)) (opt : Char × Option Str) :
    last c (opts ++ [opt]) = if opt.1 = c then some opt.2 else last c opts := by
  by_cases h : opt.1 = c <;> simp [last, h]

theorem configured_setTracefile (t p : Option Str) (f : Bool) (val : Str) :
    (DaemonImpl.configured t p f).setTracefile val = .configured (some val) p f := by
  cases t <;> cases p <;> rfl

theorem configured_setPidfile (t p : Option Str) (f : Bool) (val : Str) :
    (DaemonImpl.configured t p f).setPidfile val = .configured t (some val) f := by
  cases t <;> cases p <;> rfl

theorem configured_setForeground (t p : Option Str) (f : Bool) :
    (DaemonImpl.configured t p f).setForeground true = .configured t p true := by
  cases t <;> cases p <;> rfl

theorem set_ofOptions (opts : List (Char × Option Str)) (opt : Char × Option Str) :
    (ofOptions opts).set opt.1 opt.2 = some (ofOptions (opts ++ [opt])) ∧ Accepted opt ∨
      (ofOptions opts).set opt.1 opt.2 = none ∧ ¬ Accepted opt := by
  obtain ⟨c, optarg⟩ := opt
  by_cases hp : c = 'p'
  · subst hp
    by_cases hport : atoi (optarg.getD []) ≤ 0
    · exact Or.inr ⟨by simp [set, hport], by simp [Accepted, hport]⟩
    · exact Or.inl ⟨by simp [set, hport, ofOptions, last_concat],
        by simpa [Accepted] using hport⟩
  by_cases hc : c ∈ "OalPNdftv".toList
  · refine Or.inl ⟨?_, Or.inl hc⟩
    have hc : c = 'O' ∨ c = 'a' ∨ c = 'l' ∨ c = 'P' ∨ c = 'N' ∨ c = 'd' ∨ c = 'f' ∨ c = 't' ∨
        c = 'v' := by simpa using hc
    rcases hc with rfl | rfl | rfl | rfl | rfl | rfl | rfl | rfl | rfl <;>
      simp [set, ofOptions, last_concat, configured_setTracefile, configured_setPidfile,
        configured_setForeground]
  · refine Or.inr ⟨?_, by simpa [Accepted, hp] using hc⟩
    have hnot : c ≠ 'O' ∧ c ≠ 'a' ∧ c ≠ 'l' ∧ c ≠ 'P' ∧ c ≠ 'N' ∧ c ≠ 'd' ∧ c ≠ 'f' ∧ c ≠ 't' ∧
        c ≠ 'v' := by simpa using hc
    simp [set, hnot, hp]

/-- The loop comes to what the last options say, or the process exits at one that is not accepted. -/
theorem setAll_eq_some_iff (opts : List (Char × Option Str)) (o : MainOptions) :
    setAll init opts = some o ↔ (∀ opt ∈ opts, Accepted opt) ∧ o = ofOptions opts := by
  induction opts using List.reverseRecOn generalizing o with
  | nil => simp [setAll, ofOptions, init, last, DaemonImpl.configured, DaemonImpl.setForeground,
      DaemonImpl.new, eq_comm]
  | append_singleton opts opt ih =>
      have hfold : setAll init (opts ++ [opt]) =
          (setAll init opts).bind fun o => o.set opt.1 opt.2 := by
        simp [setAll, List.foldlM_append]
      rw [hfold, Option.bind_eq_some_iff]
      simp only [List.forall_mem_append, List.forall_mem_singleton]
      constructor
      · rintro ⟨o', ho', hset⟩
        obtain ⟨hall, rfl⟩ := (ih o').1 ho'
        rcases set_ofOptions opts opt with ⟨heq, haccepted⟩ | ⟨heq, -⟩
        · rw [heq] at hset
          exact ⟨⟨hall, haccepted⟩, (Option.some.inj hset).symm⟩
        · rw [heq] at hset
          cases hset
      · rintro ⟨⟨hall, haccepted⟩, rfl⟩
        refine ⟨ofOptions opts, (ih _).2 ⟨hall, rfl⟩, ?_⟩
        rcases set_ofOptions opts opt with ⟨heq, -⟩ | ⟨-, hnot⟩
        · exact heq
        · exact absurd haccepted hnot

/-- **The options of omniEvents.** `main` goes on after a command line with some options if and only if
    its arguments are words of the grammar without an error at their end, each option in them is
    accepted, and for each letter the last option of it is the one that counts. -/
theorem read_eq_some_iff (prog : Str) (args : List Str) (o : MainOptions) :
    read (prog :: args) = some o ↔
      ∃ words tail, Getopt.Reads optionS args words tail ∧ (tail.optind 0).isSome = true ∧
        (∀ opt ∈ words.flatMap OptionWord.options, Accepted opt) ∧
        o = ofOptions (words.flatMap OptionWord.options) := by
  obtain ⟨words, tail, hreads⟩ := Getopt.exists_reads optionS args
  have hread : ∀ {words tail}, Getopt.Reads optionS args words tail → (tail.optind 0).isSome = true →
      read (prog :: args) = setAll init (words.flatMap OptionWord.options) := by
    intro words tail hreads htail
    rw [read, Getopt.readOptions_of_reads hreads prog]
    cases tail with
    | operands rest => simp [OptionTail.options, OptionTail.optind]
    | dash arg rest => simp [OptionTail.options, OptionTail.optind]
    | invalid flags ch more rest => cases htail
    | missing flags ch => cases htail
  constructor
  · intro h
    have htail : (tail.optind 0).isSome = true := by
      rw [read, Getopt.readOptions_of_reads hreads prog] at h
      cases tail with
      | operands rest => rfl
      | dash arg rest => rfl
      | invalid flags ch more rest => cases h
      | missing flags ch => cases h
    rw [hread hreads htail, setAll_eq_some_iff] at h
    exact ⟨words, tail, hreads, htail, h⟩
  · rintro ⟨words', tail', hreads', htail', hall⟩
    rw [hread hreads' htail']
    exact (setAll_eq_some_iff _ o).2 hall

/-- With `-p80 -fp 90 -tlog -- x` it is the second port that counts. -/
example : (read (["omniEvents", "-p80", "-fp", "90", "-tlog", "--", "x"].map String.toList)).map
    (fun o => (o.port, o.daemon.foreground, o.daemon.tracefile)) =
      some (90, true, some "log".toList) := by
  decide

end MainOptions

end OmniEvents
