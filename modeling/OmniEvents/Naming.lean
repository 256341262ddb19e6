import OmniEvents.CreateChannel

set_option autoImplicit false

/-! # Names of the naming service

`str2name` parses the `-N` argument. It takes a run of `/` and `.` for one separator, of which it
remembers the first character: a piece after `/` is the id of a new component, one after `.` the
kind of the last. So a `.` that nothing follows before the next `/` swallows it: `a./b` is one
component of kind `b`. The loop is refined to a machine that reads a character at a time
(`str2name_eq`), and the machine is taken apart at a `/`. -/

namespace OmniEvents.Naming

/-- `CosNaming::Name`. -/
abbrev Name := List NameComponent

/-! ## The loop

`str2name` as it stands: it goes from separator to separator, and looks at the character before each
piece. -/

/-- One of `"/."`. -/
def isSep (c : Char) : Bool := c == '/' || c == '.'

/-- `name[nameLen-1].kind=…`, which must exist. -/
def setKind (name : Name) (kind : Str) : Option Name :=
  match name.getLast? with
  | none => none
  | some c => some (name.dropLast ++ [{ c with kind := kind }])

/-- The loop of `str2name`, from `pos` on. It has no value if it writes outside the name or runs out
    of rounds. -/
def str2nameLoop : Nat → Str → Char → Name → Option Name
  | 0, _, _, _ => none
  | rounds + 1, rest, last, name =>
      let rest := rest.dropWhile isSep
      if rest.isEmpty then some name
      else
        let piece := rest.takeWhile (fun c => !isSep c)
        let written :=
          if last = '/' then some (name ++ [⟨piece, []⟩]) else setKind name piece
        match written, rest.dropWhile (fun c => !isSep c) with
        | none, _ => none
        | some name, [] => some name
        | some name, sep :: rest => str2nameLoop rounds (sep :: rest) sep name

/-- `str2name` of a C string. -/
def str2name (namestr : Str) : Option Name := str2nameLoop (namestr.length + 1) namestr '/' []

/-- `operator<<`. -/
def printName (n : Name) : Str :=
  n.flatMap fun c => '/' :: c.id ++ if c.kind.isEmpty then [] else '.' :: c.kind

/-! ## A character at a time

The same as a machine with two modes. It can be stopped between any two characters, which is what
the induction over strings needs. -/

/-- Where a character stands: in separators, of which the first is given, or in a piece after them. -/
inductive Mode where
  | gap (last : Char)
  | piece (last : Char) (text : Str)
  deriving DecidableEq, Repr

/-- A piece is over: after a `/` it is a new component, after a `.` the kind of the last one. -/
def commit (last : Char) (text : Str) (name : Name) : Name :=
  if last = '/' then name ++ [⟨text, []⟩] else (setKind name text).getD name

/-- A machine that does what `str2name` does: where it is in the string, and the components that it has
    committed. -/
structure Scan where
  mode : Mode
  name : Name
  deriving DecidableEq, Repr

namespace Scan

/-- At the beginning, as if after a `/`. -/
def start : Scan := ⟨.gap '/', []⟩

/-- The next character: in a gap separators are skipped, and a piece is collected up to the next
    one. -/
def next (s : Scan) (c : Char) : Scan :=
  match s.mode with
  | .gap last => if isSep c then s else { s with mode := .piece last [c] }
  | .piece last text =>
      if isSep c then ⟨.gap c, commit last text s.name⟩
      else { s with mode := .piece last (text ++ [c]) }

/-- The machine reads on, character by character. -/
def read (s : Scan) (t : Str) : Scan := t.foldl next s

/-- The end of the string ends a piece, as a separator does. -/
def finish (s : Scan) : Name :=
  match s.mode with
  | .gap _ => s.name
  | .piece last text => commit last text s.name

/-- What the machine is between: no piece is a kind without a component. -/
def Sound (s : Scan) : Prop :=
  match s.mode with
  | .gap last | .piece last _ => last = '/' ∨ s.name ≠ []

@[simp] theorem read_nil (s : Scan) : s.read [] = s := rfl

@[simp] theorem read_cons (s : Scan) (c : Char) (t : Str) : s.read (c :: t) = (s.next c).read t := rfl

theorem read_append (s : Scan) (t u : Str) : s.read (t ++ u) = (s.read t).read u :=
  List.foldl_append

theorem read_seps {last : Char} {name : Name} {t : Str} (ht : ∀ c ∈ t, isSep c = true) :
    read ⟨.gap last, name⟩ t = ⟨.gap last, name⟩ := by
  induction t with
  | nil => rfl
  | cons c t ih =>
      obtain ⟨hc, ht⟩ := List.forall_mem_cons.1 ht
      rw [read_cons, next]
      simp only [hc, if_true]
      exact ih ht

theorem read_piece {last : Char} {name : Name} {text t : Str} (ht : ∀ c ∈ t, isSep c = false) :
    read ⟨.piece last text, name⟩ t = ⟨.piece last (text ++ t), name⟩ := by
  induction t generalizing text with
  | nil => rw [List.append_nil]; rfl
  | cons c t ih =>
      obtain ⟨hc, ht⟩ := List.forall_mem_cons.1 ht
      rw [read_cons, next]
      simp only [hc, Bool.false_eq_true, if_false]
      rw [ih ht, List.append_assoc]
      rfl

/-- A piece from its first character on. -/
theorem read_whole_piece {last : Char} {name : Name} {t : Str} (ht : ∀ c ∈ t, isSep c = false)
    (hne : t ≠ []) : read ⟨.gap last, name⟩ t = ⟨.piece last t, name⟩ := by
  cases t with
  | nil => exact absurd rfl hne
  | cons c t =>
      obtain ⟨hc, ht⟩ := List.forall_mem_cons.1 ht
      rw [read_cons, next]
      simp only [hc, Bool.false_eq_true, if_false]
      exact read_piece ht

end Scan

/-! ## The loop is the machine -/

theorem length_setKind {name name' : Name} {kind : Str} (h : setKind name kind = some name') :
    name'.length = name.length := by
  unfold setKind at h
  cases hlast : name.getLast? with
  | none => simp [hlast] at h
  | some c =>
      rw [hlast] at h
      obtain rfl := Option.some.inj h
      have hne : name ≠ [] := by
        rintro rfl
        simp at hlast
      have hpos := List.length_pos_iff.2 hne
      rw [List.length_append, List.length_dropLast, List.length_singleton]
      omega

theorem length_commit (last : Char) (text : Str) (name : Name) :
    (commit last text name).length = name.length + if last = '/' then 1 else 0 := by
  unfold commit
  split
  · rw [List.length_append, List.length_singleton]
  · cases hset : setKind name text with
    | none => rfl
    | some name' => exact length_setKind hset

theorem setKind_eq_commit {last : Char} {text : Str} {name : Name} (hsound : last = '/' ∨ name ≠ []) :
    (if last = '/' then some (name ++ [⟨text, []⟩]) else setKind name text)
      = some (commit last text name) := by
  unfold commit
  by_cases hslash : last = '/'
  · rw [if_pos hslash, if_pos hslash]
  · rw [if_neg hslash, if_neg hslash]
    rw [setKind, List.getLast?_eq_some_getLast (hsound.resolve_left hslash)]
    rfl

theorem commit_ne_nil {last : Char} {text : Str} {name : Name} (hsound : last = '/' ∨ name ≠ []) :
    commit last text name ≠ [] := by
  rw [← List.length_pos_iff, length_commit]
  rcases hsound with rfl | hne
  · exact Nat.succ_pos _
  · exact Nat.lt_of_lt_of_le (List.length_pos_iff.2 hne) (Nat.le_add_right _ _)

theorem str2nameLoop_eq (rounds : Nat) {rest : Str} {last : Char} {name : Name}
    (hrounds : rest.length < rounds) (hsound : last = '/' ∨ name ≠ []) :
    str2nameLoop rounds rest last name = some (Scan.finish (.read ⟨.gap last, name⟩ rest)) := by
  induction rounds generalizing rest last name with
  | zero => exact absurd hrounds (Nat.not_lt_zero _)
  | succ rounds ih =>
      rw [str2nameLoop]
      -- the separators before the piece
      have hseps : Scan.read ⟨.gap last, name⟩ rest
          = Scan.read ⟨.gap last, name⟩ (rest.dropWhile isSep) := by
        conv_lhs => rw [← List.takeWhile_append_dropWhile (p := isSep) (l := rest)]
        rw [Scan.read_append, Scan.read_seps fun c hc => List.mem_takeWhile_imp hc]
      have hle := (List.dropWhile_sublist isSep (l := rest)).length_le
      have hhead := List.head?_dropWhile_not isSep rest
      rw [hseps]
      generalize rest.dropWhile isSep = rest' at hle hhead
      cases rest' with
      | nil => rfl
      | cons c rest' =>
          have hc : isSep c = false := hhead
          have hpos : 0 < (c :: rest').length := Nat.succ_pos _
          rw [if_neg (by simp)]
          simp only
          rw [setKind_eq_commit hsound]
          -- the piece, and what ends it
          have hpiece : Scan.read ⟨.gap last, name⟩ (c :: rest')
              = Scan.read ⟨.piece last ((c :: rest').takeWhile fun c => !isSep c), name⟩
                  ((c :: rest').dropWhile fun c => !isSep c) := by
            conv_lhs =>
              rw [← List.takeWhile_append_dropWhile (p := fun c => !isSep c) (l := c :: rest')]
            rw [Scan.read_append, Scan.read_whole_piece]
            · intro d hd
              simpa using List.mem_takeWhile_imp hd
            · simp [hc]
          have hafter := (List.dropWhile_sublist (fun c => !isSep c) (l := rest')).length_le
          have hend := List.head?_dropWhile_not (fun c => !isSep c) (c :: rest')
          have hskip : (c :: rest').dropWhile (fun c => !isSep c)
              = rest'.dropWhile (fun c => !isSep c) := by simp [hc]
          rw [hpiece]
          rw [hskip] at hend ⊢
          generalize rest'.dropWhile (fun c => !isSep c) = after at hafter hend
          cases after with
          | nil => rfl
          | cons sep after =>
              have hsep : isSep sep = true := by simpa using hend
              rw [List.length_cons] at hle hafter
              show str2nameLoop rounds (sep :: after) sep _ = _
              rw [ih (by rw [List.length_cons]; omega) (.inr (commit_ne_nil hsound)),
                Scan.read_cons, Scan.read_cons]
              simp only [Scan.next, hsep, if_true]

/-- The loop ends after at most a round for each character, and writes no kind of a component that
    does not exist. -/
theorem str2name_eq (n : Str) : str2name n = some (Scan.finish (.read .start n)) :=
  str2nameLoop_eq _ (Nat.lt_succ_self _) (.inl rfl)

/-! ## What stands before makes no difference

What the machine commits is appended to what it has, so a string can be read in two parts. -/

namespace Scan

/-- After the names of `before`. -/
def after (before : Name) (s : Scan) : Scan := { s with name := before ++ s.name }

theorem setKind_append {before name : Name} (hname : name ≠ []) (kind : Str) :
    setKind (before ++ name) kind = (setKind name kind).map (before ++ ·) := by
  have hlast := List.getLast?_eq_some_getLast hname
  rw [setKind, setKind, List.getLast?_append_of_ne_nil _ hname, hlast,
    List.dropLast_append_of_ne_nil hname]
  simp only [Option.map_some, List.append_assoc]

theorem commit_append {last : Char} {text : Str} {before name : Name}
    (hsound : last = '/' ∨ name ≠ []) :
    commit last text (before ++ name) = before ++ commit last text name := by
  by_cases hslash : last = '/'
  · rw [commit, commit, if_pos hslash, if_pos hslash, List.append_assoc]
  · have hname := hsound.resolve_left hslash
    rw [commit, commit, if_neg hslash, if_neg hslash, setKind_append hname, setKind,
      List.getLast?_eq_some_getLast hname]
    rfl

theorem next_spec {s : Scan} (hs : s.Sound) (before : Name) (c : Char) :
    (s.next c).Sound ∧ (s.after before).next c = (s.next c).after before := by
  obtain ⟨mode, name⟩ := s
  cases mode with
  | gap last =>
      simp only [next, after]
      split
      · exact ⟨hs, rfl⟩
      · exact ⟨hs, rfl⟩
  | piece last text =>
      simp only [next, after]
      split
      · exact ⟨.inr (commit_ne_nil hs), by rw [commit_append hs]⟩
      · exact ⟨hs, rfl⟩

theorem read_spec {s : Scan} (hs : s.Sound) (before : Name) (t : Str) :
    (s.read t).Sound ∧ (s.after before).read t = (s.read t).after before := by
  induction t generalizing s with
  | nil => exact ⟨hs, rfl⟩
  | cons c t ih =>
      obtain ⟨hnext, hafter⟩ := next_spec hs before c
      rw [read_cons, read_cons, hafter]
      exact ih hnext

theorem finish_after {s : Scan} (hs : s.Sound) (before : Name) :
    (s.after before).finish = before ++ s.finish := by
  obtain ⟨mode, name⟩ := s
  cases mode with
  | gap last => rfl
  | piece last text => exact commit_append hs

theorem finish_read_after (before : Name) (t : Str) :
    finish (.read ⟨.gap '/', before⟩ t) = before ++ finish (start.read t) := by
  have hstart : start.Sound := .inl rfl
  have hafter : (⟨.gap '/', before⟩ : Scan) = start.after before := by
    rw [after, start, List.append_nil]
  obtain ⟨hsound, hread⟩ := read_spec hstart before t
  rw [hafter, hread, finish_after hsound]

/-- At a `/` the last component is closed, but for a `.` that stands before it. -/
theorem next_slash {s : Scan} (hs : ∀ last, s.mode = .gap last → last = '/') :
    s.next '/' = ⟨.gap '/', s.finish⟩ := by
  obtain ⟨mode, name⟩ := s
  cases mode with
  | gap last =>
      obtain rfl := hs last rfl
      rfl
  | piece last text => rfl

end Scan

/-! ## A dot that nothing follows -/

/-- There is something in the string that is no separator. -/
def hasPiece (s : Str) : Bool := s.any (fun c => !isSep c)

/-- The separators after the last piece begin with a dot. -/
def dotted (s : Str) : Bool := hasPiece s && (s.reverse.takeWhile isSep).getLast? == some '.'

namespace Scan

/-- Where the machine stands after a string. -/
theorem mode_read (s : Str) :
    (∃ last text, (start.read s).mode = .piece last text ∧ hasPiece s = true ∧
      s.reverse.takeWhile isSep = []) ∨
    (∃ last, (start.read s).mode = .gap last ∧ (hasPiece s = false → last = '/') ∧
      (hasPiece s = true → (s.reverse.takeWhile isSep).getLast? = some last)) := by
  induction s using List.reverseRecOn with
  | nil => exact .inr ⟨'/', rfl, fun _ => rfl, nofun⟩
  | append_singleton s c ih =>
      have hread : start.read (s ++ [c]) = (start.read s).next c := read_append _ _ _
      have hpiece : hasPiece (s ++ [c]) = (hasPiece s || !isSep c) := by
        simp [hasPiece]
      rw [hread, hpiece, List.reverse_append, List.reverse_singleton, List.singleton_append,
        List.takeWhile_cons]
      cases hc : isSep c with
      | true =>
          rw [if_pos rfl, Bool.not_true, Bool.or_false]
          right
          rcases ih with ⟨last, text, hmode, hhas, hnone⟩ | ⟨last, hmode, hno, hyes⟩
          · refine ⟨c, ?_, ?_, ?_⟩
            · simp only [next, hmode, hc, if_true]
            · rw [hhas]
              exact nofun
            · rw [hnone]
              exact fun _ => rfl
          · refine ⟨last, ?_, hno, ?_⟩
            · simp only [next, hmode, hc, if_true]
            · intro hhas
              rw [List.getLast?_cons, hyes hhas]
              rfl
      | false =>
          rw [if_neg nofun, Bool.not_false, Bool.or_true]
          left
          rcases ih with ⟨last, text, hmode, -, -⟩ | ⟨last, hmode, -, -⟩
          · exact ⟨last, text ++ [c], by simp [next, hmode, hc], rfl, rfl⟩
          · exact ⟨last, [c], by simp [next, hmode, hc], rfl, rfl⟩

theorem mode_of_dotted {s : Str} (hs : dotted s = true) : (start.read s).mode = .gap '.' := by
  unfold dotted at hs
  rw [Bool.and_eq_true, beq_iff_eq] at hs
  rcases mode_read s with ⟨last, text, -, -, hnone⟩ | ⟨last, hmode, -, hyes⟩
  · rw [hnone] at hs
    exact absurd hs.2 nofun
  · rw [hyes hs.1] at hs
    rw [hmode, Option.some.inj hs.2]

theorem slash_of_not_dotted {s : Str} (hs : dotted s = false) (last : Char)
    (hlast : (start.read s).mode = .gap last) : last = '/' := by
  rcases mode_read s with ⟨last', text, hmode, -, -⟩ | ⟨last', hmode, hno, hyes⟩
  · rw [hmode] at hlast
    exact Mode.noConfusion hlast
  · rw [hmode] at hlast
    obtain rfl := Mode.gap.inj hlast
    cases hhas : hasPiece s with
    | false => exact hno hhas
    | true =>
        have hlast := hyes hhas
        have hsep := List.mem_takeWhile_imp (List.mem_of_getLast? hlast)
        have hne : last' ≠ '.' := by
          rintro rfl
          simp [dotted, hhas, hlast] at hs
        simp only [isSep, Bool.or_eq_true, beq_iff_eq] at hsep
        exact hsep.resolve_right hne

/-! ## Counting components

There is a component for each piece that comes after a `/`. Of a run of separators only the first is
looked at. -/

theorem length_finish_read (mode : Mode) (name name' : Name) (t : Str) :
    (finish (.read ⟨mode, name⟩ t)).length + name'.length
      = (finish (.read ⟨mode, name'⟩ t)).length + name.length := by
  induction t generalizing mode name name' with
  | nil =>
      cases mode with
      | gap last => exact Nat.add_comm _ _
      | piece last text =>
          simp only [read_nil, finish, length_commit]
          omega
  | cons c t ih =>
      simp only [read_cons, next]
      cases mode with
      | gap last =>
          simp only
          split
          · exact ih _ _ _
          · exact ih _ _ _
      | piece last text =>
          simp only
          split
          · have h := ih (.gap c) (commit last text name) (commit last text name')
            simp only [length_commit] at h
            omega
          · exact ih _ _ _

/-- A piece after `/` is a component more than the same piece after a dot. -/
theorem length_finish_piece (text : Str) (name : Name) (t : Str) :
    (finish (.read ⟨.piece '/' text, name⟩ t)).length
      = (finish (.read ⟨.piece '.' text, name⟩ t)).length + 1 := by
  induction t generalizing text with
  | nil =>
      simp only [read_nil, finish, length_commit]
      rfl
  | cons c t ih =>
      simp only [read_cons, next]
      split
      · have h := length_finish_read (.gap c) (commit '/' text name) (commit '.' text name) t
        simp only [length_commit, if_true] at h
        have hdot : (if '.' = '/' then 1 else 0) = 0 := rfl
        rw [hdot] at h
        omega
      · exact ih _

theorem exists_piece {t : Str} (ht : hasPiece t = true) :
    ∃ seps c rest, t = seps ++ c :: rest ∧ (∀ d ∈ seps, isSep d = true) ∧ isSep c = false := by
  induction t with
  | nil => exact absurd ht nofun
  | cons c t ih =>
      cases hc : isSep c with
      | false => exact ⟨[], c, t, rfl, nofun, hc⟩
      | true =>
          have ht : hasPiece t = true := by
            simpa [hasPiece, hc] using ht
          obtain ⟨seps, d, rest, rfl, hseps, hd⟩ := ih ht
          exact ⟨c :: seps, d, rest, rfl, List.forall_mem_cons.2 ⟨hc, hseps⟩, hd⟩

theorem seps_of_not_hasPiece {t : Str} (ht : hasPiece t = false) : ∀ c ∈ t, isSep c = true := by
  simpa [hasPiece] using ht

theorem length_finish_gap {t : Str} (ht : hasPiece t = true) (name : Name) :
    (finish (.read ⟨.gap '/', name⟩ t)).length
      = (finish (.read ⟨.gap '.', name⟩ t)).length + 1 := by
  obtain ⟨seps, c, rest, rfl, hseps, hc⟩ := exists_piece ht
  rw [read_append, read_append, read_seps hseps, read_seps hseps, read_cons, read_cons, next, next]
  simp only [hc, Bool.false_eq_true, if_false]
  exact length_finish_piece _ _ _

/-- Without a `/` there is no component after the first. -/
theorem length_finish_segment {t : Str} (ht : '/' ∉ t) (name : Name) :
    (finish (.read ⟨.gap '.', name⟩ t)).length = name.length ∧
    (∀ text, (finish (.read ⟨.piece '.' text, name⟩ t)).length = name.length) ∧
    ∀ text, (finish (.read ⟨.piece '/' text, name⟩ t)).length = name.length + 1 := by
  induction t generalizing name with
  | nil =>
      refine ⟨rfl, ?_, ?_⟩
      · intro text
        exact length_commit '.' text name
      · intro text
        exact length_commit '/' text name
  | cons c t ih =>
      obtain ⟨hc, hrest⟩ := List.ne_and_not_mem_of_not_mem_cons ht
      have ih := ih hrest
      simp only [read_cons, next]
      cases hsep : isSep c with
      | false =>
          simp only [Bool.false_eq_true, if_false]
          exact ⟨(ih name).2.1 _, fun _ => (ih name).2.1 _, fun _ => (ih name).2.2 _⟩
      | true =>
          have hdot : c = '.' := by
            simp only [isSep, Bool.or_eq_true, beq_iff_eq] at hsep
            exact hsep.resolve_left (Ne.symm hc)
          subst hdot
          simp only [if_true]
          refine ⟨(ih name).1, ?_, ?_⟩
          · intro text
            rw [(ih _).1, length_commit]
            rfl
          · intro text
            rw [(ih _).1, length_commit]
            rfl

end Scan

/-! ## At a slash -/

theorem str2name_append {s t : Str} (hs : dotted s = false ∨ hasPiece t = false) :
    ∃ a b, str2name s = some a ∧ str2name t = some b ∧
      str2name (s ++ '/' :: t) = some (a ++ b) := by
  refine ⟨_, _, str2name_eq s, str2name_eq t, ?_⟩
  rw [str2name_eq, Scan.read_append, Scan.read_cons]
  rcases hs with hs | ht
  · rw [Scan.next_slash (Scan.slash_of_not_dotted hs), Scan.finish_read_after]
  · have hseps := Scan.seps_of_not_hasPiece ht
    -- `t` adds nothing on either side
    have hmode : ∃ last, (Scan.start.read s).next '/' = ⟨.gap last, (Scan.start.read s).finish⟩ := by
      generalize Scan.start.read s = σ
      obtain ⟨mode, name⟩ := σ
      cases mode with
      | gap last => exact ⟨last, rfl⟩
      | piece last text => exact ⟨'/', rfl⟩
    obtain ⟨last, hlast⟩ := hmode
    rw [hlast, Scan.start, Scan.read_seps hseps, Scan.read_seps hseps]
    exact congrArg some (List.append_nil _).symm

/-- The component after the dot is missing. -/
theorem length_str2name_dotted {s t : Str} (hs : dotted s = true) (ht : hasPiece t = true)
    {a b c : Name} (ha : str2name s = some a) (hb : str2name t = some b)
    (hc : str2name (s ++ '/' :: t) = some c) : c.length + 1 = a.length + b.length := by
  have hmode := Scan.mode_of_dotted hs
  rw [str2name_eq] at ha hb hc
  obtain rfl := Option.some.inj ha
  obtain rfl := Option.some.inj hb
  obtain rfl := Option.some.inj hc
  rw [Scan.read_append, Scan.read_cons]
  generalize Scan.start.read s = σ at hmode
  obtain ⟨mode, name⟩ := σ
  obtain rfl : mode = .gap '.' := hmode
  show (Scan.finish (.read ⟨.gap '.', name⟩ t)).length + 1 = name.length + _
  rw [← Scan.length_finish_gap ht, Scan.finish_read_after, List.length_append]

/-! ## Segments and printed names -/

theorem str2name_segment {s : Str} (hs : '/' ∉ s) :
    ∃ name, str2name s = some name ∧ name.length = if hasPiece s then 1 else 0 := by
  refine ⟨_, str2name_eq s, ?_⟩
  cases hpiece : hasPiece s with
  | false =>
      rw [Scan.start, Scan.read_seps (Scan.seps_of_not_hasPiece hpiece)]
      rfl
  | true =>
      obtain ⟨seps, c, rest, rfl, hseps, hc⟩ := Scan.exists_piece hpiece
      have hrest : '/' ∉ rest := fun h =>
        hs (List.mem_append_right _ (List.mem_cons_of_mem _ h))
      rw [Scan.read_append, Scan.start, Scan.read_seps hseps, Scan.read_cons, Scan.next]
      simp only [hc, Bool.false_eq_true, if_false]
      exact (Scan.length_finish_segment hrest []).2.2 [c]

/-- What the grammar gives a component: an id, and a kind that may be empty. -/
structure Printable (c : NameComponent) : Prop where
  id_ne_nil : c.id ≠ []
  id : ∀ ch ∈ c.id, isSep ch = false
  kind : ∀ ch ∈ c.kind, isSep ch = false

/-- The text of a component is read as the component, and leaves no open dot. -/
theorem read_component {c : NameComponent} (hc : Printable c) {s : Scan}
    (hs : ∀ last, s.mode = .gap last → last = '/') :
    (s.read (printName [c])).finish = s.finish ++ [c] ∧
      ∀ last, (s.read (printName [c])).mode = .gap last → last = '/' := by
  obtain ⟨id, kind⟩ := c
  have htext : printName [⟨id, kind⟩] = '/' :: id ++ if kind.isEmpty then [] else '.' :: kind :=
    List.append_nil _
  rw [htext, List.cons_append, Scan.read_cons, Scan.next_slash hs, Scan.read_append,
    Scan.read_whole_piece hc.id hc.id_ne_nil]
  cases kind with
  | nil => exact ⟨rfl, nofun⟩
  | cons k kind =>
      have hdot : ∀ σ : Scan, σ.read ('.' :: k :: kind) = (σ.next '.').read (k :: kind) :=
        fun _ => rfl
      have hnext : Scan.next ⟨.piece '/' id, s.finish⟩ '.'
          = ⟨.gap '.', s.finish ++ [⟨id, []⟩]⟩ := rfl
      rw [List.isEmpty_cons, if_neg nofun, hdot, hnext, Scan.read_whole_piece hc.kind nofun]
      refine ⟨?_, nofun⟩
      show commit '.' (k :: kind) (s.finish ++ [⟨id, []⟩]) = _
      rw [commit, if_neg (by decide), setKind, List.getLast?_append, List.dropLast_concat]
      rfl

theorem str2name_printName {name : Name} (hname : ∀ c ∈ name, Printable c) :
    str2name (printName name) = some name := by
  have hread : ∀ s : Scan, (∀ last, s.mode = .gap last → last = '/') →
      (s.read (printName name)).finish = s.finish ++ name := by
    induction name with
    | nil => exact fun s _ => (List.append_nil _).symm
    | cons c name ih =>
        intro s hs
        obtain ⟨hc, hname⟩ := List.forall_mem_cons.1 hname
        obtain ⟨hfinish, hopen⟩ := read_component hc hs
        have htext : printName (c :: name) = printName [c] ++ printName name := by
          rw [printName, printName, List.flatMap_cons, List.flatMap_cons, List.flatMap_nil,
            List.append_nil]
          rfl
        rw [htext, Scan.read_append, ih hname _ hopen, hfinish, List.append_assoc,
          List.singleton_append]
  rw [str2name_eq, hread .start fun last hlast => (Mode.gap.inj hlast).symm]
  rfl

/-- **Where names are split.** For all strings, `s/t` is the name of `s` followed by the name of `t`
    if and only if `s` does not end in a dot that a piece of `t` follows. Each segment is at most one
    component, a printed name is read back, and the loop ends with every write inside the name. -/
theorem str2name_splits (s t : Str) (name : Name) :
    ((∃ a b, str2name s = some a ∧ str2name t = some b ∧
        str2name (s ++ '/' :: t) = some (a ++ b)) ↔ ¬ (dotted s = true ∧ hasPiece t = true)) ∧
    ('/' ∉ s → ∃ a, str2name s = some a ∧ a.length = if hasPiece s then 1 else 0) ∧
    ((∀ c ∈ name, Printable c) → str2name (printName name) = some name) ∧
    ∃ a, str2name s = some a := by
  refine ⟨⟨?_, ?_⟩, fun hs => str2name_segment hs, fun hname => str2name_printName hname,
    ⟨_, str2name_eq s⟩⟩
  · rintro ⟨a, b, ha, hb, hc⟩ ⟨hs, ht⟩
    have hlength := length_str2name_dotted hs ht ha hb hc
    rw [List.length_append] at hlength
    omega
  · intro h
    apply str2name_append
    cases hs : dotted s with
    | false => exact .inl rfl
    | true => exact .inr (Bool.eq_false_iff.2 fun ht => h ⟨hs, ht⟩)

theorem str2name_splits_context :
    (∃ a b, str2name "foo.bar".toList = some a ∧ str2name "baz".toList = some b ∧
      str2name ("foo.bar".toList ++ '/' :: "baz".toList) = some (a ++ b)) ∧
    (∃ a, str2name "foo.bar".toList = some a ∧ a.length = 1) ∧
    str2name (printName [⟨"foo".toList, "bar".toList⟩, ⟨"baz".toList, []⟩])
      = some [⟨"foo".toList, "bar".toList⟩, ⟨"baz".toList, []⟩] := by
  obtain ⟨hsplits, hsegment, hprinted, -⟩ := str2name_splits "foo.bar".toList "baz".toList
    [⟨"foo".toList, "bar".toList⟩, ⟨"baz".toList, []⟩]
  refine ⟨hsplits.2 (by decide), hsegment (by decide), hprinted ?_⟩
  intro c hc
  rcases List.mem_cons.1 hc with rfl | hc
  · exact ⟨by decide, by decide, by decide⟩
  · obtain rfl := List.mem_singleton.1 hc
    exact ⟨by decide, by decide, by decide⟩

/-- `a./b` is the component `a` of kind `b`. -/
theorem str2name_swallows :
    str2name "a.".toList = some [⟨"a".toList, []⟩] ∧
    str2name "b".toList = some [⟨"b".toList, []⟩] ∧
    str2name ("a.".toList ++ '/' :: "b".toList) = some [⟨"a".toList, "b".toList⟩] ∧
    ¬ ∀ s t, ∃ a b, str2name s = some a ∧ str2name t = some b ∧
      str2name (s ++ '/' :: t) = some (a ++ b) := by
  refine ⟨by decide, by decide, by decide, ?_⟩
  intro h
  obtain ⟨a, b, ha, hb, hc⟩ := h "a.".toList "b".toList
  have hlength := length_str2name_dotted (by decide) (by decide) ha hb hc
  rw [List.length_append] at hlength
  omega

end OmniEvents.Naming
