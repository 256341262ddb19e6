import OmniEvents.Naming

set_option autoImplicit false

/-! # Binding the factory's name

`bindName2Object` drills down through the contexts of a name, creating those that do not exist, and
binds the object under the last component. Its loop runs up to `name.length()-1`, of an unsigned long:
for the empty name that is 2^32-1, and the first round reads `name[0]`. `str2name` gives the empty
name for a string that has nothing but separators. The naming service is a parameter: whatever it
answers or raises, at every level, no index lies outside a name that is not empty. -/

namespace OmniEvents.Naming

/-! ## The naming service -/

/-- What a call to the naming service raises, as the handlers of `bindName2Object` tell it apart. -/
inductive NamingExn where
  | AlreadyBound
  | COMM_FAILURE
  | fatalException
  /-- With `NP_minorString`, which may be null. -/
  | SystemException (minor : Option Str)
  /-- With `_name`. -/
  | Exception (name : Str)
  deriving DecidableEq, Repr

/-- The calls of `CosNaming::NamingContext` that `bindName2Object` makes. A nil reference is `none`.
    -/
structure NamingService (Ctx Obj σ : Type) where
  bind_new_context : Ctx → Name → σ → Except NamingExn (Option Ctx) × σ
  resolve : Ctx → Name → σ → Except NamingExn (Option Obj) × σ
  narrow : Option Obj → σ → Except NamingExn (Option Ctx) × σ
  bind : Ctx → Name → Obj → σ → Except NamingExn Unit × σ
  rebind : Ctx → Name → Obj → σ → Except NamingExn Unit × σ

variable {Ctx Obj σ : Type} (svc : NamingService Ctx Obj σ)

/-! ## The function

`bindName2Object` with its loop and its handlers. What it writes to `cerr` is part of how it ends;
what the service does to its own state is not looked into. -/

/-- How `bindName2Object` ends: by `return`, by `exit`, or by an exception that it throws again. -/
inductive Ended where
  | returned (code : ℕ)
  | exited (status : ℕ) (cerr : Str)
  | thrown (ex : NamingExn) (cerr : Str)
  /-- It has read `name[i]` of an `i` outside the name; what comes of that is not known. -/
  | outside
  deriving DecidableEq, Repr

/-- The handlers of `bindName2Object`, with what they write to `cerr`. -/
def handle (name : Name) : NamingExn → Ended
  | .COMM_FAILURE =>
      .exited 1
        "Caught system exception COMM_FAILURE, unable to contact the naming service.".toList
  | .fatalException =>
      .thrown .fatalException ("Caught omniORB fatal exception binding ".toList ++ printName name)
  | .SystemException none => .exited 1 ("System exception binding ".toList ++ printName name)
  | .SystemException (some minor) =>
      .exited 1 ("System exception binding ".toList ++ printName name
        ++ ": ".toList ++ minor ++ " (".toList ++ minor ++ ")".toList)
  | .Exception exName =>
      .exited 1 ("CORBA exception binding ".toList ++ printName name ++ ": ".toList ++ exName)
  | .AlreadyBound =>
      .exited 1 ("CORBA exception binding ".toList ++ printName name
        ++ ": AlreadyBound".toList)

/-- The body of the loop in `bindName2Object`: `bind_new_context`, or the context that is bound
    there. -/
def drillInto (ctx : Ctx) (n : Name) (s : σ) : Except NamingExn (Option Ctx) × σ :=
  match svc.bind_new_context ctx n s with
  | (.error .AlreadyBound, s) =>
      match svc.resolve ctx n s with
      | (.error ex, s) => (.error ex, s)
      | (.ok obj2, s) => svc.narrow obj2 s
  | result => result

/-- The end of `bindName2Object`: `bind`, or `rebind` over what is bound there. -/
def bindObject (ctx : Ctx) (n : Name) (obj : Obj) (s : σ) : Except NamingExn Unit × σ :=
  match svc.bind ctx n obj s with
  | (.error .AlreadyBound, s) => svc.rebind ctx n obj s
  | result => result

/-- A run of `bindName2Object`: the `i` of every `name[i]`, how often the loop has gone round, and how
    it ended. -/
structure BindRun (σ : Type) where
  accessed : List UInt32
  rounds : ℕ
  ended : Ended
  state : σ
  deriving DecidableEq, Repr

/-- A round of the loop in `bindName2Object`, before the others. -/
def BindRun.after (i : UInt32) (run : BindRun σ) : BindRun σ :=
  { run with accessed := i :: run.accessed, rounds := run.rounds + 1 }

/-- `name.length()-1`. -/
def lastIndex (name : Name) : UInt32 := UInt32.ofNat name.length - 1

/-- What follows the loop in `bindName2Object`: the last component is bound. -/
def bindLast (name : Name) (obj : Obj) (ctx : Ctx) (s : σ) : BindRun σ :=
  match name[(lastIndex name).toNat]? with
  | none => ⟨[lastIndex name], 0, .outside, s⟩
  | some c =>
      match bindObject svc ctx [c] obj s with
      | (.error ex, s) => ⟨[lastIndex name], 0, handle name ex, s⟩
      | (.ok _, s) => ⟨[lastIndex name], 0, .returned 0, s⟩

/-- The loop in `bindName2Object`, from `i` on, and what follows it; no value after too few rounds.
    -/
def drillDown (name : Name) (obj : Obj) : ℕ → UInt32 → Ctx → σ → Option (BindRun σ)
  | 0, _, _, _ => none
  | rounds + 1, i, ctx, s =>
      if i < lastIndex name then
        match name[i.toNat]? with
        | none => some ⟨[i], 1, .outside, s⟩
        | some c =>
            match drillInto svc ctx [c] s with
            | (.error ex, s) => some ⟨[i], 1, handle name ex, s⟩
            | (.ok none, s) => some ⟨[i], 1, .returned 2, s⟩
            | (.ok (some ctx), s) => (drillDown name obj rounds (i + 1) ctx s).map (.after i)
      else some (bindLast svc name obj ctx s)

/-- `bindName2Object`: all components but the last one name contexts, which are made if they are not
    there. -/
def bindName2Object (namingContext : Option Ctx) (name : Name) (obj : Obj) (s : σ) :
    Option (BindRun σ) :=
  match namingContext with
  | none => some ⟨[], 0, .returned 1, s⟩
  | some ctx => drillDown svc name obj ((lastIndex name).toNat + 1) 0 ctx s

/-! ## Names that are not empty -/

/-- Every index lies in the name, and the loop has not gone round more often than that. -/
structure InBounds (name : Name) (rounds : ℕ) (run : BindRun σ) : Prop where
  accessed : ∀ i ∈ run.accessed, i.toNat < name.length
  rounds_le : run.rounds ≤ rounds

variable {name : Name}

/-- Without the wrap of the empty name. -/
theorem lastIndex_lt (hname : name ≠ []) : (lastIndex name).toNat < name.length := by
  have hpos := List.length_pos_iff.2 hname
  unfold lastIndex
  rw [UInt32.toNat_sub, UInt32.toNat_ofNat', UInt32.toNat_one]
  omega

theorem InBounds.after {rounds : ℕ} {run : BindRun σ} {i : UInt32} (h : InBounds name rounds run)
    (hi : i.toNat < name.length) : InBounds name (rounds + 1) (run.after i) :=
  { accessed := List.forall_mem_cons.2 ⟨hi, h.accessed⟩
    rounds_le := Nat.succ_le_succ h.rounds_le }

theorem inBounds_single {i : UInt32} {rounds bound : ℕ} {ended : Ended} {s : σ}
    (hi : i.toNat < name.length) (hrounds : rounds ≤ bound) :
    InBounds name bound ⟨[i], rounds, ended, s⟩ :=
  { accessed := List.forall_mem_singleton.2 hi
    rounds_le := hrounds }

theorem bindLast_inBounds (hname : name ≠ []) (obj : Obj) (ctx : Ctx) (s : σ) (bound : ℕ) :
    InBounds name bound (bindLast svc name obj ctx s) := by
  have hlast := lastIndex_lt hname
  unfold bindLast
  rw [List.getElem?_eq_getElem hlast]
  split
  · exact inBounds_single hlast (Nat.zero_le _)
  · split
    · exact inBounds_single hlast (Nat.zero_le _)
    · exact inBounds_single hlast (Nat.zero_le _)

/-- Whatever the service answers, the loop ends after the rounds that are left. -/
theorem drillDown_inBounds (hname : name ≠ []) (obj : Obj) (rounds : ℕ) {i : UInt32}
    (hi : i.toNat ≤ (lastIndex name).toNat) (hrounds : (lastIndex name).toNat - i.toNat < rounds)
    (ctx : Ctx) (s : σ) :
    ∃ run, drillDown svc name obj rounds i ctx s = some run ∧
      InBounds name ((lastIndex name).toNat - i.toNat) run := by
  have hlast := lastIndex_lt hname
  induction rounds generalizing i ctx s with
  | zero => exact absurd hrounds (Nat.not_lt_zero _)
  | succ rounds ih =>
      rw [drillDown]
      by_cases hmore : i < lastIndex name
      · have hlt : i.toNat < (lastIndex name).toNat := UInt32.lt_iff_toNat_lt.1 hmore
        have hin : i.toNat < name.length := Nat.lt_trans hlt hlast
        have hone : 1 ≤ (lastIndex name).toNat - i.toNat := by omega
        rw [if_pos hmore, List.getElem?_eq_getElem hin]
        simp only
        split
        · exact ⟨_, rfl, inBounds_single hin hone⟩
        · exact ⟨_, rfl, inBounds_single hin hone⟩
        · next ctx' s' _ =>
            have hnext : (i + 1).toNat = i.toNat + 1 := by
              have hbound := (lastIndex name).toNat_lt
              rw [UInt32.toNat_add, UInt32.toNat_one]
              omega
            obtain ⟨run, hrun, hbounds⟩ := ih (i := i + 1) (by omega) (by omega) ctx' s'
            have hleft : (lastIndex name).toNat - i.toNat
                = (lastIndex name).toNat - (i + 1).toNat + 1 := by omega
            rw [hrun, hleft]
            exact ⟨_, rfl, hbounds.after hin⟩
      · rw [if_neg hmore]
        exact ⟨_, rfl, bindLast_inBounds svc hname obj ctx s _⟩

/-! ## The empty name

The string that `-N` gives may have no component. Then `name.length()-1` is 2^32-1, and the first
index is already outside. -/

/-- The first round reads outside it. -/
theorem bindName2Object_nil (ctx : Ctx) (obj : Obj) (s : σ) :
    bindName2Object svc (some ctx) [] obj s = some ⟨[0], 1, .outside, s⟩ := by
  unfold bindName2Object
  simp only
  rw [drillDown, if_pos (by decide)]
  rfl

/-- `str2name` gives the empty name for separators only. -/
theorem str2name_eq_nil_iff {namestr : Str} (h : str2name namestr = some name) :
    name = [] ↔ hasPiece namestr = false := by
  rw [str2name_eq] at h
  obtain rfl := Option.some.inj h
  cases hpiece : hasPiece namestr with
  | false =>
      rw [Scan.start, Scan.read_seps (Scan.seps_of_not_hasPiece hpiece)]
      exact iff_of_true rfl rfl
  | true =>
      have hlength := Scan.length_finish_gap hpiece []
      rw [← List.length_eq_zero_iff, Scan.start, hlength]
      exact iff_of_false (Nat.succ_ne_zero _) Bool.noConfusion

/-- A name parsed from the command line is bound without an access outside it exactly if the string
    has a character that is no separator. -/
theorem bind_parsed_name (ctx : Ctx) (obj : Obj) (s : σ) (namestr : Str) :
    (∃ name run, str2name namestr = some name ∧
      bindName2Object svc (some ctx) name obj s = some run ∧ InBounds name name.length run) ↔
    hasPiece namestr = true := by
  constructor
  · rintro ⟨name, run, hparsed, hrun, hbounds⟩
    by_contra hpiece
    obtain rfl := (str2name_eq_nil_iff hparsed).2 (Bool.eq_false_iff.2 hpiece)
    rw [bindName2Object_nil] at hrun
    obtain rfl := Option.some.inj hrun
    exact absurd (hbounds.accessed 0 List.mem_cons_self) (Nat.not_lt_zero _)
  · intro hpiece
    have hparsed := str2name_eq namestr
    have hname : Scan.finish (Scan.start.read namestr) ≠ [] := by
      rw [Ne, str2name_eq_nil_iff hparsed, hpiece]
      exact Bool.noConfusion
    obtain ⟨run, hrun, hbounds⟩ := drillDown_inBounds svc hname obj _ (i := 0) (Nat.zero_le _)
      (Nat.lt_succ_of_le (Nat.sub_le _ _)) ctx s
    refine ⟨_, run, hparsed, hrun, hbounds.accessed, ?_⟩
    have hlast := lastIndex_lt hname
    have hrounds := hbounds.rounds_le
    omega

/-- A service that has nothing bound yet. -/
def freshService : NamingService Unit Unit Unit :=
  { bind_new_context := fun _ _ s => (.ok (some ()), s)
    resolve := fun _ _ s => (.error (.Exception "NotFound".toList), s)
    narrow := fun _ s => (.ok none, s)
    bind := fun _ _ _ s => (.ok (), s)
    rebind := fun _ _ _ s => (.ok (), s) }

/-- Neither `-N ""` nor `-N /` names anything. -/
theorem bind_empty_string :
    str2name [] = some [] ∧ str2name "/".toList = some [] ∧
    bindName2Object freshService (some ()) [] () () = some ⟨[0], 1, .outside, ()⟩ ∧
    ¬ ∀ namestr, ∃ name run, str2name namestr = some name ∧
      bindName2Object freshService (some ()) name () () = some run ∧
      InBounds name name.length run := by
  refine ⟨rfl, by decide, bindName2Object_nil freshService () () (), ?_⟩
  intro h
  obtain ⟨name, run, hparsed, hrun, hbounds⟩ := h []
  obtain rfl : [] = name := Option.some.inj hparsed
  rw [bindName2Object_nil] at hrun
  obtain rfl := Option.some.inj hrun
  exact absurd (hbounds.accessed 0 List.mem_cons_self) (Nat.not_lt_zero _)

end OmniEvents.Naming
