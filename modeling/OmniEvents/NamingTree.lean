import OmniEvents.BindName
import OmniEvents.Lib.Bindings

set_option autoImplicit false

/-! # What a name is bound to

What `bindName2Object` does to the bindings of the naming service. The service is a parameter that
does what its specification says, or fails: then it has done what it should or nothing. Nobody else
changes its bindings meanwhile. -/

namespace OmniEvents.Naming

variable {Ctx Obj σ : Type}

/-! ## The calls of a naming service

What each call may return, and what it may do to the bindings. Where `faults` holds a call may also
fail, and one that fails may have done its work all the same. -/

section Calls

variable [DecidableEq Ctx] (ctxOf : Obj → Option Ctx) (faults : Prop)
  (b : Bindings Ctx NameComponent Obj) (ctx : Ctx) (c : NameComponent)

/-- A new context is empty. -/
structure IsNew (o : Obj) (new : Ctx) : Prop where
  free : b ctx c = none
  ctxOf : ctxOf o = some new
  ne : new ≠ ctx
  empty : ∀ d, b new d = none

/-- `bind_new_context`: the name may be bound already. A call that fails may have done its work all
    the same. -/
inductive BindNewContext : Except NamingExn (Option Ctx) → Bindings Ctx NameComponent Obj → Prop where
  | bound (o : Obj) (new : Ctx) (hnew : IsNew ctxOf b ctx c o new) :
      BindNewContext (.ok (some new)) (b.bind ctx c o)
  | alreadyBound (o : Obj) (hbound : b ctx c = some o) : BindNewContext (.error .AlreadyBound) b
  | failed (ex : NamingExn) (hex : ex ≠ .AlreadyBound) (hfaults : faults) :
      BindNewContext (.error ex) b
  | lost (ex : NamingExn) (hex : ex ≠ .AlreadyBound) (hfaults : faults) (o : Obj) (new : Ctx)
      (hnew : IsNew ctxOf b ctx c o new) : BindNewContext (.error ex) (b.bind ctx c o)

/-- `resolve` says what a component is bound to, and changes nothing. -/
inductive Resolve : Except NamingExn (Option Obj) → Prop where
  | resolved (o : Obj) (hbound : b ctx c = some o) : Resolve (.ok (some o))
  | notFound (hfree : b ctx c = none) : Resolve (.error (.Exception "NotFound".toList))
  | failed (ex : NamingExn) (hfaults : faults) : Resolve (.error ex)

/-- `narrow` gives nil for what is no context. -/
inductive Narrow (obj : Option Obj) : Except NamingExn (Option Ctx) → Prop where
  | narrowed : Narrow obj (.ok (obj.bind ctxOf))
  | failed (ex : NamingExn) (hfaults : faults) : Narrow obj (.error ex)

/-- `bind` binds a free component only. -/
inductive Bind (obj : Obj) : Except NamingExn Unit → Bindings Ctx NameComponent Obj → Prop where
  | bound (hfree : b ctx c = none) : Bind obj (.ok ()) (b.bind ctx c obj)
  | alreadyBound (o : Obj) (hbound : b ctx c = some o) : Bind obj (.error .AlreadyBound) b
  | failed (ex : NamingExn) (hex : ex ≠ .AlreadyBound) (hfaults : faults) : Bind obj (.error ex) b
  | lost (ex : NamingExn) (hex : ex ≠ .AlreadyBound) (hfaults : faults) (hfree : b ctx c = none) :
      Bind obj (.error ex) (b.bind ctx c obj)

/-- What is bound as a context is not rebound as an object. -/
inductive Rebind (obj : Obj) : Except NamingExn Unit → Bindings Ctx NameComponent Obj → Prop where
  | rebound (hobject : ∀ o, b ctx c = some o → ctxOf o = none) :
      Rebind obj (.ok ()) (b.bind ctx c obj)
  | notFound (hcontext : ((b ctx c).bind ctxOf).isSome = true) :
      Rebind obj (.error (.Exception "NotFound".toList)) b
  | failed (ex : NamingExn) (hfaults : faults) : Rebind obj (.error ex) b
  | lost (ex : NamingExn) (hfaults : faults) (hobject : ∀ o, b ctx c = some o → ctxOf o = none) :
      Rebind obj (.error ex) (b.bind ctx c obj)

end Calls

/-- The service does what its specification says, to the bindings that a state of it has; it may raise
    other exceptions only if there are `faults`. A context is always bound as a context: one that is
    bound as an object, so that `resolve` returns it and a path does not lead through it, is not told
    apart. Only the calls change the bindings. -/
structure Specified [DecidableEq Ctx] (svc : NamingService Ctx Obj σ)
    (bindings : σ → Bindings Ctx NameComponent Obj) (ctxOf : Obj → Option Ctx) (faults : Prop) :
    Prop where
  bind_new_context : ∀ ctx c s, BindNewContext ctxOf faults (bindings s) ctx c
    (svc.bind_new_context ctx [c] s).1 (bindings (svc.bind_new_context ctx [c] s).2)
  resolve : ∀ ctx c s, Resolve faults (bindings s) ctx c (svc.resolve ctx [c] s).1
  resolve_bindings : ∀ ctx c s, bindings (svc.resolve ctx [c] s).2 = bindings s
  narrow : ∀ obj s, Narrow ctxOf faults obj (svc.narrow obj s).1
  narrow_bindings : ∀ obj s, bindings (svc.narrow obj s).2 = bindings s
  bind : ∀ ctx c obj s, Bind faults (bindings s) ctx c obj
    (svc.bind ctx [c] obj s).1 (bindings (svc.bind ctx [c] obj s).2)
  rebind : ∀ ctx c obj s, Rebind ctxOf faults (bindings s) ctx c obj
    (svc.rebind ctx [c] obj s).1 (bindings (svc.rebind ctx [c] obj s).2)

/-! ## A service

A service of this kind, which never fails. -/

/-- A context is a number and an object a context or something else; no context from `next` on has
    been used. -/
structure NamingGraph where
  bindings : Bindings ℕ NameComponent (ℕ ⊕ ℕ)
  next : ℕ
  unused : ∀ ctx, next ≤ ctx → ∀ c, bindings ctx c = none

namespace NamingGraph

/-- Nothing is bound. -/
def empty : NamingGraph := { bindings := fun _ _ => none, next := 1, unused := fun _ _ _ => rfl }

/-- A context that has not been used, and is not this one. -/
def fresh (g : NamingGraph) (ctx : ℕ) : ℕ := max g.next (ctx + 1)

/-- A component is bound; if it is to a new context, that is the next one. -/
def add (g : NamingGraph) (ctx : ℕ) (c : NameComponent) (o : ℕ ⊕ ℕ) : NamingGraph where
  bindings := g.bindings.bind ctx c o
  next := g.fresh ctx + 1
  unused ctx' hctx' d := by
    unfold fresh at hctx'
    rw [Bindings.bind_of_ne (by omega), g.unused ctx' (by omega)]

/-- The calls, all of them for one component. -/
def service : NamingService ℕ (ℕ ⊕ ℕ) NamingGraph where
  bind_new_context ctx n g :=
    match n with
    | [c] =>
        if (g.bindings ctx c).isSome then (.error .AlreadyBound, g)
        else (.ok (some (g.fresh ctx)), g.add ctx c (.inl (g.fresh ctx)))
    | _ => (.error (.Exception "InvalidName".toList), g)
  resolve ctx n g :=
    match n with
    | [c] =>
        match g.bindings ctx c with
        | some o => (.ok (some o), g)
        | none => (.error (.Exception "NotFound".toList), g)
    | _ => (.error (.Exception "InvalidName".toList), g)
  narrow obj g := (.ok (obj.bind Sum.getLeft?), g)
  bind ctx n obj g :=
    match n with
    | [c] =>
        if (g.bindings ctx c).isSome then (.error .AlreadyBound, g)
        else (.ok (), g.add ctx c obj)
    | _ => (.error (.Exception "InvalidName".toList), g)
  rebind ctx n obj g :=
    match n with
    | [c] =>
        if ((g.bindings ctx c).bind Sum.getLeft?).isSome then
          (.error (.Exception "NotFound".toList), g)
        else (.ok (), g.add ctx c obj)
    | _ => (.error (.Exception "InvalidName".toList), g)

theorem service_specified : Specified service bindings Sum.getLeft? False where
  bind_new_context ctx c g := by
    simp only [service]
    split
    · next h =>
        obtain ⟨o, ho⟩ := Option.isSome_iff_exists.1 h
        exact .alreadyBound o ho
    · next h =>
        refine .bound _ _ ⟨by simpa using h, rfl, ?_, ?_⟩
        · unfold fresh
          omega
        · exact g.unused _ (le_max_left _ _)
  resolve ctx c g := by
    simp only [service]
    split
    · next o ho => exact .resolved o ho
    · next h => exact .notFound h
  resolve_bindings ctx c g := by
    simp only [service]
    split <;> rfl
  narrow obj g := .narrowed
  narrow_bindings obj g := rfl
  bind ctx c obj g := by
    simp only [service]
    split
    · next h =>
        obtain ⟨o, ho⟩ := Option.isSome_iff_exists.1 h
        exact .alreadyBound o ho
    · next h => exact .bound (by simpa using h)
  rebind ctx c obj g := by
    simp only [service]
    split
    · next h => exact .notFound h
    · next h =>
        refine .rebound ?_
        intro o ho
        rw [ho] at h
        simpa using h

end NamingGraph

/-! ## From context to context

The loop by indices is a walk along the list of components. From here on nothing is about indices
any more. -/

/-- The loop and what follows it, over the components that are left. -/
def walk (svc : NamingService Ctx Obj σ) (name : Name) (obj : Obj) : Name → Ctx → σ → Ended × σ
  | [], _, s => (.outside, s)
  | [c], ctx, s =>
      match bindObject svc ctx [c] obj s with
      | (.error ex, s) => (handle name ex, s)
      | (.ok _, s) => (.returned 0, s)
  | c :: d :: rest, ctx, s =>
      match drillInto svc ctx [c] s with
      | (.error ex, s) => (handle name ex, s)
      | (.ok none, s) => (.returned 2, s)
      | (.ok (some ctx), s) => walk svc name obj (d :: rest) ctx s

theorem drillDown_eq_walk (svc : NamingService Ctx Obj σ) {name : Name} (obj : Obj)
    (hname : name ≠ []) (hlength : name.length < 2 ^ 32) (rounds : ℕ) {i : UInt32}
    (hi : i.toNat ≤ (lastIndex name).toNat) (hrounds : (lastIndex name).toNat - i.toNat < rounds)
    (ctx : Ctx) (s : σ) :
    ∃ run, drillDown svc name obj rounds i ctx s = some run ∧
      (run.ended, run.state) = walk svc name obj (name.drop i.toNat) ctx s := by
  have hlast : (lastIndex name).toNat = name.length - 1 := by
    have hpos := List.length_pos_iff.2 hname
    unfold lastIndex
    rw [UInt32.toNat_sub, UInt32.toNat_ofNat', UInt32.toNat_one]
    omega
  have hpos := List.length_pos_iff.2 hname
  induction rounds generalizing i ctx s with
  | zero => exact absurd hrounds (Nat.not_lt_zero _)
  | succ rounds ih =>
      rw [drillDown]
      by_cases hmore : i < lastIndex name
      · have hlt : i.toNat < (lastIndex name).toNat := UInt32.lt_iff_toNat_lt.1 hmore
        have hin : i.toNat < name.length := by omega
        have hin' : i.toNat + 1 < name.length := by omega
        have hnext : (i + 1).toNat = i.toNat + 1 := by
          have hbound := (lastIndex name).toNat_lt
          rw [UInt32.toNat_add, UInt32.toNat_one]
          omega
        rw [if_pos hmore, List.getElem?_eq_getElem hin, List.drop_eq_getElem_cons hin,
          List.drop_eq_getElem_cons hin', walk]
        simp only
        generalize drillInto svc ctx [name[i.toNat]] s = r
        obtain ⟨_ | _ | ctx', s'⟩ := r
        · exact ⟨_, rfl, rfl⟩
        · exact ⟨_, rfl, rfl⟩
        · obtain ⟨run, hrun, heq⟩ := ih (i := i + 1) (by omega) (by omega) ctx' s'
          rw [hnext, List.drop_eq_getElem_cons hin'] at heq
          exact ⟨run.after i, congrArg (Option.map (BindRun.after i)) hrun, heq⟩
      · have heq : i.toNat = (lastIndex name).toNat := by
          have hge := UInt32.not_lt.1 hmore
          exact le_antisymm hi (UInt32.le_iff_toNat_le.1 hge)
        have hin : (lastIndex name).toNat < name.length := by omega
        rw [if_neg hmore, bindLast, List.getElem?_eq_getElem hin, heq,
          List.drop_eq_getElem_cons hin, List.drop_of_length_le (by omega), walk]
        refine ⟨_, rfl, ?_⟩
        simp only
        generalize bindObject svc ctx [name[(lastIndex name).toNat]] obj s = r
        obtain ⟨_ | _, s'⟩ := r
        · rfl
        · rfl

/-! ## What a round does -/

section Specs

variable [DecidableEq Ctx] {svc : NamingService Ctx Obj σ}
  {bindings : σ → Bindings Ctx NameComponent Obj} {ctxOf : Obj → Option Ctx} {faults : Prop}

/-- Into a new context, into the one that is there, or nowhere. -/
inductive Drilled (ctxOf : Obj → Option Ctx) (faults : Prop) (obj : Obj)
    (b : Bindings Ctx NameComponent Obj) (ctx : Ctx) (c : NameComponent) :
    Except NamingExn (Option Ctx) → Bindings Ctx NameComponent Obj → Prop where
  | new (o : Obj) (new : Ctx) (hnew : IsNew ctxOf b ctx c o new) :
      Drilled ctxOf faults obj b ctx c (.ok (some new)) (b.bind ctx c o)
  | context (o : Obj) (ctx' : Ctx) (hbound : b ctx c = some o) (hctx : ctxOf o = some ctx') :
      Drilled ctxOf faults obj b ctx c (.ok (some ctx')) b
  | object (o : Obj) (hbound : b ctx c = some o) (hobject : ctxOf o = none) :
      Drilled ctxOf faults obj b ctx c (.ok none) b
  | failed (ex : NamingExn) (hfaults : faults) (b' : Bindings Ctx NameComponent Obj)
      (hkept : Bindings.Kept ctxOf obj b b') : Drilled ctxOf faults obj b ctx c (.error ex) b'

theorem drillInto_spec (h : Specified svc bindings ctxOf faults) (obj : Obj) (ctx : Ctx)
    (c : NameComponent) (s : σ) :
    Drilled ctxOf faults obj (bindings s) ctx c (drillInto svc ctx [c] s).1
      (bindings (drillInto svc ctx [c] s).2) := by
  have hnew := h.bind_new_context ctx c s
  unfold drillInto
  split
  · next s' heq =>
      rw [heq] at hnew
      simp only at hnew
      -- it is bound, and nothing has changed
      obtain ⟨o, hbound, hsame⟩ : ∃ o, bindings s ctx c = some o ∧ bindings s' = bindings s := by
        generalize bindings s' = b' at hnew
        cases hnew with
        | alreadyBound o hbound => exact ⟨o, hbound, rfl⟩
        | failed _ hex _ => exact absurd rfl hex
        | lost _ hex _ _ _ _ => exact absurd rfl hex
      have hresolve := h.resolve ctx c s'
      have hresolved := (h.resolve_bindings ctx c s').trans hsame
      rw [hsame] at hresolve
      split
      · next ex s'' heq =>
          rw [heq] at hresolve hresolved
          cases hresolve with
          | notFound hfree =>
              rw [hfree] at hbound
              cases hbound
          | failed _ hfaults =>
              simp only at hresolved
              rw [hresolved]
              exact .failed ex hfaults _ (.refl _ _)
      · next obj2 s'' heq =>
          rw [heq] at hresolve hresolved
          have hnarrow := h.narrow obj2 s''
          have hsame := (h.narrow_bindings obj2 s'').trans hresolved
          rw [hsame]
          cases hresolve with
          | resolved o' hbound' =>
              generalize (svc.narrow (some o') s'').1 = result at hnarrow
              cases hnarrow with
              | narrowed =>
                  rw [Option.bind_some]
                  cases hctx : ctxOf o' with
                  | none => exact .object o' hbound' hctx
                  | some ctx' => exact .context o' ctx' hbound' hctx
              | failed ex hfaults => exact .failed ex hfaults _ (.refl _ _)
  · next hne =>
      generalize hr : svc.bind_new_context ctx [c] s = r at hnew hne
      obtain ⟨result, s'⟩ := r
      simp only at hnew
      show Drilled _ _ _ _ _ _ result (bindings s')
      generalize bindings s' = b' at hnew
      cases hnew with
      | bound o new hnew => exact .new o new hnew
      | alreadyBound o hbound => exact absurd rfl (hne s')
      | failed ex _ hfaults => exact .failed ex hfaults _ (.refl _ _)
      | lost ex _ hfaults o new hnew =>
          exact .failed ex hfaults _ (Bindings.kept_bind_free obj hnew.free)

/-- The object is bound, unless a context is. -/
inductive ObjectBound (ctxOf : Obj → Option Ctx) (faults : Prop) (obj : Obj)
    (b : Bindings Ctx NameComponent Obj) (ctx : Ctx) (c : NameComponent) :
    Except NamingExn Unit → Bindings Ctx NameComponent Obj → Prop where
  | bound (hobject : ∀ o, b ctx c = some o → ctxOf o = none) :
      ObjectBound ctxOf faults obj b ctx c (.ok ()) (b.bind ctx c obj)
  | context (hcontext : ((b ctx c).bind ctxOf).isSome = true) :
      ObjectBound ctxOf faults obj b ctx c (.error (.Exception "NotFound".toList)) b
  | failed (ex : NamingExn) (hfaults : faults) (b' : Bindings Ctx NameComponent Obj)
      (hkept : Bindings.Kept ctxOf obj b b') : ObjectBound ctxOf faults obj b ctx c (.error ex) b'

theorem bindObject_spec (h : Specified svc bindings ctxOf faults) (obj : Obj) (ctx : Ctx)
    (c : NameComponent) (s : σ) :
    ObjectBound ctxOf faults obj (bindings s) ctx c (bindObject svc ctx [c] obj s).1
      (bindings (bindObject svc ctx [c] obj s).2) := by
  have hbind := h.bind ctx c obj s
  unfold bindObject
  split
  · next s' heq =>
      rw [heq] at hbind
      simp only at hbind
      have hsame : bindings s' = bindings s := by
        generalize bindings s' = b' at hbind
        cases hbind with
        | alreadyBound o hbound => rfl
        | failed _ hex _ => exact absurd rfl hex
        | lost _ hex _ _ => exact absurd rfl hex
      have hrebind := h.rebind ctx c obj s'
      rw [hsame] at hrebind
      generalize (svc.rebind ctx [c] obj s').1 = result at hrebind
      generalize bindings (svc.rebind ctx [c] obj s').2 = b' at hrebind
      cases hrebind with
      | rebound hobject => exact .bound hobject
      | notFound hcontext => exact .context hcontext
      | failed ex hfaults => exact .failed ex hfaults _ (.refl _ _)
      | lost ex hfaults hobject => exact .failed ex hfaults _ (Bindings.kept_bind hobject)
  · next hne =>
      generalize hr : svc.bind ctx [c] obj s = r at hbind hne
      obtain ⟨result, s'⟩ := r
      simp only at hbind
      show ObjectBound _ _ _ _ _ _ result (bindings s')
      generalize bindings s' = b' at hbind
      cases hbind with
      | bound hfree =>
          refine .bound ?_
          rintro o ho
          rw [hfree] at ho
          cases ho
      | alreadyBound o hbound => exact absurd rfl (hne s')
      | failed ex _ hfaults => exact .failed ex hfaults _ (.refl _ _)
      | lost ex _ hfaults hfree =>
          exact .failed ex hfaults _ (Bindings.kept_bind_free obj hfree)

/-! ## The whole walk

What the bindings before the call say of the end, and what the call has done to them. The induction
is along the name, from the root on. -/

/-- What it comes to, as the bindings are before it, if the service does not fail. -/
def outcome (ctxOf : Obj → Option Ctx) (b : Bindings Ctx NameComponent Obj) (name : Name) :
    Name → Ctx → Ended
  | [], _ => .outside
  | [c], ctx =>
      if ((b ctx c).bind ctxOf).isSome then handle name (.Exception "NotFound".toList)
      else .returned 0
  | c :: d :: rest, ctx =>
      match b ctx c with
      | none => .returned 0
      | some o =>
          match ctxOf o with
          | none => .returned 2
          | some ctx => outcome ctxOf b name (d :: rest) ctx

omit [DecidableEq Ctx] in
/-- Nothing is in the way in an empty context. -/
theorem outcome_of_empty {b : Bindings Ctx NameComponent Obj} {ctx : Ctx} (h : ∀ c, b ctx c = none)
    (name : Name) {rest : Name} (hrest : rest ≠ []) : outcome ctxOf b name rest ctx = .returned 0 := by
  match rest with
  | [] => exact absurd rfl hrest
  | [c] => simp only [outcome, h, Option.bind_none, Option.isSome_none, Bool.false_eq_true, if_false]
  | c :: d :: rest => simp only [outcome, h]

/-- What a run has done. -/
structure Walked (ctxOf : Obj → Option Ctx) (faults : Prop) (name : Name) (obj : Obj) (rest : Name)
    (ctx : Ctx) (b b' : Bindings Ctx NameComponent Obj) (ended : Ended) : Prop where
  kept : Bindings.Kept ctxOf obj b b'
  bound : ended = .returned 0 → Bindings.lookup ctxOf b' ctx rest = some obj
  returned : ∀ code, ended = .returned code → outcome ctxOf b name rest ctx = .returned code
  outcome : ¬ faults → ended = outcome ctxOf b name rest ctx

theorem handle_ne_returned (name : Name) (ex : NamingExn) (code : ℕ) :
    handle name ex ≠ .returned code := by
  cases ex with
  | SystemException minor => cases minor <;> exact nofun
  | _ => exact nofun

omit [DecidableEq Ctx] in
/-- An exception ends it. -/
theorem Walked.failed {name rest : Name} {obj : Obj} {ctx : Ctx}
    {b b' : Bindings Ctx NameComponent Obj} (hkept : Bindings.Kept ctxOf obj b b') {ex : NamingExn}
    (hex : faults ∨ handle name ex = Naming.outcome ctxOf b name rest ctx) :
    Walked ctxOf faults name obj rest ctx b b' (handle name ex) where
  kept := hkept
  bound h := absurd h (handle_ne_returned name ex 0)
  returned code h := absurd h (handle_ne_returned name ex code)
  outcome h := hex.resolve_left h

omit [DecidableEq Ctx] in
/-- A round, and the walk from the context that it leads to. -/
theorem Walked.cons {name rest : Name} {obj : Obj} {ctx ctx' : Ctx} {c d : NameComponent}
    {b b' b'' : Bindings Ctx NameComponent Obj} {ended : Ended}
    (hkept : Bindings.Kept ctxOf obj b b') (hctx : (b' ctx c).bind ctxOf = some ctx')
    (houtcome : Naming.outcome ctxOf b name (c :: d :: rest) ctx =
      Naming.outcome ctxOf b' name (d :: rest) ctx')
    (hrest : Walked ctxOf faults name obj (d :: rest) ctx' b' b'' ended) :
    Walked ctxOf faults name obj (c :: d :: rest) ctx b b'' ended where
  kept := hkept.trans hrest.kept
  bound h := by
    rw [Bindings.lookup_cons ctxOf (hrest.kept.context hctx) (List.cons_ne_nil _ _)]
    exact hrest.bound h
  returned code h := houtcome.trans (hrest.returned code h)
  outcome h := (hrest.outcome h).trans houtcome.symm

/-- The last component is bound to the object, unless it is bound to a context. -/
theorem walk_last_spec (h : Specified svc bindings ctxOf faults) (name : Name) (obj : Obj)
    (c : NameComponent) (ctx : Ctx) (s : σ) :
    Walked ctxOf faults name obj [c] ctx (bindings s)
      (bindings (walk svc name obj [c] ctx s).2) (walk svc name obj [c] ctx s).1 := by
  have hbound := bindObject_spec h obj ctx c s
  rw [walk]
  generalize hr : bindObject svc ctx [c] obj s = r at hbound
  obtain ⟨result, s'⟩ := r
  simp only at hbound
  generalize hb : bindings s' = b' at hbound
  cases hbound with
  | bound hobject =>
      have hout : outcome ctxOf (bindings s) name [c] ctx = .returned 0 := by
        refine if_neg ?_
        cases ho : bindings s ctx c with
        | none => exact Bool.false_ne_true
        | some o =>
            rw [Option.bind_some, hobject o ho]
            exact Bool.false_ne_true
      show Walked _ _ _ _ _ _ _ (bindings s') (.returned 0)
      rw [hb]
      exact
        { kept := Bindings.kept_bind hobject
          bound := fun _ => Bindings.bind_self
          returned := fun _ h => hout.trans h
          outcome := fun _ => hout.symm }
  | context hcontext =>
      show Walked _ _ _ _ _ _ _ (bindings s') (handle name (.Exception "NotFound".toList))
      rw [hb]
      exact .failed (.refl _ _) (Or.inr (if_pos hcontext).symm)
  | failed ex hfaults _ hkept =>
      show Walked _ _ _ _ _ _ _ (bindings s') (handle name ex)
      rw [hb]
      exact .failed hkept (Or.inl hfaults)

theorem walk_spec (h : Specified svc bindings ctxOf faults) (name : Name) (obj : Obj) {rest : Name}
    (hrest : rest ≠ []) (ctx : Ctx) (s : σ) :
    Walked ctxOf faults name obj rest ctx (bindings s)
      (bindings (walk svc name obj rest ctx s).2) (walk svc name obj rest ctx s).1 := by
  induction rest generalizing ctx s with
  | nil => exact absurd rfl hrest
  | cons c rest ih =>
      cases rest with
      | nil => exact walk_last_spec h name obj c ctx s
      | cons d rest =>
          have hdrilled := drillInto_spec h obj ctx c s
          rw [walk]
          generalize hr : drillInto svc ctx [c] s = r at hdrilled
          obtain ⟨result, s'⟩ := r
          simp only at hdrilled
          generalize hb : bindings s' = b' at hdrilled
          have hnext := fun ctx' => ih (List.cons_ne_nil d rest) ctx' s'
          rw [hb] at hnext
          cases hdrilled with
          | new o new hnew =>
              have hempty : ∀ e, (bindings s).bind ctx c o new e = none := fun e =>
                (Bindings.bind_of_ne fun hsame => hnew.ne hsame.1).trans (hnew.empty e)
              refine (hnext new).cons (Bindings.kept_bind_free obj hnew.free) ?_ ?_
              · rw [Bindings.bind_self, Option.bind_some, hnew.ctxOf]
              · rw [outcome_of_empty hempty name (List.cons_ne_nil d rest)]
                simp only [outcome, hnew.free]
          | context o ctx' hbound hctx =>
              refine (hnext ctx').cons (.refl _ _) ?_ ?_
              · rw [hbound, Option.bind_some, hctx]
              · simp only [outcome, hbound, hctx]
          | object o hbound hobject =>
              have hout : outcome ctxOf (bindings s) name (c :: d :: rest) ctx = .returned 2 := by
                simp only [outcome, hbound, hobject]
              show Walked _ _ _ _ _ _ _ (bindings s') (.returned 2)
              rw [hb]
              exact
                { kept := .refl _ _
                  bound := nofun
                  returned := fun _ h => hout.trans h
                  outcome := fun _ => hout.symm }
          | failed ex hfaults _ hkept =>
              show Walked _ _ _ _ _ _ _ (bindings s') (handle name ex)
              rw [hb]
              exact .failed hkept (Or.inl hfaults)

/-- **What a name is bound to.** If `bindName2Object` returns 0 the name is bound to the object.
    However it ends, each path that was bound stays bound to the same, or now leads to the object and
    was bound to no context. It returns nothing but what the bindings before it say: 2 if a context of
    the name is bound to something else, 0 if none is and the name is not bound to a context; if the
    service does not fail, that is how it ends. -/
theorem bindName2Object_binds (h : Specified svc bindings ctxOf faults) {name : Name}
    (hname : name ≠ []) (hlength : name.length < 2 ^ 32) (root : Ctx) (obj : Obj) (s : σ) :
    ∃ run, bindName2Object svc (some root) name obj s = some run ∧
      (run.ended = .returned 0 →
        Bindings.lookup ctxOf (bindings run.state) root name = some obj) ∧
      (∀ path o, Bindings.lookup ctxOf (bindings s) root path = some o →
        Bindings.lookup ctxOf (bindings run.state) root path = some o ∨
          ctxOf o = none ∧ Bindings.lookup ctxOf (bindings run.state) root path = some obj) ∧
      (∀ code, run.ended = .returned code →
        outcome ctxOf (bindings s) name name root = .returned code) ∧
      (¬ faults → run.ended = outcome ctxOf (bindings s) name name root) := by
  obtain ⟨run, hrun, hwalk⟩ := drillDown_eq_walk svc obj hname hlength
    ((lastIndex name).toNat + 1) (i := 0) (Nat.zero_le _) (Nat.lt_succ_of_le (Nat.sub_le _ _)) root s
  have hspec := walk_spec h name obj hname root s
  rw [UInt32.toNat_zero, List.drop_zero] at hwalk
  rw [← hwalk] at hspec
  exact ⟨run, hrun, hspec.bound, fun path o ho => hspec.kept.lookup ho, hspec.returned,
    hspec.outcome⟩

/-- The first component is bound to a context already, and the second in it to another object. -/
theorem bindName2Object_binds_two :
    ∃ run, bindName2Object NamingGraph.service (some 0) [⟨['a'], []⟩, ⟨['b'], []⟩] (.inr 7)
        ((NamingGraph.empty.add 0 ⟨['a'], []⟩ (.inl 1)).add 1 ⟨['b'], []⟩ (.inr 5)) = some run ∧
      run.ended = .returned 0 ∧
      Bindings.lookup Sum.getLeft? run.state.bindings 0 [⟨['a'], []⟩, ⟨['b'], []⟩] =
        some (.inr 7) ∧
      Bindings.lookup Sum.getLeft? run.state.bindings 0 [⟨['a'], []⟩] = some (.inl 1) := by
  have hname : [⟨['a'], []⟩, (⟨['b'], []⟩ : NameComponent)] ≠ [] := by simp
  obtain ⟨run, hrun, hbound, hkept, -, hended⟩ :=
    bindName2Object_binds NamingGraph.service_specified hname (by decide) 0 (.inr 7)
      ((NamingGraph.empty.add 0 ⟨['a'], []⟩ (.inl 1)).add 1 ⟨['b'], []⟩ (.inr 5))
  have hreturned : run.ended = .returned 0 := hended id
  refine ⟨run, hrun, hreturned, hbound hreturned, ?_⟩
  rcases hkept [⟨['a'], []⟩] (.inl 1) rfl with h | ⟨⟨⟩, -⟩
  exact h

end Specs

end OmniEvents.Naming
