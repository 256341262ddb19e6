import Mathlib.Data.Option.Basic

set_option autoImplicit false

/-! # Bindings

A graph of contexts. In each context some labels are bound to objects, and some objects are contexts
again; a path of labels is looked up from one context to the next. A change keeps the bindings if it
only adds some, and replaces none but such that are no contexts, all by the same object. -/

/-- In each context, the objects that the labels are bound to. -/
def Bindings (Ctx Label Obj : Type*) := Ctx → Label → Option Obj

namespace Bindings

variable {Ctx Label Obj : Type*} (ctxOf : Obj → Option Ctx)

/-- What a path is bound to. -/
def lookup (b : Bindings Ctx Label Obj) : Ctx → List Label → Option Obj
  | _, [] => none
  | ctx, [l] => b ctx l
  | ctx, l :: m :: path => ((b ctx l).bind ctxOf).bind fun ctx => lookup b ctx (m :: path)

variable {b b' b'' : Bindings Ctx Label Obj} {ctx ctx' : Ctx} {l : Label} {o obj : Obj}
  {path : List Label}

theorem lookup_cons (h : (b ctx l).bind ctxOf = some ctx') (hpath : path ≠ []) :
    lookup ctxOf b ctx (l :: path) = lookup ctxOf b ctx' path := by
  match path with
  | [] => exact absurd rfl hpath
  | m :: path => simp only [lookup, h, Option.bind_some]

/-! ## One more binding -/

section Bind

variable [DecidableEq Ctx] [DecidableEq Label]

/-- A label of a context is bound to an object. -/
def bind (b : Bindings Ctx Label Obj) (ctx : Ctx) (l : Label) (o : Obj) : Bindings Ctx Label Obj :=
  fun ctx' m => if ctx' = ctx ∧ m = l then some o else b ctx' m

@[simp] theorem bind_self : b.bind ctx l o ctx l = some o := by
  simp [bind]

theorem bind_of_ne {m : Label} (h : ¬ (ctx' = ctx ∧ m = l)) : b.bind ctx l o ctx' m = b ctx' m :=
  if_neg h

end Bind

/-! ## What stays -/

/-- Every object stays where it is bound, or it is no context and `obj` takes its place. -/
def Kept (obj : Obj) (b b' : Bindings Ctx Label Obj) : Prop :=
  ∀ ctx l o, b ctx l = some o → b' ctx l = some o ∨ ctxOf o = none ∧ b' ctx l = some obj

variable {ctxOf}

theorem Kept.refl (obj : Obj) (b : Bindings Ctx Label Obj) : Kept ctxOf obj b b :=
  fun _ _ _ h => Or.inl h

theorem Kept.trans (h : Kept ctxOf obj b b') (h' : Kept ctxOf obj b' b'') :
    Kept ctxOf obj b b'' := by
  intro ctx l o ho
  rcases h ctx l o ho with hstays | ⟨hnone, hobj⟩
  · exact h' ctx l o hstays
  · exact Or.inr ⟨hnone, (h' ctx l obj hobj).elim id And.right⟩

/-- A context stays. -/
theorem Kept.context (h : Kept ctxOf obj b b') (hctx : (b ctx l).bind ctxOf = some ctx') :
    (b' ctx l).bind ctxOf = some ctx' := by
  obtain ⟨o, ho, hctxOf⟩ := Option.bind_eq_some_iff.1 hctx
  rcases h ctx l o ho with hstays | ⟨hnone, -⟩
  · rw [hstays]
    exact hctxOf
  · rw [hnone] at hctxOf
    cases hctxOf

/-- So every path stays bound to what it was bound to, or is bound to `obj`. -/
theorem Kept.lookup (h : Kept ctxOf obj b b') (hpath : Bindings.lookup ctxOf b ctx path = some o) :
    Bindings.lookup ctxOf b' ctx path = some o ∨
      ctxOf o = none ∧ Bindings.lookup ctxOf b' ctx path = some obj := by
  induction path generalizing ctx with
  | nil => cases hpath
  | cons l path ih =>
      cases path with
      | nil => exact h ctx l o hpath
      | cons m path =>
          obtain ⟨ctx', hctx, hrest⟩ := Option.bind_eq_some_iff.1 hpath
          rw [lookup_cons ctxOf (h.context hctx) (List.cons_ne_nil _ _)]
          exact ih hrest

variable [DecidableEq Ctx] [DecidableEq Label]

theorem kept_bind_free (obj : Obj) (hfree : b ctx l = none) : Kept ctxOf obj b (b.bind ctx l o) := by
  intro ctx' m o' ho'
  refine Or.inl ((bind_of_ne ?_).trans ho')
  rintro ⟨rfl, rfl⟩
  rw [hfree] at ho'
  cases ho'

theorem kept_bind (hfree : ∀ o, b ctx l = some o → ctxOf o = none) :
    Kept ctxOf obj b (b.bind ctx l obj) := by
  intro ctx' m o' ho'
  by_cases h : ctx' = ctx ∧ m = l
  · obtain ⟨rfl, rfl⟩ := h
    exact Or.inr ⟨hfree o' ho', bind_self⟩
  · exact Or.inl ((bind_of_ne h).trans ho')

end Bindings
