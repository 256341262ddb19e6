import OmniEvents.PersistNode
import OmniEvents.Lib.PathMap

set_option autoImplicit false

/-! # What is found at a path of the persistency tree

`attrsAt n path` is the attribute map of the node at `path` below `n`, if there is such a node. As a
function of the path it is the abstract view of the tree, and the tree operations are the updates of
`PathMap` on it. The recursion of every operation is on the path, so the proofs are inductions on
the path with one lookup equation of `OrdMap` at each level. -/

namespace OmniEvents.PersistNode

/-- The node at a path. -/
def find : List Str → PersistNode → Option PersistNode
  | [], n => some n
  | s :: rest, n => (n.child s).bind (find rest)

/-- The attributes of the node at a path. -/
def attrsAt (n : PersistNode) (path : List Str) : Option (List (Str × Str)) :=
  (n.find path).map attrs

theorem attrsAt_of_find {n m : PersistNode} {path : List Str} (h : n.find path = some m) :
    n.attrsAt path = some m.attrs := by
  rw [attrsAt, h, Option.map_some]

@[simp] theorem attrs_mk (a : List (Str × Str)) (c : List (Str × PersistNode)) :
    (mk a c).attrs = a := rfl

@[simp] theorem children_mk (a : List (Str × Str)) (c : List (Str × PersistNode)) :
    (mk a c).children = c := rfl

@[simp] theorem child_mk (a : List (Str × Str)) (c : List (Str × PersistNode)) (s : Str) :
    (mk a c).child s = c.lookup s := rfl

@[simp] theorem attrsAt_nil (n : PersistNode) : n.attrsAt [] = some n.attrs := rfl

theorem attrsAt_cons (n : PersistNode) (s : Str) (rest : List Str) :
    n.attrsAt (s :: rest) = (n.child s).bind (fun c => c.attrsAt rest) := by
  simp only [attrsAt, find]
  cases n.child s <;> rfl

theorem find_append (p q : List Str) (n : PersistNode) :
    n.find (p ++ q) = (n.find p).bind (find q) := by
  induction p generalizing n with
  | nil => rfl
  | cons s p ih =>
      simp only [List.cons_append, find]
      cases n.child s with
      | none => rfl
      | some c => exact ih c

theorem attrsAt_empty_cons (s : Str) (rest : List Str) : empty.attrsAt (s :: rest) = none := rfl

/-- Replacing one child changes what is found below its name, and nothing else. -/
theorem attrsAt_insert (n c : PersistNode) (s t : Str) (rest : List Str) :
    (mk n.attrs (OrdMap.insert s c n.children)).attrsAt (t :: rest)
      = if t = s then c.attrsAt rest else n.attrsAt (t :: rest) := by
  rw [attrsAt_cons, child_mk, OrdMap.lookup_insert]
  split
  · rfl
  · rw [attrsAt_cons, child]

/-! ## `addnode` -/

theorem addPath_cons {s : Str} {rest : List Str} (h : rest ≠ []) (n : PersistNode) :
    n.addPath (s :: rest)
      = mk n.attrs (OrdMap.insert s (addPath rest ((n.child s).getD empty)) n.children) := by
  obtain ⟨t, rest, rfl⟩ := List.exists_cons_of_ne_nil h
  rfl

theorem attrsAt_getD_child (n : PersistNode) (s : Str) (rest : List Str) (h : rest ≠ []) :
    ((n.child s).getD empty).attrsAt rest = n.attrsAt (s :: rest) := by
  obtain ⟨t, rest, rfl⟩ := List.exists_cons_of_ne_nil h
  rw [attrsAt_cons n]
  cases n.child s <;> rfl

/-- `addnode` puts a node without attributes at the path. -/
theorem attrsAt_addPath {p : List Str} (hp : p ≠ []) (n : PersistNode) :
    (n.addPath p).attrsAt = PathMap.set [] p [] n.attrsAt := by
  induction p generalizing n with
  | nil => exact absurd rfl hp
  | cons s rest ih =>
      funext q
      cases rest with
      | nil =>
          rw [addPath]
          cases q with
          | nil => rw [PathMap.set_above (List.nil_prefix) (by simp)]; rfl
          | cons t q =>
              rw [attrsAt_insert]
              by_cases hts : t = s
              · subst hts
                cases q with
                | nil => simp [attrsAt, find, empty]
                | cons u q =>
                    rw [if_pos rfl, attrsAt_empty_cons,
                      PathMap.set_below (by simp) (by simp)]
              · rw [if_neg hts, PathMap.set_apart (by simp [Ne.symm hts]) (by simp [hts])]
      | cons u rest =>
          rw [addPath_cons (by simp)]
          cases q with
          | nil => rw [PathMap.set_above (List.nil_prefix) (by simp)]; rfl
          | cons t q =>
              rw [attrsAt_insert]
              by_cases hts : t = s
              · subst hts
                rw [if_pos rfl, ih (by simp)]
                -- the same case of the definition applies one level down
                simp only [PathMap.set, List.cons.injEq, true_and, List.cons_prefix_cons]
                by_cases hq : q = []
                · subst hq
                  rw [attrsAt_cons]
                  cases n.child t <;> simp [empty]
                · rw [attrsAt_getD_child n t q hq]
              · rw [if_neg hts, PathMap.set_apart (by simp [Ne.symm hts]) (by simp [hts])]

/-! ## `addattr` at a path -/

/-- Updating the attributes of the node at a path changes what is found there, if there is a node,
    and nothing else. -/
theorem attrsAt_modifyAt {f : PersistNode → PersistNode} {g : List (Str × Str) → List (Str × Str)}
    (hf : ∀ n, f n = mk (g n.attrs) n.children) (p q : List Str) (n : PersistNode) :
    (n.modifyAt f p).attrsAt q = if q = p then (n.attrsAt p).map g else n.attrsAt q := by
  induction p generalizing q n with
  | nil =>
      cases q with
      | nil => simp [modifyAt, hf]
      | cons t q => simp [modifyAt, hf, attrsAt_cons, child]
  | cons s p ih =>
      cases hs : n.child s with
      | none =>
          simp only [modifyAt, hs]
          split
          · next h => subst h; rw [attrsAt_cons, hs]; rfl
          · rfl
      | some c =>
          simp only [modifyAt, hs]
          cases q with
          | nil => simp
          | cons t q =>
              rw [attrsAt_insert]
              by_cases hts : t = s
              · subst hts
                simp only [if_true, ih, List.cons.injEq, true_and]
                split
                · rw [attrsAt_cons, hs]; rfl
                · rw [attrsAt_cons, hs]; rfl
              · simp [hts]

theorem attrsAt_addattr (tok : Str) (p q : List Str) (n : PersistNode) :
    (n.modifyAt (·.addattr tok) p).attrsAt q
      = if q = p then (n.attrsAt p).map (OrdMap.insert (splitAttr tok).1 (splitAttr tok).2)
        else n.attrsAt q :=
  attrsAt_modifyAt (fun _ => rfl) p q n

/-! ## `delnode` -/

theorem delPath_cons {s : Str} {rest : List Str} (h : rest ≠ []) (n : PersistNode) :
    n.delPath (s :: rest) =
      match n.child s with
      | none => n
      | some c => mk n.attrs (OrdMap.insert s (delPath rest c) n.children) := by
  obtain ⟨t, rest, rfl⟩ := List.exists_cons_of_ne_nil h
  rfl

theorem attrsAt_delPath {p : List Str} (hp : p ≠ []) (n : PersistNode) :
    (n.delPath p).attrsAt = PathMap.remove p n.attrsAt := by
  induction p generalizing n with
  | nil => exact absurd rfl hp
  | cons s rest ih =>
      funext q
      cases rest with
      | nil =>
          cases q with
          | nil => rw [PathMap.remove_apart (by simp)]; rfl
          | cons t q =>
              rw [delPath, attrsAt_cons, child_mk, OrdMap.lookup_erase]
              by_cases hts : t = s
              · rw [if_pos hts, PathMap.remove_below (by simp [hts])]
                rfl
              · rw [if_neg hts, PathMap.remove_apart (by simp [Ne.symm hts]), attrsAt_cons, child]
      | cons u rest =>
          rw [delPath_cons (by simp)]
          cases hs : n.child s with
          | none =>
              cases q with
              | nil => rw [PathMap.remove_apart (by simp)]
              | cons t q =>
                  simp only [PathMap.remove, List.cons_prefix_cons]
                  split
                  · next h => rw [attrsAt_cons, ← h.1, hs]; rfl
                  · rfl
          | some c =>
              cases q with
              | nil => rw [PathMap.remove_apart (by simp)]; rfl
              | cons t q =>
                  rw [attrsAt_insert]
                  by_cases hts : t = s
                  · subst hts
                    rw [if_pos rfl, ih (by simp)]
                    simp only [PathMap.remove, List.cons_prefix_cons, true_and, attrsAt_cons, hs,
                      Option.bind_some]
                  · rw [if_neg hts, PathMap.remove_apart (by simp [Ne.symm hts])]

/-- Deleting twice is deleting once, down to the representation. -/
theorem delPath_delPath (p : List Str) (n : PersistNode) :
    (n.delPath p).delPath p = n.delPath p := by
  induction p generalizing n with
  | nil => rfl
  | cons s rest ih =>
      cases rest with
      | nil => simp [delPath, OrdMap.erase_erase]
      | cons t rest =>
          rw [delPath_cons (by simp) n]
          cases hs : n.child s with
          | none => rw [delPath_cons (by simp), hs]
          | some c =>
              rw [delPath_cons (by simp)]
              simp [ih, OrdMap.insert_insert]

/-! ## Sortedness

Every map of the tree is kept sorted by every operation, so the children of a node are exactly the
nodes that are found at its name. -/

/-- A node whose attributes and children are maps, and so on below. -/
inductive Sorted : PersistNode → Prop where
  | mk {attrs : List (Str × Str)} {children : List (Str × PersistNode)}
      (attrs_sorted : OrdMap.Sorted attrs) (children_sorted : OrdMap.Sorted children)
      (sub : ∀ e ∈ children, Sorted e.2) : Sorted (.mk attrs children)

theorem Sorted.attrs {n : PersistNode} (h : n.Sorted) : OrdMap.Sorted n.attrs := by
  cases h with
  | mk h _ _ => exact h

theorem Sorted.children {n : PersistNode} (h : n.Sorted) : OrdMap.Sorted n.children := by
  cases h with
  | mk _ h _ => exact h

theorem Sorted.sub {n : PersistNode} (h : n.Sorted) : ∀ e ∈ n.children, e.2.Sorted := by
  cases h with
  | mk _ _ h => exact h

theorem Sorted.empty : PersistNode.empty.Sorted := .mk .nil .nil (by simp)

theorem Sorted.mem_children {n : PersistNode} (h : n.Sorted) {s : Str} {c : PersistNode} :
    (s, c) ∈ n.children ↔ n.child s = some c :=
  h.children.mem_iff_lookup

theorem Sorted.child {n c : PersistNode} (h : n.Sorted) {s : Str} (hc : n.child s = some c) :
    c.Sorted :=
  h.sub _ (h.mem_children.2 hc)

theorem Sorted.find {n c : PersistNode} (h : n.Sorted) {path : List Str}
    (hc : n.find path = some c) : c.Sorted := by
  induction path generalizing n with
  | nil =>
      cases hc
      exact h
  | cons s path ih =>
      obtain ⟨m, hm, hrest⟩ := Option.bind_eq_some_iff.1 hc
      exact ih (h.child hm) hrest

theorem Sorted.getD_child {n : PersistNode} (h : n.Sorted) (s : Str) :
    ((n.child s).getD PersistNode.empty).Sorted := by
  cases hc : n.child s with
  | none => exact Sorted.empty
  | some c => exact h.child hc

/-- Trees at whose paths the same is found are the same. -/
theorem Sorted.ext {n m : PersistNode} (hn : n.Sorted) (hm : m.Sorted)
    (h : n.attrsAt = m.attrsAt) : n = m := by
  induction hn generalizing m with
  | @mk as cs has hcs hsub ih =>
      obtain ⟨bs, ds⟩ := m
      have hattrs : as = bs := Option.some_inj.1 (congrFun h [])
      have hchildren : cs = ds := by
        refine hcs.ext hm.children ?_
        intro s
        have hbelow : ∀ rest, (cs.lookup s).bind (fun c => c.attrsAt rest)
            = (ds.lookup s).bind (fun d => d.attrsAt rest) := fun rest => by
          have hrest := congrFun h (s :: rest)
          rwa [attrsAt_cons, attrsAt_cons] at hrest
        cases hc : cs.lookup s with
        | none =>
            cases hd : ds.lookup s with
            | none => rfl
            | some d =>
                have hnil := hbelow []
                rw [hc, hd] at hnil
                cases hnil
        | some c =>
            cases hd : ds.lookup s with
            | none =>
                have hnil := hbelow []
                rw [hc, hd] at hnil
                cases hnil
            | some d =>
                simp only [hc, hd, Option.bind_some] at hbelow
                exact congrArg some (ih (s, c) (hcs.mem_iff_lookup.2 hc) (hm.child hd)
                  (funext hbelow))
      rw [hattrs, hchildren]

theorem Sorted.find_eq_some {n c : PersistNode} (hn : n.Sorted) (hc : c.Sorted) {p : List Str}
    (h : ∀ q, n.attrsAt (p ++ q) = c.attrsAt q) : n.find p = some c := by
  have hp := h []
  rw [List.append_nil, attrsAt_nil] at hp
  obtain ⟨d, hd, -⟩ := Option.map_eq_some_iff.1 hp
  rw [hd]
  refine congrArg some ((hn.find hd).ext hc (funext ?_))
  intro q
  rw [← h q, attrsAt, attrsAt, find_append, hd, Option.bind_some]

theorem Sorted.find_congr {n m : PersistNode} (hn : n.Sorted) (hm : m.Sorted) {p : List Str}
    (h : ∀ q, n.attrsAt (p ++ q) = m.attrsAt (p ++ q)) : n.find p = m.find p := by
  cases hd : m.find p with
  | none =>
      have hp := h []
      rw [List.append_nil] at hp
      simpa [attrsAt, hd] using hp
  | some d =>
      refine hn.find_eq_some (hm.find hd) ?_
      intro q
      rw [h q, attrsAt, attrsAt, find_append, hd, Option.bind_some]

theorem Sorted.insert {n c : PersistNode} (h : n.Sorted) (hc : c.Sorted) (s : Str) :
    (PersistNode.mk n.attrs (OrdMap.insert s c n.children)).Sorted := by
  refine .mk h.attrs h.children.insert ?_
  intro e he
  rcases OrdMap.mem_insert he with rfl | he
  · exact hc
  · exact h.sub e he

theorem Sorted.addPath (p : List Str) {n : PersistNode} (h : n.Sorted) : (n.addPath p).Sorted := by
  induction p generalizing n with
  | nil => exact h
  | cons s rest ih =>
      cases rest with
      | nil => exact h.insert .empty s
      | cons t rest => exact h.insert (ih (h.getD_child s)) s

theorem Sorted.delPath (p : List Str) {n : PersistNode} (h : n.Sorted) : (n.delPath p).Sorted := by
  induction p generalizing n with
  | nil => exact h
  | cons s rest ih =>
      cases rest with
      | nil => exact .mk h.attrs h.children.erase (fun e he => h.sub e (List.mem_of_mem_filter he))
      | cons t rest =>
          rw [delPath_cons (by simp)]
          cases hs : n.child s with
          | none => exact h
          | some c => exact h.insert (ih (h.child hs)) s

theorem Sorted.modifyAt {f : PersistNode → PersistNode} (hf : ∀ n, n.Sorted → (f n).Sorted)
    (p : List Str) {n : PersistNode} (h : n.Sorted) : (n.modifyAt f p).Sorted := by
  induction p generalizing n with
  | nil => exact hf n h
  | cons s rest ih =>
      rw [PersistNode.modifyAt]
      cases hs : n.child s with
      | none => exact h
      | some c => exact h.insert (ih (h.child hs)) s

theorem Sorted.addattr {n : PersistNode} (h : n.Sorted) (keyvalue : Str) :
    (n.addattr keyvalue).Sorted :=
  .mk h.attrs.insert h.children h.sub

end OmniEvents.PersistNode
