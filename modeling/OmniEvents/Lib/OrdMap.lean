import Mathlib.Data.List.Basic
import Mathlib.Order.Lattice

set_option autoImplicit false

/-! # Ordered maps as key-sorted association lists

`std::map<κ, β>` as the list of its entries in iteration order. Looking a key up is core's
`List.lookup`; this file adds insertion (which overwrites) and erasure. The lookup equations hold of
any list; that the entries stay sorted, hence that no key occurs twice, is the separate invariant
`OrdMap.Sorted`. -/

namespace OrdMap

variable {κ β : Type*} [LinearOrder κ]

/-- `m[k] = v`. -/
def insert (k : κ) (v : β) : List (κ × β) → List (κ × β)
  | [] => [(k, v)]
  | (k', v') :: m =>
      if k = k' then (k, v) :: m
      else if k < k' then (k, v) :: (k', v') :: m
      else (k', v') :: insert k v m

/-- `m.erase(k)`. -/
def erase (k : κ) (m : List (κ × β)) : List (κ × β) := m.filter (fun e => decide (e.1 ≠ k))

section Lookup

variable [BEq κ] [LawfulBEq κ]

theorem lookup_cons_ite (k k' : κ) (v : β) (m : List (κ × β)) :
    List.lookup k ((k', v) :: m) = if k = k' then some v else List.lookup k m := by
  by_cases h : k = k'
  · simp [h]
  · rw [List.lookup_cons, if_neg h, beq_eq_false_iff_ne.2 h]

@[simp] theorem lookup_insert (k k' : κ) (v : β) (m : List (κ × β)) :
    List.lookup k' (insert k v m) = if k' = k then some v else List.lookup k' m := by
  induction m with
  | nil => simp only [insert, lookup_cons_ite, List.lookup_nil]
  | cons e m ih =>
      obtain ⟨j, w⟩ := e
      simp only [insert]
      split
      · next h => subst h; simp only [lookup_cons_ite]; split <;> rfl
      · split
        · simp only [lookup_cons_ite]
        · next hne _ =>
            simp only [lookup_cons_ite, ih]
            by_cases hkj : k' = j
            · rw [if_pos hkj, if_pos hkj, if_neg (fun h => hne (h.symm.trans hkj))]
            · rw [if_neg hkj, if_neg hkj]

@[simp] theorem lookup_erase (k k' : κ) (m : List (κ × β)) :
    List.lookup k' (erase k m) = if k' = k then none else List.lookup k' m := by
  induction m with
  | nil => simp [erase]
  | cons e m ih =>
      obtain ⟨j, w⟩ := e
      simp only [erase] at ih ⊢
      by_cases hjk : j = k
      · rw [List.filter_cons_of_neg (by simpa using hjk), ih, lookup_cons_ite, hjk]
        split <;> rfl
      · rw [List.filter_cons_of_pos (by simpa using hjk), lookup_cons_ite, lookup_cons_ite, ih]
        by_cases hkj : k' = j
        · rw [if_pos hkj, if_pos hkj, if_neg (fun h => hjk (hkj.symm.trans h))]
        · rw [if_neg hkj, if_neg hkj]

end Lookup

theorem insert_insert (k : κ) (v w : β) (m : List (κ × β)) :
    insert k v (insert k w m) = insert k v m := by
  induction m with
  | nil => simp [insert]
  | cons e m ih =>
      obtain ⟨j, x⟩ := e
      by_cases hkj : k = j
      · simp [insert, hkj]
      · by_cases hlt : k < j
        · simp [insert, hkj, hlt]
        · simp [insert, hkj, hlt, ih]

theorem erase_erase (k : κ) (m : List (κ × β)) : erase k (erase k m) = erase k m := by
  simp [erase]

theorem mem_insert {k : κ} {v : β} {m : List (κ × β)} {e : κ × β} (h : e ∈ insert k v m) :
    e = (k, v) ∨ e ∈ m := by
  induction m with
  | nil => simpa [insert] using h
  | cons e' m ih =>
      obtain ⟨j, w⟩ := e'
      simp only [insert] at h
      split at h
      · rcases List.mem_cons.1 h with h | h
        · exact Or.inl h
        · exact Or.inr (List.mem_cons_of_mem _ h)
      · split at h
        · rcases List.mem_cons.1 h with h | h
          · exact Or.inl h
          · exact Or.inr h
        · rcases List.mem_cons.1 h with h | h
          · exact Or.inr (h ▸ List.mem_cons_self ..)
          · exact (ih h).imp_right (List.mem_cons_of_mem _)

/-- An entry is added, and one may go. -/
theorem countP_insert_le (p : κ × β → Bool) (k : κ) (v : β) (m : List (κ × β)) :
    (insert k v m).countP p ≤ m.countP p + (p (k, v)).toNat := by
  induction m with
  | nil => cases h : p (k, v) <;> simp [insert, h]
  | cons e m ih =>
      obtain ⟨j, w⟩ := e
      unfold insert
      split
      · rw [List.countP_cons, List.countP_cons]
        cases p (k, v) <;> simp
      · split
        · rw [List.countP_cons]
          cases p (k, v) <;> simp
        · rw [List.countP_cons, List.countP_cons]
          omega

/-! ## Sortedness -/

/-- The keys go up strictly. -/
def Sorted (m : List (κ × β)) : Prop := m.Pairwise (fun e f => e.1 < f.1)

theorem Sorted.nil : Sorted ([] : List (κ × β)) := List.Pairwise.nil

theorem Sorted.insert {k : κ} {v : β} {m : List (κ × β)} (h : Sorted m) :
    Sorted (insert k v m) := by
  induction m with
  | nil => exact List.pairwise_singleton ..
  | cons e m ih =>
      obtain ⟨j, w⟩ := e
      obtain ⟨hhead, htail⟩ := List.pairwise_cons.1 h
      simp only [OrdMap.insert]
      split
      · next hkj => exact List.pairwise_cons.2 ⟨fun f hf => hkj ▸ hhead f hf, htail⟩
      · next hne =>
          split
          · next hlt =>
              refine List.pairwise_cons.2 ⟨?_, h⟩
              intro f hf
              rcases List.mem_cons.1 hf with rfl | hf
              · exact hlt
              · exact lt_trans hlt (hhead f hf)
          · next hnlt =>
              refine List.pairwise_cons.2 ⟨?_, ih htail⟩
              intro f hf
              rcases mem_insert hf with rfl | hf
              · exact lt_of_le_of_ne (not_lt.1 hnlt) (Ne.symm hne)
              · exact hhead f hf

theorem Sorted.erase {k : κ} {m : List (κ × β)} (h : Sorted m) : Sorted (erase k m) :=
  List.Pairwise.filter _ h

/-- In a sorted map the entries are exactly what lookups find. -/
theorem Sorted.mem_iff_lookup [BEq κ] [LawfulBEq κ] {m : List (κ × β)} (h : Sorted m) {k : κ} {v : β} :
    (k, v) ∈ m ↔ m.lookup k = some v := by
  induction m with
  | nil => simp
  | cons e m ih =>
      obtain ⟨j, w⟩ := e
      obtain ⟨hhead, htail⟩ := List.pairwise_cons.1 h
      rw [lookup_cons_ite, List.mem_cons]
      split
      · next hkj =>
          subst hkj
          constructor
          · rintro (heq | hmem)
            · rw [(Prod.mk.inj heq).2]
            · exact absurd (hhead _ hmem) (lt_irrefl k)
          · rintro ⟨⟩
            exact Or.inl rfl
      · next hne =>
          rw [← ih htail, or_iff_right (fun heq => hne (Prod.mk.inj heq).1)]

theorem lookup_eq_none_of_lt [BEq κ] [LawfulBEq κ] {k : κ} {m : List (κ × β)}
    (h : ∀ e ∈ m, k < e.1) : m.lookup k = none := by
  induction m with
  | nil => rfl
  | cons e m ih =>
      obtain ⟨j, w⟩ := e
      obtain ⟨hj, hm⟩ := List.forall_mem_cons.1 h
      rw [lookup_cons_ite, if_neg (ne_of_lt hj), ih hm]

/-- Sorted maps that look the same are the same. -/
theorem Sorted.ext [BEq κ] [LawfulBEq κ] {m m' : List (κ × β)} (h : Sorted m) (h' : Sorted m')
    (heq : ∀ k, m.lookup k = m'.lookup k) : m = m' := by
  induction m generalizing m' with
  | nil =>
      cases m' with
      | nil => rfl
      | cons e m' =>
          obtain ⟨k, v⟩ := e
          have hk := heq k
          rw [lookup_cons_ite, if_pos rfl] at hk
          cases hk
  | cons e m ih =>
      obtain ⟨k, v⟩ := e
      cases m' with
      | nil =>
          have hk := heq k
          rw [lookup_cons_ite, if_pos rfl] at hk
          cases hk
      | cons e' m' =>
          obtain ⟨k', v'⟩ := e'
          obtain ⟨hhead, htail⟩ := List.pairwise_cons.1 h
          obtain ⟨hhead', htail'⟩ := List.pairwise_cons.1 h'
          -- the least keys are the same
          have hkeys : k = k' := by
            rcases lt_trichotomy k k' with hlt | hkk | hlt
            · have hk := heq k
              rw [lookup_cons_ite, if_pos rfl, lookup_cons_ite, if_neg (ne_of_lt hlt),
                lookup_eq_none_of_lt fun f hf => lt_trans hlt (hhead' f hf)] at hk
              cases hk
            · exact hkk
            · have hk := heq k'
              rw [lookup_cons_ite, if_neg (ne_of_lt hlt), lookup_cons_ite, if_pos rfl,
                lookup_eq_none_of_lt fun f hf => lt_trans hlt (hhead f hf)] at hk
              cases hk
          subst hkeys
          have hvalues : v = v' := by
            have hk := heq k
            rw [lookup_cons_ite, if_pos rfl, lookup_cons_ite, if_pos rfl] at hk
            exact Option.some_inj.1 hk
          subst hvalues
          refine congrArg _ (ih htail htail' ?_)
          intro j
          by_cases hjk : j = k
          · rw [hjk, lookup_eq_none_of_lt hhead, lookup_eq_none_of_lt hhead']
          · have hj := heq j
            rwa [lookup_cons_ite, if_neg hjk, lookup_cons_ite, if_neg hjk] at hj

theorem erase_eq_self [BEq κ] [LawfulBEq κ] {k : κ} {m : List (κ × β)} (h : m.lookup k = none) :
    erase k m = m := by
  refine List.filter_eq_self.2 ?_
  intro e he
  have hne : k ≠ e.1 := by simpa using List.lookup_eq_none_iff.1 h e he
  simpa using hne.symm

/-- An entry found takes part in the count until its key is erased. -/
theorem Sorted.countP_erase [BEq κ] [LawfulBEq κ] {k : κ} {v : β} {m : List (κ × β)} (h : Sorted m)
    (hlookup : m.lookup k = some v) (p : κ × β → Bool) :
    (OrdMap.erase k m).countP p + (p (k, v)).toNat = m.countP p := by
  induction m with
  | nil => cases hlookup
  | cons e m ih =>
      obtain ⟨j, w⟩ := e
      obtain ⟨hhead, htail⟩ := List.pairwise_cons.1 h
      rw [lookup_cons_ite] at hlookup
      split at hlookup
      · next hkj =>
          cases hlookup
          subst hkj
          have herase : OrdMap.erase k ((k, v) :: m) = m := by
            unfold OrdMap.erase
            rw [List.filter_cons_of_neg (by simp)]
            exact erase_eq_self (lookup_eq_none_of_lt hhead)
          rw [herase, List.countP_cons]
          cases p (k, v) <;> rfl
      · next hne =>
          have herase : OrdMap.erase k ((j, w) :: m) = (j, w) :: OrdMap.erase k m := by
            unfold OrdMap.erase
            rw [List.filter_cons_of_pos (by simpa using Ne.symm hne)]
          rw [herase, List.countP_cons, List.countP_cons, ← ih htail hlookup]
          omega

theorem Sorted.countP_insert {k : κ} {v : β} {m : List (κ × β)} (h : Sorted m)
    (p : κ × β → Bool) :
    (OrdMap.insert k v m).countP p = (OrdMap.erase k m).countP p + (p (k, v)).toNat := by
  have hkeep : ∀ {m : List (κ × β)}, (∀ e ∈ m, k < e.1) → OrdMap.erase k m = m := fun hm =>
    List.filter_eq_self.2 fun e he => by simpa using (hm e he).ne'
  induction m with
  | nil => cases h : p (k, v) <;> simp [OrdMap.insert, OrdMap.erase, h]
  | cons e m ih =>
      obtain ⟨j, w⟩ := e
      obtain ⟨hhead, htail⟩ := List.pairwise_cons.1 h
      unfold OrdMap.insert
      split
      · next hkj =>
          subst hkj
          have herase : OrdMap.erase k ((k, w) :: m) = m := by
            unfold OrdMap.erase
            rw [List.filter_cons_of_neg (by simp)]
            exact hkeep hhead
          rw [herase, List.countP_cons]
          cases p (k, v) <;> rfl
      · next hne =>
          split
          · next hlt =>
              rw [hkeep, List.countP_cons]
              · cases p (k, v) <;> rfl
              · exact List.forall_mem_cons.2 ⟨hlt, fun e he => lt_trans hlt (hhead e he)⟩
          · have herase : OrdMap.erase k ((j, w) :: m) = (j, w) :: OrdMap.erase k m := by
              unfold OrdMap.erase
              rw [List.filter_cons_of_pos (by simpa using Ne.symm hne)]
            rw [herase, List.countP_cons, List.countP_cons, ih htail]
            omega

/-- A key above all others is inserted at the end. -/
theorem insert_append {k : κ} {v : β} {m : List (κ × β)} (h : ∀ e ∈ m, e.1 < k) :
    insert k v m = m ++ [(k, v)] := by
  induction m with
  | nil => rfl
  | cons e m ih =>
      obtain ⟨j, w⟩ := e
      obtain ⟨hj, hm⟩ := List.forall_mem_cons.1 h
      simp only at hj
      rw [insert, if_neg (ne_of_gt hj), if_neg (lt_asymm hj), ih hm, List.cons_append]

/-- The keys of a sorted map are pairwise distinct. -/
theorem Sorted.nodup_keys {m : List (κ × β)} (h : Sorted m) : (m.map Prod.fst).Nodup :=
  List.pairwise_map.2 (h.imp (fun hlt => ne_of_lt hlt))

end OrdMap
