import OmniEvents.Lib.Counting
import OmniEvents.Lib.OrdMap
import OmniEvents.Lib.Transition
import OmniEvents.Proxies

set_option autoImplicit false

/-! # Garbage-collected iterators

`GCServantLocator` holds one reference to each servant in `activeMap_`. `preinvoke` takes another one
for the time of the invocation, except for the operation that destroys the servant: its invocation gets
the reference of the map. `gc_sweep` and the destructor release what is still in the map. The clock is
read again for every servant and may show anything. -/

namespace OmniEvents

open Transition Counting

/-- A servant as the heap has it. -/
structure GCServant where
  refCount : ℕ
  /-- The references that are not the locator's. -/
  others : ℕ
  deriving DecidableEq, Repr

/-- An entry of the map: the servant, how long it lives without being accessed, and the operation
    that destroys it. -/
structure ServantEntry where
  servant : ℕ
  ttl : ℤ
  destroy : Str
  last_access : ℤ
  deriving DecidableEq, Repr

/-- The locator, with the servants numbered in the order of their construction. -/
structure GCServantLocator where
  servants : List GCServant
  activeMap : List (Str × ServantEntry)
  /-- The invocations between `preinvoke` and `postinvoke`. -/
  invocations : List ℕ
  destructed : Bool
  /-- Whenever an object id was registered or invoked, the last time first. -/
  accesses : List (Str × ℤ)
  /-- The servants registered, and those that the map has given up. -/
  registered : List ℕ
  released : List ℕ
  deriving DecidableEq, Repr

/-- The ORB asks for a servant or gives it back, the sweep comes round, or somebody drops a
    reference. -/
inductive GCServantLocator.Action where
  /-- A servant is constructed; somebody drops a reference that is not the locator's. -/
  | new
  | removeRef (v : ℕ)
  | register (oid : Str) (v : ℕ) (ttl : ℤ) (destroy : Str) (now : ℤ)
  | preinvoke (oid operation : Str) (now : ℤ)
  | postinvoke (k : ℕ)
  | gc_sweep (clock : Str → ℤ)
  | destruct

namespace GCServantLocator

/-- A locator that has just been constructed. -/
def init : GCServantLocator :=
  { servants := [], activeMap := [], invocations := [], destructed := false, accesses := []
    registered := [], released := [] }

/-- `_add_ref` of a servant. -/
def addRef (servants : List GCServant) (v : ℕ) : List GCServant :=
  servants.modify v fun x => { x with refCount := x.refCount + 1 }

/-- `_remove_ref` of a servant. -/
def removeRef (servants : List GCServant) (v : ℕ) : List GCServant :=
  servants.modify v fun x => { x with refCount := x.refCount - 1 }

/-- `register_servant`. -/
def register_servant (s : GCServantLocator) (oid : Str) (v : ℕ) (ttl : ℤ) (destroy : Str)
    (now : ℤ) : Except Exn GCServantLocator :=
  match s.activeMap.lookup oid with
  | some _ => .error .other -- ObjectAlreadyActive
  | none =>
      .ok { s with
        servants := addRef s.servants v
        activeMap := OrdMap.insert oid ⟨v, ttl, destroy, now⟩ s.activeMap
        accesses := (oid, now) :: s.accesses
        registered := s.registered ++ [v] }

/-- `GCServantLocator::preinvoke`: an access is noted; the operation that destroys the servant takes
    it off the map. -/
def preinvoke (s : GCServantLocator) (oid operation : Str) (now : ℤ) :
    Except Exn GCServantLocator :=
  match s.activeMap.lookup oid with
  | none => .error .OBJECT_NOT_EXIST
  | some entry =>
      if entry.destroy = operation then
        -- the invocation gets the reference of the map
        .ok { s with
          activeMap := OrdMap.erase oid s.activeMap
          invocations := s.invocations ++ [entry.servant]
          released := s.released ++ [entry.servant] }
      else
        .ok { s with
          servants := addRef s.servants entry.servant
          activeMap := OrdMap.insert oid { entry with last_access := now } s.activeMap
          invocations := s.invocations ++ [entry.servant]
          accesses := (oid, now) :: s.accesses }

/-- `postinvoke` of the `k`-th invocation. -/
def postinvoke (s : GCServantLocator) (k : ℕ) : Option GCServantLocator :=
  match s.invocations[k]? with
  | none => none
  | some v =>
      some { s with servants := removeRef s.servants v, invocations := s.invocations.eraseIdx k }

/-- Older than its time to live. -/
def expired (clock : Str → ℤ) (e : Str × ServantEntry) : Bool :=
  decide (e.2.ttl < clock e.1 - e.2.last_access)

/-- The entries chosen are taken out of the map, and their references dropped. -/
def releaseIf (s : GCServantLocator) (p : Str × ServantEntry → Bool) : GCServantLocator :=
  let gone := (s.activeMap.filter p).map (·.2.servant)
  { s with
    servants := gone.foldl removeRef s.servants
    activeMap := s.activeMap.filter fun e => !p e
    released := s.released ++ gone }

/-- `gc_sweep`: what has not been accessed for its time to live is released. -/
def gc_sweep (s : GCServantLocator) (clock : Str → ℤ) : GCServantLocator :=
  s.releaseIf (expired clock)

/-- `~GCServantLocator`. -/
def destruct (s : GCServantLocator) : GCServantLocator :=
  { s.releaseIf fun _ => true with destructed := true }

/-- A call that raises leaves everything as it is. -/
def kept (s : GCServantLocator) : Except Exn GCServantLocator → GCServantLocator
  | .ok t => t
  | .error _ => s

/-- The steps. An invocation lies between its `preinvoke` and its `postinvoke`, with anything else in
    between. -/
def step (s : GCServantLocator) : Action → Option GCServantLocator
  | .new => some { s with servants := s.servants ++ [⟨1, 1⟩] }
  | .removeRef v =>
      match s.servants[v]? with
      | none => none
      | some x =>
          if x.others = 0 then none
          else some { s with
            servants := s.servants.set v { refCount := x.refCount - 1, others := x.others - 1 } }
  | .register oid v ttl destroy now =>
      match s.servants[v]? with
      | none => none
      | some x =>
          if s.destructed || decide (x.others = 0) then none
          else some (s.kept (s.register_servant oid v ttl destroy now))
  | .preinvoke oid operation now =>
      if s.destructed then none else some (s.kept (s.preinvoke oid operation now))
  | .postinvoke k => s.postinvoke k
  | .gc_sweep clock => if s.destructed then none else some (s.gc_sweep clock)
  | .destruct => if s.destructed then none else some s.destruct

/-- The object ids that a servant is in the map for. -/
def entries (s : GCServantLocator) (v : ℕ) : ℕ :=
  s.activeMap.countP fun e => decide (e.2.servant = v)

/-- The references that a servant owes to the locator. -/
def owed (s : GCServantLocator) (v : ℕ) : ℕ := s.entries v + s.invocations.count v

/-! ## Counting references

The count of a servant is what others have and what the locator owes: one for its entry, and one for
each invocation of it. -/

/-- The reference counts are right if the servants owe `f`. -/
structure Counts (servants : List GCServant) (f : ℕ → ℕ) : Prop where
  refCount : ∀ v x, servants[v]? = some x → x.refCount = x.others + f v
  known : ∀ v, servants.length ≤ v → f v = 0

section Counts

variable {servants : List GCServant} {f g : ℕ → ℕ} {v : ℕ}

theorem Counts.concat (h : Counts servants f) : Counts (servants ++ [⟨1, 1⟩]) f where
  refCount w y hy := by
    rcases Nat.lt_or_ge w servants.length with hlt | hge
    · rw [List.getElem?_append_left hlt] at hy
      exact h.refCount w y hy
    · rw [List.getElem?_append_right hge, List.getElem?_singleton] at hy
      split at hy
      · cases hy
        show 1 = 1 + f w
        rw [h.known w hge]
      · cases hy
  known w hw := by
    rw [List.length_append] at hw
    exact h.known w (by omega)

/-- A reference that the servant does not owe is dropped. -/
theorem Counts.removeOther (h : Counts servants f) {x : GCServant} (hx : servants[v]? = some x)
    (hothers : x.others ≠ 0) :
    Counts (servants.set v { refCount := x.refCount - 1, others := x.others - 1 }) f where
  refCount w y hy := by
    by_cases hvw : v = w
    · subst hvw
      rw [List.getElem?_set_self'] at hy
      obtain ⟨-, -, rfl⟩ := Option.map_eq_some_iff.1 hy
      have hcount := h.refCount v x hx
      show x.refCount - 1 = x.others - 1 + f v
      omega
    · rw [List.getElem?_set_ne hvw] at hy
      exact h.refCount w y hy
  known w hw := by
    rw [List.length_set] at hw
    exact h.known w hw

theorem Counts.addRef (h : Counts servants f) (hv : v < servants.length)
    (hg : ∀ w, g w = f w + if v = w then 1 else 0) : Counts (addRef servants v) g where
  refCount w x hx := by
    unfold GCServantLocator.addRef at hx
    rw [List.getElem?_modify] at hx
    obtain ⟨y, hy, rfl⟩ := Option.map_eq_some_iff.1 hx
    have := h.refCount w y hy
    rw [hg]
    split
    · simp only
      omega
    · omega
  known w hw := by
    unfold GCServantLocator.addRef at hw
    rw [List.length_modify] at hw
    rw [hg, h.known w hw, if_neg (by omega)]

theorem Counts.removeRef (h : Counts servants f) (hg : ∀ w, g w + (if v = w then 1 else 0) = f w) :
    Counts (removeRef servants v) g where
  refCount w x hx := by
    unfold GCServantLocator.removeRef at hx
    rw [List.getElem?_modify] at hx
    obtain ⟨y, hy, rfl⟩ := Option.map_eq_some_iff.1 hx
    have := h.refCount w y hy
    have hg := hg w
    split
    · next hvw =>
        rw [if_pos hvw] at hg
        simp only
        omega
    · next hvw =>
        rw [if_neg hvw] at hg
        omega
  known w hw := by
    unfold GCServantLocator.removeRef at hw
    rw [List.length_modify] at hw
    have := h.known w hw
    have := hg w
    omega

theorem Counts.foldl {vs : List ℕ} (h : Counts servants f) (hg : ∀ w, g w + vs.count w = f w) :
    Counts (vs.foldl GCServantLocator.removeRef servants) g := by
  induction vs generalizing servants f with
  | nil =>
      have hfg : g = f := funext hg
      rw [hfg]
      exact h
  | cons v vs ih =>
      refine ih (f := fun w => g w + vs.count w) (h.removeRef ?_) fun _ => rfl
      intro w
      have := hg w
      rw [List.count_cons] at this
      simp only [beq_iff_eq] at this
      omega

end Counts

/-! ## The invariant -/

/-- The locator holds one reference for each entry and each invocation, and has noted the last
    access to every entry. -/
structure Inv (s : GCServantLocator) : Prop where
  sorted : OrdMap.Sorted s.activeMap
  counts : Counts s.servants s.owed
  released : ∀ v, s.registered.count v = s.released.count v + s.entries v
  accessed : ∀ oid entry, s.activeMap.lookup oid = some entry →
    s.accesses.lookup oid = some entry.last_access
  destructed : s.destructed = true → s.activeMap = []

section Steps

variable {s t : GCServantLocator} {oid destroy operation : Str} {v k : ℕ} {ttl now : ℤ}
  {entry : ServantEntry}

/-- A servant in the map has been constructed. -/
theorem Inv.lt_length (hs : s.Inv) (h : s.activeMap.lookup oid = some entry) :
    entry.servant < s.servants.length := by
  by_contra hge
  have hmem := hs.sorted.mem_iff_lookup.2 h
  have hpos : 0 < s.entries entry.servant := List.countP_pos_iff.2 ⟨_, hmem, by simp⟩
  have := hs.counts.known entry.servant (Nat.not_lt.1 hge)
  unfold owed at this
  omega

/-- An entry that is put in is accessed at that time. -/
theorem Inv.accessed_insert (hs : s.Inv) {oid' : Str} {entry' : ServantEntry}
    (h : (OrdMap.insert oid entry s.activeMap).lookup oid' = some entry') :
    ((oid, entry.last_access) :: s.accesses).lookup oid' = some entry'.last_access := by
  rw [OrdMap.lookup_insert] at h
  rw [OrdMap.lookup_cons_ite]
  split at h
  · next heq =>
      cases h
      rw [if_pos heq]
  · next hne =>
      rw [if_neg hne]
      exact hs.accessed oid' entry' h

theorem inv_register (hs : s.Inv) (hv : v < s.servants.length)
    (h : s.register_servant oid v ttl destroy now = .ok t) (hdestructed : s.destructed = false) :
    t.Inv := by
  unfold register_servant at h
  split at h
  · cases h
  · next hnone =>
      cases h
      have hentries : ∀ w, (OrdMap.insert oid ⟨v, ttl, destroy, now⟩ s.activeMap).countP
          (fun e => decide (e.2.servant = w)) = s.entries w + if v = w then 1 else 0 := by
        intro w
        rw [hs.sorted.countP_insert, OrdMap.erase_eq_self hnone]
        by_cases hvw : v = w <;> simp [entries, hvw]
      refine ⟨hs.sorted.insert, hs.counts.addRef hv ?_, ?_, ?_, ?_⟩
      · intro w
        show List.countP _ _ + s.invocations.count w = _
        rw [hentries]
        unfold owed
        omega
      · intro w
        have := hs.released w
        show (s.registered ++ [v]).count w = s.released.count w + List.countP _ _
        rw [hentries, List.count_append, List.count_singleton]
        simp only [beq_iff_eq]
        omega
      · intro oid' entry' h'
        exact hs.accessed_insert h'
      · intro h
        rw [show s.destructed = true from h] at hdestructed
        cases hdestructed

theorem inv_preinvoke (hs : s.Inv) (h : s.preinvoke oid operation now = .ok t)
    (hdestructed : s.destructed = false) : t.Inv := by
  unfold preinvoke at h
  split at h
  · cases h
  · next entry hentry =>
      have herase := fun w => hs.sorted.countP_erase hentry fun e => decide (e.2.servant = w)
      split at h
      · cases h
        refine ⟨hs.sorted.erase, ?_, ?_, ?_, ?_⟩
        · have howed : owed { s with
              activeMap := OrdMap.erase oid s.activeMap
              invocations := s.invocations ++ [entry.servant]
              released := s.released ++ [entry.servant] } = s.owed := by
            funext w
            have herase := herase w
            unfold owed entries
            simp only [List.count_append, List.count_singleton, beq_iff_eq] at herase ⊢
            by_cases hw : entry.servant = w
            · simp only [hw, decide_true, Bool.toNat_true, if_true] at herase ⊢
              omega
            · simp only [hw, decide_false, Bool.toNat_false, if_false] at herase ⊢
              omega
          rw [howed]
          exact hs.counts
        · intro w
          have hreleased := hs.released w
          have herase := herase w
          show s.registered.count w = (s.released ++ [entry.servant]).count w + List.countP _ _
          unfold entries at hreleased
          simp only [List.count_append, List.count_singleton, beq_iff_eq]
          by_cases hw : entry.servant = w
          · simp only [hw, decide_true, Bool.toNat_true, if_true] at herase ⊢
            omega
          · simp only [hw, decide_false, Bool.toNat_false, if_false] at herase ⊢
            omega
        · intro oid' entry' h'
          rw [OrdMap.lookup_erase] at h'
          split at h'
          · cases h'
          · exact hs.accessed oid' entry' h'
        · intro h
          rw [show s.destructed = true from h] at hdestructed
          cases hdestructed
      · cases h
        have hentries : ∀ w, (OrdMap.insert oid { entry with last_access := now } s.activeMap).countP
            (fun e => decide (e.2.servant = w)) = s.entries w := by
          intro w
          rw [hs.sorted.countP_insert]
          exact herase w
        refine ⟨hs.sorted.insert, hs.counts.addRef (hs.lt_length hentry) ?_, ?_, ?_, ?_⟩
        · intro w
          show List.countP _ _ + (s.invocations ++ [entry.servant]).count w = _
          rw [hentries, List.count_append, List.count_singleton]
          simp only [beq_iff_eq]
          unfold owed
          omega
        · intro w
          show s.registered.count w = s.released.count w + List.countP _ _
          rw [hentries]
          exact hs.released w
        · intro oid' entry' h'
          exact hs.accessed_insert h'
        · intro h
          rw [show s.destructed = true from h] at hdestructed
          cases hdestructed

theorem inv_postinvoke (hs : s.Inv) (h : s.postinvoke k = some t) : t.Inv := by
  unfold postinvoke at h
  split at h
  · cases h
  · next v hv =>
      cases h
      refine ⟨hs.sorted, hs.counts.removeRef ?_, hs.released, hs.accessed, hs.destructed⟩
      intro w
      have hcount := countP_eraseIdx (p := fun u => u == w) hv
      unfold owed
      show s.entries w + (s.invocations.eraseIdx k).countP (· == w) + _ =
        s.entries w + s.invocations.countP (· == w)
      by_cases hvw : v = w
      · simp only [hvw, beq_self_eq_true, Bool.toNat_true, if_true] at hcount ⊢
        omega
      · simp only [hvw, beq_eq_false_iff_ne.2 hvw, Bool.toNat_false, if_false] at hcount ⊢
        omega

/-- What is released is not in the map any more, and nothing else changes. -/
theorem inv_releaseIf (hs : s.Inv) (p : Str × ServantEntry → Bool) : (s.releaseIf p).Inv := by
  have hsplit : ∀ w, (s.activeMap.filter fun e => !p e).countP (fun e => decide (e.2.servant = w)) +
      ((s.activeMap.filter p).map (·.2.servant)).count w = s.entries w := by
    intro w
    unfold entries
    induction s.activeMap with
    | nil => rfl
    | cons e m ih =>
        cases hp : p e with
        | true =>
            rw [List.filter_cons_of_neg (by simp [hp]), List.filter_cons_of_pos hp, List.map_cons,
              List.count_cons, List.countP_cons, ← ih]
            simp only [beq_iff_eq, decide_eq_true_eq]
            omega
        | false =>
            rw [List.filter_cons_of_pos (by simp [hp]), List.filter_cons_of_neg (by simp [hp]),
              List.countP_cons, List.countP_cons, ← ih]
            omega
  refine ⟨List.Pairwise.filter _ hs.sorted, hs.counts.foldl ?_, ?_, ?_, ?_⟩
  · intro w
    have := hsplit w
    show (s.activeMap.filter fun e => !p e).countP (fun e => decide (e.2.servant = w)) +
      s.invocations.count w + _ = s.entries w + s.invocations.count w
    omega
  · intro w
    have := hsplit w
    have := hs.released w
    show s.registered.count w = (s.released ++ _).count w +
      (s.activeMap.filter fun e => !p e).countP fun e => decide (e.2.servant = w)
    rw [List.count_append]
    omega
  · intro oid entry h
    have hsorted : OrdMap.Sorted (s.activeMap.filter fun e => !p e) :=
      List.Pairwise.filter _ hs.sorted
    have hmem := (List.mem_filter.1 (hsorted.mem_iff_lookup.2 h)).1
    exact hs.accessed oid entry (hs.sorted.mem_iff_lookup.1 hmem)
  · intro h
    show s.activeMap.filter _ = []
    rw [hs.destructed h, List.filter_nil]

theorem inv_kept (hs : s.Inv) {r : Except Exn GCServantLocator} (h : ∀ t, r = .ok t → t.Inv) :
    (s.kept r).Inv := by
  cases r with
  | error ex => exact hs
  | ok t => exact h t rfl

theorem inv_step {a : Action} (hs : s.Inv) (h : s.step a = some t) : t.Inv := by
  cases a with
  | new =>
      cases h
      exact ⟨hs.sorted, hs.counts.concat, hs.released, hs.accessed, hs.destructed⟩
  | removeRef v =>
      simp only [step] at h
      split at h
      · cases h
      · next x hx =>
          split at h
          · cases h
          · next hothers =>
              cases h
              exact ⟨hs.sorted, hs.counts.removeOther hx hothers, hs.released, hs.accessed,
                hs.destructed⟩
  | register oid v ttl destroy now =>
      simp only [step] at h
      split at h
      · cases h
      · next x hx =>
          split at h
          · cases h
          · next hlive =>
              cases h
              have hdestructed : s.destructed = false := by
                by_contra hne
                simp [hne] at hlive
              apply inv_kept hs
              intro t hcall
              exact inv_register hs (List.getElem?_eq_some_iff.1 hx).1 hcall hdestructed
  | preinvoke oid operation now =>
      simp only [step] at h
      split at h
      · cases h
      · next hlive =>
          cases h
          apply inv_kept hs
          intro t hcall
          exact inv_preinvoke hs hcall (by simpa using hlive)
  | postinvoke k => exact inv_postinvoke hs h
  | gc_sweep clock =>
      simp only [step] at h
      split at h
      · cases h
      · cases h
        exact inv_releaseIf hs _
  | destruct =>
      simp only [step] at h
      split at h
      · cases h
      · cases h
        have hreleased := inv_releaseIf hs fun _ => true
        refine ⟨hreleased.sorted, hreleased.counts, hreleased.released, hreleased.accessed, ?_⟩
        intro _
        show s.activeMap.filter (fun _ => !true) = []
        simp

theorem inv_init : init.Inv where
  sorted := OrdMap.Sorted.nil
  counts := ⟨nofun, fun _ _ => rfl⟩
  released _ := rfl
  accessed _ _ := nofun
  destructed := nofun

/-! ## Object ids -/

/-- In a sorted map, an entry survives a selection if it is selected. -/
theorem lookup_filter (hs : s.Inv) (h : s.activeMap.lookup oid = some entry)
    (q : Str × ServantEntry → Bool) :
    (s.activeMap.filter q).lookup oid = none ↔ q (oid, entry) = false := by
  have hsorted : OrdMap.Sorted (s.activeMap.filter q) := List.Pairwise.filter _ hs.sorted
  constructor
  · intro hnone
    by_contra hq
    have hmem : (oid, entry) ∈ s.activeMap.filter q :=
      List.mem_filter.2 ⟨hs.sorted.mem_iff_lookup.2 h, by simpa using hq⟩
    rw [hsorted.mem_iff_lookup.1 hmem] at hnone
    cases hnone
  · intro hq
    cases hlookup : (s.activeMap.filter q).lookup oid with
    | none => rfl
    | some entry' =>
        obtain ⟨hmem, hq'⟩ := List.mem_filter.1 (hsorted.mem_iff_lookup.2 hlookup)
        have heq := hs.sorted.mem_iff_lookup.1 hmem
        rw [h, Option.some.injEq] at heq
        rw [← heq, hq] at hq'
        cases hq'

theorem lookup_releaseIf (h : s.activeMap.lookup oid = none) (p : Str × ServantEntry → Bool) :
    (s.releaseIf p).activeMap.lookup oid = none := by
  rw [List.lookup_eq_none_iff] at h ⊢
  exact fun e he => h e (List.mem_filter.1 he).1

/-- An object id comes into the map by a registration only. -/
theorem lookup_step {a : Action} (h : s.activeMap.lookup oid = none)
    (ha : ∀ v ttl destroy now, a ≠ .register oid v ttl destroy now) (hst : s.step a = some t) :
    t.activeMap.lookup oid = none := by
  cases a with
  | new =>
      cases hst
      exact h
  | removeRef v =>
      simp only [step] at hst
      split at hst
      · cases hst
      · split at hst
        · cases hst
        · cases hst
          exact h
  | register oid' v ttl destroy now =>
      have hne : oid ≠ oid' := by
        rintro rfl
        exact ha v ttl destroy now rfl
      simp only [step] at hst
      split at hst
      · cases hst
      · split at hst
        · cases hst
        · cases hst
          unfold register_servant
          split
          · exact h
          · show (OrdMap.insert oid' _ s.activeMap).lookup oid = none
            rw [OrdMap.lookup_insert, if_neg hne]
            exact h
  | preinvoke oid' operation now =>
      simp only [step] at hst
      split at hst
      · cases hst
      · cases hst
        unfold preinvoke
        split
        · exact h
        · next entry hentry =>
            have hne : oid ≠ oid' := by
              rintro rfl
              rw [h] at hentry
              cases hentry
            split
            · show (OrdMap.erase oid' s.activeMap).lookup oid = none
              rw [OrdMap.lookup_erase, if_neg hne]
              exact h
            · show (OrdMap.insert oid' _ s.activeMap).lookup oid = none
              rw [OrdMap.lookup_insert, if_neg hne]
              exact h
  | postinvoke k =>
      simp only [step, postinvoke] at hst
      split at hst
      · cases hst
      · cases hst
        exact h
  | gc_sweep clock =>
      simp only [step] at hst
      split at hst
      · cases hst
      · cases hst
        exact lookup_releaseIf h _
  | destruct =>
      simp only [step] at hst
      split at hst
      · cases hst
      · cases hst
        exact lookup_releaseIf h _

end Steps

/-! ## Every run -/

/-- What the locator promises. -/
structure Collected (s : GCServantLocator) : Prop where
  /-- A servant owes one reference for each object id that it is in the map for, and one for each of
      its invocations. -/
  refCount : ∀ v x, s.servants[v]? = some x →
    x.refCount = x.others + (s.entries v + s.invocations.count v)
  once : ∀ v, s.registered.count v ≤ 1 →
    s.entries v = if ∃ e ∈ s.activeMap, e.2.servant = v then 1 else 0
  /-- No servant is destroyed during an invocation. -/
  alive : ∀ v ∈ s.invocations, ∃ x, s.servants[v]? = some x ∧ 0 < x.refCount
  /-- Every registration is released once: by the operation that destroys, by a sweep, or by the
      destructor. -/
  released : ∀ v, s.registered.count v = s.released.count v + s.entries v
  destructed : s.destructed = true → ∀ v, s.released.count v = s.registered.count v

theorem Inv.collected {s : GCServantLocator} (hs : s.Inv) : s.Collected where
  refCount := hs.counts.refCount
  once v hv := by
    have hreleased := hs.released v
    split
    · next hmem =>
        have hpos : 0 < s.entries v := by
          obtain ⟨e, he, hev⟩ := hmem
          exact List.countP_pos_iff.2 ⟨e, he, by simpa using hev⟩
        omega
    · next hmem =>
        exact List.countP_eq_zero.2 fun e he hev => hmem ⟨e, he, by simpa using hev⟩
  alive v hv := by
    have hpos : 0 < s.invocations.count v := List.count_pos_iff.2 hv
    have hlt : v < s.servants.length := by
      by_contra hge
      have := hs.counts.known v (Nat.not_lt.1 hge)
      unfold owed at this
      omega
    have hget := List.getElem?_eq_getElem hlt
    have hcount := hs.counts.refCount v _ hget
    unfold owed at hcount
    exact ⟨_, hget, by omega⟩
  released := hs.released
  destructed h v := by
    have hreleased := hs.released v
    unfold entries at hreleased
    rw [hs.destructed h] at hreleased
    exact hreleased.symm

/-- **The locator keeps its servants alive and lets them go.** In every run, whatever the clock shows:
    the references are as `Collected` says; an object id that is not in the map raises
    `OBJECT_NOT_EXIST` until it is registered again; the operation that destroys takes its id out of
    the map; and a sweep does so exactly if the last access is longer ago than the time to live. -/
theorem iterators_collected (as : List Action) (s : GCServantLocator)
    (hrun : Run step init as = some s) :
    s.Collected ∧
      (∀ oid, s.activeMap.lookup oid = none → ∀ bs t, Run step s bs = some t →
        (∀ v ttl destroy now, .register oid v ttl destroy now ∉ bs) →
          ∀ operation now, t.preinvoke oid operation now = .error .OBJECT_NOT_EXIST) ∧
      ∀ oid entry, s.activeMap.lookup oid = some entry →
        (∀ now, ∃ t, s.preinvoke oid entry.destroy now = .ok t ∧ t.activeMap.lookup oid = none) ∧
        ∃ τ, s.accesses.lookup oid = some τ ∧
          ∀ clock, (s.gc_sweep clock).activeMap.lookup oid = none ↔ entry.ttl < clock oid - τ := by
  have hs : s.Inv := Run.invariant (fun _ _ _ hs h => inv_step hs h) inv_init hrun
  refine ⟨hs.collected, ?_, fun oid entry h => ⟨?_, entry.last_access, hs.accessed oid entry h, ?_⟩⟩
  · intro oid hnone bs t hbs hregister operation now
    have ht : t.activeMap.lookup oid = none :=
      Run.induct (P := fun bs t => (∀ v ttl destroy now, .register oid v ttl destroy now ∉ bs) →
          t.activeMap.lookup oid = none) (fun _ => hnone)
        (fun bs t a u _ ih hst hbs => lookup_step
          (ih fun v ttl destroy now hmem => hbs v ttl destroy now (List.mem_append_left _ hmem))
          (fun v ttl destroy now ha => hbs v ttl destroy now (by rw [ha]; simp)) hst) hbs hregister
    unfold preinvoke
    rw [ht]
  · intro now
    unfold preinvoke
    rw [h]
    simp only [if_true]
    exact ⟨_, rfl, by rw [OrdMap.lookup_erase, if_pos rfl]⟩
  · intro clock
    show (s.activeMap.filter fun e => !expired clock e).lookup oid = none ↔ _
    rw [lookup_filter hs h]
    simp [expired]

/-- An iterator is swept while it is being asked for its items, and another one is destroyed. -/
def iterate : List Action :=
  [.new, .new, .register ['1'] 0 60 ['d'] 0, .removeRef 0, .register ['2'] 1 60 ['d'] 10, .removeRef 1,
    .preinvoke ['1'] ['n'] 20, .preinvoke ['2'] ['d'] 30, .gc_sweep fun _ => 90, .postinvoke 0,
    .postinvoke 0]

theorem iterators_collected_swept : ∃ s, Run step init iterate = some s ∧
    s.servants = [⟨0, 0⟩, ⟨0, 0⟩] ∧ s.released = [1, 0] ∧ s.Collected := by
  obtain ⟨s, hrun, hservants, hreleased⟩ : ∃ s, Run step init iterate = some s ∧
      s.servants = [⟨0, 0⟩, ⟨0, 0⟩] ∧ s.released = [1, 0] := ⟨_, rfl, rfl, rfl⟩
  exact ⟨s, hrun, hservants, hreleased, (iterators_collected iterate s hrun).1⟩

end GCServantLocator

end OmniEvents
