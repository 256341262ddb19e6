import OmniEvents.Destroy
import OmniEvents.Lib.Counting
import OmniEvents.Lib.Transition

set_option autoImplicit false

/-! # The limit on pull suppliers

`ProxyPullSupplierManager::incarnate` disconnects the servant that was contacted longest ago when
`_servants` has as many elements as `MaxNumProxies` allows. But a servant leaves that set only when the
ORB etherealizes it, some time after its deactivation, and until then the eviction may choose it again:
its disconnection makes no room, and with a log it even raises `ServantNotActive`, which nothing
catches. The set is ordered by address, so a new servant may come anywhere in it. -/

namespace OmniEvents

open Transition Counting

variable {Ref : Type}

/-- `_servants.insert(p)`: the `i`-th place is that of the new address. -/
def insertServant {σ : Type*} (servants : List σ) (i : ℕ) (p : σ) : List σ :=
  servants.take i ++ p :: servants.drop i

/-- A call with the object id that each of its messages comes from. -/
def Called.sentBy {σ : Type*} (oid : Str) (a : Called Ref σ) : Called (Str × Ref) σ :=
  ⟨a.state, a.sent.map fun m => ((oid, m.1), m.2), a.raised⟩

namespace ProxyPullSupplier

/-- `disconnect_pull_supplier`, called without the POA. With a log, `eraseKey` needs the servant to be
    active. -/
def disconnectDirect (logging : Bool) (now : ℕ) (p : ProxyPullSupplier Ref) :
    Called Ref (ProxyPullSupplier Ref) :=
  if logging && !p.active then ⟨{ p with timestamp := now }, [], some .ServantNotActive⟩
  else Destroy.disconnect_pull_supplier now p

/-- `pull` and `try_pull`, as far as the manager is concerned. -/
def contact (now : ℕ) (p : ProxyPullSupplier Ref) : ProxyPullSupplier Ref :=
  if p.connected then { p with timestamp := now } else p

variable [DecidableEq Ref]

/-- The set after the disconnection of the oldest servant `p`. -/
def evicted (logging : Bool) (now : ℕ) (servants : List (ProxyPullSupplier Ref))
    (p : ProxyPullSupplier Ref) : List (ProxyPullSupplier Ref) :=
  servants.set (servants.idxOf p) (p.disconnectDirect logging now).state

/-- `ProxyPullSupplierManager::incarnate`. `none` is the use of a null pointer. -/
def incarnate (logging : Bool) (maxNumProxies : ℕ) (servants : List (ProxyPullSupplier Ref))
    (oid : Str) (now i : ℕ) : Option (Called (Str × Ref) (List (ProxyPullSupplier Ref))) :=
  if maxNumProxies ≤ servants.length then
    match oldest servants with
    | none => none
    | some p =>
        let call := p.disconnectDirect logging now
        let servants := evicted logging now servants p
        if call.raised = some .ServantNotActive then
          some ⟨servants, (call.sentBy p.oid).sent, some .ServantNotActive⟩
        -- `OBJECT_NOT_EXIST` is caught
        else some ⟨insertServant servants i (.new oid true now), (call.sentBy p.oid).sent, none⟩
  else some ⟨insertServant servants i (.new oid true now), [], none⟩

end ProxyPullSupplier

/-- An eviction: the servant that is disconnected, and the set it is chosen from. -/
structure Evicted (Ref : Type) where
  victim : ProxyPullSupplier Ref
  servants : List (ProxyPullSupplier Ref)
  deriving DecidableEq, Repr

/-- The pull suppliers of a channel, in the order of the set. -/
structure PullSupplierManager (Ref : Type) where
  servants : List (ProxyPullSupplier Ref)
  /-- The evictions so far. -/
  evictions : List (Evicted Ref)
  deriving DecidableEq, Repr

/-- A call to one of the servants, or a call of the ORB that makes or etherealizes one. -/
inductive PullSupplierManager.Action (Ref : Type) where
  /-- The ORB needs a servant for `oid`, or `reincarnate` makes one; it is the `i`-th of the set. -/
  | incarnate (oid : Str) (now : ℕ) (i : ℕ)
  /-- `reincarnate` cannot connect the servant it has just made, and deletes it. -/
  | discard (i : ℕ)
  | connect_pull_consumer (i : ℕ) (pullConsumer : Option Ref) (now : ℕ)
  | pull (i : ℕ) (now : ℕ)
  | disconnect_pull_supplier (i : ℕ) (now : ℕ)
  | etherealize (i : ℕ)
  deriving DecidableEq, Repr

namespace PullSupplierManager

variable [DecidableEq Ref]

/-- No servant has been made. -/
def init : PullSupplierManager Ref := ⟨[], []⟩

/-- The eviction that `incarnate` makes, if it does not fail. -/
def evictionOf (logging : Bool) (maxNumProxies : ℕ) (servants : List (ProxyPullSupplier Ref))
    (now : ℕ) : List (Evicted Ref) :=
  if maxNumProxies ≤ servants.length then
    match ProxyPullSupplier.oldest servants with
    | none => []
    | some p =>
        if (p.disconnectDirect logging now).raised = some .ServantNotActive then []
        else [⟨p, servants⟩]
  else []

/-- A call through the POA reaches an active servant. -/
def call (s : PullSupplierManager Ref) (i : ℕ)
    (f : ProxyPullSupplier Ref → ProxyPullSupplier Ref) : Option (PullSupplierManager Ref) :=
  match s.servants[i]? with
  | none => none
  | some p => if p.active then some { s with servants := s.servants.set i (f p) } else none

/-- The steps. A call to servant `i` goes to whatever is the `i`-th of the set now. -/
def step (logging : Bool) (maxNumProxies : ℕ) (s : PullSupplierManager Ref) :
    Action Ref → Option (PullSupplierManager Ref)
  | .incarnate oid now i =>
      (ProxyPullSupplier.incarnate logging maxNumProxies s.servants oid now i).map fun call =>
        { servants := call.state
          evictions := s.evictions ++ evictionOf logging maxNumProxies s.servants now }
  | .discard i =>
      match s.servants[i]? with
      | none => none
      | some p => if p.connected then none else some { s with servants := s.servants.eraseIdx i }
  | .connect_pull_consumer i pullConsumer now =>
      s.call i fun p => (p.connect_pull_consumer pullConsumer now).toOption.getD p
  | .pull i now => s.call i (·.contact now)
  | .disconnect_pull_supplier i now =>
      s.call i fun p => (Destroy.disconnect_pull_supplier now p).state
  | .etherealize i =>
      match s.servants[i]? with
      | none => none
      | some p => if p.active then none else some { s with servants := s.servants.eraseIdx i }

/-- The proxies that are incarnated and not deactivated. -/
def active (servants : List (ProxyPullSupplier Ref)) : ℕ := servants.countP (·.active)

/-- Every servant that waits for etherealization has an active one before it, contacted earlier or in
    the same second. -/
def InOrder (servants : List (ProxyPullSupplier Ref)) : Prop :=
  ∀ q ∈ servants.zipIdx, q.1.active = false → ∃ p ∈ servants.zipIdx, p.1.active = true ∧
    (p.1.timestamp < q.1.timestamp ∨ p.1.timestamp = q.1.timestamp ∧ p.2 < q.2)

instance (servants : List (ProxyPullSupplier Ref)) : Decidable (InOrder servants) :=
  inferInstanceAs (Decidable (∀ q ∈ servants.zipIdx, _))

/-- An incarnation finds room, or the servants in order, or fails for the log's sake. -/
def Timely (logging : Bool) (maxNumProxies : ℕ) (s : PullSupplierManager Ref) : Action Ref → Prop
  | .incarnate _ _ _ =>
      s.servants.length < maxNumProxies ∨ logging = true ∨ InOrder s.servants
  | _ => True

instance (logging : Bool) (maxNumProxies : ℕ) (s : PullSupplierManager Ref) :
    ∀ a, Decidable (Timely logging maxNumProxies s a)
  | .incarnate _ _ _ => inferInstanceAs (Decidable (_ ∨ _ ∨ InOrder _))
  | .discard _ | .connect_pull_consumer _ _ _ | .pull _ _ | .disconnect_pull_supplier _ _
  | .etherealize _ => isTrue trivial

end PullSupplierManager

/-- The victim was active, and no active servant was contacted before it. -/
def Evicted.Fair (e : Evicted Ref) : Prop :=
  e.victim ∈ e.servants ∧ e.victim.active = true ∧
    ∀ q ∈ e.servants, q.active = true → e.victim.timestamp ≤ q.timestamp

/-! ## The oldest servant

`oldest` goes by `timestamp`, and takes the first of several with the same time. It may be a servant
that has been deactivated already. -/

namespace ProxyPullSupplier

/-- The choice of `oldest` between two. -/
theorem oldest_concat (servants : List (ProxyPullSupplier Ref)) (p : ProxyPullSupplier Ref) :
    oldest (servants ++ [p]) =
      match oldest servants with
      | none => some p
      | some q => if p.timestamp < q.timestamp then some p else some q :=
  List.foldl_append

theorem oldest_eq_none {servants : List (ProxyPullSupplier Ref)} (h : oldest servants = none) :
    servants = [] := by
  cases servants using List.reverseRecOn with
  | nil => rfl
  | append_singleton servants q =>
      rw [oldest_concat] at h
      split at h
      · cases h
      · split at h <;> cases h

/-- The oldest servant is the first of those contacted longest ago. -/
theorem oldest_spec {servants : List (ProxyPullSupplier Ref)} {p : ProxyPullSupplier Ref}
    (h : oldest servants = some p) :
    ∃ i : ℕ, servants[i]? = some p ∧ ∀ (j : ℕ) (q : ProxyPullSupplier Ref),
      servants[j]? = some q → p.timestamp ≤ q.timestamp ∧ (j < i → p.timestamp < q.timestamp) := by
  induction servants using List.reverseRecOn generalizing p with
  | nil => cases h
  | append_singleton servants r ih =>
      have hlast : ∀ (j : ℕ) q, (servants ++ [r])[j]? = some q → servants[j]? = some q ∨
          j = servants.length ∧ q = r := by
        intro j q hj
        rcases Nat.lt_or_ge j servants.length with hlt | hge
        · rw [List.getElem?_append_left hlt] at hj
          exact .inl hj
        · rw [List.getElem?_append_right hge, List.getElem?_singleton] at hj
          split at hj
          · next hsub =>
              cases hj
              exact .inr ⟨by omega, rfl⟩
          · cases hj
      rw [oldest_concat] at h
      cases hold : oldest servants with
      | none =>
          rw [hold] at h
          cases h
          rw [oldest_eq_none hold] at hlast ⊢
          refine ⟨0, rfl, ?_⟩
          intro j q hj
          rcases hlast j q hj with hj | ⟨rfl, rfl⟩
          · cases hj
          · exact ⟨le_rfl, fun hlt => absurd hlt (lt_irrefl _)⟩
      | some q =>
          rw [hold] at h
          obtain ⟨i, hi, hmin⟩ := ih hold
          have hilt : i < servants.length := (List.getElem?_eq_some_iff.1 hi).1
          simp only at h
          split at h
          · next hlt =>
              cases h
              refine ⟨servants.length, by simp, ?_⟩
              intro j s hj
              rcases hlast j s hj with hj | ⟨rfl, rfl⟩
              · have hbefore := hlt.trans_le (hmin j s hj).1
                exact ⟨hbefore.le, fun _ => hbefore⟩
              · exact ⟨le_rfl, fun hlt => absurd hlt (lt_irrefl _)⟩
          · next hge =>
              cases h
              refine ⟨i, by rwa [List.getElem?_append_left hilt], fun j s hj => ?_⟩
              rcases hlast j s hj with hj | ⟨rfl, rfl⟩
              · exact hmin j s hj
              · exact ⟨Nat.not_lt.1 hge, fun hlt => absurd hlt (Nat.lt_asymm hilt)⟩

/-- The oldest servant is active exactly when every inactive one has an active one before it. -/
theorem oldest_active {servants : List (ProxyPullSupplier Ref)} {p : ProxyPullSupplier Ref}
    (h : oldest servants = some p) :
    p.active = true ↔ PullSupplierManager.InOrder servants := by
  obtain ⟨i, hi, hmin⟩ := oldest_spec h
  constructor
  · intro hactive q hq hqactive
    rw [List.mem_zipIdx_iff_getElem?] at hq
    refine ⟨(p, i), List.mem_zipIdx_iff_getElem?.2 hi, hactive, ?_⟩
    rcases (hmin _ _ hq).1.lt_or_eq with hlt | heq
    · exact .inl hlt
    · refine .inr ⟨heq, ?_⟩
      show i < q.2
      rcases Nat.lt_trichotomy i q.2 with hlt | rfl | hgt
      · exact hlt
      · rw [hi, Option.some.injEq] at hq
        rw [← hq, hactive] at hqactive
        cases hqactive
      · exact absurd heq ((hmin _ _ hq).2 hgt).ne
  · intro horder
    by_contra hactive
    obtain ⟨q, hq, -, hlt | ⟨heq, hlt⟩⟩ :=
      horder (p, i) (List.mem_zipIdx_iff_getElem?.2 hi) (by simpa using hactive)
    · exact absurd (hmin _ _ (List.mem_zipIdx_iff_getElem?.1 hq)).1 (Nat.not_le.2 hlt)
    · exact absurd heq ((hmin _ _ (List.mem_zipIdx_iff_getElem?.1 hq)).2 hlt).ne'

/-- A disconnection leaves the servant inactive, unless the log prevents it. -/
theorem disconnectDirect_active {logging : Bool} {now : ℕ} {p : ProxyPullSupplier Ref} :
    (p.disconnectDirect logging now).state.active = false := by
  unfold disconnectDirect
  split
  · next h =>
      have hinactive : logging = true ∧ p.active = false := by simpa using h
      exact hinactive.2
  · unfold Destroy.disconnect_pull_supplier
    simp only
    split
    · rfl
    · split <;> rfl

theorem raised_iff {logging : Bool} {now : ℕ} {p : ProxyPullSupplier Ref} :
    (p.disconnectDirect logging now).raised = some .ServantNotActive ↔
      logging = true ∧ p.active = false := by
  unfold disconnectDirect
  split
  · next h => simpa using h
  · next h =>
      have hraised : (Destroy.disconnect_pull_supplier now p).raised ≠ some .ServantNotActive := by
        unfold Destroy.disconnect_pull_supplier
        simp only
        split
        · simp
        · split <;> simp
      constructor
      · exact fun heq => absurd heq hraised
      · exact fun hboth => absurd (by simpa using hboth) h

end ProxyPullSupplier

/-! ## One incarnation -/

namespace PullSupplierManager

variable [DecidableEq Ref] {logging : Bool} {maxNumProxies now i : ℕ} {oid : Str}
  {servants : List (ProxyPullSupplier Ref)}

/-- There is room, or the oldest servant is disconnected, or the log prevents it. -/
theorem incarnate_cases {call : Called (Str × Ref) (List (ProxyPullSupplier Ref))}
    (h : ProxyPullSupplier.incarnate logging maxNumProxies servants oid now i = some call) :
    (servants.length < maxNumProxies ∧ evictionOf logging maxNumProxies servants now = [] ∧
      call = ⟨insertServant servants i (.new oid true now), [], none⟩) ∨
    ∃ p, maxNumProxies ≤ servants.length ∧ ProxyPullSupplier.oldest servants = some p ∧
      ((logging = true ∧ p.active = false ∧ evictionOf logging maxNumProxies servants now = [] ∧
        call = ⟨ProxyPullSupplier.evicted logging now servants p,
          ((p.disconnectDirect logging now).sentBy p.oid).sent, some .ServantNotActive⟩) ∨
      (¬(logging = true ∧ p.active = false) ∧
        evictionOf logging maxNumProxies servants now = [⟨p, servants⟩] ∧
        call = ⟨insertServant (ProxyPullSupplier.evicted logging now servants p) i (.new oid true now),
          ((p.disconnectDirect logging now).sentBy p.oid).sent, none⟩)) := by
  unfold ProxyPullSupplier.incarnate at h
  unfold evictionOf
  split at h
  · next hfull =>
      rw [if_pos hfull]
      split at h
      · cases h
      · next p hold =>
          refine Or.inr ⟨p, hfull, hold, ?_⟩
          simp only at h
          split at h
          · next hraised =>
              obtain ⟨hlog, hactive⟩ := ProxyPullSupplier.raised_iff.1 hraised
              exact Or.inl ⟨hlog, hactive, if_pos hraised, (Option.some.inj h).symm⟩
          · next hraised =>
              exact Or.inr ⟨fun hboth => hraised (ProxyPullSupplier.raised_iff.2 hboth),
                if_neg hraised, (Option.some.inj h).symm⟩
  · next hroom =>
      rw [if_neg hroom]
      exact Or.inl ⟨Nat.not_le.1 hroom, rfl, (Option.some.inj h).symm⟩

/-- The first servant equal to the oldest one is the oldest one. -/
theorem getElem?_idxOf_oldest {p : ProxyPullSupplier Ref}
    (h : ProxyPullSupplier.oldest servants = some p) : servants[servants.idxOf p]? = some p := by
  obtain ⟨j, hj, -⟩ := ProxyPullSupplier.oldest_spec h
  rw [List.getElem?_eq_getElem (List.idxOf_lt_length_of_mem (List.mem_of_getElem? hj)),
    List.getElem_idxOf]

omit [DecidableEq Ref] in
theorem active_insertServant :
    active (insertServant servants i (.new oid true now)) = active servants + 1 :=
  countP_insert i

/-- The oldest servant is not active any more, whether it was before or not. -/
theorem active_evicted {p : ProxyPullSupplier Ref} (h : ProxyPullSupplier.oldest servants = some p) :
    active (ProxyPullSupplier.evicted logging now servants p) + p.active.toNat = active servants := by
  have hcount := countP_set (p := fun p : ProxyPullSupplier Ref => p.active)
    (b := (p.disconnectDirect logging now).state) (getElem?_idxOf_oldest h)
  rwa [ProxyPullSupplier.disconnectDirect_active, Bool.toNat_false, Nat.add_zero] at hcount

/-! ## Runs -/

variable {s t : PullSupplierManager Ref} {a : Action Ref}

omit [DecidableEq Ref] in
theorem call_spec {f : ProxyPullSupplier Ref → ProxyPullSupplier Ref} (h : s.call i f = some t) :
    t.evictions = s.evictions ∧ active t.servants ≤ active s.servants := by
  unfold call at h
  split at h
  · cases h
  · next p hp =>
      split at h
      · next hactive =>
          cases h
          have hcount := countP_set (p := fun p : ProxyPullSupplier Ref => p.active) (b := f p) hp
          rw [hactive, Bool.toNat_true] at hcount
          have hone := Bool.toNat_le (f p).active
          refine ⟨rfl, ?_⟩
          show (s.servants.set i (f p)).countP _ ≤ s.servants.countP _
          omega
      · cases h

/-- Only an incarnation evicts or adds a servant. -/
theorem step_cases (h : step logging maxNumProxies s a = some t) :
    (∃ oid now i call, a = .incarnate oid now i ∧
      ProxyPullSupplier.incarnate logging maxNumProxies s.servants oid now i = some call ∧
      t.servants = call.state ∧
      t.evictions = s.evictions ++ evictionOf logging maxNumProxies s.servants now) ∨
    (Timely logging maxNumProxies s a ∧ t.evictions = s.evictions ∧
      active t.servants ≤ active s.servants) := by
  have erased : ∀ i p, s.servants[i]? = some p →
      active (s.servants.eraseIdx i) ≤ active s.servants := fun i p hp =>
    Nat.le.intro (countP_eraseIdx hp)
  cases a with
  | incarnate oid now i =>
      obtain ⟨call, hcall, rfl⟩ := Option.map_eq_some_iff.1 h
      exact Or.inl ⟨oid, now, i, call, rfl, hcall, rfl, rfl⟩
  | discard i =>
      simp only [step] at h
      split at h
      · cases h
      · next p hp =>
          split at h
          · cases h
          · cases h
            exact Or.inr ⟨trivial, rfl, erased i p hp⟩
  | connect_pull_consumer i pullConsumer now => exact Or.inr ⟨trivial, call_spec h⟩
  | pull i now => exact Or.inr ⟨trivial, call_spec h⟩
  | disconnect_pull_supplier i now => exact Or.inr ⟨trivial, call_spec h⟩
  | etherealize i =>
      simp only [step] at h
      split at h
      · cases h
      · next p hp =>
          split at h
          · cases h
          · cases h
            exact Or.inr ⟨trivial, rfl, erased i p hp⟩

/-- What the limit promises. -/
def Limited (maxNumProxies : ℕ) (s : PullSupplierManager Ref) : Prop :=
  active s.servants ≤ maxNumProxies ∧ ∀ e ∈ s.evictions, e.Fair

theorem limited_step (hs : Limited maxNumProxies s) (hok : Timely logging maxNumProxies s a)
    (h : step logging maxNumProxies s a = some t) : Limited maxNumProxies t := by
  obtain ⟨oid, now, i, call, rfl, hcall, hservants, hevictions⟩ | ⟨-, hevictions, hactive⟩ :=
    step_cases h
  · unfold Limited
    rw [hservants, hevictions]
    obtain ⟨hroom, hev, rfl⟩ | ⟨p, hfull, hold, hcases⟩ := incarnate_cases hcall
    · rw [hev, List.append_nil, active_insertServant]
      have hle : active s.servants ≤ s.servants.length := List.countP_le_length
      exact ⟨by omega, hs.2⟩
    · have hcount : active (ProxyPullSupplier.evicted logging now s.servants p) + p.active.toNat =
          active s.servants := active_evicted hold
      obtain ⟨-, hinactive, hev, rfl⟩ | ⟨hfree, hev, rfl⟩ := hcases
      · rw [hev, List.append_nil]
        rw [hinactive, Bool.toNat_false, Nat.add_zero] at hcount
        exact ⟨hcount.trans_le hs.1, hs.2⟩
      · have hpactive : p.active = true := by
          rcases hok with hroom | hlog | horder
          · exact absurd hroom (Nat.not_lt.2 hfull)
          · simpa [hlog] using hfree
          · exact (ProxyPullSupplier.oldest_active hold).2 horder
        rw [hpactive, Bool.toNat_true] at hcount
        rw [hev, active_insertServant, hcount]
        refine ⟨hs.1, ?_⟩
        intro e he
        rcases List.mem_append.1 he with he | he
        · exact hs.2 e he
        · cases List.mem_singleton.1 he
          obtain ⟨j, hj, hmin⟩ := ProxyPullSupplier.oldest_spec hold
          refine ⟨List.mem_of_getElem? hj, hpactive, ?_⟩
          intro q hq _
          obtain ⟨k, hk⟩ := List.mem_iff_getElem?.1 hq
          exact (hmin k q hk).1
  · exact ⟨hactive.trans hs.1, hevictions ▸ hs.2⟩

/-- An incarnation that is not timely evicts a servant that is no longer active. -/
theorem timely_of_fair (h : step logging maxNumProxies s a = some t)
    (hfair : ∀ e ∈ t.evictions, e.Fair) : Timely logging maxNumProxies s a := by
  obtain ⟨oid, now, i, call, rfl, hcall, -, hevictions⟩ | ⟨hok, -, -⟩ := step_cases h
  · obtain ⟨hroom, -, -⟩ | ⟨p, -, hold, ⟨hlog, -, -, -⟩ | ⟨-, hev, -⟩⟩ := incarnate_cases hcall
    · exact Or.inl hroom
    · exact Or.inr (Or.inl hlog)
    · have hvictim : (⟨p, s.servants⟩ : Evicted Ref) ∈ t.evictions := by
        rw [hevictions, hev]
        exact List.mem_append_right _ (List.mem_singleton.2 rfl)
      exact Or.inr (Or.inr ((ProxyPullSupplier.oldest_active hold).1 (hfair _ hvictim).2.1))
  · exact hok

theorem evictions_mono (h : step logging maxNumProxies s a = some t) :
    s.evictions ⊆ t.evictions := by
  obtain ⟨oid, now, i, call, -, -, -, hevictions⟩ | ⟨-, hevictions, -⟩ := step_cases h
  · rw [hevictions]
    exact List.subset_append_left _ _
  · rw [hevictions]
    exact List.Subset.refl _

/-- **When the limit holds and the eviction is fair**: in every run, exactly if no incarnation finds
    the set full and an inactive servant in it before every active one, but for one that fails for the
    sake of the log. -/
theorem limited_iff (logging : Bool) (maxNumProxies : ℕ)
    (as : List (Action Ref)) (s : PullSupplierManager Ref)
    (hrun : Run (step logging maxNumProxies) init as = some s) :
    Limited maxNumProxies s ↔
      Along (step logging maxNumProxies) (Timely logging maxNumProxies) init as := by
  constructor
  · intro hs
    have hfair := hs.2
    revert hfair
    refine Run.induct (P := fun as s => (∀ e ∈ s.evictions, e.Fair) →
      Along (step logging maxNumProxies) (Timely logging maxNumProxies) init as) ?_ ?_ hrun
    · exact fun _ => trivial
    · intro as s a t hs ih hst hfair
      rw [along_concat hs]
      exact ⟨ih fun e he => hfair e (evictions_mono hst he), timely_of_fair hst hfair⟩
  · intro hok
    exact Run.invariant_of_along (fun s a t hs hok hst => limited_step hs hok hst)
      ⟨Nat.zero_le _, List.forall_mem_nil _⟩ hok hrun

/-- The first servant is etherealized before the set is full again. -/
def etherealizedInTime : List (Action Str) :=
  [.incarnate ['A'] 0 0, .connect_pull_consumer 0 (some ['a']) 1, .incarnate ['B'] 2 1,
    .etherealize 0, .incarnate ['C'] 3 1]

theorem limited_etherealized : ∃ s, Run (step false 1) init etherealizedInTime = some s ∧
    s.evictions.length = 2 ∧ Limited 1 s := by
  obtain ⟨s, hrun, hlength⟩ : ∃ s, Run (step false 1) init etherealizedInTime = some s ∧
      s.evictions.length = 2 := ⟨_, rfl, rfl⟩
  exact ⟨s, hrun, hlength, (limited_iff false 1 etherealizedInTime s hrun).2 (by decide)⟩

/-- Three incarnations within a second, and no etherealization: the first servant is evicted twice. -/
theorem limit_exceeded : ∃ s : PullSupplierManager Str,
    Run (step false 1) init [.incarnate ['A'] 0 0, .incarnate ['B'] 0 1, .incarnate ['C'] 0 2]
      = some s ∧ active s.servants = 2 ∧ ∃ e ∈ s.evictions, e.victim.active = false :=
  ⟨_, rfl, rfl, by decide⟩

end PullSupplierManager

end OmniEvents
