import OmniEvents.CreateChannel

set_option autoImplicit false

/-! # What the criteria come to

A number in the criteria of a client is an unsigned long. `addattr` takes it as a `long`, prints it
with `%i`, and stores the text; `attrLong` reads it with `atol`. Of a number from 2³¹ on this leaves
the negative one with the same low 32 bits. The accessors that return a `CORBA::ULong` undo that,
`cyclePeriod_ns` of 64 bits does not (`criteria_take_effect`). -/

namespace OmniEvents

open PersistNode (attrString hasAttr attrLong atol digitsVal)
open LogRecord (CleanName ecf)
open LogEntry (CompleteLog)

variable {Ref : Type}

/-! ## The accessors -/

/-- The default of `PullRetryPeriod_ms`. -/
def defaultPullRetryPeriod_ms : ℤ := 1000

/-- The default of `MaxQueueLength`. -/
def defaultMaxQueueLength : ℤ := 1023

/-- The default of `CyclePeriod_ns`. -/
def defaultCyclePeriod_ns : ℤ := 100000000

namespace PersistNode

variable (properties : PersistNode)

/-- `_pullRetryPeriod_ms`, as `activate` reads it from the properties. -/
def pullRetryPeriod_ms : UInt32 :=
  .ofInt (properties.attrLong keyPullRetryPeriod_ms defaultPullRetryPeriod_ms)

/-- What `activate` gives to the constructor of the queue. -/
def maxQueueLength : UInt32 := .ofInt (properties.attrLong keyMaxQueueLength defaultMaxQueueLength)

/-- What `activate` gives to the manager of the pull suppliers. -/
def maxNumProxies : UInt32 := .ofInt (properties.attrLong keyMaxNumProxies defaultMaxNumProxies)

/-- An `unsigned long`, which is of 64 bits. -/
def cyclePeriod_ns : UInt64 := .ofInt (properties.attrLong keyCyclePeriod_ns defaultCyclePeriod_ns)

end PersistNode

/-! ## What is asked for

The meaning of a sequence of criteria without the code. The last criterion of a kind counts, and a
zero or an empty string says nothing; of the deprecated period the first counts, and only if there
is none in milliseconds. -/

/-- The number that a criterion gives for a name. -/
def Criterion.number (key : Str) (c : Criterion) : Option UInt32 :=
  match c.value with
  | .ulong value => if c.name = key then some value else none
  | _ => none

/-- The number, unless it is zero. -/
def Criterion.size (key : Str) (c : Criterion) : Option UInt32 := (c.number key).filter (· ≠ 0)

/-- The text, unless it is empty. -/
def Criterion.text (key : Str) (c : Criterion) : Option Str :=
  match c.value with
  | .string value => if c.name = key ∧ value ≠ [] then some value else none
  | _ => none

/-- The last that some criterion gives. -/
def lastOf {α : Type} (f : Criterion → Option α) (criteria : List Criterion) : Option α :=
  (criteria.filterMap f).getLast?

/-- The first criterion that says something, where the code stops at the first. -/
def firstOf {α : Type} (f : Criterion → Option α) (criteria : List Criterion) : Option α :=
  (criteria.filterMap f).head?

/-- The period in milliseconds: that of the preferred criterion, or else that of the deprecated one. -/
def askedPeriod (criteria : List Criterion) : ℕ :=
  match lastOf (Criterion.number keyPullRetryPeriod_ms) criteria with
  | some value => value.toNat
  | none =>
      match firstOf (Criterion.number keyPullRetryPeriod) criteria with
      | some value => value.toNat * 1000
      | none => 1000

/-- A size that is asked for, or the default. -/
def askedSize (key : Str) (fallback : ℕ) (criteria : List Criterion) : ℕ :=
  ((lastOf (Criterion.size key) criteria).map UInt32.toNat).getD fallback

/-- The accessors return what is asked for. -/
structure TakesEffect (criteria : List Criterion) (properties : PersistNode) : Prop where
  maxQueueLength : properties.maxQueueLength.toNat = askedSize keyMaxQueueLength 1023 criteria
  maxNumProxies : properties.maxNumProxies.toNat = askedSize keyMaxNumProxies 1024 criteria
  cyclePeriod_ns : properties.cyclePeriod_ns.toNat = askedSize keyCyclePeriod_ns 100000000 criteria
  pullRetryPeriod_ms : properties.pullRetryPeriod_ms.toNat = askedPeriod criteria

/-! ## Numbers as text -/

theorem digitsVal_eq (acc : ℕ) {s : Str} (hs : ∀ c ∈ s, c.isDigit = true) :
    digitsVal acc s = Nat.ofDigitChars 10 s acc := by
  induction s generalizing acc with
  | nil => rw [digitsVal, Nat.ofDigitChars_nil]
  | cons c s ih =>
      obtain ⟨hc, hs⟩ := List.forall_mem_cons.1 hs
      rw [digitsVal, if_pos hc, ih _ hs, Nat.ofDigitChars_cons]

theorem isDigit_toDigits (n : ℕ) : ∀ c ∈ Nat.toDigits 10 n, c.isDigit = true :=
  fun _ hc => Nat.isDigit_of_mem_toDigits (by decide) (by decide) hc

theorem digitsVal_toDigits (n : ℕ) : digitsVal 0 (Nat.toDigits 10 n) = n := by
  rw [digitsVal_eq 0 (isDigit_toDigits n), Nat.ofDigitChars_ten_toDigits]

/-- No sign stands before the digits. -/
theorem atol_of_digits {s : Str} (hs : ∀ c ∈ s, c.isDigit = true)
    (hspace : ∀ c ∈ s, isSpace c = false) (hlt : digitsVal 0 s < 2 ^ 63) :
    atol s = digitsVal 0 s := by
  have hdrop : s.dropWhile isSpace = s := by
    cases s with
    | nil => rfl
    | cons c s =>
        rw [List.dropWhile_cons, hspace c List.mem_cons_self]
        rfl
  unfold atol
  rw [hdrop]
  split
  · exact absurd (hs '-' List.mem_cons_self) (by decide)
  · exact absurd (hs '+' List.mem_cons_self) (by decide)
  · show max (-2 ^ 63) (min ((digitsVal 0 s : ℕ) : ℤ) (2 ^ 63 - 1)) = _
    omega

/-- `atol` undoes the printing of a `long`. -/
theorem atol_intText {i : ℤ} (hlow : -2 ^ 63 ≤ i) (hhigh : i < 2 ^ 63) : atol (intText i) = i := by
  cases i with
  | ofNat n =>
      have hlt : digitsVal 0 (Nat.toDigits 10 n) < 2 ^ 63 := by
        rw [digitsVal_toDigits]
        rw [Int.ofNat_eq_natCast] at hhigh
        omega
      have hspace := isSpace_intText (.ofNat n)
      rw [intText] at hspace ⊢
      rw [atol_of_digits (isDigit_toDigits n) hspace hlt, digitsVal_toDigits]
      rfl
  | negSucc n =>
      show max (-2 ^ 63) (min (-((digitsVal 0 (Nat.toDigits 10 (n + 1)) : ℕ) : ℤ)) (2 ^ 63 - 1)) = _
      rw [digitsVal_toDigits]
      omega

theorem toInt_toInt32 (v : UInt32) :
    v.toInt32.toInt = if v.toNat < 2 ^ 31 then (v.toNat : ℤ) else v.toNat - 2 ^ 32 := by
  have hv := v.toNat_lt
  have hbits : v.toInt32.toInt = v.toBitVec.toInt := rfl
  rw [hbits, BitVec.toInt_eq_toNat_cond]
  have hnat : v.toBitVec.toNat = v.toNat := rfl
  rw [hnat]
  split
  · rw [if_pos (by omega)]
  · rw [if_neg (by omega)]
    rfl

theorem toNat_ofInt_uint32 (i : ℤ) : (UInt32.ofInt i).toNat = (i % 2 ^ 32).toNat := by
  rw [UInt32.ofInt, UInt32.toNat_ofNat_of_lt']
  show (i % 2 ^ 32).toNat < 2 ^ 32
  omega

theorem toNat_ofInt_uint64 (i : ℤ) : (UInt64.ofInt i).toNat = (i % 2 ^ 64).toNat := by
  rw [UInt64.ofInt, UInt64.toNat_ofNat_of_lt']
  show (i % 2 ^ 64).toNat < 2 ^ 64
  omega

/-! ## What is stored -/

/-- The text that `addattr` stores for a number. -/
def storedText (value : UInt32) : Str := intText value.toInt32.toInt

theorem atol_storedText (value : UInt32) : atol (storedText value) = value.toInt32.toInt := by
  have hvalue := value.toNat_lt
  have hsigned := toInt_toInt32 value
  refine atol_intText ?_ ?_
  · split at hsigned
    · omega
    · omega
  · split at hsigned
    · omega
    · omega

/-- A `CORBA::ULong` is read back whatever it is. -/
theorem ofInt_storedText (value : UInt32) : UInt32.ofInt (atol (storedText value)) = value := by
  have hvalue := value.toNat_lt
  have hsigned := toInt_toInt32 value
  rw [← UInt32.toNat_inj, toNat_ofInt_uint32, atol_storedText]
  split at hsigned
  · omega
  · omega

theorem toNat_ofInt64_storedText (value : UInt32) :
    (UInt64.ofInt (atol (storedText value))).toNat
      = if value.toNat < 2 ^ 31 then value.toNat else value.toNat + (2 ^ 64 - 2 ^ 32) := by
  have hvalue := value.toNat_lt
  rw [toNat_ofInt_uint64, atol_storedText, toInt_toInt32]
  split
  · omega
  · omega

/-- An `unsigned long` is read back if the text has no sign. -/
theorem ofInt64_storedText_iff (value : UInt32) :
    (UInt64.ofInt (atol (storedText value))).toNat = value.toNat ↔ value.toNat < 2 ^ 31 := by
  rw [toNat_ofInt64_storedText]
  split
  · next hlt => exact iff_of_true rfl hlt
  · next hge => exact iff_of_false (by omega) hge

theorem attrLong_of_lookup {properties : PersistNode} {key : Str} {fallback : ℤ}
    {given : Option UInt32} (h : properties.attrs.lookup key = given.map storedText) :
    properties.attrLong key fallback
      = (given.map fun value => atol (storedText value)).getD fallback := by
  rw [attrLong, h]
  cases given with
  | none => rfl
  | some value => rfl

/-! ## One criterion -/

/-- The criteria that are numbers and must not be zero. -/
def sizeKeys : List Str := [keyMaxQueueLength, keyMaxNumProxies, keyCyclePeriod_ns]

/-- The criteria that are strings. -/
def stringKeys : List Str := [keyInsName, keyFilterId]

/-- What `parse` makes of the node, one case for each kind of criterion. -/
inductive Parsed (c : Criterion) (n : PersistNode) : PersistNode → Prop where
  | period_ms (value : UInt32) (hname : c.name = keyPullRetryPeriod_ms)
      (hvalue : c.value = .ulong value) : Parsed c n (n.addattrLong keyPullRetryPeriod_ms value)
  | overridden (hname : c.name = keyPullRetryPeriod)
      (hset : n.hasAttr keyPullRetryPeriod_ms = true) : Parsed c n n
  | period (value : UInt32) (hname : c.name = keyPullRetryPeriod)
      (hset : n.hasAttr keyPullRetryPeriod_ms = false) (hvalue : c.value = .ulong value) :
      Parsed c n (n.addattrLong keyPullRetryPeriod_ms (value * 1000))
  | size (value : UInt32) (hname : c.name ∈ sizeKeys) (hvalue : c.value = .ulong value)
      (hpos : value ≠ 0) : Parsed c n (n.addattrLong c.name value)
  | zero (hname : c.name ∈ sizeKeys) (hvalue : c.value = .ulong 0) : Parsed c n n
  | string (value : Str) (hname : c.name ∈ stringKeys) (hvalue : c.value = .string value)
      (hne : value ≠ []) : Parsed c n (.mk (OrdMap.insert c.name value n.attrs) n.children)
  | blank (hname : c.name ∈ stringKeys) (hvalue : c.value = .string []) : Parsed c n n
  | unknown (hperiod : c.name ≠ keyPullRetryPeriod_ms ∧ c.name ≠ keyPullRetryPeriod)
      (hname : c.name ∉ sizeKeys ∧ c.name ∉ stringKeys) : Parsed c n n

section Parse

variable {criteria : List Criterion} {c : Criterion} {n n' : PersistNode}

theorem parsePeriod_ok {scale : UInt32} (h : c.parsePeriod criteria scale n = .ok n') :
    ∃ value, c.value = .ulong value ∧
      n' = n.addattrLong keyPullRetryPeriod_ms (value * scale) := by
  simp only [Criterion.parsePeriod, Criterion.ulong] at h
  cases hvalue : c.value with
  | ulong value =>
      simp only [hvalue] at h
      split at h
      · cases h
      · cases h
        exact ⟨value, rfl, rfl⟩
  | string value => simp [hvalue] at h
  | other => simp [hvalue] at h

theorem parseSize_ok (hname : c.name ∈ sizeKeys) (h : c.parseSize criteria n = .ok n') :
    Parsed c n n' := by
  simp only [Criterion.parseSize, Criterion.ulong] at h
  cases hvalue : c.value with
  | ulong value =>
      simp only [hvalue] at h
      cases h
      by_cases hzero : value = 0
      · subst hzero
        exact .zero hname hvalue
      · rw [if_pos (UInt32.pos_iff_ne_zero.2 hzero)]
        exact .size value hname hvalue hzero
  | string value => simp [hvalue] at h
  | other => simp [hvalue] at h

theorem parseString_ok (hname : c.name ∈ stringKeys) (h : c.parseString criteria n = .ok n') :
    Parsed c n n' := by
  simp only [Criterion.parseString, Criterion.string] at h
  cases hvalue : c.value with
  | ulong value => simp [hvalue] at h
  | string value =>
      simp only [hvalue] at h
      cases h
      by_cases hnil : value = []
      · subst hnil
        exact .blank hname hvalue
      · have hkey : '=' ∉ c.name := (by decide : ∀ key ∈ stringKeys, '=' ∉ key) _ hname
        rw [if_neg hnil, PersistNode.addattr, splitAttr_key hkey]
        exact .string value hname hvalue hnil
  | other => simp [hvalue] at h

theorem parsed_of_parse (h : c.parse criteria n = .ok n') : Parsed c n n' := by
  unfold Criterion.parse at h
  split at h
  · next hname =>
      obtain ⟨value, hvalue, rfl⟩ := parsePeriod_ok h
      rw [UInt32.mul_one]
      exact .period_ms value hname hvalue
  next hms =>
  split at h
  · next hname =>
      split at h
      · next hset =>
          cases h
          exact .overridden hname hset
      · next hset =>
          obtain ⟨value, hvalue, rfl⟩ := parsePeriod_ok h
          exact .period value hname (Bool.eq_false_iff.2 hset) hvalue
  next hperiod =>
  split at h
  · next hname => exact parseSize_ok (by rw [hname]; decide) h
  next hqueue =>
  split at h
  · next hname => exact parseSize_ok (by rw [hname]; decide) h
  next hproxies =>
  split at h
  · next hname => exact parseSize_ok (by rw [hname]; decide) h
  next hcycle =>
  split at h
  · next hname => exact parseString_ok (by rw [hname]; decide) h
  next hins =>
  split at h
  · next hname => exact parseString_ok (by rw [hname]; decide) h
  next hfilter =>
  cases h
  refine .unknown ⟨hms, hperiod⟩ ⟨?_, ?_⟩
  · simp [sizeKeys, hqueue, hproxies, hcycle]
  · simp [stringKeys, hins, hfilter]

theorem lookup_addattrLong (n : PersistNode) (key key' : Str) (value : UInt32) :
    (n.addattrLong key value).attrs.lookup key'
      = if key' = key then some (storedText value) else n.attrs.lookup key' := by
  rw [PersistNode.addattrLong, PersistNode.attrs_mk, OrdMap.lookup_insert]
  by_cases h : key' = key
  · rw [if_pos h, if_pos h]
    rfl
  · rw [if_neg h, if_neg h]

theorem number_of_ne {key : Str} (h : c.name ≠ key) : c.number key = none := by
  unfold Criterion.number
  split
  · exact if_neg h
  · rfl

theorem number_of_eq {value : UInt32} (h : c.value = .ulong value) : c.number c.name = some value := by
  rw [Criterion.number, h]
  exact if_pos rfl

theorem size_of_ne {key : Str} (h : c.name ≠ key) : c.size key = none := by
  rw [Criterion.size, number_of_ne h]
  rfl

theorem text_of_ne {key : Str} (h : c.name ≠ key) : c.text key = none := by
  unfold Criterion.text
  split
  · exact if_neg fun hc => h hc.1
  · rfl

/-- A criterion leaves the attributes of other names, but for that of the period. -/
theorem Parsed.lookup_of_ne {key : Str} (hms : key ≠ keyPullRetryPeriod_ms) (hne : c.name ≠ key)
    (h : Parsed c n n') : n'.attrs.lookup key = n.attrs.lookup key := by
  cases h with
  | period_ms value hname hvalue => rw [lookup_addattrLong, if_neg hms]
  | overridden hname hset => rfl
  | period value hname hset hvalue => rw [lookup_addattrLong, if_neg hms]
  | size value hname hvalue hpos => rw [lookup_addattrLong, if_neg hne.symm]
  | zero hname hvalue => rfl
  | string value hname hvalue hnil =>
      rw [PersistNode.attrs_mk, OrdMap.lookup_insert, if_neg hne.symm]
  | blank hname hvalue => rfl
  | unknown hperiod hname => rfl

/-- The last size given is the one that is stored. -/
theorem Parsed.lookup_size {key : Str} (hkey : key ∈ sizeKeys) (h : Parsed c n n') :
    n'.attrs.lookup key = ((c.size key).map storedText).or (n.attrs.lookup key) := by
  obtain ⟨hms, hperiod, hstring⟩ : key ≠ keyPullRetryPeriod_ms ∧ key ≠ keyPullRetryPeriod ∧
      key ∉ stringKeys := (by decide : ∀ key ∈ sizeKeys, key ≠ keyPullRetryPeriod_ms ∧
        key ≠ keyPullRetryPeriod ∧ key ∉ stringKeys) key hkey
  by_cases hne : c.name = key
  · subst hne
    cases h with
    | period_ms value hname hvalue => exact absurd hname hms
    | overridden hname hset => exact absurd hname hperiod
    | period value hname hset hvalue => exact absurd hname hperiod
    | size value hname hvalue hpos =>
        rw [lookup_addattrLong, if_pos rfl, Criterion.size, number_of_eq hvalue, Option.filter_some,
          if_pos (by simpa using hpos)]
        rfl
    | zero hname hvalue =>
        rw [Criterion.size, number_of_eq hvalue]
        rfl
    | string value hname hvalue hnil => exact absurd hname hstring
    | blank hname hvalue => exact absurd hname hstring
    | unknown _ hname => exact absurd hkey hname.1
  · rw [h.lookup_of_ne hms hne, size_of_ne hne]
    rfl

/-- So is the last text given. -/
theorem Parsed.lookup_text {key : Str} (hkey : key ∈ stringKeys) (h : Parsed c n n') :
    n'.attrs.lookup key = (c.text key).or (n.attrs.lookup key) := by
  obtain ⟨hms, hperiod, hsize⟩ : key ≠ keyPullRetryPeriod_ms ∧ key ≠ keyPullRetryPeriod ∧
      key ∉ sizeKeys := (by decide : ∀ key ∈ stringKeys, key ≠ keyPullRetryPeriod_ms ∧
        key ≠ keyPullRetryPeriod ∧ key ∉ sizeKeys) key hkey
  by_cases hne : c.name = key
  · subst hne
    cases h with
    | period_ms value hname hvalue => exact absurd hname hms
    | overridden hname hset => exact absurd hname hperiod
    | period value hname hset hvalue => exact absurd hname hperiod
    | size value hname hvalue hpos => exact absurd hname hsize
    | zero hname hvalue => exact absurd hname hsize
    | string value hname hvalue hnil =>
        rw [PersistNode.attrs_mk, OrdMap.lookup_insert, if_pos rfl, Criterion.text, hvalue]
        simp only [hnil, ne_eq, not_false_eq_true, and_self, if_true]
        rfl
    | blank hname hvalue =>
        rw [Criterion.text, hvalue]
        simp only [ne_eq, not_true_eq_false, and_false, if_false]
        rfl
    | unknown _ hname => exact absurd hkey hname.2
  · rw [h.lookup_of_ne hms hne, text_of_ne hne]
    rfl

/-- The deprecated period counts only where there is none yet. -/
theorem Parsed.lookup_period (h : Parsed c n n') :
    n'.attrs.lookup keyPullRetryPeriod_ms
      = ((c.number keyPullRetryPeriod_ms).map storedText).or
          ((n.attrs.lookup keyPullRetryPeriod_ms).or
            ((c.number keyPullRetryPeriod).map fun value => storedText (value * 1000))) := by
  have hother : ∀ key ∈ sizeKeys ++ stringKeys, key ≠ keyPullRetryPeriod_ms ∧
      key ≠ keyPullRetryPeriod := by decide
  have hnames : keyPullRetryPeriod ≠ keyPullRetryPeriod_ms := by decide
  have hnone : ∀ {x : Option Str}, c.name ≠ keyPullRetryPeriod_ms ∧ c.name ≠ keyPullRetryPeriod →
      ((c.number keyPullRetryPeriod_ms).map storedText).or
        (x.or ((c.number keyPullRetryPeriod).map fun value => storedText (value * 1000))) = x := by
    intro x hname
    rw [number_of_ne hname.1, number_of_ne hname.2]
    exact Option.or_none
  cases h with
  | period_ms value hname hvalue =>
      have hnumber := number_of_eq hvalue
      rw [hname] at hnumber
      rw [lookup_addattrLong, if_pos rfl, hnumber]
      rfl
  | overridden hname hset =>
      obtain ⟨v, hv⟩ := Option.isSome_iff_exists.1 hset
      rw [number_of_ne (by rw [hname]; exact hnames), hv]
      rfl
  | period value hname hset hvalue =>
      have hnumber := number_of_eq hvalue
      rw [hname] at hnumber
      have hlookup : n.attrs.lookup keyPullRetryPeriod_ms = none := by
        rw [hasAttr] at hset
        exact Option.not_isSome_iff_eq_none.1 (Bool.eq_false_iff.1 hset)
      rw [lookup_addattrLong, if_pos rfl, number_of_ne (by rw [hname]; exact hnames), hnumber,
        hlookup]
      rfl
  | size value hname hvalue hpos =>
      have hc := hother _ (List.mem_append_left _ hname)
      rw [lookup_addattrLong, if_neg hc.1.symm, hnone hc]
  | zero hname hvalue => rw [hnone (hother _ (List.mem_append_left _ hname))]
  | string value hname hvalue hne =>
      have hc := hother _ (List.mem_append_right _ hname)
      rw [PersistNode.attrs_mk, OrdMap.lookup_insert, if_neg hc.1.symm, hnone hc]
  | blank hname hvalue => rw [hnone (hother _ (List.mem_append_right _ hname))]
  | unknown hperiod hname => rw [hnone hperiod]

end Parse

/-! ## All criteria -/

theorem lastOf_cons {α : Type} (f : Criterion → Option α) (c : Criterion) (cs : List Criterion) :
    lastOf f (c :: cs) = (lastOf f cs).or (f c) := by
  rw [lastOf, lastOf, List.filterMap_cons]
  cases f c with
  | none => rw [Option.or_none]
  | some v =>
      simp only [List.getLast?_cons]
      cases (cs.filterMap f).getLast? with
      | none => rfl
      | some w => rfl

theorem firstOf_cons {α : Type} (f : Criterion → Option α) (c : Criterion) (cs : List Criterion) :
    firstOf f (c :: cs) = (f c).or (firstOf f cs) := by
  rw [firstOf, firstOf, List.filterMap_cons]
  cases f c with
  | none => rfl
  | some v => rfl

theorem map_or {α β : Type} (f : α → β) (x y : Option α) : (x.or y).map f = (x.map f).or (y.map f) := by
  cases x with
  | none => rfl
  | some v => rfl

/-- What is stored when all criteria have been read. -/
structure Stored (criteria : List Criterion) (n : PersistNode) : Prop where
  size : ∀ key ∈ sizeKeys,
    n.attrs.lookup key = (lastOf (Criterion.size key) criteria).map storedText
  text : ∀ key ∈ stringKeys, n.attrs.lookup key = lastOf (Criterion.text key) criteria
  period : n.attrs.lookup keyPullRetryPeriod_ms
    = ((lastOf (Criterion.number keyPullRetryPeriod_ms) criteria).map storedText).or
        ((firstOf (Criterion.number keyPullRetryPeriod) criteria).map
          fun value => storedText (value * 1000))

/-- The loop, from any node on. -/
theorem stored_loop {criteria cs : List Criterion} {m n : PersistNode}
    (h : cs.foldlM (Criterion.parse criteria) m = .ok n) :
    (∀ key ∈ sizeKeys, n.attrs.lookup key
      = ((lastOf (Criterion.size key) cs).map storedText).or (m.attrs.lookup key)) ∧
    (∀ key ∈ stringKeys, n.attrs.lookup key
      = (lastOf (Criterion.text key) cs).or (m.attrs.lookup key)) ∧
    n.attrs.lookup keyPullRetryPeriod_ms
      = ((lastOf (Criterion.number keyPullRetryPeriod_ms) cs).map storedText).or
          ((m.attrs.lookup keyPullRetryPeriod_ms).or
            ((firstOf (Criterion.number keyPullRetryPeriod) cs).map
              fun value => storedText (value * 1000))) := by
  induction cs generalizing m with
  | nil =>
      cases h
      exact ⟨fun _ _ => rfl, fun _ _ => rfl, Option.or_none.symm⟩
  | cons c cs ih =>
      rw [List.foldlM_cons] at h
      cases hc : Criterion.parse criteria m c with
      | error ex =>
          rw [hc] at h
          cases h
      | ok m' =>
          rw [hc] at h
          obtain ⟨hsize, htext, hperiod⟩ := ih h
          have hparsed := parsed_of_parse hc
          refine ⟨?_, ?_, ?_⟩
          · intro key hkey
            rw [hsize key hkey, hparsed.lookup_size hkey, lastOf_cons, map_or, Option.or_assoc]
          · intro key hkey
            rw [htext key hkey, hparsed.lookup_text hkey, lastOf_cons, Option.or_assoc]
          · rw [hperiod, hparsed.lookup_period, lastOf_cons, firstOf_cons, map_or, map_or,
              Option.or_assoc, Option.or_assoc, Option.or_assoc]

theorem stored_of_parseCriteria {criteria : List Criterion} {n : PersistNode}
    (h : parseCriteria criteria = .ok n) : Stored criteria n := by
  obtain ⟨hsize, htext, hperiod⟩ := stored_loop h
  have hempty : ∀ key, PersistNode.empty.attrs.lookup key = none := fun _ => rfl
  refine ⟨?_, ?_, ?_⟩
  · intro key hkey
    rw [hsize key hkey, hempty, Option.or_none]
  · intro key hkey
    rw [htext key hkey, hempty, Option.or_none]
  · rw [hperiod, hempty, Option.none_or]

/-! ## In memory

The accessors return what was asked for if the numbers fit the types that they come through. -/

/-- The numbers that come through. -/
structure Representable (criteria : List Criterion) : Prop where
  cyclePeriod_ns : ∀ value, lastOf (Criterion.size keyCyclePeriod_ns) criteria = some value →
    value.toNat < 2 ^ 31
  pullRetryPeriod : lastOf (Criterion.number keyPullRetryPeriod_ms) criteria = none →
    ∀ value, firstOf (Criterion.number keyPullRetryPeriod) criteria = some value →
      value.toNat * 1000 < 2 ^ 32

variable {criteria : List Criterion} {n : PersistNode}

/-- A `CORBA::ULong` size, of which the whole range comes through. -/
theorem toNat_size (hn : Stored criteria n) {key : Str} (hkey : key ∈ sizeKeys) {fallback : ℕ}
    (hfallback : fallback < 2 ^ 32) :
    (UInt32.ofInt (n.attrLong key fallback)).toNat = askedSize key fallback criteria := by
  rw [attrLong_of_lookup (hn.size key hkey), askedSize]
  cases lastOf (Criterion.size key) criteria with
  | none =>
      simp only [Option.map_none, Option.getD_none]
      rw [toNat_ofInt_uint32]
      omega
  | some value =>
      simp only [Option.map_some, Option.getD_some]
      rw [ofInt_storedText]

theorem cyclePeriod_ns_iff (hn : Stored criteria n) :
    n.cyclePeriod_ns.toNat = askedSize keyCyclePeriod_ns 100000000 criteria ↔
      ∀ value, lastOf (Criterion.size keyCyclePeriod_ns) criteria = some value →
        value.toNat < 2 ^ 31 := by
  rw [PersistNode.cyclePeriod_ns, attrLong_of_lookup (hn.size _ (by decide)), askedSize]
  cases lastOf (Criterion.size keyCyclePeriod_ns) criteria with
  | none => exact iff_of_true rfl nofun
  | some value =>
      simp only [Option.map_some, Option.getD_some]
      rw [ofInt64_storedText_iff]
      exact ⟨fun h _ hvalue => Option.some.inj hvalue ▸ h, fun h => h value rfl⟩

theorem pullRetryPeriod_ms_iff (hn : Stored criteria n) :
    n.pullRetryPeriod_ms.toNat = askedPeriod criteria ↔
      (lastOf (Criterion.number keyPullRetryPeriod_ms) criteria = none →
        ∀ value, firstOf (Criterion.number keyPullRetryPeriod) criteria = some value →
          value.toNat * 1000 < 2 ^ 32) := by
  have hlookup := hn.period
  rw [PersistNode.pullRetryPeriod_ms, askedPeriod]
  cases hms : lastOf (Criterion.number keyPullRetryPeriod_ms) criteria with
  | some value =>
      rw [hms] at hlookup
      have hstored : n.attrs.lookup keyPullRetryPeriod_ms = (some value).map storedText := hlookup
      rw [attrLong_of_lookup hstored]
      simp only [Option.map_some, Option.getD_some]
      rw [ofInt_storedText]
      exact iff_of_true rfl nofun
  | none =>
      rw [hms] at hlookup
      cases hfirst : firstOf (Criterion.number keyPullRetryPeriod) criteria with
      | none =>
          rw [hfirst] at hlookup
          have hstored : n.attrs.lookup keyPullRetryPeriod_ms
              = (none : Option UInt32).map storedText := hlookup
          rw [attrLong_of_lookup hstored]
          exact iff_of_true rfl nofun
      | some value =>
          rw [hfirst] at hlookup
          have hstored : n.attrs.lookup keyPullRetryPeriod_ms
              = (some (value * 1000)).map storedText := hlookup
          have hvalue := value.toNat_lt
          have hproduct : (value * 1000).toNat = value.toNat * 1000 % 2 ^ 32 := UInt32.toNat_mul _ _
          rw [attrLong_of_lookup hstored]
          simp only [Option.map_some, Option.getD_some, Option.some.injEq, forall_eq',
            true_imp_iff]
          rw [ofInt_storedText, hproduct]
          omega

/-- The channel has what was asked for exactly if the numbers come through. -/
theorem takesEffect_iff (h : parseCriteria criteria = .ok n) :
    TakesEffect criteria n ↔ Representable criteria := by
  have hn := stored_of_parseCriteria h
  constructor
  · intro heffect
    exact ⟨(cyclePeriod_ns_iff hn).1 heffect.cyclePeriod_ns,
      (pullRetryPeriod_ms_iff hn).1 heffect.pullRetryPeriod_ms⟩
  · intro hrepresentable
    exact ⟨toNat_size hn (by decide) (by decide), toNat_size hn (by decide) (by decide),
      (cyclePeriod_ns_iff hn).2 hrepresentable.cyclePeriod_ns,
      (pullRetryPeriod_ms_iff hn).2 hrepresentable.pullRetryPeriod⟩

/-! ## After the log

A restart reads the properties from the log. They are the same if the two strings have no white
space, since everything else is made of digits. -/

/-- The channel that a node of criteria makes. -/
def EventChannel.ofCriteria (n : PersistNode) (uniqueId : Str) : EventChannel Ref :=
  .fresh (channelId n uniqueId) n.attrs

/-- All accessors return the same. -/
structure SameValues (m n : PersistNode) : Prop where
  maxQueueLength : m.maxQueueLength = n.maxQueueLength
  maxNumProxies : m.maxNumProxies = n.maxNumProxies
  cyclePeriod_ns : m.cyclePeriod_ns = n.cyclePeriod_ns
  pullRetryPeriod_ms : m.pullRetryPeriod_ms = n.pullRetryPeriod_ms

/-- What `output` appends to the log is parsed as a node of the channel with the same values. -/
def ReadBack (orb : Orb Ref) (log : Str) (c : EventChannel Ref) (n : PersistNode) : Prop :=
  ∃ m, (PersistNode.parse (log ++ c.outputText orb)).find [ecf, c.name] = some m ∧ SameValues m n

/-- The name of the client, if there is one, can stand in a path. -/
def CleanInsName (criteria : List Criterion) : Prop :=
  ∀ v, lastOf (Criterion.text keyInsName) criteria = some v → CleanName v

/-- The repository id has no white space, which would end the attribute in the log. -/
def CleanFilterId (criteria : List Criterion) : Prop :=
  ∀ v, lastOf (Criterion.text keyFilterId) criteria = some v → ∀ ch ∈ v, isSpace ch = false

theorem channelId_eq (hn : Stored criteria n) (uniqueId : Str) :
    channelId n uniqueId = (lastOf (Criterion.text keyInsName) criteria).getD uniqueId := by
  rw [channelId, hasAttr, attrString, hn.text keyInsName (by decide)]
  cases lastOf (Criterion.text keyInsName) criteria with
  | none => rfl
  | some v => rfl

theorem cleanInsName_iff (hn : Stored criteria n) {uniqueId : Str} (hid : CleanName uniqueId) :
    CleanName (channelId n uniqueId) ↔ CleanInsName criteria := by
  rw [channelId_eq hn, CleanInsName]
  cases lastOf (Criterion.text keyInsName) criteria with
  | none => exact iff_of_true hid nofun
  | some v => exact ⟨fun h _ hv => Option.some.inj hv ▸ h, fun h => h v rfl⟩

theorem cleanName_of_readBack {orb : Orb Ref} {log : Str} {c : EventChannel Ref}
    (h : ReadBack orb log c n) : CleanName c.name := by
  obtain ⟨m, hfind, -⟩ := h
  obtain ⟨hnames, -⟩ := PersistNode.cleanTree_parse (log ++ c.outputText orb) [ecf, c.name] m.attrs
    (PersistNode.attrsAt_of_find hfind)
  exact hnames c.name (by simp)

theorem readBack_of_clean {uniqueId : Str} (h : parseCriteria criteria = .ok n)
    (hid : uniqueId ≠ []) (hname : CleanName (channelId n uniqueId))
    (hfilter : CleanFilterId criteria) (orb : Orb Ref) {entries : List LogEntry} {log : Str}
    (hlog : CompleteLog entries log) : ReadBack orb log (.ofCriteria n uniqueId) n := by
  have hc : Created (EventChannel.ofCriteria n uniqueId : EventChannel Ref) :=
    created_of_parseCriteria hid h
  have hattrs := hc.cleanAttrs hname fun v hv => by
    refine hfilter v ?_
    rw [← (stored_of_parseCriteria h).text keyFilterId (by decide)]
    exact hc.sorted.mem_iff_lookup.1 hv
  exact ⟨_, hc.find_outputText hname hattrs orb hlog, rfl, rfl, rfl, rfl⟩

/-- **What is asked for takes effect** in the new channel if and only if the numbers come through: a
    `CyclePeriod_ns` below 2³¹, and a `PullRetryPeriod` that counts, times 1000, below 2³². After the
    log the values are the same if the name is clean, and only then, at least if the `FilterId` has no
    white space. -/
theorem criteria_take_effect (h : parseCriteria criteria = .ok n) (orb : Orb Ref)
    (count mypid sec : ℕ) {entries : List LogEntry} {log : Str} (hlog : CompleteLog entries log) :
    (TakesEffect criteria n ↔ Representable criteria) ∧
    (TakesEffect criteria n ∧ ReadBack orb log (.ofCriteria n (newUniqueId count mypid sec)) n →
      Representable criteria ∧ CleanInsName criteria) ∧
    (CleanFilterId criteria →
      (TakesEffect criteria n ∧ ReadBack orb log (.ofCriteria n (newUniqueId count mypid sec)) n ↔
        Representable criteria ∧ CleanInsName criteria)) := by
  have hn := stored_of_parseCriteria h
  have hclean := cleanInsName_iff hn (cleanName_newUniqueId count mypid sec)
  have honly : TakesEffect criteria n ∧
      ReadBack orb log (.ofCriteria n (newUniqueId count mypid sec)) n →
        Representable criteria ∧ CleanInsName criteria := by
    rintro ⟨heffect, hback⟩
    exact ⟨(takesEffect_iff h).1 heffect, hclean.1 (cleanName_of_readBack hback)⟩
  refine ⟨takesEffect_iff h, honly, fun hfilter => ⟨honly, ?_⟩⟩
  rintro ⟨hrepresentable, hname⟩
  exact ⟨(takesEffect_iff h).2 hrepresentable,
    readBack_of_clean h (by simp [newUniqueId]) (hclean.2 hname) hfilter orb hlog⟩

/-- Both periods in their ranges, and a repeated criterion. -/
def plainCriteria : List Criterion :=
  [⟨keyPullRetryPeriod, .ulong 4294967⟩, ⟨keyMaxQueueLength, .ulong 4294967295⟩,
    ⟨keyMaxQueueLength, .ulong 0⟩, ⟨keyCyclePeriod_ns, .ulong 2147483647⟩, ⟨keyInsName, .string ['a']⟩]

theorem criteria_take_effect_plain :
    ∃ n, parseCriteria plainCriteria = .ok n ∧ TakesEffect plainCriteria n ∧
      ReadBack stringOrb LogEntry.factoryLog (.ofCriteria n (newUniqueId 1 1 1)) n := by
  obtain ⟨n, hn⟩ : ∃ n, parseCriteria plainCriteria = .ok n := ⟨_, rfl⟩
  have hfilter : CleanFilterId plainCriteria := nofun
  have hname : CleanInsName plainCriteria := by
    intro v hv
    obtain rfl : ['a'] = v := Option.some.inj hv
    exact (by decide : ∀ ch ∈ ['a'], ch ≠ '/' ∧ isSpace ch = false)
  have hperiod : lastOf (Criterion.size keyCyclePeriod_ns) plainCriteria = some 2147483647 := by
    decide
  have hfirst : firstOf (Criterion.number keyPullRetryPeriod) plainCriteria = some 4294967 := by
    decide
  have hrepresentable : Representable plainCriteria := by
    constructor
    · intro value hvalue
      rw [hperiod] at hvalue
      obtain rfl := Option.some.inj hvalue
      decide
    · intro _ value hvalue
      rw [hfirst] at hvalue
      obtain rfl := Option.some.inj hvalue
      decide
  exact ⟨n, hn, ((criteria_take_effect hn stringOrb 1 1 1 LogEntry.completeLog_factoryLog).2.2
    hfilter).2 ⟨hrepresentable, hname⟩⟩

/-- A cycle of three seconds becomes one of centuries, and a retry period of 4294968 seconds one of
    704 milliseconds. -/
theorem large_values :
    (∃ n, parseCriteria [⟨keyCyclePeriod_ns, .ulong 3000000000⟩] = .ok n ∧
      n.cyclePeriod_ns = 18446744072414584320) ∧
    (∃ n, parseCriteria [⟨keyPullRetryPeriod, .ulong 4294968⟩] = .ok n ∧
      n.pullRetryPeriod_ms = 704) ∧
    ¬ ∀ criteria n, parseCriteria criteria = .ok n → TakesEffect criteria n := by
  have hcycle : ∃ n, parseCriteria [⟨keyCyclePeriod_ns, .ulong 3000000000⟩] = .ok n ∧
      n.cyclePeriod_ns = 18446744072414584320 := ⟨_, rfl, by decide⟩
  refine ⟨hcycle, ⟨_, rfl, by decide⟩, ?_⟩
  intro hall
  obtain ⟨n, hn, -⟩ := hcycle
  have hlt := ((takesEffect_iff hn).1 (hall _ n hn)).cyclePeriod_ns 3000000000 (by decide)
  exact absurd hlt (by decide)

end OmniEvents
