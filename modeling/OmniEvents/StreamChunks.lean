import OmniEvents.Streamer

set_option autoImplicit false

/-! # A recording cut into reads

However the recording is cut, either every read has whole records only, each of which is aligned where
it stands in its read, or there is a first record that is not aligned or that the read ends before
(`reads_cases`). In the first case `supply` is the replay of the events (`supply_intact`). In the
other it replays the events up to that record, and what it pushes next, if anything, is what the bytes
there happen to read as (`supply_upTo`). -/

namespace OmniEvents.Events

open Attempt Cdr

variable {β Any : Type} {orb : Marshalling β Any} {clock : ℕ → Time}

/-! ## Whole records -/

@[simp] theorem recorded_nil : recorded orb [] = [] := rfl

@[simp] theorem recorded_cons (e : Event β Any) (events : List (Event β Any)) :
    recorded orb (e :: events) = push orb e ++ recorded orb events := rfl

variable (orb) in
/-- The records stand one after the other from `o` on, each of them aligned. -/
def AlignedFrom : ℕ → List (Event β Any) → Prop
  | _, [] => True
  | o, e :: events => Aligned o (e.prims orb) ∧ AlignedFrom (o + (push orb e).length) events

instance decidableAlignedFrom (o : ℕ) (events : List (Event β Any)) :
    Decidable (AlignedFrom orb o events) :=
  match events with
  | [] => isTrue trivial
  | e :: events =>
      have := decidableAlignedFrom (o + (push orb e).length) events
      inferInstanceAs (Decidable (Aligned o (e.prims orb) ∧ _))

theorem following_replay_append (events events' : List (Event β Any)) (s : Supplying Any)
    (k : Supplying Any → Option (Outcome Any)) :
    following (replay clock (events ++ events') s) k
      = following (replay clock events s) fun s => following (replay clock events' s) k := by
  rw [replay, List.map_append]
  exact following_exec_append _ _ s k

theorem supplyBuffer_nil {rounds o : ℕ} (h : 0 < rounds) (s : Supplying Any) :
    supplyBuffer orb clock rounds ⟨o, []⟩ s = some (s, none) := by
  obtain ⟨rounds, rfl⟩ := Nat.exists_eq_succ_of_ne_zero (Nat.ne_of_gt h)
  rfl

/-- Aligned records at the front of a buffer are replayed. -/
theorem supplyBuffer_records (clock : ℕ → Time) (events : List (Event β Any)) {o rounds : ℕ}
    {tail : List β} (halign : AlignedFrom orb o events)
    (hrounds : (recorded orb events ++ tail).length < rounds) :
    ∃ rounds', tail.length < rounds' ∧ ∀ s,
      supplyBuffer orb clock rounds ⟨o, recorded orb events ++ tail⟩ s
        = following (replay clock events s)
            (supplyBuffer orb clock rounds' ⟨o + (recorded orb events).length, tail⟩) := by
  induction events generalizing o rounds with
  | nil => exact ⟨rounds, hrounds, fun s => rfl⟩
  | cons e events ih =>
      obtain ⟨he, hevents⟩ := halign
      have hpos := List.length_pos_iff.2 (push_ne_nil orb e)
      rw [recorded_cons, List.append_assoc] at hrounds ⊢
      rw [List.length_append] at hrounds
      obtain ⟨rounds, rfl⟩ :=
        Nat.exists_eq_succ_of_ne_zero (Nat.ne_of_gt (Nat.zero_lt_of_lt hrounds))
      have hne : (push orb e ++ (recorded orb events ++ tail)).isEmpty = false := by
        rw [List.isEmpty_eq_false_iff, Ne, List.append_eq_nil_iff]
        exact fun h => push_ne_nil orb e h.1
      have hleft : (recorded orb events ++ tail).length < rounds := by omega
      obtain ⟨rounds', htail, hbuffer⟩ := ih hevents hleft
      refine ⟨rounds', htail, ?_⟩
      intro s
      rw [supplyBuffer, hne, if_neg Bool.false_ne_true, run_push he]
      simp only
      cases hdeliver : deliver clock e.now e.data s with
      | error ex =>
          have hreplay : replay clock (e :: events) s = (s, some ex) :=
            Attempt.exec_cons_of_error hdeliver
          rw [hreplay]
          rfl
      | ok s' =>
          have hreplay : replay clock (e :: events) s = replay clock events s' :=
            Attempt.exec_cons_of_ok hdeliver
          rw [hreplay, List.length_append, ← Nat.add_assoc]
          exact hbuffer s'

theorem supply_cons {buf : List β} (hbuf : buf ≠ []) (reads : List (List β)) (s : Supplying Any) :
    supply orb clock (buf :: reads) s
      = (supplyBuffer orb clock (buf.length + 1) ⟨0, buf⟩ s).bind
          fun r => following r (supply orb clock reads) := by
  rw [supply, if_neg (by rw [List.isEmpty_iff]; exact hbuf)]
  cases supplyBuffer orb clock (buf.length + 1) ⟨0, buf⟩ s with
  | none => rfl
  | some r =>
      obtain ⟨s', raised⟩ := r
      cases raised with
      | none => rfl
      | some ex => rfl

/-- Reads of whole aligned records are replayed, one read after the other. -/
theorem supply_groups (clock : ℕ → Time) (groups : List (List (Event β Any)))
    (reads : List (List β))
    (halign : ∀ g ∈ groups, AlignedFrom orb 0 g) (hne : ∀ g ∈ groups, recorded orb g ≠ [])
    (s : Supplying Any) :
    supply orb clock (groups.map (recorded orb) ++ reads) s
      = following (replay clock groups.flatten s) (supply orb clock reads) := by
  induction groups generalizing s with
  | nil => rfl
  | cons g groups ih =>
      obtain ⟨hg, hgroups⟩ := List.forall_mem_cons.1 halign
      obtain ⟨hgne, hgroupsne⟩ := List.forall_mem_cons.1 hne
      obtain ⟨rounds, hrounds, hbuffer⟩ := supplyBuffer_records clock g hg
        (Nat.lt_succ_self (recorded orb g ++ []).length)
      rw [List.append_nil] at hbuffer
      rw [List.map_cons, List.cons_append, supply_cons hgne, hbuffer, following_bind,
        List.flatten_cons, following_replay_append]
      congr 1
      funext s'
      rw [supplyBuffer_nil hrounds]
      exact ih hgroups hgroupsne s'

/-! ## How a recording is cut

A call of `read` may give several records, or a part of one. A record that is cut is lost, unless
the parts happen to make sense. -/

variable (orb) in
/-- What the calls of `read` give of a recording. -/
structure Reads (events : List (Event β Any)) (reads : List (List β)) : Prop where
  recorded : reads.flatten = recorded orb events
  nonempty : ∀ buf ∈ reads, buf ≠ []
  length_le : ∀ buf ∈ reads, buf.length ≤ 1024

variable (orb) in
/-- Every read has whole records only, aligned where they stand in it. -/
def Intact (events : List (Event β Any)) (reads : List (List β)) : Prop :=
  ∃ groups : List (List (Event β Any)), groups.flatten = events ∧
    groups.map (recorded orb) = reads ∧ ∀ g ∈ groups, AlignedFrom orb 0 g

variable (orb) in
/-- All is well up to the record of `e`: reads with the records of `groups` come first, then one that
    has those of `g` and then `tail`. -/
structure UpTo (groups : List (List (Event β Any))) (g : List (Event β Any)) (e : Event β Any)
    (tail : List β) (events : List (Event β Any)) (reads : List (List β)) : Prop where
  events_eq : ∃ post, events = groups.flatten ++ (g ++ e :: post)
  reads_eq : ∃ later, reads = groups.map (recorded orb) ++ (recorded orb g ++ tail) :: later
  tail_ne : tail ≠ []
  groups_aligned : ∀ g ∈ groups, AlignedFrom orb 0 g
  aligned : AlignedFrom orb 0 g

variable (orb) in
/-- The first record that is not aligned where it begins reads as its own `Any` all the same. -/
def ByChance (events : List (Event β Any)) (reads : List (List β)) : Prop :=
  ∃ groups g e tail, UpTo orb groups g e tail events reads ∧
    ¬Aligned (recorded orb g).length (e.prims orb) ∧
    ∃ eventTime memstr,
      (eventParser orb).run ⟨(recorded orb g).length, tail⟩ = some ((eventTime, e.data), memstr)

theorem UpTo.cons {groups : List (List (Event β Any))} {g : List (Event β Any)} {e : Event β Any}
    {tail : List β} {events : List (Event β Any)} {reads : List (List β)}
    (h : UpTo orb groups g e tail events reads) {first : List (Event β Any)}
    (hfirst : AlignedFrom orb 0 first) :
    UpTo orb (first :: groups) g e tail (first ++ events) (recorded orb first :: reads) := by
  obtain ⟨post, hevents⟩ := h.events_eq
  obtain ⟨later, hreads⟩ := h.reads_eq
  exact
    { events_eq := ⟨post, by rw [hevents, List.flatten_cons, List.append_assoc]⟩
      reads_eq := ⟨later, by rw [hreads, List.map_cons, List.cons_append]⟩
      tail_ne := h.tail_ne
      groups_aligned := List.forall_mem_cons.2 ⟨hfirst, h.groups_aligned⟩
      aligned := h.aligned }

/-- The aligned records at the front of a read, and why there are no more. -/
theorem buffer_cases (events : List (Event β Any)) (o : ℕ) {buf rest : List β}
    (h : buf ++ rest = recorded orb events) :
    ∃ g events' tail, events = g ++ events' ∧ buf = recorded orb g ++ tail ∧
      AlignedFrom orb o g ∧
      (tail = [] ∧ rest = recorded orb events' ∨
        tail ≠ [] ∧ ∃ e post, events' = e :: post ∧
          (¬Aligned (o + (recorded orb g).length) (e.prims orb) ∨
            (eventParser orb).run ⟨o + (recorded orb g).length, tail⟩ = none)) := by
  induction events generalizing o buf with
  | nil =>
      obtain ⟨rfl, rfl⟩ := List.append_eq_nil_iff.1 h
      exact ⟨[], [], [], rfl, rfl, trivial, .inl ⟨rfl, rfl⟩⟩
  | cons e events ih =>
      by_cases hbuf : buf = []
      · subst hbuf
        exact ⟨[], e :: events, [], rfl, rfl, trivial, .inl ⟨rfl, h⟩⟩
      by_cases halign : Aligned o (e.prims orb)
      · have hbufs : buf <+: recorded orb (e :: events) := ⟨rest, h⟩
        have hpush : push orb e <+: recorded orb (e :: events) := ⟨recorded orb events, rfl⟩
        by_cases hle : (push orb e).length ≤ buf.length
        · obtain ⟨buf', rfl⟩ := List.prefix_of_prefix_length_le hpush hbufs hle
          rw [List.append_assoc, recorded_cons, List.append_cancel_left_eq] at h
          obtain ⟨g, events', tail, rfl, rfl, hg, hcases⟩ := ih (o + (push orb e).length) h
          refine ⟨e :: g, events', tail, rfl, ?_, ⟨halign, hg⟩, ?_⟩
          · rw [recorded_cons, List.append_assoc]
          · rw [recorded_cons, List.length_append, ← Nat.add_assoc]
            exact hcases
        · have hlt := Nat.lt_of_not_le hle
          have hcut := List.prefix_iff_eq_take.1
            (List.prefix_of_prefix_length_le hbufs hpush hlt.le)
          have hnone := run_cut halign hlt
          rw [← hcut] at hnone
          exact ⟨[], e :: events, buf, rfl, rfl, trivial,
            .inr ⟨hbuf, e, events, rfl, .inr hnone⟩⟩
      · exact ⟨[], e :: events, buf, rfl, rfl, trivial,
          .inr ⟨hbuf, e, events, rfl, .inl halign⟩⟩

theorem recorded_eq_nil {events : List (Event β Any)} (h : recorded orb events = []) :
    events = [] := by
  cases events with
  | nil => rfl
  | cons e events => exact absurd (List.append_eq_nil_iff.1 h).1 (push_ne_nil orb e)

/-- There is a first record that is not aligned or not whole, or none. -/
theorem reads_cases {events : List (Event β Any)} {reads : List (List β)}
    (h : reads.flatten = recorded orb events) (hne : ∀ buf ∈ reads, buf ≠ []) :
    Intact orb events reads ∨
      ∃ groups g e tail, UpTo orb groups g e tail events reads ∧
        (¬Aligned (recorded orb g).length (e.prims orb) ∨
          (eventParser orb).run ⟨(recorded orb g).length, tail⟩ = none) := by
  induction reads generalizing events with
  | nil =>
      refine .inl ⟨[], (recorded_eq_nil h.symm).symm, rfl, ?_⟩
      exact fun g hg => absurd hg List.not_mem_nil
  | cons buf reads ih =>
      obtain ⟨hbuf, hreads⟩ := List.forall_mem_cons.1 hne
      rw [List.flatten_cons] at h
      obtain ⟨g, events', tail, rfl, rfl, hg, hcases⟩ := buffer_cases events 0 h
      rcases hcases with ⟨rfl, hrest⟩ | ⟨htail, e, post, rfl, hbad⟩
      · rw [List.append_nil]
        rcases ih hrest hreads with ⟨groups, rfl, rfl, halign⟩ | ⟨groups, g', e, tail, hupTo, hbad⟩
        · exact .inl ⟨g :: groups, rfl, rfl, List.forall_mem_cons.2 ⟨hg, halign⟩⟩
        · exact .inr ⟨g :: groups, g', e, tail, hupTo.cons hg, hbad⟩
      · rw [Nat.zero_add] at hbad
        refine .inr ⟨[], g, e, tail, ?_, hbad⟩
        exact
          { events_eq := ⟨post, rfl⟩
            reads_eq := ⟨reads, rfl⟩
            tail_ne := htail
            groups_aligned := fun g hg => absurd hg List.not_mem_nil
            aligned := hg }

/-! ## What is supplied of it -/

theorem supplyBuffer_total (orb : Marshalling β Any) (clock : ℕ → Time) (rounds : ℕ)
    (memstr : Input β) (h : memstr.rest.length < rounds) (s : Supplying Any) :
    ∃ out, supplyBuffer orb clock rounds memstr s = some out := by
  induction rounds generalizing memstr s with
  | zero => exact absurd h (Nat.not_lt_zero _)
  | succ rounds ih =>
      rw [supplyBuffer]
      split
      · exact ⟨_, rfl⟩
      · cases hrun : (eventParser orb).run memstr with
        | none => exact ⟨_, rfl⟩
        | some result =>
            obtain ⟨⟨eventTime, any⟩, memstr'⟩ := result
            simp only
            cases deliver clock eventTime any s with
            | error ex => exact ⟨_, rfl⟩
            | ok s' =>
                have hless := run_lt hrun
                exact ih memstr' (by omega) s'

/-- `supply` ends, whatever it reads. -/
theorem supply_total (orb : Marshalling β Any) (clock : ℕ → Time) (reads : List (List β))
    (s : Supplying Any) :
    ∃ out, supply orb clock reads s = some out := by
  induction reads generalizing s with
  | nil => exact ⟨_, rfl⟩
  | cons buf reads ih =>
      by_cases hbuf : buf = []
      · subst hbuf
        exact ⟨_, rfl⟩
      · obtain ⟨⟨s', raised⟩, hout⟩ :=
          supplyBuffer_total orb clock (buf.length + 1) ⟨0, buf⟩ (Nat.lt_succ_self _) s
        rw [supply_cons hbuf, hout]
        cases raised with
        | none => exact ih s'
        | some ex => exact ⟨_, rfl⟩

theorem supply_intact {events : List (Event β Any)} {reads : List (List β)}
    (hne : ∀ buf ∈ reads, buf ≠ []) (h : Intact orb events reads) (s : Supplying Any) :
    supply orb clock reads s = some (replay clock events s) := by
  obtain ⟨groups, rfl, rfl, halign⟩ := h
  have hgroups : ∀ g ∈ groups, recorded orb g ≠ [] :=
    fun g hg => hne _ (List.mem_map_of_mem hg)
  have hsupply := supply_groups clock groups [] halign hgroups s
  rw [List.append_nil] at hsupply
  rw [hsupply]
  obtain ⟨s', raised⟩ := replay clock groups.flatten s
  cases raised with
  | none => rfl
  | some ex => rfl

/-- What a round does: it ends the loop and leaves all as it is, or pushes what it reads. -/
theorem supplyBuffer_round {rounds : ℕ} {memstr : Input β} {s : Supplying Any} {out : Outcome Any}
    (hrest : memstr.rest ≠ []) (h : supplyBuffer orb clock (rounds + 1) memstr s = some out) :
    out.1 = s ∧ out.2 ≠ none ∨
      ∃ eventTime any memstr' s',
        (eventParser orb).run memstr = some ((eventTime, any), memstr') ∧
        s'.anys = s.anys ++ [any] ∧ supplyBuffer orb clock rounds memstr' s' = some out := by
  rw [supplyBuffer, if_neg (by rw [List.isEmpty_iff]; exact hrest)] at h
  cases hrun : (eventParser orb).run memstr with
  | none =>
      rw [hrun] at h
      obtain rfl := Option.some.inj h
      exact .inl ⟨rfl, Option.some_ne_none _⟩
  | some result =>
      obtain ⟨⟨eventTime, any⟩, memstr'⟩ := result
      rw [hrun] at h
      simp only at h
      rcases deliver_cases clock eventTime any s with ⟨-, ex, -, hraised⟩ | ⟨s', hs', hanys, -⟩
      · rw [hraised] at h
        obtain rfl := Option.some.inj h
        exact .inl ⟨rfl, Option.some_ne_none _⟩
      · rw [hs'] at h
        exact .inr ⟨eventTime, any, memstr', s', rfl, hanys, h⟩

theorem anys_prefix_of_supplyBuffer (rounds : ℕ) {memstr : Input β} {s : Supplying Any}
    {out : Outcome Any} (h : supplyBuffer orb clock rounds memstr s = some out) :
    s.anys <+: out.1.anys := by
  induction rounds generalizing memstr s with
  | zero => cases h
  | succ rounds ih =>
      by_cases hrest : memstr.rest = []
      · rw [supplyBuffer, if_pos (by rw [List.isEmpty_iff]; exact hrest)] at h
        obtain rfl := Option.some.inj h
        exact List.prefix_rfl
      · rcases supplyBuffer_round hrest h with ⟨hsame, -⟩ | ⟨-, any, memstr', s', -, hanys, hbuffer⟩
        · rw [hsame]
        · have hpushed := ih hbuffer
          rw [hanys] at hpushed
          exact (List.prefix_append _ _).trans hpushed

/-- What has been pushed stays pushed. -/
theorem anys_prefix_of_supply (reads : List (List β)) {out : Outcome Any} (s : Supplying Any)
    (h : supply orb clock reads s = some out) : s.anys <+: out.1.anys := by
  induction reads generalizing s with
  | nil =>
      obtain rfl := Option.some.inj h
      exact List.prefix_rfl
  | cons buf reads ih =>
      by_cases hbuf : buf = []
      · subst hbuf
        obtain rfl := Option.some.inj h
        exact List.prefix_rfl
      · rw [supply_cons hbuf, Option.bind_eq_some_iff] at h
        obtain ⟨r, hbuffer, hrest⟩ := h
        have hkept : r.1.anys <+: out.1.anys := of_following ih List.prefix_rfl hrest
        exact (anys_prefix_of_supplyBuffer _ hbuffer).trans hkept

/-- The events up to a record are replayed, then comes what follows in the read. -/
theorem supply_upTo {groups : List (List (Event β Any))} {g : List (Event β Any)}
    {e : Event β Any} {tail : List β} {events : List (Event β Any)} {reads : List (List β)}
    (hne : ∀ buf ∈ reads, buf ≠ []) (h : UpTo orb groups g e tail events reads)
    (clock : ℕ → Time) (s : Supplying Any) :
    ∃ rounds later,
      supply orb clock reads s
        = following (replay clock (groups.flatten ++ g) s) fun s =>
            (supplyBuffer orb clock (rounds + 1) ⟨(recorded orb g).length, tail⟩ s).bind
              fun r => following r (supply orb clock later) := by
  obtain ⟨later, rfl⟩ := h.reads_eq
  have hgroups : ∀ g ∈ groups, recorded orb g ≠ [] :=
    fun g hg => hne _ (List.mem_append_left _ (List.mem_map_of_mem hg))
  have hbuf := hne _ (List.mem_append_right _ List.mem_cons_self)
  obtain ⟨rounds, hrounds, hbuffer⟩ := supplyBuffer_records clock g h.aligned
    (Nat.lt_succ_self (recorded orb g ++ tail).length)
  obtain ⟨rounds, rfl⟩ := Nat.exists_eq_succ_of_ne_zero (Nat.ne_of_gt (Nat.zero_lt_of_lt hrounds))
  refine ⟨rounds, later, ?_⟩
  rw [supply_groups clock groups _ h.groups_aligned hgroups, following_replay_append]
  congr 1
  funext s
  rw [supply_cons hbuf, hbuffer, following_bind, Nat.zero_add]

/-- If the next thing is not read as the `Any` of the record, the recording is not replayed. -/
theorem anys_ne_of_upTo {groups : List (List (Event β Any))} {g : List (Event β Any)}
    {e : Event β Any} {tail : List β} {events : List (Event β Any)} {reads : List (List β)}
    (hne : ∀ buf ∈ reads, buf ≠ []) (h : UpTo orb groups g e tail events reads)
    (hread : ∀ eventTime memstr,
      (eventParser orb).run ⟨(recorded orb g).length, tail⟩ ≠ some ((eventTime, e.data), memstr))
    {out : Outcome Any} (hout : supply orb clock reads .start = some out) :
    out.1.anys ≠ events.map (·.data) := by
  obtain ⟨rounds, later, hsupply⟩ := supply_upTo hne h clock .start
  obtain ⟨post, rfl⟩ := h.events_eq
  rw [← List.append_assoc, List.map_append, List.map_cons]
  generalize groups.flatten ++ g = before at hsupply
  obtain ⟨k, hk, hanys, hall⟩ := replay_anys clock before .start
  rw [hsupply] at hout
  intro hpushed
  -- more is pushed than the events before
  have hmore : out.1.anys.length ≠ k := by
    rw [hpushed, List.length_append, List.length_map, List.length_cons]
    omega
  have hbefore : (replay clock before .start).1.anys = (before.take k).map (·.data) := hanys
  by_cases hraised : (replay clock before .start).2 = none
  · rw [following_of_none hraised, Option.bind_eq_some_iff] at hout
    obtain ⟨r, hbuffer, hlater⟩ := hout
    obtain rfl := hall.1 hraised
    rw [List.take_length] at hbefore
    rcases supplyBuffer_round h.tail_ne hbuffer with
      ⟨hsame, hended⟩ | ⟨eventTime, any, memstr, s', hrun, hanys', hrounds⟩
    · rw [following_of_raised hended] at hlater
      obtain rfl := Option.some.inj hlater
      rw [hsame, hbefore, List.length_map] at hmore
      exact hmore rfl
    · have hkept : r.1.anys <+: out.1.anys :=
        of_following (anys_prefix_of_supply later) List.prefix_rfl hlater
      have hnext := (anys_prefix_of_supplyBuffer rounds hrounds).trans hkept
      rw [hanys', hbefore, hpushed, List.prefix_append_right_inj, List.cons_prefix_cons] at hnext
      obtain rfl := hnext.1
      exact hread eventTime memstr hrun
  · rw [following_of_raised hraised] at hout
    obtain rfl := Option.some.inj hout
    rw [hbefore, List.length_map, List.length_take, Nat.min_eq_left hk] at hmore
    exact hmore rfl

/-! ## An `Any` of three kinds -/

/-- A value of the small CORBA of the witness: null, a double or an octet. -/
inductive Value where
  | null
  | double (bits : UInt64)
  | octet (o : UInt8)
  deriving DecidableEq, Repr

/-- The kind of the type, and the value. -/
def Value.prims : Value → List (List UInt8)
  | .null => [littleEndian 4 0]
  | .double bits => [littleEndian 4 7, littleEndian 8 bits.toNat]
  | .octet o => [littleEndian 4 10, littleEndian 1 o.toNat]

/-- The reader of such a value, which reads its kind first. -/
def Value.parser : Parser UInt8 Value :=
  .read 4 fun kind =>
    match ofLittleEndian kind with
    | 0 => .done .null
    | 7 => .read 8 fun bytes => .done (.double (UInt64.ofNat (ofLittleEndian bytes)))
    | 10 => .read 1 fun bytes => .done (.octet (UInt8.ofNat (ofLittleEndian bytes)))
    | _ => .fail

theorem Value.feed_prims (v : Value) : Value.parser.feed v.prims = some (v, []) := by
  cases v with
  | null => rfl
  | double bits =>
      have hbits : ofLittleEndian (littleEndian 8 bits.toNat) = bits.toNat :=
        ofLittleEndian_littleEndian 8 bits.toNat_lt
      have hkind : ofLittleEndian (littleEndian 4 7) = 7 := rfl
      simp only [prims, parser, Parser.feed, length_littleEndian, if_true, hkind, hbits,
        UInt64.ofNat_toNat]
  | octet o =>
      have ho : ofLittleEndian (littleEndian 1 o.toNat) = o.toNat :=
        ofLittleEndian_littleEndian 1 o.toNat_lt
      have hkind : ofLittleEndian (littleEndian 4 10) = 10 := rfl
      simp only [prims, parser, Parser.feed, length_littleEndian, if_true, hkind, ho,
        UInt8.ofNat_toNat]

/-- On a little-endian machine. -/
def valueOrb : Marshalling UInt8 Value :=
  { ulong := fun x => littleEndian 4 x.toNat
    toULong := fun bytes => UInt32.ofNat (ofLittleEndian bytes)
    any := Value.prims
    anyParser := Value.parser
    length_ulong := fun x => length_littleEndian 4 x.toNat
    toULong_ulong := fun x => by
      rw [ofLittleEndian_littleEndian 4 x.toNat_lt, UInt32.ofNat_toNat]
    feed_any := Value.feed_prims }

/-- An event, with a stream whose memory is cleared. -/
def valueAt (sec : UInt32) (v : Value) : Event UInt8 Value := ⟨⟨sec, 0⟩, v, fun _ => 0⟩

/-- A clock that goes on by a second with each reading. -/
def laterClock (reading : ℕ) : Time := ⟨1000 + UInt32.ofNat reading, 0⟩

theorem punctual_later (v : Value) (events : List (Event UInt8 Value)) :
    Punctual laterClock 0 (valueAt 1 v :: events) := by
  have hsub : (laterClock 0).sub ⟨1, 0⟩ = .ok ⟨999, 0⟩ := by decide
  refine ⟨⟨999, 0⟩, hsub, ?_⟩
  intro hnil
  exact absurd hnil (by decide)

/-- A recording is replayed as it is if every read has whole aligned records only and the clock is
    not behind, and then `supply` raises nothing. Otherwise it is not, unless the first record that
    is not aligned reads as its own `Any` by chance. -/
theorem supply_recorded (orb : Marshalling β Any) (clock : ℕ → Time) (events : List (Event β Any))
    (reads : List (List β)) (h : Reads orb events reads) :
    ∃ out, supply orb clock reads .start = some out ∧
      (Intact orb events reads ∧ Punctual clock 0 events →
        out.1.anys = events.map (·.data) ∧ out.2 = none) ∧
      (¬ByChance orb events reads → out.1.anys = events.map (·.data) →
        Intact orb events reads ∧ Punctual clock 0 events) := by
  obtain ⟨out, hout⟩ := supply_total orb clock reads .start
  have hpunctual : (replay clock events .start).2 = none ↔ Punctual clock 0 events := by
    rw [replay_raises_iff]
    exact ⟨fun h => h rfl, fun h _ => h⟩
  obtain ⟨k, hk, hanys, hall⟩ := replay_anys clock events .start
  have hreplayed : (replay clock events .start).1.anys = (events.take k).map (·.data) := hanys
  refine ⟨out, hout, ?_, ?_⟩
  · rintro ⟨hintact, hclock⟩
    obtain rfl : replay clock events .start = out :=
      Option.some.inj ((supply_intact h.nonempty hintact .start).symm.trans hout)
    have hraised := hpunctual.2 hclock
    refine ⟨?_, hraised⟩
    rw [hreplayed, hall.1 hraised, List.take_length]
  · intro hchance hpushed
    rcases reads_cases h.recorded h.nonempty with hintact | ⟨groups, g, e, tail, hupTo, hbad⟩
    · refine ⟨hintact, hpunctual.1 (hall.2 ?_)⟩
      obtain rfl : replay clock events .start = out :=
        Option.some.inj ((supply_intact h.nonempty hintact .start).symm.trans hout)
      have hlength := congrArg List.length (hreplayed.symm.trans hpushed)
      rwa [List.length_map, List.length_map, List.length_take, Nat.min_eq_left hk] at hlength
    · refine absurd hpushed (anys_ne_of_upTo h.nonempty hupTo ?_ hout)
      intro eventTime memstr hrun
      rcases hbad with halign | hnone
      · exact hchance ⟨groups, g, e, tail, hupTo, halign, eventTime, memstr, hrun⟩
      · rw [hnone] at hrun
        cases hrun

/-- An octet that nothing follows in its read, and one that follows a null. -/
theorem supply_recorded_aligned :
    Reads valueOrb [valueAt 1 (.octet 65), valueAt 2 .null, valueAt 3 (.octet 66)]
      [recorded valueOrb [valueAt 1 (.octet 65)],
        recorded valueOrb [valueAt 2 .null, valueAt 3 (.octet 66)]] ∧
    ∃ out, supply valueOrb laterClock
        [recorded valueOrb [valueAt 1 (.octet 65)],
          recorded valueOrb [valueAt 2 .null, valueAt 3 (.octet 66)]] .start = some out ∧
      out.1.anys = [.octet 65, .null, .octet 66] ∧ out.2 = none := by
  have hreads : Reads valueOrb [valueAt 1 (.octet 65), valueAt 2 .null, valueAt 3 (.octet 66)]
      [recorded valueOrb [valueAt 1 (.octet 65)],
        recorded valueOrb [valueAt 2 .null, valueAt 3 (.octet 66)]] :=
    { recorded := rfl
      nonempty := by decide
      length_le := by decide }
  have halign : ∀ g ∈ [[valueAt 1 (.octet 65)], [valueAt 2 .null, valueAt 3 (.octet 66)]],
      AlignedFrom valueOrb 0 g := by decide
  obtain ⟨out, hout, hreplayed, -⟩ := supply_recorded valueOrb laterClock _ _ hreads
  exact ⟨hreads, out, hout, hreplayed ⟨⟨_, rfl, rfl, halign⟩, punctual_later _ _⟩⟩

/-- Two octets in one read: the second record begins at 13, is read from 16 on and comes to an end
    too early. The clock is in time. A double after a null is read four bytes too early, as zero. And
    of a record that two reads share nothing is pushed. -/
theorem supply_loses :
    (Reads valueOrb [valueAt 1 (.octet 65), valueAt 2 (.octet 66)]
        [recorded valueOrb [valueAt 1 (.octet 65), valueAt 2 (.octet 66)]] ∧
      Punctual laterClock 0 [valueAt 1 (.octet 65), valueAt 2 (.octet 66)] ∧
      (supply valueOrb laterClock
          [recorded valueOrb [valueAt 1 (.octet 65), valueAt 2 (.octet 66)]] .start).map
        (fun out => (out.1.anys, out.2)) = some ([.octet 65], some .MARSHAL)) ∧
    (supply valueOrb laterClock
        [recorded valueOrb [valueAt 1 .null, valueAt 2 (.double 4609434218613702656)]] .start).map
      (fun out => (out.1.anys, out.2)) = some ([.null, .double 0], some .MARSHAL) ∧
    (supply valueOrb laterClock
        [(recorded valueOrb [valueAt 1 .null]).take 8, (recorded valueOrb [valueAt 1 .null]).drop 8]
        .start).map
      (fun out => (out.1.anys, out.2)) = some ([], some .MARSHAL) ∧
    ¬ ∀ events reads, Reads valueOrb events reads → Punctual laterClock 0 events →
      ∃ out, supply valueOrb laterClock reads .start = some out ∧
        out.1.anys = events.map (·.data) := by
  have hreads : Reads valueOrb [valueAt 1 (.octet 65), valueAt 2 (.octet 66)]
      [recorded valueOrb [valueAt 1 (.octet 65), valueAt 2 (.octet 66)]] :=
    { recorded := rfl
      nonempty := by decide
      length_le := by decide }
  have hlost : (supply valueOrb laterClock
      [recorded valueOrb [valueAt 1 (.octet 65), valueAt 2 (.octet 66)]] .start).map
        (fun out => (out.1.anys, out.2)) = some ([.octet 65], some .MARSHAL) := by decide
  refine ⟨⟨hreads, punctual_later _ _, hlost⟩, by decide, by decide, ?_⟩
  intro h
  obtain ⟨out, hout, hanys⟩ := h _ _ hreads (punctual_later _ _)
  rw [hout] at hlost
  have hpushed := congrArg Prod.fst (Option.some.inj hlost)
  exact absurd (hanys.symm.trans hpushed) (by decide)

/-- A double of zero is read from a wrong place as zero, and only what is left of it raises: by
    chance a recording is replayed that is not intact. -/
theorem zero_by_chance :
    (supply valueOrb laterClock [recorded valueOrb [valueAt 1 .null, valueAt 2 (.double 0)]]
        .start).map (fun out => (out.1.anys, out.2)) = some ([.null, .double 0], some .MARSHAL) ∧
    ¬Intact valueOrb [valueAt 1 .null, valueAt 2 (.double 0)]
      [recorded valueOrb [valueAt 1 .null, valueAt 2 (.double 0)]] := by
  have hraised : (supply valueOrb laterClock
      [recorded valueOrb [valueAt 1 .null, valueAt 2 (.double 0)]] .start).map
        (fun out => (out.1.anys, out.2)) = some ([.null, .double 0], some .MARSHAL) := by decide
  refine ⟨hraised, ?_⟩
  intro hintact
  rw [supply_intact (by decide) hintact] at hraised
  have hended := congrArg Prod.snd (Option.some.inj hraised)
  have hdelivered := (replay_raises_iff laterClock
    [valueAt 1 .null, valueAt 2 (.double 0)] .start).2 fun _ => punctual_later _ _
  rw [hdelivered] at hended
  cases hended

end OmniEvents.Events
