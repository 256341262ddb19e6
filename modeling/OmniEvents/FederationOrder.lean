import OmniEvents.Federation
import Mathlib.Data.List.Perm.Basic

set_option autoImplicit false

/-! # Federated delivery in order

A request is sent once, so it arrives at most once, whatever the network does: `Federation.Inv`. A
proxy that waits for the reply sends nothing, so as long as no reply comes before the request has
arrived or is lost, the only request of a proxy in flight is its last one: `Federation.InOrder`. What
holds of one link holds of a path by composition. -/

namespace OmniEvents

open Transition OrderedMatch

variable {Ref : Type}

namespace Federation

/-! ## Each request arrives at most once

A request has the place of its event in it. It is sent once, since a proxy reads on, and it arrives
once, since it is taken out of flight. -/

/-- All requests that were ever sent. -/
def requests (s : Federation Ref) : List Request :=
  s.inFlight ++ s.lost ++ s.arrived.map Prod.fst

/-- The channels of one state go on in the other. -/
def Grows (s t : Federation Ref) : Prop :=
  ∀ (i : ℕ) (f : Feed Ref), s.feeds[i]? = some f → ∃ f', t.feeds[i]? = some f' ∧ f.Grows f'

/-- The request was sent by its proxy, with an event of the proxy's channel. -/
def Sent (s : Federation Ref) (r : Request) : Prop :=
  ∃ f o, s.feeds[r.sender]? = some f ∧ f.outlets[r.proxy]? = some o ∧ some r.place ∈ o.given ∧
    f.history.accepted[r.place]? = some r.event

/-- The last event given by a proxy that waits for the reply. -/
def Awaited (s : Federation Ref) (r : Request) : Prop :=
  ∃ f o, s.feeds[r.sender]? = some f ∧ f.outlets[r.proxy]? = some o ∧ o.Waits ∧
    o.given.getLast? = some (some r.place)

/-- `keepsUp i j` stands for what is known of the past of proxy `j` of channel `i`. -/
structure Inv (sites : ℕ → Site) (keepsUp : ℕ → ℕ → Prop) (s : Federation Ref) : Prop where
  feeds : ∀ (i : ℕ) (f : Feed Ref), s.feeds[i]? = some f →
    f.Inv (sites i).realTimePush (sites i).maxQueueLength (sites i).filter (keepsUp i)
  coherent : ∀ f ∈ s.feeds, ∀ o ∈ f.outlets, o.Coherent
  origin : ∀ r ∈ s.requests, s.Sent r
  once : (s.requests.map Request.key).Nodup
  arrivals : ∀ x ∈ s.arrived, s.event x.1.receiver x.2 = some x.1.event
  numbered : s.arrived.Pairwise fun x y => x.1.receiver = y.1.receiver → x.2 < y.2

theorem getElem?_of_initial {α : Type*} {xs ys : List α} (h : xs <+: ys) {i : ℕ} {x : α}
    (hx : xs[i]? = some x) : ys[i]? = some x := by
  obtain ⟨more, rfl⟩ := h
  rw [List.getElem?_append_left (List.getElem?_eq_some_iff.1 hx).1, hx]

theorem grows_of_eq {s t : Federation Ref} (h : t.feeds = s.feeds) : s.Grows t :=
  fun _ f hf => ⟨f, h ▸ hf, .refl f⟩

theorem Grows.trans {s t u : Federation Ref} (hst : s.Grows t) (htu : t.Grows u) : s.Grows u := by
  intro i f hf
  obtain ⟨f', hf', hgrows⟩ := hst i f hf
  obtain ⟨f'', hf'', hgrows'⟩ := htu i f' hf'
  exact ⟨f'', hf'', hgrows.trans hgrows'⟩

/-- One channel takes a step. -/
theorem grows_set {s t : Federation Ref} {i : ℕ} {f f' : Feed Ref} (hf : s.feeds[i]? = some f)
    (hgrows : f.Grows f') (ht : t.feeds = s.feeds.set i f') : s.Grows t := by
  intro k g hg
  rw [ht]
  by_cases hik : i = k
  · subst hik
    obtain rfl := Option.some.inj (hf.symm.trans hg)
    exact ⟨f', List.getElem?_set_self (List.getElem?_eq_some_iff.1 hf).1, hgrows⟩
  · exact ⟨g, by rw [List.getElem?_set_ne hik, hg], .refl g⟩

theorem Grows.event {s t : Federation Ref} (h : s.Grows t) {i p : ℕ} {e : Any}
    (he : s.event i p = some e) : t.event i p = some e := by
  obtain ⟨f, hf, he⟩ := Option.bind_eq_some_iff.1 he
  obtain ⟨f', hf', hgrows⟩ := h i f hf
  rw [Federation.event, hf', Option.bind_some]
  exact getElem?_of_initial hgrows.accepted he

theorem Grows.sent {s t : Federation Ref} (h : s.Grows t) {r : Request} (hr : s.Sent r) :
    t.Sent r := by
  obtain ⟨f, o, hf, ho, hgiven, hevent⟩ := hr
  obtain ⟨f', hf', hgrows⟩ := h r.sender f hf
  obtain ⟨o', ho', -, hinitial⟩ := hgrows.outlets r.proxy o ho
  exact ⟨f', o', hf', ho', hinitial.subset hgiven, getElem?_of_initial hgrows.accepted hevent⟩

section Steps

variable {sites : ℕ → Site} {orb : Orb Ref} {channelOf : Ref → Option ℕ} {keepsUp : ℕ → ℕ → Prop}
  {s t : Federation Ref}

/-- What a step can be: one of a channel, an arrival, or a loss. -/
inductive Stepped (sites : ℕ → Site) (orb : Orb Ref) (channelOf : Ref → Option ℕ)
    (s : Federation Ref) : Action Ref → Federation Ref → Prop where
  | feed (i : ℕ) (f f' : Feed Ref) (a : Feed.Action Ref) (hf : s.feeds[i]? = some f)
      (hanswers : s.answers i f a = true) (hst : stepFeed sites orb i f a = some f') :
      Stepped sites orb channelOf s (.feed i a)
        { s with feeds := s.feeds.set i f', inFlight := s.inFlight ++ sent channelOf i f a }
  | arrive (m : ℕ) (r : Request) (f f' : Feed Ref) (hr : s.inFlight[m]? = some r)
      (hf : s.feeds[r.receiver]? = some f)
      (hst : stepFeed sites orb r.receiver f (.channel (.push r.event)) = some f') :
      Stepped sites orb channelOf s (.arrive m)
        { s with feeds := s.feeds.set r.receiver f'
                 inFlight := s.inFlight.eraseIdx m
                 arrived := s.arrived ++ [(r, f.history.accepted.length)] }
  | lose (m : ℕ) (r : Request) (hr : s.inFlight[m]? = some r) :
      Stepped sites orb channelOf s (.lose m)
        { s with inFlight := s.inFlight.eraseIdx m, lost := s.lost ++ [r] }

theorem stepped_of_step {a : Action Ref} (hst : s.step sites orb channelOf a = some t) :
    Stepped sites orb channelOf s a t := by
  cases a with
  | feed i a =>
      simp only [step] at hst
      split at hst
      · cases hst
      · next f hf =>
          split at hst
          · next hanswers =>
              obtain ⟨f', hf', rfl⟩ := Option.map_eq_some_iff.1 hst
              exact .feed i f f' a hf hanswers hf'
          · cases hst
  | arrive m =>
      simp only [step] at hst
      split at hst
      · cases hst
      · next r hr =>
          split at hst
          · cases hst
          · next f hf =>
              obtain ⟨f', hf', rfl⟩ := Option.map_eq_some_iff.1 hst
              exact .arrive m r f f' hr hf hf'
  | lose m =>
      simp only [step] at hst
      split at hst
      · cases hst
      · next r hr =>
          cases hst
          exact .lose m r hr

/-- A step sends at most one request, of the last event that its proxy has given. -/
theorem sent_spec {i : ℕ} {f f' : Feed Ref} {a : Feed.Action Ref} {r : Request}
    (hcoherent : ∀ o ∈ f.outlets, o.Coherent) (hst : stepFeed sites orb i f a = some f')
    (hr : r ∈ sent channelOf i f a) :
    sent channelOf i f a = [r] ∧ r.sender = i ∧
      ∃ o o', f.outlets[r.proxy]? = some o ∧ f'.outlets[r.proxy]? = some o' ∧ ¬ o.Waits ∧ o'.Waits ∧
        o'.given = o.given ++ [some r.place] ∧
        f.history.channel.heap.events[r.place]? = some r.event ∧ f'.history = f.history := by
  unfold sent at hr ⊢
  split at hr
  · cases hr
  · next j target place event hsends =>
      split at hr
      · cases hr
      · next k hk =>
          obtain rfl := List.mem_singleton.1 hr
          exact ⟨rfl, rfl, Feed.sends_spec hcoherent hsends hst⟩

/-- The receiver has a channel that takes the event. -/
theorem accepted_of_push {i : ℕ} {f f' : Feed Ref} {event : Any}
    (hst : stepFeed sites orb i f (.channel (.push event)) = some f') :
    f'.history.accepted = f.history.accepted ++ [event] := by
  obtain ⟨h, hh, rfl⟩ := Option.map_eq_some_iff.1 hst
  simp only [History.step, Option.map_eq_some_iff] at hh
  obtain ⟨c, -, rfl⟩ := hh
  rfl

/-- A step of one channel keeps what is known of all channels. -/
theorem Inv.stepFeed (hs : s.Inv sites keepsUp)
    (hn : ∀ i, (sites i).maxQueueLength + 1 ≤ 2 ^ 31 - 1) {i : ℕ} {f f' : Feed Ref}
    {a : Feed.Action Ref} (hf : s.feeds[i]? = some f)
    (hpast : ∀ j, keepsUp i j → f.Punctual (sites i).maxQueueLength a j)
    (hst : stepFeed sites orb i f a = some f') (ht : t.feeds = s.feeds.set i f') :
    (∀ (k : ℕ) (g : Feed Ref), t.feeds[k]? = some g →
      g.Inv (sites k).realTimePush (sites k).maxQueueLength (sites k).filter (keepsUp k)) ∧
    (∀ g ∈ t.feeds, ∀ o ∈ g.outlets, o.Coherent) ∧ s.Grows t := by
  have hinv := hs.feeds i f hf
  refine ⟨?_, ?_, grows_set hf (Feed.step_grows hinv hst) ht⟩
  · intro k g hg
    rw [ht, List.getElem?_set] at hg
    split at hg
    · next hik =>
        subst hik
        split at hg
        · cases hg
          exact hinv.step (hn i) hpast hst
        · cases hg
    · exact hs.feeds k g hg
  · intro g hg
    rw [ht] at hg
    rcases List.mem_or_eq_of_mem_set hg with hg | rfl
    · exact hs.coherent g hg
    · exact Feed.coherent_step (hs.coherent f (List.mem_of_getElem? hf)) hst

/-- What has arrived is there after every step. -/
theorem Inv.mono_arrivals (hs : s.Inv sites keepsUp) (hgrows : s.Grows t) :
    ∀ x ∈ s.arrived, t.event x.1.receiver x.2 = some x.1.event :=
  fun x hx => hgrows.event (hs.arrivals x hx)

/-- The channel that takes a step, and which one. -/
def Action.acts (s : Federation Ref) : Action Ref → Option (ℕ × Feed Ref × Feed.Action Ref)
  | .feed i a => (s.feeds[i]?).map fun f => (i, f, a)
  | .arrive m =>
      match s.inFlight[m]? with
      | none => none
      | some r => (s.feeds[r.receiver]?).map fun f => (r.receiver, f, .channel (.push r.event))
  | .lose _ => none

/-- Before the step, proxy `j` of channel `i` has no more events unread than the queue holds, and the
    step loses none of them. -/
def Punctual (sites : ℕ → Site) (s : Federation Ref) (a : Action Ref) (i j : ℕ) : Prop :=
  ∀ x ∈ a.acts s, x.1 = i → x.2.1.Punctual (sites i).maxQueueLength x.2.2 j

instance (sites : ℕ → Site) (s : Federation Ref) (a : Action Ref) (i j : ℕ) :
    Decidable (s.Punctual sites a i j) :=
  inferInstanceAs (Decidable (∀ _ ∈ _, _))

theorem eraseIdx_perm {α : Type*} {xs : List α} {m : ℕ} {x : α} (hx : xs[m]? = some x) :
    (x :: xs.eraseIdx m).Perm xs := by
  obtain ⟨hm, rfl⟩ := List.getElem?_eq_some_iff.1 hx
  exact List.getElem_cons_eraseIdx_perm hm

theorem requests_arrive {m : ℕ} {r : Request} (hr : s.inFlight[m]? = some r) (q : ℕ) :
    ((s.inFlight.eraseIdx m ++ s.lost) ++ (s.arrived ++ [(r, q)]).map Prod.fst).Perm
      s.requests := by
  have hperm := eraseIdx_perm hr
  rw [requests, List.map_append, List.map_singleton]
  refine List.Perm.trans ?_ (hperm.append_right _ |>.append_right _)
  rw [← List.append_assoc]
  exact List.perm_append_singleton _ _

theorem requests_lose {m : ℕ} {r : Request} (hr : s.inFlight[m]? = some r) :
    ((s.inFlight.eraseIdx m ++ (s.lost ++ [r])) ++ s.arrived.map Prod.fst).Perm s.requests := by
  refine List.Perm.append_right _ ?_
  refine List.Perm.trans ?_ ((eraseIdx_perm hr).append_right _)
  rw [← List.append_assoc]
  exact List.perm_append_singleton _ _

theorem requests_feed (feeds : List (Feed Ref)) (new : List Request) :
    requests { s with feeds := feeds, inFlight := s.inFlight ++ new } |>.Perm
      (s.requests ++ new) := by
  simp only [requests]
  rw [List.append_assoc, List.append_assoc, List.append_assoc, List.append_assoc]
  refine List.Perm.append_left _ ?_
  rw [← List.append_assoc s.lost]
  exact List.perm_append_comm

/-- A request that is sent is new, and for an event that its channel has accepted. -/
theorem Inv.fresh (hs : s.Inv sites keepsUp) {i : ℕ} {f f' : Feed Ref} {a : Feed.Action Ref}
    {r : Request} (hf : s.feeds[i]? = some f) (hf' : t.feeds[i]? = some f')
    (hinv : f'.Inv (sites i).realTimePush (sites i).maxQueueLength (sites i).filter (keepsUp i))
    (hst : Federation.stepFeed sites orb i f a = some f') (hr : r ∈ sent channelOf i f a) :
    t.Sent r ∧ r.key ∉ s.requests.map Request.key := by
  obtain ⟨-, rfl, o, o', ho, ho', -, -, hgiven, hevent, hhistory⟩ :=
    sent_spec (hs.coherent f (List.mem_of_getElem? hf)) hst hr
  obtain ⟨places, hplaces, hincreasing, hkept⟩ := hinv.places ho'
  have hlast : places.map some = o.given ++ [some r.place] := hplaces.symm.trans hgiven
  constructor
  · have hmem : some r.place ∈ o'.given := hgiven ▸ List.mem_concat_self
    refine ⟨f', o', hf', ho', hmem, ?_⟩
    rw [hplaces] at hmem
    obtain ⟨p, hp, hpr⟩ := List.mem_map.1 hmem
    have hp : r.place ∈ places := Option.some.inj hpr ▸ hp
    obtain ⟨e, he, haccepted, -⟩ := hinv.offering.accepted_of_kept (hkept _ hp)
    rw [haccepted, ← he, hhistory, hevent]
  · intro hmem
    obtain ⟨r', hr', hkey⟩ := List.mem_map.1 hmem
    simp only [Request.key, Prod.mk.injEq] at hkey
    obtain ⟨hsender, hproxy, hplace⟩ := hkey
    obtain ⟨g, p, hg, hp, hgiven', -⟩ := hs.origin r' hr'
    rw [hsender, hf] at hg
    obtain rfl := Option.some.inj hg
    rw [hproxy, ho] at hp
    obtain rfl := Option.some.inj hp
    rw [hplace] at hgiven'
    -- it would have been given twice
    have hnodup : (o.given ++ [some r.place]).Nodup :=
      hlast ▸ List.Nodup.map (Option.some_injective _) (hincreasing.imp fun h => h.ne)
    exact (List.nodup_append.1 hnodup).2.2 _ hgiven' _ (List.mem_singleton.2 rfl) rfl

theorem Inv.step (hs : s.Inv sites keepsUp)
    (hn : ∀ i, (sites i).maxQueueLength + 1 ≤ 2 ^ 31 - 1) {a : Action Ref}
    (hpast : ∀ i j, keepsUp i j → s.Punctual sites a i j)
    (hst : s.step sites orb channelOf a = some t) : t.Inv sites keepsUp ∧ s.Grows t := by
  cases stepped_of_step hst with
  | feed i f f' a hf hanswers hfst =>
      have hacts : (Action.feed i a : Action Ref).acts s = some (i, f, a) := by
        simp only [Action.acts, hf, Option.map_some]
      obtain ⟨hfeeds, hcoherent, hgrows⟩ := hs.stepFeed hn hf
        (fun j hj => hpast i j hj _ hacts rfl) hfst
        (t := { s with feeds := s.feeds.set i f'
                       inFlight := s.inFlight ++ sent channelOf i f a }) rfl
      have hperm := requests_feed (s := s) (s.feeds.set i f') (sent channelOf i f a)
      have hf' : (s.feeds.set i f')[i]? = some f' :=
        List.getElem?_set_self (List.getElem?_eq_some_iff.1 hf).1
      have hfresh := fun r (hr : r ∈ sent channelOf i f a) => hs.fresh (t := { s with
        feeds := s.feeds.set i f', inFlight := s.inFlight ++ sent channelOf i f a })
        hf hf' (hfeeds i f' hf') hfst hr
      refine ⟨⟨hfeeds, hcoherent, ?_, ?_, hs.mono_arrivals hgrows, hs.numbered⟩, hgrows⟩
      · intro r hr
        rcases List.mem_append.1 (hperm.subset hr) with hr | hr
        · exact hgrows.sent (hs.origin r hr)
        · exact (hfresh r hr).1
      · refine (hperm.map _).nodup_iff.2 ?_
        rw [List.map_append]
        cases hnew : sent channelOf i f a with
        | nil => simpa using hs.once
        | cons r more =>
            have hr : r ∈ sent channelOf i f a := hnew ▸ List.mem_cons_self
            have hone := (sent_spec (hs.coherent f (List.mem_of_getElem? hf)) hfst hr).1
            rw [hnew] at hone
            rw [hone]
            exact hs.once.append (List.nodup_singleton _)
              (List.disjoint_singleton.2 (hfresh r hr).2)
  | arrive m r f f' hr hf hfst =>
      have hacts : (Action.arrive m : Action Ref).acts s
          = some (r.receiver, f, .channel (.push r.event)) := by
        simp only [Action.acts, hr, hf, Option.map_some]
      obtain ⟨hfeeds, hcoherent, hgrows⟩ := hs.stepFeed hn hf
        (fun j hj => hpast r.receiver j hj _ hacts rfl) hfst
        (t := { s with feeds := s.feeds.set r.receiver f'
                       inFlight := s.inFlight.eraseIdx m
                       arrived := s.arrived ++ [(r, f.history.accepted.length)] }) rfl
      have hperm := requests_arrive hr f.history.accepted.length
      refine ⟨⟨hfeeds, hcoherent, ?_, ?_, ?_, ?_⟩, hgrows⟩
      · exact fun r hr => hgrows.sent (hs.origin r (hperm.subset hr))
      · exact (hperm.map _).nodup_iff.2 hs.once
      · intro x hx
        rcases List.mem_append.1 hx with hx | hx
        · exact hs.mono_arrivals hgrows x hx
        · obtain rfl := List.mem_singleton.1 hx
          rw [event, List.getElem?_set_self (List.getElem?_eq_some_iff.1 hf).1, Option.bind_some,
            accepted_of_push hfst]
          exact List.getElem?_concat_length
      · refine List.pairwise_append.2 ⟨hs.numbered, List.pairwise_singleton _ _, ?_⟩
        intro x hx y hy hreceiver
        obtain rfl := List.mem_singleton.1 hy
        have hevent := hs.arrivals x hx
        rw [event, hreceiver, hf, Option.bind_some] at hevent
        exact (List.getElem?_eq_some_iff.1 hevent).1
  | lose m r hr =>
      have hperm := requests_lose hr
      refine ⟨⟨hs.feeds, hs.coherent, ?_, ?_, hs.arrivals, hs.numbered⟩, grows_of_eq rfl⟩
      · exact fun r hr => hs.origin r (hperm.subset hr)
      · exact (hperm.map _).nodup_iff.2 hs.once

/-! ## Requests do not overtake each other

Requests of one proxy could, if the proxy heard of one that is still in flight. In a timely run each
waits for the one before it. -/

/-- The proxy that a step brings a reply to. -/
def Action.repliesTo : Action Ref → Option (ℕ × ℕ)
  | .feed i (.outlet j (.reply _)) => some (i, j)
  | _ => none

/-- No proxy gets a reply, not even `TIMEOUT`, while a request of it is still in flight. -/
def Timely (s : Federation Ref) (a : Action Ref) : Prop :=
  ∀ proxy ∈ a.repliesTo, ∀ r ∈ s.inFlight, (r.sender, r.proxy) ≠ proxy

instance (s : Federation Ref) (a : Action Ref) : Decidable (s.Timely a) :=
  inferInstanceAs (Decidable (∀ _ ∈ _, _))

/-- Each proxy waits for the reply to its only request in flight. -/
structure InOrder (s : Federation Ref) : Prop where
  awaited : ∀ r ∈ s.inFlight, s.Awaited r
  arrived : s.arrived.Pairwise fun x y =>
    x.1.sender = y.1.sender → x.1.proxy = y.1.proxy → x.1.place < y.1.place

/-- A proxy goes on waiting when a channel takes a step that brings no reply to it. -/
theorem awaited_set {i : ℕ} {f f' : Feed Ref} {a : Feed.Action Ref} {r : Request}
    (hf : s.feeds[i]? = some f) (hst : Federation.stepFeed sites orb i f a = some f')
    (ht : t.feeds = s.feeds.set i f') (hr : s.Awaited r)
    (hreply : ∀ reply, r.sender = i → a ≠ .outlet r.proxy (.reply reply)) : t.Awaited r := by
  obtain ⟨g, o, hg, ho, hwaits, hlast⟩ := hr
  by_cases hi : i = r.sender
  · rw [← hi, hf] at hg
    obtain rfl := Option.some.inj hg
    obtain ⟨o', ho', hwaits', hgiven⟩ :=
      Feed.waits_step ho hwaits (fun reply => hreply reply hi.symm) hst
    refine ⟨f', o', ?_, ho', hwaits', hgiven ▸ hlast⟩
    rw [ht, ← hi, List.getElem?_set_self (List.getElem?_eq_some_iff.1 hf).1]
  · exact ⟨g, o, by rw [ht, List.getElem?_set_ne hi, hg], ho, hwaits, hlast⟩

/-- A request that arrives is for a later event than all of its proxy that have arrived. -/
theorem Inv.overtakes_none (hs : s.Inv sites keepsUp) {r : Request} (hr : r ∈ s.inFlight)
    (hawaited : s.Awaited r) {x : Request × ℕ} (hx : x ∈ s.arrived)
    (hsender : x.1.sender = r.sender) (hproxy : x.1.proxy = r.proxy) : x.1.place < r.place := by
  obtain ⟨f, o, hf, ho, -, hlast⟩ := hawaited
  obtain ⟨g, p, hg, hp, hgiven, -⟩ :=
    hs.origin x.1 (List.mem_append_right _ (List.mem_map_of_mem hx))
  rw [hsender, hf] at hg
  obtain rfl := Option.some.inj hg
  rw [hproxy, ho] at hp
  obtain rfl := Option.some.inj hp
  obtain ⟨places, hplaces, hincreasing, -⟩ := (hs.feeds _ f hf).places ho
  rw [hplaces] at hgiven hlast
  obtain ⟨before, hbefore⟩ := List.getLast?_eq_some_iff.1 hlast
  obtain ⟨before', last, rfl, -, hlast⟩ := List.map_eq_append_iff.1 hbefore
  obtain ⟨p, rfl, hp⟩ := List.map_eq_singleton_iff.1 hlast
  obtain rfl := Option.some.inj hp
  obtain ⟨place, hplace, hsome⟩ := List.mem_map.1 hgiven
  obtain rfl := Option.some.inj hsome
  rcases List.mem_append.1 hplace with hplace | hplace
  · exact (List.pairwise_append.1 hincreasing).2.2 _ hplace _ (List.mem_singleton.2 rfl)
  · -- it would have arrived while still in flight
    have hkey : r.key = x.1.key := by
      simp only [Request.key, hsender, hproxy, List.mem_singleton.1 hplace]
    have hnodup := hs.once
    rw [requests, List.append_assoc, List.map_append] at hnodup
    exact absurd hkey ((List.nodup_append.1 hnodup).2.2 _ (List.mem_map_of_mem hr) _
      (List.mem_map_of_mem (List.mem_append_right _ (List.mem_map_of_mem hx))))

theorem InOrder.step (hs : s.Inv sites keepsUp) (horder : s.InOrder) {a : Action Ref}
    (htimely : s.Timely a) (hst : s.step sites orb channelOf a = some t) : t.InOrder := by
  cases stepped_of_step hst with
  | feed i f f' a hf hanswers hfst =>
      refine ⟨?_, horder.arrived⟩
      intro r hmem
      rcases List.mem_append.1 hmem with hold | hr
      · refine awaited_set hf hfst rfl (horder.awaited r hold) ?_
        rintro reply rfl rfl
        exact htimely _ rfl r hold rfl
      · obtain ⟨-, rfl, o, o', ho, ho', -, hwaits, hgiven, -⟩ :=
          sent_spec (hs.coherent f (List.mem_of_getElem? hf)) hfst hr
        refine ⟨f', o', List.getElem?_set_self (List.getElem?_eq_some_iff.1 hf).1, ho', hwaits, ?_⟩
        rw [hgiven, List.getLast?_concat]
  | arrive m r f f' hr hf hfst =>
      have hmem := List.mem_of_getElem? hr
      refine ⟨?_, ?_⟩
      · intro r' hr'
        refine awaited_set hf hfst rfl (horder.awaited r' (List.mem_of_mem_eraseIdx hr')) ?_
        rintro reply - ⟨⟩
      · refine List.pairwise_append.2 ⟨horder.arrived, List.pairwise_singleton _ _, ?_⟩
        intro x hx y hy hsender hproxy
        obtain rfl := List.mem_singleton.1 hy
        exact hs.overtakes_none hmem (horder.awaited r hmem) hx hsender hproxy
  | lose m r hr =>
      exact ⟨fun r' hr' => horder.awaited r' (List.mem_of_mem_eraseIdx hr'), horder.arrived⟩

/-! ## From end to end

The relations of the links are composed along the path. One-to-one and in order is what a
composition keeps. -/

theorem inv_new (keepsUp : ℕ → ℕ → Prop) (count : ℕ) :
    (new sites count : Federation Ref).Inv sites keepsUp where
  feeds := by
    intro i f hf
    rw [new, List.getElem?_map, Option.map_eq_some_iff] at hf
    obtain ⟨k, hk, rfl⟩ := hf
    obtain ⟨-, rfl⟩ := List.getElem?_eq_some_iff.1 hk
    rw [List.getElem_range]
    exact Feed.inv_new ..
  coherent := by
    intro f hf o ho
    obtain ⟨i, -, rfl⟩ := List.mem_map.1 hf
    cases ho
  origin := by
    intro r hr
    cases hr
  once := List.nodup_nil
  arrivals := by
    intro x hx
    cases hx
  numbered := List.Pairwise.nil

/-- The entries for one proxy and one channel. -/
theorem pairwise_passed {R : Request × ℕ → Request × ℕ → Prop}
    (h : s.arrived.Pairwise fun x y => x.1.sender = y.1.sender → x.1.proxy = y.1.proxy →
      x.1.receiver = y.1.receiver → R x y) (i j k : ℕ) :
    (s.arrived.filter fun x => x.1.sender = i ∧ x.1.proxy = j ∧ x.1.receiver = k).Pairwise R := by
  refine (h.filter _).imp_of_mem ?_
  intro x y hx hy hR
  obtain ⟨hsender, hproxy, hreceiver⟩ := of_decide_eq_true (List.mem_filter.1 hx).2
  obtain ⟨hsender', hproxy', hreceiver'⟩ := of_decide_eq_true (List.mem_filter.1 hy).2
  exact hR (hsender.trans hsender'.symm) (hproxy.trans hproxy'.symm)
    (hreceiver.trans hreceiver'.symm)

theorem Inv.biUnique_passed (hs : s.Inv sites keepsUp) (i j k : ℕ) :
    Relator.BiUnique (s.Passed i j k) := by
  refine biUnique_recorded (pairwise_passed ?_ i j k)
  have honce : s.arrived.Pairwise fun x y => x.1.key ≠ y.1.key := by
    have hnodup := hs.once
    rw [requests, List.map_append] at hnodup
    have hnodup := (List.nodup_append.1 hnodup).2.1
    rw [List.map_map] at hnodup
    exact List.pairwise_map.1 hnodup
  refine (honce.and hs.numbered).imp ?_
  rintro x y ⟨hkey, hlt⟩ hsender hproxy hreceiver
  refine ⟨?_, (hlt hreceiver).ne⟩
  intro hplace
  exact hkey (by simp only [Request.key, hsender, hproxy, hplace])

theorem InOrder.keepsOrder_passed (hs : s.Inv sites keepsUp) (horder : s.InOrder) (i j k : ℕ) :
    KeepsOrder (s.Passed i j k) := by
  refine keepsOrder_recorded (pairwise_passed ?_ i j k)
  refine (horder.arrived.and hs.numbered).imp ?_
  rintro x y ⟨hplace, hlt⟩ hsender hproxy hreceiver
  exact ⟨hplace hsender hproxy, hlt hreceiver⟩

theorem Inv.biUnique_passedAlong (hs : s.Inv sites keepsUp) (i : ℕ) (path : List (ℕ × ℕ)) :
    Relator.BiUnique (s.PassedAlong i path) := by
  induction path generalizing i with
  | nil => exact biUnique_eq
  | cons hop path ih => exact biUnique_comp (hs.biUnique_passed i hop.1 hop.2) (ih hop.2)

theorem InOrder.keepsOrder_passedAlong (hs : s.Inv sites keepsUp) (horder : s.InOrder) (i : ℕ)
    (path : List (ℕ × ℕ)) : KeepsOrder (s.PassedAlong i path) := by
  induction path generalizing i with
  | nil => exact keepsOrder_eq
  | cons hop path ih => exact (horder.keepsOrder_passed hs i hop.1 hop.2).comp (ih hop.2)

/-- An event that has passed is the same on both sides, and kept by the filter of the sender. -/
theorem Inv.event_passed (hs : s.Inv sites keepsUp) {i j k p q : ℕ} (h : s.Passed i j k p q) :
    ∃ e, s.event i p = some e ∧ s.event k q = some e ∧
      ∀ f, s.feeds[i]? = some f → f.queue.keeps e = true := by
  obtain ⟨x, hmem, rfl, rfl⟩ := h
  obtain ⟨hx, hmatch⟩ := List.mem_filter.1 hmem
  obtain ⟨rfl, rfl, rfl⟩ := of_decide_eq_true hmatch
  obtain ⟨f, o, hf, ho, hgiven, hevent⟩ :=
    hs.origin x.1 (List.mem_append_right _ (List.mem_map_of_mem hx))
  refine ⟨x.1.event, ?_, hs.arrivals x hx, ?_⟩
  · rw [event, hf, Option.bind_some, hevent]
  · intro g hg
    obtain rfl := Option.some.inj (hf.symm.trans hg)
    obtain ⟨places, hplaces, -, hkept⟩ := (hs.feeds _ f hf).places ho
    rw [hplaces] at hgiven
    obtain ⟨p, hp, hsome⟩ := List.mem_map.1 hgiven
    obtain ⟨e, -, haccepted, hkeeps⟩ := (hs.feeds _ f hf).offering.accepted_of_kept (hkept p hp)
    rw [Option.some.inj hsome, hevent] at haccepted
    exact Option.some.inj haccepted ▸ hkeeps

/-- A proxy has given events in the order of their numbers. -/
theorem Inv.given_spec (hs : s.Inv sites keepsUp) (i j : ℕ) :
    ∃ places : List Ptr, places.Pairwise (· < ·) ∧
      ∀ p a, s.Given i j p a → places[a]? = some p ∧ ∃ f e, s.feeds[i]? = some f ∧
        s.event i p = some e ∧ f.event (some p) = some e ∧ f.queue.keeps e = true := by
  by_cases h : ∃ f o, s.feeds[i]? = some f ∧ f.outlets[j]? = some o
  · obtain ⟨f, o, hf, ho⟩ := h
    obtain ⟨places, hplaces, hincreasing, hkept⟩ := (hs.feeds _ f hf).places ho
    refine ⟨places, hincreasing, ?_⟩
    rintro p a ⟨f', o', hf', ho', hgiven⟩
    obtain rfl := Option.some.inj (hf.symm.trans hf')
    obtain rfl := Option.some.inj (ho.symm.trans ho')
    rw [hplaces, List.getElem?_map, Option.map_eq_some_iff] at hgiven
    obtain ⟨p', hp', hsome⟩ := hgiven
    obtain rfl := Option.some.inj hsome
    obtain ⟨e, hheap, haccepted, hkeeps⟩ :=
      (hs.feeds _ f hf).offering.accepted_of_kept (hkept p' (List.mem_of_getElem? hp'))
    refine ⟨hp', f, e, hf, ?_, hheap, hkeeps⟩
    rw [event, hf, Option.bind_some, haccepted]
  · refine ⟨[], List.Pairwise.nil, ?_⟩
    rintro p a ⟨f, o, hf, ho, -⟩
    exact absurd ⟨f, o, hf, ho⟩ h

theorem Inv.event_passedAlong (hs : s.Inv sites keepsUp) {i : ℕ} {path : List (ℕ × ℕ)} {p q : ℕ}
    (h : s.PassedAlong i path p q) {e : Any} (he : s.event (destination i path) q = some e)
    (hkeeps : ∀ f, s.feeds[destination i path]? = some f → f.queue.keeps e = true) :
    s.event i p = some e ∧
      ∀ k ∈ i :: path.map Prod.snd, ∀ f, s.feeds[k]? = some f → f.queue.keeps e = true := by
  induction path generalizing i p with
  | nil =>
      obtain rfl : p = q := h
      refine ⟨he, ?_⟩
      intro k hk
      obtain rfl := List.mem_singleton.1 hk
      exact hkeeps
  | cons hop path ih =>
      obtain ⟨r, hpassed, halong⟩ := h
      obtain ⟨her, hall⟩ := ih halong he hkeeps
      obtain ⟨e', hep, her', hkeeps'⟩ := hs.event_passed hpassed
      obtain rfl := Option.some.inj (her.symm.trans her')
      refine ⟨hep, ?_⟩
      intro k hk
      rcases List.mem_cons.1 hk with rfl | hk
      · exact hkeeps'
      · exact hall k hk

theorem inv_of_run (hn : ∀ i, (sites i).maxQueueLength + 1 ≤ 2 ^ 31 - 1) {count : ℕ}
    {as : List (Action Ref)}
    (hrun : Run (Federation.step sites orb channelOf) (new sites count) as = some s) :
    s.Inv sites fun _ _ => False :=
  Run.invariant (fun _ _ _ hs hst => (Inv.step hs hn (fun _ _ h => h.elim) hst).1)
    (inv_new _ count) hrun

/-- **Federated delivery in order.** In every run of any channels, each with an index for each of
    its slots in an `int`, federated in any way, along every path of proxies: each event of the
    first channel is given at most once to a consumer at the end, and what is given is the event
    accepted by the first channel, which the filters of all channels on the way keep; and if no
    request is still in flight when its proxy hears of it, the events are given in the order in
    which the first channel accepted them. -/
theorem federated_in_order (hn : ∀ i, (sites i).maxQueueLength + 1 ≤ 2 ^ 31 - 1) (count : ℕ)
    (as : List (Action Ref))
    (hrun : Run (step sites orb channelOf) (new sites count) as = some s) (i : ℕ)
    (path : List (ℕ × ℕ)) (j : ℕ) :
    Relator.BiUnique (s.Delivered i path j) ∧
    (∀ p a, s.Delivered i path j p a → ∃ f o e, s.feeds[destination i path]? = some f ∧
      f.outlets[j]? = some o ∧ (o.given[a]?).map f.event = some (some e) ∧ s.event i p = some e ∧
      ∀ k ∈ i :: path.map Prod.snd, ∀ f, s.feeds[k]? = some f → f.queue.keeps e = true) ∧
    (Along (step sites orb channelOf) Timely (new sites count) as →
      KeepsOrder (s.Delivered i path j)) := by
  have hs := inv_of_run hn hrun
  obtain ⟨places, hincreasing, hgiven⟩ := hs.given_spec (destination i path) j
  refine ⟨?_, ?_, ?_⟩
  · refine biUnique_comp (hs.biUnique_passedAlong i path) (biUnique_mono
      (biUnique_getElem? (hincreasing.imp fun h => h.ne)) fun p a h => (hgiven p a h).1)
  · rintro p a ⟨q, halong, hq⟩
    obtain ⟨-, f, e, hf, hevent, hheap, hkeeps⟩ := hgiven q a hq
    obtain ⟨f', o, hf', ho, ha⟩ := hq
    obtain rfl := Option.some.inj (hf.symm.trans hf')
    have hkeeps' : ∀ g, s.feeds[destination i path]? = some g → g.queue.keeps e = true :=
      fun g hg => Option.some.inj (hf.symm.trans hg) ▸ hkeeps
    obtain ⟨hp, hall⟩ := hs.event_passedAlong halong hevent hkeeps'
    exact ⟨f, o, e, hf, ho, by rw [ha, Option.map_some, hheap], hp, hall⟩
  · intro htimely
    have horder : s.InOrder := by
      revert htimely
      refine Run.induct (P := fun as s => Along (step sites orb channelOf) Timely
        (new sites count) as → s.InOrder) ?_ ?_ hrun
      · exact fun _ => ⟨by simp [new], List.Pairwise.nil⟩
      · intro as s a t hs ih hst htimely
        rw [along_concat hs] at htimely
        exact (ih htimely.1).step (inv_of_run hn hs) htimely.2 hst
    exact (horder.keepsOrder_passedAlong hs i path).comp
      ((keepsOrder_getElem? hincreasing).mono fun p a h => (hgiven p a h).1)

end Steps

/-! ### A channel that feeds another -/

/-- The first channel lets only one kind of event pass. -/
def twoSites (i : ℕ) : Site :=
  { realTimePush := true, log := true, maxQueueLength := 4
    filter := if i = 0 then Feed.longsOnly else none
    pullRetryPeriod_ms := 0, cyclePeriod_ns := 0, now := (0, 0) }

/-- The second channel, as the first one knows it. -/
def secondChannel (r : Str) : Option ℕ := if r = ['1'] then some 1 else none

/-- A proxy of the first channel is connected to the second, from which a client pulls. -/
def federate : List (Action Str) :=
  [.feed 0 (.incarnatePush ['p']), .feed 0 (.outlet 0 (.connect_push_consumer (some ['1']))),
    .feed 1 (.incarnatePull ['q'] 0), .feed 1 (.outlet 0 (.connect_pull_consumer none 0))]

/-- Of three events the first channel passes on two, the second while the client pulls the first. -/
def passOnTwo : List (Action Str) :=
  [.feed 0 (.channel (.push Feed.longEvent)), .feed 0 (.outlet 0 (.trigger fun _ => false)),
    .feed 0 (.channel (.push Feed.shortEvent)), .feed 0 (.channel (.push Feed.longEvent)),
    .feed 0 (.channel (.cycle (fun _ => none) (0, 0))), .arrive 0,
    .feed 0 (.outlet 0 (.reply .returned)), .feed 0 (.outlet 0 (.trigger fun _ => false)),
    .feed 1 (.channel (.cycle (fun _ => none) (0, 0))), .feed 1 (.outlet 0 (.pull 1)), .arrive 0,
    .feed 0 (.outlet 0 (.reply .returned)), .feed 0 (.outlet 0 (.trigger fun _ => false)),
    .feed 1 (.channel (.cycle (fun _ => none) (0, 0))), .feed 1 (.outlet 0 (.pull 2))]

theorem federated_in_order_two :
    ∃ s : Federation Str, Run (step twoSites stringOrb secondChannel) (new twoSites 2)
        (federate ++ passOnTwo) = some s ∧
      s.Delivered 0 [(0, 1)] 0 0 0 ∧ s.Delivered 0 [(0, 1)] 0 2 1 ∧
      KeepsOrder (s.Delivered 0 [(0, 1)] 0) := by
  obtain ⟨s, hrun, hfirst, hsecond⟩ : ∃ s : Federation Str,
      Run (step twoSites stringOrb secondChannel) (new twoSites 2) (federate ++ passOnTwo) = some s ∧
      s.Delivered 0 [(0, 1)] 0 0 0 ∧ s.Delivered 0 [(0, 1)] 0 2 1 :=
    ⟨_, rfl, ⟨0, ⟨0, ⟨_, List.mem_cons_self, rfl, rfl⟩, rfl⟩, _, _, rfl, rfl, rfl⟩,
      ⟨1, ⟨1, ⟨_, List.mem_cons_of_mem _ List.mem_cons_self, rfl, rfl⟩, rfl⟩, _, _, rfl, rfl, rfl⟩⟩
  have hn : ∀ i, (twoSites i).maxQueueLength + 1 ≤ 2 ^ 31 - 1 :=
    fun _ => (by decide : 4 + 1 ≤ 2 ^ 31 - 1)
  obtain ⟨-, -, horder⟩ := federated_in_order hn 2 (federate ++ passOnTwo) hrun 0 [(0, 1)] 0
  exact ⟨s, hrun, hfirst, hsecond, horder (by decide +kernel)⟩

end Federation

end OmniEvents
