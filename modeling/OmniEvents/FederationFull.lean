import OmniEvents.FederationOrder

set_option autoImplicit false

/-! # Federated delivery in full

What has been given by a proxy that is connected to another channel, and to nothing else, is under way
to that channel or has arrived there, as long as no request is lost. A proxy that keeps up and has no
more events has given all that its channel has kept since the proxy was made. Along a path of such
proxies every event gets through that the first channel accepts once all of them are there, and that
no filter on the way drops. -/

namespace OmniEvents

open Transition OrderedMatch

variable {Ref : Type}

namespace Outlet

theorem pushNext_target (calls : TriggerCall → Bool) (q : EventQueue) (p : PushServant Ref)
    (busy : Bool) : (p.pushNext calls q busy).servant.target = p.target := by
  unfold PushServant.pushNext
  split
  · split
    · rfl
    · split <;> rfl
  · rfl

/-- `trigger` may drop the consumer, but puts no other in its place. -/
theorem trigger_target (log : Bool) (calls : TriggerCall → Bool) (q : EventQueue)
    (p : PushServant Ref) {r : Ref} (h : (p.trigger log calls q).servant.target = some r) :
    p.target = some r := by
  cases hpoll : p.req.isSome && calls .poll_response with
  | true => simpa [PushServant.trigger, hpoll] using h
  | false =>
      cases hfailed : p.failed with
      | true =>
          obtain ⟨-, -, htrigger⟩ | ⟨hnot, -⟩ := PushServant.trigger_cases log calls q p hpoll
          · rw [htrigger] at h
            unfold PushServant.shutDown PushServant.disconnected at h
            split at h
            · split at h <;> cases h
            · split at h
              · exact h
              · split at h
                · exact h
                · split at h <;> cases h
          · rw [hfailed] at hnot
            cases hnot
      | false =>
          obtain ⟨p', busy, htrigger, ⟨rfl, -⟩ | rfl⟩ :=
            trigger_eq_pushNext log calls q hpoll hfailed
          · rwa [htrigger, pushNext_target] at h
          · rwa [htrigger, pushNext_target] at h

/-- The proxy pushes, and its consumer belongs to channel `k`, if it has one. -/
def Feeds (channelOf : Ref → Option ℕ) (k : ℕ) (o : Outlet Ref) : Prop :=
  ∀ (p : PushServant Ref) (r : Ref), o.servant = .push p → p.target = some r → channelOf r = some k

/-- The step connects the proxy to channel `k`, if it connects it, and no client pulls. -/
def Action.links (channelOf : Ref → Option ℕ) (k : ℕ) : Action Ref → Bool
  | .connect_push_consumer (some r) => channelOf r == some k
  | .pull _ => false
  | _ => true

theorem Feeds.step {channelOf : Ref → Option ℕ} {k : ℕ} {log : Bool} {orb : Orb Ref}
    {q : EventQueue} {o o' : Outlet Ref} {a : Action Ref} (hfeeds : o.Feeds channelOf k)
    (hlinks : a.links channelOf k = true) (hst : o.step log orb q a = some o') :
    o'.Feeds channelOf k := by
  intro p' r hp' htarget
  obtain ⟨p, hp, hstep⟩ := pushStep_of_step hst hp'
  cases hstep with
  | kept hreq hreply hsame =>
      rcases hsame with hsame | hnone
      · exact hfeeds p r hp (hsame.symm.trans htarget)
      · cases hnone.symm.trans htarget
  | connected consumer hreq hreply hconsumer =>
      obtain rfl := Option.some.inj (hconsumer.symm.trans htarget)
      exact eq_of_beq hlinks
  | replied reply hreq => exact hfeeds p r hp htarget
  | triggered calls => exact hfeeds p r hp (trigger_target log calls q p htarget)

/-- A proxy that no client pulls from gives only what it pushes. -/
theorem given_step {log : Bool} {orb : Orb Ref} {q : EventQueue} {o o' : Outlet Ref}
    {a : Action Ref} (hpull : ∀ now, a ≠ .pull now) (hst : o.step log orb q a = some o') :
    o'.given = o.given ∨ ∃ (calls : TriggerCall → Bool) (p : PushServant Ref), a = .trigger calls ∧
      o.servant = .push p ∧
      (!(p.req.isSome && calls .poll_response) && p.pushes q && !calls .push &&
        !calls .send_deferred) = true ∧
      o'.given = o.given ++ [(p.reader.nextEvent q).1] := by
  cases stepped_of_step hst with
  | trigger p calls ho =>
      cases hpush : !(p.req.isSome && calls .poll_response) && p.pushes q && !calls .push &&
          !calls .send_deferred with
      | true => exact Or.inr ⟨calls, p, rfl, ho, hpush, by simp only [trigger, hpush, if_true]⟩
      | false => exact Or.inl (by simp only [trigger, hpush, Bool.false_eq_true, if_false])
  | pull p reader now ho => exact absurd rfl (hpull now)
  -- any other step changes the servant alone
  | _ => exact Or.inl rfl

end Outlet

namespace Feed

section Steps

variable {realTimePush log : Bool} {orb : Orb Ref} {n : ℕ} {filter : Option Filter}
  {keepsUp : ℕ → Prop} {s t : Feed Ref} {a : Action Ref}

/-- What is given by a proxy that no client pulls from is sent to its consumer. -/
theorem given_step (ht : t.Inv realTimePush n filter keepsUp)
    (hst : s.step realTimePush log orb a = some t) {j : ℕ} {o o' : Outlet Ref}
    (ho : s.outlets[j]? = some o) (ho' : t.outlets[j]? = some o')
    (hpull : ∀ now, a ≠ .outlet j (.pull now)) :
    o'.given = o.given ∨ ∃ (p : PushServant Ref) (target : Ref) (place : Ptr) (event : Any),
      o.servant = .push p ∧ p.target = some target ∧ s.sends a = some (j, target, place, event) ∧
      o'.given = o.given ++ [some place] := by
  obtain ⟨o₁, ho₁, hstep⟩ := outlet_step hst ho
  obtain rfl := Option.some.inj (ho₁.symm.trans ho')
  rcases hstep with rfl | ⟨b, rfl, hb⟩
  · exact Or.inl rfl
  · rcases Outlet.given_step (fun now h => hpull now (h ▸ rfl)) hb with
      hgiven | ⟨calls, p, rfl, hp, hpush, hgiven⟩
    · exact Or.inl hgiven
    · right
      obtain ⟨places, hplaces, -, hkept⟩ := ht.places ho'
      have hlast : (p.reader.nextEvent s.queue).1 ∈ places.map some := by
        rw [← hplaces, hgiven]
        exact List.mem_concat_self
      obtain ⟨place, hplace, hnext⟩ := List.mem_map.1 hlast
      obtain ⟨event, hevent, -⟩ := ht.offering.accepted_of_kept (hkept place hplace)
      have hhistory : t.history = s.history := by
        simp only [Feed.step, ho] at hst
        obtain ⟨o₂, -, rfl⟩ := Option.map_eq_some_iff.1 hst
        rfl
      rw [hhistory] at hevent
      have htarget : p.target.isSome = true := by
        simp only [Bool.and_eq_true, PushServant.pushes] at hpush
        exact hpush.1.1.2.1.2
      obtain ⟨target, htarget⟩ := Option.isSome_iff_exists.1 htarget
      refine ⟨p, target, place, event, hp, htarget, ?_, hnext ▸ hgiven⟩
      obtain ⟨servant, start, read, given⟩ := o
      obtain rfl : servant = .push p := hp
      simp only [sends, ho, hpush, if_true, htarget, ← hnext, hevent, Option.map_some]

end Steps

end Feed

namespace Federation

/-! ## What goes over one link

Nothing is lost on a link that stays connected: what the sender has given is in flight or has
arrived. -/

/-- Proxy `proxy` of channel `sender` is to feed channel `receiver`. -/
structure Link where
  sender : ℕ
  proxy : ℕ
  receiver : ℕ
  deriving DecidableEq, Repr

/-- The request goes over the link. -/
def Link.Carries (l : Link) (r : Request) : Prop :=
  r.sender = l.sender ∧ r.proxy = l.proxy ∧ r.receiver = l.receiver

/-- The step connects the proxy to no other channel, gives its events to no client that pulls, and
    loses none of its requests. -/
def Link.keeps (l : Link) (channelOf : Ref → Option ℕ) (s : Federation Ref) : Action Ref → Bool
  | .feed i (.outlet j a) =>
      !(i == l.sender && j == l.proxy) || a.links channelOf l.receiver
  | .lose m => (s.inFlight[m]?).all fun r => !(r.sender == l.sender && r.proxy == l.proxy)
  | _ => true

/-- Everything that the proxy of a link has given is on its way to the receiver, or has arrived
    there. -/
structure Link.Inv (l : Link) (channelOf : Ref → Option ℕ) (s : Federation Ref) : Prop where
  feeds : ∀ (f : Feed Ref) (o : Outlet Ref), s.feeds[l.sender]? = some f →
    f.outlets[l.proxy]? = some o → o.Feeds channelOf l.receiver
  /-- What has been given is in flight, or has arrived. -/
  covered : ∀ (f : Feed Ref) (o : Outlet Ref) (place : Ptr), s.feeds[l.sender]? = some f →
    f.outlets[l.proxy]? = some o → some place ∈ o.given →
    (∃ r ∈ s.inFlight, l.Carries r ∧ r.place = place) ∨
      ∃ q, s.Passed l.sender l.proxy l.receiver place q

section Steps

variable {sites : ℕ → Site} {orb : Orb Ref} {channelOf : Ref → Option ℕ} {keepsUp : ℕ → ℕ → Prop}
  {s t : Federation Ref} {l : Link}

/-- What has arrived stays so. -/
theorem passed_mono {more : List (Request × ℕ)} (h : t.arrived = s.arrived ++ more)
    {i j k p q : ℕ} (hpassed : s.Passed i j k p q) : t.Passed i j k p q := by
  obtain ⟨x, hx, hxp, hxq⟩ := hpassed
  refine ⟨x, ?_, hxp, hxq⟩
  rw [h, List.filter_append]
  exact List.mem_append_left _ hx

/-- A step of the sender. What its proxy gives is sent. -/
theorem Link.Inv.sender (hl : l.Inv channelOf s) {f f' : Feed Ref} {a : Feed.Action Ref}
    (ht : Federation.Inv sites keepsUp { s with
      feeds := s.feeds.set l.sender f', inFlight := s.inFlight ++ sent channelOf l.sender f a })
    (hf : s.feeds[l.sender]? = some f)
    (hkeeps : l.keeps channelOf s (.feed l.sender a) = true)
    (hst : stepFeed sites orb l.sender f a = some f') :
    l.Inv channelOf { s with
      feeds := s.feeds.set l.sender f', inFlight := s.inFlight ++ sent channelOf l.sender f a } := by
  have hget : (s.feeds.set l.sender f')[l.sender]? = some f' :=
    List.getElem?_set_self (List.getElem?_eq_some_iff.1 hf).1
  have hinv := ht.feeds l.sender f' hget
  constructor
  · intro g o' hg ho'
    obtain rfl := Option.some.inj (hget.symm.trans hg)
    rcases Feed.outlets_step hst ho' with ⟨o, ho, rfl | ⟨b, rfl, hb⟩⟩ | ⟨-, hnone⟩
    · exact hl.feeds f _ hf ho
    · exact (hl.feeds f o hf ho).step (by simpa [Link.keeps] using hkeeps) hb
    · intro p r hp htarget
      rw [(hnone p hp).1] at htarget
      cases htarget
  · intro g o' place hg ho' hmem
    obtain rfl := Option.some.inj (hget.symm.trans hg)
    have hold : ∀ o, f.outlets[l.proxy]? = some o → some place ∈ o.given →
        (∃ r ∈ s.inFlight ++ sent channelOf l.sender f a, l.Carries r ∧ r.place = place) ∨
          ∃ q, s.Passed l.sender l.proxy l.receiver place q := by
      intro o ho hmem
      refine (hl.covered f o place hf ho hmem).imp_left ?_
      rintro ⟨r, hr, hcarries⟩
      exact ⟨r, List.mem_append_left _ hr, hcarries⟩
    rcases Feed.outlets_step hst ho' with ⟨o, ho, -⟩ | ⟨hnil, -⟩
    · have hpull : ∀ now, a ≠ .outlet l.proxy (.pull now) := by
        rintro now rfl
        simp [Link.keeps, Outlet.Action.links] at hkeeps
      rcases Feed.given_step hinv hst ho ho' hpull with
        hsame | ⟨p, target, new, event, hp, htarget, hsends, hgiven⟩
      · exact hold o ho (hsame ▸ hmem)
      · rw [hgiven] at hmem
        rcases List.mem_append.1 hmem with hmem | hmem
        · exact hold o ho hmem
        · obtain rfl := Option.some.inj (List.mem_singleton.1 hmem)
          have hchannel := hl.feeds f o hf ho p target hp htarget
          refine Or.inl ⟨⟨l.sender, l.proxy, place, event, l.receiver⟩,
            List.mem_append_right _ ?_, ⟨rfl, rfl, rfl⟩, rfl⟩
          simp only [sent, hsends, hchannel, List.mem_singleton]
    · rw [hnil] at hmem
      cases hmem

/-- A step of another channel. -/
theorem Link.Inv.other (hl : l.Inv channelOf s) {i : ℕ} (hi : i ≠ l.sender) (f' : Feed Ref)
    (more : List Request) :
    l.Inv channelOf { s with feeds := s.feeds.set i f', inFlight := s.inFlight ++ more } := by
  have hget : (s.feeds.set i f')[l.sender]? = s.feeds[l.sender]? := List.getElem?_set_ne hi
  constructor
  · intro g o hg ho
    exact hl.feeds g o (hget ▸ hg) ho
  · intro g o place hg ho hmem
    refine (hl.covered g o place (hget ▸ hg) ho hmem).imp_left ?_
    rintro ⟨r, hr, hcarries⟩
    exact ⟨r, List.mem_append_left _ hr, hcarries⟩

/-- A request arrives. The proxies of its receiver are as before. -/
theorem Link.Inv.arrive (hl : l.Inv channelOf s) {m : ℕ} {r : Request} {f f' : Feed Ref}
    (hr : s.inFlight[m]? = some r) (hf : s.feeds[r.receiver]? = some f)
    (hst : stepFeed sites orb r.receiver f (.channel (.push r.event)) = some f') :
    l.Inv channelOf { s with
      feeds := s.feeds.set r.receiver f'
      inFlight := s.inFlight.eraseIdx m
      arrived := s.arrived ++ [(r, f.history.accepted.length)] } := by
  have hsame : ∀ (i : ℕ) (g : Feed Ref), (s.feeds.set r.receiver f')[i]? = some g →
      ∃ g₀, s.feeds[i]? = some g₀ ∧ g₀.outlets = g.outlets := by
    intro i g hg
    by_cases hi : r.receiver = i
    · subst hi
      rw [List.getElem?_set_self (List.getElem?_eq_some_iff.1 hf).1] at hg
      obtain rfl := Option.some.inj hg
      obtain ⟨h, hh, rfl⟩ := Option.map_eq_some_iff.1 hst
      exact ⟨f, hf, rfl⟩
    · exact ⟨g, by rwa [List.getElem?_set_ne hi] at hg, rfl⟩
  constructor
  · intro g o hg ho
    obtain ⟨g₀, hg₀, houtlets⟩ := hsame _ g hg
    exact hl.feeds g₀ o hg₀ (houtlets ▸ ho)
  · intro g o place hg ho hmem
    obtain ⟨g₀, hg₀, houtlets⟩ := hsame _ g hg
    rcases hl.covered g₀ o place hg₀ (houtlets ▸ ho) hmem with
      ⟨r', hr', hcarries, hplace⟩ | ⟨q, hpassed⟩
    · rcases List.mem_cons.1 ((eraseIdx_perm hr).symm.subset hr') with rfl | hr'
      · refine Or.inr ⟨f.history.accepted.length, (r', f.history.accepted.length), ?_, hplace, rfl⟩
        exact List.mem_filter.2 ⟨List.mem_append_right _ (List.mem_singleton.2 rfl),
          decide_eq_true hcarries⟩
      · exact Or.inl ⟨r', hr', hcarries, hplace⟩
    · exact Or.inr ⟨q, passed_mono (s := s) rfl hpassed⟩

/-- A request is lost, which is not one of the link. -/
theorem Link.Inv.lose (hl : l.Inv channelOf s) {m : ℕ} {r : Request}
    (hr : s.inFlight[m]? = some r) (hkeeps : l.keeps channelOf s (.lose m) = true) :
    l.Inv channelOf { s with inFlight := s.inFlight.eraseIdx m, lost := s.lost ++ [r] } := by
  refine ⟨hl.feeds, ?_⟩
  intro f o place hf ho hmem
  refine (hl.covered f o place hf ho hmem).imp_left ?_
  rintro ⟨r', hr', hcarries, hplace⟩
  rcases List.mem_cons.1 ((eraseIdx_perm hr).symm.subset hr') with rfl | hr'
  · simp [Link.keeps, hr, hcarries.1, hcarries.2.1] at hkeeps
  · exact ⟨r', hr', hcarries, hplace⟩

theorem Link.Inv.step (ht : t.Inv sites keepsUp)
    (hl : l.Inv channelOf s) {a : Action Ref} (hkeeps : l.keeps channelOf s a = true)
    (hst : s.step sites orb channelOf a = some t) : l.Inv channelOf t := by
  cases stepped_of_step hst with
  | feed i f f' a hf _ hfst =>
      by_cases hi : i = l.sender
      · subst hi
        exact hl.sender ht hf hkeeps hfst
      · exact hl.other hi f' _
  | arrive m r f f' hr hf hfst => exact hl.arrive hr hf hfst
  | lose m r hr => exact hl.lose hr hkeeps

theorem link_inv_new (count : ℕ) : l.Inv channelOf (new sites count : Federation Ref) := by
  have hnone : ∀ (f : Feed Ref) (o : Outlet Ref),
      (new sites count : Federation Ref).feeds[l.sender]? = some f →
      f.outlets[l.proxy]? ≠ some o := by
    intro f o hf ho
    rw [new, List.getElem?_map, Option.map_eq_some_iff] at hf
    obtain ⟨i, -, rfl⟩ := hf
    cases ho
  constructor
  · intro f o hf ho
    exact absurd ho (hnone f o hf)
  · intro f o place hf ho
    exact absurd ho (hnone f o hf)

/-! ## Along a path

By induction along the path, from one link to the next: what arrives after a state has got numbers
that were free before. -/

/-- What can be said of a state that comes after another: what has arrived in between has got numbers
    that were free before. -/
structure Since (s t : Federation Ref) : Prop where
  grows : s.Grows t
  arrived : ∀ x ∈ t.arrived, x ∈ s.arrived ∨
    ∀ f : Feed Ref, s.feeds[x.1.receiver]? = some f → f.history.accepted.length ≤ x.2

theorem since_of_run (hn : ∀ i, (sites i).maxQueueLength + 1 ≤ 2 ^ 31 - 1)
    (hs : s.Inv sites fun _ _ => False) {bs : List (Action Ref)}
    (hrun : Run (Federation.step sites orb channelOf) s bs = some t) : s.Since t := by
  suffices h : t.Inv sites (fun _ _ => False) ∧ s.Since t from h.2
  refine Run.induct (P := fun _ u => u.Inv sites (fun _ _ => False) ∧ s.Since u)
    ⟨hs, grows_of_eq rfl, fun x hx => Or.inl hx⟩ ?_ hrun
  rintro - u a v - ⟨hu, hsince⟩ hst
  obtain ⟨hv, hgrows⟩ := hu.step hn (fun _ _ h => h.elim) hst
  refine ⟨hv, hsince.grows.trans hgrows, ?_⟩
  cases stepped_of_step hst with
  | feed i f f' a hf hanswers hfst => exact hsince.arrived
  | arrive m r f f' hr hf hfst =>
      intro x hx
      rcases List.mem_append.1 hx with hx | hx
      · exact hsince.arrived x hx
      · obtain rfl := List.mem_singleton.1 hx
        right
        intro g hg
        obtain ⟨g', hg', hgg'⟩ := hsince.grows _ g hg
        obtain rfl := Option.some.inj (hf.symm.trans hg')
        exact hgg'.accepted.length_le
  | lose m r hr => exact hsince.arrived

/-- The proxy has nothing more to give, its channel nothing more to hand over, and nothing that it has
    sent is in flight. -/
def Idle (sites : ℕ → Site) (s : Federation Ref) (i j : ℕ) : Prop :=
  (∃ f o, s.feeds[i]? = some f ∧ f.outlets[j]? = some o ∧
    f.history.channel.running = true ∧ f.history.channel.supplierAdmin.queue = [] ∧
    f.unread o ≤ (sites i).maxQueueLength ∧ o.servant.reader.moreEvents f.queue = false) ∧
  ∀ r ∈ s.inFlight, ¬ (r.sender = i ∧ r.proxy = j)

theorem start_le_positionAfter {size start : ℕ} {nums : List ℕ} (h : SkipsFrom size start nums) :
    start ≤ positionAfter start nums := by
  cases nums with
  | nil => exact le_rfl
  | cons k nums =>
      exact (h.start_le k List.mem_cons_self).trans (h.lt_positionAfter k List.mem_cons_self).le

/-- An idle proxy has given all events that its channel has accepted since a state in which it was
    there, as far as the filter keeps them. -/
theorem given_of_idle (hs : s.Inv sites fun _ _ => False) (ht : t.Inv sites keepsUp)
    (hgrows : s.Grows t) {i j : ℕ} (hkeepsUp : keepsUp i j)
    (hmade : ∃ f o, s.feeds[i]? = some f ∧ f.outlets[j]? = some o) (hidle : t.Idle sites i j)
    {p : ℕ} {e : Any} (hp : ∀ f, s.feeds[i]? = some f → f.history.accepted.length ≤ p)
    (he : t.event i p = some e)
    (hkeeps : ∀ f, t.feeds[i]? = some f → f.queue.keeps e = true) :
    ∃ f o, t.feeds[i]? = some f ∧ f.outlets[j]? = some o ∧ some p ∈ o.given := by
  obtain ⟨⟨f, o, hf, ho, hrunning, hempty, hunread, hmore⟩, -⟩ := hidle
  refine ⟨f, o, hf, ho, ?_⟩
  have hinv := ht.feeds i f hf
  rw [event, hf, Option.bind_some] at he
  -- the event has been handed over, and was kept
  have hhanded : p < f.history.channel.consumerAdmin.handed.length := by
    have hlength := hinv.offering.handed_le hrunning
    rw [hempty, List.length_nil, Nat.add_zero] at hlength
    exact hlength ▸ (List.getElem?_eq_some_iff.1 he).1
  have hkept : p ∈ f.history.channel.kept := by
    refine List.mem_filter.2 ⟨?_, ?_⟩
    · rw [hinv.offering.handed]
      exact List.mem_range.2 hhanded
    · rw [EventQueue.keepsAt, hinv.offering.events p hhanded, he]
      exact hkeeps f hf
  -- but not before the proxy was made
  obtain ⟨g, o₀, hg, ho₀⟩ := hmade
  obtain ⟨f', hf', hgrowsf⟩ := hgrows i g hg
  obtain rfl := Option.some.inj (hf.symm.trans hf')
  obtain ⟨o', ho', hstart, -⟩ := hgrowsf.outlets j o₀ ho₀
  obtain rfl := Option.some.inj (ho.symm.trans ho')
  have hstart_le : o.start ≤ g.history.channel.kept.length := by
    have hreader : g.world.readers[j]? = some o₀.trace := by
      simp only [Feed.world, List.getElem?_map, ho₀, Option.map_some]
    obtain ⟨nums, hnums, -⟩ := (hs.feeds i g hg).world.readers j o₀.trace hreader
    rw [hstart]
    exact (start_le_positionAfter hnums.skips).trans hnums.bound
  have hnew : p ∉ g.history.channel.kept := by
    intro hmem
    obtain ⟨e', -, haccepted, -⟩ := (hs.feeds i g hg).offering.accepted_of_kept hmem
    exact absurd (List.getElem?_eq_some_iff.1 haccepted).1 (Nat.not_lt.2 (hp g hg))
  obtain ⟨k, hk, hget⟩ := List.getElem_of_mem hkept
  have hge : g.history.channel.kept.length ≤ k := by
    by_contra hlt
    have hlt := Nat.not_le.1 hlt
    refine hnew (List.mem_iff_getElem.2 ⟨k, hlt, ?_⟩)
    rw [← hget]
    exact hgrowsf.kept.getElem hlt
  obtain ⟨-, hgiven, hall⟩ := hinv.given_eq hkeepsUp ho hunread
  have hall := hall hmore
  rw [hgiven]
  refine List.mem_map.2 ⟨k, List.mem_range'_1.2 ⟨hstart_le.trans hge, hall ▸ hk⟩, ?_⟩
  rw [List.getElem?_eq_getElem hk, hget]

/-- The links along a path. -/
def links : ℕ → List (ℕ × ℕ) → List Link
  | _, [] => []
  | i, (j, k) :: path => ⟨i, j, k⟩ :: links k path

/-- The proxies of the path, and proxy `j` at its end. -/
def proxies : ℕ → List (ℕ × ℕ) → ℕ → List (ℕ × ℕ)
  | i, [], j => [(i, j)]
  | i, (j₁, k) :: path, j => (i, j₁) :: proxies k path j

/-- All requests of an idle link have arrived. -/
theorem passed_of_given (hl : l.Inv channelOf t) (hidle : t.Idle sites l.sender l.proxy) {p : ℕ}
    (hgiven : ∃ f o, t.feeds[l.sender]? = some f ∧ f.outlets[l.proxy]? = some o ∧
      some p ∈ o.given) : ∃ q, t.Passed l.sender l.proxy l.receiver p q := by
  obtain ⟨f, o, hf, ho, hmem⟩ := hgiven
  refine (hl.covered f o p hf ho hmem).resolve_left ?_
  rintro ⟨r, hr, hcarries, -⟩
  exact hidle.2 r hr ⟨hcarries.1, hcarries.2.1⟩

/-- What has come since a state has a number that was free then. -/
theorem passed_since (hs : s.Inv sites fun _ _ => False) (hsince : s.Since t)
    {i j k p q : ℕ} (hp : ∀ f, s.feeds[i]? = some f → f.history.accepted.length ≤ p)
    (hpassed : t.Passed i j k p q) :
    ∀ f, s.feeds[k]? = some f → f.history.accepted.length ≤ q := by
  obtain ⟨x, hmem, rfl, rfl⟩ := hpassed
  obtain ⟨hx, hmatch⟩ := List.mem_filter.1 hmem
  obtain ⟨rfl, rfl, rfl⟩ := of_decide_eq_true hmatch
  refine (hsince.arrived x hx).resolve_left ?_
  intro hold
  obtain ⟨f, o, hf, -, -, hevent⟩ :=
    hs.origin x.1 (List.mem_append_right _ (List.mem_map_of_mem hold))
  exact absurd (List.getElem?_eq_some_iff.1 hevent).1 (Nat.not_lt.2 (hp f hf))

theorem delivered_of_idle (hs : s.Inv sites fun _ _ => False) (ht : t.Inv sites keepsUp)
    (hsince : s.Since t) (path : List (ℕ × ℕ)) (j : ℕ) {i p : ℕ} {e : Any}
    (hl : ∀ l ∈ links i path, l.Inv channelOf t)
    (hkeepsUp : ∀ x ∈ proxies i path j, keepsUp x.1 x.2)
    (hmade : ∀ x ∈ proxies i path j, ∃ f o, s.feeds[x.1]? = some f ∧ f.outlets[x.2]? = some o)
    (hidle : ∀ x ∈ proxies i path j, t.Idle sites x.1 x.2)
    (hp : ∀ f, s.feeds[i]? = some f → f.history.accepted.length ≤ p)
    (he : t.event i p = some e)
    (hkeeps : ∀ k ∈ i :: path.map Prod.snd, ∀ f, t.feeds[k]? = some f → f.queue.keeps e = true) :
    ∃ a, t.Delivered i path j p a := by
  induction path generalizing i p with
  | nil =>
      have hon : (i, j) ∈ proxies i [] j := List.mem_cons_self
      obtain ⟨f, o, hf, ho, hmem⟩ := given_of_idle hs ht hsince.grows (hkeepsUp _ hon) (hmade _ hon)
        (hidle _ hon) hp he (hkeeps i List.mem_cons_self)
      obtain ⟨a, ha⟩ := List.mem_iff_getElem?.1 hmem
      exact ⟨a, p, rfl, f, o, hf, ho, ha⟩
  | cons hop path ih =>
      obtain ⟨j₁, k⟩ := hop
      have hon : (i, j₁) ∈ proxies i ((j₁, k) :: path) j := List.mem_cons_self
      have hrest : ∀ x ∈ proxies k path j, x ∈ proxies i ((j₁, k) :: path) j :=
        fun x hx => List.mem_cons_of_mem _ hx
      obtain ⟨q, hpassed⟩ := passed_of_given (hl ⟨i, j₁, k⟩ List.mem_cons_self) (hidle _ hon)
        (given_of_idle hs ht hsince.grows (hkeepsUp _ hon) (hmade _ hon) (hidle _ hon) hp he
          (hkeeps i List.mem_cons_self))
      obtain ⟨e', hep, heq, -⟩ := ht.event_passed hpassed
      obtain rfl := Option.some.inj (he.symm.trans hep)
      obtain ⟨a, q', halong, hgiven⟩ := ih (fun l h => hl l (List.mem_cons_of_mem _ h))
        (fun x hx => hkeepsUp x (hrest x hx)) (fun x hx => hmade x (hrest x hx))
        (fun x hx => hidle x (hrest x hx)) (passed_since hs hsince hp hpassed) heq
        (fun m hm => hkeeps m (List.mem_cons_of_mem _ hm))
      exact ⟨a, q', ⟨q, hpassed, halong⟩, hgiven⟩

/-- **Federated delivery in full.** In the runs of channels with an index for each slot in an `int`:
    if the proxies of a path keep up, are connected as the path goes and to nothing else, and none
    of their requests is lost, then once they are idle every event that the first channel has
    accepted since all of them were made, and that the filters of all channels on the way keep, has
    been given to the consumer at the end. -/
theorem federated_in_full (hn : ∀ i, (sites i).maxQueueLength + 1 ≤ 2 ^ 31 - 1) (count : ℕ) (i : ℕ)
    (path : List (ℕ × ℕ)) (j : ℕ) {as bs : List (Action Ref)}
    (hproper : Along (step sites orb channelOf)
      (fun s a => (∀ x ∈ proxies i path j, s.Punctual sites a x.1 x.2) ∧
        ∀ l ∈ links i path, l.keeps channelOf s a = true) (new sites count) (as ++ bs))
    (hrun : Run (step sites orb channelOf) (new sites count) as = some s)
    (hrun' : Run (step sites orb channelOf) s bs = some t)
    (hmade : ∀ x ∈ proxies i path j, ∃ f o, s.feeds[x.1]? = some f ∧ f.outlets[x.2]? = some o)
    (hidle : ∀ x ∈ proxies i path j, t.Idle sites x.1 x.2) {p : ℕ} {e : Any}
    (hp : ∀ f, s.feeds[i]? = some f → f.history.accepted.length ≤ p)
    (he : t.event i p = some e)
    (hkeeps : ∀ k ∈ i :: path.map Prod.snd, ∀ f, t.feeds[k]? = some f → f.queue.keeps e = true) :
    ∃ a, t.Delivered i path j p a := by
  have hall : Run (step sites orb channelOf) (new sites count) (as ++ bs) = some t := by
    rw [run_append, hrun, Option.bind_some, hrun']
  have hstep : ∀ (u : Federation Ref) (a : Action Ref) (v : Federation Ref),
      u.Inv sites (fun i' j' => (i', j') ∈ proxies i path j) ∧
        (∀ l ∈ links i path, l.Inv channelOf u) →
      (∀ x ∈ proxies i path j, u.Punctual sites a x.1 x.2) ∧
        (∀ l ∈ links i path, l.keeps channelOf u a = true) →
      u.step sites orb channelOf a = some v →
      v.Inv sites (fun i' j' => (i', j') ∈ proxies i path j) ∧
        ∀ l ∈ links i path, l.Inv channelOf v := by
    rintro u a v ⟨hu, hl⟩ ⟨hpunctual, hkeep⟩ hst
    have hv := (hu.step hn (fun i' j' h => hpunctual _ h) hst).1
    exact ⟨hv, fun l hmem => (hl l hmem).step hv (hkeep l hmem) hst⟩
  obtain ⟨ht, hl⟩ := Run.invariant_of_along hstep
    ⟨inv_new _ count, fun l _ => link_inv_new count⟩ hproper hall
  have hs := inv_of_run hn hrun
  exact delivered_of_idle hs ht (since_of_run hn hs hrun') path j hl (fun _ h => h) hmade hidle hp
    he hkeeps

end Steps

/-- The last event has come to the client that pulls. -/
theorem federated_in_full_two :
    ∃ s t : Federation Str, Run (step twoSites stringOrb secondChannel) (new twoSites 2) federate
        = some s ∧
      Run (step twoSites stringOrb secondChannel) s passOnTwo = some t ∧
      t.event 0 2 = some Feed.longEvent ∧ ∃ a, t.Delivered 0 [(0, 1)] 0 2 a := by
  obtain ⟨s, t, hrun, hrun', hmade, hidle, hp, he, hkeeps⟩ : ∃ s t : Federation Str,
      Run (step twoSites stringOrb secondChannel) (new twoSites 2) federate = some s ∧
      Run (step twoSites stringOrb secondChannel) s passOnTwo = some t ∧
      (∀ x ∈ proxies 0 [(0, 1)] 0, ∃ f o, s.feeds[x.1]? = some f ∧ f.outlets[x.2]? = some o) ∧
      (∀ x ∈ proxies 0 [(0, 1)] 0, t.Idle twoSites x.1 x.2) ∧
      (∀ f, s.feeds[0]? = some f → f.history.accepted.length ≤ 2) ∧
      t.event 0 2 = some Feed.longEvent ∧
      (∀ k ∈ [0, 1], ∀ f, t.feeds[k]? = some f → f.queue.keeps Feed.longEvent = true) := by
    refine ⟨_, _, rfl, rfl, ?_, ?_, ?_, rfl, ?_⟩
    · intro x hx
      simp only [proxies, List.mem_cons, List.not_mem_nil, or_false] at hx
      rcases hx with rfl | rfl
      · exact ⟨_, _, rfl, rfl⟩
      · exact ⟨_, _, rfl, rfl⟩
    · intro x hx
      simp only [proxies, List.mem_cons, List.not_mem_nil, or_false] at hx
      rcases hx with rfl | rfl
      · exact ⟨⟨_, _, rfl, rfl, rfl, rfl, by decide +kernel, by decide +kernel⟩, by decide +kernel⟩
      · exact ⟨⟨_, _, rfl, rfl, rfl, rfl, by decide +kernel, by decide +kernel⟩, by decide +kernel⟩
    · rintro f ⟨⟩
      decide
    · intro k hk f hf
      simp only [List.mem_cons, List.not_mem_nil, or_false] at hk
      rcases hk with rfl | rfl
      · cases hf
        rfl
      · cases hf
        rfl
  have hn : ∀ i, (twoSites i).maxQueueLength + 1 ≤ 2 ^ 31 - 1 :=
    fun _ => (by decide : 4 + 1 ≤ 2 ^ 31 - 1)
  exact ⟨s, t, hrun, hrun', he, federated_in_full hn 2 0 [(0, 1)] 0 (by decide +kernel) hrun hrun'
    hmade hidle hp he hkeeps⟩

end Federation

end OmniEvents
