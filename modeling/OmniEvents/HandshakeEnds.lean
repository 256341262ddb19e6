import OmniEvents.Handshake
import Mathlib.Data.List.Perm.Basic

set_option autoImplicit false

/-! # The handshake ends

A proxy forgets its target when it sends a disconnect message, so what it has sent and what it still
holds never exceed the successful connects. This is shown of one operation (`Frugal`), of a call to a
manager (`Balanced`), and of every run of a network; that each message delivered gives rise to one
answer at most bounds all the messages. -/

namespace OmniEvents

open Transition Counting

namespace PeerServant

variable {P : Type} [PeerServant P]

/-! ## One operation

A message that an operation sends is paid for by a target that it gives up, and a target by the
connect that has set it. -/

/-- Messages are paid for by the target, or by the connect. -/
structure Frugal (credit : Option Exn → ℕ) (p : P) (r : Called Party P) : Prop where
  oid : oid r.state = oid p
  sent : r.sent.length + (target r.state).isSome.toNat ≤
    (target p).isSome.toNat + credit r.raised

/-- What happens to a manager's servants in a call for the sake of `id`. -/
def Balanced (servants : List P) (id : Str) (credit : ℕ) (r : ManagerCall (List P)) : Prop :=
  ∀ id', (r.sent.countP fun m => decide (m.1.1 = id')) + held r.state id' ≤
    held servants id' + if id' = id then credit else 0

variable {servants : List P} {credit : Option Exn → ℕ} {id : Str} {i : ℕ} {p : P}
  {op : P → Called Party P} {r made : ManagerCall (List P)}

theorem Balanced.mono {k l : ℕ} (h : Balanced servants id k r) (hkl : k ≤ l) :
    Balanced servants id l r := by
  intro id'
  refine (h id').trans (Nat.add_le_add_left ?_ _)
  split
  · exact hkl
  · exact le_rfl

/-- Without a credit it does not matter for whose sake the call is made. -/
theorem Balanced.zero {id' : Str} (h : Balanced servants id 0 r) : Balanced servants id' 0 r := by
  intro id''
  have := h id''
  simp only [ite_self] at this ⊢
  exact this

omit [PeerServant P] in
theorem countP_sentBy (a : Called Party P) (id id' : Str) :
    ((a.sentBy id).sent.countP fun m => decide (m.1.1 = id')) =
      if id = id' then a.sent.length else 0 := by
  simp only [Called.sentBy, List.countP_map]
  split
  · next h => exact List.countP_eq_length.2 fun m _ => by simpa using h
  · next h => exact List.countP_eq_zero.2 fun m _ => by simpa using h

theorem balanced_set (hp : servants[i]? = some p) {a : Called Party P} (h : Frugal credit p a) :
    Balanced servants (oid p) (credit a.raised) ((a.sentBy (oid p)).map (servants.set i)) := by
  intro id'
  have hcount := countP_set (p := fun p : P => decide (oid p = id') && (target p).isSome)
    (b := a.state) hp
  have hsent := h.sent
  rw [Called.map_sent, countP_sentBy, Called.map_state]
  unfold held
  show _ + (servants.set i a.state).countP _ ≤ _
  rw [h.oid] at hcount
  by_cases hid : oid p = id'
  · subst hid
    simp only [decide_true, Bool.true_and, if_true] at hcount ⊢
    omega
  · simp only [hid, decide_false, Bool.false_and, Bool.toNat_false, if_false, Ne.symm hid] at hcount ⊢
    omega

/-! ## A call to a manager -/

theorem callAt_balanced (h : callAt servants i op = some r)
    (hop : ∀ p, Frugal credit p (op p)) :
    ∃ p, servants[i]? = some p ∧ r.raised = (op p).raised ∧
      Balanced servants (oid p) (credit r.raised) r := by
  unfold callAt at h
  split at h
  · cases h
  · next p hp =>
      cases h
      exact ⟨p, hp, rfl, balanced_set hp (hop p)⟩

theorem callActive_balanced (h : callActive servants id op = some r)
    (hop : ∀ p, Frugal credit p (op p)) : Balanced servants id (credit r.raised) r := by
  unfold callActive at h
  split at h
  · cases h
  · next i hi =>
      obtain ⟨p, hp, -, hbalanced⟩ := callAt_balanced h hop
      obtain ⟨hlt, hfound, -⟩ := List.findIdx?_eq_some_iff_getElem.1 hi
      rw [(List.getElem_eq_iff _).2 hp] at hfound
      have hid : oid p = id := by
        simp only [Bool.and_eq_true, decide_eq_true_eq] at hfound
        exact hfound.1
      rwa [hid] at hbalanced

theorem callThrough_balanced (h : callThrough servants id (some made) op = some r)
    (hmade : Balanced servants id 0 made) (hop : ∀ p, Frugal credit p (op p)) :
    Balanced servants id (credit r.raised) r := by
  unfold callThrough at h
  split at h
  · simp only at h
    split at h
    · cases h
      exact hmade.mono (Nat.zero_le _)
    · obtain ⟨call, hcall, rfl⟩ := Option.map_eq_some_iff.1 h
      intro id'
      have hfirst := hmade id'
      have hsecond := callActive_balanced hcall hop id'
      simp only [ite_self, List.countP_append] at hfirst hsecond ⊢
      omega
  · exact callActive_balanced h hop

theorem held_insertServant (h : target p = none) : held (insertServant servants i p) id =
    held servants id := by
  unfold held insertServant
  rw [countP_insert, h, Option.isSome_none, Bool.and_false, Bool.toNat_false, Nat.add_zero]

theorem balanced_insertServant (h : target p = none) :
    Balanced servants id 0 ⟨insertServant servants i p, [], none⟩ := by
  intro id'
  rw [held_insertServant h]
  simp

theorem etherealize_held {servants' : List P} (h : etherealize servants i = some servants') :
    held servants' id ≤ held servants id := by
  unfold etherealize at h
  split at h
  · cases h
  · next p hp =>
      split at h
      · cases h
      · cases h
        exact Nat.le.intro (countP_eraseIdx hp)

end PeerServant

/-! ## The operations -/

open PeerServant

/-- A successful connect may pay for one message. -/
def ClientCall.credit : ClientCall → Option Exn → ℕ
  | .connect _, none => 1
  | _, _ => 0

section Operations

variable (logging : Bool) (orb : Orb Party) (now : ℕ) (calls : TriggerCall → Bool)

/-- Nothing is sent, and the target stays. -/
theorem frugal_silent {P : Type} [PeerServant P] {credit : Option Exn → ℕ} {p q : P}
    {raised : Option Exn} (hoid : oid q = oid p) (htarget : target q = target p) :
    Frugal credit p ⟨q, [], raised⟩ := by
  refine ⟨hoid, ?_⟩
  rw [htarget, List.length_nil, Nat.zero_add]
  exact Nat.le_add_right _ _

theorem frugal_disconnect_push_supplier (p : ProxyPushSupplier Party) :
    Frugal (fun _ => 0) p (Destroy.disconnect_push_supplier p) := by
  unfold Destroy.disconnect_push_supplier
  cases h : p.target with
  | none => exact ⟨rfl, by simp [target, h]⟩
  | some peer => exact ⟨rfl, by simp [target, h]⟩

theorem frugal_disconnect_pull_supplier (p : ProxyPullSupplier Party) :
    Frugal (fun _ => 0) p (Destroy.disconnect_pull_supplier now p) := by
  unfold Destroy.disconnect_pull_supplier
  simp only
  split
  · exact frugal_silent rfl rfl
  · cases h : p.target with
    | none => exact ⟨rfl, by simp [target, h]⟩
    | some peer => exact ⟨rfl, by simp [target, h]⟩

theorem frugal_disconnect_pull_consumer (p : ProxyPullConsumer Party) :
    Frugal (fun _ => 0) p (Destroy.disconnect_pull_consumer p) := by
  unfold Destroy.disconnect_pull_consumer
  cases h : p.target with
  | none => exact ⟨rfl, by simp [target, h]⟩
  | some peer => exact ⟨rfl, by simp [target, h]⟩

theorem frugal_disconnectDirect (p : ProxyPullSupplier Party) :
    Frugal (fun _ => 0) p (p.disconnectDirect logging now) := by
  unfold ProxyPullSupplier.disconnectDirect
  split
  · exact frugal_silent rfl rfl
  · exact frugal_disconnect_pull_supplier now p

theorem frugal_through {P : Type} [PeerServant P] {p : P} {a : Called Party P} (active : Bool)
    (h : Frugal (fun _ => 0) p a) : Frugal (fun _ => 0) p (.through active p a) := by
  unfold Called.through
  split
  · exact h
  · exact frugal_silent rfl rfl

theorem frugal_trigger (reply : Option PushReply) (moreEvents : Bool)
    (p : ProxyPushSupplier Party) :
    Frugal (fun _ => 0) p (p.trigger logging calls reply moreEvents) := by
  have hnext : ∀ q : ProxyPushSupplier Party, Frugal (fun _ => 0) q (q.pushNext calls moreEvents) := by
    intro q
    unfold ProxyPushSupplier.pushNext
    split
    · split
      · exact frugal_silent rfl rfl
      · exact frugal_silent rfl rfl
    · exact frugal_silent rfl rfl
  have hoid : ∀ q : ProxyPushSupplier Party, (q.disconnected logging calls).state.oid = q.oid := by
    intro q
    unfold ProxyPushSupplier.disconnected
    split <;> rfl
  have hend : ∀ q : ProxyPushSupplier Party, (q.disconnected logging calls).sent = [] ∧
      (q.disconnected logging calls).state.target = none := by
    intro q
    unfold ProxyPushSupplier.disconnected
    split <;> exact ⟨rfl, rfl⟩
  have hdown : Frugal (fun _ => 0) p (p.shutDown logging calls) := by
    unfold ProxyPushSupplier.shutDown
    cases h : p.target with
    | none => exact ⟨hoid p, by simp [target, hend]⟩
    | some peer =>
        simp only
        split
        · exact frugal_silent rfl rfl
        · split
          · exact ⟨rfl, by simp [target, h]⟩
          · exact ⟨hoid _, by simp [target, h, hend]⟩
  unfold ProxyPushSupplier.trigger
  split
  · exact frugal_silent rfl rfl
  · split
    · exact hdown
    · exact ⟨(hnext _).oid, (hnext _).sent⟩
    · exact hnext p

theorem frugal_collected (reply : Option Reply) (p : ProxyPullConsumer Party) :
    Frugal (fun _ => 0) p (p.collected logging reply) := by
  have hfailed : ∀ opname, Frugal (fun _ => 0) p (p.failed logging opname) := by
    intro opname
    obtain ⟨q, hq, hoid, htarget⟩ : ∃ q : ProxyPullConsumer Party,
        (if opname = ProxyPullConsumer.opPull ∨ opname = ProxyPullConsumer.opTryPull then
          { p with exceptionCount := p.exceptionCount + 1
                   mode := if p.mode = .Pull then .TryPull else .Pull }
        else p) = q ∧ q.oid = p.oid ∧ q.target = p.target := by
      split
      · exact ⟨_, rfl, rfl, rfl⟩
      · exact ⟨_, rfl, rfl, rfl⟩
    unfold ProxyPullConsumer.failed
    rw [hq]
    simp only
    split
    · split
      · next hnone => exact ⟨hoid, by simp [target, hnone]⟩
      · next peer hpeer =>
          rw [htarget] at hpeer
          split
          · exact ⟨hoid, by simp [target, hpeer]⟩
          · exact ⟨hoid, by simp [target, hpeer]⟩
    · exact frugal_silent hoid htarget
  unfold ProxyPullConsumer.collected
  split
  · split
    · exact frugal_silent rfl rfl
    · exact hfailed _
  · exact frugal_silent rfl rfl
  · exact frugal_silent rfl rfl

theorem frugal_triggerRequest (p : ProxyPullConsumer Party) :
    Frugal (fun _ => 0) p ⟨p.triggerRequest, [], none⟩ := by
  unfold ProxyPullConsumer.triggerRequest
  split
  · split
    · exact frugal_silent rfl rfl
    · exact frugal_silent rfl rfl
  · exact frugal_silent rfl rfl

/-- A connect gives a proxy without a target one at most. -/
theorem frugal_ofExcept {P : Type} [PeerServant P] {p : P} {peer : Option Party} {r : Except Exn P}
    (h : ∀ q, r = .ok q → oid q = oid p) :
    Frugal (ClientCall.connect peer).credit p (.ofExcept p r) := by
  cases r with
  | error ex => exact frugal_silent rfl rfl
  | ok q =>
      refine ⟨h q rfl, ?_⟩
      have hone := Bool.toNat_le (target q).isSome
      show 0 + (target q).isSome.toNat ≤ (target p).isSome.toNat + 1
      omega

theorem frugal_pushSupplier (request : ClientCall) (p : ProxyPushSupplier Party) :
    Frugal request.credit p (request.pushSupplier orb p) := by
  cases request with
  | connect peer =>
      refine frugal_ofExcept ?_
      intro q hq
      unfold ProxyPushSupplier.connect_push_consumer at hq
      split at hq
      · cases hq
      · split at hq
        · cases hq
        · cases hq
          rfl
  | disconnect => exact frugal_disconnect_push_supplier p
  | pull => exact frugal_silent rfl rfl

theorem frugal_pullSupplier (request : ClientCall) (p : ProxyPullSupplier Party) :
    Frugal request.credit p (request.pullSupplier now p) := by
  cases request with
  | connect peer =>
      refine frugal_ofExcept ?_
      intro q hq
      unfold ProxyPullSupplier.connect_pull_consumer at hq
      split at hq
      · cases hq
      · cases hq
        rfl
  | disconnect => exact frugal_disconnect_pull_supplier now p
  | pull =>
      unfold ClientCall.pullSupplier ProxyPullSupplier.contact
      simp only
      split
      · exact frugal_silent rfl rfl
      · exact frugal_silent rfl rfl

theorem frugal_pullConsumer (request : ClientCall) (p : ProxyPullConsumer Party) :
    Frugal request.credit p (request.pullConsumer p) := by
  cases request with
  | connect peer =>
      refine frugal_ofExcept ?_
      intro q hq
      unfold ProxyPullConsumer.connect_pull_supplier at hq
      split at hq
      · cases hq
      · split at hq
        · cases hq
        · cases hq
          rfl
  | disconnect => exact frugal_disconnect_pull_consumer p
  | pull => exact frugal_silent rfl rfl

end Operations

/-! ## Re-incarnation

A call to an object that is not active incarnates a servant, if the manager can. Such a servant has
no target, so a disconnect finds nobody to tell and the exchange ends. -/

namespace PeerServant

variable {P : Type} [PeerServant P] {servants : List P} {id : Str} {i : ℕ} {p : P}
  {op : P → Called Party P}

/-- The call that a servant is incarnated for reaches that servant. -/
theorem callActive_insertServant (h : Absent servants id) (hoid : oid p = id)
    (hactive : active p = true) :
    callActive (insertServant servants i p) id op =
      some (((op p).sentBy id).map (insertServant servants i)) := by
  have hbefore : (servants.take i).findIdx? (fun p => decide (oid p = id) && active p) = none := by
    rw [List.findIdx?_eq_none_iff]
    intro q hq
    simp [h q (List.mem_of_mem_take hq)]
  have hfound : (insertServant servants i p).findIdx? (fun p => decide (oid p = id) && active p) =
      some (servants.take i).length := by
    unfold insertServant
    rw [List.findIdx?_append, hbefore, List.findIdx?_cons]
    simp [hoid, hactive]
  have hat : (insertServant servants i p)[(servants.take i).length]? = some p := by
    unfold insertServant
    rw [List.getElem?_append_right le_rfl, Nat.sub_self]
    rfl
  have hset : ∀ q, (insertServant servants i p).set (servants.take i).length q =
      insertServant servants i q := by
    intro q
    unfold insertServant
    rw [List.set_append_right _ _ le_rfl, Nat.sub_self]
    rfl
  unfold callActive
  rw [hfound]
  simp only [callAt, hat, hoid, Called.map, hset]

theorem callThrough_absent {sent : List ((Str × Party) × DisconnectMessage)} {made : List P}
    (h : Absent servants id) (hmade : Absent made id) (hoid : oid p = id)
    (hactive : active p = true) :
    callThrough servants id (some ⟨insertServant made i p, sent, none⟩) op =
      some ⟨insertServant made i (op p).state, sent ++ ((op p).sentBy id).sent, (op p).raised⟩ := by
  unfold callThrough
  rw [if_pos h]
  simp only [callActive_insertServant hmade hoid hactive]
  rfl

end PeerServant

namespace ProxyChannel

variable {logging : Bool} {orb : Orb Party} {c : ProxyChannel} {kind : ProxyKind} {oid : Str}
  {now i : ℕ} {request : ClientCall}

theorem incarnate_absent (now i : ℕ) (h : Absent c.pullSuppliers oid)
    (hstuck : ¬c.Stuck logging .ProxyPullSupplier) :
    ∃ made, Absent made oid ∧
      ProxyPullSupplier.incarnate logging c.maxNumProxies c.pullSuppliers oid now i =
        some ⟨insertServant made i (.new oid true now),
          c.evictionSent logging .ProxyPullSupplier now, none⟩ := by
  unfold ProxyPullSupplier.incarnate evictionSent
  by_cases hfull : c.maxNumProxies ≤ c.pullSuppliers.length
  · rw [if_pos hfull, if_pos ⟨rfl, hfull⟩]
    cases hold : ProxyPullSupplier.oldest c.pullSuppliers with
    | none =>
        rw [ProxyPullSupplier.oldest_eq_none hold] at hfull
        exact absurd c.maxNumProxies_pos (Nat.not_lt.2 hfull)
    | some p =>
        have hraised : (p.disconnectDirect logging now).raised ≠ some .ServantNotActive :=
          fun hraised => by
            obtain ⟨hlog, hactive⟩ := ProxyPullSupplier.raised_iff.1 hraised
            exact hstuck ⟨rfl, hfull, hlog, p, hold, hactive⟩
        refine ⟨ProxyPullSupplier.evicted logging now c.pullSuppliers p, ?_,
          by simp only [if_neg hraised]⟩
        intro q hq
        rcases List.mem_or_eq_of_mem_set hq with hq | rfl
        · exact h q hq
        · rw [(frugal_disconnectDirect logging now p).oid]
          exact h p (List.mem_of_getElem? (PullSupplierManager.getElem?_idxOf_oldest hold))
  · rw [if_neg hfull, if_neg fun hboth => hfull hboth.2]
    exact ⟨c.pullSuppliers, h, rfl⟩

/-- A call on an etherealized object id reaches a fresh unconnected servant. -/
theorem call_of_etherealized (now i : ℕ) (request : ClientCall) (hdestroyed : c.destroyed = false)
    (h : c.Etherealized oid kind) (hstuck : ¬c.Stuck logging kind) :
    ∃ r, c.call logging orb kind oid now i request = some r ∧
      r.state.Incarnated orb now oid request kind ∧
      r.sent = c.evictionSent logging kind now ++
        (request.onFresh orb now oid kind).1.map (fun m => ((oid, m.1), m.2)) ∧
      r.raised = (request.onFresh orb now oid kind).2 := by
  have hmem : ∀ {P : Type} (servants : List P) (p : P), p ∈ insertServant servants i p :=
    fun servants p => List.mem_append_right _ List.mem_cons_self
  unfold call
  rw [hdestroyed]
  cases kind with
  | ProxyPushSupplier =>
      simp only [callThrough_absent h h (p := ProxyPushSupplier.new oid true) rfl rfl]
      exact ⟨_, rfl, hmem _ _, rfl, rfl⟩
  | ProxyPullSupplier =>
      obtain ⟨made, hmade, hincarnate⟩ := incarnate_absent now i h hstuck
      simp only [hincarnate,
        callThrough_absent h hmade (p := ProxyPullSupplier.new oid true now) rfl rfl]
      exact ⟨_, rfl, hmem _ _, rfl, rfl⟩
  | ProxyPullConsumer =>
      simp only [callThrough_absent h h (p := ProxyPullConsumer.new oid) rfl rfl]
      exact ⟨_, rfl, hmem _ _, rfl, rfl⟩
  | ProxyPushConsumer => exact h.elim

theorem disconnect_onFresh (hkind : kind ≠ .ProxyPushConsumer) :
    ClientCall.disconnect.onFresh orb now oid kind = ([], some .OBJECT_NOT_EXIST) := by
  cases kind with
  | ProxyPushConsumer => exact absurd rfl hkind
  | _ => rfl

end ProxyChannel

/-! ## Incarnation and push consumers -/

/-- An eviction is paid for by the servant evicted. -/
theorem incarnate_balanced {logging : Bool} {maxNumProxies now i : ℕ} {oid : Str}
    {servants : List (ProxyPullSupplier Party)} {made : ManagerCall (List (ProxyPullSupplier Party))}
    (h : ProxyPullSupplier.incarnate logging maxNumProxies servants oid now i = some made) :
    Balanced servants oid 0 made := by
  obtain ⟨-, -, rfl⟩ | ⟨p, -, hold, hcases⟩ := PullSupplierManager.incarnate_cases h
  · exact balanced_insertServant rfl
  · have hevicted : Balanced servants oid 0 _ :=
      (balanced_set (PullSupplierManager.getElem?_idxOf_oldest hold)
        (frugal_disconnectDirect logging now p)).zero
    obtain ⟨-, -, -, rfl⟩ | ⟨-, -, rfl⟩ := hcases
    · exact hevicted
    · intro id'
      rw [held_insertServant rfl]
      exact hevicted id'

theorem pushConsumer_balanced (orb : Orb Party) (channelName oid : Str)
    (connections : List (Str × Connection Party)) (request : ClientCall) (id : Str) :
    let r := request.pushConsumer orb channelName connections oid
    (r.sent.countP fun m => decide (m.1.1 = id)) + (r.state.countP fun e => decide (e.1 = id)) ≤
      (connections.countP fun e => decide (e.1 = id)) +
        if id = oid then request.credit r.raised else 0 := by
  cases request with
  | connect peer =>
      cases peer with
      | none => simp [ClientCall.pushConsumer]
      | some peer =>
          unfold ClientCall.pushConsumer
          cases hlookup : connections.lookup oid with
          | some connection => simp
          | none =>
              have hinsert := OrdMap.countP_insert_le (fun e => decide (e.1 = id)) oid
                (Connection.new orb channelName oid peer) connections
              by_cases hid : id = oid
              · subst hid
                simpa [ClientCall.credit] using hinsert
              · simpa [ClientCall.credit, hid, Ne.symm hid] using hinsert
  | disconnect =>
      unfold ClientCall.pushConsumer
      cases hlookup : connections.lookup oid with
      | none => simp
      | some connection =>
          by_cases hid : id = oid
          · subst hid
            have herase : (OrdMap.erase id connections).countP (fun e => decide (e.1 = id)) = 0 :=
              List.countP_eq_zero.2 fun e he => by simpa [OrdMap.erase] using (List.mem_filter.1 he).2
            have hmem : 0 < connections.countP fun e => decide (e.1 = id) := by
              obtain ⟨pre, post, rfl, -⟩ := List.lookup_eq_some_iff.1 hlookup
              exact List.countP_pos_iff.2 ⟨(id, connection), by simp, by simp⟩
            simp only [List.countP_singleton, decide_true, if_true, herase]
            omega
          · have hle : (OrdMap.erase oid connections).countP (fun e => decide (e.1 = id)) ≤
                connections.countP fun e => decide (e.1 = id) :=
              (List.filter_sublist).countP_le
            simpa [hid, Ne.symm hid] using hle
  | pull => simp [ClientCall.pushConsumer]

/-! ## A channel -/

namespace ProxyChannel

/-- The messages of a call that come from an address. -/
def sentFrom (r : ManagerCall ProxyChannel) (kind kind' : ProxyKind) (id : Str) : ℕ :=
  if kind' = kind then r.sent.countP fun m => decide (m.1.1 = id) else 0

/-- What happens to a channel's proxies in a call of one of them. -/
def Balanced (c : ProxyChannel) (kind : ProxyKind) (id : Str) (credit : ℕ)
    (r : ManagerCall ProxyChannel) : Prop :=
  ∀ kind' id', sentFrom r kind kind' id' + r.state.held id' kind' ≤
    c.held id' kind' + if kind' = kind ∧ id' = id then credit else 0

variable {logging : Bool} {orb : Orb Party} {c : ProxyChannel} {kind : ProxyKind} {id : Str}
  {now i : ℕ} {request : ClientCall} {r : ManagerCall ProxyChannel}

theorem balanced_pushSuppliers {k : ℕ} {r : ManagerCall (List (ProxyPushSupplier Party))}
    (h : PeerServant.Balanced c.pushSuppliers id k r) :
    c.Balanced .ProxyPushSupplier id k (r.map c.setPushSuppliers) := by
  intro kind id'
  cases kind with
  | ProxyPushSupplier => simpa [sentFrom, held, setPushSuppliers] using h id'
  | _ => simp [sentFrom, held, setPushSuppliers]

theorem balanced_pullSuppliers {k : ℕ} {r : ManagerCall (List (ProxyPullSupplier Party))}
    (h : PeerServant.Balanced c.pullSuppliers id k r) :
    c.Balanced .ProxyPullSupplier id k (r.map c.setPullSuppliers) := by
  intro kind id'
  cases kind with
  | ProxyPullSupplier => simpa [sentFrom, held, setPullSuppliers] using h id'
  | _ => simp [sentFrom, held, setPullSuppliers]

theorem balanced_pullConsumers {k : ℕ} {r : ManagerCall (List (ProxyPullConsumer Party))}
    (h : PeerServant.Balanced c.pullConsumers id k r) :
    c.Balanced .ProxyPullConsumer id k (r.map c.setPullConsumers) := by
  intro kind id'
  cases kind with
  | ProxyPullConsumer => simpa [sentFrom, held, setPullConsumers] using h id'
  | _ => simp [sentFrom, held, setPullConsumers]

theorem call_balanced (h : c.call logging orb kind id now i request = some r) :
    c.Balanced kind id (request.credit r.raised) r := by
  unfold call at h
  split at h
  · cases h
    intro kind' id'
    simp [sentFrom]
  · cases kind with
    | ProxyPushSupplier =>
        obtain ⟨r, hr, rfl⟩ := Option.map_eq_some_iff.1 h
        exact balanced_pushSuppliers
          (callThrough_balanced hr (balanced_insertServant rfl) (frugal_pushSupplier orb request))
    | ProxyPullSupplier =>
        obtain ⟨r, hr, rfl⟩ := Option.map_eq_some_iff.1 h
        refine balanced_pullSuppliers ?_
        cases hmade : ProxyPullSupplier.incarnate logging c.maxNumProxies c.pullSuppliers id now i with
        | none =>
            rw [hmade] at hr
            unfold callThrough at hr
            split at hr
            · cases hr
            · exact callActive_balanced hr (frugal_pullSupplier now request)
        | some made =>
            rw [hmade] at hr
            exact callThrough_balanced hr (incarnate_balanced hmade) (frugal_pullSupplier now request)
    | ProxyPullConsumer =>
        obtain ⟨r, hr, rfl⟩ := Option.map_eq_some_iff.1 h
        exact balanced_pullConsumers
          (callThrough_balanced hr (balanced_insertServant rfl) (frugal_pullConsumer request))
    | ProxyPushConsumer =>
        cases h
        intro kind id'
        cases kind with
        | ProxyPushConsumer =>
            simpa [sentFrom, held, setConnections] using
              pushConsumer_balanced orb c.name id c.connections request id'
        | _ => simp [sentFrom, held, setConnections]

/-- The channel's own doing never needs a credit. -/
theorem callAt_zero {P : Type} [PeerServant P] {servants : List P} {op : P → Called Party P}
    {r : ManagerCall (List P)} (h : callAt servants i op = some r)
    (hop : ∀ p, Frugal (fun _ => 0) p (op p)) : PeerServant.Balanced servants id 0 r := by
  obtain ⟨p, -, -, hbalanced⟩ := callAt_balanced h hop
  exact hbalanced.zero

theorem internal_balanced {action : Internal} (h : c.internal logging action = some r) :
    c.Balanced action.kind id 0 r := by
  have etherealized : ∀ {P : Type} [PeerServant P] {servants servants' : List P} {i : ℕ},
      etherealize servants i = some servants' →
        PeerServant.Balanced servants id 0 ⟨servants', [], none⟩ := by
    intro P _ servants servants' i h id'
    simpa using etherealize_held h
  cases action with
  | trigger i calls reply moreEvents =>
      obtain ⟨r, hr, rfl⟩ := Option.map_eq_some_iff.1 h
      exact balanced_pushSuppliers (callAt_zero hr (frugal_trigger logging calls reply moreEvents))
  | collect i reply =>
      obtain ⟨r, hr, rfl⟩ := Option.map_eq_some_iff.1 h
      exact balanced_pullConsumers (callAt_zero hr (frugal_collected logging reply))
  | triggerRequest i =>
      obtain ⟨r, hr, rfl⟩ := Option.map_eq_some_iff.1 h
      exact balanced_pullConsumers (callAt_zero hr frugal_triggerRequest)
  | disconnect kind now i =>
      cases kind with
      | ProxyPushSupplier =>
          obtain ⟨r, hr, rfl⟩ := Option.map_eq_some_iff.1 h
          exact balanced_pushSuppliers (callAt_zero hr fun p =>
            frugal_through p.active (frugal_disconnect_push_supplier p))
      | ProxyPullSupplier =>
          obtain ⟨r, hr, rfl⟩ := Option.map_eq_some_iff.1 h
          exact balanced_pullSuppliers (callAt_zero hr fun p =>
            frugal_through p.active (frugal_disconnect_pull_supplier now p))
      | ProxyPullConsumer =>
          obtain ⟨r, hr, rfl⟩ := Option.map_eq_some_iff.1 h
          exact balanced_pullConsumers (callAt_zero hr fun p =>
            frugal_through p.active (frugal_disconnect_pull_consumer p))
      | ProxyPushConsumer =>
          cases h
          intro kind id'
          cases kind with
          | ProxyPushConsumer =>
              simp [Internal.kind, sentFrom, held, setConnections, List.countP_map,
                Function.comp_def]
          | _ => simp [Internal.kind, sentFrom, held, setConnections]
  | etherealize kind i =>
      cases kind with
      | ProxyPushSupplier =>
          obtain ⟨servants, hservants, rfl⟩ := Option.map_eq_some_iff.1 h
          exact balanced_pushSuppliers (etherealized hservants)
      | ProxyPullSupplier =>
          obtain ⟨servants, hservants, rfl⟩ := Option.map_eq_some_iff.1 h
          exact balanced_pullSuppliers (etherealized hservants)
      | ProxyPullConsumer =>
          obtain ⟨servants, hservants, rfl⟩ := Option.map_eq_some_iff.1 h
          exact balanced_pullConsumers (etherealized hservants)
      | ProxyPushConsumer => cases h

theorem shutdown_held (c : ProxyChannel) (id : Str) (kind : ProxyKind) :
    c.shutdown.held id kind = 0 := by
  cases kind <;> rfl

end ProxyChannel

/-! ## The network

A message in flight is paid for by a connect or by a call of a client, so what is sent is bounded by
these. -/

/-- A disconnect message may be answered; a call is not. -/
def Message.weight : Message → ℕ
  | .disconnect _ _ _ => 2
  | .call _ => 1

namespace Network

variable {logging : Bool} {orb : Orb Party} {n n' : Network} {k : ℕ} {kind : ProxyKind}

/-- The proxies of an address that have a target. -/
def held (n : Network) (a : Address) : ℕ :=
  match n.channels[a.channel]? with
  | none => 0
  | some c => c.held a.oid a.kind

/-- The messages in flight and the answers to come. -/
def pending : List Message → ℕ
  | [] => 0
  | message :: messages => message.weight + pending messages

/-- A message in flight, and whatever may come of it, is paid for by a connect or by a call of a
    client. -/
structure Paid (n : Network) : Prop where
  sent : ∀ a, n.sent.count a + n.held a ≤ n.connects.count a
  pending : pending n.inFlight + n.delivered ≤ 2 * n.sent.length + n.started

theorem held_set {c c' : ProxyChannel} (h : n.channels[k]? = some c) (a : Address) :
    { n with channels := n.channels.set k c' }.held a =
      if a.channel = k then c'.held a.oid a.kind else n.held a := by
  have hlt := (List.getElem?_eq_some_iff.1 h).1
  unfold held
  by_cases hk : a.channel = k
  · rw [hk, List.getElem?_set_self hlt, if_pos rfl]
  · rw [List.getElem?_set_ne (Ne.symm hk), if_neg hk]

theorem act_spec {f : ProxyChannel → Option (ManagerCall ProxyChannel)} {raised : Option Exn}
    (h : n.act k kind f = some (n', raised)) :
    ∃ c r, n.channels[k]? = some c ∧ f c = some r ∧ raised = r.raised ∧
      n' = { n with
        channels := n.channels.set k r.state
        inFlight := n.inFlight ++ r.sent.map fun m => .disconnect ⟨k, kind, m.1.1⟩ m.1.2 m.2
        sent := n.sent ++ r.sent.map fun m => ⟨k, kind, m.1.1⟩ } := by
  unfold act at h
  split at h
  · cases h
  · next c hc =>
      split at h
      · cases h
      · next r hr =>
          cases h
          exact ⟨c, r, hc, hr, rfl, rfl⟩

theorem count_sent (sent : List ((Str × Party) × DisconnectMessage)) (a : Address) :
    (sent.map fun m => (⟨k, kind, m.1.1⟩ : Address)).count a =
      if a.channel = k ∧ a.kind = kind then sent.countP fun m => decide (m.1.1 = a.oid) else 0 := by
  obtain ⟨channel, akind, oid⟩ := a
  rw [List.count, List.countP_map]
  split
  · next h =>
      obtain ⟨rfl, rfl⟩ := h
      refine List.countP_congr ?_
      intro m _
      simp
  · next h =>
      refine List.countP_eq_zero.2 fun m _ heq => h ?_
      simp only [Function.comp_apply, beq_iff_eq, Address.mk.injEq] at heq
      exact ⟨heq.1.symm, heq.2.1.symm⟩

theorem pending_append (l m : List Message) : pending (l ++ m) = pending l + pending m := by
  induction l with
  | nil => exact (Nat.zero_add _).symm
  | cons message l ih => rw [List.cons_append, pending, pending, ih, Nat.add_assoc]

theorem pending_disconnects (sent : List ((Str × Party) × DisconnectMessage)) :
    pending (sent.map fun m => .disconnect ⟨k, kind, m.1.1⟩ m.1.2 m.2) = 2 * sent.length := by
  induction sent with
  | nil => rfl
  | cons m sent ih =>
      rw [List.map_cons, pending, ih, Message.weight, List.length_cons]
      omega

theorem pending_eraseIdx {l : List Message} {message : Message} {j : ℕ} (h : l[j]? = some message) :
    pending (l.eraseIdx j) + message.weight = pending l := by
  induction l generalizing j with
  | nil => cases h
  | cons head l ih =>
      cases j with
      | zero =>
          cases h
          exact Nat.add_comm _ _
      | succ j =>
          rw [List.eraseIdx_cons_succ, pending, pending, Nat.add_assoc, ih h]

theorem length_le_pending (l : List Message) : l.length ≤ pending l := by
  induction l with
  | nil => exact Nat.le_refl 0
  | cons message l ih =>
      have hweight : 1 ≤ message.weight := by
        cases message <;> simp [Message.weight]
      rw [pending, List.length_cons]
      omega

/-- A call pays for what it sends, except for the credit of a connect. -/
theorem paid_act {f : ProxyChannel → Option (ManagerCall ProxyChannel)} {raised : Option Exn}
    {id : Str} (credit : Option Exn → ℕ) (hn : n.Paid) (h : n.act k kind f = some (n', raised))
    (hf : ∀ c r, f c = some r → c.Balanced kind id (credit r.raised) r) :
    n'.connects = n.connects ∧
      (∀ a, n'.sent.count a + n'.held a ≤
        n.connects.count a + if a = ⟨k, kind, id⟩ then credit raised else 0) ∧
      pending n'.inFlight + n'.delivered ≤ 2 * n'.sent.length + n'.started := by
  obtain ⟨c, r, hc, hr, rfl, rfl⟩ := act_spec h
  refine ⟨rfl, ?_, ?_⟩
  · intro a
    have hsent := hn.sent a
    have hbalanced := hf c r hr a.kind a.oid
    have hheld : a.channel = k → n.held a = c.held a.oid a.kind := by
      rintro rfl
      unfold held
      rw [hc]
    show (n.sent ++ _).count a + { n with channels := n.channels.set k r.state }.held a ≤ _
    rw [List.count_append, count_sent, held_set hc]
    obtain ⟨channel, akind, oid⟩ := a
    by_cases hk : channel = k
    · subst hk
      have hheld : n.held ⟨channel, akind, oid⟩ = c.held oid akind := hheld rfl
      simp only [ProxyChannel.sentFrom, true_and, if_true, Address.mk.injEq] at hbalanced ⊢
      omega
    · simp only [hk, false_and, if_false, Address.mk.injEq]
      exact hsent
  · have hpending := hn.pending
    simp only [pending_append, pending_disconnects, List.length_append, List.length_map]
    omega

theorem paid_call {a : Address} {now i : ℕ} {request : ClientCall} {raised : Option Exn}
    (hn : n.Paid) (h : n.call logging orb a now i request = some (n', raised)) :
    n'.connects = n.connects ∧
      (∀ b, n'.sent.count b + n'.held b ≤
        n.connects.count b + if b = a then request.credit raised else 0) ∧
      pending n'.inFlight + n'.delivered ≤ 2 * n'.sent.length + n'.started :=
  paid_act _ hn h fun _ _ hr => ProxyChannel.call_balanced hr

theorem paid_of_zero {a : Address} (h : n'.connects = n.connects ∧
    (∀ b, n'.sent.count b + n'.held b ≤ n.connects.count b + if b = a then 0 else 0) ∧
      pending n'.inFlight + n'.delivered ≤ 2 * n'.sent.length + n'.started) : n'.Paid := by
  obtain ⟨hconnects, hsent, hpending⟩ := h
  refine ⟨?_, hpending⟩
  intro b
  rw [hconnects]
  simpa using hsent b

theorem paid_disconnect {a : Address} {now i : ℕ} (hn : n.Paid)
    (h : (n.call logging orb a now i .disconnect).map Prod.fst = some n') : n'.Paid := by
  obtain ⟨⟨_, raised⟩, hcall, rfl⟩ := Option.map_eq_some_iff.1 h
  exact paid_of_zero (a := a) (paid_call hn hcall)

theorem paid_deliver {now i : ℕ} {message : Message}
    (hsent : ∀ a, n.sent.count a + n.held a ≤ n.connects.count a)
    (hpending : pending n.inFlight + message.weight + n.delivered ≤
      2 * n.sent.length + n.started + 1)
    (h : n.deliver logging orb now i message = some n') : n'.Paid := by
  cases message with
  | disconnect sender party operation =>
      simp only [Message.weight] at hpending
      cases party with
      | client m =>
          cases h
          refine ⟨hsent, ?_⟩
          show pending (n.inFlight ++ [.call sender]) + n.delivered ≤ 2 * n.sent.length + n.started
          rw [pending_append]
          show pending n.inFlight + 1 + n.delivered ≤ _
          omega
      | proxy a =>
          have hn : n.Paid := ⟨hsent, by omega⟩
          simp only [deliver] at h
          split at h
          · exact paid_disconnect hn h
          · cases h
            exact hn
  | call a =>
      simp only [Message.weight] at hpending
      exact paid_disconnect ⟨hsent, by omega⟩ h

/-- Every step is paid for. -/
theorem paid_step {action : Action} (hn : n.Paid) (h : n.step logging orb action = some n') :
    n'.Paid := by
  cases action with
  | connect a peer now i =>
      obtain ⟨⟨m, raised⟩, hcall, rfl⟩ := Option.map_eq_some_iff.1 h
      obtain ⟨hconnects, hsent, hpending⟩ := paid_call hn hcall
      cases raised with
      | some ex =>
          refine ⟨?_, hpending⟩
          intro b
          rw [hconnects]
          simpa [ClientCall.credit] using hsent b
      | none =>
          refine ⟨?_, hpending⟩
          intro b
          have hb := hsent b
          show m.sent.count b + m.held b ≤ (m.connects ++ [a]).count b
          rw [hconnects, List.count_append, List.count_singleton]
          simp only [ClientCall.credit] at hb
          by_cases hba : b = a
          · simpa [hba] using hb
          · simpa [hba, Ne.symm hba] using hb
  | pull a now i =>
      obtain ⟨⟨m, raised⟩, hcall, rfl⟩ := Option.map_eq_some_iff.1 h
      exact paid_of_zero (a := a) (paid_call hn hcall)
  | start a =>
      cases h
      have hpending := hn.pending
      refine ⟨hn.sent, ?_⟩
      show pending (n.inFlight ++ [.call a]) + n.delivered ≤ 2 * n.sent.length + (n.started + 1)
      rw [pending_append]
      show pending n.inFlight + 1 + n.delivered ≤ _
      omega
  | deliver j now i =>
      simp only [step] at h
      split at h
      · cases h
      · next message hmessage =>
          have hpending := hn.pending
          rw [← pending_eraseIdx hmessage] at hpending
          refine paid_deliver (n := { n with inFlight := n.inFlight.eraseIdx j
                                             delivered := n.delivered + 1 }) hn.sent ?_ h
          show pending (n.inFlight.eraseIdx j) + message.weight + (n.delivered + 1) ≤
            2 * n.sent.length + n.started + 1
          omega
  | internal k action =>
      obtain ⟨⟨m, raised⟩, hact, rfl⟩ := Option.map_eq_some_iff.1 h
      exact paid_of_zero (a := ⟨k, action.kind, []⟩)
        (paid_act (fun _ => 0) hn hact fun _ _ hr => ProxyChannel.internal_balanced hr)
  | shutdown k =>
      simp only [step] at h
      split at h
      · cases h
      · next c hc =>
          cases h
          refine ⟨fun a => (Nat.add_le_add_left ?_ _).trans (hn.sent a), hn.pending⟩
          rw [held_set hc, ProxyChannel.shutdown_held]
          split
          · exact Nat.zero_le _
          · exact le_rfl

theorem paid_init (channels : List (Str × { m : ℕ // 0 < m })) : (init channels).Paid := by
  refine ⟨?_, le_rfl⟩
  intro a
  have hheld : (init channels).held a = 0 := by
    unfold held
    split
    · rfl
    · next c hc =>
        obtain ⟨e, -, rfl⟩ := List.mem_map.1 (List.mem_of_getElem? hc)
        cases a.kind <;> rfl
  rw [hheld]
  exact le_rfl

/-- **The handshake ends.** In every run of a network, whatever the order in which messages arrive and
    whoever starts a disconnection: no proxy has sent more disconnect messages than it has had successful
    connects; the messages delivered and in flight are at most two for each connect and one for each
    call that a client has made on its own; and a call on an etherealized object id is answered by a
    fresh unconnected servant, a disconnect therefore by `OBJECT_NOT_EXIST`, with no message but that
    of a proxy which has to make room. -/
theorem handshake_ends (logging : Bool) (orb : Orb Party)
    (channels : List (Str × { m : ℕ // 0 < m })) (as : List Action) (n : Network)
    (hrun : Run (step logging orb) (init channels) as = some n) :
    (∀ a, n.sent.count a ≤ n.connects.count a) ∧
      n.delivered + n.inFlight.length ≤ 2 * n.connects.length + n.started ∧
      ∀ c ∈ n.channels, c.destroyed = false → ∀ kind oid, c.Etherealized oid kind →
        ¬c.Stuck logging kind → ∀ now i,
          (∃ r, c.call logging orb kind oid now i .disconnect = some r ∧
            r.raised = some .OBJECT_NOT_EXIST ∧ r.sent = c.evictionSent logging kind now) ∧
          ∀ request, ∃ r, c.call logging orb kind oid now i request = some r ∧
            r.state.Incarnated orb now oid request kind ∧
            r.sent = c.evictionSent logging kind now ++
              (request.onFresh orb now oid kind).1.map (fun m => ((oid, m.1), m.2)) ∧
            r.raised = (request.onFresh orb now oid kind).2 := by
  have hpaid : n.Paid := Run.invariant (fun _ _ _ hn h => paid_step hn h) (paid_init channels) hrun
  have hcount : ∀ a, n.sent.count a ≤ n.connects.count a := fun a =>
    (Nat.le_add_right _ _).trans (hpaid.sent a)
  refine ⟨hcount, ?_, fun c _ hdestroyed kind oid h hstuck now i => ⟨?_, ?_⟩⟩
  · have hlength : n.sent.length ≤ n.connects.length :=
      (List.subperm_ext_iff.2 fun a _ => hcount a).length_le
    have hpending := hpaid.pending
    have hflight := length_le_pending n.inFlight
    omega
  · obtain ⟨r, hr, -, hsent, hraised⟩ :=
      ProxyChannel.call_of_etherealized now i .disconnect hdestroyed h hstuck
    have hkind : kind ≠ .ProxyPushConsumer := by
      rintro rfl
      exact h.elim
    rw [ProxyChannel.disconnect_onFresh hkind] at hsent hraised
    exact ⟨r, hr, hraised, by simpa using hsent⟩
  · intro request
    exact ProxyChannel.call_of_etherealized now i request hdestroyed h hstuck

/-- An ORB that nothing is asked of. -/
def mute : Orb Party := ⟨fun _ => [], fun _ => .ok none⟩

/-- A push supplier and a push consumer of two channels, connected with each other. -/
def federated : List (Str × { m : ℕ // 0 < m }) :=
  [(['s'], ⟨1, Nat.one_pos⟩), (['c'], ⟨1, Nat.one_pos⟩)]

/-- A push supplier of the first channel. -/
def supplier : Address := ⟨0, .ProxyPushSupplier, ['S']⟩

/-- Its consumer, a proxy of the second channel. -/
def consumer : Address := ⟨1, .ProxyPushConsumer, ['C']⟩

/-- A client disconnects the supplier, and the consumer's answer comes after its etherealization. -/
def unwind : List Action :=
  [.connect supplier (some (.proxy consumer)) 0 0, .connect consumer (some (.proxy supplier)) 0 0,
    .start supplier, .deliver 0 1 0, .deliver 0 1 0,
    .internal 0 (.etherealize .ProxyPushSupplier 0), .deliver 0 2 0]

theorem handshake_ends_federated :
    ∃ n, Run (step true mute) (init federated) unwind = some n ∧ n.inFlight = [] ∧
      n.sent = [supplier, consumer] ∧ n.delivered = 3 ∧
      (∀ a, n.sent.count a ≤ n.connects.count a) := by
  obtain ⟨n, hrun, hflight, hsent, hdelivered⟩ :
      ∃ n, Run (step true mute) (init federated) unwind = some n ∧ n.inFlight = [] ∧
        n.sent = [supplier, consumer] ∧ n.delivered = 3 := ⟨_, rfl, rfl, rfl, rfl⟩
  exact ⟨n, hrun, hflight, hsent, hdelivered, (handshake_ends true mute federated unwind n hrun).1⟩

/-- A pull supplier of the first channel. -/
def pullSupplierA : Address := ⟨0, .ProxyPullSupplier, ['A']⟩

/-- The first of two pull suppliers is disconnected and etherealized; one is allowed at a time. -/
def replaced : List Action :=
  [.connect pullSupplierA (some (.client 0)) 1 0, .start pullSupplierA, .deliver 0 2 0,
    .deliver 0 3 0, .internal 0 (.etherealize .ProxyPullSupplier 0),
    .connect ⟨0, .ProxyPullSupplier, ['B']⟩ (some (.client 1)) 4 0]

/-- A repeated disconnect makes a servant, and the servant evicts another proxy. -/
theorem repeated_disconnect_sends :
    ∃ n c r, Run (step false mute) (init [(['c'], ⟨1, Nat.one_pos⟩)]) replaced = some n ∧
      n.inFlight = [.call pullSupplierA] ∧ n.channels = [c] ∧
      c.Etherealized ['A'] .ProxyPullSupplier ∧
      c.call false mute .ProxyPullSupplier ['A'] 5 1 .disconnect = some r ∧
      r.raised = some .OBJECT_NOT_EXIST ∧
      r.sent = [((['B'], .client 1), .disconnect_pull_consumer)] := by
  refine ⟨_, _, _, rfl, rfl, rfl, ?_, rfl, rfl, rfl⟩
  unfold ProxyChannel.Etherealized
  decide

end Network

end OmniEvents
