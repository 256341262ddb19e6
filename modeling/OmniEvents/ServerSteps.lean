import Mathlib.Data.Fintype.EquivFin
import OmniEvents.ServerCalls

set_option autoImplicit false

/-! # Calls and their steps

A call to a proxy is one step of the server, with what it appends to the log. In `DisconnectLog` it
is several, and a reply to a deferred request comes when it comes in `PushConsumerLog`. The two are
connected here. Every run of a push consumer's steps in which the replies are in time is a run of
calls; and every run of calls to the servants of a channel is a run of their steps, those of each
call one after the other. The logs are the same. -/

namespace OmniEvents

open Transition
open LogRecord (CleanName)

variable {Ref : Type}

namespace EventChannel

/-- A call to a proxy of a channel, and the log. -/
def callStep (orb : Orb Ref) (s : EventChannel Ref × List LogRecord) (a : ProxyCall Ref) :
    Option (EventChannel Ref × List LogRecord) :=
  (s.1.call orb a).map fun (c, records) => (c, s.2 ++ records)

variable {orb : Orb Ref} {c c' : EventChannel Ref} {log records : List LogRecord}

theorem run_call {a : ProxyCall Ref} (h : c.call orb a = some (c', records)) :
    Run (callStep orb) (c, log) [a] = some (c', log ++ records) := by
  rw [run_singleton, callStep, h, Option.map_some]

/-! ## The steps of a push consumer

A connect, a disconnect and a reply are one call each. What the model of the push consumer has
besides (the destruction of the channel, checkpoints, and what others write) is no call to a proxy. -/

/-- The channel has the connections of the state, and the same log. -/
structure Represents (channelName : Str) (s : PushConsumerLog Ref)
    (c : EventChannel Ref × List LogRecord) : Prop where
  inv : s.Inv channelName
  running : s.destroyed = false
  name : c.1.name = channelName
  connections : ∀ oid, c.1.connections.lookup oid = s.current oid
  log : c.2 = s.log

/-- A call of a client, with an object id of the server, or a reply that is in time. -/
def IsCall {channelName : Str} (s : PushConsumerLog Ref) :
    PushConsumerStep Ref channelName → Prop
  | .connect_push_supplier oid _ => ∃ count mypid sec, oid = newUniqueId count mypid sec
  | .disconnect_push_consumer _ => True
  | .reply i r => r = .returned true → ∃ oid, s.connections.lookup oid = some i
  | .destroy | .checkpoint _ _ _ _ | .foreign _ | .beside _ => False

section PushConsumer

variable {channelName : Str} {properties : List (Str × Str)} {s t : PushConsumerLog Ref}

theorem represents_connect {oid : Str} {pushSupplier : Option Ref}
    (horb : ∀ r, ∀ ch ∈ orb.object_to_string r, isSpace ch = false)
    (hname : CleanName channelName) (h : Represents channelName s (c, log))
    (hoid : ∃ count mypid sec, oid = newUniqueId count mypid sec)
    (hst : PushConsumerLog.step orb channelName properties s
      (.connect_push_supplier oid pushSupplier) = some t) :
    ∃ calls u, Run (callStep orb) (c, log) calls = some u ∧ Represents channelName t u := by
  obtain ⟨count, mypid, sec, rfl⟩ := hoid
  have hinv := PushConsumerLog.inv_connect h.inv hname horb
    (fun _ _ => cleanName_newUniqueId count mypid sec) hst
  obtain ⟨-, hrunning, hcname, hconnections, rfl⟩ := id h
  have hlookup := hconnections (newUniqueId count mypid sec)
  simp only [PushConsumerLog.step, hrunning, Bool.false_eq_true, if_false] at hst
  split at hst
  · cases hst
    exact ⟨[], _, rfl, h⟩
  · cases hst
    exact ⟨[], _, rfl, h⟩
  · next pushSupplier hnone =>
      cases hst
      have hfree : c.connections.lookup (newUniqueId count mypid sec) = none := by
        rw [hlookup, PushConsumerLog.current, hnone, Option.bind_none]
      have hcall : c.call orb (.connect_push_supplier count mypid sec (some pushSupplier)) =
          let oid := newUniqueId count mypid sec
          let connection := Connection.new orb c.name oid pushSupplier
          some ({ c with connections := OrdMap.insert oid connection c.connections },
            [connection.output]) := by
        simp only [call, hfree]
      subst hcname
      refine ⟨_, _, run_call hcall, hinv, rfl, rfl, ?_, rfl⟩
      intro oid
      rw [PushConsumerLog.current]
      simp only [OrdMap.lookup_insert]
      split
      · simp
      · rw [PushConsumerLog.current_append h.inv]
        exact hconnections oid

theorem represents_disconnect {oid : Str} (hname : CleanName channelName)
    (h : Represents channelName s (c, log))
    (hst : PushConsumerLog.step orb channelName properties s (.disconnect_push_consumer oid) =
      some t) :
    ∃ calls u, Run (callStep orb) (c, log) calls = some u ∧ Represents channelName t u := by
  have hinv := PushConsumerLog.inv_disconnect h.inv hname hst
  obtain ⟨-, hrunning, hcname, hconnections, rfl⟩ := id h
  simp only [PushConsumerLog.step, hrunning, Bool.false_eq_true, if_false] at hst
  split at hst
  · -- a second disconnect returns silently
    cases hst
    exact ⟨[], _, rfl, h⟩
  · next i hi =>
      cases hst
      obtain ⟨connection, hconnection, -⟩ := h.inv.lookup oid i hi
      have hlookup := hconnections oid
      rw [PushConsumerLog.current, hi, Option.bind_some, hconnection] at hlookup
      have hcall : c.call orb (.disconnect .ProxyPushConsumer oid) =
          some (c.remove oid .ProxyPushConsumer,
            [.erase (keyPath c.name .ProxyPushConsumer oid)]) := by
        simp [call, hasProxy, hlookup]
      subst hcname
      refine ⟨_, _, run_call hcall, hinv, rfl, rfl, ?_, rfl⟩
      intro oid'
      rw [PushConsumerLog.current, connections_remove_pushConsumer]
      simp only [OrdMap.lookup_erase]
      split
      · rfl
      · exact hconnections oid'

theorem represents_reply {i : ℕ} {r : IsAReply} (hname : CleanName channelName)
    (h : Represents channelName s (c, log))
    (htimely : r = .returned true → ∃ oid, s.connections.lookup oid = some i)
    (hst : PushConsumerLog.step orb channelName properties s (.reply i r) = some t) :
    ∃ calls u, Run (callStep orb) (c, log) calls = some u ∧ Represents channelName t u := by
  have hinv := PushConsumerLog.inv_reply h.inv hname htimely hst
  obtain ⟨-, hrunning, hcname, hconnections, rfl⟩ := id h
  simp only [PushConsumerLog.step] at hst
  split at hst
  · cases hst
  next connection hconnection =>
  split at hst
  next hpending =>
    cases hst
    obtain ⟨connection', hconnection', hflag⟩ := h.inv.pending i hpending
    obtain rfl : connection = connection' :=
      Option.some_inj.1 (hconnection.symm.trans hconnection')
    by_cases hr : r = .returned true
    · obtain ⟨oid, hi⟩ := htimely hr
      obtain ⟨d, hd, hoid⟩ := h.inv.lookup oid i hi
      obtain rfl : connection = d := Option.some_inj.1 (hconnection.symm.trans hd)
      have hlookup := hconnections oid
      rw [PushConsumerLog.current, hi, Option.bind_some, hconnection] at hlookup
      have hcall : c.call orb (.callback .ProxyPushConsumer oid r) =
          some ({ c with connections :=
              OrdMap.insert oid (connection.callback r).1 c.connections },
            (connection.callback r).2.toList) := by
        simp only [call, hlookup, hflag, Bool.false_eq_true, if_false]
      refine ⟨_, _, run_call hcall, hinv, hrunning, hcname, ?_, rfl⟩
      intro oid'
      have hlt := (List.getElem?_eq_some_iff.1 hconnection).1
      simp only [PushConsumerLog.current, OrdMap.lookup_insert]
      by_cases heq : oid' = oid
      · subst heq
        simp [hi, hlt]
      · rw [if_neg heq, hconnections oid', PushConsumerLog.current]
        cases hj : s.connections.lookup oid' with
        | none => rfl
        | some j =>
            have hji : i ≠ j := by
              rintro rfl
              obtain ⟨d, hd, hoid'⟩ := h.inv.lookup oid' i hj
              obtain rfl : connection = d := Option.some_inj.1 (hconnection.symm.trans hd)
              exact heq (hoid'.symm.trans hoid)
            simp [List.getElem?_set_ne hji]
    · -- nothing changes but that the request is gone
      have hset : s.objects.set i connection = s.objects := by
        obtain ⟨hlt, rfl⟩ := List.getElem?_eq_some_iff.1 hconnection
        exact List.set_getElem_self hlt
      rw [PushConsumerLog.callback_of_not_true hflag hr] at hinv ⊢
      simp only [hset, Option.toList_none, List.append_nil] at hinv ⊢
      exact ⟨[], _, rfl, hinv, hrunning, hcname, hconnections, rfl⟩
  · cases hst

/-- Every run of connects, disconnects and replies in time is a run of calls, with the same log. -/
theorem exists_run_of_pushConsumer {as : List (PushConsumerStep Ref channelName)}
    (horb : ∀ r, ∀ ch ∈ orb.object_to_string r, isSpace ch = false)
    (hname : CleanName channelName) (h : Represents channelName s (c, log))
    (hcalls : Along (PushConsumerLog.step orb channelName properties) IsCall s as)
    (hrun : Run (PushConsumerLog.step orb channelName properties) s as = some t) :
    ∃ calls u, Run (callStep orb) (c, log) calls = some u ∧ Represents channelName t u := by
  refine Run.simulate ?_ h hcalls hrun
  rintro s a t ⟨c, log⟩ h ha hst
  cases a with
  | connect_push_supplier oid pushSupplier => exact represents_connect horb hname h ha hst
  | disconnect_push_consumer oid => exact represents_disconnect hname h hst
  | reply i r => exact represents_reply hname h ha hst
  | destroy | checkpoint factory pre own post | foreign r | beside r => exact ha.elim

end PushConsumer

/-! ## The steps of the servants

The record of a call is appended in the midst of its steps, the worker of the log being idle. A
servant stays in `_servants` until it is etherealized; a channel does not have it any more when its
disconnect has begun. -/

/-- The channel has the servants of the state whose disconnect has not begun, and the same log. -/
structure Shows (c : EventChannel Ref × List LogRecord) (s : DisconnectLog Ref) : Prop where
  servants : ∀ p, p ∈ c.1.servants ↔ ∃ i, s.servants.lookup i = some ⟨c.1.name, p, .none⟩
  unique : ∀ i j p q, s.servants.lookup i = some ⟨c.1.name, p, .none⟩ →
    s.servants.lookup j = some ⟨c.1.name, q, .none⟩ → p.key = q.key → i = j
  idle : s.worker = .idle
  log : s.log = c.2

/-- A call that makes, connects or disconnects a servant of one of the three managers. -/
def IsServantCall : ProxyCall Ref → Prop
  | .incarnate _ _ _ _ _ | .connect _ _ _ _ => True
  | .disconnect kind _ => kind ≠ .ProxyPushConsumer
  | .connect_push_supplier _ _ _ _ | .callback _ _ _ => False

section Servants

variable {s t : DisconnectLog Ref} {p p' : Servant Ref} {name oid : Str} {kind : ProxyKind} {i : ℕ}

/-- `disconnect_push_supplier`, `disconnect_pull_consumer` and `disconnect_pull_supplier`, and the
    etherealization that follows. -/
theorem run_disconnect (hidle : s.worker = .idle)
    (hi : s.servants.lookup i = some ⟨name, p, .none⟩) (hactive : p.toProxy.active = true) :
    ∃ t, Run (@DisconnectLog.step Ref orb) s
        [.eraseKey i, .deactivateObject i, .clearTarget i, .etherealize i] = some t ∧
      (∀ j, t.servants.lookup j = if j = i then none else s.servants.lookup j) ∧
      t.worker = .idle ∧ t.log = s.log ++ [.erase (keyPath name p.key.1 p.key.2)] := by
  refine ⟨⟨OrdMap.erase i (OrdMap.insert i ⟨name, p.deactivateObject.clearTarget, .completed⟩
      (OrdMap.insert i ⟨name, p.deactivateObject, .deactivated⟩
        (OrdMap.insert i ⟨name, p, .erased⟩ s.servants))), .idle,
    s.log ++ [.erase (keyPath name p.key.1 p.key.2)]⟩, ?_, ?_, rfl, rfl⟩
  · simp [run_cons, DisconnectLog.step, hi, hidle, hactive, DisconnectLog.setServant,
      DisconnectLog.append, ServantState.path]
  · intro j
    simp only [OrdMap.lookup_erase, OrdMap.lookup_insert]
    split
    · rfl
    · rfl

/-- `connect_push_consumer`, `connect_pull_supplier` and `connect_pull_consumer`. -/
theorem run_connect {target : Option Ref} {now : ℕ} (hidle : s.worker = .idle)
    (hi : s.servants.lookup i = some ⟨name, p, .none⟩) (hactive : p.toProxy.active = true)
    (hconnect : p.connect orb target now = .ok p') (hactive' : p'.toProxy.active = true) :
    ∃ t, Run (@DisconnectLog.step Ref orb) s [.connect i target now, .output i] = some t ∧
      (∀ j, t.servants.lookup j = if j = i then some ⟨name, p', .none⟩ else s.servants.lookup j) ∧
      t.worker = .idle ∧ t.log = s.log ++ (p'.output orb name).records := by
  refine ⟨⟨OrdMap.insert i ⟨name, p', .none⟩ s.servants, .idle,
    s.log ++ (p'.output orb name).records⟩, ?_, fun j => OrdMap.lookup_insert .., rfl, rfl⟩
  simp [run_cons, DisconnectLog.step, hi, hidle, hactive, hactive', hconnect,
    DisconnectLog.setServant, DisconnectLog.append, DisconnectLog.output_of_active hactive']

/-- `incarnate`, under a number that is free. -/
theorem run_incarnate (hidle : s.worker = .idle) {e : ServantState Ref}
    (he : e.phase = .none ∧ e.Loggable orb) :
    ∃ i t, s.servants.lookup i = none ∧
      Run (@DisconnectLog.step Ref orb) s [.incarnate i ⟨e, he⟩] = some t ∧
      (∀ j, t.servants.lookup j = if j = i then some e else s.servants.lookup j) ∧
      t.worker = .idle ∧ t.log = s.log := by
  obtain ⟨i, hfree⟩ := Infinite.exists_notMem_finset (s.servants.map Prod.fst).toFinset
  have hnone : s.servants.lookup i = none := by
    rw [List.lookup_eq_none_iff]
    intro x hx
    rw [List.mem_toFinset] at hfree
    simp only [bne_iff_ne, ne_eq]
    rintro rfl
    exact hfree (List.mem_map_of_mem hx)
  refine ⟨i, s.setServant i e, hnone, ?_, fun j => OrdMap.lookup_insert .., hidle, rfl⟩
  rw [run_singleton, DisconnectLog.step, hnone]
  rfl

/-- The object id of a servant tells its number. -/
theorem Shows.of_key {j : ℕ} {q : Servant Ref} (h : Shows (c, log) s)
    (hi : s.servants.lookup i = some ⟨c.name, p, .none⟩)
    (hj : s.servants.lookup j = some ⟨c.name, q, .none⟩) (hkey : q.key = p.key) : j = i :=
  h.unique j i q p hj hi hkey

theorem Shows.remove (h : Shows (c, log) s) (hi : s.servants.lookup i = some ⟨c.name, p, .none⟩)
    (ht : ∀ j, t.servants.lookup j = if j = i then none else s.servants.lookup j)
    (hidle : t.worker = .idle) (hlog : t.log = log ++ records) :
    Shows (c.remove p.key.2 p.key.1, log ++ records) t where
  servants q := by
    rw [servants_remove, List.mem_filter, h.servants, name_remove]
    constructor
    · rintro ⟨⟨j, hj⟩, hne⟩
      refine ⟨j, ?_⟩
      rw [ht, if_neg, hj]
      rintro rfl
      rw [hi] at hj
      cases hj
      simp at hne
    · rintro ⟨j, hj⟩
      rw [ht] at hj
      split at hj
      · cases hj
      · next hji =>
          refine ⟨⟨j, hj⟩, ?_⟩
          have hne : q.key ≠ p.key := fun hkey => hji (h.of_key hi hj hkey)
          simpa using hne
  unique j k q r hj hk := by
    rw [name_remove] at hj hk
    rw [ht] at hj hk
    split at hj
    · cases hj
    · split at hk
      · cases hk
      · exact h.unique j k q r hj hk
  idle := hidle
  log := hlog

theorem Shows.insert (h : Shows (c, log) s) (hi : s.servants.lookup i = none)
    (hfresh : ∀ q ∈ c.servants, q.key ≠ p.key)
    (ht : ∀ j, t.servants.lookup j =
      if j = i then some ⟨c.name, p, .none⟩ else s.servants.lookup j)
    (hidle : t.worker = .idle) (hlog : t.log = log) : Shows (c.insert p, log) t where
  servants q := by
    rw [mem_insert, h.servants, name_insert]
    constructor
    · rintro (rfl | ⟨j, hj⟩)
      · exact ⟨i, by rw [ht, if_pos rfl]⟩
      · refine ⟨j, ?_⟩
        rw [ht, if_neg, hj]
        rintro rfl
        rw [hi] at hj
        cases hj
    · rintro ⟨j, hj⟩
      rw [ht] at hj
      split at hj
      · cases hj
        exact Or.inl rfl
      · exact Or.inr ⟨j, hj⟩
  unique j k q r hj hk hkey := by
    rw [name_insert] at hj hk
    have hold : ∀ {l q}, s.servants.lookup l = some ⟨c.name, q, .none⟩ → q.key ≠ p.key :=
      fun hl => hfresh _ ((h.servants _).2 ⟨_, hl⟩)
    rw [ht] at hj hk
    split at hj
    · next hji =>
        cases hj
        split at hk
        · next hki => rw [hji, hki]
        · exact absurd hkey.symm (hold hk)
    · split at hk
      · cases hk
        exact absurd hkey (hold hj)
      · exact h.unique j k q r hj hk hkey
  idle := hidle
  log := hlog

theorem mem_update {q : Servant Ref} (hp : ∃ q ∈ c.servants, q.key = p.key) :
    q ∈ (c.update p).servants ↔ q ∈ c.servants ∧ q.key ≠ p.key ∨ q = p := by
  rw [servants_update, List.mem_map]
  constructor
  · rintro ⟨q, hq, rfl⟩
    split
    · exact Or.inr rfl
    · next hne => exact Or.inl ⟨hq, hne⟩
  · rintro (⟨hq, hne⟩ | rfl)
    · exact ⟨q, hq, if_neg hne⟩
    · obtain ⟨q', hq', hkey⟩ := hp
      exact ⟨q', hq', if_pos hkey⟩

theorem Shows.update (h : Shows (c, log) s) (hi : s.servants.lookup i = some ⟨c.name, p, .none⟩)
    (hkey : p'.key = p.key)
    (ht : ∀ j, t.servants.lookup j =
      if j = i then some ⟨c.name, p', .none⟩ else s.servants.lookup j)
    (hidle : t.worker = .idle) (hlog : t.log = log ++ records) :
    Shows (c.update p', log ++ records) t where
  servants q := by
    rw [mem_update ⟨p, (h.servants p).2 ⟨i, hi⟩, hkey.symm⟩, h.servants, name_update]
    constructor
    · rintro (⟨⟨j, hj⟩, hne⟩ | rfl)
      · refine ⟨j, ?_⟩
        rw [ht, if_neg, hj]
        rintro rfl
        rw [hi] at hj
        cases hj
        exact hne hkey.symm
      · exact ⟨i, by rw [ht, if_pos rfl]⟩
    · rintro ⟨j, hj⟩
      rw [ht] at hj
      split at hj
      · cases hj
        exact Or.inr rfl
      · next hji =>
          exact Or.inl ⟨⟨j, hj⟩, fun heq => hji (h.of_key hi hj (heq.trans hkey))⟩
  unique j k q r hj hk heq := by
    rw [name_update] at hj hk
    rw [ht] at hj hk
    split at hj
    · next hji =>
        cases hj
        split at hk
        · next hki => rw [hji, hki]
        · rw [hji, h.of_key hi hk (heq.symm.trans hkey)]
    · split at hk
      · next hki =>
          cases hk
          rw [hki, h.of_key hi hj (heq.trans hkey)]
      · exact h.unique j k q r hj hk heq
  idle := hidle
  log := hlog

/-- The servants of a channel whose calls are followed: it can be written to a log. -/
structure Follows (orb : Orb Ref) (c : EventChannel Ref × List LogRecord) (s : DisconnectLog Ref) :
    Prop extends Shows c s where
  sound : c.1.Sound orb
  name : CleanName c.1.name

theorem exists_disconnect (hsound : c.Sound orb) (h : Shows (c, log) s) (hp : p ∈ c.servants) :
    ∃ as t, Run (@DisconnectLog.step Ref orb) s as = some t ∧
      Shows (c.remove p.key.2 p.key.1, log ++ [.erase (keyPath c.name p.key.1 p.key.2)]) t := by
  obtain ⟨i, hi⟩ := (h.servants p).1 hp
  obtain ⟨t, hrun, ht, hidle, hlog⟩ := run_disconnect h.idle hi (hsound.servants p hp).active
  refine ⟨_, t, hrun, h.remove hi ht hidle ?_⟩
  rw [hlog, h.log]

variable (orb) in
theorem exists_incarnate {count mypid sec now : ℕ} (hname : CleanName c.name)
    (h : Shows (c, log) s) (hnew : Servant.new (newUniqueId count mypid sec) now kind = some p)
    (hfresh : ∀ q ∈ c.servants, q.key ≠ p.key) :
    ∃ as t, Run (@DisconnectLog.step Ref orb) s as = some t ∧ Shows (c.insert p, log) t := by
  have hloggable : (⟨c.name, p, .none⟩ : ServantState Ref).Loggable orb := by
    refine ⟨hname, ?_, ?_⟩
    · rw [Servant.key_snd, Servant.key_new hnew]
      exact cleanName_newUniqueId count mypid sec
    · rw [(sound_new hnew).2]
      nofun
  obtain ⟨i, t, hi, hrun, ht, hidle, hlog⟩ := run_incarnate h.idle ⟨rfl, hloggable⟩
  exact ⟨_, t, hrun, h.insert hi hfresh ht hidle (hlog.trans h.log)⟩

theorem exists_connect {target : Option Ref} {now : ℕ} (hsound : c.Sound orb)
    (h : Shows (c, log) s) (hp : p ∈ c.servants) (hconnect : p.connect orb target now = .ok p') :
    ∃ as t, Run (@DisconnectLog.step Ref orb) s as = some t ∧
      Shows (c.update p', log ++ (p'.output orb c.name).records) t := by
  obtain ⟨i, hi⟩ := (h.servants p).1 hp
  have hpsound := hsound.servants p hp
  obtain ⟨t, hrun, ht, hidle, hlog⟩ :=
    run_connect h.idle hi hpsound.active hconnect (sound_connect hpsound hconnect).active
  refine ⟨_, t, hrun, h.update hi (Servant.key_connect hconnect) ht hidle ?_⟩
  rw [hlog, h.log]

/-- A call to a servant is a run of steps, with nothing between them. -/
theorem exists_call {a : ProxyCall Ref} (h : Follows orb (c, log) s) (ha : IsServantCall a)
    (hcall : c.call orb a = some (c', records)) :
    ∃ as t, Run (@DisconnectLog.step Ref orb) s as = some t ∧ Shows (c', log ++ records) t := by
  obtain ⟨h, hsound, hname⟩ := h
  cases a with
  | connect_push_supplier count mypid sec pushSupplier => exact ha.elim
  | callback kind oid r => exact ha.elim
  | incarnate kind count mypid sec now =>
      simp only [call] at hcall
      split at hcall
      · cases hcall
      next hfree =>
      split at hcall
      · cases hcall
      · next p hnew hvictim =>
          split at hcall
          · cases hcall
          · cases hcall
            rw [List.append_nil]
            exact exists_incarnate orb hname h hnew
              (fresh_servants (fresh_of_hasProxy hsound hfree (Servant.key_new hnew)))
      · next p oldest hnew hvictim =>
          cases hcall
          -- the oldest servant is disconnected first
          obtain ⟨-, holdest⟩ := victim_spec hvictim
          obtain ⟨as, t, hrun, ht⟩ := exists_disconnect hsound h (mem_pullSupplier.1 holdest)
          have hfresh : ∀ q ∈ (c.remove oldest.oid .ProxyPullSupplier).servants, q.key ≠ p.key := by
            intro q hq
            rw [servants_remove] at hq
            exact fresh_servants (fresh_of_hasProxy hsound hfree (Servant.key_new hnew)) q
              (List.mem_of_mem_filter hq)
          have hname' : CleanName (c.remove oldest.oid .ProxyPullSupplier).name := by
            rwa [name_remove]
          obtain ⟨bs, u, hrun', hu⟩ := exists_incarnate orb hname' ht hnew hfresh
          exact ⟨as ++ bs, u, by rw [run_append, hrun, Option.bind_some, hrun'], hu⟩
  | connect kind oid target now =>
      simp only [call, Option.map_eq_some_iff] at hcall
      obtain ⟨p, hp, hcall⟩ := hcall
      split at hcall
      · cases hcall
        refine ⟨[], s, rfl, ?_⟩
        rwa [List.append_nil]
      · next hconnect =>
          cases hcall
          exact exists_connect hsound h (servant_eq_some hp).1 hconnect
  | disconnect kind oid =>
      simp only [call] at hcall
      split at hcall
      · next hproxy =>
          cases hcall
          obtain ⟨p, hp⟩ : ∃ p, c.servant kind oid = some p := by
            rw [← Option.isSome_iff_exists]
            cases kind with
            | ProxyPushConsumer => exact absurd rfl ha
            | _ => exact hproxy
          obtain ⟨hmem, hkey⟩ := servant_eq_some hp
          obtain ⟨as, t, hrun, ht⟩ := exists_disconnect hsound h hmem
          rw [hkey] at ht
          exact ⟨as, t, hrun, ht⟩
      · cases hcall

/-- Every run of calls to servants is a run of their steps, with the same log. -/
theorem exists_run_of_calls {calls : List (ProxyCall Ref)} {u : EventChannel Ref × List LogRecord}
    (h : Follows orb (c, log) s) (hcalls : ∀ a ∈ calls, IsServantCall a)
    (hrun : Run (callStep orb) (c, log) calls = some u) :
    ∃ as t, Run (@DisconnectLog.step Ref orb) s as = some t ∧ Follows orb u t := by
  have hok : Along (callStep orb) (fun _ a => IsServantCall a) (c, log) calls :=
    along_of_forall (fun a ha _ => hcalls a ha) (c, log)
  refine Run.simulate ?_ h hok hrun
  rintro ⟨c, log⟩ a u s h ha hst
  simp only [callStep, Option.map_eq_some_iff] at hst
  obtain ⟨⟨c', records⟩, hcall, rfl⟩ := hst
  obtain ⟨as, t, hsteps, ht⟩ := exists_call h ha hcall
  have hcalled := called_of_call h.sound hcall
  refine ⟨as, t, hsteps, ht, hcalled.sound, ?_⟩
  rw [hcalled.name]
  exact h.name

end Servants

end EventChannel

end OmniEvents
