import OmniEvents.Lib.Reached
import OmniEvents.Restart

set_option autoImplicit false

/-! # Destroying channels

`EventChannel_i::destroy` disconnects the proxies of both admins, one after the other and each by a
call through its POA. A proxy that is not connected raises `OBJECT_NOT_EXIST`, and one that is not
active has no reference to call it by; nothing catches these exceptions, so they end the whole chain
of loops. `EventChannelStore::empty` is one more loop of this kind, over the channels. The set of
servants does not change during the calls, since etherealization follows later. -/

namespace OmniEvents

open Reached

variable {Ref : Type} {σ τ : Type*}

/-! ## Calls

A call changes the state, sends messages to clients, and may raise. The loops stop at the first
exception, and what was done before it stays done. -/

/-- The four requests that tell a client that its proxy has disconnected. -/
inductive DisconnectMessage where
  | disconnect_push_consumer
  | disconnect_pull_consumer
  | disconnect_push_supplier
  | disconnect_pull_supplier
  deriving DecidableEq, Repr

/-- What a call leaves behind: the new state, the messages sent to clients, and the exception that
    ended it, if any. -/
structure Called (Ref : Type) (σ : Type*) where
  state : σ
  sent : List (Ref × DisconnectMessage)
  raised : Option Exn
  deriving DecidableEq, Repr

namespace Called

/-- What a call does to a part, it does to the whole. -/
def map (f : σ → τ) (a : Called Ref σ) : Called Ref τ := ⟨f a.state, a.sent, a.raised⟩

/-- The statements of `a`, then those of `f`. -/
def andThen (a : Called Ref σ) (f : σ → Called Ref σ) : Called Ref σ :=
  match a.raised with
  | some _ => a
  | none => ⟨(f a.state).state, a.sent ++ (f a.state).sent, (f a.state).raised⟩

/-- A loop that calls each element in turn. -/
def each (f : σ → Called Ref σ) : List σ → Called Ref (List σ)
  | [] => ⟨[], [], none⟩
  | p :: ps =>
      match (f p).raised with
      | some ex => ⟨(f p).state :: ps, (f p).sent, some ex⟩
      | none => ⟨(f p).state :: (each f ps).state, (f p).sent ++ (each f ps).sent, (each f ps).raised⟩

@[simp] theorem map_state (f : σ → τ) (a : Called Ref σ) : (a.map f).state = f a.state := rfl

@[simp] theorem map_sent (f : σ → τ) (a : Called Ref σ) : (a.map f).sent = a.sent := rfl

@[simp] theorem map_raised (f : σ → τ) (a : Called Ref σ) : (a.map f).raised = a.raised := rfl

theorem each_raised (f : σ → Called Ref σ) (ps : List σ) :
    (each f ps).raised.isSome = ps.any fun p => (f p).raised.isSome := by
  induction ps with
  | nil => rfl
  | cons p ps ih => cases hp : (f p).raised <;> simp [each, hp, ih]

/-- A loop sends what the elements that it reaches send. -/
theorem each_sent (f : σ → Called Ref σ) (ps : List σ) :
    (each f ps).sent = (reached (fun p => (f p).raised.isSome) ps).flatMap fun p => (f p).sent := by
  induction ps with
  | nil => rfl
  | cons p ps ih => cases hp : (f p).raised <;> simp [each, reached, hp, ih]

theorem each_state (f : σ → Called Ref σ) (ps : List σ) :
    (each f ps).state = (reached (fun p => (f p).raised.isSome) ps).map (fun p => (f p).state) ++
      missed (fun p => (f p).raised.isSome) ps := by
  induction ps with
  | nil => rfl
  | cons p ps ih => cases hp : (f p).raised <;> simp [each, reached, missed, hp, ih]

end Called

/-! ## The proxies -/

/-- A call through the POA by the reference that `_this()` returns. -/
def Called.through (active : Bool) (p : σ) (call : Called Ref σ) : Called Ref σ :=
  if active then call else ⟨p, [], some .ServantNotActive⟩

namespace Destroy

/-- `ProxyPushSupplier_i::disconnect_push_supplier`: the object is deactivated before the target is
    looked at. -/
def disconnect_push_supplier (p : ProxyPushSupplier Ref) : Called Ref (ProxyPushSupplier Ref) :=
  match p.target with
  | none => ⟨{ p with active := false }, [], some .OBJECT_NOT_EXIST⟩
  | some target =>
      ⟨{ p with active := false, target := none }, [(target, .disconnect_push_consumer)], none⟩

/-- `touch()` sets the time. A consumer need not be known by a reference. -/
def disconnect_pull_supplier (now : ℕ) (p : ProxyPullSupplier Ref) :
    Called Ref (ProxyPullSupplier Ref) :=
  let p := { p with active := false, timestamp := now }
  if !p.connected then ⟨p, [], some .OBJECT_NOT_EXIST⟩
  else
    match p.target with
    | none => ⟨p, [], none⟩
    | some target => ⟨{ p with target := none }, [(target, .disconnect_pull_consumer)], none⟩

/-- `ProxyPullConsumer_i::disconnect_pull_consumer`. -/
def disconnect_pull_consumer (p : ProxyPullConsumer Ref) : Called Ref (ProxyPullConsumer Ref) :=
  match p.target with
  | none => ⟨{ p with active := false }, [], some .OBJECT_NOT_EXIST⟩
  | some target =>
      ⟨{ p with active := false, target := none }, [(target, .disconnect_pull_supplier)], none⟩

end Destroy

/-- `disconnect` of a proxy manager, where there is one. -/
def disconnectManager (call : σ → Called Ref σ) :
    Option (List σ) → Called Ref (Option (List σ))
  | none => ⟨none, [], none⟩
  | some servants => (Called.each call servants).map some

/-- `ProxyPushConsumer_i::disconnect`, which makes no calls through the POA. -/
def disconnectConnections (connections : List (Str × Connection Ref)) :
    Called Ref (List (Str × Connection Ref)) :=
  ⟨[], connections.map fun e => (e.2.target, .disconnect_push_supplier), none⟩

/-! ## The channel -/

/-- A channel with its flag, and whether its POAManager holds requests. -/
structure RunningChannel (Ref : Type) extends EventChannel Ref where
  shutdownRequested : Bool
  holding : Bool

namespace RunningChannel

open Destroy

/-- `ConsumerAdmin_i::disconnect`. -/
def disconnectConsumerAdmin (now : ℕ) (c : RunningChannel Ref) : Called Ref (RunningChannel Ref) :=
  ((disconnectManager (fun p => Called.through p.active p (disconnect_push_supplier p))
      c.pushSupplier).map fun servants => { c with pushSupplier := servants }).andThen fun c =>
    (disconnectManager (fun p => Called.through p.active p (disconnect_pull_supplier now p))
      c.pullSupplier).map fun servants => { c with pullSupplier := servants }

/-- `SupplierAdmin_i::disconnect`. -/
def disconnectSupplierAdmin (c : RunningChannel Ref) : Called Ref (RunningChannel Ref) :=
  ((disconnectConnections c.connections).map fun connections =>
      { c with connections := connections }).andThen fun c =>
    (disconnectManager (fun p => Called.through p.active p (disconnect_pull_consumer p))
      c.pullConsumer).map fun servants => { c with pullConsumer := servants }

/-- `EventChannel_i::destroy`. -/
def destroy (now : ℕ) (c : RunningChannel Ref) : Called Ref (RunningChannel Ref) :=
  if c.shutdownRequested then ⟨c, [], some .OBJECT_NOT_EXIST⟩
  else
    -- the flag stays set, and the manager active, even if an exception follows
    (disconnectConsumerAdmin now { c with shutdownRequested := true, holding := false }).andThen
      disconnectSupplierAdmin

/-- `EventChannelStore::empty`, over the channels in the order of their addresses. -/
def empty (now : ℕ) (channels : List (RunningChannel Ref)) :
    Called Ref (List (RunningChannel Ref)) :=
  Called.each (destroy now) channels

/-- `EventChannelFactory_i::delete_all`. -/
def delete_all (now : ℕ) (channels : List (RunningChannel Ref)) :
    Called Ref (List (RunningChannel Ref)) :=
  empty now channels

end RunningChannel

/-! ## What the loops see of a proxy

For the loops a proxy is whether its disconnect raises and which message it sends (`Peer`). What is
said of channels is then about lists of these. -/

/-- Does the call to a proxy raise, and who is its client? -/
structure Peer (Ref : Type) where
  raises : Bool
  client : Option (Ref × DisconnectMessage)

/-- The message that the client of a proxy gets. -/
def Peer.sent (x : Peer Ref) : List (Ref × DisconnectMessage) :=
  if x.raises then [] else x.client.toList

/-- A push supplier is skipped with an exception if it is not connected. -/
def ProxyPushSupplier.peer (p : ProxyPushSupplier Ref) : Peer Ref :=
  { raises := !p.active || p.target.isNone
    client := p.target.map fun target => (target, .disconnect_push_consumer) }

/-- `_connected` decides here, and a nil target gets no message. -/
def ProxyPullSupplier.peer (p : ProxyPullSupplier Ref) : Peer Ref :=
  { raises := !p.active || !p.connected
    client := p.target.map fun target => (target, .disconnect_pull_consumer) }

/-- A connection is always that of a client. -/
def Connection.peer (c : Connection Ref) : Peer Ref :=
  { raises := false
    client := some (c.target, .disconnect_push_supplier) }

/-- A pull consumer is skipped with an exception if it is not connected. -/
def ProxyPullConsumer.peer (p : ProxyPullConsumer Ref) : Peer Ref :=
  { raises := !p.active || p.target.isNone
    client := p.target.map fun target => (target, .disconnect_pull_supplier) }

/-- The proxies of a channel in the order in which `destroy` comes to them. -/
def RunningChannel.peers (c : RunningChannel Ref) : List (Peer Ref) :=
  ((c.pushSupplier.getD []).map (·.peer) ++ (c.pullSupplier.getD []).map (·.peer)) ++
    (c.connections.map (·.2.peer) ++ (c.pullConsumer.getD []).map (·.peer))

/-- The messages that `destroy` owes to the clients whose references are known. -/
def RunningChannel.clients (c : RunningChannel Ref) : List (Ref × DisconnectMessage) :=
  c.peers.filterMap (·.client)

/-- The call comes to these proxies, up to the first that raises. -/
structure Called.Visits (a : Called Ref σ) (peers : List (Peer Ref)) : Prop where
  raised : a.raised.isSome = peers.any (·.raises)
  sent : a.sent = (reached (·.raises) peers).flatMap (·.sent)

namespace Called.Visits

theorem map {a : Called Ref σ} {peers : List (Peer Ref)} (h : a.Visits peers) (f : σ → τ) :
    (a.map f).Visits peers := ⟨h.raised, h.sent⟩

theorem andThen {a : Called Ref σ} {f : σ → Called Ref σ} {xs ys : List (Peer Ref)}
    (ha : a.Visits xs) (hf : (f a.state).Visits ys) : (a.andThen f).Visits (xs ++ ys) := by
  have hany := ha.raised
  cases hraised : a.raised with
  | some ex =>
      rw [hraised, Option.isSome_some] at hany
      constructor
      · simp [Called.andThen, hraised, ← hany]
      -- nothing behind the exception is reached
      · rw [reached_append_of_any hany.symm, ← ha.sent, Called.andThen, hraised]
  | none =>
      rw [hraised, Option.isSome_none] at hany
      constructor
      · simp only [Called.andThen, hraised, hf.raised, List.any_append, ← hany, Bool.false_or]
      · have hsent := ha.sent
        rw [reached_of_not_any hany.symm] at hsent
        rw [reached_append_of_not_any hany.symm, List.flatMap_append, ← hsent, ← hf.sent,
          Called.andThen, hraised]

/-- A manager's loop, if one call does what the servant's `peer` says. -/
theorem manager {call : σ → Called Ref σ} {peer : σ → Peer Ref}
    (hraised : ∀ p, (call p).raised.isSome = (peer p).raises) (hsent : ∀ p, (call p).sent = (peer p).sent)
    (servants : Option (List σ)) :
    (disconnectManager call servants).Visits ((servants.getD []).map peer) := by
  cases servants with
  | none => exact ⟨rfl, rfl⟩
  | some servants =>
      constructor
      · simp only [disconnectManager, Called.map_raised, Called.each_raised, hraised,
          Option.getD_some, List.any_map]
        rfl
      · simp only [disconnectManager, Called.map_sent, Called.each_sent, hraised, hsent,
          Option.getD_some, reached_map, List.flatMap_map]

end Called.Visits

/-! ## A channel -/

namespace RunningChannel

theorem visits_consumerAdmin (now : ℕ) (c : RunningChannel Ref) :
    (disconnectConsumerAdmin now c).Visits
      ((c.pushSupplier.getD []).map (·.peer) ++ (c.pullSupplier.getD []).map (·.peer)) := by
  refine ((Called.Visits.manager ?_ ?_ _).map _).andThen ((Called.Visits.manager ?_ ?_ _).map _)
  · intro p
    cases hactive : p.active <;> cases htarget : p.target <;>
      simp [Called.through, Destroy.disconnect_push_supplier, ProxyPushSupplier.peer, hactive, htarget]
  · intro p
    cases hactive : p.active <;> cases htarget : p.target <;>
      simp [Called.through, Destroy.disconnect_push_supplier, ProxyPushSupplier.peer, Peer.sent,
        hactive, htarget]
  · intro p
    cases hactive : p.active <;> cases hconnected : p.connected <;> cases htarget : p.target <;>
      simp [Called.through, Destroy.disconnect_pull_supplier, ProxyPullSupplier.peer, hactive,
        hconnected, htarget]
  · intro p
    cases hactive : p.active <;> cases hconnected : p.connected <;> cases htarget : p.target <;>
      simp [Called.through, Destroy.disconnect_pull_supplier, ProxyPullSupplier.peer, Peer.sent,
        hactive, hconnected, htarget]

theorem visits_connections (connections : List (Str × Connection Ref)) :
    (disconnectConnections connections).Visits (connections.map (·.2.peer)) := by
  have hany : (connections.map (·.2.peer)).any (·.raises) = false := by
    simp [Connection.peer]
  constructor
  · rw [hany]
    rfl
  · rw [reached_of_not_any hany, List.flatMap_map]
    exact List.map_eq_flatMap

theorem visits_supplierAdmin (c : RunningChannel Ref) :
    (disconnectSupplierAdmin c).Visits
      (c.connections.map (·.2.peer) ++ (c.pullConsumer.getD []).map (·.peer)) := by
  refine ((visits_connections _).map _).andThen ((Called.Visits.manager ?_ ?_ _).map _)
  · intro p
    cases hactive : p.active <;> cases htarget : p.target <;>
      simp [Called.through, Destroy.disconnect_pull_consumer, ProxyPullConsumer.peer, hactive, htarget]
  · intro p
    cases hactive : p.active <;> cases htarget : p.target <;>
      simp [Called.through, Destroy.disconnect_pull_consumer, ProxyPullConsumer.peer, Peer.sent,
        hactive, htarget]

/-- The consumer admin leaves the other admin alone. -/
theorem disconnectConsumerAdmin_state (now : ℕ) (c : RunningChannel Ref) :
    (disconnectConsumerAdmin now c).state.connections = c.connections ∧
      (disconnectConsumerAdmin now c).state.pullConsumer = c.pullConsumer ∧
      (disconnectConsumerAdmin now c).state.shutdownRequested = c.shutdownRequested := by
  unfold disconnectConsumerAdmin Called.andThen
  split
  · exact ⟨rfl, rfl, rfl⟩
  · exact ⟨rfl, rfl, rfl⟩

theorem disconnectSupplierAdmin_state (c : RunningChannel Ref) :
    (disconnectSupplierAdmin c).state.shutdownRequested = c.shutdownRequested := by
  unfold disconnectSupplierAdmin Called.andThen
  split
  · rfl
  · rfl

/-- `destroy` comes to all proxies in one order. -/
theorem visits_destroy (now : ℕ) {c : RunningChannel Ref} (h : c.shutdownRequested = false) :
    (c.destroy now).Visits c.peers := by
  have hsupplierAdmin : ∀ a : RunningChannel Ref, a.connections = c.connections →
      a.pullConsumer = c.pullConsumer →
      (disconnectSupplierAdmin a).Visits
        (c.connections.map (·.2.peer) ++ (c.pullConsumer.getD []).map (·.peer)) := by
    intro a hconnections hpullConsumer
    rw [← hconnections, ← hpullConsumer]
    exact visits_supplierAdmin a
  obtain ⟨hconnections, hpullConsumer, -⟩ := disconnectConsumerAdmin_state now
    { c with shutdownRequested := true, holding := false }
  rw [destroy, if_neg (by simp [h])]
  exact (visits_consumerAdmin now _).andThen (hsupplierAdmin _ hconnections hpullConsumer)

/-- Does `destroy` raise? -/
def raises (c : RunningChannel Ref) : Bool := c.shutdownRequested || c.peers.any (·.raises)

theorem destroy_raised (now : ℕ) (c : RunningChannel Ref) :
    (c.destroy now).raised.isSome = c.raises := by
  cases h : c.shutdownRequested with
  | true => simp [destroy, raises, h]
  | false => simp [raises, h, (visits_destroy now h).raised]

/-- The flag is set in any case. -/
theorem destroy_shutdownRequested (now : ℕ) (c : RunningChannel Ref) :
    (c.destroy now).state.shutdownRequested = true := by
  have hflag := (disconnectConsumerAdmin_state now
    { c with shutdownRequested := true, holding := false }).2.2
  unfold destroy
  split
  · assumption
  · unfold Called.andThen
    split
    · exact hflag
    · exact (disconnectSupplierAdmin_state _).trans hflag

end RunningChannel

/-- The messages sent to the proxies that were reached are those owed to all of them exactly if
    nobody is known behind a proxy that raises. -/
theorem sent_perm_clients (peers : List (Peer Ref)) :
    ((reached (·.raises) peers).flatMap (·.sent)).Perm (peers.filterMap (·.client)) ↔
      ∀ pre x post, peers = pre ++ x :: post → x.raises = true →
        ∀ y ∈ x :: post, y.client = none := by
  induction peers with
  | nil => simp [reached]
  | cons x peers ih =>
      cases hx : x.raises with
      | true =>
          -- a proxy that raises sends nothing itself, and nothing behind it is reached
          have hsent : (reached (·.raises) (x :: peers)).flatMap (·.sent) = [] := by
            simp [reached, Peer.sent, hx]
          rw [hsent, List.nil_perm, List.filterMap_eq_nil_iff]
          constructor
          · intro h pre y post hsplit _ z hz
            exact h z (hsplit ▸ List.mem_append_right pre hz)
          · intro h
            exact h [] x peers rfl hx
      | false =>
          have hsent : (reached (·.raises) (x :: peers)).flatMap (·.sent)
              = x.client.toList ++ (reached (·.raises) peers).flatMap (·.sent) := by
            simp [reached, Peer.sent, hx]
          have hclients : (x :: peers).filterMap (·.client)
              = x.client.toList ++ peers.filterMap (·.client) := by
            cases hclient : x.client <;> simp [hclient]
          rw [hsent, hclients, List.perm_append_left_iff, ih]
          constructor
          · intro h pre y post hsplit hy
            rcases pre with _ | ⟨x', pre⟩
            · obtain ⟨rfl, rfl⟩ := List.cons.inj hsplit
              rw [hx] at hy
              cases hy
            · exact h pre y post (List.cons.inj hsplit).2 hy
          · intro h pre y post hsplit hy
            exact h (x :: pre) y post (congrArg (x :: ·) hsplit) hy

/-- **`destroy` sends every message that it owes exactly if nobody is known behind a proxy that
    raises.** -/
theorem destroy_disconnects_iff (now : ℕ) (c : RunningChannel Ref) (h : c.shutdownRequested = false) :
    (c.destroy now).sent.Perm c.clients ↔
      ∀ pre x post, c.peers = pre ++ x :: post → x.raises = true →
        ∀ y ∈ x :: post, y.client = none := by
  rw [(RunningChannel.visits_destroy now h).sent]
  exact sent_perm_clients c.peers

/-- A proxy that was asked for its type, and so incarnated. -/
def unconnectedSupplier : ProxyPushSupplier Str := .new ['1'] true

/-- A push supplier with a consumer. -/
def connectedSupplier : ProxyPushSupplier Str :=
  { (ProxyPushSupplier.new ['2'] true : ProxyPushSupplier Str) with
    target := some ['I'], target_sior := ['I'] }

/-- A channel with two push suppliers and nothing else. -/
def twoSuppliers (p q : ProxyPushSupplier Str) : RunningChannel Str :=
  { name := ['a'], properties := [], connections := [], pullConsumer := none
    pushSupplier := some [p, q], pullSupplier := none, shutdownRequested := false, holding := false }

theorem destroy_disconnects_iff_unconnected_last :
    ((twoSuppliers connectedSupplier unconnectedSupplier).destroy 0).sent.Perm
      (twoSuppliers connectedSupplier unconnectedSupplier).clients := by
  refine (destroy_disconnects_iff 0 _ rfl).2 ?_
  intro pre x post hsplit hx y hy
  have hpeers : (twoSuppliers connectedSupplier unconnectedSupplier).peers
      = [connectedSupplier.peer, unconnectedSupplier.peer] := rfl
  rw [hpeers] at hsplit
  rcases pre with _ | ⟨x₁, _ | ⟨x₂, pre⟩⟩
  · obtain ⟨rfl, -⟩ := List.cons.inj hsplit
    exact absurd hx (by decide)
  · obtain ⟨-, hsplit⟩ := List.cons.inj hsplit
    obtain ⟨rfl, rfl⟩ := List.cons.inj hsplit
    obtain rfl := List.mem_singleton.1 hy
    rfl
  · simp at hsplit

/-- The connected one is not told if the other comes first. -/
theorem unconnected_first :
    ¬((twoSuppliers unconnectedSupplier connectedSupplier).destroy 0).sent.Perm
      (twoSuppliers unconnectedSupplier connectedSupplier).clients := by
  decide

/-! ## All channels -/

namespace RunningChannel

theorem delete_all_state (now : ℕ) (channels : List (RunningChannel Ref)) :
    (delete_all now channels).state =
      (reached raises channels).map (fun c => (c.destroy now).state) ++ missed raises channels := by
  have hraises : (fun c : RunningChannel Ref => (c.destroy now).raised.isSome) = raises :=
    funext (destroy_raised now)
  rw [delete_all, empty, Called.each_state, hraises]

end RunningChannel

/-- **`delete_all` shuts down every channel exactly if no channel whose `destroy` raises stands before
    one that was not shut down already.** -/
theorem delete_all_iff (now : ℕ) (channels : List (RunningChannel Ref)) :
    (∀ c ∈ (RunningChannel.delete_all now channels).state, c.shutdownRequested = true) ↔
      ∀ pre c post, channels = pre ++ c :: post → c.raises = true →
        ∀ d ∈ post, d.shutdownRequested = true := by
  rw [← forall_missed, RunningChannel.delete_all_state, List.forall_mem_append]
  have hreached : ∀ c ∈ (reached RunningChannel.raises channels).map fun c => (c.destroy now).state,
      c.shutdownRequested = true := by
    intro c hc
    obtain ⟨d, -, rfl⟩ := List.mem_map.1 hc
    exact d.destroy_shutdownRequested now
  exact ⟨fun h => h.2, fun h => ⟨hreached, h⟩⟩

/-- A channel whose thread has yet to remove it from the store protects the one behind it. -/
theorem second_channel_survives :
    ¬∀ c ∈ (RunningChannel.delete_all 0
        [{ twoSuppliers connectedSupplier connectedSupplier with shutdownRequested := true },
          twoSuppliers connectedSupplier connectedSupplier]).state, c.shutdownRequested = true := by
  decide

end OmniEvents
