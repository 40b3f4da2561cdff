import Mqvpn.Client.Moves

/-!
# What a client asks for and what it hears

A connection of the client makes at most one request for a tunnel, when its handshake finishes.
Whether the request bears the reorder header depends on the receive engine of the connection,
which is made with the connection and goes with it.

Every move of a call is a turn of its connection: a callback has one of its effects, a connection
is started, or what there is of a connection rests or is closed.  `Asks` says what holds of
requests and answers after every turn.

## Main definitions

* `Turn` — what a call can do to the connection, the requests and the record, bit by bit.
* `Asks` — the invariant.

## Main results

* `Asks.turn` — every turn keeps the invariant.
-/

namespace Mqvpn.Cli

open List

open Endpoint (ClientState StreamId)

variable {c c' : Client} {k k' : CliConn} {now : ℕ}

/-! ### Turns -/

/-- What is said between the endpoints, with the configuration it depends on. -/
def Client.talk (c : Client) : ClientConfig × List (ℕ × TunnelEvent) × List TunnelRequest :=
  (c.cfg, c.tunnelLog, c.requests)

/-- A step of a call. -/
inductive Turn (c c' : Client) : Prop
  /-- A callback. -/
  | effect (k : CliConn) (hc : c.conn = some k) (he : Effect c k c')
  /-- The connection stays, is closed locally, or goes. -/
  | rest (hconn : ∀ k', c'.conn = some k' →
        ∃ k, c.conn = some k ∧ (k' = k ∨ k' = { k with closing := true }))
      (hid : c.connId ≤ c'.connId) (htalk : c'.talk = c.talk)
  | fresh (now : ℕ) (env : StartEnv) (hconn : c'.conn = some (c.freshConn now env))
      (hid : c'.connId = c.connId + 1) (htalk : c'.talk = c.talk)

/-- A step that leaves the connection alone. -/
theorem Turn.still (hconn : c'.conn = c.conn) (hid : c'.connId = c.connId)
    (htalk : c'.talk = c.talk) : Turn c c' :=
  .rest (fun k' hk' => ⟨k', hconn ▸ hk', .inl rfl⟩) hid.ge htalk

theorem Turn.of_live (hlive : c'.live = c.live) : Turn c c' :=
  .still (eq_of_view Client.conn hlive)
    (eq_of_view Client.connId hlive) (eq_of_view Client.talk hlive)

theorem talk_setState (now : ℕ) (s : ClientState) (c : Client) :
    (setState now s c).talk = c.talk := by
  unfold Client.talk
  rw [setState_cfg, setState_tunnelLog, setState_requests]

theorem turn_setState (now : ℕ) (s : ClientState) (c : Client) : Turn c (setState now s c) :=
  .still (setState_conn ..) (setState_connId ..) (talk_setState now s c)

theorem turn_closeConn (c : Client) : Turn c c.closeConn := by
  refine .rest (fun k' hk' => ?_) le_rfl rfl
  obtain ⟨k, hk, rfl⟩ := Option.map_eq_some_iff.mp hk'
  exact ⟨k, hk, .inr rfl⟩

/-- A start, from a client that differs in slots and timer at most, and what follows it. -/
theorem turn_start {d : Client} (now : ℕ) (env : StartEnv) (hlive : d.conn = c.conn)
    (hlast : d.connId = c.connId) (hfresh : d.freshConn now env = c.freshConn now env)
    (htalk : d.talk = c.talk) (hconn' : c'.conn = (d.start now env).1.conn)
    (hid' : c'.connId = (d.start now env).1.connId)
    (htalk' : c'.talk = (d.start now env).1.talk) : Turn c c' := by
  obtain ⟨connId, hle, -, heq⟩ | ⟨-, -, hcore⟩ := start_cases d now env
  · rw [heq] at hconn' hid' htalk'
    refine .rest (fun k' hk' => ⟨k', ?_, .inl rfl⟩) ?_ (htalk'.trans htalk)
    · rw [← hlive, ← hk', hconn']
    · rw [hid', ← hlast]
      exact hle
  · refine .fresh now env ?_ ?_ ?_
    · rw [hconn', eq_of_view Client.conn hcore, ← hfresh]
    · rw [hid', eq_of_view Client.connId hcore, ← hlast]
    · rw [htalk', eq_of_view Client.talk hcore, ← htalk]
      rfl

theorem turn_restarted (c : Client) (now : ℕ) (env : StartEnv) : Turn c (c.restarted now env) := by
  obtain ⟨attempts, scheduled, harm⟩ := armReconnectTimer_eq now
    ((resetPathsForReconnect now { c with reconnectScheduledUs := 0 }).start now env).1
  refine turn_start (d := resetPathsForReconnect now { c with reconnectScheduledUs := 0 }) now env
    rfl rfl rfl rfl ?_ ?_ ?_ <;> unfold Client.restarted <;> dsimp only <;> rw [harm] <;> split
  · rfl
  · exact setState_conn ..
  · rfl
  · exact setState_connId ..
  · rfl
  · exact talk_setState ..

/-- **Every move is a turn.** -/
theorem Move.turn (h : Move c c') : Turn c c' := by
  cases h with
  | effect k hc he hre => exact .effect k hc he
  | slots hbusy hslots => exact .of_live (live_of_core hslots.core)
  | detached now i ev hev => exact .of_live (live_of_core (slotwise_detached hev c now i).core)
  | aside handshakeStartedUs tunActive => exact .still rfl rfl rfl
  | connected now env hs =>
    obtain heq | ⟨-, ⟨-, heq⟩ | ⟨-, heq⟩⟩ | ⟨-, heq⟩ := connect_cases now env c <;> rw [heq]
    · exact .still rfl rfl rfl
    · exact turn_start now env rfl rfl rfl rfl rfl rfl rfl
    · exact turn_start now env rfl rfl rfl rfl (setState_conn ..) (setState_connId ..)
        (talk_setState ..)
    · exact turn_restarted c now env
  | restarted now env hs => exact turn_restarted c now env
  | closing => exact turn_closeConn c
  | shutDown => exact .still rfl rfl rfl
  | closed | established => exact turn_setState ..
  | stranded now attempts scheduled hnone hs =>
    exact .still (setState_conn ..) (setState_connId ..) (talk_setState ..)

/-! ### The invariant -/

/-- What the requests say of a connection that exists. -/
structure CliConn.Asked (k : CliConn) (requests : List TunnelRequest) : Prop where
  /-- Before the handshake there is no request. -/
  early : k.handshaken = false → ∀ r ∈ requests, r.conn ≠ k.id
  /-- The request was made on the stream of the connection; if it bore the reorder header, there
  is a receive engine. -/
  mine : ∀ r ∈ requests, r.conn = k.id →
    r.sid = k.masqueStreamId ∧ (r.reorder = true → k.reorderRx.isSome = true)

/-- **What a client asked for and heard.** -/
structure Asks (c : Client) : Prop where
  id : ∀ k, c.conn = some k → k.id ≤ c.connId
  bound : ∀ r ∈ c.requests, r.conn ≤ c.connId
  /-- The reorder header is sent only if there is a receive engine. -/
  honest : ∀ r ∈ c.requests, r.reorder = true → r.engine = true
  asked : ∀ k, c.conn = some k → k.Asked c.requests
  /-- The client counts on the server only after an echo on the connection. -/
  heard : ∀ k, c.conn = some k → k.peerReorderSupported = true →
    ∃ e, (k.id, e) ∈ c.tunnelLog ∧ e.echoes = true

section
variable {requests : List TunnelRequest} (h : k.Asked requests)
include h

/-- A connection about which the requests say the same. -/
theorem CliConn.Asked.congr (hid : k'.id = k.id) (hshake : k'.handshaken = k.handshaken)
    (hsid : k'.masqueStreamId = k.masqueStreamId) (hrx : k'.reorderRx.isSome = k.reorderRx.isSome) :
    k'.Asked requests := by
  refine ⟨?_, ?_⟩
  · rw [hshake, hid]
    exact h.early
  · rw [hid, hsid, hrx]
    exact h.mine

theorem CliConn.Asked.kept {events : List TunnelEvent} (hk : k.Kept events k') :
    k'.Asked requests :=
  h.congr (eq_of_view CliConn.id hk.fixed)
    (eq_of_view CliConn.handshaken hk.fixed)
    (eq_of_view CliConn.masqueStreamId hk.fixed)
    (congrArg Option.isSome (eq_of_view CliConn.reorderRx hk.fixed))

/-- The request of a connection whose handshake finishes. -/
theorem CliConn.Asked.request (hbefore : k.handshaken = false) (mode : Reorder.Mode) (mss : ℕ)
    (stream : Option (List Capsule)) (sid : StreamId) :
    CliConn.Asked { k with
      dgramMss := mss, handshaken := true, stream := stream, masqueStreamId := sid }
      (requests ++ [k.request mode sid]) := by
  refine ⟨nofun, fun r hr hconn => ?_⟩
  obtain hr | hr := mem_append.mp hr
  · exact absurd hconn (h.early hbefore r hr)
  · obtain rfl := mem_singleton.mp hr
    refine ⟨rfl, fun hreorder => ?_⟩
    exact (Bool.and_eq_true_iff.mp hreorder).2

end

theorem asks_new (cfg : ClientConfig) : Asks (Client.new cfg) := by
  have hnone : ∀ k, (Client.new cfg).conn ≠ some k := fun k => (Option.some_ne_none k).symm
  exact ⟨fun k hk => absurd hk (hnone k), fun r hr => absurd hr not_mem_nil,
    fun r hr => absurd hr not_mem_nil, fun k hk => absurd hk (hnone k),
    fun k hk => absurd hk (hnone k)⟩

section
variable (h : Asks c)
include h

/-- More is heard on the connection that exists, and it stays what it is. -/
theorem Asks.kept (hc : c.conn = some k) {events : List TunnelEvent} (hk : k.Kept events k')
    {more : List TunnelEvent} (hconn : c'.conn = some k') (hid : c'.connId = c.connId)
    (hrequests : c'.requests = c.requests)
    (hlog : c'.tunnelLog = c.tunnelLog ++ (events ++ more).map (k.id, ·)) : Asks c' where
  id k₀ hk₀ := by
    obtain rfl := Option.some.inj (hconn.symm.trans hk₀)
    rw [eq_of_view CliConn.id hk.fixed, hid]
    exact h.id k hc
  bound := by
    rw [hrequests, hid]
    exact h.bound
  honest := by
    rw [hrequests]
    exact h.honest
  asked k₀ hk₀ := by
    obtain rfl := Option.some.inj (hconn.symm.trans hk₀)
    rw [hrequests]
    exact (h.asked k hc).kept hk
  heard k₀ hk₀ hpeer := by
    obtain rfl := Option.some.inj (hconn.symm.trans hk₀)
    rw [eq_of_view CliConn.id hk.fixed, hlog]
    obtain hpeer | ⟨e, he, hecho⟩ := hk.echoed hpeer
    · obtain ⟨e, he, hecho⟩ := h.heard k hc hpeer
      exact ⟨e, mem_append_left _ he, hecho⟩
    · exact ⟨e, mem_append_right _ (mem_map.mpr ⟨e, mem_append_left _ he, rfl⟩),
        hecho⟩

/-- Whatever is there of a connection was there before. -/
theorem Asks.rest (hid : c.connId ≤ c'.connId) (htalk : c'.talk = c.talk)
    (hconn : ∀ k', c'.conn = some k' →
      ∃ k, c.conn = some k ∧ (k' = k ∨ k' = { k with closing := true })) : Asks c' := by
  simp only [Client.talk, Prod.mk.injEq] at htalk
  obtain ⟨-, hlog, hrequests⟩ := htalk
  refine ⟨fun k' hk' => ?_, ?_, ?_, fun k' hk' => ?_, fun k' hk' => ?_⟩
  · obtain ⟨k, hk, rfl | rfl⟩ := hconn k' hk'
    · exact (h.id _ hk).trans hid
    · exact (h.id k hk).trans hid
  · rw [hrequests]
    exact fun r hr => (h.bound r hr).trans hid
  · rw [hrequests]
    exact h.honest
  · rw [hrequests]
    obtain ⟨k, hk, rfl | rfl⟩ := hconn k' hk'
    · exact h.asked _ hk
    · exact (h.asked k hk).congr rfl rfl rfl rfl
  · rw [hlog]
    obtain ⟨k, hk, rfl | rfl⟩ := hconn k' hk'
    · exact h.heard _ hk
    · exact h.heard k hk

theorem Asks.still (hconn : c'.conn = c.conn) (hid : c'.connId = c.connId)
    (htalk : c'.talk = c.talk) : Asks c' :=
  h.rest hid.ge htalk fun k' hk' => ⟨k', hconn ▸ hk', .inl rfl⟩

theorem Asks.of_live (hlive : c'.live = c.live) : Asks c' :=
  h.still (eq_of_view Client.conn hlive)
    (eq_of_view Client.connId hlive) (eq_of_view Client.talk hlive)

theorem Asks.gone (hconn : c'.conn = none) (hid : c.connId ≤ c'.connId)
    (hrequests : c'.requests = c.requests) : Asks c' := by
  have hnone : ∀ k', c'.conn ≠ some k' := fun k' hk' => by
    rw [hconn] at hk'
    cases hk'
  refine ⟨fun k' hk' => absurd hk' (hnone k'), ?_, ?_, fun k' hk' => absurd hk' (hnone k'),
    fun k' hk' => absurd hk' (hnone k')⟩
  · rw [hrequests]
    exact fun r hr => (h.bound r hr).trans hid
  · rw [hrequests]
    exact h.honest

/-- The handshake finishes, and the request may go out. -/
theorem Asks.handshaken (hc : c.conn = some k) (hbefore : k.handshaken = false) {mss : ℕ}
    {stream : Option (List Capsule)} {sid : StreamId} {requests : List TunnelRequest}
    (hrequests : requests = c.requests ∨
      requests = c.requests ++ [k.request c.cfg.reorder.mode sid])
    (hconn : c'.conn = some
      { k with dgramMss := mss, handshaken := true, stream := stream, masqueStreamId := sid })
    (hid : c'.connId = c.connId) (hreq : c'.requests = requests)
    (hlog : c'.tunnelLog = c.tunnelLog) : Asks c' := by
  have hasked : CliConn.Asked { k with
      dgramMss := mss, handshaken := true, stream := stream, masqueStreamId := sid } requests := by
    obtain rfl | rfl := hrequests
    · exact ⟨nofun, fun r hr hmine => absurd hmine ((h.asked k hc).early hbefore r hr)⟩
    · exact (h.asked k hc).request hbefore ..
  have hmem : ∀ r ∈ requests, r ∈ c.requests ∨ r = k.request c.cfg.reorder.mode sid := by
    intro r hr
    obtain rfl | rfl := hrequests
    · exact .inl hr
    · simpa using hr
  refine ⟨fun k' hk' => ?_, fun r hr => ?_, fun r hr hreorder => ?_, fun k' hk' => ?_,
    fun k' hk' => ?_⟩
  · obtain rfl := Option.some.inj (hconn.symm.trans hk')
    rw [hid]
    exact h.id k hc
  · rw [hid]
    obtain hr | rfl := hmem r (hreq ▸ hr)
    · exact h.bound r hr
    · exact h.id k hc
  · obtain hr | rfl := hmem r (hreq ▸ hr)
    · exact h.honest r hr hreorder
    · exact (Bool.and_eq_true_iff.mp hreorder).2
  · obtain rfl := Option.some.inj (hconn.symm.trans hk')
    rw [hreq]
    exact hasked
  · obtain rfl := Option.some.inj (hconn.symm.trans hk')
    rw [hlog]
    exact h.heard k hc

omit h in
theorem onConnClose_spares (now : ℕ) (k : CliConn) (c : Client) :
    (onConnClose now k c).requests = c.requests ∧ (onConnClose now k c).connId = c.connId := by
  obtain ⟨-, heq⟩ | heq := onConnClose_cases now k c <;> rw [heq]
  · exact ⟨setState_requests .., setState_connId ..⟩
  · exact ⟨setState_requests .., setState_connId ..⟩

theorem Asks.effect (hc : c.conn = some k) (he : Effect c k c') : Asks c' := by
  cases he with
  | slots hcore => exact h.of_live (live_of_core hcore)
  | kept k' events hk _ hcore =>
    have hlog : c'.tunnelLog = c.tunnelLog ++ events.map (k.id, ·) :=
      (eq_of_view Client.tunnelLog hcore).trans rfl
    rw [← append_nil events] at hlog
    exact h.kept hc hk ((eq_of_view Client.conn hcore).trans rfl)
      ((eq_of_view Client.connId hcore).trans rfl)
      ((eq_of_view Client.requests hcore).trans rfl) hlog
  | handshaken now mss stream streamId requests hbefore _ _ hrequests hcore =>
    exact h.handshaken hc hbefore hrequests
      ((eq_of_view Client.conn hcore).trans rfl)
      ((eq_of_view Client.connId hcore).trans (setState_connId ..))
      ((eq_of_view Client.requests hcore).trans rfl)
      ((eq_of_view Client.tunnelLog hcore).trans (setState_tunnelLog ..))
  | ready now capsules k' ip mtu hk _ _ _ _ _ _ hcore =>
    have hlog : c'.tunnelLog = (setState now .tunnelReady c).tunnelLog ++
        ([TunnelEvent.body capsules] ++
          [TunnelEvent.ready (tunnelInfo k' ip mtu) k'.tunnelOk]).map (k.id, ·) :=
      (eq_of_view Client.tunnelLog hcore).trans rfl
    rw [setState_tunnelLog] at hlog
    exact h.kept hc hk ((eq_of_view Client.conn hcore).trans rfl)
      ((eq_of_view Client.connId hcore).trans (setState_connId ..))
      ((eq_of_view Client.requests hcore).trans (setState_requests ..)) hlog
  | closed now heq =>
    have hnone : c'.conn = none := by
      rw [heq]
      exact onConnClose_conn now k c
    obtain ⟨hreq, hid⟩ := onConnClose_spares now k c
    exact h.gone hnone (heq ▸ hid).ge (heq ▸ hreq)

/-- A new connection has a number no request has. -/
theorem Asks.fresh (now : ℕ) (env : StartEnv) (hconn : c'.conn = some (c.freshConn now env))
    (hid : c'.connId = c.connId + 1) (htalk : c'.talk = c.talk) : Asks c' := by
  simp only [Client.talk, Prod.mk.injEq] at htalk
  obtain ⟨-, -, hrequests⟩ := htalk
  have hnew : ∀ r ∈ c'.requests, r.conn ≠ (c.freshConn now env).id := by
    intro r hr heq
    rw [hrequests] at hr
    have hle := h.bound r hr
    rw [heq] at hle
    exact absurd hle (Nat.not_succ_le_self c.connId)
  refine ⟨fun k' hk' => ?_, ?_, ?_, fun k' hk' => ?_, fun k' hk' hpeer => ?_⟩
  · obtain rfl := Option.some.inj (hconn.symm.trans hk')
    exact hid.ge
  · rw [hrequests, hid]
    exact fun r hr => (h.bound r hr).trans (Nat.le_succ _)
  · rw [hrequests]
    exact h.honest
  · obtain rfl := Option.some.inj (hconn.symm.trans hk')
    exact ⟨fun _ => hnew, fun r hr hmine => absurd hmine (hnew r hr)⟩
  · obtain rfl := Option.some.inj (hconn.symm.trans hk')
    cases hpeer

/-- **Every turn keeps the invariant.** -/
theorem Asks.turn (hturn : Turn c c') : Asks c' := by
  cases hturn with
  | effect k hc he => exact h.effect hc he
  | rest hconn hid htalk => exact h.rest hid htalk hconn
  | fresh now env hconn hid htalk => exact h.fresh now env hconn hid htalk

theorem Asks.step (op : Op) : Asks (c.step op) :=
  step_inv (fun _ hd hmove => hd.turn hmove.turn) (fun hd hlive => hd.of_live hlive)
    (fun hd => hd.gone rfl le_rfl rfl) h op

/-- The engines of the connection are written back. -/
theorem Asks.engines (hc : c.conn = some k) (tx : Option Reorder.Tx) (rx : Option Reorder.Rx)
    (hrx : rx.isSome = k.reorderRx.isSome) :
    Asks { c with conn := some { k with reorderTx := tx, reorderRx := rx } } := by
  refine ⟨fun k' hk' => ?_, h.bound, h.honest, fun k' hk' => ?_, fun k' hk' => ?_⟩
  · obtain rfl := Option.some.inj hk'
    exact h.id k hc
  · obtain rfl := Option.some.inj hk'
    exact (h.asked k hc).congr rfl rfl rfl hrx
  · obtain rfl := Option.some.inj hk'
    exact h.heard k hc

end

/-! ### Nothing is taken back -/

/-- Requests stay on record, and numbers only rise. -/
structure Grew (c c' : Client) : Prop where
  requests : ∀ r ∈ c.requests, r ∈ c'.requests
  connId : c.connId ≤ c'.connId

theorem Effect.grew (h : Effect c k c') : Grew c c' := by
  have hrequests : ∀ {d : Client}, c'.core = d.core → d.requests = c.requests →
      ∀ r ∈ c.requests, r ∈ c'.requests := fun hcore heq r hr => by
    rw [eq_of_view Client.requests hcore, heq]
    exact hr
  have hid : ∀ {d : Client}, c'.core = d.core → d.connId = c.connId → c.connId ≤ c'.connId :=
    fun hcore heq => ((eq_of_view Client.connId hcore).trans heq).ge
  cases h with
  | slots hcore | kept k' events hk _ hcore => exact ⟨hrequests hcore rfl, hid hcore rfl⟩
  | handshaken now mss stream streamId requests _ _ _ hreq hcore =>
    refine ⟨fun r hr => ?_, hid hcore (setState_connId ..)⟩
    have heq : c'.requests = requests :=
      (eq_of_view Client.requests hcore).trans rfl
    rw [heq]
    obtain rfl | rfl := hreq
    · exact hr
    · exact mem_append_left _ hr
  | ready now capsules k' ip mtu _ _ _ _ _ _ _ hcore =>
    exact ⟨hrequests hcore (setState_requests ..), hid hcore (setState_connId ..)⟩
  | closed now heq =>
    obtain ⟨hreq, hid⟩ := onConnClose_spares now k c
    rw [heq]
    exact ⟨fun r hr => hreq ▸ hr, hid.ge⟩

theorem Turn.grew (h : Turn c c') : Grew c c' := by
  have htalk : c'.talk = c.talk → ∀ r ∈ c.requests, r ∈ c'.requests := fun heq r hr => by
    simp only [Client.talk, Prod.mk.injEq] at heq
    rw [heq.2.2]
    exact hr
  cases h with
  | effect k hc he => exact he.grew
  | rest hconn hid heq => exact ⟨htalk heq, hid⟩
  | fresh now env hconn hid heq => exact ⟨htalk heq, hid.ge.trans' (Nat.le_succ _)⟩

theorem Grew.trans {c₀ : Client} (h : Grew c₀ c) (h' : Grew c c') : Grew c₀ c' :=
  ⟨fun r hr => h'.requests r (h.requests r hr), h.connId.trans h'.connId⟩

theorem step_grew (c : Client) (op : Op) : Grew c (c.step op) := by
  refine step_inv (P := Grew c) (fun _ hd hmove => hd.trans hmove.turn.grew) (fun hd hlive => ?_)
    (fun hd => hd.trans ?_) ⟨fun _ hr => hr, le_rfl⟩ op
  · exact hd.trans (Turn.of_live hlive).grew
  · exact ⟨fun _ hr => hr, le_rfl⟩

end Mqvpn.Cli
