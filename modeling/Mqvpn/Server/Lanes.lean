import Mqvpn.Server.Forward
import Mqvpn.Server.SessionInv

/-!
# What a call does to the lane of a connection

The datagram lane of a connection is its tunnel, its addresses and its receive engine.  A call
on the sessions leaves the lanes of all connections but one alone.  At that one it does one of
three things: it leaves the lane as it is, it leaves the connection without a tunnel and with
an engine that has taken nothing, or it brings a tunnel up, with such an engine.

## Main definitions

* `FreshRx` — there is no engine, or one that has taken nothing.
* `LaneMove` — the three things.

## Main results

* `lane_step` — **every call makes one of these moves**.
* `requestRead_echo` — the server echoes the reorder header only if there is a receive engine.
-/

namespace Mqvpn.Svr

open Reorder Endpoint

/-- There is no engine, or one that has taken nothing. -/
def FreshRx (reorder : Config) (rx : Option Rx) : Prop :=
  rx = none ∨ ∃ seed, rx = some (Rx.initial reorder seed)

theorem freshRx_enginesInit {reorder : Config} {env : EngineEnv} {c : SvrConn}
    (h : FreshRx reorder c.reorderRx) :
    FreshRx reorder (svrConnReorderEnginesInit reorder env c).reorderRx := by
  unfold svrConnReorderEnginesInit
  split
  · exact h
  split
  · exact h
  split
  · next hrx => exact Or.inr ⟨_, congrArg some (eq_of_rxNew hrx).1⟩
  · exact Or.inl rfl

variable {s s' : Server} {id : ConnId} {c : SvrConn} {sid : StreamId}

/-! ### What happens at the connection -/

/-- What the world knows a tunnel by: its addresses, its stream, and whether its client takes
stamped packets. -/
structure Face where
  ip : UInt32
  ip6 : Option In6Addr
  sid : StreamId
  reorder : Bool
  deriving DecidableEq

def SvrConn.face (c : SvrConn) : Face where
  ip := c.assignedIp
  ip6 := if c.hasV6 then some c.assignedIp6 else none
  sid := c.masqueStreamId
  reorder := c.peerReorderSupported

/-- The IPv6 address is the one of the same offset, if the pool has any. -/
def Twin (pool : AddrPool) (a : Face) : Prop :=
  pool.hasV6 = true → a.ip6 = some (pool.get6 (a.ip - pool.base))

theorem Twin.congr {pool pool' : AddrPool} {a : Face} (h : Twin pool a)
    (hrange : pool'.range = pool.range) : Twin pool' a := by
  simp only [AddrPool.range, Prod.mk.injEq] at hrange
  obtain ⟨hbase, -, -, hbase6, -, hv6⟩ := hrange
  intro hhas
  rw [h (hv6 ▸ hhas), AddrPool.get6, AddrPool.get6]
  simp only [hbase, hbase6]

/-- A tunnel as a request on the stream `sid` brings it up. -/
structure Raised (pool : AddrPool) (sid : StreamId) (reorder : Bool) (c : SvrConn) : Prop where
  twin : Twin pool c.face
  sid : c.masqueStreamId = sid
  reorder : c.peerReorderSupported = reorder

/-- The move of a call at the connection `id`, which has the context `c'` after it. -/
inductive LaneMove (s s' : Server) (op : SvrOp) (id : ConnId) (c' : SvrConn) : Prop
  /-- The lane is as before. -/
  | keep (c : SvrConn) (hc : s.conns id = some c)
      (htunnel : c'.tunnelEstablished = c.tunnelEstablished) (hface : c'.face = c.face)
      (hrx : c'.reorderRx = c.reorderRx)
  /-- There is no tunnel, and the engine has taken nothing. -/
  | idle (htunnel : c'.tunnelEstablished = false) (hrx : FreshRx s.reorder c'.reorderRx)
  /-- A tunnel comes up. -/
  | up (sid : StreamId) (hdrs : ReqHeaders) (env : ResponseEnv)
      (hop : op = .requestRead id sid hdrs env) (hip : hdrs.isConnect && hdrs.isConnectIp)
      (hdown : s.established id = false) (htunnel : c'.tunnelEstablished = true)
      (hrx : FreshRx s.reorder c'.reorderRx)
      (hraised : Raised s'.pool sid hdrs.hasReorderHdr c')

/-- Connections without a tunnel have engines that have taken nothing. -/
def IdleFresh (s : Server) : Prop :=
  ∀ id c, s.conns id = some c → c.tunnelEstablished = false → FreshRx s.reorder c.reorderRx

theorem IdleFresh.setConn (h : IdleFresh s)
    (hc : c.tunnelEstablished = false → FreshRx s.reorder c.reorderRx) :
    IdleFresh (s.setConn id c) := by
  intro id' c₀ hc₀ hdown
  obtain ⟨-, rfl⟩ | ⟨-, hc₀⟩ := setConn_conns_cases hc₀
  · exact hc hdown
  · exact h id' c₀ hc₀ hdown

variable {op : SvrOp} {c' : SvrConn}

theorem established_eq (hc : s.conns id = some c) : s.established id = c.tunnelEstablished := by
  unfold Server.established
  rw [hc]
  rfl

theorem LaneMove.same (hc : s.conns id = some c) (s' : Server) (op : SvrOp) :
    LaneMove s s' op id c :=
  .keep c hc rfl rfl rfl

theorem SvrInv.tunnel_of_zero (h : SvrInv s) (hc : s.conns id = some c) (hip : c.assignedIp = 0) :
    c.tunnelEstablished = false := by
  rw [← Bool.not_eq_true]
  exact fun htunnel => (h.conn id c hc).tunnel.mp htunnel hip

/-! ### The calls -/

/-- Releasing a session leaves the connection without a tunnel. -/
theorem idle_withoutSession (h : SvrInv s) (hfresh : IdleFresh s) (hc : s.conns id = some c) :
    c.withoutSession.tunnelEstablished = false ∧ FreshRx s.reorder c.withoutSession.reorderRx := by
  unfold SvrConn.withoutSession
  split
  · next hip =>
    have hdown := h.tunnel_of_zero hc hip
    exact ⟨hdown, hfresh id c hc hdown⟩
  · exact ⟨rfl, Or.inl rfl⟩

/-- The engines of a request, before the response. -/
theorem fresh_asking (h : SvrInv s) (hfresh : IdleFresh s) (hc : s.conns id = some c)
    (env : EngineEnv) (peer : Bool) :
    (c.asking s.reorder env peer).tunnelEstablished = false ∧
      FreshRx s.reorder (c.asking s.reorder env peer).reorderRx := by
  obtain ⟨hdown, hrx⟩ := idle_withoutSession h hfresh hc
  obtain ⟨tx, rx, heq⟩ := svrConnReorderEnginesInit_session s.reorder env c.withoutSession
  refine ⟨?_, freshRx_enginesInit hrx⟩
  rw [SvrConn.asking, heq]
  exact hdown

@[simp] theorem SvrConn.withTwin_lane (c : SvrConn) (pool : AddrPool) :
    (c.withTwin pool).reorderRx = c.reorderRx ∧
      (c.withTwin pool).masqueStreamId = c.masqueStreamId ∧
      (c.withTwin pool).peerReorderSupported = c.peerReorderSupported := by
  obtain ⟨hasV6, ip6, heq⟩ := c.withTwin_eq pool
  rw [heq]
  exact ⟨rfl, rfl, rfl⟩

theorem twin_withTwin (c : SvrConn) (pool : AddrPool) : Twin pool (c.withTwin pool).face := by
  intro hv6
  rw [SvrConn.withTwin, if_pos hv6]
  rfl

/-- What a response leaves behind: the engine there was, and no tunnel or one that came up. -/
theorem Responded.lane (h : Responded s id c sid s') (hc : s.conns id = some c) :
    ∃ c', s'.conns id = some c' ∧ c'.reorderRx = c.reorderRx ∧
      (c.tunnelEstablished = false → c'.tunnelEstablished = true →
        Raised s'.pool sid c.peerReorderSupported c') := by
  have hnone : ∀ {P : Prop}, c.tunnelEstablished = false → c.tunnelEstablished = true → P :=
    fun hdown hup => absurd (hdown.symm.trans hup) Bool.false_ne_true
  cases h with
  | kept => exact ⟨c, hc, rfl, hnone⟩
  | exhausted | undone => exact ⟨_, setConn_conns_self .., rfl, hnone⟩
  | up off pool halloc hroom =>
    rw [register_conns, register_pool]
    obtain ⟨hrx, hsid, hpeer⟩ := SvrConn.withTwin_lane
      { c with masqueStreamId := sid, assignedIp := pool.addr off } pool
    exact ⟨_, setConn_conns_self .., hrx, fun _ _ => ⟨twin_withTwin _ pool, hsid, hpeer⟩⟩

/-- A request for a tunnel, on a connection that has none. -/
theorem onRequest_lane (h : SvrInv s) (hfresh : IdleFresh s) (hc : s.conns id = some c)
    (hdown : c.tunnelEstablished = false) (hdrs : ReqHeaders) (env : ResponseEnv)
    (hc' : (svrConnectIpOnRequest s id sid hdrs env).server.conns id = some c') :
    FreshRx s.reorder c'.reorderRx ∧ (c'.tunnelEstablished = true →
      Raised (svrConnectIpOnRequest s id sid hdrs env).server.pool sid hdrs.hasReorderHdr c') := by
  obtain ⟨sent, -, heq⟩ | ⟨-, heq⟩ := svrConnectIpOnRequest_cases hc sid hdrs env
  · rw [heq] at hc'
    obtain rfl := Option.some.inj (hc.symm.trans hc')
    exact ⟨hfresh id c hc hdown, fun hup => absurd (hdown.symm.trans hup) Bool.false_ne_true⟩
  · rw [heq] at hc' ⊢
    obtain ⟨hdown', hrx⟩ := fresh_asking h hfresh hc env.engines hdrs.hasReorderHdr
    obtain ⟨c₁, hc₁, hsame, hraised⟩ :=
      (svrMasqueSendResponse_cases _ id _ sid env).1.lane (setConn_conns_self ..)
    obtain rfl := Option.some.inj (hc₁.symm.trans hc')
    exact ⟨hsame ▸ hrx, hraised hdown'⟩

theorem read_lane (h : SvrInv s) (hfresh : IdleFresh s) {hdrs : ReqHeaders} {env : ResponseEnv}
    {r : Handled} (hread : Reading s id sid hdrs env r) (hc' : r.server.conns id = some c') :
    LaneMove s r.server (.requestRead id sid hdrs env) id c' := by
  cases hread with
  | kept hserver => exact .same (hserver ▸ hc') _ _
  | routed c role hc hopen hserver =>
    rw [hserver, setConn_conns_self] at hc'
    obtain rfl := Option.some.inj hc'
    exact .keep c hc rfl rfl rfl
  | asked c hc hopen hip hdown hr =>
    subst hr
    obtain ⟨hrx, hraised⟩ := onRequest_lane
      (h.setStream hc (h.h3_of_stream hc hopen) (some .connectIp))
      (hfresh.setConn (hfresh id c hc)) (setConn_conns_self ..) hdown hdrs env hc'
    cases hup : c'.tunnelEstablished with
    | false => exact .idle hup hrx
    | true =>
      exact .up sid hdrs env rfl hip ((established_eq hc).trans hdown) hup hrx (hraised hup)

/-- **Every call makes one of the moves**, at every connection that is there after it. -/
theorem lane_step (h : SvrInv s) (hfresh : IdleFresh s) (op : SvrOp)
    (hc' : (s.step op).conns id = some c') : LaneMove s (s.step op) op id c' := by
  have hchange := step_change s op
  generalize s.step op = s' at hchange hc' ⊢
  -- a connection with the context written back, and all others
  have hset : ∀ {id₀ c₀} op, (s.setConn id₀ c₀).conns id = some c' →
      (∀ s', id = id₀ → LaneMove s s' op id c₀) → ∀ s', LaneMove s s' op id c' := by
    intro id₀ c₀ op hset hmove s'
    obtain ⟨hid, rfl⟩ | ⟨-, hc⟩ := setConn_conns_cases hset
    · exact hmove s' hid
    · exact .same hc _ _
  cases hchange with
  | kept => exact .same hc' _ _
  | accepted =>
    obtain ⟨-, rfl⟩ | ⟨-, hc⟩ := setConn_conns_cases hc'
    · exact .idle rfl (Or.inl rfl)
    · have hold : s.conns id = some c' := hc
      exact .same hold _ _
  | refused id₀ => exact .same (svrConnFree_conns hc').2 _ _
  | created id₀ env c hc hh3 =>
    refine hset _ hc' (fun s' hid => ?_) _
    subst hid
    have hdown := h.tunnel_of_zero hc ((h.conn id c hc).early hh3).1
    obtain ⟨tx, rx, heq⟩ := svrConnReorderEnginesInit_session s.reorder env { c with h3 := true }
    refine .idle ?_ (freshRx_enginesInit (hfresh id c hc hdown))
    rw [heq]
    exact hdown
  | closed id₀ =>
    obtain ⟨hid, hc⟩ := svrConnFree_conns hc'
    exact .same (((confined_release s id₀).others id hid).symm.trans hc) _ _
  | opened id₀ sid allocOk c hc =>
    exact hset _ hc' (fun s' hid => .keep c (hid ▸ hc) rfl rfl rfl) _
  | read id₀ sid hdrs env r hread =>
    by_cases hid : id = id₀
    · subst hid
      exact read_lane h hfresh hread hc'
    · exact .same ((hread.confined.others id hid).symm.trans hc') _ _
  | ended id₀ sid c hc =>
    obtain ⟨rfl, rfl⟩ | ⟨hid, hc₁⟩ := setConn_conns_cases hc'
    · obtain ⟨hdown, hrx⟩ := idle_withoutSession h hfresh hc
      exact .idle hdown hrx
    · exact .same (((confined_release s id₀).others id hid).symm.trans hc₁) _ _
  | left id₀ sid c hc =>
    exact hset _ hc' (fun s' hid => .keep c (hid ▸ hc) rfl rfl rfl) _
  | added | removed =>
    have hold : s.conns id = some c' := hc'
    exact .same hold _ _

/-- No call changes the configuration or the range of the pool. -/
theorem step_constants (s : Server) (op : SvrOp) :
    (s.step op).reorder = s.reorder ∧ (s.step op).pool.range = s.pool.range := by
  obtain ⟨id, hconfined⟩ | ⟨allocOk, -, heq⟩ | ⟨username, key, -, heq⟩ | ⟨username, -, heq⟩ :=
    (step_change s op).scope
  · exact ⟨hconfined.reorder, hconfined.range⟩
  all_goals
    rw [heq]
    exact ⟨rfl, rfl⟩

/-- Scopes are issued in order: no call takes one back. -/
theorem step_nextTxScope (s : Server) (op : SvrOp) :
    s.nextTxScope ≤ (s.step op).nextTxScope := by
  obtain ⟨id, hconfined⟩ | ⟨allocOk, -, heq⟩ | ⟨username, key, -, heq⟩ | ⟨username, -, heq⟩ :=
    (step_change s op).scope
  · exact hconfined.nextTxScope.ge
  · rw [heq]
    exact Nat.le_succ _
  all_goals
    rw [heq]

/-- Connections without a tunnel keep engines that have taken nothing. -/
theorem IdleFresh.step (h : SvrInv s) (hfresh : IdleFresh s) (op : SvrOp) :
    IdleFresh (s.step op) := by
  intro id c' hc' hdown
  rw [(step_constants s op).1]
  cases lane_step h hfresh op hc' with
  | keep c hc htunnel hface hrx =>
    rw [hrx]
    exact hfresh id c hc (htunnel.symm.trans hdown)
  | idle _ hrx | up _ _ _ _ _ _ _ hrx => exact hrx

/-! ### Echoes -/

/-- **An echo is honest.**  It answers a request for a tunnel, and there is an engine. -/
theorem requestRead_echo {hdrs : ReqHeaders} {env : ResponseEnv} {code : ℕ}
    (h : .status code true ∈ (cbRequestRead s id sid hdrs env).sent) :
    (hdrs.isConnect && hdrs.isConnectIp) = true ∧
      ∃ c', (cbRequestRead s id sid hdrs env).server.conns id = some c' ∧
        c'.reorderRx.isSome = true := by
  cases cbRequestRead_cases s id sid hdrs env with
  | kept hserver hsent | routed c role hc hopen hserver hsent =>
      exact absurd h (hsent.not_echo code)
  | asked c hc hopen hip hdown hr =>
    refine ⟨hip, ?_⟩
    rw [hr] at h ⊢
    obtain ⟨sent, hsent, heq⟩ | ⟨-, heq⟩ :=
      svrConnectIpOnRequest_cases (setConn_conns_self s id _) sid hdrs env
    · rw [heq] at h
      exact absurd h (hsent.not_echo code)
    · rw [heq] at h ⊢
      obtain ⟨hresponded, hecho⟩ := svrMasqueSendResponse_cases _ id _ sid env
      obtain ⟨c', hc', hrx, -⟩ := hresponded.lane (setConn_conns_self ..)
      exact ⟨c', hc', hrx ▸ hecho code h⟩

end Mqvpn.Svr
