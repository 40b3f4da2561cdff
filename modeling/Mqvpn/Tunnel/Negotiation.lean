import Mqvpn.Client.Tunnel
import Mqvpn.Tunnel.System

/-!
# Stamped datagrams find an engine

Whether an endpoint stamps datagrams depends on what the other one said: the client on the echo
of the server, the server on the reorder header of the request.  Both are said only by an
endpoint that has a receive engine for the connection.  The engine of the client lasts as long
as the connection.  The engine of the server goes with the tunnel, so what matters there is the
stream: a datagram of another tunnel than the current one is not dispatched.

## Main definitions

* `stamped` — the first byte of the payload is that of the reorder header.
* `Negotiated` — the invariant of both endpoints.

## Main results

* `Negotiated.run` — the invariant holds along every run.
* `stamped_finds_engine` — **a stamped datagram is sent only to a peer that had an engine when it
  said so, and on a live tunnel the engine is there when the datagram is dispatched**.
-/

namespace Mqvpn.Tunnel

open Reorder Endpoint Svr List
open Cli (CliConn ClientConfig Header TunnelRequest TunnelEvent Asks)

variable {m : Masque} {s : System}

/-! ### Frames -/

/-- The payload of a datagram begins like a reorder header. -/
def stamped (m : Masque) (frame : Packet) : Bool :=
  match m.unframe frame with
  | some (_, _, b0 :: _) => classifyByte b0 == .reorderV1
  | _ => false

/-- A frame of the stream `sid` with a bare packet; if it is none, `P` holds. -/
def BareUnless (m : Masque) (sid : StreamId) (frame : Packet) (P : Prop) : Prop :=
  ∃ payload, frame = m.header sid ++ payload ∧
    (payload ≠ [] ∧ (ipVer payload = 4 ∨ ipVer payload = 6) ∨ P)

variable {frame : Packet} {sid : StreamId}

theorem BareUnless.imp {P Q : Prop} (h : BareUnless m sid frame P) (hPQ : P → Q) :
    BareUnless m sid frame Q := by
  obtain ⟨payload, hframe, hpayload⟩ := h
  exact ⟨payload, hframe, hpayload.imp_right hPQ⟩

/-- A stamped frame is not bare. -/
theorem BareUnless.of_stamped {P : Prop} (h : BareUnless m sid frame P)
    (hstamped : stamped m frame = true) : P := by
  obtain ⟨payload, rfl, ⟨hne, hver⟩ | hP⟩ := h
  · rw [stamped, m.unframe_header] at hstamped
    cases payload with
    | nil => exact absurd rfl hne
    | cons b rest =>
      simp only [classifyByte_of_ipVer (b := b) hver] at hstamped
      cases hstamped
  · exact hP

/-- With an engine no payload lacks one. -/
theorem dispatch_ne_noEngine {rx : Option Rx} (hrx : rx.isSome = true) (payload : Packet)
    (now : UInt64) (alloc : Alloc) : Endpoint.dispatch rx payload now alloc ≠ .noEngine := by
  obtain ⟨rx, rfl⟩ := Option.isSome_iff_exists.mp hrx
  unfold Endpoint.dispatch
  split
  · exact nofun
  · split <;> exact nofun

theorem BareUnless.dispatch {rx : Option Rx} (h : BareUnless m sid frame (rx.isSome = true))
    (now : UInt64) (alloc : Alloc) :
    ∃ payload, m.unframe frame = some (sid.val / 4, 0, payload) ∧
      Endpoint.dispatch rx payload now alloc ≠ .noEngine := by
  obtain ⟨payload, rfl, ⟨hne, hver⟩ | hrx⟩ := h
  · refine ⟨payload, m.unframe_header sid payload, ?_⟩
    rw [dispatch_raw hne hver]
    exact nofun
  · exact ⟨payload, m.unframe_header sid payload, dispatch_ne_noEngine hrx payload now alloc⟩

variable {k : CliConn}

/-- The client frames bare packets, unless it counts on the server. -/
theorem clientTun_frame {cfg : ClientConfig} {v : LaneView} {pkt frame : Packet} {env : Env}
    (h : frame ∈ (clientOnTunPacket m (tunClient cfg k v) pkt env).2.frames) :
    BareUnless m k.masqueStreamId frame (k.peerReorderSupported = true) := by
  obtain ⟨conn, hconn, hframed⟩ := clientOnTunPacket_frames h
  obtain rfl := Option.some.inj hconn
  refine ⟨_, hframed.frame_eq, ?_⟩
  obtain hraw | ⟨peek, hpeek⟩ := hframed.passed
  · rw [hraw]
    exact .inl ⟨hframed.nonempty, hframed.version⟩
  · refine .inr ?_
    unfold clientGate at hpeek
    dsimp only at hpeek
    split at hpeek
    · exact absurd (rgateDecide_peer hpeek) Bool.false_ne_true
    · exact rgateDecide_peer hpeek

/-- The server frames bare packets, unless its client takes stamped ones. -/
theorem sent_frame {face : ConnId → Option Face} {id : ConnId}
    (h : Isolated m face (.sent id frame)) :
    ∃ a, face id = some a ∧ BareUnless m a.sid frame (a.reorder = true) := by
  obtain ⟨a, hface, hdr, inner, rfl, hhdr, hdest⟩ := h
  refine ⟨a, hface, hdr ++ inner, rfl, ?_⟩
  obtain rfl | ⟨-, hreorder⟩ := hhdr
  · refine .inl ⟨?_, hdest.imp And.left And.left⟩
    rintro rfl
    obtain ⟨hver, -⟩ | ⟨hver, -⟩ := hdest <;> cases hver
  · exact .inr hreorder

/-! ### The lane of the server -/

/-- The connections are the same, up to what is in their engines. -/
structure SameConns (s s' : Svr.Server) : Prop where
  scope : s'.nextTxScope = s.nextTxScope
  conn : ∀ id c', s'.conns id = some c' → ∃ c, s.conns id = some c ∧
    c'.tunnelEstablished = c.tunnelEstablished ∧ c'.face = c.face ∧
      c'.reorderRx.isSome = c.reorderRx.isSome

theorem SameConns.refl (s : Svr.Server) : SameConns s s :=
  ⟨rfl, fun _ c hc => ⟨c, hc, rfl, rfl, rfl⟩⟩

theorem SameConns.trans {s₁ s₂ s₃ : Svr.Server} (h : SameConns s₁ s₂) (h' : SameConns s₂ s₃) :
    SameConns s₁ s₃ := by
  refine ⟨h'.scope.trans h.scope, fun id c₃ hc₃ => ?_⟩
  obtain ⟨c₂, hc₂, htunnel₂, hface₂, hrx₂⟩ := h'.conn id c₃ hc₃
  obtain ⟨c₁, hc₁, htunnel₁, hface₁, hrx₁⟩ := h.conn id c₂ hc₂
  exact ⟨c₁, hc₁, htunnel₂.trans htunnel₁, hface₂.trans hface₁, hrx₂.trans hrx₁⟩

theorem sameConns_setConn {s : Svr.Server} {id : ConnId} {c : SvrConn}
    (hc : s.conns id = some c) (tx : Option Tx) (rx : Option Rx)
    (hrx : rx.isSome = c.reorderRx.isSome) :
    SameConns s (s.setConn id { c with reorderTx := tx, reorderRx := rx }) := by
  refine ⟨rfl, fun id' c' hc' => ?_⟩
  obtain ⟨rfl, rfl⟩ | ⟨-, hc'⟩ := setConn_conns_cases hc'
  · exact ⟨c, hc, rfl, rfl, hrx⟩
  · exact ⟨c', hc', rfl, rfl, rfl⟩

theorem laneStep_isSome (m : Masque) (t : TunSession) (rx : Option Rx) (inp : Input) :
    (laneStep m t rx inp).1.isSome = rx.isSome := by
  cases inp with
  | datagram data now alloc =>
    unfold laneStep
    dsimp only
    split
    · rfl
    · next rx' hread =>
      -- only an engine reorders
      cases rx with
      | some rx => rfl
      | none =>
        unfold serverDgramRead Endpoint.dispatch at hread
        split at hread
        · cases hread
        split at hread
        · cases hread
        split at hread
        · cases hread
        split at hread
        · cases hread
        split at hread <;> cases hread
    · rfl
    · rfl
  | tick now => cases rx <;> rfl

theorem sameConns_feed (m : Masque) (n : Net) (id : ConnId) (inp : Input)
    (envs : List ForwardEnv) : SameConns n.server (n.feed m id inp envs).server := by
  unfold Net.feed
  split
  · exact .refl _
  · next c hc =>
    dsimp only
    obtain ⟨bucket, es, heq, -⟩ := forwardAll_spec m id
      { c with reorderRx := (laneStep m (c.tun 0) c.reorderRx inp).1 }
      (laneStep m (c.tun 0) c.reorderRx inp).2 envs
      ({ n with server := n.server.setConn id ({ c with
          reorderRx := (laneStep m (c.tun 0) c.reorderRx inp).1 }) }.note [.input id inp])
    rw [heq]
    exact sameConns_setConn hc c.reorderTx _ (laneStep_isSome ..)

theorem sameConns_tickSlots (m : Masque) (now : UInt64) (envs : ConnId → List ForwardEnv)
    (offs : List ℕ) (n : Net) :
    SameConns n.server (offs.foldl (Net.tickSlot m now envs) n).server := by
  induction offs generalizing n with
  | nil => exact .refl _
  | cons off offs ih =>
    refine SameConns.trans ?_ (ih _)
    unfold Net.tickSlot
    split
    · exact .refl _
    · exact sameConns_feed ..

/-- Calls of the lane change what is in the engines only. -/
theorem sameConns_step (m : Masque) (n : Net) {op : NetOp} (hop : ∀ op', op ≠ .session op') :
    SameConns n.server (n.step m op).server := by
  cases op with
  | session op' => exact absurd rfl (hop op')
  | dgramRead id data now alloc envs => exact sameConns_feed ..
  | tunPacket dgramMss pkt env =>
    change SameConns n.server (n.onTunPacket m dgramMss pkt env).server
    unfold Net.onTunPacket
    dsimp only
    split
    · exact .refl _
    split
    · exact .refl _
    split
    · next c t hc _ => exact sameConns_setConn hc t.reorderTx c.reorderRx rfl
    · exact .refl _
  | tick now envs =>
    change SameConns n.server (n.tick m now envs).server
    unfold Net.tick
    split
    · exact sameConns_tickSlots ..
    · exact .refl _

/-! ### The invariant -/

/-- **What was negotiated.** -/
structure Negotiated (m : Masque) (s : System) : Prop where
  asks : Asks s.client
  net : NetInv m s.net
  heard : ∀ n hdrs, (n, TunnelEvent.section hdrs) ∈ s.client.tunnelLog →
    s.Answered s.client.requests n hdrs
  quarter : ∀ r ∈ s.client.requests, r.sid.val % 4 = 0
  once : ∀ n id id', (n, id) ∈ s.links → (n, id') ∈ s.links → id = id'
  issued : ∀ a ∈ s.asked, a.id ≤ s.net.server.nextTxScope
  /-- An echo answers a request, and there was an engine. -/
  echoed : ∀ sec ∈ s.sections, sec.echo = true →
    sec.engine = true ∧ ∃ a ∈ s.asked, a.id = sec.id ∧ a.sid = sec.sid
  /-- What was read on a connection of the client is a request of the client. -/
  matched : ∀ a ∈ s.asked, ∀ n, (n, a.id) ∈ s.links →
    ∃ r ∈ s.client.requests, r.conn = n ∧ r.sid = a.sid ∧ r.reorder = a.reorder
  /-- A tunnel is on the stream of a request, and its flag is that of the request. -/
  tunnel : ∀ id c, s.net.server.conns id = some c → c.tunnelEstablished = true →
    ∃ a ∈ s.asked, a.id = id ∧ a.sid = c.masqueStreamId ∧ a.reorder = c.peerReorderSupported
  /-- A tunnel whose response had the echo has an engine. -/
  engine : ∀ n id c, (n, id) ∈ s.links → s.net.server.conns id = some c →
    c.tunnelEstablished = true → ∀ sec ∈ s.sections, sec.id = id → sec.sid = c.masqueStreamId →
      sec.echo = true → c.reorderRx.isSome = true
  down : ∀ id frame, .sent id frame ∈ s.net.log →
    ∃ sid, BareUnless m sid frame (∃ a ∈ s.asked, a.id = id ∧ a.reorder = true)
  up : ∀ n frame, (n, frame) ∈ s.up →
    ∃ sid, BareUnless m sid frame (∃ sec ∈ s.sections, (n, sec.id) ∈ s.links ∧ sec.sid = sid ∧
      sec.echo = true ∧ ∃ r ∈ s.client.requests, r.conn = n ∧ r.sid = sid)

variable {n : ℕ}

theorem System.Answered.mono {s' : System} {requests : List TunnelRequest} {hdrs : List Header}
    (h : s.Answered requests n hdrs) (hsections : ∀ sec ∈ s.sections, sec ∈ s'.sections)
    (hlinks : ∀ l ∈ s.links, l ∈ s'.links) : s'.Answered requests n hdrs := by
  obtain ⟨sec, hsec, hlink, hhdrs, hr⟩ := h
  exact ⟨sec, hsections sec hsec, hlinks _ hlink, hhdrs, hr⟩

/-- The client reads an echo only if there was one. -/
theorem System.Answered.echo {requests : List TunnelRequest} {hdrs : List Header}
    (h : s.Answered requests n hdrs) (hecho : (TunnelEvent.section hdrs).echoes = true) :
    ∃ sec ∈ s.sections, (n, sec.id) ∈ s.links ∧ sec.echo = true ∧
      ∃ r ∈ requests, r.conn = n ∧ r.sid = sec.sid := by
  obtain ⟨sec, hsec, hlink, hhdrs, hr⟩ := h
  refine ⟨sec, hsec, hlink, ?_, hr⟩
  have hmem : Header.reorder ∈ hdrs := (of_decide_eq_true hecho).2
  have hfilter : Header.reorder ∈ hdrs.filter (· ≠ .other) := mem_filter.mpr ⟨hmem, rfl⟩
  rw [hhdrs, Section.headers, mem_cons] at hfilter
  obtain heq | hin := hfilter
  · cases heq
  · split at hin
    · assumption
    · cases hin

/-! ### Steps of the client -/

namespace Negotiated

variable (h : Negotiated m s)
include h

variable (hk : s.client.conn = some k)
include hk

/-- A client that counts on the server made its request on the stream the server echoed on. -/
theorem counts (hpeer : k.peerReorderSupported = true) :
    ∃ sec ∈ s.sections, (k.id, sec.id) ∈ s.links ∧ sec.sid = k.masqueStreamId ∧
      sec.echo = true ∧ ∃ r ∈ s.client.requests, r.conn = k.id ∧ r.sid = k.masqueStreamId := by
  obtain ⟨e, he, hecho⟩ := h.asks.heard k hk hpeer
  cases e with
  | «section» hdrs =>
    obtain ⟨sec, hsec, hlink, htrue, r, hr, hconn, hsid⟩ := (h.heard k.id hdrs he).echo hecho
    have hmine := ((h.asks.asked k hk).mine r hr hconn).1
    exact ⟨sec, hsec, hlink, hsid.symm.trans hmine, htrue, r, hr, hconn, hmine⟩
  | body | ready | closed => cases hecho

omit hk in
theorem client (op : Cli.Op)
    (hok : s.heardOk (s.client.step op) = true) :
    Negotiated m { s with client := s.client.step op } := by
  have hgrew := Cli.step_grew s.client op
  rw [System.heardOk, Bool.and_eq_true, all_eq_true, all_eq_true] at hok
  obtain ⟨hlog, hquarter⟩ := hok
  refine { h with
    asks := h.asks.step op
    heard := fun n hdrs hmem => of_decide_eq_true (hlog _ hmem)
    quarter := fun r hr => eq_of_beq (hquarter r hr)
    matched := fun a ha n hlink => ?_
    up := fun n frame hframe => ?_ }
  · obtain ⟨r, hr, hmatch⟩ := h.matched a ha n hlink
    exact ⟨r, hgrew.requests r hr, hmatch⟩
  · obtain ⟨sid, hbare⟩ := h.up n frame hframe
    refine ⟨sid, hbare.imp ?_⟩
    rintro ⟨sec, hsec, hlink, hsid, hecho, r, hr, hconn⟩
    exact ⟨sec, hsec, hlink, hsid, hecho, r, hgrew.requests r hr, hconn⟩

/-- The engines of the client are written back. -/
theorem setEngines (tx : Option Tx) (rx : Option Rx) (hrx : rx.isSome = k.reorderRx.isSome) :
    Negotiated m (s.setEngines k tx rx) :=
  { h with asks := h.asks.engines hk tx rx hrx }

theorem clientTun (v : LaneView) (pkt : Packet) (env : Env) :
    Negotiated m (s.clientTun m k v pkt env) := by
  refine { h.setEngines hk _ k.reorderRx rfl with up := fun n frame hframe => ?_ }
  obtain hold | hnew := mem_append.mp hframe
  · exact h.up n frame hold
  · obtain ⟨frame', hframe', heq⟩ := mem_map.mp hnew
    obtain ⟨rfl, rfl⟩ := Prod.mk.inj heq
    exact ⟨k.masqueStreamId, (clientTun_frame hframe').imp (h.counts hk)⟩

theorem clientDgram (data : Packet) (now : UInt64) (alloc : Alloc) :
    Negotiated m (s.clientDgram m k data now alloc) := by
  unfold System.clientDgram
  split
  · next rx hread =>
    refine h.setEngines hk _ _ ?_
    -- only an engine reorders
    cases hrx : k.reorderRx with
    | some rx => rfl
    | none =>
      rw [hrx] at hread
      unfold clientDgramRead Endpoint.dispatch at hread
      split at hread
      · cases hread
      split at hread
      · cases hread
      split at hread
      · cases hread
      split at hread <;> cases hread
  · exact h

theorem clientTick (now : UInt64) : Negotiated m (s.clientTick k now) :=
  h.setEngines hk _ _ (by rw [Option.isSome_map])

end Negotiated

/-! ### Steps of the server -/

theorem mem_newAsked {op : NetOp} {a : Asked} (h : a ∈ newAsked op) :
    ∃ hdrs env, op = .session (.requestRead a.id a.sid hdrs env) ∧
      (hdrs.isConnect && hdrs.isConnectIp) = true ∧ a.reorder = hdrs.hasReorderHdr := by
  unfold newAsked at h
  split at h
  · next id sid hdrs env =>
    split at h
    · next hip =>
      obtain rfl := mem_singleton.mp h
      exact ⟨hdrs, env, rfl, hip, rfl⟩
    · cases h
  · cases h

/-- A new echo comes from a request for a tunnel, and leaves an engine. -/
theorem mem_newSections {svr : Svr.Server} {op : NetOp} {sec : Section}
    (h : sec ∈ newSections svr op) (hecho : sec.echo = true) :
    ∃ hdrs env c', op = .session (.requestRead sec.id sec.sid hdrs env) ∧
      (hdrs.isConnect && hdrs.isConnectIp) = true ∧ sec.engine = true ∧
      (svr.step (.requestRead sec.id sec.sid hdrs env)).conns sec.id = some c' ∧
      c'.reorderRx.isSome = true := by
  unfold newSections at h
  split at h
  · next id sid hdrs env =>
    obtain ⟨reply, hreply, heq⟩ := mem_filterMap.mp h
    split at heq
    · next code echo =>
      obtain rfl := Option.some.inj heq
      obtain rfl : echo = true := hecho
      obtain ⟨hip, c', hc', hrx⟩ := requestRead_echo hreply
      refine ⟨hdrs, env, c', rfl, hip, ?_, hc', hrx⟩
      rw [hc']
      exact hrx
    · cases heq
  · cases h

/-- What the rules say of a request for a tunnel that is read. -/
theorem allowed_request {id : ConnId} {hdrs : ReqHeaders} {env : ResponseEnv}
    (h : s.allowed (.server (.session (.requestRead id sid hdrs env))) = true) :
    (s.net.server.conns id).isSome = true ∧
      ((hdrs.isConnect && hdrs.isConnectIp) = true → ∀ n, (n, id) ∈ s.links →
        (∃ r ∈ s.client.requests, r.conn = n ∧ r.sid = sid ∧ r.reorder = hdrs.hasReorderHdr) ∧
        ∀ a ∈ s.asked, a.id = id → a.sid ≠ sid) := by
  simp only [System.allowed, Bool.and_eq_true] at h
  refine ⟨h.1, fun hip n hlink => ?_⟩
  have hok := all_eq_true.mp h.2 _ hlink
  simp only [beq_self_eq_true, Bool.not_true, hip, Bool.false_or, Bool.and_eq_true,
    any_eq_true, all_eq_true, beq_iff_eq, Bool.not_eq_true', Bool.and_eq_false_imp] at hok
  obtain ⟨⟨r, hr, ⟨hconn, hsid⟩, hreorder⟩, hfirst⟩ := hok
  refine ⟨⟨r, hr, hconn, hsid, hreorder⟩, fun a ha hid hsid' => ?_⟩
  have hne := hfirst a ha hid
  rw [hsid', beq_self_eq_true] at hne
  cases hne

/-- A connection of the server that exists was issued a scope. -/
theorem NetInv.issued {n : Net} (h : NetInv m n) {id : ConnId}
    (hc : (n.server.conns id).isSome = true) : id ≤ n.server.nextTxScope :=
  ((h.svr.scopes.issued id).mp (.inl hc)).2

theorem step_scope (m : Masque) (n : Net) (op : NetOp) :
    n.server.nextTxScope ≤ (n.step m op).server.nextTxScope := by
  cases op with
  | session op => exact step_nextTxScope n.server op
  | dgramRead | tunPacket | tick => exact (sameConns_step m n (by simp)).scope.ge

variable {c' : SvrConn}

/-- What a call of the server does to a tunnel that is up after it: it was up before, with the
same face and an engine if there was one, or a request brought it up. -/
theorem Negotiated.tunnel_cases (h : Negotiated m s) (op : NetOp) {id : ConnId}
    (hc' : (s.net.step m op).server.conns id = some c') (hup : c'.tunnelEstablished = true) :
    (∃ c, s.net.server.conns id = some c ∧ c.tunnelEstablished = true ∧ c'.face = c.face ∧
        c'.reorderRx.isSome = c.reorderRx.isSome) ∨
      ∃ hdrs env, op = .session (.requestRead id c'.masqueStreamId hdrs env) ∧
        (hdrs.isConnect && hdrs.isConnectIp) = true ∧
        c'.peerReorderSupported = hdrs.hasReorderHdr := by
  by_cases hop : ∃ op', op = .session op'
  · obtain ⟨op, rfl⟩ := hop
    cases lane_step h.net.svr h.net.idle op hc' with
    | keep c hc htunnel hface hrx =>
      exact .inl ⟨c, hc, htunnel.symm.trans hup, hface, congrArg Option.isSome hrx⟩
    | idle htunnel _ => exact absurd (htunnel.symm.trans hup) Bool.false_ne_true
    | up sid hdrs env hop hip _ _ _ hraised =>
      subst hop
      obtain rfl := hraised.sid
      exact .inr ⟨hdrs, env, rfl, hip, hraised.reorder⟩
  · obtain ⟨c, hc, htunnel, hface, hrx⟩ :=
      (sameConns_step m s.net (not_exists.mp hop)).conn id c' hc'
    exact .inl ⟨c, hc, htunnel.symm.trans hup, hface, hrx⟩

/-- The server after a call, with what is recorded of it. -/
def System.served (m : Masque) (s : System) (op : NetOp) : System :=
  { s with
    net := s.net.step m op
    asked := s.asked ++ newAsked op
    sections := s.sections ++ newSections s.net.server op }

namespace Negotiated

variable (h : Negotiated m s)
include h

theorem server_tunnel (op : NetOp) {id : ConnId}
    (hc' : (s.net.step m op).server.conns id = some c') (hup : c'.tunnelEstablished = true) :
    ∃ a ∈ s.asked ++ newAsked op,
      a.id = id ∧ a.sid = c'.masqueStreamId ∧ a.reorder = c'.peerReorderSupported := by
  obtain ⟨c, hc, hup', hface, -⟩ | ⟨hdrs, env, rfl, hip, hreorder⟩ := h.tunnel_cases op hc' hup
  · obtain ⟨a, ha, hid, hsid, hreorder⟩ := h.tunnel id c hc hup'
    exact ⟨a, mem_append_left _ ha, hid, hsid.trans (congrArg Face.sid hface).symm,
      hreorder.trans (congrArg Face.reorder hface).symm⟩
  · refine ⟨⟨id, c'.masqueStreamId, hdrs.hasReorderHdr⟩, mem_append_right _ ?_, rfl, rfl,
      hreorder.symm⟩
    simp [newAsked, hip]

theorem server_engine (op : NetOp)
    (hok : s.allowed (.server op) = true) {id : ConnId} (hlink : (n, id) ∈ s.links)
    (hc' : (s.net.step m op).server.conns id = some c') (hup : c'.tunnelEstablished = true)
    {sec : Section} (hsec : sec ∈ s.sections ++ newSections s.net.server op) (hid : sec.id = id)
    (hsid : sec.sid = c'.masqueStreamId) (hecho : sec.echo = true) :
    c'.reorderRx.isSome = true := by
  subst hid
  obtain hold | hnew := mem_append.mp hsec
  · obtain ⟨c, hc, hup', hface, hrx⟩ | ⟨hdrs, env, rfl, hip, -⟩ := h.tunnel_cases op hc' hup
    · rw [hrx]
      exact h.engine n sec.id c hlink hc hup' sec hold rfl
        (hsid.trans (congrArg Face.sid hface)) hecho
    · -- the stream was asked on before, so it is not read again
      obtain ⟨-, a, ha, hid, hsid'⟩ := h.echoed sec hold hecho
      exact absurd (hsid'.trans hsid) (((allowed_request hok).2 hip n hlink).2 a ha hid)
  · obtain ⟨hdrs, env, c'', rfl, -, -, hc'', hrx⟩ := mem_newSections hnew hecho
    obtain rfl := Option.some.inj (hc''.symm.trans hc')
    exact hrx

theorem server_down (op : NetOp) {id : ConnId}
    (hsent : .sent id frame ∈ (s.net.step m op).log) :
    ∃ sid, BareUnless m sid frame
      (∃ a ∈ s.asked ++ newAsked op, a.id = id ∧ a.reorder = true) := by
  obtain ⟨es, hcall⟩ := h.net.call op
  rw [hcall.log] at hsent
  obtain hold | hnew := mem_append.mp hsent
  · obtain ⟨sid, hbare⟩ := h.down id frame hold
    refine ⟨sid, hbare.imp ?_⟩
    rintro ⟨a, ha, hid, hreorder⟩
    exact ⟨a, mem_append_left _ ha, hid, hreorder⟩
  · obtain ⟨face, hface, hbare⟩ := sent_frame (hcall.before _ hnew)
    refine ⟨face.sid, hbare.imp fun hreorder => ?_⟩
    obtain ⟨c, hc, hcface⟩ := Option.bind_eq_some_iff.mp hface
    split at hcface
    · next hup =>
      obtain rfl := Option.some.inj hcface
      obtain ⟨a, ha, hid, -, hflag⟩ := h.tunnel id c hc hup
      exact ⟨a, mem_append_left _ ha, hid, hflag.trans hreorder⟩
    · cases hcface

theorem server (op : NetOp)
    (hok : s.allowed (.server op) = true) : Negotiated m (s.served m op) where
  asks := h.asks
  net := h.net.step op
  heard n hdrs hmem :=
    (h.heard n hdrs hmem).mono (fun _ hsec => mem_append_left _ hsec) fun _ hl => hl
  quarter := h.quarter
  once := h.once
  issued a ha := by
    obtain ha | ha := mem_append.mp ha
    · exact (h.issued a ha).trans (step_scope m s.net op)
    · obtain ⟨hdrs, env, rfl, -, -⟩ := mem_newAsked ha
      exact (NetInv.issued h.net (allowed_request hok).1).trans (step_scope m s.net _)
  echoed sec hsec hecho := by
    obtain hsec | hsec := mem_append.mp hsec
    · obtain ⟨hengine, a, ha, heq⟩ := h.echoed sec hsec hecho
      exact ⟨hengine, a, mem_append_left _ ha, heq⟩
    · obtain ⟨hdrs, env, c', rfl, hip, hengine, -, -⟩ := mem_newSections hsec hecho
      refine ⟨hengine, ⟨sec.id, sec.sid, hdrs.hasReorderHdr⟩, mem_append_right _ ?_, rfl, rfl⟩
      simp [newAsked, hip]
  matched a ha n hlink := by
    obtain ha | ha := mem_append.mp ha
    · exact h.matched a ha n hlink
    · obtain ⟨hdrs, env, rfl, hip, hreorder⟩ := mem_newAsked ha
      rw [hreorder]
      exact ((allowed_request hok).2 hip n hlink).1
  tunnel id c' hc' hup := h.server_tunnel op hc' hup
  engine n id c' hlink hc' hup sec hsec hid hsid hecho :=
    h.server_engine op hok hlink hc' hup hsec hid hsid hecho
  down id frame hsent := h.server_down op hsent
  up n frame hframe := by
    obtain ⟨sid, hbare⟩ := h.up n frame hframe
    refine ⟨sid, hbare.imp ?_⟩
    rintro ⟨sec, hsec, hrest⟩
    exact ⟨sec, mem_append_left _ hsec, hrest⟩

/-- A connection of the client arrives under a number that was not used. -/
theorem link {id : ConnId} (hfirst : ∀ id', (n, id') ∉ s.links)
    (hfresh : ∀ a ∈ s.asked, a.id ≠ id) :
    Negotiated m { s with links := s.links ++ [(n, id)] } := by
  have hmem : ∀ {n' id'}, (n', id') ∈ s.links ++ [(n, id)] →
      (n', id') ∈ s.links ∨ n' = n ∧ id' = id := by
    intro n' id' hin
    simpa using hin
  refine { h with
    heard := fun n' hdrs hin => (h.heard n' hdrs hin).mono (fun _ hsec => hsec)
      fun _ hl => mem_append_left _ hl
    once := fun n' id₁ id₂ h₁ h₂ => ?_
    matched := fun a ha n' hlink => ?_
    engine := fun n' id' c hlink hc hup sec hsec hid hsid hecho => ?_
    up := fun n' frame hframe => ?_ }
  · obtain hold₁ | ⟨rfl, rfl⟩ := hmem h₁
    · obtain hold₂ | ⟨rfl, rfl⟩ := hmem h₂
      · exact h.once n' id₁ id₂ hold₁ hold₂
      · exact absurd hold₁ (hfirst id₁)
    · obtain hold₂ | ⟨-, rfl⟩ := hmem h₂
      · exact absurd hold₂ (hfirst id₂)
      · rfl
  · obtain hlink | ⟨-, heq⟩ := hmem hlink
    · exact h.matched a ha n' hlink
    · exact absurd heq (hfresh a ha)
  · obtain hlink | ⟨-, rfl⟩ := hmem hlink
    · exact h.engine n' id' c hlink hc hup sec hsec hid hsid hecho
    · obtain ⟨-, a, ha, hid', -⟩ := h.echoed sec hsec hecho
      exact absurd (hid'.trans hid) (hfresh a ha)
  · obtain ⟨sid, hbare⟩ := h.up n' frame hframe
    refine ⟨sid, hbare.imp ?_⟩
    rintro ⟨sec, hsec, hlink, hrest⟩
    exact ⟨sec, hsec, mem_append_left _ hlink, hrest⟩

theorem arrive (n : ℕ) (allocOk : Bool)
    (hok : s.allowed (.arrive n allocOk) = true) : Negotiated m (s.next m (.arrive n allocOk)) := by
  have haccept : Negotiated m (s.served m (.session (.accept allocOk))) := h.server _ rfl
  have heq : s.served m (.session (.accept allocOk)) =
      { s with net := s.net.step m (.session (.accept allocOk)) } := by
    simp [System.served, newAsked, newSections]
  rw [heq] at haccept
  unfold System.next
  dsimp only
  split
  · exact haccept
  next hscope =>
  rw [System.allowed, Bool.and_eq_true, all_eq_true] at hok
  refine haccept.link (fun id' hin => ?_) fun a ha heq' => ?_
  · have hne := hok.2 _ hin
    simp at hne
  · -- the number is larger than every one that was issued
    have hlt := lt_of_le_of_ne (step_scope m s.net (.session (.accept allocOk))) (Ne.symm hscope)
    exact absurd (heq' ▸ h.issued a ha) (not_le.mpr hlt)

/-! ### Runs -/

theorem step (op : SysOp) : Negotiated m (s.step m op) := by
  unfold System.step
  split
  case isFalse => exact h
  case isTrue hok =>
  have hconn : ∀ f : CliConn → System, (∀ k, s.client.conn = some k → Negotiated m (f k)) →
      Negotiated m (s.client.conn.elim s f) := by
    intro f hf
    cases hk : s.client.conn with
    | none => exact h
    | some k => exact hf k hk
  cases op with
  | client op => exact h.client op hok
  | clientTun v pkt env => exact hconn _ fun k hk => h.clientTun hk v pkt env
  | clientDgram data now alloc => exact hconn _ fun k hk => h.clientDgram hk data now alloc
  | clientTick now => exact hconn _ fun k hk => h.clientTick hk now
  | arrive n allocOk => exact h.arrive n allocOk hok
  | server op => exact h.server op hok

omit h in
theorem new {scfg : ServerConfig} {svr : Svr.Server}
    (hnew : Svr.Server.new scfg = some svr) (cfg : ClientConfig) (bucket : PtbBucket) :
    Negotiated m (System.new cfg svr bucket) := by
  have hnet : NetInv m (Net.new svr bucket) := NetInv.new hnew bucket
  obtain ⟨pool, hpool, rfl⟩ := Option.map_eq_some_iff.mp hnew
  have hnil {α : Type} {a : α} {P : Prop} (h : a ∈ ([] : List α)) : P := absurd h not_mem_nil
  exact ⟨Cli.asks_new cfg, hnet, fun _ _ => hnil, fun _ => hnil, fun _ _ _ => hnil, fun _ => hnil,
    fun _ => hnil, fun _ => hnil, fun _ c hc => absurd hc.symm (Option.some_ne_none c),
    fun _ _ _ => hnil, fun _ _ => hnil, fun _ _ => hnil⟩

/-- **The invariant holds along every run.** -/
theorem run (ops : List SysOp) : Negotiated m (s.run m ops) :=
  Run.exec_inv (System.step m) (fun _ op hs => hs.step op) ops s h

/-- A datagram of the client is never without an engine at the server: it is bare, or of another
tunnel, or the engine that was echoed is there. -/
theorem serverDgramRead_ne {id : ConnId} {c : SvrConn}
    (hframe : (n, frame) ∈ s.up) (hlink : (n, id) ∈ s.links) (hc : s.net.server.conns id = some c)
    (dgramMss : ℕ) (now : UInt64) (alloc : Alloc) :
    serverDgramRead m (c.tun dgramMss) c.reorderRx frame now alloc ≠ .noEngine := by
  unfold serverDgramRead
  split
  · exact nofun
  next hdown =>
  have hup : c.tunnelEstablished = true := by simpa [SvrConn.tun] using hdown
  obtain ⟨sid, hbare⟩ := h.up n frame hframe
  by_cases hsid : sid.val / 4 = c.masqueStreamId.val / 4
  · -- the frame is of the stream of the tunnel
    have hrx : BareUnless m sid frame (c.reorderRx.isSome = true) := by
      refine hbare.imp ?_
      rintro ⟨sec, hsec, hlink', hsecSid, hecho, r, hr, -, hrsid⟩
      obtain ⟨a, ha, haid, hasid, -⟩ := h.tunnel id c hc hup
      obtain ⟨r', hr', -, hrsid', -⟩ := h.matched a ha n (haid ▸ hlink)
      have hquarter := h.quarter r hr
      have hquarter' := h.quarter r' hr'
      rw [hrsid] at hquarter
      rw [hrsid', hasid] at hquarter'
      have heq : sid = c.masqueStreamId := Fin.ext (by omega)
      exact h.engine n id c hlink hc hup sec hsec (h.once n _ _ hlink' hlink)
        (hsecSid.trans heq) hecho
    obtain ⟨payload, hunframe, hne⟩ := hrx.dispatch now alloc
    rw [hunframe]
    dsimp only
    split
    · exact nofun
    · exact hne
  · obtain ⟨payload, rfl, -⟩ := hbare
    rw [m.unframe_header]
    have hother : sid.val / 4 ≠ (c.tun dgramMss).masqueStreamId.val / 4 := hsid
    dsimp only
    rw [if_pos hother]
    exact nofun

/-- What the server stamps was asked for by a client with an engine. -/
theorem asked_engine {id : ConnId} (hlink : (n, id) ∈ s.links)
    (hasked : ∃ a ∈ s.asked, a.id = id ∧ a.reorder = true) :
    ∃ r ∈ s.client.requests, r.conn = n ∧ r.reorder = true ∧ r.engine = true := by
  obtain ⟨a, ha, rfl, hreorder⟩ := hasked
  obtain ⟨r, hr, hconn, -, heq⟩ := h.matched a ha n hlink
  have htrue : r.reorder = true := heq.trans hreorder
  exact ⟨r, hr, hconn, htrue, h.asks.honest r hr htrue⟩

theorem clientDgramRead_ne {id : ConnId}
    (hk : s.client.conn = some k) (hlink : (k.id, id) ∈ s.links)
    (hsent : .sent id frame ∈ s.net.log) (tunActive : Bool) (now : UInt64) (alloc : Alloc) :
    clientDgramRead m tunActive k.reorderRx frame now alloc ≠ .noEngine := by
  unfold clientDgramRead
  split
  · exact nofun
  obtain ⟨sid, hbare⟩ := h.down id frame hsent
  have hrx : BareUnless m sid frame (k.reorderRx.isSome = true) := by
    refine hbare.imp fun hasked => ?_
    obtain ⟨r, hr, hconn, hreorder, -⟩ := h.asked_engine hlink hasked
    exact ((h.asks.asked k hk).mine r hr hconn).2 hreorder
  obtain ⟨payload, hunframe, hne⟩ := hrx.dispatch now alloc
  rw [hunframe]
  exact hne

end Negotiated

/-- **Stamped datagrams find an engine.**  Whatever a client and a server have done, each
configured in any way, and whichever allocations failed: a stamped datagram of the client was
preceded by an echo on its connection, sent while the server had an engine for it, and a stamped
datagram to the client by a request on its connection, sent while the client had one.  And
whichever of these datagrams arrives now, at a tunnel that is up, there is an engine to take it
if it is stamped. -/
theorem stamped_finds_engine (m : Masque) {scfg : ServerConfig} {svr : Svr.Server}
    (hnew : Svr.Server.new scfg = some svr) (cfg : ClientConfig) (bucket : PtbBucket)
    (ops : List SysOp) :
    let s := (System.new cfg svr bucket).run m ops
    -- from the client to the server
    ((∀ n frame, (n, frame) ∈ s.up → stamped m frame = true →
        ∃ sec ∈ s.sections, (n, sec.id) ∈ s.links ∧ sec.echo = true ∧ sec.engine = true) ∧
      ∀ n frame id c, (n, frame) ∈ s.up → (n, id) ∈ s.links → s.net.server.conns id = some c →
        ∀ dgramMss now alloc,
          serverDgramRead m (c.tun dgramMss) c.reorderRx frame now alloc ≠ .noEngine) ∧
    -- from the server to the client
    ((∀ n id frame, .sent id frame ∈ s.net.log → (n, id) ∈ s.links → stamped m frame = true →
        ∃ r ∈ s.client.requests, r.conn = n ∧ r.reorder = true ∧ r.engine = true) ∧
      ∀ k id frame, s.client.conn = some k → (k.id, id) ∈ s.links →
        .sent id frame ∈ s.net.log → ∀ tunActive now alloc,
          clientDgramRead m tunActive k.reorderRx frame now alloc ≠ .noEngine) := by
  intro s
  have h : Negotiated m s := (Negotiated.new hnew cfg bucket).run ops
  refine ⟨⟨fun n frame hframe hst => ?_, fun n frame id c hframe hlink hc => ?_⟩,
    fun n id frame hsent hlink hst => ?_, fun k id frame hk hlink hsent => ?_⟩
  · obtain ⟨sid, hbare⟩ := h.up n frame hframe
    obtain ⟨sec, hsec, hlink, -, hecho, -⟩ := hbare.of_stamped hst
    exact ⟨sec, hsec, hlink, hecho, (h.echoed sec hsec hecho).1⟩
  · exact h.serverDgramRead_ne hframe hlink hc
  · obtain ⟨sid, hbare⟩ := h.down id frame hsent
    exact h.asked_engine hlink (hbare.of_stamped hst)
  · exact h.clientDgramRead_ne hk hlink hsent

/-- A packet between the client and the server that the shim stamps. -/
def udpPacket (ttl src dst : UInt8) : Packet :=
  [0x45, 0, 0, 28, 0, 0, 0, 0, ttl, 17, 0, 0, 10, 0, 0, src, 10, 0, 0, dst,
    0x13, 0x88, 1, 187, 0, 8, 0, 0]

/-- The first stamped frame of a flow, on stream `0`. -/
def firstStamped (pkt : Packet) : Packet :=
  Masque.standard.header 0 ++ (wireEncode typeV1 flagReset 0 ++ pkt)

/-- A client with the shim on connects to a server with the shim on; a stamped packet goes each
way. -/
def exchange : List SysOp :=
  [.client (.addPath 1 (some Cli.plainOps) 0 []), .client (.connect 2 Cli.goodStart),
    .arrive 1 true, .client (.socketRecv [.handshakeFinished 3 Cli.sentRequest]),
    .server (.session (.h3ConnCreate 1 allSent.engines)),
    .server (.session (.requestCreate 1 0 true)),
    .server (.session (.requestRead 1 0 { goodRequest with hasReorderHdr := true } allSent)),
    .client (.socketRecv
      [.headers [.status (statusText 200), .other, .reorder], .body 4 Cli.sampleBody]),
    .client (.setTunActive 5 true),
    .clientTun ⟨false, false, [], ⟨10, 0⟩⟩ (udpPacket 64 2 1) sampleEnv,
    .server (.tunPacket (fun _ => 1400) (udpPacket 64 1 2) sampleEnv)]

/-- Both directions of the exchange are on record. -/
def exchanged (s : System) : Bool :=
  s.links.contains (1, 1) && s.up.contains (1, firstStamped (udpPacket 64 2 1)) &&
    sentOn s.net.log 1 (firstStamped (decTtl (udpPacket 64 1 2)))

theorem stamped_finds_engine_exchange : ∃ svr,
    Svr.Server.new { smallServer with reorder := sampleConfig } = some svr ∧
    let s := (System.new { Cli.plainConfig with reorder := sampleConfig } svr ⟨10, 0⟩).run
      .standard exchange
    exchanged s = true ∧
      (∃ sec ∈ s.sections, (1, sec.id) ∈ s.links ∧ sec.echo = true ∧ sec.engine = true) ∧
      ∃ r ∈ s.client.requests, r.conn = 1 ∧ r.reorder = true ∧ r.engine = true := by
  refine ⟨_, rfl, ?_⟩
  intro s
  have hexchanged : exchanged s = true := by decide +kernel
  have h := @stamped_finds_engine .standard { smallServer with reorder := sampleConfig } _ rfl
    { Cli.plainConfig with reorder := sampleConfig } ⟨10, 0⟩ exchange
  obtain ⟨hboth, hdown⟩ := Bool.and_eq_true_iff.mp hexchanged
  obtain ⟨hlink, hup⟩ := Bool.and_eq_true_iff.mp hboth
  refine ⟨hexchanged, h.1.1 1 _ (contains_iff_mem.mp hup) (by decide +kernel), ?_⟩
  exact h.2.1 1 1 _ (mem_of_sentOn hdown) (contains_iff_mem.mp hlink) (by decide +kernel)

end Mqvpn.Tunnel
