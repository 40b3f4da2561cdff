import Mqvpn.Server.Lanes
import Mqvpn.Endpoint.RoundTrip
import Mqvpn.Reorder.Accounting

/-!
# Clients are kept apart

A client speaks and is spoken to under the address its tunnel was given, and a tunnel never
sees what an earlier one on the same connection left behind.

For the addresses, the check of `forwardInnerIp` settles what is written to the TUN device;
what goes to a client is found through the slot of its address, or answers a packet that
passed the check.  For the tunnels, the point is the life of the reorder engines.  An engine
is fresh when a tunnel comes up, for it is freed with the session and takes nothing while
there is none.  So the engine of a tunnel, and everything that was forwarded for it, is what
a fresh engine makes of the datagrams and ticks since the tunnel came up: `replay`.

## Main definitions

* `Face.IsSource`, `Face.IsDest` — a packet from a tunnel, and one for it.
* `replay` — a fresh engine on the inputs of one tunnel.
* `NetInv` — the invariant.

## Main results

* `NetInv.step` — the invariant holds along every run.
* `clients_isolated` — **isolation**.
-/

namespace Mqvpn.Svr

open Reorder Endpoint List

/-! ### Addresses -/

/-- The face of a connection that has a tunnel. -/
def Server.face (s : Server) (id : ConnId) : Option Face :=
  (s.conns id).bind fun c => if c.tunnelEstablished then some c.face else none

/-- The bytes at `v4`, or for IPv6 at `v6`, are an address of the face. -/
def Face.at (a : Face) (v4 v6 : ℕ) (pkt : Packet) : Prop :=
  ipVer pkt = 4 ∧ 20 ≤ pkt.length ∧ be32 ((pkt.drop v4).take 4) = a.ip ∨
    ipVer pkt = 6 ∧ 40 ≤ pkt.length ∧ ∃ ip6, a.ip6 = some ip6 ∧ (pkt.drop v6).take 16 = ip6.bytes

def Face.IsSource (a : Face) (pkt : Packet) : Prop := a.at 12 8 pkt

def Face.IsDest (a : Face) (pkt : Packet) : Prop := a.at 16 24 pkt

theorem Face.at_decTtl {a : Face} {v4 v6 : ℕ} {pkt : Packet} (h4 : 12 ≤ v4) (h6 : 8 ≤ v6)
    (h : a.at v4 v6 pkt) : a.at v4 v6 (decTtl pkt) := by
  rcases h with ⟨hver, hlen, hip⟩ | ⟨hver, hlen, ip6, hip6, heq⟩
  · refine Or.inl ⟨(ipVer_decTtl pkt).trans hver, (length_decTtl pkt).symm ▸ hlen, ?_⟩
    rw [drop_decTtl pkt (fun _ => h4) (by omega)]
    exact hip
  · refine Or.inr ⟨(ipVer_decTtl pkt).trans hver, (length_decTtl pkt).symm ▸ hlen, ip6, hip6, ?_⟩
    rw [drop_decTtl pkt (fun hv => by rw [hver] at hv; cases hv) h6]
    exact heq

/-! ### Forwarding -/

/-- What a forwarded packet may lead to: it comes from the face and is written with its TTL
decremented, or a message goes to the face. -/
structure Forwarding.Ok (m : Masque) (a : Face) (pkt : Packet) (r : Forwarding) : Prop where
  wrote : ∀ out, r.wrote = some out → out = decTtl pkt ∧ a.IsSource pkt
  sent : ∀ frame, r.sent = some frame → ∃ inner, frame = m.header a.sid ++ inner ∧ a.IsDest inner

namespace Forwarding.Ok

variable {m : Masque} {a : Face} {c : SvrConn} {pkt : Packet} {bucket : PtbBucket}
  {env : ForwardEnv}

theorem drop : Forwarding.Ok m a pkt { bucket } := ⟨nofun, nofun⟩

theorem timeExceeded {msg : Option Packet} (h : ∀ out, msg = some out → c.face.IsDest out) :
    Forwarding.Ok m c.face pkt (timeExceeded m bucket c msg env) := by
  unfold Svr.timeExceeded
  split
  · exact ⟨nofun, nofun⟩
  · refine ⟨nofun, fun frame hsent => ?_⟩
    obtain ⟨out, hmsg, hsend⟩ := Option.bind_eq_some_iff.mp hsent
    unfold sendIcmpViaDatagram at hsend
    dsimp only at hsend
    split at hsend
    · cases hsend
    · exact ⟨out, (Option.some.inj hsend).symm, h out hmsg⟩

theorem tunOutput (h : a.IsSource pkt) : Forwarding.Ok m a pkt (tunOutput bucket pkt env) := by
  unfold Svr.tunOutput
  split
  · exact ⟨nofun, nofun⟩
  · exact ⟨fun out hout => ⟨(Option.some.inj hout).symm, h⟩, nofun⟩

end Forwarding.Ok

/-- **The check of the source address.** -/
theorem forwardInnerIp_ok (m : Masque) (pool : AddrPool) (bucket : PtbBucket) (c : SvrConn)
    (pkt : Packet) (env : ForwardEnv) :
    Forwarding.Ok m c.face pkt (forwardInnerIp m pool bucket c pkt env) := by
  unfold forwardInnerIp
  split
  · exact .drop
  split
  case isTrue hver =>
    split
    · exact .drop
    next hlen =>
    split
    · exact .drop
    next hip =>
    have hsrc : be32 ((pkt.drop 12).take 4) = c.assignedIp := not_not.mp hip
    split
    · refine .timeExceeded fun out hout => ?_
      have hanswers := icmpV4_answers (Varint.length_bigEndian ..) hout
      exact Or.inl ⟨hanswers.version, hanswers.size.1, by rw [hanswers.dest]; exact hsrc⟩
    · exact .tunOutput (Or.inl ⟨hver, by omega, hsrc⟩)
  case isFalse =>
    split
    · next hver =>
      split
      · exact .drop
      next hlen =>
      split
      · exact .drop
      next hip =>
      rw [not_or, Bool.not_eq_true, Bool.not_eq_false', not_not] at hip
      have hface : c.face.ip6 = some c.assignedIp6 := if_pos hip.1
      split
      · split
        · refine .timeExceeded fun out hout => ?_
          have hanswers := icmpV6_answers hout
          exact Or.inr ⟨hanswers.version, hanswers.size.1, _, hface,
            by rw [hanswers.dest]; exact hip.2⟩
        · exact .drop
      · exact .tunOutput (Or.inr ⟨hver, by omega, _, hface, hip.2⟩)
    · exact .drop

/-! ### The inputs of one tunnel -/

/-- Follow what concerns a connection since its tunnel came up. -/
def generationStep (id : ConnId) (acc : List NetEvent) : NetEvent → List NetEvent
  | .up id' _ => if id' = id then [] else acc
  | .input id' inp => if id' = id then acc ++ [.input id' inp] else acc
  | .forward id' inner => if id' = id then acc ++ [.forward id' inner] else acc
  | .wrote _ _ => acc
  | .sent _ _ => acc

def generation (id : ConnId) (log : List NetEvent) : List NetEvent :=
  log.foldl (generationStep id) []

def inputs (es : List NetEvent) : List Input :=
  es.filterMap fun
    | .input _ inp => some inp
    | _ => none

/-- The packets that were forwarded among some events. -/
def forwards (es : List NetEvent) : List Packet :=
  es.filterMap fun
    | .forward _ inner => some inner
    | _ => none

/-- A session that is up, as far as its lane is concerned. -/
def liveSession (sid : StreamId) : TunSession where
  tunnelEstablished := true
  masqueStreamId := sid
  dgramMss := 0
  reorderTx := none
  peerReorderSupported := false

def replayStep (m : Masque) (sid : StreamId) (acc : Option Rx × List Packet) (inp : Input) :
    Option Rx × List Packet :=
  let r := laneStep m (liveSession sid) acc.1 inp
  (r.1, acc.2 ++ r.2)

/-- What an engine makes of some inputs: the engine after them, and the packets forwarded. -/
def replay (m : Masque) (sid : StreamId) (rx : Option Rx) (inps : List Input) :
    Option Rx × List Packet :=
  inps.foldl (replayStep m sid) (rx, [])

theorem generation_append (id : ConnId) (log es : List NetEvent) :
    generation id (log ++ es) = es.foldl (generationStep id) (generation id log) :=
  foldl_append ..

@[simp] theorem generation_input (id : ConnId) (log : List NetEvent) (inp : Input) :
    generation id (log ++ [.input id inp]) = generation id log ++ [.input id inp] := by
  simp [generation_append, generationStep]

/-- The lane of a session depends on its tunnel and its stream only. -/
theorem laneStep_live (m : Masque) {c : SvrConn} (hup : c.tunnelEstablished = true)
    (dgramMss : ℕ) (rx : Option Rx) (inp : Input) :
    laneStep m (c.tun dgramMss) rx inp = laneStep m (liveSession c.masqueStreamId) rx inp := by
  cases inp with
  | tick now => rfl
  | datagram data now alloc =>
    have htunnel : (c.tun dgramMss).tunnelEstablished =
        (liveSession c.masqueStreamId).tunnelEstablished := hup
    have hread : serverDgramRead m (c.tun dgramMss) rx data now alloc =
        serverDgramRead m (liveSession c.masqueStreamId) rx data now alloc := by
      unfold serverDgramRead
      rw [htunnel]
      rfl
    simp only [laneStep, hread]

/-! ### What is seen of a step -/

/-- An event keeps clients apart: what is written comes from the face of its connection, what
is sent goes to it, with a reorder header only if its client takes it. -/
def Isolated (m : Masque) (face : ConnId → Option Face) : NetEvent → Prop
  | .wrote id pkt => ∃ a, face id = some a ∧ a.IsSource pkt
  | .sent id frame => ∃ a, face id = some a ∧ ∃ hdr inner,
      frame = m.header a.sid ++ (hdr ++ inner) ∧
        (hdr = [] ∨ hdr.length = hdrLen ∧ a.reorder = true) ∧ a.IsDest inner
  | _ => True

/-- What is written was forwarded, up to its TTL. -/
def Grounded (es : List NetEvent) : Prop :=
  ∀ id pkt, .wrote id pkt ∈ es → ∃ inner, .forward id inner ∈ es ∧ pkt = decTtl inner

theorem Grounded.append {es es' : List NetEvent} (h : Grounded es) (h' : Grounded es') :
    Grounded (es ++ es') := by
  intro id pkt hmem
  simp only [mem_append, or_and_right, exists_or] at hmem ⊢
  exact hmem.imp (h id pkt) (h' id pkt)

/-- A step of the lane: the faces stay, and what is seen keeps clients apart. -/
structure LaneSeen (m : Masque) (n n' : Net) : Prop where
  face : n'.server.face = n.server.face
  seen : ∃ es, n'.log = n.log ++ es ∧ (∀ e ∈ es, Isolated m n.server.face e) ∧ Grounded es

theorem LaneSeen.refl (m : Masque) (n : Net) : LaneSeen m n n :=
  ⟨rfl, [], by simp, by simp, by simp [Grounded]⟩

theorem LaneSeen.trans {m : Masque} {n n' n'' : Net} (h : LaneSeen m n n')
    (h' : LaneSeen m n' n'') : LaneSeen m n n'' := by
  obtain ⟨es, hlog, hiso, hground⟩ := h.seen
  obtain ⟨es', hlog', hiso', hground'⟩ := h'.seen
  refine ⟨h'.face.trans h.face, es ++ es', ?_, fun e he => ?_, hground.append hground'⟩
  · rw [hlog', hlog, append_assoc]
  · rcases mem_append.mp he with he | he
    · exact hiso e he
    · rw [← h.face]
      exact hiso' e he

/-! ### Forwarding a list of packets -/

/-- What forwarding packets of a connection adds to the log. -/
structure ForwardLog (m : Masque) (id : ConnId) (c : SvrConn) (pkts : List Packet)
    (es : List NetEvent) : Prop where
  self : ∀ acc, es.foldl (generationStep id) acc = acc ++ pkts.map (NetEvent.forward id)
  other : ∀ id', id' ≠ id → ∀ acc, es.foldl (generationStep id') acc = acc
  isolated : ∀ face : ConnId → Option Face, face id = some c.face → ∀ e ∈ es, Isolated m face e
  grounded : Grounded es
  nothing : pkts = [] → es = []

theorem mem_events {r : Forwarding} {id : ConnId} {e : NetEvent} (h : e ∈ r.events id) :
    (∃ pkt, r.wrote = some pkt ∧ e = .wrote id pkt) ∨
      ∃ frame, r.sent = some frame ∧ e = .sent id frame := by
  simpa only [Forwarding.events, mem_append, Option.mem_toList, Option.map_eq_some_iff,
    @eq_comm _ e] using h

/-- Neither writing nor sending is part of a generation. -/
theorem foldl_events (r : Forwarding) (id id' : ConnId) (acc : List NetEvent) :
    (r.events id).foldl (generationStep id') acc = acc := by
  refine foldl_eq_self _ _ fun e he acc => ?_
  rcases mem_events he with ⟨_, _, rfl⟩ | ⟨_, _, rfl⟩ <;> rfl

theorem ForwardLog.cons {m : Masque} {id : ConnId} {c : SvrConn} {pkt : Packet}
    {pkts : List Packet} {es : List NetEvent} {r : Forwarding} (hr : r.Ok m c.face pkt)
    (h : ForwardLog m id c pkts es) :
    ForwardLog m id c (pkt :: pkts) ((.forward id pkt :: r.events id) ++ es) where
  self acc := by
    rw [cons_append, foldl_cons, foldl_append, foldl_events, h.self]
    simp [generationStep]
  other id' hne acc := by
    rw [cons_append, foldl_cons, foldl_append, foldl_events, h.other id' hne]
    simp [generationStep, hne.symm]
  isolated face hface e he := by
    rcases mem_append.mp he with he | he
    · rcases mem_cons.mp he with rfl | he
      · trivial
      · rcases mem_events he with ⟨out, hout, rfl⟩ | ⟨frame, hframe, rfl⟩
        · obtain ⟨rfl, hsrc⟩ := hr.wrote out hout
          exact ⟨_, hface, Face.at_decTtl (Nat.le_refl _) (Nat.le_refl _) hsrc⟩
        · obtain ⟨inner, hin, hdst⟩ := hr.sent frame hframe
          exact ⟨_, hface, [], inner, hin, Or.inl rfl, hdst⟩
    · exact h.isolated face hface e he
  grounded := by
    refine Grounded.append (fun id' out hmem => ?_) h.grounded
    rcases mem_cons.mp hmem with heq | hmem
    · cases heq
    · rcases mem_events hmem with ⟨out', hout, heq⟩ | ⟨frame, _, heq⟩
      · cases heq
        exact ⟨pkt, mem_cons_self, (hr.wrote out hout).1⟩
      · cases heq
  nothing := nofun

theorem forwardAll_spec (m : Masque) (id : ConnId) (c : SvrConn) (pkts : List Packet)
    (envs : List ForwardEnv) (n : Net) :
    ∃ bucket es, Net.forwardAll m id c pkts envs n =
        { n with bucket := bucket, log := n.log ++ es } ∧ ForwardLog m id c pkts es := by
  induction pkts generalizing envs n with
  | nil =>
    exact ⟨n.bucket, [], by simp [Net.forwardAll], by simp, by simp, by simp, by simp [Grounded],
      fun _ => rfl⟩
  | cons pkt pkts ih =>
    have hr := forwardInnerIp_ok m n.server.pool n.bucket c pkt (envs.headD {})
    obtain ⟨bucket, es, heq, hlog⟩ := ih envs.tail ({ n with
      bucket := (forwardInnerIp m n.server.pool n.bucket c pkt (envs.headD {})).bucket }.note
        (.forward id pkt ::
          (forwardInnerIp m n.server.pool n.bucket c pkt (envs.headD {})).events id))
    refine ⟨bucket, _, ?_, hlog.cons hr⟩
    rw [Net.forwardAll, heq]
    simp [Net.note]

/-! ### The invariant -/

/-- The engine of a tunnel and what it forwarded are a replay of its inputs. -/
def Replayed (m : Masque) (reorder : Config) (log : List NetEvent) (id : ConnId) (c : SvrConn) :
    Prop :=
  ∃ rx, FreshRx reorder rx ∧ replay m c.masqueStreamId rx (inputs (generation id log)) =
    (c.reorderRx, forwards (generation id log))

/-- **The invariant of the server with its lane.** -/
structure NetInv (m : Masque) (n : Net) : Prop where
  svr : SvrInv n.server
  /-- Without a tunnel the engine has taken nothing. -/
  idle : IdleFresh n.server
  twin : ∀ id c, n.server.conns id = some c → c.tunnelEstablished = true →
    Twin n.server.pool c.face
  /-- With a tunnel it has taken the inputs since the tunnel came up. -/
  live : ∀ id c, n.server.conns id = some c → c.tunnelEstablished = true →
    Replayed m n.server.reorder n.log id c

variable {m : Masque} {n : Net} {id : ConnId} {c : SvrConn}

theorem face_eq {s : Server} (hc : s.conns id = some c) (hup : c.tunnelEstablished = true) :
    s.face id = some c.face := by
  rw [Server.face, hc, Option.bind_some, if_pos hup]

theorem face_setConn {s : Server} {c' : SvrConn} (hc : s.conns id = some c)
    (htunnel : c'.tunnelEstablished = c.tunnelEstablished) (hface : c'.face = c.face) :
    (s.setConn id c').face = s.face := by
  funext id'
  by_cases hid : id' = id
  · subst hid
    rw [Server.face, Server.face, setConn_conns_self, hc, Option.bind_some, Option.bind_some,
      htunnel, hface]
  · rw [Server.face, Server.face, setConn_conns_of_ne hid]

/-- A registered connection has a tunnel. -/
theorem SvrInv.up_of_slot {s : Server} (h : SvrInv s) {off : ℕ}
    (hslot : Slots.entry s.sessions off = some id) :
    ∃ c, s.conns id = some c ∧ c.assignedIp = s.pool.addr off ∧ c.tunnelEstablished = true := by
  obtain ⟨hlo, hhi, c, hc, haddr⟩ := h.slot off id hslot
  refine ⟨c, hc, haddr, (h.conn id c hc).tunnel.mpr ?_⟩
  rw [haddr]
  exact h.pool.addr_ne_zero (by omega) hhi

/-- The engines of a connection are written back. -/
theorem NetInv.setEngines (h : NetInv m n) (hc : n.server.conns id = some c) (rx : Option Rx)
    (tx : Option Tx) (bucket : PtbBucket) {log : List NetEvent}
    (hidle : c.tunnelEstablished = false → FreshRx n.server.reorder rx)
    (hlive : c.tunnelEstablished = true →
      Replayed m n.server.reorder log id { c with reorderRx := rx, reorderTx := tx })
    (hother : ∀ id', id' ≠ id → generation id' log = generation id' n.log) :
    NetInv m { server := n.server.setConn id { c with reorderRx := rx, reorderTx := tx },
               bucket := bucket, log := log } where
  svr := h.svr.setConn hc rfl rfl rfl rfl (fun _ => rfl) fun hh3 => ⟨hh3, rfl⟩
  idle := h.idle.setConn hidle
  twin id' c' hc' hup := by
    obtain ⟨-, rfl⟩ | ⟨-, hc'⟩ := setConn_conns_cases hc'
    · exact h.twin id c hc hup
    · exact h.twin id' c' hc' hup
  live id' c' hc' hup := by
    obtain ⟨rfl, rfl⟩ | ⟨hne, hc'⟩ := setConn_conns_cases hc'
    · exact hlive hup
    · obtain ⟨rx', hfresh, hrep⟩ := h.live id' c' hc' hup
      refine ⟨rx', hfresh, ?_⟩
      dsimp only
      rw [hother id' hne]
      exact hrep

/-! ### Calls of the session layer -/

/-- A call does not start a tunnel that is there. -/
theorem generation_upEvents {s s' : Server} {op : SvrOp} (hup : s.established id = true)
    (log : List NetEvent) : generation id (log ++ upEvents s s' op) = generation id log := by
  unfold upEvents
  split
  · next id' sid _ _ =>
    split
    · next hev =>
      have hne : id' ≠ id := by
        rintro rfl
        rw [hup] at hev
        exact Bool.false_ne_true hev.1.symm
      simp [generation_append, generationStep, hne]
    · rw [append_nil]
  · rw [append_nil]

/-- A tunnel that comes up starts a generation. -/
theorem generation_up {s s' : Server} {sid : StreamId} {hdrs : ReqHeaders} {env : ResponseEnv}
    (hdown : s.established id = false) (hup : s'.established id = true) (log : List NetEvent) :
    generation id (log ++ upEvents s s' (.requestRead id sid hdrs env)) = [] := by
  simp [upEvents, hdown, hup, generation_append, generationStep]

theorem NetInv.session (h : NetInv m n) (op : SvrOp) : NetInv m (n.step m (.session op)) where
  svr := h.svr.step op
  idle := IdleFresh.step h.svr h.idle op
  twin id c' hc' hup := by
    cases lane_step h.svr h.idle op hc' with
    | keep c hc htunnel hface hrx =>
      rw [hface]
      exact (h.twin id c hc (htunnel.symm.trans hup)).congr (step_constants n.server op).2
    | idle htunnel _ => exact absurd (htunnel.symm.trans hup) Bool.false_ne_true
    | up _ _ _ _ _ _ _ _ hraised => exact hraised.twin
  live id c' hc' hup := by
    have hreorder : (n.step m (.session op)).server.reorder = n.server.reorder :=
      (step_constants n.server op).1
    change Replayed m _ (n.log ++ upEvents n.server (n.server.step op) op) id c'
    rw [hreorder]
    cases lane_step h.svr h.idle op hc' with
    | keep c hc htunnel hface hrx =>
      have hold : c.tunnelEstablished = true := htunnel.symm.trans hup
      have hsid : c'.masqueStreamId = c.masqueStreamId := congrArg Face.sid hface
      unfold Replayed
      rw [generation_upEvents ((established_eq hc).trans hold), hsid, hrx]
      exact h.live id c hc hold
    | idle htunnel _ => exact absurd (htunnel.symm.trans hup) Bool.false_ne_true
    | up sid hdrs env hop _ hdown _ hrx _ =>
      subst hop
      have hnow : (n.server.step (.requestRead id sid hdrs env)).established id = true :=
        (established_eq hc').trans hup
      refine ⟨c'.reorderRx, hrx, ?_⟩
      rw [generation_up hdown hnow]
      rfl

/-- A call of the session layer writes nothing and sends nothing on the lane. -/
theorem isolated_upEvents {s s' : Server} {op : SvrOp} {e : NetEvent} (he : e ∈ upEvents s s' op)
    (face : ConnId → Option Face) : Isolated m face e ∧ ∀ id pkt, e ≠ .wrote id pkt := by
  unfold upEvents at he
  split at he
  · split at he
    · rw [mem_singleton] at he
      subst he
      exact ⟨trivial, nofun⟩
    · cases he
  · cases he

/-! ### Inputs -/

@[simp] theorem inputs_append (es es' : List NetEvent) :
    inputs (es ++ es') = inputs es ++ inputs es' := filterMap_append ..

@[simp] theorem forwards_append (es es' : List NetEvent) :
    forwards (es ++ es') = forwards es ++ forwards es' := filterMap_append ..

@[simp] theorem inputs_input (id : ConnId) (inp : Input) : inputs [.input id inp] = [inp] := rfl

@[simp] theorem forwards_input (id : ConnId) (inp : Input) : forwards [.input id inp] = [] := rfl

@[simp] theorem inputs_forward (id : ConnId) (pkts : List Packet) :
    inputs (pkts.map (NetEvent.forward id)) = [] := by
  simp [inputs, filterMap_map]

@[simp] theorem forwards_forward (id : ConnId) (pkts : List Packet) :
    forwards (pkts.map (NetEvent.forward id)) = pkts := by
  simp [forwards, filterMap_map]

theorem Replayed.input {reorder : Config} {log : List NetEvent} (h : Replayed m reorder log id c)
    (hup : c.tunnelEstablished = true) (inp : Input) (tx : Option Tx) {es : List NetEvent}
    (hes : ForwardLog m id { c with reorderRx := (laneStep m (c.tun 0) c.reorderRx inp).1 }
      (laneStep m (c.tun 0) c.reorderRx inp).2 es) :
    Replayed m reorder (log ++ [.input id inp] ++ es) id
      { c with reorderRx := (laneStep m (c.tun 0) c.reorderRx inp).1, reorderTx := tx } := by
  obtain ⟨rx, hfresh, hrep⟩ := h
  refine ⟨rx, hfresh, ?_⟩
  rw [generation_append, hes.self, generation_input]
  simp only [inputs_append, forwards_append, inputs_input, forwards_input, inputs_forward,
    forwards_forward, append_nil, replay, foldl_append, foldl_cons, foldl_nil]
  rw [← replay, hrep, replayStep, laneStep_live m hup]

theorem NetInv.feed (h : NetInv m n) (inp : Input) (envs : List ForwardEnv)
    (hup : ∀ now, inp = .tick now → n.server.established id = true) :
    NetInv m (n.feed m id inp envs) ∧ LaneSeen m n (n.feed m id inp envs) := by
  unfold Net.feed
  cases hc : n.server.conns id with
  | none => exact ⟨h, .refl m n⟩
  | some c =>
  dsimp only
  obtain ⟨bucket, es, heq, hes⟩ := forwardAll_spec m id
    { c with reorderRx := (laneStep m (c.tun 0) c.reorderRx inp).1 }
    (laneStep m (c.tun 0) c.reorderRx inp).2 envs
    ({ n with server := n.server.setConn id ({ c with
        reorderRx := (laneStep m (c.tun 0) c.reorderRx inp).1 }) }.note [.input id inp])
  rw [heq]
  have hother : ∀ id', id' ≠ id →
      generation id' (n.log ++ [.input id inp] ++ es) = generation id' n.log := by
    intro id' hne
    rw [generation_append, hes.other id' hne]
    simp [generation_append, generationStep, hne.symm]
  -- without a tunnel only datagrams arrive, and they lead nowhere
  have hdown : c.tunnelEstablished = false →
      laneStep m (c.tun 0) c.reorderRx inp = (c.reorderRx, []) := by
    intro hdown
    cases inp with
    | datagram data now alloc => simp [laneStep, serverDgramRead, SvrConn.tun, hdown]
    | tick now =>
      have hest := hup now rfl
      rw [established_eq hc, hdown] at hest
      cases hest
  refine ⟨h.setEngines hc _ c.reorderTx bucket (fun hd => ?_) (fun hu => ?_) hother, ?_⟩
  · rw [hdown hd]
    exact h.idle id c hc hd
  · exact (h.live id c hc hu).input hu inp c.reorderTx hes
  · refine ⟨face_setConn hc rfl rfl, [.input id inp] ++ es, append_assoc .., fun e he => ?_, ?_⟩
    · rcases mem_append.mp he with he | he
      · rw [mem_singleton] at he
        subst he
        trivial
      · cases hu : c.tunnelEstablished with
        | true =>
          have hface : n.server.face id = some c.face := face_eq hc hu
          exact hes.isolated n.server.face hface e he
        | false =>
          rw [hes.nothing (congrArg Prod.snd (hdown hu))] at he
          cases he
    · refine Grounded.append (fun id' pkt hmem => ?_) hes.grounded
      rw [mem_singleton] at hmem
      cases hmem

theorem NetInv.tickSlot (h : NetInv m n) (now : UInt64) (envs : ConnId → List ForwardEnv)
    (off : ℕ) :
    NetInv m (n.tickSlot m now envs off) ∧ LaneSeen m n (n.tickSlot m now envs off) := by
  unfold Net.tickSlot
  cases hslot : Slots.entry n.server.sessions off with
  | none => exact ⟨h, .refl m n⟩
  | some id =>
    obtain ⟨c, hc, -, hup⟩ := h.svr.up_of_slot hslot
    exact h.feed (.tick now) (envs id) fun _ _ => (established_eq hc).trans hup

theorem NetInv.tickSlots (now : UInt64) (envs : ConnId → List ForwardEnv) (offs : List ℕ) :
    ∀ n : Net, NetInv m n → NetInv m (offs.foldl (Net.tickSlot m now envs) n) ∧
      LaneSeen m n (offs.foldl (Net.tickSlot m now envs) n) := by
  induction offs with
  | nil => exact fun n h => ⟨h, .refl m n⟩
  | cons off offs ih =>
    intro n h
    obtain ⟨h', hseen⟩ := h.tickSlot now envs off
    obtain ⟨h'', hseen'⟩ := ih _ h'
    exact ⟨h'', hseen.trans hseen'⟩

theorem NetInv.tick (h : NetInv m n) (now : UInt64) (envs : ConnId → List ForwardEnv) :
    NetInv m (n.tick m now envs) ∧ LaneSeen m n (n.tick m now envs) := by
  unfold Net.tick
  split
  · exact NetInv.tickSlots now envs _ n h
  · exact ⟨h, .refl m n⟩

/-! ### Packets of the TUN device -/

theorem tun_session (n : Net) (dgramMss : ConnId → ℕ) (off : ℕ) :
    (n.tun dgramMss).sessions.getD off none = (Slots.entry n.server.sessions off).bind fun id =>
      (n.server.conns id).map fun c => c.tun (dgramMss id) := by
  rw [Net.tun, Slots.entry, getD_eq_getElem?_getD, getD_eq_getElem?_getD,
    getElem?_map]
  cases n.server.sessions[off]? with
  | none => rfl
  | some slot => rfl

/-- A packet whose destination has the offset of a connection goes to its face. -/
theorem NetInv.dest_of_offset (h : NetInv m n) {dgramMss : ConnId → ℕ} {pkt : Packet} {off : ℕ}
    (hoff : (n.tun dgramMss).offsetOf pkt = some off)
    (hslot : Slots.entry n.server.sessions off = some id) (hc : n.server.conns id = some c)
    (hup : c.tunnelEstablished = true) : c.face.IsDest pkt := by
  obtain ⟨hlo, hhi, c₀, hc₀, haddr⟩ := h.svr.slot off id hslot
  rw [hc] at hc₀
  obtain rfl := Option.some.inj hc₀
  have hpool : ∀ off' : UInt32,
      (if off' = 0 ∨ addrPoolMax < off'.toNat then none else some off'.toNat) = some off →
        off'.toNat = off := by
    intro off' heq
    split at heq
    · cases heq
    · exact Option.some.inj heq
  unfold TunServer.offsetOf at hoff
  dsimp only at hoff
  split at hoff
  · next hver =>
    have hnat := hpool _ hoff
    refine Or.inl ⟨hver.1, hver.2, ?_⟩
    change be32 _ = c.assignedIp
    rw [haddr, AddrPool.addr, ← hnat, UInt32.ofNat_toNat, UInt32.add_comm]
    exact (UInt32.sub_add_cancel ..).symm
  · split at hoff
    · next hver =>
      have hnat := hpool _ hoff
      have hlen : ((pkt.drop 24).take 16).length = 16 := by
        rw [length_take, length_drop]
        omega
      have hip : c.face.ip - n.server.pool.base = UInt32.ofNat off := by
        change c.assignedIp - _ = _
        rw [haddr, AddrPool.addr, UInt32.add_comm]
        exact UInt32.add_sub_cancel ..
      have haddr6 := (h.svr.pool.offset6_eq_iff ⟨_, hlen⟩ (by omega) hhi).mp hnat
      have htwin := h.twin id c hc hup hver.2.2
      rw [hip, ← haddr6] at htwin
      exact Or.inr ⟨hver.1, hver.2.1, _, htwin, rfl⟩
    · cases hoff

/-- The header of a frame is empty or that of the reorder lane, for a client that takes it. -/
theorem Framed.hdr_cases {s : TunServer} {t : TunSession} {pkt inner frame : Packet} {env : Env}
    {sid : StreamId} {sent : Sent}
    (h : Framed m sid (serverGate m s t pkt env).1 inner sent frame) :
    (serverGate m s t pkt env).1.hdr = [] ∨
      (serverGate m s t pkt env).1.hdr.length = hdrLen ∧ t.peerReorderSupported = true := by
  obtain hraw | ⟨peek, hpeek⟩ := h.passed
  · rw [hraw]
    exact Or.inl rfl
  · obtain ⟨⟨key, f, hst⟩, -⟩ := (rgateDecide_spec t.reorderTx t.peerReorderSupported s.reorderMode
      pkt env _).1 peek hpeek
    rw [hpeek, Verdict.hdr, hst.hdr]
    exact Or.inr ⟨rfl, rgateDecide_peer hpeek⟩

theorem NetInv.isolated_frame (h : NetInv m n) {dgramMss : ConnId → ℕ} {pkt frame : Packet}
    {env : Env} {off : ℕ} (hoff : (n.tun dgramMss).offsetOf pkt = some off)
    (hslot : Slots.entry n.server.sessions off = some id)
    (hframe : frame ∈ (serverOnTunPacket m (n.tun dgramMss) pkt env).2.frames) :
    Isolated m n.server.face (.sent id frame) := by
  obtain ⟨off', target, hoff', htarget, hframed⟩ := serverOnTunPacket_frames hframe
  obtain rfl : off = off' := Option.some.inj (hoff.symm.trans hoff')
  obtain ⟨c, hc, -, hup⟩ := h.svr.up_of_slot hslot
  have htun : target = c.tun (dgramMss id) := by
    rw [TunServer.target, tun_session, hslot, Option.bind_some, hc] at htarget
    exact (Option.some.inj (Option.mem_filter_iff.mp htarget).1).symm
  subst htun
  refine ⟨c.face, face_eq hc hup, _, decTtl pkt, hframed.frame_eq, Framed.hdr_cases hframed, ?_⟩
  exact Face.at_decTtl (by omega) (by omega) (h.dest_of_offset hoff hslot hc hup)

theorem generation_sent (id id' : ConnId) (log : List NetEvent) (frames : List Packet) :
    generation id' (log ++ frames.map (NetEvent.sent id)) = generation id' log := by
  rw [generation_append]
  refine foldl_eq_self _ _ fun e he acc => ?_
  obtain ⟨frame, -, rfl⟩ := mem_map.mp he
  rfl

theorem NetInv.tunPacket (h : NetInv m n) (dgramMss : ConnId → ℕ) (pkt : Packet) (env : Env) :
    NetInv m (n.onTunPacket m dgramMss pkt env) ∧
      LaneSeen m n (n.onTunPacket m dgramMss pkt env) := by
  have hbucket : ∀ bucket, NetInv m { n with bucket := bucket } ∧
      LaneSeen m n { n with bucket := bucket } :=
    fun _ => ⟨⟨h.svr, h.idle, h.twin, h.live⟩, ⟨rfl, (LaneSeen.refl m n).seen⟩⟩
  unfold Net.onTunPacket
  dsimp only
  split
  · exact hbucket _
  next off hoff =>
  split
  · exact hbucket _
  next id hslot =>
  split
  · next c t hc ht =>
    refine ⟨?_, face_setConn hc rfl rfl, _, rfl, fun e he => ?_, fun id' out hmem => ?_⟩
    · refine h.setEngines hc c.reorderRx t.reorderTx _ (h.idle id c hc) (fun hup => ?_)
        fun id' _ => generation_sent id id' ..
      obtain ⟨rx, hfresh, hrep⟩ := h.live id c hc hup
      refine ⟨rx, hfresh, ?_⟩
      rw [generation_sent]
      exact hrep
    · obtain ⟨frame, hframe, rfl⟩ := mem_map.mp he
      exact h.isolated_frame hoff hslot hframe
    · obtain ⟨frame, -, heq⟩ := mem_map.mp hmem
      cases heq
  · exact hbucket _

/-! ### Runs -/

/-- **The invariant holds along every run.** -/
theorem NetInv.step (h : NetInv m n) (op : NetOp) : NetInv m (n.step m op) := by
  cases op with
  | session op => exact h.session op
  | dgramRead id data now alloc envs => exact (h.feed (.datagram data now alloc) envs nofun).1
  | tunPacket dgramMss pkt env => exact (h.tunPacket dgramMss pkt env).1
  | tick now envs => exact (h.tick now envs).1

/-- What one call shows: every tunnel that comes up, and packets that keep clients apart under
the addresses they have before and after the call. -/
structure CallIsolated (m : Masque) (n n' : Net) (es : List NetEvent) : Prop where
  log : n'.log = n.log ++ es
  up : ∀ id, n.server.established id = false → n'.server.established id = true →
    ∃ sid, .up id sid ∈ es
  before : ∀ e ∈ es, Isolated m n.server.face e
  after : ∀ e ∈ es, Isolated m n'.server.face e
  grounded : Grounded es

theorem established_face (s : Server) (id : ConnId) :
    s.established id = (s.face id).isSome := by
  unfold Server.established Server.face
  cases s.conns id with
  | none => rfl
  | some c => cases hup : c.tunnelEstablished <;> simp [hup]

theorem LaneSeen.call {n' : Net} (h : LaneSeen m n n') : ∃ es, CallIsolated m n n' es := by
  obtain ⟨es, hlog, hiso, hground⟩ := h.seen
  refine ⟨es, hlog, fun id hdown hup => ?_, hiso, h.face ▸ hiso, hground⟩
  rw [established_face, h.face, ← established_face, hdown] at hup
  cases hup

theorem NetInv.session_call (h : NetInv m n) (op : SvrOp) :
    ∃ es, CallIsolated m n (n.step m (.session op)) es := by
  refine ⟨upEvents n.server (n.server.step op) op, rfl, fun id hdown hup => ?_,
    fun e he => (isolated_upEvents he _).1, fun e he => (isolated_upEvents he _).1,
    fun id pkt hmem => absurd rfl ((isolated_upEvents (m := m) hmem n.server.face).2 id pkt)⟩
  have hup' : (n.server.step op).established id = true := hup
  cases hc' : (n.server.step op).conns id with
  | none =>
    rw [Server.established, hc'] at hup'
    cases hup'
  | some c' =>
    have htunnel' : c'.tunnelEstablished = true := (established_eq hc').symm.trans hup'
    cases lane_step h.svr h.idle op hc' with
    | keep c hc htunnel _ _ =>
      rw [established_eq hc, ← htunnel, htunnel'] at hdown
      cases hdown
    | idle htunnel _ => exact absurd (htunnel.symm.trans htunnel') Bool.false_ne_true
    | up sid hdrs env hop _ _ _ _ _ =>
      subst hop
      exact ⟨sid, by simp [upEvents, hdown, hup']⟩

theorem NetInv.call (h : NetInv m n) (op : NetOp) : ∃ es, CallIsolated m n (n.step m op) es := by
  cases op with
  | session op => exact h.session_call op
  | dgramRead id data now alloc envs =>
    exact (h.feed (.datagram data now alloc) envs nofun).2.call
  | tunPacket dgramMss pkt env => exact (h.tunPacket dgramMss pkt env).2.call
  | tick now envs => exact (h.tick now envs).2.call

theorem NetInv.new {cfg : ServerConfig} {s : Server} (hnew : Server.new cfg = some s)
    (bucket : PtbBucket) : NetInv m (Net.new s bucket) := by
  have hsvr := SvrInv.new hnew
  obtain ⟨pool, hpool, rfl⟩ := Option.map_eq_some_iff.mp hnew
  have hnone : ∀ (id : ConnId) (c : SvrConn), (none : Option SvrConn) ≠ some c :=
    fun _ c => (Option.some_ne_none c).symm
  exact ⟨hsvr, fun id c hc => absurd hc (hnone id c), fun id c hc => absurd hc (hnone id c),
    fun id c hc => absurd hc (hnone id c)⟩

theorem NetInv.run (h : NetInv m n) (ops : List NetOp) : NetInv m (n.run m ops) :=
  Run.exec_inv (Net.step m) (fun _ op hn => hn.step op) ops n h

/-- **Clients are isolated.**  Whatever calls a new server has seen, the next one writes and
sends packets under the addresses of their connections only.  And whatever was forwarded for a
tunnel since it came up is what a fresh engine makes of the inputs since then: nothing that
came in under an earlier tunnel has a part in it. -/
theorem clients_isolated (m : Masque) {cfg : ServerConfig} {s : Server}
    (hnew : Server.new cfg = some s) (bucket : PtbBucket) (ops : List NetOp) :
    let n := (Net.new s bucket).run m ops
    (∀ op, ∃ es, CallIsolated m n (n.step m op) es) ∧
      ∀ id c, n.server.conns id = some c → c.tunnelEstablished = true →
        Replayed m n.server.reorder n.log id c := by
  intro n
  have hinv : NetInv m n := NetInv.run (NetInv.new hnew bucket) ops
  exact ⟨hinv.call, hinv.live⟩

/-- A header without a payload. -/
def innerHeader (ttl src dst : UInt8) : Packet :=
  [0x45, 0, 0, 20, 0, 0, 0, 0, ttl, 17, 0, 0, 10, 0, 0, src, 10, 0, 0, dst]

/-- A tunnel comes up; a packet of the client is forwarded, one runs out of hops, one comes
under a foreign address, and there is a packet for the client.  Then the stream is closed, another
tunnel comes up on the connection, and one packet more is forwarded. -/
def visit : List NetOp :=
  [.session (.accept true), .session (.h3ConnCreate 1 allSent.engines),
    .session (.requestCreate 1 0 true), .session (.requestRead 1 0 goodRequest allSent),
    .dgramRead 1 (Masque.standard.header 0 ++ innerHeader 64 2 1) 0 ⟨true, true, true⟩ [],
    .dgramRead 1 (Masque.standard.header 0 ++ innerHeader 1 2 1) 0 ⟨true, true, true⟩ [],
    .dgramRead 1 (Masque.standard.header 0 ++ innerHeader 64 3 1) 0 ⟨true, true, true⟩ [],
    .tunPacket (fun _ => 1400) (innerHeader 64 1 2) sampleEnv,
    .session (.requestClose 1 0), .session (.requestCreate 1 4 true),
    .session (.requestRead 1 4 goodRequest allSent),
    .dgramRead 1 (Masque.standard.header 4 ++ innerHeader 64 2 9) 0 ⟨true, true, true⟩ []]

def written (log : List NetEvent) : List (ConnId × Packet) :=
  log.filterMap fun
    | .wrote id pkt => some (id, pkt)
    | _ => none

/-- The connections that were sent something. -/
def reached (log : List NetEvent) : List ConnId :=
  log.filterMap fun
    | .sent id _ => some id
    | _ => none

theorem clients_isolated_visit : ∃ s, Server.new smallServer = some s ∧
    let n := (Net.new s ⟨10, 0⟩).run .standard visit
    n.server.face 1 = some ⟨0x0a000002, none, 4, false⟩ ∧
      written n.log = [(1, decTtl (innerHeader 64 2 1)), (1, decTtl (innerHeader 64 2 9))] ∧
      reached n.log = [1, 1] ∧ (forwards n.log).length = 4 ∧
      forwards (generation 1 n.log) = [innerHeader 64 2 9] ∧
      (∀ op, ∃ es, CallIsolated .standard n (n.step .standard op) es) ∧
      ∀ id c, n.server.conns id = some c → c.tunnelEstablished = true →
        Replayed .standard n.server.reorder n.log id c := by
  refine ⟨_, rfl, ?_⟩
  intro n
  have h := @clients_isolated .standard smallServer _ rfl ⟨10, 0⟩ visit
  exact ⟨by decide +kernel, by decide +kernel, by decide +kernel, by decide +kernel,
    by decide +kernel, h.1, h.2⟩

end Mqvpn.Svr
