import Mqvpn.Sni.Delivery

/-!
# Connections of the fallback stay there

Once a connection is decided for the fallback, later Initial packets of the client have to reach
the fallback too.  The client changes their destination id to the one the server supplied, so the
router has to learn that id from what the server sends back.  It learns one id per entry: the
first that the server supplies, in a validated Retry or in an Initial packet (`Conn.Learned`).
A server that sends a Retry supplies another id in the Initial packet behind it; the client then
turns to that one, and the router takes its packets for a new connection.

## Main results

* `fallback_sticky` — packets to the first id the server supplied reach the fallback.
* `retry_then_initial` — a Retry and an Initial with another id: the next packet of the client is
  handed to the engine.
-/

namespace Mqvpn.Sni

open List

variable {A : Aead} {conf : Config} {peer : Peer} {r : Router} {c : Conn}

/-- A datagram of a decided entry is offered through it, and the entry stays. -/
theorem process_owned (h : Books A conf peer [] r) (hc : c ∈ r.conns)
    (hd : c.decision = .fallback) (env : Env) {bytes : List UInt8} {hdr : InitialHeader}
    (hparse : parseInitialHeader bytes = some hdr) (howns : c.owns hdr = true) :
    (∃ o ∈ (r.process A env c.peer bytes).router.offers,
      o.num = r.arrived.length ∧ o.entry = some c.id ∧ o.side = .fallback) ∧
    ∃ fd sent, { c with lastSeen := env.now, fallbackFd := fd, fallbackProxySent := sent } ∈
      (r.process A env c.peer bytes).router.conns := by
  have hne : bytes ≠ [] := by
    rintro rfl
    cases hparse
  have hpending : c.decision ≠ .pending := by rw [hd]; exact fun h => by cases h
  set s : Router := { r with arrived := r.arrived ++ [(c.peer, bytes)] } with hs
  have hlookup : s.lookup c.peer = some c := (Chained.lookup_eq_some h.wf).mpr ⟨hc, rfl⟩
  have hprocess : r.process A env c.peer bytes = s.forward env c ⟨r.arrived.length, bytes⟩ := by
    unfold Router.process
    rw [if_neg hne]
    dsimp only
    rw [hlookup, hparse]
    dsimp only
    rw [if_pos howns, Router.processKnown, if_pos hpending]
  have hspec := offerOne_spec s.cfg env (c := { c with lastSeen := env.now })
    ⟨r.arrived.length, bytes⟩ hpending
  rw [hprocess]
  obtain ⟨fd, sent, hconn⟩ := hspec.conn
  refine ⟨?_, fd, sent, ?stays⟩
  case stays =>
    have hpeer := congrArg Conn.peer hconn
    rw [← hconn]
    exact (Chained.perm_assign h.wf hc hpeer).mem_iff.mpr mem_cons_self
  -- the offer that is made is the only one, and it is made through the entry
  cases hoffers : (offerOne s.cfg env { c with lastSeen := env.now }
      ⟨r.arrived.length, bytes⟩).offers with
  | nil =>
    have := hspec.packets
    rw [hoffers] at this
    cases this
  | cons o os =>
    have hpackets := hspec.packets
    have hthrough := hspec.through o (by rw [hoffers]; exact mem_cons_self ..)
    rw [hoffers, map_cons] at hpackets
    have hpacket : o.packet = ⟨r.arrived.length, bytes⟩ := (cons.inj hpackets).1
    refine ⟨o, ?_, congrArg Packet.num hpacket, hthrough.2.1, ?_⟩
    · show o ∈ s.offers ++ _
      rw [hoffers]
      exact mem_append_right _ (mem_cons_self ..)
    · apply Side.decision_injective
      rw [hthrough.2.2]
      exact hd

/-- **Packets to the first id the server supplied reach the fallback.**  After any operations, let
an entry be decided for the fallback, and let its client send an Initial packet of the same
version to the first id the fallback server supplied, or one to its own first id.  The packet is
offered to the fallback and not to the engine, and the entry stays. -/
theorem fallback_sticky {cfg : Config} (hr : Router.create cfg = some r) (ops : List RouterOp)
    (hc : c ∈ (r.run A ops).conns) (hd : c.decision = .fallback) (env : Env)
    {bytes : List UInt8} {hdr : InitialHeader} (hparse : parseInitialHeader bytes = some hdr)
    (hid : hdr.version = c.version ∧ (c.supplied A).head? = some hdr.dcid ∨
      hdr.dcid = c.initialDcid) :
    let n := (r.run A ops).arrived.length
    let s := ((r.run A ops).process A env c.peer bytes).router
    (∃ o ∈ s.offers, o.num = n ∧ o.entry = some c.id ∧ o.side = .fallback) ∧
      (∀ o ∈ s.offers, o.num = n → o.side = .fallback) ∧
      ∃ fd sent, { c with lastSeen := env.now, fallbackFd := fd, fallbackProxySent := sent } ∈
        s.conns := by
  intro n s
  have h : Books A r.cfg c.peer [] (r.run A ops) :=
    Run.exec_inv (Router.step A) (fun _ op h => h.step op) ops r (Books.create hr c.peer)
  have howns : c.owns hdr = true := by
    obtain ⟨hversion, hfirst⟩ | hsame := hid
    · have hlearned : c.serverScid = some hdr.dcid := (h.learned c hc).trans hfirst
      simp [Conn.owns, Conn.matchesServerScid, hd, hversion, hlearned]
    · simp [Conn.owns, hsame]
  obtain ⟨⟨o, ho, hnum, hentry, hside⟩, hstays⟩ := process_owned h hc hd env hparse howns
  refine ⟨⟨o, ho, hnum, hentry, hside⟩, fun o' ho' hnum' => ?_, hstays⟩
  -- the datagram is offered once
  have hs : Books A r.cfg c.peer [] s := h.process env c.peer bytes
  have hnodup := hs.places.nodup_iff.mpr nodup_range
  have hnums : (s.offers.map Offer.num).Nodup :=
    ((hnodup.of_append_left).of_append_left).of_append_left
  rw [inj_on_of_nodup_map hnums ho' ho (hnum'.trans hnum.symm), hside]

/-! ### A Retry, and an Initial packet with another id -/

/-- The name of the hello is not the one that is allowed. -/
def otherConfig : Config :=
  { tinyConfig with allowedSnis := [[0x63]], fallbackProxyProtocol := false }

def otherRouter : Router := { cfg := otherConfig.withDefaults, buckets := [[]], connCount := 0 }

/-- The keys of a packet follow from the destination id of the first packet of the client, 3;
packets the client sends later to another id do not open with keys from that id. -/
def otherAead : Aead where
  decrypt bytes _ :=
    if bytes.getD 6 0 = 3 then some ([6, 0, 56] ++ tinyHello, 0) else none
  tag _ _ := some (List.replicate 16 0)

/-- A Retry of the server to the client, whose id is 7, with the source id `scid`. -/
def tinyRetry (scid : UInt8) : List UInt8 :=
  [0xf0, 0, 0, 0, 1, 1, 7, 1, scid] ++ List.replicate 16 0

/-- An Initial packet of the server to the client with the source id `scid`. -/
def serverInitial (scid : UInt8) : List UInt8 :=
  [0xc0, 0, 0, 0, 1, 1, 7, 1, scid, 0, 17] ++ List.replicate 17 0

/-- The hello of the client, then what the fallback server sends back. -/
def answeredBy (packets : List (List UInt8)) : List RouterOp :=
  [ .process (tinyPeer 1) (tinyInitial 3 0) { now := 1, fallback := fun _ => ⟨some 8, true⟩ },
    .readable 2 0 8 (packets.map fun pkt => .data pkt true) ]

/-- The entry after an answer. -/
def answered (packets : List (List UInt8)) : Conn :=
  { peer := tinyPeer 1, initialDcid := [3], initialScid := [7], version := 1
    serverScid := some [10], largestInitialPn := some 0, lastSeen := 2, decision := .fallback
    crypto := { contiguous := 56 }, fallbackFd := some 8, id := 0, heard := packets }

theorem fallback_sticky_retry :
    answered [tinyRetry 10] ∈ (otherRouter.run otherAead (answeredBy [tinyRetry 10])).conns ∧
    ∀ o ∈ ((otherRouter.run otherAead (answeredBy [tinyRetry 10])).process otherAead { now := 3 }
      (tinyPeer 1) (tinyInitial 10 0)).router.offers, o.num = 1 → o.side = .fallback := by
  have hmem : answered [tinyRetry 10] ∈
      (otherRouter.run otherAead (answeredBy [tinyRetry 10])).conns := by decide +kernel
  refine ⟨hmem, ?_⟩
  exact (@fallback_sticky otherAead otherRouter _ otherConfig rfl _ hmem rfl { now := 3 }
    (tinyInitial 10 0) ⟨1, [10], [7]⟩ (by decide) (.inl ⟨rfl, by decide⟩)).2.1

/-- **A Retry and an Initial packet with another id**: the fallback server validly supplied 10 and
then 11, and the packet of the client to 11 is handed to the engine. -/
theorem retry_then_initial :
    ((otherRouter.run otherAead (answeredBy [tinyRetry 10, serverInitial 11])).conns.map
      fun c => (c.decision, c.supplied otherAead)) = [(.fallback, [[10], [11]])] ∧
    parseInitialHeader (tinyInitial 11 0) = some ⟨1, [11], [7]⟩ ∧
    (((otherRouter.run otherAead (answeredBy [tinyRetry 10, serverInitial 11])).process otherAead
      { now := 3 } (tinyPeer 1) (tinyInitial 11 0)).router.offers.map
        fun o => (o.num, o.side)) = [(0, .fallback), (1, .accept)] := by
  decide +kernel

end Mqvpn.Sni
