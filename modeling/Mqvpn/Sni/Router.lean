import Mqvpn.Lib.Chained
import Mqvpn.Lib.Run
import Mqvpn.Sni.Hello

/-!
# The SNI router

The router stands before the QUIC engine of the server.  It looks at the client hello of every
connection and gives the datagrams of the peer to the engine, or to a fallback server if the
name in the hello is not one of its own.  While the hello is incomplete the datagrams wait in
the entry of the peer.  Entries are kept in a chained table; they expire, they are evicted when
the table is full, and they are replaced when the peer begins another connection.

Decryption of an Initial packet and the tag of a Retry packet are parameters (`Aead`).  What
the clock, the allocator, the sockets and the engine answer during a call is in its `Env`;
answers to an offer are given by the number of the datagram that is offered.

The router keeps no record of what it did; `arrived`, `offers`, `lost` and, in an entry, the
numbers of the datagrams and `heard` are such a record, and no function reads them back.  The
`id` of an entry, counted by `born`, stands for the pointer to it.

## Main definitions

* `Peer`, `InitialHeader`, `parseInitialHeader`, `parseRetryHeader` — peers and packets.
* `process`, `onFdReadable`, `cleanup` — the entry points.
* `RouterOp`, `Router.step`, `Router.run` — the router as a machine.

## Main results

* `decodePacketNumber_truncated` — **a packet number is read back** from its last bytes.
-/

namespace Mqvpn.Sni

open Coverage

/-! ### Peers -/

/-- The address of a peer; `port` is the field as it stands in memory. -/
inductive Peer where
  | v4 (addr : Vector UInt8 4) (port : UInt16)
  | v6 (addr : Vector UInt8 16) (port : UInt16)
  deriving DecidableEq

/-- `hash_bytes`. -/
def hashBytes (bytes : List UInt8) : UInt32 :=
  bytes.foldl (fun h b => (h ^^^ b.toUInt32) * 16777619) 2166136261

/-- `hash_peer`. -/
def hashPeer : Peer → UInt32
  | .v4 addr port => (hashBytes addr.toList ^^^ port.toUInt32) * 16777619
  | .v6 addr port => (hashBytes addr.toList ^^^ port.toUInt32) * 16777619

/-- A port in the order of a little-endian memory. -/
def portBytes (port : UInt16) : List UInt8 := [port.toUInt8, (port >>> 8).toUInt8]

/-! ### Packets -/

def quicV1 : ℕ := 0x00000001

def quicV2 : ℕ := 0x6b3343cf

/-- `initial_header_t`, without what only decryption reads. -/
structure InitialHeader where
  version : ℕ
  dcid : List UInt8
  scid : List UInt8
  deriving DecidableEq

/-- `retry_header_t`. -/
structure RetryHeader where
  version : ℕ
  dcid : List UInt8
  scid : List UInt8
  deriving DecidableEq

/-- A connection id behind its length, twenty bytes at most. -/
def readCid : List UInt8 → Option (List UInt8 × List UInt8)
  | [] => none
  | n :: rest =>
      if 20 < n.toNat ∨ rest.length < n.toNat then none
      else some (rest.take n.toNat, rest.drop n.toNat)

/-- The first byte, the version and the rest of a long header. -/
def readLongHeader : List UInt8 → Option (UInt8 × ℕ × List UInt8)
  | b :: v3 :: v2 :: v1 :: v0 :: rest =>
      if b &&& 0xc0 ≠ 0xc0 then none
      else
        let version := v3.toNat * 2 ^ 24 + v2.toNat * 2 ^ 16 + v1.toNat * 2 ^ 8 + v0.toNat
        if version ≠ quicV1 ∧ version ≠ quicV2 then none else some (b, version, rest)
  | _ => none

/-- The type of a long packet. -/
def packetType (b : UInt8) : ℕ := (b.toNat / 16) % 4

/-- `parse_initial_header`; `none` for every answer but 0. -/
def parseInitialHeader (pkt : List UInt8) : Option InitialHeader :=
  if pkt.length < 7 then none
  else do
    let (b, version, rest) ← readLongHeader pkt
    if (version = quicV1 ∧ packetType b ≠ 0) ∨ (version = quicV2 ∧ packetType b ≠ 1) then none
    else
      let (dcid, rest) ← readCid rest
      let (scid, rest) ← readCid rest
      let (tokenLen, rest) ← Varint.decode rest
      if rest.length < tokenLen then none
      else
        let (protectedLen, rest) ← Varint.decode (rest.drop tokenLen)
        -- the packet number and the tag take a byte and sixteen at least
        if rest.length < protectedLen ∨ protectedLen < 1 + 16 then none
        else some { version, dcid, scid }

/-- `parse_retry_header`. -/
def parseRetryHeader (pkt : List UInt8) : Option RetryHeader :=
  if pkt.length < 5 + 1 + 1 + 16 then none
  else do
    let (b, version, rest) ← readLongHeader pkt
    if (version = quicV1 ∧ packetType b ≠ 3) ∨ (version = quicV2 ∧ packetType b ≠ 0) then none
    else
      let (dcid, rest) ← readCid rest
      let (scid, rest) ← readCid rest
      if rest.length < 16 then none else some { version, dcid, scid }

/-- The cryptography the router relies on. -/
structure Aead where
  /-- Remove the protection of an Initial packet of a client, given the largest packet number
  seen: the frames and the packet number. -/
  decrypt : List UInt8 → Option ℕ → Option (List UInt8 × ℕ)
  /-- The integrity tag of a Retry packet of a version, over its pseudo packet. -/
  tag : ℕ → List UInt8 → Option (List UInt8)

/-! ### Packet numbers -/

/-- `decode_packet_number`: the number closest to the one that is expected next. -/
def decodePacketNumber (largest : UInt64) (haveLargest : Bool) (truncated pnNbits : UInt64) :
    UInt64 :=
  if !haveLargest then truncated
  else
    let maxPacketNumber := ((1 : UInt64) <<< 62) - 1
    let expected := largest + 1
    let pnWindow : UInt64 := 1 <<< pnNbits
    let pnHalfWindow := pnWindow / 2
    let pnMask := pnWindow - 1
    let candidate := (expected &&& ~~~pnMask) ||| truncated
    if candidate + pnHalfWindow ≤ expected ∧ candidate < maxPacketNumber - pnWindow then
      candidate + pnWindow
    else if expected < candidate ∧ pnHalfWindow < candidate - expected ∧ pnWindow ≤ candidate then
      candidate - pnWindow
    else candidate

/-- The low bits of a number are replaced. -/
theorem toNat_candidate {a t mask : UInt64} {k : ℕ} (hmask : mask.toNat = 2 ^ k - 1)
    (ht : t.toNat < 2 ^ k) :
    ((a &&& ~~~mask) ||| t).toNat = a.toNat / 2 ^ k * 2 ^ k + t.toNat := by
  apply Nat.eq_of_testBit_eq
  intro i
  have hlt := a.toNat_lt
  rw [Nat.mul_comm, Nat.testBit_two_pow_mul_add _ ht, UInt64.toNat_or, UInt64.toNat_and,
    Nat.testBit_or, Nat.testBit_and, UInt64.toNat_not, hmask]
  have hk : 2 ^ k ≤ 2 ^ 64 := by have := mask.toNat_lt; omega
  have hnot : UInt64.size - 1 - (2 ^ k - 1) = 2 ^ 64 - (2 ^ k - 1 + 1) := by
    have : UInt64.size = 2 ^ 64 := rfl
    omega
  have hpos := Nat.two_pow_pos k
  rw [hnot, Nat.testBit_two_pow_sub_succ (by omega), Nat.testBit_two_pow_sub_one,
    Nat.testBit_div_two_pow]
  by_cases hi : i < k
  · simp [hi]
  · have hhigh : t.toNat.testBit i = false :=
      Nat.testBit_lt_two_pow (ht.trans_le (Nat.pow_le_pow_right (by decide) (by omega)))
    have hsum : i - k + k = i := by omega
    by_cases h64 : i < 64
    · simp [hi, h64, hhigh, hsum]
    · have hzero : a.toNat.testBit i = false :=
        Nat.testBit_lt_two_pow (hlt.trans_le (Nat.pow_le_pow_right (by decide) (by omega)))
      simp [hi, hzero, hhigh, hsum]

/-- **A packet number is read back**, if it lies in the window around the number expected next. -/
theorem decodePacketNumber_truncated {largest p : UInt64} {n : ℕ} (hn : 1 ≤ n ∧ n ≤ 4)
    (hlargest : largest.toNat < 2 ^ 62 - 1) (hp : p.toNat < 2 ^ 62)
    (hlo : largest.toNat + 1 < p.toNat + 2 ^ (8 * n) / 2)
    (hhi : p.toNat ≤ largest.toNat + 1 + 2 ^ (8 * n) / 2) :
    decodePacketNumber largest true (.ofNat (Varint.ofBytes (Varint.bigEndian n p.toNat)))
      (.ofNat (8 * n)) = p := by
  generalize ht : UInt64.ofNat (Varint.ofBytes (Varint.bigEndian n p.toNat)) = t
  have hcut : t.toNat = p.toNat % 2 ^ (8 * n) := by
    rw [← ht, Varint.ofBytes_bigEndian, Nat.pow_mul]
    exact Nat.mod_eq_of_lt ((Nat.mod_le ..).trans_lt p.toNat_lt)
  have hnext : (largest + 1).toNat = largest.toNat + 1 := by
    rw [UInt64.toNat_add]
    exact Nat.mod_eq_of_lt (by show _ + 1 < _; omega)
  have hmax : ((1 : UInt64) <<< 62 - 1).toNat = 2 ^ 62 - 1 := rfl
  obtain ⟨hmask, hw⟩ : ((1 : UInt64) <<< UInt64.ofNat (8 * n) - 1).toNat = 2 ^ (8 * n) - 1 ∧
      ((1 : UInt64) <<< UInt64.ofNat (8 * n)).toNat = 2 ^ (8 * n) := by
    obtain rfl | rfl | rfl | rfl : n = 1 ∨ n = 2 ∨ n = 3 ∨ n = 4 := by omega
    all_goals exact ⟨rfl, rfl⟩
  have hcandidate := toNat_candidate (a := largest + 1) (t := t) hmask
    (hcut.trans_lt (Nat.mod_lt _ (Nat.two_pow_pos _)))
  unfold decodePacketNumber
  dsimp only
  generalize (largest + 1 &&& ~~~((1 : UInt64) <<< UInt64.ofNat (8 * n) - 1) ||| t) = c at *
  rw [← UInt64.toNat_inj, Bool.not_true, if_neg Bool.false_ne_true]
  simp only [apply_ite UInt64.toNat, UInt64.le_iff_toNat_le, UInt64.lt_iff_toNat_lt,
    UInt64.toNat_add c, UInt64.toNat_sub, UInt64.toNat_div, hcandidate, hnext, hw, hmax, hcut]
  obtain rfl | rfl | rfl | rfl : n = 1 ∨ n = 2 ∨ n = 3 ∨ n = 4 := by omega
  all_goals
    simp only [UInt64.reduceToNat]
    split_ifs with hbelow habove <;> omega

/-- A number of one byte, behind the largest number seen. -/
theorem decodePacketNumber_truncated_byte :
    decodePacketNumber 0x1fe true (.ofNat (Varint.ofBytes (Varint.bigEndian 1 0x203))) (.ofNat 8) =
      0x203 :=
  @decodePacketNumber_truncated 0x1fe 0x203 1 (by decide) (by decide) (by decide) (by decide)
    (by decide)

/-! ### Configuration -/

/-- `sni_router_config_t`. -/
structure Config where
  allowedSnis : List (List UInt8)
  fallbackAddr : Peer
  maxTrackedConns : ℕ
  connTimeoutSec : ℕ
  maxClientHelloBytes : ℕ
  maxPendingPackets : ℕ
  fallbackProxyProtocol : Bool
  deriving DecidableEq

/-- A value that is not given takes its default. -/
def orDefault (n default : ℕ) : ℕ := if n = 0 then default else n

def Config.withDefaults (cfg : Config) : Config :=
  { cfg with
    maxTrackedConns := orDefault cfg.maxTrackedConns 1024
    connTimeoutSec := orDefault cfg.connTimeoutSec 60
    maxClientHelloBytes := orDefault cfg.maxClientHelloBytes (64 * 1024)
    maxPendingPackets := orDefault cfg.maxPendingPackets 8 }

/-- The limits `sni_router_create` checks. -/
def Config.inBounds (cfg : Config) : Bool :=
  decide (cfg.maxTrackedConns ≤ 65535 ∧ cfg.connTimeoutSec ≤ 86400 ∧
    cfg.maxClientHelloBytes ≤ 1024 * 1024 ∧ cfg.maxPendingPackets ≤ 64)

def isAlnum (c : UInt8) : Bool :=
  decide ((0x61 ≤ c ∧ c ≤ 0x7a) ∨ (0x41 ≤ c ∧ c ≤ 0x5a) ∨ (0x30 ≤ c ∧ c ≤ 0x39))

/-- The loop of `valid_dns_name`: `label` is the length of the label so far, `prev` the byte
before. -/
def dnsLoop (label : ℕ) (prev : UInt8) : List UInt8 → Bool
  | [] => decide (0 < label ∧ label ≤ 63 ∧ prev ≠ 0x2d)
  | c :: name =>
      if c = 0x2e then
        if label = 0 ∨ 63 < label ∨ prev = 0x2d then false else dnsLoop 0 c name
      else if !(isAlnum c || c == 0x2d) then false
      else if label = 0 ∧ c = 0x2d then false
      else dnsLoop (label + 1) c name

/-- `valid_dns_name`. -/
def validDnsName (name : List UInt8) : Bool :=
  if name.length = 0 ∨ 253 < name.length ∨ name.getLast? = some 0x2e then false
  else dnsLoop 0 0 name

/-- `valid_sni_pattern`. -/
def validSniPattern (pattern : List UInt8) : Bool :=
  match pattern with
  | [] => false
  | 0x2a :: 0x2e :: name => validDnsName name
  | _ => !pattern.contains 0x2a && validDnsName pattern

/-- `ascii_case_equal`. -/
def asciiCaseEqual (a b : List UInt8) : Bool := a.map asciiToLower == b.map asciiToLower

/-- A pattern of `sni_router_match`: the name itself, or one more label before a suffix. -/
def patternMatches (pattern sni : List UInt8) : Bool :=
  asciiCaseEqual pattern sni ||
    match pattern with
    | 0x2a :: 0x2e :: rest =>
        let suffix := 0x2e :: rest
        let prefixLen := sni.length - suffix.length
        decide (0 < prefixLen) && !(sni.take prefixLen).contains 0x2e &&
          asciiCaseEqual (sni.drop prefixLen) suffix
    | _ => false

/-! ### Entries -/

/-- `SNI_ROUTE_ACCEPT`, `SNI_ROUTE_FALLBACK`, `SNI_ROUTE_PENDING` and `SNI_ROUTE_ERROR`. -/
inductive RouteResult where
  | accept
  | fallback
  | pending
  | error
  deriving DecidableEq

inductive Decision where
  | pending
  | accept
  | fallback
  deriving DecidableEq

/-- Who is offered a datagram. -/
inductive Side where
  | accept
  | fallback
  deriving DecidableEq

def Side.decision : Side → Decision
  | .accept => .accept
  | .fallback => .fallback

/-- A datagram of a client, and which of all that arrived it is. -/
structure Packet where
  num : ℕ
  bytes : List UInt8
  deriving DecidableEq

/-- `sni_connection_state_t`. -/
structure Conn where
  peer : Peer
  initialDcid : List UInt8
  initialScid : List UInt8
  version : ℕ
  /-- `server_scid`, if `have_server_scid`. -/
  serverScid : Option (List UInt8) := none
  /-- `largest_initial_pn`, if `have_largest_initial_pn`. -/
  largestInitialPn : Option ℕ := none
  lastSeen : ℕ
  decision : Decision := .pending
  crypto : Crypto := {}
  pending : List Packet := []
  fallbackProxySent : Bool := false
  fallbackFd : Option ℕ := none
  /-- Which of the entries made so far this is. -/
  id : ℕ
  /-- What the fallback server sent, in its order. -/
  heard : List (List UInt8) := []
  deriving DecidableEq

/-- A datagram was offered: to whom, through which entry, and what was written to the socket
of the fallback. -/
structure Offer where
  num : ℕ
  peer : Peer
  bytes : List UInt8
  entry : Option ℕ
  side : Side
  wire : Option (List UInt8) := none
  deriving DecidableEq

/-- `sni_router_t`. -/
structure Router where
  cfg : Config
  buckets : List (List Conn)
  connCount : ℕ
  /-- The datagrams processed so far. -/
  arrived : List (Peer × List UInt8) := []
  offers : List Offer := []
  /-- The datagrams whose entry could not be allocated. -/
  lost : List ℕ := []
  /-- How many entries were made. -/
  born : ℕ := 0

/-- What the fallback socket answers to a datagram: the socket, if one has to be opened, and
whether the message was sent. -/
structure FallbackAnswer where
  opened : Option ℕ
  sent : Bool
  deriving DecidableEq

/-- The answers to a call. -/
structure Env where
  now : ℕ
  entryOk : Bool := true
  /-- The copy of the datagram could be allocated. -/
  parkOk : Bool := true
  /-- The buffer for the frames could be allocated. -/
  plainOk : Bool := true
  heap : Heap := []
  /-- What `accept_packet` answers to a datagram. -/
  acceptOk : ℕ → Bool := fun _ => true
  fallback : ℕ → FallbackAnswer := fun _ => ⟨none, true⟩

def Router.conns (r : Router) : List Conn := Chained.entries r.buckets

def Config.bucketOf (cfg : Config) (peer : Peer) : ℕ := (hashPeer peer).toNat % cfg.maxTrackedConns

/-- `connection_lookup`. -/
def Router.lookup (r : Router) (peer : Peer) : Option Conn :=
  Chained.lookup Conn.peer (r.cfg.bucketOf peer) peer r.buckets

/-- Write an entry back. -/
def Router.setConn (r : Router) (c : Conn) : Router :=
  { r with buckets := Chained.assign Conn.peer c r.buckets }

/-- `connection_remove`. -/
def Router.removeConn (r : Router) (c : Conn) : Router :=
  { r with buckets := Chained.erase Conn.peer c.peer r.buckets, connCount := r.connCount - 1 }

def Router.log (r : Router) (offers : List Offer) : Router :=
  { r with offers := r.offers ++ offers }

/-! ### Offering a datagram -/

def pp2Signature : List UInt8 :=
  [0x0d, 0x0a, 0x0d, 0x0a, 0x00, 0x0d, 0x0a, 0x51, 0x55, 0x49, 0x54, 0x0a]

/-- The header of the proxy protocol; there is none between the families. -/
def proxyHeader : Peer → Peer → Option (List UInt8)
  | .v4 src srcPort, .v4 dst dstPort =>
      some (pp2Signature ++ [0x21, 0x12, 0, 12] ++ src.toList ++ dst.toList ++
        portBytes srcPort ++ portBytes dstPort)
  | .v6 src srcPort, .v6 dst dstPort =>
      some (pp2Signature ++ [0x21, 0x22, 0, 36] ++ src.toList ++ dst.toList ++
        portBytes srcPort ++ portBytes dstPort)
  | _, _ => none

/-- What an offer leaves behind. -/
structure Offered where
  conn : Conn
  offers : List Offer
  ok : Bool
  deriving DecidableEq

/-- The part of `fallback_send` behind `fallback_open`. -/
def fallbackWrite (cfg : Config) (c : Conn) (p : Packet) (sent : Bool) : Offered :=
  let offer (wire : Option (List UInt8)) : Offer :=
    { num := p.num, peer := c.peer, bytes := p.bytes, entry := some c.id, side := .fallback, wire }
  if cfg.fallbackProxyProtocol && !c.fallbackProxySent then
    match proxyHeader c.peer cfg.fallbackAddr with
    | none => ⟨c, [offer none], false⟩
    | some header =>
        ⟨{ c with fallbackProxySent := sent }, [offer (some (header ++ p.bytes))], sent⟩
  else ⟨c, [offer (some p.bytes)], sent⟩

/-- `fallback_send`. -/
def fallbackSend (cfg : Config) (c : Conn) (p : Packet) (a : FallbackAnswer) : Offered :=
  match c.fallbackFd with
  | some _ => fallbackWrite cfg c p a.sent
  | none =>
      match a.opened with
      | none =>
          ⟨c, [{ num := p.num, peer := c.peer, bytes := p.bytes, entry := some c.id
                 side := .fallback }], false⟩
      | some fd => fallbackWrite cfg { c with fallbackFd := some fd } p a.sent

/-- Offer a datagram through an entry. -/
def offerOne (cfg : Config) (env : Env) (c : Conn) (p : Packet) : Offered :=
  if c.decision = .accept then
    ⟨c, [{ num := p.num, peer := c.peer, bytes := p.bytes, entry := some c.id, side := .accept }],
      env.acceptOk p.num⟩
  else fallbackSend cfg c p (env.fallback p.num)

/-- The loop of `deliver_pending`. -/
def offerAll (cfg : Config) (env : Env) : Conn → List Packet → Offered
  | c, [] => ⟨c, [], true⟩
  | c, p :: ps =>
      let o := offerOne cfg env c p
      let rest := offerAll cfg env o.conn ps
      ⟨rest.conn, o.offers ++ rest.offers, o.ok && rest.ok⟩

/-- `deliver_pending`.  The count of bytes without a gap stays. -/
def deliverPending (cfg : Config) (env : Env) (c : Conn) : Offered :=
  let o := offerAll cfg env c c.pending
  { o with conn := { o.conn with
      pending := [], crypto := { contiguous := o.conn.crypto.contiguous } } }

/-- An entry that goes, gives its datagrams to the engine if it is not decided. -/
def lastOffers (cfg : Config) (env : Env) (c : Conn) : List Offer :=
  if c.decision = .pending then (deliverPending cfg env { c with decision := .accept }).offers
  else []

/-- Take an entry out of the table. -/
def Router.retire (r : Router) (env : Env) (c : Conn) : Router :=
  (r.log (lastOffers r.cfg env c)).removeConn c

/-- The first of the entries that were not seen for the longest time. -/
def oldest : List Conn → Option Conn
  | [] => none
  | c :: cs =>
      match oldest cs with
      | none => some c
      | some d => if d.lastSeen < c.lastSeen then some d else some c

/-- `evict_oldest`. -/
def Router.evictOldest (r : Router) (env : Env) : Router :=
  match oldest r.conns with
  | none => r
  | some c => r.retire env c

/-- The entry `connection_create` makes. -/
def newConn (r : Router) (peer : Peer) (h : InitialHeader) (now : ℕ) : Conn :=
  { peer, initialDcid := h.dcid, initialScid := h.scid, version := h.version, lastSeen := now
    id := r.born }

/-- `connection_create`, as far as making room. -/
def Router.makeRoom (r : Router) (env : Env) : Router :=
  if r.cfg.maxTrackedConns ≤ r.connCount then r.evictOldest env else r

/-- `connection_create`, the rest. -/
def Router.insert (r : Router) (c : Conn) : Router :=
  { r with
    buckets := Chained.insertHead (r.cfg.bucketOf c.peer) c r.buckets
    connCount := r.connCount + 1
    born := r.born + 1 }

/-! ### Client datagrams -/

/-- The outcome of a call. -/
structure Processed where
  router : Router
  result : RouteResult

/-- `accept_packet` for a datagram without an entry. -/
def Router.acceptDirect (r : Router) (env : Env) (peer : Peer) (p : Packet) : Processed :=
  ⟨r.log [{ num := p.num, peer, bytes := p.bytes, entry := none, side := .accept }],
    if env.acceptOk p.num then .accept else .error⟩

/-- A datagram for an entry that is decided. -/
def Router.forward (r : Router) (env : Env) (c : Conn) (p : Packet) : Processed :=
  let o := offerOne r.cfg env { c with lastSeen := env.now } p
  ⟨(r.log o.offers).setConn o.conn,
    if o.ok then (if c.decision = .accept then .accept else .fallback) else .error⟩

/-- `accept_pending_and_current`; `current` is the datagram in hand if it is not pending. -/
def Router.acceptPendingAndCurrent (r : Router) (env : Env) (c : Conn) (current : Option Packet) :
    Processed :=
  let o := deliverPending r.cfg env { c with decision := .accept }
  match current with
  | none => ⟨(r.log o.offers).setConn o.conn, if o.ok then .accept else .error⟩
  | some p =>
      let o' := offerOne r.cfg env o.conn p
      ⟨(r.log (o.offers ++ o'.offers)).setConn o'.conn,
        if o.ok && o'.ok then .accept else .error⟩

/-- The size of the buffer for the name. -/
def sniCap : ℕ := 256

/-- What is decided once the hello is complete. -/
def decisionOf (cfg : Config) : HelloStatus → Decision
  | .incomplete => .pending
  | .bad => .fallback
  | .name sni => if cfg.allowedSnis.any (patternMatches · sni) then .accept else .fallback

/-- The part of `sni_router_process` behind the frames: the verdict. -/
def Router.verdict (r : Router) (env : Env) (c : Conn) : Processed :=
  match decisionOf r.cfg (clientHelloStatus c.crypto sniCap) with
  | .pending => ⟨r.setConn c, .pending⟩
  | d =>
      let o := deliverPending r.cfg env { c with decision := d }
      ⟨(r.log o.offers).setConn o.conn,
        if o.ok then (if d = .accept then .accept else .fallback) else .error⟩

/-- The entry after a packet with the number `pn`. -/
def Conn.seePn (c : Conn) (pn : ℕ) : Conn :=
  match c.largestInitialPn with
  | none => { c with largestInitialPn := some pn }
  | some largest => if largest < pn then { c with largestInitialPn := some pn } else c

/-- The part of `sni_router_process` behind the entry: the datagram is an Initial packet of an
entry that is not decided. -/
def Router.park (A : Aead) (r : Router) (env : Env) (c : Conn) (p : Packet) : Processed :=
  let c := { c with lastSeen := env.now }
  if r.cfg.maxPendingPackets ≤ c.pending.length ∨ env.parkOk = false then
    r.acceptPendingAndCurrent env c (some p)
  else
    let c := { c with pending := c.pending ++ [p] }
    if !env.plainOk then r.acceptPendingAndCurrent env c none
    else
      match A.decrypt p.bytes c.largestInitialPn with
      | none => r.acceptPendingAndCurrent env c none
      | some (plaintext, pn) =>
          let m := collectCryptoFrames r.cfg.maxClientHelloBytes c.crypto env.heap plaintext
          let c := { c with crypto := m.crypto }
          if !m.ok then r.acceptPendingAndCurrent env c none
          else r.verdict env (c.seePn pn)

/-- `connection_matches_server_scid`. -/
def Conn.matchesServerScid (c : Conn) (h : InitialHeader) : Bool :=
  decide (c.decision = .fallback ∧ c.version = h.version ∧ c.serverScid = some h.dcid)

/-- The Initial packet belongs to the connection of the entry. -/
def Conn.owns (c : Conn) (h : InitialHeader) : Bool :=
  c.matchesServerScid h || decide (c.initialDcid = h.dcid)

/-- The part of `sni_router_process` for a peer with an entry that is kept. -/
def Router.processKnown (A : Aead) (r : Router) (env : Env) (c : Conn) (p : Packet) : Processed :=
  if c.decision ≠ .pending then r.forward env c p
  else
    match parseInitialHeader p.bytes with
    | none => r.acceptPendingAndCurrent env c (some p)
    | some _ => r.park A env c p

/-- The part of `sni_router_process` for a peer without an entry. -/
def Router.processNew (A : Aead) (r : Router) (env : Env) (peer : Peer) (p : Packet) : Processed :=
  match parseInitialHeader p.bytes with
  | none => r.acceptDirect env peer p
  | some h =>
      let r := r.makeRoom env
      if !env.entryOk then ⟨{ r with lost := r.lost ++ [p.num] }, .error⟩
      else
        let c := newConn r peer h env.now
        (r.insert c).park A env c p

/-- `sni_router_process`. -/
def Router.process (A : Aead) (r : Router) (env : Env) (peer : Peer) (bytes : List UInt8) :
    Processed :=
  if bytes = [] then ⟨r, .error⟩
  else
    let p : Packet := ⟨r.arrived.length, bytes⟩
    let r := { r with arrived := r.arrived ++ [(peer, bytes)] }
    match r.lookup peer with
    | none => r.processNew A env peer p
    | some c =>
        match parseInitialHeader bytes with
        | none => r.processKnown A env c p
        | some h =>
            if c.owns h then r.processKnown A env c p
            else (r.retire env c).processNew A env peer p

/-! ### The other entry points -/

/-- `validate_retry`. -/
def Conn.validateRetry (A : Aead) (c : Conn) (pkt : List UInt8) : Option RetryHeader :=
  match parseRetryHeader pkt with
  | none => none
  | some retry =>
      if retry.version ≠ c.version ∨ retry.dcid ≠ c.initialScid then none
      else
        let body := pkt.take (pkt.length - 16)
        let pseudo := UInt8.ofNat c.initialDcid.length :: (c.initialDcid ++ body)
        if A.tag retry.version pseudo = some (pkt.drop (pkt.length - 16)) then some retry else none

/-- The source id of an Initial packet that answers the client of the entry. -/
def Conn.initialScidOf (c : Conn) (pkt : List UInt8) : Option (List UInt8) :=
  match parseInitialHeader pkt with
  | none => none
  | some h => if h.version = c.version ∧ h.dcid = c.initialScid then some h.scid else none

/-- The source id of a Retry packet that is validated. -/
def Conn.retryScidOf (A : Aead) (c : Conn) (pkt : List UInt8) : Option (List UInt8) :=
  (c.validateRetry A pkt).map RetryHeader.scid

/-- What the entry learns from a packet of the fallback server. -/
def Conn.learn (A : Aead) (c : Conn) (pkt : List UInt8) : Conn :=
  let c :=
    if c.decision = .fallback ∧ c.serverScid = none then
      { c with serverScid := c.initialScidOf pkt }
    else c
  if c.decision = .fallback ∧ c.serverScid = none then
    { c with serverScid := c.retryScidOf A pkt }
  else c

/-- A packet of the fallback server was read. -/
def Conn.hear (A : Aead) (now : ℕ) (c : Conn) (pkt : List UInt8) : Conn :=
  let c := { c with lastSeen := now }.learn A pkt
  { c with heard := c.heard ++ [pkt] }

/-- The source ids the fallback server supplied to the client of the entry, in their order: in
Initial packets of the version of the connection, and in validated Retry packets. -/
def Conn.supplied (A : Aead) (c : Conn) : List (List UInt8) :=
  c.heard.filterMap fun pkt => (c.initialScidOf pkt).or (c.retryScidOf A pkt)

/-- An answer of `recv` on the socket of the fallback; for a packet, also what `send_client`
answers. -/
inductive Recv where
  | data (pkt : List UInt8) (forwarded : Bool)
  | again
  | err
  deriving DecidableEq

/-- The loop of `sni_router_on_fd_readable`: the entry, or `none` if it is to be removed. -/
def readLoop (A : Aead) (now : ℕ) : Conn → List Recv → Option Conn
  | c, [] => some c
  | _, .err :: _ => none
  | c, .again :: _ => some c
  | c, .data pkt forwarded :: recvs =>
      if pkt = [] then some c
      else if forwarded then readLoop A now (c.hear A now pkt) recvs
      else some (c.hear A now pkt)

/-- `sni_router_on_fd_readable`; `id` stands for the pointer to the entry. -/
def Router.onFdReadable (A : Aead) (r : Router) (now id fd : ℕ) (recvs : List Recv) : Router :=
  -- `sni_router_owns_fd`
  match r.conns.find? fun c => decide (c.id = id) with
  | none => r
  | some c =>
      if c.fallbackFd ≠ some fd then r
      else
        match readLoop A now c recvs with
        | none => r.removeConn c
        | some c' => r.setConn c'

/-- The body of the sweep of `sni_router_cleanup`. -/
def cleanupStep (cfg : Config) (env : Env) (cutoff : ℕ) (s : List Offer × ℕ) (c : Conn) :
    (List Offer × ℕ) × Option Conn :=
  if c.lastSeen < cutoff then ((s.1 ++ lastOffers cfg env c, s.2 - 1), none) else (s, some c)

/-- `sni_router_cleanup`. -/
def Router.cleanup (r : Router) (env : Env) : Router :=
  let cutoff := if r.cfg.connTimeoutSec < env.now then env.now - r.cfg.connTimeoutSec else 0
  let s := Chained.sweepAll (cleanupStep r.cfg env cutoff) (r.offers, r.connCount) r.buckets
  { r with offers := s.1.1, connCount := s.1.2, buckets := s.2 }

/-! ### The machine -/

inductive RouterOp where
  | process (peer : Peer) (bytes : List UInt8) (env : Env)
  | readable (now id fd : ℕ) (recvs : List Recv)
  | cleanup (env : Env)

def Router.step (A : Aead) (r : Router) : RouterOp → Router
  | .process peer bytes env => (r.process A env peer bytes).router
  | .readable now id fd recvs => r.onFdReadable A now id fd recvs
  | .cleanup env => r.cleanup env

/-- `sni_router_create`. -/
def Router.create (cfg : Config) : Option Router :=
  let cfg := cfg.withDefaults
  if cfg.allowedSnis = [] ∨ cfg.inBounds = false then none
  else if cfg.allowedSnis.any fun pattern => !validSniPattern pattern then none
  else
    some
      { cfg := { cfg with allowedSnis := cfg.allowedSnis.map (·.map asciiToLower) }
        buckets := List.replicate cfg.maxTrackedConns []
        connCount := 0 }

/-- A router after a sequence of operations. -/
def Router.run (A : Aead) (r : Router) (ops : List RouterOp) : Router :=
  Run.exec (Router.step A) r ops

end Mqvpn.Sni
