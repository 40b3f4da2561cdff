import Mqvpn.Reorder.Rx
import Mqvpn.Reorder.Tx
import Mqvpn.Server.AddrPool

/-!
# Inner packets as datagrams

A packet read from the TUN device crosses the tunnel as one HTTP datagram: the header of
xquic's MASQUE extension, the reorder header if the gate says so, then the packet.  Both
ends have the same gate, the same framing and the same dispatch on the first byte of a
payload; they differ in how they find the tunnel of a packet and in that the server
decrements the TTL in the frame.

What the code reads of its surroundings is in `Env`: the clocks, the allocations, whether
the TCP lane took the packet, and what xquic answered to each send.  A frame counts as
sent if xquic accepted it.

## Main definitions

* `Masque` — the framing of xquic, with the assumption that unframing inverts it.
* `rgateDecide` — the gate.
* `buildFrame`, `decTtl` — the frame of a packet, and the decrement in it.
* `clientOnTunPacket`, `serverOnTunPacket` — the tunnel entry points.
* `clientDgramRead`, `serverDgramRead` — the receivers, up to the call they make.
-/

namespace Mqvpn.Endpoint

open Reorder Svr

/-! ### The framing of xquic -/

/-- QUIC stream ids have 62 bits. -/
abbrev StreamId := Fin (2 ^ 62)

instance streamId_neZero : NeZero (2 ^ 62) := ⟨by decide⟩

/-- HTTP datagrams as xquic frames them: `header` is what `xqc_h3_ext_masque_frame_udp`
writes in front of an empty payload, `unframe` yields the quarter stream id, the context id
and the payload, and `udpMss` is the room that is left for the payload. -/
structure Masque where
  header : StreamId → Packet
  unframe : Packet → Option (ℕ × ℕ × Packet)
  udpMss : ℕ → StreamId → ℕ
  unframe_header : ∀ sid payload, unframe (header sid ++ payload) = some (sid.val / 4, 0, payload)

/-- The framing of RFC 9297 with context id 0. -/
def Masque.standard : Masque where
  header sid := Varint.encode (sid.val / 4) ++ Varint.encode 0
  unframe data := do
    let (qsid, rest) ← Varint.decode data
    let (ctxId, payload) ← Varint.decode rest
    return (qsid, ctxId, payload)
  udpMss mss sid := mss - ((Varint.encode (sid.val / 4)).length + 1)
  unframe_header sid payload := by
    have hsid : sid.val / 4 < 2 ^ 62 := by omega
    rw [List.append_assoc, Varint.decode_encode hsid]
    simp only [Option.bind_eq_bind, Option.bind_some]
    rw [Varint.decode_encode (by decide)]
    rfl

/-! ### The rate limit of packet-too-big messages -/

/-- `MQVPN_PTB_RATE_LIMIT`. -/
def ptbRateLimit : ℤ := 10

/-- `mqvpn_ptb_bucket_t`. -/
structure PtbBucket where
  tokens : ℤ
  refillMs : ℤ
  deriving DecidableEq

/-- Take a token, after refilling the bucket if its second is over. -/
def PtbBucket.allow (b : PtbBucket) (nowMs : ℤ) : Bool × PtbBucket :=
  let b := if 1000 ≤ nowMs - b.refillMs then { tokens := ptbRateLimit, refillMs := nowMs } else b
  if 0 < b.tokens then (true, { b with tokens := b.tokens - 1 }) else (false, b)

/-- An ICMP message to the TUN device about the packet. -/
structure Icmp where
  ipVer : UInt8
  type : ℕ
  code : ℕ
  mtu : ℕ
  deriving DecidableEq

/-- A message under the rate limit; without a usable source address no token is taken. -/
def limited (b : PtbBucket) (nowMs : ℤ) (addrOk : Bool) (msg : Icmp) : Option Icmp × PtbBucket :=
  if !addrOk then (none, b)
  else
    match b.allow nowMs with
    | (true, b) => (some msg, b)
    | (false, b) => (none, b)

/-- The packet-too-big message of a version; the IPv4 field has 16 bits. -/
def tooBigMsg (ipVer : UInt8) (mtu : ℕ) : Icmp :=
  if ipVer = 4 then
    { ipVer := 4, type := 3, code := 4, mtu := if 0xFFFF < mtu then 0xFFFF else mtu }
  else { ipVer := ipVer, type := 2, code := 0, mtu := mtu }

/-- `mqvpn_rgate_send_ptb`. -/
def rgateSendPtb (b : PtbBucket) (nowMs : ℤ) (ipVer : UInt8) (addrOk : Bool) (mtu : ℕ) :
    Option Icmp × PtbBucket :=
  limited b nowMs addrOk (tooBigMsg ipVer mtu)

/-! ### The gate -/

/-- `mqvpn_rgate_verdict_t`, with what the gate writes besides it. -/
inductive Verdict where
  | stamp (peek : Peek)
  | raw
  | dropReorderMtu (mtu : ℕ)
  | dropRawMtu (mtu : ℕ)
  deriving DecidableEq

/-- The check on a packet that is not stamped; a limit of `0` is one that is not known. -/
def rawVerdict (pkt : Packet) (udpMss : UInt32) : Verdict :=
  if 0 < udpMss ∧ udpMss.toNat < pkt.length then .dropRawMtu udpMss.toNat else .raw

/-- Stamp, leave or drop a packet.  The sender is passed through the peek. -/
def rgateDecide (reorderTx : Option Tx) (peerReorderSupported : Bool) (reorderMode : Mode)
    (pkt : Packet) (now : UInt64) (udpMss : UInt32) (alloc : Bool) : Verdict × Option Tx :=
  match reorderTx with
  | none => (rawVerdict pkt udpMss, none)
  | some tx =>
      if peerReorderSupported ∧ reorderMode ≠ .off ∧ 0 < udpMss then
        let r := txPeek tx pkt now udpMss.toNat alloc
        match r.1.action with
        | .stamp => (.stamp r.1, some r.2)
        | .dropMtu =>
            (.dropReorderMtu (if hdrLen < udpMss.toNat then udpMss.toNat - hdrLen else 0), some r.2)
        | .raw => (rawVerdict pkt udpMss, some r.2)
      else (rawVerdict pkt udpMss, some tx)

/-! ### Frames -/

/-- The return codes of the tunnel entry points. -/
inductive Code where
  | ok
  | invalidArg
  | noMemory
  | engine
  | again
  deriving DecidableEq

/-- `PACKET_BUF_SIZE`. -/
def packetBufSize : ℕ := 65536

/-- `MASQUE_FRAME_BUF`. -/
def masqueFrameBuf : ℕ := packetBufSize + 16

/-- `MQVPN_DGRAM_STACK_BUF`. -/
def dgramStackBuf : ℕ := 2048

/-- `MQVPN_MASQUE_HDR_MAX`. -/
def masqueHdrMax : ℕ := 9

/-- The header of a peek, for a packet that is stamped. -/
def Verdict.hdr : Verdict → Packet
  | .stamp peek => peek.hdr
  | _ => []

/-- The room a frame may need. -/
def dgramFrameCap (len : ℕ) (reorderHdr : Packet) : ℕ := masqueHdrMax + reorderHdr.length + len

/-- Frame a packet into a buffer of `cap` bytes; an empty reorder header is none. -/
def dgramFrame (m : Masque) (cap : ℕ) (sid : StreamId) (reorderHdr pkt : Packet) : Option Packet :=
  let hdr := m.header sid
  if cap < hdr.length then none
  else if cap - hdr.length < reorderHdr.length + pkt.length then none
  else some (hdr ++ reorderHdr ++ pkt)

/-- Find a buffer and frame a packet into it: the stack buffer, or one from the heap. -/
def buildFrame (m : Masque) (sid : StreamId) (reorderHdr pkt : Packet) (heapOk : Bool) :
    Except Code Packet :=
  let cap := dgramFrameCap pkt.length reorderHdr
  let cap := if masqueFrameBuf < cap then masqueFrameBuf else cap
  if dgramStackBuf < cap ∧ !heapOk then .error .noMemory
  else
    match dgramFrame m (if dgramStackBuf < cap then cap else dgramStackBuf) sid reorderHdr pkt with
    | none => .error .engine
    | some frame => .ok frame

/-- The version nibble. -/
def ipVer (pkt : Packet) : UInt8 := pkt.getD 0 0 >>> 4

/-- Decrement the TTL and mend the checksum, or decrement the hop limit. -/
def decTtl (pkt : Packet) : Packet :=
  if ipVer pkt = 4 then
    let sum := (byteAt pkt 10 <<< 8 ||| byteAt pkt 11) + 0x0100
    let sum := (sum &&& 0xFFFF) + (sum >>> 16)
    ((pkt.set 8 (pkt.getD 8 0 - 1)).set 10 (UInt8.ofNat (sum >>> 8))).set 11 (UInt8.ofNat sum)
  else pkt.set 7 (pkt.getD 7 0 - 1)

/-! ### The surroundings of a call -/

/-- What xquic answers to a send. -/
inductive SendResult where
  | ok
  /-- `-XQC_EAGAIN`. -/
  | again
  | error
  deriving DecidableEq

structure Env where
  /-- The clock of the peek and the clock of the commit. -/
  nowUs : UInt64
  sentUs : UInt64
  /-- The clock of the rate limit. -/
  nowMs : ℤ
  /-- The allocation of a send flow, and of a frame buffer, succeeds. -/
  flowAlloc : Bool
  heapOk : Bool
  /-- The TCP lane consumed the packet. -/
  tcpLane : Bool
  /-- The answers to the copies on the paths the redundant mode selected. -/
  copies : List SendResult
  /-- The answer to the ordinary send. -/
  send : SendResult
  deriving DecidableEq

/-- What a tunnel entry point did with a packet: the frames xquic accepted, and the
message that answers the packet. -/
structure Sent where
  code : Code
  frames : List Packet := []
  icmp : Option Icmp := none
  deriving DecidableEq

/-- The sequence of a flow advances only if its stamped datagram went out. -/
def commitVerdict (reorderTx : Option Tx) (now : UInt64) : Verdict → Option Tx
  | .stamp peek => reorderTx.map fun tx => txCommit tx peek now
  | _ => reorderTx

/-- The payload room of a connection, `0` while xquic has not told. -/
def roomFor (m : Masque) (dgramMss : ℕ) (sid : StreamId) : ℕ :=
  if 0 < dgramMss then m.udpMss dgramMss sid else 0

/-! ### The client -/

/-- A connection of the client, as far as the datagram lane reads it. -/
structure TunConn where
  tunnelOk : Bool
  assignedIp : Option Packet
  assignedIp6 : Option Packet
  masqueStreamId : StreamId
  dgramMss : ℕ
  reorderTx : Option Tx
  peerReorderSupported : Bool
  redundantTx : Bool
  deriving DecidableEq

/-- The client, as far as the datagram lane reads it. -/
structure TunClient where
  conn : Option TunConn
  backpressure : Bool
  reorderMode : Mode
  redundantPorts : List UInt16
  ptbBucket : PtbBucket
  deriving DecidableEq

/-- The source address is ours; anything else is dropped silently. -/
def tunValidateSrc (conn : TunConn) (pkt : Packet) : Bool :=
  if ipVer pkt = 4 then
    match conn.assignedIp with
    | none => true
    | some ip => (pkt.drop 12).take 4 = ip
  else if ipVer pkt = 6 then
    match conn.assignedIp6 with
    | none => false
    | some ip => 40 ≤ pkt.length ∧ (pkt.drop 8).take 16 = ip
  else false

/-- The destination port at an offset is listed. -/
def portListed (ports : List UInt16) (pkt : Packet) (off : ℕ) : Bool :=
  decide (off + 4 ≤ pkt.length) && ports.contains (portAt pkt (off + 2))

/-- A packet of the redundant mode: UDP to one of the listed ports, or to any if none is. -/
def redundantMatch (ports : List UInt16) (pkt : Packet) : Bool :=
  if pkt.length < 1 then false
  else if ipVer pkt = 4 then
    if pkt.length < 20 ∨ byteAt pkt 9 ≠ 17 then false
    else if ports = [] then true
    else if (byteAt pkt 6 <<< 8 ||| byteAt pkt 7) &&& 0x1fff ≠ 0 then false
    else
      let off := (byteAt pkt 0 &&& 0x0f) * 4
      if off < 20 then false else portListed ports pkt off
  else if ipVer pkt = 6 then
    if pkt.length < 40 ∨ byteAt pkt 6 ≠ 17 then false
    else if ports = [] then true
    else portListed ports pkt 40
  else false

/-- The packet goes out once per path. -/
def TunClient.isRedundant (c : TunClient) (conn : TunConn) (pkt : Packet) : Bool :=
  conn.redundantTx && redundantMatch c.redundantPorts pkt

/-- The gate of the client; a redundant packet passes it without a sender. -/
def clientGate (m : Masque) (c : TunClient) (conn : TunConn) (pkt : Packet) (env : Env) :
    Verdict × Option Tx :=
  let udpMss := UInt32.ofNat (roomFor m conn.dgramMss conn.masqueStreamId)
  if c.isRedundant conn pkt then
    ((rgateDecide none false .off pkt env.nowUs udpMss env.flowAlloc).1, conn.reorderTx)
  else
    rgateDecide conn.reorderTx conn.peerReorderSupported c.reorderMode pkt env.nowUs udpMss
      env.flowAlloc

/-- Answer a packet that does not fit. -/
def clientTooBig (c : TunClient) (conn : TunConn) (pkt : Packet) (env : Env) (mtu : ℕ) :
    TunClient × Sent :=
  let addrOk := if ipVer pkt = 4 then conn.assignedIp.isSome else conn.assignedIp6.isSome
  let r := rgateSendPtb c.ptbBucket env.nowMs (ipVer pkt) addrOk mtu
  ({ c with ptbBucket := r.2 }, { code := .ok, icmp := r.1 })

def clientSendOnce (c : TunClient) (conn : TunConn) (v : Verdict) (frame : Packet) (env : Env) :
    TunClient × Sent :=
  match env.send with
  | .again => ({ c with backpressure := true }, { code := .again })
  | .error => (c, { code := .engine })
  | .ok =>
      ({ c with conn := some { conn with reorderTx := commitVerdict conn.reorderTx env.sentUs v } },
        { code := .ok, frames := [frame] })

/-- The copies of a redundant packet; `none` if none was accepted and none met
backpressure. -/
def tunSendRedundant (c : TunClient) (frame : Packet) (copies : List SendResult) :
    Option (TunClient × Sent) :=
  let accepted := copies.count .ok
  if 0 < accepted then some (c, { code := .ok, frames := List.replicate accepted frame })
  else if copies.contains .again then some ({ c with backpressure := true }, { code := .again })
  else none

def tunSendDatagram (m : Masque) (c : TunClient) (conn : TunConn) (pkt : Packet) (v : Verdict)
    (env : Env) : TunClient × Sent :=
  if v.hdr ≠ [] ∧ packetBufSize < pkt.length then (c, { code := .invalidArg })
  else
    match buildFrame m conn.masqueStreamId v.hdr pkt env.heapOk with
    | .error code => (c, { code := code })
    | .ok frame =>
        if c.isRedundant conn pkt then
          match tunSendRedundant c frame env.copies with
          | some r => r
          | none => clientSendOnce c conn v frame env
        else clientSendOnce c conn v frame env

/-- Behind the checks on the source address and behind the TCP lane. -/
def clientGated (m : Masque) (c : TunClient) (conn : TunConn) (pkt : Packet) (env : Env) :
    TunClient × Sent :=
  let g := clientGate m c conn pkt env
  let conn := { conn with reorderTx := g.2 }
  let c := { c with conn := some conn }
  match g.1 with
  | .dropReorderMtu mtu => clientTooBig c conn pkt env mtu
  | .dropRawMtu mtu => clientTooBig c conn pkt env mtu
  | v => tunSendDatagram m c conn pkt v env

/-- `mqvpn_client_on_tun_packet`. -/
def clientOnTunPacket (m : Masque) (c : TunClient) (pkt : Packet) (env : Env) : TunClient × Sent :=
  if pkt.length = 0 then (c, { code := .invalidArg })
  else
    match c.conn with
    | none => (c, { code := .invalidArg })
    | some conn =>
        if !conn.tunnelOk then (c, { code := .invalidArg })
        else if c.backpressure then (c, { code := .again })
        else if ipVer pkt = 4 ∧ pkt.length < 20 then (c, { code := .invalidArg })
        else if !tunValidateSrc conn pkt then (c, { code := .ok })
        else if env.tcpLane then (c, { code := .ok })
        else clientGated m c conn pkt env

/-! ### The server -/

/-- A session of the server, as far as the datagram lane reads it. -/
structure TunSession where
  tunnelEstablished : Bool
  masqueStreamId : StreamId
  dgramMss : ℕ
  reorderTx : Option Tx
  peerReorderSupported : Bool
  deriving DecidableEq

/-- The server, as far as the datagram lane reads it; a session is found by its offset. -/
structure TunServer where
  pool : AddrPool
  sessions : List (Option TunSession)
  nSessions : ℕ
  reorderMode : Mode
  ptbBucket : PtbBucket
  deriving DecidableEq

/-- The pool offset of the destination of a packet; `none` if it is not for a client. -/
def TunServer.offsetOf (s : TunServer) (pkt : Packet) : Option ℕ :=
  let inPool (off : UInt32) : Option ℕ :=
    if off = 0 ∨ addrPoolMax < off.toNat then none else some off.toNat
  if ipVer pkt = 4 ∧ 20 ≤ pkt.length then inPool (be32 ((pkt.drop 16).take 4) - s.pool.base)
  else if ipVer pkt = 6 ∧ 40 ≤ pkt.length ∧ s.pool.hasV6 then
    inPool (s.pool.offset6 ((pkt.drop 24).take 16))
  else none

/-- A message of the server, from its own address. -/
def serverIcmp (s : TunServer) (pkt : Packet) (nowMs : ℤ) (msg : Icmp) : TunServer × Sent :=
  let addrOk := if ipVer pkt = 4 then true else s.pool.hasV6
  let r := limited s.ptbBucket nowMs addrOk msg
  ({ s with ptbBucket := r.2 }, { code := .ok, icmp := r.1 })

/-- Destination unreachable: there is no session for the address. -/
def unreachableMsg (pkt : Packet) : Icmp :=
  if ipVer pkt = 4 then { ipVer := 4, type := 3, code := 1, mtu := 0 }
  else { ipVer := 6, type := 1, code := 3, mtu := 0 }

def timeExceededMsg (pkt : Packet) : Icmp :=
  if ipVer pkt = 4 then { ipVer := 4, type := 11, code := 0, mtu := 0 }
  else { ipVer := 6, type := 3, code := 0, mtu := 0 }

/-- The TTL or hop limit does not survive the decrement. -/
def ttlSpent (pkt : Packet) : Bool :=
  if ipVer pkt = 4 then decide (byteAt pkt 8 ≤ 1) else decide (byteAt pkt 7 ≤ 1)

def serverGate (m : Masque) (s : TunServer) (target : TunSession) (pkt : Packet) (env : Env) :
    Verdict × Option Tx :=
  rgateDecide target.reorderTx target.peerReorderSupported s.reorderMode pkt env.nowUs
    (UInt32.ofNat (roomFor m target.dgramMss target.masqueStreamId)) env.flowAlloc

/-- Write a session back. -/
def TunServer.setSession (s : TunServer) (off : ℕ) (target : TunSession) : TunServer :=
  { s with sessions := s.sessions.set off (some target) }

/-- The decrement in the last bytes of a frame, where the copy of the packet is. -/
def decTtlInFrame (frame : Packet) (len : ℕ) : Packet :=
  frame.take (frame.length - len) ++ decTtl (frame.drop (frame.length - len))

def serverSend (m : Masque) (s : TunServer) (off : ℕ) (target : TunSession) (pkt : Packet)
    (v : Verdict) (env : Env) : TunServer × Sent :=
  if packetBufSize < pkt.length then (s, { code := .invalidArg })
  else if ttlSpent pkt then serverIcmp s pkt env.nowMs (timeExceededMsg pkt)
  else
    match buildFrame m target.masqueStreamId v.hdr pkt env.heapOk with
    | .error code => (s, { code := code })
    | .ok frame =>
        match env.send with
        | .ok =>
            (s.setSession off
                { target with reorderTx := commitVerdict target.reorderTx env.sentUs v },
              { code := .ok, frames := [decTtlInFrame frame pkt.length] })
        | _ => (s, { code := .ok })

/-- Behind the choice of the session. -/
def serverGated (m : Masque) (s : TunServer) (off : ℕ) (target : TunSession) (pkt : Packet)
    (env : Env) : TunServer × Sent :=
  let g := serverGate m s target pkt env
  let target := { target with reorderTx := g.2 }
  let s := s.setSession off target
  match g.1 with
  | .dropReorderMtu mtu => serverIcmp s pkt env.nowMs (tooBigMsg (ipVer pkt) mtu)
  | .dropRawMtu mtu => serverIcmp s pkt env.nowMs (tooBigMsg (ipVer pkt) mtu)
  | v => serverSend m s off target pkt v env

/-- The session a packet is for, if its tunnel is up. -/
def TunServer.target (s : TunServer) (off : ℕ) : Option TunSession :=
  (s.sessions.getD off none).filter TunSession.tunnelEstablished

/-- `mqvpn_server_on_tun_packet`. -/
def serverOnTunPacket (m : Masque) (s : TunServer) (pkt : Packet) (env : Env) : TunServer × Sent :=
  if pkt.length = 0 then (s, { code := .invalidArg })
  else if s.nSessions = 0 then (s, { code := .ok })
  else
    match s.offsetOf pkt with
    | none => (s, { code := .ok })
    | some off =>
        match s.target off with
        | none => serverIcmp s pkt env.nowMs (unreachableMsg pkt)
        | some target => serverGated m s off target pkt env

/-! ### The receivers -/

/-- What becomes of a datagram. -/
inductive Received where
  /-- Not dispatched at all. -/
  | ignored
  /-- `forward_inner_ip` is called with these bytes. -/
  | forwarded (inner : Packet)
  /-- The receive engine takes the payload. -/
  | reordered (rx : Rx)
  /-- A stamped datagram, and no receive engine. -/
  | noEngine
  deriving DecidableEq

/-- Dispatch on the first byte of a payload. -/
def dispatch (reorderRx : Option Rx) (payload : Packet) (now : UInt64) (alloc : Alloc) : Received :=
  match payload with
  | [] => .ignored
  | b0 :: _ =>
      match classifyByte b0 with
      | .raw => .forwarded payload
      | .reorderV1 =>
          match reorderRx with
          | some rx => .reordered (onPacket rx payload now alloc)
          | none => .noEngine
      | .unknown => .ignored

/-- `cb_dgram_read` of the client. -/
def clientDgramRead (m : Masque) (tunActive : Bool) (reorderRx : Option Rx) (data : Packet)
    (now : UInt64) (alloc : Alloc) : Received :=
  if !tunActive then .ignored
  else
    match m.unframe data with
    | none => .ignored
    | some (_, _, payload) => dispatch reorderRx payload now alloc

/-- `cb_dgram_read` of the server: only datagrams of the tunnel's own stream are taken. -/
def serverDgramRead (m : Masque) (conn : TunSession) (reorderRx : Option Rx) (data : Packet)
    (now : UInt64) (alloc : Alloc) : Received :=
  if !conn.tunnelEstablished then .ignored
  else
    match m.unframe data with
    | none => .ignored
    | some (qsid, _, payload) =>
        if qsid ≠ conn.masqueStreamId.val / 4 then .ignored
        else dispatch reorderRx payload now alloc

end Mqvpn.Endpoint
