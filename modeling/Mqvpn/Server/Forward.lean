import Mqvpn.Lib.OnesComplement
import Mqvpn.Server.Session

/-!
# The datagram lane of the server

What a client sends is forwarded to the TUN device behind a check of its source address, at
once or later, when the reorder engine of its connection releases it; what the TUN device
yields goes to the client whose address it bears.  A packet whose TTL is spent is answered by
an ICMP message to the client it came from.

`Net` is the server of `Session.lean` together with this lane.  `log` records what an observer
sees: tunnels that come up, datagrams and ticks as they reach a connection, and the packets
that go out.  No function reads it back.

## Main definitions

* `icmpV4`, `icmpV6` — the messages of `icmp.c`.
* `forwardInnerIp` — the check, and what becomes of a packet.
* `Net.dgramRead`, `Net.tick`, `Net.onTunPacket` — the entry points.
* `NetOp`, `Net.step` — the server as a machine.

## Main results

* `icmp_answers` — **the messages are well formed**, and their checksums verify.
-/

namespace Mqvpn.Svr

open Reorder Endpoint List
open OnesComplement (Endian wordSum wordSum_append wordSum_le fold foldLoop)

/-! ### ICMP messages -/

/-- The sum of the 16-bit words of a message; an odd byte is the high half of a word. -/
def inetSum : List UInt8 → ℕ
  | [] => 0
  | [a] => a.toNat <<< 8
  | a :: b :: rest => ((a.toNat <<< 8) ||| b.toNat) + inetSum rest

/-- Fold the carries back in; a sum of 32 bits has none left after two rounds. -/
def foldCarry : ℕ → ℕ → ℕ
  | 0, sum => sum
  | rounds + 1, sum =>
      if sum >>> 16 = 0 then sum else foldCarry rounds ((sum &&& 0xFFFF) + (sum >>> 16))

/-- The Internet checksum from a sum of words. -/
def inetChecksum (sum : ℕ) : ℕ := 0xFFFF ^^^ foldCarry 3 sum

/-- Two bytes, the high one first. -/
def word (n : ℕ) : Packet := Varint.bigEndian 2 n

/-- `mqvpn_icmp_send_v4`, up to the call it makes. -/
def icmpV4 (srcIp : Packet) (type code : UInt8) (mtu : ℕ) (orig : Packet) : Option Packet :=
  if orig.length < 20 then none
  else
    let ihl := (byteAt orig 0 &&& 0x0F) * 4
    if ihl < 20 ∨ orig.length < ihl then none
    else
      let dataLen := if orig.length < ihl + 8 then orig.length else ihl + 8
      let total := 20 + 8 + dataLen
      if 128 < total then none
      else
        let header (sum : ℕ) : Packet :=
          [0x45, 0xC0] ++ word total ++ [0, 0, 0, 0, 64, 1] ++ word sum ++ srcIp ++
            (orig.drop 12).take 4
        let message (sum : ℕ) : Packet :=
          [type, code] ++ word sum ++ [0, 0] ++ word mtu ++ orig.take dataLen
        some (header (inetChecksum (inetSum (header 0))) ++
          message (inetChecksum (inetSum (message 0))))

/-- `mqvpn_icmp_send_v6`, up to the call it makes. -/
def icmpV6 (srcIp6 : In6Addr) (type code : UInt8) (mtu : ℕ) (orig : Packet) : Option Packet :=
  if orig.length < 40 then none
  else
    let dataLen := if 1280 < 40 + 8 + orig.length then 1280 - 40 - 8 else orig.length
    let len := 8 + dataLen
    let dst := (orig.drop 8).take 16
    let message (sum : ℕ) : Packet :=
      [type, code] ++ word sum ++ Varint.bigEndian 4 mtu ++ orig.take dataLen
    let sum := inetSum srcIp6.bytes + inetSum dst + (len >>> 16) + (len &&& 0xFFFF) + 58 +
      inetSum (message 0)
    some ([0x60, 0, 0, 0] ++ word len ++ [58, 64] ++ srcIp6.bytes ++ dst ++
      message (inetChecksum sum))

/-! ### The messages verify -/

@[simp] theorem length_word (n : ℕ) : (word n).length = 2 := Varint.length_bigEndian ..

theorem inetSum_eq (p : Packet) : inetSum p = wordSum .big p := by
  induction p using inetSum.induct with
  | case1 => rfl
  | case2 a => simp [inetSum, wordSum, Endian.word, Nat.shiftLeft_eq]
  | case3 a b rest ih =>
    rw [inetSum, ← Nat.shiftLeft_add_eq_or_of_lt b.toNat_lt, Nat.shiftLeft_eq, ih]
    rfl

theorem foldCarry_eq (rounds sum : ℕ) : foldCarry rounds sum = foldLoop rounds sum := by
  induction rounds generalizing sum with
  | zero => rfl
  | succ rounds ih =>
    rw [foldCarry, foldLoop, ih, Nat.shiftRight_eq_div_pow,
      show sum &&& 0xFFFF = sum % 65536 from Nat.and_two_pow_sub_one_eq_mod sum 16]

/-- The complement of a word. -/
theorem xor_ones {n : ℕ} (h : n < 65536) : 0xFFFF ^^^ n = 0xFFFF - n := by
  apply Nat.eq_of_testBit_eq
  intro i
  rw [Nat.testBit_xor, show 0xFFFF - n = 2 ^ 16 - (n + 1) by omega,
    Nat.testBit_two_pow_sub_succ h, show 0xFFFF = 2 ^ 16 - 1 from rfl, Nat.testBit_two_pow_sub_one]
  by_cases hi : i < 16
  · simp [hi]
  · have hhigh : n.testBit i = false :=
      Nat.testBit_lt_two_pow (h.trans_le (Nat.pow_le_pow_right Nat.two_pos (Nat.le_of_not_lt hi)))
    simp [hi, hhigh]

/-- **A message with its checksum verifies**, wherever the checksum stands. -/
theorem verifies_inetChecksum (pre post : Packet) (k : ℕ) {sum : ℕ} (hpre : pre.length = 2 * k)
    (hlen : pre.length + post.length < 32768)
    (hsum : sum = wordSum .big (pre ++ word 0 ++ post)) :
    fold (wordSum .big (pre ++ word (inetChecksum sum) ++ post)) = 0xffff := by
  have hparts : ∀ n < 65536, wordSum .big (pre ++ word n ++ post) =
      wordSum .big pre + wordSum .big post + n := by
    intro n hn
    rw [append_assoc, wordSum_append .big k _ _ hpre,
      wordSum_append .big 1 _ _ (length_word _),
      show wordSum .big (word n) = n from OnesComplement.wordSum_bytes .big hn, Nat.add_left_comm,
      Nat.add_comm]
  rw [hparts 0 (by decide), Nat.add_zero] at hsum
  have hsize : sum < 2 ^ 32 := by
    have := wordSum_le .big pre
    have := wordSum_le .big post
    omega
  have hlt : foldLoop 3 sum < 65536 :=
    OnesComplement.foldLoop_succ_lt (Nat.le_of_lt_succ hsize) fun _ h =>
      OnesComplement.foldLoop_lt (h.trans (by decide))
  rw [inetChecksum, foldCarry_eq, xor_ones hlt, hparts _ (by omega), ← hsum]
  exact OnesComplement.fold_add_complement (by omega) hlt (OnesComplement.foldLoop_mod ..)
    (OnesComplement.foldLoop_eq_zero ..)

/-- An IPv4 packet answers another: the lengths are right, it goes to the source of the other, it
has the header of the other and at most eight bytes more, and both checksums verify. -/
structure AnswersV4 (orig out : Packet) : Prop where
  version : ipVer out = 4
  size : 20 ≤ out.length ∧ out.length < 65536
  length : (out.drop 2).take 2 = word out.length
  dest : (out.drop 16).take 4 = (orig.drop 12).take 4
  quote : out.drop 28 = orig.take ((byteAt orig 0 &&& 0x0F) * 4 + 8)
  header : fold (wordSum .big (out.take 20)) = 0xffff
  message : fold (wordSum .big (out.drop 20)) = 0xffff

/-- An IPv6 packet answers another: it has as much of the other as fits in 1280 bytes. -/
structure AnswersV6 (orig out : Packet) : Prop where
  version : ipVer out = 6
  size : 40 ≤ out.length ∧ out.length ≤ 1280
  length : (out.drop 4).take 2 = word (out.length - 40)
  dest : (out.drop 24).take 16 = (orig.drop 8).take 16
  quote : out.drop 48 = orig.take (1280 - 48)
  message : fold (wordSum .big ((out.drop 8).take 32 ++ Varint.bigEndian 4 (out.length - 40) ++
    [0, 0, 0, 58] ++ out.drop 40)) = 0xffff

variable {orig out : Packet} {type code : UInt8} {mtu : ℕ}

theorem take_of_eq_min {p : Packet} {n m : ℕ} (h : n = min m p.length) :
    p.take n = p.take m ∧ n = (p.take m).length := by
  rw [h, length_take]
  exact ⟨by simp [take_eq_take_iff], rfl⟩

theorem icmpV4_answers {srcIp : Packet} (hsrc : srcIp.length = 4)
    (h : icmpV4 srcIp type code mtu orig = some out) : AnswersV4 orig out := by
  unfold icmpV4 at h
  split at h
  · cases h
  next hlen =>
  dsimp only at h
  split at h
  · cases h
  obtain ⟨hquote, hdata⟩ := @take_of_eq_min orig (if orig.length < (byteAt orig 0 &&& 0x0F) * 4 + 8
    then orig.length else (byteAt orig 0 &&& 0x0F) * 4 + 8) ((byteAt orig 0 &&& 0x0F) * 4 + 8)
    (by split <;> omega)
  rw [hquote, hdata] at h
  have hdst : ((orig.drop 12).take 4).length = 4 := by
    rw [length_take, length_drop]
    omega
  generalize hd : orig.take ((byteAt orig 0 &&& 0x0F) * 4 + 8) = data at h
  generalize hx : (orig.drop 12).take 4 = dst at h hdst
  split at h
  · cases h
  next hsmall =>
  have hlength : out.length = 20 + 8 + data.length := by
    rw [← Option.some.inj h]
    simp [hsrc, hdst]
    omega
  obtain rfl := Option.some.inj h
  match srcIp, hsrc, dst, hdst with
  | [a, b, c, d], _, [a', b', c', d'], _ =>
  have hheader := verifies_inetChecksum ([0x45, 0xC0] ++ word (20 + 8 + data.length) ++
    [0, 0, 0, 0, 64, 1]) ([a, b, c, d] ++ [a', b', c', d']) 5 rfl (by simp) (inetSum_eq _)
  have hmessage := verifies_inetChecksum [type, code] ([0, 0] ++ (word mtu ++ data)) 1 rfl
    (by simp; omega) (inetSum_eq _)
  simp only [append_assoc] at hheader hmessage hlength ⊢
  generalize inetChecksum _ = c₁ at hheader hlength ⊢
  generalize inetChecksum _ = c₂ at hmessage hlength ⊢
  refine ⟨?_, by omega, congrArg word hlength.symm, hx.symm, hd.symm, hheader, hmessage⟩
  simp only [ipVer, cons_append, getD_cons_zero]
  decide

theorem icmpV6_answers {srcIp6 : In6Addr} (h : icmpV6 srcIp6 type code mtu orig = some out) :
    AnswersV6 orig out := by
  unfold icmpV6 at h
  split at h
  · cases h
  next hlen =>
  dsimp only at h
  obtain ⟨hquote, hdata⟩ := @take_of_eq_min orig (if 1280 < 40 + 8 + orig.length then 1280 - 40 - 8
    else orig.length) (1280 - 48) (by split <;> omega)
  have hdst : ((orig.drop 8).take 16).length = 16 := by
    rw [length_take, length_drop]
    omega
  have hfit : (orig.take (1280 - 48)).length ≤ 1280 - 48 := length_take_le ..
  have hsrc := srcIp6.size
  rw [hquote, hdata] at h
  generalize hd : orig.take (1280 - 48) = data at h hfit
  generalize hx : (orig.drop 8).take 16 = dst at h hdst
  have hlength : out.length = 40 + (8 + data.length) := by
    rw [← Option.some.inj h]
    simp [hsrc, hdst, Varint.length_bigEndian]
    omega
  have hbytes : wordSum .big (Varint.bigEndian 4 (8 + data.length)) =
      (8 + data.length) >>> 16 + (8 + data.length &&& 0xFFFF) := by
    rw [show _ &&& 0xFFFF = _ from Nat.and_two_pow_sub_one_eq_mod _ 16, Nat.shiftRight_eq_div_pow]
    simp [wordSum, Endian.word, Varint.bigEndian]
    omega
  have hsum : inetSum srcIp6.bytes + inetSum dst + (8 + data.length) >>> 16 +
        (8 + data.length &&& 0xFFFF) + 58 +
        inetSum ([type, code] ++ word 0 ++ Varint.bigEndian 4 mtu ++ data) =
      wordSum .big (srcIp6.bytes ++ (dst ++ (Varint.bigEndian 4 (8 + data.length) ++
        ([0, 0, 0, 58] ++ [type, code]))) ++ word 0 ++ (Varint.bigEndian 4 mtu ++ data)) := by
    simp only [append_assoc]
    rw [wordSum_append .big 8 _ _ hsrc, wordSum_append .big 8 _ _ hdst,
      wordSum_append .big 2 _ _ (Varint.length_bigEndian ..), hbytes,
      wordSum_append .big 2 _ _ rfl, inetSum_eq, inetSum_eq, inetSum_eq]
    simp only [Nat.add_assoc]
    rfl
  have hmessage := verifies_inetChecksum _ _ 21 (by simp [hsrc, hdst, Varint.length_bigEndian])
    (by simp [hsrc, hdst, Varint.length_bigEndian]; omega) hsum
  obtain rfl := Option.some.inj h
  generalize inetChecksum _ = c at hmessage hlength ⊢
  simp only [append_assoc] at hmessage hlength ⊢
  have hbe := Varint.length_bigEndian 4 mtu
  refine ⟨?_, by omega, congrArg word (by omega), ?_, ?_, ?_⟩
  · simp only [ipVer, cons_append, getD_cons_zero]
    decide
  · rw [hx]
    simp [drop_append, drop_eq_nil_of_le, hsrc, hdst]
  · rw [hd]
    simp [drop_append, drop_eq_nil_of_le, hsrc, hdst, hbe]
  · rw [hlength]
    simpa [drop_append, take_append, drop_eq_nil_of_le, take_of_length_le, hsrc,
      hdst] using hmessage

/-- **The messages are well formed**: whatever packet has the headers that it says it has is
answered, and the answer has the right lengths, goes to the source, quotes the packet and
verifies. -/
theorem icmp_answers {srcIp : Packet} (hsrc : srcIp.length = 4) (srcIp6 : In6Addr)
    (type code : UInt8) (mtu : ℕ) (orig : Packet) :
    (∀ out, icmpV4 srcIp type code mtu orig = some out → AnswersV4 orig out) ∧
      (∀ out, icmpV6 srcIp6 type code mtu orig = some out → AnswersV6 orig out) ∧
      (20 ≤ (byteAt orig 0 &&& 0x0F) * 4 ∧ (byteAt orig 0 &&& 0x0F) * 4 ≤ orig.length →
        (icmpV4 srcIp type code mtu orig).isSome) ∧
      (40 ≤ orig.length → (icmpV6 srcIp6 type code mtu orig).isSome) := by
  refine ⟨fun _ => icmpV4_answers hsrc, fun _ => icmpV6_answers, fun hihl => ?_, fun hlen => ?_⟩
  · have hnibble : byteAt orig 0 &&& 0x0F ≤ 0x0F := Nat.and_le_right
    unfold icmpV4
    rw [if_neg (by omega), if_neg (by omega), if_neg (by split <;> omega)]
    rfl
  · unfold icmpV6
    rw [if_neg (by omega)]
    rfl

/-- A header without a payload runs out of hops. -/
theorem icmp_answers_header : ∃ out,
    icmpV4 [10, 0, 0, 1] 11 0 0 ([0x45, 0, 0, 20] ++ List.replicate 16 1) = some out ∧
      AnswersV4 ([0x45, 0, 0, 20] ++ List.replicate 16 1) out := by
  have h := @icmp_answers [10, 0, 0, 1] rfl ⟨replicate 16 0, rfl⟩ 11 0 0
    ([0x45, 0, 0, 20] ++ replicate 16 1)
  obtain ⟨out, hout⟩ := Option.isSome_iff_exists.mp (h.2.2.1 (by decide))
  exact ⟨out, hout, h.1 out hout⟩

/-! ### Forwarding -/

/-- What forwarding a packet meets: the clock of the rate limit, the allocation of a copy,
and whether xquic accepts a datagram. -/
structure ForwardEnv where
  nowMs : ℤ := 0
  heapOk : Bool := true
  sendOk : Bool := true
  deriving DecidableEq

/-- What becomes of a packet: it is written to the TUN device, a frame goes to the client, or
neither. -/
structure Forwarding where
  bucket : PtbBucket
  wrote : Option Packet := none
  sent : Option Packet := none
  deriving DecidableEq

/-- `send_icmp_via_datagram`. -/
def sendIcmpViaDatagram (m : Masque) (c : SvrConn) (pkt : Packet) (env : ForwardEnv) :
    Option Packet :=
  let frame := m.header c.masqueStreamId ++ pkt
  if 1400 < frame.length ∨ !env.sendOk then none else some frame

/-- Answer a packet whose TTL is spent, under the rate limit. -/
def timeExceeded (m : Masque) (bucket : PtbBucket) (c : SvrConn) (msg : Option Packet)
    (env : ForwardEnv) : Forwarding :=
  match bucket.allow env.nowMs with
  | (false, bucket) => { bucket }
  | (true, bucket) => { bucket, sent := msg.bind fun pkt => sendIcmpViaDatagram m c pkt env }

/-- The copy with the decremented TTL is written to the TUN device. -/
def tunOutput (bucket : PtbBucket) (pkt : Packet) (env : ForwardEnv) : Forwarding :=
  if dgramStackBuf < pkt.length ∧ !env.heapOk then { bucket }
  else { bucket, wrote := some (decTtl pkt) }

/-- `forward_inner_ip`. -/
def forwardInnerIp (m : Masque) (pool : AddrPool) (bucket : PtbBucket) (c : SvrConn) (pkt : Packet)
    (env : ForwardEnv) : Forwarding :=
  if pkt.length < 1 ∨ packetBufSize < pkt.length then { bucket }
  else if ipVer pkt = 4 then
    if pkt.length < 20 then { bucket }
    else if be32 ((pkt.drop 12).take 4) ≠ c.assignedIp then { bucket }
    else if byteAt pkt 8 ≤ 1 then
      timeExceeded m bucket c (icmpV4 (Varint.bigEndian 4 pool.serverAddr.toNat) 11 0 0 pkt) env
    else tunOutput bucket pkt env
  else if ipVer pkt = 6 then
    if pkt.length < 40 then { bucket }
    else if !c.hasV6 ∨ (pkt.drop 8).take 16 ≠ c.assignedIp6.bytes then { bucket }
    else if byteAt pkt 7 ≤ 1 then
      if pool.hasV6 then timeExceeded m bucket c (icmpV6 pool.serverAddr6 3 0 0 pkt) env
      else { bucket }
    else tunOutput bucket pkt env
  else { bucket }

/-! ### The lane of a connection -/

/-- What reaches the lane of a connection. -/
inductive Input where
  | datagram (data : Packet) (now : UInt64) (alloc : Alloc)
  | tick (now : UInt64)
  deriving DecidableEq

/-- The packet an event hands to the deliver callback. -/
def output : Event → Option Packet
  | .delivered _ _ pkt => some pkt
  | .passed pkt => some pkt
  | _ => none

/-- The packets a call handed to the deliver callback. -/
def newOutputs (rx rx' : Rx) : List Packet := (rx'.trace.drop rx.trace.length).filterMap output

/-- A connection as the datagram lane reads it; xquic told the size of its datagrams. -/
def SvrConn.tun (c : SvrConn) (dgramMss : ℕ) : TunSession where
  tunnelEstablished := c.tunnelEstablished
  masqueStreamId := c.masqueStreamId
  dgramMss := dgramMss
  reorderTx := c.reorderTx
  peerReorderSupported := c.peerReorderSupported

/-- The receive engine of a session after an input, and the packets that are forwarded. -/
def laneStep (m : Masque) (t : TunSession) (rx : Option Rx) : Input → Option Rx × List Packet
  | .datagram data now alloc =>
      match serverDgramRead m t rx data now alloc with
      | .forwarded inner => (rx, [inner])
      | .reordered rx' => (some rx', rx.elim [] fun rx => newOutputs rx rx')
      | .ignored => (rx, [])
      | .noEngine => (rx, [])
  | .tick now =>
      match rx with
      | none => (none, [])
      | some rx => (some (tick rx now), newOutputs rx (tick rx now))

/-! ### The server with its lane -/

/-- What an observer sees. -/
inductive NetEvent where
  /-- The tunnel of a connection came up. -/
  | up (id : ConnId) (sid : StreamId)
  /-- A datagram or a tick reached a connection. -/
  | input (id : ConnId) (inp : Input)
  /-- `forward_inner_ip` was called for a connection. -/
  | forward (id : ConnId) (inner : Packet)
  /-- A packet of a connection was written to the TUN device. -/
  | wrote (id : ConnId) (pkt : Packet)
  /-- A frame went to a connection. -/
  | sent (id : ConnId) (frame : Packet)
  deriving DecidableEq

/-- The server with its datagram lane. -/
structure Net where
  server : Server
  bucket : PtbBucket
  log : List NetEvent

def Net.note (n : Net) (events : List NetEvent) : Net := { n with log := n.log ++ events }

/-- What an observer sees of a forwarded packet. -/
def Forwarding.events (r : Forwarding) (id : ConnId) : List NetEvent :=
  (r.wrote.map (NetEvent.wrote id)).toList ++ (r.sent.map (NetEvent.sent id)).toList

def Net.forwardAll (m : Masque) (id : ConnId) (c : SvrConn) :
    List Packet → List ForwardEnv → Net → Net
  | [], _, n => n
  | pkt :: pkts, envs, n =>
      let r := forwardInnerIp m n.server.pool n.bucket c pkt (envs.headD {})
      Net.forwardAll m id c pkts envs.tail
        ({ n with bucket := r.bucket }.note (.forward id pkt :: r.events id))

def Net.feed (m : Masque) (n : Net) (id : ConnId) (inp : Input) (envs : List ForwardEnv) : Net :=
  match n.server.conns id with
  | none => n
  | some c =>
      let r := laneStep m (c.tun 0) c.reorderRx inp
      let c := { c with reorderRx := r.1 }
      Net.forwardAll m id c r.2 envs
        ({ n with server := n.server.setConn id c }.note [.input id inp])

/-- `cb_dgram_read`. -/
def Net.dgramRead (m : Masque) (n : Net) (id : ConnId) (data : Packet) (now : UInt64)
    (alloc : Alloc) (envs : List ForwardEnv) : Net :=
  n.feed m id (.datagram data now alloc) envs

/-- One slot of the session table in a tick. -/
def Net.tickSlot (m : Masque) (now : UInt64) (envs : ConnId → List ForwardEnv) (n : Net)
    (off : ℕ) : Net :=
  match Slots.entry n.server.sessions off with
  | none => n
  | some id => n.feed m id (.tick now) (envs id)

/-- The reorder part of `mqvpn_server_tick`. -/
def Net.tick (m : Masque) (n : Net) (now : UInt64) (envs : ConnId → List ForwardEnv) : Net :=
  if n.server.reorder.mode ≠ .off ∧ 0 < n.server.nSessions then
    (List.range' 1 addrPoolMax).foldl (Net.tickSlot m now envs) n
  else n

/-- The server as the TUN side reads it. -/
def Net.tun (n : Net) (dgramMss : ConnId → ℕ) : TunServer where
  pool := n.server.pool
  sessions := n.server.sessions.map fun slot =>
    slot.bind fun id => (n.server.conns id).map fun c => c.tun (dgramMss id)
  nSessions := n.server.nSessions.toNat
  reorderMode := n.server.reorder.mode
  ptbBucket := n.bucket

/-- `mqvpn_server_on_tun_packet`; the frames go to the connection of the slot. -/
def Net.onTunPacket (m : Masque) (n : Net) (dgramMss : ConnId → ℕ) (pkt : Packet) (env : Env) :
    Net :=
  let r := serverOnTunPacket m (n.tun dgramMss) pkt env
  let n' := { n with bucket := r.1.ptbBucket }
  match (n.tun dgramMss).offsetOf pkt with
  | none => n'
  | some off =>
      match Slots.entry n.server.sessions off with
      | none => n'
      | some id =>
          match n.server.conns id, r.1.sessions.getD off none with
          | some c, some t =>
              { n' with server := n.server.setConn id { c with reorderTx := t.reorderTx } }.note
                (r.2.frames.map (NetEvent.sent id))
          | _, _ => n'

def Server.established (s : Server) (id : ConnId) : Bool :=
  (s.conns id).elim false SvrConn.tunnelEstablished

/-- The tunnels that come up with a call. -/
def upEvents (s s' : Server) : SvrOp → List NetEvent
  | .requestRead id sid _ _ =>
      if s.established id = false ∧ s'.established id = true then [.up id sid] else []
  | _ => []

/-- A callback of xquic, a call of the control API, a packet of the TUN device or a tick. -/
inductive NetOp where
  | session (op : SvrOp)
  | dgramRead (id : ConnId) (data : Packet) (now : UInt64) (alloc : Alloc)
      (envs : List ForwardEnv)
  | tunPacket (dgramMss : ConnId → ℕ) (pkt : Packet) (env : Env)
  | tick (now : UInt64) (envs : ConnId → List ForwardEnv)

def Net.step (m : Masque) (n : Net) : NetOp → Net
  | .session op =>
      { n with server := n.server.step op }.note (upEvents n.server (n.server.step op) op)
  | .dgramRead id data now alloc envs => n.dgramRead m id data now alloc envs
  | .tunPacket dgramMss pkt env => n.onTunPacket m dgramMss pkt env
  | .tick now envs => n.tick m now envs

def Net.new (s : Server) (bucket : PtbBucket) : Net := { server := s, bucket := bucket, log := [] }

def Net.run (m : Masque) (n : Net) (ops : List NetOp) : Net := Run.exec (Net.step m) n ops

end Mqvpn.Svr
