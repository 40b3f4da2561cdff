import Mqvpn.Lib.Segments
import Mqvpn.Offload.Checksum

/-!
# Splitting a super-packet

The kernel hands over packets of up to 64 KiB, with a segment size in the virtio header.  They are
cut into ordinary packets one at a time: each has a copy of the headers and the next part of the
payload, with lengths, IPv4 identification, TCP sequence number and flags adjusted and both
checksums computed anew.

## Main definitions

* `GsoIter` — how far a super-packet was split.
* `gsoBegin`, `gsoNext` — start, and write the next segment.
* `gsoSegment` — the bytes of the next segment.
-/

namespace Mqvpn.Offload

open OnesComplement Coverage

def byteAt (p : Packet) (i : ℕ) : ℕ := (p.getD i 0).toNat

def ipv4MinHlen : ℕ := 20
def ipv6Hlen : ℕ := 40
def tcpMinHlen : ℕ := 20
def udpHlen : ℕ := 8

/-- The least length of a transport header. -/
def Proto.minHlen : Proto → ℕ
  | .tcp => tcpMinHlen
  | .udp => udpHlen

def flagFin : UInt8 := 0x01
def flagPsh : UInt8 := 0x08
def flagCwr : UInt8 := 0x80

def gsoTcpV4 : UInt8 := 1
def gsoTcpV6 : UInt8 := 4
def gsoUdpL4 : UInt8 := 5
def gsoEcn : UInt8 := 0x80

structure GsoIter where
  pkt : Packet
  /-- The bytes of the headers, which every segment has. -/
  hdrLen : ℕ
  /-- The payload that was emitted. -/
  off : ℕ
  ipHlen : ℕ
  gsoSize : ℕ
  ipId0 : ℕ
  /-- The segments that were emitted. -/
  idx : ℕ
  seq0 : ℕ
  proto : Proto
  v6 : Bool
  done : Bool
  deriving DecidableEq

/-! ### The start -/

/-- The family and the protocol of a kind of super-packet; one kind leaves the family to the
packet. -/
def gsoKind (type : UInt8) (pkt : Packet) : Option (Bool × Proto) :=
  if type = gsoTcpV4 then some (false, .tcp)
  else if type = gsoTcpV6 then some (true, .tcp)
  else if type = gsoUdpL4 then some (byteAt pkt 0 / 16 = 6, .udp)
  else none

/-- The length of the IP header; behind one of IPv6, the virtio header says where the transport
header starts. -/
def gsoIpHlen (v6 : Bool) (pkt : Packet) (vh : VnetHdr) : Option ℕ :=
  if v6 then
    let ipHlen := if vh.needsCsum then vh.csumStart.toNat else ipv6Hlen
    if ipHlen < ipv6Hlen ∨ pkt.length < ipv6Hlen ∨ 0xffff < pkt.length - ipv6Hlen then none
    else some ipHlen
  else
    let ipHlen := byteAt pkt 0 % 16 * 4
    if ipHlen < ipv4MinHlen ∨ 0xffff < pkt.length then none
    else if vh.needsCsum ∧ vh.csumStart.toNat ≠ ipHlen then none
    else some ipHlen

/-- The length of the transport header. -/
def gsoL4Hlen (proto : Proto) (ipHlen : ℕ) (pkt : Packet) (vh : VnetHdr) : Option ℕ :=
  match proto with
  | .tcp =>
    if pkt.length < ipHlen + tcpMinHlen then none
    else
      let l4Hlen := byteAt pkt (ipHlen + 12) / 16 * 4
      if l4Hlen < tcpMinHlen then none
      else if vh.needsCsum ∧ vh.csumOffset ≠ 16 then none
      else some l4Hlen
  | .udp => if vh.needsCsum ∧ vh.csumOffset ≠ 6 then none else some udpHlen

/-- Start to split a super-packet. -/
def gsoBegin (pkt : Packet) (vh : VnetHdr) : Option GsoIter :=
  if vh.gsoSize = 0 ∨ pkt.length < ipv4MinHlen then none
  else
    match gsoKind (vh.gsoType &&& ~~~gsoEcn) pkt with
    | none => none
    | some (v6, proto) =>
      if byteAt pkt 0 / 16 ≠ (if v6 then 6 else 4) then none
      else
        match gsoIpHlen v6 pkt vh with
        | none => none
        | some ipHlen =>
          match gsoL4Hlen proto ipHlen pkt vh with
          | none => none
          | some l4Hlen =>
            if pkt.length < ipHlen + l4Hlen then none
            else some {
              pkt := pkt
              hdrLen := ipHlen + l4Hlen
              off := 0
              ipHlen := ipHlen
              gsoSize := vh.gsoSize.toNat
              ipId0 := if v6 then 0 else getBe16 pkt 4
              idx := 0
              seq0 := if proto = .tcp then getBe32 pkt (ipHlen + 4) else 0
              proto := proto
              v6 := v6
              done := false }

/-! ### The next segment -/

/-- The flags of a segment: some are for the last one, one is for the first. -/
def segmentFlags (last : Bool) (idx : ℕ) (flags : UInt8) : UInt8 :=
  let flags := if last then flags else flags &&& ~~~(flagFin ||| flagPsh)
  if idx = 0 then flags else flags &&& ~~~flagCwr

namespace GsoIter

def payloadTotal (it : GsoIter) : ℕ := it.pkt.length - it.hdrLen

/-- The payload of the next segment. -/
def seg (it : GsoIter) : ℕ := min (it.payloadTotal - it.off) it.gsoSize

def total (it : GsoIter) : ℕ := it.hdrLen + it.seg

def last (it : GsoIter) : Bool := it.payloadTotal ≤ it.off + it.seg

/-- The headers and the next part of the payload. -/
def copyOut (it : GsoIter) : Packet :=
  it.pkt.take it.hdrLen ++ (it.pkt.drop (it.hdrLen + it.off)).take it.seg

def tcpFlags (it : GsoIter) (flags : UInt8) : UInt8 := segmentFlags it.last it.idx flags

end GsoIter

/-- Store a checksum over the IP header. -/
def storeIpCsum (e : Endian) (out : Packet) (ipHlen : ℕ) : Packet :=
  let out := write out ⟨10, [0, 0]⟩
  csumStore e out 10 (csumSum e (out.take ipHlen) 0)

/-- Store a checksum over the transport header and the payload. -/
def storeL4Csum (e : Endian) (out : Packet) (ipHlen offset : ℕ) (v6 : Bool) (proto : Proto) :
    Packet :=
  let out := write out ⟨ipHlen + offset, [0, 0]⟩
  let pseudo := csumPseudo e out v6 proto (out.length - ipHlen)
  csumStore e out (ipHlen + offset) (csumSum e (out.drop ipHlen) pseudo)

def ipFields (e : Endian) (it : GsoIter) (out : Packet) : Packet :=
  if it.v6 then putBe16 out 4 (it.total - ipv6Hlen)
  else
    let out := putBe16 out 2 it.total
    let out := putBe16 out 4 (it.ipId0 + it.idx)
    storeIpCsum e out it.ipHlen

def l4Fields (e : Endian) (it : GsoIter) (out : Packet) : Packet :=
  match it.proto with
  | .tcp =>
    let out := putBe32 out (it.ipHlen + 4) (it.seq0 + it.off)
    let out := write out ⟨it.ipHlen + 13, [it.tcpFlags (out.getD (it.ipHlen + 13) 0)]⟩
    storeL4Csum e out it.ipHlen 16 it.v6 .tcp
  | .udp =>
    let out := putBe16 out (it.ipHlen + 4) (it.total - it.ipHlen)
    storeL4Csum e out it.ipHlen 6 it.v6 .udp

/-- The bytes of the next segment. -/
def gsoSegment (e : Endian) (it : GsoIter) : Packet := l4Fields e it (ipFields e it it.copyOut)

def GsoIter.advance (it : GsoIter) : GsoIter :=
  { it with off := it.off + it.seg, idx := it.idx + 1, done := it.last }

/-- The answer to a call for the next segment. -/
inductive GsoNext
  | finished
  | tooSmall
  | packet (p : Packet) (it : GsoIter)
  deriving DecidableEq

/-- Write the next segment into a buffer of some size. -/
def gsoNext (e : Endian) (it : GsoIter) (outCap : ℕ) : GsoNext :=
  if it.done then .finished
  else if outCap < it.total then .tooSmall
  else .packet (gsoSegment e it) it.advance

/-- The packets that calls with buffers of these sizes return. -/
def gsoCalls (e : Endian) (it : GsoIter) : List ℕ → List Packet
  | [] => []
  | outCap :: caps =>
    match gsoNext e it outCap with
    | .packet p it => p :: gsoCalls e it caps
    | _ => gsoCalls e it caps

/-- All segments from here on. -/
def gsoAll (e : Endian) : ℕ → GsoIter → List Packet
  | 0, _ => []
  | fuel + 1, it => if it.done then [] else gsoSegment e it :: gsoAll e fuel it.advance

/-- All segments of a super-packet. -/
def gsoSplit (e : Endian) (it : GsoIter) : List Packet := gsoAll e (it.payloadTotal + 1) it

/-! ### Super-packets that were accepted -/

/-- What holds of an iterator between calls. -/
structure GsoIter.Valid (it : GsoIter) : Prop where
  size_pos : 0 < it.gsoSize
  hdr_le : it.hdrLen ≤ it.pkt.length
  ip_min : (if it.v6 then ipv6Hlen else ipv4MinHlen) ≤ it.ipHlen
  l4_min : it.ipHlen + it.proto.minHlen ≤ it.hdrLen
  len_le : it.pkt.length ≤ (if it.v6 then ipv6Hlen else 0) + 0xffff
  off_le : it.off ≤ it.payloadTotal
  off_lt : it.done = false → it.off < it.payloadTotal ∨ it.payloadTotal = 0
  id_eq : it.v6 = false → it.ipId0 = getBe16 it.pkt 4
  seq_eq : it.proto = .tcp → it.seq0 = getBe32 it.pkt (it.ipHlen + 4)

variable {pkt : Packet}

variable {vh : VnetHdr}

theorem gsoL4Hlen_le {proto : Proto} {ipHlen l4Hlen : ℕ}
    (h : gsoL4Hlen proto ipHlen pkt vh = some l4Hlen) : proto.minHlen ≤ l4Hlen := by
  cases proto with
  | tcp =>
    unfold gsoL4Hlen at h
    dsimp only at h
    split_ifs at h with _ hmin
    cases h
    exact Nat.le_of_not_lt hmin
  | udp =>
    unfold gsoL4Hlen at h
    dsimp only at h
    split_ifs at h
    cases h
    exact Nat.le_refl _

theorem gsoIpHlen_le {v6 : Bool} {ipHlen : ℕ} (h : gsoIpHlen v6 pkt vh = some ipHlen) :
    (if v6 then ipv6Hlen else ipv4MinHlen) ≤ ipHlen ∧
      pkt.length ≤ (if v6 then ipv6Hlen else 0) + 0xffff := by
  unfold gsoIpHlen at h
  cases v6 with
  | true =>
    rw [if_pos rfl] at h
    dsimp only at h
    generalize (if vh.needsCsum = true then vh.csumStart.toNat else ipv6Hlen) = n at h
    split_ifs at h with hbad
    cases h
    simp only [not_or, Nat.not_lt] at hbad
    simp only [if_true]
    omega
  | false =>
    rw [if_neg Bool.false_ne_true] at h
    dsimp only at h
    split_ifs at h with hbad
    cases h
    simp only [not_or, Nat.not_lt] at hbad
    simp only [Bool.false_eq_true, if_false]
    omega

/-- The transport header is where the virtio header says. -/
theorem gsoIpHlen_needsCsum {v6 : Bool} {ipHlen : ℕ} (h : gsoIpHlen v6 pkt vh = some ipHlen)
    (hneeds : vh.needsCsum = true) : ipHlen = vh.csumStart.toNat := by
  unfold gsoIpHlen at h
  rw [hneeds] at h
  cases v6 with
  | true =>
    rw [if_pos rfl, if_pos rfl] at h
    dsimp only at h
    split_ifs at h
    exact (Option.some.inj h).symm
  | false =>
    rw [if_neg Bool.false_ne_true] at h
    dsimp only at h
    split_ifs at h with hbad hstart
    simp only [true_and, not_not] at hstart
    rw [hstart, Option.some.inj h]

/-- **What is accepted is well formed.** -/
theorem valid_gsoBegin {it : GsoIter} (h : gsoBegin pkt vh = some it) :
    it.Valid ∧ it.pkt = pkt ∧ it.off = 0 ∧ it.idx = 0 ∧ it.done = false ∧
      it.gsoSize = vh.gsoSize.toNat ∧ gsoIpHlen it.v6 pkt vh = some it.ipHlen := by
  unfold gsoBegin at h
  by_cases hsize : vh.gsoSize = 0 ∨ pkt.length < ipv4MinHlen
  · rw [if_pos hsize] at h
    cases h
  rw [if_neg hsize] at h
  cases hkind : gsoKind (vh.gsoType &&& ~~~gsoEcn) pkt with
  | none =>
    rw [hkind] at h
    cases h
  | some kind =>
  obtain ⟨v6, proto⟩ := kind
  rw [hkind] at h
  dsimp only at h
  by_cases hversion : byteAt pkt 0 / 16 ≠ (if v6 then 6 else 4)
  · rw [if_pos hversion] at h
    cases h
  rw [if_neg hversion] at h
  cases hip : gsoIpHlen v6 pkt vh with
  | none =>
    rw [hip] at h
    cases h
  | some ipHlen =>
  rw [hip] at h
  dsimp only at h
  cases hl4 : gsoL4Hlen proto ipHlen pkt vh with
  | none =>
    rw [hl4] at h
    cases h
  | some l4Hlen =>
  rw [hl4] at h
  dsimp only at h
  by_cases hlen : pkt.length < ipHlen + l4Hlen
  · rw [if_pos hlen] at h
    cases h
  rw [if_neg hlen] at h
  cases h
  obtain ⟨hmin, hle⟩ := gsoIpHlen_le hip
  have hl4min := gsoL4Hlen_le hl4
  have hpos : 0 < vh.gsoSize.toNat := by
    refine Nat.pos_of_ne_zero fun hz => hsize (.inl ?_)
    exact UInt16.toNat_inj.mp hz
  refine ⟨⟨hpos, ?_, hmin, ?_, hle, Nat.zero_le _, fun _ => ?_, fun hv => ?_, fun hp => ?_⟩,
    rfl, rfl, rfl, rfl, rfl, hip⟩
  · dsimp only
    omega
  · exact Nat.add_le_add_left hl4min _
  · exact (Nat.eq_zero_or_pos _).symm
  · exact if_neg (Bool.eq_false_iff.mp hv)
  · exact if_pos hp

end Mqvpn.Offload
