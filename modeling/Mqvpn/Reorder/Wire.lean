import Mathlib.Data.Nat.Bitwise
import Mathlib.Tactic.Common

/-!
# The reorder wire format and flow identity

The reorder shim prefixes an inner IP packet with eight bytes: a type, flags, and a
48-bit big-endian sequence number.  A flow is the inner 5-tuple; both ends parse it
out of the bare inner packet, and only UDP packets that are not fragments have one.

Everything here models the header-only part of `reorder.h`.  A C array passed with
its length is a list of bytes; every read below is behind the same length check as
in the source, so the default of `byteAt` is never observed.

## Main definitions

* `classifyByte`, `wireEncode`, `wireDecode` — the header.
* `FlowKey`, `flowKeyHash` — the 5-tuple and its seeded FNV-1a hash.
* `parseL3l4`, `parse5tuple` — the inner L3/L4 parser.

## Main results

* `wireDecode_lt` — a decoded sequence number has 48 bits.
* `wireDecode_wireEncode` — the header round trip, modulo `2 ^ 48`.
-/

namespace Mqvpn.Reorder

/-- A packet: the bytes of an inner IP packet or of a datagram payload. -/
abbrev Packet := List UInt8

/-- The byte at an offset, as a number. -/
def byteAt (pkt : Packet) (i : ℕ) : ℕ := (pkt.getD i 0).toNat

theorem byteAt_lt (pkt : Packet) (i : ℕ) : byteAt pkt i < 256 := UInt8.toNat_lt _

/-! ### The header -/

/-- `MQVPN_REORDER_TYPE_V1`. -/
def typeV1 : UInt8 := 0x01

/-- `MQVPN_REORDER_FLAG_RESET`. -/
def flagReset : UInt8 := 0x01

/-- `MQVPN_REORDER_HDR_LEN`. -/
def hdrLen : ℕ := 8

/-- What the first byte of a datagram payload announces. -/
inductive Kind where
  /-- A bare inner IP packet. -/
  | raw
  /-- A reorder header, version 1. -/
  | reorderV1
  /-- Neither: dropped. -/
  | unknown
  deriving DecidableEq

/-- Self-describing dispatch on the first byte. -/
def classifyByte (b0 : UInt8) : Kind :=
  let nibble := b0 >>> 4
  if nibble = 4 ∨ nibble = 6 then .raw
  else if b0 = typeV1 then .reorderV1
  else .unknown

/-- Encode a header; only the low 48 bits of `seq` are emitted. -/
def wireEncode (type flags : UInt8) (seq : ℕ) : Packet :=
  [type, flags, UInt8.ofNat (seq >>> 40), UInt8.ofNat (seq >>> 32), UInt8.ofNat (seq >>> 24),
    UInt8.ofNat (seq >>> 16), UInt8.ofNat (seq >>> 8), UInt8.ofNat seq]

/-- Decode a header: type, flags and sequence number; `none` on a short datagram. -/
def wireDecode (payload : Packet) : Option (UInt8 × UInt8 × ℕ) :=
  if payload.length < hdrLen then none
  else
    some (payload.getD 0 0, payload.getD 1 0,
      (byteAt payload 2 <<< 40) ||| (byteAt payload 3 <<< 32) ||| (byteAt payload 4 <<< 24) |||
        (byteAt payload 5 <<< 16) ||| (byteAt payload 6 <<< 8) ||| byteAt payload 7)

/-- Six big-endian bytes joined by shifts and ors are a positional number. -/
theorem or_shift_eq_sum {b₂ b₃ b₄ b₅ b₆ b₇ : ℕ} (h₃ : b₃ < 256) (h₄ : b₄ < 256)
    (h₅ : b₅ < 256) (h₆ : b₆ < 256) (h₇ : b₇ < 256) :
    (b₂ <<< 40) ||| (b₃ <<< 32) ||| (b₄ <<< 24) ||| (b₅ <<< 16) ||| (b₆ <<< 8) ||| b₇ =
      b₂ * 2 ^ 40 + b₃ * 2 ^ 32 + b₄ * 2 ^ 24 + b₅ * 2 ^ 16 + b₆ * 2 ^ 8 + b₇ := by
  have hor {a b : ℕ} (k : ℕ) (hb : b < 2 ^ k) : a <<< k ||| b = a * 2 ^ k + b := by
    rw [← Nat.shiftLeft_add_eq_or_of_lt hb, Nat.shiftLeft_eq]
  -- from the last byte to the first
  simp only [Nat.or_assoc]
  rw [hor 8 h₇, hor 16 (by omega), hor 24 (by omega), hor 32 (by omega), hor 40 (by omega)]
  omega

/-- **A decoded sequence number has 48 bits.** -/
theorem wireDecode_lt {payload : Packet} {type flags : UInt8} {seq : ℕ}
    (h : wireDecode payload = some (type, flags, seq)) : seq < 2 ^ 48 := by
  unfold wireDecode at h
  split at h
  · cases h
  · simp only [Option.some.injEq, Prod.mk.injEq] at h
    obtain ⟨-, -, rfl⟩ := h
    have hb := byteAt_lt payload
    rw [or_shift_eq_sum (hb 3) (hb 4) (hb 5) (hb 6) (hb 7)]
    have := hb 2; have := hb 3; have := hb 4; have := hb 5; have := hb 6; have := hb 7
    omega

/-- **The header round trip.**  Numbers of `2 ^ 48` and above lose their high bits. -/
theorem wireDecode_wireEncode (type flags : UInt8) (seq : ℕ) (inner : Packet) :
    wireDecode (wireEncode type flags seq ++ inner) = some (type, flags, seq % 2 ^ 48) := by
  have hlen : ¬ (wireEncode type flags seq ++ inner).length < hdrLen := by
    simp [wireEncode, hdrLen]
  have hb : ∀ n : ℕ, (UInt8.ofNat n).toNat = n % 256 := fun n => by simp
  unfold wireDecode
  rw [if_neg hlen]
  simp only [wireEncode, byteAt, List.cons_append, List.getD_cons_zero, List.getD_cons_succ, hb]
  rw [or_shift_eq_sum (Nat.mod_lt _ (by decide)) (Nat.mod_lt _ (by decide))
    (Nat.mod_lt _ (by decide)) (Nat.mod_lt _ (by decide)) (Nat.mod_lt _ (by decide))]
  simp only [Nat.shiftRight_eq_div_pow, Option.some.injEq, Prod.mk.injEq, true_and]
  omega

/-! ### Flow identity -/

/-- The inner 5-tuple `mqvpn_flow_key_t`.  Ports are in host order; an address takes
sixteen bytes, an IPv4 one the first four with the rest zero. -/
structure FlowKey where
  ipVersion : UInt8
  proto : UInt8
  srcPort : UInt16
  dstPort : UInt16
  srcIp : List UInt8
  dstIp : List UInt8
  deriving DecidableEq, Inhabited

/-- The bytes of the padding-free struct, ports little-endian. -/
def FlowKey.bytes (k : FlowKey) : List UInt8 :=
  [k.ipVersion, k.proto, k.srcPort.toUInt8, (k.srcPort >>> 8).toUInt8, k.dstPort.toUInt8,
    (k.dstPort >>> 8).toUInt8] ++ k.srcIp ++ k.dstIp

/-- Seeded FNV-1a over the struct bytes. -/
def flowKeyHash (k : FlowKey) (seed : UInt64) : UInt64 :=
  k.bytes.foldl (fun h b => (h ^^^ b.toUInt64) * 1099511628211) (14695981039346656037 ^^^ seed)

/-! ### The inner parser -/

/-- `MQVPN_IPPROTO_UDP`. -/
def ipprotoUdp : ℕ := 17

/-- `MQVPN_IPPROTO_TCP`. -/
def ipprotoTcp : ℕ := 6

/-- The verdict of the inner parser; the two transport verdicts carry the key. -/
inductive L4Verdict where
  | udp (key : FlowKey)
  | tcp (key : FlowKey)
  /-- An IPv4 fragment, or an IPv6 fragment extension header. -/
  | fragment
  /-- Another transport, or an extension chain that cannot be walked. -/
  | other
  /-- Truncated, or neither IPv4 nor IPv6. -/
  | malformed
  deriving DecidableEq

/-- The transport verdict for a protocol number that is known to be UDP or TCP. -/
def transportVerdict (proto : ℕ) (key : FlowKey) : L4Verdict :=
  if proto = ipprotoTcp then .tcp key else .udp key

/-- `n` bytes at an offset, padded with zeros to sixteen. -/
def addrAt (pkt : Packet) (off n : ℕ) : List UInt8 :=
  ((pkt.drop off).take n) ++ List.replicate (16 - n) 0

/-- Two bytes at an offset, big-endian. -/
def portAt (pkt : Packet) (off : ℕ) : UInt16 :=
  UInt16.ofNat (byteAt pkt off <<< 8 ||| byteAt pkt (off + 1))

/-- The shortest transport header the parser accepts. -/
def l4Min (proto : ℕ) : ℕ := if proto = ipprotoTcp then 20 else 8

/-- The IPv4 branch of the parser. -/
def parseV4 (pkt : Packet) : L4Verdict :=
  if pkt.length < 20 then .malformed
  else
    let ihl := byteAt pkt 0 &&& 0x0f
    let hdr := ihl * 4
    if ihl < 5 ∨ pkt.length < hdr then .malformed
    else
      let frag := byteAt pkt 6 <<< 8 ||| byteAt pkt 7
      if frag &&& 0x3fff ≠ 0 then .fragment
      else
        let proto := byteAt pkt 9
        if proto ≠ ipprotoUdp ∧ proto ≠ ipprotoTcp then .other
        else if pkt.length < hdr + l4Min proto then .malformed
        else
          transportVerdict proto
            { ipVersion := 4, proto := UInt8.ofNat proto,
              srcPort := portAt pkt hdr, dstPort := portAt pkt (hdr + 2),
              srcIp := addrAt pkt 12 4, dstIp := addrAt pkt 16 4 }

/-- The walk over IPv6 extension headers, cut off after a number of headers. -/
def walkV6 (pkt : Packet) : ℕ → ℕ → ℕ → L4Verdict
  | 0, _, _ => .other
  | n + 1, next, off =>
      if next = ipprotoUdp ∨ next = ipprotoTcp then
        if pkt.length < off + l4Min next then .malformed
        else
          transportVerdict next
            { ipVersion := 6, proto := UInt8.ofNat next,
              srcPort := portAt pkt off, dstPort := portAt pkt (off + 2),
              srcIp := addrAt pkt 8 16, dstIp := addrAt pkt 24 16 }
      else if next = 44 then .fragment
      else if next = 0 ∨ next = 43 ∨ next = 60 then
        if pkt.length < off + 2 then .malformed
        else
          let off' := off + (byteAt pkt (off + 1) + 1) * 8
          if off' > pkt.length then .malformed else walkV6 pkt n (byteAt pkt off) off'
      else .other

/-- Classify a bare inner IP packet in one walk. -/
def parseL3l4 (pkt : Packet) : L4Verdict :=
  if pkt.length < 1 then .malformed
  else
    let version := byteAt pkt 0 >>> 4
    if version = 4 then parseV4 pkt
    else if version = 6 then
      if pkt.length < 40 then .malformed else walkV6 pkt 16 (byteAt pkt 6) 40
    else .malformed

/-- The key of a parseable UDP packet that is not a fragment. -/
def parse5tuple (pkt : Packet) : Option FlowKey :=
  match parseL3l4 pkt with
  | .udp key => some key
  | _ => none

end Mqvpn.Reorder
