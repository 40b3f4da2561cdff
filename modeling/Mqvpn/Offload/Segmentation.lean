import Mqvpn.Offload.Split

/-!
# The segments of a super-packet

The headers of a segment are those of the super-packet with some fields written over, one after
the other; none of these writes reaches the payload, and those of the IP header and those of the
transport header do not meet.  So every field can be read back, and each checksum was taken over
what stands in the packet in the end.

## Main results

* `SegmentOk`, `segmentOk_gsoSegment` — the fields and the checksums of a segment.
* `payloads_gsoAll` — the payloads are the cut of the payload.
* `vnetFinishCsum_verifies` — the checksum of a packet that is not split verifies once finished.
* `gso_split` — **the segments of a super-packet**: payloads, fields and checksums.
-/

namespace Mqvpn.Offload

open OnesComplement Coverage List

/-! ### Writes -/

section Writes

variable {out p q : Packet} {a b i v : ℕ}

theorem within_write {bytes : List UInt8} {n : ℕ} (hn : bytes.length = n)
    (h : i + n ≤ out.length) : Within (write out ⟨i, bytes⟩) out i (i + n) := by
  subst hn
  exact Within.write h

theorem within_putBe16 (h : i + 2 ≤ out.length) : Within (putBe16 out i v) out i (i + 2) :=
  within_write (Varint.length_bigEndian ..) h

theorem within_putBe32 (h : i + 4 ≤ out.length) : Within (putBe32 out i v) out i (i + 4) :=
  within_write (Varint.length_bigEndian ..) h

/-- A number that was written is read back. -/
theorem ofBytes_write {n : ℕ} (h : i + n ≤ out.length) :
    Varint.ofBytes (((write out ⟨i, Varint.bigEndian n v⟩).drop i).take n) = v % 256 ^ n := by
  have hstop : Piece.stop ⟨i, Varint.bigEndian n v⟩ ≤ out.length := by
    simpa [Piece.stop, Varint.length_bigEndian] using h
  have hslice := slice_write hstop
  rw [Varint.length_bigEndian] at hslice
  rw [hslice, Varint.ofBytes_bigEndian]

theorem getBe16_putBe16 (h : i + 2 ≤ out.length) : getBe16 (putBe16 out i v) i = v % 65536 :=
  ofBytes_write h

theorem getBe16_of_within (h : Within p q a b) (hi : i + 2 ≤ a ∨ b ≤ i) :
    getBe16 p i = getBe16 q i := congrArg Varint.ofBytes (h.beside i 2 hi)

theorem getBe32_of_within (h : Within p q a b) (hi : i + 4 ≤ a ∨ b ≤ i) :
    getBe32 p i = getBe32 q i := congrArg Varint.ofBytes (h.beside i 4 hi)

theorem addresses_of_within (h : Within p q a b) {v6 : Bool}
    (hab : b ≤ 8 ∨ (v6 = false ∧ b ≤ 12) ∨ (if v6 then 40 else 20) ≤ a) :
    addresses p v6 = addresses q v6 := by
  unfold addresses
  cases v6 with
  | true =>
    rw [if_pos rfl, if_pos rfl]
    refine h.beside 8 32 ?_
    simp only [Bool.true_eq_false, false_and, false_or, if_true] at hab
    omega
  | false =>
    rw [if_neg Bool.false_ne_true, if_neg Bool.false_ne_true]
    refine h.beside 12 8 ?_
    simp only [true_and, Bool.false_eq_true, if_false] at hab
    omega

end Writes

/-! ### The checksums -/

section Checksums

variable {e : Endian} {out : Packet} {ipHlen offset : ℕ} {v6 : Bool} {proto : Proto}

theorem within_csumStore {at' acc : ℕ} (h : at' + 2 ≤ out.length) :
    Within (csumStore e out at' acc) out at' (at' + 2) := within_write (length_bytes ..) h

theorem within_storeIpCsum (h : 12 ≤ out.length) : Within (storeIpCsum e out ipHlen) out 10 12 := by
  have hzero : Within (write out ⟨10, [0, 0]⟩) out 10 12 := within_write rfl h
  exact (within_csumStore (by rw [hzero.length]; exact h)).trans hzero

/-- Store the field of a part whose sum was begun. -/
def storeSum (e : Endian) (out : Packet) (ipHlen offset acc : ℕ) : Packet :=
  let out := write out ⟨ipHlen + offset, [0, 0]⟩
  csumStore e out (ipHlen + offset) (csumSum e (out.drop ipHlen) acc)

theorem within_storeSum {acc : ℕ} (h : ipHlen + offset + 2 ≤ out.length) :
    Within (storeSum e out ipHlen offset acc) out (ipHlen + offset) (ipHlen + offset + 2) := by
  have hzero : Within (write out ⟨ipHlen + offset, [0, 0]⟩) out _ _ := within_write rfl h
  exact (within_csumStore (by rw [hzero.length]; exact h)).trans hzero

theorem within_storeL4Csum (h : ipHlen + offset + 2 ≤ out.length) :
    Within (storeL4Csum e out ipHlen offset v6 proto) out (ipHlen + offset)
      (ipHlen + offset + 2) := within_storeSum h

/-- The checksum over the IP header verifies. -/
theorem verifiesIp_storeIpCsum (hip : 12 ≤ ipHlen) (hlen : ipHlen ≤ out.length)
    (hshort : ipHlen < 2 ^ 32) : VerifiesIp (storeIpCsum e out ipHlen) ipHlen := by
  have hbody : (out.take ipHlen).length = ipHlen := by
    rw [length_take, Nat.min_eq_left hlen]
  have hstop : Piece.stop (⟨10, [0, 0]⟩ : Piece UInt8) = 12 := rfl
  have hzero : (write out ⟨10, [0, 0]⟩).take ipHlen = write (out.take ipHlen) ⟨10, [0, 0]⟩ :=
    take_write (by omega) hip
  have hlen₀ : (write (out.take ipHlen) ⟨10, [0, 0]⟩).length = ipHlen :=
    (length_write (by omega)).trans hbody
  have hsmall : 0 + 2 ^ 30 * (write (out.take ipHlen) ⟨10, [0, 0]⟩).length < 2 ^ 64 := by
    rw [hlen₀]
    omega
  unfold VerifiesIp storeIpCsum
  dsimp only
  rw [hzero, csumStore, take_write, hzero]
  · refine @fold_stored e [] (out.take ipHlen) 0 10 _ rfl (by omega) rfl ?_ ?_ ?_
    · have hle := csumSum_le e hsmall
      omega
    · exact csumSum_mod e hsmall
    · rw [length_nil, hbody]
      omega
  · rw [length_write (by omega)]
    simp only [Piece.stop, length_bytes]
    omega
  · simp only [Piece.stop, length_bytes]
    exact hip

theorem even_length_pseudoHeader {l4len : ℕ} (h : (if v6 then 40 else 20) ≤ out.length) :
    (pseudoHeader out v6 proto l4len).length = 2 * (if v6 then 20 else 6) := by
  unfold pseudoHeader
  rw [length_append, length_addresses h]
  cases v6 <;> simp [Varint.length_bigEndian]

/-- The pseudo header is in front of the writes. -/
theorem pseudoHeader_of_within {p q : Packet} {a b : ℕ} (h : Within p q a b)
    (hip : (if v6 then 40 else 20) ≤ a) :
    pseudoHeader p v6 proto (p.length - ipHlen) = pseudoHeader q v6 proto (q.length - ipHlen) := by
  unfold pseudoHeader
  rw [addresses_of_within h (.inr (.inr hip)), h.length]

/-- **The checksum over the transport header and the payload verifies**, if the sum was begun with
that of the pseudo header. -/
theorem verifiesL4_storeSum {acc : ℕ} (hip : (if v6 then 40 else 20) ≤ ipHlen)
    (hlen : ipHlen + offset + 2 ≤ out.length) (heven : offset % 2 = 0)
    (hshort : out.length - ipHlen < 65536) (hle : acc ≤ 2 ^ 36)
    (hmod : acc ≡ wordSum e (pseudoHeader out v6 proto (out.length - ipHlen)) [MOD 65535]) :
    VerifiesL4 (storeSum e out ipHlen offset acc) ipHlen v6 proto := by
  have hstop : Piece.stop (⟨ipHlen + offset, [0, 0]⟩ : Piece UInt8) = ipHlen + offset + 2 := rfl
  have hzero : Within (write out ⟨ipHlen + offset, [0, 0]⟩) out _ _ := within_write rfl hlen
  have hbody : (write out ⟨ipHlen + offset, [0, 0]⟩).drop ipHlen =
      write (out.drop ipHlen) ⟨offset, [0, 0]⟩ := by
    rw [drop_write (by omega) (Nat.le_add_right ..), Nat.add_sub_cancel_left]
  have hbodyLen : (write (out.drop ipHlen) ⟨offset, [0, 0]⟩).length = out.length - ipHlen := by
    rw [← hbody, length_drop, hzero.length]
  have hdrop : (storeSum e out ipHlen offset acc).drop ipHlen =
      csumStore e (write (out.drop ipHlen) ⟨offset, [0, 0]⟩) offset
        (csumSum e (write (out.drop ipHlen) ⟨offset, [0, 0]⟩) acc) := by
    unfold storeSum
    dsimp only
    rw [csumStore, drop_write, hbody, Nat.add_sub_cancel_left, csumStore]
    · rw [hzero.length]
      simp only [Piece.stop, length_bytes]
      exact hlen
    · exact Nat.le_add_right ..
  have hsmall : acc + 2 ^ 30 * (write (out.drop ipHlen) ⟨offset, [0, 0]⟩).length < 2 ^ 64 := by
    rw [hbodyLen]
    omega
  have hpre := @even_length_pseudoHeader out v6 proto (out.length - ipHlen) (by omega)
  unfold VerifiesL4
  rw [pseudoHeader_of_within (within_storeSum hlen) (by omega), hdrop]
  refine fold_stored hpre ?_ heven ?_ ?_ ?_
  · rw [length_drop]
    omega
  · have hsum := csumSum_le e hsmall
    omega
  · exact (csumSum_mod e hsmall).trans (hmod.add_right _)
  · rw [hpre, length_drop]
    split_ifs <;> omega

theorem verifiesL4_storeL4Csum (hip : (if v6 then 40 else 20) ≤ ipHlen)
    (hlen : ipHlen + offset + 2 ≤ out.length) (heven : offset % 2 = 0)
    (hshort : out.length - ipHlen < 65536) :
    VerifiesL4 (storeL4Csum e out ipHlen offset v6 proto) ipHlen v6 proto := by
  have hzero : Within (write out ⟨ipHlen + offset, [0, 0]⟩) out _ _ := within_write rfl hlen
  obtain ⟨hmod, hle⟩ := @csumPseudo_mod e (write out ⟨ipHlen + offset, [0, 0]⟩) v6 proto
    ((write out ⟨ipHlen + offset, [0, 0]⟩).length - ipHlen) (by rw [hzero.length]; omega)
    (by rw [hzero.length]; exact hshort)
  rw [pseudoHeader_of_within hzero (by omega)] at hmod
  exact verifiesL4_storeSum hip hlen heven hshort hle hmod

/-- **A checksum that was left unfinished verifies when it is finished**: the field held the sum of
the pseudo header, and nothing else is written. -/
theorem vnetFinishCsum_verifies {p q : Packet} {vh : VnetHdr} (h : vnetFinishCsum e p vh = some q)
    (hip : (if v6 then 40 else 20) ≤ vh.csumStart.toNat) (heven : vh.csumOffset.toNat % 2 = 0)
    (hshort : p.length - vh.csumStart.toNat < 65536)
    (hleft : wordSum e ((p.drop (vh.csumStart.toNat + vh.csumOffset.toNat)).take 2) ≡
      wordSum e (pseudoHeader p v6 proto (p.length - vh.csumStart.toNat)) [MOD 65535]) :
    VerifiesL4 q vh.csumStart.toNat v6 proto ∧
      Within q p (vh.csumStart.toNat + vh.csumOffset.toNat)
        (vh.csumStart.toNat + vh.csumOffset.toNat + 2) := by
  unfold vnetFinishCsum at h
  dsimp only at h
  split_ifs at h with hshape
  rw [not_or, Nat.not_le, Nat.not_lt] at hshape
  cases h
  set left := (p.drop (vh.csumStart.toNat + vh.csumOffset.toNat)).take 2
  have htwo : left.length ≤ 2 := length_take_le ..
  obtain ⟨hmod, hle⟩ := adds_csumSum e left 0 (by omega)
  rw [Nat.zero_add] at hmod
  exact ⟨verifiesL4_storeSum hip hshape.2 heven hshort (by omega) (hmod.trans hleft),
    within_storeSum hshape.2⟩

end Checksums

/-! ### One segment -/

namespace GsoIter

/-- The part of the payload that is next. -/
def segPayload (it : GsoIter) : List UInt8 :=
  ((it.pkt.drop it.hdrLen).drop it.off).take it.gsoSize

/-- Where the writes to the transport header end. -/
def l4End (it : GsoIter) : ℕ :=
  match it.proto with
  | .tcp => 18
  | .udp => 8

end GsoIter

section Segment

variable {e : Endian} {it : GsoIter} {out : Packet}

theorem length_segPayload (it : GsoIter) : it.segPayload.length = it.seg := by
  unfold GsoIter.segPayload GsoIter.seg GsoIter.payloadTotal
  simp only [length_take, length_drop]
  omega

theorem lt_of_not_last (h : it.last = false) : it.off + it.seg < it.payloadTotal := by
  simpa [GsoIter.last] using h

/-- All segments but the last are full. -/
theorem seg_of_not_last (h : it.last = false) : it.seg = it.gsoSize := by
  have hmore := lt_of_not_last h
  unfold GsoIter.seg at hmore ⊢
  omega

theorem copyOut_eq (it : GsoIter) : it.copyOut = it.pkt.take it.hdrLen ++ it.segPayload := by
  unfold GsoIter.copyOut GsoIter.segPayload
  rw [drop_drop]
  refine congrArg _ (take_eq_take_iff.mpr ?_)
  rw [length_drop]
  unfold GsoIter.seg GsoIter.payloadTotal
  omega

namespace GsoIter.Valid

variable (hv : it.Valid)

include hv

theorem l4End_le : it.ipHlen + it.l4End ≤ it.hdrLen := by
  have hmin := hv.l4_min
  unfold GsoIter.l4End
  cases hp : it.proto <;> rw [hp] at hmin <;>
    simp only [Proto.minHlen, tcpMinHlen, udpHlen] at hmin ⊢ <;> omega

theorem ip_le : 20 ≤ it.ipHlen := by
  have hmin := hv.ip_min
  unfold ipv6Hlen ipv4MinHlen at hmin
  split_ifs at hmin <;> omega

theorem length_copyOut : it.copyOut.length = it.total := by
  rw [copyOut_eq, length_append, length_segPayload, length_take,
    Nat.min_eq_left hv.hdr_le]
  rfl

/-- A segment is not longer than the super-packet. -/
theorem total_le : it.total ≤ it.pkt.length := by
  have hhdr := hv.hdr_le
  unfold GsoIter.total GsoIter.seg GsoIter.payloadTotal
  omega

theorem ip_le_total : it.ipHlen ≤ it.total := by
  have := hv.l4_min
  unfold GsoIter.total
  omega

/-- The length of a segment fits into its fields. -/
theorem total_le_max : it.total ≤ (if it.v6 then ipv6Hlen else 0) + 0xffff :=
  hv.total_le.trans hv.len_le

end GsoIter.Valid

variable (hv : it.Valid)
include hv

variable (hlen : out.length = it.total)
include hlen

/-- In an IPv6 header, only the length is written. -/
theorem ipFields_v6 (h6 : it.v6 = true) :
    Within (ipFields e it out) out 4 6 ∧
      getBe16 (ipFields e it out) 4 = it.total - ipv6Hlen := by
  have hmax := hv.total_le_max
  have hip := hv.ip_le
  have htotal := hv.ip_le_total
  unfold ipFields
  rw [if_pos h6] at hmax ⊢
  refine ⟨within_putBe16 (by omega), ?_⟩
  rw [getBe16_putBe16 (by omega), Nat.mod_eq_of_lt (by omega)]

/-- The fields of an IPv4 header, and its checksum. -/
theorem ipFields_v4 (h4 : it.v6 = false) :
    Within (ipFields e it out) out 2 12 ∧ getBe16 (ipFields e it out) 2 = it.total ∧
      getBe16 (ipFields e it out) 4 = (it.ipId0 + it.idx) % 65536 ∧
      VerifiesIp (ipFields e it out) it.ipHlen := by
  have hmax := hv.total_le_max
  have hip := hv.ip_le
  have htotal := hv.ip_le_total
  unfold ipFields
  rw [if_neg (Bool.eq_false_iff.mp h4)] at hmax ⊢
  dsimp only
  have h₂ : Within (putBe16 out 2 it.total) out 2 4 := within_putBe16 (by omega)
  have h₄ : Within (putBe16 (putBe16 out 2 it.total) 4 (it.ipId0 + it.idx)) _ 4 6 :=
    within_putBe16 (by rw [h₂.length]; omega)
  have hcsum := @within_storeIpCsum e (putBe16 (putBe16 out 2 it.total) 4 (it.ipId0 + it.idx))
    it.ipHlen (by rw [h₄.length, h₂.length]; omega)
  refine ⟨?_, ?_, ?_, verifiesIp_storeIpCsum (by omega) ?_ (by omega)⟩
  · exact (hcsum.mono (by omega) (by omega)).trans
      ((h₄.mono (by omega) (by omega)).trans (h₂.mono (by omega) (by omega)))
  · rw [getBe16_of_within hcsum (by omega), getBe16_of_within h₄ (by omega),
      getBe16_putBe16 (by omega), Nat.mod_eq_of_lt (by omega)]
  · rw [getBe16_of_within hcsum (by omega), getBe16_putBe16 (by rw [h₂.length]; omega)]
  · rw [h₄.length, h₂.length]
    omega

/-- The writes to the IP header. -/
theorem within_ipFields : Within (ipFields e it out) out 2 12 := by
  cases h6 : it.v6 with
  | true => exact (ipFields_v6 hv hlen h6).1.mono (by omega) (by omega)
  | false => exact (ipFields_v4 hv hlen h6).1

theorem l4Fields_tcp (hp : it.proto = .tcp) :
    Within (l4Fields e it out) out (it.ipHlen + 4) (it.ipHlen + 18) ∧
      getBe32 (l4Fields e it out) (it.ipHlen + 4) = (it.seq0 + it.off) % 2 ^ 32 ∧
      (l4Fields e it out).getD (it.ipHlen + 13) 0 =
        it.tcpFlags (out.getD (it.ipHlen + 13) 0) ∧
      VerifiesL4 (l4Fields e it out) it.ipHlen it.v6 it.proto := by
  have hend := hv.l4End_le
  have hmax := hv.total_le_max
  have hmin := hv.ip_min
  have htotal : it.hdrLen ≤ it.total := Nat.le_add_right ..
  unfold l4Fields
  unfold GsoIter.l4End at hend
  rw [hp] at hend ⊢
  dsimp only at hend ⊢
  have hseq : Within (putBe32 out (it.ipHlen + 4) (it.seq0 + it.off)) out (it.ipHlen + 4)
      (it.ipHlen + 4 + 4) := within_putBe32 (by omega)
  have hread : getBe32 (putBe32 out (it.ipHlen + 4) (it.seq0 + it.off)) (it.ipHlen + 4) =
      (it.seq0 + it.off) % 2 ^ 32 := ofBytes_write (by omega)
  generalize putBe32 out (it.ipHlen + 4) (it.seq0 + it.off) = q at hseq hread ⊢
  rw [hseq.getD (by omega) 0]
  generalize hflags : it.tcpFlags (out.getD (it.ipHlen + 13) 0) = flags
  have hstop : it.ipHlen + 13 + 1 ≤ q.length := by
    rw [hseq.length]
    omega
  have hset : Within (write q ⟨it.ipHlen + 13, [flags]⟩) q (it.ipHlen + 13) (it.ipHlen + 13 + 1) :=
    within_write rfl hstop
  have hcsum := @within_storeL4Csum e (write q ⟨it.ipHlen + 13, [flags]⟩) it.ipHlen 16 it.v6 .tcp
    (by rw [hset.length, hseq.length]; omega)
  have hwritten : (write q ⟨it.ipHlen + 13, [flags]⟩)[it.ipHlen + 13]? = some flags :=
    getElem?_write_at hstop ⟨Nat.le_refl _, by simp⟩
  refine ⟨?_, ?_, ?_, verifiesL4_storeL4Csum hmin ?_ rfl ?_⟩
  · exact (hcsum.mono (by omega) (by omega)).trans
      ((hset.mono (by omega) (by omega)).trans (hseq.mono (by omega) (by omega)))
  · rw [getBe32_of_within hcsum (by omega), getBe32_of_within hset (by omega), hread]
  · rw [hcsum.getD (by omega), getD_eq_getElem?_getD, hwritten]
    rfl
  · rw [hset.length, hseq.length]
    omega
  · rw [hset.length, hseq.length]
    split_ifs at hmin hmax <;> omega

theorem l4Fields_udp (hp : it.proto = .udp) :
    Within (l4Fields e it out) out (it.ipHlen + 4) (it.ipHlen + 8) ∧
      getBe16 (l4Fields e it out) (it.ipHlen + 4) = it.total - it.ipHlen ∧
      VerifiesL4 (l4Fields e it out) it.ipHlen it.v6 it.proto := by
  have hend := hv.l4End_le
  have hmax := hv.total_le_max
  have hmin := hv.ip_min
  have htotal : it.hdrLen ≤ it.total := Nat.le_add_right ..
  have hshort : it.total - it.ipHlen < 65536 := by
    split_ifs at hmin hmax <;> omega
  unfold l4Fields
  unfold GsoIter.l4End at hend
  rw [hp] at hend ⊢
  dsimp only at hend ⊢
  have hfield : Within (putBe16 out (it.ipHlen + 4) (it.total - it.ipHlen)) out (it.ipHlen + 4)
      (it.ipHlen + 4 + 2) := within_putBe16 (by omega)
  have hcsum := @within_storeL4Csum e (putBe16 out (it.ipHlen + 4) (it.total - it.ipHlen))
    it.ipHlen 6 it.v6 .udp (by rw [hfield.length]; omega)
  refine ⟨?_, ?_, verifiesL4_storeL4Csum hmin ?_ rfl ?_⟩
  · exact (hcsum.mono (by omega) (by omega)).trans (hfield.mono (by omega) (by omega))
  · rw [getBe16_of_within hcsum (by omega), getBe16_putBe16 (by omega), Nat.mod_eq_of_lt hshort]
  · rw [hfield.length]
    omega
  · rw [hfield.length, hlen]
    exact hshort

/-- The writes to the transport header. -/
theorem within_l4Fields :
    Within (l4Fields e it out) out (it.ipHlen + 4) (it.ipHlen + it.l4End) := by
  unfold GsoIter.l4End
  cases hp : it.proto with
  | tcp => exact (l4Fields_tcp hv hlen hp).1
  | udp => exact (l4Fields_udp hv hlen hp).1

end Segment

/-! ### What a segment has to be -/

theorem segmentFlags_fin_psh {last : Bool} {idx : ℕ} {flags : UInt8}
    (h : segmentFlags last idx flags &&& (flagFin ||| flagPsh) ≠ 0) : last = true := by
  by_contra hlast
  refine h ?_
  unfold segmentFlags
  rw [if_neg hlast]
  dsimp only
  have hand : ∀ a m k : UInt8, a &&& ~~~m &&& ~~~k &&& m = 0 ∧ a &&& ~~~m &&& m = 0 := by
    intro a m k
    have hzero : a &&& ~~~m &&& m = 0 := by
      rw [UInt8.and_assoc, UInt8.not_and_self, UInt8.and_zero]
    refine ⟨?_, hzero⟩
    rw [UInt8.and_assoc (a &&& ~~~m), UInt8.and_comm (~~~k) m, ← UInt8.and_assoc, hzero,
      UInt8.zero_and]
  split_ifs
  · exact (hand flags _ 0).2
  · exact (hand flags _ _).1

theorem segmentFlags_cwr {last : Bool} {idx : ℕ} {flags : UInt8}
    (h : segmentFlags last idx flags &&& flagCwr ≠ 0) : idx = 0 := by
  by_contra hidx
  refine h ?_
  unfold segmentFlags
  dsimp only
  rw [if_neg hidx, UInt8.and_assoc, UInt8.not_and_self, UInt8.and_zero]

/-- A segment of a super-packet: the one with this index, behind so many bytes of the payload. -/
structure SegmentOk (sup : GsoIter) (idx off : ℕ) (last : Bool) (p : Packet) : Prop where
  payload : p.drop sup.hdrLen = ((sup.pkt.drop sup.hdrLen).drop off).take sup.gsoSize
  hdr_le : sup.hdrLen ≤ p.length
  /-- All but the last are full. -/
  full : last = false → (p.drop sup.hdrLen).length = sup.gsoSize
  some_byte : sup.pkt.drop sup.hdrLen ≠ [] →
    0 < (p.drop sup.hdrLen).length ∧ (p.drop sup.hdrLen).length ≤ sup.gsoSize
  totalLength : sup.v6 = false → getBe16 p 2 = p.length
  payloadLength : sup.v6 = true → getBe16 p 4 = p.length - ipv6Hlen
  ident : sup.v6 = false → getBe16 p 4 = (getBe16 sup.pkt 4 + idx) % 2 ^ 16
  seq : sup.proto = .tcp →
    getBe32 p (sup.ipHlen + 4) = (getBe32 sup.pkt (sup.ipHlen + 4) + off) % 2 ^ 32
  flags : sup.proto = .tcp → p.getD (sup.ipHlen + 13) 0 =
    segmentFlags last idx (sup.pkt.getD (sup.ipHlen + 13) 0)
  udpLength : sup.proto = .udp → getBe16 p (sup.ipHlen + 4) = p.length - sup.ipHlen
  verifiesIp : sup.v6 = false → VerifiesIp p sup.ipHlen
  verifiesL4 : VerifiesL4 p sup.ipHlen sup.v6 sup.proto

section Segment

variable {e : Endian} {it : GsoIter} (hv : it.Valid)
include hv

theorem within_gsoSegment : Within (gsoSegment e it) it.copyOut 2 (it.ipHlen + it.l4End) := by
  have hip := hv.ip_le
  have hfields := @within_ipFields e it it.copyOut hv hv.length_copyOut
  refine Within.trans ?_ (hfields.mono (Nat.le_refl _) (by omega))
  exact (within_l4Fields hv (hfields.length.trans hv.length_copyOut)).mono (by omega)
    (Nat.le_refl _)

theorem length_gsoSegment : (gsoSegment e it).length = it.total :=
  (within_gsoSegment hv).length.trans hv.length_copyOut

theorem drop_gsoSegment : (gsoSegment e it).drop it.hdrLen = it.segPayload := by
  rw [(within_gsoSegment hv).drop hv.l4End_le, copyOut_eq]
  exact drop_left' (by rw [length_take, Nat.min_eq_left hv.hdr_le])

/-- **One segment.** -/
theorem segmentOk_gsoSegment (hdone : it.done = false) :
    SegmentOk it it.idx it.off it.last (gsoSegment e it) := by
  have hip := hv.ip_le
  have hlen := @length_gsoSegment e it hv
  have hpayload := @drop_gsoSegment e it hv
  have hfields := @within_ipFields e it it.copyOut hv hv.length_copyOut
  have hlenIp : (ipFields e it it.copyOut).length = it.total :=
    hfields.length.trans hv.length_copyOut
  have hl4 := @within_l4Fields e it (ipFields e it it.copyOut) hv hlenIp
  have hgoal : gsoSegment e it = l4Fields e it (ipFields e it it.copyOut) := rfl
  constructor
  case payload => exact hpayload
  case hdr_le =>
    rw [hlen]
    exact Nat.le_add_right ..
  case full =>
    intro hlast
    rw [hpayload, length_segPayload]
    exact seg_of_not_last hlast
  case some_byte =>
    intro hne
    have hpos : 0 < it.payloadTotal := by
      rw [GsoIter.payloadTotal, ← length_drop]
      exact length_pos_iff.mpr hne
    have hsize := hv.size_pos
    have hoff := hv.off_lt hdone
    rw [hpayload, length_segPayload]
    unfold GsoIter.seg
    omega
  case totalLength =>
    intro h4
    rw [hlen, hgoal, getBe16_of_within hl4 (by omega)]
    exact (ipFields_v4 hv hv.length_copyOut h4).2.1
  case payloadLength =>
    intro h6
    rw [hlen, hgoal, getBe16_of_within hl4 (by omega)]
    exact (ipFields_v6 hv hv.length_copyOut h6).2
  case ident =>
    intro h4
    rw [hgoal, getBe16_of_within hl4 (by omega), ← hv.id_eq h4]
    exact (ipFields_v4 hv hv.length_copyOut h4).2.2.1
  case seq =>
    intro hp
    rw [hgoal, ← hv.seq_eq hp]
    exact (l4Fields_tcp hv hlenIp hp).2.1
  case flags =>
    intro hp
    have hbyte : it.copyOut.getD (it.ipHlen + 13) 0 = it.pkt.getD (it.ipHlen + 13) 0 := by
      have hmin := hv.l4_min
      rw [hp] at hmin
      have hlt : it.ipHlen + 13 < it.hdrLen := by
        simp only [Proto.minHlen, tcpMinHlen] at hmin
        omega
      rw [copyOut_eq, getD_eq_getElem?_getD, getD_eq_getElem?_getD,
        getElem?_append_left (by rw [length_take, Nat.min_eq_left hv.hdr_le]; exact hlt),
        getElem?_take_of_lt hlt]
    rw [hgoal, (l4Fields_tcp hv hlenIp hp).2.2.1, hfields.getD (by omega), hbyte]
    rfl
  case udpLength =>
    intro hp
    rw [hlen, hgoal]
    exact (l4Fields_udp hv hlenIp hp).2.1
  case verifiesIp =>
    intro h4
    rw [hgoal, VerifiesIp, hl4.take (by omega)]
    exact (ipFields_v4 hv hv.length_copyOut h4).2.2.2
  case verifiesL4 =>
    cases hp : it.proto with
    | tcp => exact hp ▸ (l4Fields_tcp hv hlenIp hp).2.2.2
    | udp => exact hp ▸ (l4Fields_udp hv hlenIp hp).2.2

end Segment

/-! ### All segments -/

section Run

variable {e : Endian} {it : GsoIter}

def GsoIter.payloads (it : GsoIter) (ps : List Packet) : List UInt8 :=
  (ps.map (·.drop it.hdrLen)).flatten

theorem valid_advance (hv : it.Valid) : it.advance.Valid := by
  have hoff := hv.off_le
  have hsize := hv.size_pos
  refine ⟨hv.size_pos, hv.hdr_le, hv.ip_min, hv.l4_min, hv.len_le, ?_, fun hlast => ?_, hv.id_eq,
    hv.seq_eq⟩
  · change it.off + it.seg ≤ it.payloadTotal
    unfold GsoIter.seg
    omega
  · exact .inl (@lt_of_not_last it hlast)

/-- What is left after a segment is less, unless that was the last one. -/
theorem left_advance (hv : it.Valid) (hlast : it.last = false) :
    it.payloadTotal - it.advance.off < it.payloadTotal - it.off := by
  have hmore := lt_of_not_last hlast
  have hsize := hv.size_pos
  have hfull := seg_of_not_last hlast
  change it.payloadTotal - (it.off + it.seg) < _
  omega

theorem gsoAll_done (hdone : it.done = true) (fuel : ℕ) : gsoAll e fuel it = [] := by
  cases fuel with
  | zero => rfl
  | succ fuel => exact if_pos hdone

theorem gsoAll_succ (hdone : it.done = false) (fuel : ℕ) :
    gsoAll e (fuel + 1) it = gsoSegment e it :: gsoAll e fuel it.advance :=
  if_neg (Bool.eq_false_iff.mp hdone)

/-- There is another segment behind all but the last. -/
theorem gsoAll_advance_isEmpty (hv : it.Valid) {fuel : ℕ}
    (hfuel : it.payloadTotal - it.off < fuel + 1) :
    (gsoAll e fuel it.advance).isEmpty = it.last := by
  cases hlast : it.last with
  | true => rw [@gsoAll_done e it.advance hlast fuel]; rfl
  | false =>
    have hless := left_advance hv hlast
    cases fuel with
    | zero => omega
    | succ fuel => rw [@gsoAll_succ e it.advance hlast fuel]; rfl

/-- **Every segment**, with those in front of it and those behind it. -/
theorem segmentOk_gsoAll : ∀ (fuel : ℕ) (it : GsoIter), it.Valid → it.done = false →
    it.payloadTotal - it.off < fuel → ∀ pre p post, gsoAll e fuel it = pre ++ p :: post →
    SegmentOk it (it.idx + pre.length) (it.off + (it.payloads pre).length) post.isEmpty p := by
  intro fuel
  induction fuel with
  | zero => intro it _ _ hfuel; omega
  | succ fuel ih =>
    intro it hv hdone hfuel pre p post hsplit
    rw [gsoAll_succ hdone] at hsplit
    cases pre with
    | nil =>
      obtain ⟨rfl, rfl⟩ := cons.inj hsplit
      rw [gsoAll_advance_isEmpty hv hfuel]
      exact segmentOk_gsoSegment hv hdone
    | cons q pre =>
      obtain ⟨rfl, hrest⟩ := cons.inj hsplit
      have hlast : it.last = false := by
        rw [← @gsoAll_advance_isEmpty e it hv fuel hfuel, hrest]
        cases pre <;> rfl
      have hless := left_advance hv hlast
      have hok := ih it.advance (valid_advance hv) hlast
        (Nat.lt_of_lt_of_le hless (Nat.le_of_lt_succ hfuel)) pre p post hrest
      have hoff : it.off + (it.payloads (gsoSegment e it :: pre)).length =
          it.advance.off + (it.advance.payloads pre).length := by
        simp only [GsoIter.payloads, map_cons, flatten_cons, length_append,
          drop_gsoSegment hv, length_segPayload, GsoIter.advance]
        omega
      have hidx : it.idx + (gsoSegment e it :: pre).length = it.advance.idx + pre.length := by
        change it.idx + (pre.length + 1) = it.idx + 1 + pre.length
        omega
      rw [hoff, hidx]
      exact ⟨hok.payload, hok.hdr_le, hok.full, hok.some_byte, hok.totalLength, hok.payloadLength,
        hok.ident, hok.seq, hok.flags, hok.udpLength, hok.verifiesIp, hok.verifiesL4⟩

/-- The payloads make up what is left of the payload. -/
theorem payloads_gsoAll : ∀ (fuel : ℕ) (it : GsoIter), it.Valid → it.done = false →
    it.payloadTotal - it.off < fuel →
    it.payloads (gsoAll e fuel it) = (it.pkt.drop it.hdrLen).drop it.off := by
  intro fuel
  induction fuel with
  | zero => intro it _ _ hfuel; omega
  | succ fuel ih =>
    intro it hv hdone hfuel
    rw [gsoAll_succ hdone]
    have hcons : it.payloads (gsoSegment e it :: gsoAll e fuel it.advance) =
        it.segPayload ++ it.advance.payloads (gsoAll e fuel it.advance) := by
      rw [GsoIter.payloads, map_cons, flatten_cons, drop_gsoSegment hv]
      rfl
    have hleft : ((it.pkt.drop it.hdrLen).drop it.off).length = it.payloadTotal - it.off := by
      rw [length_drop, length_drop]
      rfl
    rw [hcons]
    cases hlast : it.last with
    | true =>
      have hshort : ((it.pkt.drop it.hdrLen).drop it.off).length ≤ it.gsoSize := by
        have : it.payloadTotal ≤ it.off + it.seg := by simpa [GsoIter.last] using hlast
        rw [hleft]
        unfold GsoIter.seg at this
        omega
      rw [@gsoAll_done e it.advance hlast fuel, GsoIter.segPayload,
        take_of_length_le hshort]
      exact append_nil _
    | false =>
      have hless := left_advance hv hlast
      rw [ih it.advance (valid_advance hv) hlast
        (Nat.lt_of_lt_of_le hless (Nat.le_of_lt_succ hfuel))]
      change it.segPayload ++ (it.pkt.drop it.hdrLen).drop (it.off + it.seg) = _
      rw [seg_of_not_last hlast, ← drop_drop, GsoIter.segPayload, take_append_drop]

/-! Calls with buffers of any sizes. -/

theorem gsoCalls_done (hdone : it.done = true) (caps : List ℕ) : gsoCalls e it caps = [] := by
  induction caps with
  | nil => rfl
  | cons outCap caps ih => rw [gsoCalls, gsoNext, if_pos hdone, ih]

/-- The calls return segments one after the other, and all of them if there are enough calls with
buffers that are large enough. -/
theorem gsoCalls_spec : ∀ (caps : List ℕ) (fuel : ℕ) (it : GsoIter), it.Valid →
    it.payloadTotal - it.off < fuel → gsoCalls e it caps <+: gsoAll e fuel it ∧
      ((∀ outCap ∈ caps, it.hdrLen + it.gsoSize ≤ outCap) →
        (gsoAll e fuel it).length ≤ caps.length →
        (gsoAll e fuel it).length ≤ (gsoCalls e it caps).length) := by
  intro caps
  induction caps with
  | nil => intro fuel it _ _; exact ⟨ nil_prefix, fun _ hlen => hlen⟩
  | cons outCap caps ih =>
    intro fuel it hv hfuel
    cases hdone : it.done with
    | true =>
      rw [gsoCalls_done hdone, gsoAll_done hdone]
      exact ⟨ nil_prefix, fun _ _ => le_rfl⟩
    | false =>
      rw [gsoCalls, gsoNext, if_neg (Bool.eq_false_iff.mp hdone)]
      by_cases hcap : outCap < it.total
      · -- nothing was written, and the next call finds the same segment
        rw [if_pos hcap]
        refine ⟨(ih fuel it hv hfuel).1, fun hcaps => absurd (hcaps outCap mem_cons_self) ?_⟩
        unfold GsoIter.total GsoIter.seg at hcap
        omega
      · rw [if_neg hcap]
        cases fuel with
        | zero => omega
        | succ fuel =>
          rw [gsoAll_succ hdone]
          dsimp only
          cases hlast : it.last with
          | true =>
            rw [@gsoCalls_done e it.advance hlast, @gsoAll_done e it.advance hlast]
            exact ⟨prefix_rfl, fun _ _ => le_rfl⟩
          | false =>
            obtain ⟨hpre, hall⟩ := ih fuel it.advance (valid_advance hv)
              (Nat.lt_of_lt_of_le (left_advance hv hlast) (Nat.le_of_lt_succ hfuel))
            refine ⟨cons_prefix_cons.mpr ⟨rfl, hpre⟩, fun hcaps hlen => Nat.succ_le_succ ?_⟩
            exact hall (fun c hc => hcaps c (mem_cons_of_mem _ hc)) (Nat.le_of_succ_le_succ hlen)

end Run

/-- **The segments of a super-packet.**  Calls with buffers of any sizes return them in order, and
all of them if the buffers are large enough; their payloads make up the payload, and each has the
fields and the checksums it has to have. -/
theorem gso_split (e : Endian) {pkt : Packet} {vh : VnetHdr} {it : GsoIter}
    (h : gsoBegin pkt vh = some it) (caps : List ℕ) :
    (it.pkt = pkt ∧ it.gsoSize = vh.gsoSize.toNat ∧
      (vh.needsCsum = true → it.ipHlen = vh.csumStart.toNat)) ∧
    gsoCalls e it caps <+: gsoSplit e it ∧
    ((∀ outCap ∈ caps, it.hdrLen + it.gsoSize ≤ outCap) →
      (gsoSplit e it).length ≤ caps.length → gsoCalls e it caps = gsoSplit e it) ∧
    it.payloads (gsoSplit e it) = pkt.drop it.hdrLen ∧
    (pkt.drop it.hdrLen = [] → (gsoSplit e it).length = 1) ∧
    ∀ pre p post, gsoSplit e it = pre ++ p :: post →
      SegmentOk it pre.length (it.payloads pre).length post.isEmpty p ∧
      (it.proto = .tcp → p.getD (it.ipHlen + 13) 0 &&& (flagFin ||| flagPsh) ≠ 0 → post = []) ∧
      (it.proto = .tcp → p.getD (it.ipHlen + 13) 0 &&& flagCwr ≠ 0 → pre = []) := by
  obtain ⟨hv, hpkt, hoff, hidx, hdone, hsize, hip⟩ := valid_gsoBegin h
  have hfuel : it.payloadTotal - it.off < it.payloadTotal + 1 := by omega
  obtain ⟨hpre, hall⟩ := @gsoCalls_spec e caps _ it hv hfuel
  refine ⟨⟨hpkt, hsize, gsoIpHlen_needsCsum hip⟩, hpre,
    fun hcaps hlen => hpre.eq_of_length_le (hall hcaps hlen), ?_, fun hnil => ?_,
    fun pre p post hsplit => ?_⟩
  · have hall := @payloads_gsoAll e _ it hv hdone hfuel
    rwa [hoff, drop_zero, hpkt] at hall
  · -- no payload: the first segment is the last one
    have hlast : it.last = true := by
      have hzero : it.payloadTotal = 0 := by
        rw [GsoIter.payloadTotal, ← length_drop, hpkt, hnil]
        rfl
      simp [GsoIter.last, hzero]
    rw [gsoSplit, gsoAll_succ hdone, @gsoAll_done e it.advance hlast]
    rfl
  · have hok := segmentOk_gsoAll _ it hv hdone hfuel pre p post hsplit
    rw [hidx, hoff, Nat.zero_add, Nat.zero_add] at hok
    refine ⟨hok, fun hp hflag => ?_, fun hp hflag => ?_⟩
    · rw [hok.flags hp] at hflag
      exact isEmpty_iff.mp (segmentFlags_fin_psh hflag)
    · rw [hok.flags hp] at hflag
      exact length_eq_zero_iff.mp (segmentFlags_cwr hflag)

/-- Seven bytes of TCP over IPv4, with all of the flags that belong to one segment only. -/
def tcpFrame : Packet :=
  [0x45, 0, 0, 47, 0xff, 0xff, 0x40, 0, 64, 6, 0, 0, 10, 0, 0, 1, 10, 0, 0, 2] ++
    [0, 80, 1, 0, 0xff, 0xff, 0xff, 0xff, 0, 0, 0, 9, 0x50, 0x99, 4, 0, 0, 0, 0, 0] ++
    [1, 2, 3, 4, 5, 6, 7]

def tcpFrameHdr : VnetHdr :=
  { needsCsum := true, gsoType := gsoTcpV4, gsoSize := 3, csumStart := 20, csumOffset := 16 }

def tcpFrameIter : GsoIter :=
  { pkt := tcpFrame, hdrLen := 40, off := 0, ipHlen := 20, gsoSize := 3, ipId0 := 0xffff, idx := 0,
    seq0 := 0xffffffff, proto := .tcp, v6 := false, done := false }

theorem gso_split_seven : gsoBegin tcpFrame tcpFrameHdr = some tcpFrameIter ∧
    (gsoSplit .little tcpFrameIter).length = 3 ∧
    gsoCalls .little tcpFrameIter [43, 43, 43] = gsoSplit .little tcpFrameIter ∧
    tcpFrameIter.payloads (gsoSplit .little tcpFrameIter) = [1, 2, 3, 4, 5, 6, 7] := by
  have hbegin : gsoBegin tcpFrame tcpFrameHdr = some tcpFrameIter := by decide
  have hlen : (gsoSplit .little tcpFrameIter).length = 3 := rfl
  obtain ⟨_, _, hcalls, hpayload, _⟩ := gso_split .little hbegin [43, 43, 43]
  exact ⟨hbegin, hlen, hcalls (by decide) (Nat.le_of_eq hlen), hpayload⟩

end Mqvpn.Offload
