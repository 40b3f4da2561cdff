import Mqvpn.Endpoint.Datagram
import Mqvpn.Reorder.TxContract

/-!
# What goes in at one end comes out at the other

A frame that the tunnel entry point of one end hands to xquic is taken apart by the other
end into exactly what was framed: a packet that was not stamped is forwarded, and a stamped
one reaches the receive engine with the number, the flags and the flow of its stamp.

The first byte of a payload tells the two apart.  It cannot mislead: an entry point lets
only IPv4 and IPv6 packets through, and the type of a reorder header has neither version.

## Main definitions

* `Hop` — one direction of a tunnel: the sender and the receiver it is connected to.
* `Stamped` — the gate stamped a packet for a flow of the sender.

## Main results

* `hop_roundTrip` — **the round trip, in both directions**.
-/

namespace Mqvpn.Endpoint

open Reorder Svr List

/-! ### The gate -/

/-- The flags of a flow's next header. -/
def stampFlags (f : SendFlow) : UInt8 := if 0 < f.resetMarksLeft then flagReset else 0

/-- The gate stamped `pkt` for the flow `f` of the sender, with the header that is next for
it. -/
structure Stamped (reorderTx : Option Tx) (pkt : Packet) (env : Env) (key : FlowKey) (f : SendFlow)
    (peek : Peek) : Prop where
  parsed : parse5tuple pkt = some key
  ofKey : f.key = key
  found : ∃ tx, reorderTx = some tx ∧ (getOrCreate env.flowAlloc tx key env.nowUs).1 = some f
  hdr : peek.hdr = wireEncode typeV1 (stampFlags f) f.nextSeq

theorem txPeek_stamp {tx : Tx} {pkt : Packet} {now : UInt64} {maxInner : ℕ} {alloc : Bool}
    (h : (txPeek tx pkt now maxInner alloc).1.action = .stamp) :
    ∃ key f, parse5tuple pkt = some key ∧ (getOrCreate alloc tx key now).1 = some f ∧
      (txPeek tx pkt now maxInner alloc).1.hdr = wireEncode typeV1 (stampFlags f) f.nextSeq ∧
      hdrLen + pkt.length ≤ maxInner := by
  unfold txPeek at h ⊢
  split at h
  · cases h
  · next hmode =>
    rw [if_neg hmode]
    split at h
    · cases h
    · next key hkey =>
      simp only [hkey]
      generalize hget : getOrCreate alloc tx key now = r at h ⊢
      obtain ⟨_ | f, tx'⟩ := r
      · cases h
      · simp only at h ⊢
        split at h
        · cases h
        · next helig =>
          rw [if_neg helig]
          unfold peekFlow at h ⊢
          split at h
          · cases h
          · next hfits =>
            rw [if_neg hfits]
            exact ⟨key, f, rfl, by rw [hget], rfl, by omega⟩

variable {pkt : Packet} in
theorem rawVerdict_ne_stamp (udpMss : UInt32) (peek : Peek) :
    rawVerdict pkt udpMss ≠ .stamp peek := by
  unfold rawVerdict
  split <;> exact nofun

/-- Only a peer that takes stamped packets is sent any. -/
theorem rgateDecide_peer {reorderTx : Option Tx} {peer : Bool} {mode : Mode} {pkt : Packet}
    {now : UInt64} {udpMss : UInt32} {alloc : Bool} {peek : Peek}
    (h : (rgateDecide reorderTx peer mode pkt now udpMss alloc).1 = .stamp peek) :
    peer = true := by
  unfold rgateDecide at h
  split at h
  · exact absurd h (rawVerdict_ne_stamp _ _)
  split at h
  · next hgate => exact hgate.1
  · exact absurd h (rawVerdict_ne_stamp _ _)

variable (pkt : Packet)

/-- What the gate lets pass fits, and a stamp is that of a flow. -/
theorem rgateDecide_spec (reorderTx : Option Tx) (peer : Bool) (mode : Mode) (pkt : Packet)
    (env : Env) (udpMss : UInt32) :
    (∀ peek, (rgateDecide reorderTx peer mode pkt env.nowUs udpMss env.flowAlloc).1 = .stamp peek →
      (∃ key f, Stamped reorderTx pkt env key f peek) ∧ hdrLen + pkt.length ≤ udpMss.toNat) ∧
    ((rgateDecide reorderTx peer mode pkt env.nowUs udpMss env.flowAlloc).1 = .raw →
      udpMss = 0 ∨ pkt.length ≤ udpMss.toNat) := by
  have hfit : rawVerdict pkt udpMss = .raw → udpMss = 0 ∨ pkt.length ≤ udpMss.toNat := by
    unfold rawVerdict
    split
    · exact nofun
    · next hfits =>
      intro _
      rw [UInt32.lt_iff_toNat_lt, ← UInt32.toNat_inj] at *
      simp only [UInt32.toNat_zero] at hfits ⊢
      omega
  have hraw := @rawVerdict_ne_stamp pkt udpMss
  unfold rgateDecide
  cases reorderTx with
  | none => exact ⟨fun peek h => absurd h (hraw peek), hfit⟩
  | some tx =>
    simp only
    split
    · generalize hact : (txPeek tx pkt env.nowUs udpMss.toNat env.flowAlloc).1.action = action
      cases action with
      | stamp =>
        refine ⟨fun peek h => ?_, nofun⟩
        cases h
        obtain ⟨key, f, hkey, hget, hhdr, hfits⟩ := txPeek_stamp hact
        exact ⟨⟨key, f, hkey, getOrCreate_key hget, ⟨tx, rfl, hget⟩, hhdr⟩, hfits⟩
      | raw => exact ⟨fun peek h => absurd h (hraw peek), hfit⟩
      | dropMtu => exact ⟨nofun, nofun⟩
    · exact ⟨fun peek h => absurd h (hraw peek), hfit⟩

/-! ### Frames -/

variable {m : Masque}

theorem dgramFrame_eq_some {cap : ℕ} {sid : StreamId} {reorderHdr pkt frame : Packet}
    (h : dgramFrame m cap sid reorderHdr pkt = some frame) :
    frame = m.header sid ++ (reorderHdr ++ pkt) ∧ reorderHdr.length + pkt.length ≤ cap := by
  unfold dgramFrame at h
  simp only at h
  split at h
  · cases h
  · split at h
    · cases h
    · next hroom =>
      cases h
      exact ⟨by rw [append_assoc], by omega⟩

theorem buildFrame_eq_ok {sid : StreamId} {reorderHdr pkt frame : Packet} {heapOk : Bool}
    (h : buildFrame m sid reorderHdr pkt heapOk = .ok frame) :
    frame = m.header sid ++ (reorderHdr ++ pkt) ∧
      reorderHdr.length + pkt.length ≤ masqueFrameBuf := by
  unfold buildFrame at h
  simp only at h
  generalize hcap : (if masqueFrameBuf < dgramFrameCap pkt.length reorderHdr then masqueFrameBuf
    else dgramFrameCap pkt.length reorderHdr) = cap at h
  have hle : cap ≤ masqueFrameBuf := by
    rw [← hcap]
    split <;> omega
  have hstack : dgramStackBuf ≤ masqueFrameBuf := by decide
  split at h
  · cases h
  · split at h
    · cases h
    · next frame' hframe =>
      cases h
      obtain ⟨heq, hroom⟩ := dgramFrame_eq_some hframe
      refine ⟨heq, ?_⟩
      split at hroom <;> omega

theorem length_decTtl : (decTtl pkt).length = pkt.length := by
  unfold decTtl
  split <;> simp

/-- The decrement touches the TTL and the checksum, or the hop limit. -/
theorem getD_decTtl {i : ℕ} (h7 : ipVer pkt ≠ 4 → i ≠ 7) (h8 : i ≠ 8) (h10 : i ≠ 10)
    (h11 : i ≠ 11) :
    (decTtl pkt).getD i 0 = pkt.getD i 0 := by
  unfold decTtl
  split
  · simp [getD_eq_getElem?_getD, getElem?_set_ne (Ne.symm h8),
      getElem?_set_ne (Ne.symm h10), getElem?_set_ne (Ne.symm h11)]
  · next hver => simp [getD_eq_getElem?_getD, getElem?_set_ne (Ne.symm (h7 hver))]

theorem ipVer_decTtl : ipVer (decTtl pkt) = ipVer pkt := by
  unfold ipVer
  rw [getD_decTtl pkt (by omega) (by omega) (by omega) (by omega)]

theorem decTtlInFrame_append (front pkt : Packet) :
    decTtlInFrame (front ++ pkt) pkt.length = front ++ decTtl pkt := by
  have hoff : (front ++ pkt).length - pkt.length = front.length := by
    rw [length_append]
    omega
  rw [decTtlInFrame, hoff, take_left, drop_left]

/-! ### The flow of a packet does not depend on its TTL -/

section
variable {p q : Packet} {lo : ℕ}

theorem byteAt_eq_of_drop (h : p.drop lo = q.drop lo) {i : ℕ} (hi : lo ≤ i) :
    byteAt p i = byteAt q i := by
  have hshift : ∀ l : Packet, l.getD i 0 = (l.drop lo).getD (i - lo) 0 := by
    intro l
    rw [getD_eq_getElem?_getD, getD_eq_getElem?_getD, getElem?_drop,
      Nat.add_sub_cancel' hi]
  rw [byteAt, byteAt, hshift, hshift, h]

theorem portAt_eq_of_drop (h : p.drop lo = q.drop lo) {off : ℕ} (hoff : lo ≤ off) :
    portAt p off = portAt q off := by
  rw [portAt, portAt, byteAt_eq_of_drop h hoff, byteAt_eq_of_drop h (by omega)]

theorem addrAt_eq_of_drop (h : p.drop lo = q.drop lo) {off : ℕ} (hoff : lo ≤ off) (n : ℕ) :
    addrAt p off n = addrAt q off n := by
  have hdrop : p.drop off = q.drop off := by
    rw [← Nat.add_sub_cancel' hoff, ← drop_drop, ← drop_drop, h]
  rw [addrAt, addrAt, hdrop]

/-- The walk over the extension headers reads the addresses and what follows them. -/
theorem walkV6_eq_of_drop (hlen : p.length = q.length) (h : p.drop 8 = q.drop 8) :
    ∀ n next off : ℕ, 8 ≤ off → walkV6 p n next off = walkV6 q n next off := by
  intro n
  induction n with
  | zero => intro next off _; rfl
  | succ n ih =>
    intro next off hoff
    simp only [walkV6, hlen, portAt_eq_of_drop h hoff, byteAt_eq_of_drop h hoff,
      portAt_eq_of_drop h (Nat.le_add_right_of_le hoff), addrAt_eq_of_drop h (Nat.le_refl 8),
      addrAt_eq_of_drop h (by decide : 8 ≤ 24), byteAt_eq_of_drop h (Nat.le_add_right_of_le hoff),
      ih _ _ (Nat.le_add_right_of_le hoff)]

/-- The IPv4 branch reads neither the TTL nor the checksum. -/
theorem parseV4_eq_of_drop (hlen : p.length = q.length) (h : p.drop 12 = q.drop 12)
    (h0 : byteAt p 0 = byteAt q 0) (h6 : byteAt p 6 = byteAt q 6) (h7 : byteAt p 7 = byteAt q 7)
    (h9 : byteAt p 9 = byteAt q 9) : parseV4 p = parseV4 q := by
  simp only [parseV4, hlen, h0, h6, h7, h9, addrAt_eq_of_drop h (Nat.le_refl 12),
    addrAt_eq_of_drop h (by decide : 12 ≤ 16)]
  by_cases hihl : (byteAt q 0 &&& 0x0f) < 5 ∨ q.length < (byteAt q 0 &&& 0x0f) * 4
  · simp only [hihl, if_true]
  · -- the ports lie behind a header of at least twenty bytes
    have hhdr : 12 ≤ (byteAt q 0 &&& 0x0f) * 4 := by omega
    rw [portAt_eq_of_drop h hhdr, portAt_eq_of_drop h (Nat.le_add_right_of_le hhdr)]

end

variable {n : ℕ}

theorem drop_decTtl (h4 : ipVer pkt = 4 → 12 ≤ n) (h6 : 8 ≤ n) :
    (decTtl pkt).drop n = pkt.drop n := by
  unfold decTtl
  split
  · next hver =>
    have := h4 hver
    rw [drop_set_of_lt (by omega), drop_set_of_lt (by omega),
      drop_set_of_lt (by omega)]
  · rw [drop_set_of_lt (by omega)]

theorem byteAt_zero_shift_eq_iff (v : UInt8) : byteAt pkt 0 >>> 4 = v.toNat ↔ ipVer pkt = v := by
  rw [← UInt8.toNat_inj, ipVer, UInt8.toNat_shiftRight]
  rfl

theorem parse5tuple_decTtl : parse5tuple (decTtl pkt) = parse5tuple pkt := by
  have hbyte : ∀ i, (ipVer pkt ≠ 4 → i ≠ 7) → i ≠ 8 → i ≠ 10 → i ≠ 11 →
      byteAt (decTtl pkt) i = byteAt pkt i := by
    intro i h7 h8 h10 h11
    rw [byteAt, getD_decTtl pkt h7 h8 h10 h11, byteAt]
  have h0 := hbyte 0 (by omega) (by omega) (by omega) (by omega)
  have h6 := hbyte 6 (by omega) (by omega) (by omega) (by omega)
  unfold parse5tuple parseL3l4
  simp only [length_decTtl, h0]
  by_cases hv4 : byteAt pkt 0 >>> 4 = 4
  · have hver : ipVer pkt = 4 := (byteAt_zero_shift_eq_iff pkt 4).mp hv4
    rw [if_pos hv4, if_pos hv4, parseV4_eq_of_drop (length_decTtl pkt)
      (drop_decTtl pkt (fun _ => Nat.le_refl 12) (by omega)) h0 h6
      (hbyte 7 (fun h => absurd hver h) (by omega) (by omega) (by omega))
      (hbyte 9 (by omega) (by omega) (by omega) (by omega))]
  · have hver : ipVer pkt ≠ 4 := fun h => hv4 ((byteAt_zero_shift_eq_iff pkt 4).mpr h)
    rw [if_neg hv4, if_neg hv4, h6, walkV6_eq_of_drop (length_decTtl pkt)
      (drop_decTtl pkt (fun h => absurd h hver) (Nat.le_refl 8)) _ _ _ (by decide)]

/-! ### What is sent -/

/-- What a frame that was sent for a packet is made of: `v` is the verdict of the gate, and
`inner` are the bytes that stand for the packet in the frame. -/
structure Framed (m : Masque) (sid : StreamId) (v : Verdict) (inner : Packet) (sent : Sent)
    (frame : Packet) : Prop where
  passed : v = .raw ∨ ∃ peek, v = .stamp peek
  frame_eq : frame = m.header sid ++ (v.hdr ++ inner)
  bounded : v.hdr.length + inner.length ≤ masqueFrameBuf
  nonempty : inner ≠ []
  version : ipVer inner = 4 ∨ ipVer inner = 6
  noIcmp : sent.icmp = none

variable {conn : TunConn}

theorem ipVer_of_tunValidateSrc {pkt : Packet} (h : tunValidateSrc conn pkt = true) :
    ipVer pkt = 4 ∨ ipVer pkt = 6 := by
  unfold tunValidateSrc at h
  split at h
  · next hver => exact .inl hver
  · split at h
    · next hver => exact .inr hver
    · cases h

variable {env : Env} {c : TunClient} {v : Verdict}

/-- Whatever the send yields, a frame that went out is the one that was built. -/
theorem clientSendOnce_frames {built frame : Packet}
    (h : frame ∈ (clientSendOnce c conn v built env).2.frames) :
    frame = built ∧ (clientSendOnce c conn v built env).2.icmp = none := by
  unfold clientSendOnce at h ⊢
  cases hsend : env.send with
  | ok =>
    simp only [hsend, mem_singleton] at h
    exact ⟨h, rfl⟩
  | again | error => simp [hsend] at h

theorem tunSendRedundant_frames {built frame : Packet} {copies : List SendResult}
    {r : TunClient × Sent} (hr : tunSendRedundant c built copies = some r)
    (h : frame ∈ r.2.frames) :
    frame = built ∧ r.2.icmp = none := by
  unfold tunSendRedundant at hr
  simp only at hr
  split at hr
  · cases hr
    exact ⟨eq_of_mem_replicate h, rfl⟩
  · split at hr
    · cases hr
      simp at h
    · cases hr

theorem tunSendDatagram_frames {pkt frame : Packet}
    (h : frame ∈ (tunSendDatagram m c conn pkt v env).2.frames) :
    frame = m.header conn.masqueStreamId ++ (v.hdr ++ pkt) ∧
      v.hdr.length + pkt.length ≤ masqueFrameBuf ∧
      (tunSendDatagram m c conn pkt v env).2.icmp = none := by
  unfold tunSendDatagram at h ⊢
  split at h
  · simp at h
  · next hlen =>
    rw [if_neg hlen]
    split at h
    · simp at h
    · next built hbuilt =>
      obtain ⟨heq, hle⟩ := buildFrame_eq_ok hbuilt
      rw [← heq, and_left_comm]
      refine ⟨hle, ?_⟩
      split at h
      · next hred =>
        rw [if_pos hred]
        split at h
        · next hr => exact tunSendRedundant_frames hr h
        · exact clientSendOnce_frames h
      · next hred =>
        rw [if_neg hred]
        exact clientSendOnce_frames h

/-- Every check that fails sends nothing. -/
theorem clientOnTunPacket_cases (m : Masque) (c : TunClient) (pkt : Packet) (env : Env) :
    (clientOnTunPacket m c pkt env).2.frames = [] ∨
      ∃ conn, c.conn = some conn ∧ pkt ≠ [] ∧ (ipVer pkt = 4 ∨ ipVer pkt = 6) ∧
        clientOnTunPacket m c pkt env = clientGated m c conn pkt env := by
  unfold clientOnTunPacket
  split
  · exact .inl rfl
  next hlen =>
  split
  · exact .inl rfl
  next conn hconn =>
  split
  · exact .inl rfl
  split
  · exact .inl rfl
  split
  · exact .inl rfl
  split
  · exact .inl rfl
  next hsrc =>
  split
  · exact .inl rfl
  have hne : pkt ≠ [] := fun hnil => hlen (by rw [hnil]; rfl)
  exact .inr ⟨conn, hconn, hne, ipVer_of_tunValidateSrc (by simpa using hsrc), rfl⟩

theorem clientOnTunPacket_frames {pkt frame : Packet}
    (h : frame ∈ (clientOnTunPacket m c pkt env).2.frames) :
    ∃ conn, c.conn = some conn ∧
      Framed m conn.masqueStreamId (clientGate m c conn pkt env).1 pkt
        (clientOnTunPacket m c pkt env).2 frame := by
  obtain hnil | ⟨conn, hconn, hne, hver, heq⟩ := clientOnTunPacket_cases m c pkt env
  · rw [hnil] at h
    cases h
  refine ⟨conn, hconn, ?_⟩
  rw [heq] at h ⊢
  unfold clientGated at h ⊢
  simp only at h ⊢
  cases hv : (clientGate m c conn pkt env).1 with
  | dropReorderMtu | dropRawMtu => simp [hv, clientTooBig] at h
  | raw | stamp =>
    rw [hv] at h
    obtain ⟨heq, hle, hicmp⟩ := tunSendDatagram_frames h
    exact ⟨by simp, heq, hle, hne, hver, hicmp⟩

/-! #### The server -/

theorem decTtl_ne_nil {pkt : Packet} (h : pkt ≠ []) : decTtl pkt ≠ [] := by
  rw [← length_pos_iff] at h ⊢
  rwa [length_decTtl]

variable {s : TunServer}

theorem serverSend_frames {off : ℕ} {target : TunSession} {pkt frame : Packet}
    (h : frame ∈ (serverSend m s off target pkt v env).2.frames) :
    frame = m.header target.masqueStreamId ++ (v.hdr ++ decTtl pkt) ∧
      v.hdr.length + (decTtl pkt).length ≤ masqueFrameBuf ∧
      (serverSend m s off target pkt v env).2.icmp = none := by
  unfold serverSend at h ⊢
  split at h
  · simp at h
  next hlen =>
  rw [if_neg hlen]
  split at h
  · simp [serverIcmp] at h
  next httl =>
  rw [if_neg httl]
  split at h
  · simp at h
  next built hbuilt =>
  obtain ⟨heq, hle⟩ := buildFrame_eq_ok hbuilt
  cases hsend : env.send with
  | ok =>
    simp only [hsend, mem_singleton] at h
    rw [h, heq, length_decTtl, ← append_assoc, decTtlInFrame_append, append_assoc]
    exact ⟨rfl, hle, rfl⟩
  | again | error => simp [hsend] at h

theorem offsetOf_eq_some {pkt : Packet} {off : ℕ} (h : s.offsetOf pkt = some off) :
    ipVer pkt = 4 ∨ ipVer pkt = 6 := by
  unfold TunServer.offsetOf at h
  simp only at h
  split at h
  · next hver => exact .inl hver.1
  · split at h
    · next hver => exact .inr hver.1
    · cases h

theorem serverOnTunPacket_cases (m : Masque) (s : TunServer) (pkt : Packet) (env : Env) :
    (serverOnTunPacket m s pkt env).2.frames = [] ∨
      ∃ off target, s.offsetOf pkt = some off ∧ s.target off = some target ∧ pkt ≠ [] ∧
        serverOnTunPacket m s pkt env = serverGated m s off target pkt env := by
  unfold serverOnTunPacket
  split
  · exact .inl rfl
  next hlen =>
  split
  · exact .inl rfl
  split
  · exact .inl rfl
  next off hoff =>
  split
  · exact .inl rfl
  next target htarget =>
  exact .inr ⟨off, target, hoff, htarget, fun hnil => hlen (by rw [hnil]; rfl), rfl⟩

theorem serverOnTunPacket_frames {pkt frame : Packet}
    (h : frame ∈ (serverOnTunPacket m s pkt env).2.frames) :
    ∃ off target, s.offsetOf pkt = some off ∧ s.target off = some target ∧
      Framed m target.masqueStreamId (serverGate m s target pkt env).1 (decTtl pkt)
        (serverOnTunPacket m s pkt env).2 frame := by
  obtain hnil | ⟨off, target, hoff, htarget, hne, heq⟩ := serverOnTunPacket_cases m s pkt env
  · rw [hnil] at h
    cases h
  refine ⟨off, target, hoff, htarget, ?_⟩
  have hver : ipVer (decTtl pkt) = 4 ∨ ipVer (decTtl pkt) = 6 := by
    rw [ipVer_decTtl]
    exact offsetOf_eq_some hoff
  rw [heq] at h ⊢
  unfold serverGated at h ⊢
  simp only at h ⊢
  cases hv : (serverGate m s target pkt env).1 with
  | dropReorderMtu | dropRawMtu => simp [hv, serverIcmp] at h
  | raw | stamp =>
    rw [hv] at h
    obtain ⟨heq, hle, hicmp⟩ := serverSend_frames h
    exact ⟨by simp, heq, hle, decTtl_ne_nil hne, hver, hicmp⟩

/-! ### What is received -/

theorem classifyByte_of_ipVer {b : UInt8} (h : b >>> 4 = 4 ∨ b >>> 4 = 6) :
    classifyByte b = .raw := by
  unfold classifyByte
  simp only
  rw [if_pos h]

theorem dispatch_raw {inner : Packet} (hne : inner ≠ []) (hver : ipVer inner = 4 ∨ ipVer inner = 6)
    (rx : Option Rx) (now : UInt64) (alloc : Alloc) :
    dispatch rx inner now alloc = .forwarded inner := by
  cases inner with
  | nil => exact absurd rfl hne
  | cons b rest =>
    unfold dispatch
    simp only [classifyByte_of_ipVer (b := b) hver]

/-- The engine takes the packet behind a header with the number and the flags in it; it
turns away what is longer than any IP packet of the first kind. -/
theorem onPacket_wireEncode (rx : Rx) (flags : UInt8) (seq : ℕ) {inner : Packet} (hne : inner ≠ [])
    (now : UInt64) (alloc : Alloc) :
    onPacket rx (wireEncode typeV1 flags seq ++ inner) now alloc =
      if inner.length ≤ 65535 then onInner rx (seq % 2 ^ 48) flags inner now alloc else rx := by
  have hdrop : (wireEncode typeV1 flags seq ++ inner).drop hdrLen = inner := rfl
  have hpos : inner.length ≠ 0 := fun h => hne (eq_nil_of_length_eq_zero h)
  unfold onPacket
  simp only [wireDecode_wireEncode, hdrop, ne_eq, not_true_eq_false, if_false]
  by_cases hlen : inner.length ≤ 65535
  · rw [if_pos hlen, if_neg (by omega)]
  · rw [if_neg hlen, if_pos (by omega)]

theorem dispatch_stamped (rx : Rx) (flags : UInt8) (seq : ℕ) {inner : Packet} (hne : inner ≠ [])
    (now : UInt64) (alloc : Alloc) :
    dispatch (some rx) (wireEncode typeV1 flags seq ++ inner) now alloc =
      .reordered (if inner.length ≤ 65535 then onInner rx (seq % 2 ^ 48) flags inner now alloc
        else rx) := by
  rw [← onPacket_wireEncode rx flags seq hne now alloc]
  rfl

/-! ### One direction of a tunnel -/

/-- A sender, and the tunnel of the receiver its frames arrive at. -/
inductive Hop where
  /-- From the client to the server. -/
  | up (sender : TunClient) (receiver : TunSession)
  /-- From the server to the client; `tunActive` tells whether the client takes datagrams. -/
  | down (sender : TunServer) (tunActive : Bool)
  deriving DecidableEq

/-- What a sender uses for a packet: the stream, the datagram size and the sender's table. -/
structure Lane where
  sid : StreamId
  dgramMss : ℕ
  reorderTx : Option Tx
  deriving DecidableEq

def TunServer.sessionOf (s : TunServer) (pkt : Packet) : Option TunSession :=
  (s.offsetOf pkt).bind s.target

def Hop.lane (pkt : Packet) : Hop → Option Lane
  | .up c _ => c.conn.map fun conn => ⟨conn.masqueStreamId, conn.dgramMss, conn.reorderTx⟩
  | .down s _ => (s.sessionOf pkt).map fun t => ⟨t.masqueStreamId, t.dgramMss, t.reorderTx⟩

def Hop.verdict (m : Masque) (pkt : Packet) (env : Env) : Hop → Option Verdict
  | .up c _ => c.conn.map fun conn => (clientGate m c conn pkt env).1
  | .down s _ => (s.sessionOf pkt).map fun t => (serverGate m s t pkt env).1

/-- The tunnel entry point. -/
def Hop.send (m : Masque) (pkt : Packet) (env : Env) : Hop → Sent
  | .up c _ => (clientOnTunPacket m c pkt env).2
  | .down s _ => (serverOnTunPacket m s pkt env).2

/-- The inner bytes that are framed: the server decrements the TTL. -/
def Hop.inner (pkt : Packet) : Hop → Packet
  | .up _ _ => pkt
  | .down _ _ => decTtl pkt

/-- The receiver takes the datagrams of this tunnel. -/
def Hop.Live : Hop → Prop
  | .up c r => r.tunnelEstablished = true ∧ ∀ conn ∈ c.conn, conn.masqueStreamId = r.masqueStreamId
  | .down _ tunActive => tunActive = true

def Hop.receive (m : Masque) (rx : Option Rx) (data : Packet) (now : UInt64) (alloc : Alloc) :
    Hop → Received
  | .up _ r => serverDgramRead m r rx data now alloc
  | .down _ tunActive => clientDgramRead m tunActive rx data now alloc

namespace Hop

/-- What the gate of either side lets pass fits into the room of its lane. -/
theorem verdict_spec {pkt : Packet} {hop : Hop} {lane : Lane} (hlane : hop.lane pkt = some lane)
    (hv : hop.verdict m pkt env = some v) :
    (∀ peek, v = .stamp peek → (∃ key f, Stamped lane.reorderTx pkt env key f peek) ∧
      hdrLen + pkt.length ≤ (UInt32.ofNat (roomFor m lane.dgramMss lane.sid)).toNat) ∧
    (v = .raw → UInt32.ofNat (roomFor m lane.dgramMss lane.sid) = 0 ∨
      pkt.length ≤ (UInt32.ofNat (roomFor m lane.dgramMss lane.sid)).toNat) := by
  cases hop with
  | up c r =>
    obtain ⟨conn, hconn, rfl⟩ := Option.map_eq_some_iff.mp hlane
    simp only [verdict, hconn, Option.map_some, Option.some.injEq] at hv
    subst hv
    unfold clientGate
    simp only
    split
    · -- a redundant packet is never stamped
      have hnone := rgateDecide_spec none false .off pkt env
        (UInt32.ofNat (roomFor m conn.dgramMss conn.masqueStreamId))
      refine ⟨fun peek hpeek => ?_, hnone.2⟩
      obtain ⟨⟨key, f, hstamped⟩, -⟩ := hnone.1 peek hpeek
      obtain ⟨tx, htx, -⟩ := hstamped.found
      cases htx
    · exact rgateDecide_spec conn.reorderTx conn.peerReorderSupported c.reorderMode pkt env _
  | down s tunActive =>
    obtain ⟨t, ht, rfl⟩ := Option.map_eq_some_iff.mp hlane
    simp only [verdict, ht, Option.map_some, Option.some.injEq] at hv
    subst hv
    exact rgateDecide_spec t.reorderTx t.peerReorderSupported s.reorderMode pkt env _

theorem length_inner (hop : Hop) (pkt : Packet) : (hop.inner pkt).length = pkt.length := by
  cases hop with
  | up => rfl
  | down => exact length_decTtl pkt

theorem parse5tuple_inner (hop : Hop) (pkt : Packet) :
    parse5tuple (hop.inner pkt) = parse5tuple pkt := by
  cases hop with
  | up => rfl
  | down => exact parse5tuple_decTtl pkt

/-- What a sent frame is made of, on either side. -/
theorem frames_spec {pkt frame : Packet} {hop : Hop} (h : frame ∈ (hop.send m pkt env).frames) :
    ∃ lane v, hop.lane pkt = some lane ∧ hop.verdict m pkt env = some v ∧
      Framed m lane.sid v (hop.inner pkt) (hop.send m pkt env) frame := by
  cases hop with
  | up c r =>
    obtain ⟨conn, hconn, hframed⟩ := clientOnTunPacket_frames h
    exact ⟨_, _, by rw [lane, hconn]; rfl, by rw [verdict, hconn]; rfl, hframed⟩
  | down s tunActive =>
    obtain ⟨off, target, hoff, htarget, hframed⟩ := serverOnTunPacket_frames h
    have hsession : s.sessionOf pkt = some target := by
      rw [TunServer.sessionOf, hoff, Option.bind_some, htarget]
    exact ⟨_, _, by rw [lane, hsession]; rfl, by rw [verdict, hsession]; rfl, hframed⟩

/-- A live receiver takes the payload out of a frame of its tunnel. -/
theorem receive_frame {pkt : Packet} {hop : Hop} {lane : Lane} (hlive : hop.Live)
    (hlane : hop.lane pkt = some lane) (payload : Packet) (rx : Option Rx) (now : UInt64)
    (alloc : Alloc) :
    hop.receive m rx (m.header lane.sid ++ payload) now alloc = dispatch rx payload now alloc := by
  cases hop with
  | up c r =>
    obtain ⟨conn, hconn, rfl⟩ := Option.map_eq_some_iff.mp hlane
    have hsid := hlive.2 conn (by rw [hconn]; rfl)
    unfold receive serverDgramRead
    simp [hlive.1, m.unframe_header, hsid]
  | down s tunActive =>
    have hactive : tunActive = true := hlive
    unfold receive clientDgramRead
    simp [hactive, m.unframe_header]

end Hop

/-! ### The round trip -/

/-- What the receiver of a hop makes of a frame. -/
def Hop.Recovers (m : Masque) (hop : Hop) (pkt : Packet) (env : Env) (lane : Lane)
    (frame : Packet) :
    Verdict → Prop
  | .raw => ∀ rx now alloc, hop.receive m rx frame now alloc = .forwarded (hop.inner pkt)
  | .stamp peek =>
      ∃ key f, Stamped lane.reorderTx pkt env key f peek ∧
        parse5tuple (hop.inner pkt) = some key ∧
        ∀ rx now alloc, hop.receive m (some rx) frame now alloc =
          .reordered (if (hop.inner pkt).length ≤ 65535 then
            onInner rx (f.nextSeq % 2 ^ 48) (stampFlags f) (hop.inner pkt) now alloc else rx)
  | _ => False

/-- **The round trip.**  Whatever the gate of a sender lets pass, the receiver dispatches to
the matching branch with the inner bytes that were framed: a packet left as it is is
forwarded, and a stamped one reaches the engine with the number, the flags and the key of
its flow.  The payload is within the room of the connection if that is known, and a packet
that is sent is not answered by any message. -/
theorem hop_roundTrip (m : Masque) (hop : Hop) (pkt : Packet) (env : Env) (frame : Packet)
    (hsent : frame ∈ (hop.send m pkt env).frames) (hlive : hop.Live) :
    ∃ lane v, hop.lane pkt = some lane ∧ hop.verdict m pkt env = some v ∧
      frame = m.header lane.sid ++ (v.hdr ++ hop.inner pkt) ∧
      (roomFor m lane.dgramMss lane.sid ≠ 0 →
        (v.hdr ++ hop.inner pkt).length ≤ roomFor m lane.dgramMss lane.sid) ∧
      (hop.send m pkt env).icmp = none ∧
      hop.Recovers m pkt env lane frame v := by
  obtain ⟨lane, v, hlane, hv, hframed⟩ := Hop.frames_spec hsent
  obtain ⟨hstamp, hraw⟩ := Hop.verdict_spec hlane hv
  have hreceive := Hop.receive_frame (m := m) hlive hlane
  have hframe := hframed.frame_eq
  refine ⟨lane, v, hlane, hv, hframe, fun hroom => ?_, hframed.noIcmp, ?_⟩
  · -- the room is cut to 32 bits, which no frame exceeds
    have hbounded : v.hdr.length + (hop.inner pkt).length ≤ 65552 := hframed.bounded
    have hcut : (UInt32.ofNat (roomFor m lane.dgramMss lane.sid)).toNat =
        roomFor m lane.dgramMss lane.sid % 2 ^ 32 := UInt32.toNat_ofNat'
    rw [length_append]
    rw [hop.length_inner] at hbounded ⊢
    obtain rfl | ⟨peek, rfl⟩ := hframed.passed
    · have hhdr : (Verdict.raw).hdr.length = 0 := rfl
      obtain hzero | hfits := hraw rfl
      · have := congrArg UInt32.toNat hzero
        rw [hcut, UInt32.toNat_zero] at this
        omega
      · omega
    · obtain ⟨⟨key, f, hst⟩, hfits⟩ := hstamp peek rfl
      have hhdr : (Verdict.stamp peek).hdr.length = hdrLen := by
        rw [Verdict.hdr, hst.hdr]
        rfl
      omega
  · obtain rfl | ⟨peek, rfl⟩ := hframed.passed
    · intro rx now alloc
      rw [hframe, hreceive]
      exact dispatch_raw hframed.nonempty hframed.version rx now alloc
    · obtain ⟨⟨key, f, hst⟩, -⟩ := hstamp peek rfl
      refine ⟨key, f, hst, by rw [hop.parse5tuple_inner, hst.parsed], fun rx now alloc => ?_⟩
      rw [hframe, hreceive, Verdict.hdr, hst.hdr]
      exact dispatch_stamped rx (stampFlags f) f.nextSeq hframed.nonempty now alloc

/-- A client that stamps, its sender new, on a connection with a datagram size. -/
def sampleClient (dgramMss : ℕ) : TunClient where
  conn := some
    { tunnelOk := true, assignedIp := some [10, 0, 0, 1], assignedIp6 := none, masqueStreamId := 0,
      dgramMss := dgramMss, reorderTx := some (Tx.initial sampleConfig 1 16),
      peerReorderSupported := true, redundantTx := false }
  backpressure := false
  reorderMode := .on
  redundantPorts := []
  ptbBucket := { tokens := 10, refillMs := 0 }

/-- The tunnel of that client at the server. -/
def sampleSession : TunSession where
  tunnelEstablished := true
  masqueStreamId := 0
  dgramMss := 1400
  reorderTx := none
  peerReorderSupported := true

/-- Nothing fails. -/
def sampleEnv : Env where
  nowUs := 1000
  sentUs := 1001
  nowMs := 1
  flowAlloc := true
  heapOk := true
  tcpLane := false
  copies := []
  send := .ok

def sampleHop (dgramMss : ℕ) : Hop := .up (sampleClient dgramMss) sampleSession

/-- The frame of the first packet of a flow. -/
def sampleFrame : Packet :=
  Masque.standard.header 0 ++ (wireEncode typeV1 flagReset 0 ++ sampleInner 5000 4)

theorem hop_roundTrip_stamped :
    (sampleHop 1400).verdict .standard (sampleInner 5000 4) sampleEnv ≠ some .raw ∧
    ∃ lane v, (sampleHop 1400).lane (sampleInner 5000 4) = some lane ∧
      (sampleHop 1400).verdict .standard (sampleInner 5000 4) sampleEnv = some v ∧
      sampleFrame = Masque.standard.header lane.sid ++
        (v.hdr ++ (sampleHop 1400).inner (sampleInner 5000 4)) ∧
      (roomFor .standard lane.dgramMss lane.sid ≠ 0 →
        (v.hdr ++ (sampleHop 1400).inner (sampleInner 5000 4)).length ≤
          roomFor .standard lane.dgramMss lane.sid) ∧
      ((sampleHop 1400).send .standard (sampleInner 5000 4) sampleEnv).icmp = none ∧
      (sampleHop 1400).Recovers .standard (sampleInner 5000 4) sampleEnv lane sampleFrame v :=
  ⟨by decide +kernel,
    hop_roundTrip .standard (sampleHop 1400) (sampleInner 5000 4) sampleEnv sampleFrame
      (by decide +kernel) ⟨rfl, fun conn hconn => by cases hconn; rfl⟩⟩

/-! ### The two exceptions -/

theorem length_sampleInner (sport : UInt16) (n : ℕ) : (sampleInner sport n).length = 28 + n := by
  simp [sampleInner]
  omega

theorem ipVer_sampleInner (n : ℕ) : ipVer (sampleInner 5000 n) = 4 := by
  have hhead : (sampleInner 5000 n).getD 0 0 = 0x45 := by simp [sampleInner]
  rw [ipVer, hhead]
  decide

/-- The padding of a sample packet does not matter to the parser. -/
theorem parse5tuple_sampleInner (n : ℕ) :
    parse5tuple (sampleInner 5000 n) = some (sampleKey 5000) := by
  have hkey : sampleKey 5000 =
      { ipVersion := 4, proto := 17, srcPort := 5000, dstPort := 443,
        srcIp := [10, 0, 0, 1, 0, 0, 0, 0, 0, 0, 0, 0, 0, 0, 0, 0],
        dstIp := [10, 0, 0, 2, 0, 0, 0, 0, 0, 0, 0, 0, 0, 0, 0, 0] } := by decide +kernel
  have h20 : ¬ 28 + n < 20 := by omega
  have h28 : ¬ 28 + n < 28 := by omega
  have h1 : ¬ 28 + n < 1 := by omega
  rw [hkey]
  simp only [parse5tuple, parseL3l4, parseV4, length_sampleInner]
  simp [h20, h28, h1, byteAt, sampleInner, portAt, addrAt, transportVerdict, l4Min, ipprotoTcp,
    ipprotoUdp]

/-- The peek of the sample client at a sample packet. -/
def samplePeek : Peek where
  action := .stamp
  hdr := wireEncode typeV1 flagReset 0
  flow := some (sampleKey 5000)

/-- The sample client stamps a packet that fits with its header. -/
theorem txPeek_sampleInner {n maxInner : ℕ} (h : 36 + n ≤ maxInner) :
    (txPeek (Tx.initial sampleConfig 1 16) (sampleInner 5000 n) 1000 maxInner true).1 =
      samplePeek := by
  obtain ⟨f, hget, helig, hseq, hmarks, hkey⟩ : ∃ f,
      (getOrCreate true (Tx.initial sampleConfig 1 16) (sampleKey 5000) 1000).1 = some f ∧
        f.eligible = true ∧ f.nextSeq = 0 ∧ 0 < f.resetMarksLeft ∧ f.key = sampleKey 5000 :=
    ⟨newSendFlow sampleConfig (sampleKey 5000) 1000, by decide +kernel⟩
  have hfits : ¬ maxInner < hdrLen + (28 + n) := by
    rw [hdrLen]
    omega
  unfold txPeek
  rw [if_neg (by decide), parse5tuple_sampleInner]
  simp only
  generalize getOrCreate true (Tx.initial sampleConfig 1 16) (sampleKey 5000) 1000 = r at hget ⊢
  obtain ⟨o, tx⟩ := r
  simp only at hget
  subst hget
  simp [helig, peekFlow, length_sampleInner, hfits, hseq, hmarks, hkey, samplePeek]

theorem clientGate_sampleInner (hn : n ≤ 65508) (hconn : (sampleClient 65600).conn = some conn) :
    (clientGate .standard (sampleClient 65600) conn (sampleInner 5000 n) sampleEnv).1 =
      .stamp samplePeek := by
  cases hconn
  have hroom : UInt32.ofNat (roomFor .standard 65600 0) = 65598 := by decide +kernel
  unfold clientGate
  simp only [TunClient.isRedundant, Bool.false_and, Bool.false_eq_true, if_false, hroom,
    rgateDecide]
  have hpeek := @txPeek_sampleInner n (65598 : UInt32).toNat (by simp; omega)
  rw [if_pos (by decide)]
  simp only [sampleEnv, hpeek]
  rfl

/-- The frame of a sample packet, stamped. -/
def stampedFrame (n : ℕ) : Packet :=
  Masque.standard.header 0 ++ samplePeek.hdr ++ sampleInner 5000 n

theorem buildFrame_sampleInner (hn : n ≤ 65508) :
    buildFrame .standard 0 samplePeek.hdr (sampleInner 5000 n) true = .ok (stampedFrame n) := by
  have hhdr : samplePeek.hdr.length = 8 := rfl
  have hmasque : (Masque.standard.header 0).length = 2 := by decide +kernel
  have hcap : dgramFrameCap (28 + n) samplePeek.hdr = 45 + n := by
    rw [dgramFrameCap, hhdr, masqueHdrMax]
    omega
  have hframe : ∀ cap, 38 + n ≤ cap →
      dgramFrame .standard cap 0 samplePeek.hdr (sampleInner 5000 n) = some (stampedFrame n) := by
    intro cap hcap
    unfold dgramFrame
    simp only [hmasque, hhdr, length_sampleInner]
    rw [if_neg (by omega), if_neg (by omega)]
    rfl
  unfold buildFrame
  simp only [length_sampleInner, hcap, masqueFrameBuf, packetBufSize, dgramStackBuf, Bool.not_true,
    Bool.false_eq_true, and_false, if_false]
  rw [hframe _ (by split <;> split <;> omega)]

theorem send_sampleInner (hn : n ≤ 65508) :
    ((sampleHop 65600).send .standard (sampleInner 5000 n) sampleEnv).frames =
      [stampedFrame n] := by
  obtain ⟨conn, hconn⟩ : ∃ conn, (sampleClient 65600).conn = some conn := ⟨_, rfl⟩
  have hgate := clientGate_sampleInner hn hconn
  have hsrc : tunValidateSrc conn (sampleInner 5000 n) = true := by
    cases hconn
    unfold tunValidateSrc
    rw [if_pos (ipVer_sampleInner n)]
    simp [sampleInner]
  change (clientOnTunPacket _ _ _ _).2.frames = _
  unfold clientOnTunPacket
  rw [if_neg (by rw [length_sampleInner]; omega), hconn]
  simp only [hsrc]
  cases hconn
  rw [if_neg (by decide), if_neg (by decide), if_neg (by rw [length_sampleInner]; omega),
    if_neg (by decide), if_neg (by decide)]
  unfold clientGated
  simp only [hgate]
  unfold tunSendDatagram
  rw [if_neg (by rw [length_sampleInner, packetBufSize]; omega)]
  simp only [Verdict.hdr, sampleEnv, buildFrame_sampleInner hn]
  rfl

/-- **Where the round trip ends short.**  While the room of the connection is not known, a
payload of any length is sent; and a stamped packet of 65536 bytes is within the buffers of
the sender, but the engine of the receiver takes at most 65535. -/
theorem roundTrip_exceptions :
    (∃ frame ∈ ((sampleHop 0).send .standard (sampleInner 5000 4) sampleEnv).frames,
      frame = Masque.standard.header 0 ++ sampleInner 5000 4 ∧
        roomFor .standard 0 0 < (sampleInner 5000 4).length) ∧
    (stampedFrame 65508 ∈ ((sampleHop 65600).send .standard (sampleInner 5000 65508)
        sampleEnv).frames ∧
      (samplePeek.hdr ++ sampleInner 5000 65508).length ≤ roomFor .standard 65600 0 ∧
      ∀ rx now alloc,
        (sampleHop 65600).receive .standard (some rx) (stampedFrame 65508) now alloc =
          .reordered rx) := by
  refine ⟨⟨_, by decide +kernel, rfl, by decide +kernel⟩, ?_, ?_, ?_⟩
  · rw [send_sampleInner (by decide)]
    exact mem_singleton_self _
  · have hroom : roomFor .standard 65600 0 = 65598 := by decide +kernel
    have hhdr : samplePeek.hdr.length = 8 := rfl
    rw [length_append, length_sampleInner, hroom, hhdr]
    decide
  · intro rx now alloc
    have hlive : (sampleHop 65600).Live := ⟨rfl, fun conn hconn => by cases hconn; rfl⟩
    have hne : sampleInner 5000 65508 ≠ [] := nofun
    rw [stampedFrame, append_assoc]
    refine (@Hop.receive_frame .standard [] (sampleHop 65600) ⟨0, 65600, _⟩ hlive rfl _ _ now
      alloc).trans ?_
    change dispatch (some rx) (wireEncode typeV1 flagReset 0 ++ sampleInner 5000 65508) now
      alloc = _
    rw [dispatch_stamped rx flagReset 0 hne, if_neg (by rw [length_sampleInner]; decide)]

end Mqvpn.Endpoint
