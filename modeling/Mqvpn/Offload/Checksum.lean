import Mqvpn.Lib.Coverage
import Mqvpn.Lib.OnesComplement
import Mqvpn.Lib.Varint

/-!
# Checksums as they are computed

The sums are taken over words as the host loads them, eight bytes at a time into an accumulator of
64 bits, and stored back the same way, so that no byte is ever swapped.  The result is that of the
plain sum of 16-bit words, as long as the accumulator does not overflow.

## Main definitions

* `csumSum`, `csumPseudo`, `csumStore` — the wide sum, that of the pseudo header, and the field.
* `vnetFinishCsum` — the checksum of a packet that came with an unfinished one.
* `pseudoHeader` — the pseudo header of TCP and UDP, as the protocols define it.

## Main results

* `csumSum_eq` — the wide sum does not overflow; `csumSum_mod`, `csumSum_le` — it is the sum of the
  words.
* `csum_rfc1071` — **the stored field is that of the plain sum**, in the order of the network.
* `csumPseudo_mod` — and so is that of the pseudo header.
-/

namespace Mqvpn.Offload

open OnesComplement List

abbrev Packet := List UInt8

/-! ### The sums -/

/-- A number as the host loads it. -/
def load : Endian → List UInt8 → ℕ
  | .little, bytes => Varint.ofBytes bytes.reverse
  | .big, bytes => Varint.ofBytes bytes

/-- What is left behind the words of eight bytes. -/
def csumTail (e : Endian) (p : List UInt8) (acc : ℕ) : ℕ :=
  let (p, acc) := if 4 ≤ p.length then (p.drop 4, (acc + load e (p.take 4)) % 2 ^ 64) else (p, acc)
  let (p, acc) := if 2 ≤ p.length then (p.drop 2, (acc + load e (p.take 2)) % 2 ^ 64) else (p, acc)
  match p with
  | [] => acc
  -- an odd byte, with a zero behind it
  | b :: _ => (acc + load e [b, 0]) % 2 ^ 64

/-- Add up the words of a message. -/
def csumSum (e : Endian) : List UInt8 → ℕ → ℕ
  | b₀ :: b₁ :: b₂ :: b₃ :: b₄ :: b₅ :: b₆ :: b₇ :: rest, acc =>
    let w := load e [b₀, b₁, b₂, b₃, b₄, b₅, b₆, b₇]
    csumSum e rest ((acc + (w % 2 ^ 32 + w / 2 ^ 32)) % 2 ^ 64)
  | p, acc => csumTail e p acc

/-- Store the complement of a sum. -/
def csumStore (e : Endian) (p : Packet) (at' acc : ℕ) : Packet :=
  Coverage.write p ⟨at', e.bytes (field acc)⟩

inductive Proto
  | tcp
  | udp
  deriving DecidableEq

def Proto.number : Proto → UInt8
  | .tcp => 6
  | .udp => 17

def addresses (ip : Packet) (v6 : Bool) : List UInt8 :=
  if v6 then (ip.drop 8).take 32 else (ip.drop 12).take 8

def csumPseudo (e : Endian) (ip : Packet) (v6 : Bool) (proto : Proto) (l4len : ℕ) : ℕ :=
  csumSum e [0, proto.number, .ofNat (l4len / 256), .ofNat l4len] (csumSum e (addresses ip v6) 0)

def getBe16 (p : Packet) (i : ℕ) : ℕ := Varint.ofBytes ((p.drop i).take 2)

def getBe32 (p : Packet) (i : ℕ) : ℕ := Varint.ofBytes ((p.drop i).take 4)

def putBe16 (p : Packet) (i v : ℕ) : Packet := Coverage.write p ⟨i, Varint.bigEndian 2 v⟩

def putBe32 (p : Packet) (i v : ℕ) : Packet := Coverage.write p ⟨i, Varint.bigEndian 4 v⟩

/-! ### The virtio header -/

/-- The header in front of a packet on the TUN device. -/
structure VnetHdr where
  needsCsum : Bool := false
  gsoType : UInt8 := 0
  gsoSize : UInt16 := 0
  csumStart : UInt16 := 0
  csumOffset : UInt16 := 0
  deriving DecidableEq

/-- Finish the checksum of a packet whose field holds the sum of the pseudo header. -/
def vnetFinishCsum (e : Endian) (p : Packet) (vh : VnetHdr) : Option Packet :=
  let start := vh.csumStart.toNat
  let at' := start + vh.csumOffset.toNat
  if p.length ≤ start ∨ p.length < at' + 2 then none
  else
    let acc := csumSum e ((p.drop at').take 2) 0
    let p := Coverage.write p ⟨at', [0, 0]⟩
    some (csumStore e p at' (csumSum e (p.drop start) acc))

/-! ### The wide sum is the sum of the words -/

theorem load_two (e : Endian) (a b : UInt8) : load e [a, b] = e.word a b := by
  cases e
  · simp [load, Varint.ofBytes, Endian.word]
    omega
  · simp [load, Varint.ofBytes, Endian.word]

theorem load_four (e : Endian) (a b c d : UInt8) :
    load e [a, b, c, d] < 2 ^ 32 ∧
      load e [a, b, c, d] ≡ e.word a b + e.word c d [MOD 65535] := by
  have ha := a.toNat_lt
  have hb := b.toNat_lt
  have hc := c.toNat_lt
  have hd := d.toNat_lt
  cases e
  · simp only [load, Varint.ofBytes, Endian.word, Nat.ModEq, reverse_cons, reverse_nil,
      nil_append, cons_append, foldl_cons, foldl_nil]
    omega
  · simp only [load, Varint.ofBytes, Endian.word, Nat.ModEq, foldl_cons, foldl_nil]
    omega

/-- The halves of eight bytes, each of which is four of them. -/
theorem load_eight (e : Endian) (a b c d a' b' c' d' : UInt8) :
    load e [a, b, c, d, a', b', c', d'] % 2 ^ 32 + load e [a, b, c, d, a', b', c', d'] / 2 ^ 32 =
      load e [a, b, c, d] + load e [a', b', c', d'] := by
  have ha := a.toNat_lt
  have hb := b.toNat_lt
  have hc := c.toNat_lt
  have hd := d.toNat_lt
  have ha' := a'.toNat_lt
  have hb' := b'.toNat_lt
  have hc' := c'.toNat_lt
  have hd' := d'.toNat_lt
  cases e <;>
    simp only [load, Varint.ofBytes, reverse_cons, reverse_nil, nil_append,
      cons_append, foldl_cons, foldl_nil] <;>
    omega

/-- The sum with the words that are added, and a bound. -/
def Adds (e : Endian) (p : List UInt8) (acc acc' : ℕ) : Prop :=
  acc' ≡ acc + wordSum e p [MOD 65535] ∧ acc' ≤ acc + 2 ^ 30 * p.length

/-- The sum that the accumulator would hold if it had no bound: four bytes at a time, and the words
of the rest. -/
def wideSum (e : Endian) : List UInt8 → ℕ
  | b₀ :: b₁ :: b₂ :: b₃ :: rest => load e [b₀, b₁, b₂, b₃] + wideSum e rest
  | p => wordSum e p

section
variable (e : Endian)

section
variable (p : List UInt8)

theorem wideSum_le : wideSum e p ≤ 2 ^ 30 * p.length := by
  induction p using wideSum.induct with
  | case1 b₀ b₁ b₂ b₃ rest ih =>
    have hlt := (load_four e b₀ b₁ b₂ b₃).1
    simp only [wideSum, length_cons]
    omega
  | case2 p hno =>
    have hle := wordSum_le e p
    rw [wideSum]
    · omega
    · exact hno

theorem wideSum_mod : wideSum e p ≡ wordSum e p [MOD 65535] := by
  induction p using wideSum.induct with
  | case1 b₀ b₁ b₂ b₃ rest ih =>
    rw [wideSum, wordSum, wordSum, ← Nat.add_assoc]
    exact (load_four e b₀ b₁ b₂ b₃).2.add ih
  | case2 p hno =>
    rw [wideSum]
    exact hno

theorem wideSum_eq_zero : wideSum e p = 0 ↔ wordSum e p = 0 := by
  induction p using wideSum.induct with
  | case1 b₀ b₁ b₂ b₃ rest ih =>
    have hload : load e [b₀, b₁, b₂, b₃] = 0 ↔ e.word b₀ b₁ = 0 ∧ e.word b₂ b₃ = 0 := by
      cases e <;> simp [load, Varint.ofBytes, Endian.word] <;> omega
    simp only [wideSum, wordSum, Nat.add_eq_zero_iff, hload, ih, and_assoc]
  | case2 p hno =>
    rw [wideSum]
    exact hno

theorem csumTail_eq (acc : ℕ) (hshort : p.length < 8) (h : acc + wideSum e p < 2 ^ 64) :
    csumTail e p acc = acc + wideSum e p := by
  rcases p with _ | ⟨a, _ | ⟨b, _ | ⟨c, _ | ⟨d, _ | ⟨x, _ | ⟨y, _ | ⟨z, _ | ⟨_, _⟩⟩⟩⟩⟩⟩⟩⟩
  case nil => rfl
  case cons.cons.cons.cons.cons.cons.cons.cons =>
    simp only [length_cons] at hshort
    omega
  -- no sum of a part passes that of the whole
  all_goals
    simp only [wideSum, wordSum] at h
    simp [csumTail, wideSum, wordSum, load_two]
    omega

/-- **The wide sum does not overflow.** -/
theorem csumSum_eq (acc : ℕ) (h : acc + wideSum e p < 2 ^ 64) :
    csumSum e p acc = acc + wideSum e p := by
  induction p, acc using csumSum.induct e with
  | case1 b₀ b₁ b₂ b₃ b₄ b₅ b₆ b₇ rest acc w ih =>
    have hpair : w % 2 ^ 32 + w / 2 ^ 32 = load e [b₀, b₁, b₂, b₃] + load e [b₄, b₅, b₆, b₇] :=
      load_eight ..
    rw [csumSum]
    change csumSum e rest ((acc + (w % 2 ^ 32 + w / 2 ^ 32)) % 2 ^ 64) = _
    simp only [wideSum] at h ⊢
    rw [hpair] at ih ⊢
    rw [Nat.mod_eq_of_lt (by omega)] at ih ⊢
    rw [ih (by omega)]
    omega
  | case2 p acc hno =>
    have hshort : p.length < 8 := by
      rcases p with _ | ⟨b₀, _ | ⟨b₁, _ | ⟨b₂, _ | ⟨b₃, _ | ⟨b₄, _ | ⟨b₅, _ | ⟨b₆, _ |
        ⟨b₇, rest⟩⟩⟩⟩⟩⟩⟩⟩
      any_goals simp; done
      exact (hno b₀ b₁ b₂ b₃ b₄ b₅ b₆ b₇ rest rfl).elim
    rw [csumSum]
    · exact csumTail_eq e p acc hshort h
    · exact hno

/-- **The wide sum** adds the words. -/
theorem adds_csumSum (acc : ℕ) (h : acc + 2 ^ 30 * p.length < 2 ^ 64) :
    Adds e p acc (csumSum e p acc) := by
  have hle := wideSum_le e p
  rw [csumSum_eq e p acc (by omega)]
  exact ⟨(wideSum_mod e p).add_left acc, Nat.add_le_add_left hle acc⟩

end

section
variable {p : List UInt8} {acc : ℕ} (h : acc + 2 ^ 30 * p.length < 2 ^ 64)
include h

theorem csumSum_mod : csumSum e p acc ≡ acc + wordSum e p [MOD 65535] :=
  (adds_csumSum e p acc h).1

theorem csumSum_le : csumSum e p acc ≤ acc + 2 ^ 30 * p.length :=
  (adds_csumSum e p acc h).2

theorem csumSum_eq_zero : csumSum e p acc = 0 ↔ acc = 0 ∧ wordSum e p = 0 := by
  have hle := wideSum_le e p
  rw [csumSum_eq e p acc (by omega), Nat.add_eq_zero_iff, wideSum_eq_zero]

/-- A stored field and the bytes that were summed come to zero in the order of the network. -/
theorem stored_add_mod :
    wordSum .big (e.bytes (field (csumSum e p acc))) +
      (wordSum .big (e.bytes (fold acc)) + wordSum .big p) ≡ 0 [MOD 65535] := by
  obtain ⟨hmod, hle⟩ := adds_csumSum e p acc h
  have hparts : ∀ e' : Endian, wordSum e' (e.bytes (field (csumSum e p acc)) ++
      (e.bytes (fold acc) ++ p)) = wordSum e' (e.bytes (field (csumSum e p acc))) +
        (wordSum e' (e.bytes (fold acc)) + wordSum e' p) := by
    intro e'
    rw [wordSum_append e' 1 _ _ (length_bytes ..), wordSum_append e' 1 _ _ (length_bytes ..)]
  rw [← hparts]
  refine @wordSum_big_mod e _ ?_
  rw [hparts, wordSum_bytes e (field_lt _), wordSum_bytes e (fold_lt (by omega)), Nat.add_comm]
  exact (((foldLoop_mod 5 acc).add_right _).add_right _).trans
    ((hmod.symm.add_right _).trans (add_field_mod (by omega)))

end

/-- The sum of a message that is taken in pieces of even length and a last one of any. -/
theorem adds_pieces (last : List UInt8) (pieces : List (List UInt8)) (acc : ℕ)
    (heven : ∀ piece ∈ pieces, piece.length % 2 = 0)
    (h : acc + 2 ^ 30 * (pieces.flatten ++ last).length < 2 ^ 64) :
    let acc' := csumSum e last (pieces.foldl (fun acc piece => csumSum e piece acc) acc)
    Adds e (pieces.flatten ++ last) acc acc' ∧
      (acc' = 0 ↔ acc = 0 ∧ wordSum e (pieces.flatten ++ last) = 0) := by
  induction pieces generalizing acc with
  | nil => exact ⟨adds_csumSum e last acc h, csumSum_eq_zero e h⟩
  | cons piece pieces ih =>
    obtain ⟨hpiece, hrest⟩ := forall_mem_cons.mp heven
    have hlen : (piece ++ (pieces.flatten ++ last)).length =
        piece.length + (pieces.flatten ++ last).length := length_append
    rw [flatten_cons, append_assoc, hlen] at h
    have hsum := wordSum_append e (piece.length / 2) piece (pieces.flatten ++ last) (by omega)
    obtain ⟨hmod, hle⟩ := adds_csumSum e piece acc (by omega)
    obtain ⟨⟨hmod', hle'⟩, hzero'⟩ := ih (csumSum e piece acc) hrest (by omega)
    simp only [foldl_cons, flatten_cons, append_assoc, Adds, hlen, hsum]
    refine ⟨⟨?_, by omega⟩, ?_⟩
    · rw [← Nat.add_assoc]
      exact hmod'.trans (hmod.add_right _)
    · rw [hzero', csumSum_eq_zero e (by omega), Nat.add_eq_zero_iff, and_assoc]

end

/-- **The field is that of the plain sum**: for a message and a sum that was begun, both in the
order of the host, the accumulator never overflows, the field that is stored is the complement of
the sum of the words in the order of the network, where zero has two forms, and a message summed in
pieces has the same fold. -/
theorem csum_rfc1071 (e : Endian) {p : List UInt8} {acc : ℕ} (hp : p.length < 2 ^ 30)
    (hacc : acc < 2 ^ 32) :
    (csumSum e p acc = acc + wideSum e p ∧ acc + wideSum e p < 2 ^ 64) ∧
      (∀ (q : Packet) (i : ℕ), i + 2 ≤ q.length →
        getBe16 (csumStore e q i (csumSum e p acc)) i ≡
          0xffff - fold (wordSum .big (e.bytes (fold acc)) + wordSum .big p) [MOD 65535]) ∧
      ∀ (pieces : List (List UInt8)) (last : List UInt8),
        (∀ piece ∈ pieces, piece.length % 2 = 0) → p = pieces.flatten ++ last →
          fold (csumSum e last (pieces.foldl (fun acc piece => csumSum e piece acc) acc)) =
            fold (csumSum e p acc) := by
  have hwide := wideSum_le e p
  have hsmall : acc + 2 ^ 30 * p.length < 2 ^ 64 := by omega
  refine ⟨⟨csumSum_eq e p acc (by omega), by omega⟩, ?_, ?_⟩
  · intro q i hi
    have hread : getBe16 (csumStore e q i (csumSum e p acc)) i =
        wordSum .big (e.bytes (field (csumSum e p acc))) := by
      generalize csumSum e p acc = sum
      have hslice := @Coverage.slice_write _ q ⟨i, e.bytes (field sum)⟩
        (by rw [Coverage.Piece.stop, length_bytes]; exact hi)
      rw [length_bytes] at hslice
      rw [getBe16, csumStore, hslice]
      cases e <;> simp [Endian.bytes, Varint.ofBytes, wordSum, Endian.word]
    have hfold := foldLoop_mod 5 (wordSum .big (e.bytes (fold acc)) + wordSum .big p)
    have hlt : fold (wordSum .big (e.bytes (fold acc)) + wordSum .big p) < 65536 := by
      have := wordSum_le .big (e.bytes (fold acc))
      have := wordSum_le .big p
      rw [length_bytes] at *
      exact fold_lt (by omega)
    rw [hread]
    refine Nat.ModEq.add_right_cancel hfold.symm ?_
    refine (stored_add_mod e hsmall).trans ?_
    change _ ≡ 0xffff - fold _ + fold _ [MOD 65535]
    rw [Nat.sub_add_cancel (by omega)]
    rfl
  · rintro pieces last heven rfl
    obtain ⟨⟨hmod, hle⟩, hzero⟩ := adds_pieces e last pieces acc heven hsmall
    have hle' := csumSum_le e hsmall
    refine fold_congr (by omega) (by omega) (hmod.trans (csumSum_mod e hsmall).symm) ?_
    rw [hzero, csumSum_eq_zero e hsmall]

/-- An odd number of bytes with a sum that was begun, on a host that has the low byte first. -/
theorem csum_rfc1071_little :
    fold (csumSum .little [0x9c] ([[0x45, 0, 0, 0x54]].foldl (fun acc piece =>
      csumSum .little piece acc) 7)) = fold (csumSum .little [0x45, 0, 0, 0x54, 0x9c] 7) :=
  (csum_rfc1071 .little (by decide) (by decide)).2.2 [[0x45, 0, 0, 0x54]] [0x9c] (by decide) rfl

/-! ### What a receiver verifies -/

/-- The pseudo header of TCP and UDP. -/
def pseudoHeader (ip : Packet) (v6 : Bool) (proto : Proto) (l4len : ℕ) : List UInt8 :=
  addresses ip v6 ++
    if v6 then Varint.bigEndian 4 l4len ++ [0, 0, 0, proto.number]
    else [0, proto.number] ++ Varint.bigEndian 2 l4len

/-- The checksum of an IPv4 header verifies. -/
def VerifiesIp (p : Packet) (ipHlen : ℕ) : Prop := fold (wordSum .big (p.take ipHlen)) = 0xffff

/-- The checksum of the transport header and what follows it verifies. -/
def VerifiesL4 (p : Packet) (ipHlen : ℕ) (v6 : Bool) (proto : Proto) : Prop :=
  fold (wordSum .big (pseudoHeader p v6 proto (p.length - ipHlen) ++ p.drop ipHlen)) = 0xffff

/-- The two forms of the pseudo header have one sum. -/
theorem wordSum_pseudoHeader (e : Endian) (ip : Packet) (v6 : Bool) (proto : Proto) {l4len k : ℕ}
    (hk : (addresses ip v6).length = 2 * k) (hlen : l4len < 65536) :
    wordSum e (pseudoHeader ip v6 proto l4len) =
      wordSum e (addresses ip v6) +
        wordSum e [0, proto.number, .ofNat (l4len / 256), .ofNat l4len] := by
  unfold pseudoHeader
  rw [wordSum_append e k _ _ hk]
  congr 1
  cases v6 with
  | false => rfl
  | true =>
    have h₁ : l4len / 256 / 256 = 0 := by omega
    simp only [if_true, Varint.bigEndian, h₁, Nat.zero_div, nil_append, cons_append,
      wordSum]
    cases e <;> simp [Endian.word] <;> omega

theorem length_addresses {ip : Packet} {v6 : Bool} (h : (if v6 then 40 else 20) ≤ ip.length) :
    (addresses ip v6).length = if v6 then 32 else 8 := by
  unfold addresses
  cases v6 with
  | true =>
    simp only [if_true] at h
    simp only [if_true, length_take, length_drop]
    omega
  | false =>
    simp only [Bool.false_eq_true, if_false] at h
    simp only [Bool.false_eq_true, if_false, length_take, length_drop]
    omega

/-- The sum over the pseudo header. -/
theorem csumPseudo_mod {e : Endian} {ip : Packet} {v6 : Bool} {proto : Proto} {l4len : ℕ}
    (h : (if v6 then 40 else 20) ≤ ip.length) (hlen : l4len < 65536) :
    csumPseudo e ip v6 proto l4len ≡ wordSum e (pseudoHeader ip v6 proto l4len) [MOD 65535] ∧
      csumPseudo e ip v6 proto l4len ≤ 2 ^ 36 := by
  have haddr := length_addresses h
  have hshort : (addresses ip v6).length ≤ 32 := by
    rw [haddr]
    split_ifs <;> omega
  have heven : (addresses ip v6).length = 2 * ((addresses ip v6).length / 2) := by
    rw [haddr]
    split_ifs <;> rfl
  obtain ⟨hmod, hle⟩ := adds_csumSum e (addresses ip v6) 0 (by omega)
  obtain ⟨hmod', hle'⟩ := adds_csumSum e [0, proto.number, .ofNat (l4len / 256), .ofNat l4len]
    (csumSum e (addresses ip v6) 0) (by simp only [length_cons, length_nil]; omega)
  rw [wordSum_pseudoHeader e ip v6 proto heven hlen]
  refine ⟨hmod'.trans ?_, ?_⟩
  · rw [Nat.zero_add] at hmod
    exact hmod.add_right _
  · simp only [length_cons, length_nil] at hle'
    change csumSum _ _ _ ≤ _
    omega

/-- **A message whose field was stored verifies**: the field stands at an even place and was zero
when the sum was taken. -/
theorem fold_stored {e : Endian} {pre body : List UInt8} {k i acc : ℕ} (hpre : pre.length = 2 * k)
    (hi : i + 2 ≤ body.length) (heven : i % 2 = 0) (hacc : acc < 2 ^ 64)
    (hsum : acc ≡ wordSum e pre + wordSum e (Coverage.write body ⟨i, [0, 0]⟩) [MOD 65535])
    (hsize : pre.length + body.length < 2 ^ 32) :
    fold (wordSum .big (pre ++ csumStore e (Coverage.write body ⟨i, [0, 0]⟩) i acc)) = 0xffff := by
  have hwrite : ∀ bs : List UInt8, bs.length = 2 →
      pre ++ Coverage.write body ⟨i, bs⟩ = (pre ++ body.take i) ++ bs ++ body.drop (i + 2) := by
    intro bs hbs
    simp only [Coverage.write, Coverage.Piece.stop, hbs, append_assoc]
  have hlen : (pre ++ body.take i).length = 2 * (k + i / 2) := by
    rw [length_append, length_take]
    omega
  rw [csumStore, Coverage.write_write (by simp) hi, hwrite _ (length_bytes ..)]
  refine verifies hlen hacc ?_ ?_
  · rw [← hwrite [0, 0] rfl, wordSum_append e k _ _ hpre]
    exact hsum
  · refine Nat.lt_of_le_of_lt (wordSum_le ..) ?_
    simp only [length_append, length_take, length_drop, length_bytes]
    omega

end Mqvpn.Offload
