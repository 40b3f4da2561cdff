import Mathlib.Algebra.Group.Nat.Defs
import Mathlib.Data.List.Induction
import Mathlib.Tactic.Common

/-!
# Variable-length integers

The big-endian integers of QUIC: the two top bits of the first byte say whether the
number takes one, two, four or eight bytes, and the remaining bits hold it.

## Main definitions

* `Varint.encode`, `Varint.decode` — the shortest form of a number, and the reader that
  also returns what follows it.

## Main results

* `Varint.decode_encode` — **the round trip**, for numbers below `2 ^ 62`.
* `Varint.decode_append` — what follows a number does not matter.
-/

namespace Varint

open List

/-- The low `k` bytes of a number, the highest first. -/
def bigEndian : ℕ → ℕ → List UInt8
  | 0, _ => []
  | k + 1, n => bigEndian k (n / 256) ++ [UInt8.ofNat n]

/-- The number a list of bytes stands for, the highest first. -/
def ofBytes (bytes : List UInt8) : ℕ := bytes.foldl (fun n b => n * 256 + b.toNat) 0

theorem length_bigEndian : ∀ k n : ℕ, (bigEndian k n).length = k := by
  intro k
  induction k with
  | zero => intro n; rfl
  | succ k ih => intro n; rw [bigEndian, length_append, ih]; rfl

theorem ofBytes_bigEndian : ∀ k n : ℕ, ofBytes (bigEndian k n) = n % 256 ^ k := by
  intro k
  induction k with
  | zero => intro n; rw [Nat.pow_zero, Nat.mod_one]; rfl
  | succ k ih =>
    intro n
    have hlow : (UInt8.ofNat n).toNat = n % 256 := by simp
    rw [bigEndian, ofBytes, foldl_append]
    change ofBytes (bigEndian k (n / 256)) * 256 + (UInt8.ofNat n).toNat = _
    rw [ih, hlow, Nat.pow_succ, Nat.mul_comm (256 ^ k), Nat.mod_mul]
    omega

theorem bigEndian_ofBytes (bytes : List UInt8) :
    bigEndian bytes.length (ofBytes bytes) = bytes := by
  induction bytes using reverseRecOn with
  | nil => rfl
  | append_singleton bytes b ih =>
    have hb := b.toNat_lt
    have hval : ofBytes (bytes ++ [b]) = ofBytes bytes * 256 + b.toNat := by
      rw [ofBytes, foldl_append]
      rfl
    have hdiv : (ofBytes bytes * 256 + b.toNat) / 256 = ofBytes bytes := by omega
    have hlow : UInt8.ofNat (ofBytes bytes * 256 + b.toNat) = b := by
      refine UInt8.toNat_inj.mp ?_
      rw [UInt8.toNat_ofNat']
      omega
    rw [length_append, length_singleton, bigEndian, hval, hdiv, ih, hlow]

/-- Bytes are determined by the number they stand for. -/
theorem ofBytes_inj {xs ys : List UInt8} (hlen : xs.length = ys.length)
    (h : ofBytes xs = ofBytes ys) : xs = ys := by
  rw [← bigEndian_ofBytes xs, ← bigEndian_ofBytes ys, hlen, h]

/-- The first byte of the low `k + 1` bytes is the highest of them. -/
theorem bigEndian_succ_eq_cons : ∀ k n : ℕ,
    ∃ rest, bigEndian (k + 1) n = UInt8.ofNat (n / 256 ^ k) :: rest := by
  intro k
  induction k with
  | zero => intro n; exact ⟨[], by rw [Nat.pow_zero, Nat.div_one]; rfl⟩
  | succ k ih =>
    intro n
    obtain ⟨rest, hrest⟩ := ih (n / 256)
    refine ⟨rest ++ [UInt8.ofNat n], ?_⟩
    rw [bigEndian, hrest, Nat.div_div_eq_div_mul, Nat.pow_succ, Nat.mul_comm 256]
    rfl

/-- `k` bytes whose two top bits are `tag`. -/
def tagged (tag k n : ℕ) : List UInt8 := bigEndian k (tag * 2 ^ (8 * k - 2) + n)

/-- The shortest form of a number. -/
def encode (n : ℕ) : List UInt8 :=
  if n < 2 ^ 6 then tagged 0 1 n
  else if n < 2 ^ 14 then tagged 1 2 n
  else if n < 2 ^ 30 then tagged 2 4 n
  else tagged 3 8 n

/-- Read a number off the front; `none` if the bytes end inside it. -/
def decode : List UInt8 → Option (ℕ × List UInt8)
  | [] => none
  | b :: bytes =>
      let k := 2 ^ (b.toNat / 64)
      if (b :: bytes).length < k then none
      else some (ofBytes ((b :: bytes).take k) % 2 ^ (8 * k - 2), (b :: bytes).drop k)

/-- Reading a tagged number: its tag gives the length, and the rest of its bits the
value. -/
theorem decode_tagged {tag j n : ℕ} (htag : tag < 4) (hj : 2 ^ tag = j + 1)
    (hn : n < 2 ^ (8 * (j + 1) - 2)) (rest : List UInt8) :
    decode (tagged tag (j + 1) n ++ rest) = some (n, rest) := by
  have hpow : (2 : ℕ) ^ (8 * (j + 1) - 2) = 64 * 256 ^ j := by
    rw [show 8 * (j + 1) - 2 = 6 + 8 * j by omega, Nat.pow_add, Nat.pow_mul]
  obtain ⟨tail, htail⟩ := bigEndian_succ_eq_cons j (tag * 2 ^ (8 * (j + 1) - 2) + n)
  have hlen := length_bigEndian (j + 1) (tag * 2 ^ (8 * (j + 1) - 2) + n)
  -- the first byte is the tag followed by the six highest bits of the number
  have hhead : (UInt8.ofNat ((tag * 2 ^ (8 * (j + 1) - 2) + n) / 256 ^ j)).toNat / 64 = tag := by
    have hsix : n / 256 ^ j < 64 :=
      Nat.div_lt_of_lt_mul (by rw [Nat.mul_comm, ← hpow]; exact hn)
    have hdiv : (tag * 2 ^ (8 * (j + 1) - 2) + n) / 256 ^ j = tag * 64 + n / 256 ^ j := by
      rw [hpow, ← Nat.mul_assoc, Nat.add_comm,
        Nat.add_mul_div_right _ _ (Nat.pow_pos (by decide)), Nat.add_comm]
    have hbyte : tag * 64 + n / 256 ^ j < 256 := by omega
    rw [hdiv, UInt8.toNat_ofNat', Nat.mod_eq_of_lt hbyte, Nat.mul_comm,
      Nat.mul_add_div (by decide), Nat.div_eq_of_lt hsix, Nat.add_zero]
  have hvalue := ofBytes_bigEndian (j + 1) (tag * 2 ^ (8 * (j + 1) - 2) + n)
  rw [htail] at hlen hvalue
  rw [tagged, htail, cons_append, decode, hhead, hj]
  simp only [← cons_append]
  rw [if_neg (by rw [length_append, hlen]; omega), take_left' hlen,
    drop_left' hlen, hvalue]
  -- the tag lies above the bits that are kept
  have hdvd : 2 ^ (8 * (j + 1) - 2) ∣ 256 ^ (j + 1) :=
    ⟨4, by rw [hpow, Nat.pow_succ]; omega⟩
  rw [Nat.mod_mod_of_dvd _ hdvd, Nat.mul_comm, Nat.mul_add_mod, Nat.mod_eq_of_lt hn]

/-- **The round trip.** -/
theorem decode_encode {n : ℕ} (hn : n < 2 ^ 62) (rest : List UInt8) :
    decode (encode n ++ rest) = some (n, rest) := by
  unfold encode
  split
  · next h => exact decode_tagged (j := 0) (by decide) (by decide) h rest
  split
  · next h => exact decode_tagged (j := 1) (by decide) (by decide) h rest
  split
  · next h => exact decode_tagged (j := 3) (by decide) (by decide) h rest
  · exact decode_tagged (j := 7) (by decide) (by decide) hn rest

/-- What follows a number does not matter. -/
theorem decode_append {bytes rest : List UInt8} {n : ℕ} (h : decode bytes = some (n, rest))
    (more : List UInt8) : decode (bytes ++ more) = some (n, rest ++ more) := by
  cases bytes with
  | nil => cases h
  | cons b bytes =>
    simp only [decode] at h
    split at h
    · cases h
    · next hlen =>
      rw [Nat.not_lt] at hlen
      obtain ⟨rfl, rfl⟩ := Prod.mk.inj (Option.some.inj h)
      simp only [cons_append, decode]
      rw [← cons_append, if_neg (by rw [length_append]; omega),
        take_append_of_le_length hlen, drop_append_of_le_length hlen]

/-- A number takes at least one byte. -/
theorem length_lt_of_decode {bytes rest : List UInt8} {n : ℕ} (h : decode bytes = some (n, rest)) :
    rest.length < bytes.length := by
  cases bytes with
  | nil => cases h
  | cons b bytes =>
    simp only [decode] at h
    split at h
    · cases h
    · next hlen =>
      have hpos : 0 < 2 ^ (b.toNat / 64) := Nat.pow_pos (by decide)
      obtain ⟨-, rfl⟩ := Prod.mk.inj (Option.some.inj h)
      rw [length_drop]
      omega

end Varint
