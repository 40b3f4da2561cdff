import Mqvpn.Lib.Varint
import Mathlib.Data.List.Induction
import Mathlib.Tactic.Positivity
import Mathlib.Tactic.Ring

/-!
# Bit prefixes of byte strings

Two byte strings of one length are compared in their first `p` bits: whole bytes first,
then the top bits of the byte in which the prefix ends.  Read as big-endian numbers, the
strings agree exactly if they have the same quotient by the weight of the bits behind the
prefix, so membership in a prefix is a statement of arithmetic.

## Main definitions

* `BitPrefix.agree` — the first `p` bits of two byte strings are the same.
* `BitPrefix.keep` — the first `p` bits of a byte string, the others cleared.

## Main results

* `BitPrefix.agree_iff_div` — **agreement is equality of quotients.**
* `BitPrefix.agree_iff_testBit` — the same, bit by bit.
* `BitPrefix.agree_keep` — clearing the bits behind the prefix changes no answer.
* `BitPrefix.loop_eq_agree`, `BitPrefix.mapIdx_eq_keep` — the two operations as loops over
  the byte positions.
-/

namespace BitPrefix

open List

open Varint (ofBytes bigEndian)

/-! ### Bytes and their value -/

theorem foldl_bytes (bytes : List UInt8) : ∀ n : ℕ,
    bytes.foldl (fun n b => n * 256 + b.toNat) n = n * 256 ^ bytes.length + ofBytes bytes := by
  induction bytes with
  | nil => intro n; simp [ofBytes]
  | cons b bytes ih =>
    intro n
    rw [ofBytes, foldl_cons, foldl_cons, ih, ih, length_cons, Nat.pow_succ]
    ring

@[simp] theorem ofBytes_nil : ofBytes [] = 0 := rfl

theorem ofBytes_cons (b : UInt8) (bytes : List UInt8) :
    ofBytes (b :: bytes) = b.toNat * 256 ^ bytes.length + ofBytes bytes := by
  rw [ofBytes, foldl_cons, foldl_bytes]
  simp

theorem ofBytes_lt (bytes : List UInt8) : ofBytes bytes < 256 ^ bytes.length := by
  induction bytes with
  | nil => simp
  | cons b bytes ih =>
    have hb : b.toNat + 1 ≤ 256 := b.toNat_lt
    rw [ofBytes_cons, length_cons, Nat.pow_succ]
    calc b.toNat * 256 ^ bytes.length + ofBytes bytes
        < (b.toNat + 1) * 256 ^ bytes.length := by rw [Nat.succ_mul]; omega
      _ ≤ 256 ^ bytes.length * 256 := by
          rw [Nat.mul_comm]
          exact Nat.mul_le_mul_left _ hb

theorem ofBytes_append (a b : List UInt8) :
    ofBytes (a ++ b) = ofBytes a * 256 ^ b.length + ofBytes b := by
  rw [ofBytes, foldl_append, foldl_bytes]
  rfl

/-! ### The top bits of a byte -/

/-- The mask of the top `r` bits of a byte. -/
def topMask (r : ℕ) : UInt8 := UInt8.ofNat (0xFF <<< (8 - r))

/-- Masking with it clears the bits below. -/
theorem toNat_and_topMask (x : UInt8) {r : ℕ} (hr : r < 8) :
    (x &&& topMask r).toNat = x.toNat / 2 ^ (8 - r) * 2 ^ (8 - r) := by
  have hall : ∀ r : Fin 8, ∀ n : Fin 256, (UInt8.ofNat n &&& topMask r).toNat =
      n / 2 ^ (8 - (r : ℕ)) * 2 ^ (8 - (r : ℕ)) := by decide +kernel
  simpa using hall ⟨r, hr⟩ ⟨x.toNat, x.toNat_lt⟩

theorem and_topMask_eq_iff (x y : UInt8) {r : ℕ} (hr : r < 8) :
    x &&& topMask r = y &&& topMask r ↔ x.toNat / 2 ^ (8 - r) = y.toNat / 2 ^ (8 - r) := by
  rw [← UInt8.toNat_inj, toNat_and_topMask x hr, toNat_and_topMask y hr]
  exact Nat.mul_left_inj (by positivity)

/-! ### Agreement -/

/-- The first `p` bits of two byte strings are the same. -/
def agree : ℕ → List UInt8 → List UInt8 → Bool
  | p, x :: a, y :: b =>
      if 8 ≤ p then x == y && agree (p - 8) a b else (x &&& topMask p) == (y &&& topMask p)
  | _, _, _ => true

/-- The first `p` bits of a byte string; the others are cleared. -/
def keep : ℕ → List UInt8 → List UInt8
  | _, [] => []
  | p, b :: bytes =>
      if 8 ≤ p then b :: keep (p - 8) bytes else (b &&& topMask p) :: bytes.map fun _ => 0

/-- Clearing the bits behind the prefix changes no answer. -/
theorem agree_keep (p : ℕ) (a b : List UInt8) : agree p a (keep p b) = agree p a b := by
  induction b generalizing p a with
  | nil => rfl
  | cons y b ih =>
    cases a with
    | nil => rfl
    | cons x a =>
      by_cases hp : 8 ≤ p
      · simp [agree, keep, hp, ih]
      · simp [agree, keep, hp, UInt8.and_assoc]

/-- The comparison as a loop over the whole bytes, with the top bits of the next one at
the end. -/
theorem loop_eq_agree {a b : List UInt8} (hlen : a.length = b.length) {p : ℕ}
    (hp : p ≤ 8 * a.length) :
    ((List.range (p / 8)).all (fun i => a.getD i 0 == b.getD i 0) &&
      (p % 8 == 0 ||
        (a.getD (p / 8) 0 &&& topMask (p % 8)) == (b.getD (p / 8) 0 &&& topMask (p % 8)))) =
      agree p a b := by
  induction a generalizing b p with
  | nil =>
    have hp0 : p = 0 := by simpa using hp
    subst hp0
    rfl
  | cons x a ih =>
    obtain ⟨y, b, rfl⟩ := exists_cons_of_length_eq_add_one hlen.symm
    rw [length_cons] at hp
    by_cases h8 : 8 ≤ p
    · obtain ⟨q, rfl⟩ : ∃ q, p = q + 8 := ⟨p - 8, by omega⟩
      have hih := ih (by simpa using hlen) (p := q) (by omega)
      rw [agree, if_pos h8, Nat.add_sub_cancel, ← hih, show (q + 8) / 8 = q / 8 + 1 by omega,
        Nat.add_mod_right, range_succ_eq_map, all_cons, all_map]
      simp [Function.comp_def, Bool.and_assoc]
    · -- no whole byte; without a top bit to compare the masks are zero
      rw [agree, if_neg h8, Nat.div_eq_of_lt (by omega), Nat.mod_eq_of_lt (by omega)]
      by_cases hp0 : p = 0
      · subst hp0
        simp [topMask]
      · simp [hp0]

/-- Clearing as a loop over the byte positions. -/
theorem mapIdx_eq_keep (p : ℕ) (bytes : List UInt8) :
    bytes.mapIdx (fun i b => if i < p / 8 then b
      else if i = p / 8 ∧ p % 8 ≠ 0 then b &&& topMask (p % 8) else 0) = keep p bytes := by
  induction bytes generalizing p with
  | nil => rfl
  | cons b bytes ih =>
    rw [mapIdx_cons, keep]
    by_cases h8 : 8 ≤ p
    · obtain ⟨q, rfl⟩ : ∃ q, p = q + 8 := ⟨p - 8, by omega⟩
      rw [if_pos h8, Nat.add_sub_cancel, ← ih q, if_pos (by omega : 0 < (q + 8) / 8)]
      simp [show (q + 8) / 8 = q / 8 + 1 by omega]
    · have hrest : bytes.mapIdx (fun _ _ => (0 : UInt8)) = replicate bytes.length 0 :=
        ext_getElem (by simp) (by simp)
      rw [if_neg h8, Nat.div_eq_of_lt (by omega), Nat.mod_eq_of_lt (by omega)]
      by_cases hp0 : p = 0
      · subst hp0
        simp [topMask, hrest]
      · simp [hp0, hrest]

/-- **Agreement is equality of quotients** by the weight of the bits behind the prefix. -/
theorem agree_iff_div {a b : List UInt8} (hlen : a.length = b.length) {p : ℕ}
    (hp : p ≤ 8 * a.length) :
    agree p a b = true ↔
      ofBytes a / 2 ^ (8 * a.length - p) = ofBytes b / 2 ^ (8 * a.length - p) := by
  induction a generalizing b p with
  | nil =>
    rw [length_eq_zero_iff.mp hlen.symm]
    simp [agree]
  | cons x a ih =>
    obtain ⟨y, b, rfl⟩ := exists_cons_of_length_eq_add_one hlen.symm
    have hlen' : a.length = b.length := by simpa using hlen
    have hA := ofBytes_lt a
    have hB := ofBytes_lt b
    rw [← hlen'] at hB
    rw [ofBytes_cons, ofBytes_cons, ← hlen', length_cons]
    rw [length_cons] at hp
    by_cases h8 : 8 ≤ p
    · -- the prefix covers the first byte: it is the part of the quotient above `2 ^ (p - 8)`
      have hq : p - 8 ≤ 8 * a.length := by omega
      have hweight : 256 ^ a.length =
          2 ^ (8 * a.length - (p - 8)) * 2 ^ (p - 8) := by
        rw [← Nat.pow_add, Nat.sub_add_cancel hq, Nat.pow_mul]
      have hexp : 8 * (a.length + 1) - p = 8 * a.length - (p - 8) := by omega
      have hpos : 0 < 2 ^ (8 * a.length - (p - 8)) := by positivity
      have hquot (x : UInt8) (A : ℕ) :
          (x.toNat * 256 ^ a.length + A) / 2 ^ (8 * a.length - (p - 8)) =
            x.toNat * 2 ^ (p - 8) + A / 2 ^ (8 * a.length - (p - 8)) := by
        rw [hweight, Nat.mul_left_comm, Nat.mul_add_div hpos]
      have hsmall {A : ℕ} (h : A < 256 ^ a.length) :
          A / 2 ^ (8 * a.length - (p - 8)) < 2 ^ (p - 8) :=
        Nat.div_lt_of_lt_mul (by rwa [← hweight])
      rw [agree, if_pos h8, hexp, hquot, hquot, Bool.and_eq_true, beq_iff_eq, ih hlen' hq]
      constructor
      · rintro ⟨rfl, h⟩
        rw [h]
      · intro h
        have hx : x.toNat = y.toNat := by
          have hdiv := congrArg (· / 2 ^ (p - 8)) h
          simpa [Nat.mul_comm _ (2 ^ (p - 8)), Nat.mul_add_div, Nat.div_eq_of_lt (hsmall hA),
            Nat.div_eq_of_lt (hsmall hB)] using hdiv
        refine ⟨UInt8.toNat_inj.mp hx, ?_⟩
        rw [hx] at h
        exact Nat.add_left_cancel h
    · -- the prefix ends in the first byte, and the bytes behind it drop out
      have hexp : 2 ^ (8 * (a.length + 1) - p) = 256 ^ a.length * 2 ^ (8 - p) := by
        rw [show 8 * (a.length + 1) - p = 8 * a.length + (8 - p) by omega, Nat.pow_add,
          Nat.pow_mul]
      have hquot (x : UInt8) {A : ℕ} (h : A < 256 ^ a.length) :
          (x.toNat * 256 ^ a.length + A) / 2 ^ (8 * (a.length + 1) - p) =
            x.toNat / 2 ^ (8 - p) := by
        rw [hexp, ← Nat.div_div_eq_div_mul, Nat.mul_comm x.toNat,
          Nat.mul_add_div (by positivity), Nat.div_eq_of_lt h, Nat.add_zero]
      rw [agree, if_neg h8, hquot x hA, hquot y hB, beq_iff_eq]
      exact and_topMask_eq_iff x y (by omega)

/-- **Agreement, bit by bit**: the first bit is that of the highest weight. -/
theorem agree_iff_testBit {a b : List UInt8} (hlen : a.length = b.length) {p : ℕ}
    (hp : p ≤ 8 * a.length) :
    agree p a b = true ↔ ∀ i < p, (ofBytes a).testBit (8 * a.length - 1 - i) =
      (ofBytes b).testBit (8 * a.length - 1 - i) := by
  have ha := ofBytes_lt a
  have hb := ofBytes_lt b
  rw [← hlen] at hb
  rw [show 256 = 2 ^ 8 from rfl, ← Nat.pow_mul] at ha hb
  rw [agree_iff_div hlen hp]
  generalize 8 * a.length = m at hp ha hb ⊢
  constructor
  · intro h i hi
    have hbit := congrArg (Nat.testBit · (p - 1 - i)) h
    simpa only [Nat.testBit_div_two_pow, show p - 1 - i + (m - p) = m - 1 - i by omega] using hbit
  · intro h
    refine Nat.eq_of_testBit_eq fun j => ?_
    rw [Nat.testBit_div_two_pow, Nat.testBit_div_two_pow]
    by_cases hj : j < p
    · have hbit := h (p - 1 - j) (by omega)
      rwa [show m - 1 - (p - 1 - j) = j + (m - p) by omega] at hbit
    · -- both values end below
      have hpow : 2 ^ m ≤ 2 ^ (j + (m - p)) := Nat.pow_le_pow_right (by decide) (by omega)
      rw [Nat.testBit_lt_two_pow (ha.trans_le hpow), Nat.testBit_lt_two_pow (hb.trans_le hpow)]

end BitPrefix
