import Mathlib.Data.Nat.ModEq
import Mathlib.Tactic.Ring

/-!
# One's complement sums

The checksum of the Internet protocols: a message is read as words of 16 bits, an odd last byte
with a zero behind it, and the words are added with the carries folded back in.  The checksum field
holds the complement of the sum, so that a message with its field sums up to `0xffff`.

Adding with the carries folded back is addition modulo `65535`.  As `256 * 256` is `1` there, the
words may be read with either byte first: the sums of the two readings differ by a factor that has
an inverse, so both are zero or none is.

## Main definitions

* `OnesComplement.wordSum` — the sum of the words, with either byte first.
* `OnesComplement.fold` — the carries folded back in.
* `OnesComplement.field` — the complement of a sum, never zero.

## Main results

* `OnesComplement.fold_eq_iff` — what sums up to `0xffff`.
* `OnesComplement.wordSum_append`, `OnesComplement.wordSum_swap` — sums of parts, and of the other
  reading.
* `OnesComplement.verifies` — **a message with its field verifies**, whichever way it was summed.
-/

namespace OnesComplement

open List

/-! ### Words -/

/-- Which byte of a number comes first in memory. -/
inductive Endian
  | little
  | big
  deriving DecidableEq

/-- The number that two bytes stand for. -/
def Endian.word : Endian → UInt8 → UInt8 → ℕ
  | .little, a, b => a.toNat + b.toNat * 256
  | .big, a, b => a.toNat * 256 + b.toNat

/-- The bytes of a number of 16 bits. -/
def Endian.bytes : Endian → ℕ → List UInt8
  | .little, n => [.ofNat n, .ofNat (n / 256)]
  | .big, n => [.ofNat (n / 256), .ofNat n]

def wordSum (e : Endian) : List UInt8 → ℕ
  | [] => 0
  | [a] => e.word a 0
  | a :: b :: rest => e.word a b + wordSum e rest

theorem word_lt (e : Endian) (a b : UInt8) : e.word a b < 65536 := by
  have ha := a.toNat_lt
  have hb := b.toNat_lt
  cases e <;> simp only [Endian.word] <;> omega

@[simp] theorem length_bytes (e : Endian) (n : ℕ) : (e.bytes n).length = 2 := by
  cases e <;> rfl

theorem wordSum_bytes (e : Endian) {n : ℕ} (h : n < 65536) : wordSum e (e.bytes n) = n := by
  cases e <;> simp [wordSum, Endian.bytes, Endian.word] <;> omega

/-- A part of even length does not shift the words behind it. -/
theorem wordSum_append (e : Endian) : ∀ (k : ℕ) (xs ys : List UInt8), xs.length = 2 * k →
    wordSum e (xs ++ ys) = wordSum e xs + wordSum e ys := by
  intro k
  induction k with
  | zero =>
    intro xs ys h
    rw [length_eq_zero_iff.mp h, nil_append]
    simp [wordSum]
  | succ k ih =>
    intro xs ys h
    match xs with
    | [] => simp at h
    | [a] => simp at h; omega
    | a :: b :: xs =>
      have hlen : xs.length = 2 * k := by
        simp only [length_cons] at h
        omega
      simp only [cons_append, wordSum, ih xs ys hlen]
      omega

theorem wordSum_le (e : Endian) : ∀ xs : List UInt8, wordSum e xs ≤ 65536 * xs.length
  | [] => Nat.le_refl 0
  | [a] => by
    have := word_lt e a 0
    simp only [wordSum, length_singleton]
    omega
  | a :: b :: rest => by
    have := word_lt e a b
    have := wordSum_le e rest
    simp only [wordSum, length_cons]
    omega

theorem wordSum_swap : ∀ xs : List UInt8,
    wordSum .little xs ≡ 256 * wordSum .big xs [MOD 65535]
  | [] => rfl
  | [a] => by
    have h : 256 * wordSum .big [a] = wordSum .little [a] + 65535 * a.toNat := by
      simp [wordSum, Endian.word]
      omega
    rw [h]
    simp [Nat.ModEq]
  | a :: b :: rest => by
    have h : 256 * Endian.word .big a b = Endian.word .little a b + 65535 * a.toNat := by
      simp only [Endian.word]
      omega
    have hword : Endian.word .little a b ≡ 256 * Endian.word .big a b [MOD 65535] := by
      rw [h]
      simp [Nat.ModEq]
    rw [wordSum, wordSum, Nat.mul_add]
    exact hword.add (wordSum_swap rest)

/-- If one reading sums up to zero, the other does. -/
theorem wordSum_big_mod {e : Endian} {xs : List UInt8} (h : wordSum e xs ≡ 0 [MOD 65535]) :
    wordSum .big xs ≡ 0 [MOD 65535] := by
  cases e with
  | big => exact h
  | little =>
    have hswap := (wordSum_swap xs).symm.trans h
    have hback := hswap.mul_left 256
    rw [← Nat.mul_assoc] at hback
    -- `256 * 256` is one
    have hone : 256 * 256 * wordSum .big xs ≡ wordSum .big xs [MOD 65535] := by
      have : 256 * 256 * wordSum .big xs = wordSum .big xs + 65535 * wordSum .big xs := by ring
      rw [this]
      simp [Nat.ModEq]
    exact hone.symm.trans hback

/-! ### Folding -/

/-- Fold the carries back in, a number of times at most. -/
def foldLoop : ℕ → ℕ → ℕ
  | 0, n => n
  | fuel + 1, n => if n / 65536 = 0 then n else foldLoop fuel (n % 65536 + n / 65536)

/-- Fold the carries of a number of 64 bits. -/
def fold (n : ℕ) : ℕ := foldLoop 5 n

theorem foldLoop_mod : ∀ fuel n : ℕ, foldLoop fuel n ≡ n [MOD 65535] := by
  intro fuel
  induction fuel with
  | zero => intro n; rfl
  | succ fuel ih =>
    intro n
    unfold foldLoop
    split
    · rfl
    · refine (ih _).trans ?_
      have hsplit : n = n % 65536 + n / 65536 + 65535 * (n / 65536) := by omega
      conv_rhs => rw [hsplit]
      simp [Nat.ModEq]

theorem foldLoop_eq_zero : ∀ fuel n : ℕ, foldLoop fuel n = 0 ↔ n = 0 := by
  intro fuel
  induction fuel with
  | zero => intro n; rfl
  | succ fuel ih =>
    intro n
    unfold foldLoop
    split
    · rfl
    · rw [ih]
      omega

theorem foldLoop_succ_lt {fuel m b : ℕ} (hm : m ≤ b)
    (hnext : ∀ k, k ≤ 65535 + b / 65536 → foldLoop fuel k < 65536) :
    foldLoop (fuel + 1) m < 65536 := by
  unfold foldLoop
  split
  · omega
  · exact hnext _ (by omega)

/-- Two rounds are enough for what is hardly longer than a word. -/
theorem foldLoop_lt {fuel n : ℕ} (h : n ≤ 131071) : foldLoop (fuel + 2) n < 65536 := by
  refine foldLoop_succ_lt h fun k hk => ?_
  unfold foldLoop
  split
  · omega
  · cases fuel <;> simp only [foldLoop] <;> [skip; split] <;> omega

/-- Five rounds are enough. -/
theorem fold_lt {n : ℕ} (h : n < 2 ^ 64) : fold n < 65536 :=
  foldLoop_succ_lt (Nat.le_of_lt h) fun _ h₁ => foldLoop_succ_lt h₁ fun _ h₂ =>
    foldLoop_succ_lt h₂ fun _ h₃ => foldLoop_lt (Nat.le_trans h₃ (by decide))

/-- **What sums up to `0xffff`**: a multiple of it that is not zero. -/
theorem fold_eq_iff {n : ℕ} (h : n < 2 ^ 64) : fold n = 0xffff ↔ n ≠ 0 ∧ n ≡ 0 [MOD 65535] := by
  have hmod : fold n ≡ n [MOD 65535] := foldLoop_mod 5 n
  have hzero : fold n = 0 ↔ n = 0 := foldLoop_eq_zero 5 n
  have hlt := fold_lt h
  constructor
  · intro heq
    refine ⟨fun hn => ?_, ?_⟩
    · rw [hzero.mpr hn] at heq
      cases heq
    · rw [heq] at hmod
      exact hmod.symm
  · rintro ⟨hne, hn⟩
    have hpos : fold n ≠ 0 := fun hf => hne (hzero.mp hf)
    have hdvd := (Nat.modEq_zero_iff_dvd.mp (hmod.trans hn))
    obtain ⟨k, hk⟩ := hdvd
    omega

/-- A number and the complement of its fold sum up to `0xffff`. -/
theorem fold_add_complement {n f : ℕ} (h : n < 2 ^ 63) (hlt : f < 65536)
    (hmod : f ≡ n [MOD 65535]) (hzero : f = 0 ↔ n = 0) : fold (n + (0xffff - f)) = 0xffff := by
  rw [fold_eq_iff (by omega)]
  refine ⟨by omega, (hmod.symm.add_right _).trans ?_⟩
  rw [Nat.add_sub_cancel' (Nat.le_of_lt_succ hlt)]
  rfl

/-- Numbers that are congruent have one fold, unless one of them is zero and the other is not. -/
theorem fold_congr {m n : ℕ} (hm : m < 2 ^ 64) (hn : n < 2 ^ 64) (h : m ≡ n [MOD 65535])
    (hzero : m = 0 ↔ n = 0) : fold m = fold n := by
  have hmod : fold m ≡ fold n [MOD 65535] :=
    (foldLoop_mod 5 m).trans (h.trans (foldLoop_mod 5 n).symm)
  have hiff : fold m = 0 ↔ fold n = 0 := by
    rw [fold, fold, foldLoop_eq_zero, foldLoop_eq_zero, hzero]
  have := fold_lt hm
  have := fold_lt hn
  unfold Nat.ModEq at hmod
  omega

/-! ### The field -/

/-- The complement of a sum; zero is written in its other form. -/
def field (acc : ℕ) : ℕ :=
  let c := 0xffff - fold acc
  if c = 0 then 0xffff else c

theorem field_pos (acc : ℕ) : 0 < field acc := by
  unfold field
  dsimp only
  split <;> omega

theorem field_lt (acc : ℕ) : field acc < 65536 := by
  unfold field
  dsimp only
  split <;> omega

/-- The field makes up for the sum. -/
theorem add_field_mod {acc : ℕ} (h : acc < 2 ^ 64) : acc + field acc ≡ 0 [MOD 65535] := by
  have hmod : fold acc ≡ acc [MOD 65535] := foldLoop_mod 5 acc
  have hlt := fold_lt h
  refine (hmod.symm.add_right _).trans ?_
  unfold field
  dsimp only
  split
  · next hfull =>
    have hmax : fold acc = 65535 := by omega
    rw [hmax]
    decide
  · have hsum : fold acc + (65535 - fold acc) = 65535 := by omega
    rw [hsum]
    decide

/-- **A message with its field verifies**, if the field was computed from the message with a zero
there, summed in either reading. -/
theorem verifies {e : Endian} {pre post : List UInt8} {k acc : ℕ} (hpre : pre.length = 2 * k)
    (hacc : acc < 2 ^ 64) (hsum : acc ≡ wordSum e (pre ++ [0, 0] ++ post) [MOD 65535])
    (hsize : wordSum .big (pre ++ e.bytes (field acc) ++ post) < 2 ^ 64) :
    fold (wordSum .big (pre ++ e.bytes (field acc) ++ post)) = 0xffff := by
  have hparts : ∀ (e' : Endian) (x : List UInt8), x.length = 2 →
      wordSum e' (pre ++ x ++ post) = wordSum e' pre + wordSum e' x + wordSum e' post := by
    intro e' x hx
    rw [wordSum_append e' (k + 1) (pre ++ x) post (by rw [length_append]; omega),
      wordSum_append e' k pre x hpre]
  have hfield : wordSum e (e.bytes (field acc)) = field acc := wordSum_bytes e (field_lt acc)
  have hzero : wordSum e [0, 0] = 0 := by cases e <;> rfl
  rw [fold_eq_iff hsize]
  constructor
  · -- the field is not zero
    have hne : wordSum .big (e.bytes (field acc)) ≠ 0 := by
      have hpos := field_pos acc
      have hlt := field_lt acc
      cases e <;> simp [wordSum, Endian.bytes, Endian.word] <;> omega
    rw [hparts .big _ (length_bytes e _)]
    omega
  · refine @wordSum_big_mod e _ ?_
    rw [hparts e _ (length_bytes e _), hfield]
    rw [hparts e _ rfl, hzero, Nat.add_zero] at hsum
    have hall := (hsum.symm.add_right (field acc)).trans (add_field_mod hacc)
    rwa [Nat.add_right_comm] at hall

end OnesComplement
