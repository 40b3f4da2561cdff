import Mathlib.Data.List.Perm.Basic
import Mathlib.Data.Nat.Bitwise
import Mathlib.Tactic.Common

/-!
# Coverage

A buffer is filled by pieces that arrive in any order, each with the offset it starts at.
They may overlap; where they do, they have to agree.  What the pieces cover, and what the
buffer then holds there, depends on the set of pieces only.

Which positions have arrived is kept in a bitmap, eight positions to a byte.

## Main definitions

* `Piece`, `Covered`, `Agree` — pieces, the positions they cover, pieces that agree.
* `write`, `Holds` — put a piece into a buffer; the buffer holds every piece.
* `IsRun C n` — `n` positions from the first on have arrived, the next one has not.
* `Bitmap.test`, `Bitmap.set` — a position of the bitmap.

## Main results

* `Holds.write` — writing one more piece that agrees with the others keeps them.
* `Holds.getElem?_eq` — two buffers that hold the same pieces agree on what is covered.
* `Bitmap.test_set` — setting a position sets that position only.
-/

namespace Coverage

open List

variable {α : Type*} {n m : ℕ}

/-- Something that starts at `offset`. -/
structure Piece (α : Type*) where
  offset : ℕ
  data : List α
  deriving DecidableEq

namespace Piece

/-- The position behind the last one. -/
def stop (p : Piece α) : ℕ := p.offset + p.data.length

/-- The piece has `x` at position `i`. -/
def At (p : Piece α) (i : ℕ) (x : α) : Prop := p.offset ≤ i ∧ p.data[i - p.offset]? = some x

def Covers (p : Piece α) (i : ℕ) : Prop := p.offset ≤ i ∧ i < p.stop

instance (p : Piece α) (i : ℕ) : Decidable (p.Covers i) :=
  inferInstanceAs (Decidable (_ ∧ _))

theorem At.covers {p : Piece α} {i : ℕ} {x : α} (h : p.At i x) : p.Covers i := by
  obtain ⟨hle, hget⟩ := h
  have hlt := (List.getElem?_eq_some_iff.mp hget).1
  exact ⟨hle, by unfold stop; omega⟩

theorem Covers.exists_at {p : Piece α} {i : ℕ} (h : p.Covers i) : ∃ x, p.At i x := by
  obtain ⟨hle, hlt⟩ := h
  unfold stop at hlt
  exact ⟨_, hle, getElem?_eq_getElem (by omega)⟩

end Piece

def Covered (ps : List (Piece α)) (i : ℕ) : Prop := ∃ p ∈ ps, p.Covers i

/-- Pieces that overlap carry the same there. -/
def Agree (ps : List (Piece α)) : Prop :=
  ∀ p ∈ ps, ∀ q ∈ ps, ∀ i x y, p.At i x → q.At i y → x = y

variable {ps qs : List (Piece α)} {i : ℕ}

theorem covered_append : Covered (ps ++ qs) i ↔ Covered ps i ∨ Covered qs i := by
  simp only [Covered, mem_append, or_and_right, exists_or]

theorem covered_singleton {p : Piece α} : Covered [p] i ↔ p.Covers i := by
  simp [Covered]

theorem covered_perm (hp : ps.Perm qs) : Covered ps i ↔ Covered qs i := by
  simp only [Covered, hp.mem_iff]

theorem Agree.mono (h : Agree qs) (hsub : ∀ p ∈ ps, p ∈ qs) : Agree ps :=
  fun p hp q hq => h p (hsub p hp) q (hsub q hq)

/-! ### The buffer -/

/-- Put a piece where it belongs. -/
def write (buf : List α) (p : Piece α) : List α :=
  buf.take p.offset ++ p.data ++ buf.drop p.stop

variable {buf : List α}

section
variable {p : Piece α} {x : α} (h : p.stop ≤ buf.length)
include h

theorem length_write : (write buf p).length = buf.length := by
  unfold Piece.stop at h
  simp only [write, Piece.stop, length_append, length_take, length_drop]
  omega

/-- What a piece wrote is there. -/
theorem getElem?_write_at (hx : p.At i x) : (write buf p)[i]? = some x := by
  have hcov := hx.covers
  obtain ⟨hle, hget⟩ := hx
  unfold Piece.Covers Piece.stop at *
  have htake : (buf.take p.offset).length = p.offset := by
    rw [length_take]; omega
  rw [write, append_assoc, getElem?_append_right (by omega), htake,
    getElem?_append_left (by omega), hget]

/-- What a piece does not cover stays. -/
theorem getElem?_write_of_not_covers (hi : ¬ p.Covers i) : (write buf p)[i]? = buf[i]? := by
  unfold Piece.Covers Piece.stop at *
  have htake : (buf.take p.offset).length = p.offset := by
    rw [length_take]; omega
  rw [write, append_assoc]
  by_cases hlt : i < p.offset
  · rw [getElem?_append_left (by omega), getElem?_take_of_lt hlt]
  · rw [getElem?_append_right (by omega), htake, getElem?_append_right (by omega),
      getElem?_drop, Piece.stop]
    congr 1
    omega

/-! Parts of a buffer that was written to. -/

theorem drop_write {m : ℕ} (hm : m ≤ p.offset) :
    (write buf p).drop m = write (buf.drop m) ⟨p.offset - m, p.data⟩ := by
  unfold Piece.stop at h
  have hlen : (buf.take p.offset).length = p.offset := by
    rw [length_take]
    omega
  simp only [write, Piece.stop]
  rw [append_assoc, drop_append_of_le_length (by omega), drop_take,
    drop_drop, append_assoc]
  congr 3
  omega

theorem drop_write_of_stop_le {m : ℕ} (hm : p.stop ≤ m) : (write buf p).drop m = buf.drop m := by
  unfold Piece.stop at h hm
  have hlen : (buf.take p.offset ++ p.data).length = p.offset + p.data.length := by
    rw [length_append, length_take]
    omega
  simp only [write, Piece.stop]
  rw [drop_append, drop_of_length_le (by omega), nil_append, hlen, drop_drop]
  congr 1
  omega

theorem take_write_of_le {m : ℕ} (hm : m ≤ p.offset) : (write buf p).take m = buf.take m := by
  unfold Piece.stop at h
  have hlen : (buf.take p.offset).length = p.offset := by
    rw [length_take]
    omega
  rw [write, append_assoc, take_append_of_le_length (by omega), take_take,
    Nat.min_eq_left hm]

theorem take_write {m : ℕ} (hm : p.stop ≤ m) : (write buf p).take m = write (buf.take m) p := by
  unfold Piece.stop at h hm
  have hlen : (buf.take p.offset ++ p.data).length = p.offset + p.data.length := by
    rw [length_append, length_take]
    omega
  simp only [write, Piece.stop]
  rw [take_append, take_of_length_le (by omega), hlen, take_take,
    Nat.min_eq_left (by omega), drop_take]

/-- What was written is read. -/
theorem slice_write : ((write buf p).drop p.offset).take p.data.length = p.data := by
  rw [drop_write h (Nat.le_refl _), Nat.sub_self, write]
  simp

/-- What lies beside it is read as before. -/
theorem slice_write_of_disjoint {i n : ℕ} (hi : i + n ≤ p.offset ∨ p.stop ≤ i) :
    ((write buf p).drop i).take n = (buf.drop i).take n := by
  rcases hi with hbefore | hbehind
  · rw [drop_write h (by omega), take_write_of_le]
    · simp only [Piece.stop, length_drop] at h ⊢
      omega
    · simp only
      omega
  · rw [drop_write_of_stop_le h hbehind]

end

/-- Writing twice to one place. -/
theorem write_write {offset : ℕ} {xs ys : List α} (hlen : xs.length = ys.length)
    (h : offset + xs.length ≤ buf.length) :
    write (write buf ⟨offset, xs⟩) ⟨offset, ys⟩ = write buf ⟨offset, ys⟩ := by
  have hstop : Piece.stop ⟨offset, xs⟩ ≤ buf.length := h
  rw [write, take_write_of_le hstop (Nat.le_refl _), drop_write_of_stop_le hstop]
  · rfl
  · exact Nat.le_of_eq (congrArg (offset + ·) hlen)

/-- Two buffers differ between `a` and `b` only. -/
structure Within (p q : List α) (a b : ℕ) : Prop where
  length : p.length = q.length
  beside : ∀ i n, i + n ≤ a ∨ b ≤ i → (p.drop i).take n = (q.drop i).take n

namespace Within

variable {p q r : List α} {a b c d : ℕ}

theorem refl (p : List α) (a b : ℕ) : Within p p a b := ⟨rfl, fun _ _ _ => rfl⟩

variable (h : Within p q a b)
include h

theorem trans (h' : Within q r a b) : Within p r a b :=
  ⟨h.length.trans h'.length, fun i n hi => (h.beside i n hi).trans (h'.beside i n hi)⟩

theorem mono (ha : c ≤ a) (hb : b ≤ d) : Within p q c d :=
  ⟨h.length, fun i n hi => h.beside i n (by omega)⟩

omit h in
theorem write {piece : Piece α} (h : piece.stop ≤ q.length) :
    Within (write q piece) q piece.offset piece.stop :=
  ⟨length_write h, fun _ _ hi => slice_write_of_disjoint h hi⟩

theorem drop {m : ℕ} (hm : b ≤ m) : p.drop m = q.drop m := by
  have hall := h.beside m p.length (.inr hm)
  rwa [take_of_length_le (by rw [length_drop]; omega),
    take_of_length_le (by rw [length_drop, h.length]; omega)] at hall

theorem take {m : ℕ} (hm : m ≤ a) : p.take m = q.take m :=
  h.beside 0 m (.inl (by omega))

theorem getElem? (hi : i < a ∨ b ≤ i) : p[i]? = q[i]? := by
  have hone := congrArg head? (h.beside i 1 (by omega))
  simpa only [head?_take, head?_drop, one_ne_zero, if_false] using hone

theorem getD (hi : i < a ∨ b ≤ i) (x : α) : p.getD i x = q.getD i x := by
  rw [getD_eq_getElem?_getD, getD_eq_getElem?_getD, h.getElem? hi]

end Within

/-- The buffer holds what the pieces carry. -/
def Holds (ps : List (Piece α)) (buf : List α) : Prop :=
  ∀ p ∈ ps, ∀ i x, p.At i x → buf[i]? = some x

/-- Pieces cut out of one buffer agree. -/
theorem Holds.agree {ps : List (Piece α)} (h : Holds ps buf) : Agree ps :=
  fun p hp q hq i x y hx hy =>
    Option.some.inj ((h p hp i x hx).symm.trans (h q hq i y hy))

theorem Piece.At.of_slice {offset len i : ℕ} {x : α}
    (h : Piece.At ⟨offset, (buf.drop offset).take len⟩ i x) : buf[i]? = some x := by
  obtain ⟨hle, hget⟩ := h
  dsimp only at hle hget
  have hlt : i - offset < len := by
    by_contra hge
    rw [getElem?_take_eq_none (Nat.not_lt.mp hge)] at hget
    cases hget
  rwa [getElem?_take_of_lt hlt, getElem?_drop, Nat.add_sub_cancel' hle] at hget

/-- **One more piece**: where it overlaps an earlier one it carries the same. -/
theorem Holds.write {ps : List (Piece α)} {p : Piece α} (h : Holds ps buf)
    (hagree : Agree (ps ++ [p])) (hstop : p.stop ≤ buf.length) :
    Holds (ps ++ [p]) (write buf p) := by
  intro q hq i x hx
  have hmem : p ∈ ps ++ [p] := by simp
  by_cases hcov : p.Covers i
  · obtain ⟨y, hy⟩ := hcov.exists_at
    have hxy : x = y := hagree q hq p hmem i x y hx hy
    rw [getElem?_write_at hstop hy, hxy]
  · rw [getElem?_write_of_not_covers hstop hcov]
    rcases mem_append.mp hq with hq | hq
    · exact h q hq i x hx
    · obtain rfl : q = p := by simpa using hq
      exact absurd hx.covers hcov

/-- Buffers that hold the same pieces agree on what these cover. -/
theorem Holds.getElem?_eq {buf buf' : List α} (h : Holds ps buf) (h' : Holds qs buf')
    (hp : ps.Perm qs) (hi : Covered ps i) : buf[i]? = buf'[i]? := by
  obtain ⟨p, hp', hcov⟩ := hi
  obtain ⟨x, hx⟩ := hcov.exists_at
  rw [h p hp' i x hx, h' p (hp.mem_iff.mp hp') i x hx]

/-! ### The longest run -/

/-- Exactly `n` positions from the first on have arrived without a gap. -/
def IsRun (C : ℕ → Prop) (n : ℕ) : Prop := (∀ i < n, C i) ∧ ¬ C n

theorem IsRun.unique {C D : ℕ → Prop} (h : IsRun C n) (h' : IsRun D m) (hCD : ∀ i, C i ↔ D i) :
    n = m := by
  rcases Nat.lt_trichotomy n m with hlt | heq | hgt
  · exact absurd ((hCD n).mpr (h'.1 n hlt)) h.2
  · exact heq
  · exact absurd ((hCD m).mp (h.1 m hgt)) h'.2

/-! ### The bitmap -/

namespace Bitmap

def bit (i : ℕ) : UInt8 := UInt8.ofNat (1 <<< (i % 8))

def test (bm : List UInt8) (i : ℕ) : Bool := bm.getD (i / 8) 0 &&& bit i != 0

def set (bm : List UInt8) (i : ℕ) : List UInt8 := bm.modify (i / 8) (· ||| bit i)

theorem toNat_bit (i : ℕ) : (bit i).toNat = 2 ^ (i % 8) := by
  have hlt : 2 ^ (i % 8) < 2 ^ 8 := Nat.pow_lt_pow_right (by decide) (Nat.mod_lt _ (by decide))
  simp only [bit, Nat.one_shiftLeft, UInt8.toNat_ofNat', Nat.mod_eq_of_lt hlt]

/-- **The bridge**: a position is marked when its bit is set. -/
theorem test_eq_testBit (bm : List UInt8) (i : ℕ) :
    test bm i = (bm.getD (i / 8) 0).toNat.testBit (i % 8) := by
  have hand : (bm.getD (i / 8) 0 &&& bit i).toNat =
      ((bm.getD (i / 8) 0).toNat.testBit (i % 8)).toNat * 2 ^ (i % 8) := by
    rw [UInt8.toNat_and, toNat_bit, Nat.and_two_pow]
  unfold test
  cases hbit : (bm.getD (i / 8) 0).toNat.testBit (i % 8) with
  | false =>
    have hzero : bm.getD (i / 8) 0 &&& bit i = 0 := by
      apply UInt8.toNat_inj.mp
      rw [hand, hbit]
      simp
    rw [hzero]
    rfl
  | true =>
    rw [bne_iff_ne]
    intro hzero
    rw [hzero, hbit] at hand
    have hpos : 0 < 2 ^ (i % 8) := Nat.two_pow_pos _
    rw [Bool.toNat_true, Nat.one_mul] at hand
    exact absurd hand (Nat.ne_of_lt hpos)

@[simp] theorem length_set (bm : List UInt8) (i : ℕ) : (set bm i).length = bm.length := by
  simp [set]

/-- **Setting a position sets that position only.** -/
theorem test_set {bm : List UInt8} (hi : i / 8 < bm.length) (j : ℕ) :
    test (set bm i) j = (test bm j || decide (i = j)) := by
  rw [test_eq_testBit, test_eq_testBit]
  by_cases hbyte : i / 8 = j / 8
  · have hget : (set bm i).getD (j / 8) 0 = bm.getD (j / 8) 0 ||| bit i := by
      rw [← hbyte, getD_eq_getElem?_getD, set, getElem?_modify_eq,
        getElem?_eq_getElem hi, getD_eq_getElem?_getD, getElem?_eq_getElem hi]
      rfl
    rw [hget, UInt8.toNat_or, toNat_bit, Nat.testBit_or, Nat.testBit_two_pow]
    congr 1
    apply decide_eq_decide.mpr
    omega
  · have hget : (set bm i).getD (j / 8) 0 = bm.getD (j / 8) 0 := by
      rw [getD_eq_getElem?_getD, set, getElem?_modify_ne _ _ hbyte,
        getD_eq_getElem?_getD]
    have hne : i ≠ j := fun h => hbyte (by rw [h])
    rw [hget, decide_eq_false hne, Bool.or_false]

end Bitmap

end Coverage
