import Mathlib.Algebra.GroupWithZero.Nat
import Mathlib.Data.List.Basic
import Mathlib.Tactic.Common

/-!
# Segments

A long list is cut into pieces of one size, the last of which may be shorter.  Lists that look
like such a cut can be joined and cut again: nothing changes.

## Main definitions

* `Segments.cut` — cut a list into pieces of a size.
* `Segments.IsCut` — the pieces of a cut: all of the size, but for the last.

## Main results

* `Segments.cut_flatten` — **joined and cut again**, such pieces are what they were.
-/

namespace Segments

open List

variable {α : Type*} {n : ℕ}

/-- Cut off pieces of size `n`, as many as `fuel` at most. -/
def cutLoop (n : ℕ) : ℕ → List α → List (List α)
  | 0, _ => []
  | fuel + 1, xs => if xs.isEmpty then [] else xs.take n :: cutLoop n fuel (xs.drop n)

/-- Cut a list into pieces of size `n`. -/
def cut (n : ℕ) (xs : List α) : List (List α) := cutLoop n xs.length xs

/-- All pieces have size `n`, but the last may be shorter; none is empty. -/
def IsCut (n : ℕ) : List (List α) → Prop
  | [] => True
  | [d] => 0 < d.length ∧ d.length ≤ n
  | d :: ds => d.length = n ∧ IsCut n ds

variable {ds : List (List α)}

theorem isCut_cons {d e : List α} :
    IsCut n (d :: e :: ds) ↔ d.length = n ∧ IsCut n (e :: ds) := Iff.rfl

theorem isCut_tail {d : List α} (h : IsCut n (d :: ds)) : IsCut n ds := by
  cases ds with
  | nil => trivial
  | cons e ds => exact (isCut_cons.mp h).2

/-- Every piece has something, if the size has. -/
theorem IsCut.length_pos (hn : 0 < n) : ∀ {ds : List (List α)}, IsCut n ds →
    ∀ d ∈ ds, 0 < d.length ∧ d.length ≤ n := by
  intro ds
  induction ds with
  | nil => intro _ d hd; exact absurd hd not_mem_nil
  | cons d ds ih =>
    intro h e he
    rcases mem_cons.mp he with rfl | he
    · cases ds with
      | nil => exact h
      | cons _ _ =>
        have := (isCut_cons.mp h).1
        omega
    · exact ih (isCut_tail h) e he

/-- The loop on pieces that are joined gives the pieces. -/
theorem cutLoop_flatten (hn : 0 < n) : ∀ (ds : List (List α)) (fuel : ℕ), IsCut n ds →
    ds.flatten.length ≤ fuel → cutLoop n fuel ds.flatten = ds := by
  intro ds
  induction ds with
  | nil =>
    intro fuel _ _
    cases fuel <;> rfl
  | cons d ds ih =>
    intro fuel h hfuel
    have hpos := (h.length_pos hn d (mem_cons_self ..)).1
    rw [flatten_cons, length_append] at hfuel
    cases fuel with
    | zero => omega
    | succ fuel =>
      have hne : (d ++ ds.flatten).isEmpty = false := by
        cases d with
        | nil => exact absurd hpos (Nat.lt_irrefl 0)
        | cons _ _ => rfl
      -- a piece before another one has exactly the size, the last one ends the list
      have hsplit : (d ++ ds.flatten).take n = d ∧ (d ++ ds.flatten).drop n = ds.flatten := by
        cases ds with
        | nil =>
          have hle : d.length ≤ n := h.2
          rw [flatten_nil, append_nil]
          exact ⟨take_of_length_le hle, drop_of_length_le hle⟩
        | cons e ds =>
          have heq : d.length = n := (isCut_cons.mp h).1
          exact ⟨take_left' heq, drop_left' heq⟩
      rw [flatten_cons, cutLoop, hne, hsplit.1, hsplit.2,
        ih fuel (isCut_tail h) (by omega)]
      rfl

/-- **Joined and cut again.** -/
theorem cut_flatten (hn : 0 < n) (h : IsCut n ds) : cut n ds.flatten = ds :=
  cutLoop_flatten hn ds _ h (Nat.le_refl _)

end Segments
