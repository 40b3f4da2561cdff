import Mathlib.Data.List.Basic
import Mathlib.Tactic.Common

/-!
# Histories

A history is the list of what happened, the oldest first.  Conditions of the kind "whenever
this happens, that happened before" are conditions on every entry and what precedes it.

## Main definitions

* `History.Each` — every entry meets a condition on the entries before it.

## Main results

* `History.each_snoc` — a longer history: the old entries and the new one.
-/

namespace History

open List

variable {α : Type*} {P Q : List α → α → Prop}

/-- Every entry meets `P` together with the entries before it. -/
def Each (P : List α → α → Prop) (l : List α) : Prop :=
  ∀ pre a post, l = pre ++ a :: post → P pre a

@[simp] theorem each_nil : Each P [] := by
  intro pre a post h
  simp at h

/-- A longer history. -/
@[simp] theorem each_snoc (l : List α) (a : α) : Each P (l ++ [a]) ↔ Each P l ∧ P l a := by
  constructor
  · intro h
    refine ⟨fun pre b post heq => ?_, h l a [] rfl⟩
    exact h pre b (post ++ [a]) (by rw [heq, append_assoc, cons_append])
  · rintro ⟨hl, ha⟩ pre b post heq
    rcases eq_nil_or_concat post with rfl | ⟨post, c, rfl⟩
    · obtain ⟨rfl, hb⟩ := append_inj' heq rfl
      obtain rfl := singleton_inj.mp hb
      exact ha
    · have hsplit : l ++ [a] = (pre ++ b :: post) ++ [c] := by
        rw [heq, append_assoc, cons_append, concat_eq_append]
      exact hl pre b post (append_inj' hsplit rfl).1

end History
