import Mathlib.Data.List.Nodup
import Mathlib.Data.List.Perm.Basic
import Mathlib.Tactic.Common

/-!
# Reassembly

A stream arrives as numbered pieces in any order, and is handed on in the order of
the numbers for as long as none is missing.  What has been handed on once the pieces
`A` are in is the longest run of consecutive numbers from the first on: it depends on
the set of pieces only, not on their order.

## Main definitions

* `Reassembly.IsMaxRun s A D` — `D` is that run: consecutive from `s` on, made of
  pieces of `A`, and the next number is not in `A`.

## Main results

* `Reassembly.IsMaxRun.eq_of_perm` — **the run does not depend on the order of arrival**.
* `Reassembly.perm_filter_of_run` — nor does the set of pieces that wait behind it.
-/

namespace Reassembly

open List

variable {α : Type*} {s : ℕ} {A A' D D' H : List (ℕ × α)}

/-- `D` is the longest run of consecutive numbers from `s` on among the pieces `A`. -/
structure IsMaxRun (s : ℕ) (A D : List (ℕ × α)) : Prop where
  seqs : D.map Prod.fst = List.range' s D.length
  mem : ∀ x ∈ D, x ∈ A
  stop : ∀ x ∈ A, x.1 ≠ s + D.length

theorem IsMaxRun.fst_getElem (h : IsMaxRun s A D) {i : ℕ} (hi : i < D.length) :
    (D[i]).1 = s + i := by
  have hget : (D.map Prod.fst)[i]? = (range' s D.length)[i]? := by rw [h.seqs]
  rw [getElem?_map, getElem?_eq_getElem hi, getElem?_range' hi] at hget
  simpa using hget

theorem IsMaxRun.length_le (h : IsMaxRun s A D) (h' : IsMaxRun s A' D') (hp : A.Perm A') :
    D'.length ≤ D.length := by
  -- a longer run would contain the number at which the other one stops
  by_contra hlt
  rw [Nat.not_le] at hlt
  exact h.stop _ (hp.symm.subset (h'.mem _ (getElem_mem hlt))) (h'.fst_getElem hlt)

/-- **The run does not depend on the order of arrival.** -/
theorem IsMaxRun.eq_of_perm (h : IsMaxRun s A D) (h' : IsMaxRun s A' D') (hp : A.Perm A')
    (hnd : (A.map Prod.fst).Nodup) : D = D' := by
  have hlen : D.length = D'.length :=
    Nat.le_antisymm (h'.length_le h hp.symm) (h.length_le h' hp)
  refine ext_getElem hlen fun i hi hi' => ?_
  apply inj_on_of_nodup_map hnd
  · exact h.mem _ (getElem_mem hi)
  · exact hp.symm.subset (h'.mem _ (getElem_mem hi'))
  · rw [h.fst_getElem hi, h'.fst_getElem hi']

/-- Pieces split into a run and those beyond it: the latter are told by their number. -/
theorem perm_filter_of_run {e : ℕ} (hp : (D ++ H).Perm A) (hD : ∀ x ∈ D, x.1 < e)
    (hH : ∀ x ∈ H, e ≤ x.1) : H.Perm (A.filter fun x => decide (e ≤ x.1)) := by
  have hfilter := hp.filter fun x => decide (e ≤ x.1)
  have hnone : D.filter (fun x => decide (e ≤ x.1)) = [] := by
    rw [filter_eq_nil_iff]
    intro x hx
    have := hD x hx
    simpa using this
  have hall : H.filter (fun x => decide (e ≤ x.1)) = H :=
    filter_eq_self.mpr fun x hx => by simpa using hH x hx
  rwa [filter_append, hnone, hall, nil_append] at hfilter

end Reassembly
