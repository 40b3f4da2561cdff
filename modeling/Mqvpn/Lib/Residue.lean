import Mathlib.Data.List.Perm.Basic
import Mathlib.Data.Nat.ModEq
import Mathlib.Tactic.Common

/-!
# Cells addressed by residue

A ring keeps the item with number `k` in cell `k % n` of an array of `n` cells.
Each cell carries an optional number, read off by `key`: `none` is a free cell.  As
long as the numbers held lie in a window of `n` consecutive ones, no two of them
share a cell, and the array is a finite set of numbers with constant-time
membership.

Nothing here knows what a cell holds besides its number; totals over the occupied
cells are read off the permutations `occupied_set_fill`, `occupied_set_clear` and
`placed_rehash`.

## Main definitions

* `Residue.occupied` — the occupied cells.
* `Residue.Placed` — every occupied cell stands at the residue of its number.
* `Residue.rehash` — move the items into a fresh array of another size.

## Main results

* `Residue.Placed.getElem?` — an occupied cell is found at its residue.
* `Residue.placed_rehash` — **rehashing a window keeps every item**.
-/

namespace Residue

open List

variable {α : Type*} {key : α → Option ℕ}

/-- The occupied cells, in array order. -/
def occupied (key : α → Option ℕ) (l : List α) : List α := l.filter fun a => (key a).isSome

/-- Every occupied cell stands at the residue of its number. -/
def Placed (key : α → Option ℕ) (l : List α) : Prop :=
  ∀ i a k, l[i]? = some a → key a = some k → k % l.length = i

section
variable {l : List α}

theorem mem_occupied {a : α} : a ∈ occupied key l ↔ a ∈ l ∧ ∃ k, key a = some k := by
  rw [occupied, mem_filter, Option.isSome_iff_exists]

theorem length_occupied_le (l : List α) : (occupied key l).length ≤ l.length :=
  length_filter_le _ _

/-- Two numbers of one window with the same residue are equal. -/
theorem eq_of_mod_eq {e n j k : ℕ} (hj : e ≤ j ∧ j < e + n) (hk : e ≤ k ∧ k < e + n)
    (h : j % n = k % n) : j = k := by
  have key : ∀ a b : ℕ, e ≤ a → b < e + n → a ≤ b → a % n = b % n → a = b := by
    intro a b ha hb hab hmod
    have hdvd : n ∣ b - a := (Nat.modEq_iff_dvd' hab).mp hmod
    have hzero : b - a = 0 := Nat.eq_zero_of_dvd_of_lt hdvd (by omega)
    omega
  rcases Nat.le_total j k with hle | hle
  · exact key j k hj.1 hk.2 hle h
  · exact (key k j hk.1 hj.2 hle h.symm).symm

/-! ### Lookup -/

theorem Placed.getElem? (h : Placed key l) {a : α} {k : ℕ} (ha : a ∈ l) (hk : key a = some k) :
    l[k % l.length]? = some a := by
  obtain ⟨i, hi⟩ := mem_iff_getElem?.mp ha
  rw [h i a k hi hk]
  exact hi

/-- The cell of a number of the window that is not held is free: an occupant would share
both window and residue with it. -/
theorem Placed.free (h : Placed key l) {a : α} {e k : ℕ} (hget : l[k % l.length]? = some a)
    (hk : e ≤ k ∧ k < e + l.length) (hwin : ∀ b ∈ l, ∀ j, key b = some j → e ≤ j ∧ j < e + l.length)
    (hnew : ∀ b ∈ l, key b ≠ some k) : key a = none := by
  have ha : a ∈ l := mem_of_getElem? hget
  cases hj : key a with
  | none => rfl
  | some j =>
    have hres : j % l.length = k % l.length := h _ a j hget hj
    obtain rfl : j = k := eq_of_mod_eq (hwin a ha j hj) hk hres
    exact absurd hj (hnew a ha)

theorem placed_replicate {e : α} (he : key e = none) (n : ℕ) :
    Placed key (List.replicate n e) := by
  intro i a k hi hk
  have ha : a = e := eq_of_mem_replicate (mem_of_getElem? hi)
  rw [ha, he] at hk
  cases hk

theorem occupied_replicate {e : α} (he : key e = none) (n : ℕ) :
    occupied key (List.replicate n e) = [] := by
  rw [occupied, filter_eq_nil_iff]
  intro a ha
  rw [eq_of_mem_replicate ha, he]
  simp

/-! ### Writing one cell -/

theorem Placed.set (h : Placed key l) {i : ℕ} {a : α}
    (ha : ∀ k, key a = some k → k % l.length = i) : Placed key (l.set i a) := by
  intro j b k hj hk
  rw [length_set]
  rw [getElem?_set] at hj
  split at hj
  · next hij =>
    split at hj
    · cases hj
      rw [← hij]
      exact ha k hk
    · cases hj
  · exact h j b k hj hk

/-- Freeing an occupied cell removes its item. -/
theorem occupied_set_clear : ∀ {l : List α} {i : ℕ} {a b : α} {k : ℕ}, l[i]? = some a →
    key a = some k → key b = none → (occupied key l).Perm (a :: occupied key (l.set i b)) := by
  intro l
  induction l with
  | nil => intro i a b k h _ _; simp at h
  | cons c l ih =>
    intro i a b k h ha hb
    cases i with
    | zero =>
      obtain rfl : c = a := by simpa using h
      simp [occupied, ha, hb]
    | succ i =>
      have h' : l[i]? = some a := by simpa using h
      have hp := ih h' ha hb
      rw [set_cons_succ]
      unfold occupied at hp ⊢
      rw [filter_cons, filter_cons]
      split
      · exact (hp.cons c).trans (List.Perm.swap a c _)
      · exact hp

/-- Writing an item into a free cell adds it. -/
theorem occupied_set_fill {i : ℕ} {a b : α} {k : ℕ} (h : l[i]? = some b) (hb : key b = none)
    (ha : key a = some k) : (occupied key (l.set i a)).Perm (a :: occupied key l) := by
  obtain ⟨hi, rfl⟩ := List.getElem?_eq_some_iff.mp h
  have hclear := occupied_set_clear (l := l.set i a) (i := i) (by simp [hi]) ha hb
  rwa [set_set, set_getElem_self] at hclear

end

/-! ### Rehashing -/

/-- One cell of the old array, moved into the new one. -/
def rehashStep (key : α → Option ℕ) (n : ℕ) (acc : List α) (a : α) : List α :=
  match key a with
  | none => acc
  | some k => acc.set (k % n) a

/-- The items of `l` in a fresh array of `n` cells, all `e` before. -/
def rehash (key : α → Option ℕ) (e : α) (n : ℕ) (l : List α) : List α :=
  l.foldl (rehashStep key n) (List.replicate n e)

theorem length_foldl_rehashStep (n : ℕ) : ∀ (l acc : List α),
    (l.foldl (rehashStep key n) acc).length = acc.length := by
  intro l
  induction l with
  | nil => intro acc; rfl
  | cons a l ih =>
    intro acc
    rw [foldl_cons, ih]
    unfold rehashStep
    split <;> simp

theorem length_rehash (e : α) (n : ℕ) (l : List α) : (rehash key e n l).length = n := by
  rw [rehash, length_foldl_rehashStep, length_replicate]

/-- The rehash loop, from any partly filled new array `acc`.  The numbers still to
come, and those already moved, are pairwise distinct and lie in one window. -/
theorem rehash_loop {w n : ℕ} (hn : 0 < n) : ∀ (l acc : List α), acc.length = n →
    Placed key acc →
    (∀ a ∈ acc ++ l, ∀ k, key a = some k → w ≤ k ∧ k < w + n) →
    (l.filterMap key).Nodup →
    (∀ a ∈ acc, ∀ k, key a = some k → k ∉ l.filterMap key) →
    Placed key (l.foldl (rehashStep key n) acc) ∧
      (occupied key (l.foldl (rehashStep key n) acc)).Perm
        (occupied key l ++ occupied key acc) := by
  intro l
  -- the window covers both arrays, so that it survives the move of a cell from one to the other
  induction l with
  | nil => intro acc _ hp _ _ _; exact ⟨hp, by simp [occupied]⟩
  | cons a l ih =>
    intro acc hlen hp hwin hnd hdisj
    rw [foldl_cons]
    cases ha : key a with
    | none =>
      have hstep : rehashStep key n acc a = acc := by simp [rehashStep, ha]
      have hocc : occupied key (a :: l) = occupied key l := by simp [occupied, ha]
      rw [hstep, hocc]
      rw [filterMap_cons_none ha] at hnd
      refine ih acc hlen hp (fun b hb => hwin b ?_) hnd (fun b hb k hk => ?_)
      · simp only [mem_append, mem_cons] at hb ⊢
        tauto
      · have := hdisj b hb k hk
        rwa [filterMap_cons_none ha] at this
    | some k =>
      have hstep : rehashStep key n acc a = acc.set (k % n) a := by simp [rehashStep, ha]
      have hocc : occupied key (a :: l) = a :: occupied key l := by simp [occupied, ha]
      rw [filterMap_cons_some ha, nodup_cons] at hnd
      have hi : k % n < acc.length := by rw [hlen]; exact Nat.mod_lt _ hn
      have hget : acc[k % n]? = some (acc.get ⟨k % n, hi⟩) := getElem?_eq_getElem hi
      have hfree : key (acc.get ⟨k % n, hi⟩) = none := by
        subst hlen
        refine hp.free hget (hwin a (by simp) k ha)
          (fun b hb => hwin b (mem_append_left _ hb)) fun b hb hk => ?_
        exact hdisj b hb k hk (by simp [ha])
      have hfill := occupied_set_fill hget hfree ha
      have hmemset : ∀ b ∈ acc.set (k % n) a, b ∈ acc ∨ b = a :=
        fun b hb => mem_or_eq_of_mem_set hb
      rw [hstep, hocc]
      obtain ⟨hp', hperm⟩ := ih (acc.set (k % n) a) (by simp [hlen])
        (hp.set fun j hj => by rw [ha] at hj; cases hj; rw [hlen])
        (fun b hb j hj => by
          refine hwin b ?_ j hj
          rcases mem_append.mp hb with hb | hb
          · rcases hmemset b hb with hb | rfl
            · exact mem_append_left _ hb
            · simp
          · simp [hb])
        hnd.2
        (fun b hb j hj => by
          rcases hmemset b hb with hb | rfl
          · have := hdisj b hb j hj
            rw [filterMap_cons_some ha, mem_cons, not_or] at this
            exact this.2
          · rw [ha] at hj
            cases hj
            exact hnd.1)
      refine ⟨hp', hperm.trans ?_⟩
      exact (hfill.append_left _).trans perm_middle

theorem placed_rehash {e : α} (he : key e = none) {w n : ℕ} (hn : 0 < n) {l : List α}
    (hwin : ∀ a ∈ l, ∀ k, key a = some k → w ≤ k ∧ k < w + n) (hnd : (l.filterMap key).Nodup) :
    Placed key (rehash key e n l) ∧ (occupied key (rehash key e n l)).Perm (occupied key l) := by
  have hrep : ∀ a ∈ replicate n e, ∀ k, key a ≠ some k := by
    intro a ha k
    rw [eq_of_mem_replicate ha, he]
    simp
  have h := rehash_loop (w := w) hn l (replicate n e) (by simp) (placed_replicate he n)
    (fun a ha k hk => by
      rcases mem_append.mp ha with ha | ha
      · exact absurd hk (hrep a ha k)
      · exact hwin a ha k hk)
    hnd (fun a ha k hk => absurd hk (hrep a ha k))
  rw [occupied_replicate he, append_nil] at h
  exact h

/-- The numbers held are pairwise distinct. -/
theorem Placed.nodup : ∀ {l : List α}, Placed key l → (l.filterMap key).Nodup := by
  intro l h
  rw [List.Nodup, pairwise_filterMap, pairwise_iff_getElem]
  intro i j hi hj hij k hk k' hk' heq
  subst heq
  have h1 := h i _ k (getElem?_eq_getElem hi) hk
  have h2 := h j _ k (getElem?_eq_getElem hj) hk'
  omega

end Residue
