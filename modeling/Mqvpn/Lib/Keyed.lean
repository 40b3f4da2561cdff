import Mathlib.Data.List.Basic
import Mathlib.Data.List.Nodup
import Mathlib.Data.List.Perm.Basic
import Mathlib.Tactic.Common

/-!
# Lists with keys

A list whose elements have a key, no two the same.  An element is found, replaced and taken
out by its key.

## Main definitions

* `Keyed.find`, `Keyed.put`, `Keyed.remove`, `Keyed.behind`.

## Main results

* `Keyed.map_put` — replacing an element by one with the same attribute keeps the list of the
  attributes.
* `Keyed.perm_remove` — **taking an element out leaves the others.**
-/

namespace Keyed

open List

variable {α β κ : Type*} [DecidableEq κ] {key : α → κ} {l : List α} {x y : α} {k : κ}

def find (key : α → κ) (k : κ) (l : List α) : Option α := l.find? fun y => key y == k

/-- Put an element in the place of the one with its key. -/
def put (key : α → κ) (x : α) (l : List α) : List α :=
  l.map fun y => if key y = key x then x else y

/-- Take the element with the key out. -/
def remove (key : α → κ) (k : κ) (l : List α) : List α := l.eraseP fun y => key y == k

/-- The elements behind the one with the key. -/
def behind (key : α → κ) (k : κ) (l : List α) : List α :=
  (l.dropWhile fun y => key y != k).tail

theorem find_eq_some (h : find key k l = some x) : x ∈ l ∧ key x = k := by
  have hkey := find?_some h
  exact ⟨mem_of_find?_eq_some h, by simpa using hkey⟩

theorem find_eq_none_iff : find key k l = none ↔ ∀ y ∈ l, key y ≠ k := by
  simp [find, find?_eq_none]

omit [DecidableEq κ] in
/-- Keys are unique. -/
theorem eq_of_key (hl : (l.map key).Nodup) (hx : x ∈ l) (hy : y ∈ l) (h : key x = key y) :
    x = y :=
  inj_on_of_nodup_map hl hx hy h

theorem find_of_mem (hl : (l.map key).Nodup) (hx : x ∈ l) : find key (key x) l = some x := by
  cases hfind : find key (key x) l with
  | none => exact absurd rfl (find_eq_none_iff.mp hfind x hx)
  | some y =>
    obtain ⟨hy, hkey⟩ := find_eq_some hfind
    rw [eq_of_key hl hy hx hkey]

/-- An attribute the new element shares with the one it replaces. -/
theorem map_put (g : α → β) (h : ∀ y ∈ l, key y = key x → g x = g y) :
    (put key x l).map g = l.map g := by
  rw [put, map_map]
  apply map_congr_left
  intro y hy
  rw [Function.comp_apply]
  split
  · next hkey => exact h y hy hkey
  · rfl

theorem mem_put (h : y ∈ put key x l) : y = x ∨ y ∈ l ∧ key y ≠ key x := by
  obtain ⟨z, hz, rfl⟩ := mem_map.mp h
  split
  · exact .inl rfl
  · next hkey => exact .inr ⟨hz, hkey⟩

theorem map_remove (g : α → β) (key' : β → κ) (h : ∀ y, key' (g y) = key y) (k : κ)
    (l : List α) : (remove key k l).map g = remove key' k (l.map g) := by
  rw [remove, remove, eraseP_map]
  congr 2
  funext y
  rw [Function.comp_apply, h]

/-- **Taking an element out leaves the others.** -/
theorem perm_remove (hl : (l.map key).Nodup) (hx : x ∈ l) :
    l.Perm (x :: remove key (key x) l) := by
  obtain ⟨y, l₁, l₂, -, hkey, hsplit, herase⟩ :=
    exists_of_eraseP (p := fun y => key y == key x) hx (beq_self_eq_true _)
  have hy : y ∈ l := by simp [hsplit]
  obtain rfl := eq_of_key hl hy hx (by simpa using hkey)
  rw [remove, herase, hsplit]
  exact perm_middle

theorem mem_remove_iff (hl : (l.map key).Nodup) (hx : x ∈ l) :
    y ∈ remove key (key x) l ↔ y ∈ l ∧ key y ≠ key x := by
  have hperm := perm_remove hl hx
  have hnodup : (key x :: (remove key (key x) l).map key).Nodup :=
    (hperm.map key).nodup_iff.mp hl
  constructor
  · intro hy
    refine ⟨mem_of_mem_eraseP hy, fun heq => (nodup_cons.mp hnodup).1 ?_⟩
    exact mem_map.mpr ⟨y, hy, heq⟩
  · rintro ⟨hy, hkey⟩
    rcases mem_cons.mp (hperm.mem_iff.mp hy) with rfl | hmem
    · exact absurd rfl hkey
    · exact hmem

end Keyed
