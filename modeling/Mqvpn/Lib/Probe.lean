import Mathlib.Data.Finset.Card
import Mathlib.Data.Finset.Range
import Mathlib.Logic.Function.Basic
import Mathlib.Tactic.SplitIfs
import Mqvpn.Lib.Slots

/-!
# Linear probing

A hash table of `N` slots: an entry stands in the first free slot at or behind the home of its
key, the slots taken in a circle.  An entry is removed by shifting back those behind it, so that
no search ever has to pass a hole.

Distances in the circle are written as `offset`, the number of steps from one slot to another.
With it, "the search for a key passes `q` before `p`" is an inequality of offsets from the home of
the key, and the reasoning about the circle is linear arithmetic.

## Main definitions

* `Probe.Table` — the slots, and the number of entries that the program keeps.
* `Probe.find`, `Probe.insert`, `Probe.remove` — the operations.
* `Probe.lookup` — the map that a table stands for.
* `Probe.WF` — every search reaches its entry, keys are unique, the count is right.

## Main results

* `Probe.find_eq_some_iff` — a search ends at the slot of its key.
* `Probe.WF.insert`, `Probe.WF.remove`, `Probe.WF.modify` — the operations keep a table in order.
* `Probe.lookup_insert`, `Probe.lookup_remove`, `Probe.lookup_modify` — **they act on the map** as
  their names say.
* `Probe.WF.acts` — a table in order with room acts as a map.
-/

namespace Probe

open Function

/-! ### The circle -/

/-- The number of steps from slot `a` to slot `b`. -/
def offset (N a b : ℕ) : ℕ := if a ≤ b then b - a else b + N - a

/-- The slot behind `i`. -/
def next (N i : ℕ) : ℕ := (i + 1) % N

section Circle

variable {N a b h i j p : ℕ}

theorem next_eq (hi : i < N) : next N i = if i + 1 = N then 0 else i + 1 := by
  unfold next
  split
  · next hlast => rw [hlast, Nat.mod_self]
  · exact Nat.mod_eq_of_lt (by omega)

theorem next_lt (hi : i < N) : next N i < N := Nat.mod_lt _ (by omega)

theorem offset_lt (ha : a < N) (hb : b < N) : offset N a b < N := by
  unfold offset
  split_ifs <;> omega

@[simp] theorem offset_self : offset N a a = 0 := by simp [offset]

theorem offset_pos (ha : a < N) (hne : b ≠ a) : 0 < offset N a b := by
  unfold offset
  split_ifs <;> omega

theorem eq_of_offset_eq (hh : h < N) (hi : i < N) (hj : j < N) (heq : offset N h i = offset N h j) :
    i = j := by
  unfold offset at heq
  split_ifs at heq <;> omega

/-- One step on, unless that comes back to the start. -/
theorem offset_next (hh : h < N) (hi : i < N) (hne : next N i ≠ h) :
    offset N h (next N i) = offset N h i + 1 := by
  rw [next_eq hi] at *
  unfold offset
  split_ifs at * <;> omega

/-- Before the start there is the whole circle. -/
theorem offset_of_next_eq (hi : i < N) (heq : next N i = h) : offset N h i + 1 = N := by
  rw [next_eq hi] at heq
  unfold offset
  split_ifs at * <;> omega

/-- A chain from `h` past `i` to a slot beyond `j` passes the slot behind `j`. -/
theorem offset_next_lt (hh : h < N) (hi : i < N) (hj : j < N) (hp : p < N)
    (hchain : offset N h i < offset N h p) (hbeyond : offset N i j < offset N i p)
    (hne : p ≠ next N j) (hback : next N j ≠ i) : offset N h (next N j) < offset N h p := by
  rw [next_eq hj] at *
  unfold offset at *
  split_ifs at * <;> omega

/-- What held of every slot before `i`, and holds there, holds before the next one; or of the
whole circle, if that comes back to the start. -/
theorem passed_next {P : ℕ → Prop} (hh : h < N) (hi : i < N)
    (hpast : ∀ q < N, offset N h q < offset N h i → P q) (hP : P i) :
    (next N i = h → ∀ q < N, P q) ∧
      (next N i ≠ h → ∀ q < N, offset N h q < offset N h (next N i) → P q) := by
  have hpast' : ∀ q < N, offset N h q ≤ offset N h i → P q := by
    intro q hq hle
    rcases Nat.lt_or_eq_of_le hle with hlt | heq
    · exact hpast q hq hlt
    · rwa [eq_of_offset_eq hh hq hi heq]
  refine ⟨fun hwrap q hq => hpast' q hq ?_, fun hwrap q hq hlt => hpast' q hq ?_⟩
  · have hlast := offset_of_next_eq hi hwrap
    have := offset_lt hh hq
    omega
  · rw [offset_next hh hi hwrap] at hlt
    omega

end Circle

/-! ### The table -/

/-- The slots of a table, and the number of its entries as the program counts them. -/
structure Table (K V : Type*) where
  slots : ℕ → Option (K × V)
  n : ℕ

variable {K V : Type*} (N : ℕ) (home : K → ℕ)

def empty : Table K V := ⟨fun _ => none, 0⟩

/-- Search for a key from slot `i` on. -/
def findLoop [DecidableEq K] (s : ℕ → Option (K × V)) (k : K) : ℕ → ℕ → Option ℕ
  | 0, _ => none
  | fuel + 1, i =>
    match s i with
    | none => none
    | some e => if e.1 = k then some i else findLoop s k fuel (next N i)

def find [DecidableEq K] (t : Table K V) (k : K) : Option ℕ := findLoop N t.slots k N (home k)

/-- The map that a table stands for. -/
def lookup [DecidableEq K] (t : Table K V) (k : K) : Option V :=
  (find N home t k).bind fun i => (t.slots i).map Prod.snd

/-- The first free slot from `i` on. -/
def freeLoop (s : ℕ → Option (K × V)) : ℕ → ℕ → ℕ
  | 0, i => i
  | fuel + 1, i => if (s i).isSome then freeLoop s fuel (next N i) else i

/-- Put a new entry into the first free slot behind its home. -/
def insert (t : Table K V) (k : K) (v : V) : Table K V :=
  ⟨update t.slots (freeLoop N t.slots N (home k)) (some (k, v)), t.n + 1⟩

/-- The home `h` lies behind the hole `i`, and not behind `j`. -/
def between (i j h : ℕ) : Bool := if i ≤ j then i < h && h ≤ j else i < h || h ≤ j

/-- Shift back into the hole `i` what may stand there, from behind `j` to the next free slot; the
answer has the last hole. -/
def shiftLoop : ℕ → (ℕ → Option (K × V)) → ℕ → ℕ → (ℕ → Option (K × V)) × ℕ
  | 0, s, i, _ => (s, i)
  | fuel + 1, s, i, j =>
    let j := next N j
    match s j with
    | none => (s, i)
    | some e =>
      if between i j (home e.1) then shiftLoop fuel s i j
      else shiftLoop fuel (update s i (some e)) j j

/-- Remove the entry in slot `i`. -/
def remove (t : Table K V) (i : ℕ) : Table K V :=
  let r := shiftLoop N home N t.slots i i
  ⟨update r.1 r.2 none, t.n - 1⟩

/-- Change the values where they stand. -/
def mapValues (t : Table K V) (f : K → V → V) : Table K V :=
  ⟨fun i => (t.slots i).map fun e => (e.1, f e.1 e.2), t.n⟩

/-- Write a value into the slot `i`. -/
def modify (t : Table K V) (i : ℕ) (k : K) (v : V) : Table K V :=
  ⟨update t.slots i (some (k, v)), t.n⟩

/-! ### Order -/

/-- The slots that hold an entry. -/
def occupied (s : ℕ → Option (K × V)) : Finset ℕ :=
  (Finset.range N).filter fun q => (s q).isSome

/-- A table in order. -/
structure WF (t : Table K V) : Prop where
  /-- The search for a key passes no free slot before its entry. -/
  reach : ∀ p < N, ∀ e, t.slots p = some e → ∀ q < N,
    offset N (home e.1) q < offset N (home e.1) p → t.slots q ≠ none
  unique : ∀ p < N, ∀ q < N, ∀ e e', t.slots p = some e → t.slots q = some e' → e.1 = e'.1 → p = q
  count : (occupied N t.slots).card = t.n

variable {N home}

section
variable {s : ℕ → Option (K × V)}

theorem mem_occupied {q : ℕ} : q ∈ occupied N s ↔ q < N ∧ s q ≠ none := by
  simp [occupied, Option.isSome_iff_ne_none]

theorem WF.empty : WF N home (empty : Table K V) where
  reach p _ e he := by cases he
  unique p _ q _ e e' he := by cases he
  count := by simp [occupied, Probe.empty]

/-- A table that is not full has a free slot. -/
theorem WF.room {t : Table K V} (h : WF N home t) (hn : t.n < N) :
    ∃ q < N, t.slots q = none := by
  by_contra hno
  have hfull : occupied N t.slots = Finset.range N := by
    ext q
    rw [mem_occupied, Finset.mem_range]
    exact ⟨fun hq => hq.1, fun hq => ⟨hq, fun hnone => hno ⟨q, hq, hnone⟩⟩⟩
  have := h.count
  rw [hfull, Finset.card_range] at this
  omega

/-- Only the keys and their places matter. -/
theorem WF.congr {t t' : Table K V} (h : WF N home t)
    (hkeys : ∀ q, (t'.slots q).map Prod.fst = (t.slots q).map Prod.fst) (hn : t'.n = t.n) :
    WF N home t' := by
  have hsome : ∀ {q e}, t'.slots q = some e → ∃ e', t.slots q = some e' ∧ e'.1 = e.1 := by
    intro q e he
    have := hkeys q
    rw [he, Option.map_some] at this
    obtain ⟨e', he', hk⟩ := Option.map_eq_some_iff.mp this.symm
    exact ⟨e', he', hk⟩
  have hnone : ∀ q, t'.slots q = none ↔ t.slots q = none := by
    intro q
    have := hkeys q
    cases h₁ : t'.slots q <;> cases h₂ : t.slots q <;> simp_all
  refine ⟨?_, ?_, ?_⟩
  · intro p hp e he q hq hlt
    obtain ⟨e', he', hk⟩ := hsome he
    rw [Ne, hnone]
    exact h.reach p hp e' he' q hq (by rwa [hk])
  · intro p hp q hq e e' he he' hk
    obtain ⟨f, hf, hfk⟩ := hsome he
    obtain ⟨f', hf', hfk'⟩ := hsome he'
    exact h.unique p hp q hq f f' hf hf' (by rw [hfk, hfk', hk])
  · rw [hn, ← h.count]
    congr 1
    ext q
    rw [mem_occupied, mem_occupied, Ne, hnone]

/-- An entry written over a free slot, or over one of its key, changes what belongs to the key. -/
theorem exists_update_iff {i : ℕ} (hi : i < N) {k : K} (hover : ∀ e, s i = some e → e.1 = k)
    (hothers : ∀ p < N, p ≠ i → ∀ e, s p = some e → e.1 ≠ k) (v : V) (k' : K) (w : V) :
    (∃ p < N, update s i (some (k, v)) p = some (k', w)) ↔
      (k' = k ∧ w = v) ∨ (k' ≠ k ∧ ∃ p < N, s p = some (k', w)) := by
  constructor
  · rintro ⟨p, hp, he⟩
    obtain ⟨-, he⟩ | ⟨hpi, he⟩ := Slots.of_update he
    · cases he
      exact .inl ⟨rfl, rfl⟩
    · exact .inr ⟨hothers p hp hpi _ he, p, hp, he⟩
  · rintro (⟨rfl, rfl⟩ | ⟨hne, p, hp, he⟩)
    · exact ⟨i, hi, update_self ..⟩
    · have hpi : p ≠ i := by
        rintro rfl
        exact hne (hover _ he)
      exact ⟨p, hp, by rw [update_of_ne hpi]; exact he⟩

/-! ### The searches -/

/-- From `i` on, the first free slot is found. -/
theorem freeLoop_spec (hhome : ∀ k, home k < N) (hroom : ∃ q < N, s q = none) (k : K) :
    ∀ (fuel i : ℕ), i < N → N ≤ offset N (home k) i + fuel →
      (∀ q < N, offset N (home k) q < offset N (home k) i → s q ≠ none) →
      freeLoop N s fuel i < N ∧ s (freeLoop N s fuel i) = none ∧
        ∀ q < N, offset N (home k) q < offset N (home k) (freeLoop N s fuel i) → s q ≠ none := by
  intro fuel
  induction fuel with
  | zero =>
    intro i hi hfuel
    have := offset_lt (hhome k) hi
    omega
  | succ fuel ih =>
    intro i hi hfuel hpast
    unfold freeLoop
    cases hs : s i with
    | none => exact ⟨hi, hs, hpast⟩
    | some e =>
      rw [Option.isSome_some, if_pos rfl]
      obtain ⟨hall, hnext⟩ := passed_next (hhome k) hi hpast (hs ▸ Option.some_ne_none e)
      by_cases hwrap : next N i = home k
      · obtain ⟨q, hq, hfree⟩ := hroom
        exact absurd hfree (hall hwrap q hq)
      · have hstep := offset_next (hhome k) hi hwrap
        exact ih _ (next_lt hi) (by omega) (hnext hwrap)

end

/-- The slot that an insertion takes. -/
theorem freeSlot (hhome : ∀ k, home k < N) {t : Table K V} (h : WF N home t) (hn : t.n < N)
    (k : K) :
    ∃ i < N, t.slots i = none ∧
      (∀ q < N, offset N (home k) q < offset N (home k) i → t.slots q ≠ none) ∧
      ∀ v, insert N home t k v = ⟨update t.slots i (some (k, v)), t.n + 1⟩ := by
  obtain ⟨hlt, hfree, hpast⟩ := freeLoop_spec hhome (h.room hn) k N (home k) (hhome k)
    (by simp) (fun q _ hlt => by simp at hlt)
  exact ⟨_, hlt, hfree, hpast, fun v => rfl⟩

section Find

variable [DecidableEq K] {t : Table K V} (hhome : ∀ k, home k < N)

include hhome

variable (h : WF N home t)
include h

/-- Up to slot `i` nothing but other keys was met, and the search goes on from there. -/
theorem findLoop_spec (hroom : ∃ q < N, t.slots q = none) (k : K) :
    ∀ (fuel i : ℕ), i < N → N ≤ offset N (home k) i + fuel →
      (∀ q < N, offset N (home k) q < offset N (home k) i →
        ∃ e, t.slots q = some e ∧ e.1 ≠ k) →
      (∀ p, findLoop N t.slots k fuel i = some p → p < N ∧ ∃ v, t.slots p = some (k, v)) ∧
      (findLoop N t.slots k fuel i = none → ∀ p < N, ∀ v, t.slots p ≠ some (k, v)) := by
  intro fuel
  induction fuel with
  | zero =>
    intro i hi hfuel
    have := offset_lt (hhome k) hi
    omega
  | succ fuel ih =>
    intro i hi hfuel hpast
    unfold findLoop
    cases hs : t.slots i with
    | none =>
      refine ⟨fun p hp => (by cases hp), fun _ => ?_⟩
      intro p hp v hv
      -- the entry would stand before `i`, where it was not met, or behind a free slot
      rcases Nat.lt_trichotomy (offset N (home k) p) (offset N (home k) i) with hlt | heq | hgt
      · obtain ⟨e, he, hne⟩ := hpast p hp hlt
        rw [hv] at he
        cases he
        exact hne rfl
      · obtain rfl := eq_of_offset_eq (hhome k) hp hi heq
        rw [hs] at hv
        cases hv
      · exact h.reach p hp (k, v) hv i hi hgt hs
    | some e =>
      dsimp only
      by_cases hk : e.1 = k
      · rw [if_pos hk]
        refine ⟨fun p hp => ?_, fun hp => (by cases hp)⟩
        cases hp
        exact ⟨hi, e.2, by rw [hs, ← hk]⟩
      · rw [if_neg hk]
        obtain ⟨hall, hnext⟩ := passed_next (hhome k) hi hpast ⟨e, hs, hk⟩
        by_cases hwrap : next N i = home k
        · -- the whole circle was passed, but there is a free slot
          obtain ⟨q, hq, hfree⟩ := hroom
          obtain ⟨e', he', -⟩ := hall hwrap q hq
          rw [hfree] at he'
          cases he'
        · have hstep := offset_next (hhome k) hi hwrap
          exact ih _ (next_lt hi) (by omega) (hnext hwrap)

/-- A search ends at the slot of its key. -/
theorem find_eq_some_iff (hn : t.n < N) {k : K} {p : ℕ} :
    find N home t k = some p ↔ p < N ∧ ∃ v, t.slots p = some (k, v) := by
  have hspec := findLoop_spec hhome h (h.room hn) k N (home k) (hhome k) (by simp)
    (fun q _ hlt => by simp at hlt)
  refine ⟨hspec.1 p, fun ⟨hp, v, hv⟩ => ?_⟩
  cases hf : find N home t k with
  | none => exact absurd hv (hspec.2 hf p hp v)
  | some q =>
    obtain ⟨hq, w, hw⟩ := hspec.1 q hf
    rw [h.unique q hq p hp _ _ hw hv rfl]

theorem lookup_eq_some_iff (hn : t.n < N) {k : K} {v : V} :
    lookup N home t k = some v ↔ ∃ p < N, t.slots p = some (k, v) := by
  unfold lookup
  constructor
  · intro hl
    obtain ⟨p, hp, hv⟩ := Option.bind_eq_some_iff.mp hl
    obtain ⟨hlt, w, hw⟩ := (find_eq_some_iff hhome h hn).mp hp
    rw [hw, Option.map_some] at hv
    cases hv
    exact ⟨p, hlt, hw⟩
  · rintro ⟨p, hp, hv⟩
    rw [(find_eq_some_iff hhome h hn).mpr ⟨hp, v, hv⟩, Option.bind_some, hv]
    rfl

/-! ### Insertion -/

theorem key_ne_of_lookup_eq_none (hn : t.n < N) {k : K} (hk : lookup N home t k = none) {p : ℕ}
    (hp : p < N) {e : K × V} (he : t.slots p = some e) : e.1 ≠ k := by
  rintro rfl
  rw [(lookup_eq_some_iff hhome h hn).mpr ⟨p, hp, he⟩] at hk
  cases hk

theorem WF.insert (hn : t.n < N) {k : K} (hk : lookup N home t k = none) (v : V) :
    WF N home (insert N home t k v) := by
  obtain ⟨i, hi, hfree, hpast, hins⟩ := freeSlot hhome h hn k
  have hnew := fun p (hp : p < N) e (he : t.slots p = some e) =>
    key_ne_of_lookup_eq_none hhome h hn hk hp he
  rw [hins]
  refine ⟨?_, ?_, ?_⟩
  · intro p hp e he q hq hlt
    dsimp only at he ⊢
    by_cases hqi : q = i
    · rw [hqi, update_self]
      exact Option.some_ne_none _
    rw [update_of_ne hqi]
    obtain ⟨rfl, hv⟩ | ⟨-, he⟩ := Slots.of_update he
    · cases hv
      exact hpast q hq hlt
    · exact h.reach p hp e he q hq hlt
  · intro p hp q hq e e' he he' hkey
    obtain ⟨rfl, hv⟩ | ⟨-, hold⟩ := Slots.of_update he
    · obtain ⟨rfl, -⟩ | ⟨-, he'⟩ := Slots.of_update he'
      · rfl
      · cases hv
        exact absurd hkey.symm (hnew q hq e' he')
    · obtain ⟨rfl, hv⟩ | ⟨-, he'⟩ := Slots.of_update he'
      · cases hv
        exact absurd hkey (hnew p hp e hold)
      · exact h.unique p hp q hq e e' hold he' hkey
  · have hocc : occupied N (update t.slots i (some (k, v))) =
        Insert.insert i (occupied N t.slots) := by
      ext q
      rw [Finset.mem_insert, mem_occupied, mem_occupied]
      by_cases hqi : q = i
      · simp [hqi, hi]
      · simp [hqi]
    dsimp only
    rw [hocc, Finset.card_insert_of_notMem, h.count]
    rw [mem_occupied]
    exact fun hmem => hmem.2 hfree

theorem lookup_insert (hn : t.n + 1 < N) {k : K} (hk : lookup N home t k = none) (v : V) (k' : K) :
    lookup N home (insert N home t k v) k' = if k' = k then some v else lookup N home t k' := by
  have hn' : t.n < N := by omega
  have hwf := h.insert hhome hn' hk v
  obtain ⟨i, hi, hfree, -, hins⟩ := freeSlot hhome h hn' k
  have hcount : (insert N home t k v).n < N := by rw [hins]; exact hn
  have hnew := fun p (hp : p < N) e (he : t.slots p = some e) =>
    key_ne_of_lookup_eq_none hhome h hn' hk hp he
  ext w
  rw [lookup_eq_some_iff hhome hwf hcount, hins]
  dsimp only
  rw [exists_update_iff hi (fun e he => by rw [hfree] at he; cases he)
    (fun p hp _ => hnew p hp), ← lookup_eq_some_iff hhome h hn']
  by_cases hkk : k' = k
  · simp [hkk, eq_comm]
  · simp [hkk]

end Find

/-! ### Removal -/

/-- **The shift, under way.**  From slot `i₀` of the slots `s₀` an entry is removed; the hole is
at `i` now and everything up to `j` was looked at.  What stands in the hole is no entry. -/
structure Shifting (N : ℕ) (home : K → ℕ) (s₀ : ℕ → Option (K × V)) (i₀ : ℕ)
    (s : ℕ → Option (K × V)) (i j : ℕ) : Prop where
  hole_lt : i < N
  last_lt : j < N
  hole_le : offset N i₀ i ≤ offset N i₀ j
  /-- Nothing up to `j` is free, the slot of the hole included. -/
  looked : ∀ q < N, offset N i₀ q ≤ offset N i₀ j → s q ≠ none
  free : ∀ q, s q = none ↔ s₀ q = none
  reach : ∀ p < N, p ≠ i → ∀ e, s p = some e → ∀ q < N,
    offset N (home e.1) q < offset N (home e.1) p → s q ≠ none
  /-- A search past the hole leads beyond `j`. -/
  beyond : ∀ p < N, p ≠ i → ∀ e, s p = some e →
    offset N (home e.1) i < offset N (home e.1) p → offset N i j < offset N i p
  unique : ∀ p < N, p ≠ i → ∀ q < N, q ≠ i → ∀ e e', s p = some e → s q = some e' →
    e.1 = e'.1 → p = q
  entries : ∀ e, (∃ p < N, p ≠ i ∧ s p = some e) ↔ ∃ p < N, p ≠ i₀ ∧ s₀ p = some e

section Remove

variable {s₀ s : ℕ → Option (K × V)} {i₀ i j : ℕ}

theorem Shifting.start {t : Table K V} (h : WF N home t) (hi : i₀ < N) (hs : t.slots i₀ ≠ none) :
    Shifting N home t.slots i₀ t.slots i₀ i₀ where
  hole_lt := hi
  last_lt := hi
  hole_le := Nat.le_refl _
  looked q hq hle := by
    rw [offset_self] at hle
    obtain rfl : q = i₀ := by
      by_contra hne
      have := offset_pos hi hne
      omega
    exact hs
  free _ := Iff.rfl
  reach p hp _ := h.reach p hp
  beyond p _ hne _ _ _ := by
    rw [offset_self]
    exact offset_pos hi hne
  unique p hp _ q hq _ := h.unique p hp q hq
  entries _ := Iff.rfl

variable (hi₀ : i₀ < N) (hroom : ∃ q < N, s₀ q = none)
include hi₀ hroom

/-- The next slot is not the hole: there is a free slot before the circle closes. -/
theorem Shifting.next_ne (h : Shifting N home s₀ i₀ s i j) : next N j ≠ i₀ ∧ next N j ≠ i := by
  have hstart : next N j ≠ i₀ := by
    intro heq
    obtain ⟨q, hq, hfree⟩ := hroom
    have hlast := offset_of_next_eq h.last_lt heq
    have := offset_lt hi₀ hq
    exact h.looked q hq (by omega) ((h.free q).mpr hfree)
  refine ⟨hstart, fun heq => ?_⟩
  have hstep := offset_next hi₀ h.last_lt hstart
  have := h.hole_le
  rw [heq] at hstep
  omega

theorem Shifting.look (h : Shifting N home s₀ i₀ s i j) {e : K × V} (he : s (next N j) = some e) :
    ∀ q < N, offset N i₀ q ≤ offset N i₀ (next N j) → s q ≠ none := by
  intro q hq hle
  rw [offset_next hi₀ h.last_lt (h.next_ne hi₀ hroom).1] at hle
  rcases Nat.lt_or_eq_of_le hle with hlt | heq
  · exact h.looked q hq (by omega)
  · rw [← offset_next hi₀ h.last_lt (h.next_ne hi₀ hroom).1] at heq
    rw [eq_of_offset_eq hi₀ hq (next_lt h.last_lt) heq, he]
    exact Option.some_ne_none e

omit hi₀ hroom in
theorem between_iff {a b c : ℕ} (ha : a < N) (hb : b < N) (hc : c < N) (hne : b ≠ a) :
    between a b c = true ↔ ¬offset N c a < offset N c b := by
  unfold between offset
  split_ifs <;> simp <;> omega

variable (hhome : ∀ k, home k < N)

include hhome

/-- The entry behind `j` stays where it is. -/
theorem Shifting.stay (h : Shifting N home s₀ i₀ s i j) {e : K × V} (he : s (next N j) = some e)
    (hstay : between i (next N j) (home e.1) = true) :
    Shifting N home s₀ i₀ s i (next N j) := by
  obtain ⟨hne₀, hne⟩ := h.next_ne hi₀ hroom
  have hlt := next_lt h.last_lt
  have hstep := offset_next h.hole_lt h.last_lt hne
  rw [between_iff h.hole_lt hlt (hhome _) hne] at hstay
  refine { h with
    last_lt := hlt
    hole_le := ?_
    looked := h.look hi₀ hroom he
    beyond := ?_ }
  · have := h.hole_le
    rw [offset_next hi₀ h.last_lt hne₀]
    omega
  · intro p hp hpi e' he' hchain
    have hbeyond := h.beyond p hp hpi e' he' hchain
    -- the entry that was looked at does not lie beyond the hole
    have hpj : offset N i p ≠ offset N i (next N j) := by
      intro heq
      obtain rfl := eq_of_offset_eq h.hole_lt hp hlt heq
      rw [he] at he'
      cases he'
      exact hstay hchain
    omega

/-- The entry behind `j` moves into the hole. -/
theorem Shifting.move (h : Shifting N home s₀ i₀ s i j) {e : K × V} (he : s (next N j) = some e)
    (hmove : between i (next N j) (home e.1) = false) :
    Shifting N home s₀ i₀ (update s i (some e)) (next N j) (next N j) := by
  obtain ⟨hne₀, hne⟩ := h.next_ne hi₀ hroom
  have hlt := next_lt h.last_lt
  have hchain : offset N (home e.1) i < offset N (home e.1) (next N j) := by
    by_contra hno
    rw [(between_iff h.hole_lt hlt (hhome _) hne).mpr hno] at hmove
    cases hmove
  have hlook := h.look hi₀ hroom he
  have hnone : ∀ q, update s i (some e) q = none ↔ s q = none := by
    intro q
    by_cases hqi : q = i
    · have := h.looked i h.hole_lt h.hole_le
      rw [hqi, update_self]
      exact ⟨fun hn => (by cases hn), fun hn => absurd hn this⟩
    · rw [update_of_ne hqi]
  refine ⟨hlt, hlt, Nat.le_refl _, ?_, ?_, ?_, ?_, ?_, ?_⟩
  · intro q hq hle
    rw [Ne, hnone]
    exact hlook q hq hle
  · intro q
    rw [hnone, h.free]
  · intro p hp hpj e' he' q hq hlt'
    rw [Ne, hnone]
    obtain ⟨rfl, hv⟩ | ⟨hpi, he'⟩ := Slots.of_update he'
    · cases hv
      exact h.reach _ hlt hne e he q hq (Nat.lt_trans hlt' hchain)
    · exact h.reach p hp hpi e' he' q hq hlt'
  · intro p _ hpj e' _ _
    rw [offset_self]
    exact offset_pos hlt hpj
  · -- the moved entry is the one that stood behind `j`
    have hback : ∀ p < N, p ≠ next N j → ∀ f, update s i (some e) p = some f →
        ∃ q < N, q ≠ i ∧ s q = some f ∧ (q = next N j ↔ p = i) ∧ (p ≠ i → q = p) := by
      intro p hp hpj f hf
      obtain ⟨hpi, hf⟩ | ⟨hpi, hf⟩ := Slots.of_update hf
      · cases hf
        exact ⟨next N j, hlt, hne, he, by simp [hpi], fun h => absurd hpi h⟩
      · exact ⟨p, hp, hpi, hf, by simp [hpi, hpj], fun _ => rfl⟩
    intro p hp hpj q hq hqj f f' hf hf' hkey
    obtain ⟨p', hp', hpi', hfp, hpiff, hpeq⟩ := hback p hp hpj f hf
    obtain ⟨q', hq', hqi', hfq, hqiff, hqeq⟩ := hback q hq hqj f' hf'
    have heq := h.unique p' hp' hpi' q' hq' hqi' f f' hfp hfq hkey
    by_cases hpi : p = i
    · rw [hpi, hqiff.mp (heq ▸ hpiff.mpr hpi)]
    · have hqi : q ≠ i := fun hqi => hpi (hpiff.mp (heq ▸ hqiff.mpr hqi))
      rw [← hpeq hpi, ← hqeq hqi, heq]
  · intro f
    rw [← h.entries]
    constructor
    · rintro ⟨p, hp, hpj, hf⟩
      obtain ⟨-, hf⟩ | ⟨hpi, hf⟩ := Slots.of_update hf
      · cases hf
        exact ⟨next N j, hlt, hne, he⟩
      · exact ⟨p, hp, hpi, hf⟩
    · rintro ⟨p, hp, hpi, hf⟩
      by_cases hpj : p = next N j
      · rw [hpj, he] at hf
        cases hf
        exact ⟨i, h.hole_lt, hne.symm, update_self ..⟩
      · exact ⟨p, hp, hpj, by rw [update_of_ne hpi]; exact hf⟩

/-- **The shift ends before a free slot.** -/
theorem shiftLoop_spec :
    ∀ (fuel : ℕ) (s : ℕ → Option (K × V)) (i j : ℕ), Shifting N home s₀ i₀ s i j →
      N ≤ offset N i₀ j + fuel →
      ∃ j', Shifting N home s₀ i₀ (shiftLoop N home fuel s i j).1
          (shiftLoop N home fuel s i j).2 j' ∧
        (shiftLoop N home fuel s i j).1 (next N j') = none := by
  intro fuel
  induction fuel with
  | zero =>
    intro s i j h hfuel
    have := offset_lt hi₀ h.last_lt
    omega
  | succ fuel ih =>
    intro s i j h hfuel
    have hstep := offset_next hi₀ h.last_lt (h.next_ne hi₀ hroom).1
    unfold shiftLoop
    dsimp only
    cases he : s (next N j) with
    | none => exact ⟨j, h, he⟩
    | some e =>
      dsimp only
      cases hb : between i (next N j) (home e.1) with
      | true => exact ih s i _ (h.stay hi₀ hroom hhome he hb) (by omega)
      | false => exact ih _ _ _ (h.move hi₀ hroom hhome he hb) (by omega)

/-- Where the shift ends, the hole can be left free. -/
theorem Shifting.finish (h : Shifting N home s₀ i₀ s i j) (hend : s (next N j) = none) :
    WF N home ⟨update s i none, (occupied N s₀).card - 1⟩ := by
  obtain ⟨-, hne⟩ := h.next_ne hi₀ hroom
  have hlt := next_lt h.last_lt
  refine ⟨?_, ?_, ?_⟩
  · intro p hp e hp' q hq hchain
    obtain ⟨hpi, he⟩ := Slots.of_update_none hp'
    have hqi : q ≠ i := by
      rintro rfl
      -- the search would pass the free slot at which the shift ended
      have hbeyond := h.beyond p hp hpi e he hchain
      have hpj : p ≠ next N j := by
        rintro rfl
        rw [hend] at he
        cases he
      exact h.reach p hp hpi e he _ hlt
        (offset_next_lt (hhome _) hq h.last_lt hp hchain hbeyond hpj hne) hend
    dsimp only
    rw [update_of_ne hqi]
    exact h.reach p hp hpi e he q hq hchain
  · intro p hp q hq e e' he he' hkey
    obtain ⟨hpi, he⟩ := Slots.of_update_none he
    obtain ⟨hqi, he'⟩ := Slots.of_update_none he'
    exact h.unique p hp hpi q hq hqi e e' he he' hkey
  · have hocc : occupied N (update s i none) = (occupied N s).erase i := by
      ext q
      rw [Finset.mem_erase, mem_occupied, mem_occupied]
      by_cases hqi : q = i
      · simp [hqi]
      · simp [hqi]
    have hsame : occupied N s = occupied N s₀ := by
      ext q
      rw [mem_occupied, mem_occupied, Ne, h.free]
    dsimp only
    rw [hocc, Finset.card_erase_of_mem, hsame]
    rw [mem_occupied]
    exact ⟨h.hole_lt, h.looked i h.hole_lt h.hole_le⟩

omit hi₀ hroom in
/-- What a removal leaves: a table in order, with the other entries. -/
theorem remove_spec {t : Table K V} (h : WF N home t) (hn : t.n < N) {i : ℕ} (hi : i < N)
    (hs : t.slots i ≠ none) :
    WF N home (remove N home t i) ∧
      ∀ e, (∃ p < N, (remove N home t i).slots p = some e) ↔
        ∃ p < N, p ≠ i ∧ t.slots p = some e := by
  have hroom := h.room hn
  obtain ⟨j, hshift, hend⟩ := shiftLoop_spec hi hroom hhome N t.slots i i
    (Shifting.start h hi hs) (by rw [offset_self]; omega)
  have hwf := hshift.finish hi hroom hhome hend
  rw [h.count] at hwf
  refine ⟨hwf, fun e => ?_⟩
  rw [← hshift.entries]
  unfold remove
  dsimp only
  generalize shiftLoop N home N t.slots i i = r
  constructor
  · rintro ⟨p, hp, he⟩
    obtain ⟨hpi, he⟩ := Slots.of_update_none he
    exact ⟨p, hp, hpi, he⟩
  · rintro ⟨p, hp, hpi, he⟩
    exact ⟨p, hp, by rw [update_of_ne hpi]; exact he⟩

end Remove

section Map

variable [DecidableEq K] {t : Table K V} (hhome : ∀ k, home k < N)

include hhome

variable (h : WF N home t) (hn : t.n < N) {i : ℕ} {k : K} (hf : find N home t k = some i)
include h hn hf

theorem lookup_remove (k' : K) :
    lookup N home (remove N home t i) k' = if k' = k then none else lookup N home t k' := by
  obtain ⟨hi, v, hv⟩ := (find_eq_some_iff hhome h hn).mp hf
  have hs : t.slots i ≠ none := by rw [hv]; exact Option.some_ne_none _
  obtain ⟨hwf, hentries⟩ := remove_spec hhome h hn hi hs
  have hn' : (remove N home t i).n < N := Nat.lt_of_le_of_lt (Nat.sub_le _ _) hn
  ext w
  rw [lookup_eq_some_iff hhome hwf hn', hentries]
  by_cases hkk : k' = k
  · rw [if_pos hkk]
    refine ⟨?_, fun h => (by cases h)⟩
    rintro ⟨p, hp, hpi, he⟩
    exact absurd (h.unique p hp i hi _ _ he hv hkk) hpi
  · rw [if_neg hkk, lookup_eq_some_iff hhome h hn]
    refine ⟨fun ⟨p, hp, _, he⟩ => ⟨p, hp, he⟩, fun ⟨p, hp, he⟩ => ⟨p, hp, ?_, he⟩⟩
    rintro rfl
    rw [hv] at he
    cases he
    exact hkk rfl

/-! ### Values -/

omit [DecidableEq K] hhome hn hf in
theorem WF.mapValues (f : K → V → V) : WF N home (mapValues t f) := by
  refine h.congr (fun q => ?_) rfl
  unfold Probe.mapValues
  dsimp only
  cases t.slots q <;> rfl

omit hf in
theorem lookup_mapValues (f : K → V → V) (k : K) :
    lookup N home (mapValues t f) k = (lookup N home t k).map (f k) := by
  ext w
  rw [lookup_eq_some_iff hhome (h.mapValues f) hn, Option.map_eq_some_iff]
  constructor
  · rintro ⟨p, hp, he⟩
    obtain ⟨e, he', heq⟩ := Option.map_eq_some_iff.mp he
    cases heq
    exact ⟨e.2, (lookup_eq_some_iff hhome h hn).mpr ⟨p, hp, he'⟩, rfl⟩
  · rintro ⟨v, hv, rfl⟩
    obtain ⟨p, hp, he⟩ := (lookup_eq_some_iff hhome h hn).mp hv
    exact ⟨p, hp, Option.map_eq_some_iff.mpr ⟨_, he, rfl⟩⟩

theorem WF.modify (v : V) : WF N home (modify t i k v) := by
  obtain ⟨-, w, hw⟩ := (find_eq_some_iff hhome h hn).mp hf
  refine h.congr (fun q => ?_) rfl
  unfold Probe.modify
  dsimp only
  by_cases hqi : q = i
  · rw [hqi, update_self, hw]
    rfl
  · rw [update_of_ne hqi]

theorem lookup_modify (v : V) (k' : K) :
    lookup N home (modify t i k v) k' = if k' = k then some v else lookup N home t k' := by
  obtain ⟨hi, u, hu⟩ := (find_eq_some_iff hhome h hn).mp hf
  ext w
  rw [lookup_eq_some_iff hhome (h.modify hhome hn hf v) hn]
  unfold modify
  dsimp only
  rw [exists_update_iff hi (fun e he => by rw [hu] at he; cases he; rfl)
    (fun p hp hpi e he hk => hpi (h.unique p hp i hi e _ he hu hk)),
    ← lookup_eq_some_iff hhome h hn]
  by_cases hkk : k' = k
  · simp [hkk, eq_comm]
  · simp [hkk]

/-- A value that is written does not move its key. -/
theorem find_modify (v : V) : find N home (modify t i k v) k = some i := by
  rw [find_eq_some_iff hhome (h.modify hhome hn hf v) hn]
  exact ⟨((find_eq_some_iff hhome h hn).mp hf).1, v, update_self ..⟩

omit [DecidableEq K] hhome h hn hf in
theorem modify_modify (i : ℕ) (k : K) (v w : V) :
    modify (modify t i k v) i k w = modify t i k w := by
  unfold modify
  dsimp only
  rw [update_idem]

omit hf in
/-- What is looked up stands in a slot. -/
theorem exists_find {v : V} (hl : lookup N home t k = some v) :
    ∃ i, find N home t k = some i := by
  obtain ⟨p, hp, hv⟩ := (lookup_eq_some_iff hhome h hn).mp hl
  exact ⟨p, (find_eq_some_iff hhome h hn).mpr ⟨hp, v, hv⟩⟩

theorem WF.remove : WF N home (remove N home t i) := by
  obtain ⟨hi, v, hv⟩ := (find_eq_some_iff hhome h hn).mp hf
  exact (remove_spec hhome h hn hi (by rw [hv]; exact Option.some_ne_none _)).1

end Map

end Probe
