import Mathlib.Algebra.BigOperators.Group.List.Basic
import Mqvpn.Lib.Loop
import Mqvpn.Lib.Residue
import Mqvpn.Reorder.Config

/-!
# The elastic ring

The receive buffer of a flow is an array of slots addressed by sequence number
modulo its size.  The array is allocated on the first out-of-order packet and
doubles whenever a packet lies further ahead than it is long, up to the capacity of
the flow; every packet held is moved to its new place on the way.

`slots = NULL` of the source is the empty list, and the size is the length of the
list: the source keeps the two in step in every function that touches either.

## Main definitions

* `ringContains`, `ringInsert`, `ringRemove`, `ringLowestSeq` — the operations.
* `RingOk` — the invariant of the ring by itself.
* `Ring.Has`, `Ring.Window` — the set of sequence numbers held, and the window it
  must lie in.

## Main results

* `ringRemove_spec`, `ringInsert_spec`, `ringLowestSeq_spec` — **the ring is a finite
  set of sequence numbers**: what each operation does to that set, to the count and
  to the bytes.
-/

namespace Mqvpn.Reorder

open List

/-! ### Slots and rings -/

/-- One slot: `pkt = none` is a free one. -/
structure Slot where
  seq : ℕ
  len : ℕ
  pkt : Option Packet
  enqueueUs : UInt64
  deriving DecidableEq

/-- A slot as `calloc` leaves it. -/
def Slot.free : Slot := { seq := 0, len := 0, pkt := none, enqueueUs := 0 }

/-- The sequence number a slot holds, if it is occupied. -/
def Slot.key (s : Slot) : Option ℕ := s.pkt.map fun _ => s.seq

/-- The ring of one flow.  `cap` bounds the size. -/
structure Ring where
  slots : List Slot
  cap : ℕ
  count : ℕ
  bytes : ℕ
  deriving DecidableEq

/-- The number of slots; `0` until the first allocation. -/
def Ring.size (r : Ring) : ℕ := r.slots.length

/-- `RING_IDX`. -/
def ringIdx (size seq : ℕ) : ℕ := seq &&& (size - 1)

/-- The slot a sequence number is looked for in. -/
def Ring.slotAt (r : Ring) (seq : ℕ) : Slot := r.slots.getD (ringIdx r.size seq) Slot.free

def ringInit (cap : ℕ) : Ring := { slots := [], cap := cap, count := 0, bytes := 0 }

/-- Release the slot array; the capacity stays. -/
def ringFree (r : Ring) : Ring := { r with slots := [], count := 0, bytes := 0 }

def ringEmpty (r : Ring) : Bool := r.count == 0

/-- Beyond the window `[expected, expected + cap)`; asked only of `expected ≤ seq`. -/
def ringFarAhead (r : Ring) (seq expected : ℕ) : Bool := decide (r.cap ≤ seq - expected)

def ringContains (r : Ring) (seq : ℕ) : Bool :=
  if r.slots = [] then false
  else (r.slotAt seq).pkt.isSome && (r.slotAt seq).seq == seq

/-- One round of the doubling loop. -/
def growStep (cap span want : ℕ) : Option ℕ :=
  if want ≤ span ∧ want < cap then some (want <<< 1) else none

/-- The size to grow to: doubled until it covers the span or reaches the capacity.
`cap` rounds are more than the loop can take. -/
def growWant (r : Ring) (span : ℕ) : ℕ :=
  Loop.run (growStep r.cap span) r.cap (if r.size ≠ 0 then r.size else 1)

/-- Move every occupied slot into a fresh array of `size` slots. -/
def ringRehash (size : ℕ) (old : List Slot) : List Slot :=
  old.foldl (fun acc s => if s.pkt.isSome then acc.set (ringIdx size s.seq) s else acc)
    (List.replicate size Slot.free)

/-- Grow the ring to cover the span; `alloc` is whether the allocation succeeds, and
`none` is the failure. -/
def ringGrowToCover (alloc : Bool) (r : Ring) (span : ℕ) : Option Ring :=
  let want := if growWant r span < r.size then r.size else growWant r span
  if want = r.size ∧ r.slots ≠ [] then some r
  else if alloc then some { r with slots := ringRehash want r.slots }
  else none

/-- Insert a packet that is in the window and not held yet. -/
def ringInsert (alloc : Bool) (r : Ring) (seq : ℕ) (pkt : Packet) (len expected : ℕ)
    (enqueueUs : UInt64) : Option Ring :=
  let span := seq - expected
  let grown := if r.slots = [] ∨ r.size ≤ span then ringGrowToCover alloc r span else some r
  grown.map fun r =>
    { r with
      slots := r.slots.set (ringIdx r.size seq)
        { seq := seq, len := len, pkt := some pkt, enqueueUs := enqueueUs }
      count := r.count + 1
      bytes := r.bytes + len }

/-- What leaves the ring when a packet is removed. -/
structure Removed where
  pkt : Packet
  len : ℕ
  enqueueUs : UInt64
  deriving DecidableEq

/-- Remove one sequence number; `none` if it is not held. -/
def ringRemove (r : Ring) (seq : ℕ) : Option (Removed × Ring) :=
  if r.slots = [] then none
  else
    match (r.slotAt seq).pkt with
    | none => none
    | some pkt =>
        if (r.slotAt seq).seq ≠ seq then none
        else
          some ({ pkt := pkt, len := (r.slotAt seq).len, enqueueUs := (r.slotAt seq).enqueueUs },
            { r with
              slots := r.slots.set (ringIdx r.size seq) Slot.free
              count := r.count - 1
              bytes := r.bytes - (r.slotAt seq).len })

/-- Scan forward from `expected` for the lowest sequence number held. -/
def ringLowestSeq (r : Ring) (expected : ℕ) : ℕ :=
  match (List.range r.size).find? fun i =>
      (r.slotAt (expected + i)).pkt.isSome && (r.slotAt (expected + i)).seq == expected + i with
  | some i => expected + i
  | none => expected

/-! ### The set of sequence numbers held -/

def Ring.buffered (r : Ring) : List Slot := Residue.occupied Slot.key r.slots

/-- The ring holds a sequence number. -/
def Ring.Has (r : Ring) (seq : ℕ) : Prop := ringContains r seq = true

instance (r : Ring) (seq : ℕ) : Decidable (r.Has seq) := inferInstanceAs (Decidable (_ = true))

/-- Everything held lies in the `size` numbers from `e` on. -/
def Ring.Window (r : Ring) (e : ℕ) : Prop := ∀ s, r.Has s → e ≤ s ∧ s < e + r.size

/-- **The invariant of the ring by itself.** -/
structure RingOk (r : Ring) : Prop where
  /-- The capacity is a power of two. -/
  cap : r.cap.isPowerOfTwo
  /-- Once allocated, so is the size, and it stays within the capacity. -/
  size : r.slots = [] ∨ r.size.isPowerOfTwo ∧ r.size ≤ r.cap
  /-- Every packet is in the slot of its sequence number. -/
  placed : Residue.Placed Slot.key r.slots
  /-- The recorded length of a packet is its length. -/
  lens : ∀ s ∈ r.slots, ∀ p, s.pkt = some p → s.len = p.length
  /-- The count is the number of packets held. -/
  count : r.count = r.buffered.length
  /-- The bytes are the sum of their lengths. -/
  bytes : r.bytes = (r.buffered.map Slot.len).sum

variable {r r' : Ring} {seq : ℕ}

theorem Slot.key_eq_some {s : Slot} {k : ℕ} : s.key = some k ↔ s.pkt.isSome ∧ s.seq = k := by
  rw [Slot.key]
  cases s.pkt <;> simp

theorem Slot.key_free : Slot.free.key = none := rfl

theorem ringIdx_eq_mod {size : ℕ} (h : size.isPowerOfTwo) (seq : ℕ) :
    ringIdx size seq = seq % size := by
  obtain ⟨k, rfl⟩ := h
  exact Nat.and_two_pow_sub_one_eq_mod seq k

theorem ringOk_ringInit {cap : ℕ} (h : cap.isPowerOfTwo) : RingOk (ringInit cap) where
  cap := h
  size := Or.inl rfl
  placed := by intro i a k hi; simp [ringInit] at hi
  lens := by intro s hs; simp [ringInit] at hs
  count := rfl
  bytes := rfl

theorem RingOk.ringFree (h : RingOk r) : RingOk (ringFree r) :=
  ringOk_ringInit h.cap

theorem not_has_of_slots_nil (h : r.slots = []) (s : ℕ) : ¬ r.Has s := by
  simp [Ring.Has, ringContains, h]

theorem not_has_ringFree (r : Ring) (s : ℕ) : ¬ (ringFree r).Has s := not_has_of_slots_nil rfl s

namespace RingOk

variable (h : RingOk r)
include h

/-- Lookup by residue finds the slot of a sequence number, if there is one. -/
theorem slotAt_eq {s : Slot} (hs : s ∈ r.slots) (hocc : s.pkt.isSome) : r.slotAt s.seq = s := by
  rcases h.size with hnil | ⟨hpow, -⟩
  · rw [hnil] at hs; cases hs
  · have hget := h.placed.getElem? hs (Slot.key_eq_some.mpr ⟨hocc, rfl⟩)
    rw [Ring.slotAt, ringIdx_eq_mod hpow, getD_eq_getElem?_getD, Ring.size, hget,
      Option.getD_some]

theorem isPowerOfTwo_size (hne : r.slots ≠ []) : r.size.isPowerOfTwo := by
  rcases h.size with hnil | ⟨hpow, -⟩
  · exact absurd hnil hne
  · exact hpow

theorem mem_slotAt (hne : r.slots ≠ []) (seq : ℕ) :
    r.slots[ringIdx r.size seq]? = some (r.slotAt seq) ∧ r.slotAt seq ∈ r.slots := by
  have hpow := h.isPowerOfTwo_size hne
  have hi : ringIdx r.size seq < r.slots.length := by
    rw [ringIdx_eq_mod hpow]
    exact Nat.mod_lt _ (Nat.pos_of_isPowerOfTwo hpow)
  have hget : r.slots[ringIdx r.size seq]? = some (r.slotAt seq) := by
    rw [Ring.slotAt, getD_eq_getElem?_getD, getElem?_eq_getElem hi, Option.getD_some]
  exact ⟨hget, mem_of_getElem? hget⟩

/-- **Membership is membership**: the constant-time test finds exactly the packets
in the slots. -/
theorem has_iff : r.Has seq ↔ ∃ s ∈ r.buffered, s.seq = seq := by
  unfold Ring.Has ringContains Ring.buffered
  constructor
  · intro hc
    split at hc
    · cases hc
    · next hne =>
      rw [Bool.and_eq_true, beq_iff_eq] at hc
      refine ⟨r.slotAt seq, Residue.mem_occupied.mpr ⟨(h.mem_slotAt hne seq).2, seq, ?_⟩, hc.2⟩
      exact Slot.key_eq_some.mpr hc
  · rintro ⟨s, hs, rfl⟩
    obtain ⟨hmem, k, hk⟩ := Residue.mem_occupied.mp hs
    have hocc := (Slot.key_eq_some.mp hk).1
    rw [if_neg (ne_nil_of_mem hmem), h.slotAt_eq hmem hocc]
    simp [hocc]

theorem ringEmpty_iff : ringEmpty r = true ↔ ∀ s, ¬ r.Has s := by
  rw [ringEmpty, beq_iff_eq, h.count, length_eq_zero_iff]
  constructor
  · intro hnil s hs
    obtain ⟨t, ht, -⟩ := h.has_iff.mp hs
    rw [hnil] at ht
    cases ht
  · intro hnone
    rw [eq_nil_iff_forall_not_mem]
    intro s hs
    exact hnone s.seq (h.has_iff.mpr ⟨s, hs, rfl⟩)

theorem exists_has (hne : ringEmpty r = false) : ∃ s, r.Has s := by
  by_contra hnone
  rw [not_exists] at hnone
  rw [h.ringEmpty_iff.mpr hnone] at hne
  cases hne

theorem not_ringEmpty {s : ℕ} (hs : r.Has s) : ringEmpty r = false := by
  cases he : ringEmpty r with
  | false => rfl
  | true => exact absurd hs (h.ringEmpty_iff.mp he s)

theorem count_le_size : r.count ≤ r.size := by
  rw [h.count]
  exact Residue.length_occupied_le _

theorem size_le_cap : r.size ≤ r.cap := by
  rcases h.size with hnil | ⟨-, hle⟩
  · rw [Ring.size, hnil]; exact Nat.zero_le _
  · exact hle

/-- The sequence numbers held are pairwise distinct. -/
theorem nodup : (r.buffered.map Slot.seq).Nodup := by
  have heq : ∀ l : List Slot,
      (Residue.occupied Slot.key l).map Slot.seq = l.filterMap Slot.key := by
    intro l
    induction l with
    | nil => rfl
    | cons s l ih =>
      unfold Residue.occupied at ih ⊢
      cases hk : s.key with
      | none => rw [filter_cons_of_neg (by simp [hk]), filterMap_cons_none hk, ih]
      | some k =>
        rw [filter_cons_of_pos (by simp [hk]), filterMap_cons_some hk, map_cons, ih,
          (Slot.key_eq_some.mp hk).2]
  rw [Ring.buffered, heq]
  exact h.placed.nodup

end RingOk

/-! ### Removal -/

/-- Removing `seq` from `r` gave `x` and left `r'`. -/
structure Removes (r : Ring) (seq : ℕ) (x : Removed) (r' : Ring) : Prop where
  has : r.Has seq
  ok : RingOk r'
  size : r'.size = r.size
  cap : r'.cap = r.cap
  count : r.count = r'.count + 1
  bytes : r.bytes = r'.bytes + x.len
  len : x.len = x.pkt.length
  has_iff : ∀ t, r'.Has t ↔ r.Has t ∧ t ≠ seq
  perm : ∃ s : Slot, s.seq = seq ∧ s.pkt = some x.pkt ∧ r.buffered.Perm (s :: r'.buffered)

theorem ringRemove_eq_none : ringRemove r seq = none ↔ ¬ r.Has seq := by
  unfold ringRemove Ring.Has ringContains
  split
  · simp
  · cases (r.slotAt seq).pkt with
    | none => simp
    | some pkt =>
      by_cases hs : (r.slotAt seq).seq = seq <;> simp [hs]

/-- Removal takes a packet out of the slots, whatever the state of the ring. -/
theorem ringRemove_some {x : Removed}
    (h : ringRemove r seq = some (x, r')) :
    r.slots ≠ [] ∧ (r.slotAt seq).pkt = some x.pkt ∧ (r.slotAt seq).seq = seq ∧
      (r.slotAt seq).len = x.len ∧
      r' = { r with
        slots := r.slots.set (ringIdx r.size seq) Slot.free
        count := r.count - 1
        bytes := r.bytes - x.len } := by
  unfold ringRemove at h
  split at h
  · cases h
  · next hne =>
    split at h
    · cases h
    · next pkt hpkt =>
      split at h
      · cases h
      · next hseq =>
        simp only [Option.some.injEq, Prod.mk.injEq] at h
        obtain ⟨rfl, rfl⟩ := h
        exact ⟨hne, hpkt, not_not.mp hseq, rfl, rfl⟩

theorem length_buffered_of_ringRemove {x : Removed}
    (h : ringRemove r seq = some (x, r')) : r'.buffered.length < r.buffered.length := by
  obtain ⟨-, hpkt, hseq, -, rfl⟩ := ringRemove_some h
  have hkey : (r.slotAt seq).key = some seq := Slot.key_eq_some.mpr ⟨by simp [hpkt], hseq⟩
  have hget : r.slots[ringIdx r.size seq]? = some (r.slotAt seq) := by
    rw [Ring.slotAt, getD_eq_getElem?_getD] at hkey ⊢
    cases hg : r.slots[ringIdx r.size seq]? with
    | none => rw [hg, Option.getD_none, Slot.key_free] at hkey; cases hkey
    | some s => rfl
  have hperm := Residue.occupied_set_clear hget hkey Slot.key_free
  have := hperm.length_eq
  simp only [length_cons] at this
  unfold Ring.buffered
  simp only
  omega

/-- A slot is written at its place, and the books are brought up to date. -/
theorem RingOk.write (h : RingOk r) (hne : r.slots ≠ []) {s : Slot} {i count bytes : ℕ}
    (hkey : ∀ k, s.key = some k → k % r.size = i) (hlen : ∀ p, s.pkt = some p → s.len = p.length)
    (hcount : count = (Residue.occupied Slot.key (r.slots.set i s)).length)
    (hbytes : bytes = ((Residue.occupied Slot.key (r.slots.set i s)).map Slot.len).sum) :
    RingOk { r with slots := r.slots.set i s, count := count, bytes := bytes } where
  cap := h.cap
  size := by
    right
    rcases h.size with hnil | hpow
    · exact absurd hnil hne
    · simpa [Ring.size] using hpow
  placed := h.placed.set hkey
  lens := by
    intro t ht p hp
    rcases mem_or_eq_of_mem_set ht with ht | rfl
    · exact h.lens t ht p hp
    · exact hlen p hp
  count := hcount
  bytes := hbytes

/-- A packet is taken out of its slot. -/
theorem RingOk.clear (h : RingOk r) (hne : r.slots ≠ []) (hkey : (r.slotAt seq).key = some seq) :
    RingOk { r with
      slots := r.slots.set (ringIdx r.size seq) Slot.free
      count := r.count - 1
      bytes := r.bytes - (r.slotAt seq).len } ∧
    r.buffered.Perm (r.slotAt seq ::
      Residue.occupied Slot.key (r.slots.set (ringIdx r.size seq) Slot.free)) := by
  have hperm : r.buffered.Perm (r.slotAt seq ::
      Residue.occupied Slot.key (r.slots.set (ringIdx r.size seq) Slot.free)) :=
    Residue.occupied_set_clear (h.mem_slotAt hne seq).1 hkey Slot.key_free
  refine ⟨h.write hne (by simp [Slot.key_free]) (by simp [Slot.free]) ?_ ?_, hperm⟩
  · rw [h.count, hperm.length_eq, length_cons, Nat.add_sub_cancel]
  · rw [h.bytes, (hperm.map Slot.len).sum_eq, map_cons, sum_cons,
      Nat.add_sub_cancel_left]

/-- A ring with one packet more. -/
theorem RingOk.has_iff_of_perm (h : RingOk r) (h' : RingOk r') {s : Slot}
    (hperm : r.buffered.Perm (s :: r'.buffered)) (t : ℕ) : r.Has t ↔ r'.Has t ∨ t = s.seq := by
  rw [h.has_iff, h'.has_iff, or_comm, eq_comm]
  simp only [hperm.mem_iff, exists_mem_cons_iff]

/-- **What removal does.** -/
theorem ringRemove_spec {x : Removed} (hok : RingOk r)
    (h : ringRemove r seq = some (x, r')) : Removes r seq x r' := by
  have hhas : r.Has seq := by
    by_contra hno
    rw [ringRemove_eq_none.mpr hno] at h
    cases h
  obtain ⟨hne, hpkt, hseq, hlen, rfl⟩ := ringRemove_some h
  have hkey : (r.slotAt seq).key = some seq := Slot.key_eq_some.mpr ⟨by simp [hpkt], hseq⟩
  obtain ⟨hok', hperm⟩ := hok.clear hne hkey
  rw [hlen] at hok'
  have hcount := hok.count.trans hperm.length_eq
  have hbytes := hok.bytes.trans (hperm.map Slot.len).sum_eq
  rw [length_cons] at hcount
  rw [map_cons, sum_cons, hlen] at hbytes
  -- no other slot has the number that left
  have hnd := hok.nodup
  rw [(hperm.map Slot.seq).nodup_iff, map_cons, nodup_cons, hseq, mem_map] at hnd
  refine ⟨hhas, hok', by simp [Ring.size], rfl, ?_, ?_, ?_, ?_, r.slotAt seq, hseq, hpkt, hperm⟩
  · show r.count = r.count - 1 + 1
    omega
  · show r.bytes = r.bytes - x.len + x.len
    omega
  · rw [← hlen]
    exact hok.lens _ (hok.mem_slotAt hne seq).2 _ hpkt
  · intro t
    have hgone := mt hok'.has_iff.mp hnd.1
    rw [hok.has_iff_of_perm hok' hperm, hseq]
    constructor
    · intro ht
      refine ⟨Or.inl ht, ?_⟩
      rintro rfl
      exact hgone ht
    · rintro ⟨ht | ht, hne'⟩
      · exact ht
      · exact absurd ht hne'

/-! ### Growth -/

/-- The doubling loop stops at a power of two that covers the span. -/
theorem growWant_spec (hok : RingOk r) {span : ℕ} (hspan : span < r.cap) :
    (growWant r span).isPowerOfTwo ∧ growWant r span ≤ r.cap ∧ span < growWant r span ∧
      r.size ≤ growWant r span := by
  obtain ⟨c, hc⟩ := hok.cap
  have hstart : (if r.size ≠ 0 then r.size else 1).isPowerOfTwo ∧
      (if r.size ≠ 0 then r.size else 1) ≤ r.cap ∧ r.size ≤ if r.size ≠ 0 then r.size else 1 := by
    rcases hok.size with hnil | ⟨hpow, hle⟩
    · have h0 : r.size = 0 := by simp [Ring.size, hnil]
      rw [h0, if_neg (by simp)]
      exact ⟨Nat.isPowerOfTwo_one, by omega, Nat.zero_le _⟩
    · have hpos := Nat.pos_of_isPowerOfTwo hpow
      rw [if_pos (by omega)]
      exact ⟨hpow, hle, le_rfl⟩
  -- the loop keeps a power of two below the capacity and above the old size
  have hstep : ∀ w w', (w.isPowerOfTwo ∧ w ≤ r.cap ∧ r.size ≤ w) → growStep r.cap span w = some w' →
      (w'.isPowerOfTwo ∧ w' ≤ r.cap ∧ r.size ≤ w') ∧ r.cap - w' < r.cap - w := by
    rintro w w' ⟨⟨k, rfl⟩, -, hsz⟩ h
    unfold growStep at h
    split at h
    · next hcond =>
      cases h
      have hlt : k < c := by
        rw [hc] at hcond
        exact (Nat.pow_lt_pow_iff_right (by decide)).mp hcond.2
      have hle : 2 ^ (k + 1) ≤ r.cap := by
        rw [hc]; exact Nat.pow_le_pow_right (by decide) hlt
      have hdouble : 2 ^ k <<< 1 = 2 ^ (k + 1) := by
        rw [Nat.shiftLeft_eq, ← pow_add]
      have hpos : 0 < 2 ^ k := Nat.two_pow_pos k
      rw [hdouble]
      refine ⟨⟨⟨k + 1, rfl⟩, hle, ?_⟩, ?_⟩ <;> rw [pow_succ] at * <;> omega
    · cases h
  unfold growWant
  generalize (if r.size ≠ 0 then r.size else 1) = start at hstart ⊢
  have hinv := Loop.run_inv (fun w w' hw h => (hstep w w' hw h).1) r.cap start hstart
  have hstop := Loop.run_stops (fun w => r.cap - w) hstep r.cap start hstart (Nat.sub_le _ _)
  obtain ⟨hpow, hle, hsz⟩ := hinv
  refine ⟨hpow, hle, ?_, hsz⟩
  by_contra hcover
  rw [growStep, if_pos ⟨by omega, by omega⟩] at hstop
  cases hstop

theorem ringRehash_eq {size : ℕ} (h : size.isPowerOfTwo) (old : List Slot) :
    ringRehash size old = Residue.rehash Slot.key Slot.free size old := by
  unfold ringRehash Residue.rehash
  congr 1
  funext acc s
  unfold Residue.rehashStep Slot.key
  cases s.pkt with
  | none => rfl
  | some p => simp [ringIdx_eq_mod h]

/-- Growing changes the size only: the packets held stay the same. -/
structure Grows (r : Ring) (span : ℕ) (r' : Ring) : Prop where
  ok : RingOk r'
  ne_nil : r'.slots ≠ []
  span : span < r'.size
  size : r.size ≤ r'.size
  cap : r'.cap = r.cap
  count : r'.count = r.count
  bytes : r'.bytes = r.bytes
  perm : r'.buffered.Perm r.buffered

theorem ringGrowToCover_spec {alloc : Bool} {span e : ℕ} (hok : RingOk r)
    (hwin : r.Window e) (hspan : span < r.cap) (h : ringGrowToCover alloc r span = some r') :
    Grows r span r' := by
  obtain ⟨hpow, hle, hcover, hsz⟩ := growWant_spec hok hspan
  have hwant : (if growWant r span < r.size then r.size else growWant r span) =
      growWant r span := if_neg (by omega)
  unfold ringGrowToCover at h
  simp only [hwant] at h
  split at h
  · next hsame =>
    cases h
    exact ⟨hok, hsame.2, by omega, le_rfl, rfl, rfl, rfl, List.Perm.refl _⟩
  · split at h
    · cases h
      have hwin' : ∀ s ∈ r.slots, ∀ k, s.key = some k → e ≤ k ∧ k < e + growWant r span := by
        intro s hs k hk
        obtain ⟨hocc, rfl⟩ := Slot.key_eq_some.mp hk
        have := hwin s.seq (hok.has_iff.mpr ⟨s, Residue.mem_occupied.mpr ⟨hs, _, hk⟩, rfl⟩)
        omega
      have hre := Residue.placed_rehash Slot.key_free (Nat.pos_of_isPowerOfTwo hpow) hwin'
        hok.placed.nodup
      rw [← ringRehash_eq hpow] at hre
      obtain ⟨hplaced, hperm⟩ := hre
      have hlen : (ringRehash (growWant r span) r.slots).length = growWant r span := by
        rw [ringRehash_eq hpow, Residue.length_rehash]
      -- the fresh slots are free, so a packet found there comes from the old array
      have hmem : ∀ s ∈ ringRehash (growWant r span) r.slots, s.pkt.isSome → s ∈ r.slots := by
        intro s hs hocc
        have : s ∈ Residue.occupied Slot.key (ringRehash (growWant r span) r.slots) :=
          Residue.mem_occupied.mpr ⟨hs, s.seq, Slot.key_eq_some.mpr ⟨hocc, rfl⟩⟩
        exact (Residue.mem_occupied.mp (hperm.subset this)).1
      refine ⟨⟨hok.cap, Or.inr ⟨?_, ?_⟩, hplaced, ?_, ?_, ?_⟩, ?_, ?_, ?_, rfl, rfl, rfl, hperm⟩
      · rw [Ring.size, hlen]; exact hpow
      · rw [Ring.size, hlen]; exact hle
      · intro s hs p hp
        exact hok.lens s (hmem s hs (by simp [hp])) p hp
      · exact hok.count.trans hperm.length_eq.symm
      · exact hok.bytes.trans (hperm.map Slot.len).sum_eq.symm
      · intro hnil
        have := congrArg length hnil
        rw [hlen, length_nil] at this
        omega
      · rw [Ring.size, hlen]; exact hcover
      · rw [Ring.size, Ring.size, hlen]; exact hsz
    · cases h

/-! ### Insertion -/

/-- Inserting `seq` with the packet `pkt` into `r`, the window starting at `e`, gave `r'`. -/
structure Inserts (r : Ring) (seq : ℕ) (pkt : Packet) (e : ℕ) (r' : Ring) : Prop where
  ok : RingOk r'
  cap : r'.cap = r.cap
  size : r.size ≤ r'.size
  span : seq - e < r'.size
  count : r'.count = r.count + 1
  bytes : r'.bytes = r.bytes + pkt.length
  has_iff : ∀ t, r'.Has t ↔ r.Has t ∨ t = seq
  perm : ∃ s : Slot, s.seq = seq ∧ s.pkt = some pkt ∧ r'.buffered.Perm (s :: r.buffered)

theorem Grows.has_iff {g : Ring} {span : ℕ} (h : Grows r span g) (hok : RingOk r) (t : ℕ) :
    g.Has t ↔ r.Has t := by
  simp only [h.ok.has_iff, hok.has_iff, h.perm.mem_iff]

/-- The slot of a new number of the window is free. -/
theorem Grows.slotAt_free {g : Ring} {e : ℕ} (h : Grows r (seq - e) g) (hok : RingOk r)
    (hwin : r.Window e) (he : e ≤ seq) (hnew : ¬ r.Has seq) : (g.slotAt seq).key = none := by
  have hsize := h.size
  have hspan := h.span
  have hheld : ∀ s ∈ g.slots, ∀ k, s.key = some k → r.Has k := by
    intro s hs k hk
    refine (h.has_iff hok k).mp (h.ok.has_iff.mpr ⟨s, ?_, (Slot.key_eq_some.mp hk).2⟩)
    exact Residue.mem_occupied.mpr ⟨hs, k, hk⟩
  have hget := (h.ok.mem_slotAt h.ne_nil seq).1
  rw [ringIdx_eq_mod (h.ok.isPowerOfTwo_size h.ne_nil)] at hget
  refine h.ok.placed.free (e := e) hget ⟨he, ?_⟩ (fun s hs k hk => ?_) fun s hs hk => ?_
  · show seq < e + g.size
    omega
  · have := hwin k (hheld s hs k hk)
    show e ≤ k ∧ k < e + g.size
    omega
  · exact hnew (hheld s hs seq hk)

/-- A packet is written into its free slot. -/
theorem RingOk.fill (h : RingOk r) (hne : r.slots ≠ []) {s : Slot} {pkt : Packet}
    (hfree : (r.slotAt s.seq).key = none) (hpkt : s.pkt = some pkt) (hlen : s.len = pkt.length) :
    RingOk { r with
      slots := r.slots.set (ringIdx r.size s.seq) s
      count := r.count + 1
      bytes := r.bytes + pkt.length } ∧
    (Residue.occupied Slot.key (r.slots.set (ringIdx r.size s.seq) s)).Perm (s :: r.buffered) := by
  have hkey : s.key = some s.seq := Slot.key_eq_some.mpr ⟨by rw [hpkt]; rfl, rfl⟩
  have hperm : (Residue.occupied Slot.key (r.slots.set (ringIdx r.size s.seq) s)).Perm
      (s :: r.buffered) := Residue.occupied_set_fill (h.mem_slotAt hne s.seq).1 hfree hkey
  refine ⟨h.write hne ?_ ?_ ?_ ?_, hperm⟩
  · intro k hk
    obtain rfl := Option.some.inj (hkey.symm.trans hk)
    exact (ringIdx_eq_mod (h.isPowerOfTwo_size hne) _).symm
  · intro p hp
    rw [hlen, Option.some.inj (hpkt.symm.trans hp)]
  · rw [h.count, hperm.length_eq, length_cons]
  · rw [h.bytes, (hperm.map Slot.len).sum_eq, map_cons, sum_cons, hlen, Nat.add_comm]

/-- **What insertion does** to a ring whose packets lie in the window from `e` on,
for a packet ahead of `e` that is in the window and not held. -/
theorem ringInsert_spec {alloc : Bool} {e : ℕ} {pkt : Packet} {now : UInt64}
    (hok : RingOk r) (hwin : r.Window e) (he : e ≤ seq) (hfar : ringFarAhead r seq e = false)
    (hnew : ¬ r.Has seq) (h : ringInsert alloc r seq pkt pkt.length e now = some r') :
    Inserts r seq pkt e r' := by
  have hspan : seq - e < r.cap := by simpa [ringFarAhead] using hfar
  unfold ringInsert at h
  obtain ⟨g, hg, rfl⟩ := Option.map_eq_some_iff.mp h
  -- the ring the packet is written into, grown or not
  have hgrow : Grows r (seq - e) g := by
    split at hg
    · exact ringGrowToCover_spec hok hwin hspan hg
    · next hcond =>
      cases hg
      rw [not_or] at hcond
      exact ⟨hok, hcond.1, by omega, le_rfl, rfl, rfl, rfl, List.Perm.refl _⟩
  generalize hs : ({ seq := seq, len := pkt.length, pkt := some pkt, enqueueUs := now } : Slot) = s
  obtain ⟨hseq, hpkt, hlen⟩ : s.seq = seq ∧ s.pkt = some pkt ∧ s.len = pkt.length := by
    rw [← hs]
    exact ⟨rfl, rfl, rfl⟩
  obtain ⟨hok', hperm⟩ := hgrow.ok.fill hgrow.ne_nil
    (by rw [hseq]; exact hgrow.slotAt_free hok hwin he hnew) hpkt hlen
  rw [hseq] at hok' hperm
  refine ⟨hok', hgrow.cap, ?_, ?_, ?_, ?_, ?_, s, hseq, hpkt, hperm.trans (hgrow.perm.cons s)⟩
  · simpa [Ring.size] using hgrow.size
  · simpa [Ring.size] using hgrow.span
  · simp [hgrow.count]
  · simp [hgrow.bytes]
  · intro t
    rw [hok'.has_iff_of_perm hgrow.ok hperm, hgrow.has_iff hok, hseq]

/-! ### The lowest sequence number -/

/-- **The forward scan finds the lowest sequence number held.** -/
theorem ringLowestSeq_spec {e : ℕ} (hok : RingOk r) (hwin : r.Window e)
    (hne : ringEmpty r = false) :
    r.Has (ringLowestSeq r e) ∧ ∀ s, r.Has s → ringLowestSeq r e ≤ s := by
  obtain ⟨s₀, hs₀⟩ := hok.exists_has hne
  have hnil : r.slots ≠ [] := fun hnil => not_has_of_slots_nil hnil s₀ hs₀
  have htest : ∀ i, ((r.slotAt (e + i)).pkt.isSome && (r.slotAt (e + i)).seq == e + i) = true ↔
      r.Has (e + i) := by
    intro i
    rw [Ring.Has, ringContains, if_neg hnil]
  unfold ringLowestSeq
  split
  · next i hi =>
    have hhit := find?_some hi
    refine ⟨(htest i).mp hhit, fun s hs => ?_⟩
    -- an earlier hit would have stopped the scan
    by_contra hlt
    have hwin' := hwin s hs
    obtain ⟨j, rfl⟩ : ∃ j, s = e + j := ⟨s - e, by omega⟩
    rw [find?_range_eq_some] at hi
    have := hi.2.2 j (by omega)
    rw [Bool.not_eq_true'] at this
    rw [(htest j).mpr hs] at this
    cases this
  · next hnone =>
    rw [find?_eq_none] at hnone
    have hwin' := hwin s₀ hs₀
    obtain ⟨j, rfl⟩ : ∃ j, s₀ = e + j := ⟨s₀ - e, by omega⟩
    exact absurd ((htest j).mpr hs₀) (hnone j (mem_range.mpr (by omega)))

theorem le_ringLowestSeq (r : Ring) (e : ℕ) : e ≤ ringLowestSeq r e := by
  unfold ringLowestSeq
  split <;> omega

end Mqvpn.Reorder
