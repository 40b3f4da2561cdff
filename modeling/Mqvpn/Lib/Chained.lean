import Mathlib.Algebra.BigOperators.Group.List.Basic
import Mathlib.Data.List.Nodup
import Mathlib.Data.List.Perm.Basic
import Mathlib.Tactic.Common

/-!
# Chained tables

A hash table with chaining is an array of buckets, each a list of entries; an entry
with key `k` belongs to bucket `idx k`.  New entries go to the front of their
bucket, and a walk over the table visits the buckets in order and each chain from
its front: the order of that walk, `Chained.entries`, is what sweeps and victim
searches depend on.

## Main definitions

* `Chained.lookup`, `Chained.insertHead`, `Chained.assign`, `Chained.erase` — the
  table operations.
* `Chained.sweep`, `Chained.sweepAll` — walk the table threading a state, replacing
  or unlinking each entry on the way.
* `Chained.WF` — every entry is in its bucket and no key occurs twice.

## Main results

* `Chained.lookup_eq_some` — lookup finds exactly the entry with the key.
* `Chained.perm_cons_erase`, `Chained.perm_assign` — an entry split off the table,
  and what writing it changes.
* `Chained.sweep_induct` — **the sweep rule**: a property of the entries done, the
  state and the entries to come.
* `Chained.sweepAll_rel` — the simulation rule for two sweeps over the same table.
-/

namespace Chained

open List

variable {κ ν σ τ : Type*} {key : ν → κ} {idx : κ → ℕ}

/-! ### The operations -/

/-- The entries in the order of a walk over the buckets. -/
def entries (t : List (List ν)) : List ν := t.flatten

/-- Search bucket `i` for the key `k`. -/
def lookup [DecidableEq κ] (key : ν → κ) (i : ℕ) (k : κ) (t : List (List ν)) : Option ν :=
  (t.getD i []).find? fun v => decide (key v = k)

/-- Put an entry at the front of bucket `i`. -/
def insertHead (i : ℕ) (v : ν) (t : List (List ν)) : List (List ν) :=
  t.modify i fun b => v :: b

/-- Overwrite the entry that has the key of `v`. -/
def assign [DecidableEq κ] (key : ν → κ) (v : ν) (t : List (List ν)) : List (List ν) :=
  t.map fun b => b.map fun w => if key w = key v then v else w

/-- Unlink the entry with the key `k`. -/
def erase [DecidableEq κ] (key : ν → κ) (k : κ) (t : List (List ν)) : List (List ν) :=
  t.map fun b => b.filter fun w => decide (key w ≠ k)

/-- Walk a list of entries with a state; an entry answered by `none` is unlinked. -/
def sweep (f : σ → ν → σ × Option ν) : σ → List ν → σ × List ν
  | s, [] => (s, [])
  | s, v :: l =>
      let r := f s v
      let rest := sweep f r.1 l
      (rest.1, r.2.toList ++ rest.2)

/-- Walk the whole table, bucket by bucket. -/
def sweepAll (f : σ → ν → σ × Option ν) : σ → List (List ν) → σ × List (List ν)
  | s, [] => (s, [])
  | s, b :: t =>
      let r := sweep f s b
      let rest := sweepAll f r.1 t
      (rest.1, r.2 :: rest.2)

/-- Every entry is in the bucket of its key, and no key occurs twice. -/
structure WF (key : ν → κ) (idx : κ → ℕ) (t : List (List ν)) : Prop where
  /-- Every key has a bucket. -/
  bound : ∀ k, idx k < t.length
  /-- An entry is in the bucket of its key. -/
  placed : ∀ i b, t[i]? = some b → ∀ v ∈ b, idx (key v) = i
  /-- The keys are pairwise distinct. -/
  nodup : ((entries t).map key).Nodup

/-! ### Entries -/

theorem mem_entries {t : List (List ν)} {v : ν} :
    v ∈ entries t ↔ ∃ (i : ℕ) (b : List ν), t[i]? = some b ∧ v ∈ b := by
  rw [entries, mem_flatten]
  constructor
  · rintro ⟨b, hb, hv⟩
    obtain ⟨i, hi⟩ := mem_iff_getElem?.mp hb
    exact ⟨i, b, hi, hv⟩
  · rintro ⟨i, b, hi, hv⟩
    exact ⟨b, mem_of_getElem? hi, hv⟩

theorem WF.eq_of_key_eq {t : List (List ν)} (h : WF key idx t) {v w : ν} (hv : v ∈ entries t)
    (hw : w ∈ entries t) (hk : key v = key w) : v = w :=
  inj_on_of_nodup_map h.nodup hv hw hk

theorem wf_replicate_nil {n : ℕ} (hidx : ∀ k, idx k < n) :
    WF key idx (List.replicate n ([] : List ν)) where
  bound := by simpa using hidx
  placed := by
    intro i b hb v hv
    rw [eq_of_mem_replicate (mem_of_getElem? hb)] at hv
    cases hv
  nodup := by simp [entries]

theorem entries_replicate_nil (n : ℕ) : entries (List.replicate n ([] : List ν)) = [] := by
  simp [entries]

/-! ### Lookup -/

section

variable [DecidableEq κ]

/-- **Lookup finds exactly the entry with the key.** -/
theorem lookup_eq_some {t : List (List ν)} (h : WF key idx t) {k : κ} {v : ν} :
    lookup key (idx k) k t = some v ↔ v ∈ entries t ∧ key v = k := by
  have hb : t[idx k]? = some (t.getD (idx k) []) := by
    rw [getD_eq_getElem?_getD, getElem?_eq_getElem (h.bound k), Option.getD_some]
  constructor
  · intro hl
    have hk : key v = k := by simpa using find?_some hl
    exact ⟨mem_entries.mpr ⟨_, _, hb, mem_of_find?_eq_some hl⟩, hk⟩
  · rintro ⟨hv, hk⟩
    obtain ⟨i, b, hi, hvb⟩ := mem_entries.mp hv
    -- the bucket that is searched is the one the entry is in
    have hidx : idx k = i := by rw [← hk]; exact h.placed i b hi v hvb
    have hgd : t.getD (idx k) [] = b := by
      rw [hidx] at hb ⊢
      rw [hi] at hb
      exact (Option.some.inj hb).symm
    cases hf : lookup key (idx k) k t with
    | none =>
      rw [lookup, hgd, find?_eq_none] at hf
      exact absurd (by simpa using hk) (hf v hvb)
    | some w =>
      -- whatever is found has the key, and the key has one entry
      have hkw : key w = k := by simpa using find?_some hf
      have hw : w ∈ entries t := mem_entries.mpr ⟨_, _, hb, mem_of_find?_eq_some hf⟩
      rw [h.eq_of_key_eq hw hv (hkw.trans hk.symm)]

theorem lookup_eq_none {t : List (List ν)} (h : WF key idx t) {k : κ} :
    lookup key (idx k) k t = none ↔ ∀ v ∈ entries t, key v ≠ k := by
  constructor
  · intro hl v hv hk
    rw [(lookup_eq_some h).mpr ⟨hv, hk⟩] at hl
    cases hl
  · intro hall
    cases hl : lookup key (idx k) k t with
    | none => rfl
    | some v =>
      obtain ⟨hv, hk⟩ := (lookup_eq_some h).mp hl
      exact absurd hk (hall v hv)

end

/-! ### Insertion -/

theorem perm_insertHead {t : List (List ν)} {i : ℕ} (hi : i < t.length) (v : ν) :
    (entries (insertHead i v t)).Perm (v :: entries t) := by
  induction t generalizing i with
  | nil => simp at hi
  | cons b t ih =>
    cases i with
    | zero => simp [entries, insertHead]
    | succ i =>
      have hp := ih (i := i) (by simpa using hi)
      have hcons : entries (insertHead (i + 1) v (b :: t)) = b ++ entries (insertHead i v t) := by
        simp [entries, insertHead]
      rw [hcons]
      exact (hp.append_left b).trans perm_middle

theorem wf_insertHead {t : List (List ν)} (h : WF key idx t) {v : ν}
    (hv : ∀ w ∈ entries t, key w ≠ key v) : WF key idx (insertHead (idx (key v)) v t) where
  bound := by
    intro k
    rw [insertHead, length_modify]
    exact h.bound k
  placed := by
    intro i b hb w hw
    rw [insertHead, getElem?_modify] at hb
    split at hb
    · next hi =>
      obtain ⟨b', hb', rfl⟩ := Option.map_eq_some_iff.mp hb
      rcases mem_cons.mp hw with rfl | hw
      · exact hi
      · exact h.placed i b' hb' w hw
    · obtain ⟨b', hb', rfl⟩ := Option.map_eq_some_iff.mp hb
      exact h.placed i b' hb' w hw
  nodup := by
    have hp := (perm_insertHead (h.bound (key v)) v).map key
    rw [hp.nodup_iff, map_cons, nodup_cons]
    refine ⟨?_, h.nodup⟩
    rw [mem_map]
    rintro ⟨w, hw, hk⟩
    exact hv w hw hk

/-! ### Writing and unlinking one entry -/

section

variable [DecidableEq κ]

theorem entries_assign (v : ν) (t : List (List ν)) :
    entries (assign key v t) = (entries t).map fun w => if key w = key v then v else w := by
  rw [entries, assign, entries, map_flatten]

theorem entries_erase (k : κ) (t : List (List ν)) :
    entries (erase key k t) = (entries t).filter fun w => decide (key w ≠ k) := by
  rw [entries, erase, entries, filter_flatten]

theorem mem_entries_erase {k : κ} {t : List (List ν)} {v : ν} :
    v ∈ entries (erase key k t) ↔ v ∈ entries t ∧ key v ≠ k := by
  simp [entries_erase]

section
variable {t : List (List ν)} (h : WF key idx t)
include h

/-- Split an entry off the table. -/
theorem perm_cons_erase {v : ν} (hv : v ∈ entries t) :
    (entries t).Perm (v :: entries (erase key (key v) t)) := by
  rw [entries_erase]
  have hnd := h.nodup
  have hinj : ∀ w ∈ entries t, key w = key v → w = v :=
    fun w hw hk => h.eq_of_key_eq hw hv hk
  -- by induction on the entries: the first with the key is the only one
  generalize entries t = l at hv hnd hinj
  induction l with
  | nil => cases hv
  | cons w l ih =>
    rw [map_cons, nodup_cons] at hnd
    by_cases hw : key w = key v
    · obtain rfl : w = v := hinj w mem_cons_self hw
      have hrest : l.filter (fun u => decide (key u ≠ key w)) = l := by
        rw [filter_eq_self]
        intro u hu
        have : key u ≠ key w := fun hk => hnd.1 (hk ▸ mem_map_of_mem hu)
        simpa using this
      rw [filter_cons_of_neg (by simp), hrest]
    · have hvl : v ∈ l := by
        rcases mem_cons.mp hv with rfl | hvl
        · exact absurd rfl hw
        · exact hvl
      rw [filter_cons_of_pos (by simpa using hw)]
      have hp := ih hvl hnd.2 (fun u hu => hinj u (mem_cons_of_mem _ hu))
      exact (hp.cons w).trans (List.Perm.swap v w _)

/-- Writing an entry changes nothing else. -/
theorem perm_assign {v v' : ν} (hv : v ∈ entries t) (hk : key v' = key v) :
    (entries (assign key v' t)).Perm (v' :: entries (erase key (key v) t)) := by
  rw [entries_assign, hk]
  have hp := (perm_cons_erase h hv).map fun w => if key w = key v then v' else w
  refine hp.trans ?_
  rw [map_cons, if_pos rfl]
  have hself : (entries (erase key (key v) t)).map (fun w => if key w = key v then v' else w) =
      entries (erase key (key v) t) := by
    refine map_congr_left (fun w hw => ?_) |>.trans (map_id _)
    rw [if_neg (mem_entries_erase.mp hw).2]
    rfl
  rw [hself]

theorem wf_assign (v : ν) : WF key idx (assign key v t) where
  bound := by
    intro k
    rw [assign, length_map]
    exact h.bound k
  placed := by
    intro i b hb w hw
    rw [assign, getElem?_map] at hb
    obtain ⟨b', hb', rfl⟩ := Option.map_eq_some_iff.mp hb
    obtain ⟨u, hu, rfl⟩ := mem_map.mp hw
    have hi := h.placed i b' hb' u hu
    split
    · next hk => rw [← hk]; exact hi
    · exact hi
  nodup := by
    -- the keys stay what they were, entry by entry
    rw [entries_assign, map_map]
    have hsame : key ∘ (fun w => if key w = key v then v else w) = key := by
      funext w
      simp only [Function.comp]
      split
      · next hk => exact hk.symm
      · rfl
    rw [hsame]
    exact h.nodup

theorem wf_erase (k : κ) : WF key idx (erase key k t) where
  bound := by
    intro k'
    rw [erase, length_map]
    exact h.bound k'
  placed := by
    intro i b hb w hw
    rw [erase, getElem?_map] at hb
    obtain ⟨b', hb', rfl⟩ := Option.map_eq_some_iff.mp hb
    exact h.placed i b' hb' w (mem_filter.mp hw).1
  nodup := by
    rw [entries_erase]
    exact (filter_sublist.map key).nodup h.nodup

end

/-- Unlinking an entry that was just written. -/
theorem erase_assign (v : ν) (t : List (List ν)) :
    erase key (key v) (assign key v t) = erase key (key v) t := by
  have hbucket : ∀ b : List ν, (b.map fun w => if key w = key v then v else w).filter
      (fun w => decide (key w ≠ key v)) = b.filter fun w => decide (key w ≠ key v) := by
    intro b
    induction b with
    | nil => rfl
    | cons w b ih =>
      rw [map_cons]
      by_cases hw : key w = key v
      · rw [if_pos hw, filter_cons_of_neg (by simp), filter_cons_of_neg (by simp [hw]), ih]
      · rw [if_neg hw, filter_cons_of_pos (by simpa using hw),
          filter_cons_of_pos (by simpa using hw), ih]
  rw [erase, assign, erase, map_map]
  exact map_congr_left fun b _ => hbucket b

theorem foldl_erase (ks : List κ) : ∀ t : List (List ν),
    ks.foldl (fun t k => erase key k t) t =
      t.map fun b => b.filter fun w => decide (key w ∉ ks) := by
  induction ks with
  | nil => intro t; simp
  | cons k ks ih =>
    intro t
    rw [foldl_cons, ih, erase, map_map]
    refine map_congr_left fun b _ => ?_
    rw [Function.comp_apply, filter_filter]
    refine filter_congr fun w _ => ?_
    simp only [mem_cons, not_or, Bool.decide_and, Bool.and_comm]

end

/-! ### Sweeps -/

theorem sweep_append (f : σ → ν → σ × Option ν) : ∀ (l l' : List ν) (s : σ),
    sweep f s (l ++ l') =
      ((sweep f (sweep f s l).1 l').1, (sweep f s l).2 ++ (sweep f (sweep f s l).1 l').2) := by
  intro l
  induction l with
  | nil => intro l' s; rfl
  | cons v l ih =>
    intro l' s
    simp only [cons_append, sweep, ih, append_assoc]

/-- A sweep over the buckets is a sweep over the entries. -/
theorem sweepAll_eq (f : σ → ν → σ × Option ν) : ∀ (t : List (List ν)) (s : σ),
    (sweepAll f s t).1 = (sweep f s (entries t)).1 ∧
      entries (sweepAll f s t).2 = (sweep f s (entries t)).2 := by
  intro t
  induction t with
  | nil => intro s; exact ⟨rfl, rfl⟩
  | cons b t ih =>
    intro s
    have hcons : entries (b :: t) = b ++ entries t := rfl
    obtain ⟨ih1, ih2⟩ := ih (sweep f s b).1
    rw [hcons, sweep_append]
    exact ⟨ih1, by rw [← ih2]; rfl⟩

variable {f : σ → ν → σ × Option ν}

/-- **The sweep rule.**  `P done s todo` relates the entries already written back,
the state, and the entries still to come. -/
theorem sweep_induct {P : List ν → σ → List ν → Prop}
    (hstep : ∀ done s v todo, P done s (v :: todo) → P (done ++ (f s v).2.toList) (f s v).1 todo) :
    ∀ (todo done : List ν) (s : σ), P done s todo →
      P (done ++ (sweep f s todo).2) (sweep f s todo).1 [] := by
  intro todo
  induction todo with
  | nil => intro done s h; simpa [sweep] using h
  | cons v todo ih =>
    intro done s h
    have h' := ih _ _ (hstep done s v todo h)
    rw [append_assoc] at h'
    exact h'

/-- The sweep rule for a whole table. -/
theorem sweepAll_induct {P : List ν → σ → List ν → Prop}
    (hstep : ∀ done s v todo, P done s (v :: todo) → P (done ++ (f s v).2.toList) (f s v).1 todo)
    {t : List (List ν)} {s : σ} (h : P [] s (entries t)) :
    P (entries (sweepAll f s t).2) (sweepAll f s t).1 [] := by
  rw [(sweepAll_eq f t s).1, (sweepAll_eq f t s).2]
  exact sweep_induct hstep (entries t) [] s h

/-- Two sweeps that answer alike while keeping their states related. -/
theorem sweep_rel {g : τ → ν → τ × Option ν} {R : σ → τ → Prop} :
    ∀ (l : List ν) (s : σ) (t : τ),
      (∀ s t, ∀ v ∈ l, R s t → R (f s v).1 (g t v).1 ∧ (f s v).2 = (g t v).2) → R s t →
      R (sweep f s l).1 (sweep g t l).1 ∧ (sweep f s l).2 = (sweep g t l).2 := by
  intro l
  induction l with
  | nil => intro s t _ h; exact ⟨h, rfl⟩
  | cons v l ih =>
    intro s t hstep h
    obtain ⟨hr, ho⟩ := hstep s t v mem_cons_self h
    obtain ⟨hr', ho'⟩ := ih _ _ (fun s t u hu => hstep s t u (mem_cons_of_mem _ hu)) hr
    exact ⟨hr', by rw [sweep, sweep, ho, ho']⟩

/-- **The simulation rule for sweeps** over the same table. -/
theorem sweepAll_rel {g : τ → ν → τ × Option ν} {R : σ → τ → Prop} :
    ∀ (t : List (List ν)) (s : σ) (s' : τ),
      (∀ s s', ∀ v ∈ entries t, R s s' → R (f s v).1 (g s' v).1 ∧ (f s v).2 = (g s' v).2) →
      R s s' → R (sweepAll f s t).1 (sweepAll g s' t).1 ∧
        (sweepAll f s t).2 = (sweepAll g s' t).2 := by
  intro t
  induction t with
  | nil => intro s s' _ h; exact ⟨h, rfl⟩
  | cons b t ih =>
    intro s s' hstep h
    have hcons : entries (b :: t) = b ++ entries t := rfl
    rw [hcons] at hstep
    obtain ⟨hr, ho⟩ := sweep_rel b s s'
      (fun s s' v hv => hstep s s' v (mem_append_left _ hv)) h
    obtain ⟨hr', ho'⟩ := ih _ _ (fun s s' v hv => hstep s s' v (mem_append_right _ hv)) hr
    exact ⟨hr', by rw [sweepAll, sweepAll, ho, ho']⟩

theorem sweepAll_skip : ∀ (t : List (List ν)) (s : σ),
    sweepAll (fun s v => (s, some v)) s t = (s, t) := by
  have hbucket : ∀ (l : List ν) (s : σ), sweep (fun s v => (s, some v)) s l = (s, l) := by
    intro l
    induction l with
    | nil => intro s; rfl
    | cons v l ih => intro s; simp [sweep, ih]
  intro t
  induction t with
  | nil => intro s; rfl
  | cons b t ih => intro s; simp [sweepAll, hbucket, ih]

/-- A sweep that unlinks nothing answers entry by entry. -/
theorem sweep_mem {R : ν → ν → Prop} : ∀ (l : List ν) (s : σ),
    (∀ s, ∀ v ∈ l, ∃ w, (f s v).2 = some w ∧ R v w) →
      (∀ w ∈ (sweep f s l).2, ∃ v ∈ l, R v w) ∧ ∀ v ∈ l, ∃ w ∈ (sweep f s l).2, R v w := by
  intro l
  induction l with
  | nil => intro s _; exact ⟨by simp [sweep], by simp⟩
  | cons v l ih =>
    intro s hstep
    obtain ⟨w, hw, hr⟩ := hstep s v mem_cons_self
    obtain ⟨ih1, ih2⟩ := ih (f s v).1 fun s' u hu => hstep s' u (mem_cons_of_mem _ hu)
    have hcons : (sweep f s (v :: l)).2 = w :: (sweep f (f s v).1 l).2 := by
      simp [sweep, hw]
    rw [hcons]
    constructor
    · intro u hu
      rcases mem_cons.mp hu with rfl | hu
      · exact ⟨v, mem_cons_self, hr⟩
      · obtain ⟨v', hv', hr'⟩ := ih1 u hu
        exact ⟨v', mem_cons_of_mem _ hv', hr'⟩
    · intro u hu
      rcases mem_cons.mp hu with rfl | hu
      · exact ⟨w, mem_cons_self, hr⟩
      · obtain ⟨w', hw', hr'⟩ := ih2 u hu
        exact ⟨w', mem_cons_of_mem _ hw', hr'⟩

/-- A sweep that unlinks by a test of the entry alone. -/
theorem sweepAll_filter {q : ν → Bool} {g : σ → ν → σ}
    (hf : ∀ s v, f s v = if q v then (g s v, none) else (s, some v)) :
    ∀ (t : List (List ν)) (s : σ), sweepAll f s t =
      (((entries t).filter q).foldl g s, t.map fun b => b.filter fun v => !q v) := by
  have hbucket : ∀ (l : List ν) (s : σ),
      sweep f s l = ((l.filter q).foldl g s, l.filter fun v => !q v) := by
    intro l
    induction l with
    | nil => intro s; rfl
    | cons v l ih =>
      intro s
      rw [sweep, hf]
      cases hv : q v with
      | true | false => simp [ih, hv]
  intro t
  induction t with
  | nil => intro s; rfl
  | cons b t ih => intro s; simp [sweepAll, hbucket, ih, entries]

/-- What a sweep keeps, and what it keeps it as. -/
theorem sweep_sublist_keys (hkey : ∀ s v w, (f s v).2 = some w → key w = key v) :
    ∀ (l : List ν) (s : σ), ((sweep f s l).2.map key).Sublist (l.map key) := by
  intro l
  induction l with
  | nil => intro s; exact List.Sublist.refl _
  | cons v l ih =>
    intro s
    rw [sweep, map_append, map_cons]
    cases hv : (f s v).2 with
    | none => exact (ih _).cons _
    | some w =>
      have hk := hkey s v w hv
      simp only [Option.toList_some, map_cons, map_nil, singleton_append, hk]
      exact (ih _).cons_cons _

theorem wf_sweepAll {t : List (List ν)} (h : WF key idx t)
    (hkey : ∀ s v w, (f s v).2 = some w → key w = key v) (s : σ) :
    WF key idx (sweepAll f s t).2 where
  bound := by
    have hlen : ∀ (t : List (List ν)) (s : σ), (sweepAll f s t).2.length = t.length := by
      intro t
      induction t with
      | nil => intro s; rfl
      | cons b t ih => intro s; simp [sweepAll, ih]
    intro k
    rw [hlen]
    exact h.bound k
  placed := by
    -- bucket by bucket: what a sweep keeps in a bucket has a key of that bucket
    have hbucket : ∀ (t : List (List ν)) (s : σ) (i : ℕ) (b : List ν),
        (sweepAll f s t).2[i]? = some b → ∀ w ∈ b, ∃ b', t[i]? = some b' ∧ key w ∈ b'.map key := by
      intro t
      induction t with
      | nil => intro s i b hb; simp [sweepAll] at hb
      | cons c t ih =>
        intro s i b hb w hw
        cases i with
        | zero =>
          obtain rfl : (sweep f s c).2 = b := by simpa [sweepAll] using hb
          refine ⟨c, rfl, ?_⟩
          exact (sweep_sublist_keys hkey c s).subset (mem_map_of_mem hw)
        | succ i =>
          obtain ⟨b', hb', hk⟩ := ih (sweep f s c).1 i b (by simpa [sweepAll] using hb) w hw
          exact ⟨b', by simpa using hb', hk⟩
    intro i b hb w hw
    obtain ⟨b', hb', hk⟩ := hbucket t s i b hb w hw
    obtain ⟨u, hu, hku⟩ := mem_map.mp hk
    rw [← hku]
    exact h.placed i b' hb' u hu
  nodup := by
    rw [(sweepAll_eq f t s).2]
    exact (sweep_sublist_keys hkey _ s).nodup h.nodup

end Chained
