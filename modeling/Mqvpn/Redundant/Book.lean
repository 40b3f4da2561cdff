import Mathlib.Algebra.Order.BigOperators.Group.List
import Mathlib.Algebra.Order.Group.Nat
import Mathlib.Data.Fintype.Card
import Mqvpn.Redundant.Tracker

/-!
# The book of originals

What the tracker is for, without its tables: a list of all originals that were entered, each with
the copies that are not resolved yet and whether one of them was acknowledged.  A report concerns
the original that has the copy, and no other.

The tracker keeps this book (`Keeps`): its table of copies has the unresolved ones, each with the
key of its original, and its table of originals has those with an unresolved copy, each with their
number.  Keys come from a counter of 64 bits, which does not come around: every original has a
datagram id of its own, and there are no more than `2 ^ 64` of these.

## Main definitions

* `Original`, `Book` — the originals, the calls and the answers to reports.
* `Keeps` — the tables of a tracker are those of a book.

## Main results

* `Book.Sane.nodup_keys` — keys tell the originals apart.
* `Keeps.commit` — an original is entered.
-/

namespace Mqvpn.Redundant

open List

/-! ### The book -/

structure Original where
  key : UInt64
  ids : List UInt64
  unresolved : List UInt64
  acked : Bool
  deriving DecidableEq

/-- A report resolves the copy, if that is still open. -/
def Original.resolve (o : Original) (id : UInt64) (acked : Bool) : Original :=
  if id ∈ o.unresolved then
    { o with unresolved := o.unresolved.erase id, acked := o.acked || acked }
  else o

/-- The answer to a report about an open copy. -/
def Original.answer (o : Original) (acked : Bool) : ℤ :=
  if acked then (if o.acked then 0 else 1)
  else if o.unresolved.length = 1 ∧ o.acked = false then 1 else 0

/-- All originals that were entered. -/
abbrev Book := List Original

namespace Book

def ids (os : Book) : List UInt64 := os.flatMap Original.ids

def isLive (o : Original) : Bool := !o.unresolved.isEmpty

def live (os : Book) : ℕ := os.countP isLive

def pending (os : Book) : ℕ := (os.map fun o => o.unresolved.length).sum

def accepts (os : Book) (k : ℕ) : Bool := !(k = 0 || cap ≤ os.live || cap < os.pending + k)

def commit (os : Book) (ids : List UInt64) : Book :=
  if os.accepts ids.length then os ++ [⟨.ofNat (os.length + 1), ids, ids, false⟩] else os

def report (os : Book) (id : UInt64) (acked : Bool) : Book := os.map (·.resolve id acked)

def reply (os : Book) (id : UInt64) (acked : Bool) : ℤ :=
  match os.find? (id ∈ ·.unresolved) with
  | none => -1
  | some o => o.answer acked

def step (os : Book) : Op → Book
  | .commit copies _ _ => os.commit (copies.map Prod.fst)
  | .acked id => os.report id true
  | .lost id => os.report id false
  | _ => os

def answer (os : Book) : Op → Option ℤ
  | .acked id => some (os.reply id true)
  | .lost id => some (os.reply id false)
  | _ => none

def log (os : Book) : List Op → List (Op × Option ℤ)
  | [] => []
  | op :: ops => (op, os.answer op) :: log (os.step op) ops

end Book

/-! ### Books in order -/

/-- There are no more ids than 64 bits can tell apart. -/
theorem length_le_of_nodup {l : List UInt64} (h : l.Nodup) :
    l.length ≤ 2 ^ 64 := by
  have hinj : (l.map UInt64.toFin).Nodup :=
    h.map fun a b hab => UInt64.toFin_inj.mp hab
  have := hinj.length_le_card
  rwa [length_map, Fintype.card_fin] at this

theorem ofNat_succ_inj {a b : ℕ} (ha : a < 2 ^ 64) (hb : b < 2 ^ 64)
    (h : UInt64.ofNat (a + 1) = UInt64.ofNat (b + 1)) : a = b := by
  have hmod := congrArg UInt64.toNat h
  rw [UInt64.toNat_ofNat', UInt64.toNat_ofNat'] at hmod
  omega

/-- The originals have their own ids, and the keys count them. -/
structure Book.Sane (os : Book) : Prop where
  nodup : os.ids.Nodup
  sub : ∀ o ∈ os, o.unresolved.Sublist o.ids
  nonempty : ∀ o ∈ os, o.ids ≠ []
  keys : os.map Original.key = (List.range os.length).map fun m => UInt64.ofNat (m + 1)

namespace Book.Sane

variable {os : Book}

theorem nil : Sane [] where
  nodup := nodup_nil
  sub _ h := absurd h not_mem_nil
  nonempty _ h := absurd h not_mem_nil
  keys := rfl

theorem nodup_unresolved (h : Sane os) {o : Original} (ho : o ∈ os) : o.unresolved.Nodup :=
  (h.sub o ho).nodup ((nodup_flatMap.mp h.nodup).1 o ho)

theorem length_le (h : Sane os) : os.length ≤ os.ids.length := by
  have : ∀ l : Book, (∀ o ∈ l, o.ids ≠ []) → l.length ≤ (Book.ids l).length := by
    intro l
    induction l with
    | nil => intro _; exact Nat.le_refl 0
    | cons o l ih =>
      intro hne
      have hpos := length_pos_iff.mpr (hne o (mem_cons_self ..))
      have hrest := ih fun o' ho' => hne o' (mem_cons_of_mem _ ho')
      unfold Book.ids at hrest ⊢
      rw [flatMap_cons, length_append, length_cons]
      omega
  exact this os h.nonempty

/-- Keys tell the originals apart. -/
theorem nodup_keys (h : Sane os) : (os.map Original.key).Nodup := by
  have hlen := Nat.le_trans h.length_le (length_le_of_nodup h.nodup)
  rw [h.keys]
  refine List.Nodup.map_on ?_ nodup_range
  intro a ha b hb hab
  rw [mem_range] at ha hb
  exact ofNat_succ_inj (by omega) (by omega) hab

/-- The original of an open copy is the only one with the id. -/
theorem split (h : Sane os) {o : Original} (ho : o ∈ os) {id : UInt64} (hid : id ∈ o.unresolved) :
    ∃ l₁ l₂, os = l₁ ++ o :: l₂ ∧ ∀ o' ∈ l₁ ++ l₂, id ∉ o'.ids := by
  obtain ⟨l₁, l₂, rfl⟩ := append_of_mem ho
  refine ⟨l₁, l₂, rfl, ?_⟩
  have hmem : id ∈ o.ids := (h.sub o ho).subset hid
  have hnodup := h.nodup
  unfold Book.ids at hnodup
  rw [flatMap_append, flatMap_cons] at hnodup
  intro o' ho' hid'
  rcases mem_append.mp ho' with hl | hl
  · have := (nodup_append.mp hnodup).2.2 id (mem_flatMap.mpr ⟨o', hl, hid'⟩)
      id (mem_append_left _ hmem)
    exact this rfl
  · have := (nodup_append.mp (nodup_append.mp hnodup).2.1).2.2 id hmem
      id (mem_flatMap.mpr ⟨o', hl, hid'⟩)
    exact this rfl

end Book.Sane

/-! ### The tables of a book -/

theorem rtxSlot_lt (k : UInt64) : rtxSlot k < tableSlots := Nat.mod_lt _ (by decide)

abbrev find {V : Type} (t : Probe.Table UInt64 V) (k : UInt64) : Option ℕ :=
  Probe.find tableSlots rtxSlot t k

abbrev lookup {V : Type} (t : Probe.Table UInt64 V) (k : UInt64) : Option V :=
  Probe.lookup tableSlots rtxSlot t k

/-- **The tables of the tracker are those of the book.** -/
structure Keeps (t : Tracker) (os : Book) : Prop where
  sane : os.Sane
  copies_wf : Probe.WF tableSlots rtxSlot t.copies
  origs_wf : Probe.WF tableSlots rtxSlot t.origs
  copies_n : t.copies.n = os.pending
  origs_n : t.origs.n = os.live
  copies_le : t.copies.n ≤ cap
  origs_le : t.origs.n ≤ cap
  next : t.nextOrig = .ofNat os.length
  copies : ∀ id key, (∃ c, lookup t.copies id = some c ∧ c.orig = key) ↔
    ∃ o ∈ os, o.key = key ∧ id ∈ o.unresolved
  origs : ∀ key e, lookup t.origs key = some e ↔
    ∃ o ∈ os, o.key = key ∧ o.unresolved ≠ [] ∧ e = ⟨.ofNat o.unresolved.length, o.acked⟩

theorem lt_tableSlots {n : ℕ} (h : n ≤ cap) : n < tableSlots :=
  Nat.lt_of_le_of_lt h (by decide)

theorem lookup_empty {V : Type} (k : UInt64) :
    lookup (Probe.empty : Probe.Table UInt64 V) k = none :=
  rfl

namespace Keeps

variable {t t' : Tracker} {os : Book}

theorem new : Keeps Tracker.new [] where
  sane := .nil
  copies_wf := .empty
  origs_wf := .empty
  copies_n := rfl
  origs_n := rfl
  copies_le := Nat.zero_le _
  origs_le := Nat.zero_le _
  next := rfl
  copies id key := by
    refine ⟨?_, ?_⟩
    · rintro ⟨c, hc, -⟩
      cases (lookup_empty id).symm.trans hc
    · rintro ⟨o, ho, -⟩
      exact absurd ho not_mem_nil
  origs key e := by
    refine ⟨fun he => ?_, ?_⟩
    · cases (lookup_empty key).symm.trans he
    · rintro ⟨o, ho, -⟩
      exact absurd ho not_mem_nil

/-- The number of open copies of an original fits. -/
theorem length_le_cap (h : Keeps t os) {o : Original} (ho : o ∈ os) :
    o.unresolved.length ≤ cap := by
  have hsum : o.unresolved.length ≤ os.pending :=
    single_le_sum (by simp) _ (mem_map.mpr ⟨o, ho, rfl⟩)
  have := h.copies_le
  rw [h.copies_n] at this
  omega

/-- Only the tables and the counter matter. -/
theorem congr (h : Keeps t os) (hc : t'.copies = t.copies) (ho : t'.origs = t.origs)
    (hn : t'.nextOrig = t.nextOrig) : Keeps t' os where
  sane := h.sane
  copies_wf := by rw [hc]; exact h.copies_wf
  origs_wf := by rw [ho]; exact h.origs_wf
  copies_n := by rw [hc]; exact h.copies_n
  origs_n := by rw [ho]; exact h.origs_n
  copies_le := by rw [hc]; exact h.copies_le
  origs_le := by rw [ho]; exact h.origs_le
  next := by rw [hn]; exact h.next
  copies := by rw [hc]; exact h.copies
  origs := by rw [ho]; exact h.origs

end Keeps

/-! ### Calls that leave the tables alone -/

/-- The tables and the counter are the same. -/
def SameTables (t t' : Tracker) : Prop :=
  t'.copies = t.copies ∧ t'.origs = t.origs ∧ t'.nextOrig = t.nextOrig

theorem SameTables.settle (t : Tracker) (c : Copy) (acked : Bool) :
    SameTables t (t.settle c acked) := by
  unfold Tracker.settle
  split <;> exact ⟨rfl, rfl, rfl⟩

/-- What a path has of its copies. -/
def PathTx.load (x : PathTx) : ℤ × UInt64 × ℕ := (x.outstanding, x.outBytes, x.first)

def PathTx.boundTo (x : PathTx) : Option UInt64 := if x.bound then some x.xqcId else none

/-- A path with the same copies, whose round trip is as it was or was measured. -/
def PathTx.Same (x x' : PathTx) : Prop :=
  x'.load = x.load ∧ x'.boundTo = x.boundTo ∧ (x'.minRtt = x.minRtt ∨ x'.minRtt < rttUnknown)

/-- The tables, the times and the copies of the paths are the same. -/
structure Quiet (t t' : Tracker) : Prop where
  tables : SameTables t t'
  sent : t'.sent = t.sent
  paths : ∀ p, (t.paths p).Same (t'.paths p)

namespace Quiet

variable {t t' t'' : Tracker}

theorem of_paths (htables : SameTables t t') (hsent : t'.sent = t.sent)
    (hpaths : t'.paths = t.paths) : Quiet t t' := by
  refine ⟨htables, hsent, fun p => ?_⟩
  rw [hpaths]
  exact ⟨rfl, rfl, .inl rfl⟩

theorem refl (t : Tracker) : Quiet t t := .of_paths ⟨rfl, rfl, rfl⟩ rfl rfl

theorem trans (h : Quiet t t') (h' : Quiet t' t'') : Quiet t t'' where
  tables := ⟨h'.tables.1.trans h.tables.1, h'.tables.2.1.trans h.tables.2.1,
    h'.tables.2.2.trans h.tables.2.2⟩
  sent := h'.sent.trans h.sent
  paths p := by
    obtain ⟨hload, hbound, hrtt⟩ := h.paths p
    obtain ⟨hload', hbound', hrtt'⟩ := h'.paths p
    refine ⟨hload'.trans hload, hbound'.trans hbound, ?_⟩
    rcases hrtt' with heq | hlt
    · rwa [heq]
    · exact .inr hlt

variable (t : Tracker)

theorem setPath {p : ℕ} {x : PathTx} (hx : (t.paths p).Same x) : Quiet t (t.setPath p x) := by
  refine ⟨⟨rfl, rfl, rfl⟩, rfl, fun q => ?_⟩
  have hpaths : (t.setPath p x).paths q = if q = p then x else t.paths q :=
    Function.update_apply ..
  rw [hpaths]
  split
  · next hq => rwa [hq]
  · exact ⟨rfl, rfl, .inl rfl⟩

theorem setPathMetrics (path : ℤ) (minRtt estBw inflight : UInt64) :
    Quiet t (t.setPathMetrics path minRtt estBw inflight) := by
  unfold Tracker.setPathMetrics
  split
  · exact refl t
  · refine setPath t ⟨rfl, rfl, .inr ?_⟩
    dsimp only
    split
    · assumption
    · decide

theorem countRate (now : UInt64) : Quiet t (t.countRate now) := by
  have hstart : Quiet t
      (if t.haveWin && now < t.lastUs then { t with haveWin := false } else t) := by
    split <;> exact .of_paths ⟨rfl, rfl, rfl⟩ rfl rfl
  have hsecond : ∀ (u : Tracker) (sec : UInt64), Quiet u (u.countSecond sec) := by
    intro u sec
    unfold Tracker.countSecond
    split <;> exact .of_paths ⟨rfl, rfl, rfl⟩ rfl rfl
  have hbucket : ∀ (u : Tracker) (fresh : Bool) (b : UInt64), Quiet u (u.countBucket fresh b) := by
    intro u fresh b
    unfold Tracker.countBucket
    split <;> exact .of_paths ⟨rfl, rfl, rfl⟩ rfl rfl
  exact ((hstart.trans (hsecond _ _)).trans (hbucket _ _ _)).trans
    (.of_paths ⟨rfl, rfl, rfl⟩ rfl rfl)

theorem foldl_consider (now : UInt64) (best : ℕ) : ∀ (ps : List ℕ) (acc : List ℕ × Tracker),
    Quiet acc.2 (ps.foldl (Tracker.consider now best) acc).2 := by
  intro ps
  induction ps with
  | nil => intro acc; exact refl _
  | cons p ps ih =>
    intro acc
    have hone : Quiet acc.2 (Tracker.consider now best acc p).2 := by
      unfold Tracker.consider
      dsimp only
      split_ifs
      all_goals first
        | exact refl _
        | exact setPath _ ⟨rfl, rfl, .inl rfl⟩
    exact hone.trans (ih _)

theorem select (usable : List ℤ) (now : UInt64) : Quiet t (t.select usable now).2 := by
  unfold Tracker.select
  split
  · exact refl t
  · dsimp only
    split
    · exact refl t
    · next best _ => exact foldl_consider now best _ ([], t)

theorem windowStart (now : UInt64) : Quiet t (t.windowStart now) :=
  ⟨⟨rfl, rfl, rfl⟩, rfl, fun _ => ⟨rfl, rfl, .inl rfl⟩⟩

theorem judge (allShort fit : Bool) (now : UInt64) : Quiet t (t.judge allShort fit now).1 := by
  unfold Tracker.judge
  split
  · split <;> exact .of_paths ⟨rfl, rfl, rfl⟩ rfl rfl
  · dsimp only
    generalize (if (allShort && startGrace ≤ now - t.flowSince) = true then t.shortN + 1 else 0) = n
    repeat' split
    all_goals exact .of_paths ⟨rfl, rfl, rfl⟩ rfl rfl

theorem updateMode (usable : List ℤ) (now : UInt64) : Quiet t (t.updateMode usable now).1 := by
  unfold Tracker.updateMode
  dsimp only
  split_ifs
  all_goals first
    | exact .of_paths ⟨rfl, rfl, rfl⟩ rfl rfl
    | exact (windowStart t now).trans (.of_paths ⟨rfl, rfl, rfl⟩ rfl rfl)
    | exact (windowStart t now).trans (judge ..)

theorem overloadBypass (now : UInt64) : Quiet t (t.overloadBypass now).1 := by
  unfold Tracker.overloadBypass
  split
  · exact countRate t now
  · exact refl t

end Quiet

theorem Keeps.same {t t' : Tracker} {os : Book} (h : Keeps t os) (hs : SameTables t t') :
    Keeps t' os :=
  h.congr hs.1 hs.2.1 hs.2.2

/-- The copies of a path that goes keep their originals. -/
theorem Keeps.detachPath {t : Tracker} {os : Book} (h : Keeps t os) (path : ℤ) :
    Keeps (t.detachPath path) os := by
  unfold Tracker.detachPath
  cases Tracker.pathOk path with
  | none => exact h
  | some p =>
    dsimp only
    split
    · exact h
    · have hwf := h.copies_wf.mapValues fun _ c =>
        if c.path = some p then { c with path := none } else c
      refine { h with copies_wf := hwf, copies := fun id key => ?_ }
      rw [← h.copies id key]
      show (∃ c, lookup (Probe.mapValues t.copies _) id = some c ∧ _) ↔ _
      rw [lookup, Probe.lookup_mapValues rtxSlot_lt h.copies_wf (lt_tableSlots h.copies_le)]
      constructor
      · rintro ⟨c, hc, rfl⟩
        obtain ⟨c', hc', rfl⟩ := Option.map_eq_some_iff.mp hc
        exact ⟨c', hc', by split <;> rfl⟩
      · rintro ⟨c, hc, rfl⟩
        exact ⟨_, Option.map_eq_some_iff.mpr ⟨c, hc, rfl⟩, by split <;> rfl⟩

theorem Keeps.bindPath {t : Tracker} {os : Book} (h : Keeps t os) (path : ℤ) (xqcId : UInt64) :
    Keeps (t.bindPath path xqcId) os := by
  unfold Tracker.bindPath
  cases Tracker.pathOk path with
  | none => exact h
  | some p =>
    dsimp only
    split
    · exact (h.detachPath path).same ⟨rfl, rfl, rfl⟩
    · exact h.same ⟨rfl, rfl, rfl⟩

/-! ### Entering an original -/

theorem foldl_addCopy {key bytes now : UInt64} : ∀ (cs : List (UInt64 × ℤ)) (t : Tracker),
    Probe.WF tableSlots rtxSlot t.copies → t.copies.n + cs.length ≤ cap →
    (cs.map Prod.fst).Nodup → (∀ id ∈ cs.map Prod.fst, lookup t.copies id = none) →
    let t' := cs.foldl (Tracker.addCopy key bytes now) t
    Probe.WF tableSlots rtxSlot t'.copies ∧ t'.copies.n = t.copies.n + cs.length ∧
      t'.origs = t.origs ∧ t'.nextOrig = t.nextOrig ∧
      ∀ id key', (∃ c, lookup t'.copies id = some c ∧ c.orig = key') ↔
        (id ∈ cs.map Prod.fst ∧ key' = key) ∨ ∃ c, lookup t.copies id = some c ∧ c.orig = key' := by
  intro cs
  induction cs with
  | nil =>
    intro t hwf _ _ _
    exact ⟨hwf, rfl, rfl, rfl, fun id key' => by simp⟩
  | cons c cs ih =>
    intro t hwf hroom hnodup hnew
    rw [length_cons] at hroom
    rw [map_cons, nodup_cons] at hnodup
    have hc : lookup t.copies c.1 = none := hnew c.1 (mem_cons_self ..)
    obtain ⟨copy, hkey, hcopies, horigs, hnext⟩ : ∃ copy : Copy, copy.orig = key ∧
        (Tracker.addCopy key bytes now t c).copies =
          Probe.insert tableSlots rtxSlot t.copies c.1 copy ∧
        (Tracker.addCopy key bytes now t c).origs = t.origs ∧
        (Tracker.addCopy key bytes now t c).nextOrig = t.nextOrig := by
      refine ⟨⟨key, Tracker.pathOk c.2, bytes⟩, rfl, ?_⟩
      unfold Tracker.addCopy
      dsimp only
      split <;> exact ⟨rfl, rfl, rfl⟩
    have hlt : t.copies.n + 1 < tableSlots := lt_tableSlots (by omega)
    have hlookup := Probe.lookup_insert rtxSlot_lt hwf hlt hc copy
    have hwf' := hwf.insert rtxSlot_lt (by omega) hc copy
    rw [← hcopies] at hlookup hwf'
    have hn' : (Tracker.addCopy key bytes now t c).copies.n = t.copies.n + 1 := by
      rw [hcopies]
      rfl
    obtain ⟨h₁, h₂, h₃, h₄, h₅⟩ := ih (Tracker.addCopy key bytes now t c) hwf' (by omega)
      hnodup.2 (fun id hid => by
        rw [lookup, hlookup, if_neg (by rintro rfl; exact hnodup.1 hid)]
        exact hnew id (mem_cons_of_mem _ hid))
    refine ⟨h₁, ?_, h₃.trans horigs, h₄.trans hnext, fun id key' => ?_⟩
    · rw [foldl_cons, h₂, hn', length_cons]
      omega
    · rw [foldl_cons, h₅, lookup, hlookup, map_cons, mem_cons]
      by_cases hid : id = c.1
      · subst hid
        rw [if_pos rfl, hc]
        simp [hkey, hnodup.1, eq_comm]
      · rw [if_neg hid]
        simp [hid]

namespace Book

variable {os : Book} {ids : List UInt64}

theorem pending_append (os os' : Book) : pending (os ++ os') = pending os + pending os' := by
  unfold pending
  rw [map_append, sum_append]

theorem live_append (os os' : Book) : live (os ++ os') = live os + live os' := countP_append

theorem live_cons (o : Original) (os : Book) :
    live (o :: os) = live os + if o.unresolved.length = 0 then 0 else 1 := by
  unfold live
  rw [countP_cons]
  unfold isLive
  cases o.unresolved <;> simp

theorem ids_append (os os' : Book) : Book.ids (os ++ os') = Book.ids os ++ Book.ids os' :=
  flatMap_append

/-- A new original keeps the book in order. -/
theorem Sane.commit (h : Sane os) (hfresh : (os.ids ++ ids).Nodup) (hne : ids ≠ []) :
    Sane (os ++ [⟨.ofNat (os.length + 1), ids, ids, false⟩]) where
  nodup := by
    rw [ids_append]
    simpa [Book.ids] using hfresh
  sub o ho := by
    rcases mem_append.mp ho with ho | ho
    · exact h.sub o ho
    · rw [mem_singleton.mp ho]
  nonempty o ho := by
    rcases mem_append.mp ho with ho | ho
    · exact h.nonempty o ho
    · rw [mem_singleton.mp ho]
      exact hne
  keys := by
    rw [map_append, h.keys, length_append, length_singleton, range_succ,
      map_append]
    rfl

end Book

namespace Keeps

variable {t u v : Tracker} {os : Book} {cs : List (UInt64 × ℤ)} (h : Keeps t os)
include h

theorem next_key : t.nextOrig + 1 = .ofNat (os.length + 1) := by
  rw [h.next, UInt64.ofNat_add]
  rfl

theorem key_ne_next (hfresh : (os.ids ++ cs.map Prod.fst).Nodup) (hne : cs ≠ []) {o : Original}
    (ho : o ∈ os) : o.key ≠ .ofNat (os.length + 1) := by
  intro heq
  have hids : cs.map Prod.fst ≠ [] := by simpa using hne
  have hnodup := (h.sane.commit hfresh hids).nodup_keys
  rw [map_append, nodup_append] at hnodup
  exact hnodup.2.2 o.key (mem_map_of_mem ho) _ (mem_singleton_self _) heq

theorem lookup_next (hfresh : (os.ids ++ cs.map Prod.fst).Nodup) (hne : cs ≠ []) :
    lookup t.origs (t.nextOrig + 1) = none := by
  rw [h.next_key]
  cases hl : lookup t.origs (.ofNat (os.length + 1)) with
  | none => rfl
  | some e =>
    obtain ⟨o, ho, heq, -⟩ := (h.origs _ e).mp hl
    exact absurd heq (h.key_ne_next hfresh hne ho)

/-- New ids are not in the table. -/
theorem lookup_fresh {ids : List UInt64} (hfresh : (os.ids ++ ids).Nodup) :
    ∀ id ∈ ids, lookup t.copies id = none := by
  intro id hid
  cases hl : lookup t.copies id with
  | none => rfl
  | some c =>
    obtain ⟨o, ho, -, hmem⟩ := (h.copies id c.orig).mp ⟨c, hl, rfl⟩
    have hused : id ∈ os.ids := mem_flatMap.mpr ⟨o, ho, (h.sane.sub o ho).subset hmem⟩
    exact absurd rfl ((nodup_append.mp hfresh).2.2 id hused id hid)

omit h in
/-- The tables after an original was entered. -/
theorem enter (h : Keeps u os) (hfresh : (os.ids ++ cs.map Prod.fst).Nodup) (hne : cs ≠ [])
    (horoom : u.origs.n < cap) (hcroom : u.copies.n + cs.length ≤ cap)
    (hcwf : Probe.WF tableSlots rtxSlot v.copies) (hcn : v.copies.n = u.copies.n + cs.length)
    (horigs : v.origs = Probe.insert tableSlots rtxSlot u.origs (u.nextOrig + 1)
      ⟨.ofNat cs.length, false⟩)
    (hnext : v.nextOrig = u.nextOrig + 1)
    (hcopies : ∀ id key, (∃ c, lookup v.copies id = some c ∧ c.orig = key) ↔
      (id ∈ cs.map Prod.fst ∧ key = u.nextOrig + 1) ∨
        ∃ c, lookup u.copies id = some c ∧ c.orig = key) :
    Keeps v (os ++ [⟨.ofNat (os.length + 1), cs.map Prod.fst, cs.map Prod.fst, false⟩]) := by
  have hids : cs.map Prod.fst ≠ [] := by simpa using hne
  have hnone := h.lookup_next hfresh hne
  have hlt : u.origs.n + 1 < tableSlots := lt_tableSlots horoom
  have hlookup := Probe.lookup_insert rtxSlot_lt h.origs_wf hlt hnone ⟨.ofNat cs.length, false⟩
  have howf := h.origs_wf.insert rtxSlot_lt (by omega) hnone ⟨.ofNat cs.length, false⟩
  refine ⟨h.sane.commit hfresh hids, hcwf, by rw [horigs]; exact howf, ?_, ?_, ?_, ?_, ?_, ?_, ?_⟩
  · rw [hcn, h.copies_n, Book.pending_append]
    simp [Book.pending]
  · rw [horigs, Book.live_append]
    show u.origs.n + 1 = _
    rw [h.origs_n]
    simp [Book.live, Book.isLive, hne]
  · rw [hcn]
    exact hcroom
  · rw [horigs]
    exact horoom
  · rw [hnext, h.next_key, length_append, length_singleton]
  · intro id key
    rw [hcopies, h.copies, h.next_key]
    simp only [mem_append, mem_singleton, or_and_right, exists_or, exists_eq_left]
    rw [or_comm, and_comm, @eq_comm _ key]
  · intro key e
    rw [horigs, lookup, hlookup, h.next_key]
    by_cases hkk : key = .ofNat (os.length + 1)
    · rw [if_pos hkk, hkk]
      constructor
      · intro he
        cases he
        exact ⟨_, mem_append_right _ (mem_singleton_self _), rfl, hids,
          by rw [length_map]⟩
      · rintro ⟨o, ho, heq, -, rfl⟩
        rcases mem_append.mp ho with ho | ho
        · exact absurd heq (h.key_ne_next hfresh hne ho)
        · rw [mem_singleton.mp ho, length_map]
    · rw [if_neg hkk]
      refine (h.origs key e).trans ⟨?_, ?_⟩
      · rintro ⟨o, ho, hrest⟩
        exact ⟨o, mem_append_left _ ho, hrest⟩
      · rintro ⟨o, ho, heq, hrest⟩
        rcases mem_append.mp ho with ho | ho
        · exact ⟨o, ho, heq, hrest⟩
        · rw [mem_singleton.mp ho] at heq
          exact absurd heq.symm hkk

theorem accepts_eq (cs : List (UInt64 × ℤ)) :
    os.accepts (cs.map Prod.fst).length = t.accepts cs := by
  unfold Book.accepts Tracker.accepts
  rw [length_map, h.copies_n, h.origs_n]

/-- **An original is entered.** -/
theorem commit (cs : List (UInt64 × ℤ)) (now : UInt64) (len : ℕ)
    (hfresh : (os.ids ++ cs.map Prod.fst).Nodup) :
    Keeps (t.commit cs now len) (os.commit (cs.map Prod.fst)) := by
  unfold Tracker.commit Book.commit
  rw [h.accepts_eq]
  cases hacc : t.accepts cs with
  | false => exact h
  | true =>
    rw [if_pos rfl, if_pos rfl]
    have hrate := (Quiet.countRate t now).tables
    have hk := h.same hrate
    dsimp only
    generalize t.countRate now = u at hrate hk
    -- the tables have room
    obtain ⟨⟨hne, horoom⟩, hcroom⟩ :
        (cs ≠ [] ∧ u.origs.n < cap) ∧ u.copies.n + cs.length ≤ cap := by
      unfold Tracker.accepts at hacc
      rw [hrate.1, hrate.2.1]
      simpa using hacc
    obtain ⟨hcwf, hcn, horigs, hnext, hcopies⟩ := @foldl_addCopy (u.nextOrig + 1)
      (.ofNat (min len 0xffff)) now cs { u with
        nextOrig := u.nextOrig + 1
        origs := Probe.insert tableSlots rtxSlot u.origs (u.nextOrig + 1)
          ⟨.ofNat cs.length, false⟩ }
      hk.copies_wf hcroom (nodup_append.mp hfresh).2.1 (hk.lookup_fresh hfresh)
    exact hk.enter hfresh hne horoom hcroom hcwf hcn horigs hnext hcopies

end Keeps

end Mqvpn.Redundant
