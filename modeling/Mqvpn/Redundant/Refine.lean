import Mqvpn.Redundant.Book

/-!
# The tracker keeps the book

A report is looked up in the table of copies, the copy leads to its original, and both tables
change.  On the book it takes one copy from the original that has it.

## Main results

* `Keeps.step`, `Keeps.answer` — **a call of the tracker is a call on the book**.
* `Keeps.run` — and so are runs.
-/

namespace Mqvpn.Redundant

open List

/-! ### Reports on the book -/

theorem ofNat_sub_one {n : ℕ} (h : 0 < n) : UInt64.ofNat n - 1 = UInt64.ofNat (n - 1) := by
  obtain ⟨m, rfl⟩ := Nat.exists_eq_succ_of_ne_zero (Nat.ne_of_gt h)
  rw [Nat.succ_eq_add_one, UInt64.ofNat_add, Nat.add_sub_cancel]
  exact UInt64.add_sub_cancel ..

theorem ofNat_eq_zero_iff {n : ℕ} (h : n < 2 ^ 64) : UInt64.ofNat n = 0 ↔ n = 0 := by
  constructor
  · intro heq
    have := congrArg UInt64.toNat heq
    rw [UInt64.toNat_ofNat'] at this
    simp only [UInt64.toNat_zero] at this
    omega
  · rintro rfl
    rfl

/-- A report resolves one copy at most. -/
theorem Original.resolve_eq (o : Original) (id : UInt64) (acked : Bool) :
    ∃ us a, o.resolve id acked = { o with unresolved := us, acked := a } ∧
      us.Sublist o.unresolved := by
  unfold Original.resolve
  split
  · exact ⟨_, _, rfl, erase_sublist ..⟩
  · exact ⟨o.unresolved, o.acked, rfl, .refl _⟩

namespace Book

variable {os l₁ l₂ : Book} {o : Original} {id : UInt64}

theorem mem_middle {x o' : Original} : o' ∈ l₁ ++ x :: l₂ ↔ o' = x ∨ o' ∈ l₁ ++ l₂ := by
  simp only [mem_append, mem_cons]
  tauto

/-- A report about no open copy changes nothing. -/
theorem report_none (h : ∀ o ∈ os, id ∉ o.unresolved) (acked : Bool) :
    report os id acked = os ∧ reply os id acked = -1 := by
  constructor
  · unfold report
    refine (map_congr_left fun o ho => ?_).trans (map_id os)
    exact if_neg (h o ho)
  · unfold reply
    rw [find?_eq_none.mpr (by simpa using h)]

/-- A report about a copy of one original changes that one. -/
theorem report_split (hid : id ∈ o.unresolved) (hothers : ∀ o' ∈ l₁ ++ l₂, id ∉ o'.unresolved)
    (acked : Bool) :
    report (l₁ ++ o :: l₂) id acked = l₁ ++ o.resolve id acked :: l₂ ∧
      reply (l₁ ++ o :: l₂) id acked = o.answer acked := by
  have h₁ : ∀ o' ∈ l₁, id ∉ o'.unresolved := fun o' ho' => hothers o' (mem_append_left _ ho')
  have h₂ : ∀ o' ∈ l₂, id ∉ o'.unresolved := fun o' ho' => hothers o' (mem_append_right _ ho')
  constructor
  · have hreport : ∀ l l' : Book,
        report (l ++ l') id acked = report l id acked ++ report l' id acked :=
      fun _ _ => map_append
    rw [hreport, (report_none h₁ acked).1]
    exact congrArg (l₁ ++ _ :: ·) (report_none h₂ acked).1
  · unfold reply
    rw [find?_append, find?_eq_none.mpr (by simpa using h₁), Option.none_or,
      find?_cons_of_pos (by simpa using hid)]

theorem ids_report (os : Book) (id : UInt64) (acked : Bool) :
    Book.ids (report os id acked) = Book.ids os := by
  unfold Book.ids report
  rw [flatMap_map]
  congr 1
  funext o
  obtain ⟨us, a, hres, -⟩ := o.resolve_eq id acked
  rw [hres]

/-- A resolved copy keeps the book in order. -/
theorem Sane.resolve (h : Sane (l₁ ++ o :: l₂)) (acked : Bool) :
    Sane (l₁ ++ o.resolve id acked :: l₂) := by
  obtain ⟨us, a, hres, hus⟩ := o.resolve_eq id acked
  obtain ⟨hnodup, hsub, hnonempty, hkeys⟩ := h
  simp only [forall_mem_append, forall_mem_cons] at hsub hnonempty
  rw [hres]
  refine ⟨?_, ?_, ?_, ?_⟩
  · simpa only [Book.ids, flatMap_append, flatMap_cons] using hnodup
  · simp only [forall_mem_append, forall_mem_cons]
    exact ⟨hsub.1, hus.trans hsub.2.1, hsub.2.2⟩
  · simpa only [forall_mem_append, forall_mem_cons] using hnonempty
  · simpa only [map_append, map_cons, length_append, length_cons] using hkeys

end Book

/-! ### Reports to the tracker -/

/-- A report about a copy, with its answer. -/
def Tracker.reported (t : Tracker) (id : UInt64) : Bool → Tracker × ℤ
  | true => t.onAcked id
  | false => t.onLost id

theorem reported_none {t : Tracker} {id : UInt64} {acked : Bool} (h : t.resolve id acked = none) :
    t.reported id acked = (t, -1) := by
  cases acked with
  | true => rw [Tracker.reported, Tracker.onAcked, h]
  | false => rw [Tracker.reported, Tracker.onLost, h]

/-- What a report does behind `resolve` is about the original only. -/
theorem reported_fields {t u : Tracker} {id key : UInt64} {acked : Bool} {j : ℕ} {o : Orig}
    (h : t.resolve id acked = some (u, j, key, o)) :
    ∃ origs, (t.reported id acked).1 = { u with origs := origs } := by
  cases acked with
  | true =>
    rw [Tracker.reported, Tracker.onAcked, h]
    dsimp only
    split <;> exact ⟨_, rfl⟩
  | false =>
    rw [Tracker.reported, Tracker.onLost, h]
    dsimp only
    split <;> exact ⟨_, rfl⟩

namespace Keeps

variable {t v : Tracker} {os l₁ l₂ : Book} {o : Original} {id : UInt64} {i j : ℕ}

/-- The key of an original is not that of another. -/
theorem key_ne (h : Keeps t (l₁ ++ o :: l₂)) {o' : Original} (ho' : o' ∈ l₁ ++ l₂) :
    o'.key ≠ o.key := by
  have hperm : (l₁ ++ o :: l₂).Perm (o :: (l₁ ++ l₂)) := perm_middle
  have hnodup := (hperm.map Original.key).nodup_iff.mp h.sane.nodup_keys
  rw [map_cons, nodup_cons] at hnodup
  intro heq
  exact hnodup.1 (heq ▸ mem_map_of_mem ho')

/-- The tables after a report about an open copy of the original `o`. -/
theorem drop (h : Keeps t (l₁ ++ o :: l₂)) (hid : id ∈ o.unresolved)
    (hothers : ∀ o' ∈ l₁ ++ l₂, id ∉ o'.unresolved) (acked : Bool)
    (hi : find t.copies id = some i) (hj : find t.origs o.key = some j)
    (hcopies : v.copies = Probe.remove tableSlots rtxSlot t.copies i)
    (horigs : v.origs =
      let origs := Probe.modify t.origs j o.key
        ⟨.ofNat (o.unresolved.length - 1), o.acked || acked⟩
      if o.unresolved.length = 1 then Probe.remove tableSlots rtxSlot origs j else origs)
    (hnext : v.nextOrig = t.nextOrig) :
    Keeps v (l₁ ++ o.resolve id acked :: l₂) := by
  have hmem : o ∈ l₁ ++ o :: l₂ := Book.mem_middle.mpr (.inl rfl)
  have hlen : 0 < o.unresolved.length := length_pos_of_mem hid
  have hcn := lt_tableSlots h.copies_le
  have hon := lt_tableSlots h.origs_le
  have hres : o.resolve id acked =
      { o with unresolved := o.unresolved.erase id, acked := o.acked || acked } := if_pos hid
  have herase : (o.unresolved.erase id).length = o.unresolved.length - 1 :=
    length_erase_of_mem hid
  -- the table of originals
  set e : Orig := ⟨.ofNat (o.unresolved.length - 1), o.acked || acked⟩ with he
  have hmwf := h.origs_wf.modify rtxSlot_lt hon hj e
  have hmfind := Probe.find_modify rtxSlot_lt h.origs_wf hon hj e
  have hmlookup := Probe.lookup_modify rtxSlot_lt h.origs_wf hon hj e
  have howf : Probe.WF tableSlots rtxSlot v.origs := by
    rw [horigs]
    dsimp only
    split
    · exact hmwf.remove rtxSlot_lt hon hmfind
    · exact hmwf
  have holookup : ∀ key, lookup v.origs key =
      if key = o.key then (if o.unresolved.length = 1 then none else some e)
      else lookup t.origs key := by
    intro key
    rw [horigs]
    dsimp only
    by_cases hlast : o.unresolved.length = 1
    · rw [if_pos hlast, if_pos hlast, lookup, Probe.lookup_remove rtxSlot_lt hmwf hon hmfind,
        hmlookup]
      split <;> rfl
    · rw [if_neg hlast, if_neg hlast, lookup, hmlookup]
  have hclookup := Probe.lookup_remove rtxSlot_lt h.copies_wf hcn hi
  rw [← hcopies] at hclookup
  have hn : v.copies.n = t.copies.n - 1 := by rw [hcopies]; rfl
  have hpending := h.copies_n
  have hlive := h.origs_n
  rw [Book.pending_append] at hpending
  rw [Book.live_append] at hlive
  refine ⟨h.sane.resolve acked, ?_, howf, ?_, ?_, ?_, ?_, ?_, ?_, ?_⟩
  · rw [hcopies]
    exact h.copies_wf.remove rtxSlot_lt hcn hi
  · rw [hn, hpending, Book.pending_append, hres]
    simp only [Book.pending, map_cons, sum_cons, herase]
    omega
  · rw [horigs, Book.live_append, hres, Book.live_cons, herase]
    rw [Book.live_cons, if_neg (Nat.ne_of_gt hlen)] at hlive
    dsimp only
    by_cases hlast : o.unresolved.length = 1
    · rw [if_pos hlast, if_pos (by omega)]
      show t.origs.n - 1 = _
      omega
    · rw [if_neg hlast, if_neg (by omega)]
      exact hlive
  · rw [hn]
    exact Nat.le_trans (Nat.sub_le _ _) h.copies_le
  · rw [horigs]
    dsimp only
    split
    · exact Nat.le_trans (Nat.sub_le _ _) h.origs_le
    · exact h.origs_le
  · rw [hnext, h.next, length_append, length_append, length_cons, length_cons]
  · intro id' key
    rw [lookup, hclookup]
    by_cases hidid : id' = id
    · subst hidid
      rw [if_pos rfl]
      constructor
      · rintro ⟨c, hc, -⟩
        cases hc
      · rintro ⟨o', ho', -, hid'⟩
        rcases Book.mem_middle.mp ho' with rfl | ho'
        · rw [hres] at hid'
          exact absurd hid' ((h.sane.nodup_unresolved hmem).not_mem_erase)
        · exact absurd hid' (hothers o' ho')
    · rw [if_neg hidid]
      refine (h.copies id' key).trans ?_
      simp only [Book.mem_middle, or_and_right, exists_or, exists_eq_left, hres,
        mem_erase_of_ne hidid]
  · intro key e'
    rw [holookup, hres]
    by_cases hkk : key = o.key
    · rw [if_pos hkk, hkk]
      have honly : ∀ o' ∈ l₁ ++ l₂, o'.key ≠ o.key := fun o' ho' => h.key_ne ho'
      by_cases hlast : o.unresolved.length = 1
      · rw [if_pos hlast]
        refine ⟨fun hc => (by cases hc), ?_⟩
        rintro ⟨o', ho', hkey, hne, -⟩
        rcases Book.mem_middle.mp ho' with rfl | ho'
        · exact absurd (length_eq_zero_iff.mp (by rw [herase]; omega)) hne
        · exact absurd hkey (honly o' ho')
      · rw [if_neg hlast]
        constructor
        · intro hc
          cases hc
          refine ⟨_, Book.mem_middle.mpr (.inl rfl), rfl, ?_, by rw [he, herase]⟩
          intro hnil
          have := herase.symm.trans (congrArg length hnil)
          rw [length_nil] at this
          omega
        · rintro ⟨o', ho', hkey, -, rfl⟩
          rcases Book.mem_middle.mp ho' with rfl | ho'
          · rw [he, herase]
          · exact absurd hkey (honly o' ho')
    · rw [if_neg hkk]
      refine (h.origs key e').trans ?_
      simp only [Book.mem_middle, or_and_right, exists_or, exists_eq_left, @eq_comm _ o.key, hkk,
        false_and, false_or]

/-- What `resolve` does for an open copy of the original `o`. -/
theorem resolve_open (h : Keeps t os) (ho : o ∈ os) (hid : id ∈ o.unresolved) (acked : Bool) :
    ∃ c i j, lookup t.copies id = some c ∧ find t.copies id = some i ∧
      find t.origs o.key = some j ∧ t.resolve id acked = some ({ t.settle c acked with
        copies := Probe.remove tableSlots rtxSlot t.copies i
        origs := Probe.modify t.origs j o.key ⟨.ofNat (o.unresolved.length - 1), o.acked⟩ },
        j, o.key, ⟨.ofNat (o.unresolved.length - 1), o.acked⟩) := by
  have hne : o.unresolved ≠ [] := ne_nil_of_mem hid
  obtain ⟨c, hc, hkey⟩ := (h.copies id o.key).mpr ⟨o, ho, rfl, hid⟩
  have horig := (h.origs o.key _).mpr ⟨o, ho, rfl, hne, rfl⟩
  obtain ⟨i, hi⟩ := Probe.exists_find rtxSlot_lt h.copies_wf (lt_tableSlots h.copies_le) hc
  obtain ⟨j, hj⟩ := Probe.exists_find rtxSlot_lt h.origs_wf (lt_tableSlots h.origs_le) horig
  obtain ⟨hcopies, horigs, -⟩ := SameTables.settle t c acked
  refine ⟨c, i, j, hc, hi, hj, ?_⟩
  unfold Tracker.resolve
  unfold lookup at hc horig
  rw [hi, hc]
  dsimp only
  rw [hkey, hj, horig]
  dsimp only
  rw [ofNat_sub_one (length_pos_iff.mpr hne), hcopies, horigs]

/-- **A report about an open copy.** -/
theorem reported_open (h : Keeps t (l₁ ++ o :: l₂)) (hid : id ∈ o.unresolved)
    (hothers : ∀ o' ∈ l₁ ++ l₂, id ∉ o'.unresolved) (acked : Bool) :
    Keeps (t.reported id acked).1 (l₁ ++ o.resolve id acked :: l₂) ∧
      (t.reported id acked).2 = o.answer acked := by
  have ho : o ∈ l₁ ++ o :: l₂ := Book.mem_middle.mpr (.inl rfl)
  obtain ⟨c, i, j, -, hi, hj, hres⟩ := h.resolve_open ho hid acked
  have hcap := h.length_le_cap ho
  have hlen : 0 < o.unresolved.length := length_pos_of_mem hid
  have hlast : UInt64.ofNat (o.unresolved.length - 1) = 0 ↔ o.unresolved.length = 1 := by
    rw [ofNat_eq_zero_iff (by unfold cap at hcap; omega)]
    omega
  obtain ⟨origs, hu⟩ := reported_fields hres
  refine ⟨h.drop hid hothers acked hi hj (by rw [hu]) ?_
    (by rw [hu]; exact (SameTables.settle t c acked).2.2), ?_⟩
  · cases acked with
    | true =>
      rw [Tracker.reported, Tracker.onAcked, hres, Bool.or_true]
      dsimp only
      simp only [hlast]
      split
      · rw [Tracker.dropOrig, Probe.modify_modify]
      · rw [Probe.modify_modify]
    | false =>
      rw [Tracker.reported, Tracker.onLost, hres, Bool.or_false]
      dsimp only
      simp only [hlast]
      split <;> rfl
  · cases acked with
    | true => rw [Tracker.reported, Tracker.onAcked, hres]; rfl
    | false =>
      rw [Tracker.reported, Tracker.onLost, hres, Original.answer, if_neg Bool.false_ne_true]
      simp only [hlast]

variable (h : Keeps t os)
include h

/-- A report about no open copy is not tracked. -/
theorem resolve_none (hnone : ∀ o ∈ os, id ∉ o.unresolved) (acked : Bool) :
    t.resolve id acked = none := by
  have hl : lookup t.copies id = none := by
    cases hl : lookup t.copies id with
    | none => rfl
    | some c =>
      obtain ⟨o, ho, -, hid⟩ := (h.copies id c.orig).mp ⟨c, hl, rfl⟩
      exact absurd hid (hnone o ho)
  unfold Tracker.resolve
  unfold lookup at hl
  rw [hl]
  cases Probe.find tableSlots rtxSlot t.copies id <;> rfl

/-- **A report.** -/
theorem report (id : UInt64) (acked : Bool) :
    Keeps (t.reported id acked).1 (os.report id acked) ∧
      (t.reported id acked).2 = os.reply id acked := by
  by_cases hopen : ∃ o ∈ os, id ∈ o.unresolved
  · obtain ⟨o, ho, hid⟩ := hopen
    obtain ⟨l₁, l₂, rfl, hothers⟩ := h.sane.split ho hid
    have hothers' : ∀ o' ∈ l₁ ++ l₂, id ∉ o'.unresolved := fun o' ho' hid' =>
      hothers o' ho' ((h.sane.sub o' (Book.mem_middle.mpr (.inr ho'))).subset hid')
    obtain ⟨hreport, hreply⟩ := Book.report_split hid hothers' acked
    rw [hreport, hreply]
    exact h.reported_open hid hothers' acked
  · have hnone : ∀ o ∈ os, id ∉ o.unresolved := fun o ho hid => hopen ⟨o, ho, hid⟩
    obtain ⟨hreport, hreply⟩ := Book.report_none hnone acked
    rw [hreport, hreply, reported_none (h.resolve_none hnone acked)]
    exact ⟨h, rfl⟩

/-! ### Runs -/

theorem answer (op : Op) : t.answer op = os.answer op := by
  cases op with
  | acked id => exact congrArg some (h.report id true).2
  | lost id => exact congrArg some (h.report id false).2
  | _ => rfl

/-- **A call of the tracker is a call on the book.** -/
theorem step (op : Op) (hfresh : (os.ids ++ op.ids).Nodup) : Keeps (t.step op) (os.step op) := by
  cases op with
  | commit copies now len => exact h.commit copies now len hfresh
  | acked id => exact (h.report id true).1
  | lost id => exact (h.report id false).1
  | detachPath path => exact h.detachPath path
  | bindPath path xqcId => exact h.bindPath path xqcId
  | setPathMetrics path minRtt estBw inflight => exact h.same (Quiet.setPathMetrics ..).tables
  | select usable now => exact h.same (Quiet.select ..).tables
  | updateMode usable now => exact h.same (Quiet.updateMode ..).tables
  | overloadBypass now => exact h.same (Quiet.overloadBypass ..).tables

end Keeps

/-- The ids of a book are those that were in it, and some that the call brought. -/
theorem Book.ids_step (os : Book) (op : Op) : (os.step op).ids.Sublist (os.ids ++ op.ids) := by
  cases op with
  | commit copies now len =>
    show (os.commit (copies.map Prod.fst)).ids.Sublist _
    unfold Book.commit
    split
    · rw [Book.ids_append]
      simp [Book.ids, Op.ids]
    · exact sublist_append_left ..
  | acked id =>
    rw [show os.step (.acked id) = os.report id true from rfl, Book.ids_report]
    exact sublist_append_left ..
  | lost id =>
    rw [show os.step (.lost id) = os.report id false from rfl, Book.ids_report]
    exact sublist_append_left ..
  | _ => exact sublist_append_left ..

/-- **And so are runs.** -/
theorem Keeps.run : ∀ (ops : List Op) {t : Tracker} {os : Book}, Keeps t os →
    (os.ids ++ ops.flatMap Op.ids).Nodup →
    Keeps (Run.exec Tracker.step t ops) (Run.exec Book.step os ops) ∧ t.log ops = os.log ops := by
  intro ops
  induction ops with
  | nil => intro t os h _; exact ⟨h, rfl⟩
  | cons op ops ih =>
    intro t os h hfresh
    rw [flatMap_cons, ← append_assoc] at hfresh
    have hstep := h.step op (nodup_append.mp hfresh).1
    have hrest := ih hstep (hfresh.sublist ((Book.ids_step os op).append_right _))
    refine ⟨hrest.1, ?_⟩
    unfold Tracker.log Book.log
    rw [h.answer, hrest.2]

end Mqvpn.Redundant
