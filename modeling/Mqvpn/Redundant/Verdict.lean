import Mqvpn.Lib.History
import Mqvpn.Redundant.Refine

/-!
# One verdict for an original

The first report about a copy resolves it; all others about it are late and not tracked.  By these
first reports an original is acknowledged, with the first copy that is, or lost, with its last copy
if none was acknowledged.  The tracker answers `1` to the report that brings the verdict, and to no
other.

The account is kept for a single original (`Account`): by what the log has of its copies, which of
them are open, whether one was acknowledged, and how many verdicts there were.

## Main definitions

* `firstReport` — what a log says about a copy.
* `due` — the answer that is due to a report.
* `isAck`, `isLoss` — the answers of `1` to a report about one of the copies.

## Main results

* `one_verdict` — at most one verdict for every original, exactly one when all its copies were
  reported, an acknowledgement exactly if a copy was acknowledged; paths do not matter.
-/

namespace Mqvpn.Redundant

open List

abbrev Entry := Op × Option ℤ

/-- What a call reports about a copy: whether it is acknowledged. -/
def Op.report (id : UInt64) : Op → Option Bool
  | .acked id' => if id' = id then some true else none
  | .lost id' => if id' = id then some false else none
  | _ => none

/-- What the first report about the copy said. -/
def firstReport (log : List Entry) (id : UInt64) : Option Bool :=
  log.findSome? fun e => e.1.report id

/-- There is a report about the copy. -/
abbrev Reported (log : List Entry) (id : UInt64) : Prop := firstReport log id ≠ none

/-- The first report about the copy acknowledges it. -/
abbrev AckedFirst (log : List Entry) (id : UInt64) : Prop := firstReport log id = some true

/-- Identifiers are tried as far as the list goes. -/
local instance decidableForallIds (p : UInt64 → Prop) [DecidablePred p] (ids : List UInt64) :
    Decidable (∀ id ∈ ids, p id) := List.decidableBAll ..

/-- The answer that is due to a report about a copy, after a log: `-1` to a late one, `1` to the
first acknowledgement of a copy and to the loss of the last one if none was acknowledged. -/
def due (ids : List UInt64) (log : List Entry) : Op → Option ℤ
  | .acked id =>
    some (if Reported log id then -1
      else if ∃ id' ∈ ids, AckedFirst log id' then 0
      else 1)
  | .lost id =>
    some (if Reported log id then -1
      else if (∀ id' ∈ ids, id' = id ∨ Reported log id') ∧ ¬∃ id' ∈ ids, AckedFirst log id' then 1
      else 0)
  | _ => none

/-- The report that acknowledges the original of these copies. -/
def isAck (ids : List UInt64) : Entry → Bool
  | (.acked id, some r) => id ∈ ids ∧ r = 1
  | _ => false

/-- The report that declares it lost. -/
def isLoss (ids : List UInt64) : Entry → Bool
  | (.lost id, some r) => id ∈ ids ∧ r = 1
  | _ => false

/-! ### The log, one entry more -/

section Log

variable {log : List Entry} {e : Entry} {id : UInt64}

theorem firstReport_snoc :
    firstReport (log ++ [e]) id = (firstReport log id).or (e.1.report id) := by
  unfold firstReport
  rw [findSome?_append]
  simp

theorem report_ne_none {op : Op} : op.report id ≠ none ↔ op = .acked id ∨ op = .lost id := by
  cases op <;> simp [Op.report]

theorem report_eq_true {op : Op} : op.report id = some true ↔ op = .acked id := by
  cases op <;> simp [Op.report]

theorem reported_snoc : Reported (log ++ [e]) id ↔
    Reported log id ∨ e.1 = .acked id ∨ e.1 = .lost id := by
  rw [← report_ne_none]
  unfold Reported
  rw [firstReport_snoc]
  cases firstReport log id <;> simp

theorem ackedFirst_snoc : AckedFirst (log ++ [e]) id ↔
    AckedFirst log id ∨ (e.1 = .acked id ∧ ¬Reported log id) := by
  rw [← report_eq_true]
  unfold AckedFirst Reported
  rw [firstReport_snoc]
  cases firstReport log id <;> simp

theorem report_iff {op : Op} (hop : op = .acked id ∨ op = .lost id) {id' : UInt64} :
    op = .acked id' ∨ op = .lost id' ↔ id' = id := by
  rcases hop with rfl | rfl <;> simp [eq_comm]

theorem length_filter_snoc {p : Entry → Bool} (hp : p e = false) :
    ((log ++ [e]).filter p).length = (log.filter p).length := by
  rw [filter_append, filter_cons_of_neg (by simp [hp]), filter_nil, append_nil]

end Log

/-! ### The account of an original -/

def Original.step (o : Original) : Op → Original
  | .acked id => o.resolve id true
  | .lost id => o.resolve id false
  | _ => o

theorem Book.step_mem {os : Book} {o : Original} (ho : o ∈ os) (op : Op) :
    o.step op ∈ os.step op := by
  cases op with
  | commit copies now len =>
    show o ∈ os.commit _
    unfold Book.commit
    split
    · exact mem_append_left _ ho
    · exact ho
  | acked | lost => exact mem_map_of_mem ho
  | _ => exact ho

/-- A report about a copy of an original is answered from that original. -/
theorem Book.Sane.reply_eq {os : Book} (h : os.Sane) {o : Original} (ho : o ∈ os) {id : UInt64}
    (hid : id ∈ o.ids) (acked : Bool) :
    os.reply id acked = if id ∈ o.unresolved then o.answer acked else -1 := by
  by_cases hopen : id ∈ o.unresolved
  · rw [if_pos hopen]
    obtain ⟨l₁, l₂, rfl, hothers⟩ := h.split ho hopen
    exact (Book.report_split hopen (fun o' ho' hid' => hothers o' ho'
      ((h.sub o' (Book.mem_middle.mpr (.inr ho'))).subset hid')) acked).2
  · rw [if_neg hopen]
    refine (Book.report_none (fun o' ho' hid' => ?_) acked).2
    -- another original with the copy would have its id too
    obtain ⟨l₁, l₂, rfl, hothers⟩ := h.split ho' hid'
    rcases Book.mem_middle.mp ho with rfl | ho
    · exact hopen hid'
    · exact hothers o ho hid

/-- **The account of an original** after a log: its open copies, and the verdict. -/
structure Account (ids : List UInt64) (log : List Entry) (o : Original) : Prop where
  /-- Every report about a copy had the answer that was due. -/
  each : History.Each (fun before e =>
    ∀ id ∈ ids, e.1 = .acked id ∨ e.1 = .lost id → e.2 = due ids before e.1) log
  same : o.ids = ids
  nodup : o.unresolved.Nodup
  open_iff : ∀ id, id ∈ o.unresolved ↔ id ∈ ids ∧ ¬Reported log id
  acked_iff : o.acked = true ↔ ∃ id ∈ ids, AckedFirst log id
  acks : (log.filter (isAck ids)).length = if o.acked = true then 1 else 0
  losses : (log.filter (isLoss ids)).length =
    if o.acked = false ∧ o.unresolved = [] then 1 else 0

namespace Account

variable {ids : List UInt64} {log : List Entry} {o : Original} {os : Book} {id : UInt64}

theorem new {key : UInt64} (hnodup : ids.Nodup) (hne : ids ≠ []) :
    Account ids [] ⟨key, ids, ids, false⟩ where
  each := History.each_nil
  same := rfl
  nodup := hnodup
  open_iff id := by simp [firstReport]
  acked_iff := by simp [firstReport]
  acks := rfl
  losses := by simp [hne]

variable (h : Account ids log o)
include h

/-- An entry that says nothing new. -/
theorem unmoved {e : Entry} (hack : isAck ids e = false) (hloss : isLoss ids e = false)
    (hlate : ∀ id ∈ ids, e.1 = .acked id ∨ e.1 = .lost id →
      e.2 = due ids log e.1 ∧ Reported log id) : Account ids (log ++ [e]) o := by
  refine ⟨?_, h.same, h.nodup, fun id => ?_, ?_, ?_, ?_⟩
  · rw [History.each_snoc]
    exact ⟨h.each, fun id hid he => (hlate id hid he).1⟩
  · rw [h.open_iff, reported_snoc]
    refine and_congr_right fun hid => not_congr ⟨.inl, fun hor => ?_⟩
    exact hor.elim (fun hr => hr) fun he => (hlate id hid he).2
  · rw [h.acked_iff]
    refine exists_congr fun id => and_congr_right fun hid => ?_
    rw [ackedFirst_snoc]
    exact ⟨.inl, fun hor => hor.resolve_right fun he => he.2 (hlate id hid (.inl he.1)).2⟩
  · rw [length_filter_snoc hack, h.acks]
  · rw [length_filter_snoc hloss, h.losses]

/-- An entry that is no report about a copy. -/
theorem other {e : Entry} (hno : ∀ id ∈ ids, e.1 ≠ .acked id ∧ e.1 ≠ .lost id) :
    Account ids (log ++ [e]) o := by
  refine h.unmoved ?_ ?_ fun id hid he => absurd he (not_or.mpr (hno id hid))
  · obtain ⟨op, r⟩ := e
    unfold isAck
    split
    · next id r' heq =>
      cases heq
      have : id ∉ ids := fun hid => (hno id hid).1 rfl
      simp [this]
    · rfl
  · obtain ⟨op, r⟩ := e
    unfold isLoss
    split
    · next id r' heq =>
      cases heq
      have : id ∉ ids := fun hid => (hno id hid).2 rfl
      simp [this]
    · rfl

theorem late (hrep : Reported log id) {op : Op} (hop : op = .acked id ∨ op = .lost id) :
    Account ids (log ++ [(op, some (-1))]) o := by
  refine h.unmoved ?_ ?_ fun id' _ he => ?_
  · rcases hop with rfl | rfl
    · simp [isAck]
    · rfl
  · rcases hop with rfl | rfl
    · rfl
    · simp [isLoss]
  · rw [(report_iff hop).mp he]
    refine ⟨?_, hrep⟩
    rcases hop with rfl | rfl <;> rw [due, if_pos hrep]

/-- The open copies after the first report about one. -/
theorem open_erase {e : Entry} (he : e.1 = .acked id ∨ e.1 = .lost id) (id' : UInt64) :
    id' ∈ o.unresolved.erase id ↔ id' ∈ ids ∧ ¬Reported (log ++ [e]) id' := by
  rw [h.nodup.mem_erase_iff, h.open_iff, reported_snoc, report_iff he]
  tauto

/-- The first report about a copy acknowledges it. -/
theorem acked (hid : id ∈ o.unresolved) :
    Account ids (log ++ [(.acked id, some (o.answer true))]) (o.resolve id true) := by
  have hmem : id ∈ ids := ((h.open_iff id).mp hid).1
  have hfirst : ¬Reported log id := ((h.open_iff id).mp hid).2
  have hdue : due ids log (.acked id) = some (o.answer true) := by
    rw [due, if_neg hfirst, Original.answer, if_pos rfl]
    exact congrArg some (if_congr h.acked_iff.symm rfl rfl)
  rw [Original.resolve, if_pos hid, Bool.or_true]
  refine ⟨(History.each_snoc _ _).mpr ⟨h.each, fun _ _ _ => hdue.symm⟩, h.same,
    h.nodup.erase id, h.open_erase (.inl rfl), ?_, ?_, ?_⟩
  · refine ⟨fun _ => ⟨id, hmem, ackedFirst_snoc.mpr (.inr ⟨rfl, hfirst⟩)⟩, fun _ => rfl⟩
  · rw [filter_append, length_append, h.acks]
    cases hacked : o.acked <;> simp [isAck, Original.answer, hacked, hmem]
  · rw [length_filter_snoc rfl, h.losses]
    have : o.unresolved ≠ [] := ne_nil_of_mem hid
    simp [this]

/-- The first report about a copy declares it lost. -/
theorem lost (hid : id ∈ o.unresolved) :
    Account ids (log ++ [(.lost id, some (o.answer false))]) (o.resolve id false) := by
  have hmem : id ∈ ids := ((h.open_iff id).mp hid).1
  have hne : o.unresolved ≠ [] := ne_nil_of_mem hid
  have hfirst : ¬Reported log id := ((h.open_iff id).mp hid).2
  -- the last open copy is the one besides which all are reported
  have hrest : (∀ id' ∈ ids, id' = id ∨ Reported log id') ↔ o.unresolved.length = 1 := by
    constructor
    · intro hall
      have honly : ∀ id' ∈ o.unresolved, id' = id := fun id' hid' =>
        (hall id' ((h.open_iff id').mp hid').1).resolve_right ((h.open_iff id').mp hid').2
      have hnodup := h.nodup
      rw [eq_replicate_of_mem honly, nodup_replicate] at hnodup
      have := length_pos_iff.mpr hne
      omega
    · intro hone id' hid'
      obtain ⟨x, hx⟩ := length_eq_one_iff.mp hone
      by_contra hno
      obtain ⟨hne', hrep⟩ := not_or.mp hno
      have := (h.open_iff id').mpr ⟨hid', hrep⟩
      rw [hx, mem_singleton] at this hid
      exact hne' (this.trans hid.symm)
  have hdue : due ids log (.lost id) = some (o.answer false) := by
    rw [due, if_neg hfirst, Original.answer, if_neg Bool.false_ne_true]
    have hnoack : (¬∃ id' ∈ ids, AckedFirst log id') ↔ o.acked = false := by
      rw [← h.acked_iff, Bool.not_eq_true]
    exact congrArg some (if_congr (and_congr hrest hnoack) rfl rfl)
  rw [Original.resolve, if_pos hid, Bool.or_false]
  refine ⟨(History.each_snoc _ _).mpr ⟨h.each, fun _ _ _ => hdue.symm⟩, h.same,
    h.nodup.erase id, h.open_erase (.inr rfl), ?_, ?_, ?_⟩
  · rw [h.acked_iff]
    refine exists_congr fun id' => and_congr_right fun _ => ?_
    rw [ackedFirst_snoc]
    exact ⟨.inl, fun hor => hor.resolve_right fun he => (by cases he.1)⟩
  · rw [length_filter_snoc rfl, h.acks]
  · -- the last copy is the one after which none is open
    have hlast : o.unresolved.erase id = [] ↔ o.unresolved.length = 1 := by
      rw [← length_eq_zero_iff, length_erase_of_mem hid]
      have := length_pos_iff.mpr hne
      omega
    rw [filter_append, length_append, h.losses, if_neg (fun hno => hne hno.2)]
    by_cases hverdict : o.unresolved.length = 1 ∧ o.acked = false
    · rw [if_pos ⟨hverdict.2, hlast.mpr hverdict.1⟩]
      simp [isLoss, Original.answer, hverdict, hmem]
    · rw [if_neg (fun hno => hverdict ⟨hlast.mp hno.2, hno.1⟩)]
      simp [isLoss, Original.answer, hverdict]

/-- **One call more.** -/
theorem step (hs : os.Sane) (ho : o ∈ os) (op : Op) :
    Account ids (log ++ [(op, os.answer op)]) (o.step op) := by
  -- a report is about an open copy, about another one of the original, or about none of its
  have hreport : ∀ (id : UInt64) (a : Bool) (op : Op),
      op = (if a then .acked id else .lost id) → os.answer op = some (os.reply id a) →
      o.step op = o.resolve id a → Account ids (log ++ [(op, os.answer op)]) (o.step op) := by
    intro id a op hop hanswer hstep
    rw [hanswer, hstep]
    by_cases hmem : id ∈ ids
    · rw [hs.reply_eq ho (h.same ▸ hmem)]
      by_cases hopen : id ∈ o.unresolved
      · rw [if_pos hopen, hop]
        cases a with
        | true => exact h.acked hopen
        | false => exact h.lost hopen
      · have hrep : Reported log id := by
          by_contra hno
          exact hopen ((h.open_iff id).mpr ⟨hmem, fun hrep => hrep hno⟩)
        rw [if_neg hopen, Original.resolve, if_neg hopen]
        refine h.late hrep ?_
        cases a with
        | true => exact .inl hop
        | false => exact .inr hop
    · have hopen : id ∉ o.unresolved := fun hid => hmem ((h.open_iff id).mp hid).1
      rw [Original.resolve, if_neg hopen]
      refine h.other fun id' hid' => ?_
      have hne : id ≠ id' := fun heq => hmem (heq ▸ hid')
      rw [hop]
      cases a <;> simp [hne]
  cases op with
  | acked id => exact hreport id true _ rfl rfl rfl
  | lost id => exact hreport id false _ rfl rfl rfl
  | _ => exact h.other fun id _ => ⟨nofun, nofun⟩

end Account

/-! ### Runs -/

/-- The original keeps its account along a run of the book. -/
theorem Account.run {ids : List UInt64} : ∀ (ops : List Op) {log : List Entry} {o : Original}
    {t : Tracker} {os : Book}, Account ids log o → Keeps t os → o ∈ os →
    (os.ids ++ ops.flatMap Op.ids).Nodup → ∃ o', Account ids (log ++ os.log ops) o' := by
  intro ops
  induction ops with
  | nil =>
    intro log o t os h _ _ _
    exact ⟨o, by rw [Book.log, append_nil]; exact h⟩
  | cons op ops ih =>
    intro log o t os h hk ho hfresh
    rw [flatMap_cons, ← append_assoc] at hfresh
    obtain ⟨o', hrest⟩ := ih (h.step hk.sane ho op)
      (hk.step op (nodup_append.mp hfresh).1) (Book.step_mem ho op)
      (hfresh.sublist ((Book.ids_step os op).append_right _))
    refine ⟨o', ?_⟩
    rwa [append_assoc] at hrest

/-- Calls about paths leave no trace in a book. -/
theorem Book.log_filter : ∀ (ops : List Op) (os : Book),
    os.log (ops.filter fun op => !op.onPath) =
      (os.log ops).filter fun e => !e.1.onPath := by
  intro ops
  induction ops with
  | nil => intro os; rfl
  | cons op ops ih =>
    intro os
    rw [Book.log, filter_cons, filter_cons]
    dsimp only
    cases hop : op.onPath with
    | true =>
      have hstep : os.step op = os := by
        cases op <;> first | rfl | cases hop
      rw [hstep]
      exact ih os
    | false =>
      rw [Bool.not_false, if_pos rfl, if_pos rfl, Book.log, ih]

theorem ids_filter_onPath (ops : List Op) :
    (ops.filter fun op => !op.onPath).flatMap Op.ids = ops.flatMap Op.ids := by
  induction ops with
  | nil => rfl
  | cons op ops ih =>
    rw [filter_cons]
    cases hop : op.onPath with
    | true =>
      have hids : op.ids = [] := by
        cases op <;> first | rfl | cases hop
      rw [Bool.not_true, if_neg Bool.false_ne_true, flatMap_cons, hids, nil_append, ih]
    | false => rw [Bool.not_false, if_pos rfl, flatMap_cons, flatMap_cons, ih]

theorem Book.ids_run : ∀ (ops : List Op) (os : Book),
    (Run.exec Book.step os ops).ids.Sublist (os.ids ++ ops.flatMap Op.ids) := by
  intro ops
  induction ops with
  | nil => intro os; exact sublist_append_left ..
  | cons op ops ih =>
    intro os
    rw [Run.exec_cons, flatMap_cons, ← append_assoc]
    exact (ih (os.step op)).trans ((Book.ids_step os op).append_right _)

/-- The account of an original that was entered, at the end of a run. -/
theorem account_of_commit {pre post : List Op} {cs : List (UInt64 × ℤ)} {now : UInt64} {len : ℕ}
    (hfresh : ((pre ++ .commit cs now len :: post).flatMap Op.ids).Nodup)
    (haccepted : (Run.exec Tracker.step .new pre).accepts cs = true) :
    ∃ o, Account (cs.map Prod.fst)
      ((Run.exec Tracker.step .new (pre ++ [.commit cs now len])).log post) o := by
  have hids : (pre ++ Op.commit cs now len :: post).flatMap Op.ids =
      pre.flatMap Op.ids ++ (cs.map Prod.fst ++ post.flatMap Op.ids) := by
    rw [flatMap_append, flatMap_cons]
    rfl
  rw [hids] at hfresh
  have hk := (Keeps.run pre Keeps.new (nodup_append.mp hfresh).1).1
  have hsub := Book.ids_run pre []
  rw [show Book.ids [] = [] from rfl, nil_append] at hsub
  generalize Run.exec Book.step [] pre = os at hk hsub
  have hfresh' : (os.ids ++ (cs.map Prod.fst ++ post.flatMap Op.ids)).Nodup :=
    hfresh.sublist (hsub.append_right _)
  rw [← append_assoc] at hfresh'
  have hcommit := hk.commit cs now len (nodup_append.mp hfresh').1
  have hne : cs.map Prod.fst ≠ [] := by
    rintro hnil
    rw [map_eq_nil_iff.mp hnil] at haccepted
    cases haccepted
  have hbook : os.commit (cs.map Prod.fst) =
      os ++ [⟨.ofNat (os.length + 1), cs.map Prod.fst, cs.map Prod.fst, false⟩] := by
    rw [Book.commit, hk.accepts_eq, haccepted, if_pos rfl]
  rw [hbook] at hcommit
  have hnew : Account (cs.map Prod.fst) []
      ⟨.ofNat (os.length + 1), cs.map Prod.fst, cs.map Prod.fst, false⟩ :=
    .new (nodup_append.mp (nodup_append.mp hfresh').1).2.1 hne
  have hpost : ((os ++ [⟨.ofNat (os.length + 1), cs.map Prod.fst, cs.map Prod.fst, false⟩] :
      Book).ids ++ post.flatMap Op.ids).Nodup := by
    rw [Book.ids_append]
    simpa [Book.ids] using hfresh'
  obtain ⟨o, ho⟩ := hnew.run post hcommit
    (mem_append_right _ (mem_singleton_self _)) hpost
  rw [nil_append, ← (Keeps.run post hcommit hpost).2] at ho
  rw [Run.exec_append]
  exact ⟨o, ho⟩

/-- **One verdict for an original.**  Behind the call that enters it, every report about one of its
copies has the answer that is due; there is at most one verdict, exactly one if all copies were
reported, and it is an acknowledgement exactly if some copy was acknowledged by the first report
about it.  What paths go or are bound does not change any answer. -/
theorem one_verdict {pre post : List Op} {cs : List (UInt64 × ℤ)} {now : UInt64} {len : ℕ}
    (hfresh : ((pre ++ .commit cs now len :: post).flatMap Op.ids).Nodup)
    (haccepted : (Run.exec Tracker.step .new pre).accepts cs = true) :
    let ids := cs.map Prod.fst
    let ops := pre ++ .commit cs now len :: post
    let log := (Run.exec Tracker.step .new (pre ++ [.commit cs now len])).log post
    let acks := (log.filter (isAck ids)).length
    let losses := (log.filter (isLoss ids)).length
    (∀ before e after, log = before ++ e :: after →
        ∀ id ∈ ids, e.1 = .acked id ∨ e.1 = .lost id → e.2 = due ids before e.1) ∧
      acks + losses ≤ 1 ∧
      ((∀ id ∈ ids, Reported log id) → acks + losses = 1) ∧
      (acks = 1 ↔ ∃ id ∈ ids, AckedFirst log id) ∧
      Tracker.new.log (ops.filter fun op => !op.onPath) =
        (Tracker.new.log ops).filter fun e => !e.1.onPath := by
  intro ids ops log acks losses
  obtain ⟨o, h⟩ := account_of_commit hfresh haccepted
  have hacks : acks = if o.acked = true then 1 else 0 := h.acks
  have hlosses : losses = if o.acked = false ∧ o.unresolved = [] then 1 else 0 := h.losses
  refine ⟨h.each, ?_, ?_, ?_, ?_⟩
  · rw [hacks, hlosses]
    cases o.acked with
    | true => simp
    | false => by_cases hnone : o.unresolved = [] <;> simp [hnone]
  · intro hall
    have hnone : o.unresolved = [] := by
      refine eq_nil_iff_forall_not_mem.mpr fun id hid => ?_
      obtain ⟨hmem, hrep⟩ := (h.open_iff id).mp hid
      exact hrep (hall id hmem)
    rw [hacks, hlosses, hnone]
    cases o.acked <;> simp
  · rw [hacks, ← h.acked_iff]
    cases o.acked <;> simp
  · have hfilter := (ids_filter_onPath ops).symm ▸ hfresh
    rw [(Keeps.run ops Keeps.new hfresh).2, (Keeps.run _ Keeps.new hfilter).2, Book.log_filter]

/-- Two copies, of which the first is reported lost, and late as acknowledged: the loss of the
second is the verdict. -/
theorem one_verdict_late :
    let post : List Op := [.lost 7, .detachPath 1, .acked 7, .lost 9]
    let log := (Run.exec Tracker.step .new [.commit [(7, 0), (9, 1)] 5 1400]).log post
    log.map Prod.snd = [some 0, none, some (-1), some 1] ∧
      (log.filter (isAck [7, 9])).length + (log.filter (isLoss [7, 9])).length ≤ 1 :=
  ⟨by decide, (@one_verdict [] [.lost 7, .detachPath 1, .acked 7, .lost 9] [(7, 0), (9, 1)] 5 1400
    (by decide) (by decide)).2.1⟩

/-- An acknowledgement of a copy that was reported lost does not count: the loss of the other copy
is a verdict. -/
theorem late_ack_not_counted :
    (Run.exec Tracker.step .new [.commit [(7, 0), (9, 1)] 5 1400]).log
        [.lost 7, .acked 7, .lost 9] =
      [(.lost 7, some 0), (.acked 7, some (-1)), (.lost 9, some 1)] := by
  decide

end Mqvpn.Redundant
