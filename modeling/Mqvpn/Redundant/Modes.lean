import Mathlib.Algebra.Ring.Int.Parity
import Mqvpn.Redundant.Refine

/-!
# The overload mode

The mode is refreshed from time to time.  A refresh that finds nothing to judge, or a clock that
stepped back, starts afresh; otherwise the paths are judged over the window since the last
judgement.  After enough judgements in a row that found all paths short the overload mode is
entered, and after the hold time it is left for a probe, if some path fits the stream.

Beside the tracker run the answers that are not zero, the time of the last entry, and the
judgements.

## Main definitions

* `Judgement`, `Tracker.judgement` — what a refresh judges.
* `Watch` — a tracker and what its refreshes did.

## Main results

* `mode_machine` — **the ordering law of the overload mode**.
-/

namespace Mqvpn.Redundant

open List

/-- A judgement: its window, the time since which the stream flows, and whether all paths were
short. -/
structure Judgement where
  start : UInt64
  stop : UInt64
  flowSince : UInt64
  allShort : Bool
  deriving DecidableEq

namespace Tracker

/-- All usable paths are short in the window. -/
def allShort (t : Tracker) (usable : List ℤ) (now : UInt64) : Bool :=
  let el := now - t.winStart
  ((usable.filterMap pathOk).map t.paths).all (isShort · t.streamPps el) &&
    !decide (t.streamPps * el < minJudged * 1000000)

/-- Some usable path fits the stream. -/
def fit (t : Tracker) (usable : List ℤ) : Bool :=
  ((usable.filterMap pathOk).map t.paths).any (fits · (t.baseRate t.streamPps))

/-- A refresh comes to a judgement: it has a window to judge, and the rate of the stream is known
(without one the window is only started again). -/
def judges (t : Tracker) (usable : List ℤ) (now : UInt64) : Bool :=
  !usable.isEmpty && !t.stale now && t.winStart != 0 && decide (modeWin ≤ now - t.winStart) &&
    t.streamPps != 0

def judgement (t : Tracker) (usable : List ℤ) (now : UInt64) : Option Judgement :=
  if t.judges usable now then some ⟨t.winStart, now, t.flowSince, t.allShort usable now⟩ else none

end Tracker

/-- A tracker, the answers of its refreshes that are not zero, the time of the last entry, and the
judgements, the last one first. -/
structure Watch where
  tracker : Tracker := .new
  answers : List ℤ := []
  entered : UInt64 := 0
  judged : List Judgement := []

/-- A refresh at `now` with a result is recorded. -/
def Watch.record (w : Watch) (now : UInt64) (j : Option Judgement) (r : Tracker × ℤ) : Watch where
  tracker := r.1
  answers := if r.2 = 0 then w.answers else w.answers ++ [r.2]
  entered := if r.2 = 1 then now else w.entered
  judged := j.toList ++ w.judged

def Watch.step (w : Watch) : Op → Watch
  | .updateMode usable now =>
    w.record now (w.tracker.judgement usable now) (w.tracker.updateMode usable now)
  | op => { w with tracker := w.tracker.step op }

def Watch.run (ops : List Op) : Watch := Run.exec Watch.step {} ops

/-! ### Calls that leave the mode alone -/

/-- What the mode depends on between refreshes. -/
def Tracker.modePart (t : Tracker) : Mode × ℕ × UInt64 × UInt64 × UInt64 × UInt64 :=
  (t.mode, t.shortN, t.winStart, t.flowSince, t.since, t.hold)

variable {t : Tracker} {w : Watch} {usable : List ℤ} {now : UInt64}

section
variable (t : Tracker)

theorem modePart_countRate (now : UInt64) : (t.countRate now).modePart = t.modePart := by
  unfold Tracker.countRate Tracker.countBucket Tracker.countSecond
  dsimp only
  split_ifs <;> rfl

theorem modePart_commit (copies : List (UInt64 × ℤ)) (now : UInt64) (len : ℕ) :
    (t.commit copies now len).modePart = t.modePart := by
  unfold Tracker.commit
  split
  · refine foldlRecOn (motive := fun u => Tracker.modePart u = t.modePart) copies _
      (modePart_countRate t now) fun u hu copy _ => ?_
    unfold Tracker.addCopy
    dsimp only
    split <;> exact hu
  · rfl

theorem modePart_reported (id : UInt64) (acked : Bool) :
    (t.reported id acked).1.modePart = t.modePart := by
  cases h : t.resolve id acked with
  | none => rw [reported_none h]
  | some r =>
    obtain ⟨u, j, key, o⟩ := r
    obtain ⟨origs, heq⟩ := reported_fields h
    rw [heq]
    unfold Tracker.resolve Tracker.settle at h
    split at h
    · split at h
      · cases h
        dsimp only
        split <;> rfl
      · cases h
    · cases h

theorem modePart_detachPath (path : ℤ) : (t.detachPath path).modePart = t.modePart := by
  unfold Tracker.detachPath
  repeat' split
  all_goals rfl

theorem modePart_select (usable : List ℤ) (now : UInt64) :
    (t.select usable now).2.modePart = t.modePart := by
  unfold Tracker.select
  split
  · rfl
  · dsimp only
    split
    · rfl
    · refine foldlRecOn (motive := fun acc : List ℕ × Tracker => acc.2.modePart = t.modePart)
        _ _ rfl fun acc hacc p _ => ?_
      unfold Tracker.consider
      dsimp only
      split_ifs <;> exact hacc

end

/-- Only a refresh moves the mode. -/
theorem modePart_step {op : Op} (h : ∀ usable now, op ≠ .updateMode usable now) (t : Tracker) :
    (t.step op).modePart = t.modePart := by
  cases op with
  | commit copies now len => exact modePart_commit t copies now len
  | acked id => exact modePart_reported t id true
  | lost id => exact modePart_reported t id false
  | detachPath path => exact modePart_detachPath t path
  | bindPath path xqcId =>
    unfold Tracker.step Tracker.bindPath
    dsimp only
    split
    · rfl
    · show Tracker.modePart (ite _ _ _) = _
      split
      · exact modePart_detachPath t path
      · rfl
  | setPathMetrics path minRtt estBw inflight =>
    unfold Tracker.step Tracker.setPathMetrics
    dsimp only
    split <;> rfl
  | select usable now => exact modePart_select t usable now
  | updateMode usable now => exact absurd rfl (h usable now)
  | overloadBypass now =>
    unfold Tracker.step Tracker.overloadBypass
    dsimp only
    split
    · exact modePart_countRate t now
    · rfl

/-! ### One refresh -/

/-- **What a refresh does**: nothing, start afresh, open a window, or judge. -/
theorem updateMode_cases (t : Tracker) (usable : List ℤ) (now : UInt64) :
    (t.judges usable now = false ∧ (t.updateMode usable now).2 = 0 ∧
      ((t.updateMode usable now).1 = t ∨ (t.updateMode usable now).1 = t.windowStart now ∧
          t.stale now = false ∨
        t.winStart = 0 ∧ (t.updateMode usable now).1 =
          { t.windowStart now with flowSince := (t.windowStart now).winStart })) ∨
    (t.judges usable now = false ∧ t.stale now = true ∧
      t.updateMode usable now = (t.modeReset, if t.mode = .overload then -1 else 0)) ∨
    t.judges usable now = true ∧ t.updateMode usable now =
      (t.windowStart now).judge (t.allShort usable now) (t.fit usable) now := by
  unfold Tracker.updateMode Tracker.judges
  by_cases husable : usable.isEmpty = true
  · simp [husable]
  by_cases hstale : t.stale now = true
  · simp [husable, hstale]
  by_cases hstart : t.winStart = 0
  · simp [husable, hstale, hstart]
  by_cases hwin : now - t.winStart < modeWin
  · simp [husable, hstale, hstart, hwin]
  by_cases hpps : t.streamPps = 0
  · simp [husable, hstale, hstart, hwin, hpps]
  · refine .inr (.inr ⟨?_, ?_⟩)
    · simpa [husable, hstale, hstart, hpps] using UInt64.not_lt.1 hwin
    · simp only [husable, hstale, hstart, hwin, hpps, if_false, Bool.false_eq_true]
      rfl

/-- **What a judgement leads to.** -/
theorem judge_cases (t : Tracker) (short fit : Bool) (now : UInt64) :
    let k := if short && decide (startGrace ≤ now - t.flowSince) then t.shortN + 1 else 0
    (t.mode = .overload ∧ (t.judge short fit now = (t, 0) ∨
      t.hold ≤ now - t.since ∧ fit = true ∧
        t.judge short fit now = ({ t with mode := .probe, since := now, shortN := 0 }, -1))) ∨
    (t.mode ≠ .overload ∧
      ((if t.mode = .probe then reenterN else enterN) ≤ k ∧
        (∃ hold, (hold = t.hold ∨ hold = min (t.hold * 2) holdMax) ∧ t.judge short fit now =
          ({ t with shortN := k, hold := hold, mode := .overload, since := now }, 1)) ∨
      ∃ mode hold, (mode = t.mode ∧ hold = t.hold ∨ mode = .normal ∧ hold = holdFirst) ∧
        t.judge short fit now = ({ t with shortN := k, mode := mode, hold := hold }, 0))) := by
  intro k
  unfold Tracker.judge
  by_cases hmode : t.mode = .overload
  · rw [if_pos hmode]
    refine .inl ⟨hmode, ?_⟩
    split
    · exact .inl rfl
    · next hfit => exact .inr (by simpa [UInt64.not_lt] using hfit)
  · rw [if_neg hmode]
    refine .inr ⟨hmode, ?_⟩
    by_cases hneed : (if t.mode = .probe then reenterN else enterN) ≤ k
    · refine .inl ⟨hneed, _, ?_, if_pos hneed⟩
      dsimp only
      split
      · exact .inr rfl
      · exact .inl rfl
    · by_cases hok : (t.mode = .probe && decide (probeOk ≤ now - t.since)) = true
      · exact .inr ⟨.normal, holdFirst, .inr ⟨rfl, rfl⟩, (if_neg hneed).trans (if_pos hok)⟩
      · exact .inr ⟨t.mode, t.hold, .inl ⟨rfl, rfl⟩, (if_neg hneed).trans (if_neg hok)⟩

theorem exit_of_judge {short fit : Bool} (h : (t.judge short fit now).2 = -1) :
    t.mode = .overload ∧ t.hold ≤ now - t.since ∧ fit = true := by
  obtain ⟨hmode, heq | ⟨hhold, hfit, -⟩⟩ | ⟨-, ⟨-, _, -, heq⟩ | ⟨_, _, -, heq⟩⟩ :=
    judge_cases t short fit now
  · simp [heq] at h
  · exact ⟨hmode, hhold, hfit⟩
  · simp [heq] at h
  · simp [heq] at h

theorem entry_of_judge {short fit : Bool} (h : (t.judge short fit now).2 = 1) :
    t.mode ≠ .overload ∧ (if t.mode = .probe then reenterN else enterN) ≤
      if short && decide (startGrace ≤ now - t.flowSince) then t.shortN + 1 else 0 := by
  obtain ⟨-, heq | ⟨-, -, heq⟩⟩ | ⟨hmode, ⟨hneed, -⟩ | ⟨_, _, -, heq⟩⟩ :=
    judge_cases t short fit now
  · simp [heq] at h
  · simp [heq] at h
  · exact ⟨hmode, hneed⟩
  · simp [heq] at h

theorem judged_step (h : w.tracker.judges usable now = true) :
    (w.step (.updateMode usable now)).judged =
      ⟨w.tracker.winStart, now, w.tracker.flowSince, w.tracker.allShort usable now⟩ ::
        w.judged := by
  show (Tracker.judgement _ _ _).toList ++ _ = _
  rw [Tracker.judgement, if_pos h]
  rfl

/-! ### The invariant -/

/-- All paths were short over a full window, and the stream had flowed for long enough. -/
def Judgement.Full (j : Judgement) : Prop :=
  j.allShort = true ∧ j.start.toNat + modeWin.toNat ≤ j.stop.toNat ∧
    j.flowSince.toNat + startGrace.toNat ≤ j.stop.toNat

structure Watch.Inv (w : Watch) : Prop where
  alternate : ∀ n v, w.answers[n]? = some v → v = (-1) ^ n
  overload : w.tracker.mode = .overload ↔ Odd w.answers.length
  flow : w.tracker.flowSince ≤ w.tracker.winStart
  since : w.tracker.mode ≠ .normal → w.tracker.since ≤ w.tracker.winStart
  hold : holdFirst ≤ w.tracker.hold ∧ w.tracker.hold ≤ holdMax
  entered : w.tracker.mode = .overload → w.tracker.since = w.entered
  shorts : w.tracker.mode ≠ .overload → w.tracker.shortN ≤ w.judged.length ∧
    ∀ j ∈ w.judged.take w.tracker.shortN, j.Full

theorem le_sub_iff {a b c : UInt64} (h : b ≤ a) : c ≤ a - b ↔ b.toNat + c.toNat ≤ a.toNat := by
  have hle := UInt64.le_iff_toNat_le.1 h
  rw [UInt64.le_iff_toNat_le, UInt64.toNat_sub_of_le _ _ h]
  omega

theorem le_of_not_stale (h : t.stale now = false) : t.lastUs ≤ now ∧ t.winStart ≤ now := by
  simp only [Tracker.stale, Bool.or_eq_false_iff, decide_eq_false_iff_not, UInt64.not_lt] at h
  exact ⟨h.1.1.1.2, h.1.2⟩

theorem le_of_judges (h : t.judges usable now = true) : t.winStart ≤ now := by
  simp only [Tracker.judges, Bool.and_eq_true, Bool.not_eq_true'] at h
  exact (le_of_not_stale h.1.1.1.2).2

theorem le_windowStart (t : Tracker) (now : UInt64) : now ≤ (t.windowStart now).winStart := by
  unfold Tracker.windowStart
  dsimp only
  split
  · next h =>
    rw [h]
    decide
  · exact UInt64.le_refl _

/-- The next answer: an entry after an even number of answers, an exit after an odd one. -/
theorem alternate_snoc {answers : List ℤ} (h : ∀ n v, answers[n]? = some v → v = (-1) ^ n) {r : ℤ}
    (hr : r = (-1) ^ answers.length) : ∀ n v, (answers ++ [r])[n]? = some v → v = (-1) ^ n := by
  intro n v hn
  obtain hlt | hge := Nat.lt_or_ge n answers.length
  · rw [getElem?_append_left hlt] at hn
    exact h n v hn
  · rw [getElem?_append_right hge] at hn
    obtain rfl : n = answers.length := by
      have := (List.getElem?_eq_some_iff.1 hn).1
      simp at this
      omega
    simpa [hr] using hn.symm

namespace Watch.Inv

theorem new : Watch.Inv {} where
  alternate := by simp
  overload := by simp [Tracker.new]
  flow := UInt64.le_refl _
  since h := absurd rfl h
  hold := by decide
  entered h := nomatch h
  shorts _ := by simp [Tracker.new]

/-- A call that leaves the mode alone. -/
theorem congr (h : w.Inv) (hmode : t.modePart = w.tracker.modePart) :
    Watch.Inv { w with tracker := t } := by
  simp only [Tracker.modePart, Prod.mk.injEq] at hmode
  obtain ⟨hm, hn, hwin, hflow, hsince, hhold⟩ := hmode
  refine ⟨h.alternate, ?_, ?_, ?_, ?_, ?_, ?_⟩ <;>
    simp only [hm, hn, hwin, hflow, hsince, hhold]
  exacts [h.overload, h.flow, h.since, h.hold, h.entered, h.shorts]

/-- The judgement of a refresh, and how many in a row were short and full. -/
theorem shorts_judged (h : w.Inv) (hmode : w.tracker.mode ≠ .overload)
    (hjudges : w.tracker.judges usable now = true) (short : Bool) :
    let k := if short && decide (startGrace ≤ now - w.tracker.flowSince) then
      w.tracker.shortN + 1 else 0
    let judged := ⟨w.tracker.winStart, now, w.tracker.flowSince, short⟩ :: w.judged
    k ≤ judged.length ∧ ∀ j ∈ judged.take k, j.Full := by
  have hle := le_of_judges hjudges
  simp only [Tracker.judges, Bool.and_eq_true, decide_eq_true_eq] at hjudges
  obtain ⟨hcount, hfull⟩ := h.shorts hmode
  dsimp only
  split
  · next hshort =>
    rw [Bool.and_eq_true, decide_eq_true_eq] at hshort
    refine ⟨Nat.succ_le_succ hcount, ?_⟩
    rw [take_succ_cons, forall_mem_cons]
    exact ⟨⟨hshort.1, (le_sub_iff hle).1 hjudges.1.2,
      (le_sub_iff (UInt64.le_trans h.flow hle)).1 hshort.2⟩, hfull⟩
  · simp

theorem hold_doubled {a : UInt64} (h : holdFirst ≤ a ∧ a ≤ holdMax) :
    holdFirst ≤ min (a * 2) holdMax ∧ min (a * 2) holdMax ≤ holdMax := by
  have hmul : (a * 2).toNat = a.toNat * 2 := by
    have := UInt64.le_iff_toNat_le.1 h.2
    rw [UInt64.toNat_mul]
    exact Nat.mod_eq_of_lt (by simp [holdMax] at this ⊢; omega)
  have hle : a ≤ a * 2 := by
    rw [UInt64.le_iff_toNat_le, hmul]
    omega
  show _ ≤ ite _ _ _ ∧ ite _ _ _ ≤ _
  split
  · next hmax => exact ⟨UInt64.le_trans h.1 hle, hmax⟩
  · exact ⟨by decide, UInt64.le_refl _⟩

theorem judge (h : w.Inv) (hjudges : w.tracker.judges usable now = true) (short fit : Bool) :
    Watch.Inv (w.record now (some ⟨w.tracker.winStart, now, w.tracker.flowSince, short⟩)
      ((w.tracker.windowStart now).judge short fit now)) := by
  have hshorts := fun hmode => h.shorts_judged hmode hjudges short
  have hwin := le_windowStart w.tracker now
  have hle := UInt64.le_trans (le_of_judges hjudges) hwin
  have hflow := UInt64.le_trans h.flow hle
  have hsince := fun hmode => UInt64.le_trans (h.since hmode) hle
  obtain ⟨hmode, heq | ⟨-, -, heq⟩⟩ | ⟨hmode, ⟨-, hold, hhold, heq⟩ | ⟨mode, hold, hkeep, heq⟩⟩ :=
    judge_cases (w.tracker.windowStart now) short fit now <;> rw [heq]
  · exact ⟨h.alternate, h.overload, hflow, hsince, h.hold, h.entered, fun hno => absurd hmode hno⟩
  · have hodd := h.overload.1 hmode
    exact ⟨alternate_snoc h.alternate hodd.neg_one_pow.symm, by
      simp [Watch.record, Nat.odd_add_one, hodd], hflow, fun _ => hwin, h.hold, nofun,
      fun _ => ⟨Nat.zero_le _, nofun⟩⟩
  · have heven : Even w.answers.length := Nat.not_odd_iff_even.1 (mt h.overload.2 hmode)
    refine ⟨alternate_snoc h.alternate heven.neg_one_pow.symm, ?_, hflow, fun _ => hwin, ?_,
      fun _ => rfl, fun hno => absurd rfl hno⟩
    · simp [Watch.record, heven]
    · obtain rfl | rfl := hhold
      · exact h.hold
      · exact hold_doubled h.hold
  · refine ⟨h.alternate, ?_, hflow, ?_, ?_, ?_, fun _ => hshorts hmode⟩
    · obtain ⟨rfl, -⟩ | ⟨rfl, -⟩ := hkeep
      · exact h.overload
      · simpa [Watch.record] using mt h.overload.2 hmode
    · obtain ⟨rfl, -⟩ | ⟨rfl, -⟩ := hkeep
      · exact hsince
      · exact fun hno => absurd rfl hno
    · obtain ⟨-, rfl⟩ | ⟨-, rfl⟩ := hkeep
      · exact h.hold
      · exact ⟨UInt64.le_refl _, show holdFirst ≤ holdMax by decide⟩
    · obtain ⟨rfl, -⟩ | ⟨rfl, -⟩ := hkeep
      · exact fun hover => absurd hover hmode
      · nofun

/-- **Every call keeps the invariant.** -/
theorem step (h : w.Inv) (op : Op) : (w.step op).Inv := by
  cases op with
  | updateMode usable now =>
    unfold Watch.step
    dsimp only
    have hjudgement : w.tracker.judges usable now = false →
        w.tracker.judgement usable now = none := fun hno => if_neg (by simp [hno])
    obtain ⟨hno, hzero, hcases⟩ | ⟨hno, -, heq⟩ | ⟨hjudges, heq⟩ :=
      updateMode_cases w.tracker usable now
    · rw [hjudgement hno, ← Prod.mk.eta (p := w.tracker.updateMode usable now), hzero]
      have hwin := le_windowStart w.tracker now
      obtain heq | ⟨heq, hstale⟩ | ⟨hstart, heq⟩ := hcases <;> rw [heq]
      · exact h
      · have hle := UInt64.le_trans (le_of_not_stale hstale).2 hwin
        exact ⟨h.alternate, h.overload, UInt64.le_trans h.flow hle,
          fun hmode => UInt64.le_trans (h.since hmode) hle, h.hold, h.entered, h.shorts⟩
      · refine ⟨h.alternate, h.overload, UInt64.le_refl _, fun hmode => ?_, h.hold, h.entered,
          h.shorts⟩
        have hsince := h.since hmode
        rw [hstart] at hsince
        exact UInt64.le_trans hsince (UInt64.le_iff_toNat_le.2 (Nat.zero_le _))
    · rw [hjudgement hno, heq]
      refine ⟨?_, ?_, UInt64.le_refl _, fun hno => absurd rfl hno,
        show holdFirst ≤ holdFirst ∧ holdFirst ≤ holdMax by decide, nofun,
        fun _ => ⟨Nat.zero_le _, nofun⟩⟩ <;> by_cases hmode : w.tracker.mode = .overload
      · simpa [Watch.record, hmode] using
          alternate_snoc h.alternate (h.overload.1 hmode).neg_one_pow.symm
      · simpa [Watch.record, hmode] using h.alternate
      · simp [Watch.record, Tracker.modeReset, hmode, Nat.odd_add_one, h.overload.1 hmode]
      · simpa [Watch.record, Tracker.modeReset, hmode] using mt h.overload.2 hmode
    · rw [heq, Tracker.judgement, if_pos hjudges]
      exact h.judge hjudges _ _
  | _ => exact h.congr (modePart_step (fun _ _ => Op.noConfusion) _)

end Watch.Inv

/-- **The ordering law of the overload mode.**  After every sequence of calls, at any times: the
answers of the refreshes that are not zero alternate, beginning with `1`, and the hold time is
within its bounds.  A refresh that leaves the mode without starting afresh comes at least the hold
time after the mode was entered, and some usable path fits the stream; one that enters it is the
last of enough judgements in a row that found all paths short, each over a full window and none
within the start grace; and if the clock did not step back, no time that is subtracted is ahead of
it.  A window in which the rate of the stream is not known is no judgement: it starts again. -/
theorem mode_machine (ops : List Op) :
    let w := Watch.run ops
    (∀ n v, w.answers[n]? = some v → v = (-1) ^ n) ∧
    (holdFirst ≤ w.tracker.hold ∧ w.tracker.hold ≤ holdMax) ∧
    ∀ usable now,
      ((w.tracker.updateMode usable now).2 = -1 → w.tracker.stale now = false →
        w.entered.toNat + w.tracker.hold.toNat ≤ now.toNat ∧ ∃ p ∈ usable.filterMap Tracker.pathOk,
          Tracker.fits (w.tracker.paths p) (w.tracker.baseRate w.tracker.streamPps) = true) ∧
      ((w.tracker.updateMode usable now).2 = 1 →
        let n := if w.tracker.mode = .probe then reenterN else enterN
        let judged := (w.step (.updateMode usable now)).judged
        n ≤ judged.length ∧ ∀ j ∈ judged.take n, j.Full) ∧
      (w.tracker.stale now = false → w.tracker.lastUs ≤ now ∧ w.tracker.winStart ≤ now ∧
        w.tracker.flowSince ≤ now ∧ (w.tracker.mode ≠ .normal → w.tracker.since ≤ now)) := by
  intro w
  have h : w.Inv := Run.exec_inv Watch.step (fun _ op h => h.step op) ops {} .new
  refine ⟨h.alternate, h.hold, fun usable now => ⟨fun hexit hstale => ?_, fun hentry => ?_,
    fun hstale => ?_⟩⟩
  · obtain ⟨-, hzero, -⟩ | ⟨-, htrue, -⟩ | ⟨hjudges, heq⟩ := updateMode_cases w.tracker usable now
    · simp [hzero] at hexit
    · simp [hstale] at htrue
    · rw [heq] at hexit
      obtain ⟨hmode, hhold, hfit⟩ := exit_of_judge hexit
      have hsince := h.since (by rw [show w.tracker.mode = _ from hmode]; decide)
      rw [← h.entered hmode]
      exact ⟨(le_sub_iff (UInt64.le_trans hsince (le_of_judges hjudges))).1 hhold,
        by
          simpa only [Tracker.fit, any_map, any_eq_true, Function.comp_apply] using hfit⟩
  · obtain ⟨-, hzero, -⟩ | ⟨-, -, heq⟩ | ⟨hjudges, heq⟩ := updateMode_cases w.tracker usable now
    · simp [hzero] at hentry
    · rw [heq] at hentry
      dsimp only at hentry
      split at hentry <;> cases hentry
    · rw [heq] at hentry
      obtain ⟨hmode, hneed⟩ := entry_of_judge hentry
      obtain ⟨hlen, hfull⟩ := h.shorts_judged hmode hjudges (w.tracker.allShort usable now)
      rw [judged_step hjudges]
      exact ⟨Nat.le_trans hneed hlen, fun j hj =>
        hfull j ((take_prefix_take_left hneed).subset hj)⟩
  · obtain ⟨hlast, hwin⟩ := le_of_not_stale hstale
    exact ⟨hlast, hwin, UInt64.le_trans h.flow hwin,
      fun hmode => UInt64.le_trans (h.since hmode) hwin⟩

/-- Packets that path `0` does not get through, and a bandwidth on it that is known only when the
overload mode has lasted for its hold time. -/
def overloadOps : List Op :=
  let packet (now : UInt64) : Op := .commit [(7, 0)] now 1400
  let refresh (now : UInt64) : Op := .updateMode [0] now
  [1000000, 1900000, 2700000].flatMap (fun now => [packet now, refresh now]) ++
    replicate 20 (packet 3000000) ++ [packet 3100000] ++
    [3100000, 3300000, 3500000, 3700000, 3900000].map refresh ++
    (range 12).flatMap (fun k => [.overloadBypass (4700000 + 800000 * .ofNat k),
      refresh (4700000 + 800000 * .ofNat k)]) ++
    [.setPathMetrics 0 0 1400000 0, .overloadBypass 14300000]

/-- The mode is entered after five judgements and left after ten seconds. -/
theorem mode_machine_overload :
    (Watch.run (overloadOps ++ [.updateMode [0] 14300000])).answers = [1, -1] ∧
      (Watch.run overloadOps).entered.toNat + (Watch.run overloadOps).tracker.hold.toNat ≤
        (14300000 : UInt64).toNat :=
  ⟨by decide +kernel, (((mode_machine overloadOps).2.2 [0] 14300000).1 (by decide +kernel)
    (by decide +kernel)).1⟩

end Mqvpn.Redundant
