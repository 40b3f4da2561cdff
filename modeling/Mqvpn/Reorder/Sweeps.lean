import Mqvpn.Reorder.RxInv

/-!
# The two sweeps of a tick

What the timeout sweep makes of each flow, and why skipping it is safe: `next_gap_us`
never lies above an armed deadline, whatever the clock does.

## Main definitions

* `Flow.isDue` — the timer of the flow has run out.
* `GapBound` — the cached bound lies below every armed deadline.

## Main results

* `gapSweep_induct`, `idleSweep_induct` — the rules of the two sweeps.
* `gapBound_run` — **the bound on the next deadline holds after every run**.
-/

namespace Mqvpn.Reorder

open List

open Relation (ReflTransGen)

/-- The timer of the flow has run out at `now`. -/
def Flow.isDue (f : Flow) (now : UInt64) : Bool :=
  f.gapTimerActive && decide (f.gapDeadlineUs ≤ now)

variable {e : Engine} {f : Flow} {fs : List Flow} {rx : Rx} {now : UInt64} {T : Prop}
  {C : Arrival → Work → Prop}

/-! ### One flow of the timeout sweep -/

theorem gapSweepStep_of_due (h : f.isDue now = true) :
    gapSweepStep now e f =
      ((onGapTimeout now { rx := e, f := f }).rx,
        some (onGapTimeout now { rx := e, f := f }).f) := by
  rw [Flow.isDue, Bool.and_eq_true, decide_eq_true_eq] at h
  unfold gapSweepStep
  rw [if_neg (by rw [h.1]; simp), if_pos h.2]

/-- A flow that is not due is left alone; an armed one holds the bound down. -/
theorem gapSweepStep_of_not_due (h : f.isDue now = false) : ∃ gap,
    gapSweepStep now e f = ({ e with nextGapUs := gap }, some f) ∧ gap ≤ e.nextGapUs ∧
      (f.gapTimerActive = true → gap ≤ f.gapDeadlineUs) := by
  unfold gapSweepStep
  by_cases hact : f.gapTimerActive = true
  · have hdue : ¬ f.gapDeadlineUs ≤ now := by
      intro hle
      rw [Flow.isDue, hact, Bool.true_and, decide_eq_false_iff_not] at h
      exact h hle
    rw [if_neg (by rw [hact]; simp), if_neg hdue]
    refine ⟨_, rfl, ?_, fun _ => ?_⟩ <;> split
    · next hlt => exact UInt64.le_of_lt hlt
    · exact UInt64.le_refl _
    · exact UInt64.le_refl _
    · next hlt => exact UInt64.not_lt.mp hlt
  · rw [if_pos (by simpa using hact)]
    exact ⟨e.nextGapUs, rfl, UInt64.le_refl _, fun hact' => absurd hact' hact⟩

/-- A timeout that delivers anything is progress. -/
theorem lastProgress_onGapTimeout {w : Work} (hne : ringEmpty w.f.buffer = false) :
    (onGapTimeout now w).f.lastProgressUs = now := by
  unfold onGapTimeout
  rw [if_neg (by rw [hne]; simp)]
  simp only
  unfold periodStartIfNeeded
  split <;> rfl

/-- A timer that runs after a timeout was started by it. -/
theorem timer_onGapTimeout {w : Work} (hact : (onGapTimeout now w).f.gapTimerActive = true) :
    (onGapTimeout now w).rx.nextGapUs ≤ (onGapTimeout now w).f.gapDeadlineUs := by
  unfold onGapTimeout at hact ⊢
  split at hact
  · cases hact
  · next hne =>
    rw [if_neg hne]
    rcases within_periodStartIfNeeded.timer hact with hle | ⟨hstopped, -⟩
    · exact hle
    · cases hstopped

/-! ### One flow of the idle sweep -/

theorem idleSweepStep_of_idle (h : f.isIdle now e.cfg.idleUs = true) :
    idleSweepStep now e f = (e.drop f, none) := by
  unfold idleSweepStep
  rw [if_pos h]
  rfl

/-- A flow that is not idle is left alone and holds the bound down. -/
theorem idleSweepStep_of_not_idle (h : f.isIdle now e.cfg.idleUs = false) : ∃ idle,
    idleSweepStep now e f = ({ e with nextIdleUs := idle }, some f) ∧ idle ≤ e.nextIdleUs ∧
      idle.toNat ≤ f.lastProgressUs.toNat + e.cfg.idleUs.toNat + 1 := by
  have hwrap : (f.lastProgressUs + e.cfg.idleUs + 1).toNat ≤
      f.lastProgressUs.toNat + e.cfg.idleUs.toNat + 1 := by
    rw [UInt64.toNat_add, UInt64.toNat_add]
    have := Nat.mod_le (f.lastProgressUs.toNat + e.cfg.idleUs.toNat) (2 ^ 64)
    exact (Nat.mod_le _ _).trans (Nat.add_le_add_right this 1)
  unfold idleSweepStep
  rw [if_neg (by rw [h]; simp)]
  refine ⟨_, rfl, ?_, ?_⟩ <;> split
  · next hlt => exact UInt64.le_of_lt hlt
  · exact UInt64.le_refl _
  · exact hwrap
  · next hlt => exact (UInt64.le_iff_toNat_le.mp (UInt64.not_lt.mp hlt)).trans hwrap

theorem drop_nextGap (e : Engine) (f : Flow) : (e.drop f).nextGapUs = e.nextGapUs :=
  (flowDestroy_frame e f).2.2.2.1

/-! ### The whole sweep -/

/-- **The rule of the timeout sweep**, for the flows done, the engine and the flows to come. -/
theorem gapSweep_induct {P : List Flow → Engine → List Flow → Prop}
    (hwait : ∀ done e f todo gap, P done e (f :: todo) → f.isDue now = false → gap ≤ e.nextGapUs →
      (f.gapTimerActive = true → gap ≤ f.gapDeadlineUs) →
        P (done ++ [f]) { e with nextGapUs := gap } todo)
    (hdue : ∀ done e f todo, P done e (f :: todo) → f.isDue now = true →
      P (done ++ [(onGapTimeout now { rx := e, f := f }).f])
        (onGapTimeout now { rx := e, f := f }).rx todo)
    (hstart : P [] { rx.toEngine with nextGapUs := uint64Max } rx.flows) :
    P (gapSweep now rx).flows (gapSweep now rx).toEngine [] := by
  refine Chained.sweepAll_induct (fun done e f todo h => ?_) hstart
  cases hcase : f.isDue now with
  | false =>
    obtain ⟨gap, heq, hle, harmed⟩ := gapSweepStep_of_not_due (e := e) hcase
    rw [heq]
    exact hwait done e f todo gap h hcase hle harmed
  | true =>
    rw [gapSweepStep_of_due hcase]
    exact hdue done e f todo h hcase

/-- **The rule of the idle sweep.** -/
theorem idleSweep_induct {P : List Flow → Engine → List Flow → Prop}
    (hkeep : ∀ done e f todo idle, P done e (f :: todo) → f.isIdle now e.cfg.idleUs = false →
      idle ≤ e.nextIdleUs → idle.toNat ≤ f.lastProgressUs.toNat + e.cfg.idleUs.toNat + 1 →
        P (done ++ [f]) { e with nextIdleUs := idle } todo)
    (hdrop : ∀ done e f todo, P done e (f :: todo) → f.isIdle now e.cfg.idleUs = true →
      P done (e.drop f) todo)
    (hstart : P [] { rx.toEngine with nextIdleUs := uint64Max } rx.flows) :
    P (idleSweep now rx).flows (idleSweep now rx).toEngine [] := by
  refine Chained.sweepAll_induct (fun done e f todo h => ?_) hstart
  cases hcase : f.isIdle now e.cfg.idleUs with
  | false =>
    obtain ⟨idle, heq, hle, hbound⟩ := idleSweepStep_of_not_idle hcase
    rw [heq]
    exact hkeep done e f todo idle h hcase hle hbound
  | true =>
    rw [idleSweepStep_of_idle hcase, Option.toList_none, append_nil]
    exact hdrop done e f todo h hcase

/-- The flows after the timeout sweep: those that are due have made progress now, the
others are as they were. -/
theorem gapSweep_flows
    (harmed : ∀ f ∈ rx.flows, f.gapTimerActive = true → ringEmpty f.buffer = false) :
    (∀ f' ∈ (gapSweep now rx).flows, ∃ f ∈ rx.flows,
        f.isDue now = false ∧ f' = f ∨ f.isDue now = true ∧ f'.lastProgressUs = now) ∧
      ∀ f ∈ rx.flows, ∃ f' ∈ (gapSweep now rx).flows,
        f.isDue now = false ∧ f' = f ∨ f.isDue now = true ∧ f'.lastProgressUs = now := by
  have hflows : (gapSweep now rx).flows =
      (Chained.sweep (gapSweepStep now) { rx.toEngine with nextGapUs := uint64Max } rx.flows).2 :=
    (Chained.sweepAll_eq _ _ _).2
  rw [hflows]
  refine Chained.sweep_mem _ _ fun e f hf => ?_
  cases hdue : f.isDue now with
  | false =>
    obtain ⟨gap, heq, -, -⟩ := gapSweepStep_of_not_due (e := e) hdue
    exact ⟨f, by rw [heq], Or.inl ⟨rfl, rfl⟩⟩
  | true =>
    refine ⟨_, by rw [gapSweepStep_of_due hdue], Or.inr ⟨rfl, ?_⟩⟩
    rw [Flow.isDue, Bool.and_eq_true] at hdue
    exact lastProgress_onGapTimeout (harmed f hf hdue.1)

/-- The timeout sweep leaves the configuration and the other bound alone. -/
theorem cfg_nextIdle_gapSweep (now : UInt64) (rx : Rx) :
    (gapSweep now rx).cfg = rx.cfg ∧ (gapSweep now rx).nextIdleUs = rx.nextIdleUs := by
  refine gapSweep_induct (P := fun _ e _ => e.cfg = rx.cfg ∧ e.nextIdleUs = rx.nextIdleUs)
    (fun _ _ _ _ _ h _ _ _ => h) (fun _ e f _ h _ => ?_) ⟨rfl, rfl⟩
  have hwithin := within_onGapTimeout now { rx := e, f := f }
  exact ⟨hwithin.cfg.trans h.1, hwithin.nextIdle.trans h.2⟩

/-! ### The bound on the next deadline -/

/-- The cached bound lies below every armed deadline. -/
def GapBound (e : Engine) (fs : List Flow) : Prop :=
  ∀ f ∈ fs, f.gapTimerActive = true → e.nextGapUs ≤ f.gapDeadlineUs

/-- Below the bound nothing is due. -/
theorem GapBound.not_due (h : GapBound e fs) (hlt : ¬ e.nextGapUs ≤ now) :
    ∀ f ∈ fs, f.isDue now = false := by
  intro f hf
  rw [Flow.isDue, Bool.and_eq_false_imp]
  intro hact
  rw [decide_eq_false_iff_not]
  exact fun hle => hlt (UInt64.le_trans (h f hf hact) hle)

/-- Work on one flow keeps the bound. -/
theorem GapBound.work (h : GapBound e (f :: fs)) {w : Work}
    (hwithin : Within now { rx := e, f := f } w) : GapBound w.rx (w.f :: fs) := by
  have hle : w.rx.nextGapUs ≤ e.nextGapUs := hwithin.nextGap
  intro g hg hact
  rcases mem_cons.mp hg with rfl | hg
  · rcases hwithin.timer hact with hnew | ⟨hold, hsame⟩
    · exact hnew
    · rw [hsame]
      exact UInt64.le_trans hle (h f mem_cons_self hold)
  · exact UInt64.le_trans hle (h g (mem_cons_of_mem _ hg) hact)

/-- Outside a tick every move keeps the bound. -/
theorem GapBound.move {x y : Engine × List Flow} (h : GapBound x.1 x.2) (hT : ¬ T)
    (hm : Move now T C x y) : GapBound y.1 y.2 := by
  cases hm with
  | perm hp => exact fun f hf => h f (hp.symm.subset hf)
  | bounds htick => exact absurd htick hT
  | knob | pass => exact h
  | create key hnew =>
    intro f hf hact
    rcases mem_cons.mp hf with rfl | hf
    · cases hact
    · exact h f hf hact
  | packet a => exact h.work (within_onReordered (a := a))
  | timeout htick => exact absurd htick hT
  | destroy =>
    intro f hf hact
    rw [drop_nextGap]
    exact h f (mem_cons_of_mem _ hf) hact

/-- The timeout sweep establishes the bound, whatever it was before. -/
theorem gapBound_gapSweep (now : UInt64) (rx : Rx) :
    GapBound (gapSweep now rx).toEngine (gapSweep now rx).flows := by
  -- the bound lies below the deadlines of the flows done so far
  refine gapSweep_induct (P := fun done e _ => GapBound e done) ?_ ?_ (by simp [GapBound])
  · intro done e f todo gap h _ hle harmed g hg hact
    rcases mem_append.mp hg with hg | hg
    · exact UInt64.le_trans hle (h g hg hact)
    · obtain rfl := mem_singleton.mp hg
      exact harmed hact
  · intro done e f todo h _ g hg hact
    rcases mem_append.mp hg with hg | hg
    · exact UInt64.le_trans (within_onGapTimeout now { rx := e, f := f }).nextGap (h g hg hact)
    · obtain rfl := mem_singleton.mp hg
      exact timer_onGapTimeout hact

/-- The idle sweep leaves the bound alone. -/
theorem GapBound.idleSweep (h : GapBound rx.toEngine rx.flows) :
    GapBound (idleSweep now rx).toEngine (idleSweep now rx).flows := by
  rw [← append_nil (Rx.flows _)]
  refine idleSweep_induct (P := fun done e todo => GapBound e (done ++ todo))
    (fun done e f todo idle h _ _ _ g hg => h g (by simpa using hg))
    (fun done e f todo h _ g hg => ?_) h
  rw [drop_nextGap]
  exact h g (mem_append.mpr ((mem_append.mp hg).imp_right (mem_cons_of_mem _)))

theorem GapBound.step (hwf : rx.WF) (h : GapBound rx.toEngine rx.flows) (op : Op) :
    GapBound (rx.step op).toEngine (rx.step op).flows := by
  -- only a tick raises the bound
  have hmoves : ¬ op.isTick → GapBound (rx.step op).toEngine (rx.step op).flows := fun hT =>
    moves_inv (P := fun x => GapBound x.1 x.2) (fun _ _ hx hm => hx.move hT hm)
      (step_moves hwf op) h
  cases op with
  | tick now =>
    exact tick_induct (P := fun r => GapBound r.toEngine r.flows) h (gapBound_gapSweep now rx)
      fun _ hr => hr.idleSweep
  | onPacket | setForceNoDemotion => exact hmoves id

/-- **The bound on the next deadline holds after every run**, on any clock. -/
theorem gapBound_run {cfg : Config} {seed : UInt64} {allocOk : Bool}
    (h : rxNew cfg seed allocOk = some rx) (ops : List Op) :
    GapBound (rx.run ops).toEngine (rx.run ops).flows := by
  have hstart : GapBound rx.toEngine rx.flows := forall_mem_rxNew h
  exact (Run.exec_inv Rx.step
    (P := fun r => r.WF ∧ GapBound r.toEngine r.flows)
    (fun r op hr => ⟨wf_step hr.1 op, hr.2.step hr.1 op⟩) ops rx ⟨(wf_rxNew h).1, hstart⟩).2

end Mqvpn.Reorder
