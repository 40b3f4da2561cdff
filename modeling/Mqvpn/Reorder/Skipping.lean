import Mqvpn.Reorder.Alike
import Mqvpn.Reorder.Contract
import Mqvpn.Reorder.Sweeps

/-!
# Skipping sweeps

A tick walks the table only if the cached bounds say that something may be due.  On a
clock that does not run backwards nobody can tell: an engine whose tick always walks
the table twice goes through the same flows and leaves the same trace, call by call.

The bound on the deadlines holds on any clock; the bound on the idle flows needs the
clock, since a flow that records progress at an earlier time than before goes idle
earlier than the bound says.

## Main definitions

* `tickFull`, `Rx.runFull` — the engine that never skips.
* `Clocked` — no flow has made progress in the future, and none goes idle before the bound.

## Main results

* `tick_alike` — a tick that skips does what the full tick does.
* `sweep_skipping_unobservable` — **skipping cannot be observed**.
-/

namespace Mqvpn.Reorder

open List

/-! ### The engine that never skips -/

/-- Both sweeps, whatever the bounds. -/
def tickFull (rx : Rx) (now : UInt64) : Rx := idleSweep now (gapSweep now rx)

def Rx.stepFull (rx : Rx) : Op → Rx
  | .onPacket payload now alloc => onPacket rx payload now alloc
  | .tick now => tickFull rx now
  | .setForceNoDemotion force => setForceNoDemotion rx force

def Rx.runFull (rx : Rx) (ops : List Op) : Rx := Run.exec Rx.stepFull rx ops

/-- The clock value of a call, if it carries one. -/
def Op.clock : Op → Option UInt64
  | .onPacket _ now _ => some now
  | .tick now => some now
  | .setForceNoDemotion _ => none

variable {e e' : Engine} {f : Flow} {fs : List Flow} {rx rx' : Rx} {now t : UInt64} {T : Prop}
  {C : Arrival → Work → Prop}

/-- The first call of a run on a clock that does not run backwards, and the others. -/
theorem pairwise_clock_cons {op : Op} {ops : List Op}
    (h : (t :: (op :: ops).filterMap Op.clock).Pairwise (· ≤ ·)) :
    (∀ c ∈ op.clock, t ≤ c) ∧
      (op.clock.getD t :: ops.filterMap Op.clock).Pairwise (· ≤ ·) := by
  cases hc : op.clock with
  | none =>
    -- a call without a clock leaves the last one standing
    rw [filterMap_cons_none hc] at h
    exact ⟨fun _ hc' => (Option.not_mem_none _ hc').elim, h⟩
  | some c =>
    rw [filterMap_cons_some hc] at h
    refine ⟨fun c' hc' => ?_, (pairwise_cons.mp h).2⟩
    obtain rfl := Option.some.inj hc'
    exact (pairwise_cons.mp h).1 c mem_cons_self

/-! ### The bound on the idle flows -/

/-- At time `t` no flow has made progress later than that, and none goes idle before
the bound; the bound is compared as a number, since the sum may wrap. -/
def Clocked (t : UInt64) (e : Engine) (fs : List Flow) : Prop :=
  ∀ f ∈ fs, f.lastProgressUs ≤ t ∧
    e.nextIdleUs.toNat ≤ f.lastProgressUs.toNat + e.cfg.idleUs.toNat + 1

theorem Clocked.mono (h : Clocked t e fs) (hle : t ≤ now) : Clocked now e fs :=
  fun f hf => ⟨UInt64.le_trans (h f hf).1 hle, (h f hf).2⟩

theorem Clocked.perm {fs' : List Flow} (h : Clocked t e fs) (hp : fs.Perm fs') : Clocked t e fs' :=
  fun f hf => h f (hp.symm.subset hf)

/-- Progress only puts off the moment at which a flow goes idle. -/
theorem Clocked.work (h : Clocked now e (f :: fs)) {w : Work}
    (hwithin : Within now { rx := e, f := f } w) : Clocked now w.rx (w.f :: fs) := by
  have hidle : w.rx.nextIdleUs = e.nextIdleUs := hwithin.nextIdle
  have hcfg : w.rx.cfg = e.cfg := hwithin.cfg
  intro g hg
  rw [hidle, hcfg]
  rcases mem_cons.mp hg with rfl | hg
  · obtain ⟨hle, hbound⟩ := h f mem_cons_self
    rcases hwithin.progress with hsame | hnow
    · rw [hsame]
      exact ⟨hle, hbound⟩
    · rw [hnow]
      have := UInt64.le_iff_toNat_le.mp hle
      exact ⟨UInt64.le_refl _, by omega⟩
  · exact h g (mem_cons_of_mem _ hg)

theorem Clocked.drop (h : Clocked now e fs) (f : Flow) : Clocked now (e.drop f) fs := by
  obtain ⟨hcfg, -, -, -, hidle, -, -⟩ := flowDestroy_frame e f
  intro g hg
  rw [show (e.drop f).nextIdleUs = e.nextIdleUs from hidle, show (e.drop f).cfg = e.cfg from hcfg]
  exact h g hg

/-- Outside a tick every move keeps the bound. -/
theorem Clocked.move {x y : Engine × List Flow} (h : Clocked now x.1 x.2) (hT : ¬ T)
    (hm : Move now T C x y) : Clocked now y.1 y.2 := by
  cases hm with
  | perm hp => exact h.perm hp
  | bounds htick => exact absurd htick hT
  | knob | pass => exact h
  | create key =>
    -- the bound is reset to zero
    intro f hf
    refine ⟨?_, Nat.zero_le _⟩
    rcases mem_cons.mp hf with rfl | hf
    · exact UInt64.le_iff_toNat_le.mpr (Nat.zero_le _)
    · exact (h f hf).1
  | packet a _ hnow =>
    subst hnow
    exact h.work within_onReordered
  | timeout htick => exact absurd htick hT
  | destroy => exact fun g hg => h.drop _ g (mem_cons_of_mem _ hg)

theorem Clocked.gapSweep (h : Clocked now rx.toEngine rx.flows) :
    Clocked now (gapSweep now rx).toEngine (gapSweep now rx).flows := by
  rw [← append_nil (Rx.flows _)]
  refine gapSweep_induct (P := fun done e todo => Clocked now e (done ++ todo))
    (fun done e f todo gap h _ _ _ => ?_) (fun done e f todo h _ => ?_) h <;>
    rw [append_assoc]
  · exact h
  · exact ((h.perm perm_middle).work (within_onGapTimeout now _)).perm perm_middle.symm

/-- The idle sweep establishes the bound anew. -/
theorem clocked_idleSweep (hprog : ∀ f ∈ rx.flows, f.lastProgressUs ≤ now) :
    Clocked now (idleSweep now rx).toEngine (idleSweep now rx).flows := by
  -- the bound covers the flows that have been visited; of the others the clock is known
  refine (idleSweep_induct
    (P := fun done e todo => Clocked now e done ∧ ∀ f ∈ todo, f.lastProgressUs ≤ now)
    (fun done e f todo idle h _ hle hbound => ?_)
    (fun done e f todo h _ => ⟨h.1.drop f, (forall_mem_cons.mp h.2).2⟩)
    ⟨fun f hf => absurd hf not_mem_nil, hprog⟩).1
  obtain ⟨hf, htodo⟩ := forall_mem_cons.mp h.2
  refine ⟨fun g hg => ?_, htodo⟩
  rcases mem_append.mp hg with hg | hg
  · exact ⟨(h.1 g hg).1, (UInt64.le_iff_toNat_le.mp hle).trans (h.1 g hg).2⟩
  · obtain rfl := mem_singleton.mp hg
    exact ⟨hf, hbound⟩

theorem Clocked.fireDue (h : Clocked now rx.toEngine rx.flows) :
    Clocked now (rx.fireDue now).toEngine (rx.fireDue now).flows := by
  unfold Rx.fireDue
  split
  · exact h.gapSweep
  · exact h

/-- **The bound on the idle flows survives every call** that is not made in the past. -/
theorem clocked_step (hwf : rx.WF) (h : Clocked t rx.toEngine rx.flows) {op : Op}
    (hclock : ∀ c ∈ op.clock, t ≤ c) :
    Clocked (op.clock.getD t) (rx.step op).toEngine (rx.step op).flows := by
  cases op with
  | onPacket payload now alloc =>
    exact moves_inv (P := fun x => Clocked now x.1 x.2) (fun _ _ hx hm => hx.move id hm)
      (step_moves hwf (.onPacket payload now alloc)) (h.mono (hclock now rfl))
  | tick now =>
    have hnow := h.mono (hclock now rfl)
    exact tick_induct (P := fun r => Clocked now r.toEngine r.flows) hnow hnow.gapSweep
      fun _ hr => clocked_idleSweep fun f hf => (hr f hf).1
  | setForceNoDemotion force => exact h

/-! ### Sweeps side by side -/

theorem gapSweepStep_alike (h : e.Alike e') (f : Flow) :
    (gapSweepStep now e f).1.Alike (gapSweepStep now e' f).1 ∧
      (gapSweepStep now e f).2 = (gapSweepStep now e' f).2 := by
  cases hdue : f.isDue now with
  | true =>
    have hout := (h.work f).onGapTimeout now
    rw [gapSweepStep_of_due hdue, gapSweepStep_of_due hdue, hout.f]
    exact ⟨hout.rx, rfl⟩
  | false =>
    obtain ⟨gap, heq, -, -⟩ := gapSweepStep_of_not_due (e := e) hdue
    obtain ⟨gap', heq', -, -⟩ := gapSweepStep_of_not_due (e := e') hdue
    obtain ⟨_, idle, rfl⟩ := h
    rw [heq, heq']
    exact ⟨⟨gap', idle, rfl⟩, rfl⟩

theorem idleSweepStep_alike (h : e.Alike e') (f : Flow) :
    (idleSweepStep now e f).1.Alike (idleSweepStep now e' f).1 ∧
      (idleSweepStep now e f).2 = (idleSweepStep now e' f).2 := by
  have hcfg : e'.cfg = e.cfg := by
    obtain ⟨_, _, rfl⟩ := h
    rfl
  cases hidle : f.isIdle now e.cfg.idleUs with
  | true =>
    rw [idleSweepStep_of_idle hidle, idleSweepStep_of_idle (by rw [hcfg]; exact hidle)]
    exact ⟨h.drop f, rfl⟩
  | false =>
    obtain ⟨idle, heq, -, -⟩ := idleSweepStep_of_not_idle hidle
    obtain ⟨idle', heq', -, -⟩ := idleSweepStep_of_not_idle (e := e') (by rw [hcfg]; exact hidle)
    rw [heq, heq']
    obtain ⟨gap, _, rfl⟩ := h
    exact ⟨⟨gap, idle', rfl⟩, rfl⟩

theorem Rx.Alike.gapSweep (h : rx.Alike rx') (now : UInt64) :
    (gapSweep now rx).Alike (gapSweep now rx') := by
  have hstart : Engine.Alike { rx.toEngine with nextGapUs := uint64Max }
      { rx'.toEngine with nextGapUs := uint64Max } := by
    obtain ⟨⟨_, idle, heq⟩, -⟩ := h
    exact ⟨uint64Max, idle, by rw [heq]⟩
  obtain ⟨hrel, hout⟩ := Chained.sweepAll_rel (f := gapSweepStep now) (g := gapSweepStep now)
    (R := Engine.Alike) rx.buckets _ _ (fun s s' v _ hs => gapSweepStep_alike hs v) hstart
  unfold Reorder.gapSweep
  rw [h.2]
  exact ⟨hrel, hout.symm⟩

theorem Rx.Alike.idleSweep (h : rx.Alike rx') (now : UInt64) :
    (idleSweep now rx).Alike (idleSweep now rx') := by
  have hstart : Engine.Alike { rx.toEngine with nextIdleUs := uint64Max }
      { rx'.toEngine with nextIdleUs := uint64Max } := by
    obtain ⟨⟨gap, _, heq⟩, -⟩ := h
    exact ⟨gap, uint64Max, by rw [heq]⟩
  obtain ⟨hrel, hout⟩ := Chained.sweepAll_rel (f := idleSweepStep now) (g := idleSweepStep now)
    (R := Engine.Alike) rx.buckets _ _ (fun s s' v _ hs => idleSweepStep_alike hs v) hstart
  unfold Reorder.idleSweep
  rw [h.2]
  exact ⟨hrel, hout.symm⟩

/-- A timeout sweep that finds nothing due changes nothing. -/
theorem Rx.Alike.gapSweep_of_none (h : rx.Alike rx')
    (hnone : ∀ f ∈ rx.flows, f.isDue now = false) : rx.Alike (Reorder.gapSweep now rx') := by
  have hstart : rx.toEngine.Alike { rx'.toEngine with nextGapUs := uint64Max } :=
    h.1.trans ⟨uint64Max, rx'.nextIdleUs, rfl⟩
  -- next to it runs the sweep that does nothing
  obtain ⟨hrel, hout⟩ := Chained.sweepAll_rel (f := fun s v => (s, some v))
    (g := gapSweepStep now) (R := Engine.Alike) rx.buckets rx.toEngine _
    (fun s s' v hv hs => by
      obtain ⟨gap, heq, -, -⟩ := gapSweepStep_of_not_due (e := s') (hnone v hv)
      rw [heq]
      exact ⟨hs.trans ⟨gap, s'.nextIdleUs, rfl⟩, rfl⟩) hstart
  rw [Chained.sweepAll_skip] at hrel hout
  unfold Reorder.gapSweep
  rw [h.2]
  exact ⟨hrel, hout.symm⟩

/-- An idle sweep that finds nothing idle changes nothing. -/
theorem Rx.Alike.idleSweep_of_none (h : rx.Alike rx')
    (hnone : ∀ f ∈ rx.flows, f.isIdle now rx.cfg.idleUs = false) :
    rx.Alike (Reorder.idleSweep now rx') := by
  have hstart : rx.toEngine.Alike { rx'.toEngine with nextIdleUs := uint64Max } :=
    h.1.trans ⟨rx'.nextGapUs, uint64Max, rfl⟩
  obtain ⟨⟨-, hrel⟩, hout⟩ := Chained.sweepAll_rel (f := fun s v => (s, some v))
    (g := idleSweepStep now) (R := fun s s' => s = rx.toEngine ∧ s.Alike s')
    rx.buckets rx.toEngine _
    (fun s s' v hv hs => by
      obtain ⟨rfl, hs⟩ := hs
      have hcfg : s'.cfg = rx.cfg := by
        obtain ⟨_, _, rfl⟩ := hs
        rfl
      obtain ⟨idle, heq, -, -⟩ := idleSweepStep_of_not_idle (e := s')
        (by rw [hcfg]; exact hnone v hv)
      rw [heq]
      exact ⟨⟨rfl, hs.trans ⟨s'.nextGapUs, idle, rfl⟩⟩, rfl⟩) ⟨rfl, hstart⟩
  rw [Chained.sweepAll_skip] at hrel hout
  unfold Reorder.idleSweep
  rw [h.2]
  exact ⟨hrel, hout.symm⟩

/-! ### A tick -/

theorem not_idle_of_lt (h : Clocked now rx.toEngine rx.flows) (hlt : now < rx.nextIdleUs) :
    ∀ f ∈ rx.flows, f.isIdle now rx.cfg.idleUs = false := by
  intro f hf
  obtain ⟨hle, hbound⟩ := h f hf
  have hnow := UInt64.lt_iff_toNat_lt.mp hlt
  have hdiff : (now - f.lastProgressUs).toNat = now.toNat - f.lastProgressUs.toNat :=
    UInt64.toNat_sub_of_le _ _ hle
  rw [Flow.isIdle, Bool.and_eq_false_imp]
  intro _
  rw [decide_eq_false_iff_not, UInt64.lt_iff_toNat_lt, hdiff]
  omega

/-- **A tick that skips does what the full tick does.** -/
theorem tick_alike (hinv : RxInv rx) (hgap : GapBound rx.toEngine rx.flows)
    (hclk : Clocked now rx.toEngine rx.flows) (h : rx.Alike rx') :
    (tick rx now).Alike (tickFull rx' now) := by
  unfold tick tickFull
  split
  · next hzero =>
    -- there is nothing to sweep
    have hnil : rx.flows = [] := length_eq_zero_iff.mp (hinv.table.nFlows.symm.trans hzero)
    refine Rx.Alike.idleSweep_of_none (h.gapSweep_of_none ?_) ?_
    · rw [hnil]
      exact fun f hf => by cases hf
    · rw [hnil]
      exact fun f hf => by cases hf
  · have hfire : (rx.fireDue now).Alike (gapSweep now rx') := by
      unfold Rx.fireDue
      split
      · exact h.gapSweep now
      · next hlt => exact h.gapSweep_of_none (hgap.not_due hlt)
    unfold Rx.evictIdle
    split
    · next hlt => exact hfire.idleSweep_of_none (not_idle_of_lt hclk.fireDue hlt)
    · exact hfire.idleSweep now

/-! ### Runs -/

theorem step_alike (hinv : RxInv rx) (hgap : GapBound rx.toEngine rx.flows)
    (hclk : Clocked t rx.toEngine rx.flows) (h : rx.Alike rx') {op : Op}
    (hclock : ∀ c ∈ op.clock, t ≤ c) : (rx.step op).Alike (rx'.stepFull op) := by
  cases op with
  | onPacket payload now alloc => exact h.onPacket payload now alloc
  | tick now => exact tick_alike hinv hgap (hclk.mono (hclock now rfl)) h
  | setForceNoDemotion force =>
    obtain ⟨⟨gap, idle, heq⟩, hbuckets⟩ := h
    refine ⟨⟨gap, idle, ?_⟩, hbuckets⟩
    show { rx'.toEngine with cfg := { rx'.cfg with evalForceNoDemotion := force } } = _
    rw [heq]
    rfl

/-- An engine between calls; the clock does not run backwards in those to come. -/
structure OnClock (ops : List Op) (rx : Rx) : Prop where
  inv : RxInv rx
  gap : GapBound rx.toEngine rx.flows
  clocked : ∃ t, Clocked t rx.toEngine rx.flows ∧
    (t :: ops.filterMap Op.clock).Pairwise (· ≤ ·)

theorem OnClock.step {op : Op} {ops : List Op} (h : OnClock (op :: ops) rx) :
    OnClock ops (rx.step op) := by
  obtain ⟨t, hclk, hmono⟩ := h.clocked
  obtain ⟨hclock, hrest⟩ := pairwise_clock_cons hmono
  exact ⟨h.inv.step op, h.gap.step h.inv.wf op, _, clocked_step h.inv.wf hclk hclock, hrest⟩

theorem onClock_rxNew {cfg : Config} {seed : UInt64} {allocOk : Bool} {ops : List Op}
    (h : rxNew cfg seed allocOk = some rx)
    (hclock : (ops.filterMap Op.clock).Pairwise (· ≤ ·)) : OnClock ops rx :=
  ⟨rxInv_rxNew h, gapBound_run h [], 0, forall_mem_rxNew h, pairwise_zero_cons hclock⟩

theorem run_alike : ∀ (ops : List Op) (rx rx' : Rx), OnClock ops rx → rx.Alike rx' →
    (rx.run ops).Alike (rx'.runFull ops) := by
  intro ops
  induction ops with
  | nil => intro rx rx' _ h; exact h
  | cons op ops ih =>
    intro rx rx' hon h
    obtain ⟨t, hclk, hmono⟩ := hon.clocked
    exact ih _ _ hon.step (step_alike hon.inv hon.gap hclk h (pairwise_clock_cons hmono).1)

/-- **Skipping sweeps cannot be observed.**  On calls whose clock values do not
decrease, after each call the engine and the one whose tick always performs both full
sweeps have left the same trace — the same packets delivered in the same order, the
same flows evicted — hold the same flows and report the same statistics. -/
theorem sweep_skipping_unobservable {cfg : Config} {seed : UInt64} {allocOk : Bool}
    (h : rxNew cfg seed allocOk = some rx) (ops : List Op)
    (hclock : (ops.filterMap Op.clock).Pairwise (· ≤ ·)) (n : ℕ) :
    (rx.run (ops.take n)).trace = (rx.runFull (ops.take n)).trace ∧
      (rx.run (ops.take n)).flows = (rx.runFull (ops.take n)).flows ∧
      getStats (rx.run (ops.take n)) = getStats (rx.runFull (ops.take n)) := by
  have hmono : ((ops.take n).filterMap Op.clock).Pairwise (· ≤ ·) :=
    hclock.sublist ((take_sublist n ops).filterMap _)
  have halike := run_alike (ops.take n) rx rx (onClock_rxNew h hmono) (Rx.Alike.refl rx)
  have hflows := halike.flows
  obtain ⟨⟨gap, idle, heq⟩, -⟩ := halike
  refine ⟨by rw [heq], hflows.symm, ?_⟩
  rw [getStats, getStats, hflows, heq]

/-- A flow waits, times out between two skipped sweeps and goes idle. -/
def sampleTimeout : List Op :=
  sampleHole ++ [.tick 2000, .tick 100000, .tick 200000, .tick 1000000000]

theorem sweep_skipping_unobservable_timeout :
    (sampleRun 1 sampleTimeout).flows = [] ∧ getStats (sampleRun 1 sampleTimeout) =
      getStats ((Rx.initial sampleConfig 1).runFull sampleTimeout) :=
  ⟨by decide +kernel, (sweep_skipping_unobservable (rxNew_of_validate rfl 1) sampleTimeout
    (by decide +kernel) 6).2.2⟩

end Mqvpn.Reorder
