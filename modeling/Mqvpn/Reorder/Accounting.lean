import Mqvpn.Reorder.Contract
import Mqvpn.Reorder.Sweeps

/-!
# The aggregate statistics

Each flow counts the wait periods it starts and ends, and a destroyed flow hands its
counters to the engine.  The identity between the two sides holds of every flow, the
running period being the difference; but a flow destroyed while its timer runs hands
over a period that started and never ends.  The trace tells how often that happened,
and the aggregate is off by exactly that number.

## Main definitions

* `GapIdentity` — the identity over the aggregate.
* `lostPeriods` — the flows destroyed while armed.
* `Spares` — a call that destroys no armed flow, told from the state before it.

## Main results

* `gap_accounting` — **the aggregate is off by the periods lost**.
* `gap_identity_iff_spares` — **the identity holds after a run exactly if no call of it
  destroys an armed flow**.
-/

namespace Mqvpn.Reorder

open List

open Relation (ReflTransGen)

/-- The accounting identity over what `getStats` reports. -/
def GapIdentity (rx : Rx) : Prop :=
  (getStats rx).gapCount = (getStats rx).gapFilledCount + (getStats rx).gapTimeoutCount +
    (getStats rx).gapOverflowCount + (getStats rx).gapDemoteCount + (getStats rx).gapResetCount +
    rx.flows.countP fun f => f.gapTimerActive

instance (rx : Rx) : Decidable (GapIdentity rx) := inferInstanceAs (Decidable (_ = _))

/-- A flow was destroyed while its timer ran. -/
def Event.losesPeriod : Event → Bool
  | .destroyed _ armed => armed
  | _ => false

def lostPeriods (t : List Event) : ℕ := t.countP Event.losesPeriod

variable {e : Engine} {f : Flow} {fs : List Flow} {rx : Rx} {now : UInt64} {T : Prop}
  {C : Arrival → Work → Prop}

theorem lostPeriods_append (t t' : List Event) :
    lostPeriods (t ++ t') = lostPeriods t + lostPeriods t' := countP_append

theorem lostPeriods_about {k : FlowKey} {es : List Event} (h : ∀ x ∈ es, x.About k) :
    lostPeriods es = 0 := by
  rw [lostPeriods, countP_eq_zero]
  intro x hx
  have := h x hx
  cases x <;> simp_all [Event.About, Event.losesPeriod]

/-- Work on one flow loses no period. -/
theorem Within.lostPeriods {w w' : Work} (h : Within now w w') :
    lostPeriods w'.rx.trace = lostPeriods w.rx.trace := by
  obtain ⟨es, heq, habout⟩ := h.trace
  rw [heq, lostPeriods_append, lostPeriods_about habout, Nat.add_zero]

/-- Destroying a flow loses the period its timer runs for. -/
theorem lostPeriods_drop (e : Engine) (f : Flow) :
    lostPeriods (e.drop f).trace = lostPeriods e.trace + f.gapTimerActive.toNat := by
  obtain ⟨-, -, -, -, -, -, es, htrace, hes⟩ := flowDestroy_frame e f
  have hnone : lostPeriods es = 0 := by
    rw [Reorder.lostPeriods, countP_eq_zero]
    intro x hx
    rw [hes x hx]
    simp [Event.losesPeriod]
  show lostPeriods (flowDestroy e f).trace = _
  rw [htrace, lostPeriods_append, lostPeriods_append, hnone, Nat.add_zero]
  congr 1

/-! ### The accounting -/

/-- What a snapshot adds up, for any counter that accumulation adds. -/
theorem foldl_accumulate {φ : Stats → ℕ}
    (hφ : ∀ a b, φ (statsAccumulate a b) = φ a + φ b) (fs : List Flow) (st : Stats) :
    φ (fs.foldl (fun st f => statsAccumulate st f.stats) st) =
      φ st + (fs.map fun f => φ f.stats).sum := by
  induction fs generalizing st with
  | nil => simp
  | cons f fs ih =>
    rw [foldl_cons, ih, hφ, map_cons, sum_cons, Nat.add_assoc]

theorem gapEnds_accumulate (a b : Stats) :
    (statsAccumulate a b).gapEnds = a.gapEnds + b.gapEnds := by
  simp only [Stats.gapEnds, statsAccumulate]
  omega

/-- The counters of the destroyed flows are off by the periods they lost. -/
def EvictedOk (e : Engine) : Prop :=
  e.evictedStats.gapCount = e.evictedStats.gapEnds + lostPeriods e.trace

theorem EvictedOk.move {x y : Engine × List Flow} (htable : TableInv x.1 x.2) (h : EvictedOk x.1)
    (hm : Move now T C x y) : EvictedOk y.1 := by
  cases hm with
  | perm | bounds | knob => exact h
  | pass pkt =>
    show _ = _ + lostPeriods (_ ++ [Event.passed pkt])
    rw [lostPeriods_append]
    exact h
  | create key =>
    show _ = _ + lostPeriods (_ ++ [Event.created key])
    rw [lostPeriods_append]
    exact h
  | @packet e f fs a =>
    have hwithin := within_onReordered (a := a) (w := { rx := e, f := f })
    unfold EvictedOk
    rw [hwithin.evicted, hwithin.lostPeriods]
    exact h
  | @timeout e f fs =>
    have hwithin := within_onGapTimeout now { rx := e, f := f }
    unfold EvictedOk
    rw [hwithin.evicted, hwithin.lostPeriods]
    exact h
  | @destroy e f fs =>
    -- the counters of the flow are off by one exactly if its timer runs
    have hev : (e.drop f).evictedStats = statsAccumulate e.evictedStats f.stats :=
      (flowDestroy_frame e f).2.2.2.2.2.1
    have hgaps := (htable.flows f mem_cons_self).gaps
    have hold : e.evictedStats.gapCount = e.evictedStats.gapEnds + lostPeriods e.trace := h
    show (e.drop f).evictedStats.gapCount = (e.drop f).evictedStats.gapEnds + _
    rw [hev, lostPeriods_drop, gapEnds_accumulate]
    show e.evictedStats.gapCount + f.stats.gapCount = _
    omega

theorem sum_gapCount (h : TableInv e fs) :
    (fs.map fun f => f.stats.gapCount).sum =
      (fs.map fun f => f.stats.gapEnds).sum + fs.countP fun f => f.gapTimerActive := by
  have hgaps : ∀ f ∈ fs, f.stats.gapCount = f.stats.gapEnds + f.gapTimerActive.toNat :=
    fun f hf => (h.flows f hf).gaps
  clear h
  induction fs with
  | nil => rfl
  | cons f fs ih =>
    have hf := hgaps f mem_cons_self
    have hrest := ih fun g hg => hgaps g (mem_cons_of_mem _ hg)
    rw [map_cons, map_cons, sum_cons, sum_cons, countP_cons, hf, hrest]
    cases f.gapTimerActive <;> simp only [Bool.toNat_true, Bool.toNat_false, if_true,
      Bool.false_eq_true, if_false] <;> omega

/-- What a run keeps: the invariant, the bound on the next deadline, the accounting. -/
structure Accounted (rx : Rx) : Prop extends RxInv rx where
  bound : GapBound rx.toEngine rx.flows
  evicted : EvictedOk rx.toEngine

theorem Accounted.step (h : Accounted rx) (op : Op) : Accounted (rx.step op) where
  toRxInv := h.toRxInv.step op
  bound := h.bound.step h.wf op
  evicted := (moves_inv (P := fun x => TableInv x.1 x.2 ∧ EvictedOk x.1)
    (fun _ _ hx hm => ⟨hx.1.move hm, hx.2.move hx.1 hm⟩) (step_moves h.wf op)
    ⟨h.table, h.evicted⟩).2

theorem accounted_rxNew {cfg : Config} {seed : UInt64} {allocOk : Bool}
    (h : rxNew cfg seed allocOk = some rx) : Accounted rx where
  toRxInv := rxInv_rxNew h
  bound := gapBound_run h []
  evicted := by
    rw [(eq_of_rxNew h).1]
    rfl

/-- **The aggregate is off by the periods lost.** -/
theorem gap_accounting (h : Accounted rx) :
    (getStats rx).gapCount = (getStats rx).gapEnds + (rx.flows.countP fun f => f.gapTimerActive) +
      lostPeriods rx.trace := by
  unfold getStats
  rw [foldl_accumulate (φ := Stats.gapCount) (fun _ _ => rfl),
    foldl_accumulate (φ := Stats.gapEnds) gapEnds_accumulate, sum_gapCount h.table,
    show rx.evictedStats.gapCount = _ from h.evicted]
  omega

theorem gapIdentity_iff_lost (h : Accounted rx) : GapIdentity rx ↔ lostPeriods rx.trace = 0 := by
  have hacc := gap_accounting h
  unfold GapIdentity
  rw [Stats.gapEnds] at hacc
  omega

/-! ### Which calls lose a period -/

/-- The call destroys no armed flow: if a packet of an unknown flow finds the table
full, the flow that has gone longest without progress is not armed; and if a tick
sweeps for idle flows, an armed one among them is due, so that its timeout comes
first. -/
def Spares (rx : Rx) : Op → Prop
  | .onPacket payload now alloc =>
      ∀ p ∈ rx.cfg.arrivalOf payload now alloc, flowLookup rx p.1 = none → rx.full = true →
        ∀ victim ∈ lruVictim rx.flows, victim.gapTimerActive = false
  | .tick now =>
      rx.nextIdleUs ≤ now → ∀ f ∈ rx.flows, f.isIdle now rx.cfg.idleUs = true →
        f.gapTimerActive = true → f.gapDeadlineUs ≤ now
  | .setForceNoDemotion _ => True

instance (rx : Rx) : ∀ op, Decidable (Spares rx op)
  | .onPacket .. => inferInstanceAs (Decidable (∀ p ∈ _, _ → _ → ∀ victim ∈ _, _ = false))
  | .tick _ => inferInstanceAs (Decidable (_ → ∀ f ∈ _, _ → _ → _))
  | .setForceNoDemotion _ => instDecidableTrue

theorem lost_makeRoom (rx : Rx) :
    lostPeriods rx.makeRoom.trace = lostPeriods rx.trace ↔
      (rx.full = true → ∀ victim ∈ lruVictim rx.flows, victim.gapTimerActive = false) := by
  unfold Rx.makeRoom
  split
  · next hfull =>
    unfold evictLruFlow
    split
    · next hnone => simp [hfull, hnone]
    · next victim hv =>
      have hlost : lostPeriods (rx.evict victim).trace = _ := lostPeriods_drop rx.toEngine victim
      rw [hlost]
      cases hact : victim.gapTimerActive <;> simp [hfull, hv, hact]
  · next hfull => simp [hfull]

theorem lost_toFlow (rx : Rx) (key : FlowKey) (a : Arrival) :
    lostPeriods (rx.toFlow key a).trace = lostPeriods rx.trace ↔
      (flowLookup rx key = none → rx.full = true →
        ∀ victim ∈ lruVictim rx.flows, victim.gapTimerActive = false) := by
  have hwork : ∀ (r : Rx) (f : Flow),
      lostPeriods (r.withFlow f (onReordered a)).trace = lostPeriods r.trace := fun r f =>
    (within_onReordered (a := a) (w := { rx := r.toEngine, f := f })).lostPeriods
  rcases toFlow_cases rx key a with ⟨f, hl, heq⟩ | ⟨hl, heq⟩ | ⟨hl, heq⟩
  · rw [heq, hwork, hl]
    simp
  · rw [heq, hl, lost_makeRoom]
    simp
  · have hcreate : lostPeriods (rx.makeRoom.create key).trace = lostPeriods rx.makeRoom.trace :=
      lostPeriods_append _ [Event.created key]
    rw [heq, hwork, hcreate, hl, lost_makeRoom]
    simp

/-- The timeout sweep loses no period. -/
theorem lost_gapSweep (now : UInt64) (rx : Rx) :
    lostPeriods (gapSweep now rx).trace = lostPeriods rx.trace :=
  gapSweep_induct (P := fun _ e _ => lostPeriods e.trace = lostPeriods rx.trace)
    (fun _ _ _ _ _ h _ _ _ => h)
    (fun _ e f _ h _ => (within_onGapTimeout now { rx := e, f := f }).lostPeriods.trans h) rfl

/-- The idle sweep loses the periods of the idle flows that are armed. -/
theorem lost_idleSweep (now : UInt64) (rx : Rx) :
    lostPeriods (idleSweep now rx).trace = lostPeriods rx.trace +
      rx.flows.countP fun f => f.isIdle now rx.cfg.idleUs && f.gapTimerActive := by
  -- what was lost so far and what is still to be lost add up
  refine (idleSweep_induct (P := fun _ e todo => e.cfg = rx.cfg ∧ lostPeriods rx.trace +
      (rx.flows.countP fun f => f.isIdle now rx.cfg.idleUs && f.gapTimerActive) =
      lostPeriods e.trace + todo.countP fun f => f.isIdle now rx.cfg.idleUs && f.gapTimerActive)
    (fun done e f todo idle h hidle _ _ => ?_) (fun done e f todo h hidle => ?_)
    ⟨rfl, rfl⟩).2.symm
  · obtain ⟨hcfg, hsum⟩ := h
    rw [hcfg] at hidle
    rw [countP_cons, hidle] at hsum
    simp only [Bool.false_and, Bool.false_eq_true, if_false, Nat.add_zero] at hsum
    exact ⟨hcfg, hsum⟩
  · obtain ⟨hcfg, hsum⟩ := h
    refine ⟨(flowDestroy_frame e f).1.trans hcfg, ?_⟩
    rw [hcfg] at hidle
    rw [countP_cons, hidle] at hsum
    simp only [Bool.true_and] at hsum
    simp only [lostPeriods_drop]
    cases hact : f.gapTimerActive <;> simp only [hact] at hsum <;> simp at hsum ⊢ <;> omega

/-- The flows once the due timers have fired, swept or not. -/
theorem fireDue_flows (h : Accounted rx) (now : UInt64) :
    (∀ f' ∈ (rx.fireDue now).flows, ∃ f ∈ rx.flows,
        f.isDue now = false ∧ f' = f ∨ f.isDue now = true ∧ f'.lastProgressUs = now) ∧
      ∀ f ∈ rx.flows, ∃ f' ∈ (rx.fireDue now).flows,
        f.isDue now = false ∧ f' = f ∨ f.isDue now = true ∧ f'.lastProgressUs = now := by
  unfold Rx.fireDue
  split
  · exact gapSweep_flows fun f hf => (h.table.flows f hf).armed.mp
  · next hlt =>
    have hnone := h.bound.not_due hlt
    exact ⟨fun f hf => ⟨f, hf, Or.inl ⟨hnone f hf, rfl⟩⟩,
      fun f hf => ⟨f, hf, Or.inl ⟨hnone f hf, rfl⟩⟩⟩

theorem fireDue_frame (now : UInt64) (rx : Rx) :
    (rx.fireDue now).cfg = rx.cfg ∧ (rx.fireDue now).nextIdleUs = rx.nextIdleUs ∧
      lostPeriods (rx.fireDue now).trace = lostPeriods rx.trace := by
  unfold Rx.fireDue
  split
  · refine ⟨?_, ?_, lost_gapSweep now rx⟩
    · exact (cfg_nextIdle_gapSweep now rx).1
    · exact (cfg_nextIdle_gapSweep now rx).2
  · exact ⟨rfl, rfl, rfl⟩

theorem lost_tick (h : Accounted rx) (now : UInt64) :
    lostPeriods (tick rx now).trace = lostPeriods rx.trace ↔ Spares rx (.tick now) := by
  obtain ⟨hcfg, hnext, hlost⟩ := fireDue_frame now rx
  unfold tick
  split
  · next hzero =>
    have hnil : rx.flows = [] := length_eq_zero_iff.mp (h.table.nFlows.symm.trans hzero)
    simp [Spares, hnil]
  · unfold Rx.evictIdle
    rw [hnext]
    split
    · next hlt =>
      have hnot : ¬ rx.nextIdleUs ≤ now := UInt64.not_le.mpr hlt
      simp [Spares, hlost, hnot]
    · next hge =>
      have hle : rx.nextIdleUs ≤ now := UInt64.not_lt.mp hge
      rw [lost_idleSweep, hlost, hcfg]
      obtain ⟨hback, hforth⟩ := fireDue_flows h now
      have hcount : lostPeriods rx.trace + ((rx.fireDue now).flows.countP fun f =>
          f.isIdle now rx.cfg.idleUs && f.gapTimerActive) = lostPeriods rx.trace ↔
          ∀ f ∈ (rx.fireDue now).flows,
            f.isIdle now rx.cfg.idleUs = true → f.gapTimerActive ≠ true := by
        rw [Nat.add_eq_left, countP_eq_zero]
        simp only [Bool.and_eq_true, not_and, ne_eq]
      rw [hcount]
      constructor
      · intro hspared _ f hf hidle hact
        obtain ⟨f', hf', ⟨-, rfl⟩ | ⟨hdue, -⟩⟩ := hforth f hf
        · exact absurd hact (hspared f' hf' hidle)
        · rw [Flow.isDue, Bool.and_eq_true, decide_eq_true_eq] at hdue
          exact hdue.2
      · intro hspares f' hf' hidle hact
        obtain ⟨f, hf, ⟨hnot, rfl⟩ | ⟨-, hprog⟩⟩ := hback f' hf'
        · -- an idle armed flow is due, and this one is not
          have hdue := hspares hle f' hf hidle hact
          rw [Flow.isDue, hact, Bool.true_and, decide_eq_false_iff_not] at hnot
          exact hnot hdue
        · -- a flow that has just made progress is not idle
          rw [Flow.isIdle, hprog, Bool.and_eq_true, decide_eq_true_eq] at hidle
          exact UInt64.lt_irrefl now hidle.1

/-- A call loses a period exactly if it does not spare the armed flows. -/
theorem lost_step (h : Accounted rx) (op : Op) :
    lostPeriods (rx.step op).trace = lostPeriods rx.trace ↔ Spares rx op := by
  cases op with
  | tick now => exact lost_tick h now
  | setForceNoDemotion force => simp [Spares, Rx.step, setForceNoDemotion]
  | onPacket payload now alloc =>
    show lostPeriods (onPacket rx payload now alloc).trace = _ ↔ _
    simp only [Spares]
    rcases onPacket_cases rx payload now alloc with ⟨key, a, harr, heq⟩ | ⟨harr, heq | ⟨pkt, heq⟩⟩
    · rw [heq, harr, lost_toFlow]
      simp
    · rw [heq, harr]
      simp
    · have hpass : lostPeriods (rx.pass pkt).trace = lostPeriods rx.trace :=
        lostPeriods_append _ [Event.passed pkt]
      rw [heq, harr, hpass]
      simp

theorem Move.trace {x y : Engine × List Flow} (h : Move now T C x y) :
    ∃ es, y.1.trace = x.1.trace ++ es := by
  cases h with
  | perm | bounds | knob => exact ⟨[], (append_nil _).symm⟩
  | pass | create => exact ⟨_, rfl⟩
  | packet a => exact (within_onReordered (a := a)).trace.imp fun _ h => h.1
  | timeout => exact (within_onGapTimeout now _).trace.imp fun _ h => h.1
  | @destroy e f fs =>
    obtain ⟨-, -, -, -, -, -, es, htrace, -⟩ := flowDestroy_frame e f
    exact ⟨es ++ [.destroyed f.key f.gapTimerActive], by rw [← append_assoc]; exact htrace⟩

/-- The trace only ever grows. -/
theorem moves_trace {x y : Engine × List Flow} (h : ReflTransGen (Move now T C) x y) :
    ∃ es, y.1.trace = x.1.trace ++ es := by
  refine moves_inv (P := fun z => ∃ es, z.1.trace = x.1.trace ++ es) ?_ h
    ⟨[], (append_nil _).symm⟩
  rintro z z' ⟨es, hes⟩ hm
  obtain ⟨es', hes'⟩ := hm.trace
  exact ⟨es ++ es', by rw [hes', hes, append_assoc]⟩

/-- Lost periods are never found again. -/
theorem lost_step_le (h : Accounted rx) (op : Op) :
    lostPeriods rx.trace ≤ lostPeriods (rx.step op).trace := by
  obtain ⟨es, htrace⟩ := moves_trace (step_moves h.wf op)
  have heq : (rx.step op).trace = rx.trace ++ es := htrace
  rw [heq, lostPeriods_append]
  exact Nat.le_add_right _ _

/-- A run loses no period exactly if each of its calls spares the armed flows. -/
theorem lost_run : ∀ (ops : List Op) (rx : Rx), Accounted rx →
    lostPeriods rx.trace ≤ lostPeriods (rx.run ops).trace ∧
      (lostPeriods (rx.run ops).trace = lostPeriods rx.trace ↔
        Run.Along Rx.step Spares rx ops) := by
  intro ops
  induction ops with
  | nil => intro rx _; exact ⟨le_rfl, by simp [Rx.run, Run.Along]⟩
  | cons op ops ih =>
    intro rx h
    obtain ⟨hmono, hiff⟩ := ih (rx.step op) (h.step op)
    have hstep := lost_step h op
    have hle := lost_step_le h op
    have hrun : rx.run (op :: ops) = (rx.step op).run ops := rfl
    rw [hrun, Run.Along, ← hstep, ← hiff]
    refine ⟨hle.trans hmono, ?_⟩
    omega

/-! ### The identity over the aggregate -/

/-- **The identity holds over the aggregate after a run exactly if no call of the run
destroys an armed flow.** -/
theorem gap_identity_iff_spares {cfg : Config} {seed : UInt64} {allocOk : Bool}
    (h : rxNew cfg seed allocOk = some rx) (ops : List Op) :
    GapIdentity (rx.run ops) ↔ Run.Along Rx.step Spares rx ops := by
  have hstart := accounted_rxNew h
  have hacc : Accounted (rx.run ops) :=
    Run.exec_inv Rx.step (fun _ op hr => hr.step op) ops rx hstart
  have hzero : lostPeriods rx.trace = 0 := by
    rw [(eq_of_rxNew h).1]
    rfl
  rw [gapIdentity_iff_lost hacc, ← hzero]
  exact (lost_run ops rx hstart).2

/-- A waiting flow that times out and is evicted long after. -/
theorem gap_identity_of_timeout :
    GapIdentity (sampleRun 1 (sampleHole ++ [.tick 100000, .tick 1000000000])) :=
  (gap_identity_iff_spares (rxNew_of_validate rfl 1) _).mpr (by decide +kernel)

/-- **A table of one flow**: the packet of a second flow evicts the first while its
timer runs.  One period has started, none has ended, and no timer is armed. -/
theorem gap_identity_lost_by_eviction :
    ¬ GapIdentity ((Rx.initial { sampleConfig with maxFlows := 1 } 1).run
      [samplePacket 0 5000 1 1000, samplePacket 2 5000 1 1001, samplePacket 0 6000 1 1002]) := by
  decide +kernel

end Mqvpn.Reorder
