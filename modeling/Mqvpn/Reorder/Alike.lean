import Mqvpn.Reorder.Moves

/-!
# The bounds are not looked at

Two engines that differ in nothing but the bounds of their sweeps do the same with a
packet or a timeout: the bounds are written on the way, but only a tick reads them.
`Work.Alike` is that relation, and every function of the engine below a tick keeps it.

## Main definitions

* `Engine.Alike`, `Work.Alike`, `Rx.Alike` — equal up to the sweep bounds.

## Main results

* `Rx.Alike.onPacket` — **a packet keeps the relation**.
-/

namespace Mqvpn.Reorder

/-- `e'` is `e` up to the sweep bounds. -/
def Engine.Alike (e e' : Engine) : Prop :=
  ∃ gap idle, e' = { e with nextGapUs := gap, nextIdleUs := idle }

/-- The same for an engine at work on a flow. -/
def Work.Alike (w w' : Work) : Prop :=
  ∃ gap idle, w' = { w with rx := { w.rx with nextGapUs := gap, nextIdleUs := idle } }

theorem Engine.Alike.refl (e : Engine) : e.Alike e := ⟨e.nextGapUs, e.nextIdleUs, rfl⟩

theorem Engine.Alike.trans {e e' e'' : Engine} (h : e.Alike e') (h' : e'.Alike e'') :
    e.Alike e'' := by
  obtain ⟨_, _, rfl⟩ := h
  obtain ⟨gap, idle, rfl⟩ := h'
  exact ⟨gap, idle, rfl⟩

theorem Engine.Alike.work {e e' : Engine} (h : e.Alike e') (f : Flow) :
    Work.Alike { rx := e, f := f } { rx := e', f := f } := by
  obtain ⟨gap, idle, rfl⟩ := h
  exact ⟨gap, idle, rfl⟩

theorem Engine.Alike.poolRelease {e e' : Engine} (h : e.Alike e') (len : ℕ) :
    (poolRelease len e).Alike (poolRelease len e') := by
  obtain ⟨gap, idle, rfl⟩ := h
  unfold Reorder.poolRelease
  by_cases hle : len ≤ e.poolBytesUsed
  · rw [if_pos hle, if_pos hle]
    exact ⟨gap, idle, rfl⟩
  · rw [if_neg hle, if_neg hle]
    exact ⟨gap, idle, rfl⟩

/-- The same outcome, up to the bounds. -/
def OutAlike (r r' : ProcessResult × Work) : Prop := r'.1 = r.1 ∧ r.2.Alike r'.2

variable {w w' : Work} {a : Arrival}

namespace Work.Alike

variable (h : w.Alike w')

include h

theorem rx : w.rx.Alike w'.rx := by
  obtain ⟨gap, idle, rfl⟩ := h
  exact ⟨gap, idle, rfl⟩

theorem f : w'.f = w.f := by
  obtain ⟨_, _, rfl⟩ := h
  rfl

theorem cfg : w'.rx.cfg = w.rx.cfg := by
  obtain ⟨_, _, rfl⟩ := h
  rfl

theorem pool : w'.rx.poolBytesUsed = w.rx.poolBytesUsed := by
  obtain ⟨_, _, rfl⟩ := h
  rfl

/-! ### The elementary changes -/

theorem emit (e : Event) : (w.emit e).Alike (w'.emit e) := by
  obtain ⟨gap, idle, rfl⟩ := h
  exact ⟨gap, idle, rfl⟩

/-- A change of the flow that looks at the flow only. -/
theorem flow (g : Flow → Flow) :
    Work.Alike { w with f := g w.f } { w' with f := g w'.f } := by
  obtain ⟨gap, idle, rfl⟩ := h
  exact ⟨gap, idle, rfl⟩

theorem tally (g : Stats → Stats) : (w.tally g).Alike (w'.tally g) :=
  h.flow fun f => { f with stats := g f.stats }

theorem setExpected (n : ℕ) :
    (w.setExpected n).Alike (w'.setExpected n) := h.flow fun f => { f with expected := n }

section
variable (now : UInt64)

theorem touch : (w.touch now).Alike (w'.touch now) :=
  h.flow fun f => { f with lastProgressUs := now }

theorem setBuffer (r : Ring) : (w.setBuffer r).Alike (w'.setBuffer r) :=
  h.flow fun f => { f with buffer := r }

theorem stopGapTimer : (stopGapTimer w).Alike (stopGapTimer w') :=
  h.flow fun f => { f with gapTimerActive := false }

theorem release (len : ℕ) : (w.release len).Alike (w'.release len) := by
  obtain ⟨gap, idle, heq⟩ := h.rx.poolRelease len
  refine ⟨gap, idle, ?_⟩
  rw [Work.release, heq, h.f]
  rfl

theorem deliverPkt (seq : ℕ) (pkt : Packet) (now enq : UInt64) :
    (deliverPkt seq pkt now enq w).Alike (deliverPkt seq pkt now enq w') := by
  unfold Reorder.deliverPkt
  rw [h.f]
  exact (h.emit _).tally _

/-- Arming writes the bound, and nothing else depends on it. -/
theorem armGapTimer (waitMs : UInt32) :
    (armGapTimer now waitMs w).Alike (armGapTimer now waitMs w') := by
  obtain ⟨gap, idle, rfl⟩ := h
  exact ⟨_, idle, rfl⟩

/-! ### Periods -/

theorem periodEndIfDone (c : GapEnd) :
    (periodEndIfDone c w).Alike (periodEndIfDone c w') := by
  unfold Reorder.periodEndIfDone
  rw [h.f]
  split
  · exact (h.tally _).stopGapTimer
  · exact h

theorem periodStartIfNeeded : (periodStartIfNeeded now w).Alike (periodStartIfNeeded now w') := by
  unfold Reorder.periodStartIfNeeded
  rw [h.f]
  split
  · have hmark := h.flow fun f => { f with reord := f.rxNext }
    rw [h.f] at hmark
    exact (hmark.armGapTimer now w.f.waitMs).tally _
  · exact h

theorem chargeIfActive (c : GapEnd) :
    (chargeIfActive c w).Alike (chargeIfActive c w') := by
  unfold Reorder.chargeIfActive
  rw [h.f]
  split
  · exact h.tally _
  · exact h

/-! ### Draining and skipping -/

theorem drainStep : Option.Rel Work.Alike (drainStep now w) (drainStep now w') := by
  unfold Reorder.drainStep
  rw [h.f]
  cases ringRemove w.f.buffer w.f.expected with
  | none => exact Option.Rel.none
  | some r =>
    obtain ⟨x, buffer⟩ := r
    have hout := ((h.setBuffer buffer).deliverPkt w.f.expected x.pkt now x.enqueueUs).release x.len
    simp only
    rw [hout.f]
    exact Option.Rel.some (hout.setExpected _)

theorem drainContiguous : (drainContiguous now w).Alike (drainContiguous now w') := by
  unfold Reorder.drainContiguous
  rw [h.f]
  exact Loop.run_rel (fun _ _ hv => hv.drainStep now) _ w w' h

/-- Skipping to the lowest packet and draining, as three loops do. -/
theorem skipAndDrain :
    (Reorder.drainContiguous now (w.setExpected (ringLowestSeq w.f.buffer w.f.expected))).Alike
      (Reorder.drainContiguous now (w'.setExpected (ringLowestSeq w'.f.buffer w'.f.expected))) := by
  rw [h.f]
  exact (h.setExpected _).drainContiguous now

theorem timeoutStep : Option.Rel Work.Alike (timeoutStep now w) (timeoutStep now w') := by
  have hskip := h.skipAndDrain now
  unfold Reorder.timeoutStep
  rw [h.f] at hskip ⊢
  split
  · exact Option.Rel.some hskip
  · exact Option.Rel.none

/-- **A timeout does not look at the bounds.** -/
theorem onGapTimeout : (onGapTimeout now w).Alike (onGapTimeout now w') := by
  unfold Reorder.onGapTimeout
  rw [h.f]
  split
  · exact h.stopGapTimer
  · have hstart := (h.emit (.timedOut w.f.key)).tally (·.endGap .timeout)
    have hloop := Loop.run_rel (fun _ _ hv => hv.timeoutStep now)
      w.f.buffer.size _ _ hstart
    simp only
    rw [show (Work.tally (w'.emit (.timedOut w.f.key)) (·.endGap .timeout)).f.buffer.size =
      w.f.buffer.size from by rw [hstart.f]; rfl]
    exact ((hloop.touch now).stopGapTimer).periodStartIfNeeded now

theorem overflowFlush : (overflowFlush now w).Alike (overflowFlush now w') := by
  unfold Reorder.overflowFlush
  simp only [skipToLowestAndDrain_eq]
  rw [h.f]
  exact ((((h.emit (.flushed w.f.key)).skipAndDrain now).touch now).periodEndIfDone
    .overflow).periodStartIfNeeded now

/-! ### Reset and demotion -/

theorem discardSlots (slots : List Slot) :
    (slots.foldl discardSlot w).Alike (slots.foldl discardSlot w') := by
  induction slots generalizing w w' with
  | nil => exact h
  | cons s slots ih =>
    rw [List.foldl_cons, List.foldl_cons]
    refine ih ?_
    unfold discardSlot
    split
    · exact (h.release s.len).tally _
    · exact h

theorem resetReorderFlow : (resetReorderFlow w).Alike (resetReorderFlow w') := by
  unfold Reorder.resetReorderFlow discardBufferForReset
  rw [h.f]
  have hslots := (h.chargeIfActive .reset).discardSlots w.f.buffer.slots
  have hfree := hslots.stopGapTimer.flow fun f =>
    { f with rxNext := 0, reord := 0, buffer := ringFree f.buffer }
  exact hfree.flow fun f => { f with passThrough := false, classifySeen := 0, classifyLarge := 0 }

theorem demoteStep : Option.Rel Work.Alike (demoteStep now w) (demoteStep now w') := by
  have hskip := h.skipAndDrain now
  unfold Reorder.demoteStep
  rw [h.f] at hskip ⊢
  split
  · exact Option.Rel.some hskip
  · exact Option.Rel.none

theorem flushBufferForDemote :
    (flushBufferForDemote now w).Alike (flushBufferForDemote now w') := by
  unfold Reorder.flushBufferForDemote
  rw [h.f]
  have hloop := Loop.run_rel (fun _ _ hv => hv.demoteStep now)
    w.f.buffer.size _ _ (h.chargeIfActive .demote)
  exact (hloop.touch now).stopGapTimer.flow fun f => { f with buffer := ringFree f.buffer }

end

/-! ### Admission -/

theorem dropOnPool : OutAlike (dropOnPool w) (dropOnPool w') := by
  unfold Reorder.dropOnPool
  rw [h.f]
  exact ⟨rfl, (h.tally _).emit _⟩

theorem dropOnLimit : OutAlike (dropOnLimit w) (dropOnLimit w') := by
  unfold Reorder.dropOnLimit
  rw [h.f]
  exact ⟨rfl, (h.tally _).emit _⟩

theorem dropLate : OutAlike (dropLate w) (dropLate w') := by
  obtain ⟨gap, idle, rfl⟩ := h
  exact ⟨rfl, gap, idle, rfl⟩

theorem dropFarAhead : OutAlike (dropFarAhead w) (dropFarAhead w') := by
  obtain ⟨gap, idle, rfl⟩ := h
  exact ⟨rfl, gap, idle, rfl⟩

theorem dropDuplicate : OutAlike (dropDuplicate w) (dropDuplicate w') := by
  obtain ⟨gap, idle, rfl⟩ := h
  exact ⟨rfl, gap, idle, rfl⟩

theorem commitInsert (a : Arrival) (buffer : Ring) :
    (commitInsert a buffer w).Alike (commitInsert a buffer w') := by
  obtain ⟨gap, idle, rfl⟩ := h
  exact ⟨gap, idle, rfl⟩

theorem bufferInsertCommitted :
    OutAlike (bufferInsertCommitted a w) (bufferInsertCommitted a w') := by
  unfold Reorder.bufferInsertCommitted
  rw [h.f]
  split
  · exact h.dropOnPool
  · cases ringInsert a.alloc.slots w.f.buffer a.seq a.pkt a.pkt.length w.f.expected a.now with
    | none => exact h.dropOnPool
    | some buffer => exact ⟨rfl, (h.commitInsert a buffer).periodStartIfNeeded a.now⟩

theorem deliverInOrder : OutAlike (deliverInOrder a w) (deliverInOrder a w') := by
  have hdel := h.deliverPkt a.seq a.pkt a.now a.now
  unfold Reorder.deliverInOrder
  simp only
  rw [hdel.f]
  exact ⟨rfl, ((((hdel.setExpected _).touch a.now).drainContiguous a.now).periodEndIfDone
    .filled).periodStartIfNeeded a.now⟩

theorem reclassifyAfterFlush :
    OutAlike (reclassifyAfterFlush a w) (reclassifyAfterFlush a w') := by
  unfold Reorder.reclassifyAfterFlush
  rw [h.f]
  repeat' split
  · exact h.dropLate
  · exact h.deliverInOrder
  · exact h.dropFarAhead
  · exact h.dropDuplicate
  · exact ⟨rfl, h⟩

/-- A flush, the second look, and what is done with a packet that is still ahead. -/
theorem afterFlush {k : Work → ProcessResult × Work}
    (hk : ∀ v v', v.Alike v' → OutAlike (k v) (k v')) :
    OutAlike
      (match Reorder.reclassifyAfterFlush a (Reorder.overflowFlush a.now w) with
        | (.buffered, w) => k w
        | r => r)
      (match Reorder.reclassifyAfterFlush a (Reorder.overflowFlush a.now w') with
        | (.buffered, w) => k w
        | r => r) := by
  have hre := (h.overflowFlush a.now).reclassifyAfterFlush (a := a)
  generalize Reorder.reclassifyAfterFlush a (Reorder.overflowFlush a.now w) = r at hre ⊢
  generalize Reorder.reclassifyAfterFlush a (Reorder.overflowFlush a.now w') = r' at hre ⊢
  obtain ⟨c, v⟩ := r
  obtain ⟨c', v'⟩ := r'
  obtain ⟨rfl, hv⟩ := hre
  cases c' with
  | buffered => exact hk v v' hv
  | delivered | droppedLate | droppedFarAhead | droppedLimit => exact ⟨rfl, hv⟩

theorem poolWouldExhaust (len : ℕ) :
    poolWouldExhaust len w' = poolWouldExhaust len w := by
  rw [Reorder.poolWouldExhaust, h.cfg, h.pool]
  rfl

theorem admitPool : OutAlike (admitPool a w) (admitPool a w') := by
  unfold Reorder.admitPool
  rw [h.f, h.poolWouldExhaust]
  split
  · split
    · exact h.dropOnPool
    · refine h.afterFlush fun v v' hv => ?_
      rw [hv.poolWouldExhaust]
      split
      · exact hv.dropOnPool
      · exact hv.bufferInsertCommitted
  · exact h.bufferInsertCommitted

theorem bufferAdmit : OutAlike (bufferAdmit a w) (bufferAdmit a w') := by
  have hlimit : wouldExceedPerFlowLimits a.pkt.length w' =
      wouldExceedPerFlowLimits a.pkt.length w := by
    rw [wouldExceedPerFlowLimits, h.f, h.cfg]
    rfl
  unfold Reorder.bufferAdmit
  rw [h.f, hlimit]
  split
  · exact h.dropDuplicate
  · split
    · split
      · exact h.dropOnLimit
      · exact h.afterFlush fun v v' hv => hv.admitPool
    · exact h.admitPool

/-! ### One packet -/

theorem startEpoch : (startEpoch a w).Alike (startEpoch a w') :=
  (((h.flow fun f => { f with initialized := true }).deliverPkt a.seq a.pkt a.now a.now).setExpected
    (a.seq + 1)).touch a.now

theorem processReorderPacket :
    OutAlike (processReorderPacket a w) (processReorderPacket a w') := by
  unfold Reorder.processReorderPacket
  rw [h.f]
  repeat' split
  · exact ⟨rfl, h.startEpoch⟩
  · exact h.deliverInOrder
  · exact h.dropLate
  · exact h.dropFarAhead
  · exact h.bufferAdmit

theorem classifyAndDemote : (classifyAndDemote a w).Alike (classifyAndDemote a w') := by
  have hcl : (classifyUpdate a.pkt w').1 = (classifyUpdate a.pkt w).1 ∧
      (classifyUpdate a.pkt w).2.Alike (classifyUpdate a.pkt w').2 := by
    obtain ⟨gap, idle, rfl⟩ := h
    unfold classifyUpdate
    simp only
    split
    · exact ⟨rfl, gap, idle, rfl⟩
    · split
      · exact ⟨rfl, gap, idle, rfl⟩
      · exact ⟨rfl, gap, idle, rfl⟩
  -- both sides answer alike, so they take the same branch
  unfold Reorder.classifyAndDemote
  generalize classifyUpdate a.pkt w = r at hcl ⊢
  generalize classifyUpdate a.pkt w' = r' at hcl ⊢
  obtain ⟨c, v⟩ := r
  obtain ⟨c', v'⟩ := r'
  simp only at hcl
  obtain ⟨rfl, hv⟩ := hcl
  cases c' with
  | false => exact hv
  | true =>
    obtain ⟨gap, idle, heq⟩ := hv.flushBufferForDemote a.now
    simp only
    rw [heq]
    exact ⟨gap, idle, rfl⟩

/-- **A packet of a flow does not look at the bounds.** -/
theorem onReordered : (onReordered a w).Alike (onReordered a w') := by
  have hdisp : (dispatch a w).Alike (dispatch a w') := by
    obtain ⟨gap, idle, rfl⟩ := h
    exact ⟨gap, idle, rfl⟩
  have hreset : resetHonoured a (dispatch a w') = resetHonoured a (dispatch a w) := by
    rw [resetHonoured, hdisp.f, hdisp.cfg]
    rfl
  unfold Reorder.onReordered
  simp only
  rw [hreset, hdisp.f]
  split
  · exact ((hdisp.resetReorderFlow).emit _).startEpoch
  · split
    · exact (hdisp.deliverPkt a.seq a.pkt a.now a.now).touch a.now
    · obtain ⟨hres, hout⟩ := hdisp.processReorderPacket (a := a)
      rw [hres]
      split
      · exact hout.classifyAndDemote
      · exact hout

end Work.Alike

theorem Engine.Alike.flowDestroy {e e' : Engine} (h : e.Alike e') (f : Flow) :
    (flowDestroy e f).Alike (flowDestroy e' f) := by
  have hslots : ∀ (slots : List Slot) (e e' : Engine), e.Alike e' →
      (releaseSlots slots e).Alike (releaseSlots slots e') := by
    intro slots
    induction slots with
    | nil => intro e e' h; exact h
    | cons s slots ih =>
      intro e e' h
      unfold releaseSlots at ih ⊢
      rw [List.foldl_cons, List.foldl_cons]
      refine ih _ _ ?_
      split
      · exact h.poolRelease s.len
      · exact h
  obtain ⟨gap, idle, rfl⟩ := h
  obtain ⟨gap', idle', heq⟩ := hslots f.buffer.slots
    { e with evictedStats := statsAccumulate e.evictedStats f.stats } _ ⟨gap, idle, rfl⟩
  refine ⟨gap', idle', ?_⟩
  unfold Reorder.flowDestroy
  simp only
  rw [heq]
  rfl

theorem Engine.Alike.drop {e e' : Engine} (h : e.Alike e') (f : Flow) :
    (e.drop f).Alike (e'.drop f) := by
  obtain ⟨gap, idle, heq⟩ := h.flowDestroy f
  refine ⟨gap, idle, ?_⟩
  rw [Engine.drop, heq]
  rfl

/-! ### The table -/

/-- The same engine and the same table, up to the sweep bounds. -/
def Rx.Alike (rx rx' : Rx) : Prop := rx.toEngine.Alike rx'.toEngine ∧ rx'.buckets = rx.buckets

variable {rx rx' : Rx}

theorem Rx.Alike.refl (rx : Rx) : rx.Alike rx := ⟨Engine.Alike.refl _, rfl⟩

variable (h : rx.Alike rx')
include h

theorem Rx.Alike.flows : rx'.flows = rx.flows := by
  rw [Rx.flows, h.2]
  rfl

theorem Rx.Alike.withFlow {g : Work → Work} (hg : ∀ w w' : Work, w.Alike w' → (g w).Alike (g w'))
    (f : Flow) : (rx.withFlow f g).Alike (rx'.withFlow f g) := by
  have hout := hg _ _ (h.1.work f)
  unfold Rx.withFlow
  refine ⟨hout.rx, ?_⟩
  simp only
  rw [hout.f, h.2]

theorem Rx.Alike.flowLookup (key : FlowKey) : flowLookup rx' key = flowLookup rx key := by
  obtain ⟨⟨gap, idle, heq⟩, hbuckets⟩ := h
  rw [Reorder.flowLookup, hbuckets, heq]
  rfl

theorem Rx.Alike.evict (f : Flow) : (rx.evict f).Alike (rx'.evict f) :=
  ⟨h.1.drop f, by rw [Rx.evict, h.2]; rfl⟩

theorem Rx.Alike.makeRoom : rx.makeRoom.Alike rx'.makeRoom := by
  have hfull : rx'.full = rx.full := by
    obtain ⟨⟨gap, idle, heq⟩, -⟩ := h
    rw [Rx.full, heq]
    rfl
  unfold Rx.makeRoom evictLruFlow
  rw [hfull, h.flows]
  split
  · cases lruVictim rx.flows with
    | none => exact h
    | some victim => exact h.evict victim
  · exact h

theorem Rx.Alike.create (key : FlowKey) : (rx.create key).Alike (rx'.create key) := by
  obtain ⟨⟨gap, idle, heq⟩, hbuckets⟩ := h
  unfold Rx.create
  rw [heq, hbuckets]
  exact ⟨⟨gap, 0, rfl⟩, rfl⟩

theorem Rx.Alike.toFlow (key : FlowKey) (a : Arrival) :
    (rx.toFlow key a).Alike (rx'.toFlow key a) := by
  have hcfg : rx'.makeRoom.cfg = rx.makeRoom.cfg := by
    obtain ⟨⟨gap, idle, heq⟩, -⟩ := h.makeRoom
    rw [heq]
  unfold Rx.toFlow flowGetOrCreate
  rw [h.flowLookup key]
  cases Reorder.flowLookup rx key with
  | some f => exact h.withFlow (fun _ _ hw => hw.onReordered) f
  | none =>
    simp only
    rw [hcfg]
    cases a.alloc.flow with
    | false => exact h.makeRoom
    | true => exact (h.makeRoom.create key).withFlow (fun _ _ hw => hw.onReordered) _

/-- **A packet does not look at the bounds.** -/
theorem Rx.Alike.onPacket (payload : Packet) (now : UInt64) (alloc : Alloc) :
    (onPacket rx payload now alloc).Alike (onPacket rx' payload now alloc) := by
  have hcfg : rx'.cfg = rx.cfg := by
    obtain ⟨⟨gap, idle, heq⟩, -⟩ := h
    rw [heq]
  have hpass : ∀ pkt, (rx.pass pkt).Alike (rx'.pass pkt) := by
    intro pkt
    obtain ⟨⟨gap, idle, heq⟩, hbuckets⟩ := h
    refine ⟨⟨gap, idle, ?_⟩, hbuckets⟩
    rw [Rx.pass, heq]
    rfl
  -- every test on the way reads the packet or the configuration
  unfold Reorder.onPacket onInner
  cases wireDecode payload with
  | none => exact h
  | some d =>
    obtain ⟨type, flags, seq⟩ := d
    simp only
    rw [hcfg]
    split
    · exact h
    · split
      · exact h
      · split
        · exact hpass _
        · cases parse5tuple (payload.drop hdrLen) with
          | none => exact h
          | some key =>
            simp only
            split
            · exact hpass _
            · exact h.toFlow key _

end Mqvpn.Reorder
