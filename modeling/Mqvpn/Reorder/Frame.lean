import Mqvpn.Reorder.Trace

/-!
# What work on one flow can touch

Every per-flow function of the engine stays within the same bounds, whatever state it
is called in: it never changes the configuration, the table counters or the idle
bound, it adds to the trace only events about its flow, and it can only lower the
bound on the next gap deadline — below every deadline it sets.  `Within` says so once;
everything the engine needs to know about the *other* flows follows from it.

Both entry points are built from a few elementary changes: whatever relation admits
these holds between the work before and after, `Within` among others.

## Main definitions

* `Within now w w'` — `w'` came out of work on the flow of `w` at time `now`.
* `Elementary now R` — the relation `R` admits the elementary changes.

## Main results

* `Elementary.onReordered`, `Elementary.onGapTimeout` — the rule for the entry points.
* `within_onReordered`, `within_onGapTimeout` — **both entry points stay within**.
-/

namespace Mqvpn.Reorder

/-- What work on the flow of `w` at time `now` may have done. -/
structure Within (now : UInt64) (w w' : Work) : Prop where
  key : w'.f.key = w.f.key
  cap : w'.f.buffer.cap = w.f.buffer.cap
  waitMs : w'.f.waitMs = w.f.waitMs
  cfg : w'.rx.cfg = w.rx.cfg
  hashSeed : w'.rx.hashSeed = w.rx.hashSeed
  nFlows : w'.rx.nFlows = w.rx.nFlows
  nextIdle : w'.rx.nextIdleUs = w.rx.nextIdleUs
  evicted : w'.rx.evictedStats = w.rx.evictedStats
  /-- The trace grew by events about the flow. -/
  trace : ∃ es, w'.rx.trace = w.rx.trace ++ es ∧ ∀ e ∈ es, e.About w.f.key
  /-- The bound on the next deadline can only drop. -/
  nextGap : w'.rx.nextGapUs ≤ w.rx.nextGapUs
  /-- A running timer is covered by the bound, unless it is the one that ran before. -/
  timer : w'.f.gapTimerActive = true → w'.rx.nextGapUs ≤ w'.f.gapDeadlineUs ∨
    w.f.gapTimerActive = true ∧ w'.f.gapDeadlineUs = w.f.gapDeadlineUs
  /-- Progress is recorded at the present time or not at all. -/
  progress : w'.f.lastProgressUs = w.f.lastProgressUs ∨ w'.f.lastProgressUs = now

variable {now : UInt64} {w w' w'' : Work}

theorem Within.refl (now : UInt64) (w : Work) : Within now w w where
  key := rfl
  cap := rfl
  waitMs := rfl
  cfg := rfl
  hashSeed := rfl
  nFlows := rfl
  nextIdle := rfl
  evicted := rfl
  trace := ⟨[], by simp, by simp⟩
  nextGap := UInt64.le_refl _
  timer := fun h => Or.inr ⟨h, rfl⟩
  progress := Or.inl rfl

theorem Within.trans (h : Within now w w') (h' : Within now w' w'') : Within now w w'' where
  key := h'.key.trans h.key
  cap := h'.cap.trans h.cap
  waitMs := h'.waitMs.trans h.waitMs
  cfg := h'.cfg.trans h.cfg
  hashSeed := h'.hashSeed.trans h.hashSeed
  nFlows := h'.nFlows.trans h.nFlows
  nextIdle := h'.nextIdle.trans h.nextIdle
  evicted := h'.evicted.trans h.evicted
  trace := by
    obtain ⟨es, hes, habout⟩ := h.trace
    obtain ⟨es', hes', habout'⟩ := h'.trace
    refine ⟨es ++ es', by rw [hes', hes, List.append_assoc], fun e he => ?_⟩
    rcases List.mem_append.mp he with he | he
    · exact habout e he
    · rw [← h.key]; exact habout' e he
  nextGap := UInt64.le_trans h'.nextGap h.nextGap
  timer := by
    intro hact
    rcases h'.timer hact with hle | ⟨hact', hdl⟩
    · exact Or.inl hle
    · rcases h.timer hact' with hle | ⟨hact'', hdl'⟩
      · -- armed in the first part: the second can only lower the bound
        left
        rw [hdl]
        exact UInt64.le_trans h'.nextGap hle
      · exact Or.inr ⟨hact'', hdl.trans hdl'⟩
  progress := by
    rcases h'.progress with hp | hp
    · rw [hp]; exact h.progress
    · exact Or.inr hp

/-! ### The elementary changes -/

theorem drainStep_some (h : drainStep now w = some w') : ∃ x buffer,
    ringRemove w.f.buffer w.f.expected = some (x, buffer) ∧
      w' = ((deliverPkt w.f.expected x.pkt now x.enqueueUs (w.setBuffer buffer)).release
        x.len).setExpected (w.f.expected + 1) := by
  unfold drainStep at h
  split at h
  · cases h
  · next x buffer hrem => exact ⟨x, buffer, hrem, (Option.some.inj h).symm⟩

theorem drainStep_eq_none :
    drainStep now w = none ↔ ringRemove w.f.buffer w.f.expected = none := by
  unfold drainStep
  split <;> simp [*]

/-- A timeout before it delivers anything. -/
def Work.timedOut (w : Work) : Work := (w.emit (.timedOut w.f.key)).tally (·.endGap .timeout)

/-- A flush before it delivers anything: the frontier is behind the head gap. -/
def Work.flushing (w : Work) : Work :=
  (w.emit (.flushed w.f.key)).setExpected (ringLowestSeq w.f.buffer w.f.expected)

/-- A change of the flow that leaves its identity alone, stops its timer at most, and
records progress at the present time at most. -/
structure Mild (now : UInt64) (f g : Flow) : Prop where
  key : g.key = f.key
  cap : g.buffer.cap = f.buffer.cap
  waitMs : g.waitMs = f.waitMs
  lastSeen : g.lastSeenUs = f.lastSeenUs
  timer : g.gapTimerActive = true → f.gapTimerActive = true ∧
    g.gapArmedUs = f.gapArmedUs ∧ g.gapDeadlineUs = f.gapDeadlineUs
  progress : g.lastProgressUs = f.lastProgressUs ∨ g.lastProgressUs = now

/-- The relation `R` between two states of the work on a flow at time `now` admits every
change the functions of the engine are made of; once a packet has been dispatched no
other is, so the events are not arrivals. -/
structure Elementary (now : UInt64) (R : Work → Work → Prop) : Prop where
  refl : ∀ w, R w w
  trans : ∀ {w w' w''}, R w w' → R w' w'' → R w w''
  emit : ∀ {w e}, e.About w.f.key → (∀ k acc, arrivalsStep k acc e = acc) → R w (w.emit e)
  pool : ∀ w pool, R w { w with rx := { w.rx with poolBytesUsed := pool } }
  flow : ∀ {w g}, Mild now w.f g → R w { w with f := g }
  arm : ∀ w, R w (armGapTimer now w.f.waitMs w)

theorem mild_refl (now : UInt64) (f : Flow) : Mild now f f :=
  ⟨rfl, rfl, rfl, rfl, fun h => ⟨h, rfl, rfl⟩, Or.inl rfl⟩

/-- A round of a loop skips to the lowest number held and drains. -/
def Skips (now : UInt64) (step : Work → Option Work) : Prop :=
  ∀ v v', step v = some v' → ringEmpty v.f.buffer = false ∧
    v' = drainContiguous now (v.setExpected (ringLowestSeq v.f.buffer v.f.expected))

theorem skips_timeoutStep (now : UInt64) : Skips now (timeoutStep now) := by
  intro v v' h
  unfold timeoutStep at h
  split at h
  · next hcond =>
    rw [Bool.and_eq_true, Bool.not_eq_true'] at hcond
    exact ⟨hcond.1, (Option.some.inj h).symm⟩
  · cases h

theorem skips_demoteStep (now : UInt64) : Skips now (demoteStep now) := by
  intro v v' h
  unfold demoteStep at h
  split at h
  · next hne => exact ⟨by simpa using hne, (Option.some.inj h).symm⟩
  · cases h

namespace Elementary

variable {R : Work → Work → Prop} {a : Arrival} (hR : Elementary now R)

include hR

theorem tally (g : Stats → Stats) : R w (w.tally g) :=
  hR.flow { mild_refl now w.f with }

theorem setExpected (n : ℕ) : R w (w.setExpected n) :=
  hR.flow { mild_refl now w.f with }

theorem touch : R w (w.touch now) :=
  hR.flow { mild_refl now w.f with progress := Or.inr rfl }

theorem setBuffer {r : Ring} (hcap : r.cap = w.f.buffer.cap) : R w (w.setBuffer r) :=
  hR.flow { mild_refl now w.f with cap := hcap }

theorem stopGapTimer : R w (stopGapTimer w) :=
  hR.flow { mild_refl now w.f with timer := fun h => Bool.noConfusion h }

theorem release (len : ℕ) : R w (w.release len) := by
  unfold Work.release poolRelease
  split
  · exact hR.pool w _
  · exact hR.trans (hR.pool w 0) (hR.emit (e := .clamped) trivial fun _ _ => rfl)

theorem deliverPkt (seq : ℕ) (pkt : Packet) (enq : UInt64) : R w (deliverPkt seq pkt now enq w) :=
  hR.trans (hR.emit (e := .delivered w.f.key seq pkt) rfl fun _ _ => rfl) (hR.tally _)

/-! #### Periods -/

theorem periodEndIfDone (c : GapEnd) : R w (periodEndIfDone c w) := by
  unfold Reorder.periodEndIfDone
  split
  · exact hR.trans (hR.tally _) hR.stopGapTimer
  · exact hR.refl w

theorem periodStartIfNeeded : R w (periodStartIfNeeded now w) := by
  unfold Reorder.periodStartIfNeeded
  split
  · have hmark : R w { w with f := { w.f with reord := w.f.rxNext } } :=
      hR.flow { mild_refl now w.f with }
    exact hR.trans (hR.trans hmark (hR.arm _)) (hR.tally _)
  · exact hR.refl w

theorem chargeIfActive (c : GapEnd) : R w (chargeIfActive c w) := by
  unfold Reorder.chargeIfActive
  split
  · exact hR.tally _
  · exact hR.refl w

/-! #### Draining and skipping -/

theorem drainStep (h : drainStep now w = some w') : R w w' := by
  obtain ⟨x, buffer, hrem, rfl⟩ := drainStep_some h
  have hcap : buffer.cap = w.f.buffer.cap := by
    obtain ⟨-, -, -, -, rfl⟩ := ringRemove_some hrem
    rfl
  exact hR.trans (hR.trans (hR.trans (hR.setBuffer hcap) (hR.deliverPkt _ _ _))
    (hR.release x.len)) (hR.setExpected _)

theorem drainContiguous : R w (drainContiguous now w) :=
  Loop.run_inv (P := fun v => R w v) (fun _ _ h hs => hR.trans h (hR.drainStep hs)) _ w (hR.refl w)

theorem skipToLowestAndDrain : R w (skipToLowestAndDrain now w) := by
  unfold Reorder.skipToLowestAndDrain
  simp only
  refine hR.trans (hR.trans ?_ hR.drainContiguous) hR.touch
  split
  · exact hR.setExpected _
  · exact hR.refl w

/-- The loop of a timeout or of a demotion. -/
theorem loop {step : Work → Option Work} (hstep : Skips now step) {v : Work} (h : R w v) (n : ℕ) :
    R w (Loop.run step n v) := by
  refine Loop.run_inv (P := fun v => R w v) (fun v v' h hs => ?_) n v h
  obtain ⟨-, rfl⟩ := hstep v v' hs
  exact hR.trans h (hR.trans (hR.setExpected _) hR.drainContiguous)

/-- **A timeout is made of elementary changes.** -/
theorem onGapTimeout (w : Work) : R w (onGapTimeout now w) := by
  unfold Reorder.onGapTimeout
  split
  · exact hR.stopGapTimer
  · have hcharge : R w w.timedOut :=
      hR.trans (hR.emit (e := .timedOut w.f.key) rfl fun _ _ => rfl) (hR.tally _)
    have hloop := hR.loop (skips_timeoutStep now) hcharge w.f.buffer.size
    exact hR.trans (hR.trans (hR.trans hloop hR.touch) hR.stopGapTimer) hR.periodStartIfNeeded

theorem overflowFlush : R w (overflowFlush now w) :=
  hR.trans (hR.trans (hR.trans (hR.emit (e := .flushed w.f.key) rfl fun _ _ => rfl)
    hR.skipToLowestAndDrain) (hR.periodEndIfDone .overflow)) hR.periodStartIfNeeded

/-! #### Reset and demotion -/

theorem discardSlot (s : Slot) : R w (discardSlot w s) := by
  unfold Reorder.discardSlot
  split
  · exact hR.trans (hR.release s.len) (hR.tally _)
  · exact hR.refl w

theorem discardSlots (slots : List Slot) : R w (slots.foldl Reorder.discardSlot w) := by
  induction slots generalizing w with
  | nil => exact hR.refl w
  | cons s slots ih => exact hR.trans (hR.discardSlot s) ih

theorem resetReorderFlow (w : Work) : R w (resetReorderFlow w) := by
  have hslots : R w
      (w.f.buffer.slots.foldl Reorder.discardSlot (Reorder.chargeIfActive .reset w)) :=
    hR.trans (hR.chargeIfActive .reset) (hR.discardSlots _)
  refine hR.trans (hR.trans (hR.trans hslots hR.stopGapTimer) ?_)
    (hR.flow { mild_refl now _ with })
  exact hR.flow { mild_refl now _ with }

theorem flushBufferForDemote : R w (flushBufferForDemote now w) := by
  have hloop := hR.loop (skips_demoteStep now) (hR.chargeIfActive (w := w) .demote) w.f.buffer.size
  exact hR.trans (hR.trans (hR.trans hloop hR.touch) hR.stopGapTimer) (hR.setBuffer rfl)

/-! #### Drops and the classifier -/

theorem dropOnPool : R w (dropOnPool w).2 :=
  hR.trans (hR.tally _) (hR.emit rfl fun _ _ => rfl)

theorem dropOnLimit : R w (dropOnLimit w).2 :=
  hR.trans (hR.tally _) (hR.emit rfl fun _ _ => rfl)

theorem dropLate : R w (dropLate w).2 := by
  simp only [Reorder.dropLate]
  exact hR.tally _

theorem dropFarAhead : R w (dropFarAhead w).2 := by
  simp only [Reorder.dropFarAhead]
  exact hR.tally _

theorem dropDuplicate : R w (dropDuplicate w).2 := by
  simp only [Reorder.dropDuplicate]
  exact hR.tally _

theorem classifyUpdate (pkt : Packet) (w : Work) : R w (classifyUpdate pkt w).2 := by
  unfold Reorder.classifyUpdate
  split
  · exact hR.refl w
  · split
    · exact hR.refl w
    · exact hR.flow { mild_refl now w.f with }

end Elementary

/-- What insertion does to a ring in any state. -/
theorem ringInsert_frame {alloc : Bool} {r r' : Ring} {seq : ℕ} {pkt : Packet} {len e : ℕ}
    {t : UInt64} (h : ringInsert alloc r seq pkt len e t = some r') :
    r'.cap = r.cap ∧ r'.bytes = r.bytes + len := by
  unfold ringInsert at h
  obtain ⟨g, hg, rfl⟩ := Option.map_eq_some_iff.mp h
  split at hg
  · unfold ringGrowToCover at hg
    simp only at hg
    generalize (if growWant r (seq - e) < r.size then r.size else growWant r (seq - e)) = want at hg
    split at hg
    · obtain rfl := Option.some.inj hg
      exact ⟨rfl, rfl⟩
    · split at hg
      · obtain rfl := Option.some.inj hg
        exact ⟨rfl, rfl⟩
      · cases hg
  · obtain rfl := Option.some.inj hg
    exact ⟨rfl, rfl⟩

/-! ### One packet -/

namespace Elementary

variable {a : Arrival} {R : Work → Work → Prop} (hR : Elementary a.now R)

include hR

theorem commitInsert {buffer : Ring} (hcap : buffer.cap = w.f.buffer.cap) :
    R w (commitInsert a buffer w) :=
  hR.trans (hR.pool w _) (hR.flow { mild_refl a.now w.f with cap := hcap, progress := Or.inr rfl })

theorem bufferInsertCommitted : R w (bufferInsertCommitted a w).2 := by
  unfold Reorder.bufferInsertCommitted
  split
  · exact hR.dropOnPool
  · split
    · exact hR.dropOnPool
    · next buffer hins =>
      exact hR.trans (hR.commitInsert (ringInsert_frame hins).1) hR.periodStartIfNeeded

theorem deliverInOrder : R w (deliverInOrder a w).2 :=
  hR.trans (hR.trans (hR.trans (hR.trans (hR.trans (hR.deliverPkt a.seq a.pkt a.now)
    (hR.setExpected _)) hR.touch) hR.drainContiguous) (hR.periodEndIfDone .filled))
    hR.periodStartIfNeeded

theorem reclassifyAfterFlush : R w (reclassifyAfterFlush a w).2 := by
  unfold Reorder.reclassifyAfterFlush
  repeat' split
  · exact hR.dropLate
  · exact hR.deliverInOrder
  · exact hR.dropFarAhead
  · exact hR.dropDuplicate
  · exact hR.refl w

theorem flushAndReclassify :
    R w (Reorder.reclassifyAfterFlush a (Reorder.overflowFlush a.now w)).2 :=
  hR.trans hR.overflowFlush hR.reclassifyAfterFlush

theorem admitPool : R w (admitPool a w).2 := by
  unfold Reorder.admitPool
  split
  · split
    · exact hR.dropOnPool
    · have hre := hR.flushAndReclassify (w := w)
      split
      · next w₁ heq =>
        rw [heq] at hre
        split
        · exact hR.trans hre hR.dropOnPool
        · exact hR.trans hre hR.bufferInsertCommitted
      · exact hre
  · exact hR.bufferInsertCommitted

theorem bufferAdmit : R w (bufferAdmit a w).2 := by
  unfold Reorder.bufferAdmit
  split
  · exact hR.dropDuplicate
  · split
    · split
      · exact hR.dropOnLimit
      · have hre := hR.flushAndReclassify (w := w)
        split
        · next w₁ heq =>
          rw [heq] at hre
          exact hR.trans hre hR.admitPool
        · exact hre
    · exact hR.admitPool

theorem startEpoch : R w (startEpoch a w) := by
  have hinit : R w { w with f := { w.f with initialized := true } } :=
    hR.flow { mild_refl a.now w.f with }
  exact hR.trans (hR.trans (hR.trans hinit (hR.deliverPkt a.seq a.pkt a.now)) (hR.setExpected _))
    hR.touch

theorem processReorderPacket : R w (processReorderPacket a w).2 := by
  unfold Reorder.processReorderPacket
  repeat' split
  · exact hR.startEpoch
  · exact hR.deliverInOrder
  · exact hR.dropLate
  · exact hR.dropFarAhead
  · exact hR.bufferAdmit

theorem classifyAndDemote : R w (classifyAndDemote a w) := by
  unfold Reorder.classifyAndDemote
  have hcl := hR.classifyUpdate a.pkt w
  split
  · next w₁ heq => rw [heq] at hcl; exact hcl
  · next w₁ heq =>
    rw [heq] at hcl
    have hpass : R (Reorder.flushBufferForDemote a.now w₁)
        { Reorder.flushBufferForDemote a.now w₁ with
          f := { (Reorder.flushBufferForDemote a.now w₁).f with passThrough := true } } :=
      hR.flow { mild_refl a.now _ with }
    exact hR.trans (hR.trans (hR.trans (hR.trans hcl hR.flushBufferForDemote) hpass) (hR.tally _))
      (hR.emit rfl fun _ _ => rfl)

end Elementary

/-! ### Staying within a flow -/

theorem elementary_within (now : UInt64) : Elementary now (Within now) where
  refl := Within.refl now
  trans := Within.trans
  emit := fun {w e} he _ => { Within.refl now w with trace := ⟨[e], rfl, by simpa using he⟩ }
  pool := fun w _ => { Within.refl now w with }
  flow := fun {w _} h =>
    { Within.refl now w with
      key := h.key, cap := h.cap, waitMs := h.waitMs
      timer := fun hact => Or.inr ⟨(h.timer hact).1, (h.timer hact).2.2⟩
      progress := h.progress }
  arm := fun w =>
    { Within.refl now w with
      trace := ⟨[], by simp [armGapTimer], by simp⟩
      nextGap := by
        simp only [armGapTimer]
        split
        · next h => exact UInt64.le_of_lt h
        · exact UInt64.le_refl _
      timer := by
        intro _
        left
        simp only [armGapTimer]
        split
        · exact UInt64.le_refl _
        · next h => exact UInt64.not_lt.mp h
      progress := Or.inl rfl }

theorem within_periodStartIfNeeded : Within now w (periodStartIfNeeded now w) :=
  (elementary_within now).periodStartIfNeeded

theorem within_drainContiguous : Within now w (drainContiguous now w) :=
  (elementary_within now).drainContiguous

theorem within_resetReorderFlow (now : UInt64) (w : Work) : Within now w (resetReorderFlow w) :=
  (elementary_within now).resetReorderFlow w

/-- **A timeout stays within its flow.** -/
theorem within_onGapTimeout (now : UInt64) (w : Work) : Within now w (onGapTimeout now w) :=
  (elementary_within now).onGapTimeout w

section
variable {a : Arrival}

/-- **A dispatched packet is dealt with by elementary changes.** -/
theorem Elementary.onReordered {R : Work → Work → Prop} (hR : Elementary a.now R) :
    R (dispatch a w) (onReordered a w) := by
  unfold Reorder.onReordered
  simp only
  split
  · have hkey := (within_resetReorderFlow a.now (dispatch a w)).key
    exact hR.trans (hR.trans (hR.resetReorderFlow _)
      (hR.emit (e := .reset w.f.key) hkey.symm fun _ _ => rfl)) hR.startEpoch
  · split
    · exact hR.trans (hR.deliverPkt a.seq a.pkt a.now) hR.touch
    · split
      · exact hR.trans hR.processReorderPacket hR.classifyAndDemote
      · exact hR.processReorderPacket

theorem within_dispatch : Within a.now w (dispatch a w) :=
  { Within.refl a.now w with
    trace := ⟨[.dispatched w.f.key a.seq a.pkt], rfl, by simp [Event.About]⟩ }

/-- **A dispatched packet stays within its flow.** -/
theorem within_onReordered : Within a.now w (onReordered a w) :=
  within_dispatch.trans (elementary_within a.now).onReordered

end

/-! ### Destroying a flow -/

/-- Releasing the slots of a flow touches the pool only; the trace tells if it ever
went below zero. -/
theorem releaseSlots_frame (slots : List Slot) (e : Engine) : ∃ pool es,
    releaseSlots slots e = { e with poolBytesUsed := pool, trace := e.trace ++ es } ∧
      ∀ x ∈ es, x = Event.clamped := by
  unfold releaseSlots
  induction slots generalizing e with
  | nil => exact ⟨e.poolBytesUsed, [], by simp, by simp⟩
  | cons s slots ih =>
    rw [List.foldl_cons]
    obtain ⟨pool, es, heq, hes⟩ := ih (if s.pkt.isSome then poolRelease s.len e else e)
    rw [heq]
    unfold poolRelease
    split
    · split
      · exact ⟨pool, es, rfl, hes⟩
      · refine ⟨pool, .clamped :: es, by simp [Engine.emit], ?_⟩
        simpa using hes
    · exact ⟨pool, es, rfl, hes⟩

/-- What destroying a flow leaves alone, and what it reports. -/
theorem flowDestroy_frame (e : Engine) (f : Flow) :
    (flowDestroy e f).cfg = e.cfg ∧ (flowDestroy e f).hashSeed = e.hashSeed ∧
      (flowDestroy e f).nFlows = e.nFlows ∧ (flowDestroy e f).nextGapUs = e.nextGapUs ∧
      (flowDestroy e f).nextIdleUs = e.nextIdleUs ∧
      (flowDestroy e f).evictedStats = statsAccumulate e.evictedStats f.stats ∧
      ∃ es, (flowDestroy e f).trace = e.trace ++ es ++ [.destroyed f.key f.gapTimerActive] ∧
        ∀ x ∈ es, x = Event.clamped := by
  obtain ⟨pool, es, heq, hes⟩ := releaseSlots_frame f.buffer.slots
    { e with evictedStats := statsAccumulate e.evictedStats f.stats }
  unfold flowDestroy
  simp only [heq]
  exact ⟨rfl, rfl, rfl, rfl, rfl, rfl, es, rfl, hes⟩

end Mqvpn.Reorder
