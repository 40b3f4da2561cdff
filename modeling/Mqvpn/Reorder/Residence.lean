import Mqvpn.Reorder.Timing

/-!
# How long a packet waits

A packet that is buffered while a period runs is below the mark of the period, and is
delivered when the timer runs out, or above it, and waits for a second period.  If no timer
is found running more than `δ` after its deadline, no period lasts longer than the wait and
`δ`, and nothing is held for longer than two of them.

A period that starts takes over what is left of the one before.  What is left lies above the
mark of that one, so it was buffered while it ran: at the start of a period everything held
is at most one period old.

## Main definitions

* `Aged` — the ages of the packets a flow holds, and of those it has delivered.
* `InTime`, `Prompt` — no call finds a timer running for too long.

## Main results

* `residence_bounded` — **nothing is held for longer than two periods**.
-/

namespace Mqvpn.Reorder

open List

/-! ### Slots -/

theorem mem_buffered {r : Ring} {x : Slot} : x ∈ r.buffered ↔ x ∈ r.slots ∧ x.pkt.isSome := by
  rw [Ring.buffered, Residue.occupied, mem_filter, Slot.key, Option.isSome_map]

theorem not_mem_buffered_ringFree (r : Ring) (x : Slot) : x ∉ (ringFree r).buffered := by
  rw [mem_buffered]
  rintro ⟨hx, -⟩
  cases hx

/-- A removal gives the enqueue time of a packet that was held, and adds nothing. -/
theorem ringRemove_buffered {r r' : Ring} {seq : ℕ} {x : Removed}
    (h : ringRemove r seq = some (x, r')) :
    (∃ y ∈ r.buffered, y.enqueueUs = x.enqueueUs) ∧ ∀ y ∈ r'.buffered, y ∈ r.buffered := by
  have henq : (r.slotAt seq).enqueueUs = x.enqueueUs := by
    unfold ringRemove at h
    split at h
    · cases h
    · split at h
      · cases h
      · split at h
        · cases h
        · simp only [Option.some.injEq, Prod.mk.injEq] at h
          rw [← h.1]
  obtain ⟨-, hpkt, -, -, rfl⟩ := ringRemove_some h
  refine ⟨⟨r.slotAt seq, mem_buffered.mpr ⟨?_, by rw [hpkt]; rfl⟩, henq⟩, fun y hy => ?_⟩
  · -- a default slot would be free
    rw [Ring.slotAt, getD_eq_getElem?_getD] at hpkt ⊢
    cases hget : r.slots[ringIdx r.size seq]? with
    | none => rw [hget] at hpkt; cases hpkt
    | some s => exact mem_of_getElem? hget
  · obtain ⟨hmem, hsome⟩ := mem_buffered.mp hy
    rcases mem_or_eq_of_mem_set hmem with hmem | rfl
    · exact mem_buffered.mpr ⟨hmem, hsome⟩
    · cases hsome

theorem mem_ringRehash {size : ℕ} {old : List Slot} {x : Slot} (hx : x ∈ ringRehash size old)
    (hsome : x.pkt.isSome) : x ∈ old := by
  -- over every array: what comes out was in it or is one of the slots to move
  have hfold : ∀ (l acc : List Slot),
      x ∈ l.foldl (fun acc s => if s.pkt.isSome then acc.set (ringIdx size s.seq) s else acc)
        acc → x ∈ acc ∨ x ∈ l := by
    intro l
    induction l with
    | nil => exact fun acc h => .inl h
    | cons s l ih =>
      intro acc h
      rcases ih _ h with h | h
      · simp only at h
        split at h
        · rcases mem_or_eq_of_mem_set h with h | rfl
          · exact .inl h
          · exact .inr mem_cons_self
        · exact .inl h
      · exact .inr (mem_cons_of_mem _ h)
  rcases hfold old _ hx with h | h
  · rw [eq_of_mem_replicate h] at hsome
    cases hsome
  · exact h

theorem mem_ringGrowToCover {alloc : Bool} {r g : Ring} {span : ℕ}
    (h : ringGrowToCover alloc r span = some g) {x : Slot} (hx : x ∈ g.slots)
    (hsome : x.pkt.isSome) : x ∈ r.slots := by
  unfold ringGrowToCover at h
  simp only at h
  generalize (if growWant r span < r.size then r.size else growWant r span) = want at h
  split at h
  · cases h
    exact hx
  · split at h
    · cases h
      exact mem_ringRehash hx hsome
    · cases h

/-- An insertion adds one packet, with its time. -/
theorem ringInsert_buffered {alloc : Bool} {r r' : Ring} {seq len e : ℕ} {pkt : Packet}
    {now : UInt64} (h : ringInsert alloc r seq pkt len e now = some r') :
    ∀ y ∈ r'.buffered, y ∈ r.buffered ∨ y.enqueueUs = now := by
  unfold ringInsert at h
  obtain ⟨g, hg, rfl⟩ := Option.map_eq_some_iff.mp h
  have hold : ∀ y ∈ g.slots, y.pkt.isSome → y ∈ r.slots := by
    intro y hy hsome
    split at hg
    · exact mem_ringGrowToCover hg hy hsome
    · cases hg
      exact hy
  intro y hy
  obtain ⟨hmem, hsome⟩ := mem_buffered.mp hy
  rcases mem_or_eq_of_mem_set hmem with hmem | rfl
  · exact .inl (mem_buffered.mpr ⟨hold y hmem hsome, hsome⟩)
  · exact .inr rfl

/-! ### Ages -/

/-- **The ages of the packets of a flow at time `now`.**  A running period was started at most
one period ago; what it found was at most one period old, and what lies above its mark came
later.  Without a timer nothing is held for longer than one period. -/
structure Aged (δ : ℕ) (now : UInt64) (f : Flow) : Prop where
  past : f.gapTimerActive = true → f.gapArmedUs.toNat ≤ now.toNat
  recent : f.gapTimerActive = true → now.toNat ≤ f.gapArmedUs.toNat + (f.waitUs + δ)
  due : f.gapTimerActive = true → f.gapDeadlineUs.toNat ≤ f.gapArmedUs.toNat + f.waitUs
  cohort : f.gapTimerActive = true → ∀ x ∈ f.buffer.buffered,
    f.gapArmedUs.toNat ≤ x.enqueueUs.toNat + (f.waitUs + δ)
  above : f.gapTimerActive = true → ∀ x ∈ f.buffer.buffered, f.reord ≤ x.seq →
    f.gapArmedUs.toNat ≤ x.enqueueUs.toNat
  loose : f.gapTimerActive = false → ∀ x ∈ f.buffer.buffered,
    now.toNat ≤ x.enqueueUs.toNat + (f.waitUs + δ)
  longest : f.stats.residenceMaxUs.toNat ≤ 2 * (f.waitUs + δ)

variable {δ rest hand owed : ℕ} {now t : UInt64} {f : Flow} {w w' : Work} {a : Arrival}

/-- Nothing is held for longer than two periods. -/
theorem Aged.age (h : Aged δ now f) {x : Slot} (hx : x ∈ f.buffer.buffered) :
    now.toNat ≤ x.enqueueUs.toNat + 2 * (f.waitUs + δ) := by
  cases hact : f.gapTimerActive with
  | true =>
    have := h.recent hact
    have := h.cohort hact x hx
    omega
  | false =>
    have := h.loose hact x hx
    omega

/-- Time passes, as long as a running timer is not overdue. -/
theorem Aged.later (h : Aged δ t f) (hle : t ≤ now) (hs : Settled f) (hring : RingOk f.buffer)
    (hprompt : f.gapTimerActive = true → now.toNat ≤ f.gapDeadlineUs.toNat + δ) :
    Aged δ now f :=
  { h with
    past := fun hact => (h.past hact).trans (UInt64.le_iff_toNat_le.mp hle)
    recent := by
      intro hact
      have := hprompt hact
      have := h.due hact
      omega
    loose := by
      -- a flow without a timer holds nothing
      intro hact x hx
      have hempty : ringEmpty f.buffer = false :=
        hring.not_ringEmpty (hring.has_iff.mpr ⟨x, hx, rfl⟩)
      rw [hs.armed.mpr hempty] at hact
      cases hact }

/-- A flow that holds nothing and has no timer. -/
theorem aged_of_empty (hact : f.gapTimerActive = false) (hempty : ∀ x, x ∉ f.buffer.buffered)
    (hlongest : f.stats.residenceMaxUs.toNat ≤ 2 * (f.waitUs + δ)) : Aged δ now f where
  past := fun h => absurd (hact.symm.trans h) Bool.false_ne_true
  recent := fun h => absurd (hact.symm.trans h) Bool.false_ne_true
  due := fun h => absurd (hact.symm.trans h) Bool.false_ne_true
  cohort := fun _ x hx => absurd hx (hempty x)
  above := fun _ x hx => absurd hx (hempty x)
  loose := fun _ x hx => absurd hx (hempty x)
  longest := hlongest

theorem aged_newFlow (δ : ℕ) (now : UInt64) (cfg : Config) (key : FlowKey) :
    Aged δ now (newFlow cfg key) :=
  aged_of_empty rfl (not_mem_buffered_ringFree (ringInit (cfg.flowCap key))) (Nat.zero_le _)

theorem FlowMid.le_seq {t : List Event} (h : FlowMid hand owed t f) {x : Slot}
    (hx : x ∈ f.buffer.buffered) : f.expected ≤ x.seq :=
  (h.window x.seq (h.ring.has_iff.mpr ⟨x, hx, rfl⟩)).1

/-! ### Steps -/

section Steps

variable (h : Aged δ now w.f)

include h

namespace Aged

/-- Other counters do not matter. -/
theorem tally {g : Stats → Stats}
    (hg : (g w.f.stats).residenceMaxUs = w.f.stats.residenceMaxUs) : Aged δ now (w.tally g).f :=
  { h with
    longest := by
      show (g w.f.stats).residenceMaxUs.toNat ≤ _
      rw [hg]
      exact h.longest }

/-- A packet that was not held for longer than two periods is delivered. -/
theorem deliverPkt (seq : ℕ) (pkt : Packet) {enq : UInt64}
    (henq : now.toNat ≤ enq.toNat + 2 * (w.f.waitUs + δ)) :
    Aged δ now (deliverPkt seq pkt now enq w).f :=
  { h with
    longest := by
      have hold := h.longest
      have hres : (if enq < now then now - enq else 0).toNat ≤ 2 * (w.f.waitUs + δ) := by
        split
        · next hlt =>
          rw [UInt64.toNat_sub_of_le _ _ (UInt64.le_of_lt hlt)]
          omega
        · exact Nat.zero_le _
      show (if w.f.stats.residenceMaxUs < (if enq < now then now - enq else 0) then
        (if enq < now then now - enq else 0) else w.f.stats.residenceMaxUs).toNat ≤ _
      generalize (if enq < now then now - enq else 0) = residence at hres ⊢
      split
      · exact hres
      · exact hold }

theorem touch (t : UInt64) : Aged δ now (w.touch t).f := { h with }

/-- Fewer packets. -/
theorem setBuffer {r : Ring} (hsub : ∀ x ∈ r.buffered, x ∈ w.f.buffer.buffered) :
    Aged δ now (w.setBuffer r).f :=
  { h with
    cohort := fun hact x hx => h.cohort hact x (hsub x hx)
    above := fun hact x hx => h.above hact x (hsub x hx)
    loose := fun hact x hx => h.loose hact x (hsub x hx) }

theorem drainStep (hs : drainStep now w = some w') : Aged δ now w'.f := by
  obtain ⟨x, buffer, hrem, rfl⟩ := drainStep_some hs
  obtain ⟨⟨y, hy, henq⟩, hsub⟩ := ringRemove_buffered hrem
  have hage := h.age hy
  rw [henq] at hage
  exact { (h.setBuffer hsub).deliverPkt w.f.expected x.pkt hage with }

theorem drainContiguous : Aged δ now (drainContiguous now w).f :=
  Loop.run_inv (P := fun v : Work => Aged δ now v.f) (fun _ _ h hs => h.drainStep hs) _ w h

theorem skipAndDrain (n : ℕ) : Aged δ now (Reorder.drainContiguous now (w.setExpected n)).f :=
  drainContiguous (w := w.setExpected n) { h with }

/-- The timer stops when only packets above the mark are left. -/
theorem stopGapTimer
    (habove : w.f.gapTimerActive = true → ∀ x ∈ w.f.buffer.buffered, w.f.reord ≤ x.seq) :
    Aged δ now (stopGapTimer w).f where
  past := fun hact => Bool.noConfusion hact
  recent := fun hact => Bool.noConfusion hact
  due := fun hact => Bool.noConfusion hact
  cohort := fun hact => Bool.noConfusion hact
  above := fun hact => Bool.noConfusion hact
  loose := by
    intro _ x hx
    cases hact : w.f.gapTimerActive with
    | true =>
      have hrecent := h.recent hact
      have hlater := h.above hact x hx (habove hact x hx)
      show now.toNat ≤ x.enqueueUs.toNat + (w.f.waitUs + δ)
      omega
    | false => exact h.loose hact x hx
  longest := h.longest

theorem periodEndIfDone (hmid : Mid rest hand owed w) (c : GapEnd) :
    Aged δ now (periodEndIfDone c w).f := by
  unfold Reorder.periodEndIfDone
  split
  · next hcond =>
    refine stopGapTimer (w := w.tally (·.endGap c)) (h.tally (by cases c <;> rfl)) ?_
    intro _ x hx
    have hlo := hmid.le_seq hx
    rw [Bool.and_eq_true, Bool.or_eq_true, decide_eq_true_eq] at hcond
    rcases hcond.2 with hempty | hpast
    · exact absurd (hmid.ring.has_iff.mpr ⟨x, hx, rfl⟩)
        (hmid.ring.ringEmpty_iff.mp hempty x.seq)
    · exact hpast.trans hlo
  · exact h

/-- A period starts, with its mark above everything held. -/
theorem periodStartIfNeeded (hmid : Mid rest hand owed w) :
    Aged δ now (periodStartIfNeeded now w).f := by
  unfold Reorder.periodStartIfNeeded
  split
  · next hcond =>
    rw [Bool.and_eq_true, Bool.not_eq_true'] at hcond
    exact
      { past := fun _ => le_rfl
        recent := fun _ => Nat.le_add_right _ _
        due := fun _ => toNat_deadline_le _ _
        cohort := fun _ x hx => h.loose hcond.1 x hx
        above := fun _ x hx hle => absurd (hmid.below x.seq (hmid.ring.has_iff.mpr ⟨x, hx, rfl⟩))
          (Nat.not_lt.mpr hle)
        loose := fun hact => Bool.noConfusion hact
        longest := h.longest }
  · exact h

theorem settle (hmid : Mid rest hand 0 w) (c : GapEnd) :
    Aged δ now (Reorder.periodStartIfNeeded now (Reorder.periodEndIfDone c w)).f :=
  (h.periodEndIfDone hmid c).periodStartIfNeeded (hmid.periodEndIfDone c)

/-! ### Flushes -/

theorem overflowFlush (hmid : Mid rest hand 0 w) (hne : ringEmpty w.f.buffer = false) :
    Aged δ now (overflowFlush now w).f := by
  unfold Reorder.overflowFlush
  simp only [skipToLowestAndDrain_eq]
  have hemit : Mid rest hand 0 (w.emit (.flushed w.f.key)) :=
    hmid.emit (fun _ _ => rfl) (fun _ _ => rfl) (by simp)
  have haged := skipAndDrain (w := w.emit (.flushed w.f.key)) h
    (ringLowestSeq w.f.buffer w.f.expected)
  exact (haged.touch now).settle ((hemit.skipAndDrain hne).touch now) .overflow

/-- The loop of a timeout or of a demotion. -/
theorem loop {step : Work → Option Work} (hstep : Skips now step) (n : ℕ) :
    Aged δ now (Loop.run step n w).f := by
  refine Loop.run_inv (P := fun v : Work => Aged δ now v.f) (fun v v' hv hs => ?_) n w h
  obtain ⟨-, rfl⟩ := hstep v v' hs
  exact hv.skipAndDrain _

/-- The loop of the timeout and the period it may start. -/
theorem restart (hmid : Mid rest 0 1 w) (hact : w.f.gapTimerActive = true)
    (hhead : ¬ w.f.buffer.Has w.f.expected) :
    Aged δ now (Reorder.periodStartIfNeeded now (Reorder.stopGapTimer
      ((Loop.run (timeoutStep now) w.f.buffer.size w).touch now))).f := by
  obtain ⟨hloop, hadv, -, hend⟩ := hmid.timeoutLoop hhead now rfl
  have haged := h.loop (skips_timeoutStep now) w.f.buffer.size
  have hrun := hadv.timer.trans hact
  generalize Loop.run (timeoutStep now) w.f.buffer.size w = v at hloop hend haged hrun
  have hstop : Aged δ now (Reorder.stopGapTimer (v.touch now)).f := by
    refine (haged.touch now).stopGapTimer fun _ x hx => ?_
    -- everything below the mark is gone
    rcases hend with hempty | hpast
    · exact absurd (hloop.ring.has_iff.mpr ⟨x, hx, rfl⟩)
        (hloop.ring.ringEmpty_iff.mp hempty x.seq)
    · exact hpast.trans (hloop.le_seq hx)
  have hstopped : Mid rest 0 0 (Reorder.stopGapTimer (v.touch now)) := by
    refine Mid.stopGapTimer ?_
    show Mid rest 0 v.f.gapTimerActive.toNat _
    rw [hrun]
    exact hloop.touch now
  exact hstop.periodStartIfNeeded hstopped

/-- **A timeout**: everything below the mark goes, and what is left starts over. -/
theorem onGapTimeout (hdone : Done rest w) (hact : w.f.gapTimerActive = true) :
    Aged δ now (onGapTimeout now w).f := by
  have hstart : Aged δ now w.timedOut.f :=
    tally (w := w.emit (.timedOut w.f.key)) h rfl
  unfold Reorder.onGapTimeout
  rw [if_neg (by rw [hdone.armed.mp hact]; simp)]
  exact hstart.restart hdone.timedOut hact hdone.head

theorem chargeIfActive (c : GapEnd) : Aged δ now (chargeIfActive c w).f := by
  unfold Reorder.chargeIfActive
  split
  · exact h.tally (by cases c <;> rfl)
  · exact h

theorem flushBufferForDemote : Aged δ now (flushBufferForDemote now w).f :=
  aged_of_empty rfl (not_mem_buffered_ringFree _)
    ((h.chargeIfActive .demote).loop (skips_demoteStep now) w.f.buffer.size).longest

theorem resetReorderFlow : Aged δ now (resetReorderFlow w).f := by
  have hcharged := h.chargeIfActive .reset
  unfold Reorder.resetReorderFlow discardBufferForReset
  simp only
  rw [discardSlots_eq]
  exact aged_of_empty rfl (not_mem_buffered_ringFree _) hcharged.longest

end Aged

end Steps

/-! ### One packet -/

section
variable (h : Aged δ a.now w.f)
include h

theorem Aged.startEpoch : Aged δ a.now (startEpoch a w).f := by
  have hopen : Aged δ a.now { w.f with initialized := true } := { h with }
  exact { Aged.deliverPkt (w := { w with f := { w.f with initialized := true } }) hopen a.seq a.pkt
    (Nat.le_add_right _ _) with }

theorem Aged.deliverInOrder (hhand : InHand rest w) (heq : a.seq = w.f.expected)
    (hseq : a.seq < 2 ^ 48) : Aged δ a.now (deliverInOrder a w).2.f := by
  have hmid := ((hhand.deliverNext heq hseq).touch a.now).drainContiguous a.now
  have hnext : Aged δ a.now (((Reorder.deliverPkt a.seq a.pkt a.now a.now w).setExpected
      (w.f.expected + 1)).touch a.now).f :=
    { h.deliverPkt a.seq a.pkt (Nat.le_add_right _ _) with }
  exact hnext.drainContiguous.settle hmid .filled

/-- A packet is put into the ring, with the time of its arrival. -/
theorem Aged.commitInsert {alloc : Bool} {len e : ℕ} {buffer : Ring}
    (hins : ringInsert alloc w.f.buffer a.seq a.pkt len e a.now = some buffer) :
    Aged δ a.now (commitInsert a buffer w).f := by
  have hmem := ringInsert_buffered hins
  exact
    { h with
      cohort := by
        intro hact x hx
        rcases hmem x hx with hx | hnew
        · exact h.cohort hact x hx
        · rw [hnew]
          exact Nat.le_add_right_of_le (h.past hact)
      above := by
        intro hact x hx hle
        rcases hmem x hx with hx | hnew
        · exact h.above hact x hx hle
        · rw [hnew]
          exact h.past hact
      loose := by
        intro hact x hx
        rcases hmem x hx with hx | hnew
        · exact h.loose hact x hx
        · rw [hnew]
          exact Nat.le_add_right _ _ }

theorem Aged.bufferInsertCommitted (hhand : InHand rest w) (hadm : Admissible a w)
    (hseq : a.seq < 2 ^ 48) (hfit : poolWouldExhaust a.pkt.length w = false) :
    Aged δ a.now (bufferInsertCommitted a w).2.f := by
  unfold Reorder.bufferInsertCommitted
  split
  · exact { h with }
  · split
    · exact { h with }
    · next buffer hbuf =>
      have hins := ringInsert_spec hhand.ring hhand.window hadm.ahead.le hadm.near hadm.new hbuf
      exact (h.commitInsert hbuf).periodStartIfNeeded (hhand.commitInsert hadm hseq hfit hins)

omit h in
/-- The ages follow the rule for one packet. -/
theorem admitRule_aged (hseq : a.seq < 2 ^ 48) :
    AdmitRule a (fun w => InHand rest w ∧ Aged δ a.now w.f) (fun r => Aged δ a.now r.2.f) where
  flush _ h hne := ⟨h.1.overflowFlush hne a.now, h.2.overflowFlush h.1.toMid hne⟩
  late _ h _ := { h.2 with }
  next _ h heq := h.2.deliverInOrder h.1 heq hseq
  far _ h _ := { h.2 with }
  dup _ h _ := { h.2 with }
  limit _ h := { h.2 with }
  pool _ h := { h.2 with }
  insert _ h hadm hfit := h.2.bufferInsertCommitted h.1 hadm hseq hfit

theorem Aged.classifyAndDemote : Aged δ a.now (classifyAndDemote a w).f := by
  have hclass : Aged δ a.now (classifyUpdate a.pkt w).2.f := by
    unfold classifyUpdate
    split
    · exact h
    · split
      · exact h
      · exact { h with }
  unfold Reorder.classifyAndDemote
  split
  · next v heq =>
    rw [heq] at hclass
    exact hclass
  · next v heq =>
    rw [heq] at hclass
    exact { hclass.flushBufferForDemote with }

/-- **A packet**: what it finds grows no older than the call, and it is new itself. -/
theorem Aged.onReordered (hdone : Done rest w) (hseq : a.seq < 2 ^ 48) :
    Aged δ a.now (onReordered a w).f := by
  have hdisp : Aged δ a.now (dispatch a w).f := { h with }
  have hmid : Mid rest 1 0 (dispatch a w) := hdone.toMid.dispatch
  have hs : Settled (dispatch a w).f := { hdone.toSettled with }
  unfold Reorder.onReordered
  simp only
  split
  · exact Aged.startEpoch hdisp.resetReorderFlow
  · split
    · exact (hdisp.deliverPkt a.seq a.pkt (Nat.le_add_right _ _)).touch a.now
    · have hproc : Aged δ a.now (processReorderPacket a (dispatch a w)).2.f := by
        cases hinit : (dispatch a w).f.initialized with
        | true =>
          exact (admitRule_aged hseq).processReorderPacket
            ⟨{ hmid, hs with initialized := hinit }, hdisp⟩ hinit
        | false =>
          unfold processReorderPacket
          rw [if_pos (by rw [hinit]; rfl)]
          exact hdisp.startEpoch
      split
      · exact hproc.classifyAndDemote
      · exact hproc

end

/-! ### Runs -/

/-- The call finds no timer running more than `δ` after its deadline. -/
def InTime (δ : ℕ) (rx : Rx) (op : Op) : Prop :=
  ∀ now ∈ op.clock, ∀ f ∈ rx.flows, f.gapTimerActive = true →
    now.toNat ≤ f.gapDeadlineUs.toNat + δ

instance (δ : ℕ) (rx : Rx) (op : Op) : Decidable (InTime δ rx op) :=
  Option.decidableForallMem (p := fun now : UInt64 => ∀ f ∈ rx.flows, f.gapTimerActive = true →
    now.toNat ≤ f.gapDeadlineUs.toNat + δ) op.clock

/-- Every call of the run is in time. -/
def Prompt (δ : ℕ) (rx : Rx) (ops : List Op) : Prop := Run.Along Rx.step (InTime δ) rx ops

instance (δ : ℕ) (rx : Rx) (ops : List Op) : Decidable (Prompt δ rx ops) :=
  inferInstanceAs (Decidable (Run.Along Rx.step (InTime δ) rx ops))

variable {rx : Rx} {T : Prop} {C : Arrival → Work → Prop}

theorem aged_move {x y : Engine × List Flow}
    (h : TableInv x.1 x.2 ∧ ∀ f ∈ x.2, Aged δ now f) (hm : Move now T C x y) :
    TableInv y.1 y.2 ∧ ∀ f ∈ y.2, Aged δ now f := by
  refine ⟨h.1.move hm, ?_⟩
  obtain ⟨htable, haged⟩ := h
  cases hm with
  | perm hp => exact fun f hf => haged f (hp.symm.subset hf)
  | bounds | knob | pass => exact haged
  | create key hnew =>
    intro f hf
    rcases mem_cons.mp hf with rfl | hf
    · exact aged_newFlow δ now _ key
    · exact haged f hf
  | packet a hseq hnow =>
    subst hnow
    intro f hf
    rcases mem_cons.mp hf with rfl | hf
    · exact Aged.onReordered (haged _ mem_cons_self) htable.done hseq
    · exact haged f (mem_cons_of_mem _ hf)
  | timeout _ hact =>
    intro f hf
    rcases mem_cons.mp hf with rfl | hf
    · exact Aged.onGapTimeout (haged _ mem_cons_self) htable.done hact
    · exact haged f (mem_cons_of_mem _ hf)
  | destroy => exact fun f hf => haged f (mem_cons_of_mem _ hf)

/-- When a call comes, nothing is too old for it. -/
theorem aged_at_call (hinv : RxInv rx) (haged : ∀ f ∈ rx.flows, Aged δ t f) (hle : t ≤ now)
    (hprompt : ∀ f ∈ rx.flows, f.gapTimerActive = true →
      now.toNat ≤ f.gapDeadlineUs.toNat + δ) :
    ∀ f ∈ rx.flows, Aged δ now f := by
  intro f hf
  have hok := hinv.table.flows f hf
  exact (haged f hf).later hle hok.toSettled hok.ring (hprompt f hf)

/-- **A call keeps the ages.** -/
theorem aged_step (hinv : RxInv rx) (haged : ∀ f ∈ rx.flows, Aged δ t f) {op : Op}
    (hclock : ∀ c ∈ op.clock, t ≤ c)
    (hprompt : InTime δ rx op) :
    ∀ f ∈ (rx.step op).flows, Aged δ (op.clock.getD t) f := by
  have hmoves : ∀ now ∈ op.clock, op.now = now → ∀ f ∈ (rx.step op).flows, Aged δ now f := by
    intro now hnow heq
    have hstart := aged_at_call hinv haged (hclock now hnow) (hprompt now hnow)
    have hsteps := step_moves hinv.wf op
    rw [heq] at hsteps
    exact (moves_inv (P := fun x => TableInv x.1 x.2 ∧ ∀ f ∈ x.2, Aged δ now f)
      (fun _ _ hx hm => aged_move hx hm) hsteps ⟨hinv.table, hstart⟩).2
  cases op with
  | onPacket payload now | tick now => exact hmoves now rfl rfl
  | setForceNoDemotion force => exact haged

/-- The ages after every part of a run, and at the call that comes next. -/
theorem aged_run (ops : List Op) : ∀ (rx : Rx) (t : UInt64), RxInv rx →
    (∀ f ∈ rx.flows, Aged δ t f) → (t :: ops.filterMap Op.clock).Pairwise (· ≤ ·) →
    Prompt δ rx ops → ∀ n,
      (∃ now, ∀ f ∈ (rx.run (ops.take n)).flows, Aged δ now f) ∧
        ∀ op ∈ ops[n]?, ∀ now ∈ op.clock, ∀ f ∈ (rx.run (ops.take n)).flows, Aged δ now f := by
  induction ops with
  | nil =>
    intro rx t _ haged _ _ n
    rw [take_nil]
    exact ⟨⟨t, haged⟩, fun op hop => by cases hop⟩
  | cons op ops ih =>
    intro rx t hinv haged hmono hprompt n
    obtain ⟨hnow, hlater⟩ := hprompt
    obtain ⟨hclock, hrest⟩ := pairwise_clock_cons hmono
    cases n with
    | zero =>
      refine ⟨⟨t, haged⟩, fun op' hop now hc => ?_⟩
      obtain rfl := Option.some.inj hop
      exact aged_at_call hinv haged (hclock now hc) (hnow now hc)
    | succ n =>
      exact ih (rx.step op) (op.clock.getD t) (hinv.step op)
        (aged_step hinv haged hclock hnow) hrest hlater n

/-- The wait of a flow is the one its configuration gives to its key. -/
theorem waitUs_run {cfg : Config} {seed : UInt64} {allocOk : Bool}
    (h : rxNew cfg seed allocOk = some rx) (ops : List Op) :
    ∀ f ∈ (rx.run ops).flows, f.waitUs = rx.cfg.waitUs f.key := by
  intro f hf
  obtain ⟨-, hwait⟩ := (rxInv_run h ops).table.resolved f hf
  obtain ⟨force, hcfg⟩ := cfg_run h ops
  obtain ⟨force', hcfg'⟩ := cfg_run h []
  rw [show rx.cfg = _ from hcfg', Flow.waitUs, hwait, hcfg]
  rfl

/-- **Nothing is held for longer than two periods.**  On calls whose clock values do not
decrease and that find no timer running more than `δ` after its deadline, a packet of a flow
with wait `W` that is held when a call comes, and may be delivered by it, was buffered at most
`2 * (W + δ)` before, and the longest residence recorded for the flow is never above that. -/
theorem residence_bounded {cfg : Config} {seed : UInt64} {allocOk : Bool}
    (h : rxNew cfg seed allocOk = some rx) (δ : ℕ) (ops : List Op)
    (hclock : (ops.filterMap Op.clock).Pairwise (· ≤ ·)) (hprompt : Prompt δ rx ops) (n : ℕ) :
    (∀ op ∈ ops[n]?, ∀ now ∈ op.clock, ∀ f ∈ (rx.run (ops.take n)).flows,
      ∀ x ∈ f.buffer.buffered,
        now.toNat ≤ x.enqueueUs.toNat + 2 * (rx.cfg.waitUs f.key + δ)) ∧
    ∀ f ∈ (rx.run (ops.take n)).flows,
      f.stats.residenceMaxUs.toNat ≤ 2 * (rx.cfg.waitUs f.key + δ) := by
  obtain ⟨⟨now, haged⟩, hcall⟩ := aged_run ops rx 0 (rxInv_rxNew h) (forall_mem_rxNew h)
    (pairwise_zero_cons hclock) hprompt n
  refine ⟨fun op hop c hc f hf x hx => ?_, fun f hf => ?_⟩
  · rw [← waitUs_run h _ f hf]
    exact (hcall op hop c hc f hf).age hx
  · rw [← waitUs_run h _ f hf]
    exact (haged f hf).longest

/-- With the default wait of 30 ms the packet above the mark waits for both periods. -/
def twoPeriods : List Op :=
  sampleHole ++ [samplePacket 4 5000 1 1002, .tick 31501, .tick 62001]

theorem residence_bounded_two_periods :
    (sampleRun 1 twoPeriods).flows.map (fun f => f.stats.residenceMaxUs.toNat) = [60999] ∧
    ∀ f ∈ (sampleRun 1 twoPeriods).flows, f.stats.residenceMaxUs.toNat ≤
      2 * ((Rx.initial sampleConfig 1).cfg.waitUs f.key + 500) := by
  refine ⟨by decide +kernel, ?_⟩
  exact (residence_bounded (@rxNew_of_validate sampleConfig rfl 1) 500 twoPeriods
    (by decide +kernel) (by decide +kernel) 5).2

end Mqvpn.Reorder
