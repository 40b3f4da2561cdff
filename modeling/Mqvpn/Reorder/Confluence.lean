import Mqvpn.Lib.Reassembly
import Mqvpn.Reorder.Contract

/-!
# The order of arrival

As long as nothing forces the engine's hand — no limit or pool drop, no flush, no
timeout, no demotion, no eviction — a flow is a reassembly of its packets: what it has
delivered is the longest run of consecutive numbers from the first packet of the epoch
on, and what it buffers are the other packets that came.  Neither depends on the
order in which they came, although the ring grows and rehashes at moments that do.

An epoch is opened by the creation of the flow or by an honoured reset; the packet that
carries the reset is the first of the new epoch.

## Main definitions

* `Intake`, `intake` — what a flow took in and delivered since its epoch was opened,
  and whether it was disturbed.
* `Intake.InWindow` — distinct packets in the window that the first one opens.
* `Assembled` — the packets taken in are those delivered and those held.

## Main results

* `Tidy.onReordered` — a packet keeps an undisturbed flow assembled.
* `arrival_order_irrelevant` — **two orders of the same packets end alike**.
-/

namespace Mqvpn.Reorder

open List

/-! ### What a flow took in -/

/-- What the trace says about the open epoch of a flow. -/
structure Intake where
  arrivals : List (ℕ × Packet) := []
  deliveries : List (ℕ × Packet) := []
  /-- A limit, the pool, a timeout, a demotion or an eviction interfered. -/
  disturbed : Bool := false
  deriving DecidableEq

/-- Follow the open epoch of flow `k`. -/
def intakeStep (k : FlowKey) (c : Intake) : Event → Intake
  | .created k' => if k' = k then {} else c
  | .reset k' =>
      -- the packet that carries the reset has been dispatched already
      if k' = k then { arrivals := c.arrivals.getLast?.toList } else c
  | .dispatched k' seq pkt =>
      if k' = k then { c with arrivals := c.arrivals ++ [(seq, pkt)] } else c
  | .delivered k' seq pkt =>
      if k' = k then { c with deliveries := c.deliveries ++ [(seq, pkt)] } else c
  | .flushed k' => if k' = k then { c with disturbed := true } else c
  | .timedOut k' => if k' = k then { c with disturbed := true } else c
  | .limited k' => if k' = k then { c with disturbed := true } else c
  | .demoted k' => if k' = k then { c with disturbed := true } else c
  | .destroyed k' _ => if k' = k then { c with disturbed := true } else c
  | .passed _ => c
  | .clamped => c

def intake (k : FlowKey) (t : List Event) : Intake := t.foldl (intakeStep k) {}

theorem intake_snoc (k : FlowKey) (t : List Event) (e : Event) :
    intake k (t ++ [e]) = intakeStep k (intake k t) e := by
  rw [intake, foldl_append]
  rfl

theorem intake_append_about {k k' : FlowKey} (hne : k' ≠ k) {t es : List Event}
    (hes : ∀ e ∈ es, e.About k) : intake k' (t ++ es) = intake k' t := by
  rw [intake, foldl_append]
  refine foldl_eq_self es _ fun e he c => ?_
  have habout := hes e he
  cases e <;> simp_all [Event.About, intakeStep, hne.symm]

/-- The packets are distinct and lie in the window that the first one opens at `s`. -/
structure Intake.InWindow (s cap : ℕ) (c : Intake) : Prop where
  first : c.arrivals.head?.map Prod.fst = some s
  nodup : (c.arrivals.map Prod.fst).Nodup
  window : ∀ x ∈ c.arrivals, s ≤ x.1 ∧ x.1 < s + cap

instance (s cap : ℕ) (c : Intake) : Decidable (c.InWindow s cap) :=
  decidable_of_iff (c.arrivals.head?.map Prod.fst = some s ∧ (c.arrivals.map Prod.fst).Nodup ∧
      ∀ x ∈ c.arrivals, s ≤ x.1 ∧ x.1 < s + cap)
    ⟨fun h => ⟨h.1, h.2.1, h.2.2⟩, fun h => ⟨h.first, h.nodup, h.window⟩⟩

/-- The packets before the last one are in the window too, if there are any. -/
theorem Intake.InWindow.of_snoc {s cap : ℕ} {c c' : Intake} {x : ℕ × Packet}
    (h : c'.InWindow s cap) (harr : c'.arrivals = c.arrivals ++ [x]) (hne : c.arrivals ≠ []) :
    c.InWindow s cap := by
  obtain ⟨hfirst, hnd, hwin⟩ := h
  rw [harr] at hfirst hnd hwin
  refine ⟨?_, ?_, fun y hy => hwin y (mem_append_left _ hy)⟩
  · obtain ⟨y, l, hl⟩ := exists_cons_of_ne_nil hne
    rw [hl] at hfirst ⊢
    exact hfirst
  · rw [map_append] at hnd
    exact hnd.of_append_left

/-! ### What the ring holds -/

/-- The packets in the ring, with their numbers. -/
def Ring.held (r : Ring) : List (ℕ × Packet) := r.buffered.map fun x => (x.seq, x.pkt.getD [])

variable {w w' : Work} {now : UInt64} {a : Arrival} {rest s : ℕ} {hand : List (ℕ × Packet)}

theorem Removes.held {r r' : Ring} {seq : ℕ} {x : Removed} (h : Removes r seq x r') :
    r.held.Perm ((seq, x.pkt) :: r'.held) := by
  obtain ⟨y, hseq, hpkt, hperm⟩ := h.perm
  have hmap := hperm.map fun x => (x.seq, x.pkt.getD [])
  rwa [map_cons, hseq, hpkt, Option.getD_some] at hmap

theorem Inserts.held {r r' : Ring} {seq e : ℕ} {pkt : Packet} (h : Inserts r seq pkt e r') :
    r'.held.Perm ((seq, pkt) :: r.held) := by
  obtain ⟨y, hseq, hpkt, hperm⟩ := h.perm
  have hmap := hperm.map fun x => (x.seq, x.pkt.getD [])
  rwa [map_cons, hseq, hpkt, Option.getD_some] at hmap

theorem RingOk.has_iff_held {r : Ring} (h : RingOk r) {seq : ℕ} :
    r.Has seq ↔ ∃ x ∈ r.held, x.1 = seq := by
  rw [h.has_iff]
  simp [Ring.held]

theorem RingOk.held_eq_nil {r : Ring} (h : RingOk r) (hnone : ∀ t, ¬ r.Has t) : r.held = [] := by
  rw [eq_nil_iff_forall_not_mem]
  intro x hx
  exact hnone x.1 (h.has_iff_held.mpr ⟨x, hx, rfl⟩)

/-! ### Readings of a flow at work -/

/-- The intake of the flow that is worked on. -/
def Work.intake (w : Work) : Intake := Reorder.intake w.f.key w.rx.trace

theorem intake_emit (w : Work) (e : Event) :
    (w.emit e).intake = intakeStep w.f.key w.intake e := intake_snoc _ _ _

theorem intake_release (w : Work) (len : ℕ) : (w.release len).intake = w.intake := by
  unfold Work.release poolRelease
  split
  · rfl
  · exact intake_snoc _ _ _

theorem intake_deliverPkt (seq : ℕ) (pkt : Packet) (now enq : UInt64) (w : Work) :
    (deliverPkt seq pkt now enq w).intake =
      { w.intake with deliveries := w.intake.deliveries ++ [(seq, pkt)] } := by
  have hemit := intake_emit w (.delivered w.f.key seq pkt)
  simp only [intakeStep, ↓reduceIte] at hemit
  exact hemit

theorem intake_dispatch (a : Arrival) (w : Work) :
    (dispatch a w).intake =
      { w.intake with arrivals := w.intake.arrivals ++ [(a.seq, a.pkt)] } := by
  have hemit := intake_emit { w with f := { w.f with lastSeenUs := a.now } }
    (.dispatched w.f.key a.seq a.pkt)
  simp only [intakeStep, ↓reduceIte] at hemit
  exact hemit

theorem intake_periodEndIfDone (c : GapEnd) (w : Work) :
    (periodEndIfDone c w).intake = w.intake := by
  unfold periodEndIfDone
  split <;> rfl

theorem intake_periodStartIfNeeded (now : UInt64) (w : Work) :
    (periodStartIfNeeded now w).intake = w.intake := by
  unfold periodStartIfNeeded
  split <;> rfl

theorem intake_resetReorderFlow (w : Work) : (resetReorderFlow w).intake = w.intake := by
  have hslots : ∀ (slots : List Slot) (v : Work),
      (slots.foldl discardSlot v).intake = v.intake := by
    intro slots
    induction slots with
    | nil => intro v; rfl
    | cons x slots ih =>
      intro v
      rw [foldl_cons, ih]
      unfold discardSlot
      split
      · exact intake_release v x.len
      · rfl
  have hcharge : (chargeIfActive .reset w).intake = w.intake := by
    unfold chargeIfActive
    split <;> rfl
  exact (hslots _ _).trans hcharge

/-! ### Assembled flows -/

/-- What came since the epoch was opened at `s` is what was delivered, what is held and
what is in hand; and what was delivered is everything from `s` up to the frontier. -/
structure Assembled (s : ℕ) (hand : List (ℕ × Packet)) (c : Intake) (f : Flow) : Prop where
  le : s ≤ f.expected
  run : c.deliveries.map Prod.fst = List.range' s (f.expected - s)
  perm : (c.deliveries ++ (f.buffer.held ++ hand)).Perm c.arrivals

theorem range'_sub_succ {s e : ℕ} (h : s ≤ e) :
    List.range' s (e + 1 - s) = List.range' s (e - s) ++ [e] := by
  rw [Nat.succ_sub h, range'_concat]
  congr 2
  omega

/-- What one delivery out of the ring does to the flow and its readings. -/
theorem drainStep_intake (hs : drainStep now w = some w') : ∃ x,
    ringRemove w.f.buffer w.f.expected = some (x, w'.f.buffer) ∧
      w'.f.expected = w.f.expected + 1 ∧ w'.intake =
        { w.intake with deliveries := w.intake.deliveries ++ [(w.f.expected, x.pkt)] } := by
  obtain ⟨x, buffer, hrem, rfl⟩ := drainStep_some hs
  exact ⟨x, hrem, rfl, (intake_release _ _).trans (intake_deliverPkt _ _ _ _ _)⟩

theorem Assembled.drainStep (hok : RingOk w.f.buffer) (h : Assembled s hand w.intake w.f)
    (hs : drainStep now w = some w') : Assembled s hand w'.intake w'.f := by
  obtain ⟨x, hrem, hexp, hintake⟩ := drainStep_intake hs
  have hheld := (ringRemove_spec hok hrem).held
  rw [hintake]
  refine ⟨by rw [hexp]; exact h.le.trans (Nat.le_succ _), ?_, ?_⟩
  · rw [hexp, map_append, h.run, range'_sub_succ h.le]
    rfl
  · -- the packet moves from the ring to the end of what was delivered
    have hmove : (w.intake.deliveries ++ (((w.f.expected, x.pkt) :: w'.f.buffer.held) ++ hand)).Perm
        w.intake.arrivals := ((hheld.append_right hand).append_left _).symm.trans h.perm
    simpa using hmove

theorem intake_drainContiguous (now : UInt64) (w : Work) :
    (drainContiguous now w).intake.arrivals = w.intake.arrivals ∧
      (drainContiguous now w).intake.disturbed = w.intake.disturbed := by
  refine Loop.run_inv (P := fun v : Work => v.intake.arrivals = w.intake.arrivals ∧
    v.intake.disturbed = w.intake.disturbed) ?_ _ w ⟨rfl, rfl⟩
  intro v v' hv hs
  obtain ⟨x, -, -, hintake⟩ := drainStep_intake hs
  rw [hintake]
  exact hv

theorem Assembled.drainContiguous (h : Assembled s hand w.intake w.f) (hok : RingOk w.f.buffer)
    (now : UInt64) : Assembled s hand (drainContiguous now w).intake (drainContiguous now w).f := by
  refine (Loop.run_inv (P := fun v : Work => RingOk v.f.buffer ∧ Assembled s hand v.intake v.f)
    (fun v v' hv hs => ⟨?_, hv.2.drainStep hv.1 hs⟩) _ w ⟨hok, h⟩).2
  obtain ⟨x, hrem, -, -⟩ := drainStep_intake hs
  exact (ringRemove_spec hv.1 hrem).ok

/-! ### A packet in hand -/

section

variable {cap : ℕ} {x : ℕ × Packet} {c : Intake} {f : Flow}

section
variable (h : Assembled s [x] c f)
include h

/-- The packet in hand is new: everything that came is accounted for otherwise. -/
theorem Assembled.hand_notMem (hnd : (c.arrivals.map Prod.fst).Nodup) :
    x.1 ∉ c.deliveries.map Prod.fst ∧ x.1 ∉ f.buffer.held.map Prod.fst := by
  rw [← (h.perm.map Prod.fst).nodup_iff, map_append, map_append, ← append_assoc,
    nodup_append] at hnd
  have hnot : x.1 ∉ c.deliveries.map Prod.fst ++ f.buffer.held.map Prod.fst :=
    fun hmem => hnd.2.2 x.1 hmem x.1 (by simp) rfl
  rw [mem_append, not_or] at hnot
  exact hnot

theorem Assembled.mem_arrivals : x ∈ c.arrivals :=
  h.perm.subset (by simp)

theorem Assembled.not_late (hwin : c.InWindow s cap) : f.expected ≤ x.1 := by
  by_contra hlt
  refine (h.hand_notMem hwin.nodup).1 ?_
  rw [h.run, mem_range'_1]
  have := (hwin.window x h.mem_arrivals).1
  omega

theorem Assembled.not_far (hwin : c.InWindow s f.buffer.cap) :
    ringFarAhead f.buffer x.1 f.expected = false := by
  have hlo := h.not_late hwin
  have hhi := (hwin.window x h.mem_arrivals).2
  have hle := h.le
  simp only [ringFarAhead, decide_eq_false_iff_not]
  omega

end

theorem Assembled.not_has (hok : RingOk f.buffer) (h : Assembled s [x] c f)
    (hwin : c.InWindow s cap) : ¬ f.buffer.Has x.1 := by
  rw [hok.has_iff_held]
  rintro ⟨y, hy, hseq⟩
  exact (h.hand_notMem hwin.nodup).2 (hseq ▸ mem_map_of_mem hy)

end

/-! ### The invariant -/

/-- **An undisturbed flow is assembled**, as long as its packets are in the window. -/
structure Tidy (c : Intake) (f : Flow) : Prop where
  passThrough : c.disturbed = false → f.passThrough = false
  fresh : c.disturbed = false → f.initialized = false → c.arrivals = [] ∧ c.deliveries = []
  started : c.disturbed = false → f.initialized = true → c.arrivals ≠ []
  assembled : c.disturbed = false → f.initialized = true → ∀ s, c.InWindow s f.buffer.cap →
    Assembled s [] c f

theorem tidy_of_disturbed {c : Intake} {f : Flow} (h : c.disturbed = true) : Tidy c f := by
  constructor <;> simp [h]

theorem tidy_limited (w : Work) (f : Flow) : Tidy (w.emit (.limited w.f.key)).intake f := by
  rw [intake_emit]
  exact tidy_of_disturbed (congrArg Intake.disturbed (if_pos rfl))

/-- Only the ring, the frontier and two flags of the flow are read. -/
theorem Tidy.congr {c : Intake} {f f' : Flow} (h : Tidy c f)
    (hsame : f'.buffer = f.buffer ∧ f'.expected = f.expected ∧ f'.initialized = f.initialized ∧
      f'.passThrough = f.passThrough) : Tidy c f' := by
  obtain ⟨hb, he, hi, hp⟩ := hsame
  refine ⟨fun hq => hp.trans (h.passThrough hq), hi ▸ h.fresh, hi ▸ h.started,
    fun hq hinit s hwin => ?_⟩
  have hasm := h.assembled hq (hi ▸ hinit) s (hb ▸ hwin)
  exact ⟨he ▸ hasm.le, he ▸ hasm.run, hb ▸ hasm.perm⟩

theorem Tidy.drainContiguous (h : Tidy w.intake w.f) (hok : RingOk w.f.buffer)
    (hinit : w.f.initialized = true) (now : UInt64) :
    Tidy (drainContiguous now w).intake (drainContiguous now w).f := by
  obtain ⟨harr, hdist⟩ := intake_drainContiguous now w
  have hadv := advances_drainContiguous now w
  refine ⟨fun hq => hadv.passThrough.trans (h.passThrough (hdist ▸ hq)), fun _ hf => ?_,
    fun hq _ => harr ▸ h.started (hdist ▸ hq) hinit, fun hq _ s hwin => ?_⟩
  · exact absurd (hf.symm.trans (hadv.initialized.trans hinit)) Bool.false_ne_true
  · rw [(within_drainContiguous (w := w)).cap] at hwin
    exact (h.assembled (hdist ▸ hq) hinit s
      ⟨harr ▸ hwin.first, harr ▸ hwin.nodup, harr ▸ hwin.window⟩).drainContiguous hok now

/-- The same while the packet of `a` is in hand. -/
structure Pending (a : Arrival) (w : Work) : Prop where
  passThrough : w.intake.disturbed = false → w.f.passThrough = false
  started : w.intake.arrivals ≠ []
  assembled : w.intake.disturbed = false → ∀ s, w.intake.InWindow s w.f.buffer.cap →
    Assembled s [(a.seq, a.pkt)] w.intake w.f

/-- A drop that says nothing in the trace: it cannot happen to an undisturbed flow. -/
theorem Pending.drop (h : Pending a w) (hinit : w.f.initialized = true) {g : Stats → Stats}
    (habsurd : w.intake.disturbed = false → ∀ s, w.intake.InWindow s w.f.buffer.cap → False) :
    Tidy (w.tally g).intake (w.tally g).f where
  passThrough := h.passThrough
  fresh := fun _ hf => absurd (hf.symm.trans hinit) Bool.false_ne_true
  started := fun _ _ => h.started
  assembled := fun hq _ s hwin => (habsurd hq s hwin).elim

/-- The packet is the next one. -/
theorem Pending.deliverInOrder (h : Pending a w) (hok : RingOk w.f.buffer)
    (hinit : w.f.initialized = true) (heq : a.seq = w.f.expected) :
    Tidy (deliverInOrder a w).2.intake (deliverInOrder a w).2.f := by
  unfold Reorder.deliverInOrder
  simp only
  rw [intake_periodStartIfNeeded, intake_periodEndIfDone]
  -- neither the drain nor the bookkeeping of the period undoes what the delivery leaves
  refine Tidy.congr (Tidy.congr (Tidy.drainContiguous ?_ ?_ ?_ a.now)
    (advances_periodEndIfDone ..)) (advances_periodStartIfNeeded ..)
  case refine_2 => exact hok
  case refine_3 => exact hinit
  change Tidy (deliverPkt a.seq a.pkt a.now a.now w).intake _
  rw [intake_deliverPkt]
  refine ⟨h.passThrough, fun _ hf => absurd (hf.symm.trans hinit) Bool.false_ne_true,
    fun _ _ => h.started, fun hq _ s hwin => ?_⟩
  -- the packet in hand has become the last delivery
  have hasm := h.assembled hq s ⟨hwin.first, hwin.nodup, hwin.window⟩
  refine ⟨hasm.le.trans (Nat.le_succ _), ?_, ?_⟩
  · show (w.intake.deliveries ++ _).map Prod.fst = range' s (w.f.expected + 1 - s)
    rw [map_append, hasm.run, range'_sub_succ hasm.le, ← heq]
    rfl
  · show ((w.intake.deliveries ++ _) ++ (w.f.buffer.held ++ [])).Perm w.intake.arrivals
    rw [append_nil, append_assoc]
    have hcomm := @perm_append_comm _ [(a.seq, a.pkt)] w.f.buffer.held
    exact (hcomm.append_left _).trans hasm.perm

/-- The packet is put into the ring. -/
theorem Pending.bufferInsertCommitted (h : Pending a w) (hok : RingOk w.f.buffer)
    (hwindow : w.f.buffer.Window w.f.expected) (hinit : w.f.initialized = true)
    (hadm : Admissible a w) :
    Tidy (bufferInsertCommitted a w).2.intake (bufferInsertCommitted a w).2.f := by
  -- a failed copy or a failed growth shows in the trace like any other limit
  have hlimited : Tidy (dropOnPool w).2.intake (dropOnPool w).2.f := tidy_limited (w.tally _) _
  unfold Reorder.bufferInsertCommitted
  split
  · exact hlimited
  · split
    · exact hlimited
    · next buffer hbuf =>
      have hins := ringInsert_spec hok hwindow hadm.ahead.le hadm.near hadm.new hbuf
      simp only
      rw [intake_periodStartIfNeeded]
      refine Tidy.congr (f := (commitInsert a buffer w).f) ⟨h.passThrough, fun _ hf => ?_,
        fun _ _ => h.started, fun hq _ s hwin => ?_⟩ (advances_periodStartIfNeeded ..)
      · exact absurd (hf.symm.trans hinit) Bool.false_ne_true
      · have hasm := h.assembled hq s (hins.cap ▸ hwin)
        have hheld : (buffer.held ++ []).Perm (w.f.buffer.held ++ [(a.seq, a.pkt)]) := by
          rw [append_nil]
          exact hins.held.trans (perm_append_singleton _ _).symm
        exact ⟨hasm.le, hasm.run, (hheld.append_left _).trans hasm.perm⟩

theorem overflowFlush_disturbed (now : UInt64) (w : Work) :
    (overflowFlush now w).intake.disturbed = true ∧
      (overflowFlush now w).intake.arrivals = w.intake.arrivals := by
  unfold overflowFlush
  simp only [skipToLowestAndDrain_eq]
  rw [intake_periodStartIfNeeded, intake_periodEndIfDone]
  obtain ⟨harr, hdist⟩ := intake_drainContiguous now w.flushing
  have hemit : (w.emit (.flushed w.f.key)).intake = { w.intake with disturbed := true } :=
    (intake_emit ..).trans (if_pos rfl)
  refine ⟨hdist.trans (congrArg Intake.disturbed hemit), harr.trans ?_⟩
  exact (congrArg Intake.arrivals hemit).trans rfl

/-- **Every way through admission leaves an undisturbed flow assembled.** -/
theorem admitRule_pending (rest : ℕ) (a : Arrival) :
    AdmitRule a (fun w => InHand rest w ∧ Pending a w) (fun r => Tidy r.2.intake r.2.f) where
  flush w h hne := by
    obtain ⟨hdist, harr⟩ := overflowFlush_disturbed a.now w
    have hnot : (overflowFlush a.now w).intake.disturbed ≠ false := by rw [hdist]; simp
    exact ⟨h.1.overflowFlush hne a.now, fun hq => absurd hq hnot, harr ▸ h.2.started,
      fun hq => absurd hq hnot⟩
  late w h hlt := h.2.drop h.1.initialized fun hq s hwin =>
    absurd ((h.2.assembled hq s hwin).not_late hwin) (Nat.not_le.mpr hlt)
  next w h heq := h.2.deliverInOrder h.1.ring h.1.initialized heq
  far w h hfar := h.2.drop h.1.initialized fun hq s hwin => by
    have hnear := (h.2.assembled hq s hwin).not_far hwin
    rw [hfar] at hnear
    cases hnear
  dup w h hhas := h.2.drop h.1.initialized fun hq s hwin =>
    (h.2.assembled hq s hwin).not_has h.1.ring hwin hhas
  limit w h := tidy_limited (w.tally _) _
  pool w h := tidy_limited (w.tally _) _
  insert w h hadm _ := h.2.bufferInsertCommitted h.1.ring h.1.window h.1.initialized hadm

/-! ### One packet -/

/-- The first packet of an epoch. -/
theorem tidy_startEpoch (hheld : w.f.buffer.held = [])
    (h : w.intake.disturbed = false → w.f.passThrough = false ∧
      w.intake.arrivals = [(a.seq, a.pkt)] ∧ w.intake.deliveries = []) :
    Tidy (startEpoch a w).intake (startEpoch a w).f := by
  have hintake : (startEpoch a w).intake =
      { w.intake with deliveries := w.intake.deliveries ++ [(a.seq, a.pkt)] } :=
    intake_deliverPkt a.seq a.pkt a.now a.now { w with f := { w.f with initialized := true } }
  rw [hintake]
  refine ⟨fun hq => (h hq).1, fun _ hf => Bool.noConfusion hf, fun hq _ => ?_,
    fun hq _ s hwin => ?_⟩
  · obtain ⟨-, harr, -⟩ := h hq
    rw [harr]
    simp
  · obtain ⟨-, harr, hdel⟩ := h hq
    -- the window is opened by the only arrival, which is delivered at once
    have hs : a.seq = s := by
      have hfirst : w.intake.arrivals.head?.map Prod.fst = some s := hwin.first
      rw [harr] at hfirst
      simpa using hfirst
    refine ⟨hs ▸ Nat.le_succ _, ?_, ?_⟩
    · show (w.intake.deliveries ++ _).map Prod.fst = range' s (a.seq + 1 - s)
      rw [hdel, hs]
      simp
    · show ((w.intake.deliveries ++ _) ++ (w.f.buffer.held ++ [])).Perm w.intake.arrivals
      rw [hdel, hheld, harr]
      simp

theorem Tidy.classifyAndDemote (h : Tidy w.intake w.f) :
    Tidy (classifyAndDemote a w).intake (classifyAndDemote a w).f := by
  have hsame : (classifyUpdate a.pkt w).2.intake = w.intake ∧
      Tidy w.intake (classifyUpdate a.pkt w).2.f := by
    unfold classifyUpdate
    split
    · exact ⟨rfl, h⟩
    · split
      · exact ⟨rfl, h⟩
      · exact ⟨rfl, h.congr ⟨rfl, rfl, rfl, rfl⟩⟩
  unfold Reorder.classifyAndDemote
  split
  · next w₁ heq =>
    rw [heq] at hsame
    rw [hsame.1]
    exact hsame.2
  · next w₁ heq =>
    rw [intake_emit]
    exact tidy_of_disturbed (congrArg Intake.disturbed (if_pos rfl))

/-- A dispatched packet is in hand. -/
theorem Tidy.pending (h : Tidy w.intake w.f) (hinit : w.f.initialized = true) :
    Pending a (dispatch a w) := by
  have hintake := intake_dispatch a w
  refine ⟨fun hq => ?_, ?_, fun hq s hwin => ?_⟩
  · rw [hintake] at hq
    exact h.passThrough hq
  · rw [hintake]
    simp
  · have hq' : w.intake.disturbed = false := by rw [hintake] at hq; exact hq
    have harr : (dispatch a w).intake.arrivals = w.intake.arrivals ++ [(a.seq, a.pkt)] := by
      rw [hintake]
    have hasm := h.assembled hq' hinit s (hwin.of_snoc harr (h.started hq' hinit))
    refine ⟨hasm.le, ?_, ?_⟩
    · rw [hintake]
      exact hasm.run
    · have hperm := hasm.perm.append_right [(a.seq, a.pkt)]
      rw [append_nil, append_assoc] at hperm
      rw [hintake]
      exact hperm

/-- **A packet keeps an undisturbed flow assembled.** -/
theorem Tidy.onReordered (hdone : Done rest w) (h : Tidy w.intake w.f) :
    Tidy (onReordered a w).intake (onReordered a w).f := by
  have hmid : Mid rest 1 0 (dispatch a w) := hdone.toMid.dispatch
  have hsettled : Settled (dispatch a w).f := { hdone.toSettled with }
  have hintake := intake_dispatch a w
  unfold Reorder.onReordered
  simp only
  split
  · -- the reset opens an epoch with this packet
    have hkey : (resetReorderFlow (dispatch a w)).f.key = (dispatch a w).f.key :=
      (within_resetReorderFlow a.now _).key
    refine tidy_startEpoch rfl fun _ => ⟨rfl, ?_⟩
    rw [intake_emit, intake_resetReorderFlow, hkey, hintake]
    simp [intakeStep]
  · split
    · next hp =>
      apply tidy_of_disturbed
      have hdist : w.intake.disturbed = true := by
        by_contra hq
        rw [Bool.not_eq_true] at hq
        exact absurd ((h.passThrough hq).symm.trans hp) Bool.false_ne_true
      have hdeliver := intake_deliverPkt a.seq a.pkt a.now a.now (dispatch a w)
      rw [hintake] at hdeliver
      exact (congrArg Intake.disturbed hdeliver).trans hdist
    · next hp =>
      have hproc : Tidy (processReorderPacket a (dispatch a w)).2.intake
          (processReorderPacket a (dispatch a w)).2.f := by
        cases hinit : w.f.initialized with
        | true =>
          exact (admitRule_pending rest a).processReorderPacket
            ⟨{ hmid, hsettled with initialized := hinit }, h.pending hinit⟩ hinit
        | false =>
          have hnone := hdone.toMid.not_has_of_fresh (hdone.fresh hinit)
          unfold processReorderPacket
          rw [if_pos (by rw [show (dispatch a w).f.initialized = false from hinit]; rfl)]
          refine tidy_startEpoch (hdone.ring.held_eq_nil hnone) fun hq => ?_
          rw [hintake] at hq ⊢
          obtain ⟨harr, hdel⟩ := h.fresh hq hinit
          exact ⟨h.passThrough hq, by simp [harr], hdel⟩
      split
      · exact hproc.classifyAndDemote
      · exact hproc

/-- A timeout that delivers anything disturbs. -/
theorem onGapTimeout_disturbed (now : UInt64) (hne : ringEmpty w.f.buffer = false) :
    (onGapTimeout now w).intake.disturbed = true := by
  unfold onGapTimeout
  rw [if_neg (by rw [hne]; simp)]
  simp only
  rw [intake_periodStartIfNeeded]
  refine Loop.run_inv (P := fun v : Work => v.intake.disturbed = true) ?_ w.f.buffer.size
    w.timedOut ?_
  · intro v v' hv hs
    obtain ⟨-, rfl⟩ := skips_timeoutStep now v v' hs
    exact (intake_drainContiguous now _).2.trans hv
  · exact congrArg Intake.disturbed ((intake_emit w (.timedOut w.f.key)).trans (if_pos rfl))

/-! ### Runs -/

def AllTidy (e : Engine) (fs : List Flow) : Prop := ∀ f ∈ fs, Tidy (intake f.key e.trace) f

/-- Work on one flow leaves the others alone. -/
theorem AllTidy.work {e : Engine} {f : Flow} {fs : List Flow} (htable : TableInv e (f :: fs))
    (h : AllTidy e (f :: fs)) {v : Work} (hwithin : Within now { rx := e, f := f } v)
    (hv : Tidy v.intake v.f) : AllTidy v.rx (v.f :: fs) := by
  obtain ⟨es, htrace, habout⟩ := hwithin.trace
  intro g hg
  rcases mem_cons.mp hg with rfl | hg
  · exact hv
  · rw [htrace, intake_append_about (htable.key_ne hg) habout]
    exact h g (mem_cons_of_mem _ hg)

theorem AllTidy.move {x y : Engine × List Flow} {T : Prop} {C : Arrival → Work → Prop}
    (htable : TableInv x.1 x.2) (h : AllTidy x.1 x.2) (hm : Move now T C x y) :
    AllTidy y.1 y.2 := by
  cases hm with
  | perm hp => exact fun f hf => h f (hp.symm.subset hf)
  | bounds | knob => exact h
  | pass pkt =>
    intro f hf
    show Tidy (intake f.key (_ ++ [Event.passed pkt])) f
    rw [intake_snoc]
    exact h f hf
  | @create e fs key hnew =>
    intro f hf
    show Tidy (intake f.key (e.trace ++ [Event.created key])) f
    rw [intake_snoc]
    rcases mem_cons.mp hf with rfl | hf
    · rw [show intakeStep (newFlow e.cfg key).key _ (.created key) = {} from if_pos rfl]
      exact ⟨fun _ => rfl, fun _ _ => ⟨rfl, rfl⟩, fun _ hi => Bool.noConfusion hi,
        fun _ hi => Bool.noConfusion hi⟩
    · rw [show intakeStep f.key _ (.created key) = _ from if_neg fun hk => hnew f hf hk.symm]
      exact h f hf
  | @packet e f fs a =>
    exact h.work htable (within_onReordered (a := a))
      ((h f mem_cons_self).onReordered htable.done)
  | @timeout e f fs _ hact =>
    exact h.work htable (within_onGapTimeout now _)
      (tidy_of_disturbed (onGapTimeout_disturbed now (htable.done.armed.mp hact)))
  | @destroy e f fs =>
    intro g hg
    have hne : f.key ≠ g.key := (htable.key_ne hg).symm
    unfold Engine.drop
    rw [htable.flowDestroy_eq]
    show Tidy (intake g.key (e.trace ++ [Event.destroyed f.key f.gapTimerActive])) g
    rw [intake_snoc,
      show intakeStep g.key _ (.destroyed f.key f.gapTimerActive) = _ from if_neg hne]
    exact h g (mem_cons_of_mem _ hg)

variable {cfg cfg' : Config} {seed seed' : UInt64} {allocOk allocOk' : Bool} {rx rx' : Rx}

theorem allTidy_run (h : rxNew cfg seed allocOk = some rx) (ops : List Op) :
    AllTidy (rx.run ops).toEngine (rx.run ops).flows := by
  refine (Run.exec_inv Rx.step (P := fun r => RxInv r ∧ AllTidy r.toEngine r.flows) ?_ ops rx
    ⟨rxInv_rxNew h, forall_mem_rxNew h⟩).2
  intro r op hr
  exact ⟨hr.1.step op, (moves_inv (P := fun x => TableInv x.1 x.2 ∧ AllTidy x.1 x.2)
    (fun x y hx hm => ⟨hx.1.move hm, hx.2.move hx.1 hm⟩) (step_moves hr.1.wf op)
    ⟨hr.1.table, hr.2⟩).2⟩

/-- What an undisturbed flow has come to: everything consecutive is delivered, and the
rest of what came is buffered. -/
theorem reassembled (h : rxNew cfg seed allocOk = some rx) (ops : List Op) {f : Flow}
    (hf : f ∈ (rx.run ops).flows) (hquiet : (intake f.key (rx.run ops).trace).disturbed = false)
    {s : ℕ} (hwin : (intake f.key (rx.run ops).trace).InWindow s f.buffer.cap) :
    Reassembly.IsMaxRun s (intake f.key (rx.run ops).trace).arrivals
        (intake f.key (rx.run ops).trace).deliveries ∧
      f.expected = s + (intake f.key (rx.run ops).trace).deliveries.length ∧
      f.buffer.held.Perm ((intake f.key (rx.run ops).trace).arrivals.filter fun x =>
        decide (f.expected ≤ x.1)) := by
  have hok := (rxInv_run h ops).table.flows f hf
  have htidy := allTidy_run h ops f hf
  generalize intake f.key (rx.run ops).trace = c at hquiet hwin htidy
  have hinit : f.initialized = true := by
    by_contra hi
    rw [Bool.not_eq_true] at hi
    have hfirst := hwin.first
    rw [(htidy.fresh hquiet hi).1] at hfirst
    cases hfirst
  have hasm := htidy.assembled hquiet hinit s hwin
  have hlen : c.deliveries.length = f.expected - s := by
    have := congrArg length hasm.run
    simpa using this
  have hexp : f.expected = s + c.deliveries.length := by
    have := hasm.le
    omega
  have hperm : (c.deliveries ++ f.buffer.held).Perm c.arrivals := by
    have := hasm.perm
    rwa [append_nil] at this
  have hbelow : ∀ x ∈ c.deliveries, x.1 < f.expected := by
    intro x hx
    have hmem : x.1 ∈ c.deliveries.map Prod.fst := mem_map_of_mem hx
    rw [hasm.run, mem_range'_1] at hmem
    have := hasm.le
    omega
  have hahead : ∀ x ∈ f.buffer.held, f.expected ≤ x.1 := fun x hx =>
    (hok.window x.1 (hok.ring.has_iff_held.mpr ⟨x, hx, rfl⟩)).1
  refine ⟨⟨by rw [hasm.run, hlen], fun x hx => hperm.subset (mem_append_left _ hx),
    fun x hx hstop => ?_⟩, hexp, Reassembly.perm_filter_of_run hperm hbelow hahead⟩
  -- the number at the frontier was neither delivered nor is it held
  rw [← hexp] at hstop
  rcases mem_append.mp (hperm.symm.subset hx) with hd | hh
  · have := hbelow x hd
    omega
  · exact hok.head (hok.ring.has_iff_held.mpr ⟨x, hh, hstop⟩)

/-- **The order of arrival does not matter.**  Two runs bring the same distinct packets
of a flow, the first being `s` and all in the window it opens, and nothing disturbs
them: they end with the same frontier and the same packets buffered, and deliver the
same packets in the same order, namely the longest run of consecutive numbers from `s`
on. -/
theorem arrival_order_irrelevant (h : rxNew cfg seed allocOk = some rx)
    (h' : rxNew cfg' seed' allocOk' = some rx') (ops ops' : List Op) {f f' : Flow}
    (hf : f ∈ (rx.run ops).flows) (hf' : f' ∈ (rx'.run ops').flows)
    (hquiet : (intake f.key (rx.run ops).trace).disturbed = false)
    (hquiet' : (intake f'.key (rx'.run ops').trace).disturbed = false) {s : ℕ}
    (hwin : (intake f.key (rx.run ops).trace).InWindow s f.buffer.cap)
    (hwin' : (intake f'.key (rx'.run ops').trace).InWindow s f'.buffer.cap)
    (hsame : (intake f.key (rx.run ops).trace).arrivals.Perm
      (intake f'.key (rx'.run ops').trace).arrivals) :
    f.expected = f'.expected ∧ f.buffer.held.Perm f'.buffer.held ∧
      (intake f.key (rx.run ops).trace).deliveries =
        (intake f'.key (rx'.run ops').trace).deliveries ∧
      Reassembly.IsMaxRun s (intake f.key (rx.run ops).trace).arrivals
        (intake f.key (rx.run ops).trace).deliveries := by
  -- each run is determined by its arrivals as a multiset
  obtain ⟨hrun, hexp, hheld⟩ := reassembled h ops hf hquiet hwin
  obtain ⟨hrun', hexp', hheld'⟩ := reassembled h' ops' hf' hquiet' hwin'
  have hdel := hrun.eq_of_perm hrun' hsame hwin.nodup
  have hfront : f.expected = f'.expected := by rw [hexp, hexp', hdel]
  refine ⟨hfront, hheld.trans (List.Perm.trans ?_ hheld'.symm), hdel, hrun⟩
  rw [hfront]
  exact hsame.filter _

/-- Packets 7, 8, 11 and 9, in this order. -/
def sampleGap : List Op :=
  [samplePacket 7 5000 1 1000, samplePacket 8 5000 2 1001, samplePacket 11 5000 3 1002,
    samplePacket 9 5000 4 1003]

/-- The same packets, 8 coming last. -/
def sampleOvertaken : List Op :=
  [samplePacket 7 5000 1 1000, samplePacket 11 5000 3 1001, samplePacket 9 5000 4 1002,
    samplePacket 8 5000 2 1003]

/-- Two orders of four packets: 7, 8 and 9 are delivered and 11 waits. -/
theorem arrival_order_irrelevant_overtaken :
    ∃ f ∈ (sampleRun 1 sampleGap).flows,
    ∃ f' ∈ (sampleRun 2 sampleOvertaken).flows,
      f.expected = 10 ∧ f.expected = f'.expected ∧ f.buffer.held.Perm f'.buffer.held := by
  have hplain : ∃ f ∈ (sampleRun 1 sampleGap).flows,
      ∃ f' ∈ (sampleRun 2 sampleOvertaken).flows, f.expected = 10 ∧
        (intake f.key (sampleRun 1 sampleGap).trace).disturbed = false ∧
        (intake f'.key (sampleRun 2 sampleOvertaken).trace).disturbed = false ∧
        (intake f.key (sampleRun 1 sampleGap).trace).InWindow 7 f.buffer.cap ∧
        (intake f'.key (sampleRun 2 sampleOvertaken).trace).InWindow 7
          f'.buffer.cap ∧
        (intake f.key (sampleRun 1 sampleGap).trace).arrivals.Perm
          (intake f'.key (sampleRun 2 sampleOvertaken).trace).arrivals := by
    decide +kernel
  unfold sampleRun at hplain ⊢
  obtain ⟨f, hf, f', hf', hten, hquiet, hquiet', hwin, hwin', hsame⟩ := hplain
  obtain ⟨hexp, hheld, -, -⟩ := arrival_order_irrelevant (rxNew_of_validate rfl 1)
    (rxNew_of_validate rfl 2) sampleGap sampleOvertaken hf hf' hquiet hquiet' hwin hwin' hsame
  exact ⟨f, hf, f', hf', hten, hexp, hheld⟩

end Mqvpn.Reorder
