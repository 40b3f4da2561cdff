import Mqvpn.Reorder.Contract

/-!
# The byte budget of a flow

A packet that would take its flow over the byte budget makes the engine skip the head
gap: the contiguous run behind the gap is delivered and its bytes are free.  The
packet is then looked at again, and if it is still ahead it goes on to the pool stage —
the budget is not looked at again.  So the budget holds as long as every such flush
frees enough, which can be told from the ring before it: `FlushMakesRoom`.

## Main definitions

* `Ring.runEnd`, `Ring.bytesFrom` — the end of a contiguous run, and the bytes behind it.
* `Drains` — what a drain does to the set of packets held.
* `FlushMakesRoom` — what the flush leaves and the packet together fit the budget.

## Main results

* `flow_within_budget` — **the budget holds along runs whose flushes make room**.
-/

namespace Mqvpn.Reorder

open List

open Relation (ReflTransGen)

/-! ### Runs in the ring -/

/-- The first number from `s` on that is not held. -/
def Ring.runEnd (r : Ring) (s : ℕ) : ℕ :=
  s + ((List.range r.size).find? fun i => !ringContains r (s + i)).getD r.size

/-- The bytes of the packets from `s` on. -/
def Ring.bytesFrom (r : Ring) (s : ℕ) : ℕ :=
  ((r.buffered.filter fun x => decide (s ≤ x.seq)).map Slot.len).sum

theorem runEnd_spec {r : Ring} {e s : ℕ} (hwin : r.Window e) (hs : e ≤ s) :
    s ≤ r.runEnd s ∧ (∀ t, s ≤ t → t < r.runEnd s → r.Has t) ∧ ¬ r.Has (r.runEnd s) := by
  unfold Ring.runEnd
  cases hfind : (range r.size).find? fun i => !ringContains r (s + i) with
  | some i =>
    rw [find?_range_eq_some] at hfind
    obtain ⟨hstop, -, hbefore⟩ := hfind
    refine ⟨Nat.le_add_right _ _, fun t hlo hhi => ?_, ?_⟩
    · obtain ⟨j, rfl⟩ : ∃ j, t = s + j := ⟨t - s, by omega⟩
      have := hbefore j (by simpa using hhi)
      simpa [Ring.Has] using this
    · simpa [Ring.Has] using hstop
  | none =>
    -- the run fills the ring: the number behind it is out of the window
    rw [find?_eq_none] at hfind
    refine ⟨Nat.le_add_right _ _, fun t hlo hhi => ?_, fun hhas => ?_⟩
    · obtain ⟨j, rfl⟩ : ∃ j, t = s + j := ⟨t - s, by omega⟩
      have := hfind j (mem_range.mpr (by simpa using hhi))
      simpa [Ring.Has] using this
    · have := (hwin _ hhas).2
      simp only [Option.getD_none] at this
      omega

/-! ### What a drain does to the packets held -/

/-- Draining `r` from `e` on left `r'` and the frontier `e'`. -/
structure Drains (r : Ring) (e : ℕ) (r' : Ring) (e' : ℕ) : Prop where
  ok : RingOk r'
  le : e ≤ e'
  has_iff : ∀ t, r'.Has t ↔ r.Has t ∧ e' ≤ t
  run : ∀ t, e ≤ t → t < e' → r.Has t
  perm : r'.buffered.Perm (r.buffered.filter fun s => decide (e' ≤ s.seq))

variable {w : Work} {now : UInt64} {rest hand owed : ℕ}

theorem Drains.refl {r : Ring} {e : ℕ} (hok : RingOk r) (hlo : ∀ t, r.Has t → e ≤ t) :
    Drains r e r e where
  ok := hok
  le := le_rfl
  has_iff := fun t => ⟨fun ht => ⟨ht, hlo t ht⟩, fun ht => ht.1⟩
  run := fun t hge hlt => by omega
  perm := by
    rw [filter_eq_self.mpr fun s hs => ?_]
    exact decide_eq_true (hlo s.seq (hok.has_iff.mpr ⟨s, hs, rfl⟩))

/-- One more packet leaves. -/
theorem Drains.remove {r r' r'' : Ring} {e e' : ℕ} {x : Removed} (h : Drains r e r' e')
    (hrem : Removes r' e' x r'') : Drains r e r'' (e' + 1) where
  ok := hrem.ok
  le := h.le.trans (Nat.le_succ _)
  has_iff := by
    intro t
    rw [hrem.has_iff, h.has_iff]
    constructor
    · rintro ⟨⟨ht, hle⟩, hne⟩
      exact ⟨ht, by omega⟩
    · rintro ⟨ht, hle⟩
      exact ⟨⟨ht, by omega⟩, by omega⟩
  run := by
    intro t hge hlt
    by_cases heq : t = e'
    · exact heq ▸ ((h.has_iff e').mp hrem.has).1
    · exact h.run t hge (by omega)
  perm := by
    -- filtering in two steps, the packet that left goes in the second
    obtain ⟨s, hs, -, hperm⟩ := hrem.perm
    have hnone : ∀ u ∈ r''.buffered, decide (e' + 1 ≤ u.seq) = true := by
      intro u hu
      have hhas := (hrem.has_iff u.seq).mp (hrem.ok.has_iff.mpr ⟨u, hu, rfl⟩)
      have := ((h.has_iff u.seq).mp hhas.1).2
      have := hhas.2
      exact decide_eq_true (by omega)
    have htwo : (r.buffered.filter fun s => decide (e' ≤ s.seq)).filter
        (fun s => decide (e' + 1 ≤ s.seq)) =
          r.buffered.filter fun s => decide (e' + 1 ≤ s.seq) := by
      rw [filter_filter]
      refine filter_congr fun u _ => ?_
      by_cases hle : e' + 1 ≤ u.seq
      · simp [hle, Nat.le_of_succ_le hle]
      · simp [hle]
    have hstep := (h.perm.symm.trans hperm).filter fun s => decide (e' + 1 ≤ s.seq)
    rw [htwo, filter_cons_of_neg (by simp [hs]), filter_eq_self.mpr hnone] at hstep
    exact hstep.symm

section
variable (now : UInt64)

theorem drains_drainContiguous {w : Work} (hok : RingOk w.f.buffer)
    (hlo : ∀ t, w.f.buffer.Has t → w.f.expected ≤ t) :
    Drains w.f.buffer w.f.expected (drainContiguous now w).f.buffer
      (drainContiguous now w).f.expected := by
  refine Loop.run_inv (P := fun v : Work =>
    Drains w.f.buffer w.f.expected v.f.buffer v.f.expected) ?_ _ w (Drains.refl hok hlo)
  intro v v' hv hs
  obtain ⟨x, buffer, hrem, rfl⟩ := drainStep_some hs
  exact hv.remove (ringRemove_spec hv.ok hrem)

/-- A drain that has stopped went to the end of the run. -/
theorem Drains.eq_runEnd {r r' : Ring} {e e₀ e' : ℕ} (h : Drains r e r' e') (hwin : r.Window e₀)
    (he : e₀ ≤ e) (hstop : ¬ r'.Has e') : e' = r.runEnd e := by
  obtain ⟨hle, hrun, hend⟩ := runEnd_spec hwin he
  rcases Nat.lt_trichotomy e' (r.runEnd e) with hlt | heq | hgt
  · exact absurd ((h.has_iff e').mpr ⟨hrun e' h.le hlt, le_rfl⟩) hstop
  · exact heq
  · exact absurd (h.run _ hle hgt) hend

theorem Drains.bytes {r r' : Ring} {e e' : ℕ} (h : Drains r e r' e') :
    r'.bytes = r.bytesFrom e' := by
  rw [h.ok.bytes, (h.perm.map Slot.len).sum_eq]
  rfl

/-! ### What a flush leaves -/

theorem overflowFlush_buffer (w : Work) :
    (overflowFlush now w).f.buffer = (drainContiguous now w.flushing).f.buffer ∧
      (overflowFlush now w).f.expected = (drainContiguous now w.flushing).f.expected := by
  unfold overflowFlush
  simp only [skipToLowestAndDrain_eq]
  obtain ⟨hb₁, he₁, -, -⟩ := advances_periodStartIfNeeded now (periodEndIfDone .overflow
    ((drainContiguous now w.flushing).touch now))
  obtain ⟨hb₂, he₂, -, -⟩ := advances_periodEndIfDone .overflow
    ((drainContiguous now w.flushing).touch now)
  exact ⟨hb₁.trans hb₂, he₁.trans he₂⟩

/-- **A flush delivers the run behind the head gap and leaves the rest.** -/
theorem overflowFlush_drains (h : Mid rest hand owed w) (hne : ringEmpty w.f.buffer = false) :
    (overflowFlush now w).f.expected =
        w.f.buffer.runEnd (ringLowestSeq w.f.buffer w.f.expected) ∧
      (overflowFlush now w).f.buffer.bytes =
        w.f.buffer.bytesFrom (w.f.buffer.runEnd (ringLowestSeq w.f.buffer w.f.expected)) := by
  obtain ⟨hbuf, hexp⟩ := overflowFlush_buffer now w
  have hdrains := drains_drainContiguous now (w := w.flushing) h.ring
    (ringLowestSeq_spec h.ring h.window hne).2
  have hend := hdrains.eq_runEnd h.window (le_ringLowestSeq _ _) (not_has_drainContiguous _ _)
  rw [hbuf, hexp, hdrains.bytes, hend]
  exact ⟨rfl, rfl⟩

/-! ### Bytes only grow by admission -/

theorem bytes_drainContiguous_le (w : Work) :
    (drainContiguous now w).f.buffer.bytes ≤ w.f.buffer.bytes := by
  refine Loop.run_inv (P := fun v : Work => v.f.buffer.bytes ≤ w.f.buffer.bytes) ?_ _ w le_rfl
  intro v v' hv hs
  obtain ⟨x, buffer, hrem, rfl⟩ := drainStep_some hs
  obtain ⟨-, -, -, -, rfl⟩ := ringRemove_some hrem
  exact (Nat.sub_le _ _).trans hv

theorem bytes_overflowFlush_le (w : Work) :
    (overflowFlush now w).f.buffer.bytes ≤ w.f.buffer.bytes := by
  rw [(overflowFlush_buffer now w).1]
  exact bytes_drainContiguous_le now _

end

variable {a : Arrival} {budget : ℕ}

theorem bytes_deliverInOrder_le (a : Arrival) (w : Work) :
    (deliverInOrder a w).2.f.buffer.bytes ≤ w.f.buffer.bytes := by
  unfold deliverInOrder
  simp only
  rw [(advances_periodStartIfNeeded _ _).1, (advances_periodEndIfDone _ _).1]
  exact bytes_drainContiguous_le _ _

/-- A packet for which there is room takes no more than it needs. -/
theorem bytes_bufferInsertCommitted_le (a : Arrival) (w : Work) :
    (bufferInsertCommitted a w).2.f.buffer.bytes ≤ w.f.buffer.bytes + a.pkt.length := by
  unfold bufferInsertCommitted
  split
  · exact Nat.le_add_right _ _
  · split
    · exact Nat.le_add_right _ _
    · next buffer hins =>
      simp only
      rw [(advances_periodStartIfNeeded _ _).1]
      exact (ringInsert_frame hins).2.le

/-- The outcome keeps the flow within the budget. -/
def KeepsBudget (budget : ℕ) (r : ProcessResult × Work) : Prop := r.2.f.buffer.bytes ≤ budget

/-- With room for the packet, every way through admission keeps the budget. -/
theorem admitRule_budget (a : Arrival) (budget : ℕ) :
    AdmitRule a (fun w => w.f.buffer.bytes + a.pkt.length ≤ budget) (KeepsBudget budget) where
  flush w h _ := (Nat.add_le_add_right (bytes_overflowFlush_le a.now w) _).trans h
  late _ h _ := (Nat.le_add_right _ _).trans h
  next w h _ := (bytes_deliverInOrder_le a w).trans ((Nat.le_add_right _ _).trans h)
  far _ h _ := (Nat.le_add_right _ _).trans h
  dup _ h _ := (Nat.le_add_right _ _).trans h
  limit _ h := (Nat.le_add_right _ _).trans h
  pool _ h := (Nat.le_add_right _ _).trans h
  insert w h _ _ := (bytes_bufferInsertCommitted_le a w).trans h

/-! ### One packet -/

/-- If the packet trips a limit of its flow, and is neither held nor too far ahead, then what the
flush of the head gap leaves and the packet fit the budget together, or the flush takes the
frontier to the packet or past it. -/
def Fits (a : Arrival) (w : Work) : Prop :=
  wouldExceedPerFlowLimits a.pkt.length w = true → ringEmpty w.f.buffer = false →
    ¬ w.f.buffer.Has a.seq → ringFarAhead w.f.buffer a.seq w.f.expected = false →
    w.f.buffer.runEnd (ringLowestSeq w.f.buffer w.f.expected) < a.seq →
      w.f.buffer.bytesFrom (w.f.buffer.runEnd (ringLowestSeq w.f.buffer w.f.expected)) +
        a.pkt.length ≤ w.rx.cfg.maxBufferBytesPerFlow

instance (a : Arrival) (w : Work) : Decidable (Fits a w) := by unfold Fits; infer_instance

theorem budget_bufferAdmit (hmid : Mid rest hand owed w)
    (h : w.f.buffer.bytes ≤ w.rx.cfg.maxBufferBytesPerFlow) (hfits : Fits a w)
    (hahead : w.f.expected < a.seq) (hnear : ringFarAhead w.f.buffer a.seq w.f.expected = false) :
    KeepsBudget w.rx.cfg.maxBufferBytesPerFlow (bufferAdmit a w) := by
  unfold bufferAdmit
  split
  · exact h
  · next hnew =>
    split
    · next hlimit =>
      split
      · exact h
      · next hne =>
        have hne' : ringEmpty w.f.buffer = false := by simpa using hne
        obtain ⟨hexp, hbytes⟩ := overflowFlush_drains a.now hmid hne'
        have hle := (bytes_overflowFlush_le a.now w).trans h
        generalize overflowFlush a.now w = v at hexp hbytes hle ⊢
        -- only a packet that is still ahead goes on to the pool stage
        rcases reclassifyAfterFlush_cases a v with
          ⟨heq, hadm⟩ | ⟨heq, -⟩ | ⟨heq, -⟩ | ⟨heq, -⟩ | ⟨heq, -⟩ <;> rw [heq]
        · have hroom := hfits hlimit hne' hnew hnear (hexp ▸ hadm.ahead)
          rw [← hbytes] at hroom
          exact (admitRule_budget a _).admitPool hroom hadm
        · exact hle
        · exact (bytes_deliverInOrder_le a v).trans hle
        · exact hle
        · exact hle
    · next hlimit =>
      refine (admitRule_budget a _).admitPool ?_ ⟨hahead, hnear, hnew⟩
      simp only [wouldExceedPerFlowLimits, Bool.or_eq_true, decide_eq_true_eq, not_or] at hlimit
      omega

theorem budget_processReorderPacket (hmid : Mid rest hand owed w)
    (h : w.f.buffer.bytes ≤ w.rx.cfg.maxBufferBytesPerFlow) (hfits : Fits a w) :
    KeepsBudget w.rx.cfg.maxBufferBytesPerFlow (processReorderPacket a w) := by
  unfold processReorderPacket
  split
  · exact h
  · split
    · exact (bytes_deliverInOrder_le a w).trans h
    · split
      · exact h
      · split
        · exact h
        · next hnear => exact budget_bufferAdmit hmid h hfits (by omega) (by simpa using hnear)

theorem bytes_classifyAndDemote_le (a : Arrival) (w : Work) :
    (classifyAndDemote a w).f.buffer.bytes ≤ w.f.buffer.bytes := by
  have hcl : (classifyUpdate a.pkt w).2.f.buffer = w.f.buffer := by
    unfold classifyUpdate
    split
    · rfl
    · split <;> rfl
  unfold classifyAndDemote
  split
  · next w₁ heq => rw [heq] at hcl; rw [hcl]
  · exact Nat.zero_le _

/-- **A packet that fits keeps its flow within the budget.** -/
theorem budget_onReordered (hdone : Done rest w)
    (h : w.f.buffer.bytes ≤ w.rx.cfg.maxBufferBytesPerFlow) (hfits : Fits a w) :
    (onReordered a w).f.buffer.bytes ≤ w.rx.cfg.maxBufferBytesPerFlow := by
  unfold onReordered
  simp only
  split
  · exact Nat.zero_le _
  · split
    · exact h
    · have hproc := budget_processReorderPacket (a := a) (w := dispatch a w)
        hdone.toMid.dispatch h hfits
      split
      · exact (bytes_classifyAndDemote_le a _).trans hproc
      · exact hproc

theorem bytes_onGapTimeout_le (now : UInt64) (w : Work) :
    (onGapTimeout now w).f.buffer.bytes ≤ w.f.buffer.bytes := by
  unfold onGapTimeout
  split
  · exact le_rfl
  · simp only
    rw [(advances_periodStartIfNeeded _ _).1]
    refine Loop.run_inv (P := fun v : Work => v.f.buffer.bytes ≤ w.f.buffer.bytes) ?_ _ _ le_rfl
    intro v v' hv hs
    obtain ⟨-, rfl⟩ := skips_timeoutStep now v v' hs
    exact (bytes_drainContiguous_le now _).trans hv

/-! ### Runs -/

/-- The call, if it is a packet of a known flow, finds room after the flush it may
cause. -/
def FlushMakesRoom (rx : Rx) : Op → Prop
  | .onPacket payload now alloc =>
      ∀ p ∈ rx.cfg.arrivalOf payload now alloc, ∀ f ∈ flowLookup rx p.1,
        Fits p.2 { rx := rx.toEngine, f := f }
  | _ => True

instance (rx : Rx) (op : Op) : Decidable (FlushMakesRoom rx op) := by
  cases op <;> unfold FlushMakesRoom <;> infer_instance

def InBudget (e : Engine) (fs : List Flow) : Prop :=
  ∀ f ∈ fs, f.buffer.bytes ≤ e.cfg.maxBufferBytesPerFlow

theorem InBudget.move {x y : Engine × List Flow} {T : Prop} {C : Arrival → Work → Prop}
    (htable : TableInv x.1 x.2) (h : InBudget x.1 x.2) (hC : ∀ a w, C a w → Fits a w)
    (hm : Move now T C x y) : InBudget y.1 y.2 := by
  cases hm with
  | perm hp => exact fun f hf => h f (hp.symm.subset hf)
  | bounds | knob | pass => exact h
  | create key =>
    intro f hf
    rcases mem_cons.mp hf with rfl | hf
    · exact Nat.zero_le _
    · exact h f hf
  | @packet e f fs a hseq hnow hdisp =>
    have hcfg : (onReordered a { rx := e, f := f }).rx.cfg = e.cfg :=
      (within_onReordered (a := a)).cfg
    intro g hg
    rw [hcfg]
    rcases mem_cons.mp hg with rfl | hg
    · exact budget_onReordered htable.done (h f mem_cons_self) (hC a _ hdisp)
    · exact h g (mem_cons_of_mem _ hg)
  | @timeout e f fs =>
    have hcfg : (onGapTimeout now { rx := e, f := f }).rx.cfg = e.cfg :=
      (within_onGapTimeout now _).cfg
    intro g hg
    rw [hcfg]
    rcases mem_cons.mp hg with rfl | hg
    · exact (bytes_onGapTimeout_le now { rx := e, f := f }).trans (h f mem_cons_self)
    · exact h g (mem_cons_of_mem _ hg)
  | @destroy e f fs =>
    have hcfg : (e.drop f).cfg = e.cfg := (flowDestroy_frame e f).1
    intro g hg
    rw [hcfg]
    exact h g (mem_cons_of_mem _ hg)

/-- The dispatches of a call that finds room. -/
theorem fits_of_dispatches {rx : Rx} {op : Op} (h : FlushMakesRoom rx op) {a : Arrival} {w : Work}
    (hd : rx.Dispatches op a w) : Fits a w := by
  obtain ⟨payload, now, alloc, key, rfl, harr, ⟨hl, hrx⟩ | ⟨-, hnew⟩⟩ := hd
  · have hfits := h (key, a) harr w.f hl
    rw [← hrx] at hfits
    exact hfits
  · -- a fresh flow buffers nothing
    intro _ hne
    rw [hnew] at hne
    cases hne

variable {cfg : Config} {seed : UInt64} {allocOk : Bool} {rx : Rx}

/-- **Along every run in which each flush makes room, every flow stays within its byte
budget**; and in any run no flow holds more packets than its capacity. -/
theorem flow_within_budget (h : rxNew cfg seed allocOk = some rx) (ops : List Op)
    (hroom : Run.Along Rx.step FlushMakesRoom rx ops) :
    ∀ f ∈ (rx.run ops).flows, f.buffer.bytes ≤ cfg.maxBufferBytesPerFlow ∧
      f.buffer.count ≤ f.buffer.cap := by
  have hstart : InBudget rx.toEngine rx.flows := forall_mem_rxNew h
  have hinv := Run.along_inv Rx.step (C := FlushMakesRoom)
    (P := fun r => RxInv r ∧ InBudget r.toEngine r.flows)
    (fun r op hr hfit => ⟨hr.1.step op, (moves_inv
      (P := fun x => TableInv x.1 x.2 ∧ InBudget x.1 x.2)
      (fun x y hx hm => ⟨hx.1.move hm, hx.2.move hx.1 (fun _ _ => fits_of_dispatches hfit) hm⟩)
      (step_moves hr.1.wf op) ⟨hr.1.table, hr.2⟩).2⟩)
    ops rx ⟨rxInv_rxNew h, hstart⟩ hroom
  -- the bound on the number of packets needs no condition: the size is within the capacity
  intro f hf
  have hring := (hinv.1.table.flows f hf).ring
  refine ⟨?_, hring.count_le_size.trans hring.size_le_cap⟩
  obtain ⟨force, hcfg⟩ := cfg_run h ops
  have hbytes := hinv.2 f hf
  rw [show (Run.exec Rx.step rx ops).toEngine.cfg = _ from hcfg] at hbytes
  exact hbytes

/-- A small budget: the flush caused by the last packet delivers the packet that is
held, which makes room. -/
theorem flow_within_small_budget :
    let rx := (Rx.initial { sampleConfig with maxBufferBytesPerFlow := 256 } 1).run
      [samplePacket 0 5000 1 1000, samplePacket 2 5000 172 1001, samplePacket 4 5000 172 1002]
    rx.flows.map (fun f => f.buffer.bytes) = [200] ∧
      ∀ f ∈ rx.flows, f.buffer.bytes ≤ 256 ∧ f.buffer.count ≤ f.buffer.cap :=
  ⟨by decide +kernel, flow_within_budget (rxNew_of_validate rfl 1) _ (by decide +kernel)⟩

/-- **The flush does not make room**: with 29 and 200 bytes held behind two gaps, a
packet of 200 bytes trips the budget of 256; the flush frees the 29 bytes at the head,
and the packet is admitted next to the other 200. -/
theorem flow_over_budget :
    ∃ f ∈ ((Rx.initial { sampleConfig with maxBufferBytesPerFlow := 256 } 1).run
      [samplePacket 0 5000 1 1000, samplePacket 2 5000 1 1001, samplePacket 4 5000 172 1002,
        samplePacket 6 5000 172 1003]).flows, ¬ f.buffer.bytes ≤ 256 := by
  decide +kernel

end Mqvpn.Reorder
