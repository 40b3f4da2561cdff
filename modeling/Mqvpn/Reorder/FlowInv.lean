import Mqvpn.Reorder.Frame

/-!
# The invariant of a receive flow

The source states its invariants "at operation boundaries, not in the middle of a
drain".  Here they come in two parts.  `FlowMid` holds throughout an operation: the
ring and its window, the marks, the two accounting identities — with a packet in hand
and a period end charged early taken into account — and the order of what has been
delivered.  `Settled` is what the end of an operation adds: the timer runs exactly
when packets wait, it waits for something ahead, and nothing deliverable is held back.

`Mid` puts next to `FlowMid` what the flow shares with the others, the pool and the
trace; `rest` is what the other flows buffer.

## Main definitions

* `FlowMid`, `Settled`, `FlowOk` — the invariant, inside an operation and between two.
* `Mid`, `Done` — the same with the shared state.

## Main results

* `Done.onGapTimeout` — **a timeout keeps the invariant**.
-/

namespace Mqvpn.Reorder

open List

/-! ### The accounting identities -/

/-- The wait periods that have ended, on whichever counter. -/
def Stats.gapEnds (st : Stats) : ℕ :=
  st.gapFilledCount + st.gapTimeoutCount + st.gapOverflowCount + st.gapDemoteCount +
    st.gapResetCount

/-- The packets that were delivered, dropped or discarded. -/
def Stats.disposed (st : Stats) : ℕ :=
  st.deliveredCount + st.tooLateDropCount + st.tooFarAheadDropCount + st.duplicateDropCount +
    st.perFlowLimitDropCount + st.poolDropCount + st.resetDiscardCount

section
variable (st : Stats)

theorem gapEnds_endGap (c : GapEnd) : (st.endGap c).gapEnds = st.gapEnds + 1 := by
  cases c <;> simp only [Stats.endGap, Stats.gapEnds] <;> omega

theorem residence_endGap (c : GapEnd) :
    (st.endGap c).residenceBucket = st.residenceBucket ∧
      (st.endGap c).deliveredCount = st.deliveredCount := by
  cases c <;> exact ⟨rfl, rfl⟩

theorem latBucket_lt (residenceUs : UInt64) : latBucket residenceUs < 12 := by
  have hstep : ∀ i j, i < 12 → latStep residenceUs i = some j → j < 12 := by
    intro i j _ h
    unfold latStep at h
    split at h
    · cases h; omega
    · cases h
  exact Loop.run_inv hstep 11 0 (by decide)

theorem sum_modify_succ : ∀ (l : List ℕ) (i : ℕ), i < l.length →
    (l.modify i (· + 1)).sum = l.sum + 1 := by
  intro l
  induction l with
  | nil => intro i h; cases h
  | cons a l ih =>
    intro i h
    cases i with
    | zero => simp only [modify_zero_cons, sum_cons]; omega
    | succ i =>
      have := ih i (Nat.lt_of_succ_lt_succ h)
      simp only [modify_succ_cons, sum_cons, this]
      omega

/-- Recording a delivery puts it into exactly one bucket. -/
theorem sum_recordResidence {st : Stats} (h : st.residenceBucket.length = 12) (now enq : UInt64) :
    (recordResidence st now enq).residenceBucket.sum = st.residenceBucket.sum + 1 := by
  simp only [recordResidence]
  exact sum_modify_succ _ _ (by rw [h]; exact latBucket_lt _)

end

/-! ### The invariant -/

/-- What holds of a flow throughout an operation.  `hand` counts the packet being
processed, `owed` a period whose end was charged while its timer still runs. -/
structure FlowMid (hand owed : ℕ) (t : List Event) (f : Flow) : Prop where
  ring : RingOk f.buffer
  window : f.buffer.Window f.expected
  /-- `rxNext` is above everything held … -/
  below : ∀ s, f.buffer.Has s → s < f.rxNext
  /-- … and just above the highest, -/
  top : ∀ s, f.buffer.Has s → f.buffer.Has (f.rxNext - 1)
  /-- or behind the frontier. -/
  drained : (∀ s, ¬ f.buffer.Has s) → f.rxNext ≤ f.expected
  /-- The mark of a running period: its last packet is held until delivered. -/
  mark : f.gapTimerActive = true →
    f.reord ≤ f.rxNext ∧ (f.expected < f.reord → f.buffer.Has (f.reord - 1))
  fresh : f.initialized = false → f.rxNext = 0
  /-- Sequence numbers stay in their 48 bits. -/
  range : f.expected ≤ 2 ^ 48 ∧ f.rxNext ≤ 2 ^ 48
  /-- Every period ends once. -/
  gaps : f.stats.gapCount + owed = f.stats.gapEnds + f.gapTimerActive.toNat
  /-- Every packet ends in one place. -/
  packets : (arrivals f.key t).length = f.stats.disposed + f.buffer.count + hand
  hist : f.stats.residenceBucket.sum = f.stats.deliveredCount
  buckets : f.stats.residenceBucket.length = 12
  /-- Everything delivered in the open epoch lies behind the frontier. -/
  order : f.passThrough = false → ∃ l, epoch f.key t = some l ∧ (∀ s ∈ l, s < f.expected) ∧
    (f.initialized = false → l = [])
  /-- A demoted flow has no open epoch. -/
  demoted : f.passThrough = true → epoch f.key t = none

/-- What holds of a flow between two operations. -/
structure Settled (f : Flow) : Prop where
  /-- The timer runs exactly when packets wait. -/
  armed : f.gapTimerActive = true ↔ ringEmpty f.buffer = false
  /-- It waits for something. -/
  ahead : f.gapTimerActive = true → f.expected < f.reord
  /-- Nothing deliverable is held back. -/
  head : ¬ f.buffer.Has f.expected

/-- **The invariant of a flow between two operations.** -/
structure FlowOk (t : List Event) (f : Flow) : Prop extends FlowMid 0 0 t f, Settled f

/-- The flow together with what it shares; the other flows buffer `rest` bytes. -/
structure Mid (rest hand owed : ℕ) (w : Work) : Prop extends
    FlowMid hand owed w.rx.trace w.f where
  pool : w.rx.poolBytesUsed = rest + w.f.buffer.bytes
  poolMax : w.rx.poolBytesUsed ≤ w.rx.cfg.globalMaxBufferBytes
  noClamp : Event.clamped ∉ w.rx.trace
  ordered : ∀ k, Ordered k w.rx.trace

/-- The same between two operations. -/
structure Done (rest : ℕ) (w : Work) : Prop extends Mid rest 0 0 w, Settled w.f

variable {rest hand owed : ℕ} {w w' : Work} {now : UInt64}

theorem Mid.not_has_of_fresh (h : Mid rest hand owed w) (hf : w.f.rxNext = 0) (s : ℕ) :
    ¬ w.f.buffer.Has s := by
  intro hs
  have := h.below s hs
  omega

/-! ### Events and counters -/

/-- An event that says nothing about deliveries; `n` packets of the flow come in with it. -/
theorem Mid.record (h : Mid rest hand owed w) {e : Event} (n : ℕ)
    (harr : ∀ acc, (arrivalsStep w.f.key acc e).length = acc.length + n)
    (hep : ∀ k acc, epochStep k acc e = acc) (hcl : e ≠ .clamped) :
    Mid rest (hand + n) owed (w.emit e) :=
  { h with
    packets := by
      show (arrivals w.f.key (w.rx.trace ++ [e])).length = _
      rw [arrivals_snoc, harr, h.packets, Nat.add_assoc]
      rfl
    order := by
      intro hp
      show ∃ l, epoch w.f.key (w.rx.trace ++ [e]) = some l ∧ _
      rw [epoch_snoc, hep]
      exact h.order hp
    demoted := by
      intro hp
      show epoch w.f.key (w.rx.trace ++ [e]) = none
      rw [epoch_snoc, hep]
      exact h.demoted hp
    noClamp := not_clamped_snoc h.noClamp hcl.symm
    ordered := fun k => (h.ordered k).snoc_of_eq (hep k _) }

theorem Mid.emit (h : Mid rest hand owed w) {e : Event}
    (harr : ∀ k acc, arrivalsStep k acc e = acc) (hep : ∀ k acc, epochStep k acc e = acc)
    (hcl : e ≠ .clamped) : Mid rest hand owed (w.emit e) :=
  h.record 0 (fun acc => congrArg length (harr _ acc)) hep hcl

/-- The counters of a flow change: a packet is disposed of, or a period is charged. -/
theorem Mid.tally (h : Mid rest hand owed w) {hand' owed' : ℕ} {g : Stats → Stats}
    (hgaps : (g w.f.stats).gapCount + owed' + w.f.stats.gapEnds =
      w.f.stats.gapCount + owed + (g w.f.stats).gapEnds)
    (hdisposed : (g w.f.stats).disposed + hand' = w.f.stats.disposed + hand)
    (hresidence : (g w.f.stats).residenceBucket = w.f.stats.residenceBucket)
    (hdelivered : (g w.f.stats).deliveredCount = w.f.stats.deliveredCount) :
    Mid rest hand' owed' (w.tally g) :=
  { h with
    gaps := by
      have := h.gaps
      show (g w.f.stats).gapCount + owed' = (g w.f.stats).gapEnds + w.f.gapTimerActive.toNat
      omega
    packets := by
      have := h.packets
      show (arrivals w.f.key w.rx.trace).length =
        (g w.f.stats).disposed + w.f.buffer.count + hand'
      omega
    hist := by
      show (g w.f.stats).residenceBucket.sum = (g w.f.stats).deliveredCount
      rw [hresidence, hdelivered]
      exact h.hist
    buckets := by
      show (g w.f.stats).residenceBucket.length = 12
      rw [hresidence]
      exact h.buckets }

/-- `g` counts one packet as dropped, and nothing else. -/
structure Drops (g : Stats → Stats) : Prop where
  disposed : ∀ st, (g st).disposed = st.disposed + 1 := by
    intro st
    simp only [Stats.disposed]
    omega
  gapCount : ∀ st, (g st).gapCount = st.gapCount := by exact fun _ => rfl
  gapEnds : ∀ st, (g st).gapEnds = st.gapEnds := by exact fun _ => rfl
  residence : ∀ st, (g st).residenceBucket = st.residenceBucket := by exact fun _ => rfl
  delivered : ∀ st, (g st).deliveredCount = st.deliveredCount := by exact fun _ => rfl

/-- The packet in hand is dropped on some counter. -/
theorem Mid.drop (h : Mid rest (hand + 1) owed w) {g : Stats → Stats} (hg : Drops g) :
    Mid rest hand owed (w.tally g) := by
  refine h.tally ?_ ?_ (hg.residence _) (hg.delivered _)
  · rw [hg.gapCount, hg.gapEnds]
  · rw [hg.disposed]
    omega

/-- The end of the period is charged before its timer stops. -/
theorem Mid.charge (h : Mid rest hand owed w) (c : GapEnd) :
    Mid rest hand (owed + 1) (w.tally (·.endGap c)) := by
  refine h.tally ?_ ?_ (residence_endGap _ c).1 (residence_endGap _ c).2
  · rw [gapEnds_endGap, show (w.f.stats.endGap c).gapCount = w.f.stats.gapCount by cases c <;> rfl]
    omega
  · cases c <;> rfl

/-- Only the counters know of a charge. -/
theorem chargeIfActive_eq (c : GapEnd) (w : Work) :
    ∃ stats, chargeIfActive c w = { w with f := { w.f with stats := stats } } := by
  unfold chargeIfActive
  split
  · exact ⟨_, rfl⟩
  · exact ⟨w.f.stats, rfl⟩

theorem Mid.chargeIfActive (h : Mid rest hand 0 w) (c : GapEnd) :
    Mid rest hand w.f.gapTimerActive.toNat (chargeIfActive c w) := by
  unfold Reorder.chargeIfActive
  split
  · next hact => rw [hact]; exact h.charge c
  · next hact => rw [Bool.not_eq_true] at hact; rw [hact]; exact h

/-- Stopping a timer whose period is charged. -/
theorem Mid.stopGapTimer (h : Mid rest hand w.f.gapTimerActive.toNat w) :
    Mid rest hand 0 (stopGapTimer w) :=
  { h with
    mark := fun hact => Bool.noConfusion hact
    gaps := by
      have := h.gaps
      show w.f.stats.gapCount + 0 = w.f.stats.gapEnds + 0
      omega }

theorem Mid.touch (h : Mid rest hand owed w) (now : UInt64) : Mid rest hand owed (w.touch now) :=
  { h with }

/-! ### Delivery -/

theorem ordered_delivered {t : List Event} (h : ∀ k, Ordered k t) {key : FlowKey} {s : ℕ}
    {pkt : Packet} (hlt : ∀ l, epoch key t = some l → ∀ x ∈ l, x < s) :
    ∀ k, Ordered k (t ++ [.delivered key s pkt]) := by
  intro k
  by_cases hk : key = k
  · subst hk
    refine (h key).snoc fun l hl => ?_
    simp only [epochStep, ↓reduceIte] at hl
    cases hep : epoch key t with
    | none => rw [hep] at hl; cases hl
    | some l₀ =>
      rw [hep, Option.map_some, Option.some.injEq] at hl
      rw [← hl, pairwise_append]
      refine ⟨(h key).current hep, pairwise_singleton _ _, fun x hx y hy => ?_⟩
      rw [mem_singleton] at hy
      rw [hy]
      exact hlt l₀ hep x hx
  · exact (h k).snoc_of_eq (by simp only [epochStep, if_neg hk])

theorem epoch_delivered (key : FlowKey) (t : List Event) (s : ℕ) (pkt : Packet) :
    epoch key (t ++ [.delivered key s pkt]) = (epoch key t).map (· ++ [s]) := by
  rw [epoch_snoc]
  simp only [epochStep, ↓reduceIte]

theorem arrivals_delivered (key key' : FlowKey) (t : List Event) (s : ℕ) (pkt : Packet) :
    arrivals key (t ++ [.delivered key' s pkt]) = arrivals key t := arrivals_snoc _ _ _

theorem disposed_deliver (st : Stats) (now enq : UInt64) :
    (recordResidence { st with deliveredCount := st.deliveredCount + 1 } now enq).disposed =
      st.disposed + 1 := by
  simp only [recordResidence, Stats.disposed]
  omega

theorem hist_deliver {st : Stats} (hlen : st.residenceBucket.length = 12)
    (hsum : st.residenceBucket.sum = st.deliveredCount) (now enq : UInt64) :
    (recordResidence { st with deliveredCount := st.deliveredCount + 1 } now
        enq).residenceBucket.sum = st.deliveredCount + 1 ∧
      (recordResidence { st with deliveredCount := st.deliveredCount + 1 } now
        enq).residenceBucket.length = 12 := by
  refine ⟨?_, (length_modify ..).trans hlen⟩
  rw [sum_recordResidence (by exact hlen)]
  exact congrArg (· + 1) hsum

/-- The packet at the frontier is delivered, out of the ring or out of the hand: the
ring that is left, `r`, holds everything but that number. -/
theorem Mid.advance (h : Mid rest hand owed w) (r : Ring) (pool : ℕ) {hand' : ℕ} {pkt : Packet}
    {now enq : UInt64} (hinit : w.f.initialized = true) (hexp : w.f.expected < 2 ^ 48)
    (hok : RingOk r) (hsize : r.size = w.f.buffer.size)
    (hhas : ∀ t, r.Has t ↔ w.f.buffer.Has t ∧ t ≠ w.f.expected)
    (hcount : r.count + hand' + 1 = w.f.buffer.count + hand)
    (hpool : pool = rest + r.bytes) (hmax : pool ≤ w.rx.cfg.globalMaxBufferBytes) :
    Mid rest hand' owed ((deliverPkt w.f.expected pkt now enq
      { rx := { w.rx with poolBytesUsed := pool }, f := { w.f with buffer := r } }).setExpected
        (w.f.expected + 1)) where
  ring := hok
  window := by
    intro s hs
    obtain ⟨hs, hne⟩ := (hhas s).mp hs
    have := h.window s hs
    show w.f.expected + 1 ≤ s ∧ s < w.f.expected + 1 + r.size
    rw [hsize]
    omega
  below := fun s hs => h.below s ((hhas s).mp hs).1
  top := by
    -- if the frontier was the highest number held, nothing else was
    intro s hs
    obtain ⟨hs, hne⟩ := (hhas s).mp hs
    refine (hhas _).mpr ⟨h.top s hs, ?_⟩
    have hlo := (h.window s hs).1
    have hhi := h.below s hs
    show w.f.rxNext - 1 ≠ w.f.expected
    omega
  drained := by
    intro hnone
    show w.f.rxNext ≤ w.f.expected + 1
    by_cases hempty : ∀ s, ¬ w.f.buffer.Has s
    · have := h.drained hempty
      omega
    · rw [not_forall] at hempty
      obtain ⟨s, hs⟩ := hempty
      rw [not_not] at hs
      -- the highest number held is the one that left
      by_contra hlt
      exact hnone (w.f.rxNext - 1) ((hhas _).mpr ⟨h.top s hs, by omega⟩)
  mark := by
    intro hact
    refine ⟨(h.mark hact).1, fun hlt => ?_⟩
    have hlt' : w.f.expected + 1 < w.f.reord := hlt
    exact (hhas _).mpr ⟨(h.mark hact).2 (by omega), by show w.f.reord - 1 ≠ _; omega⟩
  fresh := fun hf => absurd (hf.symm.trans hinit) Bool.false_ne_true
  range := ⟨hexp, h.range.2⟩
  gaps := h.gaps
  packets := by
    show (arrivals w.f.key (w.rx.trace ++ [_])).length =
      (recordResidence { w.f.stats with deliveredCount := w.f.stats.deliveredCount + 1 } now
        enq).disposed + r.count + hand'
    have := h.packets
    rw [arrivals_delivered, disposed_deliver]
    omega
  hist := (hist_deliver h.buckets h.hist now enq).1
  buckets := (hist_deliver h.buckets h.hist now enq).2
  order := by
    intro hp
    obtain ⟨l, hl, hlt, -⟩ := h.order hp
    refine ⟨l ++ [w.f.expected], ?_, ?_, ?_⟩
    · show epoch w.f.key (w.rx.trace ++ [_]) = _
      rw [epoch_delivered, hl]
      rfl
    · intro s hs
      show s < w.f.expected + 1
      rcases mem_append.mp hs with hs | hs
      · have := hlt s hs
        omega
      · rw [mem_singleton] at hs
        omega
    · exact fun hf => absurd (hf.symm.trans hinit) Bool.false_ne_true
  demoted := by
    intro hp
    show epoch w.f.key (w.rx.trace ++ [_]) = none
    rw [epoch_delivered, h.demoted hp]
    rfl
  pool := hpool
  poolMax := hmax
  noClamp := not_clamped_snoc h.noClamp nofun
  ordered := by
    refine ordered_delivered h.ordered fun l hl x hx => ?_
    cases hp : w.f.passThrough with
    | true => rw [show epoch w.f.key w.rx.trace = none from h.demoted hp] at hl; cases hl
    | false =>
      obtain ⟨l', hl', hlt, -⟩ := h.order hp
      have hll : l = l' := Option.some.inj (hl.symm.trans hl')
      exact hlt x (hll ▸ hx)

/-! ### Draining -/

theorem release_eq {len : ℕ} (h : len ≤ w.rx.poolBytesUsed) :
    w.release len =
      { w with rx := { w.rx with poolBytesUsed := w.rx.poolBytesUsed - len } } := by
  rw [Work.release, poolRelease, if_pos h]

/-- **One delivery out of the ring.** -/
theorem Mid.drainStep (h : Mid rest hand owed w) (hs : drainStep now w = some w') :
    Mid rest hand owed w' := by
  obtain ⟨x, buffer, hrem, rfl⟩ := drainStep_some hs
  have hspec := ringRemove_spec h.ring hrem
  have hbytes := hspec.bytes
  have hcount := hspec.count
  have hpool := h.pool
  have hmax := h.poolMax
  have hlo := h.below _ hspec.has
  have hrange := h.range
  -- a flow that holds a packet has seen its first one
  have hinit : w.f.initialized = true := by
    cases hi : w.f.initialized with
    | true => rfl
    | false => exact absurd hspec.has (h.not_has_of_fresh (h.fresh hi) _)
  rw [release_eq (by show x.len ≤ w.rx.poolBytesUsed; omega)]
  exact h.advance buffer (w.rx.poolBytesUsed - x.len) hinit (by omega) hspec.ok
    hspec.size hspec.has_iff (by omega) (by omega) (by omega)

theorem Mid.drainContiguous (h : Mid rest hand owed w) (now : UInt64) :
    Mid rest hand owed (drainContiguous now w) :=
  Loop.run_inv (fun _ _ h hs => h.drainStep hs) _ w h

theorem length_buffered_of_drainStep (hs : Reorder.drainStep now w = some w') :
    w'.f.buffer.buffered.length < w.f.buffer.buffered.length := by
  obtain ⟨x, buffer, hrem, rfl⟩ := drainStep_some hs
  exact length_buffered_of_ringRemove hrem

/-- A drain stops at a number that is not held. -/
theorem not_has_drainContiguous (now : UInt64) (w : Work) :
    ¬ (Reorder.drainContiguous now w).f.buffer.Has (Reorder.drainContiguous now w).f.expected := by
  have hstop := Loop.run_stops (P := fun _ => True) (fun v : Work => v.f.buffer.buffered.length)
    (fun v v' _ (hs : Reorder.drainStep now v = some v') =>
      ⟨trivial, length_buffered_of_drainStep hs⟩)
    w.f.buffer.size w trivial (Residue.length_occupied_le _)
  intro hhas
  rw [← Reorder.drainContiguous, drainStep_eq_none] at hstop
  exact ringRemove_eq_none.mp hstop hhas

/-- A drain leaves fewer packets if there was something to deliver. -/
theorem length_buffered_drainContiguous_lt (hhas : w.f.buffer.Has w.f.expected) :
    (Reorder.drainContiguous now w).f.buffer.buffered.length < w.f.buffer.buffered.length := by
  cases hs : Reorder.drainStep now w with
  | none => exact absurd hhas (ringRemove_eq_none.mp (drainStep_eq_none.mp hs))
  | some w₁ =>
    have hlt := length_buffered_of_drainStep hs
    have hpos : 0 < w.f.buffer.size :=
      Nat.lt_of_lt_of_le (Nat.lt_of_le_of_lt (Nat.zero_le _) hlt) (Residue.length_occupied_le _)
    unfold Reorder.drainContiguous
    obtain ⟨n, hn⟩ : ∃ n, w.f.buffer.size = n + 1 := ⟨w.f.buffer.size - 1, by omega⟩
    rw [hn, Loop.run_some hs]
    refine Nat.lt_of_le_of_lt ?_ hlt
    exact Loop.run_inv
      (P := fun v : Work => v.f.buffer.buffered.length ≤ w₁.f.buffer.buffered.length)
      (fun _ _ h hs => (length_buffered_of_drainStep hs).le.trans h) _ w₁ le_rfl

/-! ### What a drain leaves alone -/

/-- Apart from its ring, its counters and its progress, `f'` is `f` moved forward. -/
structure Advances (f f' : Flow) : Prop where
  timer : f'.gapTimerActive = f.gapTimerActive
  reord : f'.reord = f.reord
  rxNext : f'.rxNext = f.rxNext
  initialized : f'.initialized = f.initialized
  passThrough : f'.passThrough = f.passThrough
  expected : f.expected ≤ f'.expected

theorem Advances.refl (f : Flow) : Advances f f := ⟨rfl, rfl, rfl, rfl, rfl, le_rfl⟩

theorem Advances.trans {f g h : Flow} (hfg : Advances f g) (hgh : Advances g h) : Advances f h :=
  ⟨hgh.timer.trans hfg.timer, hgh.reord.trans hfg.reord, hgh.rxNext.trans hfg.rxNext,
    hgh.initialized.trans hfg.initialized, hgh.passThrough.trans hfg.passThrough,
    hfg.expected.trans hgh.expected⟩

theorem advances_drainStep (hs : Reorder.drainStep now w = some w') : Advances w.f w'.f := by
  obtain ⟨x, buffer, -, rfl⟩ := drainStep_some hs
  exact ⟨rfl, rfl, rfl, rfl, rfl, Nat.le_succ _⟩

theorem advances_drainContiguous (now : UInt64) (w : Work) :
    Advances w.f (Reorder.drainContiguous now w).f :=
  Loop.run_inv (P := fun v : Work => Advances w.f v.f)
    (fun _ _ h hs => h.trans (advances_drainStep hs)) _ w (Advances.refl _)

/-! ### Skipping a gap -/

/-- The frontier moves to the lowest number held. -/
theorem Mid.skip (h : Mid rest hand owed w) (hne : ringEmpty w.f.buffer = false) :
    Mid rest hand owed (w.setExpected (ringLowestSeq w.f.buffer w.f.expected)) := by
  obtain ⟨hhas, hlow⟩ := ringLowestSeq_spec h.ring h.window hne
  have hge := le_ringLowestSeq w.f.buffer w.f.expected
  have hlt := h.below _ hhas
  have hrange := h.range
  exact
    { h with
      window := by
        intro s hs
        have := h.window s hs
        have := hlow s hs
        show ringLowestSeq w.f.buffer w.f.expected ≤ s ∧
          s < ringLowestSeq w.f.buffer w.f.expected + w.f.buffer.size
        omega
      drained := fun hnone => absurd hhas (hnone _)
      mark := fun hact => ⟨(h.mark hact).1, fun hlt' => (h.mark hact).2 (lt_of_le_of_lt hge hlt')⟩
      range := ⟨by show ringLowestSeq _ _ ≤ _; omega, hrange.2⟩
      order := by
        intro hp
        obtain ⟨l, hl, hlt', hinit⟩ := h.order hp
        exact ⟨l, hl, fun s hs => lt_of_lt_of_le (hlt' s hs) hge, hinit⟩ }

theorem Mid.skipAndDrain (h : Mid rest hand owed w) (hne : ringEmpty w.f.buffer = false) :
    Mid rest hand owed (Reorder.drainContiguous now
      (w.setExpected (ringLowestSeq w.f.buffer w.f.expected))) :=
  (h.skip hne).drainContiguous now

theorem advances_skip (now : UInt64) (w : Work) :
    Advances w.f (Reorder.drainContiguous now
      (w.setExpected (ringLowestSeq w.f.buffer w.f.expected))).f := by
  have hskip : Advances w.f (w.setExpected (ringLowestSeq w.f.buffer w.f.expected)).f :=
    ⟨rfl, rfl, rfl, rfl, rfl, le_ringLowestSeq _ _⟩
  exact hskip.trans (advances_drainContiguous now _)

/-- The skip of the source only ever moves forward, so its guard changes nothing. -/
theorem skipToLowestAndDrain_eq (now : UInt64) (w : Work) :
    skipToLowestAndDrain now w = (Reorder.drainContiguous now
      (w.setExpected (ringLowestSeq w.f.buffer w.f.expected))).touch now := by
  unfold skipToLowestAndDrain
  simp only
  split
  · rfl
  · next hge =>
    have heq : ringLowestSeq w.f.buffer w.f.expected = w.f.expected :=
      Nat.le_antisymm (Nat.not_lt.mp hge) (le_ringLowestSeq _ _)
    rw [heq]
    rfl

/-! ### Periods -/

/-- Half of `Settled`: a running timer has something to wait for. -/
def Waiting (f : Flow) : Prop :=
  f.gapTimerActive = true → ringEmpty f.buffer = false ∧ f.expected < f.reord

theorem Mid.periodEndIfDone (h : Mid rest hand 0 w) (c : GapEnd) :
    Mid rest hand 0 (periodEndIfDone c w) := by
  unfold Reorder.periodEndIfDone
  split
  · next hcond =>
    rw [Bool.and_eq_true] at hcond
    have hcharged := h.charge c
    refine Mid.stopGapTimer (w := w.tally (·.endGap c)) ?_
    show Mid rest hand w.f.gapTimerActive.toNat _
    rw [hcond.1]
    exact hcharged
  · exact h

theorem waiting_periodEndIfDone (c : GapEnd) (w : Work) : Waiting (periodEndIfDone c w).f := by
  unfold periodEndIfDone
  split
  · exact fun hact => Bool.noConfusion hact
  · next hcond =>
    intro hact
    rw [hact, Bool.true_and, Bool.or_eq_true, decide_eq_true_eq, not_or] at hcond
    exact ⟨Bool.not_eq_true _ ▸ hcond.1, by omega⟩

theorem advances_periodEndIfDone (c : GapEnd) (w : Work) :
    (periodEndIfDone c w).f.buffer = w.f.buffer ∧ (periodEndIfDone c w).f.expected = w.f.expected ∧
      (periodEndIfDone c w).f.initialized = w.f.initialized ∧
      (periodEndIfDone c w).f.passThrough = w.f.passThrough := by
  unfold periodEndIfDone
  split <;> exact ⟨rfl, rfl, rfl, rfl⟩

theorem advances_periodStartIfNeeded (now : UInt64) (w : Work) :
    (periodStartIfNeeded now w).f.buffer = w.f.buffer ∧
      (periodStartIfNeeded now w).f.expected = w.f.expected ∧
      (periodStartIfNeeded now w).f.initialized = w.f.initialized ∧
      (periodStartIfNeeded now w).f.passThrough = w.f.passThrough := by
  unfold periodStartIfNeeded
  split <;> exact ⟨rfl, rfl, rfl, rfl⟩

theorem Mid.periodStartIfNeeded (h : Mid rest hand 0 w) :
    Mid rest hand 0 (periodStartIfNeeded now w) := by
  unfold Reorder.periodStartIfNeeded
  split
  · next hcond =>
    rw [Bool.and_eq_true, Bool.not_eq_true', Bool.not_eq_true'] at hcond
    obtain ⟨s, hs⟩ := h.ring.exists_has hcond.2
    exact
      { h with
        mark := fun _ => ⟨le_rfl, fun _ => h.top s hs⟩
        gaps := by
          have := h.gaps
          rw [hcond.1] at this
          show w.f.stats.gapCount + 1 + 0 = w.f.stats.gapEnds + 1
          simp only [Bool.toNat_false] at this
          omega }
  · exact h

theorem Mid.settled_periodStart (h : Mid rest hand 0 w) (hwait : Waiting w.f)
    (hhead : ¬ w.f.buffer.Has w.f.expected) : Settled (Reorder.periodStartIfNeeded now w).f := by
  unfold Reorder.periodStartIfNeeded
  split
  · next hcond =>
    rw [Bool.and_eq_true, Bool.not_eq_true', Bool.not_eq_true'] at hcond
    obtain ⟨s, hs⟩ := h.ring.exists_has hcond.2
    have hlo := (h.window s hs).1
    have hhi := h.below s hs
    exact ⟨⟨fun _ => hcond.2, fun _ => rfl⟩, fun _ => Nat.lt_of_le_of_lt hlo hhi, hhead⟩
  · next hcond =>
    rw [Bool.and_eq_true, Bool.not_eq_true', Bool.not_eq_true', not_and, Bool.not_eq_false] at hcond
    refine ⟨⟨fun hact => (hwait hact).1, fun hne => ?_⟩, fun hact => (hwait hact).2, hhead⟩
    cases hact : w.f.gapTimerActive with
    | true => rfl
    | false => rw [hcond hact] at hne; cases hne

/-- **The end of an operation**: close the period if its cohort is done and open the
next one if packets still wait. -/
theorem Mid.settle (h : Mid rest hand 0 w) (hhead : ¬ w.f.buffer.Has w.f.expected) (c : GapEnd) :
    Mid rest hand 0 (Reorder.periodStartIfNeeded now (Reorder.periodEndIfDone c w)) ∧
      Settled (Reorder.periodStartIfNeeded now (Reorder.periodEndIfDone c w)).f := by
  have hend := h.periodEndIfDone c
  obtain ⟨hbuf, hexp, -, -⟩ := advances_periodEndIfDone c w
  refine ⟨hend.periodStartIfNeeded, hend.settled_periodStart (waiting_periodEndIfDone c w) ?_⟩
  rw [hbuf, hexp]
  exact hhead

/-! ### Timeout and overflow -/

theorem Done.mk' (h : Mid rest 0 0 w ∧ Settled w.f) : Done rest w :=
  { h.1, h.2 with }

/-- A loop that skips gaps goes on to its exit test: a round delivers at least the lowest packet,
so the slots are rounds enough. -/
theorem Mid.loop (h : Mid rest hand owed w) {step : Work → Option Work} (hskips : Skips now step) :
    Mid rest hand owed (Loop.run step w.f.buffer.size w) ∧
      Advances w.f (Loop.run step w.f.buffer.size w).f ∧
      (¬ w.f.buffer.Has w.f.expected → ¬ (Loop.run step w.f.buffer.size w).f.buffer.Has
        (Loop.run step w.f.buffer.size w).f.expected) ∧
      step (Loop.run step w.f.buffer.size w) = none := by
  have hstep : ∀ v v', (Mid rest hand owed v ∧ Advances w.f v.f ∧
      (¬ w.f.buffer.Has w.f.expected → ¬ v.f.buffer.Has v.f.expected)) → step v = some v' →
      (Mid rest hand owed v' ∧ Advances w.f v'.f ∧
        (¬ w.f.buffer.Has w.f.expected → ¬ v'.f.buffer.Has v'.f.expected)) ∧
        v'.f.buffer.buffered.length < v.f.buffer.buffered.length := by
    rintro v v' ⟨hv, hadv, -⟩ hs
    obtain ⟨hne, rfl⟩ := hskips v v' hs
    refine ⟨⟨hv.skipAndDrain hne, hadv.trans (advances_skip now v),
      fun _ => not_has_drainContiguous _ _⟩, ?_⟩
    exact length_buffered_drainContiguous_lt
      (w := v.setExpected (ringLowestSeq v.f.buffer v.f.expected))
      (ringLowestSeq_spec hv.ring hv.window hne).1
  obtain ⟨hmid, hadv, hhead⟩ := Loop.run_inv (fun v v' hv hs => (hstep v v' hv hs).1)
    w.f.buffer.size w ⟨h, Advances.refl _, id⟩
  exact ⟨hmid, hadv, hhead, Loop.run_stops (fun v : Work => v.f.buffer.buffered.length) hstep
    w.f.buffer.size w ⟨h, Advances.refl _, id⟩ (Residue.length_occupied_le _)⟩

/-- The loop of the timeout: it goes on until nothing is held or everything below the mark
has been dealt with. -/
theorem Mid.timeoutLoop (h : Mid rest hand owed w) (hhead : ¬ w.f.buffer.Has w.f.expected)
    (now : UInt64) {v : Work} (hv : v = Loop.run (timeoutStep now) w.f.buffer.size w) :
    Mid rest hand owed v ∧ Advances w.f v.f ∧ ¬ v.f.buffer.Has v.f.expected ∧
      (ringEmpty v.f.buffer = true ∨ v.f.reord ≤ v.f.expected) := by
  subst hv
  obtain ⟨hmid, hadv, hhead', hstop⟩ := h.loop (skips_timeoutStep now)
  refine ⟨hmid, hadv, hhead' hhead, ?_⟩
  unfold timeoutStep at hstop
  split at hstop
  · cases hstop
  · next hcond =>
    rw [Bool.and_eq_true, Bool.not_eq_true', decide_eq_true_eq, not_and_or, Bool.not_eq_false,
      Nat.not_lt] at hcond
    exact hcond

theorem Done.timedOut (h : Done rest w) : Mid rest 0 1 w.timedOut :=
  (h.toMid.emit (e := .timedOut w.f.key) (fun _ _ => rfl) (fun _ _ => rfl)
    (by simp)).charge .timeout

/-- What the timeout makes of an armed flow, up to the period it may start. -/
theorem Done.afterTimeout (h : Done rest w) (hact : w.f.gapTimerActive = true) (now : UInt64) :
    ∃ v, onGapTimeout now w = Reorder.periodStartIfNeeded now v ∧ Mid rest 0 0 v ∧
      v.f.gapTimerActive = false ∧ ¬ v.f.buffer.Has v.f.expected ∧ v.f.rxNext = w.f.rxNext ∧
      (ringEmpty v.f.buffer = true ∨ w.f.reord ≤ v.f.expected) := by
  have hne := h.armed.mp hact
  obtain ⟨v, hv⟩ : ∃ v, v = Loop.run (timeoutStep now) w.f.buffer.size w.timedOut := ⟨_, rfl⟩
  obtain ⟨hmid, hadv, hhead, hend⟩ := h.timedOut.timeoutLoop h.head now hv
  refine ⟨Reorder.stopGapTimer (v.touch now), ?_, ?_, rfl, hhead, hadv.rxNext, ?_⟩
  · unfold Reorder.onGapTimeout
    rw [if_neg (by rw [hne]; simp), hv]
    rfl
  · refine Mid.stopGapTimer ?_
    show Mid rest 0 v.f.gapTimerActive.toNat _
    rw [hadv.timer.trans hact]
    exact hmid.touch now
  · rw [hadv.reord] at hend
    exact hend

/-- **A timeout keeps the invariant.** -/
theorem Done.onGapTimeout (h : Done rest w) (hact : w.f.gapTimerActive = true) :
    Done rest (onGapTimeout now w) := by
  obtain ⟨v, heq, hmid, hstopped, hhead, -, -⟩ := h.afterTimeout hact now
  rw [heq]
  refine Done.mk' ⟨hmid.periodStartIfNeeded, hmid.settled_periodStart (fun hact' => ?_) hhead⟩
  rw [hstopped] at hact'
  cases hact'

/-- A timeout of a period whose mark is above everything held leaves nothing waiting. -/
theorem Done.onGapTimeout_stops (h : Done rest w) (hact : w.f.gapTimerActive = true)
    (hmark : w.f.reord = w.f.rxNext) : (Reorder.onGapTimeout now w).f.gapTimerActive = false := by
  obtain ⟨v, heq, hmid, hstopped, -, hnext, hend⟩ := h.afterTimeout hact now
  have hempty : ringEmpty v.f.buffer = true := by
    rcases hend with hempty | hpast
    · exact hempty
    · by_contra hne
      obtain ⟨s, hs⟩ := hmid.ring.exists_has (Bool.not_eq_true _ ▸ hne)
      have hlo := (hmid.window s hs).1
      have hhi := hmid.below s hs
      omega
  rw [heq]
  unfold Reorder.periodStartIfNeeded
  rw [if_neg (by rw [hempty]; simp)]
  exact hstopped

theorem Mid.overflowFlush (h : Mid rest hand 0 w) (hne : ringEmpty w.f.buffer = false)
    (now : UInt64) :
    Mid rest hand 0 (overflowFlush now w) ∧ Settled (Reorder.overflowFlush now w).f := by
  unfold Reorder.overflowFlush
  simp only [skipToLowestAndDrain_eq]
  have hemit : Mid rest hand 0 (w.emit (.flushed w.f.key)) :=
    h.emit (fun _ _ => rfl) (fun _ _ => rfl) (by simp)
  exact ((hemit.skipAndDrain hne).touch now).settle (not_has_drainContiguous _ _) .overflow

theorem overflowFlush_keeps (now : UInt64) (w : Work) :
    (overflowFlush now w).f.initialized = w.f.initialized ∧
      (overflowFlush now w).f.passThrough = w.f.passThrough := by
  unfold overflowFlush
  simp only [skipToLowestAndDrain_eq]
  have hadv := advances_skip now (w.emit (.flushed w.f.key))
  generalize Reorder.drainContiguous now ((w.emit (.flushed w.f.key)).setExpected _) = v at hadv ⊢
  obtain ⟨-, -, hi₁, hp₁⟩ :=
    advances_periodStartIfNeeded now (periodEndIfDone .overflow (v.touch now))
  obtain ⟨-, -, hi₂, hp₂⟩ := advances_periodEndIfDone .overflow (v.touch now)
  exact ⟨hi₁.trans (hi₂.trans hadv.initialized), hp₁.trans (hp₂.trans hadv.passThrough)⟩

/-! ### Demotion -/

/-- A ring that holds nothing has nothing to account for. -/
theorem RingOk.bytes_of_empty {r : Ring} (h : RingOk r) (he : ringEmpty r = true) :
    r.count = 0 ∧ r.bytes = 0 := by
  have hc : r.count = 0 := by simpa [ringEmpty] using he
  have hnil : r.buffered = [] := length_eq_zero_iff.mp (h.count.symm.trans hc)
  refine ⟨hc, ?_⟩
  rw [h.bytes, hnil]
  rfl

theorem Mid.freeEmpty (h : Mid rest hand owed w) (he : ringEmpty w.f.buffer = true) :
    Mid rest hand owed (w.setBuffer (ringFree w.f.buffer)) := by
  obtain ⟨hcount, hbytes⟩ := h.ring.bytes_of_empty he
  have hnone := h.ring.ringEmpty_iff.mp he
  have hfree := not_has_ringFree w.f.buffer
  exact
    { h with
      ring := h.ring.ringFree
      window := fun s hs => absurd hs (hfree s)
      below := fun s hs => absurd hs (hfree s)
      top := fun s hs => absurd hs (hfree s)
      drained := fun _ => h.drained hnone
      mark := fun hact => ⟨(h.mark hact).1, fun hlt => absurd ((h.mark hact).2 hlt) (hnone _)⟩
      packets := by
        have := h.packets
        rw [hcount] at this
        exact this
      pool := by
        have := h.pool
        rw [hbytes] at this
        exact this }

theorem Mid.demoteLoop (h : Mid rest hand owed w) (now : UInt64) :
    Mid rest hand owed (Loop.run (demoteStep now) w.f.buffer.size w) ∧
      ringEmpty (Loop.run (demoteStep now) w.f.buffer.size w).f.buffer = true ∧
      Advances w.f (Loop.run (demoteStep now) w.f.buffer.size w).f := by
  obtain ⟨hmid, hadv, -, hstop⟩ := h.loop (skips_demoteStep now)
  refine ⟨hmid, ?_, hadv⟩
  unfold demoteStep at hstop
  split at hstop
  · cases hstop
  · next he => rwa [Bool.not_eq_true', Bool.not_eq_false] at he

theorem Mid.flushBufferForDemote (h : Mid rest hand 0 w) (now : UInt64) :
    Mid rest hand 0 (flushBufferForDemote now w) ∧
      (flushBufferForDemote now w).f.gapTimerActive = false ∧
      (∀ s, ¬ (flushBufferForDemote now w).f.buffer.Has s) ∧
      (flushBufferForDemote now w).f.passThrough = w.f.passThrough := by
  have hcharged := h.chargeIfActive .demote
  obtain ⟨stats, heq⟩ := chargeIfActive_eq .demote w
  unfold Reorder.flushBufferForDemote
  rw [heq] at hcharged ⊢
  obtain ⟨hmid, hempty, hadv⟩ := hcharged.demoteLoop now
  refine ⟨Mid.freeEmpty (Mid.stopGapTimer ?_) hempty, rfl, not_has_ringFree _, hadv.passThrough⟩
  show Mid rest hand (Loop.run (demoteStep now) w.f.buffer.size
    { w with f := { w.f with stats := stats } }).f.gapTimerActive.toNat _
  rw [hadv.timer]
  exact hmid.touch now

/-! ### Reset -/

/-- Releasing what is charged takes it off the pool, without clamping. -/
theorem releaseSlots_eq (slots : List Slot) (e : Engine)
    (h : ((Residue.occupied Slot.key slots).map Slot.len).sum ≤ e.poolBytesUsed) :
    releaseSlots slots e =
      { e with poolBytesUsed :=
          e.poolBytesUsed - ((Residue.occupied Slot.key slots).map Slot.len).sum } := by
  induction slots generalizing e with
  | nil => rfl
  | cons s slots ih =>
    unfold Residue.occupied at h ih ⊢
    unfold releaseSlots at ih ⊢
    rw [foldl_cons]
    cases hp : s.pkt with
    | none =>
      have hkey : s.key = none := by rw [Slot.key, hp]; rfl
      rw [filter_cons_of_neg (by simp [hkey])] at h ⊢
      exact ih e h
    | some p =>
      have hkey : s.key = some s.seq := by rw [Slot.key, hp]; rfl
      -- the pool covers the slots that are left, so the next release does not clamp either
      rw [filter_cons_of_pos (by simp [hkey])] at h ⊢
      rw [map_cons, sum_cons] at h ⊢
      rw [if_pos (Option.isSome_some), poolRelease, if_pos (by omega), ih _ (by
        show _ ≤ e.poolBytesUsed - s.len
        omega)]
      simp only [Nat.sub_add_eq]

/-- Discarding the slots releases them and counts them. -/
theorem discardSlots_eq (slots : List Slot) (w : Work) :
    slots.foldl discardSlot w =
      { rx := releaseSlots slots w.rx
        f := { w.f with stats := { w.f.stats with resetDiscardCount :=
          w.f.stats.resetDiscardCount + (Residue.occupied Slot.key slots).length } } } := by
  induction slots generalizing w with
  | nil => rfl
  | cons s slots ih =>
    unfold Residue.occupied releaseSlots at ih ⊢
    rw [foldl_cons, ih]
    cases hp : s.pkt with
    | none =>
      have hkey : s.key = none := by rw [Slot.key, hp]; rfl
      rw [filter_cons_of_neg (by simp [hkey]), discardSlot, if_neg (by simp [hp]),
        foldl_cons, if_neg (by simp [hp])]
    | some p =>
      have hkey : s.key = some s.seq := by rw [Slot.key, hp]; rfl
      rw [filter_cons_of_pos (by simp [hkey]), discardSlot, if_pos (by simp [hp]),
        foldl_cons, if_pos (by simp [hp])]
      simp only [Work.tally, Work.release, length_cons, Nat.add_assoc, Nat.add_comm 1]

/-- An honoured reset leaves a flow in a new, empty epoch. -/
theorem Mid.reset (h : Mid rest hand 0 w) :
    Mid rest hand 0 ((resetReorderFlow w).emit (.reset w.f.key)) ∧
      ((resetReorderFlow w).emit (.reset w.f.key)).f.rxNext = 0 ∧
      ((resetReorderFlow w).emit (.reset w.f.key)).f.gapTimerActive = false ∧
      ((resetReorderFlow w).emit (.reset w.f.key)).f.passThrough = false ∧
      epoch w.f.key ((resetReorderFlow w).emit (.reset w.f.key)).rx.trace = some [] := by
  have hcharged := h.chargeIfActive .reset
  obtain ⟨stats, heq⟩ := chargeIfActive_eq .reset w
  unfold resetReorderFlow discardBufferForReset
  rw [heq] at hcharged ⊢
  -- the period is charged first, then the timer stops: the gaps are even again
  have hstopped := Mid.stopGapTimer (w := { w with f := { w.f with stats := stats } }) hcharged
  have hbytes : ((Residue.occupied Slot.key w.f.buffer.slots).map Slot.len).sum =
      w.f.buffer.bytes := h.ring.bytes.symm
  have hcount : (Residue.occupied Slot.key w.f.buffer.slots).length = w.f.buffer.count :=
    h.ring.count.symm
  have hpool := h.pool
  have hep : epoch w.f.key (w.rx.trace ++ [.reset w.f.key]) = some [] := by
    rw [epoch_snoc]
    simp only [epochStep, ↓reduceIte]
  simp only
  -- what the flow has charged is released, and counted as discarded
  rw [discardSlots_eq]
  dsimp only
  rw [releaseSlots_eq _ _ (by omega), hbytes, hcount]
  have hfree := not_has_ringFree w.f.buffer
  refine ⟨?_, rfl, rfl, rfl, hep⟩
  exact
    { ring := hcharged.ring.ringFree
      window := fun s hs => absurd hs (hfree s)
      below := fun s hs => absurd hs (hfree s)
      top := fun s hs => absurd hs (hfree s)
      drained := fun _ => Nat.zero_le _
      mark := fun hact => Bool.noConfusion hact
      fresh := fun _ => rfl
      range := ⟨hcharged.range.1, Nat.zero_le _⟩
      gaps := hstopped.gaps
      packets := by
        have := hcharged.packets
        show (arrivals w.f.key (w.rx.trace ++ [_])).length = _
        rw [arrivals_snoc]
        simp only [arrivalsStep]
        rw [this]
        simp only [Stats.disposed, Work.emit, Reorder.stopGapTimer, ringFree]
        omega
      hist := hcharged.hist
      buckets := hcharged.buckets
      order := fun _ => ⟨[], hep, by simp, fun _ => rfl⟩
      demoted := fun hp => Bool.noConfusion hp
      pool := by
        show w.rx.poolBytesUsed - w.f.buffer.bytes = rest + 0
        omega
      poolMax := by
        have := h.poolMax
        show w.rx.poolBytesUsed - w.f.buffer.bytes ≤ w.rx.cfg.globalMaxBufferBytes
        omega
      noClamp := not_clamped_snoc h.noClamp (by simp)
      ordered := ordered_snoc_of_empty h.ordered (Or.inl (if_pos rfl)) fun k hk => if_neg hk }

end Mqvpn.Reorder
