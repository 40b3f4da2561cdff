import Mqvpn.Reorder.FlowInv

/-!
# What one packet does

Admission makes up to two attempts to free space, each followed by a fresh look at
the packet.  `AdmitRule` says once what has to be shown of such a path — what a flush
keeps, and what each of the places a packet can end up in establishes — and
`AdmitRule.processReorderPacket` walks the code; the invariant of the flow and what is
shown later about runs without detours are instances.

## Main definitions

* `Admissible` — the packet is ahead, in the window and not held.
* `AdmitRule` — what is to be shown of a packet's way through a flow.

## Main results

* `AdmitRule.processReorderPacket` — the rule.
* `Done.onReordered` — **a dispatched packet keeps the invariant**.
-/

namespace Mqvpn.Reorder

/-- The packet is ahead of the frontier, inside the window and not held. -/
structure Admissible (a : Arrival) (w : Work) : Prop where
  ahead : w.f.expected < a.seq
  near : ringFarAhead w.f.buffer a.seq w.f.expected = false
  new : ¬ w.f.buffer.Has a.seq

/-! ### The rule -/

/-- What the second look after a flush can find. -/
theorem reclassifyAfterFlush_cases (a : Arrival) (w : Work) :
    (reclassifyAfterFlush a w = (.buffered, w) ∧ Admissible a w) ∨
    (reclassifyAfterFlush a w = dropLate w ∧ a.seq < w.f.expected) ∨
    (reclassifyAfterFlush a w = deliverInOrder a w ∧ a.seq = w.f.expected) ∨
    (reclassifyAfterFlush a w = dropFarAhead w ∧
      ringFarAhead w.f.buffer a.seq w.f.expected = true) ∨
    (reclassifyAfterFlush a w = dropDuplicate w ∧ w.f.buffer.Has a.seq) := by
  unfold reclassifyAfterFlush
  split
  · next hlate => exact Or.inr (Or.inl ⟨rfl, hlate⟩)
  · next hlate =>
    split
    · next heq => exact Or.inr (Or.inr (Or.inl ⟨rfl, heq⟩))
    · next heq =>
      split
      · next hfar => exact Or.inr (Or.inr (Or.inr (Or.inl ⟨rfl, hfar⟩)))
      · next hnear =>
        split
        · next hhas => exact Or.inr (Or.inr (Or.inr (Or.inr ⟨rfl, hhas⟩)))
        · next hnew => exact Or.inl ⟨rfl, by omega, by simpa using hnear, hnew⟩

/-- What is to be shown of a packet's way through a flow: `P` holds while it is in
hand, `Q` of the outcome. -/
structure AdmitRule (a : Arrival) (P : Work → Prop) (Q : ProcessResult × Work → Prop) : Prop where
  flush : ∀ w, P w → ringEmpty w.f.buffer = false → P (overflowFlush a.now w)
  late : ∀ w, P w → a.seq < w.f.expected → Q (dropLate w)
  next : ∀ w, P w → a.seq = w.f.expected → Q (deliverInOrder a w)
  far : ∀ w, P w → ringFarAhead w.f.buffer a.seq w.f.expected = true → Q (dropFarAhead w)
  dup : ∀ w, P w → w.f.buffer.Has a.seq → Q (dropDuplicate w)
  limit : ∀ w, P w → Q (dropOnLimit w)
  pool : ∀ w, P w → Q (dropOnPool w)
  insert : ∀ w, P w → Admissible a w → poolWouldExhaust a.pkt.length w = false →
    Q (bufferInsertCommitted a w)

variable {a : Arrival} {P : Work → Prop} {Q : ProcessResult × Work → Prop} {w : Work}

section
variable (hr : AdmitRule a P Q)
include hr

/-- A flush and the second look, up to the packet being admitted after all. -/
theorem AdmitRule.afterFlush (h : P w) (hne : ringEmpty w.f.buffer = false)
    {k : Work → ProcessResult × Work} (hk : ∀ w, P w → Admissible a w → Q (k w)) :
    Q (match reclassifyAfterFlush a (overflowFlush a.now w) with
      | (.buffered, w) => k w
      | r => r) := by
  have hw := hr.flush w h hne
  generalize overflowFlush a.now w = v at hw ⊢
  rcases reclassifyAfterFlush_cases a v with
    ⟨heq, hadm⟩ | ⟨heq, hlt⟩ | ⟨heq, hseq⟩ | ⟨heq, hfar⟩ | ⟨heq, hhas⟩ <;> rw [heq]
  · exact hk v hw hadm
  · exact hr.late v hw hlt
  · exact hr.next v hw hseq
  · exact hr.far v hw hfar
  · exact hr.dup v hw hhas

theorem AdmitRule.admitPool (h : P w) (hadm : Admissible a w) : Q (admitPool a w) := by
  unfold Reorder.admitPool
  split
  · split
    · exact hr.pool w h
    · next hne =>
      refine hr.afterFlush h (by simpa using hne) fun v hv hadm' => ?_
      split
      · exact hr.pool v hv
      · next hfit => exact hr.insert v hv hadm' (by simpa using hfit)
  · next hfit => exact hr.insert w h hadm (by simpa using hfit)

theorem AdmitRule.bufferAdmit (h : P w) (hahead : w.f.expected < a.seq)
    (hnear : ringFarAhead w.f.buffer a.seq w.f.expected = false) : Q (bufferAdmit a w) := by
  unfold Reorder.bufferAdmit
  split
  · next hhas => exact hr.dup w h hhas
  · next hnew =>
    split
    · split
      · exact hr.limit w h
      · next hne =>
        exact hr.afterFlush h (by simpa using hne) fun v hv hadm => hr.admitPool hv hadm
    · exact hr.admitPool h ⟨hahead, hnear, hnew⟩

/-- **The rule for one packet** of an open epoch. -/
theorem AdmitRule.processReorderPacket (h : P w) (hinit : w.f.initialized = true) :
    Q (processReorderPacket a w) := by
  unfold Reorder.processReorderPacket
  rw [if_neg (by rw [hinit]; simp)]
  split
  · next heq => exact hr.next w h heq
  · next hne =>
    split
    · next hlt => exact hr.late w h hlt
    · next hge =>
      split
      · next hfar => exact hr.far w h hfar
      · next hnear => exact hr.bufferAdmit h (by omega) (by simpa using hnear)

end

/-! ### The places a packet can end up in -/

variable {rest : ℕ}

/-- The invariant while a packet is in hand. -/
structure InHand (rest : ℕ) (w : Work) : Prop extends Mid rest 1 0 w, Settled w.f where
  initialized : w.f.initialized = true

section
variable (h : InHand rest w)
include h

theorem InHand.drop {g : Stats → Stats} (hg : Drops g) : Done rest (w.tally g) :=
  { h.toMid.drop hg, h.toSettled with }

theorem InHand.dropLate : Done rest (dropLate w).2 := by
  simp only [Reorder.dropLate]
  exact h.drop {}

theorem InHand.dropFarAhead : Done rest (dropFarAhead w).2 := by
  simp only [Reorder.dropFarAhead]
  exact h.drop {}

theorem InHand.dropDuplicate : Done rest (dropDuplicate w).2 := by
  simp only [Reorder.dropDuplicate]
  exact h.drop {}

omit h in
/-- The drops on a limit are reported. -/
theorem Done.limited (h : Done rest w) : Done rest (w.emit (.limited w.f.key)) :=
  { h.toMid.emit (e := .limited w.f.key) (fun _ _ => rfl) (fun _ _ => rfl) (by simp),
    h.toSettled with }

theorem InHand.dropOnLimit : Done rest (dropOnLimit w).2 :=
  (h.drop {}).limited

theorem InHand.dropOnPool : Done rest (dropOnPool w).2 :=
  (h.drop {}).limited

theorem InHand.deliverNext (heq : a.seq = w.f.expected) (hseq : a.seq < 2 ^ 48) :
    Mid rest 0 0 ((deliverPkt a.seq a.pkt a.now a.now w).setExpected (w.f.expected + 1)) := by
  rw [heq]
  refine h.toMid.advance w.f.buffer w.rx.poolBytesUsed h.initialized (heq ▸ hseq)
    h.ring rfl (fun t => ⟨fun ht => ⟨ht, ?_⟩, fun ht => ht.1⟩) (by omega) h.pool h.poolMax
  rintro rfl
  exact h.head ht

/-- The ring is drained behind it. -/
theorem InHand.deliverInOrder (heq : a.seq = w.f.expected) (hseq : a.seq < 2 ^ 48) :
    Done rest (deliverInOrder a w).2 :=
  Done.mk' ((((h.deliverNext heq hseq).touch a.now).drainContiguous a.now).settle
    (not_has_drainContiguous _ _) .filled)

theorem InHand.commitInsert (hadm : Admissible a w) (hseq : a.seq < 2 ^ 48)
    (hfit : poolWouldExhaust a.pkt.length w = false) {buffer : Ring}
    (hins : Inserts w.f.buffer a.seq a.pkt w.f.expected buffer) :
    Mid rest 0 0 (commitInsert a buffer w) := by
  have hahead := hadm.ahead
  have hrange := h.range
  have hnext : (Reorder.commitInsert a buffer w).f.rxNext = max w.f.rxNext (a.seq + 1) := by
    show (if w.f.rxNext < a.seq + 1 then a.seq + 1 else w.f.rxNext) = _
    split <;> omega
  -- with the frontier behind the packet, a higher `rxNext` belongs to a packet held
  have htop : buffer.Has (max w.f.rxNext (a.seq + 1) - 1) := by
    rw [hins.has_iff]
    by_cases hlt : w.f.rxNext < a.seq + 1
    · right; omega
    · left
      have hsome : ∃ s, w.f.buffer.Has s := by
        by_contra hnone
        rw [not_exists] at hnone
        have := h.drained hnone
        omega
      obtain ⟨s, hs⟩ := hsome
      rw [Nat.max_eq_left (by omega)]
      exact h.top s hs
  exact
    { ring := hins.ok
      window := by
        intro s hs
        have hsize := hins.size
        have hspan := hins.span
        show w.f.expected ≤ s ∧ s < w.f.expected + buffer.size
        rcases (hins.has_iff s).mp hs with hs | rfl
        · have := h.window s hs
          omega
        · omega
      below := by
        intro s hs
        rw [hnext]
        rcases (hins.has_iff s).mp hs with hs | rfl
        · have := h.below s hs
          omega
        · omega
      top := by
        intro s _
        rw [hnext]
        exact htop
      drained := fun hnone => absurd ((hins.has_iff a.seq).mpr (Or.inr rfl)) (hnone a.seq)
      mark := by
        intro hact
        obtain ⟨hle, hhas⟩ := h.mark hact
        rw [hnext]
        refine ⟨?_, fun hlt => (hins.has_iff _).mpr (Or.inl (hhas hlt))⟩
        show w.f.reord ≤ _
        omega
      fresh := fun hf => absurd (hf.symm.trans h.initialized) Bool.false_ne_true
      range := by
        rw [hnext]
        exact ⟨hrange.1, by omega⟩
      gaps := h.gaps
      packets := by
        have := h.packets
        have := hins.count
        show (arrivals w.f.key w.rx.trace).length = w.f.stats.disposed + buffer.count + 0
        omega
      hist := h.hist
      buckets := h.buckets
      order := h.order
      demoted := h.demoted
      pool := by
        have := h.pool
        have := hins.bytes
        show w.rx.poolBytesUsed + a.pkt.length = rest + buffer.bytes
        omega
      poolMax := by
        show w.rx.poolBytesUsed + a.pkt.length ≤ w.rx.cfg.globalMaxBufferBytes
        simpa [poolWouldExhaust] using hfit
      noClamp := h.noClamp
      ordered := h.ordered }

theorem InHand.bufferInsertCommitted (hadm : Admissible a w) (hseq : a.seq < 2 ^ 48)
    (hfit : poolWouldExhaust a.pkt.length w = false) : Done rest (bufferInsertCommitted a w).2 := by
  unfold Reorder.bufferInsertCommitted
  split
  · exact h.dropOnPool
  · split
    · exact h.dropOnPool
    · next buffer hbuf =>
      have hins := ringInsert_spec h.ring h.window hadm.ahead.le hadm.near hadm.new hbuf
      have hmid := h.commitInsert hadm hseq hfit hins
      have hhas : buffer.Has a.seq := (hins.has_iff a.seq).mpr (Or.inr rfl)
      refine Done.mk' ⟨hmid.periodStartIfNeeded, hmid.settled_periodStart ?_ ?_⟩
      · exact fun hact => ⟨hins.ok.not_ringEmpty hhas, h.ahead hact⟩
      · intro hhead
        rcases (hins.has_iff w.f.expected).mp hhead with hold | heq
        · exact h.head hold
        · have := hadm.ahead
          omega

theorem InHand.overflowFlush (hne : ringEmpty w.f.buffer = false) (now : UInt64) :
    InHand rest (overflowFlush now w) := by
  obtain ⟨hmid, hs⟩ := h.toMid.overflowFlush hne now
  exact { hmid, hs with initialized := (overflowFlush_keeps now w).1.trans h.initialized }

end

/-- The invariant follows the rule. -/
theorem admitRule_inHand (hseq : a.seq < 2 ^ 48) :
    AdmitRule a (InHand rest) (fun r => Done rest r.2) where
  flush _ h hne := h.overflowFlush hne a.now
  late _ h _ := h.dropLate
  next _ h heq := h.deliverInOrder heq hseq
  far _ h _ := h.dropFarAhead
  dup _ h _ := h.dropDuplicate
  limit _ h := h.dropOnLimit
  pool _ h := h.dropOnPool
  insert _ h hadm hfit := h.bufferInsertCommitted hadm hseq hfit

/-! ### A new epoch -/

/-- The first packet of an epoch is delivered and sets the frontier. -/
theorem Mid.startEpoch (h : Mid rest 1 0 w) (hseq : a.seq < 2 ^ 48) (hnext : w.f.rxNext = 0)
    (hidle : w.f.gapTimerActive = false) (hp : w.f.passThrough = false)
    (hep : epoch w.f.key w.rx.trace = some []) : Done rest (startEpoch a w) := by
  have hnone := h.not_has_of_fresh hnext
  -- setting the frontier of an empty ring; the delivery is then one step of it
  have hopen : Mid rest 1 0 { w with f := { w.f with initialized := true, expected := a.seq } } :=
    { h with
      window := fun s hs => absurd hs (hnone s)
      drained := fun _ => by show w.f.rxNext ≤ a.seq; omega
      mark := fun hact => absurd (hidle.symm.trans hact) Bool.false_ne_true
      fresh := fun hf => Bool.noConfusion hf
      range := ⟨hseq.le, h.range.2⟩
      order := fun _ => ⟨[], hep, by simp, fun _ => rfl⟩
      demoted := fun hp' => absurd (hp.symm.trans hp') Bool.false_ne_true }
  have hmid : Mid rest 0 0 ((deliverPkt a.seq a.pkt a.now a.now
      { w with f := { w.f with initialized := true, expected := a.seq } }).setExpected
        (a.seq + 1)) :=
    hopen.advance w.f.buffer w.rx.poolBytesUsed rfl hseq h.ring rfl
      (fun t => ⟨fun ht => absurd ht (hnone t), fun ht => ht.1⟩) (by rfl) h.pool h.poolMax
  have hempty : ringEmpty w.f.buffer = true := h.ring.ringEmpty_iff.mpr hnone
  -- no timer runs and nothing waits, so the flow is settled
  exact Done.mk' ⟨hmid.touch a.now,
    ⟨⟨fun hact => absurd (hidle.symm.trans hact) Bool.false_ne_true,
      fun hne => absurd (hne.symm.trans hempty) Bool.false_ne_true⟩,
      fun hact => absurd (hidle.symm.trans hact) Bool.false_ne_true, hnone _⟩⟩

/-- A packet of a flow that is not demoted. -/
theorem Done.processReorderPacket (h : Mid rest 1 0 w) (hs : Settled w.f) (hseq : a.seq < 2 ^ 48)
    (hp : w.f.passThrough = false) : Done rest (processReorderPacket a w).2 := by
  cases hinit : w.f.initialized with
  | true =>
    exact (admitRule_inHand hseq).processReorderPacket { h, hs with initialized := hinit } hinit
  | false =>
    have hnext := h.fresh hinit
    have hidle : w.f.gapTimerActive = false := by
      rw [← Bool.not_eq_true, hs.armed, h.ring.ringEmpty_iff.mpr (h.not_has_of_fresh hnext)]
      simp
    obtain ⟨l, hl, -, hnil⟩ := h.order hp
    unfold Reorder.processReorderPacket
    rw [if_pos (by rw [hinit]; rfl)]
    exact h.startEpoch hseq hnext hidle hp (by rw [hl, hnil hinit])

/-! ### Classification -/

theorem Done.classifyUpdate (h : Done rest w) (pkt : Packet) :
    Done rest (classifyUpdate pkt w).2 ∧
      (classifyUpdate pkt w).2.f.passThrough = w.f.passThrough := by
  unfold Reorder.classifyUpdate
  split
  · exact ⟨h, rfl⟩
  · split
    · exact ⟨h, rfl⟩
    · exact ⟨{ h with }, rfl⟩

/-- Demoting a flow whose ring has been flushed. -/
theorem Done.classifyAndDemote (h : Done rest w) : Done rest (classifyAndDemote a w) := by
  unfold Reorder.classifyAndDemote
  obtain ⟨hcl, -⟩ := h.classifyUpdate a.pkt
  split
  · next w₁ heq => rw [heq] at hcl; exact hcl
  · next w₁ heq =>
    rw [heq] at hcl
    obtain ⟨hmid, hidle, hnone, -⟩ := hcl.toMid.flushBufferForDemote a.now
    -- the flush has emptied the ring and stopped the timer; the event closes the epoch
    generalize flushBufferForDemote a.now w₁ = v at hmid hidle hnone ⊢
    have hempty : ringEmpty v.f.buffer = true := hmid.ring.ringEmpty_iff.mpr hnone
    have hep : epoch v.f.key (v.rx.trace ++ [.demoted v.f.key]) = none := by
      rw [epoch_snoc]
      simp only [epochStep, ↓reduceIte]
    exact
      { hmid with
        packets := by
          show (arrivals v.f.key (v.rx.trace ++ [_])).length = _
          rw [arrivals_snoc]
          exact hmid.packets
        order := fun hp => Bool.noConfusion hp
        demoted := fun _ => hep
        noClamp := not_clamped_snoc hmid.noClamp (by simp)
        ordered :=
          ordered_snoc_of_empty hmid.ordered (Or.inr (if_pos rfl)) fun k hk => if_neg hk
        armed := by
          show v.f.gapTimerActive = true ↔ ringEmpty v.f.buffer = false
          rw [hidle, hempty]
          simp
        ahead := fun hact => absurd (hidle.symm.trans hact) Bool.false_ne_true
        head := hnone _ }

/-! ### Dispatch -/

theorem Mid.dispatch (h : Mid rest 0 0 w) : Mid rest 1 0 (dispatch a w) :=
  { h.record (e := .dispatched w.f.key a.seq a.pkt) 1 (fun acc => by simp [arrivalsStep])
      (fun _ _ => rfl) nofun with }

/-- A packet of a demoted flow is delivered as it comes. -/
theorem Mid.deliverPassThrough (h : Mid rest 1 0 w) (hp : w.f.passThrough = true) (s : ℕ)
    (pkt : Packet) (now : UInt64) : Mid rest 0 0 (deliverPkt s pkt now now w) :=
  { h with
    packets := by
      show (arrivals w.f.key (w.rx.trace ++ [_])).length =
        (recordResidence { w.f.stats with deliveredCount := w.f.stats.deliveredCount + 1 } now
          now).disposed + w.f.buffer.count + 0
      have := h.packets
      rw [arrivals_delivered, disposed_deliver]
      omega
    hist := (hist_deliver h.buckets h.hist now now).1
    buckets := (hist_deliver h.buckets h.hist now now).2
    order := fun hp' => absurd (hp'.symm.trans hp) Bool.false_ne_true
    demoted := by
      intro _
      show epoch w.f.key (w.rx.trace ++ [_]) = none
      rw [epoch_delivered, h.demoted hp]
      rfl
    noClamp := not_clamped_snoc h.noClamp nofun
    ordered := by
      -- a demoted flow has no open epoch, so the order asks nothing of it
      refine ordered_delivered h.ordered fun l hl => ?_
      rw [show epoch w.f.key w.rx.trace = none from h.demoted hp] at hl
      cases hl }

/-- **A dispatched packet keeps the invariant.** -/
theorem Done.onReordered (h : Done rest w) (hseq : a.seq < 2 ^ 48) :
    Done rest (onReordered a w) := by
  have hmid : Mid rest 1 0 (Reorder.dispatch a w) := h.toMid.dispatch
  have hs : Settled (Reorder.dispatch a w).f := { h.toSettled with }
  unfold Reorder.onReordered
  simp only
  split
  · obtain ⟨hreset, hnext, hidle, hp, hep⟩ := hmid.reset
    have hkey : ((resetReorderFlow (Reorder.dispatch a w)).emit
        (.reset (Reorder.dispatch a w).f.key)).f.key = (Reorder.dispatch a w).f.key :=
      (within_resetReorderFlow a.now _).key
    exact hreset.startEpoch hseq hnext hidle hp (by rw [hkey]; exact hep)
  · split
    · next hp =>
      exact Done.mk' ⟨(hmid.deliverPassThrough hp a.seq a.pkt a.now).touch a.now, { hs with }⟩
    · next hp =>
      have hproc := Done.processReorderPacket hmid hs hseq (by simpa using hp)
      split
      · exact hproc.classifyAndDemote
      · exact hproc

end Mqvpn.Reorder
