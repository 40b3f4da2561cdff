import Mqvpn.Reorder.Accounting
import Mqvpn.Reorder.Timing

/-!
# The way out of a flow that only drops

A receive flow whose frontier is wrong may drop everything that comes: a sender that started
over is late for ever.  What ends this is that only progress keeps a flow alive, not traffic.
If all packets of a flow are dropped and nothing is buffered, the flow is removed by the first
tick that comes more than the idle timeout after the last progress, and the next packet then
finds no flow and starts one.

There is one drop that counts as progress.  A late packet is still looked at by the
classifier; if it completes the window the flow may be demoted, which records progress
although nothing was held.  A demoted flow passes on everything, so it does not drop any more.

## Main definitions

* `Dropping` — the call delivers nothing of the flow and leaves nothing buffered.
* `Stalled` — the flow is as it was at the last progress, or demoted since.

## Main results

* `idle_backstop` — **a flow that only drops is removed or demoted, and the next packet is
  delivered in both cases**.
-/

namespace Mqvpn.Reorder

open List

variable {w w' : Work} {a : Arrival} {now t : UInt64} {rx : Rx} {k : FlowKey}

/-! ### Deliveries in a trace -/

/-- A trace that goes on after a delivery shows it. -/
theorem deliveredSeqs_ne {k : FlowKey} {t es : List Event} {s : ℕ} {pkt : Packet}
    (hmem : Event.delivered k s pkt ∈ es) : deliveredSeqs k (t ++ es) ≠ deliveredSeqs k t := by
  intro heq
  rw [deliveredSeqs, filterMap_append] at heq
  have hnil : deliveredSeqs k es = [] := append_cancel_left (heq.trans (append_nil _).symm)
  have hs : s ∈ deliveredSeqs k es :=
    mem_filterMap.mpr ⟨_, hmem, if_pos rfl⟩
  rw [hnil] at hs
  cases hs

/-- `w'` comes from `w` by way of a delivery of the packet `a`. -/
def Delivers (a : Arrival) (w w' : Work) : Prop :=
  ∃ es, w'.rx.trace = w.rx.trace ++ es ∧ Event.delivered w.f.key a.seq a.pkt ∈ es

theorem delivers_deliverPkt (a : Arrival) (w : Work) :
    Delivers a w (deliverPkt a.seq a.pkt a.now a.now w) :=
  ⟨[.delivered w.f.key a.seq a.pkt], rfl, mem_singleton_self _⟩

theorem Delivers.within {v : Work} (h : Delivers a w v) (hw : Within now v w') :
    Delivers a w w' := by
  obtain ⟨es, htrace, hmem⟩ := h
  obtain ⟨es', htrace', -⟩ := hw.trace
  exact ⟨es ++ es', by rw [htrace', htrace, append_assoc], mem_append_left _ hmem⟩

theorem Delivers.of_within {v : Work} (hw : Within now w v) (h : Delivers a v w') :
    Delivers a w w' := by
  obtain ⟨es, htrace, -⟩ := hw.trace
  obtain ⟨es', htrace', hmem⟩ := h
  rw [hw.key] at hmem
  exact ⟨es ++ es', by rw [htrace', htrace, append_assoc], mem_append_right _ hmem⟩

/-! ### What one packet does -/

theorem delivers_startEpoch (a : Arrival) (w : Work) : Delivers a w (startEpoch a w) :=
  delivers_deliverPkt a { w with f := { w.f with initialized := true } }

theorem delivers_deliverInOrder (a : Arrival) (w : Work) : Delivers a w (deliverInOrder a w).2 := by
  have hdrain : Within a.now ((deliverPkt a.seq a.pkt a.now a.now w).setExpected
      (w.f.expected + 1) |>.touch a.now) (deliverInOrder a w).2 :=
    (within_drainContiguous.trans ((elementary_within a.now).periodEndIfDone .filled)).trans
      within_periodStartIfNeeded
  have hnext : Delivers a w ((deliverPkt a.seq a.pkt a.now a.now w).setExpected
      (w.f.expected + 1) |>.touch a.now) := delivers_deliverPkt a w
  exact hnext.within hdrain

/-- A reset that is honoured, or a demoted flow, or a flow without a packet: the packet is
delivered. -/
theorem delivers_onReordered
    (h : resetHonoured a (dispatch a w) = true ∨ w.f.passThrough = true ∨
      w.f.initialized = false) : Delivers a w (onReordered a w) := by
  have hdispatch : Within a.now w (dispatch a w) := within_dispatch
  refine Delivers.of_within hdispatch ?_
  unfold onReordered
  simp only
  split
  · have hreset : Within a.now (dispatch a w)
        ((resetReorderFlow (dispatch a w)).emit (.reset (dispatch a w).f.key)) :=
      (within_resetReorderFlow a.now _).trans
        ((elementary_within a.now).emit (by
          show _ = _
          exact (within_resetReorderFlow a.now (dispatch a w)).key.symm) fun _ _ => rfl)
    exact Delivers.of_within hreset (delivers_startEpoch a _)
  · next hno =>
    split
    · exact delivers_deliverPkt a _
    · next hpass =>
      have hinit : (dispatch a w).f.initialized = false := by
        rcases h with h | h | h
        · exact absurd h hno
        · exact absurd h hpass
        · exact h
      have hproc : processReorderPacket a (dispatch a w) =
          (.delivered, startEpoch a (dispatch a w)) := by
        unfold processReorderPacket
        rw [if_pos (by rw [hinit]; rfl)]
      rw [hproc]
      exact (delivers_startEpoch a (dispatch a w)).within
        (elementary_within a.now).classifyAndDemote

theorem ringEmpty_of_buffered {r : Ring} (h : RingOk r) (hnil : r.buffered = []) :
    ringEmpty r = true := by
  rw [ringEmpty, beq_iff_eq, h.count, hnil]
  rfl

/-- Where a packet ends up that finds an open epoch and nothing buffered: it is delivered, or
buffered, or it leaves the progress alone. -/
theorem processReorderPacket_empty (hring : RingOk w.f.buffer) (hnil : w.f.buffer.buffered = [])
    (hinit : w.f.initialized = true) :
    Delivers a w (processReorderPacket a w).2 ∨
      (processReorderPacket a w).2.f.buffer.buffered ≠ [] ∨
      (processReorderPacket a w).2.f.lastProgressUs = w.f.lastProgressUs := by
  have hempty := ringEmpty_of_buffered hring hnil
  have hrule : AdmitRule a (fun v => v = w) (fun r => Delivers a w r.2 ∨
      r.2.f.buffer.buffered ≠ [] ∨ r.2.f.lastProgressUs = w.f.lastProgressUs) :=
    { flush := by
        -- there is nothing to flush
        rintro v rfl hne
        rw [hempty] at hne
        cases hne
      late := by
        rintro v rfl _
        exact .inr (.inr rfl)
      next := by
        rintro v rfl _
        exact .inl (delivers_deliverInOrder a v)
      far := by
        rintro v rfl _
        exact .inr (.inr rfl)
      dup := by
        rintro v rfl _
        exact .inr (.inr rfl)
      limit := by
        rintro v rfl
        exact .inr (.inr rfl)
      pool := by
        rintro v rfl
        exact .inr (.inr rfl)
      insert := by
        rintro v rfl hadm _
        unfold bufferInsertCommitted
        split
        · exact .inr (.inr rfl)
        · split
          · exact .inr (.inr rfl)
          · next buffer hbuf =>
            have hwin : v.f.buffer.Window v.f.expected :=
              fun s hs => absurd hs (hring.ringEmpty_iff.mp hempty s)
            have hins := ringInsert_spec hring hwin hadm.ahead.le hadm.near hadm.new hbuf
            obtain ⟨x, hx, -⟩ := hins.ok.has_iff.mp ((hins.has_iff a.seq).mpr (Or.inr rfl))
            refine .inr (.inl ?_)
            rw [(advances_periodStartIfNeeded a.now (commitInsert a buffer v)).1]
            exact ne_nil_of_mem hx }
  exact hrule.processReorderPacket rfl hinit

/-- The classifier leaves ring and progress alone, or demotes the flow. -/
theorem classifyAndDemote_cases (a : Arrival) (w : Work) :
    ((classifyAndDemote a w).f.buffer = w.f.buffer ∧
      (classifyAndDemote a w).f.lastProgressUs = w.f.lastProgressUs) ∨
    (classifyAndDemote a w).f.passThrough = true ∧
      ∃ es, (classifyAndDemote a w).rx.trace = w.rx.trace ++ es ∧ Event.demoted w.f.key ∈ es := by
  have hclass : (classifyUpdate a.pkt w).2.f.buffer = w.f.buffer ∧
      (classifyUpdate a.pkt w).2.f.lastProgressUs = w.f.lastProgressUs ∧
      (classifyUpdate a.pkt w).2.f.key = w.f.key ∧
      (classifyUpdate a.pkt w).2.rx = w.rx := by
    unfold classifyUpdate
    split
    · exact ⟨rfl, rfl, rfl, rfl⟩
    · split <;> exact ⟨rfl, rfl, rfl, rfl⟩
  unfold classifyAndDemote
  split
  · next v heq =>
    rw [heq] at hclass
    exact .inl ⟨hclass.1, hclass.2.1⟩
  · next v heq =>
    rw [heq] at hclass
    obtain ⟨-, -, hkey, hrx⟩ := hclass
    have hflush := (elementary_within a.now).flushBufferForDemote (w := v)
    obtain ⟨es, htrace, -⟩ := hflush.trace
    refine .inr ⟨rfl, es ++ [.demoted w.f.key], ?_, mem_append_right _ (by simp)⟩
    show (flushBufferForDemote a.now v).rx.trace ++
      [.demoted (flushBufferForDemote a.now v).f.key] = _
    rw [htrace, hflush.key, hkey, hrx, append_assoc]

/-- **What a packet can do that is not delivered and leaves nothing buffered**: it leaves the
progress alone, or demotes the flow. -/
theorem onReordered_dropped (hring : RingOk w.f.buffer) (hnil : w.f.buffer.buffered = [])
    (hquiet : deliveredSeqs w.f.key (onReordered a w).rx.trace =
      deliveredSeqs w.f.key w.rx.trace)
    (hleft : (onReordered a w).f.buffer.buffered = []) :
    (onReordered a w).f.lastProgressUs = w.f.lastProgressUs ∨
      (onReordered a w).f.passThrough = true ∧
        ∃ es, (onReordered a w).rx.trace = w.rx.trace ++ es ∧ Event.demoted w.f.key ∈ es := by
  have hno : ∀ {v : Work}, Delivers a w v → deliveredSeqs w.f.key v.rx.trace ≠
      deliveredSeqs w.f.key w.rx.trace := by
    rintro v ⟨es, htrace, hmem⟩
    rw [htrace]
    exact deliveredSeqs_ne hmem
  by_cases hout : resetHonoured a (dispatch a w) = true ∨ w.f.passThrough = true ∨
      w.f.initialized = false
  · exact absurd hquiet (hno (delivers_onReordered hout))
  · rw [not_or, not_or, Bool.not_eq_false] at hout
    obtain ⟨hreset, hpass, hinit⟩ := hout
    have hdisp : Within a.now w (dispatch a w) := within_dispatch
    obtain ⟨es₀, htrace₀, -⟩ := hdisp.trace
    have hproc := processReorderPacket_empty (a := a) (w := dispatch a w) hring hnil hinit
    have heq : onReordered a w = if (processReorderPacket a (dispatch a w)).1.isTraffic then
        classifyAndDemote a (processReorderPacket a (dispatch a w)).2
        else (processReorderPacket a (dispatch a w)).2 := by
      unfold onReordered
      simp only
      rw [if_neg hreset, if_neg (show ¬ (dispatch a w).f.passThrough = true from hpass)]
    have hwithin := (elementary_within a.now).processReorderPacket (a := a) (w := dispatch a w)
    obtain ⟨es₁, htrace₁, -⟩ := hwithin.trace
    rw [heq] at hquiet hleft ⊢
    generalize processReorderPacket a (dispatch a w) = r at *
    split at hquiet
    · next htraffic =>
      rw [if_pos htraffic] at hleft ⊢
      rcases classifyAndDemote_cases a r.2 with ⟨hbuf, hprog⟩ | ⟨hdem, es₂, htrace₂, hmem⟩
      · rw [hbuf] at hleft
        rw [hprog]
        rcases hproc with hdel | hne | hsame
        · exact absurd hquiet (hno ((Delivers.of_within hdisp hdel).within
            (elementary_within a.now).classifyAndDemote))
        · exact absurd hleft hne
        · exact .inl hsame
      · refine .inr ⟨hdem, es₀ ++ es₁ ++ es₂, ?_, mem_append_right _ ?_⟩
        · rw [htrace₂, htrace₁, htrace₀]
          simp only [append_assoc]
        · rw [hwithin.key, hdisp.key] at hmem
          exact hmem
    · next htraffic =>
      rw [if_neg htraffic] at hleft ⊢
      rcases hproc with hdel | hne | hsame
      · exact absurd hquiet (hno (Delivers.of_within hdisp hdel))
      · exact absurd hleft hne
      · exact .inl hsame

/-! ### Calls -/

theorem trace_step (hwf : rx.WF) (op : Op) : ∃ es, (rx.step op).trace = rx.trace ++ es :=
  moves_trace (step_moves hwf op)

/-- A packet of a flow that finds its flow demoted, or no flow and room for one. -/
theorem delivers_onPacket (hinv : RxInv rx) {payload : Packet} {alloc : Alloc}
    (harr : rx.cfg.arrivalOf payload now alloc = some (k, a)) (halloc : alloc.flow = true)
    (hpass : ∀ g ∈ rx.flows, g.key = k → g.passThrough = true) :
    ∃ es, (onPacket rx payload now alloc).trace = rx.trace ++ es ∧
      Event.delivered k a.seq a.pkt ∈ es := by
  have hflow : a.alloc.flow = true := by
    rw [(arrivalOf_spec harr).2.2.1]
    exact halloc
  have heq : onPacket rx payload now alloc = rx.toFlow k a := by
    rcases onPacket_cases rx payload now alloc with ⟨key, a', harr', heq⟩ | ⟨hnone, -⟩
    · rw [harr] at harr'
      obtain ⟨rfl, rfl⟩ := Prod.mk.inj (Option.some.inj harr')
      exact heq
    · rw [harr] at hnone
      cases hnone
  rw [heq]
  cases hl : flowLookup rx k with
  | some f =>
    obtain ⟨hf, hkey⟩ := hinv.wf.flowLookup_some.mp hl
    obtain ⟨es, htrace, hmem⟩ := delivers_onReordered (a := a)
      (w := { rx := rx.toEngine, f := f }) (.inr (.inl (hpass f hf hkey)))
    refine ⟨es, ?_, hkey ▸ hmem⟩
    unfold Rx.toFlow flowGetOrCreate
    rw [hl]
    exact htrace
  | none =>
    obtain ⟨es, htrace, hmem⟩ := delivers_onReordered (a := a)
      (w := { rx := (rx.makeRoom.create k).toEngine, f := newFlow rx.makeRoom.cfg k })
      (.inr (.inr rfl))
    obtain ⟨es₀, htrace₀⟩ : ∃ es, rx.makeRoom.trace = rx.trace ++ es :=
      moves_trace (@moves_makeRoom now False (fun _ _ => False) rx hinv.wf).1
    refine ⟨es₀ ++ [.created k] ++ es, ?_, mem_append_right _ hmem⟩
    unfold Rx.toFlow flowGetOrCreate
    rw [hl, hflow]
    show (onReordered a ⟨(rx.makeRoom.create k).toEngine, newFlow rx.makeRoom.cfg k⟩).rx.trace = _
    rw [htrace]
    show rx.makeRoom.trace ++ [.created k] ++ es = _
    rw [htrace₀]
    simp only [append_assoc]

/-- After a tick a flow that holds nothing is as it was, and has made progress within the
idle timeout. -/
theorem tick_stalled (hinv : RxInv rx) (hgap : GapBound rx.toEngine rx.flows)
    (hclk : Clocked now rx.toEngine rx.flows)
    (hholds : ∀ g ∈ rx.flows, g.key = k → g.buffer.buffered = []) :
    ∀ g ∈ (tick rx now).flows, g.key = k →
      now.toNat ≤ g.lastProgressUs.toNat + rx.cfg.idleUs.toNat ∧ g ∈ rx.flows := by
  intro g hg hkey
  obtain ⟨hidle, f, hf, ⟨-, rfl⟩ | ⟨hdue, rest, e, -, rfl⟩⟩ := tick_flows hinv hgap hclk g hg
  · exact ⟨hidle, hf⟩
  · -- a flow that is due holds something
    have hok := hinv.table.flows f hf
    rw [(within_onGapTimeout now _).key] at hkey
    rw [Flow.isDue, Bool.and_eq_true] at hdue
    have hne := hok.armed.mp hdue.1
    rw [ringEmpty_of_buffered hok.ring (hholds f hf hkey)] at hne
    cases hne

/-- The call delivers nothing of the flow and leaves nothing of it buffered. -/
def Dropping (k : FlowKey) (rx : Rx) (op : Op) : Prop :=
  deliveredSeqs k (rx.step op).trace = deliveredSeqs k rx.trace ∧
    ∀ g ∈ (rx.step op).flows, g.key = k → g.buffer.buffered = []

instance (k : FlowKey) (rx : Rx) (op : Op) : Decidable (Dropping k rx op) :=
  inferInstanceAs (Decidable (_ ∧ _))

/-- The flow of a key, if it is there, holds nothing; it made its last progress at `p`, or has
been demoted since there were `d` demotions of it. -/
structure Stalled (k : FlowKey) (p : UInt64) (d : ℕ) (rx : Rx) : Prop where
  demotions : d ≤ rx.trace.count (.demoted k)
  holds : ∀ g ∈ rx.flows, g.key = k → g.buffer.buffered = []
  progress : ∀ g ∈ rx.flows, g.key = k → g.lastProgressUs = p ∨
    g.passThrough = true ∧ d < rx.trace.count (.demoted k)

variable {p : UInt64} {d : ℕ} {op : Op}

/-- Flows that are there already are no worse off after a call. -/
theorem Stalled.of_subset (h : Stalled k p d rx) (hwf : rx.WF) (hdrop : Dropping k rx op)
    (hsub : ∀ g ∈ (rx.step op).flows, g.key = k → g ∈ rx.flows) :
    Stalled k p d (rx.step op) := by
  obtain ⟨es, htrace⟩ := trace_step hwf op
  have hcount : rx.trace.count (.demoted k) ≤ (rx.step op).trace.count (.demoted k) := by
    rw [htrace, count_append]
    exact Nat.le_add_right _ _
  refine ⟨h.demotions.trans hcount, hdrop.2, fun g hg hkey => ?_⟩
  exact (h.progress g (hsub g hg hkey) hkey).imp_right fun ⟨hpass, hlt⟩ =>
    ⟨hpass, hlt.trans_le hcount⟩

theorem Stalled.packet (h : Stalled k p d rx) (hinv : RxInv rx)
    {f : Flow} (hf : f ∈ rx.flows) (hkey : f.key = k)
    (hstep : rx.step op = rx.withFlow f (onReordered a)) (hdrop : Dropping k rx op) :
    Stalled k p d (rx.step op) := by
  obtain ⟨hquiet, hleft⟩ := hdrop
  obtain ⟨es, htrace⟩ := trace_step hinv.wf op
  have hcount : (rx.step op).trace.count (.demoted k) =
      rx.trace.count (.demoted k) + es.count (.demoted k) := by
    rw [htrace, count_append]
  refine ⟨by have := h.demotions; omega, hleft, fun g hg hgk => ?_⟩
  have hnil := hleft g hg hgk
  have hself : (onReordered a { rx := rx.toEngine, f := f }).f.key = f.key :=
    (within_onReordered (a := a)).key
  subst hkey
  have hg' := hg
  rw [hstep] at hg'
  rcases mem_cons.mp ((Chained.perm_assign hinv.wf hf hself).subset hg') with rfl | hold
  · have hafter : (rx.step op).trace = (onReordered a { rx := rx.toEngine, f := f }).rx.trace := by
      rw [hstep]
      rfl
    rw [hafter] at hquiet
    rcases onReordered_dropped (w := { rx := rx.toEngine, f := f })
      (hinv.table.flows f hf).ring (h.holds f hf rfl) hquiet hnil with
      hsame | ⟨hpass, es', htrace', hmem⟩
    · rcases h.progress f hf rfl with hp | ⟨hpass, -⟩
      · exact .inl (hsame.trans hp)
      · -- a demoted flow does not drop
        obtain ⟨es', htrace', hmem⟩ := delivers_onReordered (a := a)
          (w := { rx := rx.toEngine, f := f }) (.inr (.inl hpass))
        rw [htrace'] at hquiet
        exact absurd hquiet (deliveredSeqs_ne hmem)
    · refine .inr ⟨hpass, ?_⟩
      have hpos : 0 < es'.count (Event.demoted f.key) := count_pos_iff.mpr hmem
      have hsum : (rx.step op).trace.count (.demoted f.key) =
          rx.trace.count (.demoted f.key) + es'.count (.demoted f.key) := by
        rw [hafter, htrace', count_append]
      have := h.demotions
      omega
  · exact absurd hgk (Chained.mem_entries_erase.mp hold).2

/-- A packet of another flow, or of none. -/
theorem other_onPacket (hinv : RxInv rx) {payload : Packet} {alloc : Alloc}
    (hother : ∀ key a, rx.cfg.arrivalOf payload now alloc = some (key, a) → key ≠ k)
    {g : Flow} (hg : g ∈ (rx.step (.onPacket payload now alloc)).flows) (hkey : g.key = k) :
    g ∈ rx.flows := by
  rcases onPacket_flows hinv.wf payload now alloc g hg with ⟨hold, -⟩ | ⟨key, a, w, harr, hw, rfl⟩
  · exact hold
  · have hwk : w.f.key = key := by
      rcases hw with ⟨-, hl⟩ | ⟨-, hnew⟩
      · exact (hinv.wf.flowLookup_some.mp hl).2
      · rw [hnew]
        rfl
    rw [(within_onReordered (a := a)).key, hwk] at hkey
    exact absurd hkey (hother key a harr)

/-- **A call that delivers and buffers nothing of a flow leaves it stalled.** -/
theorem Stalled.step (h : Stalled k p d rx) (hinv : RxInv rx)
    (hgap : GapBound rx.toEngine rx.flows) (hclk : Clocked t rx.toEngine rx.flows)
    (hclock : ∀ c ∈ op.clock, t ≤ c) (hdrop : Dropping k rx op) :
    Stalled k p d (rx.step op) := by
  cases op with
  | setForceNoDemotion force => exact h.of_subset hinv.wf hdrop fun g hg _ => hg
  | tick now =>
    refine h.of_subset hinv.wf hdrop fun g hg hkey => ?_
    exact (tick_stalled hinv hgap (hclk.mono (hclock now rfl)) h.holds g hg hkey).2
  | onPacket payload now alloc =>
    rcases onPacket_cases rx payload now alloc with ⟨key, a, harr, heq⟩ | ⟨hnone, -⟩
    · by_cases hk : key = k
      · subst hk
        cases hl : flowLookup rx key with
        | some f =>
          obtain ⟨hf, hkey⟩ := hinv.wf.flowLookup_some.mp hl
          refine h.packet (a := a) hinv hf hkey (heq.trans ?_) hdrop
          unfold Rx.toFlow flowGetOrCreate
          rw [hl]
        | none =>
          have hgone := hinv.wf.flowLookup_none.mp hl
          cases halloc : alloc.flow with
          | true =>
            -- the packet would start a flow and be delivered
            obtain ⟨es, htrace, hmem⟩ := delivers_onPacket hinv harr halloc
              fun g hg hkey => absurd hkey (hgone g hg)
            have hquiet := hdrop.1
            rw [show (rx.step (.onPacket payload now alloc)).trace = _ from htrace] at hquiet
            exact absurd hquiet (deliveredSeqs_ne hmem)
          | false =>
            have hroom : rx.step (.onPacket payload now alloc) = rx.makeRoom := by
              refine heq.trans ?_
              unfold Rx.toFlow flowGetOrCreate
              rw [hl, (arrivalOf_spec harr).2.2.1, halloc]
              rfl
            refine h.of_subset hinv.wf hdrop fun g hg _ => ?_
            rw [hroom] at hg
            exact (@moves_makeRoom now False (fun _ _ => False) rx hinv.wf).2.2 g hg
      · exact h.of_subset hinv.wf hdrop fun g hg hkey => other_onPacket hinv
          (fun key' a' harr' => by
            rw [harr] at harr'
            obtain ⟨rfl, -⟩ := Prod.mk.inj (Option.some.inj harr')
            exact hk) hg hkey
    · exact h.of_subset hinv.wf hdrop fun g hg hkey => other_onPacket hinv
        (fun key' a' harr' => by rw [hnone] at harr'; cases harr') hg hkey

/-- **A flow stays stalled along a run that delivers and buffers nothing of it.** -/
theorem Stalled.run {ops later : List Op} (hon : OnClock (ops ++ later) rx) (h : Stalled k p d rx)
    (hdrops : Run.Along Rx.step (Dropping k) rx ops) :
    OnClock later (rx.run ops) ∧ Stalled k p d (rx.run ops) := by
  refine (Run.exec_rest Rx.step (P := fun ops rx => (OnClock (ops ++ later) rx ∧ Stalled k p d rx) ∧
    Run.Along Rx.step (Dropping k) rx ops) ?_ ops rx ⟨⟨hon, h⟩, hdrops⟩).1
  rintro rx op ops ⟨⟨hon, h⟩, hdrop, hrest⟩
  obtain ⟨t, hclk, hmono⟩ := hon.clocked
  exact ⟨⟨hon.step, h.step hon.inv hon.gap hclk (pairwise_clock_cons hmono).1 hdrop⟩, hrest⟩

theorem idleUs_run {cfg : Config} {seed : UInt64} {allocOk : Bool}
    (h : rxNew cfg seed allocOk = some rx) (ops : List Op) :
    (rx.run ops).cfg.idleUs = rx.cfg.idleUs := by
  obtain ⟨force, hcfg⟩ := cfg_run h ops
  obtain ⟨force', hcfg'⟩ := cfg_run h []
  rw [hcfg, show rx.cfg = _ from hcfg']
  rfl

/-- **A flow that only drops comes to an end.**  From the state after `pre` on all packets of
the flow are dropped and nothing of it is buffered, and a tick comes more than the idle timeout
after its last progress.  Then the flow is removed, unless one of the dropped packets has
demoted it; and the next packet of the flow is delivered at once in both cases. -/
theorem idle_backstop {cfg : Config} {seed : UInt64} {allocOk : Bool}
    (h : rxNew cfg seed allocOk = some rx) (pre mid : List Op) (now : UInt64)
    (hclock : ((pre ++ (mid ++ [Op.tick now])).filterMap Op.clock).Pairwise (· ≤ ·))
    {f : Flow} (hf : f ∈ (rx.run pre).flows) (hnil : f.buffer.buffered = [])
    (hdrops : Run.Along Rx.step (Dropping f.key) (rx.run pre) mid)
    (hlate : f.lastProgressUs.toNat + rx.cfg.idleUs.toNat < now.toNat) :
    ((∀ g ∈ (rx.run (pre ++ (mid ++ [.tick now]))).flows, g.key ≠ f.key) ∨
      (rx.run pre).trace.count (.demoted f.key) <
        (rx.run (pre ++ mid)).trace.count (.demoted f.key)) ∧
    ∀ payload now' alloc a,
      (rx.run (pre ++ (mid ++ [.tick now]))).cfg.arrivalOf payload now' alloc =
        some (f.key, a) → alloc.flow = true →
      ∃ es, (onPacket (rx.run (pre ++ (mid ++ [.tick now]))) payload now' alloc).trace =
        (rx.run (pre ++ (mid ++ [.tick now]))).trace ++ es ∧
          Event.delivered f.key a.seq a.pkt ∈ es := by
  have hsplit (ops ops' : List Op) : rx.run (ops ++ ops') = (rx.run ops).run ops' :=
    Run.exec_append ..
  have hinv := rxInv_run h pre
  have hon : OnClock (mid ++ [.tick now]) (rx.run pre) :=
    Run.exec_rest Rx.step (P := fun ops => OnClock (ops ++ (mid ++ [.tick now])))
      (fun _ _ _ => OnClock.step) pre rx (onClock_rxNew h hclock)
  have hstart : Stalled f.key f.lastProgressUs ((rx.run pre).trace.count (.demoted f.key))
      (rx.run pre) := by
    -- keys are unique: the flow of this key is the one we look at
    have hself : ∀ g ∈ (rx.run pre).flows, g.key = f.key → g = f := fun g hg hkey =>
      inj_on_of_nodup_map hinv.table.keys hg hf hkey
    refine ⟨le_rfl, fun g hg hkey => ?_, fun g hg hkey => .inl ?_⟩
    · rw [hself g hg hkey, hnil]
    · rw [hself g hg hkey]
  obtain ⟨hon', hstalled⟩ := hstart.run hon hdrops
  rw [← hsplit] at hstalled hon'
  obtain ⟨t, hclk, hmono⟩ := hon'.clocked
  have hle : t ≤ now := (pairwise_cons.mp hmono).1 now mem_cons_self
  have hend : rx.run (pre ++ (mid ++ [.tick now])) = tick (rx.run (pre ++ mid)) now := by
    rw [← append_assoc, hsplit]
    rfl
  -- what the tick leaves is demoted
  have hleft : ∀ g ∈ (tick (rx.run (pre ++ mid)) now).flows, g.key = f.key →
      g.passThrough = true ∧ (rx.run pre).trace.count (.demoted f.key) <
        (rx.run (pre ++ mid)).trace.count (.demoted f.key) := by
    intro g hg hkey
    obtain ⟨hidle, hold⟩ := tick_stalled hon'.inv hon'.gap (hclk.mono hle) hstalled.holds g hg hkey
    rcases hstalled.progress g hold hkey with hsame | hdem
    · rw [idleUs_run h, hsame] at hidle
      omega
    · exact hdem
  rw [hend]
  refine ⟨?_, fun payload now' alloc a harr halloc => ?_⟩
  · by_cases hdem : (rx.run pre).trace.count (.demoted f.key) <
        (rx.run (pre ++ mid)).trace.count (.demoted f.key)
    · exact .inr hdem
    · exact .inl fun g hg hkey => hdem (hleft g hg hkey).2
  · refine delivers_onPacket ?_ harr halloc fun g hg hkey => (hleft g hg hkey).1
    exact (rxInv_run h (pre ++ mid)).step (.tick now)

/-- The packets of a sender that has started over are late; one is far ahead. -/
def staleOps : List Op :=
  [samplePacket 0 5000 1 20000000, samplePacket 1 5000 1 25000000,
    samplePacket 9999 5000 1 30000000]

/-- The engine after them and the tick that comes too late for the flow. -/
def staleRx : Rx :=
  sampleRun 1 ([samplePacket 5 5000 1 1000] ++ (staleOps ++ [.tick 30001001]))

/-- The flow is removed, and any packet is delivered then. -/
theorem idle_backstop_stale :
    ∃ f ∈ (sampleRun 1 [samplePacket 5 5000 1 1000]).flows,
      staleRx.flows = [] ∧
      ∀ payload now' alloc a, staleRx.cfg.arrivalOf payload now' alloc = some (f.key, a) →
        alloc.flow = true → ∃ es, (onPacket staleRx payload now' alloc).trace =
          staleRx.trace ++ es ∧ Event.delivered f.key a.seq a.pkt ∈ es := by
  have hstale : ∃ f ∈ (sampleRun 1 [samplePacket 5 5000 1 1000]).flows,
      f.buffer.buffered = [] ∧ Run.Along Rx.step (Dropping f.key)
        (sampleRun 1 [samplePacket 5 5000 1 1000]) staleOps ∧
      f.lastProgressUs.toNat + (Rx.initial sampleConfig 1).cfg.idleUs.toNat < 30001001 := by
    decide +kernel
  obtain ⟨f, hf, hnil, hdrops, hlate⟩ := hstale
  refine ⟨f, hf, by decide +kernel, ?_⟩
  unfold sampleRun at hf hdrops
  unfold staleRx sampleRun
  exact (idle_backstop (rxNew_of_validate rfl 1) [samplePacket 5 5000 1 1000] staleOps 30001001
    (by decide +kernel) hf hnil hdrops hlate).2

/-- A window of two packets: the second one is late, 20 s after the first, and demotes the
flow.  The first tick more than 30 s after the first packet does not remove it. -/
theorem late_drop_refreshes_progress :
    let rx := Rx.initial { sampleConfig with classifyWindow := 2 } 1
    ∃ f ∈ (rx.run [samplePacket 5 5000 1 1000]).flows,
      f.buffer.buffered = [] ∧
      Run.Along Rx.step (Dropping f.key) (rx.run [samplePacket 5 5000 1 1000])
        [samplePacket 3 5000 1 20000000] ∧
      f.lastProgressUs.toNat + rx.cfg.idleUs.toNat < 30001001 ∧
      ∃ g ∈ (rx.run ([samplePacket 5 5000 1 1000] ++ ([samplePacket 3 5000 1 20000000] ++
        [.tick 30001001]))).flows, g.key = f.key := by
  decide +kernel

end Mqvpn.Reorder
