import Mqvpn.Reorder.Moves

/-!
# The invariant of the receive engine

Every flow is settled, the pool is charged with exactly what the flows buffer, and the
trace is ordered: `TableInv` says so of the engine and its flows, every move keeps it,
and so every run does.

## Main definitions

* `TableInv` — the invariant of the engine and its flows.

## Main results

* `TableInv.move` — every move keeps the invariant.
* `rxInv_run` — **the invariant holds after every run**.
-/

namespace Mqvpn.Reorder

open List

open Relation (ReflTransGen)

/-- **The invariant of the engine `e` and its flows `fs`.** -/
structure TableInv (e : Engine) (fs : List Flow) : Prop where
  ready : e.cfg.RxReady
  keys : (fs.map Flow.key).Nodup
  nFlows : e.nFlows = fs.length
  pool : e.poolBytesUsed = (fs.map fun f => f.buffer.bytes).sum
  poolMax : e.poolBytesUsed ≤ e.cfg.globalMaxBufferBytes
  noClamp : Event.clamped ∉ e.trace
  ordered : ∀ k, Ordered k e.trace
  flows : ∀ f ∈ fs, FlowOk e.trace f
  /-- A key without a flow has no open epoch. -/
  gone : ∀ k, (∀ f ∈ fs, f.key ≠ k) → epoch k e.trace = none
  /-- Wait and capacity are those of the configuration. -/
  resolved : ∀ f ∈ fs, f.buffer.cap = e.cfg.flowCap f.key ∧ f.waitMs = e.cfg.flowWait f.key

variable {e : Engine} {f : Flow} {fs fs' : List Flow} {now : UInt64} {T : Prop}
  {C : Arrival → Work → Prop}

theorem TableInv.perm (h : TableInv e fs) (hp : fs.Perm fs') : TableInv e fs' where
  ready := h.ready
  keys := (hp.map Flow.key).nodup_iff.mp h.keys
  nFlows := h.nFlows.trans hp.length_eq
  pool := h.pool.trans (hp.map _).sum_eq
  poolMax := h.poolMax
  noClamp := h.noClamp
  ordered := h.ordered
  flows := fun f hf => h.flows f (hp.symm.subset hf)
  gone := fun k hk => h.gone k fun f hf => hk f (hp.subset hf)
  resolved := fun f hf => h.resolved f (hp.symm.subset hf)

/-! ### Flows and the trace -/

/-- The invariant of a flow looks at the trace only through two readings. -/
theorem FlowOk.congr {t t' : List Event} (h : FlowOk t f)
    (harr : arrivals f.key t' = arrivals f.key t)
    (hep : epoch f.key t' = epoch f.key t) : FlowOk t' f :=
  { h with
    packets := by rw [harr]; exact h.packets
    order := by rw [hep]; exact h.order
    demoted := by rw [hep]; exact h.demoted }

theorem flowOk_newFlow {cfg : Config} (hready : cfg.RxReady) {key : FlowKey} {t : List Event}
    (hgone : epoch key t = none) : FlowOk (t ++ [.created key]) (newFlow cfg key) := by
  have hnone : ∀ s, ¬ (newFlow cfg key).buffer.Has s := not_has_of_slots_nil rfl
  have hep : epoch key (t ++ [.created key]) = some [] := by
    rw [epoch_snoc, hgone]
    simp only [epochStep, ↓reduceIte, Option.getD_none]
  exact
    { ring := ringOk_ringInit (hready key)
      window := fun s hs => absurd hs (hnone s)
      below := fun s hs => absurd hs (hnone s)
      top := fun s hs => absurd hs (hnone s)
      drained := fun _ => le_rfl
      mark := fun hact => Bool.noConfusion hact
      fresh := fun _ => rfl
      range := ⟨Nat.zero_le _, Nat.zero_le _⟩
      gaps := rfl
      packets := by
        show (arrivals key (t ++ [.created key])).length = 0
        rw [arrivals_snoc]
        simp only [arrivalsStep, ↓reduceIte, length_nil]
      hist := rfl
      buckets := rfl
      order := fun _ => ⟨[], hep, by simp, fun _ => rfl⟩
      demoted := fun hp => Bool.noConfusion hp
      armed := by
        show false = true ↔ (0 == 0) = false
        simp
      ahead := fun hact => Bool.noConfusion hact
      head := hnone _ }

/-! ### Work on one flow -/

namespace TableInv

section
variable (h : TableInv e (f :: fs))
include h

/-- One flow of the table together with what it shares. -/
theorem done : Done (fs.map fun g => g.buffer.bytes).sum { rx := e, f := f } :=
  { h.flows f mem_cons_self with
    pool := by
      have := h.pool
      rw [map_cons, sum_cons] at this
      show e.poolBytesUsed = _ + f.buffer.bytes
      omega
    poolMax := h.poolMax
    noClamp := h.noClamp
    ordered := h.ordered }

theorem key_ne {g : Flow} (hg : g ∈ fs) : g.key ≠ f.key := by
  have hnd := h.keys
  rw [map_cons, nodup_cons] at hnd
  intro hk
  exact hnd.1 (hk ▸ mem_map_of_mem hg)

/-- Work on one flow that stays within it and keeps its invariant keeps the table's. -/
theorem work {w : Work} (hwithin : Within now { rx := e, f := f } w)
    (hdone : Done (fs.map fun g => g.buffer.bytes).sum w) : TableInv w.rx (w.f :: fs) := by
  obtain ⟨es, htrace, habout⟩ := hwithin.trace
  have hcfg : w.rx.cfg = e.cfg := hwithin.cfg
  have hkey : w.f.key = f.key := hwithin.key
  exact
    { ready := hcfg ▸ h.ready
      keys := by
        rw [map_cons, hkey]
        exact h.keys
      nFlows := hwithin.nFlows.trans h.nFlows
      pool := by
        rw [map_cons, sum_cons, Nat.add_comm]
        exact hdone.pool
      poolMax := hdone.poolMax
      noClamp := hdone.noClamp
      ordered := hdone.ordered
      flows := by
        intro g hg
        rcases mem_cons.mp hg with rfl | hg
        · exact { hdone with }
        · -- the other flows are not talked about
          have hne := h.key_ne hg
          rw [htrace]
          exact (h.flows g (mem_cons_of_mem _ hg)).congr (arrivals_append_about hne habout)
            (epoch_append_about hne habout)
      gone := by
        intro k hk
        have hne : k ≠ f.key := fun heq => hk w.f mem_cons_self (hkey.trans heq.symm)
        rw [htrace, epoch_append_about hne habout]
        refine h.gone k fun g hg => ?_
        rcases mem_cons.mp hg with rfl | hg
        · exact hne.symm
        · exact hk g (mem_cons_of_mem _ hg)
      resolved := by
        intro g hg
        rw [hcfg]
        rcases mem_cons.mp hg with rfl | hg
        · rw [hkey, hwithin.cap, hwithin.waitMs]
          exact h.resolved f mem_cons_self
        · exact h.resolved g (mem_cons_of_mem _ hg) }

/-! ### Flows come and go -/

omit h in
theorem create (h : TableInv e fs) {key : FlowKey} (hnew : ∀ f ∈ fs, f.key ≠ key) :
    TableInv ({ e with nFlows := e.nFlows + 1, nextIdleUs := 0 }.emit (.created key))
      (newFlow e.cfg key :: fs) where
  ready := h.ready
  keys := by
    rw [map_cons, nodup_cons, mem_map]
    refine ⟨?_, h.keys⟩
    rintro ⟨g, hg, hk⟩
    exact hnew g hg hk
  nFlows := by
    rw [length_cons, ← h.nFlows]
    rfl
  pool := by
    rw [map_cons, sum_cons, ← h.pool]
    exact (Nat.zero_add _).symm
  poolMax := h.poolMax
  noClamp := not_clamped_snoc h.noClamp nofun
  ordered := by
    -- none of its epochs is open when a flow is created
    refine ordered_snoc_of_empty h.ordered (Or.inl ?_) fun k hk => if_neg hk
    rw [h.gone key hnew]
    simp only [epochStep, ↓reduceIte, Option.getD_none]
  flows := by
    intro g hg
    rcases mem_cons.mp hg with rfl | hg
    · exact flowOk_newFlow h.ready (h.gone key hnew)
    · have hne : key ≠ g.key := fun hk => hnew g hg hk.symm
      refine (h.flows g hg).congr ?_ ?_
      · show arrivals g.key (e.trace ++ [.created key]) = _
        rw [arrivals_snoc]
        simp only [arrivalsStep, if_neg hne]
      · show epoch g.key (e.trace ++ [.created key]) = _
        rw [epoch_snoc]
        simp only [epochStep, if_neg hne]
  gone := by
    -- a key that is not in the table is not the new one
    intro k hk
    have hne : key ≠ k := hk (newFlow e.cfg key) mem_cons_self
    show epoch k (e.trace ++ [.created key]) = none
    rw [epoch_snoc]
    simp only [epochStep, if_neg hne]
    exact h.gone k fun g hg => hk g (mem_cons_of_mem _ hg)
  resolved := by
    intro g hg
    rcases mem_cons.mp hg with rfl | hg
    · exact ⟨rfl, rfl⟩
    · exact h.resolved g hg

theorem flowDestroy_eq :
    flowDestroy e f =
      { e with
        evictedStats := statsAccumulate e.evictedStats f.stats
        poolBytesUsed := (fs.map fun g => g.buffer.bytes).sum
        trace := e.trace ++ [.destroyed f.key f.gapTimerActive] } := by
  have hpool := h.pool
  rw [map_cons, sum_cons] at hpool
  have hbytes : ((Residue.occupied Slot.key f.buffer.slots).map Slot.len).sum = f.buffer.bytes :=
    (h.flows f mem_cons_self).ring.bytes.symm
  unfold flowDestroy
  simp only
  rw [releaseSlots_eq _ _ (by rw [hbytes]; show _ ≤ e.poolBytesUsed; omega), hbytes]
  have hrest : e.poolBytesUsed - f.buffer.bytes = (fs.map fun g => g.buffer.bytes).sum := by omega
  simp only [Engine.emit, hrest]

theorem destroy : TableInv (e.drop f) fs := by
  have hkeys := h.keys
  rw [map_cons, nodup_cons] at hkeys
  unfold Engine.drop
  rw [h.flowDestroy_eq]
  exact
    { ready := h.ready
      keys := hkeys.2
      nFlows := by
        have := h.nFlows
        rw [length_cons] at this
        show e.nFlows - 1 = fs.length
        omega
      pool := rfl
      poolMax := by
        have hmax := h.poolMax
        have hpool := h.pool
        rw [map_cons, sum_cons] at hpool
        show (fs.map fun g => g.buffer.bytes).sum ≤ e.cfg.globalMaxBufferBytes
        omega
      noClamp := not_clamped_snoc h.noClamp nofun
      ordered := ordered_snoc_of_empty h.ordered (Or.inr (if_pos rfl)) fun k hk => if_neg hk
      flows := by
        intro g hg
        have hne : f.key ≠ g.key := (h.key_ne hg).symm
        refine (h.flows g (mem_cons_of_mem _ hg)).congr ?_ ?_
        · show arrivals g.key (e.trace ++ [_]) = _
          rw [arrivals_snoc]
          rfl
        · show epoch g.key (e.trace ++ [.destroyed f.key f.gapTimerActive]) = _
          rw [epoch_snoc]
          simp only [epochStep, if_neg hne]
      gone := by
        intro k hk
        show epoch k (e.trace ++ [.destroyed f.key f.gapTimerActive]) = none
        rw [epoch_snoc]
        -- the epoch of the destroyed flow is closed; the others were gone before
        by_cases hkf : f.key = k
        · simp only [epochStep, if_pos hkf]
        · simp only [epochStep, if_neg hkf]
          refine h.gone k fun g hg => ?_
          rcases mem_cons.mp hg with rfl | hg
          · exact hkf
          · exact hk g hg
      resolved := fun g hg => h.resolved g (mem_cons_of_mem _ hg) }

end

theorem pass (h : TableInv e fs) (pkt : Packet) : TableInv (e.emit (.passed pkt)) fs :=
  { h with
    noClamp := not_clamped_snoc h.noClamp nofun
    ordered := fun k => (h.ordered k).snoc_of_eq rfl
    flows := by
      intro g hg
      refine (h.flows g hg).congr ?_ ?_
      · show arrivals g.key (e.trace ++ [_]) = _
        rw [arrivals_snoc]
        rfl
      · show epoch g.key (e.trace ++ [_]) = _
        rw [epoch_snoc]
        rfl
    gone := by
      intro k hk
      show epoch k (e.trace ++ [_]) = none
      rw [epoch_snoc]
      exact h.gone k hk }

/-- **Every move keeps the invariant.** -/
theorem move {x y : Engine × List Flow} (h : TableInv x.1 x.2) (hm : Move now T C x y) :
    TableInv y.1 y.2 := by
  cases hm with
  | perm hp => exact h.perm hp
  | bounds | knob => exact { h with }
  | pass pkt => exact h.pass pkt
  | create key hnew => exact h.create hnew
  | packet a hseq => exact h.work within_onReordered (h.done.onReordered hseq)
  | timeout _ hact => exact h.work (within_onGapTimeout _ _) (h.done.onGapTimeout hact)
  | destroy => exact h.destroy

end TableInv

/-! ### Runs -/

/-- The engine invariant: the table is well formed and everything in it is settled. -/
structure RxInv (rx : Rx) : Prop where
  wf : rx.WF
  table : TableInv rx.toEngine rx.flows

variable {rx : Rx}

variable {allocOk : Bool} {cfg : Config} {seed : UInt64} (h : rxNew cfg seed allocOk = some rx)
include h

theorem rxInv_rxNew : RxInv rx := by
  obtain ⟨hwf, hnil⟩ := wf_rxNew h
  refine ⟨hwf, ?_⟩
  rw [hnil]
  obtain ⟨rfl, hvalid⟩ := eq_of_rxNew h
  exact
    { ready := rxReady_finalize hvalid
      keys := nodup_nil
      nFlows := rfl
      pool := rfl
      poolMax := Nat.zero_le _
      noClamp := not_mem_nil
      ordered := ordered_nil
      flows := by simp
      gone := fun _ _ => rfl
      resolved := by simp }

omit h in
theorem RxInv.step (h : RxInv rx) (op : Op) : RxInv (rx.step op) :=
  ⟨wf_step h.wf op, moves_inv (P := fun x => TableInv x.1 x.2) (fun _ _ hx hm => hx.move hm)
    (step_moves h.wf op) h.table⟩

/-- **The invariant holds after every run.** -/
theorem rxInv_run (ops : List Op) : RxInv (rx.run ops) :=
  Run.exec_inv Rx.step (fun _ op hrx => hrx.step op) ops rx (rxInv_rxNew h)

/-- Only the knob of the accepted configuration ever moves. -/
theorem cfg_run (ops : List Op) :
    ∃ force, (rx.run ops).cfg = { cfg.finalize with evalForceNoDemotion := force } := by
  have hstart : ∃ force, rx.cfg = { cfg.finalize with evalForceNoDemotion := force } := by
    rw [(eq_of_rxNew h).1]
    exact ⟨_, rfl⟩
  have hinv := Run.exec_inv Rx.step
    (P := fun r => RxInv r ∧ ∃ force, r.cfg = { cfg.finalize with evalForceNoDemotion := force })
    (fun r op hr => by
      obtain ⟨hinv, b, hb⟩ := hr
      obtain ⟨b', hb'⟩ := cfg_step hinv.wf op
      exact ⟨hinv.step op, b', by rw [hb', hb]⟩) ops rx ⟨rxInv_rxNew h, hstart⟩
  exact hinv.2

end Mqvpn.Reorder
