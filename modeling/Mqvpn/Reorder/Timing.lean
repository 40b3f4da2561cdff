import Mqvpn.Reorder.Skipping

/-!
# How long a flow can live on

A receive flow that hears nothing more does not live for ever: its timer can run out
twice at most, and after that it makes no progress and goes idle.  With a tick at least
every `T`, a flow that waits `W` for a gap and was last seen at `s` has made no progress
after `s + 2 * (W + T)`, and is gone one idle timeout and one tick later.

The second timeout is the last because a timeout that leaves packets behind starts the
next period with its mark above everything held, so that nothing is left after that.

Times are compared as numbers: a deadline that wraps around only comes earlier.

## Main definitions

* `Timing` — what a packet can do to the timer of its flow.
* `Phase`, `Timed` — how far a flow is on its way to going idle.

## Main results

* `Timed.alive` — **a live flow was seen not long ago**.
-/

namespace Mqvpn.Reorder

open List

/-- The wait of a flow in microseconds. -/
def Flow.waitUs (f : Flow) : ℕ := (f.waitMs.toUInt64 * 1000).toNat

/-- The wait a configuration gives to the flow of a key, in microseconds. -/
def Config.waitUs (cfg : Config) (key : FlowKey) : ℕ := ((cfg.flowWait key).toUInt64 * 1000).toNat

/-! ### The timer of a flow -/

/-- Between the dispatch of a packet at `now` and the end of its processing the timer is
left alone, stopped, or started at `now`. -/
structure Timing (now : UInt64) (w w' : Work) : Prop where
  waitMs : w'.f.waitMs = w.f.waitMs
  lastSeen : w'.f.lastSeenUs = w.f.lastSeenUs
  timer : w'.f.gapTimerActive = true →
    w'.f.gapArmedUs = now ∧ w'.f.gapDeadlineUs = now + w.f.waitMs.toUInt64 * 1000 ∨
      w.f.gapTimerActive = true ∧ w'.f.gapArmedUs = w.f.gapArmedUs ∧
        w'.f.gapDeadlineUs = w.f.gapDeadlineUs

theorem elementary_timing (now : UInt64) : Elementary now (Timing now) where
  refl := fun _ => ⟨rfl, rfl, fun h => Or.inr ⟨h, rfl, rfl⟩⟩
  trans := by
    intro w w' w'' h h'
    refine ⟨h'.waitMs.trans h.waitMs, h'.lastSeen.trans h.lastSeen, fun hact => ?_⟩
    rcases h'.timer hact with hnew | ⟨hact', harmed, hdl⟩
    · rw [← h.waitMs]
      exact Or.inl hnew
    · rw [harmed, hdl]
      exact h.timer hact'
  emit := fun _ _ => ⟨rfl, rfl, fun h => Or.inr ⟨h, rfl, rfl⟩⟩
  pool := fun _ _ => ⟨rfl, rfl, fun h => Or.inr ⟨h, rfl, rfl⟩⟩
  flow := fun h => ⟨h.waitMs, h.lastSeen, fun hact => Or.inr (h.timer hact)⟩
  arm := fun _ => ⟨rfl, rfl, fun _ => Or.inl ⟨rfl, rfl⟩⟩

/-- A deadline lies at most the wait after the arming. -/
theorem toNat_deadline_le (now : UInt64) (waitMs : UInt32) :
    (now + waitMs.toUInt64 * 1000).toNat ≤ now.toNat + (waitMs.toUInt64 * 1000).toNat := by
  rw [UInt64.toNat_add]
  exact Nat.mod_le _ _

/-- A timer that runs after a timeout was started by it, with its mark on top. -/
theorem rearmed_onGapTimeout {now : UInt64} {w : Work}
    (hact : (onGapTimeout now w).f.gapTimerActive = true) :
    (onGapTimeout now w).f.reord = (onGapTimeout now w).f.rxNext ∧
      (onGapTimeout now w).f.gapArmedUs = now ∧
      (onGapTimeout now w).f.gapDeadlineUs =
        now + (onGapTimeout now w).f.waitMs.toUInt64 * 1000 := by
  unfold onGapTimeout at hact ⊢
  by_cases hempty : ringEmpty w.f.buffer = true
  · rw [if_pos hempty] at hact
    cases hact
  · rw [if_neg hempty] at hact ⊢
    simp only at hact ⊢
    unfold periodStartIfNeeded at hact ⊢
    split at hact
    · next hcond =>
      rw [if_pos hcond]
      exact ⟨rfl, rfl, rfl⟩
    · cases hact

/-- The first packet of a flow is progress. -/
theorem lastProgress_onReordered_newFlow (a : Arrival) (e : Engine) (cfg : Config) (key : FlowKey) :
    (onReordered a { rx := e, f := newFlow cfg key }).f.lastProgressUs = a.now := by
  unfold onReordered
  simp only
  split
  · rfl
  · -- not demoted and not started: the packet starts an epoch
    have hpass : ¬ (dispatch a { rx := e, f := newFlow cfg key }).f.passThrough = true :=
      Bool.false_ne_true
    rw [if_neg hpass]
    have hprocess : processReorderPacket a (dispatch a { rx := e, f := newFlow cfg key }) =
        (.delivered, startEpoch a (dispatch a { rx := e, f := newFlow cfg key })) := rfl
    rw [hprocess]
    show (classifyAndDemote a
      (startEpoch a (dispatch a { rx := e, f := newFlow cfg key }))).f.lastProgressUs = a.now
    have hwithin := (elementary_within a.now).classifyAndDemote (a := a)
      (w := startEpoch a (dispatch a { rx := e, f := newFlow cfg key }))
    rcases hwithin.progress with hsame | hnow
    · exact hsame
    · exact hnow

theorem lastSeen_onGapTimeout (now : UInt64) (w : Work) :
    (onGapTimeout now w).f.lastSeenUs = w.f.lastSeenUs :=
  ((elementary_timing now).onGapTimeout w).lastSeen

/-! ### The way to going idle -/

/-- How far a flow has come since it was last seen: no timeout, one that started another
period, or none to come.  A timeout comes at most `slack` after the arming. -/
inductive Phase (slack : ℕ) (f : Flow) : Prop
  | fresh (harmed : f.gapTimerActive = true → f.gapArmedUs.toNat ≤ f.lastSeenUs.toNat)
      (hprogress : f.lastProgressUs.toNat ≤ f.lastSeenUs.toNat) : Phase slack f
  | once (hact : f.gapTimerActive = true) (hmark : f.reord = f.rxNext)
      (harmed : f.gapArmedUs.toNat ≤ f.lastSeenUs.toNat + slack)
      (hprogress : f.lastProgressUs.toNat ≤ f.lastSeenUs.toNat + slack) : Phase slack f
  | ended (hact : f.gapTimerActive = false)
      (hprogress : f.lastProgressUs.toNat ≤ f.lastSeenUs.toNat + 2 * slack) : Phase slack f

theorem Phase.progress_le {slack : ℕ} {f : Flow} (h : Phase slack f) :
    f.lastProgressUs.toNat ≤ f.lastSeenUs.toNat + 2 * slack := by
  cases h with
  | fresh _ hp => omega
  | once _ _ _ hp => omega
  | ended _ hp => exact hp

/-- A running timer was started in the past, is due within the wait, and was not due at
the last tick `last`. -/
def TimerPending (last now : ℕ) (f : Flow) : Prop :=
  f.gapTimerActive = true → f.gapArmedUs.toNat ≤ now ∧ last ≤ f.gapArmedUs.toNat + f.waitUs ∧
    f.gapDeadlineUs.toNat ≤ f.gapArmedUs.toNat + f.waitUs

/-- **What is known of a flow at time `now`**, with the last tick at `last`, ticks at
least every `T` and the idle timeout `idle`. -/
structure Timed (T idle last now : ℕ) (f : Flow) : Prop where
  seen : f.lastSeenUs.toNat ≤ now
  progress : f.lastProgressUs.toNat ≤ now
  /-- The flow was not idle at the last tick. -/
  lively : last ≤ f.lastProgressUs.toNat + idle
  pending : TimerPending last now f
  phase : Phase (f.waitUs + T) f

variable {T idle last t : ℕ} {f : Flow} {e : Engine} {now : UInt64} {a : Arrival}

/-- **A live flow was seen not long ago.** -/
theorem Timed.alive (h : Timed T idle last t f) {x : ℕ} (hx : x ≤ last + T) :
    x ≤ f.lastSeenUs.toNat + 2 * (f.waitUs + T) + idle + T := by
  have hprogress := h.phase.progress_le
  have hlively := h.lively
  omega

/-- A packet starts the way anew. -/
theorem timed_onReordered (hprogress : f.lastProgressUs.toNat ≤ a.now.toNat)
    (hlast : last ≤ a.now.toNat) (hpending : TimerPending last a.now.toNat f)
    (hlively : last ≤ (onReordered a { rx := e, f := f }).f.lastProgressUs.toNat + idle) :
    Timed T idle last a.now.toNat (onReordered a { rx := e, f := f }).f := by
  have htiming : Timing a.now (dispatch a { rx := e, f := f })
      (onReordered a { rx := e, f := f }) := (elementary_timing a.now).onReordered
  have hwithin := within_onReordered (a := a) (w := { rx := e, f := f })
  generalize onReordered a { rx := e, f := f } = w at htiming hwithin hlively ⊢
  have hseen : w.f.lastSeenUs = a.now := htiming.lastSeen
  have hwait : w.f.waitUs = f.waitUs := by
    rw [Flow.waitUs, Flow.waitUs, htiming.waitMs]
    rfl
  have hpast : w.f.lastProgressUs.toNat ≤ a.now.toNat := by
    rcases hwithin.progress with hsame | hnow
    · rw [hsame]
      exact hprogress
    · rw [hnow]
  have hpending' : TimerPending last a.now.toNat w.f := by
    intro hact
    rw [hwait]
    rcases htiming.timer hact with ⟨harmed, hdl⟩ | ⟨hold, harmed, hdl⟩
    · rw [harmed, hdl]
      exact ⟨le_rfl, Nat.le_add_right_of_le hlast, toNat_deadline_le _ _⟩
    · rw [harmed, hdl]
      exact hpending hold
  exact
    { seen := by rw [hseen]
      progress := hpast
      lively := hlively
      pending := hpending'
      phase := by
        refine .fresh (fun hact => ?_) ?_
        · rw [hseen]
          exact (hpending' hact).1
        · rw [hseen]
          exact hpast }

theorem Timed.onReordered (h : Timed T idle last t f) (ht : t ≤ a.now.toNat)
    (hlast : last ≤ a.now.toNat) :
    Timed T idle last a.now.toNat (onReordered a { rx := e, f := f }).f := by
  refine timed_onReordered (h.progress.trans ht) hlast (fun hact => ?_) ?_
  · exact ⟨(h.pending hact).1.trans ht, (h.pending hact).2⟩
  · rcases (within_onReordered (a := a) (w := { rx := e, f := f })).progress with hsame | hnow
    · rw [hsame]
      exact h.lively
    · rw [hnow]
      exact Nat.le_add_right_of_le hlast

theorem timed_newFlow (cfg : Config) (key : FlowKey) (hlast : last ≤ a.now.toNat) :
    Timed T idle last a.now.toNat (onReordered a { rx := e, f := newFlow cfg key }).f := by
  refine timed_onReordered (Nat.zero_le _) hlast (fun hact => Bool.noConfusion hact) ?_
  rw [lastProgress_onReordered_newFlow]
  exact Nat.le_add_right_of_le hlast

theorem Timed.mono (h : Timed T idle last t f) {t' : ℕ} (ht : t ≤ t') : Timed T idle last t' f :=
  { h with
    seen := h.seen.trans ht
    progress := h.progress.trans ht
    pending := fun hact => ⟨(h.pending hact).1.trans ht, (h.pending hact).2⟩ }

/-- A flow that survives a tick without a timeout. -/
theorem Timed.not_due (h : Timed T idle last t f) (ht : t ≤ now.toNat)
    (hdue : f.isDue now = false) (hidle : now.toNat ≤ f.lastProgressUs.toNat + idle) :
    Timed T idle now.toNat now.toNat f := by
  refine { h.mono ht with lively := hidle, pending := fun hact => ?_ }
  obtain ⟨harmed, -, hdl⟩ := h.pending hact
  rw [Flow.isDue, hact, Bool.true_and, decide_eq_false_iff_not, UInt64.le_iff_toNat_le] at hdue
  exact ⟨harmed.trans ht, by omega, hdl⟩

/-- A timeout moves the flow on by one phase. -/
theorem Timed.onGapTimeout (h : Timed T idle last t f) (ht : t ≤ now.toNat)
    (hT : now.toNat ≤ last + T) (hact : f.gapTimerActive = true) {rest : ℕ}
    (hdone : Done rest { rx := e, f := f }) :
    Timed T idle now.toNat now.toNat (onGapTimeout now { rx := e, f := f }).f := by
  have hwithin := within_onGapTimeout now { rx := e, f := f }
  have hseen := lastSeen_onGapTimeout now { rx := e, f := f }
  have hprogress : (Reorder.onGapTimeout now { rx := e, f := f }).f.lastProgressUs = now :=
    lastProgress_onGapTimeout (hdone.armed.mp hact)
  have hrearmed := @rearmed_onGapTimeout now { rx := e, f := f }
  have hstops : _ → (Reorder.onGapTimeout now _).f.gapTimerActive = false :=
    hdone.onGapTimeout_stops hact
  generalize Reorder.onGapTimeout now { rx := e, f := f } = w
    at hwithin hseen hprogress hrearmed hstops ⊢
  have hwait : w.f.waitUs = f.waitUs := by
    rw [Flow.waitUs, Flow.waitUs, hwithin.waitMs]
  obtain ⟨-, hlast, -⟩ := h.pending hact
  have hpending : TimerPending now.toNat now.toNat w.f := by
    intro hact'
    obtain ⟨-, harmed, hdl⟩ := hrearmed hact'
    rw [harmed, hdl]
    exact ⟨le_rfl, Nat.le_add_right _ _, toNat_deadline_le _ _⟩
  exact
    { seen := by
        rw [hseen]
        exact h.seen.trans ht
      progress := by rw [hprogress]
      lively := by
        rw [hprogress]
        exact Nat.le_add_right _ _
      pending := hpending
      phase := by
        rw [hwait]
        have hend : ∀ slack, slack = f.waitUs + T →
            now.toNat ≤ f.lastSeenUs.toNat + 2 * slack → w.f.gapTimerActive = false →
            Phase slack w.f := by
          intro slack _ hle hstopped
          exact .ended hstopped (by rw [hprogress, hseen]; exact hle)
        cases h.phase with
        | ended hact' => rw [hact] at hact'; cases hact'
        | once _ hmark harmed =>
          -- the mark is above everything held: nothing is left
          exact hend _ rfl (by omega) (hstops hmark)
        | fresh harmed =>
          have hle := harmed hact
          cases hact' : w.f.gapTimerActive with
          | false => exact hend _ rfl (by omega) hact'
          | true =>
            obtain ⟨hmark, hnow, -⟩ := hrearmed hact'
            refine .once hact' hmark ?_ ?_
            · rw [hnow, hseen]
              show now.toNat ≤ f.lastSeenUs.toNat + _
              omega
            · rw [hprogress, hseen]
              show now.toNat ≤ f.lastSeenUs.toNat + _
              omega }

/-! ### What a call makes of each flow -/

variable {rx : Rx}

/-- The flows after a packet: one has dealt with it, the others are as they were. -/
theorem onPacket_flows (hwf : rx.WF) (payload : Packet) (now : UInt64) (alloc : Alloc) :
    ∀ f' ∈ (onPacket rx payload now alloc).flows,
      f' ∈ rx.flows ∧ (∀ key a, rx.cfg.arrivalOf payload now alloc = some (key, a) → f'.key ≠ key) ∨
        ∃ key a w, rx.cfg.arrivalOf payload now alloc = some (key, a) ∧
          (w.f ∈ rx.flows ∧ flowLookup rx key = some w.f ∨
            flowLookup rx key = none ∧ w.f = newFlow rx.cfg key) ∧
          f' = (onReordered a w).f := by
  -- the flow that is written back, and those that stay
  have hassign : ∀ (r : Rx), r.WF → ∀ f ∈ r.flows, ∀ a,
      ∀ f' ∈ (r.withFlow f (onReordered a)).flows,
        f' = (onReordered a { rx := r.toEngine, f := f }).f ∨ f' ∈ r.flows ∧ f'.key ≠ f.key := by
    intro r hr f hf a f' hf'
    have hkey : (onReordered a { rx := r.toEngine, f := f }).f.key = f.key :=
      (within_onReordered (a := a)).key
    rcases mem_cons.mp ((Chained.perm_assign hr hf hkey).subset hf') with hf' | hf'
    · exact Or.inl hf'
    · exact Or.inr (Chained.mem_entries_erase.mp hf')
  intro f' hf'
  rcases onPacket_cases rx payload now alloc with ⟨key, a, harr, heq⟩ | ⟨hnone, heq | ⟨pkt, heq⟩⟩
  · have hother : ∀ {g : Flow}, g.key ≠ key → ∀ key' a',
        rx.cfg.arrivalOf payload now alloc = some (key', a') → g.key ≠ key' := by
      intro g hg key' a' harr'
      rw [harr] at harr'
      obtain ⟨rfl, -⟩ := Prod.mk.inj (Option.some.inj harr')
      exact hg
    rw [heq] at hf'
    rcases toFlow_cases rx key a with ⟨f, hl, heq'⟩ | ⟨hl, heq'⟩ | ⟨hl, heq'⟩
    · rw [heq'] at hf'
      obtain ⟨hf, hk⟩ := hwf.flowLookup_some.mp hl
      rcases hassign rx hwf f hf a f' hf' with hf' | ⟨hf', hne⟩
      · exact Or.inr ⟨key, a, _, harr, Or.inl ⟨hf, hl⟩, hf'⟩
      · exact Or.inl ⟨hf', hother (hk ▸ hne)⟩
    · rw [heq'] at hf'
      have hold := (@moves_makeRoom now False (fun _ _ => False) _ hwf).2.2 f' hf'
      exact Or.inl ⟨hold, hother (hwf.flowLookup_none.mp hl f' hold)⟩
    · rw [heq'] at hf'
      obtain ⟨-, hwf', hsub⟩ := @moves_makeRoom now False (fun _ _ => False) _ hwf
      have hnew : ∀ f ∈ rx.makeRoom.flows, f.key ≠ key :=
        fun f hf => hwf.flowLookup_none.mp hl f (hsub f hf)
      obtain ⟨-, hperm, hwf''⟩ := @moves_create now False (fun _ _ => False) _ hwf' _ hnew
      rw [cfg_makeRoom] at hperm
      rcases hassign _ hwf'' _ (hperm.symm.subset mem_cons_self) a f' hf' with hf' | ⟨hf', hne⟩
      · exact Or.inr ⟨key, a, _, harr, Or.inr ⟨hl, rfl⟩, hf'⟩
      · rcases mem_cons.mp (hperm.subset hf') with rfl | hf'
        · exact absurd rfl hne
        · exact Or.inl ⟨hsub f' hf', hother (hnew f' hf')⟩
  · rw [heq] at hf'
    exact Or.inl ⟨hf', fun key a harr => by rw [hnone] at harr; cases harr⟩
  · rw [heq] at hf'
    exact Or.inl ⟨hf', fun key a harr => by rw [hnone] at harr; cases harr⟩

/-- The flows after the timeout sweep, each with the state its timeout was served in. -/
theorem gapSweep_done (hinv : TableInv rx.toEngine rx.flows) :
    ∀ f' ∈ (gapSweep now rx).flows, ∃ f ∈ rx.flows,
      f.isDue now = false ∧ f' = f ∨
        f.isDue now = true ∧ ∃ rest e, Done rest { rx := e, f := f } ∧
          f' = (onGapTimeout now { rx := e, f := f }).f := by
  -- the flows done and the flows to come satisfy the invariant throughout
  refine (gapSweep_induct
    (P := fun done e todo => TableInv e (done ++ todo) ∧ (∀ f ∈ todo, f ∈ rx.flows) ∧
      ∀ f' ∈ done, ∃ f ∈ rx.flows, f.isDue now = false ∧ f' = f ∨
        f.isDue now = true ∧ ∃ rest e, Done rest { rx := e, f := f } ∧
          f' = (onGapTimeout now { rx := e, f := f }).f)
    ?_ ?_ ⟨{ hinv with }, fun _ hf => hf, by simp⟩).2.2
  · rintro done e f todo gap ⟨htable, htodo, hdone⟩ hdue - -
    obtain ⟨hf, htodo⟩ := forall_mem_cons.mp htodo
    rw [append_assoc]
    exact ⟨{ htable with }, htodo, forall_mem_append.mpr
      ⟨hdone, forall_mem_singleton.mpr ⟨f, hf, Or.inl ⟨hdue, rfl⟩⟩⟩⟩
  · rintro done e f todo ⟨htable, htodo, hdone⟩ hdue
    have hmid : TableInv e (f :: (done ++ todo)) := htable.perm perm_middle
    have hact : f.gapTimerActive = true := (Bool.and_eq_true_iff.mp hdue).1
    obtain ⟨hf, htodo⟩ := forall_mem_cons.mp htodo
    rw [append_assoc]
    refine ⟨?_, htodo, forall_mem_append.mpr
      ⟨hdone, forall_mem_singleton.mpr ⟨f, hf, Or.inr ⟨hdue, _, e, hmid.done, rfl⟩⟩⟩⟩
    exact (hmid.work (within_onGapTimeout now _) (hmid.done.onGapTimeout hact)).perm
      perm_middle.symm

/-- What the idle sweep leaves is not idle. -/
theorem idleSweep_flows (now : UInt64) (rx : Rx) :
    ∀ f ∈ (idleSweep now rx).flows, f ∈ rx.flows ∧ f.isIdle now rx.cfg.idleUs = false := by
  refine (idleSweep_induct
    (P := fun done e todo => e.cfg = rx.cfg ∧ (∀ f ∈ todo, f ∈ rx.flows) ∧
      ∀ f ∈ done, f ∈ rx.flows ∧ f.isIdle now rx.cfg.idleUs = false)
    ?_ ?_ ⟨rfl, fun _ hf => hf, by simp⟩).2.2
  · rintro done e f todo idle ⟨hcfg, htodo, hdone⟩ hidle - -
    obtain ⟨hf, htodo⟩ := forall_mem_cons.mp htodo
    exact ⟨hcfg, htodo, forall_mem_append.mpr
      ⟨hdone, forall_mem_singleton.mpr ⟨hf, hcfg ▸ hidle⟩⟩⟩
  · rintro done e f todo ⟨hcfg, htodo, hdone⟩ -
    exact ⟨(flowDestroy_frame e f).1.trans hcfg, (forall_mem_cons.mp htodo).2, hdone⟩

/-- A flow that is not idle has made progress within the timeout. -/
theorem le_of_not_idle (hle : f.lastProgressUs ≤ now) {idleUs : UInt64}
    (h : f.isIdle now idleUs = false) : now.toNat ≤ f.lastProgressUs.toNat + idleUs.toNat := by
  have hdiff : (now - f.lastProgressUs).toNat = now.toNat - f.lastProgressUs.toNat :=
    UInt64.toNat_sub_of_le _ _ hle
  rw [Flow.isIdle, Bool.and_eq_false_iff, decide_eq_false_iff_not, decide_eq_false_iff_not,
    UInt64.lt_iff_toNat_lt, UInt64.lt_iff_toNat_lt, hdiff] at h
  omega

/-- The flows after a tick: none is idle, and each had its timeout if it was due. -/
theorem tick_flows (hinv : RxInv rx) (hgap : GapBound rx.toEngine rx.flows)
    (hclk : Clocked now rx.toEngine rx.flows) :
    ∀ f' ∈ (tick rx now).flows, now.toNat ≤ f'.lastProgressUs.toNat + rx.cfg.idleUs.toNat ∧
      ∃ f ∈ rx.flows,
        f.isDue now = false ∧ f' = f ∨
          f.isDue now = true ∧ ∃ rest e, Done rest { rx := e, f := f } ∧
            f' = (onGapTimeout now { rx := e, f := f }).f := by
  intro f' hf'
  -- the tick does what the two full sweeps do
  rw [← (tick_alike hinv hgap hclk (Rx.Alike.refl rx)).flows] at hf'
  obtain ⟨hswept, hidle⟩ := idleSweep_flows now (gapSweep now rx) f' hf'
  rw [(cfg_nextIdle_gapSweep now rx).1] at hidle
  exact ⟨le_of_not_idle (hclk.gapSweep f' hswept).1 hidle, gapSweep_done hinv.table f' hswept⟩

/-! ### Calls -/

/-- The engine is at time `now`, and all its flows are timed. -/
structure RxTimed (T last : ℕ) (now : UInt64) (rx : Rx) : Prop where
  inv : RxInv rx
  gap : GapBound rx.toEngine rx.flows
  clocked : Clocked now rx.toEngine rx.flows
  last_le : last ≤ now.toNat
  flows : ∀ f ∈ rx.flows, Timed T rx.cfg.idleUs.toNat last now.toNat f

theorem rxTimed_rxNew {cfg : Config} {seed : UInt64} {allocOk : Bool}
    (h : rxNew cfg seed allocOk = some rx) (T : ℕ) (now : UInt64) :
    RxTimed T now.toNat now rx :=
  ⟨rxInv_rxNew h, gapBound_run h [], forall_mem_rxNew h, le_rfl, forall_mem_rxNew h⟩

variable {now' : UInt64}

theorem idleUs_step (hwf : rx.WF) (op : Op) : (rx.step op).cfg.idleUs = rx.cfg.idleUs := by
  obtain ⟨force, hcfg⟩ := cfg_step hwf op
  rw [hcfg]
  rfl

/-- **A packet keeps every flow timed.** -/
theorem timed_onPacket (h : RxTimed T last now rx) (hle : now ≤ now') (payload : Packet)
    (alloc : Alloc) : RxTimed T last now' (onPacket rx payload now' alloc) := by
  have ht := UInt64.le_iff_toNat_le.mp hle
  have hclock : ∀ c ∈ (Op.onPacket payload now' alloc).clock, now ≤ c := by
    intro c hc
    obtain rfl := Option.some.inj hc
    exact hle
  refine ⟨h.inv.step (.onPacket payload now' alloc), h.gap.step h.inv.wf (.onPacket ..),
    clocked_step h.inv.wf h.clocked hclock, h.last_le.trans ht, fun f' hf' => ?_⟩
  rw [show (onPacket rx payload now' alloc).cfg.idleUs = rx.cfg.idleUs from
    idleUs_step h.inv.wf (.onPacket payload now' alloc)]
  rcases onPacket_flows h.inv.wf payload now' alloc f' hf' with
    ⟨hold, -⟩ | ⟨key, a, w, harr, hw, rfl⟩
  · exact (h.flows f' hold).mono ht
  · obtain ⟨-, rfl, -⟩ := arrivalOf_spec harr
    obtain ⟨e, f⟩ := w
    rcases hw with ⟨hf, -⟩ | ⟨-, hnew⟩
    · exact (h.flows f hf).onReordered ht (h.last_le.trans ht)
    · obtain rfl : f = newFlow rx.cfg key := hnew
      exact timed_newFlow rx.cfg key (h.last_le.trans ht)

/-- **A tick keeps every flow it leaves timed**, and is the last tick from then on. -/
theorem timed_tick (h : RxTimed T last now rx) (hle : now ≤ now') (hT : now'.toNat ≤ last + T) :
    RxTimed T now'.toNat now' (tick rx now') := by
  have ht := UInt64.le_iff_toNat_le.mp hle
  have hclock : ∀ c ∈ (Op.tick now').clock, now ≤ c := by
    intro c hc
    obtain rfl := Option.some.inj hc
    exact hle
  have hclk := h.clocked.mono hle
  refine ⟨h.inv.step (.tick now'), h.gap.step h.inv.wf (.tick now'),
    clocked_step h.inv.wf h.clocked hclock, le_rfl, fun f' hf' => ?_⟩
  rw [show (tick rx now').cfg.idleUs = rx.cfg.idleUs from idleUs_step h.inv.wf (.tick now')]
  obtain ⟨hlively, f, hf, ⟨hdue, rfl⟩ | ⟨hdue, rest, e, hdone, rfl⟩⟩ :=
    tick_flows h.inv h.gap hclk f' hf'
  · exact (h.flows f' hf).not_due ht hdue hlively
  · have hact : f.gapTimerActive = true := (Bool.and_eq_true_iff.mp hdue).1
    exact (h.flows f hf).onGapTimeout ht hT hact hdone

end Mqvpn.Reorder
