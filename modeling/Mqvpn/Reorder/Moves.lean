import Mathlib.Logic.Relation
import Mqvpn.Reorder.Admission

/-!
# What a call can do

A call into the engine is a succession of a few elementary moves on the engine and its
flows: a packet dispatched to one flow, a timeout of one flow, a flow created or
destroyed, a packet passed on, a bound moved.  `step_moves` says so for every call, so
that what holds of the engine is shown move by move and the tables, walks and searches
are looked at only here.

The flows are a list up to order: which bucket a flow sits in matters to none of the
properties, only to the walks.

## Main definitions

* `Config.arrivalOf` — the datagrams that reach a flow, and what they bring.
* `Move` — one elementary move.
* `Rx.WF` — every flow is in the bucket of its key, and keys are unique.

## Main results

* `wf_step` — **every call keeps the table well formed**.
* `step_moves` — **every call is a succession of moves**.
-/

namespace Mqvpn.Reorder

open List

open Relation (ReflTransGen)

/-! ### Which datagrams reach a flow -/

/-- The flow key and the packet a datagram brings, if it gets to the flow table. -/
def Config.arrivalOf (cfg : Config) (payload : Packet) (now : UInt64) (alloc : Alloc) :
    Option (FlowKey × Arrival) :=
  match wireDecode payload with
  | none => none
  | some (type, flags, seq) =>
      let inner := payload.drop hdrLen
      if type ≠ typeV1 ∨ inner.length = 0 ∨ 65535 < inner.length ∨
          cfg.maxWaitMs = 0 ∧ cfg.rules = [] then none
      else
        match parse5tuple inner with
        | none => none
        | some key =>
            if cfg.flowWait key = 0 then none
            else
              some (key, { seq := seq, flags := flags, pkt := inner, now := now, alloc := alloc })

/-- **What a datagram does**: it reaches its flow, is passed on, or vanishes. -/
theorem onPacket_cases (rx : Rx) (payload : Packet) (now : UInt64) (alloc : Alloc) :
    (∃ key a, rx.cfg.arrivalOf payload now alloc = some (key, a) ∧
        onPacket rx payload now alloc = rx.toFlow key a) ∨
      rx.cfg.arrivalOf payload now alloc = none ∧
        (onPacket rx payload now alloc = rx ∨
          ∃ pkt, onPacket rx payload now alloc = rx.pass pkt) := by
  -- the checks in the order of the source
  unfold onPacket Config.arrivalOf onInner
  cases wireDecode payload with
  | none => exact Or.inr ⟨rfl, Or.inl rfl⟩
  | some d =>
    obtain ⟨type, flags, seq⟩ := d
    simp only
    by_cases htype : type ≠ typeV1
    · rw [if_pos htype, if_pos (Or.inl htype)]
      exact Or.inr ⟨rfl, Or.inl rfl⟩
    rw [if_neg htype]
    by_cases hlen : (payload.drop hdrLen).length = 0 ∨ 65535 < (payload.drop hdrLen).length
    · rw [if_pos hlen, if_pos (by tauto)]
      exact Or.inr ⟨rfl, Or.inl rfl⟩
    rw [if_neg hlen]
    by_cases hwait : rx.cfg.maxWaitMs = 0 ∧ rx.cfg.rules = []
    · rw [if_pos hwait, if_pos (by tauto)]
      exact Or.inr ⟨rfl, Or.inr ⟨_, rfl⟩⟩
    rw [if_neg hwait, if_neg (by tauto)]
    cases parse5tuple (payload.drop hdrLen) with
    | none => exact Or.inr ⟨rfl, Or.inl rfl⟩
    | some key =>
      simp only
      split
      · exact Or.inr ⟨rfl, Or.inr ⟨_, rfl⟩⟩
      · exact Or.inl ⟨key, _, rfl, rfl⟩

/-- What is known of a packet that reaches a flow. -/
theorem arrivalOf_spec {cfg : Config} {payload : Packet} {now : UInt64} {alloc : Alloc}
    {key : FlowKey} {a : Arrival} (h : cfg.arrivalOf payload now alloc = some (key, a)) :
    a.seq < 2 ^ 48 ∧ a.now = now ∧ a.alloc = alloc ∧ a.pkt.length ≠ 0 ∧ a.pkt.length ≤ 65535 := by
  unfold Config.arrivalOf at h
  split at h
  · cases h
  · next type flags seq hdec =>
    simp only at h
    split at h
    · cases h
    · next hcond =>
      split at h
      · cases h
      · split at h
        · cases h
        · obtain ⟨-, rfl⟩ := Prod.mk.inj (Option.some.inj h)
          simp only [not_or, Nat.not_lt] at hcond
          exact ⟨wireDecode_lt hdec, rfl, rfl, hcond.2.1, hcond.2.2.1⟩

/-! ### Moves -/

/-- Destroy a flow, as both kinds of eviction do. -/
def Engine.drop (e : Engine) (f : Flow) : Engine :=
  { flowDestroy e f with nFlows := (flowDestroy e f).nFlows - 1 }

/-- One elementary move of the engine `e` and its flows at time `now`; bounds move and
timers run out only in a tick, `T`, and the packets dispatched meet `C`. -/
inductive Move (now : UInt64) (T : Prop) (C : Arrival → Work → Prop) :
    Engine × List Flow → Engine × List Flow → Prop
  /-- The order of the flows is not looked at. -/
  | perm {e : Engine} {fs fs' : List Flow} (h : fs.Perm fs') : Move now T C (e, fs) (e, fs')
  /-- The sweep bounds move. -/
  | bounds {e : Engine} {fs : List Flow} (hT : T) (gap idle : UInt64) :
      Move now T C (e, fs) ({ e with nextGapUs := gap, nextIdleUs := idle }, fs)
  /-- The evaluation knob is turned. -/
  | knob {e : Engine} {fs : List Flow} (force : Bool) :
      Move now T C (e, fs) ({ e with cfg := { e.cfg with evalForceNoDemotion := force } }, fs)
  | pass {e : Engine} {fs : List Flow} (pkt : Packet) :
      Move now T C (e, fs) (e.emit (.passed pkt), fs)
  | create {e : Engine} {fs : List Flow} (key : FlowKey) (hnew : ∀ f ∈ fs, f.key ≠ key) :
      Move now T C (e, fs)
        ({ e with nFlows := e.nFlows + 1, nextIdleUs := 0 }.emit (.created key),
          newFlow e.cfg key :: fs)
  | packet {e : Engine} {f : Flow} {fs : List Flow} (a : Arrival) (hseq : a.seq < 2 ^ 48)
      (hnow : a.now = now) (hC : C a { rx := e, f := f }) :
      Move now T C (e, f :: fs)
        ((onReordered a { rx := e, f := f }).rx, (onReordered a { rx := e, f := f }).f :: fs)
  /-- A gap timer runs out. -/
  | timeout {e : Engine} {f : Flow} {fs : List Flow} (hT : T) (hact : f.gapTimerActive = true)
      (hdue : f.gapDeadlineUs ≤ now) :
      Move now T C (e, f :: fs)
        ((onGapTimeout now { rx := e, f := f }).rx, (onGapTimeout now { rx := e, f := f }).f :: fs)
  | destroy {e : Engine} {f : Flow} {fs : List Flow} : Move now T C (e, f :: fs) (e.drop f, fs)

def Rx.table (rx : Rx) : Engine × List Flow := (rx.toEngine, rx.flows)

variable {now : UInt64} {T : Prop} {C : Arrival → Work → Prop}

/-- **The invariant rule for moves.** -/
theorem moves_inv {P : Engine × List Flow → Prop} (hmove : ∀ x y, P x → Move now T C x y → P y)
    {x y : Engine × List Flow} (h : ReflTransGen (Move now T C) x y) (hx : P x) : P y := by
  induction h with
  | refl => exact hx
  | tail _ hm ih => exact hmove _ _ ih hm

theorem Move.hashSeed {x y : Engine × List Flow} (h : Move now T C x y) :
    y.1.hashSeed = x.1.hashSeed := by
  cases h with
  | perm | bounds | knob | pass | create => rfl
  | packet a => exact (within_onReordered (a := a)).hashSeed
  | timeout => exact (within_onGapTimeout now _).hashSeed
  | destroy => exact (flowDestroy_frame _ _).2.1

theorem moves_hashSeed {x y : Engine × List Flow} (h : ReflTransGen (Move now T C) x y) :
    y.1.hashSeed = x.1.hashSeed :=
  moves_inv (P := fun z => z.1.hashSeed = x.1.hashSeed)
    (fun _ _ hx hm => hm.hashSeed.trans hx) h rfl

/-- Only the knob of the configuration ever moves. -/
theorem Move.cfg {x y : Engine × List Flow} (h : Move now T C x y) :
    ∃ force, y.1.cfg = { x.1.cfg with evalForceNoDemotion := force } := by
  cases h with
  | perm | bounds | pass | create => exact ⟨_, rfl⟩
  | knob force => exact ⟨force, rfl⟩
  | packet a => exact ⟨_, (within_onReordered (a := a)).cfg⟩
  | timeout => exact ⟨_, (within_onGapTimeout now _).cfg⟩
  | destroy => exact ⟨_, (flowDestroy_frame _ _).1⟩

/-! ### The table -/

/-- Every flow is in the bucket of its key, and keys are unique. -/
def Rx.WF (rx : Rx) : Prop := Chained.WF Flow.key (rxBucketOf rx.hashSeed) rx.buckets

variable {rx : Rx}

theorem wf_rxNew {cfg : Config} {seed : UInt64} {allocOk : Bool}
    (h : rxNew cfg seed allocOk = some rx) :
    rx.WF ∧ rx.flows = [] := by
  obtain ⟨rfl, -⟩ := eq_of_rxNew h
  exact ⟨Chained.wf_replicate_nil (rxBucketOf_lt seed), Chained.entries_replicate_nil _⟩

/-- What is said of all flows holds of a new engine: it has none. -/
theorem forall_mem_rxNew {cfg : Config} {seed : UInt64} {allocOk : Bool}
    (h : rxNew cfg seed allocOk = some rx) {P : Flow → Prop} : ∀ f ∈ rx.flows, P f := by
  rw [(wf_rxNew h).2]
  exact forall_mem_nil P

theorem Rx.WF.flowLookup_some (hwf : rx.WF) {key : FlowKey} {f : Flow} :
    flowLookup rx key = some f ↔ f ∈ rx.flows ∧ f.key = key :=
  Chained.lookup_eq_some hwf

theorem Rx.WF.flowLookup_none (hwf : rx.WF) {key : FlowKey} :
    flowLookup rx key = none ↔ ∀ f ∈ rx.flows, f.key ≠ key :=
  Chained.lookup_eq_none hwf

/-- The victim of the search is a flow of the table. -/
theorem lruVictim_mem {flows : List Flow} {f : Flow} (h : lruVictim flows = some f) :
    f ∈ flows := by
  -- over every accumulator: what comes out was put in or met on the way
  have hfold : ∀ (l : List Flow) (acc : Option Flow × UInt64),
      (l.foldl lruStep acc).1 = acc.1 ∨ ∃ g ∈ l, (l.foldl lruStep acc).1 = some g := by
    intro l
    induction l with
    | nil => intro acc; exact Or.inl rfl
    | cons g l ih =>
      intro acc
      rw [foldl_cons]
      rcases ih (lruStep acc g) with heq | ⟨g', hg', heq⟩
      · rw [heq]
        unfold lruStep
        split
        · exact Or.inr ⟨g, mem_cons_self, rfl⟩
        · exact Or.inl rfl
      · exact Or.inr ⟨g', mem_cons_of_mem _ hg', heq⟩
  rcases hfold flows (none, uint64Max) with heq | ⟨g, hg, heq⟩
  · rw [lruVictim, heq] at h
    cases h
  · rw [lruVictim, heq] at h
    exact Option.some.inj h ▸ hg

/-- Unlinking a flow is destroying it. -/
theorem moves_evict (hwf : rx.WF) {f : Flow} (hf : f ∈ rx.flows) :
    ReflTransGen (Move now T C) rx.table (rx.evict f).table ∧ (rx.evict f).WF ∧
      (rx.evict f).toEngine = rx.toEngine.drop f := by
  have hperm := Chained.perm_cons_erase hwf hf
  have hmoves : ReflTransGen (Move now T C) rx.table (rx.evict f).table :=
    (ReflTransGen.single (Move.perm hperm)).tail Move.destroy
  refine ⟨hmoves, ?_, rfl⟩
  have hseed := moves_hashSeed hmoves
  unfold Rx.WF
  rw [show (rx.evict f).hashSeed = rx.hashSeed from hseed]
  exact Chained.wf_erase hwf f.key

theorem moves_makeRoom (hwf : rx.WF) :
    ReflTransGen (Move now T C) rx.table rx.makeRoom.table ∧ rx.makeRoom.WF ∧
      (∀ f ∈ rx.makeRoom.flows, f ∈ rx.flows) := by
  unfold Rx.makeRoom
  split
  · unfold evictLruFlow
    split
    · exact ⟨ReflTransGen.refl, hwf, fun _ hf => hf⟩
    · next victim hv =>
      obtain ⟨hmoves, hwf', -⟩ := @moves_evict now T C _ hwf _ (lruVictim_mem hv)
      exact ⟨hmoves, hwf', fun f hf => (Chained.mem_entries_erase.mp hf).1⟩
  · exact ⟨ReflTransGen.refl, hwf, fun _ hf => hf⟩

theorem moves_create (hwf : rx.WF) {key : FlowKey} (hnew : ∀ f ∈ rx.flows, f.key ≠ key) :
    Move now T C rx.table ((rx.create key).toEngine, newFlow rx.cfg key :: rx.flows) ∧
      (rx.create key).flows.Perm (newFlow rx.cfg key :: rx.flows) ∧ (rx.create key).WF :=
  ⟨Move.create key hnew, Chained.perm_insertHead (hwf.bound key) _,
    Chained.wf_insertHead (v := newFlow rx.cfg key) hwf hnew⟩

/-- Working on a flow of the table is working on the flow and writing it back. -/
theorem moves_withFlow (hwf : rx.WF) {f : Flow} (hf : f ∈ rx.flows) {g : Work → Work}
    (hkey : (g { rx := rx.toEngine, f := f }).f.key = f.key)
    (hmove : ∀ fs, Move now T C (rx.toEngine, f :: fs)
      ((g { rx := rx.toEngine, f := f }).rx, (g { rx := rx.toEngine, f := f }).f :: fs)) :
    ReflTransGen (Move now T C) rx.table (rx.withFlow f g).table ∧ (rx.withFlow f g).WF := by
  have hperm := Chained.perm_cons_erase hwf hf
  have hperm' := Chained.perm_assign hwf hf hkey
  have hmoves : ReflTransGen (Move now T C) rx.table (rx.withFlow f g).table :=
    ((ReflTransGen.single (Move.perm hperm)).tail (hmove _)).tail (Move.perm hperm'.symm)
  refine ⟨hmoves, ?_⟩
  unfold Rx.WF
  rw [show (rx.withFlow f g).hashSeed = rx.hashSeed from moves_hashSeed hmoves]
  exact Chained.wf_assign hwf _

/-! ### Packets -/

/-- The packet and the state its dispatch finds: a flow of the table, or a fresh one. -/
def Rx.Dispatches (rx : Rx) (op : Op) (a : Arrival) (w : Work) : Prop :=
  ∃ payload now alloc key, op = .onPacket payload now alloc ∧
    rx.cfg.arrivalOf payload now alloc = some (key, a) ∧
    (flowLookup rx key = some w.f ∧ w.rx = rx.toEngine ∨
      flowLookup rx key = none ∧ w.f = newFlow rx.cfg key)

theorem cfg_makeRoom (rx : Rx) : rx.makeRoom.cfg = rx.cfg := by
  unfold Rx.makeRoom
  split
  · unfold evictLruFlow
    split
    · rfl
    · exact (flowDestroy_frame _ _).1
  · rfl

/-- **What handing a packet to its flow does**: the flow is found, or room is made for
it, and then it may be created. -/
theorem toFlow_cases (rx : Rx) (key : FlowKey) (a : Arrival) :
    (∃ f, flowLookup rx key = some f ∧ rx.toFlow key a = rx.withFlow f (onReordered a)) ∨
    (flowLookup rx key = none ∧ rx.toFlow key a = rx.makeRoom) ∨
    (flowLookup rx key = none ∧ rx.toFlow key a =
      (rx.makeRoom.create key).withFlow (newFlow rx.cfg key) (onReordered a)) := by
  unfold Rx.toFlow flowGetOrCreate
  cases flowLookup rx key with
  | some f => exact Or.inl ⟨f, rfl, rfl⟩
  | none =>
    cases a.alloc.flow with
    | false => exact Or.inr (Or.inl ⟨rfl, rfl⟩)
    | true =>
      refine Or.inr (Or.inr ⟨rfl, ?_⟩)
      rw [← cfg_makeRoom rx]
      rfl

theorem moves_toFlow (hwf : rx.WF) {key : FlowKey} {a : Arrival} (hseq : a.seq < 2 ^ 48)
    (hC : ∀ w : Work, flowLookup rx key = some w.f ∧ w.rx = rx.toEngine ∨
      flowLookup rx key = none ∧ w.f = newFlow rx.cfg key → C a w) :
    ReflTransGen (Move a.now T C) rx.table (rx.toFlow key a).table ∧ (rx.toFlow key a).WF := by
  rcases toFlow_cases rx key a with ⟨f, hl, heq⟩ | ⟨hl, heq⟩ | ⟨hl, heq⟩ <;> rw [heq]
  · exact moves_withFlow hwf (hwf.flowLookup_some.mp hl).1 (within_onReordered (a := a)).key
      fun fs => Move.packet a hseq rfl (hC _ (Or.inl ⟨hl, rfl⟩))
  · obtain ⟨hroom, hwf', -⟩ := @moves_makeRoom a.now T C _ hwf
    exact ⟨hroom, hwf'⟩
  · obtain ⟨hroom, hwf', hsub⟩ := @moves_makeRoom a.now T C _ hwf
    have hnew : ∀ f ∈ rx.makeRoom.flows, f.key ≠ key :=
      fun f hf => hwf.flowLookup_none.mp hl f (hsub f hf)
    obtain ⟨hcreate, hperm, hwf''⟩ := @moves_create a.now T C _ hwf' _ hnew
    rw [cfg_makeRoom] at hcreate hperm
    obtain ⟨hwork, hwfw⟩ := moves_withFlow hwf'' (hperm.symm.subset mem_cons_self)
      (g := onReordered a) (within_onReordered (a := a)).key fun fs =>
        Move.packet a hseq rfl (hC _ (Or.inr ⟨hl, rfl⟩))
    exact ⟨((hroom.tail hcreate).tail (Move.perm hperm.symm)).trans hwork, hwfw⟩

/-! ### Ticks -/

theorem moves_gapSweepStep (e : Engine) (f : Flow) (fs : List Flow) :
    ReflTransGen (Move now True C) (e, f :: fs)
      ((gapSweepStep now e f).1, (gapSweepStep now e f).2.toList ++ fs) := by
  unfold gapSweepStep
  split
  · exact ReflTransGen.refl
  · next hact =>
    split
    · next hdue =>
      exact ReflTransGen.single (Move.timeout trivial (by simpa using hact) hdue)
    · exact ReflTransGen.single (Move.bounds (e := e) trivial _ e.nextIdleUs)

theorem moves_idleSweepStep (e : Engine) (f : Flow) (fs : List Flow) :
    ReflTransGen (Move now True C) (e, f :: fs)
      ((idleSweepStep now e f).1, (idleSweepStep now e f).2.toList ++ fs) := by
  unfold idleSweepStep
  split
  · exact ReflTransGen.single Move.destroy
  · exact ReflTransGen.single (Move.bounds (e := e) trivial e.nextGapUs _)

/-- A walk over the table, its answers keeping the keys. -/
theorem moves_sweepAll (hwf : rx.WF) {f : Engine → Flow → Engine × Option Flow} {e : Engine}
    (hseed : e.hashSeed = rx.hashSeed)
    (hstep : ∀ e v fs, ReflTransGen (Move now T C) (e, v :: fs)
      ((f e v).1, (f e v).2.toList ++ fs))
    (hkey : ∀ e v v', (f e v).2 = some v' → v'.key = v.key) :
    ReflTransGen (Move now T C) (e, rx.flows)
      (Rx.table { toEngine := (Chained.sweepAll f e rx.buckets).1
                  buckets := (Chained.sweepAll f e rx.buckets).2 }) ∧
      Rx.WF { toEngine := (Chained.sweepAll f e rx.buckets).1
              buckets := (Chained.sweepAll f e rx.buckets).2 } := by
  -- the flows done and the flows to come make up the table throughout
  have hmoves : ReflTransGen (Move now T C) (e, rx.flows)
      ((Chained.sweepAll f e rx.buckets).1,
        Chained.entries (Chained.sweepAll f e rx.buckets).2 ++ []) := by
    refine Chained.sweepAll_induct
      (P := fun done e' todo => ReflTransGen (Move now T C) (e, rx.flows) (e', done ++ todo))
      (fun done e' v todo h => ?_) ReflTransGen.refl
    have hback : ((f e' v).2.toList ++ (done ++ todo)).Perm
        (done ++ (f e' v).2.toList ++ todo) := by
      rw [← append_assoc]
      exact perm_append_comm.append_right todo
    exact ((h.tail (Move.perm perm_middle)).trans (hstep e' v _)).tail (Move.perm hback)
  rw [append_nil] at hmoves
  refine ⟨hmoves, ?_⟩
  have hseed' := moves_hashSeed hmoves
  unfold Rx.WF
  rw [show (Chained.sweepAll f e rx.buckets).1.hashSeed = rx.hashSeed from hseed'.trans hseed]
  exact Chained.wf_sweepAll hwf hkey e

theorem moves_gapSweep (hwf : rx.WF) :
    ReflTransGen (Move now True C) rx.table (gapSweep now rx).table ∧ (gapSweep now rx).WF := by
  obtain ⟨hmoves, hwf'⟩ := @moves_sweepAll now True C _ hwf
    (gapSweepStep now) { rx.toEngine with nextGapUs := uint64Max } rfl
    (moves_gapSweepStep · · ·) (by
      intro e v v' h
      unfold gapSweepStep at h
      split at h
      · exact (Option.some.inj h) ▸ rfl
      · split at h
        · exact (Option.some.inj h) ▸ (within_onGapTimeout now _).key
        · exact (Option.some.inj h) ▸ rfl)
  exact ⟨ReflTransGen.head (Move.bounds (e := rx.toEngine) trivial uint64Max rx.nextIdleUs)
    hmoves, hwf'⟩

theorem moves_idleSweep (hwf : rx.WF) :
    ReflTransGen (Move now True C) rx.table (idleSweep now rx).table ∧ (idleSweep now rx).WF := by
  obtain ⟨hmoves, hwf'⟩ := @moves_sweepAll now True C _ hwf
    (idleSweepStep now) { rx.toEngine with nextIdleUs := uint64Max } rfl
    (moves_idleSweepStep · · ·) (by
      intro e v v' h
      unfold idleSweepStep at h
      split at h
      · cases h
      · exact (Option.some.inj h) ▸ rfl)
  exact ⟨ReflTransGen.head (Move.bounds (e := rx.toEngine) trivial rx.nextGapUs uint64Max)
    hmoves, hwf'⟩

/-- **The rule of a tick**: it is made of the two sweeps, either of which may be skipped. -/
theorem tick_induct {P : Rx → Prop} (h : P rx) (hgap : P (gapSweep now rx))
    (hidle : ∀ r, P r → P (idleSweep now r)) : P (tick rx now) := by
  have hfire : P (rx.fireDue now) := by
    unfold Rx.fireDue
    split
    · exact hgap
    · exact h
  unfold tick Rx.evictIdle
  split
  · exact h
  · split
    · exact hfire
    · exact hidle _ hfire

theorem moves_tick (hwf : rx.WF) :
    ReflTransGen (Move now True C) rx.table (tick rx now).table ∧ (tick rx now).WF :=
  tick_induct (P := fun r => ReflTransGen (Move now True C) rx.table r.table ∧ r.WF)
    ⟨ReflTransGen.refl, hwf⟩ (moves_gapSweep hwf) fun _ hr =>
      ⟨hr.1.trans (moves_idleSweep hr.2).1, (@moves_idleSweep now C _ hr.2).2⟩

/-! ### Calls -/

def Op.isTick : Op → Prop
  | .tick _ => True
  | _ => False

theorem step_moves_wf (hwf : rx.WF) (op : Op) :
    ReflTransGen (Move op.now op.isTick (rx.Dispatches op)) rx.table (rx.step op).table ∧
      (rx.step op).WF := by
  cases op with
  | onPacket payload now alloc =>
    show ReflTransGen _ rx.table (onPacket rx payload now alloc).table ∧ (onPacket ..).WF
    rcases onPacket_cases rx payload now alloc with ⟨key, a, harr, heq⟩ | ⟨-, heq | ⟨pkt, heq⟩⟩
    · have hspec := arrivalOf_spec harr
      rw [heq]
      have hnow : Op.now (.onPacket payload now alloc) = a.now := hspec.2.1.symm
      rw [hnow]
      exact moves_toFlow hwf hspec.1 fun w hw => ⟨payload, now, alloc, key, rfl, harr, hw⟩
    · rw [heq]
      exact ⟨ReflTransGen.refl, hwf⟩
    · rw [heq]
      exact ⟨ReflTransGen.single (Move.pass pkt), hwf⟩
  | tick now => exact moves_tick hwf
  | setForceNoDemotion force => exact ⟨ReflTransGen.single (Move.knob force), hwf⟩

/-- **Every call keeps the table well formed.** -/
theorem wf_step (hwf : rx.WF) (op : Op) : (rx.step op).WF := (step_moves_wf hwf op).2

/-- **Every call is a succession of moves.** -/
theorem step_moves (hwf : rx.WF) (op : Op) :
    ReflTransGen (Move op.now op.isTick (rx.Dispatches op)) rx.table (rx.step op).table :=
  (step_moves_wf hwf op).1

/-- Only the knob of the configuration can move in a call. -/
theorem cfg_step (hwf : rx.WF) (op : Op) :
    ∃ force, (rx.step op).cfg = { rx.cfg with evalForceNoDemotion := force } := by
  refine moves_inv (P := fun x => ∃ force, x.1.cfg = { rx.cfg with evalForceNoDemotion := force })
    (fun x y hx hm => ?_) (step_moves hwf op) ⟨_, rfl⟩
  obtain ⟨b, hb⟩ := hx
  obtain ⟨b', hb'⟩ := hm.cfg
  exact ⟨b', by rw [hb', hb]⟩

end Mqvpn.Reorder
