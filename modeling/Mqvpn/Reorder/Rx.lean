import Mqvpn.Lib.Chained
import Mqvpn.Lib.Run
import Mqvpn.Reorder.Flow

/-!
# The receive engine

The table of flows and the public interface of `reorder_rx.c`.  A packet is decoded,
its flow looked up or created, and dispatched; a tick fires the gap timers that have
run out and evicts the flows that have made no progress for the idle timeout.  The
two sweeps of a tick are skipped while a cached lower bound says that nothing can be
due.

A flow of the table is named by its key: keys are unique in every reachable table, so
the key stands for the pointer the source holds.

## Main definitions

* `flowGetOrCreate`, `evictLruFlow` — the table.
* `rxNew`, `onPacket`, `tick`, `getStats` — the interface.
* `Op`, `Rx.step` — the engine as a machine driven by calls; its runs are
  `Run.exec Rx.step`.
-/

namespace Mqvpn.Reorder

/-- The largest clock value, `UINT64_MAX`. -/
def uint64Max : UInt64 := 18446744073709551615

/-- `MQVPN_RX_BUCKETS`. -/
def rxBuckets : ℕ := 1024

structure Rx extends Engine where
  buckets : List (List Flow)
  deriving DecidableEq

/-- The live flows, in the order a walk over the table visits them. -/
def Rx.flows (rx : Rx) : List Flow := Chained.entries rx.buckets

def rxBucketOf (seed : UInt64) (key : FlowKey) : ℕ := (flowKeyHash key seed &&& 1023).toNat

theorem rxBucketOf_lt (seed : UInt64) (key : FlowKey) : rxBucketOf seed key < rxBuckets := by
  rw [rxBucketOf, UInt64.toNat_and, rxBuckets]
  exact Nat.lt_of_le_of_lt Nat.and_le_right (by decide)

/-! ### The flow table -/

def flowLookup (rx : Rx) (key : FlowKey) : Option Flow :=
  Chained.lookup Flow.key (rxBucketOf rx.hashSeed key) key rx.buckets

/-- A flow as it is created: its wait and capacity resolved, everything else zero. -/
def newFlow (cfg : Config) (key : FlowKey) : Flow where
  key := key
  expected := 0
  initialized := false
  buffer := ringInit (cfg.flowCap key)
  gapTimerActive := false
  gapDeadlineUs := 0
  gapArmedUs := 0
  waitMs := cfg.flowWait key
  rxNext := 0
  reord := 0
  lastSeenUs := 0
  lastProgressUs := 0
  passThrough := false
  classifySeen := 0
  classifyLarge := 0
  stats := {}

/-- One step of the victim search: the last flow with the oldest progress wins. -/
def lruStep (acc : Option Flow × UInt64) (f : Flow) : Option Flow × UInt64 :=
  if f.lastProgressUs ≤ acc.2 then (some f, f.lastProgressUs) else acc

/-- The flow that has gone longest without progress. -/
def lruVictim (flows : List Flow) : Option Flow := (flows.foldl lruStep (none, uint64Max)).1

def Rx.evict (rx : Rx) (victim : Flow) : Rx :=
  let rx' := flowDestroy rx.toEngine victim
  { toEngine := { rx' with nFlows := rx'.nFlows - 1 }
    buckets := Chained.erase Flow.key victim.key rx.buckets }

def evictLruFlow (rx : Rx) : Rx :=
  match lruVictim rx.flows with
  | none => rx
  | some victim => rx.evict victim

/-- The table is at its configured size; `0` is no limit. -/
def Rx.full (rx : Rx) : Bool := decide (0 < rx.cfg.maxFlows) && decide (rx.cfg.maxFlows ≤ rx.nFlows)

def Rx.makeRoom (rx : Rx) : Rx := if rx.full then evictLruFlow rx else rx

/-- Put a fresh flow into the table and let the next tick sweep. -/
def Rx.create (rx : Rx) (key : FlowKey) : Rx :=
  { toEngine := { rx.toEngine with nFlows := rx.nFlows + 1, nextIdleUs := 0 }.emit (.created key)
    buckets := Chained.insertHead (rxBucketOf rx.hashSeed key) (newFlow rx.cfg key) rx.buckets }

/-- Find the flow of a key or create it, making room first; `none` if the allocation
of the flow fails. -/
def flowGetOrCreate (alloc : Bool) (rx : Rx) (key : FlowKey) : Option Flow × Rx :=
  match flowLookup rx key with
  | some f => (some f, rx)
  | none =>
      let rx := rx.makeRoom
      if alloc then (some (newFlow rx.cfg key), rx.create key) else (none, rx)

/-! ### The interface -/

/-- An engine as it is created: the configuration finalized, everything else zero. -/
def Rx.initial (cfg : Config) (hashSeed : UInt64) : Rx where
  cfg := cfg.finalize
  hashSeed := hashSeed
  nFlows := 0
  nextGapUs := 0
  nextIdleUs := 0
  poolBytesUsed := 0
  evictedStats := {}
  trace := []
  buckets := List.replicate rxBuckets []

/-- Create an engine; `none` on a configuration that is not accepted or on a failed
allocation. -/
def rxNew (cfg : Config) (hashSeed : UInt64) (allocOk : Bool) : Option Rx :=
  if !cfg.validate || !allocOk then none else some (Rx.initial cfg hashSeed)

/-- `mqvpn_reorder_should_advertise`. -/
def shouldAdvertise (mode : Mode) (rx : Option Rx) : Bool := decide (mode ≠ .off) && rx.isSome

theorem rxNew_of_validate {cfg : Config} (h : cfg.validate = true) (hashSeed : UInt64) :
    rxNew cfg hashSeed true = some (Rx.initial cfg hashSeed) := by
  rw [rxNew, h]
  rfl

theorem eq_of_rxNew {cfg : Config} {hashSeed : UInt64} {allocOk : Bool} {rx : Rx}
    (h : rxNew cfg hashSeed allocOk = some rx) :
    rx = Rx.initial cfg hashSeed ∧ cfg.validate = true := by
  unfold rxNew at h
  split at h
  · cases h
  · next hcond => exact ⟨(Option.some.inj h).symm, by simp_all⟩

/-- Work on one flow of the table and write it back. -/
def Rx.withFlow (rx : Rx) (f : Flow) (g : Work → Work) : Rx :=
  let w := g { rx := rx.toEngine, f := f }
  { toEngine := w.rx, buckets := Chained.assign Flow.key w.f rx.buckets }

/-- A packet handed on without flow state. -/
def Rx.pass (rx : Rx) (inner : Packet) : Rx :=
  { rx with toEngine := rx.toEngine.emit (.passed inner) }

/-- Hand a packet to its flow, creating the flow if need be; if that fails the packet
is gone. -/
def Rx.toFlow (rx : Rx) (key : FlowKey) (a : Arrival) : Rx :=
  match flowGetOrCreate a.alloc.flow rx key with
  | (none, rx) => rx
  | (some f, rx) => rx.withFlow f (onReordered a)

/-- The part of `onPacket` behind the wire checks. -/
def onInner (rx : Rx) (seq : ℕ) (flags : UInt8) (inner : Packet) (now : UInt64) (alloc : Alloc) :
    Rx :=
  if rx.cfg.maxWaitMs = 0 ∧ rx.cfg.rules = [] then rx.pass inner
  else
    match parse5tuple inner with
    | none => rx
    | some key =>
        if rx.cfg.flowWait key = 0 then rx.pass inner
        else
          rx.toFlow key { seq := seq, flags := flags, pkt := inner, now := now, alloc := alloc }

/-- Receive one datagram. -/
def onPacket (rx : Rx) (payload : Packet) (now : UInt64) (alloc : Alloc) : Rx :=
  match wireDecode payload with
  | none => rx
  | some (type, flags, seq) =>
      if type ≠ typeV1 then rx
      else
        let inner := payload.drop hdrLen
        if inner.length = 0 ∨ 65535 < inner.length then rx else onInner rx seq flags inner now alloc

def gapSweepStep (now : UInt64) (rx : Engine) (f : Flow) : Engine × Option Flow :=
  if !f.gapTimerActive then (rx, some f)
  else if f.gapDeadlineUs ≤ now then
    let w := onGapTimeout now { rx := rx, f := f }
    (w.rx, some w.f)
  else
    ({ rx with
        nextGapUs := if f.gapDeadlineUs < rx.nextGapUs then f.gapDeadlineUs else rx.nextGapUs },
      some f)

/-- Fire the timers that have run out, recomputing the bound on the next one. -/
def gapSweep (now : UInt64) (rx : Rx) : Rx :=
  let r :=
    Chained.sweepAll (gapSweepStep now) { rx.toEngine with nextGapUs := uint64Max } rx.buckets
  { toEngine := r.1, buckets := r.2 }

def Config.idleUs (cfg : Config) : UInt64 := cfg.ingressIdleTimeoutSec.toUInt64 * 1000000

/-- No progress for longer than the idle timeout. -/
def Flow.isIdle (f : Flow) (now idleUs : UInt64) : Bool :=
  decide (f.lastProgressUs < now) && decide (idleUs < now - f.lastProgressUs)

def idleSweepStep (now : UInt64) (rx : Engine) (f : Flow) : Engine × Option Flow :=
  if f.isIdle now rx.cfg.idleUs then
    let rx' := flowDestroy rx f
    ({ rx' with nFlows := rx'.nFlows - 1 }, none)
  else
    let idleAt := f.lastProgressUs + rx.cfg.idleUs + 1
    ({ rx with nextIdleUs := if idleAt < rx.nextIdleUs then idleAt else rx.nextIdleUs }, some f)

/-- Evict the idle flows, recomputing the bound on the next one. -/
def idleSweep (now : UInt64) (rx : Rx) : Rx :=
  let r :=
    Chained.sweepAll (idleSweepStep now) { rx.toEngine with nextIdleUs := uint64Max } rx.buckets
  { toEngine := r.1, buckets := r.2 }

/-- Sweep for timeouts unless the bound says that none is due. -/
def Rx.fireDue (rx : Rx) (now : UInt64) : Rx := if rx.nextGapUs ≤ now then gapSweep now rx else rx

/-- Sweep for idle flows unless the bound says that there is none. -/
def Rx.evictIdle (rx : Rx) (now : UInt64) : Rx :=
  if now < rx.nextIdleUs then rx else idleSweep now rx

/-- The periodic driver. -/
def tick (rx : Rx) (now : UInt64) : Rx :=
  if rx.nFlows = 0 then rx else (rx.fireDue now).evictIdle now

/-- The lifetime counters: those of evicted flows plus those of the live ones. -/
def getStats (rx : Rx) : Stats :=
  rx.flows.foldl (fun st f => statsAccumulate st f.stats) rx.evictedStats

/-- The evaluation knob that rules out demotion. -/
def setForceNoDemotion (rx : Rx) (force : Bool) : Rx :=
  { rx with cfg := { rx.cfg with evalForceNoDemotion := force } }

/-! ### The engine as a machine -/

inductive Op where
  | onPacket (payload : Packet) (now : UInt64) (alloc : Alloc)
  | tick (now : UInt64)
  | setForceNoDemotion (force : Bool)
  deriving DecidableEq

/-- The clock a call carries; the knob carries none. -/
def Op.now : Op → UInt64
  | .onPacket _ now _ => now
  | .tick now => now
  | .setForceNoDemotion _ => 0

def Rx.step (rx : Rx) : Op → Rx
  | .onPacket payload now alloc => onPacket rx payload now alloc
  | .tick now => tick rx now
  | .setForceNoDemotion force => setForceNoDemotion rx force

def Rx.run (rx : Rx) (ops : List Op) : Rx := Run.exec Rx.step rx ops

end Mqvpn.Reorder
