import Mqvpn.Lib.Chained
import Mqvpn.Lib.Loop
import Mqvpn.Lib.Run
import Mqvpn.Reorder.Config

/-!
# The sending side

The sender keeps a table of send flows and stamps each eligible packet with the next
sequence number of its flow.  Stamping is in two phases: a peek finds or creates the
flow and builds the header without advancing anything, and a commit advances the flow
once the datagram went out.  A full table makes room only by evicting a flow that has
been inactive for the idle timeout; if there is none, the packet goes out unstamped.

The pointer to the flow that a peek hands to its commit is the key of the flow: the
commit directly follows its peek, and keys are unique.  `Tx.trace` records what an
observer sees; nothing reads it back.

## Main definitions

* `evictOneIdle`, `getOrCreate` — the table.
* `txNew`, `txPeek`, `txCommit` — the interface.
* `TxCall`, `Tx.step` — the sender as a machine: each call is a peek, and a commit if
  the datagram went out.
-/

namespace Mqvpn.Reorder

/-- One send flow, `mqvpn_send_flow_t`. -/
structure SendFlow where
  key : FlowKey
  nextSeq : ℕ
  lastActivityUs : UInt64
  resetMarksLeft : ℕ
  eligible : Bool
  deriving DecidableEq

/-- `mqvpn_reorder_tx_stats_t`. -/
structure TxStats where
  forcedEvictCount : ℕ := 0
  flowsCreated : ℕ := 0
  idleEvictCount : ℕ := 0
  tableFullRaw : ℕ := 0
  deriving DecidableEq

/-- What an observer of the sender sees. -/
inductive TxEvent where
  /-- A send flow came into being. -/
  | created (k : FlowKey) (now : UInt64)
  /-- A datagram with this header went out. -/
  | committed (k : FlowKey) (hdr : Packet) (now : UInt64)
  /-- A send flow was evicted. -/
  | evicted (k : FlowKey) (now : UInt64)
  deriving DecidableEq

/-- The sender `mqvpn_reorder_tx`. -/
structure Tx where
  cfg : Config
  hashSeed : UInt64
  buckets : List (List SendFlow)
  nBuckets : ℕ
  nFlows : ℕ
  stats : TxStats
  trace : List TxEvent
  deriving DecidableEq

/-- The send flows, in the order of a walk over the table. -/
def Tx.flows (tx : Tx) : List SendFlow := Chained.entries tx.buckets

/-- `mqvpn_reorder_tx_action_t`. -/
inductive TxAction where
  | stamp
  | raw
  | dropMtu
  deriving DecidableEq

/-- `mqvpn_reorder_tx_peek_t`; the flow is named by its key. -/
structure Peek where
  action : TxAction
  hdr : Packet
  flow : Option FlowKey
  deriving DecidableEq

/-! ### Creation -/

/-- One round of the doubling loop. -/
def pickStep (maxFlows n : ℕ) : Option ℕ :=
  if n < maxFlows ∧ n < 1 <<< 20 then some (n <<< 1) else none

/-- The number of buckets: doubled from 16 until it covers the flows or reaches 2^20. -/
def pickBuckets (maxFlows : ℕ) : ℕ := Loop.run (pickStep maxFlows) 16 16

/-- A sender before its first packet, with `n` buckets. -/
def Tx.initial (cfg : Config) (hashSeed : UInt64) (n : ℕ) : Tx where
  cfg := cfg
  hashSeed := hashSeed
  buckets := List.replicate n []
  nBuckets := n
  nFlows := 0
  stats := {}
  trace := []

/-- Create a sender; `none` if an allocation fails. -/
def txNew (cfg : Config) (hashSeed : UInt64) (allocOk : Bool) : Option Tx :=
  if !allocOk then none
  else some (Tx.initial cfg hashSeed (pickBuckets (if cfg.maxFlows ≠ 0 then cfg.maxFlows else 16)))

/-! ### The table -/

/-- A flow is eligible if the first rule that applies has a preset, or if there are no
rules at all and the shim is on. -/
def computeEligible (cfg : Config) (key : FlowKey) : Bool :=
  match matchRule cfg key with
  | none => decide (cfg.rules = [] ∧ cfg.mode ≠ .off)
  | some r => (profilePreset r.profile).isSome

def txBucketOf (nBuckets : ℕ) (hashSeed : UInt64) (key : FlowKey) : ℕ :=
  (flowKeyHash key hashSeed).toNat &&& (nBuckets - 1)

def tableLookup (tx : Tx) (key : FlowKey) : Option SendFlow :=
  Chained.lookup SendFlow.key (txBucketOf tx.nBuckets tx.hashSeed key) key tx.buckets

/-- The idle timeout of the sender in microseconds. -/
def Config.egressIdleUs (cfg : Config) : UInt64 := cfg.egressIdleTimeoutSec.toUInt64 * 1000000

/-- No activity for longer than the idle timeout. -/
def SendFlow.isIdle (f : SendFlow) (now idleUs : UInt64) : Bool :=
  decide (f.lastActivityUs < now) && decide (idleUs < now - f.lastActivityUs)

/-- One step of the victim search: the first among the longest inactive wins. -/
def oldestStep (now idleUs : UInt64) (acc : Option SendFlow) (f : SendFlow) : Option SendFlow :=
  if f.isIdle now idleUs then
    match acc with
    | none => some f
    | some oldest => if f.lastActivityUs < oldest.lastActivityUs then some f else some oldest
  else acc

/-- The idle flow that has been inactive longest. -/
def oldestIdle (now idleUs : UInt64) (flows : List SendFlow) : Option SendFlow :=
  flows.foldl (oldestStep now idleUs) none

def Tx.evict (tx : Tx) (f : SendFlow) (now : UInt64) : Tx :=
  { tx with
    buckets := Chained.erase SendFlow.key f.key tx.buckets
    nFlows := tx.nFlows - 1
    stats := { tx.stats with idleEvictCount := tx.stats.idleEvictCount + 1 }
    trace := tx.trace ++ [.evicted f.key now] }

/-- Evict one idle flow; `none` if there is none. -/
def evictOneIdle (tx : Tx) (now : UInt64) : Option Tx :=
  (oldestIdle now tx.cfg.egressIdleUs tx.flows).map fun f => tx.evict f now

def newSendFlow (cfg : Config) (key : FlowKey) (now : UInt64) : SendFlow where
  key := key
  nextSeq := 0
  lastActivityUs := now
  resetMarksLeft := cfg.resetMarkPackets
  eligible := computeEligible cfg key

/-- Put a fresh flow into the table. -/
def Tx.create (tx : Tx) (key : FlowKey) (now : UInt64) : Tx :=
  { tx with
    buckets := Chained.insertHead (txBucketOf tx.nBuckets tx.hashSeed key)
      (newSendFlow tx.cfg key now) tx.buckets
    nFlows := tx.nFlows + 1
    stats := { tx.stats with flowsCreated := tx.stats.flowsCreated + 1 }
    trace := tx.trace ++ [.created key now] }

/-- The table is at its configured size; `0` is no limit. -/
def Tx.full (tx : Tx) : Bool := decide (tx.cfg.maxFlows ≠ 0) && decide (tx.cfg.maxFlows ≤ tx.nFlows)

/-- A full table makes room by evicting an idle flow; `none` if all are active. -/
def Tx.makeRoom (tx : Tx) (now : UInt64) : Option Tx :=
  if tx.full then evictOneIdle tx now else some tx

/-- Find the flow of a key or create it; `none` if the table is full of active flows or
the allocation fails. -/
def getOrCreate (alloc : Bool) (tx : Tx) (key : FlowKey) (now : UInt64) : Option SendFlow × Tx :=
  match tableLookup tx key with
  | some f => (some f, tx)
  | none =>
      match tx.makeRoom now with
      | none =>
          (none, { tx with stats := { tx.stats with tableFullRaw := tx.stats.tableFullRaw + 1 } })
      | some tx =>
          if alloc then (some (newSendFlow tx.cfg key now), tx.create key now) else (none, tx)

/-! ### Peek and commit -/

/-- A peek that leaves the packet as it is. -/
def Peek.raw : Peek := { action := .raw, hdr := List.replicate hdrLen 0, flow := none }

/-- What is done with a packet of the flow `f`: the header is built from the flow as it
is, and nothing advances. -/
def peekFlow (f : SendFlow) (len maxInner : ℕ) : Peek :=
  if maxInner < hdrLen + len then
    { action := .dropMtu, hdr := List.replicate hdrLen 0, flow := some f.key }
  else
    let flags := if 0 < f.resetMarksLeft then flagReset else 0
    { action := .stamp, hdr := wireEncode typeV1 flags f.nextSeq, flow := some f.key }

/-- Look at a packet: what is to be sent for it, and for which flow. -/
def txPeek (tx : Tx) (pkt : Packet) (now : UInt64) (maxInner : ℕ) (alloc : Bool) : Peek × Tx :=
  if tx.cfg.mode = .off then (Peek.raw, tx)
  else
    match parse5tuple pkt with
    | none => (Peek.raw, tx)
    | some key =>
        match getOrCreate alloc tx key now with
        | (none, tx) => (Peek.raw, tx)
        | (some f, tx) =>
            if !f.eligible then (Peek.raw, tx) else (peekFlow f pkt.length maxInner, tx)

/-- Advance a flow after its datagram went out. -/
def Tx.advance (tx : Tx) (f : SendFlow) (hdr : Packet) (now : UInt64) : Tx :=
  { tx with
    buckets := Chained.assign SendFlow.key
      { f with
        nextSeq := f.nextSeq + 1
        resetMarksLeft := if 0 < f.resetMarksLeft then f.resetMarksLeft - 1 else f.resetMarksLeft
        lastActivityUs := now } tx.buckets
    trace := tx.trace ++ [.committed f.key hdr now] }

/-- The datagram of a stamp went out; anything else is ignored. -/
def txCommit (tx : Tx) (peek : Peek) (now : UInt64) : Tx :=
  match peek.action, peek.flow with
  | .stamp, some key =>
      match tableLookup tx key with
      | none => tx
      | some f => tx.advance f peek.hdr now
  | _, _ => tx

/-! ### The sender as a machine -/

/-- One packet: a peek, and a commit at the time `sent` if the datagram went out. -/
structure TxCall where
  pkt : Packet
  now : UInt64
  maxInner : ℕ
  alloc : Bool
  sent : Option UInt64
  deriving DecidableEq

def Tx.step (tx : Tx) (c : TxCall) : Tx :=
  let r := txPeek tx c.pkt c.now c.maxInner c.alloc
  match c.sent with
  | none => r.2
  | some now => txCommit r.2 r.1 now

def Tx.run (tx : Tx) (calls : List TxCall) : Tx := Run.exec Tx.step tx calls

def TxCall.clocks (c : TxCall) : List UInt64 := c.now :: c.sent.toList

end Mqvpn.Reorder
