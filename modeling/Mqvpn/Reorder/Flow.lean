import Mqvpn.Reorder.Ring

/-!
# One receive flow

The per-flow half of the receive engine: what happens to a flow when a packet is
dispatched to it or its gap timer runs out.  The functions of the source take the
engine and the flow, `(rx, f)`, and change both; here the pair is one value, `Work`,
and each function maps it to its successor.

The packets handed to the deliver callback are recorded in `Engine.trace`, together
with the moments that delimit them (a flow comes into being, is reset, is demoted, is
destroyed) and the detours a packet may cause.  Nothing reads the trace back: it is
what an observer of the engine sees.

Counters are numbers without a bound; clock values are 64-bit and wrap.

## Main definitions

* `Stats`, `Flow`, `Engine`, `Work`, `Event` — the data.
* `drainContiguous`, `onGapTimeout`, `overflowFlush`, `flushBufferForDemote`,
  `discardBufferForReset` — the ways packets leave the ring.
* `bufferAdmit`, `processReorderPacket`, `onReordered` — what one packet does.
-/

namespace Mqvpn.Reorder

/-! ### Statistics -/

/-- The receive counters `mqvpn_reorder_stats_t`. -/
structure Stats where
  deliveredCount : ℕ := 0
  tooLateDropCount : ℕ := 0
  tooFarAheadDropCount : ℕ := 0
  duplicateDropCount : ℕ := 0
  perFlowLimitDropCount : ℕ := 0
  poolDropCount : ℕ := 0
  resetDiscardCount : ℕ := 0
  gapCount : ℕ := 0
  gapFilledCount : ℕ := 0
  gapTimeoutCount : ℕ := 0
  gapOverflowCount : ℕ := 0
  gapDemoteCount : ℕ := 0
  gapResetCount : ℕ := 0
  ackDemoteCount : ℕ := 0
  residenceBucket : List ℕ := List.replicate 12 0
  residenceMaxUs : UInt64 := 0
  deriving DecidableEq

/-- `mqvpn_reorder_stats_accumulate`. -/
def statsAccumulate (dst src : Stats) : Stats where
  deliveredCount := dst.deliveredCount + src.deliveredCount
  tooLateDropCount := dst.tooLateDropCount + src.tooLateDropCount
  tooFarAheadDropCount := dst.tooFarAheadDropCount + src.tooFarAheadDropCount
  duplicateDropCount := dst.duplicateDropCount + src.duplicateDropCount
  perFlowLimitDropCount := dst.perFlowLimitDropCount + src.perFlowLimitDropCount
  poolDropCount := dst.poolDropCount + src.poolDropCount
  resetDiscardCount := dst.resetDiscardCount + src.resetDiscardCount
  gapCount := dst.gapCount + src.gapCount
  gapFilledCount := dst.gapFilledCount + src.gapFilledCount
  gapTimeoutCount := dst.gapTimeoutCount + src.gapTimeoutCount
  gapOverflowCount := dst.gapOverflowCount + src.gapOverflowCount
  gapDemoteCount := dst.gapDemoteCount + src.gapDemoteCount
  gapResetCount := dst.gapResetCount + src.gapResetCount
  ackDemoteCount := dst.ackDemoteCount + src.ackDemoteCount
  residenceBucket := List.zipWith (· + ·) dst.residenceBucket src.residenceBucket
  residenceMaxUs :=
    if dst.residenceMaxUs < src.residenceMaxUs then src.residenceMaxUs else dst.residenceMaxUs

/-- `reorder_lat_bound_us`: the upper bounds of the residence buckets. -/
def reorderLatBoundUs : List UInt64 :=
  [0, 1000, 2000, 4000, 8000, 16000, 32000, 64000, 128000, 256000, 512000, 18446744073709551615]

/-- One round of the bucket search. -/
def latStep (residenceUs : UInt64) (i : ℕ) : Option ℕ :=
  if i < 11 ∧ reorderLatBoundUs.getD i 0 < residenceUs then some (i + 1) else none

def latBucket (residenceUs : UInt64) : ℕ := Loop.run (latStep residenceUs) 11 0

/-- Record one delivered packet's residence; a clock that stepped back counts as 0. -/
def recordResidence (st : Stats) (now enq : UInt64) : Stats :=
  let residence := if enq < now then now - enq else 0
  { st with
    residenceBucket := st.residenceBucket.modify (latBucket residence) (· + 1)
    residenceMaxUs := if st.residenceMaxUs < residence then residence else st.residenceMaxUs }

/-- The counters a wait period may end on. -/
inductive GapEnd where
  | filled
  | timeout
  | overflow
  | demote
  | reset
  deriving DecidableEq

/-- Charge the end of a period. -/
def Stats.endGap (st : Stats) : GapEnd → Stats
  | .filled => { st with gapFilledCount := st.gapFilledCount + 1 }
  | .timeout => { st with gapTimeoutCount := st.gapTimeoutCount + 1 }
  | .overflow => { st with gapOverflowCount := st.gapOverflowCount + 1 }
  | .demote => { st with gapDemoteCount := st.gapDemoteCount + 1 }
  | .reset => { st with gapResetCount := st.gapResetCount + 1 }

/-! ### The flow and the engine -/

/-- One receive flow, `mqvpn_reorder_flow_t`. -/
structure Flow where
  key : FlowKey
  expected : ℕ
  initialized : Bool
  buffer : Ring
  gapTimerActive : Bool
  gapDeadlineUs : UInt64
  gapArmedUs : UInt64
  waitMs : UInt32
  rxNext : ℕ
  reord : ℕ
  lastSeenUs : UInt64
  lastProgressUs : UInt64
  passThrough : Bool
  classifySeen : ℕ
  classifyLarge : ℕ
  stats : Stats
  deriving DecidableEq

/-- What an observer of the engine sees. -/
inductive Event where
  /-- A flow came into being. -/
  | created (k : FlowKey)
  | dispatched (k : FlowKey) (seq : ℕ) (pkt : Packet)
  /-- A packet of a flow was handed to the deliver callback. -/
  | delivered (k : FlowKey) (seq : ℕ) (pkt : Packet)
  /-- A packet was handed to the deliver callback without looking for a flow. -/
  | passed (pkt : Packet)
  /-- A reset was honoured. -/
  | reset (k : FlowKey)
  /-- A head gap was skipped to make room. -/
  | flushed (k : FlowKey)
  /-- A gap timer ran out. -/
  | timedOut (k : FlowKey)
  /-- A packet was dropped on the flow's limits, the pool or an allocation. -/
  | limited (k : FlowKey)
  /-- A flow stopped reordering. -/
  | demoted (k : FlowKey)
  /-- A flow was destroyed, its timer running or not. -/
  | destroyed (k : FlowKey) (armed : Bool)
  /-- The pool counter would have gone below zero. -/
  | clamped
  deriving DecidableEq

/-- The engine `mqvpn_reorder_rx`, without its table of flows. -/
structure Engine where
  cfg : Config
  hashSeed : UInt64
  nFlows : ℕ
  nextGapUs : UInt64
  nextIdleUs : UInt64
  poolBytesUsed : ℕ
  evictedStats : Stats
  trace : List Event
  deriving DecidableEq

structure Work where
  rx : Engine
  f : Flow
  deriving DecidableEq

/-- Which of the allocations made for a packet succeed: the flow, the heap copy of
the packet, the slot array. -/
structure Alloc where
  flow : Bool
  copy : Bool
  slots : Bool
  deriving DecidableEq

/-- A packet on its way through the engine. -/
structure Arrival where
  seq : ℕ
  flags : UInt8
  pkt : Packet
  now : UInt64
  alloc : Alloc
  deriving DecidableEq

/-- The outcomes of `process_reorder_packet`. -/
inductive ProcessResult where
  | delivered
  | buffered
  | droppedLate
  | droppedFarAhead
  | droppedLimit
  deriving DecidableEq

def Engine.emit (rx : Engine) (e : Event) : Engine := { rx with trace := rx.trace ++ [e] }

def Work.emit (w : Work) (e : Event) : Work := { w with rx := w.rx.emit e }

/-- Change the counters of the flow. -/
def Work.tally (w : Work) (g : Stats → Stats) : Work :=
  { w with f := { w.f with stats := g w.f.stats } }

/-- Move the delivery frontier of the flow. -/
def Work.setExpected (w : Work) (n : ℕ) : Work := { w with f := { w.f with expected := n } }

/-- Record progress of the flow. -/
def Work.touch (w : Work) (now : UInt64) : Work :=
  { w with f := { w.f with lastProgressUs := now } }

/-- Replace the ring of the flow. -/
def Work.setBuffer (w : Work) (r : Ring) : Work := { w with f := { w.f with buffer := r } }

/-! ### Timer helpers -/

def armGapTimer (now : UInt64) (waitMs : UInt32) (w : Work) : Work :=
  let deadline := now + waitMs.toUInt64 * 1000
  { rx := { w.rx with
      nextGapUs := if deadline < w.rx.nextGapUs then deadline else w.rx.nextGapUs }
    f := { w.f with gapTimerActive := true, gapArmedUs := now, gapDeadlineUs := deadline } }

def stopGapTimer (w : Work) : Work := { w with f := { w.f with gapTimerActive := false } }

/-- End the armed period if its cohort is done, on the caller's counter. -/
def periodEndIfDone (c : GapEnd) (w : Work) : Work :=
  if w.f.gapTimerActive && (ringEmpty w.f.buffer || decide (w.f.reord ≤ w.f.expected)) then
    stopGapTimer (w.tally (·.endGap c))
  else w

/-- Start a period if packets wait without one. -/
def periodStartIfNeeded (now : UInt64) (w : Work) : Work :=
  if !w.f.gapTimerActive && !ringEmpty w.f.buffer then
    (armGapTimer now w.f.waitMs { w with f := { w.f with reord := w.f.rxNext } }).tally
      fun st => { st with gapCount := st.gapCount + 1 }
  else w

/-- Charge the end of a running period, before the buffer goes. -/
def chargeIfActive (c : GapEnd) (w : Work) : Work :=
  if w.f.gapTimerActive then w.tally (·.endGap c) else w

/-! ### Delivery -/

def deliverPkt (seq : ℕ) (pkt : Packet) (now enq : UInt64) (w : Work) : Work :=
  (w.emit (.delivered w.f.key seq pkt)).tally fun st =>
    recordResidence { st with deliveredCount := st.deliveredCount + 1 } now enq

/-- Uncharge the pool for a packet leaving a ring. -/
def poolRelease (len : ℕ) (rx : Engine) : Engine :=
  if len ≤ rx.poolBytesUsed then { rx with poolBytesUsed := rx.poolBytesUsed - len }
  else { rx with poolBytesUsed := 0 }.emit .clamped

def Work.release (w : Work) (len : ℕ) : Work := { w with rx := poolRelease len w.rx }

/-- Deliver the packet at `expected`, if it is held. -/
def drainStep (now : UInt64) (w : Work) : Option Work :=
  match ringRemove w.f.buffer w.f.expected with
  | none => none
  | some (x, buffer) =>
      let w := (deliverPkt w.f.expected x.pkt now x.enqueueUs (w.setBuffer buffer)).release x.len
      some (w.setExpected (w.f.expected + 1))

/-- Deliver every contiguously held packet from `expected` on. -/
def drainContiguous (now : UInt64) (w : Work) : Work :=
  Loop.run (drainStep now) w.f.buffer.size w

/-! ### Skipping gaps -/

def skipToLowestAndDrain (now : UInt64) (w : Work) : Work :=
  let lowest := ringLowestSeq w.f.buffer w.f.expected
  let w := if w.f.expected < lowest then w.setExpected lowest else w
  (drainContiguous now w).touch now

/-- One round of the timeout: skip to the lowest packet held and drain. -/
def timeoutStep (now : UInt64) (w : Work) : Option Work :=
  if !ringEmpty w.f.buffer && decide (w.f.expected < w.f.reord) then
    some (drainContiguous now (w.setExpected (ringLowestSeq w.f.buffer w.f.expected)))
  else none

/-- The gap timer ran out: deliver everything below the mark, skipping what is
missing, and start over if anything is left. -/
def onGapTimeout (now : UInt64) (w : Work) : Work :=
  if ringEmpty w.f.buffer then stopGapTimer w
  else
    let w := (w.emit (.timedOut w.f.key)).tally (·.endGap .timeout)
    let w := Loop.run (timeoutStep now) w.f.buffer.size w
    periodStartIfNeeded now (stopGapTimer (w.touch now))

/-- Skip the head gap to free buffer space. -/
def overflowFlush (now : UInt64) (w : Work) : Work :=
  let w := w.emit (.flushed w.f.key)
  periodStartIfNeeded now (periodEndIfDone .overflow (skipToLowestAndDrain now w))

/-! ### Reset -/

/-- Drop one packet of the old epoch. -/
def discardSlot (w : Work) (s : Slot) : Work :=
  if s.pkt.isSome then
    (w.release s.len).tally fun st => { st with resetDiscardCount := st.resetDiscardCount + 1 }
  else w

def discardBufferForReset (w : Work) : Work :=
  let w := w.f.buffer.slots.foldl discardSlot (chargeIfActive .reset w)
  let w := stopGapTimer w
  { w with f := { w.f with rxNext := 0, reord := 0, buffer := ringFree w.f.buffer } }

def resetReorderFlow (w : Work) : Work :=
  let w := discardBufferForReset w
  { w with f := { w.f with passThrough := false, classifySeen := 0, classifyLarge := 0 } }

/-! ### The demotion classifier -/

/-- The UDP payload length of a parsed inner packet. -/
def innerUdpPayloadLen (pkt : Packet) : ℕ :=
  let version := byteAt pkt 0 >>> 4
  if pkt.length < 1 then 0
  else if version = 4 then
    if pkt.length < 20 then 0
    else
      let l4 := (byteAt pkt 0 &&& 0x0f) * 4 + 8
      if pkt.length ≤ l4 then 0 else pkt.length - l4
  else if version = 6 then
    if pkt.length ≤ 48 then 0 else pkt.length - 48
  else 0

/-- Observe one packet; the verdict is whether the flow is to be demoted. -/
def classifyUpdate (pkt : Packet) (w : Work) : Bool × Work :=
  if w.rx.cfg.evalForceNoDemotion then (false, w)
  else if w.rx.cfg.classifyWindow ≤ w.f.classifySeen then (false, w)
  else
    let seen := w.f.classifySeen + 1
    let large := if w.rx.cfg.smallPacketThresholdBytes ≤ innerUdpPayloadLen pkt then
      w.f.classifyLarge + 1 else w.f.classifyLarge
    (decide (seen = w.rx.cfg.classifyWindow ∧ large ≤ w.rx.cfg.ackDemoteMaxLargePackets),
      { w with f := { w.f with classifySeen := seen, classifyLarge := large } })

/-- One round of the demotion flush. -/
def demoteStep (now : UInt64) (w : Work) : Option Work :=
  if !ringEmpty w.f.buffer then
    some (drainContiguous now (w.setExpected (ringLowestSeq w.f.buffer w.f.expected)))
  else none

/-- Deliver everything held, in ascending order, and free the ring. -/
def flushBufferForDemote (now : UInt64) (w : Work) : Work :=
  let w := Loop.run (demoteStep now) w.f.buffer.size (chargeIfActive .demote w)
  let w := stopGapTimer (w.touch now)
  w.setBuffer (ringFree w.f.buffer)

/-! ### Admission -/

def wouldExceedPerFlowLimits (len : ℕ) (w : Work) : Bool :=
  decide (w.f.buffer.cap ≤ w.f.buffer.count) ||
    decide (w.rx.cfg.maxBufferBytesPerFlow < w.f.buffer.bytes + len)

def poolWouldExhaust (len : ℕ) (w : Work) : Bool :=
  decide (w.rx.cfg.globalMaxBufferBytes < w.rx.poolBytesUsed + len)

/-- A packet dropped for want of pool space or memory. -/
def dropOnPool (w : Work) : ProcessResult × Work :=
  (.droppedLimit,
    (w.tally fun st => { st with poolDropCount := st.poolDropCount + 1 }).emit (.limited w.f.key))

def dropOnLimit (w : Work) : ProcessResult × Work :=
  (.droppedLimit,
    (w.tally fun st => { st with perFlowLimitDropCount := st.perFlowLimitDropCount + 1 }).emit
      (.limited w.f.key))

def dropLate (w : Work) : ProcessResult × Work :=
  (.droppedLate, w.tally fun st => { st with tooLateDropCount := st.tooLateDropCount + 1 })

def dropFarAhead (w : Work) : ProcessResult × Work :=
  (.droppedFarAhead,
    w.tally fun st => { st with tooFarAheadDropCount := st.tooFarAheadDropCount + 1 })

def dropDuplicate (w : Work) : ProcessResult × Work :=
  (.droppedLimit, w.tally fun st => { st with duplicateDropCount := st.duplicateDropCount + 1 })

/-- The bookkeeping of an insertion: the pool, the progress, the highest number seen. -/
def commitInsert (a : Arrival) (buffer : Ring) (w : Work) : Work where
  rx := { w.rx with poolBytesUsed := w.rx.poolBytesUsed + a.pkt.length }
  f := { w.f with
    buffer := buffer
    lastProgressUs := a.now
    rxNext := if w.f.rxNext < a.seq + 1 then a.seq + 1 else w.f.rxNext }

/-- Commit a packet to the ring: copy, insert, charge the pool, arm the timer. -/
def bufferInsertCommitted (a : Arrival) (w : Work) : ProcessResult × Work :=
  if !a.alloc.copy then dropOnPool w
  else
    match ringInsert a.alloc.slots w.f.buffer a.seq a.pkt a.pkt.length w.f.expected a.now with
    | none => dropOnPool w
    | some buffer =>
        (.buffered, periodStartIfNeeded a.now (commitInsert a buffer w))

/-- The packet at `expected` is here: deliver it, then everything contiguous, and see
to the period. -/
def deliverInOrder (a : Arrival) (w : Work) : ProcessResult × Work :=
  let w := deliverPkt a.seq a.pkt a.now a.now w
  let w := (w.setExpected (w.f.expected + 1)).touch a.now
  (.delivered,
    periodStartIfNeeded a.now (periodEndIfDone .filled (drainContiguous a.now w)))

/-- Look at the packet again after a flush moved the window; `buffered` means that it
is still ahead and still to be admitted. -/
def reclassifyAfterFlush (a : Arrival) (w : Work) : ProcessResult × Work :=
  if a.seq < w.f.expected then dropLate w
  else if a.seq = w.f.expected then deliverInOrder a w
  else if ringFarAhead w.f.buffer a.seq w.f.expected then dropFarAhead w
  else if ringContains w.f.buffer a.seq then dropDuplicate w
  else (.buffered, w)

/-- The shared pool stage of admission. -/
def admitPool (a : Arrival) (w : Work) : ProcessResult × Work :=
  if poolWouldExhaust a.pkt.length w then
    if ringEmpty w.f.buffer then dropOnPool w
    else
      match reclassifyAfterFlush a (overflowFlush a.now w) with
      | (.buffered, w) =>
          if poolWouldExhaust a.pkt.length w then dropOnPool w else bufferInsertCommitted a w
      | r => r
  else bufferInsertCommitted a w

/-- Admit a packet that is ahead and in the window. -/
def bufferAdmit (a : Arrival) (w : Work) : ProcessResult × Work :=
  if ringContains w.f.buffer a.seq then dropDuplicate w
  else if wouldExceedPerFlowLimits a.pkt.length w then
    if ringEmpty w.f.buffer then dropOnLimit w
    else
      match reclassifyAfterFlush a (overflowFlush a.now w) with
      | (.buffered, w) => admitPool a w
      | r => r
  else admitPool a w

/-! ### One packet -/

/-- Take `seq` for the first of its epoch and deliver it. -/
def startEpoch (a : Arrival) (w : Work) : Work :=
  let w := deliverPkt a.seq a.pkt a.now a.now { w with f := { w.f with initialized := true } }
  (w.setExpected (a.seq + 1)).touch a.now

def processReorderPacket (a : Arrival) (w : Work) : ProcessResult × Work :=
  if !w.f.initialized then (.delivered, startEpoch a w)
  else if a.seq = w.f.expected then deliverInOrder a w
  else if a.seq < w.f.expected then dropLate w
  else if ringFarAhead w.f.buffer a.seq w.f.expected then dropFarAhead w
  else bufferAdmit a w

/-- A reset is honoured on a fresh flow, or after the grace period without progress. -/
def resetHonoured (a : Arrival) (w : Work) : Bool :=
  (a.flags &&& flagReset != 0) &&
    (!w.f.initialized ||
      (decide (w.f.lastProgressUs < a.now) &&
        decide (w.rx.cfg.resetIdleGraceMs.toUInt64 * 1000 < a.now - w.f.lastProgressUs)))

/-- Real traffic, as opposed to anomalous drops, feeds the classifier. -/
def ProcessResult.isTraffic : ProcessResult → Bool
  | .delivered => true
  | .buffered => true
  | .droppedLate => true
  | .droppedFarAhead => false
  | .droppedLimit => false

/-- Classify the packet and demote the flow if that is the verdict. -/
def classifyAndDemote (a : Arrival) (w : Work) : Work :=
  match classifyUpdate a.pkt w with
  | (false, w) => w
  | (true, w) =>
      let w := flushBufferForDemote a.now w
      ({ w with f := { w.f with passThrough := true } }.tally fun st =>
        { st with ackDemoteCount := st.ackDemoteCount + 1 }).emit (.demoted w.f.key)

/-- A packet reaches its flow. -/
def dispatch (a : Arrival) (w : Work) : Work :=
  { w with f := { w.f with lastSeenUs := a.now } }.emit (.dispatched w.f.key a.seq a.pkt)

/-- Dispatch one packet to its flow: reset, pass-through, reorder, classify. -/
def onReordered (a : Arrival) (w : Work) : Work :=
  let w := dispatch a w
  if resetHonoured a w then startEpoch a ((resetReorderFlow w).emit (.reset w.f.key))
  else if w.f.passThrough then
    (deliverPkt a.seq a.pkt a.now a.now w).touch a.now
  else
    let r := processReorderPacket a w
    if r.1.isTraffic then classifyAndDemote a r.2 else r.2

def releaseSlots (slots : List Slot) (rx : Engine) : Engine :=
  slots.foldl (fun rx s => if s.pkt.isSome then poolRelease s.len rx else rx) rx

/-- Fold a flow's counters into the engine's, release what it buffers, and free it. -/
def flowDestroy (rx : Engine) (f : Flow) : Engine :=
  let rx := { rx with evictedStats := statsAccumulate rx.evictedStats f.stats }
  (releaseSlots f.buffer.slots rx).emit (.destroyed f.key f.gapTimerActive)

end Mqvpn.Reorder
