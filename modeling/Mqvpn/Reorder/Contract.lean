import Mqvpn.Reorder.RxInv

/-!
# What the receive engine promises

The invariant of the engine, read as statements about every run from a freshly created
engine: about the ring and the timer of each flow, about the order in which packets
are delivered, about the shared pool and about the fate of every packet.

## Main definitions

* `FlowBoundary` — what holds of a flow whenever the engine returns.
* `sampleDatagram` — a datagram for the concrete runs.

## Main results

* `flow_boundary` — **ring, mark, timer and periods of every flow, after every run**.
* `epoch_deliveries_increase` — **no sequence number is delivered twice or after a
  higher one within an epoch**.
* `pool_charged_with_buffers` — **the pool is charged with exactly what is buffered**.
* `dispatched_accounted` — **every packet ends in exactly one place**.
-/

namespace Mqvpn.Reorder

open List

/-! ### Concrete runs -/

/-- An IPv4 UDP packet from port `sport` with `n` zero bytes of payload. -/
def sampleInner (sport : UInt16) (n : ℕ) : Packet :=
  ([0x45, 0, 0, 0, 0, 0, 0, 0, 0, 17, 0, 0, 10, 0, 0, 1, 10, 0, 0, 2,
    (sport >>> 8).toUInt8, sport.toUInt8, 1, 187, 0, 0, 0, 0] : List UInt8) ++ List.replicate n 0

/-- The same behind a reorder header. -/
def sampleDatagram (flags : UInt8) (seq : ℕ) (sport : UInt16) (n : ℕ) : Packet :=
  wireEncode typeV1 flags seq ++ sampleInner sport n

/-- A packet without flags, all allocations successful. -/
def samplePacket (seq : ℕ) (sport : UInt16) (n : ℕ) (now : UInt64) : Op :=
  .onPacket (sampleDatagram 0 seq sport n) now { flow := true, copy := true, slots := true }

def sampleKey (sport : UInt16) : FlowKey :=
  (parse5tuple (sampleInner sport 0)).getD
    { ipVersion := 0, proto := 0, srcIp := [], dstIp := [], srcPort := 0, dstPort := 0 }

def sampleConfig : Config := { Config.default with mode := .on }

/-- An engine after some calls. -/
def sampleRun (seed : UInt64) (ops : List Op) : Rx := (Rx.initial sampleConfig seed).run ops

/-- Packets `0` and `2` of a flow. -/
def sampleHole : List Op := [samplePacket 0 5000 1 1000, samplePacket 2 5000 1 1001]

/-! ### Rings and timers -/

theorem pairwise_zero_cons {l : List UInt64} (h : l.Pairwise (· ≤ ·)) :
    (0 :: l).Pairwise (· ≤ ·) :=
  pairwise_cons.mpr ⟨fun _ _ => UInt64.le_iff_toNat_le.mpr (Nat.zero_le _), h⟩

/-- What holds of a flow whenever the engine returns. -/
structure FlowBoundary (f : Flow) : Prop where
  /-- The timer is armed exactly when the ring is non-empty. -/
  armed : f.gapTimerActive = true ↔ f.buffer.buffered ≠ []
  /-- While armed, the mark is ahead and its last packet is buffered. -/
  mark : f.gapTimerActive = true → f.expected < f.reord ∧ f.reord ≤ f.rxNext ∧
    ∃ s ∈ f.buffer.buffered, s.seq = f.reord - 1
  /-- Every buffered packet is in the window of the ring. -/
  window : ∀ s ∈ f.buffer.buffered, f.expected ≤ s.seq ∧ s.seq < f.expected + f.buffer.size
  /-- The ring is not allocated, or a power of two long and within its capacity. -/
  size : f.buffer.size = 0 ∨ f.buffer.size.isPowerOfTwo ∧ f.buffer.size ≤ f.buffer.cap
  count : f.buffer.count = f.buffer.buffered.length
  bytes : f.buffer.bytes = (f.buffer.buffered.map Slot.len).sum
  /-- Every period has ended once, the running one excepted. -/
  gaps : f.stats.gapCount = f.stats.gapFilledCount + f.stats.gapTimeoutCount +
    f.stats.gapOverflowCount + f.stats.gapDemoteCount + f.stats.gapResetCount +
    (if f.gapTimerActive then 1 else 0)

theorem FlowOk.boundary {t : List Event} {f : Flow} (h : FlowOk t f) : FlowBoundary f where
  armed := by
    rw [h.armed, ringEmpty, beq_eq_false_iff_ne, h.ring.count]
    exact length_eq_zero_iff.not
  mark := by
    intro hact
    have hahead := h.ahead hact
    obtain ⟨hle, hhas⟩ := h.mark hact
    exact ⟨hahead, hle, h.ring.has_iff.mp (hhas hahead)⟩
  window := fun s hs => h.window s.seq (h.ring.has_iff.mpr ⟨s, hs, rfl⟩)
  size := by
    rcases h.ring.size with hnil | hpow
    · left
      rw [Ring.size, hnil, length_nil]
    · exact Or.inr hpow
  count := h.ring.count
  bytes := h.ring.bytes
  gaps := by
    have := h.gaps
    rw [Nat.add_zero, Stats.gapEnds] at this
    rw [this]
    cases f.gapTimerActive <;> rfl

variable {cfg : Config} {seed : UInt64} {allocOk : Bool} {rx : Rx}

/-- **After every run, every live flow is settled**: its timer, its mark, its ring and
its periods agree. -/
theorem flow_boundary (h : rxNew cfg seed allocOk = some rx) (ops : List Op) :
    ∀ f ∈ (rx.run ops).flows, FlowBoundary f :=
  fun f hf => ((rxInv_run h ops).table.flows f hf).boundary

theorem flow_boundary_waiting :
    (∃ f ∈ (sampleRun 1 sampleHole).flows, f.gapTimerActive = true) ∧
    ∀ f ∈ (sampleRun 1 sampleHole).flows, FlowBoundary f :=
  ⟨by decide +kernel, flow_boundary (rxNew_of_validate rfl 1) _⟩

/-- The ring of a flow that has buffered nothing is not allocated: its size is `0`,
which is not a power of two. -/
theorem unallocated_ring_size_zero :
    ∃ f ∈ (sampleRun 1 [samplePacket 0 5000 1 1000]).flows,
      ¬ f.buffer.size.isPowerOfTwo := by
  have hzero : ∃ f ∈ (sampleRun 1 [samplePacket 0 5000 1 1000]).flows,
      f.buffer.size = 0 := by decide +kernel
  obtain ⟨f, hf, hsize⟩ := hzero
  refine ⟨f, hf, fun hpow => ?_⟩
  have := Nat.pos_of_isPowerOfTwo hpow
  omega

/-! ### The order of delivery -/

/-- **Within an epoch, delivered sequence numbers strictly increase.**  The epoch opens
with `e`, the creation of the flow or an honoured reset, and `mid` is what happens
until the flow is demoted, reset again or evicted; the demotion flush is part of it. -/
theorem epoch_deliveries_increase (h : rxNew cfg seed allocOk = some rx) (ops : List Op)
    {k : FlowKey} {e : Event} {pre mid post : List Event}
    (htrace : (rx.run ops).trace = pre ++ e :: mid ++ post) (hopen : e = .created k ∨ e = .reset k)
    (hmid : Unbroken k mid) : (deliveredSeqs k mid).Pairwise (· < ·) :=
  (htrace ▸ (rxInv_run h ops).table.ordered k).pairwise_of_unbroken hopen hmid

/-- One flow, one packet overtaken by another. -/
theorem epoch_deliveries_increase_overtaken :
    let rx := sampleRun 1 (sampleHole ++ [samplePacket 1 5000 1 1002])
    deliveredSeqs (sampleKey 5000) rx.trace.tail = [0, 1, 2] ∧
    (deliveredSeqs (sampleKey 5000) rx.trace.tail).Pairwise (· < ·) :=
  ⟨by decide +kernel,
    @epoch_deliveries_increase sampleConfig 1 true _ rfl
      (sampleHole ++ [samplePacket 1 5000 1 1002]) _ (.created (sampleKey 5000)) [] _ []
      (by decide +kernel) (Or.inl rfl) (by unfold Unbroken; decide +kernel)⟩

/-! ### The pool -/

/-- **The pool is charged with the packets the live flows buffer**, stays within its
limit, and its counter never runs below zero. -/
theorem pool_charged_with_buffers (h : rxNew cfg seed allocOk = some rx) (ops : List Op) :
    (rx.run ops).poolBytesUsed = ((rx.run ops).flows.map fun f =>
        (f.buffer.buffered.map fun s => (s.pkt.getD []).length).sum).sum ∧
      (rx.run ops).poolBytesUsed ≤ cfg.globalMaxBufferBytes ∧
      Event.clamped ∉ (rx.run ops).trace := by
  have hinv := (rxInv_run h ops).table
  refine ⟨?_, ?_, hinv.noClamp⟩
  · rw [hinv.pool]
    refine congrArg sum (map_congr_left fun f hf => ?_)
    have hring := (hinv.flows f hf).ring
    rw [hring.bytes]
    refine congrArg sum (map_congr_left fun s hs => ?_)
    obtain ⟨hmem, k, hk⟩ := Residue.mem_occupied.mp hs
    obtain ⟨p, hp⟩ := Option.isSome_iff_exists.mp (Slot.key_eq_some.mp hk).1
    rw [hring.lens s hmem p hp, hp, Option.getD_some]
  · obtain ⟨force, hcfg⟩ := cfg_run h ops
    have hmax := hinv.poolMax
    rw [hcfg] at hmax
    exact hmax

/-- Two flows, each waiting for a packet. -/
def sampleHoles : List Op :=
  sampleHole ++ [samplePacket 7 6000 2 1002, samplePacket 9 6000 2 1003]

theorem pool_charged_with_two_buffers :
    (sampleRun 1 sampleHoles).poolBytesUsed = 29 + 30 ∧
      (sampleRun 1 sampleHoles).poolBytesUsed ≤ sampleConfig.globalMaxBufferBytes := by
  refine ⟨by decide +kernel, ?_⟩
  unfold sampleRun
  exact (pool_charged_with_buffers (rxNew_of_validate rfl 1) sampleHoles).2.1

/-! ### The fate of packets -/

/-- **Every packet dispatched to a flow since its creation was delivered, dropped on one
counter, discarded by a reset, or is buffered**; and every delivery is in one bucket
of the histogram. -/
theorem dispatched_accounted (h : rxNew cfg seed allocOk = some rx) (ops : List Op) :
    ∀ f ∈ (rx.run ops).flows,
      (arrivals f.key (rx.run ops).trace).length =
        f.stats.deliveredCount + f.stats.tooLateDropCount + f.stats.tooFarAheadDropCount +
          f.stats.duplicateDropCount + f.stats.perFlowLimitDropCount + f.stats.poolDropCount +
          f.stats.resetDiscardCount + f.buffer.buffered.length ∧
      f.stats.residenceBucket.sum = f.stats.deliveredCount := by
  intro f hf
  have hok := (rxInv_run h ops).table.flows f hf
  refine ⟨?_, hok.hist⟩
  rw [hok.packets, hok.ring.count]
  rfl

/-- Four packets: two delivered, one dropped as late, one buffered. -/
theorem dispatched_accounted_four :
    let rx := sampleRun 1 [samplePacket 5 5000 1 1000, samplePacket 4 5000 1 1001,
      samplePacket 6 5000 1 1002, samplePacket 9 5000 1 1003]
    rx.flows.map (fun f =>
        (f.stats.deliveredCount, f.stats.tooLateDropCount, f.buffer.buffered.length)) =
      [(2, 1, 1)] ∧
    ∀ f ∈ rx.flows, f.stats.residenceBucket.sum = f.stats.deliveredCount :=
  ⟨by decide +kernel, fun f hf =>
    (dispatched_accounted (rxNew_of_validate rfl 1) _ f hf).2⟩

end Mqvpn.Reorder
