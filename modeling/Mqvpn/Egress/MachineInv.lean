import Mqvpn.Egress.Machine
import Mqvpn.Egress.Streams
import Mathlib.Data.List.Range

/-!
# The flow table of the egress

The counters of the egress, the slots of the streams and the list of flows tell the same
story at every moment: a flow that was opened is on the list or was taken down, once.  This
needs only the names of the flows (`rows`), which no handler changes; what holds of a flow
itself is `Settled`, for all flows but those a handler has just given up.

## Main definitions

* `TableInv` — the counters, the slots and the list agree.
* `EgressInv` — and the flows are settled, but for those that are given up.

## Main results

* `engineStep_inv`, `step_inv`, `run_inv` — it holds at every moment of every run.
-/

namespace Mqvpn.Egress

open Svr Endpoint List Function

namespace TcpEgress

def rows (m : TcpEgress) : List FlowId := m.flows.map Flow.ident

def flowsOf (m : TcpEgress) (id : ConnId) : ℕ := m.rows.countP fun r => r.stream.1 = id

/-- The counters, the slots and the list agree. -/
structure TableInv (m : TcpEgress) : Prop where
  global : m.globalFdCount = m.rows.length
  within : (m.rows.length : ℤ) ≤ m.budget
  fits : m.budget ≤ intMax
  perConn : ∀ id c, m.conns id = some c →
    c.tcpFlowCount = m.flowsOf id ∧ m.flowsOf id ≤ m.cfg.tcpMaxFlows.toNat
  slot : ∀ r ∈ m.rows, ∃ st, m.streams r.stream = some st ∧ st.role = .connectTcp ∧
    st.slot = some r.serial
  ref : ∀ key st serial, m.streams key = some st → st.slot = some serial →
    ∃ r ∈ m.rows, r.serial = serial ∧ r.stream = key
  read : ∀ key st, m.streams key = some st → st.slot.isSome = true → st.headersRead = true
  listed : ∀ key st, m.streams key = some st → ∃ c, m.conns key.1 = some c ∧ key.2 ∈ c.streams
  ledger : (m.closed.map (fun e => e.1.serial) ++ m.rows.map FlowId.serial).Perm
    (List.range' 1 m.flowsTotalOpened)
  fds : (m.rows.map FlowId.fd).Nodup

/-- The flows are settled, but for those with a serial in `doomed`. -/
structure EgressInv (doomed : List ℕ) (m : TcpEgress) : Prop where
  table : TableInv m
  settled : ∀ f ∈ m.flows, f.serial ∉ doomed → Settled f

variable {m m' : TcpEgress} {f f' : Flow} {r : FlowId} {doomed : List ℕ} {key : StreamKey}

/-! ### The table -/

theorem mem_rows (hf : f ∈ m.flows) : f.ident ∈ m.rows := mem_map_of_mem hf

section
variable (h : TableInv m)
include h

theorem TableInv.serials : (m.rows.map FlowId.serial).Nodup :=
  (nodup_append.mp (h.ledger.nodup_iff.mpr nodup_range')).2.1

theorem TableInv.flow_serials : (m.flows.map Flow.serial).Nodup := by
  have hserials := h.serials
  rwa [rows, map_map] at hserials

/-- The table is about these fields only. -/
theorem TableInv.congr (hcfg : m'.cfg = m.cfg) (hbudget : m'.budget = m.budget)
    (hrows : m'.rows = m.rows) (hglobal : m'.globalFdCount = m.globalFdCount)
    (htotal : m'.flowsTotalOpened = m.flowsTotalOpened) (hconns : m'.conns = m.conns)
    (hstreams : m'.streams = m.streams) (hclosed : m'.closed = m.closed) : TableInv m' where
  global := by rw [hglobal, hrows, h.global]
  within := by rw [hrows, hbudget]; exact h.within
  fits := hbudget ▸ h.fits
  perConn := by
    intro id c hc
    rw [hconns] at hc
    rw [flowsOf, hrows, hcfg]
    exact h.perConn id c hc
  slot := by rw [hrows, hstreams]; exact h.slot
  ref := by rw [hrows, hstreams]; exact h.ref
  read := by rw [hstreams]; exact h.read
  listed := by rw [hstreams, hconns]; exact h.listed
  ledger := by rw [hclosed, hrows, htotal]; exact h.ledger
  fds := by rw [hrows]; exact h.fds

/-- No flow has the stream if nothing is found in its slot. -/
theorem TableInv.stream_free (hnone : m.streamFlow key = none) : ∀ r ∈ m.rows, r.stream ≠ key := by
  rintro r hr rfl
  obtain ⟨st, hst, hrole, hslot⟩ := h.slot r hr
  obtain ⟨f, hf, rfl⟩ := mem_map.mp hr
  have hfind : m.findFlow f.serial = some f := Keyed.find_of_mem h.flow_serials hf
  rw [streamFlow, hst] at hnone
  dsimp only at hnone
  rw [if_pos hrole, hslot] at hnone
  change m.findFlow f.serial = none at hnone
  rw [hfind] at hnone
  cases hnone

/-- What is found in a slot is on the list, and its stream is that of the slot. -/
theorem TableInv.streamFlow_some (hsome : m.streamFlow key = some f) :
    f ∈ m.flows ∧ f.stream = key := by
  rw [streamFlow] at hsome
  cases hst : m.streams key with
  | none => rw [hst] at hsome; cases hsome
  | some st =>
    rw [hst] at hsome
    dsimp only at hsome
    split at hsome
    · cases hslot : st.slot with
      | none => rw [hslot] at hsome; cases hsome
      | some serial =>
        rw [hslot] at hsome
        obtain ⟨hf, rfl⟩ := Keyed.find_eq_some (show m.findFlow serial = some f from hsome)
        obtain ⟨r, hr, hserial, hstream⟩ := h.ref key st _ hst hslot
        have heq : r = f.ident := Keyed.eq_of_key h.serials hr (mem_rows hf) hserial
        rw [heq] at hstream
        exact ⟨hf, hstream⟩
    · cases hsome

end

/-! ### Taking a flow down -/

section
variable (m f) (why : EndReason)

@[simp] theorem flowDestroy_flows :
    (m.flowDestroy f why).flows = Keyed.remove Flow.serial f.serial m.flows := rfl

theorem flowDestroy_rows :
    (m.flowDestroy f why).rows = Keyed.remove FlowId.serial f.serial m.rows :=
  Keyed.map_remove Flow.ident FlowId.serial (fun _ => rfl) f.serial m.flows

@[simp] theorem flowDestroy_streams : (m.flowDestroy f why).streams =
    update m.streams f.stream
      ((m.streams f.stream).map fun st => { st with slot := none }) := rfl

@[simp] theorem flowDestroy_conns : (m.flowDestroy f why).conns =
    update m.conns f.stream.1
      ((m.conns f.stream.1).map fun c => { c with tcpFlowCount := c.tcpFlowCount + -1 }) := rfl

end

theorem TableInv.eq_of_stream (h : TableInv m) {r₁ r₂ : FlowId} (h₁ : r₁ ∈ m.rows)
    (h₂ : r₂ ∈ m.rows) (heq : r₁.stream = r₂.stream) : r₁ = r₂ := by
  obtain ⟨st₁, hst₁, -, hslot₁⟩ := h.slot r₁ h₁
  obtain ⟨st₂, hst₂, -, hslot₂⟩ := h.slot r₂ h₂
  rw [heq, hst₂] at hst₁
  cases hst₁
  rw [hslot₁] at hslot₂
  exact Keyed.eq_of_key h.serials h₁ h₂ (Option.some.inj hslot₂)

/-- The slot of a stream and the count of its connection change, with the flow of the stream. -/
theorem TableInv.reslot (h : TableInv m) {g : TcpStream → TcpStream} {d : ℤ}
    (hcfg : m'.cfg = m.cfg) (hbudget : m'.budget = m.budget)
    (hstreams : m'.streams = update m.streams key ((m.streams key).map g))
    (hconns : m'.conns = update m.conns key.1
      ((m.conns key.1).map fun c => { c with tcpFlowCount := c.tcpFlowCount + d }))
    (hglobal : m'.globalFdCount = m'.rows.length) (hwithin : (m'.rows.length : ℤ) ≤ m.budget)
    (hcount : ∀ id, (m'.flowsOf id : ℤ) = m.flowsOf id + if key.1 = id then d else 0)
    (hmax : ∀ c, m.conns key.1 = some c → m'.flowsOf key.1 ≤ m.cfg.tcpMaxFlows.toNat)
    (hother : ∀ r, r.stream ≠ key → (r ∈ m'.rows ↔ r ∈ m.rows))
    (hself : ∀ r ∈ m'.rows, r.stream = key → ∃ st, m.streams key = some st ∧
      (g st).role = .connectTcp ∧ (g st).slot = some r.serial)
    (hslot : ∀ st serial, (g st).slot = some serial → m.streams key = some st →
      (g st).headersRead = true ∧ ∃ r ∈ m'.rows, r.serial = serial ∧ r.stream = key)
    (hledger : (m'.closed.map (fun e => e.1.serial) ++ m'.rows.map FlowId.serial).Perm
      (range' 1 m'.flowsTotalOpened))
    (hfds : (m'.rows.map FlowId.fd).Nodup) : TableInv m' := by
  refine ⟨hglobal, hbudget ▸ hwithin, hbudget ▸ h.fits, ?_, ?_, ?_, ?_, ?_, hledger, hfds⟩
  · intro id c hc
    rw [hconns] at hc
    rw [hcfg]
    have hid := hcount id
    obtain ⟨c₀, hc₀, ⟨rfl, rfl⟩ | ⟨hne, rfl⟩⟩ := Slots.of_update_map hc
    · obtain ⟨hnum, -⟩ := h.perConn _ c₀ hc₀
      rw [if_pos rfl] at hid
      exact ⟨by dsimp only; omega, hmax c₀ hc₀⟩
    · obtain ⟨hnum, hle⟩ := h.perConn id c hc₀
      rw [if_neg (Ne.symm hne)] at hid
      omega
  · intro r hr
    rw [hstreams]
    by_cases hkey : r.stream = key
    · obtain ⟨st, hst, hrest⟩ := hself r hr hkey
      exact ⟨g st, by rw [hkey, update_self, hst]; rfl, hrest⟩
    · obtain ⟨st, hst, hrest⟩ := h.slot r ((hother r hkey).mp hr)
      exact ⟨st, by rw [update_of_ne hkey, hst], hrest⟩
  · intro k st serial hst hserial
    rw [hstreams] at hst
    obtain ⟨st₀, hst₀, ⟨rfl, rfl⟩ | ⟨hne, rfl⟩⟩ := Slots.of_update_map hst
    · exact (hslot st₀ serial hserial hst₀).2
    · obtain ⟨r, hr, hrserial, rfl⟩ := h.ref k st serial hst₀ hserial
      exact ⟨r, (hother r hne).mpr hr, hrserial, rfl⟩
  · intro k st hst hsome
    rw [hstreams] at hst
    obtain ⟨st₀, hst₀, ⟨rfl, rfl⟩ | ⟨-, rfl⟩⟩ := Slots.of_update_map hst
    · obtain ⟨serial, hserial⟩ := Option.isSome_iff_exists.mp hsome
      exact (hslot st₀ serial hserial hst₀).1
    · exact h.read k st hst₀ hsome
  · intro k st hst
    rw [hstreams] at hst
    obtain ⟨st₀, hst₀, -⟩ := Slots.of_update_map hst
    obtain ⟨c, hc, hin⟩ := h.listed k st₀ hst₀
    refine ⟨_, by rw [hconns]; exact Slots.update_map hc .., ?_⟩
    split <;> exact hin

/-- **Taking a flow down keeps the table.** -/
theorem TableInv.flowDestroy (h : TableInv m) (hf : f.ident ∈ m.rows) (why : EndReason) :
    TableInv (m.flowDestroy f why) := by
  have hperm := Keyed.perm_remove h.serials hf
  have hmem (r : FlowId) := Keyed.mem_remove_iff (y := r) h.serials hf
  have hrows := flowDestroy_rows m f why
  have hlen : m.rows.length = (m.flowDestroy f why).rows.length + 1 := by
    rw [hrows, hperm.length_eq]
    rfl
  have hcount (id : ConnId) : m.flowsOf id =
      (m.flowDestroy f why).flowsOf id + if f.stream.1 = id then 1 else 0 := by
    rw [flowsOf, flowsOf, hrows, hperm.countP_eq, countP_cons]
    by_cases hid : f.stream.1 = id <;> simp [Flow.ident, hid]
  have hglobal := h.global
  have hwithin := h.within
  refine h.reslot rfl rfl (flowDestroy_streams m f why) (flowDestroy_conns m f why) ?_ (by omega)
    (fun id => ?_) (fun c hc => ?_) (fun r hne => ?_) (fun r hr hkey => ?_)
    (fun st serial hst => ?_)
    ?_ ?_
  · change m.globalFdCount - 1 = _
    omega
  · rw [hcount id]
    split <;> simp
  · have hle := (h.perConn _ c hc).2
    have := hcount f.stream.1
    omega
  · -- another flow has another stream
    rw [hrows]
    refine (hmem r).trans ⟨And.left, fun hr => ⟨hr, fun heq => hne ?_⟩⟩
    rw [Keyed.eq_of_key h.serials hr hf heq]
    rfl
  · rw [hrows] at hr
    obtain ⟨hr, hne⟩ := (hmem r).mp hr
    exact absurd (by rw [h.eq_of_stream hr hf hkey]) hne
  · cases hst
  · have hledger := h.ledger
    change ((m.closed ++ [(f, why)]).map _ ++ _).Perm _
    rw [hrows, map_append, append_assoc]
    exact (List.Perm.append_left _ (hperm.map FlowId.serial).symm).trans hledger
  · rw [hrows]
    have hfds := (hperm.map FlowId.fd).nodup_iff.mp h.fds
    exact (nodup_cons.mp hfds).2

/-- Taking a flow down: it need not be settled. -/
theorem EgressInv.flowDestroy (h : EgressInv (f.serial :: doomed) m) (hf : f.ident ∈ m.rows)
    (why : EndReason) : EgressInv doomed (m.flowDestroy f why) := by
  refine ⟨h.table.flowDestroy hf why, fun g hg hdoomed => ?_⟩
  obtain ⟨f₀, hf₀, hident⟩ := mem_map.mp hf
  have hserial : f₀.serial = f.serial := congrArg FlowId.serial hident
  rw [flowDestroy_flows, ← hserial] at hg
  obtain ⟨hg, hne⟩ := (Keyed.mem_remove_iff h.table.flow_serials hf₀).mp hg
  refine h.settled g hg ?_
  rw [mem_cons, not_or]
  exact ⟨hserial ▸ hne, hdoomed⟩

theorem EgressInv.weaken (h : EgressInv doomed m) (n : ℕ) : EgressInv (n :: doomed) m :=
  ⟨h.table, fun f hf hn => h.settled f hf fun hmem => hn (mem_cons_of_mem _ hmem)⟩

/-- What takes no part in the table. -/
theorem EgressInv.respond (h : EgressInv doomed m) (key : StreamKey) (status : ℕ) :
    EgressInv doomed (m.respond key status) :=
  ⟨h.table.congr rfl rfl rfl rfl rfl rfl rfl rfl, h.settled⟩

theorem EgressInv.destroyOf (h : EgressInv doomed m) (key : StreamKey) (why : EndReason) :
    EgressInv doomed (m.destroyOf key why) := by
  rw [TcpEgress.destroyOf]
  split
  · exact h
  · next f hfound =>
    have hf := (h.table.streamFlow_some hfound).1
    exact (h.weaken f.serial).flowDestroy (mem_rows hf) why

/-- A slot that is empty yields nothing. -/
theorem streamFlow_of_slot_none {st : TcpStream} (hst : m.streams key = some st)
    (hslot : st.slot = none) : m.streamFlow key = none := by
  rw [streamFlow, hst]
  dsimp only
  rw [hslot]
  split <;> rfl

/-- After the flow of a stream was taken down the slot is empty. -/
theorem TableInv.streamFlow_destroyOf (h : TableInv m) (key : StreamKey) (why : EndReason) :
    (m.destroyOf key why).streamFlow key = none := by
  rw [TcpEgress.destroyOf]
  split
  · next hnone => exact hnone
  · next f hfound =>
    obtain ⟨hf, rfl⟩ := h.streamFlow_some hfound
    obtain ⟨st, hst, -⟩ := h.slot _ (mem_rows hf)
    have hst' : (m.flowDestroy f why).streams f.stream = some { st with slot := none } := by
      rw [flowDestroy_streams, update_self]
      change m.streams f.stream = some st at hst
      rw [hst]
      rfl
    exact streamFlow_of_slot_none hst' rfl

/-- A stream that no flow has gets another state without a flow, or goes. -/
theorem TableInv.setFree (h : TableInv m) (hfree : ∀ r ∈ m.rows, r.stream ≠ key)
    {st' : Option TcpStream} (hslot' : ∀ st, st' = some st → st.slot = none)
    {conns : ConnId → Option ConnSide}
    (hcount : ∀ id c, conns id = some c →
      ∃ c₀, m.conns id = some c₀ ∧ c.tcpFlowCount = c₀.tcpFlowCount)
    (hlisted : ∀ k st, update m.streams key st' k = some st →
      ∃ c, conns k.1 = some c ∧ k.2 ∈ c.streams) :
    TableInv { m with streams := update m.streams key st', conns := conns } := by
  -- a stream with a flow is another one
  have hother : ∀ k st serial, update m.streams key st' k = some st →
      st.slot = some serial → m.streams k = some st := by
    intro k st serial hst hslot
    obtain ⟨-, hst⟩ | ⟨-, hst⟩ := Slots.of_update hst
    · rw [hslot' st hst] at hslot
      cases hslot
    · exact hst
  refine ⟨h.global, h.within, h.fits, ?_, ?_, ?_, ?_, hlisted, h.ledger, h.fds⟩
  · intro id c hc
    obtain ⟨c₀, hc₀, heq⟩ := hcount id c hc
    rw [heq]
    exact h.perConn id c₀ hc₀
  · intro r hr
    obtain ⟨st, hst, hrest⟩ := h.slot r hr
    refine ⟨st, ?_, hrest⟩
    change update m.streams key st' r.stream = some st
    rw [update_of_ne (hfree r hr), hst]
  · intro k st serial hst hslot
    exact h.ref k st serial (hother k st serial hst hslot) hslot
  · intro k st hst hslot
    obtain ⟨serial, hserial⟩ := Option.isSome_iff_exists.mp hslot
    exact h.read k st (hother k st serial hst hserial) hslot

/-- Forget a stream that no flow has. -/
theorem TableInv.dropStream (h : TableInv m) (hfree : ∀ r ∈ m.rows, r.stream ≠ key) :
    TableInv ((m.setStream key none).setConn key.1 ((m.conns key.1).map fun c =>
      { c with streams := c.streams.filter (· ≠ key.2) })) := by
  refine h.setFree hfree (fun st hst => by cases hst) (fun id c hc => ?_) (fun k st hst => ?_)
  · obtain ⟨c₀, hc₀, hval⟩ := Slots.of_update_map hc
    refine ⟨c₀, hc₀, ?_⟩
    obtain ⟨-, rfl⟩ | ⟨-, rfl⟩ := hval <;> rfl
  · obtain ⟨hk, hst⟩ := Slots.of_update_none hst
    obtain ⟨c, hc, hin⟩ := h.listed k st hst
    refine ⟨_, Slots.update_map hc .., ?_⟩
    split
    · next hid =>
      rw [mem_filter, decide_eq_true_eq]
      exact ⟨hin, fun hsid => hk (Prod.ext hid hsid)⟩
    · exact hin

theorem EgressInv.requestClose (h : EgressInv doomed m) (key : StreamKey) :
    EgressInv doomed (m.requestClose key) := by
  rw [TcpEgress.requestClose]
  split
  · exact h
  · have hdestroyed := h.destroyOf key .closed
    have hfree := hdestroyed.table.stream_free (h.table.streamFlow_destroyOf key .closed)
    exact ⟨hdestroyed.table.dropStream hfree, hdestroyed.settled⟩

theorem EgressInv.abort (h : EgressInv (f.serial :: doomed) m) (hf : f.ident ∈ m.rows)
    (why : EndReason) (closeSync : Bool) : EgressInv doomed (m.abort f why closeSync) := by
  rw [TcpEgress.abort]
  split
  · exact (h.flowDestroy hf why).requestClose f.stream
  · exact h.flowDestroy hf why

theorem EgressInv.failConnect (h : EgressInv doomed m) (hf : f.ident ∈ m.rows) (e : Errno) :
    EgressInv doomed (m.failConnect f e) :=
  ((h.respond f.stream _).weaken f.serial).flowDestroy hf .connectFailed

/-! ### Handlers -/

/-- Writing a flow back leaves the names alone. -/
theorem TableInv.setFlow_rows (h : TableInv m) (hf : f ∈ m.flows) (hident : f'.ident = f.ident) :
    (m.setFlow f').rows = m.rows := by
  refine Keyed.map_put Flow.ident fun g hg hserial => ?_
  have hserial' : f'.serial = f.serial := congrArg FlowId.serial hident
  rw [Keyed.eq_of_key h.flow_serials hg hf (hserial.trans hserial')]
  exact hident

theorem TableInv.setFlow (h : TableInv m) (hf : f ∈ m.flows) (hident : f'.ident = f.ident) :
    TableInv (m.setFlow f') :=
  h.congr rfl rfl (h.setFlow_rows hf hident) rfl rfl rfl rfl rfl

section
variable (h : EgressInv doomed m)
include h

/-- A flow is written back as a handler leaves it. -/
theorem EgressInv.setFlow (hf : f ∈ m.flows) (hident : f'.ident = f.ident) :
    EgressInv (f.serial :: doomed) (m.setFlow f') := by
  refine ⟨h.table.setFlow hf hident, fun g hg hdoomed => ?_⟩
  rw [mem_cons, not_or] at hdoomed
  rcases Keyed.mem_put hg with rfl | ⟨hg, -⟩
  · exact absurd (congrArg FlowId.serial hident) hdoomed.1
  · exact h.settled g hg hdoomed.2

/-- A handler that did not give its flow up. -/
theorem EgressInv.setFlow_relay (hf : f ∈ m.flows) (ev : FlowEvent)
    (hlive : (relay f ev).error = none) : EgressInv doomed (m.setFlow (relay f ev).flow) := by
  have hident := relay_ident f ev
  refine ⟨h.table.setFlow hf hident, fun g hg hdoomed => ?_⟩
  rcases Keyed.mem_put hg with rfl | ⟨hg, -⟩
  · have hserial : (relay f ev).flow.serial = f.serial := congrArg FlowId.serial hident
    rw [hserial] at hdoomed
    exact (relay_sound (h.settled f hf hdoomed) ev).settled hlive
  · exact h.settled g hg hdoomed

theorem EgressInv.settle (hf : f ∈ m.flows) (ev : FlowEvent) (closeSync : Bool) :
    EgressInv doomed (m.settle (relay f ev) closeSync) := by
  have hident := relay_ident f ev
  have hserial : (relay f ev).flow.serial = f.serial := congrArg FlowId.serial hident
  rw [TcpEgress.settle]
  split
  · apply EgressInv.abort
    · rw [hserial]
      exact h.setFlow hf hident
    · rw [h.table.setFlow_rows hf hident, hident]
      exact mem_rows hf
  · next hlive => exact h.setFlow_relay hf ev (by simpa using hlive)

theorem EgressInv.streamEvent (key : StreamKey) (ev : FlowEvent) (closeSync : Bool) :
    EgressInv doomed (m.streamEvent key ev closeSync) := by
  rw [TcpEgress.streamEvent]
  split
  · exact h
  · next f hfound => exact h.settle (h.table.streamFlow_some hfound).1 ev closeSync

end

/-! ### Requests -/

/-- A count that is below the budget is the same as an unsigned one. -/
theorem TableInv.flowsOf_lt (h : TableInv m) {id : ConnId} {c : ConnSide}
    (hc : m.conns id = some c) (hfull : m.connFull id = false) :
    m.flowsOf id < m.cfg.tcpMaxFlows.toNat := by
  obtain ⟨hnum, -⟩ := h.perConn id c hc
  have hle : m.flowsOf id ≤ m.rows.length := countP_le_length
  have hwithin := h.within
  have hfits := h.fits
  rw [connFull, hc] at hfull
  simp only [decide_eq_false_iff_not, not_le, hnum] at hfull
  rw [intMax] at hfits
  omega

/-- **A new flow fits the table**, if the caps are not reached and the slot is free. -/
theorem TableInv.insertFlow (h : TableInv m) {st : TcpStream}
    (hst : m.streams f.stream = some st) (hrole : st.role = .connectTcp) (hslot : st.slot = none)
    (hread : st.headersRead = true) (hserial : f.serial = m.flowsTotalOpened + 1)
    (hfd : ∀ g ∈ m.flows, g.fd ≠ f.fd) (hglobal : m.globalFdCount < m.budget)
    (hfull : m.connFull f.stream.1 = false) : TableInv (m.insertFlow f) := by
  have hrows : (m.insertFlow f).rows = f.ident :: m.rows := rfl
  have hfree : ∀ r ∈ m.rows, r.stream ≠ f.stream :=
    h.stream_free (streamFlow_of_slot_none hst hslot)
  have hnew (id : ConnId) : (m.insertFlow f).flowsOf id =
      m.flowsOf id + if f.stream.1 = id then 1 else 0 := by
    rw [flowsOf, flowsOf, hrows, countP_cons]
    by_cases hid : f.stream.1 = id <;> simp [Flow.ident, hid]
  have hcount := h.global
  refine h.reslot (g := fun st => { st with slot := some f.serial }) rfl rfl rfl rfl ?_ ?_
    (fun id => ?_) (fun c hc => ?_) (fun r hne => ?_) (fun r hr hkey => ?_)
    (fun st' serial hserial' hst' => ?_) ?_ ?_
  · change m.globalFdCount + 1 = _
    rw [hrows, hcount, length_cons]
    rfl
  · rw [hrows, length_cons]
    omega
  · rw [hnew id]
    split <;> simp
  · rw [hnew, if_pos rfl]
    exact h.flowsOf_lt hc hfull
  · rw [hrows, mem_cons, or_iff_right]
    rintro rfl
    exact hne rfl
  · rw [hrows] at hr
    rcases mem_cons.mp hr with rfl | hr
    · exact ⟨st, hst, hrole, rfl⟩
    · exact absurd hkey (hfree r hr)
  · rw [hst] at hst'
    cases hst'
    exact ⟨hread, f.ident, mem_cons_self, Option.some.inj hserial', rfl⟩
  · -- the new serial is the next one
    change (m.closed.map _ ++ (m.insertFlow f).rows.map FlowId.serial).Perm
      (range' 1 (m.flowsTotalOpened + 1))
    rw [hrows, map_cons, range'_1_concat]
    have hmiddle : (m.closed.map (fun e => e.1.serial) ++
        f.ident.serial :: m.rows.map FlowId.serial).Perm
        (f.serial :: (m.closed.map (fun e => e.1.serial) ++ m.rows.map FlowId.serial)) :=
      perm_middle
    refine hmiddle.trans ?_
    rw [hserial, Nat.add_comm 1]
    exact (h.ledger.cons _).trans (perm_append_singleton _ _).symm
  · rw [hrows, map_cons, nodup_cons]
    refine ⟨fun hmem => ?_, h.fds⟩
    obtain ⟨r, hr, hfdr⟩ := mem_map.mp hmem
    obtain ⟨g, hg, rfl⟩ := mem_map.mp hr
    exact hfd g hg hfdr

theorem newFlow_settled (m : TcpEgress) (key : StreamKey) (fd : ℕ) (username : List UInt8)
    (now : ℕ) : Settled (m.newFlow key fd username now) :=
  Settled.fresh rfl rfl ⟨rfl, rfl⟩ ⟨rfl, rfl⟩ ⟨rfl, rfl⟩ ⟨rfl, rfl⟩

theorem EgressInv.finishConnect (h : EgressInv doomed m) (hf : f ∈ m.flows) (hsettled : Settled f)
    (hstate : f.state = .connecting) (env : ConnectEnv) :
    EgressInv doomed (m.finishConnect f env) := by
  unfold TcpEgress.finishConnect
  split
  · exact h.settle hf _ _
  · refine ⟨h.table.setFlow hf rfl, fun g hg hdoomed => ?_⟩
    rcases Keyed.mem_put hg with rfl | ⟨hg, -⟩
    · exact hsettled.register hstate false true
    · exact h.settled g hg hdoomed
  · exact h.failConnect (mem_rows hf) _

/-- A stream whose header section was read and that has no flow. -/
def Awaiting (m : TcpEgress) (key : StreamKey) : Prop :=
  ∃ st, m.streams key = some st ∧ st.role = .connectTcp ∧ st.slot = none ∧ st.headersRead = true

theorem EgressInv.startConnect (h : EgressInv doomed m) (hkey : Awaiting m key) (req : TcpRequest)
    (host : List UInt8) (port : ℕ) (username : List UInt8) (env : ConnectEnv) :
    EgressInv doomed (m.startConnect key req host port username env) := by
  unfold TcpEgress.startConnect
  split
  · exact h.respond key 503
  split
  · exact ⟨h.table.congr rfl rfl rfl rfl rfl rfl rfl rfl, h.settled⟩
  next hbudget =>
  split
  · exact ⟨h.table.congr rfl rfl rfl rfl rfl rfl rfl rfl, h.settled⟩
  next hfull =>
  split
  · exact h.respond key 500
  next fd _ =>
  split
  · exact h.respond key 500
  next hfd =>
  split
  · exact h.respond key 500
  split
  · exact h.respond key 500
  split
  · exact h.respond key 500
  obtain ⟨st, hst, hrole, hslot, hread⟩ := hkey
  have hfresh := newFlow_settled m key fd username env.now
  have htable : TableInv (m.insertFlow (m.newFlow key fd username env.now)) := by
    refine h.table.insertFlow hst hrole hslot hread rfl ?_ (by omega) (Bool.not_eq_true _ ▸ hfull)
    intro g hg heq
    simp only [any_eq_true, beq_iff_eq, not_exists, not_and] at hfd
    exact hfd g hg heq
  apply EgressInv.finishConnect
  · refine ⟨htable.congr rfl rfl rfl rfl rfl rfl rfl rfl, fun g hg hdoomed => ?_⟩
    rcases mem_cons.mp hg with rfl | hg
    · exact hfresh
    · exact h.settled g hg hdoomed
  · exact mem_cons_self
  · exact hfresh
  · rfl

theorem EgressInv.onRequest (h : EgressInv doomed m) (hkey : Awaiting m key) (req : TcpRequest)
    (env : ConnectEnv) : EgressInv doomed (m.onRequest key req env) := by
  have htarget (username : List UInt8) : EgressInv doomed (m.onTarget key req username env) := by
    unfold TcpEgress.onTarget
    split
    · exact h.respond key 400
    · split
      · exact h.respond key 403
      · exact h.startConnect hkey req _ _ username env
  unfold TcpEgress.onRequest
  split
  · split
    · exact h.respond key 403
    · exact htarget _
  · exact htarget _

/-- A stream without a flow gets another state without a flow. -/
theorem TableInv.setStream (h : TableInv m) {st st' : TcpStream} (hst : m.streams key = some st)
    (hslot : st.slot = none) (hslot' : st'.slot = none) :
    TableInv (m.setStream key (some st')) := by
  have hfree := h.stream_free (streamFlow_of_slot_none hst hslot)
  refine h.setFree hfree (fun st₀ hst₀ => ?_) (fun id c hc => ⟨c, hc, rfl⟩) (fun k st₀ hst₀ => ?_)
  · cases hst₀
    exact hslot'
  · by_cases hk : k = key
    · exact h.listed k st (hk ▸ hst)
    · rw [update_of_ne hk] at hst₀
      exact h.listed k st₀ hst₀

theorem EgressInv.requestRead (h : EgressInv doomed m) (key : StreamKey) (req : TcpRequest)
    (env : ConnectEnv) : EgressInv doomed (m.requestRead key req env) := by
  unfold TcpEgress.requestRead
  split
  · exact h
  next st hst =>
  split
  · exact h
  next hunread =>
  have hslot : st.slot = none := by
    by_contra hne
    exact hunread (h.table.read key st hst (Option.isSome_iff_ne_none.mpr hne))
  have hset (st' : TcpStream) (hslot' : st'.slot = none) :
      EgressInv doomed (m.setStream key (some st')) :=
    ⟨h.table.setStream hst hslot hslot', h.settled⟩
  split
  · exact hset _ hslot
  split
  · exact (hset { st with headersRead := true, role := .connectTcp } hslot).onRequest
      ⟨_, update_self .., rfl, hslot, rfl⟩ req env
  · exact hset _ hslot

/-! ### Connections and streams -/

/-- A change of a connection that leaves its count alone and forgets no open stream. -/
theorem TableInv.setConn (h : TableInv m) (id : ConnId) (c' : Option ConnSide)
    (hcount : ∀ c, c' = some c → c.tcpFlowCount = m.flowsOf id ∧
      m.flowsOf id ≤ m.cfg.tcpMaxFlows.toNat)
    (hlisted : ∀ key st, m.streams key = some st → key.1 = id →
      ∃ c, c' = some c ∧ key.2 ∈ c.streams) : TableInv (m.setConn id c') := by
  have hconns : (m.setConn id c').conns = update m.conns id c' := rfl
  refine ⟨h.global, h.within, h.fits, ?_, h.slot, h.ref, h.read, ?_, h.ledger, h.fds⟩
  · intro id' c hc
    rw [hconns] at hc
    obtain ⟨rfl, hv⟩ | ⟨-, hold⟩ := Slots.of_update hc
    · exact hcount c hv
    · exact h.perConn id' c hold
  · intro key st hst
    rw [hconns]
    by_cases hid : key.1 = id
    · rw [hid, update_self]
      exact hlisted key st hst hid
    · rw [update_of_ne hid]
      exact h.listed key st hst

/-- A connection that is not there has no flow. -/
theorem TableInv.flowsOf_eq_zero (h : TableInv m) {id : ConnId}
    (hnone : ∀ key st, m.streams key = some st → key.1 ≠ id) : m.flowsOf id = 0 := by
  rw [flowsOf, countP_eq_zero]
  intro r hr
  obtain ⟨st, hst, -⟩ := h.slot r hr
  simpa using hnone r.stream st hst

theorem TableInv.newStream (h : TableInv m) (hnone : m.streams key = none) {c : ConnSide}
    (hc : m.conns key.1 = some c) :
    TableInv ((m.setStream key (some {})).setConn key.1
      (some { c with streams := key.2 :: c.streams })) := by
  have hfree : ∀ r ∈ m.rows, r.stream ≠ key := by
    rintro r hr rfl
    obtain ⟨st, hst, -⟩ := h.slot r hr
    rw [hnone] at hst
    cases hst
  refine h.setFree hfree (fun st hst => ?_) (fun id c' hc' => ?_) (fun k st hst => ?_)
  · cases hst
    rfl
  · obtain ⟨rfl, hv⟩ | ⟨-, hold⟩ := Slots.of_update hc'
    · cases hv
      exact ⟨c, hc, rfl⟩
    · exact ⟨c', hold, rfl⟩
  · by_cases hk : k = key
    · rw [hk, update_self]
      exact ⟨_, rfl, mem_cons_self⟩
    · rw [update_of_ne hk] at hst
      obtain ⟨c', hc', hin⟩ := h.listed k st hst
      by_cases hid : k.1 = key.1
      · rw [hid, update_self]
        rw [hid, hc] at hc'
        cases hc'
        exact ⟨_, rfl, mem_cons_of_mem _ hin⟩
      · rw [update_of_ne hid]
        exact ⟨c', hc', hin⟩

theorem EgressInv.requestCreate (h : EgressInv doomed m) (key : StreamKey) (allocOk : Bool) :
    EgressInv doomed (m.requestCreate key allocOk) := by
  unfold TcpEgress.requestCreate
  split
  · exact h
  next c hc =>
  split
  · exact h
  next hfresh =>
  have hnone : m.streams key = none := by
    by_contra hne
    obtain ⟨st, hst⟩ := Option.ne_none_iff_exists'.mp hne
    obtain ⟨c', hc', hin⟩ := h.table.listed key st hst
    rw [hc] at hc'
    cases hc'
    simp [hin] at hfresh
  exact ⟨h.table.newStream hnone hc, h.settled⟩

/-- **A callback of the engine keeps the invariant**, whatever flows are given up around it. -/
theorem engineStep_inv (h : EgressInv doomed m) (op : EngineOp) :
    EgressInv doomed (m.engineStep op) := by
  cases op with
  | connOpen id =>
    rw [engineStep]
    split
    · exact h
    · next hnew =>
      have hnone : m.conns id = none := by simpa using hnew
      have hno : ∀ key st, m.streams key = some st → key.1 ≠ id := by
        rintro key st hst rfl
        obtain ⟨c, hc, -⟩ := h.table.listed key st hst
        rw [hnone] at hc
        cases hc
      refine ⟨h.table.setConn id _ ?_ fun key st hst hid => absurd hid (hno key st hst), h.settled⟩
      rintro c hc
      cases hc
      rw [h.table.flowsOf_eq_zero hno]
      exact ⟨rfl, Nat.zero_le _⟩
  | connClose id =>
    rw [engineStep]
    split
    · exact h
    · next c hc =>
      split
      · next hempty =>
        refine ⟨h.table.setConn id none (fun c hc => by cases hc) ?_, h.settled⟩
        rintro key st hst rfl
        obtain ⟨c', hc', hin⟩ := h.table.listed key st hst
        rw [hc] at hc'
        cases hc'
        rw [hempty] at hin
        cases hin
      · exact h
  | requestCreate key allocOk => exact h.requestCreate key allocOk
  | request key req env => exact h.requestRead key req env
  | body key env closeSync | writable key env closeSync => exact h.streamEvent key _ closeSync
  | closing key => exact h.destroyOf key .reset
  | requestClose key => exact h.requestClose key

/-! ### Calls from the event loop -/

theorem EgressInv.settleLoop (h : EgressInv [] m) (hf : f ∈ m.flows) (ev : FlowEvent)
    (flush : List EngineOp) (closeSync : Bool) :
    EgressInv [] (m.settleLoop (relay f ev) flush closeSync) := by
  have hident := relay_ident f ev
  have hserial : (relay f ev).flow.serial = f.serial := congrArg FlowId.serial hident
  rw [TcpEgress.settleLoop]
  split
  · -- the flow is given up: the flush runs with it still on the list
    have hflush := Run.exec_inv engineStep (P := EgressInv [f.serial])
      (fun m op hm => engineStep_inv hm op) flush _ (h.setFlow hf hident)
    rw [hserial]
    dsimp only
    split
    · next hgone =>
      refine ⟨hflush.table, fun g hg _ => hflush.settled g hg ?_⟩
      rw [mem_singleton]
      exact Keyed.find_eq_none_iff.mp hgone g hg
    · next g hfound =>
      obtain ⟨hg, hgserial⟩ := Keyed.find_eq_some hfound
      exact EgressInv.abort (hgserial ▸ hflush) (mem_rows hg) _ _
  · next hlive => exact h.setFlow_relay hf ev (by simpa using hlive)

theorem EgressInv.fdReady (h : EgressInv [] m) (serial : ℕ) (env : FdReadyEnv) :
    EgressInv [] (m.fdReady serial env) := by
  unfold TcpEgress.fdReady
  split
  · exact h
  next f hfound =>
  obtain ⟨hf, -⟩ := Keyed.find_eq_some hfound
  split
  · split
    · exact h.failConnect (mem_rows hf) _
    · exact h.settleLoop hf _ _ _
  · exact h.settleLoop hf _ _ _

/-- A sweep over the flows: each of them is dealt with while it is on the list. -/
theorem EgressInv.sweep {g : TcpEgress → Flow → TcpEgress}
    (hinv : ∀ m f, EgressInv [] m → f ∈ m.flows → EgressInv [] (g m f))
    (hkeep : ∀ m f f', f' ∈ m.flows → f'.serial ≠ f.serial → f' ∈ (g m f).flows) :
    ∀ (l : List Flow) (m : TcpEgress), EgressInv [] m → (l.map Flow.serial).Nodup →
      (∀ f ∈ l, f ∈ m.flows) → EgressInv [] (l.foldl g m) := by
  intro l
  induction l with
  | nil => exact fun m h _ _ => h
  | cons f l ih =>
    intro m h hnodup hall
    rw [map_cons, nodup_cons] at hnodup
    refine ih (g m f) (hinv m f h (hall f mem_cons_self)) hnodup.2 fun f' hf' => ?_
    refine hkeep m f f' (hall f' (mem_cons_of_mem _ hf')) fun heq => hnodup.1 ?_
    exact mem_map.mpr ⟨f', hf', heq⟩

theorem mem_flowDestroy (hf' : f' ∈ m.flows) (hne : f'.serial ≠ f.serial) (why : EndReason) :
    f' ∈ (m.flowDestroy f why).flows := by
  rw [flowDestroy_flows]
  exact (mem_eraseP_of_neg (by simpa using hne)).mpr hf'

/-- The close of a request whose flow is gone touches no flow. -/
theorem abort_flows (m : TcpEgress) (f : Flow) (why : EndReason) (closeSync : Bool) :
    (m.abort f why closeSync).flows = (m.flowDestroy f why).flows := by
  rw [TcpEgress.abort]
  split
  · rw [TcpEgress.requestClose]
    split
    · rfl
    · next st hst =>
      have hslot : st.slot = none := by
        obtain ⟨st₀, -, ⟨-, rfl⟩ | ⟨hne, -⟩⟩ := Slots.of_update_map hst
        · rfl
        · exact absurd rfl hne
      rw [TcpEgress.destroyOf, streamFlow_of_slot_none hst hslot]
      rfl
  · rfl

theorem EgressInv.tick (h : EgressInv [] m) (now : ℕ) (closeSync : List ℕ) :
    EgressInv [] (m.tick now closeSync) := by
  refine EgressInv.sweep (fun m f h hf => ?_) (fun m f f' hf' hne => ?_) m.flows m h
    h.table.flow_serials fun f hf => hf
  · unfold tickFlow
    split
    · split
      · exact h.failConnect (mem_rows hf) _
      · exact h
    · split
      · exact (h.weaken f.serial).abort (mem_rows hf) _ _
      · exact h
  · unfold tickFlow
    split
    · split
      · exact mem_flowDestroy (m := m.respond f.stream _) hf' hne _
      · exact hf'
    · split
      · rw [abort_flows]
        exact mem_flowDestroy hf' hne _
      · exact hf'

theorem EgressInv.destroyAll (h : EgressInv [] m) : EgressInv [] m.destroyAll :=
  EgressInv.sweep (fun _ f h hf => (h.weaken f.serial).flowDestroy (mem_rows hf) _)
    (fun _ _ _ hf' hne => mem_flowDestroy hf' hne _) m.flows m h h.table.flow_serials
    fun _ hf => hf

theorem step_inv (h : EgressInv [] m) (op : EgressOp) : EgressInv [] (m.step op) := by
  cases op with
  | engine op => exact engineStep_inv h op
  | fdReady serial env => exact h.fdReady serial env
  | tick now closeSync => exact h.tick now closeSync
  | destroyAll => exact h.destroyAll
  | addUser | removeUser =>
    exact ⟨h.table.congr rfl rfl rfl rfl rfl rfl rfl rfl, h.settled⟩

/-! ### Runs -/

theorem svrComputeEgressFdBudget_bounds (configuredMax : UInt32) (rlimit : Option ℕ) :
    0 ≤ svrComputeEgressFdBudget configuredMax rlimit ∧
      svrComputeEgressFdBudget configuredMax rlimit ≤ intMax := by
  have hmax : (0 : ℤ) ≤ intMax := by decide
  unfold svrComputeEgressFdBudget
  cases rlimit with
  | none => dsimp only; split <;> omega
  | some limit => dsimp only; repeat' split
                  all_goals omega

variable (cfg : EgressConfig)

theorem fdBudget_bounds : 0 ≤ cfg.fdBudget ∧ cfg.fdBudget ≤ intMax := by
  have hmax : (0 : ℤ) ≤ intMax := by decide
  have htcp := svrComputeEgressFdBudget_bounds cfg.tcpMaxGlobalFlows cfg.rlimit
  unfold EgressConfig.fdBudget
  cases cfg.proxyMaxConnections with
  | none => exact htcp
  | some proxyMax =>
    dsimp only
    generalize htotal : svrComputeEgressFdBudget (UInt32.ofNat _) cfg.rlimit = total
    have hbounds := svrComputeEgressFdBudget_bounds (UInt32.ofNat (min (proxyMax.toNat * 2 +
      if cfg.hybridEnabled then cfg.tcpMaxGlobalFlows.toNat else 0) (2 ^ 32 - 1))) cfg.rlimit
    rw [htotal] at hbounds
    repeat' split
    all_goals omega

theorem new_inv : EgressInv [] (new cfg) := by
  obtain ⟨hlow, hhigh⟩ := fdBudget_bounds cfg
  exact ⟨⟨rfl, hlow, hhigh, nofun, nofun, nofun, nofun, nofun, List.Perm.refl _, nodup_nil⟩,
    nofun⟩

/-- **The invariant holds after every run.** -/
theorem run_inv (ops : List EgressOp) : EgressInv [] (run cfg ops) :=
  Run.exec_inv step (P := EgressInv []) (fun _ op h => step_inv h op) ops _ (new_inv cfg)

end TcpEgress

end Mqvpn.Egress
