import Mqvpn.Reorder.Timing
import Mqvpn.Reorder.TxContract

/-!
# Two incarnations never meet

A send flow that is evicted and created again starts over at number zero, while the
receiver may still have the state of the old one.  Here a sender and a receiver share a
clock and are joined by a network that may lose, duplicate, reorder and delay
datagrams.  If a datagram is delayed by at most `D`, the receiver is ticked at least
every `T`, and the idle timeout of the sender is longer than that of the receiver by
enough, the receiver has forgotten an incarnation before anything of the next one
arrives.

Of the old incarnation the last datagram arrives within `D`, its flow makes no progress
after another `2 * (W + T)`, and it is evicted one idle timeout and one tick later; the
sender creates the new incarnation only after its own timeout.

## Main definitions

* `Datagram`, `Link` — a sender, a receiver and the network between them.  The network
  keeps every datagram, so that any of them can arrive any number of times or never.
* `Link.Enabled` — what the bounds on delays and ticks allow.
* `Link.built` — the datagrams the state of a receive flow was built from.

## Main results

* `SendInv.step` — incarnations of a send flow are an idle timeout apart.
* `incarnations_apart` — **a datagram never meets the state of another incarnation**.
-/

namespace Mqvpn.Reorder

open List

/-! ### The link -/

/-- How often a send flow was created. -/
def creations (k : FlowKey) (t : List TxEvent) : ℕ :=
  t.countP fun
    | .created k' _ => decide (k' = k)
    | _ => false

/-- A datagram on the network: its flow and the incarnation it belongs to, what it
carries, and the time between which and when it was sent. -/
structure Datagram where
  key : FlowKey
  inc : ℕ
  payload : Packet
  fromUs : UInt64
  toUs : UInt64
  deriving DecidableEq

/-- The number and the packet a receiver reads out of a datagram. -/
def Datagram.arrival (d : Datagram) : ℕ × Packet :=
  ((wireDecode d.payload).elim 0 fun h => h.2.2, d.payload.drop hdrLen)

/-- A sender and a receiver, and the network between them. -/
structure Link where
  tx : Tx
  rx : Rx
  net : List Datagram
  /-- The datagrams a receive flow was given since it was created. -/
  built : FlowKey → List Datagram
  txNow : UInt64
  rxNow : UInt64
  lastTick : UInt64

inductive LinkOp where
  /-- The sender is given a packet. -/
  | send (c : TxCall)
  | deliver (d : Datagram) (now : UInt64) (alloc : Alloc)
  /-- The receiver is ticked. -/
  | tick (now : UInt64)
  deriving DecidableEq

/-- The datagram a call puts on the network, if it goes out stamped. -/
def sentDatagram (tx : Tx) (c : TxCall) : Option Datagram :=
  let r := txPeek tx c.pkt c.now c.maxInner c.alloc
  match r.1.action, r.1.flow, c.sent with
  | .stamp, some key, some sent =>
      some
        { key := key
          inc := creations key r.2.trace
          payload := r.1.hdr ++ c.pkt
          fromUs := c.now
          toUs := sent }
  | _, _, _ => none

/-- The datagrams behind the flows once `d` has arrived: a flow that is created for it
starts with it. -/
def Link.builtBy (s : Link) (d : Datagram) (now : UInt64) (alloc : Alloc) (k : FlowKey) :
    List Datagram :=
  match s.rx.cfg.arrivalOf d.payload now alloc with
  | none => s.built k
  | some (key, _) =>
      if key = k then
        if (flowLookup s.rx key).isSome then s.built k ++ [d] else [d]
      else s.built k

def Link.step (s : Link) : LinkOp → Link
  | .send c =>
      { s with
        tx := s.tx.step c
        net := s.net ++ (sentDatagram s.tx c).toList
        txNow := c.sent.getD c.now }
  | .deliver d now alloc =>
      { s with
        rx := onPacket s.rx d.payload now alloc
        built := s.builtBy d now alloc
        rxNow := now }
  | .tick now => { s with rx := tick s.rx now, rxNow := now, lastTick := now }

def Link.run (s : Link) (ops : List LinkOp) : Link := Run.exec Link.step s ops

/-- The clocks do not run backwards, a datagram arrives after it was sent and at most `D`
later, and the receiver does nothing more than `T` after its last tick. -/
def Link.Enabled (D T : ℕ) (s : Link) : LinkOp → Prop
  | .send c => (s.txNow :: c.clocks).Pairwise (· ≤ ·)
  | .deliver d now _ =>
      d ∈ s.net ∧ d.fromUs ≤ now ∧ now.toNat ≤ d.toUs.toNat + D ∧
        s.rxNow ≤ now ∧ now.toNat ≤ s.lastTick.toNat + T
  | .tick now => s.rxNow ≤ now ∧ now.toNat ≤ s.lastTick.toNat + T

instance (D T : ℕ) (s : Link) : ∀ op, Decidable (s.Enabled D T op)
  | .send c => inferInstanceAs (Decidable ((s.txNow :: c.clocks).Pairwise (· ≤ ·)))
  | .deliver d now _ =>
      inferInstanceAs (Decidable (d ∈ s.net ∧ d.fromUs ≤ now ∧ now.toNat ≤ d.toUs.toNat + D ∧
        s.rxNow ≤ now ∧ now.toNat ≤ s.lastTick.toNat + T))
  | .tick now => inferInstanceAs (Decidable (s.rxNow ≤ now ∧ now.toNat ≤ s.lastTick.toNat + T))

/-- A link on which nothing has happened yet. -/
def Link.start (tx : Tx) (rx : Rx) (now : UInt64) : Link where
  tx := tx
  rx := rx
  net := []
  built := fun _ => []
  txNow := now
  rxNow := now
  lastTick := now

/-! ### What the receiver was given -/

variable {rx : Rx} {e : Engine} {f : Flow} {now : UInt64} {a : Arrival}

/-- Work on a flow that dispatches no packet. -/
def Silent (w w' : Work) : Prop :=
  w'.f.key = w.f.key ∧ ∀ k, arrivals k w'.rx.trace = arrivals k w.rx.trace

theorem elementary_silent (now : UInt64) : Elementary now Silent where
  refl := fun _ => ⟨rfl, fun _ => rfl⟩
  trans := fun h h' => ⟨h'.1.trans h.1, fun k => (h'.2 k).trans (h.2 k)⟩
  emit := fun _ hno => ⟨rfl, fun k => (arrivals_snoc k _ _).trans (hno k _)⟩
  pool := fun _ _ => ⟨rfl, fun _ => rfl⟩
  flow := fun h => ⟨h.key, fun _ => rfl⟩
  arm := fun _ => ⟨rfl, fun _ => rfl⟩

/-- A packet is given to its flow once. -/
theorem arrivals_onReordered (a : Arrival) (w : Work) (k : FlowKey) :
    arrivals k (onReordered a w).rx.trace =
      if w.f.key = k then arrivals k w.rx.trace ++ [(a.seq, a.pkt)]
      else arrivals k w.rx.trace := by
  have hsilent : Silent (dispatch a w) (onReordered a w) := (elementary_silent a.now).onReordered
  rw [hsilent.2 k]
  exact arrivals_snoc k _ _

theorem arrivals_flowDestroy (e : Engine) (f : Flow) (k : FlowKey) :
    arrivals k (flowDestroy e f).trace = arrivals k e.trace := by
  obtain ⟨-, -, -, -, -, -, es, htrace, hes⟩ := flowDestroy_frame e f
  rw [htrace, arrivals_snoc]
  show arrivals k (e.trace ++ es) = _
  rw [arrivals, foldl_append]
  refine foldl_eq_self es _ fun x hx acc => ?_
  rw [hes x hx]
  rfl

theorem arrivals_makeRoom (rx : Rx) (k : FlowKey) :
    arrivals k rx.makeRoom.trace = arrivals k rx.trace := by
  unfold Rx.makeRoom
  split
  · unfold evictLruFlow
    split
    · rfl
    · exact arrivals_flowDestroy _ _ k
  · rfl

theorem arrivals_tick (now : UInt64) (rx : Rx) (k : FlowKey) :
    arrivals k (tick rx now).trace = arrivals k rx.trace := by
  refine tick_induct (P := fun r => arrivals k r.trace = arrivals k rx.trace) rfl ?_ fun r hr => ?_
  · exact gapSweep_induct (P := fun _ e _ => arrivals k e.trace = arrivals k rx.trace)
      (fun _ _ _ _ _ h _ _ _ => h)
      (fun _ e f _ h _ => (((elementary_silent now).onGapTimeout { rx := e, f := f }).2 k).trans h)
      rfl
  · exact idleSweep_induct (P := fun _ e _ => arrivals k e.trace = arrivals k rx.trace)
      (fun _ _ _ _ _ h _ _ _ => h) (fun _ e f _ h _ => (arrivals_flowDestroy e f k).trans h) hr

/-- What a live flow was given after a packet: what it was given before, the packet if
it is its own, and only the packet if it was created for it. -/
theorem arrivals_onPacket (hwf : rx.WF) (payload : Packet) (now : UInt64) (alloc : Alloc) :
    ∀ f ∈ (onPacket rx payload now alloc).flows,
      arrivals f.key (onPacket rx payload now alloc).trace =
        match rx.cfg.arrivalOf payload now alloc with
        | none => arrivals f.key rx.trace
        | some (key, a) =>
            if key = f.key then
              if (flowLookup rx key).isSome then arrivals f.key rx.trace ++ [(a.seq, a.pkt)]
              else [(a.seq, a.pkt)]
            else arrivals f.key rx.trace := by
  intro f hf
  rcases onPacket_cases rx payload now alloc with ⟨key, a, harr, heq⟩ | ⟨hnone, heq | ⟨pkt, heq⟩⟩
  · rw [heq] at hf
    rw [heq, harr]
    simp only
    rcases toFlow_cases rx key a with ⟨g, hl, heq'⟩ | ⟨hl, heq'⟩ | ⟨hl, heq'⟩
    · obtain ⟨-, hk⟩ := hwf.flowLookup_some.mp hl
      rw [heq', hl, Option.isSome_some, if_pos rfl]
      exact (arrivals_onReordered a _ f.key).trans (by rw [show Flow.key _ = key from hk])
    · -- no flow was created: the flow is another's
      rw [heq'] at hf ⊢
      have hold := (@moves_makeRoom now False (fun _ _ => False) _ hwf).2.2 f hf
      rw [if_neg (hwf.flowLookup_none.mp hl f hold).symm]
      exact arrivals_makeRoom rx f.key
    · rw [heq', hl, Option.isSome_none, if_neg Bool.false_ne_true]
      refine (arrivals_onReordered a _ f.key).trans ?_
      show (if key = f.key then arrivals f.key (rx.makeRoom.trace ++ [.created key]) ++
        [(a.seq, a.pkt)] else arrivals f.key (rx.makeRoom.trace ++ [.created key])) = _
      rw [arrivals_snoc, arrivals_makeRoom]
      by_cases hk : key = f.key
      · rw [if_pos hk, if_pos hk, arrivalsStep, if_pos hk]
        rfl
      · rw [if_neg hk, if_neg hk, arrivalsStep, if_neg hk]
  · rw [heq, hnone]
  · rw [heq, hnone]
    exact arrivals_snoc _ _ _

/-! ### The sender -/

variable {t : UInt64} {tx : Tx} {net : List Datagram} {key : FlowKey}

theorem creations_snoc_committed (t : List TxEvent) (k key : FlowKey) (hdr : Packet)
    (now : UInt64) : creations k (t ++ [.committed key hdr now]) = creations k t := by
  simp [creations, countP_append]

/-- **What the sender at time `t` and the network know of each other.** -/
structure SendInv (t : UInt64) (tx : Tx) (net : List Datagram) : Prop where
  inv : TxInv t tx
  /-- A datagram is of the flow its packet belongs to. -/
  parsed : ∀ d ∈ net, parse5tuple (d.payload.drop hdrLen) = some d.key
  born : ∀ d ∈ net, d.inc ≤ creations d.key tx.trace
  /-- Sending is activity. -/
  active : ∀ d ∈ net, ∀ f ∈ tx.flows, f.key = d.key → d.inc = creations d.key tx.trace →
    d.toUs ≤ f.lastActivityUs
  /-- What an incarnation that is gone has sent is older than the idle timeout. -/
  gone : ∀ d ∈ net, (d.inc < creations d.key tx.trace ∨ ∀ f ∈ tx.flows, f.key ≠ d.key) →
    d.toUs.toNat + tx.cfg.egressIdleUs.toNat < t.toNat
  /-- Incarnations are an idle timeout apart. -/
  apart : ∀ d ∈ net, ∀ d' ∈ net, d.key = d'.key → d.inc < d'.inc →
    d.toUs.toNat + tx.cfg.egressIdleUs.toNat < d'.fromUs.toNat

theorem SendInv.mono (h : SendInv t tx net) (hle : t ≤ now) : SendInv now tx net :=
  { h with
    inv := h.inv.mono hle
    gone := fun d hd hgone => (h.gone d hd hgone).trans_le (UInt64.le_iff_toNat_le.mp hle) }

/-- An idle flow has been inactive for longer than the timeout. -/
theorem SendFlow.lt_of_idle {f : SendFlow} {idleUs : UInt64} (h : f.isIdle now idleUs = true) :
    f.lastActivityUs.toNat + idleUs.toNat < now.toNat := by
  rw [SendFlow.isIdle, Bool.and_eq_true, decide_eq_true_eq, decide_eq_true_eq] at h
  have hle := UInt64.le_of_lt h.1
  have hlt := UInt64.lt_iff_toNat_lt.mp h.2
  rw [UInt64.toNat_sub_of_le _ _ hle] at hlt
  omega

section
variable (h : SendInv t tx net)
include h

theorem SendInv.evict {f : SendFlow} (hf : f ∈ tx.flows)
    (hidle : f.isIdle now tx.cfg.egressIdleUs = true) (hle : t ≤ now) :
    SendInv now (tx.evict f now) net := by
  obtain ⟨hinv, -, hsub⟩ := h.inv.evict hf hidle
  have hcount : ∀ k, creations k (tx.evict f now).trace = creations k tx.trace :=
    fun k => by simp [creations, Tx.evict, countP_append]
  have hperm : tx.flows.Perm (f :: (tx.evict f now).flows) := Chained.perm_cons_erase h.inv.wf hf
  refine ⟨hinv.mono hle, h.parsed, fun d hd => ?_, fun d hd g hg hk hcur => ?_,
    fun d hd hgone => ?_, h.apart⟩
  · rw [hcount]
    exact h.born d hd
  · rw [hcount] at hcur
    exact h.active d hd g (hsub g hg) hk hcur
  · rw [hcount] at hgone
    -- the datagram is of the flow that goes, or it was gone before
    by_cases hcur : f.key = d.key ∧ d.inc = creations d.key tx.trace
    · have hact := UInt64.le_iff_toNat_le.mp (h.active d hd f hf hcur.1 hcur.2)
      have hlong := SendFlow.lt_of_idle hidle
      show d.toUs.toNat + tx.cfg.egressIdleUs.toNat < now.toNat
      omega
    · have hold : d.inc < creations d.key tx.trace ∨ ∀ g ∈ tx.flows, g.key ≠ d.key := by
        rcases hgone with hlt | hnone
        · exact Or.inl hlt
        · by_cases hk : f.key = d.key
          · exact Or.inl (lt_of_le_of_ne (h.born d hd) fun heq => hcur ⟨hk, heq⟩)
          · refine Or.inr fun g hg => ?_
            rcases mem_cons.mp (hperm.subset hg) with rfl | hg
            · exact hk
            · exact hnone g hg
      exact (h.gone d hd hold).trans_le (UInt64.le_iff_toNat_le.mp hle)

theorem SendInv.create (hnew : ∀ f ∈ tx.flows, f.key ≠ key)
    (hroom : tx.cfg.maxFlows ≠ 0 → tx.flows.length < tx.cfg.maxFlows) (hle : t ≤ now) :
    SendInv now (tx.create key now) net := by
  have hcount : ∀ k, creations k (tx.create key now).trace =
      creations k tx.trace + if key = k then 1 else 0 :=
    fun k => by simp [creations, Tx.create, countP_append, countP_cons]
  have hperm := h.inv.perm_create key now
  have ht := UInt64.le_iff_toNat_le.mp hle
  refine ⟨h.inv.create hnew hroom hle, h.parsed, fun d hd => ?_, fun d hd g hg hk hcur => ?_,
    fun d hd hgone => ?_, h.apart⟩
  · rw [hcount]
    exact Nat.le_add_right_of_le (h.born d hd)
  · rw [hcount] at hcur
    have hborn := h.born d hd
    rcases mem_cons.mp (hperm.subset hg) with rfl | hg
    · -- nothing of the new incarnation has been sent
      rw [if_pos (show key = d.key from hk)] at hcur
      omega
    · rw [if_neg fun heq => hnew g hg (hk.trans heq.symm)] at hcur
      exact h.active d hd g hg hk hcur
  · rw [hcount] at hgone
    refine (h.gone d hd ?_).trans_le ht
    by_cases hk : key = d.key
    · exact Or.inr (hk ▸ hnew)
    · rw [if_neg hk] at hgone
      exact hgone.imp_right fun hnone g hg =>
        hnone g (hperm.symm.subset (mem_cons_of_mem _ hg))

omit h in
theorem makeRoom_cases {tx' : Tx} (h : tx.makeRoom now = some tx') :
    tx' = tx ∨ ∃ f ∈ tx.flows, f.isIdle now tx.cfg.egressIdleUs = true ∧ tx' = tx.evict f now := by
  unfold Tx.makeRoom at h
  split at h
  · unfold evictOneIdle at h
    obtain ⟨f, hf, rfl⟩ := Option.map_eq_some_iff.mp h
    obtain ⟨hmem, hidle⟩ := oldestIdle_spec hf
    exact Or.inr ⟨f, hmem, hidle, rfl⟩
  · exact Or.inl (Option.some.inj h).symm

theorem SendInv.getOrCreate (hle : t ≤ now) (key : FlowKey) (alloc : Bool) :
    SendInv now (getOrCreate alloc tx key now).2 net := by
  unfold Reorder.getOrCreate
  cases hl : tableLookup tx key with
  | some f => exact h.mono hle
  | none =>
    have hnew := (Chained.lookup_eq_none h.inv.wf).mp hl
    simp only
    cases hr : tx.makeRoom now with
    | none => exact { h.mono hle with inv := { h.inv.mono hle with } }
    | some tx' =>
      obtain ⟨-, hcfg, hsub, hroom⟩ := h.inv.makeRoom hr
      have hmade : SendInv now tx' net := by
        rcases makeRoom_cases hr with rfl | ⟨f, hf, hidle, rfl⟩
        · exact h.mono hle
        · exact h.evict hf hidle hle
      cases alloc with
      | false => exact hmade
      | true =>
        rw [← hcfg] at hroom
        exact hmade.create (fun f hf => hnew f (hsub f hf)) hroom (UInt64.le_refl _)

theorem SendInv.txPeek (hle : t ≤ now) (pkt : Packet) (maxInner : ℕ) (alloc : Bool) :
    SendInv now (txPeek tx pkt now maxInner alloc).2 net := by
  unfold Reorder.txPeek
  split
  · exact h.mono hle
  · split
    · exact h.mono hle
    · next key _ =>
      have hget := h.getOrCreate hle key alloc
      generalize Reorder.getOrCreate alloc tx key now = r at hget ⊢
      obtain ⟨_ | f, tx'⟩ := r
      · exact hget
      · simp only
        split <;> exact hget

theorem SendInv.advance {f : SendFlow} (hf : f ∈ tx.flows) (hle : t ≤ now) :
    SendInv now (tx.advance f (stampHeader tx.cfg.resetMarkPackets f.nextSeq) now) net := by
  generalize hhdr : stampHeader tx.cfg.resetMarkPackets f.nextSeq = hdr
  have hinv := h.inv.advance hf hle
  rw [hhdr] at hinv
  have hcount : ∀ k, creations k (tx.advance f hdr now).trace = creations k tx.trace :=
    fun k => creations_snoc_committed _ _ _ _ _
  obtain ⟨g, hperm, hgkey, -, -, hglast⟩ := perm_advance h.inv hf hdr now
  refine ⟨hinv, h.parsed, fun d hd => ?_, fun d hd v hv hk hcur => ?_, fun d hd hgone => ?_,
    h.apart⟩
  · rw [hcount]
    exact h.born d hd
  · rw [hcount] at hcur
    rcases mem_cons.mp (hperm.subset hv) with rfl | hv
    · rw [hglast]
      exact UInt64.le_trans (h.active d hd f hf (hgkey.symm.trans hk) hcur)
        (UInt64.le_trans (h.inv.past f hf) hle)
    · exact h.active d hd v (Chained.mem_entries_erase.mp hv).1 hk hcur
  · rw [hcount] at hgone
    refine (h.gone d hd (hgone.imp_right fun hnone v hv => ?_)).trans_le
      (UInt64.le_iff_toNat_le.mp hle)
    by_cases hk : v.key = f.key
    · rw [hk, ← hgkey]
      exact hnone g (hperm.symm.subset mem_cons_self)
    · exact hnone v (hperm.symm.subset
        (mem_cons_of_mem _ (Chained.mem_entries_erase.mpr ⟨hv, hk⟩)))

/-- A datagram of a live flow is on the network. -/
theorem SendInv.sent {d : Datagram} (hparsed : parse5tuple (d.payload.drop hdrLen) = some d.key)
    (hlive : ∃ f ∈ tx.flows, f.key = d.key) (hinc : d.inc = creations d.key tx.trace)
    (hto : ∀ f ∈ tx.flows, f.key = d.key → d.toUs ≤ f.lastActivityUs)
    (hold : ∀ d' ∈ net, d'.key = d.key → d'.inc < d.inc →
      d'.toUs.toNat + tx.cfg.egressIdleUs.toNat < d.fromUs.toNat) :
    SendInv t tx (net ++ [d]) := by
  refine ⟨h.inv, forall_mem_append.mpr ⟨h.parsed, forall_mem_singleton.mpr hparsed⟩,
    forall_mem_append.mpr ⟨h.born, forall_mem_singleton.mpr hinc.le⟩,
    forall_mem_append.mpr
      ⟨h.active, forall_mem_singleton.mpr fun f hf hk _ => hto f hf hk⟩,
    forall_mem_append.mpr ⟨h.gone, forall_mem_singleton.mpr ?_⟩,
    forall_mem_append.mpr ⟨fun d' hd' => forall_mem_append.mpr
      ⟨h.apart d' hd', forall_mem_singleton.mpr (hold d' hd')⟩,
      forall_mem_singleton.mpr (forall_mem_append.mpr
        ⟨fun d' hd' hk hlt => ?_, forall_mem_singleton.mpr fun _ hlt => by omega⟩)⟩⟩
  · rintro (hlt | hnone)
    · omega
    · obtain ⟨f, hf, hk⟩ := hlive
      exact absurd hk (hnone f hf)
  · -- nothing is of a later incarnation than the live one
    have hborn := h.born d' hd'
    rw [← hk] at hborn
    omega

end

/-- A peek names the flow of the packet. -/
theorem parse5tuple_of_txPeek {pkt : Packet} {maxInner : ℕ} {alloc : Bool}
    (h : (txPeek tx pkt now maxInner alloc).1.flow = some key) : parse5tuple pkt = some key := by
  unfold txPeek at h
  split at h
  · cases h
  · split at h
    · cases h
    · next key' hkey' =>
      generalize hget : getOrCreate alloc tx key' now = r at h
      obtain ⟨_ | f, tx'⟩ := r
      · cases h
      · have hk : f.key = key' := getOrCreate_key (by rw [hget])
        simp only at h
        split at h
        · cases h
        · unfold peekFlow at h
          rw [hkey', ← hk]
          split at h <;> exact h

theorem cfg_txStep (h : TxInv t tx) {c : TxCall} (hle : t ≤ c.now) :
    (tx.step c).cfg = tx.cfg := by
  obtain ⟨-, hcfg, -⟩ := txPeek_spec h hle c.pkt c.maxInner c.alloc
  rcases txStep_cases h hle with ⟨heq, -⟩ | ⟨f, -, sent, -, -, -, heq⟩ <;> rw [heq]
  · exact hcfg
  · exact hcfg

/-- **A call of the sender keeps the incarnations apart.** -/
theorem SendInv.step (h : SendInv t tx net) {c : TxCall}
    (hclock : (t :: c.clocks).Pairwise (· ≤ ·)) :
    SendInv (c.sent.getD c.now) (tx.step c) (net ++ (sentDatagram tx c).toList) := by
  have hle : t ≤ c.now := (pairwise_cons.mp hclock).1 c.now mem_cons_self
  have hle' := le_sent hclock
  have hpeek := h.txPeek hle c.pkt c.maxInner c.alloc
  rcases txStep_cases h.inv hle with ⟨heq, hquiet⟩ | ⟨f, hf, sent, hsent, hgo, hflow, heq⟩
  · have hnone : sentDatagram tx c = none := by
      unfold sentDatagram
      simp only
      split
      · next haction _ hsent => rcases hquiet with hs | hs <;> simp_all
      · rfl
    rw [heq, hnone, Option.toList_none, append_nil]
    exact hpeek.mono hle'
  · have hparsed : parse5tuple c.pkt = some f.key := parse5tuple_of_txPeek hflow
    obtain ⟨-, hcfg, hstamp⟩ := txPeek_spec h.inv hle c.pkt c.maxInner c.alloc
    obtain ⟨f', -, -, hhdr⟩ := hstamp hgo
    have hsome : sentDatagram tx c = some
        { key := f.key
          inc := creations f.key (Reorder.txPeek tx c.pkt c.now c.maxInner c.alloc).2.trace
          payload := stampHeader tx.cfg.resetMarkPackets f'.nextSeq ++ c.pkt
          fromUs := c.now
          toUs := sent } := by
      unfold sentDatagram
      simp only
      rw [hgo, hflow, hsent, hhdr]
    rw [hsent, Option.getD_some] at hle' ⊢
    rw [heq, hsome, Option.toList_some]
    generalize Reorder.txPeek tx c.pkt c.now c.maxInner c.alloc = r at hpeek hf ⊢
    obtain ⟨peek, tx'⟩ := r
    simp only at hpeek hf ⊢
    obtain ⟨g, hperm, hgkey, -, -, hglast⟩ := perm_advance hpeek.inv hf
      (stampHeader tx'.cfg.resetMarkPackets f.nextSeq) sent
    refine (hpeek.advance hf hle').sent hparsed ⟨g, hperm.symm.subset mem_cons_self, hgkey⟩
      (creations_snoc_committed _ _ _ _ _).symm (fun v hv hk => ?_) (fun d' hd' hk hlt => ?_)
    · rcases mem_cons.mp (hperm.subset hv) with rfl | hv
      · -- the flow is active at the time of the commit
        rw [hglast]
        exact UInt64.le_refl _
      · exact absurd hk (Chained.mem_entries_erase.mp hv).2
    · -- an earlier incarnation was gone before this packet
      have hkey : d'.key = f.key := hk
      exact hpeek.gone d' hd' (Or.inl (by rw [hkey]; exact hlt))

/-! ### The receiver -/

variable {D T : ℕ} {k : FlowKey} {s : Link} {d : Datagram} {alloc : Alloc}

/-- What a datagram brings is what it carries. -/
theorem arrivalOf_datagram {cfg : Config}
    (h : cfg.arrivalOf d.payload now alloc = some (key, a)) :
    parse5tuple (d.payload.drop hdrLen) = some key ∧ d.arrival = (a.seq, a.pkt) := by
  unfold Config.arrivalOf at h
  unfold Datagram.arrival
  split at h
  · cases h
  · next type flags seq hdec =>
    simp only at h
    split at h
    · cases h
    · split at h
      · cases h
      · next key' hkey =>
        split at h
        · cases h
        · obtain ⟨rfl, rfl⟩ := Prod.mk.inj (Option.some.inj h)
          rw [hdec]
          exact ⟨hkey, rfl⟩

/-- What is known of the live flow of a key: it was given what the link says, the last of
it not long ago, and all of it of one incarnation. -/
structure BuiltFrom (D : ℕ) (ds : List Datagram) (t : List Event) (f : Flow) : Prop where
  given : arrivals f.key t = ds.map Datagram.arrival
  recent : ∃ d ∈ ds, f.lastSeenUs.toNat ≤ d.toUs.toNat + D
  one : ∀ d ∈ ds, ∀ d' ∈ ds, d.inc = d'.inc

/-- The sender's timeout is longer than all that can keep a receive flow alive. -/
def Link.InBudget (D T : ℕ) (k : FlowKey) (s : Link) : Prop :=
  s.rx.cfg.idleUs.toNat + D + 2 * (s.rx.cfg.waitUs k + T) + T < s.tx.cfg.egressIdleUs.toNat

/-- **The invariant of a link**, for the flows of one key. -/
structure LinkInv (D T : ℕ) (k : FlowKey) (s : Link) : Prop where
  budget : s.InBudget D T k
  send : SendInv s.txNow s.tx s.net
  recv : RxTimed T s.lastTick.toNat s.rxNow s.rx
  origin : ∀ d ∈ s.built k, d ∈ s.net ∧ d.key = k ∧ d.fromUs ≤ s.rxNow
  built : ∀ f ∈ s.rx.flows, f.key = k → BuiltFrom D (s.built k) s.rx.trace f

namespace LinkInv

variable (h : LinkInv D T k s)
include h

/-- **A datagram that can arrive now is of the incarnation the flow was built from.** -/
theorem same (hen : s.Enabled D T (.deliver d now alloc)) (hk : d.key = k) (hf : f ∈ s.rx.flows)
    (hfk : f.key = k) : ∀ e ∈ s.built k, e.inc = d.inc := by
  obtain ⟨hnet, hfrom, hto, hrx, htick⟩ := hen
  obtain ⟨e, he, hseen⟩ := (h.built f hf hfk).recent
  obtain ⟨henet, hek, hefrom⟩ := h.origin e he
  have hwait : f.waitUs = s.rx.cfg.waitUs k := by
    rw [Flow.waitUs, Config.waitUs, (h.recv.inv.table.resolved f hf).2, hfk]
  have halive := (h.recv.flows f hf).alive htick
  have hbudget : s.rx.cfg.idleUs.toNat + D + 2 * (f.waitUs + T) + T <
      s.tx.cfg.egressIdleUs.toNat := by
    rw [hwait]
    exact h.budget
  have hfrom' := UInt64.le_iff_toNat_le.mp hfrom
  have hrx' := UInt64.le_iff_toNat_le.mp hrx
  have hefrom' := UInt64.le_iff_toNat_le.mp hefrom
  have hinc : e.inc = d.inc := by
    rcases Nat.lt_trichotomy e.inc d.inc with hlt | heq | hgt
    · -- a later incarnation starts when the flow has gone idle
      have hapart := h.send.apart e henet d hnet (hek.trans hk.symm) hlt
      omega
    · exact heq
    · -- what is left of an earlier one has long arrived
      have hapart := h.send.apart d hnet e henet (hk.trans hek.symm) hgt
      omega
  exact fun e' he' => ((h.built f hf hfk).one e' he' e he).trans hinc

/-- The flow of an arrival is the one its datagram was sent for. -/
theorem arrival_key (hnet : d ∈ s.net)
    (harr : s.rx.cfg.arrivalOf d.payload now alloc = some (key, a)) : key = d.key := by
  have hparsed := (arrivalOf_datagram harr).1
  rw [h.send.parsed d hnet] at hparsed
  exact (Option.some.inj hparsed).symm

theorem origin_builtBy (hnet : d ∈ s.net) (hfrom : d.fromUs ≤ now) (hrx : s.rxNow ≤ now) :
    ∀ e ∈ s.builtBy d now alloc k, e ∈ s.net ∧ e.key = k ∧ e.fromUs ≤ now := by
  have hold : ∀ e ∈ s.built k, e ∈ s.net ∧ e.key = k ∧ e.fromUs ≤ now := fun e he =>
    ⟨(h.origin e he).1, (h.origin e he).2.1, UInt64.le_trans (h.origin e he).2.2 hrx⟩
  intro e he
  unfold Link.builtBy at he
  split at he
  · exact hold e he
  · next key a harr =>
    split at he
    · next hk =>
      have hd : d ∈ s.net ∧ d.key = k ∧ d.fromUs ≤ now :=
        ⟨hnet, (h.arrival_key hnet harr).symm.trans hk, hfrom⟩
      split at he
      · rcases mem_append.mp he with he | he
        · exact hold e he
        · rw [mem_singleton.mp he]
          exact hd
      · rw [mem_singleton.mp he]
        exact hd
    · exact hold e he

/-- A flow that the datagram is not for stays as it was built. -/
theorem built_other (hf : f ∈ s.rx.flows) (hfk : f.key = k)
    (hafter : f ∈ (onPacket s.rx d.payload now alloc).flows)
    (hother : ∀ key a, s.rx.cfg.arrivalOf d.payload now alloc = some (key, a) → f.key ≠ key) :
    BuiltFrom D (s.builtBy d now alloc k) (onPacket s.rx d.payload now alloc).trace f := by
  have hbuilt := h.built f hf hfk
  have hgiven := arrivals_onPacket h.recv.inv.wf d.payload now alloc f hafter
  unfold Link.builtBy
  cases harr : s.rx.cfg.arrivalOf d.payload now alloc with
  | none =>
    rw [harr] at hgiven
    exact { hbuilt with given := hgiven.trans hbuilt.given }
  | some p =>
    obtain ⟨key, a⟩ := p
    have hne : key ≠ f.key := (hother key a harr).symm
    rw [harr] at hgiven
    simp only [if_neg hne] at hgiven
    simp only [if_neg (hfk ▸ hne)]
    exact { hbuilt with given := hgiven.trans hbuilt.given }

/-- The flow a datagram is for is built from one more datagram, of the same incarnation. -/
theorem built_own (hen : s.Enabled D T (.deliver d now alloc)) {w : Work}
    (harr : s.rx.cfg.arrivalOf d.payload now alloc = some (k, a))
    (hw : w.f ∈ s.rx.flows ∧ flowLookup s.rx k = some w.f ∨
      flowLookup s.rx k = none ∧ w.f = newFlow s.rx.cfg k)
    (hwk : w.f.key = k) (hafter : (onReordered a w).f ∈ (onPacket s.rx d.payload now alloc).flows) :
    BuiltFrom D (s.builtBy d now alloc k) (onPacket s.rx d.payload now alloc).trace
      (onReordered a w).f := by
  have hdk : d.key = k := (h.arrival_key hen.1 harr).symm
  have hkey : (onReordered a w).f.key = k := (within_onReordered (a := a)).key.trans hwk
  have htiming : Timing a.now (dispatch a w) (onReordered a w) :=
    (elementary_timing a.now).onReordered
  have hseen : (onReordered a w).f.lastSeenUs.toNat ≤ d.toUs.toNat + D := by
    rw [htiming.lastSeen]
    show a.now.toNat ≤ _
    rw [(arrivalOf_spec harr).2.1]
    exact hen.2.2.1
  have hgiven := arrivals_onPacket h.recv.inv.wf d.payload now alloc _ hafter
  rw [harr, hkey] at hgiven
  unfold Link.builtBy
  rw [harr]
  simp only [if_true] at hgiven ⊢
  rcases hw with ⟨hmem, hl⟩ | ⟨hl, -⟩
  · have hold := (h.built w.f hmem hwk).given
    rw [hwk] at hold
    rw [hl] at hgiven ⊢
    simp only [Option.isSome_some, if_true] at hgiven ⊢
    refine ⟨?_, ⟨d, by simp, hseen⟩, ?_⟩
    · rw [hkey, hgiven, hold, map_append, map_singleton, (arrivalOf_datagram harr).2]
    · have hall : ∀ e ∈ s.built k ++ [d], e.inc = d.inc := by
        intro e he
        rcases mem_append.mp he with he | he
        · exact h.same hen hdk hmem hwk e he
        · rw [mem_singleton.mp he]
      exact fun e he e' he' => (hall e he).trans (hall e' he').symm
  · rw [hl] at hgiven ⊢
    simp only [Option.isSome_none, Bool.false_eq_true, if_false] at hgiven ⊢
    refine ⟨?_, ⟨d, by simp, hseen⟩, ?_⟩
    · rw [hkey, hgiven, map_singleton, (arrivalOf_datagram harr).2]
    · intro e he e' he'
      rw [mem_singleton.mp he, mem_singleton.mp he']

theorem deliver (hen : s.Enabled D T (.deliver d now alloc)) :
    LinkInv D T k (s.step (.deliver d now alloc)) := by
  have hwf := h.recv.inv.wf
  have hrx : s.rxNow ≤ now := hen.2.2.2.1
  refine ⟨?_, h.send, timed_onPacket h.recv hrx d.payload alloc,
    h.origin_builtBy hen.1 hen.2.1 hrx, fun f' hf' hfk => ?_⟩
  · obtain ⟨force, hcfg⟩ := cfg_step hwf (.onPacket d.payload now alloc)
    unfold Link.InBudget
    rw [show (s.step (.deliver d now alloc)).rx.cfg = _ from hcfg]
    exact h.budget
  · rcases onPacket_flows hwf d.payload now alloc f' hf' with
      ⟨hold, hother⟩ | ⟨key, a, w, harr, hw, rfl⟩
    · exact h.built_other hold hfk hf' hother
    · have hwkey : w.f.key = key := by
        rcases hw with ⟨-, hl⟩ | ⟨-, hnew⟩
        · exact (hwf.flowLookup_some.mp hl).2
        · rw [hnew]
          rfl
      obtain rfl : key = k :=
        ((within_onReordered (a := a)).key.trans hwkey).symm.trans hfk
      exact h.built_own hen harr hw hwkey hf'

theorem tick (hen : s.Enabled D T (.tick now)) : LinkInv D T k (s.step (.tick now)) := by
  obtain ⟨hrx, htick⟩ := hen
  have hwf := h.recv.inv.wf
  refine ⟨?_, h.send, timed_tick h.recv hrx htick, fun e he => ?_, fun f' hf' hfk => ?_⟩
  · obtain ⟨force, hcfg⟩ := cfg_step hwf (.tick now)
    unfold Link.InBudget
    rw [show (s.step (.tick now)).rx.cfg = _ from hcfg]
    exact h.budget
  · obtain ⟨hnet, hk, hfrom⟩ := h.origin e he
    exact ⟨hnet, hk, UInt64.le_trans hfrom hrx⟩
  · obtain ⟨-, f, hf, heq⟩ := tick_flows h.recv.inv h.recv.gap (h.recv.clocked.mono hrx) f' hf'
    -- a timeout is not a sign of life
    have hkeep : f'.key = f.key ∧ f'.lastSeenUs = f.lastSeenUs := by
      rcases heq with ⟨-, rfl⟩ | ⟨-, rest, e, -, rfl⟩
      · exact ⟨rfl, rfl⟩
      · exact ⟨(within_onGapTimeout now _).key, lastSeen_onGapTimeout now _⟩
    have hbuilt := h.built f hf (hkeep.1.symm.trans hfk)
    refine ⟨?_, ?_, hbuilt.one⟩
    · rw [hkeep.1]
      exact (arrivals_tick now s.rx f.key).trans hbuilt.given
    · rw [hkeep.2]
      exact hbuilt.recent

theorem sends {c : TxCall} (hen : s.Enabled D T (.send c)) : LinkInv D T k (s.step (.send c)) := by
  have hle : s.txNow ≤ c.now := (pairwise_cons.mp hen).1 c.now mem_cons_self
  refine ⟨?_, h.send.step hen, h.recv, fun e he => ?_, h.built⟩
  · unfold Link.InBudget
    rw [show (s.step (.send c)).tx.cfg = _ from cfg_txStep h.send.inv hle]
    exact h.budget
  · obtain ⟨hnet, hk⟩ := h.origin e he
    exact ⟨mem_append_left _ hnet, hk⟩

theorem step {op : LinkOp} (hen : s.Enabled D T op) : LinkInv D T k (s.step op) := by
  cases op with
  | send c => exact h.sends hen
  | deliver d now alloc => exact h.deliver hen
  | tick now => exact h.tick hen

end LinkInv

theorem linkInv_start {cfg cfg' : Config} {seed seed' : UInt64} {allocOk allocOk' : Bool}
    (htx : txNew cfg seed allocOk = some tx) (hrx : rxNew cfg' seed' allocOk' = some rx)
    (hbudget : (Link.start tx rx now).InBudget D T k) : LinkInv D T k (Link.start tx rx now) where
  budget := hbudget
  send := by
    constructor
    case inv => exact (txInv_txNew htx).mono (UInt64.le_iff_toNat_le.mpr (Nat.zero_le _))
    all_goals exact fun d hd => absurd hd not_mem_nil
  recv := rxTimed_rxNew hrx T now
  origin := fun d hd => absurd hd not_mem_nil
  built := forall_mem_rxNew hrx

/-- **Two incarnations never meet.**  Let a datagram be delayed by at most `D`, the
receiver be ticked at least every `T`, `W` be the wait of the flow, and
`ingress_idle + D + 2 * (W + T) + T < egress_idle`.  Then in every run, whatever is lost,
duplicated or reordered, a datagram that arrives finds a flow, if any, that was given
datagrams of its own incarnation only; it is never late or far ahead against state that
another incarnation left behind. -/
theorem incarnations_apart {cfg cfg' : Config} {seed seed' : UInt64} {allocOk allocOk' : Bool}
    (htx : txNew cfg seed allocOk = some tx) (hrx : rxNew cfg' seed' allocOk' = some rx)
    (D T : ℕ) (start : UInt64) (ops : List LinkOp)
    (hrun : Run.Along Link.step (Link.Enabled D T) (Link.start tx rx start) ops)
    (hen : ((Link.start tx rx start).run ops).Enabled D T (.deliver d now alloc))
    (hbudget : rx.cfg.idleUs.toNat + D + 2 * (rx.cfg.waitUs d.key + T) + T <
      tx.cfg.egressIdleUs.toNat)
    (hf : f ∈ ((Link.start tx rx start).run ops).rx.flows) (hfk : f.key = d.key) :
    arrivals d.key ((Link.start tx rx start).run ops).rx.trace =
        (((Link.start tx rx start).run ops).built d.key).map Datagram.arrival ∧
      ∀ e ∈ ((Link.start tx rx start).run ops).built d.key, e.inc = d.inc := by
  have hinv := Run.along_inv Link.step (P := LinkInv D T d.key)
    (fun s op hs hop => hs.step hop) ops _ (linkInv_start htx hrx hbudget) hrun
  have hgiven := (hinv.built f hf hfk).given
  rw [hfk] at hgiven
  exact ⟨hgiven, hinv.same hen rfl hf hfk⟩

/-- One flow at a time, kept for ten seconds by the sender and for one by the receiver. -/
def oneFlow : Config :=
  { sampleConfig with maxFlows := 1, ingressIdleTimeoutSec := 1, egressIdleTimeoutSec := 10 }

/-- The first datagram of incarnation `inc` of the flow from port 5000. -/
def firstOf (inc : ℕ) (fromUs toUs : UInt64) : Datagram where
  key := sampleKey 5000
  inc := inc
  payload := stampHeader oneFlow.resetMarkPackets 0 ++ sampleInner 5000 1
  fromUs := fromUs
  toUs := toUs

def allocated : Alloc := { flow := true, copy := true, slots := true }

/-- The flow from port 5000 makes room for another one and comes back; the receiver is
ticked every two seconds. -/
def comeback : List LinkOp :=
  [.send (sampleCall 5000 1000 (some 1001)), .deliver (firstOf 1 1000 1001) 2000 allocated] ++
    [2000000, 4000000, 6000000, 8000000, 10000000].map LinkOp.tick ++
    [.send (sampleCall 6000 11000000 (some 11000001))] ++
    [12000000, 14000000, 16000000, 18000000, 20000000, 22000000].map LinkOp.tick ++
    [.send (sampleCall 5000 22000000 (some 22000001)),
      .deliver (firstOf 2 22000000 22000001) 22000100 allocated]

/-- The second incarnation arrives twice. -/
theorem incarnations_apart_comeback :
    let l := (Link.start (Tx.initial oneFlow 1 16) (Rx.initial oneFlow 1) 0).run comeback
    ∃ f ∈ l.rx.flows, f.key = sampleKey 5000 ∧ creations (sampleKey 5000) l.tx.trace = 2 ∧
      ∀ e ∈ l.built (sampleKey 5000), e.inc = 2 := by
  intro l
  have hlive : ∃ f ∈ l.rx.flows, f.key = sampleKey 5000 := by decide +kernel
  obtain ⟨f, hf, hfk⟩ := hlive
  refine ⟨f, hf, hfk, by decide +kernel, ?_⟩
  exact (@incarnations_apart (Rx.initial oneFlow 1) f 22000200 (Tx.initial oneFlow 1 16)
    (firstOf 2 22000000 22000001) allocated oneFlow oneFlow 1 1 true true rfl
    (rxNew_of_validate (by decide) 1) 100000 2000000 0 comeback (by decide +kernel)
    (by decide +kernel) (by decide +kernel) hf hfk).2

end Mqvpn.Reorder
