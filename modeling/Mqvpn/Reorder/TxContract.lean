import Mqvpn.Reorder.Contract
import Mqvpn.Reorder.Tx

/-!
# What the sending side promises

Between two creations of the same key lies one incarnation of a send flow.  The
headers that go out for it are numbered from zero without a gap, whatever is peeked
at for other flows, evicted or created in between and however many sends fail; and a
flow is evicted only after the idle timeout without activity.

## Main definitions

* `Incarnation`, `incarnation` — the headers and the times of activity of a flow since
  it was created.
* `stampHeader` — the header of the `i`-th datagram of an incarnation.
* `TxBoundary` — what holds of the sender between two calls.

## Main results

* `txPeek_flows` — **a peek leaves every flow as it is**.
* `tx_boundary_run` — **what holds of the sender after every run**.
-/

namespace Mqvpn.Reorder

open List

/-! ### Incarnations -/

/-- What happened to a send flow since it was created. -/
structure Incarnation where
  headers : List Packet := []
  activity : List UInt64 := []
  deriving DecidableEq

/-- Follow the incarnation of flow `k`. -/
def incarnationStep (k : FlowKey) (c : Incarnation) : TxEvent → Incarnation
  | .created k' now => if k' = k then { activity := [now] } else c
  | .committed k' hdr now =>
      if k' = k then { headers := c.headers ++ [hdr], activity := c.activity ++ [now] } else c
  | .evicted _ _ => c

def incarnation (k : FlowKey) (t : List TxEvent) : Incarnation := t.foldl (incarnationStep k) {}

theorem incarnation_snoc (k : FlowKey) (t : List TxEvent) (e : TxEvent) :
    incarnation k (t ++ [e]) = incarnationStep k (incarnation k t) e := by
  rw [incarnation, foldl_append]
  rfl

/-- The header of datagram `i` of an incarnation: the first `marks` carry the reset
flag. -/
def stampHeader (marks i : ℕ) : Packet :=
  wireEncode typeV1 (if i < marks then flagReset else 0) i

/-- What the receiver reads out of it: the wire carries 48 bits of the number. -/
theorem wireDecode_stampHeader (marks i : ℕ) :
    wireDecode (stampHeader marks i) =
      some (typeV1, if i < marks then flagReset else 0, i % 2 ^ 48) := by
  have h := wireDecode_wireEncode typeV1 (if i < marks then flagReset else 0) i []
  rwa [append_nil] at h

/-- The headers are those of the datagrams `0, 1, 2, …`. -/
def Numbered (marks : ℕ) (headers : List Packet) : Prop :=
  headers = (List.range headers.length).map (stampHeader marks)

theorem Numbered.snoc {marks : ℕ} {headers : List Packet} (h : Numbered marks headers) :
    Numbered marks (headers ++ [stampHeader marks headers.length]) := by
  unfold Numbered at h ⊢
  rw [length_append, length_singleton, range_succ, map_append, ← h]
  rfl

theorem Numbered.map_wireDecode {marks : ℕ} {headers : List Packet} (h : Numbered marks headers) :
    headers.map wireDecode = (List.range headers.length).map fun i =>
      some (typeV1, if i < marks then flagReset else 0, i % 2 ^ 48) := by
  calc headers.map wireDecode
      = ((range headers.length).map (stampHeader marks)).map wireDecode := congrArg _ h
    _ = _ := by
      rw [map_map]
      exact map_congr_left fun i _ => wireDecode_stampHeader marks i

/-- Every eviction of the trace came after more than `idleUs` without activity. -/
def EvictsIdle (idleUs : UInt64) (t : List TxEvent) : Prop :=
  ∀ pre post k now, t = pre ++ .evicted k now :: post →
    ∀ c ∈ (incarnation k pre).activity, c < now ∧ idleUs < now - c

theorem EvictsIdle.snoc {idleUs : UInt64} {t : List TxEvent} (h : EvictsIdle idleUs t) {e : TxEvent}
    (he : ∀ k now, e = .evicted k now →
      ∀ c ∈ (incarnation k t).activity, c < now ∧ idleUs < now - c) :
    EvictsIdle idleUs (t ++ [e]) := by
  intro pre post k now hsplit c hc
  rcases eq_nil_or_concat post with rfl | ⟨post', e', rfl⟩
  · obtain ⟨rfl, hlast⟩ := append_inj' hsplit rfl
    exact he k now (singleton_inj.mp hlast) c hc
  · rw [concat_eq_append, ← cons_append, ← append_assoc] at hsplit
    exact h pre post' k now (append_inj_left' hsplit rfl) c hc

/-! ### The invariant -/

/-- **The invariant of the sender**; no activity is later than `t`. -/
structure TxInv (t : UInt64) (tx : Tx) : Prop where
  wf : Chained.WF SendFlow.key (txBucketOf tx.nBuckets tx.hashSeed) tx.buckets
  nFlows : tx.nFlows = tx.flows.length
  bounded : tx.cfg.maxFlows ≠ 0 → tx.flows.length ≤ tx.cfg.maxFlows
  numbered : ∀ k, Numbered tx.cfg.resetMarkPackets (incarnation k tx.trace).headers
  /-- A live flow is at the number of datagrams that went out. -/
  next : ∀ f ∈ tx.flows, f.nextSeq = (incarnation f.key tx.trace).headers.length
  marks : ∀ f ∈ tx.flows, f.resetMarksLeft = tx.cfg.resetMarkPackets - f.nextSeq
  active : ∀ f ∈ tx.flows, ∀ c ∈ (incarnation f.key tx.trace).activity, c ≤ f.lastActivityUs
  past : ∀ f ∈ tx.flows, f.lastActivityUs ≤ t
  evictsIdle : EvictsIdle tx.cfg.egressIdleUs tx.trace

variable {t now : UInt64} {tx : Tx} {f : SendFlow} {key : FlowKey}

theorem TxInv.mono (h : TxInv t tx) (hle : t ≤ now) : TxInv now tx :=
  { h with past := fun f hf => UInt64.le_trans (h.past f hf) hle }

theorem pickBuckets_pos (maxFlows : ℕ) : 0 < pickBuckets maxFlows := by
  refine Loop.run_inv (P := fun n => 0 < n) (fun n n' hn hs => ?_) 16 16 (by decide)
  unfold pickStep at hs
  split at hs
  · obtain rfl := Option.some.inj hs
    rw [Nat.shiftLeft_eq]
    omega
  · cases hs

theorem txInv_initial (cfg : Config) (hashSeed : UInt64) {n : ℕ} (hn : 0 < n) :
    TxInv 0 (Tx.initial cfg hashSeed n) := by
  have hflows : (Tx.initial cfg hashSeed n).flows = [] := Chained.entries_replicate_nil n
  have hempty : ∀ f, f ∉ (Tx.initial cfg hashSeed n).flows := by simp [hflows]
  refine ⟨Chained.wf_replicate_nil fun k => ?_, ?_, fun _ => ?_, fun k => rfl,
    fun f hf => absurd hf (hempty f), fun f hf => absurd hf (hempty f),
    fun f hf => absurd hf (hempty f), fun f hf => absurd hf (hempty f), ?_⟩
  · exact Nat.lt_of_le_of_lt Nat.and_le_right (Nat.sub_lt hn Nat.one_pos)
  · rw [hflows]
    rfl
  · rw [hflows]
    exact Nat.zero_le _
  · intro pre post k now hsplit
    exact absurd hsplit.symm (by simp [Tx.initial])

theorem txInv_txNew {cfg : Config} {seed : UInt64} {allocOk : Bool}
    (h : txNew cfg seed allocOk = some tx) : TxInv 0 tx := by
  unfold txNew at h
  split at h
  · cases h
  · obtain rfl := Option.some.inj h
    exact txInv_initial _ _ (pickBuckets_pos _)

/-! ### Eviction -/

theorem oldestStep_cases (now idleUs : UInt64) (acc : Option SendFlow) (v : SendFlow) :
    oldestStep now idleUs acc v = acc ∨
      oldestStep now idleUs acc v = some v ∧ v.isIdle now idleUs = true := by
  unfold oldestStep
  by_cases hv : v.isIdle now idleUs
  · rw [if_pos hv]
    cases acc with
    | none => exact Or.inr ⟨rfl, hv⟩
    | some oldest =>
      by_cases hlt : v.lastActivityUs < oldest.lastActivityUs
      · exact Or.inr ⟨if_pos hlt, hv⟩
      · exact Or.inl (if_neg hlt)
  · exact Or.inl (if_neg hv)

/-- The victim of the search is an idle flow of the table. -/
theorem oldestIdle_spec {idleUs : UInt64} {flows : List SendFlow}
    (h : oldestIdle now idleUs flows = some f) : f ∈ flows ∧ f.isIdle now idleUs = true := by
  -- over every accumulator: what comes out was put in or met on the way
  have hfold : ∀ (l : List SendFlow) (acc : Option SendFlow),
      l.foldl (oldestStep now idleUs) acc = some f →
      acc = some f ∨ f ∈ l ∧ f.isIdle now idleUs = true := by
    intro l
    induction l with
    | nil => exact fun acc hacc => Or.inl hacc
    | cons v l ih =>
      intro acc hacc
      rcases ih _ hacc with hstep | ⟨hmem, hidle⟩
      · rcases oldestStep_cases now idleUs acc v with hkeep | ⟨hnew, hidle⟩
        · exact Or.inl (hkeep ▸ hstep)
        · obtain rfl := Option.some.inj (hnew ▸ hstep)
          exact Or.inr ⟨mem_cons_self, hidle⟩
      · exact Or.inr ⟨mem_cons_of_mem _ hmem, hidle⟩
  rcases hfold flows none h with hnone | hmem
  · cases hnone
  · exact hmem

/-- Evicting an idle flow: the others stay, and everything known of the evicted one was
long ago. -/
theorem TxInv.evict (h : TxInv t tx) (hf : f ∈ tx.flows)
    (hidle : f.isIdle now tx.cfg.egressIdleUs = true) :
    TxInv t (tx.evict f now) ∧ (tx.evict f now).flows.length + 1 = tx.flows.length ∧
      ∀ g ∈ (tx.evict f now).flows, g ∈ tx.flows := by
  have hperm : tx.flows.Perm (f :: (tx.evict f now).flows) := Chained.perm_cons_erase h.wf hf
  have hlen : (tx.evict f now).flows.length + 1 = tx.flows.length := hperm.length_eq.symm
  have hsub : ∀ g ∈ (tx.evict f now).flows, g ∈ tx.flows :=
    fun g hg => hperm.symm.subset (mem_cons_of_mem _ hg)
  have hread : ∀ k, incarnation k (tx.evict f now).trace = incarnation k tx.trace :=
    fun k => incarnation_snoc _ _ _
  refine ⟨⟨Chained.wf_erase h.wf f.key, ?_, fun hmax => ?_, fun k => ?_, fun g hg => ?_,
    fun g hg => h.marks g (hsub g hg), fun g hg c hc => ?_, fun g hg => h.past g (hsub g hg), ?_⟩,
    hlen, hsub⟩
  · have := h.nFlows
    show tx.nFlows - 1 = _
    omega
  · have := h.bounded hmax
    show (tx.evict f now).flows.length ≤ tx.cfg.maxFlows
    omega
  · rw [hread]
    exact h.numbered k
  · rw [hread]
    exact h.next g (hsub g hg)
  · rw [hread] at hc
    exact h.active g (hsub g hg) c hc
  · refine h.evictsIdle.snoc fun k now' heq c hc => ?_
    -- activity lies before the last activity, and that is idle
    obtain ⟨rfl, rfl⟩ := TxEvent.evicted.inj heq
    have hle := UInt64.le_iff_toNat_le.mp (h.active f hf c hc)
    rw [SendFlow.isIdle, Bool.and_eq_true, decide_eq_true_eq, decide_eq_true_eq,
      UInt64.lt_iff_toNat_lt, UInt64.lt_iff_toNat_lt] at hidle
    have hlast : f.lastActivityUs ≤ now := UInt64.le_iff_toNat_le.mpr (by omega)
    have hpast : c ≤ now := UInt64.le_iff_toNat_le.mpr (by omega)
    rw [UInt64.toNat_sub_of_le _ _ hlast] at hidle
    rw [UInt64.lt_iff_toNat_lt, UInt64.lt_iff_toNat_lt, UInt64.toNat_sub_of_le _ _ hpast]
    omega

/-! ### Creation -/

/-- One event about the flow `g` was added, and `g` is what the table now has under its
key; the other flows stay as they are. -/
structure Touches (tx : Tx) (g : SendFlow) (e : TxEvent) (tx' : Tx) : Prop where
  cfg : tx'.cfg = tx.cfg
  trace : tx'.trace = tx.trace ++ [e]
  about : ∀ k, k ≠ g.key → ∀ c, incarnationStep k c e = c
  keeps : ∀ k now, e ≠ .evicted k now
  flows : ∀ v ∈ tx'.flows, v = g ∨ v ∈ tx.flows ∧ v.key ≠ g.key

/-- What is to be shown of a flow that an event is about. -/
structure Current (marks : ℕ) (now : UInt64) (c : Incarnation) (g : SendFlow) : Prop where
  numbered : Numbered marks c.headers
  next : g.nextSeq = c.headers.length
  marks : g.resetMarksLeft = marks - g.nextSeq
  active : ∀ t ∈ c.activity, t ≤ g.lastActivityUs
  past : g.lastActivityUs ≤ now

section
variable (h : TxInv t tx)
include h

theorem TxInv.touch (hle : t ≤ now) {g : SendFlow} {e : TxEvent} {tx' : Tx}
    (ht : Touches tx g e tx')
    (hg : Current tx.cfg.resetMarkPackets now
      (incarnationStep g.key (incarnation g.key tx.trace) e) g)
    (hwf : Chained.WF SendFlow.key (txBucketOf tx'.nBuckets tx'.hashSeed) tx'.buckets)
    (hcount : tx'.nFlows = tx'.flows.length)
    (hbounded : tx.cfg.maxFlows ≠ 0 → tx'.flows.length ≤ tx.cfg.maxFlows) : TxInv now tx' := by
  have hother : ∀ k, k ≠ g.key → incarnation k tx'.trace = incarnation k tx.trace := by
    intro k hk
    rw [ht.trace, incarnation_snoc, ht.about k hk]
  rw [← incarnation_snoc, ← ht.trace, ← ht.cfg] at hg
  rw [← ht.cfg] at hbounded
  refine ⟨hwf, hcount, hbounded, fun k => ?_, fun v hv => ?_, fun v hv => ?_, fun v hv => ?_,
    fun v hv => ?_, ?_⟩
  · by_cases hk : k = g.key
    · rw [hk]
      exact hg.numbered
    · rw [hother k hk, ht.cfg]
      exact h.numbered k
  · rcases ht.flows v hv with rfl | ⟨hv, hk⟩
    · exact hg.next
    · rw [hother _ hk]
      exact h.next v hv
  · rcases ht.flows v hv with rfl | ⟨hv, -⟩
    · exact hg.marks
    · rw [ht.cfg]
      exact h.marks v hv
  · rcases ht.flows v hv with rfl | ⟨hv, hk⟩
    · exact hg.active
    · rw [hother _ hk]
      exact h.active v hv
  · rcases ht.flows v hv with rfl | ⟨hv, -⟩
    · exact hg.past
    · exact UInt64.le_trans (h.past v hv) hle
  · rw [ht.trace, ht.cfg]
    exact h.evictsIdle.snoc fun k now' heq => absurd heq (ht.keeps k now')

theorem TxInv.perm_create (key : FlowKey) (now : UInt64) :
    (tx.create key now).flows.Perm (newSendFlow tx.cfg key now :: tx.flows) :=
  Chained.perm_insertHead (h.wf.bound key) _

theorem TxInv.create (hnew : ∀ f ∈ tx.flows, f.key ≠ key)
    (hroom : tx.cfg.maxFlows ≠ 0 → tx.flows.length < tx.cfg.maxFlows) (hle : t ≤ now) :
    TxInv now (tx.create key now) := by
  have hperm := h.perm_create key now
  have hlen : (tx.create key now).flows.length = tx.flows.length + 1 := hperm.length_eq
  have htouch : Touches tx (newSendFlow tx.cfg key now) (.created key now) (tx.create key now) :=
    { cfg := rfl
      trace := rfl
      about := fun k hk c => if_neg hk.symm
      keeps := fun k now' heq => by cases heq
      flows := by
        intro v hv
        rcases mem_cons.mp (hperm.subset hv) with hv | hv
        · exact Or.inl hv
        · exact Or.inr ⟨hv, hnew v hv⟩ }
  -- the new incarnation has one activity, its creation
  have hself : incarnationStep key (incarnation key tx.trace) (.created key now) =
      { activity := [now] } := if_pos rfl
  have hcurrent : Current tx.cfg.resetMarkPackets now { activity := [now] }
      (newSendFlow tx.cfg key now) :=
    ⟨rfl, rfl, rfl, fun c hc => (mem_singleton.mp hc) ▸ UInt64.le_refl _, UInt64.le_refl _⟩
  rw [← hself] at hcurrent
  refine h.touch hle htouch hcurrent (Chained.wf_insertHead h.wf hnew) ?_ fun hmax => ?_
  · rw [hlen, ← h.nFlows]
    rfl
  · rw [hlen]
    exact hroom hmax

/-- Making room in a full table. -/
theorem TxInv.makeRoom {tx' : Tx} (hr : tx.makeRoom now = some tx') :
    TxInv t tx' ∧ tx'.cfg = tx.cfg ∧ (∀ f ∈ tx'.flows, f ∈ tx.flows) ∧
      (tx.cfg.maxFlows ≠ 0 → tx'.flows.length < tx.cfg.maxFlows) := by
  unfold Tx.makeRoom at hr
  split at hr
  · unfold evictOneIdle at hr
    obtain ⟨f, hf, rfl⟩ := Option.map_eq_some_iff.mp hr
    obtain ⟨hmem, hidle⟩ := oldestIdle_spec hf
    obtain ⟨hinv, hlen, hsub⟩ := h.evict hmem hidle
    refine ⟨hinv, rfl, hsub, fun hmax => ?_⟩
    have := h.bounded hmax
    omega
  · next hfull =>
    obtain rfl := Option.some.inj hr
    refine ⟨h, rfl, fun f hf => hf, fun hmax => ?_⟩
    have := h.nFlows
    simp only [Tx.full, Bool.and_eq_true, decide_eq_true_eq, not_and, Nat.not_le] at hfull
    have := hfull hmax
    omega

theorem getOrCreate_spec (hle : t ≤ now) (key : FlowKey) (alloc : Bool) :
    TxInv now (getOrCreate alloc tx key now).2 ∧
      (getOrCreate alloc tx key now).2.cfg = tx.cfg ∧
      ∀ f ∈ (getOrCreate alloc tx key now).1, f ∈ (getOrCreate alloc tx key now).2.flows := by
  unfold getOrCreate
  cases hl : tableLookup tx key with
  | some f =>
    refine ⟨h.mono hle, rfl, fun g hg => ?_⟩
    obtain rfl := Option.some.inj hg
    exact ((Chained.lookup_eq_some h.wf).mp hl).1
  | none =>
    have hnew := (Chained.lookup_eq_none h.wf).mp hl
    simp only
    cases hr : tx.makeRoom now with
    | none =>
      refine ⟨{ h.mono hle with }, rfl, fun g hg => ?_⟩
      cases hg
    | some tx' =>
      -- room is made before the allocation, so an eviction stands even if that fails
      obtain ⟨hinv, hcfg, hsub, hroom⟩ := h.makeRoom hr
      rw [← hcfg] at hroom
      cases alloc with
      | false =>
        refine ⟨hinv.mono hle, hcfg, fun g hg => ?_⟩
        cases hg
      | true =>
        refine ⟨hinv.create (fun f hf => hnew f (hsub f hf)) hroom hle, hcfg, fun g hg => ?_⟩
        obtain rfl := Option.some.inj hg
        exact (hinv.perm_create key now).symm.subset mem_cons_self

omit h in
theorem getOrCreate_key {alloc : Bool}
    (h : (getOrCreate alloc tx key now).1 = some f) : f.key = key := by
  unfold getOrCreate at h
  split at h
  · next g hg =>
    cases h
    have hkey := find?_some hg
    simpa using hkey
  · split at h
    · cases h
    · split at h
      · cases h
        rfl
      · cases h

/-- A flow that is in the table before and after is the same flow; this asks nothing of
the clock. -/
theorem getOrCreate_flows (key : FlowKey) (now : UInt64) (alloc : Bool) :
    ∀ f ∈ tx.flows, ∀ f' ∈ (getOrCreate alloc tx key now).2.flows, f'.key = f.key → f' = f := by
  have hsame : ∀ f ∈ tx.flows, ∀ f' ∈ tx.flows, f'.key = f.key → f' = f :=
    fun f hf f' hf' hk => h.wf.eq_of_key_eq hf' hf hk
  unfold getOrCreate
  cases hl : tableLookup tx key with
  | some f => exact hsame
  | none =>
    have hnew := (Chained.lookup_eq_none h.wf).mp hl
    simp only
    cases hr : tx.makeRoom now with
    | none => exact hsame
    | some tx' =>
      obtain ⟨hinv, -, hsub, -⟩ := h.makeRoom hr
      cases alloc with
      | false => exact fun f hf f' hf' => hsame f hf f' (hsub f' hf')
      | true =>
        intro f hf f' hf' hk
        rcases mem_cons.mp ((hinv.perm_create key now).subset hf') with rfl | hf'
        · exact absurd hk.symm (hnew f hf)
        · exact hsame f hf f' (hsub f' hf') hk

/-! ### Peek and commit -/

theorem peekFlow_stamp (hf : f ∈ tx.flows) {len maxInner : ℕ}
    (hs : (peekFlow f len maxInner).action = .stamp) :
    (peekFlow f len maxInner).flow = some f.key ∧
      (peekFlow f len maxInner).hdr = stampHeader tx.cfg.resetMarkPackets f.nextSeq := by
  unfold peekFlow at hs ⊢
  split at hs
  · cases hs
  · next hfit =>
    rw [if_neg hfit]
    have hmarks := h.marks f hf
    refine ⟨rfl, ?_⟩
    show wireEncode typeV1 (if 0 < f.resetMarksLeft then flagReset else 0) f.nextSeq = _
    unfold stampHeader
    by_cases hlt : f.nextSeq < tx.cfg.resetMarkPackets
    · rw [if_pos hlt, if_pos (by omega)]
    · rw [if_neg hlt, if_neg (by omega)]

/-- A peek keeps the invariant, and a stamp carries the next header of its flow. -/
theorem txPeek_spec (hle : t ≤ now) (pkt : Packet) (maxInner : ℕ) (alloc : Bool) :
    TxInv now (txPeek tx pkt now maxInner alloc).2 ∧
      (txPeek tx pkt now maxInner alloc).2.cfg = tx.cfg ∧
      ((txPeek tx pkt now maxInner alloc).1.action = .stamp →
        ∃ f ∈ (txPeek tx pkt now maxInner alloc).2.flows,
          (txPeek tx pkt now maxInner alloc).1.flow = some f.key ∧
          (txPeek tx pkt now maxInner alloc).1.hdr =
            stampHeader tx.cfg.resetMarkPackets f.nextSeq) := by
  unfold txPeek
  split
  · exact ⟨h.mono hle, rfl, fun hs => by cases hs⟩
  · split
    · exact ⟨h.mono hle, rfl, fun hs => by cases hs⟩
    · next key _ =>
      obtain ⟨hinv, hcfg, hmem⟩ := getOrCreate_spec h hle key alloc
      generalize getOrCreate alloc tx key now = r at hinv hcfg hmem ⊢
      obtain ⟨o, tx'⟩ := r
      cases o with
      | none => exact ⟨hinv, hcfg, fun hs => by cases hs⟩
      | some f =>
        simp only
        split
        · exact ⟨hinv, hcfg, fun hs => by cases hs⟩
        · refine ⟨hinv, hcfg, fun hs => ⟨f, hmem f rfl, ?_⟩⟩
          have hstamp := peekFlow_stamp hinv (hmem f rfl) hs
          rw [show tx'.cfg = tx.cfg from hcfg] at hstamp
          exact hstamp

/-- **A peek leaves every flow as it is.** -/
theorem txPeek_flows (pkt : Packet) (now : UInt64) (maxInner : ℕ) (alloc : Bool) :
    ∀ f ∈ tx.flows, ∀ f' ∈ (txPeek tx pkt now maxInner alloc).2.flows, f'.key = f.key → f' = f := by
  have hsame : ∀ f ∈ tx.flows, ∀ f' ∈ tx.flows, f'.key = f.key → f' = f :=
    fun f hf f' hf' hk => h.wf.eq_of_key_eq hf' hf hk
  unfold txPeek
  split
  · exact hsame
  · split
    · exact hsame
    · next key _ =>
      have hflows := getOrCreate_flows h key now alloc
      generalize getOrCreate alloc tx key now = r at hflows ⊢
      obtain ⟨_ | f, tx'⟩ := r
      · exact hflows
      · simp only
        split <;> exact hflows

/-- The flows after a commit: the one that was advanced, and the others. -/
theorem perm_advance (hf : f ∈ tx.flows) (hdr : Packet) (now : UInt64) :
    ∃ g : SendFlow,
      (tx.advance f hdr now).flows.Perm
        (g :: Chained.entries (Chained.erase SendFlow.key f.key tx.buckets)) ∧
      g.key = f.key ∧ g.nextSeq = f.nextSeq + 1 ∧
      g.resetMarksLeft = tx.cfg.resetMarkPackets - (f.nextSeq + 1) ∧ g.lastActivityUs = now := by
  have hmarks := h.marks f hf
  refine ⟨_, Chained.perm_assign h.wf hf rfl, rfl, rfl, ?_, rfl⟩
  show (if 0 < f.resetMarksLeft then f.resetMarksLeft - 1 else f.resetMarksLeft) = _
  split <;> omega

/-- A commit advances its flow by one and leaves the others alone. -/
theorem TxInv.advance (hf : f ∈ tx.flows) (hle : t ≤ now) :
    TxInv now (tx.advance f (stampHeader tx.cfg.resetMarkPackets f.nextSeq) now) := by
  generalize hhdr : stampHeader tx.cfg.resetMarkPackets f.nextSeq = hdr
  have hnext := h.next f hf
  obtain ⟨g, hperm, hgkey, hgnext, hgmarks, hglast⟩ := perm_advance h hf hdr now
  have htouch : Touches tx g (.committed f.key hdr now) (tx.advance f hdr now) :=
    { cfg := rfl
      trace := rfl
      about := fun k hk c => if_neg (hgkey ▸ hk.symm)
      keeps := fun k now' heq => by cases heq
      flows := by
        intro v hv
        rcases mem_cons.mp (hperm.subset hv) with hv | hv
        · exact Or.inl hv
        · rw [hgkey]
          exact Or.inr (Chained.mem_entries_erase.mp hv) }
  have hcurrent : Current tx.cfg.resetMarkPackets now
      (incarnationStep g.key (incarnation g.key tx.trace) (.committed f.key hdr now)) g := by
    rw [hgkey, incarnationStep, if_pos rfl]
    refine ⟨?_, ?_, ?_, fun c hc => ?_, ?_⟩
    · rw [← hhdr, hnext]
      exact (h.numbered f.key).snoc
    · rw [hgnext, hnext, length_append, length_singleton]
    · rw [hgmarks, hgnext]
    · rw [hglast]
      rcases mem_append.mp hc with hc | hc
      · exact UInt64.le_trans (h.active f hf c hc) (UInt64.le_trans (h.past f hf) hle)
      · rw [mem_singleton.mp hc]
        exact UInt64.le_refl _
    · rw [hglast]
      exact UInt64.le_refl _
  have hlen : (tx.advance f hdr now).flows.length = tx.flows.length :=
    hperm.length_eq.trans (Chained.perm_cons_erase h.wf hf).length_eq.symm
  refine h.touch hle htouch hcurrent (Chained.wf_assign h.wf _) ?_ fun hmax => ?_
  · rw [hlen, ← h.nFlows]
    rfl
  · rw [hlen]
    exact h.bounded hmax

omit h in
/-- The commit is not made before the peek. -/
theorem le_sent {c : TxCall} (hclock : (t :: c.clocks).Pairwise (· ≤ ·)) :
    c.now ≤ c.sent.getD c.now := by
  rw [TxCall.clocks] at hclock
  cases hsent : c.sent with
  | none => exact UInt64.le_refl _
  | some sent =>
    rw [hsent] at hclock
    exact (pairwise_cons.mp (pairwise_cons.mp hclock).2).1 sent (by simp)

/-- **What a call does**: the peek, and the commit to the flow of the peek if a stamped
datagram went out. -/
theorem txStep_cases {c : TxCall} (hle : t ≤ c.now) :
    (tx.step c = (txPeek tx c.pkt c.now c.maxInner c.alloc).2 ∧
        (c.sent = none ∨ (txPeek tx c.pkt c.now c.maxInner c.alloc).1.action ≠ .stamp)) ∨
      ∃ f ∈ (txPeek tx c.pkt c.now c.maxInner c.alloc).2.flows, ∃ sent, c.sent = some sent ∧
        (txPeek tx c.pkt c.now c.maxInner c.alloc).1.action = .stamp ∧
        (txPeek tx c.pkt c.now c.maxInner c.alloc).1.flow = some f.key ∧
        tx.step c = (txPeek tx c.pkt c.now c.maxInner c.alloc).2.advance f
          (stampHeader (txPeek tx c.pkt c.now c.maxInner c.alloc).2.cfg.resetMarkPackets f.nextSeq)
          sent := by
  obtain ⟨hinv, hcfg, hstamp⟩ := txPeek_spec h hle c.pkt c.maxInner c.alloc
  unfold Tx.step
  generalize txPeek tx c.pkt c.now c.maxInner c.alloc = r at hinv hcfg hstamp ⊢
  obtain ⟨peek, tx'⟩ := r
  cases hsent : c.sent with
  | none => exact Or.inl ⟨rfl, Or.inl rfl⟩
  | some sent =>
    simp only
    by_cases hgo : peek.action = .stamp
    · obtain ⟨f, hf, hflow, hhdr⟩ := hstamp hgo
      -- the commit finds the flow the header was built from
      have hl : tableLookup tx' f.key = some f :=
        (Chained.lookup_eq_some hinv.wf).mpr ⟨hf, rfl⟩
      refine Or.inr ⟨f, hf, sent, rfl, hgo, hflow, ?_⟩
      unfold txCommit
      rw [hgo, show peek.flow = some f.key from hflow]
      simp only
      rw [hl, show peek.hdr = _ from hhdr, ← hcfg]
    · refine Or.inl ⟨?_, Or.inr hgo⟩
      unfold txCommit
      split
      · next haction _ => exact absurd haction hgo
      · rfl

/-- One call: the peek, and the commit if the datagram went out. -/
theorem TxInv.step {c : TxCall} (hclock : (t :: c.clocks).Pairwise (· ≤ ·)) :
    TxInv (c.sent.getD c.now) (tx.step c) := by
  have hle : t ≤ c.now := (pairwise_cons.mp hclock).1 c.now mem_cons_self
  have hle' : c.now ≤ c.sent.getD c.now := le_sent hclock
  obtain ⟨hinv, -, -⟩ := txPeek_spec h hle c.pkt c.maxInner c.alloc
  rcases txStep_cases h hle with ⟨heq, -⟩ | ⟨f, hf, sent, hsent, -, -, heq⟩
  · rw [heq]
    exact hinv.mono hle'
  · rw [hsent, Option.getD_some] at hle' ⊢
    rw [heq]
    exact hinv.advance hf hle'

end

theorem txInv_run : ∀ (calls : List TxCall) (tx : Tx) (t : UInt64), TxInv t tx →
    (t :: calls.flatMap TxCall.clocks).Pairwise (· ≤ ·) →
    ∃ t', TxInv t' (tx.run calls) := by
  intro calls
  induction calls with
  | nil => intro tx t h _; exact ⟨t, h⟩
  | cons c calls ih =>
    intro tx t h hclock
    rw [flatMap_cons, ← cons_append] at hclock
    obtain ⟨hfirst, hrest, hcross⟩ := pairwise_append.mp hclock
    have hinv := h.step hfirst
    -- the last clock of the call is the one the rest starts from
    have hlast : c.sent.getD c.now ∈ t :: c.clocks := by
      cases hs : c.sent <;> simp [TxCall.clocks, hs]
    exact ih (tx.step c) (c.sent.getD c.now) hinv
      (pairwise_cons.mpr ⟨fun v hv => hcross _ hlast v hv, hrest⟩)

/-! ### What the sender promises -/

/-- What holds of the sender between two calls. -/
structure TxBoundary (tx : Tx) : Prop where
  /-- The keys of the table are unique. -/
  keys : (tx.flows.map SendFlow.key).Nodup
  /-- The table is within its limit; `0` is no limit. -/
  bounded : tx.cfg.maxFlows ≠ 0 → tx.flows.length ≤ tx.cfg.maxFlows
  /-- The headers committed for an incarnation carry the numbers `0, 1, 2, …` in this
  order, and exactly the first `reset_mark_packets` of them the reset flag. -/
  numbered : ∀ k, (incarnation k tx.trace).headers.map wireDecode =
    (List.range (incarnation k tx.trace).headers.length).map fun i =>
      some (typeV1, if i < tx.cfg.resetMarkPackets then flagReset else 0, i % 2 ^ 48)
  /-- A flow is at the number of its commits. -/
  next : ∀ f ∈ tx.flows, f.nextSeq = (incarnation f.key tx.trace).headers.length ∧
    f.resetMarksLeft = tx.cfg.resetMarkPackets - f.nextSeq
  /-- A peek leaves every flow as it is. -/
  peek : ∀ pkt now maxInner alloc, ∀ f ∈ tx.flows,
    ∀ f' ∈ (txPeek tx pkt now maxInner alloc).2.flows, f'.key = f.key →
      f'.nextSeq = f.nextSeq ∧ f'.resetMarksLeft = f.resetMarksLeft
  /-- An evicted flow was inactive for longer than the idle timeout. -/
  evictsIdle : ∀ pre post k now, tx.trace = pre ++ .evicted k now :: post →
    ∀ c ∈ (incarnation k pre).activity, c < now ∧ tx.cfg.egressIdleUs < now - c

variable {cfg : Config} {seed : UInt64} {allocOk : Bool}

/-- **What holds of the sender after every run** of peeks, failed sends and commits on a
clock that does not run backwards. -/
theorem tx_boundary_run (h : txNew cfg seed allocOk = some tx) (calls : List TxCall)
    (hclock : (calls.flatMap TxCall.clocks).Pairwise (· ≤ ·)) : TxBoundary (tx.run calls) := by
  obtain ⟨t, hinv⟩ := txInv_run calls tx 0 (txInv_txNew h) (pairwise_zero_cons hclock)
  exact
    { keys := hinv.wf.nodup
      bounded := hinv.bounded
      numbered := fun k => (hinv.numbered k).map_wireDecode
      next := fun f hf => ⟨hinv.next f hf, hinv.marks f hf⟩
      peek := fun pkt now maxInner alloc f hf f' hf' hk => by
        rw [txPeek_flows hinv pkt now maxInner alloc f hf f' hf' hk]
        exact ⟨rfl, rfl⟩
      evictsIdle := hinv.evictsIdle }

/-- A packet from port `sport` that is peeked at, and sent unless the send fails. -/
def sampleCall (sport : UInt16) (now : UInt64) (sent : Option UInt64) : TxCall :=
  { pkt := sampleInner sport 1, now := now, maxInner := 1400, alloc := true, sent := sent }

/-- Two flows at most, one marked datagram each, and a second of idleness. -/
def smallTable : Config :=
  { sampleConfig with maxFlows := 2, resetMarkPackets := 1, egressIdleTimeoutSec := 1 }

/-- Two flows, a failed send between two datagrams of the first; then the second flow is
idle and makes room for a third. -/
def sampleCalls : List TxCall :=
  [sampleCall 5000 1000 (some 1001), sampleCall 6000 1002 (some 1003), sampleCall 5000 1004 none,
    sampleCall 5000 1005 (some 900000), sampleCall 7000 1500000 (some 1500001)]

theorem tx_boundary_run_evicting :
    ((Tx.initial smallTable 1 16).run sampleCalls).flows.length = 2 ∧
    (incarnation (sampleKey 5000)
      ((Tx.initial smallTable 1 16).run sampleCalls).trace).headers.length = 2 ∧
    .evicted (sampleKey 6000) 1500000 ∈ ((Tx.initial smallTable 1 16).run sampleCalls).trace ∧
    TxBoundary ((Tx.initial smallTable 1 16).run sampleCalls) :=
  ⟨by decide +kernel, by decide +kernel, by decide +kernel,
    @tx_boundary_run _ smallTable 1 true rfl sampleCalls (by decide +kernel)⟩

/-- A configured maximum of `0` is no limit: one packet is enough to exceed it. -/
theorem flows_over_zero_maximum :
    ¬ ((Tx.initial { sampleConfig with maxFlows := 0 } 1 16).run
      [sampleCall 5000 1000 none]).flows.length ≤ 0 := by decide +kernel

end Mqvpn.Reorder
