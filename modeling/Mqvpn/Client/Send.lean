import Mqvpn.Client.Sound

/-!
# Sending on a path

xquic hands over datagrams for one of its paths, one or a batch of them.  The slot that is bound to
the path sends them with its transport; while a slot is dropped but still bound, nothing is sent in
its place.  For a path that no slot is bound to, the primary slot sends, or the first one that has a
transport.  A transport answers how many datagrams of the front it has accepted, or that it accepted
none; xquic must not see a hard error as long as any slot has a transport, since it would give up
the connection.

What transports were offered and what they have accepted is recorded, with the slot.

## Main definitions

* `getPathEntryForSend`, `pathTransportSend` — the slot, and the call of its transport.
* `cbWriteSocketEx`, `cbWriteMmsgEx` — the callbacks for one datagram and for a batch.

## Main results

* `send_contract` — **what an answer to xquic says about the datagrams**.
-/

namespace Mqvpn.Cli

open List

variable {c : Client} {i : ℕ} {p : PathEntry}

/-- What sends leave behind: the counters of bytes, whether an answer of `0` was logged, the calls
of transports, and the datagrams that were accepted. -/
structure TxBooks where
  bytesTx : ℕ := 0
  pathBytesTx : ℕ → ℕ := fun _ => 0
  txZeroReturnLogged : Bool := false
  offers : List (ℕ × List (List UInt8)) := []
  wire : List (ℕ × List UInt8) := []

/-- `MQVPN_TX_WOULD_BLOCK` and `MQVPN_TX_FAILED`. -/
def txWouldBlock : ℤ := -1
def txFailed : ℤ := -2

/-- `XQC_SOCKET_ERROR` and `XQC_SOCKET_EAGAIN`: the same numbers the other way around. -/
def xqcSocketError : ℤ := -1
def xqcSocketEagain : ℤ := -2

/-- `XQC_MAX_SEND_MSG_ONCE`. -/
def xqcMaxSendMsgOnce : ℕ := 32

def firstActiveIdx (c : Client) : Option ℕ := c.paths.findIdx? (·.transportAttached)

def attachedAt (c : Client) (i : ℕ) : Bool := (c.paths[i]?).any (·.transportAttached)

def getPathEntryForSend (c : Client) (xqcPathId : ℕ) : Option ℕ :=
  match findPathByXqcId c xqcPathId with
  | some i => some i
  | none => if attachedAt c c.primaryPathIdx then some c.primaryPathIdx else firstActiveIdx c

/-- The slot for a path, if its transport is attached. -/
def sendSlot (c : Client) (xqcPathId : ℕ) : Option ℕ :=
  (getPathEntryForSend c xqcPathId).filter (attachedAt c)

def pathSendDeadRetcode (c : Client) : ℤ :=
  if (firstActiveIdx c).isSome then xqcSocketEagain else xqcSocketError

/-- Offer datagrams to the transport of slot `i`, which answers `result`. -/
def pathTransportSend (i : ℕ) (bufs : List (List UInt8)) (result : ℤ) (b : TxBooks) :
    TxBooks × ℤ :=
  let b := { b with offers := b.offers ++ [(i, bufs)] }
  if result = 0 then ({ b with txZeroReturnLogged := true }, txFailed)
  else if result < 0 then (b, if result = txWouldBlock then txWouldBlock else txFailed)
  else
    let k := min result.toNat bufs.length
    let bytes := ((bufs.take k).map List.length).sum
    ({ b with
      bytesTx := b.bytesTx + bytes
      pathBytesTx := Function.update b.pathBytesTx i (b.pathBytesTx i + bytes)
      wire := b.wire ++ (bufs.take k).map (i, ·) }, k)

/-- Send on slot `i` and translate the answer; `done` is that for accepted datagrams. -/
def handOver (c : Client) (i : ℕ) (bufs : List (List UInt8)) (result : ℤ) (done : ℤ → ℤ)
    (b : TxBooks) : TxBooks × ℤ :=
  let r := pathTransportSend i bufs result b
  (r.1, if 1 ≤ r.2 then done r.2 else if r.2 = txWouldBlock then xqcSocketEagain
    else pathSendDeadRetcode c)

/-- The answer for a datagram is its size. -/
def cbWriteSocketEx (c : Client) (pathId : ℕ) (buf : List UInt8) (result : ℤ) (b : TxBooks) :
    TxBooks × ℤ :=
  match sendSlot c pathId with
  | none => (b, pathSendDeadRetcode c)
  | some i => handOver c i [buf] result (fun _ => buf.length) b

/-- The answer for a batch is a number of datagrams. -/
def cbWriteMmsgEx (c : Client) (pathId : ℕ) (msgs : List (List UInt8)) (result : ℤ) (b : TxBooks) :
    TxBooks × ℤ :=
  match sendSlot c pathId with
  | none => (b, pathSendDeadRetcode c)
  | some i =>
    if msgs.length = 0 then (b, 0)
    else handOver c i (msgs.take xqcMaxSendMsgOnce) result id b

/-- A call of one of the callbacks. -/
inductive Send where
  | single (pathId : ℕ) (buf : List UInt8)
  | batch (pathId : ℕ) (msgs : List (List UInt8))
  deriving DecidableEq

namespace Send

def pathId : Send → ℕ
  | single pathId _ => pathId
  | batch pathId _ => pathId

def datagrams : Send → List (List UInt8)
  | single _ buf => [buf]
  | batch _ msgs => msgs

/-- The answer to xquic when `k` datagrams were accepted. -/
def answer : Send → ℕ → ℤ
  | single _ buf, _ => buf.length
  | batch _ _, k => k

/-- `result` is what the transport answers, if it is called. -/
def call (c : Client) (result : ℤ) (b : TxBooks) : Send → TxBooks × ℤ
  | single pathId buf => cbWriteSocketEx c pathId buf result b
  | batch pathId msgs => cbWriteMmsgEx c pathId msgs result b

end Send

/-! ### The slot -/

theorem sendSlot_attached {pathId : ℕ} (h : sendSlot c pathId = some i) : attachedAt c i = true :=
  (Option.filter_eq_some_iff.1 h).2

/-- A hard error tells that no slot has a transport. -/
theorem deadRetcode_error (h : pathSendDeadRetcode c = xqcSocketError) :
    ∀ p ∈ c.paths, p.transportAttached = false := by
  unfold pathSendDeadRetcode firstActiveIdx at h
  split at h
  · cases h
  · next hnone =>
    rw [Option.not_isSome_iff_eq_none, findIdx?_eq_none_iff] at hnone
    exact hnone

theorem deadRetcode_of_attached (h : attachedAt c i = true) :
    pathSendDeadRetcode c = xqcSocketEagain := by
  obtain ⟨p, hp, hatt⟩ := (Option.any_eq_true _ _).1 h
  refine if_pos (Option.isSome_iff_ne_none.2 fun hnone => ?_)
  have := findIdx?_eq_none_iff.1 hnone p (mem_of_getElem? hp)
  simp [hatt] at this

/-! ### One call -/

/-- A transport accepts `k` datagrams of the front, or none. -/
theorem pathTransportSend_cases (i : ℕ) {bufs : List (List UInt8)} (hne : bufs ≠ []) (result : ℤ)
    (b : TxBooks) :
    let r := pathTransportSend i bufs result b
    (∃ k : ℕ, 0 < k ∧ k ≤ bufs.length ∧ r.2 = k ∧ r.1.offers = b.offers ++ [(i, bufs)] ∧
      r.1.wire = b.wire ++ (bufs.take k).map (i, ·)) ∨
    r.2 = txWouldBlock ∨ r.2 = txFailed := by
  have hlen := length_pos_iff.2 hne
  unfold pathTransportSend
  dsimp only
  split_ifs
  · exact .inr (.inr rfl)
  · exact .inr (.inl rfl)
  · exact .inr (.inr rfl)
  · exact .inl ⟨_, by omega, Nat.min_le_right _ _, rfl, rfl, rfl⟩

/-- If it accepts none, xquic sees no hard error: the slot has a transport. -/
theorem handOver_cases (h : attachedAt c i = true) {bufs : List (List UInt8)} (hne : bufs ≠ [])
    (result : ℤ) (done : ℤ → ℤ) (b : TxBooks) :
    let r := handOver c i bufs result done b
    (∃ k : ℕ, 0 < k ∧ k ≤ bufs.length ∧ r.2 = done k ∧ r.1.offers = b.offers ++ [(i, bufs)] ∧
      r.1.wire = b.wire ++ (bufs.take k).map (i, ·)) ∨
    r.2 = xqcSocketEagain := by
  unfold handOver
  dsimp only
  obtain ⟨k, hk, hle, hret, hbooks⟩ | hret | hret := pathTransportSend_cases i hne result b
  · exact .inl ⟨k, hk, hle, by rw [hret]; exact if_pos (by omega), hbooks⟩
  · exact .inr (by rw [hret]; rfl)
  · exact .inr (by rw [hret]; exact deadRetcode_of_attached h)

/-- Without a slot for the path no transport is called. -/
theorem call_none {s : Send} (h : sendSlot c s.pathId = none) (result : ℤ) (b : TxBooks) :
    s.call c result b = (b, pathSendDeadRetcode c) := by
  cases s with
  | single pathId buf =>
    simp only [Send.call, cbWriteSocketEx, show sendSlot c pathId = none from h]
  | batch pathId msgs => simp only [Send.call, cbWriteMmsgEx, show sendSlot c pathId = none from h]

theorem call_some {s : Send} (h : sendSlot c s.pathId = some i) (result : ℤ) (b : TxBooks) :
    let r := s.call c result b
    (∃ k, 0 < k ∧ k ≤ s.datagrams.length ∧ r.2 = s.answer k ∧
      r.1.offers = b.offers ++ [(i, s.datagrams.take xqcMaxSendMsgOnce)] ∧
      r.1.wire = b.wire ++ (s.datagrams.take k).map (i, ·)) ∨
    r.2 = xqcSocketEagain ∨ r.2 = 0 := by
  have hatt := sendSlot_attached h
  cases s with
  | single pathId buf =>
    simp only [Send.call, cbWriteSocketEx, show sendSlot c pathId = some i from h]
    obtain hsent | heagain :=
      handOver_cases hatt (cons_ne_nil buf []) result (fun _ => buf.length) b
    · exact .inl hsent
    · exact .inr (.inl heagain)
  | batch pathId msgs =>
    simp only [Send.call, cbWriteMmsgEx, show sendSlot c pathId = some i from h]
    split
    · exact .inr (.inr rfl)
    · next hsome =>
      have hne : msgs.take xqcMaxSendMsgOnce ≠ [] := by
        rw [← length_pos_iff, length_take, xqcMaxSendMsgOnce]
        omega
      obtain ⟨k, hk, hle, hret, hoffers, hwire⟩ | heagain := handOver_cases hatt hne result id b
      · rw [length_take] at hle
        rw [take_take, Nat.min_eq_left (by omega)] at hwire
        exact .inl ⟨k, hk, Nat.le_trans hle (Nat.min_le_right _ _), hret, hoffers, hwire⟩
      · exact .inr (.inl heagain)

/-- **What an answer to xquic says about the datagrams.**  For every table of slots and every answer
of a transport: for a path whose slot was dropped no transport is called; xquic sees a hard error
only if no slot has a transport; and behind a positive answer the transport of one slot was called
once and accepted the datagrams that the answer stands for, the first ones of the call, in order. In
a client that was made and used, a lookup finds the slot that is bound to the path, so there it is
enough that a slot is bound and dropped. -/
theorem send_contract (c : Client) (s : Send) (result : ℤ) (b : TxBooks) :
    let r := s.call c result b
    (∀ i, findPathByXqcId c s.pathId = some i → attachedAt c i = false → r.1 = b) ∧
    (∀ cfg ops, c = (Client.new cfg).run ops → c.destroyed = false →
      ∀ (i : ℕ) (p : PathEntry), c.paths[i]? = some p → p.xquicPathLive = true →
        p.xqcPathId = s.pathId → p.transportAttached = false → r.1 = b) ∧
    (r.2 = xqcSocketError → ∀ p ∈ c.paths, p.transportAttached = false) ∧
    (0 < r.2 → ∃ i k, attachedAt c i = true ∧ 0 < k ∧ k ≤ s.datagrams.length ∧ r.2 = s.answer k ∧
      r.1.offers = b.offers ++ [(i, s.datagrams.take xqcMaxSendMsgOnce)] ∧
      r.1.wire = b.wire ++ (s.datagrams.take k).map (i, ·)) := by
  intro r
  have hdropped : ∀ i, findPathByXqcId c s.pathId = some i → attachedAt c i = false → r.1 = b :=
    fun i hfind hatt => congrArg Prod.fst (call_none
      (by simp [sendSlot, getPathEntryForSend, hfind, hatt]) result b)
  refine ⟨hdropped, fun cfg ops hc halive i p hp hlive hid hatt => ?_, fun herror => ?_,
    fun hpos => ?_⟩
  · subst hc
    refine hdropped i ((sound_run cfg ops halive).slots.findPathByXqcId_iff.2
      ⟨p, hp, hlive, hid⟩) ?_
    simp [attachedAt, hp, hatt]
  · cases hslot : sendSlot c s.pathId with
    | none =>
      exact deadRetcode_error ((congrArg Prod.snd (call_none hslot result b)).symm.trans herror)
    | some i =>
      obtain ⟨k, -, -, hret, -⟩ | hret | hret := call_some hslot result b <;>
        rw [show r.2 = _ from hret] at herror
      · cases s <;> simp [Send.answer, xqcSocketError] at herror
      · cases herror
      · cases herror
  · cases hslot : sendSlot c s.pathId with
    | none =>
      rw [show r.2 = _ from congrArg Prod.snd (call_none hslot result b)] at hpos
      unfold pathSendDeadRetcode at hpos
      split at hpos <;> cases hpos
    | some i =>
      obtain ⟨k, hsent⟩ | hret | hret := call_some hslot result b
      · exact ⟨i, k, sendSlot_attached hslot, hsent⟩
      · rw [show r.2 = _ from hret] at hpos
        cases hpos
      · rw [show r.2 = _ from hret] at hpos
        cases hpos

/-- A connection on two paths: after the slot of path `1` was dropped, no transport is called for
it, and the other path keeps sending. -/
theorem send_contract_dropped :
    let c := (Client.new plainConfig).run (twoPaths ++ [.pathDropped 6 2])
    findPathByXqcId c 1 = some 1 ∧ attachedAt c 1 = false ∧
      ((Send.batch 1 [[1], [2]]).call c 2 {}).1 = {} ∧
      ((Send.batch 0 [[1], [2]]).call c 2 {}).2 = 2 :=
  ⟨by decide +kernel, by decide +kernel,
    (send_contract _ (.batch 1 [[1], [2]]) 2 {}).1 1 (by decide +kernel) (by decide +kernel),
    by decide +kernel⟩

end Mqvpn.Cli
