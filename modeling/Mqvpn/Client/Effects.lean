import Mqvpn.Client.SlotTable

/-!
# What a callback can do

Nine callbacks of xquic reach the client, and most of what is shown of it is a fact about
what they may do in any order.  This module says that once.

A callback works on the slots alone, or it changes the connection in the ways of
`CliConn.Kept` and records what the tunnel saw, or it is one of three steps: the handshake
finishes, the tunnel becomes ready, the connection is gone.

## Main definitions

* `Client.base` — what no callback writes.
* `firstFinal` — the status that decides about a request.
* `CliConn.Kept` — a connection and a later view of it, with what the tunnel saw in between.
* `Effect` — what a callback can do.

## Main results

* `scanHeaders_eq` — the first final status decides, and nothing after it.
* `kept_scanHeaders`, `kept_afterReads`, `kept_checkIpv6Mtu`, `kept_onRequestClose` — what
  headers, a body and the end of the request do to a connection.
* `callbackOn_effect` — **every callback has one of the effects**.
-/

namespace Mqvpn.Cli

open List

open Endpoint (ClientState StreamId)

variable {c c' : Client} {k k' : CliConn} {now : ℕ}

/-! ### What no callback writes -/

/-- What no callback writes. -/
def Client.base (c : Client) : Client :=
  { cfg := c.cfg
    connId := c.connId
    nextPathHandle := c.nextPathHandle
    shuttingDown := c.shuttingDown
    tunActive := c.tunActive
    retiredTxSends := c.retiredTxSends
    retiredTxDatagrams := c.retiredTxDatagrams
    destroyed := c.destroyed
    handed := c.handed
    starts := c.starts
    finalized := c.finalized }

theorem base_of_core (h : c'.core = c.core) : c'.base = c.base :=
  eq_of_view Client.base h

section
variable (now : ℕ) (s : ClientState) (c : Client)

@[simp] theorem base_setState : (setState now s c).base = c.base := by
  unfold setState
  split <;> rfl

theorem core_setState : (setState now s c).core = setState now s c.core := by
  dsimp only [setState, Client.core]
  split <;> rfl

/-- Arming the timer writes two fields; the delay itself is kept out of sight. -/
theorem armReconnectTimer_eq : ∃ attempts scheduled,
    armReconnectTimer now c =
      { c with reconnectAttempts := attempts, reconnectScheduledUs := scheduled } :=
  ⟨_, _, rfl⟩

@[simp] theorem setState_state : (setState now s c).state = s := by
  unfold setState
  split
  · assumption
  · rfl

@[simp] theorem setState_conn : (setState now s c).conn = c.conn := by
  unfold setState
  split <;> rfl

@[simp] theorem setState_scheduled :
    (setState now s c).reconnectScheduledUs = c.reconnectScheduledUs := by
  unfold setState
  split <;> rfl

@[simp] theorem setState_tunnelLog : (setState now s c).tunnelLog = c.tunnelLog := by
  unfold setState
  split <;> rfl

@[simp] theorem setState_starts : (setState now s c).starts = c.starts :=
  eq_of_view Client.starts (base_setState now s c)

@[simp] theorem setState_requests : (setState now s c).requests = c.requests := by
  unfold setState
  split <;> rfl

@[simp] theorem setState_cfg : (setState now s c).cfg = c.cfg :=
  eq_of_view Client.cfg (base_setState now s c)

@[simp] theorem setState_connId : (setState now s c).connId = c.connId :=
  eq_of_view Client.connId (base_setState now s c)

end

@[simp] theorem logTunnel_nil (c : Client) (id : ℕ) : c.logTunnel id [] = c := by
  simp [Client.logTunnel]

theorem logTunnel_append (c : Client) (id : ℕ) (events events' : List TunnelEvent) :
    (c.logTunnel id events).logTunnel id events' = c.logTunnel id (events ++ events') := by
  unfold Client.logTunnel
  simp only [map_append, append_assoc]

/-! ### The headers of a response -/

/-- A status that is not final. -/
def interim (st : Option ℕ) : Bool := st.any fun n => decide (100 ≤ n ∧ n < 200)

/-- The status that decides: the first one that is final, of a section. -/
def firstFinal (hdrs : List Header) : Option (Option ℕ) :=
  (statuses hdrs).find? fun st => !interim st

/-- Why a request with a final status other than 200 fails. -/
def failReason (st : Option ℕ) : CloseReason := (st.map classifyStatus).getD .protocol

/-- A final status is met. -/
def Scan.settle (s : Scan) (st : Option ℕ) : Scan :=
  if st = some 200 then
    { s with conn := { s.conn with tunnelOk := true }, finalSeen := true, decided200 := true }
  else s.fail (failReason st)

theorem Scan.settle_finalSeen (s : Scan) (st : Option ℕ) : (s.settle st).finalSeen = true := by
  unfold Scan.settle
  split <;> rfl

theorem Scan.settle_reorderEcho (s : Scan) (st : Option ℕ) :
    (s.settle st).reorderEcho = s.reorderEcho := by
  unfold Scan.settle
  split <;> rfl

theorem scanHeader_status (s : Scan) (value : List UInt8) :
    scanHeader s (.status value) =
      if interim (parseStatus value) ∨ s.finalSeen = true then s
      else s.settle (parseStatus value) := by
  unfold scanHeader interim
  dsimp only
  generalize parseStatus value = st
  split
  · next h => rw [if_pos (.inl h)]
  next hfinal =>
  split
  · next h => rw [if_pos (.inr h)]
  next hseen =>
  rw [if_neg (not_or.2 ⟨hfinal, hseen⟩)]
  unfold Scan.settle
  cases st with
  | none => rfl
  | some n =>
    by_cases h200 : n = 200
    · rw [if_pos (congrArg some h200)]
      exact if_pos h200
    · rw [if_neg fun h => h200 (Option.some.inj h)]
      exact if_neg h200

/-- After a final status only the echo is taken note of. -/
theorem scan_decided (hdrs : List Header) (s : Scan) (hfinal : s.finalSeen = true) :
    Run.exec scanHeader s hdrs =
      { s with reorderEcho := s.reorderEcho || decide (.reorder ∈ hdrs) } := by
  induction hdrs generalizing s with
  | nil => simp
  | cons hdr rest ih =>
    cases hdr with
    | status value =>
      rw [Run.exec_cons, scanHeader_status, if_pos (.inr hfinal), ih s hfinal]
      simp
    | reorder => simp [scanHeader, ih { s with reorderEcho := true } hfinal]
    | other => simp [scanHeader, ih s hfinal]

/-- Before one, the first final status is met. -/
theorem scan_undecided (hdrs : List Header) (s : Scan) (hfinal : s.finalSeen = false) :
    Run.exec scanHeader s hdrs =
      { (firstFinal hdrs).elim s s.settle with
        reorderEcho := s.reorderEcho || decide (.reorder ∈ hdrs) } := by
  induction hdrs generalizing s with
  | nil => simp [firstFinal, statuses]
  | cons hdr rest ih =>
    cases hdr with
    | status value =>
      have hstatuses : statuses (.status value :: rest) = parseStatus value :: statuses rest := rfl
      rw [Run.exec_cons, scanHeader_status]
      unfold firstFinal at ih ⊢
      rw [hstatuses, find?_cons]
      cases hint : interim (parseStatus value) with
      | true =>
        rw [if_pos (.inl rfl), ih s hfinal]
        simp
      | false =>
        rw [if_neg (by simp [hfinal]), scan_decided rest _ (s.settle_finalSeen _)]
        simp [Scan.settle_reorderEcho]
    | reorder =>
      have hsettle : (firstFinal rest).elim { s with reorderEcho := true }
            { s with reorderEcho := true }.settle =
          { (firstFinal rest).elim s s.settle with reorderEcho := true } := by
        cases firstFinal rest with
        | none => rfl
        | some st =>
          unfold Option.elim Scan.settle
          dsimp only
          split <;> rfl
      have hrest := ih { s with reorderEcho := true } hfinal
      rw [hsettle] at hrest
      rw [Run.exec_cons, show scanHeader s .reorder = { s with reorderEcho := true } from rfl,
        hrest]
      simp [firstFinal, statuses]
    | other =>
      rw [Run.exec_cons, show scanHeader s .other = s from rfl, ih s hfinal]
      simp [firstFinal, statuses]

/-- **The first final status decides**: a 200 makes the tunnel, with the echo of its section,
anything else fails it, and nothing after it is looked at. -/
theorem scanHeaders_eq (k : CliConn) (hdrs : List Header) :
    scanHeaders k hdrs =
      if k.tunnelOk = true ∨ k.tunnelNotified = true then (k, [])
      else match firstFinal hdrs with
        | none => (k, [])
        | some st =>
            if st = some 200 then
              ({ k with
                tunnelOk := true
                peerReorderSupported := k.peerReorderSupported || decide (.reorder ∈ hdrs) }, [])
            else signalConnectFail (failReason st) k := by
  unfold scanHeaders
  dsimp only
  by_cases hdone : k.tunnelOk = true ∨ k.tunnelNotified = true
  · rw [if_pos hdone, scan_decided hdrs _ (by simpa using hdone)]
    simp
  · rw [if_neg hdone, scan_undecided hdrs _ (by simpa using hdone)]
    cases firstFinal hdrs with
    | none => simp
    | some st =>
      unfold Option.elim Scan.settle
      dsimp only
      split
      · cases hecho : decide (Header.reorder ∈ hdrs) <;> simp
      · simp [Scan.fail]

/-! ### What a tunnel saw -/

/-- A header section with a status 200. -/
def TunnelEvent.grants : TunnelEvent → Bool
  | .section hdrs => decide (some 200 ∈ statuses hdrs)
  | _ => false

/-- A header section with a final status. -/
def TunnelEvent.decides : TunnelEvent → Bool
  | .section hdrs => (firstFinal hdrs).isSome
  | _ => false

/-- A header section with a status 200 and the echo of the reorder header. -/
def TunnelEvent.echoes : TunnelEvent → Bool
  | .section hdrs => decide (some 200 ∈ statuses hdrs ∧ .reorder ∈ hdrs)
  | _ => false

/-- The platform is told that the tunnel is ready. -/
def TunnelEvent.isReady : TunnelEvent → Bool
  | .ready _ _ => true
  | _ => false

/-- The platform is told that the tunnel is closed. -/
def TunnelEvent.isClosed : TunnelEvent → Bool
  | .closed _ => true
  | _ => false

def Capsule.ipv4s : Capsule → List Assigned
  | .addressAssign entries => (entries.filter fun e => e.1 = 4).map Prod.snd
  | _ => []

/-- The IPv4 addresses a list of capsules assigns. -/
def ipv4sOf (capsules : List Capsule) : List Assigned := capsules.flatMap Capsule.ipv4s

/-- The IPv4 addresses that were handed over. -/
def TunnelEvent.ipv4s : TunnelEvent → List Assigned
  | .body capsules => ipv4sOf capsules
  | _ => []

/-- The IPv4 addresses a connection has got, taken or still in the buffer of its stream. -/
def CliConn.ipv4s (k : CliConn) : List Assigned :=
  k.assignedIp.toList ++ ipv4sOf (k.stream.getD [])

/-- What neither headers nor a body nor the end of the request write. -/
def CliConn.fixed (k : CliConn) : CliConn :=
  { id := k.id
    dgramMss := 0
    masqueStreamId := k.masqueStreamId
    reorderTx := k.reorderTx
    reorderRx := k.reorderRx
    handshaken := k.handshaken }

/-- A connection and a later view of it, whose handshake made no progress in between; `events` is
what the tunnel saw in between. -/
structure CliConn.Kept (k : CliConn) (events : List TunnelEvent) (k' : CliConn) : Prop where
  fixed : k'.fixed = k.fixed
  closing : k.closing = true → k'.closing = true
  stream : k'.stream ≠ none → k.stream ≠ none
  quiet : ∀ e ∈ events, e.isReady = false
  /-- A close is told when the flag is raised, and only then. -/
  told : k'.tunnelNotified.toNat = k.tunnelNotified.toNat + events.countP TunnelEvent.isClosed
  granted : k'.tunnelOk = true → k.tunnelOk = true ∨ ∃ e ∈ events, e.grants = true
  /-- A final status is a 200, which lasts as long as the tunnel does, or fails it. -/
  lasting : (k.tunnelOk = true ∨ ∃ e ∈ events, e.decides = true) →
    k'.tunnelOk = true ∨ k'.tunnelNotified = true ∨ k'.stream = none
  echoed : k'.peerReorderSupported = true →
    k.peerReorderSupported = true ∨ ∃ e ∈ events, e.echoes = true
  received : ∀ a ∈ k'.ipv4s, a ∈ k.ipv4s ∨ ∃ e ∈ events, a ∈ e.ipv4s

theorem CliConn.Kept.refl (k : CliConn) : k.Kept [] k where
  fixed := rfl
  closing := fun h => h
  stream := fun h => h
  quiet := nofun
  told := rfl
  granted := .inl
  lasting := fun h => h.elim .inl nofun
  echoed := .inl
  received := fun _ => .inl

section
variable {events : List TunnelEvent}

theorem CliConn.Kept.notified (h : k.Kept events k') (hnot : k.tunnelNotified = true) :
    k'.tunnelNotified = true := by
  have htold := h.told
  rw [hnot] at htold
  cases hk' : k'.tunnelNotified with
  | true => rfl
  | false =>
    rw [hk', Bool.toNat_false, Bool.toNat_true] at htold
    omega

/-- What was the case before, or is due to an event: over two stretches of events. -/
theorem or_exists_append {p q r : Prop} {P : TunnelEvent → Prop} (events : List TunnelEvent)
    {events' : List TunnelEvent} (h' : r → q ∨ ∃ e ∈ events', P e)
    (h : q → p ∨ ∃ e ∈ events, P e) (hr : r) : p ∨ ∃ e ∈ events ++ events', P e := by
  simp only [mem_append, or_and_right, exists_or, ← or_assoc]
  exact (h' hr).imp_left h

theorem CliConn.Kept.trans {k₀ k₁ k₂ : CliConn} {events events' : List TunnelEvent}
    (h : k₀.Kept events k₁) (h' : k₁.Kept events' k₂) : k₀.Kept (events ++ events') k₂ where
  fixed := h'.fixed.trans h.fixed
  closing := fun hc => h'.closing (h.closing hc)
  stream := fun hs => h.stream (h'.stream hs)
  quiet := forall_mem_append.2 ⟨h.quiet, h'.quiet⟩
  told := by
    rw [h'.told, h.told, countP_append, Nat.add_assoc]
  granted := or_exists_append _ h'.granted h.granted
  lasting := by
    intro hbefore
    simp only [mem_append, or_and_right, exists_or, ← or_assoc] at hbefore
    obtain hmid | hmid := hbefore
    · obtain hok | hnot | hnone := h.lasting hmid
      · exact h'.lasting (.inl hok)
      · exact .inr (.inl (h'.notified hnot))
      · refine .inr (.inr ?_)
        by_contra hsome
        exact h'.stream hsome hnone
    · exact h'.lasting (.inr hmid)
  echoed := or_exists_append _ h'.echoed h.echoed
  received := fun a => or_exists_append _ (h'.received a) (h.received a)

/-- The failure of a request is told once. -/
theorem kept_signalConnectFail (reason : CloseReason) (k : CliConn) :
    k.Kept (signalConnectFail reason k).2 (signalConnectFail reason k).1 := by
  unfold signalConnectFail
  split
  · exact .refl k
  next hnot =>
  rw [Bool.not_eq_true] at hnot
  exact {
    fixed := rfl
    closing := fun h => h
    stream := fun h => h
    quiet := by simp [TunnelEvent.isReady]
    told := by simp [hnot, TunnelEvent.isClosed]
    granted := .inl
    lasting := fun _ => .inr (.inl rfl)
    echoed := .inl
    received := fun _ => .inl }

theorem signalConnectFail_notified (reason : CloseReason) (k : CliConn) :
    (signalConnectFail reason k).1.tunnelNotified = true := by
  unfold signalConnectFail
  split
  · assumption
  · rfl

theorem signalConnectFail_closes (reason : CloseReason) (k : CliConn) :
    ∀ e ∈ (signalConnectFail reason k).2, e.isClosed = true := by
  unfold signalConnectFail
  split <;> simp [TunnelEvent.isClosed]

theorem CliConn.Kept.section (h : k.Kept events k') {hdrs : List Header}
    (hfinal : (firstFinal hdrs).isSome = true → k'.tunnelOk = true ∨ k'.tunnelNotified = true) :
    k.Kept (.section hdrs :: events) k' where
  fixed := h.fixed
  closing := h.closing
  stream := h.stream
  quiet := forall_mem_cons.2 ⟨rfl, h.quiet⟩
  told := by
    rw [h.told, countP_cons_of_neg (by simp [TunnelEvent.isClosed])]
  granted := or_exists_append [_] h.granted .inl
  lasting := by
    rintro (hok | ⟨e, he, hdecides⟩)
    · exact h.lasting (.inl hok)
    · obtain rfl | he := mem_cons.1 he
      · exact (hfinal hdecides).imp_right .inl
      · exact h.lasting (.inr ⟨e, he, hdecides⟩)
  echoed := or_exists_append [_] h.echoed .inl
  received := fun a => or_exists_append [_] (h.received a) .inl

end

theorem kept_scanHeaders (k : CliConn) (hdrs : List Header) :
    k.Kept (.section hdrs :: (scanHeaders k hdrs).2) (scanHeaders k hdrs).1 := by
  rw [scanHeaders_eq]
  split
  · next hdone => exact (CliConn.Kept.refl k).section fun _ => hdone
  split
  · next hnone =>
    refine (CliConn.Kept.refl k).section fun hfinal => ?_
    rw [hnone] at hfinal
    cases hfinal
  next st hst =>
  split
  · next h200 =>
    have hmem : some 200 ∈ statuses hdrs := h200 ▸ mem_of_find?_eq_some hst
    exact {
      fixed := rfl
      closing := fun h => h
      stream := fun h => h
      quiet := by simp [TunnelEvent.isReady]
      told := rfl
      granted := fun _ => .inr ⟨_, mem_singleton_self _, decide_eq_true hmem⟩
      lasting := fun _ => .inl rfl
      echoed := by
        intro hpeer
        obtain hpeer | hecho := Bool.or_eq_true _ _ ▸ hpeer
        · exact .inl hpeer
        · refine .inr ⟨_, mem_singleton_self _, decide_eq_true ⟨hmem, ?_⟩⟩
          exact of_decide_eq_true hecho
      received := fun _ => .inl }
  · exact (kept_signalConnectFail _ k).section fun _ => .inr (signalConnectFail_notified _ k)

/-! ### The body of a response -/

/-- The connection apart from its addresses. -/
def CliConn.unaddressed (k : CliConn) : CliConn :=
  { k with assignedIp := none, assignedIp6 := none }

/-- Capsules write the two addresses, and take the one of IPv4 from `addrs`. -/
structure CliConn.Filled (k : CliConn) (addrs : List Assigned) (k' : CliConn) : Prop where
  rest : k'.unaddressed = k.unaddressed
  taken : ∀ a, k'.assignedIp = some a → k.assignedIp = some a ∨ a ∈ addrs

theorem CliConn.Filled.refl (k : CliConn) (addrs : List Assigned) : k.Filled addrs k :=
  ⟨rfl, fun _ => .inl⟩

theorem CliConn.Filled.trans {k₀ k₁ k₂ : CliConn} {addrs : List Assigned}
    (h : k₀.Filled addrs k₁) (h' : k₁.Filled addrs k₂) : k₀.Filled addrs k₂ where
  rest := h'.rest.trans h.rest
  taken := fun a ha => (h'.taken a ha).elim (h.taken a) .inr

theorem CliConn.Filled.mono {addrs addrs' : List Assigned} (h : k.Filled addrs k')
    (hsub : addrs ⊆ addrs') : k.Filled addrs' k' :=
  ⟨h.rest, fun a ha => (h.taken a ha).imp_right fun hin => hsub hin⟩

theorem filled_assignEntry (k : CliConn) (e : ℕ × Assigned) :
    k.Filled (Capsule.addressAssign [e]).ipv4s (assignEntry k e) := by
  unfold assignEntry
  split
  · next h4 =>
    refine ⟨rfl, fun a ha => .inr ?_⟩
    obtain rfl := Option.some.inj ha
    simp [Capsule.ipv4s, h4.1]
  split
  · exact ⟨rfl, fun _ => .inl⟩
  · exact .refl k _

theorem filled_assignEntries (entries : List (ℕ × Assigned)) (k : CliConn) :
    k.Filled (Capsule.addressAssign entries).ipv4s (Run.exec assignEntry k entries) := by
  induction entries generalizing k with
  | nil => exact .refl k _
  | cons e rest ih =>
    refine ((filled_assignEntry k e).mono ?_).trans ((ih _).mono ?_)
    all_goals
      intro a ha
      simp only [Capsule.ipv4s, mem_map, mem_filter, mem_cons] at ha ⊢
      grind

/-- The capsules that are processed, and those that stay in the buffer. -/
theorem filled_processCapsules (buf : List Capsule) (k : CliConn) :
    k.Filled (ipv4sOf buf) (processCapsules buf k).2 ∧
      ipv4sOf (processCapsules buf k).1 ⊆ ipv4sOf buf := by
  induction buf generalizing k with
  | nil => exact ⟨.refl k _, fun _ h => h⟩
  | cons capsule rest ih =>
    have hrest : ipv4sOf rest ⊆ ipv4sOf (capsule :: rest) :=
      fun a ha => mem_append_right _ ha
    cases capsule with
    | addressAssign entries =>
      obtain ⟨hfill, hsub⟩ := ih (Run.exec assignEntry k entries)
      have hfirst := (filled_assignEntries entries k).mono
        (fun a ha => mem_append_left (ipv4sOf rest) ha)
      exact ⟨hfirst.trans (hfill.mono hrest), List.Subset.trans hsub hrest⟩
    | routeAdvertisement valid =>
      cases valid with
      | false => exact ⟨.refl k _, fun _ h => h⟩
      | true => exact ⟨(ih k).1.mono hrest, List.Subset.trans (ih k).2 hrest⟩
    | other => exact ⟨(ih k).1.mono hrest, List.Subset.trans (ih k).2 hrest⟩

theorem filled_readBody (reads : List (Bool × List Capsule)) (buf : List Capsule) (k : CliConn) :
    k.Filled (ipv4sOf buf ++ ipv4sOf (reads.flatMap Prod.snd)) (readBody reads buf k).2.2 ∧
      ipv4sOf (readBody reads buf k).2.1 ⊆ ipv4sOf buf ++ ipv4sOf (reads.flatMap Prod.snd) := by
  induction reads generalizing buf k with
  | nil => exact ⟨.refl k _, fun _ ha => mem_append_left _ ha⟩
  | cons read rest ih =>
    obtain ⟨appended, capsules⟩ := read
    unfold readBody
    split
    · exact ⟨.refl k _, fun _ ha => mem_append_left _ ha⟩
    · obtain ⟨hfill, hsub⟩ := filled_processCapsules (buf ++ capsules) k
      obtain ⟨hfill', hsub'⟩ := ih (processCapsules (buf ++ capsules) k).1
        (processCapsules (buf ++ capsules) k).2
      have hsplit : ipv4sOf (buf ++ capsules) ++ ipv4sOf (rest.flatMap Prod.snd) =
          ipv4sOf buf ++ ipv4sOf (((appended, capsules) :: rest).flatMap Prod.snd) := by
        simp [ipv4sOf]
      have hmono : ipv4sOf (processCapsules (buf ++ capsules) k).1 ++
            ipv4sOf (rest.flatMap Prod.snd) ⊆
          ipv4sOf (buf ++ capsules) ++ ipv4sOf (rest.flatMap Prod.snd) :=
        append_subset.2
          ⟨List.Subset.trans hsub (subset_append_left ..), subset_append_right ..⟩
      rw [← hsplit]
      exact ⟨(hfill.mono (subset_append_left ..)).trans (hfill'.mono hmono),
        List.Subset.trans hsub' hmono⟩

theorem kept_afterReads {buf : List Capsule} (hstream : k.stream = some buf)
    (reads : List (Bool × List Capsule)) :
    k.Kept [.body (reads.flatMap Prod.snd)] (k.afterReads reads buf) := by
  obtain ⟨hfill, hsub⟩ := filled_readBody reads buf k
  have hread : ∀ {α : Type} (f : CliConn → α), (∀ k : CliConn, f k.unaddressed = f k) →
      f (readBody reads buf k).2.2 = f k := by
    intro α f hf
    rw [← hf, hfill.rest, hf]
  have hok : (k.afterReads reads buf).tunnelOk = k.tunnelOk :=
    hread CliConn.tunnelOk fun _ => rfl
  have hpeer : (k.afterReads reads buf).peerReorderSupported = k.peerReorderSupported :=
    hread CliConn.peerReorderSupported fun _ => rfl
  exact {
    fixed := hread CliConn.fixed fun _ => rfl
    closing := fun hc => (hread CliConn.closing fun _ => rfl).trans hc
    stream := fun _ => by
      rw [hstream]
      exact Option.some_ne_none buf
    quiet := by simp [TunnelEvent.isReady]
    told := congrArg Bool.toNat (hread CliConn.tunnelNotified fun _ => rfl)
    granted := fun h => .inl (hok ▸ h)
    lasting := by
      rintro (h | ⟨e, he, hdecides⟩)
      · exact .inl (hok.trans h)
      · rw [mem_singleton] at he
        rw [he] at hdecides
        cases hdecides
    echoed := fun h => .inl (hpeer ▸ h)
    received := by
      intro a ha
      have hsource : a ∈ k.assignedIp.toList ∨
          a ∈ ipv4sOf buf ++ ipv4sOf (reads.flatMap Prod.snd) := by
        obtain ha | ha := mem_append.1 ha
        · rw [Option.mem_toList] at ha ⊢
          exact hfill.taken a ha
        · exact .inr (hsub ha)
      unfold CliConn.ipv4s
      rw [hstream, Option.getD_some, mem_append]
      obtain ha | ha := hsource
      · exact .inl (.inl ha)
      · obtain ha | ha := mem_append.1 ha
        · exact .inl (.inr ha)
        · exact .inr ⟨_, mem_singleton_self _, ha⟩ }

/-- A check of the MTU that fails closes the connection. -/
theorem kept_checkIpv6Mtu (cfg : ClientConfig) (k : CliConn) (mtu : ℤ) :
    k.Kept (checkIpv6Mtu cfg k mtu).2.2 (checkIpv6Mtu cfg k mtu).2.1 := by
  unfold checkIpv6Mtu
  split
  · exact .refl k
  · have hfail := kept_signalConnectFail .invalidArg { k with tunnelOk := false, closing := true }
    exact {
      fixed := hfail.fixed
      closing := fun _ => hfail.closing rfl
      stream := hfail.stream
      quiet := hfail.quiet
      told := hfail.told
      granted := fun h => .inr ((hfail.granted h).resolve_left nofun)
      lasting := fun _ => .inr (.inl (signalConnectFail_notified ..))
      echoed := hfail.echoed
      received := hfail.received }

theorem checkIpv6Mtu_closes (cfg : ClientConfig) (k : CliConn) (mtu : ℤ) :
    ∀ e ∈ (checkIpv6Mtu cfg k mtu).2.2, e.isClosed = true := by
  unfold checkIpv6Mtu
  split
  · exact nofun
  · exact signalConnectFail_closes .invalidArg _

/-- What the end of the request makes of a connection, and what is told. -/
def CliConn.requestClosed (k : CliConn) (shuttingDown : Bool) : CliConn × List TunnelEvent :=
  let r := if !k.tunnelOk && !shuttingDown then signalConnectFail .protocol k else (k, [])
  ({ r.1 with tunnelOk := false, stream := none }, r.2)

theorem kept_requestClosed (k : CliConn) (shuttingDown : Bool) :
    k.Kept (k.requestClosed shuttingDown).2 (k.requestClosed shuttingDown).1 := by
  have hend : ∀ k' : CliConn, k'.Kept [] { k' with tunnelOk := false, stream := none } :=
    fun k' => {
    fixed := rfl
    closing := fun h => h
    stream := fun h => absurd rfl h
    quiet := nofun
    told := rfl
    granted := nofun
    lasting := fun _ => .inr (.inr rfl)
    echoed := .inl
    received := fun a ha => .inl (by
      unfold CliConn.ipv4s at ha ⊢
      rw [Option.getD_none] at ha
      exact mem_append_left _ (by simpa [ipv4sOf] using ha)) }
  unfold CliConn.requestClosed
  dsimp only
  split
  · exact append_nil (signalConnectFail .protocol k).2 ▸
      (kept_signalConnectFail .protocol k).trans (hend _)
  · exact hend k

/-! ### Effects -/

/-- A tunnel that becomes ready, apart from the slots. -/
theorem core_tunnelReady (c : Client) (now : ℕ) (k : CliConn) (ip : Assigned) (mtu : ℤ)
    (results : List ActivateResult) :
    (c.tunnelReady now k ip mtu results).core =
      ({ setState now .tunnelReady c with reconnectAttempts := 0 }.logTunnel k.id
        [.ready (tunnelInfo k ip mtu) k.tunnelOk]).core := by
  have hcore : (setState now .tunnelReady (c.confirmPrimary now)).core =
      (setState now .tunnelReady c).core := by
    rw [core_setState, (slotwise_confirmPrimary c now).core, core_setState]
  unfold Client.tunnelReady
  dsimp only
  rw [(slotwise_releasePathHold ..).core]
  show { (setState now .tunnelReady (c.confirmPrimary now)).core with
      reconnectAttempts := 0 }.logTunnel k.id _ =
    { (setState now .tunnelReady c).core with reconnectAttempts := 0 }.logTunnel k.id _
  rw [hcore]

theorem setState_setConn (now : ℕ) (s : ClientState) (c : Client) (conn : Option CliConn) :
    setState now s { c with conn := conn } = { setState now s c with conn := conn } := by
  dsimp only [setState]
  split <;> rfl

theorem setState_logTunnel (now : ℕ) (s : ClientState) (c : Client) (id : ℕ)
    (events : List TunnelEvent) :
    setState now s (c.logTunnel id events) = (setState now s c).logTunnel id events := by
  dsimp only [setState, Client.logTunnel]
  split <;> rfl

/-- What a callback for the connection `k` can do to a client, apart from the slots. -/
inductive Effect (c : Client) (k : CliConn) (c' : Client) : Prop
  | slots (hcore : c'.core = c.core)
  | kept (k' : CliConn) (events : List TunnelEvent) (hk : k.Kept events k')
      (hclosed : k.stream = none → ∀ e ∈ events, e.isClosed = true)
      (hcore : c'.core = ({ c with conn := some k' }.logTunnel k.id events).core)
  | handshaken (now mss : ℕ) (stream : Option (List Capsule)) (streamId : StreamId)
      (requests : List TunnelRequest)
      (hbefore : k.handshaken = false) (hopen : k.closing = false)
      (hstream : stream = k.stream ∨ stream = some [])
      (hrequests : requests = c.requests ∨
        requests = c.requests ++ [k.request c.cfg.reorder.mode streamId])
      (hcore : c'.core =
        { setState now .authenticating c with
          conn := some { k with
            dgramMss := mss, handshaken := true, stream := stream, masqueStreamId := streamId }
          requests := requests }.core)
  | ready (now : ℕ) (capsules : List Capsule) (k' : CliConn) (ip : Assigned) (mtu : ℤ)
      (hk : k.Kept [.body capsules] k') (hopen : k.closing = false) (hstream : k'.stream ≠ none)
      (hnot : k'.tunnelNotified = false) (hip : k'.assignedIp = some ip)
      (hest : c.state ≠ .established) (hready : c.state ≠ .tunnelReady)
      (hcore : c'.core =
        ({ setState now .tunnelReady c with conn := some k', reconnectAttempts := 0 }.logTunnel k.id
          [.body capsules, .ready (tunnelInfo k' ip mtu) k'.tunnelOk]).core)
  | closed (now : ℕ) (heq : c' = onConnClose now k c)

theorem handshakeFinished_effect (c : Client) (k : CliConn) (now : ℕ) (env : RequestEnv) :
    Effect c k (c.callbackOn k (.handshakeFinished now env)) := by
  unfold Client.callbackOn
  dsimp only
  split
  · exact .slots rfl
  next hguard =>
  simp only [Bool.or_eq_true, not_or, Bool.not_eq_true] at hguard
  unfold masqueStartTunnel
  split
  · exact .handshaken now _ _ _ _ hguard.1 hguard.2 (.inl rfl) (.inl (setState_requests ..)) rfl
  · refine .handshaken now _ _ _ _ hguard.1 hguard.2 (.inr rfl) ?_ rfl
    rw [setState_requests, setState_cfg]
    split
    · exact .inr rfl
    · exact .inl rfl

theorem body_effect (c : Client) (k : CliConn) (now : ℕ) (env : BodyEnv) :
    Effect c k (c.callbackOn k (.body now env)) := by
  unfold Client.callbackOn
  dsimp only
  split
  · exact .slots rfl
  next buf hstream =>
  split
  · exact .slots rfl
  next hopen =>
  rw [Bool.not_eq_true] at hopen
  have hread := kept_afterReads hstream env.reads
  have hsome : ∀ {P : Prop}, k.stream = none → P := by
    intro P hnone
    rw [hstream] at hnone
    cases hnone
  have hid : (k.afterReads env.reads buf).id = k.id :=
    eq_of_view CliConn.id hread.fixed
  have hbuf : (k.afterReads env.reads buf).stream ≠ none := Option.some_ne_none _
  unfold onBody
  dsimp only
  rw [hid]
  generalize k.afterReads env.reads buf = k₁ at hread hid hbuf ⊢
  split
  · exact .kept k₁ _ hread hsome rfl
  split
  · exact .kept k₁ _ hread hsome rfl
  next hnot =>
  rw [Bool.not_eq_true] at hnot
  split
  · refine .kept _ _ (hread.trans (kept_checkIpv6Mtu c.cfg k₁ (availableMtu k₁ env.udpMss))) hsome
      ?_
    rw [← logTunnel_append]
    rfl
  split
  · exact .kept k₁ _ hread hsome rfl
  next ip hip =>
  split
  · next hstate =>
    refine .ready now _ k₁ ip (tunMtu c.cfg k₁ (availableMtu k₁ env.udpMss)) hread hopen hbuf hnot
      hip hstate.1 hstate.2 ?_
    rw [core_tunnelReady, setState_setConn, setState_logTunnel, hid]
    show (({ setState now .tunnelReady c with conn := some k₁, reconnectAttempts := 0 }.logTunnel
      k.id [.body _]).logTunnel k.id [.ready _ _]).core = _
    rw [logTunnel_append]
    rfl
  · exact .kept k₁ _ hread hsome rfl

/-- **Every callback has one of the effects.** -/
theorem callbackOn_effect (c : Client) (k : CliConn) (cb : Callback) :
    Effect c k (c.callbackOn k cb) := by
  cases cb with
  | handshakeFinished now env => exact handshakeFinished_effect c k now env
  | certRejected =>
    unfold Client.callbackOn
    dsimp only
    split
    · exact .slots rfl
    · exact .kept _ _ (kept_signalConnectFail .tls k) (fun _ => signalConnectFail_closes .tls k) rfl
  | headers hdrs =>
    unfold Client.callbackOn
    dsimp only
    split
    · exact .slots rfl
    · next hopen =>
      refine .kept _ _ (kept_scanHeaders k hdrs) (fun hnone => ?_) rfl
      simp [hnone] at hopen
  | body now env => exact body_effect c k now env
  | requestClose =>
    unfold Client.callbackOn
    dsimp only
    split
    · exact .slots rfl
    · next hopen =>
      refine .kept _ _ (kept_requestClosed k c.shuttingDown) (fun hnone => ?_) rfl
      simp [hnone] at hopen
  | connClose now => exact .closed now rfl
  | readyToCreatePath now results =>
    refine .slots ?_
    unfold Client.callbackOn
    dsimp only
    split
    · rfl
    · exact (slotwise_activatePendingPaths ..).core
  | pathRemoved now pathId =>
    refine .slots ?_
    unfold Client.callbackOn
    dsimp only
    split
    · rfl
    · refine (slotwise_onPathEvent ?_ rfl c now _).core
      exact trivial
  | mssUpdated mss udpMss =>
    have hmss : k.Kept [] { k with dgramMss := mss } :=
      ⟨rfl, fun h => h, fun h => h, nofun, rfl, .inl, fun h => h.elim .inl nofun, .inl,
       fun _ => .inl⟩
    unfold Client.callbackOn
    dsimp only
    split
    · exact .kept _ _ (hmss.trans (kept_checkIpv6Mtu c.cfg _ udpMss))
        (fun _ => checkIpv6Mtu_closes c.cfg _ udpMss) rfl
    · refine .kept _ [] hmss nofun ?_
      rw [logTunnel_nil]

def Client.connGone (c : Client) (k : CliConn) : Client :=
  { c with conn := none }.logTunnel k.id (if k.tunnelNotified then [] else [.closed .closed])

/-- The end of a connection: a timer, or the end of the client. -/
theorem onConnClose_cases (now : ℕ) (k : CliConn) (c : Client) :
    (c.shuttingDown = false ∧
        onConnClose now k c = setState now .reconnecting (armReconnectTimer now (c.connGone k))) ∨
      onConnClose now k c = setState now .closed (c.connGone k) := by
  have heq : onConnClose now k c =
      if !c.shuttingDown && c.cfg.reconnectEnable &&
          !(k.tunnelNotified && k.notifiedReason == some .tls) then
        setState now .reconnecting (armReconnectTimer now (c.connGone k))
      else setState now .closed (c.connGone k) := by
    unfold onConnClose Client.connGone
    cases k.tunnelNotified with
    | true => rw [if_pos rfl, if_pos rfl, logTunnel_nil]
    | false => rfl
  rw [heq]
  split
  · next hup =>
    simp only [Bool.and_eq_true, Bool.not_eq_true'] at hup
    exact .inl ⟨hup.1.1, rfl⟩
  · exact .inr rfl

theorem onConnClose_base (now : ℕ) (k : CliConn) (c : Client) :
    (onConnClose now k c).base = c.base := by
  obtain ⟨-, heq⟩ | heq := onConnClose_cases now k c <;> rw [heq] <;> exact base_setState ..

theorem onConnClose_conn (now : ℕ) (k : CliConn) (c : Client) :
    (onConnClose now k c).conn = none := by
  obtain ⟨-, heq⟩ | heq := onConnClose_cases now k c <;> rw [heq] <;> exact setState_conn ..

theorem onConnClose_state (now : ℕ) (k : CliConn) (c : Client) :
    (onConnClose now k c).state = .reconnecting ∨ (onConnClose now k c).state = .closed := by
  obtain ⟨-, heq⟩ | heq := onConnClose_cases now k c <;> rw [heq]
  · exact .inl (setState_state ..)
  · exact .inr (setState_state ..)

theorem Effect.base (h : Effect c k c') : c'.base = c.base := by
  cases h with
  | slots hcore => exact base_of_core hcore
  | kept k' events hk _ hcore => exact (base_of_core hcore).trans rfl
  | handshaken now mss stream streamId requests _ _ _ _ hcore =>
    exact (base_of_core hcore).trans (base_setState now .authenticating c)
  | ready now capsules k' ip mtu _ _ _ _ _ _ _ hcore =>
    exact (base_of_core hcore).trans (base_setState now .tunnelReady c)
  | closed now heq =>
    rw [heq]
    exact onConnClose_base now k c

theorem Effect.not_idle (h : Effect c k c') (hidle : c.state ≠ .idle) : c'.state ≠ .idle := by
  have hstate : ∀ {d : Client}, c'.core = d.core → c'.state = d.state :=
    fun hcore => eq_of_view Client.state hcore
  cases h with
  | slots hcore | kept k' events hk _ hcore => exact hstate hcore ▸ hidle
  | handshaken now mss stream streamId requests _ _ _ _ hcore =>
    rw [hstate hcore]
    show (setState now .authenticating c).state ≠ .idle
    rw [setState_state]
    decide
  | ready now capsules k' ip mtu _ _ _ _ _ _ _ hcore =>
    rw [hstate hcore]
    show (setState now .tunnelReady c).state ≠ .idle
    rw [setState_state]
    decide
  | closed now heq =>
    rw [heq]
    obtain hs | hs := onConnClose_state now k c <;> rw [hs] <;> decide

/-- A connection that was closed locally stays so. -/
theorem Effect.closing (h : Effect c k c') (hc : c.conn = some k) (hclosing : k.closing = true) :
    ∀ k', c'.conn = some k' → k'.closing = true := by
  have hconn : ∀ {d : Client}, c'.core = d.core → c'.conn = d.conn :=
    fun hcore => eq_of_view Client.conn hcore
  intro k₁ hk₁
  cases h with
  | slots hcore =>
    rw [hconn hcore, hc] at hk₁
    cases hk₁
    exact hclosing
  | kept k' events hk _ hcore =>
    rw [hconn hcore] at hk₁
    cases hk₁
    exact hk.closing hclosing
  | handshaken now mss stream streamId requests _ hopen | ready now capsules k' ip mtu _ hopen =>
    rw [hclosing] at hopen
    cases hopen
  | closed now heq =>
    rw [heq, onConnClose_conn] at hk₁
    cases hk₁

/-- A property that every effect keeps is kept by every callback. -/
theorem callback_inv {P : Client → Prop}
    (heffect : ∀ {c c' : Client} {k : CliConn}, P c → c.conn = some k → Effect c k c' → P c')
    (h : P c) (cb : Callback) : P (c.callback cb) := by
  unfold Client.callback
  split
  · exact h
  · next k hc => exact heffect h hc (callbackOn_effect c k cb)

/-- A property that every effect keeps is kept by every run of the engine. -/
theorem mainLogic_inv {P : Client → Prop}
    (heffect : ∀ {c c' : Client} {k : CliConn}, P c → c.conn = some k → Effect c k c' → P c')
    (h : P c) (cbs : List Callback) : P (c.mainLogic cbs) :=
  @Run.exec_inv _ _ Client.callback P (fun _ cb hc => callback_inv heffect hc cb) cbs c h

theorem mainLogic_base (c : Client) (cbs : List Callback) : (c.mainLogic cbs).base = c.base :=
  mainLogic_inv (P := fun d => d.base = c.base) (fun hd _ he => he.base.trans hd) rfl cbs

theorem mainLogic_not_idle (c : Client) (hidle : c.state ≠ .idle) (cbs : List Callback) :
    (c.mainLogic cbs).state ≠ .idle :=
  mainLogic_inv (P := fun d => d.state ≠ .idle) (fun hd _ he => he.not_idle hd) hidle cbs

/-! ### Starts -/

def Client.freshConn (c : Client) (now : ℕ) (env : StartEnv) : CliConn :=
  { id := c.connId + 1
    dgramMss := env.dgramMss
    reorderTx := (reorderEngines now env { c with connId := c.connId + 1 }).1
    reorderRx := (reorderEngines now env { c with connId := c.connId + 1 }).2 }

theorem core_bootstrap (c : Client) (now : ℕ) : (c.bootstrap now).core = c.core := by
  unfold Client.bootstrap
  split <;> rfl

theorem startConnection_cases (now : ℕ) (env : StartEnv) (c : Client) :
    (∃ connId result, c.connId ≤ connId ∧ result ≠ .started ∧
        startConnection now env c = ({ c with connId := connId }, result)) ∨
      (c.conn = none ∧
        (∀ pp, c.paths[c.primaryPathIdx]? = some pp → pp.transportAttached = true) ∧
        startConnection now env c =
          ({ Client.bootstrap { c with connId := c.connId + 1 } now with
              conn := some (c.freshConn now env), issued := [0] }, .started)) := by
  unfold startConnection
  dsimp only
  split
  · exact .inl ⟨c.connId, .connExists, le_rfl, nofun, rfl⟩
  next hnone =>
  rw [Option.isSome_iff_ne_none, not_not] at hnone
  split
  · exact .inl ⟨c.connId + 1, .noMemory, Nat.le_succ _, nofun, rfl⟩
  split
  · exact .inl ⟨c.connId + 1, .primaryNotReady, Nat.le_succ _, nofun, rfl⟩
  next hprimary =>
  split
  · exact .inl ⟨c.connId + 1, .connectFailed, Nat.le_succ _, nofun, rfl⟩
  · refine .inr ⟨hnone, fun pp hpp => ?_, rfl⟩
    rw [hpp, Option.any_some, Bool.not_eq_true, Bool.not_eq_false'] at hprimary
    exact hprimary

def Client.startRecord (c : Client) (env : StartEnv) (result : StartResult) : Start :=
  ⟨c.state, c.paths, c.primaryPathIdx, env.connAlloc, result⟩

/-- A recorded start, apart from the slots where it succeeds. -/
theorem start_cases (c : Client) (now : ℕ) (env : StartEnv) :
    (∃ connId, c.connId ≤ connId ∧ (c.start now env).2 ≠ .started ∧ (c.start now env).1 =
        { c with
          connId := connId, starts := c.starts ++ [c.startRecord env (c.start now env).2] }) ∨
      (c.conn = none ∧ (c.start now env).2 = .started ∧ (c.start now env).1.core =
        { c with
          connId := c.connId + 1
          conn := some (c.freshConn now env)
          starts := c.starts ++ [c.startRecord env .started] }.core) := by
  unfold Client.start
  dsimp only
  obtain ⟨connId, result, hle, hne, heq⟩ | ⟨hnone, -, heq⟩ := startConnection_cases now env c
  · rw [heq]
    exact .inl ⟨connId, hle, hne, rfl⟩
  · rw [heq]
    refine .inr ⟨hnone, rfl, ?_⟩
    show { (Client.bootstrap { c with connId := c.connId + 1 } now).core with
      conn := some (c.freshConn now env)
      starts := c.starts ++ [c.startRecord env .started] } = _
    rw [core_bootstrap]
    rfl

/-- A reconnect: the slots are reset, and a failure arms the timer again. -/
def Client.restarted (c : Client) (now : ℕ) (env : StartEnv) : Client :=
  let r := (resetPathsForReconnect now { c with reconnectScheduledUs := 0 }).start now env
  if r.2 ≠ .started then armReconnectTimer now r.1 else setState now .connecting r.1

theorem restarted_not_idle (hstate : c.state ≠ .idle) (now : ℕ) (env : StartEnv) :
    (c.restarted now env).state ≠ .idle := by
  unfold Client.restarted
  dsimp only
  split
  · next hfail =>
    obtain ⟨connId, -, -, heq⟩ | ⟨-, hok, -⟩ := start_cases
      (resetPathsForReconnect now { c with reconnectScheduledUs := 0 }) now env
    · rw [heq]
      exact hstate
    · exact absurd hok hfail
  · rw [setState_state]
    decide

theorem connect_cases (now : ℕ) (env : StartEnv) (c : Client) :
    (connect now env c).1 = c ∨
      (c.state = .idle ∧
        ((c.start now env).2 ≠ .started ∧ (connect now env c).1 = (c.start now env).1 ∨
          (c.start now env).2 = .started ∧
            (connect now env c).1 = setState now .connecting (c.start now env).1)) ∨
      (c.state = .reconnecting ∧ (connect now env c).1 = c.restarted now env) := by
  unfold connect
  split
  · exact .inl rfl
  next hvalid =>
  refine .inr ?_
  dsimp only
  by_cases hs : c.state = .reconnecting
  · refine .inr ⟨hs, ?_⟩
    rw [if_pos hs]
    unfold Client.restarted
    dsimp only
    split <;> rfl
  · have hidle : c.state = .idle := by
      cases hc : c.state <;> simp_all [stateTransitionValid]
    refine .inl ⟨hidle, ?_⟩
    rw [if_neg hs]
    split
    · next hfail => exact .inl ⟨hfail, rfl⟩
    · next hok => exact .inr ⟨not_not.1 hok, rfl⟩

theorem tickReconnect_cases (now : ℕ) (env : StartEnv) (c : Client) :
    ((c.state ≠ .reconnecting ∨ c.reconnectScheduledUs = 0 ∨ now < c.reconnectScheduledUs) ∧
        tickReconnect now env c = (c, false)) ∨
      (c.state = .reconnecting ∧ (tickReconnect now env c).1 = c.restarted now env) := by
  unfold tickReconnect
  split
  · next hwait => exact .inl ⟨hwait.imp_right .inl, rfl⟩
  next hstate =>
  rw [not_or, not_not] at hstate
  split
  · next hearly => exact .inl ⟨.inr (.inr hearly), rfl⟩
  · refine .inr ⟨hstate.1, ?_⟩
    unfold Client.restarted
    dsimp only
    split <;> rfl

end Mqvpn.Cli
