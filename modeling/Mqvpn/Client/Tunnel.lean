import Mqvpn.Client.Phases

/-!
# What the platform is told of a tunnel

The record of a client has, for every connection, the header sections and bodies that were handed
over and what the platform was told, in their order.  The close of a tunnel is told once, guarded
by the flag `tunnel_notified`; that it is ready is told once, guarded by the state of the client,
and needs the flag not to be raised and an IPv4 address, which only a body can have brought.

The status is another matter.  `cli_connect_ip_on_body` does not ask for `tunnel_ok`, so what
is shown is that the flag is raised exactly if a section with the status 200 came before: a ready
tunnel was granted if and only if the flag was raised when it was called ready.

## Main definitions

* `Client.events` — what one connection saw.
* `Announced` — the order of these events.
* `Current` — the flags of the connection that exists say what it saw.

## Main results

* `tunnel_granted_iff` — **what is told of a tunnel, and when it was granted**.
* `ready_without_status` — a tunnel that is ready after an interim response.
-/

namespace Mqvpn.Cli

open List

open Endpoint (ClientState StreamId)

variable {c c' : Client} {k k' : CliConn} {now : ℕ} {seen : List TunnelEvent}

/-! ### The events of a connection -/

/-- What the connection with a number saw. -/
def Client.events (c : Client) (id : ℕ) : List TunnelEvent :=
  (c.tunnelLog.filter fun e => e.1 == id).map Prod.snd

@[simp] theorem events_logTunnel (c : Client) (id id' : ℕ) (seen : List TunnelEvent) :
    (c.logTunnel id seen).events id' = c.events id' ++ if id = id' then seen else [] := by
  have hfilter : ((seen.map (id, ·)).filter fun e => e.1 == id').map Prod.snd =
      if id = id' then seen else [] := by
    by_cases hid : id = id' <;> simp [hid, filter_map, Function.comp_def]
  unfold Client.events Client.logTunnel
  rw [filter_append, map_append, hfilter]

theorem events_congr (hlog : c'.tunnelLog = c.tunnelLog) : c'.events = c.events := by
  funext id
  unfold Client.events
  rw [hlog]

/-- The order of events: one close, and a ready tunnel that was not called ready or closed before,
with an address from a body, and granted before exactly if its flag says so. -/
structure Announced (seen : List TunnelEvent) : Prop where
  closed : seen.countP TunnelEvent.isClosed ≤ 1
  ready : ∀ (n : ℕ) info ok, seen[n]? = some (.ready info ok) →
    (∀ e ∈ seen.take n, e.isReady = false ∧ e.isClosed = false) ∧
      (∃ e ∈ seen.take n, info.assignedIp ∈ e.ipv4s) ∧
      ((∃ e ∈ seen.take n, e.grants = true) ↔ ok = true) ∧
      ((∃ e ∈ seen.take n, e.decides = true) → ok = true)

/-- More events, none of them a ready tunnel. -/
theorem Announced.append (h : Announced seen) {new : List TunnelEvent}
    (hquiet : ∀ e ∈ new, e.isReady = false)
    (hclosed : (seen ++ new).countP TunnelEvent.isClosed ≤ 1) : Announced (seen ++ new) := by
  refine ⟨hclosed, fun n info ok hn => ?_⟩
  obtain hlt | hge := lt_or_ge n seen.length
  · rw [getElem?_append_left hlt] at hn
    rw [take_append_of_le_length hlt.le]
    exact h.ready n info ok hn
  · rw [getElem?_append_right hge] at hn
    exact absurd (hquiet _ (mem_of_getElem? hn)) Bool.true_eq_false_eq_False

theorem Announced.snoc_ready (h : Announced seen) {info : TunnelInfo} {ok : Bool}
    (hfirst : ∀ e ∈ seen, e.isReady = false ∧ e.isClosed = false)
    (hip : ∃ e ∈ seen, info.assignedIp ∈ e.ipv4s)
    (hok : (∃ e ∈ seen, e.grants = true) ↔ ok = true)
    (hfinal : (∃ e ∈ seen, e.decides = true) → ok = true) :
    Announced (seen ++ [.ready info ok]) := by
  refine ⟨?_, fun n info' ok' hn => ?_⟩
  · rw [countP_append]
    exact h.closed
  · obtain hlt | hge := lt_or_ge n seen.length
    · rw [getElem?_append_left hlt] at hn
      rw [take_append_of_le_length hlt.le]
      exact h.ready n info' ok' hn
    · have hn' : n = seen.length := by
        have hlt := (List.getElem?_eq_some_iff.1 hn).1
        rw [length_append, length_singleton] at hlt
        omega
      subst hn'
      rw [getElem?_append_right le_rfl, Nat.sub_self, getElem?_cons_zero] at hn
      cases hn
      rw [take_left']
      · exact ⟨hfirst, hip, hok, hfinal⟩
      · rfl

/-! ### The connection that exists -/

/-- The flags of a connection say what it saw. -/
structure Current (s : ClientState) (k : CliConn) (seen : List TunnelEvent) : Prop where
  told : seen.countP TunnelEvent.isClosed = k.tunnelNotified.toNat
  granted : k.tunnelOk = true → ∃ e ∈ seen, e.grants = true
  lasting : (∃ e ∈ seen, e.decides = true) →
    k.tunnelOk = true ∨ k.tunnelNotified = true ∨ k.stream = none
  early : k.handshaken = false → ∀ e ∈ seen, e.decides = false
  received : ∀ a ∈ k.ipv4s, ∃ e ∈ seen, a ∈ e.ipv4s
  ready : (∃ e ∈ seen, e.isReady = true) →
    k.closing = true ∨ s = .tunnelReady ∨ s = .established

theorem Current.fresh (s : ClientState) (c : Client) (now : ℕ) (env : StartEnv) :
    Current s (c.freshConn now env) [] :=
  ⟨rfl, nofun, nofun, fun _ => nofun, nofun, nofun⟩

theorem Current.of_state {s s' : ClientState} (h : Current s k seen)
    (hstate : k.closing = true ∨ s' = .tunnelReady ∨ s' = .established ∨ s' = s) :
    Current s' k seen := by
  refine { h with ready := fun hready => ?_ }
  obtain hclosing | hs' | hs' | rfl := hstate
  · exact .inl hclosing
  · exact .inr (.inl hs')
  · exact .inr (.inr hs')
  · exact h.ready hready

theorem exists_mem_snoc {seen new : List TunnelEvent} {P : TunnelEvent → Prop} :
    (∃ e ∈ seen ++ new, P e) ↔ (∃ e ∈ seen, P e) ∨ ∃ e ∈ new, P e := by
  simp only [mem_append, or_and_right, exists_or]

/-- The connection saw more, and its handshake made no progress. -/
theorem Current.kept {s : ClientState} (h : Current s k seen) {new : List TunnelEvent}
    (hk : k.Kept new k') (hearly : k.handshaken = false → ∀ e ∈ new, e.decides = false) :
    Current s k' (seen ++ new) := by
  refine ⟨?_, fun hok => exists_mem_snoc.2 ?_, fun hdecides => ?_,
    fun hbefore => forall_mem_append.2 ?_, fun a ha => exists_mem_snoc.2 ?_, fun hready => ?_⟩
  · rw [countP_append, h.told, hk.told]
  · exact (hk.granted hok).imp_left h.granted
  · obtain hdecides | hdecides := exists_mem_snoc.1 hdecides
    · obtain hok | hnot | hnone := h.lasting hdecides
      · exact hk.lasting (.inl hok)
      · exact .inr (.inl (hk.notified hnot))
      · exact .inr (.inr (not_not.1 fun hsome => hk.stream hsome hnone))
    · exact hk.lasting (.inr hdecides)
  · rw [eq_of_view CliConn.handshaken hk.fixed] at hbefore
    exact ⟨h.early hbefore, hearly hbefore⟩
  · exact (hk.received a ha).imp_left (h.received a)
  · obtain hready | ⟨e, he, htrue⟩ := exists_mem_snoc.1 hready
    · exact (h.ready hready).imp_left hk.closing
    · rw [hk.quiet e he] at htrue
      cases htrue

/-! ### The invariant -/

/-- What was told is in order, for every connection there was. -/
structure Told (c : Client) : Prop where
  id : ∀ k, c.conn = some k → k.id = c.connId
  bound : ∀ e ∈ c.tunnelLog, e.1 ≤ c.connId
  announced : ∀ id, Announced (c.events id)
  current : ∀ k, c.conn = some k → Current c.state k (c.events k.id)

theorem Told.congr (h : Told c) (hconn : c'.conn = c.conn) (hid : c'.connId = c.connId)
    (hlog : c'.tunnelLog = c.tunnelLog)
    (hstate : ∀ k, c.conn = some k →
      k.closing = true ∨ c'.state = .tunnelReady ∨ c'.state = .established ∨ c'.state = c.state) :
    Told c' := by
  have hevents := events_congr hlog
  refine ⟨?_, ?_, hevents ▸ h.announced, ?_⟩
  · rw [hconn, hid]
    exact h.id
  · rw [hlog, hid]
    exact h.bound
  · rw [hconn, hevents]
    exact fun k hk => (h.current k hk).of_state (hstate k hk)

theorem Told.of_live (h : Told c) (hlive : c'.live = c.live) : Told c' :=
  h.congr (eq_of_view Client.conn hlive)
    (eq_of_view Client.connId hlive)
    (eq_of_view Client.tunnelLog hlive)
    fun _ _ => .inr (.inr (.inr (eq_of_view Client.state hlive)))

theorem Told.of_core (h : Told c) (hcore : c'.core = c.core) : Told c' :=
  h.of_live (live_of_core hcore)

theorem events_append {new : List TunnelEvent} {id : ℕ}
    (hlog : c'.tunnelLog = c.tunnelLog ++ new.map (id, ·)) (id' : ℕ) :
    c'.events id' = c.events id' ++ if id = id' then new else [] := by
  have heq : c'.events id' = (c.logTunnel id new).events id' := by
    unfold Client.events
    rw [hlog]
    rfl
  rw [heq, events_logTunnel]

/-- More is recorded of the connection that exists, which may go. -/
theorem Told.log (h : Told c) (hk : c.conn = some k) (new : List TunnelEvent)
    (hid : c'.connId = c.connId) (hlog : c'.tunnelLog = c.tunnelLog ++ new.map (k.id, ·))
    (hannounced : Announced (c.events k.id ++ new))
    (hconn : c'.conn = none ∨ ∃ k', c'.conn = some k' ∧ k'.id = k.id ∧
      Current c'.state k' (c.events k.id ++ new)) : Told c' := by
  have hevents := events_append hlog
  have hnow : ∀ k', c'.conn = some k' → k'.id = k.id ∧
      Current c'.state k' (c.events k.id ++ new) := by
    intro k' hk'
    obtain hnone | ⟨k₁, hk₁, hcurrent⟩ := hconn
    · cases hnone.symm.trans hk'
    · cases hk₁.symm.trans hk'
      exact hcurrent
  refine ⟨fun k' hk' => ?_, ?_, fun id => ?_, fun k' hk' => ?_⟩
  · exact (hnow k' hk').1.trans ((h.id k hk).trans hid.symm)
  · rw [hlog, hid, forall_mem_append]
    exact ⟨h.bound, by simpa using fun _ _ => (h.id k hk).le⟩
  · rw [hevents]
    split
    · next hid => exact hid ▸ hannounced
    · simpa using h.announced id
  · obtain ⟨hid', hcurrent⟩ := hnow k' hk'
    rwa [hevents, hid', if_pos rfl]

/-! ### Effects of callbacks -/

theorem decides_of_isClosed {e : TunnelEvent} (h : e.isClosed = true) : e.decides = false := by
  cases e <;> first | rfl | cases h

theorem decides_of_grants {e : TunnelEvent} (h : e.grants = true) : e.decides = true := by
  cases e with
  | «section» hdrs => exact find?_isSome.2 ⟨_, of_decide_eq_true h, rfl⟩
  | _ => cases h

/-- The tunnel of a connection becomes ready. -/
theorem Current.snoc_ready {s : ClientState} (h : Current s k seen) (info : TunnelInfo)
    (ok : Bool) :
    Current .tunnelReady k (seen ++ [.ready info ok]) := by
  refine ⟨?_, ?_, ?_, ?_, fun a ha => exists_mem_snoc.2 (.inl (h.received a ha)),
    fun _ => .inr (.inl rfl)⟩
  · rw [countP_append]
    exact h.told
  · exact fun hok => exists_mem_snoc.2 (.inl (h.granted hok))
  · simpa [or_and_right, exists_or, TunnelEvent.decides] using h.lasting
  · exact fun hbefore => forall_mem_append.2 ⟨h.early hbefore, by simp [TunnelEvent.decides]⟩

/-- The handshake finishes before anything was granted. -/
theorem Current.handshaken {s s' : ClientState} (h : Current s k seen)
    (hbefore : k.handshaken = false) (hready : ∀ e ∈ seen, e.isReady = false) {mss : ℕ}
    {stream : Option (List Capsule)} (hstream : stream = k.stream ∨ stream = some [])
    (streamId : StreamId) :
    Current s' { k with
      dgramMss := mss, handshaken := true, stream := stream, masqueStreamId := streamId } seen := by
  have hno : ¬ ∃ e ∈ seen, e.decides = true := by
    rintro ⟨e, he, htrue⟩
    rw [h.early hbefore e he] at htrue
    cases htrue
  refine ⟨h.told, h.granted, fun hdecides => absurd hdecides hno, nofun, ?_, ?_⟩
  · intro a ha
    refine h.received a ?_
    obtain rfl | rfl := hstream
    · exact ha
    · simp only [CliConn.ipv4s, Option.getD_some, ipv4sOf, flatMap_nil, append_nil] at ha
      exact mem_append_left _ ha
  · rintro ⟨e, he, htrue⟩
    rw [hready e he] at htrue
    cases htrue

/-- The tunnel is ready only if the state says so. -/
theorem Current.unready {s : ClientState} (h : Current s k seen) (hopen : k.closing = false)
    (hready : s ≠ .tunnelReady) (hest : s ≠ .established) : ∀ e ∈ seen, e.isReady = false := by
  intro e hmem
  rw [← Bool.not_eq_true]
  intro htrue
  simpa [hopen, hready, hest] using h.ready ⟨e, hmem, htrue⟩

namespace Told

section
variable (h : Told c)
include h

/-- What the connection saw in addition is in order, as long as its tunnel is not called ready. -/
theorem kept (hc : c.conn = some k) {events : List TunnelEvent} (hk : k.Kept events k')
    (hearly : k.handshaken = false → ∀ e ∈ events, e.decides = false) :
    k'.id = k.id ∧ Current c.state k' (c.events k.id ++ events) ∧
      Announced (c.events k.id ++ events) := by
  have hnext := (h.current k hc).kept hk hearly
  exact ⟨eq_of_view CliConn.id hk.fixed, hnext,
    (h.announced k.id).append hk.quiet (hnext.told.trans_le (Bool.toNat_le _))⟩

/-- The body comes first, then the tunnel is ready. -/
theorem ready (hc : c.conn = some k) {capsules : List Capsule} (hk : k.Kept [.body capsules] k')
    (hopen : k.closing = false) (hstream : k'.stream ≠ none) (hnot : k'.tunnelNotified = false)
    (info : TunnelInfo) (hip : info.assignedIp ∈ k'.ipv4s) (hest : c.state ≠ .established)
    (hready : c.state ≠ .tunnelReady) :
    Announced (c.events k.id ++ [.body capsules, .ready info k'.tunnelOk]) ∧
      Current .tunnelReady k' (c.events k.id ++ [.body capsules, .ready info k'.tunnelOk]) := by
  obtain ⟨-, hnext, hann⟩ := h.kept hc hk fun _ => by simp [TunnelEvent.decides]
  have hfirst : ∀ e ∈ c.events k.id ++ [.body capsules],
      e.isReady = false ∧ e.isClosed = false := by
    have hzero := hnext.told
    rw [hnot, Bool.toNat_false, countP_eq_zero] at hzero
    refine fun e he => ⟨?_, Bool.not_eq_true _ ▸ hzero e he⟩
    exact forall_mem_append.2 ⟨(h.current k hc).unready hopen hready hest, hk.quiet⟩ e he
  have hfinal : (∃ e ∈ c.events k.id ++ [.body capsules], e.decides = true) →
      k'.tunnelOk = true :=
    fun hdecides => by simpa [hnot, hstream] using hnext.lasting hdecides
  have hgrant : (∃ e ∈ c.events k.id ++ [.body capsules], e.grants = true) ↔ k'.tunnelOk = true :=
    ⟨fun ⟨e, he, hgrants⟩ => hfinal ⟨e, he, decides_of_grants hgrants⟩, hnext.granted⟩
  have hsplit : c.events k.id ++ [.body capsules, .ready info k'.tunnelOk] =
      (c.events k.id ++ [.body capsules]) ++ [.ready info k'.tunnelOk] := by simp
  rw [hsplit]
  exact ⟨hann.snoc_ready hfirst (hnext.received _ hip) hgrant hfinal, hnext.snoc_ready _ _⟩

/-- **Every effect of a callback keeps the order.** -/
theorem effect (hphase : Phase c) (hc : c.conn = some k) (he : Effect c k c') : Told c' := by
  have hcur := h.current k hc
  have hconnId : c'.connId = c.connId := eq_of_view Client.connId he.base
  cases he with
  | slots hcore => exact h.of_core hcore
  | kept k' events hk hclosed hcore =>
    obtain ⟨hid, hnext, hann⟩ := h.kept hc hk fun hbefore e hmem =>
      decides_of_isClosed (hclosed (not_not.1 fun hsome => by
        simp [hphase.stream k hc hsome] at hbefore) e hmem)
    have hstate : c'.state = c.state := (eq_of_view Client.state hcore).trans rfl
    exact h.log hc events hconnId (eq_of_view Client.tunnelLog hcore) hann
      (.inr ⟨k', eq_of_view Client.conn hcore, hid, hstate ▸ hnext⟩)
  | handshaken now mss stream streamId requests hbefore hopen hstream _ hcore =>
    have hs := hphase.handshake k hc hopen hbefore
    have hnone := hcur.unready hopen (by rw [hs]; decide) (by rw [hs]; decide)
    have hlog : c'.tunnelLog = c.tunnelLog :=
      (eq_of_view Client.tunnelLog hcore).trans (setState_tunnelLog ..)
    refine h.log hc [] hconnId (by simpa using hlog) (by simpa using h.announced k.id)
      (.inr ⟨_, eq_of_view Client.conn hcore, rfl, ?_⟩)
    rw [append_nil]
    exact hcur.handshaken hbefore hnone hstream streamId
  | ready now capsules k' ip mtu hk hopen hstream hnot hip hest hready hcore =>
    obtain ⟨hann, hnext⟩ := h.ready hc hk hopen hstream hnot (tunnelInfo k' ip mtu)
      (mem_append_left _ (by rw [hip]; exact mem_singleton_self _)) hest hready
    have hlog : c'.tunnelLog = c.tunnelLog ++
        [.body capsules, .ready (tunnelInfo k' ip mtu) k'.tunnelOk].map (k.id, ·) := by
      refine (eq_of_view Client.tunnelLog hcore).trans ?_
      exact congrArg (· ++ _) (setState_tunnelLog now .tunnelReady c)
    have hstate : c'.state = .tunnelReady :=
      (eq_of_view Client.state hcore).trans (setState_state ..)
    exact h.log hc _ hconnId hlog hann (.inr ⟨k', eq_of_view Client.conn hcore,
      eq_of_view CliConn.id hk.fixed, hstate ▸ hnext⟩)
  | closed now heq =>
    have hlog : c'.tunnelLog = c.tunnelLog ++
        (if k.tunnelNotified then [] else [TunnelEvent.closed .closed]).map (k.id, ·) := by
      rw [heq]
      obtain ⟨-, hend⟩ | hend := onConnClose_cases now k c <;> rw [hend, setState_tunnelLog] <;> rfl
    refine h.log hc _ hconnId hlog ((h.announced k.id).append ?_ ?_)
      (.inl (by rw [heq, onConnClose_conn]))
    · split <;> simp [TunnelEvent.isReady]
    · rw [countP_append, hcur.told]
      cases k.tunnelNotified <;> simp [TunnelEvent.isClosed]

/-! ### Moves -/

/-- The state does not matter while there is no connection. -/
theorem unconnected (hconn : c'.conn = none) (hid : c.connId ≤ c'.connId)
    (hlog : c'.tunnelLog = c.tunnelLog) : Told c' := by
  refine ⟨by simp [hconn], ?_, events_congr hlog ▸ h.announced, by simp [hconn]⟩
  rw [hlog]
  exact fun e he => (h.bound e he).trans hid

theorem fresh {env : StartEnv} (hconn : c'.conn = some (c.freshConn now env))
    (hid : c'.connId = c.connId + 1) (hlog : c'.tunnelLog = c.tunnelLog) : Told c' := by
  have hevents := events_congr hlog
  have hnone : c.events (c.connId + 1) = [] := by
    unfold Client.events
    rw [map_eq_nil_iff, filter_eq_nil_iff]
    intro e he heq
    have hle := h.bound e he
    rw [beq_iff_eq] at heq
    omega
  refine ⟨?_, ?_, hevents ▸ h.announced, ?_⟩
  · simp [hconn, hid, Client.freshConn]
  · rw [hlog, hid]
    exact fun e he => Nat.le_succ_of_le (h.bound e he)
  · rintro k hk
    cases hconn.symm.trans hk
    rw [hevents, show (c.freshConn now env).id = c.connId + 1 from rfl, hnone]
    exact Current.fresh ..

/-- A start, whatever the state is set to when it succeeds. -/
theorem start (hnone : c.conn = none) (now : ℕ) (env : StartEnv) :
    Told (c.start now env).1 ∧
      ((c.start now env).2 = .started →
        ∀ s, Told (setState now s (c.start now env).1)) := by
  obtain ⟨connId, hle, hfail, heq⟩ | ⟨-, -, hcore⟩ := start_cases c now env
  · refine ⟨?_, fun hok => absurd hok hfail⟩
    rw [heq]
    exact h.unconnected hnone hle rfl
  · have hconn : (c.start now env).1.conn = some (c.freshConn now env) :=
      eq_of_view Client.conn hcore
    have hid : (c.start now env).1.connId = c.connId + 1 :=
      eq_of_view Client.connId hcore
    have hlog : (c.start now env).1.tunnelLog = c.tunnelLog :=
      (eq_of_view Client.tunnelLog hcore).trans rfl
    refine ⟨h.fresh hconn hid hlog, fun _ s => ?_⟩
    exact h.fresh ((setState_conn ..).trans hconn) ((setState_connId ..).trans hid)
      ((setState_tunnelLog ..).trans hlog)

theorem armed (now : ℕ) : Told (armReconnectTimer now c) := by
  obtain ⟨attempts, scheduled, heq⟩ := armReconnectTimer_eq now c
  rw [heq]
  exact h.congr rfl rfl rfl fun _ _ => .inr (.inr (.inr rfl))

theorem restart (hnone : c.conn = none) (now : ℕ) (env : StartEnv) :
    Told (c.restarted now env) := by
  have hreset : Told (resetPathsForReconnect now { c with reconnectScheduledUs := 0 }) :=
    h.congr rfl rfl rfl fun _ _ => .inr (.inr (.inr rfl))
  obtain ⟨hstart, hstarted⟩ := hreset.start hnone now env
  unfold Client.restarted
  dsimp only
  split
  · exact hstart.armed now
  · next hok => exact hstarted (not_not.1 hok) _

theorem connect (hphase : Phase c) (env : StartEnv) : Told (connect now env c).1 := by
  obtain heq | ⟨hs, hcases⟩ | ⟨hs, heq⟩ := connect_cases now env c
  · rw [heq]
    exact h
  · obtain ⟨hstart, hstarted⟩ := h.start (hphase.conn_none (.inl hs)) now env
    obtain ⟨-, heq⟩ | ⟨hok, heq⟩ := hcases
    · rw [heq]
      exact hstart
    · rw [heq]
      exact hstarted hok _
  · rw [heq]
    exact h.restart (hphase.conn_none (.inr hs)) now env

theorem closeConn : Told c.closeConn := by
  cases hc : c.conn with
  | none => exact h.unconnected (by simp [Client.closeConn, hc]) le_rfl rfl
  | some k =>
    have hcur := h.current k hc
    refine h.log hc [] rfl (by simp [Client.closeConn]) (by simpa using h.announced k.id)
      (.inr ⟨{ k with closing := true }, by simp [Client.closeConn, hc], rfl, ?_⟩)
    rw [append_nil]
    exact ⟨hcur.told, hcur.granted, hcur.lasting, hcur.early, hcur.received, fun _ => .inl rfl⟩

/-- **Every move keeps the order.** -/
theorem move (hphase : Phase c) (hmove : Move c c') : Told c' := by
  cases hmove with
  | effect k hc he hre => exact h.effect hphase hc he
  | slots hbusy hslots => exact h.of_core hslots.core
  | detached now i ev hev => exact h.of_core (slotwise_detached hev c now i).core
  | aside handshakeStartedUs tunActive =>
    exact h.congr rfl rfl rfl fun _ _ => .inr (.inr (.inr rfl))
  | connected now env hs => exact h.connect hphase env
  | restarted now env hs => exact h.restart (hphase.conn_none (.inr hs)) now env
  | closing => exact h.closeConn
  | shutDown => exact h.congr rfl rfl rfl fun _ _ => .inr (.inr (.inr rfl))
  | closed now hdrained =>
    exact h.congr (setState_conn ..) (setState_connId ..) (setState_tunnelLog ..)
      fun k hk => .inl (hdrained.closing k hk)
  | established now hs =>
    exact h.congr (setState_conn ..) (setState_connId ..) (setState_tunnelLog ..)
      fun _ _ => .inr (.inr (.inl (setState_state ..)))
  | stranded now attempts scheduled hnone hs =>
    refine h.unconnected ((setState_conn ..).trans hnone) ?_ (setState_tunnelLog ..)
    rw [setState_connId]

end

theorem step (h : Steady c ∧ Told c) (op : Op) : Steady (c.step op) ∧ Told (c.step op) := by
  refine step_inv (P := fun d => Steady d ∧ Told d) ?_ ?_ ?_ h op
  · intro d d' halive hd hmove
    have hphase := hd.1.phase halive
    exact ⟨(hphase.move hmove).steady, hd.2.move hphase hmove⟩
  · exact fun hd hlive => ⟨hd.1.of_live hlive, hd.2.of_live hlive⟩
  · exact fun hd => ⟨hd.1.ended, hd.2.unconnected rfl le_rfl rfl⟩

end Told

theorem told_run (cfg : ClientConfig) (ops : List Op) : Told ((Client.new cfg).run ops) := by
  have hno : ∀ k, (Client.new cfg).conn ≠ some k := fun k => (Option.some_ne_none k).symm
  have hnew : Told (Client.new cfg) :=
    ⟨fun k hk => absurd hk (hno k), by simp [Client.new], fun _ => ⟨Nat.zero_le _, nofun⟩,
      fun k hk => absurd hk (hno k)⟩
  exact (Run.exec_inv Client.step (P := fun d => Steady d ∧ Told d) (fun _ op hd => Told.step hd op)
    ops _ ⟨(phase_new cfg).steady, hnew⟩).2

/-- At most one tunnel of a connection is ready. -/
theorem Announced.ready_once (h : Announced seen) : seen.countP TunnelEvent.isReady ≤ 1 := by
  refine Slots.countP_le_one fun n b hb hready a ha => ?_
  cases b with
  | ready info ok => exact ((h.ready n info ok hb).1 a ha).1
  | _ => cases hready

/-- **What is told of a tunnel, and when it was granted.**  For every connection of every run the
close is told at most once and the ready tunnel at most once; before it neither of them was, and a
body brought its IPv4 address.  A section with the status 200 came before it exactly if
`tunnel_ok` was set at that moment, which the source does not ask for, and exactly if any section
with a final status did.  So every ready tunnel was granted if no body with an IPv4 address comes
before the first final status. -/
theorem tunnel_granted_iff (cfg : ClientConfig) (ops : List Op) (id : ℕ) :
    let seen := ((Client.new cfg).run ops).events id
    seen.countP TunnelEvent.isClosed ≤ 1 ∧ seen.countP TunnelEvent.isReady ≤ 1 ∧
      (∀ (n : ℕ) info ok, seen[n]? = some (.ready info ok) →
        (∀ e ∈ seen.take n, e.isClosed = false) ∧
          (∃ e ∈ seen.take n, info.assignedIp ∈ e.ipv4s) ∧
          ((∃ e ∈ seen.take n, e.grants = true) ↔ ok = true) ∧
          ((∃ e ∈ seen.take n, e.grants = true) ↔ ∃ e ∈ seen.take n, e.decides = true)) ∧
      ((∀ (m : ℕ) e, seen[m]? = some e → e.ipv4s ≠ [] → ∃ e ∈ seen.take m, e.decides = true) →
        ∀ (n : ℕ) info ok, seen[n]? = some (.ready info ok) →
          ∃ e ∈ seen.take n, e.grants = true) := by
  intro seen
  have h : Announced seen := (told_run cfg ops).announced id
  refine ⟨h.closed, h.ready_once, fun n info ok hn => ?_, fun horder n info ok hn => ?_⟩ <;>
    obtain ⟨hfirst, hip, hgrant, hfinal⟩ := h.ready n info ok hn
  · exact ⟨fun e he => (hfirst e he).2, hip, hgrant,
      fun ⟨e, he, hgrants⟩ => ⟨e, he, decides_of_grants hgrants⟩, fun hd => hgrant.2 (hfinal hd)⟩
  · -- the body with the address comes after a final status, and so does the ready tunnel
    obtain ⟨e, he, hip⟩ := hip
    obtain ⟨m, hm⟩ := mem_iff_getElem?.1 he
    rw [getElem?_take] at hm
    split_ifs at hm with hlt
    obtain ⟨f, hf, hdecides⟩ := horder m e hm (ne_nil_of_mem hip)
    exact hgrant.2 (hfinal ⟨f, (take_prefix_take_left (hlt.le)).subset hf, hdecides⟩)

def sampleAssign : List Capsule := [.addressAssign [(4, ⟨[10, 0, 0, 2], 32⟩)]]

def sampleBody : BodyEnv where
  reads := [(true, sampleAssign)]
  udpMss := 1100
  results := []

/-- A request whose response has the status `value`, and then a body. -/
def answered (value : List UInt8) : List Op :=
  [.addPath 1 (some plainOps) 0 [], .connect 2 goodStart,
    .socketRecv [.handshakeFinished 3 sentRequest, .headers [.status value], .body 4 sampleBody]]

theorem tunnel_granted_ok :
    let seen := ((Client.new plainConfig).run (answered [50, 48, 48])).events 1
    (seen[2]?).map TunnelEvent.isReady = some true ∧ ∃ e ∈ seen.take 2, e.grants = true :=
  ⟨by decide +kernel,
    ((tunnel_granted_iff plainConfig (answered [50, 48, 48]) 1).2.2.1 2
      ⟨⟨[10, 0, 0, 2], 32⟩, none, 1100⟩ true (by decide +kernel)).2.2.1.2 rfl⟩

/-- After an interim response (103) a body makes the tunnel ready, without any 200. -/
theorem ready_without_status :
    let seen := ((Client.new plainConfig).run (answered [49, 48, 51])).events 1
    (∃ info ok, seen[2]? = some (.ready info ok)) ∧ ∀ e ∈ seen, e.grants = false := by
  refine ⟨⟨⟨⟨[10, 0, 0, 2], 32⟩, none, 1100⟩, false, ?_⟩, ?_⟩
  · decide +kernel
  · decide +kernel

end Mqvpn.Cli
