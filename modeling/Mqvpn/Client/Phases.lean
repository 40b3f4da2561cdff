import Mqvpn.Client.Moves

/-!
# The client is never stranded

The state of the client, its connection object and its reconnect timer go together: before
and between connections the client is idle, closed or waits for its timer, and with a
connection it is in the phase the connection has reached.  Every failure on the way either
arms the timer or closes, so no state is entered that neither a timer nor an event of the
connection leaves.

## Main definitions

* `Phase` — state, connection and timer agree.

## Main results

* `phases_run` — **every change of state is one of the table, and no state is a dead end**.
-/

namespace Mqvpn.Cli

open Endpoint (ClientState)

variable {c c' : Client} {k k' : CliConn} {now : ℕ}

/-! ### Phases -/

def AfterHandshake (s : ClientState) : Prop :=
  s = .authenticating ∨ s = .tunnelReady ∨ s = .established

/-- The states of a client that works on a connection. -/
def Working (s : ClientState) : Prop := s = .connecting ∨ AfterHandshake s

theorem Working.not_between {s : ClientState} (h : Working s) :
    ¬ (s = .idle ∨ s = .reconnecting ∨ s = .closed) := by
  obtain rfl | rfl | rfl | rfl := h <;> decide

/-- **State, connection and timer agree**, and only changes of the table were made. -/
structure Phase (c : Client) : Prop where
  between : c.conn = none → c.state = .idle ∨ c.state = .reconnecting ∨ c.state = .closed
  handshake : ∀ k, c.conn = some k → k.closing = false → k.handshaken = false →
    c.state = .connecting
  tunnel : ∀ k, c.conn = some k → k.closing = false → k.handshaken = true →
    AfterHandshake c.state
  /-- A connection that was closed locally lasts until its close is notified. -/
  closing : ∀ k, c.conn = some k → k.closing = true →
    Working c.state ∨ c.state = .closed ∧ c.shuttingDown = true
  stream : ∀ k, c.conn = some k → k.stream ≠ none → k.handshaken = true
  scheduled : c.state = .reconnecting → c.reconnectScheduledUs ≠ 0
  log : ∀ t ∈ c.stateLog, stateTransitionValid t.1 t.2 = true

section
variable (h : Phase c)
include h

/-- The phase is a matter of five fields. -/
theorem Phase.congr (hstate : c'.state = c.state) (hconn : c'.conn = c.conn)
    (hdown : c'.shuttingDown = c.shuttingDown)
    (hsched : c'.reconnectScheduledUs = c.reconnectScheduledUs) (hlog : c'.stateLog = c.stateLog) :
    Phase c' := by
  refine ⟨?_, ?_, ?_, ?_, ?_, ?_, ?_⟩
  · rw [hconn, hstate]
    exact h.between
  · rw [hconn, hstate]
    exact h.handshake
  · rw [hconn, hstate]
    exact h.tunnel
  · rw [hconn, hstate, hdown]
    exact h.closing
  · rw [hconn]
    exact h.stream
  · rw [hstate, hsched]
    exact h.scheduled
  · rw [hlog]
    exact h.log

theorem Phase.of_live (hlive : c'.live = c.live) : Phase c' :=
  h.congr (eq_of_view Client.state hlive)
    (eq_of_view Client.conn hlive)
    (eq_of_view Client.shuttingDown hlive)
    (eq_of_view Client.reconnectScheduledUs hlive)
    (eq_of_view Client.stateLog hlive)

theorem Phase.of_core (hcore : c'.core = c.core) : Phase c' :=
  h.of_live (live_of_core hcore)

/-- With a connection the state is one from which it can be closed. -/
theorem Phase.of_conn (hc : c.conn = some k) :
    Working c.state ∨ c.state = .closed ∧ c.shuttingDown = true := by
  cases hclosing : k.closing with
  | true => exact h.closing k hc hclosing
  | false =>
    cases hhand : k.handshaken with
    | true => exact .inl (.inr (h.tunnel k hc hclosing hhand))
    | false => exact .inl (.inl (h.handshake k hc hclosing hhand))

theorem Phase.connected (hstate : Working c.state) : c.conn ≠ none :=
  fun hnone => hstate.not_between (h.between hnone)

/-- The connection changes, its handshake does not. -/
theorem Phase.setConn (hc : c.conn = some k) {events : List TunnelEvent} (hk : k.Kept events k') :
    Phase { c with conn := some k' } := by
  have hhand : k'.handshaken = k.handshaken := eq_of_view CliConn.handshaken hk.fixed
  have hclosing : k'.closing = false → k.closing = false := by
    intro hfalse
    rw [← Bool.not_eq_true]
    intro htrue
    rw [hk.closing htrue] at hfalse
    cases hfalse
  refine ⟨nofun, ?_, ?_, ?_, ?_, h.scheduled, h.log⟩
  · rintro _ ⟨⟩ hopen hbefore
    exact h.handshake k hc (hclosing hopen) (hhand ▸ hbefore)
  · rintro _ ⟨⟩ hopen hafter
    exact h.tunnel k hc (hclosing hopen) (hhand ▸ hafter)
  · exact fun _ _ _ => h.of_conn hc
  · rintro _ ⟨⟩ hstream
    rw [hhand]
    exact h.stream k hc (hk.stream hstream)

end

/-- A change of state, as a fact about the log. -/
theorem setState_log (hlog : ∀ t ∈ c.stateLog, stateTransitionValid t.1 t.2 = true)
    {s : ClientState} (hvalid : c.state = s ∨ stateTransitionValid c.state s = true) :
    ∀ t ∈ (setState now s c).stateLog, stateTransitionValid t.1 t.2 = true := by
  unfold setState
  split
  · exact hlog
  next hne =>
  intro t ht
  rw [List.mem_append, List.mem_singleton] at ht
  obtain ht | rfl := ht
  · exact hlog t ht
  · exact hvalid.resolve_left hne

theorem armReconnectTimer_scheduled (now : ℕ) (c : Client) :
    (armReconnectTimer now c).reconnectScheduledUs ≠ 0 := by
  have hpos : 0 < reconnectDelaySec c := by
    unfold reconnectDelaySec
    dsimp only
    refine backoff_pos (by decide) ?_ _
    split <;> omega
  show now + reconnectDelaySec c * 1000000 ≠ 0
  omega

theorem Phase.unconnected (hconn : c.conn = none)
    (hstate : c.state = .idle ∨ c.state = .reconnecting ∨ c.state = .closed)
    (hsched : c.state = .reconnecting → c.reconnectScheduledUs ≠ 0)
    (hlog : ∀ t ∈ c.stateLog, stateTransitionValid t.1 t.2 = true) : Phase c := by
  have hno : ∀ k, c.conn ≠ some k := by
    intro k
    rw [hconn]
    exact (Option.some_ne_none k).symm
  exact ⟨fun _ => hstate, fun k hk => absurd hk (hno k), fun k hk => absurd hk (hno k),
    fun k hk => absurd hk (hno k), fun k hk => absurd hk (hno k), hsched, hlog⟩

/-- From every state but the first the client can be closed. -/
theorem closed_valid (hstate : c.state ≠ .idle) :
    c.state = .closed ∨ stateTransitionValid c.state .closed = true := by
  cases hs : c.state
  case idle => exact absurd hs hstate
  case closed => exact .inl rfl
  all_goals exact .inr rfl

/-- A connection at work can be followed by a reconnect. -/
theorem reconnecting_valid (hstate : Working c.state) :
    c.state = .reconnecting ∨ stateTransitionValid c.state .reconnecting = true := by
  obtain hs | hs | hs | hs := hstate <;> rw [hs] <;> exact .inr rfl

namespace Phase

variable (h : Phase c)
include h

theorem onConnClose (hc : c.conn = some k) : Phase (onConnClose now k c) := by
  have hstate := h.of_conn hc
  obtain ⟨hup, heq⟩ | heq := onConnClose_cases now k c
  · have hwork : Working (armReconnectTimer now (c.connGone k)).state := by
      refine hstate.resolve_right fun hdown => ?_
      rw [hup] at hdown
      cases hdown.2
    rw [heq]
    refine unconnected (setState_conn ..) (.inr (.inl (setState_state ..))) (fun _ => ?_) ?_
    · rw [setState_scheduled]
      exact armReconnectTimer_scheduled now _
    · exact setState_log (c := armReconnectTimer now (c.connGone k)) h.log
        (reconnecting_valid hwork)
  · have hne : (c.connGone k).state ≠ .idle := by
      intro hidle
      obtain hs | ⟨hs, -⟩ := hstate
      · exact hs.not_between (.inl hidle)
      · exact ClientState.noConfusion (hs.symm.trans hidle)
    rw [heq]
    refine unconnected (setState_conn ..) (.inr (.inr (setState_state ..))) ?_ ?_
    · rw [setState_state]
      exact fun hs => ClientState.noConfusion hs
    · exact setState_log (c := c.connGone k) h.log (closed_valid hne)

theorem advance (hstate : AfterHandshake c.state) {s : ClientState} (hs : AfterHandshake s)
    (hvalid : stateTransitionValid c.state s = true) : Phase (setState now s c) := by
  have hne : c.state ≠ .connecting := by
    obtain hs | hs | hs := hstate <;> rw [hs] <;> decide
  refine ⟨?_, ?_, ?_, ?_, ?_, ?_, setState_log h.log (.inr hvalid)⟩
  · rw [setState_conn]
    exact fun hnone => absurd hnone (h.connected (.inr hstate))
  · rw [setState_conn]
    exact fun k hk hclosing hhand => absurd (h.handshake k hk hclosing hhand) hne
  · rw [setState_state]
    exact fun _ _ _ _ => hs
  · rw [setState_state]
    exact fun _ _ _ => .inl (.inr hs)
  · rw [setState_conn]
    exact h.stream
  · rw [setState_state]
    exact fun hs' => absurd (.inr (.inl hs')) (Working.not_between (.inr hs))

theorem handshaken (hc : c.conn = some k) (hbefore : k.handshaken = false)
    (hopen : k.closing = false) (hclosing : k'.closing = k.closing)
    (hafter : k'.handshaken = true) :
    Phase { setState now .authenticating c with conn := some k' } := by
  have hstate := h.handshake k hc hopen hbefore
  have hvalid : stateTransitionValid c.state .authenticating = true := by
    rw [hstate]
    rfl
  refine ⟨nofun, ?_, ?_, ?_, ?_, ?_, setState_log h.log (.inr hvalid)⟩
  · rintro _ ⟨⟩ - hfalse
    rw [hafter] at hfalse
    cases hfalse
  · exact fun _ _ _ _ => .inl (setState_state ..)
  · rintro _ ⟨⟩ htrue
    rw [hclosing, hopen] at htrue
    cases htrue
  · rintro _ ⟨⟩ -
    exact hafter
  · show (setState now .authenticating c).state = .reconnecting → _
    rw [setState_state]
    exact fun hs => ClientState.noConfusion hs

/-- **Every effect of a callback keeps the phase.** -/
theorem effect (hc : c.conn = some k) (he : Effect c k c') : Phase c' := by
  cases he with
  | slots hcore => exact h.of_core hcore
  | kept k' events hk _ hcore =>
    refine of_core ?_ hcore
    exact (h.setConn hc hk).congr rfl rfl rfl rfl rfl
  | handshaken now mss stream streamId requests hbefore hopen _ _ hcore =>
    have hnext : Phase { setState now .authenticating c with
        conn := some { k with
          dgramMss := mss, handshaken := true, stream := stream, masqueStreamId := streamId } } :=
      h.handshaken hc hbefore hopen rfl rfl
    refine of_core ?_ hcore
    exact hnext.congr rfl rfl rfl rfl rfl
  | ready now capsules k' ip mtu hk hopen hstream _ _ hest hready hcore =>
    have hafter := h.tunnel k hc hopen (h.stream k hc (hk.stream hstream))
    have hauth : c.state = .authenticating := hafter.resolve_right fun hs => hs.elim hready hest
    have hvalid : stateTransitionValid c.state .tunnelReady = true := by
      rw [hauth]
      rfl
    have hnext : Phase (setState now .tunnelReady { c with conn := some k' }) :=
      (h.setConn hc hk).advance hafter (.inr (.inl rfl)) hvalid
    rw [setState_setConn] at hnext
    refine of_core ?_ hcore
    exact hnext.congr rfl rfl rfl rfl rfl
  | closed now heq =>
    rw [heq]
    exact h.onConnClose hc

/-! ### Moves -/

omit h in
/-- A connection is started, or nothing has changed. -/
theorem start (hstate : stateTransitionValid c.state .connecting = true)
    (hlog : ∀ t ∈ c.stateLog, stateTransitionValid t.1 t.2 = true) (now : ℕ) (env : StartEnv) :
    ((c.start now env).2 = .started → Phase (setState now .connecting (c.start now env).1)) ∧
      ((c.start now env).2 ≠ .started →
        ∃ connId starts, (c.start now env).1 = { c with connId := connId, starts := starts }) := by
  obtain ⟨connId, -, hfail, heq⟩ | ⟨-, hok, hcore⟩ := start_cases c now env
  · exact ⟨fun hok => absurd hok hfail, fun _ => ⟨connId, _, heq⟩⟩
  · refine ⟨fun _ => ?_, fun hfail => absurd hok hfail⟩
    generalize (c.start now env).1 = c₁ at hcore ⊢
    have hconn₁ : c₁.conn = some (c.freshConn now env) :=
      eq_of_view Client.conn hcore
    have hstate₁ : c₁.state = c.state := (eq_of_view Client.state hcore).trans rfl
    have hlog₁ : c₁.stateLog = c.stateLog :=
      (eq_of_view Client.stateLog hcore).trans rfl
    have hfresh : ∀ k, (setState now .connecting c₁).conn = some k → k = c.freshConn now env := by
      intro k hk
      rw [setState_conn, hconn₁] at hk
      exact (Option.some.inj hk).symm
    refine ⟨?_, ?_, ?_, ?_, ?_, ?_, setState_log (hlog₁ ▸ hlog) (.inr (hstate₁ ▸ hstate))⟩
    · intro hnone
      rw [setState_conn, hconn₁] at hnone
      cases hnone
    · exact fun _ _ _ _ => setState_state ..
    · intro k hk _ hhand
      rw [hfresh k hk] at hhand
      cases hhand
    · intro k hk hclosing
      rw [hfresh k hk] at hclosing
      cases hclosing
    · intro k hk hstream
      rw [hfresh k hk] at hstream
      exact absurd rfl hstream
    · rw [setState_state]
      exact fun hs => ClientState.noConfusion hs

theorem conn_none (hstate : c.state = .idle ∨ c.state = .reconnecting) : c.conn = none := by
  cases hc : c.conn with
  | none => rfl
  | some k =>
    obtain hs | ⟨hs, -⟩ := h.of_conn hc
    · exact absurd (hstate.imp_right .inl) hs.not_between
    · rw [hs] at hstate
      obtain hs | hs := hstate <;> cases hs

theorem restart (hstate : c.state = .reconnecting) (now : ℕ) (env : StartEnv) :
    Phase (c.restarted now env) := by
  have hvalid : stateTransitionValid c.state .connecting = true := by
    rw [hstate]
    rfl
  obtain ⟨hok, hfail⟩ := start
    (c := resetPathsForReconnect now { c with reconnectScheduledUs := 0 }) hvalid h.log now env
  unfold Client.restarted
  dsimp only
  split
  · next hne =>
    obtain ⟨connId, starts, heq⟩ := hfail hne
    rw [heq]
    exact .unconnected (h.conn_none (.inr hstate)) (.inr (.inl hstate))
      (fun _ => armReconnectTimer_scheduled now _) h.log
  · next heq => exact hok (not_not.1 heq)

theorem connect (env : StartEnv) : Phase (connect now env c).1 := by
  obtain heq | ⟨hs, hstart⟩ | ⟨hs, heq⟩ := connect_cases now env c
  · rw [heq]
    exact h
  · have hvalid : stateTransitionValid c.state .connecting = true := by
      rw [hs]
      rfl
    obtain ⟨hok, hfail⟩ := start hvalid h.log now env
    obtain ⟨hne, heq⟩ | ⟨hstarted, heq⟩ := hstart
    · obtain ⟨connId, starts, hsame⟩ := hfail hne
      rw [heq, hsame]
      exact h.congr rfl rfl rfl rfl rfl
    · rw [heq]
      exact hok hstarted
  · rw [heq]
    exact h.restart hs now env

theorem closeConn : Phase c.closeConn := by
  unfold Client.closeConn
  cases hc : c.conn with
  | none => exact h.congr rfl hc.symm rfl rfl rfl
  | some k =>
    have hk : k.Kept [] { k with closing := true } :=
      ⟨rfl, fun _ => rfl, fun h => h, nofun, rfl, .inl, fun h => h.elim .inl nofun, .inl,
       fun _ => .inl⟩
    exact h.setConn hc hk

theorem shutDown : Phase { c with shuttingDown := true } :=
  ⟨h.between, h.handshake, h.tunnel, fun k hk hclosing =>
    (h.closing k hk hclosing).imp_right fun hs => ⟨hs.1, rfl⟩, h.stream, h.scheduled, h.log⟩

end Phase

/-- A client that is being disconnected, while the engine runs. -/
structure Draining (c : Client) : Prop where
  phase : Phase c
  down : c.shuttingDown = true
  started : c.state ≠ .idle
  closing : ∀ k, c.conn = some k → k.closing = true

theorem Draining.close (h : Draining c) : Phase (setState now .closed c) := by
  have hclosing : ∀ k, (setState now .closed c).conn = some k → k.closing = true := by
    rw [setState_conn]
    exact h.closing
  have hdown : (setState now .closed c).shuttingDown = true :=
    (congrArg Client.shuttingDown (base_setState now .closed c)).trans h.down
  refine ⟨fun _ => .inr (.inr (setState_state ..)), ?_, ?_, ?_, ?_, ?_,
    setState_log h.phase.log (closed_valid h.started)⟩
  · intro k hk hfalse
    rw [hclosing k hk] at hfalse
    cases hfalse
  · intro k hk hfalse
    rw [hclosing k hk] at hfalse
    cases hfalse
  · exact fun _ _ _ => .inr ⟨setState_state .., hdown⟩
  · rw [setState_conn]
    exact h.phase.stream
  · rw [setState_state]
    exact fun hs => ClientState.noConfusion hs

/-- **Every move keeps the phase.** -/
theorem Phase.move (h : Phase c) (hmove : Move c c') : Phase c' := by
  cases hmove with
  | effect k hc he hre => exact h.effect hc he
  | slots hbusy hslots => exact h.of_core hslots.core
  | detached now i ev hev => exact h.of_core (slotwise_detached hev c now i).core
  | aside handshakeStartedUs tunActive => exact h.congr rfl rfl rfl rfl rfl
  | connected now env hs => exact h.connect env
  | restarted now env hs => exact h.restart hs now env
  | closing => exact h.closeConn
  | shutDown => exact h.shutDown
  | closed now hdrained =>
    exact Draining.close ⟨h, hdrained.down, hdrained.started, hdrained.closing⟩
  | established now hs =>
    refine h.advance (.inr (.inl hs)) (.inr (.inr rfl)) ?_
    rw [hs]
    rfl
  | stranded now attempts scheduled hnone hs => exact absurd hnone (h.connected (.inl hs))

/-! ### Runs -/

/-- A client is in a phase until it is destroyed, and only made changes of the table. -/
structure Steady (c : Client) : Prop where
  log : ∀ t ∈ c.stateLog, stateTransitionValid t.1 t.2 = true
  phase : c.destroyed = false → Phase c

theorem Phase.steady (h : Phase c) : Steady c := ⟨h.log, fun _ => h⟩

theorem Steady.of_live (h : Steady c) (hlive : c'.live = c.live) : Steady c' := by
  have hlog : c'.stateLog = c.stateLog := eq_of_view Client.stateLog hlive
  have hdestroyed : c'.destroyed = c.destroyed := eq_of_view Client.destroyed hlive
  exact ⟨hlog ▸ h.log, fun halive => (h.phase (hdestroyed ▸ halive)).of_live hlive⟩

theorem Steady.ended (h : Steady c) : Steady { c with conn := none, destroyed := true } :=
  ⟨h.log, nofun⟩

theorem Steady.step (h : Steady c) (op : Op) : Steady (c.step op) :=
  step_inv (fun halive hd hmove => ((hd.phase halive).move hmove).steady)
    (fun hd hlive => hd.of_live hlive) (fun hd => hd.ended) h op

theorem phase_new (cfg : ClientConfig) : Phase (Client.new cfg) :=
  .unconnected rfl (.inl rfl) nofun nofun

theorem steady_run (cfg : ClientConfig) (ops : List Op) : Steady ((Client.new cfg).run ops) :=
  Run.exec_inv Client.step (fun _ op hd => hd.step op) ops _ (phase_new cfg).steady

theorem start_starts (c : Client) (now : ℕ) (env : StartEnv) :
    (c.start now env).1.starts = c.starts ++ [c.startRecord env (c.start now env).2] := by
  obtain ⟨connId, -, -, heq⟩ | ⟨-, hok, hcore⟩ := start_cases c now env
  · exact congrArg Client.starts heq
  · rw [hok]
    exact eq_of_view Client.starts hcore

/-- A timer that is due starts a connection. -/
theorem tickReconnect_starts (hstate : c.state = .reconnecting)
    (hsched : c.reconnectScheduledUs ≠ 0)
    (hdue : c.reconnectScheduledUs ≤ now) (env : StartEnv) :
    ∃ s, (tickReconnect now env c).1.starts = c.starts ++ [s] := by
  have heq : (tickReconnect now env c).1 = c.restarted now env := by
    obtain ⟨hwait, -⟩ | ⟨-, heq⟩ := tickReconnect_cases now env c
    · exact absurd hwait (not_or.2 ⟨not_not.2 hstate, not_or.2 ⟨hsched, not_lt.2 hdue⟩⟩)
    · exact heq
  refine ⟨_, Eq.trans ?_ (start_starts
    (resetPathsForReconnect now { c with reconnectScheduledUs := 0 }) now env)⟩
  rw [heq]
  unfold Client.restarted
  dsimp only
  split
  · rfl
  · exact setState_starts ..

/-- **Every change of state is one of the table, and no state is a dead end**, whatever calls are
made and whatever xquic does: a client that waits for a reconnect has a timer that starts one
when it is due, and a client at work has a connection whose end it leaves its state with. -/
theorem phases_run (cfg : ClientConfig) (ops : List Op) :
    let c := (Client.new cfg).run ops
    (∀ t ∈ c.stateLog, stateTransitionValid t.1 t.2 = true) ∧
      (c.destroyed = false →
        (c.state = .reconnecting →
          c.reconnectScheduledUs ≠ 0 ∧
            ∀ now env, c.reconnectScheduledUs ≤ now →
              ∃ s, (tickReconnect now env c).1.starts = c.starts ++ [s]) ∧
        ((c.state = .connecting ∨ c.state = .authenticating ∨ c.state = .tunnelReady ∨
            c.state = .established) →
          c.conn ≠ none ∧ ∀ now,
            (c.callback (.connClose now)).state = .reconnecting ∨
              (c.callback (.connClose now)).state = .closed)) := by
  intro c
  have hsteady := steady_run cfg ops
  refine ⟨hsteady.log, fun halive => ⟨fun hstate => ?_, fun hstate => ?_⟩⟩
  · have hsched := (hsteady.phase halive).scheduled hstate
    exact ⟨hsched, fun now env hdue => tickReconnect_starts hstate hsched hdue env⟩
  · have hconn := (hsteady.phase halive).connected hstate
    refine ⟨hconn, fun now => ?_⟩
    obtain ⟨k, hk⟩ := Option.ne_none_iff_exists'.1 hconn
    unfold Client.callback
    rw [show c.conn = some k from hk]
    exact onConnClose_state now k c

def plainConfig : ClientConfig where
  multipath := true
  backupFec := false
  reconnectEnable := true
  reconnectIntervalSec := 5
  requestServerScheduler := false
  reorder := .default
  tunMtu := 0

/-- Operations with a release and counters. -/
def plainOps : PathOps where
  release := true
  getStats := true

/-- A start that xquic accepts. -/
def goodStart : StartEnv where
  connAlloc := true
  h3Connect := true
  dgramMss := 1200
  txAlloc := true
  rxAlloc := true

def sentRequest : RequestEnv where
  dgramMss := 1200
  streamAlloc := true
  requestCreate := true
  sendHeaders := true
  streamId := 0

def lostConnection : List Op :=
  [.addPath 1 (some plainOps) 0 [], .connect 2 goodStart,
    .socketRecv [.handshakeFinished 3 sentRequest, .connClose 4]]

theorem phases_run_lostConnection :
    let c := (Client.new plainConfig).run lostConnection
    c.state = .reconnecting ∧ c.reconnectScheduledUs ≠ 0 :=
  ⟨by decide +kernel,
    (((phases_run plainConfig lostConnection).2 (by decide +kernel)).1 (by decide +kernel)).1⟩

end Mqvpn.Cli
