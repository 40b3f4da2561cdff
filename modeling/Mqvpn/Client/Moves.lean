import Mqvpn.Client.Effects
import Mathlib.Logic.Relation

/-!
# What a call can do

A call of the platform comes to moves: a callback has one of its effects, slots are worked on, a
connection is started or closed, the state is set.  Between two moves the client is in order, so
what every move keeps is kept by every call, and each invariant of the client is one case
analysis.

Three calls do more than that: a path is added with its transport, a transport is given back, and
the client is destroyed.

## Main definitions

* `Move`, `Moves` — a move, and any number of them.
* `Call` — what a call comes to.

## Main results

* `SlotsInv.callbackOn` — whatever xquic calls back, the slots keep their transports.
* `call_step` — **what a call comes to**.
* `step_inv` — what every move keeps, every call keeps.
-/

namespace Mqvpn.Cli

open Endpoint (ClientState)

variable {c c' : Client} {i : ℕ} {p : PathEntry} {now : ℕ}

/-! ### Slots under callbacks -/

@[simp] theorem table_setState (now : ℕ) (s : ClientState) (c : Client) :
    (setState now s c).table = c.table := by
  unfold setState
  split <;> rfl

theorem SlotsInv.tunnelReady (h : SlotsInv c) (now : ℕ) (k : CliConn) (ip : Assigned) (mtu : ℤ)
    (results : List ActivateResult) : Reslotted c (c.tunnelReady now k ip mtu results) := by
  have hconfirm := (slotwise_confirmPrimary c now).reslotted h
  unfold Client.tunnelReady
  refine hconfirm.trans (hconfirm.slots.after (slotwise_releasePathHold ..).reslotted ?_)
  exact table_setState ..

theorem SlotsInv.body (h : SlotsInv c) (now : ℕ) (env : BodyEnv) (k : CliConn)
    (buf : List Capsule) : Reslotted c (onBody now env k buf c) := by
  have hstill : ∀ d : Client, d.table = c.table → Reslotted c d := fun _ => h.still
  unfold onBody
  dsimp only
  split
  · exact hstill _ rfl
  split
  · exact hstill _ rfl
  split
  · exact hstill _ rfl
  split
  · exact hstill _ rfl
  split
  · exact h.after (fun hd => hd.tunnelReady ..) rfl
  · exact hstill _ rfl

theorem table_onConnClose (now : ℕ) (k : CliConn) (c : Client) :
    (onConnClose now k c).table = c.table := by
  obtain ⟨-, heq⟩ | heq := onConnClose_cases now k c <;> rw [heq] <;> exact table_setState ..

/-- **Whatever xquic calls back, the slots keep their transports.** -/
theorem SlotsInv.callbackOn (h : SlotsInv c) (k : CliConn) (cb : Callback) :
    Reslotted c (c.callbackOn k cb) := by
  have hstill : ∀ d : Client, d.table = c.table → Reslotted c d := fun _ => h.still
  unfold Client.callbackOn
  cases cb with
  | handshakeFinished now env =>
    dsimp only
    split
    · exact .refl h
    · unfold masqueStartTunnel
      split <;> exact hstill _ (table_setState now .authenticating c)
  | certRejected | headers =>
    dsimp only
    split <;> exact hstill _ rfl
  | body now env =>
    dsimp only
    split
    · exact .refl h
    split
    · exact .refl h
    · exact h.after (fun hd => hd.body ..) rfl
  | requestClose =>
    dsimp only
    split <;> exact hstill _ rfl
  | connClose now => exact hstill _ (table_onConnClose now k c)
  | readyToCreatePath now results =>
    dsimp only
    split
    · exact hstill _ rfl
    · exact h.after (slotwise_activatePendingPaths ..).reslotted rfl
  | pathRemoved now pathId =>
    dsimp only
    split
    · exact .refl h
    · refine (slotwise_onPathEvent ?_ rfl c now _).reslotted h
      exact trivial
  | mssUpdated mss udpMss =>
    dsimp only
    split <;> exact hstill _ rfl

/-! ### Slots under starts -/

/-- Path `0` comes with the connection, on a primary slot that was pending. -/
theorem SlotsInv.start (h : SlotsInv c) (hrest : Rested c) (now : ℕ) (env : StartEnv) :
    Reslotted c (c.start now env).1 := by
  unfold Client.start
  dsimp only
  obtain ⟨connId, result, -, -, heq⟩ | ⟨-, hattached, heq⟩ := startConnection_cases now env c
  · rw [heq]
    exact h.still rfl
  rw [heq]
  have hunissued := h.unissued hrest []
  unfold Client.bootstrap
  dsimp only
  split
  · exact hunissued.congr rfl (List.nil_subset _) rfl
  next pp hpp =>
  have hatt := hattached pp hpp
  have hinv := h.inv _ pp hpp
  have hpending := (hrest _ pp hpp).pending hinv hatt
  have hafter : pp.recreateAfterUs = 0 := by
    have hok := hinv.ok.2
    rw [hpending] at hok
    exact hok.2.2.2.2.1
  have hcreated : setPathState now .validating { pp with xqcPathId := 0, xquicPathLive := true } =
      pp.created now 0 := by
    unfold PathEntry.created
    rw [← hafter]
  have hmoved : pp.Moved (some 0) (pp.created now 0) := hinv.created hatt 0
  rw [hcreated]
  refine hunissued.trans (hunissued.slots.moved hpp hmoved rfl rfl (List.nil_subset _) ?_)
  rintro _ ⟨⟩
  exact ⟨List.not_mem_nil, List.mem_singleton_self _⟩

theorem SlotsInv.restart (h : SlotsInv c) (now : ℕ) (env : StartEnv) :
    Reslotted c (c.restarted now env) := by
  have hclear : Reslotted c { c with reconnectScheduledUs := 0 } := h.still rfl
  obtain ⟨hreset, hrest⟩ := hclear.slots.reset now
  have hstart := (hclear.trans hreset).trans (hreset.slots.start hrest now env)
  unfold Client.restarted
  dsimp only
  split
  · obtain ⟨attempts, scheduled, heq⟩ := armReconnectTimer_eq now
      ((resetPathsForReconnect now { c with reconnectScheduledUs := 0 }).start now env).1
    rw [heq]
    exact hstart.trans (hstart.slots.still rfl)
  · exact hstart.trans (hstart.slots.still (table_setState ..))

theorem SlotsInv.connect (h : SlotsInv c) (hrest : c.state = .idle → Rested c) (now : ℕ)
    (env : StartEnv) : Reslotted c (connect now env c).1 := by
  obtain heq | ⟨hs, hstart⟩ | ⟨-, heq⟩ := connect_cases now env c
  · rw [heq]
    exact .refl h
  · have hnext := h.start (hrest hs) now env
    obtain ⟨-, heq⟩ | ⟨-, heq⟩ := hstart
    · rw [heq]
      exact hnext
    · rw [heq]
      exact hnext.trans (hnext.slots.still (table_setState ..))
  · rw [heq]
    exact h.restart now env

/-! ### Moves -/

/-- A client whose connection was closed locally, while the engine runs. -/
structure Drained (c : Client) : Prop where
  down : c.shuttingDown = true
  started : c.state ≠ .idle
  closing : ∀ k, c.conn = some k → k.closing = true

/-- A step of a call. -/
inductive Move (c : Client) : Client → Prop
  /-- A callback. -/
  | effect {c' : Client} (k : CliConn) (hc : c.conn = some k) (he : Effect c k c')
      (hre : SlotsInv c → Reslotted c c') : Move c c'
  /-- Slots are worked on, by a client that is at work. -/
  | slots {c' : Client} (hbusy : c.conn ≠ none ∨ c.state ≠ .idle) (h : Slotwise c c') : Move c c'
  /-- A slot loses its transport. -/
  | detached (now i : ℕ) (ev : PathEvent) (hev : ev = .platformDrop ∨ ev = .removeApi) :
      Move c (c.onPathEvent now ev i)
  /-- Nothing of what is shown here depends on these fields. -/
  | aside (handshakeStartedUs : ℕ) (tunActive : Bool) :
      Move c { c with handshakeStartedUs := handshakeStartedUs, tunActive := tunActive }
  | connected (now : ℕ) (env : StartEnv) (hs : c.state = .idle) : Move c (connect now env c).1
  | restarted (now : ℕ) (env : StartEnv) (hs : c.state = .reconnecting) :
      Move c (c.restarted now env)
  | closing : Move c c.closeConn
  | shutDown : Move c { c with shuttingDown := true }
  | closed (now : ℕ) (h : Drained c) : Move c (setState now .closed c)
  | established (now : ℕ) (hs : c.state = .tunnelReady) : Move c (setState now .established c)
  /-- The watchdog finds no connection. -/
  | stranded (now attempts scheduled : ℕ) (hnone : c.conn = none) (hs : c.state = .connecting) :
      Move c (setState now .reconnecting
        { c with reconnectAttempts := attempts, reconnectScheduledUs := scheduled })

def Moves : Client → Client → Prop := Relation.ReflTransGen Move

theorem Moves.refl (c : Client) : Moves c c := Relation.ReflTransGen.refl

theorem Move.moves (h : Move c c') : Moves c c' := Relation.ReflTransGen.single h

theorem Moves.trans {c₀ c₁ c₂ : Client} (h : Moves c₀ c₁) (h' : Moves c₁ c₂) : Moves c₀ c₂ :=
  Relation.ReflTransGen.trans h h'

theorem Moves.inv {P : Client → Prop} (hmoves : Moves c c')
    (hmove : ∀ {d d' : Client}, P d → Move d d' → P d') (h : P c) : P c' := by
  induction hmoves with
  | refl => exact h
  | tail _ hlast ih => exact hmove ih hlast

theorem moves_mainLogic (c : Client) (cbs : List Callback) : Moves c (c.mainLogic cbs) := by
  refine Run.exec_inv Client.callback (P := Moves c) (fun d cb hd => hd.trans ?_) cbs c (.refl c)
  unfold Client.callback
  split
  · exact .refl d
  · next k hk =>
    exact (Move.effect k hk (callbackOn_effect d k cb) fun h => h.callbackOn k cb).moves

theorem Drained.mainLogic (h : Drained c) (cbs : List Callback) : Drained (c.mainLogic cbs) := by
  refine mainLogic_inv (fun hd hc he => ?_) h cbs
  exact ⟨(congrArg Client.shuttingDown he.base).trans hd.down, he.not_idle hd.started,
    he.closing hc (hd.closing _ hc)⟩

section
variable (now : ℕ)

theorem moves_connect (env : StartEnv) (c : Client) : Moves c (connect now env c).1 := by
  obtain heq | ⟨hs, -⟩ | ⟨hs, heq⟩ := connect_cases now env c
  · rw [heq]
    exact .refl c
  · exact (Move.connected now env hs).moves
  · rw [heq]
    exact (Move.restarted now env hs).moves

theorem moves_disconnect (flush drain : List Callback) (c : Client) :
    Moves c (disconnect now flush drain c) := by
  unfold disconnect
  split
  · exact .refl c
  next hstate =>
  have hflush : Moves c ({ c with shuttingDown := true }.mainLogic flush) :=
    Move.shutDown.moves.trans (moves_mainLogic ..)
  have hclosed : Drained ({ c with shuttingDown := true }.mainLogic flush).closeConn := by
    refine ⟨congrArg Client.shuttingDown (mainLogic_base ..), ?_, fun k hk => ?_⟩
    · exact mainLogic_not_idle { c with shuttingDown := true }
        (fun hidle => hstate (.inr hidle)) flush
    · obtain ⟨k₀, -, rfl⟩ := Option.map_eq_some_iff.1 hk
      rfl
  have hdrain := hflush.trans (Move.closing.moves.trans (moves_mainLogic _ drain))
  exact hdrain.trans (Move.closed now (hclosed.mainLogic drain)).moves

theorem moves_watchdog (c : Client) : Moves c (tickHandshakeWatchdog now c) := by
  have hclear : Moves c { c with handshakeStartedUs := 0 } := (Move.aside 0 c.tunActive).moves
  unfold tickHandshakeWatchdog
  split
  · exact .refl c
  split
  · exact .refl c
  next hstall =>
  simp only [handshakeStalled, Bool.not_eq_true', decide_eq_false_iff_not, not_not] at hstall
  dsimp only
  split
  · exact hclear.trans Move.closing.moves
  · next hnone =>
    rw [Option.isSome_iff_ne_none, not_not] at hnone
    refine hclear.trans (Move.moves ?_)
    obtain ⟨attempts, scheduled, heq⟩ := armReconnectTimer_eq now { c with handshakeStartedUs := 0 }
    rw [heq]
    exact .stranded now attempts scheduled hnone hstall.1

theorem moves_tickPathRecovery (validated : List ℕ) (results : List ActivateResult) (c : Client) :
    Moves c (tickPathRecovery now validated results c) := by
  by_cases hs : c.state = .idle
  · rw [tickPathRecovery, if_pos (by rw [hs]; simp)]
    exact .refl c
  · exact (Move.slots (.inr hs) (slotwise_tickPathRecovery ..)).moves

theorem moves_tickReconnect (env : StartEnv) (c : Client) :
    Moves c (tickReconnect now env c).1 := by
  obtain ⟨-, heq⟩ | ⟨hs, heq⟩ := tickReconnect_cases now env c
  · rw [heq]
    exact .refl c
  · rw [heq]
    exact (Move.restarted now env hs).moves

theorem moves_tick (env : TickEnv) (c : Client) : Moves c (tick env c) := by
  have hengine := (moves_watchdog env.watchdogUs c).trans (moves_mainLogic _ env.engine)
  have hrecovery := hengine.trans
    (moves_tickPathRecovery env.recoveryUs env.validated env.results _)
  have hreconnect := hrecovery.trans (moves_tickReconnect env.reconnectUs env.start _)
  unfold tick
  dsimp only
  split
  · exact hreconnect.trans (moves_mainLogic ..)
  · exact hreconnect

theorem moves_setTunActive (active : Bool) (c : Client) : Moves c (setTunActive now active c) := by
  have hactive : Moves c { c with tunActive := active } :=
    (Move.aside c.handshakeStartedUs active).moves
  unfold setTunActive
  dsimp only
  split
  · next hready =>
    simp only [Bool.and_eq_true, decide_eq_true_eq] at hready
    refine hactive.trans (Move.moves ?_)
    exact .established now hready.2
  · exact hactive

end

theorem moves_removePath (now handle : ℕ) (c : Client) : Moves c (removePath now handle c).1 := by
  unfold removePath
  split
  · exact .refl c
  split
  · exact .refl c
  · exact (Move.detached now _ _ (.inr rfl)).moves

theorem moves_onPlatformPathDropped (now handle : ℕ) (c : Client) :
    Moves c (onPlatformPathDropped now handle c).1 := by
  unfold onPlatformPathDropped
  split
  · exact .refl c
  · exact (Move.detached now _ _ (.inl rfl)).moves

theorem moves_reactivatePath (now handle : ℕ) (result : ActivateResult) (c : Client) :
    Moves c (reactivatePath now handle result c).1 := by
  by_cases hs : c.state = .idle
  · rw [reactivatePath, if_pos (by rw [hs]; exact .inl (by decide))]
    exact .refl c
  · exact (Move.slots (.inr hs) (slotwise_reactivatePath ..)).moves

/-! ### Calls -/

inductive Call (c : Client) : Client → Prop
  | moves {c' : Client} (h : Moves c c') : Call c c'
  /-- A transport is handed over. -/
  | added {c' : Client} (i now : ℕ) (o : PathOps) (ctx : ℕ) (hfree : freeIdx c = some i)
      (h : Moves (c.added i now o ctx) c') : Call c c'
  /-- The transport of a dropped slot ends. -/
  | released (i : ℕ) (p : PathEntry) (now : ℕ) (stats : Option (ℕ × ℕ))
      (hp : c.paths[i]? = some p) (hdropped : p.state = .closedDropped)
      (howed : p.transportReleased = false) : Call c (c.finalize i p (p.givenBack now) stats)
  /-- The client is destroyed, and every transport ends. -/
  | destroyed {d : Client} (h : Moves c d) (stats : List (Option (ℕ × ℕ))) :
      Call c ({ d with conn := none, destroyed := true }.finalizeAll stats)

theorem call_addPath (now : ℕ) (ops : Option PathOps) (ctx : ℕ) (results : List ActivateResult)
    (c : Client) : Call c (addPath now ops ctx results c).1 := by
  obtain heq | ⟨o, i, -, hfree, heq | ⟨hconn, heq⟩⟩ := addPath_cases now ops ctx results c
  · rw [heq]
    exact .moves (.refl c)
  · rw [heq]
    exact .added i now o ctx hfree (.refl _)
  · rw [heq]
    refine .added i now o ctx hfree (Move.slots (.inl ?_) (slotwise_activatePendingPaths ..)).moves
    exact hconn

/-- **What a call comes to.** -/
theorem call_step (halive : c.destroyed = false) (op : Op) : Call c (c.step op) := by
  unfold Client.step
  rw [if_neg (Bool.eq_false_iff.1 halive)]
  cases op with
  | addPath now ops ctx results => exact call_addPath now ops ctx results c
  | removePath now handle => exact .moves (moves_removePath ..)
  | pathDropped now handle => exact .moves (moves_onPlatformPathDropped ..)
  | pathReleased now handle stats =>
    obtain heq | ⟨i, p, hp, -, hdropped, howed, -, heq⟩ :=
      onPlatformPathReleased_cases now handle stats c
    · dsimp only
      rw [heq]
      exact .moves (.refl c)
    · dsimp only
      rw [heq]
      exact .released i p now stats hp hdropped howed
  | reactivatePath now handle result => exact .moves (moves_reactivatePath ..)
  | connect now env => exact .moves (moves_connect ..)
  | disconnect now flush drain => exact .moves (moves_disconnect ..)
  | tick env => exact .moves (moves_tick ..)
  | socketRecv engine => exact .moves (moves_mainLogic ..)
  | setTunActive now active => exact .moves (moves_setTunActive ..)
  | destroy flush teardown stats =>
    have hflush : Moves c ({ c with shuttingDown := true }.mainLogic flush) :=
      Move.shutDown.moves.trans (moves_mainLogic ..)
    exact .destroyed (hflush.trans (moves_mainLogic _ teardown)) stats

/-! ### What moves keep -/

/-- The client with nothing but its books. -/
def Client.books (c : Client) : Client :=
  { c.base with connId := 0, shuttingDown := false, tunActive := false, starts := [] }

theorem books_of_core (h : c'.core = c.core) : c'.books = c.books :=
  eq_of_view Client.books h

@[simp] theorem books_setState (now : ℕ) (s : ClientState) (c : Client) :
    (setState now s c).books = c.books := by
  simp [Client.books]

theorem books_of_base (h : c'.base = c.base) : c'.books = c.books := by
  unfold Client.books
  rw [h]

theorem books_armReconnectTimer (now : ℕ) (c : Client) :
    (armReconnectTimer now c).books = c.books := by
  obtain ⟨attempts, scheduled, heq⟩ := armReconnectTimer_eq now c
  rw [heq]
  rfl

theorem books_start (c : Client) (now : ℕ) (env : StartEnv) :
    (c.start now env).1.books = c.books := by
  obtain ⟨connId, -, -, heq⟩ | ⟨-, -, hcore⟩ := start_cases c now env
  · rw [heq]
    rfl
  · exact (books_of_core hcore).trans rfl

theorem books_restarted (c : Client) (now : ℕ) (env : StartEnv) :
    (c.restarted now env).books = c.books := by
  have hstart :=
    books_start (resetPathsForReconnect now { c with reconnectScheduledUs := 0 }) now env
  unfold Client.restarted
  dsimp only
  split
  · exact (books_armReconnectTimer ..).trans hstart
  · exact (books_setState ..).trans hstart

theorem Move.books (h : Move c c') : c'.books = c.books := by
  cases h with
  | effect k hc he hre => exact books_of_base he.base
  | slots hbusy h => exact books_of_core h.core
  | detached now i ev hev => exact books_of_core (slotwise_detached hev c now i).core
  | aside handshakeStartedUs tunActive => rfl
  | connected now env hs =>
    obtain heq | ⟨-, ⟨-, heq⟩ | ⟨-, heq⟩⟩ | ⟨-, heq⟩ := connect_cases now env c <;> rw [heq]
    · exact books_start c now env
    · exact (books_setState ..).trans (books_start c now env)
    · exact books_restarted c now env
  | restarted now env hs => exact books_restarted c now env
  | closing => rfl
  | shutDown => rfl
  | closed | established | stranded => exact books_setState ..

theorem Moves.books (h : Moves c c') : c'.books = c.books :=
  h.inv (P := fun d => d.books = c.books) (fun hd hmove => hmove.books.trans hd) rfl

/-- The slots after a move; before the first connection they are at rest. -/
theorem Move.reslotted (h : Move c c') (hslots : SlotsInv c) (hrest : c.state = .idle → Rested c) :
    Reslotted c c' := by
  cases h with
  | effect k hc he hre => exact hre hslots
  | slots hbusy h => exact h.reslotted hslots
  | detached now i ev hev => exact (slotwise_detached hev c now i).reslotted hslots
  | aside handshakeStartedUs tunActive => exact hslots.still rfl
  | connected now env hs => exact hslots.connect hrest now env
  | restarted now env hs => exact hslots.restart now env
  | closing | shutDown => exact hslots.still rfl
  | closed | established | stranded => exact hslots.still (table_setState ..)

/-! ### The rule -/

/-- The client without its slots and without its books. -/
def Client.live (c : Client) : Client :=
  { c.core with
    nextPathHandle := 0
    handed := []
    retiredTxSends := 0
    retiredTxDatagrams := 0
    finalized := [] }

theorem live_of_core (h : c'.core = c.core) : c'.live = c.live :=
  eq_of_view Client.live h

theorem live_finalizeAll (stats : List (Option (ℕ × ℕ))) (c : Client) :
    (c.finalizeAll stats).live = c.live := by
  refine Run.exec_inv _ (P := fun d : Client => d.live = c.live) (fun d j hd => ?_) _ _ rfl
  split
  · exact hd
  split
  · exact hd
  · unfold finalizeTransport
    split <;> exact hd

theorem Client.step_destroyed (hdestroyed : c.destroyed = true) (op : Op) : c.step op = c := by
  unfold Client.step
  rw [if_pos hdestroyed]

/-- **What every move keeps, every call keeps**, if it is not about slots and books. -/
theorem step_inv {P : Client → Prop}
    (hmove : ∀ {d d' : Client}, d.destroyed = false → P d → Move d d' → P d')
    (hlive : ∀ {d d' : Client}, P d → d'.live = d.live → P d')
    (hend : ∀ {d : Client}, P d → P { d with conn := none, destroyed := true })
    (h : P c) (op : Op) : P (c.step op) := by
  cases halive : c.destroyed with
  | true =>
    rw [Client.step_destroyed halive]
    exact h
  | false =>
    have hmoves : ∀ {d d' : Client}, d.destroyed = false → P d → Moves d d' → P d' := by
      intro d d' hd hP hm
      refine (hm.inv (P := fun e => e.destroyed = false ∧ P e) (fun he hlast => ?_) ⟨hd, hP⟩).2
      exact ⟨(eq_of_view Client.destroyed hlast.books).trans he.1,
        hmove he.1 he.2 hlast⟩
    have hcall := call_step halive op
    generalize c.step op = c' at hcall ⊢
    cases hcall with
    | moves hm => exact hmoves halive h hm
    | added i now o ctx hfree hm =>
      refine hmoves ?_ (hlive h ?_) hm
      · exact halive
      · rfl
    | released i p now stats hp hdropped howed => exact hlive h rfl
    | destroyed hm stats => exact hlive (hend (hmoves halive h hm)) (live_finalizeAll ..)

end Mqvpn.Cli
