import Mqvpn.Reorder.Contract

/-!
# When an endpoint asks to be woken

The platform sleeps until the time `get_interest` reports and then calls `tick`.  The
client takes the wake-up xquic asked for and shortens it by its own timers; the server
takes that of xquic and puts two ceilings on it.  The gap timers of the receive
engines are fired by `tick` too, but `get_interest` does not look at them: a gap is
given up in time exactly when some other timer happens to be due by then.

`now` is the clock `get_interest` reads.  A feature that is not compiled in is one that
is not there: no lwIP context, no H2 proxy, no egress flow.

## Main definitions

* `Client`, `Server` — what `get_interest` and `tick` read of the endpoints.
* `clientGetInterest`, `serverGetInterest` — the interest an endpoint reports.
* `Client.gapDeadlines`, `Server.gapDeadlines` — the gap timers that are armed.
* `Client.WakesBy`, `Server.WakesBy` — some timer is due within a number of
  milliseconds.
* `Side` — either endpoint, as the platform sees it.

## Main results

* `client_nextTimerMs_le_iff`, `server_nextTimerMs_le_iff` — **the reported time is
  within a bound exactly if some timer is**.
* `nextTimerMs_within` — no timer of the client is slept past.
* `gap_covered_iff_wakes` — the same for the time that is left to an armed gap timer.
-/

namespace Mqvpn.Endpoint

open Reorder List

/-- `mqvpn_interest_t`. -/
structure Interest where
  nextTimerMs : ℤ
  tunReadable : Bool
  isIdle : Bool
  deriving DecidableEq

/-- The C conversion of an unsigned number to `int`. -/
def toCInt (n : UInt64) : ℤ := Int.bmod n.toNat (2 ^ 32)

/-- The whole milliseconds from `now` until `due`. -/
def msUntil (due now : UInt64) : ℤ := toCInt ((due - now) / 1000)

/-- The wake-up of xquic in milliseconds. -/
def wakeMs (nextWakeUs : UInt64) : ℤ := toCInt (nextWakeUs / 1000)

/-! ### The client -/

/-- `mqvpn_client_state_t`. -/
inductive ClientState where
  | idle
  | connecting
  | authenticating
  | tunnelReady
  | established
  | reconnecting
  | closed
  deriving DecidableEq

/-- The timers of a path slot. -/
structure PathEntry where
  recreateAfterUs : UInt64
  pathStableSinceUs : UInt64
  xquicPathLive : Bool
  deriving DecidableEq

/-- The TCP timer of the lwIP context; `pcbs` tells whether there is an active or
waiting control block. -/
structure LwipCtx where
  pcbs : Bool
  tcpTmrLastMs : UInt32
  deriving DecidableEq

structure ClientConn where
  reorderRx : Option Rx
  lwipCtx : Option LwipCtx

/-- The client, as far as `get_interest` reads it. -/
structure Client where
  state : ClientState
  nextWakeUs : UInt64
  reconnectScheduledUs : UInt64
  handshakeStartedUs : UInt64
  multipathReady : Bool
  paths : List PathEntry
  conn : Option ClientConn
  tunActive : Bool
  backpressure : Bool

/-- `HANDSHAKE_STALL_TIMEOUT_MS`. -/
def handshakeStallTimeoutMs : UInt64 := 5000

/-- `PATH_STABLE_THRESHOLD_US`. -/
def pathStableThresholdUs : UInt64 := 30000000

/-- `TCP_TMR_INTERVAL`. -/
def tcpTmrInterval : UInt32 := 250

/-- The milliseconds to the next TCP timer, `-1` if there is none. -/
def lwipNextTimeoutMs (ctx : LwipCtx) (now : UInt64) : ℤ :=
  if !ctx.pcbs then -1
  else
    let elapsed := (now / 1000).toUInt32 - ctx.tcpTmrLastMs
    if tcpTmrInterval ≤ elapsed then 0 else (tcpTmrInterval - elapsed).toNat

/-- The reconnect timer: it also replaces a wake-up that is not there. -/
def reconnectMs (c : Client) (now : UInt64) (ms : ℤ) : ℤ :=
  if c.state = .reconnecting ∧ 0 < c.reconnectScheduledUs then
    if now < c.reconnectScheduledUs then
      let rms := msUntil c.reconnectScheduledUs now
      if ms ≤ 0 ∨ rms < ms then rms else ms
    else 1
  else ms

/-- The time at which a handshake counts as stalled. -/
def Client.stallDeadline (c : Client) : UInt64 :=
  c.handshakeStartedUs + handshakeStallTimeoutMs * 1000

/-- The stall timer of a handshake. -/
def handshakeMs (c : Client) (now : UInt64) (ms : ℤ) : ℤ :=
  if c.state = .connecting ∧ 0 < c.handshakeStartedUs then
    let hms := if now < c.stallDeadline then msUntil c.stallDeadline now else 1
    if ms ≤ 0 ∨ hms < ms then hms else ms
  else ms

/-- A timer of a live tunnel only ever shortens. -/
def shortenTo (now : UInt64) (ms : ℤ) (due : UInt64) : ℤ :=
  if now < due then
    let pms := msUntil due now
    if 0 < ms ∧ pms < ms then pms else ms
  else 1

/-- The recovery timer of a path, then its stability timer. -/
def pathMs (now : UInt64) (ms : ℤ) (p : PathEntry) : ℤ :=
  let ms := if 0 < p.recreateAfterUs then shortenTo now ms p.recreateAfterUs else ms
  if 0 < p.pathStableSinceUs ∧ p.xquicPathLive then
    shortenTo now ms (p.pathStableSinceUs + pathStableThresholdUs)
  else ms

def pathsMs (c : Client) (now : UInt64) (ms : ℤ) : ℤ :=
  if c.multipathReady ∧ c.state = .established then c.paths.foldl (pathMs now) ms else ms

def Client.lwipCtx (c : Client) : Option LwipCtx := c.conn.bind ClientConn.lwipCtx

def lwipMs (c : Client) (now : UInt64) (ms : ℤ) : ℤ :=
  match c.lwipCtx with
  | none => ms
  | some ctx =>
      let lwip := lwipNextTimeoutMs ctx now
      if 0 ≤ lwip ∧ 0 < ms ∧ lwip < ms then lwip else ms

/-- `mqvpn_client_get_interest`. -/
def clientGetInterest (c : Client) (now : UInt64) : Interest :=
  let ms := wakeMs c.nextWakeUs
  let ms := reconnectMs c now ms
  let ms := handshakeMs c now ms
  let ms := pathsMs c now ms
  let ms := lwipMs c now ms
  { nextTimerMs := if 0 < ms then ms else 1
    tunReadable := c.tunActive && !c.backpressure
    isIdle := decide (c.state ≠ .established) }

/-! ### The server -/

/-- What is left to be sent on a proxied stream. -/
structure H2ProxyStream where
  closed : Bool
  responseFinSent : Bool
  responseHeadersPending : Bool
  responseBodyLen : ℕ
  responseBodyOff : ℕ
  responseEof : Bool
  deriving DecidableEq

/-- A stream that still has something to send. -/
def H2ProxyStream.pending (s : H2ProxyStream) : Bool :=
  !(s.closed || s.responseFinSent) &&
    (s.responseHeadersPending || decide (s.responseBodyOff < s.responseBodyLen) || s.responseEof)

def h2ProxyNeedsTick (proxy : Option (List H2ProxyStream)) : Bool :=
  match proxy with
  | none => false
  | some streams => streams.any H2ProxyStream.pending

/-- The server, as far as `get_interest` and the receive engines of `tick` go. -/
structure Server where
  nextWakeUs : UInt64
  h2Proxy : Option (List H2ProxyStream)
  /-- The length of the list of egress flows. -/
  tcpEgressFlows : ℕ
  nSessions : ℕ
  /-- The receive engines of the sessions. -/
  reorderRx : List Rx

/-- `mqvpn_server_get_interest`. -/
def serverGetInterest (s : Server) : Interest :=
  let ms := wakeMs s.nextWakeUs
  let next := if 0 < ms then ms else 1
  let next := if h2ProxyNeedsTick s.h2Proxy ∧ 50 < next then 50 else next
  let next := if s.tcpEgressFlows ≠ 0 ∧ 1000 < next then 1000 else next
  { nextTimerMs := next, tunReadable := true, isIdle := decide (s.nSessions = 0) }

/-! ### Gap timers -/

/-- The deadlines of the armed gap timers of an engine. -/
def rxGapDeadlines (rx : Rx) : List UInt64 :=
  (rx.flows.filter Flow.gapTimerActive).map Flow.gapDeadlineUs

/-- The receive engine of the connection. -/
def Client.reorderRx (c : Client) : Option Rx := c.conn.bind ClientConn.reorderRx

/-- The deadlines of the armed gap timers of a client. -/
def Client.gapDeadlines (c : Client) : List UInt64 := c.reorderRx.toList.flatMap rxGapDeadlines

/-- The deadlines of the armed gap timers of a server. -/
def Server.gapDeadlines (s : Server) : List UInt64 := s.reorderRx.flatMap rxGapDeadlines

/-- The milliseconds a platform may sleep at `now` so that it is awake by `d`, rounded
up, and at least one. -/
def gapBoundMs (d now : UInt64) : ℤ := max 1 (((d.toNat : ℤ) - now.toNat + 999) / 1000)

/-! ### The timers of the client -/

/-- The timer `due` has run out or does so within `b` milliseconds. -/
def DueBy (now : UInt64) (b : ℤ) (due : UInt64) : Prop := due ≤ now ∨ msUntil due now ≤ b

instance (now : UInt64) (b : ℤ) (due : UInt64) : Decidable (DueBy now b due) :=
  inferInstanceAs (Decidable (_ ∨ _))

/-- The timer of a client without a tunnel: the reconnect or the handshake that stalls. -/
def Client.setupTimer (c : Client) : Option UInt64 :=
  if c.state = .reconnecting ∧ 0 < c.reconnectScheduledUs then some c.reconnectScheduledUs
  else if c.state = .connecting ∧ 0 < c.handshakeStartedUs then some c.stallDeadline
  else none

/-- The timers of a path: when it is created again, and when it counts as stable. -/
def PathEntry.timers (p : PathEntry) : List UInt64 :=
  (if 0 < p.recreateAfterUs then [p.recreateAfterUs] else []) ++
    (if 0 < p.pathStableSinceUs ∧ p.xquicPathLive then
      [p.pathStableSinceUs + pathStableThresholdUs] else [])

/-- The timers of the paths of an established tunnel. -/
def Client.pathTimers (c : Client) : List UInt64 :=
  if c.multipathReady ∧ c.state = .established then c.paths.flatMap PathEntry.timers else []

/-- xquic or the connection setup wake the client within `b` milliseconds.  While the
setup has a timer, a wake-up of xquic below one millisecond does not count. -/
def Client.SetupBy (c : Client) (now : UInt64) (b : ℤ) : Prop :=
  match c.setupTimer with
  | none => wakeMs c.nextWakeUs ≤ b
  | some due => 0 < wakeMs c.nextWakeUs ∧ wakeMs c.nextWakeUs ≤ b ∨ DueBy now b due

/-- Some timer of the client is due within `b` milliseconds. -/
def Client.WakesBy (c : Client) (now : UInt64) (b : ℤ) : Prop :=
  c.SetupBy now b ∨ (∃ due ∈ c.pathTimers, DueBy now b due) ∨
    ∃ ctx ∈ c.lwipCtx, 0 ≤ lwipNextTimeoutMs ctx now ∧ lwipNextTimeoutMs ctx now ≤ b

section
variable {b : ℤ} (hb : 1 ≤ b)
include hb

theorem shortenTo_le_iff (now : UInt64) (ms : ℤ) (due : UInt64) :
    shortenTo now ms due ≤ b ↔ ms ≤ b ∨ DueBy now b due := by
  unfold shortenTo DueBy
  by_cases hdue : now < due
  · have hlate : ¬ due ≤ now := UInt64.not_le.mpr hdue
    simp only [if_pos hdue, hlate, false_or]
    by_cases hless : 0 < ms ∧ msUntil due now < ms
    · rw [if_pos hless]
      omega
    · rw [if_neg hless]
      omega
  · -- a timer that has run out asks for one millisecond
    have hlate : due ≤ now := UInt64.not_lt.mp hdue
    simp [if_neg hdue, hlate, hb]

/-- The loop over the paths: by induction on the timers. -/
theorem foldl_shortenTo_le_iff (now : UInt64) : ∀ (timers : List UInt64) (ms : ℤ),
    timers.foldl (shortenTo now) ms ≤ b ↔ ms ≤ b ∨ ∃ due ∈ timers, DueBy now b due := by
  intro timers
  induction timers with
  | nil => simp
  | cons due timers ih =>
    intro ms
    rw [foldl_cons, ih, shortenTo_le_iff hb]
    simp [or_assoc]

omit hb in
theorem pathMs_eq_foldl (now : UInt64) (ms : ℤ) (p : PathEntry) :
    pathMs now ms p = p.timers.foldl (shortenTo now) ms := by
  have hone : ∀ (q : Prop) [Decidable q] (ms : ℤ) (due : UInt64),
      (if q then shortenTo now ms due else ms) =
        (if q then [due] else []).foldl (shortenTo now) ms := by
    intro q _ ms due
    split <;> rfl
  unfold pathMs PathEntry.timers
  simp only [foldl_append, hone]

theorem pathsMs_le_iff (c : Client) (now : UInt64) (ms : ℤ) :
    pathsMs c now ms ≤ b ↔ ms ≤ b ∨ ∃ due ∈ c.pathTimers, DueBy now b due := by
  rw [← foldl_shortenTo_le_iff hb]
  unfold pathsMs Client.pathTimers
  split
  · rw [foldl_flatMap]
    have hstep : pathMs now = fun ms p => p.timers.foldl (shortenTo now) ms :=
      funext₂ (pathMs_eq_foldl now)
    rw [hstep]
  · rfl

omit hb in
theorem lwipMs_le_iff (c : Client) (now : UInt64) (ms : ℤ) :
    lwipMs c now ms ≤ b ↔ ms ≤ b ∨
      ∃ ctx ∈ c.lwipCtx, 0 ≤ lwipNextTimeoutMs ctx now ∧ lwipNextTimeoutMs ctx now ≤ b := by
  unfold lwipMs
  cases c.lwipCtx with
  | none => simp
  | some ctx =>
    simp only [Option.mem_some_iff, exists_eq_left']
    by_cases hless : 0 ≤ lwipNextTimeoutMs ctx now ∧ 0 < ms ∧ lwipNextTimeoutMs ctx now < ms
    · rw [if_pos hless]
      omega
    · rw [if_neg hless]
      omega

/-- Reconnect and handshake come first and are the only timers that lengthen: one of
the two is there at most, since the states differ. -/
theorem setupMs_le_iff (c : Client) (now : UInt64) :
    handshakeMs c now (reconnectMs c now (wakeMs c.nextWakeUs)) ≤ b ↔ c.SetupBy now b := by
  unfold Client.SetupBy Client.setupTimer reconnectMs handshakeMs
  generalize wakeMs c.nextWakeUs = ms
  by_cases hr : c.state = .reconnecting ∧ 0 < c.reconnectScheduledUs
  · -- the states differ, so the handshake has no timer
    have hc : ¬ (c.state = .connecting ∧ 0 < c.handshakeStartedUs) := by
      simp [hr.1]
    simp only [if_pos hr, if_neg hc, DueBy]
    by_cases hdue : now < c.reconnectScheduledUs
    · have hlate : ¬ c.reconnectScheduledUs ≤ now := UInt64.not_le.mpr hdue
      simp only [if_pos hdue, hlate, false_or]
      split <;> omega
    · have hlate : c.reconnectScheduledUs ≤ now := UInt64.not_lt.mp hdue
      simp [if_neg hdue, hlate, hb]
  · simp only [if_neg hr]
    by_cases hc : c.state = .connecting ∧ 0 < c.handshakeStartedUs
    · simp only [if_pos hc, DueBy]
      by_cases hdue : now < c.stallDeadline
      · have hlate : ¬ c.stallDeadline ≤ now := UInt64.not_le.mpr hdue
        simp only [if_pos hdue, hlate, false_or]
        split <;> omega
      · have hlate : c.stallDeadline ≤ now := UInt64.not_lt.mp hdue
        simp only [if_neg hdue, hlate, true_or, or_true, iff_true]
        split <;> omega
    · simp only [if_neg hc]

/-- **The client sleeps no longer than `b` milliseconds exactly if one of its timers is
due by then.** -/
theorem client_nextTimerMs_le_iff (c : Client) (now : UInt64) :
    (clientGetInterest c now).nextTimerMs ≤ b ↔ c.WakesBy now b := by
  have hms : (clientGetInterest c now).nextTimerMs ≤ b ↔
      lwipMs c now (pathsMs c now (handshakeMs c now (reconnectMs c now (wakeMs c.nextWakeUs)))) ≤
        b := by
    unfold clientGetInterest
    simp only
    split <;> omega
  rw [hms, lwipMs_le_iff, pathsMs_le_iff hb, setupMs_le_iff hb, or_assoc]
  rfl

omit hb

/-- The whole milliseconds that are left at `now` until the microsecond `d`. -/
def msLeft (d : ℕ) (now : UInt64) : ℤ := ((d - now.toNat) / 1000 : ℕ)

theorem toCInt_le (n : UInt64) : toCInt n ≤ n.toNat := by
  have hmod := Nat.mod_le n.toNat (2 ^ 32)
  unfold toCInt Int.bmod
  dsimp only
  split <;> omega

/-- A timer is due when the milliseconds until it are over; one that came around the clock is due
even before. -/
theorem dueBy_left {due : UInt64} {d : ℕ} (hd : due.toNat ≤ d) (now : UInt64) :
    DueBy now (max 1 (msLeft d now)) due := by
  by_cases hdue : due ≤ now
  · exact .inl hdue
  · have hlt := UInt64.not_le.mp hdue
    have hle := toCInt_le ((due - now) / 1000)
    rw [UInt64.toNat_div, UInt64.toNat_sub_of_le _ _ (UInt64.le_of_lt hlt)] at hle
    refine .inr (Int.le_trans (Int.le_trans hle ?_) (Int.le_max_right _ _))
    exact Int.ofNat_le.mpr (Nat.div_le_div_right (Nat.sub_le_sub_right hd _))

section
variable {c : Client} {now : UInt64}

theorem nextTimerMs_le {x : ℤ} (h : c.WakesBy now (max 1 x)) :
    (clientGetInterest c now).nextTimerMs ≤ max 1 x :=
  (client_nextTimerMs_le_iff (Int.le_max_left 1 x) c now).mpr h

theorem reconnect_within (hstate : c.state = .reconnecting) (hset : 0 < c.reconnectScheduledUs) :
    (clientGetInterest c now).nextTimerMs ≤ max 1 (msLeft c.reconnectScheduledUs.toNat now) := by
  have htimer : c.setupTimer = some c.reconnectScheduledUs := if_pos ⟨hstate, hset⟩
  refine nextTimerMs_le (.inl ?_)
  rw [Client.SetupBy, htimer]
  exact .inr (dueBy_left (Nat.le_refl _) now)

theorem path_within {p : PathEntry} (hstate : c.state = .established)
    (hready : c.multipathReady = true) (hp : p ∈ c.paths) {due : UInt64} (hdue : due ∈ p.timers)
    {d : ℕ} (hd : due.toNat ≤ d) :
    (clientGetInterest c now).nextTimerMs ≤ max 1 (msLeft d now) := by
  refine nextTimerMs_le (.inr (.inl ⟨due, ?_, dueBy_left hd now⟩))
  rw [Client.pathTimers, if_pos ⟨hready, hstate⟩]
  exact mem_flatMap.mpr ⟨p, hp, hdue⟩

end

/-- **No timer of the client is slept past.**  The reported time is at least a millisecond and at
most that or the milliseconds that are left: until a reconnect, until a handshake stalls, and, with
an established tunnel, until a path is tried again or counts as stable, and until the TCP timer. -/
theorem nextTimerMs_within (c : Client) (now : UInt64) :
    let ms := (clientGetInterest c now).nextTimerMs
    1 ≤ ms ∧
      (c.state = .reconnecting → 0 < c.reconnectScheduledUs →
        ms ≤ max 1 (msLeft c.reconnectScheduledUs.toNat now)) ∧
      (c.state = .connecting → 0 < c.handshakeStartedUs →
        ms ≤ max 1 (msLeft (c.handshakeStartedUs.toNat + 5000000) now)) ∧
      (c.state = .established → c.multipathReady = true →
        (∀ p ∈ c.paths,
          (0 < p.recreateAfterUs → ms ≤ max 1 (msLeft p.recreateAfterUs.toNat now)) ∧
          (0 < p.pathStableSinceUs → p.xquicPathLive = true →
            ms ≤ max 1 (msLeft (p.pathStableSinceUs.toNat + 30000000) now))) ∧
        ∀ ctx ∈ c.lwipCtx, 0 ≤ lwipNextTimeoutMs ctx now →
          ms ≤ max 1 (lwipNextTimeoutMs ctx now)) := by
  intro ms
  have hsum : ∀ a b : UInt64, (a + b).toNat ≤ a.toNat + b.toNat := fun a b => by
    rw [UInt64.toNat_add]
    exact Nat.mod_le _ _
  refine ⟨?_, reconnect_within, fun hstate hset => nextTimerMs_le (.inl ?_),
    fun hstate hready => ⟨fun p hp => ⟨fun hset => ?_, fun hset hlive => ?_⟩,
      fun ctx hctx hpos => ?_⟩⟩
  · show 1 ≤ if 0 < _ then _ else (1 : ℤ)
    split <;> omega
  · have htimer : c.setupTimer = some c.stallDeadline := by
      rw [Client.setupTimer, if_neg (by simp [hstate]), if_pos ⟨hstate, hset⟩]
    rw [Client.SetupBy, htimer]
    exact .inr (dueBy_left (hsum _ _) now)
  · have hdue : p.recreateAfterUs ∈ p.timers := by simp [PathEntry.timers, hset]
    exact path_within hstate hready hp hdue (Nat.le_refl _)
  · refine path_within hstate hready hp ?_ (hsum _ pathStableThresholdUs)
    simp [PathEntry.timers, hset, hlive]
  · exact nextTimerMs_le (.inr (.inr ⟨ctx, hctx, hpos, Int.le_max_right _ _⟩))

/-- A path that is to be tried again in 7 ms, while its stability is due in 30 s. -/
theorem nextTimerMs_within_retry :
    let c : Client := ⟨.established, 900000, 0, 0, true, [⟨8000, 1000, true⟩], none, true, false⟩
    (clientGetInterest c 1000).nextTimerMs = 7 ∧ (clientGetInterest c 1000).nextTimerMs ≤
      max 1 (msLeft 8000 1000) :=
  ⟨by decide, ((nextTimerMs_within ⟨.established, 900000, 0, 0, true, [⟨8000, 1000, true⟩], none,
    true, false⟩ 1000).2.2.2 rfl rfl).1 _ (mem_singleton_self _) |>.1 (by decide)⟩

include hb

/-! ### The timers of the server -/

/-- xquic, a proxied stream or an egress flow wakes the server within `b` milliseconds. -/
def Server.WakesBy (s : Server) (b : ℤ) : Prop :=
  wakeMs s.nextWakeUs ≤ b ∨ (h2ProxyNeedsTick s.h2Proxy = true ∧ 50 ≤ b) ∨
    (s.tcpEgressFlows ≠ 0 ∧ 1000 ≤ b)

omit hb in
theorem ceiling_le_iff (q : Prop) [Decidable q] (limit next : ℤ) :
    (if q ∧ limit < next then limit else next) ≤ b ↔ next ≤ b ∨ q ∧ limit ≤ b := by
  by_cases hq : q
  · simp only [hq, true_and]
    split <;> omega
  · simp [hq]

/-- **The server sleeps no longer than `b` milliseconds exactly if xquic or one of the
ceilings sees to it.** -/
theorem server_nextTimerMs_le_iff (s : Server) :
    (serverGetInterest s).nextTimerMs ≤ b ↔ s.WakesBy b := by
  have hms : (if 0 < wakeMs s.nextWakeUs then wakeMs s.nextWakeUs else 1) ≤ b ↔
      wakeMs s.nextWakeUs ≤ b := by
    split <;> omega
  unfold serverGetInterest Server.WakesBy
  simp only
  rw [ceiling_le_iff, ceiling_le_iff, hms, or_assoc]

end

/-! ### Sleeping past a gap -/

theorem one_le_gapBoundMs (d now : UInt64) : 1 ≤ gapBoundMs d now := Int.le_max_left _ _

/-- An endpoint of a tunnel. -/
inductive Side where
  | client (c : Client)
  | server (s : Server)

/-- The interest an endpoint reports at `now`. -/
def Side.getInterest : Side → UInt64 → Interest
  | client c, now => clientGetInterest c now
  | server s, _ => serverGetInterest s

/-- The deadlines of the gap timers that are armed. -/
def Side.gapDeadlines : Side → List UInt64
  | client c => c.gapDeadlines
  | server s => s.gapDeadlines

/-- Some timer is due within `b` milliseconds. -/
def Side.WakesBy : Side → UInt64 → ℤ → Prop
  | client c, now, b => c.WakesBy now b
  | server s, _, b => s.WakesBy b

/-- **An endpoint is awake when a gap timer runs out exactly if another timer is due by
then**: for every state, every armed gap timer and every time. -/
theorem gap_covered_iff_wakes (e : Side) (now : UInt64) : ∀ d ∈ e.gapDeadlines,
    (e.getInterest now).nextTimerMs ≤ gapBoundMs d now ↔ e.WakesBy now (gapBoundMs d now) := by
  intro d _
  cases e with
  | client c => exact client_nextTimerMs_le_iff (one_le_gapBoundMs d now) c now
  | server s => exact server_nextTimerMs_le_iff (one_le_gapBoundMs d now) s

/-- An engine that has packets `0` and `2` of a flow and waits for packet `1`. -/
def waitingRx : Rx := sampleRun 1 sampleHole

/-- A client with an established tunnel, one path and no timer but that of xquic. -/
def waitingClient (nextWakeUs : UInt64) : Client where
  state := .established
  nextWakeUs := nextWakeUs
  reconnectScheduledUs := 0
  handshakeStartedUs := 0
  multipathReady := false
  paths := [{ recreateAfterUs := 0, pathStableSinceUs := 0, xquicPathLive := true }]
  conn := some { reorderRx := some waitingRx, lwipCtx := none }
  tunActive := true
  backpressure := false

/-- A server with one session and nothing to relay. -/
def waitingServer (nextWakeUs : UInt64) : Server where
  nextWakeUs := nextWakeUs
  h2Proxy := none
  tcpEgressFlows := 0
  nSessions := 1
  reorderRx := [waitingRx]

theorem rxGapDeadlines_waitingRx : rxGapDeadlines waitingRx = [31001] := by decide +kernel

theorem gapDeadlines_waitingClient (nextWakeUs : UInt64) :
    (waitingClient nextWakeUs).gapDeadlines = [31001] := by
  simp [Client.gapDeadlines, Client.reorderRx, waitingClient, rxGapDeadlines_waitingRx]

theorem gapDeadlines_waitingServer (nextWakeUs : UInt64) :
    (waitingServer nextWakeUs).gapDeadlines = [31001] := by
  simp [Server.gapDeadlines, waitingServer, rxGapDeadlines_waitingRx]

/-- xquic asks for a wake-up in 5 ms: both are awake in time. -/
theorem gap_covered_by_xquic :
    (31001 ∈ (Side.client (waitingClient 5000)).gapDeadlines ∧
      ((Side.client (waitingClient 5000)).getInterest 1001).nextTimerMs ≤ gapBoundMs 31001 1001) ∧
    31001 ∈ (Side.server (waitingServer 5000)).gapDeadlines ∧
      ((Side.server (waitingServer 5000)).getInterest 1001).nextTimerMs ≤
        gapBoundMs 31001 1001 := by
  have hc : 31001 ∈ (waitingClient 5000).gapDeadlines := by
    rw [gapDeadlines_waitingClient]
    exact mem_singleton_self _
  have hs : 31001 ∈ (waitingServer 5000).gapDeadlines := by
    rw [gapDeadlines_waitingServer]
    exact mem_singleton_self _
  have hwake : wakeMs 5000 ≤ gapBoundMs 31001 1001 := by decide
  exact ⟨⟨hc, (gap_covered_iff_wakes (.client _) _ _ hc).mpr (Or.inl hwake)⟩, hs,
    (gap_covered_iff_wakes (.server _) _ _ hs).mpr (Or.inl hwake)⟩

/-- xquic asks for a wake-up in a second: the gap timer runs out in 30 ms, and both
endpoints ask to be left alone for 1000. -/
theorem gap_slept_past :
    (∃ d ∈ (Side.client (waitingClient 1000000)).gapDeadlines,
      ¬ ((Side.client (waitingClient 1000000)).getInterest 1001).nextTimerMs ≤
        gapBoundMs d 1001) ∧
    ∃ d ∈ (Side.server (waitingServer 1000000)).gapDeadlines,
      ¬ ((Side.server (waitingServer 1000000)).getInterest 1001).nextTimerMs ≤
        gapBoundMs d 1001 := by
  refine ⟨⟨31001, ?_, by decide⟩, 31001, ?_, by decide⟩
  · rw [Side.gapDeadlines, gapDeadlines_waitingClient]
    exact mem_singleton_self _
  · rw [Side.gapDeadlines, gapDeadlines_waitingServer]
    exact mem_singleton_self _

end Mqvpn.Endpoint
