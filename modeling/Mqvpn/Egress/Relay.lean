import Mqvpn.Server.Session

/-!
# The relay of an egress flow

A flow of the TCP egress couples a request stream with a socket.  Bytes of the request body
go to the socket (downlink), bytes from the socket go into the response body (uplink).  A
chunk the other side does not take at once is stashed; while it waits, the flow does not read
further in that direction.  The end of the body shuts the socket down for writing, the end of
the socket ends the response.

What the kernel and xquic answer is given by a script: the answers in the order of the calls.
A script that ends answers every further call with "would block", so every handler is a
function of the flow and its script.  A handler that gives the flow up (`on_relay_error`)
leaves the error in `Work.error`; the caller then takes the flow down.

`calls` and `registered` record what the flow asked for; no function reads them back.

## Main definitions

* `Flow`, `Call` — a flow and the calls made for it.
* `drainBody`, `flushDownlinkRetry`, `onH3Writable`, `onRelayReady`, `onConnected` — the
  handlers.
* `relay` — what an event does to a flow.
-/

namespace Mqvpn.Egress

open Svr Endpoint

/-- The values of `errno` the egress tells apart. -/
inductive Errno where
  | none
  | eintr
  | eagain
  | ewouldblock
  | einprogress
  | econnrefused
  | etimedout
  | enetunreach
  | ehostunreach
  | enomem
  | other (code : ℕ)
  deriving DecidableEq

/-- Nothing failed, the call would only have blocked. -/
def Errno.wouldBlock (e : Errno) : Bool := e == .eagain || e == .ewouldblock

/-- `TCP_EGRESS_RELAY_CHUNK`. -/
def relayChunk : ℕ := 16384

/-- `TCP_EGRESS_RELAY_BUDGET`. -/
def relayBudget : ℕ := 65536

/-- `svr_tcp_egress_flow_state_t`. -/
inductive FlowState where
  | connecting
  | active
  deriving DecidableEq

/-- A call made for a flow, with its outcome.  Calls that would have blocked or were
interrupted are left out. -/
inductive Call where
  /-- `xqc_h3_request_recv_body` returned bytes, and whether the body ends with them. -/
  | recvBody (bytes : List UInt8) (fin : Bool)
  | recvBodyFailed
  /-- `send` took bytes, failed, or took nothing. -/
  | send (bytes : List UInt8)
  | sendFailed (e : Errno)
  | sendNothing
  /-- `shutdown(fd, SHUT_WR)`. -/
  | shutdown
  /-- `recv` returned bytes, the end of the stream, or failed. -/
  | recv (bytes : List UInt8)
  | recvEof
  | recvFailed (e : Errno)
  /-- The read loop stopped with its budget used up, and `errno` stood at the given value. -/
  | yield (errno : Errno)
  /-- `xqc_h3_request_send_body` accepted bytes, or failed. -/
  | sendBody (bytes : List UInt8)
  | sendBodyFailed
  /-- The same, with an empty body and the end of the response. -/
  | sendFin
  | sendFinFailed
  /-- A stash could not be allocated. -/
  | noMemory
  /-- `egress_fd_register`. -/
  | register (wantRead wantWrite : Bool)
  /-- A header section of the response. -/
  | respond (status : ℕ) (fin : Bool)
  deriving DecidableEq

/-- The request stream of a flow. -/
abbrev StreamKey := ConnId × StreamId

/-- `svr_tcp_egress_flow_t`.  `downlinkStash` and `uplinkStash` are the bytes in the stash
buffers, which exist from their first use on. -/
structure Flow where
  serial : ℕ
  fd : ℕ
  stream : StreamKey
  username : List UInt8
  state : FlowState := .connecting
  connectDeadlineUs : ℕ
  lastActivityUs : ℕ
  downlinkPaused : Bool := false
  downlinkStash : List UInt8 := []
  downlinkBuffer : Bool := false
  finReceivedFromH3 : Bool := false
  downlinkShutdownDone : Bool := false
  uplinkWithheld : Bool := false
  uplinkStash : List UInt8 := []
  uplinkBuffer : Bool := false
  egressEofSeen : Bool := false
  uplinkFinSent : Bool := false
  /-- What the platform was last told to wait for. -/
  registered : Option (Bool × Bool) := none
  calls : List Call := []
  deriving DecidableEq

/-- A flow in the hands of a handler, and the error the flow was given up with. -/
structure Work where
  flow : Flow
  error : Option Errno := none
  deriving DecidableEq

def Work.log (w : Work) (c : Call) : Work :=
  { w with flow := { w.flow with calls := w.flow.calls ++ [c] } }

/-- `svr_tcp_egress_on_relay_error`, up to the taking down. -/
def Work.fail (w : Work) (e : Errno) : Work := { w with error := some e }

def Work.touch (w : Work) (now : ℕ) : Work :=
  { w with flow := { w.flow with lastActivityUs := now } }

/-- Tell the platform what to wait for. -/
def Work.register (w : Work) (wantRead wantWrite : Bool) : Work :=
  { w.log (.register wantRead wantWrite) with
    flow := { (w.log (.register wantRead wantWrite)).flow with
      registered := some (wantRead, wantWrite) } }

/-- The interest an active flow has in its socket. -/
def Flow.interest (f : Flow) : Bool × Bool :=
  (!f.uplinkWithheld && !f.egressEofSeen, f.downlinkPaused)

/-- `svr_tcp_egress_update_fd_interest`. -/
def updateFdInterest (w : Work) : Work :=
  if w.flow.state ≠ .active then w else w.register w.flow.interest.1 w.flow.interest.2

/-- `svr_tcp_egress_maybe_shutdown_downlink`. -/
def maybeShutdownDownlink (w : Work) : Work :=
  if !w.flow.finReceivedFromH3 || w.flow.downlinkPaused || w.flow.downlinkShutdownDone then w
  else
    let w := w.log .shutdown
    { w with flow := { w.flow with downlinkShutdownDone := true } }

/-! ### Downlink -/

/-- An answer of `send`. -/
inductive Send where
  | took (n : ℕ)
  | err (e : Errno)
  deriving DecidableEq

/-- An answer of `xqc_h3_request_recv_body`, with those of the sends that follow it. -/
inductive BodyRead where
  | failed
  | data (bytes : List UInt8) (fin : Bool) (sends : List Send)
  deriving DecidableEq

structure DrainEnv where
  reads : List BodyRead
  stashOk : Bool
  now : ℕ
  deriving DecidableEq

/-- Send the bytes until they are gone or the socket would block; what is left is
returned. -/
def sendLoop (w : Work) : List UInt8 → List Send → Work × List UInt8
  | [], _ => (w, [])
  | b :: buf, [] => (w, b :: buf)
  | b :: buf, .err e :: sends =>
      if e = .eintr then sendLoop w (b :: buf) sends
      else if e.wouldBlock then (w, b :: buf)
      else ((w.log (.sendFailed e)).fail e, b :: buf)
  | b :: buf, .took 0 :: _ => ((w.log .sendNothing).fail .none, b :: buf)
  | b :: buf, .took (n + 1) :: sends =>
      sendLoop (w.log (.send ((b :: buf).take (n + 1)))) ((b :: buf).drop (n + 1)) sends

/-- `svr_tcp_egress_stash_downlink`. -/
def stashDownlink (w : Work) (buf : List UInt8) (stashOk : Bool) : Work :=
  if !w.flow.downlinkBuffer && !stashOk then (w.log .noMemory).fail .enomem
  else
    updateFdInterest
      { w with flow := { w.flow with
          downlinkBuffer := true, downlinkStash := buf, downlinkPaused := true } }

/-- The loop of `svr_tcp_egress_drain_body`; `moved` says whether bytes reached the socket. -/
def drainLoop (env : DrainEnv) (w : Work) (moved : Bool) : List BodyRead → Work
  | [] => if moved then w.touch env.now else w
  | .failed :: _ => (w.log .recvBodyFailed).fail .none
  | .data bytes fin sends :: reads =>
      let buf := bytes.take relayChunk
      let (w, rest) := sendLoop (w.log (.recvBody buf fin)) buf sends
      let moved := moved || decide (rest.length < buf.length)
      if w.error.isSome then w
      else if rest ≠ [] then
        let w := stashDownlink w rest env.stashOk
        if w.error.isSome then w else if moved then w.touch env.now else w
      else if fin then
        let w := maybeShutdownDownlink
          { w with flow := { w.flow with finReceivedFromH3 := true } }
        if moved then w.touch env.now else w
      else if buf = [] then if moved then w.touch env.now else w
      else drainLoop env w moved reads

/-- `svr_tcp_egress_drain_body`. -/
def drainBody (w : Work) (env : DrainEnv) : Work :=
  if w.flow.downlinkPaused then w else drainLoop env w false env.reads

/-- `svr_tcp_egress_flush_downlink_retry`. -/
def flushDownlinkRetry (w : Work) (sends : List Send) (env : DrainEnv) : Work :=
  let stash := w.flow.downlinkStash
  let (w, rest) := sendLoop w stash sends
  if w.error.isSome then w
  else if rest.length = stash.length then w
  else
    let w := w.touch env.now
    if rest ≠ [] then { w with flow := { w.flow with downlinkStash := rest } }
    else
      let w := { w with flow := { w.flow with downlinkStash := [], downlinkPaused := false } }
      drainBody (updateFdInterest (maybeShutdownDownlink w)) env

/-! ### Uplink -/

/-- An answer of `xqc_h3_request_send_body`. -/
inductive BodySend where
  | took (n : ℕ)
  | again
  | failed
  deriving DecidableEq

/-- An answer of `recv`, with that of the send that follows it; no bytes are the end of the
stream. -/
inductive Recv where
  | err (e : Errno)
  | data (bytes : List UInt8) (body : BodySend)
  deriving DecidableEq

/-- `svr_tcp_egress_try_uplink_fin`. -/
def tryUplinkFin (w : Work) (answer : BodySend) : Work :=
  if w.flow.uplinkFinSent then w
  else
    match answer with
    | .again => w
    | .failed => (w.log .sendFinFailed).fail .none
    | .took _ =>
        let w := w.log .sendFin
        { w with flow := { w.flow with uplinkFinSent := true } }

/-- `svr_tcp_egress_stash_uplink`. -/
def stashUplink (w : Work) (buf : List UInt8) (stashOk : Bool) : Work :=
  if !w.flow.uplinkBuffer && !stashOk then (w.log .noMemory).fail .enomem
  else
    updateFdInterest
      { w with flow := { w.flow with
          uplinkBuffer := true, uplinkStash := buf, uplinkWithheld := true } }

/-- Send the bytes into the response until they are gone or it would block; what is left is
returned. -/
def bodyLoop (w : Work) : List UInt8 → List BodySend → Work × List UInt8
  | [], _ => (w, [])
  | b :: buf, [] => (w, b :: buf)
  | b :: buf, .again :: _ => (w, b :: buf)
  | b :: buf, .failed :: _ => ((w.log .sendBodyFailed).fail .none, b :: buf)
  | b :: buf, .took n :: sends =>
      bodyLoop (w.log (.sendBody ((b :: buf).take n))) ((b :: buf).drop n) sends

/-- What a writable stream meets. -/
structure WritableEnv where
  sends : List BodySend
  fin : BodySend
  now : ℕ
  deriving DecidableEq

/-- The end of the response, if it is due. -/
def pendingUplinkFin (w : Work) (answer : BodySend) : Work :=
  if w.flow.egressEofSeen && !w.flow.uplinkFinSent then tryUplinkFin w answer else w

/-- `svr_tcp_egress_on_h3_writable`. -/
def onH3Writable (w : Work) (env : WritableEnv) : Work :=
  if w.flow.uplinkWithheld then
    let stash := w.flow.uplinkStash
    let (w, rest) := bodyLoop w stash env.sends
    if w.error.isSome then w
    else
      let w := if rest.length < stash.length then w.touch env.now else w
      if rest ≠ [] then { w with flow := { w.flow with uplinkStash := rest } }
      else
        let w := { w with flow := { w.flow with uplinkStash := [], uplinkWithheld := false } }
        pendingUplinkFin (updateFdInterest w) env.fin
  else pendingUplinkFin w env.fin

/-- What a ready socket meets: the sends of a stash that waits and the drain after it, then
the reads.  `errnoLeft` is where earlier calls left `errno` when the budget is used up. -/
structure ReadyEnv where
  sends : List Send
  drain : DrainEnv
  recvs : List Recv
  stashOk : Bool
  errnoLeft : Errno
  fin : BodySend
  now : ℕ
  deriving DecidableEq

/-- How the read loop ends: the handler is done, the last `recv` returned zero, it failed,
or the budget is used up. -/
inductive ReadEnd where
  | done
  | eof
  | failed (e : Errno)
  | budget
  deriving DecidableEq

/-- The read loop of `svr_tcp_egress_on_relay_ready`. -/
def readLoop (env : ReadyEnv) (w : Work) (relayed : ℕ) : List Recv → Work × ReadEnd
  | [] => (w, .failed .eagain)
  | .err e :: recvs =>
      if e = .eintr then readLoop env w relayed recvs
      else (if e.wouldBlock then w else w.log (.recvFailed e), .failed e)
  | .data bytes body :: recvs =>
      let buf := bytes.take (min (relayBudget - relayed) relayChunk)
      if buf = [] then (w.log .recvEof, .eof)
      else
        let w := (w.log (.recv buf)).touch env.now
        match body with
        | .failed => ((w.log .sendBodyFailed).fail .none, .done)
        | .again => (stashUplink w buf env.stashOk, .done)
        | .took n =>
            let w := w.log (.sendBody (buf.take n))
            if n < buf.length then (stashUplink w (buf.drop n) env.stashOk, .done)
            else if relayBudget ≤ relayed + buf.length then (w, .budget)
            else readLoop env w (relayed + buf.length) recvs

/-- The reading half of `svr_tcp_egress_on_relay_ready`. -/
def readReady (w : Work) (env : ReadyEnv) : Work :=
  match readLoop env w 0 env.recvs with
  | (w, .done) => w
  | (w, .eof) =>
      tryUplinkFin
        (updateFdInterest { w with flow := { w.flow with egressEofSeen := true } }) env.fin
  | (w, .failed e) => if !e.wouldBlock then w.fail e else updateFdInterest w
  | (w, .budget) =>
      -- the last read succeeded; `errno` is looked at all the same
      let w := w.log (.yield env.errnoLeft)
      if !env.errnoLeft.wouldBlock then w.fail env.errnoLeft else updateFdInterest w

/-- `svr_tcp_egress_on_relay_ready`. -/
def onRelayReady (w : Work) (readable writable : Bool) (env : ReadyEnv) : Work :=
  let w :=
    if writable && w.flow.downlinkPaused then flushDownlinkRetry w env.sends env.drain else w
  if w.error.isSome then w
  else if readable && !w.flow.uplinkWithheld then readReady w env
  else updateFdInterest w

/-- `svr_tcp_egress_on_connected`. -/
def onConnected (w : Work) (env : DrainEnv) : Work :=
  let w := { w with flow := { w.flow with state := .active, lastActivityUs := env.now } }
  drainBody ((updateFdInterest w).log (.respond 200 false)) env

/-! ### Events -/

inductive FlowEvent where
  | connected (env : DrainEnv)
  | body (env : DrainEnv)
  | writable (env : WritableEnv)
  | ready (readable writable : Bool) (env : ReadyEnv)
  deriving DecidableEq

/-- The handler of an event.  Body that arrives before the connection stands is left to
xquic. -/
def relay (f : Flow) : FlowEvent → Work
  | .connected env => onConnected { flow := f } env
  | .body env => if f.state ≠ .active then { flow := f } else drainBody { flow := f } env
  | .writable env => onH3Writable { flow := f } env
  | .ready readable writable env => onRelayReady { flow := f } readable writable env

/-! ### What names a flow -/

/-- What names a flow; no handler touches it. -/
structure FlowId where
  serial : ℕ
  fd : ℕ
  stream : StreamKey
  deriving DecidableEq

def Flow.ident (f : Flow) : FlowId := ⟨f.serial, f.fd, f.stream⟩

/-- What the downlink leaves alone. -/
def Flow.kept (f : Flow) : FlowId × Bool := (f.ident, f.uplinkWithheld)

section
variable (w : Work)

/-- Bringing the interest up to date changes the record and the registration only. -/
theorem updateFdInterest_flow : ∃ calls registered,
    (updateFdInterest w).flow = { w.flow with calls := calls, registered := registered } := by
  rw [updateFdInterest]
  split
  · exact ⟨_, _, rfl⟩
  · exact ⟨_, _, rfl⟩

theorem maybeShutdownDownlink_flow : ∃ calls done, (maybeShutdownDownlink w).flow =
    { w.flow with calls := calls, downlinkShutdownDone := done } := by
  rw [maybeShutdownDownlink]
  split
  · exact ⟨_, _, rfl⟩
  · exact ⟨_, _, rfl⟩

@[simp] theorem log_ident (c : Call) : (w.log c).flow.ident = w.flow.ident := rfl

@[simp] theorem log_kept (c : Call) : (w.log c).flow.kept = w.flow.kept := rfl

@[simp] theorem fail_ident (e : Errno) : (w.fail e).flow.ident = w.flow.ident := rfl

@[simp] theorem fail_kept (e : Errno) : (w.fail e).flow.kept = w.flow.kept := rfl

@[simp] theorem touch_ident (now : ℕ) : (w.touch now).flow.ident = w.flow.ident := rfl

@[simp] theorem touch_kept (now : ℕ) : (w.touch now).flow.kept = w.flow.kept := rfl

@[simp] theorem updateFdInterest_kept : (updateFdInterest w).flow.kept = w.flow.kept := by
  obtain ⟨_, _, h⟩ := updateFdInterest_flow w
  rw [h]
  rfl

@[simp] theorem updateFdInterest_ident : (updateFdInterest w).flow.ident = w.flow.ident :=
  congrArg Prod.fst (updateFdInterest_kept w)

@[simp] theorem maybeShutdownDownlink_kept :
    (maybeShutdownDownlink w).flow.kept = w.flow.kept := by
  obtain ⟨_, _, h⟩ := maybeShutdownDownlink_flow w
  rw [h]
  rfl

@[simp] theorem sendLoop_kept (buf : List UInt8) (sends : List Send) :
    (sendLoop w buf sends).1.flow.kept = w.flow.kept := by
  fun_induction sendLoop w buf sends <;> simp_all

@[simp] theorem stashDownlink_kept (buf : List UInt8) (stashOk : Bool) :
    (stashDownlink w buf stashOk).flow.kept = w.flow.kept := by
  rw [stashDownlink]
  split
  · rfl
  · exact updateFdInterest_kept _

@[simp] theorem drainLoop_kept (env : DrainEnv) (moved : Bool) (reads : List BodyRead) :
    (drainLoop env w moved reads).flow.kept = w.flow.kept := by
  induction reads generalizing w moved with
  | nil => rw [drainLoop]; split <;> rfl
  | cons read reads ih =>
    cases read with
    | failed => rfl
    | data bytes fin sends =>
      have hsent := sendLoop_kept (w.log (.recvBody (bytes.take relayChunk) fin))
        (bytes.take relayChunk) sends
      rw [drainLoop]
      generalize sendLoop _ _ sends = r at hsent ⊢
      obtain ⟨w', rest⟩ := r
      rw [log_kept] at hsent
      rw [← hsent]
      dsimp only
      repeat' split
      all_goals first
        | rfl
        | simp only [touch_kept, stashDownlink_kept, maybeShutdownDownlink_kept, ih] <;> rfl

@[simp] theorem drainBody_kept (env : DrainEnv) :
    (drainBody w env).flow.kept = w.flow.kept := by
  rw [drainBody]
  split <;> simp

@[simp] theorem flushDownlinkRetry_kept (sends : List Send) (env : DrainEnv) :
    (flushDownlinkRetry w sends env).flow.kept = w.flow.kept := by
  have hsent := sendLoop_kept w w.flow.downlinkStash sends
  rw [flushDownlinkRetry]
  generalize sendLoop w w.flow.downlinkStash sends = r at hsent ⊢
  obtain ⟨w', rest⟩ := r
  rw [← hsent]
  dsimp only
  repeat' split
  all_goals first
    | rfl
    | simp only [drainBody_kept, updateFdInterest_kept, maybeShutdownDownlink_kept]; rfl

@[simp] theorem flushDownlinkRetry_ident (sends : List Send) (env : DrainEnv) :
    (flushDownlinkRetry w sends env).flow.ident = w.flow.ident :=
  congrArg Prod.fst (flushDownlinkRetry_kept w sends env)

@[simp] theorem tryUplinkFin_ident (answer : BodySend) :
    (tryUplinkFin w answer).flow.ident = w.flow.ident := by
  unfold tryUplinkFin
  split
  · rfl
  · cases answer <;> rfl

@[simp] theorem stashUplink_ident (buf : List UInt8) (stashOk : Bool) :
    (stashUplink w buf stashOk).flow.ident = w.flow.ident := by
  rw [stashUplink]
  split
  · rfl
  · exact updateFdInterest_ident _

@[simp] theorem bodyLoop_ident (buf : List UInt8) (sends : List BodySend) :
    (bodyLoop w buf sends).1.flow.ident = w.flow.ident := by
  fun_induction bodyLoop w buf sends <;> simp_all

@[simp] theorem pendingUplinkFin_ident (answer : BodySend) :
    (pendingUplinkFin w answer).flow.ident = w.flow.ident := by
  rw [pendingUplinkFin]
  split <;> simp

@[simp] theorem onH3Writable_ident (env : WritableEnv) :
    (onH3Writable w env).flow.ident = w.flow.ident := by
  have hsent := bodyLoop_ident w w.flow.uplinkStash env.sends
  rw [onH3Writable]
  dsimp only
  generalize bodyLoop w w.flow.uplinkStash env.sends = r at hsent ⊢
  obtain ⟨w', rest⟩ := r
  rw [← hsent]
  dsimp only
  repeat' split
  all_goals first
    | rfl
    | exact (pendingUplinkFin_ident w env.fin).trans hsent.symm
    | simp only [pendingUplinkFin_ident, updateFdInterest_ident]; rfl

@[simp] theorem readLoop_ident (env : ReadyEnv) (relayed : ℕ) (recvs : List Recv) :
    (readLoop env w relayed recvs).1.flow.ident = w.flow.ident := by
  induction recvs generalizing w relayed with
  | nil => rfl
  | cons recv recvs ih =>
    cases recv with
    | err e =>
      rw [readLoop]
      split
      · exact ih w relayed
      · dsimp only
        split <;> rfl
    | data bytes body =>
      rw [readLoop]
      dsimp only
      split
      · rfl
      · cases body with
        | failed => rfl
        | again => simp
        | took n =>
          dsimp only
          split
          · simp
          · split
            · rfl
            · rw [ih]
              rfl

@[simp] theorem readReady_ident (env : ReadyEnv) :
    (readReady w env).flow.ident = w.flow.ident := by
  have hread := readLoop_ident w env 0 env.recvs
  unfold readReady
  generalize readLoop env w 0 env.recvs = r at hread ⊢
  obtain ⟨w', e⟩ := r
  rw [← hread]
  cases e with
  | done => rfl
  | eof => simp only [tryUplinkFin_ident, updateFdInterest_ident]; rfl
  | failed | budget => dsimp only; split <;> simp

@[simp] theorem onRelayReady_ident (readable writable : Bool) (env : ReadyEnv) :
    (onRelayReady w readable writable env).flow.ident = w.flow.ident := by
  rw [onRelayReady]
  repeat' split
  all_goals simp

@[simp] theorem onConnected_ident (env : DrainEnv) :
    (onConnected w env).flow.ident = w.flow.ident := by
  have hdrain := drainBody_kept ((updateFdInterest { w with flow :=
    { w.flow with state := .active, lastActivityUs := env.now } }).log (.respond 200 false)) env
  rw [log_kept, updateFdInterest_kept] at hdrain
  exact congrArg Prod.fst hdrain

end

/-- A handler leaves the name of its flow alone. -/
@[simp] theorem relay_ident (f : Flow) (ev : FlowEvent) : (relay f ev).flow.ident = f.ident := by
  cases ev with
  | connected env => exact onConnected_ident _ env
  | body env =>
    rw [relay]
    split
    · rfl
    · exact congrArg Prod.fst (drainBody_kept _ env)
  | writable env => exact onH3Writable_ident _ env
  | ready readable writable env => exact onRelayReady_ident _ readable writable env

end Mqvpn.Egress
