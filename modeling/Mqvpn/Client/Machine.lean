import Mqvpn.Client.PathState
import Mqvpn.Endpoint.Datagram

/-!
# The client as a machine

The client is driven by calls of the platform and, inside them, by callbacks of xquic.  A
call is an `Op`; the callbacks xquic makes while it runs its engine are part of the call, in
the order in which they come.  User callbacks do not call back into the client, so the fence
`in_connect` is never seen set and is left out.

What xquic answers is part of the call too.  It keeps to its side: callbacks come only for a
connection that exists, the handshake finishes at most once and not after a local close,
header sections and body are handed over while the request stream is open and the connection
was not closed locally, and the id of a new path is neither `0` nor one that was used on the
connection before.  A callback or an answer against this is one that does not happen.

The times are microseconds without an end, as in the source while `Client.Fits` holds, and the
counters do not overflow.  `handed`, `starts`, `stateLog`, `tunnelLog`, `requests` and
`finalized` record what happened; no function reads them back.

## Main definitions

* `startConnection`, `connect`, `disconnect`, `tick`, `destroy` — connections.
* `addPath`, `removePath`, `onPlatformPathDropped`, `onPlatformPathReleased`,
  `reactivatePath` — path slots.
* `scanHeaders`, `onBody`, `onRequestClose`, `onConnClose` — the tunnel.
* `Callback`, `Op`, `Client.step` — the machine.
-/

namespace Mqvpn.Cli

open Reorder (Config Mode Tx Rx txNew rxNew shouldAdvertise)
open Endpoint (ClientState StreamId handshakeStallTimeoutMs)

/-! ### The data -/

/-- `MQVPN_MAX_PATHS`. -/
def maxPaths : ℕ := 8

/-- The configuration, as far as it is read here. -/
structure ClientConfig where
  multipath : Bool
  /-- The scheduler is `MQVPN_SCHED_BACKUP_FEC`. -/
  backupFec : Bool
  reconnectEnable : Bool
  reconnectIntervalSec : ℤ
  requestServerScheduler : Bool
  reorder : Config
  tunMtu : ℤ
  deriving DecidableEq

/-- Why a tunnel was closed: the error codes that are passed to `tunnel_closed`. -/
inductive CloseReason where
  | tls
  | auth
  | protocol
  | invalidArg
  | closed
  deriving DecidableEq

/-- An address with its prefix length. -/
structure Assigned where
  addr : List UInt8
  prefixLen : UInt8
  deriving DecidableEq

/-- A capsule of the request stream.  An ADDRESS_ASSIGN stands for the entries that parse, of
IPv4, of IPv6 or of neither. -/
inductive Capsule where
  | addressAssign (entries : List (ℕ × Assigned))
  | routeAdvertisement (valid : Bool)
  | other
  deriving DecidableEq

/-- A connection, `cli_conn_t`, with what xquic knows of it. -/
structure CliConn where
  /-- The number of the connection, `conn_id` when it was started. -/
  id : ℕ
  tunnelOk : Bool := false
  tunnelNotified : Bool := false
  notifiedReason : Option CloseReason := none
  assignedIp : Option Assigned := none
  assignedIp6 : Option Assigned := none
  dgramMss : ℕ
  masqueStreamId : StreamId := 0
  peerReorderSupported : Bool := false
  reorderTx : Option Tx
  reorderRx : Option Rx
  /-- The capsules in the buffer of the request stream, while the stream is there. -/
  stream : Option (List Capsule) := none
  /-- The handshake has finished. -/
  handshaken : Bool := false
  /-- The connection was closed locally. -/
  closing : Bool := false
  deriving DecidableEq

/-- `mqvpn_tunnel_info_t`, as far as it is assigned by the server. -/
structure TunnelInfo where
  assignedIp : Assigned
  assignedIp6 : Option Assigned
  mtu : ℤ
  deriving DecidableEq

/-- A header of a response; a status has its value as it came. -/
inductive Header where
  | status (value : List UInt8)
  /-- `mqvpn_reorder_header_match`. -/
  | reorder
  | other
  deriving DecidableEq

/-- What a tunnel saw: the header sections and the capsules that were handed over, and what the
platform was told; `tunnelOk` is the flag of the connection when the tunnel was called ready. -/
inductive TunnelEvent where
  | section (hdrs : List Header)
  | body (capsules : List Capsule)
  | ready (info : TunnelInfo) (tunnelOk : Bool)
  | closed (reason : CloseReason)
  deriving DecidableEq

/-- A tunnel request whose headers went out: its connection and stream, whether the reorder
header was among the headers, and whether there was a receive engine. -/
structure TunnelRequest where
  conn : ℕ
  sid : StreamId
  reorder : Bool
  engine : Bool
  deriving DecidableEq

/-- How a start of a connection ended. -/
inductive StartResult where
  | started
  | connExists
  | noMemory
  | primaryNotReady
  | connectFailed
  deriving DecidableEq

/-- A start of a connection: from which state, on which slots, whether there was memory for the
connection, and what came of it. -/
structure Start where
  state : ClientState
  paths : List PathEntry
  primaryPathIdx : ℕ
  connAlloc : Bool
  result : StartResult
  deriving DecidableEq

/-- The end of a transport: the counters that were taken over, whether its `release` was
called, whether the slot was still attached and whether the client was being destroyed. -/
structure Finalized where
  handle : ℕ
  txSends : ℕ
  txDatagrams : ℕ
  releaseCalled : Bool
  attached : Bool
  atDestroy : Bool
  deriving DecidableEq

/-- The client `mqvpn_client_t`, as far as its connection and its slots go. -/
structure Client where
  cfg : ClientConfig
  state : ClientState := .idle
  conn : Option CliConn := none
  connId : ℕ := 0
  paths : List PathEntry := []
  nextPathHandle : ℕ := 1
  primaryPathIdx : ℕ := 0
  multipathReady : Bool := false
  holdExtraPaths : Bool := false
  handshakeStartedUs : ℕ := 0
  reconnectScheduledUs : ℕ := 0
  reconnectAttempts : ℕ := 0
  shuttingDown : Bool := false
  tunActive : Bool := false
  retiredTxSends : ℕ := 0
  retiredTxDatagrams : ℕ := 0
  /-- The path ids xquic has used on the connection. -/
  issued : List ℕ := []
  destroyed : Bool := false
  /-- The transports that were handed over, by their handles. -/
  handed : List (ℕ × PathOps) := []
  starts : List Start := []
  stateLog : List (ClientState × ClientState) := []
  tunnelLog : List (ℕ × TunnelEvent) := []
  requests : List TunnelRequest := []
  finalized : List Finalized := []
  deriving DecidableEq

/-- The return codes of the calls. -/
inductive ErrorCode where
  | ok
  | invalidArg
  | invalidState
  | engine
  deriving DecidableEq

/-- `state_transitions`. -/
def stateTransitionValid : ClientState → ClientState → Bool
  | .idle, .connecting => true
  | .connecting, .authenticating => true
  | .connecting, .reconnecting => true
  | .connecting, .closed => true
  | .authenticating, .tunnelReady => true
  | .authenticating, .reconnecting => true
  | .authenticating, .closed => true
  | .tunnelReady, .established => true
  | .tunnelReady, .reconnecting => true
  | .tunnelReady, .closed => true
  | .established, .reconnecting => true
  | .established, .closed => true
  | .reconnecting, .connecting => true
  | .reconnecting, .closed => true
  | _, _ => false

/-- `client_set_state`; an invalid change is an assertion of the source, here it is recorded
and made. -/
def setState (now : ℕ) (newState : ClientState) (c : Client) : Client :=
  if c.state = newState then c
  else
    { c with
      handshakeStartedUs :=
        if newState = .connecting then now
        else if c.state = .connecting then 0
        else c.handshakeStartedUs
      state := newState
      stateLog := c.stateLog ++ [(c.state, newState)] }

/-- Record what happened to a tunnel. -/
def Client.logTunnel (c : Client) (id : ℕ) (events : List TunnelEvent) : Client :=
  { c with tunnelLog := c.tunnelLog ++ events.map (id, ·) }

/-! ### Slots -/

/-- `find_path_by_xqc_id`. -/
def findPathByXqcId (c : Client) (xqcPathId : ℕ) : Option ℕ :=
  c.paths.findIdx? fun p => p.xquicPathLive && p.xqcPathId == xqcPathId

/-- `find_path_by_handle`. -/
def findPathByHandle (c : Client) (handle : ℕ) : Option ℕ :=
  c.paths.findIdx? fun p => p.handle == handle

/-- Write a slot back. -/
def Client.setPath (c : Client) (i : ℕ) (p : PathEntry) : Client :=
  { c with paths := c.paths.set i p }

def Client.onPathEvent (c : Client) (now : ℕ) (ev : PathEvent) (i : ℕ) : Client :=
  match c.paths[i]? with
  | none => c
  | some p => c.setPath i (pathOnEvent now ev p)

/-- `client_next_primary_idx`. -/
def nextPrimaryIdx (paths : List PathEntry) (fromIdx : ℕ) : ℕ :=
  if paths.length = 0 then 0
  else
    let candidates := (List.range paths.length).map fun k => (fromIdx + 1 + k) % paths.length
    (candidates.find? fun i =>
      (paths[i]?).any fun p => p.transportAttached && p.status != .closed).getD fromIdx

/-- `activate_via_xquic_classify`: a created path has an id that is new on the connection. -/
def activateViaXquicClassify (result : ActivateResult) (c : Client) : ActivateResult × Client :=
  match result with
  | .ok newId =>
      if newId = 0 ∨ newId ∈ c.issued ∨ c.conn.isNone then (.transientFail, c)
      else (.ok newId, { c with issued := newId :: c.issued })
  | result => (result, c)

/-- An attempt to create the path of a slot, reported to it as an event. -/
def Client.attempt (c : Client) (now : ℕ) (ev : ActivateResult → PathEvent)
    (result : ActivateResult) (i : ℕ) : Client :=
  let r := activateViaXquicClassify result c
  r.2.onPathEvent now (ev r.1) i

/-- `client_activate_path`. -/
def activatePath (now : ℕ) (result : ActivateResult) (i : ℕ) (c : Client) : Client :=
  match c.paths[i]? with
  | none => c
  | some p => if p.xquicPathLive then c else c.attempt now .activateRequested result i

/-- `activate_pending_paths`; `results` has the answer for each slot. -/
def activatePendingPaths (now : ℕ) (results : List ActivateResult) (c : Client) : Client :=
  Run.exec
    (fun c i =>
      match c.paths[i]? with
      | none => c
      | some p =>
          if p.state ≠ .pending then c
          else activatePath now (results.getD i .transientFail) i c)
    c (List.range c.paths.length)

/-- `client_release_path_hold`. -/
def releasePathHold (now : ℕ) (results : List ActivateResult) (c : Client) : Client :=
  if !c.holdExtraPaths then c
  else
    let c := { c with holdExtraPaths := false }
    if c.multipathReady && c.cfg.multipath then activatePendingPaths now results c else c

/-- `client_reset_paths_for_reconnect`. -/
def resetPathsForReconnect (now : ℕ) (c : Client) : Client :=
  let paths := c.paths.map (pathOnEvent now .connReset)
  { c with
    multipathReady := false
    holdExtraPaths := false
    paths := paths
    primaryPathIdx := nextPrimaryIdx paths c.primaryPathIdx }

/-! ### Starting a connection -/

/-- `RECONNECT_BACKOFF_MAX_SEC`. -/
def reconnectBackoffMaxSec : ℕ := 60

/-- `client_reconnect_delay_sec`. -/
def reconnectDelaySec (c : Client) : ℕ :=
  let base := if c.cfg.reconnectIntervalSec ≤ 0 then 5 else c.cfg.reconnectIntervalSec.toNat
  backoff reconnectBackoffMaxSec c.reconnectAttempts base

/-- `client_arm_reconnect_timer`. -/
def armReconnectTimer (now : ℕ) (c : Client) : Client :=
  { c with
    reconnectAttempts := c.reconnectAttempts + 1
    reconnectScheduledUs := now + reconnectDelaySec c * 1000000 }

/-- What a start depends on: allocations, the answer of `xqc_h3_connect` and the datagram size
it reports. -/
structure StartEnv where
  connAlloc : Bool
  h3Connect : Bool
  dgramMss : ℕ
  txAlloc : Bool
  rxAlloc : Bool
  deriving DecidableEq

/-- The reorder engines of a new connection; both or neither. -/
def reorderEngines (now : ℕ) (env : StartEnv) (c : Client) : Option Tx × Option Rx :=
  if c.cfg.reorder.mode = .off then (none, none)
  else
    let seedBase := UInt64.ofNat now ^^^ (UInt64.ofNat c.connId <<< 32)
    match txNew c.cfg.reorder seedBase env.txAlloc,
      rxNew c.cfg.reorder (seedBase ^^^ 0x9e3779b9) env.rxAlloc with
    | some tx, some rx => (some tx, some rx)
    | _, _ => (none, none)

/-- The primary slot is bound to path `0`, which xquic creates with the connection. -/
def Client.bootstrap (c : Client) (now : ℕ) : Client :=
  match c.paths[c.primaryPathIdx]? with
  | none => c
  | some pp =>
      c.setPath c.primaryPathIdx
        (setPathState now .validating { pp with xqcPathId := 0, xquicPathLive := true })

/-- `cli_start_connection`. -/
def startConnection (now : ℕ) (env : StartEnv) (c : Client) : Client × StartResult :=
  if c.conn.isSome then (c, .connExists)
  else
    let c := { c with connId := c.connId + 1 }
    if !env.connAlloc then (c, .noMemory)
    else if (c.paths[c.primaryPathIdx]?).any fun pp => !pp.transportAttached then
      (c, .primaryNotReady)
    else if !env.h3Connect then (c, .connectFailed)
    else
      let engines := reorderEngines now env c
      let conn : CliConn :=
        { id := c.connId, dgramMss := env.dgramMss, reorderTx := engines.1, reorderRx := engines.2 }
      ({ c.bootstrap now with conn := some conn, issued := [0] }, .started)

def Client.start (c : Client) (now : ℕ) (env : StartEnv) : Client × StartResult :=
  let r := startConnection now env c
  let start := ⟨c.state, c.paths, c.primaryPathIdx, env.connAlloc, r.2⟩
  ({ r.1 with starts := c.starts ++ [start] }, r.2)

/-- `mqvpn_client_connect`. -/
def connect (now : ℕ) (env : StartEnv) (c : Client) : Client × ErrorCode :=
  if !stateTransitionValid c.state .connecting then (c, .invalidArg)
  else
    let fromReconnecting := c.state = .reconnecting
    let c :=
      if fromReconnecting then resetPathsForReconnect now { c with reconnectScheduledUs := 0 }
      else c
    let r := c.start now env
    if r.2 ≠ .started then
      (if fromReconnecting then armReconnectTimer now r.1 else r.1, .engine)
    else (setState now .connecting r.1, .ok)

/-- `tick_reconnect`, up to its run of the engine; the flag says whether that follows. -/
def tickReconnect (now : ℕ) (env : StartEnv) (c : Client) : Client × Bool :=
  if c.state ≠ .reconnecting ∨ c.reconnectScheduledUs = 0 then (c, false)
  else if now < c.reconnectScheduledUs then (c, false)
  else
    let c := resetPathsForReconnect now { c with reconnectScheduledUs := 0 }
    let r := c.start now env
    if r.2 ≠ .started then (armReconnectTimer now r.1, false)
    else (setState now .connecting r.1, true)

/-! ### The tunnel -/

/-- `cli_signal_connect_fail`. -/
def signalConnectFail (reason : CloseReason) (conn : CliConn) : CliConn × List TunnelEvent :=
  if conn.tunnelNotified then (conn, [])
  else ({ conn with tunnelNotified := true, notifiedReason := some reason }, [.closed reason])

/-- The value of a status of exactly three digits. -/
def parseStatus : List UInt8 → Option ℕ
  | [a, b, c] =>
      if (48 ≤ a ∧ a ≤ 57) ∧ (48 ≤ b ∧ b ≤ 57) ∧ (48 ≤ c ∧ c ≤ 57) then
        some ((a.toNat - 48) * 100 + (b.toNat - 48) * 10 + (c.toNat - 48))
      else none
  | _ => none

/-- `cli_classify_status`. -/
def classifyStatus (status : ℕ) : CloseReason :=
  if status = 401 ∨ status = 403 then .auth else .protocol

/-- The variables of the scan of a header section. -/
structure Scan where
  conn : CliConn
  finalSeen : Bool
  decided200 : Bool
  reorderEcho : Bool
  events : List TunnelEvent

/-- A final status that fails the request. -/
def Scan.fail (s : Scan) (reason : CloseReason) : Scan :=
  let r := signalConnectFail reason s.conn
  { s with conn := r.1, finalSeen := true, events := s.events ++ r.2 }

def scanHeader (s : Scan) : Header → Scan
  | .status value =>
      let st := parseStatus value
      if st.any fun n => decide (100 ≤ n ∧ n < 200) then s
      else if s.finalSeen then s
      else
        match st with
        | none => s.fail .protocol
        | some n =>
            if n = 200 then
              { s with
                conn := { s.conn with tunnelOk := true }, finalSeen := true, decided200 := true }
            else s.fail (classifyStatus n)
  | .reorder => { s with reorderEcho := true }
  | .other => s

/-- `cli_connect_ip_scan_headers`: the first final status decides, and the echo counts in the
section that carried a deciding 200. -/
def scanHeaders (conn : CliConn) (headers : List Header) : CliConn × List TunnelEvent :=
  let s := Run.exec scanHeader
    { conn := conn
      finalSeen := conn.tunnelOk || conn.tunnelNotified
      decided200 := false
      reorderEcho := false
      events := [] } headers
  (if s.decided200 && s.reorderEcho then { s.conn with peerReorderSupported := true } else s.conn,
    s.events)

def statuses (headers : List Header) : List (Option ℕ) :=
  headers.filterMap fun
    | .status value => some (parseStatus value)
    | _ => none

/-- The first entry of each version is taken. -/
def assignEntry (conn : CliConn) (entry : ℕ × Assigned) : CliConn :=
  if entry.1 = 4 ∧ conn.assignedIp.isNone then { conn with assignedIp := some entry.2 }
  else if entry.1 = 6 ∧ conn.assignedIp6.isNone then { conn with assignedIp6 := some entry.2 }
  else conn

/-- `process_capsules`: an invalid ROUTE_ADVERTISEMENT stays at the head of the buffer. -/
def processCapsules : List Capsule → CliConn → List Capsule × CliConn
  | [], conn => ([], conn)
  | .addressAssign entries :: rest, conn => processCapsules rest (Run.exec assignEntry conn entries)
  | .routeAdvertisement false :: rest, conn => (.routeAdvertisement false :: rest, conn)
  | .routeAdvertisement true :: rest, conn => processCapsules rest conn
  | .other :: rest, conn => processCapsules rest conn

/-- The reads of a body: each appends to the buffer, if there is room, and completes
capsules.  The flag says whether every append succeeded. -/
def readBody : List (Bool × List Capsule) → List Capsule → CliConn → Bool × List Capsule × CliConn
  | [], buf, conn => (true, buf, conn)
  | (appended, capsules) :: rest, buf, conn =>
      if !appended then (false, buf, conn)
      else
        let r := processCapsules (buf ++ capsules) conn
        readBody rest r.1 r.2

/-- `IPV6_MIN_MTU`. -/
def ipv6MinMtu : ℤ := 1280

/-- The reorder header takes its room from the inner packets. -/
def reorderRoom (cfg : ClientConfig) (conn : CliConn) (mtu : ℤ) : ℤ :=
  if cfg.reorder.mode ≠ .off ∧ conn.peerReorderSupported = true then mtu - 8 else mtu

/-- `cli_check_ipv6_mtu`. -/
def checkIpv6Mtu (cfg : ClientConfig) (conn : CliConn) (mtu : ℤ) :
    Bool × CliConn × List TunnelEvent :=
  if conn.assignedIp6.isNone ∨ ipv6MinMtu ≤ reorderRoom cfg conn mtu then (true, conn, [])
  else
    let r := signalConnectFail .invalidArg { conn with tunnelOk := false, closing := true }
    (false, r.1, r.2)

/-- `cli_tun_mtu`. -/
def tunMtu (cfg : ClientConfig) (conn : CliConn) (mtu : ℤ) : ℤ :=
  let mtu := if 0 < cfg.tunMtu ∧ cfg.tunMtu < mtu then cfg.tunMtu else mtu
  if cfg.reorder.mode ≠ .off ∧ conn.peerReorderSupported = true then
    if conn.assignedIp6.isSome ∧ mtu - 8 < ipv6MinMtu then ipv6MinMtu else mtu - 8
  else mtu

/-- The primary slot becomes active if it holds the path of the handshake. -/
def Client.confirmPrimary (c : Client) (now : ℕ) : Client :=
  match c.paths[c.primaryPathIdx]? with
  | none => c
  | some pp =>
      if pp.transportAttached ∧ pp.state = .validating ∧ pp.xqcPathId = 0 then
        c.onPathEvent now (.validationOk .active) c.primaryPathIdx
      else c

/-- What a body delivery depends on: its reads, the answer of `xqc_h3_ext_masque_udp_mss` and
the answers for paths that are activated after it. -/
structure BodyEnv where
  reads : List (Bool × List Capsule)
  udpMss : ℕ
  results : List ActivateResult
  deriving DecidableEq

/-- `mqvpn_tunnel_prefix6_effective`. -/
def tunnelPrefix6Effective (capsulePrefix : UInt8) : UInt8 :=
  if 112 < capsulePrefix ∧ capsulePrefix ≤ 128 then 112 else capsulePrefix

/-- What the platform is told of a tunnel. -/
def tunnelInfo (conn : CliConn) (ip : Assigned) (mtu : ℤ) : TunnelInfo :=
  { assignedIp := ip
    assignedIp6 := conn.assignedIp6.map fun ip6 =>
      { ip6 with prefixLen := tunnelPrefix6Effective ip6.prefixLen }
    mtu := mtu }

def Client.tunnelReady (c : Client) (now : ℕ) (conn : CliConn) (ip : Assigned) (mtu : ℤ)
    (results : List ActivateResult) : Client :=
  let c := setState now .tunnelReady (c.confirmPrimary now)
  let c := c.logTunnel conn.id [.ready (tunnelInfo conn ip mtu) conn.tunnelOk]
  releasePathHold now results { c with reconnectAttempts := 0 }

/-- The inner MTU a connection can carry, before the reorder header and the cap. -/
def availableMtu (conn : CliConn) (udpMss : ℕ) : ℤ :=
  if 0 < conn.dgramMss ∧ 68 ≤ udpMss then udpMss else ipv6MinMtu

def CliConn.afterReads (k : CliConn) (reads : List (Bool × List Capsule)) (buf : List Capsule) :
    CliConn :=
  { (readBody reads buf k).2.2 with stream := some (readBody reads buf k).2.1 }

/-- `cli_connect_ip_on_body`. -/
def onBody (now : ℕ) (env : BodyEnv) (k : CliConn) (buf : List Capsule) (c : Client) : Client :=
  let conn := k.afterReads env.reads buf
  let c := { c with conn := some conn }
  if !(readBody env.reads buf k).1 then c
  else if conn.tunnelNotified then c
  else
    let mtu := availableMtu conn env.udpMss
    let check := checkIpv6Mtu c.cfg conn mtu
    if !check.1 then { c with conn := some check.2.1 }.logTunnel conn.id check.2.2
    else
      match conn.assignedIp with
      | none => c
      | some ip =>
          if c.state ≠ .established ∧ c.state ≠ .tunnelReady then
            c.tunnelReady now conn ip (tunMtu c.cfg conn mtu) env.results
          else c

/-- `cli_connect_ip_on_request_close`. -/
def onRequestClose (conn : CliConn) (c : Client) : Client :=
  let r :=
    if !conn.tunnelOk && !c.shuttingDown then signalConnectFail .protocol conn else (conn, [])
  { c with conn := some { r.1 with tunnelOk := false, stream := none } }.logTunnel conn.id r.2

/-- `cb_h3_conn_close`. -/
def onConnClose (now : ℕ) (conn : CliConn) (c : Client) : Client :=
  let c := if conn.tunnelNotified then c else c.logTunnel conn.id [.closed .closed]
  let certRejected := conn.tunnelNotified && conn.notifiedReason == some .tls
  let c := { c with conn := none }
  if !c.shuttingDown && c.cfg.reconnectEnable && !certRejected then
    setState now .reconnecting (armReconnectTimer now c)
  else setState now .closed c

/-- What `cli_masque_start_tunnel` depends on. -/
structure RequestEnv where
  dgramMss : ℕ
  streamAlloc : Bool
  requestCreate : Bool
  sendHeaders : Bool
  streamId : StreamId
  deriving DecidableEq

/-- The request of a connection; it has the reorder header if the engine could take what the
server would stamp. -/
def CliConn.request (conn : CliConn) (mode : Mode) (sid : StreamId) : TunnelRequest where
  conn := conn.id
  sid := sid
  reorder := shouldAdvertise mode conn.reorderRx
  engine := conn.reorderRx.isSome

/-- `cli_masque_start_tunnel`; a request whose headers could not be sent is still there until
its close is notified. -/
def masqueStartTunnel (env : RequestEnv) (conn : CliConn) (c : Client) : Client :=
  if !env.streamAlloc || !env.requestCreate then { c with conn := some conn }
  else
    { c with
      conn := some { conn with
        stream := some []
        masqueStreamId := if env.sendHeaders then env.streamId else conn.masqueStreamId }
      requests :=
        if env.sendHeaders then c.requests ++ [conn.request c.cfg.reorder.mode env.streamId]
        else c.requests
      holdExtraPaths := c.holdExtraPaths || c.cfg.requestServerScheduler }

/-! ### Callbacks of xquic -/

/-- The callbacks of xquic for the connection, with the clock and the answers they see. -/
inductive Callback where
  | handshakeFinished (now : ℕ) (env : RequestEnv)
  | certRejected
  | headers (hdrs : List Header)
  | body (now : ℕ) (env : BodyEnv)
  | requestClose
  | connClose (now : ℕ)
  | readyToCreatePath (now : ℕ) (results : List ActivateResult)
  | pathRemoved (now : ℕ) (pathId : ℕ)
  | mssUpdated (mss udpMss : ℕ)
  deriving DecidableEq

/-- A callback for the connection `conn` of `c`. -/
def Client.callbackOn (c : Client) (conn : CliConn) : Callback → Client
  | .handshakeFinished now env =>
      if conn.handshaken || conn.closing then c
      else
        masqueStartTunnel env { conn with dgramMss := env.dgramMss, handshaken := true }
          (setState now .authenticating c)
  | .certRejected =>
      if conn.handshaken then c
      else
        let r := signalConnectFail .tls conn
        { c with conn := some r.1 }.logTunnel conn.id r.2
  | .headers hdrs =>
      if conn.stream.isNone || conn.closing then c
      else
        let r := scanHeaders conn hdrs
        { c with conn := some r.1 }.logTunnel conn.id (.section hdrs :: r.2)
  | .body now env =>
      match conn.stream with
      | none => c
      | some buf =>
          if conn.closing then c
          else onBody now env conn buf (c.logTunnel conn.id [.body (env.reads.flatMap Prod.snd)])
  | .requestClose => if conn.stream.isNone then c else onRequestClose conn c
  | .connClose now => onConnClose now conn c
  | .readyToCreatePath now results =>
      let c := { c with multipathReady := true }
      if !c.cfg.multipath || c.holdExtraPaths then c else activatePendingPaths now results c
  | .pathRemoved now pathId =>
      match findPathByXqcId c pathId with
      | none => c
      | some i => c.onPathEvent now .xquicRemoved i
  | .mssUpdated mss udpMss =>
      let conn := { conn with dgramMss := mss }
      if c.tunActive && decide (68 ≤ udpMss) then
        let r := checkIpv6Mtu c.cfg conn udpMss
        { c with conn := some r.2.1 }.logTunnel conn.id r.2.2
      else { c with conn := some conn }

/-- A callback; without a connection there is none. -/
def Client.callback (c : Client) (cb : Callback) : Client :=
  match c.conn with
  | none => c
  | some conn => c.callbackOn conn cb

def Client.mainLogic (c : Client) (cbs : List Callback) : Client := Run.exec Client.callback c cbs

/-! ### Calls of the platform -/

/-- `mqvpn_add_path_outcome_t`. -/
inductive AddPathOutcome where
  | ok
  | transientFail
  | permanentFail
  deriving DecidableEq

/-- `add_path_outcome_from_state`; `none` is the assertion. -/
def addPathOutcomeFromState : Lifecycle → Option AddPathOutcome
  | .validating => some .ok
  | .active => some .ok
  | .standby => some .ok
  | .createWait => some .transientFail
  | .closedRecoverable => some .permanentFail
  | .pending => none
  | .degraded => none
  | .closedDropped => none
  | .closedFree => none

/-- The slot a path is added to: the first free one, or a new one. -/
def freeIdx (c : Client) : Option ℕ :=
  match c.paths.findIdx? fun p => p.state == .closedFree with
  | some i => some i
  | none => if maxPaths ≤ c.paths.length then none else some c.paths.length

/-- Put a new slot at an index, at the end if there is none. -/
def Client.putPath (c : Client) (i : ℕ) (p : PathEntry) : Client :=
  { c with paths := if i < c.paths.length then c.paths.set i p else c.paths ++ [p] }

/-- `mqvpn_client_add_path`.  No operations stand for arguments that are refused; the result
is the handle with the outcome, `none` for `-1`. -/
def addPath (now : ℕ) (ops : Option PathOps) (ctx : ℕ) (results : List ActivateResult)
    (c : Client) : Client × Option (ℕ × Option AddPathOutcome) :=
  match ops, freeIdx c with
  | some ops, some i =>
      let handle := c.nextPathHandle
      let c := { c with
        nextPathHandle := handle + 1, handed := c.handed ++ [(handle, ops)] }.putPath i
        (PathEntry.added now handle ops ctx)
      if c.multipathReady && c.cfg.multipath && c.conn.isSome && !c.holdExtraPaths then
        let c := activatePendingPaths now results c
        (c, some (handle, (c.paths[i]?).bind fun p => addPathOutcomeFromState p.state))
      else (c, some (handle, some .ok))
  | _, _ => (c, none)

/-- `mqvpn_client_remove_path`. -/
def removePath (now handle : ℕ) (c : Client) : Client × ErrorCode :=
  match findPathByHandle c handle with
  | none => (c, .invalidArg)
  | some i =>
      if (c.paths[i]?).any fun p => p.state == .closedFree then (c, .ok)
      else (c.onPathEvent now .removeApi i, .ok)

/-- `mqvpn_client_on_platform_path_dropped`. -/
def onPlatformPathDropped (now handle : ℕ) (c : Client) : Client × ErrorCode :=
  match findPathByHandle c handle with
  | none => (c, .invalidArg)
  | some i => (c.onPathEvent now .platformDrop i, .ok)

/-- The counters `get_stats` reports; none if there is no such operation or it fails. -/
def reading (ops : Option PathOps) (stats : Option (ℕ × ℕ)) : ℕ × ℕ :=
  if ops.any PathOps.getStats then stats.getD (0, 0) else (0, 0)

/-- `client_finalize_transport`: the operations are gone before any of them is called. -/
def finalizeTransport (stats : Option (ℕ × ℕ)) (i : ℕ) (c : Client) : Client :=
  match c.paths[i]? with
  | none => c
  | some p =>
      let st := reading p.ops stats
      { c.setPath i { p with ops := none, transportCtx := 0 } with
        retiredTxSends := c.retiredTxSends + st.1
        retiredTxDatagrams := c.retiredTxDatagrams + st.2
        finalized := c.finalized ++
          [{ handle := p.handle
             txSends := st.1
             txDatagrams := st.2
             releaseCalled := p.ops.any PathOps.release
             attached := p.transportAttached
             atDestroy := c.destroyed }] }

/-- `mqvpn_client_on_platform_path_released`. -/
def onPlatformPathReleased (now handle : ℕ) (stats : Option (ℕ × ℕ)) (c : Client) :
    Client × ErrorCode :=
  match findPathByHandle c handle with
  | none => (c, .invalidArg)
  | some i =>
      match c.paths[i]? with
      | none => (c, .invalidArg)
      | some p =>
          if p.state = .closedFree then (c, .ok)
          else if p.state ≠ .closedDropped then (c, .invalidState)
          else if p.transportReleased || p.ops.isNone then (c, .ok)
          else ((finalizeTransport stats i c).onPathEvent now .transportReleased i, .ok)

/-- `reactivate_slot_eligible`. -/
def reactivateSlotEligible (p : PathEntry) : Bool :=
  !p.xquicPathLive && p.transportAttached &&
    (p.state == .degraded || p.state == .createWait || p.state == .closedRecoverable)

/-- `mqvpn_client_reactivate_path`. -/
def reactivatePath (now handle : ℕ) (result : ActivateResult) (c : Client) : Client × ErrorCode :=
  if c.state ≠ .established ∨ !c.multipathReady then (c, .invalidState)
  else
    match findPathByHandle c handle with
    | none => (c, .invalidArg)
    | some i =>
        if (c.paths[i]?).any reactivateSlotEligible then
          let c := c.attempt now .manualReactivate result i
          (c, if (c.paths[i]?).any fun p => p.state == .validating then .ok else .engine)
        else (c, .invalidState)

/-- `mqvpn_client_set_tun_active`. -/
def setTunActive (now : ℕ) (active : Bool) (c : Client) : Client :=
  let c := { c with tunActive := active }
  if active && decide (c.state = .tunnelReady) then setState now .established c else c

/-- The connection is closed locally, if there is one; the callbacks follow. -/
def Client.closeConn (c : Client) : Client :=
  { c with conn := c.conn.map fun conn => { conn with closing := true } }

/-- `mqvpn_client_disconnect`; the engine runs before the close and after it. -/
def disconnect (now : ℕ) (flush drain : List Callback) (c : Client) : Client :=
  if c.state = .closed ∨ c.state = .idle then c
  else
    let c := { c with shuttingDown := true }.mainLogic flush
    setState now .closed (c.closeConn.mainLogic drain)

/-- `client_handshake_stalled`. -/
def handshakeStalled (now : ℕ) (c : Client) : Bool :=
  decide (c.state = .connecting ∧ c.handshakeStartedUs ≠ 0 ∧ c.handshakeStartedUs < now ∧
    handshakeStallTimeoutMs.toNat * 1000 ≤ now - c.handshakeStartedUs)

/-- `tick_handshake_watchdog`. -/
def tickHandshakeWatchdog (now : ℕ) (c : Client) : Client :=
  if c.shuttingDown then c
  else if !handshakeStalled now c then c
  else
    let c := { c with handshakeStartedUs := 0 }
    if c.conn.isSome then c.closeConn
    else setState now .reconnecting (armReconnectTimer now c)

/-- `tick_check_all_validations`; `validated` are the ids xquic reports as active. -/
def tickCheckAllValidations (now : ℕ) (validated : List ℕ) (c : Client) : Client :=
  if !c.multipathReady || c.conn.isNone then c
  else
    let target := if c.cfg.backupFec then Lifecycle.standby else .active
    Run.exec
      (fun c i =>
        match c.paths[i]? with
        | none => c
        | some p =>
            if p.state = .validating ∧ p.xqcPathId ∈ validated then
              c.onPathEvent now (.validationOk target) i
            else c)
      c (List.range c.paths.length)

/-- `tick_drive_retry_timer`. -/
def tickDriveRetryTimer (now : ℕ) (result : ActivateResult) (i : ℕ) (c : Client) : Client :=
  match c.paths[i]? with
  | none => c
  | some p =>
      if p.state ≠ .degraded ∧ p.state ≠ .createWait then c
      else if p.recreateAfterUs = 0 ∨ now < p.recreateAfterUs then c
      else c.attempt now .retryTimer result i

/-- `path_fsm_tick_confirm_stable` on a slot. -/
def tickConfirmStable (now : ℕ) (i : ℕ) (c : Client) : Client :=
  match c.paths[i]? with
  | none => c
  | some p => c.setPath i (pathFsmTickConfirmStable now p)

/-- `tick_path_recovery`. -/
def tickPathRecovery (now : ℕ) (validated : List ℕ) (results : List ActivateResult) (c : Client) :
    Client :=
  if !c.multipathReady || decide (c.state ≠ .established) then c
  else
    Run.exec
      (fun c i =>
        tickConfirmStable now i (tickDriveRetryTimer now (results.getD i .transientFail) i c))
      (tickCheckAllValidations now validated c) (List.range c.paths.length)

/-- What a tick sees: the clock in its parts, and what xquic does and answers. -/
structure TickEnv where
  watchdogUs : ℕ
  engine : List Callback
  recoveryUs : ℕ
  validated : List ℕ
  results : List ActivateResult
  reconnectUs : ℕ
  start : StartEnv
  engineAfterStart : List Callback
  deriving DecidableEq

/-- `mqvpn_client_tick`, as far as connection and slots go. -/
def tick (env : TickEnv) (c : Client) : Client :=
  let c := (tickHandshakeWatchdog env.watchdogUs c).mainLogic env.engine
  let c := tickPathRecovery env.recoveryUs env.validated env.results c
  let r := tickReconnect env.reconnectUs env.start c
  if r.2 then r.1.mainLogic env.engineAfterStart else r.1

/-- `mqvpn_client_destroy`: the engine runs once more and is torn down, then every transport
that is owed a release is finalized. -/
def destroy (flush teardown : List Callback) (stats : List (Option (ℕ × ℕ))) (c : Client) :
    Client :=
  let c := ({ c with shuttingDown := true }.mainLogic flush).mainLogic teardown
  Run.exec
    (fun c i =>
      match c.paths[i]? with
      | none => c
      | some p =>
          if p.transportReleased then c else finalizeTransport (stats.getD i none) i c)
    { c with conn := none, destroyed := true } (List.range c.paths.length)

inductive Op where
  | addPath (now : ℕ) (ops : Option PathOps) (ctx : ℕ) (results : List ActivateResult)
  | removePath (now handle : ℕ)
  | pathDropped (now handle : ℕ)
  | pathReleased (now handle : ℕ) (stats : Option (ℕ × ℕ))
  | reactivatePath (now handle : ℕ) (result : ActivateResult)
  | connect (now : ℕ) (env : StartEnv)
  | disconnect (now : ℕ) (flush drain : List Callback)
  | tick (env : TickEnv)
  /-- `mqvpn_client_on_socket_recv`, or any other call in which the engine runs. -/
  | socketRecv (engine : List Callback)
  | setTunActive (now : ℕ) (active : Bool)
  | destroy (flush teardown : List Callback) (stats : List (Option (ℕ × ℕ)))
  deriving DecidableEq

/-- A call; after `destroy` there is none. -/
def Client.step (c : Client) (op : Op) : Client :=
  if c.destroyed then c
  else
    match op with
    | .addPath now ops ctx results => (addPath now ops ctx results c).1
    | .removePath now handle => (removePath now handle c).1
    | .pathDropped now handle => (onPlatformPathDropped now handle c).1
    | .pathReleased now handle stats => (onPlatformPathReleased now handle stats c).1
    | .reactivatePath now handle result => (reactivatePath now handle result c).1
    | .connect now env => (connect now env c).1
    | .disconnect now flush drain => disconnect now flush drain c
    | .tick env => tick env c
    | .socketRecv engine => c.mainLogic engine
    | .setTunActive now active => setTunActive now active c
    | .destroy flush teardown stats => destroy flush teardown stats c

def Client.new (cfg : ClientConfig) : Client := { cfg := cfg }

def Client.run (c : Client) (ops : List Op) : Client := Run.exec Client.step c ops

end Mqvpn.Cli
