import Mqvpn.Egress.Relay
import Mqvpn.Egress.Target
import Mqvpn.Lib.Keyed

/-!
# The TCP egress

The egress keeps a list of flows, one for every TCP connection it opened for a client, the
number of descriptors in use, and for every connection the number of its flows.  The slot of
a request stream points to the flow of the stream.  A flow is taken down by one function,
`flowDestroy`, from many events: a failed connect, a relay error, the idle sweep, a reset or
close of the stream, the final sweep.

A relay error in a call from the event loop first flushes what xquic has queued; the engine
runs, and its callbacks may take down any flow, the failed one included.  The callbacks that
run there are given as a list.  In a callback of the engine itself the flush does nothing.

What is assumed of the surroundings: xquic delivers one header section per request stream and
closes the streams of a connection before the connection; other calls into xquic do not come
back to the egress, but for `xqc_h3_request_close`, which may close its own request at once;
the kernel does not hand out a descriptor that is open.  `answers`, `closed` and `connects`
record what an observer sees; no function reads them back.

## Main definitions

* `EgressConfig`, `TcpEgress` — the configuration and the state.
* `flowDestroy`, `startConnect`, `onRequest`, `fdReady`, `tick` — the functions of the egress.
* `EngineOp`, `EgressOp`, `TcpEgress.step` — the egress as a machine.
-/

namespace Mqvpn.Egress

open Svr Endpoint

/-! ### Configuration -/

/-- `INT_MAX`. -/
def intMax : ℤ := 2 ^ 31 - 1

/-- `svr_compute_egress_fd_budget`; `rlimit` is the limit on open files, if there is one. -/
def svrComputeEgressFdBudget (configuredMax : UInt32) (rlimit : Option ℕ) : ℤ :=
  let budget : ℤ := if intMax < configuredMax.toNat then intMax else configuredMax.toNat
  match rlimit with
  | none => budget
  | some limit =>
      let headroom : ℤ := if (limit : ℤ) - 64 < 0 then 0 else limit - 64
      if headroom < budget then headroom else budget

structure EgressConfig where
  auth : AuthTable
  rules : EgressRules
  pool : AddrPool
  pton : InetPton
  hybridEnabled : Bool
  /-- The platform provides `egress_fd_register`. -/
  registerSet : Bool
  tcpMaxFlows : UInt32
  tcpMaxGlobalFlows : UInt32
  tcpConnectTimeoutSec : UInt32
  tcpIdleTimeoutSec : UInt32
  /-- `proxy_max_connections`, if the proxy is on. -/
  proxyMaxConnections : Option UInt32
  rlimit : Option ℕ

def EgressConfig.policy (cfg : EgressConfig) : EgressPolicy :=
  svrGetEgressPolicy cfg.rules cfg.pool

/-- `tcp_egress_fd_budget`: what the proxy leaves of the descriptors. -/
def EgressConfig.fdBudget (cfg : EgressConfig) : ℤ :=
  let tcp := svrComputeEgressFdBudget cfg.tcpMaxGlobalFlows cfg.rlimit
  match cfg.proxyMaxConnections with
  | none => tcp
  | some proxyMax =>
      let requested := proxyMax.toNat * 2 +
        (if cfg.hybridEnabled then cfg.tcpMaxGlobalFlows.toNat else 0)
      let total := svrComputeEgressFdBudget (UInt32.ofNat (min requested (2 ^ 32 - 1))) cfg.rlimit
      let proxyCap := total / 2
      let proxyReserve := (if proxyCap < proxyMax.toNat then proxyCap else proxyMax.toNat) * 2
      if cfg.hybridEnabled then
        let remaining := total - proxyReserve
        if remaining < tcp then remaining else tcp
      else 0

/-! ### State -/

/-- A request stream, `svr_stream_t`: its role, whether its header section was read, and the
serial of the flow in its slot. -/
structure TcpStream where
  role : Role := .unknown
  headersRead : Bool := false
  slot : Option ℕ := none
  deriving DecidableEq

/-- A connection as the egress sees it: `tcp_flow_count`, and the open request streams. -/
structure ConnSide where
  tcpFlowCount : ℤ := 0
  streams : List StreamId := []
  deriving DecidableEq

/-- Why a flow was taken down. -/
inductive EndReason where
  | connectFailed
  | relayError
  | idle
  | reset
  | closed
  | swept
  deriving DecidableEq

structure TcpRequest where
  hdrs : ReqHeaders
  path : Option (List UInt8)
  deriving DecidableEq

/-- A `connect` the egress made: for which request, on which socket and where to, and what
was in force at that moment. -/
structure Connect where
  stream : StreamKey
  request : TcpRequest
  family : UInt8
  addr : In6Addr
  port : ℕ
  /-- `IPV6_V6ONLY` was set on the socket. -/
  v6only : Bool
  auth : AuthTable
  globalFdCount : ℤ
  connFlowCount : Option ℤ
  deriving DecidableEq

structure TcpEgress where
  cfg : EgressConfig
  auth : AuthTable
  budget : ℤ
  flows : List Flow := []
  globalFdCount : ℤ := 0
  flowsTotalOpened : ℕ := 0
  flowsRejectedCap : ℕ := 0
  conns : ConnId → Option ConnSide := fun _ => none
  streams : StreamKey → Option TcpStream := fun _ => none
  /-- The final responses. -/
  answers : List (StreamKey × ℕ) := []
  /-- The flows that were taken down, in order. -/
  closed : List (Flow × EndReason) := []
  connects : List Connect := []

namespace TcpEgress

def new (cfg : EgressConfig) : TcpEgress :=
  { cfg := cfg, auth := cfg.auth, budget := cfg.fdBudget }

def findFlow (m : TcpEgress) (serial : ℕ) : Option Flow := Keyed.find Flow.serial serial m.flows

/-- Write a flow back. -/
def setFlow (m : TcpEgress) (f : Flow) : TcpEgress :=
  { m with flows := Keyed.put Flow.serial f m.flows }

/-- Write a stream back. -/
def setStream (m : TcpEgress) (key : StreamKey) (st : Option TcpStream) : TcpEgress :=
  { m with streams := Function.update m.streams key st }

/-- Write a connection back. -/
def setConn (m : TcpEgress) (id : ConnId) (c : Option ConnSide) : TcpEgress :=
  { m with conns := Function.update m.conns id c }

def streamFlow (m : TcpEgress) (key : StreamKey) : Option Flow :=
  match m.streams key with
  | none => none
  | some st => if st.role = .connectTcp then st.slot.bind m.findFlow else none

/-- `svr_tcp_egress_respond` with the end of the stream. -/
def respond (m : TcpEgress) (key : StreamKey) (status : ℕ) : TcpEgress :=
  { m with answers := m.answers ++ [(key, status)] }

def bumpConn (m : TcpEgress) (id : ConnId) (d : ℤ) : TcpEgress :=
  m.setConn id ((m.conns id).map fun c => { c with tcpFlowCount := c.tcpFlowCount + d })

/-! ### Taking a flow down -/

/-- `svr_tcp_egress_flow_destroy`. -/
def flowDestroy (m : TcpEgress) (f : Flow) (why : EndReason) : TcpEgress :=
  let m := { m with flows := Keyed.remove Flow.serial f.serial m.flows }
  let m := m.bumpConn f.stream.1 (-1)
  let m := { m with globalFdCount := m.globalFdCount - 1 }
  let m := m.setStream f.stream ((m.streams f.stream).map fun st => { st with slot := none })
  { m with closed := m.closed ++ [(f, why)] }

def destroyOf (m : TcpEgress) (key : StreamKey) (why : EndReason) : TcpEgress :=
  match m.streamFlow key with
  | none => m
  | some f => m.flowDestroy f why

/-- `cb_request_close`. -/
def requestClose (m : TcpEgress) (key : StreamKey) : TcpEgress :=
  match m.streams key with
  | none => m
  | some _ =>
      let m := m.destroyOf key .closed
      (m.setStream key none).setConn key.1
        ((m.conns key.1).map fun c => { c with streams := c.streams.filter (· ≠ key.2) })

/-- `svr_tcp_egress_abort`; xquic may close the request before it returns. -/
def abort (m : TcpEgress) (f : Flow) (why : EndReason) (closeSync : Bool) : TcpEgress :=
  let m := m.flowDestroy f why
  if closeSync then m.requestClose f.stream else m

/-- `svr_tcp_egress_errno_to_status`. -/
def errnoToStatus : Errno → ℕ
  | .econnrefused => 502
  | .etimedout => 504
  | .enetunreach | .ehostunreach => 502
  | _ => 502

/-- `svr_tcp_egress_fail_connect`. -/
def failConnect (m : TcpEgress) (f : Flow) (e : Errno) : TcpEgress :=
  (m.respond f.stream (errnoToStatus e)).flowDestroy f .connectFailed

/-- The end of a handler that runs in a callback of the engine: the flow is written back, and
taken down if it was given up. -/
def settle (m : TcpEgress) (w : Work) (closeSync : Bool) : TcpEgress :=
  let m := m.setFlow w.flow
  if w.error.isSome then m.abort w.flow .relayError closeSync else m

/-! ### Requests -/

/-- What the system calls of a connect return. -/
structure ConnectEnv where
  /-- The descriptor of `socket`. -/
  socket : Option ℕ
  /-- `setsockopt` for `IPV6_V6ONLY` succeeds. -/
  v6onlyOk : Bool
  allocOk : Bool
  now : ℕ
  /-- The error of `connect`. -/
  connect : Option Errno
  drain : DrainEnv
  closeSync : Bool
  deriving DecidableEq

/-- The connection has its share of flows; the count is compared as an unsigned one. -/
def connFull (m : TcpEgress) (id : ConnId) : Bool :=
  match m.conns id with
  | none => false
  | some c => decide (m.cfg.tcpMaxFlows.toNat ≤ (c.tcpFlowCount % 2 ^ 32).toNat)

/-- A flow is made, put into its slot and on the list, and counted. -/
def insertFlow (m : TcpEgress) (f : Flow) : TcpEgress :=
  let m := m.setStream f.stream
    ((m.streams f.stream).map fun st => { st with slot := some f.serial })
  let m := { m with flows := f :: m.flows }
  let m := m.bumpConn f.stream.1 1
  { m with globalFdCount := m.globalFdCount + 1, flowsTotalOpened := m.flowsTotalOpened + 1 }

def newFlow (m : TcpEgress) (key : StreamKey) (fd : ℕ) (username : List UInt8) (now : ℕ) : Flow :=
  { serial := m.flowsTotalOpened + 1
    fd := fd
    stream := key
    username := username.take 63
    connectDeadlineUs := now + m.cfg.tcpConnectTimeoutSec.toNat * 1000000
    lastActivityUs := now }

/-- The last part of `svr_tcp_egress_start_connect`: `connect`, and what its answer leads
to. -/
def finishConnect (m : TcpEgress) (f : Flow) (env : ConnectEnv) : TcpEgress :=
  match env.connect with
  | none => m.settle (relay f (.connected env.drain)) env.closeSync
  | some .einprogress => m.setFlow (Work.register { flow := f } false true).flow
  | some e => m.failConnect f e

/-- `svr_tcp_egress_start_connect`. -/
def startConnect (m : TcpEgress) (key : StreamKey) (req : TcpRequest) (host : List UInt8)
    (port : ℕ) (username : List UInt8) (env : ConnectEnv) : TcpEgress :=
  if !m.cfg.registerSet then m.respond key 503
  else if m.budget ≤ m.globalFdCount then
    { m with flowsRejectedCap := m.flowsRejectedCap + 1 }.respond key 503
  else if m.connFull key.1 then
    { m with flowsRejectedCap := m.flowsRejectedCap + 1 }.respond key 503
  else
    match env.socket with
    | none => m.respond key 500
    | some fd =>
        -- the kernel does not give out an open descriptor
        if m.flows.any fun f => f.fd == fd then m.respond key 500
        else
          match resolve m.cfg.pton host with
          | none => m.respond key 500
          | some (family, addr) =>
              if host.contains colon && !env.v6onlyOk then m.respond key 500
              else if !env.allocOk then m.respond key 500
              else
                let f := m.newFlow key fd username env.now
                let c : Connect :=
                  { stream := key, request := req, family := family, addr := addr, port := port
                    v6only := host.contains colon
                    auth := m.auth, globalFdCount := m.globalFdCount
                    connFlowCount := (m.conns key.1).map ConnSide.tcpFlowCount }
                let m := m.insertFlow f
                { m with connects := m.connects ++ [c] }.finishConnect f env

/-- `svr_tcp_egress_on_request`, after the credentials: the path, the rules, the connect. -/
def onTarget (m : TcpEgress) (key : StreamKey) (req : TcpRequest) (username : List UInt8)
    (env : ConnectEnv) : TcpEgress :=
  match parsePath req.path with
  | none => m.respond key 400
  | some (host, port) =>
      if !aclAllowed m.cfg.pton m.cfg.policy (cString host) then m.respond key 403
      else m.startConnect key req (cString host) port username env

/-- `svr_tcp_egress_on_request`. -/
def onRequest (m : TcpEgress) (key : StreamKey) (req : TcpRequest) (env : ConnectEnv) :
    TcpEgress :=
  if m.auth.required then
    match m.auth.check req.hdrs.authToken with
    | none => m.respond key 403
    | some username => m.onTarget key req username env
  else m.onTarget key req globalName env

/-- The header section of a request, as far as `cb_request_read` hands it to the egress. -/
def requestRead (m : TcpEgress) (key : StreamKey) (req : TcpRequest) (env : ConnectEnv) :
    TcpEgress :=
  match m.streams key with
  | none => m
  | some st =>
      if st.headersRead then m
      else if req.hdrs.isConnect && req.hdrs.isConnectIp then
        m.setStream key (some { st with headersRead := true })
      else if req.hdrs.isConnect && req.hdrs.isConnectTcp && m.cfg.hybridEnabled then
        (m.setStream key (some { st with headersRead := true, role := .connectTcp })).onRequest
          key req env
      else m.setStream key (some { st with headersRead := true })

/-! ### The engine's callbacks -/

/-- The callbacks of xquic. -/
inductive EngineOp where
  | connOpen (id : ConnId)
  | connClose (id : ConnId)
  | requestCreate (key : StreamKey) (allocOk : Bool)
  | request (key : StreamKey) (req : TcpRequest) (env : ConnectEnv)
  | body (key : StreamKey) (env : DrainEnv) (closeSync : Bool)
  | writable (key : StreamKey) (env : WritableEnv) (closeSync : Bool)
  | closing (key : StreamKey)
  | requestClose (key : StreamKey)
  deriving DecidableEq

def streamEvent (m : TcpEgress) (key : StreamKey) (ev : FlowEvent) (closeSync : Bool) :
    TcpEgress :=
  match m.streamFlow key with
  | none => m
  | some f => m.settle (relay f ev) closeSync

def requestCreate (m : TcpEgress) (key : StreamKey) (allocOk : Bool) : TcpEgress :=
  match m.conns key.1 with
  | none => m
  | some c =>
      if c.streams.contains key.2 || !allocOk then m
      else (m.setStream key (some {})).setConn key.1 (some { c with streams := key.2 :: c.streams })

def engineStep (m : TcpEgress) : EngineOp → TcpEgress
  | .connOpen id => if (m.conns id).isSome then m else m.setConn id (some {})
  | .connClose id =>
      match m.conns id with
      | none => m
      | some c => if c.streams = [] then m.setConn id none else m
  | .requestCreate key allocOk => m.requestCreate key allocOk
  | .request key req env => m.requestRead key req env
  | .body key env closeSync => m.streamEvent key (.body env) closeSync
  | .writable key env closeSync => m.streamEvent key (.writable env) closeSync
  | .closing key => m.destroyOf key .reset
  | .requestClose key => m.requestClose key

/-! ### Calls from the event loop -/

/-- What a ready descriptor meets.  `flush` are the callbacks that run inside the flush of a
relay error. -/
structure FdReadyEnv where
  readable : Bool
  writable : Bool
  /-- `SO_ERROR`, or the error of asking for it. -/
  soError : Option Errno
  drain : DrainEnv
  ready : ReadyEnv
  flush : List EngineOp
  closeSync : Bool
  deriving DecidableEq

/-- The end of a handler that runs in the event loop.  After the flush the flow is looked up
again by its serial. -/
def settleLoop (m : TcpEgress) (w : Work) (flush : List EngineOp) (closeSync : Bool) :
    TcpEgress :=
  let m := m.setFlow w.flow
  if w.error.isSome then
    let m := Run.exec engineStep m flush
    match m.findFlow w.flow.serial with
    | none => m
    | some f => m.abort f .relayError closeSync
  else m

/-- `svr_tcp_egress_fd_ready`. -/
def fdReady (m : TcpEgress) (serial : ℕ) (env : FdReadyEnv) : TcpEgress :=
  match m.findFlow serial with
  | none => m
  | some f =>
      if f.state = .connecting ∧ env.writable = true then
        match env.soError with
        | some e => m.failConnect f e
        | none => m.settleLoop (relay f (.connected env.drain)) env.flush env.closeSync
      else
        m.settleLoop (relay f (.ready env.readable env.writable env.ready)) env.flush
          env.closeSync

def tickFlow (now : ℕ) (closeSync : List ℕ) (m : TcpEgress) (f : Flow) : TcpEgress :=
  if f.state = .connecting then
    if f.connectDeadlineUs ≤ now then m.failConnect f .etimedout else m
  else if m.cfg.tcpIdleTimeoutSec ≠ 0 ∧ f.lastActivityUs < now ∧
      m.cfg.tcpIdleTimeoutSec.toNat * 1000000 < now - f.lastActivityUs then
    m.abort f .idle (closeSync.contains f.serial)
  else m

/-- `svr_tcp_egress_tick`; `closeSync` are the flows whose request is closed at once. -/
def tick (m : TcpEgress) (now : ℕ) (closeSync : List ℕ) : TcpEgress :=
  m.flows.foldl (tickFlow now closeSync) m

/-- `svr_tcp_egress_destroy_all`. -/
def destroyAll (m : TcpEgress) : TcpEgress :=
  m.flows.foldl (fun m f => m.flowDestroy f .swept) m

inductive EgressOp where
  | engine (op : EngineOp)
  | fdReady (serial : ℕ) (env : FdReadyEnv)
  | tick (now : ℕ) (closeSync : List ℕ)
  | destroyAll
  | addUser (username key : List UInt8)
  | removeUser (username : List UInt8)
  deriving DecidableEq

def step (m : TcpEgress) : EgressOp → TcpEgress
  | .engine op => m.engineStep op
  | .fdReady serial env => m.fdReady serial env
  | .tick now closeSync => m.tick now closeSync
  | .destroyAll => m.destroyAll
  | .addUser username key => { m with auth := m.auth.after (m.auth.addUser username key) }
  | .removeUser username => { m with auth := m.auth.after (m.auth.removeUser username) }

/-- The egress of a new server after a sequence of operations. -/
def run (cfg : EgressConfig) (ops : List EgressOp) : TcpEgress := Run.exec step (new cfg) ops

end TcpEgress

end Mqvpn.Egress
