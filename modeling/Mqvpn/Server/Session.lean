import Mqvpn.Endpoint.Datagram
import Mqvpn.Server.Auth
import Mqvpn.Lib.Slots

/-!
# Sessions of the server

The server keeps a context for every connection and a table of sessions, one slot per
offset of the address pool.  A CONNECT-IP request takes an address, registers its
connection in the slot of the address and is undone by the close of its stream or of its
connection; each step of it can fail.

A connection is named by the transport scope it was issued, which is never reused; this
stands for the pointer to its context.  Callbacks for a connection or a stream that does not
exist, and those xquic does not make in the state the connection is in, leave everything as
it is: the H3 callbacks follow `h3_conn_create_notify`, and a connection without H3 is
refused instead of closed.  `owner` and `released` record what an observer sees; no function
reads them back.

## Main definitions

* `svrSessionRelease`, `svrMasqueSendResponse`, `svrConnectIpOnRequest` — the session.
* `cbAccept`, `cbRefuse`, `cbH3ConnCreate`, `cbH3ConnClose`, `cbRequestCreate`,
  `cbRequestRead`, `cbRequestClose` — the callbacks of xquic.
* `SvrOp`, `Server.step` — the server as a machine driven by callbacks.
-/

namespace Mqvpn.Svr

open Reorder Endpoint

/-- The name of a connection: the scope it was issued. -/
abbrev ConnId := ℕ

/-- `svr_stream_role_t`. -/
inductive Role where
  | unknown
  | connectIp
  | connectTcp
  | h2Proxy
  deriving DecidableEq

/-- The context of a connection, `svr_conn_t`; `assignedIp` is `0` while there is none, and
`assignedIp6` counts while `hasV6` is set. -/
structure SvrConn where
  txScope : ℕ
  /-- `h3_conn` is set. -/
  h3 : Bool := false
  masqueStreamId : StreamId := 0
  assignedIp : UInt32 := 0
  hasV6 : Bool := false
  assignedIp6 : In6Addr := .zero
  tunnelEstablished : Bool := false
  reorderTx : Option Tx := none
  reorderRx : Option Rx := none
  peerReorderSupported : Bool := false
  /-- The open request streams and their roles. -/
  streams : StreamId → Option Role := fun _ => none
  /-- The streams there ever were; QUIC does not use an id twice. -/
  opened : List StreamId := []
  /-- The stream that established the session. -/
  owner : Option StreamId := none

/-- The server `mqvpn_server`, as far as sessions go. -/
structure Server where
  reorder : Config
  maxClients : ℤ
  auth : AuthTable
  hybridEnabled : Bool
  h2Proxy : Bool
  pool : AddrPool
  conns : ConnId → Option SvrConn
  sessions : List (Option ConnId)
  nSessions : ℤ
  nextTxScope : ℕ
  /-- The scopes that were released, in order. -/
  released : List ℕ

/-- What a server is made from; the subnets are those the pool is made from. -/
structure ServerConfig where
  reorder : Config
  maxClients : ℤ
  auth : AuthTable
  hybridEnabled : Bool
  h2Proxy : Bool
  base : UInt32
  prefixLen : ℕ
  subnet6 : Option (In6Addr × ℕ)
  deriving DecidableEq

/-- Create a server; `none` if the pool is not accepted. -/
def Server.new (cfg : ServerConfig) : Option Server :=
  (AddrPool.create cfg.base cfg.prefixLen cfg.subnet6).map fun pool =>
    { reorder := cfg.reorder
      maxClients := if 0 < cfg.maxClients then cfg.maxClients else 64
      auth := cfg.auth
      hybridEnabled := cfg.hybridEnabled
      h2Proxy := cfg.h2Proxy
      pool := pool
      conns := fun _ => none
      sessions := List.replicate (addrPoolMax + 1) none
      nSessions := 0
      nextTxScope := 0
      released := [] }

/-- Write a context back. -/
def Server.setConn (s : Server) (id : ConnId) (c : SvrConn) : Server :=
  { s with conns := Function.update s.conns id (some c) }

/-! ### Contexts -/

/-- `UINT64_MAX`, the last scope. -/
def txScopeMax : ℕ := 2 ^ 64 - 1

/-- Take a connection in and issue its scope; it is refused if the allocation fails or the
scopes are used up. -/
def cbAccept (s : Server) (allocOk : Bool) : Server :=
  if !allocOk then s
  else if s.nextTxScope = txScopeMax then s
  else
    let scope := s.nextTxScope + 1
    { s with nextTxScope := scope }.setConn scope { txScope := scope }

/-- Free a context and release its scope. -/
def svrConnFree (s : Server) (id : ConnId) : Server :=
  match s.conns id with
  | none => s
  | some c =>
      { s with
        conns := Function.update s.conns id none
        released := if c.txScope ≠ 0 then s.released ++ [c.txScope] else s.released }

/-- A connection goes before it got to H3. -/
def cbRefuse (s : Server) (id : ConnId) : Server :=
  match s.conns id with
  | none => s
  | some c => if c.h3 then s else svrConnFree s id

/-- Which allocations of reorder engines succeed, and the seed they start from. -/
structure EngineEnv where
  seed : UInt64
  tx : Bool
  rx : Bool
  deriving DecidableEq

/-- Provide the reorder engines if the shim is on and there are none; both or neither. -/
def svrConnReorderEnginesInit (reorder : Config) (env : EngineEnv) (c : SvrConn) : SvrConn :=
  if reorder.mode = .off then c
  else if c.reorderTx.isSome || c.reorderRx.isSome then c
  else
    match txNew reorder env.seed env.tx, rxNew reorder (env.seed ^^^ 0x9e3779b9) env.rx with
    | some tx, some rx => { c with reorderTx := some tx, reorderRx := some rx }
    | _, _ => { c with reorderTx := none, reorderRx := none }

def cbH3ConnCreate (s : Server) (id : ConnId) (env : EngineEnv) : Server :=
  match s.conns id with
  | none => s
  | some c =>
      if c.h3 then s
      else s.setConn id (svrConnReorderEnginesInit s.reorder env { c with h3 := true })

/-! ### Sessions -/

/-- The context after its session is gone. -/
def SvrConn.cleared (c : SvrConn) : SvrConn :=
  { c with
    assignedIp := 0
    hasV6 := false
    assignedIp6 := .zero
    masqueStreamId := 0
    tunnelEstablished := false
    peerReorderSupported := false
    reorderTx := none
    reorderRx := none
    owner := none }

/-- Take the session of a connection out of the table. -/
def Server.deregister (s : Server) (id : ConnId) (addr : UInt32) : Server :=
  let offset := (addr - s.pool.base).toNat
  if 0 < offset ∧ offset ≤ addrPoolMax ∧ Slots.entry s.sessions offset = some id then
    { s with sessions := s.sessions.set offset none, nSessions := s.nSessions - 1 }
  else s

/-- Release the session of a connection, with its address and its engines. -/
def svrSessionRelease (s : Server) (id : ConnId) : Server :=
  match s.conns id with
  | none => s
  | some c =>
      if c.assignedIp = 0 then s
      else
        let s := s.deregister id c.assignedIp
        { s with pool := s.pool.release c.assignedIp }.setConn id c.cleared

def cbH3ConnClose (s : Server) (id : ConnId) : Server :=
  match s.conns id with
  | none => s
  | some c => if c.h3 then svrConnFree (svrSessionRelease s id) id else s

/-- `svr_req_headers_t`, as far as it is read here. -/
structure ReqHeaders where
  isConnect : Bool
  isConnectIp : Bool
  /-- The protocol is `mqvpn-tcp`. -/
  isConnectTcp : Bool
  hasSchemeHttps : Bool
  hasValidPath : Bool
  hasCapsuleProto : Bool
  hasReorderHdr : Bool
  /-- What follows `Bearer` in `authorization`. -/
  authToken : Option (List UInt8)
  deriving DecidableEq

/-- Which of the sends of a response succeed, in their order; the encoding of a capsule
counts with its send. -/
structure ResponseEnv where
  headers : Bool
  assign4 : Bool
  assign6 : Bool
  route4 : Bool
  route6 : Bool
  engines : EngineEnv
  deriving DecidableEq

/-- What goes out on a request stream. -/
inductive Reply where
  /-- A header section, with the reorder header or without. -/
  | status (code : ℕ) (reorder : Bool)
  | addressAssign (addr : UInt32)
  | addressAssign6
  | routeAdvertisement
  | routeAdvertisement6
  deriving DecidableEq

/-- The result of a handler, the server after it, what it sent, and whether a TCP request
got past the authentication to the egress. -/
structure Handled where
  ok : Bool
  server : Server
  sent : List Reply
  egress : Bool := false

/-- The failure exit of a response: the address goes back. -/
def failReleaseIp (s : Server) (id : ConnId) (c : SvrConn) : Server :=
  { s with pool := s.pool.release c.assignedIp }.setConn id
    { c with assignedIp := 0, hasV6 := false, assignedIp6 := .zero, masqueStreamId := 0 }

/-- Put a connection into the slot of its address. -/
def Server.register (s : Server) (id : ConnId) (addr : UInt32) : Server :=
  let offset := (addr - s.pool.base).toNat
  if 0 < offset ∧ offset ≤ addrPoolMax then
    { s with sessions := s.sessions.set offset (some id), nSessions := s.nSessions + 1 }
  else s

/-- The context after its IPv6 address was sent: the one of the same offset, if the pool has
any. -/
def SvrConn.withTwin (c : SvrConn) (pool : AddrPool) : SvrConn :=
  if pool.hasV6 then
    { c with hasV6 := true, assignedIp6 := pool.get6 (c.assignedIp - pool.base) }
  else c

/-- The capsules of a response, sent after an address was taken. -/
def sendCapsules (s : Server) (id : ConnId) (c : SvrConn) (sid : StreamId) (env : ResponseEnv)
    (sent : List Reply) : Handled :=
  if !env.assign4 then { ok := false, server := failReleaseIp s id c, sent := sent }
  else
    let sent := sent ++ [.addressAssign c.assignedIp]
    if s.pool.hasV6 && !env.assign6 then
      { ok := false, server := failReleaseIp s id c, sent := sent }
    else
      let c := c.withTwin s.pool
      let sent := if s.pool.hasV6 then sent ++ [.addressAssign6] else sent
      if !env.route4 then { ok := false, server := failReleaseIp s id c, sent := sent }
      else
        let sent := sent ++ [.routeAdvertisement]
        if c.hasV6 && !env.route6 then
          { ok := false, server := failReleaseIp s id c, sent := sent }
        else
          { ok := true
            server :=
              (s.setConn id { c with tunnelEstablished := true, owner := some sid }).register id
                c.assignedIp
            sent := if c.hasV6 then sent ++ [.routeAdvertisement6] else sent }

/-- Answer a request that is to establish a tunnel. -/
def svrMasqueSendResponse (s : Server) (id : ConnId) (c : SvrConn) (sid : StreamId)
    (env : ResponseEnv) : Handled :=
  if s.maxClients ≤ s.nSessions then { ok := false, server := s, sent := [.status 403 false] }
  else
    let echo := shouldAdvertise s.reorder.mode c.reorderRx && c.peerReorderSupported
    if !env.headers then { ok := false, server := s, sent := [] }
    else
      let c := { c with masqueStreamId := sid }
      match s.pool.alloc with
      | none => { ok := false, server := s.setConn id c, sent := [.status 200 echo] }
      | some (off, pool) =>
          sendCapsules { s with pool := pool } id { c with assignedIp := pool.addr off } sid env
            [.status 200 echo]

/-- The header phase of a CONNECT-IP request: check it, release what is left of an earlier
tunnel, provide fresh engines, answer. -/
def svrConnectIpOnRequest (s : Server) (id : ConnId) (sid : StreamId) (hdrs : ReqHeaders)
    (env : ResponseEnv) : Handled :=
  if !hdrs.hasSchemeHttps || !hdrs.hasValidPath || !hdrs.hasCapsuleProto then
    { ok := false, server := s, sent := [] }
  else if s.auth.required && (s.auth.check hdrs.authToken).isNone then
    { ok := false, server := s, sent := [.status 403 false] }
  else
    let s := svrSessionRelease s id
    match s.conns id with
    | none => { ok := false, server := s, sent := [] }
    | some c =>
        let c := { svrConnReorderEnginesInit s.reorder env.engines c with
          peerReorderSupported := hdrs.hasReorderHdr }
        svrMasqueSendResponse (s.setConn id c) id c sid env

/-! ### Request streams -/

/-- Give an open stream a role, or none when it closes. -/
def SvrConn.setStream (c : SvrConn) (sid : StreamId) (role : Option Role) : SvrConn :=
  { c with streams := Function.update c.streams sid role }

def cbRequestCreate (s : Server) (id : ConnId) (sid : StreamId) (allocOk : Bool) : Server :=
  match s.conns id with
  | none => s
  | some c =>
      if !c.h3 || c.opened.contains sid || !allocOk then s
      else s.setConn id { c.setStream sid (some .unknown) with opened := sid :: c.opened }

/-- A header section arrives on a request stream: the stream gets its role and the request
goes to the handler of that role. -/
def cbRequestRead (s : Server) (id : ConnId) (sid : StreamId) (hdrs : ReqHeaders)
    (env : ResponseEnv) : Handled :=
  match s.conns id with
  | none => { ok := false, server := s, sent := [] }
  | some c =>
      if (c.streams sid).isNone then { ok := false, server := s, sent := [] }
      else if hdrs.isConnect && hdrs.isConnectIp then
        if c.tunnelEstablished then { ok := true, server := s, sent := [.status 409 false] }
        else
          -- the role is set before the handler may refuse the request
          svrConnectIpOnRequest (s.setConn id (c.setStream sid (some .connectIp))) id sid hdrs env
      else if hdrs.isConnect && hdrs.isConnectTcp && s.hybridEnabled then
        let s := s.setConn id (c.setStream sid (some .connectTcp))
        if s.auth.required && (s.auth.check hdrs.authToken).isNone then
          { ok := true, server := s, sent := [.status 403 false] }
        else { ok := true, server := s, sent := [], egress := true }
      else if s.h2Proxy then
        { ok := true, server := s.setConn id (c.setStream sid (some .h2Proxy)), sent := [] }
      else { ok := true, server := s, sent := [.status 501 false] }

def cbRequestClose (s : Server) (id : ConnId) (sid : StreamId) : Server :=
  match s.conns id with
  | none => s
  | some c =>
      match c.streams sid with
      | none => s
      | some role =>
          let s := if role = .connectIp then svrSessionRelease s id else s
          match s.conns id with
          | none => s
          | some c => s.setConn id (c.setStream sid none)

/-! ### The server as a machine -/

/-- A callback of xquic, or a call of the control API. -/
inductive SvrOp where
  | accept (allocOk : Bool)
  | refuse (id : ConnId)
  | h3ConnCreate (id : ConnId) (env : EngineEnv)
  | h3ConnClose (id : ConnId)
  | requestCreate (id : ConnId) (sid : StreamId) (allocOk : Bool)
  | requestRead (id : ConnId) (sid : StreamId) (hdrs : ReqHeaders) (env : ResponseEnv)
  | requestClose (id : ConnId) (sid : StreamId)
  | addUser (username key : List UInt8)
  | removeUser (username : List UInt8)
  deriving DecidableEq

def Server.step (s : Server) : SvrOp → Server
  | .accept allocOk => cbAccept s allocOk
  | .refuse id => cbRefuse s id
  | .h3ConnCreate id env => cbH3ConnCreate s id env
  | .h3ConnClose id => cbH3ConnClose s id
  | .requestCreate id sid allocOk => cbRequestCreate s id sid allocOk
  | .requestRead id sid hdrs env => (cbRequestRead s id sid hdrs env).server
  | .requestClose id sid => cbRequestClose s id sid
  | .addUser username key => { s with auth := s.auth.after (s.auth.addUser username key) }
  -- the connections of the user are closed through xquic, whose callbacks follow
  | .removeUser username => { s with auth := s.auth.after (s.auth.removeUser username) }

def Server.run (s : Server) (ops : List SvrOp) : Server := Run.exec Server.step s ops

end Mqvpn.Svr
