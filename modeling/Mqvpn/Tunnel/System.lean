import Mqvpn.Client.Turns
import Mqvpn.Server.Isolation

/-!
# A client, a server and the connections between them

A client and a server run side by side.  The client starts connections; each may arrive at the
server, which takes it in under a number of its own.  Connections of other clients come and go
at the server in any way.

The network may delay, drop, repeat and reorder datagrams.  It does not invent any: on a
connection of the client the server receives datagrams the client sent on it, and the client
receives datagrams the server sent on it.  A request of the client for a tunnel is read at most
once, and a header section the client reads was sent by the server on the stream of a request.
The streams of requests have the numbers of client-initiated bidirectional streams.

An operation that breaks these rules does nothing.

## Main definitions

* `System` — both endpoints, the connections, and what was said on them.
* `System.allowed` — the rules of the network.
* `System.step`, `System.run` — runs of both endpoints.
-/

namespace Mqvpn.Tunnel

open Reorder Endpoint Svr
open Cli (CliConn ClientConfig Header)

/-! ### The state -/

/-- A request for a tunnel, as the server read it. -/
structure Asked where
  id : ConnId
  sid : StreamId
  reorder : Bool
  deriving DecidableEq

/-- A header section of the server: its stream, its status, whether it echoes the reorder
header, and whether the connection had a receive engine then. -/
structure Section where
  id : ConnId
  sid : StreamId
  code : ℕ
  echo : Bool
  engine : Bool
  deriving DecidableEq

def statusText (code : ℕ) : List UInt8 :=
  [UInt8.ofNat (48 + code / 100), UInt8.ofNat (48 + code / 10 % 10), UInt8.ofNat (48 + code % 10)]

/-- The headers of a section that the client looks at. -/
def Section.headers (sec : Section) : List Header :=
  .status (statusText sec.code) :: if sec.echo then [.reorder] else []

structure System where
  client : Cli.Client
  net : Net
  /-- The connections of the client that arrived, with their numbers at the server. -/
  links : List (ℕ × ConnId) := []
  asked : List Asked := []
  sections : List Section := []
  /-- The datagrams the client sent, with their connections. -/
  up : List (ℕ × Packet) := []

/-! ### The lane of the client -/

/-- What the datagram lane of the client reads besides its connection. -/
structure LaneView where
  backpressure : Bool
  redundantTx : Bool
  redundantPorts : List UInt16
  bucket : PtbBucket
  deriving DecidableEq

/-- The connection of the client as the datagram lane reads it. -/
def tunConn (k : CliConn) (v : LaneView) : TunConn where
  tunnelOk := k.tunnelOk
  assignedIp := k.assignedIp.map Cli.Assigned.addr
  assignedIp6 := k.assignedIp6.map Cli.Assigned.addr
  masqueStreamId := k.masqueStreamId
  dgramMss := k.dgramMss
  reorderTx := k.reorderTx
  peerReorderSupported := k.peerReorderSupported
  redundantTx := v.redundantTx

/-- The client as the datagram lane reads it. -/
def tunClient (cfg : ClientConfig) (k : CliConn) (v : LaneView) : TunClient where
  conn := some (tunConn k v)
  backpressure := v.backpressure
  reorderMode := cfg.reorder.mode
  redundantPorts := v.redundantPorts
  ptbBucket := v.bucket

/-- Write the engines of a connection back. -/
def System.setEngines (s : System) (k : CliConn) (tx : Option Tx) (rx : Option Rx) : System :=
  { s with client := { s.client with conn := some { k with reorderTx := tx, reorderRx := rx } } }

/-- `mqvpn_client_on_tun_packet` on the connection `k`. -/
def System.clientTun (m : Masque) (s : System) (k : CliConn) (v : LaneView) (pkt : Packet)
    (env : Env) : System :=
  let r := clientOnTunPacket m (tunClient s.client.cfg k v) pkt env
  let s := s.setEngines k (r.1.conn.bind TunConn.reorderTx) k.reorderRx
  { s with up := s.up ++ r.2.frames.map (k.id, ·) }

/-- `cb_dgram_read` on the connection `k`. -/
def System.clientDgram (m : Masque) (s : System) (k : CliConn) (data : Packet) (now : UInt64)
    (alloc : Alloc) : System :=
  match clientDgramRead m s.client.tunActive k.reorderRx data now alloc with
  | .reordered rx => s.setEngines k k.reorderTx (some rx)
  | _ => s

/-- The reorder part of `mqvpn_client_tick` on the connection `k`. -/
def System.clientTick (s : System) (k : CliConn) (now : UInt64) : System :=
  s.setEngines k k.reorderTx (k.reorderRx.map fun rx => tick rx now)

/-! ### Operations -/

inductive SysOp where
  | client (op : Cli.Op)
  | clientTun (v : LaneView) (pkt : Packet) (env : Env)
  | clientDgram (data : Packet) (now : UInt64) (alloc : Alloc)
  | clientTick (now : UInt64)
  /-- Connection `n` of the client arrives at the server. -/
  | arrive (n : ℕ) (allocOk : Bool)
  /-- A call of the server, for any of its connections. -/
  | server (op : NetOp)

/-- What a call of the server reads of a request for a tunnel. -/
def newAsked : NetOp → List Asked
  | .session (.requestRead id sid hdrs _) =>
      if hdrs.isConnect && hdrs.isConnectIp then [⟨id, sid, hdrs.hasReorderHdr⟩] else []
  | _ => []

/-- The header sections a call of the server sends. -/
def newSections (s : Svr.Server) : NetOp → List Section
  | .session (.requestRead id sid hdrs env) =>
      let r := cbRequestRead s id sid hdrs env
      r.sent.filterMap fun
        | .status code echo =>
            some ⟨id, sid, code, echo, (r.server.conns id).any fun c => c.reorderRx.isSome⟩
        | _ => none
  | _ => []

def System.next (m : Masque) (s : System) : SysOp → System
  | .client op => { s with client := s.client.step op }
  | .clientTun v pkt env => s.client.conn.elim s fun k => s.clientTun m k v pkt env
  | .clientDgram data now alloc => s.client.conn.elim s fun k => s.clientDgram m k data now alloc
  | .clientTick now => s.client.conn.elim s fun k => s.clientTick k now
  | .arrive n allocOk =>
      let net := s.net.step m (.session (.accept allocOk))
      { s with
        net := net
        links :=
          if net.server.nextTxScope = s.net.server.nextTxScope then s.links
          else s.links ++ [(n, net.server.nextTxScope)] }
  | .server op =>
      { s with
        net := s.net.step m op
        asked := s.asked ++ newAsked op
        sections := s.sections ++ newSections s.net.server op }

/-! ### The rules of the network -/

/-- A header section that the client read on connection `n`, after requests `requests`: the
server sent it on the stream of a request. -/
def System.Answered (s : System) (requests : List Cli.TunnelRequest) (n : ℕ)
    (hdrs : List Header) : Prop :=
  ∃ sec ∈ s.sections, (n, sec.id) ∈ s.links ∧ hdrs.filter (· ≠ .other) = sec.headers ∧
    ∃ r ∈ requests, r.conn = n ∧ r.sid = sec.sid

instance (s : System) (requests : List Cli.TunnelRequest) (n : ℕ) (hdrs : List Header) :
    Decidable (s.Answered requests n hdrs) :=
  inferInstanceAs (Decidable (∃ sec ∈ s.sections, _))

/-- What the client has read after a call was sent to it. -/
def System.heardOk (s : System) (c : Cli.Client) : Bool :=
  (c.tunnelLog.all fun e =>
      match e.2 with
      | .section hdrs => decide (s.Answered c.requests e.1 hdrs)
      | _ => true) &&
    c.requests.all fun r => r.sid.val % 4 == 0

/-- A header section on a connection of the client that asks for a tunnel is a request of the
client, and is read once. -/
def System.requestOk (s : System) (id : ConnId) (sid : StreamId) (hdrs : ReqHeaders) : Bool :=
  s.links.all fun l =>
    !(l.2 == id) || !(hdrs.isConnect && hdrs.isConnectIp) ||
      (s.client.requests.any fun r =>
          r.conn == l.1 && r.sid == sid && r.reorder == hdrs.hasReorderHdr) &&
        s.asked.all fun a => !(a.id == id && a.sid == sid)

def sentOn (log : List NetEvent) (id : ConnId) (data : Packet) : Bool :=
  log.any fun
    | .sent id' frame => id' == id && frame == data
    | _ => false

theorem mem_of_sentOn {log : List NetEvent} {id : ConnId} {data : Packet}
    (h : sentOn log id data = true) : .sent id data ∈ log := by
  obtain ⟨e, he, heq⟩ := List.any_eq_true.mp h
  cases e with
  | sent id' frame =>
    simp only [Bool.and_eq_true, beq_iff_eq] at heq
    rw [← heq.1, ← heq.2]
    exact he
  | up | input | forward | wrote => cases heq

/-- The rules of the network. -/
def System.allowed (s : System) : SysOp → Bool
  | .client op => s.heardOk (s.client.step op)
  | .clientTun .. => true
  | .clientDgram data _ _ =>
      s.client.conn.elim true fun k =>
        s.links.any fun l => l.1 == k.id && sentOn s.net.log l.2 data
  | .clientTick _ => true
  | .arrive n _ => decide (n ≤ s.client.connId) && s.links.all fun l => !(l.1 == n)
  | .server (.session (.requestRead id sid hdrs _)) =>
      (s.net.server.conns id).isSome && s.requestOk id sid hdrs
  | .server (.dgramRead id data _ _ _) =>
      s.links.all fun l => !(l.2 == id) || s.up.contains (l.1, data)
  | .server _ => true

def System.step (m : Masque) (s : System) (op : SysOp) : System :=
  if s.allowed op then s.next m op else s

def System.new (cfg : ClientConfig) (server : Svr.Server) (bucket : PtbBucket) : System where
  client := Cli.Client.new cfg
  net := Net.new server bucket

/-- The endpoints after a list of operations. -/
def System.run (m : Masque) (s : System) (ops : List SysOp) : System :=
  Run.exec (System.step m) s ops

end Mqvpn.Tunnel
