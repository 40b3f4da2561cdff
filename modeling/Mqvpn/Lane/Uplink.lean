import Mathlib.Algebra.GroupWithZero.Nat
import Mqvpn.Lib.Run
import Mathlib.Data.List.Basic

/-!
# The uplink of a TCP-lane flow

A flow of the client's TCP lane takes the bytes a local application sends, as lwIP delivers
them, into the body of a request stream.  Bytes the stream does not take wait in a queue of
deliveries, as do those that arrive before the stream is established.  Room in the receive
window is given back to lwIP with `tcp_recved`; under backpressure it is withheld, and given
back in one piece when the stream has drained.

What xquic answers is given by a script, the answers in the order of the calls: to a send,
and to the question how many bytes of the connection are unsent.  A script that ends answers
"would block" and zero.  As for the write notification of the stream, a send that would block
or is accepted in part arms it, one that is accepted in full clears it, and
`set_write_notify` sets it.

`calls`, `recved` and `armed` record what the flow did and what it led to; no function reads
them back.

## Main definitions

* `Pbuf`, `UplinkFlow` — a delivery, a flow.
* `sendFrom`, `flush`, `deliver`, `onLwipRecv` — the functions of the uplink.
* `UplinkOp`, `UplinkFlow.step` — a flow as a machine.
-/

namespace Mqvpn.Lane

/-- The sizes that differ between the builds. -/
structure Profile where
  /-- `TCP_WND`. -/
  tcpWnd : ℕ
  /-- `MQVPN_TCP_LANE_BP_HIGH_WATER`. -/
  highWater : ℕ
  /-- `MQVPN_TCP_LANE_BP_LOW_WATER`. -/
  lowWater : ℕ
  deriving DecidableEq

/-- Desktop, router and Android. -/
def Profile.standard (rcvScale : ℕ) : Profile := ⟨65535 * 2 ^ rcvScale, 262144, 65536⟩

/-- `TCP_MSS`. -/
def tcpMss : ℕ := 8960

/-- A delivery of lwIP, a chain of segments whose total length fits sixteen bits. -/
structure Pbuf where
  segs : List (List UInt8)
  fits : segs.flatten.length < 2 ^ 16
  deriving DecidableEq

def Pbuf.bytes (p : Pbuf) : List UInt8 := p.segs.flatten

/-- `tot_len`. -/
def Pbuf.totLen (p : Pbuf) : ℕ := p.bytes.length

/-- `next` is set. -/
def Pbuf.chained (p : Pbuf) : Bool := decide (1 < p.segs.length)

/-- What is sent in one piece: all that is left of a contiguous delivery, a slice of a
chained one. -/
def Pbuf.chunk (p : Pbuf) (offset : ℕ) : List UInt8 :=
  if p.chained then (p.bytes.drop offset).take tcpMss else p.bytes.drop offset

/-- `mqvpn_tcp_uplink_node_t`: a queued delivery and how much of it was sent. -/
structure Node where
  p : Pbuf
  offset : ℕ
  deriving DecidableEq

def Node.unsent (n : Node) : List UInt8 := n.p.bytes.drop n.offset

/-- The states of a flow with a control block. -/
inductive LaneState where
  | pendingStream
  | active
  deriving DecidableEq

/-- A flow is live, both its directions ended well, or it was torn down. -/
inductive Status where
  | live
  | closed
  | down
  deriving DecidableEq

/-- What happened to a flow. -/
inductive LaneCall where
  /-- lwIP delivered bytes, or the end of the stream. -/
  | delivered (bytes : List UInt8)
  | localFin
  /-- The request stream accepted bytes, or the end of the body. -/
  | accepted (bytes : List UInt8)
  | fin
  deriving DecidableEq

/-- `mqvpn_tcp_flow_t`, as far as the uplink goes. -/
structure UplinkFlow where
  state : LaneState := .pendingStream
  status : Status := .live
  /-- `h3_request` is set. -/
  h3Request : Bool := false
  uplinkQueue : List Node := []
  uplinkQueuedBytes : ℕ := 0
  uplinkWithheldRecved : ℕ := 0
  uplinkWithheld : Bool := false
  finSentToH3 : Bool := false
  finReceivedFromH3 : Bool := false
  tcpFinSeen : Bool := false
  /-- The write notification of the stream is armed. -/
  armed : Bool := false
  /-- The bytes given back with `tcp_recved`. -/
  recved : ℕ := 0
  calls : List LaneCall := []
  deriving DecidableEq

/-- An answer of `cli_tcp_lane_h3_send`. -/
inductive H3Answer where
  | took (n : ℕ)
  | again
  | err
  deriving DecidableEq

/-- The answers of xquic. -/
structure Script where
  sends : List H3Answer
  unsent : List ℕ
  deriving DecidableEq

/-- A flow in the hands of a handler, and what is left of the answers about unsent bytes. -/
structure Work where
  flow : UplinkFlow
  unsent : List ℕ
  deriving DecidableEq

/-- Record what happened. -/
def UplinkFlow.log (f : UplinkFlow) (c : LaneCall) : UplinkFlow :=
  { f with calls := f.calls ++ [c] }

def Work.log (w : Work) (c : LaneCall) : Work := { w with flow := w.flow.log c }

/-- Set the write notification. -/
def Work.setArmed (w : Work) (armed : Bool) : Work := { w with flow := { w.flow with armed } }

/-- `tcp_lane_uplink_xquic_bytes`. -/
def Work.xquicBytes (w : Work) : ℕ := if w.flow.h3Request then w.unsent.headD 0 else 0

/-- The question was asked. -/
def Work.next (w : Work) : Work := { w with unsent := w.unsent.tail }

/-- `tcp_lane_uplink_withhold`. -/
def Work.withhold (w : Work) : Work :=
  { w with flow := { w.flow with
      uplinkWithheld := true, armed := w.flow.armed || w.flow.h3Request } }

/-- `tcp_lane_recved`: `tcp_recved` in steps of sixteen bits.  Every step takes something, so
`len` steps are enough. -/
def recvedLoop : ℕ → ℕ → ℕ → ℕ
  | 0, _, recved => recved
  | steps + 1, len, recved =>
      if len = 0 then recved
      else
        let chunk := if 0xffff < len then 0xffff else len
        recvedLoop steps (len - chunk) (recved + chunk)

def Work.giveBack (w : Work) (len : ℕ) : Work :=
  { w with flow := { w.flow with recved := recvedLoop len len w.flow.recved } }

/-! ### Sending -/

/-- The outcome of a piece of sending: the new offset, unless a send failed. -/
structure Sent where
  offset : Option ℕ
  work : Work
  sends : List H3Answer
  deriving DecidableEq

/-- `tcp_lane_uplink_send_from`. -/
def sendFrom (P : Profile) (p : Pbuf) : List H3Answer → Work → ℕ → Sent
  | [], w, offset => ⟨some offset, if p.totLen ≤ offset then w else w.setArmed true, []⟩
  | a :: sends, w, offset =>
      if p.totLen ≤ offset then ⟨some offset, w, a :: sends⟩
      else
        let chunk := p.chunk offset
        if p.chained = true ∧ chunk = [] then ⟨none, w, a :: sends⟩ else
        match a with
        | .again => ⟨some offset, w.setArmed true, sends⟩
        | .err => ⟨none, w, sends⟩
        | .took n =>
            let sent := min n chunk.length
            let w := (w.log (.accepted (chunk.take sent))).setArmed (decide (sent < chunk.length))
            if sent < chunk.length then ⟨some (offset + sent), w, sends⟩
            else if offset + sent < p.totLen ∧ P.highWater ≤ w.xquicBytes then
              ⟨some (offset + sent), w.next.withhold, sends⟩
            else if offset + sent < p.totLen then sendFrom P p sends w.next (offset + sent)
            else ⟨some (offset + sent), w, sends⟩

/-- `tcp_lane_uplink_stash`. -/
def stash (w : Work) (p : Pbuf) (offset : ℕ) : Work :=
  { w with flow := { w.flow with
      uplinkQueue := w.flow.uplinkQueue ++ [⟨p, offset⟩]
      uplinkQueuedBytes := w.flow.uplinkQueuedBytes + (p.totLen - offset) } }

/-- `mqvpn_tcp_lane_on_relay_error`, and every other way a flow is torn down: the queue is
freed with it. -/
def UplinkFlow.tearDown (f : UplinkFlow) : UplinkFlow :=
  { f with status := .down, uplinkQueue := [], uplinkQueuedBytes := 0 }

def Work.fail (w : Work) : Work := { w with flow := w.flow.tearDown }

/-- `tcp_lane_uplink_maybe_fin`. -/
def maybeFin (w : Work) (sends : List H3Answer) : Work :=
  if w.flow.state ≠ .active ∨ w.flow.h3Request = false ∨ w.flow.tcpFinSeen = false ∨
      w.flow.finSentToH3 = true ∨ w.flow.uplinkQueue ≠ [] then w
  else
    match sends.headD .again with
    | .err => w.fail
    | .again => w.setArmed true
    | .took _ =>
        let w := (w.log .fin).setArmed false
        { w with flow := { w.flow with
            finSentToH3 := true
            status := if w.flow.finReceivedFromH3 then .closed else w.flow.status } }

/-- The outcome of draining the queue. -/
structure Drained where
  ok : Bool
  work : Work
  sends : List H3Answer
  deriving DecidableEq

/-- Write the queue back. -/
def Work.setQueue (w : Work) (queue : List Node) : Work :=
  { w with flow := { w.flow with uplinkQueue := queue } }

def Work.unqueue (w : Work) (sent : ℕ) : Work :=
  { w with flow := { w.flow with uplinkQueuedBytes := w.flow.uplinkQueuedBytes - sent } }

/-- The loop of `tcp_lane_uplink_flush`. -/
def drain (P : Profile) : List Node → Work → List H3Answer → Drained
  | [], w, sends => ⟨true, w.setQueue [], sends⟩
  | n :: queue, w, sends =>
      if P.highWater ≤ w.xquicBytes then ⟨true, (w.next.setQueue (n :: queue)).withhold, sends⟩
      else
        match sendFrom P n.p sends w.next n.offset with
        | ⟨none, w, sends⟩ => ⟨false, w, sends⟩
        | ⟨some offset, w, sends⟩ =>
            let w := w.unqueue (offset - n.offset)
            if offset < n.p.totLen then
              ⟨true, (w.setQueue ({ n with offset } :: queue)).withhold, sends⟩
            else if P.highWater ≤ w.xquicBytes then
              ⟨true, (w.next.setQueue queue).withhold, sends⟩
            else drain P queue w.next sends

/-- The last part of `tcp_lane_uplink_flush`: the withheld room is given back when the stream
has drained. -/
def resume (P : Profile) (w : Work) : Work :=
  if w.flow.uplinkWithheld = true ∧ w.flow.uplinkQueue = [] ∧ w.xquicBytes ≤ P.lowWater then
    let w := w.next.giveBack w.flow.uplinkWithheldRecved
    let w := { w with flow := { w.flow with uplinkWithheld := false, uplinkWithheldRecved := 0 } }
    if !w.flow.tcpFinSeen || w.flow.finSentToH3 then w.setArmed false else w
  else if w.flow.uplinkWithheld then w.next.setArmed true
  else w.next

/-- `tcp_lane_uplink_flush`. -/
def flush (P : Profile) (w : Work) (sends : List H3Answer) : Work :=
  if w.flow.state ≠ .active ∨ w.flow.h3Request = false then w
  else
    match drain P w.flow.uplinkQueue w sends with
    | ⟨false, w, _⟩ => w.fail
    | ⟨true, w, sends⟩ =>
        let w := maybeFin w sends
        if w.flow.status ≠ .live then w else resume P w

/-- The second half of `tcp_lane_uplink_deliver`: the delivery was accepted up to `offset`. -/
def settleDelivery (P : Profile) (w : Work) (p : Pbuf) (offset : ℕ) (allocOk : Bool) : Work :=
  if offset = p.totLen then
    if w.flow.uplinkWithheld = true ∨ P.highWater ≤ w.xquicBytes then
      let w := w.withhold
      { w with flow := { w.flow with
          uplinkWithheldRecved := w.flow.uplinkWithheldRecved + p.totLen } }
    else w.giveBack p.totLen
  else if !allocOk then w.fail
  else
    let w := stash w p offset
    let w :=
      if w.flow.state = .active ∨ P.highWater ≤ w.flow.uplinkQueuedBytes then w.withhold else w
    if w.flow.uplinkWithheld then
      { w with flow := { w.flow with
          uplinkWithheldRecved := w.flow.uplinkWithheldRecved + p.totLen } }
    else w.giveBack p.totLen

/-- `tcp_lane_uplink_deliver`. -/
def deliver (P : Profile) (w : Work) (p : Pbuf) (allocOk : Bool) (sends : List H3Answer) : Work :=
  if w.flow.state = .active ∧ w.flow.uplinkQueue = [] ∧ w.flow.h3Request = true then
    if w.xquicBytes < P.highWater then
      match sendFrom P p sends w.next 0 with
      | ⟨none, w, _⟩ => w.fail
      | ⟨some offset, w, _⟩ => settleDelivery P w p offset allocOk
    else settleDelivery P w.next p 0 allocOk
  else settleDelivery P w p 0 allocOk

/-! ### The machine -/

/-- `mqvpn_tcp_lane_on_lwip_recv`; no delivery is the end of the stream. -/
def onLwipRecv (P : Profile) (f : UplinkFlow) (p : Option Pbuf) (allocOk : Bool)
    (script : Script) : UplinkFlow :=
  match p with
  | none =>
      (flush P ⟨{ f.log .localFin with tcpFinSeen := true }, script.unsent⟩ script.sends).flow
  | some p => (deliver P ⟨f.log (.delivered p.bytes), script.unsent⟩ p allocOk script.sends).flow

/-- What happens to a flow. -/
inductive UplinkOp where
  /-- The request is sent; its stream is not established yet. -/
  | bind
  | recv (p : Option Pbuf) (allocOk : Bool) (script : Script)
  | established (script : Script)
  | writable (script : Script)
  /-- The other direction has ended; the control block is shut down for sending, or that
  fails. -/
  | downlinkFin (shutdownOk : Bool)
  /-- The stream is rejected or reset, the control block fails, the flow is evicted. -/
  | tearDown
  deriving DecidableEq

/-- A step; a flow that is closed or torn down meets nothing more. -/
def UplinkFlow.step (P : Profile) (f : UplinkFlow) (op : UplinkOp) : UplinkFlow :=
  if f.status ≠ .live then f
  else
    match op with
    | .bind => { f with h3Request := true }
    | .recv p allocOk script => onLwipRecv P f p allocOk script
    | .established script =>
        if f.h3Request then
          (flush P ⟨{ f with state := .active }, script.unsent⟩ script.sends).flow
        else f
    | .writable script =>
        if f.h3Request then (flush P ⟨f, script.unsent⟩ script.sends).flow else f
    | .downlinkFin shutdownOk =>
        if f.finReceivedFromH3 then f
        else if !shutdownOk then { f with finReceivedFromH3 := true }.tearDown
        else
          { f with
            finReceivedFromH3 := true
            status := if f.finSentToH3 then .closed else f.status }
    | .tearDown => f.tearDown

/-- A flow that was accepted, after a sequence of operations. -/
def UplinkFlow.run (P : Profile) (ops : List UplinkOp) : UplinkFlow :=
  Run.exec (UplinkFlow.step P) {} ops

end Mqvpn.Lane
