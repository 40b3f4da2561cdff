import Mqvpn.Lib.Segments

/-!
# Sending a batch of datagrams

A batch is sent with as few calls as possible.  Datagrams of one size, and a shorter one behind
them, make a *run*: one `sendmsg` with the size attached, which the kernel cuts apart again.  A
socket without that offload takes the whole batch in one `sendmmsg`.  Any call may be refused, and
`sendmmsg` may take only the first few; the sender then falls back to the other call, sends a run
one by one, drops what is too long, or stops.

The kernel is a script of answers, one for each call, so that what is proved holds for every
sequence of outcomes.  It keeps a log: the datagrams it took, and those it refused for their
length when they were sent alone.

## Main definitions

* `Socket` — the script of answers and the log.
* `udpSendBatch` — the batch sender; `gsoRound` is one round of its loop over the runs.
* `bindSend`, `bindSendPortable` — its caller, with and without the system calls for batches.
-/

namespace Mqvpn.Offload

abbrev Datagram := List UInt8

/-! ### The kernel -/

/-- The error numbers that the sender tells apart. -/
inductive Errno
  | again
  | intr
  | msgSize
  | io
  | inval
  | notSup
  | other (code : ℕ)
  deriving DecidableEq

/-- The outcome of one call: `sendmmsg` takes the given number of datagrams, but at least one and
at most all; `sendmsg` and `sendto` take what they are given. -/
inductive Answer
  | taken (n : ℕ)
  | refused (e : Errno)
  deriving DecidableEq

inductive Event
  | handed (d : Datagram)
  | tooLong (d : Datagram)
  deriving DecidableEq

def Event.datagram : Event → Datagram
  | .handed d => d
  | .tooLong d => d

/-- The datagrams that the kernel took. -/
def handed : List Event → List Datagram
  | [] => []
  | .handed d :: evs => d :: handed evs
  | .tooLong _ :: evs => handed evs

structure Socket where
  /-- The outcomes of the calls still to come; behind them the socket would block. -/
  answers : List Answer
  log : List Event
  deriving DecidableEq

/-- The answer to a call, which is made again while it is interrupted. -/
def nextAnswer : List Answer → Answer × List Answer
  | [] => (.refused .again, [])
  | .refused .intr :: as => nextAnswer as
  | a :: as => (a, as)

/-- The datagrams that leave for one `sendmsg`. -/
def onWire : Option ℕ → List UInt8 → List Datagram
  | none, bytes => [bytes]
  -- a segment size of zero is no segment size
  | some 0, bytes => [bytes]
  | some n, bytes => Segments.cut n bytes

/-- `sendmsg`, with a segment size attached or without.  More than 65535 bytes are never taken. -/
def Socket.sendmsg (sk : Socket) (seg : Option ℕ) (bytes : List UInt8) :
    Except Errno ℕ × Socket :=
  let next := nextAnswer sk.answers
  match if 0xffff < bytes.length then .refused .msgSize else next.1 with
  | .taken _ => (.ok bytes.length, ⟨next.2, sk.log ++ (onWire seg bytes).map .handed⟩)
  | .refused e =>
    let refusal := if seg = none ∧ e = .msgSize then [.tooLong bytes] else []
    (.error e, ⟨next.2, sk.log ++ refusal⟩)

/-- `sendmmsg`: one message for each datagram.  It fails only if the first one does. -/
def Socket.sendmmsg (sk : Socket) (ds : List Datagram) : Except Errno ℕ × Socket :=
  let next := nextAnswer sk.answers
  match next.1 with
  | .taken n =>
    let r := max 1 (min n ds.length)
    (.ok r, ⟨next.2, sk.log ++ (ds.take r).map .handed⟩)
  | .refused e =>
    let refusal := if e = .msgSize then (ds.take 1).map .tooLong else []
    (.error e, ⟨next.2, sk.log ++ refusal⟩)

/-! ### The batch sender -/

/-- The equal sizes behind the first datagram of a run, and one shorter datagram that closes it. -/
def runTail (seg : ℕ) : List Datagram → ℕ
  | [] => 0
  | d :: ds =>
    if d.length = seg then runTail seg ds + 1
    else if d.length < seg then 1
    else 0

/-- The length of the run that a batch starts with. -/
def gsoRunLen : List Datagram → ℕ
  | [] => 0
  | d :: ds => runTail d.length ds + 1

/-- The counters of the source have 64 bits and wrap; these do not. -/
structure TxCounters where
  bytes : ℕ
  sends : ℕ
  datagrams : ℕ
  deriving DecidableEq

/-- The socket, the counters, and the error that disabled the offload. -/
structure Sender where
  socket : Socket
  tx : TxCounters
  gsoDisabled : Option Errno
  deriving DecidableEq

/-- Count one call that took some datagrams. -/
def Sender.count (s : Sender) (bytes datagrams : ℕ) : Sender :=
  { s with tx := ⟨s.tx.bytes + bytes, s.tx.sends + 1, s.tx.datagrams + datagrams⟩ }

/-- One run as one message.  The size is that of the first datagram, in 16 bits, and it is
attached only to a run of more than one. -/
def sendOneRun (sk : Socket) (run : List Datagram) : Except Errno ℕ × Socket :=
  let seg := (run.headD []).length % 2 ^ 16
  sk.sendmsg (if 1 < run.length then some seg else none) run.flatten

def maxBatch : ℕ := 32

/-- The whole batch in one call. -/
def sendBatchMmsg (s : Sender) (ds : List Datagram) : Except Errno ℕ × Sender :=
  let ds := ds.take maxBatch
  match s.socket.sendmmsg ds with
  | (.ok r, sk) =>
    (.ok r, { s with socket := sk }.count ((ds.take r).map List.length).sum r)
  | (.error e, sk) => (.error e, { s with socket := sk })

/-- The errors that speak against the offload, if a segment size was attached. -/
def gsoClassError (e : Errno) : Bool :=
  e = .io || e = .inval || e = .notSup || e = .msgSize

inductive SendResult
  | sent (k : ℕ)
  | again
  | err
  deriving DecidableEq

/-- Nothing was sent, and this is why. -/
def failed (e : Errno) : SendResult := if e = .again then .again else .err

/-- Stop at an error: what was sent so far counts. -/
def stopAt (sent : ℕ) (e : Errno) : SendResult := if 0 < sent then .sent sent else failed e

/-- The batch without the offload. -/
def sendPlain (s : Sender) (ds : List Datagram) : SendResult × Sender :=
  match sendBatchMmsg s ds with
  | (.ok r, s) => (.sent r, s)
  -- the first datagram is too long: drop it
  | (.error e, s) => (if e = .msgSize then .sent 1 else failed e, s)

/-- How far the datagrams of a run were sent one by one. -/
structure Singles where
  sender : Sender
  k : ℕ
  dropped : Bool
  stop : Option Errno

/-- The datagrams of a run one by one; what is too long is dropped, another error stops. -/
def sendSingles (s : Sender) : List Datagram → Singles
  | [] => ⟨s, 0, false, none⟩
  | d :: ds =>
    match sendOneRun s.socket [d] with
    | (.ok n, sk) =>
      let rest := sendSingles ({ s with socket := sk }.count n 1) ds
      { rest with k := rest.k + 1 }
    | (.error e, sk) =>
      if e = .msgSize then
        let rest := sendSingles { s with socket := sk } ds
        { rest with k := rest.k + 1, dropped := true }
      else ⟨{ s with socket := sk }, 0, false, some e⟩

/-- A round of the loop over the runs: it goes on behind `sent` datagrams, or returns. -/
inductive Round
  | next (sent : ℕ) (s : Sender)
  | done (r : SendResult) (s : Sender)

/-- One round: the run ahead, and what its failure leads to. -/
def gsoRound (ds : List Datagram) (sent : ℕ) (s : Sender) : Round :=
  let rest := ds.drop sent
  let run := rest.take (gsoRunLen rest)
  match sendOneRun s.socket run with
  | (.ok n, sk) => .next (sent + run.length) ({ s with socket := sk }.count n run.length)
  | (.error e, sk) =>
    let s := { s with socket := sk }
    if e = .msgSize ∧ run.length = 1 then .next (sent + 1) s
    else if e = .msgSize then
      let r := sendSingles s run
      match r.stop with
      | some e => .done (stopAt (sent + r.k) e) r.sender
      | none =>
        -- every datagram went through alone, so it was the offload that failed
        let s := if r.dropped then r.sender else { r.sender with gsoDisabled := some .msgSize }
        .next (sent + run.length) s
    else if 1 < run.length ∧ gsoClassError e then
      let s := { s with gsoDisabled := some e }
      -- the retry without the offload is made only if nothing was sent
      if sent = 0 then
        let r := sendPlain s ds
        .done r.1 r.2
      else .done (stopAt sent e) s
    else .done (stopAt sent e) s

/-- The loop over the runs of a batch, `sent` datagrams behind. -/
def gsoLoop (ds : List Datagram) : ℕ → ℕ → Sender → SendResult × Sender
  | 0, sent, s => (.sent sent, s)
  | fuel + 1, sent, s =>
    if sent < ds.length then
      match gsoRound ds sent s with
      | .next sent' s' => gsoLoop ds fuel sent' s'
      | .done r s' => (r, s')
    else (.sent sent, s)

def udpSendBatch (useGso : Bool) (s : Sender) (ds : List Datagram) : SendResult × Sender :=
  if ds.isEmpty then (.sent 0, s)
  else if !useGso || s.gsoDisabled.isSome then sendPlain s ds
  else gsoLoop ds ds.length 0 s

/-! ### The callers -/

/-- A bound socket, with the counters of its lifetime and the slot that disables the offload. -/
structure Bind where
  socket : Socket
  txSends : ℕ
  txDatagrams : ℕ
  gsoDisabled : Option Errno
  deriving DecidableEq

inductive TxResult
  | sent (k : ℕ)
  | wouldBlock
  | failed
  deriving DecidableEq

def bindMaxBatch : ℕ := 32

/-- One datagram by `sendto`. -/
def Bind.sendto (b : Bind) (d : Datagram) : Except Errno ℕ × Bind :=
  match b.socket.sendmsg none d with
  | (.ok n, sk) =>
    (.ok n, { b with socket := sk, txSends := b.txSends + 1, txDatagrams := b.txDatagrams + 1 })
  | (.error e, sk) => (.error e, { b with socket := sk })

def bindSend (useGso : Bool) (b : Bind) (bufs : List Datagram) : TxResult × Bind :=
  match bufs.take bindMaxBatch with
  | [] => (.failed, b)
  | [d] =>
    match b.sendto d with
    | (.ok _, b) => (.sent 1, b)
    | (.error e, b) =>
      (if e = .again then .wouldBlock else if e = .msgSize then .sent 1 else .failed, b)
  | ds =>
    let r := udpSendBatch useGso ⟨b.socket, ⟨0, 0, 0⟩, b.gsoDisabled⟩ ds
    let b := { b with
      socket := r.2.socket
      txSends := b.txSends + r.2.tx.sends
      txDatagrams := b.txDatagrams + r.2.tx.datagrams
      gsoDisabled := r.2.gsoDisabled }
    match r.1 with
    | .sent k => (if 0 < k then .sent k else .failed, b)
    | .again => (.wouldBlock, b)
    | .err => (.failed, b)

/-- The loop of the portable sender, `sent` datagrams behind. -/
def portableLoop (b : Bind) (sent : ℕ) : List Datagram → TxResult × Bind
  | [] => (.sent sent, b)
  | d :: ds =>
    match b.sendto d with
    | (.ok _, b) => portableLoop b (sent + 1) ds
    | (.error e, b) =>
      if e = .msgSize then portableLoop b (sent + 1) ds
      else if 0 < sent then (.sent sent, b)
      else (if e = .again then .wouldBlock else .failed, b)

/-- Where there is neither `sendmmsg` nor the offload: one `sendto` after the other. -/
def bindSendPortable (b : Bind) (bufs : List Datagram) : TxResult × Bind :=
  if bufs.isEmpty then (.failed, b) else portableLoop b 0 (bufs.take bindMaxBatch)

end Mqvpn.Offload
