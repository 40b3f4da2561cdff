import Mqvpn.Lib.Probe
import Mqvpn.Lib.Run

/-!
# The tracker of redundant datagrams

In redundant mode a packet goes out as several datagrams, one on each of several paths.  The
tracker keeps a table of these copies, keyed by the id of the datagram, and a table of the
originals, keyed by a counter.  A report about a copy resolves it: the first acknowledgement of an
original counts, and its loss counts when the last copy is gone and none was acknowledged.

Beside the tables the tracker has the state of each path (the copies and bytes outstanding on it,
the times at which they were handed over), the rate of the stream, and the overload mode, in which
packets are sent only once.

## Main definitions

* `Tracker.commit`, `Tracker.onAcked`, `Tracker.onLost` — copies sent, and reports about them.
* `Tracker.detachPath`, `Tracker.bindPath` — a path goes, or is another one.
* `Tracker.select`, `Tracker.updateMode`, `Tracker.overloadBypass` — the paths for a packet, and
  the overload mode.
* `Op`, `Tracker.step`, `Tracker.answer` — the calls of the module and what reports are answered.
-/

namespace Mqvpn.Redundant

def maxPaths : ℕ := 8

def cap : ℕ := 16384

/-- The slots of a table: at most half of them are used. -/
def tableSlots : ℕ := 2 * cap

def lag : UInt64 := 250000
def rttUnknown : UInt64 := 10000000
def rateBucket : UInt64 := 100000
def pktBytes : UInt64 := 1400
def modeWin : UInt64 := 200000
def idle : UInt64 := 1000000
def startGrace : UInt64 := 2000000
def enterN : ℕ := 5
def reenterN : ℕ := 2
def holdFirst : UInt64 := 10000000
def holdMax : UInt64 := 32000000
def probeOk : UInt64 := 10000000
def histLen : ℕ := 10
def minJudged : UInt64 := 40

/-- The home of a key. -/
def rtxSlot (k : UInt64) : ℕ := ((k * 0x9E3779B97F4A7C15) >>> 40).toNat % tableSlots

structure Copy where
  /-- The key of the original. -/
  orig : UInt64
  /-- The path it was sent on, unless that is gone. -/
  path : Option ℕ
  len : UInt64
  deriving DecidableEq

structure Orig where
  /-- The copies that are not resolved. -/
  left : UInt64
  acked : Bool
  deriving DecidableEq

structure PathTx where
  bound : Bool := false
  xqcId : UInt64 := 0
  outstanding : ℤ := 0
  outBytes : UInt64 := 0
  minRtt : UInt64 := 0
  /-- The index of the oldest time in the ring. -/
  first : ℕ := 0
  acked : UInt64 := 0
  estBw : UInt64 := 0
  inflight : UInt64 := 0
  hit : Bool := false
  deriving DecidableEq

inductive Mode
  | normal
  | probe
  | overload
  deriving DecidableEq

structure Tracker where
  copies : Probe.Table UInt64 Copy := Probe.empty
  origs : Probe.Table UInt64 Orig := Probe.empty
  nextOrig : UInt64 := 0
  paths : ℕ → PathTx := fun _ => {}
  /-- For each path a ring of the times at which its copies were handed over. -/
  sent : ℕ → ℕ → UInt64 := fun _ _ => 0
  haveWin : Bool := false
  winSec : UInt64 := 0
  winCount : UInt32 := 0
  prevCount : UInt32 := 0
  lastUs : UInt64 := 0
  bktId : UInt64 := 0
  bktCount : UInt32 := 0
  prevBktCount : UInt32 := 0
  mode : Mode := .normal
  shortN : ℕ := 0
  winStart : UInt64 := 0
  flowSince : UInt64 := 0
  since : UInt64 := 0
  hold : UInt64 := holdFirst
  secHist : ℕ → UInt32 := fun _ => 0

def Tracker.new : Tracker := {}

namespace Tracker

/-- The index of a path, if it is one. -/
def pathOk (path : ℤ) : Option ℕ :=
  if 0 ≤ path ∧ path < maxPaths then some path.toNat else none

def setPath (t : Tracker) (p : ℕ) (x : PathTx) : Tracker :=
  { t with paths := Function.update t.paths p x }

/-! ### Paths -/

/-- The copies of a path stop counting, but stay in the table. -/
def detachPath (t : Tracker) (path : ℤ) : Tracker :=
  match pathOk path with
  | none => t
  | some p =>
    if (t.paths p).outstanding = 0 then t
    else
      let copies := Probe.mapValues t.copies fun _ c =>
        if c.path = some p then { c with path := none } else c
      { t with copies := copies }.setPath p { t.paths p with outstanding := 0, outBytes := 0 }

def bindPath (t : Tracker) (path : ℤ) (xqcId : UInt64) : Tracker :=
  match pathOk path with
  | none => t
  | some p =>
    let t := if (t.paths p).bound && (t.paths p).xqcId != xqcId then t.detachPath path else t
    t.setPath p { t.paths p with bound := true, xqcId := xqcId }

def setPathMetrics (t : Tracker) (path : ℤ) (minRtt estBw inflight : UInt64) : Tracker :=
  match pathOk path with
  | none => t
  | some p =>
    let minRtt := if minRtt < rttUnknown then minRtt else 0
    t.setPath p { t.paths p with minRtt := minRtt, estBw := estBw, inflight := inflight }

/-- How long the oldest copy of a path has waited beyond the round trip. -/
def queued (t : Tracker) (p : ℕ) (now : UInt64) : UInt64 :=
  let x := t.paths p
  if x.outstanding = 0 then 0
  else
    let due := t.sent p x.first + x.minRtt
    if due < now then now - due else 0

/-- The better of two paths to send on: less queued, then fewer copies, then the lower index. -/
def better (t : Tracker) (now : UInt64) (best : Option ℕ) (p : ℕ) : Option ℕ :=
  match best with
  | none => some p
  | some b =>
    let o := (t.paths p).outstanding
    let ob := (t.paths b).outstanding
    if t.queued p now < t.queued b now ∨
        t.queued p now = t.queued b now ∧ (o < ob ∨ o = ob ∧ p < b) then some p
    else some b

/-- A path is taken for a packet, or marked as left out. -/
def consider (now : UInt64) (best : ℕ) (acc : List ℕ × Tracker) (p : ℕ) : List ℕ × Tracker :=
  let t := acc.2
  let takes :=
    if lag < t.queued best now then p = best
    else t.queued p now ≤ t.queued best now + lag
  if takes then (acc.1 ++ [p], t) else (acc.1, t.setPath p { t.paths p with hit := true })

/-- The paths for one packet. -/
def select (t : Tracker) (usable : List ℤ) (now : UInt64) : List ℕ × Tracker :=
  if cap ≤ t.origs.n then ([], t)
  else
    let ps := usable.filterMap pathOk
    match ps.foldl (t.better now) none with
    | none => ([], t)
    | some best =>
      let r := ps.foldl (consider now best) ([], t)
      (r.1.take (cap - t.copies.n), r.2)

/-! ### The rate of the stream -/

def streamPps (t : Tracker) : UInt64 :=
  let pps := t.prevCount.toUInt64
  let bkt := t.prevBktCount.toUInt64 * (1000000 / rateBucket)
  if pps < bkt then bkt else pps

/-- The second of the rate, at a packet. -/
def countSecond (t : Tracker) (sec : UInt64) : Tracker :=
  let t :=
    if !t.haveWin || sec != t.winSec then
      let contiguous := t.haveWin && sec == t.winSec + 1
      { t with
        secHist := if contiguous then
            Function.update t.secHist (t.winSec.toNat % histLen) t.winCount
          else t.secHist
        prevCount := if contiguous then t.winCount else 0
        haveWin := true
        winSec := sec
        winCount := 0 }
    else t
  { t with winCount := t.winCount + 1 }

/-- The bucket of the rate, at a packet. -/
def countBucket (t : Tracker) (fresh : Bool) (b : UInt64) : Tracker :=
  let t :=
    if fresh || b != t.bktId then
      { t with
        prevBktCount := if !fresh && b == t.bktId + 1 then t.bktCount else 0
        bktId := b
        bktCount := 0 }
    else t
  { t with bktCount := t.bktCount + 1 }

def countRate (t : Tracker) (now : UInt64) : Tracker :=
  -- the clock stepped back: a new window
  let t := if t.haveWin && now < t.lastUs then { t with haveWin := false } else t
  let fresh := !t.haveWin
  let t := (t.countSecond (now / 1000000)).countBucket fresh (now / rateBucket)
  { t with lastUs := now }

/-! ### Copies and reports -/

def addCopy (key bytes now : UInt64) (t : Tracker) (copy : UInt64 × ℤ) : Tracker :=
  let path := pathOk copy.2
  let t := { t with copies := Probe.insert tableSlots rtxSlot t.copies copy.1 ⟨key, path, bytes⟩ }
  match path with
  | none => t
  | some p =>
    let x := t.paths p
    let last := ((x.first + x.outstanding) % cap).toNat
    { t with sent := Function.update t.sent p (Function.update (t.sent p) last now) }.setPath p
      { x with outstanding := x.outstanding + 1, outBytes := x.outBytes + bytes }

/-- Whether the tables have room for an original with its copies. -/
def accepts (t : Tracker) (copies : List (UInt64 × ℤ)) : Bool :=
  !(copies.length = 0 || cap ≤ t.origs.n || cap < t.copies.n + copies.length)

/-- Enter an original and the copies that were sent of it, each with its path. -/
def commit (t : Tracker) (copies : List (UInt64 × ℤ)) (now : UInt64) (len : ℕ) : Tracker :=
  if t.accepts copies then
    let t := t.countRate now
    let bytes : UInt64 := .ofNat (min len 0xffff)
    let key := t.nextOrig + 1
    let origs := Probe.insert tableSlots rtxSlot t.origs key ⟨.ofNat copies.length, false⟩
    copies.foldl (addCopy key bytes now) { t with nextOrig := key, origs := origs }
  else t

/-- A copy no longer counts for its path. -/
def settle (t : Tracker) (c : Copy) (acked : Bool) : Tracker :=
  match c.path with
  | none => t
  | some p =>
    let x := t.paths p
    t.setPath p { x with
      outstanding := x.outstanding - 1
      outBytes := x.outBytes - c.len
      acked := if acked then x.acked + 1 else x.acked
      first := (x.first + 1) % cap }

/-- Drop a copy; the answer has the slot and the key of its original, and what that has now. -/
def resolve (t : Tracker) (id : UInt64) (acked : Bool) :
    Option (Tracker × ℕ × UInt64 × Orig) :=
  match Probe.find tableSlots rtxSlot t.copies id, Probe.lookup tableSlots rtxSlot t.copies id with
  | some i, some c =>
    -- the source does not test whether the original is there
    match Probe.find tableSlots rtxSlot t.origs c.orig,
        Probe.lookup tableSlots rtxSlot t.origs c.orig with
    | some j, some o =>
      let t := t.settle c acked
      let o := { o with left := o.left - 1 }
      some ({ t with
        copies := Probe.remove tableSlots rtxSlot t.copies i
        origs := Probe.modify t.origs j c.orig o }, j, c.orig, o)
    | _, _ => none
  | _, _ => none

def dropOrig (t : Tracker) (j : ℕ) : Tracker :=
  { t with origs := Probe.remove tableSlots rtxSlot t.origs j }

/-- A copy was acknowledged: `1` for the first of its original. -/
def onAcked (t : Tracker) (id : UInt64) : Tracker × ℤ :=
  match t.resolve id true with
  | none => (t, -1)
  | some (t, j, key, o) =>
    let t := { t with origs := Probe.modify t.origs j key { o with acked := true } }
    (if o.left = 0 then t.dropOrig j else t, if o.acked then 0 else 1)

/-- A copy was lost: `1` for the last of its original, if none was acknowledged. -/
def onLost (t : Tracker) (id : UInt64) : Tracker × ℤ :=
  match t.resolve id false with
  | none => (t, -1)
  | some (t, j, _, o) =>
    (if o.left = 0 then t.dropOrig j else t, if o.left = 0 ∧ o.acked = false then 1 else 0)

/-! ### The overload mode -/

def modeReset (t : Tracker) : Tracker :=
  { t with
    mode := .normal
    shortN := 0
    winStart := 0
    flowSince := 0
    hold := holdFirst
    secHist := fun _ => 0 }

def windowStart (t : Tracker) (now : UInt64) : Tracker :=
  { t with
    winStart := if now = 0 then 1 else now
    paths := fun p => { t.paths p with acked := 0, hit := false } }

/-- The lowest rate of the seconds on record. -/
def baseRate (t : Tracker) (pps : UInt64) : UInt64 :=
  let base := (List.range histLen).foldl (fun base i =>
    let rate := (t.secHist i).toUInt64
    if rate ≠ 0 ∧ (base = 0 ∨ rate < base) then rate else base) 0
  if base = 0 then pps else base

/-- A path is backed up and delivers less than the stream. -/
def isShort (x : PathTx) (pps el : UInt64) : Bool :=
  let ackedPps := x.acked * 1000000 / el
  let fed := x.hit || x.inflight + x.inflight / 10 < x.outBytes
  fed && !decide (pps * 95 ≤ ackedPps * 100)

/-- A path could carry the stream. -/
def fits (x : PathTx) (base : UInt64) : Bool := base * 105 ≤ x.estBw / pktBytes * 100

/-- There is nothing to judge: no packet or no judgement for long, or the clock stepped back. -/
def stale (t : Tracker) (now : UInt64) : Bool :=
  !t.haveWin || now < t.lastUs || idle ≤ now - t.lastUs || now < t.winStart ||
    (t.winStart != 0 && idle ≤ now - t.winStart)

/-- What a judgement leads to. -/
def judge (t : Tracker) (allShort fit : Bool) (now : UInt64) : Tracker × ℤ :=
  if t.mode = .overload then
    if now - t.since < t.hold || !fit then (t, 0)
    else ({ t with mode := .probe, since := now, shortN := 0 }, -1)
  else
    let shortN := if allShort && startGrace ≤ now - t.flowSince then t.shortN + 1 else 0
    let t := { t with shortN := shortN }
    if (if t.mode = .probe then reenterN else enterN) ≤ shortN then
      let hold := if t.mode = .probe then min (t.hold * 2) holdMax else t.hold
      ({ t with hold := hold, mode := .overload, since := now }, 1)
    else if t.mode = .probe && probeOk ≤ now - t.since then
      ({ t with mode := .normal, hold := holdFirst }, 0)
    else (t, 0)

/-- The refresh: `1` on entering the overload mode, `-1` on leaving it. -/
def updateMode (t : Tracker) (usable : List ℤ) (now : UInt64) : Tracker × ℤ :=
  if usable.isEmpty then (t, 0)
  else if t.stale now then (t.modeReset, if t.mode = .overload then -1 else 0)
  else if t.winStart = 0 then
    let t := t.windowStart now
    ({ t with flowSince := t.winStart }, 0)
  else
    let el := now - t.winStart
    if el < modeWin then (t, 0)
    else
      let pps := t.streamPps
      let base := t.baseRate pps
      let xs := (usable.filterMap pathOk).map t.paths
      let allShort := xs.all (isShort · pps el) && !decide (pps * el < minJudged * 1000000)
      let fit := xs.any (fits · base)
      let t := t.windowStart now
      if pps = 0 then (t, 0) else t.judge allShort fit now

/-- In overload mode a packet only counts for the rate. -/
def overloadBypass (t : Tracker) (now : UInt64) : Tracker × Bool :=
  if t.mode = .overload then (t.countRate now, true) else (t, false)

end Tracker

/-! ### Calls -/

inductive Op
  | commit (copies : List (UInt64 × ℤ)) (now : UInt64) (len : ℕ)
  | acked (id : UInt64)
  | lost (id : UInt64)
  | detachPath (path : ℤ)
  | bindPath (path : ℤ) (xqcId : UInt64)
  | setPathMetrics (path : ℤ) (minRtt estBw inflight : UInt64)
  | select (usable : List ℤ) (now : UInt64)
  | updateMode (usable : List ℤ) (now : UInt64)
  | overloadBypass (now : UInt64)
  deriving DecidableEq

def Op.ids : Op → List UInt64
  | .commit copies _ _ => copies.map Prod.fst
  | _ => []

/-- A path goes or is bound. -/
def Op.onPath : Op → Bool
  | .detachPath _ => true
  | .bindPath _ _ => true
  | _ => false

namespace Tracker

def step (t : Tracker) : Op → Tracker
  | .commit copies now len => t.commit copies now len
  | .acked id => (t.onAcked id).1
  | .lost id => (t.onLost id).1
  | .detachPath path => t.detachPath path
  | .bindPath path xqcId => t.bindPath path xqcId
  | .setPathMetrics path minRtt estBw inflight => t.setPathMetrics path minRtt estBw inflight
  | .select usable now => (t.select usable now).2
  | .updateMode usable now => (t.updateMode usable now).1
  | .overloadBypass now => (t.overloadBypass now).1

/-- What a report is answered. -/
def answer (t : Tracker) : Op → Option ℤ
  | .acked id => some (t.onAcked id).2
  | .lost id => some (t.onLost id).2
  | _ => none

/-- The calls of a run, each with its answer. -/
def log (t : Tracker) : List Op → List (Op × Option ℤ)
  | [] => []
  | op :: ops => (op, t.answer op) :: log (t.step op) ops

end Tracker

end Mqvpn.Redundant
