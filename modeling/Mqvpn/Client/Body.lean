import Mqvpn.Client.Tunnel
import Mqvpn.Lane.Classifier
import Mqvpn.Lib.Framing

/-!
# The bytes of a response body

In `Client.Machine` a body delivery brings capsules.  Here it brings bytes: the handler
`cli_connect_ip_on_body` reads them in pieces, appends each piece to the capsule buffer of the
stream and takes complete capsules off its front.  When the delivery has no more bytes, the
handler decides whether to call the tunnel ready.

The decoder of xquic is a parameter; all that is assumed of it is in `Framing.Decoder`.  If the
buffer has no room, the handler returns an error and xquic closes the connection, so nothing more
is delivered.  Memory does not run out.  What the headers brought stays as it is during the body.

How the body is cut does not matter to the addresses that are recorded, as long as the buffer has
room and the tunnel is not given up.  It does matter to what the platform is told: the handler
does not wait for IPv6.

## Main definitions

* `processBytes`, `readBytes`, `BodyStream.deliver` — the handler, on bytes.
* `PlatformInfo` — all of `mqvpn_tunnel_info_t`.
* `assignedBy` — the addresses a body assigns.
* `HasRoom` — every read finds room behind what is left of the bytes before it.
* `Timely` — the client acts only when it knows all the addresses of the body.
* `capsuleFormat` — capsules with a type, a length and a payload are such a decoder.

## Main results

* `deliver_eq_callback`, `exec_deliver_eq_mainLogic` — a delivery of bytes is a delivery of
  capsules, and a body is a run of such callbacks.
* `split_independent` — **a way to deliver a body ends like a timely one exactly if it is timely**.
* `late_ipv6_not_told` — a body whose IPv6 address comes in a second delivery.
-/

namespace Mqvpn.Cli

open Endpoint (ClientState StreamId)
open Framing.Decoder List

/-! ### The handler -/

/-- `xqc_h3_ext_capsule_decode`, together with the readers of the payloads. -/
abbrev CapsuleDecoder := Framing.Decoder UInt8 Capsule

/-- `MAX_CAPSULE_BUF`. -/
def maxCapsuleBuf : ℕ := 65536

/-- One round of `process_capsules`; an invalid ROUTE_ADVERTISEMENT ends it. -/
def takeCapsule (conn : CliConn) : Capsule → Option CliConn
  | .addressAssign entries => some (Run.exec assignEntry conn entries)
  | .routeAdvertisement valid => if valid then some conn else none
  | .other => some conn

/-- `process_capsules`. -/
def processBytes (D : CapsuleDecoder) (buf : List UInt8) (conn : CliConn) : List UInt8 × CliConn :=
  D.consume takeCapsule buf conn

/-- The reads of a delivery, with `stream_append_capsules` and `process_capsules` after each. -/
def readBytes (D : CapsuleDecoder) (reads : List (List UInt8)) (buf : List UInt8)
    (conn : CliConn) : Bool × List UInt8 × CliConn :=
  D.feed takeCapsule maxCapsuleBuf reads buf conn

/-- The reads of a delivery as the capsules they complete. -/
def capsuleReads (D : CapsuleDecoder) :
    List (List UInt8) → List UInt8 → CliConn → List (Bool × List Capsule)
  | [], _, _ => []
  | read :: reads, buf, conn =>
      (decide (buf.length + read.length ≤ maxCapsuleBuf),
          (D.frames (buf ++ read)).drop (D.frames buf).length) ::
        capsuleReads D reads (processBytes D (buf ++ read) conn).1
          (processBytes D (buf ++ read) conn).2

/-- The end of `cli_connect_ip_on_body`: is the tunnel ready? -/
def Client.afterBody (c : Client) (now udpMss : ℕ) (results : List ActivateResult)
    (conn : CliConn) : Client :=
  if conn.tunnelNotified then c
  else
    let mtu := availableMtu conn udpMss
    let check := checkIpv6Mtu c.cfg conn mtu
    if !check.1 then { c with conn := some check.2.1 }.logTunnel conn.id check.2.2
    else
      match conn.assignedIp with
      | none => c
      | some ip =>
          if c.state ≠ .established ∧ c.state ≠ .tunnelReady then
            c.tunnelReady now conn ip (tunMtu c.cfg conn mtu) results
          else c

/-- A client and the capsule buffer of its request stream. -/
structure BodyStream where
  client : Client
  buf : List UInt8 := []
  /-- The handler returned an error. -/
  broken : Bool := false
  deriving DecidableEq

/-- A body delivery: the bytes of each read, and what is asked of xquic when the tunnel becomes
ready. -/
structure Delivery where
  now : ℕ
  reads : List (List UInt8)
  results : List ActivateResult := []
  deriving DecidableEq

/-- `cli_connect_ip_on_body`.  The record of the client has the capsules. -/
def BodyStream.deliver (D : CapsuleDecoder) (udpMss : ℕ) (b : BodyStream) (d : Delivery) :
    BodyStream :=
  match b.client.conn with
  | none => b
  | some k =>
      if b.broken || k.stream.isNone || k.closing then b
      else
        let r := readBytes D d.reads b.buf k
        let k' := { r.2.2 with stream := some (D.frames r.2.1) }
        let c := { b.client.logTunnel k.id
          [.body ((capsuleReads D d.reads b.buf k).flatMap Prod.snd)] with conn := some k' }
        { client := if r.1 then c.afterBody d.now udpMss d.results k' else c
          buf := r.2.1
          broken := !r.1 }

def bytes (ds : List Delivery) : List UInt8 := ds.flatMap fun d => d.reads.flatten

/-! ### What the platform is told -/

/-- `mqvpn_tunnel_info_t`. -/
structure PlatformInfo where
  assignedIp : List UInt8
  assignedPrefix : UInt8
  serverIp : List UInt8
  serverPrefix : UInt8
  mtu : ℤ
  assignedIp6 : List UInt8
  assignedPrefix6 : UInt8
  hasV6 : Bool
  hasServerScheduler : Bool
  serverScheduler : ℕ
  deriving DecidableEq

/-- The record that is handed over; `peerSched` is the scheduler that the server reported in its
headers. -/
def platformInfo (peerSched : Option ℕ) (info : TunnelInfo) : PlatformInfo where
  assignedIp := info.assignedIp.addr
  assignedPrefix := info.assignedIp.prefixLen
  serverIp := Lane.serverIp info.assignedIp
  serverPrefix := info.assignedIp.prefixLen
  mtu := info.mtu
  assignedIp6 := (info.assignedIp6.map Assigned.addr).getD (List.replicate 16 0)
  assignedPrefix6 := (info.assignedIp6.map Assigned.prefixLen).getD 0
  hasV6 := info.assignedIp6.isSome
  hasServerScheduler := peerSched.isSome
  serverScheduler := peerSched.getD 0

def TunnelEvent.info? : TunnelEvent → Option TunnelInfo
  | .ready info _ => some info
  | _ => none

/-- What was told of the tunnel of a connection, in order. -/
def Client.infos (c : Client) (id : ℕ) : List TunnelInfo :=
  (c.events id).filterMap TunnelEvent.info?

/-- The records that were handed over for a connection, in order. -/
def Client.platformInfos (peerSched : Option ℕ) (c : Client) (id : ℕ) : List PlatformInfo :=
  (c.infos id).map (platformInfo peerSched)

/-! ### The addresses of a body -/

structure Recorded where
  ip : Option Assigned := none
  ip6 : Option Assigned := none
  deriving DecidableEq

def CliConn.recorded (k : CliConn) : Recorded := ⟨k.assignedIp, k.assignedIp6⟩

def Client.recorded (c : Client) : Option Recorded := c.conn.map CliConn.recorded

/-- The first entry of each version counts. -/
def Recorded.assign (r : Recorded) (entry : ℕ × Assigned) : Recorded :=
  if entry.1 = 4 ∧ r.ip.isNone then { r with ip := some entry.2 }
  else if entry.1 = 6 ∧ r.ip6.isNone then { r with ip6 := some entry.2 }
  else r

def Recorded.take (r : Recorded) : Capsule → Option Recorded
  | .addressAssign entries => some (Run.exec Recorded.assign r entries)
  | .routeAdvertisement valid => if valid then some r else none
  | .other => some r

def assignedBy (D : CapsuleDecoder) (body : List UInt8) : Recorded :=
  (D.consume Recorded.take body {}).2

/-- What is left of the bytes of a body behind its capsules. -/
def leftover (D : CapsuleDecoder) (body : List UInt8) : List UInt8 :=
  (D.consume Recorded.take body {}).1

/-- The bytes of a body after a delivery. -/
def received (x : List UInt8) (d : Delivery) : List UInt8 := x ++ d.reads.flatten

/-- The reads that come after the bytes `x` find room. -/
def Fit (D : CapsuleDecoder) (x : List UInt8) (reads : List (List UInt8)) : Prop :=
  Run.Along (· ++ ·) (fun x read => (leftover D x).length + read.length ≤ maxCapsuleBuf) x reads

/-- Every read of a body finds room behind what is left of the bytes before it. -/
def HasRoom (D : CapsuleDecoder) (ds : List Delivery) : Prop :=
  Run.Along received (fun x d => Fit D x d.reads) [] ds

instance (D : CapsuleDecoder) (x : List UInt8) (reads : List (List UInt8)) :
    Decidable (Fit D x reads) := Run.decidableAlong _ _

instance (D : CapsuleDecoder) (ds : List Delivery) : Decidable (HasRoom D ds) :=
  Run.decidableAlong _ _

variable {D : CapsuleDecoder} {udpMss : ℕ} {c : Client} {k : CliConn} {b : BodyStream}

/-! ### Bytes and capsules -/

theorem recorded_assignEntry (k : CliConn) (entry : ℕ × Assigned) :
    (assignEntry k entry).recorded = k.recorded.assign entry := by
  dsimp only [assignEntry, Recorded.assign, CliConn.recorded]
  split_ifs <;> rfl

theorem recorded_assignEntries (entries : List (ℕ × Assigned)) : ∀ k : CliConn,
    (Run.exec assignEntry k entries).recorded = Run.exec Recorded.assign k.recorded entries := by
  induction entries with
  | nil => intro k; rfl
  | cons entry entries ih =>
    intro k
    rw [Run.exec_cons, Run.exec_cons, ih, recorded_assignEntry]

theorem take_recorded (k : CliConn) (capsule : Capsule) :
    k.recorded.take capsule = (takeCapsule k capsule).map CliConn.recorded := by
  cases capsule with
  | addressAssign entries => exact congrArg some (recorded_assignEntries entries k).symm
  | routeAdvertisement valid => cases valid <;> rfl
  | other => rfl

theorem takeCapsule_unaddressed {capsule : Capsule} {k' : CliConn}
    (h : takeCapsule k capsule = some k') : k'.unaddressed = k.unaddressed := by
  cases capsule with
  | addressAssign entries =>
    obtain rfl := Option.some.inj h
    exact (filled_assignEntries entries k).rest
  | routeAdvertisement valid =>
    cases valid with
    | false => cases h
    | true => obtain rfl := Option.some.inj h; rfl
  | other => obtain rfl := Option.some.inj h; rfl

/-- Nothing but the addresses is written. -/
theorem processBytes_unaddressed (D : CapsuleDecoder) (buf : List UInt8) (k : CliConn) :
    (processBytes D buf k).2.unaddressed = k.unaddressed :=
  consume_inv (P := fun k' => k'.unaddressed = k.unaddressed)
    (fun _ _ _ hstep hs => (takeCapsule_unaddressed hstep).trans hs) buf k rfl

/-- An address that is recorded stays. -/
structure Recorded.Le (r r' : Recorded) : Prop where
  ip : ∀ a, r.ip = some a → r'.ip = some a
  ip6 : ∀ a, r.ip6 = some a → r'.ip6 = some a

theorem Recorded.Le.refl (r : Recorded) : r.Le r := ⟨fun _ h => h, fun _ h => h⟩

theorem Recorded.Le.trans {r r' r'' : Recorded} (h : r.Le r') (h' : r'.Le r'') : r.Le r'' :=
  ⟨fun a ha => h'.ip a (h.ip a ha), fun a ha => h'.ip6 a (h.ip6 a ha)⟩

theorem Recorded.Le.antisymm {r r' : Recorded} (h : r.Le r') (h' : r'.Le r) : r = r' := by
  obtain ⟨ip, ip6⟩ := r
  obtain ⟨ip', ip6'⟩ := r'
  obtain rfl : ip = ip' := Option.ext fun a => ⟨h.ip a, h'.ip a⟩
  obtain rfl : ip6 = ip6' := Option.ext fun a => ⟨h.ip6 a, h'.ip6 a⟩
  rfl

/-- With an IPv4 address only an IPv6 address can be added. -/
theorem Recorded.Le.eq_of_ip {r r' : Recorded} (h : r.Le r') (hip : r.ip.isSome = true)
    (hip6 : r'.ip6.isSome = true → r.ip6.isSome = true) : r = r' := by
  obtain ⟨a, ha⟩ := Option.isSome_iff_exists.1 hip
  refine h.antisymm ⟨fun b hb => ?_, fun b hb => ?_⟩
  · rwa [ha, ← h.ip a ha]
  · obtain ⟨d, hd⟩ := Option.isSome_iff_exists.1 (hip6 (by rw [hb]; rfl))
    rwa [hd, ← h.ip6 d hd]

theorem Recorded.le_assign (r : Recorded) (entry : ℕ × Assigned) : r.Le (r.assign entry) := by
  have hset : ∀ {o : Option Assigned} {a : Assigned}, o.isNone = true → o ≠ some a := by
    rintro o a hnone rfl
    cases hnone
  unfold Recorded.assign
  split
  · next h => exact ⟨fun _ ha => absurd ha (hset h.2), fun _ ha => ha⟩
  split
  · next h => exact ⟨fun _ ha => ha, fun _ ha => absurd ha (hset h.2)⟩
  · exact .refl r

theorem Recorded.le_take {r r' : Recorded} {capsule : Capsule} (h : r.take capsule = some r') :
    r.Le r' := by
  cases capsule with
  | addressAssign entries =>
    obtain rfl := Option.some.inj h
    exact Run.exec_inv Recorded.assign (P := r.Le) (fun s e hs => hs.trans (s.le_assign e))
      entries r (.refl r)
  | routeAdvertisement valid =>
    cases valid with
    | false => cases h
    | true => obtain rfl := Option.some.inj h; exact .refl r
  | other => obtain rfl := Option.some.inj h; exact .refl r

theorem Recorded.le_consume (D : CapsuleDecoder) (buf : List UInt8) (r : Recorded) :
    r.Le (D.consume Recorded.take buf r).2 :=
  consume_inv (P := r.Le) (fun _ _ _ hstep hs => hs.trans (le_take hstep)) buf r
    (.refl r)

theorem assignedBy_le (x y : List UInt8) : (assignedBy D x).Le (assignedBy D (x ++ y)) := by
  rw [assignedBy, assignedBy, consume_append]
  exact Recorded.le_consume D _ _

/-! ### What is told -/

/-- The connection with these addresses and this buffer. -/
def CliConn.holding (k : CliConn) (r : Recorded) (stream : Option (List Capsule)) : CliConn :=
  { k with assignedIp := r.ip, assignedIp6 := r.ip6, stream := stream }

theorem CliConn.eq_holding {k' : CliConn} (h : k'.unaddressed = k.unaddressed)
    (stream : Option (List Capsule)) :
    { k' with stream := stream } = k.holding k'.recorded stream := by
  have hk' : { k' with stream := stream } =
      { k'.unaddressed with
        assignedIp := k'.assignedIp, assignedIp6 := k'.assignedIp6, stream := stream } := rfl
  rw [hk', h]
  rfl

/-- The MTU of the connection carries what was assigned. -/
def MtuFits (cfg : ClientConfig) (udpMss : ℕ) (k : CliConn) : Prop :=
  k.assignedIp6.isNone ∨ ipv6MinMtu ≤ reorderRoom cfg k (availableMtu k udpMss)

instance (cfg : ClientConfig) (udpMss : ℕ) (k : CliConn) : Decidable (MtuFits cfg udpMss k) :=
  inferInstanceAs (Decidable (_ ∨ _))

theorem checkIpv6Mtu_fst (cfg : ClientConfig) (udpMss : ℕ) (k : CliConn) :
    (checkIpv6Mtu cfg k (availableMtu k udpMss)).1 = decide (MtuFits cfg udpMss k) := by
  unfold checkIpv6Mtu
  split
  · next h => exact (decide_eq_true (p := MtuFits cfg udpMss k) h).symm
  · next h => exact (decide_eq_false (p := MtuFits cfg udpMss k) h).symm

/-- The connection whose MTU is too small. -/
def CliConn.givenUp (k : CliConn) : CliConn :=
  { k with
    tunnelOk := false, closing := true, tunnelNotified := true,
    notifiedReason := some .invalidArg }

theorem checkIpv6Mtu_snd {cfg : ClientConfig} (hnot : k.tunnelNotified = false)
    (hmtu : ¬ MtuFits cfg udpMss k) :
    (checkIpv6Mtu cfg k (availableMtu k udpMss)).2 = (k.givenUp, [.closed .invalidArg]) := by
  unfold MtuFits at hmtu
  unfold checkIpv6Mtu signalConnectFail
  rw [if_neg hmtu]
  simp only [hnot, Bool.false_eq_true, if_false]
  rfl

/-- What is told of a connection at the end of a delivery. -/
def verdict (c : Client) (udpMss : ℕ) (k : CliConn) : Option TunnelInfo :=
  if k.tunnelNotified = false ∧ MtuFits c.cfg udpMss k ∧ c.state ≠ .established ∧
      c.state ≠ .tunnelReady then
    k.assignedIp.map fun ip => tunnelInfo k ip (tunMtu c.cfg k (availableMtu k udpMss))
  else none

theorem verdict_eq_some {info : TunnelInfo} (h : verdict c udpMss k = some info) :
    MtuFits c.cfg udpMss k ∧ c.state ≠ .tunnelReady ∧ k.assignedIp.isSome = true ∧
      info.assignedIp6.isSome = k.assignedIp6.isSome := by
  unfold verdict at h
  split at h
  · next hguard =>
    obtain ⟨ip, hip, rfl⟩ := Option.map_eq_some_iff.1 h
    exact ⟨hguard.2.1, hguard.2.2.2, by rw [hip]; rfl, Option.isSome_map⟩
  · cases h

/-- The client does something at the end of a delivery: it calls the tunnel ready, or gives it up
for its MTU. -/
def Acts (c : Client) (udpMss : ℕ) (k : CliConn) : Prop :=
  k.tunnelNotified = false ∧ (¬MtuFits c.cfg udpMss k ∨
    k.assignedIp.isSome = true ∧ c.state ≠ .established ∧ c.state ≠ .tunnelReady)

instance (c : Client) (udpMss : ℕ) (k : CliConn) : Decidable (Acts c udpMss k) :=
  inferInstanceAs (Decidable (_ ∧ (¬_ ∨ _ ∧ _)))

theorem verdict_of_not_acts (h : ¬Acts c udpMss k) : verdict c udpMss k = none := by
  unfold verdict
  split
  · next hguard =>
    rw [Option.map_eq_none_iff, ← Option.not_isSome_iff_eq_none]
    exact fun hip => h ⟨hguard.1, .inr ⟨hip, hguard.2.2⟩⟩
  · rfl

/-- A client that acts and does not give up calls the tunnel ready. -/
theorem Acts.verdict (h : Acts c udpMss k) (hmtu : MtuFits c.cfg udpMss k) :
    ∃ info, verdict c udpMss k = some info := by
  obtain ⟨hip, hstate⟩ := h.2.resolve_left fun hnot => hnot hmtu
  obtain ⟨ip, hip⟩ := Option.isSome_iff_exists.1 hip
  unfold Cli.verdict
  rw [if_pos ⟨h.1, hmtu, hstate⟩, hip]
  exact ⟨_, rfl⟩

/-- After each delivery of a body, the client acts only on all the addresses of the body. -/
def Timely (D : CapsuleDecoder) (udpMss : ℕ) (c : Client) (k : CliConn) (ds : List Delivery) :
    Prop :=
  Run.Along received (fun x d => Acts c udpMss (k.holding (assignedBy D (received x d)) none) →
    assignedBy D (received x d) = assignedBy D (bytes ds)) [] ds

instance (D : CapsuleDecoder) (udpMss : ℕ) (c : Client) (k : CliConn) (ds : List Delivery) :
    Decidable (Timely D udpMss c k ds) := Run.decidableAlong _ _

/-- What the end of a delivery can do. -/
inductive Settles (c : Client) (udpMss : ℕ) (k : CliConn) (c' : Client) : Prop
  | quiet (heq : c' = c) (hnot : ¬Acts c udpMss k)
  | ready (info : TunnelInfo) (hverdict : verdict c udpMss k = some info)
      (hcfg : c'.cfg = c.cfg) (hstate : c'.state = .tunnelReady) (hconn : c'.conn = c.conn)
      (hinfos : c'.infos k.id = c.infos k.id ++ [info])
  | gaveUp (hnot : k.tunnelNotified = false) (hmtu : ¬MtuFits c.cfg udpMss k)
      (hconn : c'.conn = some k.givenUp)
      (hinfos : c'.infos k.id = c.infos k.id)

theorem infos_logTunnel (c : Client) (id : ℕ) (seen : List TunnelEvent) :
    (c.logTunnel id seen).infos id = c.infos id ++ seen.filterMap TunnelEvent.info? := by
  rw [Client.infos, events_logTunnel, if_pos rfl, filterMap_append]
  rfl

theorem settles_afterBody (now : ℕ) (results : List ActivateResult) (c : Client) (k : CliConn) :
    Settles c udpMss k (c.afterBody now udpMss results k) := by
  unfold Client.afterBody
  dsimp only
  split
  · next hnot =>
    exact .quiet rfl fun h => Bool.noConfusion (hnot.symm.trans h.1)
  next hnot =>
  rw [Bool.not_eq_true] at hnot
  split
  · next hcheck =>
    rw [checkIpv6Mtu_fst, Bool.not_eq_true', decide_eq_false_iff_not] at hcheck
    rw [checkIpv6Mtu_snd hnot hcheck]
    refine .gaveUp hnot hcheck rfl ?_
    rw [infos_logTunnel]
    exact append_nil _
  next hcheck =>
  rw [checkIpv6Mtu_fst, Bool.not_eq_true', Bool.not_eq_false, decide_eq_true_iff] at hcheck
  split
  · next hip =>
    refine .quiet rfl fun h => ?_
    obtain hnot | ⟨hsome, -⟩ := h.2
    · exact hnot hcheck
    · rw [hip] at hsome
      cases hsome
  next ip hip =>
  split
  · next hstate =>
    have hcore := core_tunnelReady c now k ip (tunMtu c.cfg k (availableMtu k udpMss)) results
    refine .ready (tunnelInfo k ip (tunMtu c.cfg k (availableMtu k udpMss))) ?_ ?_ ?_ ?_ ?_
    · unfold verdict
      rw [if_pos ⟨hnot, hcheck, hstate⟩, hip]
      rfl
    · rw [eq_of_view Client.cfg hcore]
      exact setState_cfg ..
    · rw [eq_of_view Client.state hcore]
      exact setState_state ..
    · rw [eq_of_view Client.conn hcore]
      exact setState_conn ..
    · have hsame : ({ setState now .tunnelReady c with reconnectAttempts := 0 } : Client).infos
          k.id = c.infos k.id := by
        show ((setState now .tunnelReady c).tunnelLog.filter _ |>.map Prod.snd).filterMap _ = _
        rw [setState_tunnelLog]
        rfl
      rw [eq_of_view (fun c => c.infos k.id) hcore, infos_logTunnel, hsame]
      rfl
  · next hstate =>
    exact .quiet rfl fun h => h.2.elim (fun hnot => hnot hcheck) fun hready => hstate hready.2

/-! ### A delivery -/

def BodyStream.read (D : CapsuleDecoder) (b : BodyStream) (k : CliConn) (d : Delivery) : Client :=
  { b.client.logTunnel k.id [.body ((capsuleReads D d.reads b.buf k).flatMap Prod.snd)] with
    conn := some { (readBytes D d.reads b.buf k).2.2 with
      stream := some (D.frames (readBytes D d.reads b.buf k).2.1) } }

section
variable (hc : b.client.conn = some k)
include hc

theorem deliver_of_open (hbroken : b.broken = false) (hstream : k.stream.isNone = false)
    (hopen : k.closing = false) (d : Delivery) :
    b.deliver D udpMss d =
      { client :=
          if (readBytes D d.reads b.buf k).1 then
            (b.read D k d).afterBody d.now udpMss d.results
              { (readBytes D d.reads b.buf k).2.2 with
                stream := some (D.frames (readBytes D d.reads b.buf k).2.1) }
          else b.read D k d
        buf := (readBytes D d.reads b.buf k).2.1
        broken := !(readBytes D d.reads b.buf k).1 } := by
  unfold BodyStream.deliver
  simp only [hc, hbroken, hstream, hopen, Bool.or_self, Bool.false_eq_true, if_false]
  rfl

theorem deliver_of_skip (hskip : (b.broken || k.stream.isNone || k.closing) = true)
    (d : Delivery) : b.deliver D udpMss d = b := by
  unfold BodyStream.deliver
  simp only [hc, hskip, if_true]

end

/-- Reads that have room leave the bytes behind all capsules, and record the addresses. -/
theorem readBytes_of_fit (reads : List (List UInt8)) :
    ∀ {x : List UInt8} {k : CliConn}, k.recorded = assignedBy D x → Fit D x reads →
      ∃ k', readBytes D reads (leftover D x) k = (true, leftover D (x ++ reads.flatten), k') ∧
        k'.recorded = assignedBy D (x ++ reads.flatten) ∧ k'.unaddressed = k.unaddressed := by
  induction reads with
  | nil =>
    intro x k hrec _
    rw [flatten_nil, append_nil]
    exact ⟨k, rfl, hrec, rfl⟩
  | cons read reads ih =>
    intro x k hrec hfit
    have hstep : D.consume Recorded.take (x ++ read) {} =
        ((processBytes D (leftover D x ++ read) k).1,
          (processBytes D (leftover D x ++ read) k).2.recorded) := by
      rw [consume_append, show (D.consume Recorded.take x {}).2 = k.recorded from hrec.symm]
      exact consume_map take_recorded _ k
    have hleft : leftover D (x ++ read) = _ := congrArg Prod.fst hstep
    obtain ⟨k', hread, hrec', hrest⟩ := ih (congrArg Prod.snd hstep).symm hfit.2
    rw [hleft] at hread
    rw [flatten_cons, ← append_assoc]
    refine ⟨k', ?_, hrec', hrest.trans (processBytes_unaddressed D _ _)⟩
    rw [readBytes, feed, if_pos hfit.1]
    exact hread

section
variable (D : CapsuleDecoder) (udpMss : ℕ) (c : Client) (k : CliConn) (r : Recorded)
  (x : List UInt8) (b : BodyStream)

/-- The stream of a connection that was `k` is open after the bytes `x`. -/
structure Streaming : Prop where
  buf : b.buf = leftover D x
  fine : b.broken = false
  cfg : b.client.cfg = c.cfg
  conn : ∃ cs, b.client.conn = some (k.holding (assignedBy D x) (some cs))

/-- A stream at which nothing was told yet. -/
structure Waiting : Prop extends Streaming D c k x b where
  state : b.client.state = c.state
  infos : b.client.infos k.id = c.infos k.id
  quiet : ¬Acts c udpMss (k.holding (assignedBy D x) none)

/-- A stream after the bytes `x` at which the client has acted on the addresses `r`: the tunnel
is ready, or the connection is closing for its MTU. -/
inductive Decided : Prop
  | ready (info : TunnelInfo) (hstream : Streaming D c k x b)
      (hstate : b.client.state = .tunnelReady)
      (hverdict : verdict c udpMss (k.holding r none) = some info) (hle : r.Le (assignedBy D x))
      (hinfos : b.client.infos k.id = c.infos k.id ++ [info])
  | closed (k' : CliConn) (hconn : b.client.conn = some k') (hclosing : k'.closing = true)
      (hfit : MtuFits c.cfg udpMss (k.holding r none) → ∀ y, assignedBy D (x ++ y) = k'.recorded)
      (hunfit : ¬MtuFits c.cfg udpMss (k.holding r none) → k'.recorded = r)
      (hinfos : b.client.infos k.id =
        c.infos k.id ++ (verdict c udpMss (k.holding r none)).toList)

/-- What a body `x` leaves behind, if the client acted on the addresses `r` first. -/
structure Outcome : Prop where
  recorded : b.client.recorded =
    some (if MtuFits c.cfg udpMss (k.holding r none) then assignedBy D x else r)
  infos : b.client.infos k.id = c.infos k.id ++ (verdict c udpMss (k.holding r none)).toList

/-- The addresses at the first delivery after which the client acts, or else those of the whole
body. -/
def decisive : List UInt8 → List Delivery → Recorded
  | x, [] => assignedBy D x
  | x, d :: ds =>
      if Acts c udpMss (k.holding (assignedBy D (received x d)) none) then
        assignedBy D (received x d)
      else decisive (received x d) ds

end

variable (udpMss) in
theorem Streaming.deliver {x : List UInt8} {d : Delivery} (h : Streaming D c k x b)
    (hopen : k.closing = false) (hfit : Fit D x d.reads) :
    ∃ cs c₁, (b.deliver D udpMss d).buf = leftover D (received x d) ∧
      (b.deliver D udpMss d).broken = false ∧ c₁.cfg = c.cfg ∧ c₁.state = b.client.state ∧
      c₁.conn = some (k.holding (assignedBy D (received x d)) (some cs)) ∧
      c₁.infos k.id = b.client.infos k.id ∧
      Settles c₁ udpMss (k.holding (assignedBy D (received x d)) (some cs))
        (b.deliver D udpMss d).client := by
  obtain ⟨cs, hconn⟩ := h.conn
  obtain ⟨k', hread, hrec, hrest⟩ :=
    readBytes_of_fit d.reads (k := k.holding (assignedBy D x) (some cs)) rfl hfit
  have hk' (stream : Option (List Capsule)) :
      { k' with stream := stream } = k.holding (assignedBy D (received x d)) stream := by
    rw [CliConn.eq_holding hrest, hrec]
    rfl
  rw [← h.buf] at hread
  have hdeliver : b.deliver D udpMss d = _ := deliver_of_open hconn h.fine rfl hopen d
  rw [hread] at hdeliver
  dsimp only at hdeliver
  rw [hk', if_pos rfl] at hdeliver
  rw [hdeliver]
  refine ⟨_, b.read D (k.holding (assignedBy D x) (some cs)) d, rfl, rfl, h.cfg, rfl, ?_, ?_,
    settles_afterBody ..⟩
  · refine congrArg some ?_
    rw [hread]
    exact hk' _
  · show (b.client.logTunnel k.id _).infos k.id = _
    rw [infos_logTunnel]
    exact append_nil _

section
variable {x : List UInt8} {r : Recorded} {d : Delivery} (hopen : k.closing = false)
  (hfit : Fit D x d.reads)
include hopen hfit

/-- The first delivery after which the client acts, or one after which it does not. -/
theorem Waiting.deliver (h : Waiting D udpMss c k x b) :
    if Acts c udpMss (k.holding (assignedBy D (received x d)) none) then
      Decided D udpMss c k (assignedBy D (received x d)) (received x d) (b.deliver D udpMss d)
    else Waiting D udpMss c k (received x d) (b.deliver D udpMss d) := by
  obtain ⟨cs, c₁, hbuf, hfine, hcfg₁, hstate₁, hconn₁, hinfos₁, hsettles⟩ :=
    h.toStreaming.deliver udpMss hopen hfit
  rw [h.state] at hstate₁
  rw [h.infos] at hinfos₁
  have hacts : Acts c₁ udpMss (k.holding (assignedBy D (received x d)) (some cs)) ↔
      Acts c udpMss (k.holding (assignedBy D (received x d)) none) := by
    unfold Acts
    rw [hcfg₁, hstate₁]
    exact Iff.rfl
  cases hsettles with
  | quiet heq hnot =>
    rw [hacts] at hnot
    rw [if_neg hnot]
    exact ⟨⟨hbuf, hfine, heq ▸ hcfg₁, cs, heq ▸ hconn₁⟩, heq ▸ hstate₁, heq ▸ hinfos₁, hnot⟩
  | ready info hverdict hcfg hstate hconn hinfos =>
    rw [verdict, hcfg₁, hstate₁] at hverdict
    rw [if_pos (not_not.1 fun hnot => by cases (verdict_of_not_acts hnot).symm.trans hverdict)]
    exact .ready info ⟨hbuf, hfine, hcfg.trans hcfg₁, cs, hconn.trans hconn₁⟩ hstate hverdict
      (.refl _) (hinfos₁ ▸ hinfos)
  | gaveUp hnot hmtu hconn hinfos =>
    rw [if_pos (hacts.1 ⟨hnot, .inl hmtu⟩)]
    rw [hcfg₁] at hmtu
    refine .closed _ hconn rfl (fun hfits => absurd hfits hmtu) (fun _ => rfl) ?_
    rw [verdict, if_neg fun h => hmtu h.2.1]
    exact hinfos.trans (hinfos₁.trans (append_nil _).symm)

/-- What the client acted on first stays decisive. -/
theorem Decided.deliver (h : Decided D udpMss c k r x b) :
    Decided D udpMss c k r (received x d) (b.deliver D udpMss d) := by
  cases h with
  | ready info hstream hstate hverdict hle hinfos =>
    obtain ⟨cs, c₁, hbuf, hfine, hcfg₁, hstate₁, hconn₁, hinfos₁, hsettles⟩ :=
      hstream.deliver udpMss hopen hfit
    obtain ⟨hfits, -, hip, -⟩ := verdict_eq_some hverdict
    have hle' := hle.trans (assignedBy_le x d.reads.flatten)
    cases hsettles with
    | quiet heq _ =>
      exact .ready info ⟨hbuf, hfine, heq ▸ hcfg₁, cs, heq ▸ hconn₁⟩ (heq ▸ hstate₁.trans hstate)
        hverdict hle' (heq ▸ hinfos₁.trans hinfos)
    | ready info' hverdict' =>
      exact absurd (hstate₁.trans hstate) (verdict_eq_some hverdict').2.1
    | gaveUp hnot hmtu hconn hinfos' =>
      refine .closed _ hconn rfl (fun _ y => ?_) (fun hunfit => absurd hfits hunfit) ?_
      · -- both addresses are there, so none is added
        obtain ⟨ip, hip⟩ := Option.isSome_iff_exists.1 hip
        refine ((assignedBy_le _ y).eq_of_ip (Option.isSome_of_mem (hle'.ip ip hip))
          fun _ => ?_).symm
        exact Option.isSome_iff_ne_none.2 fun hnone =>
          hmtu (.inl (Option.isNone_iff_eq_none.2 hnone))
      · rw [hverdict]
        exact hinfos'.trans (hinfos₁.trans hinfos)
  | closed k' hconn hclosing hfits hunfit hinfos =>
    rw [deliver_of_skip hconn (by rw [hclosing, Bool.or_true])]
    refine .closed k' hconn hclosing (fun h y => ?_) hunfit hinfos
    rw [received, append_assoc]
    exact hfits h _

end

/-- A connection whose response body has not begun. -/
structure Awaits (c : Client) (k : CliConn) : Prop where
  conn : c.conn = some k
  stream : k.stream = some []
  isOpen : k.closing = false
  ip : k.assignedIp = none
  ip6 : k.assignedIp6 = none

theorem Awaits.waiting (h : Awaits c k) : Waiting D udpMss c k [] { client := c } := by
  have hnone : D.consume Recorded.take [] {} = ([], {}) :=
    consume_of_none decode_nil
  have hrec : k.recorded = assignedBy D [] := by
    rw [assignedBy, hnone, CliConn.recorded, h.ip, h.ip6]
  have hk : k = k.holding (assignedBy D []) (some []) := by
    rw [← hrec, ← h.stream]
    rfl
  refine ⟨⟨(congrArg Prod.fst hnone).symm, rfl, rfl, [], h.conn.trans (congrArg some hk)⟩, rfl, rfl,
    ?_⟩
  rw [assignedBy, hnone]
  rintro ⟨-, hmtu | hip⟩
  · exact hmtu (.inl rfl)
  · cases hip.1

theorem Waiting.outcome {x : List UInt8} (h : Waiting D udpMss c k x b) :
    Outcome D udpMss c k (assignedBy D x) x b := by
  obtain ⟨cs, hconn⟩ := h.conn
  refine ⟨?_, ?_⟩
  · rw [Client.recorded, hconn, ite_self]
    rfl
  · rw [verdict_of_not_acts h.quiet, h.infos]
    exact (append_nil _).symm

theorem Decided.outcome {r : Recorded} {x : List UInt8} (h : Decided D udpMss c k r x b) :
    Outcome D udpMss c k r x b := by
  cases h with
  | ready info hstream hstate hverdict hle hinfos =>
    obtain ⟨cs, hconn⟩ := hstream.conn
    refine ⟨?_, by rw [hverdict]; exact hinfos⟩
    rw [Client.recorded, hconn, if_pos (verdict_eq_some hverdict).1]
    rfl
  | closed k' hconn hclosing hfits hunfit hinfos =>
    refine ⟨?_, hinfos⟩
    rw [Client.recorded, hconn]
    split
    · next h => exact congrArg some ((hfits h []).symm.trans (by rw [append_nil]))
    · next h => exact congrArg some (hunfit h)

theorem Decided.run {r : Recorded} (hopen : k.closing = false) :
    ∀ (ds : List Delivery) {x : List UInt8} {b : BodyStream}, Decided D udpMss c k r x b →
      Run.Along received (fun x d => Fit D x d.reads) x ds →
      Decided D udpMss c k r (Run.exec received x ds)
        (Run.exec (BodyStream.deliver D udpMss) b ds) := by
  intro ds
  induction ds with
  | nil => intro x b h _; exact h
  | cons d ds ih => intro x b h hroom; exact ih (h.deliver hopen hroom.1) hroom.2

theorem Waiting.run (hopen : k.closing = false) :
    ∀ (ds : List Delivery) {x : List UInt8} {b : BodyStream}, Waiting D udpMss c k x b →
      Run.Along received (fun x d => Fit D x d.reads) x ds →
      Outcome D udpMss c k (decisive D udpMss c k x ds) (Run.exec received x ds)
        (Run.exec (BodyStream.deliver D udpMss) b ds) := by
  intro ds
  induction ds with
  | nil => intro x b h _; exact h.outcome
  | cons d ds ih =>
    intro x b h hroom
    have hstep := h.deliver hopen hroom.1
    rw [decisive]
    split at hstep
    · next hacts =>
      rw [if_pos hacts]
      exact (hstep.run hopen ds hroom.2).outcome
    · next hacts =>
      rw [if_neg hacts]
      exact ih hstep hroom.2

theorem bytes_cons (x : List UInt8) (d : Delivery) (ds : List Delivery) :
    x ++ bytes (d :: ds) = received x d ++ bytes ds := (append_assoc ..).symm

theorem exec_received (ds : List Delivery) : ∀ x, Run.exec received x ds = x ++ bytes ds := by
  induction ds with
  | nil => intro x; exact (append_nil x).symm
  | cons d ds ih => intro x; rw [Run.exec_cons, ih, bytes_cons]

variable (udpMss) in
/-- **What a body leaves behind that has room**: all its addresses, unless it is given up before,
and what is told of a connection that has the decisive ones. -/
theorem exec_deliver (h : Awaits c k) {ds : List Delivery} (hds : HasRoom D ds) :
    Outcome D udpMss c k (decisive D udpMss c k [] ds) (bytes ds)
      (Run.exec (BodyStream.deliver D udpMss) { client := c } ds) := by
  have hwaiting : Waiting D udpMss c k [] { client := c } := h.waiting
  have hrun := hwaiting.run h.isOpen ds hds
  rwa [exec_received, nil_append] at hrun

variable (D udpMss c k) in
/-- The decisive addresses are those of a longer part of the body; the client acts on them, if they
are not all. -/
theorem decisive_spec (ds : List Delivery) : ∀ x : List UInt8,
    (assignedBy D x).Le (decisive D udpMss c k x ds) ∧
      (decisive D udpMss c k x ds).Le (assignedBy D (x ++ bytes ds)) ∧
      (decisive D udpMss c k x ds = assignedBy D (x ++ bytes ds) ∨
        Acts c udpMss (k.holding (decisive D udpMss c k x ds) none)) := by
  induction ds with
  | nil =>
    intro x
    rw [show x ++ bytes [] = x from append_nil x]
    exact ⟨.refl _, .refl _, .inl rfl⟩
  | cons d ds ih =>
    intro x
    rw [bytes_cons, decisive]
    split
    · next hacts => exact ⟨assignedBy_le _ _, assignedBy_le _ _, .inr hacts⟩
    · exact ⟨(assignedBy_le _ _).trans (ih _).1, (ih _).2⟩

/-- Along the deliveries that come after `x`: the client acts on all the addresses only, exactly
if these are decisive. -/
theorem along_timely_iff (ds : List Delivery) : ∀ x : List UInt8,
    Run.Along received (fun x' d => Acts c udpMss (k.holding (assignedBy D (received x' d)) none) →
        assignedBy D (received x' d) = assignedBy D (x ++ bytes ds)) x ds ↔
      decisive D udpMss c k x ds = assignedBy D (x ++ bytes ds) := by
  induction ds with
  | nil =>
    intro x
    exact iff_of_true trivial (congrArg (assignedBy D) (append_nil x).symm)
  | cons d ds ih =>
    intro x
    rw [bytes_cons, decisive]
    by_cases hacts : Acts c udpMss (k.holding (assignedBy D (received x d)) none)
    · rw [if_pos hacts]
      refine ⟨fun h => h.1 hacts, fun heq => ⟨fun _ => heq, (ih _).2 ?_⟩⟩
      -- between the addresses of this part and those of the whole body there are no others
      obtain ⟨hge, hle, -⟩ := decisive_spec D udpMss c k ds (received x d)
      exact hle.antisymm (heq ▸ hge)
    · rw [if_neg hacts, ← ih]
      exact ⟨fun h => h.2, fun h => ⟨fun hacts' => absurd hacts' hacts, h⟩⟩

/-- A body is timely exactly if all its addresses are decisive. -/
theorem timely_iff {ds : List Delivery} :
    Timely D udpMss c k ds ↔ decisive D udpMss c k [] ds = assignedBy D (bytes ds) :=
  along_timely_iff ds []

/-- **A way to deliver a body ends like a timely one exactly if it is timely.** -/
theorem split_independent (D : CapsuleDecoder) (udpMss : ℕ) (peerSched : Option ℕ)
    (h : Awaits c k) (ds es : List Delivery) (hbytes : bytes ds = bytes es)
    (hds : HasRoom D ds) (hes : HasRoom D es) (htimely : Timely D udpMss c k es) :
    let b := Run.exec (BodyStream.deliver D udpMss) { client := c } ds
    let b' := Run.exec (BodyStream.deliver D udpMss) { client := c } es
    (b.client.recorded = b'.client.recorded ∧
      b.client.platformInfos peerSched k.id = b'.client.platformInfos peerSched k.id) ↔
      Timely D udpMss c k ds := by
  intro b b'
  obtain ⟨hrec, hinfos⟩ := exec_deliver udpMss h hds
  obtain ⟨hrec', hinfos'⟩ := exec_deliver udpMss h hes
  obtain ⟨-, hle, hacts⟩ := decisive_spec D udpMss c k ds []
  rw [timely_iff.1 htimely, ← hbytes] at hrec' hinfos'
  rw [ite_self] at hrec'
  rw [nil_append] at hle hacts
  rw [timely_iff, hrec, hrec', Client.platformInfos, Client.platformInfos, hinfos, hinfos']
  generalize decisive D udpMss c k [] ds = r at hle hacts ⊢
  constructor
  · rintro ⟨hrec, hinfos⟩
    by_cases hmtu : MtuFits c.cfg udpMss (k.holding r none)
    · -- a tunnel that is called ready tells whether there is an IPv6 address
      refine hacts.elim id fun hacts => ?_
      obtain ⟨info, hverdict⟩ := hacts.verdict hmtu
      obtain ⟨-, -, hip, hip6⟩ := verdict_eq_some hverdict
      rw [hverdict, map_append, map_append, append_cancel_left_eq] at hinfos
      cases hall : verdict c udpMss (k.holding (assignedBy D (bytes ds)) none) with
      | none => rw [hall] at hinfos; cases hinfos
      | some info' =>
        obtain ⟨-, -, -, hip6'⟩ := verdict_eq_some hall
        rw [hall] at hinfos
        have hv6 : info.assignedIp6.isSome = info'.assignedIp6.isSome :=
          congrArg PlatformInfo.hasV6 (cons.inj hinfos).1
        exact hle.eq_of_ip hip fun hsome => hip6.symm.trans (hv6.trans (hip6'.trans hsome))
    · rw [if_neg hmtu] at hrec
      exact Option.some.inj hrec
  · intro heq
    rw [heq, ite_self]
    exact ⟨rfl, rfl⟩

/-! ### A format -/

/-- The entries of an ADDRESS_ASSIGN that parse: a request id, a version, an address and a
prefix each. -/
def addressEntries : ℕ → List UInt8 → List (ℕ × Assigned)
  | 0, _ => []
  | fuel + 1, payload =>
      match Varint.decode payload with
      | some (_, version :: rest) =>
          let len := if version = 4 then 4 else 16
          if (version = 4 ∨ version = 6) ∧ len < rest.length then
            (version.toNat, ⟨rest.take len, rest.getD len 0⟩) ::
              addressEntries fuel (rest.drop (len + 1))
          else []
      | _ => []

/-- A capsule of a type with a payload; `valid` is the check of a ROUTE_ADVERTISEMENT. -/
def toCapsule (valid : List UInt8 → Bool) (type : ℕ) (payload : List UInt8) : Capsule :=
  if type = 1 then .addressAssign (addressEntries payload.length payload)
  else if type = 3 then .routeAdvertisement (valid payload)
  else .other

/-- A type, a length and a payload of that length. -/
def capsuleDecode (valid : List UInt8 → Bool) (buf : List UInt8) : Option (Capsule × ℕ) :=
  match Varint.decode buf with
  | none => none
  | some (type, rest) =>
      match Varint.decode rest with
      | none => none
      | some (len, payload) =>
          if len ≤ payload.length then
            some (toCapsule valid type (payload.take len), buf.length - payload.length + len)
          else none

section
variable {valid : List UInt8 → Bool} {buf : List UInt8} {x : Capsule} {n : ℕ}
  (h : capsuleDecode valid buf = some (x, n))
include h

theorem capsuleDecode_eq_some : ∃ type rest len payload,
    Varint.decode buf = some (type, rest) ∧ Varint.decode rest = some (len, payload) ∧
    len ≤ payload.length ∧ x = toCapsule valid type (payload.take len) ∧
    n = buf.length - payload.length + len := by
  unfold capsuleDecode at h
  split at h
  · cases h
  next type rest htype =>
  split at h
  · cases h
  next len payload hlen =>
  split at h
  · next hle =>
    obtain ⟨rfl, rfl⟩ := Prod.mk.inj (Option.some.inj h)
    exact ⟨type, rest, len, payload, htype, hlen, hle, rfl, rfl⟩
  · cases h

theorem capsuleDecode_length : 0 < n ∧ n ≤ buf.length := by
  obtain ⟨type, rest, len, payload, htype, hlen, hle, -, rfl⟩ := capsuleDecode_eq_some h
  have hrest := Varint.length_lt_of_decode htype
  have hpayload := Varint.length_lt_of_decode hlen
  omega

end

/-- The format is a decoder as it is assumed. -/
def capsuleFormat (valid : List UInt8 → Bool) : CapsuleDecoder where
  decode := capsuleDecode valid
  pos h := (capsuleDecode_length h).1
  le h := (capsuleDecode_length h).2
  append := by
    intro buf x n more h
    obtain ⟨type, rest, len, payload, htype, hlen, hle, rfl, rfl⟩ := capsuleDecode_eq_some h
    have hroom : len ≤ payload.length + more.length := by omega
    unfold capsuleDecode
    simp only [Varint.decode_append htype, Varint.decode_append hlen, List.length_append,
      if_pos hroom, List.take_append_of_le_length hle, Nat.add_sub_add_right]

/-! ### Two deliveries -/

/-- An ADDRESS_ASSIGN of `10.0.0.2`. -/
def assign4 : List UInt8 := [1, 7, 0, 4, 10, 0, 0, 2, 32]

/-- An ADDRESS_ASSIGN of `fd00::2`. -/
def assign6 : List UInt8 := [1, 19, 0, 6, 0xfd, 0, 0, 0, 0, 0, 0, 0, 0, 0, 0, 0, 0, 0, 0, 2, 128]

def responded : Client :=
  (Client.new plainConfig).run
    [.addPath 1 (some plainOps) 0 [], .connect 2 goodStart,
      .socketRecv [.handshakeFinished 3 sentRequest, .headers [.status [50, 48, 48]]]]

theorem responded_awaits : ∃ k, Awaits responded k := by
  refine ⟨responded.conn.get (by decide +kernel), ?_⟩
  exact ⟨(Option.some_get _).symm, by decide +kernel, by decide +kernel, by decide +kernel,
    by decide +kernel⟩

/-- The client after deliveries of the body. -/
def delivered (ds : List Delivery) : Client :=
  (Run.exec (BodyStream.deliver (capsuleFormat fun _ => true) 1300)
    { client := responded } ds).client

/-- The body cut inside the first capsule. -/
def cutInside : List Delivery :=
  [⟨4, [assign4.take 5], []⟩, ⟨5, [assign4.drop 5, assign6], []⟩]

/-- The body at once, and so cut. -/
theorem split_independent_inside :
    ∃ k, Awaits responded k ∧ Timely (capsuleFormat fun _ => true) 1300 responded k cutInside ∧
      (delivered cutInside).platformInfos none k.id =
        (delivered [⟨4, [assign4 ++ assign6], []⟩]).platformInfos none k.id := by
  obtain ⟨k, hk⟩ := responded_awaits
  have hcut : ∀ k ∈ responded.conn, Timely (capsuleFormat fun _ => true) 1300 responded k
      cutInside := by decide +kernel
  have honce : ∀ k ∈ responded.conn, Timely (capsuleFormat fun _ => true) 1300 responded k
      [⟨4, [assign4 ++ assign6], []⟩] := by decide +kernel
  exact ⟨k, hk, hcut k hk.conn, ((split_independent _ 1300 none hk _ _ (by decide +kernel)
    (by decide +kernel) (by decide +kernel) (honce k hk.conn)).2 (hcut k hk.conn)).2⟩

/-- If the IPv6 address comes in a second delivery, it is recorded but not told. -/
theorem late_ipv6_not_told :
    let once := delivered [⟨4, [assign4 ++ assign6], []⟩]
    let twice := delivered [⟨4, [assign4], []⟩, ⟨5, [assign6], []⟩]
    once.recorded = twice.recorded ∧
      (once.platformInfos none 1).map PlatformInfo.hasV6 = [true] ∧
      (twice.platformInfos none 1).map PlatformInfo.hasV6 = [false] := by
  decide +kernel

end Mqvpn.Cli
