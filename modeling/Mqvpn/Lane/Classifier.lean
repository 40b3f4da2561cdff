import Mqvpn.Client.Machine
import Mqvpn.Egress.Target

/-!
# The lane of a packet, and what a client knows of the pool

`mqvpn_hybrid_classify` decides how a packet of the client travels: TCP may be taken over by
the TCP lane, UDP goes to the reorder engine, all else stays as it is.  TCP to an address of
the tunnel itself must not be taken over, since the server denies it (`Egress.aclDecide`).

A client is not told the pool of its server: it is assigned one address of each family, as a
single host.  It widens them to a `/24` and a `/112` and takes the `.1` of the `/24` for the
server.  Whether this fits depends on the base of the pool.

The prefix of an assignment is the byte of the capsule, as at every caller of the source.

## Main definitions

* `tunnelSubnetLearn`, `tunnelSubnetLearnV6` — the prefixes a client learns.
* `hybridClassify` — the lane of a packet.
* `serverIp`, `HybridConfig.learn` — what the client derives when its tunnel becomes ready.
* `KnowsPool` — a client has the right idea of the server and of another client.

## Main results

* `hybridClassify_eq_tcp_iff` — what is taken over.
* `decided_by_leading_bits` — **server and client decide on addresses by their leading bits.**
* `knowsPool_iff` — **every client has the right idea of every other exactly if the IPv4 base
  is a multiple of 256 and the twins of the offsets lie in one `/112`**.
-/

namespace Mqvpn.Lane

open List

open Reorder (Packet FlowKey parseL3l4 byteAt ipprotoTcp)
open Egress (CidrEntry cidrMatch cidrPremask padded addr4 value InetPton aclAllowed defaultDeny
  parseCidr resolve decimalFrom slash SameBits)
open Svr (In6Addr AddrPool)
open Cli (Assigned tunnelPrefix6Effective)

/-- `mqvpn_hybrid_lane_t`. -/
inductive HybridLane where
  | tcp
  | dgram
  | raw
  deriving DecidableEq

/-- `mqvpn_hybrid_tcp_mode_t`. -/
inductive HybridTcpMode where
  | stream
  | raw
  | auto
  deriving DecidableEq

/-- An entry that was never set. -/
def cidrUnset : CidrEntry := ⟨0, 0, In6Addr.zero⟩

/-- `mqvpn_hybrid_config_t`, as far as packets are classified by it. -/
structure HybridConfig where
  enabled : Bool
  tcpMode : HybridTcpMode
  /-- `client_tunnel_subnet[0]`. -/
  clientTunnelSubnet4 : CidrEntry := cidrUnset
  /-- `client_tunnel_subnet[1]`. -/
  clientTunnelSubnet6 : CidrEntry := cidrUnset
  deriving DecidableEq

/-- The learned prefix of a family. -/
def HybridConfig.clientTunnelSubnet (pol : HybridConfig) (ipVersion : UInt8) : CidrEntry :=
  if ipVersion = 6 then pol.clientTunnelSubnet6 else pol.clientTunnelSubnet4

/-! ### Learning -/

/-- `mqvpn_tunnel_subnet_learn`. -/
def tunnelSubnetLearn (ip : List UInt8) (assignedPrefix : UInt8) : CidrEntry :=
  if assignedPrefix ≤ 0 then cidrUnset
  else
    let plen := if assignedPrefix < 24 then assignedPrefix else 24
    ⟨4, plen, cidrPremask (padded (ip.take 4)) plen.toNat⟩

/-- `mqvpn_tunnel_subnet_learn_v6`. -/
def tunnelSubnetLearnV6 (ip6 : List UInt8) (assignedPrefix : UInt8) : CidrEntry :=
  if assignedPrefix ≤ 0 ∨ 128 < assignedPrefix then cidrUnset
  else
    let plen := tunnelPrefix6Effective assignedPrefix
    ⟨6, plen, cidrPremask (padded ip6) plen.toNat⟩

/-- What `cli_connect_ip_on_body` learns when the tunnel becomes ready: the IPv6 entry is only
written if there is an IPv6 assignment by then. -/
def HybridConfig.learn (pol : HybridConfig) (ip : Assigned) (ip6 : Option Assigned) :
    HybridConfig :=
  { pol with
    clientTunnelSubnet4 := tunnelSubnetLearn ip.addr ip.prefixLen
    clientTunnelSubnet6 :=
      match ip6 with
      | none => pol.clientTunnelSubnet6
      | some ip6 => tunnelSubnetLearnV6 ip6.addr ip6.prefixLen }

/-- `info.server_ip`: the server is taken to be `.1`. -/
def serverIp (ip : Assigned) : List UInt8 := ip.addr.take 3 ++ [1]

/-! ### Classifying -/

/-- `is_v4mapped`. -/
def isV4mapped (addr : List UInt8) : Bool :=
  (List.range 10).all (fun i => addr.getD i 0 == 0) && addr.getD 10 0 == 0xff &&
    addr.getD 11 0 == 0xff

/-- `is_v6_multicast`. -/
def isV6Multicast (addr : List UInt8) : Bool := addr.getD 0 0 == 0xff

/-- `is_unspecified`. -/
def isUnspecified (addr : List UInt8) : Bool := (List.range 16).all fun i => addr.getD i 0 == 0

/-- The addresses lwIP would not accept, `v6_lane_ineligible`; an unspecified destination is
not among them. -/
def v6LaneIneligible (key : FlowKey) : Bool :=
  isV4mapped key.dstIp || isV4mapped key.srcIp || isV6Multicast key.srcIp ||
    isV6Multicast key.dstIp || isUnspecified key.srcIp

/-- `mqvpn_hybrid_classify`.  TCP behind an IPv6 extension header is not taken over. -/
def hybridClassify (pkt : Packet) (pol : Option HybridConfig) : HybridLane :=
  match parseL3l4 pkt with
  | .udp _ => .dgram
  | .tcp key =>
      match pol with
      | none => .raw
      | some pol =>
          if !pol.enabled || pol.tcpMode = .raw then .raw
          else if key.ipVersion = 6 ∧ byteAt pkt 6 ≠ ipprotoTcp then .raw
          else if key.ipVersion = 6 ∧ v6LaneIneligible key then .raw
          else if cidrMatch (pol.clientTunnelSubnet key.ipVersion) key.ipVersion
              (padded key.dstIp) then .raw
          else .tcp
  | .fragment | .other | .malformed => .raw

/-- **What the TCP lane takes over**: nothing while the lane is off, and nothing whose
destination is in the learned prefix of its family. -/
theorem hybridClassify_eq_tcp_iff (pkt : Packet) (pol : Option HybridConfig) :
    hybridClassify pkt pol = .tcp ↔
      ∃ key p, parseL3l4 pkt = .tcp key ∧ pol = some p ∧ p.enabled = true ∧ p.tcpMode ≠ .raw ∧
        (key.ipVersion = 6 → byteAt pkt 6 = ipprotoTcp ∧ v6LaneIneligible key = false) ∧
        cidrMatch (p.clientTunnelSubnet key.ipVersion) key.ipVersion (padded key.dstIp) =
          false := by
  cases hparse : parseL3l4 pkt with
  | tcp key =>
    cases pol with
    | none => simp [hybridClassify, hparse]
    | some p =>
      simp only [hybridClassify, hparse]
      constructor
      · intro h
        split at h
        · cases h
        · next hoff =>
          split at h
          · cases h
          · next hnext =>
            split at h
            · cases h
            · next hbad =>
              split at h
              · cases h
              · next hmatch => simp_all
      · rintro ⟨key', p', hkey, hp, hon, hmode, hsix, hmatch⟩
        cases hkey
        cases hp
        rw [if_neg (by simp [hon, hmode]), if_neg (fun h => h.2 (hsix h.1).1),
          if_neg (fun h => by rw [(hsix h.1).2] at h; cases h.2), if_neg (by simp [hmatch])]
  | udp | fragment | other | malformed => simp [hybridClassify, hparse]

/-- **Addresses are decided by their leading bits.**  An entry matches what has its family and its
first bits, and a rule that is read is the prefix written in it, whatever host bits its address
carries; the server lets through and the client takes over by nothing else. -/
theorem decided_by_leading_bits (pton : InetPton) :
    (∀ e family x, cidrMatch e family x = true ↔ e.Contains family x) ∧
    (∀ s e, parseCidr pton s = some e →
      ∃ host digits a, s = host ++ slash :: digits ∧ slash ∉ host ∧
        resolve pton host = some (e.family, a) ∧ decimalFrom 0 digits = e.prefixLen.toNat ∧
        ∀ family x, e.Contains family x ↔ family = e.family ∧ SameBits e.prefixLen.toNat x a) ∧
    (∀ policy host, aclAllowed pton policy host = true ↔
      ∃ family x, resolve pton host = some (family, x) ∧
        ¬ (if family = 6 then policy.tunnel6 else policy.tunnel4).Contains family x ∧
        ((∃ e ∈ policy.allow, e.Contains family x) ∨
          (∀ e ∈ defaultDeny family, ¬ e.Contains family x) ∧
            ∀ e ∈ policy.deny, ¬ e.Contains family x)) ∧
    ∀ pkt pol, hybridClassify pkt pol = .tcp ↔
      ∃ key p, parseL3l4 pkt = .tcp key ∧ pol = some p ∧ p.enabled = true ∧ p.tcpMode ≠ .raw ∧
        (key.ipVersion = 6 → byteAt pkt 6 = ipprotoTcp ∧ v6LaneIneligible key = false) ∧
        ¬ (p.clientTunnelSubnet key.ipVersion).Contains key.ipVersion (padded key.dstIp) := by
  refine ⟨fun _ _ _ => Egress.cidrMatch_iff_contains, fun s e h => Egress.parseCidr_contains h,
    fun policy host => ?_, fun pkt pol => ?_⟩
  · simp only [← Egress.cidrMatch_iff_contains, Bool.not_eq_true]
    rw [aclAllowed]
    cases resolve pton host with
    | none => simp
    | some target =>
      simp only [Egress.EgressPolicy.allows, Egress.aclDecide_iff, Option.some.injEq]
      exact ⟨fun h => ⟨_, _, rfl, h⟩, fun ⟨_, _, heq, h⟩ => heq ▸ h⟩
  · simp only [← Egress.cidrMatch_iff_contains, Bool.not_eq_true]
    exact hybridClassify_eq_tcp_iff pkt pol

/-- `10.1.2.3/8` is the prefix `10`. -/
theorem decided_by_leading_bits_host :
    let pton : InetPton := ⟨fun _ => some 0x0a010203, fun _ => none⟩
    ∃ e, parseCidr pton [0x31, 0x30, 0x2e, 0x31, 0x2e, 0x32, 0x2e, 0x33, 0x2f, 0x38] = some e ∧
      ∃ a, ∀ family x, e.Contains family x ↔ family = 4 ∧ SameBits 8 x a := by
  intro pton
  have hread : parseCidr pton [0x31, 0x30, 0x2e, 0x31, 0x2e, 0x32, 0x2e, 0x33, 0x2f, 0x38] =
      some ⟨4, 8, padded [10]⟩ := by decide +kernel
  obtain ⟨_, _, a, -, -, -, -, h⟩ := (decided_by_leading_bits pton).2.1 _ _ hread
  exact ⟨_, hread, a, h⟩

/-- TCP to an address in the learned prefix of its family stays as it is. -/
theorem hybridClassify_of_match {pkt : Packet} {key : FlowKey} {pol : HybridConfig}
    (hparse : parseL3l4 pkt = .tcp key)
    (hmatch : cidrMatch (pol.clientTunnelSubnet key.ipVersion) key.ipVersion
      (padded key.dstIp) = true) :
    hybridClassify pkt (some pol) = .raw := by
  cases hlane : hybridClassify pkt (some pol) with
  | raw => rfl
  | tcp =>
    obtain ⟨key', p, hkey, hp, -, -, -, hmiss⟩ := (hybridClassify_eq_tcp_iff pkt _).mp hlane
    rw [hparse] at hkey
    cases hkey
    cases hp
    rw [hmatch] at hmiss
    cases hmiss
  | dgram =>
    rw [hybridClassify, hparse] at hlane
    simp only at hlane
    split_ifs at hlane

/-! ### What the server assigns -/

/-- The IPv4 address of an ADDRESS_ASSIGN: a single host. -/
def assignment4 (a : UInt32) : Assigned := ⟨Varint.bigEndian 4 a.toNat, 32⟩

def twin (pool : AddrPool) (a : UInt32) : In6Addr := pool.get6 (a - pool.base)

/-- The IPv6 address of an ADDRESS_ASSIGN: a single host, if the pool has any. -/
def assignment6 (pool : AddrPool) (a : UInt32) : Option Assigned :=
  if pool.hasV6 then some ⟨(twin pool a).bytes, 128⟩ else none

/-- The addresses at which a client reaches the client of `b` and the server, each with its
family. -/
def tunnelPeers (pool : AddrPool) (b : UInt32) : List (UInt8 × In6Addr) :=
  [(4, addr4 b), (4, addr4 pool.serverAddr)] ++
    if pool.hasV6 then [(6, twin pool b), (6, pool.serverAddr6)] else []

/-- The client of `a` has the right idea of the server and of the client of `b`, if `ip6` is the
IPv6 assignment it has when the tunnel becomes ready. -/
structure KnowsPool (pool : AddrPool) (pol : HybridConfig) (a : UInt32) (ip6 : Option Assigned)
    (b : UInt32) : Prop where
  server : serverIp (assignment4 a) = Varint.bigEndian 4 pool.serverAddr.toNat
  subnet : ∀ peer ∈ tunnelPeers pool b,
    cidrMatch ((pol.learn (assignment4 a) ip6).clientTunnelSubnet peer.1) peer.1 peer.2 = true
  lane : ∀ peer ∈ tunnelPeers pool b, ∀ pkt key, parseL3l4 pkt = .tcp key →
    key.ipVersion = peer.1 → key.dstIp = peer.2.bytes →
    hybridClassify pkt (some (pol.learn (assignment4 a) ip6)) = .raw

/-! ### The learned prefixes -/

theorem padded_bytes (addr : In6Addr) : padded addr.bytes = addr := by
  obtain ⟨bytes, hsize⟩ := addr
  simp only [padded, Svr.In6Addr.mk.injEq]
  rw [take_of_length_le (by omega), hsize, Nat.sub_self, replicate_zero,
    append_nil]

/-- The prefix learned from a single IPv4 host is its `/24`. -/
theorem match_learn4_iff (a b : UInt32) :
    cidrMatch (tunnelSubnetLearn (assignment4 a).addr (assignment4 a).prefixLen) 4 (addr4 b) =
        true ↔
      b.toNat / 256 = a.toNat / 256 := by
  have hlearn : tunnelSubnetLearn (assignment4 a).addr (assignment4 a).prefixLen =
      ⟨4, UInt8.ofNat 24, cidrPremask (addr4 a) (UInt8.ofNat 24).toNat⟩ := by
    change (⟨4, 24, cidrPremask (padded ((Varint.bigEndian 4 a.toNat).take 4)) 24⟩ : CidrEntry) = _
    rw [take_of_length_le (Varint.length_bigEndian 4 a.toNat).le]
    rfl
  have hquot (c : UInt32) : value (addr4 c) / 2 ^ (128 - 24) = c.toNat / 256 := by
    rw [Egress.value_addr4, show (2 : ℕ) ^ (128 - 24) = 2 ^ 96 * 256 by norm_num,
      ← Nat.div_div_eq_div_mul, Nat.mul_div_cancel _ (by positivity)]
  rw [hlearn, Egress.cidrMatch_premask_iff 4 (by decide) 24 (by decide), hquot, hquot]

/-- The prefix learned from a single IPv6 host is its `/112`. -/
theorem match_learn6_iff (addr dst : In6Addr) :
    cidrMatch (tunnelSubnetLearnV6 addr.bytes 128) 6 dst = true ↔
      value dst / 65536 = value addr / 65536 := by
  have hlearn : tunnelSubnetLearnV6 addr.bytes 128 =
      ⟨6, UInt8.ofNat 112, cidrPremask addr (UInt8.ofNat 112).toNat⟩ := by
    change (⟨6, 112, cidrPremask (padded addr.bytes) 112⟩ : CidrEntry) = _
    rw [padded_bytes]
    rfl
  rw [hlearn, Egress.cidrMatch_premask_iff 6 (by decide) 112 (by decide),
    show (2 : ℕ) ^ (128 - 112) = 65536 by norm_num]

/-- The `.1` of an address. -/
theorem serverIp_eq_iff (a s : UInt32) :
    serverIp (assignment4 a) = Varint.bigEndian 4 s.toNat ↔
      s.toNat = a.toNat / 256 * 256 + 1 := by
  have hthree : (Varint.bigEndian 4 a.toNat).take 3 = Varint.bigEndian 3 (a.toNat / 256) :=
    take_left' (Varint.length_bigEndian 3 _)
  have hlt := a.toNat_lt
  have hval : Varint.ofBytes (serverIp (assignment4 a)) = a.toNat / 256 * 256 + 1 := by
    rw [serverIp, assignment4, hthree, BitPrefix.ofBytes_append, Varint.ofBytes_bigEndian,
      Nat.mod_eq_of_lt (by omega)]
    rfl
  have hs : Varint.ofBytes (Varint.bigEndian 4 s.toNat) = s.toNat := by
    rw [Varint.ofBytes_bigEndian]
    exact Nat.mod_eq_of_lt s.toNat_lt
  constructor
  · intro h
    rw [← hs, ← h, hval]
  · intro h
    refine Varint.ofBytes_inj ?_ (by rw [hval, hs, h])
    rw [serverIp, assignment4, hthree, length_append, Varint.length_bigEndian,
      Varint.length_bigEndian]
    rfl

/-! ### Every client of a pool -/

section
variable {base : UInt32} {prefixLen : ℕ} {subnet6 : Option (In6Addr × ℕ)} {pool : AddrPool}

theorem twin_addr (pool : AddrPool) (off : ℕ) :
    twin pool (pool.addr off) = pool.get6 (UInt32.ofNat off) := by
  rw [twin, show pool.addr off - pool.base = UInt32.ofNat off by
    rw [AddrPool.addr, UInt32.add_comm, UInt32.add_sub_cancel]]

/-- The twins of the offsets from the server's on lie in one `/112`. -/
def TwinsTogether (pool : AddrPool) : Prop :=
  (pool.base6.low.toNat + 1) % 65536 + (pool.poolSize - 1) < 65536

/-- Twins are in one `/112` if their numbers are, which are those of the low bits. -/
theorem value_twin_div (h : pool.WF) {off : ℕ} (hoff : off ≤ pool.poolSize) :
    value (pool.get6 (UInt32.ofNat off)) / 65536 =
      Varint.ofBytes (pool.base6.bytes.take 12) * 65536 + (pool.base6.low.toNat + off) / 65536 := by
  rw [Egress.value_get6 h hoff, Egress.value_eq]
  omega

/-- All of them: the lowest and the highest decide. -/
theorem twinsTogether_iff (h : pool.WF) (hsize : 2 ≤ pool.poolSize) :
    TwinsTogether pool ↔
      ∀ off off', 1 ≤ off → off ≤ pool.poolSize → 1 ≤ off' → off' ≤ pool.poolSize →
        value (pool.get6 (UInt32.ofNat off')) / 65536 =
          value (pool.get6 (UInt32.ofNat off)) / 65536 := by
  have hroom := Egress.add_div_eq_iff (pool.base6.low.toNat + 1) (pool.poolSize - 1) 65536
    (by decide)
  unfold TwinsTogether
  constructor
  · intro htog off off' hlo hhi hlo' hhi'
    have hends := hroom.mpr htog
    rw [value_twin_div h hhi, value_twin_div h hhi']
    omega
  · intro hall
    have hends := hall 1 pool.poolSize le_rfl (by omega) (by omega) le_rfl
    rw [value_twin_div h le_rfl, value_twin_div h (show 1 ≤ pool.poolSize by omega)] at hends
    exact hroom.mp (by omega)

/-- If the base is a multiple of 256, all offsets are in the `/24` of the base. -/
theorem addr_div_of_aligned (h : pool.WF) (haligned : pool.base.toNat % 256 = 0) {off : ℕ}
    (hoff : off ≤ pool.poolSize) : (pool.addr off).toNat / 256 = pool.base.toNat / 256 := by
  have hmax : pool.poolSize ≤ 254 := h.size
  rw [h.toNat_addr hoff]
  omega

/-- The peers of a client lie in what it has learned. -/
theorem subnet_of_aligned (h : pool.WF) (hsize : 2 ≤ pool.poolSize)
    (haligned : pool.base.toNat % 256 = 0) (htwins : pool.hasV6 = true → TwinsTogether pool)
    (pol : HybridConfig) {off off' : ℕ} (hlo : 2 ≤ off) (hhi : off ≤ pool.poolSize)
    (hlo' : 2 ≤ off') (hhi' : off' ≤ pool.poolSize) :
    ∀ peer ∈ tunnelPeers pool (pool.addr off'),
      cidrMatch ((pol.learn (assignment4 (pool.addr off))
        (assignment6 pool (pool.addr off))).clientTunnelSubnet peer.1) peer.1 peer.2 = true := by
  have hfour (k : ℕ) (hk : k ≤ pool.poolSize) :
      cidrMatch ((pol.learn (assignment4 (pool.addr off))
        (assignment6 pool (pool.addr off))).clientTunnelSubnet 4) 4 (addr4 (pool.addr k)) =
          true :=
    (match_learn4_iff _ _).mpr (by
      rw [addr_div_of_aligned h haligned hk, addr_div_of_aligned h haligned hhi])
  have hsix (hv6 : pool.hasV6 = true) (k : ℕ) (hpos : 1 ≤ k) (hk : k ≤ pool.poolSize) :
      cidrMatch ((pol.learn (assignment4 (pool.addr off))
        (assignment6 pool (pool.addr off))).clientTunnelSubnet 6) 6
          (pool.get6 (UInt32.ofNat k)) = true := by
    rw [assignment6, if_pos hv6, twin_addr]
    exact (match_learn6_iff _ _).mpr
      ((twinsTogether_iff h hsize).mp (htwins hv6) off k (by omega) hhi hpos hk)
  intro peer hpeer
  rw [tunnelPeers, mem_append] at hpeer
  rcases hpeer with hpeer | hpeer
  · simp only [mem_cons, not_mem_nil, or_false] at hpeer
    rcases hpeer with rfl | rfl
    · exact hfour off' hhi'
    · exact hfour 1 (by omega)
  · split at hpeer
    · next hv6 =>
      simp only [mem_cons, not_mem_nil, or_false] at hpeer
      rcases hpeer with rfl | rfl
      · rw [twin_addr]
        exact hsix hv6 off' (by omega) hhi'
      · exact hsix hv6 1 le_rfl (by omega)
    · cases hpeer

/-- **Every client has the right idea of the server and of every other client exactly if the
IPv4 base is a multiple of 256 and the twins lie in one `/112`**, where both assignments are there
when the tunnel becomes ready.  Neither is checked when the pool is made; the second one follows if
the IPv6 prefix has at least 112 bits.  If the IPv6 assignment comes later, no client has it. -/
theorem knowsPool_iff (hcreate : AddrPool.create base prefixLen subnet6 = some pool) :
    ((∀ a b pol ip6, pool.HandsOut a → pool.HandsOut b → ip6 = assignment6 pool a →
        KnowsPool pool pol a ip6 b) ↔
      base.toNat % 256 = 0 ∧ (pool.hasV6 = true → TwinsTogether pool)) ∧
    (pool.hasV6 = true → ∀ a b pol, pol.clientTunnelSubnet6 = cidrUnset →
      ¬ KnowsPool pool pol a none b) := by
  obtain ⟨hwf, -⟩ := AddrPool.create_spec hcreate
  obtain ⟨hbase, -, -, -, htwo, -⟩ := AddrPool.create_fields hcreate
  have hout (off : ℕ) (hlo : 2 ≤ off) (hhi : off ≤ pool.poolSize) :
      pool.HandsOut (pool.addr off) :=
    (AddrPool.handsOut_iff hcreate _).mpr ⟨off, hlo, hhi, rfl⟩
  have hserver : pool.serverAddr.toNat = base.toNat + 1 := by
    rw [← hbase]
    exact hwf.toNat_addr (show 1 ≤ pool.poolSize by omega)
  rw [← hbase] at hserver ⊢
  refine ⟨⟨?_, ?_⟩, fun hv6 a b pol hunset hknows => ?late⟩
  case late =>
    have hmem : (6, twin pool b) ∈ tunnelPeers pool b := by simp [tunnelPeers, hv6]
    have hmatch := hknows.subnet _ hmem
    rw [HybridConfig.clientTunnelSubnet, if_pos rfl, HybridConfig.learn, hunset] at hmatch
    cases hmatch
  · intro hall
    refine ⟨?_, fun hv6 => (twinsTogether_iff hwf htwo).mpr fun off off' hlo hhi hlo' hhi' => ?_⟩
    · -- the first client takes the `.1` of its own `/24` for the server
      have hknows := hall (pool.addr 2) (pool.addr 2) ⟨true, .stream, cidrUnset, cidrUnset⟩ _
        (hout 2 le_rfl htwo) (hout 2 le_rfl htwo) rfl
      have hone := (serverIp_eq_iff _ _).mp hknows.server
      rw [hwf.toNat_addr htwo, hserver] at hone
      omega
    · -- each twin is in the prefix of the last client, the server's among them
      have hlast (k : ℕ) (hpos : 1 ≤ k) (hk : k ≤ pool.poolSize) :
          value (pool.get6 (UInt32.ofNat k)) / 65536 =
            value (pool.get6 (UInt32.ofNat pool.poolSize)) / 65536 := by
        have hmem : (6, pool.get6 (UInt32.ofNat k)) ∈
            tunnelPeers pool (pool.addr (max k 2)) := by
          rw [tunnelPeers, if_pos hv6, twin_addr]
          rcases Nat.lt_or_ge k 2 with hk1 | hk2
          · obtain rfl : k = 1 := by omega
            exact mem_append_right _ (mem_cons_of_mem _ (mem_cons_self ..))
          · rw [max_eq_left hk2]
            exact mem_append_right _ (mem_cons_self ..)
        have hmatch := (hall (pool.addr pool.poolSize) (pool.addr (max k 2))
          ⟨true, .stream, cidrUnset, cidrUnset⟩ _ (hout _ htwo le_rfl)
          (hout _ (by omega) (by omega)) rfl).subnet _ hmem
        rw [assignment6, if_pos hv6, twin_addr] at hmatch
        exact (match_learn6_iff _ _).mp hmatch
      rw [hlast off' hlo' hhi', hlast off hlo hhi]
  · rintro ⟨haligned, htwins⟩ a b pol _ ha hb rfl
    obtain ⟨off, hlo, hhi, rfl⟩ := (AddrPool.handsOut_iff hcreate a).mp ha
    obtain ⟨off', hlo', hhi', rfl⟩ := (AddrPool.handsOut_iff hcreate b).mp hb
    have hsub := subnet_of_aligned hwf htwo haligned htwins pol hlo hhi hlo' hhi'
    refine ⟨?_, hsub, fun peer hpeer pkt key hparse hfam hdst => ?_⟩
    · rw [serverIp_eq_iff, addr_div_of_aligned hwf haligned hhi, hserver]
      omega
    · refine hybridClassify_of_match hparse ?_
      rw [hfam, hdst, padded_bytes]
      exact hsub peer hpeer

end

/-- `10.0.0.0/24` with the twins of `::/112`. -/
theorem knowsPool_aligned :
    ∃ pool, AddrPool.create 0x0a000000 24 (some (In6Addr.zero, 112)) = some pool ∧
      ∀ a b pol ip6, pool.HandsOut a → pool.HandsOut b → ip6 = assignment6 pool a →
        KnowsPool pool pol a ip6 b := by
  have hcreate : AddrPool.create 0x0a000000 24 (some (In6Addr.zero, 112)) =
      some ⟨0x0a000000, 24, 254, 2, replicate 255 false, In6Addr.zero, 112, true⟩ := by
    decide +kernel
  exact ⟨_, hcreate, (knowsPool_iff hcreate).1.mpr
    ⟨by decide, fun _ => by unfold TwinsTogether; decide⟩⟩

/-- A TCP segment from `10.0.0.202` to `10.0.1.0`. -/
def segmentToPeer : Packet :=
  [0x45, 0, 0, 40, 0, 0, 0, 0, 64, 6, 0, 0, 10, 0, 0, 202, 10, 0, 1, 0] ++
    [0x30, 0x39, 0, 80, 0, 0, 0, 0, 0, 0, 0, 0, 0x50, 2, 0, 0, 0, 0, 0, 0]

/-- `10.0.0.200/24` is accepted.  The client of `10.0.0.202` takes `10.0.0.1` for the server,
which is `10.0.0.201`, and hands TCP to the client of `10.0.1.0` to the TCP lane. -/
theorem unaligned_client_astray :
    ∃ pool, AddrPool.create 0x0a0000c8 24 none = some pool ∧
      pool.HandsOut 0x0a0000ca ∧ pool.HandsOut 0x0a000100 ∧
      serverIp (assignment4 0x0a0000ca) = [10, 0, 0, 1] ∧
      Varint.bigEndian 4 pool.serverAddr.toNat = [10, 0, 0, 201] ∧
      hybridClassify segmentToPeer
        (some ((HybridConfig.mk true .stream cidrUnset cidrUnset).learn
          (assignment4 0x0a0000ca) (assignment6 pool 0x0a0000ca))) = .tcp := by
  have hcreate : AddrPool.create 0x0a0000c8 24 none =
      some ⟨0x0a0000c8, 24, 254, 2, replicate 255 false, In6Addr.zero, 0, false⟩ := rfl
  refine ⟨_, hcreate, ?_, ?_, by decide +kernel, by decide +kernel, by decide +kernel⟩
  · exact (AddrPool.handsOut_iff hcreate _).mpr ⟨2, le_rfl, by decide, by decide⟩
  · exact (AddrPool.handsOut_iff hcreate _).mpr ⟨56, by decide, by decide, by decide⟩

end Mqvpn.Lane
