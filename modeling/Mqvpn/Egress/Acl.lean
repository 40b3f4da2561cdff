import Mqvpn.Server.AddrPool
import Mathlib.Tactic.NormNum

/-!
# The destination rules of the TCP egress

A client may ask the server to open a TCP connection for it.  Where to is decided by
`svr_tcp_egress_acl_decide`: never into the tunnel itself, else as the operator allows, else
not into the special ranges, else not where the operator denies.  The tunnel prefixes are
those of the address pool, with the host bits of its base cleared.

An address is given as sixteen bytes; an IPv4 address stands in the first four.

## Main definitions

* `CidrEntry`, `cidrPremask`, `cidrMatch` — a prefix and the addresses in it.
* `svrGetEgressPolicy` — the rules of a server, the tunnel prefixes of its pool among them.
* `aclDecide` — the decision.

## Main results

* `aclDecide_iff` — what is let through.
* `pool_denied_iff` — **the addresses of a pool are denied under every rule list exactly if
  the host part of its IPv4 base leaves room for them**; for the IPv6 twins this is checked
  when the pool is made.
-/

namespace Mqvpn.Egress

open Svr List

/-- `mqvpn_cidr_entry_t`; family `0` is an entry that was never set. -/
structure CidrEntry where
  family : UInt8
  prefixLen : UInt8
  net : In6Addr
  deriving DecidableEq

/-- Sixteen bytes that start with the given ones. -/
def padded (bytes : List UInt8) : In6Addr where
  bytes := bytes.take 16 ++ List.replicate (16 - bytes.length) 0
  size := by
    rw [List.length_append, List.length_take, List.length_replicate]
    omega

/-- An IPv4 address in the first four of sixteen bytes. -/
def addr4 (a : UInt32) : In6Addr := padded (Varint.bigEndian 4 a.toNat)

/-- Clear the bits behind the prefix. -/
def cidrPremask (net : In6Addr) (prefixLen : ℕ) : In6Addr where
  bytes :=
    let full := prefixLen / 8
    let rem := prefixLen % 8
    net.bytes.mapIdx fun i b =>
      if i < full then b
      else if i = full ∧ rem ≠ 0 then b &&& BitPrefix.topMask rem
      else 0
  size := by rw [List.length_mapIdx, net.size]

def cidrMatch (e : CidrEntry) (family : UInt8) (addr : In6Addr) : Bool :=
  if e.family = 0 ∨ e.family ≠ family then false
  else if 128 < e.prefixLen.toNat then false
  else
    let full := e.prefixLen.toNat / 8
    let rem := e.prefixLen.toNat % 8
    (List.range full).all (fun i => addr.bytes.getD i 0 == e.net.bytes.getD i 0) &&
      (rem == 0 ||
        (addr.bytes.getD full 0 &&& BitPrefix.topMask rem) ==
          (e.net.bytes.getD full 0 &&& BitPrefix.topMask rem))

/-- `DEFAULT_DENY_V4`. -/
def defaultDenyV4 : List CidrEntry :=
  [⟨4, 8, padded [0]⟩, ⟨4, 8, padded [127]⟩, ⟨4, 8, padded [10]⟩, ⟨4, 12, padded [172, 16]⟩,
    ⟨4, 16, padded [192, 168]⟩, ⟨4, 16, padded [169, 254]⟩, ⟨4, 10, padded [100, 64]⟩,
    ⟨4, 4, padded [224]⟩, ⟨4, 4, padded [240]⟩, ⟨4, 32, padded [255, 255, 255, 255]⟩]

/-- `DEFAULT_DENY_V6`. -/
def defaultDenyV6 : List CidrEntry :=
  [⟨6, 128, padded [0, 0, 0, 0, 0, 0, 0, 0, 0, 0, 0, 0, 0, 0, 0, 1]⟩,
    ⟨6, 10, padded [0xfe, 0x80]⟩, ⟨6, 7, padded [0xfc]⟩, ⟨6, 8, padded [0xff]⟩,
    ⟨6, 128, padded [0]⟩, ⟨6, 96, padded [0, 0, 0, 0, 0, 0, 0, 0, 0, 0, 0xff, 0xff]⟩]

def defaultDeny (family : UInt8) : List CidrEntry :=
  if family = 6 then defaultDenyV6 else defaultDenyV4

/-- `svr_tcp_egress_acl_decide`. -/
def aclDecide (family : UInt8) (addr : In6Addr) (allow deny : List CidrEntry)
    (tunnel : CidrEntry) : Bool :=
  if cidrMatch tunnel family addr then false
  else if allow.any (cidrMatch · family addr) then true
  else if (defaultDeny family).any (cidrMatch · family addr) then false
  else if deny.any (cidrMatch · family addr) then false
  else true

/-- The operator's rules, `egress_allow` and `egress_deny`. -/
structure EgressRules where
  allow : List CidrEntry
  deny : List CidrEntry
  deriving DecidableEq

/-- The rules of a server; there is one tunnel prefix for each family. -/
structure EgressPolicy where
  allow : List CidrEntry
  deny : List CidrEntry
  tunnel4 : CidrEntry
  tunnel6 : CidrEntry
  deriving DecidableEq

/-- `svr_get_egress_policy`. -/
def svrGetEgressPolicy (rules : EgressRules) (pool : AddrPool) : EgressPolicy where
  allow := rules.allow
  deny := rules.deny
  tunnel4 :=
    { family := 4, prefixLen := UInt8.ofNat pool.prefixLen
      net := cidrPremask (addr4 pool.base) (UInt8.ofNat pool.prefixLen).toNat }
  tunnel6 :=
    if pool.hasV6 then
      { family := 6, prefixLen := UInt8.ofNat pool.prefix6
        net := cidrPremask pool.base6 (UInt8.ofNat pool.prefix6).toNat }
    else { family := 0, prefixLen := 0, net := In6Addr.zero }

/-- The decision of a server on an address. -/
def EgressPolicy.allows (policy : EgressPolicy) (family : UInt8) (addr : In6Addr) : Bool :=
  aclDecide family addr policy.allow policy.deny
    (if family = 6 then policy.tunnel6 else policy.tunnel4)

/-! ### The decision -/

section
variable {addr : In6Addr}

/-- What is let through: outside the tunnel, and allowed or neither in a special range nor
denied. -/
theorem aclDecide_iff {family : UInt8} {allow deny : List CidrEntry} {tunnel : CidrEntry} :
    aclDecide family addr allow deny tunnel = true ↔
      cidrMatch tunnel family addr = false ∧
        ((∃ e ∈ allow, cidrMatch e family addr = true) ∨
          (∀ e ∈ defaultDeny family, cidrMatch e family addr = false) ∧
            ∀ e ∈ deny, cidrMatch e family addr = false) := by
  rw [aclDecide]
  by_cases ht : cidrMatch tunnel family addr = true
  · simp [ht]
  · by_cases ha : ∃ e ∈ allow, cidrMatch e family addr = true
    · simp [ht, ha]
    · simp only [ht, any_eq_true, ha, Bool.false_eq_true, if_false, false_or]
      simp only [Bool.not_eq_true] at ht
      by_cases hd : ∃ e ∈ defaultDeny family, cidrMatch e family addr = true
      · obtain ⟨e, he, hm⟩ := hd
        have hno : ¬ ∀ e ∈ defaultDeny family, cidrMatch e family addr = false :=
          fun h => by simp [h e he] at hm
        simp [hno, show ∃ e ∈ defaultDeny family, cidrMatch e family addr = true from ⟨e, he, hm⟩]
      · simp_all

/-- A prefix match is agreement of the bits. -/
theorem cidrMatch_iff {e : CidrEntry} {family : UInt8} :
    cidrMatch e family addr = true ↔
      e.family ≠ 0 ∧ e.family = family ∧ e.prefixLen.toNat ≤ 128 ∧
        BitPrefix.agree e.prefixLen.toNat addr.bytes e.net.bytes = true := by
  have hlen : addr.bytes.length = e.net.bytes.length := addr.size.trans e.net.size.symm
  rw [cidrMatch]
  by_cases hf : e.family = 0 ∨ e.family ≠ family
  · rw [if_pos hf]
    constructor
    · intro h
      cases h
    · rintro ⟨h0, heq, -⟩
      rcases hf with hf | hf
      · exact absurd hf h0
      · exact absurd heq hf
  · rw [if_neg hf]
    rw [not_or, not_not] at hf
    by_cases hp : 128 < e.prefixLen.toNat
    · rw [if_pos hp]
      simp only [Bool.false_eq_true, false_iff]
      rintro ⟨-, -, hle, -⟩
      omega
    · have hagree := BitPrefix.loop_eq_agree hlen (p := e.prefixLen.toNat)
        (by rw [addr.size]; omega)
      rw [if_neg hp]
      simp only [hagree]
      exact ⟨fun h => ⟨hf.1, hf.2, by omega, h⟩, fun h => h.2.2.2⟩

end

@[simp] theorem cidrPremask_bytes (net : In6Addr) (prefixLen : ℕ) :
    (cidrPremask net prefixLen).bytes = BitPrefix.keep prefixLen net.bytes :=
  BitPrefix.mapIdx_eq_keep prefixLen net.bytes

def value (addr : In6Addr) : ℕ := Varint.ofBytes addr.bytes

/-- The first `n` bits of two addresses are the same. -/
def SameBits (n : ℕ) (x a : In6Addr) : Prop :=
  ∀ i < n, (value x).testBit (127 - i) = (value a).testBit (127 - i)

/-- The addresses of an entry, as a set of bit strings. -/
def CidrEntry.Contains (e : CidrEntry) (family : UInt8) (x : In6Addr) : Prop :=
  e.family ≠ 0 ∧ e.family = family ∧ e.prefixLen.toNat ≤ 128 ∧ SameBits e.prefixLen.toNat x e.net

theorem agree_iff_sameBits {n : ℕ} (hn : n ≤ 128) (x a : In6Addr) :
    BitPrefix.agree n x.bytes a.bytes = true ↔ SameBits n x a := by
  have h := BitPrefix.agree_iff_testBit (x.size.trans a.size.symm) (p := n) (by rw [x.size]; omega)
  rwa [x.size] at h

theorem cidrMatch_iff_contains {e : CidrEntry} {family : UInt8} {x : In6Addr} :
    cidrMatch e family x = true ↔ e.Contains family x := by
  rw [cidrMatch_iff]
  exact and_congr_right fun _ => and_congr_right fun _ => and_congr_right fun hle =>
    agree_iff_sameBits hle x e.net

/-- An address lies in the prefix of a base exactly if it has the base's quotient. -/
theorem cidrMatch_premask_iff (family : UInt8) (hf : family ≠ 0) (p : ℕ) (hp : p ≤ 128)
    (base addr : In6Addr) :
    cidrMatch ⟨family, UInt8.ofNat p, cidrPremask base (UInt8.ofNat p).toNat⟩ family addr =
        true ↔
      value addr / 2 ^ (128 - p) = value base / 2 ^ (128 - p) := by
  have hp' : (UInt8.ofNat p).toNat = p := by
    rw [UInt8.toNat_ofNat']
    omega
  have hlen : addr.bytes.length = base.bytes.length := addr.size.trans base.size.symm
  have hdiv := BitPrefix.agree_iff_div hlen (p := p) (by rw [addr.size]; omega)
  rw [addr.size] at hdiv
  rw [cidrMatch_iff, cidrPremask_bytes, hp', BitPrefix.agree_keep, hdiv]
  exact ⟨fun h => h.2.2.2, fun h => ⟨hf, rfl, hp, h⟩⟩

/-! ### Addresses of a pool -/

/-- A number stays below the next multiple exactly if its remainder leaves room. -/
theorem add_div_eq_iff (b o w : ℕ) (hw : 0 < w) : (b + o) / w = b / w ↔ b % w + o < w := by
  have hb := Nat.div_add_mod b w
  rw [Nat.div_eq_iff hw]
  constructor
  · rintro ⟨-, hlt⟩
    have : w * (b / w) = b / w * w := Nat.mul_comm ..
    omega
  · intro hlt
    have : w * (b / w) = b / w * w := Nat.mul_comm ..
    omega

theorem value_addr4 (a : UInt32) : value (addr4 a) = a.toNat * 2 ^ 96 := by
  have hmod : a.toNat % 256 ^ 4 = a.toNat := Nat.mod_eq_of_lt a.toNat_lt
  have hlen := Varint.length_bigEndian 4 a.toNat
  have hzero : Varint.ofBytes (replicate 12 0) = 0 := by decide
  rw [value, addr4, padded]
  simp only [hlen]
  rw [take_of_length_le (by omega), BitPrefix.ofBytes_append, Varint.ofBytes_bigEndian,
    hmod, length_replicate, hzero, Nat.add_zero]
  norm_num

/-- An address is its first twelve bytes and its low bits. -/
theorem value_eq (addr : In6Addr) :
    value addr = Varint.ofBytes (addr.bytes.take 12) * 256 ^ 4 + addr.low.toNat := by
  have h := BitPrefix.ofBytes_append (addr.bytes.take 12) (addr.bytes.drop 12)
  rwa [take_append_drop, ← addr.toNat_low, length_drop, addr.size] at h

theorem value_get6 {pool : AddrPool} (h : pool.WF) {off : ℕ} (hoff : off ≤ pool.poolSize) :
    value (pool.get6 (UInt32.ofNat off)) = value pool.base6 + off := by
  have hwrap := h.noWrap6
  rw [value_eq, value_eq pool.base6, AddrPool.take_get6, AddrPool.low_get6, UInt32.toNat_add,
    UInt32.toNat_ofNat']
  omega

section
variable {base : UInt32} {prefixLen : ℕ} {subnet6 : Option (In6Addr × ℕ)} {pool : AddrPool}

/-- The IPv4 address of an offset lies in the tunnel prefix exactly if the host part of the
base leaves room for the offset. -/
theorem tunnel4_match_iff (hcreate : AddrPool.create base prefixLen subnet6 = some pool)
    (rules : EgressRules) {off : ℕ} (hoff : off ≤ pool.poolSize) :
    cidrMatch (svrGetEgressPolicy rules pool).tunnel4 4 (addr4 (pool.addr off)) = true ↔
      base.toNat % 2 ^ (32 - prefixLen) + off < 2 ^ (32 - prefixLen) := by
  obtain ⟨hwf, -⟩ := AddrPool.create_spec hcreate
  obtain ⟨hbase, hplen, -, hhi, -⟩ := AddrPool.create_fields hcreate
  have hexp : (2 : ℕ) ^ (128 - prefixLen) = 2 ^ 96 * 2 ^ (32 - prefixLen) := by
    rw [← Nat.pow_add, show 96 + (32 - prefixLen) = 128 - prefixLen by omega]
  have hquot (a : UInt32) :
      value (addr4 a) / 2 ^ (128 - prefixLen) = a.toNat / 2 ^ (32 - prefixLen) := by
    rw [value_addr4, hexp, ← Nat.div_div_eq_div_mul, Nat.mul_div_cancel _ (by positivity)]
  rw [svrGetEgressPolicy, hplen,
    cidrMatch_premask_iff 4 (by decide) prefixLen (by omega), hquot, hquot,
    hwf.toNat_addr hoff, hbase]
  exact add_div_eq_iff _ _ _ (by positivity)

/-- The twin of an offset always lies in the tunnel prefix. -/
theorem tunnel6_match (hcreate : AddrPool.create base prefixLen subnet6 = some pool)
    (rules : EgressRules) (hv6 : pool.hasV6 = true) {off : ℕ} (hoff : off ≤ pool.poolSize) :
    cidrMatch (svrGetEgressPolicy rules pool).tunnel6 6 (pool.get6 (UInt32.ofNat off)) =
      true := by
  obtain ⟨hwf, -⟩ := AddrPool.create_spec hcreate
  obtain ⟨-, -, -, -, -, hroom⟩ := AddrPool.create_fields hcreate
  obtain ⟨hlo, hhi, hfits⟩ := hroom hv6
  have hmod : value pool.base6 % 2 ^ (128 - pool.prefix6) =
      pool.base6.low.toNat % 2 ^ (128 - pool.prefix6) := by
    have hdvd : 2 ^ (128 - pool.prefix6) ∣ 256 ^ 4 :=
      (Nat.pow_dvd_pow 2 (by omega : 128 - pool.prefix6 ≤ 32))
    rw [value_eq, Nat.add_mod, Nat.mod_eq_zero_of_dvd (hdvd.mul_left _), Nat.zero_add,
      Nat.mod_mod]
  rw [svrGetEgressPolicy, if_pos hv6,
    cidrMatch_premask_iff 6 (by decide) pool.prefix6 (by omega), value_get6 hwf hoff,
    add_div_eq_iff _ _ _ (by positivity), hmod]
  omega

/-- **The addresses of a pool are tunnel addresses**, denied under every rule list: those of
IPv4 exactly if the host part of the base leaves room for the offsets, which is not checked
when the pool is made; the IPv6 twins always. -/
theorem pool_denied_iff (hcreate : AddrPool.create base prefixLen subnet6 = some pool) :
    ((∀ a, pool.HandsOut a ∨ a = pool.serverAddr → ∀ rules,
        cidrMatch (svrGetEgressPolicy rules pool).tunnel4 4 (addr4 a) = true ∧
          (svrGetEgressPolicy rules pool).allows 4 (addr4 a) = false) ↔
      base.toNat % 2 ^ (32 - prefixLen) + pool.poolSize < 2 ^ (32 - prefixLen)) ∧
    (pool.hasV6 = true → ∀ addr, (∃ off, pool.HandsOut (pool.addr off) ∧ off ≤ pool.poolSize ∧
        addr = pool.get6 (UInt32.ofNat off)) ∨ addr = pool.serverAddr6 → ∀ rules,
      cidrMatch (svrGetEgressPolicy rules pool).tunnel6 6 addr = true ∧
        (svrGetEgressPolicy rules pool).allows 6 addr = false) := by
  obtain ⟨-, -, -, -, htwo, -⟩ := AddrPool.create_fields hcreate
  refine ⟨⟨fun hall => ?_, fun hroom a ha rules => ?_⟩, fun hv6 addr haddr rules => ?_⟩
  · -- the highest address is handed out too
    have hout := (AddrPool.handsOut_iff hcreate (pool.addr pool.poolSize)).mpr
      ⟨pool.poolSize, htwo, le_refl _, rfl⟩
    exact (tunnel4_match_iff hcreate ⟨[], []⟩ (le_refl _)).mp (hall _ (.inl hout) _).1
  · obtain ⟨off, hoff, rfl⟩ : ∃ off, off ≤ pool.poolSize ∧ a = pool.addr off := by
      rcases ha with hout | rfl
      · obtain ⟨off, -, hoff, rfl⟩ := (AddrPool.handsOut_iff hcreate a).mp hout
        exact ⟨off, hoff, rfl⟩
      · exact ⟨1, by omega, rfl⟩
    have hmatch := (tunnel4_match_iff hcreate rules hoff).mpr (by omega)
    exact ⟨hmatch, if_pos hmatch⟩
  · obtain ⟨off, hoff, rfl⟩ :
        ∃ off, off ≤ pool.poolSize ∧ addr = pool.get6 (UInt32.ofNat off) := by
      rcases haddr with ⟨off, -, hoff, rfl⟩ | rfl
      · exact ⟨off, hoff, rfl⟩
      · exact ⟨1, by omega, rfl⟩
    have hmatch := tunnel6_match hcreate rules hv6 hoff
    exact ⟨hmatch, if_pos hmatch⟩

end

/-- An aligned pool with a twin prefix: no rule list opens `10.0.0.2`. -/
theorem pool_denied_aligned :
    ∃ pool, AddrPool.create 0x0a000000 30 (some (In6Addr.zero, 126)) = some pool ∧
      (∀ a, pool.HandsOut a ∨ a = pool.serverAddr → ∀ rules,
        cidrMatch (svrGetEgressPolicy rules pool).tunnel4 4 (addr4 a) = true ∧
          (svrGetEgressPolicy rules pool).allows 4 (addr4 a) = false) :=
  ⟨_, rfl, (pool_denied_iff
    (show AddrPool.create 0x0a000000 30 (some (In6Addr.zero, 126)) = _ from rfl)).1.mpr
      (by decide)⟩

/-- `10.0.0.2/30` is accepted.  Its first client gets `10.0.0.4`, which is outside
`10.0.0.0/30`: a rule that allows `10.0.0.0/8` lets the other clients connect to it. -/
theorem unaligned_peer_allowed :
    ∃ pool, AddrPool.create 0x0a000002 30 none = some pool ∧
      ((Leases.mk pool []).run [.alloc]).out = [0x0a000004] ∧
      cidrMatch (svrGetEgressPolicy ⟨[⟨4, 8, padded [10]⟩], []⟩ pool).tunnel4 4
        (addr4 0x0a000004) = false ∧
      (svrGetEgressPolicy ⟨[⟨4, 8, padded [10]⟩], []⟩ pool).allows 4 (addr4 0x0a000004) = true :=
  ⟨_, rfl, by decide +kernel, by decide +kernel, by decide +kernel⟩

end Mqvpn.Egress
