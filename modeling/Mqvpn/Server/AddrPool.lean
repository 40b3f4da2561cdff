import Mqvpn.Lib.BitPrefix
import Mqvpn.Lib.Run
import Mathlib.Data.List.Nodup

/-!
# The address pool of the server

`addr_pool.c` hands out the addresses `base + 2`, `base + 3`, … to the clients, `base + 1`
being that of the server.  An offset that is out is marked in a bitmap; the search for a
free one starts behind the last one handed out.  The IPv6 addresses share the offsets.

IPv4 addresses are numbers in host order, IPv6 addresses sixteen bytes.  The text of a CIDR
is parsed by the C library: `init` and `init6` take the address and the prefix length it
yields.

## Main definitions

* `AddrPool`, `AddrPool.init`, `AddrPool.init6` — the pool, and one made from its prefixes.
* `AddrPool.alloc`, `AddrPool.release` — taking an offset and giving an address back.
* `AddrPool.get6`, `AddrPool.offset6` — the IPv6 address of an offset, and back.
* `Leases` — a pool with the record of the addresses that are out.

## Main results

* `AddrPool.alloc_spec` — **an allocation takes a free offset**, and its address lies that
  far above the base.
* `AddrPool.alloc_eq_none_iff` — it fails exactly when every client offset is out.
* `AddrPool.release_addr` — giving the address of an offset back frees that offset.
* `leases_run` — over every run the bitmap and the record say the same.
-/

namespace Mqvpn.Svr

open List

/-- `MQVPN_ADDR_POOL_MAX`. -/
def addrPoolMax : ℕ := 254

/-- `struct in6_addr`. -/
structure In6Addr where
  bytes : List UInt8
  size : bytes.length = 16
  deriving DecidableEq

def In6Addr.zero : In6Addr := ⟨List.replicate 16 0, List.length_replicate ..⟩

/-- `mqvpn_addr_pool_t`. -/
structure AddrPool where
  base : UInt32
  prefixLen : ℕ
  poolSize : ℕ
  next : ℕ
  used : List Bool
  base6 : In6Addr
  prefix6 : ℕ
  hasV6 : Bool
  deriving DecidableEq

/-- A pool before its first allocation; `none` if the prefix is out of range or the
addresses would wrap. -/
def AddrPool.init (base : UInt32) (prefixLen : ℕ) : Option AddrPool :=
  if prefixLen < 16 ∨ 30 < prefixLen then none
  else
    let totalHosts := 2 ^ (32 - prefixLen) - 2
    let poolSize := if addrPoolMax < totalHosts then addrPoolMax else totalHosts
    if base + UInt32.ofNat poolSize < base then none
    else
      some
        { base := base, prefixLen := prefixLen, poolSize := poolSize, next := 2,
          used := List.replicate (addrPoolMax + 1) false, base6 := In6Addr.zero, prefix6 := 0,
          hasV6 := false }

/-- Four bytes as a number, the highest first. -/
def be32 (bytes : List UInt8) : UInt32 :=
  bytes.foldl (fun n b => n <<< 8 ||| b.toUInt32) 0

/-- The low 32 bits of an IPv6 address. -/
def In6Addr.low (addr : In6Addr) : UInt32 := be32 (addr.bytes.drop 12)

/-- Add the IPv6 prefix; `none` if it is out of range or cannot hold the offsets. -/
def AddrPool.init6 (pool : AddrPool) (base6 : In6Addr) (prefixLen : ℕ) : Option AddrPool :=
  if prefixLen < 96 ∨ 126 < prefixLen then none
  else
    let hostBits := 128 - prefixLen
    let hostMask := if 32 ≤ hostBits then 0xffffffff else (1 <<< hostBits) - 1
    if hostMask < (base6.low.toNat &&& hostMask) + pool.poolSize then none
    else some { pool with base6 := base6, prefix6 := prefixLen, hasV6 := true }

/-- The pool of `mqvpn_server_new`: the IPv6 prefix is optional. -/
def AddrPool.create (base : UInt32) (prefixLen : ℕ) (subnet6 : Option (In6Addr × ℕ)) :
    Option AddrPool :=
  (AddrPool.init base prefixLen).bind fun pool =>
    match subnet6 with
    | none => some pool
    | some (base6, prefixLen6) => pool.init6 base6 prefixLen6

/-- The offset is out. -/
def AddrPool.isUsed (pool : AddrPool) (off : ℕ) : Bool := pool.used.getD off false

def AddrPool.addr (pool : AddrPool) (off : ℕ) : UInt32 := pool.base + UInt32.ofNat off

/-- The offset that is looked at in round `i` of the search. -/
def AddrPool.candidate (pool : AddrPool) (i : ℕ) : ℕ := (pool.next - 1 + i) % pool.poolSize + 1

/-- The first free offset of the search; the server's own is passed over. -/
def AddrPool.findFree (pool : AddrPool) : Option ℕ :=
  ((List.range pool.poolSize).map pool.candidate).find? fun off =>
    decide (off ≠ 1) && !pool.isUsed off

/-- Take a free address; `none` if all are out. -/
def AddrPool.alloc (pool : AddrPool) : Option (ℕ × AddrPool) :=
  pool.findFree.map fun off =>
    (off, { pool with used := pool.used.set off true, next := off + 1 })

/-- Give an address back; one that is not of the pool is ignored. -/
def AddrPool.release (pool : AddrPool) (addr : UInt32) : AddrPool :=
  if addr < pool.base then pool
  else
    let off := (addr - pool.base).toNat
    if 1 ≤ off ∧ off ≤ pool.poolSize then { pool with used := pool.used.set off false } else pool

def AddrPool.serverAddr (pool : AddrPool) : UInt32 := pool.base + 1

def AddrPool.get6 (pool : AddrPool) (offset : UInt32) : In6Addr where
  bytes := pool.base6.bytes.take 12 ++ Varint.bigEndian 4 (pool.base6.low + offset).toNat
  size := by simp [Varint.length_bigEndian, pool.base6.size]

def AddrPool.serverAddr6 (pool : AddrPool) : In6Addr := pool.get6 1

/-- The offset of an IPv6 address, `0` if it is not of the pool. -/
def AddrPool.offset6 (pool : AddrPool) (addr : List UInt8) : UInt32 :=
  if addr.take 12 ≠ pool.base6.bytes.take 12 then 0
  else
    let addrLow := be32 (addr.drop 12)
    let baseLow := pool.base6.low
    if addrLow < baseLow then 0 else addrLow - baseLow

/-! ### The low bits of an IPv6 address -/

theorem be32_eq (bytes : List UInt8) : be32 bytes = UInt32.ofNat (Varint.ofBytes bytes) := by
  induction bytes using reverseRecOn with
  | nil => rfl
  | append_singleton bytes b ih =>
    have hb := b.toNat_lt
    rw [be32, foldl_append, BitPrefix.ofBytes_append, BitPrefix.ofBytes_cons]
    change be32 bytes <<< 8 ||| b.toUInt32 = _
    rw [ih]
    apply UInt32.toNat_inj.mp
    -- the shift leaves the low byte clear, so or-ing the byte in adds it
    have hor := Nat.shiftLeft_add_eq_or_of_lt (b := b.toNat) (i := 8) hb
      (Varint.ofBytes bytes % 2 ^ 24)
    rw [Nat.shiftLeft_eq] at hor
    have hshift : (UInt32.ofNat (Varint.ofBytes bytes) <<< 8 : UInt32).toNat =
        Varint.ofBytes bytes % 2 ^ 24 * 2 ^ 8 := by
      simp [Nat.shiftLeft_eq]
      omega
    rw [UInt32.toNat_or, hshift, UInt8.toNat_toUInt32, ← hor, UInt32.toNat_ofNat']
    simp only [length_cons, length_nil, BitPrefix.ofBytes_nil]
    omega

/-- The low bits of an address are those of its last four bytes. -/
theorem In6Addr.toNat_low (addr : In6Addr) :
    addr.low.toNat = Varint.ofBytes (addr.bytes.drop 12) := by
  have hlt := BitPrefix.ofBytes_lt (addr.bytes.drop 12)
  rw [length_drop, addr.size] at hlt
  rw [In6Addr.low, be32_eq, UInt32.toNat_ofNat']
  omega

/-- An address is its first twelve bytes and its low bits. -/
theorem In6Addr.ext_low {addr addr' : In6Addr}
    (hhigh : addr.bytes.take 12 = addr'.bytes.take 12) (hlow : addr.low = addr'.low) :
    addr = addr' := by
  have hdrop : addr.bytes.drop 12 = addr'.bytes.drop 12 := by
    apply Varint.ofBytes_inj
    · rw [length_drop, length_drop, addr.size, addr'.size]
    · rw [← addr.toNat_low, ← addr'.toNat_low, hlow]
  have hbytes : addr.bytes = addr'.bytes := by
    rw [← take_append_drop 12 addr.bytes, ← take_append_drop 12 addr'.bytes, hhigh,
      hdrop]
  cases addr
  cases addr'
  cases hbytes
  rfl

/-! ### The pool keeps its shape -/

/-- What holds of every pool the server works with: the bitmap covers the offsets, no
address wraps, and the offsets fit into the host parts of an IPv6 prefix. -/
structure AddrPool.WF (pool : AddrPool) : Prop where
  size : pool.poolSize ≤ addrPoolMax
  bitmap : pool.used.length = addrPoolMax + 1
  noWrap : pool.base.toNat + pool.poolSize < 2 ^ 32
  noWrap6 : pool.base6.low.toNat + pool.poolSize < 2 ^ 32

/-- The fields an allocation or a release leaves alone. -/
def AddrPool.range (pool : AddrPool) : UInt32 × ℕ × ℕ × In6Addr × ℕ × Bool :=
  (pool.base, pool.prefixLen, pool.poolSize, pool.base6, pool.prefix6, pool.hasV6)

variable {prefixLen : ℕ} {base : UInt32} {subnet6 : Option (In6Addr × ℕ)}

namespace AddrPool

variable {pool pool' : AddrPool}

/-- What is accepted as an IPv4 prefix, and the pool made from it. -/
theorem init_cases (h : init base prefixLen = some pool) :
    16 ≤ prefixLen ∧ prefixLen ≤ 30 ∧
      ∃ poolSize, poolSize = min addrPoolMax (2 ^ (32 - prefixLen) - 2) ∧
        base.toNat + poolSize < 2 ^ 32 ∧
        pool = { base, prefixLen, poolSize, next := 2,
                 used := replicate (addrPoolMax + 1) false, base6 := In6Addr.zero,
                 prefix6 := 0, hasV6 := false } := by
  unfold init at h
  split at h
  · cases h
  · next hrange =>
    simp only at h
    generalize hsize : (if addrPoolMax < 2 ^ (32 - prefixLen) - 2 then addrPoolMax
      else 2 ^ (32 - prefixLen) - 2) = poolSize at h
    have hmin : poolSize = min addrPoolMax (2 ^ (32 - prefixLen) - 2) := by
      rw [← hsize]
      split <;> omega
    have hmax : poolSize ≤ 254 := hmin ▸ Nat.min_le_left _ _
    split at h
    · cases h
    · next hwrap =>
      cases h
      refine ⟨by omega, by omega, poolSize, hmin, ?_, rfl⟩
      rw [UInt32.lt_iff_toNat_lt, UInt32.toNat_add, UInt32.toNat_ofNat'] at hwrap
      have := base.toNat_lt
      omega

/-- What is accepted as an IPv6 prefix: the offsets fit behind the host part of the base. -/
theorem init6_cases {base6 : In6Addr}
    (h : pool.init6 base6 prefixLen = some pool') :
    96 ≤ prefixLen ∧ prefixLen ≤ 126 ∧
      base6.low.toNat % 2 ^ (128 - prefixLen) + pool.poolSize < 2 ^ (128 - prefixLen) ∧
      pool' = { pool with base6 := base6, prefix6 := prefixLen, hasV6 := true } := by
  unfold init6 at h
  split at h
  · cases h
  · next hrange =>
    have hmask : (if 32 ≤ 128 - prefixLen then 0xffffffff else (1 <<< (128 - prefixLen)) - 1) =
        2 ^ (128 - prefixLen) - 1 := by
      split
      · rw [show 128 - prefixLen = 32 by omega]
        rfl
      · rw [Nat.one_shiftLeft]
    simp only [hmask, Nat.and_two_pow_sub_one_eq_mod] at h
    split at h
    · cases h
    · next hfits =>
      cases h
      have : 0 < 2 ^ (128 - prefixLen) := by positivity
      exact ⟨by omega, by omega, by omega, rfl⟩

section
variable (h : create base prefixLen subnet6 = some pool)
include h

theorem create_cases :
    ∃ pool4, init base prefixLen = some pool4 ∧
      (subnet6 = none ∧ pool = pool4 ∨
        ∃ base6 prefixLen6, subnet6 = some (base6, prefixLen6) ∧
          pool4.init6 base6 prefixLen6 = some pool) := by
  obtain ⟨pool4, hinit, hrest⟩ := Option.bind_eq_some_iff.mp h
  refine ⟨pool4, hinit, ?_⟩
  match subnet6, hrest with
  | none, hrest => exact .inl ⟨rfl, (Option.some.inj hrest).symm⟩
  | some (base6, prefixLen6), hrest => exact .inr ⟨base6, prefixLen6, rfl, hrest⟩

omit h in
/-- A new pool has that shape, and no offset of it is out. -/
theorem init_spec (h : init base prefixLen = some pool) :
    pool.WF ∧ ∀ off, pool.isUsed off = false := by
  obtain ⟨-, -, poolSize, hmin, hwrap, rfl⟩ := init_cases h
  have hmax : poolSize ≤ addrPoolMax := hmin ▸ Nat.min_le_left _ _
  refine ⟨⟨hmax, by simp, hwrap, ?_⟩, fun off => ?_⟩
  · have : poolSize ≤ 254 := hmax
    change 0 + poolSize < 2 ^ 32
    omega
  · simp only [isUsed, getD_eq_getElem?_getD, getElem?_replicate]
    split <;> rfl

theorem create_spec : pool.WF ∧ ∀ off, pool.isUsed off = false := by
  obtain ⟨pool4, hinit, ⟨-, rfl⟩ | ⟨base6, prefixLen6, -, hinit6⟩⟩ := create_cases h
  · exact init_spec hinit
  · obtain ⟨hwf, hfree⟩ := init_spec hinit
    obtain ⟨hlo, hhi, hfits, rfl⟩ := init6_cases hinit6
    refine ⟨⟨hwf.size, hwf.bitmap, hwf.noWrap, ?_⟩, hfree⟩
    -- the host part of the base has room, so the low 32 bits have it too
    have hlow := base6.low.toNat_lt
    have hsplit : (2 : ℕ) ^ 32 = 2 ^ (128 - prefixLen6) * 2 ^ (prefixLen6 - 96) := by
      rw [← Nat.pow_add, show 128 - prefixLen6 + (prefixLen6 - 96) = 32 by omega]
    have hquot : base6.low.toNat / 2 ^ (128 - prefixLen6) + 1 ≤ 2 ^ (prefixLen6 - 96) :=
      Nat.div_lt_of_lt_mul (by rwa [← hsplit])
    have hmul := Nat.mul_le_mul_left (2 ^ (128 - prefixLen6)) hquot
    rw [← hsplit, Nat.mul_add, Nat.mul_one] at hmul
    have := Nat.div_add_mod base6.low.toNat (2 ^ (128 - prefixLen6))
    change base6.low.toNat + pool4.poolSize < 2 ^ 32
    omega

/-- The fields of a new pool: at least one client offset, and room for all of them behind
the host part of an IPv6 base. -/
theorem create_fields :
    pool.base = base ∧ pool.prefixLen = prefixLen ∧ pool.next = 2 ∧ prefixLen ≤ 30 ∧
      2 ≤ pool.poolSize ∧
      (pool.hasV6 = true → 96 ≤ pool.prefix6 ∧ pool.prefix6 ≤ 126 ∧
        pool.base6.low.toNat % 2 ^ (128 - pool.prefix6) + pool.poolSize <
          2 ^ (128 - pool.prefix6)) := by
  obtain ⟨pool4, hinit, hrest⟩ := create_cases h
  obtain ⟨-, hhi, poolSize, hmin, -, rfl⟩ := init_cases hinit
  have htwo : 2 ≤ poolSize := by
    have hfour : 2 ^ 2 ≤ 2 ^ (32 - prefixLen) := Nat.pow_le_pow_right (by omega) (by omega)
    have hmax : addrPoolMax = 254 := rfl
    omega
  rcases hrest with ⟨-, rfl⟩ | ⟨base6, prefixLen6, -, hinit6⟩
  · exact ⟨rfl, rfl, rfl, hhi, htwo, fun hv6 => by cases hv6⟩
  · obtain ⟨hlo, hhi6, hfits, rfl⟩ := init6_cases hinit6
    exact ⟨rfl, rfl, rfl, hhi, htwo, fun _ => ⟨hlo, hhi6, hfits⟩⟩

end

variable {off : ℕ}

section
variable (h : pool.WF)
include h

/-- The addresses of a pool differ, and lie above the base. -/
theorem WF.toNat_addr (hoff : off ≤ pool.poolSize) :
    (pool.addr off).toNat = pool.base.toNat + off := by
  have := h.noWrap
  rw [addr, UInt32.toNat_add, UInt32.toNat_ofNat']
  omega

theorem WF.addr_inj {off off' : ℕ} (hoff : off ≤ pool.poolSize) (hoff' : off' ≤ pool.poolSize)
    (heq : pool.addr off = pool.addr off') : off = off' := by
  have := congrArg UInt32.toNat heq
  rw [h.toNat_addr hoff, h.toNat_addr hoff'] at this
  omega

/-- No address that is handed out is `0.0.0.0`. -/
theorem WF.addr_ne_zero (hpos : 0 < off) (hoff : off ≤ pool.poolSize) : pool.addr off ≠ 0 := by
  intro hzero
  have := h.toNat_addr hoff
  rw [hzero] at this
  simp only [UInt32.toNat_zero] at this
  omega

theorem isUsed_set (hoff : off ≤ pool.poolSize) (b : Bool) (off' : ℕ) :
    ({ pool with used := pool.used.set off b } : AddrPool).isUsed off' =
      if off' = off then b else pool.isUsed off' := by
  have hlt : off < pool.used.length := by
    have := h.size
    have := h.bitmap
    omega
  unfold isUsed
  rw [getD_eq_getElem?_getD, getD_eq_getElem?_getD, getElem?_set]
  by_cases heq : off' = off
  · subst heq
    simp [hlt]
  · rw [if_neg (Ne.symm heq), if_neg heq]

theorem WF.set_used (off next : ℕ) (b : Bool) :
    ({ pool with used := pool.used.set off b, next := next } : AddrPool).WF :=
  ⟨h.size, (length_set ..).trans h.bitmap, h.noWrap, h.noWrap6⟩

/-- **An allocation takes a free offset** other than the server's and marks it. -/
theorem alloc_spec (ha : pool.alloc = some (off, pool')) :
    1 < off ∧ off ≤ pool.poolSize ∧ pool.isUsed off = false ∧ pool'.WF ∧
      pool'.base = pool.base ∧ pool'.poolSize = pool.poolSize ∧ pool'.base6 = pool.base6 ∧
      ∀ off', pool'.isUsed off' = if off' = off then true else pool.isUsed off' := by
  unfold alloc at ha
  obtain ⟨o, hfind, heq⟩ := Option.map_eq_some_iff.mp ha
  cases heq
  have hprop := find?_some hfind
  obtain ⟨i, hi, hcand⟩ := mem_map.mp (mem_of_find?_eq_some hfind)
  have hpos : 0 < pool.poolSize := by
    have := mem_range.mp hi
    omega
  have hmod := Nat.mod_lt (pool.next - 1 + i) hpos
  rw [candidate] at hcand
  have hle : off ≤ pool.poolSize := by omega
  simp only [Bool.and_eq_true, decide_eq_true_eq, Bool.not_eq_true'] at hprop
  exact ⟨by omega, hle, hprop.2, h.set_used .., rfl, rfl, rfl, isUsed_set h hle true⟩

/-- The offset is read back from the address. -/
theorem WF.offset_addr (hoff : off ≤ pool.poolSize) :
    pool.base ≤ pool.addr off ∧ (pool.addr off - pool.base).toNat = off := by
  have haddr := h.toNat_addr hoff
  have hle : pool.base ≤ pool.addr off := by
    rw [UInt32.le_iff_toNat_le]
    omega
  refine ⟨hle, ?_⟩
  rw [UInt32.toNat_sub_of_le _ _ hle]
  omega

end

/-- A free offset at the cursor is the one that is taken. -/
theorem alloc_at_next (hlo : 2 ≤ off) (hhi : off ≤ pool.poolSize) (hnext : pool.next = off)
    (hfree : pool.isUsed off = false) :
    pool.alloc = some (off, { pool with used := pool.used.set off true, next := off + 1 }) := by
  have hcand : pool.candidate 0 = off := by
    rw [candidate, hnext, Nat.add_zero, Nat.mod_eq_of_lt (by omega)]
    omega
  obtain ⟨n, hn⟩ : ∃ n, pool.poolSize = n + 1 := ⟨pool.poolSize - 1, by omega⟩
  have hfind : pool.findFree = some off := by
    rw [findFree, hn, range_succ_eq_map, map_cons, hcand, find?_cons]
    simp [hfree, show off ≠ 1 by omega]
  rw [alloc, hfind]
  rfl

/-- Giving the address of an offset back frees that offset and no other. -/
theorem release_addr (h : pool.WF) (hpos : 1 ≤ off) (hoff : off ≤ pool.poolSize) :
    (pool.release (pool.addr off)).WF ∧
      (pool.release (pool.addr off)).base = pool.base ∧
      (pool.release (pool.addr off)).poolSize = pool.poolSize ∧
      (pool.release (pool.addr off)).base6 = pool.base6 ∧
      ∀ off', (pool.release (pool.addr off)).isUsed off' =
        if off' = off then false else pool.isUsed off' := by
  obtain ⟨hle, hdiff⟩ := h.offset_addr hoff
  have hrelease : pool.release (pool.addr off) =
      { pool with used := pool.used.set off false } := by
    unfold release
    rw [if_neg (by simpa using hle)]
    simp only [hdiff]
    rw [if_pos ⟨hpos, hoff⟩]
  rw [hrelease]
  exact ⟨h.set_used .., rfl, rfl, rfl, isUsed_set h hoff false⟩

variable (pool) in
/-- Every client offset comes up in the search. -/
theorem exists_candidate {off : ℕ} (hpos : 1 ≤ off) (hoff : off ≤ pool.poolSize) :
    ∃ i < pool.poolSize, pool.candidate i = off := by
  have hn : 0 < pool.poolSize := by omega
  have hstart := Nat.mod_lt (pool.next - 1) hn
  -- the distance from the cursor to the offset, going round
  refine ⟨(off - 1 + (pool.poolSize - (pool.next - 1) % pool.poolSize)) % pool.poolSize,
    Nat.mod_lt _ hn, ?_⟩
  have hround : ((pool.next - 1) % pool.poolSize +
      (off - 1 + (pool.poolSize - (pool.next - 1) % pool.poolSize))) % pool.poolSize =
        off - 1 := by
    rw [show (pool.next - 1) % pool.poolSize +
      (off - 1 + (pool.poolSize - (pool.next - 1) % pool.poolSize)) =
        off - 1 + pool.poolSize by omega, Nat.add_mod_right, Nat.mod_eq_of_lt (by omega)]
  rw [Nat.mod_add_mod] at hround
  rw [candidate, Nat.add_mod_mod, hround]
  omega

/-- **An allocation fails exactly when every client offset is out.** -/
theorem alloc_eq_none_iff :
    pool.alloc = none ↔
      ∀ off, 2 ≤ off → off ≤ pool.poolSize → pool.isUsed off = true := by
  rw [alloc, Option.map_eq_none_iff, findFree, find?_eq_none]
  simp only [mem_map, mem_range, Bool.and_eq_true, decide_eq_true_eq,
    Bool.not_eq_true', not_and, Bool.not_eq_false, forall_exists_index, and_imp]
  constructor
  · intro h off hlo hhi
    obtain ⟨i, hi, hcand⟩ := exists_candidate pool (by omega : 1 ≤ off) hhi
    exact h off i hi hcand (by omega)
  · rintro h off i hi rfl hne
    have hmod := Nat.mod_lt (pool.next - 1 + i) (by omega : 0 < pool.poolSize)
    rw [candidate] at hne ⊢
    exact h _ (by omega) (by omega)

/-- Releasing any address, of the pool or not, frees its own offset and no other. -/
theorem release_isUsed (h : pool.WF) (a : UInt32) (hpos : 1 ≤ off)
    (hoff : off ≤ pool.poolSize) :
    (pool.release a).isUsed off = true ↔ pool.isUsed off = true ∧ pool.addr off ≠ a := by
  obtain ⟨hle, hdiff⟩ := h.offset_addr hoff
  by_cases ha : ∃ off', 1 ≤ off' ∧ off' ≤ pool.poolSize ∧ a = pool.addr off'
  · obtain ⟨off', hpos', hoff', rfl⟩ := ha
    rw [(release_addr h hpos' hoff').2.2.2.2 off]
    by_cases heq : off = off'
    · simp [heq]
    · have hne : pool.addr off ≠ pool.addr off' := fun e => heq (h.addr_inj hoff hoff' e)
      simp [heq, hne]
  · -- the address belongs to no offset, and the release is ignored
    have hignored : pool.release a = pool := by
      unfold release
      split
      · rfl
      · next hge =>
        simp only
        rw [if_neg]
        rintro ⟨h1, h2⟩
        refine ha ⟨_, h1, h2, ?_⟩
        rw [addr, UInt32.ofNat_toNat, UInt32.add_comm, UInt32.sub_add_cancel]
    rw [hignored]
    exact ⟨fun hused => ⟨hused, fun e => ha ⟨off, hpos, hoff, e.symm⟩⟩, fun hused => hused.1⟩

/-! ### Only the bitmap and the cursor move -/

theorem range_alloc (ha : pool.alloc = some (off, pool')) :
    pool'.range = pool.range := by
  obtain ⟨o, -, heq⟩ := Option.map_eq_some_iff.mp ha
  cases heq
  rfl

variable (pool) in
theorem range_release (a : UInt32) : (pool.release a).range = pool.range := by
  unfold release
  split
  · rfl
  · simp only
    split <;> rfl

theorem WF.release (h : pool.WF) (a : UInt32) : (pool.release a).WF := by
  unfold AddrPool.release
  split
  · exact h
  · simp only
    split
    · exact h.set_used ..
    · exact h

/-- Pools of one range have the same offsets and addresses. -/
theorem addr_of_range (h : pool'.range = pool.range) :
    pool'.poolSize = pool.poolSize ∧ ∀ o, pool'.addr o = pool.addr o := by
  simp only [range, Prod.mk.injEq] at h
  exact ⟨h.2.2.1, fun o => by rw [addr, addr, h.1]⟩

/-! ### The IPv6 twins -/

theorem take_get6 (offset : UInt32) :
    (pool.get6 offset).bytes.take 12 = pool.base6.bytes.take 12 := by
  have := pool.base6.size
  rw [get6, take_append_of_le_length (by simp [this]), take_take]
  rfl

theorem low_get6 (offset : UInt32) :
    (pool.get6 offset).low = pool.base6.low + offset := by
  have := pool.base6.size
  apply UInt32.toNat_inj.mp
  rw [In6Addr.toNat_low, get6, drop_append_of_le_length (by simp [this]),
    drop_eq_nil_of_le (by simp), nil_append, Varint.ofBytes_bigEndian]
  exact Nat.mod_eq_of_lt (pool.base6.low + offset).toNat_lt

/-- **An IPv6 address maps to an offset exactly when it is the twin of that offset.** -/
theorem WF.offset6_eq_iff (h : pool.WF) (addr : In6Addr) {k : ℕ} (hpos : 0 < k)
    (hk : k ≤ pool.poolSize) :
    (pool.offset6 addr.bytes).toNat = k ↔ addr = pool.get6 (UInt32.ofNat k) := by
  have hwrap := h.noWrap6
  have hsum : (pool.base6.low + UInt32.ofNat k).toNat = pool.base6.low.toNat + k := by
    rw [UInt32.toNat_add, UInt32.toNat_ofNat']
    omega
  change (if addr.bytes.take 12 ≠ pool.base6.bytes.take 12 then 0
    else if addr.low < pool.base6.low then 0 else addr.low - pool.base6.low).toNat = k ↔ _
  constructor
  · intro hoff
    split at hoff
    · simp at hoff
      omega
    · next hhigh =>
      split at hoff
      · simp at hoff
        omega
      · next hge =>
        have hle : pool.base6.low ≤ addr.low := UInt32.not_lt.mp hge
        rw [UInt32.toNat_sub_of_le _ _ hle] at hoff
        apply In6Addr.ext_low
        · rw [take_get6]
          exact not_not.mp hhigh
        · rw [low_get6]
          apply UInt32.toNat_inj.mp
          have := UInt32.le_iff_toNat_le.mp hle
          omega
  · rintro rfl
    have hle : pool.base6.low ≤ pool.base6.low + UInt32.ofNat k := by
      rw [UInt32.le_iff_toNat_le]
      omega
    rw [take_get6, if_neg (fun h => h rfl), low_get6,
      if_neg (UInt32.not_lt.mpr hle), UInt32.toNat_sub_of_le _ _ hle]
    omega

end AddrPool

/-! ### Runs

The record keeps the addresses that were allocated and not given back since, in the order of
their allocation; any address at all may be given back. -/

inductive PoolOp where
  | alloc
  | release (addr : UInt32)
  deriving DecidableEq

/-- A pool and the addresses that are out. -/
structure Leases where
  pool : AddrPool
  out : List UInt32
  deriving DecidableEq

def Leases.step (l : Leases) : PoolOp → Leases
  | .alloc =>
      match l.pool.alloc with
      | none => l
      | some (off, pool) => { pool := pool, out := l.out ++ [l.pool.addr off] }
  | .release a => { pool := l.pool.release a, out := l.out.erase a }

def Leases.run (l : Leases) (ops : List PoolOp) : Leases := Run.exec Leases.step l ops

theorem Leases.run_concat (l : Leases) (ops : List PoolOp) (op : PoolOp) :
    l.run (ops ++ [op]) = (l.run ops).step op := Run.exec_append Leases.step l ops [op]

/-- The record and the bitmap say the same. -/
structure Leases.Inv (l : Leases) : Prop where
  wf : l.pool.WF
  nodup : l.out.Nodup
  mem_iff : ∀ a, a ∈ l.out ↔
    ∃ off, 2 ≤ off ∧ off ≤ l.pool.poolSize ∧ l.pool.isUsed off = true ∧ a = l.pool.addr off

section
variable {l : Leases}

/-- A client offset is out exactly if its address is on the record. -/
theorem Leases.Inv.addr_mem_iff (h : l.Inv) {off : ℕ} (hlo : 2 ≤ off)
    (hhi : off ≤ l.pool.poolSize) :
    l.pool.addr off ∈ l.out ↔ l.pool.isUsed off = true := by
  rw [h.mem_iff]
  constructor
  · rintro ⟨off', -, hhi', hused, heq⟩
    rwa [h.wf.addr_inj hhi hhi' heq]
  · intro hused
    exact ⟨off, hlo, hhi, hused, rfl⟩

theorem Leases.Inv.alloc (h : l.Inv) : (l.step .alloc).Inv := by
  rw [Leases.step]
  split
  · exact h
  · next off pool ha =>
    obtain ⟨hlo, hhi, hfree, hwf, -, -, -, hused⟩ := AddrPool.alloc_spec h.wf ha
    obtain ⟨hsize, haddr⟩ := AddrPool.addr_of_range (AddrPool.range_alloc ha)
    have hnew : l.pool.addr off ∉ l.out := by
      rw [h.addr_mem_iff hlo hhi, hfree]
      simp
    refine ⟨hwf, ?_, fun a => ?_⟩
    · exact nodup_append.mpr ⟨h.nodup, nodup_singleton _, fun a ha b hb =>
        fun heq => hnew (mem_singleton.mp hb ▸ heq ▸ ha)⟩
    · simp only [mem_append, mem_singleton, h.mem_iff, hsize, hused, haddr]
      constructor
      · rintro (⟨o, h2, ho, hu, rfl⟩ | rfl)
        · refine ⟨o, h2, ho, ?_, rfl⟩
          split
          · rfl
          · exact hu
        · exact ⟨off, hlo, hhi, if_pos rfl, rfl⟩
      · rintro ⟨o, h2, ho, hu, rfl⟩
        split at hu
        · next heq => exact .inr (heq ▸ rfl)
        · exact .inl ⟨o, h2, ho, hu, rfl⟩

theorem Leases.Inv.release (h : l.Inv) (a : UInt32) : (l.step (.release a)).Inv := by
  obtain ⟨hsize, haddr⟩ := AddrPool.addr_of_range (l.pool.range_release a)
  refine ⟨h.wf.release a, h.nodup.erase a, fun b => ?_⟩
  change b ∈ l.out.erase a ↔ ∃ off, 2 ≤ off ∧ off ≤ (l.pool.release a).poolSize ∧
    (l.pool.release a).isUsed off = true ∧ b = (l.pool.release a).addr off
  simp only [h.nodup.mem_erase_iff, h.mem_iff, hsize, haddr]
  constructor
  · rintro ⟨hne, off, hlo, hhi, hused, rfl⟩
    exact ⟨off, hlo, hhi, (AddrPool.release_isUsed h.wf a (by omega) hhi).mpr ⟨hused, hne⟩, rfl⟩
  · rintro ⟨off, hlo, hhi, hused, rfl⟩
    obtain ⟨hu, hne⟩ := (AddrPool.release_isUsed h.wf a (by omega) hhi).mp hused
    exact ⟨hne, off, hlo, hhi, hu, rfl⟩

theorem Leases.Inv.step (h : l.Inv) (op : PoolOp) : (l.step op).Inv := by
  cases op with
  | alloc => exact h.alloc
  | release a => exact h.release a

theorem Leases.Inv.run (h : l.Inv) (ops : List PoolOp) : (l.run ops).Inv :=
  Run.exec_inv Leases.step (fun _ op hl => hl.step op) ops l h

theorem Leases.Inv.create {pool : AddrPool}
    (h : AddrPool.create base prefixLen subnet6 = some pool) :
    (Leases.mk pool []).Inv := by
  obtain ⟨hwf, hfree⟩ := AddrPool.create_spec h
  refine ⟨hwf, nodup_nil, fun a => ?_⟩
  simp [hfree]

@[simp] theorem Leases.range_step (op : PoolOp) : (l.step op).pool.range = l.pool.range := by
  cases op with
  | alloc =>
    rw [Leases.step]
    split
    · rfl
    · next ha => exact AddrPool.range_alloc ha
  | release a => exact AddrPool.range_release l.pool a

theorem Leases.range_run (ops : List PoolOp) : (l.run ops).pool.range = l.pool.range :=
  Run.exec_inv Leases.step (P := fun l' => l'.pool.range = l.pool.range)
    (fun _ op hl => (Leases.range_step op).trans hl) ops l rfl

end

/-- What a pool made from `base` owes its clients. -/
structure Leases.Ok (l : Leases) (base : UInt32) : Prop where
  /-- No address is out twice. -/
  nodup : l.out.Nodup
  /-- Every one is the base plus a client offset, and none is the server's. -/
  client : ∀ a ∈ l.out, a ≠ l.pool.serverAddr ∧
    ∃ off, 2 ≤ off ∧ off ≤ l.pool.poolSize ∧ a.toNat = base.toNat + off
  /-- An allocation hands out an address that is not out. -/
  fresh : ∀ off pool, l.pool.alloc = some (off, pool) → l.pool.addr off ∉ l.out
  /-- It fails exactly when all client offsets are out. -/
  exhausted : l.pool.alloc = none ↔
    ∀ off, 2 ≤ off → off ≤ l.pool.poolSize → l.pool.addr off ∈ l.out
  /-- After a release the client offsets that are out are those before, without the one
  whose address was given. -/
  released : ∀ a off, 2 ≤ off → off ≤ l.pool.poolSize →
    ((l.pool.release a).isUsed off = true ↔ l.pool.addr off ∈ l.out ∧ l.pool.addr off ≠ a)
  /-- An IPv6 address maps to a client offset exactly when it is the twin of that offset. -/
  twin : ∀ (addr : In6Addr) (k : ℕ), 2 ≤ k → k ≤ l.pool.poolSize →
    ((l.pool.offset6 addr.bytes).toNat = k ↔ addr = l.pool.get6 (UInt32.ofNat k))

theorem Leases.Inv.ok {l : Leases} (h : l.Inv) : l.Ok l.pool.base where
  nodup := h.nodup
  client := by
    intro a ha
    obtain ⟨off, hlo, hhi, -, rfl⟩ := (h.mem_iff a).mp ha
    refine ⟨fun heq => ?_, off, hlo, hhi, h.wf.toNat_addr hhi⟩
    have := h.wf.addr_inj hhi (by omega : 1 ≤ l.pool.poolSize) heq
    omega
  fresh := by
    intro off pool ha
    obtain ⟨hlo, hhi, hfree, -⟩ := AddrPool.alloc_spec h.wf ha
    rw [h.addr_mem_iff hlo hhi, hfree]
    simp
  exhausted := by
    rw [AddrPool.alloc_eq_none_iff]
    exact forall_congr' fun off => forall₂_congr fun hlo hhi => (h.addr_mem_iff hlo hhi).symm
  released := by
    intro a off hlo hhi
    rw [h.addr_mem_iff hlo hhi]
    exact AddrPool.release_isUsed h.wf a (by omega) hhi
  twin := fun addr k hlo hhi => h.wf.offset6_eq_iff addr (by omega) hhi

/-- **The addresses that are out, over every run** of allocations and releases, whatever
addresses are given back. -/
theorem leases_run {base : UInt32} {prefixLen : ℕ} {subnet6 : Option (In6Addr × ℕ)}
    {pool : AddrPool} (hcreate : AddrPool.create base prefixLen subnet6 = some pool)
    (ops : List PoolOp) :
    ((Leases.mk pool []).run ops).Ok base ∧
      ((Leases.mk pool []).run ops).pool.poolSize = pool.poolSize := by
  have hrange := Leases.range_run (l := Leases.mk pool []) ops
  have hbase : ((Leases.mk pool []).run ops).pool.base = pool.base := congrArg Prod.fst hrange
  have hok := ((Leases.Inv.create hcreate).run ops).ok
  rw [hbase, (AddrPool.create_fields hcreate).1] at hok
  exact ⟨hok, (AddrPool.addr_of_range hrange).1⟩

/-- A pool `10.0.0.0/29` with a twin prefix: a second release of one address and those of
foreign addresses change nothing. -/
theorem leases_run_small :
    ∃ pool, AddrPool.create 0x0a000000 29 (some (In6Addr.zero, 125)) = some pool ∧
      let l := (Leases.mk pool []).run [.alloc, .alloc, .release 0x0a000002, .release 0x0a000002,
        .release 0x0a000001, .release 0x0b000003]
      l.out = [0x0a000003] ∧ l.Ok 0x0a000000 :=
  ⟨_, rfl, by decide +kernel,
    (leases_run (show AddrPool.create 0x0a000000 29 (some (In6Addr.zero, 125)) = _ from rfl) _).1⟩

/-! ### What a pool can hand out -/

/-- The address is out after some run of a new pool. -/
def AddrPool.HandsOut (pool : AddrPool) (a : UInt32) : Prop :=
  ∃ ops, a ∈ ((Leases.mk pool []).run ops).out

/-- From a new pool the offsets are handed out in their order. -/
theorem AddrPool.run_allocs {pool : AddrPool}
    (hcreate : AddrPool.create base prefixLen subnet6 = some pool) (j : ℕ)
    (hj : j + 1 ≤ pool.poolSize) :
    ((Leases.mk pool []).run (List.replicate j .alloc)).pool.next = j + 2 ∧
      ∀ off, ((Leases.mk pool []).run (List.replicate j .alloc)).pool.isUsed off = true ↔
        2 ≤ off ∧ off < j + 2 := by
  induction j with
  | zero =>
    obtain ⟨-, hfree⟩ := AddrPool.create_spec hcreate
    refine ⟨(AddrPool.create_fields hcreate).2.2.1, fun off => ?_⟩
    change pool.isUsed off = true ↔ _
    rw [hfree]
    simp only [Bool.false_eq_true, false_iff]
    omega
  | succ j ih =>
    obtain ⟨hnext, hused⟩ := ih (by omega)
    have hinv := (Leases.Inv.create hcreate).run (replicate j .alloc)
    obtain ⟨hsize, -⟩ := AddrPool.addr_of_range
      (Leases.range_run (l := Leases.mk pool []) (replicate j .alloc))
    rw [replicate_succ', Leases.run_concat]
    generalize (Leases.mk pool []).run (replicate j .alloc) = l at *
    dsimp only at hsize
    have hfree : l.pool.isUsed (j + 2) = false := by
      rw [← Bool.not_eq_true, hused]
      omega
    have halloc := AddrPool.alloc_at_next (by omega) (by omega) hnext hfree
    rw [Leases.step, halloc]
    refine ⟨rfl, fun off => ?_⟩
    change ({ l.pool with used := l.pool.used.set (j + 2) true } : AddrPool).isUsed off = true ↔ _
    rw [AddrPool.isUsed_set hinv.wf (by omega)]
    split
    · next heq => simp only [true_iff]; omega
    · rw [hused]
      omega

/-- **A pool can hand out the addresses of the client offsets**, and no others. -/
theorem AddrPool.handsOut_iff {pool : AddrPool}
    (hcreate : AddrPool.create base prefixLen subnet6 = some pool) (a : UInt32) :
    pool.HandsOut a ↔ ∃ off, 2 ≤ off ∧ off ≤ pool.poolSize ∧ a = pool.addr off := by
  have hinv (ops : List PoolOp) := (Leases.Inv.create hcreate).run ops
  have hrange (ops : List PoolOp) :=
    AddrPool.addr_of_range (Leases.range_run (l := Leases.mk pool []) ops)
  constructor
  · rintro ⟨ops, hmem⟩
    obtain ⟨off, hlo, hhi, -, rfl⟩ := ((hinv ops).mem_iff a).mp hmem
    exact ⟨off, hlo, hhi.trans_eq (hrange ops).1, (hrange ops).2 off⟩
  · rintro ⟨off, hlo, hhi, rfl⟩
    obtain ⟨-, hused⟩ := AddrPool.run_allocs hcreate (off - 1) (by omega)
    exact ⟨_, ((hinv _).mem_iff _).mpr ⟨off, hlo, hhi.trans_eq (hrange _).1.symm,
      (hused off).mpr (by omega), ((hrange _).2 off).symm⟩⟩

end Mqvpn.Svr
