import Mqvpn.Egress.Acl

/-!
# Where a request wants to go

The path of a TCP request names a host and a port,
`/.well-known/mqvpn/tcp/<host>/<port>/`.  The host is handed on as a C string and read by
`inet_pton`, which is a parameter here: what is proved holds for whatever it accepts.

## Main definitions

* `parsePath` — `svr_tcp_egress_parse_path`.
* `resolve`, `aclAllowed` — the address of a host, and whether it may be connected to.
* `parseCidr` — `mqvpn_parse_cidr`, which reads the rules of the operator.

## Main results

* `parsePath_iff` — **the paths that are accepted**, all of them, and what is read off them.
-/

namespace Mqvpn.Egress

open Svr List

/-- `/.well-known/mqvpn/tcp/`. -/
def pathPrefix : List UInt8 :=
  [0x2f, 0x2e, 0x77, 0x65, 0x6c, 0x6c, 0x2d, 0x6b, 0x6e, 0x6f, 0x77, 0x6e, 0x2f, 0x6d, 0x71,
    0x76, 0x70, 0x6e, 0x2f, 0x74, 0x63, 0x70, 0x2f]

/-- `/`. -/
def slash : UInt8 := 0x2f

/-- `:`. -/
def colon : UInt8 := 0x3a

/-- `INET6_ADDRSTRLEN`, the room for a host and its closing zero. -/
def inet6AddrStrLen : ℕ := 46

/-- The bytes before the first slash and those behind it. -/
def splitSlash : List UInt8 → Option (List UInt8 × List UInt8)
  | [] => none
  | b :: bytes =>
      if b = slash then some ([], bytes)
      else (splitSlash bytes).map fun r => (b :: r.1, r.2)

/-- The digits of a port, read behind the value `port`. -/
def portLoop (port : ℕ) : List UInt8 → Option ℕ
  | [] => some port
  | c :: cs =>
      if c < 0x30 ∨ 0x39 < c then none
      else
        let port := port * 10 + (c.toNat - 0x30)
        if 65535 < port then none else portLoop port cs

/-- `svr_tcp_egress_parse_path`: the host and the port. -/
def parsePath : Option (List UInt8) → Option (List UInt8 × ℕ)
  | none => none
  | some path =>
      if path.length ≤ pathPrefix.length then none
      else if path.take pathPrefix.length ≠ pathPrefix then none
      else
        match splitSlash (path.drop pathPrefix.length) with
        | none => none
        | some (host, rest) =>
            if host = [] ∨ inet6AddrStrLen ≤ host.length then none
            else
              match splitSlash rest with
              | none => none
              | some (digits, rest) =>
                  if rest ≠ [] then none
                  else if digits = [] ∨ 5 < digits.length then none
                  else
                    match portLoop 0 digits with
                    | none => none
                    | some port => if port < 1 then none else some (host, port)

/-- The C string that starts with the given bytes. -/
def cString (bytes : List UInt8) : List UInt8 := bytes.takeWhile (· != 0)

/-- `inet_pton`, on C strings. -/
structure InetPton where
  v4 : List UInt8 → Option UInt32
  v6 : List UInt8 → Option In6Addr

/-- The family and the address of a host: with a colon it is read as IPv6. -/
def resolve (pton : InetPton) (host : List UInt8) : Option (UInt8 × In6Addr) :=
  if host.contains colon then (pton.v6 host).map fun addr => (6, addr)
  else (pton.v4 host).map fun addr => (4, addr4 addr)

/-- `svr_tcp_egress_acl_allowed`. -/
def aclAllowed (pton : InetPton) (policy : EgressPolicy) (host : List UInt8) : Bool :=
  match resolve pton host with
  | none => false
  | some (family, addr) => policy.allows family addr

def IsDigit (c : UInt8) : Prop := 0x30 ≤ c ∧ c ≤ 0x39

instance : DecidablePred IsDigit := fun c => inferInstanceAs (Decidable (0x30 ≤ c ∧ c ≤ 0x39))

/-- The value of decimal digits, read behind the value `v`. -/
def decimalFrom (v : ℕ) (digits : List UInt8) : ℕ :=
  digits.foldl (fun v c => v * 10 + (c.toNat - 0x30)) v

/-- `mqvpn_parse_cidr`; the length is read by `strtol`, which must stop at the end of the string. -/
def parseCidr (pton : InetPton) (s : List UInt8) : Option CidrEntry :=
  if s = [] ∨ inet6AddrStrLen + 8 ≤ s.length then none
  else
    match splitSlash s with
    | none => none
    | some (host, digits) =>
        match resolve pton host with
        | none => none
        | some (family, net) =>
            if digits = [] ∨ digits.any (¬ IsDigit ·) then none
            else
              let len := decimalFrom 0 digits
              if (if family = 6 then 128 else 32) < len then none
              else some ⟨family, UInt8.ofNat len, cidrPremask net len⟩

/-! ### The accepted paths -/

theorem splitSlash_iff {bytes before behind : List UInt8} :
    splitSlash bytes = some (before, behind) ↔
      bytes = before ++ slash :: behind ∧ slash ∉ before := by
  induction bytes generalizing before with
  | nil => simp [splitSlash]
  | cons b bytes ih =>
    rw [splitSlash]
    by_cases hb : b = slash
    · subst hb
      rw [if_pos rfl]
      constructor
      · intro h
        cases h
        exact ⟨rfl, not_mem_nil⟩
      · rintro ⟨heq, hnot⟩
        cases before with
        | nil =>
          cases heq
          rfl
        | cons a before =>
          cases heq
          exact absurd mem_cons_self hnot
    · rw [if_neg hb]
      cases before with
      | nil =>
        constructor
        · intro h
          simp at h
        · rintro ⟨heq, -⟩
          cases heq
          exact absurd rfl hb
      | cons a before =>
        have hiff := @ih before
        simp only [Option.map_eq_some_iff, Prod.mk.injEq, cons.injEq, Prod.exists,
          cons_append, mem_cons, not_or]
        constructor
        · rintro ⟨pre, post, hsplit, ⟨rfl, rfl⟩, rfl⟩
          obtain ⟨heq, hnot⟩ := hiff.mp hsplit
          exact ⟨⟨rfl, heq⟩, Ne.symm hb, hnot⟩
        · rintro ⟨⟨rfl, heq⟩, -, hnot⟩
          exact ⟨before, behind, hiff.mpr ⟨heq, hnot⟩, ⟨rfl, rfl⟩, rfl⟩

theorem le_decimalFrom (v : ℕ) (digits : List UInt8) : v ≤ decimalFrom v digits := by
  induction digits generalizing v with
  | nil => exact le_refl v
  | cons c cs ih =>
    calc v ≤ v * 10 + (c.toNat - 0x30) := by omega
      _ ≤ decimalFrom v (c :: cs) := ih _

/-- The loop reads digits only, and gives up as soon as the value is too large. -/
theorem portLoop_iff (port q : ℕ) (hport : port ≤ 65535) (digits : List UInt8) :
    portLoop port digits = some q ↔
      (∀ c ∈ digits, IsDigit c) ∧ decimalFrom port digits = q ∧ q ≤ 65535 := by
  induction digits generalizing port with
  | nil =>
    simp only [portLoop, Option.some.injEq, decimalFrom, foldl_nil, not_mem_nil,
      false_implies, implies_true, true_and]
    exact ⟨fun h => ⟨h, h ▸ hport⟩, fun h => h.1⟩
  | cons c cs ih =>
    rw [portLoop]
    by_cases hdigit : c < 0x30 ∨ 0x39 < c
    · rw [if_pos hdigit]
      simp only [reduceCtorEq, false_iff]
      rintro ⟨hall, -⟩
      obtain ⟨hlo, hhi⟩ := hall c mem_cons_self
      rcases hdigit with h | h
      · exact absurd hlo (UInt8.not_le.mpr h)
      · exact absurd hhi (UInt8.not_le.mpr h)
    · rw [if_neg hdigit]
      rw [not_or, UInt8.not_lt, UInt8.not_lt] at hdigit
      have hstep : decimalFrom port (c :: cs) =
          decimalFrom (port * 10 + (c.toNat - 0x30)) cs := rfl
      by_cases hlarge : 65535 < port * 10 + (c.toNat - 0x30)
      · rw [if_pos hlarge, hstep]
        simp only [reduceCtorEq, false_iff]
        rintro ⟨-, hvalue, hle⟩
        have := le_decimalFrom (port * 10 + (c.toNat - 0x30)) cs
        omega
      · rw [if_neg hlarge, hstep, ih _ (by omega)]
        simp only [mem_cons, forall_eq_or_imp]
        exact ⟨fun h => ⟨⟨hdigit, h.1⟩, h.2⟩, fun h => ⟨h.1.2, h.2⟩⟩

/-- The path names the host and the port, the way the client writes it. -/
structure NamesTarget (path host : List UInt8) (port : ℕ) (digits : List UInt8) : Prop where
  shape : path = pathPrefix ++ (host ++ slash :: (digits ++ [slash]))
  host_ne : host ≠ []
  host_short : host.length < inet6AddrStrLen
  host_segment : slash ∉ host
  digits_ne : digits ≠ []
  digits_short : digits.length ≤ 5
  digits_only : ∀ c ∈ digits, IsDigit c
  value : decimalFrom 0 digits = port
  low : 1 ≤ port
  high : port ≤ 65535

/-- **The accepted paths.** -/
theorem parsePath_iff {path : Option (List UInt8)} {host : List UInt8} {port : ℕ} :
    parsePath path = some (host, port) ↔
      ∃ bytes digits, path = some bytes ∧ NamesTarget bytes host port digits := by
  cases path with
  | none => simp [parsePath]
  | some bytes =>
    simp only [Option.some.injEq, exists_and_left, exists_eq_left']
    constructor
    · intro h
      rw [parsePath] at h
      split at h
      · cases h
      split at h
      · cases h
      next hprefix =>
      split at h
      · cases h
      next host' rest hhost =>
      split at h
      · cases h
      next hlen =>
      split at h
      · cases h
      next digits rest' hdigits =>
      split at h
      · cases h
      next hend =>
      split at h
      · cases h
      next hdlen =>
      split at h
      · cases h
      next port' hport =>
      split at h
      · cases h
      next hlow =>
      cases h
      rw [not_or, not_le] at hlen
      rw [not_or, not_lt] at hdlen
      rw [not_not] at hprefix hend
      subst hend
      obtain ⟨hbytes, hseg⟩ := splitSlash_iff.mp hhost
      obtain ⟨rfl, -⟩ := splitSlash_iff.mp hdigits
      obtain ⟨honly, hvalue, hhigh⟩ := (portLoop_iff 0 port (by omega) digits).mp hport
      refine ⟨digits, ?_, hlen.1, hlen.2, hseg, hdlen.1, hdlen.2, honly, hvalue, by omega, hhigh⟩
      rw [← hbytes, ← take_append_drop pathPrefix.length bytes, hprefix]
      simp
    · rintro ⟨digits, h⟩
      have hslash : slash ∉ digits := fun hmem => absurd (h.digits_only _ hmem) (by decide)
      have htake : bytes.take pathPrefix.length = pathPrefix := by
        rw [h.shape, take_left]
      have hdrop : bytes.drop pathPrefix.length = host ++ slash :: (digits ++ [slash]) := by
        rw [h.shape, drop_left]
      have hlong : ¬ bytes.length ≤ pathPrefix.length := by
        rw [h.shape]
        simp
      have hhost := splitSlash_iff.mpr ⟨hdrop, h.host_segment⟩
      have hdigits : splitSlash (digits ++ [slash]) = some (digits, []) :=
        splitSlash_iff.mpr ⟨rfl, hslash⟩
      have hport := (portLoop_iff 0 port (by omega) digits).mpr
        ⟨h.digits_only, h.value, h.high⟩
      have hhlen := h.host_short
      have hdlen := h.digits_short
      have hlow := h.low
      rw [parsePath, if_neg hlong, if_neg (not_not.mpr htake), hhost]
      dsimp only
      rw [if_neg (by simp [h.host_ne]; omega), hdigits]
      dsimp only
      rw [if_neg (by simp), if_neg (by simp [h.digits_ne]; omega), hport]
      dsimp only
      rw [if_neg (by omega)]

/-! ### The rules of the operator -/

variable {pton : InetPton} {host s : List UInt8} {family : UInt8} {addr : In6Addr}

/-- A host with a colon is read as IPv6, any other as IPv4. -/
theorem resolve_family (h : resolve pton host = some (family, addr)) :
    host.contains colon = true ∧ family = 6 ∨ host.contains colon = false ∧ family = 4 := by
  rw [resolve] at h
  split at h
  · next hcolon =>
    obtain ⟨a, -, heq⟩ := Option.map_eq_some_iff.mp h
    exact .inl ⟨hcolon, (congrArg Prod.fst heq).symm⟩
  · next hcolon =>
    obtain ⟨a, -, heq⟩ := Option.map_eq_some_iff.mp h
    exact .inr ⟨by simpa using hcolon, (congrArg Prod.fst heq).symm⟩

/-- **A rule is the prefix that was written**, whatever stands behind it in the address. -/
theorem parseCidr_contains {e : CidrEntry} (h : parseCidr pton s = some e) :
    ∃ host digits a, s = host ++ slash :: digits ∧ slash ∉ host ∧
      resolve pton host = some (e.family, a) ∧ decimalFrom 0 digits = e.prefixLen.toNat ∧
      ∀ family x, e.Contains family x ↔ family = e.family ∧ SameBits e.prefixLen.toNat x a := by
  rw [parseCidr, Option.ite_none_left_eq_some] at h
  obtain ⟨-, h⟩ := h
  split at h
  · cases h
  next host digits hsplit =>
  split at h
  · cases h
  next family net haddr =>
  simp only [Option.ite_none_left_eq_some, Option.some.injEq] at h
  obtain ⟨-, hle, rfl⟩ := h
  obtain ⟨hs, hhost⟩ := splitSlash_iff.mp hsplit
  have hlen : decimalFrom 0 digits ≤ 128 := by
    split at hle <;> omega
  have hbyte : (UInt8.ofNat (decimalFrom 0 digits)).toNat = decimalFrom 0 digits := by
    rw [UInt8.toNat_ofNat']
    omega
  have hzero : family ≠ 0 := by
    rcases resolve_family haddr with ⟨-, rfl⟩ | ⟨-, rfl⟩ <;> decide
  refine ⟨host, digits, net, hs, hhost, haddr, hbyte.symm, fun family' x => ?_⟩
  -- the bits behind the prefix are cleared, which the comparison does not see
  have hkeep := BitPrefix.agree_keep (decimalFrom 0 digits) x.bytes net.bytes
  rw [← cidrPremask_bytes] at hkeep
  rw [CidrEntry.Contains, hbyte, ← agree_iff_sameBits hlen, hkeep, agree_iff_sameBits hlen]
  exact ⟨fun hc => ⟨hc.2.1.symm, hc.2.2.2⟩, fun hc => ⟨hzero, hc.1.symm, hlen, hc.2⟩⟩

end Mqvpn.Egress
