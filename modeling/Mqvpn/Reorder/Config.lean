import Mqvpn.Reorder.Wire

/-!
# Configuration of the reorder shim

The configuration both ends copy when they are created.  Durations keep their
machine width, since the code multiplies them into 64-bit microseconds; counts and
byte limits are only ever compared and are plain numbers.

A rule maps a port to a profile.  `Config.finalize` resolves each rule's effective
wait and capacity once, and `Config.validate` is the check an engine makes before it
accepts a configuration.

## Main definitions

* `matchRule`, `Config.flowWait`, `Config.flowCap` — the wait and capacity of a flow.
* `Config.validate`, `Config.finalize` — what `rx_new` does to a configuration.
* `Config.RxReady` — what is left to rely on after both.

## Main results

* `capIsValid_iff` — the bit test of the source is "a power of two".
* `rxReady_finalize` — **an accepted configuration gives every flow a power-of-two
  capacity**, whatever its rules say.
-/

namespace Mqvpn.Reorder

/-- `mqvpn_reorder_mode_t`. -/
inductive Mode where
  | off
  | on
  deriving DecidableEq

/-- `mqvpn_reorder_profile_t`. -/
inductive Profile where
  | quicBulk
  | lowLatency
  | defaultUdp
  | cellularBond
  | fiberLte
  deriving DecidableEq

/-- The `(wait_ms, cap)` preset of a profile, if it has one. -/
def profilePreset : Profile → Option (UInt32 × ℕ)
  | .quicBulk => some (50, 1024)
  | .cellularBond => some (50, 1024)
  | .fiberLte => some (50, 2048)
  | .lowLatency => none
  | .defaultUdp => none

/-- A port and protocol rule, `mqvpn_reorder_rule_t`.  An explicit value of `0` is
unset; the resolved values are filled by `Config.finalize`. -/
structure Rule where
  proto : UInt8
  port : UInt16
  profile : Profile
  explicitWaitMs : UInt32
  explicitCap : ℕ
  resolvedWaitMs : UInt32
  resolvedCap : ℕ
  deriving DecidableEq

/-- `mqvpn_reorder_config_t`; the rule array and its count are one list. -/
structure Config where
  mode : Mode
  maxWaitMs : UInt32
  capPacketsPerFlow : ℕ
  maxBufferBytesPerFlow : ℕ
  classifyWindow : ℕ
  ackDemoteMaxLargePackets : ℕ
  smallPacketThresholdBytes : ℕ
  resetMarkPackets : ℕ
  resetIdleGraceMs : UInt32
  maxFlows : ℕ
  globalMaxBufferBytes : ℕ
  ingressIdleTimeoutSec : UInt32
  egressIdleTimeoutSec : UInt32
  evalForceNoDemotion : Bool
  hasExplicitWait : Bool
  hasExplicitCap : Bool
  rules : List Rule
  deriving DecidableEq

/-- The built-in values. -/
def Config.default : Config where
  mode := .off
  maxWaitMs := 30
  capPacketsPerFlow := 1024
  maxBufferBytesPerFlow := 1572864
  classifyWindow := 64
  ackDemoteMaxLargePackets := 3
  smallPacketThresholdBytes := 200
  resetMarkPackets := 8
  resetIdleGraceMs := 10000
  maxFlows := 65536
  globalMaxBufferBytes := 67108864
  ingressIdleTimeoutSec := 30
  egressIdleTimeoutSec := 300
  evalForceNoDemotion := false
  hasExplicitWait := false
  hasExplicitCap := false
  rules := []

/-- A rule applies to a key of its protocol that has its port on either side. -/
def Rule.applies (r : Rule) (key : FlowKey) : Bool :=
  r.proto == key.proto && (r.port == key.srcPort || r.port == key.dstPort)

def matchRule (cfg : Config) (key : FlowKey) : Option Rule :=
  cfg.rules.find? fun r => r.applies key

/-- The wait of a flow: its rule's resolved one, else the global one. -/
def Config.flowWait (cfg : Config) (key : FlowKey) : UInt32 :=
  match matchRule cfg key with
  | some r => r.resolvedWaitMs
  | none => cfg.maxWaitMs

/-- The ring capacity of a flow, resolved like its wait. -/
def Config.flowCap (cfg : Config) (key : FlowKey) : ℕ :=
  match matchRule cfg key with
  | some r => r.resolvedCap
  | none => cfg.capPacketsPerFlow

/-- `mqvpn_reorder_cap_is_valid`. -/
def capIsValid (cap : ℕ) : Bool := cap != 0 && (cap &&& (cap - 1)) == 0

/-- The resolved wait of a rule: explicit, then global explicit, then preset, then
built-in; the `default_udp` class never waits. -/
def resolveWait (cfg : Config) (r : Rule) : UInt32 :=
  if r.profile = .defaultUdp then 0
  else if r.explicitWaitMs ≠ 0 then r.explicitWaitMs
  else if cfg.hasExplicitWait then cfg.maxWaitMs
  else
    match profilePreset r.profile with
    | some (w, _) => w
    | none => cfg.maxWaitMs

/-- The capacity of a rule by the same precedence; an invalid explicit capacity
counts as unset. -/
def chooseCap (cfg : Config) (r : Rule) : ℕ :=
  if capIsValid r.explicitCap then r.explicitCap
  else if cfg.hasExplicitCap then cfg.capPacketsPerFlow
  else
    match profilePreset r.profile with
    | some (_, c) => c
    | none => cfg.capPacketsPerFlow

/-- The resolved capacity of a rule: an invalid choice is replaced by the built-in. -/
def resolveCap (cfg : Config) (r : Rule) : ℕ :=
  if capIsValid (chooseCap cfg r) then chooseCap cfg r else 1024

/-- Resolve every rule. -/
def Config.finalize (cfg : Config) : Config :=
  { cfg with
    rules := cfg.rules.map fun r =>
      { r with resolvedWaitMs := resolveWait cfg r, resolvedCap := resolveCap cfg r } }

/-- The receiver must go idle strictly before the sender, and the global capacity
must be a power of two. -/
def Config.validate (cfg : Config) : Bool :=
  decide (cfg.ingressIdleTimeoutSec < cfg.egressIdleTimeoutSec) && capIsValid cfg.capPacketsPerFlow

/-! ### What validation gives -/

/-- Every flow of this configuration gets a ring capacity that is a power of two. -/
def Config.RxReady (cfg : Config) : Prop := ∀ key, (cfg.flowCap key).isPowerOfTwo

theorem capIsValid_iff {cap : ℕ} : capIsValid cap = true ↔ cap.isPowerOfTwo := by
  rw [capIsValid, Bool.and_eq_true, bne_iff_ne, beq_iff_eq]
  exact Nat.ne_zero_and_sub_one_eq_zero_iff_isPowerOfTwo

theorem isPowerOfTwo_resolveCap (cfg : Config) (r : Rule) : (resolveCap cfg r).isPowerOfTwo := by
  unfold resolveCap
  split
  · next h => exact capIsValid_iff.mp h
  · exact ⟨10, rfl⟩

/-- **An accepted configuration, once finalized, gives every flow a power-of-two
capacity.** -/
theorem rxReady_finalize {cfg : Config} (h : cfg.validate = true) : cfg.finalize.RxReady := by
  intro key
  rw [Config.validate, Bool.and_eq_true] at h
  unfold Config.flowCap
  split
  · next r hr =>
    have hmem : r ∈ cfg.finalize.rules := List.mem_of_find?_eq_some hr
    obtain ⟨r', -, rfl⟩ := List.mem_map.mp hmem
    exact isPowerOfTwo_resolveCap cfg r'
  · exact capIsValid_iff.mp h.2

theorem validate_default : Config.default.validate = true := by decide

end Mqvpn.Reorder
