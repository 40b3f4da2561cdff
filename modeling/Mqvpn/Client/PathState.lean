import Mqvpn.Endpoint.Interest

/-!
# The lifecycle of a path slot

A slot of the client holds a path from `add_path` until its transport was released and
xquic has let go of it.  Nine internal states carry the lifecycle; each event has one
handler, which either ignores the event in the states it does not belong to or moves the
slot and the fields that go with the state.

Times are microseconds without an end; names, addresses and the counters for logs are left
out.

## Main definitions

* `PathEntry.Ok` — the invariant check of the source, `path_invariant_check`.
* `PathEntry.Inv` — the check together with what the handlers rely on beyond it.
* `PathEntry.Moved` — what an event can do to a slot.

## Main results

* `PathEntry.Inv.onEvent` — **no event breaks the check**, in whatever state it comes, and
  what it may change besides.
-/

namespace Mqvpn.Cli

open Endpoint (pathStableThresholdUs)

/-- `path_lifecycle_t`. -/
inductive Lifecycle where
  | pending
  /-- The last attempt failed, the retry timer is armed. -/
  | createWait
  /-- xquic has the path, validation is pending. -/
  | validating
  | active
  | standby
  | degraded
  /-- Given up, the transport is still attached. -/
  | closedRecoverable
  /-- Dropped by the platform or removed, cleanup is pending. -/
  | closedDropped
  | closedFree
  deriving DecidableEq

/-- `mqvpn_path_status_t`. -/
inductive PathStatus where
  | pending
  | active
  | standby
  | degraded
  | closed
  deriving DecidableEq

/-- `path_public_status_from_lifecycle`. -/
def Lifecycle.publicStatus : Lifecycle → PathStatus
  | .pending => .pending
  | .createWait => .pending
  | .validating => .pending
  | .active => .active
  | .standby => .standby
  | .degraded => .degraded
  | .closedRecoverable => .closed
  | .closedDropped => .closed
  | .closedFree => .closed

/-- `mqvpn_path_ops_t` with its `send`: which of the other two operations are there. -/
structure PathOps where
  getStats : Bool
  release : Bool
  deriving DecidableEq

/-- `path_entry_t`.  `ops` is `none` while `ops.send` is not set, and `transportCtx` is `0`
for a null pointer. -/
structure PathEntry where
  handle : ℕ
  ops : Option PathOps
  transportCtx : ℕ
  transportAttached : Bool
  transportReleased : Bool
  status : PathStatus
  state : Lifecycle
  xqcPathId : ℕ
  xquicPathLive : Bool
  recreateAfterUs : ℕ
  recreateRetries : ℕ
  pathStableSinceUs : ℕ
  stateEnteredAtUs : ℕ
  deriving DecidableEq

/-- `path_invariant_check`. -/
def PathEntry.Ok (p : PathEntry) : Prop :=
  p.status = p.state.publicStatus ∧
    match p.state with
    | .pending =>
        p.transportAttached = true ∧ p.transportReleased = false ∧ p.xquicPathLive = false ∧
          p.xqcPathId = 0 ∧ p.recreateAfterUs = 0 ∧ p.pathStableSinceUs = 0
    | .createWait =>
        p.transportAttached = true ∧ p.transportReleased = false ∧ p.xquicPathLive = false ∧
          p.recreateAfterUs ≠ 0
    | .validating =>
        p.transportAttached = true ∧ p.transportReleased = false ∧ p.xquicPathLive = true ∧
          p.recreateAfterUs = 0
    | .active | .standby =>
        p.transportAttached = true ∧ p.transportReleased = false ∧ p.xquicPathLive = true ∧
          p.recreateAfterUs = 0
    | .degraded =>
        p.transportAttached = true ∧ p.transportReleased = false ∧ p.xquicPathLive = false ∧
          p.xqcPathId = 0 ∧ p.recreateAfterUs ≠ 0 ∧ p.pathStableSinceUs = 0
    | .closedRecoverable =>
        p.transportAttached = true ∧ p.transportReleased = false ∧ p.xquicPathLive = false ∧
          p.xqcPathId = 0 ∧ p.recreateAfterUs = 0 ∧ p.pathStableSinceUs = 0
    | .closedDropped =>
        p.transportAttached = false ∧ p.recreateAfterUs = 0 ∧ p.pathStableSinceUs = 0
    | .closedFree =>
        p.transportAttached = false ∧ p.transportReleased = true ∧ p.xquicPathLive = false ∧
          p.xqcPathId = 0 ∧ p.ops = none ∧ p.transportCtx = 0 ∧ p.recreateAfterUs = 0 ∧
          p.pathStableSinceUs = 0

/-! ### Handlers -/

/-- `PATH_RECREATE_DELAY_US`. -/
def pathRecreateDelayUs : ℕ := 5000000

/-- `PATH_RECREATE_MAX_DELAY_US`. -/
def pathRecreateMaxDelayUs : ℕ := 60000000

/-- `PATH_RECREATE_MAX_RETRIES`. -/
def pathRecreateMaxRetries : ℕ := 6

/-- Doubling a delay `n` times at most, while it is below the maximum. -/
def doubled (max : ℕ) : ℕ → ℕ → ℕ
  | 0, delay => delay
  | n + 1, delay => if delay < max then doubled max n (delay * 2) else delay

/-- The same, and not more than the maximum. -/
def backoff (max n delay : ℕ) : ℕ :=
  let delay := doubled max n delay
  if max < delay then max else delay

/-- `path_recreate_backoff`. -/
def pathRecreateBackoff (retries : ℕ) : ℕ :=
  backoff pathRecreateMaxDelayUs (retries - 1) pathRecreateDelayUs

/-- `set_path_state_with_log`: nothing happens on a self-loop that was recorded before. -/
def setPathState (now : ℕ) (newState : Lifecycle) (p : PathEntry) : PathEntry :=
  if p.state ≠ newState ∨ p.stateEnteredAtUs = 0 then
    { p with status := newState.publicStatus, state := newState, stateEnteredAtUs := now }
  else p

/-- `path_entry_init`. -/
def pathEntryInit : PathEntry where
  handle := 0
  ops := none
  transportCtx := 0
  transportAttached := false
  transportReleased := true
  status := .closed
  state := .closedFree
  xqcPathId := 0
  xquicPathLive := false
  recreateAfterUs := 0
  recreateRetries := 0
  pathStableSinceUs := 0
  stateEnteredAtUs := 0

/-- `apply_failure_with_retry_check`. -/
def applyFailureWithRetryCheck (now : ℕ) (retryTarget : Lifecycle) (p : PathEntry) : PathEntry :=
  let p := { p with
    xquicPathLive := false
    xqcPathId := 0
    pathStableSinceUs := 0
    recreateRetries := p.recreateRetries + 1 }
  if pathRecreateMaxRetries ≤ p.recreateRetries then
    setPathState now .closedRecoverable { p with recreateAfterUs := 0 }
  else
    setPathState now retryTarget
      { p with recreateAfterUs := now + pathRecreateBackoff p.recreateRetries }

/-- `activate_result_t`, with the id of a path that was created. -/
inductive ActivateResult where
  | ok (newXqcPathId : ℕ)
  | transientFail
  | permanentFail
  deriving DecidableEq

def PathEntry.created (now newXqcPathId : ℕ) (p : PathEntry) : PathEntry :=
  setPathState now .validating
    { p with xqcPathId := newXqcPathId, xquicPathLive := true, recreateAfterUs := 0 }

/-- What an attempt to create the path came to. -/
def PathEntry.attempted (now : ℕ) (retryTarget : Lifecycle) (result : ActivateResult)
    (p : PathEntry) : PathEntry :=
  match result with
  | .ok newXqcPathId => p.created now newXqcPathId
  | .transientFail => applyFailureWithRetryCheck now retryTarget p
  | .permanentFail =>
      setPathState now .closedRecoverable
        { p with
          xquicPathLive := false
          xqcPathId := 0
          pathStableSinceUs := 0
          recreateAfterUs := 0 }

/-- `path_on_activate_requested`. -/
def pathOnActivateRequested (now : ℕ) (result : ActivateResult) (p : PathEntry) : PathEntry :=
  if p.state ≠ .pending then p else p.attempted now .createWait result

/-- `path_on_retry_timer`; a failure leaves the state it was retried from. -/
def pathOnRetryTimer (now : ℕ) (result : ActivateResult) (p : PathEntry) : PathEntry :=
  if p.state ≠ .createWait ∧ p.state ≠ .degraded then p else p.attempted now p.state result

/-- `path_on_validation_ok`. -/
def pathOnValidationOk (now : ℕ) (validatedTarget : Lifecycle) (p : PathEntry) : PathEntry :=
  if p.state ≠ .validating then p
  else setPathState now validatedTarget { p with pathStableSinceUs := now }

/-- `maybe_transition_dropped_to_free`. -/
def maybeTransitionDroppedToFree (now : ℕ) (p : PathEntry) : PathEntry :=
  if p.state ≠ .closedDropped then p
  else if !p.transportReleased then p
  else if p.xquicPathLive then p
  else if p.xqcPathId ≠ 0 then p
  else setPathState now .closedFree p

/-- `path_on_xquic_removed`. -/
def pathOnXquicRemoved (now : ℕ) (p : PathEntry) : PathEntry :=
  match p.state with
  | .validating => applyFailureWithRetryCheck now .createWait p
  | .active => applyFailureWithRetryCheck now .degraded p
  | .standby => applyFailureWithRetryCheck now .degraded p
  | .closedDropped =>
      maybeTransitionDroppedToFree now { p with xquicPathLive := false, xqcPathId := 0 }
  | _ => p

/-- `path_on_manual_reactivate`: a failure changes nothing, and the retry timer goes on. -/
def pathOnManualReactivate (now : ℕ) (result : ActivateResult) (p : PathEntry) : PathEntry :=
  if p.state ≠ .closedRecoverable ∧ p.state ≠ .createWait ∧ p.state ≠ .degraded then p
  else
    match result with
    | .ok newXqcPathId => p.created now newXqcPathId
    | _ => p

/-- The platform takes the transport of a slot away. -/
def PathEntry.detached (now : ℕ) (p : PathEntry) : PathEntry :=
  if p.state = .closedDropped then p
  else if p.state = .closedFree then p
  else
    setPathState now .closedDropped
      { p with transportAttached := false, recreateAfterUs := 0, pathStableSinceUs := 0 }

/-- `path_on_platform_drop`. -/
def pathOnPlatformDrop (now : ℕ) (p : PathEntry) : PathEntry := p.detached now

/-- `path_on_remove_api`. -/
def pathOnRemoveApi (now : ℕ) (p : PathEntry) : PathEntry := p.detached now

/-- `path_on_add`. -/
def pathOnAdd (now : ℕ) (p : PathEntry) : PathEntry :=
  if p.state ≠ .closedFree then p
  else setPathState now .pending { p with transportAttached := true, transportReleased := false }

/-- `path_on_conn_reset`. -/
def pathOnConnReset (now : ℕ) (p : PathEntry) : PathEntry :=
  let p := { p with
    xquicPathLive := false
    xqcPathId := 0
    recreateAfterUs := 0
    recreateRetries := 0
    pathStableSinceUs := 0 }
  if p.transportAttached then setPathState now .pending p else maybeTransitionDroppedToFree now p

/-- `path_on_transport_released`. -/
def pathOnTransportReleased (now : ℕ) (p : PathEntry) : PathEntry :=
  if p.state ≠ .closedDropped then p
  else maybeTransitionDroppedToFree now { p with transportCtx := 0, transportReleased := true }

/-- `path_event_t`, with the members of the context the event has. -/
inductive PathEvent where
  | activateRequested (result : ActivateResult)
  | retryTimer (result : ActivateResult)
  | validationOk (validatedTarget : Lifecycle)
  | xquicRemoved
  | manualReactivate (result : ActivateResult)
  | platformDrop
  | removeApi
  | add
  | connReset
  | transportReleased
  deriving DecidableEq

/-- `path_on_event`. -/
def pathOnEvent (now : ℕ) (ev : PathEvent) (p : PathEntry) : PathEntry :=
  match ev with
  | .activateRequested result => pathOnActivateRequested now result p
  | .retryTimer result => pathOnRetryTimer now result p
  | .validationOk validatedTarget => pathOnValidationOk now validatedTarget p
  | .xquicRemoved => pathOnXquicRemoved now p
  | .manualReactivate result => pathOnManualReactivate now result p
  | .platformDrop => pathOnPlatformDrop now p
  | .removeApi => pathOnRemoveApi now p
  | .add => pathOnAdd now p
  | .connReset => pathOnConnReset now p
  | .transportReleased => pathOnTransportReleased now p

/-- `path_fsm_tick_confirm_stable`; the difference of the times is unsigned. -/
def pathFsmTickConfirmStable (now : ℕ) (p : PathEntry) : PathEntry :=
  if p.state ≠ .active ∧ p.state ≠ .standby then p
  else if p.pathStableSinceUs = 0 ∨ p.xquicPathLive = false ∨
      p.pathStableSinceUs ≤ now ∧ now < p.pathStableSinceUs + pathStableThresholdUs.toNat then p
  else { p with recreateRetries := 0, pathStableSinceUs := now }

/-! ### What an event does to a slot -/

/-- The check, and what the handlers rely on beyond it: a transport is owed a release exactly
while its operations are installed, and a path that is not live has no id. -/
structure PathEntry.Inv (p : PathEntry) : Prop where
  ok : p.Ok
  owed : p.transportReleased = false → p.ops ≠ none
  settled : p.transportReleased = true → p.ops = none ∧ p.transportCtx = 0
  unbound : p.xquicPathLive = false → p.xqcPathId = 0

/-- What an event may do to a slot: the transport stays what it is, detached perhaps, and a
live path is the one that was live or the one the event has created. -/
structure PathEntry.Moved (created : Option ℕ) (p p' : PathEntry) : Prop where
  inv : p'.Inv
  handle : p'.handle = p.handle
  ops : p'.ops = p.ops
  released : p'.transportReleased = p.transportReleased
  attached : p'.transportAttached = true → p.transportAttached = true
  bound : p'.xquicPathLive = true →
    p.xquicPathLive = true ∧ p'.xqcPathId = p.xqcPathId ∨ created = some p'.xqcPathId

variable {now : ℕ} {p : PathEntry}

theorem PathEntry.Moved.refl (h : p.Inv) (created : Option ℕ) : p.Moved created p :=
  ⟨h, rfl, rfl, rfl, id, fun hlive => .inl ⟨hlive, rfl⟩⟩

/-- The state and its public projection are written together. -/
theorem setPathState_eq (h : p.status = p.state.publicStatus) (now : ℕ) (s : Lifecycle) :
    ∃ t, setPathState now s p =
      { p with status := s.publicStatus, state := s, stateEnteredAtUs := t } := by
  unfold setPathState
  split
  · exact ⟨now, rfl⟩
  · next hself =>
    rw [not_or, not_not] at hself
    refine ⟨p.stateEnteredAtUs, ?_⟩
    rw [← hself.1, ← h]

@[simp] theorem setPathState_state (now : ℕ) (s : Lifecycle) (p : PathEntry) :
    (setPathState now s p).state = s := by
  unfold setPathState
  split
  · rfl
  · next hself => exact not_not.1 (not_or.1 hself).1

@[simp] theorem setPathState_live (now : ℕ) (s : Lifecycle) (p : PathEntry) :
    (setPathState now s p).xquicPathLive = p.xquicPathLive := by
  unfold setPathState
  split <;> rfl

/-- The state and other fields are written: the check is the one of the new state. -/
theorem PathEntry.Inv.written (h : p.Inv) {q : PathEntry} {s : Lifecycle} {created : Option ℕ}
    (hstatus : q.status = q.state.publicStatus)
    (hok : ({ q with status := s.publicStatus, state := s } : PathEntry).Ok)
    (hkept : q.handle = p.handle ∧ q.ops = p.ops ∧ q.transportCtx = p.transportCtx ∧
      q.transportReleased = p.transportReleased)
    (hatt : q.transportAttached = true → p.transportAttached = true)
    (hunbound : q.xquicPathLive = false → q.xqcPathId = 0)
    (hbound : q.xquicPathLive = true →
      p.xquicPathLive = true ∧ q.xqcPathId = p.xqcPathId ∨ created = some q.xqcPathId) :
    p.Moved created (setPathState now s q) := by
  obtain ⟨t, ht⟩ := setPathState_eq hstatus now s
  obtain ⟨hhandle, hops, hctx, hrel⟩ := hkept
  rw [ht]
  refine ⟨⟨hok, ?_, ?_, hunbound⟩, hhandle, hops, hrel, hatt, hbound⟩
  · rw [hrel, hops]
    exact h.owed
  · rw [hrel, hops, hctx]
    exact h.settled

theorem doubled_ge (max n delay : ℕ) : delay ≤ doubled max n delay := by
  induction n generalizing delay with
  | zero => exact Nat.le_refl _
  | succ n ih =>
    rw [doubled]
    split
    · exact Nat.le_trans (by omega) (ih (delay * 2))
    · exact Nat.le_refl _

theorem backoff_pos {max delay : ℕ} (hmax : 0 < max) (hdelay : 0 < delay) (n : ℕ) :
    0 < backoff max n delay := by
  have := doubled_ge max n delay
  unfold backoff
  simp only
  split
  · exact hmax
  · omega

/-- A slot is attached except in the two detached states. -/
theorem PathEntry.Inv.attached_iff (h : p.Inv) :
    p.transportAttached = true ↔ p.state ≠ .closedDropped ∧ p.state ≠ .closedFree := by
  have hok := h.ok.2
  cases hstate : p.state <;> rw [hstate] at hok <;> simp [hok.1]

/-- The transport of an attached slot is owed a release. -/
theorem PathEntry.Inv.not_released (h : p.Inv) (hatt : p.transportAttached = true) :
    p.transportReleased = false := by
  obtain ⟨hdropped, hfree⟩ := h.attached_iff.mp hatt
  have hok := h.ok.2
  cases hstate : p.state <;> rw [hstate] at hok
  case closedDropped => exact absurd hstate hdropped
  case closedFree => exact absurd hstate hfree
  all_goals exact hok.2.1

theorem PathEntry.Inv.of_detached (h : p.Inv) (hatt : p.transportAttached = false) :
    p.state = .closedDropped ∨ p.state = .closedFree := by
  have := mt h.attached_iff.2 (by rw [hatt]; nofun)
  tauto

/-- A failed attempt leaves a slot waiting for its retry, or given up. -/
theorem PathEntry.Inv.failed (h : p.Inv) (hatt : p.transportAttached = true)
    {target : Lifecycle} (htarget : target = .createWait ∨ target = .degraded)
    (created : Option ℕ) : p.Moved created (applyFailureWithRetryCheck now target p) := by
  have hrel := h.not_released hatt
  unfold applyFailureWithRetryCheck
  simp only
  have hpos : 0 < pathRecreateBackoff (p.recreateRetries + 1) :=
    backoff_pos (by decide) (by decide) _
  split
  · exact h.written h.ok.1 ⟨rfl, hatt, hrel, rfl, rfl, rfl, rfl⟩ ⟨rfl, rfl, rfl, rfl⟩ id
      (fun _ => rfl) nofun
  · refine h.written h.ok.1 ⟨rfl, ?_⟩ ⟨rfl, rfl, rfl, rfl⟩ id (fun _ => rfl) nofun
    obtain rfl | rfl := htarget
    · exact ⟨hatt, hrel, rfl, by dsimp only; omega⟩
    · exact ⟨hatt, hrel, rfl, rfl, by dsimp only; omega, rfl⟩

theorem PathEntry.Inv.created (h : p.Inv) (hatt : p.transportAttached = true) (id : ℕ) :
    p.Moved (some id) (p.created now id) :=
  h.written h.ok.1 ⟨rfl, hatt, h.not_released hatt, rfl, rfl⟩ ⟨rfl, rfl, rfl, rfl⟩
    (fun hatt => hatt) nofun fun _ => .inr rfl

def ActivateResult.created : ActivateResult → Option ℕ
  | .ok newXqcPathId => some newXqcPathId
  | _ => none

theorem PathEntry.Inv.attempted (h : p.Inv) (hatt : p.transportAttached = true)
    {target : Lifecycle} (htarget : target = .createWait ∨ target = .degraded)
    (result : ActivateResult) : p.Moved result.created (p.attempted now target result) := by
  cases result with
  | ok id => exact h.created hatt id
  | transientFail => exact h.failed hatt htarget _
  | permanentFail =>
    exact h.written h.ok.1 ⟨rfl, hatt, h.not_released hatt, rfl, rfl, rfl, rfl⟩
      ⟨rfl, rfl, rfl, rfl⟩ id (fun _ => rfl) nofun

/-- A dropped slot is freed only when nothing is left of it. -/
theorem maybeTransitionDroppedToFree_cases (now : ℕ) (p : PathEntry) :
    maybeTransitionDroppedToFree now p = p ∨
      (p.state = .closedDropped ∧ p.transportReleased = true ∧ p.xquicPathLive = false ∧
        p.xqcPathId = 0 ∧ maybeTransitionDroppedToFree now p = setPathState now .closedFree p) := by
  unfold maybeTransitionDroppedToFree
  split
  · exact .inl rfl
  next hdropped =>
  split
  · exact .inl rfl
  next hrel =>
  split
  · exact .inl rfl
  next hlive =>
  split
  · exact .inl rfl
  next hid =>
  exact .inr ⟨not_not.mp hdropped, by simpa using hrel, by simpa using hlive, not_not.mp hid, rfl⟩

section
variable (h : p.Inv)
include h

theorem PathEntry.Inv.maybeFree (created : Option ℕ) :
    p.Moved created (maybeTransitionDroppedToFree now p) := by
  obtain heq | ⟨hdropped, hrel, hlive, hid, heq⟩ := maybeTransitionDroppedToFree_cases now p
  · rw [heq]
    exact .refl h created
  · have hok := h.ok.2
    rw [hdropped] at hok
    rw [heq]
    exact h.written h.ok.1 ⟨rfl, hok.1, hrel, hlive, hid, (h.settled hrel).1, (h.settled hrel).2,
      hok.2.1, hok.2.2⟩ ⟨rfl, rfl, rfl, rfl⟩ id h.unbound fun hlive => .inl ⟨hlive, rfl⟩

theorem PathEntry.Inv.detached (created : Option ℕ) : p.Moved created (p.detached now) := by
  unfold PathEntry.detached
  split
  · exact .refl h created
  split
  · exact .refl h created
  exact h.written h.ok.1 ⟨rfl, rfl, rfl, rfl⟩ ⟨rfl, rfl, rfl, rfl⟩ nofun h.unbound
    fun hlive => .inl ⟨hlive, rfl⟩

theorem PathEntry.Inv.detached_attached (now : ℕ) : (p.detached now).transportAttached = false := by
  have hmoved : p.Moved none (p.detached now) := h.detached none
  have hstate : (p.detached now).state = .closedDropped ∨ (p.detached now).state = .closedFree := by
    unfold PathEntry.detached
    split
    · next hdropped => exact .inl hdropped
    split
    · next hfree => exact .inr hfree
    · exact .inl (setPathState_state ..)
  refine Bool.eq_false_iff.2 fun hatt => ?_
  obtain ⟨hdropped, hfree⟩ := hmoved.inv.attached_iff.1 hatt
  exact hstate.elim hdropped hfree

/-- Clearing what xquic left in a detached slot. -/
theorem PathEntry.Inv.unbind (hatt : p.transportAttached = false) {after stable : ℕ}
    (hafter : after = 0) (hstable : stable = 0) (retries : ℕ) :
    ({ p with
      xquicPathLive := false, xqcPathId := 0, recreateAfterUs := after,
      recreateRetries := retries, pathStableSinceUs := stable } : PathEntry).Inv := by
  refine ⟨⟨h.ok.1, ?_⟩, h.owed, h.settled, fun _ => rfl⟩
  have hok := h.ok.2
  obtain hstate | hstate := h.of_detached hatt <;> rw [hstate] at hok <;> dsimp only <;> rw [hstate]
  · exact ⟨hatt, hafter, hstable⟩
  · exact ⟨hatt, hok.2.1, rfl, rfl, hok.2.2.2.2.1, hok.2.2.2.2.2.1, hafter, hstable⟩

theorem PathEntry.Inv.xquicRemoved (created : Option ℕ) :
    p.Moved created (pathOnXquicRemoved now p) := by
  unfold pathOnXquicRemoved
  split
  · next hstate => exact h.failed (h.attached_iff.mpr (by simp [hstate])) (.inl rfl) created
  · next hstate => exact h.failed (h.attached_iff.mpr (by simp [hstate])) (.inr rfl) created
  · next hstate => exact h.failed (h.attached_iff.mpr (by simp [hstate])) (.inr rfl) created
  · next hstate =>
    have hok := h.ok.2
    rw [hstate] at hok
    have hmoved : PathEntry.Moved created _ (maybeTransitionDroppedToFree now
        { p with xquicPathLive := false, xqcPathId := 0 }) :=
      (h.unbind hok.1 hok.2.1 hok.2.2 p.recreateRetries).maybeFree created
    exact { hmoved with bound := fun hlive => (hmoved.bound hlive).imp_left fun hl => nomatch hl.1 }
  · exact .refl h created

theorem PathEntry.Inv.validationOk {target : Lifecycle}
    (htarget : target = .active ∨ target = .standby) (created : Option ℕ) :
    p.Moved created (pathOnValidationOk now target p) := by
  unfold pathOnValidationOk
  split
  · exact .refl h created
  next hstate =>
  have hok := h.ok.2
  rw [not_not.mp hstate] at hok
  refine h.written h.ok.1 ⟨rfl, ?_⟩ ⟨rfl, rfl, rfl, rfl⟩ id h.unbound fun hlive => .inl ⟨hlive, rfl⟩
  obtain rfl | rfl := htarget <;> exact hok

end

/-- A slot that holds no path and awaits none. -/
def PathEntry.Rested (p : PathEntry) : Prop :=
  p.xquicPathLive = false ∧
    (p.state = .pending ∨ p.state = .closedDropped ∨ p.state = .closedFree)

theorem PathEntry.Rested.pending (hrest : p.Rested) (h : p.Inv)
    (hatt : p.transportAttached = true) : p.state = .pending := by
  obtain ⟨hdropped, hfree⟩ := h.attached_iff.mp hatt
  obtain hstate | hstate | hstate := hrest.2
  · exact hstate
  · exact absurd hstate hdropped
  · exact absurd hstate hfree

/-- A detached slot that holds no path is at rest. -/
theorem PathEntry.Inv.rested (h : p.Inv) (hatt : p.transportAttached = false)
    (hlive : p.xquicPathLive = false) : p.Rested :=
  ⟨hlive, .inr (h.of_detached hatt)⟩

theorem PathEntry.Moved.not_live {p' : PathEntry} (h : p.Moved none p')
    (hlive : p.xquicPathLive = false) : p'.xquicPathLive = false :=
  Bool.eq_false_iff.2 fun htrue => by simpa [hlive] using h.bound htrue

/-- Taking the transport away leaves a slot at rest. -/
theorem PathEntry.Rested.detached (hrest : p.Rested) (h : p.Inv) (now : ℕ) :
    (p.detached now).Rested := by
  have hmoved : p.Moved none (p.detached now) := h.detached none
  exact hmoved.inv.rested (h.detached_attached now) (hmoved.not_live hrest.1)

/-- The reset of a connection brings a slot to rest. -/
theorem PathEntry.Inv.connReset (h : p.Inv) (created : Option ℕ) :
    p.Moved created (pathOnConnReset now p) ∧ (pathOnConnReset now p).Rested := by
  unfold pathOnConnReset
  simp only
  split
  · next hatt =>
    refine ⟨?_, by simp, .inl (setPathState_state ..)⟩
    exact h.written h.ok.1 ⟨rfl, hatt, h.not_released hatt, rfl, rfl, rfl, rfl⟩ ⟨rfl, rfl, rfl, rfl⟩
      id (fun _ => rfl) nofun
  · next hatt =>
    rw [Bool.not_eq_true] at hatt
    have hmoved : ∀ created, PathEntry.Moved created _ (maybeTransitionDroppedToFree now _) :=
      (h.unbind hatt rfl rfl 0).maybeFree
    refine ⟨{ hmoved created with bound := fun hlive => ?_ }, ?_⟩
    · exact ((hmoved created).bound hlive).imp_left fun hl => nomatch hl.1
    · refine (hmoved none).inv.rested (Bool.eq_false_iff.2 fun htrue => ?_)
        ((hmoved none).not_live rfl)
      cases hatt.symm.trans ((hmoved none).attached htrue)

/-- Confirming a path only resets its retry budget. -/
theorem PathEntry.Inv.confirmStable (h : p.Inv) (created : Option ℕ) :
    p.Moved created (pathFsmTickConfirmStable now p) := by
  unfold pathFsmTickConfirmStable
  split
  · exact .refl h created
  next hstate =>
  split
  · exact .refl h created
  refine ⟨⟨⟨h.ok.1, ?_⟩, h.owed, h.settled, h.unbound⟩, rfl, rfl, rfl, id,
    fun hlive => .inl ⟨hlive, rfl⟩⟩
  have hok := h.ok.2
  have hstate : p.state = .active ∨ p.state = .standby := by tauto
  obtain hstate | hstate := hstate <;> rw [hstate] at hok <;> dsimp only <;> rw [hstate] <;>
    exact hok

def PathEvent.created : PathEvent → Option ℕ
  | .activateRequested result => result.created
  | .retryTimer result => result.created
  | .manualReactivate result => result.created
  | _ => none

/-- Events that come to a slot in use: its transport is neither new nor given back. -/
def PathEvent.InUse : PathEvent → Prop
  | .add => False
  | .transportReleased => False
  | .validationOk target => target = .active ∨ target = .standby
  | _ => True

/-- **No event breaks the check**, in whatever state of the slot it comes. -/
theorem PathEntry.Inv.onEvent (h : p.Inv) {ev : PathEvent} (hev : ev.InUse) :
    p.Moved ev.created (pathOnEvent now ev p) := by
  cases ev with
  | activateRequested result =>
    unfold pathOnEvent pathOnActivateRequested
    simp only
    split
    · exact .refl h _
    · next hstate =>
      exact h.attempted (h.attached_iff.mpr (by simp [not_not.mp hstate])) (.inl rfl) result
  | retryTimer result =>
    unfold pathOnEvent pathOnRetryTimer
    simp only
    split
    · exact .refl h _
    · next hstate =>
      have hstate : p.state = .createWait ∨ p.state = .degraded := by tauto
      refine h.attempted (h.attached_iff.mpr ?_) hstate result
      obtain hstate | hstate := hstate <;> simp [hstate]
  | validationOk target => exact h.validationOk hev _
  | xquicRemoved => exact h.xquicRemoved _
  | manualReactivate result =>
    unfold pathOnEvent pathOnManualReactivate
    simp only
    split
    · exact .refl h _
    next hstate =>
    split
    · refine h.created (h.attached_iff.mpr ?_) _
      constructor <;> intro hs <;> simp [hs] at hstate
    · exact .refl h _
  | platformDrop | removeApi => exact h.detached _
  | connReset => exact (h.connReset _).1
  | add | transportReleased => exact hev.elim

/-! ### The two ends of a slot -/

/-- What `add_path` makes of a slot. -/
def PathEntry.added (now handle : ℕ) (ops : PathOps) (ctx : ℕ) : PathEntry :=
  pathOnEvent now .add
    { pathEntryInit with handle := handle, ops := some ops, transportCtx := ctx }

theorem PathEntry.added_spec (now handle : ℕ) (ops : PathOps) (ctx : ℕ) :
    (PathEntry.added now handle ops ctx).Inv ∧ (PathEntry.added now handle ops ctx).Rested ∧
      (PathEntry.added now handle ops ctx).state = .pending ∧
      (PathEntry.added now handle ops ctx).handle = handle ∧
      (PathEntry.added now handle ops ctx).ops = some ops ∧
      (PathEntry.added now handle ops ctx).transportReleased = false := by
  refine ⟨⟨⟨rfl, rfl, rfl, rfl, rfl, rfl, rfl⟩, fun _ => Option.some_ne_none ops, nofun,
    fun _ => rfl⟩, ⟨rfl, .inl rfl⟩, rfl, rfl, rfl, rfl⟩

/-- The slot of a transport that was given back: its operations are gone. -/
def PathEntry.givenBack (p : PathEntry) (now : ℕ) : PathEntry :=
  pathOnEvent now .transportReleased { p with ops := none, transportCtx := 0 }

theorem PathEntry.Inv.givenBack (h : p.Inv) (hdropped : p.state = .closedDropped) (now : ℕ) :
    (p.givenBack now).Inv ∧ (p.givenBack now).handle = p.handle ∧
      (p.givenBack now).transportReleased = true ∧ (p.givenBack now).transportAttached = false ∧
      ((p.givenBack now).xquicPathLive = true →
        p.xquicPathLive = true ∧ (p.givenBack now).xqcPathId = p.xqcPathId) := by
  have hok := h.ok.2
  rw [hdropped] at hok
  have hinv : ({ p with ops := none, transportCtx := 0, transportReleased := true } :
      PathEntry).Inv := by
    refine ⟨⟨h.ok.1, ?_⟩, nofun, fun _ => ⟨rfl, rfl⟩, h.unbound⟩
    dsimp only
    rw [hdropped]
    exact hok
  have hmoved : PathEntry.Moved none _ (maybeTransitionDroppedToFree now _) := hinv.maybeFree none
  have heq : p.givenBack now = maybeTransitionDroppedToFree now
      { p with ops := none, transportCtx := 0, transportReleased := true } := by
    show pathOnTransportReleased now _ = _
    unfold pathOnTransportReleased
    rw [if_neg (not_not.mpr hdropped)]
  rw [heq]
  refine ⟨hmoved.inv, hmoved.handle, hmoved.released, ?_, fun hlive => ?_⟩
  · rw [← Bool.not_eq_true]
    exact fun hatt => by
      have := hmoved.attached hatt
      rw [hok.1] at this
      cases this
  · exact (hmoved.bound hlive).resolve_right nofun

/-- A request to activate a pending slot never leaves it pending. -/
theorem activateRequested_state (hstate : p.state = .pending) (result : ActivateResult) :
    (pathOnEvent now (.activateRequested result) p).state ∈
      [Lifecycle.validating, .createWait, .closedRecoverable] := by
  unfold pathOnEvent pathOnActivateRequested
  simp only
  rw [if_neg (not_not.mpr hstate)]
  cases result with
  | ok id => simp [PathEntry.attempted, PathEntry.created]
  | transientFail =>
    unfold PathEntry.attempted applyFailureWithRetryCheck
    simp only
    split <;> simp
  | permanentFail => simp [PathEntry.attempted]

end Mqvpn.Cli
