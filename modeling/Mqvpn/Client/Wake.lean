import Mqvpn.Client.Sound

/-!
# When a client is woken

The machine counts microseconds without an end, and `get_interest` reads its times through the
64 bits they have in the source.  A delay is a minute at most, so no time leaves these bits while
the clock is a minute away from their end; then a client that waits for a reconnect and a slot
that waits to be tried again are not slept past.

## Main definitions

* `Client.view` — what `get_interest` reads of the client.
* `Client.Fits` — its timers have 64 bits.

## Main results

* `delays_le` — a delay is a minute at most.
* `waits_woken` — **no wait is slept past**.
-/

namespace Mqvpn.Cli

open Endpoint (LwipCtx clientGetInterest msLeft)

def PathEntry.view (p : PathEntry) : Endpoint.PathEntry where
  recreateAfterUs := .ofNat p.recreateAfterUs
  pathStableSinceUs := .ofNat p.pathStableSinceUs
  xquicPathLive := p.xquicPathLive

/-- The client as `get_interest` reads it.  The wake-up of xquic, the TCP timer and the back
pressure are not part of the machine. -/
def Client.view (c : Client) (nextWakeUs : UInt64) (lwipCtx : Option LwipCtx)
    (backpressure : Bool) : Endpoint.Client where
  state := c.state
  nextWakeUs := nextWakeUs
  reconnectScheduledUs := .ofNat c.reconnectScheduledUs
  handshakeStartedUs := .ofNat c.handshakeStartedUs
  multipathReady := c.multipathReady
  paths := c.paths.map PathEntry.view
  conn := c.conn.map fun k => { reorderRx := k.reorderRx, lwipCtx := lwipCtx }
  tunActive := c.tunActive
  backpressure := backpressure

/-- The timers of the client have 64 bits; its other times are readings of the clock. -/
structure Client.Fits (c : Client) : Prop where
  reconnect : c.reconnectScheduledUs < 2 ^ 64
  slots : ∀ p ∈ c.paths, p.recreateAfterUs < 2 ^ 64

theorem backoff_le (max n delay : ℕ) : backoff max n delay ≤ max := by
  unfold backoff
  dsimp only
  split <;> omega

/-- A delay is a minute at most. -/
theorem delays_le (now : ℕ) (c : Client) (retryTarget : Lifecycle) (p : PathEntry) :
    (armReconnectTimer now c).reconnectScheduledUs ≤ now + 60000000 ∧
      (applyFailureWithRetryCheck now retryTarget p).recreateAfterUs ≤ now + 60000000 := by
  have hset : ∀ (s : Lifecycle) (q : PathEntry),
      (setPathState now s q).recreateAfterUs = q.recreateAfterUs := fun s q => by
    unfold setPathState
    split <;> rfl
  constructor
  · have hdelay : reconnectDelaySec c ≤ 60 := backoff_le ..
    show now + reconnectDelaySec c * 1000000 ≤ _
    omega
  · unfold applyFailureWithRetryCheck
    dsimp only
    split <;> rw [hset]
    · exact Nat.zero_le _
    · exact Nat.add_le_add_left (backoff_le ..) now

/-- **No wait is slept past**: in every run, a client that waits for a reconnect and a slot that
waits to be tried again have a timer, and `get_interest` asks to be woken by it. -/
theorem waits_woken (cfg : ClientConfig) (ops : List Op) (nextWakeUs : UInt64)
    (lwipCtx : Option LwipCtx) (backpressure : Bool) (now : UInt64) :
    let c := (Client.new cfg).run ops
    let ms := (clientGetInterest (c.view nextWakeUs lwipCtx backpressure) now).nextTimerMs
    c.destroyed = false → c.Fits →
      (c.state = .reconnecting → ms ≤ max 1 (msLeft c.reconnectScheduledUs now)) ∧
      (c.state = .established → c.multipathReady = true → ∀ p ∈ c.paths,
        p.state = .createWait ∨ p.state = .degraded →
          ms ≤ max 1 (msLeft p.recreateAfterUs now)) := by
  intro c ms halive hfits
  have hsound : Sound c := sound_run cfg ops halive
  have htimer : ∀ {t : ℕ}, t < 2 ^ 64 → t ≠ 0 →
      (UInt64.ofNat t).toNat = t ∧ 0 < UInt64.ofNat t := fun {t} hlt hne => by
    have heq := UInt64.toNat_ofNat_of_lt' hlt
    refine ⟨heq, UInt64.lt_iff_toNat_lt.2 ?_⟩
    rw [heq]
    exact Nat.pos_of_ne_zero hne
  constructor
  · intro hstate
    obtain ⟨heq, hset⟩ := htimer hfits.reconnect (hsound.phase.scheduled hstate)
    exact heq ▸ Endpoint.reconnect_within (c := c.view ..) hstate hset
  · intro hstate hready p hp hwait
    obtain ⟨i, hi⟩ := List.mem_iff_getElem?.1 hp
    have hne : p.recreateAfterUs ≠ 0 := by
      have hok := (hsound.slots.inv i p hi).ok.2
      obtain hs | hs := hwait <;> rw [hs] at hok
      · exact hok.2.2.2
      · exact hok.2.2.2.2.1
    obtain ⟨heq, hset⟩ := htimer (hfits.slots p hp) hne
    refine Endpoint.path_within (c := c.view ..) (p := p.view) hstate hready
      (List.mem_map_of_mem hp) ?_ heq.le
    simp [Endpoint.PathEntry.timers, PathEntry.view, hset]

end Mqvpn.Cli
