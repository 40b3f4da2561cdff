import Mathlib.Tactic.Common

/-!
# Bounded loops

A `while` loop of an imperative program is a partial step function: `none` is the
exit test, `some s'` the state after one more round of the body.  `Loop.run step n`
iterates it at most `n` times, so it is a total, structurally recursive function
that the kernel can evaluate; whether `n` rounds were enough is a theorem about the
loop, not a part of its definition.

## Main definitions

* `Loop.run` — the loop, cut off after a number of rounds.

## Main results

* `Loop.run_inv` — the invariant rule.
* `Loop.run_stops` — **enough rounds**: a measure the body decreases bounds the
  rounds, so the loop really reached its exit test.
* `Loop.run_rel` — the simulation rule for two loops run side by side.
-/

namespace Loop

variable {σ τ : Type*}

/-- Iterate `step` until it answers `none`, at most `n` times. -/
def run (step : σ → Option σ) : ℕ → σ → σ
  | 0, s => s
  | n + 1, s =>
      match step s with
      | none => s
      | some s' => run step n s'

variable {step : σ → Option σ}

theorem run_none {s : σ} (h : step s = none) (n : ℕ) : run step n s = s := by
  cases n with
  | zero => rfl
  | succ n => simp [run, h]

theorem run_some {s s' : σ} (h : step s = some s') (n : ℕ) :
    run step (n + 1) s = run step n s' := by
  simp [run, h]

/-- **The invariant rule.** -/
theorem run_inv {P : σ → Prop} (hstep : ∀ s s', P s → step s = some s' → P s') :
    ∀ (n : ℕ) (s : σ), P s → P (run step n s) := by
  intro n
  induction n with
  | zero => intro s hs; exact hs
  | succ n ih =>
    intro s hs
    cases h : step s with
    | none => rw [run_none h]; exact hs
    | some s' => rw [run_some h]; exact ih s' (hstep s s' hs h)

/-- **The loop has reached its exit test** once the rounds cover a measure that
the body decreases wherever the invariant `P` holds. -/
theorem run_stops {P : σ → Prop} (μ : σ → ℕ)
    (hstep : ∀ s s', P s → step s = some s' → P s' ∧ μ s' < μ s) :
    ∀ (n : ℕ) (s : σ), P s → μ s ≤ n → step (run step n s) = none := by
  intro n
  induction n with
  | zero =>
    intro s hs hμ
    cases h : step s with
    | none => exact h
    | some s' =>
      have := (hstep s s' hs h).2
      omega
  | succ n ih =>
    intro s hs hμ
    cases h : step s with
    | none => rw [run_none h]; exact h
    | some s' =>
      obtain ⟨hs', hlt⟩ := hstep s s' hs h
      rw [run_some h]
      exact ih s' hs' (by omega)

/-- **The simulation rule**: bodies that keep two states related, and leave at the
same test, make loops that keep them related. -/
theorem run_rel {step' : τ → Option τ} {R : σ → τ → Prop}
    (hstep : ∀ s t, R s t → Option.Rel R (step s) (step' t)) :
    ∀ (n : ℕ) (s : σ) (t : τ), R s t → R (run step n s) (run step' n t) := by
  intro n
  induction n with
  | zero => intro s t h; exact h
  | succ n ih =>
    intro s t h
    -- one body leaving and the other going on contradicts `hr`
    have hr := hstep s t h
    cases hs : step s with
    | none =>
      cases ht : step' t with
      | none => rw [run_none hs, run_none ht]; exact h
      | some t' => rw [hs, ht] at hr; cases hr
    | some s' =>
      cases ht : step' t with
      | none => rw [hs, ht] at hr; cases hr
      | some t' =>
        rw [hs, ht] at hr
        cases hr with
        | some hr' => rw [run_some hs, run_some ht]; exact ih s' t' hr'

end Loop
