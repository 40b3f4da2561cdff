import Mathlib.Tactic.Common

/-!
# Runs of a machine

A component driven by calls is a step function `σ → ι → σ`: a state, a call, the
state after it.  A run is a list of calls made from a state.

## Main definitions

* `Run.exec` — the state after a list of calls.
* `Run.Along` — every call of a run meets a condition on the state it is made in.

## Main results

* `Run.exec_inv`, `Run.along_inv` — the invariant rules, without and with a
  condition on the calls.
* `Run.along_mono_inv`, `Run.along_congr_inv` — conditions may be exchanged under an invariant.
* `Run.exec_reaches` — what one call of a run brings about and the others keep.
* `Run.exec_rest` — the rule for an invariant that speaks of the calls still to come.
-/

namespace Run

variable {σ τ ι : Type*}

/-- The state after the calls `ops`, made from `s` in order. -/
def exec (step : σ → ι → σ) : σ → List ι → σ
  | s, [] => s
  | s, op :: ops => exec step (step s op) ops

/-- Every call of the run meets `C` in the state it is made in. -/
def Along (step : σ → ι → σ) (C : σ → ι → Prop) : σ → List ι → Prop
  | _, [] => True
  | s, op :: ops => C s op ∧ Along step C (step s op) ops

instance decidableAlong {step : σ → ι → σ} {C : σ → ι → Prop} [∀ s op, Decidable (C s op)] :
    ∀ (s : σ) (ops : List ι), Decidable (Along step C s ops)
  | _, [] => isTrue trivial
  | s, op :: ops =>
      have : Decidable (Along step C (step s op) ops) := decidableAlong (step s op) ops
      inferInstanceAs (Decidable (C s op ∧ Along step C (step s op) ops))

variable (step : σ → ι → σ)

@[simp] theorem exec_nil (s : σ) : exec step s [] = s := rfl

@[simp] theorem exec_cons (s : σ) (op : ι) (ops : List ι) :
    exec step s (op :: ops) = exec step (step s op) ops := rfl

theorem exec_append (s : σ) (ops ops' : List ι) :
    exec step s (ops ++ ops') = exec step (exec step s ops) ops' := by
  induction ops generalizing s with
  | nil => rfl
  | cons op ops ih => exact ih (step s op)

/-- An invariant of the state and the calls that are left. -/
theorem exec_rest {P : List ι → σ → Prop}
    (hstep : ∀ s op ops, P (op :: ops) s → P ops (step s op)) :
    ∀ (ops : List ι) (s : σ), P ops s → P [] (exec step s ops) := by
  intro ops
  induction ops with
  | nil => intro s hs; exact hs
  | cons op ops ih => intro s hs; exact ih _ (hstep s op ops hs)

/-- **The invariant rule for runs.** -/
theorem exec_inv {P : σ → Prop} (hstep : ∀ s op, P s → P (step s op)) :
    ∀ (ops : List ι) (s : σ), P s → P (exec step s ops) :=
  exec_rest step (P := fun _ => P) fun s op _ => hstep s op

/-- The invariant rule for runs whose calls meet a condition. -/
theorem along_inv {C : σ → ι → Prop} {P : σ → Prop} (hstep : ∀ s op, P s → C s op → P (step s op)) :
    ∀ (ops : List ι) (s : σ), P s → Along step C s ops → P (exec step s ops) :=
  fun ops s hs hall => (exec_rest step (P := fun ops s => P s ∧ Along step C s ops)
    (fun s op _ h => ⟨hstep s op h.1 h.2.1, h.2.2⟩) ops s ⟨hs, hall⟩).1

/-- A condition that keeps an invariant and follows another one under it. -/
theorem along_mono_inv {C D : σ → ι → Prop} {P : σ → Prop}
    (hstep : ∀ s op, P s → C s op → P (step s op)) (himp : ∀ s op, P s → C s op → D s op) :
    ∀ (ops : List ι) (s : σ), P s → Along step C s ops → Along step D s ops := by
  intro ops
  induction ops with
  | nil => intro s _ _; trivial
  | cons op ops ih =>
    intro s hs hall
    exact ⟨himp s op hs hall.1, ih _ (hstep s op hs hall.1) hall.2⟩

/-- Conditions that agree where the invariant holds agree along every run from there. -/
theorem along_congr_inv {C D : σ → ι → Prop} {P : σ → Prop} (hstep : ∀ s op, P s → P (step s op))
    (hiff : ∀ s op, P s → (C s op ↔ D s op)) (ops : List ι) (s : σ) (hs : P s) :
    Along step C s ops ↔ Along step D s ops :=
  ⟨along_mono_inv step (fun s op hs _ => hstep s op hs) (fun s op hs => (hiff s op hs).1) ops s hs,
    along_mono_inv step (fun s op hs _ => hstep s op hs) (fun s op hs => (hiff s op hs).2) ops s hs⟩

/-- A run with the call `a` reaches `Q`, if `a` leads from `P` to `Q` and the other calls keep
them. -/
theorem exec_reaches {P Q : σ → Prop} {a : ι} (hother : ∀ s op, op ≠ a → P s → P (step s op))
    (hself : ∀ s, P s → Q (step s a)) (hkeep : ∀ s op, Q s → Q (step s op)) :
    ∀ (ops : List ι) (s : σ), a ∈ ops → P s → Q (exec step s ops) := by
  intro ops
  induction ops with
  | nil => intro s ha; cases ha
  | cons op ops ih =>
    intro s ha hs
    by_cases hop : op = a
    · subst hop
      exact exec_inv step hkeep ops _ (hself s hs)
    · exact ih _ ((List.mem_cons.1 ha).resolve_left (Ne.symm hop)) (hother s op hop hs)

end Run
