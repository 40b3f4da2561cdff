import Mqvpn.Reorder.Rx

/-!
# Reading the trace

What the trace says about one flow.  An epoch of a flow opens when the flow is
created or a reset is honoured, and closes when the flow is demoted, reset again or
destroyed.  A creation does not close an epoch: that none is open when a flow is
created is for the engine to ensure.  Each reading is a fold over the events, so that
it follows the trace as the engine extends it.

## Main definitions

* `arrivals` — the packets dispatched to a flow since it was created.
* `epoch` — the sequence numbers delivered in the open epoch, if one is open.
* `Ordered` — at every moment of the trace the open epoch is strictly increasing.
* `deliveredSeqs`, `Unbroken` — a stretch of the trace inside an epoch.
* `Event.About` — the events that work on one flow may add.

## Main results

* `Ordered.pairwise_of_unbroken` — **deliveries inside an epoch increase**.
* `epoch_append_about`, `arrivals_append_about` — **work on one flow leaves the
  readings of the others alone**.
-/

namespace Mqvpn.Reorder

open List

/-! ### The readings -/

/-- Follow the packets dispatched to flow `k` since its creation. -/
def arrivalsStep (k : FlowKey) (acc : List (ℕ × Packet)) : Event → List (ℕ × Packet)
  | .created k' => if k' = k then [] else acc
  | .dispatched k' seq pkt => if k' = k then acc ++ [(seq, pkt)] else acc
  | _ => acc

def arrivals (k : FlowKey) (t : List Event) : List (ℕ × Packet) := t.foldl (arrivalsStep k) []

/-- Follow the open epoch of flow `k`. -/
def epochStep (k : FlowKey) (acc : Option (List ℕ)) : Event → Option (List ℕ)
  | .created k' => if k' = k then some (acc.getD []) else acc
  | .reset k' => if k' = k then some [] else acc
  | .delivered k' seq _ => if k' = k then acc.map (· ++ [seq]) else acc
  | .demoted k' => if k' = k then none else acc
  | .destroyed k' _ => if k' = k then none else acc
  | _ => acc

def epoch (k : FlowKey) (t : List Event) : Option (List ℕ) := t.foldl (epochStep k) none

/-- The sequence numbers delivered for flow `k` in a stretch of the trace. -/
def deliveredSeqs (k : FlowKey) (t : List Event) : List ℕ :=
  t.filterMap fun
    | .delivered k' seq _ => if k' = k then some seq else none
    | _ => none

/-- At every moment of the trace, the open epoch of flow `k` is strictly increasing. -/
def Ordered (k : FlowKey) (t : List Event) : Prop :=
  ∀ pre post, t = pre ++ post → ∀ l, epoch k pre = some l → l.Pairwise (· < ·)

/-- The events that work on flow `k` may add to the trace. -/
def Event.About (k : FlowKey) : Event → Prop
  | .created _ => False
  | .dispatched k' _ _ => k' = k
  | .delivered k' _ _ => k' = k
  | .passed _ => False
  | .reset k' => k' = k
  | .flushed k' => k' = k
  | .timedOut k' => k' = k
  | .limited k' => k' = k
  | .demoted k' => k' = k
  | .destroyed _ _ => False
  | .clamped => True

/-! ### One more event -/

theorem arrivals_snoc (k : FlowKey) (t : List Event) (e : Event) :
    arrivals k (t ++ [e]) = arrivalsStep k (arrivals k t) e := by
  rw [arrivals, foldl_append]
  rfl

theorem epoch_snoc (k : FlowKey) (t : List Event) (e : Event) :
    epoch k (t ++ [e]) = epochStep k (epoch k t) e := by
  rw [epoch, foldl_append]
  rfl

theorem ordered_nil (k : FlowKey) : Ordered k [] := by
  intro pre post h l hl
  obtain ⟨rfl, -⟩ := append_eq_nil_iff.mp h.symm
  cases hl

section
variable {k : FlowKey} {t : List Event} (h : Ordered k t)
include h

/-- Extending an ordered trace: only the newest moment is to be looked at. -/
theorem Ordered.snoc {e : Event}
    (he : ∀ l, epochStep k (epoch k t) e = some l → l.Pairwise (· < ·)) : Ordered k (t ++ [e]) := by
  intro pre post hsplit l hl
  rcases eq_nil_or_concat post with rfl | ⟨post', e', rfl⟩
  · rw [append_nil] at hsplit
    rw [← hsplit, epoch_snoc] at hl
    exact he l hl
  · rw [concat_eq_append, ← append_assoc] at hsplit
    exact h pre post' (append_inj_left' hsplit rfl) l hl

theorem Ordered.current {l : List ℕ} (hl : epoch k t = some l) :
    l.Pairwise (· < ·) := h t [] (by simp) l hl

/-- An event that leaves the open epoch as it is. -/
theorem Ordered.snoc_of_eq {e : Event} (he : epochStep k (epoch k t) e = epoch k t) :
    Ordered k (t ++ [e]) := by
  refine h.snoc fun l hl => ?_
  rw [he] at hl
  exact h.current hl

/-- An event that opens or closes an epoch. -/
theorem Ordered.snoc_of_empty {e : Event}
    (he : epochStep k (epoch k t) e = some [] ∨ epochStep k (epoch k t) e = none) :
    Ordered k (t ++ [e]) := by
  refine h.snoc fun l hl => ?_
  rcases he with he | he
  · rw [he] at hl
    cases hl
    exact List.Pairwise.nil
  · rw [he] at hl
    cases hl

end

/-- An event that opens or closes an epoch of flow `key` and leaves the others alone. -/
theorem ordered_snoc_of_empty {t : List Event} (h : ∀ k, Ordered k t) {key : FlowKey} {e : Event}
    (hself : epochStep key (epoch key t) e = some [] ∨ epochStep key (epoch key t) e = none)
    (hother : ∀ k, key ≠ k → epochStep k (epoch k t) e = epoch k t) :
    ∀ k, Ordered k (t ++ [e]) := by
  intro k
  by_cases hk : key = k
  · subst hk
    exact (h key).snoc_of_empty hself
  · exact (h k).snoc_of_eq (hother k hk)

theorem not_clamped_snoc {t : List Event} (h : Event.clamped ∉ t) {e : Event}
    (he : Event.clamped ≠ e) : Event.clamped ∉ t ++ [e] := by
  rw [mem_append, not_or, mem_singleton]
  exact ⟨h, he⟩

/-! ### Inside an epoch -/

/-- A stretch that does not close the epoch of flow `k`. -/
def Unbroken (k : FlowKey) (t : List Event) : Prop :=
  ∀ e ∈ t, e ≠ .reset k ∧ e ≠ .demoted k ∧ ∀ armed, e ≠ .destroyed k armed

theorem epochStep_of_open {k : FlowKey} {e : Event}
    (he : e ≠ .reset k ∧ e ≠ .demoted k ∧ ∀ armed, e ≠ .destroyed k armed) (l : List ℕ) :
    epochStep k (some l) e = some (l ++ deliveredSeqs k [e]) := by
  cases e with
  | delivered k' seq pkt =>
    by_cases hk : k' = k <;> simp [epochStep, deliveredSeqs, hk]
  | reset k' =>
    have hk : k' ≠ k := fun hk => he.1 (hk ▸ rfl)
    simp [epochStep, deliveredSeqs, hk]
  | demoted k' =>
    have hk : k' ≠ k := fun hk => he.2.1 (hk ▸ rfl)
    simp [epochStep, deliveredSeqs, hk]
  | destroyed k' armed =>
    have hk : k' ≠ k := fun hk => he.2.2 armed (hk ▸ rfl)
    simp [epochStep, deliveredSeqs, hk]
  | created | dispatched | passed | flushed | timedOut | limited | clamped =>
      simp [epochStep, deliveredSeqs]

/-- An open epoch collects what is delivered until it is closed. -/
theorem epoch_append_unbroken {k : FlowKey} : ∀ (mid t : List Event) (l : List ℕ),
    Unbroken k mid → epoch k t = some l → epoch k (t ++ mid) = some (l ++ deliveredSeqs k mid) := by
  intro mid
  induction mid with
  | nil => intro t l _ hl; simpa [deliveredSeqs] using hl
  | cons e mid ih =>
    intro t l hmid hl
    have hstep : epoch k (t ++ [e]) = some (l ++ deliveredSeqs k [e]) := by
      rw [epoch_snoc, hl]
      exact epochStep_of_open (hmid e mem_cons_self) l
    have hrest := ih (t ++ [e]) _ (fun x hx => hmid x (mem_cons_of_mem _ hx)) hstep
    rw [append_assoc, append_assoc] at hrest
    rw [show e :: mid = [e] ++ mid from rfl, hrest]
    simp only [deliveredSeqs, ← filterMap_append]

/-- **In an ordered trace, what is delivered between the opening of an epoch and the
event that closes it is strictly increasing.** -/
theorem Ordered.pairwise_of_unbroken {k : FlowKey} {pre mid post : List Event} {e : Event}
    (h : Ordered k (pre ++ e :: mid ++ post)) (hopen : e = .created k ∨ e = .reset k)
    (hmid : Unbroken k mid) : (deliveredSeqs k mid).Pairwise (· < ·) := by
  obtain ⟨l, hl⟩ : ∃ l, epoch k (pre ++ [e]) = some l := by
    rw [epoch_snoc]
    rcases hopen with rfl | rfl
    · exact ⟨(epoch k pre).getD [], by simp only [epochStep, ↓reduceIte]⟩
    · exact ⟨[], by simp only [epochStep, ↓reduceIte]⟩
  have hcur := h (pre ++ [e] ++ mid) post (by simp) _ (epoch_append_unbroken mid _ l hmid hl)
  exact (pairwise_append.mp hcur).2.1

/-! ### Work on another flow -/

variable {k k' : FlowKey} (hne : k' ≠ k)
include hne

theorem epochStep_about {e : Event} (he : e.About k) (acc : Option (List ℕ)) :
    epochStep k' acc e = acc := by
  cases e <;> simp_all [Event.About, epochStep, hne.symm]

theorem arrivalsStep_about {e : Event} (he : e.About k) (acc : List (ℕ × Packet)) :
    arrivalsStep k' acc e = acc := by
  cases e <;> simp_all [Event.About, arrivalsStep, hne.symm]

omit hne in
/-- A fold whose every step does nothing does nothing. -/
theorem foldl_eq_self {α β : Type*} {f : β → α → β} : ∀ (l : List α) (b : β),
    (∀ a ∈ l, ∀ b, f b a = b) → l.foldl f b = b := by
  intro l
  induction l with
  | nil => intro b _; rfl
  | cons a l ih =>
    intro b h
    rw [foldl_cons, h a mem_cons_self]
    exact ih b fun a' ha' => h a' (mem_cons_of_mem _ ha')

theorem epoch_append_about {t es : List Event} (hes : ∀ e ∈ es, e.About k) :
    epoch k' (t ++ es) = epoch k' t := by
  rw [epoch, foldl_append]
  exact foldl_eq_self es _ fun e he acc => epochStep_about hne (hes e he) acc

theorem arrivals_append_about {t es : List Event} (hes : ∀ e ∈ es, e.About k) :
    arrivals k' (t ++ es) = arrivals k' t := by
  rw [arrivals, foldl_append]
  exact foldl_eq_self es _ fun e he acc => arrivalsStep_about hne (hes e he) acc

end Mqvpn.Reorder
