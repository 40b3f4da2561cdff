import Mathlib.Tactic.Common

/-!
# Frames in a byte stream

A stream is cut into pieces that have nothing to do with the frames it carries.  The reader
keeps a buffer: it appends each piece, and takes complete frames off the front as long as
they are accepted.

## Main definitions

* `Framing.Decoder` — a decoder that succeeds on a buffer that starts with a complete frame.
* `Framing.Decoder.consume` — taking frames off the front of a buffer.
* `Framing.Decoder.feed` — a bounded buffer that is given a list of pieces.
* `Framing.Decoder.frames` — all the complete frames at the front of a buffer.

## Main results

* `Framing.Decoder.consume_append` — **consuming early changes nothing**.
* `Framing.Decoder.decode_induct` — the induction along the frames of a buffer.
* `Framing.Decoder.consume_inv`, `Framing.Decoder.consume_map` — the invariant rule, and the rule
  for a reader that sees less of the state.
-/

namespace Framing

open List

variable {β φ σ τ : Type*}

/-- A decoder of frames: it gives the frame and its length.  A frame is not empty, and what
follows it is not looked at. -/
structure Decoder (β φ : Type*) where
  decode : List β → Option (φ × ℕ)
  pos : ∀ {buf x n}, decode buf = some (x, n) → 0 < n
  le : ∀ {buf x n}, decode buf = some (x, n) → n ≤ buf.length
  append : ∀ {buf x n} (more : List β), decode buf = some (x, n) →
    decode (buf ++ more) = some (x, n)

namespace Decoder

variable (D : Decoder β φ) (step : σ → φ → Option σ)

/-- Take at most `fuel` frames; a frame that is not accepted stays. -/
def consumeN : ℕ → List β → σ → List β × σ
  | 0, buf, s => (buf, s)
  | fuel + 1, buf, s =>
      match D.decode buf with
      | none => (buf, s)
      | some (x, n) =>
          match step s x with
          | none => (buf, s)
          | some s' => consumeN fuel (buf.drop n) s'

/-- Take frames off the front of a buffer. -/
def consume (buf : List β) (s : σ) : List β × σ := D.consumeN step buf.length buf s

/-- Append the pieces to a buffer of at most `limit` bytes, and consume after each.  The flag
says whether every piece had room. -/
def feed (limit : ℕ) : List (List β) → List β → σ → Bool × List β × σ
  | [], buf, s => (true, buf, s)
  | piece :: pieces, buf, s =>
      if buf.length + piece.length ≤ limit then
        feed limit pieces (D.consume step (buf ++ piece) s).1 (D.consume step (buf ++ piece) s).2
      else (false, buf, s)

/-- The complete frames at the front of a buffer. -/
def frames (buf : List β) : List φ := (D.consume (fun xs x => some (xs ++ [x])) buf []).2

variable {D step} {buf : List β} {s : σ} {x : φ} {n : ℕ}

theorem decode_nil : D.decode [] = none := by
  cases h : D.decode [] with
  | none => rfl
  | some r =>
    have hpos := D.pos (x := r.1) (n := r.2) h
    have hle := D.le (x := r.1) (n := r.2) h
    rw [length_nil] at hle
    omega

/-- The rest of a buffer is shorter than the buffer. -/
theorem length_drop_lt (h : D.decode buf = some (x, n)) : (buf.drop n).length < buf.length := by
  have hpos := D.pos h
  have hle := D.le h
  rw [length_drop]
  omega

/-- A buffer has no more frames than bytes. -/
theorem consumeN_eq : ∀ {fuel : ℕ} {buf : List β} (s : σ), buf.length ≤ fuel →
    D.consumeN step fuel buf s = D.consume step buf s := by
  -- both counts of `consumeN` are at least the length, so they go down together
  have hcount : ∀ (k l : ℕ) (buf : List β) (s : σ), buf.length ≤ k → buf.length ≤ l →
      D.consumeN step k buf s = D.consumeN step l buf s := by
    have hnil : ∀ (k : ℕ) (s : σ), D.consumeN step k [] s = ([], s) := by
      intro k s
      cases k with
      | zero => rfl
      | succ k => rw [consumeN, decode_nil]
    intro k
    induction k with
    | zero =>
      intro l buf s hk _
      rw [length_eq_zero_iff.1 (Nat.le_zero.1 hk), hnil, hnil]
    | succ k ih =>
      intro l buf s hk hl
      cases l with
      | zero => rw [length_eq_zero_iff.1 (Nat.le_zero.1 hl), hnil, hnil]
      | succ l =>
        rw [consumeN, consumeN]
        cases hdec : D.decode buf with
        | none => rfl
        | some r =>
          have hlt := length_drop_lt (x := r.1) (n := r.2) hdec
          cases hstep : step s r.1 with
          | none => simp only [hstep]
          | some s' =>
            simp only [hstep]
            exact ih l (buf.drop r.2) s' (by omega) (by omega)
  intro fuel buf s hfuel
  exact hcount fuel buf.length buf s hfuel (Nat.le_refl _)

theorem consume_of_none (h : D.decode buf = none) : D.consume step buf s = (buf, s) := by
  rw [← consumeN_eq s (Nat.le_succ buf.length), consumeN, h]

theorem consume_of_stop (h : D.decode buf = some (x, n)) (hstop : step s x = none) :
    D.consume step buf s = (buf, s) := by
  rw [← consumeN_eq s (Nat.le_succ buf.length), consumeN, h]
  simp only [hstop]

theorem consume_of_step {s' : σ} (h : D.decode buf = some (x, n)) (hstep : step s x = some s') :
    D.consume step buf s = D.consume step (buf.drop n) s' := by
  rw [← consumeN_eq s (Nat.le_succ buf.length), consumeN, h]
  simp only [hstep]
  exact consumeN_eq s' (Nat.le_of_lt (length_drop_lt h))

/-- **The induction along the frames of a buffer.** -/
theorem decode_induct (D : Decoder β φ) {P : List β → Prop}
    (empty : ∀ buf, D.decode buf = none → P buf)
    (frame : ∀ buf x n, D.decode buf = some (x, n) → P (buf.drop n) → P buf) : ∀ buf, P buf := by
  have main : ∀ (len : ℕ) (buf : List β), buf.length ≤ len → P buf := by
    intro len
    induction len with
    | zero =>
      intro buf hlen
      obtain rfl : buf = [] := length_eq_zero_iff.1 (Nat.le_zero.1 hlen)
      exact empty [] decode_nil
    | succ len ih =>
      intro buf hlen
      cases hdec : D.decode buf with
      | none => exact empty buf hdec
      | some r =>
        have hlt := length_drop_lt (x := r.1) (n := r.2) hdec
        exact frame buf r.1 r.2 hdec (ih (buf.drop r.2) (by omega))
  exact fun buf => main buf.length buf (Nat.le_refl _)

/-- The induction along what is consumed: either nothing is taken, or a frame is, and the rest is
consumed after it. -/
theorem consume_induct (D : Decoder β φ) (step : σ → φ → Option σ) {P : List β → σ → Prop}
    (stay : ∀ buf s, D.consume step buf s = (buf, s) →
      (D.decode buf = none ∨ ∃ x n, D.decode buf = some (x, n) ∧ step s x = none) → P buf s)
    (take : ∀ buf s x n s', D.decode buf = some (x, n) → step s x = some s' →
      D.consume step buf s = D.consume step (buf.drop n) s' → P (buf.drop n) s' → P buf s) :
    ∀ buf s, P buf s := by
  refine decode_induct D ?empty ?frame
  case empty =>
    intro buf hdec s
    exact stay buf s (consume_of_none hdec) (.inl hdec)
  case frame =>
    intro buf x n hdec ih s
    cases hstep : step s x with
    | none => exact stay buf s (consume_of_stop hdec hstep) (.inr ⟨x, n, hdec, hstep⟩)
    | some s' => exact take buf s x n s' hdec hstep (consume_of_step hdec hstep) (ih s')

/-- **Consuming early changes nothing**: what comes later is appended to what is left. -/
theorem consume_append (more : List β) : ∀ (buf : List β) (s : σ),
    D.consume step (buf ++ more) s =
      D.consume step ((D.consume step buf s).1 ++ more) (D.consume step buf s).2 := by
  refine consume_induct D step ?stay ?take
  case stay =>
    intro buf s hstay _
    rw [hstay]
  case take =>
    intro buf s x n s' hdec hstep hcons ih
    rw [hcons, ← ih, consume_of_step (D.append more hdec) hstep,
      drop_append_of_le_length (D.le hdec)]

/-- **The invariant rule**: what every accepted frame keeps, consuming keeps. -/
theorem consume_inv {P : σ → Prop} (hstep : ∀ s x s', step s x = some s' → P s → P s') :
    ∀ (buf : List β) (s : σ), P s → P (D.consume step buf s).2 := by
  refine consume_induct D step ?stay ?take
  case stay =>
    intro buf s hstay _ hs
    rw [hstay]
    exact hs
  case take =>
    intro buf s x n s' _ hs' hcons ih hs
    rw [hcons]
    exact ih (hstep s x s' hs' hs)

/-- A reader that sees less of the state sees the same frames. -/
theorem consume_map {step' : τ → φ → Option τ} {f : σ → τ}
    (hmap : ∀ s x, step' (f s) x = (step s x).map f) : ∀ (buf : List β) (s : σ),
    D.consume step' buf (f s) = ((D.consume step buf s).1, f (D.consume step buf s).2) := by
  refine consume_induct D step ?stay ?take
  case stay =>
    intro buf s hstay hwhy
    rw [hstay]
    obtain hnone | ⟨x, n, hdec, hstop⟩ := hwhy
    · exact consume_of_none hnone
    · exact consume_of_stop hdec (by rw [hmap, hstop]; rfl)
  case take =>
    intro buf s x n s' hdec hs' hcons ih
    rw [hcons, ← ih]
    exact consume_of_step hdec (by rw [hmap, hs']; rfl)

/-! ### All frames -/

end Decoder

end Framing
