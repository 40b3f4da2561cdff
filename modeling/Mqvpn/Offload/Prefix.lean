import Mqvpn.Offload.Batch

/-!
# A batch is sent up to a point

Whatever the kernel answers, the batch sender deals with the datagrams at the front of the batch,
each one once and in order, and tells how many they were.  Every part of the sender is described
by the datagrams that it dealt with (`Handles`), so that the parts compose: a run that is refused
has dealt with none, a run sent one by one with those before the stop, and the retry without the
offload is made only where nothing was dealt with before.

A run is taken as one message and cut apart again by the kernel.  That the pieces are the
datagrams is where their sizes matter: they must not be empty, and the segment size must fit
16 bits, which it does in a message that the kernel takes.

## Main definitions

* `Handles`, `BindHandles` — what happened between two states is precisely that certain datagrams
  were dealt with.
* `Outcome`, `BindOutcome` — what a result says about the batch.

## Main results

* `batch_prefix` — the first `k` datagrams were dealt with and none behind them; an error means
  that none was.
-/

namespace Mqvpn.Offload

open List

/-! ### Dealing with datagrams -/

@[simp] theorem handed_append (evs evs' : List Event) :
    handed (evs ++ evs') = handed evs ++ handed evs' := by
  induction evs with
  | nil => rfl
  | cons e evs ih => cases e <;> simp [handed, ih]

@[simp] theorem handed_map (ds : List Datagram) : handed (ds.map .handed) = ds := by
  induction ds with
  | nil => rfl
  | cons d ds ih => simp [handed, ih]

@[simp] theorem map_datagram_handed (ds : List Datagram) :
    (ds.map Event.handed).map Event.datagram = ds := by
  induction ds with
  | nil => rfl
  | cons d ds ih => simp [Event.datagram, ih]

/-- **From `s` to `s'` precisely the datagrams `ds` were dealt with**, each one handed over or
refused for its length, in their order; the counters grew by what was handed over. -/
def Handles (ds : List Datagram) (s s' : Sender) : Prop :=
  ∃ evs, s'.socket.log = s.socket.log ++ evs ∧ evs.map Event.datagram = ds ∧
    s'.tx.bytes = s.tx.bytes + ((handed evs).map List.length).sum ∧
    s'.tx.datagrams = s.tx.datagrams + (handed evs).length

section Handles

variable {ds es : List Datagram} {s s' s'' : Sender}

/-- Only the log and two counters matter. -/
theorem Handles.congr (h : Handles ds s s') (hlog : s''.socket.log = s'.socket.log)
    (htx : s''.tx = s'.tx) : Handles ds s s'' := by
  obtain ⟨evs, h₁, h₂, h₃, h₄⟩ := h
  exact ⟨evs, by rw [hlog, h₁], h₂, by rw [htx, h₃], by rw [htx, h₄]⟩

theorem Handles.refl (s : Sender) : Handles [] s s :=
  ⟨[], (append_nil _).symm, rfl, rfl, rfl⟩

theorem Handles.trans (h : Handles ds s s') (h' : Handles es s' s'') :
    Handles (ds ++ es) s s'' := by
  obtain ⟨evs, h₁, h₂, h₃, h₄⟩ := h
  obtain ⟨evs', h₁', h₂', h₃', h₄'⟩ := h'
  refine ⟨evs ++ evs', ?_, ?_, ?_, ?_⟩
  · rw [h₁', h₁, append_assoc]
  · rw [map_append, h₂, h₂']
  · rw [h₃', h₃, handed_append, map_append, sum_append, Nat.add_assoc]
  · rw [h₄', h₄, handed_append, length_append, Nat.add_assoc]

/-- A call that took datagrams, counted. -/
theorem handles_taken {sk : Socket} (hlog : sk.log = s.socket.log ++ ds.map .handed)
    {n r : ℕ} (hn : n = (ds.map List.length).sum) (hr : r = ds.length) :
    Handles ds s ({ s with socket := sk }.count n r) := by
  refine ⟨ds.map .handed, hlog, map_datagram_handed ds, ?_, ?_⟩
  · rw [handed_map, hn]
    rfl
  · rw [handed_map, hr]
    rfl

/-- A call that refused a datagram for its length. -/
theorem handles_tooLong {sk : Socket} {d : Datagram}
    (hlog : sk.log = s.socket.log ++ [.tooLong d]) : Handles [d] s { s with socket := sk } :=
  ⟨[.tooLong d], hlog, rfl, rfl, rfl⟩

/-- A call that took nothing. -/
theorem handles_nothing {sk : Socket} (hlog : sk.log = s.socket.log) :
    Handles [] s { s with socket := sk } :=
  ⟨[], by rw [append_nil]; exact hlog, rfl, rfl, rfl⟩

end Handles

/-! ### Runs -/

/-- A run is a cut of its bytes: all of one size, but for the last. -/
theorem isCut_run {d : Datagram} {ds : List Datagram} (hd : d ≠ []) (hne : ∀ e ∈ ds, e ≠ []) :
    Segments.IsCut d.length (d :: ds.take (runTail d.length ds)) := by
  have hpos : 0 < d.length := length_pos_iff.mpr hd
  -- the head of the run only contributes its size
  suffices h : ∀ c : Datagram, c.length = d.length →
      Segments.IsCut d.length (c :: ds.take (runTail d.length ds)) from h d rfl
  induction ds with
  | nil =>
    intro c hc
    exact ⟨hc ▸ hpos, Nat.le_of_eq hc⟩
  | cons e ds ih =>
    intro c hc
    have hepos : 0 < e.length := length_pos_iff.mpr (hne e (mem_cons_self ..))
    by_cases heq : e.length = d.length
    · rw [runTail, if_pos heq, take_succ_cons]
      exact ⟨hc, ih (fun x hx => hne x (mem_cons_of_mem _ hx)) e heq⟩
    · rw [runTail, if_neg heq]
      by_cases hlt : e.length < d.length
      · rw [if_pos hlt, take_succ_cons, take_zero]
        exact ⟨hc, hepos, Nat.le_of_lt hlt⟩
      · rw [if_neg hlt, take_zero]
        exact ⟨hc ▸ hpos, Nat.le_of_eq hc⟩

theorem length_le_flatten {d : Datagram} {ds : List Datagram} :
    d.length ≤ (d :: ds).flatten.length := by
  rw [flatten_cons, length_append]
  exact Nat.le_add_right _ _

/-! ### One call -/

theorem sendmsg_ok {sk sk' : Socket} {seg : Option ℕ} {bytes : List UInt8} {n : ℕ}
    (h : sk.sendmsg seg bytes = (.ok n, sk')) :
    bytes.length ≤ 0xffff ∧ n = bytes.length ∧
      sk'.log = sk.log ++ (onWire seg bytes).map .handed := by
  unfold Socket.sendmsg at h
  dsimp only at h
  by_cases hlong : 0xffff < bytes.length
  · rw [if_pos hlong] at h
    cases h
  · rw [if_neg hlong] at h
    cases ha : (nextAnswer sk.answers).1 with
    | taken _ =>
      rw [ha] at h
      cases h
      exact ⟨Nat.le_of_not_lt hlong, rfl, rfl⟩
    | refused e =>
      rw [ha] at h
      cases h

theorem sendmsg_error {sk sk' : Socket} {seg : Option ℕ} {bytes : List UInt8} {e : Errno}
    (h : sk.sendmsg seg bytes = (.error e, sk')) :
    sk'.log = sk.log ++ if seg = none ∧ e = .msgSize then [.tooLong bytes] else [] := by
  unfold Socket.sendmsg at h
  dsimp only at h
  split at h
  · cases h
  · cases h
    rfl

/-- A run that is taken leaves as the datagrams it was made of. -/
theorem sendOneRun_ok {s : Sender} {sk : Socket} {d : Datagram} {ds : List Datagram} {n : ℕ}
    (hrun : Segments.IsCut d.length (d :: ds)) (hd : d ≠ [])
    (h : sendOneRun s.socket (d :: ds) = (.ok n, sk)) :
    Handles (d :: ds) s ({ s with socket := sk }.count n (d :: ds).length) := by
  have hpos : 0 < d.length := length_pos_iff.mpr hd
  obtain ⟨hfits, hn, hlog⟩ := sendmsg_ok h
  refine handles_taken ?_ (by rw [hn, length_flatten]) rfl
  rw [hlog]
  congr 2
  cases ds with
  | nil => exact cons.injEq .. ▸ ⟨append_nil d, rfl⟩
  | cons e ds =>
    -- what the kernel takes is short enough for the size to be exact in 16 bits
    have hsize : d.length % 2 ^ 16 = d.length :=
      Nat.mod_eq_of_lt (Nat.lt_of_le_of_lt (Nat.le_trans length_le_flatten hfits) (by decide))
    have hmany : 1 < (d :: e :: ds).length := by simp
    rw [if_pos hmany, headD_cons, hsize]
    obtain ⟨m, hm⟩ := Nat.exists_eq_succ_of_ne_zero (Nat.ne_of_gt hpos)
    rw [hm, onWire, ← hm]
    · exact Segments.cut_flatten hpos hrun
    · exact Nat.succ_ne_zero m

/-- A datagram that is refused alone for its length. -/
theorem sendOneRun_tooLong {s : Sender} {sk : Socket} {d : Datagram}
    (h : sendOneRun s.socket [d] = (.error .msgSize, sk)) :
    Handles [d] s { s with socket := sk } := by
  have hlog := sendmsg_error h
  rw [if_pos ⟨rfl, rfl⟩, flatten_cons, flatten_nil, append_nil] at hlog
  exact handles_tooLong hlog

/-- Any other refusal is of no consequence. -/
theorem sendOneRun_error {s : Sender} {sk : Socket} {run : List Datagram} {e : Errno}
    (h : sendOneRun s.socket run = (.error e, sk)) (he : e ≠ .msgSize ∨ 1 < run.length) :
    Handles [] s { s with socket := sk } := by
  have hlog := sendmsg_error h
  have hno : ¬((if 1 < run.length then some ((run.headD []).length % 2 ^ 16) else none) = none ∧
      e = .msgSize) := by
    rintro ⟨hseg, rfl⟩
    rcases he with he | hmany
    · exact he rfl
    · rw [if_pos hmany] at hseg
      cases hseg
  rw [if_neg hno, append_nil] at hlog
  exact handles_nothing hlog

/-! ### The sender's parts -/

/-- What a result says about the batch. -/
def Outcome (ds : List Datagram) (s : Sender) : SendResult × Sender → Prop
  | (.sent k, s') => k ≤ ds.length ∧ Handles (ds.take k) s s'
  | (.again, s') => Handles [] s s'
  | (.err, s') => Handles [] s s'

section
variable {ds : List Datagram}

theorem outcome_failed {s s' : Sender} (e : Errno) (h : Handles [] s s') :
    Outcome ds s (failed e, s') := by
  unfold failed
  split
  · exact h
  · exact h

/-- Stopping is sound wherever `sent` datagrams were dealt with. -/
theorem outcome_stopAt {s s' : Sender} {sent : ℕ} (e : Errno) (hle : sent ≤ ds.length)
    (h : Handles (ds.take sent) s s') : Outcome ds s (stopAt sent e, s') := by
  unfold stopAt
  by_cases hpos : 0 < sent
  · rw [if_pos hpos]
    exact ⟨hle, h⟩
  · rw [if_neg hpos]
    obtain rfl : sent = 0 := by omega
    exact outcome_failed e h

/-- What a call does behind one that took nothing, the two do together. -/
theorem outcome_after {s s' s'' : Sender} {r : SendResult × Sender} (h : Handles [] s s')
    (hlog : s''.socket.log = s'.socket.log) (htx : s''.tx = s'.tx) (hr : Outcome ds s'' r) :
    Outcome ds s r := by
  have h' := h.congr hlog htx
  match r with
  | (.sent _, _) => exact ⟨hr.1, h'.trans hr.2⟩
  | (.again, _) => exact h'.trans hr
  | (.err, _) => exact h'.trans hr

theorem outcome_sendPlain (hds : ds ≠ []) (s : Sender) : Outcome ds s (sendPlain s ds) := by
  have hpos : 0 < ds.length := length_pos_iff.mpr hds
  have hcap : 0 < (ds.take maxBatch).length := by
    rw [length_take]
    exact Nat.lt_min.mpr ⟨by decide, hpos⟩
  unfold sendPlain sendBatchMmsg Socket.sendmmsg
  dsimp only
  cases (nextAnswer s.socket.answers).1 with
  | taken n =>
    dsimp only
    have hr : max 1 (min n (ds.take maxBatch).length) ≤ (ds.take maxBatch).length := by omega
    generalize max 1 (min n (ds.take maxBatch).length) = r at hr
    have hcut : (ds.take maxBatch).take r = ds.take r := by
      rw [take_take, Nat.min_eq_left]
      exact Nat.le_trans hr (length_take_le _ _)
    have hle : r ≤ ds.length := Nat.le_trans hr (length_take_le' _ _)
    rw [hcut]
    exact ⟨hle, handles_taken rfl rfl (by rw [length_take, Nat.min_eq_left hle])⟩
  | refused e =>
    dsimp only
    by_cases he : e = .msgSize
    · rw [if_pos he, if_pos he]
      cases ds with
      | nil => exact absurd rfl hds
      | cons d ds => exact ⟨hpos, handles_tooLong rfl⟩
    · rw [if_neg he, if_neg he]
      exact outcome_failed e (handles_nothing (append_nil _))

end

/-- Datagrams sent one by one: those before the stop were dealt with. -/
theorem handles_sendSingles : ∀ (ds : List Datagram) (s : Sender), (∀ d ∈ ds, d ≠ []) →
    (sendSingles s ds).k ≤ ds.length ∧
      Handles (ds.take (sendSingles s ds).k) s (sendSingles s ds).sender ∧
      ((sendSingles s ds).stop = none → (sendSingles s ds).k = ds.length) := by
  intro ds
  induction ds with
  | nil => intro s _; exact ⟨Nat.le_refl 0, Handles.refl s, fun _ => rfl⟩
  | cons d ds ih =>
    intro s hne
    have hd : d ≠ [] := hne d (mem_cons_self ..)
    have htail : ∀ e ∈ ds, e ≠ [] := fun e he => hne e (mem_cons_of_mem _ he)
    -- one datagram dealt with, then the rest
    have hcons : ∀ {s' : Sender}, Handles [d] s s' →
        (sendSingles s' ds).k + 1 ≤ (d :: ds).length ∧
          Handles ((d :: ds).take ((sendSingles s' ds).k + 1)) s (sendSingles s' ds).sender ∧
          ((sendSingles s' ds).stop = none → (sendSingles s' ds).k + 1 = (d :: ds).length) := by
      intro s' h
      obtain ⟨hle, hrest, hall⟩ := ih s' htail
      refine ⟨Nat.succ_le_succ hle, h.trans hrest, fun hstop => ?_⟩
      rw [hall hstop, length_cons]
    unfold sendSingles
    cases hsend : sendOneRun s.socket [d] with
    | mk r sk =>
      cases r with
      | ok n =>
        have hcut : Segments.IsCut d.length [d] :=
          ⟨length_pos_iff.mpr hd, Nat.le_refl _⟩
        exact hcons (sendOneRun_ok hcut hd hsend)
      | error e =>
        dsimp only
        by_cases he : e = .msgSize
        · subst he
          rw [if_pos rfl]
          exact hcons (sendOneRun_tooLong hsend)
        · rw [if_neg he]
          exact ⟨Nat.zero_le _, sendOneRun_error hsend (.inl he), fun h => by cases h⟩

/-- What a round leads to: more datagrams were dealt with, or the result tells what was. -/
def RoundOutcome (ds : List Datagram) (s₀ : Sender) (sent : ℕ) : Round → Prop
  | .next sent' s' => sent < sent' ∧ sent' ≤ ds.length ∧ Handles (ds.take sent') s₀ s'
  | .done r s' => Outcome ds s₀ (r, s')

/-- The run ahead is a part of the batch, and so is every part of it. -/
theorem take_run {ds run : List Datagram} {sent n : ℕ} (hrun : (ds.drop sent).take n = run)
    (hlt : sent < ds.length) {m : ℕ} (hm : m ≤ run.length) :
    sent + m ≤ ds.length ∧ ds.take sent ++ run.take m = ds.take (sent + m) := by
  subst hrun
  rw [length_take, length_drop] at hm
  refine ⟨by omega, ?_⟩
  rw [take_take, Nat.min_eq_left (by omega), take_add]

/-- **One round.** -/
theorem outcome_gsoRound {ds : List Datagram} (hne : ∀ d ∈ ds, d ≠ []) {s₀ s : Sender}
    {sent : ℕ} (hlt : sent < ds.length) (h : Handles (ds.take sent) s₀ s) :
    RoundOutcome ds s₀ sent (gsoRound ds sent s) := by
  have hle : sent ≤ ds.length := Nat.le_of_lt hlt
  -- the run ahead, of which the first datagram is there
  have hrest : ∀ e ∈ ds.drop sent, e ≠ [] := fun e he => hne e (mem_of_mem_drop he)
  obtain ⟨d, rest, hdrop⟩ : ∃ d rest, ds.drop sent = d :: rest :=
    exists_cons_of_ne_nil (by simpa using hlt)
  have hd : d ≠ [] := hrest d (hdrop ▸ mem_cons_self ..)
  have hcut := isCut_run hd (fun e he => hrest e (hdrop ▸ mem_cons_of_mem _ he))
  have hrun : (ds.drop sent).take (gsoRunLen (ds.drop sent)) =
      d :: rest.take (runTail d.length rest) := by
    rw [hdrop, gsoRunLen, take_succ_cons]
  unfold gsoRound
  dsimp only
  generalize gsoRunLen (ds.drop sent) = n at hrun ⊢
  generalize rest.take (runTail d.length rest) = tail at hrun hcut
  have hrunmem : ∀ e ∈ d :: tail, e ≠ [] := fun e he =>
    hrest e (mem_of_mem_take (hrun ▸ he))
  have hpieces {m : ℕ} := take_run hrun hlt (m := m)
  rw [hrun]
  cases hsend : sendOneRun s.socket (d :: tail) with
  | mk r sk =>
    cases r with
    | ok k =>
      obtain ⟨hle', hpiece⟩ := hpieces (Nat.le_refl _)
      rw [take_length] at hpiece
      exact ⟨by simp, hle', hpiece ▸ h.trans (sendOneRun_ok hcut hd hsend)⟩
    | error e =>
      dsimp only
      by_cases hsingle : e = .msgSize ∧ (d :: tail).length = 1
      · -- a single datagram that is too long is dropped
        rw [if_pos hsingle]
        obtain ⟨rfl, hone⟩ := hsingle
        obtain rfl : tail = [] := by simpa using hone
        obtain ⟨hle', hpiece⟩ := hpieces (Nat.le_refl 1)
        exact ⟨Nat.lt_succ_self _, hle', hpiece ▸ h.trans (sendOneRun_tooLong hsend)⟩
      rw [if_neg hsingle]
      have hnone : Handles (ds.take sent) s₀ { s with socket := sk } := by
        have hmany : e ≠ .msgSize ∨ 1 < (d :: tail).length := by
          by_cases he : e = .msgSize
          · have : (d :: tail).length ≠ 1 := fun hone => hsingle ⟨he, hone⟩
            rw [length_cons] at this ⊢
            exact .inr (by omega)
          · exact .inl he
        have := h.trans (sendOneRun_error hsend hmany)
        rwa [append_nil] at this
      by_cases he : e = .msgSize
      · -- the run one by one
        rw [if_pos he]
        obtain ⟨hk, hsingles, hall⟩ :=
          handles_sendSingles (d :: tail) { s with socket := sk } hrunmem
        generalize sendSingles { s with socket := sk } (d :: tail) = r at hk hsingles hall
        obtain ⟨hle', hpiece⟩ := hpieces hk
        have hsofar := hpiece ▸ hnone.trans hsingles
        cases hstop : r.stop with
        | some e' => exact outcome_stopAt e' hle' hsofar
        | none =>
          rw [hall hstop] at hle' hsofar
          refine ⟨by simp, hle', hsofar.congr ?_ ?_⟩
          · split <;> rfl
          · split <;> rfl
      rw [if_neg he]
      by_cases hgso : 1 < (d :: tail).length ∧ gsoClassError e = true
      · rw [if_pos hgso]
        by_cases hzero : sent = 0
        · -- the retry starts where the batch does
          subst hzero
          rw [if_pos rfl]
          have hds : ds ≠ [] := length_pos_iff.mp hlt
          exact outcome_after hnone rfl rfl (outcome_sendPlain hds _)
        · rw [if_neg hzero]
          exact outcome_stopAt e hle (hnone.congr rfl rfl)
      · rw [if_neg hgso]
        exact outcome_stopAt e hle hnone

/-- **The loop**: what is behind it was dealt with, so the result tells what was. -/
theorem outcome_gsoLoop {ds : List Datagram} (hne : ∀ d ∈ ds, d ≠ []) {s₀ : Sender} :
    ∀ (fuel sent : ℕ) (s : Sender), sent ≤ ds.length → Handles (ds.take sent) s₀ s →
      Outcome ds s₀ (gsoLoop ds fuel sent s) := by
  intro fuel
  induction fuel with
  | zero => intro sent s hle h; exact ⟨hle, h⟩
  | succ fuel ih =>
    intro sent s hle h
    unfold gsoLoop
    by_cases hlt : sent < ds.length
    · rw [if_pos hlt]
      have hround := outcome_gsoRound hne hlt h
      cases hr : gsoRound ds sent s with
      | next sent' s' =>
        rw [hr] at hround
        exact ih sent' s' hround.2.1 hround.2.2
      | done r s' =>
        rw [hr] at hround
        exact hround
    · rw [if_neg hlt]
      exact ⟨hle, h⟩

theorem outcome_udpSendBatch (useGso : Bool) (s : Sender) {ds : List Datagram}
    (hne : ∀ d ∈ ds, d ≠ []) : Outcome ds s (udpSendBatch useGso s ds) := by
  unfold udpSendBatch
  cases ds with
  | nil => exact ⟨Nat.le_refl 0, Handles.refl s⟩
  | cons d ds =>
    rw [isEmpty_cons, if_neg Bool.false_ne_true]
    split
    · exact outcome_sendPlain (cons_ne_nil d ds) s
    · exact outcome_gsoLoop hne _ 0 s (Nat.zero_le _) (Handles.refl s)

/-! ### The callers' parts -/

/-- The same for a bound socket, which counts no bytes. -/
def BindHandles (ds : List Datagram) (b b' : Bind) : Prop :=
  ∃ evs, b'.socket.log = b.socket.log ++ evs ∧ evs.map Event.datagram = ds ∧
    b'.txDatagrams = b.txDatagrams + (handed evs).length

/-- What a result of a caller says about the batch. -/
def BindOutcome (ds : List Datagram) (b : Bind) : TxResult × Bind → Prop
  | (.sent k, b') => 0 < k ∧ k ≤ ds.length ∧ BindHandles (ds.take k) b b'
  | (.wouldBlock, b') => BindHandles [] b b'
  | (.failed, b') => BindHandles [] b b'

section Bind

variable {ds es : List Datagram} {b b' b'' : Bind}

theorem BindHandles.refl (b : Bind) : BindHandles [] b b :=
  ⟨[], (append_nil _).symm, rfl, rfl⟩

theorem BindHandles.trans (h : BindHandles ds b b') (h' : BindHandles es b' b'') :
    BindHandles (ds ++ es) b b'' := by
  obtain ⟨evs, h₁, h₂, h₃⟩ := h
  obtain ⟨evs', h₁', h₂', h₃'⟩ := h'
  refine ⟨evs ++ evs', ?_, ?_, ?_⟩
  · rw [h₁', h₁, append_assoc]
  · rw [map_append, h₂, h₂']
  · rw [h₃', h₃, handed_append, length_append, Nat.add_assoc]

/-- The datagram of a `sendto` is dealt with unless an error other than its length stood
against it. -/
def dealtWith (d : Datagram) : Except Errno ℕ → List Datagram
  | .ok _ => [d]
  | .error e => if e = .msgSize then [d] else []

theorem bindHandles_sendto {d : Datagram} {r : Except Errno ℕ} (h : b.sendto d = (r, b')) :
    BindHandles (dealtWith d r) b b' := by
  unfold Bind.sendto at h
  cases hsend : b.socket.sendmsg none d with
  | mk r' sk =>
    rw [hsend] at h
    cases r' with
    | ok n =>
      cases h
      exact ⟨[.handed d], (sendmsg_ok hsend).2.2, rfl, rfl⟩
    | error e =>
      cases h
      have hlog := sendmsg_error hsend
      rw [dealtWith]
      by_cases he : e = .msgSize
      · rw [if_pos ⟨rfl, he⟩] at hlog
        rw [if_pos he]
        exact ⟨[.tooLong d], hlog, rfl, rfl⟩
      · rw [if_neg (fun h => he h.2)] at hlog
        rw [if_neg he]
        exact ⟨[], hlog, rfl, rfl⟩

/-- What the batch sender dealt with, the bound socket did. -/
theorem BindHandles.of_sender {s' : Sender} {sends : ℕ}
    (h : Handles ds ⟨b.socket, ⟨0, 0, 0⟩, b.gsoDisabled⟩ s') :
    BindHandles ds b ⟨s'.socket, sends, b.txDatagrams + s'.tx.datagrams, s'.gsoDisabled⟩ := by
  obtain ⟨evs, hlog, hds, -, hcount⟩ := h
  exact ⟨evs, hlog, hds, by rw [hcount, Nat.zero_add]⟩

/-- The first datagrams of a batch are the first of a longer one. -/
theorem BindOutcome.of_take {n : ℕ} {r : TxResult × Bind} (h : BindOutcome (ds.take n) b r) :
    BindOutcome ds b r := by
  match r with
  | (.sent k, b') =>
    obtain ⟨hpos, hle, h⟩ := h
    rw [length_take] at hle
    rw [take_take, Nat.min_eq_left (Nat.le_trans hle (Nat.min_le_left _ _))] at h
    exact ⟨hpos, Nat.le_trans hle (Nat.min_le_right _ _), h⟩
  | (.wouldBlock, b') => exact h
  | (.failed, b') => exact h

/-- **The portable loop**: every datagram behind it was dealt with. -/
theorem bindOutcome_portableLoop : ∀ (ds es : List Datagram) {b₀ b : Bind},
    es ++ ds ≠ [] → BindHandles es b₀ b →
      BindOutcome (es ++ ds) b₀ (portableLoop b es.length ds) := by
  intro ds
  induction ds with
  | nil =>
    intro es b₀ b hne h
    rw [append_nil] at hne ⊢
    refine ⟨length_pos_iff.mpr hne, Nat.le_refl _, ?_⟩
    rwa [take_length]
  | cons d ds ih =>
    intro es b₀ b hne h
    -- go on behind the datagram
    have hnext : ∀ {b' : Bind}, BindHandles [d] b b' →
        BindOutcome (es ++ d :: ds) b₀ (portableLoop b' (es.length + 1) ds) := by
      intro b' hd
      have := ih (es ++ [d]) (by simp) (h.trans hd)
      rwa [length_append, append_assoc] at this
    unfold portableLoop
    cases hsend : b.sendto d with
    | mk r b' =>
      have hsent := bindHandles_sendto hsend
      cases r with
      | ok n => exact hnext hsent
      | error e =>
        dsimp only
        rw [dealtWith] at hsent
        by_cases he : e = .msgSize
        · rw [if_pos he] at hsent ⊢
          exact hnext hsent
        rw [if_neg he] at hsent ⊢
        have hstop := h.trans hsent
        rw [append_nil] at hstop
        by_cases hpos : 0 < es.length
        · rw [if_pos hpos]
          refine ⟨hpos, by simp, ?_⟩
          rwa [take_left]
        · rw [if_neg hpos]
          obtain rfl : es = [] := length_eq_zero_iff.mp (by omega)
          split
          · exact hstop
          · exact hstop

theorem bindOutcome_portable (b : Bind) (ds : List Datagram) :
    BindOutcome ds b (bindSendPortable b ds) := by
  unfold bindSendPortable
  cases ds with
  | nil => exact BindHandles.refl b
  | cons d ds =>
    rw [isEmpty_cons, if_neg Bool.false_ne_true]
    exact BindOutcome.of_take
      (bindOutcome_portableLoop ((d :: ds).take bindMaxBatch) [] (by simp [bindMaxBatch])
        (BindHandles.refl b))

theorem bindOutcome_bindSend (useGso : Bool) (b : Bind) {ds : List Datagram}
    (hne : ∀ d ∈ ds, d ≠ []) : BindOutcome ds b (bindSend useGso b ds) := by
  refine @BindOutcome.of_take _ _ bindMaxBatch _ ?_
  have hne' : ∀ d ∈ ds.take bindMaxBatch, d ≠ [] := fun d hd => hne d (mem_of_mem_take hd)
  unfold bindSend
  generalize ds.take bindMaxBatch = es at hne' ⊢
  match es with
  | [] => exact BindHandles.refl b
  | [d] =>
    dsimp only
    cases hsend : b.sendto d with
    | mk r b' =>
      have hsent := bindHandles_sendto hsend
      cases r with
      | ok n => exact ⟨Nat.one_pos, Nat.le_refl 1, hsent⟩
      | error e =>
        dsimp only
        rw [dealtWith] at hsent
        by_cases hagain : e = .again
        · subst hagain
          rw [if_pos rfl]
          exact hsent
        rw [if_neg hagain]
        by_cases he : e = .msgSize
        · rw [if_pos he] at hsent ⊢
          exact ⟨Nat.one_pos, Nat.le_refl 1, hsent⟩
        · rw [if_neg he] at hsent ⊢
          exact hsent
  | d :: e :: es =>
    dsimp only
    have hbatch := outcome_udpSendBatch useGso ⟨b.socket, ⟨0, 0, 0⟩, b.gsoDisabled⟩ hne'
    generalize udpSendBatch useGso ⟨b.socket, ⟨0, 0, 0⟩, b.gsoDisabled⟩ (d :: e :: es) = r
      at hbatch ⊢
    match r with
    | (.sent k, s') =>
      dsimp only
      by_cases hpos : 0 < k
      · rw [if_pos hpos]
        exact ⟨hpos, hbatch.1, BindHandles.of_sender hbatch.2⟩
      · rw [if_neg hpos]
        obtain rfl : k = 0 := by omega
        exact BindHandles.of_sender hbatch.2
    | (.again, s') => exact BindHandles.of_sender hbatch
    | (.err, s') => exact BindHandles.of_sender hbatch

end Bind

/-- **A batch is sent up to a point**, by the batch sender and by both of its callers. -/
theorem batch_prefix (useGso : Bool) (s : Sender) (b : Bind) {ds : List Datagram}
    (hne : ∀ d ∈ ds, d ≠ []) :
    Outcome ds s (udpSendBatch useGso s ds) ∧
      BindOutcome ds b (bindSend useGso b ds) ∧
      BindOutcome ds b (bindSendPortable b ds) :=
  ⟨outcome_udpSendBatch useGso s hne, bindOutcome_bindSend useGso b hne,
    bindOutcome_portable b ds⟩

/-- The offload is refused at the first run; `sendmmsg` then takes two of three datagrams. -/
theorem batch_prefix_retry :
    let answers : List Answer := [.refused .intr, .refused .inval, .taken 2]
    let s : Sender := ⟨⟨answers, []⟩, ⟨0, 0, 0⟩, none⟩
    let b : Bind := ⟨⟨answers, []⟩, 0, 0, none⟩
    let ds : List Datagram := [[1, 2], [3, 4], [5]]
    (udpSendBatch true s ds).1 = .sent 2 ∧ (udpSendBatch true s ds).2.tx = ⟨4, 1, 2⟩ ∧
      Outcome ds s (udpSendBatch true s ds) ∧
      BindOutcome ds b (bindSend true b ds) ∧
      BindOutcome ds b (bindSendPortable b ds) :=
  ⟨by decide, by decide, batch_prefix true _ _ (by decide)⟩

end Mqvpn.Offload
