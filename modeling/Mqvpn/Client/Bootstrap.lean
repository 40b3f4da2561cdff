import Mqvpn.Client.Sound

/-!
# The slot a connection starts on

xquic creates path `0` of a connection with the connection itself, and the client binds it to
its primary slot.  The primary slot is an index that outlives drops and reuse.  A reconnect
moves it to an attached slot first; the first connect does not, and is refused if the first
slot has lost its transport, whatever the others have.

Every start is recorded with the state it was made in, the slots and the result.

## Main definitions

* `Start.Attached`, `Start.Bootstrapped` — some slot has a transport; the start was not refused
  for the primary slot, and is on an attached and pending one if it succeeded.
* `StartOk` — what holds of every start.

## Main results

* `rotation_fair` — **the rotation takes the attached slots in turn**, reset by reset.
* `bootstrapped_iff` — **a start with an attached slot is bootstrapped on one, except a first
  connect while the first slot is detached**.
* `first_connect_refused` — such a connect.
-/

namespace Mqvpn.Cli

open List

open Endpoint (ClientState)

variable {c c' : Client} {i : ℕ} {p : PathEntry}

/-! ### Starts -/

def Start.Attached (s : Start) : Prop := ∃ p ∈ s.paths, p.transportAttached = true

instance (s : Start) : Decidable s.Attached :=
  inferInstanceAs (Decidable (∃ p ∈ s.paths, p.transportAttached = true))

/-- The primary slot meets a condition. -/
def Start.Primary (s : Start) (P : PathEntry → Prop) : Prop :=
  ∃ pp ∈ s.paths[s.primaryPathIdx]?, P pp

instance (s : Start) (P : PathEntry → Prop) [DecidablePred P] : Decidable (s.Primary P) :=
  inferInstanceAs (Decidable (∃ pp ∈ s.paths[s.primaryPathIdx]?, P pp))

/-- The start was not refused for its primary slot, and took an attached and pending one. -/
def Start.Bootstrapped (s : Start) : Prop :=
  s.result ≠ .primaryNotReady ∧
    (s.result = .started → s.Primary fun pp => pp.transportAttached = true ∧ pp.state = .pending)

instance (s : Start) : Decidable s.Bootstrapped :=
  inferInstanceAs (Decidable (_ ∧ _))

structure StartOk (s : Start) : Prop where
  slots : ∀ (i : ℕ) (p : PathEntry), s.paths[i]? = some p → p.Inv ∧ p.Rested
  state : s.state = .idle ∨ s.state = .reconnecting
  refused : s.result = .primaryNotReady → s.Primary fun pp => pp.transportAttached = false
  memory : s.connAlloc = false → s.result = .noMemory
  reached : s.result ≠ .primaryNotReady → s.connAlloc = true →
    ∀ pp ∈ s.paths[s.primaryPathIdx]?, pp.transportAttached = true
  first : s.state = .idle → s.primaryPathIdx = 0
  rotated : s.state = .reconnecting → s.Attached → s.Primary fun pp => pp.transportAttached = true

theorem start_snd (hconn : c.conn = none) (now : ℕ) (env : StartEnv) :
    (c.start now env).2 =
      if !env.connAlloc then .noMemory
      else if (c.paths[c.primaryPathIdx]?).any fun pp => !pp.transportAttached then .primaryNotReady
      else if !env.h3Connect then .connectFailed
      else .started := by
  show (startConnection now env c).2 = _
  unfold startConnection
  rw [hconn, if_neg (show ¬ (none : Option CliConn).isSome = true from Bool.false_ne_true)]
  dsimp only
  split
  · rfl
  split
  · rfl
  split <;> rfl

/-- The result of a start tells whether the primary slot was attached. -/
theorem start_result (hconn : c.conn = none) (now : ℕ) (env : StartEnv) :
    ((c.start now env).2 = .primaryNotReady →
        ∃ pp ∈ c.paths[c.primaryPathIdx]?, pp.transportAttached = false) ∧
      (env.connAlloc = false → (c.start now env).2 = .noMemory) ∧
      ((c.start now env).2 ≠ .primaryNotReady → env.connAlloc = true →
        ∀ pp ∈ c.paths[c.primaryPathIdx]?, pp.transportAttached = true) := by
  rw [start_snd hconn]
  cases env.connAlloc with
  | false => exact ⟨nofun, fun _ => rfl, fun _ => nofun⟩
  | true =>
  rw [if_neg (by decide)]
  cases hpp : c.paths[c.primaryPathIdx]? with
  | none =>
    refine ⟨?_, nofun, fun _ _ => nofun⟩
    rw [Option.any_none, if_neg Bool.false_ne_true]
    split <;> exact nofun
  | some pp =>
    rw [Option.any_some]
    cases hatt : pp.transportAttached with
    | false => exact ⟨fun _ => ⟨pp, rfl, hatt⟩, nofun, fun hready => absurd rfl hready⟩
    | true =>
      refine ⟨?_, nofun, fun _ _ => ?_⟩
      · rw [if_neg (by simp)]
        split <;> exact nofun
      · rintro _ ⟨⟩
        exact hatt

/-! ### The rotation -/

/-- The rotation takes slot `i`. -/
def eligible (paths : List PathEntry) (i : ℕ) : Bool :=
  (paths[i]?).any fun p => p.transportAttached && p.status != .closed

/-- The slots from behind `fromIdx` on, around the table. -/
theorem nextPrimaryIdx_eq (paths : List PathEntry) (fromIdx : ℕ) (hne : paths ≠ []) :
    nextPrimaryIdx paths fromIdx = ((((List.range paths.length).rotate (fromIdx + 1)).filter
      (eligible paths)).head?).getD fromIdx := by
  have hcandidates : (range paths.length).map (fun k => (fromIdx + 1 + k) % paths.length) =
      (range paths.length).rotate (fromIdx + 1) := by
    refine ext_getElem (by simp) fun k _ _ => ?_
    simp [getElem_rotate, Nat.add_comm k]
  unfold nextPrimaryIdx
  rw [if_neg (by simpa using hne), head?_filter, ← hcandidates]
  rfl

/-- The rotation finds an attached slot if there is one. -/
theorem nextPrimaryIdx_attached {paths : List PathEntry} (hp : paths[i]? = some p)
    (hatt : p.transportAttached = true) (hopen : p.status ≠ .closed) (fromIdx : ℕ) :
    ∃ pp ∈ paths[nextPrimaryIdx paths fromIdx]?, pp.transportAttached = true := by
  have hlt := (List.getElem?_eq_some_iff.1 hp).1
  rw [nextPrimaryIdx_eq paths fromIdx (by rintro rfl; cases hlt)]
  cases hfind : ((range paths.length).rotate (fromIdx + 1)).filter (eligible paths) with
  | nil =>
    refine absurd ?_ (filter_eq_nil_iff.1 hfind i (by simpa using hlt))
    simp [eligible, hp, hatt, hopen]
  | cons j _ =>
    have hj : eligible paths j = true := (mem_filter.1 (hfind ▸ mem_cons_self ..)).2
    obtain ⟨pp, hpp, hok⟩ := (Option.any_eq_true _ _).1 hj
    exact ⟨pp, hpp, (Bool.and_eq_true_iff.1 hok).1⟩

/-- From a member of a filtered range, the next one around is the one behind it in the list. -/
theorem filter_rotate_range {q : ℕ → Bool} {n j : ℕ}
    (hj : ((List.range n).filter q)[j]? = some i) :
    ((List.range n).rotate (i + 1)).filter q = ((List.range n).filter q).rotate (j + 1) := by
  obtain ⟨hlt, hget⟩ := List.getElem?_eq_some_iff.1 hj
  obtain ⟨hi, hq⟩ := mem_filter.1 (hget ▸ getElem_mem hlt)
  have hi := mem_range.1 hi
  -- the members up to `i`, and those behind it
  have htake : ((range n).take (i + 1)).filter q = (range i).filter q ++ [i] := by
    rw [take_range, Nat.min_eq_left hi, range_succ, filter_append]
    simp [hq]
  have hsplit : (range n).filter q = ((range i).filter q ++ [i]) ++
      ((range n).drop (i + 1)).filter q := by
    rw [← htake, ← filter_append, take_append_drop]
  have hindex : j + 1 = ((range i).filter q ++ [i]).length := by
    have hnodup : ((range n).filter q).Nodup := nodup_range.filter _
    have hat : ((range n).filter q)[((range i).filter q).length]? = some i := by
      rw [hsplit]
      simp
    obtain ⟨hlt', hget'⟩ := List.getElem?_eq_some_iff.1 hat
    rw [(hnodup.getElem_inj_iff).1 (hget.trans hget'.symm), length_append]
    rfl
  rw [rotate_eq_drop_append_take (by rw [length_range]; exact hi), filter_append,
    htake, hindex]
  conv_rhs => rw [hsplit]
  rw [rotate_append_length_eq]

def attachedIdx (paths : List PathEntry) : List ℕ :=
  (List.range paths.length).filter fun i => (paths[i]?).any (·.transportAttached)

/-- A reset leaves the transport of a slot alone, and makes an attached one pending. -/
theorem pathOnConnReset_attached (hstatus : p.status = p.state.publicStatus) (now : ℕ) :
    (pathOnConnReset now p).transportAttached = p.transportAttached ∧
      (p.transportAttached = true → (pathOnConnReset now p).state = .pending ∧
        (pathOnConnReset now p).status = .pending) := by
  unfold pathOnConnReset setPathState maybeTransitionDroppedToFree
  dsimp only
  split
  · next hatt =>
    split
    · exact ⟨rfl, fun _ => ⟨rfl, rfl⟩⟩
    · next hsame =>
      have hstate : p.state = .pending := not_not.1 (not_or.1 hsame).1
      exact ⟨rfl, fun _ => ⟨hstate, by rw [hstatus, hstate]; rfl⟩⟩
  · next hdetached =>
    refine ⟨?_, fun hatt => absurd hatt hdetached⟩
    unfold setPathState
    repeat' split
    all_goals rfl

/-- A reset designates the first attached slot behind the primary one. -/
theorem reset_primaryPathIdx (hstatus : ∀ p ∈ c.paths, p.status = p.state.publicStatus)
    (hne : attachedIdx c.paths ≠ []) (now : ℕ) :
    (((List.range c.paths.length).rotate (c.primaryPathIdx + 1)).filter fun i =>
        (c.paths[i]?).any (·.transportAttached)).head? =
      some (resetPathsForReconnect now c).primaryPathIdx ∧
    ∀ i ∈ attachedIdx c.paths, ∃ p ∈ (resetPathsForReconnect now c).paths[i]?,
      p.transportAttached = true ∧ p.state = .pending := by
  have hpaths (i : ℕ) : (resetPathsForReconnect now c).paths[i]? =
      (c.paths[i]?).map (pathOnConnReset now) := getElem?_map
  have heligible : eligible (resetPathsForReconnect now c).paths =
      fun i => (c.paths[i]?).any (·.transportAttached) := by
    funext i
    rw [eligible, hpaths]
    cases hp : c.paths[i]? with
    | none => rfl
    | some p =>
      obtain ⟨hsame, hpending⟩ := pathOnConnReset_attached (hstatus p (mem_of_getElem? hp)) now
      cases hatt : p.transportAttached with
      | false => simp [hsame, hatt]
      | true => simp [hsame, hatt, (hpending hatt).2]
  constructor
  · have hfilter : ((range c.paths.length).rotate (c.primaryPathIdx + 1)).filter
        (fun i => (c.paths[i]?).any (·.transportAttached)) ≠ [] := fun hnil =>
      hne (((rotate_perm ..).filter _).symm.trans (by rw [hnil])).eq_nil
    obtain ⟨i, l, hl⟩ := exists_cons_of_ne_nil hfilter
    show _ = some (nextPrimaryIdx (resetPathsForReconnect now c).paths c.primaryPathIdx)
    rw [nextPrimaryIdx_eq _ _ fun hnil => hne (by rw [map_eq_nil_iff.1 hnil]; rfl), heligible,
      show (resetPathsForReconnect now c).paths.length = c.paths.length from length_map .., hl]
    rfl
  · intro i hi
    obtain ⟨p, hp, hatt⟩ := (Option.any_eq_true _ _).1 (mem_filter.1 hi).2
    obtain ⟨hsame, hpending⟩ := pathOnConnReset_attached (hstatus p (mem_of_getElem? hp)) now
    exact ⟨_, by rw [hpaths, hp]; rfl, hsame.trans hatt, (hpending hatt).1⟩

/-- **The rotation is fair.**  With one attached slot at least, a reset designates an attached one
that is pending; and while the attached slots are the same, as many resets as there are designate
each of them once. -/
theorem rotation_fair (cs : ℕ → Client) (now : ℕ → ℕ) (slots : List ℕ)
    (hslots : ∀ m, attachedIdx (cs m).paths = slots)
    (hstatus : ∀ m, ∀ p ∈ (cs m).paths, p.status = p.state.publicStatus)
    (hnext : ∀ m, (cs (m + 1)).primaryPathIdx =
      (resetPathsForReconnect (now m) (cs m)).primaryPathIdx) (m : ℕ) :
    (slots ≠ [] → ∃ p ∈ (resetPathsForReconnect (now m) (cs m)).paths[
        (resetPathsForReconnect (now m) (cs m)).primaryPathIdx]?,
      p.transportAttached = true ∧ p.state = .pending) ∧
    ((List.range slots.length).map fun j =>
      (resetPathsForReconnect (now (m + j)) (cs (m + j))).primaryPathIdx).Perm slots := by
  have hmem (m : ℕ) (hne : slots ≠ []) :
      (resetPathsForReconnect (now m) (cs m)).primaryPathIdx ∈ slots := by
    obtain ⟨hhead, -⟩ := reset_primaryPathIdx (hstatus m) (hslots m ▸ hne) (now m)
    rw [← hslots m]
    exact ((rotate_perm ..).filter _).subset (mem_of_mem_head? hhead)
  refine ⟨fun hne => (reset_primaryPathIdx (hstatus m) (hslots m ▸ hne) (now m)).2 _
    (hslots m ▸ hmem m hne), ?_⟩
  by_cases hne : slots = []
  · rw [hne]
    exact .nil
  obtain ⟨k, hk⟩ := mem_iff_getElem?.1 (hmem m hne)
  -- one reset after the other goes through the list, around its end
  have hround (j : ℕ) : slots[(k + j) % slots.length]? =
      some (resetPathsForReconnect (now (m + j)) (cs (m + j))).primaryPathIdx := by
    induction j with
    | zero => rw [Nat.add_zero, Nat.mod_eq_of_lt (List.getElem?_eq_some_iff.1 hk).1, hk]; rfl
    | succ j ih =>
      obtain ⟨hhead, -⟩ := reset_primaryPathIdx (hstatus (m + j + 1)) (hslots _ ▸ hne)
        (now (m + j + 1))
      have hrotate := filter_rotate_range ((congrArg (·[(k + j) % slots.length]?)
        (hslots (m + j + 1))).trans ih)
      have hpos : 0 < slots.length := length_pos_iff.2 hne
      rw [hnext, hrotate, show (range _).filter _ = slots from hslots (m + j + 1),
        head?_eq_getElem?, getElem?_rotate hpos, Nat.zero_add, Nat.mod_add_mod] at hhead
      exact hhead
  have hlist : ((range slots.length).map fun j =>
      (resetPathsForReconnect (now (m + j)) (cs (m + j))).primaryPathIdx) = slots.rotate k := by
    refine ext_getElem? fun j => ?_
    by_cases hj : j < slots.length
    · rw [getElem?_rotate hj, Nat.add_comm, hround, getElem?_map,
        getElem?_range hj]
      rfl
    · rw [getElem?_eq_none (by simpa using hj), getElem?_eq_none (by simpa using hj)]
  rw [hlist]
  exact rotate_perm ..

/-- Three slots, of which the middle one was dropped while it was the primary; `m` resets later. -/
def rotating (m : ℕ) : Client :=
  let paths := [PathEntry.added 1 1 plainOps 1,
    pathOnPlatformDrop 2 (PathEntry.added 2 2 plainOps 1), PathEntry.added 3 3 plainOps 1]
  { cfg := plainConfig
    paths := paths
    primaryPathIdx :=
      m.rec 1 fun _ i => nextPrimaryIdx (paths.map (pathOnEvent 5 .connReset)) i }

theorem rotation_fair_dropped :
    ((List.range 2).map fun j =>
      (resetPathsForReconnect 5 (rotating j)).primaryPathIdx) = [2, 0] ∧
    ((List.range 2).map fun j =>
      (resetPathsForReconnect 5 (rotating (0 + j))).primaryPathIdx).Perm [0, 2] :=
  ⟨by decide, (rotation_fair rotating (fun _ => 5) [0, 2] (fun _ => rfl)
    (fun _ => show ∀ p ∈ (rotating 0).paths, p.status = p.state.publicStatus by decide)
    (fun _ => rfl) 0).2⟩

/-! ### Every start -/

theorem startOk_first (h : Sound c) (hidle : c.state = .idle) (now : ℕ) (env : StartEnv) :
    StartOk (c.startRecord env (c.start now env).2) := by
  obtain ⟨hrefused, hmemory, hreached⟩ := start_result (h.phase.conn_none (.inl hidle)) now env
  refine ⟨fun i p hp => ⟨h.slots.inv i p hp, h.rested hidle i p hp⟩, .inl hidle, hrefused, hmemory,
    hreached, fun _ => h.primary hidle, fun hs => ?_⟩
  exact ClientState.noConfusion (hidle.symm.trans hs)

/-- A reconnect: the slots are at rest and the primary slot was chosen anew. -/
theorem startOk_restart (hphase : Phase c) (hslots : SlotsInv c) (hs : c.state = .reconnecting)
    (now : ℕ) (env : StartEnv) :
    let d := resetPathsForReconnect now { c with reconnectScheduledUs := 0 }
    StartOk (d.startRecord env (d.start now env).2) := by
  intro d
  have hclear : Reslotted c { c with reconnectScheduledUs := 0 } := hslots.still rfl
  obtain ⟨hreset, hrest⟩ := hclear.slots.reset now
  obtain ⟨hrefused, hmemory, hreached⟩ := start_result (c := d) (hphase.conn_none (.inr hs)) now env
  refine ⟨fun i p hp => ⟨hreset.slots.inv i p hp, hrest i p hp⟩, .inr hs, hrefused, hmemory,
    hreached,
    fun hidle => ClientState.noConfusion (hs.symm.trans hidle), fun _ hattached => ?_⟩
  obtain ⟨p, hmem, hatt⟩ := hattached
  obtain ⟨i, hp⟩ := mem_iff_getElem?.1 hmem
  have hinv := hreset.slots.inv i p hp
  have hopen : p.status ≠ .closed := by
    rw [hinv.ok.1, (hrest i p hp).pending hinv hatt]
    decide
  exact nextPrimaryIdx_attached hp hatt hopen _

/-- At most one start was made on the way from `c` to `c'`, and it was right. -/
def OneStart (c c' : Client) : Prop :=
  c'.starts = c.starts ∨ ∃ s, StartOk s ∧ c'.starts = c.starts ++ [s]

theorem oneStart_restarted (hphase : Phase c) (hslots : SlotsInv c) (hs : c.state = .reconnecting)
    (now : ℕ) (env : StartEnv) : OneStart c (c.restarted now env) := by
  refine .inr ⟨_, startOk_restart hphase hslots hs now env, ?_⟩
  have hstarts := start_starts (resetPathsForReconnect now { c with reconnectScheduledUs := 0 })
    now env
  unfold Client.restarted
  dsimp only
  split
  · exact hstarts
  · exact (setState_starts ..).trans hstarts

theorem oneStart_connect (h : Sound c) (now : ℕ) (env : StartEnv) :
    OneStart c (connect now env c).1 := by
  obtain heq | ⟨hidle, hstart⟩ | ⟨hs, heq⟩ := connect_cases now env c
  · exact .inl (congrArg Client.starts heq)
  · refine .inr ⟨_, startOk_first h hidle now env, ?_⟩
    rw [← start_starts]
    obtain ⟨-, heq⟩ | ⟨-, heq⟩ := hstart <;> rw [heq]
    exact setState_starts ..
  · rw [heq]
    exact oneStart_restarted h.phase h.slots hs now env

/-- **A move makes at most one start**, and a start is right. -/
theorem Move.oneStart (hmove : Move c c') (h : Sound c) : OneStart c c' := by
  cases hmove with
  | effect k hc he hre => exact .inl (eq_of_view Client.starts he.base)
  | slots hbusy hslots => exact .inl (eq_of_view Client.starts hslots.core)
  | detached now i ev hev =>
    exact .inl (eq_of_view Client.starts (slotwise_detached hev c now i).core)
  | aside handshakeStartedUs tunActive => exact .inl rfl
  | connected now env hs => exact oneStart_connect h now env
  | restarted now env hs => exact oneStart_restarted h.phase h.slots hs now env
  | closing | shutDown => exact .inl rfl
  | closed | established | stranded => exact .inl (setState_starts ..)

theorem Moves.startOk (hmoves : Moves c c') (h : Sound c) (hstarts : ∀ s ∈ c.starts, StartOk s) :
    ∀ s ∈ c'.starts, StartOk s := by
  refine (hmoves.inv (P := fun d => Sound d ∧ ∀ s ∈ d.starts, StartOk s) (fun hd hmove => ?_)
    ⟨h, hstarts⟩).2
  refine ⟨hd.1.move hmove, ?_⟩
  obtain heq | ⟨s, hs, heq⟩ := hmove.oneStart hd.1
  · rw [heq]
    exact hd.2
  · rw [heq]
    exact forall_mem_append.2 ⟨hd.2, forall_mem_singleton.2 hs⟩

theorem startOk_step (h : c.destroyed = false → Sound c) (hstarts : ∀ s ∈ c.starts, StartOk s)
    (op : Op) : ∀ s ∈ (c.step op).starts, StartOk s := by
  cases halive : c.destroyed with
  | true =>
    rw [Client.step_destroyed halive]
    exact hstarts
  | false =>
    have hsound := h halive
    have hcall := call_step halive op
    generalize c.step op = c' at hcall ⊢
    cases hcall with
    | moves hm => exact hm.startOk hsound hstarts
    | added i now o ctx hfree hm => exact hm.startOk (hsound.added hfree now o ctx) hstarts
    | released i p now stats hp hdropped howed => exact hstarts
    | destroyed hm stats =>
      rw [eq_of_view Client.starts (live_finalizeAll ..)]
      exact hm.startOk hsound hstarts

theorem startOk_run (cfg : ClientConfig) (ops : List Op) :
    ∀ s ∈ ((Client.new cfg).run ops).starts, StartOk s := by
  refine (Run.exec_inv Client.step
    (P := fun d => (d.destroyed = false → Sound d) ∧ ∀ s ∈ d.starts, StartOk s)
    (fun d op hd => ⟨fun halive => ?_, startOk_step hd.1 hd.2 op⟩)
    ops (Client.new cfg) ⟨fun _ => sound_new cfg, nofun⟩).2
  exact (hd.1 (step_alive d op halive)).step op halive

/-- An attached primary slot at rest is what a start needs. -/
theorem StartOk.bootstrapped {s : Start} (h : StartOk s)
    (hprimary : s.Primary fun pp => pp.transportAttached = true) : s.Bootstrapped := by
  obtain ⟨pp, hpp, hatt⟩ := hprimary
  refine ⟨fun hrefused => ?_, fun _ => ?_⟩
  · obtain ⟨pp', hpp', hdetached⟩ := h.refused hrefused
    obtain rfl := Option.some.inj (hpp.symm.trans hpp')
    rw [hatt] at hdetached
    cases hdetached
  · obtain ⟨hinv, hrest⟩ := h.slots _ pp hpp
    exact ⟨pp, hpp, hatt, hrest.pending hinv hatt⟩

/-- **A start with an attached slot is bootstrapped on an attached and pending slot**, after every
history and whether it is a reconnect or not, except a first connect that gets its memory while the
first slot is detached. -/
theorem bootstrapped_iff (cfg : ClientConfig) (ops : List Op) :
    ∀ s ∈ ((Client.new cfg).run ops).starts, s.Attached →
      (s.Bootstrapped ↔ (s.state = .idle → s.connAlloc = true →
        ∃ p ∈ s.paths[0]?, p.transportAttached = true)) := by
  intro s hs hattached
  have h := startOk_run cfg ops s hs
  constructor
  · intro hboot hidle hmemory
    have hreached := h.reached hboot.1 hmemory
    rw [h.first hidle] at hreached
    obtain ⟨p, hmem, -⟩ := hattached
    cases hp : s.paths[0]? with
    | none =>
      rw [getElem?_eq_none_iff, Nat.le_zero, length_eq_zero_iff] at hp
      rw [hp] at hmem
      cases hmem
    | some p₀ => exact ⟨p₀, rfl, hreached p₀ hp⟩
  · intro hfirst
    obtain hidle | hs := h.state
    · cases halloc : s.connAlloc with
      | false =>
        have hmemory := h.memory halloc
        exact ⟨by rw [hmemory]; decide, fun hstarted => by rw [hmemory] at hstarted; cases hstarted⟩
      | true =>
        refine h.bootstrapped ?_
        unfold Start.Primary
        rw [h.first hidle]
        exact hfirst hidle halloc
    · exact h.bootstrapped (h.rotated hs hattached)

/-- A client connects on its only path. -/
def onlyPath : Start where
  state := .idle
  paths := [PathEntry.added 1 1 plainOps 1]
  primaryPathIdx := 0
  connAlloc := true
  result := .started

theorem bootstrapped_onlyPath :
    onlyPath ∈ ((Client.new plainConfig).run
        [.addPath 1 (some plainOps) 1 [], .connect 2 goodStart]).starts ∧
      onlyPath.Attached ∧ onlyPath.Bootstrapped :=
  ⟨by decide +kernel, by decide +kernel,
    (bootstrapped_iff plainConfig [.addPath 1 (some plainOps) 1 [], .connect 2 goodStart] onlyPath
      (by decide +kernel) (by decide +kernel)).2 fun _ _ => by decide +kernel⟩

/-- The first path is dropped and another one added before the first connect. -/
theorem first_connect_refused :
    ∃ s ∈ ((Client.new plainConfig).run
        [.addPath 1 (some plainOps) 1 [], .pathDropped 2 1, .addPath 3 (some plainOps) 2 [],
          .connect 4 goodStart]).starts,
      s.Attached ∧ s.result = .primaryNotReady ∧ ¬ s.Bootstrapped := by
  decide +kernel

end Mqvpn.Cli
