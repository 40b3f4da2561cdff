import Mqvpn.Client.Phases

/-!
# The client between its calls

Whatever calls, answers and callbacks come in whatever order, the state of the client, its
connection and its table of slots are in order after every call.  Before the first connection
the slots are at rest, and the first one is the primary one.

## Main definitions

* `Sound` — the client between calls.

## Main results

* `Sound.move` — every move keeps it.
* `slots_ok_run` — **the table of slots is right after every run**.
-/

namespace Mqvpn.Cli

open Endpoint (ClientState)

variable {c c' : Client} {i : ℕ} {p : PathEntry}

/-! ### Idle clients -/

/-- One slot is written, and it is at rest. -/
theorem Rested.write {p' : PathEntry} (h : Rested c)
    (hcases : ∀ {j : ℕ} {q : PathEntry}, c'.paths[j]? = some q →
      j = i ∧ q = p' ∨ j ≠ i ∧ c.paths[j]? = some q) (hrest : p'.Rested) : Rested c' := by
  intro j q hq
  obtain ⟨-, rfl⟩ | ⟨-, hq⟩ := hcases hq
  · exact hrest
  · exact h j q hq

theorem Rested.detached (h : Rested c) (hslots : SlotsInv c) {ev : PathEvent}
    (hev : ev = .platformDrop ∨ ev = .removeApi) (now i : ℕ) : Rested (c.onPathEvent now ev i) := by
  unfold Client.onPathEvent
  split
  · exact h
  · next p hp =>
    refine h.write Slots.of_getElem?_set ?_
    have hrest := (h i p hp).detached (hslots.inv i p hp) now
    obtain rfl | rfl := hev <;> exact hrest

theorem Rested.finalize (h : Rested c) (hslots : SlotsInv c) (hp : c.paths[i]? = some p)
    (hdropped : p.state = .closedDropped) (now : ℕ) (stats : Option (ℕ × ℕ)) :
    Rested (c.finalize i p (p.givenBack now) stats) := by
  obtain ⟨hinv, -, -, hatt, hlive⟩ := (hslots.inv i p hp).givenBack hdropped now
  refine h.write Slots.of_getElem?_set (hinv.rested hatt (Bool.eq_false_iff.2 fun htrue => ?_))
  have hfalse := (h i p hp).1
  rw [(hlive htrue).1] at hfalse
  cases hfalse

theorem Rested.added (h : Rested c) (hfree : freeIdx c = some i) (now : ℕ) (o : PathOps) (ctx : ℕ) :
    Rested (c.added i now o ctx) :=
  h.write (of_putPath hfree) (PathEntry.added_spec now c.nextPathHandle o ctx).2.1

/-- The client between calls: its phase, its slots, and before the first connection neither a
path nor another primary slot than the first. -/
structure Sound (c : Client) : Prop where
  phase : Phase c
  slots : SlotsInv c
  rested : c.state = .idle → Rested c
  primary : c.state = .idle → c.primaryPathIdx = 0

/-- The client `c` was idle and `c'` has its slots. -/
def StillIdle (c c' : Client) : Prop :=
  c.state = .idle ∧ c'.paths = c.paths ∧ c'.primaryPathIdx = c.primaryPathIdx

/-- A call that leaves a client idle found it idle, and with the slots it has. -/
theorem Sound.of_idle (h : Sound c) (hphase : Phase c') (hslots : SlotsInv c')
    (hidle : c'.state = .idle → StillIdle c c') : Sound c' := by
  refine ⟨hphase, hslots, fun hs => ?_, fun hs => ?_⟩
  · obtain ⟨hs₀, hpaths, -⟩ := hidle hs
    intro i p hp
    rw [hpaths] at hp
    exact h.rested hs₀ i p hp
  · obtain ⟨hs₀, -, hprimary⟩ := hidle hs
    exact hprimary.trans (h.primary hs₀)

theorem connect_idle (now : ℕ) (env : StartEnv) (c : Client)
    (hidle : (connect now env c).1.state = .idle) : StillIdle c (connect now env c).1 := by
  obtain heq | ⟨hs, ⟨hfail, heq⟩ | ⟨-, heq⟩⟩ | ⟨hs, heq⟩ := connect_cases now env c
  · rw [heq] at hidle ⊢
    exact ⟨hidle, rfl, rfl⟩
  · obtain ⟨connId, -, -, hsame⟩ | ⟨-, hok, -⟩ := start_cases c now env
    · rw [heq, hsame]
      exact ⟨hs, rfl, rfl⟩
    · exact absurd hok hfail
  · rw [heq, setState_state] at hidle
    cases hidle
  · rw [heq] at hidle
    exact absurd hidle (restarted_not_idle (by rw [hs]; decide) now env)

/-! ### Moves and calls -/

/-- **Every move keeps the client sound.** -/
theorem Sound.move (h : Sound c) (hmove : Move c c') : Sound c' := by
  have hphase := h.phase.move hmove
  have hslots := (hmove.reslotted h.slots h.rested).slots
  have hset : ∀ {now : ℕ} {s : ClientState} {d : Client}, s ≠ .idle →
      (setState now s d).state = .idle → StillIdle c (setState now s d) := by
    intro now s d hs hidle
    rw [setState_state] at hidle
    exact absurd hidle hs
  cases hmove with
  | effect k hc he hre =>
    refine h.of_idle hphase hslots fun hidle => ?_
    by_cases hs : c.state = .idle
    · rw [h.phase.conn_none (.inl hs)] at hc
      cases hc
    · exact absurd hidle (he.not_idle hs)
  | slots hbusy hslotwise =>
    refine h.of_idle hphase hslots fun hidle => ?_
    rw [eq_of_view Client.state hslotwise.core] at hidle
    exact absurd hidle (hbusy.resolve_left (not_not.2 (h.phase.conn_none (.inl hidle))))
  | detached now i ev hev =>
    have hslotwise := slotwise_detached hev c now i
    have hs : (c.onPathEvent now ev i).state = c.state :=
      eq_of_view Client.state hslotwise.core
    exact ⟨hphase, hslots, fun hidle => (h.rested (hs ▸ hidle)).detached h.slots hev now i,
      fun hidle => hslotwise.primary.trans (h.primary (hs ▸ hidle))⟩
  | aside handshakeStartedUs tunActive => exact ⟨hphase, hslots, h.rested, h.primary⟩
  | connected now env hs => exact h.of_idle hphase hslots (connect_idle now env c)
  | restarted now env hs =>
    refine h.of_idle hphase hslots fun hidle => ?_
    exact absurd hidle (restarted_not_idle (by rw [hs]; decide) now env)
  | closing | shutDown => exact ⟨hphase, hslots, h.rested, h.primary⟩
  | closed | established | stranded => exact h.of_idle hphase hslots (hset nofun)

theorem Sound.moves (h : Sound c) (hmoves : Moves c c') : Sound c' :=
  hmoves.inv (fun hd hmove => hd.move hmove) h

theorem Sound.added (h : Sound c) (hfree : freeIdx c = some i) (now : ℕ) (o : PathOps) (ctx : ℕ) :
    Sound (c.added i now o ctx) := by
  refine ⟨h.phase.of_live ?_, h.slots.added hfree now o ctx,
    fun hidle => (h.rested hidle).added hfree now o ctx, h.primary⟩
  rfl

theorem Sound.step (h : Sound c) (op : Op) (halive : (c.step op).destroyed = false) :
    Sound (c.step op) := by
  cases hbefore : c.destroyed with
  | true =>
    rw [Client.step_destroyed hbefore]
    exact h
  | false =>
    have hcall := call_step hbefore op
    generalize c.step op = c' at hcall halive ⊢
    cases hcall with
    | moves hm => exact h.moves hm
    | added i now o ctx hfree hm => exact (h.added hfree now o ctx).moves hm
    | released i p now stats hp hdropped howed =>
      exact ⟨h.phase.of_live rfl, h.slots.finalize hp hdropped now stats,
        fun hidle => (h.rested hidle).finalize h.slots hp hdropped now stats, h.primary⟩
    | destroyed hm stats =>
      rw [eq_of_view Client.destroyed (live_finalizeAll ..)] at halive
      cases halive

/-! ### Runs -/

theorem no_path_new {cfg : ClientConfig} {i : ℕ} {p : PathEntry} {P : Prop}
    (hp : (Client.new cfg).paths[i]? = some p) : P :=
  absurd hp (Option.some_ne_none p).symm

theorem sound_new (cfg : ClientConfig) : Sound (Client.new cfg) :=
  ⟨phase_new cfg, ⟨fun _ _ => no_path_new, Nat.zero_le _, Nat.one_pos, fun _ _ => no_path_new,
    fun _ _ _ _ => no_path_new, fun _ _ => no_path_new, fun _ _ _ _ => no_path_new⟩,
    fun _ _ _ => no_path_new, fun _ => rfl⟩

/-- Once destroyed, always destroyed. -/
theorem step_alive (c : Client) (op : Op) (halive : (c.step op).destroyed = false) :
    c.destroyed = false := by
  unfold Client.step at halive
  split at halive
  · exact halive
  · next hgo => exact Bool.not_eq_true _ ▸ hgo

theorem sound_run (cfg : ClientConfig) (ops : List Op) :
    ((Client.new cfg).run ops).destroyed = false → Sound ((Client.new cfg).run ops) :=
  Run.exec_inv Client.step (P := fun d => d.destroyed = false → Sound d)
    (fun d op hd halive => (hd (step_alive d op halive)).step op halive) ops (Client.new cfg)
    fun _ => sound_new cfg

/-- **The table of slots is right after every run**: all slots pass `path_invariant_check`, there
are not too many of them, no handle is in two of them, a lookup by the id of a live path finds
the slot that is bound to it, and adding a path never ends in the assertion. -/
theorem slots_ok_run (cfg : ClientConfig) (ops : List Op) :
    let c := (Client.new cfg).run ops
    c.destroyed = false →
      (∀ p ∈ c.paths, p.Ok) ∧ c.paths.length ≤ maxPaths ∧ (c.paths.map PathEntry.handle).Nodup ∧
        (c.paths.Pairwise fun p q => p.xquicPathLive = true → q.xquicPathLive = true →
          p.xqcPathId ≠ q.xqcPathId) ∧
        (∀ id i, findPathByXqcId c id = some i ↔
          ∃ p, c.paths[i]? = some p ∧ p.xquicPathLive = true ∧ p.xqcPathId = id) ∧
        ∀ now pathOps ctx results handle,
          (addPath now pathOps ctx results c).2 ≠ some (handle, none) := by
  intro c halive
  have h := (sound_run cfg ops halive).slots
  have hpair : ∀ {R : PathEntry → PathEntry → Prop},
      (∀ (i j : ℕ) (p q : PathEntry), i < j → c.paths[i]? = some p → c.paths[j]? = some q → R p q) →
      c.paths.Pairwise R := by
    intro R hR
    rw [List.pairwise_iff_getElem]
    intro i j hi hj hij
    exact hR i j _ _ hij (List.getElem?_eq_getElem hi) (List.getElem?_eq_getElem hj)
  refine ⟨fun p hp => ?_, h.length, ?_, ?_, fun id i => h.findPathByXqcId_iff,
    fun now pathOps ctx results handle => addPath_outcome now pathOps ctx results c handle⟩
  · obtain ⟨i, hi⟩ := List.mem_iff_getElem?.1 hp
    exact (h.inv i p hi).ok
  · rw [List.Nodup, List.pairwise_map]
    exact hpair fun i j p q hij hp hq heq => hij.ne (h.handles i j p q hp hq heq)
  · exact hpair fun i j p q hij hp hq hplive hqlive heq =>
      hij.ne (h.ids i j p q hp hq hplive hqlive heq)

/-- A connection on two paths. -/
def twoPaths : List Op :=
  [.addPath 1 (some plainOps) 1 [], .addPath 2 (some plainOps) 2 [], .connect 3 goodStart,
    .socketRecv [.handshakeFinished 4 sentRequest, .readyToCreatePath 5 [.transientFail, .ok 1]]]

theorem slots_ok_twoPaths :
    let c := (Client.new plainConfig).run twoPaths
    c.destroyed = false ∧ c.paths.map PathEntry.xqcPathId = [0, 1] ∧
      c.paths.Pairwise fun p q => p.xquicPathLive = true → q.xquicPathLive = true →
        p.xqcPathId ≠ q.xqcPathId :=
  ⟨by decide +kernel, by decide +kernel,
    (slots_ok_run plainConfig twoPaths (by decide +kernel)).2.2.2.1⟩

end Mqvpn.Cli
