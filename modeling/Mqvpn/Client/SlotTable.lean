import Mqvpn.Client.Machine
import Mqvpn.Lib.Slots

/-!
# The table of slots

The client keeps its paths in a table of slots that are reused, and finds a slot by its handle
or by the id xquic has given to the path.  Every slot passes its check, and no handle and no id
of a live path is in two slots.

What happens to a slot in use leaves its transport alone; `Reslotted` says so for all slots at
once, beside the invariant.  Many parts of the client work on nothing but slots; `Slotwise` says
that of them, and what it means for the table.

## Main definitions

* `SlotsInv` — the invariant of the table.
* `PathEntry.SameTransport`, `Reslotted` — slots after events, with the transports they had.
* `Slotwise` — only slots were worked on.

## Main results

* `SlotsInv.moved` — one slot moves, the table keeps its invariant.
* `SlotsInv.findPathByXqcId_iff` — a lookup by id finds the slot that is bound to it.
* `addPath_outcome` — the assertion of `add_path_outcome_from_state` is not reached.
-/

namespace Mqvpn.Cli

open List

open Endpoint (ClientState)

variable {c c' c₁ : Client} {i : ℕ} {p p' : PathEntry}

/-! ### The invariant -/

/-- Every slot passes its check, and neither handles nor ids of live paths repeat. -/
structure SlotsInv (c : Client) : Prop where
  inv : ∀ (i : ℕ) (p : PathEntry), c.paths[i]? = some p → p.Inv
  length : c.paths.length ≤ maxPaths
  next : 0 < c.nextPathHandle
  handle : ∀ (i : ℕ) (p : PathEntry), c.paths[i]? = some p →
    0 < p.handle ∧ p.handle < c.nextPathHandle
  handles : ∀ (i j : ℕ) (p q : PathEntry), c.paths[i]? = some p → c.paths[j]? = some q →
    p.handle = q.handle → i = j
  issued : ∀ (i : ℕ) (p : PathEntry), c.paths[i]? = some p → p.xquicPathLive = true →
    p.xqcPathId ∈ c.issued
  ids : ∀ (i j : ℕ) (p q : PathEntry), c.paths[i]? = some p → c.paths[j]? = some q →
    p.xquicPathLive = true → q.xquicPathLive = true → p.xqcPathId = q.xqcPathId → i = j

theorem SlotsInv.congr (h : SlotsInv c) (hpaths : c'.paths = c.paths)
    (hissued : c.issued ⊆ c'.issued) (hnext : c'.nextPathHandle = c.nextPathHandle) :
    SlotsInv c' := by
  refine ⟨?_, ?_, ?_, ?_, ?_, ?_, ?_⟩
  · rw [hpaths]
    exact h.inv
  · rw [hpaths]
    exact h.length
  · rw [hnext]
    exact h.next
  · rw [hpaths, hnext]
    exact h.handle
  · rw [hpaths]
    exact h.handles
  · rw [hpaths]
    exact fun i p hp hlive => hissued (h.issued i p hp hlive)
  · rw [hpaths]
    exact h.ids

/-- **One slot is written**, in place or at the end: every slot of the new table is the written
one or one of the old table. -/
theorem SlotsInv.write (h : SlotsInv c) (hlength : c'.paths.length ≤ maxPaths)
    (hcases : ∀ {j : ℕ} {q : PathEntry}, c'.paths[j]? = some q →
      j = i ∧ q = p' ∨ j ≠ i ∧ c.paths[j]? = some q)
    (hinv : p'.Inv) (hnext : c.nextPathHandle ≤ c'.nextPathHandle)
    (hhandle : 0 < p'.handle ∧ p'.handle < c'.nextPathHandle)
    (hhandles : ∀ (j : ℕ) (q : PathEntry), j ≠ i → c.paths[j]? = some q → q.handle ≠ p'.handle)
    (hissued : c.issued ⊆ c'.issued) (hid : p'.xquicPathLive = true → p'.xqcPathId ∈ c'.issued)
    (hids : p'.xquicPathLive = true → ∀ (j : ℕ) (q : PathEntry), j ≠ i → c.paths[j]? = some q →
      q.xquicPathLive = true → q.xqcPathId ≠ p'.xqcPathId) : SlotsInv c' := by
  refine ⟨?_, hlength, h.next.trans_le hnext, ?_, ?_, ?_, ?_⟩
  · intro j q hq
    obtain ⟨-, rfl⟩ | ⟨-, hq⟩ := hcases hq
    · exact hinv
    · exact h.inv j q hq
  · intro j q hq
    obtain ⟨-, rfl⟩ | ⟨-, hq⟩ := hcases hq
    · exact hhandle
    · exact ⟨(h.handle j q hq).1, (h.handle j q hq).2.trans_le hnext⟩
  · intro j₁ j₂ q₁ q₂ hq₁ hq₂ heq
    obtain ⟨rfl, rfl⟩ | ⟨hne₁, hq₁⟩ := hcases hq₁ <;> obtain ⟨rfl, rfl⟩ | ⟨hne₂, hq₂⟩ := hcases hq₂
    · rfl
    · exact absurd heq.symm (hhandles j₂ q₂ hne₂ hq₂)
    · exact absurd heq (hhandles j₁ q₁ hne₁ hq₁)
    · exact h.handles j₁ j₂ q₁ q₂ hq₁ hq₂ heq
  · intro j q hq hlive
    obtain ⟨-, rfl⟩ | ⟨-, hq⟩ := hcases hq
    · exact hid hlive
    · exact hissued (h.issued j q hq hlive)
  · intro j₁ j₂ q₁ q₂ hq₁ hq₂ hlive₁ hlive₂ heq
    obtain ⟨rfl, rfl⟩ | ⟨hne₁, hq₁⟩ := hcases hq₁ <;> obtain ⟨rfl, rfl⟩ | ⟨hne₂, hq₂⟩ := hcases hq₂
    · rfl
    · exact absurd heq.symm (hids hlive₁ j₂ q₂ hne₂ hq₂ hlive₂)
    · exact absurd heq (hids hlive₂ j₁ q₁ hne₁ hq₁ hlive₁)
    · exact h.ids j₁ j₂ q₁ q₂ hq₁ hq₂ hlive₁ hlive₂ heq

/-! ### Lookups -/

theorem findPathByHandle_some {handle : ℕ} (hfind : findPathByHandle c handle = some i) :
    ∃ p, c.paths[i]? = some p ∧ p.handle = handle := by
  unfold findPathByHandle at hfind
  rw [findIdx?_eq_some_iff_getElem] at hfind
  obtain ⟨hlt, hhandle, -⟩ := hfind
  exact ⟨_, getElem?_eq_getElem hlt, by simpa using hhandle⟩

/-- A lookup finds the only slot that has what it looks for. -/
theorem findIdx_of_unique {f : PathEntry → Bool} (hp : c.paths[i]? = some p) (hf : f p = true)
    (hunique : ∀ (j : ℕ) (q : PathEntry), c.paths[j]? = some q → f q = true → j = i) :
    c.paths.findIdx? f = some i := by
  obtain ⟨hlt, hget⟩ := List.getElem?_eq_some_iff.1 hp
  rw [findIdx?_eq_some_iff_getElem]
  refine ⟨hlt, hget ▸ hf, fun j hj htrue => ?_⟩
  exact hj.ne (hunique j _ (getElem?_eq_getElem (hj.trans hlt)) htrue)

theorem SlotsInv.findPathByHandle (h : SlotsInv c) (hp : c.paths[i]? = some p) :
    findPathByHandle c p.handle = some i := by
  refine findIdx_of_unique hp (beq_self_eq_true _) fun j q hq heq => ?_
  exact h.handles j i q p hq hp (beq_iff_eq.1 heq)

/-- A lookup by id finds the slot that is bound to it, and no other. -/
theorem SlotsInv.findPathByXqcId_iff (h : SlotsInv c) {id : ℕ} :
    findPathByXqcId c id = some i ↔
      ∃ p, c.paths[i]? = some p ∧ p.xquicPathLive = true ∧ p.xqcPathId = id := by
  constructor
  · intro hfind
    unfold findPathByXqcId at hfind
    rw [findIdx?_eq_some_iff_getElem] at hfind
    obtain ⟨hlt, hbound, -⟩ := hfind
    rw [Bool.and_eq_true, beq_iff_eq] at hbound
    exact ⟨_, getElem?_eq_getElem hlt, hbound⟩
  · rintro ⟨p, hp, hlive, rfl⟩
    refine findIdx_of_unique hp (by simp [hlive]) fun j q hq heq => ?_
    rw [Bool.and_eq_true, beq_iff_eq] at heq
    exact h.ids j i q p hq hp heq.1 hlive heq.2

/-! ### Slots in use -/

/-- The transport of a slot is the one it was, detached perhaps. -/
structure PathEntry.SameTransport (p p' : PathEntry) : Prop where
  handle : p'.handle = p.handle
  ops : p'.ops = p.ops
  released : p'.transportReleased = p.transportReleased
  attached : p'.transportAttached = true → p.transportAttached = true

theorem PathEntry.Moved.sameTransport {created : Option ℕ} (h : p.Moved created p') :
    p.SameTransport p' :=
  ⟨h.handle, h.ops, h.released, h.attached⟩

/-- The slots after events, with the transports they had. -/
structure Reslotted (c c' : Client) : Prop where
  slots : SlotsInv c'
  next : c'.nextPathHandle = c.nextPathHandle
  length : c'.paths.length = c.paths.length
  transport : ∀ (i : ℕ) (p : PathEntry), c.paths[i]? = some p →
    ∃ p', c'.paths[i]? = some p' ∧ p.SameTransport p'

theorem Reslotted.refl (h : SlotsInv c) : Reslotted c c :=
  ⟨h, rfl, rfl, fun _ p hp => ⟨p, hp, rfl, rfl, rfl, id⟩⟩

theorem Reslotted.trans {c₀ c₁ c₂ : Client} (h : Reslotted c₀ c₁) (h' : Reslotted c₁ c₂) :
    Reslotted c₀ c₂ := by
  refine ⟨h'.slots, h'.next.trans h.next, h'.length.trans h.length, fun i p hp => ?_⟩
  obtain ⟨p₁, hp₁, hsame⟩ := h.transport i p hp
  obtain ⟨p₂, hp₂, hsame'⟩ := h'.transport i p₁ hp₁
  exact ⟨p₂, hp₂, hsame'.handle.trans hsame.handle, hsame'.ops.trans hsame.ops,
    hsame'.released.trans hsame.released, fun hatt => hsame.attached (hsame'.attached hatt)⟩

/-- What only changes other fields. -/
theorem Reslotted.congr (h : Reslotted c c₁) (hpaths : c'.paths = c₁.paths)
    (hissued : c₁.issued ⊆ c'.issued) (hnext : c'.nextPathHandle = c₁.nextPathHandle) :
    Reslotted c c' := by
  refine ⟨h.slots.congr hpaths hissued hnext, hnext.trans h.next, ?_, ?_⟩
  · rw [hpaths]
    exact h.length
  · rw [hpaths]
    exact h.transport

/-- The table, apart from what only says how it is used. -/
def Client.table (c : Client) : List PathEntry × List ℕ × ℕ := (c.paths, c.issued, c.nextPathHandle)

/-- Where the table is the same, nothing happened to the slots. -/
theorem SlotsInv.still (h : SlotsInv c) (htable : c'.table = c.table) : Reslotted c c' := by
  simp only [Client.table, Prod.mk.injEq] at htable
  obtain ⟨hpaths, hissued, hnext⟩ := htable
  refine (Reslotted.refl h).congr hpaths ?_ hnext
  rw [hissued]
  exact List.Subset.refl _

/-- What is done after other fields have changed. -/
theorem SlotsInv.after {d : Client} (h : SlotsInv c) (hnext : SlotsInv d → Reslotted d c')
    (htable : d.table = c.table) : Reslotted c c' :=
  (h.still htable).trans (hnext (h.still htable).slots)

/-- **A slot in use is written**: a path that was created has a new id. -/
theorem SlotsInv.set (h : SlotsInv c) (hp : c.paths[i]? = some p) {created : Option ℕ}
    (hinv : p'.Inv) (hhandle : p'.handle = p.handle)
    (hbound : p'.xquicPathLive = true →
      p.xquicPathLive = true ∧ p'.xqcPathId = p.xqcPathId ∨ created = some p'.xqcPathId)
    (hpaths : c'.paths = c.paths.set i p') (hnext : c'.nextPathHandle = c.nextPathHandle)
    (hissued : c.issued ⊆ c'.issued)
    (hfresh : ∀ id, created = some id → id ∉ c.issued ∧ id ∈ c'.issued) : SlotsInv c' := by
  refine h.write ?_ (fun hq => Slots.of_getElem?_set (hpaths ▸ hq)) hinv hnext.ge ?_ ?_
    hissued ?_ ?_
  · rw [hpaths, length_set]
    exact h.length
  · rw [hhandle, hnext]
    exact h.handle i p hp
  · intro j q hj hq heq
    exact hj (h.handles j i q p hq hp (heq.trans hhandle))
  · intro hlive
    obtain ⟨hold, hid⟩ | hnew := hbound hlive
    · exact hissued (hid ▸ h.issued i p hp hold)
    · exact (hfresh _ hnew).2
  · intro hlive j q hj hq hqlive heq
    obtain ⟨hold, hid⟩ | hnew := hbound hlive
    · exact hj (h.ids j i q p hq hp hqlive hold (heq.trans hid))
    · exact (hfresh _ hnew).1 (heq ▸ h.issued j q hq hqlive)

/-- **A slot moves.** -/
theorem SlotsInv.moved (h : SlotsInv c) (hp : c.paths[i]? = some p) {created : Option ℕ}
    (hm : p.Moved created p') (hpaths : c'.paths = c.paths.set i p')
    (hnext : c'.nextPathHandle = c.nextPathHandle) (hissued : c.issued ⊆ c'.issued)
    (hfresh : ∀ id, created = some id → id ∉ c.issued ∧ id ∈ c'.issued) : Reslotted c c' := by
  refine ⟨h.set hp hm.inv hm.handle hm.bound hpaths hnext hissued hfresh, hnext, ?_,
    fun j q hq => ?_⟩
  · rw [hpaths, length_set]
  rw [hpaths, getElem?_set]
  split
  · next hj =>
    subst hj
    obtain rfl := Option.some.inj (hp.symm.trans hq)
    rw [if_pos (List.getElem?_eq_some_iff.1 hp).1]
    exact ⟨p', rfl, hm.sameTransport⟩
  · exact ⟨q, hq, rfl, rfl, rfl, id⟩

/-! ### What only works on slots -/

/-- The client without its slots. -/
def Client.core (c : Client) : Client :=
  { c with
    paths := []
    issued := []
    multipathReady := false
    holdExtraPaths := false
    primaryPathIdx := 0 }

/-- What is read off a part of a state is the same where that part is. -/
theorem eq_of_view {σ α : Type} {s s' : σ} {view : σ → σ} (f : σ → α) (h : view s' = view s)
    (hf : ∀ s, f (view s) = f s := by exact fun _ => rfl) : f s' = f s := by
  rw [← hf s', h, hf s]

/-- Only slots were worked on: all else is as it was, and the transports stay where they are. -/
structure Slotwise (c c' : Client) : Prop where
  core : c'.core = c.core
  primary : c'.primaryPathIdx = c.primaryPathIdx
  reslotted : SlotsInv c → Reslotted c c'

theorem Slotwise.refl (c : Client) : Slotwise c c := ⟨rfl, rfl, .refl⟩

theorem Slotwise.trans {c₀ c₁ c₂ : Client} (h : Slotwise c₀ c₁) (h' : Slotwise c₁ c₂) :
    Slotwise c₀ c₂ := by
  refine ⟨h'.core.trans h.core, h'.primary.trans h.primary, fun hslots => ?_⟩
  have hnext := h.reslotted hslots
  exact hnext.trans (h'.reslotted hnext.slots)

/-- A loop whose body only works on slots only works on slots. -/
theorem slotwise_exec {ι : Type} {step : Client → ι → Client}
    (hstep : ∀ c i, Slotwise c (step c i)) (c : Client) (l : List ι) :
    Slotwise c (Run.exec step c l) :=
  Run.exec_inv step (fun d i hd => hd.trans (hstep d i)) l c (.refl c)

theorem slotwise_onPathEvent {ev : PathEvent} (hev : ev.InUse) (hnone : ev.created = none)
    (c : Client) (now i : ℕ) : Slotwise c (c.onPathEvent now ev i) := by
  unfold Client.onPathEvent
  split
  · exact .refl c
  · next p hp =>
    refine ⟨rfl, rfl, fun h => ?_⟩
    refine h.moved hp ((h.inv i p hp).onEvent hev) rfl rfl (List.Subset.refl _) fun id hid => ?_
    rw [hnone] at hid
    cases hid

theorem slotwise_detached {ev : PathEvent} (hev : ev = .platformDrop ∨ ev = .removeApi) (c : Client)
    (now i : ℕ) : Slotwise c (c.onPathEvent now ev i) := by
  obtain rfl | rfl := hev
  · exact slotwise_onPathEvent (show PathEvent.InUse .platformDrop from trivial) rfl c now i
  · exact slotwise_onPathEvent (show PathEvent.InUse .removeApi from trivial) rfl c now i

/-- What xquic answers: no path, or one with a new id. -/
theorem activateViaXquicClassify_cases (result : ActivateResult) (c : Client) :
    ((activateViaXquicClassify result c).1.created = none ∧
        (activateViaXquicClassify result c).2 = c) ∨
      ∃ id, id ∉ c.issued ∧ (activateViaXquicClassify result c).1.created = some id ∧
        (activateViaXquicClassify result c).2 = { c with issued := id :: c.issued } := by
  unfold activateViaXquicClassify
  split
  · next id =>
    split
    · exact .inl ⟨rfl, rfl⟩
    · next hnew => exact .inr ⟨id, fun hold => hnew (.inr (.inl hold)), rfl, rfl⟩
  · next hfail =>
    refine .inl ⟨?_, rfl⟩
    cases result with
    | ok id => exact absurd rfl (hfail id)
    | transientFail => rfl
    | permanentFail => rfl

/-- An attempt to create a path, under any of the events that report one. -/
theorem slotwise_attempt {ev : ActivateResult → PathEvent}
    (hev : ∀ r, (ev r).InUse ∧ (ev r).created = r.created) (c : Client) (now : ℕ)
    (result : ActivateResult) (i : ℕ) : Slotwise c (c.attempt now ev result i) := by
  unfold Client.attempt
  dsimp only
  obtain ⟨hnone, heq⟩ | ⟨id, hnew, hid, heq⟩ := activateViaXquicClassify_cases result c
  · rw [heq]
    exact slotwise_onPathEvent (hev _).1 ((hev _).2.trans hnone) c now i
  rw [heq]
  unfold Client.onPathEvent
  split
  · exact ⟨rfl, rfl, fun h => (Reslotted.refl h).congr rfl (subset_cons_self _ _) rfl⟩
  · next p hp =>
    refine ⟨rfl, rfl, fun h => ?_⟩
    refine h.moved hp ((h.inv i p hp).onEvent (hev _).1) rfl rfl (subset_cons_self _ _) ?_
    intro id' hid'
    rw [(hev _).2, hid] at hid'
    obtain rfl := Option.some.inj hid'
    exact ⟨hnew, mem_cons_self⟩

theorem slotwise_activatePath (now : ℕ) (result : ActivateResult) (i : ℕ) (c : Client) :
    Slotwise c (activatePath now result i c) := by
  unfold activatePath
  split
  · exact .refl c
  split
  · exact .refl c
  · refine slotwise_attempt (fun r => ?_) c now result i
    exact ⟨trivial, rfl⟩

theorem slotwise_activatePendingPaths (now : ℕ) (results : List ActivateResult) (c : Client) :
    Slotwise c (activatePendingPaths now results c) := by
  refine slotwise_exec (fun d i => ?_) c _
  split
  · exact .refl d
  split
  · exact .refl d
  · exact slotwise_activatePath ..

theorem slotwise_releasePathHold (now : ℕ) (results : List ActivateResult) (c : Client) :
    Slotwise c (releasePathHold now results c) := by
  have hfree : Slotwise c { c with holdExtraPaths := false } := ⟨rfl, rfl, fun h => h.still rfl⟩
  unfold releasePathHold
  split
  · exact .refl c
  dsimp only
  split
  · exact hfree.trans (slotwise_activatePendingPaths ..)
  · exact hfree

theorem slotwise_confirmPrimary (c : Client) (now : ℕ) : Slotwise c (c.confirmPrimary now) := by
  unfold Client.confirmPrimary
  split
  · exact .refl c
  split
  · refine slotwise_onPathEvent ?_ rfl c now _
    exact .inl rfl
  · exact .refl c

theorem slotwise_tickCheckAllValidations (now : ℕ) (validated : List ℕ) (c : Client) :
    Slotwise c (tickCheckAllValidations now validated c) := by
  unfold tickCheckAllValidations
  split
  · exact .refl c
  refine slotwise_exec (fun d i => ?_) c _
  split
  · exact .refl d
  split
  · refine slotwise_onPathEvent ?_ rfl d now i
    show (if c.cfg.backupFec then Lifecycle.standby else .active) = .active ∨ _
    split
    · exact .inr rfl
    · exact .inl rfl
  · exact .refl d

theorem slotwise_tickDriveRetryTimer (now : ℕ) (result : ActivateResult) (i : ℕ) (c : Client) :
    Slotwise c (tickDriveRetryTimer now result i c) := by
  unfold tickDriveRetryTimer
  split
  · exact .refl c
  split
  · exact .refl c
  split
  · exact .refl c
  · refine slotwise_attempt (fun r => ?_) c now result i
    exact ⟨trivial, rfl⟩

theorem slotwise_tickConfirmStable (now i : ℕ) (c : Client) :
    Slotwise c (tickConfirmStable now i c) := by
  unfold tickConfirmStable
  split
  · exact .refl c
  · next p hp =>
    refine ⟨rfl, rfl, fun h => ?_⟩
    exact h.moved hp ((h.inv i p hp).confirmStable none) rfl rfl (List.Subset.refl _) nofun

theorem slotwise_tickPathRecovery (now : ℕ) (validated : List ℕ) (results : List ActivateResult)
    (c : Client) : Slotwise c (tickPathRecovery now validated results c) := by
  unfold tickPathRecovery
  split
  · exact .refl c
  refine (slotwise_tickCheckAllValidations now validated c).trans
    (slotwise_exec (fun d i => ?_) _ _)
  exact (slotwise_tickDriveRetryTimer now _ i d).trans (slotwise_tickConfirmStable now i _)

theorem slotwise_reactivatePath (now handle : ℕ) (result : ActivateResult) (c : Client) :
    Slotwise c (reactivatePath now handle result c).1 := by
  unfold reactivatePath
  split
  · exact .refl c
  split
  · exact .refl c
  split
  · refine slotwise_attempt (fun r => ?_) c now result _
    exact ⟨trivial, rfl⟩
  · exact .refl c

/-! ### Slots at rest -/

/-- No slot holds a path or awaits one. -/
def Rested (c : Client) : Prop := ∀ (i : ℕ) (p : PathEntry), c.paths[i]? = some p → p.Rested

theorem SlotsInv.reset (h : SlotsInv c) (now : ℕ) :
    Reslotted c (resetPathsForReconnect now c) ∧ Rested (resetPathsForReconnect now c) := by
  have hpaths : ∀ i : ℕ, (resetPathsForReconnect now c).paths[i]? =
      (c.paths[i]?).map (pathOnEvent now .connReset) := fun i => getElem?_map
  have hlength : (resetPathsForReconnect now c).paths.length = c.paths.length := length_map _
  have hslot : ∀ {i : ℕ} {p' : PathEntry}, (resetPathsForReconnect now c).paths[i]? = some p' →
      ∃ p, c.paths[i]? = some p ∧ p.Moved none p' ∧ p'.Rested := by
    intro i p' hp'
    rw [hpaths] at hp'
    obtain ⟨p, hp, rfl⟩ := Option.map_eq_some_iff.1 hp'
    exact ⟨p, hp, (h.inv i p hp).connReset none⟩
  have hrested : Rested (resetPathsForReconnect now c) := fun i p' hp' =>
    (hslot hp').choose_spec.2.2
  refine ⟨⟨⟨?_, hlength ▸ h.length, h.next, ?_, ?_, ?_, ?_⟩, rfl, hlength, ?_⟩, hrested⟩
  · intro i p' hp'
    obtain ⟨p, -, hmoved, -⟩ := hslot hp'
    exact hmoved.inv
  · intro i p' hp'
    obtain ⟨p, hp, hmoved, -⟩ := hslot hp'
    rw [hmoved.handle]
    exact h.handle i p hp
  · intro i j p' q' hp' hq' heq
    obtain ⟨p, hp, hpm, -⟩ := hslot hp'
    obtain ⟨q, hq, hqm, -⟩ := hslot hq'
    rw [hpm.handle, hqm.handle] at heq
    exact h.handles i j p q hp hq heq
  · intro i p' hp' hlive
    rw [(hrested i p' hp').1] at hlive
    cases hlive
  · intro i j p' q' hp' hq' hlive
    rw [(hrested i p' hp').1] at hlive
    cases hlive
  · intro i p hp
    have hp' : (resetPathsForReconnect now c).paths[i]? = some (pathOnEvent now .connReset p) := by
      rw [hpaths, hp]
      rfl
    exact ⟨_, hp', ((h.inv i p hp).connReset none).1.sameTransport⟩

/-- At rest no id is in use. -/
theorem SlotsInv.unissued (h : SlotsInv c) (hrest : Rested c) (issued : List ℕ) :
    Reslotted c { c with issued := issued } := by
  refine ⟨⟨h.inv, h.length, h.next, h.handle, h.handles, ?_, h.ids⟩, rfl, rfl,
    fun _ p hp => ⟨p, hp, rfl, rfl, rfl, id⟩⟩
  intro i p hp hlive
  rw [(hrest i p hp).1] at hlive
  cases hlive

/-! ### Adding and releasing -/

section
variable (hfree : freeIdx c = some i)
include hfree

/-- The slot a path is put in: free, or a new one while there is room. -/
theorem freeIdx_spec :
    (∃ p, c.paths[i]? = some p ∧ p.state = .closedFree) ∨
      (i = c.paths.length ∧ c.paths.length < maxPaths) := by
  unfold freeIdx at hfree
  split at hfree
  · next j hj =>
    obtain rfl := Option.some.inj hfree
    rw [findIdx?_eq_some_iff_getElem] at hj
    obtain ⟨hlt, hstate, -⟩ := hj
    exact .inl ⟨_, getElem?_eq_getElem hlt, by simpa using hstate⟩
  · split at hfree
    · cases hfree
    · next hroom => exact .inr ⟨(Option.some.inj hfree).symm, not_le.1 hroom⟩

theorem putPath_self (p : PathEntry) : (c.putPath i p).paths[i]? = some p := by
  unfold Client.putPath
  obtain ⟨q, hq, -⟩ | ⟨rfl, -⟩ := freeIdx_spec hfree
  · have hlt := (List.getElem?_eq_some_iff.1 hq).1
    rw [if_pos hlt, getElem?_set_self hlt]
  · rw [if_neg (lt_irrefl _), getElem?_concat_length]

/-- Every slot is the one that was put there or an old one. -/
theorem of_putPath {j : ℕ} {q : PathEntry} (hq : (c.putPath i p).paths[j]? = some q) :
    j = i ∧ q = p ∨ j ≠ i ∧ c.paths[j]? = some q := by
  unfold Client.putPath at hq
  obtain ⟨r, hr, -⟩ | ⟨rfl, -⟩ := freeIdx_spec hfree
  · rw [if_pos (List.getElem?_eq_some_iff.1 hr).1] at hq
    exact Slots.of_getElem?_set hq
  · rw [if_neg (lt_irrefl _)] at hq
    obtain hlt | hge := lt_or_ge j c.paths.length
    · rw [getElem?_append_left hlt] at hq
      exact .inr ⟨hlt.ne, hq⟩
    · rw [getElem?_append_right hge, getElem?_singleton] at hq
      split at hq
      · exact .inl ⟨by omega, (Option.some.inj hq).symm⟩
      · cases hq

theorem length_putPath (p : PathEntry) (h : c.paths.length ≤ maxPaths) :
    (c.putPath i p).paths.length ≤ maxPaths := by
  unfold Client.putPath
  obtain ⟨q, hq, -⟩ | ⟨rfl, hroom⟩ := freeIdx_spec hfree
  · have hlt := (List.getElem?_eq_some_iff.1 hq).1
    rw [if_pos hlt, length_set]
    exact h
  · rw [if_neg (lt_irrefl _), length_append, length_singleton]
    omega

end

/-- The client with a new path in slot `i`. -/
def Client.added (c : Client) (i now : ℕ) (ops : PathOps) (ctx : ℕ) : Client :=
  { c with
    nextPathHandle := c.nextPathHandle + 1
    handed := c.handed ++ [(c.nextPathHandle, ops)] }.putPath i
      (PathEntry.added now c.nextPathHandle ops ctx)

/-- What `mqvpn_client_add_path` comes to: nothing, or a new path, perhaps activated. -/
theorem addPath_cases (now : ℕ) (ops : Option PathOps) (ctx : ℕ) (results : List ActivateResult)
    (c : Client) :
    addPath now ops ctx results c = (c, none) ∨
      ∃ o i, ops = some o ∧ freeIdx c = some i ∧
        (addPath now ops ctx results c =
            (c.added i now o ctx, some (c.nextPathHandle, some .ok)) ∨
          c.conn ≠ none ∧ addPath now ops ctx results c =
            (activatePendingPaths now results (c.added i now o ctx),
              some (c.nextPathHandle,
                ((activatePendingPaths now results (c.added i now o ctx)).paths[i]?).bind
                  fun p => addPathOutcomeFromState p.state))) := by
  unfold addPath
  split
  · next o i hfree =>
    refine .inr ⟨o, i, rfl, hfree, ?_⟩
    dsimp only
    split
    · next hgo =>
      simp only [Bool.and_eq_true] at hgo
      have hconn : c.conn ≠ none := Option.isSome_iff_ne_none.1 hgo.1.2
      exact .inr ⟨hconn, rfl⟩
    · exact .inl rfl
  · exact .inl rfl

/-- A new path has a handle that was never used. -/
theorem SlotsInv.added (h : SlotsInv c) (hfree : freeIdx c = some i) (now : ℕ) (ops : PathOps)
    (ctx : ℕ) : SlotsInv (c.added i now ops ctx) := by
  obtain ⟨hinv, hrest, -, hhandle, -, -⟩ := PathEntry.added_spec now c.nextPathHandle ops ctx
  have hlive : (PathEntry.added now c.nextPathHandle ops ctx).xquicPathLive ≠ true := by
    rw [hrest.1]
    decide
  refine h.write (length_putPath hfree _ h.length) (of_putPath hfree) hinv (Nat.le_succ _) ?_ ?_
    (List.Subset.refl _) (fun htrue => absurd htrue hlive) (fun htrue => absurd htrue hlive)
  · rw [hhandle]
    exact ⟨h.next, Nat.lt_succ_self _⟩
  · intro j q _ hq
    rw [hhandle]
    exact (h.handle j q hq).2.ne

/-- What is written down of a transport that ends. -/
def Client.finalization (c : Client) (p : PathEntry) (stats : Option (ℕ × ℕ)) : Finalized where
  handle := p.handle
  txSends := (reading p.ops stats).1
  txDatagrams := (reading p.ops stats).2
  releaseCalled := p.ops.any PathOps.release
  attached := p.transportAttached
  atDestroy := c.destroyed

/-- A transport ends and its slot becomes `p'`. -/
def Client.finalize (c : Client) (i : ℕ) (p p' : PathEntry) (stats : Option (ℕ × ℕ)) : Client :=
  { c with
    paths := c.paths.set i p'
    retiredTxSends := c.retiredTxSends + (reading p.ops stats).1
    retiredTxDatagrams := c.retiredTxDatagrams + (reading p.ops stats).2
    finalized := c.finalized ++ [c.finalization p stats] }

/-- The loop at the end of `mqvpn_client_destroy`. -/
def Client.finalizeAll (stats : List (Option (ℕ × ℕ))) (c : Client) : Client :=
  Run.exec
    (fun c i =>
      match c.paths[i]? with
      | none => c
      | some p =>
          if p.transportReleased then c else finalizeTransport (stats.getD i none) i c)
    c (List.range c.paths.length)

theorem onPlatformPathReleased_cases (now handle : ℕ) (stats : Option (ℕ × ℕ)) (c : Client) :
    (onPlatformPathReleased now handle stats c).1 = c ∨
      ∃ i p, c.paths[i]? = some p ∧ p.handle = handle ∧ p.state = .closedDropped ∧
        p.transportReleased = false ∧ p.ops ≠ none ∧
        (onPlatformPathReleased now handle stats c).1 = c.finalize i p (p.givenBack now) stats := by
  unfold onPlatformPathReleased
  split
  · exact .inl rfl
  next i hfind =>
  split
  · exact .inl rfl
  next p hp =>
  split
  · exact .inl rfl
  split
  · exact .inl rfl
  next hdropped =>
  split
  · exact .inl rfl
  next hpending =>
  simp only [Bool.or_eq_true, not_or, Bool.not_eq_true, Option.isNone_iff_eq_none] at hpending
  obtain ⟨q, hq, hhandle⟩ := findPathByHandle_some hfind
  obtain rfl := Option.some.inj (hp.symm.trans hq)
  refine .inr ⟨i, p, hp, hhandle, not_not.1 hdropped, hpending.1, hpending.2, ?_⟩
  have hlt := (List.getElem?_eq_some_iff.1 hp).1
  unfold finalizeTransport Client.onPathEvent
  rw [hp]
  dsimp only [Client.setPath]
  rw [getElem?_set_self hlt]
  dsimp only
  rw [set_set]
  rfl

theorem SlotsInv.finalize (h : SlotsInv c) (hp : c.paths[i]? = some p)
    (hdropped : p.state = .closedDropped) (now : ℕ) (stats : Option (ℕ × ℕ)) :
    SlotsInv (c.finalize i p (p.givenBack now) stats) := by
  obtain ⟨hinv, hhandle, -, -, hlive⟩ := (h.inv i p hp).givenBack hdropped now
  have hfresh : ∀ id, (none : Option ℕ) = some id → id ∉ c.issued ∧ id ∈ c.issued := nofun
  exact h.set hp hinv hhandle (fun htrue => .inl (hlive htrue)) rfl rfl (List.Subset.refl _) hfresh

/-! ### The outcome of adding a path -/

/-- The states that `add_path_outcome_from_state` knows. -/
def Tried (i : ℕ) (c : Client) : Prop :=
  ∃ p, c.paths[i]? = some p ∧ p.state ∈ [Lifecycle.validating, .createWait, .closedRecoverable]

theorem classify_paths (result : ActivateResult) (c : Client) :
    (activateViaXquicClassify result c).2.paths = c.paths := by
  obtain ⟨-, heq⟩ | ⟨id, -, -, heq⟩ := activateViaXquicClassify_cases result c <;> rw [heq]

theorem attempt_self (hp : c.paths[i]? = some p) (now : ℕ) (ev : ActivateResult → PathEvent)
    (result : ActivateResult) : (c.attempt now ev result i).paths[i]? =
      some (pathOnEvent now (ev (activateViaXquicClassify result c).1) p) := by
  unfold Client.attempt Client.onPathEvent
  dsimp only
  rw [classify_paths, hp]
  show ((activateViaXquicClassify result c).2.paths.set i _)[i]? = _
  rw [classify_paths, List.getElem?_set_self (List.getElem?_eq_some_iff.1 hp).1]

theorem attempt_other {j : ℕ} (hj : j ≠ i) (c : Client) (now : ℕ) (ev : ActivateResult → PathEvent)
    (result : ActivateResult) : (c.attempt now ev result j).paths[i]? = c.paths[i]? := by
  unfold Client.attempt Client.onPathEvent
  dsimp only
  rw [classify_paths]
  split
  · rw [classify_paths]
  · show ((activateViaXquicClassify result c).2.paths.set j _)[i]? = _
    rw [classify_paths, getElem?_set_ne hj]

/-- The body of `activate_pending_paths`. -/
def pendingStep (now : ℕ) (results : List ActivateResult) (c : Client) (i : ℕ) : Client :=
  match c.paths[i]? with
  | none => c
  | some p =>
      if p.state ≠ .pending then c else activatePath now (results.getD i .transientFail) i c

theorem pendingStep_other {j : ℕ} (hj : j ≠ i) (now : ℕ) (results : List ActivateResult)
    (c : Client) : (pendingStep now results c j).paths[i]? = c.paths[i]? := by
  unfold pendingStep
  split
  · rfl
  next p hp =>
  split
  · rfl
  unfold activatePath
  rw [hp]
  dsimp only
  split
  · rfl
  · exact attempt_other hj ..

theorem pendingStep_self (hp : c.paths[i]? = some p) (hstate : p.state = .pending)
    (hlive : p.xquicPathLive = false) (now : ℕ) (results : List ActivateResult) :
    Tried i (pendingStep now results c i) := by
  unfold pendingStep activatePath
  rw [hp]
  dsimp only
  rw [if_neg (not_not.2 hstate), hlive, if_neg (by decide)]
  exact ⟨_, attempt_self hp .., activateRequested_state hstate _⟩

theorem activatePendingPaths_tried (hp : c.paths[i]? = some p) (hstate : p.state = .pending)
    (hlive : p.xquicPathLive = false) (now : ℕ) (results : List ActivateResult) :
    Tried i (activatePendingPaths now results c) := by
  have hlt := (List.getElem?_eq_some_iff.1 hp).1
  refine Run.exec_reaches (pendingStep now results) (a := i)
    (P := fun d => ∃ q, d.paths[i]? = some q ∧ q.state = .pending ∧ q.xquicPathLive = false)
    ?_ ?_ ?_ (range c.paths.length) c (mem_range.2 hlt) ⟨p, hp, hstate, hlive⟩
  · intro d j hj hd
    rw [pendingStep_other hj]
    exact hd
  · rintro d ⟨q, hq, hqstate, hqlive⟩
    exact pendingStep_self hq hqstate hqlive now results
  · rintro d j ⟨q, hq, hqstate⟩
    by_cases hj : j = i
    · subst hj
      have hnot : q.state ≠ .pending := by
        intro hpending
        rw [hpending] at hqstate
        exact absurd hqstate (by decide)
      unfold pendingStep
      rw [hq]
      dsimp only
      rw [if_pos hnot]
      exact ⟨q, hq, hqstate⟩
    · exact ⟨q, (pendingStep_other hj now results d).trans hq, hqstate⟩

/-- The assertion of `add_path_outcome_from_state` is not reached. -/
theorem addPath_outcome (now : ℕ) (ops : Option PathOps) (ctx : ℕ) (results : List ActivateResult)
    (c : Client) (handle : ℕ) : (addPath now ops ctx results c).2 ≠ some (handle, none) := by
  obtain heq | ⟨o, i, -, hfree, heq | ⟨-, heq⟩⟩ := addPath_cases now ops ctx results c
  · rw [heq]
    exact nofun
  · rw [heq]
    simp
  · obtain ⟨-, hrest, hstate, -⟩ := PathEntry.added_spec now c.nextPathHandle o ctx
    obtain ⟨q, hq, htried⟩ := activatePendingPaths_tried
      (show (c.added i now o ctx).paths[i]? = _ from putPath_self hfree _)
      hstate hrest.1 now results
    rw [heq, hq, Option.bind_some]
    simp only [mem_cons, not_mem_nil, or_false] at htried
    obtain hs | hs | hs := htried <;> rw [hs] <;> simp [addPathOutcomeFromState]

end Mqvpn.Cli
