import Mqvpn.Server.SessionInv

/-!
# Whose close ends a session

The close of a stream with the CONNECT-IP role releases the session of its connection.  The
role is set before the request is checked, so a request that was refused leaves a stream
with that role behind; once another stream has established the session, the close of the
refused one ends it.

`cbRequestClose` would have to compare the stream with `masqueStreamId`: by the invariant
that is the stream which established the session.

## Main definitions

* `Server.sessionOf`, `Server.ownerOf` — the session of a connection, and its stream.
* `OwnClose` — a close ends no session but that of its own stream.
* `MatchingClose` — what the state before the close has to meet.
* `LoneGrant` — what the request that establishes a session has to meet.

## Main results

* `ownClose_iff` — the two agree at every close.
* `own_closes_iff` — **closes end their own sessions in exactly the runs whose closes match**, and
  in those whose sessions are established with no refused stream open.
-/

namespace Mqvpn.Svr

open Reorder Endpoint

def Server.sessionOf (s : Server) (id : ConnId) : Option UInt32 :=
  (s.conns id).bind fun c => if c.assignedIp = 0 then none else some c.assignedIp

/-- The stream that established it. -/
def Server.ownerOf (s : Server) (id : ConnId) : Option StreamId :=
  (s.conns id).bind SvrConn.owner

/-- The close of a stream ends the session of its connection only if the stream established
it. -/
def OwnClose (s : Server) : SvrOp → Prop
  | .requestClose id sid =>
      s.sessionOf id ≠ none → (cbRequestClose s id sid).sessionOf id = none →
        s.ownerOf id = some sid
  | _ => True

/-- A stream with the CONNECT-IP role closes beside a session only as the stream the context
names. -/
def MatchingClose (s : Server) : SvrOp → Prop
  | .requestClose id sid =>
      ∀ c, s.conns id = some c → c.assignedIp ≠ 0 → c.streams sid = some .connectIp →
        sid = c.masqueStreamId
  | _ => True

/-- Beside a session, its stream is the only one of the connection with the CONNECT-IP role. -/
def Alone (s : Server) (id : ConnId) : Prop :=
  ∀ c, s.conns id = some c → c.assignedIp ≠ 0 → ∀ sid, c.streams sid = some .connectIp →
    sid = c.masqueStreamId

/-- A request that establishes a session finds no refused stream open. -/
def LoneGrant (s : Server) : SvrOp → Prop
  | .requestRead id sid hdrs env =>
      s.sessionOf id = none → Alone (cbRequestRead s id sid hdrs env).server id
  | _ => True

instance (s : Server) : DecidablePred (OwnClose s)
  | .requestClose id sid =>
      inferInstanceAs (Decidable (s.sessionOf id ≠ none →
        (cbRequestClose s id sid).sessionOf id = none → s.ownerOf id = some sid))
  | .accept _ => isTrue trivial
  | .refuse _ => isTrue trivial
  | .h3ConnCreate _ _ => isTrue trivial
  | .h3ConnClose _ => isTrue trivial
  | .requestCreate _ _ _ => isTrue trivial
  | .requestRead _ _ _ _ => isTrue trivial
  | .addUser _ _ => isTrue trivial
  | .removeUser _ => isTrue trivial

variable {s : Server} {id : ConnId} {c : SvrConn} {sid : StreamId}

theorem sessionOf_eq (hc : s.conns id = some c) :
    s.sessionOf id = if c.assignedIp = 0 then none else some c.assignedIp := by
  unfold Server.sessionOf
  rw [hc]
  rfl

theorem sessionOf_ne_none (hc : s.conns id = some c) :
    s.sessionOf id ≠ none ↔ c.assignedIp ≠ 0 := by
  rw [sessionOf_eq hc]
  split
  · next hip => exact ⟨fun h => absurd rfl h, fun h => absurd hip h⟩
  · next hip => exact iff_of_true (Option.some_ne_none _) hip

/-- The close of a stream ends the session exactly if it has the role. -/
theorem requestClose_ends (hc : s.conns id = some c) (hip : c.assignedIp ≠ 0) :
    (cbRequestClose s id sid).sessionOf id = none ↔ c.streams sid = some .connectIp := by
  cases hrole : c.streams sid with
  | none =>
    have heq : cbRequestClose s id sid = s := by
      unfold cbRequestClose
      rw [hc]
      simp only
      rw [hrole]
    rw [heq]
    exact iff_of_false ((sessionOf_ne_none hc).mpr hip) (Option.some_ne_none _).symm
  | some role =>
    rw [cbRequestClose_eq hc hrole]
    by_cases hcip : role = .connectIp
    · rw [if_pos hcip, sessionOf_eq (setConn_conns_self ..)]
      exact iff_of_true (if_pos c.withoutSession_assignedIp) (congrArg some hcip)
    · rw [if_neg hcip, sessionOf_eq (setConn_conns_self ..)]
      refine iff_of_false ?_ fun heq => hcip (Option.some.inj heq)
      exact fun hnone => Option.some_ne_none _ ((if_neg hip).symm.trans hnone)

/-- **A close ends its own session exactly if it matches.** -/
theorem ownClose_iff (h : SvrInv s) (op : SvrOp) : OwnClose s op ↔ MatchingClose s op := by
  cases op with
  | requestClose id sid =>
    cases hc : s.conns id with
    | none =>
      have hnone : s.sessionOf id = none := by
        unfold Server.sessionOf
        rw [hc]
        rfl
      refine iff_of_true (fun hsome => absurd hnone hsome) fun c hc' => ?_
      rw [hc] at hc'
      cases hc'
    | some c =>
      have howner : c.assignedIp ≠ 0 → s.ownerOf id = some c.masqueStreamId := by
        intro hip
        unfold Server.ownerOf
        rw [hc]
        exact (h.conn id c hc).owner hip
      constructor
      · intro hown c' hc' hip hrole
        obtain rfl := Option.some.inj (hc.symm.trans hc')
        have hsid := hown ((sessionOf_ne_none hc).mpr hip) ((requestClose_ends hc hip).mpr hrole)
        exact (Option.some.inj ((howner hip).symm.trans hsid)).symm
      · intro hmatch hsome hends
        have hip := (sessionOf_ne_none hc).mp hsome
        rw [howner hip, hmatch c hc hip ((requestClose_ends hc hip).mp hends)]
  | _ => exact Iff.rfl

/-! ### Lone grants -/

theorem alone_setStream (halone : ∀ id, Alone s id) (hc : s.conns id = some c)
    {role : Option Role} {opened : List StreamId} (hrole : role ≠ some .connectIp) (id' : ConnId) :
    Alone (s.setConn id { c.setStream sid role with opened := opened }) id' := by
  intro c' hc'
  obtain ⟨-, rfl⟩ | ⟨-, hc'⟩ := setConn_conns_cases hc'
  · intro hip sid' hsid'
    have hupdate : Function.update c.streams sid role sid' = some .connectIp := hsid'
    by_cases heq : sid' = sid
    · rw [heq, Function.update_self] at hupdate
      exact absurd hupdate hrole
    · rw [Function.update_of_ne heq] at hupdate
      exact halone id c hc hip sid' hupdate
  · exact halone id' c' hc'

/-- **One call more**: only a request that establishes a session needs the condition. -/
theorem alone_step (h : SvrInv s) (halone : ∀ id, Alone s id) (op : SvrOp)
    (hlone : LoneGrant s op) :
    ∀ id, Alone (s.step op) id := by
  have hchange := step_change s op
  -- a context without a session, and all others
  have hnone : ∀ {s₁ : Server} {id₀ c₀}, (∀ id, id ≠ id₀ → s₁.conns id = s.conns id) →
      c₀.assignedIp = 0 → ∀ id, Alone (s₁.setConn id₀ c₀) id := by
    intro s₁ id₀ c₀ hothers hzero id c' hc'
    obtain ⟨-, rfl⟩ | ⟨hid, hc'⟩ := setConn_conns_cases hc'
    · exact fun hip => absurd hzero hip
    · exact halone id c' (hothers id hid ▸ hc')
  generalize heq : s.step op = s' at hchange ⊢
  intro id'
  cases hchange with
  | kept => exact halone id'
  | accepted allocOk => exact hnone (fun _ _ => rfl) rfl id'
  | refused id => exact fun c' hc' => halone id' c' (svrConnFree_conns hc').2
  | created id env c hc hh3 =>
    obtain ⟨tx, rx, heq⟩ := svrConnReorderEnginesInit_session s.reorder env { c with h3 := true }
    rw [heq]
    refine hnone (fun _ _ => rfl) ?_ id'
    exact ((h.conn id c hc).early hh3).1
  | closed id =>
    intro c' hc'
    obtain ⟨hid, hc'⟩ := svrConnFree_conns hc'
    exact halone id' c' (((confined_release s id).others id' hid).symm.trans hc')
  | opened id sid allocOk c hc =>
    exact alone_setStream halone hc (by simp) id'
  | read id sid hdrs env r hread =>
    by_cases hid : id' = id
    · subst hid
      cases hread with
      | kept hserver => exact hserver ▸ halone id'
      | routed c role hc hopen hserver hsent hegress hrole =>
        rw [hserver]
        exact alone_setStream halone hc (fun h => hrole (Option.some.inj h)) id'
      | asked c hc hopen hip hdown hr =>
        rw [← heq]
        refine hlone ?_
        rw [sessionOf_eq hc]
        refine if_pos (not_not.1 fun hne => ?_)
        exact absurd (hdown.symm.trans ((h.conn id' c hc).tunnel.2 hne)) Bool.false_ne_true
    · exact fun c' hc' => halone id' c' ((hread.confined.others id' hid).symm.trans hc')
  | ended id sid c hc =>
    refine hnone (confined_release s id).others ?_ id'
    exact c.withoutSession_assignedIp
  | left id sid c hc => exact alone_setStream halone hc (by simp) id'
  | added | removed => exact halone id'

/-- **Closes end their own sessions in exactly the runs whose closes match.**  They do so if every
session is established with no refused stream open on its connection. -/
theorem own_closes_iff {cfg : ServerConfig} {s : Server} (hnew : Server.new cfg = some s)
    (ops : List SvrOp) :
    (Run.Along Server.step OwnClose s ops ↔ Run.Along Server.step MatchingClose s ops) ∧
      (Run.Along Server.step LoneGrant s ops → Run.Along Server.step OwnClose s ops) := by
  have hinv := SvrInv.new hnew
  refine ⟨Run.along_congr_inv Server.step (fun _ op hs => hs.step op)
    (fun _ op hs => ownClose_iff hs op) ops s hinv, ?_⟩
  refine Run.along_mono_inv Server.step (P := fun s => SvrInv s ∧ ∀ id, Alone s id)
    (fun s op hs hlone => ⟨hs.1.step op, alone_step hs.1 hs.2 op hlone⟩) (fun s op hs _ => ?_)
    ops s ⟨hinv, ?_⟩
  · refine (ownClose_iff hs.1 op).2 ?_
    cases op with
    | requestClose id sid => exact fun c hc hip hrole => hs.2 id c hc hip sid hrole
    | _ => trivial
  · obtain ⟨pool, -, rfl⟩ := Option.map_eq_some_iff.mp hnew
    exact fun _ _ => nofun

theorem own_closes_handover : ∃ s, Server.new smallServer = some s ∧
    Run.Along Server.step MatchingClose s handover :=
  ⟨_, rfl, (@own_closes_iff smallServer _ rfl handover).1.mp (by decide +kernel)⟩

/-- A request without the `capsule-protocol` header is refused, a second one on another
stream establishes the session. -/
def retried : List SvrOp :=
  [.accept true, .h3ConnCreate 1 allSent.engines, .requestCreate 1 0 true,
    .requestRead 1 0 { goodRequest with hasCapsuleProto := false } allSent,
    .requestCreate 1 4 true, .requestRead 1 4 goodRequest allSent]

/-- The close of the refused stream ends the session of the other one. -/
theorem refused_close_ends_session : ∃ s, Server.new smallServer = some s ∧
    (s.run retried).sessionOf 1 = some 0x0a000002 ∧ (s.run retried).ownerOf 1 = some 4 ∧
    (cbRequestClose (s.run retried) 1 0).sessionOf 1 = none ∧
    (cbRequestClose (s.run retried) 1 0).nSessions = 0 ∧
    ¬ Run.Along Server.step OwnClose s (retried ++ [.requestClose 1 0]) :=
  ⟨_, rfl, by decide +kernel, by decide +kernel, by decide +kernel, by decide +kernel,
    by decide +kernel⟩

end Mqvpn.Svr
