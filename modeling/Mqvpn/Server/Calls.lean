import Mqvpn.Server.Session

/-!
# What a call of the server can do

Each handler is taken apart once here, with the guards that lead to each of its outcomes; what
holds of the server is then shown outcome by outcome.

## Main definitions

* `AtConn`, `Confined` — a call that concerns one connection.
* `Responded`, `Reading` — the outcomes of a response and of a header section.
* `Change` — the outcomes of a call.

## Main results

* `step_change` — **every call has one of these outcomes**.
* `Change.scope` — it concerns one connection, takes one in, or is about credentials.
-/

namespace Mqvpn.Svr

open Reorder Endpoint Function

variable {s s' s'' : Server} {id : ConnId} {c c' : SvrConn} {sid : StreamId}

/-! ### Contexts -/

@[simp] theorem setConn_conns_self (s : Server) (id : ConnId) (c : SvrConn) :
    (s.setConn id c).conns id = some c := update_self ..

theorem setConn_conns_of_ne {id' : ConnId} (h : id' ≠ id) :
    (s.setConn id c).conns id' = s.conns id' := update_of_ne h ..

/-- The contexts after one was written back. -/
theorem setConn_conns_cases {id' : ConnId} {c₀ : SvrConn}
    (h : (s.setConn id c).conns id' = some c₀) :
    (id' = id ∧ c₀ = c) ∨ (id' ≠ id ∧ s.conns id' = some c₀) := by
  by_cases hid : id' = id
  · subst hid
    rw [setConn_conns_self] at h
    exact .inl ⟨rfl, (Option.some.inj h).symm⟩
  · rw [setConn_conns_of_ne hid] at h
    exact .inr ⟨hid, h⟩

/-- The contexts after one is gone. -/
theorem svrConnFree_conns {id' : ConnId} (h : (svrConnFree s id).conns id' = some c) :
    id' ≠ id ∧ s.conns id' = some c := by
  unfold svrConnFree at h
  by_cases hid : id' = id
  · subst hid
    split at h
    · next hnone => exact absurd (hnone.symm.trans h) (Option.some_ne_none c).symm
    · exact absurd ((update_self ..).symm.trans h) (Option.some_ne_none c).symm
  · refine ⟨hid, ?_⟩
    split at h
    · exact h
    · exact (update_of_ne hid ..).symm.trans h

@[simp] theorem register_conns (s : Server) (id : ConnId) (addr : UInt32) :
    (s.register id addr).conns = s.conns := by
  unfold Server.register
  dsimp only
  split <;> rfl

@[simp] theorem register_pool (s : Server) (id : ConnId) (addr : UInt32) :
    (s.register id addr).pool = s.pool := by
  unfold Server.register
  dsimp only
  split <;> rfl

/-! ### Calls concern one connection -/

/-- Only the connection `id` is concerned; the configuration and the range of the pool stay. -/
structure AtConn (id : ConnId) (s s' : Server) : Prop where
  reorder : s'.reorder = s.reorder
  range : s'.pool.range = s.pool.range
  others : ∀ id', id' ≠ id → s'.conns id' = s.conns id'

/-- Moreover the credentials stay, and no scope is issued. -/
structure Confined (id : ConnId) (s s' : Server) : Prop extends AtConn id s s' where
  auth : s'.auth = s.auth
  nextTxScope : s'.nextTxScope = s.nextTxScope

@[simp] theorem Confined.refl (id : ConnId) (s : Server) : Confined id s s :=
  ⟨⟨rfl, rfl, fun _ _ => rfl⟩, rfl, rfl⟩

theorem Confined.trans (h : Confined id s s') (h' : Confined id s' s'') : Confined id s s'' where
  reorder := h'.reorder.trans h.reorder
  range := h'.range.trans h.range
  others id' hne := (h'.others id' hne).trans (h.others id' hne)
  auth := h'.auth.trans h.auth
  nextTxScope := h'.nextTxScope.trans h.nextTxScope

@[simp] theorem confined_setConn (s : Server) (id : ConnId) (c : SvrConn) :
    Confined id s (s.setConn id c) :=
  ⟨⟨rfl, rfl, fun _ hne => update_of_ne hne ..⟩, rfl, rfl⟩

theorem confined_setPool {pool : AddrPool} (h : pool.range = s.pool.range) :
    Confined id s { s with pool := pool } := ⟨⟨rfl, h, fun _ _ => rfl⟩, rfl, rfl⟩

section
variable (s : Server) (id : ConnId)

theorem confined_register (addr : UInt32) : Confined id s (s.register id addr) := by
  unfold Server.register
  dsimp only
  split
  · exact ⟨⟨rfl, rfl, fun _ _ => rfl⟩, rfl, rfl⟩
  · exact .refl id s

theorem confined_deregister (addr : UInt32) : Confined id s (s.deregister id addr) := by
  unfold Server.deregister
  dsimp only
  split
  · exact ⟨⟨rfl, rfl, fun _ _ => rfl⟩, rfl, rfl⟩
  · exact .refl id s

theorem confined_release : Confined id s (svrSessionRelease s id) := by
  unfold svrSessionRelease
  split
  · exact .refl id s
  split
  · exact .refl id s
  · next c _ _ =>
    exact ((confined_deregister s id c.assignedIp).trans
      (confined_setPool (AddrPool.range_release _ c.assignedIp))).trans (confined_setConn _ id _)

theorem confined_free : Confined id s (svrConnFree s id) := by
  unfold svrConnFree
  split
  · exact .refl id s
  · exact ⟨⟨rfl, rfl, fun _ hne => update_of_ne hne ..⟩, rfl, rfl⟩

theorem confined_failReleaseIp (c : SvrConn) : Confined id s (failReleaseIp s id c) :=
  (confined_setPool (AddrPool.range_release _ c.assignedIp)).trans (confined_setConn _ id _)

end

/-! ### Releasing a session -/

/-- Releasing leaves a connection without address as it is. -/
theorem svrSessionRelease_of_zero (hc : s.conns id = some c) (hip : c.assignedIp = 0) :
    svrSessionRelease s id = s := by
  unfold svrSessionRelease
  rw [hc]
  simp only
  rw [if_pos hip]

/-- The context after the release of its session, if it has one. -/
def SvrConn.withoutSession (c : SvrConn) : SvrConn := if c.assignedIp = 0 then c else c.cleared

theorem SvrConn.withoutSession_assignedIp (c : SvrConn) : c.withoutSession.assignedIp = 0 := by
  unfold SvrConn.withoutSession
  split
  · assumption
  · rfl

theorem SvrConn.withoutSession_h3 (c : SvrConn) : c.withoutSession.h3 = c.h3 := by
  unfold SvrConn.withoutSession
  split <;> rfl

theorem svrSessionRelease_conn (hc : s.conns id = some c) :
    (svrSessionRelease s id).conns id = some c.withoutSession := by
  unfold svrSessionRelease SvrConn.withoutSession
  rw [hc]
  dsimp only
  split
  · exact hc
  · exact setConn_conns_self ..

/-! ### Responses -/

theorem SvrConn.withTwin_eq (c : SvrConn) (pool : AddrPool) :
    ∃ hasV6 ip6, c.withTwin pool = { c with hasV6 := hasV6, assignedIp6 := ip6 } := by
  unfold SvrConn.withTwin
  split
  · exact ⟨true, _, rfl⟩
  · exact ⟨c.hasV6, c.assignedIp6, rfl⟩

/-- Providing engines leaves the session alone. -/
theorem svrConnReorderEnginesInit_session (reorder : Config) (env : EngineEnv) (c : SvrConn) :
    ∃ tx rx, svrConnReorderEnginesInit reorder env c =
      { c with reorderTx := tx, reorderRx := rx } := by
  unfold svrConnReorderEnginesInit
  split
  · exact ⟨c.reorderTx, c.reorderRx, rfl⟩
  split
  · exact ⟨c.reorderTx, c.reorderRx, rfl⟩
  split
  · exact ⟨_, _, rfl⟩
  · exact ⟨none, none, rfl⟩

/-- What the capsules of a response come to: the address goes back, or the connection is
registered; they bring no header section. -/
theorem sendCapsules_cases (s : Server) (id : ConnId) (c : SvrConn) (sid : StreamId)
    (env : ResponseEnv) (sent : List Reply) :
    ((∃ hasV6 ip6, (sendCapsules s id c sid env sent).server =
        failReleaseIp s id { c with hasV6 := hasV6, assignedIp6 := ip6 }) ∨
      (sendCapsules s id c sid env sent).server =
        (s.setConn id { c.withTwin s.pool with
          tunnelEstablished := true, owner := some sid }).register id c.assignedIp) ∧
    ∀ code echo, .status code echo ∈ (sendCapsules s id c sid env sent).sent →
      .status code echo ∈ sent := by
  obtain ⟨hasV6, ip6, htwin⟩ := c.withTwin_eq s.pool
  unfold sendCapsules
  split
  · exact ⟨.inl ⟨c.hasV6, c.assignedIp6, rfl⟩, fun _ _ h => h⟩
  simp only
  split
  · exact ⟨.inl ⟨c.hasV6, c.assignedIp6, rfl⟩, fun _ _ h => by simpa using h⟩
  split
  · refine ⟨.inl ⟨hasV6, ip6, congrArg (failReleaseIp s id) htwin⟩, fun _ _ h => ?_⟩
    split at h <;> simpa using h
  split
  · refine ⟨.inl ⟨hasV6, ip6, congrArg (failReleaseIp s id) htwin⟩, fun _ _ h => ?_⟩
    split at h <;> simpa using h
  · refine ⟨.inr ?_, fun _ _ h => ?_⟩
    · have hip : (c.withTwin s.pool).assignedIp = c.assignedIp := by rw [htwin]
      rw [hip]
    · split at h <;> split at h <;> simpa using h

/-- What a response on the stream `sid` comes to. -/
inductive Responded (s : Server) (id : ConnId) (c : SvrConn) (sid : StreamId) : Server → Prop
  /-- There is no room, or the header section is not sent. -/
  | kept : Responded s id c sid s
  /-- There is no address. -/
  | exhausted : Responded s id c sid (s.setConn id { c with masqueStreamId := sid })
  /-- A capsule is not sent, and the address goes back. -/
  | undone (off : ℕ) (pool : AddrPool) (hasV6 : Bool) (ip6 : In6Addr)
      (halloc : s.pool.alloc = some (off, pool)) :
      Responded s id c sid (failReleaseIp { s with pool := pool } id { c with
        masqueStreamId := sid, assignedIp := pool.addr off, hasV6 := hasV6, assignedIp6 := ip6 })
  | up (off : ℕ) (pool : AddrPool) (halloc : s.pool.alloc = some (off, pool))
      (hroom : s.nSessions < s.maxClients) :
      Responded s id c sid (Server.register (Server.setConn { s with pool := pool } id
        { SvrConn.withTwin { c with masqueStreamId := sid, assignedIp := pool.addr off } pool with
          tunnelEstablished := true, owner := some sid }) id (pool.addr off))

/-- The outcomes of a response; it echoes only if there is an engine. -/
theorem svrMasqueSendResponse_cases (s : Server) (id : ConnId) (c : SvrConn) (sid : StreamId)
    (env : ResponseEnv) :
    Responded s id c sid (svrMasqueSendResponse s id c sid env).server ∧
      ∀ code, .status code true ∈ (svrMasqueSendResponse s id c sid env).sent →
        c.reorderRx.isSome = true := by
  have hengine : ∀ code, .status code true ∈ [Reply.status 200
      (shouldAdvertise s.reorder.mode c.reorderRx && c.peerReorderSupported)] →
      c.reorderRx.isSome = true := by
    intro code hmem
    have hecho := (Reply.status.inj (List.mem_singleton.mp hmem)).2.symm
    rw [Bool.and_eq_true, shouldAdvertise, Bool.and_eq_true] at hecho
    exact hecho.1.2
  unfold svrMasqueSendResponse
  split
  · exact ⟨.kept, fun code h => by simp at h⟩
  next hroom =>
  dsimp only
  split
  · exact ⟨.kept, nofun⟩
  split
  · exact ⟨.exhausted, hengine⟩
  · next off pool halloc =>
    obtain ⟨hserver, hsent⟩ := sendCapsules_cases { s with pool := pool } id
      { c with masqueStreamId := sid, assignedIp := pool.addr off } sid env
      [.status 200 (shouldAdvertise s.reorder.mode c.reorderRx && c.peerReorderSupported)]
    refine ⟨?_, fun code h => hengine code (hsent code true h)⟩
    obtain ⟨hasV6, ip6, hserver⟩ | hserver := hserver
    · rw [hserver]
      exact .undone off pool hasV6 ip6 halloc
    · rw [hserver]
      exact .up off pool halloc (not_le.mp hroom)

theorem Responded.confined (h : Responded s id c sid s') : Confined id s s' := by
  cases h with
  | kept => exact .refl id s
  | exhausted => exact confined_setConn s id _
  | undone off pool hasV6 ip6 halloc =>
    exact (confined_setPool (AddrPool.range_alloc halloc)).trans (confined_failReleaseIp ..)
  | up off pool halloc =>
    exact ((confined_setPool (AddrPool.range_alloc halloc)).trans (confined_setConn _ id _)).trans
      (confined_register ..)

/-! ### Requests -/

/-- An answer that lets nobody in. -/
def Turned (sent : List Reply) : Prop :=
  sent = [] ∨ ∃ code, code ≠ 200 ∧ sent = [.status code false]

theorem Turned.not_ok {sent : List Reply} (h : Turned sent) (echo : Bool) :
    .status 200 echo ∉ sent := by
  obtain rfl | ⟨code, hne, rfl⟩ := h
  · exact List.not_mem_nil
  · intro hmem
    exact hne (Reply.status.inj (List.mem_singleton.mp hmem)).1.symm

theorem Turned.not_echo {sent : List Reply} (h : Turned sent) (code : ℕ) :
    .status code true ∉ sent := by
  obtain rfl | ⟨code, -, rfl⟩ := h
  · exact List.not_mem_nil
  · intro hmem
    cases (Reply.status.inj (List.mem_singleton.mp hmem)).2

/-- The request has the token that is asked for. -/
def Server.Passes (s : Server) (hdrs : ReqHeaders) : Prop :=
  ¬ (s.auth.required && (s.auth.check hdrs.authToken).isNone) = true

/-- The context a request for a tunnel is answered with: no session, engines, and whether the
client takes stamped packets. -/
def SvrConn.asking (c : SvrConn) (reorder : Config) (env : EngineEnv) (peer : Bool) : SvrConn :=
  { svrConnReorderEnginesInit reorder env c.withoutSession with peerReorderSupported := peer }

/-- A request for a tunnel is turned away, or answered. -/
theorem svrConnectIpOnRequest_cases (hc : s.conns id = some c) (sid : StreamId)
    (hdrs : ReqHeaders) (env : ResponseEnv) :
    (∃ sent, Turned sent ∧
      svrConnectIpOnRequest s id sid hdrs env = { ok := false, server := s, sent := sent }) ∨
    s.Passes hdrs ∧ svrConnectIpOnRequest s id sid hdrs env =
      svrMasqueSendResponse ((svrSessionRelease s id).setConn id
        (c.asking s.reorder env.engines hdrs.hasReorderHdr)) id
        (c.asking s.reorder env.engines hdrs.hasReorderHdr) sid env := by
  unfold svrConnectIpOnRequest Server.Passes SvrConn.asking
  split
  · exact .inl ⟨[], .inl rfl, rfl⟩
  split
  · exact .inl ⟨_, .inr ⟨403, by decide, rfl⟩, rfl⟩
  next hauth =>
  refine .inr ⟨hauth, ?_⟩
  dsimp only
  rw [svrSessionRelease_conn hc, (confined_release s id).reorder]

/-- What a header section comes to. -/
inductive Reading (s : Server) (id : ConnId) (sid : StreamId) (hdrs : ReqHeaders)
    (env : ResponseEnv) (r : Handled) : Prop
  /-- There is no such stream, or the request is not taken. -/
  | kept (hserver : r.server = s) (hsent : Turned r.sent) (hegress : r.egress = false)
  /-- The stream gets a role, but no tunnel. -/
  | routed (c : SvrConn) (role : Role) (hc : s.conns id = some c) (hopen : c.streams sid ≠ none)
      (hserver : r.server = s.setConn id (c.setStream sid (some role))) (hsent : Turned r.sent)
      (hegress : r.egress = true → s.Passes hdrs) (hrole : role ≠ .connectIp)
  /-- The request is for a tunnel, and there is none. -/
  | asked (c : SvrConn) (hc : s.conns id = some c) (hopen : c.streams sid ≠ none)
      (hip : (hdrs.isConnect && hdrs.isConnectIp) = true) (hdown : c.tunnelEstablished = false)
      (hr : r = svrConnectIpOnRequest (s.setConn id (c.setStream sid (some .connectIp))) id sid
        hdrs env)

theorem cbRequestRead_cases (s : Server) (id : ConnId) (sid : StreamId) (hdrs : ReqHeaders)
    (env : ResponseEnv) : Reading s id sid hdrs env (cbRequestRead s id sid hdrs env) := by
  unfold cbRequestRead
  split
  · exact .kept rfl (.inl rfl) rfl
  next c hc =>
  split
  · exact .kept rfl (.inl rfl) rfl
  next hopen =>
  have hopen' : c.streams sid ≠ none := mt Option.isNone_iff_eq_none.mpr hopen
  split
  · next hip =>
    split
    · exact .kept rfl (.inr ⟨409, by decide, rfl⟩) rfl
    · next hdown => exact .asked c hc hopen' hip (Bool.not_eq_true _ ▸ hdown) rfl
  split
  · dsimp only
    split
    · exact .routed c _ hc hopen' rfl (.inr ⟨403, by decide, rfl⟩) nofun nofun
    · next hauth => exact .routed c _ hc hopen' rfl (.inl rfl) (fun _ => hauth) nofun
  split
  · exact .routed c _ hc hopen' rfl (.inl rfl) nofun nofun
  · exact .kept rfl (.inr ⟨501, by decide, rfl⟩) rfl

/-- What the close of a stream does, by its role. -/
theorem cbRequestClose_eq (hc : s.conns id = some c) {role : Role}
    (hrole : c.streams sid = some role) :
    cbRequestClose s id sid =
      if role = .connectIp then
        (svrSessionRelease s id).setConn id (c.withoutSession.setStream sid none)
      else s.setConn id (c.setStream sid none) := by
  unfold cbRequestClose
  rw [hc]
  simp only
  rw [hrole]
  simp only
  by_cases hip : role = .connectIp
  · rw [if_pos hip, if_pos hip, svrSessionRelease_conn hc]
  · rw [if_neg hip, if_neg hip, hc]

theorem Reading.confined {hdrs : ReqHeaders} {env : ResponseEnv} {r : Handled}
    (h : Reading s id sid hdrs env r) : Confined id s r.server := by
  cases h with
  | kept hserver => exact hserver ▸ .refl id s
  | routed c role hc hopen hserver => exact hserver ▸ confined_setConn s id _
  | asked c hc hopen hip hdown hr =>
    subst hr
    refine (confined_setConn s id (c.setStream sid (some .connectIp))).trans ?_
    obtain ⟨sent, -, heq⟩ | ⟨-, heq⟩ :=
      svrConnectIpOnRequest_cases (setConn_conns_self s id _) sid hdrs env
    · rw [heq]
      exact .refl id _
    · rw [heq]
      exact ((confined_release ..).trans (confined_setConn ..)).trans
        (svrMasqueSendResponse_cases ..).1.confined

/-! ### Calls -/

inductive Change (s : Server) : SvrOp → Server → Prop
  | kept (op : SvrOp) : Change s op s
  | accepted (allocOk : Bool) :
      Change s (.accept allocOk) (Server.setConn { s with nextTxScope := s.nextTxScope + 1 }
        (s.nextTxScope + 1) { txScope := s.nextTxScope + 1 })
  | refused (id : ConnId) (c : SvrConn) (hc : s.conns id = some c) (hh3 : c.h3 = false) :
      Change s (.refuse id) (svrConnFree s id)
  | created (id : ConnId) (env : EngineEnv) (c : SvrConn) (hc : s.conns id = some c)
      (hh3 : c.h3 = false) :
      Change s (.h3ConnCreate id env)
        (s.setConn id (svrConnReorderEnginesInit s.reorder env { c with h3 := true }))
  | closed (id : ConnId) (c : SvrConn) (hc : s.conns id = some c) :
      Change s (.h3ConnClose id) (svrConnFree (svrSessionRelease s id) id)
  | opened (id : ConnId) (sid : StreamId) (allocOk : Bool) (c : SvrConn)
      (hc : s.conns id = some c) (hh3 : c.h3 = true) :
      Change s (.requestCreate id sid allocOk)
        (s.setConn id { c.setStream sid (some .unknown) with opened := sid :: c.opened })
  | read (id : ConnId) (sid : StreamId) (hdrs : ReqHeaders) (env : ResponseEnv) (r : Handled)
      (hread : Reading s id sid hdrs env r) : Change s (.requestRead id sid hdrs env) r.server
  /-- The stream of a tunnel closes, or one whose tunnel was refused. -/
  | ended (id : ConnId) (sid : StreamId) (c : SvrConn) (hc : s.conns id = some c)
      (hopen : c.streams sid ≠ none) :
      Change s (.requestClose id sid)
        ((svrSessionRelease s id).setConn id (c.withoutSession.setStream sid none))
  | left (id : ConnId) (sid : StreamId) (c : SvrConn) (hc : s.conns id = some c)
      (hopen : c.streams sid ≠ none) :
      Change s (.requestClose id sid) (s.setConn id (c.setStream sid none))
  | added (username key : List UInt8) :
      Change s (.addUser username key) { s with auth := s.auth.after (s.auth.addUser username key) }
  | removed (username : List UInt8) :
      Change s (.removeUser username) { s with auth := s.auth.after (s.auth.removeUser username) }

/-- **Every call has one of these outcomes.** -/
theorem step_change (s : Server) (op : SvrOp) : Change s op (s.step op) := by
  cases op with
  | accept allocOk =>
    rw [Server.step, cbAccept]
    split
    · exact .kept _
    split
    · exact .kept _
    · exact .accepted allocOk
  | refuse id =>
    rw [Server.step, cbRefuse]
    split
    · exact .kept _
    next c hc =>
    split
    · exact .kept _
    · next hh3 => exact .refused id c hc (Bool.not_eq_true _ ▸ hh3)
  | h3ConnCreate id env =>
    rw [Server.step, cbH3ConnCreate]
    split
    · exact .kept _
    next c hc =>
    split
    · exact .kept _
    · next hh3 => exact .created id env c hc (Bool.not_eq_true _ ▸ hh3)
  | h3ConnClose id =>
    rw [Server.step, cbH3ConnClose]
    split
    · exact .kept _
    next c hc =>
    split
    · exact .closed id c hc
    · exact .kept _
  | requestCreate id sid allocOk =>
    rw [Server.step, cbRequestCreate]
    split
    · exact .kept _
    next c hc =>
    split
    · exact .kept _
    · next hnot =>
      simp only [Bool.or_eq_true, Bool.not_eq_true', not_or, Bool.not_eq_false] at hnot
      exact .opened id sid allocOk c hc hnot.1.1
  | requestRead id sid hdrs env => exact .read id sid hdrs env _ (cbRequestRead_cases ..)
  | requestClose id sid =>
    rw [Server.step]
    cases hc : s.conns id with
    | none =>
      rw [cbRequestClose, hc]
      exact .kept _
    | some c =>
      cases hrole : c.streams sid with
      | none =>
        simp only [cbRequestClose, hc, hrole]
        exact .kept _
      | some role =>
        have hopen : c.streams sid ≠ none := hrole ▸ Option.some_ne_none role
        rw [cbRequestClose_eq hc hrole]
        split
        · exact .ended id sid c hc hopen
        · exact .left id sid c hc hopen
  | addUser username key => exact .added username key
  | removeUser username => exact .removed username

/-- **What a call may change**: one connection, the connections by one that is new, or the
credentials. -/
theorem Change.scope {op : SvrOp} (h : Change s op s') :
    (∃ id, Confined id s s') ∨ (∃ allocOk, op = .accept allocOk ∧ s' = Server.setConn
        { s with nextTxScope := s.nextTxScope + 1 } (s.nextTxScope + 1)
        { txScope := s.nextTxScope + 1 }) ∨
      (∃ username key, op = .addUser username key ∧
        s' = { s with auth := s.auth.after (s.auth.addUser username key) }) ∨
      ∃ username, op = .removeUser username ∧
        s' = { s with auth := s.auth.after (s.auth.removeUser username) } := by
  cases h with
  | kept op => exact .inl ⟨0, .refl 0 s⟩
  | accepted allocOk => exact .inr (.inl ⟨allocOk, rfl, rfl⟩)
  | refused id => exact .inl ⟨id, confined_free s id⟩
  | created id => exact .inl ⟨id, confined_setConn s id _⟩
  | closed id => exact .inl ⟨id, (confined_release s id).trans (confined_free _ id)⟩
  | opened id => exact .inl ⟨id, confined_setConn s id _⟩
  | read id sid hdrs env r hread => exact .inl ⟨id, hread.confined⟩
  | ended id => exact .inl ⟨id, (confined_release s id).trans (confined_setConn _ id _)⟩
  | left id => exact .inl ⟨id, confined_setConn s id _⟩
  | added username key => exact .inr (.inr (.inl ⟨username, key, rfl, rfl⟩))
  | removed username => exact .inr (.inr (.inr ⟨username, rfl, rfl⟩))

end Mqvpn.Svr
