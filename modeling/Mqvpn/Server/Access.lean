import Mqvpn.Server.SessionInv

/-!
# Who is let in

CONNECT-IP requests and TCP requests go through one check.  It is made only if the table of
credentials is not empty at that moment, so the removal of the last user of a server without
a global key opens the server to everybody.

## Main definitions

* `Accepted` — the request was answered with 200, or got past the authentication to the
  egress.

## Main results

* `access_iff` — **a request is accepted only with a credential exactly if there are
  credentials in the table**, in every state a run leads to in which requests are accepted at
  all; credentials are lost only by a removal, and never if there is a global key.
-/

namespace Mqvpn.Svr

open Reorder Endpoint

def Accepted (r : Handled) : Prop := (∃ echo, .status 200 echo ∈ r.sent) ∨ r.egress = true

variable {s : Server} {id : ConnId} {sid : StreamId} {hdrs : ReqHeaders} {env : ResponseEnv}

theorem Server.Passes.carries (h : s.Passes hdrs) :
    s.auth.required = false ∨ s.auth.Carries hdrs.authToken := by
  rw [Server.Passes, Bool.and_eq_true, not_and, Option.isNone_iff_eq_none, ← Ne,
    ← Option.isSome_iff_ne_none, AuthTable.check_isSome_iff] at h
  cases hreq : s.auth.required with
  | false => exact .inl rfl
  | true => exact .inr (h hreq)

/-- **An accepted request carries a key**, unless none is required. -/
theorem accepted_carries (h : Accepted (cbRequestRead s id sid hdrs env)) :
    s.auth.required = false ∨ s.auth.Carries hdrs.authToken := by
  refine Server.Passes.carries ?_
  cases cbRequestRead_cases s id sid hdrs env with
  | kept hserver hsent hegress =>
    obtain ⟨echo, hmem⟩ | htrue := h
    · exact absurd hmem (hsent.not_ok echo)
    · exact absurd (hegress.symm.trans htrue) Bool.false_ne_true
  | routed c role hc hopen hserver hsent hegress =>
    obtain ⟨echo, hmem⟩ | htrue := h
    · exact absurd hmem (hsent.not_ok echo)
    · exact hegress htrue
  | asked c hc hopen hip hdown hr =>
    obtain ⟨sent, hsent, heq⟩ | ⟨hpass, -⟩ :=
      svrConnectIpOnRequest_cases (setConn_conns_self s id _) sid hdrs env
    · rw [hr, heq] at h
      obtain ⟨echo, hmem⟩ | htrue := h
      · exact absurd hmem (hsent.not_ok echo)
      · cases htrue
    · exact hpass

/-- Where no token is required, none is read. -/
theorem requestRead_open (hopen : s.auth.required = false) (token : Option (List UInt8)) :
    cbRequestRead s id sid { hdrs with authToken := token } env =
      cbRequestRead s id sid hdrs env := by
  unfold cbRequestRead
  cases s.conns id with
  | none => rfl
  | some c =>
    have hkept : ∀ c', (s.setConn id c').auth.required = false := fun _ => hopen
    simp only [svrConnectIpOnRequest, hkept, Bool.false_and]

/-! ### The table along a run -/

/-- Only the control API writes to the table: the global key stays, and the last user goes
only by a removal. -/
theorem step_auth (s : Server) (op : SvrOp) :
    (s.step op).auth.authKey = s.auth.authKey ∧
      (s.auth.users ≠ [] → (s.step op).auth.users = [] →
        ∃ username, op = .removeUser username) := by
  obtain ⟨id, hconfined⟩ | ⟨allocOk, -, heq⟩ | ⟨username, key, -, heq⟩ | ⟨username, rfl, heq⟩ :=
    (step_change s op).scope
  · rw [hconfined.auth]
    exact ⟨rfl, fun hne hnil => absurd hnil hne⟩
  · rw [heq]
    exact ⟨rfl, fun hne hnil => absurd hnil hne⟩
  · rw [heq]
    obtain ⟨hkey, hkept⟩ := AuthTable.after_addUser s.auth username key
    exact ⟨hkey, fun hne hnil => absurd hnil (hkept hne)⟩
  · rw [heq]
    exact ⟨AuthTable.after_removeUser s.auth username, fun _ _ => ⟨username, rfl⟩⟩

theorem run_auth (ops : List SvrOp) (s : Server) :
    (s.run ops).auth.authKey = s.auth.authKey ∧
      (s.auth.users ≠ [] → (s.run ops).auth.users = [] →
        ∃ username, .removeUser username ∈ ops) := by
  induction ops generalizing s with
  | nil => exact ⟨rfl, fun hne hnil => absurd hnil hne⟩
  | cons op ops ih =>
    obtain ⟨hkey, hlost⟩ := step_auth s op
    obtain ⟨hkey', hlost'⟩ := ih (s.step op)
    refine ⟨hkey'.trans hkey, fun hne hnil => ?_⟩
    by_cases hmid : (s.step op).auth.users = []
    · obtain ⟨username, rfl⟩ := hlost hne hmid
      exact ⟨username, List.mem_cons_self⟩
    · obtain ⟨username, hmem⟩ := hlost' hmid hnil
      exact ⟨username, List.mem_cons_of_mem _ hmem⟩

/-- **Who is let in after a run** of a server that was started with credentials: requests
that are accepted carry a key exactly if the table has one at that moment, or none is
accepted; the table is empty only after a removal, and never beside a global key. -/
theorem access_iff {cfg : ServerConfig} (hnew : Server.new cfg = some s)
    (hcred : cfg.auth.authKey ≠ [] ∨ cfg.auth.users ≠ []) (ops : List SvrOp) :
    ((∀ id sid hdrs env, Accepted (cbRequestRead (s.run ops) id sid hdrs env) →
        (s.run ops).auth.Carries hdrs.authToken) ↔
      (s.run ops).auth.authKey ≠ [] ∨ (s.run ops).auth.users ≠ [] ∨
        ∀ id sid hdrs env, ¬ Accepted (cbRequestRead (s.run ops) id sid hdrs env)) ∧
    (cfg.auth.authKey ≠ [] → (s.run ops).auth.authKey ≠ []) ∧
    ((s.run ops).auth.authKey = [] → (s.run ops).auth.users = [] →
      ∃ username, .removeUser username ∈ ops) := by
  have hauth : s.auth = cfg.auth := by
    obtain ⟨pool, -, rfl⟩ := Option.map_eq_some_iff.mp hnew
    rfl
  obtain ⟨hkey, hlost⟩ := run_auth ops s
  rw [hauth] at hkey hlost
  refine ⟨⟨fun hall => ?_, fun hcreds id sid hdrs env hacc => ?_⟩, ?_, fun hnokey hnil => ?_⟩
  · by_cases hreq : (s.run ops).auth.required = true
    · rw [AuthTable.required_eq_true_iff] at hreq
      tauto
    · -- the same request without a token would be accepted as well
      refine .inr (.inr fun id sid hdrs env hacc => ?_)
      have hopen : (s.run ops).auth.required = false := by simpa using hreq
      rw [← requestRead_open hopen none] at hacc
      obtain ⟨key, hsome, -⟩ := hall id sid _ env hacc
      cases hsome
  · rcases accepted_carries hacc with hopen | hcarries
    · have hreq : ¬ ((s.run ops).auth.authKey ≠ [] ∨ (s.run ops).auth.users ≠ []) := by
        rw [← AuthTable.required_eq_true_iff, hopen]
        exact Bool.noConfusion
      rw [← or_assoc] at hcreds
      exact absurd hacc ((hcreds.resolve_left hreq) id sid hdrs env)
    · exact hcarries
  · rw [hkey]
    exact id
  · rw [hkey] at hnokey
    exact hlost (hcred.resolve_left (not_not.mpr hnokey)) hnil

/-- A server with one user and no global key. -/
def oneUser : ServerConfig :=
  { smallServer with auth := { authKey := [], users := [{ name := [0x61], key := [0x6b] }] } }

/-- With the user in the table, the request with the key is accepted and no other. -/
theorem access_oneUser : ∃ s, Server.new oneUser = some s ∧
    ∀ id sid hdrs env,
      Accepted (cbRequestRead (s.run [.accept true, .h3ConnCreate 1 allSent.engines]) id sid hdrs
        env) →
        (s.run [.accept true, .h3ConnCreate 1 allSent.engines]).auth.Carries hdrs.authToken :=
  ⟨_, rfl, ((access_iff (show Server.new oneUser = _ from rfl) (.inr (List.cons_ne_nil _ _))
    [.accept true, .h3ConnCreate 1 allSent.engines]).1).mpr (.inr (.inl (by decide +kernel)))⟩

/-- The user is removed; then a request without a token is answered with 200 and an
address. -/
theorem last_user_removed : ∃ s, Server.new oneUser = some s ∧
    (cbRequestRead (s.run [.removeUser [0x61], .accept true, .h3ConnCreate 1 allSent.engines,
        .requestCreate 1 0 true]) 1 0 goodRequest allSent).sent =
      [.status 200 false, .addressAssign 0x0a000002, .routeAdvertisement] ∧
    goodRequest.authToken = none :=
  ⟨_, rfl, by decide +kernel, rfl⟩

end Mqvpn.Svr
