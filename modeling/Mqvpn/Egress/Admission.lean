import Mqvpn.Egress.MachineInv

/-!
# Which connections the egress opens

The way from a request to `connect` leads through the credentials, the path, the rules for
destinations, the caps and the options of the socket.  `Justified` says what must hold of a
`connect`, in terms of the request and of what was in force when it was made; every `connect`
of every run is justified.

The kernel's part in the last point is that a socket with `IPV6_V6ONLY` does not reach an
IPv4 host, see `Connect.reaches`.

## Main definitions

* `Justified` — what must hold of a `connect`.
* `Connect.reaches` — the host a `connect` reaches.

## Main results

* `connects_justified` — **every `connect` of every run is justified.**
-/

namespace Mqvpn.Egress

open Svr Endpoint

inductive Host where
  | v4 (addr : List UInt8)
  | v6 (addr : List UInt8)
  deriving DecidableEq

/-- `::ffff:0:0/96`. -/
def v4Mapped (addr : In6Addr) : Bool :=
  addr.bytes.take 12 == List.replicate 10 0 ++ [0xff, 0xff]

/-- The host a `connect` reaches.  An IPv6 socket reaches an IPv4 host under its mapped
address, unless it is restricted to IPv6. -/
def Connect.reaches (c : Connect) : Option Host :=
  if c.family = 4 then some (.v4 (c.addr.bytes.take 4))
  else if v4Mapped c.addr then
    if c.v6only then none else some (.v4 (c.addr.bytes.drop 12))
  else some (.v6 c.addr.bytes)

/-- What must hold of a `connect`. -/
structure Justified (cfg : EgressConfig) (c : Connect) : Prop where
  /-- The request carries a key, if there are any. -/
  authenticated : c.auth.required = true → c.auth.Carries c.request.hdrs.authToken
  /-- The destination is the one the path of the request names. -/
  target : ∃ path host digits, c.request.path = some path ∧ NamesTarget path host c.port digits ∧
    resolve cfg.pton (cString host) = some (c.family, c.addr)
  /-- It is not in the tunnel. -/
  outside : cidrMatch cfg.policy.tunnel4 c.family c.addr = false ∧
    cidrMatch cfg.policy.tunnel6 c.family c.addr = false
  /-- It is allowed, or neither in a special range nor denied. -/
  ruled : (∃ e ∈ cfg.rules.allow, cidrMatch e c.family c.addr = true) ∨
    (∀ e ∈ defaultDeny c.family, cidrMatch e c.family c.addr = false) ∧
      ∀ e ∈ cfg.rules.deny, cidrMatch e c.family c.addr = false
  /-- The caps are not reached. -/
  global : c.globalFdCount < cfg.fdBudget
  perConn : ∃ n, c.connFlowCount = some n ∧ n < cfg.tcpMaxFlows.toNat
  /-- A socket for IPv6 is restricted to it. -/
  v6only : c.family = 6 → c.v6only = true

/-! ### Destinations -/

variable {pton : InetPton} {host : List UInt8} {family : UInt8} {addr : In6Addr}

/-- A prefix of another family does not match. -/
theorem cidrMatch_of_family_ne {e : CidrEntry} (h : e.family ≠ family) :
    cidrMatch e family addr = false := by
  rw [cidrMatch, if_pos (.inr h)]

/-- An address that is let through is in neither tunnel prefix. -/
theorem outside_of_allows {rules : EgressRules} {pool : AddrPool}
    (hfamily : family = 6 ∨ family = 4)
    (h : (svrGetEgressPolicy rules pool).allows family addr = true) :
    cidrMatch (svrGetEgressPolicy rules pool).tunnel4 family addr = false ∧
      cidrMatch (svrGetEgressPolicy rules pool).tunnel6 family addr = false := by
  have hown := (aclDecide_iff.mp h).1
  rcases hfamily with rfl | rfl
  · exact ⟨cidrMatch_of_family_ne (show (4 : UInt8) ≠ 6 by decide), hown⟩
  · refine ⟨hown, cidrMatch_of_family_ne ?_⟩
    rw [svrGetEgressPolicy]
    dsimp only
    split
    · exact show (6 : UInt8) ≠ 4 by decide
    · exact show (0 : UInt8) ≠ 4 by decide

namespace TcpEgress

variable {m m' : TcpEgress} {f : Flow} {cfg : EgressConfig} {doomed : List ℕ} {key : StreamKey}

/-! ### What leaves the connects alone -/

/-- The configuration, the budget and the connects so far. -/
def admission (m : TcpEgress) : EgressConfig × ℤ × List Connect := (m.cfg, m.budget, m.connects)

section
variable (m) (f) (key) (why : EndReason) (closeSync : Bool)

@[simp] theorem respond_admission (status : ℕ) :
    (m.respond key status).admission = m.admission := rfl

@[simp] theorem setFlow_admission : (m.setFlow f).admission = m.admission := rfl

@[simp] theorem setStream_admission (st : Option TcpStream) :
    (m.setStream key st).admission = m.admission := rfl

@[simp] theorem setConn_admission (id : ConnId) (c : Option ConnSide) :
    (m.setConn id c).admission = m.admission := rfl

@[simp] theorem flowDestroy_admission : (m.flowDestroy f why).admission = m.admission := rfl

@[simp] theorem destroyOf_admission : (m.destroyOf key why).admission = m.admission := by
  rw [destroyOf]
  split <;> simp

@[simp] theorem requestClose_admission : (m.requestClose key).admission = m.admission := by
  rw [requestClose]
  split <;> simp

@[simp] theorem abort_admission : (m.abort f why closeSync).admission = m.admission := by
  rw [abort]
  split <;> simp

@[simp] theorem failConnect_admission (e : Errno) :
    (m.failConnect f e).admission = m.admission := by
  simp [failConnect]

@[simp] theorem settle_admission (w : Work) : (m.settle w closeSync).admission = m.admission := by
  rw [settle]
  split <;> simp

@[simp] theorem streamEvent_admission (ev : FlowEvent) :
    (m.streamEvent key ev closeSync).admission = m.admission := by
  rw [streamEvent]
  split <;> simp

@[simp] theorem finishConnect_admission (env : ConnectEnv) :
    (m.finishConnect f env).admission = m.admission := by
  unfold finishConnect
  split <;> simp

@[simp] theorem requestCreate_admission (allocOk : Bool) :
    (m.requestCreate key allocOk).admission = m.admission := by
  unfold requestCreate
  split
  · rfl
  · split <;> simp

@[simp] theorem tickFlow_admission (now : ℕ) (closed : List ℕ) :
    (tickFlow now closed m f).admission = m.admission := by
  unfold tickFlow
  repeat' split
  all_goals simp

end

/-- A sweep that leaves the connects alone at every flow. -/
theorem foldl_admission {g : TcpEgress → Flow → TcpEgress}
    (hg : ∀ m f, (g m f).admission = m.admission) (l : List Flow) (m : TcpEgress) :
    (l.foldl g m).admission = m.admission := by
  induction l generalizing m with
  | nil => rfl
  | cons f l ih => rw [List.foldl_cons, ih, hg]

/-! ### The connects of a run -/

/-- The configuration stands, and every `connect` so far is justified. -/
structure Admitted (cfg : EgressConfig) (m : TcpEgress) : Prop where
  config : m.cfg = cfg
  budget : m.budget = cfg.fdBudget
  connects : ∀ c ∈ m.connects, Justified cfg c

section
variable (h : Admitted cfg m)
include h

theorem Admitted.congr (heq : m'.admission = m.admission) : Admitted cfg m' := by
  simp only [admission, Prod.mk.injEq] at heq
  obtain ⟨hcfg, hbudget, hconnects⟩ := heq
  exact ⟨hcfg.trans h.config, hbudget.trans h.budget, hconnects ▸ h.connects⟩

/-- **A request that gets to `connect` is justified.** -/
theorem Admitted.startConnect (htable : TableInv m) (hkey : Awaiting m key) {req : TcpRequest}
    {host : List UInt8} {port : ℕ} (username : List UInt8) (env : ConnectEnv)
    (hauth : m.auth.required = true → m.auth.Carries req.hdrs.authToken)
    (hpath : parsePath req.path = some (host, port))
    (hacl : aclAllowed m.cfg.pton m.cfg.policy (cString host) = true) :
    Admitted cfg (m.startConnect key req (cString host) port username env) := by
  obtain ⟨rfl, hbudget, hconnects⟩ := h
  have hsame : Admitted m.cfg m := ⟨rfl, hbudget, hconnects⟩
  unfold TcpEgress.startConnect
  split
  · exact hsame.congr (by simp)
  split
  · exact hsame.congr rfl
  next hglobal =>
  split
  · exact hsame.congr rfl
  next hfull =>
  split
  · exact hsame.congr (by simp)
  split
  · exact hsame.congr (by simp)
  split
  · exact hsame.congr (by simp)
  next family addr hresolve =>
  split
  · exact hsame.congr (by simp)
  split
  · exact hsame.congr (by simp)
  refine Admitted.congr (m := { m with connects := m.connects ++ [_] }) ?_
    (finishConnect_admission _ _ env)
  refine ⟨rfl, hbudget, fun c hc => ?_⟩
  rcases List.mem_append.mp hc with hc | hc
  · exact hconnects c hc
  obtain rfl := List.mem_singleton.mp hc
  -- the connection of the stream is there, and below its cap
  obtain ⟨st, hst, -⟩ := hkey
  obtain ⟨side, hside, -⟩ := htable.listed key st hst
  obtain ⟨hcount, -⟩ := htable.perConn key.1 side hside
  have hlt := htable.flowsOf_lt hside (by simpa using hfull)
  have hallows : m.cfg.policy.allows family addr = true := by
    rwa [aclAllowed, hresolve] at hacl
  have hfamily := resolve_family hresolve
  obtain ⟨path, digits, hbytes, hnames⟩ := parsePath_iff.mp hpath
  exact
    { authenticated := hauth
      target := ⟨path, host, digits, hbytes, hnames, hresolve⟩
      outside := outside_of_allows (hfamily.imp And.right And.right) hallows
      ruled := (aclDecide_iff.mp hallows).2
      global := by rw [← hbudget]; exact not_le.mp hglobal
      perConn := ⟨side.tcpFlowCount, by simp [hside], by omega⟩
      v6only := by
        rintro rfl
        rcases hfamily with ⟨hcolon, -⟩ | ⟨-, hfour⟩
        · exact hcolon
        · exact absurd hfour (by decide) }

theorem Admitted.onRequest (htable : TableInv m) (hkey : Awaiting m key) (req : TcpRequest)
    (env : ConnectEnv) : Admitted cfg (m.onRequest key req env) := by
  have htarget (username : List UInt8)
      (hauth : m.auth.required = true → m.auth.Carries req.hdrs.authToken) :
      Admitted cfg (m.onTarget key req username env) := by
    unfold TcpEgress.onTarget
    split
    · exact h.congr (by simp)
    next host port hpath =>
    split
    · exact h.congr (by simp)
    · next hacl => exact h.startConnect htable hkey username env hauth hpath (by simpa using hacl)
  unfold TcpEgress.onRequest
  split
  · split
    · exact h.congr (by simp)
    · next hcheck =>
      exact htarget _ fun _ => (m.auth.check_isSome_iff _).mp (by rw [hcheck]; rfl)
  · next hopen => exact htarget _ fun hreq => absurd hreq hopen

theorem Admitted.requestRead (htable : TableInv m) (key : StreamKey) (req : TcpRequest)
    (env : ConnectEnv) : Admitted cfg (m.requestRead key req env) := by
  unfold TcpEgress.requestRead
  split
  · exact h
  next st hst =>
  split
  · exact h
  next hunread =>
  split
  · exact h.congr (by simp)
  split
  · have hslot : st.slot = none := by
      by_contra hne
      exact hunread (htable.read key st hst (Option.isSome_iff_ne_none.mpr hne))
    refine (h.congr (setStream_admission m key _)).onRequest ?_ ?_ req env
    · exact htable.setStream hst hslot hslot
    · exact ⟨_, Function.update_self .., rfl, hslot, rfl⟩
  · exact h.congr (by simp)

end

/-- Both invariants, as they are kept together. -/
theorem engineStep_admitted (h : EgressInv doomed m ∧ Admitted cfg m) (op : EngineOp) :
    EgressInv doomed (m.engineStep op) ∧ Admitted cfg (m.engineStep op) := by
  refine ⟨engineStep_inv h.1 op, ?_⟩
  cases op with
  | connOpen id =>
    rw [engineStep]
    split
    · exact h.2
    · exact h.2.congr (by simp)
  | connClose id =>
    rw [engineStep]
    split
    · exact h.2
    · split
      · exact h.2.congr (by simp)
      · exact h.2
  | requestCreate key allocOk => exact h.2.congr (requestCreate_admission m key allocOk)
  | request key req env => exact h.2.requestRead h.1.table key req env
  | body key env closeSync | writable key env closeSync =>
      exact h.2.congr (streamEvent_admission m key closeSync _)
  | closing key => exact h.2.congr (destroyOf_admission m key .reset)
  | requestClose key => exact h.2.congr (requestClose_admission m key)

theorem Admitted.settleLoop (h : Admitted cfg m) (hinv : EgressInv [] m) (hf : f ∈ m.flows)
    (ev : FlowEvent) (flush : List EngineOp) (closeSync : Bool) :
    Admitted cfg (m.settleLoop (relay f ev) flush closeSync) := by
  rw [TcpEgress.settleLoop]
  split
  · have hflush := Run.exec_inv engineStep
      (P := fun m => EgressInv [f.serial] m ∧ Admitted cfg m)
      (fun m op hm => engineStep_admitted hm op) flush _
      ⟨hinv.setFlow hf (relay_ident f ev), h.congr (setFlow_admission m _)⟩
    dsimp only
    split
    · exact hflush.2
    · exact hflush.2.congr (by simp)
  · exact h.congr (by simp)

theorem step_admitted (h : EgressInv [] m ∧ Admitted cfg m) (op : EgressOp) :
    EgressInv [] (m.step op) ∧ Admitted cfg (m.step op) := by
  refine ⟨step_inv h.1 op, ?_⟩
  cases op with
  | engine op => exact (engineStep_admitted h op).2
  | fdReady serial env =>
    change Admitted cfg (m.fdReady serial env)
    unfold TcpEgress.fdReady
    split
    · exact h.2
    next f hfound =>
    obtain ⟨hf, -⟩ := Keyed.find_eq_some hfound
    split
    · split
      · exact h.2.congr (by simp)
      · exact h.2.settleLoop h.1 hf _ _ _
    · exact h.2.settleLoop h.1 hf _ _ _
  | tick now closeSync =>
    exact h.2.congr (foldl_admission (fun m f => tickFlow_admission m f now closeSync) _ _)
  | destroyAll =>
    exact h.2.congr (foldl_admission (fun m f => flowDestroy_admission m f .swept) _ _)
  | addUser | removeUser => exact h.2.congr rfl

theorem run_admitted (cfg : EgressConfig) (ops : List EgressOp) : Admitted cfg (run cfg ops) :=
  (Run.exec_inv step (P := fun m => EgressInv [] m ∧ Admitted cfg m)
    (fun _ op h => step_admitted h op) ops _
    ⟨new_inv cfg, rfl, rfl, fun c hc => by cases hc⟩).2

/-- An IPv4 host is reached under an IPv4 address only, the one that was checked. -/
theorem reaches_v4 {c : Connect} (h : Justified cfg c) {a : List UInt8}
    (hreach : c.reaches = some (.v4 a)) : c.family = 4 ∧ a = c.addr.bytes.take 4 := by
  obtain ⟨path, host, digits, -, -, hresolve⟩ := h.target
  rw [Connect.reaches] at hreach
  rcases resolve_family hresolve with ⟨-, hsix⟩ | ⟨-, hfour⟩
  · rw [hsix, h.v6only hsix, if_neg (by decide)] at hreach
    split at hreach <;> cases hreach
  · rw [if_pos hfour] at hreach
    cases hreach
    exact ⟨hfour, rfl⟩

/-- **Every `connect` of every run is justified**, and none reaches an IPv4 host through an
IPv6 literal. -/
theorem connects_justified (cfg : EgressConfig) (ops : List EgressOp) :
    ∀ c ∈ (run cfg ops).connects,
      Justified cfg c ∧
        ∀ a, c.reaches = some (.v4 a) → c.family = 4 ∧ a = c.addr.bytes.take 4 := by
  intro c hc
  have hjust := (run_admitted cfg ops).connects c hc
  exact ⟨hjust, fun a => reaches_v4 hjust⟩

/-- A server with a key, whose clients may have four flows each. -/
def smallEgress : EgressConfig where
  auth := { authKey := [0x6b], users := [] }
  rules := { allow := [], deny := [] }
  pool := ⟨0x0a000000, 24, 254, 2, List.replicate (addrPoolMax + 1) false, In6Addr.zero, 0, false⟩
  pton :=
    { v4 := fun host => if host = [0x38, 0x2e, 0x38, 0x2e, 0x38, 0x2e, 0x38] then some 0x08080808
        else none
      v6 := fun _ => none }
  hybridEnabled := true
  registerSet := true
  tcpMaxFlows := 4
  tcpMaxGlobalFlows := 8
  tcpConnectTimeoutSec := 10
  tcpIdleTimeoutSec := 300
  proxyMaxConnections := none
  rlimit := none

/-- A request for port 80 of `8.8.8.8`, with the key. -/
def tcpRequest : TcpRequest where
  hdrs :=
    { isConnect := true, isConnectIp := false, isConnectTcp := true, hasSchemeHttps := true
      hasValidPath := false, hasCapsuleProto := false, hasReorderHdr := false
      authToken := some [0x6b] }
  path := some (pathPrefix ++
    [0x38, 0x2e, 0x38, 0x2e, 0x38, 0x2e, 0x38, 0x2f, 0x38, 0x30, 0x2f])

/-- The request is made on the first stream of a connection; the socket connects at once, and
two bytes of body wait. -/
def oneRequest : List EgressOp :=
  [.engine (.connOpen 1), .engine (.requestCreate (1, 0) true),
    .engine (.request (1, 0) tcpRequest
      { socket := some 7, v6onlyOk := true, allocOk := true, now := 1000, connect := none
        drain :=
          { reads := [.data [1, 2] false [.took 1]], stashOk := true, now := 1000 }
        closeSync := false })]

/-- The request leads to a `connect`. -/
theorem connects_oneRequest :
    ∃ c ∈ (run smallEgress oneRequest).connects, c.port = 80 ∧ Justified smallEgress c := by
  have hmem : ({ stream := (1, 0), request := tcpRequest, family := 4
                 addr := addr4 0x08080808, port := 80, v6only := false
                 auth := smallEgress.auth, globalFdCount := 0, connFlowCount := some 0 } :
      Connect) ∈ (run smallEgress oneRequest).connects := by
    decide +kernel
  exact ⟨_, hmem, rfl, (connects_justified smallEgress oneRequest _ hmem).1⟩

end TcpEgress

end Mqvpn.Egress
