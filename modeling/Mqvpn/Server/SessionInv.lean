import Mqvpn.Server.Calls

/-!
# The session table is consistent

A request acquires an address, then a slot, and every failure on the way gives back what
was acquired; the closes of the stream and of the connection undo the rest in either order.
So table, pool, count and contexts agree at every boundary, whatever fails and whatever the
order of the callbacks.

The table changes in two ways only, a slot is filled or cleared together with its offset in
the pool, and both are `SvrInv.setSlot`.

## Main definitions

* `ScopesOk`, `SvrInv` — the invariant of the server.
* `SessionsOk` — what it says about sessions and scopes.

## Main results

* `SvrInv.step` — every callback keeps the invariant.
* `sessions_ok_run` — **sessions, pool, count and scopes agree after every run**.
-/

namespace Mqvpn.Svr

open Reorder Endpoint List Function

/-! ### The invariant -/

/-- The scopes issued are those of the contexts and those released, each released once. -/
structure ScopesOk (conns : ConnId → Option SvrConn) (next : ℕ) (released : List ℕ) : Prop where
  scope : ∀ id c, conns id = some c → c.txScope = id
  issued : ∀ id : ℕ, ((conns id).isSome = true ∨ id ∈ released) ↔ 0 < id ∧ id ≤ next
  gone : ∀ id ∈ released, conns id = none
  once : released.Nodup

/-- What holds of the session of a context. -/
structure ConnOk (s : Server) (id : ConnId) (c : SvrConn) : Prop where
  /-- An address is held together with a slot. -/
  held : c.assignedIp ≠ 0 → ∃ off, Slots.entry s.sessions off = some id
  tunnel : c.tunnelEstablished = true ↔ c.assignedIp ≠ 0
  owner : c.assignedIp ≠ 0 → c.owner = some c.masqueStreamId
  /-- There is no request before H3. -/
  early : c.h3 = false → c.assignedIp = 0 ∧ ∀ sid, c.streams sid = none

/-- **The invariant of the server.** -/
structure SvrInv (s : Server) : Prop where
  pool : s.pool.WF
  length : s.sessions.length = addrPoolMax + 1
  /-- A registered connection exists and holds the address of its slot. -/
  slot : ∀ off id, Slots.entry s.sessions off = some id → 1 < off ∧ off ≤ s.pool.poolSize ∧
    ∃ c, s.conns id = some c ∧ c.assignedIp = s.pool.addr off
  used : ∀ off, s.pool.isUsed off = (Slots.entry s.sessions off).isSome
  conn : ∀ id c, s.conns id = some c → ConnOk s id c
  count : s.nSessions = Slots.occupied s.sessions
  bound : s.nSessions ≤ s.maxClients
  scopes : ScopesOk s.conns s.nextTxScope s.released

variable {s s' : Server} {id : ConnId} {c c' : SvrConn} {sid : StreamId}

/-! ### Scopes -/

/-- A released scope has no context. -/
theorem ScopesOk.not_released {conns : ConnId → Option SvrConn} {next : ℕ} {released : List ℕ}
    (h : ScopesOk conns next released) (hc : conns id = some c) : id ∉ released := by
  intro hmem
  rw [h.gone id hmem] at hc
  cases hc

section
variable (h : ScopesOk s.conns s.nextTxScope s.released)
include h

/-- A context is written under a scope that was not released. -/
theorem ScopesOk.put {next : ℕ} (hscope : c.txScope = id) (hid : id ∉ s.released)
    (hin : 0 < id ∧ id ≤ next) (hnext : ∀ id', id' ≠ id → (id' ≤ next ↔ id' ≤ s.nextTxScope)) :
    ScopesOk (s.setConn id c).conns next s.released where
  scope := by
    intro id' c₀ hc₀
    obtain ⟨rfl, rfl⟩ | ⟨-, hc₀⟩ := setConn_conns_cases hc₀
    · exact hscope
    · exact h.scope id' c₀ hc₀
  issued := by
    intro id'
    by_cases heq : id' = id
    · simp [heq, hin]
    · rw [setConn_conns_of_ne heq, h.issued id', hnext id' heq]
  gone := by
    intro id' hid'
    exact (setConn_conns_of_ne (ne_of_mem_of_not_mem hid' hid)).trans (h.gone id' hid')
  once := h.once

theorem ScopesOk.setConn (hc : s.conns id = some c) (hscope : c'.txScope = c.txScope) :
    ScopesOk (s.setConn id c').conns s.nextTxScope s.released :=
  h.put (hscope.trans (h.scope id c hc)) (h.not_released hc)
    ((h.issued id).mp (.inl (by rw [hc]; rfl))) fun _ _ => Iff.rfl

theorem ScopesOk.fresh : s.conns (s.nextTxScope + 1) = none ∧ s.nextTxScope + 1 ∉ s.released := by
  have hnew : ¬ (0 < s.nextTxScope + 1 ∧ s.nextTxScope + 1 ≤ s.nextTxScope) := by omega
  rw [← h.issued, not_or, Bool.not_eq_true, Option.isSome_eq_false_iff,
    Option.isNone_iff_eq_none] at hnew
  exact hnew

theorem ScopesOk.accept (hscope : c.txScope = s.nextTxScope + 1) :
    ScopesOk (s.setConn (s.nextTxScope + 1) c).conns (s.nextTxScope + 1) s.released :=
  h.put hscope h.fresh.2 ⟨Nat.succ_pos _, le_rfl⟩
    fun _ hne => by rw [Nat.le_succ_iff, or_iff_left hne]

end

theorem ScopesOk.free {conns : ConnId → Option SvrConn} {next : ℕ} {released : List ℕ}
    (h : ScopesOk conns next released) (hc : conns id = some c) :
    ScopesOk (update conns id none) next (released ++ [id]) where
  scope := by
    intro id' c₀ hc₀
    by_cases hid : id' = id
    · rw [hid, update_self] at hc₀
      cases hc₀
    · rw [update_of_ne hid] at hc₀
      exact h.scope id' c₀ hc₀
  issued := by
    intro id'
    rw [← h.issued id', mem_append, mem_singleton]
    by_cases hid : id' = id
    · rw [hid, update_self, hc]
      simp
    · rw [update_of_ne hid]
      simp [hid]
  gone := by
    intro id' hid'
    by_cases hid : id' = id
    · rw [hid, update_self]
    · rw [update_of_ne hid]
      rw [mem_append, mem_singleton] at hid'
      exact h.gone id' (hid'.resolve_right hid)
  once := by
    rw [nodup_append]
    refine ⟨h.once, nodup_singleton id, ?_⟩
    intro a ha b hb heq
    rw [mem_singleton] at hb
    exact h.not_released hc (hb ▸ heq ▸ ha)

/-! ### Changes that leave the table alone -/

section Inv

variable (h : SvrInv s)

include h

/-- The pool is replaced by one with the same addresses out. -/
theorem SvrInv.setPool {pool : AddrPool} (hwf : pool.WF) (hbase : pool.base = s.pool.base)
    (hsize : pool.poolSize = s.pool.poolSize) (hused : ∀ off, pool.isUsed off = s.pool.isUsed off) :
    SvrInv { s with pool := pool } :=
  { h with
    pool := hwf
    slot := by
      intro off id hslot
      obtain ⟨hlo, hhi, c, hc, haddr⟩ := h.slot off id hslot
      refine ⟨hlo, hsize.symm ▸ hhi, c, hc, ?_⟩
      rw [haddr, AddrPool.addr, AddrPool.addr, hbase]
    used := fun off => (hused off).trans (h.used off)
    conn := fun id c hc => { h.conn id c hc with } }

/-- Credentials have no part in it. -/
theorem SvrInv.setAuth (auth : AuthTable) : SvrInv { s with auth := auth } :=
  { h with conn := fun id c hc => { h.conn id c hc with } }

theorem SvrInv.accept :
    SvrInv (Server.setConn { s with nextTxScope := s.nextTxScope + 1 } (s.nextTxScope + 1)
      { txScope := s.nextTxScope + 1 }) := by
  have hfresh := h.scopes.fresh.1
  refine { h with
    slot := fun off id' hslot => ?_
    conn := fun id' c₀ hc₀ => ?_
    scopes := h.scopes.accept rfl }
  · obtain ⟨hlo, hhi, c₀, hc₀, haddr⟩ := h.slot off id' hslot
    have hne : id' ≠ s.nextTxScope + 1 := by
      rintro rfl
      rw [hfresh] at hc₀
      cases hc₀
    exact ⟨hlo, hhi, c₀, (update_of_ne hne ..).trans hc₀, haddr⟩
  · obtain ⟨rfl, rfl⟩ | ⟨-, hc₀⟩ := setConn_conns_cases hc₀
    · exact ⟨fun hne => absurd rfl hne, by simp, fun hne => absurd rfl hne,
        fun _ => ⟨rfl, fun _ => rfl⟩⟩
    · exact { h.conn id' c₀ hc₀ with }

theorem SvrInv.lt_length {off : ℕ} (hhi : off ≤ s.pool.poolSize) : off < s.sessions.length :=
  (Nat.lt_succ_of_le (hhi.trans h.pool.size)).trans_eq h.length.symm

/-! ### The context of one connection -/

section Conn

variable (hc : s.conns id = some c)

include hc

/-- A context is written back with the session it had. -/
theorem SvrInv.setConn (hscope : c'.txScope = c.txScope) (hip : c'.assignedIp = c.assignedIp)
    (htunnel : c'.tunnelEstablished = c.tunnelEstablished) (howner : c'.owner = c.owner)
    (hsid : c.assignedIp ≠ 0 → c'.masqueStreamId = c.masqueStreamId)
    (hearly : c'.h3 = false → c.h3 = false ∧ c'.streams = c.streams) : SvrInv (s.setConn id c') :=
  { h with
    slot := by
      intro off id' hslot
      obtain ⟨hlo, hhi, c₀, hc₀, haddr⟩ := h.slot off id' hslot
      refine ⟨hlo, hhi, ?_⟩
      by_cases hid : id' = id
      · subst hid
        rw [hc] at hc₀
        obtain rfl := Option.some.inj hc₀
        exact ⟨c', setConn_conns_self .., hip.trans haddr⟩
      · exact ⟨c₀, (setConn_conns_of_ne hid).trans hc₀, haddr⟩
    conn := by
      intro id' c₀ hc₀
      obtain ⟨rfl, rfl⟩ | ⟨-, hc₀⟩ := setConn_conns_cases hc₀
      · have hok := h.conn id' c hc
        refine ⟨fun hne => hok.held (hip ▸ hne), ?_, fun hne => ?_, fun hh3 => ?_⟩
        · rw [htunnel, hip]
          exact hok.tunnel
        · rw [howner, hsid (hip ▸ hne)]
          exact hok.owner (hip ▸ hne)
        · obtain ⟨hold, hstreams⟩ := hearly hh3
          rw [hip, hstreams]
          exact hok.early hold
      · exact { h.conn id' c₀ hc₀ with }
    scopes := h.scopes.setConn hc hscope }

/-! ### The slot of a connection -/

theorem SvrInv.slot_conn {off : ℕ} (hoff : Slots.entry s.sessions off = some id) :
    1 < off ∧ off ≤ s.pool.poolSize ∧ c.assignedIp = s.pool.addr off := by
  obtain ⟨hlo, hhi, c₀, hc₀, haddr⟩ := h.slot off id hoff
  obtain rfl := Option.some.inj (hc.symm.trans hc₀)
  exact ⟨hlo, hhi, haddr⟩

/-- A connection without address holds no slot. -/
theorem SvrInv.no_slot (hip : c.assignedIp = 0) (off : ℕ) :
    Slots.entry s.sessions off ≠ some id := by
  intro hoff
  obtain ⟨hlo, hhi, haddr⟩ := h.slot_conn hc hoff
  exact h.pool.addr_ne_zero (by omega) hhi (haddr.symm.trans hip)

omit hc in
/-- No two slots hold one connection. -/
theorem SvrInv.slot_inj {off off' : ℕ} (hoff : Slots.entry s.sessions off = some id)
    (hoff' : Slots.entry s.sessions off' = some id) : off = off' := by
  obtain ⟨-, hhi, c, hc, haddr⟩ := h.slot off id hoff
  obtain ⟨-, hhi', haddr'⟩ := h.slot_conn hc hoff'
  exact h.pool.addr_inj hhi hhi' (haddr.symm.trans haddr')

/-- **The change of a slot.**  The slot of `off`, held by `id` or by no one, becomes `v`, and
the pool and the context of `id` follow. -/
theorem SvrInv.setSlot {off : ℕ} {v : Option ConnId} {pool : AddrPool} {n : ℤ} (hlo : 1 < off)
    (hhi : off ≤ s.pool.poolSize) (hheld : ∀ id', Slots.entry s.sessions off = some id' → id' = id)
    (honly : ∀ off', Slots.entry s.sessions off' = some id → off' = off)
    (hv : v = none ∧ c'.assignedIp = 0 ∨ v = some id ∧ c'.assignedIp = s.pool.addr off)
    (hwf : pool.WF) (hbase : pool.base = s.pool.base) (hsize : pool.poolSize = s.pool.poolSize)
    (hused : ∀ off', pool.isUsed off' = if off' = off then v.isSome else s.pool.isUsed off')
    (hscope : c'.txScope = c.txScope) (htunnel : c'.tunnelEstablished = true ↔ c'.assignedIp ≠ 0)
    (howner : c'.assignedIp ≠ 0 → c'.owner = some c'.masqueStreamId) (hh3 : c'.h3 = true)
    (hcount : n = Slots.occupied (s.sessions.set off v)) (hbound : n ≤ s.maxClients) :
    SvrInv (Server.setConn
      { s with sessions := s.sessions.set off v, nSessions := n, pool := pool } id c') := by
  have hentry := Slots.entry_set (h.lt_length hhi) v
  refine ⟨hwf, (length_set ..).trans h.length, ?_, ?_, ?_, hcount, hbound, ?_⟩
  · -- the slots
    intro off' id' hslot
    change Slots.entry (s.sessions.set off v) off' = some id' at hslot
    rw [hentry] at hslot
    have haddr : pool.addr off' = s.pool.addr off' := by
      rw [AddrPool.addr, AddrPool.addr, hbase]
    split at hslot
    · next heq =>
      subst heq
      obtain ⟨rfl, -⟩ | ⟨rfl, hip⟩ := hv
      · cases hslot
      · obtain rfl := Option.some.inj hslot
        exact ⟨hlo, hhi.trans_eq hsize.symm, c', setConn_conns_self .., hip.trans haddr.symm⟩
    · next hne =>
      obtain ⟨hlo', hhi', c₀, hc₀, hip⟩ := h.slot off' id' hslot
      have hid : id' ≠ id := fun heq => hne (honly off' (heq ▸ hslot))
      exact ⟨hlo', hhi'.trans_eq hsize.symm, c₀, (setConn_conns_of_ne hid).trans hc₀,
        hip.trans haddr.symm⟩
  · -- the pool
    intro off'
    change pool.isUsed off' = (Slots.entry (s.sessions.set off v) off').isSome
    rw [hused, hentry]
    split
    · rfl
    · exact h.used off'
  · -- the contexts
    intro id' c₀ hc₀
    obtain ⟨rfl, rfl⟩ | ⟨hid, hc₀⟩ := setConn_conns_cases hc₀
    · refine ⟨fun hne => ⟨off, ?_⟩, htunnel, howner, fun hfalse => ?_⟩
      swap
      · rw [hh3] at hfalse
        cases hfalse
      obtain ⟨-, hip⟩ | ⟨rfl, -⟩ := hv
      · exact absurd hip hne
      · exact (hentry off).trans (if_pos rfl)
    · have hok := h.conn id' c₀ hc₀
      refine { hok with held := fun hne => ?_ }
      obtain ⟨off', hoff'⟩ := hok.held hne
      have hne' : off' ≠ off := by
        rintro rfl
        exact hid (hheld id' hoff')
      exact ⟨off', (hentry off').trans ((if_neg hne').trans hoff')⟩
  · exact ScopesOk.setConn h.scopes hc hscope

/-! ### Release -/

/-- A connection with an address got to H3. -/
theorem SvrInv.h3_of_assigned (hip : c.assignedIp ≠ 0) : c.h3 = true := by
  rw [← Bool.not_eq_false]
  exact fun hfalse => hip ((h.conn id c hc).early hfalse).1

theorem svrSessionRelease_eq (hip : c.assignedIp ≠ 0) :
    ∃ off, Slots.entry s.sessions off = some id ∧
      svrSessionRelease s id = Server.setConn
        { s with
          sessions := s.sessions.set off none
          nSessions := s.nSessions - 1
          pool := s.pool.release (s.pool.addr off) } id c.cleared := by
  obtain ⟨off, hslot⟩ := (h.conn id c hc).held hip
  obtain ⟨hlo, hhi, haddr⟩ := h.slot_conn hc hslot
  refine ⟨off, hslot, ?_⟩
  have hmax : off ≤ addrPoolMax := hhi.trans h.pool.size
  unfold svrSessionRelease Server.deregister
  rw [hc]
  simp only
  rw [if_neg hip, haddr, (h.pool.offset_addr hhi).2, if_pos ⟨by omega, hmax, hslot⟩]

namespace SvrInv

/-- **Releasing a session keeps the invariant.** -/
theorem release : SvrInv (svrSessionRelease s id) := by
  by_cases hip : c.assignedIp = 0
  · rw [svrSessionRelease_of_zero hc hip]
    exact h
  obtain ⟨off, hslot, heq⟩ := svrSessionRelease_eq h hc hip
  obtain ⟨hlo, hhi, -⟩ := h.slot off id hslot
  obtain ⟨hwf, hbase, hsize, -, hused⟩ :=
    AddrPool.release_addr h.pool (by omega : 1 ≤ off) hhi
  have hcount := Slots.occupied_clear (h.lt_length hhi) hslot
  have hbound := h.bound
  have hh3 : c.h3 = true := h.h3_of_assigned hc hip
  rw [heq]
  refine h.setSlot hc hlo hhi ?_ (fun off' hoff' => h.slot_inj hoff' hslot) (.inl ⟨rfl, rfl⟩)
    hwf hbase hsize hused rfl ?_ (fun hne => absurd rfl hne) hh3 ?_ (by omega)
  · intro id' hid'
    exact Option.some.inj (hid'.symm.trans hslot)
  · exact ⟨fun hest => Bool.noConfusion hest, fun hne => absurd rfl hne⟩
  · rw [h.count]
    omega

/-! ### Establishing a session -/

section
variable (hip : c.assignedIp = 0)
include hip

/-- The failure exit undoes the allocation. -/
theorem failReleaseIp {off : ℕ} {pool : AddrPool} (halloc : s.pool.alloc = some (off, pool))
    (hscope : c'.txScope = c.txScope) (haddr : c'.assignedIp = pool.addr off)
    (htunnel : c'.tunnelEstablished = c.tunnelEstablished) (howner : c'.owner = c.owner)
    (hh3 : c'.h3 = true) : SvrInv (failReleaseIp { s with pool := pool } id c') := by
  obtain ⟨hlo, hhi, hfree, hwf, hbase, hsize, -, hused⟩ := AddrPool.alloc_spec h.pool halloc
  obtain ⟨hwf', hbase', hsize', -, hused'⟩ :=
    AddrPool.release_addr hwf (by omega : 1 ≤ off) (hhi.trans_eq hsize.symm)
  unfold Svr.failReleaseIp
  rw [haddr]
  have hpool : SvrInv { s with pool := pool.release (pool.addr off) } := by
    refine h.setPool hwf' (hbase'.trans hbase) (hsize'.trans hsize) fun off' => ?_
    rw [hused', hused]
    split
    · next heq =>
      rw [heq]
      exact hfree.symm
    · rfl
  refine hpool.setConn hc hscope hip.symm htunnel howner (fun hne => absurd hip hne) ?_
  intro hfalse
  exact absurd (hh3.symm.trans hfalse) Bool.noConfusion

/-- **Registering a connection keeps the invariant**: the slot of a new address is free. -/
theorem establish (hroom : s.nSessions < s.maxClients) {off : ℕ} {pool : AddrPool}
    (halloc : s.pool.alloc = some (off, pool)) (hscope : c'.txScope = c.txScope)
    (haddr : c'.assignedIp = pool.addr off) (htunnel : c'.tunnelEstablished = true)
    (howner : c'.owner = some c'.masqueStreamId) (hh3 : c'.h3 = true) :
    SvrInv ((Server.setConn { s with pool := pool } id c').register id (pool.addr off)) := by
  obtain ⟨hlo, hhi, hfree, hwf, hbase, hsize, -, hused⟩ := AddrPool.alloc_spec h.pool halloc
  have hmax : off ≤ addrPoolMax := hhi.trans h.pool.size
  have hoff := (hwf.offset_addr (hhi.trans_eq hsize.symm)).2
  have heq : (Server.setConn { s with pool := pool } id c').register id (pool.addr off) =
      Server.setConn { s with
        sessions := s.sessions.set off (some id)
        nSessions := s.nSessions + 1
        pool := pool } id c' := by
    unfold Server.register
    change (if 0 < (pool.addr off - pool.base).toNat ∧
      (pool.addr off - pool.base).toNat ≤ addrPoolMax then _ else _) = _
    rw [hoff, if_pos ⟨by omega, hmax⟩]
    change Server.setConn { s with
      sessions := s.sessions.set (pool.addr off - pool.base).toNat (some id)
      nSessions := s.nSessions + 1
      pool := pool } id c' = _
    rw [hoff]
  have hempty : Slots.entry s.sessions off = none := by
    have := h.used off
    rw [hfree] at this
    exact Option.isNone_iff_eq_none.mp (Option.isSome_eq_false_iff.mp this.symm)
  have haddr' : c'.assignedIp = s.pool.addr off := by
    rw [haddr, AddrPool.addr, AddrPool.addr, hbase]
  have hne : c'.assignedIp ≠ 0 := by
    rw [haddr']
    exact h.pool.addr_ne_zero (by omega) hhi
  rw [heq]
  refine h.setSlot hc hlo hhi ?_ (fun off' hoff' => absurd hoff' (h.no_slot hc hip off'))
    (.inr ⟨rfl, haddr'⟩) hwf hbase hsize hused hscope (iff_of_true htunnel hne) (fun _ => howner)
    hh3 ?_ (by omega)
  · intro id' hid'
    rw [hempty] at hid'
    cases hid'
  · rw [Slots.occupied_fill (h.lt_length hhi) hempty, h.count]
    push_cast
    rfl

theorem responded (hh3 : c.h3 = true) (hs' : Responded s id c sid s') : SvrInv s' := by
  cases hs' with
  | kept => exact h
  | exhausted =>
    exact h.setConn hc rfl rfl rfl rfl (fun hne => absurd hip hne) (fun hf => ⟨hf, rfl⟩)
  | undone off pool hasV6 ip6 halloc => exact h.failReleaseIp hc hip halloc rfl rfl rfl rfl hh3
  | up off pool halloc hroom =>
    obtain ⟨hasV6, ip6, htwin⟩ := SvrConn.withTwin_eq
      { c with masqueStreamId := sid, assignedIp := pool.addr off } pool
    rw [htwin]
    exact h.establish hc hip hroom halloc rfl rfl rfl rfl hh3

/-! ### The callbacks -/

/-- A context without a session may go. -/
theorem free : SvrInv (svrConnFree s id) := by
  have hscope := h.scopes.scope id c hc
  have hpos : c.txScope ≠ 0 := by
    have := (h.scopes.issued id).mp (.inl (by rw [hc]; rfl))
    omega
  unfold svrConnFree
  rw [hc]
  simp only
  rw [if_pos hpos, hscope]
  refine { h with
    slot := fun off id' hslot => ?_
    conn := fun id' c₀ hc₀ => ?_
    scopes := h.scopes.free hc }
  · obtain ⟨hlo, hhi, c₀, hc₀, haddr⟩ := h.slot off id' hslot
    have hne : id' ≠ id := fun heq => h.no_slot hc hip off (heq ▸ hslot)
    exact ⟨hlo, hhi, c₀, (update_of_ne hne ..).trans hc₀, haddr⟩
  · change update s.conns id none id' = some c₀ at hc₀
    by_cases hid : id' = id
    · rw [hid, update_self] at hc₀
      cases hc₀
    · rw [update_of_ne hid] at hc₀
      exact { h.conn id' c₀ hc₀ with }

end

/-- A context gives one of its streams a role. -/
theorem setStream (hh3 : c.h3 = true) (role : Option Role) :
    SvrInv (s.setConn id (c.setStream sid role)) := by
  refine h.setConn hc rfl rfl rfl rfl (fun _ => rfl) fun hfalse => ?_
  exact absurd (hh3.symm.trans hfalse) Bool.noConfusion

/-- A connection with an open stream got to H3. -/
theorem h3_of_stream (hsid : c.streams sid ≠ none) : c.h3 = true := by
  rw [← Bool.not_eq_false]
  exact fun hfalse => hsid (((h.conn id c hc).early hfalse).2 sid)

/-- A connection without a tunnel has one asked for. -/
theorem onRequest (hh3 : c.h3 = true) (hdrs : ReqHeaders) (env : ResponseEnv) :
    SvrInv (svrConnectIpOnRequest s id sid hdrs env).server := by
  obtain ⟨sent, -, heq⟩ | ⟨-, heq⟩ := svrConnectIpOnRequest_cases hc sid hdrs env
  · rw [heq]
    exact h
  have hc' := svrSessionRelease_conn hc
  have hip := c.withoutSession_assignedIp
  have hh3' := c.withoutSession_h3.trans hh3
  obtain ⟨tx, rx, hinit⟩ :=
    svrConnReorderEnginesInit_session s.reorder env.engines c.withoutSession
  rw [heq, SvrConn.asking, hinit]
  have hkeep : SvrInv ((svrSessionRelease s id).setConn id { c.withoutSession with
      reorderTx := tx, reorderRx := rx, peerReorderSupported := hdrs.hasReorderHdr }) :=
    (h.release hc).setConn hc' rfl rfl rfl rfl (fun _ => rfl) (fun hf => ⟨hf, rfl⟩)
  exact hkeep.responded (setConn_conns_self ..) hip hh3' (svrMasqueSendResponse_cases ..).1

end SvrInv

end Conn

theorem SvrInv.read {hdrs : ReqHeaders} {env : ResponseEnv} {r : Handled}
    (hread : Reading s id sid hdrs env r) : SvrInv r.server := by
  cases hread with
  | kept hserver => exact hserver ▸ h
  | routed c role hc hopen hserver => exact hserver ▸ h.setStream hc (h.h3_of_stream hc hopen) _
  | asked c hc hopen hip hdown hr =>
    have hh3 := h.h3_of_stream hc hopen
    rw [hr]
    exact (h.setStream hc hh3 _).onRequest (setConn_conns_self ..) hh3 hdrs env

/-- **Every callback keeps the invariant.** -/
theorem SvrInv.step (op : SvrOp) : SvrInv (s.step op) := by
  have hchange := step_change s op
  generalize s.step op = s' at hchange ⊢
  cases hchange with
  | kept => exact h
  | accepted => exact h.accept
  | refused id c hc hh3 => exact h.free hc ((h.conn id c hc).early hh3).1
  | created id env c hc =>
    obtain ⟨tx, rx, heq⟩ := svrConnReorderEnginesInit_session s.reorder env { c with h3 := true }
    rw [heq]
    exact h.setConn hc rfl rfl rfl rfl (fun _ => rfl) nofun
  | closed id c hc =>
    exact (h.release hc).free (svrSessionRelease_conn hc) c.withoutSession_assignedIp
  | opened id sid allocOk c hc hh3 =>
    refine h.setConn hc rfl rfl rfl rfl (fun _ => rfl) fun hfalse => ?_
    exact absurd (hh3.symm.trans hfalse) Bool.noConfusion
  | read id sid hdrs env r hread => exact h.read hread
  | ended id sid c hc hopen =>
    exact (h.release hc).setStream (svrSessionRelease_conn hc)
      (c.withoutSession_h3.trans (h.h3_of_stream hc hopen)) _
  | left id sid c hc hopen => exact h.setStream hc (h.h3_of_stream hc hopen) _
  | added | removed => exact h.setAuth _

theorem SvrInv.run (ops : List SvrOp) : SvrInv (s.run ops) :=
  Run.exec_inv Server.step (fun _ op hs => hs.step op) ops s h

end Inv

theorem SvrInv.new {cfg : ServerConfig} (hnew : Server.new cfg = some s) : SvrInv s := by
  obtain ⟨pool, hpool, rfl⟩ := Option.map_eq_some_iff.mp hnew
  obtain ⟨hwf, hunused⟩ := AddrPool.create_spec hpool
  have hempty : ∀ off, Slots.entry (replicate (addrPoolMax + 1) (none : Option ConnId)) off =
    none := Slots.entry_replicate _
  have hnone : ∀ (id : ConnId) (c : SvrConn), (none : Option SvrConn) ≠ some c :=
    fun _ c => (Option.some_ne_none c).symm
  refine ⟨hwf, length_replicate .., ?_, ?_, fun id c hc => absurd hc (hnone id c), ?_, ?_,
    ⟨fun id c hc => absurd hc (hnone id c), ?_, fun _ _ => rfl, nodup_nil⟩⟩
  · intro off id hslot
    rw [hempty] at hslot
    cases hslot
  · intro off
    rw [hunused, hempty]
    rfl
  · rw [Slots.occupied_replicate]
    rfl
  · show (0 : ℤ) ≤ if 0 < cfg.maxClients then cfg.maxClients else 64
    split <;> omega
  · intro id
    simp only [Option.isSome_none, Bool.false_eq_true, not_mem_nil, or_self, false_iff]
    omega

/-! ### Sessions and scopes -/

/-- What a session table owes its server. -/
structure SessionsOk (s : Server) : Prop where
  /-- A slot is occupied exactly when its offset is out. -/
  occupied : ∀ off, (Slots.entry s.sessions off).isSome = true ↔ s.pool.isUsed off = true
  /-- The connection of a slot holds the address of the slot. -/
  address : ∀ off id, Slots.entry s.sessions off = some id →
    ∃ c, s.conns id = some c ∧ c.assignedIp = s.pool.base + UInt32.ofNat off ∧
      c.assignedIp.toNat = s.pool.base.toNat + off
  single : ∀ off off' id, Slots.entry s.sessions off = some id →
    Slots.entry s.sessions off' = some id → off = off'
  /-- A connection with an address has its slot. -/
  held : ∀ id c, s.conns id = some c → c.assignedIp ≠ 0 →
    ∃ off, Slots.entry s.sessions off = some id
  count : s.nSessions = Slots.occupied s.sessions
  bound : s.nSessions ≤ s.maxClients
  /-- The scopes released are those of the connections that are gone, each once. -/
  released : ∀ id, id ∈ s.released ↔ (0 < id ∧ id ≤ s.nextTxScope) ∧ s.conns id = none
  once : s.released.Nodup

theorem SvrInv.sessionsOk (h : SvrInv s) : SessionsOk s where
  occupied := fun off => by rw [h.used off]
  address := by
    intro off id hslot
    obtain ⟨-, hhi, c, hc, haddr⟩ := h.slot off id hslot
    refine ⟨c, hc, haddr, ?_⟩
    rw [haddr]
    exact h.pool.toNat_addr hhi
  single := fun off off' id => h.slot_inj
  held := fun id c hc => (h.conn id c hc).held
  count := h.count
  bound := h.bound
  released := by
    intro id
    rw [← h.scopes.issued id]
    refine ⟨fun hmem => ⟨.inr hmem, h.scopes.gone id hmem⟩, ?_⟩
    rintro ⟨hsome | hmem, hnone⟩
    · rw [hnone] at hsome
      cases hsome
    · exact hmem
  once := h.scopes.once

/-- **Sessions, pool, count and scopes agree after every run**, whatever fails in it. -/
theorem sessions_ok_run {cfg : ServerConfig} {s : Server} (hnew : Server.new cfg = some s)
    (ops : List SvrOp) : SessionsOk (s.run ops) :=
  ((SvrInv.new hnew).run ops).sessionsOk

/-! A server of two addresses, and requests it meets. -/

/-- `10.0.0.0/30` for one client. -/
def smallServer : ServerConfig where
  reorder := Config.default
  maxClients := 1
  auth := { authKey := [], users := [] }
  hybridEnabled := false
  h2Proxy := false
  base := 0x0a000000
  prefixLen := 30
  subnet6 := none

/-- A well-formed CONNECT-IP request. -/
def goodRequest : ReqHeaders where
  isConnect := true
  isConnectIp := true
  isConnectTcp := false
  hasSchemeHttps := true
  hasValidPath := true
  hasCapsuleProto := true
  hasReorderHdr := false
  authToken := none

/-- A response whose sends succeed. -/
def allSent : ResponseEnv where
  headers := true
  assign4 := true
  assign6 := true
  route4 := true
  route6 := true
  engines := { seed := 0, tx := true, rx := true }

/-- A first connection gets the session and a second one is refused; the first closes its
stream, the second fails in the middle of a response, then succeeds; the first one closes. -/
def handover : List SvrOp :=
  [.accept true, .h3ConnCreate 1 allSent.engines, .requestCreate 1 0 true,
    .requestRead 1 0 goodRequest allSent, .accept true, .h3ConnCreate 2 allSent.engines,
    .requestCreate 2 0 true, .requestRead 2 0 goodRequest allSent, .requestClose 1 0,
    .requestCreate 2 4 true, .requestRead 2 4 goodRequest { allSent with route4 := false },
    .requestCreate 2 8 true, .requestRead 2 8 goodRequest allSent, .h3ConnClose 1]

theorem sessions_ok_handover : ∃ s, Server.new smallServer = some s ∧
    SessionsOk (s.run handover) ∧ (s.run handover).nSessions = 1 ∧
    Slots.entry (s.run handover).sessions 2 = some 2 ∧ (s.run handover).released = [1] :=
  ⟨_, rfl, @sessions_ok_run smallServer _ rfl handover, by decide +kernel, by decide +kernel,
    by decide +kernel⟩

end Mqvpn.Svr
