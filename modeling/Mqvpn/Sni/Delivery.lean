import Mqvpn.Sni.Router

/-!
# The router offers every datagram once

Every datagram that arrives is in exactly one place: it waits in the entry of its peer, it was
offered to one side, or its entry could not be allocated.  While a datagram is being processed
it is in the hand of the router; whatever the router does is one of a few moves, and each keeps
the books (`Books`).

## Main definitions

* `Books` — what holds between any two moves.
* `OfferSpec`, `Update` — what an offer does; what may happen to an entry in one piece.

## Main results

* `Books.step` — every operation keeps the books.
* `router_delivers` — the contract of the router.
-/

namespace Mqvpn.Sni

open List

/-! ### Offers -/

def Offer.packet (o : Offer) : Packet := ⟨o.num, o.bytes⟩

/-- The numbers of the datagrams of a peer that were offered, in the order of the offers. -/
def offersTo (offers : List Offer) (peer : Peer) : List ℕ :=
  (offers.filter fun o => decide (o.peer = peer)).map Offer.num

theorem Side.decision_injective {s s' : Side} (h : s.decision = s'.decision) : s = s' := by
  cases s <;> cases s' <;> first | rfl | cases h

theorem Side.decision_ne_pending (s : Side) : s.decision ≠ .pending := by
  cases s <;> exact fun h => by cases h

/-- The datagrams `ps` were offered through the entry `c`, in their order, to the side it is
decided for; only the socket of the entry may have changed. -/
structure OfferSpec (c : Conn) (ps : List Packet) (o : Offered) : Prop where
  packets : o.offers.map Offer.packet = ps
  through : ∀ x ∈ o.offers, x.peer = c.peer ∧ x.entry = some c.id ∧ x.side.decision = c.decision
  conn : ∃ fd sent, o.conn = { c with fallbackFd := fd, fallbackProxySent := sent }
  accepted : c.decision = .accept → o.conn = c

theorem fallbackWrite_spec (cfg : Config) {c : Conn} (p : Packet) (sent : Bool)
    (hc : c.decision = .fallback) : OfferSpec c [p] (fallbackWrite cfg c p sent) := by
  have haccept : ¬ c.decision = .accept := by rw [hc]; exact fun h => by cases h
  unfold fallbackWrite
  dsimp only
  repeat' split
  all_goals exact ⟨rfl, by simp [hc, Side.decision], ⟨_, _, rfl⟩, fun h => absurd h haccept⟩

theorem fallbackSend_spec (cfg : Config) {c : Conn} (p : Packet) (a : FallbackAnswer)
    (hc : c.decision = .fallback) : OfferSpec c [p] (fallbackSend cfg c p a) := by
  have haccept : ¬ c.decision = .accept := by rw [hc]; exact fun h => by cases h
  unfold fallbackSend
  split
  · exact fallbackWrite_spec cfg p a.sent hc
  · split
    · exact ⟨rfl, by simp [hc, Side.decision], ⟨_, _, rfl⟩, fun h => absurd h haccept⟩
    · next fd _ =>
      obtain ⟨hpackets, hthrough, ⟨fd', sent, hconn⟩, -⟩ :=
        fallbackWrite_spec cfg (c := { c with fallbackFd := some fd }) p a.sent hc
      exact ⟨hpackets, hthrough, ⟨fd', sent, hconn⟩, fun h => absurd h haccept⟩

theorem offerOne_spec (cfg : Config) (env : Env) {c : Conn} (p : Packet)
    (hc : c.decision ≠ .pending) : OfferSpec c [p] (offerOne cfg env c p) := by
  unfold offerOne
  split
  · next h => exact ⟨rfl, by simp [h, Side.decision], ⟨_, _, rfl⟩, fun _ => rfl⟩
  · next h =>
    have hfallback : c.decision = .fallback := by
      cases hd : c.decision with
      | pending => exact absurd hd hc
      | accept => exact absurd hd h
      | fallback => rfl
    exact fallbackSend_spec cfg p _ hfallback

theorem OfferSpec.append {c : Conn} {ps qs : List Packet} {o o' : Offered} {ok : Bool}
    (h : OfferSpec c ps o) (h' : OfferSpec o.conn qs o') :
    OfferSpec c (ps ++ qs) ⟨o'.conn, o.offers ++ o'.offers, ok⟩ := by
  obtain ⟨fd, sent, hconn⟩ := h.conn
  obtain ⟨fd', sent', hconn'⟩ := h'.conn
  refine ⟨?_, ?_, ⟨fd', sent', ?_⟩, fun hacc => ?_⟩
  · rw [map_append, h.packets, h'.packets]
  · intro x hx
    rcases mem_append.mp hx with hx | hx
    · exact h.through x hx
    · have := h'.through x hx
      rwa [hconn] at this
  · dsimp only
    rw [hconn', hconn]
  · have hsame := h.accepted hacc
    show o'.conn = c
    rw [h'.accepted (by rw [hsame]; exact hacc), hsame]

theorem offerAll_spec (cfg : Config) (env : Env) : ∀ (ps : List Packet) {c : Conn},
    c.decision ≠ .pending → OfferSpec c ps (offerAll cfg env c ps) := by
  intro ps
  induction ps with
  | nil =>
    intro c _
    exact ⟨rfl, fun x hx => absurd hx not_mem_nil, ⟨_, _, rfl⟩, fun _ => rfl⟩
  | cons p ps ih =>
    intro c hc
    have hone := offerOne_spec cfg env p hc
    obtain ⟨fd, sent, hconn⟩ := hone.conn
    exact hone.append (ih (by rw [hconn]; exact hc))

/-- What `deliverPending` does: everything that waits is offered. -/
structure DeliverSpec (c : Conn) (o : Offered) : Prop where
  packets : o.offers.map Offer.packet = c.pending
  through : ∀ x ∈ o.offers, x.peer = c.peer ∧ x.entry = some c.id ∧ x.side.decision = c.decision
  conn : ∃ fd sent crypto, o.conn =
    { c with pending := [], fallbackFd := fd, fallbackProxySent := sent, crypto }
  accepted : c.decision = .accept → o.conn.fallbackFd = c.fallbackFd

theorem deliverPending_spec (cfg : Config) (env : Env) {c : Conn} (hc : c.decision ≠ .pending) :
    DeliverSpec c (deliverPending cfg env c) := by
  have h := offerAll_spec cfg env c.pending hc
  obtain ⟨fd, sent, hconn⟩ := h.conn
  refine ⟨h.packets, h.through, ⟨fd, sent, { contiguous := c.crypto.contiguous }, ?_⟩,
    fun hacc => ?_⟩
  · rw [deliverPending, hconn]
  · rw [deliverPending, h.accepted hacc]

theorem Router.log_nil (r : Router) : r.log [] = r := by
  rw [Router.log, append_nil]

/-! ### The books -/

/-- The id an entry has learned is the first one the fallback server supplied. -/
def Conn.Learned (A : Aead) (c : Conn) : Prop := c.serverScid = (c.supplied A).head?

/-- What holds between any two moves, while the router holds the datagrams `hand` of `peer`. -/
structure Books (A : Aead) (conf : Config) (peer : Peer) (hand : List Packet)
    (r : Router) : Prop where
  cfg : r.cfg = conf
  room : 0 < r.cfg.maxTrackedConns
  wf : Chained.WF Conn.peer r.cfg.bucketOf r.buckets
  count : r.connCount = r.conns.length
  cap : r.connCount ≤ r.cfg.maxTrackedConns
  /-- Nothing waits in an entry that is decided. -/
  idle : ∀ c ∈ r.conns, c.decision ≠ .pending → c.pending = []
  /-- Only the fallback has a socket. -/
  socket : ∀ c ∈ r.conns, c.fallbackFd ≠ none → c.decision = .fallback
  /-- Every datagram is in one place. -/
  places : (r.offers.map Offer.num ++ (r.conns.flatMap Conn.pending).map Packet.num ++ r.lost ++
    hand.map Packet.num).Perm (List.range r.arrived.length)
  offered : ∀ o ∈ r.offers, r.arrived[o.num]? = some (o.peer, o.bytes)
  parked : ∀ c ∈ r.conns, ∀ p ∈ c.pending, r.arrived[p.num]? = some (c.peer, p.bytes)
  held : ∀ p ∈ hand, p.num + 1 = r.arrived.length ∧ r.arrived[p.num]? = some (peer, p.bytes)
  /-- The offers of a peer are in the order of arrival, and what waits comes after them. -/
  sorted : ∀ peer, (offersTo r.offers peer).Pairwise (· < ·)
  behind : ∀ c ∈ r.conns,
    (offersTo r.offers c.peer ++ c.pending.map Packet.num).Pairwise (· < ·)
  ids : (r.conns.map Conn.id).Nodup
  bornConns : ∀ c ∈ r.conns, c.id < r.born
  bornOffers : ∀ o ∈ r.offers, ∀ id, o.entry = some id → id < r.born
  /-- An entry offers to one side only, the one it is decided for. -/
  sides : ∀ o ∈ r.offers, ∀ o' ∈ r.offers, o.entry ≠ none → o.entry = o'.entry → o.side = o'.side
  decided : ∀ c ∈ r.conns, ∀ o ∈ r.offers, o.entry = some c.id → o.side.decision = c.decision
  learned : ∀ c ∈ r.conns, c.Learned A

variable {A : Aead} {conf : Config} {peer : Peer} {hand : List Packet} {r : Router} {c : Conn}

section
variable (h : Books A conf peer hand r)
include h

/-- Whatever was offered or waits came before what is in the hand. -/
theorem Books.lt_hand {p : Packet} (hp : p ∈ hand) {n : ℕ}
    (hn : n ∈ r.offers.map Offer.num ++ (r.conns.flatMap Conn.pending).map Packet.num) :
    n < p.num := by
  have hnodup := h.places.nodup_iff.mpr nodup_range
  have hmem : n ∈ range r.arrived.length :=
    h.places.subset (mem_append_left _ (mem_append_left _ hn))
  have hlt := mem_range.mp hmem
  have hnum := (h.held p hp).1
  have hne : n ≠ p.num := by
    intro heq
    have hdisj := (nodup_append.mp hnodup).2.2
    exact hdisj n (mem_append_left _ hn) p.num (mem_map_of_mem hp) heq
  omega

end

theorem mem_offersTo {offers : List Offer} {n : ℕ} (hn : n ∈ offersTo offers peer) :
    n ∈ offers.map Offer.num := by
  obtain ⟨o, ho, rfl⟩ := mem_map.mp hn
  exact mem_map_of_mem (mem_filter.mp ho).1

theorem mem_pending_num (hc : c ∈ r.conns) {n : ℕ} (hn : n ∈ c.pending.map Packet.num) :
    n ∈ (r.conns.flatMap Conn.pending).map Packet.num := by
  obtain ⟨p, hp, rfl⟩ := mem_map.mp hn
  exact mem_map_of_mem (mem_flatMap.mpr ⟨c, hc, hp⟩)

/-- The offers of a peer, what waits in its entry and what is taken from the hand stand in the
order of arrival. -/
theorem Books.lined (h : Books A conf peer hand r) (hc : c ∈ r.conns) {taken rest : List Packet}
    (hhand : hand = taken ++ rest) (hlen : hand.length ≤ 1) :
    (offersTo r.offers c.peer ++ (c.pending ++ taken).map Packet.num).Pairwise (· < ·) := by
  rw [map_append, ← append_assoc, pairwise_append]
  refine ⟨h.behind c hc, ?_, ?_⟩
  · have hone : taken.length ≤ 1 := by
      rw [hhand, length_append] at hlen
      omega
    match taken, hone with
    | [], _ => exact List.Pairwise.nil
    | [p], _ => exact pairwise_singleton _ _
  · intro n hn m hm
    obtain ⟨p, hp, rfl⟩ := mem_map.mp hm
    refine h.lt_hand (p := p) (by rw [hhand]; exact mem_append_left _ hp) ?_
    rcases mem_append.mp hn with hn | hn
    · exact mem_append_left _ (mem_offersTo hn)
    · exact mem_append_right _ (mem_pending_num hc hn)

/-! ### An entry is written -/

/-- What may happen to an entry in one piece: of what waits in it and what is taken from the
hand, the first part is offered and the rest waits. -/
structure Update (A : Aead) (c : Conn) (taken : List Packet) (c' : Conn)
    (os : List Offer) : Prop where
  peer : c'.peer = c.peer
  id : c'.id = c.id
  flow : os.map Offer.packet ++ c'.pending = c.pending ++ taken
  through : ∀ o ∈ os, o.peer = c.peer ∧ o.entry = some c.id ∧ o.side.decision = c'.decision
  idle : c'.decision ≠ .pending → c'.pending = []
  keeps : c.decision ≠ .pending → c'.decision = c.decision
  socket : c'.fallbackFd ≠ none → c'.decision = .fallback
  learned : c.Learned A → c'.Learned A

theorem offersTo_append (os os' : List Offer) (peer : Peer) :
    offersTo (os ++ os') peer = offersTo os peer ++ offersTo os' peer := by
  simp [offersTo]

theorem offersTo_of_all {os : List Offer} (h : ∀ o ∈ os, o.peer = peer) :
    offersTo os peer = os.map Offer.num := by
  rw [offersTo, filter_eq_self.mpr]
  intro o ho
  simpa using h o ho

theorem offersTo_of_none {os : List Offer} (h : ∀ o ∈ os, o.peer ≠ peer) :
    offersTo os peer = [] := by
  rw [offersTo, filter_eq_nil_iff.mpr, map_nil]
  intro o ho
  simpa using h o ho

theorem map_num_packet (os : List Offer) :
    (os.map Offer.packet).map Packet.num = os.map Offer.num := by
  rw [map_map]; rfl

section
variable (h : Books A conf peer hand r)
include h

/-- **What all moves have in common.**  Datagrams of one peer are offered through the entry `entry`,
to the side of `dec`; the entry of the peer is written, comes or goes, and the others stay. -/
theorem Books.exchange (old new : Option Conn) (peer' : Peer) (entry : Option ℕ) (dec : Decision)
    (os : List Offer) (taken : List Packet) {rest : List Packet} {others : List Conn} {r' : Router}
    (hold : r.conns.Perm (old.toList ++ others)) (hnew : r'.conns.Perm (new.toList ++ others))
    (hsame : r'.cfg = r.cfg ∧ r'.arrived = r.arrived ∧ r'.lost = r.lost ∧
      r'.offers = r.offers ++ os ∧ r.born ≤ r'.born)
    (hwf : Chained.WF Conn.peer r'.cfg.bucketOf r'.buckets)
    (hcount : r'.connCount = r'.conns.length ∧ r'.connCount ≤ r'.cfg.maxTrackedConns)
    (hids : (r'.conns.map Conn.id).Nodup) (hhand : hand = taken ++ rest)
    (hflow : os.map Offer.packet ++ new.toList.flatMap Conn.pending =
      old.toList.flatMap Conn.pending ++ taken)
    (hlined : (offersTo r.offers peer' ++
      (old.toList.flatMap Conn.pending ++ taken).map Packet.num).Pairwise (· < ·))
    (hfrom : ∀ p ∈ old.toList.flatMap Conn.pending ++ taken,
      r.arrived[p.num]? = some (peer', p.bytes))
    (hos : ∀ o ∈ os, o.peer = peer' ∧ o.entry = entry ∧ o.side.decision = dec)
    (hentry : ∀ id, entry = some id → id < r'.born)
    (hbefore : ∀ o ∈ r.offers, o.entry ≠ none → o.entry = entry → o.side.decision = dec)
    (hothers : ∀ d ∈ others, d.peer ≠ peer' ∧ entry ≠ some d.id)
    (hwritten : ∀ c ∈ new.toList, c.peer = peer' ∧ entry = some c.id ∧
      c.decision = dec ∧ (c.decision ≠ .pending → c.pending = []) ∧
      (c.fallbackFd ≠ none → c.decision = .fallback) ∧ c.Learned A) :
    Books A conf peer rest r' := by
  obtain ⟨hcfg, harr, hlost, hoffers, hborn⟩ := hsame
  have hmem : ∀ d ∈ others, d ∈ r.conns := fun d hd =>
    hold.symm.subset (mem_append_right _ hd)
  -- a property of the entries: of the one that is written, and of the others
  have hall : ∀ {P : Conn → Prop}, (∀ c ∈ new.toList, P c) → (∀ d ∈ others, P d) →
      ∀ d ∈ r'.conns, P d := fun hP hrest d hd =>
    forall_mem_append.2 ⟨hP, hrest⟩ d (hnew.subset hd)
  have hto : offersTo r'.offers peer' = offersTo r.offers peer' ++ os.map Offer.num := by
    rw [hoffers, offersTo_append, offersTo_of_all fun o ho => (hos o ho).1]
  have hto' : ∀ q, q ≠ peer' → offersTo r'.offers q = offersTo r.offers q := fun q hne => by
    rw [hoffers, offersTo_append,
      offersTo_of_none fun o ho heq => hne (heq.symm.trans (hos o ho).1), append_nil]
  rw [← hflow, map_append, map_num_packet, ← append_assoc, ← hto] at hlined
  rw [← hflow, forall_mem_append] at hfrom
  refine
    { cfg := hcfg.trans h.cfg, room := hcfg ▸ h.room, wf := hwf, count := hcount.1, cap := hcount.2
      idle := hall (fun c hc => (hwritten c hc).2.2.2.1) fun d hd => h.idle d (hmem d hd)
      socket := hall (fun c hc => (hwritten c hc).2.2.2.2.1) fun d hd => h.socket d (hmem d hd)
      places := ?_, offered := ?_
      parked := hall (fun c hc p hp => ?_) fun d hd => harr ▸ h.parked d (hmem d hd)
      held := fun p hp => harr ▸ h.held p (hhand ▸ mem_append_right _ hp)
      sorted := fun q => ?_, behind := hall (fun c hc => ?_) fun d hd => ?_
      ids := hids
      bornConns := hall (fun c hc => hentry _ (hwritten c hc).2.1) fun d hd =>
        Nat.lt_of_lt_of_le (h.bornConns d (hmem d hd)) hborn
      bornOffers := ?_, sides := ?_
      decided := hall (fun c hc => ?_) fun d hd => ?_
      learned := hall (fun c hc => (hwritten c hc).2.2.2.2.2) fun d hd => h.learned d (hmem d hd) }
  · -- the datagrams of the entry and of the hand are the same ones in other places
    refine (perm_iff_count.2 fun n => ?_).trans (harr ▸ h.places)
    have h1 := ((hnew.flatMap_right Conn.pending).map Packet.num).count_eq n
    have h2 := ((hold.flatMap_right Conn.pending).map Packet.num).count_eq n
    have h3 := congrArg (fun l => List.count n (l.map Packet.num)) hflow
    rw [hoffers, hlost, hhand]
    simp only [flatMap_append, map_append, count_append, map_num_packet]
      at h1 h2 h3 ⊢
    omega
  · rw [hoffers, forall_mem_append, harr]
    refine ⟨h.offered, fun o ho => ?_⟩
    rw [(hos o ho).1]
    exact hfrom.1 o.packet (mem_map_of_mem ho)
  · rw [harr, (hwritten c hc).1]
    exact hfrom.2 p (mem_flatMap_of_mem hc hp)
  · by_cases hq : q = peer'
    · rw [hq]
      exact (pairwise_append.1 hlined).1
    · rw [hto' q hq]
      exact h.sorted q
  · obtain rfl := Option.mem_toList.1 hc
    rw [(hwritten c hc).1]
    simpa using hlined
  · rw [hto' d.peer (hothers d hd).1]
    exact h.behind d (hmem d hd)
  · rw [hoffers, forall_mem_append]
    exact ⟨fun o ho id hid => Nat.lt_of_lt_of_le (h.bornOffers o ho id hid) hborn,
      fun o ho id hid => hentry id ((hos o ho).2.1.symm.trans hid)⟩
  · rw [hoffers]
    simp only [forall_mem_append]
    refine ⟨fun o ho => ⟨h.sides o ho, fun o' ho' hne heq => ?_⟩,
      fun o ho => ⟨fun o' ho' hne heq => ?_, fun o' ho' _ _ => ?_⟩⟩ <;>
        apply Side.decision_injective
    · rw [(hos o' ho').2.2, hbefore o ho hne (heq.trans (hos o' ho').2.1)]
    · rw [(hos o ho).2.2, hbefore o' ho' (heq ▸ hne) (heq.symm.trans (hos o ho).2.1)]
    · rw [(hos o ho).2.2, (hos o' ho').2.2]
  · obtain ⟨-, hid, hdec, -⟩ := hwritten c hc
    rw [hoffers, forall_mem_append, hdec, ← hid]
    exact ⟨fun o ho heq => hbefore o ho (by rw [heq, hid]; exact Option.some_ne_none _) heq,
      fun o ho _ => (hos o ho).2.2⟩
  · rw [hoffers, forall_mem_append]
    exact ⟨h.decided d (hmem d hd), fun o ho heq =>
      absurd ((hos o ho).2.1.symm.trans heq) (hothers d hd).2⟩

/-- The entries beside one of the table are of other peers and have other ids. -/
theorem Books.others (hc : c ∈ r.conns) :
    ∀ d ∈ Chained.entries (Chained.erase Conn.peer c.peer r.buckets),
      d.peer ≠ c.peer ∧ some c.id ≠ some d.id := by
  intro d hd
  obtain ⟨hmem, hne⟩ := Chained.mem_entries_erase.1 hd
  refine ⟨hne, fun heq => hne ?_⟩
  exact congrArg Conn.peer (inj_on_of_nodup_map h.ids hmem hc (Option.some.inj heq).symm)

/-- **The main move**: an entry is written, and some datagrams are offered through it. -/
theorem Books.update (hc : c ∈ r.conns) {c' : Conn} {os : List Offer} {taken rest : List Packet}
    (hhand : hand = taken ++ rest) (hlen : hand.length ≤ 1) (hpeer : taken ≠ [] → c.peer = peer)
    (u : Update A c taken c' os) : Books A conf peer rest ((r.log os).setConn c') := by
  have hold := Chained.perm_cons_erase h.wf hc
  have hnew : ((r.log os).setConn c').conns.Perm
      (c' :: Chained.entries (Chained.erase Conn.peer c.peer r.buckets)) :=
    Chained.perm_assign h.wf hc u.peer
  refine h.exchange (some c) (some c') c.peer (some c.id) c'.decision os taken hold hnew
    ⟨rfl, rfl, rfl, rfl, Nat.le_refl _⟩ (Chained.wf_assign h.wf c')
    ⟨h.count.trans (hold.length_eq.trans hnew.length_eq.symm), h.cap⟩ ?_ hhand
    (by simpa using u.flow)
    (by simpa using h.lined hc hhand hlen) ?_ u.through ?_ (fun o ho _ hentry => ?_)
    (h.others hc) ?_
  · refine ((hnew.map Conn.id).nodup_iff).2 ?_
    have hids := ((hold.map Conn.id).nodup_iff).1 h.ids
    rw [map_cons] at hids ⊢
    rwa [u.id]
  · rw [forall_mem_append]
    refine ⟨by simpa using h.parked c hc, fun p hp => ?_⟩
    rw [hpeer (ne_nil_of_mem hp)]
    exact (h.held p (hhand ▸ mem_append_left _ hp)).2
  · rintro _ ⟨⟩
    exact h.bornConns c hc
  · -- an offer of before through the entry means that it was decided
    have hd := h.decided c hc o ho hentry
    rw [u.keeps (by rw [← hd]; exact o.side.decision_ne_pending), hd]
  · simpa [u.id] using ⟨u.peer, u.idle, u.socket, u.learned (h.learned c hc)⟩

/-! ### The other moves -/

/-- An entry that holds nothing is taken out. -/
theorem Books.remove (hc : c ∈ r.conns) (hempty : c.pending = []) :
    Books A conf peer hand (r.removeConn c) := by
  have hold := Chained.perm_cons_erase h.wf hc
  have hcount : r.connCount = (r.removeConn c).conns.length + 1 := h.count.trans hold.length_eq
  have hcap := h.cap
  refine h.exchange (some c) none c.peer (some c.id) c.decision [] [] hold (.refl _)
    ⟨rfl, rfl, rfl, (append_nil _).symm, Nat.le_refl _⟩ (Chained.wf_erase h.wf c.peer)
    ⟨Nat.sub_eq_of_eq_add hcount, Nat.le_trans (Nat.sub_le _ _) hcap⟩ ?_ rfl
    (by simpa using hempty.symm)
    (by simpa [hempty] using h.sorted c.peer) (by simp [hempty]) (by simp)
    (by rintro _ ⟨⟩; exact h.bornConns c hc) (fun o ho _ => h.decided c hc o ho) (h.others hc)
    (by simp)
  have hids := ((hold.map Conn.id).nodup_iff).1 h.ids
  exact (nodup_cons.1 hids).2

end

/-- The entry as it is when it goes. -/
def Conn.spent (c : Conn) : Conn :=
  { c with decision := if c.decision = .pending then .accept else c.decision, pending := [] }

theorem lastOffers_update (cfg : Config) (env : Env) (h : Books A conf peer hand r)
    (hc : c ∈ r.conns) :
    Update A c [] c.spent (lastOffers cfg env c) := by
  unfold lastOffers Conn.spent
  split
  · next hd =>
    have hspec := deliverPending_spec cfg env (c := { c with decision := .accept })
      (by exact fun h => by cases h)
    refine ⟨rfl, rfl, ?_, hspec.through, fun _ => rfl, fun hne => absurd hd hne, fun hfd => ?_,
      fun hl => hl⟩
    · rw [append_nil, append_nil]
      exact hspec.packets
    · have := h.socket c hc hfd
      rw [hd] at this
      cases this
  · next hd =>
    refine ⟨rfl, rfl, ?_, fun o ho => absurd ho not_mem_nil, fun _ => rfl, fun _ => rfl,
      h.socket c hc, fun hl => hl⟩
    rw [h.idle c hc hd]
    rfl

/-- **An entry goes**: what waits in it is offered before. -/
theorem Books.retire (h : Books A conf peer hand r) (hlen : hand.length ≤ 1) (env : Env)
    (hc : c ∈ r.conns) : Books A conf peer hand (r.retire env c) := by
  have hupdate := h.update hc rfl hlen (fun hne => absurd rfl hne)
    (lastOffers_update r.cfg env h hc)
  have hperm : (Chained.entries (Chained.assign Conn.peer c.spent r.buckets)).Perm
      (c.spent :: Chained.entries (Chained.erase Conn.peer c.peer r.buckets)) :=
    Chained.perm_assign h.wf hc rfl
  have hmem := hperm.symm.subset (mem_cons_self ..)
  have hremove := hupdate.remove hmem rfl
  have heq : ((r.log (lastOffers r.cfg env c)).setConn c.spent).removeConn c.spent =
      r.retire env c := by
    have herase := @Chained.erase_assign _ _ Conn.peer _ c.spent r.buckets
    unfold Router.retire Router.removeConn Router.setConn
    exact congrArg (fun b => { (r.log (lastOffers r.cfg env c)) with
      buckets := b, connCount := r.connCount - 1 }) herase
  rwa [heq] at hremove

/-- A new entry. -/
theorem Books.insert (h : Books A conf peer hand r) (hnew : ∀ d ∈ r.conns, d.peer ≠ c.peer)
    (hroom : r.connCount < r.cfg.maxTrackedConns) (hid : c.id = r.born)
    (hempty : c.pending = []) (hpending : c.decision = .pending) (hfd : c.fallbackFd = none)
    (hlearned : c.Learned A) :
    Books A conf peer hand (r.insert c) ∧ c ∈ (r.insert c).conns := by
  have hperm : (r.insert c).conns.Perm (c :: r.conns) :=
    Chained.perm_insertHead (h.wf.bound c.peer) c
  -- the id of the entry is new
  have hfresh : ∀ d ∈ r.conns, d.id ≠ c.id := fun d hd heq => by
    have := h.bornConns d hd
    omega
  refine ⟨?_, hperm.symm.subset (mem_cons_self ..)⟩
  refine h.exchange none (some c) c.peer (some c.id) c.decision [] [] (.refl _) hperm
    ⟨rfl, rfl, rfl, (append_nil _).symm, Nat.le_succ _⟩ (Chained.wf_insertHead h.wf hnew)
    ⟨?_, hroom⟩ ?_ rfl (by simpa using hempty) (by simpa using h.sorted c.peer) (by simp) (by simp)
    ?_ (fun o ho _ hentry => ?_) (fun d hd => ⟨hnew d hd, fun heq => hfresh d hd ?_⟩)
    (by simp [hempty, hpending, hfd, hlearned])
  · rw [hperm.length_eq, length_cons, ← h.count]
    rfl
  · refine ((hperm.map Conn.id).nodup_iff).2 (nodup_cons.2 ⟨?_, h.ids⟩)
    simpa using hfresh
  · rintro _ ⟨⟩
    exact Nat.lt_succ_of_le hid.le
  · have := h.bornOffers o ho c.id hentry
    omega
  · exact (Option.some.inj heq).symm

/-- A datagram is given to the engine without an entry. -/
theorem Books.acceptDirect {p : Packet} (h : Books A conf peer [p] r) (env : Env)
    (hnone : ∀ d ∈ r.conns, d.peer ≠ peer) :
    Books A conf peer [] (r.acceptDirect env peer p).router := by
  obtain ⟨-, harrived⟩ := h.held p (mem_singleton_self p)
  refine h.exchange none none peer none .accept _ [p] (.refl _) (.refl _)
    ⟨rfl, rfl, rfl, rfl, Nat.le_refl _⟩ h.wf
    ⟨h.count, h.cap⟩ h.ids (append_nil _).symm rfl ?_ (by simpa using harrived)
    (by simp [Side.decision]) (by simp) (fun o _ hne heq => absurd heq hne)
    (fun d hd => ⟨hnone d hd, by simp⟩) (by simp)
  refine pairwise_append.2 ⟨h.sorted peer, pairwise_singleton _ _, ?_⟩
  intro n hn m hm
  obtain rfl := mem_singleton.1 hm
  exact h.lt_hand (mem_singleton_self p) (mem_append_left _ (mem_offersTo hn))

/-- The entry of a datagram could not be allocated. -/
theorem Books.lose {p : Packet} (h : Books A conf peer [p] r) :
    Books A conf peer [] { r with lost := r.lost ++ [p.num] } := by
  refine { h with places := ?_, held := fun q hq => absurd hq not_mem_nil }
  have := h.places
  simpa [Router.conns] using this

theorem Books.arrive {peer' : Peer} (h : Books A conf peer' [] r) (peer : Peer)
    (bytes : List UInt8) :
    Books A conf peer [⟨r.arrived.length, bytes⟩]
      { r with arrived := r.arrived ++ [(peer, bytes)] } := by
  have hkeep : ∀ {n : ℕ} {x : Peer × List UInt8}, r.arrived[n]? = some x →
      (r.arrived ++ [(peer, bytes)])[n]? = some x := by
    intro n x hn
    rw [List.getElem?_append_left (List.getElem?_eq_some_iff.mp hn).1]
    exact hn
  refine { h with
    places := ?_
    offered := fun o ho => hkeep (h.offered o ho)
    parked := fun c hc p hp => hkeep (h.parked c hc p hp)
    held := ?_ }
  · have := h.places
    rw [map_nil, append_nil] at this
    rw [length_append, length_singleton, range_succ]
    exact this.append_right _
  · intro q hq
    obtain rfl := mem_singleton.mp hq
    simp

/-! ### The operations -/

theorem Books.forget (h : Books A conf peer [] r) (peer' : Peer) : Books A conf peer' [] r :=
  { h with held := fun _ hp => absurd hp not_mem_nil }

variable {p : Packet}

/-- The datagram in the hand goes through the entry of its peer. -/
theorem Books.give (h : Books A conf c.peer [p] r) (hc : c ∈ r.conns) {c' : Conn} {os : List Offer}
    (u : Update A c [p] c' os) : Books A conf c.peer [] ((r.log os).setConn c') :=
  h.update hc (append_nil [p]).symm (Nat.le_refl 1) (fun _ => rfl) u

theorem Books.forward (h : Books A conf c.peer [p] r) (env : Env) (hc : c ∈ r.conns)
    (hd : c.decision ≠ .pending) : Books A conf c.peer [] (r.forward env c p).router := by
  have hspec := offerOne_spec r.cfg env (c := { c with lastSeen := env.now }) p hd
  obtain ⟨fd, sent, hconn⟩ := hspec.conn
  refine h.give hc ?_
  have hempty := h.idle c hc hd
  refine ⟨by rw [hconn], by rw [hconn], ?_, ?_, fun _ => by rw [hconn]; exact hempty,
    fun _ => by rw [hconn], fun hfd => ?_, fun hl => by rw [hconn]; exact hl⟩
  · rw [hspec.packets, hconn]
    simp [hempty]
  · rw [hconn]
    exact hspec.through
  · -- the engine's side opens no socket
    rw [hconn]
    show c.decision = .fallback
    cases hdec : c.decision with
    | pending => exact absurd hdec hd
    | fallback => rfl
    | accept =>
      rw [hspec.accepted hdec] at hfd
      rw [← hdec]
      exact h.socket c hc hfd

/-- The entry `c` of the table, with `taken` behind what waits in it and other fields changed. -/
structure Holding (A : Aead) (c : Conn) (taken : List Packet) (d : Conn) : Prop where
  peer : d.peer = c.peer
  id : d.id = c.id
  pending : d.pending = c.pending ++ taken
  decision : d.decision = c.decision
  socket : d.fallbackFd = c.fallbackFd
  learned : c.Learned A → d.Learned A

theorem Holding.refl (A : Aead) (c : Conn) : Holding A c [] c :=
  ⟨rfl, rfl, (append_nil _).symm, rfl, rfl, fun hl => hl⟩

/-- Everything that waits is offered, to the side `s`. -/
theorem Holding.deliver {taken : List Packet} {d : Conn} (hd : Holding A c taken d)
    (h : Books A conf peer hand r) (hc : c ∈ r.conns) (hpending : c.decision = .pending)
    (dec : Decision) (hdec : dec ≠ .pending) (cfg : Config) (env : Env) :
    let o := deliverPending cfg env { d with decision := dec }
    Update A c taken o.conn o.offers := by
  have hspec := deliverPending_spec cfg env (c := { d with decision := dec }) hdec
  obtain ⟨fd, sent, crypto, hconn⟩ := hspec.conn
  have hnofd : c.fallbackFd = none := by
    by_contra hfd
    have := h.socket c hc hfd
    rw [hpending] at this
    cases this
  refine ⟨by rw [hconn]; exact hd.peer, by rw [hconn]; exact hd.id, ?_, fun o ho => ?_,
    fun _ => by rw [hconn], fun hne => absurd hpending hne, fun hfd => ?_,
    fun hl => by rw [hconn]; exact hd.learned hl⟩
  · rw [hspec.packets, hconn]
    simpa using hd.pending
  · have := hspec.through o ho
    rw [hconn, ← hd.peer, ← hd.id]
    exact this
  · rw [hconn]
    show dec = .fallback
    cases dec with
    | pending => exact absurd rfl hdec
    | fallback => rfl
    | accept =>
      have hsame := hspec.accepted rfl
      dsimp only at hsame
      rw [hsame, hd.socket, hnofd] at hfd
      exact absurd rfl hfd

/-- Nothing is offered yet. -/
theorem Holding.wait {taken : List Packet} {d : Conn} (hd : Holding A c taken d)
    (h : Books A conf peer hand r) (hc : c ∈ r.conns)
    (hidle : d.decision ≠ .pending → d.pending = []) : Update A c taken d [] := by
  refine ⟨hd.peer, hd.id, by simpa using hd.pending, fun o ho => absurd ho not_mem_nil,
    hidle, fun _ => hd.decision, ?_, hd.learned⟩
  rw [hd.socket, hd.decision]
  exact h.socket c hc

section
variable (h : Books A conf c.peer [p] r)
include h

theorem Books.acceptPendingAndCurrent_none {d : Conn} (env : Env) (hc : c ∈ r.conns)
    (hpending : c.decision = .pending) (hd : Holding A c [p] d) :
    Books A conf c.peer [] (r.acceptPendingAndCurrent env d none).router :=
  h.give hc (hd.deliver h hc hpending .accept (fun h => by cases h) r.cfg env)

theorem Books.acceptPendingAndCurrent_some {d : Conn} (env : Env) (hc : c ∈ r.conns)
    (hpending : c.decision = .pending) (hd : Holding A c [] d) :
    Books A conf c.peer [] (r.acceptPendingAndCurrent env d (some p)).router := by
  have u := hd.deliver h hc hpending .accept (fun h => by cases h) r.cfg env
  have hspec := deliverPending_spec r.cfg env
    (c := { d with decision := .accept }) (by exact fun h => by cases h)
  obtain ⟨fd, sent, crypto, hconn⟩ := hspec.conn
  set o := deliverPending r.cfg env { d with decision := .accept } with ho
  have hacc : o.conn.decision = .accept := by rw [hconn]
  have hone := offerOne_spec r.cfg env (c := o.conn) p
    (by rw [hacc]; exact fun h => by cases h)
  have hsame := hone.accepted hacc
  refine h.give hc ?_
  have hflow := u.flow
  have hidle := u.idle (by rw [hacc]; exact fun h => by cases h)
  rw [hidle, append_nil, append_nil] at hflow
  rw [hsame]
  refine ⟨u.peer, u.id, ?_, ?_, u.idle, u.keeps, u.socket, u.learned⟩
  · rw [map_append, hone.packets, hflow, hidle, append_nil]
  · intro x hx
    rcases mem_append.mp hx with hx | hx
    · exact u.through x hx
    · have := hone.through x hx
      rwa [u.peer, u.id] at this

theorem Books.verdict {d : Conn} (env : Env) (hc : c ∈ r.conns) (hpending : c.decision = .pending)
    (hd : Holding A c [p] d) : Books A conf c.peer [] (r.verdict env d).router := by
  unfold Router.verdict
  split
  · have hbooks := h.give hc (hd.wait h hc fun hne => absurd (hd.decision.trans hpending) hne)
    rwa [Router.log_nil] at hbooks
  · next hne =>
    exact h.give hc (hd.deliver h hc hpending _ hne r.cfg env)

omit h in
theorem Conn.seePn_eq (c : Conn) (pn : ℕ) :
    ∃ largest, c.seePn pn = { c with largestInitialPn := largest } := by
  unfold Conn.seePn
  repeat' split
  all_goals exact ⟨_, rfl⟩

theorem Books.park (env : Env) (hc : c ∈ r.conns) (hpending : c.decision = .pending) :
    Books A conf c.peer [] (r.park A env c p).router := by
  unfold Router.park
  dsimp only
  split
  · exact h.acceptPendingAndCurrent_some env hc hpending
      ⟨rfl, rfl, (append_nil _).symm, rfl, rfl, id⟩
  split
  · exact h.acceptPendingAndCurrent_none env hc hpending ⟨rfl, rfl, rfl, rfl, rfl, id⟩
  split
  · exact h.acceptPendingAndCurrent_none env hc hpending ⟨rfl, rfl, rfl, rfl, rfl, id⟩
  split
  · exact h.acceptPendingAndCurrent_none env hc hpending ⟨rfl, rfl, rfl, rfl, rfl, id⟩
  · refine h.verdict env hc hpending ?_
    obtain ⟨largest, heq⟩ := Conn.seePn_eq
      { c with
        lastSeen := env.now, pending := c.pending ++ [p]
        crypto := (collectCryptoFrames r.cfg.maxClientHelloBytes c.crypto env.heap _).crypto } _
    rw [heq]
    exact ⟨rfl, rfl, rfl, rfl, rfl, id⟩

theorem Books.processKnown (env : Env) (hc : c ∈ r.conns) :
    Books A conf c.peer [] (r.processKnown A env c p).router := by
  unfold Router.processKnown
  split
  · next hd => exact h.forward env hc hd
  · next hd =>
    have hpending := not_not.mp hd
    split
    · exact h.acceptPendingAndCurrent_some env hc hpending
        ⟨rfl, rfl, (append_nil _).symm, rfl, rfl, id⟩
    · exact h.park env hc hpending

end

theorem oldest_mem : ∀ {cs : List Conn} {c : Conn}, oldest cs = some c → c ∈ cs := by
  intro cs
  induction cs with
  | nil => intro c h; cases h
  | cons d cs ih =>
    intro c h
    unfold oldest at h
    split at h
    · obtain rfl := Option.some.inj h
      exact mem_cons_self ..
    · next e he =>
      split at h
      · obtain rfl := Option.some.inj h
        exact mem_cons_of_mem _ (ih he)
      · obtain rfl := Option.some.inj h
        exact mem_cons_self ..

theorem oldest_eq_none {cs : List Conn} (h : oldest cs = none) : cs = [] := by
  cases cs with
  | nil => rfl
  | cons d cs =>
    unfold oldest at h
    split at h
    · cases h
    · split at h <;> cases h

/-- There is room for one more entry, and no entry of another peer came. -/
theorem Books.makeRoom (h : Books A conf peer [p] r) (env : Env) :
    Books A conf peer [p] (r.makeRoom env) ∧
      (r.makeRoom env).connCount < (r.makeRoom env).cfg.maxTrackedConns ∧
      (∀ d ∈ (r.makeRoom env).conns, d ∈ r.conns) ∧ (r.makeRoom env).cfg = r.cfg := by
  have hcap := h.cap
  have hmax := h.room
  unfold Router.makeRoom
  split
  · next hfull =>
    unfold Router.evictOldest
    split
    · next hnone =>
      have hcount := h.count
      rw [oldest_eq_none hnone] at hcount
      exact absurd hcount (by simp; omega)
    · next c hc =>
      refine ⟨h.retire (Nat.le_refl 1) env (oldest_mem hc), ?_, fun d hd => ?_, rfl⟩
      · show r.connCount - 1 < r.cfg.maxTrackedConns
        omega
      · exact (Chained.mem_entries_erase.mp hd).1
  · exact ⟨h, by omega, fun d hd => hd, rfl⟩

theorem Books.processNew (h : Books A conf peer [p] r) (env : Env)
    (hnone : ∀ d ∈ r.conns, d.peer ≠ peer) :
    Books A conf peer [] (r.processNew A env peer p).router := by
  unfold Router.processNew
  split
  · exact h.acceptDirect env hnone
  · next hdr _ =>
    obtain ⟨hroom, hlt, hsub, -⟩ := h.makeRoom env
    dsimp only
    split
    · exact hroom.lose
    · obtain ⟨hins, hmem⟩ := hroom.insert (c := newConn (r.makeRoom env) peer hdr env.now)
        (fun d hd => hnone d (hsub d hd)) hlt rfl rfl rfl rfl rfl
      exact hins.park env hmem rfl

theorem Books.process (h : Books A conf peer [] r) (env : Env)
    (peer' : Peer) (bytes : List UInt8) :
    Books A conf peer' [] (r.process A env peer' bytes).router := by
  unfold Router.process
  split
  · exact h.forget peer'
  · have harr := h.arrive peer' bytes
    dsimp only
    split
    · next hl => exact harr.processNew env ((Chained.lookup_eq_none harr.wf).mp hl)
    · next c hl =>
      obtain ⟨hc, rfl⟩ := (Chained.lookup_eq_some harr.wf).mp hl
      split
      · exact harr.processKnown env hc
      · split
        · exact harr.processKnown env hc
        · refine (harr.retire (Nat.le_refl 1) env hc).processNew env fun d hd => ?_
          exact (Chained.mem_entries_erase.mp hd).2

/-- An entry of the fallback learns the first id that is supplied. -/
theorem Conn.learn_serverScid (A : Aead) {c : Conn} (hd : c.decision = .fallback)
    (pkt : List UInt8) : (c.learn A pkt).serverScid =
      c.serverScid.or ((c.initialScidOf pkt).or (c.retryScidOf A pkt)) := by
  unfold Conn.learn
  cases hs : c.serverScid with
  | some scid => simp [hs]
  | none =>
    cases hi : c.initialScidOf pkt with
    | some scid => simp [hd]
    | none =>
      simp only [hd, and_self, if_true]
      rfl

theorem Conn.learn_eq (A : Aead) (c : Conn) (pkt : List UInt8) :
    ∃ scid, c.learn A pkt = { c with serverScid := scid } := by
  unfold Conn.learn
  dsimp only
  by_cases h : c.decision = .fallback ∧ c.serverScid = none
  · rw [if_pos h]
    split <;> exact ⟨_, rfl⟩
  · rw [if_neg h, if_neg h]
    exact ⟨_, rfl⟩

/-- Reading a packet changes neither what waits nor what is decided. -/
theorem Conn.hear_holding {c : Conn} (hd : c.decision = .fallback) (now : ℕ) (pkt : List UInt8) :
    Holding A c [] (c.hear A now pkt) := by
  obtain ⟨scid, heq⟩ := Conn.learn_eq A { c with lastSeen := now } pkt
  have hscid : scid = c.serverScid.or ((c.initialScidOf pkt).or (c.retryScidOf A pkt)) := by
    have := Conn.learn_serverScid A (c := { c with lastSeen := now }) hd pkt
    rw [heq] at this
    exact this
  unfold Conn.hear
  dsimp only
  rw [heq]
  refine ⟨rfl, rfl, (append_nil _).symm, rfl, rfl, fun hl => ?_⟩
  show scid = (filterMap (fun pkt => (c.initialScidOf pkt).or (c.retryScidOf A pkt))
    (c.heard ++ [pkt])).head?
  have hl' : c.serverScid = (c.supplied A).head? := hl
  rw [hscid, hl', filterMap_append, head?_append, Conn.supplied]
  congr 1
  cases hs : (c.initialScidOf pkt).or (c.retryScidOf A pkt) with
  | none | some => simp [hs]

theorem Holding.trans {d e : Conn} (h : Holding A c [] d) (h' : Holding A d [] e) :
    Holding A c [] e where
  peer := h'.peer.trans h.peer
  id := h'.id.trans h.id
  pending := by rw [h'.pending, h.pending, append_nil]
  decision := h'.decision.trans h.decision
  socket := h'.socket.trans h.socket
  learned := fun hl => h'.learned (h.learned hl)

theorem readLoop_holding {now : ℕ} : ∀ {recvs : List Recv} {c d : Conn}, c.decision = .fallback →
    readLoop A now c recvs = some d → Holding A c [] d := by
  intro recvs
  induction recvs with
  | nil =>
    intro c d _ h
    obtain rfl := Option.some.inj h
    exact .refl A c
  | cons a recvs ih =>
    intro c d hd h
    cases a with
    | err => cases h
    | again => exact Option.some.inj h ▸ .refl A c
    | data pkt forwarded =>
      have hhear := Conn.hear_holding (A := A) hd now pkt
      unfold readLoop at h
      split at h
      · exact Option.some.inj h ▸ .refl A c
      split at h
      · exact hhear.trans (ih (hhear.decision.trans hd) h)
      · exact Option.some.inj h ▸ hhear

theorem Books.onFdReadable (h : Books A conf peer [] r) (now id fd : ℕ) (recvs : List Recv) :
    Books A conf peer [] (r.onFdReadable A now id fd recvs) := by
  unfold Router.onFdReadable
  split
  · exact h
  · next c hfind =>
    have hc : c ∈ r.conns := mem_of_find?_eq_some hfind
    split
    · exact h
    · next hfd =>
      have hfallback : c.decision = .fallback := by
        refine h.socket c hc ?_
        rw [not_not.mp hfd]
        exact Option.some_ne_none fd
      have hempty : c.pending = [] :=
        h.idle c hc (by rw [hfallback]; exact fun h => by cases h)
      split
      · exact h.remove hc hempty
      · next d hd =>
        have hold := readLoop_holding hfallback hd
        have hbooks := h.update hc rfl (Nat.zero_le 1) (fun hne => absurd rfl hne)
          (hold.wait h hc fun _ => by rw [hold.pending, hempty]; rfl)
        rwa [Router.log_nil] at hbooks

/-! ### The sweep -/

/-- Taking entries out one after the other. -/
def Router.retireAll (r : Router) (env : Env) (cs : List Conn) : Router :=
  cs.foldl (fun r c => r.retire env c) r

theorem Books.retireAll (env : Env) : ∀ {cs : List Conn} {r : Router}, Books A conf peer [] r →
    cs.Pairwise (fun c d => c.peer ≠ d.peer) → (∀ c ∈ cs, c ∈ r.conns) →
    Books A conf peer [] (r.retireAll env cs) := by
  intro cs
  induction cs with
  | nil => intro r h _ _; exact h
  | cons c cs ih =>
    intro r h hpair hmem
    rw [pairwise_cons] at hpair
    refine ih (h.retire (Nat.zero_le 1) env (hmem c (mem_cons_self ..))) hpair.2 ?_
    intro d hd
    exact Chained.mem_entries_erase.mpr
      ⟨hmem d (mem_cons_of_mem _ hd), (hpair.1 d hd).symm⟩

theorem retireAll_eq (env : Env) : ∀ (cs : List Conn) (r : Router),
    r.retireAll env cs =
      { r with
        offers := (cs.foldl (fun s c => (s.1 ++ lastOffers r.cfg env c, s.2 - 1))
          (r.offers, r.connCount)).1
        connCount := (cs.foldl (fun s c => (s.1 ++ lastOffers r.cfg env c, s.2 - 1))
          (r.offers, r.connCount)).2
        buckets := (cs.map Conn.peer).foldl
          (fun t k => Chained.erase Conn.peer k t) r.buckets } := by
  intro cs
  induction cs with
  | nil => intro r; rfl
  | cons c cs ih =>
    intro r
    rw [Router.retireAll, foldl_cons]
    exact ih (r.retire env c)

/-- The sweep takes the expired entries out one after the other. -/
theorem Books.cleanup_eq (h : Books A conf peer [] r) (env : Env) :
    ∃ q : Conn → Bool, r.cleanup env = r.retireAll env (r.conns.filter q) := by
  set cutoff := if r.cfg.connTimeoutSec < env.now then env.now - r.cfg.connTimeoutSec else 0
    with hcutoff
  refine ⟨fun c => decide (c.lastSeen < cutoff), ?_⟩
  have hsweep := Chained.sweepAll_filter (f := cleanupStep r.cfg env cutoff)
    (q := fun c => decide (c.lastSeen < cutoff))
    (g := fun s c => (s.1 ++ lastOffers r.cfg env c, s.2 - 1))
    (fun s c => by simp [cleanupStep]) r.buckets (r.offers, r.connCount)
  have hbuckets : ((r.conns.filter fun c => decide (c.lastSeen < cutoff)).map Conn.peer).foldl
      (fun t k => Chained.erase Conn.peer k t) r.buckets =
      r.buckets.map fun b => b.filter fun c => !decide (c.lastSeen < cutoff) := by
    rw [Chained.foldl_erase]
    refine map_congr_left fun b hb => filter_congr fun c hc => ?_
    have hmem : c ∈ r.conns := mem_flatten.mpr ⟨b, hb, hc⟩
    -- the peer of an entry is that of an expired one only if the entry is expired
    rw [Bool.eq_iff_iff]
    simp only [decide_eq_true_eq, Bool.not_eq_true', decide_eq_false_iff_not, mem_map,
      mem_filter, not_exists, not_and]
    constructor
    · intro hno hlt
      exact hno c ⟨hmem, hlt⟩ rfl
    · rintro hnot d ⟨hd, hlt⟩ hpeer
      exact hnot (h.wf.eq_of_key_eq hd hmem hpeer ▸ hlt)
  rw [retireAll_eq, hbuckets, Router.cleanup, ← hcutoff, hsweep]
  rfl

theorem Books.cleanup (h : Books A conf peer [] r) (env : Env) :
    Books A conf peer [] (r.cleanup env) := by
  obtain ⟨q, heq⟩ := h.cleanup_eq env
  rw [heq]
  refine h.retireAll env ?_ fun c hc => (mem_filter.mp hc).1
  have hnodup := pairwise_map.mp h.wf.nodup
  exact hnodup.filter _

/-! ### Runs -/

/-- **Every operation keeps the books.** -/
theorem Books.step (h : Books A conf peer [] r) (op : RouterOp) :
    Books A conf peer [] (r.step A op) := by
  cases op with
  | process peer' bytes env => exact (h.process env peer' bytes).forget peer
  | readable now id fd recvs => exact h.onFdReadable now id fd recvs
  | cleanup env => exact h.cleanup env

/-- A new router is empty. -/
theorem Router.create_spec {cfg : Config} (h : Router.create cfg = some r) :
    0 < r.cfg.maxTrackedConns ∧ r.cfg.maxTrackedConns = cfg.withDefaults.maxTrackedConns ∧
      ∃ conf, r =
        { cfg := conf, buckets := replicate conf.maxTrackedConns [], connCount := 0 } := by
  unfold Router.create at h
  dsimp only at h
  split_ifs at h
  obtain rfl := Option.some.inj h
  refine ⟨?_, rfl, _, rfl⟩
  unfold Config.withDefaults orDefault
  dsimp only
  split <;> omega

theorem Books.create {cfg : Config} (h : Router.create cfg = some r) (peer : Peer) :
    Books A r.cfg peer [] r := by
  obtain ⟨hmax, -, conf, rfl⟩ := Router.create_spec h
  have hnil : Router.conns { cfg := conf, buckets := replicate conf.maxTrackedConns []
                             connCount := 0 } = [] := Chained.entries_replicate_nil _
  constructor
  case wf => exact Chained.wf_replicate_nil fun k => Nat.mod_lt _ hmax
  all_goals simp [hnil, offersTo, hmax]

/-! ### Nothing else is lost -/

/-- The operation finds memory for an entry. -/
def RouterOp.entryOk : RouterOp → Bool
  | .process _ _ env => env.entryOk
  | _ => true

section
variable (r : Router)

theorem acceptPendingAndCurrent_lost (env : Env) (c : Conn) (current : Option Packet) :
    (r.acceptPendingAndCurrent env c current).router.lost = r.lost := by
  cases current <;> rfl

theorem park_lost (env : Env) (c : Conn) (p : Packet) :
    (r.park A env c p).router.lost = r.lost := by
  have hverdict : ∀ d, (r.verdict env d).router.lost = r.lost := by
    intro d
    unfold Router.verdict
    split <;> rfl
  unfold Router.park
  dsimp only
  split
  · exact acceptPendingAndCurrent_lost ..
  split
  · exact acceptPendingAndCurrent_lost ..
  split
  · exact acceptPendingAndCurrent_lost ..
  split
  · exact acceptPendingAndCurrent_lost ..
  · exact hverdict _

theorem processKnown_lost (env : Env) (c : Conn) (p : Packet) :
    (r.processKnown A env c p).router.lost = r.lost := by
  unfold Router.processKnown
  split
  · rfl
  split
  · exact acceptPendingAndCurrent_lost ..
  · exact park_lost ..

theorem processNew_lost {env : Env} (hok : env.entryOk = true) (peer : Peer) (p : Packet) :
    (r.processNew A env peer p).router.lost = r.lost := by
  have hroom : (r.makeRoom env).lost = r.lost := by
    unfold Router.makeRoom Router.evictOldest
    split
    · split <;> rfl
    · rfl
  unfold Router.processNew
  split
  · rfl
  · dsimp only
    rw [hok, if_neg (by simp), park_lost]
    exact hroom

theorem step_lost {op : RouterOp} (hok : op.entryOk = true) : (r.step A op).lost = r.lost := by
  cases op with
  | process peer bytes env =>
    show (r.process A env peer bytes).router.lost = r.lost
    unfold Router.process
    split
    · rfl
    dsimp only
    split
    · exact processNew_lost _ hok ..
    split
    · exact processKnown_lost ..
    split
    · exact processKnown_lost ..
    · exact processNew_lost _ hok ..
  | readable now id fd recvs =>
    show (r.onFdReadable A now id fd recvs).lost = r.lost
    unfold Router.onFdReadable
    split
    · rfl
    split
    · rfl
    split <;> rfl
  | cleanup env => rfl

end

theorem run_lost {ops : List RouterOp} (hok : ∀ op ∈ ops, op.entryOk = true) :
    (r.run A ops).lost = r.lost := by
  induction ops generalizing r with
  | nil => rfl
  | cons op ops ih =>
    have hstep := step_lost (A := A) r (hok op (mem_cons_self ..))
    exact (ih fun op' hop => hok op' (mem_cons_of_mem _ hop)).trans hstep

/-- **The contract of the router.**  After any operations, every datagram that arrived was offered
once, or waits in the entry of its peer, or its entry could not be allocated; what is offered is
what arrived; the offers of a peer are in the order of arrival and what waits comes after them;
an entry offers to one side only; a peer has one entry, and there are not more entries than
configured. -/
theorem router_delivers {cfg : Config} {r : Router} (hr : Router.create cfg = some r) (A : Aead)
    (ops : List RouterOp) :
    let s := r.run A ops
    (s.offers.map Offer.num ++ (s.conns.flatMap Conn.pending).map Packet.num ++ s.lost).Perm
      (range s.arrived.length) ∧
    ((∀ op ∈ ops, op.entryOk = true) → s.lost = []) ∧
    (∀ o ∈ s.offers, s.arrived[o.num]? = some (o.peer, o.bytes)) ∧
    (∀ c ∈ s.conns, ∀ p ∈ c.pending, s.arrived[p.num]? = some (c.peer, p.bytes)) ∧
    (∀ peer, (offersTo s.offers peer).Pairwise (· < ·)) ∧
    (∀ c ∈ s.conns, (offersTo s.offers c.peer ++ c.pending.map Packet.num).Pairwise (· < ·)) ∧
    (∀ o ∈ s.offers, ∀ o' ∈ s.offers, o.entry ≠ none → o.entry = o'.entry → o.side = o'.side) ∧
    (∀ c ∈ s.conns, ∀ o ∈ s.offers, o.entry = some c.id → o.side.decision = c.decision) ∧
    (s.conns.map Conn.peer).Nodup ∧
    s.conns.length ≤ cfg.withDefaults.maxTrackedConns := by
  intro s
  have hpeer : Peer := .v4 (Vector.replicate 4 0) 0
  have h : Books A r.cfg hpeer [] s :=
    Run.exec_inv (Router.step A) (fun _ op h => h.step op) ops r (Books.create hr hpeer)
  obtain ⟨-, hmax, conf, hempty⟩ := Router.create_spec hr
  refine ⟨?_, fun hok => ?_, h.offered, h.parked, h.sorted, h.behind, h.sides, h.decided,
    h.wf.nodup, ?_⟩
  · simpa using h.places
  · exact (run_lost hok).trans (by rw [hempty])
  · rw [← hmax, ← h.cfg, ← h.count]
    exact h.cap

/-- One allowed name, `a.b`, and room for one peer. -/
def tinyConfig : Config :=
  { allowedSnis := [[0x61, 0x2e, 0x62]], fallbackAddr := .v4 (Vector.replicate 4 9) 1
    maxTrackedConns := 1, connTimeoutSec := 0, maxClientHelloBytes := 0, maxPendingPackets := 0
    fallbackProxyProtocol := true }

def tinyRouter : Router :=
  { cfg := tinyConfig.withDefaults, buckets := [[]], connCount := 0 }

/-- The protected part of a packet says which half of the hello it carries. -/
def tinyAead : Aead where
  decrypt bytes _ := some (if bytes.getLast? = some 0 then tinyFront else tinyBack, 0)
  tag _ _ := none

/-- An Initial packet with the destination id `dcid`. -/
def tinyInitial (dcid half : UInt8) : List UInt8 :=
  [0xc0, 0, 0, 0, 1, 1, dcid, 1, 7, 0, 17] ++ List.replicate 17 half

def tinyPeer (n : UInt8) : Peer := .v4 (Vector.replicate 4 n) 5

/-- The second half of a hello, a datagram of another peer that takes the only entry, the hello
of that peer in two packets, and one more. -/
def tinyOps : List RouterOp :=
  [ .process (tinyPeer 1) (tinyInitial 3 1) { now := 1 },
    .process (tinyPeer 2) (tinyInitial 4 1) { now := 2 },
    .process (tinyPeer 2) (tinyInitial 4 0) { now := 3 },
    .process (tinyPeer 2) [0x40, 1] { now := 4 } ]

theorem router_delivers_tiny :
    ((tinyRouter.run tinyAead tinyOps).offers.map fun o => (o.num, o.entry)) =
      [(0, some 0), (1, some 1), (2, some 1), (3, some 1)] ∧
    (tinyRouter.run tinyAead tinyOps).lost = [] :=
  ⟨by decide +kernel,
    (@router_delivers tinyConfig tinyRouter rfl tinyAead tinyOps).2.1 (by decide)⟩

end Mqvpn.Sni
