import Mqvpn.Lane.Uplink
import Mqvpn.Lib.History

/-!
# What the uplink of a flow keeps

Two ledgers run through every function of the uplink.  The first is the order of the bytes:
what the stream accepted, followed by what waits in the queue, is what lwIP delivered.  The
second is the credit of the receive window: what lwIP delivered was either given back or is
withheld, and whatever is held back has the write notification armed, so that somebody will
come back for it.

What a piece of sending can do to a flow is said once, in `SendSpec`, and for the loop over
the queue in `DrainSpec`; both ledgers are read off from there.

## Main definitions

* `Ordered` — the ledger of the bytes, with the end of the body.
* `Books`, `Arms` — the ledger of the credit, and what the write notification owes it.

## Main results

* `uplink_in_order` — every run keeps the bytes in order and ends the body once.
* `uplink_credit` — every run keeps the credit and leaves no flow waiting unarmed.
-/

namespace Mqvpn.Lane

open List

/-! ### What the calls amount to -/

def LaneCall.deliveredBytes : LaneCall → List UInt8
  | .delivered bytes => bytes
  | _ => []

def LaneCall.acceptedBytes : LaneCall → List UInt8
  | .accepted bytes => bytes
  | _ => []

def deliveredBytes (calls : List LaneCall) : List UInt8 := calls.flatMap (·.deliveredBytes)

/-- The bytes the request stream accepted. -/
def acceptedBytes (calls : List LaneCall) : List UInt8 := calls.flatMap (·.acceptedBytes)

def unsentBytes (queue : List Node) : List UInt8 := queue.flatMap (·.unsent)

/-- How much of a delivery is still to be sent. -/
def Node.left (n : Node) : ℕ := n.p.totLen - n.offset

@[simp] theorem deliveredBytes_snoc (calls : List LaneCall) (c : LaneCall) :
    deliveredBytes (calls ++ [c]) = deliveredBytes calls ++ c.deliveredBytes := by
  simp [deliveredBytes]

@[simp] theorem acceptedBytes_snoc (calls : List LaneCall) (c : LaneCall) :
    acceptedBytes (calls ++ [c]) = acceptedBytes calls ++ c.acceptedBytes := by
  simp [acceptedBytes]

@[simp] theorem unsentBytes_nil : unsentBytes [] = [] := rfl

@[simp] theorem unsentBytes_cons (n : Node) (queue : List Node) :
    unsentBytes (n :: queue) = n.unsent ++ unsentBytes queue := rfl

@[simp] theorem unsentBytes_snoc (queue : List Node) (n : Node) :
    unsentBytes (queue ++ [n]) = unsentBytes queue ++ n.unsent := by
  simp [unsentBytes]

/-- The end of the body is sent after the local end of the stream, and with nothing waiting. -/
def FinInPlace (before : List LaneCall) : LaneCall → Prop
  | .fin => .localFin ∈ before ∧ acceptedBytes before = deliveredBytes before
  | _ => True

/-- Nothing is delivered after the local end of the stream. -/
def BeforeFin (before : List LaneCall) : LaneCall → Prop
  | .delivered _ => .localFin ∉ before
  | _ => True

/-- What the stream accepted, followed by `rest`, is what was delivered. -/
def Owes (calls : List LaneCall) (rest : List UInt8) : Prop :=
  acceptedBytes calls ++ rest = deliveredBytes calls

/-- The ends of the two streams. -/
structure Fins (seen sent : Bool) (calls : List LaneCall) : Prop where
  seen : seen = true → .localFin ∈ calls
  count : calls.count .fin = sent.toNat
  inPlace : History.Each FinInPlace calls

/-- Bytes that are delivered or accepted leave the ends alone. -/
theorem Fins.snoc {seen sent : Bool} {calls : List LaneCall} (h : Fins seen sent calls)
    {c : LaneCall} (hne : c ≠ .fin) : Fins seen sent (calls ++ [c]) where
  seen hs := mem_append_left _ (h.seen hs)
  count := by simp [h.count, hne]
  inPlace := by
    refine (History.each_snoc calls c).mpr ⟨h.inPlace, ?_⟩
    cases c with
    | fin => exact absurd rfl hne
    | delivered | localFin | accepted => trivial

/-- What leaves the ends of the two streams alone. -/
def KeepsFins (f f' : UplinkFlow) : Prop :=
  Fins f.tcpFinSeen f.finSentToH3 f.calls → Fins f'.tcpFinSeen f'.finSentToH3 f'.calls

/-! ### Sending -/

variable {P : Profile} {f : UplinkFlow} {w : Work} {p : Pbuf} {offset extra : ℕ} {allocOk : Bool}

/-- What sending a delivery from `offset` to `off` does to a flow. -/
structure SendSpec (f : UplinkFlow) (p : Pbuf) (offset off : ℕ) (f' : UplinkFlow) : Prop where
  frame : f' = { f with
    calls := f'.calls, armed := f'.armed, uplinkWithheld := f'.uplinkWithheld }
  le : offset ≤ off
  le_totLen : off ≤ max offset p.totLen
  grows : f.calls <+: f'.calls
  delivered : deliveredBytes f'.calls = deliveredBytes f.calls
  owes : ∀ rest, Owes f.calls (p.bytes.drop offset ++ rest) →
    Owes f'.calls (p.bytes.drop off ++ rest)
  kept : f.uplinkWithheld = true → f'.uplinkWithheld = true

theorem SendSpec.trans {f f' f'' : UplinkFlow} {o o' o'' : ℕ} (h : SendSpec f p o o' f')
    (h' : SendSpec f' p o' o'' f'') : SendSpec f p o o'' f'' where
  frame := by rw [h'.frame, h.frame]
  le := Nat.le_trans h.le h'.le
  le_totLen := by
    have := h.le_totLen
    have := h'.le_totLen
    omega
  grows := h.grows.trans h'.grows
  delivered := h'.delivered.trans h.delivered
  owes rest howes := h'.owes rest (h.owes rest howes)
  kept hw := h'.kept (h.kept hw)

theorem SendSpec.queuedBytes_eq {f f' : UplinkFlow} {offset off : ℕ}
    (h : SendSpec f p offset off f') : f'.uplinkQueuedBytes = f.uplinkQueuedBytes := by
  rw [h.frame]

theorem SendSpec.refl (f : UplinkFlow) (p : Pbuf) (offset : ℕ) :
    SendSpec f p offset offset f where
  frame := rfl
  le := Nat.le_refl _
  le_totLen := Nat.le_max_left _ _
  grows := prefix_rfl
  delivered := rfl
  owes _ howes := howes
  kept hw := hw

theorem SendSpec.block (f : UplinkFlow) (p : Pbuf) (offset : ℕ) :
    SendSpec f p offset offset { f with armed := true } where
  frame := rfl
  le := Nat.le_refl _
  le_totLen := Nat.le_max_left _ _
  grows := prefix_rfl
  delivered := rfl
  owes _ howes := howes
  kept hw := hw

theorem Pbuf.chunk_prefix (p : Pbuf) (offset : ℕ) : p.chunk offset <+: p.bytes.drop offset := by
  unfold Pbuf.chunk
  split
  · exact take_prefix _ _
  · exact prefix_rfl

/-- What is left after the first `n` bytes of a piece were accepted. -/
theorem Pbuf.take_chunk_append (p : Pbuf) (offset n : ℕ) (hn : n ≤ (p.chunk offset).length) :
    (p.chunk offset).take n ++ p.bytes.drop (offset + n) = p.bytes.drop offset := by
  obtain ⟨rest, hrest⟩ := p.chunk_prefix offset
  rw [← drop_drop, ← hrest, drop_append_of_le_length hn, ← append_assoc,
    take_append_drop]

theorem Pbuf.add_le_totLen (p : Pbuf) (offset n : ℕ) (hoff : offset < p.totLen)
    (hn : n ≤ (p.chunk offset).length) : offset + n ≤ p.totLen := by
  have hle := (p.chunk_prefix offset).length_le
  rw [length_drop] at hle
  unfold Pbuf.totLen at *
  omega

/-- A piece was accepted up to `n` bytes. -/
theorem SendSpec.accept {offset n : ℕ} {armed held : Bool} (hoff : offset < p.totLen)
    (hn : n ≤ (p.chunk offset).length) (hheld : f.uplinkWithheld = true → held = true) :
    SendSpec f p offset (offset + n)
      { f.log (.accepted ((p.chunk offset).take n)) with armed, uplinkWithheld := held } where
  frame := rfl
  le := Nat.le_add_right _ _
  le_totLen := Nat.le_trans (p.add_le_totLen offset n hoff hn) (Nat.le_max_right _ _)
  grows := prefix_append _ _
  delivered := by simp [UplinkFlow.log, LaneCall.deliveredBytes]
  owes rest h := by
    unfold Owes at h ⊢
    rw [← p.take_chunk_append offset n hn] at h
    simpa [UplinkFlow.log, LaneCall.acceptedBytes, LaneCall.deliveredBytes] using h
  kept := hheld

/-- **Sending keeps to its specification**, whatever the stream answers. -/
theorem sendFrom_spec (P : Profile) (p : Pbuf) (sends : List H3Answer) (w : Work) (offset : ℕ) :
    let r := sendFrom P p sends w offset
    KeepsFins w.flow r.work.flow ∧
      ∀ off ∈ r.offset, SendSpec w.flow p offset off r.work.flow := by
  induction sends generalizing w offset with
  | nil =>
    dsimp only [sendFrom]
    split
    · exact ⟨id, by rintro _ ⟨⟩; exact .refl ..⟩
    · exact ⟨id, by rintro _ ⟨⟩; exact .block ..⟩
  | cons a sends ih =>
    dsimp only [sendFrom]
    split
    · exact ⟨id, by rintro _ ⟨⟩; exact .refl ..⟩
    next hoff =>
    split
    · exact ⟨id, nofun⟩
    have hlt : offset < p.totLen := Nat.lt_of_not_le hoff
    cases a with
    | again => exact ⟨id, by rintro _ ⟨⟩; exact .block ..⟩
    | err => exact ⟨id, nofun⟩
    | took n =>
      have hn : min n (p.chunk offset).length ≤ (p.chunk offset).length := Nat.min_le_right _ _
      have hfins : ∀ {c}, c ≠ .fin → KeepsFins w.flow (w.flow.log c) := fun hne h => h.snoc hne
      dsimp only
      split
      · exact ⟨hfins nofun, by rintro _ ⟨⟩; exact .accept hlt hn id⟩
      split
      · exact ⟨hfins nofun, by rintro _ ⟨⟩; exact .accept hlt hn fun _ => rfl⟩
      split
      · obtain ⟨hkeeps, hspec⟩ := ih _ _
        exact ⟨fun h => hkeeps (hfins nofun h), fun off hoff =>
          (SendSpec.accept hlt hn id).trans (hspec off hoff)⟩
      · exact ⟨hfins nofun, by rintro _ ⟨⟩; exact .accept hlt hn id⟩

/-! ### Draining the queue -/

/-- What draining `queue` does to a flow. -/
structure DrainSpec (f : UplinkFlow) (queue : List Node) (f' : UplinkFlow) : Prop where
  frame : f' = { f with
    calls := f'.calls, armed := f'.armed, uplinkWithheld := f'.uplinkWithheld,
    uplinkQueue := f'.uplinkQueue, uplinkQueuedBytes := f'.uplinkQueuedBytes }
  delivered : deliveredBytes f'.calls = deliveredBytes f.calls
  owes : Owes f.calls (unsentBytes queue) → Owes f'.calls (unsentBytes f'.uplinkQueue)
  queued : f.uplinkQueuedBytes = (queue.map Node.left).sum →
    f'.uplinkQueuedBytes = (f'.uplinkQueue.map Node.left).sum
  fewer : f'.uplinkQueuedBytes ≤ f.uplinkQueuedBytes
  kept : f.uplinkWithheld = true → f'.uplinkWithheld = true
  stuck : f'.uplinkQueue ≠ [] → f'.uplinkWithheld = true

/-- The drain stops before `queue`. -/
theorem DrainSpec.stop (w : Work) (queue : List Node) :
    DrainSpec w.flow queue (w.setQueue queue).withhold.flow where
  frame := rfl
  delivered := rfl
  owes h := h
  queued h := h
  fewer := Nat.le_refl _
  kept _ := rfl
  stuck _ := rfl

theorem DrainSpec.done (w : Work) : DrainSpec w.flow [] (w.setQueue []).flow where
  frame := rfl
  delivered := rfl
  owes h := h
  queued h := h
  fewer := Nat.le_refl _
  kept h := h
  stuck h := absurd rfl h

@[simp] theorem unqueue_queuedBytes (w : Work) (sent : ℕ) :
    (w.unqueue sent).flow.uplinkQueuedBytes = w.flow.uplinkQueuedBytes - sent := rfl

/-- A part of the first delivery was sent, `off - n.offset` bytes of it, and what follows meets
the specification for what is left. -/
theorem DrainSpec.send {f f' : UplinkFlow} {n : Node} {queue queue' : List Node} {off : ℕ}
    (h₁ : SendSpec f n.p n.offset off w.flow)
    (hbytes : unsentBytes queue' = n.p.bytes.drop off ++ unsentBytes queue)
    (hleft : (queue'.map Node.left).sum = n.p.totLen - off + (queue.map Node.left).sum)
    (h : DrainSpec (w.unqueue (off - n.offset)).flow queue' f') : DrainSpec f (n :: queue) f' where
  frame := by rw [h.frame, Work.unqueue, h₁.frame]
  delivered := h.delivered.trans h₁.delivered
  owes howes := by
    apply h.owes
    rw [hbytes]
    exact h₁.owes _ howes
  queued hq := by
    have hsame := h₁.queuedBytes_eq
    have hle := h₁.le
    have hmax := h₁.le_totLen
    apply h.queued
    rw [unqueue_queuedBytes, hleft, hsame, hq, map_cons, sum_cons, Node.left]
    omega
  fewer := by
    have hsame := h₁.queuedBytes_eq
    have hfewer := h.fewer
    rw [unqueue_queuedBytes] at hfewer
    omega
  kept hw := h.kept (h₁.kept hw)
  stuck := h.stuck

theorem drain_spec (P : Profile) (queue : List Node) (w : Work) (sends : List H3Answer) :
    let r := drain P queue w sends
    KeepsFins w.flow r.work.flow ∧ (r.ok = true → DrainSpec w.flow queue r.work.flow) := by
  induction queue generalizing w sends with
  | nil => exact ⟨id, fun _ => DrainSpec.done w⟩
  | cons n queue ih =>
    dsimp only [drain]
    split
    · exact ⟨id, fun _ => DrainSpec.stop w.next (n :: queue)⟩
    obtain ⟨hfins, hsend⟩ := sendFrom_spec P n.p sends w.next n.offset
    generalize sendFrom P n.p sends w.next n.offset = r at hfins hsend ⊢
    rcases r with ⟨_ | off, w₁, sends₁⟩
    · exact ⟨hfins, nofun⟩
    have h₁ : SendSpec w.flow n.p n.offset off w₁.flow := hsend off rfl
    dsimp only
    split
    · exact ⟨hfins, fun _ =>
        DrainSpec.send h₁ rfl rfl (DrainSpec.stop (w₁.unqueue (off - n.offset)) _)⟩
    next hpart =>
    have hover : n.p.totLen ≤ off := Nat.le_of_not_lt hpart
    have hnone : unsentBytes queue = n.p.bytes.drop off ++ unsentBytes queue := by
      rw [drop_eq_nil_of_le hover, nil_append]
    have hzero : (queue.map Node.left).sum = n.p.totLen - off + (queue.map Node.left).sum := by
      rw [Nat.sub_eq_zero_of_le hover, Nat.zero_add]
    split
    · exact ⟨hfins, fun _ =>
        DrainSpec.send h₁ hnone hzero (DrainSpec.stop (w₁.unqueue (off - n.offset)).next _)⟩
    · obtain ⟨hkeeps, hspec⟩ := ih (w₁.unqueue (off - n.offset)).next sends₁
      exact ⟨fun h => hkeeps (hfins h), fun hok => DrainSpec.send h₁ hnone hzero (hspec hok)⟩

/-! ### The end of the body, and the credit given back -/

/-- The end of the body is due. -/
def FinDue (f : UplinkFlow) : Prop :=
  f.state = .active ∧ f.h3Request = true ∧ f.tcpFinSeen = true ∧ f.finSentToH3 = false ∧
    f.uplinkQueue = []

theorem maybeFin_cases (w : Work) (sends : List H3Answer) :
    (¬ FinDue w.flow ∧ maybeFin w sends = w) ∨
    (FinDue w.flow ∧ (maybeFin w sends = w.fail ∨ maybeFin w sends = w.setArmed true ∨
      (maybeFin w sends).flow = { w.flow.log .fin with
        armed := false
        finSentToH3 := true
        status := if w.flow.finReceivedFromH3 then .closed else w.flow.status })) := by
  unfold maybeFin
  split
  case isTrue h =>
    refine Or.inl ⟨?_, rfl⟩
    rintro ⟨hs, h3, hf, hn, hq⟩
    simp [hs, h3, hf, hn, hq] at h
  case isFalse h =>
    have hdue : FinDue w.flow := by simpa [FinDue] using h
    refine Or.inr ⟨hdue, ?_⟩
    cases sends.headD .again with
    | err => exact Or.inl rfl
    | again => exact Or.inr (Or.inl rfl)
    | took n => exact Or.inr (Or.inr rfl)

theorem recvedLoop_eq (steps len recved : ℕ) (h : len ≤ steps) :
    recvedLoop steps len recved = recved + len := by
  induction steps generalizing len recved with
  | zero =>
    obtain rfl : len = 0 := Nat.le_zero.mp h
    rfl
  | succ steps ih =>
    unfold recvedLoop
    split
    case isTrue hzero => rw [hzero, Nat.add_zero]
    case isFalse hpos =>
      dsimp only
      split
      · rw [ih _ _ (by omega)]
        omega
      · rw [ih _ _ (by omega)]
        omega

/-- All of the credit is given back, in however many steps. -/
@[simp] theorem giveBack_flow (w : Work) (len : ℕ) :
    (w.giveBack len).flow = { w.flow with recved := w.flow.recved + len } := by
  simp [Work.giveBack, recvedLoop_eq]

theorem resume_cases (P : Profile) (w : Work) :
    (w.flow.uplinkWithheld = true ∧ w.flow.uplinkQueue = [] ∧
      (resume P w).flow = { w.flow with
        recved := w.flow.recved + w.flow.uplinkWithheldRecved
        uplinkWithheld := false
        uplinkWithheldRecved := 0
        armed := if !w.flow.tcpFinSeen || w.flow.finSentToH3 then false else w.flow.armed }) ∨
    (w.flow.uplinkWithheld = true ∧ (resume P w).flow = { w.flow with armed := true }) ∨
    (w.flow.uplinkWithheld = false ∧ (resume P w).flow = w.flow) := by
  unfold resume
  split
  case isTrue h =>
    refine Or.inl ⟨h.1, h.2.1, ?_⟩
    by_cases hfin : (!w.flow.tcpFinSeen || w.flow.finSentToH3) = true
    · simp [Work.next, Work.setArmed, hfin]
    · simp [Work.next, hfin]
  case isFalse h =>
    cases hw : w.flow.uplinkWithheld with
    | true => exact Or.inr (Or.inl ⟨rfl, rfl⟩)
    | false => exact Or.inr (Or.inr ⟨rfl, rfl⟩)

/-! ### The bytes in order -/

/-- The ledger of the bytes.  A flow that was torn down has freed its queue. -/
structure Ordered (f : UplinkFlow) : Prop where
  owes : f.status ≠ .down → Owes f.calls (unsentBytes f.uplinkQueue)
  fins : Fins f.tcpFinSeen f.finSentToH3 f.calls

theorem Ordered.tearDown (h : Fins f.tcpFinSeen f.finSentToH3 f.calls) : Ordered f.tearDown :=
  ⟨fun hs => absurd rfl hs, h⟩

theorem maybeFin_ordered (h : Ordered w.flow) (hlive : w.flow.status = .live)
    (sends : List H3Answer) : Ordered (maybeFin w sends).flow := by
  rcases maybeFin_cases w sends with ⟨-, heq⟩ | ⟨hdue, heq | heq | heq⟩ <;> rw [heq]
  · exact h
  · exact Ordered.tearDown h.fins
  · exact ⟨h.owes, h.fins⟩
  · obtain ⟨-, -, hseen, hsent, hempty⟩ := hdue
    have howes := h.owes (by rw [hlive]; decide)
    rw [hempty] at howes
    -- the queue is empty, so the stream has accepted everything
    have hall : acceptedBytes w.flow.calls = deliveredBytes w.flow.calls := by
      simpa [Owes] using howes
    refine ⟨fun _ => ?_, ⟨fun _ => ?_, ?_, ?_⟩⟩
    · simpa [Owes, UplinkFlow.log, hempty, LaneCall.acceptedBytes, LaneCall.deliveredBytes]
        using hall
    · exact mem_append_left _ (h.fins.seen hseen)
    · simp [UplinkFlow.log, h.fins.count, hsent]
    · simp [UplinkFlow.log, FinInPlace, h.fins.inPlace, h.fins.seen hseen, hall]

theorem resume_ordered (h : Ordered w.flow) : Ordered (resume P w).flow := by
  rcases resume_cases P w with ⟨-, -, heq⟩ | ⟨-, heq⟩ | ⟨-, heq⟩ <;> rw [heq]
  · exact ⟨h.owes, h.fins⟩
  · exact ⟨h.owes, h.fins⟩
  · exact h

theorem flush_ordered (h : Ordered w.flow) (hlive : w.flow.status = .live) (sends : List H3Answer) :
    Ordered (flush P w sends).flow := by
  unfold flush
  split
  · exact h
  obtain ⟨hkeeps, hdrain⟩ := drain_spec P w.flow.uplinkQueue w sends
  generalize drain P w.flow.uplinkQueue w sends = r at hdrain hkeeps ⊢
  have hfins := hkeeps h.fins
  rcases r with ⟨_ | _, w₁, sends₁⟩
  · exact Ordered.tearDown hfins
  have hspec : DrainSpec w.flow w.flow.uplinkQueue w₁.flow := hdrain rfl
  have hlive₁ : w₁.flow.status = .live := by rw [hspec.frame]; exact hlive
  have hord : Ordered w₁.flow :=
    ⟨fun _ => hspec.owes (h.owes (by rw [hlive]; decide)), hfins⟩
  have hfin := maybeFin_ordered hord hlive₁ sends₁
  dsimp only
  split
  · exact hfin
  · exact resume_ordered hfin

/-- A delivery in hand: `p` is delivered, and accepted up to `offset`. -/
theorem settleDelivery_ordered (allocOk : Bool)
    (hfins : Fins w.flow.tcpFinSeen w.flow.finSentToH3 w.flow.calls)
    (howes : Owes w.flow.calls (unsentBytes w.flow.uplinkQueue ++ p.bytes.drop offset)) :
    Ordered (settleDelivery P w p offset allocOk).flow := by
  unfold settleDelivery
  by_cases hall : offset = p.totLen
  · have hnone : p.bytes.drop offset = [] := by rw [hall]; exact drop_length
    rw [hnone, append_nil] at howes
    rw [if_pos hall]
    split
    · exact ⟨fun _ => howes, hfins⟩
    · rw [giveBack_flow]
      exact ⟨fun _ => howes, hfins⟩
  rw [if_neg hall]
  cases allocOk with
  | false => exact Ordered.tearDown hfins
  | true =>
    have hstash : Ordered (stash w p offset).flow :=
      ⟨fun _ => by simpa [Owes, stash, Node.unsent] using howes, hfins⟩
    have hheld : Ordered (stash w p offset).withhold.flow :=
      ⟨hstash.owes, hstash.fins⟩
    simp only [Bool.not_true, Bool.false_eq_true, if_false]
    split
    · exact ⟨hheld.owes, hheld.fins⟩
    · split
      · exact ⟨hstash.owes, hstash.fins⟩
      · rw [giveBack_flow]
        exact ⟨hstash.owes, hstash.fins⟩

/-- What `deliver` can do: a send fails, or the delivery is accepted up to some offset and settled.
Nothing is sent past bytes that wait. -/
theorem deliver_cases (P : Profile) (w : Work) (p : Pbuf) (allocOk : Bool)
    (sends : List H3Answer) : ∃ w₁ : Work, KeepsFins w.flow w₁.flow ∧
      (deliver P w p allocOk sends = w₁.fail ∨
        ∃ off, SendSpec w.flow p 0 off w₁.flow ∧
          (w.flow.uplinkQueue = [] ∨ off = 0 ∧ w₁.flow = w.flow) ∧
          deliver P w p allocOk sends = settleDelivery P w₁ p off allocOk) := by
  unfold deliver
  split
  case isFalse => exact ⟨w, id, .inr ⟨0, .refl .., .inr ⟨rfl, rfl⟩, rfl⟩⟩
  case isTrue hfast =>
    split
    case isFalse => exact ⟨w.next, id, .inr ⟨0, .refl .., .inr ⟨rfl, rfl⟩, rfl⟩⟩
    case isTrue =>
      obtain ⟨hfins, hspec⟩ := sendFrom_spec P p sends w.next 0
      generalize sendFrom P p sends w.next 0 = r at hspec hfins ⊢
      rcases r with ⟨_ | off, w₁, sends₁⟩
      · exact ⟨w₁, hfins, .inl rfl⟩
      · exact ⟨w₁, hfins, .inr ⟨off, hspec off rfl, .inl hfast.2.1, rfl⟩⟩

theorem deliver_ordered (allocOk : Bool) (sends : List H3Answer)
    (hfins : Fins w.flow.tcpFinSeen w.flow.finSentToH3 w.flow.calls)
    (howes : Owes w.flow.calls (unsentBytes w.flow.uplinkQueue ++ p.bytes)) :
    Ordered (deliver P w p allocOk sends).flow := by
  obtain ⟨w₁, hkeeps, heq | ⟨off, h₁, hqueue, heq⟩⟩ := deliver_cases P w p allocOk sends <;>
    rw [heq]
  · exact Ordered.tearDown (hkeeps hfins)
  refine settleDelivery_ordered allocOk (hkeeps hfins) ?_
  obtain hempty | ⟨rfl, hsame⟩ := hqueue
  · have hempty₁ : w₁.flow.uplinkQueue = [] := by rw [h₁.frame]; exact hempty
    rw [hempty] at howes
    rw [hempty₁]
    simpa using h₁.owes [] (by simpa using howes)
  · rw [hsame]
    exact howes

theorem onLwipRecv_ordered (h : Ordered f) (hlive : f.status = .live) (p : Option Pbuf)
    (allocOk : Bool) (script : Script) : Ordered (onLwipRecv P f p allocOk script) := by
  have howes := h.owes (by rw [hlive]; decide)
  cases p with
  | none =>
    refine flush_ordered ⟨fun _ => ?_, ?_⟩ hlive _
    · simpa [Owes, UplinkFlow.log, LaneCall.acceptedBytes, LaneCall.deliveredBytes] using howes
    · have hsnoc := h.fins.snoc (c := .localFin) nofun
      exact ⟨fun _ => mem_append_right _ (mem_singleton_self _), hsnoc.count,
        hsnoc.inPlace⟩
  | some p =>
    refine deliver_ordered allocOk _ (h.fins.snoc nofun) ?_
    unfold Owes at howes ⊢
    simp only [UplinkFlow.log, acceptedBytes_snoc, deliveredBytes_snoc, LaneCall.acceptedBytes,
      LaneCall.deliveredBytes, append_nil]
    rw [← howes, append_assoc]

theorem step_ordered (P : Profile) (f : UplinkFlow) (op : UplinkOp) (h : Ordered f) :
    Ordered (f.step P op) := by
  unfold UplinkFlow.step
  by_cases hlive : f.status = .live
  · rw [if_neg (not_not_intro hlive)]
    cases op with
    | bind => exact ⟨h.owes, h.fins⟩
    | recv p allocOk script => exact onLwipRecv_ordered h hlive p allocOk script
    | established script =>
      dsimp only
      split
      · exact flush_ordered ⟨h.owes, h.fins⟩ hlive _
      · exact h
    | writable script =>
      dsimp only
      split
      · exact flush_ordered h hlive _
      · exact h
    | downlinkFin shutdownOk =>
      dsimp only
      split
      · exact h
      split
      · exact Ordered.tearDown h.fins
      · exact ⟨fun _ => h.owes (by rw [hlive]; decide), h.fins⟩
    | tearDown => exact Ordered.tearDown h.fins
  · rw [if_pos hlive]
    exact h

theorem run_ordered (P : Profile) (ops : List UplinkOp) : Ordered (UplinkFlow.run P ops) := by
  refine Run.exec_inv _ (fun f op h => step_ordered P f op h) ops _ ?_
  exact ⟨fun _ => rfl, nofun, rfl, History.each_nil⟩

/-- **The uplink is in order.**  Whatever happens to a flow and whatever the stream answers, the
bytes the stream accepted, followed by the bytes that wait, are the bytes lwIP delivered, as long
as the flow is not torn down.  The end of the body is sent at most once, after the local end of
the stream and with nothing waiting. -/
theorem uplink_in_order (P : Profile) (ops : List UplinkOp) :
    let f := UplinkFlow.run P ops
    (f.status ≠ .down →
      acceptedBytes f.calls ++ unsentBytes f.uplinkQueue = deliveredBytes f.calls) ∧
    f.calls.count .fin ≤ 1 ∧
    (∀ before after, f.calls = before ++ .fin :: after →
      .localFin ∈ before ∧ acceptedBytes before = deliveredBytes before) := by
  intro f
  have h : Ordered f := run_ordered P ops
  refine ⟨h.owes, ?_, fun before after hsplit => h.fins.inPlace before .fin after hsplit⟩
  rw [h.fins.count]
  exact Bool.toNat_le _

/-- A chained delivery that waits for the stream, is accepted in part and then in full, and a
local end of the stream that meets a stream that would block. -/
def heldFin : List UplinkOp :=
  [.bind, .recv (some ⟨[[1, 2], [3]], by decide⟩) true ⟨[], []⟩, .established ⟨[.took 2], []⟩,
    .recv none true ⟨[], []⟩, .writable ⟨[.took 9, .again], []⟩]

theorem uplink_in_order_sentFin :
    let f := UplinkFlow.run (.standard 3) (heldFin ++ [.writable ⟨[.took 0], []⟩])
    acceptedBytes f.calls = [1, 2, 3] ∧ f.calls.count .fin = 1 ∧
      acceptedBytes f.calls ++ unsentBytes f.uplinkQueue = deliveredBytes f.calls := by
  have h := uplink_in_order (.standard 3) (heldFin ++ [.writable ⟨[.took 0], []⟩])
  exact ⟨by decide, by decide, h.1 (by decide)⟩

/-! ### The credit of the receive window -/

/-- The ledger of the credit, where `extra` bytes were delivered and are not booked yet. -/
structure Books (P : Profile) (extra : ℕ) (f : UplinkFlow) : Prop where
  bound : f.state = .active → f.h3Request = true
  credit : (deliveredBytes f.calls).length = f.recved + f.uplinkWithheldRecved + extra
  window : f.uplinkWithheldRecved + extra ≤ P.tcpWnd
  queued : f.uplinkQueuedBytes = (f.uplinkQueue.map Node.left).sum
  capped : f.uplinkQueuedBytes ≤ P.highWater + f.uplinkWithheldRecved
  free : f.uplinkWithheld = false → f.uplinkWithheldRecved = 0

/-- What an active flow holds back has the write notification armed. -/
structure Arms (f : UplinkFlow) : Prop where
  idle : f.state = .active → f.uplinkWithheld = false → f.uplinkQueue = []
  held : f.state = .active → f.uplinkWithheld = true → f.armed = true

/-- An end of the body that is still to be sent has the write notification armed. -/
def FinArmed (f : UplinkFlow) : Prop :=
  f.state = .active → f.tcpFinSeen = true → f.finSentToH3 = false → f.armed = true

/-- Sending books nothing. -/
theorem Books.sent {f f' : UplinkFlow} (hb : Books P extra f)
    (hframe : f' = { f with
      calls := f'.calls, armed := f'.armed, uplinkWithheld := f'.uplinkWithheld,
      uplinkQueue := f'.uplinkQueue, uplinkQueuedBytes := f'.uplinkQueuedBytes })
    (hdelivered : deliveredBytes f'.calls = deliveredBytes f.calls)
    (hkept : f.uplinkWithheld = true → f'.uplinkWithheld = true)
    (hqueued : f'.uplinkQueuedBytes = (f'.uplinkQueue.map Node.left).sum)
    (hfewer : f'.uplinkQueuedBytes ≤ f.uplinkQueuedBytes) : Books P extra f' := by
  have hsame : f'.uplinkWithheldRecved = f.uplinkWithheldRecved := by rw [hframe]
  refine ⟨by rw [hframe]; exact hb.bound, by rw [hdelivered, hframe]; exact hb.credit, ?_, hqueued,
    ?_, fun hw => ?_⟩ <;> rw [hsame]
  · exact hb.window
  · exact Nat.le_trans hfewer hb.capped
  · exact hb.free (Bool.eq_false_iff.2 fun hf => by simp [hkept hf] at hw)

theorem maybeFin_books (hb : Books P 0 w.flow) (sends : List H3Answer)
    (hlive : (maybeFin w sends).flow.status = .live) : Books P 0 (maybeFin w sends).flow := by
  rcases maybeFin_cases w sends with ⟨-, heq⟩ | ⟨-, heq | heq | heq⟩ <;> rw [heq] at hlive ⊢
  · exact hb
  · cases hlive
  · exact ⟨hb.bound, hb.credit, hb.window, hb.queued, hb.capped, hb.free⟩
  · refine ⟨hb.bound, ?_, hb.window, hb.queued, hb.capped, hb.free⟩
    simpa [UplinkFlow.log, LaneCall.deliveredBytes] using hb.credit

/-- After `maybeFin`, an end of the body that is still to be sent is behind queued bytes or has
the write notification armed. -/
theorem maybeFin_waits (h3 : w.flow.h3Request = true) (sends : List H3Answer)
    (hlive : (maybeFin w sends).flow.status = .live) :
    (maybeFin w sends).flow.uplinkQueue ≠ [] ∨ FinArmed (maybeFin w sends).flow := by
  rcases maybeFin_cases w sends with ⟨hnot, heq⟩ | ⟨-, heq | heq | heq⟩ <;> rw [heq] at hlive ⊢
  · by_cases hq : w.flow.uplinkQueue = []
    · exact Or.inr fun hs hseen hsent => absurd ⟨hs, h3, hseen, hsent, hq⟩ hnot
    · exact Or.inl hq
  · cases hlive
  · exact Or.inr fun _ _ _ => rfl
  · exact Or.inr fun _ _ hsent => (Bool.false_ne_true hsent.symm).elim

/-- `maybeFin` does not touch the queue of a flow it does not tear down. -/
theorem maybeFin_stuck (sends : List H3Answer)
    (h : w.flow.uplinkQueue ≠ [] → w.flow.uplinkWithheld = true) :
    (maybeFin w sends).flow.uplinkQueue ≠ [] → (maybeFin w sends).flow.uplinkWithheld = true := by
  rcases maybeFin_cases w sends with ⟨-, heq⟩ | ⟨-, heq | heq | heq⟩ <;> rw [heq]
  · exact h
  · exact fun hne => absurd rfl hne
  · exact h
  · exact h

theorem resume_books (hb : Books P 0 w.flow) : Books P 0 (resume P w).flow := by
  rcases resume_cases P w with ⟨-, hempty, heq⟩ | ⟨-, heq⟩ | ⟨-, heq⟩ <;> rw [heq]
  · have hzero : w.flow.uplinkQueuedBytes = 0 := by rw [hb.queued, hempty]; rfl
    refine ⟨hb.bound, ?_, Nat.zero_le _, hb.queued, ?_, fun _ => rfl⟩
    · exact hb.credit
    · dsimp only
      omega
  · exact ⟨hb.bound, hb.credit, hb.window, hb.queued, hb.capped, hb.free⟩
  · exact hb

/-- The end of a flush leaves nothing waiting unarmed. -/
theorem resume_arms (hstuck : w.flow.uplinkQueue ≠ [] → w.flow.uplinkWithheld = true)
    (hfin : w.flow.uplinkQueue ≠ [] ∨ FinArmed w.flow) :
    Arms (resume P w).flow ∧ FinArmed (resume P w).flow := by
  rcases resume_cases P w with ⟨-, hempty, heq⟩ | ⟨-, heq⟩ | ⟨hfree, heq⟩ <;> rw [heq]
  · have hfin' := hfin.resolve_left (not_not_intro hempty)
    refine ⟨⟨fun _ _ => hempty, fun _ hw => (Bool.false_ne_true hw).elim⟩, ?_⟩
    intro hs hseen hsent
    dsimp only at hseen hsent ⊢
    simpa [hseen, hsent] using hfin' hs hseen hsent
  · exact ⟨⟨fun _ hw => by_contra fun hq => by simp [hstuck hq] at hw, fun _ _ => rfl⟩,
      fun _ _ _ => rfl⟩
  · have hempty : w.flow.uplinkQueue = [] := by
      by_contra hq
      rw [hstuck hq] at hfree
      cases hfree
    refine ⟨⟨fun _ _ => hempty, fun _ hw => ?_⟩, hfin.resolve_left (not_not_intro hempty)⟩
    rw [hfree] at hw
    cases hw

/-- **A flush keeps the books and arms what waits.** -/
theorem flush_books (hb : Books P 0 w.flow) (sends : List H3Answer)
    (hlive : (flush P w sends).flow.status = .live) :
    Books P 0 (flush P w sends).flow ∧ Arms (flush P w sends).flow ∧
      FinArmed (flush P w sends).flow := by
  unfold flush at hlive ⊢
  by_cases hguard : w.flow.state ≠ .active ∨ w.flow.h3Request = false
  · have hpending : w.flow.state ≠ .active := by
      intro hs
      rcases hguard with hne | h3
      · exact hne hs
      · rw [hb.bound hs] at h3
        cases h3
    rw [if_pos hguard]
    exact ⟨hb, ⟨fun hs => absurd hs hpending, fun hs => absurd hs hpending⟩,
      fun hs => absurd hs hpending⟩
  rw [if_neg hguard] at hlive ⊢
  have hdrain := (drain_spec P w.flow.uplinkQueue w sends).2
  generalize drain P w.flow.uplinkQueue w sends = r at hdrain hlive ⊢
  rcases r with ⟨_ | _, w₁, sends₁⟩
  · cases hlive
  have hspec : DrainSpec w.flow w.flow.uplinkQueue w₁.flow := hdrain rfl
  have h3 : w₁.flow.h3Request = true := by
    rw [hspec.frame]
    simpa using (not_or.mp hguard).2
  dsimp only at hlive ⊢
  by_cases hfin : (maybeFin w₁ sends₁).flow.status = .live
  · rw [if_neg (not_not_intro hfin)]
    have hstuck := maybeFin_stuck sends₁ hspec.stuck
    obtain ⟨harms, hfinArmed⟩ := resume_arms (P := P) hstuck (maybeFin_waits h3 sends₁ hfin)
    exact ⟨resume_books (maybeFin_books
      (hb.sent hspec.frame hspec.delivered hspec.kept (hspec.queued hb.queued) hspec.fewer)
      sends₁ hfin), harms, hfinArmed⟩
  · rw [if_pos hfin] at hlive
    exact absurd hlive hfin

/-! ### Deliveries -/

theorem withhold_books (hb : Books P extra w.flow) : Books P extra w.withhold.flow :=
  ⟨hb.bound, hb.credit, hb.window, hb.queued, hb.capped, fun h => (Bool.false_ne_true h.symm).elim⟩

theorem Books.keep (hb : Books P extra f) (hheld : f.uplinkWithheld = true) :
    Books P 0 { f with uplinkWithheldRecved := f.uplinkWithheldRecved + extra } where
  bound := hb.bound
  credit := by
    have := hb.credit
    dsimp only
    omega
  window := hb.window
  queued := hb.queued
  capped := by
    have := hb.capped
    dsimp only
    omega
  free h := by
    rw [hheld] at h
    cases h

theorem Books.giveBack (hb : Books P extra f) :
    Books P 0 { f with recved := f.recved + extra } where
  bound := hb.bound
  credit := by
    have := hb.credit
    dsimp only
    omega
  window := by
    have := hb.window
    dsimp only
    omega
  queued := hb.queued
  capped := hb.capped
  free := hb.free

/-- What is left of a delivery that is booked is queued. -/
theorem Books.stash (hb : Books P 0 w.flow)
    (hcap : w.flow.uplinkQueuedBytes + (p.totLen - offset) ≤
      P.highWater + w.flow.uplinkWithheldRecved) :
      Books P 0 (stash w p offset).flow where
  bound := hb.bound
  credit := hb.credit
  window := hb.window
  queued := by simp [Lane.stash, Node.left, hb.queued]
  capped := hcap
  free := hb.free

/-- A delivery is queued and booked as withheld. -/
theorem Books.stashKeep (hb : Books P p.totLen w.flow) (offset : ℕ)
    (hheld : w.flow.uplinkWithheld = true) :
    Books P 0 { (Lane.stash w p offset).flow with
      uplinkWithheldRecved := w.flow.uplinkWithheldRecved + p.totLen } := by
  refine (hb.keep hheld).stash (w := ⟨_, w.unsent⟩) ?_
  have := hb.capped
  dsimp only
  omega

theorem withhold_armed (h3 : w.flow.h3Request = true) : w.withhold.flow.armed = true := by
  simp [Work.withhold, h3]

/-- **A delivery is booked once**, whatever part of it was accepted. -/
theorem settleDelivery_books (hb : Books P p.totLen w.flow)
    (hidle : w.flow.state = .active → w.flow.uplinkWithheld = false → w.flow.uplinkQueue = [])
    (hlive : (settleDelivery P w p offset allocOk).flow.status = .live) :
    Books P 0 (settleDelivery P w p offset allocOk).flow ∧
      Arms (settleDelivery P w p offset allocOk).flow := by
  unfold settleDelivery at hlive ⊢
  by_cases hall : offset = p.totLen
  · rw [if_pos hall]
    by_cases hhold : w.flow.uplinkWithheld = true ∨ P.highWater ≤ w.xquicBytes
    · rw [if_pos hhold]
      exact ⟨(withhold_books hb).keep rfl, fun _ h => (Bool.false_ne_true h.symm).elim,
        fun hs _ => withhold_armed (hb.bound hs)⟩
    · have hfree : w.flow.uplinkWithheld = false := by simpa using (not_or.mp hhold).1
      rw [if_neg hhold, giveBack_flow]
      refine ⟨hb.giveBack, hidle, fun _ hw => ?_⟩
      rw [hfree] at hw
      cases hw
  rw [if_neg hall] at hlive ⊢
  cases allocOk with
  | false => cases hlive
  | true =>
    simp only [Bool.not_true, Bool.false_eq_true, if_false]
    by_cases hhold : (stash w p offset).flow.state = .active ∨
        P.highWater ≤ (stash w p offset).flow.uplinkQueuedBytes
    · have hheld : (stash w p offset).withhold.flow.uplinkWithheld = true := rfl
      rw [if_pos hhold, if_pos hheld]
      exact ⟨(withhold_books hb).stashKeep offset rfl, fun _ h => (Bool.false_ne_true h.symm).elim,
        fun hs _ => withhold_armed (hb.bound hs)⟩
    · obtain ⟨hpending, hlow⟩ := not_or.mp hhold
      rw [if_neg hhold]
      -- before the stream is established nothing has to be armed
      have harms : ∀ f : UplinkFlow, f.state = w.flow.state → Arms f := fun f hf =>
        ⟨fun hs => absurd (hf.symm.trans hs) hpending, fun hs => absurd (hf.symm.trans hs) hpending⟩
      split
      case isTrue hheld => exact ⟨hb.stashKeep offset hheld, harms _ rfl⟩
      case isFalse =>
        rw [giveBack_flow]
        exact ⟨hb.giveBack.stash (w := ⟨_, w.unsent⟩)
          (Nat.le_add_right_of_le (Nat.le_of_not_le hlow)), harms _ rfl⟩

theorem deliver_books {sends : List H3Answer} (hb : Books P p.totLen w.flow)
    (hidle : w.flow.state = .active → w.flow.uplinkWithheld = false → w.flow.uplinkQueue = [])
    (hlive : (deliver P w p allocOk sends).flow.status = .live) :
    Books P 0 (deliver P w p allocOk sends).flow ∧
      Arms (deliver P w p allocOk sends).flow := by
  obtain ⟨w₁, -, heq | ⟨off, h₁, hqueue, heq⟩⟩ := deliver_cases P w p allocOk sends <;>
    rw [heq] at hlive ⊢
  · cases hlive
  refine settleDelivery_books (hb.sent (by rw [h₁.frame]) h₁.delivered h₁.kept
    (by rw [h₁.frame]; exact hb.queued) (Nat.le_of_eq h₁.queuedBytes_eq)) ?_ hlive
  obtain hempty | ⟨-, hsame⟩ := hqueue
  · exact fun _ _ => by rw [h₁.frame]; exact hempty
  · rw [hsame]
    exact hidle

theorem settleDelivery_keeps (P : Profile) (w : Work) (p : Pbuf) (offset : ℕ) (allocOk : Bool) :
    (settleDelivery P w p offset allocOk).flow.calls = w.flow.calls ∧
      (settleDelivery P w p offset allocOk).flow.tcpFinSeen = w.flow.tcpFinSeen := by
  unfold settleDelivery
  dsimp only
  repeat' split
  all_goals exact ⟨rfl, rfl⟩

theorem deliver_keeps {sends : List H3Answer}
    (hlive : (deliver P w p allocOk sends).flow.status = .live) :
    w.flow.calls <+: (deliver P w p allocOk sends).flow.calls ∧
      (deliver P w p allocOk sends).flow.tcpFinSeen = w.flow.tcpFinSeen := by
  obtain ⟨w₁, -, heq | ⟨off, h₁, -, heq⟩⟩ := deliver_cases P w p allocOk sends <;>
    rw [heq] at hlive ⊢
  · cases hlive
  · obtain ⟨hc, hs⟩ := settleDelivery_keeps P w₁ p off allocOk
    rw [hc, hs]
    exact ⟨h₁.grows, by rw [h₁.frame]⟩

/-! ### Runs -/

/-- The ledger of the credit at a boundary. -/
structure Credited (P : Profile) (f : UplinkFlow) : Prop where
  books : Books P 0 f
  arms : Arms f
  fin : History.Each BeforeFin f.calls → FinArmed f

/-- lwIP delivers no more than the window it advertised: the initial window, and what was given
back since. -/
def WithinWindow (P : Profile) (f : UplinkFlow) : UplinkOp → Prop
  | .recv (some p) _ _ => (deliveredBytes f.calls).length + p.totLen ≤ f.recved + P.tcpWnd
  | _ => True

instance (P : Profile) (f : UplinkFlow) (op : UplinkOp) : Decidable (WithinWindow P f op) := by
  unfold WithinWindow
  split <;> infer_instance

theorem flush_credited (hb : Books P 0 w.flow) (sends : List H3Answer)
    (hlive : (flush P w sends).flow.status = .live) : Credited P (flush P w sends).flow := by
  obtain ⟨hbooks, harms, hfin⟩ := flush_books hb sends hlive
  exact ⟨hbooks, harms, fun _ => hfin⟩

theorem onLwipRecv_credited (ho : Ordered f) (h : Credited P f) (p : Option Pbuf) (allocOk : Bool)
    (script : Script) (hwin : WithinWindow P f (.recv p allocOk script))
    (hlive : (onLwipRecv P f p allocOk script).status = .live) :
    Credited P (onLwipRecv P f p allocOk script) := by
  have hb := h.books
  cases p with
  | none =>
    refine flush_credited ⟨hb.bound, ?_, hb.window, hb.queued, hb.capped, hb.free⟩ _ hlive
    simpa [UplinkFlow.log, LaneCall.deliveredBytes] using hb.credit
  | some p =>
    have hcredit := hb.credit
    change (deliveredBytes f.calls).length + p.totLen ≤ f.recved + P.tcpWnd at hwin
    have hextra : Books P p.totLen (f.log (.delivered p.bytes)) := by
      refine ⟨hb.bound, ?_, ?_, hb.queued, hb.capped, hb.free⟩
      · simp only [UplinkFlow.log, deliveredBytes_snoc, LaneCall.deliveredBytes,
          length_append, hcredit, Pbuf.totLen, Nat.add_zero]
      · simp only [UplinkFlow.log]
        omega
    obtain ⟨hbooks, harms⟩ := deliver_books hextra h.arms.idle hlive
    refine ⟨hbooks, harms, fun hbefore _ hseen _ => ?_⟩
    -- the end of the stream was seen, so this delivery came after it
    obtain ⟨⟨later, hlater⟩, hsame⟩ := deliver_keeps hlive
    have hin : .localFin ∈ f.calls := ho.fins.seen (hsame.symm.trans hseen)
    have hsplit : (onLwipRecv P f (some p) allocOk script).calls =
        f.calls ++ .delivered p.bytes :: later := by
      have hall : f.calls ++ [.delivered p.bytes] ++ later =
        (onLwipRecv P f (some p) allocOk script).calls := hlater
      rw [← hall, append_assoc, singleton_append]
    exact absurd hin (hbefore _ _ _ hsplit)

theorem step_credited {op : UplinkOp} (ho : Ordered f) (h : f.status = .live → Credited P f)
    (hwin : WithinWindow P f op) : (f.step P op).status = .live → Credited P (f.step P op) := by
  unfold UplinkFlow.step
  by_cases hf : f.status = .live
  · have hc := h hf
    have hb := hc.books
    rw [if_neg (not_not_intro hf)]
    cases op with
    | bind =>
      exact fun _ => ⟨⟨fun _ => rfl, hb.credit, hb.window, hb.queued, hb.capped, hb.free⟩,
        ⟨hc.arms.idle, hc.arms.held⟩, hc.fin⟩
    | recv p allocOk script => exact onLwipRecv_credited ho hc p allocOk script hwin
    | established script =>
      dsimp only
      split
      case isTrue h3 =>
        exact flush_credited ⟨fun _ => h3, hb.credit, hb.window, hb.queued, hb.capped, hb.free⟩ _
      case isFalse => exact fun _ => hc
    | writable script =>
      dsimp only
      split
      · exact flush_credited hb _
      · exact fun _ => hc
    | downlinkFin shutdownOk =>
      dsimp only
      split
      · exact fun _ => hc
      split
      · exact nofun
      · exact fun _ => ⟨⟨hb.bound, hb.credit, hb.window, hb.queued, hb.capped, hb.free⟩,
          ⟨hc.arms.idle, hc.arms.held⟩, hc.fin⟩
    | tearDown => exact nofun
  · rw [if_pos hf]
    exact fun hlive => absurd hlive hf

theorem run_credited {ops : List UplinkOp}
    (h : Run.Along (UplinkFlow.step P) (WithinWindow P) {} ops)
    (hlive : (UplinkFlow.run P ops).status = .live) : Credited P (UplinkFlow.run P ops) := by
  have hinv := Run.along_inv (UplinkFlow.step P) (C := WithinWindow P)
    (P := fun f => Ordered f ∧ (f.status = .live → Credited P f))
    (fun f op hf hwin =>
      ⟨step_ordered P f op hf.1, step_credited hf.1 hf.2 hwin⟩) ops {}
  refine (hinv ⟨run_ordered P [], fun _ => ?_⟩ h).2 hlive
  exact ⟨⟨nofun, rfl, Nat.zero_le _, rfl, Nat.zero_le _, fun _ => rfl⟩, ⟨nofun, nofun⟩,
    fun _ => nofun⟩

/-- **Credit is conserved, and nothing waits unarmed.**  As long as lwIP keeps to the window it
advertised, at every boundary of a live flow the delivered bytes are those given back and those
withheld, the recorded length of the queue is that of the unsent bytes and within the high-water
mark and one window, and an active flow that holds bytes or credit back has the write
notification armed.  So has one whose end of the body is still to be sent; here lwIP must not
deliver data after the end of the stream, which a full accept of that data would disarm. -/
theorem uplink_credit (P : Profile) (ops : List UplinkOp)
    (h : Run.Along (UplinkFlow.step P) (WithinWindow P) {} ops)
    (hlive : (UplinkFlow.run P ops).status = .live) :
    let f := UplinkFlow.run P ops
    (deliveredBytes f.calls).length = f.recved + f.uplinkWithheldRecved ∧
    f.uplinkQueuedBytes = (f.uplinkQueue.map Node.left).sum ∧
    f.uplinkQueuedBytes ≤ P.highWater + P.tcpWnd ∧
    (f.state = .active → (f.uplinkQueue ≠ [] ∨ 0 < f.uplinkWithheldRecved) → f.armed = true) ∧
    (History.Each BeforeFin f.calls → f.state = .active → f.tcpFinSeen = true →
      f.finSentToH3 = false → f.armed = true) := by
  intro f
  have hc : Credited P f := run_credited h hlive
  have hb := hc.books
  have hwindow := hb.window
  have hcapped := hb.capped
  refine ⟨hb.credit, hb.queued, by omega, fun hs hwaits => hc.arms.held hs ?_, hc.fin⟩
  -- a flow that is not withheld has no queue and no credit
  by_contra hfree
  have hw : f.uplinkWithheld = false := by simpa using hfree
  rcases hwaits with hq | hr
  · exact hq (hc.arms.idle hs hw)
  · rw [hb.free hw] at hr
    exact Nat.lt_irrefl 0 hr

theorem uplink_credit_heldFin :
    let f := UplinkFlow.run (.standard 3) heldFin
    (deliveredBytes f.calls).length = f.recved + f.uplinkWithheldRecved ∧ f.armed = true := by
  have h := uplink_credit (.standard 3) heldFin (by decide) (by decide)
  refine ⟨h.1, h.2.2.2.2 ?_ (by decide) (by decide) (by decide)⟩
  have hcalls : (UplinkFlow.run (.standard 3) heldFin).calls =
      [] ++ [.delivered [1, 2, 3]] ++ [.accepted [1, 2]] ++ [.localFin] ++ [.accepted [3]] := by
    decide
  rw [hcalls]
  simp only [History.each_snoc, History.each_nil, BeforeFin]
  decide

-- Data after the end of the stream: its full accept disarms the pending end of the body.
example :
    let f := UplinkFlow.run (.standard 3)
      (heldFin ++ [.recv (some ⟨[[4]], by decide⟩) true ⟨[.took 1], []⟩])
    f.state = .active ∧ f.tcpFinSeen = true ∧ f.finSentToH3 = false ∧ f.armed = false := by
  decide

end Mqvpn.Lane
