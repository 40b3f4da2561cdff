import Mqvpn.Egress.Relay
import Mqvpn.Lib.History

/-!
# Nothing is lost in the relay

The calls made for a flow tell which bytes came in and which went out.  Between two events
the bytes taken from the request body are those sent to the socket followed by the downlink
stash, and the bytes read from the socket are those put into the response followed by the
uplink stash.  Inside a handler the bytes in its hands take the place of the stash.

A handler gives a flow up only right after a call that it takes for fatal.  Whether that call
really failed is told by the flow before the event and the answers to its calls alone.

## Main definitions

* `fromStream`, `toSocket`, `fromSocket`, `toStream` — the bytes of a record of calls.
* `Settled` — what holds of a flow between two events.
* `Doomed` — what holds of a flow that is given up.
* `drainFate`, `flushFate`, `usesBudget`, `abortsHealthy` — what the answers foretell.

## Main results

* `relay_sound` — every event leaves a flow settled, or dooms it.
-/

namespace Mqvpn.Egress

open Svr List

/-- The bytes a call took from the request body. -/
def Call.bodyBytes : Call → List UInt8
  | .recvBody bytes _ => bytes
  | _ => []

/-- The bytes a call wrote to the socket. -/
def Call.sentBytes : Call → List UInt8
  | .send bytes => bytes
  | _ => []

def Call.readBytes : Call → List UInt8
  | .recv bytes => bytes
  | _ => []

/-- The bytes a call put into the response. -/
def Call.ackedBytes : Call → List UInt8
  | .sendBody bytes => bytes
  | _ => []

/-- All that was received of the request body. -/
def fromStream (calls : List Call) : List UInt8 := calls.flatMap Call.bodyBytes

def toSocket (calls : List Call) : List UInt8 := calls.flatMap Call.sentBytes

def fromSocket (calls : List Call) : List UInt8 := calls.flatMap Call.readBytes

/-- All that the response accepted. -/
def toStream (calls : List Call) : List UInt8 := calls.flatMap Call.ackedBytes

section
variable (calls : List Call) (c : Call)

@[simp] theorem fromStream_snoc :
    fromStream (calls ++ [c]) = fromStream calls ++ c.bodyBytes := by
  simp [fromStream]

@[simp] theorem toSocket_snoc : toSocket (calls ++ [c]) = toSocket calls ++ c.sentBytes := by
  simp [toSocket]

@[simp] theorem fromSocket_snoc :
    fromSocket (calls ++ [c]) = fromSocket calls ++ c.readBytes := by
  simp [fromSocket]

@[simp] theorem toStream_snoc : toStream (calls ++ [c]) = toStream calls ++ c.ackedBytes := by
  simp [toStream]

end

def Call.failed : Call → Bool
  | .recvBodyFailed | .sendFailed _ | .recvFailed _ | .sendBodyFailed | .sendFinFailed
  | .noMemory => true
  | _ => false

/-- No call failed, but the flow is given up: a send took nothing, or the budget of a read
loop is used up and `errno` stands at a value that some earlier call left. -/
def Call.spurious : Call → Bool
  | .sendNothing => true
  | .yield errno => !errno.wouldBlock
  | _ => false

/-- How a handler leaves a flow: alive, given up after a call that failed, or given up
although no call failed. -/
inductive Fate where
  | alive
  | failed
  | spurious
  deriving DecidableEq

/-- What a call means for its flow. -/
def Call.fate (c : Call) : Fate :=
  if c.failed then .failed else if c.spurious then .spurious else .alive

/-- The socket is shut down behind the whole body, the response ended behind the whole
stream. -/
def EndsClean (pre : List Call) : Call → Prop
  | .shutdown => fromStream pre = toSocket pre ∧ ∃ bytes, .recvBody bytes true ∈ pre
  | .sendFin => fromSocket pre = toStream pre ∧ .recvEof ∈ pre
  | _ => True

/-- The record of a flow, with `dn` bytes on their way to the socket and `up` bytes on their
way into the response. -/
structure Carries (f : Flow) (dn up : List UInt8) : Prop where
  down : fromStream f.calls = toSocket f.calls ++ dn
  up : fromSocket f.calls = toStream f.calls ++ up
  shut : f.calls.count .shutdown = if f.downlinkShutdownDone then 1 else 0
  fin : f.calls.count .sendFin = if f.uplinkFinSent then 1 else 0
  order : History.Each EndsClean f.calls
  finSeen : f.finReceivedFromH3 = true → ∃ bytes, .recvBody bytes true ∈ f.calls
  eofSeen : f.egressEofSeen = true → .recvEof ∈ f.calls
  calm : ∀ c ∈ f.calls, c.fate = .alive

/-- The bytes on their way are those in the stashes, and the flags say whether there are
any. -/
structure Fitting (f : Flow) : Prop where
  carries : Carries f f.downlinkStash f.uplinkStash
  paused : f.downlinkPaused = true ↔ f.downlinkStash ≠ []
  withheld : f.uplinkWithheld = true ↔ f.uplinkStash ≠ []

/-- What holds of a flow between two events: also the platform waits for the right things. -/
structure Settled (f : Flow) : Prop extends Fitting f where
  interest : f.state = .active → f.registered = some f.interest

/-- What holds of a flow that is given up: its last call was fatal, and no earlier one. -/
def Doomed (fate : Fate) (f : Flow) : Prop :=
  ∃ pre c, f.calls = pre ++ [c] ∧ c.fate = fate ∧ ∀ c' ∈ pre, c'.fate = .alive

/-- The outcome of a handler. -/
structure Sound (fate : Fate) (w : Work) : Prop where
  live : w.error = none ↔ fate = .alive
  alive : fate = .alive → Settled w.flow
  doomed : fate ≠ .alive → Doomed fate w.flow

/-- The outcome of a handler of which only matters whether it gives a healthy flow up. -/
def Ends (spurious : Prop) (w : Work) : Prop :=
  ∃ fate, (fate = .spurious ↔ spurious) ∧ Sound fate w

/-! ### What the answers foretell -/

/-- How a loop of sends ends: all bytes are gone, the socket would block, a send failed, or a
send took nothing. -/
inductive SendEnd where
  | all
  | blocked
  | failed
  | nothing
  deriving DecidableEq

/-- How the sends of so many bytes end. -/
def sendEnd : ℕ → List Send → SendEnd
  | 0, _ => .all
  | _ + 1, [] => .blocked
  | n + 1, .err e :: sends =>
      if e = .eintr then sendEnd (n + 1) sends else if e.wouldBlock then .blocked else .failed
  | _ + 1, .took 0 :: _ => .nothing
  | n + 1, .took (k + 1) :: sends => sendEnd (n - k) sends

/-- The fate of a flow, given what happens after the sends that do not end it. -/
def SendEnd.andThen : SendEnd → Fate → Fate → Fate
  | .all, fate, _ => fate
  | .blocked, _, fate => fate
  | .failed, _, _ => .failed
  | .nothing, _, _ => .spurious

/-- The fate of a flow that drains its body; `room` says whether there is a stash. -/
def drainFate (room : Bool) : List BodyRead → Fate
  | [] => .alive
  | .failed :: _ => .failed
  | .data bytes fin sends :: reads =>
      (sendEnd (bytes.take relayChunk).length sends).andThen
        (if fin || (bytes.take relayChunk).isEmpty then .alive else drainFate room reads)
        (if room then .alive else .failed)

/-- The fate of a flow that drains its body unless its downlink is paused. -/
def Flow.drainFate (f : Flow) (env : DrainEnv) : Fate :=
  if f.downlinkPaused then .alive
  else Egress.drainFate (f.downlinkBuffer || env.stashOk) env.reads

/-- The fate of a flow that sends its stash and, if all of it is gone, drains its body. -/
def Flow.flushFate (f : Flow) (sends : List Send) (env : DrainEnv) : Fate :=
  (sendEnd f.downlinkStash.length sends).andThen
    (Egress.drainFate (f.downlinkBuffer || env.stashOk) env.reads) .alive

/-- The reads use up a budget of so many bytes, and the response accepts all of them. -/
def usesBudget (left : ℕ) : List Recv → Bool
  | [] => false
  | .err e :: recvs => e = .eintr && usesBudget left recvs
  | .data bytes (.took n) :: recvs =>
      let len := (bytes.take (min left relayChunk)).length
      len ≠ 0 && len ≤ n && (left ≤ len || usesBudget (left - len) recvs)
  | .data _ _ :: _ => false

/-- The flow is given up although no call on it fails: a send of a part of the body takes
nothing, or the reads use the budget up while `errno` is at a value other than would-block. -/
def Flow.abortsHealthy (f : Flow) : FlowEvent → Bool
  | .connected env => f.drainFate env = .spurious
  | .body env => f.state = .active ∧ f.drainFate env = .spurious
  | .writable _ => false
  | .ready readable writable env =>
      let flush := if writable && f.downlinkPaused then f.flushFate env.sends env.drain else .alive
      flush = .spurious ∨ flush = .alive ∧ readable ∧ !f.uplinkWithheld ∧
        usesBudget relayBudget env.recvs ∧ !env.errnoLeft.wouldBlock

/-! ### Recording calls -/

variable {f f' : Flow} {w : Work} {dn up dn' up' : List UInt8}

@[simp] theorem log_calls (w : Work) (c : Call) : (w.log c).flow.calls = w.flow.calls ++ [c] := rfl

@[simp] theorem log_error (w : Work) (c : Call) : (w.log c).error = w.error := rfl

@[simp] theorem fail_error (w : Work) (e : Errno) : (w.fail e).error = some e := rfl

@[simp] theorem fail_flow (w : Work) (e : Errno) : (w.fail e).flow = w.flow := rfl

@[simp] theorem touch_error (w : Work) (now : ℕ) : (w.touch now).error = w.error := rfl

namespace Carries

section
variable (h : Carries f dn up)
include h

/-- A call, and the bytes that are on their way after it. -/
theorem call {c : Call} (hdn : dn ++ c.bodyBytes = c.sentBytes ++ dn')
    (hup : up ++ c.readBytes = c.ackedBytes ++ up') (hends : EndsClean f.calls c)
    (hcalm : c.fate = .alive) (hcalls : f'.calls = f.calls ++ [c])
    (hshut : f'.calls.count .shutdown = if f'.downlinkShutdownDone then 1 else 0)
    (hfin : f'.calls.count .sendFin = if f'.uplinkFinSent then 1 else 0)
    (hseen : f'.finReceivedFromH3 = f.finReceivedFromH3)
    (heof : f'.egressEofSeen = f.egressEofSeen) : Carries f' dn' up' where
  down := by simp [hcalls, h.down, hdn]
  up := by simp [hcalls, h.up, hup]
  shut := hshut
  fin := hfin
  order := by simp [hcalls, h.order, hends]
  finSeen hs := by
    obtain ⟨bytes, hmem⟩ := h.finSeen (hseen ▸ hs)
    exact ⟨bytes, by simp [hcalls, hmem]⟩
  eofSeen hs := by simp [hcalls, h.eofSeen (heof ▸ hs)]
  calm := by
    rw [hcalls]
    exact forall_mem_append.2 ⟨h.calm, by simpa using hcalm⟩

/-- A call that neither ends a direction nor is fatal moves bytes along. -/
theorem log (c : Call) (hdn : dn ++ c.bodyBytes = c.sentBytes ++ dn')
    (hup : up ++ c.readBytes = c.ackedBytes ++ up') (hshut : c ≠ .shutdown) (hfin : c ≠ .sendFin)
    (hcalm : c.fate = .alive) : Carries { f with calls := f.calls ++ [c] } dn' up' :=
  h.call hdn hup (by cases c <;> trivial) hcalm rfl (by simpa [hshut] using h.shut)
    (by simpa [hfin] using h.fin) rfl rfl

theorem quiet (c : Call)
    (hnone : c.bodyBytes = [] ∧ c.sentBytes = [] ∧ c.readBytes = [] ∧ c.ackedBytes = [])
    (hshut : c ≠ .shutdown) (hfin : c ≠ .sendFin) (hcalm : c.fate = .alive) :
    Carries { f with calls := f.calls ++ [c] } dn up :=
  h.log c (by simp [hnone]) (by simp [hnone]) hshut hfin hcalm

theorem doomed {c : Call} : Doomed c.fate { f with calls := f.calls ++ [c] } :=
  ⟨f.calls, c, rfl, rfl, h.calm⟩

end

/-- The socket is shut down when nothing is on its way to it. -/
theorem shutdown (h : Carries f [] up) (hdone : f.downlinkShutdownDone = false)
    (hseen : f.finReceivedFromH3 = true) :
    Carries { f with calls := f.calls ++ [.shutdown], downlinkShutdownDone := true } [] up :=
  h.call (c := .shutdown) rfl (append_nil _) ⟨by simpa using h.down, h.finSeen hseen⟩ rfl rfl
    (by simp [h.shut, hdone]) (by simpa using h.fin) rfl rfl

/-- The response is ended when nothing is on its way into it. -/
theorem sendFin (h : Carries f dn []) (hsent : f.uplinkFinSent = false)
    (hseen : f.egressEofSeen = true) :
    Carries { f with calls := f.calls ++ [.sendFin], uplinkFinSent := true } dn [] :=
  h.call (c := .sendFin) (append_nil _) rfl ⟨by simpa using h.up, h.eofSeen hseen⟩ rfl rfl
    (by simpa using h.shut) (by simp [h.fin, hsent]) rfl rfl

/-- Only the record and the four flags of the ends matter. -/
theorem congr (h : Carries f dn up) (hcalls : f'.calls = f.calls)
    (hdone : f'.downlinkShutdownDone = f.downlinkShutdownDone)
    (hfin : f'.uplinkFinSent = f.uplinkFinSent)
    (hseen : f'.finReceivedFromH3 = true → ∃ bytes, .recvBody bytes true ∈ f.calls)
    (heof : f'.egressEofSeen = true → .recvEof ∈ f.calls) : Carries f' dn up where
  down := hcalls ▸ h.down
  up := hcalls ▸ h.up
  shut := by rw [hcalls, hdone, h.shut]
  fin := by rw [hcalls, hfin, h.fin]
  order := hcalls ▸ h.order
  finSeen := hcalls ▸ hseen
  eofSeen := hcalls ▸ heof
  calm := hcalls ▸ h.calm

theorem frame (h : Carries f dn up) (hcalls : f'.calls = f.calls)
    (hends : (f'.downlinkShutdownDone, f'.uplinkFinSent, f'.finReceivedFromH3, f'.egressEofSeen) =
      (f.downlinkShutdownDone, f.uplinkFinSent, f.finReceivedFromH3, f.egressEofSeen)) :
    Carries f' dn up := by
  simp only [Prod.mk.injEq] at hends
  obtain ⟨hdone, hfin, hseen, heof⟩ := hends
  exact h.congr hcalls hdone hfin (hseen ▸ h.finSeen) (heof ▸ h.eofSeen)

end Carries

theorem Settled.sound (h : Settled w.flow) (hlive : w.error = none) : Sound .alive w :=
  ⟨iff_of_true hlive rfl, fun _ => h, fun hne => absurd rfl hne⟩

/-- A handler that meets a fatal call gives the flow up. -/
theorem Carries.sound_fatal (h : Carries w.flow dn up) {c : Call} (hne : c.fate ≠ .alive)
    (e : Errno) : Sound c.fate ((w.log c).fail e) :=
  ⟨iff_of_false nofun hne, fun halive => absurd halive hne, fun _ => h.doomed⟩

theorem Carries.sound_fail (h : Carries w.flow dn up) {c : Call} (hfate : c.fate = .failed)
    (e : Errno) : Sound .failed ((w.log c).fail e) :=
  hfate ▸ h.sound_fatal (by rw [hfate]; nofun) e

theorem Sound.ends {fate : Fate} (h : Sound fate w) : Ends (fate = .spurious) w :=
  ⟨fate, Iff.rfl, h⟩

theorem Settled.ends (h : Settled w.flow) (hlive : w.error = none) : Ends False w :=
  ⟨.alive, iff_of_false nofun id, h.sound hlive⟩

/-- A call that failed ends the flow rightly. -/
theorem Carries.ends_fail (h : Carries w.flow dn up) {c : Call} (hfate : c.fate = .failed)
    (e : Errno) : Ends False ((w.log c).fail e) :=
  ⟨.failed, iff_of_false nofun id, h.sound_fail hfate e⟩

theorem Ends.congr {p q : Prop} (h : Ends p w) (hiff : p ↔ q) : Ends q w :=
  propext hiff ▸ h

theorem Ends.settled {p : Prop} (h : Ends p w) (hlive : w.error = none) :
    Settled w.flow := by
  obtain ⟨fate, -, hsound⟩ := h
  exact hsound.alive (hsound.live.mp hlive)

/-! ### The common steps -/

/-- A flow whose record and stashes fit, after its interest was brought up to date. -/
theorem Fitting.updateFdInterest (h : Fitting w.flow) : Settled (updateFdInterest w).flow := by
  rw [Egress.updateFdInterest]
  split
  · next hstate => exact ⟨h, fun hactive => absurd hactive hstate⟩
  · refine ⟨⟨?_, h.paused, h.withheld⟩, fun _ => rfl⟩
    exact (h.carries.quiet (.register _ _) ⟨rfl, rfl, rfl, rfl⟩ Call.noConfusion
      Call.noConfusion rfl).frame rfl rfl

@[simp] theorem updateFdInterest_error (w : Work) : (updateFdInterest w).error = w.error := by
  rw [updateFdInterest]
  split <;> rfl

/-- Bringing the interest up to date ends a handler well. -/
theorem Fitting.sound_updateFdInterest (h : Fitting w.flow) (hlive : w.error = none) :
    Sound .alive (Egress.updateFdInterest w) :=
  h.updateFdInterest.sound (by rw [updateFdInterest_error, hlive])

theorem Fitting.ends_updateFdInterest (h : Fitting w.flow) (hlive : w.error = none) :
    Ends False (Egress.updateFdInterest w) :=
  h.updateFdInterest.ends (by rw [updateFdInterest_error, hlive])

theorem Settled.touch (h : Settled w.flow) (now : ℕ) : Settled (w.touch now).flow :=
  ⟨⟨h.carries.frame rfl rfl, h.paused, h.withheld⟩, h.interest⟩

theorem Sound.touch {fate : Fate} (h : Sound fate w) (now : ℕ) : Sound fate (w.touch now) :=
  ⟨h.live, fun halive => (h.alive halive).touch now, h.doomed⟩

/-- The activity clock may be refreshed at the end. -/
theorem Sound.touch_if {fate : Fate} (h : Sound fate w) (now : ℕ) (moved : Bool) :
    Sound fate (if moved then w.touch now else w) := by
  split
  · exact h.touch now
  · exact h

theorem Sound.touch_unless {fate : Fate} (h : Sound fate w) (now : ℕ) (moved : Bool) :
    Sound fate (if w.error.isSome then w else if moved then w.touch now else w) := by
  split
  · exact h
  · exact h.touch_if now moved

/-- A flow that differs from a settled one by further calls. -/
theorem Settled.of_calls (h : Settled f) {calls : List Call}
    (hcarries : Carries { f with calls := calls } dn up) (hdn : dn = f.downlinkStash)
    (hup : up = f.uplinkStash) : Settled { f with calls := calls } := by
  subst hdn hup
  exact ⟨⟨hcarries, h.paused, h.withheld⟩, h.interest⟩

/-- A shutdown comes behind all bytes. -/
theorem Fitting.maybeShutdown (h : Fitting w.flow) : Fitting (maybeShutdownDownlink w).flow := by
  rw [maybeShutdownDownlink]
  split
  · exact h
  · next hdue =>
    simp only [Bool.or_eq_true, Bool.not_eq_true', not_or, Bool.not_eq_false,
      Bool.not_eq_true] at hdue
    have hnil : w.flow.downlinkStash = [] := by
      by_contra hne
      rw [h.paused.mpr hne] at hdue
      exact absurd hdue.1.2 Bool.noConfusion
    have hcarries := h.carries
    rw [hnil] at hcarries
    exact ⟨hnil ▸ hcarries.shutdown hdue.2 hdue.1.1, h.paused, h.withheld⟩

theorem Settled.maybeShutdown (h : Settled w.flow) : Settled (maybeShutdownDownlink w).flow := by
  refine ⟨h.toFitting.maybeShutdown, ?_⟩
  rw [maybeShutdownDownlink]
  split <;> exact h.interest

@[simp] theorem maybeShutdownDownlink_error (w : Work) :
    (maybeShutdownDownlink w).error = w.error := by
  rw [maybeShutdownDownlink]
  split <;> rfl

theorem updateFdInterest_drainFate (w : Work) (env : DrainEnv) :
    (updateFdInterest w).flow.drainFate env = w.flow.drainFate env := by
  obtain ⟨_, _, h⟩ := updateFdInterest_flow w
  rw [h]
  rfl

theorem maybeShutdownDownlink_drainFate (w : Work) (env : DrainEnv) :
    (maybeShutdownDownlink w).flow.drainFate env = w.flow.drainFate env := by
  obtain ⟨_, _, h⟩ := maybeShutdownDownlink_flow w
  rw [h]
  rfl

/-! ### Downlink -/

/-- What a loop of sends leaves: the flow with further calls, and the bytes that are still
to go, a last part of those it was given. -/
structure LoopSpec (w : Work) (buf : List UInt8) (ending : SendEnd) (r : Work × List UInt8)
    (carries : Flow → List UInt8 → Prop) : Prop where
  calls : ∃ more, r.1.flow = { w.flow with calls := w.flow.calls ++ more }
  rest : r.2 <:+ buf
  alive : r.1.error = none → carries r.1.flow r.2 ∧ ending = if r.2 = [] then .all else .blocked
  doomed : r.1.error ≠ none → ∀ all blocked, Sound (ending.andThen all blocked) r.1

section
variable {carries : Flow → List UInt8 → Prop}

variable {buf : List UInt8} {ending : SendEnd}

theorem LoopSpec.stop (w : Work) (hlive : w.error = none) (hcarries : carries w.flow buf) :
    LoopSpec w buf (if buf = [] then .all else .blocked) (w, buf) carries :=
  ⟨⟨[], by simp⟩, suffix_refl _, fun _ => ⟨hcarries, rfl⟩, fun h => absurd hlive h⟩

theorem LoopSpec.fatal (w : Work) {c : Call} {e : Errno}
    (hdoomed : ∀ all blocked, Sound (ending.andThen all blocked) ((w.log c).fail e)) :
    LoopSpec w buf ending ((w.log c).fail e, buf) carries :=
  ⟨⟨[c], rfl⟩, suffix_refl _, fun h => absurd h (Option.some_ne_none _), fun _ => hdoomed⟩

/-- What follows the loop in a handler is done only if the loop has not failed. -/
theorem LoopSpec.andThen {flow : Flow} {error : Option Errno} {rest : List UInt8} {next : Work}
    {motive : Work → Prop} (h : LoopSpec w buf ending (⟨flow, error⟩, rest) carries)
    (hdoomed : error ≠ none → motive ⟨flow, error⟩)
    (hnext : ∀ more, flow = { w.flow with calls := w.flow.calls ++ more } → error = none →
      rest <:+ buf → carries flow rest → (ending = if rest = [] then .all else .blocked) →
      motive next) :
    motive (if error.isSome then ⟨flow, error⟩ else next) := by
  obtain ⟨⟨more, hflow⟩, hrest, halive, -⟩ := h
  split
  · next herr => exact hdoomed (Option.isSome_iff_ne_none.mp herr)
  · next herr =>
    have hnone : error = none := by simpa using herr
    exact hnext more hflow hnone hrest (halive hnone).1 (halive hnone).2

/-- A loop that goes on after a call that took the first `n` bytes. -/
theorem LoopSpec.next {c : Call} {n : ℕ} {r : Work × List UInt8}
    (h : LoopSpec (w.log c) (buf.drop n) ending r carries) : LoopSpec w buf ending r carries := by
  obtain ⟨⟨more, heq⟩, hrest, halive, hdoomed⟩ := h
  refine ⟨⟨c :: more, ?_⟩, hrest.trans (drop_suffix _ _), halive, hdoomed⟩
  rw [heq]
  simp [Work.log]

end

theorem sendLoop_spec (hlive : w.error = none) (buf : List UInt8) (sends : List Send)
    (hcarries : Carries w.flow buf up) :
    LoopSpec w buf (sendEnd buf.length sends) (sendLoop w buf sends)
      fun f rest => Carries f rest up := by
  induction sends generalizing w buf with
  | nil => cases buf <;> exact LoopSpec.stop w hlive hcarries
  | cons send sends ih =>
    cases buf with
    | nil => exact LoopSpec.stop w hlive hcarries
    | cons b buf =>
      cases send with
      | err e =>
        rw [sendLoop, length_cons, sendEnd]
        split
        · exact ih hlive (b :: buf) hcarries
        · split
          · exact LoopSpec.stop w hlive hcarries
          · exact LoopSpec.fatal w fun _ _ => hcarries.sound_fail rfl e
      | took n =>
        cases n with
        | zero =>
          exact LoopSpec.fatal w fun _ _ => hcarries.sound_fatal (c := .sendNothing) nofun _
        | succ n =>
          rw [sendLoop, length_cons, sendEnd]
          have hdrop : buf.length - n = ((b :: buf).drop (n + 1)).length := by simp
          rw [hdrop]
          refine LoopSpec.next (ih (w := w.log (.send ((b :: buf).take (n + 1)))) hlive _ ?_)
          refine hcarries.log _ ?_ (by simp [Call.readBytes, Call.ackedBytes])
            Call.noConfusion Call.noConfusion rfl
          simp [Call.bodyBytes, Call.sentBytes]

/-- Bytes that the socket does not take are stashed, or the flow is given up. -/
theorem stashDownlink_sound (hlive : w.error = none)
    {buf : List UInt8} (hbuf : buf ≠ []) (stashOk : Bool)
    (hcarries : Carries w.flow buf w.flow.uplinkStash)
    (hwithheld : w.flow.uplinkWithheld = true ↔ w.flow.uplinkStash ≠ []) :
    Sound (if w.flow.downlinkBuffer || stashOk then .alive else .failed)
      (stashDownlink w buf stashOk) := by
  have hroom : (!w.flow.downlinkBuffer && !stashOk) = !(w.flow.downlinkBuffer || stashOk) :=
    (Bool.not_or _ _).symm
  rw [stashDownlink, hroom]
  cases w.flow.downlinkBuffer || stashOk with
  | false => exact hcarries.sound_fail rfl _
  | true =>
    exact Fitting.sound_updateFdInterest
      ⟨hcarries.frame rfl rfl, iff_of_true rfl hbuf, hwithheld⟩ hlive

theorem drainLoop_sound (env : DrainEnv) (hlive : w.error = none)
    (hsettled : Settled w.flow)
    (hunpaused : w.flow.downlinkPaused = false) (moved : Bool) (reads : List BodyRead) :
    Sound (drainFate (w.flow.downlinkBuffer || env.stashOk) reads)
      (drainLoop env w moved reads) := by
  induction reads generalizing w moved with
  | nil => exact (hsettled.sound hlive).touch_if _ _
  | cons read reads ih =>
    have hnil : w.flow.downlinkStash = [] := by
      by_contra hne
      rw [hsettled.paused.mpr hne] at hunpaused
      cases hunpaused
    have hcarries := hsettled.carries
    rw [hnil] at hcarries
    cases read with
    | failed => exact hcarries.sound_fail rfl _
    | data bytes fin sends =>
      have htaken : Carries (w.log (.recvBody (bytes.take relayChunk) fin)).flow
          (bytes.take relayChunk) w.flow.uplinkStash := by
        refine hcarries.log _ ?_ (by simp [Call.readBytes, Call.ackedBytes])
          Call.noConfusion Call.noConfusion rfl
        simp [Call.bodyBytes, Call.sentBytes]
      have hloop :=
        sendLoop_spec (w := w.log (.recvBody (bytes.take relayChunk) fin)) hlive _ sends htaken
      rw [drainLoop, drainFate]
      generalize sendLoop (w.log (.recvBody (bytes.take relayChunk) fin)) (bytes.take relayChunk)
        sends = r at hloop ⊢
      obtain ⟨⟨flow, error⟩, rest⟩ := r
      dsimp only
      refine hloop.andThen (fun herr => hloop.doomed herr _ _) ?_
      rintro more rfl rfl - hcarries' hending
      by_cases hne : rest ≠ []
      · -- the socket is full: the rest is stashed
        rw [if_pos hne, hending, if_neg hne, SendEnd.andThen]
        exact (stashDownlink_sound (w := ⟨_, none⟩) rfl hne env.stashOk hcarries'
          hsettled.withheld).touch_unless _ _
      obtain rfl : rest = [] := not_not.mp hne
      rw [if_neg hne, hending, if_pos rfl, SendEnd.andThen]
      have hsettled' := hsettled.of_calls hcarries' hnil.symm rfl
      cases fin with
      | true =>
        -- the body ends here
        have hseen : .recvBody (bytes.take relayChunk) true ∈ w.flow.calls ++
            [.recvBody (bytes.take relayChunk) true] ++ more := by simp
        refine Sound.touch_if (Settled.sound (Settled.maybeShutdown ?_) ?_ : Sound .alive _) _ _
        · exact ⟨⟨hsettled'.carries.congr rfl rfl rfl (fun _ => ⟨_, hseen⟩)
            hsettled'.carries.eofSeen, hsettled'.paused, hsettled'.withheld⟩, hsettled'.interest⟩
        · rw [maybeShutdownDownlink_error]
      | false =>
        by_cases hbuf : bytes.take relayChunk = []
        · rw [Bool.false_or, if_pos (by rw [hbuf]; rfl), if_neg Bool.false_ne_true, if_pos hbuf]
          exact (hsettled'.sound (w := ⟨_, none⟩) rfl).touch_if _ _
        · rw [Bool.false_or, if_neg (by simpa using hbuf), if_neg Bool.false_ne_true, if_neg hbuf]
          exact ih (w := ⟨_, none⟩) rfl hsettled' hunpaused _

theorem drainBody_sound {env : DrainEnv} {fate : Fate} (hfate : w.flow.drainFate env = fate)
    (hlive : w.error = none) (hsettled : Settled w.flow) : Sound fate (drainBody w env) := by
  rw [drainBody, ← hfate, Flow.drainFate]
  split
  · exact hsettled.sound hlive
  · next hunpaused =>
    exact drainLoop_sound env hlive hsettled (by simpa using hunpaused) false env.reads

/-- A stash that waits is sent; when it is gone the body is drained. -/
theorem flushDownlinkRetry_sound (sends : List Send) (env : DrainEnv) (hlive : w.error = none)
    (hsettled : Settled w.flow) (hpaused : w.flow.downlinkPaused = true) :
    Sound (w.flow.flushFate sends env) (flushDownlinkRetry w sends env) := by
  have hloop := sendLoop_spec hlive _ sends hsettled.carries
  rw [flushDownlinkRetry, Flow.flushFate]
  generalize sendLoop w w.flow.downlinkStash sends = r at hloop ⊢
  obtain ⟨⟨flow, error⟩, rest⟩ := r
  dsimp only
  refine hloop.andThen (fun herr => hloop.doomed herr _ _) ?_
  rintro more rfl rfl hrest hcarries' hending
  by_cases hlen : rest.length = w.flow.downlinkStash.length
  · -- nothing went out
    obtain rfl := hrest.eq_of_length hlen
    rw [if_pos rfl, hending, if_neg (hsettled.paused.mp hpaused), SendEnd.andThen]
    exact (hsettled.of_calls hcarries' rfl rfl).sound rfl
  rw [if_neg hlen]
  by_cases hne : rest ≠ []
  · rw [if_pos hne, hending, if_neg hne, SendEnd.andThen]
    exact Settled.sound ⟨⟨hcarries'.frame rfl rfl, iff_of_true hpaused hne, hsettled.withheld⟩,
      hsettled.interest⟩ rfl
  · obtain rfl : rest = [] := not_not.mp hne
    rw [if_neg hne, hending, if_pos rfl, SendEnd.andThen]
    apply drainBody_sound
    · rw [updateFdInterest_drainFate, maybeShutdownDownlink_drainFate]
      rfl
    · rw [updateFdInterest_error, maybeShutdownDownlink_error]
      rfl
    · apply Fitting.updateFdInterest
      apply Fitting.maybeShutdown
      exact ⟨hcarries'.frame rfl rfl, iff_of_false Bool.noConfusion (fun h => h rfl),
        hsettled.withheld⟩

/-! ### Uplink -/

theorem bodyLoop_spec (hlive : w.error = none) (buf : List UInt8) (sends : List BodySend)
    (hcarries : Carries w.flow dn buf) :
    ∃ ending ≠ .nothing, LoopSpec w buf ending (bodyLoop w buf sends)
      fun f rest => Carries f dn rest := by
  induction sends generalizing w buf with
  | nil =>
    cases buf with
    | nil => exact ⟨.all, nofun, LoopSpec.stop w hlive hcarries⟩
    | cons b buf => exact ⟨.blocked, nofun, LoopSpec.stop w hlive hcarries⟩
  | cons send sends ih =>
    cases buf with
    | nil => exact ⟨.all, nofun, LoopSpec.stop w hlive hcarries⟩
    | cons b buf =>
      cases send with
      | again => exact ⟨.blocked, nofun, LoopSpec.stop w hlive hcarries⟩
      | failed =>
        exact ⟨.failed, nofun, LoopSpec.fatal w fun _ _ => hcarries.sound_fail rfl _⟩
      | took n =>
        rw [bodyLoop]
        have hsent : Carries (w.log (.sendBody ((b :: buf).take n))).flow dn
            ((b :: buf).drop n) := by
          refine hcarries.log _ (by simp [Call.bodyBytes, Call.sentBytes]) ?_
            Call.noConfusion Call.noConfusion rfl
          simp [Call.readBytes, Call.ackedBytes]
        obtain ⟨ending, hne, hspec⟩ := ih (w := w.log (.sendBody ((b :: buf).take n))) hlive _ hsent
        exact ⟨ending, hne, hspec.next⟩

/-- The response is ended, unless that has to wait or fails. -/
theorem tryUplinkFin_sound (answer : BodySend) (hlive : w.error = none)
    (hsettled : Settled w.flow)
    (hempty : w.flow.uplinkStash = []) (heof : w.flow.egressEofSeen = true) :
    Ends False (tryUplinkFin w answer) := by
  have hends := hsettled.ends hlive
  unfold tryUplinkFin
  split
  · exact hends
  next hsent =>
  cases answer with
  | again => exact hends
  | failed => exact hsettled.carries.ends_fail rfl _
  | took n =>
    have hcarries := hsettled.carries
    rw [hempty] at hcarries
    exact Settled.ends ⟨⟨hempty ▸ hcarries.sendFin (by simpa using hsent) heof, hsettled.paused,
      hsettled.withheld⟩, hsettled.interest⟩ hlive

theorem pendingUplinkFin_sound (answer : BodySend) (hlive : w.error = none)
    (hsettled : Settled w.flow)
    (hempty : w.flow.uplinkStash = []) : Ends False (pendingUplinkFin w answer) := by
  rw [pendingUplinkFin]
  split
  · next hdue =>
    rw [Bool.and_eq_true] at hdue
    exact tryUplinkFin_sound answer hlive hsettled hempty hdue.1
  · exact hsettled.ends hlive

/-- Bytes that the response does not accept are stashed, or the flow is given up. -/
theorem stashUplink_sound (hlive : w.error = none)
    {buf : List UInt8} (hbuf : buf ≠ []) (stashOk : Bool)
    (hcarries : Carries w.flow w.flow.downlinkStash buf)
    (hpaused : w.flow.downlinkPaused = true ↔ w.flow.downlinkStash ≠ []) :
    Ends False (stashUplink w buf stashOk) := by
  rw [stashUplink]
  split
  · exact hcarries.ends_fail rfl _
  · exact Fitting.ends_updateFdInterest
      ⟨hcarries.frame rfl rfl, hpaused, iff_of_true rfl hbuf⟩ hlive

@[simp] theorem updateFdInterest_uplinkStash (w : Work) :
    (updateFdInterest w).flow.uplinkStash = w.flow.uplinkStash := by
  rw [updateFdInterest]
  split <;> rfl

@[simp] theorem updateFdInterest_egressEofSeen (w : Work) :
    (updateFdInterest w).flow.egressEofSeen = w.flow.egressEofSeen := by
  rw [updateFdInterest]
  split <;> rfl

theorem onH3Writable_sound (env : WritableEnv) (hlive : w.error = none)
    (hsettled : Settled w.flow) :
    Ends False (onH3Writable w env) := by
  rw [onH3Writable]
  split
  · next hheld =>
    obtain ⟨ending, hne, hloop⟩ := bodyLoop_spec hlive _ env.sends hsettled.carries
    dsimp only
    generalize bodyLoop w w.flow.uplinkStash env.sends = r at hloop ⊢
    obtain ⟨⟨flow, error⟩, rest⟩ := r
    dsimp only
    refine hloop.andThen (fun herr => ⟨_, ?_, hloop.doomed herr .alive .alive⟩) ?_
    · cases ending <;> simp_all [SendEnd.andThen]
    rintro more rfl rfl - hcarries' -
    -- a refresh of the activity clock changes nothing that matters
    obtain ⟨now, hnow⟩ : ∃ now : ℕ → ℕ, ∀ w' : Work,
        (if rest.length < w.flow.uplinkStash.length then w'.touch env.now else w') =
          w'.touch (now w'.flow.lastActivityUs) := by
      by_cases hless : rest.length < w.flow.uplinkStash.length
      · exact ⟨fun _ => env.now, fun _ => if_pos hless⟩
      · exact ⟨id, fun _ => if_neg hless⟩
    rw [hnow]
    split
    · next hne =>
      exact Settled.ends ⟨⟨hcarries'.frame rfl rfl, hsettled.paused, iff_of_true hheld hne⟩,
        hsettled.interest⟩ rfl
    · next hgone =>
      obtain rfl : rest = [] := not_not.mp hgone
      apply pendingUplinkFin_sound
      · rw [updateFdInterest_error]
        rfl
      · exact Fitting.updateFdInterest ⟨hcarries'.frame rfl rfl, hsettled.paused,
          iff_of_false Bool.noConfusion (fun h => h rfl)⟩
      · rw [updateFdInterest_uplinkStash]
  · next hheld =>
    refine pendingUplinkFin_sound env.fin hlive hsettled ?_
    by_contra hne
    exact hheld (hsettled.withheld.mpr hne)

/-- What each way out of the read loop leaves. -/
def ReadSpec (w : Work) : ReadEnd → Prop
  | .done => Ends False w
  | .eof => w.error = none ∧ Settled w.flow ∧
      w.flow.uplinkStash = [] ∧ .recvEof ∈ w.flow.calls
  | .failed e => w.error = none ∧
      (e.wouldBlock = true → Settled w.flow) ∧ (e.wouldBlock = false → Doomed .failed w.flow)
  | .budget => w.error = none ∧ Settled w.flow

theorem readLoop_spec (env : ReadyEnv) (hlive : w.error = none)
    (hsettled : Settled w.flow)
    (hfree : w.flow.uplinkWithheld = false) (relayed : ℕ) (recvs : List Recv) :
    ReadSpec (readLoop env w relayed recvs).1 (readLoop env w relayed recvs).2 := by
  induction recvs generalizing w relayed with
  | nil => exact ⟨hlive, fun _ => hsettled, fun h => by cases h⟩
  | cons recv recvs ih =>
    have hempty : w.flow.uplinkStash = [] := by
      by_contra hne
      rw [hsettled.withheld.mpr hne] at hfree
      cases hfree
    have hcarries := hsettled.carries
    rw [hempty] at hcarries
    cases recv with
    | err e =>
      by_cases hintr : e = .eintr
      · rw [readLoop, if_pos hintr]
        exact ih hlive hsettled hfree relayed
      · rw [readLoop, if_neg hintr]
        by_cases hblock : e.wouldBlock = true
        · rw [if_pos hblock]
          exact ⟨hlive, fun _ => hsettled, fun h => by rw [hblock] at h; cases h⟩
        · rw [if_neg hblock]
          exact ⟨hlive, fun h => absurd h hblock, fun _ => hcarries.doomed⟩
    | data bytes body =>
      rw [readLoop]
      dsimp only
      generalize bytes.take (min (relayBudget - relayed) relayChunk) = buf
      by_cases hbuf : buf = []
      · rw [if_pos hbuf]
        refine ⟨hlive, ?_, hempty, by simp⟩
        exact hsettled.of_calls (hcarries.quiet .recvEof ⟨rfl, rfl, rfl, rfl⟩ Call.noConfusion
          Call.noConfusion rfl) rfl hempty.symm
      · rw [if_neg hbuf]
        have hread : Carries ((w.log (.recv buf)).touch env.now).flow w.flow.downlinkStash buf :=
          (hcarries.log (.recv buf) (by simp [Call.bodyBytes, Call.sentBytes])
            (by simp [Call.readBytes, Call.ackedBytes]) Call.noConfusion Call.noConfusion
            rfl).frame rfl rfl
        cases body with
        | failed => exact hread.ends_fail rfl _
        | again =>
          exact stashUplink_sound (w := (w.log _).touch _) hlive hbuf _ hread hsettled.paused
        | took n =>
          dsimp only
          have hsent : Carries (((w.log (.recv buf)).touch env.now).log
              (.sendBody (buf.take n))).flow w.flow.downlinkStash (buf.drop n) := by
            refine hread.log _ (by simp [Call.bodyBytes, Call.sentBytes]) ?_ Call.noConfusion
              Call.noConfusion rfl
            simp [Call.readBytes, Call.ackedBytes]
          by_cases hpart : n < buf.length
          · rw [if_pos hpart]
            refine stashUplink_sound (w := ((w.log (.recv buf)).touch env.now).log _) hlive ?_ _
              hsent hsettled.paused
            exact fun hnil => absurd (drop_eq_nil_iff.mp hnil) (by omega)
          · rw [if_neg hpart]
            rw [drop_eq_nil_of_le (by omega)] at hsent
            have hsettled₁ : Settled (((w.log (.recv buf)).touch env.now).log
                (.sendBody (buf.take n))).flow :=
              ⟨⟨hempty ▸ hsent, hsettled.paused, hsettled.withheld⟩, hsettled.interest⟩
            split
            · exact ⟨hlive, hsettled₁⟩
            · exact ih (w := ((w.log (.recv buf)).touch env.now).log _) hlive hsettled₁ hfree _

/-- The read loop ends with its budget used up if the reads use it up. -/
theorem readLoop_end (env : ReadyEnv) (w : Work) (relayed : ℕ) (recvs : List Recv) :
    (readLoop env w relayed recvs).2 = .budget ↔
      usesBudget (relayBudget - relayed) recvs = true := by
  induction recvs generalizing w relayed with
  | nil => simp [readLoop, usesBudget]
  | cons recv recvs ih =>
    cases recv with
    | err e => by_cases hintr : e = .eintr <;> simp [readLoop, usesBudget, hintr, ih]
    | data bytes body =>
      rw [readLoop]
      by_cases hbuf : bytes.take (min (relayBudget - relayed) relayChunk) = []
      · cases body <;> simp [usesBudget, hbuf]
      cases body with
      | failed | again => simp [usesBudget, hbuf]
      | took n =>
        rw [usesBudget]
        dsimp only
        generalize bytes.take (min (relayBudget - relayed) relayChunk) = buf at hbuf ⊢
        have hlen : buf.length ≠ 0 := mt length_eq_zero_iff.mp hbuf
        rw [if_neg hbuf]
        by_cases hpart : n < buf.length
        · simp [hpart]
        · have hdone : relayBudget ≤ relayed + buf.length ↔ relayBudget - relayed ≤ buf.length := by
            omega
          by_cases hall : relayBudget - relayed ≤ buf.length
          · simp [hpart, hlen, hdone, hall, not_lt.mp hpart]
          · simp [hpart, hlen, hdone, hall, not_lt.mp hpart, ih, Nat.sub_add_eq]

theorem readReady_sound (env : ReadyEnv) (hlive : w.error = none)
    (hsettled : Settled w.flow)
    (hfree : w.flow.uplinkWithheld = false) :
    Ends (usesBudget relayBudget env.recvs = true ∧ env.errnoLeft.wouldBlock = false)
      (readReady w env) := by
  have hspec := readLoop_spec env hlive hsettled hfree 0 env.recvs
  rw [← Nat.sub_zero relayBudget, ← readLoop_end env w 0 env.recvs]
  unfold readReady
  generalize readLoop env w 0 env.recvs = r at hspec ⊢
  obtain ⟨w', e⟩ := r
  cases e with
  | done => exact hspec.congr (by simp)
  | eof =>
    obtain ⟨hlive', hsettled', hempty, hmem⟩ := hspec
    refine Ends.congr (p := False) ?_ (by simp)
    apply tryUplinkFin_sound
    · rw [updateFdInterest_error]
      exact hlive'
    · exact Fitting.updateFdInterest ⟨hsettled'.carries.congr rfl rfl rfl
        hsettled'.carries.finSeen (fun _ => hmem), hsettled'.paused, hsettled'.withheld⟩
    · rw [updateFdInterest_uplinkStash]
      exact hempty
    · rw [updateFdInterest_egressEofSeen]
  | failed e =>
    obtain ⟨hlive', hblock, hfatal⟩ := hspec
    refine Ends.congr (p := False) ?_ (by simp)
    dsimp only
    split
    · next herr =>
      exact ⟨.failed, iff_of_false nofun id, iff_of_false nofun nofun, nofun,
        fun _ => hfatal (by simpa using herr)⟩
    · next herr =>
      have hsettled' := hblock (by simpa using herr)
      exact hsettled'.toFitting.ends_updateFdInterest hlive'
  | budget =>
    obtain ⟨hlive', hsettled'⟩ := hspec
    dsimp only
    split
    · -- the errno of some earlier call is taken for that of the read
      next herr =>
      have hfate : (Call.yield env.errnoLeft).fate = .spurious := by
        simp [Call.fate, Call.spurious, Call.failed, herr]
      refine ⟨_, ?_, hsettled'.carries.sound_fatal (by rw [hfate]; nofun) _⟩
      simpa [hfate] using herr
    · next herr =>
      have hcalm : (Call.yield env.errnoLeft).fate = .alive := by
        simp [Call.fate, Call.spurious, Call.failed, herr]
      have hyield : Settled (w'.log (.yield env.errnoLeft)).flow :=
        hsettled'.of_calls (hsettled'.carries.quiet _ ⟨rfl, rfl, rfl, rfl⟩ Call.noConfusion
          Call.noConfusion hcalm) rfl rfl
      refine (hyield.toFitting.ends_updateFdInterest hlive').congr ?_
      simpa using herr

theorem onRelayReady_sound (readable writable : Bool) (env : ReadyEnv) (hlive : w.error = none)
    (hsettled : Settled w.flow) :
    Ends (w.flow.abortsHealthy (.ready readable writable env) = true)
      (onRelayReady w readable writable env) := by
  rw [onRelayReady, Flow.abortsHealthy, decide_eq_true_iff]
  obtain ⟨w', hw', hsound, hheld⟩ : ∃ w', (if writable && w.flow.downlinkPaused then
      flushDownlinkRetry w env.sends env.drain else w) = w' ∧
      Sound (if writable && w.flow.downlinkPaused then w.flow.flushFate env.sends env.drain
        else .alive) w' ∧ w'.flow.uplinkWithheld = w.flow.uplinkWithheld := by
    refine ⟨_, rfl, ?_⟩
    split
    · next hflush =>
      exact ⟨flushDownlinkRetry_sound env.sends env.drain hlive hsettled
        (Bool.and_eq_true _ _ ▸ hflush).2,
        congrArg Prod.snd (flushDownlinkRetry_kept w env.sends env.drain)⟩
    · exact ⟨hsettled.sound hlive, rfl⟩
  rw [hw', ← hheld]
  generalize (if writable && w.flow.downlinkPaused then w.flow.flushFate env.sends env.drain
    else .alive) = flush at hsound ⊢
  split
  · -- the flush has given the flow up
    next herr =>
    have hdead : flush ≠ .alive := fun halive =>
      Option.isSome_iff_ne_none.mp herr (hsound.live.mpr halive)
    exact hsound.ends.congr (by simp [hdead])
  next herr =>
  have hlive' : w'.error = none := by simpa using herr
  obtain rfl := hsound.live.mp hlive'
  have hsettled' := hsound.alive rfl
  split
  · next hread =>
    rw [Bool.and_eq_true, Bool.not_eq_true'] at hread
    exact (readReady_sound env hlive' hsettled' hread.2).congr (by simp [hread])
  · next hread =>
    refine (hsettled'.toFitting.ends_updateFdInterest hlive').congr ?_
    simp only [Bool.and_eq_true, not_and] at hread
    simp_all

theorem onConnected_sound (env : DrainEnv) (hlive : w.error = none)
    (hsettled : Settled w.flow) :
    Sound (w.flow.drainFate env) (onConnected w env) := by
  rw [onConnected]
  have hactive : Settled (updateFdInterest { w with flow :=
      { w.flow with state := .active, lastActivityUs := env.now } }).flow :=
    Fitting.updateFdInterest ⟨hsettled.carries.frame rfl rfl, hsettled.paused, hsettled.withheld⟩
  apply drainBody_sound
  · exact updateFdInterest_drainFate _ env
  · rw [log_error, updateFdInterest_error]
    exact hlive
  · exact hactive.of_calls (hactive.carries.quiet _ ⟨rfl, rfl, rfl, rfl⟩ Call.noConfusion
      Call.noConfusion rfl) rfl rfl

theorem Settled.fresh (hcalls : f.calls = []) (hstate : f.state = .connecting)
    (hdn : f.downlinkPaused = false ∧ f.downlinkStash = [])
    (hup : f.uplinkWithheld = false ∧ f.uplinkStash = [])
    (hends : f.downlinkShutdownDone = false ∧ f.uplinkFinSent = false)
    (hseen : f.finReceivedFromH3 = false ∧ f.egressEofSeen = false) : Settled f where
  carries :=
    { down := by simp [hcalls, hdn, fromStream, toSocket]
      up := by simp [hcalls, hup, fromSocket, toStream]
      shut := by simp [hcalls, hends]
      fin := by simp [hcalls, hends]
      order := by rw [hcalls]; exact History.each_nil
      finSeen := by simp [hseen]
      eofSeen := by simp [hseen]
      calm := by simp [hcalls] }
  paused := by simp [hdn]
  withheld := by simp [hup]
  interest := fun hactive => by rw [hstate] at hactive; cases hactive

/-- The socket of a flow that is connecting is waited for. -/
theorem Settled.register (h : Settled f) (hstate : f.state = .connecting)
    (wantRead wantWrite : Bool) :
    Settled (Work.register { flow := f } wantRead wantWrite).flow := by
  have hcarries := h.carries.quiet (.register wantRead wantWrite) ⟨rfl, rfl, rfl, rfl⟩
    Call.noConfusion Call.noConfusion rfl
  refine ⟨⟨hcarries.frame rfl rfl, h.paused, h.withheld⟩, ?_⟩
  intro hactive
  exact absurd (hstate.symm.trans hactive) FlowState.noConfusion

/-- **Every event leaves a flow settled, or dooms it.** -/
theorem relay_sound (h : Settled f) (ev : FlowEvent) :
    Ends (f.abortsHealthy ev = true) (relay f ev) := by
  cases ev with
  | connected env => exact (onConnected_sound env rfl h).ends.congr decide_eq_true_iff.symm
  | body env =>
    rw [relay, Flow.abortsHealthy, decide_eq_true_iff]
    split
    · next hstate => exact Ends.congr (h.ends rfl) (iff_of_false id fun hcond => hstate hcond.1)
    · next hstate =>
      exact (drainBody_sound rfl rfl h).ends.congr (and_iff_right (not_not.mp hstate)).symm
  | writable env => exact (onH3Writable_sound env rfl h).congr (iff_of_false id Bool.noConfusion)
  | ready readable writable env =>
    exact onRelayReady_sound (w := { flow := f }) readable writable env rfl h

end Mqvpn.Egress
