import Mqvpn.Lib.Coverage
import Mqvpn.Lib.Loop
import Mqvpn.Lib.Varint

/-!
# The client hello of a QUIC connection

The SNI router reads the server name out of the client hello before it decides who gets the
connection.  The hello comes in CRYPTO frames, spread over the Initial packets of the client
in any order.  Every entry of the router puts the ranges it has seen into a buffer, marks them
in a bitmap and counts the bytes that have arrived without a gap; once these hold the whole
hello, the name is read.

What the allocator answers is given by a script: an answer for each call, `none` if there is
no memory, otherwise what the new memory happens to hold.  A script that ends answers with
zeroed memory.

## Main definitions

* `markRange`, `collectCryptoFrames` — put a range, and the ranges of a packet, into the buffer.
* `extractSni`, `clientHelloStatus` — read the name, and the verdict.

## Main results

* `hello_order_independent` — the order of the packets does not matter.
-/

namespace Mqvpn.Sni

open Coverage List

/-- The answers of the allocator. -/
abbrev Heap := List (Option (List UInt8))

/-- The part of `sni_connection_state_t` that gathers the hello. -/
structure Crypto where
  /-- `crypto_data`; its length is `crypto_cap`. -/
  data : List UInt8 := []
  /-- `crypto_present`. -/
  present : Option (List UInt8) := none
  /-- `crypto_contiguous`. -/
  contiguous : ℕ := 0
  deriving DecidableEq

def Crypto.has (c : Crypto) (i : ℕ) : Bool := Bitmap.test (c.present.getD []) i

/-- What a call that may fail leaves behind. -/
structure Marked where
  ok : Bool
  crypto : Crypto
  heap : Heap
  deriving DecidableEq

/-! ### Ranges -/

/-- The loop that doubles the capacity. -/
def growStep (limit stop cap : ℕ) : Option ℕ :=
  if cap < stop ∧ cap < limit / 2 then some (cap * 2) else none

/-- The capacity that has room for `stop` bytes. -/
def growCap (limit stop cap : ℕ) : ℕ :=
  let cap := Loop.run (growStep limit stop) stop (if cap = 0 then 1024 else cap)
  if cap < stop then stop else cap

/-- `realloc`: what was there stays, the rest is what the memory holds. -/
def realloc (data : List UInt8) (cap : ℕ) (junk : List UInt8) : List UInt8 :=
  (List.range cap).map fun i => (data ++ junk).getD i 0

/-- Make room for `stop` bytes. -/
def ensureData (limit stop : ℕ) (c : Crypto) (heap : Heap) : Marked :=
  if c.data.length < stop then
    match heap.headD (some []) with
    | none => ⟨false, c, heap.tail⟩
    | some junk =>
        let cap := growCap limit stop c.data.length
        ⟨true, { c with data := realloc c.data cap junk }, heap.tail⟩
  else ⟨true, c, heap⟩

/-- The bitmap is allocated at the first range. -/
def ensurePresent (limit : ℕ) (c : Crypto) (heap : Heap) : Marked :=
  match c.present with
  | some _ => ⟨true, c, heap⟩
  | none =>
      match heap.headD (some []) with
      | none => ⟨false, c, heap.tail⟩
      | some _ => ⟨true, { c with present := some (List.replicate ((limit + 7) / 8) 0) }, heap.tail⟩

/-- Mark so many positions from `i` on. -/
def markBits (bm : List UInt8) (i : ℕ) : ℕ → List UInt8
  | 0 => bm
  | len + 1 => markBits (Bitmap.set bm i) (i + 1) len

/-- One round of the loop that counts the bytes without a gap. -/
def contiguousStep (limit : ℕ) (bm : List UInt8) (n : ℕ) : Option ℕ :=
  if n < limit ∧ Bitmap.test bm n = true then some (n + 1) else none

def copyRange (limit : ℕ) (c : Crypto) (r : Piece UInt8) : Crypto :=
  let bm := markBits (c.present.getD []) r.offset r.data.length
  { data := write c.data r
    present := some bm
    contiguous := Loop.run (contiguousStep limit bm) limit c.contiguous }

/-- `crypto_mark_range`. -/
def markRange (limit : ℕ) (c : Crypto) (heap : Heap) (r : Piece UInt8) : Marked :=
  if limit < r.offset ∨ limit - r.offset < r.data.length then ⟨false, c, heap⟩
  else
    let m := ensureData limit r.stop c heap
    if !m.ok then m
    else
      let m := ensurePresent limit m.crypto m.heap
      if !m.ok then m else { m with crypto := copyRange limit m.crypto r }

/-! ### Frames -/

/-- Step over so many numbers. -/
def skipVarints : ℕ → List UInt8 → Option (List UInt8)
  | 0, bytes => some bytes
  | n + 1, bytes =>
      match Varint.decode bytes with
      | none => none
      | some (_, rest) => skipVarints n rest

/-- `skip_ack_frame`. -/
def skipAckFrame (bytes : List UInt8) (ecn : Bool) : Option (List UInt8) := do
  let bytes ← skipVarints 2 bytes
  let (rangeCount, bytes) ← Varint.decode bytes
  let bytes ← skipVarints 1 bytes
  let bytes ← skipVarints (rangeCount * 2) bytes
  if ecn then skipVarints 3 bytes else some bytes

inductive Frame where
  | skipped
  | crypto (r : Piece UInt8)
  | close
  deriving DecidableEq

/-- The offset, the length and the data of a CRYPTO frame. -/
def cryptoFrame (bytes : List UInt8) : Option (Frame × List UInt8) := do
  let (offset, bytes) ← Varint.decode bytes
  let (len, bytes) ← Varint.decode bytes
  if bytes.length < len then none
  else some (.crypto ⟨offset, bytes.take len⟩, bytes.drop len)

/-- The first frame, and what follows it. -/
def nextFrame (bytes : List UInt8) : Option (Frame × List UInt8) := do
  let (ty, bytes) ← Varint.decode bytes
  if ty = 0x00 ∨ ty = 0x01 then some (.skipped, bytes)
  else if ty = 0x02 ∨ ty = 0x03 then
    (skipAckFrame bytes (ty == 0x03)).map fun rest => (.skipped, rest)
  else if ty = 0x06 then cryptoFrame bytes
  else if ty = 0x1c ∨ ty = 0x1d then some (.close, bytes)
  else none

/-- The loop of `collect_crypto_frames`; every frame takes a byte at least. -/
def collectLoop (limit : ℕ) : ℕ → List UInt8 → Crypto → Heap → Marked
  | 0, _, c, heap => ⟨true, c, heap⟩
  | fuel + 1, bytes, c, heap =>
      if bytes = [] then ⟨true, c, heap⟩
      else
        match nextFrame bytes with
        | none => ⟨false, c, heap⟩
        | some (.skipped, rest) => collectLoop limit fuel rest c heap
        | some (.close, _) => ⟨true, c, heap⟩
        | some (.crypto r, rest) =>
            let m := markRange limit c heap r
            if m.ok then collectLoop limit fuel rest m.crypto m.heap else m

/-- `collect_crypto_frames`. -/
def collectCryptoFrames (limit : ℕ) (c : Crypto) (heap : Heap) (plaintext : List UInt8) : Marked :=
  collectLoop limit plaintext.length plaintext c heap

/-! ### The name -/

/-- A number of two bytes. -/
def readU16 : List UInt8 → Option (ℕ × List UInt8)
  | a :: b :: rest => some (a.toNat * 256 + b.toNat, rest)
  | _ => none

/-- Step over a vector with a length of one byte. -/
def skipVec8 : List UInt8 → Option (List UInt8)
  | [] => none
  | n :: rest => if rest.length < n.toNat then none else some (rest.drop n.toNat)

/-- Step over a vector with a length of two bytes. -/
def skipVec16 (bytes : List UInt8) : Option (List UInt8) := do
  let (n, rest) ← readU16 bytes
  if rest.length < n then none else some (rest.drop n)

/-- `ascii_tolower`. -/
def asciiToLower (c : UInt8) : UInt8 := if 0x41 ≤ c ∧ c ≤ 0x5a then c + 0x20 else c

/-- A host name: neither empty nor too long for the caller's buffer, and printable. -/
def readName (cap : ℕ) (name : List UInt8) : Option (List UInt8) :=
  if name.length = 0 ∨ cap ≤ name.length ∨ (0 : UInt8) ∈ name then none
  else if name.any fun c => decide (c ≤ 0x20 ∨ 0x7f ≤ c) then none
  else some (name.map asciiToLower)

def nameLoop (cap : ℕ) : ℕ → List UInt8 → Option (List UInt8)
  | 0, _ => none
  | fuel + 1, bytes =>
      match bytes with
      | ty :: hi :: lo :: rest =>
          let n := hi.toNat * 256 + lo.toNat
          if rest.length < n then none
          else if ty = 0 then readName cap (rest.take n)
          else nameLoop cap fuel (rest.drop n)
      | _ => none

def readServerName (cap : ℕ) (ext : List UInt8) : Option (List UInt8) := do
  let (listLen, names) ← readU16 ext
  if listLen ≠ names.length then none else nameLoop cap names.length names

def extensionLoop (cap : ℕ) : ℕ → List UInt8 → Option (List UInt8)
  | 0, _ => none
  | fuel + 1, bytes =>
      match bytes with
      | t1 :: t0 :: n1 :: n0 :: rest =>
          let n := n1.toNat * 256 + n0.toNat
          if rest.length < n then none
          else if t1 = 0 ∧ t0 = 0 then readServerName cap (rest.take n)
          else extensionLoop cap fuel (rest.drop n)
      | _ => none

def messageLen (data : List UInt8) : ℕ :=
  (data.getD 1 0).toNat * 2 ^ 16 + (data.getD 2 0).toNat * 2 ^ 8 + (data.getD 3 0).toNat

/-- `extract_sni`. -/
def extractSni (data : List UInt8) (cap : ℕ) : Option (List UInt8) :=
  if data.length < 4 ∨ data.getD 0 0 ≠ 0x01 then none
  else if data.length - 4 < messageLen data ∨ messageLen data < 38 then none
  else do
    -- the version and the random bytes are stepped over
    let rest ← skipVec8 ((data.take (4 + messageLen data)).drop (4 + 2 + 32))
    let rest ← skipVec16 rest
    let rest ← skipVec8 rest
    let (extensionsLen, exts) ← readU16 rest
    if extensionsLen ≠ exts.length then none else extensionLoop cap exts.length exts

/-- The answer of `client_hello_status`. -/
inductive HelloStatus where
  | incomplete
  | name (sni : List UInt8)
  | bad
  deriving DecidableEq

/-- `client_hello_status`. -/
def clientHelloStatus (c : Crypto) (cap : ℕ) : HelloStatus :=
  if c.contiguous < 4 then .incomplete
  else if c.contiguous < 4 + messageLen c.data then .incomplete
  else
    match extractSni (c.data.take (4 + messageLen c.data)) cap with
    | some sni => .name sni
    | none => .bad

/-! ### The ranges of a packet -/

/-- The ranges of a packet, in their order, and whether it is well formed. -/
def rangesLoop : ℕ → List UInt8 → List (Piece UInt8) × Bool
  | 0, _ => ([], true)
  | fuel + 1, bytes =>
      if bytes = [] then ([], true)
      else
        match nextFrame bytes with
        | none => ([], false)
        | some (.skipped, rest) => rangesLoop fuel rest
        | some (.close, _) => ([], true)
        | some (.crypto r, rest) => (r :: (rangesLoop fuel rest).1, (rangesLoop fuel rest).2)

def cryptoRanges (plaintext : List UInt8) : List (Piece UInt8) :=
  (rangesLoop plaintext.length plaintext).1

def wellFormed (plaintext : List UInt8) : Bool := (rangesLoop plaintext.length plaintext).2

/-- Mark ranges one after the other, as far as that goes. -/
def markAll (limit : ℕ) : Crypto → Heap → List (Piece UInt8) → Marked
  | c, heap, [] => ⟨true, c, heap⟩
  | c, heap, r :: rs =>
      let m := markRange limit c heap r
      if m.ok then markAll limit m.crypto m.heap rs else m

/-- Collect packets one after the other, as far as that goes. -/
def collectAll (limit : ℕ) : Crypto → Heap → List (List UInt8) → Marked
  | c, heap, [] => ⟨true, c, heap⟩
  | c, heap, p :: ps =>
      let m := collectCryptoFrames limit c heap p
      if m.ok then collectAll limit m.crypto m.heap ps else m

/-- The loop marks the ranges of the packet; it fails if one of them does, or else if the packet
is not well formed. -/
theorem collectLoop_eq (limit : ℕ) : ∀ (fuel : ℕ) (bytes : List UInt8) (c : Crypto) (heap : Heap),
    collectLoop limit fuel bytes c heap =
      let m := markAll limit c heap (rangesLoop fuel bytes).1
      { m with ok := m.ok && (rangesLoop fuel bytes).2 } := by
  intro fuel
  induction fuel with
  | zero => intro bytes c heap; rfl
  | succ fuel ih =>
    intro bytes c heap
    by_cases hnil : bytes = []
    · simp [collectLoop, rangesLoop, hnil, markAll]
    · unfold collectLoop rangesLoop
      rw [if_neg hnil, if_neg hnil]
      match nextFrame bytes with
      | none => rfl
      | some (.skipped, rest) => exact ih rest c heap
      | some (.close, rest) => rfl
      | some (.crypto r, rest) =>
        cases hok : (markRange limit c heap r).ok with
        | true => simpa [markAll, hok] using ih rest _ _
        | false =>
          simp only [markAll, hok, Bool.false_eq_true, if_false, Bool.false_and]
          rw [← hok]

theorem collectCryptoFrames_eq {limit : ℕ} {c : Crypto} {heap : Heap} {p : List UInt8}
    (hwf : wellFormed p = true) :
    collectCryptoFrames limit c heap p = markAll limit c heap (cryptoRanges p) := by
  have hwf' : (rangesLoop p.length p).2 = true := hwf
  rw [collectCryptoFrames, collectLoop_eq, hwf']
  simp [cryptoRanges]

/-- Packets are a way to group ranges. -/
theorem markAll_append (limit : ℕ) (rs rs' : List (Piece UInt8)) (c : Crypto) (heap : Heap) :
    markAll limit c heap (rs ++ rs') =
      let m := markAll limit c heap rs
      if m.ok then markAll limit m.crypto m.heap rs' else m := by
  induction rs generalizing c heap with
  | nil => rfl
  | cons r rs ih =>
    rw [cons_append, markAll, markAll]
    cases hok : (markRange limit c heap r).ok with
    | true => simpa using ih _ _
    | false => simp [hok]

theorem collectAll_eq {limit : ℕ} : ∀ {ps : List (List UInt8)} {c : Crypto} {heap : Heap},
    (∀ p ∈ ps, wellFormed p = true) →
    collectAll limit c heap ps = markAll limit c heap (ps.flatMap cryptoRanges) := by
  intro ps
  induction ps with
  | nil => intro c heap _; rfl
  | cons p ps ih =>
    intro c heap hwf
    rw [flatMap_cons, markAll_append, collectAll,
      collectCryptoFrames_eq (hwf p (mem_cons_self ..))]
    dsimp only
    by_cases hok : (markAll limit c heap (cryptoRanges p)).ok = true
    · rw [if_pos hok, if_pos hok]
      exact ih fun q hq => hwf q (mem_cons_of_mem _ hq)
    · rw [if_neg hok, if_neg hok]

/-! ### One range -/

theorem le_growCap (limit stop cap : ℕ) : stop ≤ growCap limit stop cap := by
  simp only [growCap]
  generalize Loop.run _ _ _ = n
  split <;> omega

theorem cap_le_growCap (limit stop cap : ℕ) : cap ≤ growCap limit stop cap := by
  have hloop : cap ≤ Loop.run (growStep limit stop) stop (if cap = 0 then 1024 else cap) := by
    apply Loop.run_inv (P := fun n => cap ≤ n)
    · intro n n' hn hstep
      unfold growStep at hstep
      split at hstep
      · obtain rfl := Option.some.inj hstep
        omega
      · cases hstep
    · split <;> omega
  simp only [growCap]
  generalize Loop.run _ _ _ = n at hloop ⊢
  split <;> omega

@[simp] theorem length_realloc (data junk : List UInt8) (cap : ℕ) :
    (realloc data cap junk).length = cap := by
  simp [realloc]

theorem getElem?_realloc {data junk : List UInt8} {cap i : ℕ} (hcap : data.length ≤ cap)
    (hi : i < data.length) : (realloc data cap junk)[i]? = data[i]? := by
  have hlt : i < cap := Nat.lt_of_lt_of_le hi hcap
  rw [realloc, getElem?_map, getElem?_range hlt, Option.map_some,
    getD_eq_getElem?_getD, getElem?_append_left hi, getElem?_eq_getElem hi]
  rfl

theorem length_markBits (len : ℕ) : ∀ (bm : List UInt8) (i : ℕ),
    (markBits bm i len).length = bm.length := by
  induction len with
  | zero => intro bm i; rfl
  | succ len ih => intro bm i; rw [markBits, ih, Bitmap.length_set]

/-- Exactly the positions of the range are marked in addition. -/
theorem test_markBits (len : ℕ) : ∀ {bm : List UInt8} {i : ℕ}, (i + len + 7) / 8 ≤ bm.length →
    ∀ j, Bitmap.test (markBits bm i len) j = true ↔
      Bitmap.test bm j = true ∨ i ≤ j ∧ j < i + len := by
  induction len with
  | zero =>
    intro bm i _ j
    have hno : ¬ (i ≤ j ∧ j < i + 0) := by omega
    simp only [markBits, hno, or_false]
  | succ len ih =>
    intro bm i hlen j
    have hbyte : i / 8 < bm.length := by omega
    rw [markBits, ih (by rw [Bitmap.length_set]; omega), Bitmap.test_set hbyte,
      Bool.or_eq_true, decide_eq_true_eq, or_assoc]
    apply or_congr_right
    omega

/-! ### The buffer holds the ranges -/

/-- The ranges `rs` were marked. -/
structure Filled (limit : ℕ) (rs : List (Piece UInt8)) (c : Crypto) : Prop where
  within : ∀ r ∈ rs, r.stop ≤ limit
  has : ∀ i, c.has i = true ↔ Covered rs i
  size : ∀ bm, c.present = some bm → bm.length = (limit + 7) / 8
  holds : Holds rs c.data
  run : IsRun (Covered rs) c.contiguous

theorem Filled.empty (limit : ℕ) : Filled limit [] {} where
  within r hr := absurd hr not_mem_nil
  has i := by
    have hnone : ¬ Covered ([] : List (Piece UInt8)) i := fun ⟨r, hr, _⟩ => absurd hr not_mem_nil
    simp [Crypto.has, Bitmap.test, hnone]
  size bm hbm := by cases hbm
  holds r hr := absurd hr not_mem_nil
  run := ⟨fun i hi => absurd hi (Nat.not_lt_zero i), fun ⟨r, hr, _⟩ => absurd hr not_mem_nil⟩

variable {limit : ℕ} {rs : List (Piece UInt8)} {c : Crypto} {heap : Heap} {r : Piece UInt8}

/-- Making room changes nothing that is covered. -/
theorem Filled.ensureData (h : Filled limit rs c) (stop : ℕ) :
    Filled limit rs (ensureData limit stop c heap).crypto := by
  unfold Sni.ensureData
  split
  · split
    · exact h
    · refine { h with holds := fun q hq i x hx => ?_ }
      have hget := h.holds q hq i x hx
      have hlt := (List.getElem?_eq_some_iff.mp hget).1
      show (realloc _ _ _)[i]? = _
      rw [getElem?_realloc (cap_le_growCap ..) hlt, hget]
  · exact h

theorem length_ensureData {stop : ℕ} (hok : (Sni.ensureData limit stop c heap).ok = true) :
    stop ≤ (Sni.ensureData limit stop c heap).crypto.data.length := by
  revert hok
  unfold Sni.ensureData
  split
  · split
    · intro hok; cases hok
    · intro _
      show stop ≤ (realloc _ _ _).length
      rw [length_realloc]
      exact le_growCap ..
  · intro _
    show stop ≤ c.data.length
    omega

/-- A fresh bitmap marks nothing. -/
theorem Filled.ensurePresent (h : Filled limit rs c) :
    Filled limit rs (ensurePresent limit c heap).crypto := by
  unfold Sni.ensurePresent
  split
  · exact h
  · next hnone =>
    split
    · exact h
    · refine { h with has := fun i => ?_, size := fun bm hbm => ?_ }
      · have hold := h.has i
        rw [Crypto.has, hnone] at hold
        rw [← hold]
        simp [Crypto.has, Bitmap.test]
      · obtain rfl := Option.some.inj hbm
        exact length_replicate ..

theorem ensurePresent_some (hok : (ensurePresent limit c heap).ok = true) :
    ∃ bm, (ensurePresent limit c heap).crypto.present = some bm := by
  revert hok
  unfold ensurePresent
  split
  · next bm hbm => exact fun _ => ⟨bm, hbm⟩
  · split
    · intro hok; cases hok
    · exact fun _ => ⟨_, rfl⟩

theorem ensurePresent_data :
    (ensurePresent limit c heap).crypto.data = c.data := by
  unfold ensurePresent
  split
  · rfl
  · split <;> rfl

/-- The counting loop ends at the first gap. -/
theorem isRun_contiguous {bm : List UInt8} {C : ℕ → Prop} {n : ℕ}
    (htest : ∀ i, Bitmap.test bm i = true ↔ C i) (hbound : ∀ i, C i → i < limit)
    (hn : ∀ i < n, C i) : IsRun C (Loop.run (contiguousStep limit bm) limit n) := by
  have hstep : ∀ m m', (∀ i < m, C i) → contiguousStep limit bm m = some m' →
      (∀ i < m', C i) ∧ limit - m' < limit - m := by
    intro m m' hm hs
    unfold contiguousStep at hs
    split at hs
    · next hgo =>
      obtain rfl := Option.some.inj hs
      refine ⟨fun i hi => ?_, by omega⟩
      rcases Nat.lt_succ_iff_lt_or_eq.mp hi with hlt | rfl
      · exact hm i hlt
      · exact (htest i).mp hgo.2
    · cases hs
  have hrun := Loop.run_inv (fun m m' hm hs => (hstep m m' hm hs).1) limit n hn
  have hstop := Loop.run_stops (fun m => limit - m) hstep limit n hn (Nat.sub_le ..)
  refine ⟨hrun, fun hC => ?_⟩
  unfold contiguousStep at hstop
  split at hstop
  · cases hstop
  · next hgo => exact hgo ⟨hbound _ hC, (htest _).mpr hC⟩

/-- **One more range**: it is covered in addition, and the count is taken up to the next gap. -/
theorem Filled.copyRange (h : Filled limit rs c) {bm : List UInt8} (hbm : c.present = some bm)
    (hr : r.stop ≤ limit) (hdata : r.stop ≤ c.data.length) (hagree : Agree (rs ++ [r])) :
    Filled limit (rs ++ [r]) (copyRange limit c r) := by
  have hsize : bm.length = (limit + 7) / 8 := h.size bm hbm
  have hwithin : ∀ q ∈ rs ++ [r], q.stop ≤ limit := by
    intro q hq
    rcases mem_append.mp hq with hq | hq
    · exact h.within q hq
    · rwa [mem_singleton.mp hq]
  have htest : ∀ i, Bitmap.test (markBits bm r.offset r.data.length) i = true ↔
      Covered (rs ++ [r]) i := by
    intro i
    have hold := h.has i
    rw [Crypto.has, hbm] at hold
    unfold Piece.stop at hr
    rw [test_markBits _ (by omega), covered_append, covered_singleton]
    exact or_congr hold Iff.rfl
  have hmark : (Sni.copyRange limit c r).present = some (markBits bm r.offset r.data.length) := by
    rw [Sni.copyRange, hbm]; rfl
  refine ⟨hwithin, fun i => ?_, fun bm' hbm' => ?_, h.holds.write hagree hdata, ?_⟩
  · rw [Crypto.has, hmark]
    exact htest i
  · rw [hmark] at hbm'
    obtain rfl := Option.some.inj hbm'
    rw [length_markBits, hsize]
  · show IsRun _ (Loop.run (contiguousStep limit (markBits (c.present.getD []) _ _)) limit _)
    rw [hbm]
    refine isRun_contiguous htest ?_ ?_
    · intro i hi
      obtain ⟨q, hq, hcov⟩ := hi
      exact Nat.lt_of_lt_of_le hcov.2 (hwithin q hq)
    · intro i hi
      exact covered_append.mpr (Or.inl (h.run.1 i hi))

theorem Filled.markRange (h : Filled limit rs c) (hagree : Agree (rs ++ [r]))
    (hok : (markRange limit c heap r).ok = true) :
    Filled limit (rs ++ [r]) (markRange limit c heap r).crypto := by
  revert hok
  unfold Sni.markRange
  split
  · intro hok; cases hok
  · next hbounds =>
    dsimp only
    split
    · next hno => intro hok; rw [hok] at hno; cases hno
    · next hdata =>
      split
      · next hno => intro hok; rw [hok] at hno; cases hno
      · next hpresent =>
        intro _
        simp only [Bool.not_eq_true', Bool.not_eq_false] at hdata hpresent
        obtain ⟨bm, hbm⟩ := ensurePresent_some hpresent
        refine (h.ensureData r.stop).ensurePresent.copyRange hbm ?_ ?_ hagree
        · unfold Piece.stop; omega
        · rw [ensurePresent_data]
          exact length_ensureData hdata

theorem Filled.markAll : ∀ {qs rs : List (Piece UInt8)} {c : Crypto} {heap : Heap},
    Filled limit rs c → Agree (rs ++ qs) → (markAll limit c heap qs).ok = true →
    Filled limit (rs ++ qs) (markAll limit c heap qs).crypto := by
  intro qs
  induction qs with
  | nil => intro rs c heap h _ _; rw [append_nil]; exact h
  | cons q qs ih =>
    intro rs c heap h hagree hok
    rw [append_cons] at hagree ⊢
    unfold Sni.markAll at hok ⊢
    dsimp only at hok ⊢
    split at hok
    · next hq =>
      rw [if_pos hq]
      refine ih (h.markRange (hagree.mono fun p hp => ?_) hq) hagree hok
      exact mem_append_left _ hp
    · next hq => exact absurd hok hq

theorem filled_markAll {qs : List (Piece UInt8)} (hagree : Agree qs)
    (hok : (markAll limit {} heap qs).ok = true) :
    Filled limit qs (markAll limit {} heap qs).crypto :=
  (Filled.empty limit).markAll hagree hok

/-! ### Ranges within the limit are accepted -/

theorem headD_some {heap : Heap} (h : none ∉ heap) : ∃ junk, heap.headD (some []) = some junk := by
  cases heap with
  | nil => exact ⟨[], rfl⟩
  | cons a heap =>
    cases a with
    | none => exact absurd (mem_cons_self ..) h
    | some junk => exact ⟨junk, rfl⟩

theorem ensureData_ok (h : none ∉ heap) (stop : ℕ) :
    (ensureData limit stop c heap).ok = true ∧ none ∉ (ensureData limit stop c heap).heap := by
  obtain ⟨junk, hjunk⟩ := headD_some h
  unfold ensureData
  split
  · rw [hjunk]
    exact ⟨rfl, fun hmem => h (mem_of_mem_tail hmem)⟩
  · exact ⟨rfl, h⟩

theorem ensurePresent_ok (h : none ∉ heap) :
    (ensurePresent limit c heap).ok = true ∧ none ∉ (ensurePresent limit c heap).heap := by
  obtain ⟨junk, hjunk⟩ := headD_some h
  unfold ensurePresent
  split
  · exact ⟨rfl, h⟩
  · rw [hjunk]
    exact ⟨rfl, fun hmem => h (mem_of_mem_tail hmem)⟩

theorem markRange_ok (h : none ∉ heap) (hr : r.stop ≤ limit) :
    (markRange limit c heap r).ok = true ∧ none ∉ (markRange limit c heap r).heap := by
  unfold Piece.stop at hr
  obtain ⟨hdata, hheap⟩ := @ensureData_ok limit c heap h r.stop
  obtain ⟨hpresent, hheap'⟩ :=
    @ensurePresent_ok limit (ensureData limit r.stop c heap).crypto _ hheap
  unfold markRange
  rw [if_neg (by omega)]
  simp only [hdata, hpresent, Bool.not_true, Bool.false_eq_true, if_false, true_and]
  exact hheap'

theorem markAll_ok : ∀ {rs : List (Piece UInt8)} {c : Crypto} {heap : Heap}, none ∉ heap →
    (∀ r ∈ rs, r.stop ≤ limit) → (markAll limit c heap rs).ok = true := by
  intro rs
  induction rs with
  | nil => intro c heap _ _; rfl
  | cons r rs ih =>
    intro c heap h hrs
    obtain ⟨hok, hheap⟩ := markRange_ok (c := c) h (hrs r (mem_cons_self ..))
    unfold markAll
    rw [if_pos hok]
    exact ih hheap fun q hq => hrs q (mem_cons_of_mem _ hq)

/-! ### The verdict -/

/-- Buffers that agree up to `n` have the same first `n` bytes. -/
theorem take_eq_take {a b : List UInt8} {n : ℕ} (h : ∀ i < n, a[i]? = b[i]?) :
    a.take n = b.take n := by
  apply ext_getElem?
  intro i
  by_cases hi : i < n
  · rw [getElem?_take_of_lt hi, getElem?_take_of_lt hi, h i hi]
  · rw [getElem?_take_eq_none (by omega), getElem?_take_eq_none (by omega)]

theorem messageLen_congr {a b : List UInt8} (h : ∀ i < 4, a[i]? = b[i]?) :
    messageLen a = messageLen b := by
  simp only [messageLen, getD_eq_getElem?_getD, h 1 (by decide), h 2 (by decide),
    h 3 (by decide)]

/-- The verdict reads the bytes without a gap only. -/
theorem clientHelloStatus_congr {c c' : Crypto} (hmore : c.contiguous ≤ c'.contiguous)
    (hdata : ∀ i < c.contiguous, c.data[i]? = c'.data[i]?) (cap : ℕ)
    (hdone : clientHelloStatus c cap ≠ .incomplete) :
    clientHelloStatus c' cap = clientHelloStatus c cap := by
  unfold clientHelloStatus at hdone ⊢
  split at hdone
  · exact absurd rfl hdone
  next hfour =>
  split at hdone
  · exact absurd rfl hdone
  next hall =>
  have hlen : messageLen c'.data = messageLen c.data :=
    (messageLen_congr fun i hi => hdata i (by omega)).symm
  have htake : c'.data.take (4 + messageLen c.data) = c.data.take (4 + messageLen c.data) :=
    (take_eq_take fun i hi => hdata i (by omega)).symm
  rw [hlen, htake, if_neg (by omega), if_neg (by omega), if_neg hfour, if_neg hall]

/-- Entries that hold the same ranges have the same verdict. -/
theorem Filled.clientHelloStatus_eq {c c' : Crypto} {qs : List (Piece UInt8)}
    (h : Filled limit rs c) (h' : Filled limit qs c') (hp : rs.Perm qs) (cap : ℕ) :
    clientHelloStatus c cap = clientHelloStatus c' cap := by
  have hn : c.contiguous = c'.contiguous := h.run.unique h'.run fun i => covered_perm hp
  have hdata : ∀ i < c.contiguous, c.data[i]? = c'.data[i]? := fun i hi =>
    h.holds.getElem?_eq h'.holds hp (h.run.1 i hi)
  by_cases hdone : clientHelloStatus c cap = .incomplete
  · by_contra hne
    have hdone' : clientHelloStatus c' cap ≠ .incomplete := fun h0 => hne (hdone.trans h0.symm)
    exact hne (clientHelloStatus_congr hn.symm.le
      (fun i hi => (hdata i (by omega)).symm) cap hdone')
  · exact (clientHelloStatus_congr hn.le hdata cap hdone).symm

/-- **The order of the packets does not matter.**  Let the ranges of the packets lie within the
limit and agree where they overlap, and let other packets, in whatever order, carry the same
ranges.  Then all are accepted, the same positions are present with the same bytes, the count
is the longest run the ranges cover, and the verdict and the name are the same. -/
theorem hello_order_independent {limit : ℕ} {ps qs : List (List UInt8)} {heap heap' : Heap}
    (hperm : (ps.flatMap cryptoRanges).Perm (qs.flatMap cryptoRanges))
    (hagree : Agree (ps.flatMap cryptoRanges))
    (hwithin : ∀ r ∈ ps.flatMap cryptoRanges, r.stop ≤ limit)
    (hwf : ∀ p ∈ ps, wellFormed p = true) (hwf' : ∀ q ∈ qs, wellFormed q = true)
    (hheap : none ∉ heap) (hheap' : none ∉ heap') :
    let m := collectAll limit {} heap ps
    let m' := collectAll limit {} heap' qs
    m.ok = true ∧ m'.ok = true ∧
    (∀ i, m.crypto.has i = true ↔ Covered (ps.flatMap cryptoRanges) i) ∧
    (∀ i, m'.crypto.has i = m.crypto.has i) ∧
    (∀ r ∈ ps.flatMap cryptoRanges, ∀ i x, r.At i x →
      m.crypto.data[i]? = some x ∧ m'.crypto.data[i]? = some x) ∧
    IsRun (Covered (ps.flatMap cryptoRanges)) m.crypto.contiguous ∧
    m'.crypto.contiguous = m.crypto.contiguous ∧
    ∀ cap, clientHelloStatus m'.crypto cap = clientHelloStatus m.crypto cap := by
  have hagree' : Agree (qs.flatMap cryptoRanges) := hagree.mono fun r hr => hperm.mem_iff.mpr hr
  have hwithin' : ∀ r ∈ qs.flatMap cryptoRanges, r.stop ≤ limit :=
    fun r hr => hwithin r (hperm.mem_iff.mpr hr)
  rw [collectAll_eq hwf, collectAll_eq hwf']
  have hok := markAll_ok (c := {}) hheap hwithin
  have hok' := markAll_ok (c := {}) hheap' hwithin'
  have hF := filled_markAll hagree hok
  have hF' := filled_markAll hagree' hok'
  refine ⟨hok, hok', hF.has, fun i => ?_, fun r hr i x hx => ⟨hF.holds r hr i x hx, ?_⟩, hF.run,
    hF'.run.unique hF.run fun i => (covered_perm hperm).symm,
    fun cap => (hF.clientHelloStatus_eq hF' hperm cap).symm⟩
  · rw [Bool.eq_iff_iff, hF.has, hF'.has, covered_perm hperm]
  · exact hF'.holds r (hperm.mem_iff.mp hr) i x hx

/-- A hello for `A.b`, with no session, no cipher suites and no compression methods. -/
def tinyHello : List UInt8 :=
  [1, 0, 0, 52, 3, 3] ++ List.replicate 32 7 ++
    [0, 0, 0, 0, 0, 12, 0, 0, 0, 8, 0, 6, 0, 0, 3, 0x41, 0x2e, 0x62]

/-- Its bytes from 0 to 30, after a PING. -/
def tinyFront : List UInt8 := [1, 6, 0, 30] ++ (tinyHello.drop 0).take 30

/-- Its bytes from 20 on, before some padding. -/
def tinyBack : List UInt8 := [6, 20, 36] ++ (tinyHello.drop 20).take 36 ++ [0, 0]

theorem cryptoRanges_tiny : [tinyFront, tinyBack].flatMap cryptoRanges =
    [⟨0, (tinyHello.drop 0).take 30⟩, ⟨20, (tinyHello.drop 20).take 36⟩] := by
  decide +kernel

theorem holds_tiny : Holds ([tinyFront, tinyBack].flatMap cryptoRanges) tinyHello := by
  intro r hr i x hx
  rw [cryptoRanges_tiny] at hr
  rcases mem_pair.mp hr with rfl | rfl
  · exact hx.of_slice
  · exact hx.of_slice

theorem hello_order_independent_tiny :
    clientHelloStatus (collectAll 64 {} [] [tinyFront, tinyBack]).crypto 256 =
      .name [0x61, 0x2e, 0x62] ∧
    clientHelloStatus (collectAll 64 {} [some [9, 9]] [tinyBack, tinyFront]).crypto 256 =
      clientHelloStatus (collectAll 64 {} [] [tinyFront, tinyBack]).crypto 256 := by
  refine ⟨by decide +kernel, ?_⟩
  refine (hello_order_independent (List.Perm.flatMap_right _ (List.Perm.swap ..))
    holds_tiny.agree ?_ ?_ ?_ ?_ ?_).2.2.2.2.2.2.2 256
  · rw [cryptoRanges_tiny]; decide +kernel
  · decide +kernel
  · decide +kernel
  · decide
  · decide

end Mqvpn.Sni
