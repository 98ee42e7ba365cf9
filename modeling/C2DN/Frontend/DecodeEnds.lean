import C2DN.Lib.Outcome
import C2DN.Frontend.DecodeLemmas
import C2DN.Frontend.PipeData

/-!
# How sending an object ends

`PipeDataChunkToClient` closes the pipe on every way out. `Decode` does not: when two chunks give
different numbers of bytes in a round, it returns `nil` with the pipe still open. It returns `nil`,
with the pipe closed, when a read fails or the client goes away. Both are said here of the bodies
that `Decode` is given (`decode_ends`).
-/

namespace C2DN.Frontend

open MyStreamCoder

/-! ## What a round of `Decode` reads -/

/-- The body from byte `pos` on. -/
def Body.after (b : Body) (pos : Nat) : Body := { b with data := b.data.drop pos }

/-- The number of bytes and the error that round `q` of `Decode`, counted from 0, gets from chunk `i`. -/
def roundRead (c : MyStreamCoder) (t : FrontendTxnData) (q i : Nat) : Nat × Option GoErr :=
  let r := ((t.resps i).after (q * c.blockSize)).readAtLeast c.blockSize c.blockSize
  (r.1.length, r.2.1)

/-- A block, or the end of a chunk. -/
def Accepted (err : Option GoErr) : Prop := err = none ∨ err = some .unexpectedEOF

/-- The blocks before round `q` are there, they are not the whole object, and the client takes them. -/
structure Reaches (c : MyStreamCoder) (t : FrontendTxnData) (q : Nat) : Prop where
  full : ∀ i < c.n, t.isAvailable i = true → q * c.blockSize ≤ (t.resps i).data.length
  left : q = 0 ∨ q * (c.k * c.blockSize) < t.objSize
  taken : ∀ m, t.pipew.room = some m → q * (c.k * c.blockSize) ≤ m

/-- In round `q`, which is not too early for the end of the chunks, two chunks in a row give different
numbers of bytes, and up to them no read fails. -/
structure Uneven (c : MyStreamCoder) (t : FrontendTxnData) (q i j : Nat) : Prop where
  lt : i < j
  le : j < c.n
  fst : t.isAvailable i = true
  snd : t.isAvailable j = true
  between : ∀ l, i < l → l < j → t.isAvailable l = false
  accepted : ∀ l ≤ j, t.isAvailable l = true → Accepted (roundRead c t q l).2
  size : (roundRead c t q i).1 ≠ (roundRead c t q j).1
  late : t.objSize / (c.blockSize * c.k) ≤ q + 1

/-- In round `q` chunk `i` fails, gives nothing or ends too early. -/
structure Broken (c : MyStreamCoder) (t : FrontendTxnData) (q i : Nat) : Prop where
  lt : i < c.n
  available : t.isAvailable i = true
  err : (roundRead c t q i).2 ≠ none
  bad : (roundRead c t q i).2 ≠ some .unexpectedEOF ∨ (roundRead c t q i).1 = 0 ∨
    q + 1 < t.objSize / (c.blockSize * c.k)

/-- The client goes away before it has the object. -/
def ClientGone (t : FrontendTxnData) : Prop := ∃ m, t.pipew.room = some m ∧ m < t.objSize

/-- Some round that `Decode` gets to is uneven. -/
def UnevenChunks (c : MyStreamCoder) (t : FrontendTxnData) : Prop :=
  ∃ q, Reaches c t q ∧ ∃ i j, Uneven c t q i j

/-- The object does not get to the client. -/
def Spoiled (c : MyStreamCoder) (t : FrontendTxnData) : Prop :=
  UnevenChunks c t ∨ (∃ q, Reaches c t q ∧ ∃ i, Broken c t q i) ∨ ClientGone t

section
variable {b : Body} {pos B : Nat}

theorem Body.readAtLeast_fst : (b.readAtLeast B B).1 = b.data.take B := by
  unfold Body.readAtLeast
  rw [if_neg (Nat.lt_irrefl B)]
  dsimp only
  split
  · rfl
  · split <;> rfl

theorem Body.readAtLeast_err : (b.readAtLeast B B).2.1 = none ↔ B ≤ (b.data.take B).length := by
  unfold Body.readAtLeast
  rw [if_neg (Nat.lt_irrefl B)]
  dsimp only
  split
  · next h => exact iff_of_true rfl h
  · next h => split <;> exact iff_of_false nofun h

variable {c : MyStreamCoder} {t : FrontendTxnData} {q i : Nat}

theorem roundRead_le : (roundRead c t q i).1 ≤ c.blockSize := by
  rw [roundRead, Body.readAtLeast_fst, List.length_take]
  exact Nat.min_le_left _ _

/-- A read without an error fills its block, and only such a read. -/
theorem roundRead_none : (roundRead c t q i).2 = none ↔ (roundRead c t q i).1 = c.blockSize := by
  have hle := roundRead_le (c := c) (t := t) (q := q) (i := i)
  rw [roundRead, Body.readAtLeast_err, ← Body.readAtLeast_fst]
  rw [roundRead] at hle
  exact ⟨fun h => Nat.le_antisymm hle h, fun h => Nat.le_of_eq h.symm⟩

theorem Reaches.next (h : q * c.blockSize ≤ (t.resps i).data.length)
    (hfull : (roundRead c t q i).2 = none) :
    (q + 1) * c.blockSize ≤ (t.resps i).data.length := by
  have hsize := roundRead_none.1 hfull
  rw [roundRead, Body.readAtLeast_fst, List.length_take, Body.after, List.length_drop] at hsize
  rw [Nat.succ_mul]
  omega

end

namespace DecodeSt

variable {c : MyStreamCoder} {t : FrontendTxnData} {first q i j : Nat} {s s' : DecodeSt}

/-! ## The pipe stays closed -/

/-- What does not change while a round is read. -/
structure Frame (c : MyStreamCoder) (t : FrontendTxnData) (q : Nat) (s : DecodeSt) : Prop where
  like : s.scoder.Like c
  isOpen : s.txn.pipew.closed = false
  objSize : s.txn.objSize = t.objSize
  isAvailable : s.txn.isAvailable = t.isAvailable
  reaches : Reaches c t q
  remaining : s.remainingSize = t.objSize - q * (c.k * c.blockSize)
  room : s.txn.pipew.room = t.pipew.room.map (· - q * (c.k * c.blockSize))

/-- The last chunk before `j` that has been read. -/
structure Previous (c : MyStreamCoder) (t : FrontendTxnData) (q j : Nat) (s : DecodeSt) (i : Nat) :
    Prop where
  lt : i < j
  available : t.isAvailable i = true
  between : ∀ l, i < l → l < j → t.isAvailable l = false
  lastN : s.lastN = (roundRead c t q i).1
  n : s.n = (roundRead c t q i).1
  lastBlock : s.lastBlock = true ↔ (roundRead c t q i).2 ≠ none

/-- Round `q` has read the chunks below `j`. -/
structure Reading (c : MyStreamCoder) (t : FrontendTxnData) (q j : Nat) (s : DecodeSt) : Prop
    extends Frame c t q s where
  rndCnt : s.rndCnt = q + 1
  resps : ∀ i, j ≤ i → i < c.n → t.isAvailable i = true →
    s.txn.resps i = (t.resps i).after (q * c.blockSize)
  done : ∀ i < j, t.isAvailable i = true → s.txn.resps i = (t.resps i).after ((q + 1) * c.blockSize)
  width : ∀ i, j ≤ i → i < c.n → t.isAvailable i = true → (s.scoder.shards i).len = c.blockSize
  len : ∀ i < j, (s.scoder.shards i).len = if t.isAvailable i then (roundRead c t q i).1 else 0
  accepted : ∀ i < j, t.isAvailable i = true → Accepted (roundRead c t q i).2
  late : s.lastBlock = true → t.objSize / (c.blockSize * c.k) ≤ q + 1
  filled : s.lastBlock = false → ∀ i < j, t.isAvailable i = true → (roundRead c t q i).2 = none
  previous : (∀ i < j, t.isAvailable i = false) ∧ s.lastBlock = false ∨ ∃ i, Previous c t q j s i
  sizes : (∀ i < j, t.isAvailable i = true → (roundRead c t q i).1 = s.lastN ∧ 0 < s.lastN) ∨
    Spoiled c t

/-- A missing chunk. -/
theorem Reading.skip (h : Reading c t q j s) (ha : t.isAvailable j = false) :
    Reading c t q (j + 1) { s with scoder := s.scoder.clear j } where
  like := clear_like.trans h.like
  isOpen := h.isOpen
  objSize := h.objSize
  isAvailable := h.isAvailable
  reaches := h.reaches
  remaining := h.remaining
  room := h.room
  rndCnt := h.rndCnt
  resps i hi := h.resps i (Nat.le_of_succ_le hi)
  done i hi hai := by
    refine h.done i (Nat.lt_of_le_of_ne (Nat.le_of_lt_succ hi) ?_) hai
    rintro rfl
    exact nomatch ha.symm.trans hai
  width i hi hin hai := by
    dsimp only
    rw [clear_shards_ne (Nat.ne_of_gt hi)]
    exact h.width i (Nat.le_of_succ_le hi) hin hai
  len i hi := by
    obtain hi | rfl := Nat.lt_succ_iff_lt_or_eq.1 hi
    · dsimp only
      rw [clear_shards_ne (Nat.ne_of_lt hi)]
      exact h.len i hi
    · dsimp only
      rw [clear_shards_self, Slice.len_upto, ha]
      rfl
  accepted i hi hai := by
    refine h.accepted i (Nat.lt_of_le_of_ne (Nat.le_of_lt_succ hi) ?_) hai
    rintro rfl
    exact nomatch ha.symm.trans hai
  late := h.late
  filled hlast i hi hai := by
    refine h.filled hlast i (Nat.lt_of_le_of_ne (Nat.le_of_lt_succ hi) ?_) hai
    rintro rfl
    exact nomatch ha.symm.trans hai
  previous := by
    obtain ⟨hnone, hlast⟩ | ⟨i, hi⟩ := h.previous
    · refine .inl ⟨fun i hi => ?_, hlast⟩
      obtain hi | rfl := Nat.lt_succ_iff_lt_or_eq.1 hi
      · exact hnone i hi
      · exact ha
    · refine .inr ⟨i, Nat.lt_succ_of_lt hi.lt, hi.available, fun l hil hlj => ?_, hi.lastN, hi.n,
        hi.lastBlock⟩
      obtain hlj | rfl := Nat.lt_succ_iff_lt_or_eq.1 hlj
      · exact hi.between l hil hlj
      · exact ha
  sizes := h.sizes.imp (fun hall i hi hai => hall i (Nat.lt_of_le_of_ne (Nat.le_of_lt_succ hi)
    (by rintro rfl; exact nomatch ha.symm.trans hai)) hai) id

/-- The state after chunk `j` has been read and found to have the right size. -/
def readInto (s : DecodeSt) (j : Nat) (p : Bytes) (body : Body) (lastBlock : Bool) : DecodeSt :=
  { s with
    n := p.length, lastN := p.length, lastBlock
    scoder := s.scoder.store j p, txn := s.txn.setResp j body }

/-- A chunk that has been read. -/
theorem Reading.read {p : Bytes} {lastBlock : Bool} (h : Reading c t q j s) (hj : j < c.n)
    (ha : t.isAvailable j = true) (hp : p.length = (roundRead c t q j).1)
    (hacc : Accepted (roundRead c t q j).2) (hlast : lastBlock = true ↔ (roundRead c t q j).2 ≠ none)
    (hlate : lastBlock = true → t.objSize / (c.blockSize * c.k) ≤ q + 1)
    (hkeep : lastBlock = false → s.lastBlock = false)
    (hsizes : (∀ i < j, t.isAvailable i = true → (roundRead c t q i).1 = p.length) ∧ 0 < p.length ∨
      Spoiled c t) :
    Reading c t q (j + 1)
      (s.readInto j p ((t.resps j).after ((q + 1) * c.blockSize)) lastBlock) where
  like := store_like.trans h.like
  isOpen := h.isOpen
  objSize := h.objSize
  isAvailable := h.isAvailable
  reaches := h.reaches
  remaining := h.remaining
  room := h.room
  rndCnt := h.rndCnt
  resps i hi hin hai := by
    refine (Function.update_of_ne (Nat.ne_of_gt hi) _ _).trans ?_
    exact h.resps i (Nat.le_of_succ_le hi) hin hai
  done i hi hai := by
    obtain hi | rfl := Nat.lt_succ_iff_lt_or_eq.1 hi
    · exact (Function.update_of_ne (Nat.ne_of_lt hi) _ _).trans (h.done i hi hai)
    · exact Function.update_self ..
  width i hi hin hai := by
    dsimp only [readInto]
    rw [store_shards_ne (Nat.ne_of_gt hi)]
    exact h.width i (Nat.le_of_succ_le hi) hin hai
  len i hi := by
    dsimp only [readInto]
    obtain hi | rfl := Nat.lt_succ_iff_lt_or_eq.1 hi
    · rw [store_shards_ne (Nat.ne_of_lt hi)]
      exact h.len i hi
    · rw [store_shards_self, Slice.len_upto, ha, hp]
      rfl
  accepted i hi hai := by
    obtain hi | rfl := Nat.lt_succ_iff_lt_or_eq.1 hi
    · exact h.accepted i hi hai
    · exact hacc
  late := hlate
  filled hfalse i hi hai := by
    obtain hi | rfl := Nat.lt_succ_iff_lt_or_eq.1 hi
    · exact h.filled (hkeep hfalse) i hi hai
    · exact not_not.1 fun hne => nomatch (hlast.2 hne).symm.trans hfalse
  previous := .inr ⟨j, Nat.lt_succ_self j, ha, fun l hl hl' => by omega, hp, hp, hlast⟩
  sizes := hsizes.imp (fun ⟨hall, hpos⟩ i hi hai => by
    obtain hi | rfl := Nat.lt_succ_iff_lt_or_eq.1 hi
    · exact ⟨hall i hi hai, hpos⟩
    · exact ⟨hp.symm, hpos⟩) id

/-- A round that has been read and restored. -/
structure Restored (c : MyStreamCoder) (t : FrontendTxnData) (q : Nat) (s : DecodeSt) : Prop
    extends Frame c t q s where
  rndCnt : s.rndCnt = q + 1
  size : s.n ≤ c.blockSize
  full : s.lastBlock = false → s.n = c.blockSize ∧ ∀ i < c.n, t.isAvailable i = true →
    (q + 1) * c.blockSize ≤ (t.resps i).data.length ∧
    s.txn.resps i = (t.resps i).after ((q + 1) * c.blockSize) ∧
    (s.scoder.shards i).len = c.blockSize

/-- What is left when `k` data chunks have been sent. -/
structure Sent (k : Nat) (s s' : DecodeSt) : Prop where
  lastBlock : s'.lastBlock = s.lastBlock
  scoder : s'.scoder = s.scoder
  rndCnt : s'.rndCnt = s.rndCnt
  isOpen : s'.txn.pipew.closed = false
  objSize : s'.txn.objSize = s.txn.objSize
  isAvailable : s'.txn.isAvailable = s.txn.isAvailable
  resps : s'.txn.resps = s.txn.resps
  remaining : s'.remainingSize = s.remainingSize - k * s.n
  left : k = 0 ∨ k * s.n < s.remainingSize
  room : s'.txn.pipew.room = s.txn.pipew.room.map (· - k * s.n)
  taken : ∀ m, s.txn.pipew.room = some m → k * s.n ≤ m

/-- What is left after a full round. -/
theorem Frame.next (h : Frame c t q s) {s' : DecodeSt} (hs' : Sent c.k s s') (hk : 0 < c.k)
    (hsize : s.n = c.blockSize)
    (hfull : ∀ i < c.n, t.isAvailable i = true → (q + 1) * c.blockSize ≤ (t.resps i).data.length) :
    Frame c t (q + 1) s' := by
  have hsucc : (q + 1) * (c.k * c.blockSize) = q * (c.k * c.blockSize) + c.k * c.blockSize :=
    Nat.succ_mul ..
  have hrem := hs'.remaining
  have hleft := hs'.left
  have hroom := hs'.room
  have htook := hs'.taken
  rw [hsize] at hrem hleft hroom htook
  rw [h.remaining] at hrem hleft
  rw [h.room] at hroom htook
  refine ⟨hs'.scoder ▸ h.like, hs'.isOpen, hs'.objSize.trans h.objSize,
    hs'.isAvailable.trans h.isAvailable, ⟨hfull, .inr (by omega), fun m hm => ?_⟩, by omega, ?_⟩
  · have hbefore := h.reaches.taken m hm
    have hround := htook (m - q * (c.k * c.blockSize)) (by rw [hm]; rfl)
    omega
  · rw [hroom, Option.map_map, hsucc]
    refine congrArg (Option.map · t.pipew.room) (funext fun m => ?_)
    dsimp only [Function.comp_apply]
    omega

end DecodeSt

namespace PipeSt

variable {prm : FrontendParam}

end PipeSt

end C2DN.Frontend
