import C2DN.Lib.Stripe
import C2DN.Frontend.Decode

/-!
# Lemmas for the streaming decoder

Every return of `decode` restores the shards (`decode_fresh`). On chunks of one size whose rounds
`ReconstructData` can restore, `decode` writes the rounds of the data chunks cut at the object
size (`decode_eq`). The loop consumes the bodies block by block, so the second fact is an
induction over the rounds in which the chunks are replaced by what is left of them.
-/

namespace C2DN.Frontend

open Stripe

/-! ## The coder between transactions -/

namespace MyStreamCoder

/-- Every shard has its full width: the state in which a coder is taken from the pool. -/
def Fresh (c : MyStreamCoder) : Prop := ∀ i < c.n, c.shards i = fullShard c.blockSize i

/-- The same coder up to its buffer and its shards. -/
structure Like (c c' : MyStreamCoder) : Prop where
  n : c.n = c'.n
  k : c.k = c'.k
  blockSize : c.blockSize = c'.blockSize
  reconstructData : c.reconstructData = c'.reconstructData

variable {c c' c'' : MyStreamCoder} {i : Nat} {p : Bytes}

theorem Like.rfl : Like c c := ⟨Eq.refl _, Eq.refl _, Eq.refl _, Eq.refl _⟩

theorem Like.trans (h : Like c c') (h' : Like c' c'') : Like c c'' :=
  ⟨h.n.trans h'.n, h.k.trans h'.k, h.blockSize.trans h'.blockSize,
    h.reconstructData.trans h'.reconstructData⟩

theorem store_like : Like (c.store i p) c := ⟨Eq.refl _, Eq.refl _, Eq.refl _, Eq.refl _⟩

theorem clear_like : Like (c.clear i) c := ⟨Eq.refl _, Eq.refl _, Eq.refl _, Eq.refl _⟩

theorem restoreShards_like : Like c.restoreShards c := ⟨Eq.refl _, Eq.refl _, Eq.refl _, Eq.refl _⟩

theorem fillShard_like {out : Nat → Bytes} : Like (fillShard out c i) c := by
  unfold fillShard
  split
  · exact store_like
  · exact .rfl

theorem foldl_fillShard_like {out : Nat → Bytes} (is : List Nat) :
    Like (is.foldl (fillShard out) c) c := by
  induction is generalizing c with
  | nil => exact .rfl
  | cons i is ih => exact ih.trans fillShard_like

theorem fill_like {out : Nat → Bytes} : Like (c.fill out) c := foldl_fillShard_like _

theorem newStreamCoder_fresh {rec : (Nat → Bytes) → Option (Nat → Bytes)} {n k B : Nat} :
    (newStreamCoder rec n k B).Fresh := by
  intro i hi
  exact if_pos hi

theorem restoreShards_fresh : c.restoreShards.Fresh := by
  intro i hi
  exact if_pos hi

end MyStreamCoder

namespace DecodeSt

open MyStreamCoder

variable {first : Nat} {s s' : DecodeSt} {r : DecodeRet}

/-- What every way out of one iteration keeps: the coder is the one that came in, and a `return`
has restored its shards. -/
def Keeps (c : MyStreamCoder) : Except DecodeRet DecodeSt → Prop
  | .error r => r.scoder.Fresh ∧ r.scoder.Like c
  | .ok s => s.scoder.Like c

theorem keeps_giveUp {c : MyStreamCoder} (h : s.scoder.Like c) : Keeps c (.error s.giveUp) :=
  ⟨restoreShards_fresh, restoreShards_like.trans h⟩

theorem Keeps.bind {c : MyStreamCoder} {x : Except DecodeRet DecodeSt}
    {f : DecodeSt → Except DecodeRet DecodeSt} (hx : Keeps c x)
    (hf : ∀ s, s.scoder.Like c → Keeps c (f s)) : Keeps c (x.bind f) := by
  cases x with
  | error r => exact hx
  | ok s => exact hf s hx

theorem keeps_checkLen {c : MyStreamCoder} {i : Nat} (h : s.scoder.Like c) :
    Keeps c (checkLen first i s) := by
  unfold checkLen
  split
  · exact keeps_giveUp h
  · exact h

theorem keeps_readShard {c : MyStreamCoder} (h : s.scoder.Like c) (i : Nat) :
    Keeps c (readShard first s i) := by
  unfold readShard
  split
  · dsimp only
    split
    · apply keeps_checkLen
      split <;> exact store_like.trans h
    · exact keeps_giveUp (store_like.trans h)
    · split
      · exact keeps_giveUp (store_like.trans h)
      · exact keeps_checkLen (store_like.trans h)
  · exact clear_like.trans h

theorem keeps_readShards {c : MyStreamCoder} (is : List Nat) (h : s.scoder.Like c) :
    Keeps c (readShards first is s) := by
  induction is generalizing s with
  | nil => exact h
  | cons i is ih => exact (keeps_readShard h i).bind fun s hs => ih hs

theorem keeps_reconstruct {c : MyStreamCoder} (h : s.scoder.Like c) : Keeps c s.reconstruct := by
  unfold reconstruct
  split
  · exact keeps_giveUp h
  · exact fill_like.trans h

theorem keeps_writeShards {c : MyStreamCoder} (is : List Nat) (h : s.scoder.Like c) :
    Keeps c (writeShards is s) := by
  induction is generalizing s with
  | nil => exact h
  | cons i is ih =>
    unfold writeShards
    dsimp only
    generalize (if s.n < s.remainingSize then s.remainingSize - s.n else 0) = rest
    split
    · exact keeps_giveUp h
    · split
      · exact h
      · exact ih h

theorem keeps_decodeRound (first : Nat) {c : MyStreamCoder} (h : s.scoder.Like c) :
    Keeps c (decodeRound first s) := by
  unfold decodeRound
  refine (keeps_readShards (s := { s with rndCnt := s.rndCnt + 1 }) _ h).bind fun s hs => ?_
  exact (keeps_reconstruct hs).bind fun s' hs' => keeps_writeShards _ hs'

theorem decodeLoop_fresh {c : MyStreamCoder} {fuel : Nat} (h : s.scoder.Like c)
    (hr : decodeLoop first fuel s = some r) : r.scoder.Fresh ∧ r.scoder.Like c := by
  induction fuel generalizing s with
  | zero => cases hr
  | succ fuel ih =>
    rw [decodeLoop] at hr
    split at hr
    · cases hr
      exact ⟨restoreShards_fresh, restoreShards_like.trans h⟩
    · have hk := keeps_decodeRound first h
      split at hr <;> rename_i heq <;> rw [heq] at hk
      · cases hr; exact hk
      · exact ih hk hr

end DecodeSt

/-- Whatever the bodies, the available chunks and the decoder of a round, a coder that `decode`
returns can be used again. -/
theorem decode_fresh {fuel : Nat} {c : MyStreamCoder} {t : FrontendTxnData} {r : DecodeRet}
    (h : decode fuel c t = some r) : r.scoder.Fresh ∧ r.scoder.Like c :=
  DecodeSt.decodeLoop_fresh .rfl h

/-! ## A round on chunks of one size -/

namespace MyStreamCoder

variable {c : MyStreamCoder} {i j : Nat} {p : Bytes}

@[simp] theorem store_shards_self : (c.store i p).shards i = (c.shards i).upto p.length := by
  simp [store]

theorem store_shards_ne (h : j ≠ i) : (c.store i p).shards j = c.shards j := by
  simp [store, h]

@[simp] theorem store_shards_lo : ((c.store i p).shards j).lo = (c.shards j).lo := by
  by_cases h : j = i
  · subst h; simp
  · rw [store_shards_ne h]

@[simp] theorem clear_shards_self : (c.clear i).shards i = (c.shards i).upto 0 := by
  simp [clear]

theorem clear_shards_ne (h : j ≠ i) : (c.clear i).shards j = c.shards j := by
  simp [clear, h]

@[simp] theorem clear_shards_lo : ((c.clear i).shards j).lo = (c.shards j).lo := by
  by_cases h : j = i
  · subst h; simp
  · rw [clear_shards_ne h]

theorem store_read_self : ((c.store i p).shards i).read (c.store i p).dataBuf = p := by
  rw [store_shards_self]
  exact Slice.read_writeAt_self

/-- Shards lie in windows of their own, so storing one leaves the others alone. -/
theorem store_read_ne {B : Nat} (hi : (c.shards i).lo = B * i) (hj : (c.shards j).lo = B * j)
    (hp : p.length ≤ B) (hlen : (c.shards j).len ≤ B) (h : j ≠ i) :
    ((c.store i p).shards j).read (c.store i p).dataBuf = (c.shards j).read c.dataBuf := by
  rw [store_shards_ne h]
  apply Slice.read_writeAt_disjoint
  unfold Slice.len at hlen
  rw [hi, hj]
  rcases Nat.lt_or_gt_of_ne h with h | h
  · have : B * j + B ≤ B * i := by rw [← Nat.mul_succ]; exact Nat.mul_le_mul_left B h
    omega
  · have : B * i + B ≤ B * j := by rw [← Nat.mul_succ]; exact Nat.mul_le_mul_left B h
    omega

/-- The shards below `i` hold their blocks, the others are as they were. -/
structure FillInv (block : Nat → Bytes) (c₀ : MyStreamCoder) (i : Nat) (c : MyStreamCoder) :
    Prop where
  like : c.Like c₀
  lo : ∀ j < c₀.n, (c.shards j).lo = c₀.blockSize * j
  done : ∀ j < i, (c.shards j).read c.dataBuf = block j
  todo : ∀ j, i ≤ j → j < c₀.n →
    c.shards j = c₀.shards j ∧ (c.shards j).read c.dataBuf = (c₀.shards j).read c₀.dataBuf
  keep : ∀ j < c₀.n, (c₀.shards j).len ≠ 0 → c.shards j = c₀.shards j

section
variable {block out : Nat → Bytes} {c₀ : MyStreamCoder}

theorem FillInv.step (H : FillInv block c₀ i c) (hi : i < c₀.n) (hout : out i = block i)
    (hblock : ∀ j < c₀.n, (block j).length ≤ c₀.blockSize)
    (hlen : ∀ j < c₀.n, (c₀.shards j).len ≤ c₀.blockSize)
    (hread : (c₀.shards i).len ≠ 0 → (c₀.shards i).read c₀.dataBuf = block i) :
    FillInv block c₀ (i + 1) (fillShard out c i) := by
  unfold fillShard
  obtain ⟨hsi, hri⟩ := H.todo i (le_refl i) hi
  split
  · next h0 =>
    have hwidth : ∀ j < c₀.n, (c.shards j).len ≤ c₀.blockSize := by
      intro j hj
      rcases Nat.lt_or_ge j i with hji | hji
      · rw [← Slice.length_read, H.done j hji]; exact hblock j hj
      · rw [(H.todo j hji hj).1]; exact hlen j hj
    have hother : ∀ j < c₀.n, j ≠ i → ((c.store i (out i)).shards j).read
        (c.store i (out i)).dataBuf = (c.shards j).read c.dataBuf := fun j hj hne =>
      store_read_ne (H.lo i hi) (H.lo j hj) (by rw [hout]; exact hblock i hi) (hwidth j hj) hne
    refine ⟨store_like.trans H.like, fun j hj => ?_, fun j hj => ?_, fun j hj hjn => ?_,
      fun j hj hne => ?_⟩
    · rw [store_shards_lo]; exact H.lo j hj
    · by_cases hne : j = i
      · subst hne; rw [store_read_self, hout]
      · rw [hother j (by omega) hne]; exact H.done j (by omega)
    · have hne : j ≠ i := by omega
      rw [hother j hjn hne, store_shards_ne hne]
      exact H.todo j (by omega) hjn
    · have hji : j ≠ i := by rintro rfl; rw [hsi] at h0; exact hne h0
      rw [store_shards_ne hji]; exact H.keep j hj hne
  · next h0 =>
    refine ⟨H.like, H.lo, fun j hj => ?_, fun j hj hjn => H.todo j (by omega) hjn, H.keep⟩
    by_cases hne : j = i
    · subst hne; rw [hri]; exact hread (by rwa [← hsi])
    · exact H.done j (by omega)

theorem foldl_fillShard {m : Nat} (H : FillInv block c₀ i c) (hm : i + m ≤ c₀.n)
    (hout : ∀ j < i + m, out j = block j) (hblock : ∀ j < c₀.n, (block j).length ≤ c₀.blockSize)
    (hlen : ∀ j < c₀.n, (c₀.shards j).len ≤ c₀.blockSize)
    (hread : ∀ j < c₀.n, (c₀.shards j).len ≠ 0 → (c₀.shards j).read c₀.dataBuf = block j) :
    FillInv block c₀ (i + m) ((List.range' i m).foldl (fillShard out) c) := by
  induction m generalizing i c with
  | zero => exact H
  | succ m ih =>
    have hi : i < c₀.n := by omega
    rw [List.range'_succ, List.foldl_cons, show i + (m + 1) = i + 1 + m by omega]
    exact ih (H.step hi (hout i (by omega)) hblock hlen (hread i hi)) (by omega)
      (fun j hj => hout j (by omega))

end

end MyStreamCoder

namespace DecodeSt

open MyStreamCoder

/-- The head of the loop when `C` bytes of every chunk and `S` bytes of the object are left:
`chunk j` is what is left of chunk `j`. -/
structure LoopInv (chunk : Nat → Bytes) (C S : Nat) (s : DecodeSt) : Prop where
  lo : ∀ j < s.scoder.n, (s.scoder.shards j).lo = s.scoder.blockSize * j
  width : ∀ j < s.scoder.n, s.txn.isAvailable j →
    (s.scoder.shards j).len = s.scoder.blockSize
  bodies : ∀ j < s.scoder.n, s.txn.isAvailable j → s.txn.resps j = Body.full (chunk j)
  lens : ∀ j < s.scoder.n, (chunk j).length = C
  lastBlock : s.lastBlock = false
  isOpen : s.txn.pipew.closed = false
  room : s.txn.pipew.room = none
  remaining : s.remainingSize = S
  size : s.txn.objSize = s.rndCnt * (s.scoder.k * s.scoder.blockSize) + S
  le : S ≤ s.scoder.k * C
  lt : s.scoder.k * C < S + s.scoder.k

/-- After the blocks of the chunks below `i` have been read. -/
structure ReadInv (chunk : Nat → Bytes) (C first : Nat) (s₀ : DecodeSt) (i : Nat)
    (s : DecodeSt) : Prop where
  like : s.scoder.Like s₀.scoder
  lo : ∀ j < s₀.scoder.n, (s.scoder.shards j).lo = s₀.scoder.blockSize * j
  done : ∀ j < i, s₀.txn.isAvailable j →
    (s.scoder.shards j).read s.scoder.dataBuf = (chunk j).take s₀.scoder.blockSize
  gone : ∀ j < i, s₀.txn.isAvailable j = false → (s.scoder.shards j).len = 0
  todo : ∀ j, i ≤ j → s.scoder.shards j = s₀.scoder.shards j
  resps : ∀ j, s.txn.resps j =
    if j < i ∧ s₀.txn.isAvailable j then Body.full ((chunk j).drop s₀.scoder.blockSize)
    else s₀.txn.resps j
  txn : s.txn = { s₀.txn with resps := s.txn.resps }
  respBuffer : s.respBuffer = s₀.respBuffer
  remaining : s.remainingSize = s₀.remainingSize
  rndCnt : s.rndCnt = s₀.rndCnt
  lastBlock : s.lastBlock = decide (C < s₀.scoder.blockSize ∧ first < i)
  lastN : first < i → s.lastN = min s₀.scoder.blockSize C ∧ s.n = min s₀.scoder.blockSize C

/-- `first` is the first available chunk. -/
structure IsFirst (n : Nat) (avail : Nat → Bool) (first : Nat) : Prop where
  here : avail first
  le : ∀ j < n, avail j → first ≤ j

section
variable {chunk : Nat → Bytes} {C S first i : Nat} {s₀ s : DecodeSt}

theorem LoopInv.readInv (h : LoopInv chunk C S s) :
    ReadInv chunk C first { s with rndCnt := s.rndCnt + 1 } 0
      { s with rndCnt := s.rndCnt + 1 } where
  like := .rfl
  lo := h.lo
  done _ hj := by omega
  gone _ hj := by omega
  todo _ _ := rfl
  resps _ := by simp
  txn := rfl
  respBuffer := rfl
  remaining := rfl
  rndCnt := rfl
  lastBlock := by simp [h.lastBlock]
  lastN hj := by omega

/-- An unavailable chunk is skipped. -/
theorem ReadInv.skip (H : ReadInv chunk C first s₀ i s) (hf : IsFirst s₀.scoder.n s₀.txn.isAvailable first)
    (ha : s₀.txn.isAvailable i = false) :
    ReadInv chunk C first s₀ (i + 1) { s with scoder := s.scoder.clear i } where
  like := clear_like.trans H.like
  lo j hj := by rw [clear_shards_lo]; exact H.lo j hj
  done j hj hja := by
    have hne : j ≠ i := by rintro rfl; simp [ha] at hja
    have hlt : j < i := by omega
    simp only [clear_shards_ne hne]
    exact H.done j hlt hja
  gone j hj hja := by
    by_cases hne : j = i
    · subst hne; simp
    · rw [clear_shards_ne hne]; exact H.gone j (by omega) hja
  todo j hj := by
    rw [clear_shards_ne (by omega)]; exact H.todo j (by omega)
  resps j := by
    rw [H.resps j]
    by_cases hne : j = i
    · subst hne; simp [ha]
    · have : j < i + 1 ↔ j < i := by omega
      simp [this]
  txn := H.txn
  respBuffer := H.respBuffer
  remaining := H.remaining
  rndCnt := H.rndCnt
  lastBlock := by
    have hne : first ≠ i := by rintro rfl; simp [hf.here] at ha
    have : first < i + 1 ↔ first < i := by omega
    simp only [this]; exact H.lastBlock
  lastN hj := by
    have hne : first ≠ i := by rintro rfl; simp [hf.here] at ha
    exact H.lastN (by omega)

/-- The block of an available chunk is read. -/
theorem ReadInv.read (H : ReadInv chunk C first s₀ i s) (hf : IsFirst s₀.scoder.n s₀.txn.isAvailable first)
    (ha : s₀.txn.isAvailable i) (hlen : (chunk i).length = C)
    (hi : i < s₀.scoder.n) {p : Bytes} (hp : p = (chunk i).take s₀.scoder.blockSize) :
    ReadInv chunk C first s₀ (i + 1)
      { s with
        n := p.length
        lastN := p.length
        scoder := s.scoder.store i p
        txn := s.txn.setResp i (Body.full ((chunk i).drop s₀.scoder.blockSize))
        lastBlock := decide (C < s₀.scoder.blockSize) } where
  like := store_like.trans H.like
  lo j hj := by rw [store_shards_lo]; exact H.lo j hj
  done j hj hja := by
    by_cases hne : j = i
    · subst hne; rw [store_read_self, hp]
    · have hle : (s.scoder.shards j).len ≤ s₀.scoder.blockSize := by
        rw [← Slice.length_read, H.done j (by omega) hja]
        simp
      rw [store_read_ne (H.lo i hi) (H.lo j (by omega)) (by simp [hp]) hle hne]
      exact H.done j (by omega) hja
  gone j hj hja := by
    have hne : j ≠ i := by rintro rfl; simp [ha] at hja
    rw [store_shards_ne hne]; exact H.gone j (by omega) hja
  todo j hj := by
    rw [store_shards_ne (by omega)]; exact H.todo j (by omega)
  resps j := by
    by_cases hne : j = i
    · subst hne; simp [FrontendTxnData.setResp, ha]
    · have : j < i + 1 ↔ j < i := by omega
      simp [FrontendTxnData.setResp, hne, this, H.resps j]
  txn := by
    have h := H.txn
    simp only [FrontendTxnData.setResp]
    rw [h]
  respBuffer := H.respBuffer
  remaining := H.remaining
  rndCnt := H.rndCnt
  lastBlock := by
    have : first < i + 1 := Nat.lt_succ_of_le (hf.le i hi ha)
    simp [this]
  lastN _ := by simp [hp, hlen]

/-- The chunks of a round have one length, so the check passes. -/
theorem checkLen_ok {b : Nat} (hn : s.n = b) (hlast : i ≠ first → s.lastN = b) :
    checkLen first i s = .ok { s with lastN := b } := by
  unfold checkLen
  rw [if_neg (by intro ⟨h1, _, h3⟩; exact h3 (hn.trans (hlast h1).symm)), hn]

theorem readShard_ok (H : ReadInv chunk C first s₀ i s) (hf : IsFirst s₀.scoder.n s₀.txn.isAvailable first)
    (hi : i < s₀.scoder.n) (hC : 0 < C) (hlen : (chunk i).length = C)
    (hw : s₀.txn.isAvailable i → (s₀.scoder.shards i).len = s₀.scoder.blockSize)
    (hb : s₀.txn.isAvailable i → s₀.txn.resps i = Body.full (chunk i))
    (hrnd : C < s₀.scoder.blockSize →
      ¬ s₀.rndCnt < s₀.txn.objSize / (s₀.scoder.blockSize * s₀.scoder.k)) :
    ∃ s', readShard first s i = .ok s' ∧ ReadInv chunk C first s₀ (i + 1) s' := by
  have hav : s.txn.isAvailable = s₀.txn.isAvailable := by rw [H.txn]
  cases ha : s₀.txn.isAvailable i with
  | false =>
    refine ⟨{ s with scoder := s.scoder.clear i }, ?_, H.skip hf ha⟩
    simp [readShard, hav, ha]
  | true =>
    have hresp : s.txn.resps i = Body.full (chunk i) := by
      rw [H.resps i, if_neg (by omega), hb ha]
    have hwidth : (s.scoder.shards i).len = s₀.scoder.blockSize := by
      rw [H.todo i (le_refl i), hw ha]
    have hlast : i ≠ first → s.lastN = min s₀.scoder.blockSize C := fun hne =>
      (H.lastN (lt_of_le_of_ne (hf.le i hi ha) (Ne.symm hne))).1
    refine ⟨_, ?_, H.read hf ha hlen hi rfl⟩
    rw [readShard, if_pos (by rw [hav]; exact ha), hresp, hwidth, H.like.blockSize]
    rcases Nat.lt_or_ge C s₀.scoder.blockSize with hlt | hge
    · rw [Body.readAtLeast_short (by omega) (by omega)]
      have hobj : s.txn.objSize = s₀.txn.objSize := by rw [H.txn]
      have htake : (chunk i).take s₀.scoder.blockSize = chunk i :=
        List.take_of_length_le (by omega)
      have hdrop : (chunk i).drop s₀.scoder.blockSize = [] :=
        List.drop_of_length_le (by omega)
      have hr : ¬ s.rndCnt <
          s.txn.objSize / ((s.scoder.store i (chunk i)).blockSize * s.scoder.k) := by
        rw [H.rndCnt, hobj, store_like.blockSize, H.like.blockSize, H.like.k]
        exact hrnd hlt
      dsimp only [FrontendTxnData.setResp] at hr ⊢
      rw [if_neg (by exact hr), checkLen_ok (b := C) (by exact hlen)
        (by intro hne; rw [← Nat.min_eq_right (le_of_lt hlt)]; exact hlast hne)]
      simp [htake, hdrop, hlen, hlt]
    · rw [Body.readAtLeast_full (by omega)]
      have hlb : s.lastBlock = false := by
        rw [H.lastBlock]; simp; omega
      dsimp only [FrontendTxnData.setResp]
      rw [if_neg (by simp [hlb]), checkLen_ok (b := s₀.scoder.blockSize)
        (by simp [hlen]; omega)
        (by intro hne; rw [← Nat.min_eq_left hge]; exact hlast hne)]
      simp [hlen, hlb, hge]

theorem readShards_ok {m : Nat} (H : ReadInv chunk C first s₀ i s)
    (hf : IsFirst s₀.scoder.n s₀.txn.isAvailable first) (hm : i + m = s₀.scoder.n) (hC : 0 < C)
    (hlen : ∀ j < s₀.scoder.n, (chunk j).length = C)
    (hw : ∀ j < s₀.scoder.n, s₀.txn.isAvailable j →
      (s₀.scoder.shards j).len = s₀.scoder.blockSize)
    (hb : ∀ j < s₀.scoder.n, s₀.txn.isAvailable j → s₀.txn.resps j = Body.full (chunk j))
    (hrnd : C < s₀.scoder.blockSize →
      ¬ s₀.rndCnt < s₀.txn.objSize / (s₀.scoder.blockSize * s₀.scoder.k)) :
    ∃ s', readShards first (List.range' i m) s = .ok s' ∧
      ReadInv chunk C first s₀ s₀.scoder.n s' := by
  induction m generalizing i s with
  | zero => exact ⟨s, rfl, by rwa [← hm]⟩
  | succ m ih =>
    have hi : i < s₀.scoder.n := by omega
    obtain ⟨s', hs', H'⟩ := readShard_ok H hf hi hC (hlen i hi) (hw i hi) (hb i hi) hrnd
    obtain ⟨s'', hs'', H''⟩ := ih H' (by omega)
    refine ⟨s'', ?_, H''⟩
    rw [List.range'_succ, readShards, hs']
    exact hs''

/-- The blocks of one round, a missing chunk giving an empty one. -/
def availBlocks (n B : Nat) (avail : Nat → Bool) (chunk : Nat → Bytes) (j : Nat) : Bytes :=
  if j < n ∧ avail j then (chunk j).take B else []

theorem ReadInv.contents_eq (H : ReadInv chunk C first s₀ s₀.scoder.n s) :
    s.scoder.contents =
      availBlocks s₀.scoder.n s₀.scoder.blockSize s₀.txn.isAvailable chunk := by
  funext j
  unfold contents availBlocks
  rw [H.like.n]
  by_cases hj : j < s₀.scoder.n
  · rw [if_pos hj]
    cases ha : s₀.txn.isAvailable j with
    | true => rw [if_pos ⟨hj, rfl⟩]; exact H.done j hj ha
    | false =>
      rw [if_neg (by simp)]
      exact List.eq_nil_of_length_eq_zero (by rw [Slice.length_read]; exact H.gone j hj ha)
  · rw [if_neg hj, if_neg (fun h => hj h.1)]

/-- Once a round is restored, the first `k` shards hold the blocks of the data chunks and the
available ones are as long as they were read. -/
theorem ReadInv.fill (H : ReadInv chunk C first s₀ s₀.scoder.n s) (hk : s₀.scoder.k ≤ s₀.scoder.n)
    (hlen : ∀ j < s₀.scoder.n, (chunk j).length = C) {out : Nat → Bytes}
    (hout : ∀ j < s₀.scoder.k, out j = (chunk j).take s₀.scoder.blockSize) :
    FillInv (fun j => (chunk j).take s₀.scoder.blockSize) s.scoder s₀.scoder.k
      (s.scoder.fill out) := by
  have hlen' : ∀ j < s₀.scoder.n, s₀.txn.isAvailable j →
      (s.scoder.shards j).len = min s₀.scoder.blockSize C := by
    intro j hj ha
    rw [← Slice.length_read, H.done j hj ha, List.length_take, hlen j hj]
  have h0 : FillInv (fun j => (chunk j).take s₀.scoder.blockSize) s.scoder 0 s.scoder :=
    ⟨.rfl, by rw [H.like.n, H.like.blockSize]; exact H.lo, fun _ hj => by omega,
      fun _ _ _ => ⟨rfl, rfl⟩, fun _ _ _ => rfl⟩
  unfold MyStreamCoder.fill
  rw [List.range_eq_range', H.like.k]
  have hfill := foldl_fillShard (m := s₀.scoder.k) h0
    (by rw [H.like.n]; omega) (by simpa using hout)
    (fun j _ => by rw [H.like.blockSize]; simp)
    (fun j hj => by
      rw [H.like.n] at hj
      rw [H.like.blockSize]
      cases ha : s₀.txn.isAvailable j with
      | true => rw [hlen' j hj ha]; omega
      | false => rw [H.gone j hj ha]; omega)
    (fun j hj hne => by
      rw [H.like.n] at hj
      cases ha : s₀.txn.isAvailable j with
      | true => exact H.done j hj ha
      | false => exact absurd (H.gone j hj ha) hne)
  simpa using hfill

/-- The write loop sends the blocks it is given, cut at the remaining size. -/
theorem writeShards_ok {m b : Nat} (block : Nat → Bytes) (hn : s.n = b)
    (hpos : 0 < s.remainingSize) (hopen : s.txn.pipew.closed = false)
    (hroom : s.txn.pipew.room = none)
    (hread : ∀ j, i ≤ j → j < i + m →
      (s.scoder.shards j).read s.scoder.dataBuf = block j ∧ (block j).length = b) :
    ∃ n', writeShards (List.range' i m) s = .ok
      { s with
        n := n'
        remainingSize := s.remainingSize - m * b
        lastBlock := s.lastBlock || decide (s.remainingSize ≤ m * b)
        txn := { s.txn with
          pipew := { s.txn.pipew with
            sent := s.txn.pipew.sent ++ ((List.range' i m).flatMap block).take s.remainingSize }
          sendSize := s.txn.sendSize + min s.remainingSize (m * b) }
        respBuffer := s.respBuffer ++ ((List.range' i m).flatMap block).take s.remainingSize } := by
  induction m generalizing i s with
  | zero =>
    refine ⟨s.n, ?_⟩
    have h0 : ¬ s.remainingSize ≤ 0 := by omega
    simp [writeShards, h0]
  | succ m ih =>
    obtain ⟨hri, hbi⟩ := hread i (le_refl i) (by omega)
    have hwidth : (s.scoder.shards i).len = b := by
      rw [← Slice.length_read, hri, hbi]
    rw [List.range'_succ, writeShards]
    dsimp only
    rw [hn]
    rcases Nat.lt_or_ge b s.remainingSize with hlt | hge
    · rw [if_pos hlt, if_pos hlt, PipeWriter.write_open hopen hroom,
        Slice.read_upto (by omega), hri, List.take_of_length_le (by omega)]
      dsimp only
      rw [if_neg (by omega)]
      obtain ⟨n', h⟩ := ih (s := { s with
          n := b
          remainingSize := s.remainingSize - b
          lastBlock := s.lastBlock || s.remainingSize - b == 0
          txn := { s.txn with
            pipew := { s.txn.pipew with sent := s.txn.pipew.sent ++ block i }
            sendSize := s.txn.sendSize + b }
          respBuffer := s.respBuffer ++ block i }) (i := i + 1) rfl
        (by dsimp only; omega) hopen hroom (fun j hj hjm => hread j (by omega) (by omega))
      refine ⟨n', h.trans ?_⟩
      have hne : (s.remainingSize - b == 0) = false := by simp; omega
      have htake : (block i ++ (List.range' (i + 1) m).flatMap block).take s.remainingSize =
          block i ++ ((List.range' (i + 1) m).flatMap block).take (s.remainingSize - b) := by
        rw [List.take_append, List.take_of_length_le (by omega), hbi]
      have hrest : s.remainingSize - b - m * b = s.remainingSize - (m * b + b) := by omega
      have hsum : s.txn.sendSize + b + min (s.remainingSize - b) (m * b) =
          s.txn.sendSize + min s.remainingSize (m * b + b) := by omega
      have hend : (s.remainingSize - b ≤ m * b) = (s.remainingSize ≤ m * b + b) :=
        propext (by omega)
      rw [Nat.succ_mul, List.flatMap_cons, htake]
      simp only [hne, Bool.or_false, ← List.append_assoc, hrest, hsum, hend]
    · -- the object ends in this block
      refine ⟨s.remainingSize, ?_⟩
      rw [if_neg (by omega), if_neg (by omega), PipeWriter.write_open hopen hroom,
        Slice.read_upto (by omega), hri]
      have htake : (block i ++ (List.range' (i + 1) m).flatMap block).take s.remainingSize =
          (block i).take s.remainingSize := by
        rw [List.take_append, hbi, Nat.sub_eq_zero_of_le hge, List.take_zero, List.append_nil]
      have hrest : s.remainingSize - (m * b + b) = 0 := by omega
      have hend : s.remainingSize ≤ m * b + b := by omega
      simp [Nat.succ_mul, htake, hrest, hend]

/-- What one iteration of the loop does on chunks of one size. -/
structure RoundPost (chunk : Nat → Bytes) (C S : Nat) (s s' : DecodeSt) : Prop where
  like : s'.scoder.Like s.scoder
  lo : ∀ j < s.scoder.n, (s'.scoder.shards j).lo = s.scoder.blockSize * j
  width : ∀ j < s.scoder.n, s.txn.isAvailable j →
    (s'.scoder.shards j).len = min s.scoder.blockSize C
  bodies : ∀ j < s.scoder.n, s.txn.isAvailable j →
    s'.txn.resps j = Body.full ((chunk j).drop s.scoder.blockSize)
  txn : s'.txn = { s.txn with
    resps := s'.txn.resps
    pipew := { s.txn.pipew with
      sent := s.txn.pipew.sent ++ (row s.scoder.blockSize s.scoder.k chunk).take S }
    sendSize := s.txn.sendSize + min S (s.scoder.k * min s.scoder.blockSize C) }
  respBuffer : s'.respBuffer =
    s.respBuffer ++ (row s.scoder.blockSize s.scoder.k chunk).take S
  remaining : s'.remainingSize = S - s.scoder.k * min s.scoder.blockSize C
  rndCnt : s'.rndCnt = s.rndCnt + 1
  lastBlock : s'.lastBlock = decide (C ≤ s.scoder.blockSize)

theorem decodeRound_ok (H : LoopInv chunk C S s) (hf : IsFirst s.scoder.n s.txn.isAvailable first)
    (hfn : first < s.scoder.n) (hC : 0 < C) (hB : 0 < s.scoder.blockSize)
    (hk0 : 0 < s.scoder.k) (hk : s.scoder.k ≤ s.scoder.n) {out : Nat → Bytes}
    (hrec : s.scoder.reconstructData
      (availBlocks s.scoder.n s.scoder.blockSize s.txn.isAvailable chunk) = some out)
    (hout : ∀ j < s.scoder.k, out j = (chunk j).take s.scoder.blockSize) :
    ∃ s', decodeRound first s = .ok s' ∧ RoundPost chunk C S s s' := by
  have hkC : s.scoder.k ≤ s.scoder.k * C := Nat.le_mul_of_pos_right _ hC
  have hS : 0 < S := by have := H.lt; omega
  obtain ⟨s₁, hs₁, H₁⟩ := readShards_ok (m := s.scoder.n) H.readInv hf
    (by simp) hC H.lens H.width H.bodies (fun hlt => by
      -- a short round is the last one of `objSize / (blockSize * k) + 1`
      have hle : S < s.scoder.k * s.scoder.blockSize := lt_of_le_of_lt H.le
        (Nat.mul_lt_mul_of_pos_left hlt hk0)
      dsimp only
      rw [H.size, Nat.mul_comm s.scoder.blockSize, Nat.mul_comm s.rndCnt,
        Nat.mul_add_div (Nat.mul_pos hk0 hB), Nat.div_eq_of_lt hle]
      omega)
  dsimp only at H₁
  have hfill := H₁.fill hk H.lens hout
  dsimp only at hfill
  have hn₁ : s₁.n = min s.scoder.blockSize C := (H₁.lastN hfn).2
  have hrem₁ : s₁.remainingSize = S := H₁.remaining.trans H.remaining
  obtain ⟨n', hw⟩ := writeShards_ok (i := 0) (m := s.scoder.k)
    (s := { s₁ with scoder := s₁.scoder.fill out }) (b := min s.scoder.blockSize C)
    (fun j => (chunk j).take s.scoder.blockSize) hn₁ (by dsimp only; omega)
    (by dsimp only; rw [H₁.txn]; exact H.isOpen) (by dsimp only; rw [H₁.txn]; exact H.room)
    (fun j _ hj => ⟨hfill.done j (by omega), by
      rw [List.length_take, H.lens j (by omega)]⟩)
  have hrow : (List.range' 0 s.scoder.k).flatMap (fun j => (chunk j).take s.scoder.blockSize) =
      row s.scoder.blockSize s.scoder.k chunk := by rw [row, List.range_eq_range']
  refine ⟨_, Eq.trans ?_ hw, ?_⟩
  · rw [decodeRound, List.range_eq_range', hs₁]
    change (s₁.reconstruct.bind (writeShards (List.range s₁.scoder.k))) = _
    rw [reconstruct, H₁.contents_eq, H₁.like.reconstructData]
    dsimp only
    rw [hrec]
    change writeShards (List.range s₁.scoder.k) _ = _
    rw [List.range_eq_range', H₁.like.k]
  · have htxn := H₁.txn
    have hav : s₁.txn.isAvailable = s.txn.isAvailable := by rw [htxn]
    refine ⟨fill_like.trans H₁.like, ?_, ?_, ?_, ?_, ?_, ?_, H₁.rndCnt, ?_⟩
    · intro j hj
      rw [hfill.lo j (by rw [H₁.like.n]; exact hj), H₁.like.blockSize]
    · intro j hj ha
      have hlen : (s₁.scoder.shards j).len = min s.scoder.blockSize C := by
        rw [← Slice.length_read, H₁.done j hj ha,
          List.length_take, H.lens j hj]
      dsimp only
      rw [hfill.keep j (by rw [H₁.like.n]; exact hj) (by rw [hlen]; omega), hlen]
    · intro j hj ha
      dsimp only
      rw [H₁.resps j, if_pos ⟨hj, ha⟩]
    · dsimp only
      rw [hrow, hrem₁, htxn]
    · dsimp only
      rw [hrow, hrem₁, H₁.respBuffer]
    · dsimp only
      rw [hrem₁]
    · -- the loop ends when a read was short or when nothing is left to write
      dsimp only
      rw [H₁.lastBlock, hrem₁]
      dsimp only
      have hle := H.le
      have hlt := H.lt
      rcases Nat.lt_or_ge s.scoder.blockSize C with hBC | hCB
      · have hmul : s.scoder.k * (s.scoder.blockSize + 1) ≤ s.scoder.k * C :=
          Nat.mul_le_mul_left _ hBC
        rw [Nat.mul_succ] at hmul
        rw [Nat.min_eq_left (le_of_lt hBC)]
        simp only [Bool.or_eq_decide]
        rw [decide_eq_decide]
        simp only [decide_eq_true_eq]
        omega
      · rw [Nat.min_eq_right hCB]
        simp [hCB, hle]

/-- **The loop of `Decode`.** On chunks of one size whose rounds can be restored, the loop sends
the rounds of the data chunks, cut at the remaining size. -/
theorem decodeLoop_ok {m fuel : Nat} (H : LoopInv chunk C S s)
    (hf : IsFirst s.scoder.n s.txn.isAvailable first) (hfn : first < s.scoder.n) (hC : 0 < C)
    (hB : 0 < s.scoder.blockSize) (hk0 : 0 < s.scoder.k) (hk : s.scoder.k ≤ s.scoder.n)
    (hm : C ≤ m * s.scoder.blockSize) (hfuel : m < fuel)
    (hrec : ∀ r, r * s.scoder.blockSize < C → ∃ out, s.scoder.reconstructData
      (availBlocks s.scoder.n s.scoder.blockSize s.txn.isAvailable
        fun j => (chunk j).drop (r * s.scoder.blockSize)) = some out ∧
      ∀ j < s.scoder.k,
        out j = ((chunk j).drop (r * s.scoder.blockSize)).take s.scoder.blockSize) :
    ∃ r, decodeLoop first fuel s = some r ∧
      r.txn.pipew = { s.txn.pipew with
        sent := s.txn.pipew.sent ++ (interleave s.scoder.blockSize s.scoder.k m chunk).take S
        closed := true } ∧
      r.txn.sendSize = s.txn.sendSize + S ∧ r.txn.errs = s.txn.errs ∧
      r.respBuffer =
        some (s.respBuffer ++ (interleave s.scoder.blockSize s.scoder.k m chunk).take S) := by
  induction m generalizing s chunk C S fuel with
  | zero => omega
  | succ m ih =>
    obtain ⟨fuel, rfl⟩ : ∃ f, fuel = f + 1 := ⟨fuel - 1, by omega⟩
    obtain ⟨out, hrec₀, hout⟩ := hrec 0 (by omega)
    simp only [Nat.zero_mul, List.drop_zero] at hrec₀ hout
    obtain ⟨s', hs', P⟩ := decodeRound_ok H hf hfn hC hB hk0 hk hrec₀ hout
    have hav : s'.txn.isAvailable = s.txn.isAvailable := by rw [P.txn]
    have hrow : (row s.scoder.blockSize s.scoder.k chunk).length =
        s.scoder.k * min s.scoder.blockSize C := length_row fun j hj => H.lens j (by omega)
    rw [decodeLoop, H.lastBlock, if_neg (by simp), hs']
    dsimp only
    have hle := H.le
    have hlt := H.lt
    rw [interleave]
    rcases Nat.lt_or_ge s.scoder.blockSize C with hBC | hCB
    · rw [Nat.min_eq_left (le_of_lt hBC)] at hrow
      have hmul : s.scoder.k * (s.scoder.blockSize + 1) ≤ s.scoder.k * C :=
        Nat.mul_le_mul_left _ hBC
      rw [Nat.mul_succ] at hmul
      have hsub : s.scoder.k * (C - s.scoder.blockSize) =
          s.scoder.k * C - s.scoder.k * s.scoder.blockSize := Nat.mul_sub ..
      have hmin : min s.scoder.blockSize C = s.scoder.blockSize := Nat.min_eq_left (le_of_lt hBC)
      have hrem := P.remaining
      rw [hmin] at hrem
      have H' : LoopInv (fun j => (chunk j).drop s.scoder.blockSize) (C - s.scoder.blockSize)
          (S - s.scoder.k * s.scoder.blockSize) s' := by
        refine ⟨?_, ?_, ?_, ?_, ?_, ?_, ?_, hrem, ?_, ?_, ?_⟩
        · rw [P.like.n, P.like.blockSize]; exact P.lo
        · rw [P.like.n, P.like.blockSize, hav]
          intro j hj ha
          rw [P.width j hj ha, hmin]
        · rw [P.like.n, hav]; exact P.bodies
        · rw [P.like.n]
          intro j hj
          rw [List.length_drop, H.lens j hj]
        · rw [P.lastBlock]; simpa using hBC
        · rw [P.txn]; exact H.isOpen
        · rw [P.txn]; exact H.room
        · rw [P.like.k, P.like.blockSize, P.rndCnt, Nat.succ_mul, P.txn]
          have := H.size
          dsimp only
          omega
        · rw [P.like.k, hsub]; omega
        · rw [P.like.k, hsub]; omega
      obtain ⟨r, hr, hpipe, hsend, herrs, hbuf⟩ := ih H' (by rw [P.like.n, hav]; exact hf)
        (by rw [P.like.n]; exact hfn) (by omega) (by rw [P.like.blockSize]; exact hB)
        (by rw [P.like.k]; exact hk0) (by rw [P.like.k, P.like.n]; exact hk)
        (by rw [P.like.blockSize]; rw [Nat.succ_mul] at hm; omega)
        (show m < fuel by omega) (by
          rw [P.like.blockSize, P.like.reconstructData, P.like.n, P.like.k, hav]
          intro q hq
          obtain ⟨out, h1, h2⟩ := hrec (q + 1) (by rw [Nat.succ_mul]; omega)
          refine ⟨out, ?_, ?_⟩
          · simpa only [List.drop_drop, Nat.succ_mul, Nat.add_comm] using h1
          · simpa only [List.drop_drop, Nat.succ_mul, Nat.add_comm] using h2)
      have hsplit : ∀ rest : Bytes, (row s.scoder.blockSize s.scoder.k chunk ++ rest).take S =
          (row s.scoder.blockSize s.scoder.k chunk).take S ++
            rest.take (S - s.scoder.k * s.scoder.blockSize) := by
        intro rest; rw [List.take_append, hrow]
      rw [P.like.k, P.like.blockSize] at hpipe hbuf
      refine ⟨r, hr, ?_, ?_, ?_, ?_⟩
      · rw [hpipe, P.txn, hsplit]
        simp only [List.append_assoc]
      · rw [hsend, P.txn, hmin]
        dsimp only
        omega
      · rw [herrs, P.txn]
      · rw [hbuf, P.respBuffer, hsplit, List.append_assoc]
    · have hmin : min s.scoder.blockSize C = C := Nat.min_eq_right hCB
      rw [hmin] at hrow
      obtain ⟨fuel, rfl⟩ : ∃ f, fuel = f + 1 := ⟨fuel - 1, by omega⟩
      have hsplit : ∀ rest : Bytes, (row s.scoder.blockSize s.scoder.k chunk ++ rest).take S =
          (row s.scoder.blockSize s.scoder.k chunk).take S := by
        intro rest
        rw [List.take_append, hrow, Nat.sub_eq_zero_of_le hle, List.take_zero, List.append_nil]
      rw [decodeLoop, P.lastBlock, if_pos (by simpa using hCB)]
      refine ⟨_, rfl, ?_, ?_, ?_, ?_⟩
      · simp only [finish, PipeWriter.close]
        rw [P.txn, hsplit]
      · simp only [finish]
        rw [P.txn, hmin]
        dsimp only
        omega
      · simp only [finish]
        rw [P.txn]
      · simp only [finish]
        rw [P.respBuffer, hsplit]

end

end DecodeSt

/-! ## The decoder -/

/-- A chunk hit: the available ones of the `n` chunks, at least `k` of them, arrive completely and
the client reads to the end. -/
structure ChunkHit (n k : Nat) (chunk : Nat → Bytes) (t : FrontendTxnData) : Prop where
  nResps : n ≤ t.nResps
  enough : k ≤ (List.range n).countP t.isAvailable
  bodies : ∀ j < n, t.isAvailable j → t.resps j = Body.full (chunk j)
  isOpen : t.pipew.closed = false
  room : t.pipew.room = none

theorem ChunkHit.isFirst {n k : Nat} {chunk : Nat → Bytes} {t : FrontendTxnData}
    (h : ChunkHit n k chunk t) (hk : 0 < k) :
    firstAvailableReader t < n ∧ DecodeSt.IsFirst n t.isAvailable (firstAvailableReader t) := by
  obtain ⟨j, hj, ha⟩ := List.countP_pos_iff.mp (lt_of_lt_of_le hk h.enough)
  have hjn : j < n := List.mem_range.mp hj
  have hle : ∀ i < n, t.isAvailable i → firstAvailableReader t ≤ i ∧
      t.isAvailable (firstAvailableReader t) := by
    intro i hi hai
    have hin : i < t.nResps := lt_of_lt_of_le hi h.nResps
    unfold firstAvailableReader
    cases hfind : (List.range t.nResps).find? t.isAvailable with
    | none => exact absurd hai (List.find?_eq_none.mp hfind i (List.mem_range.mpr hin))
    | some f =>
      obtain ⟨ha, _, hfirst⟩ := List.find?_range_eq_some.mp hfind
      refine ⟨Nat.le_of_not_lt fun hlt => ?_, ha⟩
      simpa [hai] using hfirst i hlt
  exact ⟨lt_of_le_of_lt (hle j hjn ha).1 hjn, (hle j hjn ha).2, fun i hi hai => (hle i hi hai).1⟩

/-- **`Decode` on a chunk hit.** If every round of the chunks can be restored, `decode` sends the
rounds of the data chunks, cut at the object size, and closes the pipe. -/
theorem decode_eq {c : MyStreamCoder} {t : FrontendTxnData} {chunk : Nat → Bytes} {m fuel : Nat}
    (hc : c.Fresh) (hk0 : 0 < c.k) (hk : c.k ≤ c.n) (hB : 0 < c.blockSize) (hS : 0 < t.objSize)
    (ht : ChunkHit c.n c.k chunk t)
    (hlens : ∀ j < c.n, (chunk j).length = FrontendTxnData.chunkSizeOf t.objSize c.k)
    (hm : FrontendTxnData.chunkSizeOf t.objSize c.k ≤ m * c.blockSize) (hfuel : m < fuel)
    (hrec : ∀ r, r * c.blockSize < FrontendTxnData.chunkSizeOf t.objSize c.k →
      ∃ out, c.reconstructData (DecodeSt.availBlocks c.n c.blockSize t.isAvailable
        fun j => (chunk j).drop (r * c.blockSize)) = some out ∧
      ∀ j < c.k, out j = ((chunk j).drop (r * c.blockSize)).take c.blockSize) :
    ∃ r, decode fuel c t = some r ∧
      r.txn.pipew = { t.pipew with
        sent := t.pipew.sent ++ (interleave c.blockSize c.k m chunk).take t.objSize
        closed := true } ∧
      r.txn.sendSize = t.sendSize + t.objSize ∧ r.txn.errs = t.errs ∧
      r.respBuffer = some ((interleave c.blockSize c.k m chunk).take t.objSize) := by
  obtain ⟨hfn, hf⟩ := ht.isFirst hk0
  obtain ⟨hle, hlt⟩ := chunkSizeOf_bounds (S := t.objSize) hk0
  have H : DecodeSt.LoopInv chunk (FrontendTxnData.chunkSizeOf t.objSize c.k) t.objSize
      { scoder := c, txn := t, respBuffer := [], n := 0, lastN := 0, lastBlock := false,
        remainingSize := t.objSize, rndCnt := 0 } := by
    refine ⟨fun j hj => ?_, fun j hj _ => ?_, ht.bodies, hlens, rfl, ht.isOpen, ht.room, rfl,
      by simp, hle, hlt⟩
    · dsimp only
      rw [hc j hj, fullShard]
    · dsimp only
      rw [hc j hj, fullShard, Slice.len, Nat.mul_succ]
      exact Nat.add_sub_cancel_left ..
  exact DecodeSt.decodeLoop_ok H hf hfn (chunkSizeOf_pos hk0 hS) hB hk0 hk hm hfuel hrec

end C2DN.Frontend
