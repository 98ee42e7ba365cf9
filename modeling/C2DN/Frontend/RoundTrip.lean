import C2DN.Frontend.Push
import C2DN.Frontend.PipeDataCorrect

/-!
# From the pushed chunks back to the client

`pushChunks` cuts an object into contiguous chunks, while both ways of answering read the chunks in
rounds of 128 KiB blocks, as the comment in `push.go` lays them out. The two agree on chunks of one
block; on longer ones they agree only if there is a single data chunk.
-/

namespace C2DN.Frontend

open Stripe FrontendTxnData

/-- The laws of the Reed-Solomon coder: `Split` cuts into contiguous, zero-padded shards, `Encode`
applies a systematic code `p` at every offset, and `ReconstructData` restores the data from any
`k` shards, which `p` must therefore determine. -/
structure Encoder.Lawful (enc : Encoder) (n k : Nat) (hk : 0 < k)
    (p : (Nat → UInt8) → Nat → UInt8) : Prop where
  split : ∀ dat, ∀ j < k, enc.split dat j = slab (chunkSizeOf dat.length k) (padded k dat) j
  encode : ∀ (shards : Nat → Bytes) (b : Nat), (∀ j < k, (shards j).length = b) →
    ∀ j < n, enc.encode shards j = (BlockCode.pointwise n k hk p).word shards j
  restores : (BlockCode.pointwise n k hk p).Restores enc.reconstructData

/-- The transaction of a client that asks for an object of `S` bytes when the chunks `avail` are
there. -/
def chunkTxn (prm : FrontendParam) (pushes : List ChunkPush) (S : Nat) (avail : Nat → Bool) :
    FrontendTxnData where
  objSize := S
  chunkSize := 0
  sendSize := 0
  nResps := prm.ECN + 1
  resps := fun j => .full (storedChunk pushes j)
  isAvailable := avail
  pipew := .fresh
  errs := []

/-- The client gets the object that has been pushed. -/
def RoundTrips (prm : FrontendParam) (enc : Encoder) (fuel : Nat) (scoder : MyStreamCoder)
    (peerIdx : Nat → Nat) (avail : Nat → Bool) (dat : Bytes) : Prop :=
  ∃ t, handleChunk prm fuel scoder (chunkTxn prm
      (pushChunks prm enc false peerIdx dat (List.range prm.ECN)) dat.length avail) = some t ∧
    t.pipew.sent = dat ∧ t.sendSize = dat.length

section
variable {prm : FrontendParam} {enc : Encoder} {hk : 0 < prm.ECK} {p : (Nat → UInt8) → Nat → UInt8}
  {peerIdx : Nat → Nat} {dat : Bytes} {avail : Nat → Bool} {scoder : MyStreamCoder} {fuel : Nat}

/-- The contiguous data chunks of an object. -/
def dataSlab (prm : FrontendParam) (dat : Bytes) : Nat → Bytes :=
  slab (chunkSizeOf dat.length prm.ECK) (padded prm.ECK dat)

theorem length_dataSlab (hk : 0 < prm.ECK) {j : Nat} (hj : j < prm.ECK) :
    (dataSlab prm dat j).length = chunkSizeOf dat.length prm.ECK :=
  length_slab (length_padded hk) hj

theorem find?_map_range {α : Type} (f : Nat → α) (key : α → Nat) (hkey : ∀ i, key (f i) = i)
    {n j : Nat} (hj : j < n) : ((List.range n).map f).find? (fun a => key a == j) = some (f j) := by
  rw [List.find?_map, List.find?_range_eq_some (i := j) |>.mpr]
  · rfl
  · refine ⟨by simp [hkey], List.mem_range.mpr hj, fun i hi => ?_⟩
    simp only [Function.comp, hkey, Bool.not_eq_true', beq_eq_false_iff_ne]
    omega

/-- What the peers store is the word of the contiguous data chunks. -/
theorem storedChunk_pushChunks (henc : enc.Lawful prm.ECN prm.ECK hk p) {j : Nat}
    (hj : j < prm.ECN) :
    storedChunk (pushChunks prm enc false peerIdx dat (List.range prm.ECN)) j =
      (BlockCode.pointwise prm.ECN prm.ECK hk p).word (enc.split dat) j := by
  have hlen : ∀ i < prm.ECK, (enc.split dat i).length = chunkSizeOf dat.length prm.ECK := fun i hi => by
    rw [henc.split dat i hi]; exact length_dataSlab hk hi
  unfold storedChunk pushChunks
  dsimp only
  rw [find?_map_range _ ChunkPush.chunkIdx (fun _ => rfl) hj]
  simp [henc.encode _ _ hlen j hj]

variable (peerIdx dat) in
/-- A chunk hit on the pushed chunks. -/
theorem chunkTxn_hit (henc : enc.Lawful prm.ECN prm.ECK hk p)
    (havail : prm.ECK ≤ (List.range prm.ECN).countP avail) :
    ChunkHit prm.ECN prm.ECK ((BlockCode.pointwise prm.ECN prm.ECK hk p).word (enc.split dat))
      (chunkTxn prm (pushChunks prm enc false peerIdx dat (List.range prm.ECN)) dat.length
        avail) where
  nResps := Nat.le_succ _
  enough := havail
  bodies j hj _ := by rw [← storedChunk_pushChunks henc hj]; rfl
  isOpen := rfl
  room := rfl

theorem length_pushed (henc : enc.Lawful prm.ECN prm.ECK hk p) {j : Nat} (hj : j < prm.ECN) :
    ((BlockCode.pointwise prm.ECN prm.ECK hk p).word (enc.split dat) j).length =
      chunkSizeOf dat.length prm.ECK :=
  BlockCode.length_word (fun i hi => by rw [henc.split dat i hi]; exact length_dataSlab hk hi) hj

theorem pushed_data (henc : enc.Lawful prm.ECN prm.ECK hk p) {j : Nat} (hj : j < prm.ECK) :
    (BlockCode.pointwise prm.ECN prm.ECK hk p).word (enc.split dat) j = dataSlab prm dat j := by
  exact (if_pos hj).trans (henc.split dat j hj)

theorem countP_range_eq {k : Nat} :
    (List.range k).countP avail = k ↔ ∀ j < k, avail j := by
  have h := List.countP_eq_length (p := avail) (l := List.range k)
  rw [List.length_range] at h
  simpa using h

theorem handleChunk_of_data {t : FrontendTxnData} (h : ∀ j < prm.ECK, t.isAvailable j) :
    handleChunk prm fuel scoder t = (pipeDataChunkToClient prm fuel
      { t with chunkSize := chunkSizeOf t.objSize prm.ECK }).map PipeRet.txn :=
  if_pos (countP_range_eq.mpr h)

theorem handleChunk_of_missing {t : FrontendTxnData} (h : ¬ ∀ j < prm.ECK, t.isAvailable j) :
    handleChunk prm fuel scoder t = (decode fuel scoder
      { t with chunkSize := chunkSizeOf t.objSize prm.ECK }).map DecodeRet.txn :=
  if_neg fun heq => h (countP_range_eq.mp heq)

/-- All data chunks are there. -/
theorem chunkTxn_dataHit (henc : enc.Lawful prm.ECN prm.ECK hk p)
    (havail : prm.ECK ≤ (List.range prm.ECN).countP avail) (hdata : ∀ j < prm.ECK, avail j) :
    DataHit prm ((BlockCode.pointwise prm.ECN prm.ECK hk p).word (enc.split dat))
      { chunkTxn prm (pushChunks prm enc false peerIdx dat (List.range prm.ECN)) dat.length avail
        with chunkSize := chunkSizeOf dat.length prm.ECK } :=
  have hit := chunkTxn_hit peerIdx dat henc havail
  ⟨⟨hit.nResps, hit.enough, hit.bodies, hit.isOpen, hit.room⟩, hdata, rfl,
    fun _ hj => length_pushed henc hj, rfl⟩

/-- The decoder on the pushed chunks: coded as a whole, they are coded round by round. -/
theorem decode_pushed (henc : enc.Lawful prm.ECN prm.ECK hk p) (hKN : prm.ECK ≤ prm.ECN)
    (hS : 0 < dat.length) (havail : prm.ECK ≤ (List.range prm.ECN).countP avail)
    (hc : scoder.Fresh) (hlike : scoder.Like
      (newStreamCoder enc.reconstructData prm.ECN prm.ECK codingSubChunkSize))
    (hfuel : nRounds (chunkSizeOf dat.length prm.ECK) codingSubChunkSize < fuel) :
    ∃ r, decode fuel scoder
        { chunkTxn prm (pushChunks prm enc false peerIdx dat (List.range prm.ECN)) dat.length avail
          with chunkSize := chunkSizeOf dat.length prm.ECK } = some r ∧
      r.txn.pipew.sent = (interleave codingSubChunkSize prm.ECK
        (nRounds (chunkSizeOf dat.length prm.ECK) codingSubChunkSize)
        ((BlockCode.pointwise prm.ECN prm.ECK hk p).word (enc.split dat))).take dat.length ∧
      r.txn.sendSize = dat.length := by
  obtain ⟨n, k, blockSize, rec, buf, shards⟩ := scoder
  obtain rfl : n = prm.ECN := hlike.n
  obtain rfl : k = prm.ECK := hlike.k
  obtain rfl : blockSize = codingSubChunkSize := hlike.blockSize
  obtain rfl : rec = enc.reconstructData := hlike.reconstructData
  have hit := chunkTxn_hit peerIdx dat henc havail
  have hm := le_nRounds_mul (C := chunkSizeOf dat.length prm.ECK) (B := codingSubChunkSize)
    (by decide)
  have hlen : ∀ i < prm.ECK, (enc.split dat i).length = chunkSizeOf dat.length prm.ECK :=
    fun i hi => by rw [henc.split dat i hi]; exact length_dataSlab hk hi
  have hrounds : (BlockCode.pointwise prm.ECN prm.ECK hk p).word (enc.split dat) =
      (BlockCode.pointwise prm.ECN prm.ECK hk p).codeRounds codingSubChunkSize
        (nRounds (chunkSizeOf dat.length prm.ECK) codingSubChunkSize) (enc.split dat) :=
    funext fun j => (BlockCode.codeRounds_pointwise hlen hm).symm
  have hB : 0 < codingSubChunkSize := by decide
  obtain ⟨r, hr, hpipe, hsend, -, -⟩ := decode_eq hc hk hKN hB
    (t := { chunkTxn prm (pushChunks prm enc false peerIdx dat (List.range prm.ECN)) dat.length
      avail with chunkSize := chunkSizeOf dat.length prm.ECK }) hS
    ⟨hit.nResps, hit.enough, hit.bodies, hit.isOpen, hit.room⟩
    (fun j hj => length_pushed henc hj) hm hfuel (fun q hq => by
      rw [hrounds]
      exact reconstruct_codeRounds henc.restores hlen hm hB havail hq)
  exact ⟨r, hr, by rw [hpipe]; rfl, by rw [hsend]; exact Nat.zero_add _⟩

variable (prm peerIdx dat avail fuel) in
/-- What the client gets: the rounds of the contiguous chunks, cut at the size of the object. -/
theorem handleChunk_ok (henc : enc.Lawful prm.ECN prm.ECK hk p) (hKN : prm.ECK ≤ prm.ECN)
    (hS : 0 < dat.length) (havail : prm.ECK ≤ (List.range prm.ECN).countP avail)
    (hc : scoder.Fresh) (hlike : scoder.Like
      (newStreamCoder enc.reconstructData prm.ECN prm.ECK codingSubChunkSize))
    (hfuel : chunkSizeOf dat.length prm.ECK / codingSubChunkSize + 1 < fuel)
    (hgood : (∀ j < prm.ECK, avail j) → PipesWell prm.ECK dat.length) :
    ∃ t, handleChunk prm fuel scoder (chunkTxn prm
        (pushChunks prm enc false peerIdx dat (List.range prm.ECN)) dat.length avail) = some t ∧
      t.pipew.sent = (interleave codingSubChunkSize prm.ECK
        (nRounds (chunkSizeOf dat.length prm.ECK) codingSubChunkSize)
        (dataSlab prm dat)).take dat.length ∧
      t.sendSize = dat.length := by
  rw [interleave_congr fun j hj => (pushed_data henc hj).symm]
  by_cases hdata : ∀ j < prm.ECK, avail j
  · obtain ⟨r, hr, hpipe, hsend, -⟩ := pipeDataChunkToClient_ok
      (chunkTxn_dataHit henc havail hdata) hk hKN hfuel
      (hgood hdata)
    refine ⟨r.txn, ?_, by rw [hpipe]; rfl, hsend⟩
    rw [handleChunk_of_data hdata]
    exact congrArg (Option.map PipeRet.txn) hr
  · obtain ⟨r, hr, hsent, hsend⟩ := decode_pushed henc hKN hS havail hc hlike
      (lt_of_le_of_lt (nRounds_le (by decide)) hfuel)
    refine ⟨r.txn, ?_, hsent, hsend⟩
    rw [handleChunk_of_missing hdata]
    exact congrArg (Option.map DecodeRet.txn) hr

/-- What the client gets when the fast path gives up. -/
theorem handleChunk_fails (henc : enc.Lawful prm.ECN prm.ECK hk p) (hKN : prm.ECK ≤ prm.ECN)
    (havail : prm.ECK ≤ (List.range prm.ECN).countP avail)
    (hfuel : chunkSizeOf dat.length prm.ECK / codingSubChunkSize + 1 < fuel)
    (hdata : ∀ j < prm.ECK, avail j) (hbad : ¬ PipesWell prm.ECK dat.length) :
    ∃ t, handleChunk prm fuel scoder (chunkTxn prm
        (pushChunks prm enc false peerIdx dat (List.range prm.ECN)) dat.length avail) = some t ∧
      if chunkSizeOf dat.length prm.ECK ≤ codingSubChunkSize
      then dat.length < t.pipew.sent.length
      else row codingSubChunkSize prm.ECK (dataSlab prm dat) <+: t.pipew.sent := by
  obtain ⟨q, r, hr, -, hsent, hq⟩ := pipeDataChunkToClient_fails
    (chunkTxn_dataHit henc havail hdata) hk hKN hfuel hbad
  refine ⟨r.txn, ?_, ?_⟩
  · rw [handleChunk_of_data hdata]
    exact congrArg (Option.map PipeRet.txn) hr
  · obtain rfl : r.txn.pipew.sent = q := hsent
    have hrow : row codingSubChunkSize prm.ECK (dataSlab prm dat) = row codingSubChunkSize prm.ECK
        ((BlockCode.pointwise prm.ECN prm.ECK hk p).word (enc.split dat)) :=
      row_congr fun j hj => by rw [pushed_data henc hj]
    rw [hrow]
    exact hq

/-! ## Which objects survive -/

/-- A single data chunk, or chunks of one block, are read back as they were cut. -/
theorem interleave_dataSlab (hk : 0 < prm.ECK)
    (h : prm.ECK = 1 ∨ chunkSizeOf dat.length prm.ECK ≤ codingSubChunkSize) :
    interleave codingSubChunkSize prm.ECK
      (nRounds (chunkSizeOf dat.length prm.ECK) codingSubChunkSize) (dataSlab prm dat) =
      padded prm.ECK dat := by
  have hm := le_nRounds_mul (C := chunkSizeOf dat.length prm.ECK) (B := codingSubChunkSize)
    (by decide)
  rcases h with h | h
  · have hlen : (dataSlab prm dat 0).length = _ := length_dataSlab hk hk
    have hpad : (padded prm.ECK dat).length = _ := length_padded hk
    rw [h] at hlen hm hpad ⊢
    rw [interleave_one (by rw [hlen]; exact hm)]
    simp only [dataSlab, slab, h, Nat.zero_mul, List.drop_zero]
    exact List.take_of_length_le (by omega)
  · rw [interleave_enough 1 (fun j hj => length_dataSlab hk hj) hm (by omega)]
    exact interleave_slab (length_padded hk) h

theorem pipesWell_one (S : Nat) : PipesWell 1 S := by
  have hC : chunkSizeOf S 1 = S := by simp [chunkSizeOf, Nat.mod_one]
  simp only [PipesWell, hC]
  split
  · simp
  · exact .inl (by simp)

/-- The object that shows where the second chunk goes: one byte at the start of it. -/
def marked (S C : Nat) : Bytes := List.replicate C 0 ++ 1 :: List.replicate (S - C - 1) 0

theorem length_marked {S C : Nat} (h : C < S) : (marked S C).length = S := by
  simp only [marked, List.length_append, List.length_cons, List.length_replicate]
  omega

/-- With several data chunks of more than a block, the client sees the mark too early. -/
theorem marked_not_prefix {sent : Bytes} {S : Nat} (hK : 2 ≤ prm.ECK) (hCS : chunkSizeOf S prm.ECK < S)
    (hC : codingSubChunkSize < chunkSizeOf S prm.ECK)
    (h : row codingSubChunkSize prm.ECK (dataSlab prm (marked S (chunkSizeOf S prm.ECK))) <+: sent) :
    sent ≠ marked S (chunkSizeOf S prm.ECK) := by
  generalize hdat : marked S (chunkSizeOf S prm.ECK) = dat at *
  have hS : dat.length = S := by rw [← hdat]; exact length_marked hCS
  have hk : 0 < prm.ECK := by omega
  have h0 : (dataSlab prm dat 0).length = _ := length_dataSlab hk hk
  have h1 : (dataSlab prm dat 1).length = _ := length_dataSlab hk (by omega)
  rw [hS] at h0 h1
  have hB : 0 < codingSubChunkSize := by decide
  have hrow := row_getElem? (c := dataSlab prm dat) hK hB (by omega) (by omega)
  have hone : (dataSlab prm dat 1)[0]? = some 1 := by
    simp only [dataSlab, slab, hS, Nat.one_mul]
    rw [List.getElem?_take_of_lt (by omega), List.getElem?_drop, Nat.add_zero, padded,
      List.getElem?_append_left (by omega), ← hdat, marked]
    simp
  have hzero : dat[codingSubChunkSize]? = some 0 := by
    rw [← hdat, marked, List.getElem?_append_left (by simpa using hC)]
    simp [hC]
  rintro rfl
  obtain ⟨hlt, -⟩ := List.getElem?_eq_some_iff.mp (hrow.trans hone)
  obtain ⟨q, hq⟩ := h
  have hmark : sent[codingSubChunkSize]? = some 1 := by
    conv_lhs => rw [← hq]
    rw [List.getElem?_append_left hlt, hrow, hone]
  rw [hzero] at hmark
  cases hmark

/-- A chunk that does not hold the whole object is shorter than it. -/
theorem chunkSizeOf_lt {S K : Nat} (hK : 2 ≤ K) (hS : 2 < S) : chunkSizeOf S K < S := by
  have hdiv : S / K ≤ S / 2 := Nat.div_le_div_left hK (by decide)
  unfold chunkSizeOf
  split <;> omega

/-- **Which objects survive the round trip.** -/
theorem roundTrips_iff (prm : FrontendParam) (enc : Encoder) (p : (Nat → UInt8) → Nat → UInt8)
    (peerIdx : Nat → Nat) (avail : Nat → Bool) (scoder : MyStreamCoder) (S fuel : Nat)
    (hS : 128 < S) (hk : 0 < prm.ECK) (hKN : prm.ECK < prm.ECN)
    (havail : prm.ECK ≤ (List.range prm.ECN).countP avail)
    (henc : enc.Lawful prm.ECN prm.ECK hk p) (hc : scoder.Fresh)
    (hlike : scoder.Like (newStreamCoder enc.reconstructData prm.ECN prm.ECK codingSubChunkSize))
    (hfuel : chunkSizeOf S prm.ECK / codingSubChunkSize + 1 < fuel) :
    (∀ dat : Bytes, dat.length = S → RoundTrips prm enc fuel scoder peerIdx avail dat) ↔
      prm.ECK = 1 ∨ (chunkSizeOf S prm.ECK ≤ codingSubChunkSize ∧
        ((∀ j < prm.ECK, avail j) → (prm.ECK - 1) * chunkSizeOf S prm.ECK ≤ S)) := by
  constructor
  · intro h
    rcases Nat.lt_or_ge 1 prm.ECK with hK | hK
    swap
    · exact .inl (by omega)
    have hCS := chunkSizeOf_lt (S := S) hK (by omega)
    have hlen := length_marked hCS
    obtain ⟨t, ht, hsent, -⟩ := h (marked S (chunkSizeOf S prm.ECK)) hlen
    refine .inr ?_
    by_cases hbad : (∀ j < prm.ECK, avail j) ∧ ¬ PipesWell prm.ECK S
    · -- the fast path gives up
      exfalso
      obtain ⟨t', ht', hpost⟩ := handleChunk_fails henc
        (le_of_lt hKN) havail (by rw [hlen]; exact hfuel) hbad.1 (by rw [hlen]; exact hbad.2)
      rw [ht] at ht'
      cases ht'
      rw [hlen] at hpost
      split at hpost
      · rw [hsent, hlen] at hpost; omega
      · next hC => exact marked_not_prefix hK hCS (by omega) hpost hsent
    · obtain ⟨t', ht', hsent', -⟩ := handleChunk_ok prm peerIdx _ avail fuel henc (le_of_lt hKN)
        (by rw [hlen]; omega) havail hc hlike (by rw [hlen]; exact hfuel)
        (fun hdata => by rw [hlen]; by_contra hw; exact hbad ⟨hdata, hw⟩)
      rw [ht] at ht'
      cases ht'
      have hC : chunkSizeOf S prm.ECK ≤ codingSubChunkSize := by
        by_contra hC
        obtain ⟨-, hlt⟩ := chunkSizeOf_bounds (S := S) hk
        have hmul : prm.ECK * codingSubChunkSize + prm.ECK ≤ prm.ECK * chunkSizeOf S prm.ECK := by
          rw [← Nat.mul_succ]; exact Nat.mul_le_mul_left _ (by omega)
        refine marked_not_prefix hK hCS (by omega) ?_ hsent
        rw [hsent', hlen]
        refine row_prefix_take (Nat.div_pos (by omega) (by decide)) ?_
        rw [length_row fun j hj => length_dataSlab hk hj, hlen, Nat.min_eq_left (by omega)]
        omega
      refine ⟨hC, fun hdata => ?_⟩
      by_contra hlt
      refine hbad ⟨hdata, fun hw => ?_⟩
      simp only [PipesWell, if_pos hC] at hw
      exact hlt hw
  · intro h dat hdat
    have hgood : (∀ j < prm.ECK, avail j) → PipesWell prm.ECK dat.length := by
      intro hdata
      rw [hdat]
      rcases h with h | ⟨hC, h⟩
      · rw [h]; exact pipesWell_one S
      · simp only [PipesWell, if_pos hC]; exact h hdata
    obtain ⟨t, ht, hsent, hsend⟩ := handleChunk_ok prm peerIdx _ avail fuel henc (le_of_lt hKN)
      (by omega) havail hc hlike (by rw [hdat]; exact hfuel) hgood
    refine ⟨t, ht, ?_, hsend⟩
    rw [hsent, interleave_dataSlab hk (h.imp id fun h => by rw [hdat]; exact h.1), take_padded]

end

/-- An encoder made of the code `p` and its decoder. -/
def Encoder.ofCode (n k : Nat) (hk : 0 < k) (p : (Nat → UInt8) → Nat → UInt8)
    (rec : (Nat → Bytes) → Option (Nat → Bytes)) : Encoder where
  split dat := slab (chunkSizeOf dat.length k) (padded k dat)
  encode := (BlockCode.pointwise n k hk p).word
  reconstructData := rec

theorem Encoder.ofCode_lawful {n k : Nat} {hk : 0 < k} {p : (Nat → UInt8) → Nat → UInt8}
    {rec : (Nat → Bytes) → Option (Nat → Bytes)}
    (h : (BlockCode.pointwise n k hk p).Restores rec) :
    (Encoder.ofCode n k hk p rec).Lawful n k hk p :=
  ⟨fun _ _ _ => rfl, fun _ _ _ _ _ => rfl, h⟩

/-! ## Two data chunks and their sum -/

def xorBytes (a b : Bytes) : Bytes := List.zipWith (· ^^^ ·) a b

theorem xorBytes_cancel {a b : Bytes} (h : a.length = b.length) :
    xorBytes (xorBytes a b) a = b ∧ xorBytes (xorBytes a b) b = a := by
  induction a generalizing b with
  | nil =>
    obtain rfl := List.eq_nil_of_length_eq_zero h.symm
    exact ⟨rfl, rfl⟩
  | cons x a ih =>
    cases b with
    | nil => cases h
    | cons y b =>
      obtain ⟨h1, h2⟩ := ih (Nat.succ.inj h)
      simp only [xorBytes, List.zipWith_cons_cons] at h1 h2 ⊢
      rw [h1, h2, UInt8.xor_comm x y, UInt8.xor_assoc, UInt8.xor_self, UInt8.xor_zero,
        UInt8.xor_comm y x, UInt8.xor_assoc, UInt8.xor_self, UInt8.xor_zero]
      exact ⟨rfl, rfl⟩

/-- The sum of the two data bytes. -/
def xorParity (d : Nat → UInt8) (_ : Nat) : UInt8 := d 0 ^^^ d 1

def xorReconstruct (shards : Nat → Bytes) : Option (Nat → Bytes) :=
  if shards 0 ≠ [] ∧ shards 1 ≠ [] then some shards
  else if shards 0 ≠ [] ∧ shards 2 ≠ [] then
    some fun j => if j = 1 then xorBytes (shards 2) (shards 0) else shards j
  else if shards 1 ≠ [] ∧ shards 2 ≠ [] then
    some fun j => if j = 0 then xorBytes (shards 2) (shards 1) else shards j
  else none

theorem xor_word {data : Nat → Bytes} (h : (data 0).length = (data 1).length) :
    (BlockCode.pointwise 3 2 Nat.two_pos xorParity).word data 2 = xorBytes (data 0) (data 1) := by
  unfold BlockCode.word BlockCode.pointwise xorBytes
  dsimp only
  rw [if_neg (by decide)]
  apply List.ext_getElem
  · simp [h]
  · intro i hi hi'
    have h0 : i < (data 0).length := by simpa using hi
    have h1 : i < (data 1).length := by omega
    simp [BlockCode.column, xorParity, List.getElem?_eq_getElem h0, List.getElem?_eq_getElem h1]

theorem xor_restores : (BlockCode.pointwise 3 2 Nat.two_pos xorParity).Restores xorReconstruct := by
  intro data b avail hb hlen hcount
  have h0 : (data 0).length = b := hlen 0 (by decide)
  have h1 : (data 1).length = b := hlen 1 (by decide)
  have hx := xor_word (h0.trans h1.symm)
  obtain ⟨hc0, hc1⟩ := xorBytes_cancel (h0.trans h1.symm)
  have hne0 : data 0 ≠ [] := List.ne_nil_of_length_pos (by omega)
  have hne1 : data 1 ≠ [] := List.ne_nil_of_length_pos (by omega)
  have hnex : xorBytes (data 0) (data 1) ≠ [] := List.ne_nil_of_length_pos (by
    simp [xorBytes, h0, h1, hb])
  have hw0 : (BlockCode.pointwise 3 2 Nat.two_pos xorParity).word data 0 = data 0 := rfl
  have hw1 : (BlockCode.pointwise 3 2 Nat.two_pos xorParity).word data 1 = data 1 := rfl
  have hcount : 2 ≤ (List.range 3).countP avail := hcount
  have hj : ∀ j < 2, j = 0 ∨ j = 1 := by omega
  -- which of the three blocks are there
  cases ha0 : avail 0 <;> cases ha1 : avail 1 <;> cases ha2 : avail 2 <;>
    simp [List.range_succ, ha0, ha1, ha2] at hcount
  all_goals
    refine ⟨_, by
      simp [xorReconstruct, show (BlockCode.pointwise 3 2 Nat.two_pos xorParity).n = 3 from rfl,
        ha0, ha1, ha2, hw0, hw1, hx, hne0, hne1, hnex]
      rfl, fun j hjk => ?_⟩
    rcases hj j hjk with rfl | rfl <;>
      simp [ha0, ha1, hw0, hw1, hc0, hc1]

/-- 129 different bytes, read without the first data chunk. -/
theorem roundTrips_xor :
    RoundTrips ⟨3, 2⟩ (.ofCode 3 2 Nat.two_pos xorParity xorReconstruct) 2
      (newStreamCoder xorReconstruct 3 2 codingSubChunkSize) id (fun i => i != 0)
      ((List.range 129).map UInt8.ofNat) :=
  (roundTrips_iff ⟨3, 2⟩ _ xorParity id (fun i => i != 0) _ 129 2 (by decide)
    Nat.two_pos (by decide) (by decide) (Encoder.ofCode_lawful xor_restores)
    MyStreamCoder.newStreamCoder_fresh .rfl (by decide)).mpr
      (.inr ⟨by decide, fun h => absurd (h 0 Nat.two_pos) (by decide)⟩) _
      (by rw [List.length_map, List.length_range])

/-- Two chunks of 128 KiB and a byte: the client sees the start of the second chunk a byte early. -/
theorem marked_not_roundTrips :
    (Encoder.ofCode 3 2 Nat.two_pos xorParity xorReconstruct).Lawful 3 2 Nat.two_pos xorParity ∧
    ∃ t, handleChunk ⟨3, 2⟩ 3 (newStreamCoder xorReconstruct 3 2 codingSubChunkSize)
        (chunkTxn ⟨3, 2⟩ (pushChunks ⟨3, 2⟩ (.ofCode 3 2 Nat.two_pos xorParity xorReconstruct) false
          id (marked 262146 131073) (List.range 3)) (marked 262146 131073).length
          fun _ => true) = some t ∧
      t.pipew.sent ≠ marked 262146 131073 := by
  have hlaw := Encoder.ofCode_lawful xor_restores
  have hC : chunkSizeOf 262146 (FrontendParam.ECK ⟨3, 2⟩) = 131073 := by decide
  have hlen : (marked 262146 131073).length = 262146 := length_marked (by decide)
  obtain ⟨t, ht, hsent, -⟩ := handleChunk_ok ⟨3, 2⟩ id (marked 262146 131073)
    (fun _ => true) 3 hlaw (by decide)
    (by rw [hlen]; decide)
    (by decide) MyStreamCoder.newStreamCoder_fresh .rfl (by rw [hlen, hC]; decide)
    (fun _ => by rw [hlen]; decide)
  refine ⟨hlaw, t, ht, ?_⟩
  rw [← hC] at hsent ⊢
  refine marked_not_prefix (by decide) (by decide) (by decide) ?_
  rw [hsent, hC, hlen]
  refine row_prefix_take (by decide) ?_
  rw [length_row fun j hj => length_dataSlab (by decide) hj, hlen, hC]
  decide

end C2DN.Frontend
