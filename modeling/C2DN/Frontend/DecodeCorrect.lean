import C2DN.Lib.Code
import C2DN.Frontend.DecodeLemmas

/-!
# Correctness of the streaming decoder

The chunks of an object in the block-interleaved layout that `Decode` reads: the object, padded
with zeros to `k` chunks, is striped over the data chunks and every round is coded by itself. From
any `k` of these chunks `decode` sends the object.
-/

namespace C2DN.Frontend

open Stripe FrontendTxnData

/-- The object, padded with zeros to `k` chunks. -/
def padded (k : Nat) (dat : Bytes) : Bytes :=
  dat ++ List.replicate (k * chunkSizeOf dat.length k - dat.length) 0

/-- The number of rounds in which chunks of `C` bytes are read. -/
def nRounds (C B : Nat) : Nat := (C + B - 1) / B

/-- The chunks of an object, interleaved in blocks of `B` bytes. -/
def interleavedChunks (code : BlockCode UInt8) (B : Nat) (dat : Bytes) : Nat → Bytes :=
  let C := chunkSizeOf dat.length code.k
  code.codeRounds B (nRounds C B) (stripe B code.k (nRounds C B) C (padded code.k dat))

section
variable {k C B m : Nat} {dat : Bytes}

theorem length_padded (hk : 0 < k) : (padded k dat).length = k * chunkSizeOf dat.length k := by
  have := (chunkSizeOf_bounds (S := dat.length) hk).1
  simp only [padded, List.length_append, List.length_replicate]
  omega

theorem take_padded : (padded k dat).take dat.length = dat := List.take_left' rfl

theorem le_nRounds_mul (hB : 0 < B) : C ≤ nRounds C B * B := by
  have hdm := Nat.div_add_mod (C + B - 1) B
  have hlt := Nat.mod_lt (C + B - 1) hB
  rw [nRounds, Nat.mul_comm]
  omega

theorem nRounds_le (hB : 0 < B) : nRounds C B ≤ C / B + 1 := by
  rw [nRounds, ← Nat.add_div_right _ hB]
  exact Nat.div_le_div_right (by omega)

/-- Read in rounds, the data chunks are the padded object. -/
theorem interleave_interleavedChunks {code : BlockCode UInt8} (hk : 0 < code.k) (hB : 0 < B) :
    interleave B code.k (nRounds (chunkSizeOf dat.length code.k) B)
      (interleavedChunks code B dat) = padded code.k dat := by
  have hm := le_nRounds_mul (C := chunkSizeOf dat.length code.k) hB
  have hdata : ∀ j < code.k, interleavedChunks code B dat j =
      stripe B code.k (nRounds (chunkSizeOf dat.length code.k) B)
        (chunkSizeOf dat.length code.k) (padded code.k dat) j := fun j hj =>
    BlockCode.codeRounds_data hj (by rw [length_stripe (length_padded hk) hm hj]; exact hm)
  rw [interleave_congr hdata, interleave_stripe (length_padded hk) hm]

/-- Chunks that are coded round by round can be restored round by round. -/
theorem reconstruct_codeRounds {code : BlockCode UInt8}
    {rec : (Nat → Bytes) → Option (Nat → Bytes)} {data : Nat → Bytes} {avail : Nat → Bool} {r : Nat}
    (hrec : code.Restores rec) (hlen : ∀ j < code.k, (data j).length = C) (hm : C ≤ m * B)
    (hB : 0 < B) (havail : code.k ≤ (List.range code.n).countP avail) (hr : r * B < C) :
    ∃ out, rec (DecodeSt.availBlocks code.n B avail
        fun j => (code.codeRounds B m data j).drop (r * B)) = some out ∧
      ∀ j < code.k, out j = ((code.codeRounds B m data j).drop (r * B)).take B := by
  have hblock : ∀ j < code.k, (((data j).drop (r * B)).take B).length = min B (C - r * B) := by
    intro j hj
    rw [List.length_take, List.length_drop, hlen j hj]
  obtain ⟨out, hout, hdata⟩ := hrec _ _ avail (by omega) hblock havail
  refine ⟨out, ?_, fun j hj => ?_⟩
  · rw [← hout]
    congr 1
    funext j
    unfold DecodeSt.availBlocks
    by_cases hj : j < code.n
    · rw [BlockCode.block_codeRounds hlen hm hj hr]
    · rw [if_neg fun h => hj h.1, if_neg fun h => hj h.1]
  · rw [hdata j hj, BlockCode.codeRounds_data hj (by rw [hlen j hj]; exact hm)]

end

/-- **Correctness of `Decode`.** From any `k` of the chunks of an object, `decode` sends exactly
the object and closes the pipe, after at most `nRounds` iterations. Whatever it is given, the
coder that it returns is as `newStreamCoder` built it, up to the bytes in its buffer. -/
theorem decode_correct :
    (∀ (code : BlockCode UInt8) (rec : (Nat → Bytes) → Option (Nat → Bytes)) (B fuel : Nat)
        (c : MyStreamCoder) (dat : Bytes) (t : FrontendTxnData),
      1 ≤ dat.length → 1 ≤ code.k → code.k < code.n → 1 ≤ B → code.Restores rec →
      c.Fresh → c.Like (newStreamCoder rec code.n code.k B) →
      t.objSize = dat.length → ChunkHit code.n code.k (interleavedChunks code B dat) t →
      nRounds (chunkSizeOf dat.length code.k) B < fuel →
      ∃ r, decode fuel c t = some r ∧
        r.txn.pipew = { t.pipew with sent := t.pipew.sent ++ dat, closed := true } ∧
        r.txn.sendSize = t.sendSize + dat.length ∧ r.respBuffer = some dat) ∧
    (∀ (rec : (Nat → Bytes) → Option (Nat → Bytes)) (n k B fuel : Nat) (c : MyStreamCoder)
        (t : FrontendTxnData) (r : DecodeRet),
      c.Like (newStreamCoder rec n k B) → decode fuel c t = some r →
      r.scoder.Like (newStreamCoder rec n k B) ∧
      ∀ i < n, r.scoder.shards i = ⟨B * i, B * (i + 1)⟩) := by
  refine ⟨?_, ?_⟩
  · intro code rec B fuel c dat t hdat hk hkn hB hrec hfresh hlike hsize ht hfuel
    obtain ⟨n, k, blockSize, rec', buf, shards⟩ := c
    obtain rfl : n = code.n := hlike.n
    obtain rfl : k = code.k := hlike.k
    obtain rfl : B = blockSize := hlike.blockSize.symm
    obtain rfl : rec = rec' := hlike.reconstructData.symm
    have hm := le_nRounds_mul (C := chunkSizeOf dat.length code.k) hB
    have hlen : ∀ j < code.k, (stripe B code.k (nRounds (chunkSizeOf dat.length code.k) B)
        (chunkSizeOf dat.length code.k) (padded code.k dat) j).length =
        chunkSizeOf dat.length code.k := fun j hj => length_stripe (length_padded hk) hm hj
    obtain ⟨r, hr, hpipe, hsend, -, hbuf⟩ := decode_eq (m := nRounds (chunkSizeOf dat.length code.k) B)
      hfresh hk (le_of_lt hkn) hB (by omega) ht
      (fun j hj => by rw [hsize]; exact BlockCode.length_codeRounds hlen hm hj)
      (by rw [hsize]; exact hm) hfuel
      (fun r hr => reconstruct_codeRounds hrec hlen hm hB ht.enough (by rwa [hsize] at hr))
    dsimp only at hpipe hbuf
    rw [interleave_interleavedChunks hk hB, hsize, take_padded] at hpipe hbuf
    exact ⟨r, hr, hpipe, by rw [hsend, hsize], hbuf⟩
  · intro rec n k B fuel c t r hlike hr
    obtain ⟨hfresh, hlike'⟩ := decode_fresh hr
    have hl := hlike'.trans hlike
    refine ⟨hl, fun i hi => ?_⟩
    rw [hfresh i (by rw [hl.n]; exact hi), hl.blockSize]
    rfl

/-- One data chunk and one parity chunk: the Cauchy matrix has the entry `1`. -/
def mirror : BlockCode UInt8 := .pointwise 2 1 Nat.one_pos fun data _ => data 0

/-- `ReconstructData` of `mirror`. -/
def mirrorReconstruct (shards : Nat → Bytes) : Option (Nat → Bytes) :=
  if shards 0 ≠ [] then some fun _ => shards 0
  else if shards 1 ≠ [] then some fun _ => shards 1
  else none

theorem mirror_word {data : Nat → Bytes} (j : Nat) : mirror.word data j =
    if j = 0 then data j else data 0 := by
  unfold BlockCode.word mirror BlockCode.pointwise
  by_cases hj : j = 0
  · simp [hj]
  · have h1 : ¬ j < 1 := by omega
    simp only [h1, hj, if_false]
    apply List.ext_getElem
    · simp
    · intro i hi hi'
      simp [BlockCode.column, List.getElem?_eq_getElem hi']

theorem mirror_restores : mirror.Restores mirrorReconstruct := by
  intro data b avail hb hlen hcount
  have h0 : (data 0).length = b := hlen 0 Nat.one_pos
  have hne : data 0 ≠ [] := List.ne_nil_of_length_pos (by omega)
  refine ⟨fun _ => data 0, ?_, fun j hj => ?_⟩
  · have hsome : avail 0 ∨ avail 1 := by
      by_contra h
      have : (List.range 2).countP avail = 0 := by simp_all [List.range_succ]
      change 1 ≤ (List.range 2).countP avail at hcount
      omega
    cases ha : avail 0 <;> cases hb : avail 1 <;>
      simp_all [mirrorReconstruct, mirror_word, show mirror.n = 2 from rfl]
  · rw [show j = 0 from Nat.lt_one_iff.mp hj]

/-- Three bytes in two rounds, of which only the parity chunk has arrived. -/
theorem decode_correct_parity_only :
    ∃ r, decode 3 (newStreamCoder mirrorReconstruct 2 1 2)
        { objSize := 3, chunkSize := 3, sendSize := 0, nResps := 3
          resps := fun _ => .full [10, 20, 30], isAvailable := fun i => i == 1
          pipew := .fresh, errs := [] } = some r ∧
      r.txn.pipew = ⟨[10, 20, 30], true, none⟩ ∧ r.txn.sendSize = 3 ∧
      r.respBuffer = some [10, 20, 30] :=
  decode_correct.1 mirror mirrorReconstruct 2 3 _ [10, 20, 30] _ (by decide) (by decide)
    (by decide) (by decide) mirror_restores MyStreamCoder.newStreamCoder_fresh .rfl rfl
    ⟨by decide, by decide, by decide, rfl, rfl⟩ (by decide)

end C2DN.Frontend
