import C2DN.Frontend.PipeDataLemmas

/-!
# When the data chunks can be sent without decoding

The chunks of `S` bytes hold `d = K * ChunkSize - S` bytes of padding. The single round copes with
padding that fits into the last chunk. In several rounds the last block of the last chunk is cut
to `ChunkSize % B - d`, so the padding has to fit into this block, or to fill whole last blocks; in
every other case `PipeDataChunkToClient` gives up with `HandleFailedReq`, whereas `Decode` serves
the object.
-/

namespace C2DN.Frontend

open Stripe FrontendTxnData

namespace PipeSt

variable {prm : FrontendParam} {s s' : PipeSt} {chunk : Nat → Bytes} {S C d R r : Nat}

/-- An object of `S` bytes in `K` chunks of `R` full blocks and `r` bytes, with `d` bytes of
padding. -/
structure Sizes (K S C d R r : Nat) : Prop where
  pos : 0 < K
  total : S + d = K * C
  pad : d < K
  chunk : C = R * codingSubChunkSize + r
  rem : r < codingSubChunkSize
  full : 0 < R

theorem Sizes.split {K : Nat} (h : Sizes K S C d R r) :
    S + d = R * (K * codingSubChunkSize) + K * r := by
  rw [h.total, h.chunk]; ring

theorem le_mul_codingSubChunkSize (K : Nat) : K ≤ K * codingSubChunkSize :=
  Nat.le_mul_of_pos_right _ (by decide)

/-- The head of the round in which the chunks end. -/
structure LastRound (prm : FrontendParam) (chunk : Nat → Bytes) (S C R r : Nat) (s : PipeSt) :
    Prop where
  isOpen : s.Open
  lastBlock : s.lastBlock = false
  objSize : s.txn.objSize = S
  chunkSize : s.txn.chunkSize = C
  sendSize : s.txn.sendSize = R * (prm.ECK * codingSubChunkSize)
  bodies : ∀ j < prm.ECK, s.txn.resps j = Body.full (chunk j) ∧ (chunk j).length = r

theorem lastBlockSize_of_pos (h : Sizes prm.ECK S C d R r) (hr : 0 < r) {t : FrontendTxnData}
    (hS : t.objSize = S) (hC : t.chunkSize = C) : lastBlockSize prm t = r - d := by
  have hsplit := h.split
  have hpad := h.pad
  have hKr : prm.ECK ≤ prm.ECK * r := Nat.le_mul_of_pos_right _ hr
  have hlt : prm.ECK * r < codingSubChunkSize * prm.ECK := by
    rw [Nat.mul_comm codingSubChunkSize]; exact Nat.mul_lt_mul_of_pos_left h.rem h.pos
  have hS' : S = codingSubChunkSize * prm.ECK * R + (prm.ECK * r - d) := by
    have : R * (prm.ECK * codingSubChunkSize) = codingSubChunkSize * prm.ECK * R := by ring
    omega
  have hCr : C % codingSubChunkSize = r := by
    rw [h.chunk, Nat.mul_comm, Nat.mul_add_mod, Nat.mod_eq_of_lt h.rem]
  have hK : r * (prm.ECK - 1) + r = prm.ECK * r := by
    rw [← Nat.mul_succ, Nat.succ_eq_add_one, Nat.sub_add_cancel h.pos, Nat.mul_comm]
  rw [lastBlockSize, hS, hC, hCr, hS', Nat.mul_add_mod, Nat.mod_eq_of_lt (by omega)]
  omega

theorem lastBlockSize_of_zero (h : Sizes prm.ECK S C d R 0) (hd : 0 < d) {t : FrontendTxnData}
    (hS : t.objSize = S) (hC : t.chunkSize = C) :
    lastBlockSize prm t = prm.ECK * codingSubChunkSize - d := by
  have hsplit := h.split
  have hpad := h.pad
  have hle := le_mul_codingSubChunkSize prm.ECK
  obtain ⟨R', rfl⟩ : ∃ R', R = R' + 1 := ⟨R - 1, by have := h.full; omega⟩
  have hS' : S = codingSubChunkSize * prm.ECK * R' + (prm.ECK * codingSubChunkSize - d) := by
    have : (R' + 1) * (prm.ECK * codingSubChunkSize) =
      codingSubChunkSize * prm.ECK * R' + prm.ECK * codingSubChunkSize := by ring
    omega
  have hCr : C % codingSubChunkSize = 0 := by rw [h.chunk, Nat.add_zero, Nat.mul_mod_left]
  rw [lastBlockSize, hS, hC, hCr, hS', Nat.mul_add_mod, Nat.mod_eq_of_lt (by
    rw [Nat.mul_comm codingSubChunkSize]; omega)]
  omega

/-- The last round copies short blocks until the object has been sent or only the last chunk is
left. -/
theorem LastRound.copies {l : Nat} (js : List Nat) (H : LastRound prm chunk S C R r s)
    (h : Sizes prm.ECK S C d R r) (hl0 : 0 < l) (hl : l ≤ prm.ECK - 1)
    (hne : ∀ i < l, R * (prm.ECK * codingSubChunkSize) + i * r ≠ S) :
    ∃ s', pipeRound prm (List.range' 0 l ++ js) s = pipeRound prm js s' ∧
      Sends 0 l (fun _ => []) ((List.range' 0 l).flatMap chunk) s s' ∧ s'.lastBlock = true := by
  obtain ⟨s', hs', h', hlast'⟩ := pipeRound_shorts (i := 0) (m := l) prm js
    H.isOpen h.rem (fun j _ hj => H.bodies j (by omega)) (by omega)
    (fun i hi => by rw [H.sendSize, H.objSize]; exact hne i hi)
  rw [Nat.zero_add] at h'
  exact ⟨s', hs', h', by rw [hlast']; simp [hl0]⟩

/-- The step that ends the last round. -/
theorem pipeRound_last (hlast : s.lastBlock = true) :
    pipeRound prm [prm.ECK - 1] s = copyLastBlock prm s := by
  rw [pipeRound, if_neg (by simp [hlast])]
  cases copyLastBlock prm s <;> rfl

theorem range_eq_append_last (h : 0 < prm.ECK) :
    List.range prm.ECK = List.range' 0 (prm.ECK - 1) ++ [prm.ECK - 1] := by
  conv_lhs => rw [← Nat.sub_add_cancel (h : 1 ≤ prm.ECK)]
  rw [List.range_succ, List.range_eq_range']

theorem flatMap_range_last (h : 0 < prm.ECK) {f : Nat → Bytes} :
    (List.range' 0 prm.ECK).flatMap f =
      (List.range' 0 (prm.ECK - 1)).flatMap f ++ f (prm.ECK - 1) := by
  rw [← List.range_eq_range', range_eq_append_last h]
  simp

theorem length_flatMap_range' {k b : Nat} {f : Nat → Bytes} (h : ∀ j < k, (f j).length = b) :
    ((List.range' 0 k).flatMap f).length = k * b := by
  rw [← List.range_eq_range']; exact length_flatMap_range h

/-- Padding that fits into the last block of the last chunk. -/
theorem LastRound.ok_of_le (H : LastRound prm chunk S C R r s) (h : Sizes prm.ECK S C d R r)
    (hr : 0 < r) (hd : d ≤ r) :
    ∃ s', pipeRound prm (List.range prm.ECK) s = .ok s' ∧ s'.lastBlock = true ∧
      Sends 0 prm.ECK (fun _ => []) (((List.range' 0 prm.ECK).flatMap chunk).take
        (prm.ECK * r - d)) s s' := by
  have hsplit := h.split
  have hpad := h.pad
  by_cases hK : prm.ECK = 1
  · -- the only block ends the round
    obtain ⟨hb, hlen⟩ := H.bodies 0 h.pos
    have hd0 : d = 0 := by omega
    rw [hK, hd0] at hsplit ⊢
    refine ⟨{ (s.piped 0 (chunk 0) []).addSendSize (chunk 0).length with lastBlock := true }, ?_,
      rfl, ?_⟩
    · have hne : s.txn.sendSize ≠ s.txn.objSize := by rw [H.sendSize, H.objSize, hK]; omega
      have hstep := pipeRound_short prm [] H.isOpen hb (by rw [hlen]; exact h.rem)
        (.inl H.lastBlock) hne
      exact hstep
    · have htake : ((List.range' 0 1).flatMap chunk).take (1 * r - 0) = chunk 0 := by
        simp [← hlen]
      rw [htake]
      exact ⟨rfl, rfl, (piped_sends fun _ => []).done,
        (piped_sends fun _ => []).other⟩
  · have hK2 : 0 < prm.ECK - 1 := by have := h.pos; omega
    have hKr : (prm.ECK - 1) * r + r = prm.ECK * r := by
      rw [← Nat.succ_mul, Nat.succ_eq_add_one, Nat.sub_add_cancel h.pos]
    obtain ⟨s₁, hs₁, h₁, hlast₁⟩ := H.copies (l := prm.ECK - 1) [prm.ECK - 1] h hK2
      (le_refl _) (fun i hi => by
        have : (i + 1) * r ≤ (prm.ECK - 1) * r := Nat.mul_le_mul_right r hi
        rw [Nat.succ_mul] at this
        omega)
    have hlen₁ := length_flatMap_range' (k := prm.ECK - 1) (f := chunk)
      (fun j hj => (H.bodies j (by omega)).2)
    obtain ⟨hb, hlen⟩ := H.bodies (prm.ECK - 1) (by omega)
    have hsize : lastBlockSize prm s₁.txn = r - d :=
      lastBlockSize_of_pos h hr (h₁.objSize.trans H.objSize) (h₁.chunkSize.trans H.chunkSize)
    obtain ⟨s₂, hs₂, h₂, hlast₂⟩ := copyLastBlock_ok prm (h₁.open H.isOpen)
      (by rw [h₁.other _ (by omega)]; exact hb)
      (by rw [hsize, h₁.sendSize, h₁.objSize, H.sendSize, H.objSize, hlen₁]; omega)
      (by rw [hsize, hlen]; omega)
    refine ⟨s₂, ?_, hlast₂.trans hlast₁, ?_⟩
    · rw [range_eq_append_last h.pos, hs₁, pipeRound_last hlast₁, hs₂]
    · rw [flatMap_range_last h.pos, List.take_append, List.take_of_length_le (by omega), hlen₁,
        show prm.ECK * r - d - (prm.ECK - 1) * r = r - d by omega]
      rw [hsize] at h₂
      have := h₁.trans h₂ (by omega) (by omega)
      rwa [show prm.ECK - 1 + 1 = prm.ECK by omega] at this

/-- Padding that fills the last blocks of several chunks: these blocks are thrown away. -/
theorem LastRound.ok_of_dvd (H : LastRound prm chunk S C R r s) (h : Sizes prm.ECK S C d R r)
    (hr : 0 < r) (hd : r < d) (hdvd : r ∣ d) :
    ∃ s', pipeRound prm (List.range prm.ECK) s = .ok s' ∧ s'.lastBlock = true ∧
      Sends 0 prm.ECK (fun _ => []) (((List.range' 0 prm.ECK).flatMap chunk).take
        (prm.ECK * r - d)) s s' := by
  have hsplit := h.split
  have hpad := h.pad
  obtain ⟨e, rfl⟩ := hdvd
  have he : 1 < e := by
    rcases Nat.lt_or_ge 1 e with h | h
    · exact h
    · have : r * e ≤ r * 1 := Nat.mul_le_mul_left r h
      omega
  have heK : e < prm.ECK := lt_of_le_of_lt (Nat.le_mul_of_pos_left e hr) hpad
  have hsub : (prm.ECK - e) * r + r * e = prm.ECK * r := by
    rw [Nat.mul_comm r e, ← Nat.add_mul, Nat.sub_add_cancel (le_of_lt heK)]
  obtain ⟨s₁, hs₁, h₁, hlast₁⟩ := H.copies (l := prm.ECK - e)
    (List.range' (prm.ECK - e) (e - 1) ++ [prm.ECK - 1]) h (by omega) (by omega)
    (fun i hi => by
      have : (i + 1) * r ≤ (prm.ECK - e) * r := Nat.mul_le_mul_right r hi
      rw [Nat.succ_mul] at this
      omega)
  have hlen₁ := length_flatMap_range' (k := prm.ECK - e) (f := chunk)
    (fun j hj => (H.bodies j (by omega)).2)
  have hsent : s₁.txn.sendSize = s₁.txn.objSize := by
    rw [h₁.sendSize, h₁.objSize, H.sendSize, H.objSize, hlen₁]; omega
  obtain ⟨s₂, hs₂, h₂, hlast₂⟩ := pipeRound_skips (i := prm.ECK - e) (m := e - 1)
    prm [prm.ECK - 1] (by omega) hlast₁
    (fun j hj hj' => by rw [h₁.other j (by omega)]; exact (H.bodies j (by omega)).1) hsent
  rw [show prm.ECK - e + (e - 1) = prm.ECK - 1 by omega] at h₂
  have h₁₂ := h₁.trans h₂ (by omega) (by omega)
  obtain ⟨hb, hlen⟩ := H.bodies (prm.ECK - 1) (by omega)
  have hsize : lastBlockSize prm s₂.txn = 0 := by
    rw [lastBlockSize_of_pos h hr (h₁₂.objSize.trans H.objSize) (h₁₂.chunkSize.trans H.chunkSize)]
    omega
  obtain ⟨s₃, hs₃, h₃, hlast₃⟩ := copyLastBlock_ok prm (h₁₂.open H.isOpen)
    (by rw [h₁₂.other _ (by omega)]; exact hb)
    (by rw [hsize, h₂.sendSize, h₂.objSize, hsent]; simp) (by omega)
  refine ⟨s₃, ?_, hlast₃.trans hlast₂, ?_⟩
  · have hrange : List.range' 0 (prm.ECK - 1) =
        List.range' 0 (prm.ECK - e) ++ List.range' (prm.ECK - e) (e - 1) := by
      rw [show prm.ECK - 1 = (prm.ECK - e) + (e - 1) by omega, ← List.range'_append_1,
        Nat.zero_add]
    rw [range_eq_append_last h.pos, hrange, List.append_assoc, hs₁, hs₂, pipeRound_last hlast₂,
      hs₃]
  · have hrange : (List.range' 0 prm.ECK).flatMap chunk =
        (List.range' 0 (prm.ECK - e)).flatMap chunk ++
          (List.range' (prm.ECK - e) e).flatMap chunk := by
      conv_lhs => rw [show prm.ECK = (prm.ECK - e) + e by omega]
      rw [← List.range'_append_1, List.flatMap_append, Nat.zero_add]
    rw [hrange, List.take_append, List.take_of_length_le (by omega), hlen₁,
      show prm.ECK * r - r * e - (prm.ECK - e) * r = 0 by omega, List.take_zero, List.append_nil]
    have := h₁₂.trans h₃ (by omega) (by omega)
    rwa [hsize, List.take_zero, List.append_nil, List.append_nil,
      show prm.ECK - 1 + 1 = prm.ECK by omega] at this

/-- `r` is a failed way out after the bytes `p` have been sent. -/
structure FailsWith (p : Bytes) (s : PipeSt) (r : PipeRet) : Prop where
  errs : r.txn.errs = s.txn.errs ++ [.pipeToClient]
  sent : r.txn.pipew.sent = s.txn.pipew.sent ++ p

theorem Sends.fails {lo hi : Nat} {rest : Nat → Bytes} {p : Bytes} {s₁ : PipeSt}
    (h : Sends lo hi rest p s s') (herrs : s₁.txn.errs = s'.txn.errs)
    (hpipe : s₁.txn.pipew = s'.txn.pipew) : FailsWith p s s₁.failed := by
  refine ⟨?_, ?_⟩
  · simp only [failed, handleFailedReq, if_true]
    rw [herrs, h.errs]
  · simp only [failed, handleFailedReq, if_true, PipeWriter.close]
    rw [hpipe, h.sent]

/-- Padding that neither fits into the last block nor fills whole ones. -/
theorem LastRound.fails (H : LastRound prm chunk S C R r s) (h : Sizes prm.ECK S C d R r)
    (hd : r < d) (hdvd : ¬ r ∣ d) :
    ∃ p r, pipeRound prm (List.range prm.ECK) s = .error r ∧ FailsWith p s r := by
  have hsplit := h.split
  have hpad := h.pad
  have hKr : (prm.ECK - 1) * r + r = prm.ECK * r := by
    rw [← Nat.succ_mul, Nat.succ_eq_add_one, Nat.sub_add_cancel h.pos]
  -- a copied prefix of the blocks never ends where the object does
  have hne : ∀ i < prm.ECK - 1, R * (prm.ECK * codingSubChunkSize) + i * r ≠ S := by
    intro i hi heq
    refine hdvd ⟨prm.ECK - i, ?_⟩
    have hsub : (prm.ECK - i) * r + i * r = prm.ECK * r := by
      rw [← Nat.add_mul, Nat.sub_add_cancel (by omega)]
    rw [Nat.mul_comm r]
    omega
  obtain ⟨s₁, hs₁, h₁, hlast₁⟩ := H.copies (l := prm.ECK - 1) [prm.ECK - 1] h (by omega)
    (le_refl _) hne
  have hlen₁ := length_flatMap_range' (k := prm.ECK - 1) (f := chunk)
    (fun j hj => (H.bodies j (by omega)).2)
  have hfail : lastBlockSize prm s₁.txn + s₁.txn.sendSize ≠ s₁.txn.objSize := by
    rw [h₁.sendSize, h₁.objSize, H.sendSize, H.objSize, hlen₁]
    rcases Nat.eq_zero_or_pos r with hr | hr
    · subst hr
      rw [lastBlockSize_of_zero h hd (h₁.objSize.trans H.objSize) (h₁.chunkSize.trans H.chunkSize)]
      omega
    · rw [lastBlockSize_of_pos h hr (h₁.objSize.trans H.objSize) (h₁.chunkSize.trans H.chunkSize)]
      omega
  obtain ⟨s₂, hs₂, herrs, hpipe⟩ := copyLastBlock_fail hfail
  refine ⟨_, _, ?_, h₁.fails herrs hpipe⟩
  rw [range_eq_append_last h.pos, hs₁, pipeRound_last hlast₁, hs₂]

/-- The head of the loop. -/
structure Start (prm : FrontendParam) (chunk : Nat → Bytes) (S C : Nat) (s : PipeSt) : Prop where
  isOpen : s.Open
  lastBlock : s.lastBlock = false
  objSize : s.txn.objSize = S
  chunkSize : s.txn.chunkSize = C
  sendSize : s.txn.sendSize = 0
  bodies : ∀ j < prm.ECK, s.txn.resps j = Body.full (chunk j) ∧ (chunk j).length = C

theorem Start.lastRound (fuel : Nat) (H : Start prm chunk S C s) (h : Sizes prm.ECK S C d R r)
    (hne : ∀ l < R * prm.ECK, l * codingSubChunkSize ≠ S) :
    ∃ s', pipeLoop prm (fuel + R) s = pipeLoop prm fuel s' ∧
      Sends 0 prm.ECK (fun j => (chunk j).drop (R * codingSubChunkSize))
        (interleave codingSubChunkSize prm.ECK R chunk) s s' ∧
      LastRound prm (fun j => (chunk j).drop (R * codingSubChunkSize)) S C R r s' := by
  have hle : ∀ j < prm.ECK, R * codingSubChunkSize ≤ (chunk j).length := by
    intro j hj
    rw [(H.bodies j hj).2, h.chunk]; omega
  obtain ⟨s', hs', h', hlast'⟩ := pipeLoop_fulls (q := R) chunk H.isOpen
    H.lastBlock (fun j hj => ⟨(H.bodies j hj).1, hle j hj⟩)
    (fun l hl => by rw [H.sendSize, H.objSize, Nat.zero_add]; exact hne l hl)
  refine ⟨s', hs', h', h'.open H.isOpen, hlast', h'.objSize.trans H.objSize,
    h'.chunkSize.trans H.chunkSize, ?_, fun j hj => ⟨h'.done j (Nat.zero_le j) hj, ?_⟩⟩
  · rw [h'.sendSize, H.sendSize, length_interleave_full hle, Nat.zero_add]
  · rw [List.length_drop, (H.bodies j hj).2, h.chunk]
    omega

/-- With a last block, the object never ends with a full one. -/
theorem Sizes.ne_of_pos {K : Nat} (h : Sizes K S C d R r) (hr : 0 < r) :
    ∀ l < R * K, l * codingSubChunkSize ≠ S := by
  intro l hl heq
  have hle : l * codingSubChunkSize ≤ R * K * codingSubChunkSize :=
    Nat.mul_le_mul_right _ (le_of_lt hl)
  have hKr : K ≤ K * r := Nat.le_mul_of_pos_right _ hr
  have hsplit := h.split
  have hpad := h.pad
  rw [← Nat.mul_assoc] at hsplit
  omega

theorem Sizes.take_row {K : Nat} (h : Sizes K S C d R r) (hr : 0 < r)
    (hlen : ∀ j < K, (chunk j).length = C) :
    (interleave codingSubChunkSize K (R + 1) chunk).take S =
      interleave codingSubChunkSize K R chunk ++ ((List.range' 0 K).flatMap fun j =>
        (chunk j).drop (R * codingSubChunkSize)).take (K * r - d) := by
  have hfull := length_interleave_full (B := codingSubChunkSize) (k := K) (m := R) (c := chunk)
    (fun j hj => by rw [hlen j hj, h.chunk]; omega)
  have hrow : row codingSubChunkSize K (fun j => (chunk j).drop (R * codingSubChunkSize)) =
      (List.range' 0 K).flatMap fun j => (chunk j).drop (R * codingSubChunkSize) := by
    rw [row, List.range_eq_range', List.flatMap_def, List.flatMap_def]
    congr 1
    refine List.map_congr_left fun j hj => List.take_of_length_le ?_
    have hj : j < K := by simpa using hj
    rw [List.length_drop, hlen j hj, h.chunk]
    have := h.rem
    omega
  have hsplit := h.split
  have hpad := h.pad
  have hKr : K ≤ K * r := Nat.le_mul_of_pos_right _ hr
  rw [interleave_succ, hrow, List.take_append, List.take_of_length_le (by omega), hfull,
    show S - R * (K * codingSubChunkSize) = K * r - d by omega]

/-- **The loop serves the object.** -/
theorem pipeLoop_ok {fuel : Nat} (H : Start prm chunk S C s) (h : Sizes prm.ECK S C d R r)
    (hgood : d ≤ r ∨ r ∣ d) :
    ∃ rest s', pipeLoop prm (fuel + 2 + R) s = some (.ok s') ∧ Sends 0 prm.ECK rest
      ((interleave codingSubChunkSize prm.ECK (R + 1) chunk).take S) s s' := by
  have hsplit := h.split
  rcases Nat.eq_zero_or_pos r with hr | hr
  · -- all blocks are full: the round after them finds nothing left to send
    subst hr
    have hd : d = 0 := by
      rcases hgood with h | h
      · omega
      · exact Nat.eq_zero_of_zero_dvd h
    subst hd
    obtain ⟨s₁, hs₁, h₁, H₁⟩ := H.lastRound (fuel + 2) h (by
      intro l hl heq
      have := Nat.mul_lt_mul_of_pos_right hl (by decide : 0 < codingSubChunkSize)
      rw [Nat.mul_assoc] at this
      omega)
    have hS : S = R * (prm.ECK * codingSubChunkSize) := by simpa using hsplit
    have hlen : ((interleave codingSubChunkSize prm.ECK R chunk)).length = S := by
      rw [hS]
      exact length_interleave_full fun j hj => by rw [(H.bodies j hj).2, h.chunk]; omega
    have htake : (interleave codingSubChunkSize prm.ECK (R + 1) chunk).take S =
        interleave codingSubChunkSize prm.ECK R chunk := by
      rw [interleave_succ, List.take_left' hlen]
    refine ⟨fun j => (chunk j).drop (R * codingSubChunkSize), { s₁ with lastBlock := true }, ?_, ?_⟩
    · rw [hs₁, pipeLoop, H₁.lastBlock, if_neg (by simp)]
      have hround : pipeRound prm (List.range prm.ECK) s₁ = .ok { s₁ with lastBlock := true } := by
        obtain ⟨K, hK⟩ : ∃ K, prm.ECK = K + 1 := ⟨prm.ECK - 1, by have := h.pos; omega⟩
        rw [List.range_eq_range', hK, List.range'_succ, pipeRound, if_pos (.inl H₁.lastBlock),
          if_pos (by rw [H₁.sendSize, H₁.objSize, hS]), if_pos H₁.lastBlock, if_pos]
        rw [H₁.objSize, H₁.chunkSize, ← h.total]
        exact Nat.mod_self _
      rw [hround]
      simp [pipeLoop]
    · rw [htake]
      exact ⟨h₁.txn, h₁.respBuffer, h₁.done, h₁.other⟩
  · obtain ⟨s₁, hs₁, h₁, H₁⟩ := H.lastRound (fuel + 2) h (h.ne_of_pos hr)
    obtain ⟨s₂, hs₂, hlast₂, h₂⟩ : ∃ s', pipeRound prm (List.range prm.ECK) s₁ = .ok s' ∧
        s'.lastBlock = true ∧ Sends 0 prm.ECK (fun _ => [])
          (((List.range' 0 prm.ECK).flatMap fun j => (chunk j).drop (R * codingSubChunkSize)).take
            (prm.ECK * r - d)) s₁ s' := by
      rcases Nat.lt_or_ge r d with hlt | hge
      · exact H₁.ok_of_dvd h hr hlt (by rcases hgood with h | h <;> [omega; exact h])
      · exact H₁.ok_of_le h hr hge
    refine ⟨fun _ => [], s₂, ?_, ?_⟩
    · rw [hs₁, pipeLoop, H₁.lastBlock, if_neg (by simp), hs₂]
      simp [pipeLoop, hlast₂]
    · rw [h.take_row hr fun j hj => (H.bodies j hj).2]
      exact h₁.again h₂

theorem FailsWith.after {lo hi : Nat} {rest : Nat → Bytes} {p q : Bytes} {ret : PipeRet}
    (h : Sends lo hi rest p s s') (h' : FailsWith q s' ret) : FailsWith (p ++ q) s ret :=
  ⟨by rw [h'.errs, h.errs], by rw [h'.sent, h.sent, List.append_assoc]⟩

/-- The object ends with a full block that is not the last one. -/
theorem pipeRound_hit {l : Nat} (ho : s.Open) (hlast : s.lastBlock = false)
    (hb : ∀ j < prm.ECK,
      s.txn.resps j = Body.full (chunk j) ∧ codingSubChunkSize ≤ (chunk j).length)
    (hl : l < prm.ECK) (hsize : s.txn.sendSize + l * codingSubChunkSize = s.txn.objSize)
    (hmod : s.txn.objSize % (prm.ECK * s.txn.chunkSize) ≠ 0) :
    ∃ p r, pipeRound prm (List.range prm.ECK) s = .error r ∧ FailsWith p s r := by
  have hrange : List.range prm.ECK =
      List.range' 0 l ++ l :: List.range' (l + 1) (prm.ECK - l - 1) := by
    rw [List.range_eq_range']
    conv_lhs => rw [show prm.ECK = l + (prm.ECK - l - 1 + 1) by omega]
    rw [← List.range'_append_1, Nat.zero_add, List.range'_succ]
  obtain ⟨s₁, hs₁, h₁, hlast₁⟩ := pipeRound_fulls (i := 0) (m := l) prm
    (l :: List.range' (l + 1) (prm.ECK - l - 1)) ho hlast
    (fun j _ hj => hb j (by omega)) (fun l' hl' => by
      have := Nat.mul_lt_mul_of_pos_right hl' (by decide : 0 < codingSubChunkSize)
      omega)
  have hlen := length_flatMap_range' (k := l)
    (f := fun j => (chunk j).take codingSubChunkSize) (b := codingSubChunkSize) (fun j hj => by
      have := (hb j (by omega)).2
      rw [List.length_take]; omega)
  refine ⟨_, s₁.failed, ?_, h₁.fails rfl rfl⟩
  rw [hrange, hs₁, pipeRound, if_pos (.inl hlast₁),
    if_pos (by rw [h₁.sendSize, h₁.objSize, hlen]; exact hsize), if_pos hlast₁,
    if_neg (by rw [h₁.objSize, h₁.chunkSize]; exact hmod)]

theorem FailsWith.first_row {q : Nat} {rest : Nat → Bytes} {p : Bytes} {ret : PipeRet}
    (hq : 0 < q) (h' : FailsWith p s' ret)
    (h : Sends 0 prm.ECK rest (interleave codingSubChunkSize prm.ECK q chunk) s s') :
    ∃ p, FailsWith (row codingSubChunkSize prm.ECK chunk ++ p) s ret := by
  obtain ⟨q, rfl⟩ : ∃ q', q = q' + 1 := ⟨q - 1, by omega⟩
  have hf := h'.after h
  rw [interleave, List.append_assoc] at hf
  exact ⟨_, hf⟩

/-- Chunks of several full blocks: the object does not end in the first round. -/
theorem Sizes.le_of_lt {K : Nat} (h : Sizes K S C d R 0) (hC : codingSubChunkSize < C) :
    K * codingSubChunkSize < S := by
  have hR : 2 ≤ R := by
    by_contra hlt
    have hle : R * codingSubChunkSize ≤ 1 * codingSubChunkSize :=
      Nat.mul_le_mul_right _ (by omega)
    have hchunk := h.chunk
    omega
  have h2 : 2 * (K * codingSubChunkSize) ≤ R * (K * codingSubChunkSize) :=
    Nat.mul_le_mul_right _ hR
  have hle := le_mul_codingSubChunkSize K
  have hsplit := h.split
  have hpad := h.pad
  omega

/-- The loop gives up when the object ends with a full block that is not the last one. -/
theorem pipeLoop_hit {fuel l : Nat} (H : Start prm chunk S C s) (h : Sizes prm.ECK S C d R 0)
    (hC : codingSubChunkSize < C) (hd : 0 < d) (hl : l < R * prm.ECK)
    (hlS : l * codingSubChunkSize = S) :
    ∃ p r, pipeLoop prm (fuel + 2 + R) s = some (.error r) ∧
      FailsWith (row codingSubChunkSize prm.ECK chunk ++ p) s r := by
  -- it ends `i` blocks into round `q`
  obtain ⟨q, i, hdm, hi, hq⟩ : ∃ q i, prm.ECK * q + i = l ∧ i < prm.ECK ∧ q < R :=
    ⟨l / prm.ECK, l % prm.ECK, Nat.div_add_mod l prm.ECK, Nat.mod_lt l h.pos,
      (Nat.div_lt_iff_lt_mul h.pos).mpr hl⟩
  have hS : q * (prm.ECK * codingSubChunkSize) + i * codingSubChunkSize = S := by
    rw [← hlS, ← hdm]; ring
  have hiB : i * codingSubChunkSize + codingSubChunkSize ≤ prm.ECK * codingSubChunkSize := by
    rw [← Nat.succ_mul]; exact Nat.mul_le_mul_right _ hi
  have hRB : q * codingSubChunkSize + codingSubChunkSize ≤ R * codingSubChunkSize := by
    rw [← Nat.succ_mul]; exact Nat.mul_le_mul_right _ hq
  have hfirst := h.le_of_lt hC
  have hq0 : 0 < q := by
    rcases Nat.eq_zero_or_pos q with h0 | h0
    · subst h0; omega
    · exact h0
  have hlen : ∀ j < prm.ECK, (chunk j).length = R * codingSubChunkSize := fun j hj => by
    rw [(H.bodies j hj).2, h.chunk, Nat.add_zero]
  obtain ⟨s₁, hs₁, h₁, hlast₁⟩ := pipeLoop_fulls (q := q) chunk H.isOpen H.lastBlock
    (fun j hj => ⟨(H.bodies j hj).1, by rw [hlen j hj]; omega⟩)
    (fun l' hl' => by
      have := Nat.mul_lt_mul_of_pos_right hl' (by decide : 0 < codingSubChunkSize)
      rw [Nat.mul_assoc] at this
      rw [H.sendSize, H.objSize]
      omega)
  have hlen₁ := length_interleave_full (B := codingSubChunkSize) (k := prm.ECK) (m := q)
    (c := chunk) (fun j hj => by rw [hlen j hj]; omega)
  have hmod : S % (prm.ECK * C) ≠ 0 := by
    rw [Nat.mod_eq_of_lt (by rw [← h.total]; omega)]
    omega
  obtain ⟨p, r, hr, hf⟩ := pipeRound_hit (l := i) (h₁.open H.isOpen) hlast₁
    (fun j hj => ⟨h₁.done j (Nat.zero_le j) hj, by rw [List.length_drop, hlen j hj]; omega⟩) hi
    (by rw [h₁.sendSize, h₁.objSize, H.sendSize, H.objSize, hlen₁]; omega)
    (by rw [h₁.objSize, h₁.chunkSize, H.objSize, H.chunkSize]; exact hmod)
  obtain ⟨p', hp'⟩ := hf.first_row hq0 h₁
  refine ⟨p', r, ?_, hp'⟩
  rw [show fuel + 2 + R = fuel + 1 + (R - q) + 1 + q by omega, hs₁, pipeLoop, hlast₁,
    if_neg (by simp), hr]

/-- **The loop gives up.** The first round has been sent by then. -/
theorem pipeLoop_fails {fuel : Nat} (H : Start prm chunk S C s) (h : Sizes prm.ECK S C d R r)
    (hC : codingSubChunkSize < C) (hbad : ¬ (d ≤ r ∨ r ∣ d)) :
    ∃ p r, pipeLoop prm (fuel + 2 + R) s = some (.error r) ∧
      FailsWith (row codingSubChunkSize prm.ECK chunk ++ p) s r := by
  obtain ⟨hd, hdvd⟩ := not_or.mp hbad
  by_cases hhit : ∃ l < R * prm.ECK, l * codingSubChunkSize = S
  · obtain ⟨l, hl, hlS⟩ := hhit
    obtain rfl : r = 0 := by
      rcases Nat.eq_zero_or_pos r with h0 | hpos
      · exact h0
      · exact absurd hlS (h.ne_of_pos hpos l hl)
    exact pipeLoop_hit H h hC (by omega) hl hlS
  · have hne : ∀ l < R * prm.ECK, l * codingSubChunkSize ≠ S := fun l hl heq => hhit ⟨l, hl, heq⟩
    obtain ⟨s₁, hs₁, h₁, H₁⟩ := H.lastRound (fuel + 2) h hne
    obtain ⟨p, r, hr, hf⟩ := H₁.fails h (by omega) hdvd
    obtain ⟨p', hp'⟩ := hf.first_row h.full h₁
    refine ⟨p', r, ?_, hp'⟩
    rw [hs₁, pipeLoop, H₁.lastBlock, if_neg (by simp), hr]

/-! ## The single round -/

theorem copyChunks_ok {i m : Nat} (ho : s.Open)
    (hb : ∀ j, i ≤ j → j < i + m → s.txn.resps j = Body.full (chunk j)) :
    ∃ s', copyChunks (List.range' i m) s = .ok s' ∧
      Sends i (i + m) (fun _ => []) ((List.range' i m).flatMap chunk) s s' := by
  induction m generalizing i s with
  | zero => exact ⟨s, rfl, .refl (by omega)⟩
  | succ m ih =>
    have h₁ : Sends i (i + 1) (fun _ => []) (chunk i) s _ := piped_sends _
    obtain ⟨s', hs', h'⟩ := ih (i := i + 1) (h₁.open ho)
      (fun j hj hj' => by rw [h₁.other j (by omega)]; exact hb j (by omega) (by omega))
    refine ⟨s', ?_, ?_⟩
    · rw [List.range'_succ, copyChunks, copy_full ho (hb i (le_refl i) (by omega))]
      exact hs'
    · rw [List.range'_succ, List.flatMap_cons, show i + (m + 1) = i + 1 + m by omega]
      exact h₁.trans h' (by omega) (by omega)

/-- A negative size copies nothing and reports nothing. -/
theorem copyN_neg {i : Nat} {size : Int} (ho : s.Open) {d : Bytes}
    (hb : s.txn.resps i = Body.full d) (hneg : size < 0) :
    s.copyN i size = (0, none, s.piped i [] d) := by
  have h := pipeBytes_open (p := []) (i := i) ho d
  have hz : size.toNat = 0 := by omega
  unfold copyN
  rw [hb, hz]
  dsimp only [Body.full, List.length_nil] at h ⊢
  rw [List.take_zero, List.drop_zero, h]
  dsimp only
  rw [if_neg (by omega), if_neg (by omega)]

theorem copyLastChunk_ok (size : Nat) {d : Bytes} (ho : s.Open)
    (hb : s.txn.resps (prm.ECK - 1) = Body.full d) (hd : size ≤ d.length)
    (hsize : s.txn.objSize = (prm.ECK - 1) * s.txn.chunkSize + size) :
    ∃ s', copyLastChunk prm s = .ok s' ∧
      Sends (prm.ECK - 1) (prm.ECK - 1 + 1) (fun _ => []) (d.take size) s s' := by
  have h₁ : Sends (prm.ECK - 1) (prm.ECK - 1 + 1) (fun _ => d.drop size) (d.take size) s _ :=
    piped_sends _
  have h₂ := h₁.again (discardResp_sends (h₁.done (prm.ECK - 1) (le_refl _) (by omega)))
  rw [List.append_nil] at h₂
  have hcast : (s.txn.objSize : Int) - ((prm.ECK - 1 : Nat) : Int) * (s.txn.chunkSize : Int) =
      (size : Int) := by
    rw [hsize, Nat.cast_add, Nat.cast_mul]; ring
  refine ⟨_, ?_, h₂⟩
  unfold copyLastChunk
  rw [hcast]
  dsimp only
  rw [copyN_full ho hb, if_pos hd, Nat.min_eq_left hd, if_neg (by simp), List.length_take,
    Nat.min_eq_left hd, Int.toNat_natCast]
  rfl

theorem singleRound_ok (H : Start prm chunk S C s) (hK : 0 < prm.ECK)
    (hle : S ≤ prm.ECK * C) (hgood : (prm.ECK - 1) * C ≤ S) :
    ∃ rest s', singleRound prm s = .ok s' ∧
      Sends 0 prm.ECK rest (((List.range' 0 prm.ECK).flatMap chunk).take S) s s' := by
  obtain ⟨s₁, hs₁, h₁⟩ := copyChunks_ok (i := 0) (m := prm.ECK - 1) H.isOpen
    (fun j _ hj => (H.bodies j (by omega)).1)
  rw [Nat.zero_add] at h₁
  have hlen₁ := length_flatMap_range' (k := prm.ECK - 1) (f := chunk)
    (fun j hj => (H.bodies j (by omega)).2)
  have hKC : (prm.ECK - 1) * C + C = prm.ECK * C := by
    rw [← Nat.succ_mul, Nat.succ_eq_add_one, Nat.sub_add_cancel hK]
  obtain ⟨hb, hlen⟩ := H.bodies (prm.ECK - 1) (by omega)
  rw [← h₁.other (prm.ECK - 1) (by omega)] at hb
  obtain ⟨s₂, hs₂, h₂⟩ := copyLastChunk_ok (S - (prm.ECK - 1) * C) (h₁.open H.isOpen) hb
    (by omega) (by rw [h₁.objSize, h₁.chunkSize, H.objSize, H.chunkSize]; omega)
  refine ⟨fun _ => [], s₂, ?_, ?_⟩
  · rw [singleRound, List.range_eq_range', hs₁]
    exact hs₂
  · have h₃ := h₁.trans h₂ (by omega) (by omega)
    rw [show prm.ECK - 1 + 1 = prm.ECK by omega] at h₃
    rw [flatMap_range_last hK, List.take_append, List.take_of_length_le (by omega), hlen₁]
    exact h₃

theorem singleRound_fails (H : Start prm chunk S C s) (hK : 0 < prm.ECK)
    (hbad : S < (prm.ECK - 1) * C) :
    ∃ p r, singleRound prm s = .error r ∧ p.length = (prm.ECK - 1) * C ∧ FailsWith p s r := by
  obtain ⟨s₁, hs₁, h₁⟩ := copyChunks_ok (i := 0) (m := prm.ECK - 1) H.isOpen
    (fun j _ hj => (H.bodies j (by omega)).1)
  rw [Nat.zero_add] at h₁
  have hlen₁ := length_flatMap_range' (k := prm.ECK - 1) (f := chunk)
    (fun j hj => (H.bodies j (by omega)).2)
  obtain ⟨hb, hlen⟩ := H.bodies (prm.ECK - 1) (by omega)
  rw [← h₁.other (prm.ECK - 1) (by omega)] at hb
  have hneg : (s₁.txn.objSize : Int) - ((prm.ECK - 1 : Nat) : Int) * (s₁.txn.chunkSize : Int) < 0 := by
    rw [h₁.objSize, h₁.chunkSize, H.objSize, H.chunkSize, ← Nat.cast_mul]
    omega
  refine ⟨_, (s₁.piped (prm.ECK - 1) [] (chunk (prm.ECK - 1))).failed, ?_, hlen₁,
    h₁.fails rfl (by simp [piped])⟩
  rw [singleRound, List.range_eq_range', hs₁]
  change copyLastChunk prm s₁ = _
  unfold copyLastChunk
  dsimp only
  rw [copyN_neg (h₁.open H.isOpen) hb hneg]
  dsimp only
  rw [if_pos (.inr (by simpa using (ne_of_lt hneg).symm))]

end PipeSt

/-! ## The fast path and the decoder -/

/-- Whether the data chunks of an object of `S` bytes in `K` chunks can be sent without decoding:
in one round the padding fits into the last chunk; in several rounds it fits into the last block of
a chunk or fills whole last blocks. -/
def PipesWell (K S : Nat) : Prop :=
  let C := chunkSizeOf S K
  if C ≤ codingSubChunkSize then (K - 1) * C ≤ S
  else K * C - S ≤ C % codingSubChunkSize ∨ C % codingSubChunkSize ∣ K * C - S

instance (K S : Nat) : Decidable (PipesWell K S) :=
  inferInstanceAs (Decidable (if chunkSizeOf S K ≤ codingSubChunkSize
    then (K - 1) * chunkSizeOf S K ≤ S
    else K * chunkSizeOf S K - S ≤ chunkSizeOf S K % codingSubChunkSize ∨
      chunkSizeOf S K % codingSubChunkSize ∣ K * chunkSizeOf S K - S))

/-- A chunk hit with all data chunks, as `handleChunk` starts `PipeDataChunkToClient` on it. -/
structure DataHit (prm : FrontendParam) (chunk : Nat → Bytes) (t : FrontendTxnData) : Prop where
  hit : ChunkHit prm.ECN prm.ECK chunk t
  data : ∀ j < prm.ECK, t.isAvailable j
  chunkSize : t.chunkSize = chunkSizeOf t.objSize prm.ECK
  lens : ∀ j < prm.ECN, (chunk j).length = t.chunkSize
  sendSize : t.sendSize = 0

section
variable {prm : FrontendParam} {chunk : Nat → Bytes} {t : FrontendTxnData} {fuel : Nat}

theorem DataHit.start (H : DataHit prm chunk t) (hKN : prm.ECK ≤ prm.ECN) :
    PipeSt.Start prm chunk t.objSize t.chunkSize
      { txn := t, respBuffer := [], lastBlock := false } where
  isOpen := ⟨H.hit.isOpen, H.hit.room⟩
  lastBlock := rfl
  objSize := rfl
  chunkSize := rfl
  sendSize := H.sendSize
  bodies j hj := ⟨H.hit.bodies j (by omega) (H.data j hj), H.lens j (by omega)⟩

theorem DataHit.sizes (H : DataHit prm chunk t) (hK : 0 < prm.ECK)
    (hC : codingSubChunkSize < t.chunkSize) :
    PipeSt.Sizes prm.ECK t.objSize t.chunkSize (prm.ECK * t.chunkSize - t.objSize)
      (t.chunkSize / codingSubChunkSize) (t.chunkSize % codingSubChunkSize) := by
  obtain ⟨hle, hlt⟩ := chunkSizeOf_bounds (S := t.objSize) hK
  rw [← H.chunkSize] at hle hlt
  have hB : 0 < codingSubChunkSize := by decide
  refine ⟨hK, by omega, by omega, ?_, Nat.mod_lt _ hB, Nat.div_pos (le_of_lt hC) hB⟩
  rw [Nat.mul_comm, Nat.div_add_mod]

/-- Two numbers of rounds that are enough read the same. -/
theorem interleave_enough {B k m C : Nat} (m' : Nat) (hlen : ∀ j < k, (chunk j).length = C)
    (hm : C ≤ m * B) (hm' : C ≤ m' * B) : interleave B k m chunk = interleave B k m' chunk := by
  rcases Nat.le_total m m' with h | h
  · exact (interleave_eq_of_le hlen hm h).symm
  · exact interleave_eq_of_le hlen hm' h

/-- **`PipeDataChunkToClient` serves the object** when `PipesWell` says so. -/
theorem pipeDataChunkToClient_ok (H : DataHit prm chunk t) (hK : 0 < prm.ECK)
    (hKN : prm.ECK ≤ prm.ECN) (hfuel : t.chunkSize / codingSubChunkSize + 1 < fuel)
    (hgood : PipesWell prm.ECK t.objSize) :
    ∃ r, pipeDataChunkToClient prm fuel t = some r ∧
      r.txn.pipew = { t.pipew with
        sent := t.pipew.sent ++ (interleave codingSubChunkSize prm.ECK
          (nRounds t.chunkSize codingSubChunkSize) chunk).take t.objSize
        closed := true } ∧
      r.txn.sendSize = t.objSize ∧ r.txn.errs = t.errs := by
  obtain ⟨hle, hlt⟩ := chunkSizeOf_bounds (S := t.objSize) hK
  simp only [PipesWell] at hgood
  rw [← H.chunkSize] at hle hlt hgood
  have hlen : ∀ j < prm.ECK, (chunk j).length = t.chunkSize := fun j hj => H.lens j (by omega)
  have hm := le_nRounds_mul (C := t.chunkSize) (B := codingSubChunkSize) (by decide)
  have hout : ((interleave codingSubChunkSize prm.ECK (nRounds t.chunkSize codingSubChunkSize)
      chunk).take t.objSize).length = t.objSize := by
    rw [List.length_take, length_interleave hlen hm]; omega
  unfold pipeDataChunkToClient
  dsimp only
  by_cases hC : t.chunkSize ≤ codingSubChunkSize
  · rw [if_pos hC] at hgood ⊢
    obtain ⟨rest, s', hs', h'⟩ := PipeSt.singleRound_ok (H.start hKN) hK hle hgood
    have hrow : (List.range' 0 prm.ECK).flatMap chunk = interleave codingSubChunkSize prm.ECK
        (nRounds t.chunkSize codingSubChunkSize) chunk := by
      rw [interleave_enough 1 hlen hm (by omega), interleave, interleave, List.append_nil,
        row, ← List.range_eq_range', List.flatMap_def, List.flatMap_def]
      congr 1
      exact List.map_congr_left fun j hj => (List.take_of_length_le (by
        rw [hlen j (List.mem_range.mp hj)]; exact hC)).symm
    rw [hrow] at h'
    refine ⟨_, by rw [hs'], ?_, ?_, ?_⟩
    · simp only [PipeSt.finish, PipeWriter.close]
      rw [h'.txn]
    · simp only [PipeSt.finish]
      rw [h'.sendSize, H.sendSize, hout, Nat.zero_add]
    · exact h'.errs
  · rw [if_neg hC] at hgood ⊢
    have hsizes := H.sizes hK (by omega)
    obtain ⟨fuel, rfl⟩ : ∃ f, fuel = f + 2 + t.chunkSize / codingSubChunkSize :=
      ⟨fuel - 2 - t.chunkSize / codingSubChunkSize, by omega⟩
    obtain ⟨rest, s', hs', h'⟩ := PipeSt.pipeLoop_ok (H.start hKN) hsizes hgood
    rw [interleave_enough (nRounds t.chunkSize codingSubChunkSize) hlen (by
      have := hsizes.chunk
      have := hsizes.rem
      rw [Nat.succ_mul]; omega) hm] at h'
    refine ⟨_, by rw [hs']; rfl, ?_, ?_, ?_⟩
    · simp only [PipeSt.finish, PipeWriter.close]
      rw [h'.txn]
    · simp only [PipeSt.finish]
      rw [h'.sendSize, H.sendSize, hout, Nat.zero_add]
    · exact h'.errs

/-- **`PipeDataChunkToClient` gives up** when `PipesWell` does not hold. What it has sent by then
is longer than the object or begins with the first round of the chunks. -/
theorem pipeDataChunkToClient_fails (H : DataHit prm chunk t) (hK : 0 < prm.ECK)
    (hKN : prm.ECK ≤ prm.ECN) (hfuel : t.chunkSize / codingSubChunkSize + 1 < fuel)
    (hbad : ¬ PipesWell prm.ECK t.objSize) :
    ∃ p r, pipeDataChunkToClient prm fuel t = some r ∧
      r.txn.errs = t.errs ++ [.pipeToClient] ∧ r.txn.pipew.sent = t.pipew.sent ++ p ∧
      if t.chunkSize ≤ codingSubChunkSize then t.objSize < p.length
      else row codingSubChunkSize prm.ECK chunk <+: p := by
  simp only [PipesWell] at hbad
  rw [← H.chunkSize] at hbad
  unfold pipeDataChunkToClient
  dsimp only
  by_cases hC : t.chunkSize ≤ codingSubChunkSize
  · rw [if_pos hC] at hbad ⊢
    obtain ⟨p, r, hr, hp, hf⟩ := PipeSt.singleRound_fails (H.start hKN) hK (by omega)
    exact ⟨p, r, by rw [hr]; rfl, hf.errs, hf.sent, by rw [if_pos hC, hp]; omega⟩
  · rw [if_neg hC] at hbad ⊢
    obtain ⟨fuel, rfl⟩ : ∃ f, fuel = f + 2 + t.chunkSize / codingSubChunkSize :=
      ⟨fuel - 2 - t.chunkSize / codingSubChunkSize, by omega⟩
    obtain ⟨p, r, hr, hf⟩ := PipeSt.pipeLoop_fails (H.start hKN)
      (H.sizes hK (by omega)) (by omega) hbad
    exact ⟨_, r, by rw [hr]; rfl, hf.errs, hf.sent, by rw [if_neg hC]; exact List.prefix_append _ _⟩

end

/-- `ReconstructData` leaves the data shards alone when none of them is missing. -/
def KeepsData (n k : Nat) (rec : (Nat → Bytes) → Option (Nat → Bytes)) : Prop :=
  ∀ (shards : Nat → Bytes) (b : Nat), 0 < b → (∀ j < k, (shards j).length = b) →
    (∀ j < n, shards j = [] ∨ (shards j).length = b) →
    ∃ out, rec shards = some out ∧ ∀ j < k, out j = shards j

/-- The two ways of answering a chunk hit: both return, have sent the same `ObjSize` bytes, and
neither has called `HandleFailedReq`. -/
def ServesAlike (prm : FrontendParam) (c : MyStreamCoder) (fuel : Nat) (t : FrontendTxnData) :
    Prop :=
  ∃ rp rd p, pipeDataChunkToClient prm fuel t = some rp ∧ decode fuel c t = some rd ∧
    rp.txn.pipew.sent = t.pipew.sent ++ p ∧ rd.txn.pipew.sent = t.pipew.sent ++ p ∧
    p.length = t.objSize ∧ rp.txn.sendSize = t.objSize ∧ rd.txn.sendSize = t.objSize ∧
    rp.txn.errs = t.errs ∧ rd.txn.errs = t.errs

theorem KeepsData.round {prm : FrontendParam} {chunk : Nat → Bytes} {t : FrontendTxnData} {q : Nat}
    {rec : (Nat → Bytes) → Option (Nat → Bytes)} (hrec : KeepsData prm.ECN prm.ECK rec)
    (hKN : prm.ECK ≤ prm.ECN) (H : DataHit prm chunk t)
    (hq : q * codingSubChunkSize < t.chunkSize) :
    ∃ out, rec (DecodeSt.availBlocks prm.ECN codingSubChunkSize t.isAvailable
        fun j => (chunk j).drop (q * codingSubChunkSize)) = some out ∧
      ∀ j < prm.ECK,
        out j = ((chunk j).drop (q * codingSubChunkSize)).take codingSubChunkSize := by
  have hB : 0 < codingSubChunkSize := by decide
  have hblock : ∀ j < prm.ECN, (((chunk j).drop (q * codingSubChunkSize)).take
      codingSubChunkSize).length = min codingSubChunkSize
        (t.chunkSize - q * codingSubChunkSize) := by
    intro j hj
    rw [List.length_take, List.length_drop, H.lens j hj]
  have hdata : ∀ j < prm.ECK, DecodeSt.availBlocks prm.ECN codingSubChunkSize t.isAvailable
      (fun j => (chunk j).drop (q * codingSubChunkSize)) j =
        ((chunk j).drop (q * codingSubChunkSize)).take codingSubChunkSize := fun j hj =>
    if_pos ⟨by omega, H.data j hj⟩
  obtain ⟨out, hout, heq⟩ := hrec (DecodeSt.availBlocks prm.ECN codingSubChunkSize t.isAvailable
      fun j => (chunk j).drop (q * codingSubChunkSize))
    (min codingSubChunkSize (t.chunkSize - q * codingSubChunkSize)) (by omega)
    (fun j hj => by rw [hdata j hj, hblock j (by omega)]) (fun j hj => by
      unfold DecodeSt.availBlocks
      split
      · exact .inr (hblock j hj)
      · exact .inl rfl)
  exact ⟨out, hout, fun j hj => (heq j hj).trans (hdata j hj)⟩

/-- `Decode` serves every object whose data chunks are available. -/
theorem decode_data {prm : FrontendParam} {c : MyStreamCoder} {chunk : Nat → Bytes}
    {t : FrontendTxnData} {fuel : Nat} {rec : (Nat → Bytes) → Option (Nat → Bytes)}
    (hK : 0 < prm.ECK) (hKN : prm.ECK ≤ prm.ECN) (hS : 0 < t.objSize) (hc : c.Fresh)
    (hlike : c.Like (newStreamCoder rec prm.ECN prm.ECK codingSubChunkSize))
    (hrec : KeepsData prm.ECN prm.ECK rec) (H : DataHit prm chunk t)
    (hfuel : nRounds t.chunkSize codingSubChunkSize < fuel) :
    ∃ r, decode fuel c t = some r ∧
      r.txn.pipew.sent = t.pipew.sent ++ (interleave codingSubChunkSize prm.ECK
          (nRounds t.chunkSize codingSubChunkSize) chunk).take t.objSize ∧
      r.txn.sendSize = t.objSize ∧ r.txn.errs = t.errs := by
  obtain ⟨n, k, blockSize, rec', buf, shards⟩ := c
  obtain rfl : n = prm.ECN := hlike.n
  obtain rfl : k = prm.ECK := hlike.k
  obtain rfl : blockSize = codingSubChunkSize := hlike.blockSize
  obtain rfl : rec = rec' := hlike.reconstructData.symm
  have hm := le_nRounds_mul (C := t.chunkSize) (B := codingSubChunkSize) (by decide)
  obtain ⟨r, hr, hpipe, hsend, herrs, -⟩ := decode_eq hc hK hKN
    (by decide : 0 < codingSubChunkSize) hS H.hit (fun j hj => by rw [H.lens j hj, H.chunkSize])
    (by rw [← H.chunkSize]; exact hm) hfuel
    (fun q hq => hrec.round hKN H (by rw [H.chunkSize]; exact hq))
  exact ⟨r, hr, by rw [hpipe], by rw [hsend, H.sendSize, Nat.zero_add], herrs⟩

/-- **The fast path agrees with the decoder exactly when `PipesWell` holds.** -/
theorem servesAlike_iff (prm : FrontendParam) (c : MyStreamCoder) (chunk : Nat → Bytes)
    (t : FrontendTxnData) (fuel : Nat) (rec : (Nat → Bytes) → Option (Nat → Bytes))
    (hK : 1 ≤ prm.ECK) (hKN : prm.ECK ≤ prm.ECN) (hS : 128 ≤ t.objSize) (hc : c.Fresh)
    (hlike : c.Like (newStreamCoder rec prm.ECN prm.ECK codingSubChunkSize))
    (hrec : KeepsData prm.ECN prm.ECK rec) (H : DataHit prm chunk t)
    (hfuel : t.chunkSize / codingSubChunkSize + 1 < fuel) :
    ServesAlike prm c fuel t ↔ PipesWell prm.ECK t.objSize := by
  obtain ⟨rd, hrd, hdsent, hdsend, hderrs⟩ := decode_data hK hKN (by omega) hc hlike hrec H
    (lt_of_le_of_lt (nRounds_le (by decide)) hfuel)
  constructor
  · rintro ⟨rp, -, -, hrp, -, -, -, -, -, -, herrs, -⟩
    by_contra hbad
    obtain ⟨-, r, hr, hfail, -⟩ := pipeDataChunkToClient_fails H hK hKN hfuel hbad
    rw [hrp] at hr
    cases hr
    rw [herrs] at hfail
    simpa using congrArg List.length hfail
  · intro hgood
    obtain ⟨rp, hrp, hpipe, hsend, herrs⟩ := pipeDataChunkToClient_ok H hK hKN hfuel hgood
    have hle := (chunkSizeOf_bounds (S := t.objSize) (k := prm.ECK) hK).1
    rw [← H.chunkSize] at hle
    refine ⟨rp, rd, _, hrp, hrd, by rw [hpipe], hdsent, ?_, hsend, hdsend, herrs, hderrs⟩
    rw [List.length_take, length_interleave (fun j hj => H.lens j (by omega))
      (le_nRounds_mul (by decide))]
    exact Nat.min_eq_left hle

/-- A chunk hit on an object of `S` zero bytes, with the data chunks only. -/
def zeroHit (N K S : Nat) : FrontendTxnData where
  objSize := S
  chunkSize := chunkSizeOf S K
  sendSize := 0
  nResps := N + 1
  resps := fun _ => .full (List.replicate (chunkSizeOf S K) 0)
  isAvailable := fun i => i < K
  pipew := .fresh
  errs := []

theorem zeroHit_dataHit {N K S : Nat} (hKN : K ≤ N) :
    DataHit ⟨N, K⟩ (fun _ => List.replicate (chunkSizeOf S K) 0) (zeroHit N K S) where
  hit := by
    refine ⟨Nat.le_succ N, ?_, fun _ _ _ => rfl, rfl, rfl⟩
    have hsub : (List.range K).Sublist (List.range N) := List.range_sublist.mpr hKN
    have hall : (List.range K).countP (zeroHit N K S).isAvailable = K := by
      rw [List.countP_eq_length.mpr fun j hj => by simpa [zeroHit] using hj, List.length_range]
    calc K = (List.range K).countP (zeroHit N K S).isAvailable := hall.symm
      _ ≤ (List.range N).countP (zeroHit N K S).isAvailable := hsub.countP_le
  data j hj := by simpa [zeroHit] using hj
  chunkSize := rfl
  lens _ _ := List.length_replicate
  sendSize := rfl

theorem some_keepsData (n k : Nat) : KeepsData n k some :=
  fun shards _ _ _ _ => ⟨shards, rfl, fun _ _ => rfl⟩

/-- 128 bytes in 20 chunks of 7: the first 19 chunks are longer than the object. -/
theorem zeroHit_not_servesAlike :
    DataHit ⟨21, 20⟩ (fun _ => List.replicate 7 0) (zeroHit 21 20 128) ∧ KeepsData 21 20 some ∧
    ∀ fuel, ¬ ServesAlike ⟨21, 20⟩ (newStreamCoder some 21 20 codingSubChunkSize) fuel
      (zeroHit 21 20 128) := by
  have H : DataHit ⟨21, 20⟩ (fun _ => List.replicate 7 0) (zeroHit 21 20 128) :=
    zeroHit_dataHit (N := 21) (K := 20) (S := 128) (by decide)
  refine ⟨H, some_keepsData 21 20, ?_⟩
  rintro fuel ⟨rp, -, -, hrp, -, -, -, -, -, -, herrs, -⟩
  -- a single round does not use the fuel
  obtain ⟨-, r, hr, hfail, -⟩ := pipeDataChunkToClient_fails H (by decide) (by decide)
    (show 7 / codingSubChunkSize + 1 < 2 by decide) (by decide)
  have hone : pipeDataChunkToClient ⟨21, 20⟩ fuel (zeroHit 21 20 128) =
      pipeDataChunkToClient ⟨21, 20⟩ 2 (zeroHit 21 20 128) := rfl
  rw [hone, hr] at hrp
  cases hrp
  rw [herrs] at hfail
  simpa using congrArg List.length hfail

/-- 128 bytes in 3 chunks of 43: one byte of padding. -/
theorem zeroHit_servesAlike :
    ServesAlike ⟨4, 3⟩ (newStreamCoder some 4 3 codingSubChunkSize) 2 (zeroHit 4 3 128) :=
  (servesAlike_iff ⟨4, 3⟩ _ _ (zeroHit 4 3 128) 2 some (by decide) (by decide) (by decide)
    MyStreamCoder.newStreamCoder_fresh .rfl (some_keepsData 4 3) (zeroHit_dataHit (K := 3) (N := 4) (by decide))
    (by decide)).mpr (by decide)

end C2DN.Frontend
