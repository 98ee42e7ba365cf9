import C2DN.Lib.Stripe
import C2DN.Frontend.PipeData
import C2DN.Frontend.DecodeCorrect

/-!
# Lemmas for sending the data chunks without decoding

What every block of the loops does on bodies that arrive completely, and from that what whole
rounds do. The rounds are stated with the rest of the round as a continuation (`range' i m ++ js`),
so that the last round can be put together from its parts.
-/

namespace C2DN.Frontend

open Stripe FrontendTxnData

namespace PipeSt

variable {prm : FrontendParam} {s s' s'' : PipeSt} {i m r : Nat} {is js : List Nat} {d p q : Bytes}
  {chunk : Nat → Bytes}

/-- The client reads to the end. -/
structure Open (s : PipeSt) : Prop where
  closed : s.txn.pipew.closed = false
  room : s.txn.pipew.room = none

/-- After the bytes `p` of chunk `i` have been piped to the client. -/
def piped (s : PipeSt) (i : Nat) (p rest : Bytes) : PipeSt :=
  { s with
    txn := { s.txn with
      resps := Function.update s.txn.resps i (Body.full rest)
      pipew := { s.txn.pipew with sent := s.txn.pipew.sent ++ p } }
    respBuffer := s.respBuffer ++ p }

/-- `s'` is `s` after the bytes `p` have been sent from the chunks `lo, ..., hi - 1`, in which
`rest` is left. -/
structure Sends (lo hi : Nat) (rest : Nat → Bytes) (p : Bytes) (s s' : PipeSt) : Prop where
  txn : s'.txn = { s.txn with
    resps := s'.txn.resps
    pipew := { s.txn.pipew with sent := s.txn.pipew.sent ++ p }
    sendSize := s.txn.sendSize + p.length }
  respBuffer : s'.respBuffer = s.respBuffer ++ p
  done : ∀ j, lo ≤ j → j < hi → s'.txn.resps j = Body.full (rest j)
  other : ∀ j, ¬ (lo ≤ j ∧ j < hi) → s'.txn.resps j = s.txn.resps j

section
variable {lo mid hi : Nat} {rest : Nat → Bytes}

theorem Sends.open (h : Sends lo hi rest p s s') (ho : s.Open) : s'.Open :=
  ⟨by rw [h.txn]; exact ho.closed, by rw [h.txn]; exact ho.room⟩

theorem Sends.sendSize (h : Sends lo hi rest p s s') :
    s'.txn.sendSize = s.txn.sendSize + p.length := by rw [h.txn]

theorem Sends.sent (h : Sends lo hi rest p s s') :
    s'.txn.pipew.sent = s.txn.pipew.sent ++ p := by rw [h.txn]

theorem Sends.objSize (h : Sends lo hi rest p s s') : s'.txn.objSize = s.txn.objSize := by
  rw [h.txn]

theorem Sends.chunkSize (h : Sends lo hi rest p s s') : s'.txn.chunkSize = s.txn.chunkSize := by
  rw [h.txn]

theorem Sends.errs (h : Sends lo hi rest p s s') : s'.txn.errs = s.txn.errs := by rw [h.txn]

theorem Sends.trans (h : Sends lo mid rest p s s') (h' : Sends mid hi rest q s' s'')
    (hlo : lo ≤ mid) (hhi : mid ≤ hi) : Sends lo hi rest (p ++ q) s s'' where
  txn := by
    rw [h'.txn, h.txn]
    simp only [List.append_assoc, List.length_append, Nat.add_assoc]
  respBuffer := by rw [h'.respBuffer, h.respBuffer, List.append_assoc]
  done j hj hj' := by
    rcases Nat.lt_or_ge j mid with hm | hm
    · rw [h'.other j (by omega)]; exact h.done j hj hm
    · exact h'.done j hm hj'
  other j hj := by rw [h'.other j (by omega), h.other j (by omega)]

/-- Two rounds over the same chunks. -/
theorem Sends.again {rest' : Nat → Bytes} (h : Sends lo hi rest' p s s')
    (h' : Sends lo hi rest q s' s'') : Sends lo hi rest (p ++ q) s s'' where
  txn := by
    rw [h'.txn, h.txn]
    simp only [List.append_assoc, List.length_append, Nat.add_assoc]
  respBuffer := by rw [h'.respBuffer, h.respBuffer, List.append_assoc]
  done := h'.done
  other j hj := by rw [h'.other j hj, h.other j hj]

theorem Sends.refl (h : hi ≤ lo) : Sends lo hi rest [] s s where
  txn := by simp
  respBuffer := by simp
  done j hj hj' := by omega
  other _ _ := rfl

theorem piped_sends (rest : Nat → Bytes) :
    Sends i (i + 1) rest p s ((s.piped i p (rest i)).addSendSize p.length) where
  txn := rfl
  respBuffer := rfl
  done j hj hj' := by
    obtain rfl : j = i := by omega
    simp [piped, addSendSize]
  other j hj := by
    have : j ≠ i := by omega
    simp [piped, addSendSize, this]

theorem discardResp_sends (hb : s.txn.resps i = Body.full d) :
    Sends i (i + 1) (fun _ => []) [] s { s with txn := s.txn.discardResp i } := by
  refine ⟨by simp [discardResp, setResp], by simp, fun j hj hj' => ?_, fun j hj => ?_⟩
  · obtain rfl : j = i := by omega
    simp [discardResp, setResp, hb, Body.discard, Body.full]
  · have : j ≠ i := by omega
    simp [discardResp, setResp, this]

end

/-! ## Copies -/

theorem pipeBytes_open (ho : s.Open) (rest : Bytes) :
    s.pipeBytes i p (Body.full rest) = (p.length, none, s.piped i p rest) := by
  unfold pipeBytes piped
  dsimp only
  split
  · next hp => simp [hp, setResp]
  · rw [PipeWriter.write_open (w := (s.txn.setResp i (Body.full rest)).pipew) ho.closed ho.room]
    rfl

theorem copy_full (ho : s.Open) (hb : s.txn.resps i = Body.full d) :
    s.copy i = (d.length, none, s.piped i d []) := by
  have h := pipeBytes_open (p := d) (i := i) ho []
  unfold copy
  rw [hb]
  dsimp only [Body.full, Body.discard] at h ⊢
  rw [h]
  simp

/-- `io.CopyN` of `L` bytes takes what there is of them and reports a missing one. -/
theorem copyN_full {L : Nat} (ho : s.Open) (hb : s.txn.resps i = Body.full d) :
    s.copyN i L = (min L d.length, if L ≤ d.length then none else some .eof,
      s.piped i (d.take L) (d.drop L)) := by
  have h := pipeBytes_open (p := d.take L) (i := i) ho (d.drop L)
  rw [List.length_take] at h
  unfold copyN
  rw [hb, Int.toNat_natCast]
  dsimp only [Body.full] at h ⊢
  rw [h]
  dsimp only
  by_cases hL : L ≤ d.length
  · rw [if_pos (by omega), if_pos hL]
  · rw [if_neg (by omega), if_pos (by omega), if_neg hL]

/-! ## The blocks of a round -/

/-- A full block. -/
theorem pipeRound_full (ho : s.Open) (hb : s.txn.resps i = Body.full d)
    (hd : codingSubChunkSize ≤ d.length) (hlast : s.lastBlock = false)
    (hne : s.txn.sendSize ≠ s.txn.objSize) : pipeRound prm (i :: is) s =
      pipeRound prm is ((s.piped i (d.take codingSubChunkSize)
        (d.drop codingSubChunkSize)).addSendSize codingSubChunkSize) := by
  rw [pipeRound, if_pos (.inl hlast), if_neg hne, copyN_full ho hb, if_pos hd,
    Nat.min_eq_left hd]
  simp

/-- The short block that a chunk ends with. -/
theorem pipeRound_short (prm : FrontendParam) (is : List Nat) (ho : s.Open) (hb : s.txn.resps i = Body.full d)
    (hd : d.length < codingSubChunkSize) (hi : s.lastBlock = false ∨ i ≠ prm.ECK - 1)
    (hne : s.txn.sendSize ≠ s.txn.objSize) : pipeRound prm (i :: is) s =
      pipeRound prm is { (s.piped i d []).addSendSize d.length with lastBlock := true } := by
  rw [pipeRound, if_pos hi, if_neg hne, copyN_full ho hb, if_neg (by omega),
    Nat.min_eq_right (le_of_lt hd), List.take_of_length_le (le_of_lt hd),
    List.drop_of_length_le (le_of_lt hd)]
  simp [addSendSize]

/-- Once everything has been sent, the rest of the chunks is thrown away. -/
theorem pipeRound_skip (hi : i ≠ prm.ECK - 1) (hlast : s.lastBlock = true)
    (heq : s.txn.sendSize = s.txn.objSize) :
    pipeRound prm (i :: is) s = pipeRound prm is { s with txn := s.txn.discardResp i } := by
  rw [pipeRound, if_pos (.inr hi), if_pos heq, if_neg (by simp [hlast])]

/-- Full blocks, as long as the object has not been sent. -/
theorem pipeRound_fulls (prm : FrontendParam) (js : List Nat) (ho : s.Open) (hlast : s.lastBlock = false)
    (hb : ∀ j, i ≤ j → j < i + m →
      s.txn.resps j = Body.full (chunk j) ∧ codingSubChunkSize ≤ (chunk j).length)
    (hne : ∀ l < m, s.txn.sendSize + l * codingSubChunkSize ≠ s.txn.objSize) :
    ∃ s', pipeRound prm (List.range' i m ++ js) s = pipeRound prm js s' ∧
      Sends i (i + m) (fun j => (chunk j).drop codingSubChunkSize)
        ((List.range' i m).flatMap fun j => (chunk j).take codingSubChunkSize) s s' ∧
      s'.lastBlock = false := by
  induction m generalizing i s with
  | zero => exact ⟨s, rfl, .refl (by omega), hlast⟩
  | succ m ih =>
    obtain ⟨hbi, hdi⟩ := hb i (le_refl i) (by omega)
    have hlen : ((chunk i).take codingSubChunkSize).length = codingSubChunkSize := by
      rw [List.length_take]; omega
    have h₁ : Sends i (i + 1) (fun j => (chunk j).drop codingSubChunkSize)
        ((chunk i).take codingSubChunkSize) s _ := piped_sends _
    obtain ⟨s', hs', h', hlast'⟩ := ih (i := i + 1) (h₁.open ho) hlast
      (fun j hj hj' => by rw [h₁.other j (by omega)]; exact hb j (by omega) (by omega))
      (fun l hl => by
        have := hne (l + 1) (by omega)
        rw [Nat.succ_mul] at this
        rw [h₁.sendSize, h₁.objSize, hlen]
        omega)
    refine ⟨s', ?_, ?_, hlast'⟩
    · rw [List.range'_succ, List.cons_append,
        pipeRound_full ho hbi hdi hlast (by simpa using hne 0 (by omega)), ← hs', hlen]
    · rw [List.range'_succ, List.flatMap_cons, show i + (m + 1) = i + 1 + m by omega]
      exact h₁.trans h' (by omega) (by omega)

/-- Short blocks, as long as the object has not been sent. -/
theorem pipeRound_shorts (prm : FrontendParam) (js : List Nat) (ho : s.Open) (hr : r < codingSubChunkSize)
    (hb : ∀ j, i ≤ j → j < i + m → s.txn.resps j = Body.full (chunk j) ∧ (chunk j).length = r)
    (hi : i + m ≤ prm.ECK - 1)
    (hne : ∀ l < m, s.txn.sendSize + l * r ≠ s.txn.objSize) :
    ∃ s', pipeRound prm (List.range' i m ++ js) s = pipeRound prm js s' ∧
      Sends i (i + m) (fun _ => []) ((List.range' i m).flatMap chunk) s s' ∧
      s'.lastBlock = (s.lastBlock || decide (0 < m)) := by
  induction m generalizing i s with
  | zero => exact ⟨s, rfl, .refl (by omega), by simp⟩
  | succ m ih =>
    obtain ⟨hbi, hdi⟩ := hb i (le_refl i) (by omega)
    have h₁ : Sends i (i + 1) (fun _ => []) (chunk i) s
        { (s.piped i (chunk i) []).addSendSize (chunk i).length with lastBlock := true } :=
      ⟨rfl, rfl, (piped_sends fun _ => []).done, (piped_sends fun _ => []).other⟩
    obtain ⟨s', hs', h', hlast'⟩ := ih (i := i + 1) (h₁.open ho)
      (fun j hj hj' => by rw [h₁.other j (by omega)]; exact hb j (by omega) (by omega))
      (by omega)
      (fun l hl => by
        have := hne (l + 1) (by omega)
        rw [Nat.succ_mul] at this
        rw [h₁.sendSize, h₁.objSize, hdi]
        omega)
    refine ⟨s', ?_, ?_, by simp [hlast']⟩
    · rw [List.range'_succ, List.cons_append,
        pipeRound_short prm _ ho hbi (by omega) (.inr (by omega)) (by simpa using hne 0 (by omega)), ← hs']
    · rw [List.range'_succ, List.flatMap_cons, show i + (m + 1) = i + 1 + m by omega]
      exact h₁.trans h' (by omega) (by omega)

/-- The blocks that are thrown away. -/
theorem pipeRound_skips (prm : FrontendParam) (js : List Nat) (hi : i + m ≤ prm.ECK - 1) (hlast : s.lastBlock = true)
    (hb : ∀ j, i ≤ j → j < i + m → s.txn.resps j = Body.full (chunk j))
    (heq : s.txn.sendSize = s.txn.objSize) :
    ∃ s', pipeRound prm (List.range' i m ++ js) s = pipeRound prm js s' ∧
      Sends i (i + m) (fun _ => []) [] s s' ∧ s'.lastBlock = true := by
  induction m generalizing i s with
  | zero => exact ⟨s, rfl, .refl (by omega), hlast⟩
  | succ m ih =>
    have h₁ := discardResp_sends (hb i (le_refl i) (by omega))
    obtain ⟨s', hs', h', hlast'⟩ := ih (i := i + 1) (s := { s with txn := s.txn.discardResp i })
      (by omega) hlast
      (fun j hj hj' => by rw [h₁.other j (by omega)]; exact hb j (by omega) (by omega)) heq
    refine ⟨s', ?_, ?_, hlast'⟩
    · rw [List.range'_succ, List.cons_append, pipeRound_skip (by omega) hlast heq, ← hs']
    · rw [show i + (m + 1) = i + 1 + m by omega]
      exact h₁.trans h' (by omega) (by omega)

/-- The size that `copyLastBlock` computes, a negative one being cut to `0`. -/
def lastBlockSize (prm : FrontendParam) (t : FrontendTxnData) : Nat :=
  t.objSize % (codingSubChunkSize * prm.ECK) - t.chunkSize % codingSubChunkSize * (prm.ECK - 1)

theorem lastBlockSize_cast (a b : Nat) :
    (if ((a : Int) - (b : Int)) < 0 then (0 : Int) else (a : Int) - (b : Int)) = ((a - b : Nat) : Int) := by
  split <;> omega

theorem copyLastBlock_fail
    (h : lastBlockSize prm s.txn + s.txn.sendSize ≠ s.txn.objSize) :
    ∃ s₁ : PipeSt, copyLastBlock prm s = .error s₁.failed ∧ s₁.txn.errs = s.txn.errs ∧
      s₁.txn.pipew = s.txn.pipew := by
  unfold copyLastBlock
  dsimp only
  unfold lastBlockSize at h
  by_cases heq : s.txn.sendSize = s.txn.objSize
  · refine ⟨{ s with txn := s.txn.discardResp (prm.ECK - 1) }, ?_, rfl, rfl⟩
    rw [if_pos heq, lastBlockSize_cast, if_pos (by exact_mod_cast h)]
  · refine ⟨s, ?_, rfl, rfl⟩
    rw [if_neg heq, lastBlockSize_cast, if_pos (by exact_mod_cast h)]

theorem copyLastBlock_ok (prm : FrontendParam) (ho : s.Open) (hb : s.txn.resps (prm.ECK - 1) = Body.full d)
    (h : lastBlockSize prm s.txn + s.txn.sendSize = s.txn.objSize)
    (hd : lastBlockSize prm s.txn ≤ d.length) :
    ∃ s', copyLastBlock prm s = .ok s' ∧
      Sends (prm.ECK - 1) (prm.ECK - 1 + 1) (fun _ => []) (d.take (lastBlockSize prm s.txn)) s s' ∧
      s'.lastBlock = s.lastBlock := by
  unfold copyLastBlock
  dsimp only
  by_cases heq : s.txn.sendSize = s.txn.objSize
  · have hz : lastBlockSize prm s.txn = 0 := by omega
    have hd₁ := discardResp_sends hb
    have hd₂ := discardResp_sends (hd₁.done (prm.ECK - 1) (le_refl _) (by omega))
    have hz' : lastBlockSize prm (s.txn.discardResp (prm.ECK - 1)) = 0 := hz
    rw [if_pos heq, hz, List.take_zero]
    refine ⟨_, ?_, hd₁.again hd₂, rfl⟩
    unfold lastBlockSize at hz'
    rw [lastBlockSize_cast]
    dsimp only
    rw [hz', if_neg (by simpa [discardResp, setResp] using heq), if_neg (by omega)]
  · have hpos : 0 < lastBlockSize prm s.txn := by omega
    have h₁ : Sends (prm.ECK - 1) (prm.ECK - 1 + 1) (fun _ => d.drop (lastBlockSize prm s.txn))
        (d.take (lastBlockSize prm s.txn)) s _ := piped_sends _
    have h₂ := discardResp_sends (h₁.done (prm.ECK - 1) (le_refl _) (by omega))
    have h₃ := h₁.again h₂
    rw [List.append_nil] at h₃
    have hz : s.txn.objSize % (codingSubChunkSize * prm.ECK) -
      s.txn.chunkSize % codingSubChunkSize * (prm.ECK - 1) = lastBlockSize prm s.txn := rfl
    refine ⟨_, ?_, h₃, rfl⟩
    rw [if_neg heq, lastBlockSize_cast, hz, if_neg (by simpa using (by exact_mod_cast h)),
      if_pos (by exact_mod_cast hpos), copyN_full ho hb, if_pos hd]
    simp [Nat.min_eq_left hd]

/-! ## Rounds -/

/-- Rounds of full blocks, as long as the object has not been sent. -/
theorem pipeLoop_fulls {q fuel : Nat} (chunk : Nat → Bytes) (ho : s.Open) (hlast : s.lastBlock = false)
    (hb : ∀ j < prm.ECK,
      s.txn.resps j = Body.full (chunk j) ∧ q * codingSubChunkSize ≤ (chunk j).length)
    (hne : ∀ l < q * prm.ECK, s.txn.sendSize + l * codingSubChunkSize ≠ s.txn.objSize) :
    ∃ s', pipeLoop prm (fuel + q) s = pipeLoop prm fuel s' ∧
      Sends 0 prm.ECK (fun j => (chunk j).drop (q * codingSubChunkSize))
        (interleave codingSubChunkSize prm.ECK q chunk) s s' ∧
      s'.lastBlock = false := by
  induction q generalizing s chunk with
  | zero =>
    refine ⟨s, rfl, ⟨by simp [interleave], by simp [interleave], fun j _ hj => ?_, fun _ _ => rfl⟩,
      hlast⟩
    simpa using (hb j hj).1
  | succ q ih =>
    have hq : ∀ j < prm.ECK, q * codingSubChunkSize + codingSubChunkSize ≤ (chunk j).length := by
      intro j hj
      rw [← Nat.succ_mul]; exact (hb j hj).2
    obtain ⟨s₁, hs₁, h₁, hlast₁⟩ := pipeRound_fulls (i := 0) (m := prm.ECK) prm []
      ho hlast (fun j _ hj => ⟨(hb j (by omega)).1, by have := hq j (by omega); omega⟩)
      (fun l hl => hne l (lt_of_lt_of_le hl (Nat.le_mul_of_pos_left _ (Nat.succ_pos q))))
    rw [List.append_nil, ← List.range_eq_range'] at hs₁
    rw [Nat.zero_add] at h₁
    have hrow : ((List.range' 0 prm.ECK).flatMap fun j => (chunk j).take codingSubChunkSize) =
        row codingSubChunkSize prm.ECK chunk := by rw [row, List.range_eq_range']
    rw [hrow] at h₁
    have hlen : (row codingSubChunkSize prm.ECK chunk).length = prm.ECK * codingSubChunkSize :=
      length_flatMap_range fun j hj => by
        have := hq j hj
        rw [List.length_take]; omega
    obtain ⟨s', hs', h', hlast'⟩ := ih (s := s₁)
      (fun j => (chunk j).drop codingSubChunkSize) (h₁.open ho) hlast₁
      (fun j hj => ⟨h₁.done j (Nat.zero_le j) hj, by
        have := hq j hj
        rw [List.length_drop]; omega⟩)
      (fun l hl => by
        have := hne (prm.ECK + l) (by rw [Nat.succ_mul]; omega)
        rw [Nat.add_mul] at this
        rw [h₁.sendSize, h₁.objSize, hlen]
        omega)
    refine ⟨s', ?_, ?_, hlast'⟩
    · rw [← hs', ← Nat.add_assoc, pipeLoop, hlast, if_neg (by simp), hs₁]
      rfl
    · simpa only [List.drop_drop, Nat.succ_mul, Nat.add_comm, interleave] using h₁.again h'

end PipeSt

end C2DN.Frontend
