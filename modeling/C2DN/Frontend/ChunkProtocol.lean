import C2DN.Frontend.ChunkFetch

/-!
# The availability of chunks, as the transaction relies on it

In every state that the goroutines of a transaction reach, the counters of `feTxn.ChunkStat` and
`feTxn.Resps` agree with `IsAvailable`, from the decision of `handleChunk` on they stay as they are,
and every response has one owner.
-/

namespace C2DN.Frontend.Goroutines

section
variable {p : Param} {e : Env} {s s' : State} {n i : Nat} {t : Tid} {c : Chunks} {fs : List Fetcher}
  {f : Fetcher}

/-- The chunks that have been accepted, with their responses. -/
structure SameChunks (c c' : Chunks) : Prop where
  isAvailable : c'.isAvailable = c.isAvailable
  resps : c'.resps = c.resps
  numAvailable : c'.numAvailable = c.numAvailable
  numDataAvailable : c'.numDataAvailable = c.numDataAvailable

/-- After the decision no step changes them. -/
theorem step_sameChunks (hI : ChunkInv p e s) (hfin : s.chunk.finished = true)
    (h : step p e s t = .ok s') : s'.chunk.finished = true ∧ SameChunks s.chunk s'.chunk := by
  cases stepOf h with
  | main hstep =>
    have hph := hI.phase
    cases (mainStep_frame hstep).chunks with
    | same hc | fetch _ _ _ hc => rw [hc]; exact ⟨hfin, rfl, rfl, rfl, rfl⟩
    | make hpc =>
      simp only [Phase, hpc] at hph
      exact Bool.noConfusion (hfin.symm.trans hph.finished)
    | miss _ _ hc => rw [hc]; exact ⟨hfin, rfl, rfl, rfl, rfl⟩
    | finish _ _ hc => rw [hc]; exact ⟨rfl, rfl, rfl, rfl, rfl⟩
    | failed hpc => simp only [Phase, hpc] at hph
  | check => exact ⟨hfin, rfl, rfl, rfl, rfl⟩
  | @fetch n f pc' c' m' hf hstep =>
    have hok := hI.chunks.fetch n f hf
    have heff := fetchStep_effect hstep hok
    have hw := hI.chunks.frozen hfin f (List.mem_of_getElem? hf)
    obtain ⟨h₁, h₂, h₃, h₄⟩ := heff.still_eq hok hw (heff.writing hfin hw)
    exact ⟨heff.finished.trans hfin, h₁, h₂, h₃, h₄⟩
  | pipe hstep =>
    obtain ⟨_, _, rfl⟩ := pipeStep_eq hstep
    exact ⟨hfin, rfl, rfl, rfl, rfl⟩

theorem run_sameChunks {ts : List Tid} (hI : ChunkInv p e s) (hfin : s.chunk.finished = true)
    (h : run p e ts s = .ok s') : SameChunks s.chunk s'.chunk := by
  have hinv : ChunkInv p e s' ∧ s'.chunk.finished = true ∧ SameChunks s.chunk s'.chunk := by
    refine inv_of_run (I := fun s' =>
      ChunkInv p e s' ∧ s'.chunk.finished = true ∧ SameChunks s.chunk s'.chunk) ?_
      ⟨hI, hfin, rfl, rfl, rfl, rfl⟩ h
    rintro s₁ t s₂ ⟨hI₁, hfin₁, hsame⟩ hstep
    obtain ⟨hfin₂, hsame'⟩ := step_sameChunks hI₁ hfin₁ hstep
    exact ⟨step_chunkInv hI₁ hstep, hfin₂, hsame'.1.trans hsame.1, hsame'.2.trans hsame.2,
      hsame'.3.trans hsame.3, hsame'.4.trans hsame.4⟩
  exact hinv.2.2

/-- The response of goroutine `n` is the transaction's: nobody but the goroutine that sends the
object closes it. -/
structure OwnedByTxn (s : State) (n : Nat) (f : Fetcher) : Prop where
  isAvailable : s.chunk.isAvailable[f.chunkIdx]? = some true
  resp : s.chunk.resps[f.chunkIdx]? = some (some n)
  closed : ∀ t, (t, n) ∈ s.chunk.closed → t = .pipe

/-- The response is the goroutine's own, which closes it before it returns. -/
structure OwnedByGoroutine (s : State) (n : Nat) (f : Fetcher) : Prop where
  isAvailable : s.chunk.isAvailable[f.chunkIdx]? = some false
  closed : ∀ t, (t, n) ∈ s.chunk.closed → t = .fetch n
  discards : ∀ r, f.pc = .returned r → (.fetch n, n) ∈ s.chunk.closed

/-- The availability protocol. -/
structure Availability (p : Param) (s : State) : Prop where
  /-- the counters, while no `fetchChunk` is in its critical section -/
  counters : (∀ f ∈ s.fetchers, f.pc.critical = false) →
    s.chunk.numAvailable = s.chunk.isAvailable.count true ∧
      s.chunk.numDataAvailable = (s.chunk.isAvailable.take p.ECK).count true
  resps : ∀ i : Nat, s.chunk.isAvailable[i]? = some true → ∃ n : Nat, s.chunk.resps[i]? = some (some n)
  /-- the way in which the object is sent -/
  path : ∀ noDecode, s.noDecode = some noDecode →
    (noDecode = true ↔ ∀ i < p.ECK, s.chunk.isAvailable[i]? = some true) ∧
      p.ECK ≤ s.chunk.isAvailable.count true
  owner : ∀ n f, s.fetchers[n]? = some f → f.pc.answered = true →
    Xor (OwnedByTxn s n f) (OwnedByGoroutine s n f)

theorem ChunkOk.counters (hI : ChunkOk p e c fs) (hw : ∀ f ∈ fs, f.pc.writing = false) :
    c.numAvailable = c.isAvailable.count true ∧
      c.numDataAvailable = (c.isAvailable.take p.ECK).count true := by
  rw [hI.numAvailable, hI.numDataAvailable, hI.count, hI.countData]
  refine ⟨List.countP_congr fun f hf => ?_, List.countP_congr fun f hf => ?_⟩
  · rw [FetchPc.counted_eq (hw f hf)]
  · rw [FetchPc.dataCounted_eq (hw f hf)]

theorem ChunkOk.resp_of_available (hI : ChunkOk p e c fs) (h : c.isAvailable[i]? = some true) :
    ∃ n, c.resps[i]? = some (some n) := by
  have hmem : i ∈ fs.map (·.chunkIdx) := by
    by_contra hi
    exact (hI.rest i hi).1 h
  obtain ⟨f, hf, rfl⟩ := List.mem_map.1 hmem
  obtain ⟨n, hn⟩ := List.mem_iff_getElem?.1 hf
  have hok := hI.fetch n f hn
  have hmarked : f.pc.marked = true := Option.some.inj (hok.isAvailable.symm.trans h)
  refine ⟨n, hok.resps.trans ?_⟩
  rw [FetchPc.resp, FetchPc.stored_of_marked hmarked, if_pos rfl]

/-- The object is sent after the decision. -/
theorem ChunkInv.decided (hI : ChunkInv p e s) (h : s.noDecode ≠ none) :
    Decided p s ∧ s.noDecode = some (decide (s.chunk.numDataAvailable = p.ECK)) := by
  have hph := hI.phase
  unfold Phase at hph
  cases hpc : s.main
  all_goals simp only [hpc] at hph
  case fetchLoop | missLock | missAppend | unlockAvail | checkFailed | debugReady | lockFinish
      | setFinish =>
    exact absurd hph.1.noDecode h
  case unlockFinish | answer | choose => exact absurd hph.2 h
  case startPipe => exact absurd hph.2.1 h
  case returned =>
    obtain hb | hd := hph
    · exact absurd hb.noDecode h
    · exact hd
  all_goals exact absurd hph.noDecode h

theorem ChunkInv.path (hI : ChunkInv p e s) {noDecode : Bool} (h : s.noDecode = some noDecode) :
    (noDecode = true ↔ ∀ i < p.ECK, s.chunk.isAvailable[i]? = some true) ∧
      p.ECK ≤ s.chunk.isAvailable.count true := by
  obtain ⟨hdec, hpath⟩ := hI.decided (by rw [h]; nofun)
  obtain ⟨hnum, hdata⟩ := hI.chunks.counters (hI.chunks.frozen hdec.finished)
  obtain rfl : noDecode = _ := Option.some.inj (h.symm.trans hpath)
  rw [decide_eq_true_iff, hdata, count_take_eq (by rw [hdec.sized.isAvailable]; have := p.le; omega)]
  exact ⟨Iff.rfl, hnum ▸ hdec.enough⟩

theorem ChunkInv.owner (hI : ChunkInv p e s) (hf : s.fetchers[n]? = some f)
    (hans : f.pc.answered = true) : Xor (OwnedByTxn s n f) (OwnedByGoroutine s n f) := by
  have hok := hI.chunks.fetch n f hf
  have hcloser : ∀ t, (t, n) ∈ s.chunk.closed → Closer t n f.pc := by
    intro t ht
    obtain ⟨g, hg, hwho⟩ := hI.bodies.closed t n ht
    obtain rfl : f = g := Option.some.inj (hf.symm.trans hg)
    exact hwho
  cases hm : f.pc.marked with
  | true =>
    have havail : s.chunk.isAvailable[f.chunkIdx]? = some true := hm ▸ hok.isAvailable
    refine .inl ⟨⟨havail, ?_, fun t ht => ?_⟩, fun hown => ?_⟩
    · rw [hok.resps, FetchPc.resp, FetchPc.stored_of_marked hm, if_pos rfl]
    · obtain ⟨_, hpc⟩ | ⟨ht, _⟩ := hcloser t ht
      · exact absurd hpc (FetchPc.not_closing_of_marked hm)
      · exact ht
    · exact nomatch havail.symm.trans hown.isAvailable
  | false =>
    have havail : s.chunk.isAvailable[f.chunkIdx]? = some false := hm ▸ hok.isAvailable
    refine .inr ⟨⟨havail, fun t ht => ?_, fun r hr => ?_⟩, fun hown => ?_⟩
    · obtain ⟨ht, _⟩ | ⟨_, hpc⟩ := hcloser t ht
      · exact ht
      · exact nomatch hm.symm.trans hpc
    · apply hI.bodies.closing n f hf
      rw [hr] at hans hm ⊢
      cases r with
      | skipped | failed => cases hans
      | kept => cases hm
      | discarded => rfl
    · exact nomatch havail.symm.trans hown.isAvailable

/-- **Availability.** In every state that a transaction reaches, the counters, `feTxn.Resps`, the way
in which the object is sent and the owners of the responses agree with `IsAvailable`, and after
`TxnFinishCache.Set` nothing of it changes any more. -/
theorem chunk_availability {ts : List Tid} (hrun : run p e ts Goroutines.start = .ok s) :
    Availability p s ∧ (s.chunk.finished = true →
      ∀ ts' s', run p e ts' s = .ok s' → SameChunks s.chunk s'.chunk) := by
  have hI := run_chunkInv start_chunkInv hrun
  refine ⟨⟨fun hcrit => ?_, fun i => hI.chunks.resp_of_available, fun b => hI.path, ?_⟩, ?_⟩
  · apply hI.chunks.counters
    intro f hf
    cases hw : f.pc.writing with
    | false => rfl
    | true => exact nomatch (hcrit f hf).symm.trans (FetchPc.critical_of_writing hw)
  · exact fun n f hf hans => hI.owner hf hans
  · exact fun hfin ts' s' h => run_sameChunks hI hfin h

end

/-! ## A chunk that comes late -/

/-- Two data chunks and one parity chunk. -/
def twoOfThree : Param :=
  { ECN := 3, ECK := 2, mode := .naiveCoding, nodeIdx := 0, debug := false, le := by decide }

/-- All chunks are cached where they belong. -/
def allHit : Env where
  peerIdx i := i
  intn _ := false
  check _ _ := some ⟨true, .chunk⟩
  full _ := .err
  chunk _ := .ok

/-- The response with data chunk 1 comes after the decision. -/
def lateChunk : List Tid :=
  List.replicate 7 .main ++ List.replicate 9 (.check 0) ++ List.replicate 8 (.check 1) ++
    List.replicate 9 (.check 2) ++ List.replicate 12 .main ++ List.replicate 13 (.fetch 0) ++
    List.replicate 4 (.fetch 1) ++ List.replicate 14 (.fetch 2) ++ List.replicate 11 .main ++
    List.replicate 4 (.fetch 1) ++ List.replicate 6 .pipe

theorem lateChunk_availability : ∃ s, run twoOfThree allHit lateChunk start = .ok s ∧
    s.chunk.finished = true ∧ s.noDecode = some false ∧
    s.chunk.closed = [(.fetch 1, 1), (.pipe, 0), (.pipe, 2)] ∧ Availability twoOfThree s :=
  ⟨_, rfl, rfl, rfl, rfl,
    (chunk_availability (rfl : run twoOfThree allHit lateChunk start = .ok _)).1⟩

end C2DN.Frontend.Goroutines
