import C2DN.Frontend.ChunkProtocol

/-!
# When fetching the chunks of an object comes to an end

`handleChunk` sleeps until `ECK` chunks are there. Failed fetches are not counted, so that nothing
else wakes it, and a parity chunk is only fetched once some other chunk is there. It is enough that
`ECK` of the chunks that are fetched arrive, one data chunk among them.
-/

namespace C2DN.Frontend.Goroutines

open Monitor

/-- `handleChunk` is called for an object with these hits, when all checks have returned. -/
def chunkStart (hits : List Bool) : State :=
  { start with main := .handleChunk, peer := ⟨0, 0, hits, .chunk⟩ }

/-- `handleChunk` starts a goroutine for chunk `i`. -/
def fetches (p : Param) (hits : List Bool) (i : Nat) : Bool :=
  decide (i < p.ECN) && (decide (i < p.ECK) || hits[i]? == some true)

/-- The chunks that `handleChunk` fetches. -/
def fetched (p : Param) (hits : List Bool) : List Nat :=
  (List.range hits.length).filter (fetches p hits)

/-- Nobody waits in vain: `handleChunk` does not sleep when all goroutines have returned with too few
chunks, and no parity goroutine waits for a first chunk when all data chunks have failed. -/
structure Resolves (p : Param) (s : State) : Prop where
  awake : (∀ f ∈ s.fetchers, f.pc.hasReturned = true) → s.chunk.numAvailable < p.ECK →
    ¬ (s.main = .sleepAvail ∧ .main ∈ s.mon.sleeping)
  parity : (∀ i < p.ECK, ∃ f ∈ s.fetchers, f.chunkIdx = i ∧ f.pc = .returned .failed) →
    ∀ f ∈ s.fetchers, ¬ (f.pc = .spin ∧ s.chunk.numAvailable = 0)

/-- Enough of the chunks that are fetched arrive. -/
structure Enough (p : Param) (e : Env) (hits : List Bool) : Prop where
  chunks : p.ECK ≤ (fetched p hits).countP fun i => e.chunk i = .ok
  data : ∃ i < p.ECK, e.chunk i = .ok

/-- Which chunks `handleChunk` has started to fetch, up to where it is. -/
def LoopOk (p : Param) (hits : List Bool) (idxs : List Nat) : MainPc → Prop
  | .handleChunk => idxs = []
  | .fetchLoop i => i ≤ hits.length ∧ idxs = (List.range i).filter (fetches p hits)
  | .missLock i | .missAppend i => i < hits.length ∧ fetches p hits i = false ∧
    idxs = (List.range i).filter (fetches p hits)
  | .lockAvail | .loadAvail | .loadFailed | .waitAvail | .sleepAvail | .unlockAvail | .checkFailed
  | .tooManyFailed | .debugReady | .lockFinish | .setFinish | .unlockFinish | .answer | .choose
  | .startPipe _ | .returned => idxs = fetched p hits
  | _ => False

/-- The checks have returned, so the hits stay as they are. -/
structure HitsOk (p : Param) (hits : List Bool) (s : State) : Prop where
  isPeerHit : s.peer.isPeerHit = hits
  checkers : s.checkers = []
  loop : LoopOk p hits (s.fetchers.map (·.chunkIdx)) s.main

section
variable {p : Param} {e : Env} {s s' : State} {hits : List Bool} {n i : Nat} {t : Tid}

theorem filter_range_succ (h : fetches p hits i = true) :
    (List.range (i + 1)).filter (fetches p hits) = (List.range i).filter (fetches p hits) ++ [i] := by
  rw [List.range_succ, List.filter_append, List.filter_singleton, h, cond_true]

theorem filter_range_succ_of_not (h : fetches p hits i = false) :
    (List.range (i + 1)).filter (fetches p hits) = (List.range i).filter (fetches p hits) := by
  rw [List.range_succ, List.filter_append, List.filter_singleton, h, cond_false, List.append_nil]

theorem mainStep_hitsOk (hI : HitsOk p hits s) (h : mainStep p e s = .ok s') : HitsOk p hits s' := by
  obtain ⟨hhits, hcheckers, hloop⟩ := hI
  cases hpc : s.main
  all_goals
    simp only [mainStep, hpc, map_eq_ok_iff, lock_eq_ok, unlock_eq_ok, wait_eq_ok, wake_eq_ok,
      appendDebugString_eq_ok] at h
    simp only [hpc, LoopOk] at hloop
  case handleChunk =>
    cases h
    exact ⟨hhits, hcheckers, Nat.zero_le _, hloop⟩
  case fetchLoop i =>
    obtain ⟨hle, hidx⟩ := hloop
    have hfetch (hi : i < hits.length) (hf : fetches p hits i = true) :
        HitsOk p hits (s.fetch p i) := by
      refine ⟨hhits, hcheckers, hi, ?_⟩
      have hlt : i < p.ECN := by
        unfold fetches at hf
        exact of_decide_eq_true (Bool.and_eq_true_iff.1 hf).1
      rw [filter_range_succ hf, State.fetch, List.map_append, hidx, Param.fetchIdx,
        if_neg (Nat.not_le.2 hlt)]
      rfl
    rw [hhits] at h
    split at h
    · next hget =>
      cases h
      have hlen := Nat.le_antisymm hle (List.getElem?_eq_none_iff.1 hget)
      rw [hlen] at hidx
      exact ⟨hhits, hcheckers, hidx⟩
    · next hit hget =>
      have hi := (List.getElem?_eq_some_iff.1 hget).1
      split at h
      · next hk =>
        cases h
        apply hfetch hi
        simp [fetches, hk, Nat.lt_of_lt_of_le hk p.le]
      · next hk =>
        split at h
        · next hn =>
          split at h
          · next hhit =>
            cases h
            apply hfetch hi
            simp [fetches, hn, hget, hhit]
          · next hhit =>
            cases h
            refine ⟨hhits, hcheckers, hi, ?_, hidx⟩
            simp [fetches, hk, hget, hhit]
        · next hn =>
          cases h
          refine ⟨hhits, hcheckers, hi, ?_⟩
          rw [filter_range_succ_of_not (by simp [fetches, hn])]
          exact hidx
  case missLock =>
    obtain ⟨_, ⟨_, rfl⟩, rfl⟩ := h
    exact ⟨hhits, hcheckers, hloop⟩
  case missAppend i =>
    obtain ⟨_, ⟨_, rfl⟩, rfl⟩ := h
    refine ⟨hhits, hcheckers, hloop.1, ?_⟩
    rw [filter_range_succ_of_not hloop.2.1]
    exact hloop.2.2
  case lockAvail | waitAvail | unlockAvail | lockFinish | unlockFinish =>
    obtain ⟨_, ⟨_, rfl⟩, rfl⟩ := h
    exact ⟨hhits, hcheckers, hloop⟩
  case sleepAvail =>
    obtain ⟨_, ⟨_, _, rfl⟩, rfl⟩ := h
    exact ⟨hhits, hcheckers, hloop⟩
  case loadAvail | loadFailed | checkFailed =>
    cases h
    split <;> exact ⟨hhits, hcheckers, hloop⟩
  case debugReady | startPipe =>
    obtain ⟨_, _, rfl⟩ := h
    exact ⟨hhits, hcheckers, hloop⟩
  case tooManyFailed | setFinish | answer | choose => cases h; exact ⟨hhits, hcheckers, hloop⟩
  case returned => cases h

theorem step_hitsOk (hI : HitsOk p hits s) (h : step p e s t = .ok s') : HitsOk p hits s' := by
  cases stepOf h with
  | main hstep => exact mainStep_hitsOk hI hstep
  | check hc => rw [hI.checkers] at hc; cases hc
  | @fetch n f pc' _ _ hf _ =>
    have hmap := map_moved (f := (·.chunkIdx)) (b := { f with pc := pc' }) hf rfl
    exact ⟨hI.isPeerHit, hI.checkers, hmap ▸ hI.loop⟩
  | pipe hstep =>
    obtain ⟨_, _, rfl⟩ := pipeStep_eq hstep
    exact ⟨hI.isPeerHit, hI.checkers, hI.loop⟩

theorem chunkStart_chunkInv : ChunkInv p e (chunkStart hits) where
  mutex := mutexHeld_of_alone rfl rfl rfl
  chunks := start_chunkInv.chunks
  bodies := ⟨nofun, nofun⟩
  phase := ⟨rfl, rfl, rfl⟩

theorem chunkStart_hitsOk : HitsOk p hits (chunkStart hits) := ⟨rfl, rfl, rfl⟩

/-- While too few chunks are there and nothing is decided, the goroutines that have returned with an
answer of status 200 are in `NumAvailable`. -/
theorem ChunkOk.counted_of_returned {c : Chunks} {fs : List Fetcher} {f : Fetcher}
    (hI : ChunkOk p e c fs) (hnum : c.numAvailable < p.ECK) (hfin : c.finished = false) (hf : f ∈ fs)
    (hret : f.pc.hasReturned = true) (hok : e.chunk f.chunkIdx = .ok) : f.pc.counted = true := by
  obtain ⟨n, hn⟩ := List.mem_iff_getElem?.1 hf
  have hfetch := hI.fetch n f hn
  cases hpc : f.pc
  case returned r =>
    rw [hpc] at hfetch
    cases r with
    | kept => rfl
    | skipped => exact absurd (hfetch.skipping rfl) (Nat.not_le.2 hnum)
    | failed => exact absurd hok (hfetch.failed rfl)
    | discarded => exact nomatch hfin.symm.trans (hfetch.late rfl)
  all_goals rw [hpc] at hret; cases hret

/-- **Fetching comes to an end** when enough chunks arrive. -/
theorem resolves_of_enough {ts : List Tid} (henough : Enough p e hits)
    (hrun : run p e ts (chunkStart hits) = .ok s) : Resolves p s := by
  have hI := inv_of_run (fun _ _ _ hI h => step_chunkInv hI h) chunkStart_chunkInv hrun
  have hH := inv_of_run (fun _ _ _ hI h => step_hitsOk hI h) chunkStart_hitsOk hrun
  refine ⟨fun hret hnum hsleep => ?_, fun hfailed => ?_⟩
  · have hph := hI.phase
    have hloop := hH.loop
    simp only [Phase, hsleep.1] at hph
    simp only [LoopOk, hsleep.1] at hloop
    apply Nat.not_le.2 hnum
    calc p.ECK ≤ (fetched p hits).countP fun i => e.chunk i = .ok := henough.chunks
      _ = s.fetchers.countP fun f => e.chunk f.chunkIdx = .ok := by
        rw [← hloop, List.countP_map]; rfl
      _ ≤ s.fetchers.countP (·.pc.counted) := by
        apply List.countP_mono_left
        intro f hf hok
        exact hI.chunks.counted_of_returned hnum hph.finished hf (hret f hf) (of_decide_eq_true hok)
      _ = s.chunk.numAvailable := hI.chunks.numAvailable.symm
  · obtain ⟨i, hi, hok⟩ := henough.data
    obtain ⟨f, hf, rfl, hpc⟩ := hfailed i hi
    obtain ⟨n, hn⟩ := List.mem_iff_getElem?.1 hf
    exact absurd hok ((hI.chunks.fetch n f hn).failed hpc)

end

/-! ## Failed fetches -/

/-- Three data chunks and one parity chunk, with the debug level of `myconst`. -/
def threeOfFour : Param :=
  { ECN := 4, ECK := 3, mode := .naiveCoding, nodeIdx := 0, debug := true, le := by decide }

/-- The fetches of these chunks are answered with a status other than 200. -/
def failing (idxs : List Nat) : Env :=
  { allHit with chunk := fun i => if i ∈ idxs then .status else .ok }

/-- `handleChunk` falls asleep, and the other goroutines run to their end. -/
def sleepRun : List Tid :=
  List.replicate 12 .main ++ List.replicate 3 (.fetch 0) ++ List.replicate 13 (.fetch 1) ++
    List.replicate 13 (.fetch 2)

/-- All data chunks fail before the parity goroutine looks for a first chunk. -/
def spinRun : List Tid :=
  List.replicate 9 .main ++ List.replicate 3 (.fetch 0) ++ List.replicate 3 (.fetch 1) ++
    List.replicate 3 (.fetch 2) ++ [.fetch 3]

/-- The parity chunk stands in for a data chunk that fails. -/
theorem parity_resolves :
    ∃ s, run threeOfFour (failing [0]) spinRun (chunkStart [true, true, true, true]) = .ok s ∧
      Resolves threeOfFour s :=
  ⟨_, rfl, resolves_of_enough
    (⟨by decide, 1, by decide, rfl⟩ : Enough threeOfFour (failing [0]) [true, true, true, true])
    (rfl : run _ _ spinRun _ = .ok _)⟩

/-- One data chunk that fails, with no parity chunk cached, is enough; so are all of them, with the
parity chunk cached. -/
theorem failed_not_resolves :
    (∃ s, run threeOfFour (failing [0]) sleepRun (chunkStart [true, true, true, false]) = .ok s ∧
      ¬ Resolves threeOfFour s) ∧
    ∃ s, run threeOfFour (failing [0, 1, 2]) spinRun (chunkStart [true, true, true, true]) = .ok s ∧
      ¬ Resolves threeOfFour s := by
  refine ⟨⟨_, rfl, fun h => ?_⟩, ⟨_, rfl, fun h => ?_⟩⟩
  · exact h.awake (by decide) (by decide) (by decide)
  · exact h.parity (by decide) ⟨3, .spin⟩ (by decide) (by decide)

end C2DN.Frontend.Goroutines
