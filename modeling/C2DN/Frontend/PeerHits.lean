import Mathlib.Data.List.Dedup
import C2DN.Frontend.PeerCheck
import C2DN.Frontend.ChunkResolve

/-!
# What a chunk hit rests on

`handleChunk` answers with a hit when `nPeerHit` has reached `ECK`. `nPeerHit` outlives a call of
`FrontendMain`, also counts the host of the previous parity chunk, and goes on counting after
`handleChunk` has given up a parity chunk as missing.
-/

namespace C2DN.Frontend.Goroutines

open Monitor

/-- The hosts that have reported a hit in the current call of `FrontendMain`. -/
def hitHosts (e : Env) (s : State) : List Int :=
  (s.checkers.filter fun c => decide (c.round = s.nFrontendMain) &&
    c.pc.reported (e.check c.round c.chunkIdx)).map fun c => e.peerIdx c.chunkIdx

/-- A hit is answered for an object that the peers have: `ECK` of the chunks that `handleChunk`
fetches have been reported by their hosts. -/
structure HitSound (p : Param) (e : Env) (s : State) : Prop where
  fetched : s.answer = some (.chunk true) → ∃ idxs : List Nat, idxs.Nodup ∧ p.ECK ≤ idxs.length ∧
    ∀ i ∈ idxs, i < p.ECN ∧ i ∈ s.fetchers.map (·.chunkIdx) ∧
      ∃ c ∈ s.checkers, c.round = s.nFrontendMain ∧ c.chunkIdx = i ∧
        c.pc.reported (e.check c.round c.chunkIdx) = true
  hosts : s.peer.nPeerHit ≤ (hitHosts e s).dedup.length

/-- The chunk that the main goroutine is about to note as missing. -/
def MainPc.missing : MainPc → Option Nat
  | .missLock i | .missAppend i => some i
  | _ => none

/-- `handleChunk` has given up chunk `i`. -/
def Missed (s : State) (i : Nat) : Prop :=
  s.main.missing = some i ∨ i ∈ s.chunk.missingPChunkIdx

instance (s : State) (i : Nat) : Decidable (Missed s i) := inferInstanceAs (Decidable (_ ∨ _))

/-- The check is about to count a hit. -/
def CheckPc.counts : CheckPc → Bool
  | .count _ => true
  | _ => false

/-- The check is about to write a miss to `IsPeerHit`. -/
def CheckPc.reportsMiss : CheckPc → Bool
  | .report r => !r.cacheHit
  | _ => false

/-- A check counts a hit only in its own call and for a chunk below `ECN` that `handleChunk` has not
given up before its answer. A check of an earlier call does not replace a hit by a miss. -/
def CheckUsable (p : Param) (s : State) (c : Checker) : Prop :=
  (c.pc.counts = true → c.round = s.nFrontendMain ∧ c.chunkIdx < p.ECN ∧
    (s.answer = none → ¬ Missed s c.chunkIdx)) ∧
  (c.pc.reportsMiss = true → c.round ≠ s.nFrontendMain →
    s.peer.isPeerHit[c.chunkIdx]? ≠ some true)

instance (p : Param) (s : State) (c : Checker) : Decidable (CheckUsable p s c) :=
  inferInstanceAs (Decidable (_ ∧ _))

/-- The conditions on a step under which `nPeerHit` counts what `handleChunk` can use: `FrontendMain`
is called with no hit counted, and the checks are usable. -/
def CountsUsable (p : Param) (s : State) (t : Tid) : Prop :=
  match t with
  | .main => s.main = .frontendMain → s.peer.nPeerHit = 0
  | .check n => ∀ c ∈ s.checkers[n]?, CheckUsable p s c
  | _ => True

instance (p : Param) (s : State) (t : Tid) : Decidable (CountsUsable p s t) :=
  match t with
  | .main => inferInstanceAs (Decidable (_ → _))
  | .check n => inferInstanceAs (Decidable (∀ c ∈ s.checkers[n]?, _))
  | .fetch _ | .pipe => inferInstanceAs (Decidable True)

/-! ## The steps of the main goroutine -/

namespace MainPc

/-- The loop of `handleChunk` has looked at chunk `i`. -/
def passed (i : Nat) : MainPc → Bool
  | .fetchLoop j | .missLock j | .missAppend j => decide (i < j)
  | .lockAvail | .loadAvail | .loadFailed | .waitAvail | .sleepAvail | .unlockAvail | .checkFailed
  | .tooManyFailed | .debugReady | .lockFinish | .setFinish | .unlockFinish | .answer => true
  | _ => false

/-- The client can have been answered. -/
def answered : MainPc → Bool
  | .choose | .startPipe _ | .returned => true
  | _ => false

end MainPc

/-- What a step of the main goroutine does to the hits, the checks and the fetched chunks. -/
inductive MainHits (p : Param) (e : Env) (s s' : State) : Prop
  | call (hpc : s.main = .frontendMain) (pc : MainPc) (hpc' : pc = .returned ∨ pc = .resetCheck)
    (k : Nat) (hs : s' = { s with nFrontendMain := s.nFrontendMain + 1, localECIdx := k, main := pc })
  | make (hpc : s.main = .makeIsPeerHit) (hs : s' = { s with
      peer := { s.peer with isPeerHit := List.replicate (nCheck p e) false }, main := .startCheck 0 })
  | check (i : Nat) (hpc : s.main = .startCheck i) (hs : s' = { s with
      peer := { s.peer with isPeerHit := s.peer.isPeerHit.set i false }
      checkers := s.checkers ++ [⟨s.nFrontendMain, i, .request⟩]
      main := .startCheck (i + 1) })
  | fetch (i : Nat) (hpc : s.main = .fetchLoop i) (hi : i < p.ECN)
    (hs : s' = { s with fetchers := s.fetchers ++ [⟨i, .start⟩], main := .fetchLoop (i + 1) })
  | miss (i : Nat) (hpc : s.main = .fetchLoop i) (hi : s.peer.isPeerHit[i]? = some false)
    (hs : s' = { s with main := .missLock i })
  | pass (i : Nat) (hpc : s.main = .fetchLoop i) (hi : p.ECN ≤ i)
    (hs : s' = { s with main := .fetchLoop (i + 1) })
  | append (i : Nat) (hpc : s.main = .missAppend i) (m : Monitor Tid) (hs : s' = { s with
      chunk := { s.chunk with missingPChunkIdx := s.chunk.missingPChunkIdx ++ [i] }
      mon := m, main := .fetchLoop (i + 1) })
  | fetched (i : Nat) (hpc : s.main = .fetchLoop i) (hi : s.peer.isPeerHit.length ≤ i)
    (hs : s' = { s with main := .lockAvail })
  | answer (hpc : s.main = .answer)
    (hs : s' = { s with answer := some (.chunk (p.ECK ≤ s.peer.nPeerHit)), main := .choose })
  | answerFull (hit : Bool) (hpc : s.main.answered = false)
    (hs : s' = { s with answer := some (.full hit), main := .returned })
  | other {pc : MainPc} (hpc : s.main = pc) (hn : s'.nFrontendMain = s.nFrontendMain)
    (hp : s'.peer.nPeerHit = s.peer.nPeerHit)
    (hh : s'.peer.isPeerHit = s.peer.isPeerHit ∨
      ∃ i, s'.peer.isPeerHit = s.peer.isPeerHit.set i true)
    (hc : s'.checkers = s.checkers) (hf : s'.fetchers = s.fetchers)
    (hm : s'.chunk.missingPChunkIdx = s.chunk.missingPChunkIdx) (ha : s'.answer = s.answer)
    (hpassed : ∀ i, s'.main.passed i = true → pc.passed i = true)
    (hmissing : s'.main.missing = pc.missing)
    (hanswered : pc.answered = true → s'.main.answered = true)

section
variable {p : Param} {e : Env} {s s' : State} {n i : Nat} {t : Tid}

theorem mainStep_hits (h : mainStep p e s = .ok s') : MainHits p e s s' := by
  cases hpc : s.main
  all_goals
    simp only [mainStep, hpc, map_eq_ok_iff, lock_eq_ok, unlock_eq_ok, wait_eq_ok, wake_eq_ok,
      appendDebugString_eq_ok] at h
  case frontendMain =>
    split at h
    · cases h
      exact .call hpc _ (.inl rfl) _ rfl
    · cases h
      exact .call hpc _ (.inr rfl) _ rfl
  case makeIsPeerHit => cases h; exact .make hpc rfl
  case startCheck i =>
    split at h
    · split at h
      · cases h
        exact .other hpc rfl rfl (.inl rfl) rfl rfl rfl rfl (fun _ => id) rfl Bool.noConfusion
      · cases h
        exact .check i hpc rfl
    · cases h
      exact .other hpc rfl rfl (.inl rfl) rfl rfl rfl rfl (fun _ => id) rfl Bool.noConfusion
  case fetchLoop i =>
    split at h
    · next hget =>
      cases h
      exact .fetched i hpc (List.getElem?_eq_none_iff.1 hget) rfl
    · next hit hget =>
      have hfetch (hi : i < p.ECN) : MainHits p e s (s.fetch p i) := by
        refine .fetch i hpc hi ?_
        rw [State.fetch, Param.fetchIdx, if_neg (Nat.not_le.2 hi)]
      split at h
      · next hi => cases h; exact hfetch (Nat.lt_of_lt_of_le hi p.le)
      · split at h
        · next hi =>
          split at h
          · cases h; exact hfetch hi
          · next hhit =>
            cases h
            exact .miss i hpc (hget.trans (by rw [Bool.eq_false_iff.2 hhit])) rfl
        · next hi =>
          cases h
          exact .pass i hpc (Nat.le_of_not_lt hi) rfl
  case missAppend i =>
    obtain ⟨_, ⟨_, rfl⟩, rfl⟩ := h
    exact .append i hpc _ rfl
  case answer => cases h; exact .answer hpc rfl
  case serveFull =>
    split at h
    all_goals try split at h
    all_goals cases h
    · exact .answerFull true (by rw [hpc]; rfl) rfl
    · exact .other hpc rfl rfl (.inl rfl) rfl rfl rfl rfl (fun _ => id) rfl Bool.noConfusion
    · exact .answerFull false (by rw [hpc]; rfl) rfl
  case lockCheck | waitCheck | unlockCheck | missLock | lockAvail | waitAvail | unlockAvail
      | lockFinish | unlockFinish =>
    obtain ⟨_, ⟨_, rfl⟩, rfl⟩ := h
    exact .other hpc rfl rfl (.inl rfl) rfl rfl rfl rfl (fun _ => id) rfl Bool.noConfusion
  case sleepCheck | sleepAvail =>
    obtain ⟨_, ⟨_, _, rfl⟩, rfl⟩ := h
    exact .other hpc rfl rfl (.inl rfl) rfl rfl rfl rfl (fun _ => id) rfl Bool.noConfusion
  case debugLocal | restart | debugReady =>
    obtain ⟨_, _, rfl⟩ := h
    exact .other hpc rfl rfl (.inl rfl) rfl rfl rfl rfl (fun _ => id) rfl Bool.noConfusion
  case startPipe =>
    obtain ⟨_, _, rfl⟩ := h
    exact .other hpc rfl rfl (.inl rfl) rfl rfl rfl rfl (fun _ => id) rfl (fun _ => rfl)
  case choose =>
    cases h
    exact .other hpc rfl rfl (.inl rfl) rfl rfl rfl rfl (fun _ => id) rfl (fun _ => rfl)
  case returned => cases h
  case loadCheck | loadAvail | loadFailed | checkFailed =>
    cases h
    split <;> exact .other hpc rfl rfl (.inl rfl) rfl rfl rfl rfl (fun _ => id) rfl Bool.noConfusion
  case readLocalHit =>
    split at h
    · cases h
    · cases h
      split <;> exact .other hpc rfl rfl (.inl rfl) rfl rfl rfl rfl (fun _ => id) rfl Bool.noConfusion
  case readAlternateHit =>
    split at h
    · cases h
    · cases h
      exact .other hpc rfl rfl (.inl rfl) rfl rfl rfl rfl (fun _ => id) rfl Bool.noConfusion
  case dispatch =>
    cases h
    split
    · split <;> exact .other hpc rfl rfl (.inl rfl) rfl rfl rfl rfl (fun _ => id) rfl Bool.noConfusion
    · exact .other hpc rfl rfl (.inl rfl) rfl rfl rfl rfl (fun _ => id) rfl Bool.noConfusion
  case fullObj =>
    split at h
    · cases h
      exact .other hpc rfl rfl (.inl rfl) rfl rfl rfl rfl (fun _ => id) rfl Bool.noConfusion
    · obtain ⟨_, _, rfl⟩ := map_eq_ok_iff.1 h
      exact .other hpc rfl rfl (.inl rfl) rfl rfl rfl rfl (fun _ => id) rfl Bool.noConfusion
    · obtain ⟨_, _, rfl⟩ := map_eq_ok_iff.1 h
      split <;> exact .other hpc rfl rfl (.inl rfl) rfl rfl rfl rfl (fun _ => id) rfl Bool.noConfusion
  case markHit =>
    split at h
    all_goals
      obtain ⟨s₁, hs₁, rfl⟩ := map_eq_ok_iff.1 h
      obtain ⟨_, rfl⟩ := setPeerHit_eq_ok.1 hs₁
      split <;> exact .other hpc rfl rfl (.inr ⟨_, rfl⟩) rfl rfl rfl rfl (fun _ => id) rfl Bool.noConfusion
  case tooManyFailed =>
    cases h
    exact .other hpc rfl rfl (.inl rfl) rfl rfl rfl rfl (fun _ => Bool.noConfusion) rfl Bool.noConfusion
  case handleChunk =>
    cases h
    exact .other hpc rfl rfl (.inl rfl) rfl rfl rfl rfl
      (fun i (hi : decide (i < 0) = true) => absurd (of_decide_eq_true hi) (Nat.not_lt_zero i)) rfl Bool.noConfusion
  all_goals
    cases h
    exact .other hpc rfl rfl (.inl rfl) rfl rfl rfl rfl (fun _ => id) rfl Bool.noConfusion

end

/-! ## The hits of the current call -/

/-- The check of the current call has counted a hit. -/
def Checker.counts (e : Env) (s : State) (c : Checker) : Bool :=
  decide (c.round = s.nFrontendMain) && c.pc.counted (e.check c.round c.chunkIdx)

structure HitsInv (p : Param) (e : Env) (s : State) : Prop where
  counted : s.peer.nPeerHit ≤ s.checkers.countP (Checker.counts e s)
  small : ∀ c ∈ s.checkers, c.counts e s = true → c.chunkIdx < p.ECN
  marked : ∀ c ∈ s.checkers, c.round = s.nFrontendMain →
    c.pc.reported (e.check c.round c.chunkIdx) = true → s.peer.isPeerHit[c.chunkIdx]? = some true
  passed : ∀ i < p.ECN, i < s.peer.isPeerHit.length → s.main.passed i = true →
    i ∈ s.fetchers.map (·.chunkIdx) ∨ Missed s i
  notMissed : s.answer = none → ∀ c ∈ s.checkers, c.counts e s = true → ¬ Missed s c.chunkIdx
  answered : s.answer ≠ none → s.main.answered = true
  fetched : s.answer = some (.chunk true) → ∃ idxs : List Nat, idxs.Nodup ∧ p.ECK ≤ idxs.length ∧
    ∀ i ∈ idxs, i < p.ECN ∧ i ∈ s.fetchers.map (·.chunkIdx) ∧
      ∃ c ∈ s.checkers, c.round = s.nFrontendMain ∧ c.chunkIdx = i ∧
        c.pc.reported (e.check c.round c.chunkIdx) = true

section
variable {p : Param} {e : Env} {s s' : State} {n i : Nat} {t : Tid} {c : Checker}

theorem CheckPc.reported_of_counted {pc : CheckPc} {reply : Option CheckReply}
    (h : pc.counted reply = true) : pc.reported reply = true := by
  cases pc <;> simp_all

theorem Checker.counts_iff : c.counts e s = true ↔
    c.round = s.nFrontendMain ∧ c.pc.counted (e.check c.round c.chunkIdx) = true := by
  rw [Checker.counts, Bool.and_eq_true, decide_eq_true_eq]

/-- The chunks of the counted hits are different ones. -/
theorem RoundOk.nodup_counts (hR : RoundOk p e s) :
    ((s.checkers.filter (Checker.counts e s)).map (·.chunkIdx)).Nodup := by
  have hasking : asking s =
      (s.checkers.filter fun c => decide (c.round = s.nFrontendMain)).map (·.chunkIdx) := by
    rw [← List.filterMap_eq_map', List.filterMap_filter, asking]
    simp only [decide_eq_true_eq]
  have hsub : (s.checkers.filter (Checker.counts e s)).Sublist
      (s.checkers.filter fun c => decide (c.round = s.nFrontendMain)) :=
    List.monotone_filter_right _ fun c hc => (Bool.and_eq_true_iff.1 hc).1
  exact (hasking ▸ hR.started.nodup).sublist (hsub.map _)

/-- `handleChunk` answers. -/
theorem HitsInv.fetched_of_answer (hI : HitsInv p e s) (hR : RoundOk p e s) (hpc : s.main = .answer)
    (hle : p.ECK ≤ s.peer.nPeerHit) : ∃ idxs : List Nat, idxs.Nodup ∧ p.ECK ≤ idxs.length ∧
      ∀ i ∈ idxs, i < p.ECN ∧ i ∈ s.fetchers.map (·.chunkIdx) ∧
        ∃ c ∈ s.checkers, c.round = s.nFrontendMain ∧ c.chunkIdx = i ∧
          c.pc.reported (e.check c.round c.chunkIdx) = true := by
  have hnone : s.answer = none := by
    by_contra h
    have := hI.answered h
    rw [hpc] at this
    cases this
  refine ⟨(s.checkers.filter (Checker.counts e s)).map (·.chunkIdx), hR.nodup_counts, ?_, ?_⟩
  · rw [List.length_map, ← List.countP_eq_length_filter]
    exact Nat.le_trans hle hI.counted
  · intro i hi
    obtain ⟨c, hc, rfl⟩ := List.mem_map.1 hi
    obtain ⟨hmem, hcounts⟩ := List.mem_filter.1 hc
    obtain ⟨hround, hcounted⟩ := Checker.counts_iff.1 hcounts
    have hrep := CheckPc.reported_of_counted hcounted
    have hsmall := hI.small c hmem hcounts
    have hlen := (List.getElem?_eq_some_iff.1 (hI.marked c hmem hround hrep)).1
    refine ⟨hsmall, ?_, c, hmem, hround, rfl, hrep⟩
    exact (hI.passed _ hsmall hlen (by rw [hpc]; rfl)).resolve_right
      (hI.notMissed hnone c hmem hcounts)

/-- Before `handleChunk` answers nothing has been answered. -/
theorem HitsInv.answer_eq_none (hI : HitsInv p e s) (hpc : s.main.answered = false) :
    s.answer = none := by
  by_contra h
  exact nomatch hpc.symm.trans (hI.answered h)

/-- `FrontendMain` is called. -/
theorem HitsInv.call (hI : HitsInv p e s) (hR : RoundOk p e s) (hpc : s.main = .frontendMain)
    (hzero : s.peer.nPeerHit = 0) {pc : MainPc} (hpc' : pc = .returned ∨ pc = .resetCheck) (k : Nat) :
    HitsInv p e { s with nFrontendMain := s.nFrontendMain + 1, localECIdx := k, main := pc } := by
  have hnone : s.answer = none := hI.answer_eq_none (by rw [hpc]; rfl)
  have hold : ∀ c ∈ s.checkers, c.round ≠ s.nFrontendMain + 1 := by
    intro c hc
    have := hR.round c hc
    omega
  refine ⟨?_, ?_, ?_, ?_, ?_, ?_, ?_⟩
  · rw [hzero]
    exact Nat.zero_le _
  · exact fun c hc h => absurd (Checker.counts_iff.1 h).1 (hold c hc)
  · exact fun c hc h => absurd h (hold c hc)
  · obtain rfl | rfl := hpc'
    · nofun
    · nofun
  · exact fun _ c hc h => absurd (Checker.counts_iff.1 h).1 (hold c hc)
  · exact fun h => absurd hnone h
  · exact fun h => nomatch hnone.symm.trans h

theorem mem_asking (hc : c ∈ s.checkers) (hround : c.round = s.nFrontendMain) :
    c.chunkIdx ∈ asking s := by
  refine List.mem_filterMap.2 ⟨c, hc, ?_⟩
  rw [if_pos hround]

theorem mainStep_hitsInv (hI : HitsInv p e s) (hR : RoundOk p e s) (h : mainStep p e s = .ok s')
    (hC : s.main = .frontendMain → s.peer.nPeerHit = 0) : HitsInv p e s' := by
  have hstarted := hR.started
  cases mainStep_hits h with
  | call hpc pc hpc' k hs =>
    subst hs
    exact hI.call hR hpc (hC hpc) hpc' k
  | make hpc hs =>
    subst hs
    rw [hpc] at hstarted
    have hnone := hI.answer_eq_none (by rw [hpc]; rfl)
    refine ⟨hI.counted, hI.small, ?_, nofun, ?_, fun h => absurd hnone h,
      fun h => nomatch hnone.symm.trans h⟩
    · intro c hc hround
      have hmem : c.chunkIdx ∈ asking s := mem_asking hc hround
      rw [show asking s = [] from hstarted] at hmem
      exact nomatch hmem
    · intro hnone c hc hcounts hmissed
      exact hI.notMissed hnone c hc hcounts (hmissed.imp nofun id)
  | check i hpc hs =>
    subst hs
    rw [hpc] at hstarted
    have hnone := hI.answer_eq_none (by rw [hpc]; rfl)
    have hnew : Checker.counts e s ⟨s.nFrontendMain, i, .request⟩ = false := Bool.and_false _
    refine ⟨?_, ?_, ?_, nofun, ?_, fun h => absurd hnone h, fun h => nomatch hnone.symm.trans h⟩
    · change _ ≤ (s.checkers ++ [_]).countP (Checker.counts e s)
      rw [List.countP_append]
      exact Nat.le_trans hI.counted (Nat.le_add_right _ _)
    · exact forall_started hI.small fun h => nomatch hnew.symm.trans h
    · refine forall_started (fun c hc hround hrep => ?_) (fun _ h => nomatch h)
      have hmem : c.chunkIdx ∈ asking s := mem_asking hc hround
      rw [hstarted.2] at hmem
      have hlt := List.mem_range.1 (List.mem_filter.1 hmem).1
      rw [List.getElem?_set_ne (Nat.ne_of_gt hlt)]
      exact hI.marked c hc hround hrep
    · intro hnone
      refine forall_started (fun c hc hcounts hmissed => ?_) fun h => nomatch hnew.symm.trans h
      exact hI.notMissed hnone c hc hcounts (hmissed.imp nofun id)
  | fetch i hpc hi hs =>
    subst hs
    have hnone := hI.answer_eq_none (by rw [hpc]; rfl)
    refine ⟨hI.counted, hI.small, hI.marked, ?_, ?_, fun h => absurd hnone h,
      fun h => nomatch hnone.symm.trans h⟩
    · intro j hj hlen hlt
      rw [List.map_append, List.mem_append]
      obtain hlt | rfl := Nat.lt_succ_iff_lt_or_eq.1 (of_decide_eq_true hlt)
      · obtain hmem | hmissed := hI.passed j hj hlen (by rw [hpc]; exact decide_eq_true hlt)
        · exact .inl (.inl hmem)
        · refine .inr (hmissed.imp (fun h => ?_) id)
          rw [hpc] at h
          exact nomatch h
      · exact .inl (.inr (List.mem_singleton.2 rfl))
    · intro hnone c hc hcounts hmissed
      exact hI.notMissed hnone c hc hcounts (hmissed.imp nofun id)
  | miss i hpc hi hs =>
    subst hs
    have hnone := hI.answer_eq_none (by rw [hpc]; rfl)
    refine ⟨hI.counted, hI.small, hI.marked, ?_, ?_, fun h => absurd hnone h,
      fun h => nomatch hnone.symm.trans h⟩
    · intro j hj hlen hlt
      refine (hI.passed j hj hlen (by rw [hpc]; exact hlt)).imp id (Or.imp (fun h => ?_) id)
      rw [hpc] at h
      exact nomatch h
    · -- a counted hit is still in `IsPeerHit`
      rintro hnone c hc hcounts (hmissing | hmem)
      · obtain ⟨hround, hcounted⟩ := Checker.counts_iff.1 hcounts
        have hmarked := hI.marked c hc hround (CheckPc.reported_of_counted hcounted)
        rw [← Option.some.inj hmissing, hi] at hmarked
        exact nomatch hmarked
      · exact hI.notMissed hnone c hc hcounts (.inr hmem)
  | pass i hpc hi hs =>
    subst hs
    have hnone := hI.answer_eq_none (by rw [hpc]; rfl)
    refine ⟨hI.counted, hI.small, hI.marked, ?_, ?_, fun h => absurd hnone h,
      fun h => nomatch hnone.symm.trans h⟩
    · intro j hj hlen _
      have hlt : j < i := Nat.lt_of_lt_of_le hj hi
      refine (hI.passed j hj hlen (by rw [hpc]; exact decide_eq_true hlt)).imp id
        (Or.imp (fun h => ?_) id)
      rw [hpc] at h
      exact nomatch h
    · intro hnone c hc hcounts hmissed
      exact hI.notMissed hnone c hc hcounts (hmissed.imp nofun id)
  | append i hpc m hs =>
    subst hs
    have hnone := hI.answer_eq_none (by rw [hpc]; rfl)
    have hmissed : ∀ j, Missed s j ↔ j ∈ s.chunk.missingPChunkIdx ++ [i] := by
      intro j
      rw [Missed, hpc, List.mem_append, List.mem_singleton, or_comm]
      exact or_congr_right ⟨fun h => (Option.some.inj h).symm, fun h => congrArg some h.symm⟩
    refine ⟨hI.counted, hI.small, hI.marked, ?_, ?_, fun h => absurd hnone h,
      fun h => nomatch hnone.symm.trans h⟩
    · intro j hj hlen hlt
      obtain hlt | rfl := Nat.lt_succ_iff_lt_or_eq.1 (of_decide_eq_true hlt)
      · refine (hI.passed j hj hlen (by rw [hpc]; exact decide_eq_true hlt)).imp id fun h => ?_
        exact .inr ((hmissed j).1 h)
      · exact .inr (.inr (List.mem_append_right _ (List.mem_singleton.2 rfl)))
    · rintro hnone c hc hcounts (h | h)
      · exact nomatch h
      · exact hI.notMissed hnone c hc hcounts ((hmissed _).2 h)
  | fetched i hpc hi hs =>
    subst hs
    have hnone := hI.answer_eq_none (by rw [hpc]; rfl)
    refine ⟨hI.counted, hI.small, hI.marked, ?_, ?_, fun h => absurd hnone h,
      fun h => nomatch hnone.symm.trans h⟩
    · intro j hj hlen _
      have hlt : j < i := Nat.lt_of_lt_of_le hlen hi
      refine (hI.passed j hj hlen (by rw [hpc]; exact decide_eq_true hlt)).imp id
        (Or.imp (fun h => ?_) id)
      rw [hpc] at h
      exact nomatch h
    · intro hnone c hc hcounts hmissed
      exact hI.notMissed hnone c hc hcounts (hmissed.imp nofun id)
  | answer hpc hs =>
    subst hs
    refine ⟨hI.counted, hI.small, hI.marked, nofun, nofun, fun _ => rfl, fun h => ?_⟩
    have hle : p.ECK ≤ s.peer.nPeerHit := of_decide_eq_true (Answer.chunk.inj (Option.some.inj h))
    exact hI.fetched_of_answer hR hpc hle
  | answerFull hit hpc hs =>
    subst hs
    exact ⟨hI.counted, hI.small, hI.marked, nofun, nofun, fun _ => rfl, nofun⟩
  | other hpc hn hp hh hc hf hm ha hpassed hmissing hanswered =>
    subst hpc
    have hcounts : Checker.counts e s' = Checker.counts e s := by
      funext c
      rw [Checker.counts, Checker.counts, hn]
    have hmissed : ∀ i, Missed s' i ↔ Missed s i := by
      intro i
      rw [Missed, Missed, hmissing, hm]
    refine ⟨?_, ?_, ?_, ?_, ?_, ?_, ?_⟩
    · rw [hp, hc, hcounts]
      exact hI.counted
    · rw [hc, hcounts]
      exact hI.small
    · rw [hc, hn]
      intro c hc hround hrep
      have hmarked := hI.marked c hc hround hrep
      obtain hh | ⟨i, hh⟩ := hh
      · rw [hh]
        exact hmarked
      · rw [hh, List.getElem?_set]
        split
        · next hi =>
          rw [if_pos (hi ▸ (List.getElem?_eq_some_iff.1 hmarked).1)]
        · exact hmarked
    · intro i hi hlen hpc'
      rw [hf, hmissed]
      refine hI.passed i hi ?_ (hpassed i hpc')
      obtain hh | ⟨j, hh⟩ := hh
      · rwa [hh] at hlen
      · rwa [hh, List.length_set] at hlen
    · rw [ha, hc, hcounts]
      intro hnone c hc hcounts
      rw [hmissed]
      exact hI.notMissed hnone c hc hcounts
    · rw [ha]
      exact fun h => hanswered (hI.answered h)
    · rw [ha, hf, hc, hn]
      exact hI.fetched

variable {pc' : CheckPc} {q' : Peer} {m' : Monitor Tid}

/-- What a counted hit rests on: it was counted before, or it is being counted. -/
theorem CheckUsable.of_counted (hU : CheckUsable p s c)
    (heff : CheckEffect p (e.check c.round c.chunkIdx) c.chunkIdx c.pc pc' s.peer q')
    (h : pc'.counted (e.check c.round c.chunkIdx) = true) :
    c.pc.counted (e.check c.round c.chunkIdx) = true ∨
      c.round = s.nFrontendMain ∧ c.chunkIdx < p.ECN ∧ (s.answer = none → ¬ Missed s c.chunkIdx) := by
  cases hold : c.pc.counted (e.check c.round c.chunkIdx) with
  | true => exact .inl rfl
  | false =>
    obtain ⟨ty, hpc⟩ := heff.counts hold h
    exact .inr (hU.1 (by rw [hpc]; rfl))

theorem HitsInv.counted_moved (hI : HitsInv p e s) (hc : s.checkers[n]? = some c)
    (heff : CheckEffect p (e.check c.round c.chunkIdx) c.chunkIdx c.pc pc' s.peer q')
    (hU : CheckUsable p s c) :
    q'.nPeerHit ≤ (s.checkers.set n { c with pc := pc' }).countP (Checker.counts e s) := by
  have hcount := countP_moved (q := Checker.counts e s) (b := { c with pc := pc' }) hc
  have hnum := heff.nPeerHit
  have hle := hI.counted
  by_cases hround : c.round = s.nFrontendMain
  · simp only [Checker.counts, decide_eq_true hround, Bool.true_and] at hcount hle ⊢
    omega
  · have hzero (pc : CheckPc) : Checker.counts e s { c with pc := pc } = false := by
      rw [Checker.counts, decide_eq_false hround, Bool.false_and]
    have hkeep : (pc'.counted (e.check c.round c.chunkIdx)).toNat ≤
        (c.pc.counted (e.check c.round c.chunkIdx)).toNat := by
      cases hnew : pc'.counted (e.check c.round c.chunkIdx) with
      | false => exact Nat.zero_le _
      | true =>
        obtain hold | ⟨hcur, _⟩ := hU.of_counted heff hnew
        · exact Nat.le_of_eq (by rw [hold])
        · exact absurd hcur hround
    rw [hzero pc', show Checker.counts e s c = false from hzero c.pc] at hcount
    omega

/-- The hits of the current call stay in `IsPeerHit`. -/
theorem HitsInv.marked_moved (hI : HitsInv p e s) (hR : RoundOk p e s)
    (hc : s.checkers[n]? = some c)
    (heff : CheckEffect p (e.check c.round c.chunkIdx) c.chunkIdx c.pc pc' s.peer q')
    (hU : CheckUsable p s c) :
    ∀ d ∈ s.checkers.set n { c with pc := pc' }, d.round = s.nFrontendMain →
      d.pc.reported (e.check d.round d.chunkIdx) = true →
      q'.isPeerHit[d.chunkIdx]? = some true := by
  intro d hd hround hrep
  obtain ⟨k, hk⟩ := List.mem_iff_getElem?.1 hd
  have hlen := hR.inBounds hc
  obtain ⟨rfl, rfl⟩ | ⟨hkn, hk⟩ := getElem?_moved hk
  · obtain ⟨hh, hsame⟩ | ⟨r, _, hh, hnew⟩ := heff.isPeerHit
    · rw [hh]
      exact hI.marked c (List.mem_of_getElem? hc) hround (hsame ▸ hrep)
    · rw [hh, List.getElem?_set_self hlen, ← hnew]
      exact congrArg some hrep
  · have hmarked := hI.marked d (List.mem_of_getElem? hk) hround hrep
    obtain ⟨hh, _⟩ | ⟨r, hpc, hh, _⟩ := heff.isPeerHit
    · rw [hh]
      exact hmarked
    · rw [hh]
      by_cases hidx : c.chunkIdx = d.chunkIdx
      · rw [← hidx, List.getElem?_set_self hlen]
        cases hr : r.cacheHit with
        | true => rfl
        | false =>
          by_cases hcur : c.round = s.nFrontendMain
          · refine absurd (eq_of_nodup_filterMap (y := d.chunkIdx) hR.started.nodup hk hc ?_ ?_) hkn
            · rw [if_pos hround]
            · rw [if_pos hcur, hidx]
          · refine absurd (hidx ▸ hmarked) (hU.2 ?_ hcur)
            rw [hpc, CheckPc.reportsMiss, hr]
            rfl
      · rw [List.getElem?_set_ne hidx]
        exact hmarked

/-- A step of a check. -/
theorem HitsInv.checkStep (hI : HitsInv p e s) (hR : RoundOk p e s) (hc : s.checkers[n]? = some c)
    (heff : CheckEffect p (e.check c.round c.chunkIdx) c.chunkIdx c.pc pc' s.peer q')
    (hU : CheckUsable p s c) : HitsInv p e
      { s with checkers := s.checkers.set n { c with pc := pc' }, peer := q', mon := m' } := by
  have hmem := List.mem_of_getElem? hc
  refine ⟨hI.counted_moved hc heff hU, forall_moved hI.small ?_, hI.marked_moved hR hc heff hU,
    ?_, ?_, hI.answered, ?_⟩
  · intro hcounts
    obtain ⟨hround, hcounted⟩ := Checker.counts_iff.1 hcounts
    obtain hold | ⟨_, hlt, _⟩ := hU.of_counted heff hcounted
    · exact hI.small c hmem (Checker.counts_iff.2 ⟨hround, hold⟩)
    · exact hlt
  · intro i hi hlen hpassed
    exact hI.passed i hi (heff.length ▸ hlen) hpassed
  · intro hnone
    refine forall_moved (hI.notMissed hnone) ?_
    intro hcounts
    obtain ⟨hround, hcounted⟩ := Checker.counts_iff.1 hcounts
    obtain hold | ⟨_, _, hmissed⟩ := hU.of_counted heff hcounted
    · exact hI.notMissed hnone c hmem (Checker.counts_iff.2 ⟨hround, hold⟩)
    · exact hmissed hnone
  · intro hans
    obtain ⟨idxs, hnodup, hle, hidxs⟩ := hI.fetched hans
    refine ⟨idxs, hnodup, hle, fun i hi => ?_⟩
    obtain ⟨hlt, hfetch, d, hd, hround, hidx, hrep⟩ := hidxs i hi
    refine ⟨hlt, hfetch, ?_⟩
    by_cases hdc : d = c
    · subst hdc
      exact ⟨{ d with pc := pc' }, List.mem_of_getElem? (getElem?_moved_self hc), hround, hidx,
        heff.reported hrep⟩
    · exact ⟨d, mem_moved hc hd hdc, hround, hidx, hrep⟩

theorem step_hitsInv (hI : HitsInv p e s) (hR : RoundOk p e s) (h : step p e s t = .ok s')
    (hC : CountsUsable p s t) : HitsInv p e s' := by
  cases stepOf h with
  | main hstep => exact mainStep_hitsInv hI hR hstep hC
  | check hc hstep =>
    have hok := hR.check _ (List.mem_of_getElem? hc)
    exact hI.checkStep hR hc (checkStep_effect hstep (hR.inBounds hc) hok) (hC _ hc)
  | @fetch n f pc' _ _ hf hstep =>
    have hmap := map_moved (f := (·.chunkIdx)) (b := { f with pc := pc' }) hf rfl
    have hmiss := fetchStep_missing hstep
    refine ⟨hI.counted, hI.small, hI.marked, ?_, ?_, hI.answered, ?_⟩
    · simp only [hmap, Missed, hmiss]
      exact hI.passed
    · simp only [Missed, hmiss]
      exact hI.notMissed
    · simp only [hmap]
      exact hI.fetched
  | pipe hstep =>
    obtain ⟨_, _, rfl⟩ := pipeStep_eq hstep
    exact ⟨hI.counted, hI.small, hI.marked, hI.passed, hI.notMissed, hI.answered, hI.fetched⟩

theorem start_hitsInv : HitsInv p e Goroutines.start :=
  ⟨Nat.zero_le _, nofun, nofun, nofun, nofun, fun h => absurd rfl h, nofun⟩

/-- The counted hits are of different hosts. -/
theorem HitsInv.hosts (hI : HitsInv p e s) (hR : RoundOk p e s)
    (hinj : ∀ i < p.ECN, ∀ j < p.ECN, e.peerIdx i = e.peerIdx j → i = j) :
    s.peer.nPeerHit ≤ (hitHosts e s).dedup.length := by
  let idxs := (s.checkers.filter (Checker.counts e s)).map (·.chunkIdx)
  have hsmall : ∀ i ∈ idxs, i < p.ECN := by
    intro i hi
    obtain ⟨c, hc, rfl⟩ := List.mem_map.1 hi
    obtain ⟨hmem, hcounts⟩ := List.mem_filter.1 hc
    exact hI.small c hmem hcounts
  have hnodup : (idxs.map e.peerIdx).Nodup :=
    List.Nodup.map_on (fun i hi j hj => hinj i (hsmall i hi) j (hsmall j hj)) hR.nodup_counts
  have hsub : idxs.map e.peerIdx ⊆ (hitHosts e s).dedup := by
    intro host hhost
    obtain ⟨i, hi, rfl⟩ := List.mem_map.1 hhost
    obtain ⟨c, hc, rfl⟩ := List.mem_map.1 hi
    obtain ⟨hmem, hcounts⟩ := List.mem_filter.1 hc
    obtain ⟨hround, hcounted⟩ := Checker.counts_iff.1 hcounts
    refine List.mem_dedup.2 (List.mem_map.2 ⟨c, List.mem_filter.2 ⟨hmem, ?_⟩, rfl⟩)
    rw [decide_eq_true hround, Bool.true_and]
    exact CheckPc.reported_of_counted hcounted
  calc s.peer.nPeerHit ≤ s.checkers.countP (Checker.counts e s) := hI.counted
    _ = (idxs.map e.peerIdx).length := by
      rw [List.length_map, List.length_map, List.countP_eq_length_filter]
    _ ≤ (hitHosts e s).dedup.length := List.Nodup.length_le_of_subset hnodup hsub

/-- **A hit that is answered rests on what the peers have**, in every run in which `nPeerHit` counts
what `handleChunk` can use. -/
theorem hit_sound {ts : List Tid}
    (hinj : ∀ i < p.ECN, ∀ j < p.ECN, e.peerIdx i = e.peerIdx j → i = j)
    (hC : Steps (step p e) (fun s t _ => CountsUsable p s t) ts Goroutines.start)
    (h : run p e ts Goroutines.start = .ok s) : HitSound p e s := by
  have hinv : RoundOk p e s ∧ HitsInv p e s := by
    refine Steps.inv_of_run (I := fun s => RoundOk p e s ∧ HitsInv p e s) ?_
      ⟨start_roundOk, start_hitsInv⟩ hC h
    rintro s t s' ⟨hR, hI⟩ hstep hC
    exact ⟨step_roundOk hR hstep, step_hitsInv hI hR hstep hC⟩
  exact ⟨hinv.2.fetched, hinv.2.hosts hinv.1 hinj⟩

end

/-! ## The previous parity chunk

The first call finds nothing and restarts with an object of chunks. In the second call the hosts of
two chunks and the host of the previous parity chunk have something. -/

def withPrevious : Param := { threeOfFour with mode := .c2dn }

/-- The hosts of `hits` have their chunks in the second call. -/
def secondCall (hits : List Nat) : Env where
  peerIdx i := i
  intn _ := false
  check round i := some ⟨decide (round = 2 ∧ i ∈ hits), .chunk⟩
  full _ := .ok true .chunk
  chunk _ := .ok

/-- The check `n` takes `k` steps. -/
def checks (steps : List (Nat × Nat)) : List Tid := steps.flatMap fun (n, k) => List.replicate k (.check n)

/-- Up to the answer of `handleChunk`, with `second` for the checks of the second call. -/
def twoCalls (second : List (Nat × Nat)) : List Tid :=
  List.replicate 8 .main ++ checks [(0, 4), (1, 4), (2, 4), (3, 5), (4, 5)] ++
    List.replicate 20 .main ++ checks second ++ List.replicate 17 .main ++
    List.replicate 13 (.fetch 0) ++ List.replicate 13 (.fetch 1) ++ List.replicate 14 (.fetch 2) ++
    List.replicate 9 .main

/-- Three data chunks are cached. -/
theorem threeData_sound : ∃ s,
    run withPrevious (secondCall [0, 1, 2])
      (twoCalls [(5, 8), (6, 8), (7, 8), (8, 5), (9, 5)]) start = .ok s ∧
    s.answer = some (.chunk true) ∧ HitSound withPrevious (secondCall [0, 1, 2]) s := by
  obtain ⟨s, hs, hans⟩ := exists_ok_of_any (q := fun s => s.answer = some (.chunk true))
    (x := run withPrevious (secondCall [0, 1, 2])
      (twoCalls [(5, 8), (6, 8), (7, 8), (8, 5), (9, 5)]) start) (by decide +kernel)
  refine ⟨s, hs, of_decide_eq_true hans, hit_sound ?_ (by decide +kernel) hs⟩
  exact fun _ _ _ _ h => Int.ofNat.inj h

/-- The hosts of chunks 0 and 1 and the previous parity host are counted. -/
theorem previous_not_sound : ∃ s,
    run withPrevious (secondCall [0, 1, 4])
      (twoCalls [(5, 8), (6, 8), (7, 4), (8, 5), (9, 9)]) start = .ok s ∧
    ¬ HitSound withPrevious (secondCall [0, 1, 4]) s := by
  obtain ⟨s, hs, hfound⟩ := exists_ok_of_any
    (q := fun s => decide (s.answer = some (.chunk true)) && s.checkers.all fun c =>
      !c.pc.reported (secondCall [0, 1, 4] |>.check c.round c.chunkIdx) || c.chunkIdx ∈ [0, 1, 4])
    (x := run withPrevious (secondCall [0, 1, 4])
      (twoCalls [(5, 8), (6, 8), (7, 4), (8, 5), (9, 9)]) start) (by decide +kernel)
  obtain ⟨hans, hall⟩ := Bool.and_eq_true_iff.1 hfound
  refine ⟨s, hs, fun h => ?_⟩
  obtain ⟨idxs, hnodup, hle, hidxs⟩ := h.fetched (of_decide_eq_true hans)
  have hsub : idxs ⊆ [0, 1] := by
    intro i hi
    obtain ⟨hlt, _, c, hc, _, rfl, hrep⟩ := hidxs i hi
    have hmem := List.all_eq_true.1 hall c hc
    rw [hrep, Bool.not_true, Bool.false_or] at hmem
    exact (show ∀ i ∈ [0, 1, 4], i < 4 → i ∈ [0, 1] by decide) _ (of_decide_eq_true hmem) hlt
  exact absurd (Nat.le_trans hle (List.Nodup.length_le_of_subset hnodup hsub)) (by decide)

end C2DN.Frontend.Goroutines
