import C2DN.Lib.Pool
import C2DN.Frontend.Goroutines

/-!
# Who holds the mutex of a transaction

The goroutines of a transaction are in a critical section one at a time, in every state that a run
reaches. A step of one goroutine leaves the places of the others alone.
-/

namespace C2DN.Frontend.Goroutines

open Monitor

/-- The places between `Mtx.Lock` and `Mtx.Unlock`. -/
def CheckPc.critical : CheckPc → Bool
  | .setType _ | .debugType | .unlockType => true
  | _ => false

def FetchPc.critical : FetchPc → Bool
  | .get | .store | .mark | .count | .countData | .loadFailed | .loadAvailable _ | .signal | .unlock
  | .discard | .unlockDiscard => true
  | _ => false

def MainPc.critical : MainPc → Bool
  | .loadCheck | .waitCheck | .unlockCheck | .missAppend _ | .loadAvail | .loadFailed | .waitAvail
  | .unlockAvail | .setFinish | .unlockFinish => true
  | _ => false

def State.Critical (s : State) : Tid → Prop
  | .main => s.main.critical
  | .check n => ∃ c, s.checkers[n]? = some c ∧ c.pc.critical
  | .fetch n => ∃ f, s.fetchers[n]? = some f ∧ f.pc.critical
  | .pipe => False

section
variable {p : Param} {e : Env} {s s' : State} {n i : Nat} {t : Tid} {m m' : Monitor Tid}

@[simp] theorem appendDebugString_eq_ok {u : Unit} :
    appendDebugString p m = .ok u ↔ (p.debug = true → m.holder = none) := by
  unfold appendDebugString
  split
  · simp_all
  · simp_all

theorem checkStep_move {reply : Option CheckReply} {pc pc' : CheckPc} {q q' : Peer}
    (h : checkStep p reply t i pc q m = .ok (pc', q', m')) :
    Move t (pc.critical = true) (pc'.critical = true) m m' := by
  cases pc
  all_goals
    simp only [checkStep, map_eq_ok_iff, lock_eq_ok, unlock_eq_ok, appendDebugString_eq_ok] at h
  case request =>
    cases reply
    all_goals cases h; exact .keep rfl id
  case report r =>
    split at h
    · cases h
      exact .keep rfl (by split <;> exact id)
    · cases h
      exact .keep rfl id
  case count => cases h; exact .keep rfl id
  case lockType =>
    obtain ⟨_, ⟨hm, rfl⟩, h⟩ := h
    cases h
    exact .enter hm rfl
  case setType =>
    split at h
    all_goals cases h; exact .keep rfl fun _ => rfl
  case debugType =>
    obtain ⟨_, _, h⟩ := h
    cases h
    exact .keep rfl fun _ => rfl
  case unlockType =>
    obtain ⟨_, ⟨hm, rfl⟩, h⟩ := h
    cases h
    exact .leave rfl Bool.false_ne_true
  case finish => cases h; exact .keep rfl (by split <;> exact id)
  case signal => cases h; exact .keep rfl id
  case debugEnd =>
    obtain ⟨_, _, h⟩ := h
    cases h
    exact .keep rfl id
  case returned => cases h

theorem fetchStep_move {reply : ChunkReply} {pc pc' : FetchPc} {c c' : Chunks}
    (h : fetchStep p reply n i pc c m = .ok (pc', c', m')) :
    Move (.fetch n) (pc.critical = true) (pc'.critical = true) m m' := by
  cases pc
  all_goals
    simp only [fetchStep, map_eq_ok_iff, lock_eq_ok, unlock_eq_ok, appendDebugString_eq_ok] at h
  case start =>
    split at h
    · cases h
      exact .keep rfl (by split <;> exact id)
    · cases h
  case spin | check => cases h; exact .keep rfl (by split <;> exact id)
  case request =>
    cases reply
    all_goals cases h; exact .keep rfl id
  case skip => cases h; exact .keep rfl id
  case debugSkip | debugFetch =>
    obtain ⟨_, _, h⟩ := h
    cases h
    exact .keep rfl id
  case lock =>
    obtain ⟨_, ⟨hm, rfl⟩, h⟩ := h
    cases h
    exact .enter hm rfl
  case unlock | unlockDiscard =>
    obtain ⟨_, ⟨hm, rfl⟩, h⟩ := h
    cases h
    exact .leave rfl Bool.false_ne_true
  case returned => cases h
  all_goals cases h; exact .keep rfl fun _ => rfl

theorem fetchStep_missing {reply : ChunkReply} {pc pc' : FetchPc} {c c' : Chunks}
    (h : fetchStep p reply n i pc c m = .ok (pc', c', m')) :
    c'.missingPChunkIdx = c.missingPChunkIdx := by
  cases pc
  all_goals
    simp only [fetchStep, map_eq_ok_iff, lock_eq_ok, unlock_eq_ok, appendDebugString_eq_ok] at h
  case start => split at h <;> cases h; rfl
  case request =>
    cases reply
    all_goals cases h; rfl
  case lock | unlock | unlockDiscard | debugSkip | debugFetch =>
    obtain ⟨_, _, h⟩ := h
    cases h
    rfl
  case returned => cases h
  all_goals cases h; rfl

/-- What a step of `FrontendMain` does to the chunks and the goroutines that fetch them. -/
inductive MainChunks (p : Param) (s s' : State) : Prop
  | same (hc : s'.chunk = s.chunk) (hf : s'.fetchers = s.fetchers)
  | make (hpc : s.main = .handleChunk) (hf : s'.fetchers = s.fetchers)
    (hc : s'.chunk = { s.chunk with
      resps := List.replicate (p.ECN + 1) none, isAvailable := List.replicate (p.ECN + 1) false })
  | fetch (i : Nat) (hpc : s.main = .fetchLoop i) (hi : i < p.ECN) (hc : s'.chunk = s.chunk)
    (hf : s'.fetchers = s.fetchers ++ [⟨i, .start⟩])
  | miss (i : Nat) (hf : s'.fetchers = s.fetchers)
    (hc : s'.chunk = { s.chunk with missingPChunkIdx := s.chunk.missingPChunkIdx ++ [i] })
  | finish (hpc : s.main = .setFinish) (hf : s'.fetchers = s.fetchers)
    (hc : s'.chunk = { s.chunk with finished := true })
  | failed (hpc : s.main = .tooManyFailed) (hf : s'.fetchers = s.fetchers)

/-- What a step of `FrontendMain` does to the mutex and to the other goroutines: it starts one at
most. -/
structure MainFrame (p : Param) (s s' : State) : Prop where
  move : Move .main (s.main.critical = true) (s'.main.critical = true) s.mon s'.mon
  checkers : s'.checkers = s.checkers ∨
    ∃ i, s'.checkers = s.checkers ++ [⟨s.nFrontendMain, i, .request⟩]
  chunks : MainChunks p s s'

theorem setPeerHit_eq_ok : s.setPeerHit i = .ok s' ↔ i < s.peer.isPeerHit.length ∧
    { s with peer := { s.peer with isPeerHit := s.peer.isPeerHit.set i true } } = s' := by
  unfold State.setPeerHit
  split
  case isTrue hi => simp [hi]
  case isFalse hi => simp [hi]

theorem MainChunks.fetchers (h : MainChunks p s s') :
    s'.fetchers = s.fetchers ∨ ∃ i, s'.fetchers = s.fetchers ++ [⟨i, .start⟩] := by
  cases h with
  | same _ hf | make _ hf | miss _ hf | finish _ hf | failed _ hf => exact .inl hf
  | fetch i _ _ _ hf => exact .inr ⟨i, hf⟩

theorem mainStep_frame (h : mainStep p e s = .ok s') : MainFrame p s s' := by
  cases hpc : s.main
  all_goals
    simp only [mainStep, hpc, map_eq_ok_iff, lock_eq_ok, unlock_eq_ok, wait_eq_ok, wake_eq_ok,
      appendDebugString_eq_ok] at h
  case lockCheck | missLock | lockAvail | lockFinish =>
    obtain ⟨_, ⟨hm, rfl⟩, rfl⟩ := h
    exact ⟨.enter hm rfl, .inl rfl, .same rfl rfl⟩
  case sleepCheck | sleepAvail =>
    obtain ⟨_, ⟨_, hm, rfl⟩, rfl⟩ := h
    exact ⟨.enter hm rfl, .inl rfl, .same rfl rfl⟩
  case missAppend i =>
    obtain ⟨_, ⟨_, rfl⟩, rfl⟩ := h
    exact ⟨.leave (by rw [hpc]; rfl) Bool.false_ne_true, .inl rfl, .miss i rfl rfl⟩
  case unlockCheck | unlockAvail | unlockFinish | waitCheck | waitAvail =>
    obtain ⟨_, ⟨_, rfl⟩, rfl⟩ := h
    exact ⟨.leave (by rw [hpc]; rfl) Bool.false_ne_true, .inl rfl, .same rfl rfl⟩
  case debugLocal | restart | debugReady | startPipe =>
    obtain ⟨_, _, rfl⟩ := h
    exact ⟨.keep rfl (by rw [hpc]; exact id), .inl rfl, .same rfl rfl⟩
  case loadCheck | loadAvail | loadFailed =>
    cases h
    exact ⟨.keep rfl (by rw [hpc]; exact fun _ => rfl), .inl rfl, .same rfl rfl⟩
  case frontendMain | serveFull =>
    split at h
    all_goals try split at h
    all_goals cases h; exact ⟨.keep rfl (by rw [hpc]; exact id), .inl rfl, .same rfl rfl⟩
  case startCheck i =>
    split at h
    · split at h
      · cases h
        exact ⟨.keep rfl (by rw [hpc]; exact id), .inl rfl, .same rfl rfl⟩
      · cases h
        exact ⟨.keep rfl (by rw [hpc]; exact id), .inr ⟨_, rfl⟩, .same rfl rfl⟩
    · cases h
      exact ⟨.keep rfl (by rw [hpc]; exact id), .inl rfl, .same rfl rfl⟩
  case readLocalHit =>
    split at h
    · cases h
    · cases h
      exact ⟨.keep rfl (by rw [hpc]; dsimp only; split <;> exact id), .inl rfl, .same rfl rfl⟩
  case readAlternateHit =>
    split at h
    · cases h
    · cases h
      exact ⟨.keep rfl (by rw [hpc]; exact id), .inl rfl, .same rfl rfl⟩
  case dispatch =>
    cases h
    refine ⟨.keep rfl ?_, .inl rfl, .same rfl rfl⟩
    rw [hpc]
    dsimp only
    split
    · split <;> exact id
    · exact id
  case fullObj =>
    split at h
    · cases h
      exact ⟨.keep rfl (by rw [hpc]; exact id), .inl rfl, .same rfl rfl⟩
    · obtain ⟨_, _, rfl⟩ := map_eq_ok_iff.1 h
      exact ⟨.keep rfl (by rw [hpc]; exact id), .inl rfl, .same rfl rfl⟩
    · obtain ⟨_, _, rfl⟩ := map_eq_ok_iff.1 h
      exact ⟨.keep rfl (by rw [hpc]; dsimp only; split <;> exact id), .inl rfl, .same rfl rfl⟩
  case markHit =>
    split at h
    all_goals
      obtain ⟨s₁, hs₁, rfl⟩ := map_eq_ok_iff.1 h
      obtain ⟨_, rfl⟩ := setPeerHit_eq_ok.1 hs₁
      exact ⟨.keep rfl (by rw [hpc]; dsimp only; split <;> exact id), .inl rfl, .same rfl rfl⟩
  case fetchLoop i =>
    split at h
    · cases h
      exact ⟨.keep rfl (by rw [hpc]; exact id), .inl rfl, .same rfl rfl⟩
    · have hfetch (hi : i < p.ECN) : MainFrame p s (s.fetch p i) := by
        refine ⟨.keep rfl (by rw [hpc]; exact id), .inl rfl, .fetch i hpc hi rfl ?_⟩
        rw [State.fetch, Param.fetchIdx, if_neg (Nat.not_le.2 hi)]
      split at h
      · next hi => cases h; exact hfetch (Nat.lt_of_lt_of_le hi p.le)
      · split at h
        · next hi =>
          split at h
          · cases h; exact hfetch hi
          · cases h
            exact ⟨.keep rfl (by rw [hpc]; exact id), .inl rfl, .same rfl rfl⟩
        · cases h
          exact ⟨.keep rfl (by rw [hpc]; exact id), .inl rfl, .same rfl rfl⟩
  case checkFailed =>
    cases h
    exact ⟨.keep rfl (by rw [hpc]; dsimp only; split <;> exact id), .inl rfl, .same rfl rfl⟩
  case setFinish =>
    cases h
    exact ⟨.keep rfl (by rw [hpc]; exact fun _ => rfl), .inl rfl, .finish hpc rfl rfl⟩
  case handleChunk =>
    cases h
    exact ⟨.keep rfl (by rw [hpc]; exact id), .inl rfl, .make hpc rfl rfl⟩
  case tooManyFailed =>
    cases h
    exact ⟨.keep rfl (by rw [hpc]; exact id), .inl rfl, .failed hpc rfl⟩
  case returned => cases h
  all_goals
    cases h
    exact ⟨.keep rfl (by rw [hpc]; exact id), .inl rfl, .same rfl rfl⟩

/-- A step of the transaction is a step of one of its goroutines. -/
inductive StepOf (p : Param) (e : Env) (s : State) : Tid → State → Prop
  | main {s' : State} (h : mainStep p e s = .ok s') : StepOf p e s .main s'
  | check {n : Nat} {c : Checker} {pc : CheckPc} {q : Peer} {m : Monitor Tid}
    (hc : s.checkers[n]? = some c)
    (h : checkStep p (e.check c.round c.chunkIdx) (.check n) c.chunkIdx c.pc s.peer s.mon =
      .ok (pc, q, m)) :
    StepOf p e s (.check n)
      { s with checkers := s.checkers.set n { c with pc := pc }, peer := q, mon := m }
  | fetch {n : Nat} {f : Fetcher} {pc : FetchPc} {c : Chunks} {m : Monitor Tid}
    (hf : s.fetchers[n]? = some f)
    (h : fetchStep p (e.chunk f.chunkIdx) n f.chunkIdx f.pc s.chunk s.mon = .ok (pc, c, m)) :
    StepOf p e s (.fetch n)
      { s with fetchers := s.fetchers.set n { f with pc := pc }, chunk := c, mon := m }
  | pipe {s' : State} (h : pipeStep p s = .ok s') : StepOf p e s .pipe s'

theorem stepOf (h : step p e s t = .ok s') : StepOf p e s t s' := by
  cases t with
  | main => exact .main h
  | pipe => exact .pipe h
  | check n =>
    simp only [step] at h
    split at h
    · cases h
    · next c hc =>
      obtain ⟨⟨pc, q, m⟩, hstep, rfl⟩ := map_eq_ok h
      exact .check hc hstep
  | fetch n =>
    simp only [step] at h
    split at h
    · cases h
    · next f hf =>
      obtain ⟨⟨pc, c, m⟩, hstep, rfl⟩ := map_eq_ok h
      exact .fetch hf hstep

/-- What the goroutine that sends the object changes: it notes the bodies that it closes. -/
theorem pipeStep_eq (h : pipeStep p s = .ok s') : ∃ pipe closed,
    s' = { s with pipe := pipe, chunk := { s.chunk with closed := closed } } := by
  unfold pipeStep at h
  split at h
  · obtain ⟨_, _, rfl⟩ := map_eq_ok_iff.1 h
    exact ⟨_, s.chunk.closed, rfl⟩
  · split at h
    · split at h
      · cases h; exact ⟨_, _, rfl⟩
      · cases h
    · cases h; exact ⟨_, s.chunk.closed, rfl⟩
    · cases h
    · cases h; exact ⟨_, s.chunk.closed, rfl⟩
  · cases h
  · cases h

/-! ## Mutual exclusion -/

/-- One goroutine at most is in a critical section, and it holds `Mtx`. -/
def MutexHeld (s : State) : Prop := Guarded s.Critical s.mon

theorem mutexHeld_of_alone (hmain : s.main.critical = false) (hchecks : s.checkers = [])
    (hfetches : s.fetchers = []) : MutexHeld s := by
  rintro (_ | n | n | _) h
  · exact nomatch hmain.symm.trans h
  · obtain ⟨_, h, _⟩ := h
    rw [hchecks] at h
    cases h
  · obtain ⟨_, h, _⟩ := h
    rw [hfetches] at h
    cases h
  · exact h.elim

theorem step_mutexHeld (hI : MutexHeld s) (h : step p e s t = .ok s') : MutexHeld s' := by
  cases stepOf h with
  | main h =>
    obtain ⟨hmove, hcheckers, hchunks⟩ := mainStep_frame h
    refine Guarded.move (t := .main) hI hmove ?_
    -- a goroutine that has just been started is outside the critical sections
    rintro (_ | n | n | _) hu hcrit
    · exact absurd rfl hu
    · obtain ⟨c, hc, hpc⟩ := hcrit
      obtain h | ⟨i, h⟩ := hcheckers
      · exact ⟨c, h ▸ hc, hpc⟩
      · obtain hc | ⟨_, rfl⟩ := getElem?_started (h ▸ hc)
        · exact ⟨c, hc, hpc⟩
        · cases hpc
    · obtain ⟨f, hf, hpc⟩ := hcrit
      obtain h | ⟨i, h⟩ := hchunks.fetchers
      · exact ⟨f, h ▸ hf, hpc⟩
      · obtain hf | ⟨_, rfl⟩ := getElem?_started (h ▸ hf)
        · exact ⟨f, hf, hpc⟩
        · cases hpc
    · exact hcrit
  | @check n c pc _ m hc hstep =>
    refine Guarded.move (t := .check n) hI ?_ ?_
    · refine (checkStep_move hstep).imp (fun hpc => ⟨c, hc, hpc⟩) ?_
      rintro ⟨c', hc', hpc⟩
      obtain ⟨_, rfl⟩ | ⟨hn, _⟩ := getElem?_moved hc'
      · exact hpc
      · exact absurd rfl hn
    · rintro (_ | k | _ | _) hu hcrit
      case check k =>
        obtain ⟨c', hc', hpc⟩ := hcrit
        obtain ⟨rfl, _⟩ | ⟨_, hc'⟩ := getElem?_moved hc'
        · exact absurd rfl hu
        · exact ⟨c', hc', hpc⟩
      all_goals exact hcrit
  | @fetch n f pc _ m hf hstep =>
    refine Guarded.move (t := .fetch n) hI ?_ ?_
    · refine (fetchStep_move hstep).imp (fun hpc => ⟨f, hf, hpc⟩) ?_
      rintro ⟨f', hf', hpc⟩
      obtain ⟨_, rfl⟩ | ⟨hn, _⟩ := getElem?_moved hf'
      · exact hpc
      · exact absurd rfl hn
    · rintro (_ | _ | k | _) hu hcrit
      case fetch k =>
        obtain ⟨f', hf', hpc⟩ := hcrit
        obtain ⟨rfl, _⟩ | ⟨_, hf'⟩ := getElem?_moved hf'
        · exact absurd rfl hu
        · exact ⟨f', hf', hpc⟩
      all_goals exact hcrit
  | pipe h =>
    obtain ⟨pipe, closed, rfl⟩ := pipeStep_eq h
    exact hI.move (t := .pipe) (.keep rfl id) fun u _ hu => by cases u <;> exact hu

end

end C2DN.Frontend.Goroutines
