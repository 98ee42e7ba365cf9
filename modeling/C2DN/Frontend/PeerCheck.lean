import C2DN.Frontend.GoroutineLemmas

/-!
# Asking the peers

`checkPeerHit` starts a goroutine for each peer and sleeps until enough of them have finished. The
goroutines of earlier calls can still be running then. A goroutine signals only when `ECN` checks
have finished, it does so without `Mtx`, and a check with a transport error does not count. The main
goroutine is woken when `ECN` checks finish and no signal falls between its last look at
`peerCheckFinished` and its sleep.
-/

namespace C2DN.Frontend.Goroutines

open Monitor

/-! ## One check -/

/-- The answer reports the object as cached. -/
def isHit (reply : Option CheckReply) : Bool := reply.any (·.cacheHit)

theorem ne_none_of_isHit (reply : Option CheckReply) (h : isHit reply = true) : reply ≠ none := by
  rintro rfl
  cases h

namespace CheckPc

/-- The check is in `peerCheckFinished`. -/
@[simp] def finished : CheckPc → Bool
  | .signal | .debugEnd | .returned true => true
  | _ => false

/-- The check is on its way from a hit to `peerCheckFinished`. -/
@[simp] def typing : CheckPc → Bool
  | .count _ | .lockType _ | .setType _ | .debugType | .unlockType => true
  | _ => false

/-- A hit is in `nPeerHit`. -/
@[simp] def counted (reply : Option CheckReply) : CheckPc → Bool
  | .lockType _ | .setType _ | .debugType | .unlockType => true
  | .finish | .signal | .debugEnd | .returned true => isHit reply
  | _ => false

/-- A hit has been written to `IsPeerHit`. -/
@[simp] def reported (reply : Option CheckReply) : CheckPc → Bool
  | .count _ => true
  | pc => pc.counted reply

@[simp] def hasReturned : CheckPc → Bool
  | .returned _ => true
  | _ => false

end CheckPc

/-- A check between its steps. -/
structure CheckOk (reply : Option CheckReply) (pc : CheckPc) : Prop where
  report : ∀ r, pc = .report r → reply = some r
  hit : pc.typing = true → isHit reply = true
  answered : pc.finished = true → reply ≠ none
  finish : pc = .finish → reply ≠ none
  failed : pc = .returned false → reply = none

/-- A step of a check. -/
structure CheckEffect (p : Param) (reply : Option CheckReply) (i : Nat) (pc pc' : CheckPc)
    (q q' : Peer) : Prop where
  ok : CheckOk reply pc'
  peerCheckFinished : q'.peerCheckFinished + pc.finished.toNat =
    q.peerCheckFinished + pc'.finished.toNat
  finished : pc.finished = true → pc'.finished = true
  signal : pc.finished = false → pc'.finished = true → p.ECN ≤ q'.peerCheckFinished → pc' = .signal
  nPeerHit : q'.nPeerHit + (pc.counted reply).toNat = q.nPeerHit + (pc'.counted reply).toNat
  counts : pc.counted reply = false → pc'.counted reply = true → ∃ ty, pc = .count ty
  reported : pc.reported reply = true → pc'.reported reply = true
  isPeerHit : q'.isPeerHit = q.isPeerHit ∧ pc'.reported reply = pc.reported reply ∨
    ∃ r, pc = .report r ∧ q'.isPeerHit = q.isPeerHit.set i r.cacheHit ∧
      pc'.reported reply = r.cacheHit

section
variable {p : Param} {e : Env} {s s' : State} {n i : Nat} {t : Tid} {m m' : Monitor Tid}
  {reply : Option CheckReply} {pc pc' : CheckPc} {q q' : Peer}

theorem checkStep_effect (h : checkStep p reply t i pc q m = .ok (pc', q', m'))
    (hlen : i < q.isPeerHit.length) (hok : CheckOk reply pc) :
    CheckEffect p reply i pc pc' q q' := by
  have hreport := hok.report
  have hhit := hok.hit
  have hans := hok.answered
  have hfin := hok.finish
  have hsome := ne_none_of_isHit reply
  clear hok
  cases pc
  all_goals
    simp only [checkStep, map_eq_ok_iff, lock_eq_ok, unlock_eq_ok, appendDebugString_eq_ok] at h
  case request =>
    cases reply
    all_goals
      cases h
      refine ⟨⟨?_, ?_, ?_, ?_, ?_⟩, ?_, ?_, ?_, ?_, ?_, ?_, .inl ⟨rfl, ?_⟩⟩ <;> simp_all
  case report r =>
    obtain rfl : reply = some r := hreport r rfl
    rw [if_pos hlen] at h
    cases h
    cases hr : r.cacheHit
    all_goals
      refine ⟨⟨?_, ?_, ?_, ?_, ?_⟩, ?_, ?_, ?_, ?_, ?_, ?_, .inr ⟨r, rfl, by rw [hr], ?_⟩⟩ <;>
        simp_all [isHit]
  case finish =>
    cases h
    split
    all_goals
      refine ⟨⟨?_, ?_, ?_, ?_, ?_⟩, ?_, ?_, ?_, ?_, ?_, ?_, .inl ⟨rfl, ?_⟩⟩ <;> simp_all
  case setType =>
    split at h
    all_goals
      cases h
      refine ⟨⟨?_, ?_, ?_, ?_, ?_⟩, ?_, ?_, ?_, ?_, ?_, ?_, .inl ⟨rfl, ?_⟩⟩ <;> simp_all
  case count | signal =>
    cases h
    refine ⟨⟨?_, ?_, ?_, ?_, ?_⟩, ?_, ?_, ?_, ?_, ?_, ?_, .inl ⟨rfl, ?_⟩⟩ <;> simp_all
  case debugType | debugEnd =>
    obtain ⟨_, _, h⟩ := h
    cases h
    refine ⟨⟨?_, ?_, ?_, ?_, ?_⟩, ?_, ?_, ?_, ?_, ?_, ?_, .inl ⟨rfl, ?_⟩⟩ <;> simp_all
  case lockType | unlockType =>
    obtain ⟨_, ⟨_, rfl⟩, h⟩ := h
    cases h
    refine ⟨⟨?_, ?_, ?_, ?_, ?_⟩, ?_, ?_, ?_, ?_, ?_, ?_, .inl ⟨rfl, ?_⟩⟩ <;> simp_all
  case returned => cases h

end

/-! ## All checks -/

/-- `checkPeerHit` asks for chunk `i`. -/
def asked (e : Env) (i : Nat) : Bool := decide (e.peerIdx i ≠ -1)

/-- The chunks that the current call of `checkPeerHit` has asked for so far. -/
def asking (s : State) : List Nat :=
  s.checkers.filterMap fun c => if c.round = s.nFrontendMain then some c.chunkIdx else none

/-- The checks of the current call that are in `peerCheckFinished`. -/
def finishedChecks (s : State) : Nat :=
  s.checkers.countP fun c => decide (c.round = s.nFrontendMain) && c.pc.finished

/-- Up to where `checkPeerHit` has started its checks. -/
def Started (p : Param) (e : Env) (idxs : List Nat) : MainPc → Prop
  | .resetCheck | .makeIsPeerHit => idxs = []
  | .startCheck i => i ≤ nCheck p e ∧ idxs = (List.range i).filter (asked e)
  | .frontendMain | .returned => idxs.Nodup
  | _ => idxs = (List.range (nCheck p e)).filter (asked e)

/-- The checks of the current call and of the earlier ones. -/
structure RoundOk (p : Param) (e : Env) (s : State) : Prop where
  round : ∀ c ∈ s.checkers, c.round ≤ s.nFrontendMain
  chunkIdx : ∀ c ∈ s.checkers, c.chunkIdx < nCheck p e
  check : ∀ c ∈ s.checkers, CheckOk (e.check c.round c.chunkIdx) c.pc
  length : s.checkers ≠ [] → s.peer.isPeerHit.length = nCheck p e
  made : ∀ i, s.main = .startCheck i → s.peer.isPeerHit.length = nCheck p e
  started : Started p e (asking s) s.main
  finished : finishedChecks s ≤ s.peer.peerCheckFinished

section
variable {p : Param} {e : Env} {s s' : State} {n i : Nat} {t : Tid}

/-- A step of the main goroutine that touches neither the checks nor `peerCheckFinished`. -/
theorem RoundOk.congr (hI : RoundOk p e s) (hc : s'.checkers = s.checkers)
    (hn : s'.nFrontendMain = s.nFrontendMain)
    (hf : s'.peer.peerCheckFinished = s.peer.peerCheckFinished)
    (hl : s'.peer.isPeerHit.length = s.peer.isPeerHit.length)
    (hm : ∀ i, s'.main = .startCheck i → s'.peer.isPeerHit.length = nCheck p e)
    (hs : Started p e (asking s) s'.main) : RoundOk p e s' where
  round := by rw [hc, hn]; exact hI.round
  chunkIdx := by rw [hc]; exact hI.chunkIdx
  check := by rw [hc]; exact hI.check
  length := by rw [hc, hl]; exact hI.length
  made := hm
  started := by rw [asking, hc, hn]; exact hs
  finished := by rw [finishedChecks, hc, hn, hf]; exact hI.finished

theorem asking_next (h : ∀ c ∈ s.checkers, c.round ≤ n) :
    (s.checkers.filterMap fun c => if c.round = n + 1 then some c.chunkIdx else none) = [] := by
  rw [List.filterMap_eq_nil_iff]
  intro c hc
  have := h c hc
  rw [if_neg (by omega)]

theorem finished_next (h : ∀ c ∈ s.checkers, c.round ≤ n) :
    (s.checkers.countP fun c => decide (c.round = n + 1) && c.pc.finished) = 0 := by
  rw [List.countP_eq_zero]
  intro c hc
  have := h c hc
  simp only [Bool.and_eq_true, decide_eq_true_eq, not_and]
  omega

/-- Before the first check of a call has been started, none has finished. -/
theorem finishedChecks_of_nil (h : asking s = []) : finishedChecks s = 0 := by
  rw [finishedChecks, List.countP_eq_zero]
  intro c hc
  have hnone := List.filterMap_eq_nil_iff.1 h c hc
  split at hnone
  · cases hnone
  · next hr => simp [hr]

theorem Started.nodup {pc : MainPc} {idxs : List Nat} (h : Started p e idxs pc) : idxs.Nodup := by
  unfold Started at h
  split at h
  · rw [h]; exact List.nodup_nil
  · rw [h]; exact List.nodup_nil
  · rw [h.2]; exact List.nodup_range.filter _
  · exact h
  · exact h
  · rw [h]; exact List.nodup_range.filter _

/-- `FrontendMain` is called again: the checks that are there belong to earlier calls. -/
theorem RoundOk.next (hI : RoundOk p e s) {pc : MainPc} (hpc : Started p e [] pc)
    (hne : ∀ i, pc ≠ .startCheck i) (k : Nat) :
    RoundOk p e { s with nFrontendMain := s.nFrontendMain + 1, localECIdx := k, main := pc } where
  round c hc := Nat.le_succ_of_le (hI.round c hc)
  chunkIdx := hI.chunkIdx
  check := hI.check
  length := hI.length
  made i hi := absurd hi (hne i)
  started := by rw [asking, asking_next hI.round]; exact hpc
  finished := by rw [finishedChecks, finished_next hI.round]; exact Nat.zero_le _

/-- `checkPeerHit` starts one more check. -/
theorem RoundOk.start (hI : RoundOk p e s) (hpc : s.main = .startCheck i) (hi : i < nCheck p e)
    (hasked : asked e i = true) : RoundOk p e { s with
      peer := { s.peer with isPeerHit := s.peer.isPeerHit.set i false }
      checkers := s.checkers ++ [⟨s.nFrontendMain, i, .request⟩]
      main := .startCheck (i + 1) } := by
  have hlen := hI.made i hpc
  have hstarted := hI.started
  rw [hpc] at hstarted
  refine ⟨forall_started hI.round (Nat.le_refl _), forall_started hI.chunkIdx hi,
    forall_started hI.check ⟨nofun, nofun, nofun, nofun, nofun⟩, fun _ => List.length_set.trans hlen,
    fun _ _ => List.length_set.trans hlen, ⟨hi, ?_⟩, ?_⟩
  · rw [List.range_succ, List.filter_append, ← hstarted.2, List.filter_singleton, hasked, cond_true]
    simp [asking]
  · simpa [finishedChecks] using hI.finished

theorem mainStep_roundOk (hI : RoundOk p e s) (h : mainStep p e s = .ok s') : RoundOk p e s' := by
  have hstarted := hI.started
  have hnodup := hstarted.nodup
  cases hpc : s.main
  all_goals
    simp only [mainStep, hpc, map_eq_ok_iff, lock_eq_ok, unlock_eq_ok, wait_eq_ok, wake_eq_ok,
      appendDebugString_eq_ok] at h
    rw [hpc] at hstarted
  case frontendMain =>
    split at h
    · cases h
      exact hI.next (show Started p e [] .returned from List.nodup_nil) (by simp) _
    · cases h
      exact hI.next (show Started p e [] .resetCheck from rfl) (by simp) _
  case resetCheck =>
    cases h
    refine ⟨hI.round, hI.chunkIdx, hI.check, hI.length, (by simp), hstarted, ?_⟩
    exact Nat.le_of_eq (finishedChecks_of_nil hstarted)
  case makeIsPeerHit =>
    cases h
    exact ⟨hI.round, hI.chunkIdx, hI.check, fun _ => List.length_replicate,
      fun _ _ => List.length_replicate, ⟨Nat.zero_le _, hstarted⟩, hI.finished⟩
  case startCheck i =>
    obtain ⟨hle, hidxs⟩ := hstarted
    split at h
    · next hi =>
      split at h
      · next hneg =>
        cases h
        refine hI.congr rfl rfl rfl rfl (fun _ _ => hI.made i hpc) ⟨hi, ?_⟩
        rw [List.range_succ, List.filter_append, ← hidxs, List.filter_singleton, asked,
          decide_eq_false (not_not.2 hneg), cond_false, List.append_nil]
      · next hpos =>
        cases h
        exact hI.start hpc hi (decide_eq_true hpos)
    · next hi =>
      cases h
      refine hI.congr rfl rfl rfl rfl (by simp) ?_
      rw [Nat.le_antisymm hle (Nat.le_of_not_lt hi)] at hidxs
      exact hidxs
  case lockCheck | waitCheck | unlockCheck | missLock | missAppend | lockAvail | waitAvail
      | unlockAvail | lockFinish | unlockFinish =>
    obtain ⟨_, ⟨_, rfl⟩, rfl⟩ := h
    exact hI.congr rfl rfl rfl rfl (by simp) hstarted
  case sleepCheck | sleepAvail =>
    obtain ⟨_, ⟨_, _, rfl⟩, rfl⟩ := h
    exact hI.congr rfl rfl rfl rfl (by simp) hstarted
  case debugLocal | debugReady =>
    obtain ⟨_, _, rfl⟩ := h
    exact hI.congr rfl rfl rfl rfl (by simp) hstarted
  case restart | startPipe =>
    obtain ⟨_, _, rfl⟩ := h
    exact hI.congr rfl rfl rfl rfl (by simp) hnodup
  case loadCheck | loadAvail | loadFailed | checkFailed =>
    cases h
    refine hI.congr rfl rfl rfl rfl ?_ ?_
    · dsimp only; split <;> simp
    · dsimp only; split <;> exact hstarted
  case readLocalHit =>
    split at h
    · cases h
    · cases h
      refine hI.congr rfl rfl rfl rfl ?_ ?_
      · dsimp only; split <;> simp
      · dsimp only; split <;> exact hstarted
  case readAlternateHit =>
    split at h
    · cases h
    · cases h; exact hI.congr rfl rfl rfl rfl (by simp) hstarted
  case dispatch =>
    cases h
    refine hI.congr rfl rfl rfl rfl ?_ ?_
    · dsimp only
      split
      · split <;> simp
      · simp
    · dsimp only
      split
      · split
        · exact hstarted
        · exact hstarted
        · exact hnodup
      · exact hstarted
  case fullObj =>
    split at h
    · cases h; exact hI.congr rfl rfl rfl rfl (by simp) hnodup
    · obtain ⟨_, _, rfl⟩ := map_eq_ok_iff.1 h
      exact hI.congr rfl rfl rfl rfl (by simp) hnodup
    · obtain ⟨_, _, rfl⟩ := map_eq_ok_iff.1 h
      refine hI.congr rfl rfl rfl rfl ?_ ?_
      · dsimp only; split <;> simp
      · dsimp only; split <;> exact hstarted
  case markHit =>
    split at h
    all_goals
      obtain ⟨s₁, hs₁, rfl⟩ := map_eq_ok_iff.1 h
      obtain ⟨_, rfl⟩ := setPeerHit_eq_ok.1 hs₁
      refine hI.congr rfl rfl rfl List.length_set ?_ ?_
      · dsimp only; split <;> simp
      · dsimp only; split <;> exact hstarted
  case serveFull =>
    split at h
    all_goals try split at h
    all_goals
      cases h
      first
      | exact hI.congr rfl rfl rfl rfl (by simp) hnodup
      | exact hI.congr rfl rfl rfl rfl (by simp) hstarted
  case fetchLoop =>
    split at h
    all_goals try split at h
    all_goals try split at h
    all_goals try split at h
    all_goals cases h; exact hI.congr rfl rfl rfl rfl (by simp [State.fetch]) hstarted
  case returned => cases h
  case tooManyFailed => cases h; exact hI.congr rfl rfl rfl rfl (by simp) hnodup
  all_goals cases h; exact hI.congr rfl rfl rfl rfl (by simp) hstarted

theorem CheckEffect.length {p : Param} {reply : Option CheckReply} {pc pc' : CheckPc} {q q' : Peer}
    (h : CheckEffect p reply i pc pc' q q') : q'.isPeerHit.length = q.isPeerHit.length := by
  obtain ⟨h, _⟩ | ⟨r, _, h, _⟩ := h.isPeerHit
  · rw [h]
  · rw [h, List.length_set]

variable {c : Checker} {pc' : CheckPc} {q' : Peer} {m' : Monitor Tid}

theorem RoundOk.inBounds (hI : RoundOk p e s) (hc : s.checkers[n]? = some c) :
    c.chunkIdx < s.peer.isPeerHit.length := by
  have hmem := List.mem_of_getElem? hc
  rw [hI.length (List.ne_nil_of_mem hmem)]
  exact hI.chunkIdx c hmem

/-- A step of a check, of the current call or of an earlier one. -/
theorem RoundOk.checkStep (hI : RoundOk p e s) (hc : s.checkers[n]? = some c)
    (heff : CheckEffect p (e.check c.round c.chunkIdx) c.chunkIdx c.pc pc' s.peer q') :
    RoundOk p e { s with checkers := s.checkers.set n { c with pc := pc' }, peer := q', mon := m' } := by
  have hmem := List.mem_of_getElem? hc
  refine ⟨forall_moved hI.round (hI.round c hmem), forall_moved hI.chunkIdx (hI.chunkIdx c hmem),
    forall_moved hI.check heff.ok, fun _ => ?_, fun i hi => heff.length.trans (hI.made i hi), ?_, ?_⟩
  · exact heff.length.trans (hI.length (List.ne_nil_of_mem hmem))
  · rw [asking, filterMap_moved (b := { c with pc := pc' }) hc rfl]
    exact hI.started
  · have hcount := countP_moved
      (q := fun c => decide (c.round = s.nFrontendMain) && c.pc.finished) (b := { c with pc := pc' }) hc
    have hnum := heff.peerCheckFinished
    have hle := hI.finished
    have hkeep := heff.finished
    unfold finishedChecks at hle ⊢
    dsimp only at hcount ⊢
    cases hr : decide (c.round = s.nFrontendMain) with
    | true =>
      rw [hr, Bool.true_and, Bool.true_and] at hcount
      omega
    | false =>
      rw [hr, Bool.false_and, Bool.false_and] at hcount
      cases hpc : c.pc.finished with
      | true => rw [hpc, hkeep hpc] at hnum; omega
      | false => rw [hpc, Bool.toNat_false] at hnum; omega

theorem start_roundOk : RoundOk p e Goroutines.start :=
  ⟨nofun, nofun, nofun, nofun, nofun, List.nodup_nil, Nat.le_refl _⟩

theorem step_roundOk (hI : RoundOk p e s) (h : step p e s t = .ok s') : RoundOk p e s' := by
  cases stepOf h with
  | main hstep => exact mainStep_roundOk hI hstep
  | check hc hstep =>
    have hok := hI.check _ (List.mem_of_getElem? hc)
    exact hI.checkStep hc (checkStep_effect hstep (hI.inBounds hc) hok)
  | fetch => exact hI.congr rfl rfl rfl rfl hI.made hI.started
  | pipe hstep =>
    obtain ⟨_, _, rfl⟩ := pipeStep_eq hstep
    exact hI.congr rfl rfl rfl rfl hI.made hI.started

/-! ## Sleeping and waking -/

theorem checkStep_sleeping {reply : Option CheckReply} {pc : CheckPc} {q : Peer} {m : Monitor Tid}
    (h : checkStep p reply t i pc q m = .ok (pc', q', m')) :
    pc ≠ .signal ∧ m'.sleeping = m.sleeping ∨ pc = .signal ∧ m'.sleeping = m.sleeping.tail := by
  cases pc
  all_goals
    simp only [checkStep, map_eq_ok_iff, lock_eq_ok, unlock_eq_ok, appendDebugString_eq_ok] at h
  case request =>
    cases reply
    all_goals cases h; exact .inl ⟨(by simp), rfl⟩
  case report | setType => split at h <;> cases h <;> exact .inl ⟨(by simp), rfl⟩
  case lockType | unlockType =>
    obtain ⟨_, ⟨_, rfl⟩, h⟩ := h
    cases h
    exact .inl ⟨(by simp), rfl⟩
  case debugType | debugEnd =>
    obtain ⟨_, _, h⟩ := h
    cases h
    exact .inl ⟨(by simp), rfl⟩
  case signal => cases h; exact .inr ⟨rfl, rfl⟩
  case returned => cases h
  all_goals cases h; exact .inl ⟨(by simp), rfl⟩

theorem fetchStep_sleeping {reply : ChunkReply} {pc pc' : FetchPc} {c c' : Chunks} {m : Monitor Tid}
    (h : fetchStep p reply n i pc c m = .ok (pc', c', m')) :
    m'.sleeping = m.sleeping ∨ m'.sleeping = m.sleeping.tail := by
  cases pc
  all_goals
    simp only [fetchStep, map_eq_ok_iff, lock_eq_ok, unlock_eq_ok, appendDebugString_eq_ok] at h
  case start => split at h <;> cases h; exact .inl rfl
  case request =>
    cases reply
    all_goals cases h; exact .inl rfl
  case lock | unlock | unlockDiscard =>
    obtain ⟨_, ⟨_, rfl⟩, h⟩ := h
    cases h
    exact .inl rfl
  case debugSkip | debugFetch =>
    obtain ⟨_, _, h⟩ := h
    cases h
    exact .inl rfl
  case signal => cases h; exact .inr rfl
  case returned => cases h
  all_goals cases h; exact .inl rfl

/-- The main goroutine looks at `peerCheckFinished`, falls asleep, or does something else. -/
inductive MainSleep (p : Param) (s s' : State) : Prop
  | look (hpc : s.main = .loadCheck) (hlt : s.peer.peerCheckFinished < p.needed)
    (hs : s' = { s with main := .waitCheck })
  | wait (hpc : s.main = .waitCheck)
    (hs : s' = { s with mon := ⟨none, s.mon.sleeping ++ [.main]⟩, main := .sleepCheck })
  | waitAvail (hpc : s.main = .waitAvail) (hpc' : s'.main = .sleepAvail)
    (hm : s'.mon.sleeping = s.mon.sleeping ++ [.main])
  | other (hm : s'.mon.sleeping = s.mon.sleeping)
    (hpc : s.main = .sleepCheck ∨ s.main = .sleepAvail → .main ∉ s.mon.sleeping)
    (hpc' : s'.main ≠ .waitCheck ∧ s'.main ≠ .sleepCheck ∧ s'.main ≠ .sleepAvail)

theorem mainStep_sleep (h : mainStep p e s = .ok s') : MainSleep p s s' := by
  cases hpc : s.main
  all_goals
    simp only [mainStep, hpc, map_eq_ok_iff, lock_eq_ok, unlock_eq_ok, wait_eq_ok, wake_eq_ok,
      appendDebugString_eq_ok] at h
  case loadCheck =>
    cases h
    split
    · next hlt => exact .look hpc hlt rfl
    · exact .other rfl (by simp [hpc]) (by simp)
  case waitCheck =>
    obtain ⟨_, ⟨_, rfl⟩, rfl⟩ := h
    exact .wait hpc rfl
  case waitAvail =>
    obtain ⟨_, ⟨_, rfl⟩, rfl⟩ := h
    exact .waitAvail hpc rfl rfl
  case sleepCheck | sleepAvail =>
    obtain ⟨_, ⟨hawake, _, rfl⟩, rfl⟩ := h
    exact .other rfl (fun _ => hawake) (by simp)
  case lockCheck | unlockCheck | missLock | missAppend | lockAvail | unlockAvail | lockFinish
      | unlockFinish =>
    obtain ⟨_, ⟨_, rfl⟩, rfl⟩ := h
    exact .other rfl (by simp [hpc]) (by simp)
  case debugLocal | restart | debugReady | startPipe =>
    obtain ⟨_, _, rfl⟩ := h
    exact .other rfl (by simp [hpc]) (by simp)
  case readLocalHit =>
    split at h
    · cases h
    · cases h
      split <;> exact .other rfl (by simp [hpc]) (by simp)
  case readAlternateHit =>
    split at h
    · cases h
    · cases h; exact .other rfl (by simp [hpc]) (by simp)
  case dispatch =>
    cases h
    split
    · split <;> exact .other rfl (by simp [hpc]) (by simp)
    · exact .other rfl (by simp [hpc]) (by simp)
  case fullObj =>
    split at h
    · cases h; exact .other rfl (by simp [hpc]) (by simp)
    · obtain ⟨_, _, rfl⟩ := map_eq_ok_iff.1 h
      exact .other rfl (by simp [hpc]) (by simp)
    · obtain ⟨_, _, rfl⟩ := map_eq_ok_iff.1 h
      split <;> exact .other rfl (by simp [hpc]) (by simp)
  case markHit =>
    split at h
    all_goals
      obtain ⟨s₁, hs₁, rfl⟩ := map_eq_ok_iff.1 h
      obtain ⟨_, rfl⟩ := setPeerHit_eq_ok.1 hs₁
      split <;> exact .other rfl (by simp [hpc]) (by simp)
  case loadAvail | loadFailed | checkFailed =>
    cases h
    split <;> exact .other rfl (by simp [hpc]) (by simp)
  case frontendMain | startCheck | serveFull | fetchLoop =>
    repeat' split at h
    all_goals cases h; exact .other rfl (by simp [hpc]) (by simp [State.fetch])
  case returned => cases h
  all_goals cases h; exact .other rfl (by simp [hpc]) (by simp)

/-- Nobody but the main goroutine sleeps, and only inside its `Wait`. -/
def Sleepers (s : State) : Prop :=
  s.mon.sleeping = [] ∨
    s.mon.sleeping = [.main] ∧ (s.main = .sleepCheck ∨ s.main = .sleepAvail)

theorem Sleepers.of_tail (h : Sleepers s) : s.mon.sleeping.tail = [] := by
  obtain h | ⟨h, _⟩ := h
  · rw [h]; rfl
  · rw [h]; rfl

theorem Sleepers.nil_of_not (h : Sleepers s)
    (hpc : s.main = .sleepCheck ∨ s.main = .sleepAvail → .main ∉ s.mon.sleeping) :
    s.mon.sleeping = [] := by
  obtain h | ⟨h, hmain⟩ := h
  · exact h
  · exact absurd (h ▸ List.mem_singleton.2 rfl) (hpc hmain)

theorem step_sleepers (hS : Sleepers s) (h : step p e s t = .ok s') : Sleepers s' := by
  cases stepOf h with
  | main hstep =>
    cases mainStep_sleep hstep with
    | look hpc _ hs =>
      subst hs
      exact .inl (hS.nil_of_not (by rw [hpc]; nofun))
    | wait hpc hs =>
      subst hs
      refine .inr ⟨?_, .inl rfl⟩
      change s.mon.sleeping ++ [.main] = [.main]
      rw [hS.nil_of_not (by rw [hpc]; nofun), List.nil_append]
    | waitAvail hpc hpc' hm =>
      refine .inr ⟨?_, .inr hpc'⟩
      rw [hm, hS.nil_of_not (by rw [hpc]; nofun), List.nil_append]
    | other hm hpc => exact .inl (hm.trans (hS.nil_of_not hpc))
  | check _ hstep =>
    obtain ⟨_, hm⟩ | ⟨_, hm⟩ := checkStep_sleeping hstep
    · unfold Sleepers; rw [hm]; exact hS
    · exact .inl (hm.trans hS.of_tail)
  | fetch _ hstep =>
    obtain hm | hm := fetchStep_sleeping hstep
    · unfold Sleepers; rw [hm]; exact hS
    · exact .inl (hm.trans hS.of_tail)
  | pipe hstep =>
    obtain ⟨_, _, rfl⟩ := pipeStep_eq hstep
    exact hS

end

end C2DN.Frontend.Goroutines
