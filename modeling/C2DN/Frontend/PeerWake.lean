import C2DN.Frontend.PeerCheck
import C2DN.Frontend.ChunkResolve

/-!
# When the main goroutine wakes up from its peer check

`checkPeerHit` waits for `ECK` finished checks, and its goroutines signal when `ECN` have finished.
-/

namespace C2DN.Frontend.Goroutines

open Monitor

/-- The main goroutine is asleep in the `Cond.Wait` of `checkPeerHit`. -/
def AsleepInCheck (s : State) : Prop := s.main = .sleepCheck ∧ .main ∈ s.mon.sleeping

/-- The main goroutine does not sleep when the checks of this call have returned and enough of them
have completed without an error. -/
def PeerCheckWakes (p : Param) (s : State) : Prop :=
  (∀ c ∈ s.checkers, c.round = s.nFrontendMain → c.pc.hasReturned = true) →
    p.ECK ≤ s.checkers.countP (fun c =>
      decide (c.round = s.nFrontendMain) && decide (c.pc = .returned true)) →
    ¬ AsleepInCheck s

/-- The number of checks of a call that meet no transport error. -/
def answeredChecks (p : Param) (e : Env) (round : Nat) : Nat :=
  (List.range (nCheck p e)).countP fun i => asked e i && (e.check round i).isSome

/-- The conditions on a step under which no wake-up is lost: the main goroutine goes to sleep only
when `ECN` checks of its call are answered, and no check of this call signals between its look at
`peerCheckFinished` and its `Cond.Wait`. -/
def WakesUp (p : Param) (e : Env) (s : State) (t : Tid) : Prop :=
  match t with
  | .main => s.main = .waitCheck → p.ECN ≤ answeredChecks p e s.nFrontendMain
  | .check n => ∀ c ∈ s.checkers[n]?,
    c.round = s.nFrontendMain → c.pc = .signal → s.main ≠ .waitCheck
  | _ => True

instance (p : Param) (e : Env) (s : State) (t : Tid) : Decidable (WakesUp p e s t) :=
  match t with
  | .main => inferInstanceAs (Decidable (_ → _))
  | .check n => inferInstanceAs (Decidable (∀ c ∈ s.checkers[n]?, _))
  | .fetch _ | .pipe => inferInstanceAs (Decidable True)

/-- A check of the current call is about to signal. -/
def Signals (s : State) : Prop :=
  ∃ c ∈ s.checkers, c.round = s.nFrontendMain ∧ c.pc = .signal

/-- While the main goroutine is about to sleep or asleep, fewer than `ECN` checks have finished or one
of them is about to signal. -/
structure Awaited (p : Param) (e : Env) (s : State) : Prop where
  signals : s.main = .waitCheck ∨ AsleepInCheck s → finishedChecks s < p.ECN ∨ Signals s
  answered : AsleepInCheck s → p.ECN ≤ answeredChecks p e s.nFrontendMain

section
variable {p : Param} {e : Env} {s s' : State} {n i : Nat} {t : Tid}

theorem Param.needed_le (p : Param) : p.needed ≤ p.ECN := by
  unfold Param.needed
  split
  · exact Nat.le_refl _
  · exact Nat.le_refl _
  · exact p.le
  · exact p.le

theorem mainStep_awaited (hR : RoundOk p e s) (hA : Awaited p e s) (h : mainStep p e s = .ok s')
    (hC : WakesUp p e s .main) : Awaited p e s' := by
  cases mainStep_sleep h with
  | look hpc hlt hs =>
    subst hs
    refine ⟨fun _ => .inl ?_, nofun⟩
    exact Nat.lt_of_le_of_lt hR.finished (Nat.lt_of_lt_of_le hlt p.needed_le)
  | wait hpc hs =>
    subst hs
    exact ⟨fun _ => hA.signals (.inl hpc), fun _ => hC hpc⟩
  | waitAvail _ hpc' =>
    constructor
    · rintro (h | ⟨h, _⟩)
      · exact nomatch h.symm.trans hpc'
      · exact nomatch h.symm.trans hpc'
    · rintro ⟨h, _⟩
      exact nomatch h.symm.trans hpc'
  | other _ _ hpc' =>
    constructor
    · rintro (h | ⟨h, _⟩)
      · exact absurd h hpc'.1
      · exact absurd h hpc'.2.1
    · rintro ⟨h, _⟩
      exact absurd h hpc'.2.1

variable {c : Checker} {pc' : CheckPc} {q' : Peer} {m' : Monitor Tid}

/-- A check that finishes as the `ECN`-th or later goes on to signal. -/
theorem finished_or_signals (hR : RoundOk p e s) (hc : s.checkers[n]? = some c)
    (heff : CheckEffect p (e.check c.round c.chunkIdx) c.chunkIdx c.pc pc' s.peer q')
    (hlt : finishedChecks s < p.ECN) :
    (s.checkers.set n { c with pc := pc' }).countP
        (fun c => decide (c.round = s.nFrontendMain) && c.pc.finished) < p.ECN ∨
      c.round = s.nFrontendMain ∧ pc' = .signal := by
  have hR' : RoundOk p e { s with checkers := s.checkers.set n { c with pc := pc' }, peer := q' } :=
    hR.checkStep hc heff
  have hle : (s.checkers.set n { c with pc := pc' }).countP
      (fun c => decide (c.round = s.nFrontendMain) && c.pc.finished) ≤ q'.peerCheckFinished :=
    hR'.finished
  have hcount := countP_moved
    (q := fun c => decide (c.round = s.nFrontendMain) && c.pc.finished) (b := { c with pc := pc' }) hc
  unfold finishedChecks at hlt
  dsimp only at hcount
  by_cases hmove : (decide (c.round = s.nFrontendMain) && c.pc.finished) = false ∧
      (decide (c.round = s.nFrontendMain) && pc'.finished) = true
  · obtain ⟨hold, hnew⟩ := hmove
    obtain ⟨hround, hfin⟩ := Bool.and_eq_true_iff.1 hnew
    rw [hround, Bool.true_and] at hold
    refine (Nat.lt_or_ge _ _).imp id fun hge => ⟨of_decide_eq_true hround, ?_⟩
    exact heff.signal hold hfin (Nat.le_trans hge hle)
  · left
    generalize (decide (c.round = s.nFrontendMain) && c.pc.finished) = old at hcount hmove
    generalize (decide (c.round = s.nFrontendMain) && pc'.finished) = new at hcount hmove
    have : new.toNat ≤ old.toNat := by revert hmove; cases old <;> cases new <;> decide
    omega

/-- A step of a check that is not this signal. -/
theorem signals_moved (hR : RoundOk p e s) (hc : s.checkers[n]? = some c)
    (heff : CheckEffect p (e.check c.round c.chunkIdx) c.chunkIdx c.pc pc' s.peer q')
    (hne : c.round = s.nFrontendMain → c.pc ≠ .signal)
    (h : finishedChecks s < p.ECN ∨ Signals s) :
    finishedChecks { s with checkers := s.checkers.set n { c with pc := pc' } } < p.ECN ∨
      Signals { s with checkers := s.checkers.set n { c with pc := pc' } } := by
  obtain hlt | ⟨d, hd, hround, hpc⟩ := h
  · refine (finished_or_signals hR hc heff hlt).imp id fun ⟨hround, hpc'⟩ => ?_
    exact ⟨{ c with pc := pc' }, List.mem_of_getElem? (getElem?_moved_self hc), hround, hpc'⟩
  · refine .inr ⟨d, mem_moved hc hd ?_, hround, hpc⟩
    rintro rfl
    exact hne hround hpc

/-- A step of a check. -/
theorem checkStep_awaited (hR : RoundOk p e s) (hS : Sleepers s) (hA : Awaited p e s)
    (hc : s.checkers[n]? = some c)
    (heff : CheckEffect p (e.check c.round c.chunkIdx) c.chunkIdx c.pc pc' s.peer q')
    (hm : c.pc ≠ .signal ∧ m'.sleeping = s.mon.sleeping ∨
      c.pc = .signal ∧ m'.sleeping = s.mon.sleeping.tail)
    (hlate : c.round = s.nFrontendMain → c.pc = .signal → s.main ≠ .waitCheck) :
    Awaited p e
      { s with checkers := s.checkers.set n { c with pc := pc' }, peer := q', mon := m' } := by
  obtain ⟨hne, hm⟩ | ⟨hsig, hm⟩ := hm
  · have hasleep : AsleepInCheck
        { s with checkers := s.checkers.set n { c with pc := pc' }, peer := q', mon := m' } →
        AsleepInCheck s := fun ⟨hpc, hmem⟩ => ⟨hpc, hm ▸ hmem⟩
    refine ⟨fun h => ?_, fun h => hA.answered (hasleep h)⟩
    exact signals_moved hR hc heff (fun _ => hne) (hA.signals (h.imp id hasleep))
  · -- the signal takes the only sleeper
    rw [hS.of_tail] at hm
    have hawake : ¬ AsleepInCheck
        { s with checkers := s.checkers.set n { c with pc := pc' }, peer := q', mon := m' } := by
      rintro ⟨_, hmem⟩
      rw [show m'.sleeping = [] from hm] at hmem
      exact nomatch hmem
    refine ⟨fun h => ?_, fun h => absurd h hawake⟩
    have hpc := h.resolve_right hawake
    exact signals_moved hR hc heff (fun hround _ => hlate hround hsig hpc) (hA.signals (.inl hpc))

theorem step_awaited (hR : RoundOk p e s) (hS : Sleepers s) (hA : Awaited p e s)
    (h : step p e s t = .ok s') (hC : WakesUp p e s t) : Awaited p e s' := by
  cases stepOf h with
  | main hstep => exact mainStep_awaited hR hA hstep hC
  | check hc hstep =>
    have hok := hR.check _ (List.mem_of_getElem? hc)
    refine checkStep_awaited hR hS hA hc (checkStep_effect hstep (hR.inBounds hc) hok)
      (checkStep_sleeping hstep) ?_
    exact hC _ hc
  | fetch _ hstep =>
    have hsub : ∀ t, t ∈ _ → t ∈ s.mon.sleeping := (fetchStep_sleeping hstep).elim
      (fun hm _ ht => hm ▸ ht) (fun hm _ ht => List.mem_of_mem_tail (hm ▸ ht))
    exact ⟨fun h => hA.signals (h.imp id fun h => ⟨h.1, hsub _ h.2⟩),
      fun h => hA.answered ⟨h.1, hsub _ h.2⟩⟩
  | pipe hstep =>
    obtain ⟨_, _, rfl⟩ := pipeStep_eq hstep
    exact ⟨hA.signals, hA.answered⟩

/-! ## The checks of a call have returned -/

/-- Once all checks of a call have returned, those without a transport error have finished. -/
theorem answered_finished (hR : RoundOk p e s) (hpc : s.main = .sleepCheck)
    (hret : ∀ c ∈ s.checkers, c.round = s.nFrontendMain → c.pc.hasReturned = true) :
    answeredChecks p e s.nFrontendMain ≤ finishedChecks s := by
  have hstarted := hR.started
  rw [hpc] at hstarted
  have hasking : asking s = (List.range (nCheck p e)).filter (asked e) := hstarted
  have hans : answeredChecks p e s.nFrontendMain =
      (asking s).countP fun i => (e.check s.nFrontendMain i).isSome := by
    rw [hasking, List.countP_filter, answeredChecks]
    exact List.countP_congr fun i _ => by rw [Bool.and_comm]
  rw [hans, asking, List.countP_filterMap, finishedChecks]
  refine List.countP_mono_left fun c hc hsome => ?_
  by_cases hround : c.round = s.nFrontendMain
  · rw [if_pos hround, ← hround] at hsome
    have hne : c.pc ≠ .returned false := by
      intro hfalse
      rw [Option.map_some, Option.getD_some, (hR.check c hc).failed hfalse] at hsome
      exact Bool.noConfusion hsome
    have hpc := hret c hc hround
    rw [decide_eq_true hround, Bool.true_and]
    cases hcpc : c.pc with
    | returned b =>
      cases b with
      | true => rfl
      | false => exact absurd hcpc hne
    | _ => rw [hcpc] at hpc; exact Bool.noConfusion hpc
  · rw [if_neg hround] at hsome
    exact Bool.noConfusion hsome

/-- **The peer check is not lost.** In every run in which the main goroutine sleeps only when `ECN`
checks are answered and no signal falls between its look at `peerCheckFinished` and its sleep, it is
not asleep once the checks of its call have returned. -/
theorem peerCheck_wakes {ts : List Tid}
    (hC : Steps (step p e) (fun s t _ => WakesUp p e s t) ts Goroutines.start)
    (h : run p e ts Goroutines.start = .ok s) : PeerCheckWakes p s := by
  have hinv : RoundOk p e s ∧ Sleepers s ∧ Awaited p e s := by
    refine Steps.inv_of_run (I := fun s => RoundOk p e s ∧ Sleepers s ∧ Awaited p e s) ?_ ?_ hC h
    · rintro s t s' ⟨hR, hS, hA⟩ hstep hC
      exact ⟨step_roundOk hR hstep, step_sleepers hS hstep, step_awaited hR hS hA hstep hC⟩
    · refine ⟨start_roundOk, .inl rfl, ⟨?_, nofun⟩⟩
      rintro (h | ⟨h, _⟩)
      · exact nomatch h
      · exact nomatch h
  obtain ⟨hR, _, hA⟩ := hinv
  intro hret _ hasleep
  obtain hlt | ⟨c, hc, hround, hpc⟩ := hA.signals (.inr hasleep)
  · have hle := answered_finished hR hasleep.1 hret
    have := hA.answered hasleep
    omega
  · have := hret c hc hround
    rw [hpc] at this
    exact nomatch this

end

/-! ## Lost wake-ups -/

/-- All peers are asked and have nothing; those in `failed` do not answer. -/
def allMiss (failed : List Nat) : Env where
  peerIdx i := i
  intn _ := false
  check _ i := if i ∈ failed then none else some ⟨false, .empty⟩
  full _ := .err
  chunk _ := .err

/-- The main goroutine up to its look at `peerCheckFinished`. -/
def untilLook : List Tid := List.replicate 10 .main

/-- The checks up to their signal or `debugEnd`. -/
def untilSignal : List Tid := (List.range 4).flatMap fun i => [.check i, .check i, .check i]

/-- The fourth check signals before the main goroutine sleeps. -/
def lostSignal : List Tid :=
  untilLook ++ untilSignal ++ [.check 3, .main] ++ (List.range 4).map .check

/-- A check that meets a transport error leaves the others without a signal. -/
def failedCheck : List Tid :=
  untilLook ++ [.main, .check 0] ++
    [1, 2, 3].flatMap fun i => [.check i, .check i, .check i, .check i]

theorem peerCheck_lost :
    (∃ s, run threeOfFour (allMiss []) lostSignal start = .ok s ∧
      ¬ PeerCheckWakes threeOfFour s) ∧
    ∃ s, run threeOfFour (allMiss [0]) failedCheck start = .ok s ∧
      ¬ PeerCheckWakes threeOfFour s := by
  refine ⟨⟨_, rfl, fun h => ?_⟩, ⟨_, rfl, fun h => ?_⟩⟩
  · exact h (by decide) (by decide) ⟨rfl, by decide⟩
  · exact h (by decide) (by decide) ⟨rfl, by decide⟩

/-- The main goroutine sleeps before the checks run. -/
def fourAnswer : List Tid :=
  untilLook ++ [.main] ++ untilSignal ++ [.check 3] ++ (List.range 4).map .check

theorem fourAnswer_wakes : ∃ s, run threeOfFour (allMiss []) fourAnswer start = .ok s ∧
    s.main = .sleepCheck ∧ s.mon.sleeping = [] ∧ PeerCheckWakes threeOfFour s :=
  ⟨_, rfl, rfl, rfl,
    peerCheck_wakes (by decide) (rfl : run threeOfFour (allMiss []) fourAnswer start = .ok _)⟩

end C2DN.Frontend.Goroutines
