import C2DN.Simulator.Contract
import C2DN.Simulator.Statistics
import C2DN.Simulator.Availability

/-!
# The mapping is determined by the servers that are up

Failures and recoveries clear the mapping and `populate_hash_mapping` makes it from the servers that
are up, whatever was mapped before. So two runs after which the same servers are up have the same
mapping; in particular a server that fails and recovers leaves no trace in it.
-/

namespace C2DN.Simulator.Cluster

section
variable {p : Params} {s s' : Cluster}

/-- The servers that a bucket gets in the state `s`. -/
def mappedRow (p : Params) (s : Cluster) (b : Nat) : List Nat :=
  if p.parityRebalance then rebalancedRow p s b else clockwiseRow p s b

/-- Rebalancing also reads the number of servers that are counted as available. -/
def SameUp (p : Params) (s s' : Cluster) : Prop :=
  (∀ x < p.nServer, (s'.servers x).available = (s.servers x).available) ∧
    (p.parityRebalance = true → s'.stat.nAvailServer = s.stat.nAvailServer)

theorem clockwiseServers_congr (h : SameUp p s s') (b : Nat) :
    clockwiseServers p s' b = clockwiseServers p s b := by
  refine congrArg firsts (List.filter_congr fun x hx => h.1 x ?_)
  obtain ⟨i, -, rfl⟩ := List.mem_map.mp hx
  exact p.ring.serverAt_lt _

theorem mappedRow_congr (h : SameUp p s s') (b : Nat) : mappedRow p s' b = mappedRow p s b := by
  have hservers : ∀ b, clockwiseServers p s' b = clockwiseServers p s b := clockwiseServers_congr h
  have hrow : clockwiseRow p s' b = clockwiseRow p s b := by
    rw [clockwiseRow, clockwiseRow, hservers]
  unfold mappedRow
  split
  · next hreb =>
    have harcs : builtArcs p s' = builtArcs p s := by
      unfold builtArcs
      simp only [hservers, h.2 hreb]
    rw [rebalancedRow, rebalancedRow, harcs, hrow]
  · exact hrow

/-- The mapping is the one of the servers that are up, as far as there is one. -/
def UpToDate (p : Params) (s : Cluster) : Prop :=
  ∀ b < nBucket, ∀ idxs, s.chMapping b = some idxs → idxs = mappedRow p s b

theorem UpToDate.congr (H : UpToDate p s) (h : SameUp p s s') (hmap : s'.chMapping = s.chMapping) :
    UpToDate p s' := by
  intro b hb idxs hidxs
  rw [mappedRow_congr h]
  exact H b hb idxs (hmap ▸ hidxs)

section
variable (hn : 0 < p.n) (hs : p.ring.Sorted) (hc : p.ring.Complete)
  (hflow : p.parityRebalance = true → FindsFlow p.maxFlow)
include hn hs hc hflow

theorem populateHashMapping_upToDate (h : populateHashMapping p s = .ok s') : UpToDate p s' := by
  have hsame : SameUp p s s' := by
    refine ⟨fun x _ => ?_, fun _ => ?_⟩
    · rw [(populateHashMapping_servers h).1]
    · rw [populateHashMapping_stat h]
  have henough : p.n + maxNUnavail ≤ (availableServers p s).length := by
    by_contra hfew
    unfold populateHashMapping at h
    dsimp only at h
    rw [populateBuckets_exhausted (Nat.lt_of_not_le hfew)] at h
    cases h
  obtain ⟨sc, H, heq⟩ := populateHashMapping_eq hn hs hc henough
  rw [heq] at h
  intro b hb idxs hidxs
  rw [mappedRow_congr hsame, mappedRow]
  split at h
  · next hreb =>
    rw [if_pos hreb]
    have F : (network (builtArcs p s)).Feasible 0 1 fun i => p.maxFlow (builtArcs p s) i :=
      hflow hreb _ fun a ha => capacity_nonneg ha
    -- neither of the two checks has failed
    have havail : s.stat.nAvailServer ≠ 0 := by
      intro hzero
      rw [findParityMapping, H.stat, if_pos hzero] at h
      cases h
    have hidle : ¬ Idle p s := fun hidle => by
      rw [H.findParityMapping_idle havail hidle] at h
      cases h
    rw [H.findParityMapping_ok havail hidle] at h
    cases h
    dsimp only at hidxs
    replace hidxs := (applyFlow_parityServer F sc.1.chMapping b).symm.trans hidxs
    rw [H.row b hb] at hidxs
    rw [rebalancedRow]
    cases hparity : parityServer p (p.maxFlow (builtArcs p s)) (builtArcs p s) b with
    | none =>
      erw [hparity] at hidxs
      exact (Option.some.inj hidxs).symm
    | some x =>
      erw [hparity] at hidxs
      exact (Option.some.inj hidxs).symm
  · next hreb =>
    rw [if_neg hreb]
    cases h
    rw [H.row b hb] at hidxs
    exact (Option.some.inj hidxs).symm

/-- **One call.** -/
theorem step_upToDate {op : Op} (H : UpToDate p s) (h : step p s op = .ok s') : UpToDate p s' := by
  cases op with
  | get req d =>
    obtain ⟨hit, hget⟩ := get_of_step h
    obtain ⟨m, -, hserved⟩ := get_ends.ok hget
    obtain ⟨ws, heff⟩ := hserved.effect
    exact H.congr ⟨fun x _ => heff.writes.available x, fun _ => get_nAvailServer hget⟩ heff.chMapping
  | failOneServer server =>
    intro b _ idxs hidxs
    rw [(failOneServer_switched h).chMapping] at hidxs
    cases hidxs
  | recoverOneServer server =>
    rcases recoverOneServer_switched h with rfl | h
    · exact H
    · intro b _ idxs hidxs
      rw [h.chMapping] at hidxs
      cases hidxs
  | populateHashMapping => exact populateHashMapping_upToDate hn hs hc hflow h

theorem run_upToDate {s₀ : Cluster} {ops : List Op} (hnew : new p = .ok s₀)
    (hrun : run p ops s₀ = .ok s) : UpToDate p s :=
  inv_of_run (fun _ _ _ H h => step_upToDate hn hs hc hflow H h)
    (populateHashMapping_upToDate hn hs hc hflow hnew) hrun

end

/-- **No history.** If the same servers are up after two runs, every bucket that is mapped after both
has the same servers. -/
theorem mapping_determined (hn : 0 < p.n) (hs : p.ring.Sorted) (hc : p.ring.Complete)
    (hflow : p.parityRebalance = true → FindsFlow p.maxFlow) {s₀ s₁ s₂ : Cluster}
    {ops₁ ops₂ : List Op} (hnew : new p = .ok s₀) (hrun₁ : run p ops₁ s₀ = .ok s₁)
    (hrun₂ : run p ops₂ s₀ = .ok s₂) (hup : SameUp p s₁ s₂) {b : Nat} (hb : b < nBucket)
    {idxs₁ idxs₂ : List Nat} (h₁ : s₁.chMapping b = some idxs₁)
    (h₂ : s₂.chMapping b = some idxs₂) : idxs₁ = idxs₂ := by
  have hmap₁ := run_upToDate hn hs hc hflow hnew hrun₁ b hb idxs₁ h₁
  have hmap₂ := run_upToDate hn hs hc hflow hnew hrun₂ b hb idxs₂ h₂
  rw [hmap₁, hmap₂, mappedRow_congr hup]

end

/-! ## A server that fails and recovers -/

/-- Two servers fail in turn, and both recover. -/
def inTurn : List Op :=
  [.failOneServer 1, .populateHashMapping, .failOneServer 3, .recoverOneServer 1,
    .populateHashMapping, .recoverOneServer 3, .populateHashMapping]

/-- Whether all servers are up after the run, and whether bucket 0 is mapped before and after it. -/
def inTurnOutcome (p : Params) : Except Fault (Bool × Bool × Bool) := do
  let s₀ ← new p
  let s ← run p inTurn s₀
  .ok ((List.range p.nServer).all fun x => (s.servers x).available,
    (s₀.chMapping 0).isSome, (s.chMapping 0).isSome)

theorem inTurn_of_outcome {p : Params} (hreb : p.parityRebalance = false)
    (h : inTurnOutcome p = .ok (true, true, true)) : ∃ s₀ s idxs₀ idxs, new p = .ok s₀ ∧
      run p inTurn s₀ = .ok s ∧ SameUp p s₀ s ∧ s₀.chMapping 0 = some idxs₀ ∧
      s.chMapping 0 = some idxs := by
  obtain ⟨s₀, hnew, h⟩ := bind_eq_ok h
  obtain ⟨s, hrun, h⟩ := bind_eq_ok h
  obtain ⟨hall, hmaps⟩ := Prod.mk.inj (Except.ok.inj h)
  obtain ⟨hmap₀, hmap⟩ := Prod.mk.inj hmaps
  obtain ⟨idxs₀, hidxs₀⟩ := Option.isSome_iff_exists.mp hmap₀
  obtain ⟨idxs, hidxs⟩ := Option.isSome_iff_exists.mp hmap
  refine ⟨s₀, s, idxs₀, idxs, hnew, hrun, ⟨fun x hx => ?_, fun h => nomatch hreb.symm.trans h⟩,
    hidxs₀, hidxs⟩
  rw [new_servers hnew]
  exact List.all_eq_true.mp hall x (List.mem_range.mpr hx)

set_option maxRecDepth 100000 in
theorem inTurn_mapping : ∃ s₀ s idxs, new (lineParams .c2dn 3 2 6 (by decide)) = .ok s₀ ∧
    run (lineParams .c2dn 3 2 6 (by decide)) inTurn s₀ = .ok s ∧
    s₀.chMapping 0 = some idxs ∧ s.chMapping 0 = some idxs := by
  obtain ⟨s₀, s, idxs₀, idxs, hnew, hrun, hup, h₀, h⟩ :=
    inTurn_of_outcome (p := lineParams .c2dn 3 2 6 (by decide)) rfl
      (eq_ok_of_toOption (by decide +kernel))
  have hstart : run (lineParams .c2dn 3 2 6 (by decide)) [] s₀ = .ok s₀ := rfl
  have heq := mapping_determined (by decide) (sorted_lineRing (by decide))
    (complete_lineRing (by decide)) (fun h => by cases h) hnew hstart hrun hup (by decide) h₀ h
  exact ⟨s₀, s, idxs, hnew, hrun, heq ▸ h₀, h⟩

end C2DN.Simulator.Cluster
