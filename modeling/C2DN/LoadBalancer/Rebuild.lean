import C2DN.LoadBalancer.Previous

/-!
# Rebuilds of the balancer with its own package

`MaxFlow` returns a maximum flow of every graph of `rebalanceParity`. So whenever the hosts that are up
can take the parity of all buckets, the mapping that is served has it there.
-/

namespace C2DN.LoadBalancer

namespace ParityBalancer

/-! ## Rebuilds -/

/-- The balancer before parity is rebalanced for the list `l`. -/
def plain (digest : List Nat → List Nat) (bl : ParityBalancer) (l : List Nat) : ParityBalancer :=
  { bl with bucketMapping := plainMapping digest bl.base.nHost bl.base.nHostPerBucket l }

/-- The hosts that are up can take the parity of all buckets. -/
def CanTake (digest : List Nat → List Nat) (bl : ParityBalancer) (l : List Nat) : Prop :=
  Coverable (spare nBuckets bl.base (plain digest bl l).bucketMapping l)
    fun h (b : Fin nBuckets) => MayHold bl.base (plain digest bl l).bucketMapping h b

/-- The parity of the served mapping is rebalanced whenever this can be done. -/
def Rebalanced (digest : List Nat → List Nat) (bl : ParityBalancer) : Prop :=
  ∀ l, bl.base.unavailAt bl.base.currUnavailPos = .ok l → CanTake digest bl l →
    Balanced (plain digest bl l) l bl

section
variable {digest : List Nat → List Nat} {bl bl' : ParityBalancer} {l : List Nat} {nHost n : Nat}
  {tr : Trace nHost n}

/-- The former parity host is written behind the hosts of a bucket. -/
theorem Balanced.addPrevious (H : Balanced bl l bl') (hbase : bl'.base = bl.base)
    (hn : 0 < bl.base.nHostPerBucket) (hlen : bl'.bucketMapping.length = nBuckets) :
    Balanced bl l (addPrevious bl') := by
  have hrow : ∀ b < nBuckets, ∃ host, (ParityBalancer.addPrevious bl').bucketMapping.getD b [] =
        (bl'.bucketMapping.getD b []).set bl.base.nHostPerBucket host ∨
      (ParityBalancer.addPrevious bl').bucketMapping.getD b [] = bl'.bucketMapping.getD b [] := by
    intro b hb
    rw [getD_addPrevious (by rw [hlen]; exact hb), hbase]
    split
    · exact ⟨0, .inr rfl⟩
    · next host _ => exact ⟨host, .inl rfl⟩
  have htake : ∀ b < nBuckets, ∀ k ≤ bl.base.nHostPerBucket,
      ((ParityBalancer.addPrevious bl').bucketMapping.getD b []).take k =
        (bl'.bucketMapping.getD b []).take k := by
    intro b hb k hk
    obtain ⟨host, heq | heq⟩ := hrow b hb
    · rw [heq, List.take_set_of_le hk]
    · rw [heq]
  have hentry : ∀ b < nBuckets,
      ((ParityBalancer.addPrevious bl').bucketMapping.getD b [])[bl.base.nHostPerBucket - 1]? =
        (bl'.bucketMapping.getD b [])[bl.base.nHostPerBucket - 1]? := by
    intro b hb
    obtain ⟨host, heq | heq⟩ := hrow b hb
    · rw [heq, List.getElem?_set_ne (by omega)]
    · rw [heq]
  refine ⟨fun b hb => ?_, fun b hb => ?_, ?_, fun h hh hle => ?_⟩
  · rw [hentry b hb]
    exact H.host b hb
  · rw [htake b hb _ (Nat.sub_le _ 1)]
    exact H.data b hb
  · obtain ⟨parity, hparity, hall⟩ := H.parity
    refine ⟨parity, addPrevious_curr.trans hparity, fun b => ?_⟩
    rw [hall b]
    split
    · next hb => exact (hentry b hb).symm
    · rfl
  · refine le_trans (le_of_eq ?_) (H.load h hh hle)
    have hlen' : (ParityBalancer.addPrevious bl').bucketMapping.length =
        bl'.bucketMapping.length := addPrevious_length
    rw [nodeWeight_eq_sum, nodeWeight_eq_sum, ← Fin.sum_congr' _ hlen'.symm]
    refine congrArg Nat.cast (Finset.sum_congr rfl fun b _ => ?_)
    rw [← htake b (by rw [← hlen]; exact b.2) _ (le_refl _)]
    rfl

/-- Only the hosts and the mapping from before rebalancing matter. -/
theorem Balanced.of_eq {bl₁ : ParityBalancer} (H : Balanced bl l bl') (hbase : bl₁.base = bl.base)
    (hmap : bl₁.bucketMapping = bl.bucketMapping) : Balanced bl₁ l bl' := by
  obtain ⟨base, ring, m, reb, curr, prev⟩ := bl
  obtain ⟨base₁, ring₁, m₁, reb₁, curr₁, prev₁⟩ := bl₁
  cases hbase
  cases hmap
  exact ⟨H.host, H.data, H.parity, H.load⟩

/-- **A build** rebalances parity whenever this can be done. -/
theorem createMapping_rebalanced (hsep : Separates digest bl.base.nHost)
    (h0 : 0 < bl.base.nHostPerBucket) (hsize : bl.base.nHostPerBucket * nBuckets ≤ maxCost)
    (hn : bl.base.nHostPerBucket ≤ ((List.range bl.base.nHost).filter fun x => x ∉ l).length)
    (hring : bl.ring = ringWithout digest bl.base.nHost l) (hreb : bl.rebalance = true)
    (hne : bl.base.unavailableList ≠ [])
    (hcurr : bl.base.unavailAt bl.base.currUnavailPos = .ok l)
    (h : createMapping digest graphLib bl = .ok bl') : Rebalanced digest bl' := by
  obtain ⟨bl'', hbl'', hbase, -, hbuilt⟩ := createMapping_ok bl graphLib_lawful hsep h0 hn hring hne hcurr
  obtain rfl : bl'' = bl' := Except.ok.inj (hbl''.symm.trans h)
  rw [createMapping_eq hsep h0 hn hring] at h
  dsimp only at h
  rw [if_pos hreb] at h
  intro l' hl' hcan
  rw [hbase] at hl'
  obtain rfl : l = l' := Except.ok.inj (hcurr.symm.trans hl')
  have hcan : CanTake digest bl l := by
    unfold CanTake plain at hcan ⊢
    rwa [hbase] at hcan
  have hlen : (plain digest bl l).bucketMapping.length = nBuckets := by
    rw [plain, plainMapping, List.length_map, List.length_range]
  have hrows : ∀ nodes ∈ (plain digest bl l).bucketMapping, bl.base.nHostPerBucket ≤ nodes.length := by
    intro nodes hnodes
    obtain ⟨b, -, rfl⟩ := List.mem_map.mp hnodes
    rw [List.length_append, List.length_map, (bucketNodes_spec hsep h0 hn b).2.1]
    exact Nat.le_add_right _ _
  -- the maximum flow reaches all buckets
  have hmax := Graph.maxFlowOf_graphLib
    (fits_parityGraph (plain digest bl l).bucketMapping l h0 hsize)
  have hfull : (graphLib.maxFlow (parityGraph bl.base (plain digest bl l).bucketMapping l) 0 1).1 =
      nBuckets := by
    obtain ⟨f, R⟩ := hmax
    have H := layered_parityGraph nBuckets bl.base (plain digest bl l).bucketMapping l
    have hval := (H.value_eq_card_iff R.maximal).mpr hcan
    rw [Fintype.card_fin] at hval
    exact R.value.trans hval
  have hpos : 0 < (plain digest bl l).base.nHostPerBucket := h0
  have hl : unavailableNow (plain digest bl l).base = .ok l := by
    rw [unavailableNow, plain, if_neg hne, hcurr]
  obtain ⟨bl₂, hbl₂, H⟩ := rebalanceParity_balanced hpos hl hlen hrows hmax hfull
  obtain ⟨bl₃, hbl₃, rfl⟩ := map_eq_ok h
  obtain rfl : bl₂ = bl₃ := Except.ok.inj (hbl₂.symm.trans hbl₃)
  have hbase₂ : bl₂.base = bl.base := addPrevious_base.symm.trans hbase
  refine (H.addPrevious hbase₂ h0 ?_).of_eq hbase ?_
  · rw [← addPrevious_length]
    exact hbuilt.length
  · rw [plain, plain, hbase]

theorem createMapping_rebalance {gl : GraphLib} (h : createMapping digest gl bl = .ok bl') :
    bl'.rebalance = bl.rebalance := by
  rw [createMapping_hashed] at h
  obtain ⟨bl₁, hbl₁, h⟩ := bind_eq_ok h
  obtain ⟨⟨-, hreb, -⟩, -⟩ := hashed_rows hbl₁
  split at h
  · obtain ⟨bl₂, hbl₂, rfl⟩ := map_eq_ok h
    obtain ⟨l, -, hbl₂⟩ := bind_eq_ok hbl₂
    obtain ⟨r, -, rfl⟩ := map_eq_ok hbl₂
    exact addPrevious_rebalance.trans hreb
  · obtain rfl := Except.ok.inj h
    exact hreb

/-- The position moves to an equal list. -/
theorem Rebalanced.move (hR : Rebalanced digest bl) {startTs pos : Int}
    (h : ∀ l, bl.base.unavailAt pos = .ok l → bl.base.unavailAt bl.base.currUnavailPos = .ok l) :
    Rebalanced digest { bl with base := { bl.base with startTs, currUnavailPos := pos } } := by
  intro l hl hcan
  have hB := hR l (h l hl) hcan
  exact ⟨hB.host, hB.data, hB.parity, hB.load⟩

/-- A move of the position goes to an equal list or builds a mapping for another one. -/
theorem update_rebalanced (H : Inv digest tr bl) (hsep : Separates digest nHost) (h0 : 0 < n)
    (hsize : n * nBuckets ≤ maxCost) (hreb : bl.rebalance = true) (hR : Rebalanced digest bl)
    {currTs : Int} (h : bl.update digest graphLib currTs = .ok bl') :
    bl'.rebalance = true ∧ Rebalanced digest bl' := by
  obtain ⟨next, hnext, h⟩ := bind_eq_ok h
  obtain ⟨curr, hcurr, h⟩ := bind_eq_ok h
  split at h
  · next hcmp =>
    obtain rfl := cmpSlice_iff.mp hcmp
    obtain rfl := Except.ok.inj h
    refine ⟨hreb, hR.move fun l hl => ?_⟩
    rwa [hcurr, ← hnext]
  · have hmem : next ∈ tr.lists := by
      rw [← H.lists]
      exact List.mem_of_getElem? (BaseBalancer.unavailAt_eq_ok.mp hnext).2
    rw [removeNodes_eq (by rw [H.hosts]; exact tr.hosts next hmem)] at h
    refine ⟨(createMapping_rebalance h).trans hreb, ?_⟩
    refine createMapping_rebalanced (l := next) ?_ ?_ ?_ ?_ ?_ ?_ ?_ ?_ h <;> dsimp only
    · rw [H.hosts]
      exact hsep
    · rw [H.perBucket]
      exact h0
    · rw [H.perBucket]
      exact hsize
    · rw [H.hosts, H.perBucket]
      exact tr.enough next hmem
    · rfl
    · exact hreb
    · rw [H.lists]
      exact tr.ne
    · exact hnext

/-- **One call.** -/
theorem step_rebalanced (H : Inv digest tr bl) (hsep : Separates digest nHost) (h0 : 0 < n)
    (hsize : n * nBuckets ≤ maxCost) (hfirst : tr.lists[0]? = some []) (hreb : bl.rebalance = true)
    (hR : Rebalanced digest bl) {call : Call} (hcare : Careful bl call)
    (h : bl.step digest graphLib call = .ok bl') : bl'.rebalance = true ∧ Rebalanced digest bl' := by
  cases call with
  | reset =>
    obtain rfl := Except.ok.inj h
    -- no host is unavailable before or after the call
    have hzero : bl.base.unavailAt 0 = .ok [] := by
      rw [BaseBalancer.unavailAt, H.lists, if_neg (by omega), Int.toNat_zero, hfirst]
    refine ⟨hreb, hR.move fun l hl => ?_⟩
    rw [← hl, hzero]
    exact hcare
  | getNodesFromMapping currTs id =>
    obtain ⟨r, hr, rfl⟩ := map_eq_ok h
    obtain ⟨bl'', hbl'', rfl⟩ := map_eq_ok hr
    obtain ⟨H', hpos⟩ := H.start currTs
    have hR' : Rebalanced digest { bl with base := bl.base.start currTs } := by
      unfold BaseBalancer.start at hpos ⊢
      split
      · next hclock =>
        rw [if_pos hclock] at hpos
        refine hR.move fun l hl => ?_
        rwa [← hpos]
      · exact hR
    unfold checkUpdate at hbl''
    split at hbl''
    · obtain rfl := Except.ok.inj hbl''
      exact ⟨hreb, hR⟩
    · dsimp only at hbl''
      split at hbl''
      · cases hbl''
      · split at hbl''
        · exact update_rebalanced H' hsep h0 hsize hreb hR' hbl''
        · obtain rfl := Except.ok.inj hbl''
          exact ⟨hreb, hR'⟩

theorem Inv.run_rebalanced (H : Inv digest tr bl) (hsep : Separates digest nHost) (h0 : 0 < n)
    (hsize : n * nBuckets ≤ maxCost) (hfirst : tr.lists[0]? = some []) (hreb : bl.rebalance = true)
    (hR : Rebalanced digest bl) (calls : List Call) (hin : Along digest graphLib Inside calls bl)
    (hcare : Along digest graphLib Careful calls bl) :
    ∃ bl', ParityBalancer.run digest graphLib calls bl = .ok bl' ∧ Inv digest tr bl' ∧
      Rebalanced digest bl' := by
  induction calls generalizing bl with
  | nil => exact ⟨bl, rfl, H, hR⟩
  | cons call calls ih =>
    obtain ⟨bl₁, hbl₁, H₁⟩ := H.step graphLib_lawful hsep h0 hfirst hin.1 hcare.1
    obtain ⟨hreb₁, hR₁⟩ := step_rebalanced H hsep h0 hsize hfirst hreb hR hcare.1 hbl₁
    obtain ⟨bl', hbl', H'⟩ := ih H₁ hreb₁ hR₁ (hin.2 bl₁ hbl₁) (hcare.2 bl₁ hbl₁)
    refine ⟨bl', ?_, H'⟩
    rw [ParityBalancer.run, hbl₁]
    exact hbl'

end

/-- **Parity is rebalanced whenever it can be.** With its own package `graph`, a balancer that
rebalances serves, after every sequence of calls inside the trace in which `Reset` is only called where
no host is unavailable, parity on hosts that are up, that have no data of the bucket and that do not
come above the expected weight by it, if the hosts can take the parity of all buckets at all. -/
theorem rebalanced_of_careful (digest : List Nat → List Nat) (nHost n : Nat) (tr : Trace nHost n)
    (intvl : Int) (calls : List Call) (hsep : Separates digest nHost) (h0 : 0 < n)
    (hsize : n * nBuckets ≤ maxCost) (hintvl : 0 < intvl) (hfirst : tr.lists[0]? = some []) :
    ∃ bl₀, new digest graphLib nHost tr.lists intvl n true = .ok bl₀ ∧
      (Along digest graphLib Inside calls bl₀ → Along digest graphLib Careful calls bl₀ →
        ∃ bl, run digest graphLib calls bl₀ = .ok bl ∧ Current digest bl ∧ Rebalanced digest bl) := by
  obtain ⟨bl₀, hbl₀, H₀⟩ := new_inv graphLib_lawful hsep h0 hfirst hintvl true
  have hreb₀ : bl₀.rebalance = true := createMapping_rebalance hbl₀
  have hat : (BaseBalancer.new nHost tr.lists intvl n).unavailAt 0 = .ok [] := by
    rw [BaseBalancer.unavailAt, if_neg (by decide), Int.toNat_zero]
    dsimp only [BaseBalancer.new]
    rw [hfirst]
  have hR₀ : Rebalanced digest bl₀ := by
    have hbuild := hbl₀
    unfold new at hbuild
    refine createMapping_rebalanced (l := []) ?_ ?_ ?_ ?_ ?_ ?_ ?_ ?_ hbuild
    · exact hsep
    · exact h0
    · exact hsize
    · exact tr.enough [] (List.mem_of_getElem? hfirst)
    · rfl
    · rfl
    · exact tr.ne
    · exact hat
  refine ⟨bl₀, hbl₀, fun hin hcare => ?_⟩
  obtain ⟨bl, hbl, H, hR⟩ := H₀.run_rebalanced hsep h0 hsize hfirst hreb₀ hR₀ calls hin hcare
  exact ⟨bl, hbl, H.current hsep h0, hR⟩

/-- Either of two hosts takes the parity of half of the buckets. -/
theorem canTake_two {digest : List Nat → List Nat} {bl : ParityBalancer}
    (hbase : bl.base = ⟨lateTrace.lists, 2, 1, 60, 100, 0⟩) : CanTake digest bl [] := by
  have hspare : ∀ h : Fin 2, spare nBuckets ⟨lateTrace.lists, 2, 1, 60, 100, 0⟩
      (plainMapping digest 2 1 []) [] h = 100 := by
    intro h
    have hweight : nodeWeight (plainMapping digest 2 1 []) 0 h = 0 := by
      simp [nodeWeight]
    unfold spare
    rw [if_neg List.not_mem_nil]
    dsimp only
    rw [Nat.sub_self, hweight]
    decide
  have hassigns : Assigns (spare nBuckets ⟨lateTrace.lists, 2, 1, 60, 100, 0⟩
      (plainMapping digest 2 1 []) []) (fun h (b : Fin nBuckets) => MayHold
        ⟨lateTrace.lists, 2, 1, 60, 100, 0⟩ (plainMapping digest 2 1 []) h b)
      fun b => (⟨b % 2, Nat.mod_lt _ Nat.two_pos⟩ : Fin 2) := by
    refine ⟨fun b => List.not_mem_nil, fun h => ?_⟩
    rw [hspare h]
    revert h
    decide +kernel
  unfold CanTake plain
  rw [hbase]
  exact exists_assigns_iff.mp ⟨_, hassigns⟩

/-- Both hosts are up at the first request. -/
theorem lateTrace_rebalanced : ∃ bl₀, new md5Sum graphLib 2 lateTrace.lists 60 1 true = .ok bl₀ ∧
    ∃ bl, run md5Sum graphLib [.reset, .getNodesFromMapping 100 1] bl₀ = .ok bl ∧
      Balanced (plain md5Sum bl []) [] bl := by
  obtain ⟨bl₀, hbl₀, h⟩ := rebalanced_of_careful md5Sum 2 1 lateTrace 60
    [.reset, .getNodesFromMapping 100 1] separates_two (by decide) (by decide) (by decide) rfl
  have hbase : bl₀.base = .new 2 lateTrace.lists 60 1 := by
    obtain ⟨bl', hbl', hbase, -⟩ := createMapping_ok (l := []) (unbuilt md5Sum 2 lateTrace.lists 60 1)
      graphLib_lawful separates_two Nat.one_pos (by decide) rfl (by decide) rfl
    obtain rfl := Except.ok.inj (hbl₀.symm.trans hbl')
    exact hbase
  obtain ⟨base, ring, m, reb, curr, prev⟩ := bl₀
  cases hbase
  obtain ⟨bl, hbl, -, hR⟩ := h
    ⟨trivial, fun _ hstep => by
      obtain rfl := Except.ok.inj hstep
      exact ⟨fun h => absurd h (lt_irrefl (0 : Int)), fun _ _ => trivial⟩⟩
    ⟨rfl, fun _ _ => ⟨trivial, fun _ _ => trivial⟩⟩
  refine ⟨_, hbl₀, bl, hbl, ?_⟩
  obtain rfl := Except.ok.inj hbl
  exact hR [] rfl (canTake_two rfl)

end ParityBalancer

end C2DN.LoadBalancer
