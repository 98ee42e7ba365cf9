import C2DN.LoadBalancer.Package

/-!
# The previous parity host of a bucket

`rebalanceParity` keeps the parity hosts of a mapping in `currParityMapping` and moves the former
ones to `prevParityMapping`, from where `createMapping` copies them to the entry after the hosts of
a bucket. If every flow of `MaxFlow` reaches all buckets, this entry is the parity host of the mapping
before the latest rebuild.
-/

namespace C2DN.LoadBalancer.ParityBalancer

section
variable (digest : List Nat → List Nat)

/-- The balancer on which `createMapping` calls `rebalanceParity`. -/
def hashed (bl : ParityBalancer) : Except Fault ParityBalancer :=
  let n := bl.base.nHostPerBucket
  (hashMapping digest bl.ring n (n + 1) (List.range nBuckets)).map fun m =>
    { bl with bucketMapping := m.map fun nodes => nodes.set n (-1) }

/-- The call moves to a list that differs from the current one. -/
def rebuilds (bl : ParityBalancer) (currTs : Int) : Bool :=
  let base := bl.base.start currTs
  decide (0 ≤ base.updateIntvl) && decide (base.currUnavailPos < base.posAt currTs) &&
    match base.unavailAt (base.posAt currTs), base.unavailAt base.currUnavailPos with
    | .ok next, .ok curr => !cmpSlice next curr
    | _, _ => false

/-- The balancer on which such a call calls `createMapping`. -/
def moved (bl : ParityBalancer) (currTs : Int) : Except Fault ParityBalancer :=
  let base := bl.base.start currTs
  (base.unavailAt (base.posAt currTs)).bind fun next =>
    (removeNodes digest base.nHost next (.newRing digest (List.range base.nHost))).map fun ring =>
      { bl with ring, base := { base with currUnavailPos := base.posAt currTs } }

/-- The flow for the mapping of `bl` reaches all buckets. -/
def FullFlow (bl : ParityBalancer) : Prop :=
  ∀ bl₁ l, hashed digest bl = .ok bl₁ → unavailableNow bl.base = .ok l →
    (graphLib.maxFlow (parityGraph bl₁.base bl₁.bucketMapping l) 0 1).1 = nBuckets

/-- `GetNodesFromMapping`, with the mapping that was in force before the latest rebuild. -/
def record (s : ParityBalancer × Option (List (List Int))) (call : Int × Nat) :
    Except Fault (ParityBalancer × Option (List (List Int))) :=
  (s.1.getNodesFromMapping digest graphLib call.1 call.2).map fun r =>
    (r.1, if rebuilds s.1 call.1 then some s.1.bucketMapping else s.2)

end

section
variable {digest : List Nat → List Nat} {bl bl' : ParityBalancer}

/-! ## One build -/

theorem hashMapping_length {ring : HashRing Nat} {n room : Nat} {bs : List Nat}
    {m : List (List Int)} (h : hashMapping digest ring n room bs = .ok m) :
    m.length = bs.length ∧ ∀ nodes ∈ m, nodes.length = room := by
  induction bs generalizing m with
  | nil => cases h; exact ⟨rfl, nofun⟩
  | cons b bs ih =>
    obtain ⟨r, -, h⟩ := bind_eq_ok h
    obtain ⟨slice, hslice, h⟩ := bind_eq_ok h
    obtain ⟨rest, hrest, rfl⟩ := map_eq_ok h
    obtain ⟨hlen, hrows⟩ := ih hrest
    refine ⟨congrArg Nat.succ hlen, fun nodes hnodes => ?_⟩
    rcases List.mem_cons.mp hnodes with rfl | hnodes
    · unfold fillSlice at hslice
      split at hslice
      · cases hslice
      · cases hslice
        rw [List.length_append, List.length_map, List.length_replicate]
        omega
    · exact hrows nodes hnodes

/-- The rows before rebalancing end with `-1`. -/
theorem hashed_rows (h : hashed digest bl = .ok bl') :
    (bl'.base = bl.base ∧ bl'.rebalance = bl.rebalance ∧
      bl'.currParityMapping = bl.currParityMapping) ∧
    bl'.bucketMapping.length = nBuckets ∧
    ∀ nodes ∈ bl'.bucketMapping, nodes.length = bl'.base.nHostPerBucket + 1 ∧
      nodes[bl'.base.nHostPerBucket]? = some (-1) := by
  obtain ⟨m, hm, rfl⟩ := map_eq_ok h
  obtain ⟨hlen, hrows⟩ := hashMapping_length hm
  refine ⟨⟨rfl, rfl, rfl⟩, ?_, fun nodes hnodes => ?_⟩
  · rw [List.length_map, hlen, List.length_range]
  · obtain ⟨nodes, hmem, rfl⟩ := List.mem_map.mp hnodes
    have hlen := hrows nodes hmem
    refine ⟨by rw [List.length_set, hlen], ?_⟩
    rw [List.getElem?_set_self (by omega)]

theorem createMapping_hashed (gl : GraphLib) : createMapping digest gl bl =
    (hashed digest bl).bind fun bl =>
      if bl.rebalance then (rebalanceParity gl bl).map addPrevious else .ok bl := by
  unfold createMapping hashed
  dsimp only
  cases hashMapping digest bl.ring bl.base.nHostPerBucket (bl.base.nHostPerBucket + 1)
      (List.range nBuckets) with
  | ok m => rfl
  | error e => rfl

/-- What a build leaves behind: rows of `n + 1` entries, the parity hosts in `currParityMapping`, and
the former ones behind them. -/
structure Built (before : Option (Nat → Option Int)) (bl : ParityBalancer) : Prop where
  length : bl.bucketMapping.length = nBuckets
  rows : ∀ b < nBuckets, (bl.bucketMapping.getD b []).length = bl.base.nHostPerBucket + 1
  parity : bl.currParityMapping = some fun b =>
    if b < nBuckets then (bl.bucketMapping.getD b [])[bl.base.nHostPerBucket - 1]? else none
  slot : ∀ b < nBuckets, (bl.bucketMapping.getD b [])[bl.base.nHostPerBucket]? =
    match before with
    | none => some (-1)
    | some prev => some ((prev b).getD (-1))

theorem getD_addPrevious {b : Nat} (hb : b < bl.bucketMapping.length) :
    (addPrevious bl).bucketMapping.getD b [] =
      match bl.prevParityMapping.bind fun prev => prev b with
      | none => bl.bucketMapping.getD b []
      | some host => (bl.bucketMapping.getD b []).set bl.base.nHostPerBucket host := by
  unfold addPrevious
  cases hprev : bl.prevParityMapping with
  | none => rfl
  | some prev =>
    dsimp only
    rw [List.getD_eq_getElem _ _ (by simpa using hb), List.getElem_mapIdx,
      List.getD_eq_getElem _ _ hb, Option.bind_some]
    cases prev b with
    | none => rfl
    | some host => rfl

theorem addPrevious_length : (addPrevious bl).bucketMapping.length = bl.bucketMapping.length := by
  unfold addPrevious
  split
  · rfl
  · exact List.length_mapIdx

theorem addPrevious_curr : (addPrevious bl).currParityMapping = bl.currParityMapping := by
  unfold addPrevious
  split <;> rfl

theorem built_addPrevious {a : Nat → Nat} (hn : 0 < bl.base.nHostPerBucket)
    (hlen : bl.bucketMapping.length = nBuckets)
    (hrows : ∀ nodes ∈ bl.bucketMapping, nodes.length = bl.base.nHostPerBucket + 1 ∧
      nodes[bl.base.nHostPerBucket]? = some (-1)) :
    Built bl.currParityMapping (addPrevious (bl.rebalanced a)) := by
  have hlen' : (bl.rebalanced a).bucketMapping.length = nBuckets := by
    rw [rebalanced, List.length_mapIdx, hlen]
  have hrow : ∀ b < nBuckets, (addPrevious (bl.rebalanced a)).bucketMapping.getD b [] =
      match bl.currParityMapping.bind fun prev => prev b with
      | none => (bl.bucketMapping.getD b []).set (bl.base.nHostPerBucket - 1) (a b)
      | some host => ((bl.bucketMapping.getD b []).set (bl.base.nHostPerBucket - 1) (a b)).set
          bl.base.nHostPerBucket host := by
    intro b hb
    rw [getD_addPrevious (by rw [hlen']; exact hb), getD_rebalanced (by rw [hlen]; exact hb)]
    rfl
  have hold : ∀ b < nBuckets, (bl.bucketMapping.getD b []).length = bl.base.nHostPerBucket + 1 ∧
      (bl.bucketMapping.getD b [])[bl.base.nHostPerBucket]? = some (-1) := by
    intro b hb
    rw [List.getD_eq_getElem _ _ (by rw [hlen]; exact hb)]
    exact hrows _ (List.getElem_mem _)
  have hbase : (addPrevious (bl.rebalanced a)).base = bl.base := addPrevious_base
  refine ⟨addPrevious_length.trans hlen', fun b hb => ?_, ?_, fun b hb => ?_⟩
  · rw [hbase, hrow b hb]
    split
    · rw [List.length_set, (hold b hb).1]
    · rw [List.length_set, List.length_set, (hold b hb).1]
  · rw [addPrevious_curr, hbase]
    refine congrArg some (funext fun b => ?_)
    split
    · next hb =>
      -- the former parity host is not written over the new one
      rw [hrow b hb]
      split
      · rw [List.getElem?_set_self (by rw [(hold b hb).1]; omega)]
      · rw [List.getElem?_set_ne (by omega), List.getElem?_set_self (by rw [(hold b hb).1]; omega)]
    · rfl
  · rw [hbase, hrow b hb]
    cases hcurr : bl.currParityMapping with
    | none =>
      dsimp only [Option.bind_none]
      rw [List.getElem?_set_ne (by omega), (hold b hb).2]
    | some prev =>
      dsimp only [Option.bind_some]
      cases hprev : prev b with
      | none =>
        dsimp only [Option.getD_none]
        rw [List.getElem?_set_ne (by omega), (hold b hb).2]
      | some host =>
        dsimp only [Option.getD_some]
        rw [List.getElem?_set_self (by rw [List.length_set, (hold b hb).1]; omega)]

/-- A build whose flow reaches all buckets. -/
theorem exists_built (hn : 0 < bl.base.nHostPerBucket)
    (hsize : bl.base.nHostPerBucket * nBuckets ≤ maxCost) (hreb : bl.rebalance = true)
    (hfull : FullFlow digest bl) {bl₁ : ParityBalancer} {l : List Nat}
    (hbl₁ : hashed digest bl = .ok bl₁) (hl : unavailableNow bl.base = .ok l) :
    ∃ bl', createMapping digest graphLib bl = .ok bl' ∧ bl'.base = bl.base ∧
      bl'.rebalance = true ∧ Built bl.currParityMapping bl' := by
  obtain ⟨⟨hbase, hreb₁, hcurr⟩, hlen, hrows⟩ := hashed_rows hbl₁
  have hgraph := hfull _ l hbl₁ hl
  rw [← hbase] at hn hl hsize
  have hmax := Graph.maxFlowOf_graphLib (fits_parityGraph bl₁.bucketMapping l hn hsize)
  obtain ⟨a, heq, -⟩ := rebalanceParity_eq hn hl hlen
    (fun nodes hnodes => by rw [(hrows nodes hnodes).1]; exact Nat.le_succ _) hmax hgraph
  change rebalanceParity graphLib bl₁ = _ at heq
  refine ⟨addPrevious (bl₁.rebalanced a), ?_, addPrevious_base.trans hbase,
    addPrevious_rebalance.trans (hreb₁.trans hreb), hcurr ▸ built_addPrevious hn hlen hrows⟩
  rw [createMapping_hashed, hbl₁]
  change (if bl₁.rebalance = true then (rebalanceParity _ bl₁).map addPrevious else .ok bl₁) = _
  rw [if_pos (hreb₁.trans hreb), heq]
  rfl

theorem built_createMapping (hn : 0 < bl.base.nHostPerBucket)
    (hsize : bl.base.nHostPerBucket * nBuckets ≤ maxCost) (hreb : bl.rebalance = true)
    (hfull : FullFlow digest bl) (h : createMapping digest graphLib bl = .ok bl') :
    bl'.base = bl.base ∧ bl'.rebalance = true ∧ Built bl.currParityMapping bl' := by
  have hcreate := h
  rw [createMapping_hashed] at h
  obtain ⟨bl₁, hbl₁, h⟩ := bind_eq_ok h
  obtain ⟨⟨hbase, hreb₁, -⟩, -⟩ := hashed_rows hbl₁
  rw [if_pos (hreb₁.trans hreb)] at h
  obtain ⟨bl₂, hbl₂, -⟩ := map_eq_ok h
  obtain ⟨l, hl, -⟩ := bind_eq_ok hbl₂
  obtain ⟨bl'', hbl'', hbuilt⟩ := exists_built hn hsize hreb hfull hbl₁ (hbase ▸ hl)
  cases hcreate.symm.trans hbl''
  exact hbuilt

/-! ## Sequences of calls -/

theorem start_perBucket (base : BaseBalancer) (currTs : Int) :
    (base.start currTs).nHostPerBucket = base.nHostPerBucket ∧
      (base.start currTs).updateIntvl = base.updateIntvl := by
  unfold BaseBalancer.start
  split
  · exact ⟨rfl, rfl⟩
  · exact ⟨rfl, rfl⟩

/-- A call moves the clock and the position, or it builds a mapping. -/
theorem checkUpdate_cases {gl : GraphLib} {currTs : Int}
    (h : bl.checkUpdate digest gl currTs = .ok bl') :
    (rebuilds bl currTs = false ∧ ∃ base : BaseBalancer, bl' = { bl with base } ∧
      base.nHostPerBucket = bl.base.nHostPerBucket) ∨
    rebuilds bl currTs = true ∧ ∃ bl₁, moved digest bl currTs = .ok bl₁ ∧
      createMapping digest gl bl₁ = .ok bl' := by
  obtain ⟨hper, hintvl⟩ := start_perBucket bl.base currTs
  unfold checkUpdate at h
  unfold rebuilds
  dsimp only at h ⊢
  split at h
  · next hneg =>
    cases h
    refine .inl ⟨?_, bl.base, rfl, rfl⟩
    rw [decide_eq_false (by rw [hintvl]; omega)]
    rfl
  · next hpos =>
    split at h
    · cases h
    · split at h
      · next hgt =>
        obtain ⟨next, hnext, h⟩ := bind_eq_ok h
        obtain ⟨curr, hcurr, h⟩ := bind_eq_ok h
        dsimp only at hnext hcurr
        rw [hnext, hcurr, decide_eq_true (by rw [hintvl]; omega), decide_eq_true hgt]
        dsimp only [Bool.true_and]
        split at h
        · next hcmp =>
          cases h
          exact .inl ⟨by rw [hcmp]; rfl, _, rfl, hper⟩
        · next hcmp =>
          obtain ⟨ring, hring, h⟩ := bind_eq_ok h
          refine .inr ⟨by simpa using hcmp, _, ?_, h⟩
          unfold moved
          dsimp only
          rw [hnext]
          change Except.map _ (removeNodes digest (bl.base.start currTs).nHost next _) = _
          rw [hring]
          rfl
      · next hle =>
        cases h
        refine .inl ⟨?_, _, rfl, hper⟩
        rw [decide_eq_false hle, Bool.and_false, Bool.false_and]

theorem checkUpdate_of_rebuilds {gl : GraphLib} {currTs : Int} (hintvl : bl.base.updateIntvl ≠ 0)
    (hyes : rebuilds bl currTs = true) (hmoved : moved digest bl currTs = .ok bl') :
    bl.checkUpdate digest gl currTs = createMapping digest gl bl' := by
  obtain ⟨-, hstart⟩ := start_perBucket bl.base currTs
  unfold rebuilds at hyes
  dsimp only at hyes
  obtain ⟨hpos, hlists⟩ := Bool.and_eq_true_iff.mp hyes
  obtain ⟨hpos, hgt⟩ := Bool.and_eq_true_iff.mp hpos
  have hpos := of_decide_eq_true hpos
  have hgt := of_decide_eq_true hgt
  obtain ⟨next, hnext, hmoved⟩ := bind_eq_ok hmoved
  obtain ⟨ring, hring, rfl⟩ := map_eq_ok hmoved
  rw [hnext] at hlists
  split at hlists
  · next next' curr hnext' hcurr =>
    cases hnext'
    unfold checkUpdate
    rw [if_neg (by omega)]
    dsimp only
    rw [if_neg (by omega), if_pos hgt]
    unfold update
    dsimp only
    rw [hnext, hcurr]
    dsimp only [Except.bind]
    rw [if_neg (by simpa using hlists), hring]
  · cases hlists

/-- The parity hosts of a mapping. -/
def parityHosts (n : Nat) (m : List (List Int)) (b : Nat) : Option Int :=
  if b < nBuckets then (m.getD b [])[n - 1]? else none

/-- The balancer and the mapping from before the latest rebuild. -/
structure Slots (n : Nat) (s : ParityBalancer × Option (List (List Int))) : Prop where
  perBucket : s.1.base.nHostPerBucket = n
  rebalance : s.1.rebalance = true
  built : Built (s.2.map (parityHosts n)) s.1
  rows : ∀ m, s.2 = some m → ∀ b < nBuckets, (m.getD b []).length = n + 1

theorem moved_fields {currTs : Int} (h : moved digest bl currTs = .ok bl') :
    bl'.base.nHostPerBucket = bl.base.nHostPerBucket ∧ bl'.rebalance = bl.rebalance ∧
      bl'.currParityMapping = bl.currParityMapping := by
  obtain ⟨next, -, h⟩ := bind_eq_ok h
  obtain ⟨ring, -, rfl⟩ := map_eq_ok h
  exact ⟨(start_perBucket _ _).1, rfl, rfl⟩

/-- **One call.** -/
theorem Slots.record {n : Nat} {s s' : ParityBalancer × Option (List (List Int))}
    {call : Int × Nat} (H : Slots n s) (hn : 0 < n) (hsize : n * nBuckets ≤ maxCost)
    (hfull : ∀ bl₁, rebuilds s.1 call.1 = true → moved digest s.1 call.1 = .ok bl₁ →
      FullFlow digest bl₁)
    (h : record digest s call = .ok s') :
    Slots n s' ∧ (rebuilds s.1 call.1 = false → s'.1.bucketMapping = s.1.bucketMapping) := by
  obtain ⟨r, hr, rfl⟩ := map_eq_ok h
  obtain ⟨bl', hbl', rfl⟩ := map_eq_ok hr
  dsimp only
  rcases checkUpdate_cases hbl' with ⟨hno, base, rfl, hper⟩ | ⟨hyes, bl₁, hmoved, hcreate⟩
  · rw [hno, if_neg Bool.false_ne_true]
    refine ⟨⟨hper.trans H.perBucket, H.rebalance, ?_, H.rows⟩, fun _ => rfl⟩
    refine ⟨H.built.length, ?_, ?_, ?_⟩ <;> dsimp only <;> rw [hper]
    · exact H.built.rows
    · exact H.built.parity
    · exact H.built.slot
  · obtain ⟨hper, hreb, hcurr⟩ := moved_fields hmoved
    have hper' := hper.trans H.perBucket
    obtain ⟨hbase, hreb', hbuilt⟩ := built_createMapping (by rw [hper']; exact hn)
      (by rw [hper']; exact hsize) (hreb.trans H.rebalance) (hfull bl₁ hyes hmoved) hcreate
    rw [hyes, if_pos rfl]
    refine ⟨⟨by rw [hbase]; exact hper', hreb', ?_, ?_⟩, fun h => nomatch h⟩
    · have hparity := H.built.parity
      rw [H.perBucket] at hparity
      rw [hcurr, hparity] at hbuilt
      exact hbuilt
    · rintro m hm b hb
      cases hm
      rw [H.built.rows b hb, H.perBucket]

/-- The balancer on which `NewParityBalancer` calls `createMapping`. -/
def unbuilt (digest : List Nat → List Nat) (nHost : Nat) (unavailableList : List (List Nat))
    (updateIntvl : Int) (nHostPerBucket : Nat) : ParityBalancer where
  base := .new nHost unavailableList updateIntvl nHostPerBucket
  ring := .newRing digest (List.range nHost)
  bucketMapping := []
  rebalance := true
  currParityMapping := none
  prevParityMapping := none

/-- **The previous parity host.** If all flows reach all buckets, then after every sequence of calls
the entry after the hosts of a bucket is the parity host that it had before the latest rebuild; calls
without a rebuild leave the mapping as it is. -/
theorem previous_parity {nHost n : Nat} (hn : 0 < n) (hsize : n * nBuckets ≤ maxCost)
    {unavailableList : List (List Nat)} {updateIntvl : Int} {calls : List (Int × Nat)}
    {bl₀ : ParityBalancer} {s : ParityBalancer × Option (List (List Int))}
    (hfull₀ : FullFlow digest (unbuilt digest nHost unavailableList updateIntvl n))
    (hnew : new digest graphLib nHost unavailableList updateIntvl n true = .ok bl₀)
    (hfull : Steps (record digest) (fun s call _ => ∀ bl₁, rebuilds s.1 call.1 = true →
      moved digest s.1 call.1 = .ok bl₁ → FullFlow digest bl₁) calls (bl₀, none))
    (hrun : calls.foldlM (record digest) (bl₀, none) = .ok s) :
    (∀ b < nBuckets, ∃ host, (s.1.bucketMapping.getD b [])[n]? = some host ∧
      match s.2 with
      | none => host = -1
      | some m => (m.getD b [])[n - 1]? = some host) ∧
    Steps (record digest) (fun s call s' =>
      rebuilds s.1 call.1 = false → s'.1.bucketMapping = s.1.bucketMapping) calls (bl₀, none) := by
  have H₀ : Slots n (bl₀, none) := by
    have hn₀ : 0 < (unbuilt digest nHost unavailableList updateIntvl n).base.nHostPerBucket := hn
    obtain ⟨hbase, hreb, hbuilt⟩ := built_createMapping hn₀ hsize rfl hfull₀ hnew
    exact ⟨by rw [hbase]; rfl, hreb, hbuilt, nofun⟩
  have H : Slots n s := Steps.inv_of_run (fun _ _ _ H h hC => (H.record hn hsize hC h).1) H₀ hfull hrun
  refine ⟨fun b hb => ?_, Steps.of_inv (fun _ _ _ H h hC => H.record hn hsize hC h) H₀ hfull⟩
  have hslot := H.built.slot b hb
  rw [H.perBucket] at hslot
  cases hs : s.2 with
  | none =>
    rw [hs] at hslot
    exact ⟨-1, hslot, rfl⟩
  | some m =>
    rw [hs] at hslot
    have hlt : n - 1 < (m.getD b []).length := by
      rw [H.rows m hs b hb]
      omega
    refine ⟨(m.getD b [])[n - 1], ?_, List.getElem?_eq_getElem hlt⟩
    rw [hslot]
    dsimp only [Option.map_some]
    rw [parityHosts, if_pos hb, List.getElem?_eq_getElem hlt, Option.getD_some]

end

/-! ## Two hosts that go down in turn -/

/-- The balancer of two hosts with one chunk for each bucket. -/
def turns (pos : Int) : BaseBalancer := ⟨[[1], [0]], 2, 1, 60, 100, pos⟩

/-- The host that is up has room for the parity of all buckets. -/
theorem fullFlow_two {digest : List Nat → List Nat} {bl : ParityBalancer} {h : Nat} (hh : h < 2)
    (hhost : bl.base.nHost = 2) (hper : bl.base.nHostPerBucket = 1)
    (hl : unavailableNow bl.base = .ok [1 - h]) : FullFlow digest bl := by
  intro bl₁ l hbl₁ hl₁
  obtain ⟨⟨hbase, -⟩, -⟩ := hashed_rows hbl₁
  obtain rfl : l = [1 - h] := Except.ok.inj (hl₁.symm.trans hl)
  rw [hbase]
  have hlt : h < bl.base.nHost := by rw [hhost]; exact hh
  have hweight : ∀ x, nodeWeight bl₁.bucketMapping 0 x = 0 := by
    intro x
    simp [nodeWeight]
  have A : Assigns (spare nBuckets bl.base bl₁.bucketMapping [1 - h])
      (MayHold bl.base bl₁.bucketMapping) fun _ : Fin nBuckets => ⟨h, hlt⟩ := by
    refine ⟨fun b => ?_, fun x => ?_⟩
    · rw [MayHold, hper]
      exact List.not_mem_nil
    · by_cases hx : ⟨h, hlt⟩ = x
      · subst hx
        refine le_trans (Finset.card_le_univ _) (le_of_eq ?_)
        have hup : h ∉ [1 - h] := by
          rw [List.mem_singleton]
          omega
        rw [Fintype.card_fin, spare, if_neg hup, hper, Nat.sub_self, hweight, expectedWeight, hper,
          hhost]
        rfl
      · refine le_trans (le_of_eq (Finset.card_eq_zero.mpr ?_)) (Nat.zero_le _)
        exact Finset.filter_false_of_mem fun _ _ => hx
  have H := layered_parityGraph nBuckets bl.base bl₁.bucketMapping [1 - h]
  have hpos : 0 < bl.base.nHostPerBucket := by
    rw [hper]
    exact Nat.one_pos
  have hsize : bl.base.nHostPerBucket * nBuckets ≤ maxCost := by
    rw [hper]
    decide
  obtain ⟨f, R⟩ := Graph.maxFlowOf_graphLib (fits_parityGraph bl₁.bucketMapping [1 - h] hpos hsize)
  have hval := (H.value_eq_card_iff R.maximal).mpr (exists_assigns_iff.mp ⟨_, A⟩)
  rw [Fintype.card_fin] at hval
  exact R.value.trans hval

theorem hashed_two {bl : ParityBalancer} {l : List Nat} (hper : bl.base.nHostPerBucket = 1)
    (hring : bl.ring = ringWithout md5Sum 2 l)
    (hl : 1 ≤ ((List.range 2).filter fun x => x ∉ l).length) :
    ∃ bl₁, hashed md5Sum bl = .ok bl₁ := by
  have hmap := hashMapping_eq bl.ring 2 (by decide : 1 ≤ 2) (List.range nBuckets) fun b _ => by
    obtain ⟨hget, hlen, -⟩ := bucketNodes_spec separates_two Nat.one_pos hl b
    rw [hring]
    exact ⟨hget, hlen⟩
  unfold hashed
  dsimp only
  rw [hper, hmap]
  exact ⟨_, rfl⟩

/-- Host 1 is down at the start and host 0 after one interval. -/
theorem turns_previous : ∃ bl₀ s,
    new md5Sum graphLib 2 [[1], [0]] 60 1 true = .ok bl₀ ∧
    [(100, 0), (160, 0)].foldlM (record md5Sum) (bl₀, none) = .ok s ∧
    s.2 = some bl₀.bucketMapping ∧
    ∀ b < nBuckets, ∃ host, (s.1.bucketMapping.getD b [])[1]? = some host ∧
      (bl₀.bucketMapping.getD b [])[0]? = some host := by
  have hsize : 1 * (nBuckets : Int) ≤ maxCost := by decide
  have hfull₀ : FullFlow md5Sum (unbuilt md5Sum 2 [[1], [0]] 60 1) :=
    fullFlow_two (by decide : 0 < 2) rfl rfl rfl
  obtain ⟨bl₁, hbl₁⟩ : ∃ bl₁, hashed md5Sum (unbuilt md5Sum 2 [[1], [0]] 60 1) = .ok bl₁ :=
    hashed_two (l := []) rfl rfl (by decide)
  obtain ⟨bl₀, hnew, hbase, hreb, -⟩ := exists_built (by decide) hsize rfl hfull₀ hbl₁ rfl
  -- the balancer after the first call and the one on which the second call builds
  obtain ⟨base, ring, m, reb, curr, prev⟩ := bl₀
  cases hbase
  cases hreb
  have hfirst : record md5Sum (⟨.new 2 [[1], [0]] 60 1, ring, m, true, curr, prev⟩, none) (100, 0) =
      .ok (⟨turns 0, ring, m, true, curr, prev⟩, none) := rfl
  obtain ⟨bl₂, hbl₂⟩ : ∃ bl₂, hashed md5Sum
      ⟨turns 1, ringWithout md5Sum 2 [0], m, true, curr, prev⟩ = .ok bl₂ :=
    hashed_two (l := [0]) rfl rfl (by decide)
  have hfull₁ : FullFlow md5Sum ⟨turns 1, ringWithout md5Sum 2 [0], m, true, curr, prev⟩ :=
    fullFlow_two (by decide : 1 < 2) rfl rfl rfl
  obtain ⟨bl', hbl', -⟩ := exists_built Nat.one_pos hsize rfl hfull₁ hbl₂ rfl
  have hmoved : moved md5Sum ⟨turns 0, ring, m, true, curr, prev⟩ 160 =
      .ok ⟨turns 1, ringWithout md5Sum 2 [0], m, true, curr, prev⟩ := rfl
  have hsecond : record md5Sum (⟨turns 0, ring, m, true, curr, prev⟩, none) (160, 0) =
      .ok (bl', some m) := by
    unfold record getNodesFromMapping
    rw [checkUpdate_of_rebuilds (by decide : (60 : Int) ≠ 0) rfl hmoved, hbl']
    rfl
  have hrun : [(100, 0), (160, 0)].foldlM (record md5Sum)
      (⟨.new 2 [[1], [0]] 60 1, ring, m, true, curr, prev⟩, none) = .ok (bl', some m) := by
    rw [foldlM_cons_ok hfirst, foldlM_cons_ok hsecond]
    rfl
  have hfull : Steps (record md5Sum) (fun s call _ => ∀ bl₁, rebuilds s.1 call.1 = true →
      moved md5Sum s.1 call.1 = .ok bl₁ → FullFlow md5Sum bl₁) [(100, 0), (160, 0)]
      (⟨.new 2 [[1], [0]] 60 1, ring, m, true, curr, prev⟩, none) := by
    refine fun s₁ hs₁ => ⟨fun _ hyes => absurd hyes Bool.false_ne_true, fun s₂ _ => ⟨?_, trivial⟩⟩
    cases hfirst.symm.trans hs₁
    intro bl₁ _ hbl₁
    cases hmoved.symm.trans hbl₁
    exact hfull₁
  exact ⟨_, _, hnew, hrun, rfl, (previous_parity Nat.one_pos hsize hfull₀ hnew hfull hrun).1⟩

end C2DN.LoadBalancer.ParityBalancer
