import C2DN.Simulator.Parity
import C2DN.Simulator.RingCorrect

/-!
# What `populate_hash_mapping` leaves behind

Every server that is up starts with capacity for all buckets, so a bucket gets the first servers
that are up behind its point. With parity rebalancing the server that the flow gives to a bucket
becomes the last of its `n` servers, and the others move on.
-/

namespace C2DN.Simulator.Cluster

section
variable {p : Params} {s : Cluster}

/-- The servers that are up. -/
def availableServers (p : Params) (s : Cluster) : List Nat :=
  (List.range p.nServer).filter fun x => (s.servers x).available

/-- The servers that are up, in the order in which they are met from the point of a bucket. -/
def clockwiseServers (p : Params) (s : Cluster) (b : Nat) : List Nat :=
  firsts ((p.ring.clockwise (p.ring.startOf (p.hash b % 2 ^ 32))).filter fun x =>
    (s.servers x).available)

/-- The row of a bucket before parity rebalancing. -/
def clockwiseRow (p : Params) (s : Cluster) (b : Nat) : List Nat :=
  (clockwiseServers p s b).take (p.n + maxNUnavail)

/-- The number of buckets of which a server is one of the first `r` servers. -/
def slots (mapping : Nat → Option (List Nat)) (r x : Nat) : Nat :=
  ∑ b ∈ Finset.range nBucket, (((mapping b).getD []).take r).count x

/-- A server that is up has no data of any bucket. -/
def Idle (p : Params) (s : Cluster) : Prop :=
  ∃ x < p.nServer, (s.servers x).available = true ∧
    ∀ b < nBucket, x ∉ (clockwiseServers p s b).take (p.n - 1)

theorem met_eq {capacity : Nat → Nat} {b : Nat}
    (h : ∀ x, 0 < capacity x ↔ (s.servers x).available = true) :
    p.ring.met capacity (p.ring.startOf (p.hash b % 2 ^ 32)) = clockwiseServers p s b := by
  unfold Ring.met clockwiseServers
  refine congrArg firsts (List.filter_congr fun x _ => ?_)
  rw [Bool.eq_iff_iff, decide_eq_true_iff]
  exact h x

theorem mem_clockwiseServers (hc : p.ring.Complete) {b x : Nat} :
    x ∈ clockwiseServers p s b ↔ x ∈ availableServers p s := by
  have hcap : ∀ x, 0 < (if (s.servers x).available then 1 else 0) ↔
      (s.servers x).available = true := by
    intro x
    split <;> simp_all
  rw [← met_eq hcap, Ring.mem_met hc, hcap, availableServers, List.mem_filter, List.mem_range]

theorem nodup_clockwiseServers {b : Nat} : (clockwiseServers p s b).Nodup := nodup_firsts

theorem length_clockwiseServers (hc : p.ring.Complete) (b : Nat) :
    (clockwiseServers p s b).length = (availableServers p s).length :=
  ((List.perm_ext_iff_of_nodup nodup_clockwiseServers (List.nodup_range.filter _)).mpr
    fun _ => mem_clockwiseServers hc).length_eq

/-! ## The loop over the buckets -/

theorem addAt_foldl {l : List Nat} {count : Nat → Nat} {x : Nat} :
    l.foldl (fun count y => addAt count y 1) count x = count x + l.count x := by
  induction l generalizing count with
  | nil => rfl
  | cons y l ih =>
    rw [List.foldl_cons, ih, List.count_cons, addAt]
    by_cases hy : y = x
    · subst hy
      rw [Function.update_self, if_pos (beq_self_eq_true _)]
      omega
    · rw [Function.update_of_ne (Ne.symm hy), if_neg (by simpa using hy), Nat.add_zero]

/-- The mapping and the capacities after the first `k` buckets. A server that is up gives at most
one unit of its capacity to a bucket. -/
structure Filled (p : Params) (s : Cluster) (k : Nat) (sc : Cluster × (Nat → Nat)) : Prop where
  servers : sc.1.servers = s.servers
  stat : sc.1.stat = s.stat
  row : ∀ b < k, sc.1.chMapping b = some (clockwiseRow p s b)
  count : ∀ x, sc.1.nBucketPerServer x =
    ∑ b ∈ Finset.range k, (counted p (clockwiseRow p s b)).count x
  up : ∀ x, 0 < sc.2 x → (s.servers x).available = true
  room : ∀ x, (s.servers x).available = true → nBucket * p.n ≤ sc.2 x + k

section
variable (hn : 0 < p.n) (hs : p.ring.Sorted) (hc : p.ring.Complete)
include hn

/-- No capacity runs out. -/
theorem Filled.capacity_pos {k : Nat} {sc : Cluster × (Nat → Nat)} (H : Filled p s k sc)
    (hk : k < nBucket) (x : Nat) : 0 < sc.2 x ↔ (s.servers x).available = true := by
  refine ⟨H.up x, fun hav => ?_⟩
  have hroom := H.room x hav
  have : nBucket ≤ nBucket * p.n := Nat.le_mul_of_pos_right _ hn
  omega

include hs hc

theorem Filled.populateBucket {k : Nat} {sc : Cluster × (Nat → Nat)} (H : Filled p s k sc)
    (hk : k < nBucket) (henough : p.n + maxNUnavail ≤ (availableServers p s).length) :
    ∃ sc', Cluster.populateBucket p sc k = .ok sc' ∧ Filled p s (k + 1) sc' := by
  have hmet : p.ring.met sc.2 (p.ring.startOf (p.hash k % 2 ^ 32)) = clockwiseServers p s k :=
    met_eq (H.capacity_pos hn hk)
  have hlen : p.n + maxNUnavail ≤
      (p.ring.met sc.2 (p.ring.startOf (p.hash k % 2 ^ 32))).length := by
    rw [hmet, length_clockwiseServers hc]
    exact henough
  obtain ⟨lead, capacity, hget, hroom⟩ := Ring.getServers_ok hs hlen
  rw [hmet] at hget
  obtain ⟨-, -, -, hshrinks⟩ := Ring.getServers_spec hget
  unfold Cluster.populateBucket
  rw [hget]
  refine ⟨_, rfl, H.servers, H.stat, fun b hb => ?_, fun x => ?_,
    fun x hx => H.up x (Nat.lt_of_lt_of_le hx (hshrinks x)), fun x hav => ?_⟩
  · dsimp only
    by_cases hbk : b = k
    · rw [hbk, Function.update_self]
      rfl
    · rw [Function.update_of_ne hbk]
      exact H.row b (by omega)
  · dsimp only
    rw [addAt_foldl, H.count, Finset.sum_range_succ]
    rfl
  · have := H.room x hav
    have := hroom x
    dsimp only
    omega

theorem populateBuckets_filled {k : Nat} (hk : k ≤ nBucket)
    (henough : p.n + maxNUnavail ≤ (availableServers p s).length) :
    ∃ sc, (List.range k).foldlM (Cluster.populateBucket p)
        ({ s with nBucketPerServer := fun _ => 0 },
          fun i => if (s.servers i).available then nBucket * p.n else 0) = .ok sc ∧
      Filled p s k sc := by
  induction k with
  | zero =>
    refine ⟨_, rfl, rfl, rfl, nofun, fun x => rfl, fun x hx => ?_, fun x hav => ?_⟩
    · by_contra hav
      dsimp only at hx
      rw [if_neg hav] at hx
      exact Nat.lt_irrefl 0 hx
    · dsimp only
      rw [if_pos hav]
      exact Nat.le_refl _
  | succ k ih =>
    obtain ⟨sc, hsc, H⟩ := ih (by omega)
    obtain ⟨sc', hsc', H'⟩ := H.populateBucket hn hs hc hk henough
    refine ⟨sc', ?_, H'⟩
    rw [List.range_succ, foldlM_concat hsc]
    exact hsc'

omit hn hs hc in
/-- Too few servers are up for the first bucket. -/
theorem populateBuckets_exhausted (hfew : (availableServers p s).length < p.n + maxNUnavail) :
    (List.range nBucket).foldlM (Cluster.populateBucket p)
      ({ s with nBucketPerServer := fun _ => 0 },
        fun i => if (s.servers i).available then nBucket * p.n else 0) =
      .error .ringExhausted := by
  rw [show List.range nBucket = 0 :: (List.range (nBucket - 1)).map Nat.succ from
    List.range_succ_eq_map, List.foldlM_cons]
  cases hget : p.ring.getServers p.hash 0 (p.n + maxNUnavail)
      fun i => if (s.servers i).available then nBucket * p.n else 0 with
  | error e =>
    cases Ring.getServers_error hget
    unfold Cluster.populateBucket
    dsimp only
    rw [hget]
    rfl
  | ok r =>
    obtain ⟨idxs, lead, capacity⟩ := r
    obtain ⟨hlen, hnodup, hservers, -⟩ := Ring.getServers_spec hget
    have hsub : idxs ⊆ availableServers p s := by
      intro x hx
      obtain ⟨hlt, hpos⟩ := hservers x hx
      refine List.mem_filter.mpr ⟨List.mem_range.mpr hlt, ?_⟩
      by_contra hav
      rw [if_neg hav] at hpos
      exact Nat.lt_irrefl 0 hpos
    have := (hnodup.subperm hsub).length_le
    omega

end

/-! ## Parity rebalancing -/

/-- The arcs that `find_parity_mapping` adds. -/
def builtArcs (p : Params) (s : Cluster) : List Arc :=
  parityArcs p (fun b => (clockwiseServers p s b).take (p.n - 1))
    ((nBucket * p.n + s.stat.nAvailServer - 1) / s.stat.nAvailServer)

/-- A bucket gets flow from a server. -/
def Receives (p : Params) (s : Cluster) (b x : Nat) : Prop :=
  ∃ k, (builtArcs p s)[k]? = some ⟨2 + x, 2 + p.nServer + b, 1⟩ ∧
    0 < p.maxFlow (builtArcs p s) k

theorem parityArcs_congr {d d' : Nat → List Nat} {cap : Int} (h : ∀ b < nBucket, d b = d' b) :
    parityArcs p d cap = parityArcs p d' cap := by
  have hon : ∀ i, ((List.range nBucket).filter fun b => decide (i ∈ d b)) =
      (List.range nBucket).filter fun b => decide (i ∈ d' b) := fun i =>
    List.filter_congr fun b hb => by rw [h b (List.mem_range.mp hb)]
  have hoff : ∀ i, ((List.range nBucket).filter fun b => decide (i ∉ d b)) =
      (List.range nBucket).filter fun b => decide (i ∉ d' b) := fun i =>
    List.filter_congr fun b hb => by rw [h b (List.mem_range.mp hb)]
  unfold parityArcs parityArcsOf
  simp only [hon, hoff]

theorem take_clockwiseRow {r b : Nat} (hr : r ≤ p.n + maxNUnavail) :
    (clockwiseRow p s b).take r = (clockwiseServers p s b).take r := by
  rw [clockwiseRow, List.take_take, Nat.min_eq_left hr]

section
variable {sc : Cluster × (Nat → Nat)} (H : Filled p s nBucket sc)
include H

theorem Filled.dataServers {b : Nat} (hb : b < nBucket) :
    ((sc.1.chMapping b).getD []).take (p.n - 1) = (clockwiseServers p s b).take (p.n - 1) := by
  rw [H.row b hb, Option.getD_some, take_clockwiseRow (by omega)]

theorem Filled.idle_iff :
    ((List.range p.nServer).any fun i => (sc.1.servers i).available &&
      (List.range nBucket).all fun b =>
        decide (i ∉ ((sc.1.chMapping b).getD []).take (p.n - 1))) = true ↔ Idle p s := by
  rw [List.any_eq_true, Idle, H.servers]
  refine exists_congr fun x => ?_
  rw [List.mem_range, Bool.and_eq_true_iff, List.all_eq_true]
  refine and_congr_right fun _ => and_congr_right fun _ => ?_
  constructor
  · intro h b hb
    rw [← H.dataServers hb]
    exact of_decide_eq_true (h b (List.mem_range.mpr hb))
  · intro h b hb
    rw [H.dataServers (List.mem_range.mp hb)]
    exact decide_eq_true (h b (List.mem_range.mp hb))

theorem Filled.findParityMapping_idle (havail : s.stat.nAvailServer ≠ 0) (hidle : Idle p s) :
    findParityMapping p sc.1 = .error .idleServer := by
  unfold findParityMapping
  rw [H.stat, if_neg havail]
  dsimp only
  rw [if_pos (H.idle_iff.mpr hidle)]

theorem Filled.findParityMapping_ok (havail : s.stat.nAvailServer ≠ 0) (hidle : ¬ Idle p s) :
    findParityMapping p sc.1 = .ok { sc.1 with
      chMapping := applyFlow p (p.maxFlow (builtArcs p s)) (builtArcs p s) sc.1.chMapping
      nBucketPerServer :=
        countFlow (p.maxFlow (builtArcs p s)) (builtArcs p s) sc.1.nBucketPerServer } := by
  have harcs : ∀ cap : Int,
      parityArcs p (fun b => ((sc.1.chMapping b).getD []).take (p.n - 1)) cap =
      parityArcs p (fun b => (clockwiseServers p s b).take (p.n - 1)) cap :=
    fun cap => parityArcs_congr fun b hb => H.dataServers hb
  unfold findParityMapping
  rw [H.stat, if_neg havail]
  dsimp only
  rw [if_neg fun h => hidle (H.idle_iff.mp h), harcs, H.stat]
  rfl

end

/-! ## The contract -/

/-- Every bucket has `n + MAX_N_UNAVAIL` servers, all of them up. -/
def Spread (p : Params) (s : Cluster) : Prop :=
  ∀ b < nBucket, ∃ idxs, s.chMapping b = some idxs ∧ idxs.length = p.n + maxNUnavail ∧
    ∀ x ∈ idxs, x ∈ availableServers p s

/-- The servers of the buckets after rebalancing the state `s`. -/
structure Rebalanced (p : Params) (s s' : Cluster) : Prop where
  data : ∀ b < nBucket, ∀ idxs, s'.chMapping b = some idxs →
    idxs.take (p.n - 1) = (clockwiseServers p s b).take (p.n - 1)
  parity : ∀ b < nBucket, ∀ idxs, s'.chMapping b = some idxs →
    ∀ x, idxs[p.n - 1]? = some x → x ∉ idxs.take (p.n - 1)
  moved : ∀ b < nBucket, ∀ idxs, s'.chMapping b = some idxs → ∀ x, Receives p s b x →
    idxs[p.n - 1]? = some x ∧ idxs[p.n]? = (clockwiseServers p s b)[p.n - 1]? ∧
      idxs[p.n + 1]? = (clockwiseServers p s b)[p.n]?
  count : (network (builtArcs p s)).value 0 (fun i => p.maxFlow (builtArcs p s) i) = nBucket →
    ∀ x, s'.nBucketPerServer x = slots s'.chMapping p.n x

section
variable {sc : Cluster × (Nat → Nat)}

/-- The servers of a bucket after rebalancing. -/
def rebalancedRow (p : Params) (s : Cluster) (b : Nat) : List Nat :=
  match parityServer p (p.maxFlow (builtArcs p s)) (builtArcs p s) b with
  | none => clockwiseRow p s b
  | some x => shiftIn p.n (clockwiseRow p s b) x

theorem parityServer_of_receives {b x : Nat}
    (F : (network (builtArcs p s)).Feasible 0 1 fun i => p.maxFlow (builtArcs p s) i)
    (h : Receives p s b x) :
    parityServer p (p.maxFlow (builtArcs p s)) (builtArcs p s) b = some x := by
  obtain ⟨k, hk, hpos⟩ := h
  obtain ⟨hlt, hget⟩ := List.getElem?_eq_some_iff.mp hk
  exact parityServer_of_flow F hlt (congrArg Arc.tail hget) (congrArg Arc.head hget) hpos

theorem row_clockwiseRow (hc : p.ring.Complete)
    (henough : p.n + maxNUnavail ≤ (availableServers p s).length) (b : Nat) :
    Row p s (clockwiseRow p s b) := by
  have hmem : ∀ x ∈ clockwiseRow p s b, x ∈ availableServers p s := fun x hx =>
    (mem_clockwiseServers hc).mp (List.mem_of_mem_take hx)
  refine ⟨?_, fun x hx => List.mem_range.mp (List.mem_filter.mp (hmem x hx)).1,
    fun x hx => (List.mem_filter.mp (hmem x hx)).2, ?_⟩
  · rw [clockwiseRow, List.length_take, length_clockwiseServers hc, Nat.min_eq_left henough]
  · have hsub : ((clockwiseRow p s b).take p.n).Sublist (clockwiseServers p s b) :=
      (List.take_sublist _ _).trans (List.take_sublist _ _)
    exact nodup_clockwiseServers.sublist hsub

section
variable (hn : 0 < p.n) (hc : p.ring.Complete)
  (henough : p.n + maxNUnavail ≤ (availableServers p s).length)
include hn hc henough

theorem take_pred_rebalancedRow (b : Nat) :
    (rebalancedRow p s b).take (p.n - 1) = (clockwiseServers p s b).take (p.n - 1) := by
  rw [← take_clockwiseRow (by omega : p.n - 1 ≤ p.n + maxNUnavail)]
  unfold rebalancedRow
  split
  · rfl
  · exact take_pred_shiftIn hn (row_clockwiseRow hc henough b).length

/-- The data of a bucket and its parity. -/
theorem count_rebalancedRow {b y : Nat}
    (h : parityServer p (p.maxFlow (builtArcs p s)) (builtArcs p s) b = some y) (x : Nat) :
    ((rebalancedRow p s b).take p.n).count x =
      ((clockwiseServers p s b).take (p.n - 1)).count x +
        if parityServer p (p.maxFlow (builtArcs p s)) (builtArcs p s) b = some x then 1 else 0 := by
  have hrow : Row p s (clockwiseRow p s b) := row_clockwiseRow hc henough b
  rw [rebalancedRow, h]
  dsimp only
  rw [take_shiftIn hn hrow.length, take_clockwiseRow (by omega), List.count_append,
    List.count_singleton]
  by_cases hyx : y = x
  · rw [if_pos (beq_iff_eq.mpr hyx), if_pos (congrArg some hyx)]
  · rw [if_neg (by simpa using hyx), if_neg fun h => hyx (Option.some.inj h)]

variable (F : (network (builtArcs p s)).Feasible 0 1 fun i => p.maxFlow (builtArcs p s) i)
include F

theorem row_rebalancedRow (b : Nat) : Row p s (rebalancedRow p s b) := by
  have hrow : ∀ b, Row p s (clockwiseRow p s b) := row_clockwiseRow hc henough
  unfold rebalancedRow
  split
  · exact hrow b
  · next x hx =>
    obtain ⟨hlt, -, hnew⟩ := of_parityServer F hx
    obtain ⟨b', -, hdata⟩ := exists_data_of_parityServer F hx
    rw [← take_clockwiseRow (by omega)] at hdata hnew
    exact row_shiftIn hn (hrow b) hlt ((hrow b').available x (List.mem_of_mem_take hdata)) hnew

/-- What `find_parity_mapping` makes of the filled mapping. -/
theorem Filled.rebalanced {sc : Cluster × (Nat → Nat)} (H : Filled p s nBucket sc)
    (hreb : p.parityRebalance = true) {s' : Cluster} (hservers : s'.servers = s.servers)
    (hmapping : s'.chMapping =
      applyFlow p (p.maxFlow (builtArcs p s)) (builtArcs p s) sc.1.chMapping)
    (hcount : s'.nBucketPerServer =
      countFlow (p.maxFlow (builtArcs p s)) (builtArcs p s) sc.1.nBucketPerServer) :
    Spread p s' ∧ Rebalanced p s s' := by
  have hrow : ∀ b < nBucket, s'.chMapping b = some (rebalancedRow p s b) := by
    intro b hb
    have happly : applyFlow p (p.maxFlow (builtArcs p s)) (builtArcs p s) sc.1.chMapping b =
        match parityServer p (p.maxFlow (builtArcs p s)) (builtArcs p s) b with
        | none => sc.1.chMapping b
        | some x => (sc.1.chMapping b).map fun idxs => shiftIn p.n idxs x :=
      applyFlow_parityServer F sc.1.chMapping b
    rw [hmapping, happly, H.row b hb, rebalancedRow]
    cases parityServer p (p.maxFlow (builtArcs p s)) (builtArcs p s) b with
    | none => rfl
    | some x => rfl
  have hok := row_rebalancedRow hn hc henough F
  refine ⟨fun b hb => ⟨_, hrow b hb, (hok b).length, fun x hx => ?_⟩, fun b hb idxs hidxs => ?_,
    fun b hb idxs hidxs x hx => ?_, fun b hb idxs hidxs x hx => ?_, fun hvalue x => ?_⟩
  · refine List.mem_filter.mpr ⟨List.mem_range.mpr ((hok b).lt x hx), ?_⟩
    rw [hservers]
    exact (hok b).available x hx
  · rw [hrow b hb] at hidxs
    cases hidxs
    exact take_pred_rebalancedRow hn hc henough b
  · rw [hrow b hb] at hidxs
    cases hidxs
    obtain ⟨hlt, hget⟩ := List.getElem?_eq_some_iff.mp hx
    have hnodup := (hok b).nodup
    rw [show p.n = p.n - 1 + 1 by omega, List.take_succ_eq_append_getElem hlt, hget] at hnodup
    exact fun hmem => (List.nodup_append.mp hnodup).2.2 x hmem x (List.mem_singleton.mpr rfl) rfl
  · rw [hrow b hb] at hidxs
    cases hidxs
    have hlen := (row_clockwiseRow hc henough b).length
    obtain ⟨hlast, hnext⟩ := getElem?_shiftIn (x := x) hn hlen
    have hcw : ∀ i < maxNUnavail,
        (clockwiseRow p s b)[p.n - 1 + i]? = (clockwiseServers p s b)[p.n - 1 + i]? := by
      intro i hi
      rw [clockwiseRow, List.getElem?_take, if_pos (by omega)]
    rw [rebalancedRow, parityServer_of_receives F hx]
    refine ⟨hlast, (hnext 0 (by decide)).trans (hcw 0 (by decide)), ?_⟩
    rw [hnext 1 (by decide), hcw 1 (by decide),
      Nat.sub_add_cancel hn]
  · have hall := (value_eq_iff_parityServer F).mp hvalue
    have hdata : ∀ b, counted p (clockwiseRow p s b) = (clockwiseServers p s b).take (p.n - 1) := by
      intro b
      rw [counted, if_pos hreb, take_clockwiseRow (by omega)]
    rw [hcount]
    refine (countFlow_parityServer F sc.1.nBucketPerServer x).trans ?_
    rw [H.count, slots, ← Finset.sum_add_distrib]
    refine Finset.sum_congr rfl fun b hb => ?_
    have hb := Finset.mem_range.mp hb
    obtain ⟨y, hy⟩ := hall b hb
    rw [hrow b hb, Option.getD_some, count_rebalancedRow hn hc henough hy, hdata]
    rfl

end

end

/-! ## Outcomes -/

section
variable (hn : 0 < p.n) (hs : p.ring.Sorted) (hc : p.ring.Complete)
  (henough : p.n + maxNUnavail ≤ (availableServers p s).length)
include hn hs hc henough

/-- Rebalancing comes after the loop over the buckets. -/
theorem populateHashMapping_eq : ∃ sc, Filled p s nBucket sc ∧ populateHashMapping p s =
    if p.parityRebalance = true then findParityMapping p sc.1 else .ok sc.1 := by
  obtain ⟨sc, hsc, H⟩ := populateBuckets_filled hn hs hc (Nat.le_refl nBucket) henough
  refine ⟨sc, H, ?_⟩
  unfold populateHashMapping
  dsimp only
  rw [hsc]
  rfl

theorem populateHashMapping_plain (hreb : p.parityRebalance = false) :
    ∃ s', populateHashMapping p s = .ok s' ∧ Spread p s' ∧
      (∀ b < nBucket,
        s'.chMapping b = some ((clockwiseServers p s b).take (p.n + maxNUnavail))) ∧
      ∀ x, s'.nBucketPerServer x = slots s'.chMapping p.n x := by
  obtain ⟨sc, H, heq⟩ := populateHashMapping_eq hn hs hc henough
  rw [if_neg (by rw [hreb]; exact Bool.false_ne_true)] at heq
  have hrow : ∀ b, Row p s (clockwiseRow p s b) := row_clockwiseRow hc henough
  refine ⟨sc.1, heq, fun b hb => ⟨_, H.row b hb, (hrow b).length, fun x hx => ?_⟩, H.row,
    fun x => ?_⟩
  · refine List.mem_filter.mpr ⟨List.mem_range.mpr ((hrow b).lt x hx), ?_⟩
    rw [H.servers]
    exact (hrow b).available x hx
  · rw [H.count, slots]
    refine Finset.sum_congr rfl fun b hb => ?_
    rw [H.row b (Finset.mem_range.mp hb), Option.getD_some, counted,
      if_neg (by rw [hreb]; exact Bool.false_ne_true)]

end

/-- **The contract** of `populate_hash_mapping`. With `n = 1` every server that is up is idle. -/
theorem populateHashMapping_contract (hn : 0 < p.n) (hs : p.ring.Sorted) (hc : p.ring.Complete)
    (hflow : FindsFlow p.maxFlow) :
    (p.n + maxNUnavail ≤ (availableServers p s).length →
      (p.parityRebalance = false → ∃ s', populateHashMapping p s = .ok s' ∧ Spread p s' ∧
        (∀ b < nBucket,
          s'.chMapping b = some ((clockwiseServers p s b).take (p.n + maxNUnavail))) ∧
        ∀ x, s'.nBucketPerServer x = slots s'.chMapping p.n x) ∧
      (p.parityRebalance = true → s.stat.nAvailServer ≠ 0 → ¬ Idle p s →
        ∃ s', populateHashMapping p s = .ok s' ∧ Spread p s' ∧ Rebalanced p s s') ∧
      (p.parityRebalance = true → s.stat.nAvailServer ≠ 0 → Idle p s →
        populateHashMapping p s = .error .idleServer) ∧
      (p.parityRebalance = true → s.stat.nAvailServer = 0 →
        populateHashMapping p s = .error .divideByZero)) ∧
    ((availableServers p s).length < p.n + maxNUnavail →
      populateHashMapping p s = .error .ringExhausted) := by
  have F : (network (builtArcs p s)).Feasible 0 1 fun i => p.maxFlow (builtArcs p s) i :=
    hflow _ fun a ha => capacity_nonneg ha
  refine ⟨fun henough => ⟨populateHashMapping_plain hn hs hc henough, fun hreb havail hidle => ?_,
    fun hreb havail hidle => ?_, fun hreb havail => ?_⟩, fun hfew => ?_⟩
  · obtain ⟨sc, H, heq⟩ := populateHashMapping_eq hn hs hc henough
    rw [if_pos hreb, H.findParityMapping_ok havail hidle] at heq
    exact ⟨_, heq, H.rebalanced hn hc henough F hreb H.servers rfl rfl⟩
  · obtain ⟨sc, H, heq⟩ := populateHashMapping_eq hn hs hc henough
    rw [heq, if_pos hreb, H.findParityMapping_idle havail hidle]
  · obtain ⟨sc, H, heq⟩ := populateHashMapping_eq hn hs hc henough
    rw [heq, if_pos hreb, findParityMapping, H.stat, if_pos havail]
  · unfold populateHashMapping
    dsimp only
    rw [populateBuckets_exhausted hfew]
    rfl

end

/-! ## A cluster of five servers

Bucket `b` starts at server `b % 5`, and its parity goes to the server that is the fourth from there on. -/

theorem sorted_lineRing {nServer : Nat} (h : 0 < nServer) : (lineRing nServer h).Sorted := by
  refine List.pairwise_map.mpr ?_
  exact List.pairwise_lt_range.imp fun h => Nat.le_of_lt h

theorem complete_lineRing {nServer : Nat} (h : 0 < nServer) : (lineRing nServer h).Complete :=
  fun x hx => ⟨⟨x, x⟩, List.mem_map.mpr ⟨x, List.mem_range.mpr hx, rfl⟩, rfl⟩

/-- The ring, without the flow. -/
def spokes : Params :=
  { lineParams .c2dn 3 2 5 (by decide) with parityRebalance := true, hash := fun b => b % 5 }

def spokeData (b : Nat) : List Nat := [b % 5, (b + 1) % 5]

def spokeArcs : List Arc := parityArcs spokes spokeData 60

def spokeParity (b : Fin nBucket) : Fin 5 := ⟨(b + 3) % 5, Nat.mod_lt _ (by decide)⟩

/-- The flow over the spokes, and none in other networks. -/
def spokeFlow (arcs : List Arc) (k : Nat) : Int :=
  if h : arcs = spokeArcs ∧ k < spokeArcs.length then
    Layered.pathFlow (network spokeArcs) 0 1 (fun i : Fin 5 => 2 + i.1)
      (fun b : Fin nBucket => 7 + b.1) spokeParity ⟨k, h.2⟩
  else 0

def wheel : Params := { spokes with maxFlow := spokeFlow }

theorem layered_spokeArcs : Layered (network spokeArcs) 0 1 (fun i : Fin 5 => 2 + i.1)
    (fun b : Fin nBucket => 7 + b.1) (fun i => spare nBucket spokeData 60 i.1)
    fun i b => i.1 ∉ spokeData b.1 :=
  layered_parityArcs nBucket spokes spokeData 60

theorem assigns_spokeParity : Assigns (fun i : Fin 5 => spare nBucket spokeData 60 i.1)
    (fun i (b : Fin nBucket) => i.1 ∉ spokeData b.1) spokeParity where
  allowed := by decide +kernel
  le := by decide +kernel

theorem spokeFlow_eq (i : Fin spokeArcs.length) : spokeFlow spokeArcs i = Layered.pathFlow
    (network spokeArcs) 0 1 (fun i : Fin 5 => 2 + i.1) (fun b : Fin nBucket => 7 + b.1) spokeParity i :=
  dif_pos ⟨rfl, i.2⟩

theorem spokeFlow_findsFlow : FindsFlow spokeFlow := by
  intro arcs hcap
  by_cases h : arcs = spokeArcs
  · subst h
    rw [funext spokeFlow_eq]
    exact (layered_spokeArcs.feasible_pathFlow assigns_spokeParity).1
  · have hflow : (fun i : Fin arcs.length => spokeFlow arcs i) = fun _ => 0 :=
      funext fun i => dif_neg fun h' => h h'.1
    rw [hflow]
    exact ⟨fun _ => Int.le_refl _, fun i => hcap _ (List.getElem_mem i.2), fun _ _ _ => by simp⟩

/-- A cluster of which no bucket is mapped and all servers are up. -/
def unmapped (nServer : Nat) : Cluster where
  servers _ := ⟨.init .lru 100, true⟩
  chMapping _ := none
  prevChMapping _ := none
  oriLeadMapping _ := 0
  nBucketPerServer _ := 0
  objFreqMap _ := 0
  readLoadByte _ := 0
  writeLoadByte _ := 0
  stat := ⟨nServer, 0, 0, 0, 0, 0, 0, 0, 0, fun _ => 0, 0, 0⟩
  bucketStat _ := ⟨0, 0, 0, 0⟩

theorem builtArcs_wheel : builtArcs wheel (unmapped 5) = spokeArcs :=
  parityArcs_congr (by decide +kernel)

theorem receives_wheel {b : Nat} (hb : b < nBucket) : Receives wheel (unmapped 5) b ((b + 3) % 5) := by
  have hnot : (b + 3) % 5 ∉ spokeData b := assigns_spokeParity.allowed ⟨b, hb⟩
  have hmem : (⟨2 + (b + 3) % 5, 7 + b, 1⟩ : Arc) ∈ spokeArcs :=
    mem_parityArcsOf.mpr (.inr (.inl ⟨_, Nat.mod_lt _ (by decide), b, hb, hnot, rfl⟩))
  obtain ⟨k, hk, harc⟩ := List.mem_iff_getElem.mp hmem
  refine ⟨k, ?_, ?_⟩
  · rw [builtArcs_wheel, List.getElem?_eq_getElem hk, harc]
    rfl
  · have hmax : wheel.maxFlow = spokeFlow := rfl
    rw [builtArcs_wheel, hmax]
    refine lt_of_lt_of_eq ?_ (spokeFlow_eq ⟨k, hk⟩).symm
    refine Int.natCast_pos.mpr (Finset.card_pos.mpr ⟨⟨b, hb⟩, Finset.mem_filter.mpr
      ⟨Finset.mem_univ _, ?_, .inr (.inl ⟨?_, ?_⟩)⟩⟩)
    · change 0 < spokeArcs[k].capacity
      rw [harc]
      exact Int.one_pos
    · exact congrArg Arc.tail harc
    · exact congrArg Arc.head harc

/-- Every server has data of a bucket; not so when all buckets start at the same server. Four servers
are too few. -/
theorem wheel_contract :
    (∃ s', populateHashMapping wheel (unmapped 5) = .ok s' ∧ Spread wheel s' ∧
      Rebalanced wheel (unmapped 5) s' ∧ ∀ b < nBucket, Receives wheel (unmapped 5) b ((b + 3) % 5)) ∧
    (∃ s', populateHashMapping (lineParams .c2dn 3 2 5 (by decide)) (unmapped 5) = .ok s' ∧
      Spread (lineParams .c2dn 3 2 5 (by decide)) s') ∧
    populateHashMapping { wheel with hash := fun _ => 0 } (unmapped 5) = .error .idleServer ∧
    populateHashMapping (lineParams .c2dn 3 2 4 (by decide)) (unmapped 4) =
      .error .ringExhausted := by
  have hzero : FindsFlow fun _ _ => 0 := fun arcs hcap =>
    ⟨fun _ => Int.le_refl _, fun i => hcap _ (List.getElem_mem i.2), fun _ _ _ => by simp⟩
  refine ⟨?_, ?_, ?_, ?_⟩
  · obtain ⟨s', hok, hspread, hreb⟩ := ((populateHashMapping_contract (p := wheel) (s := unmapped 5)
      (by decide) (sorted_lineRing (by decide)) (complete_lineRing (by decide))
      spokeFlow_findsFlow).1 (by decide)).2.1 rfl (by decide) (by
        rintro ⟨x, hx, -, hidle⟩
        have hdata : ∀ x < 5, x ∈ (clockwiseServers wheel (unmapped 5) x).take 2 := by decide +kernel
        exact hidle x (Nat.lt_trans hx (by decide)) (hdata x hx))
    exact ⟨s', hok, hspread, hreb, fun b hb => receives_wheel hb⟩
  · obtain ⟨s', hok, hspread, -⟩ := ((populateHashMapping_contract
      (p := lineParams .c2dn 3 2 5 (by decide)) (s := unmapped 5) (by decide)
      (sorted_lineRing (by decide)) (complete_lineRing (by decide)) hzero).1 (by decide)).1 rfl
    exact ⟨s', hok, hspread⟩
  · refine ((populateHashMapping_contract (p := { wheel with hash := fun _ => 0 }) (by decide)
      (sorted_lineRing (by decide)) (complete_lineRing (by decide))
      spokeFlow_findsFlow).1 (by decide)).2.2.1 rfl (by decide) ⟨2, by decide, rfl, fun b _ => ?_⟩
    exact (by decide +kernel : 2 ∉
      (clockwiseServers { wheel with hash := fun _ => 0 } (unmapped 5) 0).take 2)
  · exact (populateHashMapping_contract (p := lineParams .c2dn 3 2 4 (by decide)) (by decide)
      (sorted_lineRing (by decide)) (complete_lineRing (by decide)) hzero).2 (by decide)

end C2DN.Simulator.Cluster
