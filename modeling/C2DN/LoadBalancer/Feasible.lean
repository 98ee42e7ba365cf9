import C2DN.LoadBalancer.Rebalance
import C2DN.Simulator.Parity

/-!
# When parity can be rebalanced

The prototype and the simulator build networks of the same shape. The maximum flow gives a parity
host to every bucket if and only if every set of hosts has spare weight for the buckets that have no
other hosts. Data that is placed unevenly can violate this.
-/

namespace C2DN

open LoadBalancer Simulator

/-- **Feasibility.** The maximum flow reaches the number of buckets if and only if the hosts can cover
the buckets, and then every bucket gets a parity host. -/
theorem parity_feasible_iff {nBucket : Nat} {base : BaseBalancer} {m : List (List Int)} {l : List Nat}
    {r : Int × Graph} (hr : (ParityBalancer.parityGraphOf nBucket base m l).MaxFlowOf 0 1 r)
    {p : Params} {dataServers : Nat → List Nat} {serverCap : Int} {flow : Nat → Int}
    (F : (network (Cluster.parityArcsOf nBucket p dataServers serverCap)).Maximal 0 1
      fun i => flow i) :
    (r.1 = nBucket ↔ Coverable (ParityBalancer.spare nBucket base m l)
      (fun h (b : Fin nBucket) => ParityBalancer.MayHold base m h b)) ∧
    (r.1 = nBucket → ∀ b < nBucket, ∃ h < base.nHost, h ∉ l ∧
      (h : Int) ∉ (m.getD b []).take (base.nHostPerBucket - 1) ∧
      ∃ c, (h + 2, b + base.nHost + 2, c) ∈ r.2.bfs 0) ∧
    ((network (Cluster.parityArcsOf nBucket p dataServers serverCap)).value 0 (fun i => flow i) =
      nBucket ↔ Coverable (fun i : Fin p.nServer => Cluster.spare nBucket dataServers serverCap i)
        (fun i (b : Fin nBucket) => i.1 ∉ dataServers b)) ∧
    ((network (Cluster.parityArcsOf nBucket p dataServers serverCap)).value 0 (fun i => flow i) =
      nBucket → ∀ b < nBucket, ∃ x < p.nServer, x ∉ dataServers b ∧ (∃ b' < nBucket, x ∈ dataServers b') ∧
        Cluster.parityServer p flow (Cluster.parityArcsOf nBucket p dataServers serverCap) b =
          some x) := by
  obtain ⟨f, R⟩ := hr
  have H := ParityBalancer.layered_parityGraph nBucket base m l
  have H' := Cluster.layered_parityArcs nBucket p dataServers serverCap
  refine ⟨?_, fun hval b hb => ?_, ?_, fun hval b hb => ?_⟩
  · rw [R.value, ← H.value_eq_card_iff R.maximal, Fintype.card_fin]
  · obtain ⟨a, A, -, hcall⟩ := ParityBalancer.exists_parityHosts R hval
    refine ⟨a ⟨b, hb⟩, (a ⟨b, hb⟩).2, ?_, A.allowed ⟨b, hb⟩, hcall ⟨b, hb⟩⟩
    exact ParityBalancer.not_mem_of_spare
      (lt_of_lt_of_le (Finset.card_pos.mpr ⟨⟨b, hb⟩, by simp⟩) (A.le (a ⟨b, hb⟩)))
  · rw [← H'.value_eq_card_iff F, Fintype.card_fin]
  · obtain ⟨x, hx⟩ := (Cluster.value_eq_iff_parityServer F.toFeasible).mp hval b hb
    obtain ⟨hlt, -, hnot⟩ := Cluster.of_parityServer F.toFeasible hx
    exact ⟨x, hlt, hnot, Cluster.exists_data_of_parityServer F.toFeasible hx, hx⟩

/-- One pair of hosts in the prototype, and servers 0 and 1 of the simulator with all data on
server 0. -/
theorem onePair_feasible : ∃ flow : Nat → Int,
    (network (Cluster.parityArcsOf nBuckets (lineParams .c2dn 2 1 2 (by decide)) (fun _ => [0])
      200)).Maximal 0 1 (fun i => flow i) ∧
    Coverable (ParityBalancer.spare nBuckets ParityBalancer.onePair.base
        ParityBalancer.onePair.bucketMapping [2])
      (fun h (b : Fin nBuckets) => ParityBalancer.MayHold ParityBalancer.onePair.base
        ParityBalancer.onePair.bucketMapping h b) ∧
    ((network (Cluster.parityArcsOf nBuckets (lineParams .c2dn 2 1 2 (by decide)) (fun _ => [0])
      200)).value 0 (fun i => flow i) = nBuckets ↔
      Coverable (fun i : Fin 2 => Cluster.spare nBuckets (fun _ => [0]) 200 i)
        (fun i (_ : Fin nBuckets) => i.1 ∉ [0])) := by
  have H := Cluster.layered_parityArcs nBuckets (lineParams .c2dn 2 1 2 (by decide)) (fun _ => [0])
    200
  obtain ⟨f, F⟩ := Network.exists_maximal _ 0 1 H.nonneg
  let flow (k : Nat) : Int := if hk : k < _ then f ⟨k, hk⟩ else 0
  have hflow : (fun i : Fin _ => flow i.1) = f := funext fun i => dif_pos i.2
  rw [← hflow] at F
  have h := parity_feasible_iff
    (ParityBalancer.maxFlowOf_assigned ParityBalancer.onePair_assigns) F
  exact ⟨flow, F, h.1.mp rfl, h.2.2.1⟩

/-! ## Four hosts

With three chunks for each bucket, bucket 0 has its data on hosts 0 and 1 and all others have theirs
on hosts 2 and 3, which have no spare weight then. -/

def skewedBase : BaseBalancer := ⟨[], 4, 3, -1, -1, 0⟩

def skewedRow (b : Nat) : List Nat := if b = 0 then [0, 1] else [2, 3]

def skewedMapping : List (List Int) :=
  (List.range nBuckets).map fun b => (skewedRow b).map Int.ofNat ++ [-1, -1]

/-- The hosts of the other buckets have no spare weight, neither in the prototype nor in the
simulator. -/
theorem skewed_spare :
    (∀ h : Fin skewedBase.nHost, 2 ≤ h.1 →
      ParityBalancer.spare nBuckets skewedBase skewedMapping [] h = 0) ∧
    ∀ i < 4, 2 ≤ i → Cluster.spare nBucket skewedRow 75 i = 0 := by
  decide +kernel

/-- Bucket 0 can only go to these hosts. -/
theorem skewed_allowed :
    (∀ h : Fin skewedBase.nHost,
      ParityBalancer.MayHold skewedBase skewedMapping h (⟨0, by decide⟩ : Fin nBuckets) → 2 ≤ h.1) ∧
    ∀ i < 4, i ∉ skewedRow 0 → 2 ≤ i := by
  decide +kernel

/-- No maximum flow reaches all buckets, although every bucket has its data on two different hosts and
all hosts are up. -/
theorem skewed_not_feasible :
    (∀ b < nBuckets, (skewedMapping.getD b []).take (skewedBase.nHostPerBucket - 1) =
      (skewedRow b).map Int.ofNat ∧ (skewedRow b).Nodup ∧ ∀ x ∈ skewedRow b, x < 4) ∧
    (∀ r, (ParityBalancer.parityGraphOf nBuckets skewedBase skewedMapping []).MaxFlowOf 0 1 r →
      r.1 ≠ nBuckets) ∧
    ∀ flow, (network (Cluster.parityArcsOf nBucket (lineParams .c2dn 3 2 4 (by decide)) skewedRow
        75)).Maximal 0 1 flow →
      (network (Cluster.parityArcsOf nBucket (lineParams .c2dn 3 2 4 (by decide)) skewedRow
        75)).value 0 flow ≠ nBucket := by
  refine ⟨by decide +kernel, ?_, ?_⟩
  · rintro r ⟨f, R⟩ hval
    rw [R.value] at hval
    refine not_coverable (X := Finset.univ.filter fun h : Fin skewedBase.nHost => 2 ≤ h.1)
      (fun h hh => Finset.mem_filter.mpr ⟨Finset.mem_univ h, skewed_allowed.1 h hh⟩)
      (fun h hh => skewed_spare.1 h (Finset.mem_filter.mp hh).2)
      (((ParityBalancer.layered_parityGraph nBuckets skewedBase skewedMapping []).value_eq_card_iff
        R.maximal).mp ?_)
    rw [hval, Fintype.card_fin]
  · intro flow F hval
    refine not_coverable (r := (⟨0, by decide⟩ : Fin nBucket))
      (X := Finset.univ.filter fun i : Fin 4 => 2 ≤ i.1)
      (fun i hi => Finset.mem_filter.mpr ⟨Finset.mem_univ i, skewed_allowed.2 i i.2 hi⟩)
      (fun i hi => skewed_spare.2 i i.2 (Finset.mem_filter.mp hi).2)
      (((Cluster.layered_parityArcs nBucket (lineParams .c2dn 3 2 4 (by decide)) skewedRow
        75).value_eq_card_iff F).mp ?_)
    rw [hval, Fintype.card_fin]

end C2DN
