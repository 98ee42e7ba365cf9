import C2DN.Lib.Run
import C2DN.LoadBalancer.Freshness
import C2DN.LoadBalancer.MaxFlow

/-!
# The balancer's own package

Package `graph` is what the balancer relies on: `BFS` only follows edges, and `MaxFlow` returns a
maximum flow of every graph of `rebalanceParity`.
-/

namespace C2DN.LoadBalancer

/-- `MaxFlow` and `BFS`. A call of `MaxFlow` that does not return has no flow. -/
def graphLib : GraphLib where
  maxFlow g s t :=
    match g.maxFlow s t with
    | .ok r => r
    | .error _ => (0, ⟨0, fun _ _ => none⟩)
  bfs := Graph.bfs

namespace Graph
variable {g : Graph} {s t v start : Nat}

/-- The calls of `do` are for edges, from the start or from a vertex of an earlier call. -/
structure Search.Follows (g : Graph) (start : Nat) (s : Search) : Prop where
  edge : ∀ v w c, (v, w, c) ∈ s.calls → g.cost v w = some c
  left : ∀ v w c, (v, w, c) ∈ s.calls → v = start ∨ ∃ u d, (u, v, d) ∈ s.calls
  queue : ∀ v ∈ s.queue, v = start ∨ ∃ u d, (u, v, d) ∈ s.calls

theorem Search.Follows.follow {s : Search} (H : s.Follows g start)
    (hv : v = start ∨ ∃ u d, (u, v, d) ∈ s.calls) {e : Nat × Int} (he : e ∈ g.edges v) :
    (s.follow v e).Follows g start ∧
      ∀ u w c, (u, w, c) ∈ s.calls → (u, w, c) ∈ (s.follow v e).calls := by
  unfold Search.follow
  split
  · exact ⟨H, fun _ _ _ h => h⟩
  · have hold : ∀ x, (x = start ∨ ∃ u d, (u, x, d) ∈ s.calls) →
        x = start ∨ ∃ u d, (u, x, d) ∈ s.calls ++ [(v, e.1, e.2)] := by
      rintro x (hx | ⟨u, d, hx⟩)
      · exact .inl hx
      · exact .inr ⟨u, d, List.mem_append_left _ hx⟩
    refine ⟨⟨fun u w c h => ?_, fun u w c h => ?_, fun x hx => ?_⟩,
      fun u w c h => List.mem_append_left _ h⟩
    · rcases List.mem_append.mp h with h | h
      · exact H.edge u w c h
      · cases List.mem_singleton.mp h
        exact (mem_edges.mp he).2
    · rcases List.mem_append.mp h with h | h
      · exact hold u (H.left u w c h)
      · cases List.mem_singleton.mp h
        exact hold v hv
    · rcases List.mem_append.mp hx with hx | hx
      · exact hold x (H.queue x hx)
      · rw [List.mem_singleton.mp hx]
        exact .inr ⟨v, e.2, List.mem_append_right _ List.mem_cons_self⟩

theorem Search.Follows.followAll {s : Search} (H : s.Follows g start)
    (hv : v = start ∨ ∃ u d, (u, v, d) ∈ s.calls) {es : List (Nat × Int)}
    (hes : ∀ e ∈ es, e ∈ g.edges v) : (es.foldl (Search.follow v) s).Follows g start := by
  induction es generalizing s with
  | nil => exact H
  | cons e es ih =>
    obtain ⟨H', hmono⟩ := H.follow hv (hes e List.mem_cons_self)
    refine ih H' ?_ fun e' he' => hes e' (List.mem_cons_of_mem _ he')
    rcases hv with hv | ⟨u, d, hv⟩
    · exact .inl hv
    · exact .inr ⟨u, d, hmono u v d hv⟩

theorem search_follows {s : Search} (H : s.Follows g start) (fuel : Nat) :
    (g.search fuel s).Follows g start := by
  induction fuel generalizing s with
  | zero => exact H
  | succ fuel ih =>
    rw [search]
    split
    · exact H
    · next v queue hq =>
      have hv := H.queue v (hq ▸ List.mem_cons_self)
      have H' : Search.Follows g start { s with queue } :=
        ⟨H.edge, H.left, fun x hx => H.queue x (hq ▸ List.mem_cons_of_mem _ hx)⟩
      exact ih (H'.followAll hv fun e he => he)

theorem bfs_follows (g : Graph) (start : Nat) : (g.search g.order
    ⟨Function.update (fun _ => false) start true, [start], []⟩).Follows g start :=
  search_follows ⟨fun _ _ _ h => absurd h List.not_mem_nil,
    fun _ _ _ h => absurd h List.not_mem_nil, fun _ hx => .inl (List.mem_singleton.mp hx)⟩ _

theorem maxFlow_edge {w : Nat} (h : (graphLib.maxFlow g s t).2.cost v w ≠ none) :
    g.cost v w ≠ none := by
  intro hnone
  refine h ?_
  dsimp only [graphLib]
  cases hflow : g.maxFlow s t with
  | error e => rfl
  | ok r =>
    unfold maxFlow at hflow
    split at hflow
    · obtain ⟨⟨flow, R⟩, -, rfl⟩ := map_eq_ok hflow
      dsimp only [flowGraph]
      rw [hnone]
      split <;> rfl
    · cases hflow

theorem maxFlowOf_graphLib (F : g.Fits s t) : g.MaxFlowOf s t (graphLib.maxFlow g s t) := by
  obtain ⟨r, hr, hmax⟩ := maxFlow_ok F
  dsimp only [graphLib]
  rw [hr]
  exact hmax

end Graph

/-- What the balancer relies on holds of package `graph`. -/
theorem graphLib_lawful : graphLib.Lawful where
  maxFlow_edge _ _ _ _ _ h := Graph.maxFlow_edge h
  bfs_edge g s := (Graph.bfs_follows g s).edge
  bfs_reached g s := (Graph.bfs_follows g s).left

namespace ParityBalancer

section
variable {nBucket : Nat} {base : BaseBalancer} {m : List (List Int)} {l : List Nat}

theorem ceilDiv_le {a b : Int} (ha : 0 ≤ a) : ceilDiv a b ≤ a := by
  unfold ceilDiv
  rcases le_or_gt b 0 with hb | hb
  · have := Int.fdiv_nonneg_of_nonpos_of_nonpos (Int.neg_nonpos_of_nonneg ha) hb
    omega
  · rw [Int.fdiv_eq_ediv_of_nonneg _ hb.le]
    have hmul : -a * b ≤ -a := by
      rw [Int.neg_mul]
      exact Int.neg_le_neg (le_mul_of_one_le_right ha hb)
    have := Int.le_ediv_of_mul_le hb hmul
    omega

/-- The edges have no opposite ones. -/
theorem costOf_opposite {x y : Nat} (h : (parityGraphOf nBucket base m l).cost x y ≠ none) :
    (parityGraphOf nBucket base m l).costOf y x = 0 := by
  obtain ⟨c, hc⟩ := Option.ne_none_iff_exists'.mp h
  unfold Graph.costOf
  cases hopp : (parityGraphOf nBucket base m l).cost y x with
  | none => rfl
  | some c' =>
    rcases cost_cases hc with ⟨h, rfl, rfl⟩ | ⟨h, b, -, rfl, rfl⟩ | ⟨b, rfl, rfl⟩ <;>
    rcases cost_cases hopp with ⟨h', hx, hy⟩ | ⟨h', b', -, hx, hy⟩ | ⟨b', hx, hy⟩ <;> omega

theorem costOf_le (nBucket : Nat) (base : BaseBalancer) (m : List (List Int)) (l : List Nat)
    (x y : Nat) :
    (parityGraphOf nBucket base m l).costOf x y ≤ max (1 : Int) (base.nHostPerBucket * nBucket) := by
  unfold Graph.costOf
  cases hc : (parityGraphOf nBucket base m l).cost x y with
  | none => exact zero_le_one.trans (le_max_left _ _)
  | some c =>
    rw [Option.getD_some]
    rcases cost_cases hc with ⟨h, rfl, rfl⟩ | ⟨h, b, hmay, rfl, rfl⟩ | ⟨b, rfl, rfl⟩
    · rw [cost_source h.2] at hc
      split at hc
      · cases hc
      · cases hc
        have hle : expectedWeight nBucket base l ≤ base.nHostPerBucket * nBucket :=
          ceilDiv_le (Int.mul_nonneg (Int.natCast_nonneg _) (Int.natCast_nonneg _))
        exact le_max_of_le_right (by omega)
    · rw [cost_host h.2 b.2, if_neg hmay] at hc
      cases hc
      exact le_max_left _ _
    · rw [cost_bucket b.2] at hc
      cases hc
      exact le_max_left _ _

/-- **The graph of `rebalanceParity`** is one for which `MaxFlow` works. -/
theorem fits_parityGraph (m : List (List Int)) (l : List Nat) (hn : 0 < base.nHostPerBucket)
    (hsize : base.nHostPerBucket * nBucket ≤ maxCost) :
    (parityGraphOf nBucket base m l).Fits 0 1 := by
  have hmax : max 1 ((base.nHostPerBucket : Int) * nBucket) ≤ maxCost :=
    max_le (by decide) hsize
  have hbucket : (nBucket : Int) ≤ maxCost :=
    (le_mul_of_one_le_left (Int.natCast_nonneg _) (by omega)).trans hsize
  refine ⟨Nat.succ_pos _, Nat.succ_lt_succ (Nat.succ_pos _), Nat.zero_ne_one, fun x y hneg => ?_,
    fun x y => ?_, fun f F => ?_⟩
  · refine le_of_eq (costOf_opposite fun hnone => ?_)
    rw [Graph.costOf, hnone] at hneg
    exact lt_irrefl _ hneg
  · have hx := costOf_le nBucket base m l x y
    have hy := costOf_le nBucket base m l y x
    by_cases hnone : (parityGraphOf nBucket base m l).cost x y = none
    · have hzero : (parityGraphOf nBucket base m l).costOf x y = 0 := by
        rw [Graph.costOf, hnone]
        rfl
      omega
    · have hzero := costOf_opposite hnone
      omega
  · refine ((layered_parityGraph nBucket base m l).value_le F).trans ?_
    rw [Fintype.card_fin]
    exact hbucket

end

end ParityBalancer

end C2DN.LoadBalancer
