import Mathlib.Data.List.GetD
import C2DN.Lib.Layered
import C2DN.LoadBalancer.Bfs
import C2DN.LoadBalancer.BalancerLemmas

/-!
# Rebalancing parity

The graph of `rebalanceParity` is a network of three layers. A flow whose value is the number of
buckets assigns a parity host to each bucket, which `BFS` reads off the edges with flow. The hosts
that get parity stay within the expected weight.
-/

namespace C2DN.LoadBalancer

namespace Graph

/-- The network of a graph. An edge without a positive cost has no capacity. -/
def network (g : Graph) : Network Nat (Fin g.order × Fin g.order) where
  tail e := e.1
  head e := e.2
  capacity e := max 0 ((g.cost e.1 e.2).getD 0)

/-- The flow `f` is what `MaxFlow(g, s, t)` returns: its value and the graph of its edges. -/
structure Returns (g : Graph) (s t : Nat) (r : Int × Graph)
    (f : Fin g.order × Fin g.order → Int) : Prop where
  maximal : g.network.Maximal s t f
  value : r.1 = g.network.value s f
  order : r.2.order = g.order
  cost : ∀ e, r.2.cost e.1 e.2 = if 0 < f e then some (f e) else none
  edge : ∀ v w, r.2.cost v w ≠ none → v < g.order ∧ w < g.order

/-- `MaxFlow` returns a maximum flow. -/
def MaxFlowOf (g : Graph) (s t : Nat) (r : Int × Graph) : Prop := ∃ f, g.Returns s t r f

end Graph

namespace ParityBalancer

section
variable {nBucket : Nat} {base : BaseBalancer} {m : List (List Int)} {l : List Nat}

/-- The weight that no host should exceed. -/
def expectedWeight (nBucket : Nat) (base : BaseBalancer) (l : List Nat) : Int :=
  ceilDiv (base.nHostPerBucket * nBucket) (base.nHost - l.length)

/-- How many parity chunks a host can get. -/
def spare (nBucket : Nat) (base : BaseBalancer) (m : List (List Int)) (l : List Nat)
    (h : Fin base.nHost) : Nat :=
  if h.1 ∈ l then 0
  else (expectedWeight nBucket base l - nodeWeight m (base.nHostPerBucket - 1) h).toNat

/-- The host has no data of the bucket. -/
def MayHold (base : BaseBalancer) (m : List (List Int)) (h : Fin base.nHost) (b : Fin nBucket) :
    Prop :=
  (h.1 : Int) ∉ (m.getD b []).take (base.nHostPerBucket - 1)

instance (h : Fin base.nHost) (b : Fin nBucket) : Decidable (MayHold base m h b) :=
  inferInstanceAs (Decidable (_ ∉ _))

/-! ## The edges of the graph -/

theorem cost_source {h : Nat} (hh : h < base.nHost) :
    (parityGraphOf nBucket base m l).cost 0 (h + 2) = if h ∈ l then none
      else some (expectedWeight nBucket base l - nodeWeight m (base.nHostPerBucket - 1) h) := by
  simp only [parityGraphOf, if_true, expectedWeight, Nat.add_sub_cancel]
  by_cases hl : h ∈ l
  · rw [if_neg fun hc => hc.2.2 hl, if_pos hl]
  · rw [if_pos ⟨by omega, by omega, hl⟩, if_neg hl]

theorem cost_host {h b : Nat} (hh : h < base.nHost) (hb : b < nBucket) :
    (parityGraphOf nBucket base m l).cost (h + 2) (b + base.nHost + 2) =
      if (h : Int) ∈ (m.getD b []).take (base.nHostPerBucket - 1) then none else some 1 := by
  have hb' : b + base.nHost + 2 - base.nHost - 2 = b := by omega
  simp only [parityGraphOf, hb', Nat.add_sub_cancel]
  rw [if_neg (by omega), if_pos (by omega)]
  by_cases hd : (h : Int) ∈ (m.getD b []).take (base.nHostPerBucket - 1)
  · rw [if_neg fun hc => hc.2.2 hd, if_pos hd]
  · rw [if_pos ⟨by omega, by omega, hd⟩, if_neg hd]

theorem cost_bucket {b : Nat} (hb : b < nBucket) :
    (parityGraphOf nBucket base m l).cost (b + base.nHost + 2) 1 = some 1 := by
  simp only [parityGraphOf]
  rw [if_neg (by omega), if_neg (by omega), if_pos ⟨by omega, by omega, trivial⟩]

/-- There are no other edges. -/
theorem cost_cases {v w : Nat} {c : Int} (h : (parityGraphOf nBucket base m l).cost v w = some c) :
    (∃ h : Fin base.nHost, v = 0 ∧ w = h + 2) ∨
    (∃ (h : Fin base.nHost) (b : Fin nBucket), MayHold base m h b ∧ v = h + 2 ∧
      w = b + base.nHost + 2) ∨
    ∃ b : Fin nBucket, v = b + base.nHost + 2 ∧ w = 1 := by
  simp only [parityGraphOf] at h
  split at h
  · next hv =>
    split at h
    · next hw => exact .inl ⟨⟨w - 2, by omega⟩, hv, by dsimp only; omega⟩
    · cases h
  · split at h
    · next hv =>
      split at h
      · next hw =>
        refine .inr (.inl ⟨⟨v - 2, by omega⟩, ⟨w - base.nHost - 2, by omega⟩, hw.2.2, ?_, ?_⟩)
        · dsimp only; omega
        · dsimp only; omega
      · cases h
    · split at h
      · next hv =>
        exact .inr (.inr ⟨⟨v - base.nHost - 2, by omega⟩, by dsimp only; omega, hv.2.2⟩)
      · cases h

/-- **The network** of `rebalanceParity` has three layers. -/
theorem layered_parityGraph (nBucket : Nat) (base : BaseBalancer) (m : List (List Int))
    (l : List Nat) : Layered (parityGraphOf nBucket base m l).network 0 1
    (fun h : Fin base.nHost => h.1 + 2) (fun b : Fin nBucket => b.1 + base.nHost + 2)
    (spare nBucket base m l) (MayHold base m) where
  left_inj h h' heq := Fin.ext (Nat.add_right_cancel heq)
  right_inj b b' heq := Fin.ext (Nat.add_right_cancel (Nat.add_right_cancel heq))
  left_ne_right h b heq := by omega
  left_ne h := ⟨by omega, by omega⟩
  right_ne b := ⟨by omega, by omega⟩
  ends := by decide
  nonneg e := le_max_left _ _
  arc e hpos := by
    obtain ⟨v, w⟩ := e
    have hpos : 0 < max 0 (((parityGraphOf nBucket base m l).cost v w).getD 0) := hpos
    cases hc : (parityGraphOf nBucket base m l).cost v w with
    | none => rw [hc] at hpos; exact absurd hpos (by simp)
    | some c =>
      have hcap : (parityGraphOf nBucket base m l).network.capacity (v, w) = max 0 c := by
        change max 0 (((parityGraphOf nBucket base m l).cost v w).getD 0) = _
        rw [hc, Option.getD_some]
      rw [hcap]
      rcases cost_cases hc with ⟨h, hv, hw⟩ | ⟨h, b, ha, hv, hw⟩ | ⟨b, hv, hw⟩
      · refine .inl ⟨h, hv, hw, ?_⟩
        rw [hv, hw, cost_source h.2] at hc
        rw [spare]
        split
        · next hl => rw [if_pos hl] at hc; cases hc
        · next hl =>
          rw [if_neg hl] at hc
          cases hc
          omega
      · refine .inr (.inl ⟨h, b, ha, hv, hw, ?_⟩)
        rw [hv, hw, cost_host h.2 b.2, if_neg ha] at hc
        cases hc
        rfl
      · refine .inr (.inr ⟨b, hv, hw, ?_⟩)
        rw [hv, hw, cost_bucket b.2] at hc
        cases hc
        rfl
  unique e e' _ _ ht hh := Prod.ext (Fin.ext ht) (Fin.ext hh)
  first h hpos := by
    refine ⟨(⟨0, Nat.succ_pos _⟩, ⟨h.1 + 2, ?_⟩), rfl, rfl, ?_⟩
    · change h.1 + 2 < base.nHost + nBucket + 2
      omega
    · change max 0 (((parityGraphOf nBucket base m l).cost 0 (h.1 + 2)).getD 0) = _
      rw [cost_source h.2]
      unfold spare at hpos ⊢
      split
      · next hl => rw [if_pos hl] at hpos; cases hpos
      · rw [Option.getD_some]
        omega
  second h b hallowed := by
    refine ⟨(⟨h.1 + 2, ?_⟩, ⟨b.1 + base.nHost + 2, ?_⟩), rfl, rfl, ?_⟩
    · change h.1 + 2 < base.nHost + nBucket + 2
      omega
    · change b.1 + base.nHost + 2 < base.nHost + nBucket + 2
      omega
    · change max 0 (((parityGraphOf nBucket base m l).cost (h.1 + 2) (b.1 + base.nHost + 2)).getD 0) = _
      rw [cost_host h.2 b.2, if_neg hallowed]
      rfl
  third b := by
    refine ⟨(⟨b.1 + base.nHost + 2, ?_⟩, ⟨1, ?_⟩), rfl, rfl, ?_⟩
    · change b.1 + base.nHost + 2 < base.nHost + nBucket + 2
      omega
    · change 1 < base.nHost + nBucket + 2
      omega
    · change max 0 (((parityGraphOf nBucket base m l).cost (b.1 + base.nHost + 2) 1).getD 0) = _
      rw [cost_bucket b.2]
      rfl

/-! ## Reading the flow -/

section
variable {r : Int × Graph} {f : Fin (parityGraphOf nBucket base m l).order ×
  Fin (parityGraphOf nBucket base m l).order → Int}
  (R : (parityGraphOf nBucket base m l).Returns 0 1 r f)
include R

theorem flow_of_cost {v w : Nat} {c : Int} (h : r.2.cost v w = some c) :
    ∃ e : Fin (parityGraphOf nBucket base m l).order × Fin (parityGraphOf nBucket base m l).order,
      e.1.1 = v ∧ e.2.1 = w ∧ 0 < f e := by
  obtain ⟨hv, hw⟩ := R.edge v w (by rw [h]; simp)
  refine ⟨(⟨v, hv⟩, ⟨w, hw⟩), rfl, rfl, ?_⟩
  have hcost := R.cost (⟨v, hv⟩, ⟨w, hw⟩)
  by_contra hnot
  rw [if_neg hnot] at hcost
  rw [h] at hcost
  cases hcost

theorem cost_of_flow {v w : Nat} {e : Fin (parityGraphOf nBucket base m l).order ×
    Fin (parityGraphOf nBucket base m l).order} (hv : e.1.1 = v) (hw : e.2.1 = w)
    (hpos : 0 < f e) : r.2.cost v w = some (f e) := by
  have hcost := R.cost e
  rwa [if_pos hpos, hv, hw] at hcost

theorem edge_of_cost {v w : Nat} {c : Int} (h : r.2.cost v w = some c) :
    ∃ c', (parityGraphOf nBucket base m l).cost v w = some c' := by
  obtain ⟨e, rfl, rfl, hpos⟩ := flow_of_cost R h
  have hcap := R.maximal.capacity_pos hpos.ne'
  cases hc : (parityGraphOf nBucket base m l).cost e.1 e.2 with
  | none =>
    change 0 < max 0 (((parityGraphOf nBucket base m l).cost e.1 e.2).getD 0) at hcap
    rw [hc] at hcap
    exact absurd hcap (by simp)
  | some c => exact ⟨c, rfl⟩

/-- **The calls of `BFS`.** A flow of the value of all buckets gives each of them a parity host; the
calls that are not for an edge at the source or the sink name these hosts. -/
theorem exists_parityHosts (hval : r.1 = nBucket) :
    ∃ a : Fin nBucket → Fin base.nHost, Assigns (spare nBucket base m l) (MayHold base m) a ∧
      (∀ v w c, (v, w, c) ∈ r.2.bfs 0 → v ≠ 0 → w ≠ 1 →
        ∃ b : Fin nBucket, v = a b + 2 ∧ w = b + base.nHost + 2) ∧
      ∀ b : Fin nBucket, ∃ c, ((a b).1 + 2, b.1 + base.nHost + 2, c) ∈ r.2.bfs 0 := by
  have H := layered_parityGraph nBucket base m l
  have F := R.maximal.toFeasible
  obtain ⟨a, A, harc⟩ := H.exists_assigns F (by rw [← R.value, hval, Fintype.card_fin])
  have D : r.2.Discovers 0 (r.2.bfs 0) := Graph.bfs_discovers (by
    rw [R.order]
    exact Nat.succ_pos _)
  have hcall : ∀ v w c, (v, w, c) ∈ r.2.bfs 0 → v ≠ 0 → w ≠ 1 →
      ∃ b : Fin nBucket, v = a b + 2 ∧ w = b + base.nHost + 2 := by
    intro v w c hc hv hw
    have hcost := D.edge v w c hc
    obtain ⟨c', hc'⟩ := edge_of_cost R hcost
    rcases cost_cases hc' with ⟨h, hv0, -⟩ | ⟨h, b, -, -, hwb⟩ | ⟨b, -, hw1⟩
    · exact absurd hv0 hv
    · obtain ⟨e, he1, he2, hpos⟩ := flow_of_cost R hcost
      obtain ⟨i, hti, -, -, huniq⟩ := harc b
      obtain rfl := huniq e (he2.trans hwb) hpos
      exact ⟨b, he1.symm.trans hti, hwb⟩
    · exact absurd hw1 hw
  refine ⟨a, A, hcall, fun b => ?_⟩
  obtain ⟨i, hti, hhi, hpos, -⟩ := harc b
  -- the host of the bucket is reached from the source, and then the bucket from the host
  obtain ⟨j, hj, hjpos⟩ := F.exists_in (i := i) (by rw [hti]; exact (H.left_ne _).1)
    (by rw [hti]; exact (H.left_ne _).2) hpos
  rw [hti] at hj
  obtain ⟨htj, -⟩ := H.of_head_left (F.capacity_pos hjpos.ne') hj
  have hhost := D.closed 0 ((a b).1 + 2) (f j) (.inl rfl) (by rw [R.order, ← hj]; exact j.2.2)
    (cost_of_flow R htj hj hjpos)
  have hbucket := D.closed ((a b).1 + 2) (b.1 + base.nHost + 2) (f i)
    (.inr (hhost.resolve_left (Nat.succ_ne_zero _))) (by rw [R.order, ← hhi]; exact i.2.2)
    (cost_of_flow R hti hhi hpos)
  obtain ⟨u, d, hu⟩ := hbucket.resolve_left (by omega)
  have hu0 : u ≠ 0 := by
    rintro rfl
    obtain ⟨c', hc'⟩ := edge_of_cost R (D.edge _ _ _ hu)
    rcases cost_cases hc' with ⟨h, -, hw⟩ | ⟨h, b', -, hv, -⟩ | ⟨b', hv, -⟩
    · have := h.2
      omega
    · omega
    · omega
  obtain ⟨b', hub, hb'⟩ := hcall u _ d hu hu0 (by omega)
  obtain rfl : b' = b := Fin.ext (by omega)
  exact ⟨d, hub ▸ hu⟩

end

/-! ## The new mapping -/

/-- The mapping in which the buckets of `done` have their parity hosts. -/
def withParity (last : Nat) (a : Nat → Nat) (done : Nat → Bool) (m : List (List Int)) :
    List (List Int) :=
  m.mapIdx fun b nodes => if done b then nodes.set last (a b) else nodes

/-- The parity mapping of these buckets. -/
def parityOf (a : Nat → Nat) (done : Nat → Bool) (b : Nat) : Option Int :=
  if done b then some (a b) else none

theorem withParity_update {last : Nat} {a : Nat → Nat} {done : Nat → Bool} {b : Nat} :
    (withParity last a done m).modify b (fun nodes => nodes.set last (a b)) =
      withParity last a (Function.update done b true) m := by
  refine List.ext_getElem (by simp [withParity]) fun i h₁ h₂ => ?_
  rw [List.getElem_modify]
  simp only [withParity, List.getElem_mapIdx]
  split
  · next hb =>
    subst hb
    rw [Function.update_self, if_pos rfl]
    split
    · rw [List.set_set]
    · rfl
  · next hb => rw [Function.update_of_ne (Ne.symm hb)]

theorem parityOf_update {a : Nat → Nat} {done : Nat → Bool} {b : Nat} :
    Function.update (parityOf a done) b (some (a b)) = parityOf a (Function.update done b true) := by
  funext i
  unfold parityOf
  by_cases hi : i = b
  · simp [hi]
  · simp [hi]

/-- What the calls do when each of them names the parity host of its bucket. -/
theorem assignParity_eq (nHost last : Nat) (a : Nat → Nat) {calls : List (Nat × Nat × Int)}
    (hrows : ∀ nodes ∈ m, last < nodes.length)
    (hcalls : ∀ v w c, (v, w, c) ∈ calls → v ≠ 0 → w ≠ 1 →
      ∃ b < m.length, v = a b + 2 ∧ w = b + nHost + 2) (done : Nat → Bool) :
    ∃ done', assignParity nHost last calls (withParity last a done m, parityOf a done) =
        .ok (withParity last a done' m, parityOf a done') ∧
      (∀ b, done b = true → done' b = true) ∧ (∀ b, m.length ≤ b → done' b = done b) ∧
      ∀ v b c, (v, b + nHost + 2, c) ∈ calls → v ≠ 0 → done' b = true := by
  induction calls generalizing done with
  | nil => exact ⟨done, rfl, fun _ h => h, fun _ _ => rfl, nofun⟩
  | cons call calls ih =>
    obtain ⟨left, right, c⟩ := call
    have hrest : ∀ v w c, (v, w, c) ∈ calls → v ≠ 0 → w ≠ 1 →
        ∃ b < m.length, v = a b + 2 ∧ w = b + nHost + 2 :=
      fun v w c h => hcalls v w c (List.mem_cons_of_mem _ h)
    rw [assignParity]
    by_cases hcond : left ≠ 0 ∧ right ≠ 1
    · rw [if_pos hcond]
      obtain ⟨b, hb, rfl, rfl⟩ := hcalls left right c List.mem_cons_self hcond.1 hcond.2
      have hrow : last < ((withParity last a done m).getD b []).length := by
        rw [List.getD_eq_getElem _ _ (by simpa [withParity] using hb)]
        simp only [withParity, List.getElem_mapIdx]
        split
        · rw [List.length_set]
          exact hrows _ (List.getElem_mem _)
        · exact hrows _ (List.getElem_mem _)
      have hb' : b + nHost + 2 - nHost - 2 = b := by omega
      have hhost : ((a b + 2 : Nat) : Int) - 2 = a b := by omega
      simp only [hb', hhost]
      rw [if_neg (by rw [show (withParity last a done m).length = m.length by simp [withParity]]
                     omega), withParity_update, parityOf_update]
      obtain ⟨done', heq, hmono, hout, hall⟩ := ih hrest (Function.update done b true)
      refine ⟨done', heq, fun i hi => hmono i ?_, fun i hi => ?_, fun v i c h hv => ?_⟩
      · by_cases hib : i = b
        · rw [hib, Function.update_self]
        · rw [Function.update_of_ne hib]
          exact hi
      · rw [hout i hi, Function.update_of_ne (by omega)]
      · rcases List.mem_cons.mp h with h | h
        · obtain rfl : i = b := by
            have := (Prod.mk.inj (Prod.mk.inj h).2).1
            omega
          exact hmono i (Function.update_self _ _ _)
        · exact hall v i c h hv
    · rw [if_neg hcond]
      obtain ⟨done', heq, hmono, hout, hall⟩ := ih hrest done
      refine ⟨done', heq, hmono, hout, fun v i c h hv => ?_⟩
      rcases List.mem_cons.mp h with h | h
      · cases h
        exact absurd ⟨hv, by omega⟩ hcond
      · exact hall v i c h hv

theorem nodeWeight_eq_sum {k h : Nat} :
    nodeWeight m k h = ∑ b : Fin m.length, ((m.getD b []).take k).count (h : Int) := by
  rw [nodeWeight, ← Fin.sum_univ_fun_getElem]
  exact Finset.sum_congr rfl fun b _ => by rw [List.getD_eq_getElem]

theorem getD_withParity {last : Nat} {a : Nat → Nat} {done : Nat → Bool} {b : Nat}
    (hb : b < m.length) (hdone : done b = true) :
    (withParity last a done m).getD b [] = (m.getD b []).set last (a b) := by
  rw [List.getD_eq_getElem _ _ (by simpa [withParity] using hb), List.getD_eq_getElem _ _ hb]
  simp only [withParity, List.getElem_mapIdx]
  rw [if_pos hdone]

/-- The weight of a host with the parity that it gets. -/
theorem nodeWeight_withParity {n : Nat} (h : Nat) (a : Nat → Nat) {done : Nat → Bool} (hn : 0 < n)
    (hrows : ∀ nodes ∈ m, n ≤ nodes.length) (hdone : ∀ b < m.length, done b = true) :
    nodeWeight (withParity (n - 1) a done m) n h = nodeWeight m (n - 1) h +
      (Finset.univ.filter fun b : Fin m.length => a b = h).card := by
  have hlen : (withParity (n - 1) a done m).length = m.length := by simp [withParity]
  have hrow : ∀ b : Fin m.length,
      (((withParity (n - 1) a done m).getD b []).take n).count (h : Int) =
        ((m.getD b []).take (n - 1)).count (h : Int) + if a b = h then 1 else 0 := by
    intro b
    have hle : n ≤ (m.getD b []).length := by
      rw [List.getD_eq_getElem _ _ b.2]
      exact hrows _ (List.getElem_mem _)
    rw [getD_withParity b.2 (hdone b b.2), List.take_set]
    obtain ⟨k, rfl⟩ : ∃ k, n = k + 1 := ⟨n - 1, by omega⟩
    have hk : k < (m.getD b []).length := hle
    rw [Nat.add_sub_cancel, List.take_succ_eq_append_getElem hk,
      List.set_append_right _ _ (by rw [List.length_take]; omega), List.count_append]
    have hzero : k - ((m.getD b []).take k).length = 0 := by
      rw [List.length_take]
      omega
    have hiff : (((a b : Nat) : Int) == (h : Int)) = true ↔ a b = h := by
      rw [beq_iff_eq, Int.natCast_inj]
    rw [hzero, List.set_cons_zero, List.count_singleton, if_congr hiff rfl rfl]
  rw [nodeWeight_eq_sum, nodeWeight_eq_sum, Finset.card_filter, ← Finset.sum_add_distrib,
    ← Fin.sum_congr' _ hlen.symm]
  exact Finset.sum_congr rfl fun b _ => hrow b

/-- A host that has spare weight is up. -/
theorem not_mem_of_spare {h : Fin base.nHost} (hpos : 0 < spare nBucket base m l h) : h.1 ∉ l := by
  intro hl
  rw [spare, if_pos hl] at hpos
  cases hpos

/-- Parity within the spare weight does not exceed the expected weight. -/
theorem le_expectedWeight {h : Fin base.nHost} {c : Nat} (hc : c ≤ spare nBucket base m l h)
    (hle : (nodeWeight m (base.nHostPerBucket - 1) h : Int) ≤ expectedWeight nBucket base l) :
    ((nodeWeight m (base.nHostPerBucket - 1) h + c : Nat) : Int) ≤ expectedWeight nBucket base l := by
  unfold spare at hc
  split at hc <;> omega

end

section
variable {maxFlow : Graph → Nat → Nat → Int × Graph} {bl bl' : ParityBalancer} {l : List Nat}

/-- The list of the current position. -/
def unavailableNow (base : BaseBalancer) : Except Fault (List Nat) :=
  if base.unavailableList = [] then .ok [] else base.unavailAt base.currUnavailPos

/-- The balancer with these parity hosts. -/
def rebalanced (bl : ParityBalancer) (a : Nat → Nat) : ParityBalancer :=
  { bl with
    bucketMapping := bl.bucketMapping.mapIdx fun b nodes =>
      nodes.set (bl.base.nHostPerBucket - 1) (a b)
    prevParityMapping := bl.currParityMapping
    currParityMapping := some fun b => if b < nBuckets then some (a b) else none }

theorem withParity_all {m : List (List Int)} {last : Nat} {a : Nat → Nat} {done : Nat → Bool}
    (h : ∀ b < m.length, done b = true) :
    withParity last a done m = m.mapIdx fun b nodes => nodes.set last (a b) := by
  refine List.ext_getElem (by simp [withParity]) fun i h₁ h₂ => ?_
  simp only [withParity, List.getElem_mapIdx]
  rw [if_pos (h i (by simpa [withParity] using h₁))]

/-- `rebalanceParity` when the flow gives a host to each bucket. -/
theorem rebalanceParity_eq (hn : 0 < bl.base.nHostPerBucket)
    (hl : unavailableNow bl.base = .ok l) (hlen : bl.bucketMapping.length = nBuckets)
    (hrows : ∀ nodes ∈ bl.bucketMapping, bl.base.nHostPerBucket ≤ nodes.length)
    (hmax : (parityGraph bl.base bl.bucketMapping l).MaxFlowOf 0 1
      (maxFlow (parityGraph bl.base bl.bucketMapping l) 0 1))
    (hfull : (maxFlow (parityGraph bl.base bl.bucketMapping l) 0 1).1 = nBuckets) :
    ∃ a : Nat → Nat, rebalanceParity ⟨maxFlow, Graph.bfs⟩ bl = .ok (bl.rebalanced a) ∧
      (∀ b : Fin nBuckets, a b < bl.base.nHost) ∧
      ∃ a' : Fin nBuckets → Fin bl.base.nHost, (∀ b, (a' b).1 = a b) ∧
        Assigns (spare nBuckets bl.base bl.bucketMapping l) (MayHold bl.base bl.bucketMapping) a' := by
  obtain ⟨f, R⟩ := hmax
  obtain ⟨a', A, hcalls, hall⟩ := exists_parityHosts R hfull
  let a (b : Nat) : Nat := if h : b < nBuckets then a' ⟨b, h⟩ else 0
  have ha : ∀ b : Fin nBuckets, (a' b).1 = a b := fun b => by simp [a, b.2]
  obtain ⟨done, heq, -, hout, hdone⟩ := assignParity_eq (m := bl.bucketMapping)
    bl.base.nHost (bl.base.nHostPerBucket - 1) a (fun nodes hnodes => by have := hrows nodes hnodes; omega)
    (fun v w c hc hv hw => by
      obtain ⟨b, hvb, hwb⟩ := hcalls v w c hc hv hw
      exact ⟨b, by rw [hlen]; exact b.2, by rw [hvb, ha], hwb⟩) fun _ => false
  have hall' : ∀ b < nBuckets, done b = true := fun b hb => by
    obtain ⟨c, hc⟩ := hall ⟨b, hb⟩
    exact hdone _ b c hc (Nat.succ_ne_zero _)
  have hstart : withParity (bl.base.nHostPerBucket - 1) a (fun _ => false) bl.bucketMapping =
      bl.bucketMapping :=
    List.ext_getElem (by simp [withParity]) fun i h₁ h₂ => by simp [withParity]
  have hparity : parityOf a done = fun b => if b < nBuckets then some ((a b : Nat) : Int) else none := by
    funext b
    unfold parityOf
    by_cases hb : b < nBuckets
    · rw [if_pos (hall' b hb), if_pos hb]
    · rw [hout b (by rw [hlen]; omega), if_neg hb]
      rfl
  refine ⟨a, ?_, fun b => ha b ▸ (a' b).2, a', ha, A⟩
  have hassign := heq
  rw [hstart, withParity_all (by rw [hlen]; exact hall'), hparity] at hassign
  unfold rebalanceParity
  change Except.bind (unavailableNow bl.base) _ = _
  rw [hl]
  change Except.map _ (assignParity bl.base.nHost (bl.base.nHostPerBucket - 1) _
    (bl.bucketMapping, parityOf a fun _ => false)) = _
  rw [hassign]
  rfl

/-- What rebalancing gives: a parity host for each bucket, and no host above the expected weight that
the data alone does not put there. -/
structure Balanced (bl : ParityBalancer) (l : List Nat) (bl' : ParityBalancer) : Prop where
  host : ∀ b < nBuckets, ∃ h < bl.base.nHost, h ∉ l ∧
    (bl'.bucketMapping.getD b [])[bl.base.nHostPerBucket - 1]? = some (h : Int) ∧
    (h : Int) ∉ (bl.bucketMapping.getD b []).take (bl.base.nHostPerBucket - 1)
  data : ∀ b < nBuckets, (bl'.bucketMapping.getD b []).take (bl.base.nHostPerBucket - 1) =
    (bl.bucketMapping.getD b []).take (bl.base.nHostPerBucket - 1)
  parity : ∃ parity, bl'.currParityMapping = some parity ∧ ∀ b, parity b =
    if b < nBuckets then (bl'.bucketMapping.getD b [])[bl.base.nHostPerBucket - 1]? else none
  load : ∀ h < bl.base.nHost,
    (nodeWeight bl.bucketMapping (bl.base.nHostPerBucket - 1) h : Int) ≤
      expectedWeight nBuckets bl.base l →
    (nodeWeight bl'.bucketMapping bl.base.nHostPerBucket h : Int) ≤
      expectedWeight nBuckets bl.base l

theorem getD_rebalanced {a : Nat → Nat} {b : Nat} (hb : b < bl.bucketMapping.length) :
    (bl.rebalanced a).bucketMapping.getD b [] =
      (bl.bucketMapping.getD b []).set (bl.base.nHostPerBucket - 1) (a b) := by
  rw [List.getD_eq_getElem _ _ (by simpa [rebalanced] using hb), List.getD_eq_getElem _ _ hb]
  simp only [rebalanced, List.getElem_mapIdx]

/-- **Rebalancing parity.** -/
theorem rebalanceParity_balanced (hn : 0 < bl.base.nHostPerBucket)
    (hl : unavailableNow bl.base = .ok l) (hlen : bl.bucketMapping.length = nBuckets)
    (hrows : ∀ nodes ∈ bl.bucketMapping, bl.base.nHostPerBucket ≤ nodes.length)
    (hmax : (parityGraph bl.base bl.bucketMapping l).MaxFlowOf 0 1
      (maxFlow (parityGraph bl.base bl.bucketMapping l) 0 1))
    (hfull : (maxFlow (parityGraph bl.base bl.bucketMapping l) 0 1).1 = nBuckets) :
    ∃ bl', rebalanceParity ⟨maxFlow, Graph.bfs⟩ bl = .ok bl' ∧ Balanced bl l bl' := by
  obtain ⟨a, heq, hlt, a', ha, A⟩ := rebalanceParity_eq hn hl hlen hrows hmax hfull
  have hentry : ∀ b < nBuckets, ((bl.rebalanced a).bucketMapping.getD b
      [])[bl.base.nHostPerBucket - 1]? = some ((a b : Nat) : Int) := by
    intro b hb
    rw [getD_rebalanced (by rw [hlen]; exact hb), List.getElem?_set_self]
    rw [List.getD_eq_getElem _ _ (by rw [hlen]; exact hb)]
    have := hrows _ (List.getElem_mem (by rw [hlen]; exact hb))
    omega
  refine ⟨_, heq, fun b hb => ?_, fun b hb => ?_, ⟨_, rfl, fun b => ?_⟩, fun h hh hle => ?_⟩
  · refine ⟨a b, hlt ⟨b, hb⟩, ?_, hentry b hb, ?_⟩
    · rw [← ha ⟨b, hb⟩]
      exact not_mem_of_spare (lt_of_lt_of_le (Finset.card_pos.mpr ⟨⟨b, hb⟩, by simp⟩)
        (A.le (a' ⟨b, hb⟩)))
    · rw [← ha ⟨b, hb⟩]
      exact A.allowed ⟨b, hb⟩
  · rw [getD_rebalanced (by rw [hlen]; exact hb), List.take_set_of_le (le_refl _)]
  · split
    · next hb => exact (hentry b hb).symm
    · rfl
  · have hweight := nodeWeight_withParity h a hn hrows
      (fun _ _ => rfl : ∀ b < bl.bucketMapping.length, (fun _ : Nat => true) b = true)
    rw [withParity_all fun _ _ => rfl] at hweight
    have hcard : (Finset.univ.filter fun b : Fin bl.bucketMapping.length => a b = h).card ≤
        spare nBuckets bl.base bl.bucketMapping l ⟨h, hh⟩ := by
      refine le_trans (le_of_eq ?_) (A.le ⟨h, hh⟩)
      refine Finset.card_bij (fun b _ => b.cast hlen) (fun b hb => ?_) (fun b _ b' _ h => ?_)
        fun b hb => ?_
      · refine Finset.mem_filter.mpr ⟨Finset.mem_univ _, Fin.ext ?_⟩
        rw [ha]
        exact (Finset.mem_filter.mp hb).2
      · exact Fin.cast_injective hlen h
      · refine ⟨b.cast hlen.symm, Finset.mem_filter.mpr ⟨Finset.mem_univ _, ?_⟩, rfl⟩
        have := congrArg Fin.val (Finset.mem_filter.mp hb).2
        rwa [ha] at this
    change ((nodeWeight (bl.bucketMapping.mapIdx fun b nodes =>
      nodes.set (bl.base.nHostPerBucket - 1) ((a b : Nat) : Int)) bl.base.nHostPerBucket h : Nat) :
      Int) ≤ _
    rw [hweight]
    exact le_expectedWeight (h := ⟨h, hh⟩) hcard hle

end

/-! ## The flow of an assignment -/

section
variable {nBucket : Nat} {base : BaseBalancer} {m : List (List Int)} {l : List Nat}

/-- A vertex of the graph. -/
def vertex (nBucket : Nat) (base : BaseBalancer) (v : Nat) : Fin (base.nHost + nBucket + 2) :=
  Fin.ofNat _ v

/-- The flow of an assignment of parity hosts. -/
def assignedFlow (nBucket : Nat) (base : BaseBalancer) (a : Fin nBucket → Fin base.nHost)
    (e : Fin (base.nHost + nBucket + 2) × Fin (base.nHost + nBucket + 2)) : Int :=
  let v := vertex nBucket base
  Layered.uses (fun b => (v 0, v ((a b).1 + 2))) e +
    Layered.uses (fun b => (v ((a b).1 + 2), v (b.1 + base.nHost + 2))) e +
    Layered.uses (fun b : Fin nBucket => (v (b.1 + base.nHost + 2), v 1)) e

/-- What `MaxFlow` returns when it finds this flow. -/
def assignedResult (nBucket : Nat) (base : BaseBalancer) (a : Fin nBucket → Fin base.nHost) :
    Int × Graph :=
  (nBucket, { order := base.nHost + nBucket + 2
              cost := fun v w =>
                if v < base.nHost + nBucket + 2 ∧ w < base.nHost + nBucket + 2 then
                  let c := assignedFlow nBucket base a (vertex nBucket base v, vertex nBucket base w)
                  if 0 < c then some c else none
                else none })

theorem vertex_val {v : Nat} (hv : v < base.nHost + nBucket + 2) :
    (vertex nBucket base v).1 = v := Nat.mod_eq_of_lt hv

section
variable {a : Fin nBucket → Fin base.nHost}
  (A : Assigns (spare nBucket base m l) (MayHold base m) a)
include A

theorem paths_assigned : Layered.Paths (parityGraphOf nBucket base m l).network 0 1
    (fun h : Fin base.nHost => h.1 + 2) (fun b : Fin nBucket => b.1 + base.nHost + 2) a
    (fun b => (vertex nBucket base 0, vertex nBucket base ((a b).1 + 2)))
    (fun b => (vertex nBucket base ((a b).1 + 2), vertex nBucket base (b.1 + base.nHost + 2)))
    (fun b => (vertex nBucket base (b.1 + base.nHost + 2), vertex nBucket base 1)) := by
  have hhost : ∀ b, (vertex nBucket base ((a b).1 + 2)).1 = (a b).1 + 2 :=
    fun b => vertex_val (by have := (a b).2; omega)
  have hbucket : ∀ b : Fin nBucket,
      (vertex nBucket base (b.1 + base.nHost + 2)).1 = b.1 + base.nHost + 2 :=
    fun b => vertex_val (by omega)
  have hsource : (vertex nBucket base 0).1 = 0 := vertex_val (by omega)
  have hsink : (vertex nBucket base 1).1 = 1 := vertex_val (by omega)
  have hcap : ∀ v w : Fin (base.nHost + nBucket + 2),
      (parityGraphOf nBucket base m l).network.capacity (v, w) =
        max 0 (((parityGraphOf nBucket base m l).cost v w).getD 0) := fun _ _ => rfl
  refine ⟨fun b => hsource, fun b => hhost b, fun b => hhost b, fun b => hbucket b,
    fun b => hbucket b, fun b => hsink, fun b => ⟨?_, ?_, ?_⟩⟩
  · have hspare : 0 < spare nBucket base m l (a b) := lt_of_lt_of_le
      (Finset.card_pos.mpr ⟨b, by simp⟩) (A.le (a b))
    rw [hcap, hsource, hhost, cost_source (a b).2]
    unfold spare at hspare
    split
    · next hl => rw [if_pos hl] at hspare; cases hspare
    · next hl =>
      rw [if_neg hl] at hspare
      rw [Option.getD_some]
      omega
  · rw [hcap, hhost, hbucket, cost_host (a b).2 b.2, if_neg (A.allowed b)]
    decide
  · rw [hcap, hbucket, hsink, cost_bucket b.2]
    decide

theorem maxFlowOf_assigned :
    (parityGraphOf nBucket base m l).MaxFlowOf 0 1 (assignedResult nBucket base a) := by
  have H := layered_parityGraph nBucket base m l
  have P := paths_assigned A
  have hval := P.value H
  rw [Fintype.card_fin] at hval
  refine ⟨assignedFlow nBucket base a, ⟨P.feasible H A, fun f F => ?_⟩, hval.symm, rfl, fun e => ?_,
    fun v w h => ?_⟩
  · refine (H.value_le F).trans (le_of_eq ?_)
    rw [Fintype.card_fin]
    exact hval.symm
  · obtain ⟨v, w⟩ := e
    have hv : vertex nBucket base v.1 = v := Fin.ext (vertex_val v.2)
    have hw : vertex nBucket base w.1 = w := Fin.ext (vertex_val w.2)
    dsimp only [assignedResult]
    rw [if_pos ⟨v.2, w.2⟩, hv, hw]
    rfl
  · by_contra hnot
    exact h (if_neg hnot)

end

end

/-! ## One pair of hosts

All buckets have their data on host 0, host 2 is down, and host 1 gets the parity. -/

def onePair : ParityBalancer where
  base := ⟨[[2]], 3, 2, 60, -1, 0⟩
  ring := ⟨fun _ => none, [], [], fun _ => none⟩
  bucketMapping := List.replicate nBuckets [0, 2, -1]
  rebalance := true
  currParityMapping := none
  prevParityMapping := none

/-- Its parity hosts. -/
def onePairHost (_ : Fin nBuckets) : Fin onePair.base.nHost := ⟨1, by decide⟩

theorem onePair_assigns : Assigns (spare nBuckets onePair.base onePair.bucketMapping [2])
    (MayHold onePair.base onePair.bucketMapping) onePairHost := by
  refine ⟨fun b => ?_, fun h => ?_⟩
  · have hrow : onePair.bucketMapping.getD b [] = [0, 2, -1] := by
      rw [onePair, List.getD_eq_getElem _ _ (by rw [List.length_replicate]; exact b.2),
        List.getElem_replicate]
    unfold MayHold onePairHost
    rw [hrow]
    decide
  · by_cases hh : ⟨1, by decide⟩ = h
    · subst hh
      refine le_trans (Finset.card_le_univ _) (le_of_eq ?_)
      rw [Fintype.card_fin]
      decide +kernel
    · refine le_trans (le_of_eq (Finset.card_eq_zero.mpr ?_)) (Nat.zero_le _)
      exact Finset.filter_false_of_mem fun _ _ => hh

theorem onePair_balanced : ∃ bl', rebalanceParity
    ⟨fun _ _ _ => assignedResult nBuckets onePair.base onePairHost, Graph.bfs⟩ onePair =
      .ok bl' ∧ Balanced onePair [2] bl' :=
  rebalanceParity_balanced (by decide) rfl List.length_replicate (fun nodes h => by
      rw [List.eq_of_mem_replicate h]
      decide) (maxFlowOf_assigned onePair_assigns) rfl

end ParityBalancer

end C2DN.LoadBalancer
