import C2DN.LoadBalancer.Balancer

/-!
# Breadth-first search

`BFS` of package `graph` on the graph that `MaxFlow` returns, whose `Visit` goes through the edges of
a vertex by increasing ends. It calls its callback once for every vertex that can be reached, with
the edge over which it is reached first.
-/

namespace C2DN.LoadBalancer

namespace Graph

/-- `Visit(v, _)`: the ends and costs of the edges from `v`. -/
def edges (g : Graph) (v : Nat) : List (Nat × Int) :=
  (List.range g.order).filterMap fun w => (g.cost v w).map fun c => (w, c)

/-- The variables of `BFS`, with the calls of `do`. -/
structure Search where
  visited : Nat → Bool
  queue : List Nat
  calls : List (Nat × Nat × Int)

/-- What `BFS` does for an edge from `v`. -/
def Search.follow (v : Nat) (s : Search) (e : Nat × Int) : Search :=
  if s.visited e.1 then s
  else
    { visited := Function.update s.visited e.1 true
      queue := s.queue ++ [e.1]
      calls := s.calls ++ [(v, e.1, e.2)] }

/-- The loop `for len(queue) > 0`, for at most `fuel` rounds. -/
def search (g : Graph) : Nat → Search → Search
  | 0, s => s
  | fuel + 1, s =>
    match s.queue with
    | [] => s
    | v :: queue => g.search fuel ((g.edges v).foldl (Search.follow v) { s with queue })

/-- `BFS(g, v, do)`. There are at most as many rounds as vertices. -/
def bfs (g : Graph) (v : Nat) : List (Nat × Nat × Int) :=
  (g.search g.order ⟨Function.update (fun _ => false) v true, [v], []⟩).calls

section
variable {g : Graph} {start v : Nat} {done : List Nat} {s : Search}

theorem mem_edges {e : Nat × Int} :
    e ∈ g.edges v ↔ e.1 < g.order ∧ g.cost v e.1 = some e.2 := by
  unfold edges
  constructor
  · intro h
    obtain ⟨w, hw, h⟩ := List.mem_filterMap.mp h
    obtain ⟨c, hc, rfl⟩ := Option.map_eq_some_iff.mp h
    exact ⟨List.mem_range.mp hw, hc⟩
  · rintro ⟨hlt, hc⟩
    exact List.mem_filterMap.mpr ⟨e.1, List.mem_range.mpr hlt, by rw [hc]; rfl⟩

/-- The vertices that a search has reached, in the order in which it has. -/
def Search.reached (start : Nat) (s : Search) : List Nat := start :: s.calls.map fun c => c.2.1

/-- What holds in every round; `done` are the vertices that have been taken from the queue. -/
structure Search.Inv (g : Graph) (start : Nat) (done : List Nat) (s : Search) : Prop where
  order : done ++ s.queue = s.reached start
  nodup : (s.reached start).Nodup
  lt : ∀ x ∈ s.reached start, x < g.order
  visited : ∀ x, s.visited x = true ↔ x ∈ s.reached start
  edge : ∀ c ∈ s.calls, g.cost c.1 c.2.1 = some c.2.2
  left : ∀ c ∈ s.calls, c.1 ∈ done

/-- The edges of these vertices have been followed. -/
def Search.Closed (g : Graph) (done : List Nat) (s : Search) : Prop :=
  ∀ v ∈ done, ∀ e ∈ g.edges v, s.visited e.1 = true

theorem Search.Inv.follow (H : s.Inv g start done) (hv : v ∈ done) {e : Nat × Int}
    (he : e ∈ g.edges v) : (s.follow v e).Inv g start done := by
  unfold Search.follow
  split
  · exact H
  · next hnew =>
    have hreached : ∀ w c, Search.reached start ⟨w, c, s.calls ++ [(v, e.1, e.2)]⟩ =
        s.reached start ++ [e.1] := by
      intro w c
      simp [Search.reached]
    obtain ⟨hlt, hcost⟩ := mem_edges.mp he
    have hnot : e.1 ∉ s.reached start := fun h => hnew ((H.visited e.1).mpr h)
    refine ⟨?_, ?_, fun x hx => ?_, fun x => ?_, fun c hc => ?_, fun c hc => ?_⟩
    · rw [hreached, ← List.append_assoc, H.order]
    · rw [hreached]
      refine List.nodup_append.mpr ⟨H.nodup, by simp, ?_⟩
      rintro a ha b hb rfl
      obtain rfl : a = e.1 := by simpa using hb
      exact hnot ha
    · rw [hreached] at hx
      rcases List.mem_append.mp hx with hx | hx
      · exact H.lt x hx
      · rw [List.mem_singleton.mp hx]
        exact hlt
    · rw [hreached, List.mem_append, List.mem_singleton, ← H.visited x]
      by_cases hx : x = e.1
      · simp [hx]
      · simp [hx]
    · rcases List.mem_append.mp hc with hc | hc
      · exact H.edge c hc
      · rw [List.mem_singleton.mp hc]
        exact hcost
    · rcases List.mem_append.mp hc with hc | hc
      · exact H.left c hc
      · rw [List.mem_singleton.mp hc]
        exact hv

theorem Search.visited_follow {e : Nat × Int} {x : Nat} (h : s.visited x = true) :
    (s.follow v e).visited x = true := by
  unfold Search.follow
  split
  · exact h
  · by_cases hx : x = e.1
    · simp [hx]
    · exact (Function.update_of_ne hx _ _).trans h

theorem Search.visited_follow_self {e : Nat × Int} : (s.follow v e).visited e.1 = true := by
  unfold Search.follow
  split
  · next h => exact h
  · simp

/-- All edges of a vertex. -/
theorem Search.Inv.followAll (H : s.Inv g start done) (hv : v ∈ done) {es : List (Nat × Int)}
    (hes : ∀ e ∈ es, e ∈ g.edges v) :
    (es.foldl (Search.follow v) s).Inv g start done ∧
      (∀ x, s.visited x = true → (es.foldl (Search.follow v) s).visited x = true) ∧
      ∀ e ∈ es, (es.foldl (Search.follow v) s).visited e.1 = true := by
  induction es generalizing s with
  | nil => exact ⟨H, fun _ h => h, by simp⟩
  | cons e es ih =>
    obtain ⟨H', hmono, hall⟩ := ih (H.follow hv (hes e List.mem_cons_self)) fun e' he' =>
      hes e' (List.mem_cons_of_mem _ he')
    refine ⟨H', fun x hx => hmono x (visited_follow hx), fun e' he' => ?_⟩
    rcases List.mem_cons.mp he' with rfl | he'
    · exact hmono _ visited_follow_self
    · exact hall e' he'

/-- A round takes a vertex from the queue, so the search ends with an empty queue. -/
theorem search_inv {fuel : Nat} (H : s.Inv g start done) (hclosed : s.Closed g done)
    (hfuel : g.order ≤ fuel + done.length) :
    ∃ done', (g.search fuel s).Inv g start done' ∧ (g.search fuel s).Closed g done' ∧
      (g.search fuel s).queue = [] := by
  induction fuel generalizing s done with
  | zero =>
    refine ⟨done, H, hclosed, ?_⟩
    have hlen : (s.reached start).length ≤ g.order := by
      simpa using (List.subperm_of_subset H.nodup fun x hx =>
        List.mem_range.mpr (H.lt x hx)).length_le
    rw [← H.order, List.length_append] at hlen
    rw [search]
    exact List.length_eq_zero_iff.mp (by omega)
  | succ fuel ih =>
    rw [search]
    split
    · next hq => exact ⟨done, H, hclosed, hq⟩
    · next v queue hq =>
      have H₁ : Search.Inv g start (done ++ [v]) { s with queue } := by
        refine ⟨?_, H.nodup, H.lt, H.visited, H.edge, fun c hc => ?_⟩
        · rw [List.append_assoc, List.singleton_append, ← hq]
          exact H.order
        · exact List.mem_append_left _ (H.left c hc)
      obtain ⟨H', hmono, hall⟩ := H₁.followAll (v := v) (by simp) fun e he => he
      refine ih H' (fun u hu e he => ?_) (by rw [List.length_append, List.length_singleton]; omega)
      rcases List.mem_append.mp hu with hu | hu
      · exact hmono _ (hclosed u hu e he)
      · obtain rfl := List.mem_singleton.mp hu
        exact hall e he

/-- **The calls of `BFS`.** -/
structure Discovers (g : Graph) (start : Nat) (calls : List (Nat × Nat × Int)) : Prop where
  edge : ∀ v w c, (v, w, c) ∈ calls → g.cost v w = some c
  left : ∀ v w c, (v, w, c) ∈ calls → v = start ∨ ∃ u d, (u, v, d) ∈ calls
  nodup : (start :: calls.map fun c => c.2.1).Nodup
  closed : ∀ v w c, v = start ∨ (∃ u d, (u, v, d) ∈ calls) → w < g.order → g.cost v w = some c →
    w = start ∨ ∃ u d, (u, w, d) ∈ calls

theorem mem_reached {x : Nat} :
    x ∈ s.reached start ↔ x = start ∨ ∃ u d, (u, x, d) ∈ s.calls := by
  simp [Search.reached]

theorem bfs_discovers (hstart : start < g.order) : g.Discovers start (g.bfs start) := by
  have H₀ : Search.Inv g start [] ⟨Function.update (fun _ => false) start true, [start], []⟩ := by
    refine ⟨rfl, by simp [Search.reached], by simpa [Search.reached] using hstart, fun x => ?_,
      nofun, nofun⟩
    by_cases hx : x = start
    · simp [hx, Search.reached]
    · simp [hx, Search.reached]
  obtain ⟨done, H, hclosed, hqueue⟩ := search_inv H₀ (fun _ h => nomatch h) (Nat.le_refl _)
  have hdone := H.order
  rw [hqueue, List.append_nil] at hdone
  refine ⟨fun v w c h => H.edge _ h, fun v w c h => ?_, H.nodup, fun v w c hv hw hc => ?_⟩
  · have := H.left _ h
    rw [hdone] at this
    exact mem_reached.mp this
  · have hv : v ∈ done := hdone ▸ mem_reached.mpr hv
    exact mem_reached.mp ((H.visited w).mp (hclosed v hv (w, c) (mem_edges.mpr ⟨hw, hc⟩)))

end

end Graph

end C2DN.LoadBalancer
