import Mathlib.Data.Finset.Card
import Mathlib.Data.List.Nodup
import Mathlib.Data.List.Pairwise
import Mathlib.Logic.Function.Basic

/-!
# Breadth-first search

A search from `s` along `next`, which keeps the vertex from which every vertex was reached. When its
queue is empty, the vertices that it has reached have levels (`Levels`): every edge goes up at most
one level, and the edge over which a vertex was reached goes up one.
-/

namespace C2DN.BreadthFirst
variable {V : Type} [DecidableEq V]

structure State (V : Type) where
  visited : V → Bool
  prev : V → Option V
  queue : List V

/-- Follows the edge from `v` to `w`. -/
def State.visit (v : V) (st : State V) (w : V) : State V :=
  if st.visited w then st
  else
    { visited := Function.update st.visited w true
      prev := Function.update st.prev w (some v)
      queue := st.queue ++ [w] }

/-- At most `fuel` rounds. -/
def search (next : V → List V) : Nat → State V → State V
  | 0, st => st
  | fuel + 1, st =>
    match st.queue with
    | [] => st
    | v :: queue => search next fuel ((next v).foldl (State.visit v) { st with queue })

/-- The levels of the vertices that a finished search has reached among the vertices `U`. -/
structure Levels (next : V → List V) (s : V) (U : Finset V) (st : State V) (level : V → Nat) :
    Prop where
  source : st.visited s = true
  mem : ∀ x, st.visited x = true → x ∈ U
  zero : level s = 0
  prev : ∀ x, st.visited x = true → x ≠ s → ∃ u, st.visited u = true ∧ st.prev x = some u ∧
    x ∈ next u ∧ level x = level u + 1
  closed : ∀ x, st.visited x = true → ∀ y ∈ next x, st.visited y = true
  up : ∀ x, ∀ y ∈ next x, level y ≤ level x + 1
  bound : ∀ x, st.visited x = true → level x < U.card

/-- What holds in every round; `done` are the vertices that have been taken from the queue. -/
structure Inv (next : V → List V) (s : V) (done : List V) (level : V → Nat) (st : State V) : Prop where
  nodup : (done ++ st.queue).Nodup
  visited : ∀ x, st.visited x = true ↔ x ∈ done ++ st.queue
  source : s ∈ done ++ st.queue
  zero : level s = 0
  prev : ∀ x ∈ done ++ st.queue, x ≠ s → ∃ u ∈ done, st.prev x = some u ∧ x ∈ next u ∧
    level x = level u + 1
  sorted : (done ++ st.queue).Pairwise fun x y => level x ≤ level y
  bound : ∀ x ∈ done ++ st.queue, level x < (done ++ st.queue).length

/-- The edges of these vertices have been followed. -/
def Closed (next : V → List V) (done : List V) (level : V → Nat) (st : State V) : Prop :=
  ∀ u ∈ done, ∀ w ∈ next u, st.visited w = true ∧ level w ≤ level u + 1

section
variable {next : V → List V} {s v w : V} {done : List V} {level : V → Nat} {st : State V}

omit [DecidableEq V] in
theorem Inv.congr (H : Inv next s done level st) {level' : V → Nat}
    (h : ∀ x ∈ done ++ st.queue, level' x = level x) : Inv next s done level' st where
  nodup := H.nodup
  visited := H.visited
  source := H.source
  zero := (h s H.source).trans H.zero
  prev x hx hne := by
    obtain ⟨u, hu, hprev, hnext, hlevel⟩ := H.prev x hx hne
    refine ⟨u, hu, hprev, hnext, ?_⟩
    rw [h x hx, h u (List.mem_append_left _ hu), hlevel]
  sorted := H.sorted.imp_of_mem fun ha hb hle => by rw [h _ ha, h _ hb]; exact hle
  bound x hx := by
    rw [h x hx]
    exact H.bound x hx

/-- While the edges of `v` are followed, no vertex is more than one level above it, and none behind it
in the queue is below it. -/
structure At (v : V) (done : List V) (level : V → Nat) (st : State V) : Prop where
  mem : v ∈ done
  near : ∀ x ∈ done ++ st.queue, level x ≤ level v + 1
  behind : ∀ x ∈ st.queue, level v ≤ level x

theorem visit_of_visited (h : st.visited w = true) : st.visit v w = st := if_pos h

/-- A vertex that is reached first gets the next level. -/
theorem Inv.visit (H : Inv next s done level st) (A : At v done level st) (hw : w ∈ next v) :
    ∃ level', Inv next s done level' (st.visit v w) ∧ At v done level' (st.visit v w) ∧
      (∀ x, st.visited x = true → (st.visit v w).visited x = true ∧ level' x = level x) ∧
      (st.visit v w).visited w = true ∧ level' w ≤ level v + 1 := by
  by_cases hvis : st.visited w = true
  · rw [visit_of_visited hvis]
    exact ⟨level, H, A, fun x hx => ⟨hx, rfl⟩, hvis, A.near w ((H.visited w).mp hvis)⟩
  · have hnew : w ∉ done ++ st.queue := fun h => hvis ((H.visited w).mpr h)
    have hsame : ∀ x ∈ done ++ st.queue, Function.update level w (level v + 1) x = level x :=
      fun x hx => Function.update_of_ne (ne_of_mem_of_not_mem hx hnew) _ _
    have hv := List.mem_append_left st.queue A.mem
    have H' := H.congr hsame
    have hnear : ∀ x ∈ done ++ st.queue, Function.update level w (level v + 1) x ≤ level v + 1 := by
      intro x hx
      rw [hsame x hx]
      exact A.near x hx
    have hself : Function.update level w (level v + 1) w = level v + 1 := Function.update_self ..
    have hmem : ∀ x, x ∈ done ++ (st.queue ++ [w]) ↔ x ∈ done ++ st.queue ∨ x = w := by
      intro x
      rw [← List.append_assoc, List.mem_append, List.mem_singleton]
    rw [State.visit, if_neg hvis]
    refine ⟨Function.update level w (level v + 1), ⟨?_, fun x => ?_, (hmem s).mpr (.inl H.source),
      H'.zero, fun x hx hne => ?_, ?_, fun x hx => ?_⟩, ⟨A.mem, fun x hx => ?_, fun x hx => ?_⟩,
      fun x hx => ?_, Function.update_self .., hself.le⟩
    · rw [← List.append_assoc]
      exact List.nodup_append'.mpr ⟨H.nodup, List.nodup_singleton w, by simpa using hnew⟩
    · rw [hmem, ← H.visited x]
      by_cases hx : x = w
      · simp [hx]
      · simp [hx]
    · obtain hx | rfl := (hmem x).mp hx
      · obtain ⟨u, hu, hprev, hstep⟩ := H'.prev x hx hne
        exact ⟨u, hu, (Function.update_of_ne (ne_of_mem_of_not_mem hx hnew) _ _).trans hprev, hstep⟩
      · refine ⟨v, A.mem, Function.update_self .., hw, ?_⟩
        rw [hself, hsame v hv]
    · rw [← List.append_assoc]
      refine List.pairwise_append.mpr ⟨H'.sorted, List.pairwise_singleton _ _, fun x hx y hy => ?_⟩
      rw [List.mem_singleton.mp hy, hself]
      exact hnear x hx
    · rw [← List.append_assoc, List.length_append, List.length_singleton]
      obtain hx | rfl := (hmem x).mp hx
      · exact Nat.lt_succ_of_lt (H'.bound x hx)
      · rw [hself]
        exact Nat.succ_lt_succ (H.bound v hv)
    · rw [hsame v hv]
      obtain hx | rfl := (hmem x).mp hx
      · exact hnear x hx
      · exact hself.le
    · rw [hsame v hv]
      rcases List.mem_append.mp hx with hx | hx
      · rw [hsame x (List.mem_append_right _ hx)]
        exact A.behind x hx
      · rw [List.mem_singleton.mp hx, hself]
        exact Nat.le_succ _
    · have hx := (H.visited x).mp hx
      refine ⟨?_, hsame x hx⟩
      simp [ne_of_mem_of_not_mem hx hnew, (H.visited x).mpr hx]

/-- All edges of a vertex. -/
theorem Inv.visitAll (H : Inv next s done level st) (A : At v done level st) {ws : List V}
    (hws : ∀ w ∈ ws, w ∈ next v) :
    ∃ level', Inv next s done level' (ws.foldl (State.visit v) st) ∧
      At v done level' (ws.foldl (State.visit v) st) ∧
      (∀ x, st.visited x = true →
        (ws.foldl (State.visit v) st).visited x = true ∧ level' x = level x) ∧
      ∀ w ∈ ws, (ws.foldl (State.visit v) st).visited w = true ∧ level' w ≤ level v + 1 := by
  induction ws generalizing level st with
  | nil => exact ⟨level, H, A, fun x hx => ⟨hx, rfl⟩, nofun⟩
  | cons w ws ih =>
    obtain ⟨level₁, H₁, A₁, hsame₁, hw, hlevel⟩ := H.visit A (hws w List.mem_cons_self)
    obtain ⟨level', H', A', hsame, hall⟩ := ih H₁ A₁ fun w' hw' => hws w' (List.mem_cons_of_mem _ hw')
    have hv : level₁ v = level v :=
      (hsame₁ v ((H.visited v).mpr (List.mem_append_left _ A.mem))).2
    refine ⟨level', H', A', fun x hx => ?_, fun w' hw' => ?_⟩
    · obtain ⟨hx₁, heq₁⟩ := hsame₁ x hx
      obtain ⟨hx', heq⟩ := hsame x hx₁
      exact ⟨hx', heq.trans heq₁⟩
    · rcases List.mem_cons.mp hw' with rfl | hw'
      · obtain ⟨hx', heq⟩ := hsame w' hw
        exact ⟨hx', heq.trans_le hlevel⟩
      · rw [← hv]
        exact hall w' hw'

/-- A round takes a vertex from the queue. -/
theorem Inv.round {queue : List V} (H : Inv next s done level st) (hclosed : Closed next done level st)
    (hnear : ∀ x ∈ done ++ st.queue, ∀ u ∈ st.queue, level x ≤ level u + 1)
    (hq : st.queue = v :: queue) :
    ∃ level', Inv next s (done ++ [v]) level' ((next v).foldl (State.visit v) { st with queue }) ∧
      Closed next (done ++ [v]) level' ((next v).foldl (State.visit v) { st with queue }) ∧
      ∀ x ∈ done ++ [v] ++ ((next v).foldl (State.visit v) { st with queue }).queue,
        ∀ u ∈ ((next v).foldl (State.visit v) { st with queue }).queue, level' x ≤ level' u + 1 := by
  have hmem : done ++ st.queue = done ++ [v] ++ queue := by
    rw [List.append_assoc, List.singleton_append, hq]
  have H₀ : Inv next s (done ++ [v]) level { st with queue } := by
    refine ⟨?_, fun x => ?_, ?_, H.zero, fun x hx hne => ?_, ?_, ?_⟩
    · exact hmem ▸ H.nodup
    · rw [← hmem]
      exact H.visited x
    · exact hmem ▸ H.source
    · obtain ⟨u, hu, hstep⟩ := H.prev x (hmem ▸ hx) hne
      exact ⟨u, List.mem_append_left _ hu, hstep⟩
    · exact hmem ▸ H.sorted
    · exact hmem ▸ H.bound
  have hv : v ∈ st.queue := by rw [hq]; exact List.mem_cons_self
  have A₀ : At v (done ++ [v]) level { st with queue } := by
    refine ⟨by simp, fun x hx => hnear x (hmem ▸ hx) v hv, fun x hx => ?_⟩
    have hsorted := (List.pairwise_append.mp H.sorted).2.1
    rw [hq, List.pairwise_cons] at hsorted
    exact hsorted.1 x hx
  obtain ⟨level', H', A', hsame, hall⟩ := H₀.visitAll A₀ fun w hw => hw
  have hvlevel : level' v = level v := (hsame v ((H.visited v).mpr (List.mem_append_right _ hv))).2
  refine ⟨level', H', fun u hu w hw => ?_, fun x hx u hu => ?_⟩
  · rcases List.mem_append.mp hu with hu | hu
    · obtain ⟨hvis, hlevel⟩ := hclosed u hu w hw
      obtain ⟨hvis', heq⟩ := hsame w hvis
      have hu' := (hsame u ((H.visited u).mpr (List.mem_append_left _ hu))).2
      exact ⟨hvis', by omega⟩
    · rw [List.mem_singleton.mp hu] at hw ⊢
      rw [hvlevel]
      exact hall w hw
  · have := A'.near x hx
    have := A'.behind u hu
    omega

/-- There are no more vertices than `U` has. -/
theorem Inv.length_le (H : Inv next s done level st) {U : Finset V}
    (hsub : ∀ x ∈ done ++ st.queue, x ∈ U) : (done ++ st.queue).length ≤ U.card := by
  rw [← List.toFinset_card_of_nodup H.nodup]
  exact Finset.card_le_card fun x hx => hsub x (List.mem_toFinset.mp hx)

/-- A search with an empty queue. The other vertices are above all levels. -/
theorem Inv.levels (H : Inv next s done level st) (hclosed : Closed next done level st) {U : Finset V}
    (hsub : ∀ x ∈ done ++ st.queue, x ∈ U) (hq : st.queue = []) :
    ∃ level', Levels next s U st level' := by
  have hlen := H.length_le hsub
  obtain ⟨-, hvisited, hsource, hzero, hprev, -, hbound⟩ := H
  rw [hq, List.append_nil] at hlen hvisited hsource hprev hbound hsub
  have hbelow : ∀ x, st.visited x = true → level x < U.card :=
    fun x hx => Nat.lt_of_lt_of_le (hbound x ((hvisited x).mp hx)) hlen
  refine ⟨fun x => if st.visited x = true then level x else U.card, (hvisited s).mpr hsource,
    fun x hx => hsub x ((hvisited x).mp hx), ?_, fun x hx hne => ?_,
    fun x hx y hy => (hclosed x ((hvisited x).mp hx) y hy).1, fun x y hy => ?_, fun x hx => ?_⟩
  · rw [if_pos ((hvisited s).mpr hsource), hzero]
  · obtain ⟨u, hu, hprev, hnext, hlevel⟩ := hprev x ((hvisited x).mp hx) hne
    refine ⟨u, (hvisited u).mpr hu, hprev, hnext, ?_⟩
    rw [if_pos hx, if_pos ((hvisited u).mpr hu), hlevel]
  · by_cases hx : st.visited x = true
    · obtain ⟨hy, hlevel⟩ := hclosed x ((hvisited x).mp hx) y hy
      rw [if_pos hx, if_pos hy]
      exact hlevel
    · rw [if_neg hx]
      split
      · next hy => exact Nat.le_succ_of_le (hbelow y hy).le
      · exact Nat.le_succ _
  · rw [if_pos hx]
    exact hbelow x hx

/-- A round reaches only vertices of `U`. -/
theorem Inv.subset {level' : V → Nat} {st' : State V} (H' : Inv next s (done ++ [v]) level' st')
    {U : Finset V} (hU : ∀ v ∈ U, ∀ w ∈ next v, w ∈ U) (hs : s ∈ U) (hdone : ∀ x ∈ done, x ∈ U)
    (hv : v ∈ U) : ∀ x ∈ done ++ [v] ++ st'.queue, x ∈ U := by
  intro x hx
  by_cases hxs : x = s
  · rw [hxs]
    exact hs
  · obtain ⟨u, hu, -, hxu, -⟩ := H'.prev x hx hxs
    refine hU u ?_ x hxu
    rcases List.mem_append.mp hu with hu | hu
    · exact hdone u hu
    · rw [List.mem_singleton.mp hu]
      exact hv

theorem Inv.search (H : Inv next s done level st) (hclosed : Closed next done level st)
    (hnear : ∀ x ∈ done ++ st.queue, ∀ u ∈ st.queue, level x ≤ level u + 1) {U : Finset V}
    (hU : ∀ v ∈ U, ∀ w ∈ next v, w ∈ U) (hsub : ∀ x ∈ done ++ st.queue, x ∈ U) {fuel : Nat}
    (hfuel : U.card ≤ fuel + done.length) :
    ∃ level', Levels next s U (search next fuel st) level' := by
  induction fuel generalizing done level st with
  | zero =>
    have hlen := H.length_le hsub
    rw [List.length_append] at hlen
    exact H.levels hclosed hsub (List.length_eq_zero_iff.mp (by omega))
  | succ fuel ih =>
    rw [BreadthFirst.search]
    split
    · next hq => exact H.levels hclosed hsub hq
    · next v queue hq =>
      obtain ⟨level', H', hclosed', hnear'⟩ := H.round hclosed hnear hq
      have hsub' := H'.subset hU (hsub s H.source) (fun x hx => hsub x (List.mem_append_left _ hx))
        (hsub v (by simp [hq]))
      exact ih H' hclosed' hnear' hsub' (by rw [List.length_append, List.length_singleton]; omega)

end

/-- **Breadth-first search** from `s`, when `U` has all vertices. -/
theorem search_levels {next : V → List V} {s : V} {U : Finset V} (hs : s ∈ U)
    (hU : ∀ v ∈ U, ∀ w ∈ next v, w ∈ U) {fuel : Nat} (hfuel : U.card ≤ fuel) (prev : V → Option V) :
    ∃ level, Levels next s U
      (search next fuel ⟨Function.update (fun _ => false) s true, prev, [s]⟩) level := by
  have H : Inv next s [] (fun _ => 0) ⟨Function.update (fun _ => false) s true, prev, [s]⟩ := by
    refine ⟨List.nodup_singleton s, fun x => ?_, List.mem_singleton_self s, rfl, fun x hx hne => ?_,
      List.pairwise_singleton _ _, fun x _ => Nat.one_pos⟩
    · by_cases hx : x = s
      · simp [hx]
      · simp [hx]
    · exact absurd (List.mem_singleton.mp hx) hne
  refine H.search (fun u hu => nomatch hu) (fun _ _ _ _ => Nat.zero_le _) hU (fun x hx => ?_) hfuel
  rw [List.mem_singleton.mp hx]
  exact hs

end C2DN.BreadthFirst
