import C2DN.Lib.BreadthFirst
import C2DN.Lib.Residual
import C2DN.LoadBalancer.Rebalance

/-!
# Maximum flows

`MaxFlow` of package `graph`: it looks for a path along the edges that are left, by breadth-first
search, and sends along it what its smallest edge has left, until there is no path. Costs are
`int64`s, whose sums wrap around.
-/

namespace C2DN.LoadBalancer

/-- How a call ends that does not return. -/
inductive FlowFault where
  | indexOutOfRange
  | noEnd
  deriving DecidableEq, Repr

/-- `graph.Max`. -/
def maxCost : Int := 2 ^ 63 - 1

/-- The result of an operation on `int64`s. -/
def toInt64 (x : Int) : Int := (x + 2 ^ 63) % 2 ^ 64 - 2 ^ 63

namespace Graph
open BreadthFirst (State)

/-- `Cost`. -/
def costOf (g : Graph) (v w : Nat) : Int := (g.cost v w).getD 0

/-- `AddCost`. -/
def addCost (g : Graph) (v w : Nat) (c : Int) : Graph :=
  { g with cost := fun x y => if x = v ∧ y = w then some c else g.cost x y }

/-- What `residualFlow` does for an edge from `v`. -/
def followResidual (v : Nat) (st : State Nat) (e : Nat × Int) : State Nat :=
  if st.visited e.1 = false ∧ 0 < e.2 then
    { prev := Function.update st.prev e.1 (some v)
      visited := Function.update st.visited e.1 true
      queue := st.queue ++ [e.1] }
  else st

/-- The loop `for len(queue) > 0`, for at most `fuel` rounds. -/
def residualSearch (g : Graph) : Nat → State Nat → State Nat
  | 0, st => st
  | fuel + 1, st =>
    match st.queue with
    | [] => st
    | v :: queue => g.residualSearch fuel ((g.edges v).foldl (followResidual v) { st with queue })

/-- `residualFlow`, with `prev` afterwards. There are at most as many rounds as vertices. -/
def residualFlow (g : Graph) (s t : Nat) (prev : Nat → Option Nat) : Bool × (Nat → Option Nat) :=
  let st := g.residualSearch g.order
    ⟨Function.update (fun _ => false) s true, Function.update prev s none, [s]⟩
  (st.visited t, st.prev)

/-- The first loop `for v := t; v != s;`, from `v` on: the least cost on the way. -/
def pathFlow (residual : Graph) (prev : Nat → Option Nat) (s : Nat) :
    Nat → Nat → Int → Except FlowFault Int
  | 0, _, _ => .error .noEnd
  | fuel + 1, v, flow =>
    if v = s then .ok flow
    else
      match prev v with
      | none => .error .indexOutOfRange
      | some u =>
        let c := residual.costOf u v
        residual.pathFlow prev s fuel u (if c < flow then c else flow)

/-- The second loop `for v := t; v != s;`, from `v` on. -/
def sendPath (prev : Nat → Option Nat) (s : Nat) (flow : Int) :
    Nat → Nat → Graph → Except FlowFault Graph
  | 0, _, _ => .error .noEnd
  | fuel + 1, v, residual =>
    if v = s then .ok residual
    else
      match prev v with
      | none => .error .indexOutOfRange
      | some u =>
        let residual := residual.addCost u v (toInt64 (residual.costOf u v - flow))
        let residual := residual.addCost v u (toInt64 (residual.costOf v u + flow))
        sendPath prev s flow fuel u residual

/-- The loop of `MaxFlow`, for at most `fuel` rounds: the flow and what is left. -/
def maxFlowLoop (s t : Nat) : Nat → Graph → (Nat → Option Nat) → Int → Except FlowFault (Int × Graph)
  | 0, _, _, _ => .error .noEnd
  | fuel + 1, residual, prev, flow =>
    let (found, prev) := residual.residualFlow s t prev
    if found = true ∧ flow < maxCost then
      (residual.pathFlow prev s residual.order t maxCost).bind fun sent =>
        (sendPath prev s sent residual.order t residual).bind fun residual =>
          maxFlowLoop s t fuel residual prev (toInt64 (flow + sent))
    else .ok (flow, residual)

/-- The edges with flow. -/
def flowGraph (g residual : Graph) : Graph where
  order := g.order
  cost v w :=
    if v < g.order ∧ w < g.order then
      (g.cost v w).bind fun c =>
        let flow := toInt64 (c - residual.costOf v w)
        if 0 < flow then some flow else none
    else none

/-- The number of edges. -/
def size (g : Graph) : Nat := ((List.range g.order).map fun v => (g.edges v).length).sum

/-- `MaxFlow`. There are at most as many rounds as vertices times edges, and two more. -/
def maxFlow (g : Graph) (s t : Nat) : Except FlowFault (Int × Graph) :=
  if s < g.order ∧ t < g.order then
    (maxFlowLoop s t (g.order * g.size + 2) g (fun _ => some 0) 0).map fun (flow, residual) =>
      (flow, g.flowGraph residual)
  else .error .indexOutOfRange

end Graph

/-! ## Arithmetic -/

theorem toInt64_of_le {x : Int} (h0 : -maxCost ≤ x) (h : x ≤ maxCost) : toInt64 x = x := by
  unfold toInt64 maxCost at *
  omega

namespace Graph
open BreadthFirst (State Levels)
open Residual (Path Potential Tight Sends Augments)

/-! ## The search -/

section
variable {g : Graph} {s t v : Nat} {prev : Nat → Option Nat} {st : State Nat}

/-- The ends of the edges from `v` that are left. -/
def nextOf (g : Graph) (v : Nat) : List Nat := ((g.edges v).filter fun e => 0 < e.2).map Prod.fst

theorem mem_nextOf {w : Nat} : w ∈ g.nextOf v ↔ w < g.order ∧ 0 < g.costOf v w := by
  rw [nextOf, List.mem_map]
  constructor
  · rintro ⟨e, he, rfl⟩
    obtain ⟨hmem, hpos⟩ := List.mem_filter.mp he
    obtain ⟨hlt, hcost⟩ := mem_edges.mp hmem
    rw [costOf, hcost]
    exact ⟨hlt, of_decide_eq_true hpos⟩
  · rintro ⟨hlt, hpos⟩
    cases hcost : g.cost v w with
    | none =>
      rw [costOf, hcost] at hpos
      exact absurd hpos (lt_irrefl _)
    | some c =>
      rw [costOf, hcost] at hpos
      exact ⟨(w, c), List.mem_filter.mpr ⟨mem_edges.mpr ⟨hlt, hcost⟩, decide_eq_true hpos⟩, rfl⟩

theorem foldl_followResidual (es : List (Nat × Int)) : es.foldl (followResidual v) st =
    ((es.filter fun e => 0 < e.2).map Prod.fst).foldl (State.visit v) st := by
  induction es generalizing st with
  | nil => rfl
  | cons e es ih =>
    rw [List.foldl_cons, ih]
    by_cases hpos : 0 < e.2
    · rw [List.filter_cons, if_pos (decide_eq_true hpos), List.map_cons, List.foldl_cons]
      congr 1
      unfold followResidual State.visit
      cases hvis : st.visited e.1 with
      | true => rw [if_neg nofun, if_pos rfl]
      | false => rw [if_pos ⟨rfl, hpos⟩, if_neg nofun]
    · rw [List.filter_cons, if_neg (by simpa using hpos), followResidual, if_neg fun h => hpos h.2]

theorem residualSearch_eq (fuel : Nat) :
    g.residualSearch fuel st = BreadthFirst.search g.nextOf fuel st := by
  induction fuel generalizing st with
  | zero => rfl
  | succ fuel ih =>
    rw [residualSearch, BreadthFirst.search]
    cases st.queue with
    | nil => rfl
    | cons v queue =>
      dsimp only
      rw [foldl_followResidual, ih]
      rfl

/-- The vertices that `residualFlow` reaches have levels. -/
theorem residualFlow_levels (hs : s < g.order) (t : Nat) (prev : Nat → Option Nat) :
    ∃ st level, g.residualFlow s t prev = (st.visited t, st.prev) ∧
      Levels g.nextOf s (Finset.range g.order) st level := by
  obtain ⟨level, hlevels⟩ := BreadthFirst.search_levels (Finset.mem_range.mpr hs)
    (fun _ _ _ hw => Finset.mem_range.mpr (mem_nextOf.mp hw).1) (Finset.card_range _).le
    (Function.update prev s none)
  rw [← residualSearch_eq] at hlevels
  exact ⟨_, level, rfl, hlevels⟩

end

/-! ## The loops along a path -/

section
variable {n : Nat} {R : Graph} {s v : Fin n} {es : List (Fin n × Fin n)} {prev : Nat → Option Nat}

/-- The costs of the edges between the first `n` vertices. -/
def costs (n : Nat) (g : Graph) (x y : Fin n) : Int := g.costOf x y

/-- `prev` has the edges of a path to `s`. -/
def Along (prev : Nat → Option Nat) (s : Fin n) (es : List (Fin n × Fin n)) : Prop :=
  ∀ e ∈ es, prev e.2 = some e.1.1 ∧ e.2 ≠ s

theorem Along.of_cons {e : Fin n × Fin n} (h : Along prev s (e :: es)) : Along prev s es :=
  fun e' he' => h e' (List.mem_cons_of_mem _ he')

/-- A vertex with a level has a path along the levels. -/
theorem exists_path {st : State Nat} {level : Nat → Nat}
    (L : Levels R.nextOf s (Finset.range n) st level) (v : Fin n) (hv : st.visited v = true) :
    ∃ es, Path s v es ∧ Tight (fun x : Fin n => level x) es ∧ Along st.prev s es ∧
      ∀ e ∈ es, 0 < R.costs n e.1 e.2 := by
  induction hk : level v generalizing v with
  | zero =>
    by_cases hvs : v = s
    · subst hvs
      exact ⟨[], .nil, nofun, fun _ h => absurd h List.not_mem_nil, nofun⟩
    · obtain ⟨u, -, -, -, hlevel⟩ := L.prev v hv fun h => hvs (Fin.ext h)
      omega
  | succ k ih =>
    have hvs : v ≠ s := by
      rintro rfl
      rw [L.zero] at hk
      exact Nat.succ_ne_zero k hk.symm
    obtain ⟨u, hu, hprev, hnext, hlevel⟩ := L.prev v hv fun h => hvs (Fin.ext h)
    have hlt : u < n := Finset.mem_range.mp (L.mem u hu)
    obtain ⟨es, hp, htight, halong, hpos⟩ := ih ⟨u, hlt⟩ hu (by dsimp only; omega)
    refine ⟨(⟨u, hlt⟩, v) :: es, .cons hp, fun e he => ?_, fun e he => ?_, fun e he => ?_⟩
    · rcases List.mem_cons.mp he with rfl | he
      · exact hlevel
      · exact htight e he
    · rcases List.mem_cons.mp he with rfl | he
      · exact ⟨hprev, hvs⟩
      · exact halong e he
    · rcases List.mem_cons.mp he with rfl | he
      · exact (mem_nextOf.mp hnext).2
      · exact hpos e he

/-- The least cost on a path. -/
theorem pathFlow_ok (hp : Path s v es) (halong : Along prev s es) (fuel : Nat)
    (hfuel : es.length < fuel) (flow : Int) : ∃ sent, R.pathFlow prev s fuel v flow = .ok sent ∧
      sent ≤ flow ∧ (∀ e ∈ es, sent ≤ R.costs n e.1 e.2) ∧
      (sent = flow ∨ ∃ e ∈ es, R.costs n e.1 e.2 = sent) := by
  induction hp generalizing fuel flow with
  | nil =>
    obtain ⟨fuel, rfl⟩ := Nat.exists_eq_succ_of_ne_zero (Nat.ne_of_gt hfuel)
    exact ⟨flow, if_pos rfl, le_refl _, nofun, .inl rfl⟩
  | @cons u w es hp ih =>
    obtain ⟨fuel, rfl⟩ := Nat.exists_eq_succ_of_ne_zero (Nat.ne_of_gt (Nat.zero_lt_of_lt hfuel))
    obtain ⟨hprev, hne⟩ : prev w = some u.1 ∧ w ≠ s := halong _ List.mem_cons_self
    obtain ⟨sent, hsent, hle, hall, hleast⟩ := ih halong.of_cons fuel (Nat.lt_of_succ_lt_succ hfuel)
      (if R.costOf u w < flow then R.costOf u w else flow)
    refine ⟨sent, ?_, ?_, fun e he => ?_, ?_⟩
    · rw [pathFlow, if_neg fun h => hne (Fin.ext h), hprev]
      exact hsent
    · split at hle <;> omega
    · rcases List.mem_cons.mp he with rfl | he
      · change sent ≤ R.costOf u w
        split at hle <;> omega
      · exact hall e he
    · rcases hleast with heq | ⟨e, he, heq⟩
      · by_cases hlt : R.costOf u w < flow
        · rw [if_pos hlt] at heq
          exact .inr ⟨(u, w), List.mem_cons_self, heq.symm⟩
        · rw [if_neg hlt] at heq
          exact .inl heq
      · exact .inr ⟨e, List.mem_cons_of_mem _ he, heq⟩

theorem costOf_addCost {g : Graph} {v w x y : Nat} {c : Int} :
    (g.addCost v w c).costOf x y = if x = v ∧ y = w then c else g.costOf x y := by
  unfold costOf addCost
  dsimp only
  split <;> rfl

/-- Both costs of an edge after flow has been sent along it. -/
theorem costs_sendEdge {u w : Fin n} {flow : Int} (hne : u ≠ w) (h0 : 0 ≤ flow)
    (hle : flow ≤ R.costs n u w) (hback : 0 ≤ R.costs n w u)
    (hsum : R.costs n u w + R.costs n w u ≤ maxCost) :
    ((R.addCost u w (toInt64 (R.costOf u w - flow))).addCost w u
      (toInt64 ((R.addCost u w (toInt64 (R.costOf u w - flow))).costOf w u + flow))).costs n =
      Residual.push flow (R.costs n) (u, w) := by
  have hne' : ¬ (w.1 = u.1 ∧ u.1 = w.1) := fun h => hne (Fin.ext h.2)
  have hcost : (R.addCost u w (toInt64 (R.costOf u w - flow))).costOf w u = R.costOf w u := by
    rw [costOf_addCost, if_neg hne']
  unfold costs at hle hback hsum
  rw [hcost, toInt64_of_le (x := R.costOf w u + flow) (by unfold maxCost; omega) (by omega),
    toInt64_of_le (x := R.costOf u w - flow) (by unfold maxCost; omega) (by omega)]
  funext x y
  rw [costs, costOf_addCost, costOf_addCost, Residual.push]
  simp only [Prod.mk.injEq, Fin.ext_iff]
  by_cases hxy : x.1 = u.1 ∧ y.1 = w.1
  · obtain ⟨hx, hy⟩ := hxy
    obtain rfl := Fin.ext hx
    obtain rfl := Fin.ext hy
    rw [if_neg fun h => hne (Fin.ext h.1), if_pos ⟨rfl, rfl⟩, if_pos ⟨rfl, rfl⟩,
      if_neg fun h => hne (Fin.ext h.2), add_zero]
    rfl
  · rw [if_neg hxy, if_neg hxy]
    by_cases hyx : x.1 = w.1 ∧ y.1 = u.1
    · obtain ⟨hx, hy⟩ := hyx
      obtain rfl := Fin.ext hx
      obtain rfl := Fin.ext hy
      rw [if_pos ⟨rfl, rfl⟩, if_pos ⟨rfl, rfl⟩, sub_zero]
      rfl
    · rw [if_neg hyx, if_neg fun h => hyx ⟨h.2, h.1⟩, sub_zero, add_zero]
      rfl

/-- The second loop sends the flow along the path. -/
theorem sendPath_ok (hp : Path s v es) (halong : Along prev s es) {d : Fin n → Nat}
    (htight : Tight d es) (fuel : Nat) (hfuel : es.length < fuel) {flow : Int} (h0 : 0 ≤ flow)
    (hle : ∀ e ∈ es, flow ≤ R.costs n e.1 e.2) (hback : ∀ e ∈ es, 0 ≤ R.costs n e.2 e.1)
    (hsum : ∀ e ∈ es, R.costs n e.1 e.2 + R.costs n e.2 e.1 ≤ maxCost) :
    ∃ R', sendPath prev s flow fuel v R = .ok R' ∧ R'.order = R.order ∧
      R'.costs n = Residual.pushAll flow (R.costs n) es := by
  induction hp generalizing fuel R with
  | nil =>
    obtain ⟨fuel, rfl⟩ := Nat.exists_eq_succ_of_ne_zero (Nat.ne_of_gt hfuel)
    exact ⟨R, if_pos rfl, rfl, rfl⟩
  | @cons u w es hp ih =>
    obtain ⟨fuel, rfl⟩ := Nat.exists_eq_succ_of_ne_zero (Nat.ne_of_gt (Nat.zero_lt_of_lt hfuel))
    obtain ⟨hprev, hne⟩ : prev w = some u.1 ∧ w ≠ s := halong _ List.mem_cons_self
    have huw : u ≠ w := by
      rintro rfl
      exact Nat.succ_ne_self _ htight.head.symm
    have hsent := costs_sendEdge huw h0 (hle _ List.mem_cons_self) (hback _ List.mem_cons_self)
      (hsum _ List.mem_cons_self)
    generalize hR₁ : (R.addCost u w (toInt64 (R.costOf u w - flow))).addCost w u
      (toInt64 ((R.addCost u w (toInt64 (R.costOf u w - flow))).costOf w u + flow)) = R₁ at hsent
    -- the edge is not on the rest of the path, in neither direction
    have hnot : (u, w) ∉ es := (List.nodup_cons.mp ((Path.cons hp).nodup htight)).1
    have hopp : (w, u) ∉ es := fun h => htight.opposite List.mem_cons_self (List.mem_cons_of_mem _ h)
    have hsame : ∀ e ∈ es, R₁.costs n e.1 e.2 = R.costs n e.1 e.2 ∧
        R₁.costs n e.2 e.1 = R.costs n e.2 e.1 := by
      rintro ⟨a, b⟩ he
      have hab : (a, b) ≠ (u, w) := ne_of_mem_of_not_mem he hnot
      have hba : (b, a) ≠ (u, w) := by
        intro h
        obtain ⟨rfl, rfl⟩ := Prod.mk.inj h
        exact hopp he
      rw [hsent, Residual.push, Residual.push, if_neg hab, if_neg hba]
      dsimp only
      omega
    obtain ⟨R', hR', horder, hcosts⟩ := ih (R := R₁) halong.of_cons htight.of_cons
      fuel (Nat.lt_of_succ_lt_succ hfuel)
      (fun e he => by rw [(hsame e he).1]; exact hle e (List.mem_cons_of_mem _ he))
      (fun e he => by rw [(hsame e he).2]; exact hback e (List.mem_cons_of_mem _ he))
      (fun e he => by
        rw [(hsame e he).1, (hsame e he).2]
        exact hsum e (List.mem_cons_of_mem _ he))
    refine ⟨R', ?_, horder.trans (by rw [← hR₁]; rfl), by rw [hcosts, hsent]; rfl⟩
    rw [sendPath, if_neg fun h => hne (Fin.ext h), hprev]
    dsimp only
    rw [hR₁]
    exact hR'

end

/-! ## The rounds -/

/-- What is left of the edges between the first `n` vertices. -/
def left (n : Nat) (g : Graph) (x y : Fin n) : Int := max 0 (g.costs n x y)

/-- The graphs whose flows from `s` to `t` are `int64`s: an edge and its opposite can be added up, and
an edge that has an opposite one with a positive cost has no negative cost. -/
structure Fits (g : Graph) (s t : Nat) : Prop where
  source : s < g.order
  sink : t < g.order
  ne : s ≠ t
  opposite : ∀ x y, g.costOf x y < 0 → g.costOf y x ≤ 0
  sum : ∀ x y, max 0 (g.costOf x y) + max 0 (g.costOf y x) ≤ maxCost
  value : ∀ f, g.network.Feasible s t f → g.network.value s f ≤ maxCost

/-- The residual graph `R` and the flow in every round. -/
structure Round (g : Graph) (s t : Fin g.order) (R : Graph) (flow : Int) : Prop where
  order : R.order = g.order
  sends : Sends (g.left g.order) s t (R.left g.order)
  flow : flow = Residual.excess (g.left g.order) (R.left g.order) s
  agree : ∀ x y : Fin g.order, g.costOf x y < 0 → R.costOf x y = g.costOf x y
  nonneg : ∀ x y : Fin g.order, 0 ≤ g.costOf x y → 0 ≤ R.costOf x y

section
variable {g R : Graph} {s t : Fin g.order} {flow : Int}

theorem network_eq : g.network = (Residual.network (g.left g.order)).rename Fin.val := rfl

theorem left_nonneg (n : Nat) (x y : Fin n) : 0 ≤ g.left n x y := le_max_left _ _

theorem start_round : Round g s t g 0 where
  order := rfl
  sends := Residual.sends_start (left_nonneg _)
  flow := by simp [Residual.excess]
  agree _ _ _ := rfl
  nonneg _ _ h := h

/-- What is left of an edge and its opposite are `int64`s together. -/
theorem Round.sum_le (H : Round g s t R flow) (F : Fits g s t) (x y : Fin g.order) :
    R.left g.order x y + R.left g.order y x ≤ maxCost := by
  rw [H.sends.total x y]
  exact F.sum x y

/-- Where something is left of an edge, neither it nor its opposite had a negative cost. -/
theorem Round.nonneg_of_pos (H : Round g s t R flow) (F : Fits g s t) {x y : Fin g.order}
    (hpos : 0 < R.costs g.order x y) : 0 ≤ g.costOf x y ∧ 0 ≤ g.costOf y x := by
  have hxy : 0 ≤ g.costOf x y := by
    by_contra hneg
    have hagree := H.agree x y (by omega)
    unfold costs at hpos
    omega
  refine ⟨hxy, ?_⟩
  by_contra hneg
  have hopp := F.opposite y x (by omega)
  have htotal := H.sends.total x y
  have hyx := H.sends.nonneg y x
  unfold left costs at htotal hyx
  unfold costs at hpos
  omega

theorem Round.value_eq (H : Round g s t R flow) :
    g.network.value s (Residual.flowOf (g.left g.order) (R.left g.order)) = flow := by
  rw [network_eq, Network.value_rename Fin.val_injective, H.sends.value_eq, H.flow]

theorem Round.feasible (H : Round g s t R flow) :
    g.network.Feasible s t (Residual.flowOf (g.left g.order) (R.left g.order)) := by
  rw [network_eq, Network.feasible_rename Fin.val_injective]
  exact H.sends.feasible (left_nonneg _)

theorem Round.flow_le (H : Round g s t R flow) (F : Fits g s t) : flow ≤ maxCost := by
  rw [← H.value_eq]
  exact F.value _ H.feasible

theorem Round.flow_augments {d : Fin g.order → Nat} {δ : Int} {es : List (Fin g.order × Fin g.order)}
    {R' : Graph} (H : Round g s t R flow)
    (A : Augments s t d δ es (R.left g.order) (R'.left g.order)) (hst : s ≠ t) :
    flow + δ = Residual.excess (g.left g.order) (R'.left g.order) s := by
  rw [A.excess hst, H.flow]

/-- A round that finds a path. -/
theorem Round.step (H : Round g s t R flow) (F : Fits g s t) (prev : Nat → Option Nat)
    (hfound : (R.residualFlow s t prev).1 = true) :
    ∃ sent R' d es, R.pathFlow (R.residualFlow s t prev).2 s R.order t maxCost = .ok sent ∧
      sendPath (R.residualFlow s t prev).2 s sent R.order t R = .ok R' ∧
      Augments s t d sent es (R.left g.order) (R'.left g.order) ∧ d t ≤ g.order - 1 ∧
      Round g s t R' (flow + sent) := by
  have hst : s ≠ t := fun h => F.ne (congrArg Fin.val h)
  obtain ⟨st, level, heq, L⟩ := residualFlow_levels (by rw [H.order]; exact s.2 : s.1 < R.order) t prev
  rw [heq] at hfound ⊢
  rw [H.order] at L ⊢
  obtain ⟨es, hp, htight, halong, hpos⟩ := exists_path L t hfound
  have hbound : level t < g.order := by simpa using L.bound t hfound
  have hlen : level t = level s + es.length := hp.length_of_tight htight
  rw [L.zero, Nat.zero_add] at hlen
  obtain ⟨sent, hsent, -, hle, hleast⟩ := pathFlow_ok hp halong g.order (by omega) maxCost
  have hsum : ∀ e ∈ es, R.costs g.order e.1 e.2 + R.costs g.order e.2 e.1 ≤ maxCost := by
    intro e he
    have := H.sum_le F e.1 e.2
    unfold left at this
    omega
  have hback : ∀ e ∈ es, 0 ≤ R.costs g.order e.2 e.1 := fun e he =>
    H.nonneg e.2 e.1 (H.nonneg_of_pos F (hpos e he)).2
  -- the path has an edge, and no edge has more than `maxCost` left
  have hfull : ∃ e ∈ es, R.costs g.order e.1 e.2 = sent := by
    rcases hleast with rfl | hleast
    · obtain ⟨e, he⟩ := List.exists_mem_of_ne_nil es (hp.ne_nil hst)
      have := hsum e he
      have := hback e he
      exact ⟨e, he, le_antisymm (by omega) (hle e he)⟩
    · exact hleast
  have hsentpos : 0 < sent := by
    obtain ⟨e, he, rfl⟩ := hfull
    exact hpos e he
  obtain ⟨R', hR', horder, hcosts⟩ := sendPath_ok hp halong htight g.order (by omega)
    hsentpos.le hle hback hsum
  have hnodup := hp.nodup htight
  have hpush : ∀ x y, R'.costs g.order x y = R.costs g.order x y -
      (if (x, y) ∈ es then sent else 0) + (if (y, x) ∈ es then sent else 0) := by
    intro x y
    rw [hcosts, Residual.pushAll_apply hnodup]
  have hleft : R'.left g.order = Residual.pushAll sent (R.left g.order) es := by
    funext x y
    rw [left, hpush, Residual.pushAll_apply hnodup, left]
    by_cases hxy : (x, y) ∈ es
    · have h₁ : sent ≤ R.costs g.order x y := hle _ hxy
      rw [if_pos hxy, if_neg (htight.opposite hxy)]
      omega
    · rw [if_neg hxy]
      by_cases hyx : (y, x) ∈ es
      · have h₂ : 0 ≤ R.costs g.order x y := hback _ hyx
        rw [if_pos hyx]
        omega
      · rw [if_neg hyx]
        omega
  have hA : Augments s t (fun x : Fin g.order => level x) sent es (R.left g.order)
      (R'.left g.order) := by
    refine ⟨hp, fun x y hxy => ?_, L.zero, htight, hsentpos, fun e he => ?_, ?_, hleft⟩
    · have hcost : 0 < R.costOf x y := by
        unfold left costs at hxy
        omega
      exact L.up x y (mem_nextOf.mpr ⟨by rw [H.order]; exact y.2, hcost⟩)
    · exact (hle e he).trans (le_max_right _ _)
    · obtain ⟨e, he, heq⟩ := hfull
      refine ⟨e, he, ?_⟩
      rw [left, heq]
      exact max_eq_right hsentpos.le
  refine ⟨sent, R', _, es, hsent, hR', hA, Nat.le_sub_one_of_lt hbound, horder.trans H.order,
    hA.sends H.sends, H.flow_augments hA hst, fun x y hneg => ?_, fun x y hxy => ?_⟩
  · -- an edge with a negative cost and its opposite are on no path
    have hagree := H.agree x y hneg
    have hxy : (x, y) ∉ es := fun h => by
      have : 0 ≤ g.costOf x y := (H.nonneg_of_pos F (hpos _ h)).1
      omega
    have hyx : (y, x) ∉ es := fun h => by
      have : 0 ≤ g.costOf x y := (H.nonneg_of_pos F (hpos _ h)).2
      omega
    have h := hpush x y
    rw [if_neg hxy, if_neg hyx] at h
    unfold costs at h
    omega
  · have hR := H.nonneg x y hxy
    have h := hpush x y
    unfold costs at h
    by_cases hmem : (x, y) ∈ es
    · have : sent ≤ R.costOf x y := hle _ hmem
      rw [if_pos hmem, if_neg (htight.opposite hmem)] at h
      omega
    · rw [if_neg hmem] at h
      split at h <;> omega

/-- When `t` is not reached, the vertices that are reached are a full cut. -/
theorem Round.maximal (H : Round g s t R flow) (prev : Nat → Option Nat)
    (hfound : (R.residualFlow s t prev).1 = false) : g.network.Maximal s t
      (Residual.flowOf (g.left g.order) (R.left g.order)) := by
  obtain ⟨st, level, heq, L⟩ := residualFlow_levels (by rw [H.order]; exact s.2 : s.1 < R.order) t prev
  rw [heq] at hfound
  rw [network_eq, Network.maximal_rename Fin.val_injective]
  refine H.sends.maximal (left_nonneg _) (S := Finset.univ.filter fun x => st.visited x = true) ?_ ?_ ?_
  · exact Finset.mem_filter.mpr ⟨Finset.mem_univ s, L.source⟩
  · intro ht
    exact Bool.false_ne_true (hfound.symm.trans (Finset.mem_filter.mp ht).2)
  · intro x hx y hxy
    have hcost : 0 < R.costOf x y := by
      unfold left costs at hxy
      omega
    refine Finset.mem_filter.mpr ⟨Finset.mem_univ y, L.closed x (Finset.mem_filter.mp hx).2 y ?_⟩
    exact mem_nextOf.mpr ⟨by rw [H.order]; exact y.2, hcost⟩

/-- The rounds from any round on. -/
theorem Round.loop (H : Round g s t R flow) (F : Fits g s t) (hflow : 0 ≤ flow)
    {d : Fin g.order → Nat} (hd : Potential (R.left g.order) d) (hzero : d s = 0) {fuel : Nat}
    (hfuel : Residual.roundsLeft (g.left g.order) (g.order - 1) t (R.left g.order) d < fuel)
    (prev : Nat → Option Nat) : ∃ flow' R', maxFlowLoop s t fuel R prev flow = .ok (flow', R') ∧
      Round g s t R' flow' ∧
      g.network.Maximal s t (Residual.flowOf (g.left g.order) (R'.left g.order)) := by
  induction fuel generalizing R flow d prev with
  | zero => exact absurd hfuel (Nat.not_lt_zero _)
  | succ fuel ih =>
    by_cases hfound : (R.residualFlow s t prev).1 = true
    · by_cases hmax : flow < maxCost
      · obtain ⟨sent, R', d', es, hsent, hR', hA, hbound, H'⟩ := H.step F prev hfound
        obtain ⟨d'', hd'', hzero'', -, hless⟩ := hA.roundsLeft_lt H.sends hd hzero hbound
        have hpos : 0 < sent := hA.pos
        have hsum : toInt64 (flow + sent) = flow + sent := by
          have := H'.flow_le F
          exact toInt64_of_le (by unfold maxCost; omega) this
        obtain ⟨flow', R'', heq, H'', hmaximal⟩ := ih H' (by omega) hd'' hzero'' (by omega)
          (R.residualFlow s t prev).2
        refine ⟨flow', R'', ?_, H'', hmaximal⟩
        rw [maxFlowLoop]
        dsimp only
        rw [if_pos ⟨hfound, hmax⟩, hsent]
        dsimp only [Except.bind]
        rw [hR', hsum]
        exact heq
      · refine ⟨flow, R, ?_, H, { H.feasible with max := fun f Hf => ?_ }⟩
        · rw [maxFlowLoop]
          exact if_neg fun h => hmax h.2
        · rw [H.value_eq]
          exact (F.value f Hf).trans (not_lt.mp hmax)
    · refine ⟨flow, R, ?_, H, H.maximal prev (by simpa using hfound)⟩
      rw [maxFlowLoop]
      exact if_neg fun h => hfound h.1

/-- Every arc of the network is an edge. -/
theorem card_arcs_le (g : Graph) : (Residual.arcs (g.left g.order)).card ≤ g.size := by
  have hlen : g.size = ((List.range g.order).flatMap fun v => (g.edges v).map fun e => (v, e.1)).length := by
    rw [size, List.length_flatMap]
    simp only [List.length_map]
  rw [hlen]
  refine le_trans ?_ (List.toFinset_card_le _)
  refine Finset.card_le_card_of_injOn (fun e => (e.1.1, e.2.1)) (fun e he => ?_) fun e _ e' _ h => ?_
  · have hpos := (Finset.mem_filter.mp he).2
    have hnext : e.2.1 ∈ g.nextOf e.1 := by
      refine mem_nextOf.mpr ⟨e.2.2, ?_⟩
      unfold left costs at hpos
      omega
    obtain ⟨a, ha, heq⟩ := List.mem_map.mp hnext
    refine List.mem_toFinset.mpr (List.mem_flatMap.mpr ⟨e.1, List.mem_range.mpr e.1.2, ?_⟩)
    exact List.mem_map.mpr ⟨a, List.mem_of_mem_filter ha, by rw [heq]⟩
  · obtain ⟨h₁, h₂⟩ := Prod.mk.inj h
    exact Prod.ext (Fin.ext h₁) (Fin.ext h₂)

theorem Round.flowGraph (H : Round g s t R flow) (F : Fits g s t) (e : Fin g.order × Fin g.order) :
    (g.flowGraph R).cost e.1 e.2 =
      if 0 < Residual.flowOf (g.left g.order) (R.left g.order) e then
        some (Residual.flowOf (g.left g.order) (R.left g.order) e) else none := by
  obtain ⟨x, y⟩ := e
  have hsum := F.sum x y
  have htotal := H.sends.total x y
  have hyx := H.sends.nonneg y x
  rw [Graph.flowGraph]
  dsimp only
  rw [if_pos ⟨x.2, y.2⟩]
  unfold Residual.flowOf
  unfold left costs at *
  cases hcost : g.cost x y with
  | none =>
    have hzero : g.costOf x y = 0 := by rw [costOf, hcost]; rfl
    rw [if_neg (by dsimp only; omega)]
    rfl
  | some c =>
    have hc : g.costOf x y = c := by rw [costOf, hcost]; rfl
    have hflow : max 0 (max 0 (g.costOf x y) - max 0 (R.costOf x y)) = max 0 (c - R.costOf x y) ∧
        toInt64 (c - R.costOf x y) = c - R.costOf x y := by
      rcases lt_or_ge (g.costOf x y) 0 with hneg | hpos
      · have hagree := H.agree x y hneg
        refine ⟨by omega, toInt64_of_le (by unfold maxCost; omega) (by unfold maxCost; omega)⟩
      · have hR := H.nonneg x y hpos
        refine ⟨by omega, toInt64_of_le (by omega) (by omega)⟩
    rw [hflow.1]
    dsimp only [Option.bind]
    rw [hflow.2]
    by_cases hpos : 0 < c - R.costOf x y
    · rw [if_pos hpos, max_eq_right hpos.le, if_pos hpos]
    · rw [if_neg hpos, if_neg (by omega)]

end

/-- **`MaxFlow`** ends with a maximum flow. -/
theorem maxFlow_ok {g : Graph} {s t : Nat} (F : g.Fits s t) :
    ∃ r, g.maxFlow s t = .ok r ∧ g.MaxFlowOf s t r := by
  have hd : Potential (g.left g.order) fun _ : Fin g.order => 0 := fun _ _ _ => Nat.zero_le _
  have hrounds : Residual.roundsLeft (g.left g.order) (g.order - 1) ⟨t, F.sink⟩ (g.left g.order)
      (fun _ => 0) < g.order * g.size + 2 := by
    have hlevel : Residual.levelEdges (g.left g.order) (fun _ => 0) = ∅ :=
      Finset.filter_eq_empty_iff.mpr fun _ _ h => Nat.zero_ne_one h.2
    have hle : (g.order - 1 - 0) * (Residual.arcs (g.left g.order)).card ≤ g.order * g.size :=
      Nat.mul_le_mul (by omega) g.card_arcs_le
    rw [Residual.roundsLeft, hlevel, Finset.card_empty]
    omega
  obtain ⟨flow, R, hloop, H, hmax⟩ := (start_round (g := g) (s := ⟨s, F.source⟩) (t := ⟨t, F.sink⟩)).loop
    F (le_refl 0) hd rfl hrounds fun _ => some 0
  refine ⟨(flow, g.flowGraph R), ?_, _, hmax, H.value_eq.symm, rfl, H.flowGraph F, fun v w h => ?_⟩
  · rw [maxFlow, if_pos ⟨F.source, F.sink⟩, hloop]
    rfl
  · by_contra hout
    exact h (if_neg hout)

/-- A flow sends no more than the edges from the source can carry. -/
theorem value_le_order {g : Graph} {s t : Nat} {c : Int} (hcost : ∀ w, g.costOf s w ≤ c) (hc : 0 ≤ c)
    (hst : s ≠ t) {f : Fin g.order × Fin g.order → Int} (H : g.network.Feasible s t f) :
    g.network.value s f ≤ g.order * c := by
  have hcut := H.value_le_cut (Finset.mem_singleton_self s) (mt Finset.mem_singleton.mp hst.symm)
  refine hcut.trans ((Finset.sum_le_card_nsmul _ _ c fun e he => ?_).trans ?_)
  · obtain ⟨htail, -⟩ := (Finset.mem_filter.mp he).2
    have hs : e.1.1 = s := Finset.mem_singleton.mp htail
    have hle := hcost e.2
    rw [← hs] at hle
    exact max_le hc hle
  · rw [nsmul_eq_mul]
    refine mul_le_mul_of_nonneg_right (Int.ofNat_le.mpr ?_) hc
    -- the edges from the source differ in their ends
    refine (Finset.card_le_card_of_injOn Prod.snd (fun _ _ => Finset.mem_univ _) ?_).trans
      (Finset.card_fin g.order).le
    intro e he e' he' heq
    have hs : e.1.1 = s := Finset.mem_singleton.mp (Finset.mem_filter.mp he).2.1
    have hs' : e'.1.1 = s := Finset.mem_singleton.mp (Finset.mem_filter.mp he').2.1
    exact Prod.ext (Fin.ext (hs.trans hs'.symm)) heq

/-- Costs that are small enough. -/
theorem fits_of_le {g : Graph} {s t : Nat} {c : Int} (hs : s < g.order) (ht : t < g.order)
    (hst : s ≠ t) (hcost : ∀ x y, 0 ≤ g.costOf x y ∧ g.costOf x y ≤ c) (hc : g.order * c ≤ maxCost) :
    g.Fits s t := by
  have h0 : 0 ≤ c := (hcost s t).1.trans (hcost s t).2
  have htwo : 2 * c ≤ g.order * c := mul_le_mul_of_nonneg_right (by omega) h0
  refine ⟨hs, ht, hst, fun x y hneg => ?_, fun x y => ?_, fun f H => ?_⟩
  · exact absurd (hcost x y).1 (not_le.mpr hneg)
  · have := (hcost x y).2
    have := (hcost y x).2
    omega
  · exact (value_le_order (fun w => (hcost s w).2) h0 hst H).trans hc

/-- Two ways from 0 to 3, which cross. -/
def crossed : Graph where
  order := 4
  cost v w := if (v, w) ∈ [(0, 1), (0, 2), (1, 2), (1, 3), (2, 3)] then some (v + 1 : Int) else none

theorem crossed_maxFlow : ∃ r, crossed.maxFlow 0 3 = .ok r ∧ crossed.MaxFlowOf 0 3 r := by
  refine maxFlow_ok (fits_of_le (c := 3) (by decide) (by decide) (by decide) (fun x y => ?_) (by decide))
  unfold costOf crossed
  dsimp only
  split
  · next h =>
    have hx : x ≤ 2 := (by decide : ∀ e ∈ [(0, 1), (0, 2), (1, 2), (1, 3), (2, 3)], e.1 ≤ 2) (x, y) h
    rw [Option.getD_some]
    omega
  · exact ⟨le_refl 0, by decide⟩

end Graph

end C2DN.LoadBalancer
