import Mathlib.Data.Fintype.Prod
import Mathlib.Data.List.Nodup
import Mathlib.Tactic.Ring
import C2DN.Lib.Flow

/-!
# Augmenting paths

What a flow leaves of the capacities of a network, and of the arcs in the opposite direction
(`Sends`). Pushing along a path from the source to the sink keeps this, and once the sink cannot be
reached any more the flow is maximal. If all paths are shortest ones, there are at most as many as
vertices times arcs (`Augments.roundsLeft_lt`).
-/

namespace C2DN.Residual

/-! ## Paths -/

section
variable {V : Type}

/-- The edges of a path from `s` to a vertex, the last one first. -/
inductive Path (s : V) : V → List (V × V) → Prop
  | nil : Path s s []
  | cons {u v : V} {es : List (V × V)} : Path s u es → Path s v ((u, v) :: es)

/-- No edge that is left goes up more than one level. -/
def Potential (r : V → V → Int) (d : V → Nat) : Prop := ∀ x y, 0 < r x y → d y ≤ d x + 1

/-- All edges go up one level. -/
def Tight (d : V → Nat) (es : List (V × V)) : Prop := ∀ e ∈ es, d e.2 = d e.1 + 1

variable {s v x y : V} {es : List (V × V)} {d : V → Nat} {r : V → V → Int}

theorem Tight.of_cons {e : V × V} (h : Tight d (e :: es)) : Tight d es :=
  fun e' he' => h e' (List.mem_cons_of_mem _ he')

theorem Tight.head {u : V} (h : Tight d ((u, v) :: es)) : d v = d u + 1 := h _ List.mem_cons_self

/-- An edge of a path along the levels has its opposite not on the path. -/
theorem Tight.opposite (h : Tight d es) (he : (x, y) ∈ es) : (y, x) ∉ es := by
  intro hopp
  have hup : d y = d x + 1 := h _ he
  have hdown : d x = d y + 1 := h _ hopp
  omega

theorem Path.ne_nil (hp : Path s v es) (h : s ≠ v) : es ≠ [] := by
  cases hp with
  | nil => exact absurd rfl h
  | cons => exact List.cons_ne_nil _ _

theorem Path.length_of_tight (hp : Path s v es) (h : Tight d es) : d v = d s + es.length := by
  induction hp with
  | nil => rfl
  | cons hp ih => rw [h.head, ih h.of_cons, List.length_cons, Nat.add_assoc]

/-- The edges of a path along the levels are all on different levels. -/
theorem Path.level_le_last (hp : Path s v es) (h : Tight d es) : ∀ e ∈ es, d e.2 ≤ d v := by
  induction hp with
  | nil => nofun
  | cons hp ih =>
    have hlast := h.head
    intro e he
    rcases List.mem_cons.mp he with rfl | he
    · exact Nat.le_refl _
    · have := ih h.of_cons e he
      omega

theorem Path.nodup (hp : Path s v es) (h : Tight d es) : es.Nodup := by
  induction hp with
  | nil => exact List.nodup_nil
  | @cons u v es hp ih =>
    refine List.nodup_cons.mpr ⟨fun hmem => ?_, ih h.of_cons⟩
    have hle : d v ≤ d u := hp.level_le_last h.of_cons _ hmem
    have hlast := h.head
    omega

/-- A path goes up at most one level with every edge. -/
theorem Path.level_le (hp : Path s v es) (hd : Potential r d) (hpos : ∀ e ∈ es, 0 < r e.1 e.2) :
    d v ≤ d s + es.length := by
  induction hp with
  | nil => exact Nat.le_refl _
  | @cons u v es hp ih =>
    have hle := ih fun e he => hpos e (List.mem_cons_of_mem _ he)
    have hlast : d v ≤ d u + 1 := hd u v (hpos _ List.mem_cons_self)
    rw [List.length_cons]
    omega

/-- If it goes up as many levels as it has edges, it goes up with each. -/
theorem Path.tight_of_level (hp : Path s v es) (hd : Potential r d) (hpos : ∀ e ∈ es, 0 < r e.1 e.2)
    (h : d s + es.length ≤ d v) : Tight d es := by
  induction hp with
  | nil => nofun
  | @cons u v es hp ih =>
    have hrest : ∀ e ∈ es, 0 < r e.1 e.2 := fun e he => hpos e (List.mem_cons_of_mem _ he)
    have hlast : d v ≤ d u + 1 := hd u v (hpos _ List.mem_cons_self)
    have hle := hp.level_le hd hrest
    rw [List.length_cons] at h
    intro e he
    rcases List.mem_cons.mp he with rfl | he
    · change d v = d u + 1
      omega
    · exact ih hrest (by omega) e he

end

/-! ## Pushing -/

variable {V : Type} [DecidableEq V]

/-- Sends `δ` along an edge: less is left of it, and more of its opposite. -/
def push (δ : Int) (r : V → V → Int) (e : V × V) (x y : V) : Int :=
  r x y - (if (x, y) = e then δ else 0) + (if (y, x) = e then δ else 0)

def pushAll (δ : Int) (r : V → V → Int) (es : List (V × V)) : V → V → Int := es.foldl (push δ) r

section
variable {s v x y : V} {es : List (V × V)} {d : V → Nat} {r : V → V → Int} {δ : Int}

theorem pushAll_cons {e : V × V} : pushAll δ r (e :: es) = pushAll δ (push δ r e) es := rfl

theorem pushAll_apply (h : es.Nodup) : pushAll δ r es x y =
    r x y - (if (x, y) ∈ es then δ else 0) + (if (y, x) ∈ es then δ else 0) := by
  induction es generalizing r with
  | nil => simp [pushAll]
  | cons e es ih =>
    obtain ⟨hnot, hnodup⟩ := List.nodup_cons.mp h
    have hsplit : ∀ p : V × V, (if p ∈ e :: es then δ else 0) =
        (if p = e then δ else 0) + if p ∈ es then δ else 0 := by
      intro p
      by_cases hp : p = e
      · rw [hp, if_pos List.mem_cons_self, if_pos rfl, if_neg hnot, add_zero]
      · simp only [List.mem_cons, hp, false_or, if_false, zero_add]
    rw [pushAll_cons, ih hnodup, hsplit, hsplit, push]
    ring

theorem pushAll_on (hnodup : es.Nodup) (h : Tight d es) (he : (x, y) ∈ es) :
    pushAll δ r es x y = r x y - δ := by
  rw [pushAll_apply hnodup, if_pos he, if_neg (h.opposite he), add_zero]

theorem pushAll_le (hδ : 0 ≤ δ) (hnodup : es.Nodup) (hopp : (y, x) ∉ es) :
    pushAll δ r es x y ≤ r x y := by
  rw [pushAll_apply hnodup, if_neg hopp]
  split <;> omega

/-- Along the levels, pushing makes no edge that goes up. -/
theorem Potential.pushAll (hd : Potential r d) (hδ : 0 ≤ δ) (hnodup : es.Nodup) (h : Tight d es) :
    Potential (pushAll δ r es) d := by
  intro x y hpos
  by_cases hopp : (y, x) ∈ es
  · have hdown : d x = d y + 1 := h _ hopp
    omega
  · exact hd x y (lt_of_lt_of_le hpos (pushAll_le hδ hnodup hopp))

end

/-! ## What a flow leaves -/

variable [Fintype V]

/-- What a vertex sends, less what it gets. -/
def excess (cap r : V → V → Int) (v : V) : Int := ∑ u, (cap v u - r v u)

/-- `r` is left of the capacities `cap` by a flow from `s` to `t`. -/
structure Sends (cap : V → V → Int) (s t : V) (r : V → V → Int) : Prop where
  nonneg : ∀ x y, 0 ≤ r x y
  total : ∀ x y, r x y + r y x = cap x y + cap y x
  conserved : ∀ v, v ≠ s → v ≠ t → excess cap r v = 0

section
variable {cap r : V → V → Int} {s t v : V} {es : List (V × V)} {d : V → Nat} {δ : Int}

omit [DecidableEq V] in
theorem sends_start (hcap : ∀ x y, 0 ≤ cap x y) : Sends cap s t cap where
  nonneg := hcap
  total _ _ := rfl
  conserved v _ _ := by simp [excess]

theorem excess_push (e : V × V) : excess cap (push δ r e) v =
    excess cap r v + (if v = e.1 then δ else 0) - (if v = e.2 then δ else 0) := by
  obtain ⟨a, b⟩ := e
  have hsum : ∀ a b : V, ∑ u, (if (v, u) = (a, b) then δ else 0) = if v = a then δ else 0 := by
    intro a b
    by_cases hv : v = a
    · simp [hv]
    · simp [hv]
  have hopp : ∑ u, (if (u, v) = (a, b) then δ else 0) = if v = b then δ else 0 := by
    rw [← hsum b a]
    refine Finset.sum_congr rfl fun u _ => ?_
    simp only [Prod.mk.injEq, And.comm]
  rw [excess, excess, ← hsum a b, ← hopp, ← Finset.sum_add_distrib, ← Finset.sum_sub_distrib]
  refine Finset.sum_congr rfl fun u _ => ?_
  rw [push]
  ring

/-- Only the ends of a path send more or get more. -/
theorem Path.excess_pushAll (hp : Path s t es) : excess cap (pushAll δ r es) v =
    excess cap r v + (if v = s then δ else 0) - (if v = t then δ else 0) := by
  induction hp generalizing r with
  | nil =>
    rw [pushAll, List.foldl_nil]
    ring
  | @cons u w es hp ih =>
    rw [pushAll_cons, ih, excess_push]
    ring

/-- **Augmenting** along a path on which at least `δ` is left. -/
theorem Sends.pushAll (H : Sends cap s t r) (hp : Path s t es) (h : Tight d es) (hδ : 0 ≤ δ)
    (hle : ∀ e ∈ es, δ ≤ r e.1 e.2) : Sends cap s t (pushAll δ r es) where
  nonneg x y := by
    have hnodup := hp.nodup h
    have hr := H.nonneg x y
    by_cases he : (x, y) ∈ es
    · have hxy : δ ≤ r x y := hle _ he
      rw [pushAll_on hnodup h he]
      omega
    · rw [pushAll_apply hnodup, if_neg he]
      split <;> omega
  total x y := by
    have hnodup := hp.nodup h
    rw [pushAll_apply hnodup, pushAll_apply hnodup, ← H.total x y]
    ring
  conserved v hs ht := by
    rw [hp.excess_pushAll, H.conserved v hs ht, if_neg hs, if_neg ht]
    rfl

/-- The network with an arc between any two vertices. -/
def network (cap : V → V → Int) : Network V (V × V) where
  tail := Prod.fst
  head := Prod.snd
  capacity e := cap e.1 e.2

/-- The flow that leaves `r`: of two opposite arcs only one has flow. -/
def flowOf (cap r : V → V → Int) (e : V × V) : Int := max 0 (cap e.1 e.2 - r e.1 e.2)

omit [DecidableEq V] in
theorem Sends.opposite (H : Sends cap s t r) (x y : V) : cap y x - r y x = -(cap x y - r x y) := by
  have := H.total x y
  omega

theorem sum_tail (f : V × V → Int) (v : V) : ∑ e with e.1 = v, f e = ∑ u, f (v, u) := by
  rw [Finset.sum_filter, Fintype.sum_prod_type, Finset.sum_eq_single_of_mem v (Finset.mem_univ v)]
  · exact Finset.sum_congr rfl fun u _ => if_pos rfl
  · intro w _ hw
    exact Finset.sum_eq_zero fun u _ => if_neg hw

theorem sum_head (f : V × V → Int) (v : V) : ∑ e with e.2 = v, f e = ∑ u, f (u, v) := by
  rw [Finset.sum_filter, Fintype.sum_prod_type_right,
    Finset.sum_eq_single_of_mem v (Finset.mem_univ v)]
  · exact Finset.sum_congr rfl fun u _ => if_pos rfl
  · intro w _ hw
    exact Finset.sum_eq_zero fun u _ => if_neg hw

/-- What leaves a vertex less what comes in. -/
theorem Sends.excess_eq (H : Sends cap s t r) (v : V) : excess cap r v =
    ∑ e with e.1 = v, flowOf cap r e - ∑ e with e.2 = v, flowOf cap r e := by
  rw [sum_tail, sum_head, ← Finset.sum_sub_distrib, excess]
  refine Finset.sum_congr rfl fun u _ => ?_
  have := H.opposite v u
  dsimp only [flowOf]
  omega

theorem Sends.feasible (H : Sends cap s t r) (hcap : ∀ x y, 0 ≤ cap x y) :
    (network cap).Feasible s t (flowOf cap r) where
  nonneg e := le_max_left _ _
  le e := by
    have := H.nonneg e.1 e.2
    have := hcap e.1 e.2
    dsimp only [network, flowOf]
    omega
  conserved v hs ht := by
    have h := H.excess_eq v
    rw [H.conserved v hs ht] at h
    exact (sub_eq_zero.mp h.symm).symm

theorem Sends.value_eq (H : Sends cap s t r) :
    (network cap).value s (flowOf cap r) = excess cap r s := (H.excess_eq s).symm

/-- If nothing is left of the edges out of a set, the flow is maximal. -/
theorem Sends.maximal (H : Sends cap s t r) (hcap : ∀ x y, 0 ≤ cap x y) {S : Finset V} (hs : s ∈ S)
    (ht : t ∉ S) (hS : ∀ x ∈ S, ∀ y, 0 < r x y → y ∈ S) :
    (network cap).Maximal s t (flowOf cap r) := by
  have hzero : ∀ x y, x ∈ S → y ∉ S → r x y = 0 := fun x y hx hy =>
    le_antisymm (not_lt.mp fun hpos => hy (hS x hx y hpos)) (H.nonneg x y)
  refine (H.feasible hcap).maximal_of_cut hs ht (fun e htail hhead => ?_) fun e hhead htail => ?_
  · have := hcap e.1 e.2
    have := hzero e.1 e.2 htail hhead
    dsimp only [network, flowOf]
    omega
  · have := hcap e.2 e.1
    have := hzero e.2 e.1 hhead htail
    have := H.opposite e.2 e.1
    dsimp only [flowOf]
    omega

end

/-! ## Shortest paths -/

/-- The edges that are left and go up one level. -/
def levelEdges (r : V → V → Int) (d : V → Nat) : Finset (V × V) :=
  Finset.univ.filter fun e => 0 < r e.1 e.2 ∧ d e.2 = d e.1 + 1

/-- The arcs of the network. -/
def arcs (cap : V → V → Int) : Finset (V × V) := Finset.univ.filter fun e => 0 < cap e.1 e.2

/-- A push along a shortest path from `s` to `t`, as much as one of its edges has left. -/
structure Augments (s t : V) (d : V → Nat) (δ : Int) (es : List (V × V)) (r r' : V → V → Int) : Prop where
  path : Path s t es
  potential : Potential r d
  zero : d s = 0
  tight : Tight d es
  pos : 0 < δ
  le : ∀ e ∈ es, δ ≤ r e.1 e.2
  full : ∃ e ∈ es, r e.1 e.2 = δ
  eq : r' = pushAll δ r es

section
variable {cap r r' : V → V → Int} {s t : V} {es : List (V × V)} {d d' : V → Nat} {δ : Int}

theorem Augments.sends (A : Augments s t d δ es r r') (H : Sends cap s t r) : Sends cap s t r' :=
  A.eq ▸ H.pushAll A.path A.tight A.pos.le A.le

theorem Augments.excess (A : Augments s t d δ es r r') (hst : s ≠ t) :
    excess cap r' s = excess cap r s + δ := by
  rw [A.eq, A.path.excess_pushAll, if_pos rfl, if_neg hst, sub_zero]

/-- Of two opposite edges at most one goes up, and one of them is an arc. -/
theorem card_levelEdges_le (H : Sends cap s t r) : (levelEdges r d).card ≤ (arcs cap).card := by
  refine Finset.card_le_card_of_injOn (fun e => if 0 < cap e.1 e.2 then e else e.swap) ?_ ?_
  · intro e he
    obtain ⟨hpos, -⟩ := (Finset.mem_filter.mp he).2
    have htotal := H.total e.1 e.2
    have hnonneg := H.nonneg e.2 e.1
    refine Finset.mem_filter.mpr ⟨Finset.mem_univ _, ?_⟩
    dsimp only
    split
    · assumption
    · rw [Prod.fst_swap, Prod.snd_swap]
      omega
  · rintro ⟨a, b⟩ he ⟨a', b'⟩ he' heq
    obtain ⟨-, hup⟩ := (Finset.mem_filter.mp he).2
    obtain ⟨-, hup'⟩ := (Finset.mem_filter.mp he').2
    change d b = d a + 1 at hup
    change d b' = d a' + 1 at hup'
    dsimp only at heq
    split at heq <;> split at heq
    · exact heq
    · have hswap : (a, b) = (b', a') := heq
      obtain ⟨rfl, rfl⟩ := Prod.mk.inj hswap
      omega
    · have hswap : (b, a) = (a', b') := heq
      obtain ⟨rfl, rfl⟩ := Prod.mk.inj hswap
      omega
    · exact Prod.swap_injective heq

/-- A push along the levels of `d` takes an edge from those that go up. -/
theorem card_levelEdges_lt (hp : Path s t es) (hd : Tight d es) (hδ : 0 < δ)
    (hfull : ∃ e ∈ es, r e.1 e.2 = δ) :
    (levelEdges (pushAll δ r es) d).card < (levelEdges r d).card := by
  have hnodup := hp.nodup hd
  obtain ⟨e, he, hδe⟩ := hfull
  refine Finset.card_lt_card (Finset.ssubset_iff_of_subset ?_ |>.mpr ⟨e, ?_, ?_⟩)
  · rintro ⟨x, y⟩ hxy
    obtain ⟨hpos, hup⟩ := (Finset.mem_filter.mp hxy).2
    dsimp only at hpos hup
    have hopp : (y, x) ∉ es := by
      intro hopp
      have hdown : d x = d y + 1 := hd _ hopp
      omega
    exact Finset.mem_filter.mpr ⟨Finset.mem_univ _,
      lt_of_lt_of_le hpos (pushAll_le hδ.le hnodup hopp), hup⟩
  · exact Finset.mem_filter.mpr ⟨Finset.mem_univ _, by rw [hδe]; exact hδ, hd e he⟩
  · intro hmem
    obtain ⟨hpos, -⟩ := (Finset.mem_filter.mp hmem).2
    rw [pushAll_on hnodup hd he, hδe, sub_self] at hpos
    exact lt_irrefl _ hpos

/-- How many paths there can still be, for a potential under which the sink is below level `n`. -/
def roundsLeft (cap : V → V → Int) (n : Nat) (t : V) (r : V → V → Int) (d : V → Nat) : Nat :=
  (n - d t) * (arcs cap).card + (levelEdges r d).card

/-- **Shortest augmenting paths.** Either the sink is on the same level for the old potential, and an
edge that goes up is used up, or the sink has gone to a higher level. -/
theorem Augments.roundsLeft_lt (A : Augments s t d' δ es r r') (H : Sends cap s t r) {n : Nat}
    (hd : Potential r d) (hzero : d s = 0) (hn : d' t ≤ n) :
    ∃ d'', Potential r' d'' ∧ d'' s = 0 ∧ d'' t ≤ n ∧
      roundsLeft cap n t r' d'' < roundsLeft cap n t r d := by
  have hpos : ∀ e ∈ es, 0 < r e.1 e.2 := fun e he => lt_of_lt_of_le A.pos (A.le e he)
  have hle := A.path.level_le hd hpos
  have hlen := A.path.length_of_tight A.tight
  rw [hzero, Nat.zero_add] at hle
  rw [A.zero, Nat.zero_add] at hlen
  rcases Nat.eq_or_lt_of_le hle with heq | hlt
  · have htight : Tight d es := A.path.tight_of_level hd hpos (by omega)
    refine ⟨d, A.eq ▸ hd.pushAll A.pos.le (A.path.nodup htight) htight, hzero, by omega, ?_⟩
    have := card_levelEdges_lt A.path htight A.pos A.full
    rw [A.eq, roundsLeft, roundsLeft]
    omega
  · refine ⟨d', A.eq ▸ A.potential.pushAll A.pos.le (A.path.nodup A.tight) A.tight, A.zero, hn, ?_⟩
    have hdrop := card_levelEdges_lt A.path A.tight A.pos A.full
    have harcs := card_levelEdges_le H (d := d')
    have hlevels : n - d t = n - d' t + 1 + (d' t - d t - 1) := by omega
    rw [A.eq, roundsLeft, roundsLeft, hlevels, Nat.add_mul, Nat.add_mul]
    omega

end

end C2DN.Residual
