import Mathlib.Combinatorics.Hall.Basic
import C2DN.Lib.Flow

/-!
# Networks of three layers

In a layered network the arcs go from the source to left vertices, from left vertices to right ones
over arcs of capacity one, and from each right vertex to the sink over an arc of capacity one. A flow
whose value is the number of right vertices assigns a left vertex to each of them, within the
capacities of the left vertices. Such an assignment exists if and only if no set of left vertices has
too little capacity for the right vertices that depend on it.
-/

namespace C2DN

section
variable {L R : Type} [DecidableEq L] [Fintype L] [Fintype R]

/-! ## Assignments -/

/-- Every right vertex has an allowed left vertex, and no left vertex has too many. -/
structure Assigns (cap : L → Nat) (Allowed : L → R → Prop) (a : R → L) : Prop where
  allowed : ∀ r, Allowed (a r) r
  le : ∀ l, (Finset.univ.filter fun r => a r = l).card ≤ cap l

/-- The right vertices whose allowed left vertices are all in `X`. -/
def dependents (Allowed : L → R → Prop) [∀ l r, Decidable (Allowed l r)] (X : Finset L) : Finset R :=
  Finset.univ.filter fun r => ∀ l, Allowed l r → l ∈ X

/-- Every set of left vertices has capacity for its dependents. -/
def Coverable (cap : L → Nat) (Allowed : L → R → Prop) [∀ l r, Decidable (Allowed l r)] : Prop :=
  ∀ X : Finset L, (dependents Allowed X).card ≤ ∑ l ∈ X, cap l

variable {cap : L → Nat} {Allowed : L → R → Prop} [∀ l r, Decidable (Allowed l r)]

theorem Assigns.card_dependents_le {a : R → L} (H : Assigns cap Allowed a) (X : Finset L) :
    (dependents Allowed X).card ≤ ∑ l ∈ X, cap l := by
  calc (dependents Allowed X).card
      = ∑ l ∈ X, ((dependents Allowed X).filter fun r => a r = l).card :=
        Finset.card_eq_sum_card_fiberwise fun r hr =>
          (Finset.mem_filter.mp hr).2 (a r) (H.allowed r)
    _ ≤ ∑ l ∈ X, cap l := by
      refine Finset.sum_le_sum fun l _ => le_trans (Finset.card_le_card ?_) (H.le l)
      exact Finset.filter_subset_filter _ (Finset.subset_univ _)

/-- A right vertex whose left vertices have no capacity. -/
theorem not_coverable {X : Finset L} {r : R} (hr : ∀ l, Allowed l r → l ∈ X)
    (hX : ∀ l ∈ X, cap l = 0) : ¬ Coverable cap Allowed := by
  intro h
  have hpos : 0 < (dependents Allowed X).card :=
    Finset.card_pos.mpr ⟨r, Finset.mem_filter.mpr ⟨Finset.mem_univ r, hr⟩⟩
  have hle := h X
  rw [Finset.sum_eq_zero hX] at hle
  exact absurd hpos (Nat.not_lt.mpr hle)

/-- **Assignments.** The slots of the left vertices are distributed by Hall's theorem. -/
theorem exists_assigns_iff : (∃ a : R → L, Assigns cap Allowed a) ↔ Coverable cap Allowed := by
  refine ⟨fun ⟨a, H⟩ => H.card_dependents_le, fun hall => ?_⟩
  classical
  let slots (r : R) : Finset (Σ l, Fin (cap l)) :=
    (Finset.univ.filter fun l => Allowed l r).sigma fun _ => Finset.univ
  have hslots : ∀ S : Finset R, S.card ≤ (S.biUnion slots).card := by
    intro S
    let X : Finset L := Finset.univ.filter fun l => ∃ r ∈ S, Allowed l r
    have hS : S ⊆ dependents Allowed X := fun r hr =>
      Finset.mem_filter.mpr ⟨Finset.mem_univ r, fun l hl =>
        Finset.mem_filter.mpr ⟨Finset.mem_univ l, r, hr, hl⟩⟩
    have hX : X.sigma (fun l => (Finset.univ : Finset (Fin (cap l)))) ⊆ S.biUnion slots := by
      rintro ⟨l, i⟩ hl
      obtain ⟨r, hr, hlr⟩ := (Finset.mem_filter.mp (Finset.mem_sigma.mp hl).1).2
      exact Finset.mem_biUnion.mpr ⟨r, hr, Finset.mem_sigma.mpr
        ⟨Finset.mem_filter.mpr ⟨Finset.mem_univ l, hlr⟩, Finset.mem_univ i⟩⟩
    calc S.card ≤ (dependents Allowed X).card := Finset.card_le_card hS
      _ ≤ ∑ l ∈ X, cap l := hall X
      _ = (X.sigma fun l => (Finset.univ : Finset (Fin (cap l)))).card := by simp
      _ ≤ (S.biUnion slots).card := Finset.card_le_card hX
  obtain ⟨f, hinj, hf⟩ := (Finset.all_card_le_biUnion_card_iff_exists_injective slots).mp hslots
  refine ⟨fun r => (f r).1, fun r => ?_, fun l => ?_⟩
  · exact (Finset.mem_filter.mp (Finset.mem_sigma.mp (hf r)).1).2
  · calc (Finset.univ.filter fun r => (f r).1 = l).card
        ≤ (({l} : Finset L).sigma fun l => (Finset.univ : Finset (Fin (cap l)))).card := by
          refine Finset.card_le_card_of_injOn f (fun r hr => ?_) hinj.injOn
          simpa using hr
      _ = cap l := by simp

end

/-! ## Sums over arcs -/

section
variable {V ι L : Type} [DecidableEq V] [Fintype L]

/-- A sum over arcs, split by the vertices at one of their ends. -/
theorem sum_split {s : Finset ι} {k : ι → V} {e : L → V} {f : ι → Int}
    (he : Function.Injective e) (h : ∀ i ∈ s, f i ≠ 0 → ∃ l, k i = e l) :
    ∑ l, ∑ i ∈ s with k i = e l, f i = ∑ i ∈ s, f i := by
  simp only [Finset.sum_filter]
  rw [Finset.sum_comm]
  refine Finset.sum_congr rfl fun i hi => ?_
  by_cases hf : f i = 0
  · simp [hf]
  · obtain ⟨l, hl⟩ := h i hi hf
    rw [Finset.sum_eq_single l (fun l' _ hne => if_neg fun heq => hne (he (heq.symm.trans hl)))
      (fun hl' => absurd (Finset.mem_univ l) hl'), if_pos hl]

omit [DecidableEq V] [Fintype L] in
/-- A sum of which at most one term is not zero. -/
theorem sum_le_of_unique {s : Finset ι} {f : ι → Int} {c : Int} (hc : 0 ≤ c)
    (hle : ∀ i ∈ s, f i ≤ c) (h : ∀ i ∈ s, ∀ j ∈ s, f i ≠ 0 → f j ≠ 0 → i = j) :
    ∑ i ∈ s, f i ≤ c := by
  by_cases hz : ∃ i ∈ s, f i ≠ 0
  · obtain ⟨i, hi, hne⟩ := hz
    rw [Finset.sum_eq_single_of_mem i hi fun j hj hji => by
      by_contra hj'
      exact hji (h j hj i hi hj' hne)]
    exact hle i hi
  · rw [Finset.sum_eq_zero fun i hi => by
      by_contra hne
      exact hz ⟨i, hi, hne⟩]
    exact hc

end

/-! ## Layers -/

section
variable {V ι L R : Type}

/-- The arcs of a network of three layers. Every arc with capacity is one of them, and none of them
is there twice. -/
structure Layered (N : Network V ι) (source sink : V) (left : L → V) (right : R → V)
    (cap : L → Nat) (Allowed : L → R → Prop) : Prop where
  left_inj : Function.Injective left
  right_inj : Function.Injective right
  left_ne_right : ∀ l r, left l ≠ right r
  left_ne : ∀ l, left l ≠ source ∧ left l ≠ sink
  right_ne : ∀ r, right r ≠ source ∧ right r ≠ sink
  ends : source ≠ sink
  nonneg : ∀ i, 0 ≤ N.capacity i
  arc : ∀ i, 0 < N.capacity i →
    (∃ l, N.tail i = source ∧ N.head i = left l ∧ N.capacity i = cap l) ∨
    (∃ l r, Allowed l r ∧ N.tail i = left l ∧ N.head i = right r ∧ N.capacity i = 1) ∨
    ∃ r, N.tail i = right r ∧ N.head i = sink ∧ N.capacity i = 1
  unique : ∀ i j, 0 < N.capacity i → 0 < N.capacity j → N.tail i = N.tail j →
    N.head i = N.head j → i = j
  first : ∀ l, 0 < cap l → ∃ i, N.tail i = source ∧ N.head i = left l ∧ N.capacity i = cap l
  second : ∀ l r, Allowed l r → ∃ i, N.tail i = left l ∧ N.head i = right r ∧ N.capacity i = 1
  third : ∀ r, ∃ i, N.tail i = right r ∧ N.head i = sink ∧ N.capacity i = 1

namespace Layered
variable {N : Network V ι} {source sink : V} {left : L → V} {right : R → V} {cap : L → Nat}
  {Allowed : L → R → Prop}

section
variable (H : Layered N source sink left right cap Allowed)
include H

theorem of_tail_source {i : ι} (hpos : 0 < N.capacity i) (hi : N.tail i = source) :
    ∃ l, N.head i = left l ∧ N.capacity i = cap l := by
  rcases H.arc i hpos with ⟨l, -, hl, hc⟩ | ⟨l, r, -, hl, -, -⟩ | ⟨r, hr, -, -⟩
  · exact ⟨l, hl, hc⟩
  · exact absurd (hl.symm.trans hi) (H.left_ne l).1
  · exact absurd (hr.symm.trans hi) (H.right_ne r).1

theorem of_head_left {i : ι} {l : L} (hpos : 0 < N.capacity i) (hi : N.head i = left l) :
    N.tail i = source ∧ N.capacity i = cap l := by
  rcases H.arc i hpos with ⟨l', ht, hl, hc⟩ | ⟨l', r, -, -, hr, -⟩ | ⟨r, -, hs, -⟩
  · obtain rfl := H.left_inj (hl.symm.trans hi)
    exact ⟨ht, hc⟩
  · exact absurd (hi.symm.trans hr) (H.left_ne_right l r)
  · exact absurd (hi.symm.trans hs) (H.left_ne l).2

theorem of_tail_left {i : ι} {l : L} (hpos : 0 < N.capacity i) (hi : N.tail i = left l) :
    ∃ r, Allowed l r ∧ N.head i = right r := by
  rcases H.arc i hpos with ⟨l', ht, -, -⟩ | ⟨l', r, ha, hl, hr, -⟩ | ⟨r, hr, -, -⟩
  · exact absurd (hi.symm.trans ht) (H.left_ne l).1
  · obtain rfl := H.left_inj (hl.symm.trans hi)
    exact ⟨r, ha, hr⟩
  · exact absurd (hi.symm.trans hr) (H.left_ne_right l r)

theorem of_head_right {i : ι} {r : R} (hpos : 0 < N.capacity i) (hi : N.head i = right r) :
    ∃ l, Allowed l r ∧ N.tail i = left l := by
  rcases H.arc i hpos with ⟨l, -, hl, -⟩ | ⟨l, r', ha, hl, hr, -⟩ | ⟨r', -, hs, -⟩
  · exact absurd (hl.symm.trans hi) (H.left_ne_right l r)
  · obtain rfl := H.right_inj (hr.symm.trans hi)
    exact ⟨l, ha, hl⟩
  · exact absurd (hi.symm.trans hs) (H.right_ne r).2

theorem of_tail_right {i : ι} {r : R} (hpos : 0 < N.capacity i) (hi : N.tail i = right r) :
    N.head i = sink ∧ N.capacity i = 1 := by
  rcases H.arc i hpos with ⟨l, ht, -, -⟩ | ⟨l, r', -, hl, -, -⟩ | ⟨r', -, hs, hc⟩
  · exact absurd (hi.symm.trans ht) (H.right_ne r).1
  · exact absurd (hl.symm.trans hi) (H.left_ne_right l r)
  · exact ⟨hs, hc⟩

theorem head_ne_source {i : ι} (hpos : 0 < N.capacity i) : N.head i ≠ source := by
  rcases H.arc i hpos with ⟨l, -, hl, -⟩ | ⟨l, r, -, -, hr, -⟩ | ⟨r, -, hs, -⟩
  · exact hl ▸ (H.left_ne l).1
  · exact hr ▸ (H.right_ne r).1
  · exact hs ▸ H.ends.symm

/-! ## The value of a flow -/

variable [DecidableEq V] [Fintype ι] {flow : ι → Int} (F : N.Feasible source sink flow)
include F

/-- What a left vertex passes on. -/
theorem sum_left [Fintype R] (l : L) : ∑ i with N.tail i = source ∧ N.head i = left l, flow i =
    ∑ r, ∑ i with N.head i = right r ∧ N.tail i = left l, flow i := by
  calc ∑ i with N.tail i = source ∧ N.head i = left l, flow i
      = ∑ i with N.head i = left l, flow i := by
        refine Finset.sum_subset (fun i hi => ?_) fun i hi hi' => ?_
        · exact Finset.mem_filter.mpr ⟨Finset.mem_univ i, (Finset.mem_filter.mp hi).2.2⟩
        · by_contra hne
          have hl := (Finset.mem_filter.mp hi).2
          exact hi' (Finset.mem_filter.mpr ⟨Finset.mem_univ i,
            (H.of_head_left (F.capacity_pos hne) hl).1, hl⟩)
    _ = ∑ i with N.tail i = left l, flow i := F.conserved _ (H.left_ne l).1 (H.left_ne l).2
    _ = ∑ r, ∑ i with N.head i = right r ∧ N.tail i = left l, flow i := by
        rw [← sum_split (k := N.head) H.right_inj fun i hi hne => ?_]
        · refine Finset.sum_congr rfl fun r _ => ?_
          rw [Finset.filter_filter]
          exact Finset.sum_congr (Finset.filter_congr fun i _ => and_comm) fun _ _ => rfl
        · obtain ⟨r, -, hr⟩ := H.of_tail_left (F.capacity_pos hne) (Finset.mem_filter.mp hi).2
          exact ⟨r, hr⟩

/-- The value is what comes in at the right vertices. -/
theorem value_eq [Fintype L] [Fintype R] : N.value source flow = ∑ r, ∑ i with N.head i = right r, flow i := by
  have hback : ∑ i with N.head i = source, flow i = 0 := Finset.sum_eq_zero fun i hi => by
    by_contra hne
    exact H.head_ne_source (F.capacity_pos hne) (Finset.mem_filter.mp hi).2
  have hout : ∑ i with N.tail i = source, flow i =
      ∑ l, ∑ i with N.tail i = source ∧ N.head i = left l, flow i := by
    rw [← sum_split (k := N.head) H.left_inj fun i hi hne => ?_]
    · exact Finset.sum_congr rfl fun l _ => by rw [Finset.filter_filter]
    · obtain ⟨l, hl, -⟩ := H.of_tail_source (F.capacity_pos hne) (Finset.mem_filter.mp hi).2
      exact ⟨l, hl⟩
  rw [Network.value, hback, Int.sub_zero, hout, Finset.sum_congr rfl fun l _ => H.sum_left F l,
    Finset.sum_comm]
  refine Finset.sum_congr rfl fun r _ => ?_
  rw [← sum_split (k := N.tail) H.left_inj fun i hi hne => ?_]
  · exact Finset.sum_congr rfl fun l _ => by rw [Finset.filter_filter]
  · obtain ⟨l, -, hl⟩ := H.of_head_right (F.capacity_pos hne) (Finset.mem_filter.mp hi).2
    exact ⟨l, hl⟩

theorem sum_right_le (r : R) : ∑ i with N.head i = right r, flow i ≤ 1 := by
  rw [F.conserved _ (H.right_ne r).1 (H.right_ne r).2]
  have hcap : ∀ i ∈ Finset.univ.filter (fun i => N.tail i = right r), flow i ≠ 0 →
      N.head i = sink ∧ N.capacity i = 1 := fun i hi hne =>
    H.of_tail_right (F.capacity_pos hne) (Finset.mem_filter.mp hi).2
  refine sum_le_of_unique Int.one_nonneg (fun i hi => ?_) fun i hi j hj hi0 hj0 => ?_
  · by_cases hne : flow i = 0
    · rw [hne]
      exact Int.one_nonneg
    · exact (F.le i).trans_eq (hcap i hi hne).2
  · exact H.unique i j (F.capacity_pos hi0) (F.capacity_pos hj0)
      ((Finset.mem_filter.mp hi).2.trans (Finset.mem_filter.mp hj).2.symm)
      ((hcap i hi hi0).1.trans (hcap j hj hj0).1.symm)

theorem value_le [Fintype L] [Fintype R] : N.value source flow ≤ Fintype.card R := by
  rw [H.value_eq F]
  calc ∑ r, ∑ i with N.head i = right r, flow i ≤ ∑ _r : R, (1 : Int) :=
        Finset.sum_le_sum fun r _ => H.sum_right_le F r
    _ = Fintype.card R := by simp

/-- Flow reaches a right vertex over one arc only. -/
theorem eq_of_head_right {i j : ι} {r : R} (hi : N.head i = right r) (hj : N.head j = right r)
    (hi0 : 0 < flow i) (hj0 : 0 < flow j) : i = j := by
  classical
  by_contra hne
  have hpair : ∑ k ∈ {i, j}, flow k ≤ ∑ k with N.head k = right r, flow k := by
    refine Finset.sum_le_sum_of_subset_of_nonneg (fun k hk => ?_) fun k _ _ => F.nonneg k
    rcases Finset.mem_insert.mp hk with rfl | hk
    · exact Finset.mem_filter.mpr ⟨Finset.mem_univ _, hi⟩
    · rw [Finset.mem_singleton.mp hk]
      exact Finset.mem_filter.mpr ⟨Finset.mem_univ _, hj⟩
  rw [Finset.sum_pair hne] at hpair
  have := H.sum_right_le F r
  omega

/-- The flow into a left vertex keeps to its capacity. -/
theorem sum_left_le (l : L) :
    ∑ i with N.tail i = source ∧ N.head i = left l, flow i ≤ cap l := by
  have hcap : ∀ i ∈ Finset.univ.filter (fun i => N.tail i = source ∧ N.head i = left l),
      flow i ≠ 0 → N.capacity i = cap l := fun i hi hne =>
    (H.of_head_left (F.capacity_pos hne) (Finset.mem_filter.mp hi).2.2).2
  refine sum_le_of_unique (Int.natCast_nonneg _) (fun i hi => ?_) fun i hi j hj hi0 hj0 => ?_
  · by_cases hne : flow i = 0
    · rw [hne]
      exact Int.natCast_nonneg _
    · exact (F.le i).trans_eq (hcap i hi hne)
  · obtain ⟨-, hti, hhi⟩ := Finset.mem_filter.mp hi
    obtain ⟨-, htj, hhj⟩ := Finset.mem_filter.mp hj
    exact H.unique i j (F.capacity_pos hi0) (F.capacity_pos hj0) (hti.trans htj.symm)
      (hhi.trans hhj.symm)

variable [DecidableEq L] [Fintype L] [Fintype R]

/-- **Reading a flow.** A flow of the value of all right vertices comes to each of them over one arc,
and the left ends of these arcs are an assignment. -/
theorem exists_assigns (hval : N.value source flow = Fintype.card R) :
    ∃ a : R → L, Assigns cap Allowed a ∧ ∀ r, ∃ i, N.tail i = left (a r) ∧ N.head i = right r ∧
      0 < flow i ∧ ∀ j, N.head j = right r → 0 < flow j → j = i := by
  have hone : ∀ r, ∑ i with N.head i = right r, flow i = 1 := by
    rw [H.value_eq F] at hval
    have hsum : ∑ r, ∑ i with N.head i = right r, flow i = ∑ _r : R, (1 : Int) := by
      rw [hval]
      simp
    exact fun r => (Finset.sum_eq_sum_iff_of_le fun r _ => H.sum_right_le F r).mp hsum r
      (Finset.mem_univ r)
  have harc : ∀ r, ∃ l i, N.tail i = left l ∧ N.head i = right r ∧ Allowed l r ∧ 0 < flow i := by
    intro r
    obtain ⟨i, hi, hne⟩ := Finset.exists_ne_zero_of_sum_ne_zero
      (by rw [hone r]; decide : ∑ i with N.head i = right r, flow i ≠ 0)
    have hr := (Finset.mem_filter.mp hi).2
    obtain ⟨l, ha, hl⟩ := H.of_head_right (F.capacity_pos hne) hr
    exact ⟨l, i, hl, hr, ha, lt_of_le_of_ne (F.nonneg i) hne.symm⟩
  choose a ia htail hhead hallowed hpos using harc
  refine ⟨a, ⟨hallowed, fun l => ?_⟩, fun r => ⟨ia r, htail r, hhead r, hpos r, fun j hj hj0 =>
    H.eq_of_head_right F hj (hhead r) hj0 (hpos r)⟩⟩
  -- every right vertex of `l` takes one unit of the flow through `l`
  have hload : ((Finset.univ.filter fun r => a r = l).card : Int) ≤
      ∑ r, ∑ i with N.head i = right r ∧ N.tail i = left l, flow i := by
    rw [Finset.card_eq_sum_ones, Finset.sum_filter]
    push_cast
    refine Finset.sum_le_sum fun r _ => ?_
    split
    · next hr =>
      subst hr
      exact le_trans (hpos r) (Finset.single_le_sum (fun j _ => F.nonneg j)
        (Finset.mem_filter.mpr ⟨Finset.mem_univ (ia r), hhead r, htail r⟩))
    · exact Finset.sum_nonneg fun j _ => F.nonneg j
  rw [← H.sum_left F l] at hload
  exact Int.ofNat_le.mp (hload.trans (H.sum_left_le F l))

end

/-! ## The flow of an assignment -/

section
variable [DecidableEq V] [Fintype ι] [DecidableEq ι] [Fintype R]

/-- How many of the arcs `g r` are `i`. -/
def uses (g : R → ι) (i : ι) : Int := (Finset.univ.filter fun r => g r = i).card

omit [Fintype ι] in
theorem uses_eq_zero {g : R → ι} {i : ι} (h : ∀ r, g r ≠ i) : uses g i = 0 := by
  rw [uses, Finset.filter_false_of_mem fun r _ => h r]
  rfl

omit [Fintype ι] in
theorem uses_le_one {g : R → ι} (h : Function.Injective g) {i : ι} : uses g i ≤ 1 := by
  refine Int.ofNat_le.mpr (Finset.card_le_one.mpr fun r hr r' hr' => h ?_)
  exact (Finset.mem_filter.mp hr).2.trans (Finset.mem_filter.mp hr').2.symm

theorem sum_uses {g : R → ι} {k : ι → V} {v : V} :
    ∑ i with k i = v, uses g i = (Finset.univ.filter fun r => k (g r) = v).card := by
  unfold uses
  rw [Finset.card_eq_sum_card_fiberwise (f := g) (t := Finset.univ.filter fun i => k i = v)
    fun r hr => Finset.mem_filter.mpr ⟨Finset.mem_univ _, (Finset.mem_filter.mp hr).2⟩]
  push_cast
  refine Finset.sum_congr rfl fun i hi => ?_
  rw [Finset.filter_filter]
  refine congrArg (fun s : Finset R => (s.card : Int)) (Finset.filter_congr fun r _ => ?_)
  constructor
  · rintro rfl
    exact ⟨(Finset.mem_filter.mp hi).2, rfl⟩
  · exact fun h => h.2

/-- The arcs of the paths of an assignment. -/
structure Paths (N : Network V ι) (source sink : V) (left : L → V) (right : R → V) (a : R → L)
    (x y z : R → ι) : Prop where
  x_tail : ∀ r, N.tail (x r) = source
  x_head : ∀ r, N.head (x r) = left (a r)
  y_tail : ∀ r, N.tail (y r) = left (a r)
  y_head : ∀ r, N.head (y r) = right r
  z_tail : ∀ r, N.tail (z r) = right r
  z_head : ∀ r, N.head (z r) = sink
  pos : ∀ r, 0 < N.capacity (x r) ∧ 0 < N.capacity (y r) ∧ 0 < N.capacity (z r)

section
variable {a : R → L} {x y z : R → ι} (P : Paths N source sink left right a x y z)
include P

theorem Paths.sum_head (v : V) : ∑ i with N.head i = v, (uses x i + uses y i + uses z i) =
    ((Finset.univ.filter fun r => left (a r) = v).card : Int) +
      (Finset.univ.filter fun r => right r = v).card +
      (Finset.univ.filter fun _ : R => sink = v).card := by
  rw [Finset.sum_add_distrib, Finset.sum_add_distrib, sum_uses, sum_uses, sum_uses]
  simp only [P.x_head, P.y_head, P.z_head]

theorem Paths.sum_tail (v : V) : ∑ i with N.tail i = v, (uses x i + uses y i + uses z i) =
    ((Finset.univ.filter fun _ : R => source = v).card : Int) +
      (Finset.univ.filter fun r => left (a r) = v).card +
      (Finset.univ.filter fun r => right r = v).card := by
  rw [Finset.sum_add_distrib, Finset.sum_add_distrib, sum_uses, sum_uses, sum_uses]
  simp only [P.x_tail, P.y_tail, P.z_tail]

omit [DecidableEq V] [Fintype ι] in
/-- An arc is used by the paths of one kind only, which its capacity can carry. -/
theorem Paths.uses_le [DecidableEq L] (H : Layered N source sink left right cap Allowed)
    (A : Assigns cap Allowed a) (i : ι) : uses x i + uses y i + uses z i ≤ N.capacity i := by
  have hy : Function.Injective y := fun r r' h => H.right_inj (by rw [← P.y_head r, h, P.y_head])
  have hz : Function.Injective z := fun r r' h => H.right_inj (by rw [← P.z_tail r, h, P.z_tail])
  rcases (H.nonneg i).eq_or_lt with h0 | hpos
  · rw [uses_eq_zero fun r hr => ?_, uses_eq_zero fun r hr => ?_, uses_eq_zero fun r hr => ?_, ← h0]
    · rfl
    all_goals subst hr
    · exact absurd h0 (P.pos r).2.2.ne
    · exact absurd h0 (P.pos r).2.1.ne
    · exact absurd h0 (P.pos r).1.ne
  · rcases H.arc i hpos with ⟨l, ht, hl, hc⟩ | ⟨l, r, -, ht, -, hc⟩ | ⟨r, ht, -, hc⟩
    · rw [uses_eq_zero (g := y) fun r hr => ?_, uses_eq_zero (g := z) fun r hr => ?_, hc,
        Int.add_zero, Int.add_zero]
      · refine Int.ofNat_le.mpr (le_trans (Finset.card_le_card fun r hr => ?_) (A.le l))
        have hr := (Finset.mem_filter.mp hr).2
        exact Finset.mem_filter.mpr ⟨Finset.mem_univ r, H.left_inj (by rw [← P.x_head r, hr, hl])⟩
      · exact (H.right_ne r).1 (by rw [← P.z_tail r, hr, ht])
      · exact (H.left_ne (a r)).1 (by rw [← P.y_tail r, hr, ht])
    · rw [uses_eq_zero (g := x) fun r' hr' => ?_, uses_eq_zero (g := z) fun r' hr' => ?_, hc,
        Int.zero_add, Int.add_zero]
      · exact uses_le_one hy
      · exact H.left_ne_right l r' (by rw [← P.z_tail r', hr', ht])
      · exact (H.left_ne l).1 (by rw [← ht, ← hr', P.x_tail r'])
    · rw [uses_eq_zero (g := x) fun r' hr' => ?_, uses_eq_zero (g := y) fun r' hr' => ?_, hc,
        Int.zero_add, Int.zero_add]
      · exact uses_le_one hz
      · exact H.left_ne_right (a r') r (by rw [← P.y_tail r', hr', ht])
      · exact (H.right_ne r).1 (by rw [← ht, ← hr', P.x_tail r'])

/-- **Writing a flow.** An assignment sends one unit over each of its paths. -/
theorem Paths.feasible [DecidableEq L] (H : Layered N source sink left right cap Allowed)
    (A : Assigns cap Allowed a) :
    N.Feasible source sink fun i => uses x i + uses y i + uses z i := by
  refine ⟨fun i => ?_, P.uses_le H A, fun v hs ht => ?_⟩
  · exact Int.add_nonneg (Int.add_nonneg (Int.natCast_nonneg _) (Int.natCast_nonneg _))
      (Int.natCast_nonneg _)
  · rw [P.sum_head, P.sum_tail, Finset.filter_false_of_mem fun _ _ => ht.symm,
      Finset.filter_false_of_mem fun _ _ => hs.symm, Finset.card_empty]
    omega

theorem Paths.value (H : Layered N source sink left right cap Allowed) :
    N.value source (fun i => uses x i + uses y i + uses z i) = Fintype.card R := by
  rw [Network.value, P.sum_head, P.sum_tail,
    Finset.filter_false_of_mem fun r _ => (H.left_ne (a r)).1,
    Finset.filter_false_of_mem fun r _ => (H.right_ne r).1,
    Finset.filter_false_of_mem fun _ _ => H.ends.symm, Finset.filter_true_of_mem fun _ _ => rfl]
  simp

end

omit [DecidableEq V] [Fintype ι] [DecidableEq ι] in
theorem exists_paths [DecidableEq L] (H : Layered N source sink left right cap Allowed) {a : R → L}
    (A : Assigns cap Allowed a) : ∃ x y z : R → ι, Paths N source sink left right a x y z := by
  have hcap : ∀ r, 0 < cap (a r) := fun r => lt_of_lt_of_le
    (Finset.card_pos.mpr ⟨r, by simp⟩) (A.le (a r))
  choose x hxt hxh hxc using fun r => H.first (a r) (hcap r)
  choose y hyt hyh hyc using fun r => H.second (a r) r (A.allowed r)
  choose z hzt hzh hzc using H.third
  refine ⟨x, y, z, hxt, hxh, hyt, hyh, hzt, hzh, fun r => ⟨?_, ?_, ?_⟩⟩
  · rw [hxc]
    exact Int.natCast_pos.mpr (hcap r)
  · rw [hyc]; decide
  · rw [hzc]; decide

theorem exists_flow [DecidableEq L] (H : Layered N source sink left right cap Allowed) {a : R → L}
    (A : Assigns cap Allowed a) :
    ∃ flow, N.Feasible source sink flow ∧ N.value source flow = Fintype.card R := by
  obtain ⟨x, y, z, P⟩ := H.exists_paths A
  exact ⟨_, P.feasible H A, P.value H⟩

/-- The flow of an assignment: an arc has a unit for every path that it is on. -/
def pathFlow (N : Network V ι) (source sink : V) (left : L → V) (right : R → V) (a : R → L) (i : ι) : Int :=
  (Finset.univ.filter fun r => 0 < N.capacity i ∧ (N.tail i = source ∧ N.head i = left (a r) ∨
    N.tail i = left (a r) ∧ N.head i = right r ∨ N.tail i = right r ∧ N.head i = sink)).card

omit [Fintype ι] in
theorem Paths.pathFlow_eq {a : R → L} {x y z : R → ι} (P : Paths N source sink left right a x y z)
    (H : Layered N source sink left right cap Allowed) (i : ι) :
    pathFlow N source sink left right a i = uses x i + uses y i + uses z i := by
  classical
  have hpath : ∀ r, 0 < N.capacity i ∧ (N.tail i = source ∧ N.head i = left (a r) ∨
      N.tail i = left (a r) ∧ N.head i = right r ∨ N.tail i = right r ∧ N.head i = sink) ↔
      (x r = i ∨ y r = i) ∨ z r = i := by
    intro r
    obtain ⟨hx, hy, hz⟩ := P.pos r
    constructor
    · rintro ⟨hi, ⟨ht, hh⟩ | ⟨ht, hh⟩ | ⟨ht, hh⟩⟩
      · exact .inl (.inl (H.unique _ _ hx hi ((P.x_tail r).trans ht.symm) ((P.x_head r).trans hh.symm)))
      · exact .inl (.inr (H.unique _ _ hy hi ((P.y_tail r).trans ht.symm) ((P.y_head r).trans hh.symm)))
      · exact .inr (H.unique _ _ hz hi ((P.z_tail r).trans ht.symm) ((P.z_head r).trans hh.symm))
    · rintro ((rfl | rfl) | rfl)
      · exact ⟨hx, .inl ⟨P.x_tail r, P.x_head r⟩⟩
      · exact ⟨hy, .inr (.inl ⟨P.y_tail r, P.y_head r⟩)⟩
      · exact ⟨hz, .inr (.inr ⟨P.z_tail r, P.z_head r⟩)⟩
  -- the three arcs of a path differ in their tails
  have hxy : Disjoint (Finset.univ.filter fun r => x r = i) (Finset.univ.filter fun r => y r = i) := by
    refine Finset.disjoint_filter.mpr fun r _ hx hy => (H.left_ne (a r)).1 ?_
    rw [← P.y_tail r, hy, ← hx, P.x_tail r]
  have hxyz : Disjoint (Finset.univ.filter fun r => x r = i ∨ y r = i)
      (Finset.univ.filter fun r => z r = i) := by
    refine Finset.disjoint_filter.mpr fun r _ hxy hz => ?_
    obtain hx | hy := hxy
    · refine (H.right_ne r).1 ?_
      rw [← P.z_tail r, hz, ← hx, P.x_tail r]
    · refine H.left_ne_right (a r) r ?_
      rw [← P.z_tail r, hz, ← hy, P.y_tail r]
  rw [pathFlow, Finset.filter_congr fun r _ => hpath r, Finset.filter_or, Finset.card_union_of_disjoint hxyz,
    Finset.filter_or, Finset.card_union_of_disjoint hxy]
  push_cast
  rfl

theorem feasible_pathFlow [DecidableEq L] (H : Layered N source sink left right cap Allowed) {a : R → L}
    (A : Assigns cap Allowed a) : N.Feasible source sink (pathFlow N source sink left right a) ∧
      N.value source (pathFlow N source sink left right a) = Fintype.card R := by
  obtain ⟨x, y, z, P⟩ := H.exists_paths A
  rw [funext (P.pathFlow_eq H)]
  exact ⟨P.feasible H A, P.value H⟩

/-- **The maximal flow.** It has the value of all right vertices if and only if every set of left
vertices has capacity for its dependents. -/
theorem value_eq_card_iff [DecidableEq L] [Fintype L] [∀ l r, Decidable (Allowed l r)]
    (H : Layered N source sink left right cap Allowed) {flow : ι → Int}
    (F : N.Maximal source sink flow) :
    N.value source flow = Fintype.card R ↔ Coverable cap Allowed := by
  rw [← exists_assigns_iff]
  constructor
  · intro hval
    obtain ⟨a, A, -⟩ := H.exists_assigns F.toFeasible hval
    exact ⟨a, A⟩
  · rintro ⟨a, A⟩
    obtain ⟨flow', F', hval⟩ := H.exists_flow A
    exact le_antisymm (H.value_le F.toFeasible) (hval ▸ F.max flow' F')

end

end Layered

end

end C2DN
