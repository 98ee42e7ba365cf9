import Mathlib.Algebra.BigOperators.Fin
import Mathlib.Algebra.Order.BigOperators.Group.Finset
import Mathlib.Algebra.Order.Ring.Int
import Mathlib.Data.Int.Interval
import Mathlib.Order.Interval.Finset.Basic
import Mathlib.Data.Pi.Interval

/-!
# Flows in networks

A network is a finite type of arcs with capacities; parallel arcs are allowed. A flow is feasible if
it keeps to the capacities and is conserved at all vertices but the source and the sink. It is
maximal if no feasible flow has a larger value.
-/

namespace C2DN

/-- A network with vertices `V` and arcs `ι`. -/
structure Network (V ι : Type) where
  tail : ι → V
  head : ι → V
  capacity : ι → Int

namespace Network
variable {V ι : Type} [DecidableEq V] [Fintype ι]

/-- A flow from `source` to `sink` that the network can carry. -/
structure Feasible (N : Network V ι) (source sink : V) (flow : ι → Int) : Prop where
  nonneg : ∀ i, 0 ≤ flow i
  le : ∀ i, flow i ≤ N.capacity i
  conserved : ∀ v, v ≠ source → v ≠ sink →
    ∑ i with N.head i = v, flow i = ∑ i with N.tail i = v, flow i

/-- What leaves a vertex has come in. -/
theorem Feasible.exists_in {N : Network V ι} {source sink : V} {flow : ι → Int}
    (H : N.Feasible source sink flow) {i : ι} (hsource : N.tail i ≠ source)
    (hsink : N.tail i ≠ sink) (hpos : 0 < flow i) : ∃ j, N.head j = N.tail i ∧ 0 < flow j := by
  have hout : flow i ≤ ∑ j with N.tail j = N.tail i, flow j :=
    Finset.single_le_sum (fun j _ => H.nonneg j) (Finset.mem_filter.mpr ⟨Finset.mem_univ i, rfl⟩)
  rw [← H.conserved _ hsource hsink] at hout
  obtain ⟨j, hj, hne⟩ := Finset.exists_ne_zero_of_sum_ne_zero (by omega :
    ∑ j with N.head j = N.tail i, flow j ≠ 0)
  exact ⟨j, (Finset.mem_filter.mp hj).2, lt_of_le_of_ne (H.nonneg j) hne.symm⟩

/-- An arc with flow has capacity. -/
theorem Feasible.capacity_pos {N : Network V ι} {source sink : V} {flow : ι → Int}
    (H : N.Feasible source sink flow) {i : ι} (hi : flow i ≠ 0) : 0 < N.capacity i :=
  lt_of_lt_of_le (lt_of_le_of_ne (H.nonneg i) hi.symm) (H.le i)

/-- What leaves the source, less what comes back. -/
def value (N : Network V ι) (source : V) (flow : ι → Int) : Int :=
  ∑ i with N.tail i = source, flow i - ∑ i with N.head i = source, flow i

/-- A feasible flow of the largest value. -/
structure Maximal (N : Network V ι) (source sink : V) (flow : ι → Int) : Prop
    extends N.Feasible source sink flow where
  max : ∀ flow', N.Feasible source sink flow' → N.value source flow' ≤ N.value source flow

/-- There are finitely many feasible flows, and one of them is the flow of nothing. -/
theorem exists_maximal (N : Network V ι) (source sink : V) (h : ∀ i, 0 ≤ N.capacity i) :
    ∃ flow, N.Maximal source sink flow := by
  classical
  have hfinite : {flow | N.Feasible source sink flow}.Finite :=
    (Set.finite_Icc (0 : ι → Int) N.capacity).subset fun flow F => ⟨F.nonneg, F.le⟩
  have hzero : N.Feasible source sink fun _ => 0 := ⟨fun _ => le_refl _, h, fun _ _ _ => by simp⟩
  obtain ⟨flow, F, hmax⟩ := hfinite.exists_maximalFor (N.value source) _ ⟨_, hzero⟩
  refine ⟨flow, F, fun flow' F' => ?_⟩
  rcases le_total (N.value source flow') (N.value source flow) with hle | hle
  · exact hle
  · exact hmax F' hle

/-! ## Cuts -/

section
variable {N : Network V ι} {source sink : V} {flow : ι → Int} {S : Finset V}

/-- What leaves a set that has the source and not the sink, less what comes back. -/
theorem Feasible.value_eq (H : N.Feasible source sink flow) (hsource : source ∈ S) (hsink : sink ∉ S) :
    N.value source flow = ∑ i with N.tail i ∈ S, flow i - ∑ i with N.head i ∈ S, flow i := by
  have hall : N.value source flow =
      ∑ v ∈ S, (∑ i with N.tail i = v, flow i - ∑ i with N.head i = v, flow i) := by
    rw [value, Finset.sum_eq_single_of_mem source hsource]
    intro v hv hne
    rw [H.conserved v hne (ne_of_mem_of_not_mem hv hsink), sub_self]
  rw [hall, Finset.sum_sub_distrib, Finset.sum_fiberwise_eq_sum_filter,
    Finset.sum_fiberwise_eq_sum_filter]

/-- Only arcs that cross the border of the set count. -/
theorem Feasible.value_cut (H : N.Feasible source sink flow) (hsource : source ∈ S) (hsink : sink ∉ S) :
    N.value source flow = ∑ i with N.tail i ∈ S ∧ N.head i ∉ S, flow i -
      ∑ i with N.head i ∈ S ∧ N.tail i ∉ S, flow i := by
  have hsplit : ∀ p q : ι → Prop, [DecidablePred p] → [DecidablePred q] → ∑ i with p i, flow i =
      ∑ i with p i ∧ q i, flow i + ∑ i with p i ∧ ¬ q i, flow i := by
    intro p q _ _
    rw [← Finset.sum_filter_add_sum_filter_not (Finset.univ.filter p) q flow, Finset.filter_filter,
      Finset.filter_filter]
  have hcomm : ∑ i with N.tail i ∈ S ∧ N.head i ∈ S, flow i =
      ∑ i with N.head i ∈ S ∧ N.tail i ∈ S, flow i :=
    Finset.sum_congr (Finset.filter_congr fun i _ => And.comm) fun _ _ => rfl
  rw [H.value_eq hsource hsink, hsplit (N.tail · ∈ S) (N.head · ∈ S),
    hsplit (N.head · ∈ S) (N.tail · ∈ S), hcomm, add_sub_add_left_eq_sub]

theorem Feasible.value_le_cut (H : N.Feasible source sink flow) (hsource : source ∈ S)
    (hsink : sink ∉ S) :
    N.value source flow ≤ ∑ i with N.tail i ∈ S ∧ N.head i ∉ S, N.capacity i := by
  rw [H.value_cut hsource hsink]
  have hout := Finset.sum_le_sum fun i (_ : i ∈ Finset.univ.filter fun i => N.tail i ∈ S ∧ N.head i ∉ S) =>
    H.le i
  have hin : 0 ≤ ∑ i with N.head i ∈ S ∧ N.tail i ∉ S, flow i :=
    Finset.sum_nonneg fun i _ => H.nonneg i
  omega

/-- A flow that fills a cut, and that does not come back over it, is maximal. -/
theorem Feasible.maximal_of_cut (H : N.Feasible source sink flow) (hsource : source ∈ S)
    (hsink : sink ∉ S) (hout : ∀ i, N.tail i ∈ S → N.head i ∉ S → flow i = N.capacity i)
    (hin : ∀ i, N.head i ∈ S → N.tail i ∉ S → flow i = 0) : N.Maximal source sink flow := by
  refine { H with max := fun flow' H' => (H'.value_le_cut hsource hsink).trans (le_of_eq ?_) }
  have hfull : ∑ i with N.tail i ∈ S ∧ N.head i ∉ S, flow i =
      ∑ i with N.tail i ∈ S ∧ N.head i ∉ S, N.capacity i := by
    refine Finset.sum_congr rfl fun i hi => ?_
    obtain ⟨htail, hhead⟩ := (Finset.mem_filter.mp hi).2
    exact hout i htail hhead
  have hback : ∑ i with N.head i ∈ S ∧ N.tail i ∉ S, flow i = 0 := by
    refine Finset.sum_eq_zero fun i hi => ?_
    obtain ⟨hhead, htail⟩ := (Finset.mem_filter.mp hi).2
    exact hin i hhead htail
  rw [H.value_cut hsource hsink, hfull, hback, sub_zero]

end

/-! ## Names of vertices -/

section
variable {W : Type} [DecidableEq W] {N : Network V ι} {name : V → W} {source sink : V}
  {flow : ι → Int}

/-- The network with other names of its vertices. -/
def rename (N : Network V ι) (name : V → W) : Network W ι where
  tail i := name (N.tail i)
  head i := name (N.head i)
  capacity := N.capacity

theorem feasible_rename (hname : Function.Injective name) :
    (N.rename name).Feasible (name source) (name sink) flow ↔ N.Feasible source sink flow := by
  constructor
  · rintro ⟨hnonneg, hle, hconserved⟩
    refine ⟨hnonneg, hle, fun v hsource hsink => ?_⟩
    have h := hconserved (name v) (hname.ne hsource) (hname.ne hsink)
    simpa only [rename, hname.eq_iff] using h
  · rintro ⟨hnonneg, hle, hconserved⟩
    refine ⟨hnonneg, hle, fun w hsource hsink => ?_⟩
    by_cases hw : ∃ v, name v = w
    · obtain ⟨v, rfl⟩ := hw
      have h := hconserved v (fun h => hsource (congrArg name h)) fun h => hsink (congrArg name h)
      simpa only [rename, hname.eq_iff] using h
    · have hnone : ∀ f : ι → V, (Finset.univ.filter fun i => name (f i) = w) = ∅ :=
        fun f => Finset.filter_eq_empty_iff.mpr fun i _ h => hw ⟨_, h⟩
      rw [rename, hnone, hnone]

theorem value_rename (hname : Function.Injective name) :
    (N.rename name).value (name source) flow = N.value source flow := by
  simp only [value, rename, hname.eq_iff]

theorem maximal_rename (hname : Function.Injective name) :
    (N.rename name).Maximal (name source) (name sink) flow ↔ N.Maximal source sink flow := by
  constructor
  · rintro ⟨hfeasible, hmax⟩
    refine { (feasible_rename hname).mp hfeasible with max := fun flow' H' => ?_ }
    have h := hmax flow' ((feasible_rename hname).mpr H')
    rwa [value_rename hname, value_rename hname] at h
  · rintro ⟨hfeasible, hmax⟩
    refine { (feasible_rename hname).mpr hfeasible with max := fun flow' H' => ?_ }
    rw [value_rename hname, value_rename hname]
    exact hmax flow' ((feasible_rename hname).mp H')

end

end Network

end C2DN
