import Mathlib.Data.List.Nodup
import C2DN.Lib.Layered
import C2DN.Simulator.Mapping

/-!
# The network of `find_parity_mapping`

Its arcs are those of a network of three layers, each of them once. The arcs with flow from a server
to a bucket are read one after the other; since a bucket takes at most one unit of flow, at most one
server is shifted into its row.
-/

namespace C2DN.Simulator.Cluster

section
variable {p : Params} {nBucket : Nat} {dataServers : Nat → List Nat} {serverCap : Int}

/-- The buckets with data on a server. -/
def bucketsOn (nBucket : Nat) (dataServers : Nat → List Nat) (i : Nat) : List Nat :=
  (List.range nBucket).filter fun b => i ∈ dataServers b

/-- The capacity of the arc from the source to a server. -/
def spare (nBucket : Nat) (dataServers : Nat → List Nat) (serverCap : Int) (i : Nat) : Nat :=
  if bucketsOn nBucket dataServers i = [] then 0
  else (serverCap - (bucketsOn nBucket dataServers i).length).toNat

/-! ## The arcs -/

theorem mem_parityArcsOf {a : Arc} : a ∈ parityArcsOf nBucket p dataServers serverCap ↔
    (∃ i < p.nServer, a = ⟨0, 2 + i, spare nBucket dataServers serverCap i⟩) ∨
    (∃ i < p.nServer, ∃ b < nBucket, i ∉ dataServers b ∧ a = ⟨2 + i, 2 + p.nServer + b, 1⟩) ∨
    ∃ b < nBucket, a = ⟨2 + p.nServer + b, 1, 1⟩ := by
  have hcap : ∀ i, (if (if bucketsOn nBucket dataServers i = [] then 0
      else serverCap - (bucketsOn nBucket dataServers i).length) < 0 then 0
      else if bucketsOn nBucket dataServers i = [] then 0
      else serverCap - (bucketsOn nBucket dataServers i).length) =
      (spare nBucket dataServers serverCap i : Int) := by
    intro i
    unfold spare
    by_cases hnil : bucketsOn nBucket dataServers i = []
    · simp only [if_pos hnil]
      rfl
    · simp only [if_neg hnil]
      split <;> omega
  unfold parityArcsOf
  rw [List.mem_append, List.mem_flatMap, List.mem_map]
  constructor
  · rintro (⟨i, hi, h⟩ | ⟨b, hb, rfl⟩)
    · rw [List.mem_range] at hi
      rcases List.mem_cons.mp h with rfl | h
      · refine .inl ⟨i, hi, ?_⟩
        rw [← hcap]
        rfl
      · obtain ⟨b, hb, rfl⟩ := List.mem_map.mp h
        obtain ⟨hb, hnot⟩ := List.mem_filter.mp hb
        exact .inr (.inl ⟨i, hi, b, List.mem_range.mp hb, by simpa using hnot, rfl⟩)
    · exact .inr (.inr ⟨b, List.mem_range.mp hb, rfl⟩)
  · rintro (⟨i, hi, rfl⟩ | ⟨i, hi, b, hb, hnot, rfl⟩ | ⟨b, hb, rfl⟩)
    · refine .inl ⟨i, List.mem_range.mpr hi, List.mem_cons.mpr (.inl ?_)⟩
      rw [← hcap]
      rfl
    · refine .inl ⟨i, List.mem_range.mpr hi, List.mem_cons_of_mem _ (List.mem_map.mpr
        ⟨b, List.mem_filter.mpr ⟨List.mem_range.mpr hb, by simpa using hnot⟩, rfl⟩)⟩
    · exact .inr ⟨b, List.mem_range.mpr hb, rfl⟩

/-- The ends of the arcs. -/
theorem map_parityArcsOf :
    (parityArcsOf nBucket p dataServers serverCap).map (fun a => (a.tail, a.head)) =
      ((List.range p.nServer).flatMap fun i => (0, 2 + i) ::
        ((List.range nBucket).filter fun b => i ∉ dataServers b).map fun b =>
          (2 + i, 2 + p.nServer + b)) ++
      (List.range nBucket).map fun b => (2 + p.nServer + b, 1) := by
  simp only [parityArcsOf, List.map_append, List.map_flatMap, List.map_cons, List.map_map,
    Function.comp_def]

/-- No arc is there twice. -/
theorem nodup_parityArcsOf :
    ((parityArcsOf nBucket p dataServers serverCap).map fun a => (a.tail, a.head)).Nodup := by
  rw [map_parityArcsOf]
  refine List.nodup_append.mpr ⟨List.nodup_flatMap.mpr ⟨fun i _ => ?_, ?_⟩, ?_, ?_⟩
  · refine List.nodup_cons.mpr ⟨fun h => ?_, (List.nodup_range.filter _).map fun b b' h => ?_⟩
    · obtain ⟨b, -, h⟩ := List.mem_map.mp h
      have := (Prod.mk.inj h).1
      omega
    · exact Nat.add_left_cancel (Prod.mk.inj h).2
  · refine List.nodup_range.pairwise_of_forall_ne fun i _ i' _ hne => ?_
    refine List.disjoint_left.mpr fun a ha ha' => hne ?_
    simp only [List.mem_cons, List.mem_map] at ha ha'
    rcases ha with rfl | ⟨b, -, rfl⟩ <;> rcases ha' with h | ⟨b', -, h⟩
    · exact Nat.add_left_cancel (Prod.mk.inj h).2
    · have := (Prod.mk.inj h).1
      omega
    · have := (Prod.mk.inj h).1
      omega
    · exact (Nat.add_left_cancel (Prod.mk.inj h).1).symm
  · exact List.nodup_range.map fun b b' h => Nat.add_left_cancel (Prod.mk.inj h).1
  · rintro a ha c hc rfl
    obtain ⟨b, -, rfl⟩ := List.mem_map.mp hc
    obtain ⟨i, -, ha⟩ := List.mem_flatMap.mp ha
    simp only [List.mem_cons, List.mem_map] at ha
    rcases ha with h | ⟨b', -, h⟩
    · have := (Prod.mk.inj h).1
      omega
    · have := (Prod.mk.inj h).2
      omega

/-- **The network** of `find_parity_mapping` has three layers. -/
theorem layered_parityArcs (nBucket : Nat) (p : Params) (dataServers : Nat → List Nat)
    (serverCap : Int) : Layered (network (parityArcsOf nBucket p dataServers serverCap)) 0 1
    (fun i : Fin p.nServer => 2 + i.1) (fun b : Fin nBucket => 2 + p.nServer + b.1)
    (fun i => spare nBucket dataServers serverCap i.1) (fun i b => i.1 ∉ dataServers b.1) := by
  have hmem : ∀ k : Fin (parityArcsOf nBucket p dataServers serverCap).length,
      (parityArcsOf nBucket p dataServers serverCap)[k] ∈
        parityArcsOf nBucket p dataServers serverCap := fun k => List.getElem_mem k.2
  have hget : ∀ a ∈ parityArcsOf nBucket p dataServers serverCap,
      ∃ k, (network (parityArcsOf nBucket p dataServers serverCap)).tail k = a.tail ∧
        (network (parityArcsOf nBucket p dataServers serverCap)).head k = a.head ∧
        (network (parityArcsOf nBucket p dataServers serverCap)).capacity k = a.capacity := by
    intro a ha
    obtain ⟨k, hk, rfl⟩ := List.mem_iff_getElem.mp ha
    exact ⟨⟨k, hk⟩, rfl, rfl, rfl⟩
  refine ⟨fun i i' h => Fin.ext (Nat.add_left_cancel h), fun b b' h =>
    Fin.ext (Nat.add_left_cancel h), fun i b h => ?_, fun i => ⟨?_, ?_⟩, fun b => ⟨?_, ?_⟩,
    by decide, fun k => ?_, fun k _ => ?_, fun k k' _ _ ht hh => ?_, fun i _ => ?_, fun i b hib => ?_,
    fun b => ?_⟩
  · have := i.2
    omega
  · omega
  · omega
  · omega
  · omega
  · change 0 ≤ (parityArcsOf nBucket p dataServers serverCap)[k].capacity
    rcases mem_parityArcsOf.mp (hmem k) with ⟨i, -, h⟩ | ⟨i, -, b, -, -, h⟩ | ⟨b, -, h⟩ <;> rw [h]
    · exact Int.natCast_nonneg _
    · exact Int.one_nonneg
    · exact Int.one_nonneg
  · change (∃ l, (parityArcsOf nBucket p dataServers serverCap)[k].tail = 0 ∧
      (parityArcsOf nBucket p dataServers serverCap)[k].head = _ ∧
      (parityArcsOf nBucket p dataServers serverCap)[k].capacity = _) ∨ (∃ l r, _ ∧
      (parityArcsOf nBucket p dataServers serverCap)[k].tail = _ ∧
      (parityArcsOf nBucket p dataServers serverCap)[k].head = _ ∧
      (parityArcsOf nBucket p dataServers serverCap)[k].capacity = 1) ∨ ∃ r,
      (parityArcsOf nBucket p dataServers serverCap)[k].tail = _ ∧
      (parityArcsOf nBucket p dataServers serverCap)[k].head = 1 ∧
      (parityArcsOf nBucket p dataServers serverCap)[k].capacity = 1
    rcases mem_parityArcsOf.mp (hmem k) with ⟨i, hi, h⟩ | ⟨i, hi, b, hb, hib, h⟩ | ⟨b, hb, h⟩ <;>
      rw [h]
    · exact .inl ⟨⟨i, hi⟩, rfl, rfl, rfl⟩
    · exact .inr (.inl ⟨⟨i, hi⟩, ⟨b, hb⟩, hib, rfl, rfl, rfl⟩)
    · exact .inr (.inr ⟨⟨b, hb⟩, rfl, rfl, rfl⟩)
  · have hlen : ∀ k : Fin (parityArcsOf nBucket p dataServers serverCap).length, k.1 <
        ((parityArcsOf nBucket p dataServers serverCap).map fun a => (a.tail, a.head)).length :=
      fun k => by rw [List.length_map]; exact k.2
    have heq : (⟨k.1, hlen k⟩ : Fin _) = ⟨k'.1, hlen k'⟩ := nodup_parityArcsOf.injective_get (by
      rw [List.get_eq_getElem, List.get_eq_getElem, List.getElem_map, List.getElem_map]
      exact Prod.ext ht hh)
    exact Fin.ext (Fin.mk.inj heq)
  · exact hget _ (mem_parityArcsOf.mpr (.inl ⟨i, i.2, rfl⟩))
  · exact hget _ (mem_parityArcsOf.mpr (.inr (.inl ⟨i, i.2, b, b.2, hib, rfl⟩)))
  · exact hget _ (mem_parityArcsOf.mpr (.inr (.inr ⟨b, b.2, rfl⟩)))

/-! ## The arcs with flow -/

/-- An arc with flow from a server to a bucket. -/
def carries (flow : Nat → Int) (arc : Arc × Nat) : Bool :=
  decide (arc.1.tail ≠ 0 ∧ arc.1.head ≠ 1 ∧ 0 < flow arc.2)

/-- The arcs over which a bucket gets flow. -/
def received (p : Params) (flow : Nat → Int) (arcs : List Arc) (b : Nat) : List (Arc × Nat) :=
  arcs.zipIdx.filter fun arc => carries flow arc && arc.1.head - 2 - p.nServer == b

/-- The server that the flow gives to a bucket. -/
def parityServer (p : Params) (flow : Nat → Int) (arcs : List Arc) (b : Nat) : Option Nat :=
  (received p flow arcs b).head?.map fun arc => arc.1.tail - 2

theorem applyFlow_eq {flow : Nat → Int} {arcs : List Arc} {mapping : Nat → Option (List Nat)}
    {b : Nat} : applyFlow p flow arcs mapping b = (received p flow arcs b).foldl
      (fun row arc => row.map fun idxs => shiftIn p.n idxs (arc.1.tail - 2)) (mapping b) := by
  unfold applyFlow received
  generalize arcs.zipIdx = l
  induction l generalizing mapping with
  | nil => rfl
  | cons arc l ih =>
    obtain ⟨arc, k⟩ := arc
    rw [List.foldl_cons, ih, List.filter_cons]
    dsimp only
    by_cases hc : carries flow (arc, k) = true
    · have hc' := of_decide_eq_true hc
      rw [if_pos hc']
      by_cases hb : arc.head - 2 - p.nServer = b
      · subst hb
        rw [Function.update_self, if_pos (by simp [hc]), List.foldl_cons]
      · rw [Function.update_of_ne (Ne.symm hb), if_neg (by simp [hc, hb])]
    · have hc' : ¬ (arc.tail ≠ 0 ∧ arc.head ≠ 1 ∧ 0 < flow k) := fun h =>
        hc (decide_eq_true h)
      rw [if_neg hc', if_neg (by simp [hc])]

theorem countFlow_eq {flow : Nat → Int} {arcs : List Arc} {count : Nat → Nat} {x : Nat} :
    countFlow flow arcs count x = count x +
      (arcs.zipIdx.filter fun arc => carries flow arc && arc.1.tail - 2 == x).length := by
  unfold countFlow
  generalize arcs.zipIdx = l
  induction l generalizing count with
  | nil => rfl
  | cons arc l ih =>
    obtain ⟨arc, k⟩ := arc
    rw [List.foldl_cons, ih, List.filter_cons]
    dsimp only
    by_cases hc : carries flow (arc, k) = true
    · have hc' := of_decide_eq_true hc
      rw [if_pos hc', addAt]
      by_cases hx : arc.tail - 2 = x
      · subst hx
        rw [Function.update_self, if_pos (by simp [hc]), List.length_cons]
        omega
      · rw [Function.update_of_ne (Ne.symm hx), if_neg (by simp [hc, hx])]
    · have hc' : ¬ (arc.tail ≠ 0 ∧ arc.head ≠ 1 ∧ 0 < flow k) := fun h =>
        hc (decide_eq_true h)
      rw [if_neg hc', if_neg (by simp [hc])]

section
variable {flow : Nat → Int}
  (F : (network (parityArcsOf nBucket p dataServers serverCap)).Feasible 0 1 fun i => flow i)
include F

omit F in
/-- An arc that carries flow, with its place in the network. -/
theorem of_carries {arc : Arc × Nat}
    (hmem : arc ∈ (parityArcsOf nBucket p dataServers serverCap).zipIdx)
    (hc : carries flow arc = true) : ∃ hk : arc.2 < (parityArcsOf nBucket p dataServers serverCap).length,
      (parityArcsOf nBucket p dataServers serverCap)[arc.2] = arc.1 ∧ 0 < flow arc.2 ∧
      ∃ i < p.nServer, ∃ b < nBucket, i ∉ dataServers b ∧ arc.1 = ⟨2 + i, 2 + p.nServer + b, 1⟩ := by
  obtain ⟨htail, hhead, hpos⟩ := of_decide_eq_true hc
  have hget := List.mem_zipIdx_iff_getElem?.mp hmem
  obtain ⟨hk, heq⟩ := List.getElem?_eq_some_iff.mp hget
  refine ⟨hk, heq, hpos, ?_⟩
  rcases mem_parityArcsOf.mp (List.mem_of_getElem? hget) with ⟨i, -, h⟩ | h | ⟨b, -, h⟩
  · rw [h] at htail
    exact absurd rfl htail
  · exact h
  · rw [h] at hhead
    exact absurd rfl hhead

/-- A bucket gets flow over at most one arc. -/
theorem received_cases (b : Nat) :
    received p flow (parityArcsOf nBucket p dataServers serverCap) b = [] ∨
    ∃ i < p.nServer, ∃ k, b < nBucket ∧ i ∉ dataServers b ∧
      received p flow (parityArcsOf nBucket p dataServers serverCap) b =
        [(⟨2 + i, 2 + p.nServer + b, 1⟩, k)] := by
  have hspec : ∀ arc ∈ received p flow (parityArcsOf nBucket p dataServers serverCap) b,
      ∃ hk : arc.2 < (parityArcsOf nBucket p dataServers serverCap).length,
        (parityArcsOf nBucket p dataServers serverCap)[arc.2] = arc.1 ∧ 0 < flow arc.2 ∧
        ∃ i < p.nServer, b < nBucket ∧ i ∉ dataServers b ∧
          arc.1 = ⟨2 + i, 2 + p.nServer + b, 1⟩ := by
    intro arc hrec
    obtain ⟨hmem, hc⟩ := List.mem_filter.mp hrec
    obtain ⟨hc, hb⟩ := Bool.and_eq_true_iff.mp hc
    obtain ⟨hk, heq, hpos, i, hi, b', hb', hib, harc⟩ := of_carries hmem hc
    obtain rfl : b' = b := by
      rw [harc] at hb
      have := beq_iff_eq.mp hb
      dsimp only at this
      omega
    exact ⟨hk, heq, hpos, i, hi, hb', hib, harc⟩
  have hnodup : (received p flow (parityArcsOf nBucket p dataServers serverCap) b).Nodup :=
    (List.Nodup.of_map Prod.snd (by
      rw [List.zipIdx_map_snd]
      exact List.nodup_range' 1 Nat.one_pos)).filter _
  cases hl : received p flow (parityArcsOf nBucket p dataServers serverCap) b with
  | nil => exact .inl rfl
  | cons arc rest =>
    rw [hl] at hspec hnodup
    obtain ⟨hk, heq, hpos, i, hi, hb, hib, harc⟩ := hspec arc List.mem_cons_self
    refine .inr ⟨i, hi, arc.2, hb, hib, ?_⟩
    have hrest : rest = [] := by
      cases rest with
      | nil => rfl
      | cons arc' rest =>
        obtain ⟨hk', heq', hpos', i', -, -, -, harc'⟩ := hspec arc' (by simp)
        have hsame := (layered_parityArcs nBucket p dataServers serverCap).eq_of_head_right F (i := ⟨arc.2, hk⟩) (j := ⟨arc'.2, hk'⟩)
          (r := ⟨b, hb⟩) (by
            change (parityArcsOf nBucket p dataServers serverCap)[arc.2].head = _
            rw [heq, harc]) (by
            change (parityArcsOf nBucket p dataServers serverCap)[arc'.2].head = _
            rw [heq', harc']) hpos hpos'
        have hidx : arc.2 = arc'.2 := Fin.mk.inj hsame
        have hfst : arc.1 = arc'.1 := by
          rw [← heq, ← heq']
          simp only [hidx]
        exact absurd (Prod.ext hfst hidx) (by
          intro h
          rw [h] at hnodup
          exact (List.nodup_cons.mp hnodup).1 List.mem_cons_self)
    rw [hrest, ← harc]

/-- What the flow does to the row of a bucket. -/
theorem applyFlow_parityServer (mapping : Nat → Option (List Nat)) (b : Nat) :
    applyFlow p flow (parityArcsOf nBucket p dataServers serverCap) mapping b =
      match parityServer p flow (parityArcsOf nBucket p dataServers serverCap) b with
      | none => mapping b
      | some x => (mapping b).map fun idxs => shiftIn p.n idxs x := by
  rw [applyFlow_eq, parityServer]
  rcases received_cases F b with h | ⟨i, -, k, -, -, h⟩
  · rw [h]; rfl
  · rw [h]; rfl

theorem of_parityServer {b x : Nat}
    (h : parityServer p flow (parityArcsOf nBucket p dataServers serverCap) b = some x) :
    x < p.nServer ∧ b < nBucket ∧ x ∉ dataServers b := by
  rw [parityServer] at h
  rcases received_cases F b with hr | ⟨i, hi, k, hb, hib, hr⟩
  · rw [hr] at h; cases h
  · rw [hr] at h
    obtain rfl : 2 + i - 2 = x := Option.some.inj h
    rw [Nat.add_sub_cancel_left]
    exact ⟨hi, hb, hib⟩

/-- An arc with flow to a bucket is the one that is read. -/
theorem parityServer_of_flow {b x : Nat} {k : Nat}
    (hk : k < (parityArcsOf nBucket p dataServers serverCap).length)
    (htail : (parityArcsOf nBucket p dataServers serverCap)[k].tail = 2 + x)
    (hhead : (parityArcsOf nBucket p dataServers serverCap)[k].head = 2 + p.nServer + b)
    (hpos : 0 < flow k) :
    parityServer p flow (parityArcsOf nBucket p dataServers serverCap) b = some x := by
  have hmem : ((parityArcsOf nBucket p dataServers serverCap)[k], k) ∈
      received p flow (parityArcsOf nBucket p dataServers serverCap) b := by
    refine List.mem_filter.mpr ⟨List.mem_zipIdx_iff_getElem?.mpr (List.getElem?_eq_getElem hk), ?_⟩
    refine Bool.and_eq_true_iff.mpr ⟨decide_eq_true ⟨?_, ?_, hpos⟩, beq_iff_eq.mpr ?_⟩
    · rw [htail]; omega
    · rw [hhead]; omega
    · rw [hhead]; omega
  rw [parityServer]
  rcases received_cases F b with hr | ⟨i, -, k', -, -, hr⟩
  · rw [hr] at hmem; cases hmem
  · rw [hr] at hmem ⊢
    have heq := congrArg Prod.fst (List.mem_singleton.mp hmem)
    dsimp only at heq
    rw [heq] at htail
    rw [List.head?_cons, Option.map_some, htail, Nat.add_sub_cancel_left]

/-- The server that the flow gives to a bucket has data of another one: without it the arc from the
source has no capacity. -/
theorem exists_data_of_parityServer {b x : Nat}
    (h : parityServer p flow (parityArcsOf nBucket p dataServers serverCap) b = some x) :
    ∃ b' < nBucket, x ∈ dataServers b' := by
  rw [parityServer] at h
  rcases received_cases F b with hr | ⟨i, hi, k, hb, -, hr⟩
  · rw [hr] at h; cases h
  · have hmem : ((⟨2 + i, 2 + p.nServer + b, 1⟩ : Arc), k) ∈
        received p flow (parityArcsOf nBucket p dataServers serverCap) b := by
      rw [hr]
      exact List.mem_singleton.mpr rfl
    rw [hr] at h
    obtain rfl : 2 + i - 2 = x := Option.some.inj h
    rw [Nat.add_sub_cancel_left]
    obtain ⟨hmem, hc⟩ := List.mem_filter.mp hmem
    obtain ⟨hk, heq, hpos, -⟩ := of_carries hmem (Bool.and_eq_true_iff.mp hc).1
    have htail : (network (parityArcsOf nBucket p dataServers serverCap)).tail ⟨k, hk⟩ = 2 + i := by
      change (parityArcsOf nBucket p dataServers serverCap)[k].tail = 2 + i
      rw [heq]
    obtain ⟨j, hj, hjpos⟩ := F.exists_in (i := ⟨k, hk⟩) (by rw [htail]; omega)
      (by rw [htail]; omega) hpos
    rw [htail] at hj
    have hj : (parityArcsOf nBucket p dataServers serverCap)[j.1].head = 2 + i := hj
    have hcap : 0 < (parityArcsOf nBucket p dataServers serverCap)[j.1].capacity :=
      Int.lt_of_lt_of_le hjpos (F.le j)
    rcases mem_parityArcsOf.mp (List.getElem_mem j.isLt) with
      ⟨i', -, harc⟩ | ⟨i', hi', b', -, -, harc⟩ | ⟨b', -, harc⟩
    · rw [harc] at hj hcap
      obtain rfl : i' = i := Nat.add_left_cancel hj
      have hne : bucketsOn nBucket dataServers i' ≠ [] := by
        intro hnil
        simp [spare, hnil] at hcap
      obtain ⟨b', hb'⟩ := List.exists_mem_of_ne_nil _ hne
      obtain ⟨hlt, hin⟩ := List.mem_filter.mp hb'
      exact ⟨b', List.mem_range.mp hlt, of_decide_eq_true hin⟩
    · rw [harc] at hj
      dsimp only at hj
      omega
    · rw [harc] at hj
      dsimp only at hj
      omega

/-- **The value of the flow** is the number of buckets if and only if each of them gets a server. -/
theorem value_eq_iff_parityServer :
    (network (parityArcsOf nBucket p dataServers serverCap)).value 0 (fun i => flow i) = nBucket ↔
      ∀ b < nBucket,
        ∃ x, parityServer p flow (parityArcsOf nBucket p dataServers serverCap) b = some x := by
  have H := layered_parityArcs nBucket p dataServers serverCap
  constructor
  · intro hval b hb
    obtain ⟨a, -, harc⟩ := H.exists_assigns F (by rw [hval, Fintype.card_fin])
    obtain ⟨i, htail, hhead, hpos, -⟩ := harc ⟨b, hb⟩
    exact ⟨a ⟨b, hb⟩, parityServer_of_flow F i.2 htail hhead hpos⟩
  · intro hall
    refine le_antisymm ((H.value_le F).trans_eq (by rw [Fintype.card_fin])) ?_
    rw [H.value_eq F]
    calc (nBucket : Int) = ∑ _b : Fin nBucket, (1 : Int) := by simp
      _ ≤ _ := Finset.sum_le_sum fun b _ => ?_
    obtain ⟨x, hx⟩ := hall b b.2
    rw [parityServer] at hx
    rcases received_cases F b.1 with hr | ⟨i, -, k, -, -, hr⟩
    · rw [hr] at hx; cases hx
    · have hmem : ((⟨2 + i, 2 + p.nServer + b.1, 1⟩ : Arc), k) ∈
          received p flow (parityArcsOf nBucket p dataServers serverCap) b := by
        rw [hr]
        exact List.mem_singleton.mpr rfl
      obtain ⟨hmem, hc⟩ := List.mem_filter.mp hmem
      obtain ⟨hk, heq, hpos, -⟩ := of_carries hmem (Bool.and_eq_true_iff.mp hc).1
      refine le_trans hpos (Finset.single_le_sum (f := fun i => flow i.1) (fun j _ => F.nonneg j)
        (Finset.mem_filter.mpr ⟨Finset.mem_univ ⟨k, hk⟩, ?_⟩))
      change (parityArcsOf nBucket p dataServers serverCap)[k].head = _
      rw [heq]

omit F in
/-- The length of a list, counted by a key. -/
theorem length_eq_sum_filter {α : Type} {l : List α} {key : α → Nat} {k : Nat}
    (h : ∀ a ∈ l, key a < k) :
    l.length = ∑ b ∈ Finset.range k, (l.filter fun a => key a == b).length := by
  induction l with
  | nil => simp
  | cons a l ih =>
    have hcons : ∀ b, ((a :: l).filter fun a => key a == b).length =
        (l.filter fun a => key a == b).length + if key a = b then 1 else 0 := by
      intro b
      rw [List.filter_cons]
      by_cases hb : key a = b
      · rw [if_pos (beq_iff_eq.mpr hb), if_pos hb, List.length_cons]
      · rw [if_neg (by simpa using hb), if_neg hb, Nat.add_zero]
    rw [Finset.sum_congr rfl fun b _ => hcons b, Finset.sum_add_distrib, Finset.sum_ite_eq,
      if_pos (Finset.mem_range.mpr (h a List.mem_cons_self)), List.length_cons,
      ← ih fun a' ha' => h a' (List.mem_cons_of_mem _ ha')]

/-- The counts of the parity servers. -/
theorem countFlow_parityServer (count : Nat → Nat) (x : Nat) :
    countFlow flow (parityArcsOf nBucket p dataServers serverCap) count x = count x +
      ∑ b ∈ Finset.range nBucket,
        if parityServer p flow (parityArcsOf nBucket p dataServers serverCap) b = some x then 1
        else 0 := by
  have hkey : ∀ arc ∈ (parityArcsOf nBucket p dataServers serverCap).zipIdx.filter
      (fun arc => carries flow arc && arc.1.tail - 2 == x),
      arc.1.head - 2 - p.nServer < nBucket := by
    intro arc harc
    obtain ⟨hmem, hc⟩ := List.mem_filter.mp harc
    obtain ⟨-, -, -, i, -, b, hb, -, heq⟩ := of_carries hmem (Bool.and_eq_true_iff.mp hc).1
    rw [heq]
    dsimp only
    omega
  rw [countFlow_eq, length_eq_sum_filter hkey]
  refine congrArg (count x + ·) (Finset.sum_congr rfl fun b _ => ?_)
  have hfilter : (((parityArcsOf nBucket p dataServers serverCap).zipIdx.filter fun arc =>
      carries flow arc && arc.1.tail - 2 == x).filter fun arc => arc.1.head - 2 - p.nServer == b) =
      (received p flow (parityArcsOf nBucket p dataServers serverCap) b).filter fun arc =>
        arc.1.tail - 2 == x := by
    rw [received, List.filter_filter, List.filter_filter]
    exact List.filter_congr fun arc _ => by simp only [Bool.and_comm, Bool.and_left_comm]
  rw [hfilter, parityServer]
  rcases received_cases F b with hr | ⟨i, -, k, -, -, hr⟩
  · rw [hr]; rfl
  · rw [hr, List.head?_cons, Option.map_some]
    by_cases hx : 2 + i - 2 = x
    · subst hx
      rw [if_pos rfl, List.filter_cons_of_pos (by simp)]
      rfl
    · rw [if_neg fun h => hx (Option.some.inj h), List.filter_cons_of_neg (by simpa using hx)]
      rfl

end

end

end C2DN.Simulator.Cluster
