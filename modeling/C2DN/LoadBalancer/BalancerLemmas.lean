import C2DN.LoadBalancer.Balancer

/-!
# Lemmas for the balancers

A mapping is built for a list of unavailable hosts (`BuiltFor`): its buckets hold the nodes of the
ring without these hosts, up to the parity host when it is rebalanced, and none of these hosts.
`createMapping` builds such a mapping on every list of a valid trace.
-/

namespace C2DN.LoadBalancer

/-- A trace of unavailabilities: every list names hosts and leaves enough of them. -/
structure Trace (nHost n : Nat) where
  lists : List (List Nat)
  ne : lists ≠ []
  hosts : ∀ l ∈ lists, ∀ x ∈ l, x < nHost
  enough : ∀ l ∈ lists, n ≤ ((List.range nHost).filter fun x => x ∉ l).length

theorem cmpSlice_iff {s1 s2 : List Nat} : cmpSlice s1 s2 = true ↔ s1 = s2 := by
  unfold cmpSlice
  constructor
  · intro h
    simp only [Bool.and_eq_true, beq_iff_eq, List.all_eq_true, List.mem_range] at h
    refine List.ext_getElem h.1 fun i h1 h2 => ?_
    simpa [List.getElem?_eq_getElem h1, List.getElem?_eq_getElem h2] using h.2 i h1
  · rintro rfl
    simp

theorem BaseBalancer.unavailAt_eq_ok {base : BaseBalancer} {pos : Int} {l : List Nat} :
    base.unavailAt pos = .ok l ↔ 0 ≤ pos ∧ base.unavailableList[pos.toNat]? = some l := by
  unfold unavailAt
  split
  · next hneg => exact iff_of_false (by simp) fun h => Int.not_lt.mpr h.1 hneg
  · next hneg =>
    rw [and_iff_right (Int.not_lt.mp hneg)]
    cases base.unavailableList[pos.toNat]? <;> simp

section
variable {digest : List Nat → List Nat} {nHost n : Nat} {l : List Nat}

/-- The ring without the hosts of a list. -/
def ringWithout (digest : List Nat → List Nat) (nHost : Nat) (l : List Nat) : HashRing Nat :=
  l.foldl (HashRing.removeNode digest) (.newRing digest (List.range nHost))

/-- The nodes of a bucket on the ring without the hosts of a list. -/
def bucketNodes (digest : List Nat → List Nat) (nHost n : Nat) (l : List Nat) (bucket : Nat) :
    List Nat :=
  match (ringWithout digest nHost l).getNodes digest (itoa bucket) n with
  | .ok (nodes, _) => nodes
  | .error _ => []

theorem removeNodes_eq {ring : HashRing Nat} (h : ∀ x ∈ l, x < nHost) :
    removeNodes digest nHost l ring = .ok (l.foldl (HashRing.removeNode digest) ring) := by
  induction l generalizing ring with
  | nil => rfl
  | cons x xs ih =>
    rw [removeNodes, if_pos (h x (by simp)), ih fun y hy => h y (by simp [hy])]
    rfl

theorem ringWithout_congr {l' : List Nat} (h : ∀ x, x ∈ l ↔ x ∈ l') :
    ringWithout digest nHost l = ringWithout digest nHost l' :=
  HashRing.foldl_removeNode_congr h

/-- The nodes of a bucket: as many as asked for, all different, none of them on the list. -/
theorem bucketNodes_spec (hsep : Separates digest nHost) (h0 : 0 < n)
    (hn : n ≤ ((List.range nHost).filter fun x => x ∉ l).length) (bucket : Nat) :
    (ringWithout digest nHost l).getNodes digest (itoa bucket) n =
        .ok (bucketNodes digest nHost n l bucket, true) ∧
      (bucketNodes digest nHost n l bucket).length = n ∧
      ∀ x ∈ bucketNodes digest nHost n l bucket, x ∉ l := by
  have hring : ringWithout digest nHost l =
      .newRing digest ((List.range nHost).filter fun x => x ∉ l) :=
    HashRing.foldl_removeNode l
  obtain ⟨nodes, hnodes, hlen, -, hmem⟩ := HashRing.getNodes_newRing hsep
    (fun x hx => List.mem_range.mp (List.mem_filter.mp hx).1) (List.nodup_range.filter _) h0 hn
  rw [← hring] at hnodes
  have heq : bucketNodes digest nHost n l bucket = nodes := by rw [bucketNodes, hnodes]
  rw [heq]
  refine ⟨hnodes, hlen, fun x hx => ?_⟩
  simpa using (List.mem_filter.mp (hmem x hx)).2

/-- The mapping of a ring that has enough nodes. -/
theorem hashMapping_eq (ring : HashRing Nat) (room : Nat) {f : Nat → List Nat} (hroom : n ≤ room)
    (bs : List Nat)
    (h : ∀ b ∈ bs, ring.getNodes digest (itoa b) n = .ok (f b, true) ∧ (f b).length = n) :
    hashMapping digest ring n room bs =
      .ok (bs.map fun b => (f b).map Int.ofNat ++ List.replicate (room - n) 0) := by
  induction bs with
  | nil => rfl
  | cons b bs ih =>
    obtain ⟨hget, hlen⟩ := h b (by simp)
    rw [hashMapping, hget, ih fun b' hb' => h b' (by simp [hb'])]
    simp only [Except.bind, fillSlice, hlen, if_neg (Nat.not_lt.mpr hroom), Except.map,
      List.map_cons]

/-- A mapping that is built for the list `l`: up to `m` entries are the nodes of the ring without
the hosts of `l`, and these hosts are not among the first `n` entries. -/
structure BuiltFor (digest : List Nat → List Nat) (nHost n m : Nat) (l : List Nat)
    (mapping : List (List Int)) : Prop where
  length : mapping.length = nBuckets
  lengths : ∀ b < nBuckets, (mapping.getD b []).length = n + 1
  nodes : ∀ b < nBuckets, (mapping.getD b []).take m =
    ((bucketNodes digest nHost n l b).map Int.ofNat).take m
  avail : ∀ b < nBuckets, ∀ h ∈ l, (h : Int) ∉ (mapping.getD b []).take n

theorem getD_map_range {α : Type} {f : Nat → List α} {b k : Nat} (hb : b < k) :
    ((List.range k).map f).getD b [] = f b := by
  simp [hb]

/-- The mapping before parity is rebalanced. -/
theorem BuiltFor.of_ring (hsep : Separates digest nHost) (h0 : 0 < n)
    (hn : n ≤ ((List.range nHost).filter fun x => x ∉ l).length) {m : Nat} (hm : m ≤ n) :
    BuiltFor digest nHost n m l ((List.range nBuckets).map fun b =>
      (bucketNodes digest nHost n l b).map Int.ofNat ++ [-1]) := by
  refine ⟨by simp, fun b hb => ?_, fun b hb => ?_, fun b hb h hl => ?_⟩
  · rw [getD_map_range hb]
    simp [(bucketNodes_spec hsep h0 hn b).2.1]
  · rw [getD_map_range hb, List.take_append_of_le_length
      (by simpa [(bucketNodes_spec hsep h0 hn b).2.1] using hm)]
  · obtain ⟨-, hlen, hmem⟩ := bucketNodes_spec hsep h0 hn b
    rw [getD_map_range hb, List.take_left' (by simpa using hlen)]
    intro hin
    obtain ⟨x, hx, hxh⟩ := List.mem_map.mp hin
    obtain rfl : x = h := Int.ofNat.inj hxh
    exact hmem x hx hl

/-! ## Rebalancing parity -/

/-- An entry behind the nodes of a bucket changes. -/
theorem BuiltFor.update {m : Nat} {mapping mapping' : List (List Int)}
    (H : BuiltFor digest nHost n m l mapping) (hlen : mapping'.length = mapping.length)
    (h : ∀ b < nBuckets, ∃ i x, mapping'.getD b [] = (mapping.getD b []).set i x ∧ m ≤ i ∧
      (n ≤ i ∨ ∃ host : Nat, x = host ∧ host ∉ l) ∨ mapping'.getD b [] = mapping.getD b []) :
    BuiltFor digest nHost n m l mapping' := by
  refine ⟨hlen.trans H.length, fun b hb => ?_, fun b hb => ?_, fun b hb => ?_⟩
  all_goals obtain ⟨i, x, ⟨heq, hm, hx⟩ | heq⟩ := h b hb <;> rw [heq]
  · rw [List.length_set]; exact H.lengths b hb
  · exact H.lengths b hb
  · rw [List.take_set_of_le hm]; exact H.nodes b hb
  · exact H.nodes b hb
  · rcases hx with hn | ⟨host, rfl, hhost⟩
    · rw [List.take_set_of_le hn]; exact H.avail b hb
    · intro h hl hin
      rw [List.take_set] at hin
      rcases List.mem_or_eq_of_mem_set hin with hin | heq
      · exact H.avail b hb h hl hin
      · rw [Int.ofNat.inj heq] at hl
        exact hhost hl
  · exact H.avail b hb

namespace ParityBalancer

/-- A call of the callback that the graph allows: a host that is not on the list gets a bucket. -/
def Allowed (nHost : Nat) (l : List Nat) (call : Nat × Nat × Int) : Prop :=
  call.1 ≠ 0 → call.2.1 ≠ 1 → 2 ≤ call.1 ∧ call.1 - 2 ∉ l ∧ nHost + 2 ≤ call.2.1 ∧
    call.2.1 < nHost + nBuckets + 2

theorem assignParity_ok {calls : List (Nat × Nat × Int)} {mapping : List (List Int)}
    (parity : Nat → Option Int) (h0 : 0 < n) (H : BuiltFor digest nHost n (n - 1) l mapping)
    (hcalls : ∀ call ∈ calls, Allowed nHost l call) :
    ∃ mapping' parity', assignParity nHost (n - 1) calls (mapping, parity) =
      .ok (mapping', parity') ∧ BuiltFor digest nHost n (n - 1) l mapping' := by
  induction calls generalizing mapping parity with
  | nil => exact ⟨mapping, parity, rfl, H⟩
  | cons call calls ih =>
    obtain ⟨left, right, c⟩ := call
    have hrest : ∀ call ∈ calls, Allowed nHost l call := fun call hc => hcalls call (by simp [hc])
    rw [assignParity]
    split
    · next hcond =>
      obtain ⟨hl2, hl, hr, hr'⟩ := hcalls (left, right, c) (by simp) hcond.1 hcond.2
      dsimp only at hl2 hl hr hr'
      have hb : right - nHost - 2 < nBuckets := by omega
      rw [if_neg (by rw [H.length, H.lengths _ hb]; omega)]
      refine ih _ (H.update (by simp) fun b hb' => ?_) hrest
      refine ⟨n - 1, (left : Int) - 2, ?_⟩
      by_cases heq : right - nHost - 2 = b
      · refine .inl ⟨?_, le_refl _, .inr ⟨left - 2, by omega, hl⟩⟩
        have hlt : right - nHost - 2 < mapping.length := by rw [H.length]; exact hb
        subst heq
        simp [List.getElem?_eq_getElem hlt]
      · refine .inr ?_
        simp [heq]
    · exact ih _ H hrest

/-- The calls that `BFS` makes on the flow. -/
theorem allowed_of_lawful {gl : GraphLib} (hgl : gl.Lawful) {base : BaseBalancer}
    {mapping : List (List Int)} :
    ∀ call ∈ gl.bfs (gl.maxFlow (parityGraph base mapping l) 0 1).2 0,
      Allowed base.nHost l call := by
  intro ⟨left, right, c⟩ hcall hleft hright
  dsimp only at hleft hright ⊢
  have hedge : ∀ v w d, (v, w, d) ∈ gl.bfs (gl.maxFlow (parityGraph base mapping l) 0 1).2 0 →
      (parityGraph base mapping l).cost v w ≠ none := by
    intro v w d hd
    refine hgl.maxFlow_edge _ 0 1 v w ?_
    rw [hgl.bfs_edge _ 0 v w d hd]
    simp
  -- `left` is a host vertex, so it has been reached from the source
  have hlr := hedge left right c hcall
  simp only [parityGraph, parityGraphOf, if_neg hleft] at hlr
  have hhost : 2 ≤ left ∧ left < base.nHost + 2 := by
    by_contra hn
    rw [if_neg hn] at hlr
    split at hlr
    · next h => exact hright h.2.2
    · exact hlr rfl
  rw [if_pos hhost] at hlr
  obtain ⟨u, d, hu⟩ := (hgl.bfs_reached _ 0 left right c hcall).resolve_left hleft
  have hul := hedge u left d hu
  simp only [parityGraph, parityGraphOf] at hul
  have hu0 : u = 0 := by
    by_contra hne
    rw [if_neg hne] at hul
    split at hul
    · split at hul
      · next h => omega
      · exact hul rfl
    · split at hul
      · next h => omega
      · exact hul rfl
  rw [if_pos hu0] at hul
  refine ⟨hhost.1, ?_, ?_⟩
  · split at hul
    · next h => exact h.2.2
    · exact absurd rfl hul
  · split at hlr
    · next h => exact ⟨h.1, h.2.1⟩
    · exact absurd rfl hlr

/-- The mapping before parity is rebalanced. -/
def plainMapping (digest : List Nat → List Nat) (nHost n : Nat) (l : List Nat) : List (List Int) :=
  (List.range nBuckets).map fun b => (bucketNodes digest nHost n l b).map Int.ofNat ++ [-1]

section
variable {gl : GraphLib} {bl : ParityBalancer}

theorem createMapping_eq (hsep : Separates digest bl.base.nHost) (h0 : 0 < bl.base.nHostPerBucket)
    (hn : bl.base.nHostPerBucket ≤ ((List.range bl.base.nHost).filter fun x => x ∉ l).length)
    (hring : bl.ring = ringWithout digest bl.base.nHost l) :
    createMapping digest gl bl =
      let bl := { bl with
        bucketMapping := plainMapping digest bl.base.nHost bl.base.nHostPerBucket l }
      if bl.rebalance then (rebalanceParity gl bl).map addPrevious else .ok bl := by
  have hmap := hashMapping_eq bl.ring (bl.base.nHostPerBucket + 1) (Nat.le_succ _)
    (List.range nBuckets) fun b _ => by
      obtain ⟨h1, h2, -⟩ := bucketNodes_spec hsep h0 hn b
      rw [hring]
      exact ⟨h1, h2⟩
  have hset : ((List.range nBuckets).map fun b =>
      (bucketNodes digest bl.base.nHost bl.base.nHostPerBucket l b).map Int.ofNat ++
        List.replicate (bl.base.nHostPerBucket + 1 - bl.base.nHostPerBucket) 0).map
        (fun nodes => nodes.set bl.base.nHostPerBucket (-1)) =
      plainMapping digest bl.base.nHost bl.base.nHostPerBucket l := by
    rw [plainMapping, List.map_map]
    refine List.map_congr_left fun b _ => ?_
    simp [(bucketNodes_spec hsep h0 hn b).2.1]
  unfold createMapping
  dsimp only
  rw [hmap]
  dsimp only [Except.bind]
  rw [hset]

theorem rebalanceParity_ok (bl : ParityBalancer) (hgl : gl.Lawful) (h0 : 0 < bl.base.nHostPerBucket)
    (H : BuiltFor digest bl.base.nHost bl.base.nHostPerBucket (bl.base.nHostPerBucket - 1) l
      bl.bucketMapping)
    (hne : bl.base.unavailableList ≠ [])
    (hcurr : bl.base.unavailAt bl.base.currUnavailPos = .ok l) :
    ∃ bl', rebalanceParity gl bl = .ok bl' ∧ bl'.base = bl.base ∧
      bl'.rebalance = bl.rebalance ∧
      BuiltFor digest bl.base.nHost bl.base.nHostPerBucket (bl.base.nHostPerBucket - 1) l
        bl'.bucketMapping := by
  obtain ⟨mapping, parity, hassign, hmapping⟩ := assignParity_ok (fun _ => none) h0 H
    (allowed_of_lawful (l := l) hgl)
  unfold rebalanceParity
  dsimp only
  rw [if_neg hne, hcurr]
  dsimp only [Except.bind]
  rw [hassign]
  exact ⟨_, rfl, rfl, rfl, hmapping⟩

theorem addPrevious_builtFor {m : Nat} (hm : m ≤ bl.base.nHostPerBucket)
    (H : BuiltFor digest bl.base.nHost bl.base.nHostPerBucket m l bl.bucketMapping) :
    BuiltFor digest bl.base.nHost bl.base.nHostPerBucket m l (addPrevious bl).bucketMapping := by
  unfold addPrevious
  split
  · exact H
  · next prev _ =>
    refine H.update (by simp) fun b hb => ?_
    have hlt : b < bl.bucketMapping.length := by rw [H.length]; exact hb
    cases hprev : prev b with
    | none => exact ⟨0, 0, .inr (by simp [hprev, hlt])⟩
    | some host =>
      exact ⟨bl.base.nHostPerBucket, host, .inl ⟨by simp [hprev, hlt], hm, .inl (le_refl _)⟩⟩

theorem addPrevious_base : (addPrevious bl).base = bl.base := by
  unfold addPrevious; split <;> rfl

theorem addPrevious_rebalance : (addPrevious bl).rebalance = bl.rebalance := by
  unfold addPrevious; split <;> rfl

/-- The entries of a bucket that the ring decides. -/
def ringEntries (bl : ParityBalancer) : Nat :=
  if bl.rebalance then bl.base.nHostPerBucket - 1 else bl.base.nHostPerBucket

/-- `createMapping` on the ring without the hosts of the current list. -/
theorem createMapping_ok (bl : ParityBalancer) (hgl : gl.Lawful) (hsep : Separates digest bl.base.nHost)
    (h0 : 0 < bl.base.nHostPerBucket)
    (hn : bl.base.nHostPerBucket ≤ ((List.range bl.base.nHost).filter fun x => x ∉ l).length)
    (hring : bl.ring = ringWithout digest bl.base.nHost l) (hne : bl.base.unavailableList ≠ [])
    (hcurr : bl.base.unavailAt bl.base.currUnavailPos = .ok l) :
    ∃ bl', createMapping digest gl bl = .ok bl' ∧ bl'.base = bl.base ∧
      bl'.rebalance = bl.rebalance ∧
      BuiltFor digest bl.base.nHost bl.base.nHostPerBucket bl.ringEntries l bl'.bucketMapping := by
  have hplain : ∀ m ≤ bl.base.nHostPerBucket, BuiltFor digest bl.base.nHost bl.base.nHostPerBucket
      m l (plainMapping digest bl.base.nHost bl.base.nHostPerBucket l) :=
    fun m hm => BuiltFor.of_ring hsep h0 hn hm
  rw [createMapping_eq hsep h0 hn hring]
  dsimp only
  unfold ringEntries
  by_cases hreb : bl.rebalance
  · rw [if_pos hreb, if_pos hreb]
    obtain ⟨bl', hbl', hbase, hreb', H⟩ := rebalanceParity_ok
      { bl with bucketMapping := plainMapping digest bl.base.nHost bl.base.nHostPerBucket l } hgl h0
      (hplain _ (Nat.sub_le _ 1)) hne hcurr
    dsimp only at hbase hreb' H
    rw [← hbase] at H
    have H' := addPrevious_builtFor (by rw [hbase]; exact Nat.sub_le _ 1) H
    rw [hbase] at H'
    exact ⟨addPrevious bl', by rw [hbl']; rfl, addPrevious_base.trans hbase,
      addPrevious_rebalance.trans hreb', H'⟩
  · rw [if_neg hreb, if_neg hreb]
    exact ⟨_, rfl, rfl, rfl, hplain _ (le_refl _)⟩

end

end ParityBalancer

end

/-! ## Two hosts -/

theorem separates_two : Separates md5Sum 2 := by
  have h : ∀ h < 2, ∀ j < 40,
      hashVal (md5Sum (itoa h ++ 45 :: itoa 0)) ∉ nodeKeys md5Sum (1 - h) j := by
    set_option maxRecDepth 100000 in
    decide +kernel
  intro i hi
  refine ⟨0, by decide, _, List.mem_cons_self, fun i' hi' hne j hj => ?_⟩
  obtain rfl : i' = 1 - i := by omega
  exact h i hi j hj

/-- On the ring of two hosts bucket 1 goes to host 0. -/
theorem bucketNodes_two : bucketNodes md5Sum 2 1 [] 1 = [0] := by
  set_option maxRecDepth 100000 in
  decide +kernel

/-- A flow of nothing; without rebalancing nothing is asked for. -/
def noFlow : GraphLib where
  maxFlow g _ _ := (0, { g with cost := fun _ _ => none })
  bfs _ _ := []

theorem noFlow_lawful : noFlow.Lawful where
  maxFlow_edge _ _ _ _ _ h := absurd rfl h
  bfs_edge _ _ _ _ _ h := by cases h
  bfs_reached _ _ _ _ _ h := by cases h

end C2DN.LoadBalancer
