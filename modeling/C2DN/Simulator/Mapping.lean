import C2DN.Lib.Flow
import C2DN.Simulator.GetLemmas

/-!
# The mapping of buckets to servers

In every reachable state a mapped bucket has `n + 2` servers that are up, of which the first `n` are
different (`Row`). Parity rebalancing keeps this: the flow that `SimpleMaxFlow` finds sends parity
only to servers that are up, since other servers have no capacity.
-/

namespace C2DN.Simulator

/-- The network of a list of arcs. -/
def network (arcs : List Arc) : Network Nat (Fin arcs.length) where
  tail i := arcs[i].tail
  head i := arcs[i].head
  capacity i := arcs[i].capacity

/-- `SimpleMaxFlow` finds a feasible flow of every network without negative capacities. -/
def FindsFlow (maxFlow : List Arc → Nat → Int) : Prop :=
  ∀ arcs, (∀ a ∈ arcs, 0 ≤ a.capacity) →
    (network arcs).Feasible 0 1 fun i => maxFlow arcs i

namespace Cluster

section
variable {p : Params} {s s₀ s' : Cluster} {idxs : List Nat}

/-- The servers of a mapped bucket. -/
structure Row (p : Params) (s : Cluster) (idxs : List Nat) : Prop where
  length : idxs.length = p.n + maxNUnavail
  lt : ∀ x ∈ idxs, x < p.nServer
  available : ∀ x ∈ idxs, (s.servers x).available = true
  nodup : (idxs.take p.n).Nodup

/-- The servers that a bucket had before. -/
structure PrevRow (p : Params) (prev : List Nat) : Prop where
  length : prev.length = p.n + maxNUnavail
  lt : ∀ x ∈ prev, x < p.nServer

/-- The rows of both mappings. -/
structure MappingOk (p : Params) (s : Cluster) : Prop where
  row : ∀ b idxs, s.chMapping b = some idxs → Row p s idxs
  prev : ∀ b prev, s.prevChMapping b = some prev → PrevRow p prev

/-! ## Parity servers -/

theorem shiftIn_eq {n x : Nat} (hn : 0 < n) (hlen : idxs.length = n + maxNUnavail) :
    shiftIn n idxs x = idxs.take (n - 1) ++ x :: (idxs.drop (n - 1)).dropLast := by
  have hne : idxs.drop (n - 1) ≠ [] := by
    rw [Ne, List.drop_eq_nil_iff]
    omega
  rw [shiftIn, List.dropLast_append_of_ne_nil (by simp), List.dropLast_cons_of_ne_nil hne]

theorem take_pred_shiftIn {n x : Nat} (hn : 0 < n) (hlen : idxs.length = n + maxNUnavail) :
    (shiftIn n idxs x).take (n - 1) = idxs.take (n - 1) := by
  rw [shiftIn_eq hn hlen, List.take_left' (by rw [List.length_take]; omega)]

theorem take_shiftIn {n x : Nat} (hn : 0 < n) (hlen : idxs.length = n + maxNUnavail) :
    (shiftIn n idxs x).take n = idxs.take (n - 1) ++ [x] := by
  have htake : (idxs.take (n - 1)).length = n - 1 := by
    rw [List.length_take]
    omega
  rw [shiftIn_eq hn hlen, List.take_append, htake, show n - (n - 1) = 1 by omega,
    List.take_of_length_le (by omega)]
  rfl

/-- The server stands before the last of the `n` servers, and the next ones have moved on. -/
theorem getElem?_shiftIn {n x : Nat} (hn : 0 < n) (hlen : idxs.length = n + maxNUnavail) :
    (shiftIn n idxs x)[n - 1]? = some x ∧
      ∀ i < maxNUnavail, (shiftIn n idxs x)[n + i]? = idxs[n - 1 + i]? := by
  have htake : (idxs.take (n - 1)).length = n - 1 := by
    rw [List.length_take]
    omega
  rw [shiftIn_eq hn hlen]
  constructor
  · rw [List.getElem?_append_right (by omega), htake, Nat.sub_self, List.getElem?_cons_zero]
  · intro i hi
    rw [List.getElem?_append_right (by omega), htake, show n + i - (n - 1) = i + 1 by omega,
      List.getElem?_cons_succ, List.getElem?_dropLast, List.length_drop, if_pos (by omega),
      List.getElem?_drop]

theorem row_shiftIn {x : Nat} (hn : 0 < p.n) (H : Row p s idxs) (hlt : x < p.nServer)
    (hav : (s.servers x).available = true) (hnew : x ∉ idxs.take (p.n - 1)) :
    Row p s (shiftIn p.n idxs x) := by
  have hlen : (idxs.take (p.n - 1)).length = p.n - 1 := by
    rw [List.length_take, H.length]
    omega
  have hmem : ∀ y ∈ shiftIn p.n idxs x, y = x ∨ y ∈ idxs := by
    intro y hy
    rw [shiftIn_eq hn H.length] at hy
    rcases List.mem_append.mp hy with hy | hy
    · exact .inr (List.mem_of_mem_take hy)
    · rcases List.mem_cons.mp hy with rfl | hy
      · exact .inl rfl
      · exact .inr (List.mem_of_mem_drop (List.mem_of_mem_dropLast hy))
  refine ⟨?_, fun y hy => ?_, fun y hy => ?_, ?_⟩
  · rw [shiftIn_eq hn H.length, List.length_append, hlen, List.length_cons, List.length_dropLast,
      List.length_drop, H.length]
    have : maxNUnavail = 2 := rfl
    omega
  · rcases hmem y hy with rfl | hy
    · exact hlt
    · exact H.lt y hy
  · rcases hmem y hy with rfl | hy
    · exact hav
    · exact H.available y hy
  · rw [take_shiftIn hn H.length]
    refine List.nodup_append.mpr ⟨?_, by simp, ?_⟩
    · have hsub : (idxs.take (p.n - 1)).Sublist (idxs.take p.n) :=
        (List.take_prefix_take_left (by omega)).sublist
      exact H.nodup.sublist hsub
    · rintro a ha b hb rfl
      obtain rfl : a = x := by simpa using hb
      exact hnew ha

section
variable {dataServers : Nat → List Nat} {serverCap : Int}

/-- The arcs from the source, those from servers to buckets, and those to the sink. -/
theorem mem_parityArcs {a : Arc} (h : a ∈ parityArcs p dataServers serverCap) :
    (∃ i < p.nServer, a.tail = 0 ∧ a.head = 2 + i ∧ 0 ≤ a.capacity ∧
      (0 < a.capacity → ∃ b, i ∈ dataServers b)) ∨
    (∃ i < p.nServer, ∃ b, i ∉ dataServers b ∧ a = ⟨2 + i, 2 + p.nServer + b, 1⟩) ∨
    ∃ b, a = ⟨2 + p.nServer + b, 1, 1⟩ := by
  rcases List.mem_append.mp h with h | h
  · obtain ⟨i, hi, h⟩ := List.mem_flatMap.mp h
    rcases List.mem_cons.mp h with rfl | h
    · refine .inl ⟨i, List.mem_range.mp hi, rfl, rfl, ?_, fun hpos => ?_⟩
      · dsimp only
        split <;> omega
      · by_cases hnil : ((List.range nBucket).filter fun b => decide (i ∈ dataServers b)) = []
        · dsimp only at hpos
          rw [if_pos hnil] at hpos
          split at hpos <;> omega
        · obtain ⟨b, hb⟩ := List.exists_mem_of_ne_nil _ hnil
          exact ⟨b, by simpa using (List.mem_filter.mp hb).2⟩
    · obtain ⟨b, hb, rfl⟩ := List.mem_map.mp h
      exact .inr (.inl ⟨i, List.mem_range.mp hi, b, by simpa using (List.mem_filter.mp hb).2, rfl⟩)
  · obtain ⟨b, -, rfl⟩ := List.mem_map.mp h
    exact .inr (.inr ⟨b, rfl⟩)

theorem capacity_nonneg {a : Arc} (h : a ∈ parityArcs p dataServers serverCap) :
    0 ≤ a.capacity := by
  rcases mem_parityArcs h with ⟨i, -, -, -, hcap, -⟩ | ⟨i, -, b, -, rfl⟩ | ⟨b, rfl⟩
  · exact hcap
  · exact Int.one_nonneg
  · exact Int.one_nonneg

/-- An arc with flow from a server to a bucket: the server has data of another bucket. -/
theorem parity_arc (hflow : FindsFlow p.maxFlow) {a : Arc} {k : Nat}
    (ha : (parityArcs p dataServers serverCap)[k]? = some a) (htail : a.tail ≠ 0)
    (hhead : a.head ≠ 1) (hpos : 0 < p.maxFlow (parityArcs p dataServers serverCap) k) :
    ∃ i < p.nServer, ∃ b, i ∉ dataServers b ∧ a = ⟨2 + i, 2 + p.nServer + b, 1⟩ ∧
      ∃ b', i ∈ dataServers b' := by
  have hfeasible := hflow (parityArcs p dataServers serverCap) fun a ha => capacity_nonneg ha
  obtain ⟨hk, hget⟩ := List.getElem?_eq_some_iff.mp ha
  rcases mem_parityArcs (List.mem_of_getElem? ha) with h | ⟨i, hi, b, hb, rfl⟩ | ⟨b, rfl⟩
  · obtain ⟨i, -, htail', -⟩ := h
    exact absurd htail' htail
  · refine ⟨i, hi, b, hb, rfl, ?_⟩
    -- the flow comes over the arc from the source
    have hi₀ : (network (parityArcs p dataServers serverCap)).tail ⟨k, hk⟩ = 2 + i := by
      change (parityArcs p dataServers serverCap)[k].tail = 2 + i
      rw [hget]
    obtain ⟨j, hj, hjpos⟩ := hfeasible.exists_in (i := ⟨k, hk⟩) (by rw [hi₀]; omega)
      (by rw [hi₀]; omega) hpos
    rw [hi₀] at hj
    have hcap := Int.lt_of_lt_of_le hjpos (hfeasible.le j)
    have hj : (parityArcs p dataServers serverCap)[j.1].head = 2 + i := hj
    rcases mem_parityArcs (List.getElem_mem j.isLt) with
      ⟨i', hi', -, hhead', -, hb'⟩ | ⟨i', hi', b', -, heq⟩ | ⟨b', heq⟩
    · obtain rfl : i' = i := by omega
      exact hb' hcap
    · rw [heq] at hj
      dsimp only at hj
      omega
    · rw [heq] at hj
      dsimp only at hj
      omega
  · exact absurd rfl hhead

end

/-- Rebalancing keeps the rows. -/
theorem applyFlow_row {serverCap : Int} {mapping : Nat → Option (List Nat)} (hn : 0 < p.n)
    (hflow : FindsFlow p.maxFlow) (H : ∀ b idxs, mapping b = some idxs → Row p s idxs)
    {arcs : List Arc}
    (harcs : arcs = parityArcs p (fun b => ((mapping b).getD []).take (p.n - 1)) serverCap)
    {b : Nat} (h : applyFlow p (p.maxFlow arcs) arcs mapping b = some idxs) : Row p s idxs := by
  have hinv : ∀ b idxs, applyFlow p (p.maxFlow arcs) arcs mapping b = some idxs →
      Row p s idxs ∧ idxs.take (p.n - 1) = ((mapping b).getD []).take (p.n - 1) := by
    unfold applyFlow
    refine List.foldlRecOn (motive := fun mapping' : Nat → Option (List Nat) => ∀ b idxs, mapping' b = some idxs →
      Row p s idxs ∧ idxs.take (p.n - 1) = ((mapping b).getD []).take (p.n - 1)) _ _ ?_ ?_
    · intro b idxs h
      exact ⟨H b idxs h, by rw [h, Option.getD_some]⟩
    · rintro mapping' H' ⟨a, k⟩ hak
      dsimp only
      split
      · next hflow' =>
        obtain ⟨htail, hhead, hpos⟩ := hflow'
        have ha := List.mem_zipIdx_iff_getElem?.mp hak
        dsimp only at ha
        rw [harcs] at ha hpos
        obtain ⟨i, hi, b, hb, rfl, b', hb'⟩ := parity_arc hflow ha htail hhead hpos
        intro c idxs h
        simp only [show 2 + p.nServer + b - 2 - p.nServer = b by omega,
          show 2 + i - 2 = i by omega] at h
        by_cases hc : c = b
        · subst hc
          rw [Function.update_self] at h
          obtain ⟨idxs₀, hidxs₀, rfl⟩ := Option.map_eq_some_iff.mp h
          obtain ⟨hrow, htake⟩ := H' c idxs₀ hidxs₀
          have hav : (s.servers i).available = true := by
            cases hm : mapping b' with
            | none => rw [hm] at hb'; simp at hb'
            | some l =>
              rw [hm, Option.getD_some] at hb'
              exact (H b' l hm).available i (List.mem_of_mem_take hb')
          refine ⟨row_shiftIn hn hrow hi hav (by rw [htake]; exact hb), ?_⟩
          rw [take_pred_shiftIn hn hrow.length, htake]
        · rw [Function.update_of_ne hc] at h
          exact H' c idxs h
      · exact H'
  exact (hinv b idxs h).1

/-! ## Steps -/

theorem Row.of_available (hav : ∀ x, (s'.servers x).available = (s.servers x).available)
    (H : Row p s idxs) : Row p s' idxs :=
  ⟨H.length, H.lt, fun x hx => by rw [hav]; exact H.available x hx, H.nodup⟩

theorem Row.prevRow (H : Row p s idxs) : PrevRow p idxs := ⟨H.length, H.lt⟩

/-- The buckets get servers with capacity, which are up. -/
theorem populateBuckets_row {l : List Nat} (s₁ : Cluster) {cap : Nat → Nat}
    {r : Cluster × (Nat → Nat)} (hcap : ∀ x, 0 < cap x → (s.servers x).available = true)
    (H : ∀ b idxs, s₁.chMapping b = some idxs → Row p s idxs)
    (h : l.foldlM (populateBucket p) (s₁, cap) = .ok r) {b : Nat}
    (hb : r.1.chMapping b = some idxs) : Row p s idxs := by
  induction l generalizing s₁ cap with
  | nil => cases h; exact H b idxs hb
  | cons c l ih =>
    rw [List.foldlM_cons] at h
    obtain ⟨⟨s₂, cap₂⟩, hs₂, h⟩ := bind_eq_ok h
    unfold populateBucket at hs₂
    cases hget : p.ring.getServers p.hash c (p.n + maxNUnavail) cap with
    | error e => rw [hget] at hs₂; cases hs₂
    | ok r' =>
      obtain ⟨idxs', lead, cap'⟩ := r'
      rw [hget] at hs₂
      cases hs₂
      obtain ⟨hlen, hnodup, hservers, hshrinks⟩ := Ring.getServers_spec hget
      refine ih _ (fun x hx => hcap x (Nat.lt_of_lt_of_le hx (hshrinks x))) ?_ h
      intro b' idxs₁ hb'
      dsimp only at hb'
      by_cases hbc : b' = c
      · subst hbc
        rw [Function.update_self] at hb'
        cases hb'
        exact ⟨hlen, fun x hx => (hservers x hx).1, fun x hx => hcap x (hservers x hx).2,
          hnodup.sublist (List.take_sublist _ _)⟩
      · rw [Function.update_of_ne hbc] at hb'
        exact H b' idxs₁ hb'

section
variable (hn : 0 < p.n) (hflow : p.parityRebalance = true → FindsFlow p.maxFlow)
include hn hflow

theorem mappingOk_populate (H : MappingOk p s) (h : populateHashMapping p s = .ok s') :
    MappingOk p s' := by
  obtain ⟨hservers, hprev⟩ := populateHashMapping_servers h
  have hrow : ∀ b idxs, s'.chMapping b = some idxs → Row p s idxs := by
    obtain ⟨sc, hsc, h⟩ := bind_eq_ok h
    have hcap : ∀ x, 0 < (if (s.servers x).available then nBucket * p.n else 0) →
        (s.servers x).available = true := by
      intro x hx
      by_contra hav
      rw [if_neg hav] at hx
      exact Nat.lt_irrefl 0 hx
    have hloop : ∀ b idxs, sc.1.chMapping b = some idxs → Row p s idxs :=
      fun b idxs hb =>
        populateBuckets_row { s with nBucketPerServer := fun _ => 0 } hcap H.row hsc hb
    split at h
    · next hreb =>
      unfold findParityMapping at h
      split at h
      · cases h
      · dsimp only at h
        split at h
        · cases h
        · cases h
          exact fun b idxs hb => applyFlow_row hn (hflow hreb) hloop rfl hb
    · cases h; exact hloop
  refine ⟨fun b idxs hb => (hrow b idxs hb).of_available fun x => by rw [hservers], ?_⟩
  rw [hprev]
  exact H.prev

omit hn hflow in
theorem mappingOk_switched {server : Nat} {b : Bool} (H : MappingOk p s)
    (h : Switched s server b s') : MappingOk p s' where
  row c idxs hc := by rw [h.chMapping] at hc; cases hc
  prev c prev hc := by rw [h.prevChMapping] at hc; exact (H.row c prev hc).prevRow

theorem mappingOk_step {op : Op} (H : MappingOk p s) (h : step p s op = .ok s') :
    MappingOk p s' := by
  cases op with
  | get req d =>
    obtain ⟨hit, hget⟩ := get_of_step h
    obtain ⟨m, -, hserved⟩ := get_ends.ok hget
    obtain ⟨ws, heff⟩ := hserved.effect
    refine ⟨fun b idxs hb => ?_, ?_⟩
    · rw [heff.chMapping] at hb
      exact (H.row b idxs hb).of_available heff.writes.available
    · rw [heff.prevChMapping]
      exact H.prev
  | failOneServer server => exact mappingOk_switched H (failOneServer_switched h)
  | recoverOneServer server =>
    rcases recoverOneServer_switched h with rfl | h
    · exact H
    · exact mappingOk_switched H h
  | populateHashMapping => exact mappingOk_populate hn hflow H h

/-- **The mapping** in every reachable state. -/
theorem mappingOk_run {ops : List Op} (hnew : new p = .ok s₀) (hrun : run p ops s₀ = .ok s) :
    MappingOk p s := by
  refine Steps.inv_of_run (C := fun _ _ _ => True)
    (fun s op s' H h _ => mappingOk_step hn hflow H h) ?_ (Steps.of_forall fun _ _ _ _ => trivial)
    hrun
  exact mappingOk_populate hn hflow ⟨fun _ _ h => (by cases h), fun _ _ h => (by cases h)⟩ hnew

end

/-! ## The caches -/

/-- The caches have the configured algorithm and size. -/
def CachesOk (p : Params) (s : Cluster) : Prop :=
  ∀ x, (s.servers x).cache.alg = p.alg ∧ (s.servers x).cache.cacheSize = p.cacheSizes x

theorem cachesOk_writes {id : Nat} {ws : List Write} {f g : Nat → CacheServer}
    (h : Writes p id ws f g) (x : Nat) :
    (g x).cache.alg = (f x).cache.alg ∧ (g x).cache.cacheSize = (f x).cache.cacheSize := by
  refine h.induct (P := fun c => c.cache.alg = (f x).cache.alg ∧
    c.cache.cacheSize = (f x).cache.cacheSize) (fun w _ c t c' H hput => ?_) ⟨rfl, rfl⟩
  cases hav : c.available with
  | true =>
    have hput := CacheServer.put_available hav hput
    exact ⟨hput.alg.trans H.1, hput.cacheSize.trans H.2⟩
  | false =>
    obtain ⟨-, rfl⟩ := CacheServer.put_unavailable hav hput
    exact H

theorem cachesOk_run {ops : List Op} (hnew : new p = .ok s₀) (hrun : run p ops s₀ = .ok s) :
    CachesOk p s := by
  refine Steps.inv_of_run (C := fun _ _ _ => True) (fun s op s' H h _ x => ?_) (fun x => ?_)
    (Steps.of_forall fun _ _ _ _ => trivial) hrun
  · rcases step_cases h with ⟨req, d, m, hit, -, -, -, hserved⟩ | ⟨-, hcache⟩
    · obtain ⟨ws, heff⟩ := hserved.effect
      obtain ⟨halg, hsize⟩ := cachesOk_writes heff.writes x
      exact ⟨halg.trans (H x).1, hsize.trans (H x).2⟩
    · rw [hcache]
      exact H x
  · rw [new_servers hnew]
    exact ⟨rfl, rfl⟩

end

end Cluster

end C2DN.Simulator
