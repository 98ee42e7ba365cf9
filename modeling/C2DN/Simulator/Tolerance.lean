import C2DN.Simulator.ChunkHits
import C2DN.Simulator.Determined
import C2DN.Simulator.Repeat

/-!
# Failures that the code tolerates

A request on the chunk path leaves all `n` chunks of its object on the mapped servers. If servers fail
after it, those of them that are up come first in the new row of the bucket. So the next request is a
hit as long as at most `n - k` of these servers are down, whatever servers it draws; if no other
servers have chunks of the object, it is not a hit otherwise.
-/

namespace C2DN.Simulator.Cluster

section
variable {p : Params} {s s₀ s₁ s₂ : Cluster} {m : Mapped} {req : Request} {d : Draws} {id b : Nat}
  {idxs : List Nat}

/-- All chunks are on the mapped servers, one on each. -/
def InPlace (p : Params) (s : Cluster) (id : Nat) (idxs : List Nat) : Prop :=
  ((idxs.take p.n).map (heldChunk s id)).Perm ((List.range p.n).map some)

/-- A call that is not a request. -/
def Op.Switches : Op → Prop
  | .get _ _ => False
  | _ => True

/-- The first `n` of these servers that are down. -/
def lost (p : Params) (s : Cluster) (idxs : List Nat) : List Nat :=
  (idxs.take p.n).filter fun x => !(s.servers x).available

/-- The first `n` of these servers that are up. -/
def survivors (p : Params) (s : Cluster) (idxs : List Nat) : List Nat :=
  (idxs.take p.n).filter fun x => (s.servers x).available

theorem length_survivors (hlen : p.n ≤ idxs.length) :
    (survivors p s idxs).length + (lost p s idxs).length = p.n := by
  have h := List.length_eq_length_filter_add (l := idxs.take p.n) fun x => (s.servers x).available
  rw [List.length_take, Nat.min_eq_left hlen] at h
  exact h.symm

/-- The caches after a failure, a recovery or a new mapping. -/
theorem cache_of_switches {ops : List Op} (hops : ∀ op ∈ ops, op.Switches)
    (hrun : run p ops s = .ok s₂) (x : Nat) : (s₂.servers x).cache = (s.servers x).cache := by
  refine Steps.inv_of_run (I := fun s' : Cluster => (s'.servers x).cache = (s.servers x).cache)
    (C := fun _ op _ => op.Switches) (fun s' op s'' H h hop => ?_) rfl (Steps.of_mem hops) hrun
  rcases step_cases h with ⟨req, d, m, hit, rfl, -⟩ | ⟨-, hcache⟩
  · exact absurd hop id
  · rw [hcache x, H]

/-- Only the chunk path returns this type. -/
theorem Served.chunkHit_of_type {hit : ClusterHit} (h : Served p s req m s₁ hit)
    (htype : hit.objType = .chunkObj) : ∃ x r, s.findObj p m req.objId = .ok (some (x, .chunkObj)) ∧
      ChunkHit p s m req.objId (p.chunkObjSize req.objSize) r ∧ SameServers r.1 s₁ := by
  cases h with
  | fullHit => cases htype
  | chunkHit found hit same => exact ⟨_, _, found, hit, same⟩
  | uncounted _ unknown _ =>
    dsimp only at htype
    rcases unknown with h | h <;> rw [h] at htype <;> cases htype
  | refused => cases htype
  | fullMiss => cases htype
  | chunkMiss => cases htype

/-- A request that is served on the chunk path leaves all chunks in place. -/
theorem inPlace_of_chunkHit (R : ChunkReady p s req) (hrow : Row p s m.serverIdxs)
    {r : Cluster × Bool × Nat} (hit : ChunkHit p s m req.objId (p.chunkObjSize req.objSize) r)
    (hsame : SameServers r.1 s₁) : InPlace p s₁ req.objId m.serverIdxs := by
  have hlen : p.n ≤ m.serverIdxs.length := by rw [hrow.length]; exact Nat.le_add_right _ _
  have hrest := R.restorable hrow
  have hperm := (restored_of_effect hlen hrow.nodup hrest.small hrest.ecn hrest.available
    (hit.effect.trans_same hsame)).perm
  rwa [length_mapped hlen] at hperm

/-! ## Fewer servers -/

/-- No server has come up. -/
def OnlyFailed (p : Params) (s s' : Cluster) : Prop :=
  ∀ x < p.nServer, (s'.servers x).available = true → (s.servers x).available = true

/-- The servers of a bucket are the former ones without those that have failed. -/
theorem clockwiseServers_filter (h : OnlyFailed p s s₂) (b : Nat) : clockwiseServers p s₂ b =
    (clockwiseServers p s b).filter fun x => (s₂.servers x).available := by
  rw [clockwiseServers, clockwiseServers, ← firsts_filter, List.filter_filter]
  refine congrArg firsts (List.filter_congr fun x hx => ?_)
  obtain ⟨i, -, rfl⟩ := List.mem_map.mp hx
  have hup := h _ (p.ring.serverAt_lt (p.ring.startOf (p.hash b % 2 ^ 32) + i))
  rw [Bool.eq_iff_iff, Bool.and_eq_true]
  exact ⟨fun h => ⟨h, hup h⟩, fun h => h.1⟩

/-- The mapped servers that are still up come first. -/
theorem survivors_prefix (h : OnlyFailed p s s₂) (b : Nat) :
    ∃ rest, (clockwiseRow p s₂ b).take p.n = survivors p s₂ (clockwiseRow p s b) ++ rest := by
  have hsplit : clockwiseServers p s₂ b = survivors p s₂ (clockwiseRow p s b) ++
      ((clockwiseServers p s b).drop p.n).filter fun x => (s₂.servers x).available := by
    rw [survivors, take_clockwiseRow (Nat.le_add_right _ _), ← List.filter_append,
      List.take_append_drop, clockwiseServers_filter h]
  have hle : (survivors p s₂ (clockwiseRow p s b)).length ≤ p.n :=
    (List.length_filter_le _ _).trans (List.length_take_le _ _)
  rw [take_clockwiseRow (Nat.le_add_right _ _), hsplit, List.take_append,
    List.take_of_length_le hle]
  exact ⟨_, rfl⟩

/-! ## The chunks that are left -/

section
variable (hplace : InPlace p s id idxs)
  (hcache : ∀ x, (s₂.servers x).cache = (s.servers x).cache)
  (hup : ∀ x ∈ idxs.take p.n, (s.servers x).available = true)
include hplace hcache hup

theorem heldChunk_survivor {x : Nat} (hx : x ∈ survivors p s₂ idxs) :
    heldChunk s₂ id x = heldChunk s id x ∧ heldChunk s id x ≠ none := by
  obtain ⟨hmem, hav⟩ := List.mem_filter.mp hx
  refine ⟨?_, fun hnone => ?_⟩
  · rw [heldChunk, heldChunk, if_pos hav, if_pos (hup x hmem), hcache]
  · have h := hplace.mem_iff.mp (List.mem_map_of_mem (f := heldChunk s id) hmem)
    rw [hnone] at h
    simp at h

/-- Each of them has a chunk of its own. -/
theorem heldIds_survivors : (heldIds s₂ id (survivors p s₂ idxs)).Nodup ∧
    (heldIds s₂ id (survivors p s₂ idxs)).length = (survivors p s₂ idxs).length := by
  have hheld : ∀ x ∈ survivors p s₂ idxs, heldChunk s₂ id x = heldChunk s id x ∧
      heldChunk s id x ≠ none := fun x hx => heldChunk_survivor hplace hcache hup hx
  constructor
  · have hperm : (heldIds s id (idxs.take p.n)).Perm (List.range p.n) := by
      have h := hplace.filterMap fun j => j
      rw [List.filterMap_map, List.filterMap_map] at h
      simpa [heldIds, Function.comp_def] using h
    have hsub : (heldIds s id (survivors p s₂ idxs)).Sublist (heldIds s id (idxs.take p.n)) :=
      List.filter_sublist.filterMap _
    have heq : heldIds s₂ id (survivors p s₂ idxs) = heldIds s id (survivors p s₂ idxs) :=
      List.filterMap_congr fun x hx => (hheld x hx).1
    rw [heq]
    exact (hperm.nodup_iff.mpr List.nodup_range).sublist hsub
  · rw [heldIds, List.length_filterMap_eq_countP, List.countP_eq_length]
    intro x hx
    rw [(hheld x hx).1]
    exact Option.isSome_iff_ne_none.mpr (hheld x hx).2

end

/-- A request does not evict its object where the cache is not over its size. -/
theorem Ready.safe (R : Ready p s req) (H : Admissible p) (hlimits : WithinLimits p)
    (hcodes : codes p req.objSize = true)
    (hroom : p.alg = .fifo → ∀ x, (s.servers x).cache.occupiedSize ≤ (s.servers x).cache.cacheSize)
    {x : Nat} (hx : x < p.nServer) :
    (s.servers x).cache.Safe req.objId (p.chunkObjSize req.objSize) := by
  refine ⟨(R.chunkReady H hlimits hcodes).fits x hx, ?_⟩
  cases halg : p.alg with
  | lru => exact .inl ((R.caches x).1.trans halg)
  | fifo =>
    refine .inr ⟨hroom halg x, fun o ho => ?_⟩
    rw [(R.typed x o ho).objSize, pieceSize, if_pos hcodes]

/-! ## The next request -/

/-- What holds when servers have failed after all chunks of an object were in place. -/
structure Degraded (p : Params) (req : Request) (b : Nat) (s s₂ : Cluster) : Prop where
  ready : Ready p s₂ req
  codes : codes p req.objSize = true
  row : Row p s (clockwiseRow p s b)
  place : InPlace p s req.objId (clockwiseRow p s b)
  caches : ∀ x, (s₂.servers x).cache = (s.servers x).cache
  failed : OnlyFailed p s s₂
  mapped : s₂.chMapping b = some (clockwiseRow p s₂ b)

section
variable (D : Degraded p req b s s₂)
include D

theorem Degraded.up : ∀ x ∈ (clockwiseRow p s b).take p.n, (s.servers x).available = true :=
  fun x hx => D.row.available x (List.mem_of_mem_take hx)

theorem Degraded.length : (survivors p s₂ (clockwiseRow p s b)).length +
    (lost p s₂ (clockwiseRow p s b)).length = p.n :=
  length_survivors (by rw [D.row.length]; exact Nat.le_add_right _ _)

/-- `k` servers that are left have enough chunks. -/
theorem Degraded.hasChunks (H : Admissible p) (hlimits : WithinLimits p)
    (hroom : p.alg = .fifo → ∀ x, (s₂.servers x).cache.occupiedSize ≤ (s₂.servers x).cache.cacheSize)
    (hlost : (lost p s₂ (clockwiseRow p s b)).length ≤ p.n - p.k) :
    HasChunks p s₂ req (clockwiseRow p s₂ b) := by
  have R := D.ready.chunkReady H hlimits D.codes
  have hrow₂ := R.mapping.row b _ D.mapped
  have hlen₂ : p.n ≤ (clockwiseRow p s₂ b).length := by rw [hrow₂.length]; exact Nat.le_add_right _ _
  obtain ⟨hnodup, hheld⟩ := heldIds_survivors D.place D.caches D.up
  obtain ⟨rest, hpre⟩ := survivors_prefix D.failed b
  have hlen := D.length
  have htwo := R.two
  have hlt := R.lt
  refine ⟨fun i hi => ?_, ?_, fun i hi => ?_⟩
  · have hsurvivor : (clockwiseRow p s₂ b).getD i 0 ∈ survivors p s₂ (clockwiseRow p s b) := by
      rw [← getD_take (by omega : i < p.n), hpre, List.getD_append _ _ _ _ (by omega),
        List.getD_eq_getElem _ _ (by omega)]
      exact List.getElem_mem _
    obtain ⟨heq, hne⟩ := heldChunk_survivor D.place D.caches D.up hsurvivor
    rw [heq]
    exact hne
  · have hsub : heldIds s₂ req.objId (survivors p s₂ (clockwiseRow p s b)) ⊆
        (heldIds s₂ req.objId ((clockwiseRow p s₂ b).take p.n)).dedup := by
      intro j hj
      rw [List.mem_dedup, hpre, heldIds, List.filterMap_append]
      exact List.mem_append_left _ hj
    have hle := (hnodup.subperm hsub).length_le
    omega
  · refine D.ready.safe H hlimits D.codes hroom (hrow₂.lt _ ?_)
    have hi := List.mem_range.mp (List.mem_filter.mp hi).1
    rw [List.length_take, Nat.min_eq_left hlen₂] at hi
    rw [List.getD_eq_getElem _ _ (by omega)]
    exact List.getElem_mem _

/-- Where no other server has a chunk, only those that are left count. -/
theorem Degraded.hits_le (hother : ∀ x, x ∉ (clockwiseRow p s b).take p.n →
    heldChunk s₂ req.objId x = none) (xs : List Nat) (hm : m.serverIdxs = clockwiseRow p s₂ b) :
    hitsWith p s₂ m req.objId xs ≤ (survivors p s₂ (clockwiseRow p s b)).length := by
  obtain ⟨rest, hpre⟩ := survivors_prefix D.failed b
  -- a server with a chunk is one of those that are left
  have hsurvivor : ∀ x j, heldChunk s₂ req.objId x = some j →
      x ∈ survivors p s₂ (clockwiseRow p s b) := by
    intro x j hj
    refine List.mem_filter.mpr ⟨?_, ?_⟩
    · by_contra hnot
      rw [hother x hnot] at hj
      cases hj
    · by_contra hdown
      rw [heldChunk, if_neg hdown] at hj
      cases hj
  have hnew : newIds s₂ req.objId (m.serverIdxs.take p.n) xs = [] := by
    refine List.filter_eq_nil_iff.mpr fun j hj => ?_
    obtain ⟨x, -, hx⟩ := mem_heldIds.mp hj
    have hmem : j ∈ heldIds s₂ req.objId (m.serverIdxs.take p.n) := by
      rw [hm, hpre]
      exact mem_heldIds.mpr ⟨x, List.mem_append_left _ (hsurvivor x j hx), hx⟩
    simpa using hmem
  have hsub : (heldIds s₂ req.objId (m.serverIdxs.take p.n)).dedup ⊆
      heldIds s₂ req.objId (survivors p s₂ (clockwiseRow p s b)) := by
    intro j hj
    obtain ⟨x, -, hx⟩ := mem_heldIds.mp (List.mem_dedup.mp hj)
    exact mem_heldIds.mpr ⟨x, hsurvivor x j hx, hx⟩
  rw [hitsWith, hnew, List.length_nil, Nat.add_zero]
  exact ((List.nodup_dedup _).subperm hsub).length_le.trans (List.length_filterMap_le _ _)

/-- With fewer than `k` servers left the request is not a hit. -/
theorem Degraded.not_hit (hother : ∀ x, x ∉ (clockwiseRow p s b).take p.n →
    heldChunk s₂ req.objId x = none) (hlost : p.n - p.k < (lost p s₂ (clockwiseRow p s b)).length)
    (hk : p.k ≤ p.n) (hb : bucketOf p req = .ok b) {r : Cluster × ClusterHit}
    (hget : s₂.get p req d = .ok r) : r.2.isHit = false := by
  obtain ⟨m, hm, hserved⟩ := get_ends.ok hget
  obtain ⟨hb', hmap⟩ := mapped_row hm
  obtain rfl := Except.ok.inj (hb.symm.trans hb')
  have hrow : m.serverIdxs = clockwiseRow p s₂ m.bucketId :=
    Option.some.inj (hmap.symm.trans D.mapped)
  have hlen := D.length
  generalize r.1 = s', r.2 = hit at hserved
  cases hserved with
  | fullHit found _ _ =>
    have htype := D.ready.type_of_found found
    rw [if_pos D.codes] at htype
    cases htype
  | chunkHit found hit same =>
    have hle := D.hits_le hother (consultedExtras p s₂ m req.objId) hrow
    dsimp only
    rw [hit.isHit, hit.hits]
    exact decide_eq_false (by omega)
  | uncounted | refused | fullMiss | chunkMiss => rfl

end

/-- The state after a request that is served on the chunk path and failures. -/
theorem degraded_of_run (H : Admissible p) (hlimits : WithinLimits p)
    (hreb : p.parityRebalance = false) (hs : p.ring.Sorted) (hc : p.ring.Complete)
    {ops switches : List Op} (hnew : new p = .ok s₀) (hrun : run p ops s₀ = .ok s)
    (hsize : ∀ op ∈ ops, SizedFor req.objId req.objSize op)
    (hfits : ∀ x < p.nServer, pieceSize p req.objSize ≤ p.cacheSizes x)
    {r : Cluster × ClusterHit} (hget : s.get p req d = .ok r) (hchunk : r.2.objType = .chunkObj)
    (hswitches : ∀ op ∈ switches, op.Switches) (hrun₂ : run p switches r.1 = .ok s₂)
    (hb : bucketOf p req = .ok b) (hlt : b < nBucket) (hmap : s.chMapping b = some idxs)
    (hfailed : OnlyFailed p s s₂) (hmapped : s₂.chMapping b ≠ none) :
    idxs = clockwiseRow p r.1 b ∧ Degraded p req b r.1 s₂ := by
  have hflow : p.parityRebalance = true → FindsFlow p.maxFlow := fun h => nomatch hreb.symm.trans h
  have hn : 0 < p.n := Nat.lt_of_lt_of_le (by unfold leads; split <;> decide) H.leads_le
  have hrowOf : ∀ s', mappedRow p s' b = clockwiseRow p s' b := fun s' =>
    if_neg (by rw [hreb]; exact Bool.false_ne_true)
  -- the state before the request, after it, and after the failures
  have R : Ready p s req := ⟨mappingOk_run hn hflow hnew hrun,
    typedFor_run H.k_le hnew hsize hrun, cachesOk_run hnew hrun, hfits⟩
  have hstep : step p s (.get req d) = .ok r.1 := by rw [step, hget]; rfl
  have hup := run_upToDate hn hs hc hflow hnew hrun
  have hup₁ := step_upToDate hn hs hc hflow hup hstep
  have hup₂ : UpToDate p s₂ :=
    inv_of_run (fun _ _ _ H h => step_upToDate hn hs hc hflow H h) hup₁ hrun₂
  obtain ⟨m, hm, hserved⟩ := get_ends.ok hget
  obtain ⟨ws, heff⟩ := hserved.effect
  obtain ⟨hb', hmap'⟩ := mapped_row hm
  obtain rfl := Except.ok.inj (hb.symm.trans hb')
  obtain rfl := Option.some.inj (hmap.symm.trans hmap')
  have hmap₁ : r.1.chMapping m.bucketId = some m.serverIdxs := heff.chMapping ▸ hmap
  have hidxs : m.serverIdxs = clockwiseRow p r.1 m.bucketId := by
    rw [← hrowOf]
    exact hup₁ _ hlt _ hmap₁
  have hrow : Row p s m.serverIdxs := R.mapping.row _ _ hmap
  have hcaches : ∀ x, (s₂.servers x).cache = (r.1.servers x).cache :=
    cache_of_switches hswitches hrun₂
  obtain ⟨x, rhit, hfound, hchunkHit, hsame⟩ := hserved.chunkHit_of_type hchunk
  have hcodes : codes p req.objSize = true := by
    have htype := R.type_of_found hfound
    split at htype
    · assumption
    · cases htype
  have hplace : InPlace p r.1 req.objId m.serverIdxs :=
    inPlace_of_chunkHit (R.chunkReady H hlimits hcodes) hrow hchunkHit hsame
  refine ⟨hidxs, ?_, hcodes, ?_, hidxs ▸ hplace, hcaches, ?_, ?_⟩
  · have hsized : SizedFor req.objId req.objSize (.get req d) := fun _ => rfl
    have hmapping₁ := mappingOk_step hn hflow R.mapping hstep
    refine ⟨inv_of_run (fun _ _ _ H h => mappingOk_step hn hflow H h) hmapping₁ hrun₂, fun x o ho => ?_,
      fun x => ?_, hfits⟩
    · rw [hcaches] at ho
      exact typedFor_step H.k_le R.typed hsized hstep x o ho
    · obtain ⟨halg, hsize⟩ := cachesOk_writes heff.writes x
      rw [hcaches, halg, hsize]
      exact R.caches x
  · rw [← hidxs]
    exact hrow.of_available heff.writes.available
  · intro x hx hav
    rw [heff.writes.available]
    exact hfailed x hx hav
  · obtain ⟨idxs₂, hidxs₂⟩ := Option.ne_none_iff_exists'.mp hmapped
    rw [hidxs₂, hup₂ _ hlt _ hidxs₂, hrowOf]

/-- **Tolerance.** After a request that is served on the chunk path, servers fail and the buckets are
mapped again. The next request for the object is a hit if at most `n - k` of the servers of its bucket
are down; if no other servers have chunks of the object, only then. -/
theorem get_after_failures (H : Admissible p) (hlimits : WithinLimits p)
    (hreb : p.parityRebalance = false) (hs : p.ring.Sorted) (hc : p.ring.Complete)
    {ops switches : List Op} (hnew : new p = .ok s₀) (hrun : run p ops s₀ = .ok s)
    (hsize : ∀ op ∈ ops, SizedFor req.objId req.objSize op)
    (hfits : ∀ x < p.nServer, pieceSize p req.objSize ≤ p.cacheSizes x)
    {r : Cluster × ClusterHit} (hget : s.get p req d = .ok r) (hchunk : r.2.objType = .chunkObj)
    (hswitches : ∀ op ∈ switches, op.Switches) (hrun₂ : run p switches r.1 = .ok s₂)
    (hroom : p.alg = .fifo → ∀ x, (s₂.servers x).cache.occupiedSize ≤ (s₂.servers x).cache.cacheSize)
    (hb : bucketOf p req = .ok b) (hlt : b < nBucket) (hmap : s.chMapping b = some idxs)
    (hfailed : OnlyFailed p s s₂) (hmapped : s₂.chMapping b ≠ none) (d' : Draws) :
    ((lost p s₂ idxs).length ≤ p.n - p.k → ∃ r', s₂.get p req d' = .ok r' ∧ r'.2.isHit = true) ∧
    ((∀ x, x ∉ idxs.take p.n → heldChunk s₂ req.objId x = none) →
      ∀ r', s₂.get p req d' = .ok r' →
        (r'.2.isHit = true ↔ (lost p s₂ idxs).length ≤ p.n - p.k)) := by
  obtain ⟨hidxs, D⟩ := degraded_of_run H hlimits hreb hs hc hnew hrun hsize hfits hget hchunk hswitches
    hrun₂ hb hlt hmap hfailed hmapped
  rw [hidxs]
  have hleads : leads p = 2 := by
    rcases (H.coded D.codes).1 with hm | hm <;> rw [leads, hm] <;> rfl
  have hhit : (lost p s₂ (clockwiseRow p r.1 b)).length ≤ p.n - p.k →
      ∃ r', s₂.get p req d' = .ok r' ∧ r'.2.isHit = true := fun hlost =>
    get_of_hasChunks H hleads (D.ready.chunkReady H hlimits D.codes) hb D.mapped
      (D.hasChunks H hlimits hroom hlost) d'
  refine ⟨hhit, fun hother r' hr' => ⟨fun hyes => ?_, fun hlost => ?_⟩⟩
  · by_contra hlost
    rw [D.not_hit hother (Nat.lt_of_not_le hlost) H.k_le hb hr'] at hyes
    cases hyes
  · obtain ⟨r'', hr'', hyes⟩ := hhit hlost
    obtain rfl := Except.ok.inj (hr''.symm.trans hr')
    exact hyes

end

/-! ## One of three servers fails -/

/-- The type of the second request for object 0, whether bucket 0 is mapped before and after server 1
has failed, whether server 1 is one of its servers, and the number of servers that are down. -/
def failureOutcome (p : Params) : Except Fault (ObjType × Bool × Bool × List Bool × Nat) := do
  let s₀ ← new p
  let s ← run p [.get repeatReq ⟨0, 0, 0⟩] s₀
  let r ← s.get p repeatReq ⟨0, 0, 0⟩
  let s₂ ← run p [.failOneServer 1, .populateHashMapping] r.1
  .ok (r.2.objType, (s.chMapping 0).isSome, (s₂.chMapping 0).isSome,
    (List.range p.nServer).map fun x => (s.servers x).available,
    (lost p s₂ ((s.chMapping 0).getD [])).length)

theorem failure_of_outcome {p : Params} {up : List Bool} {down : Nat}
    (h : failureOutcome p = .ok (.chunkObj, true, true, up, down)) : ∃ s₀ s r s₂ idxs, new p = .ok s₀ ∧
      run p [.get repeatReq ⟨0, 0, 0⟩] s₀ = .ok s ∧ s.get p repeatReq ⟨0, 0, 0⟩ = .ok r ∧
      r.2.objType = .chunkObj ∧ run p [.failOneServer 1, .populateHashMapping] r.1 = .ok s₂ ∧
      s.chMapping 0 = some idxs ∧ s₂.chMapping 0 ≠ none ∧
      (List.range p.nServer).map (fun x => (s.servers x).available) = up ∧
      (lost p s₂ idxs).length = down := by
  obtain ⟨s₀, hnew, h⟩ := bind_eq_ok h
  obtain ⟨s, hrun, h⟩ := bind_eq_ok h
  obtain ⟨r, hget, h⟩ := bind_eq_ok h
  obtain ⟨s₂, hrun₂, h⟩ := bind_eq_ok h
  obtain ⟨htype, h⟩ := Prod.mk.inj (Except.ok.inj h)
  obtain ⟨hmap, h⟩ := Prod.mk.inj h
  obtain ⟨hmap₂, h⟩ := Prod.mk.inj h
  obtain ⟨hup, hdown⟩ := Prod.mk.inj h
  obtain ⟨idxs, hidxs⟩ := Option.isSome_iff_exists.mp hmap
  rw [hidxs, Option.getD_some] at hdown
  exact ⟨s₀, s, r, s₂, idxs, hnew, hrun, hget, htype, hrun₂, hidxs,
    Option.isSome_iff_ne_none.mp hmap₂, hup, hdown⟩

set_option maxRecDepth 100000 in
theorem failure_isHit : ∃ s₀ s r s₂ r', new (lineParams .c2dn 3 2 6 (by decide)) = .ok s₀ ∧
    run (lineParams .c2dn 3 2 6 (by decide)) [.get repeatReq ⟨0, 0, 0⟩] s₀ = .ok s ∧
    s.get (lineParams .c2dn 3 2 6 (by decide)) repeatReq ⟨0, 0, 0⟩ = .ok r ∧
    run (lineParams .c2dn 3 2 6 (by decide)) [.failOneServer 1, .populateHashMapping] r.1 = .ok s₂ ∧
    s₂.get (lineParams .c2dn 3 2 6 (by decide)) repeatReq ⟨1, 0, 0⟩ = .ok r' ∧
    r'.2.isHit = true := by
  have hout : failureOutcome (lineParams .c2dn 3 2 6 (by decide)) =
      .ok (.chunkObj, true, true, List.replicate 6 true, 1) := eq_ok_of_toOption (by decide +kernel)
  obtain ⟨s₀, s, r, s₂, idxs, hnew, hrun, hget, htype, hrun₂, hmap, hmap₂, hup, hdown⟩ :=
    failure_of_outcome hout
  have hfits : pieceSize (lineParams .c2dn 3 2 6 (by decide)) repeatReq.objSize ≤ 100 := by decide
  obtain ⟨hhit, -⟩ := get_after_failures (.inr (.inr ⟨.inl rfl, by decide, by decide⟩))
    (fun _ => ⟨by decide, by decide⟩) rfl (sorted_lineRing (by decide))
    (complete_lineRing (by decide)) hnew hrun (fun op hop => by
      obtain rfl := List.mem_singleton.mp hop
      exact fun _ => rfl) (fun x _ => hfits) hget htype (fun op hop => by
      rcases List.mem_cons.mp hop with rfl | hop
      · trivial
      · obtain rfl := List.mem_singleton.mp hop
        trivial) hrun₂ (fun h => by cases h) rfl (by decide) hmap (fun x hx _ => by
      have h := List.map_eq_replicate_iff.mp hup x (List.mem_range.mpr hx)
      exact h) hmap₂ ⟨1, 0, 0⟩
  obtain ⟨r', hr', hyes⟩ := hhit (by rw [hdown]; decide)
  exact ⟨s₀, s, r, s₂, r', hnew, hrun, hget, hrun₂, hr', hyes⟩

end C2DN.Simulator.Cluster
