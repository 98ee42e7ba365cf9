import C2DN.Simulator.ChunkHits
import C2DN.Simulator.Repeat

/-!
# The range of the number of chunk hits

`_cache_hit_chunk_obj` counts chunks in three passes: on the mapped servers, on the servers behind
them and on the previous parity server. The lead at which `get` has found a chunk is one of the mapped
servers, so there is a hit. The later passes only start with less than `k` hits, and they look at
`MAX_N_UNAVAIL` and at one server, so `n` is never passed.
-/

namespace C2DN.Simulator.Cluster

section
variable {p : Params} {s s₀ s₁ : Cluster} {m : Mapped} {req : Request} {d : Draws}

/-- The three passes. -/
def countChunks (p : Params) (s : Cluster) (m : Mapped) (req : Request) : Except Fault ChunkInfo := do
  let idxs ← firstIdxs m.serverIdxs p.n
  let c ← idxs.zipIdx.foldlM (fun c (server, i) =>
    getChunkInfo p s req.objId (p.chunkObjSize req.objSize) c server i) (ChunkInfo.init s)
  checkExtras p s m req.objId (p.chunkObjSize req.objSize) c

/-- The restoration and the counters, with the variables after the passes. -/
def finishChunkHit (p : Params) (s : Cluster) (m : Mapped) (req : Request) (c : ChunkInfo) :
    Except Fault (Cluster × Bool × Nat) := do
  let chunkObjSize := p.chunkObjSize req.objSize
  let s := { s with readLoadByte := c.readLoadByte, writeLoadByte := c.writeLoadByte }
  let (s, _) ← (List.range p.n).foldlM (restoreChunk p m req.objId chunkObjSize c) (s, 0)
  let s := s.addIntraCluster (c.nDuplicateChunks * chunkObjSize)
  let s := if c.nChunkHit < p.k then
    s.addMidgress m.originalServer ((p.k - c.nChunkHit) * chunkObjSize) else s
  let s := s.addIntraCluster (chunkObjSize * (p.n - 1))
  if c.nChunkHit = 0 ∨ p.n < c.nChunkHit then .error .outOfBounds
  else
    let s := { s with stat := { s.stat with nMiss := addAt s.stat.nMiss (p.n - c.nChunkHit) 1 } }
    .ok (s, decide (p.k ≤ c.nChunkHit), c.nChunkHit)

theorem cacheHitChunkObj_eq : cacheHitChunkObj p s m req =
    if maxNServer < p.nServer then .error .outOfBounds
    else (countChunks p s m req).bind (finishChunkHit p s m req) := by
  unfold cacheHitChunkObj countChunks
  split
  · rfl
  · change _ = (_ >>= _)
    simp only [bind_assoc]
    rfl

theorem finishChunkHit_hits {c : ChunkInfo} {r : Cluster × Bool × Nat}
    (h : finishChunkHit p s m req c = .ok r) : r.2.2 = c.nChunkHit := by
  obtain ⟨restored, -, h⟩ := bind_eq_ok h
  dsimp only at h
  split at h
  · cases h
  · cases h
    rfl

/-- The count after the passes. -/
theorem countChunks_hits {c : ChunkInfo} (h : countChunks p s m req = .ok c) :
    c.nChunkHit = hitsWith p s m req.objId (consultedExtras p s m req.objId) := by
  obtain ⟨idxs, hidxs, h⟩ := bind_eq_ok h
  obtain ⟨-, rfl⟩ := firstIdxs_eq_ok hidxs
  obtain ⟨c₁, hc₁, h⟩ := bind_eq_ok h
  have hlooked := getChunkInfo_loop.ok hc₁
  exact ((checkExtras_lookedOn hlooked.lookedOn).ok h).hits

/-! ## The lead -/

/-- The leads of a request are mapped servers. -/
theorem leads_mapped (H : Admissible p) (hm : findMappedServers p s req d = .ok m) :
    m.leadServer ∈ m.serverIdxs.take p.n ∧ m.secondLead ∈ m.serverIdxs.take p.n := by
  have hle := H.leads_le
  have hmem : ∀ {idxs : List Nat} {i x : Nat}, i < leads p → idxAt idxs i = .ok x →
      x ∈ idxs.take p.n := by
    intro idxs i x hi hx
    refine List.mem_of_getElem? (i := i) ?_
    rw [List.getElem?_take_of_lt (by omega)]
    exact (idxAt_eq_ok hx).2
  obtain ⟨b, -, h⟩ := bind_eq_ok hm
  cases hmap : s.chMapping b with
  | none => rw [hmap] at h; cases h
  | some idxs =>
    rw [hmap] at h
    obtain ⟨x, hx, h⟩ := bind_eq_ok h
    obtain ⟨y, hy, h⟩ := bind_eq_ok h
    cases h
    exact ⟨hmem (H.idxSelected_lt d) hx, hmem (H.idxSecond_lt d) hy⟩

/-- The object is found at a lead that is up and holds it. -/
theorem held_of_found {id x : Nat} {objType : ObjType}
    (h : s.findObj p m id = .ok (some (x, objType))) :
    (x = m.leadServer ∨ x = m.secondLead) ∧ heldChunk s id x ≠ none := by
  have hcheck : ∀ {y t}, s.checkAt p y id = .ok (some t) → heldChunk s id y ≠ none := by
    intro y t h hnone
    unfold checkAt at h
    split at h
    · rw [check_eq_none.mpr hnone] at h
      cases h
    · cases h
  obtain ⟨t, ht, h⟩ := bind_eq_ok h
  cases t with
  | some t => cases h; exact ⟨.inl rfl, hcheck ht⟩
  | none =>
    dsimp only at h
    split at h
    · obtain ⟨t, ht, h⟩ := bind_eq_ok h
      obtain ⟨t', rfl, heq⟩ := Option.map_eq_some_iff.mp (Except.ok.inj h)
      cases heq
      exact ⟨.inr rfl, hcheck ht⟩
    · cases h

theorem mapped_of_found (H : Admissible p) (hm : findMappedServers p s req d = .ok m) {x : Nat}
    {objType : ObjType} (hfound : s.findObj p m req.objId = .ok (some (x, objType))) :
    x ∈ m.serverIdxs.take p.n ∧ heldChunk s req.objId x ≠ none := by
  obtain ⟨hlead, hsecond⟩ := leads_mapped H hm
  obtain ⟨rfl | rfl, hheld⟩ := held_of_found hfound
  · exact ⟨hlead, hheld⟩
  · exact ⟨hsecond, hheld⟩

/-! ## The range -/

/-- The number of hits on the chunk path. -/
theorem hits_range (H : Admissible p) (hk : p.k < p.n) (hpath : ChunkPath p s req d m)
    (hsame : SameServers s s₁) :
    1 ≤ hitsWith p s₁ m req.objId (consultedExtras p s₁ m req.objId) ∧
      hitsWith p s₁ m req.objId (consultedExtras p s₁ m req.objId) ≤ p.n := by
  obtain ⟨hm, x, hfound⟩ := hpath
  obtain ⟨hmem, hheld⟩ := mapped_of_found H hm hfound
  refine ⟨hits_pos hmem ?_, hits_le hk⟩
  rwa [heldChunk_of_same hsame]

/-- **The range of chunk hits.** In every reachable state the passes count between 1 and `n` hits, so
the index of `n_miss` is in range and the assert of `get` holds. A request on the chunk path returns
if the arrays are large enough and no eviction reaches the chunks that it writes. -/
theorem nChunkHit_range (hmode : p.mode = .c2dn ∨ p.mode = .c2dnAddN) (htwo : 2 ≤ p.k)
    (hk : p.k < p.n) (sizes : Nat → Nat) {ops : List Op} (hnew : new p = .ok s₀)
    (hops : ∀ op ∈ ops, ∀ id, SizedFor id (sizes id) op) (hrun : run p ops s₀ = .ok s)
    (hsize : req.objSize = sizes req.objId) (hpath : ChunkPath p s req d m) :
    (∀ s₁ c, SameServers s s₁ → countChunks p s₁ m req = .ok c →
      1 ≤ c.nChunkHit ∧ c.nChunkHit ≤ p.n ∧ p.n - c.nChunkHit < p.n) ∧
    (∀ s₁ r, SameServers s s₁ → cacheHitChunkObj p s₁ m req = .ok r →
      1 ≤ r.2.2 ∧ r.2.2 ≤ p.n ∧
        ∃ s', countHit p r.1 m req ⟨r.2.1, false, false, r.2.2, m.leadServer, .chunkObj⟩ = .ok s') ∧
    ((p.parityRebalance = true → FindsFlow p.maxFlow) → WithinLimits p →
      (∀ x < p.nServer, (s.servers x).cache.Safe req.objId (p.chunkObjSize req.objSize)) →
      ∃ r, s.get p req d = .ok r ∧ 1 ≤ r.2.nChunkHit ∧ r.2.nChunkHit ≤ p.n) := by
  have H : Admissible p := .inr (.inr ⟨hmode, htwo, hk⟩)
  have hobj : ∀ s₁ r, SameServers s s₁ → cacheHitChunkObj p s₁ m req = .ok r →
      1 ≤ r.2.2 ∧ r.2.2 ≤ p.n := by
    intro s₁ r hsame hr
    rw [cacheHitChunkObj_eq] at hr
    split at hr
    · cases hr
    · obtain ⟨c, hc, hr⟩ := bind_eq_ok hr
      rw [finishChunkHit_hits hr, countChunks_hits hc]
      exact hits_range H hk hpath hsame
  refine ⟨fun s₁ c hsame hc => ?_, fun s₁ r hsame hr => ?_, fun hflow hlimits hsafe => ?_⟩
  · have hrange := hits_range H hk hpath hsame
    rw [← countChunks_hits hc] at hrange
    exact ⟨hrange.1, hrange.2, by omega⟩
  · obtain ⟨hpos, hle⟩ := hobj s₁ r hsame hr
    exact ⟨hpos, hle, countHit_ok hle (.inr rfl)⟩
  · obtain ⟨hm, x, hfound⟩ := hpath
    have hmapping := mappingOk_run (by omega) hflow hnew hrun
    have hrow := hmapping.row _ _ (mapped_row hm).2
    have htyped : ∀ x, TypedFor p req.objId req.objSize (s.servers x) := fun x =>
      hsize ▸ typedFor_run (Nat.le_of_lt hk) hnew (fun op hop => hops op hop req.objId) hrun x
    have hcodes : codes p req.objSize = true := by
      obtain ⟨o, ho, htype⟩ := findObj_some hfound
      have hpiece := (htyped x o ho).objType
      rw [htype] at hpiece
      split at hpiece
      · assumption
      · cases hpiece
    obtain ⟨hecn, hserver⟩ := hlimits hmode
    have hlen : p.n ≤ m.serverIdxs.length := by rw [hrow.length]; exact Nat.le_add_right _ _
    have R : ChunkReady p s req := ⟨hmapping, htyped, hcodes, hecn, hserver, hk, htwo,
      fun x hx => (hsafe x hx).fits⟩
    have hwrong : ∀ i ∈ wrongAt s req.objId (m.serverIdxs.take p.n), (s.servers
        (m.serverIdxs.getD i 0)).cache.Safe req.objId (p.chunkObjSize req.objSize) := by
      intro i hi
      have hi := List.mem_range.mp (List.mem_filter.mp hi).1
      rw [length_mapped hlen] at hi
      exact hsafe _ (hrow.lt _ (List.mem_of_mem_take (mem_mapped_of_lt hlen hi)))
    obtain ⟨hmem, hheld⟩ := mapped_of_found H hm hfound
    obtain ⟨r, s', hhit, hget⟩ := R.get_ok hm hfound hmem hheld hwrong
    exact ⟨_, hget, hhit.pos, hhit.le⟩

end

/-! ## A request after a failure

Server 0 fails after it has got its chunk of object 0. The next request finds two chunks. -/

def rangeTrace : List Op :=
  [.get repeatedReq ⟨0, 0, 0⟩, .failOneServer 0, .populateHashMapping]

/-- The states before and after the trace, and what the next request finds and counts. -/
def rangeOutcome (p : Params) :
    Except Fault (Cluster × Cluster × Mapped × Option (Nat × ObjType) × ChunkInfo) := do
  let s₀ ← new p
  let s ← run p rangeTrace s₀
  let m ← findMappedServers p s repeatedReq ⟨0, 0, 0⟩
  let found ← s.findObj p m 0
  let c ← countChunks p s m repeatedReq
  .ok (s₀, s, m, found, c)

theorem rangeOutcome_eq_ok {p : Params}
    {r : Cluster × Cluster × Mapped × Option (Nat × ObjType) × ChunkInfo}
    (h : rangeOutcome p = .ok r) : new p = .ok r.1 ∧ run p rangeTrace r.1 = .ok r.2.1 ∧
      findMappedServers p r.2.1 repeatedReq ⟨0, 0, 0⟩ = .ok r.2.2.1 ∧
      findObj p r.2.1 r.2.2.1 0 = .ok r.2.2.2.1 ∧
      countChunks p r.2.1 r.2.2.1 repeatedReq = .ok r.2.2.2.2 := by
  obtain ⟨s₀, hs₀, h⟩ := bind_eq_ok h
  obtain ⟨s, hs, h⟩ := bind_eq_ok h
  obtain ⟨m, hm, h⟩ := bind_eq_ok h
  obtain ⟨found, hfound, h⟩ := bind_eq_ok h
  obtain ⟨c, hc, h⟩ := bind_eq_ok h
  cases h
  exact ⟨hs₀, hs, hm, hfound, hc⟩

set_option maxRecDepth 100000 in
theorem rangeTrace_nChunkHit : ∃ s₀ s m c,
    new (lineParams .c2dnAddN 3 2 6 (by decide)) = .ok s₀ ∧
    run (lineParams .c2dnAddN 3 2 6 (by decide)) rangeTrace s₀ = .ok s ∧
    ChunkPath (lineParams .c2dnAddN 3 2 6 (by decide)) s repeatedReq ⟨0, 0, 0⟩ m ∧
    countChunks (lineParams .c2dnAddN 3 2 6 (by decide)) s m repeatedReq = .ok c ∧
    1 ≤ c.nChunkHit ∧ c.nChunkHit ≤ 3 := by
  obtain ⟨r, hr, hq⟩ := exists_ok_of_any
    (q := fun r : Cluster × Cluster × Mapped × Option (Nat × ObjType) × ChunkInfo =>
      decide (r.2.2.2.1 = some (1, .chunkObj)))
    (x := rangeOutcome (lineParams .c2dnAddN 3 2 6 (by decide))) (by decide +kernel)
  obtain ⟨hs₀, hs, hm, hfound, hc⟩ := rangeOutcome_eq_ok hr
  rw [of_decide_eq_true hq] at hfound
  have hops : ∀ op ∈ rangeTrace, ∀ id, SizedFor id 30 op := by
    intro op hop id
    rcases List.mem_cons.mp hop with rfl | hop
    · exact fun _ => rfl
    · rcases List.mem_cons.mp hop with rfl | hop
      · trivial
      · rw [List.mem_singleton.mp hop]
        trivial
  obtain ⟨hrange, -, -⟩ := nChunkHit_range (.inr rfl) (by decide) (by decide) (fun _ => 30) hs₀ hops
    hs rfl ⟨hm, 1, hfound⟩
  obtain ⟨hpos, hle, -⟩ := hrange r.2.1 r.2.2.2.2 ⟨rfl, rfl, rfl⟩ hc
  exact ⟨r.1, r.2.1, r.2.2.1, r.2.2.2.2, hs₀, hs, ⟨hm, 1, hfound⟩, hc, hpos, hle⟩

end C2DN.Simulator.Cluster
