import C2DN.Simulator.Mapping
import C2DN.Simulator.ObjTypes
import C2DN.Simulator.RestoreCorrect

/-!
# Repeated requests

After a request that is served from the caches, or that is admitted, all servers that can be the
lead of the next request hold the object. So the next request is a hit, whatever servers the two
requests draw.
-/

namespace C2DN.Simulator.Cluster

open CacheServer

section
variable {p : Params} {s s₀ s₁ s' : Cluster} {m : Mapped} {req : Request} {d : Draws} {id size : Nat}

/-- The modes with their codes, as `prepare_arg` admits them. -/
def Admissible (p : Params) : Prop :=
  p.mode = .twoRepAlways ∧ p.n = 2 ∧ p.k = 1 ∨ p.mode = .threeRepAlways ∧ p.n = 3 ∧ p.k = 1 ∨
    (p.mode = .c2dn ∨ p.mode = .c2dnAddN) ∧ 2 ≤ p.k ∧ p.k < p.n

/-- The number of servers that can be the lead. -/
def leads (p : Params) : Nat := if p.mode = .threeRepAlways then 3 else 2

theorem Admissible.leads_le (H : Admissible p) : leads p ≤ p.n := by
  unfold leads
  rcases H with ⟨hm, hn, -⟩ | ⟨hm, hn, -⟩ | ⟨hm | hm, hk, hn⟩ <;> rw [hm] <;> simp <;> omega

theorem Admissible.k_le (H : Admissible p) : p.k ≤ p.n := by
  rcases H with ⟨-, hn, hk⟩ | ⟨-, hn, hk⟩ | ⟨-, -, hk⟩ <;> omega

theorem Admissible.replicas_eq (H : Admissible p) (hlen : p.n ≤ m.serverIdxs.length) :
    replicas p m = .ok (m.serverIdxs.take (leads p)) := by
  have hle := H.leads_le
  unfold replicas leads firstIdxs at *
  rcases H with ⟨hm, -⟩ | ⟨hm, -⟩ | ⟨hm | hm, -⟩ <;> rw [hm] at hle ⊢ <;> simp at hle ⊢ <;> omega

theorem Admissible.idxSelected_lt (H : Admissible p) (d : Draws) : idxSelected p d < leads p := by
  unfold idxSelected leads ClusterMode.threeLeads
  have h₂ := Nat.mod_lt d.lead (by decide : 2 > 0)
  have h₃ := Nat.mod_lt d.lead (by decide : 3 > 0)
  rcases H with ⟨hm, hn, -⟩ | ⟨hm, hn, -⟩ | ⟨hm | hm, hk, hn⟩ <;> rw [hm] <;> simp <;>
    split <;> omega

theorem Admissible.idxSecond_lt (H : Admissible p) (d : Draws) : idxSecond p d < leads p := by
  have hsel := H.idxSelected_lt d
  unfold idxSecond leads ClusterMode.threeLeads at *
  rcases H with ⟨hm, hn, -⟩ | ⟨hm, hn, -⟩ | ⟨hm | hm, hk, hn⟩ <;> rw [hm] at hsel ⊢ <;>
    simp at hsel ⊢ <;> omega

/-! ## The mapped servers -/

theorem mapped_row (h : findMappedServers p s req d = .ok m) :
    bucketOf p req = .ok m.bucketId ∧ s.chMapping m.bucketId = some m.serverIdxs := by
  obtain ⟨b, hb, h⟩ := bind_eq_ok h
  cases hmap : s.chMapping b with
  | none => rw [hmap] at h; cases h
  | some idxs =>
    rw [hmap] at h
    obtain ⟨x, -, h⟩ := bind_eq_ok h
    obtain ⟨y, -, h⟩ := bind_eq_ok h
    cases h
    exact ⟨hb, hmap⟩

/-- The lead of any draw is one of the first servers. -/
theorem findMappedServers_ok {b : Nat} {idxs : List Nat} (H : Admissible p) (d : Draws)
    (hb : bucketOf p req = .ok b) (hmap : s.chMapping b = some idxs) (hlen : p.n ≤ idxs.length) :
    ∃ m, findMappedServers p s req d = .ok m ∧ m.bucketId = b ∧ m.serverIdxs = idxs ∧
      m.leadServer = idxs.getD (idxSelected p d) 0 := by
  have hle := H.leads_le
  have hsel := H.idxSelected_lt d
  have hsec := H.idxSecond_lt d
  refine ⟨⟨b, idxs, s.oriLeadMapping b, idxs.getD (idxSelected p d) 0,
    idxs.getD (idxSecond p d) 0⟩, ?_, rfl, rfl, rfl⟩
  unfold findMappedServers
  simp only [hb, hmap, bind, Except.bind]
  rw [idxAt_of_lt (by omega), idxAt_of_lt (by omega)]

theorem findObj_of_lead {objType : ObjType} (hlt : m.leadServer < p.nServer)
    (h : (s.servers m.leadServer).check id = some objType) :
    s.findObj p m id = .ok (some (m.leadServer, objType)) := by
  unfold findObj checkAt
  rw [if_pos hlt, h]
  rfl

/-! ## Hits -/

/-- `get` of an object that is found. -/
theorem get_of_found {x : Nat} {objType : ObjType} (hm : findMappedServers p s req d = .ok m)
    (hfound : s.findObj p m req.objId = .ok (some (x, objType))) :
    ∃ s₁, SameServers s s₁ ∧ s.get p req d = (s₁.serveHit p m req d x objType).bind fun r =>
      (countHit p r.1 m req ⟨r.2.1, false, false, r.2.2, m.leadServer, objType⟩).map fun s =>
        (s, ⟨r.2.1, false, false, r.2.2, m.leadServer, objType⟩) := by
  have hcount : SameServers s (s.countReq m req) := ⟨rfl, rfl, rfl⟩
  refine ⟨((s.countReq m req).shouldAdmit p req).1, hcount.trans shouldAdmit_same, ?_⟩
  unfold get
  rw [hm]
  change ((s.findObj p m req.objId).bind _) = _
  rw [hfound]
  change (Except.bind
    (serveHit p ((s.countReq m req).shouldAdmit p req).1 m req d x objType) _) = _
  cases serveHit p ((s.countReq m req).shouldAdmit p req).1 m req d x objType with
  | error e => rfl
  | ok r =>
    change (Except.bind (countHit p r.1 m req _) _) = (Except.map _ (countHit p r.1 m req _))
    cases countHit p r.1 m req ⟨r.2.1, false, false, r.2.2, m.leadServer, objType⟩ <;> rfl

theorem countHit_ok {objType : ObjType} {isHit : Bool} {hits lead : Nat} (hle : hits ≤ p.n)
    (htype : objType = .fullObj ∨ objType = .chunkObj) :
    ∃ s', countHit p s m req ⟨isHit, false, false, hits, lead, objType⟩ = .ok s' := by
  unfold countHit
  split
  · rw [if_neg (Nat.not_lt.mpr hle)]
    rcases htype with rfl | rfl <;> exact ⟨_, rfl⟩
  · exact ⟨_, rfl⟩

/-! ## Full objects -/

/-- A server that has just got a full copy. -/
structure HasFull (id size : Nat) (c : CacheServer) : Prop where
  available : c.available = true
  copy : ∃ o, c.cache.getObj id = some o ∧ o.info.objType = .fullObj
  safe : c.cache.Safe id size

theorem hasFull_of_put {c c' : CacheServer} {t : CacheType} (hav : c.available = true)
    (hfits : size ≤ c.cache.cacheSize) (h : c.put id size t fullInfo = .ok c') :
    HasFull id size c' := by
  have h := put_available hav h
  have hfits' : size ≤ c'.cache.cacheSize := by rw [h.cacheSize]; exact hfits
  refine ⟨h.available.trans hav, ⟨_, h.self, rfl⟩, hfits', .inr ⟨h.fits hfits, fun o ho => ?_⟩⟩
  rw [h.self] at ho
  cases ho
  rfl

/-- The replicas after full copies were written. -/
theorem hasFull_of_effect {l : List Nat} (hnodup : l.Nodup)
    (hav : ∀ x ∈ l, (s.servers x).available = true)
    (hfits : ∀ x ∈ l, req.objSize ≤ (s.servers x).cache.cacheSize)
    (heff : Effect p req.objId (l.map (fullWrite req)) s s') {x : Nat} (hx : x ∈ l) :
    HasFull req.objId req.objSize (s'.servers x) := by
  have hservers : ((l.map (fullWrite req)).map Write.server).Nodup := by
    rw [List.map_map]
    exact (List.map_id l).symm ▸ hnodup
  obtain ⟨t, hput⟩ := heff.writes.written hservers (List.mem_map_of_mem (f := fullWrite req) hx)
  exact hasFull_of_put (hav x hx) (hfits x hx) hput

/-- A request for an object of which the replicas have full copies. -/
theorem get_of_hasFull {b : Nat} {idxs : List Nat} (H : Admissible p)
    (hb : bucketOf p req = .ok b) (hmap : s.chMapping b = some idxs) (hrow : Row p s idxs)
    (hfull : ∀ x ∈ idxs.take (leads p), HasFull req.objId req.objSize (s.servers x)) (d : Draws) :
    ∃ r, s.get p req d = .ok r ∧ r.2.isHit = true := by
  have hlen : p.n ≤ idxs.length := by rw [hrow.length]; exact Nat.le_add_right _ _
  have hle := H.leads_le
  obtain ⟨m, hm, -, rfl, hlead⟩ := findMappedServers_ok H d hb hmap hlen
  have hsel := H.idxSelected_lt d
  have hmem : m.leadServer ∈ m.serverIdxs.take (leads p) := by
    rw [hlead, ← getD_take hsel, List.getD_eq_getElem _ _ (by rw [List.length_take]; omega)]
    exact List.getElem_mem _
  have hlt : ∀ x ∈ m.serverIdxs.take (leads p), x < p.nServer := fun x hx =>
    hrow.lt x (List.mem_of_mem_take hx)
  obtain ⟨o, ho, htype⟩ := (hfull _ hmem).copy
  have hcheck : (s.servers m.leadServer).check req.objId = some .fullObj := by
    rw [CacheServer.check, (hfull _ hmem).available, if_pos rfl, ho, Option.map_some, htype]
  obtain ⟨s₁, hsame, hget⟩ := get_of_found hm (findObj_of_lead (hlt _ hmem) hcheck)
  -- every write finds its server as the first request has left it
  obtain ⟨s₂, hs₂⟩ : ∃ s₂, (m.serverIdxs.take (leads p)).foldlM (storeFull p req)
      (s₁.addReadLoad m.leadServer req.objSize) = .ok s₂ := by
    refine foldlM_returns (w := fullWrite req)
      (Q := fun x c => x < p.nServer ∧ HasFull req.objId req.objSize c)
      (fun s x s' _ h => storeFull_ends.ok h) (fun x hx => ⟨hlt x hx, ?_⟩) ?_ ?_
    · change HasFull req.objId req.objSize (s₁.servers x)
      rw [hsame.servers]
      exact hfull x hx
    · rintro s x - ⟨hlt, hfull⟩
      obtain ⟨c, hc⟩ := put_ok (f := fullInfo) (t := .mainCache) (by decide) hfull.available
        hfull.safe
      exact onServer_returns (f := fun c => c.putFull req.objId req.objSize .mainCache) hlt hc
    · refine (List.map_id _).symm ▸ hrow.nodup.sublist ?_
      exact (List.take_prefix_take_left hle).sublist
  have hserve : s₁.serveHit p m req d m.leadServer .fullObj = .ok (s₂, true, 0) := by
    unfold serveHit cacheHitFullObj
    rw [H.replicas_eq hlen]
    rcases H with ⟨hmode, -⟩ | ⟨hmode, -⟩ | ⟨hmode | hmode, -⟩ <;> rw [hmode] <;>
      exact congrArg (fun x => Except.bind x _) hs₂
  rw [hserve] at hget
  obtain ⟨s₃, hs₃⟩ : ∃ s₃, countHit p s₂ m req ⟨true, false, false, 0, m.leadServer, .fullObj⟩ =
      .ok s₃ := countHit_ok (Nat.zero_le _) (.inl rfl)
  refine ⟨(s₃, ⟨true, false, false, 0, m.leadServer, .fullObj⟩), hget.trans ?_, rfl⟩
  simp only [Except.bind, hs₃, Except.map]

/-! ## Chunks -/

/-- The mapped servers when the chunks of an object are where a request finds them. -/
structure HasChunks (p : Params) (s : Cluster) (req : Request) (idxs : List Nat) : Prop where
  lead : ∀ i < 2, heldChunk s req.objId (idxs.getD i 0) ≠ none
  hits : p.k ≤ (heldIds s req.objId (idxs.take p.n)).dedup.length
  safe : ∀ i ∈ wrongAt s req.objId (idxs.take p.n),
    (s.servers (idxs.getD i 0)).cache.Safe req.objId (p.chunkObjSize req.objSize)

/-- A copy that is held, with its type. -/
theorem check_of_held {x : Nat} (htyped : TypedFor p id size (s.servers x))
    (hcodes : codes p size = true) (h : heldChunk s id x ≠ none) :
    (s.servers x).check id = some .chunkObj := by
  obtain ⟨j, hj⟩ := Option.ne_none_iff_exists'.mp h
  unfold heldChunk at hj
  split at hj
  · next hav =>
    obtain ⟨o, ho, -⟩ := Option.map_eq_some_iff.mp hj
    have htype := (htyped o ho).objType
    rw [if_pos hcodes] at htype
    rw [CacheServer.check, if_pos hav, ho, Option.map_some, htype]
  · cases hj

theorem small_of_typed (htyped : ∀ x, TypedFor p id size (s.servers x))
    (hcodes : codes p size = true) {l : List Nat} : ∀ j ∈ heldIds s id l, j < p.n := by
  intro j hj
  obtain ⟨x, -, hx⟩ := mem_heldIds.mp hj
  unfold heldChunk at hx
  split at hx
  · obtain ⟨o, ho, rfl⟩ := Option.map_eq_some_iff.mp hx
    have hpiece := htyped x o ho
    rw [Piece, if_pos hcodes] at hpiece
    exact hpiece.2.1
  · cases hx

/-- What the chunk path relies on holds in every reachable state. -/
structure ChunkReady (p : Params) (s : Cluster) (req : Request) : Prop where
  mapping : MappingOk p s
  typed : ∀ x, TypedFor p req.objId req.objSize (s.servers x)
  codes : codes p req.objSize = true
  ecn : p.n ≤ maxEcN
  nServer : p.nServer ≤ maxNServer
  lt : p.k < p.n
  two : 2 ≤ p.k
  fits : ∀ x < p.nServer, p.chunkObjSize req.objSize ≤ (s.servers x).cache.cacheSize

theorem ChunkReady.pos (R : ChunkReady p s req) : 0 < p.chunkObjSize req.objSize := by
  have := req.pos
  have := R.two
  exact Nat.div_pos (by omega) (by omega)

theorem ChunkReady.restorable (R : ChunkReady p s req) (hrow : Row p s m.serverIdxs) :
    Restorable p s m req.objId (p.chunkObjSize req.objSize) where
  ecn := R.ecn
  length := by rw [hrow.length]; exact Nat.le_add_right _ _
  nodup := hrow.nodup
  lt x hx := hrow.lt x (List.mem_of_mem_take hx)
  available x hx := hrow.available x (List.mem_of_mem_take hx)
  small := small_of_typed R.typed R.codes
  pos := R.pos
  fits x hx := R.fits x (hrow.lt x (List.mem_of_mem_take hx))

theorem ChunkReady.further (R : ChunkReady p s req) (hrow : Row p s m.serverIdxs) :
    Further p s m req.objId where
  length := by rw [hrow.length]
  prev prev hprev := by
    rw [(R.mapping.prev _ prev hprev).length]
    have := R.lt
    omega
  lt x hx := by
    rcases List.mem_append.mp hx with hx | hx
    · obtain ⟨i, hi, rfl⟩ := List.mem_map.mp hx
      have hi := List.mem_range'_1.mp hi
      rw [List.getD_eq_getElem _ _ (by rw [hrow.length]; exact hi.2)]
      exact hrow.lt _ (List.getElem_mem _)
    · obtain ⟨prev, hprev, rfl⟩ : ∃ prev, s.prevChMapping m.bucketId = some prev ∧
          prev.getD (p.n - 1) 0 = x := by simpa using hx
      obtain ⟨hlen, hlt⟩ := R.mapping.prev _ prev hprev
      rw [List.getD_eq_getElem _ _ (by rw [hlen]; have := R.lt; omega)]
      exact hlt _ (List.getElem_mem _)
  chunk x _ o ho := by
    have hpiece := R.typed x o ho
    rw [Piece, if_pos R.codes] at hpiece
    exact ⟨hpiece.1, Nat.lt_of_lt_of_le hpiece.2.1 R.ecn⟩

/-- A request that finds a chunk on a mapped server returns if no eviction reaches the chunks that it
writes. -/
theorem ChunkReady.get_ok (R : ChunkReady p s req) (hm : findMappedServers p s req d = .ok m) {x : Nat}
    (hfound : s.findObj p m req.objId = .ok (some (x, .chunkObj)))
    (hmem : x ∈ m.serverIdxs.take p.n) (hheld : heldChunk s req.objId x ≠ none)
    (hsafe : ∀ i ∈ wrongAt s req.objId (m.serverIdxs.take p.n),
      (s.servers (m.serverIdxs.getD i 0)).cache.Safe req.objId (p.chunkObjSize req.objSize)) :
    ∃ r s', ChunkHit p s m req.objId (p.chunkObjSize req.objSize) r ∧
      s.get p req d = .ok (s', ⟨r.2.1, false, false, r.2.2, m.leadServer, .chunkObj⟩) := by
  have hrow := R.mapping.row _ _ (mapped_row hm).2
  obtain ⟨s₁, hsame, hget⟩ := get_of_found hm hfound
  obtain ⟨r, hr⟩ : ∃ r, cacheHitChunkObj p s₁ m req = .ok r := by
    refine cacheHitChunkObj_returns ((R.restorable hrow).of_same hsame) R.nServer R.lt
      ((R.further hrow).of_same hsame) ⟨x, hmem, ?_⟩ fun i hi => ?_
    · rwa [heldChunk_of_same hsame]
    · rw [hsame.servers]
      refine hsafe i ?_
      have hheld := heldChunk_of_same hsame
      unfold wrongAt statusAt heldIds at hi ⊢
      rwa [hheld] at hi
  have hhit := (cacheHitChunkObj_ends.ok hr).of_same hsame
  have hserve : s₁.serveHit p m req d x .chunkObj = .ok r := hr
  rw [hserve] at hget
  obtain ⟨s₃, hs₃⟩ : ∃ s₃, countHit p r.1 m req
      ⟨r.2.1, false, false, r.2.2, m.leadServer, .chunkObj⟩ = .ok s₃ :=
    countHit_ok hhit.le (.inr rfl)
  refine ⟨r, s₃, hhit, hget.trans ?_⟩
  simp only [Except.bind, hs₃, Except.map]

/-- A request for an object of which `k` chunks are found. -/
theorem get_of_hasChunks {b : Nat} {idxs : List Nat} (H : Admissible p)
    (hleads : leads p = 2) (R : ChunkReady p s req) (hb : bucketOf p req = .ok b)
    (hmap : s.chMapping b = some idxs) (hchunks : HasChunks p s req idxs) (d : Draws) :
    ∃ r, s.get p req d = .ok r ∧ r.2.isHit = true := by
  have hrow := R.mapping.row b idxs hmap
  have hlen : p.n ≤ idxs.length := by rw [hrow.length]; exact Nat.le_add_right _ _
  obtain ⟨m, hm, -, rfl, hlead⟩ := findMappedServers_ok H d hb hmap hlen
  have hsel := H.idxSelected_lt d
  have hle := H.leads_le
  have hheld := hchunks.lead (idxSelected p d) (by omega)
  rw [← hlead] at hheld
  have hmem : m.leadServer ∈ m.serverIdxs.take p.n := by
    rw [hlead]
    exact mem_mapped_of_lt hlen (by omega)
  have hlt : m.leadServer < p.nServer := hrow.lt _ (List.mem_of_mem_take hmem)
  obtain ⟨r, s', hhit, hget⟩ := R.get_ok hm
    (findObj_of_lead hlt (check_of_held (R.typed _) R.codes hheld)) hmem hheld hchunks.safe
  refine ⟨_, hget, ?_⟩
  dsimp only
  rw [hhit.isHit, hhit.hits]
  exact decide_eq_true (Nat.le_trans hchunks.hits (Nat.le_add_right _ _))

/-- After a restoration every mapped server has a correct chunk. -/
theorem hasChunks_of_restored (R : ChunkReady p s' req) (hlen : p.n ≤ m.serverIdxs.length)
    (h : Restored s req.objId (m.serverIdxs.take p.n) s') : HasChunks p s' req m.serverIdxs := by
  have hn := length_mapped hlen
  have hperm := h.perm_heldIds
  rw [hn] at hperm
  refine ⟨fun i hi hnone => ?_, ?_, fun i hi => ?_⟩
  · have := R.two
    have := R.lt
    have hmem := mem_mapped_of_lt hlen (by omega : i < p.n)
    have hmap := h.perm.mem_iff.mp (List.mem_map_of_mem (f := heldChunk s' req.objId) hmem)
    rw [hnone] at hmap
    simp at hmap
  · rw [hperm.dedup.length_eq, List.nodup_range.dedup, List.length_range]
    exact Nat.le_of_lt R.lt
  · -- no chunk is missing, so no server is wrong
    have hmissing : missingIds s' req.objId (m.serverIdxs.take p.n) = [] := by
      refine List.filter_eq_nil_iff.mpr fun j hj => ?_
      rw [hn] at hj
      simpa using hperm.mem_iff.mpr hj
    have hwrong := length_wrongAt (s := s') (by rw [hn]; exact small_of_typed R.typed R.codes)
    rw [hmissing, List.length_nil, List.length_eq_zero_iff] at hwrong
    rw [hwrong] at hi
    cases hi

theorem nodup_missPlaces : (missPlaces p).Nodup := by
  unfold missPlaces
  split
  · refine List.nodup_append.mpr ⟨List.nodup_range, List.nodup_range', ?_⟩
    rintro a ha b hb rfl
    have := List.mem_range.mp ha
    have := List.mem_range'_1.mp hb
    omega
  · rw [List.append_nil]
    exact List.nodup_range

/-- The servers after a miss that is stored in chunks. -/
theorem hasChunks_of_miss (R : ChunkReady p s req) (R' : ChunkReady p s' req)
    (hrow : Row p s m.serverIdxs)
    (hroom : p.mode = .c2dnAddN ∨ ∀ x < p.nServer,
      (s.servers x).cache.Safe req.objId (p.chunkObjSize req.objSize))
    (heff : Effect p req.objId
      ((missPlaces p).map (chunkWrite m (p.chunkObjSize req.objSize))) s s') :
    HasChunks p s' req m.serverIdxs := by
  have hlt := R.lt
  have htwo := R.two
  have hlen : p.n ≤ m.serverIdxs.length := by rw [hrow.length]; exact Nat.le_add_right _ _
  have hmem : ∀ i < p.n, m.serverIdxs.getD i 0 ∈ m.serverIdxs := fun i hi =>
    List.mem_of_mem_take (mem_mapped_of_lt hlen hi)
  have hplace : ∀ i ∈ missPlaces p, i < p.n := fun i hi =>
    lt_of_mem_missPlaces (Nat.le_of_lt hlt) hi
  have hservers : (((missPlaces p).map (chunkWrite m (p.chunkObjSize req.objSize))).map
      Write.server).Nodup := by
    rw [List.map_map]
    refine List.Nodup.map_on (fun i hi i' hi' heq => ?_) nodup_missPlaces
    exact mapped_inj hlen hrow.nodup (hplace i hi) (hplace i' hi') heq
  have hput : ∀ i ∈ missPlaces p, Put (s.servers (m.serverIdxs.getD i 0)) req.objId
      (p.chunkObjSize req.objSize) (chunkInfo i) (s'.servers (m.serverIdxs.getD i 0)) := by
    intro i hi
    obtain ⟨t, hput⟩ := heff.writes.written hservers
      (List.mem_map_of_mem (f := chunkWrite m (p.chunkObjSize req.objSize)) hi)
    exact put_available (hrow.available _ (hmem i (hplace i hi))) hput
  have hheld : ∀ i ∈ missPlaces p, heldChunk s' req.objId (m.serverIdxs.getD i 0) = some i := by
    intro i hi
    have hav := hrow.available _ (hmem i (hplace i hi))
    rw [heldChunk, (hput i hi).available, hav, if_pos rfl, (hput i hi).self, Option.map_some]
    refine congrArg some (Nat.mod_eq_of_lt ?_)
    have := hplace i hi
    have := R.ecn
    have : maxEcN = 16 := rfl
    omega
  have hdata : ∀ i < p.k, i ∈ missPlaces p := fun i hi =>
    List.mem_append_left _ (List.mem_range.mpr hi)
  refine ⟨fun i hi => ?_, ?_, fun i hi => ?_⟩
  · rw [hheld i (hdata i (by omega))]
    exact Option.some_ne_none i
  · have hsub : List.range p.k ⊆ (heldIds s' req.objId (m.serverIdxs.take p.n)).dedup := by
      intro i hi
      have hi := List.mem_range.mp hi
      rw [List.mem_dedup, mem_heldIds]
      exact ⟨_, mem_mapped_of_lt hlen (by omega), hheld i (hdata i hi)⟩
    have := (List.nodup_range.subperm hsub).length_le
    rwa [List.length_range] at this
  · have hi := List.mem_range.mp (List.mem_filter.mp hi).1
    rw [length_mapped hlen] at hi
    have hserver := hrow.lt _ (hmem i hi)
    by_cases hplace' : i ∈ missPlaces p
    · have hput := hput i hplace'
      refine ⟨R'.fits _ hserver, .inr ⟨hput.fits (R.fits _ hserver), fun o ho => ?_⟩⟩
      rw [hput.self] at ho
      cases ho
      rfl
    · have hunwritten : s'.servers (m.serverIdxs.getD i 0) = s.servers (m.serverIdxs.getD i 0) := by
        refine heff.writes.unwritten fun w hw heq => hplace' ?_
        obtain ⟨i', hi', rfl⟩ := List.mem_map.mp hw
        obtain rfl := mapped_inj hlen hrow.nodup (hplace i' hi') hi heq
        exact hi'
      rw [hunwritten]
      rcases hroom with hmode | hroom
      · -- the mode writes all chunks
        refine absurd (List.mem_append_right _ ?_) hplace'
        rw [if_pos (.inl hmode), List.mem_range'_1]
        have : ¬ i < p.k := fun h => hplace' (hdata i h)
        omega
      · exact hroom _ hserver

/-! ## Two requests -/

/-- What the arrays of `_cache_hit_chunk_obj` can hold, in the modes that use it. -/
def WithinLimits (p : Params) : Prop :=
  p.mode = .c2dn ∨ p.mode = .c2dnAddN → p.n ≤ maxEcN ∧ p.nServer ≤ maxNServer

/-- No cache is over its size. Only FIFO caches need it, and only when a miss leaves servers out. -/
def Roomy (p : Params) (s : Cluster) : Prop :=
  p.mode = .c2dn → p.alg = .fifo →
    ∀ x, (s.servers x).cache.occupiedSize ≤ (s.servers x).cache.cacheSize

/-- A request that leaves its object in the caches: a hit, a partial hit, or an admitted miss. -/
def Keeps (p : Params) (s : Cluster) (req : Request) (hit : ClusterHit) : Prop :=
  hit.isHit = true ∨ 0 < hit.nChunkHit ∨ (s.shouldAdmit p req).2 = true

theorem Admissible.coded (H : Admissible p) (hcodes : codes p size = true) :
    (p.mode = .c2dn ∨ p.mode = .c2dnAddN) ∧ 2 ≤ p.k ∧ p.k < p.n := by
  rcases H with ⟨hm, -⟩ | ⟨hm, -⟩ | H
  · rw [codes, hm] at hcodes; cases hcodes
  · rw [codes, hm] at hcodes; cases hcodes
  · exact H

/-- What holds in every state when the object of a request is always requested with its size. -/
structure Ready (p : Params) (s : Cluster) (req : Request) : Prop where
  mapping : MappingOk p s
  typed : ∀ x, TypedFor p req.objId req.objSize (s.servers x)
  caches : CachesOk p s
  fits : ∀ x < p.nServer, pieceSize p req.objSize ≤ p.cacheSizes x

theorem Ready.chunkReady (R : Ready p s req) (H : Admissible p) (hlimits : WithinLimits p)
    (hcodes : codes p req.objSize = true) : ChunkReady p s req := by
  obtain ⟨hmode, htwo, hlt⟩ := H.coded hcodes
  obtain ⟨hecn, hserver⟩ := hlimits hmode
  refine ⟨R.mapping, R.typed, hcodes, hecn, hserver, hlt, htwo, fun x hx => ?_⟩
  have := R.fits x hx
  rw [pieceSize, if_pos hcodes] at this
  rw [(R.caches x).2]
  exact this

theorem Ready.type_of_found (R : Ready p s req) {x : Nat} {objType : ObjType}
    (h : s.findObj p m req.objId = .ok (some (x, objType))) :
    objType = if codes p req.objSize then .chunkObj else .fullObj := by
  obtain ⟨o, ho, rfl⟩ := findObj_some h
  exact (R.typed x o ho).objType

/-- What a request leaves on the servers that can be the lead of the next one. -/
def Left (p : Params) (s : Cluster) (req : Request) (idxs : List Nat) : Prop :=
  if codes p req.objSize then HasChunks p s req idxs
  else ∀ x ∈ idxs.take (leads p), HasFull req.objId req.objSize (s.servers x)

theorem Ready.left_of_full (R : Ready p s req) (H : Admissible p)
    (hcodes : codes p req.objSize = false) (hrow : Row p s m.serverIdxs) {l : List Nat}
    (hl : replicas p m = .ok l) (heff : Effect p req.objId (l.map (fullWrite req)) s s') :
    Left p s' req m.serverIdxs := by
  rw [H.replicas_eq (by rw [hrow.length]; exact Nat.le_add_right _ _)] at hl
  cases hl
  rw [Left, if_neg (by simp [hcodes])]
  intro x hx
  refine hasFull_of_effect ?_ (fun y hy => hrow.available y (List.mem_of_mem_take hy))
    (fun y hy => ?_) heff hx
  · exact hrow.nodup.sublist (List.take_prefix_take_left H.leads_le).sublist
  · have := R.fits y (hrow.lt y (List.mem_of_mem_take hy))
    rw [pieceSize, if_neg (by simp [hcodes])] at this
    rw [(R.caches y).2]
    exact this

/-- The first request. -/
theorem Ready.left (R : Ready p s req) (R' : Ready p s' req) (H : Admissible p)
    (hlimits : WithinLimits p) (hroom : Roomy p s) (hrow : Row p s m.serverIdxs) {hit : ClusterHit}
    (hserved : Served p s req m s' hit) (hkeeps : Keeps p s req hit) :
    Left p s' req m.serverIdxs := by
  have hlen : p.n ≤ m.serverIdxs.length := by rw [hrow.length]; exact Nat.le_add_right _ _
  cases hserved with
  | fullHit found copies effect =>
    cases hcodes : codes p req.objSize with
    | true => have := R.type_of_found found; rw [if_pos hcodes] at this; cases this
    | false =>
      refine R.left_of_full H hcodes hrow (copies ?_ ?_) effect
      · rcases H with ⟨hm, -⟩ | ⟨hm, -⟩ | ⟨hm | hm, -⟩ <;> rw [hm] <;> decide
      · rcases H with ⟨hm, -⟩ | ⟨hm, -⟩ | ⟨hm | hm, -⟩ <;> rw [hm] <;> decide
  | chunkHit found hit same =>
    cases hcodes : codes p req.objSize with
    | false => have := R.type_of_found found; rw [hcodes] at this; cases this
    | true =>
      have hrest := (R.chunkReady H hlimits hcodes).restorable hrow
      rw [Left, if_pos hcodes]
      exact hasChunks_of_restored (R'.chunkReady H hlimits hcodes) hlen
        (restored_of_effect hlen hrow.nodup hrest.small hrest.ecn hrest.available
          (hit.effect.trans_same same))
  | uncounted found unknown same =>
    have := R.type_of_found found
    rcases unknown with h | h <;> rw [h] at this <;> split at this <;> cases this
  | refused found refused same =>
    rcases hkeeps with h | h | h
    · cases h
    · exact absurd h (Nat.lt_irrefl 0)
    · rw [refused] at h; cases h
  | fullMiss found policy copies effect =>
    exact R.left_of_full H (codes_of_policy policy) hrow copies effect
  | chunkMiss found policy effect =>
    have hcodes := codes_of_policy policy
    have hchunk := R.chunkReady H hlimits hcodes
    rw [Left, if_pos hcodes]
    refine hasChunks_of_miss hchunk (R'.chunkReady H hlimits hcodes) hrow ?_ effect
    rcases (H.coded hcodes).1 with hmode | hmode
    · refine .inr fun x hx => ⟨hchunk.fits x hx, ?_⟩
      cases halg : p.alg with
      | lru => exact .inl ((R.caches x).1.trans halg)
      | fifo =>
        refine .inr ⟨hroom hmode halg x, fun o ho => ?_⟩
        rw [(R.typed x o ho).objSize, pieceSize, if_pos hcodes]
    · exact .inl hmode

/-- The second request. -/
theorem Ready.get_of_left (R : Ready p s req) (H : Admissible p) (hlimits : WithinLimits p) {b : Nat}
    {idxs : List Nat} (hb : bucketOf p req = .ok b) (hmap : s.chMapping b = some idxs)
    (hleft : Left p s req idxs) (d : Draws) : ∃ r, s.get p req d = .ok r ∧ r.2.isHit = true := by
  unfold Left at hleft
  split at hleft
  · next hcodes =>
    have hleads : leads p = 2 := by
      rcases (H.coded hcodes).1 with hm | hm <;> rw [leads, hm] <;> rfl
    exact get_of_hasChunks H hleads (R.chunkReady H hlimits hcodes) hb hmap hleft d
  · exact get_of_hasFull H hb hmap (R.mapping.row _ _ hmap) hleft d

/-- **Repeated requests hit.** -/
theorem get_get_isHit (H : Admissible p) (hlimits : WithinLimits p)
    (hflow : p.parityRebalance = true → FindsFlow p.maxFlow) {ops : List Op}
    (hnew : new p = .ok s₀) (hrun : run p ops s₀ = .ok s)
    (hsize : ∀ op ∈ ops, SizedFor req.objId req.objSize op)
    (hfits : ∀ x < p.nServer, pieceSize p req.objSize ≤ p.cacheSizes x) (hroom : Roomy p s)
    {r : Cluster × ClusterHit} (hget : s.get p req d = .ok r) (hkeeps : Keeps p s req r.2)
    (d' : Draws) : ∃ r', r.1.get p req d' = .ok r' ∧ r'.2.isHit = true := by
  have hn : 0 < p.n := Nat.lt_of_lt_of_le (by unfold leads; split <;> decide) H.leads_le
  have R : Ready p s req := ⟨mappingOk_run hn hflow hnew hrun,
    typedFor_run H.k_le hnew hsize hrun, cachesOk_run hnew hrun, hfits⟩
  obtain ⟨m, hm, hserved⟩ := get_ends.ok hget
  obtain ⟨ws, heff⟩ := hserved.effect
  have hstep : step p s (.get req d) = .ok r.1 := by rw [step, hget]; rfl
  have hsized : SizedFor req.objId req.objSize (.get req d) := fun _ => rfl
  have R' : Ready p r.1 req := by
    refine ⟨mappingOk_step hn hflow R.mapping hstep, typedFor_step H.k_le R.typed hsized hstep,
      fun x => ?_, hfits⟩
    obtain ⟨halg, hsize⟩ := cachesOk_writes heff.writes x
    exact ⟨halg.trans (R.caches x).1, hsize.trans (R.caches x).2⟩
  obtain ⟨hb, hmap⟩ := mapped_row hm
  have hleft := R.left R' H hlimits hroom (R.mapping.row _ _ hmap) hserved hkeeps
  exact R'.get_of_left H hlimits hb (by rw [heff.chMapping, hmap]) hleft d'

end

/-! ## Two requests for object 0 -/

def repeatReq : Request := .ofSize 0 30 (.refl true)

/-- Whether a request after `ops` is admitted, and whether the next one returns with a hit. -/
def repeatOutcome (p : Params) (ops : List Op) : Except Fault (Bool × Option Bool) := do
  let s₀ ← new p
  let s ← run p ops s₀
  let r ← s.get p repeatReq ⟨0, 0, 0⟩
  .ok ((s.shouldAdmit p repeatReq).2,
    (r.1.get p repeatReq ⟨0, 0, 0⟩).toOption.map fun r => r.2.isHit)

theorem repeatOutcome_eq_ok {p : Params} {ops : List Op} {again : Option Bool}
    (h : repeatOutcome p ops = .ok (true, again)) : ∃ s₀ s r, new p = .ok s₀ ∧
      run p ops s₀ = .ok s ∧ s.get p repeatReq ⟨0, 0, 0⟩ = .ok r ∧ Keeps p s repeatReq r.2 ∧
      (r.1.get p repeatReq ⟨0, 0, 0⟩).toOption.map (fun r => r.2.isHit) = again := by
  obtain ⟨s₀, hs₀, h⟩ := bind_eq_ok h
  obtain ⟨s, hs, h⟩ := bind_eq_ok h
  obtain ⟨r, hr, h⟩ := bind_eq_ok h
  obtain ⟨hadmitted, hagain⟩ := Prod.mk.inj (Except.ok.inj h)
  exact ⟨s₀, s, r, hs₀, hs, hr, .inr (.inr hadmitted), hagain⟩

set_option maxRecDepth 100000 in
theorem repeatReq_isHit : ∃ s₀ r r', new (lineParams .c2dn 3 2 5 (by decide)) = .ok s₀ ∧
    s₀.get (lineParams .c2dn 3 2 5 (by decide)) repeatReq ⟨0, 0, 0⟩ = .ok r ∧
    r.1.get (lineParams .c2dn 3 2 5 (by decide)) repeatReq ⟨1, 0, 0⟩ = .ok r' ∧
    r'.2.isHit = true := by
  have hout : repeatOutcome (lineParams .c2dn 3 2 5 (by decide)) [] = .ok (true, some true) :=
    eq_ok_of_toOption (by decide +kernel)
  obtain ⟨s₀, s, r, hnew, hrun, hget, hkeeps, -⟩ := repeatOutcome_eq_ok hout
  obtain rfl := Except.ok.inj hrun
  have hfits : pieceSize (lineParams .c2dn 3 2 5 (by decide)) repeatReq.objSize ≤ 100 := by decide
  obtain ⟨r', hr', hhit⟩ := get_get_isHit (.inr (.inr ⟨.inl rfl, by decide, by decide⟩))
    (fun _ => ⟨by decide, by decide⟩) (fun h => by cases h) hnew
    hrun (fun op hop => by cases hop) (fun x _ => hfits) (fun _ h => by cases h) hget
    hkeeps ⟨1, 0, 0⟩
  exact ⟨s₀, r, r', hnew, hget, hr', hhit⟩

/-- After `ops` a request leaves its object in the caches, and the next one is not a hit. -/
def NotRepeated (p : Params) (ops : List Op) : Prop :=
  ∃ s₀ s r, new p = .ok s₀ ∧ run p ops s₀ = .ok s ∧ s.get p repeatReq ⟨0, 0, 0⟩ = .ok r ∧
    Keeps p s repeatReq r.2 ∧
    ¬ ∃ r', r.1.get p repeatReq ⟨0, 0, 0⟩ = .ok r' ∧ r'.2.isHit = true

theorem notRepeated_of_outcome {p : Params} {ops : List Op}
    (h : repeatOutcome p ops = .ok (true, none)) : NotRepeated p ops := by
  obtain ⟨s₀, s, r, hnew, hrun, hget, hkeeps, hagain⟩ := repeatOutcome_eq_ok h
  refine ⟨s₀, s, r, hnew, hrun, hget, hkeeps, ?_⟩
  rintro ⟨r', hr', -⟩
  rw [hr'] at hagain
  cases hagain

def overfullParams : Params :=
  { lineParams .c2dn 3 2 6 (by decide) with sizeThreshold := 20, alg := .fifo }

/-- Object 1 grows in the cache of server 2 behind a chunk of object 0, which is the one with id 1
since server 1 is down. -/
def overfullTrace : List Op :=
  [.failOneServer 1, .populateHashMapping, .get repeatReq ⟨0, 0, 0⟩,
    .get (.ofSize 1 10 (.refl true)) ⟨0, 0, 0⟩, .get (.ofSize 1 150 (.refl true)) ⟨0, 0, 0⟩,
    .recoverOneServer 1, .populateHashMapping, .get (.ofSize 2 30 (.refl true)) ⟨0, 0, 0⟩]

set_option maxRecDepth 100000 in
/-- More chunks than `MAX_EC_N`, more servers than `MAX_N_SERVER`, a FIFO cache over its size. -/
theorem limits_not_repeated : NotRepeated (lineParams .c2dn 17 2 19 (by decide)) [] ∧
    NotRepeated (lineParams .c2dn 3 2 129 (by decide)) [] ∧
    NotRepeated overfullParams overfullTrace :=
  ⟨notRepeated_of_outcome (eq_ok_of_toOption (by decide +kernel)),
    notRepeated_of_outcome (eq_ok_of_toOption (by decide +kernel)),
    notRepeated_of_outcome (eq_ok_of_toOption (by decide +kernel))⟩

end C2DN.Simulator.Cluster
