import C2DN.Simulator.ObjTypes

/-!
# The statistics of a request

`get` counts a request in `cluster_stat` and in the row of its original server in `bucket_stat`. The
counters are changed by four functions, whose changes are collected here: `Counted` says what a
request has added to them (`get_counted`).
-/

namespace C2DN.Simulator

namespace Cluster

/-- How a request ends. -/
inductive Outcome where
  | fullHit
  | chunkHit
  /-- chunks are found, but less than `k` -/
  | partialHit
  | miss
  deriving DecidableEq, Repr

namespace Outcome

def isHit : Outcome → Bool
  | fullHit | chunkHit => true
  | partialHit | miss => false

/-- Whether `_cache_hit_chunk_obj` is called. -/
def chunkPath : Outcome → Bool
  | chunkHit | partialHit => true
  | fullHit | miss => false

/-- What the outcomes are: the type of the copy that is found, and the result of `get`. -/
def Is (o : Outcome) (found : Option ObjType) (hit : ClusterHit) : Prop :=
  match o with
  | fullHit => found = some .fullObj ∧ hit.isHit = true
  | chunkHit => found = some .chunkObj ∧ hit.isHit = true
  | partialHit => found = some .chunkObj ∧ hit.isHit = false
  | miss => found = none ∧ hit.isHit = false

/-- The midgress of a request: the missing chunks, or the whole object. -/
def charge (p : Params) (req : Request) (nChunkHit : Nat) : Outcome → Nat
  | fullHit => 0
  | chunkHit | partialHit => (p.k - nChunkHit) * p.chunkObjSize req.objSize
  | miss => req.objSize

theorem Is.unique {o o' : Outcome} {found : Option ObjType} {hit : ClusterHit} (h : o.Is found hit)
    (h' : o'.Is found hit) : o = o' := by
  cases o <;> cases o' <;> simp_all [Is]

end Outcome

/-- One more request. -/
def addRow (b : BucketStat) (size : Nat) (hit : Bool) (midgress : Nat) : BucketStat :=
  ⟨b.reqCnt + 1, b.hitCnt + hit.toNat, b.reqByte + size, b.midgress + midgress⟩

/-- What a request adds to the counters. -/
structure Counted (p : Params) (s : Cluster) (req : Request) (originalServer : Nat) (o : Outcome)
    (nChunkHit midgress : Nat) (s' : Cluster) : Prop where
  stat : ∃ intraClusterBytes, s'.stat = { s.stat with
    clusterReqCnt := s.stat.clusterReqCnt + 1
    clusterReqBytes := s.stat.clusterReqBytes + req.objSize
    clusterHitCnt := s.stat.clusterHitCnt + o.isHit.toNat
    clusterHitBytes := s.stat.clusterHitBytes + o.isHit.toNat * req.objSize
    fullObjHitCnt := s.stat.fullObjHitCnt + (decide (o = .fullHit)).toNat
    fullObjHitBytes := s.stat.fullObjHitBytes + (decide (o = .fullHit)).toNat * req.objSize
    chunkObjHitCnt := s.stat.chunkObjHitCnt + (decide (o = .chunkHit)).toNat
    chunkObjHitBytes := s.stat.chunkObjHitBytes + (decide (o = .chunkHit)).toNat * req.objSize
    nMiss := if o.chunkPath then addAt s.stat.nMiss (p.n - nChunkHit) 1 else s.stat.nMiss
    midgressBytes := s.stat.midgressBytes + midgress
    intraClusterBytes }
  bucketStat : s'.bucketStat = Function.update s.bucketStat originalServer
    (addRow (s.bucketStat originalServer) req.objSize o.isHit midgress)
  oriLeadMapping : s'.oriLeadMapping = s.oriLeadMapping
  midgress : midgress = 0 ↔ o.isHit = true
  hits : o.chunkPath = true → 0 < nChunkHit ∧ nChunkHit ≤ p.n

section
variable {α : Type} {p : Params} {s s₁ s' : Cluster} {m : Mapped} {req : Request} {d : Draws}

/-! ## Writes count nothing -/

/-- Nothing but the traffic within the cluster has been counted. -/
structure Quiet (s s' : Cluster) : Prop where
  stat : ∃ n, s'.stat = { s.stat with intraClusterBytes := n }
  bucketStat : s'.bucketStat = s.bucketStat
  oriLeadMapping : s'.oriLeadMapping = s.oriLeadMapping

theorem Quiet.refl (s : Cluster) : Quiet s s := ⟨⟨_, rfl⟩, rfl, rfl⟩

theorem Quiet.trans (h : Quiet s s₁) (h' : Quiet s₁ s') : Quiet s s' := by
  obtain ⟨n, hn⟩ := h.stat
  obtain ⟨n', hn'⟩ := h'.stat
  exact ⟨⟨n', by rw [hn', hn]⟩, h'.bucketStat.trans h.bucketStat,
    h'.oriLeadMapping.trans h.oriLeadMapping⟩

theorem quiet_addIntraCluster {n : Nat} : Quiet s (s.addIntraCluster n) := ⟨⟨_, rfl⟩, rfl, rfl⟩

theorem onServer_quiet {server : Nat} {f : CacheServer → Except Fault CacheServer}
    (h : s.onServer p server f = .ok s') : Quiet s s' := by
  obtain ⟨-, c, -, rfl⟩ := onServer_eq_ok h
  exact ⟨⟨_, rfl⟩, rfl, rfl⟩

theorem foldlM_quiet {F : Cluster → α → Except Fault Cluster} {l : List α}
    (hF : ∀ s a s', F s a = .ok s' → Quiet s s') (h : l.foldlM F s = .ok s') : Quiet s s' :=
  inv_of_run (I := Quiet s) (fun _ _ _ hq hs => hq.trans (hF _ _ _ hs)) (.refl s) h

theorem storeFull_quiet {server : Nat} (h : storeFull p req s server = .ok s') : Quiet s s' :=
  onServer_quiet h

theorem cacheHitFullObj_quiet (h : cacheHitFullObj p s m req d = .ok s') : Quiet s s' := by
  unfold cacheHitFullObj at h
  split at h
  case h_1 | h_2 =>
    obtain ⟨x, -, h⟩ := bind_eq_ok h
    obtain ⟨s₁, hs₁, h⟩ := bind_eq_ok h
    refine (storeFull_quiet hs₁).trans ?_
    split at h
    · obtain ⟨y, -, h⟩ := bind_eq_ok h
      exact onServer_quiet h
    · cases h
      exact .refl _
  · obtain ⟨x, -, h⟩ := bind_eq_ok h
    obtain ⟨s₁, -, h⟩ := bind_eq_ok h
    cases h
  · obtain ⟨l, -, h⟩ := bind_eq_ok h
    exact foldlM_quiet (fun _ _ _ => storeFull_quiet) h

theorem cacheMissFullObj_quiet (h : cacheMissFullObj p s m req = .ok s') : Quiet s s' := by
  obtain ⟨l, -, h⟩ := bind_eq_ok h
  exact foldlM_quiet (fun s x _ hs =>
    have hload : Quiet s (s.addWriteLoad x req.objSize) := ⟨⟨_, rfl⟩, rfl, rfl⟩
    hload.trans (storeFull_quiet hs)) h

theorem storeChunks_quiet {id size : Nat} {is : List Nat}
    (h : storeChunks p m id size is s = .ok s') : Quiet s s' := by
  refine foldlM_quiet (fun s i s' hs => ?_) h
  obtain ⟨x, -, hs⟩ := bind_eq_ok hs
  have hload : Quiet s (s.addWriteLoad x size) := ⟨⟨_, rfl⟩, rfl, rfl⟩
  exact hload.trans (onServer_quiet hs)

theorem cacheMissChunkObj_quiet (h : cacheMissChunkObj p s m req = .ok s') : Quiet s s' := by
  obtain ⟨s₁, hs₁, h⟩ := bind_eq_ok h
  have hdata := quiet_addIntraCluster.trans (storeChunks_quiet hs₁)
  split at h
  · exact hdata.trans (quiet_addIntraCluster.trans (storeChunks_quiet h))
  · cases h
    exact hdata

/-! ## Chunks -/

/-- What `_cache_hit_chunk_obj` counts. -/
theorem cacheHitChunkObj_counted {r : Cluster × Bool × Nat} {mid : Nat}
    (hmid : mid = (p.k - r.2.2) * p.chunkObjSize req.objSize)
    (h : cacheHitChunkObj p s m req = .ok r) : ∃ intraClusterBytes,
    r.1.stat = { s.stat with
      nMiss := addAt s.stat.nMiss (p.n - r.2.2) 1
      midgressBytes := s.stat.midgressBytes + mid
      intraClusterBytes } ∧
    r.1.bucketStat = Function.update s.bucketStat m.originalServer
      { s.bucketStat m.originalServer with
        midgress := (s.bucketStat m.originalServer).midgress + mid } ∧
    r.1.oriLeadMapping = s.oriLeadMapping ∧ (mid = 0 ↔ r.2.1 = true) ∧ 0 < r.2.2 ∧ r.2.2 ≤ p.n := by
  unfold cacheHitChunkObj at h
  split at h
  · cases h
  obtain ⟨idxs, -, h⟩ := bind_eq_ok h
  obtain ⟨c, -, h⟩ := bind_eq_ok h
  obtain ⟨c, -, h⟩ := bind_eq_ok h
  obtain ⟨⟨s₁, i⟩, hs₁, h⟩ := bind_eq_ok h
  have hquiet : Quiet s s₁ := by
    refine inv_of_run (I := fun si : Cluster × Nat => Quiet s si.1) (fun si j si' hq hstep => ?_)
      ⟨⟨_, rfl⟩, rfl, rfl⟩ hs₁
    unfold restoreChunk at hstep
    split at hstep
    · cases hstep
    · split at hstep
      · obtain ⟨i, -, hstep⟩ := bind_eq_ok hstep
        split at hstep
        · cases hstep
        · obtain ⟨x, -, hstep⟩ := bind_eq_ok hstep
          obtain ⟨s₂, hs₂, hstep⟩ := bind_eq_ok hstep
          cases hstep
          exact hq.trans (onServer_quiet hs₂)
      · cases hstep
        exact hq
  obtain ⟨n, hn⟩ := hquiet.stat
  dsimp only at h
  split at h
  · cases h
  · next hbound =>
    obtain ⟨hpos, hle⟩ := not_or.mp hbound
    cases h
    dsimp only at hmid ⊢
    subst hmid
    by_cases hfew : c.nChunkHit < p.k
    · have hsize : 0 < p.chunkObjSize req.objSize := by
        have := req.pos
        exact Nat.div_pos (by omega) (by omega)
      refine ⟨
        n + c.nDuplicateChunks * p.chunkObjSize req.objSize + p.chunkObjSize req.objSize * (p.n - 1),
        ?_, ?_, ?_, ?_, Nat.pos_of_ne_zero hpos, Nat.le_of_not_lt hle⟩
      · rw [if_pos hfew]
        simp only [addIntraCluster, addMidgress, hn]
      · rw [if_pos hfew]
        simp only [addIntraCluster, addMidgress, hquiet.bucketStat]
      · rw [if_pos hfew]
        exact hquiet.oriLeadMapping
      · rw [decide_eq_true_iff]
        have hmid : 0 < (p.k - c.nChunkHit) * p.chunkObjSize req.objSize :=
          Nat.mul_pos (by omega) hsize
        omega
    · have hnone : (p.k - c.nChunkHit) * p.chunkObjSize req.objSize = 0 := by
        rw [Nat.sub_eq_zero_of_le (Nat.le_of_not_lt hfew), Nat.zero_mul]
      rw [hnone]
      refine ⟨
        n + c.nDuplicateChunks * p.chunkObjSize req.objSize + p.chunkObjSize req.objSize * (p.n - 1),
        ?_, ?_, ?_, ?_, Nat.pos_of_ne_zero hpos, Nat.le_of_not_lt hle⟩
      · rw [if_neg hfew]
        simp only [addIntraCluster, hn, Nat.add_zero]
      · rw [if_neg hfew]
        simp only [addIntraCluster, hquiet.bucketStat, Nat.add_zero, Function.update_eq_self]
      · rw [if_neg hfew]
        exact hquiet.oriLeadMapping
      · exact iff_of_true rfl (decide_eq_true (Nat.le_of_not_lt hfew))

/-! ## Requests -/

/-- A type that the cluster sets. -/
def SetType (t : ObjType) : Prop := t = .fullObj ∨ t = .chunkObj

/-- Every copy has a type that the cluster has set. -/
def TypesSet (s : Cluster) : Prop :=
  ∀ x id o, (s.servers x).cache.getObj id = some o → SetType o.info.objType

theorem findObj_typed (htypes : TypesSet s) {id x : Nat} {t : ObjType}
    (h : s.findObj p m id = .ok (some (x, t))) : SetType t := by
  obtain ⟨o, ho, rfl⟩ := findObj_some h
  exact htypes x id o ho

/-- All writes set the type. -/
theorem Served.setsType {hit : ClusterHit} (h : Served p s req m s' hit) :
    ∃ ws, (∀ w ∈ ws, ∀ info, SetType (w.info info).objType) ∧ Effect p req.objId ws s s' := by
  cases h with
  | fullHit _ _ effect | fullMiss _ _ _ effect =>
    refine ⟨_, fun w hw info => ?_, effect⟩
    obtain ⟨x, -, rfl⟩ := List.mem_map.mp hw
    exact .inl rfl
  | chunkMiss _ _ effect =>
    refine ⟨_, fun w hw info => ?_, effect⟩
    obtain ⟨i, -, rfl⟩ := List.mem_map.mp hw
    exact .inr rfl
  | chunkHit _ hit same =>
    refine ⟨_, fun w hw info => ?_, hit.effect.trans_same same⟩
    obtain ⟨ij, -, rfl⟩ := List.mem_map.mp hw
    exact .inr rfl
  | uncounted _ _ same | refused _ _ same => exact ⟨[], nofun, same.effect⟩

theorem typesSet_get {r : Cluster × ClusterHit} (htypes : TypesSet s) (h : s.get p req d = .ok r) :
    TypesSet r.1 := by
  obtain ⟨m, -, hserved⟩ := get_ends.ok h
  obtain ⟨ws, hws, heff⟩ := hserved.setsType
  intro x
  refine heff.writes.induct
    (P := fun c : CacheServer => ∀ id o, c.cache.getObj id = some o → SetType o.info.objType)
    (fun w hw c t c' hc hput id o ho => ?_) (htypes x)
  cases hav : c.available with
  | true =>
    have hput := CacheServer.put_available hav hput
    by_cases hid : id = req.objId
    · rw [hid, hput.self] at ho
      cases ho
      exact hws w hw _
    · exact hc id o (hput.other id o hid ho)
  | false =>
    obtain ⟨⟨o₀, ho₀⟩, rfl⟩ := CacheServer.put_unavailable hav hput
    by_cases hid : id = req.objId
    · rw [hid, Cache.getObj_setInfo_self ho₀] at ho
      cases ho
      exact hws w hw _
    · rw [Cache.getObj_setInfo_other hid] at ho
      exact hc id o ho

/-- The end of `get` counts a hit. -/
theorem countHit_full {s' : Cluster} {hit : ClusterHit} (hhit : hit.isHit = true)
    (htype : hit.objType = .fullObj) (h : countHit p s m req hit = .ok s') :
    s' = { s with
      stat := { s.stat with
        clusterHitCnt := s.stat.clusterHitCnt + 1
        clusterHitBytes := s.stat.clusterHitBytes + req.objSize
        fullObjHitCnt := s.stat.fullObjHitCnt + 1
        fullObjHitBytes := s.stat.fullObjHitBytes + req.objSize }
      bucketStat := Function.update s.bucketStat m.originalServer
        { s.bucketStat m.originalServer with
          hitCnt := (s.bucketStat m.originalServer).hitCnt + 1 } } := by
  unfold countHit at h
  rw [if_pos hhit] at h
  split at h
  · cases h
  · rw [htype] at h
    cases h
    rfl

theorem countHit_chunk {s' : Cluster} {hit : ClusterHit} (hhit : hit.isHit = true)
    (htype : hit.objType = .chunkObj) (h : countHit p s m req hit = .ok s') :
    s' = { s with
      stat := { s.stat with
        clusterHitCnt := s.stat.clusterHitCnt + 1
        clusterHitBytes := s.stat.clusterHitBytes + req.objSize
        chunkObjHitCnt := s.stat.chunkObjHitCnt + 1
        chunkObjHitBytes := s.stat.chunkObjHitBytes + req.objSize }
      bucketStat := Function.update s.bucketStat m.originalServer
        { s.bucketStat m.originalServer with
          hitCnt := (s.bucketStat m.originalServer).hitCnt + 1 } } := by
  unfold countHit at h
  rw [if_pos hhit] at h
  split at h
  · cases h
  · rw [htype] at h
    cases h
    rfl

theorem countHit_none {s' : Cluster} {hit : ClusterHit} (hhit : hit.isHit = false)
    (h : countHit p s m req hit = .ok s') : s' = s := by
  unfold countHit at h
  rw [if_neg (by rw [hhit]; exact Bool.false_ne_true)] at h
  cases h
  rfl

theorem shouldAdmit_quiet : Quiet s (s.shouldAdmit p req).1 := by
  unfold shouldAdmit
  split <;> exact ⟨⟨_, rfl⟩, rfl, rfl⟩

/-- A miss is charged with the whole object. -/
theorem serveMiss_counted {admitted : Bool} (h : s.serveMiss p m req admitted = .ok s') :
    Quiet (s.addMidgress m.originalServer req.objSize) s' := by
  unfold serveMiss at h
  dsimp only at h
  split at h
  · obtain ⟨coded, -, h⟩ := bind_eq_ok h
    have hread : ∀ s : Cluster, Quiet s (s.addReadLoad m.leadServer req.objSize) := fun s =>
      ⟨⟨_, rfl⟩, rfl, rfl⟩
    split at h
    · exact (hread _).trans (cacheMissChunkObj_quiet h)
    · exact (hread _).trans (cacheMissFullObj_quiet h)
  · cases h
    exact .refl _

/-- A request adds to the counters what `Counted` says, unless it finds a copy without a type. -/
theorem get_cases {r : Cluster × ClusterHit} (h : s.get p req d = .ok r) :
    ∃ m found, findMappedServers p s req d = .ok m ∧ s.findObj p m req.objId = .ok found ∧
      ((∃ o, o.Is (found.map Prod.snd) r.2 ∧ Counted p s req m.originalServer o r.2.nChunkHit
        (o.charge p req r.2.nChunkHit) r.1) ∨
      ∃ x t, found = some (x, t) ∧ ¬ SetType t ∧ Quiet (s.countReq m req) r.1) := by
  obtain ⟨m, hm, h⟩ := bind_eq_ok h
  obtain ⟨found, hfound, h⟩ := bind_eq_ok h
  change s.findObj p m req.objId = .ok found at hfound
  have hpass : Quiet (s.countReq m req) ((s.countReq m req).shouldAdmit p req).1 := shouldAdmit_quiet
  generalize (s.countReq m req).shouldAdmit p req = sa at h hpass
  obtain ⟨s₁, admitted⟩ := sa
  dsimp only at h hpass
  cases found with
  | none =>
    obtain ⟨s₂, hs₂, h⟩ := bind_eq_ok h
    cases h
    refine ⟨m, none, hm, hfound, .inl ⟨.miss, ⟨rfl, rfl⟩, ?_⟩⟩
    have hmiss := serveMiss_counted hs₂
    obtain ⟨n₁, hn₁⟩ := hpass.stat
    obtain ⟨n₂, hn₂⟩ := hmiss.stat
    refine ⟨⟨n₂, ?_⟩, ?_, ?_, ?_, nofun⟩
    · rw [hn₂, addMidgress, hn₁]
      simp [countReq, Outcome.isHit, Outcome.chunkPath, Outcome.charge]
    · rw [hmiss.bucketStat, addMidgress, hpass.bucketStat, countReq]
      simp [addRow, Outcome.isHit, Outcome.charge]
    · rw [hmiss.oriLeadMapping]
      exact hpass.oriLeadMapping
    · exact iff_of_false (Nat.ne_of_gt req.pos) Bool.false_ne_true
  | some xt =>
    obtain ⟨x, t⟩ := xt
    obtain ⟨⟨s₂, isHit, nChunkHit⟩, hs₂, h⟩ := bind_eq_ok h
    obtain ⟨s₃, hs₃, h⟩ := bind_eq_ok h
    cases h
    cases t with
    | fullObj =>
      obtain ⟨s₂', hs₂', heq⟩ := bind_eq_ok hs₂
      cases heq
      refine ⟨m, _, hm, hfound, .inl ⟨.fullHit, ⟨rfl, rfl⟩, ?_⟩⟩
      have hread : Quiet s₁ (s₁.addReadLoad x req.objSize) := ⟨⟨_, rfl⟩, rfl, rfl⟩
      have hquiet := hpass.trans (hread.trans (cacheHitFullObj_quiet hs₂'))
      obtain ⟨n, hn⟩ := hquiet.stat
      obtain rfl := countHit_full rfl rfl hs₃
      refine ⟨⟨n, ?_⟩, ?_, hquiet.oriLeadMapping, ?_, nofun⟩
      · dsimp only
        rw [hn]
        simp [countReq, Outcome.isHit, Outcome.chunkPath, Outcome.charge]
      · dsimp only
        rw [hquiet.bucketStat, countReq]
        simp [addRow, Outcome.isHit, Outcome.charge]
      · exact iff_of_true rfl rfl
    | chunkObj =>
      obtain ⟨intra, hstat, hrow, hlead, hmid, hpos, hle⟩ := cacheHitChunkObj_counted rfl hs₂
      dsimp only at hstat hrow hlead hmid hpos hle
      obtain ⟨n₁, hn₁⟩ := hpass.stat
      rw [hn₁] at hstat
      rw [hpass.bucketStat] at hrow
      rw [hpass.oriLeadMapping] at hlead
      cases isHit with
      | true =>
        refine ⟨m, _, hm, hfound, .inl ⟨.chunkHit, ⟨rfl, rfl⟩, ?_⟩⟩
        obtain rfl := countHit_chunk rfl rfl hs₃
        refine ⟨⟨intra, ?_⟩, ?_, hlead, ?_, fun _ => ⟨hpos, hle⟩⟩
        · dsimp only
          rw [hstat]
          simp [countReq, Outcome.isHit, Outcome.chunkPath, Outcome.charge]
        · dsimp only
          rw [hrow, countReq]
          simp [addRow, Outcome.isHit, Outcome.charge]
        · exact hmid
      | false =>
        refine ⟨m, _, hm, hfound, .inl ⟨.partialHit, ⟨rfl, rfl⟩, ?_⟩⟩
        obtain rfl := countHit_none rfl hs₃
        refine ⟨⟨intra, ?_⟩, ?_, hlead, ?_, fun _ => ⟨hpos, hle⟩⟩
        · rw [hstat]
          simp [countReq, Outcome.isHit, Outcome.chunkPath, Outcome.charge]
        · rw [hrow, countReq]
          simp [addRow, Outcome.isHit, Outcome.charge]
        · exact hmid

    | unknownObjType => cases hs₂
    | unset | invalidObj =>
      cases hs₂
      obtain rfl := countHit_none rfl hs₃
      exact ⟨m, _, hm, hfound, .inr ⟨x, _, rfl, nofun, hpass⟩⟩

/-- **What a request adds to the counters.** -/
theorem get_counted (htypes : TypesSet s) {r : Cluster × ClusterHit} (h : s.get p req d = .ok r) :
    ∃ m found o mid, findMappedServers p s req d = .ok m ∧
      s.findObj p m req.objId = .ok found ∧ o.Is (found.map Prod.snd) r.2 ∧
      Counted p s req m.originalServer o r.2.nChunkHit mid r.1 := by
  obtain ⟨m, found, hm, hfound, ⟨o, ho, hcounted⟩ | ⟨x, t, rfl, ht, -⟩⟩ := get_cases h
  · exact ⟨m, found, o, _, hm, hfound, ho, hcounted⟩
  · exact absurd (findObj_typed htypes hfound) ht

theorem get_nAvailServer {r : Cluster × ClusterHit} (h : s.get p req d = .ok r) :
    r.1.stat.nAvailServer = s.stat.nAvailServer := by
  obtain ⟨m, found, -, -, ⟨o, -, hcounted⟩ | ⟨x, t, -, -, hquiet⟩⟩ := get_cases h
  · obtain ⟨n, hn⟩ := hcounted.stat
    rw [hn]
  · obtain ⟨n, hn⟩ := hquiet.stat
    rw [hn]
    rfl

end

end Cluster

end C2DN.Simulator
