import C2DN.Simulator.Availability

/-!
# The counters of a run

What `cluster_stat` and the rows of `bucket_stat` say about a run: `Accounts` compares them with the
requests that have been served and with the rows that have been logged, for every run of the thread.

While `get` handles chunks, `req->obj_size` is the size of a chunk. `getVar` is `get` with this
variable; it is `get` and leaves the variable as it was.
-/

namespace C2DN.Simulator

namespace Cluster

/-! ## `req->obj_size` as a variable -/

/-- `_cache_miss_chunk_obj`, with `req->obj_size` at its end. -/
def cacheMissChunkObjVar (p : Params) (s : Cluster) (m : Mapped) (objId objSize : Nat) :
    Except Fault (Cluster × Nat) := do
  let fullObjSize := objSize
  let chunkObjSize := p.chunkObjSize fullObjSize
  let objSize := chunkObjSize
  let s := s.addIntraCluster (chunkObjSize * (p.k - 1))
  let s ← storeChunks p m objId objSize (List.range p.k) s
  let s ← if p.mode = .c2dnAddN ∨ p.mode = .c2dnAddNThreeRep then
      storeChunks p m objId objSize (List.range' p.k (p.n - p.k))
        (s.addIntraCluster (chunkObjSize * (p.n - 1)))
    else .ok s
  let objSize := fullObjSize
  .ok (s, objSize)

/-- `_cache_hit_chunk_obj`, with `req->obj_size` at its end. -/
def cacheHitChunkObjVar (p : Params) (s : Cluster) (m : Mapped) (objId objSize : Nat) :
    Except Fault ((Cluster × Bool × Nat) × Nat) :=
  if maxNServer < p.nServer then .error .outOfBounds
  else do
    let fullObjSize := objSize
    let chunkObjSize := p.chunkObjSize objSize
    let objSize := chunkObjSize
    let idxs ← firstIdxs m.serverIdxs p.n
    let c ← idxs.zipIdx.foldlM (fun c (server, i) => getChunkInfo p s objId objSize c server i)
      (ChunkInfo.init s)
    let c ← checkExtras p s m objId objSize c
    let s := { s with readLoadByte := c.readLoadByte, writeLoadByte := c.writeLoadByte }
    let (s, _) ← (List.range p.n).foldlM (restoreChunk p m objId objSize c) (s, 0)
    let s := s.addIntraCluster (c.nDuplicateChunks * chunkObjSize)
    let s := if c.nChunkHit < p.k then
      s.addMidgress m.originalServer ((p.k - c.nChunkHit) * chunkObjSize) else s
    let s := s.addIntraCluster (chunkObjSize * (p.n - 1))
    if c.nChunkHit = 0 ∨ p.n < c.nChunkHit then .error .outOfBounds
    else
      let s := { s with stat := { s.stat with nMiss := addAt s.stat.nMiss (p.n - c.nChunkHit) 1 } }
      let objSize := fullObjSize
      .ok ((s, decide (p.k ≤ c.nChunkHit), c.nChunkHit), objSize)

/-- The end of `get` reads the variable. -/
def countHitVar (p : Params) (s : Cluster) (m : Mapped) (objSize : Nat) (hit : ClusterHit) :
    Except Fault Cluster :=
  if hit.isHit then
    if p.n < hit.nChunkHit then .error .tooManyHits
    else
      let b := s.bucketStat m.originalServer
      let s := { s with
        stat := { s.stat with
          clusterHitCnt := s.stat.clusterHitCnt + 1
          clusterHitBytes := s.stat.clusterHitBytes + objSize }
        bucketStat := Function.update s.bucketStat m.originalServer
          { b with hitCnt := b.hitCnt + 1 } }
      match hit.objType with
      | .fullObj => .ok { s with stat := { s.stat with
          fullObjHitCnt := s.stat.fullObjHitCnt + 1
          fullObjHitBytes := s.stat.fullObjHitBytes + objSize } }
      | .chunkObj => .ok { s with stat := { s.stat with
          chunkObjHitCnt := s.stat.chunkObjHitCnt + 1
          chunkObjHitBytes := s.stat.chunkObjHitBytes + objSize } }
      | _ => .error .unknownType
  else .ok s

def serveHitVar (p : Params) (s : Cluster) (m : Mapped) (req : Request) (d : Draws)
    (serverToRead : Nat) (objType : ObjType) : Except Fault ((Cluster × Bool × Nat) × Nat) :=
  match objType with
  | .fullObj => do
    let s ← cacheHitFullObj p (s.addReadLoad serverToRead req.objSize) m req d
    .ok ((s, true, 0), req.objSize)
  | .chunkObj => cacheHitChunkObjVar p s m req.objId req.objSize
  | .unknownObjType => .error .unknownType
  | .unset | .invalidObj => .ok ((s, false, 0), req.objSize)

def serveMissVar (p : Params) (s : Cluster) (m : Mapped) (req : Request) (admitted : Bool) :
    Except Fault (Cluster × Nat) := do
  let s := s.addMidgress m.originalServer req.objSize
  if admitted then
    let s := s.addReadLoad m.leadServer req.objSize
    if ← checkCodingPolicy p req then cacheMissChunkObjVar p s m req.objId req.objSize
    else
      let s ← cacheMissFullObj p s m req
      .ok (s, req.objSize)
  else .ok (s, req.objSize)

/-- `get`, with `req->obj_size` at its end. -/
def getVar (p : Params) (s : Cluster) (req : Request) (d : Draws) :
    Except Fault ((Cluster × ClusterHit) × Nat) := do
  let m ← findMappedServers p s req d
  let s := s.countReq m req
  let found ← s.findObj p m req.objId
  let (s, admitted) := s.shouldAdmit p req
  match found with
  | some (serverToRead, objType) =>
    let ((s, isHit, nChunkHit), objSize) ← s.serveHitVar p m req d serverToRead objType
    let hit := ⟨isHit, false, false, nChunkHit, m.leadServer, objType⟩
    let s ← s.countHitVar p m objSize hit
    .ok ((s, hit), objSize)
  | none =>
    let (s, objSize) ← s.serveMissVar p m req admitted
    .ok ((s, ⟨false, false, false, 0, m.leadServer, .unset⟩), objSize)

section
variable {p : Params} {s : Cluster} {m : Mapped} {req : Request} {d : Draws}

theorem cacheMissChunkObjVar_eq : cacheMissChunkObjVar p s m req.objId req.objSize =
    (cacheMissChunkObj p s m req).map fun s => (s, req.objSize) := by
  refine bind_eq_map_bind fun s₁ => ?_
  split
  · exact bind_ok_eq
  · rfl

theorem cacheHitChunkObjVar_eq : cacheHitChunkObjVar p s m req.objId req.objSize =
    (cacheHitChunkObj p s m req).map fun r => (r, req.objSize) := by
  unfold cacheHitChunkObjVar cacheHitChunkObj
  split
  · rfl
  · refine bind_eq_map_bind fun idxs => bind_eq_map_bind fun c => bind_eq_map_bind fun c =>
      bind_eq_map_bind fun ⟨s₁, i⟩ => ?_
    dsimp only
    split
    · rfl
    · rfl

theorem serveHitVar_eq {x : Nat} {t : ObjType} : serveHitVar p s m req d x t =
    (serveHit p s m req d x t).map fun r => (r, req.objSize) := by
  cases t with
  | fullObj => exact bind_eq_map_bind fun s₁ => rfl
  | chunkObj => exact cacheHitChunkObjVar_eq
  | unknownObjType | unset | invalidObj => rfl

theorem serveMissVar_eq {admitted : Bool} : serveMissVar p s m req admitted =
    (serveMiss p s m req admitted).map fun s => (s, req.objSize) := by
  unfold serveMissVar serveMiss
  dsimp only
  split
  · refine bind_eq_map_bind fun coded => ?_
    split
    · exact cacheMissChunkObjVar_eq
    · exact bind_ok_eq
  · rfl

/-- **`req->obj_size`** is the same before and after `get`. -/
theorem getVar_eq : s.getVar p req d = (s.get p req d).map fun r => (r, req.objSize) := by
  refine bind_eq_map_bind fun m => bind_eq_map_bind fun found => ?_
  generalize (s.countReq m req).shouldAdmit p req = sa
  obtain ⟨s₁, admitted⟩ := sa
  cases found with
  | none =>
    dsimp only
    rw [serveMissVar_eq]
    exact bind_map_eq.trans (bind_eq_map_bind fun s₂ => rfl)
  | some xt =>
    dsimp only
    rw [serveHitVar_eq]
    refine bind_map_eq.trans (bind_eq_map_bind fun r => ?_)
    exact bind_eq_map_bind fun s₃ => rfl

end

end Cluster

/-! ## The output of a run -/

/-- A request that has been served: the type of the copy that was found, the result, the bytes that
were charged as midgress and `req->obj_size` afterwards. -/
structure Entry where
  found : Option ObjType
  hit : ClusterHit
  midgress : Nat
  objSize : Nat

/-- The requests, and the rows that have been written to `log_bucket_ofstream`. -/
structure Output where
  entries : List Entry
  rows : List BucketStat

namespace Cluster

/-- The type of the copy that `get` finds. -/
def foundType (p : Params) (s : Cluster) (req : Request) (d : Draws) : Option ObjType :=
  match (findMappedServers p s req d).bind fun m => s.findObj p m req.objId with
  | .ok found => found.map Prod.snd
  | .error _ => none

end Cluster

namespace Thread

/-- One round of the loop, with its output. -/
def stepOut (p : Params) (logInterval : Nat) (x : Thread × Output) (a : Arrival) :
    Except Fault (Thread × Output) := do
  let t ← x.1.updateAvailability p a.realTime
  let ((s, hit), objSize) ← t.cluster.getVar p a.req a.draws
  let entry : Entry := {
    found := t.cluster.foundType p a.req a.draws, hit
    midgress := s.stat.midgressBytes - t.cluster.stat.midgressBytes, objSize }
  let rows := if logInterval ≠ 0 ∧ logInterval ≤ elapsed a.realTime t.lastLogOtime then
    (List.range p.nServer).map s.bucketStat else []
  .ok (log p logInterval { t with cluster := s, vtime := t.vtime + 1 } a.realTime,
    ⟨x.2.entries ++ [entry], x.2.rows ++ rows⟩)

def runOut (p : Params) (logInterval : Nat) (arrivals : List Arrival) (x : Thread × Output) :
    Except Fault (Thread × Output) :=
  arrivals.foldlM (stepOut p logInterval) x

/-- The sum of a column: the rows since the last clear, and those that have been logged. -/
def column (p : Params) (f : BucketStat → Nat) (t : Thread) (out : Output) : Nat :=
  ∑ x ∈ Finset.range p.nServer, f (t.cluster.bucketStat x) + (out.rows.map f).sum

/-- A request of the trace and what has become of it. -/
structure EntryOk (a : Arrival) (e : Entry) : Prop where
  objSize : e.objSize = a.req.objSize
  outcome : ∃! o : Cluster.Outcome, o.Is e.found e.hit
  midgress : e.midgress ≠ 0 ↔ ∃ o : Cluster.Outcome, o.Is e.found e.hit ∧ (o = .partialHit ∨ o = .miss)

/-- The counters agree with the requests and with the rows. -/
structure Accounts (p : Params) (arrivals : List Arrival) (t : Thread) (out : Output) : Prop where
  entries : List.Forall₂ EntryOk arrivals out.entries
  reqCnt : t.cluster.stat.clusterReqCnt = arrivals.length
  reqBytes : t.cluster.stat.clusterReqBytes = (arrivals.map (·.req.objSize)).sum
  hitCnt : t.cluster.stat.clusterHitCnt =
    t.cluster.stat.fullObjHitCnt + t.cluster.stat.chunkObjHitCnt
  hitCnt_le : t.cluster.stat.clusterHitCnt ≤ t.cluster.stat.clusterReqCnt
  hitBytes : t.cluster.stat.clusterHitBytes =
    t.cluster.stat.fullObjHitBytes + t.cluster.stat.chunkObjHitBytes
  hitBytes_le : t.cluster.stat.clusterHitBytes ≤ t.cluster.stat.clusterReqBytes
  midgress : t.cluster.stat.midgressBytes = (out.entries.map (·.midgress)).sum
  nMiss : ∑ i ∈ Finset.range p.n, t.cluster.stat.nMiss i =
    out.entries.countP fun e => e.found = some .chunkObj
  rowReqCnt : column p BucketStat.reqCnt t out = t.cluster.stat.clusterReqCnt
  rowHitCnt : column p BucketStat.hitCnt t out = t.cluster.stat.clusterHitCnt
  rowReqByte : column p BucketStat.reqByte t out = t.cluster.stat.clusterReqBytes
  rowMidgress : column p BucketStat.midgress t out = t.cluster.stat.midgressBytes

end Thread

/-! ## Updates count nothing -/

namespace Cluster

/-- The original servers are servers. -/
def LeadsOk (p : Params) (s : Cluster) : Prop := ∀ b, s.oriLeadMapping b < p.nServer

/-- Nothing but the number of available servers is counted, and the copies stay. -/
structure KeepsCounts (p : Params) (s s' : Cluster) : Prop where
  stat : ∃ n, s'.stat = { s.stat with nAvailServer := n }
  bucketStat : s'.bucketStat = s.bucketStat
  cache : ∀ x, (s'.servers x).cache = (s.servers x).cache
  leads : LeadsOk p s → LeadsOk p s'

section
variable {α : Type} {p : Params} {s s₁ s' : Cluster}

theorem KeepsCounts.refl (s : Cluster) : KeepsCounts p s s := ⟨⟨_, rfl⟩, rfl, fun _ => rfl, id⟩

theorem KeepsCounts.trans (h : KeepsCounts p s s₁) (h' : KeepsCounts p s₁ s') : KeepsCounts p s s' := by
  obtain ⟨n, hn⟩ := h.stat
  obtain ⟨n', hn'⟩ := h'.stat
  exact ⟨⟨n', by rw [hn', hn]⟩, h'.bucketStat.trans h.bucketStat,
    fun x => (h'.cache x).trans (h.cache x), h'.leads ∘ h.leads⟩

theorem KeepsCounts.typesSet (h : KeepsCounts p s s') (htypes : TypesSet s) : TypesSet s' := by
  intro x id o ho
  rw [h.cache] at ho
  exact htypes x id o ho

theorem failOneServer_keepsCounts {x : Nat} (h : s.failOneServer p x = .ok s') : KeepsCounts p s s' := by
  have hcache := (failOneServer_switched h).cache
  obtain ⟨s₁, hs₁, h⟩ := bind_eq_ok h
  obtain ⟨-, c, -, rfl⟩ := onServer_eq_ok hs₁
  cases h
  exact ⟨⟨_, rfl⟩, rfl, hcache, id⟩

theorem recoverOneServer_keepsCounts {x : Nat} (h : s.recoverOneServer p x = .ok s') : KeepsCounts p s s' := by
  obtain rfl | hsw := recoverOneServer_switched h
  · exact .refl _
  · unfold recoverOneServer at h
    split at h
    · split at h
      · cases h
        exact .refl _
      · obtain ⟨s₁, hs₁, h⟩ := bind_eq_ok h
        obtain ⟨-, c, -, rfl⟩ := onServer_eq_ok hs₁
        cases h
        exact ⟨⟨_, rfl⟩, rfl, hsw.cache, id⟩
    · cases h

theorem populateBucket_keepsCounts {sc sc' : Cluster × (Nat → Nat)} {b : Nat}
    (h : populateBucket p sc b = .ok sc') : KeepsCounts p sc.1 sc'.1 := by
  obtain ⟨r, hr, rfl⟩ := map_eq_ok h
  refine ⟨⟨_, rfl⟩, rfl, fun _ => rfl, fun hleads b' => ?_⟩
  dsimp only
  by_cases hb : b' = b
  · rw [hb, Function.update_self]
    obtain ⟨w, -, rfl⟩ := map_eq_ok hr
    exact p.ring.serverAt_lt _
  · rw [Function.update_of_ne hb]
    exact hleads b'

theorem populateHashMapping_keepsCounts (h : populateHashMapping p s = .ok s') : KeepsCounts p s s' := by
  obtain ⟨sc, hsc, h⟩ := bind_eq_ok h
  have hloop : KeepsCounts p s sc.1 := by
    refine inv_of_run (I := fun sc : Cluster × (Nat → Nat) => KeepsCounts p s sc.1)
      (fun sc b sc' hsc h => hsc.trans (populateBucket_keepsCounts h)) ?_ hsc
    exact ⟨⟨_, rfl⟩, rfl, fun _ => rfl, id⟩
  split at h
  · unfold findParityMapping at h
    split at h
    · cases h
    · dsimp only at h
      split at h
      · cases h
      · cases h
        exact hloop.trans ⟨⟨_, rfl⟩, rfl, fun _ => rfl, id⟩
  · cases h
    exact hloop

theorem changeFailedServers_keepsCounts {failed : List Nat} (h : s.changeFailedServers p failed = .ok s') :
    KeepsCounts p s s' := by
  obtain ⟨s₁, hs₁, h⟩ := bind_eq_ok h
  obtain ⟨s₂, hs₂, h⟩ := bind_eq_ok h
  have hrecover : KeepsCounts p s s₁ := inv_of_run (I := KeepsCounts p s)
    (fun _ _ _ hk h => hk.trans (recoverOneServer_keepsCounts h)) (.refl s) hs₁
  have hfail : KeepsCounts p s₁ s₂ := inv_of_run (I := KeepsCounts p s₁)
    (fun _ _ _ hk h => hk.trans (failOneServer_keepsCounts h)) (.refl s₁) hs₂
  exact hrecover.trans (hfail.trans (populateHashMapping_keepsCounts h))

end

end Cluster

namespace Thread

section
variable {p : Params} {t t' : Thread} {logInterval now : Nat}

theorem updateAvailability_keepsCounts (h : t.updateAvailability p now = .ok t') :
    t.cluster.KeepsCounts p t'.cluster := by
  rcases updateAvailability_cases h with rfl | ⟨failed, rest, -, -, -, h⟩
  · exact .refl _
  · rcases h with ⟨-, hcluster⟩ | ⟨-, hchange⟩
    · rw [hcluster]
      exact .refl _
    · exact Cluster.changeFailedServers_keepsCounts hchange

/-! ## Sums of columns -/

theorem sum_update {n j v : Nat} {f : Nat → Nat} (hj : j < n) :
    ∑ x ∈ Finset.range n, Function.update f j v x + f j = ∑ x ∈ Finset.range n, f x + v := by
  rw [Finset.sum_update_of_mem (Finset.mem_range.mpr hj), Finset.sdiff_singleton_eq_erase,
    ← Finset.add_sum_erase _ f (Finset.mem_range.mpr hj)]
  omega

theorem sum_addAt {n j d : Nat} {f : Nat → Nat} (hj : j < n) :
    ∑ x ∈ Finset.range n, addAt f j d x = ∑ x ∈ Finset.range n, f x + d := by
  have h := sum_update (f := f) (v := f j + d) hj
  unfold addAt
  omega

/-- A request adds to the row of its original server. -/
theorem sum_row {f : BucketStat → Nat} {rows : Nat → BucketStat} {n j d : Nat} {b : BucketStat}
    (hj : j < n) (hf : f b = f (rows j) + d) :
    ∑ x ∈ Finset.range n, f (Function.update rows j b x) =
      ∑ x ∈ Finset.range n, f (rows x) + d := by
  have h := sum_update (f := fun x => f (rows x)) (v := f b) hj
  have hcomp : ∑ x ∈ Finset.range n, f (Function.update rows j b x) =
      ∑ x ∈ Finset.range n, Function.update (fun x => f (rows x)) j (f b) x :=
    Finset.sum_congr rfl fun x _ => Function.apply_update (fun _ => f) rows j b x
  omega

/-! ## Runs -/

/-- What a run keeps, besides the accounts. -/
structure LedgerInv (p : Params) (arrivals : List Arrival) (t : Thread) (out : Output) : Prop where
  accounts : Accounts p arrivals t out
  types : t.cluster.TypesSet
  leads : t.cluster.LeadsOk p

theorem entryOk_of_counted {s s' : Cluster} {a : Arrival} {x : Nat} {o : Cluster.Outcome}
    {found : Option ObjType} {hit : ClusterHit} {mid : Nat} (ho : o.Is found hit)
    (h : s.Counted p a.req x o hit.nChunkHit mid s') : EntryOk a ⟨found, hit, mid, a.req.objSize⟩ where
  objSize := rfl
  outcome := ⟨o, ho, fun _ ho' => ho'.unique ho⟩
  midgress := by
    have hmid := not_congr h.midgress
    dsimp only
    rw [← ne_eq] at hmid
    rw [hmid]
    constructor
    · intro hmiss
      refine ⟨o, ho, ?_⟩
      cases o <;> simp_all [Cluster.Outcome.isHit]
    · rintro ⟨o', ho', hcases⟩
      rw [ho.unique ho']
      obtain rfl | rfl := hcases <;> exact Bool.false_ne_true

/-- A request that is counted. -/
theorem Accounts.counted {arrivals : List Arrival} {out : Output} {a : Arrival} {s : Cluster}
    {o : Cluster.Outcome} {found : Option ObjType} {hit : ClusterHit} {mid x vtime : Nat}
    (A : Accounts p arrivals t out) (hx : x < p.nServer) (ho : o.Is found hit)
    (h : t.cluster.Counted p a.req x o hit.nChunkHit mid s) :
    Accounts p (arrivals ++ [a]) { t with cluster := s, vtime }
      ⟨out.entries ++ [⟨found, hit, mid, a.req.objSize⟩], out.rows⟩ := by
  obtain ⟨intra, hstat⟩ := h.stat
  have hsplit : o.isHit.toNat =
      (decide (o = .fullHit)).toNat + (decide (o = .chunkHit)).toNat := by
    cases o <;> rfl
  have hone : o.isHit.toNat ≤ 1 := Bool.toNat_le _
  have hcolumn : ∀ (f : BucketStat → Nat) d,
      f (Cluster.addRow (t.cluster.bucketStat x) a.req.objSize o.isHit mid) =
        f (t.cluster.bucketStat x) + d →
      column p f { t with cluster := s, vtime }
        ⟨out.entries ++ [⟨found, hit, mid, a.req.objSize⟩], out.rows⟩ = column p f t out + d := by
    intro f d hf
    unfold column
    dsimp only
    rw [h.bucketStat, sum_row hx hf]
    omega
  have hmiss : ∑ i ∈ Finset.range p.n, s.stat.nMiss i =
      ∑ i ∈ Finset.range p.n, t.cluster.stat.nMiss i + o.chunkPath.toNat := by
    rw [hstat]
    dsimp only
    cases hpath : o.chunkPath with
    | false => rfl
    | true =>
      obtain ⟨hpos, hle⟩ := h.hits hpath
      rw [if_pos rfl, sum_addAt (by omega)]
      rfl
  have hpath : o.chunkPath = decide (found = some .chunkObj) := by
    cases o <;> simp [Cluster.Outcome.chunkPath, ho.1]
  refine ⟨?_, ?_, ?_, ?_, ?_, ?_, ?_, ?_, ?_, ?_, ?_, ?_, ?_⟩
  · exact List.rel_append A.entries (.cons (entryOk_of_counted ho h) .nil)
  · rw [hstat, List.length_append, ← A.reqCnt]
    rfl
  · rw [hstat, List.map_append, List.sum_append, ← A.reqBytes]
    rfl
  · rw [hstat]
    have := A.hitCnt
    dsimp only
    omega
  · rw [hstat]
    have := A.hitCnt_le
    dsimp only
    omega
  · rw [hstat]
    have := A.hitBytes
    dsimp only
    rw [hsplit, Nat.add_mul]
    omega
  · rw [hstat]
    have := A.hitBytes_le
    have hbytes : o.isHit.toNat * a.req.objSize ≤ 1 * a.req.objSize := Nat.mul_le_mul_right _ hone
    dsimp only
    omega
  · rw [hstat, List.map_append, List.sum_append, ← A.midgress]
    rfl
  · rw [List.countP_append, ← A.nMiss, hmiss, hpath, List.countP_singleton]
    cases decide (found = some .chunkObj) <;> rfl
  · rw [hcolumn _ 1 rfl, A.rowReqCnt, hstat]
  · rw [hcolumn _ o.isHit.toNat rfl, A.rowHitCnt, hstat]
  · rw [hcolumn _ a.req.objSize rfl, A.rowReqByte, hstat]
  · rw [hcolumn _ mid rfl, A.rowMidgress, hstat]

/-- The update before a request. -/
theorem Accounts.keepsCounts {arrivals : List Arrival} {out : Output} (A : Accounts p arrivals t out)
    (h : t.cluster.KeepsCounts p t'.cluster) : Accounts p arrivals t' out := by
  obtain ⟨n, hstat⟩ := h.stat
  have hcolumn : ∀ f, column p f t' out = column p f t out := by
    intro f
    unfold column
    rw [h.bucketStat]
  obtain ⟨h₁, h₂, h₃, h₄, h₅, h₆, h₇, h₈, h₉, h₁₀, h₁₁, h₁₂, h₁₃⟩ := A
  constructor
  case entries => exact h₁
  all_goals simp only [hcolumn, hstat]; assumption

/-- Rows that are logged and cleared stay in the sums. -/
theorem Accounts.log {arrivals : List Arrival} {entries : List Entry} {rows : List BucketStat}
    (A : Accounts p arrivals t ⟨entries, rows⟩) :
    Accounts p arrivals (t.log p logInterval now) ⟨entries, rows ++
      if logInterval ≠ 0 ∧ logInterval ≤ elapsed now t.lastLogOtime then
        (List.range p.nServer).map t.cluster.bucketStat else []⟩ := by
  unfold Thread.log
  split
  · have hcolumn : ∀ f : BucketStat → Nat, f ⟨0, 0, 0, 0⟩ = 0 →
        column p f { t with lastLogOtime := now, cluster := t.cluster.clearBucketStat p }
          ⟨entries, rows ++ (List.range p.nServer).map t.cluster.bucketStat⟩ =
        column p f t ⟨entries, rows⟩ := by
      intro f hf
      have hlist : ∑ x ∈ Finset.range p.nServer, f (t.cluster.bucketStat x) =
          ((List.range p.nServer).map fun x => f (t.cluster.bucketStat x)).sum := rfl
      have hzero : ∑ x ∈ Finset.range p.nServer,
          f ((t.cluster.clearBucketStat p).bucketStat x) = 0 := by
        refine Finset.sum_eq_zero fun x hx => ?_
        rw [Cluster.clearBucketStat]
        dsimp only
        rw [if_pos (Finset.mem_range.mp hx), hf]
      unfold column
      dsimp only
      rw [hzero, hlist, List.map_append, List.sum_append, List.map_map]
      simp only [Function.comp_def]
      omega
    obtain ⟨h₁, h₂, h₃, h₄, h₅, h₆, h₇, h₈, h₉, h₁₀, h₁₁, h₁₂, h₁₃⟩ := A
    refine ⟨h₁, h₂, h₃, h₄, h₅, h₆, h₇, h₈, h₉, ?_, ?_, ?_, ?_⟩
    · rw [hcolumn _ rfl]
      exact h₁₀
    · rw [hcolumn _ rfl]
      exact h₁₁
    · rw [hcolumn _ rfl]
      exact h₁₂
    · rw [hcolumn _ rfl]
      exact h₁₃
  · rw [List.append_nil]
    exact A

theorem LedgerInv.stepOut {arrivals : List Arrival} {out : Output} {a : Arrival}
    {r : Thread × Output} (H : LedgerInv p arrivals t out)
    (h : stepOut p logInterval (t, out) a = .ok r) : LedgerInv p (arrivals ++ [a]) r.1 r.2 := by
  obtain ⟨t₁, ht₁, h⟩ := bind_eq_ok h
  obtain ⟨⟨⟨s, hit⟩, objSize⟩, hvar, h⟩ := bind_eq_ok h
  rw [Cluster.getVar_eq] at hvar
  obtain ⟨⟨s', hit'⟩, hget, heq⟩ := map_eq_ok hvar
  cases heq
  cases h
  have hkeeps := updateAvailability_keepsCounts ht₁
  have htypes := hkeeps.typesSet H.types
  have hleads := hkeeps.leads H.leads
  obtain ⟨m, found, o, mid, hm, hfound, ho, hcounted⟩ := Cluster.get_counted htypes hget
  have hfoundType : t₁.cluster.foundType p a.req a.draws = found.map Prod.snd := by
    unfold Cluster.foundType
    rw [hm]
    change (match t₁.cluster.findObj p m a.req.objId with
      | .ok found => found.map Prod.snd
      | .error _ => none) = _
    rw [hfound]
  have hlead : m.originalServer < p.nServer := by
    have hori : m.originalServer = t₁.cluster.oriLeadMapping m.bucketId := by
      obtain ⟨b, -, hm⟩ := bind_eq_ok hm
      split at hm
      · cases hm
      · obtain ⟨x, -, hm⟩ := bind_eq_ok hm
        obtain ⟨y, -, hm⟩ := bind_eq_ok hm
        cases hm
        rfl
    rw [hori]
    exact hleads _
  have hmid : s.stat.midgressBytes - t₁.cluster.stat.midgressBytes = mid := by
    obtain ⟨intra, hstat⟩ := hcounted.stat
    rw [hstat]
    dsimp only
    omega
  refine ⟨?_, ?_, ?_⟩
  · rw [hfoundType, hmid]
    exact ((H.accounts.keepsCounts hkeeps).counted hlead ho hcounted).log
  · have htypes' := Cluster.typesSet_get htypes hget
    unfold Thread.log
    split
    · exact htypes'
    · exact htypes'
  · have hleads' : s.LeadsOk p := by
      intro b
      rw [hcounted.oriLeadMapping]
      exact hleads b
    unfold Thread.log
    split
    · exact hleads'
    · exact hleads'

/-- The output does not change the run. -/
theorem stepOut_of_step {a : Arrival} (h : step p logInterval t a = .ok t') (out : Output) :
    ∃ out', stepOut p logInterval (t, out) a = .ok (t', out') := by
  obtain ⟨t₁, ht₁, h⟩ := bind_eq_ok h
  obtain ⟨r, hget, h⟩ := bind_eq_ok h
  cases h
  unfold Thread.stepOut
  dsimp only
  rw [ht₁]
  change ∃ out', (t₁.cluster.getVar p a.req a.draws).bind _ = _
  rw [Cluster.getVar_eq, hget]
  exact ⟨_, rfl⟩

theorem LedgerInv.run {done arrivals : List Arrival} {out : Output} (H : LedgerInv p done t out)
    (h : run p logInterval arrivals t = .ok t') :
    ∃ out', runOut p logInterval arrivals (t, out) = .ok (t', out') ∧
      LedgerInv p (done ++ arrivals) t' out' := by
  induction arrivals generalizing done t out with
  | nil =>
    cases h
    rw [List.append_nil]
    exact ⟨out, rfl, H⟩
  | cons a arrivals ih =>
    unfold Thread.run at h
    rw [List.foldlM_cons] at h
    obtain ⟨t₁, ht₁, h⟩ := bind_eq_ok h
    obtain ⟨out₁, hout₁⟩ := stepOut_of_step ht₁ out
    obtain ⟨out', hout', H'⟩ := ih (H.stepOut hout₁) h
    refine ⟨out', ?_, by rwa [List.append_assoc] at H'⟩
    unfold Thread.runOut
    rw [foldlM_cons_ok hout₁]
    exact hout'

theorem start_ledgerInv {failures : List (List Nat)} {startTime : Nat}
    (h : start p failures startTime = .ok t) : LedgerInv p [] t ⟨[], []⟩ := by
  obtain ⟨cluster, hnew, rfl⟩ := map_eq_ok h
  have hkeeps := Cluster.populateHashMapping_keepsCounts hnew
  obtain ⟨n, hstat⟩ := hkeeps.stat
  have hcolumn : ∀ f : BucketStat → Nat, f ⟨0, 0, 0, 0⟩ = 0 →
      column p f ⟨cluster, failures, [], startTime, startTime, 0⟩ ⟨[], []⟩ = 0 := by
    intro f hf
    unfold column
    dsimp only
    rw [hkeeps.bucketStat]
    simp [hf]
  refine ⟨⟨.nil, ?_, ?_, ?_, ?_, ?_, ?_, ?_, ?_, ?_, ?_, ?_, ?_⟩, fun x id o ho => ?_, ?_⟩
  case refine_9 | refine_10 | refine_11 | refine_12 => rw [hcolumn _ rfl, hstat]
  case refine_13 =>
    dsimp only at ho
    rw [Cluster.new_servers hnew] at ho
    cases ho
  case refine_14 =>
    refine hkeeps.leads fun b => ?_
    exact Nat.lt_of_le_of_lt (Nat.zero_le _) (p.ring.serverAt_lt 0)
  all_goals simp [hstat]

/-- **Accounting over a whole run.** -/
theorem accounts_run {failures : List (List Nat)} {startTime : Nat} {t₀ : Thread}
    {arrivals : List Arrival} (hstart : start p failures startTime = .ok t₀)
    (hrun : run p logInterval arrivals t₀ = .ok t) :
    ∃ out, runOut p logInterval arrivals (t₀, ⟨[], []⟩) = .ok (t, out) ∧
      Accounts p arrivals t out := by
  obtain ⟨out, hout, H⟩ := (start_ledgerInv hstart).run hrun
  exact ⟨out, hout, H.accounts⟩

end

/-- A miss, then a failure and a partial hit, then a chunk hit, with logs between them. -/
theorem threeRequests_accounts : ∃ t₀ t out,
    start (lineParams .c2dn 3 2 6 (by decide)) [[0]] 0 = .ok t₀ ∧
    runOut (lineParams .c2dn 3 2 6 (by decide)) 300 ([0, 300, 600].map arrivalAt) (t₀, ⟨[], []⟩) =
      .ok (t, out) ∧
    t.cluster.stat.clusterHitCnt = 1 ∧ t.cluster.stat.midgressBytes = 15 ∧
    Accounts (lineParams .c2dn 3 2 6 (by decide)) ([0, 300, 600].map arrivalAt) t out := by
  obtain ⟨⟨t₀, t⟩, hr, hq⟩ := exists_ok_of_any
    (q := fun r : Thread × Thread => decide (r.2.cluster.stat.clusterHitCnt = 1 ∧
      r.2.cluster.stat.midgressBytes = 15))
    (x := (start (lineParams .c2dn 3 2 6 (by decide)) [[0]] 0).bind fun t₀ =>
      (run (lineParams .c2dn 3 2 6 (by decide)) 300 ([0, 300, 600].map arrivalAt) t₀).map fun t =>
        (t₀, t)) (by decide +kernel)
  obtain ⟨t₁, hstart, hr⟩ := bind_eq_ok hr
  obtain ⟨t₂, hrun, heq⟩ := map_eq_ok hr
  cases heq
  obtain ⟨hhit, hmid⟩ := of_decide_eq_true hq
  obtain ⟨out, hout, A⟩ := accounts_run hstart hrun
  exact ⟨t₀, t, out, hstart, hout, hhit, hmid, A⟩

end Thread

end C2DN.Simulator
