import C2DN.Simulator.Ring
import C2DN.Simulator.Server

/-!
# The cache cluster

`cacheCluster` with bucket hashing. `rand()` is a draw that a call is given. Counters do not wrap
around. The static arrays of `_cache_hit_chunk_obj` have `MAX_EC_N` and `MAX_N_SERVER` entries;
an access behind their end is a fault. Left out are the counters that are only printed for a server
(`req_cnt`, `hit_cnt`) and the diagnostics on standard error.
-/

namespace C2DN.Simulator

/-- `N_BUCKET`. -/
def nBucket : Nat := 100

/-- `MAX_EC_N`. -/
def maxEcN : Nat := 16

/-- `MAX_N_SERVER`. -/
def maxNServer : Nat := 128

/-- `MAX_N_UNAVAIL`. -/
def maxNUnavail : Nat := 2

/-- `cluster_mode_e`. -/
inductive ClusterMode where
  | noReplication
  | twoRepPopularity
  | twoRepAlways
  | twoRepAlwaysGutter
  | c2dn
  | c2dnAddN
  | threeRepAlways
  | c2dnAddNThreeRep
  | erft
  | invalidMode
  deriving DecidableEq, Repr

/-- An arc that is added to `SimpleMaxFlow`. -/
structure Arc where
  tail : Nat
  head : Nat
  capacity : Int
  deriving DecidableEq

/-- `cluster_params_t` and `EC_params_t`, the servers' caches, the ring, and the code from outside:
`hash` is `get_hash_value_int_64`, `maxFlow` gives the flow of every arc that `SimpleMaxFlow` finds
from vertex 0 to vertex 1. -/
structure Params where
  mode : ClusterMode
  n : Nat
  k : Nat
  sizeThreshold : Nat
  admission : Nat
  checkOneMore : Bool
  parityRebalance : Bool
  /-- `trace_format == akamai1bWithBucket` -/
  withBucket : Bool
  nServer : Nat
  alg : Alg
  cacheSizes : Nat → Nat
  ring : Ring nServer
  hash : Nat → Nat
  maxFlow : List Arc → Nat → Int

/-- A request of a trace, whose sizes have 32 bits. -/
structure Request where
  objId : Nat
  objSize : Nat
  bucketId : Int
  pos : 0 < objSize
  lt : objSize < 2 ^ 32

/-- A request of bucket 0 whose size is checked. -/
def Request.ofSize (objId objSize : Nat)
    (h : (decide (0 < objSize) && decide (objSize < 2 ^ 32)) = true) : Request :=
  ⟨objId, objSize, 0, of_decide_eq_true (Bool.and_eq_true_iff.1 h).1,
    of_decide_eq_true (Bool.and_eq_true_iff.1 h).2⟩

/-- `cluster_hit_t`. -/
structure ClusterHit where
  isHit : Bool
  isICPHit : Bool
  isRAMHit : Bool
  nChunkHit : Nat
  reqHost : Nat
  objType : ObjType
  deriving DecidableEq, Repr

/-- `cacheClusterStat`. -/
structure ClusterStat where
  nAvailServer : Nat
  clusterHitCnt : Nat
  clusterReqCnt : Nat
  clusterHitBytes : Nat
  clusterReqBytes : Nat
  fullObjHitCnt : Nat
  fullObjHitBytes : Nat
  chunkObjHitCnt : Nat
  chunkObjHitBytes : Nat
  /-- an array of `n` counters -/
  nMiss : Nat → Nat
  midgressBytes : Nat
  intraClusterBytes : Nat

/-- `bucketStat`, one for every server. -/
structure BucketStat where
  reqCnt : Nat
  hitCnt : Nat
  reqByte : Nat
  midgress : Nat

structure Cluster where
  servers : Nat → CacheServer
  chMapping : Nat → Option (List Nat)
  prevChMapping : Nat → Option (List Nat)
  oriLeadMapping : Nat → Nat
  nBucketPerServer : Nat → Nat
  /-- a missing key has frequency 0 -/
  objFreqMap : Nat → Nat
  readLoadByte : Nat → Nat
  writeLoadByte : Nat → Nat
  stat : ClusterStat
  bucketStat : Nat → BucketStat

/-- `a[i] += d`. -/
def addAt (a : Nat → Nat) (i d : Nat) : Nat → Nat := Function.update a i (a i + d)

/-- `server_idxs[i]`. -/
def idxAt (serverIdxs : List Nat) (i : Nat) : Except Fault Nat :=
  match serverIdxs[i]? with
  | some server => .ok server
  | none => .error .outOfBounds

/-- `server_idxs[0], ..., server_idxs[r - 1]`. -/
def firstIdxs (serverIdxs : List Nat) (r : Nat) : Except Fault (List Nat) :=
  if serverIdxs.length < r then .error .outOfBounds else .ok (serverIdxs.take r)

/-- `(uint64_t) ceil(double(obj_size) / k)`, which is exact for 32-bit sizes. -/
def Params.chunkObjSize (p : Params) (objSize : Nat) : Nat := (objSize + p.k - 1) / p.k

namespace Cluster

/-- Change `cache_servers.at(server)`. -/
def onServer (p : Params) (s : Cluster) (server : Nat)
    (f : CacheServer → Except Fault CacheServer) : Except Fault Cluster :=
  if server < p.nServer then
    (f (s.servers server)).map fun c => { s with servers := Function.update s.servers server c }
  else .error .outOfBounds

def addWriteLoad (s : Cluster) (server d : Nat) : Cluster :=
  { s with writeLoadByte := addAt s.writeLoadByte server d }

def addReadLoad (s : Cluster) (server d : Nat) : Cluster :=
  { s with readLoadByte := addAt s.readLoadByte server d }

/-! ## The mapping of buckets to servers -/

/-- The arcs of `find_parity_mapping` for `nBucket` buckets: source 0, sink 1, then the servers and
the buckets. `dataServers` are the first `n - 1` servers of a bucket. -/
def parityArcsOf (nBucket : Nat) (p : Params) (dataServers : Nat → List Nat) (serverCap : Int) :
    List Arc :=
  let bucketsOnServer i := (List.range nBucket).filter fun b => i ∈ dataServers b
  ((List.range p.nServer).flatMap fun i =>
    let cap := if bucketsOnServer i = [] then 0 else serverCap - (bucketsOnServer i).length
    { tail := 0, head := 2 + i, capacity := if cap < 0 then 0 else cap } ::
      ((List.range nBucket).filter fun b => i ∉ dataServers b).map fun b =>
        { tail := 2 + i, head := 2 + p.nServer + b, capacity := 1 }) ++
    (List.range nBucket).map fun i => { tail := 2 + p.nServer + i, head := 1, capacity := 1 }

def parityArcs (p : Params) (dataServers : Nat → List Nat) (serverCap : Int) : List Arc :=
  parityArcsOf nBucket p dataServers serverCap

/-- The server goes before the last of the `n` servers of a bucket and the later ones move on. -/
def shiftIn (n : Nat) (serverIdxs : List Nat) (server : Nat) : List Nat :=
  (serverIdxs.take (n - 1) ++ server :: serverIdxs.drop (n - 1)).dropLast

/-- The mapping with the parity servers that have flow. -/
def applyFlow (p : Params) (flow : Nat → Int) (arcs : List Arc)
    (mapping : Nat → Option (List Nat)) : Nat → Option (List Nat) :=
  arcs.zipIdx.foldl (fun mapping (arc, i) =>
    if arc.tail ≠ 0 ∧ arc.head ≠ 1 ∧ 0 < flow i then
      let bucket := arc.head - 2 - p.nServer
      Function.update mapping bucket
        ((mapping bucket).map fun idxs => shiftIn p.n idxs (arc.tail - 2))
    else mapping) mapping

/-- The counts of buckets with those of the parity servers. -/
def countFlow (flow : Nat → Int) (arcs : List Arc) (count : Nat → Nat) : Nat → Nat :=
  arcs.zipIdx.foldl (fun count (arc, i) =>
    if arc.tail ≠ 0 ∧ arc.head ≠ 1 ∧ 0 < flow i then addAt count (arc.tail - 2) 1
    else count) count

def findParityMapping (p : Params) (s : Cluster) : Except Fault Cluster :=
  if s.stat.nAvailServer = 0 then .error .divideByZero
  else
    let serverCap : Int := (nBucket * p.n + s.stat.nAvailServer - 1) / s.stat.nAvailServer
    let dataServers b := ((s.chMapping b).getD []).take (p.n - 1)
    -- a server without buckets must be down
    if (List.range p.nServer).any fun i =>
        (s.servers i).available && (List.range nBucket).all fun b => i ∉ dataServers b then
      .error .idleServer
    else
      let arcs := parityArcs p dataServers serverCap
      .ok { s with
        chMapping := applyFlow p (p.maxFlow arcs) arcs s.chMapping
        nBucketPerServer := countFlow (p.maxFlow arcs) arcs s.nBucketPerServer }

/-- The servers of a bucket that `populate_hash_mapping` counts. -/
def counted (p : Params) (idxs : List Nat) : List Nat :=
  idxs.take (if p.parityRebalance then p.n - 1 else p.n)

/-- One bucket of `populate_hash_mapping`. -/
def populateBucket (p : Params) (sc : Cluster × (Nat → Nat)) (bucket : Nat) :
    Except Fault (Cluster × (Nat → Nat)) :=
  (p.ring.getServers p.hash bucket (p.n + maxNUnavail) sc.2).map fun (idxs, lead, capacity) =>
    ({ sc.1 with
        chMapping := Function.update sc.1.chMapping bucket (some idxs)
        oriLeadMapping := Function.update sc.1.oriLeadMapping bucket lead
        nBucketPerServer :=
          (counted p idxs).foldl (fun count x => addAt count x 1) sc.1.nBucketPerServer }, capacity)

def populateHashMapping (p : Params) (s : Cluster) : Except Fault Cluster := do
  let capacity i := if (s.servers i).available then nBucket * p.n else 0
  let s := { s with nBucketPerServer := fun _ => 0 }
  let sc ← (List.range nBucket).foldlM (populateBucket p) (s, capacity)
  if p.parityRebalance then findParityMapping p sc.1 else .ok sc.1

def resetConsistentHashMapping (s : Cluster) : Cluster :=
  { s with prevChMapping := s.chMapping, chMapping := fun _ => none }

def failOneServer (p : Params) (s : Cluster) (server : Nat) : Except Fault Cluster := do
  let s := s.resetConsistentHashMapping
  let s ← s.onServer p server fun c => .ok { c with available := false }
  -- an unsigned counter
  .ok { s with stat := { s.stat with nAvailServer := (s.stat.nAvailServer + 2 ^ 64 - 1) % 2 ^ 64 } }

def recoverOneServer (p : Params) (s : Cluster) (server : Nat) : Except Fault Cluster :=
  if server < p.nServer then
    if (s.servers server).available then .ok s
    else do
      let s := s.resetConsistentHashMapping
      let s ← s.onServer p server fun c => .ok { c with available := true }
      .ok { s with stat := { s.stat with nAvailServer := (s.stat.nAvailServer + 1) % 2 ^ 64 } }
  else .error .outOfBounds

/-- The constructor. -/
def new (p : Params) : Except Fault Cluster :=
  populateHashMapping p
    { servers := fun i => ⟨.init p.alg (p.cacheSizes i), true⟩
      chMapping := fun _ => none
      prevChMapping := fun _ => none
      oriLeadMapping := fun _ => 0
      nBucketPerServer := fun _ => 0
      objFreqMap := fun _ => 0
      readLoadByte := fun _ => 0
      writeLoadByte := fun _ => 0
      stat := ⟨p.nServer, 0, 0, 0, 0, 0, 0, 0, 0, fun _ => 0, 0, 0⟩
      bucketStat := fun _ => ⟨0, 0, 0, 0⟩ }

/-! ## The servers of a request -/

/-- What a call of `get` draws. -/
structure Draws where
  lead : Nat
  second : Nat
  gutter : Nat

/-- The results of `_find_mapped_servers`. -/
structure Mapped where
  bucketId : Nat
  serverIdxs : List Nat
  originalServer : Nat
  leadServer : Nat
  secondLead : Nat

/-- The bucket of a request. -/
def bucketOf (p : Params) (req : Request) : Except Fault Nat :=
  if p.withBucket then
    if 0 ≤ req.bucketId ∧ req.bucketId ≤ nBucket then .ok req.bucketId.toNat
    else .error .badBucket
  else .ok (req.objId % nBucket)

/-- Whether a mode has three lead servers. -/
def ClusterMode.threeLeads : ClusterMode → Bool
  | .threeRepAlways | .c2dnAddNThreeRep => true
  | _ => false

/-- The index of the lead server. -/
def idxSelected (p : Params) (d : Draws) : Nat :=
  if p.n = 1 ∨ p.mode = .erft ∨ p.mode = .twoRepAlwaysGutter then 0
  else if ClusterMode.threeLeads p.mode then d.lead % 3 else d.lead % 2

/-- The index of the second lead server; with three leads the difference is unsigned. -/
def idxSecond (p : Params) (d : Draws) : Nat :=
  if ClusterMode.threeLeads p.mode then (idxSelected p d + 2 ^ 32 - d.second % 2 - 1) % 2 ^ 32 % 3
  else 1 - idxSelected p d

def findMappedServers (p : Params) (s : Cluster) (req : Request) (d : Draws) :
    Except Fault Mapped := do
  let bucketId ← bucketOf p req
  match s.chMapping bucketId with
  | none => .error .noMapping
  | some serverIdxs =>
    let leadServer ← idxAt serverIdxs (idxSelected p d)
    let secondLead ← idxAt serverIdxs (idxSecond p d)
    .ok { bucketId, serverIdxs, originalServer := s.oriLeadMapping bucketId, leadServer, secondLead }

/-! ## Full objects -/

def storeFull (p : Params) (req : Request) (s : Cluster) (server : Nat) : Except Fault Cluster :=
  s.onServer p server fun c => c.putFull req.objId req.objSize .mainCache

/-- The servers of the replicas of a full object. -/
def replicas (p : Params) (m : Mapped) : Except Fault (List Nat) :=
  match p.mode with
  | .noReplication | .twoRepPopularity => .ok [m.leadServer]
  | .twoRepAlways | .c2dn | .c2dnAddN | .twoRepAlwaysGutter => firstIdxs m.serverIdxs 2
  | .threeRepAlways | .c2dnAddNThreeRep => firstIdxs m.serverIdxs 3
  | .erft | .invalidMode => .error .unknownMode

/-- `_cache_hit_full_obj`. The modes with a gutter use the second server's gutter cache. -/
def cacheHitFullObj (p : Params) (s : Cluster) (m : Mapped) (req : Request) (d : Draws) :
    Except Fault Cluster :=
  match p.mode with
  | .twoRepAlwaysGutter | .erft => do
    let s ← storeFull p req s (← idxAt m.serverIdxs 0)
    -- `gutter_prob` is 100
    if p.mode = .erft ∨ d.gutter % 100 < 100 then
      s.onServer p (← idxAt m.serverIdxs 1) fun c => c.putFull req.objId req.objSize .gutterCache
    else .ok s
  | .invalidMode => do
    let _ ← storeFull p req s (← idxAt m.serverIdxs 0)
    .error .unknownMode
  | _ => do (← replicas p m).foldlM (storeFull p req) s

/-- `_cache_miss_full_obj`. -/
def cacheMissFullObj (p : Params) (s : Cluster) (m : Mapped) (req : Request) :
    Except Fault Cluster := do
  (← replicas p m).foldlM
    (fun s server => storeFull p req (s.addWriteLoad server req.objSize) server) s

/-! ## Chunks -/

def storeChunk (p : Params) (objId objSize : Nat) (cacheType : CacheType) (s : Cluster)
    (server chunkId : Nat) : Except Fault Cluster :=
  s.onServer p server fun c => c.putChunk objId objSize chunkId cacheType

/-- One of the loops of `_cache_miss_chunk_obj`. -/
def storeChunks (p : Params) (m : Mapped) (objId chunkObjSize : Nat) (is : List Nat) (s : Cluster) :
    Except Fault Cluster :=
  is.foldlM (fun s i => do
    let server ← idxAt m.serverIdxs i
    storeChunk p objId chunkObjSize .mainCache (s.addWriteLoad server chunkObjSize) server i) s

def addIntraCluster (s : Cluster) (d : Nat) : Cluster :=
  { s with stat := { s.stat with intraClusterBytes := s.stat.intraClusterBytes + d } }

def addMidgress (s : Cluster) (originalServer d : Nat) : Cluster :=
  let b := s.bucketStat originalServer
  { s with
    stat := { s.stat with midgressBytes := s.stat.midgressBytes + d }
    bucketStat := Function.update s.bucketStat originalServer { b with midgress := b.midgress + d } }

/-- `_cache_miss_chunk_obj`. -/
def cacheMissChunkObj (p : Params) (s : Cluster) (m : Mapped) (req : Request) :
    Except Fault Cluster := do
  let chunkObjSize := p.chunkObjSize req.objSize
  let s := s.addIntraCluster (chunkObjSize * (p.k - 1))
  let s ← storeChunks p m req.objId chunkObjSize (List.range p.k) s
  if p.mode = .c2dnAddN ∨ p.mode = .c2dnAddNThreeRep then
    storeChunks p m req.objId chunkObjSize (List.range' p.k (p.n - p.k))
      (s.addIntraCluster (chunkObjSize * (p.n - 1)))
  else .ok s

/-- `server_chunk_stat_e`. -/
inductive ChunkStat where
  | correctChunk
  | incorrectChunk
  | noChunk
  | hasNotChecked
  deriving DecidableEq, Repr

/-- The local variables of `_cache_hit_chunk_obj`, with `n_chunk_hit` and the loads. -/
structure ChunkInfo where
  status : Nat → ChunkStat
  chunkCnt : Nat → Nat
  checkedServers : Nat → Bool
  nChunkHit : Nat
  nDuplicateChunks : Nat
  readLoadByte : Nat → Nat
  writeLoadByte : Nat → Nat

/-- The variables at the start. -/
def ChunkInfo.init (s : Cluster) : ChunkInfo where
  status _ := .hasNotChecked
  chunkCnt _ := 0
  checkedServers _ := false
  nChunkHit := 0
  nDuplicateChunks := 0
  readLoadByte := s.readLoadByte
  writeLoadByte := s.writeLoadByte

/-- A copy with this chunk id is found on the `i`th mapped server. -/
def ChunkInfo.found (c : ChunkInfo) (i chunkId : Nat) : ChunkInfo :=
  let new := c.chunkCnt chunkId = 0
  { c with
    nChunkHit := if new then c.nChunkHit + 1 else c.nChunkHit
    nDuplicateChunks := if new then c.nDuplicateChunks else c.nDuplicateChunks + 1
    status := Function.update c.status i (if new then .correctChunk else .incorrectChunk)
    chunkCnt := addAt c.chunkCnt chunkId 1 }

/-- One round of `_get_chunk_info`, for the `i`th mapped server. -/
def getChunkInfo (p : Params) (s : Cluster) (objId chunkObjSize : Nat) (c : ChunkInfo)
    (server i : Nat) : Except Fault ChunkInfo :=
  if p.nServer ≤ server ∨ maxEcN ≤ i then .error .outOfBounds
  else if c.checkedServers server then .error .checkedTwice
  else
    let c := { c with
      readLoadByte := addAt c.readLoadByte server chunkObjSize
      checkedServers := Function.update c.checkedServers server true }
    if (s.servers server).check objId = none then
      .ok { c with
        writeLoadByte := addAt c.writeLoadByte server chunkObjSize
        status := Function.update c.status i .noChunk }
    else do
      let chunkId ← (s.servers server).getChunkId objId
      if maxEcN ≤ chunkId then .error .outOfBounds else .ok (c.found i chunkId)

/-- A look at a server that is not one of the mapped ones, unless it has been checked. -/
def checkExtra (p : Params) (s : Cluster) (objId chunkObjSize : Nat) (c : ChunkInfo)
    (server : Nat) : Except Fault ChunkInfo :=
  if p.nServer ≤ server then .error .outOfBounds
  else if c.checkedServers server then .ok c
  else
    let c := { c with checkedServers := Function.update c.checkedServers server true }
    match (s.servers server).check objId with
    | none => .ok c
    | some objType =>
      let c := { c with readLoadByte := addAt c.readLoadByte server chunkObjSize }
      if objType ≠ .chunkObj then .error .notChunk
      else do
        let chunkId ← (s.servers server).getChunkId objId
        if maxEcN ≤ chunkId then .error .outOfBounds
        -- the count of this chunk id does not change
        else if c.chunkCnt chunkId = 0 then .ok { c with nChunkHit := c.nChunkHit + 1 }
        else .ok c

/-- The looks at the `MAX_N_UNAVAIL` servers behind the mapped ones. -/
def checkBehind (p : Params) (s : Cluster) (m : Mapped) (objId chunkObjSize : Nat)
    (c : ChunkInfo) : Except Fault ChunkInfo :=
  if p.checkOneMore || p.parityRebalance then
    (List.range' p.n maxNUnavail).foldlM (fun c i => do
      let server ← idxAt m.serverIdxs i
      checkExtra p s objId chunkObjSize c server) c
  else .ok c

/-- The look at the previous parity server. -/
def checkPrevParity (p : Params) (s : Cluster) (m : Mapped) (objId chunkObjSize : Nat)
    (c : ChunkInfo) : Except Fault ChunkInfo :=
  match s.prevChMapping m.bucketId with
  | some prevServerIdxs =>
    if c.nChunkHit < p.k ∧ p.parityRebalance then do
      let server ← idxAt prevServerIdxs (p.n - 1)
      checkExtra p s objId chunkObjSize c server
    else .ok c
  | none => .ok c

/-- The looks at further servers when the mapped ones do not have enough chunks. -/
def checkExtras (p : Params) (s : Cluster) (m : Mapped) (objId chunkObjSize : Nat)
    (c : ChunkInfo) : Except Fault ChunkInfo :=
  if c.nChunkHit < p.k then do
    let c ← checkBehind p s m objId chunkObjSize c
    checkPrevParity p s m objId chunkObjSize c
  else .ok c

/-- `while (server_chunk_status[i] == correct_chunk) i++;`, over at most `MAX_EC_N` entries. -/
def scan (status : Nat → ChunkStat) : Nat → Nat → Except Fault Nat
  | 0, _ => .error .scanPast
  | fuel + 1, i => if status i = .correctChunk then scan status fuel (i + 1) else .ok i

/-- One round of the loop that restores missing chunks; `i` is the next server to look at. -/
def restoreChunk (p : Params) (m : Mapped) (objId chunkObjSize : Nat) (c : ChunkInfo)
    (si : Cluster × Nat) (j : Nat) : Except Fault (Cluster × Nat) :=
  if maxEcN ≤ j then .error .outOfBounds
  else if c.chunkCnt j = 0 then do
    let i ← scan c.status (maxEcN - si.2) si.2
    if p.n ≤ i then .error .scanPast
    else
      let s ← storeChunk p objId chunkObjSize .unknownCache si.1 (← idxAt m.serverIdxs i) j
      .ok (s, i + 1)
  else .ok si

/-- `_cache_hit_chunk_obj`: the cluster, whether it is a hit, and `n_chunk_hit`. -/
def cacheHitChunkObj (p : Params) (s : Cluster) (m : Mapped) (req : Request) :
    Except Fault (Cluster × Bool × Nat) :=
  if maxNServer < p.nServer then .error .outOfBounds
  else do
    let chunkObjSize := p.chunkObjSize req.objSize
    let idxs ← firstIdxs m.serverIdxs p.n
    let c ← idxs.zipIdx.foldlM (fun c (server, i) =>
      getChunkInfo p s req.objId chunkObjSize c server i) (ChunkInfo.init s)
    let c ← checkExtras p s m req.objId chunkObjSize c
    let s := { s with readLoadByte := c.readLoadByte, writeLoadByte := c.writeLoadByte }
    let (s, _) ← (List.range p.n).foldlM (restoreChunk p m req.objId chunkObjSize c) (s, 0)
    let s := s.addIntraCluster (c.nDuplicateChunks * chunkObjSize)
    let s := if c.nChunkHit < p.k then
      s.addMidgress m.originalServer ((p.k - c.nChunkHit) * chunkObjSize) else s
    let s := s.addIntraCluster (chunkObjSize * (p.n - 1))
    -- `n_miss` has `n` entries
    if c.nChunkHit = 0 ∨ p.n < c.nChunkHit then .error .outOfBounds
    else
      let s := { s with stat := { s.stat with nMiss := addAt s.stat.nMiss (p.n - c.nChunkHit) 1 } }
      .ok (s, decide (p.k ≤ c.nChunkHit), c.nChunkHit)

/-! ## Requests -/

/-- `_should_admit`. -/
def shouldAdmit (p : Params) (s : Cluster) (req : Request) : Cluster × Bool :=
  if p.admission = 0 then (s, true)
  else
    let key := req.objId % 2 ^ 32
    ({ s with objFreqMap := Function.update s.objFreqMap key ((s.objFreqMap key + 1) % 2 ^ 32) },
      decide (p.admission ≤ s.objFreqMap key))

/-- `check_coding_policy`. -/
def checkCodingPolicy (p : Params) (req : Request) : Except Fault Bool :=
  match p.mode with
  | .noReplication | .twoRepPopularity | .twoRepAlways | .twoRepAlwaysGutter | .threeRepAlways =>
    .ok false
  | .c2dn | .c2dnAddN | .c2dnAddNThreeRep => .ok (decide (p.sizeThreshold < req.objSize))
  | .erft | .invalidMode => .error .unknownMode

/-- The counters of a request. -/
def countReq (s : Cluster) (m : Mapped) (req : Request) : Cluster :=
  let b := s.bucketStat m.originalServer
  { s with
    stat := { s.stat with
      clusterReqCnt := s.stat.clusterReqCnt + 1
      clusterReqBytes := s.stat.clusterReqBytes + req.objSize }
    bucketStat := Function.update s.bucketStat m.originalServer
      { b with reqCnt := b.reqCnt + 1, reqByte := b.reqByte + req.objSize } }

/-- The end of `get`: the counters of a hit. -/
def countHit (p : Params) (s : Cluster) (m : Mapped) (req : Request) (hit : ClusterHit) :
    Except Fault Cluster :=
  if hit.isHit then
    if p.n < hit.nChunkHit then .error .tooManyHits
    else
      let b := s.bucketStat m.originalServer
      let s := { s with
        stat := { s.stat with
          clusterHitCnt := s.stat.clusterHitCnt + 1
          clusterHitBytes := s.stat.clusterHitBytes + req.objSize }
        bucketStat := Function.update s.bucketStat m.originalServer
          { b with hitCnt := b.hitCnt + 1 } }
      match hit.objType with
      | .fullObj => .ok { s with stat := { s.stat with
          fullObjHitCnt := s.stat.fullObjHitCnt + 1
          fullObjHitBytes := s.stat.fullObjHitBytes + req.objSize } }
      | .chunkObj => .ok { s with stat := { s.stat with
          chunkObjHitCnt := s.stat.chunkObjHitCnt + 1
          chunkObjHitBytes := s.stat.chunkObjHitBytes + req.objSize } }
      | _ => .error .unknownType
  else .ok s

/-- `cache_servers.at(server)->check(req, &obj_type)`. -/
def checkAt (p : Params) (s : Cluster) (server objId : Nat) : Except Fault (Option ObjType) :=
  if server < p.nServer then .ok ((s.servers server).check objId) else .error .outOfBounds

/-- The server on which the object is found, with the type of the copy. -/
def findObj (p : Params) (s : Cluster) (m : Mapped) (objId : Nat) :
    Except Fault (Option (Nat × ObjType)) := do
  match ← s.checkAt p m.leadServer objId with
  | some objType => .ok (some (m.leadServer, objType))
  | none =>
    if p.checkOneMore then
      let objType ← s.checkAt p m.secondLead objId
      .ok (objType.map fun objType => (m.secondLead, objType))
    else .ok none

/-- A request that is served by what is found. -/
def serveHit (p : Params) (s : Cluster) (m : Mapped) (req : Request) (d : Draws)
    (serverToRead : Nat) (objType : ObjType) : Except Fault (Cluster × Bool × Nat) :=
  match objType with
  | .fullObj => do
    let s ← cacheHitFullObj p (s.addReadLoad serverToRead req.objSize) m req d
    .ok (s, true, 0)
  | .chunkObj => cacheHitChunkObj p s m req
  | .unknownObjType => .error .unknownType
  -- `get` has no branch for these
  | .unset | .invalidObj => .ok (s, false, 0)

/-- A request whose object is fetched from the origin. -/
def serveMiss (p : Params) (s : Cluster) (m : Mapped) (req : Request) (admitted : Bool) :
    Except Fault Cluster := do
  let s := s.addMidgress m.originalServer req.objSize
  if admitted then
    let s := s.addReadLoad m.leadServer req.objSize
    if ← checkCodingPolicy p req then cacheMissChunkObj p s m req else cacheMissFullObj p s m req
  else .ok s

def get (p : Params) (s : Cluster) (req : Request) (d : Draws) :
    Except Fault (Cluster × ClusterHit) := do
  let m ← findMappedServers p s req d
  let s := s.countReq m req
  let found ← s.findObj p m req.objId
  let (s, admitted) := s.shouldAdmit p req
  match found with
  | some (serverToRead, objType) =>
    let (s, isHit, nChunkHit) ← s.serveHit p m req d serverToRead objType
    let hit := ⟨isHit, false, false, nChunkHit, m.leadServer, objType⟩
    let s ← s.countHit p m req hit
    .ok (s, hit)
  | none =>
    let s ← s.serveMiss p m req admitted
    -- the type of the initialisation: its last value, `unknown_obj_type`, goes to `req_host`
    .ok (s, ⟨false, false, false, 0, m.leadServer, .unset⟩)

/-! ## Runs -/

/-- The calls on a cluster. -/
inductive Op where
  | get (req : Request) (d : Draws)
  | failOneServer (server : Nat)
  | recoverOneServer (server : Nat)
  | populateHashMapping

def step (p : Params) (s : Cluster) : Op → Except Fault Cluster
  | .get req d => (s.get p req d).map Prod.fst
  | .failOneServer server => s.failOneServer p server
  | .recoverOneServer server => s.recoverOneServer p server
  | .populateHashMapping => s.populateHashMapping p

def run (p : Params) (ops : List Op) (s : Cluster) : Except Fault Cluster :=
  ops.foldlM (step p) s

end Cluster

end C2DN.Simulator
