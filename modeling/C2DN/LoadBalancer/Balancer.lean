import C2DN.LoadBalancer.HashRing

/-!
# The balancers

`baseBalancer`, `ChBalancer` (the client side) and `ParityBalancer` (the frontend side) of
`src/loadbalancer`. The trace is given as the lists that `parseUnavailTrace` makes of it. Times and
positions are `int64`: differences wrap around and division rounds to zero. `DPanicf` is logging,
`Fatal` ends the process.
-/

namespace C2DN.LoadBalancer

/-- `myconst.NBuckets`. -/
def nBuckets : Nat := 200

/-- The value that an `int64` keeps of a number. -/
def wrap64 (x : Int) : Int := x.bmod (2 ^ 64)

def cmpSlice (s1 s2 : List Nat) : Bool :=
  s1.length == s2.length && (List.range s1.length).all fun i => s1.getD i 0 == s2.getD i 0

/-- `baseBalancer`; the hosts are `0, ..., nHost - 1`. -/
structure BaseBalancer where
  unavailableList : List (List Nat)
  nHost : Nat
  nHostPerBucket : Nat
  updateIntvl : Int
  startTs : Int
  currUnavailPos : Int

namespace BaseBalancer

/-- `unavailableList[pos]`. -/
def unavailAt (bl : BaseBalancer) (pos : Int) : Except Fault (List Nat) :=
  if pos < 0 then .error .indexOutOfRange
  else match bl.unavailableList[pos.toNat]? with
    | some l => .ok l
    | none => .error .indexOutOfRange

def isUnavailable (bl : BaseBalancer) (server : Nat) : Except Fault Bool :=
  if bl.unavailableList = [] then .ok false
  else (bl.unavailAt bl.currUnavailPos).map fun l => decide (server ∈ l)

/-- The fields that both constructors set. -/
def new (nHost : Nat) (unavailableList : List (List Nat)) (updateIntvl : Int)
    (nHostPerBucket : Nat) : BaseBalancer :=
  { unavailableList, nHost, nHostPerBucket, updateIntvl, startTs := -1, currUnavailPos := 0 }

def reset (bl : BaseBalancer) : BaseBalancer := { bl with currUnavailPos := 0, startTs := -1 }

/-- The first call after `reset` starts the clock. -/
def start (bl : BaseBalancer) (currTs : Int) : BaseBalancer :=
  if bl.startTs = -1 then { bl with startTs := currTs, currUnavailPos := 0 } else bl

/-- `(currTs - bl.startTs) / bl.updateIntvl`. -/
def posAt (bl : BaseBalancer) (currTs : Int) : Int :=
  (wrap64 (currTs - bl.startTs)).tdiv bl.updateIntvl

end BaseBalancer

section
variable (digest : List Nat → List Nat)

/-- `for _, nodeIdx := range removed { ring = ring.RemoveNode(hosts[nodeIdx]) }`. -/
def removeNodes (nHost : Nat) : List Nat → HashRing Nat → Except Fault (HashRing Nat)
  | [], ring => .ok ring
  | nodeIdx :: rest, ring =>
    if nodeIdx < nHost then removeNodes nHost rest (ring.removeNode digest nodeIdx)
    else .error .indexOutOfRange

/-- Copy the nodes of a bucket to the start of a slice of `room` zeros. -/
def fillSlice (room : Nat) (nodes : List Nat) : Except Fault (List Int) :=
  if room < nodes.length then .error .indexOutOfRange
  else .ok ((nodes.map Int.ofNat) ++ List.replicate (room - nodes.length) 0)

/-- The consistent hash mapping of the given buckets, in slices of `room` entries. -/
def hashMapping (ring : HashRing Nat) (nHostPerBucket room : Nat) :
    List Nat → Except Fault (List (List Int))
  | [] => .ok []
  | bucket :: rest =>
    (ring.getNodes digest (itoa bucket) nHostPerBucket).bind fun (nodes, _) =>
      (fillSlice room nodes).bind fun slice =>
        (hashMapping ring nHostPerBucket room rest).map (slice :: ·)

/-! ## The client side -/

structure ChBalancer where
  base : BaseBalancer
  ring : HashRing Nat
  bucketMapping : List (List Int)

namespace ChBalancer

def createMapping (bl : ChBalancer) : Except Fault ChBalancer :=
  let n := bl.base.nHostPerBucket
  (hashMapping digest bl.ring n n (List.range nBuckets)).map fun m => { bl with bucketMapping := m }

/-- `NewConsistentHashBalancer`. -/
def new (nHost : Nat) (unavailableList : List (List Nat)) (updateIntvl : Int)
    (nHostPerBucket : Nat) : Except Fault ChBalancer :=
  createMapping digest
    { base := .new nHost unavailableList updateIntvl nHostPerBucket
      ring := .newRing digest (List.range nHost), bucketMapping := [] }

def update (bl : ChBalancer) (currTs : Int) : Except Fault ChBalancer :=
  let pos := bl.base.posAt currTs
  let bl := { bl with base := { bl.base with currUnavailPos := pos } }
  (bl.base.unavailAt pos).bind fun curr =>
    (bl.base.unavailAt (pos - 1)).bind fun prev =>
      if cmpSlice curr prev then .ok bl
      else (removeNodes digest bl.base.nHost curr
          (.newRing digest (List.range bl.base.nHost))).bind fun ring =>
        createMapping digest { bl with ring }

def checkUpdate (bl : ChBalancer) (currTs : Int) : Except Fault ChBalancer :=
  if bl.base.updateIntvl < 0 then .ok bl
  else
    let bl := { bl with base := bl.base.start currTs }
    if bl.base.updateIntvl = 0 then .error .divideByZero
    else if bl.base.currUnavailPos < bl.base.posAt currTs then bl.update digest currTs
    else .ok bl

/-- `GetNodesFromMapping`: the balancer after the call and the mapping of the bucket. -/
def getNodesFromMapping (bl : ChBalancer) (currTs : Int) (id : Nat) :
    Except Fault (ChBalancer × List Int) :=
  (bl.checkUpdate digest currTs).map fun bl => (bl, bl.bucketMapping.getD id [])

end ChBalancer

end

/-! ## The frontend side -/

/-- A graph with costs, as `graph.Mutable`: the cost of every edge. -/
structure Graph where
  order : Nat
  cost : Nat → Nat → Option Int

/-- What `rebalanceParity` calls of package `graph`: `MaxFlow`, the flow and the graph of it, and
`BFS`, as the list of the calls of `do` that it makes. -/
structure GraphLib where
  maxFlow : Graph → Nat → Nat → Int × Graph
  bfs : Graph → Nat → List (Nat × Nat × Int)

/-- The documented behaviour of package `graph` that the balancer relies on: flow runs along edges,
and `BFS` follows an edge only from where it starts or from a vertex that it has reached. -/
structure GraphLib.Lawful (gl : GraphLib) : Prop where
  maxFlow_edge : ∀ g s t v w, (gl.maxFlow g s t).2.cost v w ≠ none → g.cost v w ≠ none
  bfs_edge : ∀ g s v w c, (v, w, c) ∈ gl.bfs g s → g.cost v w = some c
  bfs_reached : ∀ g s v w c, (v, w, c) ∈ gl.bfs g s → v = s ∨ ∃ u d, (u, v, d) ∈ gl.bfs g s

structure ParityBalancer where
  base : BaseBalancer
  ring : HashRing Nat
  bucketMapping : List (List Int)
  rebalance : Bool
  currParityMapping : Option (Nat → Option Int)
  prevParityMapping : Option (Nat → Option Int)

namespace ParityBalancer

/-- `nodeWeight[host]` of `calNodeWeight(bucketMapping, _, _, n)`. -/
def nodeWeight (bucketMapping : List (List Int)) (n host : Nat) : Nat :=
  (bucketMapping.map fun nodes => (nodes.take n).count (host : Int)).sum

/-- `math.Ceil(float64(a) / float64(b))`. -/
def ceilDiv (a b : Int) : Int := -((-a).fdiv b)

/-- The graph of `rebalanceParity` for `nBucket` buckets: source `0`, sink `1`, then the hosts and the
buckets. -/
def parityGraphOf (nBucket : Nat) (base : BaseBalancer) (bucketMapping : List (List Int))
    (unavailable : List Nat) : Graph where
  order := base.nHost + nBucket + 2
  cost v w :=
    let n := base.nHostPerBucket
    let nAvailableHost : Int := base.nHost - unavailable.length
    let expectedWeight := ceilDiv (n * nBucket) nAvailableHost
    if v = 0 then
      if 2 ≤ w ∧ w < base.nHost + 2 ∧ w - 2 ∉ unavailable then
        some (expectedWeight - nodeWeight bucketMapping (n - 1) (w - 2))
      else none
    else if 2 ≤ v ∧ v < base.nHost + 2 then
      if base.nHost + 2 ≤ w ∧ w < base.nHost + nBucket + 2 ∧
          ((v - 2 : Nat) : Int) ∉ (bucketMapping.getD (w - base.nHost - 2) []).take (n - 1) then some 1
      else none
    else if base.nHost + 2 ≤ v ∧ v < base.nHost + nBucket + 2 ∧ w = 1 then some 1
    else none

def parityGraph (base : BaseBalancer) (bucketMapping : List (List Int)) (unavailable : List Nat) :
    Graph :=
  parityGraphOf nBuckets base bucketMapping unavailable

/-- What the callback of `BFS` does with the mapping. -/
def assignParity (nHost last : Nat) : List (Nat × Nat × Int) →
    List (List Int) × (Nat → Option Int) → Except Fault (List (List Int) × (Nat → Option Int))
  | [], s => .ok s
  | (left, right, _) :: calls, (m, parity) =>
    if left ≠ 0 ∧ right ≠ 1 then
      let bucketID := right - nHost - 2
      let hostID : Int := left - 2
      if right < nHost + 2 ∨ m.length ≤ bucketID ∨ (m.getD bucketID []).length ≤ last then
        .error .indexOutOfRange
      else
        assignParity nHost last calls
          (m.modify bucketID fun nodes => nodes.set last hostID,
            Function.update parity bucketID (some hostID))
    else assignParity nHost last calls (m, parity)

/-- `rebalanceParity`: the last chunk of a bucket goes to the host that the flow gives it. -/
def rebalanceParity (gl : GraphLib) (bl : ParityBalancer) : Except Fault ParityBalancer :=
  let unavailable : Except Fault (List Nat) :=
    if bl.base.unavailableList = [] then .ok [] else bl.base.unavailAt bl.base.currUnavailPos
  unavailable.bind fun unavailable =>
    let flow := gl.maxFlow (parityGraph bl.base bl.bucketMapping unavailable) 0 1
    (assignParity bl.base.nHost (bl.base.nHostPerBucket - 1) (gl.bfs flow.2 0)
        (bl.bucketMapping, fun _ => none)).map fun (m, parity) =>
      { bl with
        bucketMapping := m
        prevParityMapping := bl.currParityMapping
        currParityMapping := some parity }

/-- The previous parity host of a bucket goes to the entry after its hosts. -/
def addPrevious (bl : ParityBalancer) : ParityBalancer :=
  match bl.prevParityMapping with
  | none => bl
  | some prev =>
    { bl with
      bucketMapping := bl.bucketMapping.mapIdx fun bucket nodes =>
        match prev bucket with
        | some host => nodes.set bl.base.nHostPerBucket host
        | none => nodes }

section
variable (digest : List Nat → List Nat) (gl : GraphLib)

def createMapping (bl : ParityBalancer) : Except Fault ParityBalancer :=
  let n := bl.base.nHostPerBucket
  (hashMapping digest bl.ring n (n + 1) (List.range nBuckets)).bind fun m =>
    let bl := { bl with bucketMapping := m.map fun nodes => nodes.set n (-1) }
    if bl.rebalance then (rebalanceParity gl bl).map addPrevious else .ok bl

/-- `NewParityBalancer`. -/
def new (nHost : Nat) (unavailableList : List (List Nat)) (updateIntvl : Int)
    (nHostPerBucket : Nat) (rebalance : Bool) : Except Fault ParityBalancer :=
  createMapping digest gl
    { base := .new nHost unavailableList updateIntvl nHostPerBucket
      ring := .newRing digest (List.range nHost), bucketMapping := [], rebalance
      currParityMapping := none, prevParityMapping := none }

def update (bl : ParityBalancer) (currTs : Int) : Except Fault ParityBalancer :=
  let newPos := bl.base.posAt currTs
  (bl.base.unavailAt newPos).bind fun next =>
    (bl.base.unavailAt bl.base.currUnavailPos).bind fun curr =>
      if cmpSlice next curr then
        .ok { bl with base := { bl.base with currUnavailPos := newPos } }
      else (removeNodes digest bl.base.nHost next
          (.newRing digest (List.range bl.base.nHost))).bind fun ring =>
        createMapping digest gl
          { bl with ring, base := { bl.base with currUnavailPos := newPos } }

def checkUpdate (bl : ParityBalancer) (currTs : Int) : Except Fault ParityBalancer :=
  if bl.base.updateIntvl < 0 then .ok bl
  else
    let bl := { bl with base := bl.base.start currTs }
    if bl.base.updateIntvl = 0 then .error .divideByZero
    else if bl.base.currUnavailPos < bl.base.posAt currTs then bl.update digest gl currTs
    else .ok bl

/-- `GetNodesFromMapping`: the balancer after the call and the mapping of the bucket. -/
def getNodesFromMapping (bl : ParityBalancer) (currTs : Int) (id : Nat) :
    Except Fault (ParityBalancer × List Int) :=
  (bl.checkUpdate digest gl currTs).map fun bl => (bl, bl.bucketMapping.getD id [])

def reset (bl : ParityBalancer) : ParityBalancer := { bl with base := bl.base.reset }

end

end ParityBalancer

end C2DN.LoadBalancer
