import C2DN.Lib.Outcome
import C2DN.LoadBalancer.Balancer

/-!
# The trace of a client

`LoadAkamaiBinData` reads a trace file and puts the requests of its client on `reqChan`. A request
that is skipped along one of its `continue` paths has been counted in `nReq`, which chooses between
the two hosts of a request.

A file is a list of bytes. The pace of a replay is a floating point division, whose result is given.
`DPanic` is logging. Metrics and log lines are left out.
-/

namespace C2DN.Client

open LoadBalancer

/-- `Request`: a record of the trace. -/
structure Request where
  timestamp : UInt32
  id : UInt32
  size : UInt32
  deriving DecidableEq, Repr

structure FullRequest where
  timestamp : UInt32
  id : UInt32
  size : UInt32
  bucket : UInt32
  originalHostIdx : Int
  alternateHostIdx : Int
  remote : Bool
  deriving DecidableEq, Repr

/-- The fields of `ClientParam` that the loader reads. -/
structure ClientParam where
  clientID : Int
  requestRateMbps : Int
  randomRoute : Bool
  replayStartTs : UInt32
  replayEndTs : UInt32
  uniqueObj : Bool
  ignoreRemoteReq : Bool
  /-- `uint32(float64(ts) / ReplaySpeedup)` -/
  paced : UInt32 → UInt32

/-- The errors of `binary.Read`. -/
inductive ReadErr where
  | eof
  | unexpectedEof
  deriving DecidableEq, Repr

/-- How a call ends that does not return. -/
inductive Fault where
  | balancer (e : LoadBalancer.Fault)
  | indexOutOfRange
  /-- the loop goes on forever -/
  | noEnd
  deriving DecidableEq, Repr

def isRemote (objID : UInt32) : Bool := decide (objID % 1001 ≤ 2)

/-! ## The file -/

/-- The bytes of a number, the lowest one first. -/
def leBytes (x : UInt32) : List UInt8 :=
  [x.toUInt8, (x >>> 8).toUInt8, (x >>> 16).toUInt8, (x >>> 24).toUInt8]

def ofLeBytes (b₀ b₁ b₂ b₃ : UInt8) : UInt32 :=
  b₀.toUInt32 ||| b₁.toUInt32 <<< 8 ||| b₂.toUInt32 <<< 16 ||| b₃.toUInt32 <<< 24

/-- The file with these records. -/
def fileOf (rs : List Request) : List UInt8 :=
  rs.flatMap fun r => leBytes r.timestamp ++ leBytes r.id ++ leBytes r.size

/-- `binary.Read(reader, binary.LittleEndian, &req)`, with the bytes that are left. -/
def readRequest : List UInt8 → Except ReadErr (Request × List UInt8)
  | [] => .error .eof
  | a₀ :: a₁ :: a₂ :: a₃ :: b₀ :: b₁ :: b₂ :: b₃ :: c₀ :: c₁ :: c₂ :: c₃ :: rest =>
    .ok (⟨ofLeBytes a₀ a₁ a₂ a₃, ofLeBytes b₀ b₁ b₂ b₃, ofLeBytes c₀ c₁ c₂ c₃⟩, rest)
  | _ => .error .unexpectedEof

/-! ## The loader -/

/-- The variables of `LoadAkamaiBinData`, with `traceStartTs` and `lbWithNoFailure`. -/
structure Loader where
  reader : List UInt8
  lb : ChBalancer
  traceStartTs : UInt32
  req : FullRequest
  err : Option ReadErr
  fakeTs : UInt32
  reqByteCurTs : UInt64
  seenObj : List UInt32
  lastSeenTs : UInt32 → Option UInt32
  nReq : Nat
  reqChan : List FullRequest

section
variable (digest : List Nat → List Nat)

/-- `readOneReq`: `req, err = readOneReq(reader)`. -/
def Loader.readOneReq (st : Loader) : Except Fault Loader :=
  match readRequest st.reader with
  | .error err =>
    .ok { st with reader := [], req := ⟨0, 0, 0, 0, 0, 0, false⟩, err := some err }
  | .ok (req, reader) => do
    let bucket := req.id % UInt32.ofNat nBuckets
    let (lb, peers) ← (st.lb.getNodesFromMapping digest 0 bucket.toNat).mapError .balancer
    match peers with
    | originalHostIdx :: alternateHostIdx :: _ =>
      .ok { st with
        reader
        lb
        req := {
          timestamp := req.timestamp - st.traceStartTs
          id := req.id
          size := req.size
          bucket
          originalHostIdx
          alternateHostIdx
          remote := isRemote req.id }
        err := none }
    | _ => .error .indexOutOfRange

/-- The timestamp of a request, at the pace of the replay or at a fixed rate. -/
def Loader.pace (cp : ClientParam) (st : Loader) : Loader :=
  if cp.requestRateMbps ≤ 0 then
    { st with req :=
      { st.req with timestamp := cp.paced (st.req.timestamp - cp.replayStartTs) } }
  else
    let reqByteCurTs := st.reqByteCurTs + st.req.size.toUInt64
    let st := { st with req := { st.req with timestamp := st.fakeTs } }
    if cp.requestRateMbps ≤ (reqByteCurTs * 8 / 1024 / 1024).toNat then
      { st with reqByteCurTs := 0, fakeTs := st.fakeTs + 1 }
    else { st with reqByteCurTs }

/-- `reqChan <- req`, and the next request. -/
def Loader.put (st : Loader) : Except Fault Loader :=
  { st with reqChan := st.reqChan ++ [st.req] }.readOneReq digest

/-- The end of a round, for a request of this client. -/
def Loader.use (cp : ClientParam) (st : Loader) : Except Fault Loader :=
  let st := st.pace cp
  let st := if st.req.size < 11 then { st with req := { st.req with size := 11 } } else st
  if 100000000 < st.req.size then
    match st.lastSeenTs st.req.id with
    | some ts => if st.req.timestamp - ts < 10 then st.readOneReq digest else st.put digest
    | none =>
      { st with lastSeenTs := Function.update st.lastSeenTs st.req.id (some st.req.timestamp) }.put
        digest
  else st.put digest

/-- Whether the request is another client's. -/
def Loader.differentClient (cp : ClientParam) (st : Loader) : Bool :=
  let randChosenHost :=
    if cp.randomRoute && st.nReq % 2 == 0 then st.req.alternateHostIdx else st.req.originalHostIdx
  if cp.clientID ≠ -1 then decide (randChosenHost ≠ cp.clientID) else !isRemote st.req.id

/-- The rest of a round, for a request in the window of the replay. -/
def Loader.serve (cp : ClientParam) (st : Loader) : Except Fault Loader :=
  if cp.ignoreRemoteReq && isRemote st.req.id then st.readOneReq digest
  else if st.differentClient cp then st.readOneReq digest
  else if cp.uniqueObj then
    if st.req.id ∈ st.seenObj then st.readOneReq digest
    else { st with seenObj := st.req.id :: st.seenObj }.use digest cp
  else st.use digest cp

/-- One round of the loop; `none` is `break`. -/
def Loader.round (cp : ClientParam) (st : Loader) : Except Fault (Option Loader) :=
  match st.err with
  | some .eof => .ok none
  -- no request is read, and the next round finds the same error
  | some .unexpectedEof => .ok (some st)
  | none =>
    let st := { st with nReq := st.nReq + 1 }
    if st.req.timestamp < cp.replayStartTs then (st.readOneReq digest).map some
    else if cp.replayEndTs < st.req.timestamp then .ok none
    else (st.serve digest cp).map some

def Loader.loop (cp : ClientParam) : Nat → Loader → Except Fault Loader
  | 0, _ => .error .noEnd
  | fuel + 1, st => (st.round digest cp).bind fun
    | none => .ok st
    | some st => st.loop cp fuel

/-- The loader after the first request has been read. -/
def Loader.start (lb : ChBalancer) (file : List UInt8) : Except Fault Loader :=
  (readOneReq digest {
    reader := file
    lb
    traceStartTs := 0
    req := ⟨0, 0, 0, 0, 0, 0, false⟩
    err := none
    fakeTs := 0
    reqByteCurTs := 0
    seenObj := []
    lastSeenTs := fun _ => none
    nReq := 0
    reqChan := [] }).map fun st =>
      { st with traceStartTs := st.req.timestamp, req := { st.req with timestamp := 0 } }

/-- Every round but the last two reads a record. -/
def loadAkamaiBinData (cp : ClientParam) (lb : ChBalancer) (file : List UInt8) :
    Except Fault Loader :=
  (Loader.start digest lb file).bind (Loader.loop digest cp (file.length + 2))

end

end C2DN.Client
