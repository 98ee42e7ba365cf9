import Mathlib.Algebra.Ring.Nat
import C2DN.Frontend.Goroutines
import C2DN.Frontend.Decode
import C2DN.Frontend.PipeData

/-!
# A transaction from its request to its end

`akamaiHandler` (`cmd/frontend/httphandler.go`) gives a request a body pipe, finds its hosts and calls
`FrontendMain`. The goroutines of the transaction are those of `Goroutines`, with the pipe to the
client, the goroutine of `handleFullObj` that sends a full object, and the bytes that
`PipeDataChunkToClient` and `Decode` find in the responses. `TxnEnv` has everything that the
transaction meets.
-/

namespace C2DN.Frontend.Goroutines

/-- `strconv.Atoi`: decimal digits after a sign that can be missing, as a 64-bit integer. -/
def atoi (text : List Char) : Option Int :=
  let (neg, digits) := match text with
    | '-' :: digits => (true, digits)
    | '+' :: digits => (false, digits)
    | digits => (false, digits)
  if digits = [] ∨ digits.any (!·.isDigit) then none
  else
    let value := digits.foldl (fun n d => 10 * n + (d.toNat - '0'.toNat)) 0
    if neg then if value ≤ 2 ^ 63 then some (-value) else none
    else if value < 2 ^ 63 then some value else none

/-- `myutils.CheckRamAdmitPolicy`. -/
def checkRamAdmitPolicy (ramCacheSize objSize : Int) : Bool :=
  ramCacheSize ≠ 0 ∧ objSize < 16 * 1024 * 1024 ∧ objSize * 1024 < ramCacheSize

/-- A request and what its transaction meets, as in `Env`. -/
structure TxnEnv where
  /-- the header `Bucket` -/
  bucket : List Char
  reqContent : List Char
  objSize : Nat
  /-- `lb.GetNodesFromMapping`: the row of a bucket, or none for a bucket that does not exist -/
  nodesFromMapping : Int → List Int
  /-- `feParam.RamCacheSize` -/
  ramCacheSize : Int
  intn : Nat → Bool
  check : Nat → Nat → Option CheckReply
  full : Nat → FullReply
  chunk : Nat → ChunkReply
  /-- the body of a chunk that has been answered with status 200 -/
  chunkBody : Nat → Body
  /-- the body of the full object that this call of `FrontendMain` gets -/
  fullBody : Nat → Body
  /-- how many bytes the client takes; `none`: all -/
  room : Option Nat
  /-- the coder that `myStreamCoders.Get` finds -/
  scoder : MyStreamCoder
  /-- a goroutine that sends chunks in more rounds has not ended -/
  fuel : Nat

namespace TxnEnv

/-- `feTxn.PeerIdx`. -/
def peerIdx (e : TxnEnv) : List Int := ((atoi e.bucket).map e.nodesFromMapping).getD []

/-- What the goroutines meet; a row has an entry for every chunk. -/
def env (e : TxnEnv) : Env where
  peerIdx i := e.peerIdx.getD i (-1)
  intn := e.intn
  check := e.check
  full := e.full
  chunk := e.chunk

end TxnEnv

/-- The goroutine that sends a full object. -/
inductive FullPc where
  | idle
  | copying
  | debugEnd
  | done
  deriving DecidableEq, Repr

structure Txn where
  go : State
  pipew : PipeWriter
  full : FullPc
  saveToFeRAM : Bool
  /-- the buffer that `chunkGetCleanupTxn` is called with -/
  buf : Option Bytes
  /-- `chunkGetCleanupTxn` has called `buf.Bytes()` on `nil` -/
  nilDeref : Bool

inductive TxnTid where
  | go (t : Tid)
  | full
  deriving DecidableEq, Repr

namespace Txn

/-- `akamaiHandler`, from the body pipe on. -/
def akamaiHandler (e : TxnEnv) : Txn :=
  let x : Txn := {
    go := start, pipew := ⟨[], false, e.room⟩, full := .idle, saveToFeRAM := false, buf := none
    nilDeref := false }
  let returned := { x with go := { start with main := .returned } }
  if e.bucket = [] ∧ e.reqContent.head? ≠ some 'a' then { returned with pipew := x.pipew.close }
  else if atoi e.bucket = none then returned
  -- `feTxn.PeerIdx[0]` panics in `FrontendMain`
  else if e.peerIdx = [] then returned
  else x

/-- A step of the goroutine of `akamaiHandler`. `HandleFailedReq` closes the pipe. -/
def mainStep (p : Param) (e : TxnEnv) (x : Txn) : Except Halt Txn :=
  (Goroutines.mainStep p e.env x.go).map fun s =>
    match x.go.main with
    | .fullObj _ =>
      match e.full x.go.nFrontendMain with
      | .err => { x with go := s, pipew := x.pipew.close }
      | _ => { x with go := s }
    | .serveFull _ =>
      -- `CheckObjCachePolicy` comes before the decision to restart
      { x with
        go := s
        saveToFeRAM := checkRamAdmitPolicy e.ramCacheSize e.objSize
        full := if s.main = .returned then .copying else x.full }
    | .tooManyFailed => { x with go := s, pipew := x.pipew.close }
    | _ => { x with go := s }

/-- `feTxn` as `PipeDataChunkToClient` and `Decode` find it. -/
def data (p : Param) (e : TxnEnv) (x : Txn) : FrontendTxnData where
  objSize := e.objSize
  chunkSize := FrontendTxnData.chunkSizeOf e.objSize p.ECK
  sendSize := 0
  nResps := x.go.chunk.resps.length
  resps := e.chunkBody
  isAvailable i := x.go.chunk.isAvailable[i]?.getD false
  pipew := x.pipew
  errs := []

/-- `chunkGetCleanupTxn(feTxn, buf)` up to its loop. -/
def cleanup (p : Param) (x : Txn) (buf : Option Bytes) : Except Halt Txn :=
  (appendDebugString p x.go.mon).map fun _ =>
    if x.saveToFeRAM ∧ buf = none then
      { x with go := { x.go with pipe := .done }, buf, nilDeref := true }
    else { x with go := { x.go with pipe := .cleanup 0 }, buf }

/-- A step of the goroutine that sends the chunks. -/
def pipeStep (p : Param) (e : TxnEnv) (x : Txn) : Except Halt Txn :=
  match x.go.pipe with
  | .sending =>
    if x.go.noDecode = some true then
      match pipeDataChunkToClient p.toFrontendParam e.fuel (x.data p e) with
      | none => .error .blocked
      | some ⟨t, none⟩ => .ok { x with pipew := t.pipew, go := { x.go with pipe := .done } }
      | some ⟨t, some buf⟩ => { x with pipew := t.pipew }.cleanup p (some buf)
    else
      match decode e.fuel e.scoder (x.data p e) with
      | none => .error .blocked
      | some r => { x with pipew := r.txn.pipew }.cleanup p r.respBuffer
  | .cleanup _ =>
    (Goroutines.pipeStep p x.go).map fun s =>
      if s.pipe = .done ∧ s.chunk.missingPChunkIdx ≠ [] ∧ x.buf = none then
        { x with go := s, nilDeref := true }
      else { x with go := s }
  | .idle | .done => .error .blocked

/-- A step of the goroutine that sends the full object: `io.Copy`, and the pipe is closed by
`HandleFailedReq` or after the copy. What follows leaves the transaction alone. -/
def fullStep (p : Param) (e : TxnEnv) (x : Txn) : Except Halt Txn :=
  match x.full with
  | .copying =>
    let body := e.fullBody x.go.nFrontendMain
    let (n, err, w) := if body.data = [] then (0, none, x.pipew) else x.pipew.write body.data
    let ok : Bool := err = none ∧ body.fin = .eof ∧ n = e.objSize
    .ok { x with pipew := w.close, full := if ok then .debugEnd else .done }
  | .debugEnd => (appendDebugString p x.go.mon).map fun _ => { x with full := .done }
  | .idle | .done => .error .blocked

def step (p : Param) (e : TxnEnv) (x : Txn) : TxnTid → Except Halt Txn
  | .go .main => x.mainStep p e
  | .go .pipe => x.pipeStep p e
  | .go t => (Goroutines.step p e.env x.go t).map fun s => { x with go := s }
  | .full => x.fullStep p e

/-- The state of the transaction after these steps. -/
def run (p : Param) (e : TxnEnv) (ts : List TxnTid) : Except Halt Txn :=
  ts.foldlM (step p e) (akamaiHandler e)

end Txn

end C2DN.Frontend.Goroutines
