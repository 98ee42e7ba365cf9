import C2DN.Lib.Reuse
import C2DN.Simulator.BinaryReader
import C2DN.Simulator.LruProfile

/-!
# The distances of a trace

`get_stack_dist`, `get_last_access_dist` and `get_first_access_dist` go through a binary trace,
`get_future_stack_dist` and `get_next_access_dist` go through it backwards. The hash table has timestamps,
and a timestamp 0 is the null pointer, so the object of the request that comes first counts as missing at
its next request.
-/

namespace C2DN.Simulator

/-! ## Going back -/

namespace BinaryReader

/-- `go_back_one_line`, with its result. -/
def goBackOneLine (reader : BinaryReader) : BinaryReader × Int :=
  if reader.itemSize ≤ reader.mmapOffset then
    ({ reader with mmapOffset := reader.mmapOffset - reader.itemSize }, 0)
  else (reader, -1)

/-- `go_back_two_lines`. -/
def goBackTwoLines (reader : BinaryReader) : BinaryReader × Int :=
  if reader.itemSize * 2 ≤ reader.mmapOffset then
    ({ reader with mmapOffset := reader.mmapOffset - reader.itemSize * 2 }, 0)
  else (reader, -1)

/-- `read_one_req_above`. -/
def readOneReqAbove (reader : BinaryReader) (req : TraceReq) : Except BinFault (BinaryReader × TraceReq) :=
  match reader.goBackTwoLines with
  | (reader, 0) => reader.readOneReq req
  | (reader, _) => .ok (reader, { req with valid := false })

/-- `reader_set_read_pos(reader, 1.0)`. -/
def setReadPosEnd (reader : BinaryReader) : BinaryReader :=
  { reader with mmapOffset := reader.mappedFile.length }

/-- `reset_reader`. -/
def reset (reader : BinaryReader) : BinaryReader := { reader with mmapOffset := 0 }

end BinaryReader

/-! ## The loops -/

/-- How a call ends that does not return. -/
inductive DistFault where
  | read (e : BinFault)
  | tree (e : Fault)
  | outOfBounds
  | noEnd
  deriving DecidableEq, Repr

/-- `dist_array[i] = dist`; an element that has not been written is none. -/
def storeDist (a : List (Option Int)) (i : Int) (dist : Int) : Except DistFault (List (Option Int)) :=
  if 0 ≤ i ∧ i < a.length then .ok (a.set i.toNat (some dist)) else .error .outOfBounds

/-- The loop of the distance functions: `add` gives the distance of a request, which is stored at `idx`,
and `next` reads another request. -/
def distLoop {σ : Type} (next : BinaryReader → TraceReq → Except BinFault (BinaryReader × TraceReq))
    (add : σ → TraceReq → Nat → Except DistFault (σ × Int)) (idx : Nat → Int) :
    Nat → BinaryReader → TraceReq → σ → Nat → List (Option Int) →
      Except DistFault (List (Option Int) × BinaryReader)
  | 0, _, _, _, _, _ => .error .noEnd
  | fuel + 1, reader, req, s, ts, a =>
    if req.valid then
      (add s req ts).bind fun (s, dist) => (storeDist a (idx ts) dist).bind fun a =>
        ((next reader req).mapError .read).bind fun (reader, req) =>
          distLoop next add idx fuel reader req s (ts + 1) a
    else .ok (a, reader.reset)

/-- The first request is read, and the loop goes on forwards. -/
def distForwards {σ : Type} (add : σ → TraceReq → Nat → Except DistFault (σ × Int)) (s : σ) (fuel : Nat)
    (reader : BinaryReader) (req : TraceReq) : Except DistFault (List (Option Int) × BinaryReader) :=
  ((reader.readOneReq req).mapError .read).bind fun (reader, req) =>
    distLoop BinaryReader.readOneReq add (fun ts => ts) fuel reader req s 0
      (List.replicate reader.nTotalReq none)

/-- The last request is read, and the loop goes on backwards. `go_back_one_line` can fail, with a
message. At `ts == get_num_of_req(reader)` `get_future_stack_dist` would leave its loop and
`_get_last_access_dist` would abort, and this ends with `outOfBounds`: going backwards there are no more
than `get_num_of_req(reader)` requests, so the loop is over before. -/
def distBackwards {σ : Type} (add : σ → TraceReq → Nat → Except DistFault (σ × Int)) (s : σ) (fuel : Nat)
    (reader : BinaryReader) (req : TraceReq) : Except DistFault (List (Option Int) × BinaryReader) :=
  ((reader.setReadPosEnd.goBackOneLine.1.readOneReq req).mapError .read).bind fun (reader, req) =>
    distLoop BinaryReader.readOneReqAbove add (fun ts => reader.nTotalReq - 1 - ts) fuel reader req s 0
      (List.replicate reader.nTotalReq none)

/-! ## The distances -/

open LruProfile (lookup getStackDistAddReq)

/-- `_get_last_dist_add_req`. -/
def lastDistAddReq (hashTable : Nat → Option Nat) (req : TraceReq) (ts : Nat) :
    Except DistFault ((Nat → Option Nat) × Int) :=
  let gp := lookup hashTable req.objId.toNat
  .ok (Function.update hashTable req.objId.toNat (some ts), if gp = 0 then -1 else ts - gp - 1)

/-- `_get_first_dist_add_req`. -/
def firstDistAddReq (hashTable : Nat → Option Nat) (req : TraceReq) (ts : Nat) :
    Except DistFault ((Nat → Option Nat) × Int) :=
  let gp := lookup hashTable req.objId.toNat
  .ok (if gp = 0 then (Function.update hashTable req.objId.toNat (some ts), -1)
    else (hashTable, ts - gp - 1))

section
variable (T : CountedSet Int)

/-- `get_stack_dist_add_req`, with the tree and the hash table. -/
def stackDistAddReq (s : T.Tree × (Nat → Option Nat)) (req : TraceReq) (ts : Nat) :
    Except DistFault ((T.Tree × (Nat → Option Nat)) × Int) :=
  ((getStackDistAddReq T req.objId.toNat s.1 s.2 ts).mapError .tree).map
    fun (splayTree, hashTable, stackDist) => ((splayTree, hashTable), stackDist)

/-- `get_stack_dist`. -/
def getStackDist := distForwards (stackDistAddReq T) (T.empty, fun _ => none)

/-- `get_future_stack_dist`. -/
def getFutureStackDist := distBackwards (stackDistAddReq T) (T.empty, fun _ => none)

end

/-- `get_last_access_dist`. -/
def getLastAccessDist := distForwards lastDistAddReq fun _ => none

/-- `get_first_access_dist`. -/
def getFirstAccessDist := distForwards firstDistAddReq fun _ => none

/-- `get_next_access_dist`. -/
def getNextAccessDist := distBackwards lastDistAddReq fun _ => none

end C2DN.Simulator
