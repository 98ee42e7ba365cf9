import C2DN.Frontend.Stream

/-!
# Sending the data chunks without decoding

`PipeDataChunkToClient` of `cmd/frontend/get.go`, the way out of `handleChunk` when all data chunks
are available. Chunks of at most `CodingSubChunkSize` bytes are piped one after the other; longer
ones in rounds of one block a chunk, until a copy reports the end. `int64` sizes that can become
negative are integers. An early `return` is an `Except.error`.
-/

namespace C2DN.Frontend

/-- The local variables of `PipeDataChunkToClient`. -/
structure PipeSt where
  txn : FrontendTxnData
  respBuffer : Bytes
  lastBlock : Bool

/-- What `PipeDataChunkToClient` leaves behind: the transaction, and the buffer that it hands to
`chunkGetCleanupTxn` unless it has returned before. -/
structure PipeRet where
  txn : FrontendTxnData
  respBuffer : Option Bytes

namespace PipeSt

/-- `HandleFailedReq(feTxn, _, "pipeToClient", true)` and `return`. -/
def failed (s : PipeSt) : PipeRet := ⟨s.txn.handleFailedReq .pipeToClient true, none⟩

/-- `feTxn.SendSize += n`. -/
def addSendSize (s : PipeSt) (n : Nat) : PipeSt :=
  { s with txn := { s.txn with sendSize := s.txn.sendSize + n } }

/-- Move the bytes `p` of chunk `i` to the client through `readers[i]`, a `TeeReader` into
`respBuffer`; `rest` is what stays in the body. `io.Copy` does it in pieces of 32 KiB, which shows
only in what a failed write leaves in the buffer and the body, and nobody reads that. -/
def pipeBytes (s : PipeSt) (i : Nat) (p : Bytes) (rest : Body) : Nat × Option GoErr × PipeSt :=
  let s := { s with txn := s.txn.setResp i rest, respBuffer := s.respBuffer ++ p }
  if p = [] then (0, none, s)
  else
    let (n, err, w) := s.txn.pipew.write p
    (n, err, { s with txn := { s.txn with pipew := w } })

/-- `io.Copy(feTxn.Pipew, readers[i])`. -/
def copy (s : PipeSt) (i : Nat) : Nat × Option GoErr × PipeSt :=
  let b := s.txn.resps i
  match s.pipeBytes i b.data b.discard with
  | (n, some err, s) => (n, some err, s)
  | (n, none, s) => (n, if b.fin = .eof then none else some b.fin, s)

/-- `io.CopyN(feTxn.Pipew, readers[i], size)`: a negative `size` copies nothing and is no error. -/
def copyN (s : PipeSt) (i : Nat) (size : Int) : Nat × Option GoErr × PipeSt :=
  let b := s.txn.resps i
  match s.pipeBytes i (b.data.take size.toNat) { b with data := b.data.drop size.toNat } with
  | (n, err, s) =>
    if (n : Int) = size then (n, none, s)
    else match err with
      | some err => (n, some err, s)
      | none => (n, if (n : Int) < size then some b.fin else none, s)

/-! ## One round -/

/-- Pipe the given chunks, each to its end. -/
def copyChunks : List Nat → PipeSt → Except PipeRet PipeSt
  | [], s => .ok s
  | i :: is, s =>
    match s.copy i with
    | (_, some _, s) => .error s.failed
    | (n, none, s) => copyChunks is (s.addSendSize n)

/-- Pipe what the object has in the last chunk. -/
def copyLastChunk (p : FrontendParam) (s : PipeSt) : Except PipeRet PipeSt :=
  let sizeOfLastChunk : Int := s.txn.objSize - (p.ECK - 1 : Nat) * s.txn.chunkSize
  match s.copyN (p.ECK - 1) sizeOfLastChunk with
  | (n, err, s) =>
    if err ≠ none ∨ (n : Int) ≠ sizeOfLastChunk then .error s.failed
    else .ok ({ s with txn := s.txn.discardResp (p.ECK - 1) }.addSendSize sizeOfLastChunk.toNat)

/-- Single round piping. -/
def singleRound (p : FrontendParam) (s : PipeSt) : Except PipeRet PipeSt :=
  (copyChunks (List.range (p.ECK - 1)) s).bind (copyLastChunk p)

/-! ## Several rounds -/

/-- The last block of the last chunk. -/
def copyLastBlock (p : FrontendParam) (s : PipeSt) : Except PipeRet PipeSt :=
  let last := p.ECK - 1
  let s :=
    if s.txn.sendSize = s.txn.objSize then { s with txn := s.txn.discardResp last } else s
  let sizeOfLastChunk : Int :=
    (s.txn.objSize % (codingSubChunkSize * p.ECK) : Nat) -
      (s.txn.chunkSize % codingSubChunkSize * last : Nat)
  let sizeOfLastChunk := if sizeOfLastChunk < 0 then 0 else sizeOfLastChunk
  if sizeOfLastChunk + s.txn.sendSize ≠ s.txn.objSize then .error s.failed
  else if 0 < sizeOfLastChunk then
    match s.copyN last sizeOfLastChunk with
    | (_, some _, s) => .error s.failed
    | (_, none, s) =>
      let s := s.addSendSize sizeOfLastChunk.toNat
      .ok { s with txn := s.txn.discardResp last }
  else .ok { s with txn := s.txn.discardResp last }

/-- One round over the chunks, `for i := 0; i < feParam.ECK; i++ { ... }`. -/
def pipeRound (p : FrontendParam) : List Nat → PipeSt → Except PipeRet PipeSt
  | [], s => .ok s
  | i :: is, s =>
    if s.lastBlock = false ∨ i ≠ p.ECK - 1 then
      if s.txn.sendSize = s.txn.objSize then
        if s.lastBlock = false then
          -- `break`
          if s.txn.objSize % (p.ECK * s.txn.chunkSize) = 0 then .ok { s with lastBlock := true }
          else .error s.failed
        else
          -- the last blocks are like (1, 0, 0): the object has ended before
          pipeRound p is { s with txn := s.txn.discardResp i }
      else
        match s.copyN i codingSubChunkSize with
        | (n, err, s) =>
          if err ≠ none ∨ n ≠ codingSubChunkSize then
            if err = some .eof then pipeRound p is ({ s with lastBlock := true }.addSendSize n)
            else .error s.failed
          else pipeRound p is (s.addSendSize n)
    else (copyLastBlock p s).bind (pipeRound p is)

/-- `for !lastBlock { ... }` for at most `fuel` tests of the condition. -/
def pipeLoop (p : FrontendParam) : Nat → PipeSt → Option (Except PipeRet PipeSt)
  | 0, _ => none
  | fuel + 1, s =>
    if s.lastBlock then some (.ok s)
    else match pipeRound p (List.range p.ECK) s with
      | .error r => some (.error r)
      | .ok s => pipeLoop p fuel s

/-- After both cases: a `SendSize` that differs from `ObjSize` is only logged. -/
def finish : Except PipeRet PipeSt → PipeRet
  | .error r => r
  | .ok s => ⟨{ s.txn with pipew := s.txn.pipew.close }, some s.respBuffer⟩

end PipeSt

/-- `PipeDataChunkToClient(feTxn)`; `none` means that `fuel` iterations were not enough. -/
def pipeDataChunkToClient (p : FrontendParam) (fuel : Nat) (t : FrontendTxnData) :
    Option PipeRet :=
  let s : PipeSt := { txn := t, respBuffer := [], lastBlock := false }
  if t.chunkSize ≤ codingSubChunkSize then some (PipeSt.finish (PipeSt.singleRound p s))
  else (PipeSt.pipeLoop p fuel s).map PipeSt.finish

end C2DN.Frontend
