import C2DN.Frontend.Decode
import C2DN.Frontend.PipeData

/-!
# Pushing the chunks of an object and answering from them

`pushChunks` of `cmd/frontend/push.go` and the end of `handleChunk` of `cmd/frontend/get.go`, from
the point on where no further chunk is accepted.
-/

namespace C2DN.Frontend

open FrontendTxnData

/-- What the frontend calls of `reedsolomon.Encoder`: `Split`, `Encode` (the shards after it) and
`ReconstructData`. -/
structure Encoder where
  split : Bytes → Nat → Bytes
  encode : (Nat → Bytes) → Nat → Bytes
  reconstructData : (Nat → Bytes) → Option (Nat → Bytes)

/-- A chunk on its way to a peer: the body that `pushToATS` sends, or none from `fakePush`. -/
structure ChunkPush where
  hostIdx : Nat
  chunkIdx : Nat
  chunkSize : Nat
  body : Option Bytes

/-- `pushChunks(dat, feTxn, chunkIdxs)` with `myconst.UseFakePush` as an argument. -/
def pushChunks (prm : FrontendParam) (myEncoder : Encoder) (useFakePush : Bool)
    (peerIdx : Nat → Nat) (dat : Bytes) (chunkIdxs : List Nat) : List ChunkPush :=
  let chunkSize := chunkSizeOf dat.length prm.ECK
  let splitData := myEncoder.encode (myEncoder.split dat)
  chunkIdxs.map fun chunkIdx =>
    { hostIdx := peerIdx chunkIdx, chunkIdx, chunkSize
      body := if useFakePush then none else some (splitData chunkIdx) }

/-- The body of chunk `j` on its peer. -/
def storedChunk (pushes : List ChunkPush) (j : Nat) : Bytes :=
  ((pushes.find? fun p => p.chunkIdx == j).bind ChunkPush.body).getD []

/-- The end of `handleChunk(feTxn, true)`: without decoding if all data chunks are available, else
through a coder of the pool. -/
def handleChunk (prm : FrontendParam) (fuel : Nat) (scoder : MyStreamCoder) (t : FrontendTxnData) :
    Option FrontendTxnData :=
  let t := { t with chunkSize := chunkSizeOf t.objSize prm.ECK }
  let numDataAvailable := (List.range prm.ECK).countP t.isAvailable
  if numDataAvailable = prm.ECK then (pipeDataChunkToClient prm fuel t).map PipeRet.txn
  else (decode fuel scoder t).map DecodeRet.txn

end C2DN.Frontend
