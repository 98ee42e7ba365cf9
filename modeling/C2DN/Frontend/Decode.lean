import C2DN.Lib.Slice
import C2DN.Frontend.Stream

/-!
# The streaming decoder

`MyStreamCoder` and `MyStreamCoder.Decode` of `cmd/frontend/ec.go`. The coder owns one buffer of
`n * blockSize` bytes; shard `i` is a slice of it that a round shortens to what it read, and
every return gives it back its full width, because the coder goes back to the pool. An early
`return nil` is an `Except.error`.
-/

namespace C2DN.Frontend

/-- `MyStreamCoder`. `reconstructData` is `Coder.ReconstructData` on the contents of the shards,
an empty shard being a missing one; `none` is an error. -/
structure MyStreamCoder where
  n : Nat
  k : Nat
  blockSize : Nat
  reconstructData : (Nat → Bytes) → Option (Nat → Bytes)
  dataBuf : Nat → UInt8
  shards : Nat → Slice

/-- The window of the buffer that belongs to shard `i`. -/
def fullShard (blockSize i : Nat) : Slice := ⟨blockSize * i, blockSize * (i + 1)⟩

def newStreamCoder (reconstructData : (Nat → Bytes) → Option (Nat → Bytes))
    (n k blockSize : Nat) : MyStreamCoder where
  n := n
  k := k
  blockSize := blockSize
  reconstructData := reconstructData
  dataBuf := fun _ => 0
  shards := fun i => if i < n then fullShard blockSize i else ⟨0, 0⟩

namespace MyStreamCoder

/-- The loop that gives every shard its full width back. -/
def restoreShards (c : MyStreamCoder) : MyStreamCoder :=
  { c with shards := fun i => if i < c.n then fullShard c.blockSize i else c.shards i }

/-- Put `p` at the start of shard `i` and cut the shard to it. -/
def store (c : MyStreamCoder) (i : Nat) (p : Bytes) : MyStreamCoder :=
  { c with
    dataBuf := Slice.writeAt c.dataBuf (c.shards i).lo p
    shards := Function.update c.shards i ((c.shards i).upto p.length) }

/-- `scoder.shards[i] = scoder.shards[i][:0]`. -/
def clear (c : MyStreamCoder) (i : Nat) : MyStreamCoder :=
  { c with shards := Function.update c.shards i ((c.shards i).upto 0) }

/-- The contents of the `n` shards, as `ReconstructData` sees them. -/
def contents (c : MyStreamCoder) (i : Nat) : Bytes :=
  if i < c.n then (c.shards i).read c.dataBuf else []

/-- Shard `i` gets `p` if it is missing. -/
def fillShard (out : Nat → Bytes) (c : MyStreamCoder) (i : Nat) : MyStreamCoder :=
  if (c.shards i).len = 0 then c.store i (out i) else c

/-- `ReconstructData` fills the missing data shards in place. -/
def fill (c : MyStreamCoder) (out : Nat → Bytes) : MyStreamCoder :=
  (List.range c.k).foldl (fillShard out) c

end MyStreamCoder

/-- The local variables of `Decode`. -/
structure DecodeSt where
  scoder : MyStreamCoder
  txn : FrontendTxnData
  respBuffer : Bytes
  n : Nat
  lastN : Nat
  lastBlock : Bool
  remainingSize : Nat
  rndCnt : Nat

/-- What `Decode` leaves behind: the coder, the transaction and `respBuffer` or `nil`. -/
structure DecodeRet where
  scoder : MyStreamCoder
  txn : FrontendTxnData
  respBuffer : Option Bytes

namespace DecodeSt

/-- `return nil`, after the shards have been restored. -/
def giveUp (s : DecodeSt) : DecodeRet := ⟨s.scoder.restoreShards, s.txn, none⟩

/-- Chunks of one round have the same size. -/
def checkLen (firstAvailableReader i : Nat) (s : DecodeSt) : Except DecodeRet DecodeSt :=
  if i ≠ firstAvailableReader ∧ s.lastN ≠ 0 ∧ s.n ≠ s.lastN then .error s.giveUp
  else .ok { s with lastN := s.n }

/-- Read the block of chunk `i`. -/
def readShard (firstAvailableReader : Nat) (s : DecodeSt) (i : Nat) :
    Except DecodeRet DecodeSt :=
  if s.txn.isAvailable i then
    let (p, err, body) :=
      (s.txn.resps i).readAtLeast (s.scoder.shards i).len s.scoder.blockSize
    let s := { s with n := p.length, scoder := s.scoder.store i p, txn := s.txn.setResp i body }
    match err with
    | some .unexpectedEOF =>
      let s := { s with lastBlock := true }
      let s :=
        if s.rndCnt < s.txn.objSize / (s.scoder.blockSize * s.scoder.k) then
          { s with txn := s.txn.handleFailedReq .chunkReadEC true }
        else s
      checkLen firstAvailableReader i s
    | some _ =>
      let t := s.txn.handleFailedReq .chunkReadEC true
      .error { s with txn := { t with pipew := t.pipew.close } }.giveUp
    | none =>
      if s.lastBlock then .error s.giveUp
      else checkLen firstAvailableReader i s
  else .ok { s with scoder := s.scoder.clear i }

/-- Read one iteration of blocks. -/
def readShards (firstAvailableReader : Nat) : List Nat → DecodeSt → Except DecodeRet DecodeSt
  | [], s => .ok s
  | i :: is, s => (readShard firstAvailableReader s i).bind (readShards firstAvailableReader is)

/-- `ReconstructData` and its error path. -/
def reconstruct (s : DecodeSt) : Except DecodeRet DecodeSt :=
  match s.scoder.reconstructData s.scoder.contents with
  | none => .error { s with txn := s.txn.handleFailedReq .ecDecode true }.giveUp
  | some out => .ok { s with scoder := s.scoder.fill out }

/-- Write the data shards of a round to the client. -/
def writeShards : List Nat → DecodeSt → Except DecodeRet DecodeSt
  | [], s => .ok s
  | i :: is, s =>
    let n := if s.n < s.remainingSize then s.n else s.remainingSize
    let remainingSize := if s.n < s.remainingSize then s.remainingSize - s.n else 0
    -- needed when objSize % (blockSize * k) = 0: no read then reports the end
    let lastBlock := s.lastBlock || remainingSize == 0
    let p := ((s.scoder.shards i).upto n).read s.scoder.dataBuf
    let s := { s with n, remainingSize, lastBlock }
    match s.txn.pipew.write p with
    | (_, some _, w) =>
      .error { s with txn := { s.txn with pipew := w }.handleFailedReq .clientWrite true }.giveUp
    | (_, none, w) =>
      let s := { s with
        txn := { s.txn with pipew := w, sendSize := s.txn.sendSize + n }
        respBuffer := s.respBuffer ++ p }
      if remainingSize = 0 then .ok s else writeShards is s

/-- One iteration of the main loop. -/
def decodeRound (firstAvailableReader : Nat) (s : DecodeSt) : Except DecodeRet DecodeSt :=
  (readShards firstAvailableReader (List.range s.scoder.n) { s with rndCnt := s.rndCnt + 1 }).bind
    fun s => s.reconstruct.bind (writeShards (List.range s.scoder.k))

/-- After the loop: close the pipe and restore the shards. -/
def finish (s : DecodeSt) : DecodeRet :=
  ⟨s.scoder.restoreShards, { s.txn with pipew := s.txn.pipew.close }, some s.respBuffer⟩

/-- `for !lastBlock { ... }` for at most `fuel` tests of the condition. -/
def decodeLoop (firstAvailableReader : Nat) : Nat → DecodeSt → Option DecodeRet
  | 0, _ => none
  | fuel + 1, s =>
    if s.lastBlock then some s.finish
    else match decodeRound firstAvailableReader s with
      | .error r => some r
      | .ok s => decodeLoop firstAvailableReader fuel s

end DecodeSt

/-- The first available chunk, `0` if there is none. -/
def firstAvailableReader (t : FrontendTxnData) : Nat :=
  ((List.range t.nResps).find? t.isAvailable).getD 0

/-- `scoder.Decode(feTxn)`; `none` means that `fuel` iterations were not enough. -/
def decode (fuel : Nat) (scoder : MyStreamCoder) (t : FrontendTxnData) : Option DecodeRet :=
  DecodeSt.decodeLoop (firstAvailableReader t) fuel
    { scoder, txn := t, respBuffer := [], n := 0, lastN := 0, lastBlock := false,
      remainingSize := t.objSize, rndCnt := 0 }

end C2DN.Frontend
