import Mathlib.Logic.Function.Basic
import Mathlib.Data.List.Basic

/-!
# Response bodies, the client pipe and a frontend transaction

The Go values that the two ways of sending a coded object to the client work on: the bodies of
the peer responses, the pipe to the client and the transaction `FrontendTxnData`
(`cmd/frontend/struct.go`), with the functions of package `io` that are called on them.
`DPanicf` is logging, as with the production logger.
-/

namespace C2DN.Frontend

abbrev Bytes := List UInt8

/-- The errors that the frontend tells apart. -/
inductive GoErr where
  | eof
  | unexpectedEOF
  | shortBuffer
  | closedPipe
  /-- any other error of a read: a broken connection, a body that has been closed -/
  | readFailed
  deriving DecidableEq, Repr

/-- A response body: the bytes still to come and what `Read` reports after them. -/
structure Body where
  data : Bytes
  fin : GoErr
  deriving DecidableEq

namespace Body

/-- A body that arrives completely. -/
def full (data : Bytes) : Body := ⟨data, .eof⟩

/-- `io.Copy(ioutil.Discard, body)`. -/
def discard (b : Body) : Body := { b with data := [] }

/-- `body.Close()`. -/
def close (_ : Body) : Body := ⟨[], .readFailed⟩

/-- `io.ReadAtLeast(body, buf, min)` with `len` bytes of room in `buf`. Every buffer of the
frontend has room for `min` bytes and no more, or is too short. -/
def readAtLeast (b : Body) (len min : Nat) : Bytes × Option GoErr × Body :=
  if len < min then ([], some .shortBuffer, b)
  else
    let p := b.data.take min
    let rest := { b with data := b.data.drop min }
    if min ≤ p.length then (p, none, rest)
    else if b.fin = .eof then
      (p, some (if p.length = 0 then .eof else .unexpectedEOF), rest)
    else (p, some b.fin, rest)

end Body

/-- The writing end of the pipe to the client. -/
structure PipeWriter where
  /-- the bytes handed to the client so far -/
  sent : Bytes
  closed : Bool
  /-- how many more bytes the client takes before it goes away; `none`: it takes them all -/
  room : Option Nat

namespace PipeWriter

/-- `io.Pipe()` with a client that reads to the end. -/
def fresh : PipeWriter := ⟨[], false, none⟩

def close (w : PipeWriter) : PipeWriter := { w with closed := true }

/-- `pipew.Write(p)`. -/
def write (w : PipeWriter) (p : Bytes) : Nat × Option GoErr × PipeWriter :=
  if w.closed then (0, some .closedPipe, w)
  else match w.room with
    | none => (p.length, none, { w with sent := w.sent ++ p })
    | some m =>
      if p.length ≤ m then (p.length, none, { w with sent := w.sent ++ p, room := some (m - p.length) })
      else (m, some .closedPipe, { w with sent := w.sent ++ p.take m, room := some 0 })

end PipeWriter

/-- The labels `HandleFailedReq` counts a failed request under. -/
inductive ErrType where
  | chunkReadEC
  | ecDecode
  | clientWrite
  | pipeToClient
  deriving DecidableEq, Repr

/-- The coding parameters of `feParam`. -/
structure FrontendParam where
  ECN : Nat
  ECK : Nat

/-- `myconst.CodingSubChunkSize`. -/
def codingSubChunkSize : Nat := 128 * 1024

/-- What the two ways of answering a chunk hit read and write of `FrontendTxnData`. `resps` and
`isAvailable` have `nResps` entries. -/
structure FrontendTxnData where
  objSize : Nat
  chunkSize : Nat
  sendSize : Nat
  nResps : Nat
  resps : Nat → Body
  isAvailable : Nat → Bool
  pipew : PipeWriter
  /-- the calls of `HandleFailedReq` -/
  errs : List ErrType

namespace FrontendTxnData

/-- `HandleFailedReq(feTxn, _, errType, stopClientReq)`. -/
def handleFailedReq (t : FrontendTxnData) (errType : ErrType) (stopClientReq : Bool) :
    FrontendTxnData :=
  let t := { t with errs := t.errs ++ [errType] }
  if stopClientReq then
    { t with
      pipew := t.pipew.close
      resps := fun i =>
        if i < t.nResps ∧ t.isAvailable i then (t.resps i).discard.close else t.resps i }
  else t

def setResp (t : FrontendTxnData) (i : Nat) (b : Body) : FrontendTxnData :=
  { t with resps := Function.update t.resps i b }

/-- `io.Copy(ioutil.Discard, feTxn.Resps[i].Body)`. -/
def discardResp (t : FrontendTxnData) (i : Nat) : FrontendTxnData :=
  t.setResp i (t.resps i).discard

/-- The chunk size that `handleChunk` and `pushChunks` compute. -/
def chunkSizeOf (objSize k : Nat) : Nat :=
  objSize / k + if objSize % k ≠ 0 then 1 else 0

end FrontendTxnData

/-! ## Sizes -/

theorem chunkSizeOf_bounds {S k : Nat} (hk : 0 < k) :
    S ≤ k * FrontendTxnData.chunkSizeOf S k ∧ k * FrontendTxnData.chunkSizeOf S k < S + k := by
  have hdm := Nat.div_add_mod S k
  have hlt := Nat.mod_lt S hk
  unfold FrontendTxnData.chunkSizeOf
  rw [Nat.mul_add]
  split <;> omega

theorem chunkSizeOf_pos {S k : Nat} (hk : 0 < k) (hS : 0 < S) :
    0 < FrontendTxnData.chunkSizeOf S k := by
  rcases Nat.eq_zero_or_pos (FrontendTxnData.chunkSizeOf S k) with h | h
  · have := (chunkSizeOf_bounds (S := S) hk).1
    rw [h] at this; omega
  · exact h

/-! ## Reads and writes -/

/-- A read that the body can fill. -/
theorem Body.readAtLeast_full {d : Bytes} {B : Nat} (h : B ≤ d.length) :
    (Body.full d).readAtLeast B B = (d.take B, none, Body.full (d.drop B)) := by
  simp [Body.readAtLeast, Body.full, h]

/-- The last, short read of a body. -/
theorem Body.readAtLeast_short {d : Bytes} {B : Nat} (h0 : 0 < d.length) (h : d.length < B) :
    (Body.full d).readAtLeast B B = (d, some .unexpectedEOF, Body.full []) := by
  have h1 : d.take B = d := List.take_of_length_le (by omega)
  have h2 : d.drop B = [] := List.drop_of_length_le (by omega)
  have h3 : ¬ B ≤ d.length := by omega
  have h4 : d ≠ [] := List.ne_nil_of_length_pos h0
  simp [Body.readAtLeast, Body.full, h1, h2, h3, h4]

/-- A client that reads to the end takes every write. -/
theorem PipeWriter.write_open {w : PipeWriter} (hc : w.closed = false) (hr : w.room = none)
    (p : Bytes) : w.write p = (p.length, none, { w with sent := w.sent ++ p }) := by
  simp [PipeWriter.write, hc, hr]

end C2DN.Frontend
