import Mathlib.Algebra.Ring.Nat
import C2DN.Lib.Feed

/-!
# The csv parser

`csv_parse` takes a piece of a csv file, collects the characters of a field in `entry_buf`, which grows
on demand, and reports fields and rows to callbacks. `csv_fini` reports what is left at the end of the
file.
-/

namespace C2DN.Simulator

/-- `SIZE_MAX`. -/
def sizeMax : Nat := 2 ^ 64 - 1

/-- The states of the parser. -/
inductive PState where
  | rowNotBegun
  | fieldNotBegun
  | fieldBegun
  | fieldMightHaveEnded
  deriving DecidableEq, Repr

/-- The error codes. -/
inductive CsvStatus where
  | success
  | eparse
  | enomem
  | etoobig
  deriving DecidableEq, Repr

def csvStrict : UInt8 := 1
def csvRepallNl : UInt8 := 2
def csvStrictFini : UInt8 := 4
def csvAppendNull : UInt8 := 8
def csvEmptyIsNull : UInt8 := 16

/-- `realloc`: no block, or one of the size asked for that starts with the old one. -/
structure Realloc where
  run : List UInt8 → Nat → Option (List UInt8)
  length_eq : ∀ {buf size block}, run buf size = some block → block.length = size
  isPrefix : ∀ {buf size block}, run buf size = some block → buf.length ≤ size → buf <+: block

/-- New bytes are zero. -/
def Realloc.zeroed : Realloc where
  run buf size := some (buf.take size ++ List.replicate (size - buf.length) 0)
  length_eq h := by
    cases h
    rw [List.length_append, List.length_take, List.length_replicate]
    omega
  isPrefix h hle := by
    cases h
    rw [List.take_of_length_le hle]
    exact List.prefix_append _ _

/-- `struct csv_parser`. `entry_size` is the length of `entryBuf`; the buffer is `NULL` while it is empty. -/
structure CsvParser where
  pstate : PState
  quoted : Bool
  spaces : Nat
  entryBuf : List UInt8
  entryPos : Nat
  status : CsvStatus
  options : UInt8
  quoteChar : UInt8
  delimChar : UInt8
  isSpace : Option (UInt8 → Bool)
  isTerm : Option (UInt8 → Bool)
  blkSize : Nat
  reallocFunc : Realloc

/-- A call of `cb1` with the buffer, or `NULL`, and the length of the field, or of `cb2` with the
character that ends the row. -/
inductive CsvEvent where
  | field (s : Option (List UInt8)) (len : Nat)
  | row (c : Int)
  deriving DecidableEq, Repr

/-- The buffer is read or written outside its bounds. -/
inductive CsvFault where
  | outOfBounds
  deriving DecidableEq, Repr

namespace CsvParser

/-- `csv_init`. -/
def init (realloc : Realloc) (options : UInt8) : CsvParser :=
  ⟨.rowNotBegun, false, 0, [], 0, .success, options, 0x22, 0x2c, none, none, 128, realloc⟩

/-- `csv_free`. -/
def free (p : CsvParser) : CsvParser := { p with entryBuf := [] }

/-- `p->options & option`. -/
def has (p : CsvParser) (option : UInt8) : Bool := p.options &&& option != 0

/-- `is_space ? is_space(c) : c == CSV_SPACE || c == CSV_TAB`. -/
def space (p : CsvParser) (c : UInt8) : Bool :=
  match p.isSpace with
  | some f => f c
  | none => c == 0x20 || c == 0x09

/-- `is_term ? is_term(c) : c == CSV_CR || c == CSV_LF`. -/
def term (p : CsvParser) (c : UInt8) : Bool :=
  match p.isTerm with
  | some f => f c
  | none => c == 0x0d || c == 0x0a

/-- The loop of `csv_increase_buffer`: the amount is halved until `realloc` gives a block. -/
def reallocLoop (p : CsvParser) : Nat → Nat → Option (List UInt8)
  | 0, _ => none
  | fuel + 1, toAdd =>
    match p.reallocFunc.run p.entryBuf (p.entryBuf.length + toAdd) with
    | some block => some block
    | none => if toAdd / 2 = 0 then none else reallocLoop p fuel (toAdd / 2)

/-- `csv_increase_buffer`, with whether it succeeds. -/
def increaseBuffer (p : CsvParser) : CsvParser × Bool :=
  let toAdd := if sizeMax - p.blkSize ≤ p.entryBuf.length then sizeMax - p.entryBuf.length else p.blkSize
  if toAdd = 0 then ({ p with status := .etoobig }, false)
  else
    match p.reallocLoop toAdd toAdd with
    | some block => ({ p with entryBuf := block }, true)
    | none => ({ p with status := .enomem }, false)

/-- `SUBMIT_CHAR`. -/
def submitChar (p : CsvParser) (c : UInt8) : Except CsvFault CsvParser :=
  if p.entryPos < p.entryBuf.length then
    .ok { p with entryBuf := p.entryBuf.set p.entryPos c, entryPos := p.entryPos + 1 }
  else .error .outOfBounds

/-- `entry_pos -= n`, in `size_t`. -/
def back (p : CsvParser) (n : Nat) : CsvParser :=
  { p with entryPos := (p.entryPos + (sizeMax + 1) - n) % (sizeMax + 1) }

/-- `SUBMIT_FIELD`. -/
def submitField (p : CsvParser) : Except CsvFault (CsvParser × CsvEvent) :=
  let p := if p.quoted then p else p.back p.spaces
  let null := p.has csvAppendNull
  if p.entryBuf.length < p.entryPos ∨ null ∧ p.entryBuf.length = p.entryPos then .error .outOfBounds
  else
    let buf := if null then p.entryBuf.set p.entryPos 0 else p.entryBuf
    let s := if p.has csvEmptyIsNull && !p.quoted && p.entryPos == 0 then none else some buf
    .ok ({ p with entryBuf := buf, pstate := .fieldNotBegun, entryPos := 0, quoted := false, spaces := 0 },
      .field s p.entryPos)

/-- `SUBMIT_ROW`. -/
def submitRow (p : CsvParser) : CsvParser :=
  { p with pstate := .rowNotBegun, entryPos := 0, quoted := false, spaces := 0 }

/-- `SUBMIT_FIELD` and `SUBMIT_ROW`. -/
def submitFieldRow (p : CsvParser) (c : Int) : Except CsvFault (CsvParser × List CsvEvent) :=
  p.submitField.map fun (p, e) => (p.submitRow, [e, .row c])

/-- The `switch` of `csv_parse`. The machine stops where the call returns `pos - 1`. -/
def parseChar (p : CsvParser) (c : UInt8) : Except CsvFault (Fed CsvParser CsvEvent) :=
  match p.pstate with
  | .rowNotBegun | .fieldNotBegun =>
    if p.space c && c != p.delimChar then .ok (.next p [])
    else if p.term c then
      if p.pstate = .fieldNotBegun then
        (p.submitFieldRow c.toNat).map fun (p, out) => .next p out
      else if p.has csvRepallNl then .ok (.next p.submitRow [.row c.toNat])
      else .ok (.next p [])
    else if c = p.delimChar then p.submitField.map fun (p, e) => .next p [e]
    else if c = p.quoteChar then .ok (.next { p with pstate := .fieldBegun, quoted := true } [])
    else ({ p with pstate := .fieldBegun, quoted := false }.submitChar c).map fun p => .next p []
  | .fieldBegun =>
    if c = p.quoteChar then
      if p.quoted then
        (p.submitChar c).map fun p => .next { p with pstate := .fieldMightHaveEnded } []
      else if p.has csvStrict then .ok (.stop { p with status := .eparse })
      else (p.submitChar c).map fun p => .next { p with spaces := 0 } []
    else if c = p.delimChar then
      if p.quoted then (p.submitChar c).map fun p => .next p []
      else p.submitField.map fun (p, e) => .next p [e]
    else if p.term c then
      if !p.quoted then (p.submitFieldRow c.toNat).map fun (p, out) => .next p out
      else (p.submitChar c).map fun p => .next p []
    else if !p.quoted && p.space c then
      (p.submitChar c).map fun p => .next { p with spaces := p.spaces + 1 } []
    else (p.submitChar c).map fun p => .next { p with spaces := 0 } []
  | .fieldMightHaveEnded =>
    if c = p.delimChar then (p.back (p.spaces + 1)).submitField.map fun (p, e) => .next p [e]
    else if p.term c then
      ((p.back (p.spaces + 1)).submitFieldRow c.toNat).map fun (p, out) => .next p out
    else if p.space c then
      (p.submitChar c).map fun p => .next { p with spaces := p.spaces + 1 } []
    else if c = p.quoteChar then
      if p.spaces ≠ 0 then
        if p.has csvStrict then .ok (.stop { p with status := .eparse })
        else ({ p with spaces := 0 }.submitChar c).map fun p => .next p []
      else .ok (.next { p with pstate := .fieldBegun } [])
    else if p.has csvStrict then .ok (.stop { p with status := .eparse })
    else ({ p with pstate := .fieldBegun, spaces := 0 }.submitChar c).map fun p => .next p []

/-- The buffer is full up to the place of the null character. -/
def isFull (p : CsvParser) : Bool :=
  p.entryPos == if p.has csvAppendNull then p.entryBuf.length - 1 else p.entryBuf.length

/-- A turn of the loop of `csv_parse`. -/
def parseStep (p : CsvParser) (c : UInt8) : Except CsvFault (Fed CsvParser CsvEvent) :=
  if p.isFull then
    match p.increaseBuffer with
    | (p, true) => p.parseChar c
    | (p, false) => .ok (.stop p)
  else p.parseChar c

/-- `csv_parse`: the number of characters that are processed, the parser after the call and the calls of
the callbacks. -/
def parse (p : CsvParser) (us : List UInt8) : Except CsvFault (Nat × CsvParser × List CsvEvent) :=
  if p.entryBuf = [] ∧ us ≠ [] then
    match p.increaseBuffer with
    | (p, true) => feed parseStep us p
    | (p, false) => .ok (0, p, [])
  else feed parseStep us p

/-- `csv_fini`, with its result. -/
def fini (p : CsvParser) : Except CsvFault (Int × CsvParser × List CsvEvent) :=
  if p.pstate = .fieldBegun ∧ p.quoted ∧ p.has csvStrict ∧ p.has csvStrictFini then
    .ok (-1, { p with status := .eparse }, [])
  else
    let reset (p : CsvParser) : CsvParser :=
      { p with spaces := 0, quoted := false, entryPos := 0, status := .success, pstate := .rowNotBegun }
    match p.pstate with
    | .fieldMightHaveEnded =>
      ((p.back (p.spaces + 1)).submitFieldRow (-1)).map fun (p, out) => (0, reset p, out)
    | .fieldNotBegun | .fieldBegun => (p.submitFieldRow (-1)).map fun (p, out) => (0, reset p, out)
    | .rowNotBegun => .ok (0, reset p, [])

end CsvParser

end C2DN.Simulator
