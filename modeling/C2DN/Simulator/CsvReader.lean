import C2DN.Simulator.BinaryReader
import C2DN.Simulator.Csv
import C2DN.Simulator.PlainText

/-!
# The reader of csv traces

`csv_read_one_element` takes a line with `find_line_ending` and hands it to `csv_parse`. The callbacks
count the fields of a row and set the fields of the request. The first row can be a header, which is
skipped.

`quark` is `g_quark_from_string`, and `atof` is what `(uint64_t) atof(s)` gives for a string.
-/

namespace C2DN.Simulator

/-- How a call ends that does not return. -/
inductive CsvReadFault where
  | line (e : ReaderFault)
  | parser (e : CsvFault)
  /-- a field behind a null pointer, or one that is not a string -/
  | outOfBounds
  /-- `abort()` for an object id that is too long -/
  | idTooLong
  /-- `assert(ts < UINT32_MAX)` -/
  | badTime
  /-- `abort()` for a row without an object id -/
  | noObjId
  /-- a page behind the mapped file -/
  | unmapped
  deriving DecidableEq

/-- `reader_init_param_t`, as far as it is about csv files; a field that is not there has the number 0. -/
structure CsvInitParams where
  realTimeField : Int
  objIdField : Int
  objSizeField : Int
  opField : Int
  hasHeader : Bool
  delimiter : UInt8

/-- The fields of a csv reader, with those of `csv_params_t` that outlive a call. -/
structure CsvReader where
  mappedFile : List UInt8
  mmapOffset : Nat
  objIdType : ObjIdType
  initParams : CsvInitParams
  hasHeader : Bool
  delim : UInt8
  csvParser : CsvParser
  currentFieldCounter : Int
  readerEnd : Bool

/-- What the callbacks change. -/
structure CsvRowState where
  currentFieldCounter : Int
  alreadyGotReq : Bool
  req : TraceReq

/-! ## Strings -/

def llongMax : Int := 2 ^ 63 - 1
def llongMin : Int := -2 ^ 63

/-- `isspace`. -/
def isSpaceChar (c : UInt8) : Bool := c == 0x20 || (0x09 ≤ c && c ≤ 0x0d)

def isDigitChar (c : UInt8) : Bool := 0x30 ≤ c && c ≤ 0x39

/-- The number that a string starts with. -/
def leadingNat (s : List UInt8) : Nat :=
  (s.takeWhile isDigitChar).foldl (fun n c => n * 10 + (c.toNat - 0x30)) 0

/-- `atoll`, which is `strtoll` with the base 10. -/
def atoll (s : List UInt8) : Int :=
  match s.dropWhile isSpaceChar with
  | [] => 0
  | c :: s =>
    if c = 0x2d then max llongMin (-leadingNat s)
    else if c = 0x2b then min llongMax (leadingNat s)
    else min llongMax (leadingNat (c :: s))

/-- The string that starts a buffer. -/
def cString (buf : List UInt8) : Except CsvReadFault (List UInt8) :=
  if 0 ∈ buf then .ok (buf.takeWhile (· != 0)) else .error .outOfBounds

/-! ## Callbacks -/

/-- `UINT32_MAX`. -/
def uint32Max : UInt64 := 4294967295

/-- The object id of a field. -/
def csvObjId (quark : List UInt8 → UInt64) (objIdType : ObjIdType) (field : List UInt8) :
    Except CsvReadFault UInt64 :=
  match objIdType with
  | .num => .ok (strToObjId field)
  | .str =>
    if maxObjIdLen ≤ field.length then .error .idTooLong else .ok (quark (field.takeWhile (· != 0)))

namespace CsvReader

section
variable (quark atof : List UInt8 → UInt64)

/-- `csv_cb1`. -/
def cb1 (reader : CsvReader) (s : Option (List UInt8)) (len : Nat) (st : CsvRowState) :
    Except CsvReadFault CsvRowState :=
  let next (req : TraceReq) (got : Bool) : CsvRowState := ⟨st.currentFieldCounter + 1, got, req⟩
  let buf : Except CsvReadFault (List UInt8) :=
    match s with
    | some buf => .ok buf
    | none => .error .outOfBounds
  if st.currentFieldCounter = reader.initParams.objIdField then
    (buf.bind fun buf => csvObjId quark reader.objIdType (buf.take len)).map fun objId =>
      next { st.req with objId } true
  else if st.currentFieldCounter = reader.initParams.realTimeField then
    (buf.bind cString).bind fun s =>
      if atof s < uint32Max then .ok (next { st.req with realTime := atof s } st.alreadyGotReq)
      else .error .badTime
  -- only a message
  else if st.currentFieldCounter = reader.initParams.opField then .ok (next st.req st.alreadyGotReq)
  else if st.currentFieldCounter = reader.initParams.objSizeField then
    (buf.bind cString).map fun s => next { st.req with objSize := .ofInt (atoll s) } st.alreadyGotReq
  else .ok (next st.req st.alreadyGotReq)

/-- A call of `csv_cb1` or `csv_cb2`. -/
def callback (reader : CsvReader) (st : CsvRowState) : CsvEvent → Except CsvReadFault CsvRowState
  | .field s len => reader.cb1 quark atof s len st
  | .row _ => .ok { st with currentFieldCounter := 1 }

/-! ## Reading -/

/-- `csv_init` and `csv_set_delim`. -/
def freshParser (realloc : Realloc) (delim : UInt8) : CsvParser :=
  let parser := CsvParser.init realloc csvAppendNull
  if delim ≠ 0 then { parser with delimChar := delim } else parser

/-- The line of the header is skipped. -/
def skipHeader (reader : CsvReader) : Except CsvReadFault CsvReader :=
  match findLineEnding reader.mappedFile reader.mmapOffset with
  | .ok e => .ok { reader with mmapOffset := e.lineEnd }
  | .error e => .error (.line e)

/-- `csv_setup_reader`. -/
def setup (realloc : Realloc) (file : List UInt8) (objIdType : ObjIdType) (initParams : CsvInitParams) :
    Except CsvReadFault CsvReader :=
  let reader : CsvReader := ⟨file, 0, objIdType, initParams, false, initParams.delimiter,
    freshParser realloc initParams.delimiter, 1, false⟩
  if initParams.hasHeader then { reader with hasHeader := true }.skipHeader else .ok reader

/-- `reset_reader`, which calls `csv_reset_reader`. -/
def reset (reader : CsvReader) : Except CsvReadFault CsvReader :=
  let reader := { reader with
    mmapOffset := 0, csvParser := freshParser reader.csvParser.reallocFunc reader.delim }
  (if reader.hasHeader then reader.skipHeader else .ok reader).map fun reader =>
    { reader with readerEnd := false }

/-- The bytes of a page. -/
def pageSize : Nat := 4096

/-- The mapped file, and zeros up to the end of its last page. -/
def mapping (file : List UInt8) : List UInt8 :=
  file ++ List.replicate ((pageSize - file.length % pageSize) % pageSize) 0

/-- Bytes of the mapping. -/
def mapped (reader : CsvReader) (len : Nat) : Except CsvReadFault (List UInt8) :=
  if reader.mmapOffset + len ≤ (mapping reader.mappedFile).length then
    .ok (((mapping reader.mappedFile).drop reader.mmapOffset).take len)
  else .error .unmapped

/-- The calls of the callbacks. -/
def callbacks (reader : CsvReader) (events : List CsvEvent) (st : CsvRowState) :
    Except CsvReadFault CsvRowState :=
  events.foldlM (reader.callback quark atof) st

/-- `csv_parse` and `csv_fini` report with the callbacks. -/
def ofParser {α : Type} (x : Except CsvFault α) : Except CsvReadFault α := x.mapError .parser

/-- `csv_read_one_element`. -/
def readOneElement (reader : CsvReader) (req : TraceReq) : Except CsvReadFault (CsvReader × TraceReq) :=
  if reader.readerEnd then .ok (reader, { req with valid := false })
  else do
    let e ← (findLineEnding reader.mappedFile reader.mmapOffset).mapError .line
    -- with the line end
    let line ← reader.mapped (e.lineLen + 1)
    -- only a message for a line that is not parsed whole
    let (_, csvParser, events) ← ofParser (reader.csvParser.parse line)
    let st ← reader.callbacks quark atof events ⟨reader.currentFieldCounter, false, req⟩
    let reader := { reader with
      csvParser, currentFieldCounter := st.currentFieldCounter, mmapOffset := e.lineEnd
      readerEnd := e.atEnd }
    if st.alreadyGotReq then .ok (reader, st.req)
    else if reader.readerEnd then
      let (_, csvParser, events) ← ofParser reader.csvParser.fini
      let st ← reader.callbacks quark atof events st
      .ok ({ reader with csvParser, currentFieldCounter := st.currentFieldCounter }, st.req)
    else .error .noObjId

/-- `read_one_req`. -/
def readOneReq (reader : CsvReader) (req : TraceReq) : Except CsvReadFault (CsvReader × TraceReq) :=
  reader.readOneElement quark atof { req with valid := true }

/-- The valid requests up to the first one that is not, and the reader behind them. -/
def readAll : Nat → CsvReader → TraceReq → Except CsvReadFault (List TraceReq × CsvReader)
  | 0, _, _ => .error (.line .noEnd)
  | fuel + 1, reader, req => (reader.readOneReq quark atof req).bind fun (reader, req) =>
    if req.valid then (readAll fuel reader req).map fun (reqs, reader) => (req :: reqs, reader)
    else .ok ([], reader)

end

/-- `get_num_of_req`, which does not count the header. -/
def getNumOfReq (fuel : Nat) (reader : CsvReader) : Except ReaderFault Nat :=
  (countLines reader.mappedFile fuel 0 0).map fun nReq => if reader.hasHeader then nReq - 1 else nReq

end CsvReader

end C2DN.Simulator
