import Mathlib.Algebra.BigOperators.Group.List.Basic
import Mathlib.Algebra.Ring.Int.Defs
import Mathlib.Data.List.GetD
import Mathlib.Data.UInt
import C2DN.Lib.Outcome

/-!
# The reader of binary traces

`binaryReader_setup` goes over a format once and notes where the chosen fields are in a record, and
`binary_read_one_req` extracts them. An item of a format is a character with a count before it, and
stands for so many fields of one type; a count before `s` is the length of a single field.

The format and the file are lists without the byte behind them; a look behind the end of the format is a
fault. Integers have the widths of the source.
-/

namespace C2DN.Simulator

/-- The fields of a request that a format can have. -/
inductive TraceField where
  | objId
  | op
  | realTime
  | objSize
  | ttl
  | extra1
  | extra2
  deriving DecidableEq, Repr

/-- How a call ends that does not return. -/
inductive BinFault where
  | outOfBounds
  | divideByZero
  /-- `exit(1)` without a field for the object id -/
  | noObjId
  /-- a field that is not an integer -/
  | notInteger
  /-- eight bytes for `op`, which has four -/
  | overwrite
  deriving DecidableEq, Repr

/-- `*_field`, `*_len` and `*_type` of `binary_params_t`. -/
structure FieldParams where
  field : Int
  len : Nat
  type : Option Char
  deriving DecidableEq

/-! ## `binaryReader_setup` -/

/-- The local variables of `binaryReader_setup`, with `item_size` and the parameters. -/
structure SetupState where
  countSum : Int
  size : Nat
  itemSize : Nat
  params : TraceField → FieldParams

def SetupState.init : SetupState := ⟨0, 0, 0, fun _ => ⟨0, 0, none⟩⟩

/-- A `gint`. -/
def gint (x : Int) : Int := x.bmod (2 ^ 32)

/-- The size of a format character, none for one that is not known. -/
def fmtSize : Char → Option Nat
  | 'b' | 'B' | 'c' | '?' => some 1
  | 'h' | 'H' => some 2
  | 'i' | 'I' | 'l' | 'L' => some 4
  | 'q' | 'Q' => some 8
  | 'f' => some 4
  | 'd' => some 8
  | 's' => some 1
  | _ => none

/-- The length that is noted for a field. -/
def fieldLen (c : Char) (count size : Nat) : TraceField → Nat
  | .objId | .op | .realTime => if c = 's' then count else 1
  | .objSize | .ttl | .extra1 | .extra2 => size

/-- A field is noted at the first item that reaches it. -/
def FieldParams.note (p : FieldParams) (initField countSum lastCountSum : Int) (itemSize size len : Nat)
    (c : Char) : FieldParams :=
  if initField ≠ 0 ∧ p.len = 0 ∧ initField ≤ countSum then
    ⟨gint (itemSize + size * (initField - lastCountSum - 1)), len, some c⟩
  else p

/-- One item of a format. -/
def SetupState.item (initParams : TraceField → Int) (st : SetupState) (count : Nat) (c : Char) :
    SetupState :=
  let count := if count = 0 then 1 else count
  let lastCountSum := st.countSum
  let countSum := gint (st.countSum + count)
  let size := (fmtSize c).getD st.size
  -- a string is one field
  let countSum := if c = 's' then gint (countSum - count + 1) else countSum
  { countSum
    size
    itemSize := (st.itemSize + count * size % 2 ^ 32) % 2 ^ 64
    params := fun fld => (st.params fld).note (initParams fld) countSum lastCountSum st.itemSize size
      (fieldLen c count size fld) c }

/-- `while (*fmt_str)`, with the count of the digits that have been read. -/
def parseFmt (initParams : TraceField → Int) : List Char → Option Nat → SetupState →
    Except BinFault SetupState
  | [], none, st => .ok st
  | [], some _, _ => .error .outOfBounds
  | c :: fmt, count, st =>
    if c.isDigit then
      parseFmt initParams fmt (some ((count.getD 0 * 10 + (c.toNat - '0'.toNat)) % 2 ^ 32)) st
    else parseFmt initParams fmt none (st.item initParams (count.getD 0) c)

structure BinaryReader where
  mappedFile : List UInt8
  mmapOffset : Nat
  itemSize : Nat
  nTotalReq : Nat
  params : TraceField → FieldParams

/-- `binaryReader_setup`. -/
def binaryReaderSetup (initParams : TraceField → Int) (binaryFmt : List Char) (file : List UInt8) :
    Except BinFault BinaryReader :=
  let fmt := binaryFmt.dropWhile fun c => !c.isAlphanum
  if fmt = [] then .error .outOfBounds
  else
    (parseFmt initParams fmt none .init).bind fun st =>
      if initParams .objId = -1 then .error .noObjId
      else if st.itemSize = 0 then .error .divideByZero
      else .ok ⟨file, 0, st.itemSize, file.length / st.itemSize, st.params⟩

/-! ## `binary_read_one_req` -/

/-- The bytes of a number, the lowest one first. -/
def loadLE (bytes : List UInt8) : Nat := bytes.foldr (fun b n => b.toNat + 256 * n) 0

/-- The bytes of a file from a position on. -/
def loadAt (file : List UInt8) (pos : Int) (width : Nat) : Except BinFault (List UInt8) :=
  if 0 ≤ pos ∧ pos + width ≤ file.length then .ok ((file.drop pos.toNat).take width)
  else .error .outOfBounds

/-- A signed or unsigned integer of these bytes. -/
def leInt (signed : Bool) (bytes : List UInt8) : Int :=
  if signed then (loadLE bytes : Int).bmod (256 ^ bytes.length) else loadLE bytes

/-- `binary_extract`: what is in the 64 bits that it writes to. -/
def binaryExtract (file : List UInt8) (record : Nat) (pos : Int) (type : Char) (writtenTo : UInt64) :
    Except BinFault UInt64 :=
  let extract signed width :=
    (loadAt file (record + pos) width).map fun bytes => UInt64.ofInt (leInt signed bytes)
  match type with
  | 'h' => extract true 2
  | 'H' => extract false 2
  | 'i' | 'l' => extract true 4
  | 'I' | 'L' => extract false 4
  | 'q' => extract true 8
  | 'Q' => extract false 8
  | 'f' | 'd' | 's' => .error .notInteger
  -- only a message
  | _ => .ok writtenTo

/-- The fields of `request_t` that the reader writes. -/
structure TraceReq where
  realTime : UInt64
  objId : UInt64
  objSize : UInt64
  extra1 : UInt64
  extra2 : UInt64
  valid : Bool
  deriving DecidableEq

/-- `if (params->*_type) binary_extract(...)`. -/
def BinaryReader.extract (reader : BinaryReader) (fld : TraceField) (writtenTo : UInt64) :
    Except BinFault UInt64 :=
  match (reader.params fld).type with
  | none => .ok writtenTo
  | some type =>
    binaryExtract reader.mappedFile reader.mmapOffset (reader.params fld).field type writtenTo

/-- `read_one_req`, which calls `binary_read_one_req`; `ttl` is not supported. -/
def BinaryReader.readOneReq (reader : BinaryReader) (req : TraceReq) :
    Except BinFault (BinaryReader × TraceReq) :=
  if reader.nTotalReq * reader.itemSize ≤ reader.mmapOffset then .ok (reader, { req with valid := false })
  else do
    let objId ← reader.extract .objId req.objId
    let realTime ← reader.extract .realTime req.realTime
    let objSize ← reader.extract .objSize req.objSize
    if (reader.params .op).type ≠ none then .error .overwrite
    else
      let extra1 ← reader.extract .extra1 req.extra1
      let extra2 ← reader.extract .extra2 req.extra2
      .ok ({ reader with mmapOffset := reader.mmapOffset + reader.itemSize },
        ⟨realTime, objId, objSize, extra1, extra2, true⟩)

/-- The request after each of `n` calls. -/
def BinaryReader.readSeq : Nat → BinaryReader → TraceReq → Except BinFault (List TraceReq)
  | 0, _, _ => .ok []
  | n + 1, reader, req => (reader.readOneReq req).bind fun (reader, req) =>
    (readSeq n reader req).map (req :: ·)

/-! ## Formats -/

/-- The characters of an item. -/
def fmtTypes : List Char := ['b', 'B', 'c', 'h', 'H', 'i', 'I', 'l', 'L', 'q', 'Q', 'f', 'd', 's']

def integerTypes : List Char := ['h', 'H', 'i', 'I', 'l', 'L', 'q', 'Q']

/-- The number with these digits. -/
def countOf (digits : List Char) : Nat := digits.foldl (fun n d => n * 10 + (d.toNat - '0'.toNat)) 0

/-- An item of a format: a count that can be missing, and a type. -/
structure FmtItem where
  digits : List Char
  type : Char
  isDigit : ∀ c ∈ digits, c.isDigit = true
  pos : digits ≠ [] → 0 < countOf digits
  known : type ∈ fmtTypes

namespace FmtItem

/-- An item that is checked. -/
def of (digits : List Char) (type : Char) (h : (digits.all Char.isDigit &&
    (digits.isEmpty || decide (0 < countOf digits)) && decide (type ∈ fmtTypes)) = true) : FmtItem where
  digits
  type
  isDigit := List.all_eq_true.mp (Bool.and_eq_true_iff.1 (Bool.and_eq_true_iff.1 h).1).1
  pos hne := by
    rcases Bool.or_eq_true_iff.1 (Bool.and_eq_true_iff.1 (Bool.and_eq_true_iff.1 h).1).2 with h | h
    · exact absurd (List.isEmpty_iff.mp h) hne
    · exact of_decide_eq_true h
  known := of_decide_eq_true (Bool.and_eq_true_iff.1 h).2

def text (it : FmtItem) : List Char := it.digits ++ [it.type]

def count (it : FmtItem) : Nat := if it.digits = [] then 1 else countOf it.digits

/-- The fields of an item, with their widths. -/
def fields (it : FmtItem) : List (Char × Nat) :=
  if it.type = 's' then [('s', it.count)]
  else List.replicate it.count (it.type, (fmtSize it.type).getD 0)

end FmtItem

def fmtText (lead : List Char) (items : List FmtItem) : List Char := lead ++ items.flatMap FmtItem.text

def fieldsOf (items : List FmtItem) : List (Char × Nat) := items.flatMap FmtItem.fields

/-- The size of these fields. -/
def widthOf (fields : List (Char × Nat)) : Nat := (fields.map Prod.snd).sum

/-- Where a field starts in a record: behind all fields before it. -/
def offsetOf (fields : List (Char × Nat)) (i : Nat) : Nat := widthOf (fields.take i)

/-- The value of a field in the `j`th record. -/
def fieldValue (fields : List (Char × Nat)) (file : List UInt8) (j i : Nat) : UInt64 :=
  let (c, width) := fields.getD i ('s', 0)
  UInt64.ofInt (leInt c.isLower ((file.drop (j * widthOf fields + offsetOf fields i)).take width))

/-- The fields that are chosen: `idx` has their positions. -/
structure Chosen (fields : List (Char × Nat)) (initParams : TraceField → Int) (idx : TraceField → Nat) :
    Prop where
  chosen : ∀ fld ∈ [TraceField.objId, .realTime, .objSize], initParams fld = idx fld + 1 ∧
    ∃ c w, fields[idx fld]? = some (c, w) ∧ c ∈ integerTypes
  others : ∀ fld ∉ [TraceField.objId, .realTime, .objSize], initParams fld = 0

section
variable {initParams : TraceField → Int} {st : SetupState} {it : FmtItem} {items done : List FmtItem}
  {fmt digits : List Char}

/-! ## The text of an item -/

theorem isDigit_of_known {c : Char} (h : c ∈ fmtTypes) : c.isDigit = false ∧ c.isAlphanum = true := by
  have hall : fmtTypes.all fun c => !c.isDigit && c.isAlphanum := by decide
  simpa using List.all_eq_true.mp hall c h

/-- Digits are read from left to right; the count wraps around like its value. -/
theorem parseFmt_digits (h : ∀ c ∈ digits, c.isDigit = true) (n : Nat) :
    parseFmt initParams (digits ++ fmt) (some (n % 2 ^ 32)) st = parseFmt initParams fmt
      (some (digits.foldl (fun n d => n * 10 + (d.toNat - '0'.toNat)) n % 2 ^ 32)) st := by
  induction digits generalizing n with
  | nil => rfl
  | cons d digits ih =>
    have hwrap : (n % 2 ^ 32 * 10 + (d.toNat - '0'.toNat)) % 2 ^ 32 =
        (n * 10 + (d.toNat - '0'.toNat)) % 2 ^ 32 := by
      rw [Nat.add_mod, Nat.mod_mul_mod, ← Nat.add_mod]
    rw [List.cons_append, parseFmt, if_pos (h d List.mem_cons_self), Option.getD_some, hwrap,
      ih fun c hc => h c (List.mem_cons_of_mem _ hc), List.foldl_cons]

theorem FmtItem.count_pos (it : FmtItem) : 0 < it.count := by
  unfold FmtItem.count
  split
  · exact Nat.one_pos
  · next h => exact it.pos h

theorem parseFmt_item (h : it.count < 2 ^ 32) : parseFmt initParams (it.text ++ fmt) none st =
    parseFmt initParams fmt none (st.item initParams it.count it.type) := by
  obtain ⟨htype, -⟩ := isDigit_of_known it.known
  have hfinish : ∀ count, parseFmt initParams (it.type :: fmt) count st =
      parseFmt initParams fmt none (st.item initParams (count.getD 0) it.type) := by
    intro count
    rw [parseFmt, if_neg (by rw [htype]; exact Bool.false_ne_true)]
  rw [FmtItem.text, List.append_assoc, List.singleton_append]
  cases hdigits : it.digits with
  | nil =>
    rw [List.nil_append, hfinish, FmtItem.count, if_pos hdigits]
    rfl
  | cons d ds =>
    have hall := it.isDigit
    rw [hdigits] at hall
    have hcount : it.count = countOf (d :: ds) := by
      rw [FmtItem.count, hdigits, if_neg (List.cons_ne_nil _ _)]
    rw [hcount] at h ⊢
    rw [List.cons_append, parseFmt, if_pos (hall d List.mem_cons_self), Option.getD_none,
      parseFmt_digits fun c hc => hall c (List.mem_cons_of_mem _ hc), hfinish, Option.getD_some]
    congr 2
    exact Nat.mod_eq_of_lt h

/-! ## The fields of a format -/

theorem fieldsOf_concat : fieldsOf (done ++ [it]) = fieldsOf done ++ it.fields := by
  rw [fieldsOf, List.flatMap_append, List.flatMap_singleton]
  rfl

theorem widthOf_append (l l' : List (Char × Nat)) : widthOf (l ++ l') = widthOf l + widthOf l' := by
  rw [widthOf, List.map_append, List.sum_append]
  rfl

theorem offsetOf_le (fields : List (Char × Nat)) (i : Nat) : offsetOf fields i ≤ widthOf fields := by
  have hsplit := widthOf_append (fields.take i) (fields.drop i)
  rw [List.take_append_drop] at hsplit
  rw [offsetOf]
  omega

/-- The size of a character, and the width of its fields if it is not a string. -/
theorem fmtSize_of_known {c : Char} (h : c ∈ fmtTypes) : ∃ w, fmtSize c = some w ∧ 0 < w ∧ w < 2 ^ 32 := by
  have hall : fmtTypes.all fun c => [1, 2, 4, 8].any fun w => fmtSize c == some w := by decide
  have hc := List.all_eq_true.mp hall c h
  obtain ⟨w, hw, hsize⟩ := List.any_eq_true.mp hc
  refine ⟨w, by simpa using hsize, ?_⟩
  simp at hw
  omega

/-- An item takes `count * size` bytes, whether it is a string or not. -/
theorem widthOf_fields {w : Nat} (hw : fmtSize it.type = some w) : widthOf it.fields = it.count * w := by
  unfold FmtItem.fields
  split
  · next hs =>
    rw [hs] at hw
    obtain rfl : 1 = w := Option.some.inj hw
    simp [widthOf]
  · rw [hw]
    simp [widthOf]

/-- Every field has a byte. -/
theorem length_le_widthOf (items : List FmtItem) : (fieldsOf items).length ≤ widthOf (fieldsOf items) := by
  have hpos : ∀ f ∈ fieldsOf items, 1 ≤ f.2 := by
    intro f hf
    obtain ⟨it, -, hf⟩ := List.mem_flatMap.mp hf
    obtain ⟨w, hw, hpos, -⟩ := fmtSize_of_known it.known
    unfold FmtItem.fields at hf
    split at hf
    · rw [List.mem_singleton.mp hf]
      exact it.count_pos
    · rw [List.eq_of_mem_replicate hf, hw]
      exact hpos
  have hsum := List.length_le_sum_of_one_le ((fieldsOf items).map Prod.snd) fun n hn => by
    obtain ⟨f, hf, rfl⟩ := List.mem_map.mp hn
    exact hpos f hf
  rwa [List.length_map] at hsum

/-! ## One pass over the format -/

/-- What is noted for the field at a position: nothing before its item has been read. -/
def NotedAt (fields : List (Char × Nat)) (i : Nat) (p : FieldParams) : Prop :=
  match fields[i]? with
  | none => p = ⟨0, 0, none⟩
  | some (c, _) => p.field = offsetOf fields i ∧ p.len ≠ 0 ∧ p.type = some c

/-- The state of `binaryReader_setup` when some items have been read. -/
structure Noted (initParams : TraceField → Int) (done : List FmtItem) (st : SetupState) : Prop where
  countSum : st.countSum = (fieldsOf done).length
  itemSize : st.itemSize = widthOf (fieldsOf done)
  absent : ∀ fld, initParams fld = 0 → st.params fld = ⟨0, 0, none⟩
  params : ∀ fld (i : Nat), initParams fld = i + 1 → NotedAt (fieldsOf done) i (st.params fld)

theorem gint_of_lt {x : Int} (h0 : 0 ≤ x) (h : x < 2 ^ 31) : gint x = x := by
  unfold gint
  exact Int.bmod_eq_of_le (by omega) (by omega)

theorem noted_init (initParams : TraceField → Int) : Noted initParams [] .init :=
  ⟨rfl, rfl, fun _ _ => rfl, fun _ _ _ => rfl⟩

theorem length_fields : it.fields.length = if it.type = 's' then 1 else it.count := by
  unfold FmtItem.fields
  split
  · rfl
  · rw [List.length_replicate]

/-- The counts of one item. -/
theorem item_counts {w : Nat} (H : Noted initParams done st) (hw : fmtSize it.type = some w)
    (hpos : 0 < w) (hsize : widthOf (fieldsOf (done ++ [it])) < 2 ^ 31) :
    (st.item initParams it.count it.type).countSum = (fieldsOf (done ++ [it])).length ∧
      (st.item initParams it.count it.type).itemSize = widthOf (fieldsOf (done ++ [it])) := by
  have hle := length_le_widthOf done
  have hcount := it.count_pos
  have hmul : it.count * 1 ≤ it.count * w := Nat.mul_le_mul_left _ hpos
  rw [fieldsOf_concat, widthOf_append, widthOf_fields hw] at hsize ⊢
  have hsum : gint ((fieldsOf done).length + it.count) = (fieldsOf done).length + it.count :=
    gint_of_lt (by omega) (by omega)
  rw [List.length_append, length_fields]
  unfold SetupState.item
  dsimp only
  rw [if_neg (Nat.ne_of_gt hcount), hw, Option.getD_some, H.countSum, H.itemSize, hsum]
  constructor
  · split
    · rw [gint_of_lt (by omega) (by omega)]
      omega
    · rw [Int.natCast_add]
  · rw [Nat.mod_eq_of_lt (by omega), Nat.mod_eq_of_lt (by omega)]

theorem getElem?_fields {i : Nat} (hi : i < it.fields.length) :
    ∃ w', it.fields[i]? = some (it.type, w') := by
  unfold FmtItem.fields at hi ⊢
  split
  · next hs =>
    rw [if_pos hs, List.length_singleton] at hi
    obtain rfl : i = 0 := by omega
    exact ⟨_, by rw [hs]; rfl⟩
  · next hs =>
    rw [if_neg hs, List.length_replicate] at hi
    exact ⟨_, List.getElem?_replicate_of_lt hi⟩

/-- The fields of an item follow each other. -/
theorem widthOf_take_fields {w i : Nat} (hw : fmtSize it.type = some w) (hi : i < it.fields.length) :
    widthOf (it.fields.take i) = w * i := by
  unfold FmtItem.fields at hi ⊢
  split
  · next hs =>
    rw [if_pos hs, List.length_singleton] at hi
    obtain rfl : i = 0 := by omega
    simp [widthOf]
  · next hs =>
    rw [if_neg hs, List.length_replicate] at hi
    rw [hw, List.take_replicate, Nat.min_eq_left (by omega)]
    simp [widthOf, Nat.mul_comm]

theorem fieldLen_pos {c : Char} {count size : Nat} (hcount : 0 < count) (hsize : 0 < size)
    (fld : TraceField) : fieldLen c count size fld ≠ 0 := by
  have hstr : (if c = 's' then count else 1) ≠ 0 := by
    split
    · exact Nat.ne_of_gt hcount
    · exact Nat.one_ne_zero
  cases fld with
  | objId | op | realTime => exact hstr
  | objSize | ttl | extra1 | extra2 => exact Nat.ne_of_gt hsize

/-- **One item** of a format. -/
theorem Noted.item (H : Noted initParams done st) (hsize : widthOf (fieldsOf (done ++ [it])) < 2 ^ 31) :
    Noted initParams (done ++ [it]) (st.item initParams it.count it.type) := by
  obtain ⟨w, hw, hpos, -⟩ := fmtSize_of_known it.known
  obtain ⟨hcounts, hitem⟩ := item_counts H hw hpos hsize
  have hparams : ∀ fld, (st.item initParams it.count it.type).params fld =
      (st.params fld).note (initParams fld) (st.item initParams it.count it.type).countSum
        (fieldsOf done).length (widthOf (fieldsOf done)) w (fieldLen it.type it.count w fld) it.type := by
    intro fld
    have hcount : (if it.count = 0 then 1 else it.count) = it.count := if_neg (Nat.ne_of_gt it.count_pos)
    unfold SetupState.item
    dsimp only
    rw [hcount, hw, Option.getD_some, H.countSum, H.itemSize]
  refine ⟨hcounts, hitem, fun fld h0 => ?_, fun fld i hi => ?_⟩
  · rw [hparams, FieldParams.note, if_neg fun h => h.1 h0, H.absent fld h0]
  · have hnoted := H.params fld i hi
    rw [hparams, hcounts, FieldParams.note, hi]
    unfold NotedAt at hnoted ⊢
    rw [fieldsOf_concat] at hsize ⊢
    by_cases hdone : i < (fieldsOf done).length
    · -- the first match stays
      rw [List.getElem?_eq_getElem hdone] at hnoted
      rw [List.getElem?_append_left hdone, List.getElem?_eq_getElem hdone,
        if_neg fun h => hnoted.2.1 h.2.1, offsetOf, List.take_append_of_le_length (Nat.le_of_lt hdone)]
      exact hnoted
    · rw [List.getElem?_eq_none (Nat.le_of_not_lt hdone)] at hnoted
      rw [hnoted, List.getElem?_append_right (Nat.le_of_not_lt hdone), List.length_append]
      by_cases hnew : i - (fieldsOf done).length < it.fields.length
      · obtain ⟨w', hget⟩ := getElem?_fields hnew
        have htake := widthOf_take_fields hw hnew
        rw [hget, if_pos ⟨by omega, rfl, by omega⟩]
        refine ⟨?_, fieldLen_pos it.count_pos hpos fld, rfl⟩
        have hsplit : offsetOf (fieldsOf done ++ it.fields) i =
            widthOf (fieldsOf done) + w * (i - (fieldsOf done).length) := by
          rw [offsetOf, List.take_append, List.take_of_length_le (Nat.le_of_not_lt hdone),
            widthOf_append, htake]
        have hle := offsetOf_le (fieldsOf done ++ it.fields) i
        have hpos : (i : Int) + 1 - (fieldsOf done).length - 1 = (i - (fieldsOf done).length : Nat) := by
          omega
        have hlt : offsetOf (fieldsOf done ++ it.fields) i < 2 ^ 31 := Nat.lt_of_le_of_lt hle hsize
        dsimp only
        rw [hpos, ← Int.natCast_mul, ← Int.natCast_add, ← hsplit,
          gint_of_lt (Int.natCast_nonneg _) (Int.ofNat_lt.mpr hlt)]
      · rw [List.getElem?_eq_none (Nat.le_of_not_lt hnew), if_neg fun h => by omega]

theorem parseFmt_items (H : Noted initParams done st)
    (hsize : widthOf (fieldsOf (done ++ items)) < 2 ^ 31) : ∃ st',
      parseFmt initParams (items.flatMap FmtItem.text) none st = .ok st' ∧
        Noted initParams (done ++ items) st' := by
  induction items generalizing done st with
  | nil => exact ⟨st, rfl, by rwa [List.append_nil]⟩
  | cons it items ih =>
    rw [List.append_cons] at hsize ⊢
    have hfields : fieldsOf (done ++ [it] ++ items) = fieldsOf (done ++ [it]) ++ fieldsOf items :=
      List.flatMap_append
    have hitem : widthOf (fieldsOf (done ++ [it])) < 2 ^ 31 := by
      rw [hfields, widthOf_append] at hsize
      omega
    have hcount : it.count < 2 ^ 32 := by
      obtain ⟨w, hw, hpos, -⟩ := fmtSize_of_known it.known
      have hmul : it.count * 1 ≤ it.count * w := Nat.mul_le_mul_left _ hpos
      rw [fieldsOf_concat, widthOf_append, widthOf_fields hw] at hitem
      omega
    obtain ⟨st', hst', H'⟩ := ih (H.item hitem) hsize
    refine ⟨st', ?_, H'⟩
    rw [List.flatMap_cons, parseFmt_item hcount]
    exact hst'

theorem isAlphanum_of_isDigit {c : Char} (h : c.isDigit = true) : c.isAlphanum = true := by
  rw [Char.isAlphanum, h, Bool.or_true]

/-- The text of the items starts with a digit or a letter. -/
theorem dropWhile_text (hne : items ≠ []) : items.flatMap FmtItem.text ≠ [] ∧
    (items.flatMap FmtItem.text).dropWhile (fun c => !c.isAlphanum) = items.flatMap FmtItem.text := by
  obtain ⟨it, items, rfl⟩ := List.exists_cons_of_ne_nil hne
  obtain ⟨c, rest, htext, hc⟩ : ∃ c rest, it.text = c :: rest ∧ c.isAlphanum = true := by
    cases hdigits : it.digits with
    | nil => exact ⟨it.type, [], by rw [FmtItem.text, hdigits]; rfl, (isDigit_of_known it.known).2⟩
    | cons d ds =>
      refine ⟨d, ds ++ [it.type], by rw [FmtItem.text, hdigits]; rfl, ?_⟩
      exact isAlphanum_of_isDigit (it.isDigit d (by rw [hdigits]; exact List.mem_cons_self))
  rw [List.flatMap_cons, htext]
  exact ⟨List.cons_ne_nil _ _, List.dropWhile_cons_of_neg (by simp [hc])⟩

theorem widthOf_pos (hne : items ≠ []) : 0 < widthOf (fieldsOf items) := by
  obtain ⟨it, items, rfl⟩ := List.exists_cons_of_ne_nil hne
  obtain ⟨w, hw, hpos, -⟩ := fmtSize_of_known it.known
  rw [fieldsOf, List.flatMap_cons, widthOf_append, widthOf_fields hw]
  have := Nat.mul_pos it.count_pos hpos
  omega

/-- The reader that `binaryReader_setup` returns. -/
theorem binaryReaderSetup_ok {lead : List Char} (hlead : ∀ c ∈ lead, c.isAlphanum = false)
    (hne : items ≠ []) (hsize : widthOf (fieldsOf items) < 2 ^ 31) (hid : initParams .objId ≠ -1)
    (file : List UInt8) : ∃ st, Noted initParams items st ∧
      binaryReaderSetup initParams (fmtText lead items) file =
        .ok ⟨file, 0, st.itemSize, file.length / st.itemSize, st.params⟩ := by
  obtain ⟨htext, hdrop⟩ := dropWhile_text hne
  obtain ⟨st, hst, H⟩ := parseFmt_items (noted_init initParams) hsize
  have hpos := widthOf_pos hne
  refine ⟨st, H, ?_⟩
  unfold binaryReaderSetup
  dsimp only
  rw [fmtText, List.dropWhile_append_of_pos fun c hc => by rw [hlead c hc]; rfl, hdrop, if_neg htext, hst]
  dsimp only [Except.bind]
  rw [if_neg hid, if_neg (by rw [H.itemSize]; exact Nat.ne_of_gt hpos)]

/-! ## Records -/

theorem binaryExtract_of_integer {c : Char} (hc : c ∈ integerTypes) (file : List UInt8) (record : Nat)
    (pos : Int) (old : UInt64) : ∃ w, fmtSize c = some w ∧ binaryExtract file record pos c old =
      (loadAt file (record + pos) w).map fun bytes => UInt64.ofInt (leInt c.isLower bytes) := by
  simp only [integerTypes, List.mem_cons, List.not_mem_nil, or_false] at hc
  rcases hc with rfl | rfl | rfl | rfl | rfl | rfl | rfl | rfl <;> exact ⟨_, rfl, rfl⟩

/-- The width of a field that is not a string is the size of its character. -/
theorem width_of_mem {c : Char} {w : Nat} (h : (c, w) ∈ fieldsOf items) (hc : c ≠ 's') :
    fmtSize c = some w := by
  obtain ⟨it, -, hmem⟩ := List.mem_flatMap.mp h
  unfold FmtItem.fields at hmem
  split at hmem
  · exact absurd (congrArg Prod.fst (List.mem_singleton.mp hmem)) hc
  · obtain ⟨rfl, rfl⟩ := Prod.mk.inj (List.eq_of_mem_replicate hmem)
    obtain ⟨w, hw, -⟩ := fmtSize_of_known it.known
    rw [hw]
    rfl

theorem offsetOf_add_le {fields : List (Char × Nat)} {i : Nat} {c : Char} {w : Nat}
    (h : fields[i]? = some (c, w)) : offsetOf fields i + w ≤ widthOf fields := by
  have hnext := offsetOf_le fields (i + 1)
  rw [offsetOf, List.take_add_one, h, widthOf_append] at hnext
  exact hnext

end

/-- A request of the `j`th record. -/
structure Decoded (fields : List (Char × Nat)) (idx : TraceField → Nat) (file : List UInt8) (j : Nat)
    (q : TraceReq) : Prop where
  valid : q.valid = true
  objId : q.objId = fieldValue fields file j (idx .objId)
  realTime : q.realTime = fieldValue fields file j (idx .realTime)
  objSize : q.objSize = fieldValue fields file j (idx .objSize)

/-- The reader at the `j`th record of a file. -/
structure ReaderAt (initParams : TraceField → Int) (items : List FmtItem) (file : List UInt8) (j : Nat)
    (reader : BinaryReader) : Prop where
  mappedFile : reader.mappedFile = file
  mmapOffset : reader.mmapOffset = j * reader.itemSize
  itemSize : reader.itemSize = widthOf (fieldsOf items)
  nTotalReq : reader.nTotalReq = file.length / reader.itemSize
  absent : ∀ fld, initParams fld = 0 → reader.params fld = ⟨0, 0, none⟩
  params : ∀ fld (i : Nat), initParams fld = i + 1 → NotedAt (fieldsOf items) i (reader.params fld)

section
variable {initParams : TraceField → Int} {items : List FmtItem} {file : List UInt8} {j : Nat}
  {reader : BinaryReader} {idx : TraceField → Nat}

/-- A field that is chosen is extracted from a record that is in the file. -/
theorem extract_chosen (H : ReaderAt initParams items file j reader)
    (C : Chosen (fieldsOf items) initParams idx) (hj : j < reader.nTotalReq) {fld : TraceField}
    (hfld : fld ∈ [TraceField.objId, .realTime, .objSize]) (old : UInt64) :
    reader.extract fld old = .ok (fieldValue (fieldsOf items) file j (idx fld)) := by
  obtain ⟨hinit, c, w, hget, hc⟩ := C.chosen fld hfld
  have hnoted := H.params fld _ hinit
  unfold NotedAt at hnoted
  rw [hget] at hnoted
  obtain ⟨hfield, -, htype⟩ := hnoted
  obtain ⟨w', hw', hextract⟩ := binaryExtract_of_integer hc file (j * widthOf (fieldsOf items))
    (offsetOf (fieldsOf items) (idx fld)) old
  have hstr : c ≠ 's' := by
    rintro rfl
    exact absurd hc (by decide)
  obtain rfl : w = w' :=
    Option.some.inj ((width_of_mem (List.mem_of_getElem? hget) hstr).symm.trans hw')
  -- the record is in the file, and the field is in the record
  have hrecord : (j + 1) * widthOf (fieldsOf items) ≤ file.length := by
    rw [H.nTotalReq, H.itemSize] at hj
    exact (Nat.mul_le_mul_right _ hj).trans (Nat.div_mul_le_self _ _)
  have hinside := offsetOf_add_le hget
  rw [Nat.succ_mul] at hrecord
  have hload : loadAt file ((j * widthOf (fieldsOf items) : Nat) + (offsetOf (fieldsOf items) (idx fld) : Nat))
      w = .ok ((file.drop (j * widthOf (fieldsOf items) + offsetOf (fieldsOf items) (idx fld))).take w) := by
    rw [loadAt, if_pos ⟨by omega, by omega⟩]
    rfl
  unfold BinaryReader.extract
  rw [htype, hfield, H.mappedFile, H.mmapOffset, H.itemSize]
  dsimp only
  rw [hextract, hload, fieldValue, List.getD_eq_getElem?_getD, hget]
  rfl

theorem extract_absent (H : ReaderAt initParams items file j reader)
    (C : Chosen (fieldsOf items) initParams idx) (fld : TraceField)
    (hfld : fld ∉ [TraceField.objId, .realTime, .objSize]) (old : UInt64) :
    (reader.params fld).type = none ∧ reader.extract fld old = .ok old := by
  have habsent := H.absent fld (C.others fld hfld)
  unfold BinaryReader.extract
  rw [habsent]
  exact ⟨rfl, rfl⟩

/-- The next record is read. -/
theorem readOneReq_record (H : ReaderAt initParams items file j reader)
    (C : Chosen (fieldsOf items) initParams idx) (hne : items ≠ []) (hj : j < reader.nTotalReq)
    (req : TraceReq) : ∃ reader' q, reader.readOneReq req = .ok (reader', q) ∧
      ReaderAt initParams items file (j + 1) reader' ∧ Decoded (fieldsOf items) idx file j q := by
  have hpos : 0 < reader.itemSize := H.itemSize ▸ widthOf_pos hne
  have hlt : ¬ reader.nTotalReq * reader.itemSize ≤ reader.mmapOffset := by
    rw [H.mmapOffset, Nat.mul_le_mul_right_iff hpos]
    omega
  unfold BinaryReader.readOneReq
  rw [if_neg hlt, extract_chosen H C hj (by decide), extract_chosen H C hj (by decide),
    extract_chosen H C hj (by decide)]
  dsimp only [bind, Except.bind]
  rw [if_neg (not_not.mpr (extract_absent H C .op (by decide) 0).1),
    (extract_absent H C .extra1 (by decide) _).2, (extract_absent H C .extra2 (by decide) _).2]
  refine ⟨_, _, rfl, ⟨H.mappedFile, ?_, H.itemSize, H.nTotalReq, H.absent, H.params⟩,
    ⟨rfl, rfl, rfl, rfl⟩⟩
  dsimp only
  rw [H.mmapOffset, Nat.succ_mul]

theorem readOneReq_end (H : ReaderAt initParams items file j reader) (hj : reader.nTotalReq ≤ j)
    (req : TraceReq) : reader.readOneReq req = .ok (reader, { req with valid := false }) := by
  unfold BinaryReader.readOneReq
  rw [if_pos (by rw [H.mmapOffset]; exact Nat.mul_le_mul_right _ hj)]

/-- A run of calls: the records that are left, and then nothing. -/
theorem readSeq_ok (H : ReaderAt initParams items file j reader)
    (C : Chosen (fieldsOf items) initParams idx) (hne : items ≠ []) (n : Nat) (req : TraceReq) :
    ∃ reqs, reader.readSeq n req = .ok reqs ∧ reqs.length = n ∧
      ∀ (i : Nat) q, reqs[i]? = some q →
        if j + i < file.length / widthOf (fieldsOf items) then Decoded (fieldsOf items) idx file (j + i) q
        else q.valid = false := by
  have htotal : file.length / widthOf (fieldsOf items) = reader.nTotalReq := by
    rw [H.nTotalReq, H.itemSize]
  rw [htotal]
  induction n generalizing j reader req with
  | zero => exact ⟨[], rfl, rfl, fun i q hq => by cases hq⟩
  | succ n ih =>
    by_cases hj : j < reader.nTotalReq
    · obtain ⟨reader', q₀, hread, H', hq₀⟩ := readOneReq_record H C hne hj req
      have htotal' : reader'.nTotalReq = reader.nTotalReq := by
        rw [H'.nTotalReq, H.nTotalReq, H'.itemSize, H.itemSize]
      obtain ⟨reqs, hreqs, hlen, hall⟩ := ih H' q₀ (htotal.trans htotal'.symm)
      refine ⟨q₀ :: reqs, ?_, by rw [List.length_cons, hlen], fun i q hq => ?_⟩
      · rw [BinaryReader.readSeq, hread]
        exact congrArg (Except.map _) hreqs
      · cases i with
        | zero =>
          obtain rfl := Option.some.inj hq
          rw [if_pos (by omega)]
          exact hq₀
        | succ i =>
          have hi := hall i q hq
          rw [htotal', Nat.add_right_comm] at hi
          exact hi
    · have hend := readOneReq_end H (Nat.le_of_not_lt hj) req
      obtain ⟨reqs, hreqs, hlen, hall⟩ := ih H { req with valid := false } htotal
      refine ⟨{ req with valid := false } :: reqs, ?_, by rw [List.length_cons, hlen], fun i q hq => ?_⟩
      · rw [BinaryReader.readSeq, hend]
        exact congrArg (Except.map _) hreqs
      · rw [if_neg (by omega)]
        cases i with
        | zero =>
          obtain rfl := Option.some.inj hq
          rfl
        | succ i =>
          have hi := hall i q hq
          rwa [if_neg (by omega)] at hi

/-- **Binary traces.** The fields that are chosen start behind all fields before them, and as many
records are read as the file has: the `i`th valid request has the numbers of the `i`th record, and after
the last record no request is valid. -/
theorem binaryReader_correct (lead : List Char) (hlead : ∀ c ∈ lead, c.isAlphanum = false)
    (hne : items ≠ []) (hsize : widthOf (fieldsOf items) < 2 ^ 31)
    (C : Chosen (fieldsOf items) initParams idx) (file : List UInt8) : ∃ reader,
    binaryReaderSetup initParams (fmtText lead items) file = .ok reader ∧
      reader.itemSize = widthOf (fieldsOf items) ∧
      (∀ fld ∈ [TraceField.objId, .realTime, .objSize],
        (reader.params fld).field = offsetOf (fieldsOf items) (idx fld)) ∧
      ∀ n req, ∃ reqs, reader.readSeq n req = .ok reqs ∧ reqs.length = n ∧
        ∀ (i : Nat) q, reqs[i]? = some q →
          if i < file.length / widthOf (fieldsOf items) then Decoded (fieldsOf items) idx file i q
          else q.valid = false := by
  have hid : initParams .objId ≠ -1 := by
    have := (C.chosen .objId (by decide)).1
    omega
  obtain ⟨st, N, hsetup⟩ := binaryReaderSetup_ok hlead hne hsize hid file
  have H : ReaderAt initParams items file 0
      ⟨file, 0, st.itemSize, file.length / st.itemSize, st.params⟩ :=
    ⟨rfl, (Nat.zero_mul _).symm, N.itemSize, rfl, N.absent, N.params⟩
  refine ⟨_, hsetup, N.itemSize, fun fld hfld => ?_, fun n req => ?_⟩
  · obtain ⟨hinit, c, w, hget, -⟩ := C.chosen fld hfld
    have hnoted := N.params fld _ hinit
    unfold NotedAt at hnoted
    rw [hget] at hnoted
    exact hnoted.1
  · obtain ⟨reqs, hreqs, hlen, hall⟩ := readSeq_ok H C hne n req
    refine ⟨reqs, hreqs, hlen, fun i q hq => ?_⟩
    have hi := hall i q hq
    rwa [Nat.zero_add] at hi

end

/-- `<I4s2Q`: records of 24 bytes with four fields. -/
def stringItems : List FmtItem :=
  [.of [] 'I' (.refl true), .of ['4'] 's' (.refl true), .of ['2'] 'Q' (.refl true)]

example : fmtText ['<'] stringItems = ['<', 'I', '4', 's', '2', 'Q'] := rfl

/-- The time, the object id and the size in the fields 1, 3 and 4. -/
def stringParams : TraceField → Int
  | .realTime => 1
  | .objId => 3
  | .objSize => 4
  | _ => 0

def stringIdx : TraceField → Nat
  | .objId => 2
  | .objSize => 3
  | _ => 0

/-- Two records and two bytes more. -/
theorem stringItems_correct : ∃ reader reqs,
    binaryReaderSetup stringParams (fmtText ['<'] stringItems) (List.replicate 50 1) = .ok reader ∧
      (reader.params .objId).field = 8 ∧ (reader.params .objSize).field = 16 ∧
      reader.readSeq 3 ⟨0, 0, 0, 0, 0, true⟩ = .ok reqs ∧ reqs.length = 3 ∧
      (∀ q, reqs[1]? = some q → q.valid = true ∧ q.realTime = 0x01010101) ∧
      ∀ q, reqs[2]? = some q → q.valid = false := by
  have C : Chosen (fieldsOf stringItems) stringParams stringIdx := by
    refine ⟨fun fld hfld => ?_, fun fld hfld => ?_⟩
    · cases fld with
      | realTime => exact ⟨rfl, 'I', 4, rfl, by decide⟩
      | objId | objSize => exact ⟨rfl, 'Q', 8, rfl, by decide⟩
      | op | ttl | extra1 | extra2 => exact absurd hfld (by decide)
    · cases fld with
      | op | ttl | extra1 | extra2 => rfl
      | realTime | objId | objSize => exact absurd hfld (by decide)
  obtain ⟨reader, hreader, -, hfield, hread⟩ := binaryReader_correct ['<'] (by simp) (by decide)
    (by decide) C (List.replicate 50 1)
  obtain ⟨reqs, hreqs, hlen, hall⟩ := hread 3 ⟨0, 0, 0, 0, 0, true⟩
  refine ⟨reader, reqs, hreader, hfield .objId (by decide), hfield .objSize (by decide), hreqs, hlen,
    fun q hq => ?_, fun q hq => ?_⟩
  · have hdecoded := hall 1 q hq
    rw [if_pos (by decide)] at hdecoded
    exact ⟨hdecoded.valid, hdecoded.realTime.trans (by decide)⟩
  · have hend := hall 2 q hq
    rwa [if_neg (by decide)] at hend

end C2DN.Simulator
