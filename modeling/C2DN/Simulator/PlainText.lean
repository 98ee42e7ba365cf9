import Mathlib.Data.List.GetD
import C2DN.Lib.Outcome

/-!
# The reader of plain text traces

`read_one_req` and `get_num_of_req` cut a mapped file into lines with `find_line_ending`. The first one
stops at the last byte of the file, the other one when `find_line_ending` reports the end. Both see the
same lines, but a last line of a single byte without a line end is counted and never read.

`quark` is `g_quark_from_string`.
-/

namespace C2DN.Simulator

/-- `MAX_LINE_LEN`. -/
def maxLineLen : Nat := 1024 * 8

/-- `MAX_OBJ_ID_LEN`. -/
def maxObjIdLen : Nat := 1024

/-- `obj_id_type_e`. -/
inductive ObjIdType where
  | num
  | str
  deriving DecidableEq, Repr

/-- How a call ends that does not return. -/
inductive ReaderFault where
  /-- `abort()` for an object id that is too long -/
  | idTooLong
  | noEnd
  deriving DecidableEq, Repr

/-- `CSV_LF` or `CSV_CR`. -/
def isLineEnd (b : UInt8) : Bool := b == 0x0a || b == 0x0d

/-- What is skipped behind a line end: `CSV_CR`, `CSV_LF`, `CSV_TAB` or `CSV_SPACE`. -/
def isBlank (b : UInt8) : Bool := isLineEnd b || b == 0x09 || b == 0x20

/-! ## `find_line_ending` -/

/-- `memchr` from `offset` on. -/
def memchr (file : List UInt8) (offset : Nat) (c : UInt8) (size : Nat) : Option Nat :=
  (((file.drop offset).take size).findIdx? (· == c)).map (offset + ·)

/-- `while (*line_end == NULL)`: where the line end is, or none with the size of the last line. -/
def searchLineEnd (file : List UInt8) (offset : Nat) : Nat → Nat → Except ReaderFault (Option Nat × Nat)
  | 0, _ => .error .noEnd
  | fuel + 1, size =>
    let size := min size (file.length - offset)
    match (memchr file offset 0x0a size).or (memchr file offset 0x0d size) with
    | some lineEnd => .ok (some lineEnd, size)
    | none =>
      if size = maxLineLen then searchLineEnd file offset fuel (size * 2) else .ok (none, size)

/-- The last of the blanks behind `lineEnd`; `rest` is the file behind it. -/
def skipBlanks : List UInt8 → Nat → Nat
  | b :: rest, lineEnd => if isBlank b then skipBlanks rest (lineEnd + 1) else lineEnd
  | [], lineEnd => lineEnd

/-- The results of `find_line_ending`. -/
structure LineEnding where
  atEnd : Bool
  lineEnd : Nat
  lineLen : Nat
  deriving DecidableEq, Repr

/-- `find_line_ending`. It does not return if the size stays `MAX_LINE_LEN` after it has been doubled,
which every further round does as well. -/
def findLineEnding (file : List UInt8) (offset : Nat) : Except ReaderFault LineEnding :=
  (searchLineEnd file offset 3 maxLineLen).map fun
    | (none, size) => ⟨true, file.length, size⟩
    | (some lineEnd, _) =>
      let last := skipBlanks (file.drop (lineEnd + 1)) lineEnd
      if last + 1 = file.length then ⟨true, last, lineEnd - offset⟩
      else ⟨false, last + 1, lineEnd - offset⟩

/-! ## Reading and counting -/

/-- `str_to_obj_id`; a `char` is signed. -/
def strToObjId (bytes : List UInt8) : UInt64 :=
  bytes.foldl (fun n b => n * 10 + b.toInt8.toInt64.toUInt64 - 48) 0

/-- The fields of a plain text reader. -/
structure TextReader where
  mappedFile : List UInt8
  objIdType : ObjIdType
  mmapOffset : Nat
  nTotalReq : Nat

def TextReader.setup (file : List UInt8) (objIdType : ObjIdType) : TextReader :=
  ⟨file, objIdType, 0, 0⟩

/-- `read_one_req`: the object id of a valid request, and the reader after it. -/
def TextReader.readOneReq (quark : List UInt8 → UInt64) (reader : TextReader) :
    Except ReaderFault (Option UInt64 × TextReader) :=
  if reader.mappedFile.length - 1 ≤ reader.mmapOffset then .ok (none, reader)
  else
    (findLineEnding reader.mappedFile reader.mmapOffset).bind fun e =>
      let line := (reader.mappedFile.drop reader.mmapOffset).take e.lineLen
      if reader.objIdType = .str ∧ maxObjIdLen ≤ e.lineLen then .error .idTooLong
      else
        let objId := match reader.objIdType with
          | .num => strToObjId line
          | .str => quark (line.takeWhile (· != 0))
        .ok (some objId, { reader with mmapOffset := e.lineEnd })

/-- The valid requests up to the first one that is not. -/
def TextReader.readAll (quark : List UInt8 → UInt64) : Nat → TextReader → Except ReaderFault (List UInt64)
  | 0, _ => .error .noEnd
  | fuel + 1, reader => (reader.readOneReq quark).bind fun
    | (none, _) => .ok []
    | (some objId, reader) => (readAll quark fuel reader).map (objId :: ·)

/-- The loop of `get_num_of_req`. -/
def countLines (file : List UInt8) : Nat → Nat → Nat → Except ReaderFault Nat
  | 0, _, _ => .error .noEnd
  | fuel + 1, offset, nReq => (findLineEnding file offset).bind fun e =>
    if e.atEnd then .ok (nReq + 1) else countLines file fuel e.lineEnd (nReq + 1)

/-- `get_num_of_req`, which restores the offset. -/
def TextReader.getNumOfReq (fuel : Nat) (reader : TextReader) : Except ReaderFault (Nat × TextReader) :=
  if 0 < reader.nTotalReq then .ok (reader.nTotalReq, reader)
  else (countLines reader.mappedFile fuel 0 0).map fun nReq =>
    (nReq, { reader with nTotalReq := nReq })

/-- A fresh reader delivers as many valid requests as `get_num_of_req` counts. -/
def CountsRead (quark : List UInt8 → UInt64) (file : List UInt8) (objIdType : ObjIdType) : Prop :=
  ∃ nReq reader objIds,
    (∃ fuel, (TextReader.setup file objIdType).getNumOfReq fuel = .ok (nReq, reader)) ∧
    (∃ fuel, (TextReader.setup file objIdType).readAll quark fuel = .ok objIds) ∧ objIds.length = nReq

/-! ## Files -/

/-- All lines of a file are shorter than `MAX_LINE_LEN`. -/
def ShortLines (file : List UInt8) : Prop :=
  ∀ w, w <:+: file → (∀ b ∈ w, isLineEnd b = false) → w.length < maxLineLen

/-- The last line is a single byte without a line end. -/
def LoneByte (file : List UInt8) : Prop :=
  ∃ pre e blanks c, file = pre ++ e :: blanks ++ [c] ∧ isLineEnd e = true ∧
    (∀ b ∈ blanks, isBlank b = true) ∧ isBlank c = false

/-- The lines from an offset on, as `find_line_ending` cuts them: where they start, and their lengths. -/
inductive Lines (file : List UInt8) : Nat → List (Nat × Nat) → Prop where
  | last {o e l : Nat} (h : findLineEnding file o = .ok ⟨true, e, l⟩) : Lines file o [(o, l)]
  | next {o e l : Nat} {ls : List (Nat × Nat)} (h : findLineEnding file o = .ok ⟨false, e, l⟩)
    (rest : Lines file e ls) : Lines file o ((o, l) :: ls)

section
variable {file : List UInt8} {o q : Nat} {c : UInt8} {ls : List (Nat × Nat)}

/-! ## Line ends -/

theorem memchr_some {size : Nat} (h : memchr file o c size = some q) : o ≤ q ∧ file[q]? = some c := by
  obtain ⟨i, hi, rfl⟩ := Option.map_eq_some_iff.mp h
  obtain ⟨hlt, hc, -⟩ := List.findIdx?_eq_some_iff_getElem.mp hi
  rw [List.length_take] at hlt
  refine ⟨Nat.le_add_right _ _, ?_⟩
  have hget : ((file.drop o).take size)[i]? = some c := by
    rw [List.getElem?_eq_getElem (by simpa using hlt), beq_iff_eq.mp hc]
  rw [List.getElem?_take_of_lt (by omega), List.getElem?_drop] at hget
  exact hget

theorem memchr_none {size : Nat} (h : memchr file o c size = none) :
    ∀ b ∈ (file.drop o).take size, b ≠ c := by
  rw [memchr, Option.map_eq_none_iff, List.findIdx?_eq_none_iff] at h
  intro b hb hbc
  have := h b hb
  simp [hbc] at this

/-- What `find_line_ending` finds in the first round. -/
theorem searchLineEnd_cases (H : ShortLines file) (o : Nat) :
    (∃ q size, searchLineEnd file o 3 maxLineLen = .ok (some q, size) ∧ o ≤ q ∧
      ∃ b, file[q]? = some b ∧ isLineEnd b = true) ∨
    searchLineEnd file o 3 maxLineLen = .ok (none, file.length - o) ∧
      ∀ b ∈ file.drop o, isLineEnd b = false := by
  rw [searchLineEnd]
  cases hlf : memchr file o 0x0a (min maxLineLen (file.length - o)) with
  | some q => exact .inl ⟨q, _, rfl, (memchr_some hlf).1, _, (memchr_some hlf).2, rfl⟩
  | none =>
    cases hcr : memchr file o 0x0d (min maxLineLen (file.length - o)) with
    | some q => exact .inl ⟨q, _, rfl, (memchr_some hcr).1, _, (memchr_some hcr).2, rfl⟩
    | none =>
      right
      have hnone : ∀ b ∈ (file.drop o).take (min maxLineLen (file.length - o)),
          isLineEnd b = false := by
        intro b hb
        simp [isLineEnd, memchr_none hlf b hb, memchr_none hcr b hb]
      have hinfix : (file.drop o).take (min maxLineLen (file.length - o)) <:+: file :=
        (List.take_prefix _ _).isInfix.trans (List.drop_suffix _ _).isInfix
      have hshort := H _ hinfix hnone
      rw [List.length_take, List.length_drop] at hshort
      have hsize : min maxLineLen (file.length - o) = file.length - o := by omega
      rw [hsize] at hnone hshort ⊢
      rw [Option.or_none, if_neg (by omega)]
      refine ⟨rfl, ?_⟩
      rwa [List.take_of_length_le (Nat.le_of_eq List.length_drop)] at hnone

theorem skipBlanks_spec {rest : List UInt8} (hrest : file.drop (q + 1) = rest) (hq : q < file.length) :
    q ≤ skipBlanks rest q ∧ skipBlanks rest q < file.length ∧
      (∀ i b, q < i → i ≤ skipBlanks rest q → file[i]? = some b → isBlank b = true) ∧
      (skipBlanks rest q + 1 = file.length ∨
        ∃ b, file[skipBlanks rest q + 1]? = some b ∧ isBlank b = false) := by
  induction rest generalizing q with
  | nil =>
    have hlen := congrArg List.length hrest
    rw [List.length_drop, List.length_nil] at hlen
    refine ⟨Nat.le_refl _, hq, fun i b hi hle => ?_, .inl ?_⟩
    · rw [skipBlanks] at hle
      omega
    · rw [skipBlanks]
      omega
  | cons a rest ih =>
    have hget : file[q + 1]? = some a := by
      rw [← List.head?_drop, hrest]
      rfl
    rw [skipBlanks]
    by_cases ha : isBlank a = true
    · have hlt : q + 1 < file.length := (List.getElem?_eq_some_iff.mp hget).1
      have htail : file.drop (q + 1 + 1) = rest := by
        rw [← List.drop_drop, hrest]
        rfl
      obtain ⟨hle, hlen, hblank, hend⟩ := ih htail hlt
      rw [if_pos ha]
      refine ⟨by omega, hlen, fun i b hi hile hb => ?_, hend⟩
      by_cases hi' : i = q + 1
      · rw [hi', hget] at hb
        obtain rfl := Option.some.inj hb
        exact ha
      · exact hblank i b (by omega) hile hb
    · rw [if_neg ha]
      exact ⟨Nat.le_refl _, hq, fun i b hi hile => absurd hile (by omega),
        .inr ⟨a, hget, Bool.eq_false_iff.mpr ha⟩⟩

/-- What `find_line_ending` returns: there is no line end, or it is the last thing in the file but for
blanks, or a next line begins. -/
theorem findLineEnding_cases (H : ShortLines file) (o : Nat) :
    (findLineEnding file o = .ok ⟨true, file.length, file.length - o⟩ ∧
      ∀ b ∈ file.drop o, isLineEnd b = false) ∨
    ∃ q last, o ≤ q ∧ q ≤ last ∧ last < file.length ∧
      (∃ b, file[q]? = some b ∧ isLineEnd b = true) ∧
      (∀ i b, q < i → i ≤ last → file[i]? = some b → isBlank b = true) ∧
      (last + 1 = file.length ∧ findLineEnding file o = .ok ⟨true, last, q - o⟩ ∨
        (∃ b, file[last + 1]? = some b ∧ isBlank b = false) ∧
          findLineEnding file o = .ok ⟨false, last + 1, q - o⟩) := by
  unfold findLineEnding
  rcases searchLineEnd_cases H o with ⟨q, size, hq, hle, b, hb, hend⟩ | ⟨hnone, hfree⟩
  · right
    have hlt : q < file.length := (List.getElem?_eq_some_iff.mp hb).1
    obtain ⟨hql, hlast, hblank, hcases⟩ := skipBlanks_spec rfl hlt
    refine ⟨q, _, hle, hql, hlast, ⟨b, hb, hend⟩, hblank, ?_⟩
    rw [hq]
    rcases hcases with hlast | ⟨c, hc, hblank⟩
    · refine .inl ⟨hlast, ?_⟩
      simp only [Except.map, hlast, if_true]
    · refine .inr ⟨⟨c, hc, hblank⟩, ?_⟩
      have hne : skipBlanks (file.drop (q + 1)) q + 1 ≠ file.length := by
        have := (List.getElem?_eq_some_iff.mp hc).1
        omega
      simp only [Except.map, if_neg hne]
  · exact .inl ⟨by rw [hnone]; rfl, hfree⟩

/-- A line starts at the start of the file, or at a byte that is not skipped. -/
def LineStart (file : List UInt8) (o : Nat) : Prop :=
  o < file.length ∧ (o = 0 ∨ ∃ b, file[o]? = some b ∧ isBlank b = false)

/-- The next line starts further on. -/
theorem findLineEnding_next (H : ShortLines file) {e l : Nat}
    (h : findLineEnding file o = .ok ⟨false, e, l⟩) : o < e ∧ LineStart file e := by
  rcases findLineEnding_cases H o with ⟨h', -⟩ | ⟨q, last, hoq, hql, -, -, -, ⟨-, h'⟩ | ⟨⟨b, hb, hblank⟩, h'⟩⟩
  · rw [h'] at h
    cases h
  · rw [h'] at h
    cases h
  · rw [h'] at h
    cases h
    exact ⟨by omega, (List.getElem?_eq_some_iff.mp hb).1, .inr ⟨b, hb, hblank⟩⟩

/-- Nothing is left to read behind the last line. -/
theorem findLineEnding_last (H : ShortLines file) {e l : Nat}
    (h : findLineEnding file o = .ok ⟨true, e, l⟩) : file.length - 1 ≤ e := by
  rcases findLineEnding_cases H o with ⟨h', -⟩ | ⟨q, last, hoq, hql, -, -, -, ⟨hlast, h'⟩ | ⟨-, h'⟩⟩
  · rw [h'] at h
    cases h
    omega
  · rw [h'] at h
    cases h
    omega
  · rw [h'] at h
    cases h

theorem findLineEnding_len (H : ShortLines file) {b : Bool} {e l : Nat}
    (h : findLineEnding file o = .ok ⟨b, e, l⟩) : l ≤ file.length - o := by
  rcases findLineEnding_cases H o with ⟨h', -⟩ | ⟨q, last, -, hql, hlast, -, -, ⟨-, h'⟩ | ⟨-, h'⟩⟩
  · rw [h'] at h
    cases h
    exact Nat.le_refl _
  · rw [h'] at h
    cases h
    omega
  · rw [h'] at h
    cases h
    omega

/-! ## The lines of a file -/

theorem exists_lines (H : ShortLines file) (o : Nat) : ∃ ls, Lines file o ls := by
  induction hn : file.length - o using Nat.strongRecOn generalizing o with
  | _ n ih =>
  obtain ⟨⟨atEnd, e, l⟩, he⟩ : ∃ r, findLineEnding file o = .ok r := by
    rcases findLineEnding_cases H o with ⟨h, -⟩ | ⟨q, last, -, -, -, -, -, ⟨-, h⟩ | ⟨-, h⟩⟩
    · exact ⟨_, h⟩
    · exact ⟨_, h⟩
    · exact ⟨_, h⟩
  cases atEnd with
  | true => exact ⟨_, .last he⟩
  | false =>
    obtain ⟨hlt, hstart⟩ := findLineEnding_next H he
    obtain ⟨ls, hls⟩ := ih (file.length - e) (by have := hstart.1; omega) e rfl
    exact ⟨_, .next he hls⟩

theorem Lines.unique {ls' : List (Nat × Nat)} (h : Lines file o ls) (h' : Lines file o ls') :
    ls = ls' := by
  induction h generalizing ls' with
  | last he =>
    cases h' with
    | last he' => rw [he] at he'; cases he'; rfl
    | next he' _ => rw [he] at he'; cases he'
  | next he _ ih =>
    cases h' with
    | last he' => rw [he] at he'; cases he'
    | next he' rest' => rw [he] at he'; cases he'; rw [ih rest']

/-- Where the last line starts. -/
def lastStart (ls : List (Nat × Nat)) : Nat := (ls.getLast?.map Prod.fst).getD 0

theorem Lines.ne_nil (h : Lines file o ls) : ls ≠ [] := by
  cases h <;> exact List.cons_ne_nil _ _

theorem lastStart_cons {p : Nat × Nat} (h : ls ≠ []) : lastStart (p :: ls) = lastStart ls := by
  rw [lastStart, lastStart, List.getLast?_cons_of_ne_nil h]

/-- The last line. -/
theorem Lines.lastStart_spec (H : ShortLines file) (h : Lines file o ls) (ho : LineStart file o) :
    LineStart file (lastStart ls) ∧ o ≤ lastStart ls ∧
      ∃ e l, findLineEnding file (lastStart ls) = .ok ⟨true, e, l⟩ := by
  induction h with
  | last he => exact ⟨ho, Nat.le_refl _, _, _, he⟩
  | next he rest ih =>
    obtain ⟨hlt, hstart⟩ := findLineEnding_next H he
    obtain ⟨hlast, hle, hend⟩ := ih hstart
    rw [lastStart_cons rest.ne_nil]
    exact ⟨hlast, by omega, hend⟩

/-- A last line that is not the first one comes after another one. -/
theorem Lines.exists_before (h : Lines file o ls) (hne : lastStart ls ≠ o) :
    ∃ o' l, findLineEnding file o' = .ok ⟨false, lastStart ls, l⟩ := by
  induction h with
  | last he => exact absurd rfl hne
  | @next o e l ls he rest ih =>
    rw [lastStart_cons rest.ne_nil] at hne ⊢
    by_cases hls : lastStart ls = e
    · rw [hls]
      exact ⟨_, _, he⟩
    · exact ih hls

theorem drop_eq_cons (h : file[q]? = some c) : file.drop q = c :: file.drop (q + 1) := by
  obtain ⟨hlt, rfl⟩ := List.getElem?_eq_some_iff.mp h
  exact List.drop_eq_getElem_cons hlt

/-- The file around the first byte of a last line that starts with the last byte. -/
theorem loneByte_of_before (H : ShortLines file) {l : Nat}
    (h : findLineEnding file o = .ok ⟨false, file.length - 1, l⟩) : LoneByte file := by
  rcases findLineEnding_cases H o with ⟨h', -⟩ | ⟨q, last, -, hql, hlast, ⟨b, hb, hend⟩, hblank,
    ⟨-, h'⟩ | ⟨⟨c, hc, hcb⟩, h'⟩⟩
  · rw [h'] at h
    cases h
  · rw [h'] at h
    cases h
  · rw [h'] at h
    have heq : last + 1 = file.length - 1 := by
      injection h with h
      injection h
    have hcut : file.drop (last + 1) = [c] := by
      rw [drop_eq_cons hc, List.drop_of_length_le (by omega)]
    refine ⟨file.take q, b, (file.drop (q + 1)).take (last - q), c, ?_, hend, fun a ha => ?_, hcb⟩
    · have hmid : (file.drop (q + 1)).take (last - q) ++ [c] = file.drop (q + 1) := by
        have hrest : (file.drop (q + 1)).drop (last - q) = [c] := by
          rw [List.drop_drop, ← hcut]
          congr 1
          omega
        rw [← hrest, List.take_append_drop]
      rw [List.append_assoc, List.cons_append, hmid, ← drop_eq_cons hb, List.take_append_drop]
    · obtain ⟨i, hi⟩ := List.getElem?_of_mem ha
      have hlt : i < last - q := by
        have := (List.getElem?_eq_some_iff.mp hi).1
        rw [List.length_take] at this
        omega
      rw [List.getElem?_take_of_lt hlt, List.getElem?_drop] at hi
      exact hblank _ a (by omega) (by omega) hi

/-- The last line starts with the last byte of the file exactly if it is the only byte of the file or
a lone one. -/
theorem Lines.lastStart_eq_iff (H : ShortLines file) (hne : file ≠ []) (h : Lines file 0 ls) :
    lastStart ls = file.length - 1 ↔ file.length = 1 ∨ LoneByte file := by
  have hlen := List.length_pos_iff.mpr hne
  obtain ⟨⟨hlt, hstart⟩, -, e, l, he⟩ := h.lastStart_spec H ⟨hlen, .inl rfl⟩
  constructor
  · intro heq
    by_cases hone : file.length = 1
    · exact .inl hone
    · obtain ⟨o', l', hbefore⟩ := h.exists_before (by omega)
      rw [heq] at hbefore
      exact .inr (loneByte_of_before H hbefore)
  · rintro (hone | ⟨pre, e₀, blanks, c, hfile, he₀, hblanks, hc⟩)
    · omega
    · refine Decidable.byContradiction fun hbefore => ?_
      have hfileLen : file.length = pre.length + blanks.length + 2 := by
        rw [hfile]
        simp
        omega
      have hlastByte : file[file.length - 1]? = some c := by
        rw [← List.getLast?_eq_getElem?, hfile, List.getLast?_concat]
      rcases findLineEnding_cases H (lastStart ls) with ⟨-, hfree⟩ | ⟨q, last, -, hql, hlast, ⟨b, hb, hend⟩,
        hblank, ⟨hlast', -⟩ | ⟨-, h'⟩⟩
      · -- the line end is before the last line, which then starts with a blank
        have hafter : pre.length < lastStart ls := by
          refine Nat.lt_of_not_le fun hle => ?_
          have hmem : e₀ ∈ file.drop (lastStart ls) := by
            rw [hfile, List.append_assoc, List.drop_append_of_le_length (by omega)]
            simp
          rw [hfree e₀ hmem] at he₀
          cases he₀
        obtain ⟨b, hb, hblank⟩ := hstart.resolve_left (by omega)
        have hin : b ∈ blanks := by
          rw [hfile, List.append_assoc, List.getElem?_append_right (by omega),
            List.cons_append, show lastStart ls - pre.length = lastStart ls - pre.length - 1 + 1 by omega,
            List.getElem?_cons_succ, List.getElem?_append_left (by omega)] at hb
          exact List.mem_of_getElem? hb
        rw [hblanks b hin] at hblank
        cases hblank
      · -- the last byte is not skipped
        have hblankLast : isBlank c = true := by
          by_cases hq : q = file.length - 1
          · rw [hq, hlastByte] at hb
            obtain rfl := Option.some.inj hb
            rw [isBlank, hend]
            rfl
          · exact hblank (file.length - 1) c (by omega) (by omega) hlastByte
        rw [hc] at hblankLast
        cases hblankLast
      · rw [h'] at he
        cases he

/-! ## Counting and reading -/

theorem countLines_eq (h : Lines file o ls) (k : Nat) :
    ∃ fuel, countLines file fuel o k = .ok (k + ls.length) := by
  induction h generalizing k with
  | last he =>
    refine ⟨1, ?_⟩
    rw [countLines, he]
    rfl
  | next he rest ih =>
    obtain ⟨fuel, hfuel⟩ := ih (k + 1)
    refine ⟨fuel + 1, ?_⟩
    rw [countLines, he]
    refine hfuel.trans (congrArg _ ?_)
    rw [List.length_cons]
    omega

theorem countLines_unique {fuel k m : Nat} (h : Lines file o ls)
    (hm : countLines file fuel o k = .ok m) : m = k + ls.length := by
  induction h generalizing fuel k with
  | last he =>
    cases fuel with
    | zero => cases hm
    | succ fuel =>
      rw [countLines, he] at hm
      exact (Except.ok.inj hm).symm
  | next he rest ih =>
    cases fuel with
    | zero => cases hm
    | succ fuel =>
      rw [countLines, he] at hm
      rw [ih hm, List.length_cons]
      omega

namespace TextReader
variable {quark : List UInt8 → UInt64} {reader : TextReader}

theorem readAll_end (reader : TextReader) {fuel : Nat}
    (h : reader.mappedFile.length - 1 ≤ reader.mmapOffset) :
    reader.readAll quark (fuel + 1) = .ok [] := by
  rw [readAll, readOneReq, if_pos h]
  rfl

theorem readOneReq_line (quark : List UInt8 → UInt64) {b : Bool} {e l : Nat}
    (hlt : reader.mmapOffset < reader.mappedFile.length - 1)
    (he : findLineEnding reader.mappedFile reader.mmapOffset = .ok ⟨b, e, l⟩) :
    ∃ objId, reader.readOneReq quark =
      if reader.objIdType = .str ∧ maxObjIdLen ≤ l then .error .idTooLong
      else .ok (some objId, { reader with mmapOffset := e }) := by
  rw [readOneReq, if_neg (Nat.not_le.mpr hlt), he]
  exact ⟨_, rfl⟩

theorem readAll_line (quark : List UInt8 → UInt64) {b : Bool} {e l : Nat}
    (hlt : reader.mmapOffset < reader.mappedFile.length - 1)
    (he : findLineEnding reader.mappedFile reader.mmapOffset = .ok ⟨b, e, l⟩) :
    ∃ objId, ∀ fuel, reader.readAll quark (fuel + 1) =
      if reader.objIdType = .str ∧ maxObjIdLen ≤ l then .error .idTooLong
      else (readAll quark fuel { reader with mmapOffset := e }).map (objId :: ·) := by
  obtain ⟨objId, hread⟩ := readOneReq_line quark hlt he
  refine ⟨objId, fun fuel => ?_⟩
  rw [readAll, hread]
  split
  · rfl
  · rfl

/-- The reader delivers all lines but a last one that starts with the last byte. -/
theorem readAll_ok (reader : TextReader) (H : ShortLines file) (h : Lines file o ls)
    (ho : LineStart file o) (hfile : reader.mappedFile = file) (hoffset : reader.mmapOffset = o)
    (hid : reader.objIdType = .str → ∀ p ∈ ls, p.2 < maxObjIdLen) :
    ∃ fuel objIds, reader.readAll quark fuel = .ok objIds ∧
      objIds.length + (if lastStart ls = file.length - 1 then 1 else 0) = ls.length := by
  induction h generalizing reader with
  | @last o e l he =>
    subst hfile hoffset
    change ∃ fuel objIds, _ ∧ _ + (if reader.mmapOffset = _ then 1 else 0) = 1
    by_cases hlt : reader.mmapOffset < reader.mappedFile.length - 1
    · obtain ⟨objId, hread⟩ := readAll_line quark hlt he
      refine ⟨2, [objId], ?_, by rw [if_neg (by omega)]; rfl⟩
      rw [hread, if_neg fun hlong => absurd (hid hlong.1 _ List.mem_cons_self) (by omega),
        readAll_end { reader with mmapOffset := e } (findLineEnding_last H he)]
      rfl
    · refine ⟨1, [], readAll_end reader (Nat.le_of_not_lt hlt), ?_⟩
      rw [if_pos (by have := ho.1; omega)]
      rfl
  | @next o e l ls he rest ih =>
    subst hfile hoffset
    obtain ⟨hlt, hstart⟩ := findLineEnding_next H he
    obtain ⟨objId, hread⟩ := readAll_line quark (by have := hstart.1; omega) he
    obtain ⟨fuel, objIds, hrest, hlength⟩ := ih { reader with mmapOffset := e } hstart rfl rfl
      fun htype p hp => hid htype p (List.mem_cons_of_mem _ hp)
    refine ⟨fuel + 1, objId :: objIds, ?_, ?_⟩
    · rw [hread, if_neg fun hlong => absurd (hid hlong.1 _ List.mem_cons_self) (by omega), hrest]
      rfl
    · rw [lastStart_cons rest.ne_nil, List.length_cons, List.length_cons]
      omega

theorem readAll_unique (reader : TextReader) (H : ShortLines file) {fuel : Nat} {objIds : List UInt64}
    (h : Lines file o ls) (ho : LineStart file o) (hfile : reader.mappedFile = file)
    (hoffset : reader.mmapOffset = o) (hread : reader.readAll quark fuel = .ok objIds) :
    objIds.length + (if lastStart ls = file.length - 1 then 1 else 0) = ls.length ∧
      (reader.objIdType = .str → ∀ p ∈ ls, p.2 < maxObjIdLen) := by
  induction h generalizing reader fuel objIds with
  | @last o e l he =>
    subst hfile hoffset
    change _ + (if reader.mmapOffset = _ then 1 else 0) = 1 ∧ _
    simp only [List.forall_mem_singleton]
    cases fuel with
    | zero => cases hread
    | succ fuel =>
      by_cases hlt : reader.mmapOffset < reader.mappedFile.length - 1
      · obtain ⟨objId, hline⟩ := readAll_line quark hlt he
        rw [hline] at hread
        split at hread
        · cases hread
        · next hshort =>
          obtain ⟨rest, hrest, rfl⟩ := map_eq_ok hread
          cases fuel with
          | zero => cases hrest
          | succ fuel =>
            rw [readAll_end { reader with mmapOffset := e } (findLineEnding_last H he)] at hrest
            cases hrest
            rw [if_neg (by omega)]
            exact ⟨rfl, fun htype => Nat.lt_of_not_le fun hle => hshort ⟨htype, hle⟩⟩
      · rw [readAll_end reader (Nat.le_of_not_lt hlt)] at hread
        cases hread
        have hlen := findLineEnding_len H he
        have hstart := ho.1
        rw [if_pos (by omega)]
        exact ⟨rfl, fun _ => Nat.lt_of_le_of_lt hlen (by unfold maxObjIdLen; omega)⟩
  | @next o e l ls he rest ih =>
    subst hfile hoffset
    obtain ⟨hlt, hstart⟩ := findLineEnding_next H he
    obtain ⟨objId, hline⟩ := readAll_line quark (by have := hstart.1; omega) he
    cases fuel with
    | zero => cases hread
    | succ fuel =>
      rw [hline] at hread
      split at hread
      · cases hread
      · next hshort =>
        obtain ⟨objIds, hrest, rfl⟩ := map_eq_ok hread
        obtain ⟨hlength, hid⟩ := ih { reader with mmapOffset := e } hstart rfl rfl hrest
        rw [lastStart_cons rest.ne_nil, List.length_cons, List.length_cons]
        refine ⟨by omega, fun htype => List.forall_mem_cons.mpr ⟨?_, hid htype⟩⟩
        exact Nat.lt_of_not_le fun hle => hshort ⟨htype, hle⟩

end TextReader

/-- **Counting and reading.** `get_num_of_req` counts what a fresh reader delivers exactly if the file
has at least two bytes, the last line is not a lone byte, and no object id is too long for its type. -/
theorem countsRead_iff (quark : List UInt8 → UInt64) (objIdType : ObjIdType) (hne : file ≠ [])
    (H : ShortLines file) : CountsRead quark file objIdType ↔
      (2 ≤ file.length ∧ ¬ LoneByte file) ∧
      (objIdType = .str → ∀ ls, Lines file 0 ls → ∀ p ∈ ls, p.2 < maxObjIdLen) := by
  have hlen := List.length_pos_iff.mpr hne
  have hstart : LineStart file 0 := ⟨hlen, .inl rfl⟩
  obtain ⟨ls, hls⟩ := exists_lines H 0
  have hlast := hls.lastStart_eq_iff H hne
  constructor
  · rintro ⟨nReq, reader, objIds, ⟨fuel, hcount⟩, ⟨fuel', hread⟩, heq⟩
    obtain ⟨m, hm, heqm⟩ := map_eq_ok hcount
    cases heqm
    obtain ⟨hlength, hid⟩ := TextReader.readAll_unique _ H hls hstart rfl rfl hread
    have hcounted := countLines_unique hls hm
    have hnot : ¬ (file.length = 1 ∨ LoneByte file) := by
      rw [← hlast]
      intro hstart
      rw [if_pos hstart] at hlength
      omega
    obtain ⟨hone, hlone⟩ := not_or.mp hnot
    exact ⟨⟨by omega, hlone⟩, fun htype ls' hls' => hls.unique hls' ▸ hid htype⟩
  · rintro ⟨⟨htwo, hlone⟩, hid⟩
    have hbefore : ¬ lastStart ls = file.length - 1 := by
      rw [hlast]
      exact not_or.mpr ⟨by omega, hlone⟩
    obtain ⟨fuel, hcount⟩ := countLines_eq hls 0
    obtain ⟨fuel', objIds, hread, hlength⟩ := TextReader.readAll_ok
      (.setup file objIdType) H hls hstart rfl rfl fun htype => hid htype ls hls
    rw [if_neg hbefore] at hlength
    refine ⟨ls.length, { TextReader.setup file objIdType with nTotalReq := ls.length }, objIds,
      ⟨fuel, ?_⟩, ⟨fuel', hread⟩, by omega⟩
    rw [Nat.zero_add] at hcount
    change (countLines file fuel 0 0).map _ = _
    rw [hcount]
    rfl

/-- The byte before a lone byte is skipped. -/
theorem LoneByte.blank_before (h : LoneByte file) :
    ∃ b, file[file.length - 2]? = some b ∧ isBlank b = true := by
  obtain ⟨pre, e, blanks, c, rfl, he, hblanks, -⟩ := h
  have hlast : ∃ b, (pre ++ e :: blanks).getLast? = some b ∧ isBlank b = true := by
    cases hb : blanks.getLast? with
    | none =>
      obtain rfl := List.getLast?_eq_none_iff.mp hb
      exact ⟨e, List.getLast?_concat, by rw [isBlank, he]; rfl⟩
    | some b =>
      refine ⟨b, ?_, hblanks b (List.mem_of_getLast? hb)⟩
      rw [List.getLast?_append, List.getLast?_cons, hb]
      rfl
  obtain ⟨b, hb, hblank⟩ := hlast
  refine ⟨b, ?_, hblank⟩
  rw [List.getElem?_append_left (by simp; omega), ← hb, List.getLast?_eq_getElem?, List.length_append]
  rfl

theorem shortLines_of_length (h : file.length < maxLineLen) : ShortLines file :=
  fun _ hw _ => Nat.lt_of_le_of_lt hw.length_le h

end

/-- Two numbers, with a carriage return and blanks between them and no line end behind them. -/
theorem twoNumbers_countsRead : ([49, 50, 13, 10, 32, 51, 52] : List UInt8) ≠ [] ∧
    ShortLines [49, 50, 13, 10, 32, 51, 52] ∧
    CountsRead (fun _ => 0) [49, 50, 13, 10, 32, 51, 52] .num := by
  have H : ShortLines [49, 50, 13, 10, 32, 51, 52] := shortLines_of_length (by decide)
  refine ⟨by decide, H, (countsRead_iff (fun _ => 0) .num (by decide) H).mpr ⟨⟨by decide, ?_⟩, ?_⟩⟩
  · intro hlone
    obtain ⟨b, hb, hblank⟩ := hlone.blank_before
    obtain rfl : 51 = b := Option.some.inj hb
    exact absurd hblank (by decide)
  · intro h
    cases h

/-- A line with the number 12, and a line with the number 7 that has no line end. -/
theorem loneNumber_not_countsRead :
    (∃ reader, (TextReader.setup [49, 50, 10, 55] .num).getNumOfReq 2 = .ok (2, reader)) ∧
    (TextReader.setup [49, 50, 10, 55] .num).readAll (fun _ => 0) 2 = .ok [12] ∧
    ¬ CountsRead (fun _ => 0) [49, 50, 10, 55] .num := by
  have H : ShortLines [49, 50, 10, 55] := shortLines_of_length (by decide)
  have hlines : Lines [49, 50, 10, 55] 0 [(0, 2), (3, 1)] := .next rfl (.last rfl)
  refine ⟨⟨_, rfl⟩, eq_ok_of_toOption (by decide), ?_⟩
  rintro ⟨nReq, reader, objIds, ⟨fuel, hcount⟩, ⟨fuel', hread⟩, hlength⟩
  obtain ⟨m, hm, heq⟩ := map_eq_ok hcount
  cases heq
  have hcounted : nReq = 0 + 2 := countLines_unique hlines hm
  have hdelivered : objIds.length + 1 = 2 :=
    (TextReader.readAll_unique _ H hlines ⟨by decide, .inl rfl⟩ rfl rfl hread).1
  omega

end C2DN.Simulator
