import Mathlib.Algebra.Ring.Nat
import C2DN.Lib.Run
import C2DN.Simulator.Csv

/-!
# The buffer of the csv parser

No call of the library reads or writes `entry_buf` outside its bounds, as long as the options are set
and the buffer is freed between rows only. A field that is handed over is followed by a null character
if the options ask for it.
-/

namespace C2DN.Simulator

/-- What a callback gets: the content of a field, or the end of a row. -/
inductive CsvToken where
  | field (s : Option (List UInt8))
  | row (c : Int)
  deriving DecidableEq, Repr

/-- The characters that are handed over. -/
def CsvEvent.token : CsvEvent → CsvToken
  | .field s len => .field (s.map (·.take len))
  | .row c => .row c

namespace CsvParser

/-- What the states say about the current field. -/
def Placed (pstate : PState) (quoted : Bool) (spaces entryPos : Nat) : Prop :=
  match pstate with
  | .rowNotBegun | .fieldNotBegun => quoted = false ∧ spaces = 0 ∧ entryPos = 0
  | .fieldBegun => if quoted then spaces = 0 else spaces ≤ entryPos
  | .fieldMightHaveEnded => quoted = true ∧ spaces < entryPos

theorem placed_quoted {entryPos : Nat} : Placed .fieldBegun true 0 entryPos := rfl

theorem placed_unquoted {spaces entryPos : Nat} (h : spaces ≤ entryPos) :
    Placed .fieldBegun false spaces entryPos := h

theorem placed_ended {spaces entryPos : Nat} (h : spaces < entryPos) :
    Placed .fieldMightHaveEnded true spaces entryPos := ⟨rfl, h⟩

/-- The place that the next character needs, and the null character behind it. -/
def reserve (p : CsvParser) : Nat := if p.has csvAppendNull then 1 else 0

/-- The field lies in the buffer. -/
structure Fits (p : CsvParser) : Prop where
  size : p.entryBuf.length ≤ sizeMax
  room : p.entryBuf ≠ [] → p.entryPos + p.reserve ≤ p.entryBuf.length
  null : p.entryBuf = [] → p.pstate = .rowNotBegun
  placed : Placed p.pstate p.quoted p.spaces p.entryPos

/-- What the caller has set. -/
structure Keeps (p p' : CsvParser) : Prop where
  options : p'.options = p.options
  quoteChar : p'.quoteChar = p.quoteChar
  delimChar : p'.delimChar = p.delimChar
  isSpace : p'.isSpace = p.isSpace
  isTerm : p'.isTerm = p.isTerm
  blkSize : p'.blkSize = p.blkSize
  reallocFunc : p'.reallocFunc = p.reallocFunc

/-- A field lies in the buffer that is handed over, with the null character behind it. -/
def Sound (options : UInt8) : CsvEvent → Prop
  | .field (some buf) len =>
    len ≤ buf.length ∧ (options &&& csvAppendNull != 0 → buf[len]? = some 0)
  | .field none len => len = 0 ∧ options &&& csvEmptyIsNull != 0
  | .row _ => True

section
variable {p p' p'' : CsvParser} {c : UInt8} {n : Nat}

theorem Keeps.refl : Keeps p p := ⟨rfl, rfl, rfl, rfl, rfl, rfl, rfl⟩

theorem Keeps.trans (h : Keeps p p') (h' : Keeps p' p'') : Keeps p p'' :=
  ⟨h'.options.trans h.options, h'.quoteChar.trans h.quoteChar, h'.delimChar.trans h.delimChar,
    h'.isSpace.trans h.isSpace, h'.isTerm.trans h.isTerm, h'.blkSize.trans h.blkSize,
    h'.reallocFunc.trans h.reallocFunc⟩

theorem Keeps.has (h : Keeps p p') (option : UInt8) : p'.has option = p.has option := by
  rw [CsvParser.has, h.options]
  rfl

theorem Keeps.reserve (h : Keeps p p') : p'.reserve = p.reserve := by
  rw [CsvParser.reserve, h.has]
  rfl

/-! ## Growing -/

theorem reallocLoop_some {fuel toAdd : Nat} {block : List UInt8} (hadd : 0 < toAdd)
    (h : p.reallocLoop fuel toAdd = some block) :
    p.entryBuf <+: block ∧ p.entryBuf.length < block.length ∧
      block.length ≤ p.entryBuf.length + toAdd := by
  induction fuel generalizing toAdd with
  | zero => cases h
  | succ fuel ih =>
    rw [reallocLoop] at h
    split at h
    · next block' hrun =>
      cases h
      have hlen := p.reallocFunc.length_eq hrun
      exact ⟨p.reallocFunc.isPrefix hrun (Nat.le_add_right _ _), by omega, by omega⟩
    · split at h
      · cases h
      · next hne =>
        obtain ⟨hpre, hlt, hle⟩ := ih (Nat.pos_of_ne_zero hne) h
        exact ⟨hpre, hlt, by omega⟩

/-- The block has room for another character, or the parser is as before but for the status. -/
theorem increaseBuffer_cases (hsize : p.entryBuf.length ≤ sizeMax) :
    (∃ block, p.increaseBuffer = ({ p with entryBuf := block }, true) ∧ p.entryBuf <+: block ∧
      p.entryBuf.length < block.length ∧ block.length ≤ sizeMax) ∨
    ∃ status, p.increaseBuffer = ({ p with status }, false) := by
  unfold increaseBuffer
  dsimp only
  generalize hadd : (if sizeMax - p.blkSize ≤ p.entryBuf.length then sizeMax - p.entryBuf.length
    else p.blkSize) = toAdd
  have hle : p.entryBuf.length + toAdd ≤ sizeMax := by
    split at hadd <;> omega
  by_cases hzero : toAdd = 0
  · rw [if_pos hzero]
    exact .inr ⟨_, rfl⟩
  · rw [if_neg hzero]
    cases hloop : p.reallocLoop toAdd toAdd with
    | none => exact .inr ⟨_, rfl⟩
    | some block =>
      obtain ⟨hpre, hlt, hblock⟩ := reallocLoop_some (Nat.pos_of_ne_zero hzero) hloop
      exact .inl ⟨block, rfl, hpre, hlt, Nat.le_trans hblock hle⟩

/-! ## Fields -/

theorem back_eq (hn : n ≤ p.entryPos) (hpos : p.entryPos ≤ sizeMax) :
    p.back n = { p with entryPos := p.entryPos - n } := by
  have hmod : (p.entryPos + (sizeMax + 1) - n) % (sizeMax + 1) = p.entryPos - n := by
    rw [show p.entryPos + (sizeMax + 1) - n = p.entryPos - n + (sizeMax + 1) by omega,
      Nat.add_mod_right, Nat.mod_eq_of_lt (by omega)]
  rw [back, hmod]

theorem submitChar_eq (hroom : p.entryPos < p.entryBuf.length) :
    p.submitChar c =
      .ok { p with entryBuf := p.entryBuf.set p.entryPos c, entryPos := p.entryPos + 1 } :=
  if_pos hroom

/-- The parser after `SUBMIT_FIELD`. -/
def afterField (p : CsvParser) (buf : List UInt8) : CsvParser :=
  { p with
    entryBuf := buf, pstate := .fieldNotBegun, entryPos := 0, quoted := false, spaces := 0 }

/-- What is left of a field without the spaces at its end. -/
def fieldLen (p : CsvParser) : Nat := if p.quoted then p.entryPos else p.entryPos - p.spaces

/-- The characters of the field so far. -/
def entry (p : CsvParser) : List UInt8 := p.entryBuf.take p.entryPos

/-- The content of a field, or `NULL`. -/
def fieldContent (p : CsvParser) : Option (List UInt8) :=
  if p.has csvEmptyIsNull && !p.quoted && p.fieldLen == 0 then none
  else some (p.entryBuf.take p.fieldLen)

theorem submitField_eq (hspaces : p.quoted = false → p.spaces ≤ p.entryPos)
    (hroom : p.entryPos + p.reserve ≤ p.entryBuf.length) (hsize : p.entryBuf.length ≤ sizeMax) :
    ∃ buf s, p.submitField = .ok (p.afterField buf, .field s p.fieldLen) ∧
      buf.length = p.entryBuf.length ∧ Sound p.options (.field s p.fieldLen) ∧
      (CsvEvent.field s p.fieldLen).token = .field p.fieldContent := by
  have hlen : p.fieldLen ≤ p.entryPos := by
    unfold fieldLen
    split <;> omega
  -- the position that `SUBMIT_FIELD` goes on with
  have hback : (if p.quoted then p else p.back p.spaces) = { p with entryPos := p.fieldLen } := by
    unfold fieldLen
    split
    · rfl
    · next hq => exact back_eq (hspaces (Bool.eq_false_iff.mpr hq)) (by omega)
  unfold submitField
  dsimp only
  rw [hback]
  dsimp only
  have hhas : has { p with entryPos := p.fieldLen } = p.has := rfl
  rw [hhas]
  unfold reserve at hroom
  have hset : ∀ x, (p.entryBuf.set p.fieldLen x).take p.fieldLen = p.entryBuf.take p.fieldLen :=
    fun x => List.take_set_of_le (Nat.le_refl _)
  rw [if_neg (by
    rintro (h | ⟨h, h'⟩)
    · omega
    · rw [if_pos h] at hroom
      omega)]
  refine ⟨_, _, rfl, ?_, ?_, ?_⟩
  · split
    · exact List.length_set
    · rfl
  · cases hnull : p.has csvEmptyIsNull && !p.quoted && p.fieldLen == 0 with
    | true =>
      simp only [Bool.and_eq_true, beq_iff_eq] at hnull
      rw [if_pos rfl]
      exact ⟨hnull.2, hnull.1.1⟩
    | false =>
      rw [if_neg Bool.false_ne_true]
      split
      · next h =>
        rw [if_pos h] at hroom
        refine ⟨?_, fun _ => ?_⟩
        · rw [List.length_set]
          omega
        · rw [List.getElem?_set_self (by omega)]
      · next h => exact ⟨by omega, fun h' => absurd h' h⟩
  · refine congrArg CsvToken.field ?_
    unfold fieldContent
    split
    · rfl
    · refine congrArg some ?_
      split
      · exact hset _
      · rfl

/-- The parser after `SUBMIT_FIELD` fits again. -/
theorem Fits.submitField (hspaces : p.quoted = false → p.spaces ≤ p.entryPos)
    (hroom : p.entryPos + p.reserve ≤ p.entryBuf.length) (hsize : p.entryBuf.length ≤ sizeMax)
    (hne : p.entryBuf ≠ []) :
    ∃ p' e, p.submitField = .ok (p', e) ∧ p'.Fits ∧ p'.submitRow.Fits ∧ Keeps p p' ∧
      p'.entryBuf ≠ [] ∧ Sound p.options e := by
  obtain ⟨buf, s, heq, hlen, hsound, -⟩ := submitField_eq hspaces hroom hsize
  have hbuf : buf ≠ [] := by
    rintro rfl
    exact hne (List.length_eq_zero_iff.mp hlen.symm)
  have hsize' : buf.length ≤ sizeMax := Nat.le_trans (Nat.le_of_eq hlen) hsize
  have hroom' : 0 + p.reserve ≤ buf.length := by omega
  exact ⟨_, _, heq, ⟨hsize', fun _ => hroom', fun h => absurd h hbuf, rfl, rfl, rfl⟩,
    ⟨hsize', fun _ => hroom', fun h => absurd h hbuf, rfl, rfl, rfl⟩,
    ⟨rfl, rfl, rfl, rfl, rfl, rfl, rfl⟩, hbuf, hsound⟩

/-! ## Turns -/

/-- What a turn leaves. -/
def Turn (p : CsvParser) : Fed CsvParser CsvEvent → Prop
  | .next p' out => (p'.Fits ∧ p'.entryBuf ≠ [] ∧ Keeps p p') ∧ ∀ e ∈ out, Sound p.options e
  | .stop p' => p'.Fits ∧ p'.entryBuf ≠ [] ∧ Keeps p p'

theorem Fits.same (H : p.Fits) (hne : p.entryBuf ≠ []) : Turn p (.next p []) :=
  ⟨⟨H, hne, Keeps.refl⟩, fun _ h => absurd h List.not_mem_nil⟩

theorem Fits.stop (H : p.Fits) (hne : p.entryBuf ≠ []) (status : CsvStatus) :
    Turn p (.stop { p with status }) :=
  ⟨⟨H.size, H.room, H.null, H.placed⟩, hne, rfl, rfl, rfl, rfl, rfl, rfl, rfl⟩

/-- The state changes inside a field. -/
theorem Fits.state (H : p.Fits) (hne : p.entryBuf ≠ []) {pstate : PState} {quoted : Bool}
    (hplaced : Placed pstate quoted p.spaces p.entryPos) :
    Turn p (.next { p with pstate, quoted } []) :=
  ⟨⟨⟨H.size, H.room, fun h => absurd h hne, hplaced⟩, hne, rfl, rfl, rfl, rfl, rfl, rfl, rfl⟩,
    fun _ h => absurd h List.not_mem_nil⟩

/-- `SUBMIT_CHAR`, with changes of the state around it. -/
theorem Fits.char (H : p.Fits) (hroom : p.entryPos + 1 + p.reserve ≤ p.entryBuf.length)
    {pstate : PState} {quoted : Bool} {spaces : Nat}
    (hplaced : Placed pstate quoted spaces (p.entryPos + 1)) :
    Turn p (.next { p with
      pstate, quoted, spaces, entryBuf := p.entryBuf.set p.entryPos c, entryPos := p.entryPos + 1 } []) := by
  have hlen : (p.entryBuf.set p.entryPos c).length = p.entryBuf.length := List.length_set
  have hne : p.entryBuf.set p.entryPos c ≠ [] := List.ne_nil_of_length_pos (by omega)
  exact ⟨⟨⟨Nat.le_trans (Nat.le_of_eq hlen) H.size, fun _ => Nat.le_trans hroom (Nat.le_of_eq hlen.symm),
    fun h => absurd h hne, hplaced⟩, hne, rfl, rfl, rfl, rfl, rfl, rfl, rfl⟩,
    fun _ h => absurd h List.not_mem_nil⟩

theorem Fits.fieldTurn (hspaces : p.quoted = false → p.spaces ≤ p.entryPos)
    (hroom : p.entryPos + p.reserve ≤ p.entryBuf.length) (hsize : p.entryBuf.length ≤ sizeMax)
    (hne : p.entryBuf ≠ []) :
    Ends (p.submitField.map fun (p, e) => Fed.next p [e]) (Turn p) fun _ => False := by
  obtain ⟨p', e, heq, H, -, hkeeps, hne', hsound⟩ := Fits.submitField hspaces hroom hsize hne
  rw [heq]
  exact ⟨⟨H, hne', hkeeps⟩, fun _ he => List.mem_singleton.mp he ▸ hsound⟩

theorem Fits.rowTurn (hspaces : p.quoted = false → p.spaces ≤ p.entryPos)
    (hroom : p.entryPos + p.reserve ≤ p.entryBuf.length) (hsize : p.entryBuf.length ≤ sizeMax)
    (hne : p.entryBuf ≠ []) (c : Int) :
    Ends (p.submitFieldRow c) (fun r => Turn p (.next r.1 r.2)) fun _ => False := by
  obtain ⟨p', e, heq, -, H, hkeeps, hne', hsound⟩ := Fits.submitField hspaces hroom hsize hne
  rw [submitFieldRow, heq]
  refine ⟨⟨H, hne', hkeeps.trans ⟨rfl, rfl, rfl, rfl, rfl, rfl, rfl⟩⟩, fun e' he => ?_⟩
  rcases List.mem_cons.mp he with rfl | he
  · exact hsound
  · rw [List.mem_singleton.mp he]
    trivial

theorem Turn.of_keeps {fed : Fed CsvParser CsvEvent} (h : Keeps p p') (H : Turn p' fed) : Turn p fed := by
  cases fed with
  | next p'' out => exact ⟨⟨H.1.1, H.1.2.1, h.trans H.1.2.2⟩, fun e he => h.options ▸ H.2 e he⟩
  | stop p'' => exact ⟨H.1, H.2.1, h.trans H.2.2⟩

/-- The quote at the end of a field and the spaces behind it are given back. -/
theorem Fits.back (H : p.Fits) (hp : p.pstate = .fieldMightHaveEnded) :
    p.back (p.spaces + 1) = { p with entryPos := p.entryPos - (p.spaces + 1) } ∧
      p.spaces < p.entryPos ∧ p.quoted = true ∧ p.entryBuf ≠ [] := by
  obtain ⟨hq, hlt⟩ : p.quoted = true ∧ p.spaces < p.entryPos := by
    have := H.placed
    rwa [hp] at this
  have hne : p.entryBuf ≠ [] := fun h => by
    rw [H.null h] at hp
    cases hp
  have hroom := H.room hne
  have hsize := H.size
  exact ⟨back_eq hlt (by omega), hlt, hq, hne⟩

theorem parseChar_of_outside (hp : p.pstate = .rowNotBegun ∨ p.pstate = .fieldNotBegun) :
    p.parseChar c =
      if p.space c && c != p.delimChar then .ok (.next p [])
      else if p.term c then
        if p.pstate = .fieldNotBegun then
          (p.submitFieldRow c.toNat).map fun (p, out) => .next p out
        else if p.has csvRepallNl then .ok (.next p.submitRow [.row c.toNat])
        else .ok (.next p [])
      else if c = p.delimChar then p.submitField.map fun (p, e) => .next p [e]
      else if c = p.quoteChar then .ok (.next { p with pstate := .fieldBegun, quoted := true } [])
      else ({ p with pstate := .fieldBegun, quoted := false }.submitChar c).map fun p => .next p [] := by
  rcases hp with hp | hp <;> simp only [parseChar, hp]

/-- Outside a field. -/
theorem parseChar_outside (H : p.Fits) (hroom : p.entryPos + 1 + p.reserve ≤ p.entryBuf.length)
    (hp : p.pstate = .rowNotBegun ∨ p.pstate = .fieldNotBegun) (c : UInt8) :
    Ends (p.parseChar c) (Turn p) fun _ => False := by
  have hlt : p.entryPos < p.entryBuf.length := by omega
  have hne : p.entryBuf ≠ [] := List.ne_nil_of_length_pos (by omega)
  obtain ⟨hq, hs, he⟩ : p.quoted = false ∧ p.spaces = 0 ∧ p.entryPos = 0 := by
    have hplaced := H.placed
    rcases hp with hp | hp <;> rwa [hp] at hplaced
  rw [parseChar_of_outside hp]
  split
  · exact H.same hne
  split
  · split
    · exact (Fits.rowTurn (fun _ => by omega) (by omega) H.size hne _).map fun _ h => h
    split
    · have hroom' : 0 + p.reserve ≤ p.entryBuf.length := by omega
      refine ⟨⟨⟨H.size, fun _ => hroom', fun h => absurd h hne, rfl, rfl, rfl⟩, hne,
        rfl, rfl, rfl, rfl, rfl, rfl, rfl⟩, fun e he => ?_⟩
      rw [List.mem_singleton.mp he]
      trivial
    · exact H.same hne
  split
  · exact Fits.fieldTurn (fun _ => by omega) (by omega) H.size hne
  split
  · exact H.state hne hs
  · rw [submitChar_eq (by exact hlt)]
    refine H.char hroom ?_
    change p.spaces ≤ p.entryPos + 1
    omega

/-- In a field. -/
theorem parseChar_inside (H : p.Fits) (hroom : p.entryPos + 1 + p.reserve ≤ p.entryBuf.length)
    (hp : p.pstate = .fieldBegun) (c : UInt8) :
    Ends (p.parseChar c) (Turn p) fun _ => False := by
  have hlt : p.entryPos < p.entryBuf.length := by omega
  have hne : p.entryBuf ≠ [] := List.ne_nil_of_length_pos (by omega)
  have hplaced := H.placed
  have hsize := H.size
  obtain ⟨pstate, quoted, spaces, buf, pos, status, options, quote, delim, isSpace, isTerm, blk, re⟩ := p
  cases hp
  dsimp only at *
  rw [parseChar]
  dsimp only
  cases quoted with
  | true =>
    obtain rfl : spaces = 0 := hplaced
    rw [submitChar_eq hlt]
    simp only [Bool.not_true, Bool.false_and, if_true, if_false, Bool.false_eq_true]
    split
    · exact H.char hroom (placed_ended (Nat.succ_pos _))
    split
    · exact H.char hroom placed_quoted
    split
    · exact H.char hroom placed_quoted
    · exact H.char hroom placed_quoted
  | false =>
    have hspaces : spaces ≤ pos := hplaced
    rw [submitChar_eq hlt]
    simp only [Bool.not_false, Bool.true_and, if_true, if_false, Bool.false_eq_true]
    split
    · split
      · exact H.stop hne _
      · exact H.char hroom (placed_unquoted (Nat.zero_le _))
    split
    · exact Fits.fieldTurn (fun _ => hspaces) (H.room hne) hsize hne
    split
    · exact (Fits.rowTurn (fun _ => hspaces) (H.room hne) hsize hne _).map fun _ h => h
    split
    · exact H.char hroom (placed_unquoted (Nat.succ_le_succ hspaces))
    · exact H.char hroom (placed_unquoted (Nat.zero_le _))

/-- Behind a quote in a quoted field. -/
theorem parseChar_ended (H : p.Fits) (hroom : p.entryPos + 1 + p.reserve ≤ p.entryBuf.length)
    (hp : p.pstate = .fieldMightHaveEnded) (c : UInt8) :
    Ends (p.parseChar c) (Turn p) fun _ => False := by
  have hlt : p.entryPos < p.entryBuf.length := by omega
  obtain ⟨hback, hs, hq, hne⟩ := H.back hp
  have hsize := H.size
  obtain ⟨pstate, quoted, spaces, buf, pos, status, options, quote, delim, isSpace, isTerm, blk, re⟩ := p
  cases hp
  cases hq
  dsimp only at *
  -- the parser when the field turns out to have ended
  have hkeeps : Keeps
      ⟨.fieldMightHaveEnded, true, spaces, buf, pos, status, options, quote, delim, isSpace, isTerm, blk, re⟩
      ⟨.fieldMightHaveEnded, true, spaces, buf, pos - (spaces + 1), status, options, quote, delim, isSpace,
        isTerm, blk, re⟩ := ⟨rfl, rfl, rfl, rfl, rfl, rfl, rfl⟩
  have hroom' : pos - (spaces + 1) + reserve ⟨.fieldMightHaveEnded, true, spaces, buf, pos - (spaces + 1),
      status, options, quote, delim, isSpace, isTerm, blk, re⟩ ≤ buf.length := by
    rw [hkeeps.reserve]
    omega
  rw [parseChar, hback]
  dsimp only
  split
  · exact (Fits.fieldTurn (fun h => by cases h) hroom' hsize hne).imp fun _ h => h.of_keeps hkeeps
  split
  · exact (Fits.rowTurn (fun h => by cases h) hroom' hsize hne _).map fun _ h => h.of_keeps hkeeps
  split
  · rw [submitChar_eq hlt]
    exact H.char hroom (placed_ended (Nat.succ_lt_succ hs))
  split
  · split
    · split
      · exact H.stop hne _
      · rw [submitChar_eq (by exact hlt)]
        exact H.char hroom (placed_ended (Nat.succ_pos _))
    · next hzero => exact H.state hne (not_not.mp hzero)
  split
  · exact H.stop hne _
  · rw [submitChar_eq (by exact hlt)]
    exact H.char hroom placed_quoted

/-- **A character.** Nothing happens outside the buffer. -/
theorem parseChar_turn (H : p.Fits) (hroom : p.entryPos + 1 + p.reserve ≤ p.entryBuf.length) (c : UInt8) :
    Ends (p.parseChar c) (Turn p) fun _ => False := by
  cases hp : p.pstate with
  | rowNotBegun => exact parseChar_outside H hroom (.inl hp) c
  | fieldNotBegun => exact parseChar_outside H hroom (.inr hp) c
  | fieldBegun => exact parseChar_inside H hroom hp c
  | fieldMightHaveEnded => exact parseChar_ended H hroom hp c

/-- A larger block. -/
theorem Fits.grow (H : p.Fits) {block : List UInt8} (hlt : p.entryBuf.length < block.length)
    (hle : block.length ≤ sizeMax) : { p with entryBuf := block }.Fits := by
  refine ⟨hle, fun _ => ?_, fun h => ?_, H.placed⟩
  · change p.entryPos + p.reserve ≤ block.length
    by_cases hnil : p.entryBuf = []
    · have hpos : p.entryPos = 0 := by
        have hplaced := H.placed
        rw [H.null hnil] at hplaced
        exact hplaced.2.2
      have hreserve : p.reserve ≤ 1 := by
        unfold reserve
        split <;> omega
      omega
    · have hroom := H.room hnil
      omega
  · rw [show block = [] from h] at hlt
    exact absurd hlt (Nat.not_lt_zero _)

theorem isFull_iff (hne : p.entryBuf ≠ []) :
    p.isFull = true ↔ p.entryPos + p.reserve = p.entryBuf.length := by
  have hpos := List.length_pos_iff.mpr hne
  unfold isFull reserve
  rw [beq_iff_eq]
  split <;> omega

/-- **A turn of the loop.** -/
theorem parseStep_turn (H : p.Fits) (hne : p.entryBuf ≠ []) (c : UInt8) :
    Ends (p.parseStep c) (Turn p) fun _ => False := by
  have hroom := H.room hne
  unfold parseStep
  split
  · rcases increaseBuffer_cases H.size with ⟨block, heq, hpre, hlt, hle⟩ | ⟨status, heq⟩
    · rw [heq]
      have hkeeps : Keeps p { p with entryBuf := block } := ⟨rfl, rfl, rfl, rfl, rfl, rfl, rfl⟩
      refine (parseChar_turn (H.grow hlt hle) ?_ c).imp fun _ h => h.of_keeps hkeeps
      change p.entryPos + 1 + p.reserve ≤ block.length
      omega
    · rw [heq]
      exact H.stop hne _
  · next hfull =>
    rw [isFull_iff hne] at hfull
    exact parseChar_turn H (by omega) c

theorem feed_fits (H : p.Fits) (hne : p.entryBuf ≠ []) (us : List UInt8) :
    ∃ n p' out, feed parseStep us p = .ok (n, p', out) ∧ p'.Fits ∧ Keeps p p' ∧
      ∀ e ∈ out, Sound p.options e := by
  have hinv : ∃ n p' out, feed parseStep us p = .ok (n, p', out) ∧
      (p'.Fits ∧ p'.entryBuf ≠ [] ∧ Keeps p p') ∧ ∀ e ∈ out, Sound p.options e := by
    refine Fed.inv_of_feed (I := fun q => q.Fits ∧ q.entryBuf ≠ [] ∧ Keeps p q) ?_ ⟨H, hne, Keeps.refl⟩ us
    intro q c hq
    refine (parseStep_turn hq.1 hq.2.1 c).imp fun fed h => ?_
    have h' := h.of_keeps hq.2.2
    cases fed with
    | next q' out => exact h'
    | stop q' => exact h'
  obtain ⟨n, p', out, heq, ⟨H', -, hkeeps⟩, hout⟩ := hinv
  exact ⟨n, p', out, heq, H', hkeeps, hout⟩

/-- **A call of `csv_parse`.** -/
theorem parse_fits (H : p.Fits) (us : List UInt8) :
    ∃ n p' out, p.parse us = .ok (n, p', out) ∧ p'.Fits ∧ Keeps p p' ∧
      ∀ e ∈ out, Sound p.options e := by
  unfold parse
  split
  · rcases increaseBuffer_cases H.size with ⟨block, heq, hpre, hlt, hle⟩ | ⟨status, heq⟩
    · rw [heq]
      have hkeeps : Keeps p { p with entryBuf := block } := ⟨rfl, rfl, rfl, rfl, rfl, rfl, rfl⟩
      obtain ⟨n, p', out, hfeed, H', hkeeps', hout⟩ := feed_fits (H.grow hlt hle)
        (List.ne_nil_of_length_pos (Nat.lt_of_le_of_lt (Nat.zero_le _) hlt)) us
      exact ⟨n, p', out, hfeed, H', hkeeps.trans hkeeps', hout⟩
    · rw [heq]
      exact ⟨0, _, [], rfl, ⟨H.size, H.room, H.null, H.placed⟩, ⟨rfl, rfl, rfl, rfl, rfl, rfl, rfl⟩,
        fun _ h => absurd h List.not_mem_nil⟩
  · next hnull =>
    cases us with
    | nil => exact ⟨0, p, [], rfl, H, Keeps.refl, fun _ h => absurd h List.not_mem_nil⟩
    | cons c us =>
      exact feed_fits H (fun h => hnull ⟨h, List.cons_ne_nil _ _⟩) _

/-- The parser after `csv_fini`. -/
theorem Fits.reset (hsize : p.entryBuf.length ≤ sizeMax)
    (hroom : p.entryBuf ≠ [] → 0 + p.reserve ≤ p.entryBuf.length) :
    { p with spaces := 0, quoted := false, entryPos := 0, status := .success,
             pstate := .rowNotBegun }.Fits :=
  ⟨hsize, hroom, fun _ => rfl, rfl, rfl, rfl⟩

/-- **A call of `csv_fini`.** -/
theorem fini_fits (H : p.Fits) :
    ∃ r p' out, p.fini = .ok (r, p', out) ∧ p'.Fits ∧ ∀ e ∈ out, Sound p.options e := by
  -- the end of a field that has begun
  have hrow : ∀ q : CsvParser, Keeps p q → (q.quoted = false → q.spaces ≤ q.entryPos) →
      q.entryPos + q.reserve ≤ q.entryBuf.length → q.entryBuf.length ≤ sizeMax → q.entryBuf ≠ [] →
      ∃ r p' out, ((q.submitFieldRow (-1)).map fun (p, out) => ((0 : Int), ({ p with
          spaces := 0, quoted := false, entryPos := 0, status := .success, pstate := .rowNotBegun } :
          CsvParser), out)) = .ok (r, p', out) ∧ p'.Fits ∧ ∀ e ∈ out, Sound p.options e := by
    intro q hkeeps hspaces hroom hsize hne
    obtain ⟨⟨p', out⟩, heq, ⟨H', -, -⟩, hout⟩ := (Fits.rowTurn hspaces hroom hsize hne (-1)).returns
    rw [heq]
    refine ⟨0, _, out, rfl, ?_, fun e he => hkeeps.options ▸ hout e he⟩
    exact Fits.reset H'.size fun h => Nat.le_trans (Nat.add_le_add_right (Nat.zero_le _) _) (H'.room h)
  unfold fini
  split
  · exact ⟨-1, _, [], rfl, ⟨H.size, H.room, H.null, H.placed⟩, fun _ h => absurd h List.not_mem_nil⟩
  · dsimp only
    have hne : p.pstate ≠ .rowNotBegun → p.entryBuf ≠ [] := fun h hnil => h (H.null hnil)
    have hplaced := H.placed
    cases hp : p.pstate with
    | rowNotBegun =>
      refine ⟨0, _, [], rfl, ?_, fun _ h => absurd h List.not_mem_nil⟩
      exact Fits.reset H.size fun h => Nat.le_trans (Nat.add_le_add_right (Nat.zero_le _) _) (H.room h)
    | fieldNotBegun =>
      rw [hp] at hne hplaced
      have hne := hne (by decide)
      exact hrow p Keeps.refl (fun _ => Nat.le_of_eq (hplaced.2.1.trans hplaced.2.2.symm)) (H.room hne)
        H.size hne
    | fieldBegun =>
      rw [hp] at hne hplaced
      have hne := hne (by decide)
      refine hrow p Keeps.refl (fun hq => ?_) (H.room hne) H.size hne
      rwa [Placed, hq, if_neg Bool.false_ne_true] at hplaced
    | fieldMightHaveEnded =>
      obtain ⟨hback, hlt, hq, hne⟩ := H.back hp
      have hroom := H.room hne
      rw [hback]
      refine hrow _ ⟨rfl, rfl, rfl, rfl, rfl, rfl, rfl⟩ (fun h => ?_) ?_ H.size hne
      · rw [hq] at h
        cases h
      · change p.entryPos - (p.spaces + 1) + p.reserve ≤ p.entryBuf.length
        omega

end

/-! ## Runs -/

/-- A call of the library. -/
inductive Call where
  | init (realloc : Realloc) (options : UInt8)
  | parse (us : List UInt8)
  | fini
  | free
  | setOpts (options : UInt8)
  | setDelim (c : UInt8)
  | setQuote (c : UInt8)
  | setSpaceFunc (f : Option (UInt8 → Bool))
  | setTermFunc (f : Option (UInt8 → Bool))
  | setReallocFunc (f : Realloc)
  | setBlkSize (size : Nat)

/-- The parser after a call, and the calls of the callbacks. -/
def call (p : CsvParser) : Call → Except CsvFault (CsvParser × List CsvEvent)
  | .init realloc options => .ok (init realloc options, [])
  | .parse us => (p.parse us).map fun (_, p, out) => (p, out)
  | .fini => p.fini.map fun (_, p, out) => (p, out)
  | .free => .ok (p.free, [])
  | .setOpts options => .ok ({ p with options }, [])
  | .setDelim c => .ok ({ p with delimChar := c }, [])
  | .setQuote c => .ok ({ p with quoteChar := c }, [])
  | .setSpaceFunc f => .ok ({ p with isSpace := f }, [])
  | .setTermFunc f => .ok ({ p with isTerm := f }, [])
  | .setReallocFunc f => .ok ({ p with reallocFunc := f }, [])
  | .setBlkSize size => .ok ({ p with blkSize := size }, [])

def step (p : CsvParser) (a : Call) : Except CsvFault CsvParser := (p.call a).map (·.1)

/-- The buffer is freed and the options are set between rows. -/
def Between (p : CsvParser) : Call → Prop
  | .free | .setOpts _ => p.pstate = .rowNotBegun
  | _ => True

instance (p : CsvParser) (a : Call) : Decidable (p.Between a) := by
  cases a <;> unfold Between <;> infer_instance

/-- The callbacks are called with fields that lie in the buffer. -/
def HandsOver (p : CsvParser) (a : Call) (p' : CsvParser) : Prop :=
  ∃ out, p.call a = .ok (p', out) ∧ ∀ e ∈ out, Sound p.options e

theorem init_fits (realloc : Realloc) (options : UInt8) : (init realloc options).Fits :=
  ⟨Nat.zero_le _, fun h => absurd rfl h, fun _ => rfl, rfl, rfl, rfl⟩

/-- **A call.** -/
theorem step_fits {p : CsvParser} (H : p.Fits) {a : Call} (ha : p.Between a) :
    ∃ p', p.step a = .ok p' ∧ p'.Fits ∧ p.HandsOver a p' := by
  have hcall : ∃ p' out, p.call a = .ok (p', out) ∧ p'.Fits ∧ ∀ e ∈ out, Sound p.options e := by
    have hnil : ∀ e ∈ ([] : List CsvEvent), Sound p.options e := fun _ h => absurd h List.not_mem_nil
    cases a with
    | init realloc options => exact ⟨_, [], rfl, init_fits realloc options, hnil⟩
    | parse us =>
      obtain ⟨n, p', out, heq, H', -, hout⟩ := parse_fits H us
      exact ⟨p', out, by rw [call, heq]; rfl, H', hout⟩
    | fini =>
      obtain ⟨r, p', out, heq, H', hout⟩ := fini_fits H
      exact ⟨p', out, by rw [call, heq]; rfl, H', hout⟩
    | free => exact ⟨_, [], rfl, ⟨Nat.zero_le _, fun h => absurd rfl h, fun _ => ha, H.placed⟩, hnil⟩
    | setOpts options =>
      have ha : p.pstate = .rowNotBegun := ha
      have hpos : p.entryPos = 0 := by
        have hplaced := H.placed
        rw [ha] at hplaced
        exact hplaced.2.2
      refine ⟨_, [], rfl, ⟨H.size, fun h => ?_, H.null, H.placed⟩, hnil⟩
      have hlen := List.length_pos_iff.mpr h
      dsimp only at hlen
      unfold reserve
      dsimp only
      split <;> omega
    | setDelim c => exact ⟨_, [], rfl, ⟨H.size, H.room, H.null, H.placed⟩, hnil⟩
    | setQuote c => exact ⟨_, [], rfl, ⟨H.size, H.room, H.null, H.placed⟩, hnil⟩
    | setSpaceFunc f => exact ⟨_, [], rfl, ⟨H.size, H.room, H.null, H.placed⟩, hnil⟩
    | setTermFunc f => exact ⟨_, [], rfl, ⟨H.size, H.room, H.null, H.placed⟩, hnil⟩
    | setReallocFunc f => exact ⟨_, [], rfl, ⟨H.size, H.room, H.null, H.placed⟩, hnil⟩
    | setBlkSize size => exact ⟨_, [], rfl, ⟨H.size, H.room, H.null, H.placed⟩, hnil⟩
  obtain ⟨p', out, heq, H', hout⟩ := hcall
  refine ⟨p', ?_, H', out, heq, hout⟩
  rw [step, heq]
  rfl

/-- **Within the buffer.** No sequence of calls with any `realloc` functions reads or writes `entry_buf`
outside its bounds, if the buffer is freed and the options are set between rows only. -/
theorem run_within (realloc : Realloc) (options : UInt8) (calls : List Call)
    (hcalls : Meets step Between calls (init realloc options)) :
    (∃ p, calls.foldlM step (init realloc options) = .ok p ∧ p.Fits) ∧
      Steps step HandsOver calls (init realloc options) :=
  Meets.run (fun _ _ _ H ha => step_fits H ha) (init_fits realloc options) hcalls

/-- Small blocks, other options, and a second file. -/
def manyCalls : List Call :=
  [.setBlkSize 1, .setDelim 0x3b, .parse [0x22, 0x61, 0x22], .parse [0x20, 0x3b, 0x62, 0x20], .fini,
    .setOpts (csvAppendNull + csvStrict), .parse [0x0a, 0x63, 0x22], .fini, .free, .parse [0x3b]]

theorem manyCalls_within :
    (∃ p, manyCalls.foldlM step (init .zeroed csvAppendNull) = .ok p ∧ p.Fits) ∧
      Steps step HandsOver manyCalls (init .zeroed csvAppendNull) :=
  run_within .zeroed csvAppendNull manyCalls (by decide +kernel)

end CsvParser

end C2DN.Simulator
