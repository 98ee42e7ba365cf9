import C2DN.Simulator.CsvRoundTrip

/-!
# Fields without quotes

A field whose characters have no meaning for the parser is read as it stands. The field that a row ends
with is not handed over before the line end.
-/

namespace C2DN.Simulator.CsvParser

/-- A character that has no meaning. -/
structure Plain (q : CsvParser) (c : UInt8) : Prop where
  space : q.space c = false
  term : q.term c = false
  delim : c ≠ q.delimChar
  quote : c ≠ q.quoteChar

/-- An unquoted field has begun with `f`. -/
structure InPlain (q p : CsvParser) (f : List UInt8) : Prop where
  fits : p.Fits
  keeps : Keeps q p
  pstate : p.pstate = .fieldBegun
  quoted : p.quoted = false
  spaces : p.spaces = 0
  entry : p.entry = f

section
variable {p q : CsvParser} {c : UInt8} {f : List UInt8} {M : Nat}

theorem Plain.keeps (hc : Plain q c) (hkeeps : Keeps q p) : Plain p c where
  space := hkeeps.space_eq.trans hc.space
  term := hkeeps.term_eq.trans hc.term
  delim := hkeeps.delimChar ▸ hc.delim
  quote := hkeeps.quoteChar ▸ hc.quote

/-! ## Characters -/

theorem AtStart.plain (Q : Quotes q M) (H : AtStart q p) (hM : 2 < M) (hc : Plain q c) :
    ∃ p', p.turn c = .ok (.next p' []) ∧ InPlain q p' [c] := by
  obtain ⟨-, hs, he⟩ := H.placed
  obtain ⟨block, heq, H', hkeeps, -, hroom⟩ := Q.room H.fits H.keeps (by omega) c
  obtain ⟨hspace, hterm, hdelim, hquote⟩ := hc.keeps hkeeps
  change c ≠ p.delimChar at hdelim
  change c ≠ p.quoteChar at hquote
  have hsubmit := submitChar_eq (c := c)
    (p := { p with entryBuf := block, pstate := .fieldBegun, quoted := false }) (by
      change p.entryPos < block.length
      omega)
  have hchar : { p with entryBuf := block }.parseChar c = .ok (.next { p with
      entryBuf := block.set p.entryPos c, entryPos := p.entryPos + 1, pstate := .fieldBegun,
      quoted := false } []) := by
    rw [parseChar_of_outside (by exact H.pstate), hspace, Bool.false_and, if_neg Bool.false_ne_true,
      hterm, if_neg Bool.false_ne_true, if_neg (by exact hdelim), if_neg (by exact hquote)]
    dsimp only
    rw [hsubmit]
    rfl
  obtain ⟨⟨Hnew, -, hkeeps'⟩, -⟩ := H'.char (c := c) hroom (placed_unquoted (Nat.zero_le (p.entryPos + 1)))
  rw [← hs] at Hnew hkeeps'
  refine ⟨_, heq.trans hchar, Hnew, hkeeps.trans hkeeps', rfl, rfl, hs, ?_⟩
  change (block.set p.entryPos c).take (p.entryPos + 1) = [c]
  rw [take_set_succ (by omega), he, List.take_zero]
  rfl

theorem InPlain.room (Q : Quotes q M) (H : InPlain q p f) (hM : f.length + 2 < M) (c : UInt8) :
    ∃ block, p.turn c = { p with entryBuf := block }.parseChar c ∧ { p with entryBuf := block }.Fits ∧
      Keeps q { p with entryBuf := block } ∧ block.take p.entryPos = f ∧
      p.entryPos + 1 + p.reserve ≤ block.length := by
  have hlen := H.fits.entry_length (H.fits.ne_nil (by rw [H.pstate]; decide))
  rw [H.entry] at hlen
  obtain ⟨block, heq, H', hkeeps, hentry, hroom⟩ := Q.room H.fits H.keeps (by omega) c
  rw [H.entry] at hentry
  exact ⟨block, heq, H', hkeeps, hentry, hroom⟩

theorem InPlain.plain (Q : Quotes q M) (H : InPlain q p f) (hM : f.length + 2 < M) (hc : Plain q c) :
    ∃ p', p.turn c = .ok (.next p' []) ∧ InPlain q p' (f ++ [c]) := by
  obtain ⟨block, heq, H', hkeeps, hentry, hroom⟩ := H.room Q hM c
  obtain ⟨hspace, hterm, hdelim, hquote⟩ := hc.keeps hkeeps
  change c ≠ p.delimChar at hdelim
  change c ≠ p.quoteChar at hquote
  have hsubmit := submitChar_eq (c := c) (p := { p with entryBuf := block }) (by
    change p.entryPos < block.length
    omega)
  have hchar : { p with entryBuf := block }.parseChar c = .ok (.next { p with
      entryBuf := block.set p.entryPos c, entryPos := p.entryPos + 1, pstate := .fieldBegun,
      quoted := false, spaces := 0 } []) := by
    unfold parseChar
    rw [hspace, hterm]
    simp only [H.pstate, H.quoted, hdelim, hquote, if_false, Bool.and_false, Bool.false_eq_true] at hsubmit ⊢
    rw [hsubmit]
    rfl
  obtain ⟨⟨Hnew, -, hkeeps'⟩, -⟩ := H'.char (c := c) hroom (placed_unquoted (Nat.zero_le (p.entryPos + 1)))
  refine ⟨_, heq.trans hchar, Hnew, hkeeps.trans hkeeps', rfl, rfl, rfl, ?_⟩
  change (block.set p.entryPos c).take (p.entryPos + 1) = f ++ [c]
  rw [take_set_succ (by omega), hentry]

/-! ## Ends -/

/-- An unquoted field without spaces behind it is handed over. -/
theorem AtStart.of_unquoted (H : p.Fits) (hkeeps : Keeps q p) (hne : p.entryBuf ≠ [])
    (hquoted : p.quoted = false) (hspaces : p.spaces = 0) (hnull : q.has csvEmptyIsNull = false) :
    ∃ p' e, p.submitField = .ok (p', e) ∧ AtStart q p' ∧ p'.pstate = .fieldNotBegun ∧
      AtStart q p'.submitRow ∧ e.token = .field (some p.entry) := by
  obtain ⟨p', e, hsubmit, Hfield, hp', Hrow, htoken⟩ := AtStart.of_submitField hkeeps
    (fun _ => hspaces ▸ Nat.zero_le _) (H.room hne) H.size hne
  refine ⟨p', e, hsubmit, Hfield, hp', Hrow, ?_⟩
  rw [htoken, fieldContent, hkeeps.has, hnull, fieldLen, hquoted, hspaces]
  rfl

theorem InPlain.submitField {block : List UInt8} (H : InPlain q p f)
    (H' : { p with entryBuf := block }.Fits) (hkeeps : Keeps q { p with entryBuf := block })
    (hentry : block.take p.entryPos = f) (hroom : p.entryPos + 1 + p.reserve ≤ block.length)
    (hnull : q.has csvEmptyIsNull = false) :
    ∃ p' e, CsvParser.submitField { p with entryBuf := block } = .ok (p', e) ∧ AtStart q p' ∧
      p'.pstate = .fieldNotBegun ∧ AtStart q p'.submitRow ∧ e.token = .field (some f) := by
  have hne : block ≠ [] := List.ne_nil_of_length_pos (by omega)
  have h := AtStart.of_unquoted H' hkeeps hne H.quoted H.spaces hnull
  rwa [show CsvParser.entry { p with entryBuf := block } = f from hentry] at h

theorem InPlain.endsField (Q : Quotes q M) (H : InPlain q p f) (hM : f.length + 2 < M)
    (hnull : q.has csvEmptyIsNull = false) : EndsField q p f := by
  obtain ⟨block, heq, H', hkeeps, hentry, hroom⟩ := H.room Q hM q.delimChar
  obtain ⟨p', e, hsubmit, Hstart, hp', -, htoken⟩ := H.submitField H' hkeeps hentry hroom hnull
  refine ⟨p', e, ?_, Hstart, hp', htoken⟩
  have hquote : q.delimChar ≠ q.quoteChar := Q.ne.symm
  rw [heq]
  unfold parseChar
  simp only [H.pstate, H.quoted, H.keeps.delimChar, H.keeps.quoteChar, hquote, if_false, if_true,
    Bool.false_eq_true] at hsubmit ⊢
  rw [hsubmit]
  rfl

theorem InPlain.endsRow (Q : Quotes q M) (H : InPlain q p f) (hM : f.length + 2 < M)
    (hnull : q.has csvEmptyIsNull = false) (hdelim : c ≠ q.delimChar) (hterm : q.term c = true) :
    EndsRow q p f c := by
  obtain ⟨block, heq, H', hkeeps, hentry, hroom⟩ := H.room Q hM c
  obtain ⟨p', e, hsubmit, -, -, Hrow, htoken⟩ := H.submitField H' hkeeps hentry hroom hnull
  refine ⟨p'.submitRow, e, ?_, Hrow, rfl, htoken⟩
  have hquote : c ≠ q.quoteChar := by
    rintro rfl
    exact absurd (hterm.symm.trans Q.term) Bool.noConfusion
  have hterm' : CsvParser.term { p with entryBuf := block } c = true := hkeeps.term_eq.trans hterm
  rw [heq]
  unfold parseChar
  rw [hterm']
  simp only [H.pstate, H.quoted, H.keeps.delimChar, H.keeps.quoteChar, hquote, hdelim, if_false, if_true,
    Bool.false_eq_true, Bool.not_false, submitFieldRow] at hsubmit ⊢
  rw [hsubmit]
  rfl

/-- The empty field. -/
theorem AtStart.submitField {block : List UInt8} (H : AtStart q p)
    (H' : { p with entryBuf := block }.Fits) (hroom : p.entryPos + 1 + p.reserve ≤ block.length)
    (hnull : q.has csvEmptyIsNull = false) :
    ∃ p' e, CsvParser.submitField { p with entryBuf := block } = .ok (p', e) ∧ AtStart q p' ∧
      p'.pstate = .fieldNotBegun ∧ AtStart q p'.submitRow ∧ e.token = .field (some []) := by
  obtain ⟨hq, hs, he⟩ := H.placed
  have hkeeps : Keeps q { p with entryBuf := block } := H.keeps.trans ⟨rfl, rfl, rfl, rfl, rfl, rfl, rfl⟩
  have hne : block ≠ [] := List.ne_nil_of_length_pos (by omega)
  have h := AtStart.of_unquoted H' hkeeps hne hq hs hnull
  have hentry : entry { p with entryBuf := block } = [] := by
    rw [entry, he, List.take_zero]
  rwa [hentry] at h

theorem AtStart.endsField (Q : Quotes q M) (H : AtStart q p) (hM : 2 < M)
    (hnull : q.has csvEmptyIsNull = false) (hterm : q.term q.delimChar = false) : EndsField q p [] := by
  obtain ⟨-, -, he⟩ := H.placed
  obtain ⟨block, heq, H', hkeeps, -, hroom⟩ := Q.room H.fits H.keeps (by omega) q.delimChar
  obtain ⟨p', e, hsubmit, Hstart, hp', -, htoken⟩ := H.submitField H' hroom hnull
  refine ⟨p', e, ?_, Hstart, hp', htoken⟩
  have hterm' : CsvParser.term { p with entryBuf := block } q.delimChar = false :=
    hkeeps.term_eq.trans hterm
  have hspace : (space { p with entryBuf := block } q.delimChar && q.delimChar != p.delimChar) = false := by
    rw [H.keeps.delimChar, bne_self_eq_false, Bool.and_false]
  rw [heq, parseChar_of_outside (by exact H.pstate), hterm', if_neg (by rw [hspace]; exact Bool.false_ne_true),
    if_neg Bool.false_ne_true, if_pos (by exact H.keeps.delimChar.symm), hsubmit]
  rfl

theorem AtStart.endsRow (Q : Quotes q M) (H : AtStart q p) (hp : p.pstate = .fieldNotBegun) (hM : 2 < M)
    (hnull : q.has csvEmptyIsNull = false) (hspace : q.space c = false) (hterm : q.term c = true) :
    EndsRow q p [] c := by
  obtain ⟨-, -, he⟩ := H.placed
  obtain ⟨block, heq, H', hkeeps, -, hroom⟩ := Q.room H.fits H.keeps (by omega) c
  obtain ⟨p', e, hsubmit, -, -, Hrow, htoken⟩ := H.submitField H' hroom hnull
  refine ⟨p'.submitRow, e, ?_, Hrow, rfl, htoken⟩
  have hterm' : CsvParser.term { p with entryBuf := block } c = true := hkeeps.term_eq.trans hterm
  have hspace' : space { p with entryBuf := block } c = false := hkeeps.space_eq.trans hspace
  rw [heq, parseChar_of_outside (by exact H.pstate), hspace', Bool.false_and, if_neg Bool.false_ne_true,
    hterm', if_pos rfl, if_pos (by exact hp), submitFieldRow, hsubmit]
  rfl

/-- Nothing happens at the end of an empty row. -/
theorem AtStart.emptyRow (Q : Quotes q M) (H : AtStart q p) (hp : p.pstate = .rowNotBegun) (hM : 2 < M)
    (hrepall : q.has csvRepallNl = false) (hspace : q.space c = false) (hterm : q.term c = true) :
    ∃ p', p.turn c = .ok (.next p' []) ∧ AtStart q p' ∧ p'.pstate = .rowNotBegun := by
  obtain ⟨-, -, he⟩ := H.placed
  obtain ⟨block, heq, H', hkeeps, -, hroom⟩ := Q.room H.fits H.keeps (by omega) c
  have hterm' : CsvParser.term { p with entryBuf := block } c = true := hkeeps.term_eq.trans hterm
  have hspace' : space { p with entryBuf := block } c = false := hkeeps.space_eq.trans hspace
  have hrepall' : has { p with entryBuf := block } csvRepallNl = false := (hkeeps.has _).trans hrepall
  have hnot : ¬ p.pstate = .fieldNotBegun := by rw [hp]; decide
  refine ⟨{ p with entryBuf := block }, ?_, ⟨H', hkeeps, .inl hp⟩, hp⟩
  rw [heq, parseChar_of_outside (by exact H.pstate), hspace', Bool.false_and, if_neg Bool.false_ne_true,
    hterm', if_pos rfl, if_neg (by exact hnot), hrepall', if_neg Bool.false_ne_true]

/-! ## Fields -/

theorem InPlain.all (Q : Quotes q M) (H : InPlain q p f) {src : List UInt8}
    (hM : f.length + src.length + 2 ≤ M) (hsrc : ∀ c ∈ src, Plain q c) :
    ∃ p', feed turn src p = .ok (src.length, p', []) ∧ InPlain q p' (f ++ src) := by
  induction src generalizing p f with
  | nil => exact ⟨p, rfl, by rwa [List.append_nil]⟩
  | cons c src ih =>
    rw [List.length_cons] at hM
    obtain ⟨p₁, h₁, H₁⟩ := H.plain Q (by omega) (hsrc c List.mem_cons_self)
    obtain ⟨p', h', H'⟩ := ih H₁ (by rw [List.length_append, List.length_singleton]; omega)
      fun c hc => hsrc c (List.mem_cons_of_mem _ hc)
    rw [List.append_assoc, List.singleton_append] at H'
    exact ⟨p', feed_append_ok (feed_one h₁) h', H'⟩

/-- The settings under which unquoted fields are read as they stand. -/
structure Unquoted (q : CsvParser) : Prop where
  null : q.has csvEmptyIsNull = false
  delim : q.term q.delimChar = false

theorem fieldText_plain (Q : Quotes q M) (U : Unquoted q) (hM : f.length + 3 ≤ M)
    (hf : ∀ c ∈ f, Plain q c) (hdelim : c ≠ q.delimChar) (hspace : q.space c = false)
    (hterm : q.term c = true) : FieldText q c f f := by
  intro p H
  cases f with
  | nil =>
    refine ⟨p, rfl, H.endsField Q (by omega) U.null U.delim, fun h => ?_⟩
    obtain hp | hne := h
    · exact H.endsRow Q hp (by omega) U.null hspace hterm
    · exact absurd rfl hne
  | cons a f =>
    rw [List.length_cons] at hM
    obtain ⟨p₁, h₁, H₁⟩ := H.plain Q (by omega) (hf a List.mem_cons_self)
    obtain ⟨p', h', H'⟩ := H₁.all Q (by rw [List.length_singleton]; omega)
      fun c hc => hf c (List.mem_cons_of_mem _ hc)
    have hlen : ([a] ++ f).length + 2 < M := by
      rw [List.singleton_append, List.length_cons]
      omega
    exact ⟨p', feed_append_ok (feed_one h₁) h', H'.endsField Q hlen U.null,
      fun _ => H'.endsRow Q hlen U.null hdelim hterm⟩

end

end C2DN.Simulator.CsvParser
