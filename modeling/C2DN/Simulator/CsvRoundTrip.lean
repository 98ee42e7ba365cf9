import C2DN.Simulator.CsvCorrect

/-!
# Csv files are read as they are written

A table whose fields are written with `csv_write2` is parsed into the same fields and rows, in whatever
pieces `csv_parse` gets the file.
-/

namespace C2DN.Simulator

/-! ## Writing -/

/-- The variables of `csv_write2`. -/
structure CsvDest where
  dest : List UInt8
  cdest : Nat
  chars : Nat

/-- A character is written if there is room, and counted. -/
def CsvDest.put (w : CsvDest) (b : UInt8) : CsvDest where
  dest := if w.chars < w.dest.length then w.dest.set w.cdest b else w.dest
  cdest := if w.chars < w.dest.length then w.cdest + 1 else w.cdest
  chars := if w.chars < sizeMax then w.chars + 1 else w.chars

/-- `csv_write2`: the size of the whole field, and `dest` after the call. -/
def csvWrite2 (dest : List UInt8) (src : Option (List UInt8)) (quote : UInt8) : Nat × List UInt8 :=
  match src with
  | none => (0, dest)
  | some src =>
    let w := CsvDest.put ⟨dest, 0, 0⟩ quote
    let w := src.foldl (fun w c => if c = quote then (w.put quote).put c else w.put c) w
    let w := w.put quote
    (w.chars, w.dest)

/-- `csv_write`. -/
def csvWrite (dest : List UInt8) (src : Option (List UInt8)) : Nat × List UInt8 :=
  csvWrite2 dest src 0x22

/-- Quotes are doubled. -/
def doubled (quote : UInt8) (src : List UInt8) : List UInt8 :=
  src.flatMap fun c => if c = quote then [quote, c] else [c]

/-- A field between quotes. -/
def quotedField (quote : UInt8) (src : List UInt8) : List UInt8 :=
  quote :: (doubled quote src ++ [quote])

section
variable {dest src bs : List UInt8} {quote : UInt8}

/-- What has been written after the characters `pre`. -/
structure Wrote (dest pre : List UInt8) (w : CsvDest) : Prop where
  content : w.dest = pre.take dest.length ++ dest.drop pre.length
  place : w.cdest = min pre.length dest.length
  count : w.chars = min pre.length sizeMax

theorem Wrote.put {w : CsvDest} (H : Wrote dest bs w) (hdest : dest.length ≤ sizeMax) (b : UInt8) :
    Wrote dest (bs ++ [b]) (w.put b) := by
  have hlen : w.dest.length = dest.length := by
    rw [H.content, List.length_append, List.length_take, List.length_drop]
    omega
  have hchars := H.count
  unfold CsvDest.put
  refine ⟨?_, ?_, ?_⟩ <;> dsimp only
  · rw [hlen, List.length_append, List.length_singleton]
    split
    · next hlt =>
      have hbs : bs.length < dest.length := by omega
      obtain ⟨x, hx⟩ : ∃ x, dest.drop bs.length = x :: dest.drop (bs.length + 1) :=
        ⟨_, List.drop_eq_getElem_cons hbs⟩
      rw [H.content, H.place, Nat.min_eq_left (Nat.le_of_lt hbs), List.take_of_length_le (Nat.le_of_lt hbs),
        hx, List.set_append_right _ _ (Nat.le_refl _), Nat.sub_self, List.set_cons_zero,
        List.take_of_length_le (by rw [List.length_append, List.length_singleton]; omega),
        List.append_assoc]
      rfl
    · next hge =>
      have hbs : dest.length ≤ bs.length := by omega
      rw [H.content, List.drop_eq_nil_of_le hbs, List.drop_eq_nil_of_le (Nat.le_succ_of_le hbs),
        List.take_append_of_le_length hbs]
  · rw [hlen, H.place, List.length_append, List.length_singleton]
    split <;> omega
  · rw [List.length_append, List.length_singleton]
    split <;> omega

theorem Wrote.all {w : CsvDest} (H : Wrote dest bs w) (hdest : dest.length ≤ sizeMax)
    (quote : UInt8) (src : List UInt8) :
    Wrote dest (bs ++ doubled quote src)
      (src.foldl (fun w c => if c = quote then (w.put quote).put c else w.put c) w) := by
  induction src generalizing bs w with
  | nil =>
    rw [doubled, List.flatMap_nil, List.append_nil]
    exact H
  | cons c src ih =>
    rw [doubled, List.flatMap_cons, ← List.append_assoc, List.foldl_cons]
    refine ih ?_
    split
    · have H' := (H.put hdest quote).put hdest c
      rwa [List.append_assoc] at H'
    · exact H.put hdest c

/-- **`csv_write2`** returns the size of the whole field and writes as much of it as `dest` holds. -/
theorem csvWrite2_eq (hdest : dest.length ≤ sizeMax) (src : List UInt8) (quote : UInt8) :
    csvWrite2 dest (some src) quote = (min (quotedField quote src).length sizeMax,
      (quotedField quote src).take dest.length ++ dest.drop (quotedField quote src).length) := by
  have hstart : Wrote dest [] ⟨dest, 0, 0⟩ := by
    refine ⟨?_, (Nat.zero_min _).symm, (Nat.zero_min _).symm⟩
    rw [List.take_nil, List.nil_append, List.length_nil, List.drop_zero]
  have H := ((hstart.put hdest quote).all hdest quote src).put hdest quote
  exact Prod.ext H.count H.content

end

/-! ## Pieces -/

namespace CsvParser

/-- A turn of the loop, behind the allocation before it. -/
def turn (p : CsvParser) (c : UInt8) : Except CsvFault (Fed CsvParser CsvEvent) :=
  if p.entryBuf = [] then
    match p.increaseBuffer with
    | (p, true) => p.parseStep c
    | (p, false) => .ok (.stop p)
  else p.parseStep c

/-- Calls of `csv_parse` for the pieces of a file, up to the first one that is not processed whole. -/
def parseAll : List (List UInt8) → CsvParser → Except CsvFault (Nat × CsvParser × List CsvEvent)
  | [], p => .ok (0, p, [])
  | us :: pieces, p => (p.parse us).bind fun (n, p, out) =>
    if n < us.length then .ok (n, p, out)
    else (parseAll pieces p).map fun (m, p, out') => (n + m, p, out ++ out')

section
variable {p p' q : CsvParser} {c : UInt8} {f : List UInt8} {M : Nat}

theorem parseStep_ne {fed : Fed CsvParser CsvEvent} (H : p.Fits) (hne : p.entryBuf ≠ [])
    (h : p.parseStep c = .ok fed) : Turn p fed := by
  obtain ⟨fed', hfed, hturn⟩ := (parseStep_turn H hne c).returns
  cases hfed.symm.trans h
  exact hturn

/-- The loop with a buffer. -/
theorem feed_turn_of_ne (H : p.Fits) (hne : p.entryBuf ≠ []) (us : List UInt8) :
    feed turn us p = feed parseStep us p := by
  induction us generalizing p with
  | nil => rfl
  | cons c us ih =>
    rw [feed, feed, turn, if_neg hne]
    cases hstep : p.parseStep c with
    | error e => rfl
    | ok fed =>
      have hturn := parseStep_ne H hne hstep
      cases fed with
      | stop p' => rfl
      | next p' out =>
        dsimp only [Except.bind]
        rw [ih hturn.1.1 hturn.1.2.1]

theorem parse_eq_feed (H : p.Fits) (us : List UInt8) : p.parse us = feed turn us p := by
  unfold parse
  by_cases hnull : p.entryBuf = []
  · cases us with
    | nil => rw [if_neg fun h => h.2 rfl, feed, feed]
    | cons c us =>
      rw [if_pos ⟨hnull, List.cons_ne_nil _ _⟩, feed, turn, if_pos hnull]
      rcases increaseBuffer_cases H.size with ⟨block, heq, hpre, hlt, hle⟩ | ⟨status, heq⟩
      · rw [heq]
        have hne : block ≠ [] := List.ne_nil_of_length_pos (Nat.lt_of_le_of_lt (Nat.zero_le _) hlt)
        dsimp only
        rw [← feed_turn_of_ne (H.grow hlt hle) hne, feed, turn, if_neg (by exact hne)]
      · rw [heq]
        rfl
  · rw [if_neg fun h => hnull h.1, feed_turn_of_ne H hnull]

/-- **Pieces.** A file can be cut anywhere. -/
theorem parseAll_eq_parse (H : p.Fits) (pieces : List (List UInt8)) :
    parseAll pieces p = p.parse pieces.flatten := by
  have hfeed : parseAll pieces p = feedAll turn pieces p := by
    induction pieces generalizing p with
    | nil => rfl
    | cons us pieces ih =>
      rw [parseAll, feedAll, parse_eq_feed H]
      cases hcall : feed turn us p with
      | error e => rfl
      | ok r =>
        obtain ⟨n, p', out⟩ := r
        obtain ⟨n', p'', out', hparse, H', -⟩ := parse_fits H us
        rw [parse_eq_feed H, hcall] at hparse
        cases hparse
        dsimp only [Except.bind]
        rw [ih H']
  rw [hfeed, feedAll_eq_feed, parse_eq_feed H]

/-! ## Room -/

/-- `realloc` gives blocks up to the size `M`. -/
def Supplies (p : CsvParser) (M : Nat) : Prop :=
  ∀ buf size, size ≤ M → (p.reallocFunc.run buf size).isSome = true

theorem reallocLoop_isSome (hsupply : p.Supplies M) (hlt : p.entryBuf.length < M) {fuel toAdd : Nat}
    (hadd : 0 < toAdd) (hfuel : toAdd ≤ fuel) : (p.reallocLoop fuel toAdd).isSome = true := by
  induction fuel generalizing toAdd with
  | zero => omega
  | succ fuel ih =>
    rw [reallocLoop]
    split
    · rfl
    · next hnone =>
      have hbig : M < p.entryBuf.length + toAdd := by
        by_contra hle
        have hsome := hsupply p.entryBuf (p.entryBuf.length + toAdd) (Nat.le_of_not_lt hle)
        rw [hnone] at hsome
        cases hsome
      rw [if_neg (by omega)]
      exact ih (by omega) (by omega)

theorem increaseBuffer_ok (hsize : p.entryBuf.length ≤ sizeMax) (hsupply : p.Supplies M)
    (hM : M ≤ sizeMax) (hblk : 0 < p.blkSize) (hlt : p.entryBuf.length < M) :
    ∃ block, p.increaseBuffer = ({ p with entryBuf := block }, true) ∧ p.entryBuf <+: block ∧
      p.entryBuf.length < block.length ∧ block.length ≤ sizeMax := by
  rcases increaseBuffer_cases hsize with h | ⟨status, h⟩
  · exact h
  · exfalso
    unfold increaseBuffer at h
    dsimp only at h
    split at h <;> split at h
    · omega
    · next hadd =>
      obtain ⟨block, hblock⟩ := Option.isSome_iff_exists.mp
        (reallocLoop_isSome hsupply hlt (Nat.pos_of_ne_zero hadd) (Nat.le_refl _))
      rw [hblock] at h
      cases h
    · omega
    · obtain ⟨block, hblock⟩ := Option.isSome_iff_exists.mp
        (reallocLoop_isSome hsupply hlt hblk (Nat.le_refl _))
      rw [hblock] at h
      cases h

/-- The turn comes to the `switch` with room for the character. -/
theorem turn_room (H : p.Fits) (hsupply : p.Supplies M) (hM : M ≤ sizeMax) (hblk : 0 < p.blkSize)
    (hlt : p.entryPos + 2 < M) (c : UInt8) :
    ∃ block, p.turn c = { p with entryBuf := block }.parseChar c ∧ { p with entryBuf := block }.Fits ∧
      block.take p.entryPos = p.entry ∧ p.entryPos + 1 + p.reserve ≤ block.length := by
  have hreserve : p.reserve ≤ 1 := by
    unfold reserve
    split <;> omega
  -- a turn with a buffer
  have hstep : ∀ q : CsvParser, q.Fits → q.entryBuf ≠ [] → q.Supplies M → 0 < q.blkSize →
      q.entryPos + 2 < M → q.reserve ≤ 1 →
      ∃ block, q.parseStep c = { q with entryBuf := block }.parseChar c ∧
        { q with entryBuf := block }.Fits ∧ q.entryBuf <+: block ∧
        q.entryPos + 1 + q.reserve ≤ block.length := by
    intro q H hne hsupply hblk hlt hreserve
    have hroom := H.room hne
    unfold parseStep
    split
    · next hfull =>
      rw [isFull_iff hne] at hfull
      obtain ⟨block, heq, hpre, hgrow, hle⟩ :=
        increaseBuffer_ok H.size hsupply hM hblk (by omega)
      refine ⟨block, ?_, H.grow hgrow hle, hpre, by omega⟩
      rw [heq]
    · next hfull =>
      rw [isFull_iff hne] at hfull
      exact ⟨q.entryBuf, rfl, H, List.prefix_rfl, by omega⟩
  unfold turn
  split
  · next hnull =>
    have hpos : p.entryPos = 0 := by
      have hplaced := H.placed
      rw [H.null hnull] at hplaced
      exact hplaced.2.2
    have hlen : p.entryBuf.length < M := by
      rw [hnull, List.length_nil]
      omega
    obtain ⟨block, heq, hpre, hgrow, hle⟩ := increaseBuffer_ok H.size hsupply hM hblk hlen
    rw [heq]
    obtain ⟨block', heq', H', hpre', hroom⟩ := hstep { p with entryBuf := block } (H.grow hgrow hle)
      (List.ne_nil_of_length_pos (Nat.lt_of_le_of_lt (Nat.zero_le _) hgrow)) hsupply hblk hlt hreserve
    refine ⟨block', heq', H', ?_, hroom⟩
    rw [entry, hpos, List.take_zero, List.take_zero]
  · next hne =>
    obtain ⟨block, heq, H', ⟨rest, hpre⟩, hroom⟩ := hstep p H hne hsupply hblk hlt hreserve
    refine ⟨block, heq, H', ?_, hroom⟩
    have hle := H.room hne
    rw [entry, ← hpre, List.take_append_of_le_length (by omega)]

/-! ## Quoted fields -/

/-- The settings under which quoted fields can be told apart, and `realloc` gives blocks up to `M`. -/
structure Quotes (q : CsvParser) (M : Nat) : Prop where
  ne : q.quoteChar ≠ q.delimChar
  space : q.space q.quoteChar = false
  term : q.term q.quoteChar = false
  supplies : q.Supplies M
  limit : M ≤ sizeMax
  blkSize : 0 < q.blkSize

/-- No field has begun. The settings are those of `q`. -/
structure AtStart (q p : CsvParser) : Prop where
  fits : p.Fits
  keeps : Keeps q p
  pstate : p.pstate = .rowNotBegun ∨ p.pstate = .fieldNotBegun

/-- A quoted field has begun with `f`. -/
structure InField (q p : CsvParser) (f : List UInt8) : Prop where
  fits : p.Fits
  keeps : Keeps q p
  pstate : p.pstate = .fieldBegun
  quoted : p.quoted = true
  entry : p.entry = f

/-- The quote behind `f` might be the last one. -/
structure AtQuote (q p : CsvParser) (f : List UInt8) : Prop where
  fits : p.Fits
  keeps : Keeps q p
  pstate : p.pstate = .fieldMightHaveEnded
  spaces : p.spaces = 0
  entry : p.entry = f ++ [q.quoteChar]

theorem Keeps.space_eq (h : Keeps q p) : p.space c = q.space c := by
  rw [space, h.isSpace]
  rfl

theorem Keeps.term_eq (h : Keeps q p) : p.term c = q.term c := by
  rw [term, h.isTerm]
  rfl

theorem Keeps.supplies (h : Keeps q p) (hq : q.Supplies M) : p.Supplies M := by
  rw [Supplies, h.reallocFunc]
  exact hq

theorem Fits.entry_length (H : p.Fits) (hne : p.entryBuf ≠ []) : p.entry.length = p.entryPos := by
  have hroom := H.room hne
  rw [CsvParser.entry, List.length_take]
  omega

theorem Fits.ne_nil (H : p.Fits) (hp : p.pstate ≠ .rowNotBegun) : p.entryBuf ≠ [] := fun h => hp (H.null h)

theorem take_set_succ {l : List UInt8} {i : Nat} (h : i < l.length) :
    (l.set i c).take (i + 1) = l.take i ++ [c] := by
  rw [List.take_add_one, List.take_set_of_le (Nat.le_refl _), List.getElem?_set_self h, Option.toList_some]

/-- The turn of `turn_room`, under the settings of `q`. -/
theorem Quotes.room (Q : Quotes q M) (H : p.Fits) (hkeeps : Keeps q p) (hlt : p.entryPos + 2 < M)
    (c : UInt8) :
    ∃ block, p.turn c = { p with entryBuf := block }.parseChar c ∧ { p with entryBuf := block }.Fits ∧
      Keeps q { p with entryBuf := block } ∧ block.take p.entryPos = p.entry ∧
      p.entryPos + 1 + p.reserve ≤ block.length := by
  have hblk : 0 < p.blkSize := by
    rw [hkeeps.blkSize]
    exact Q.blkSize
  obtain ⟨block, heq, H', hentry, hroom⟩ := turn_room H (hkeeps.supplies Q.supplies) Q.limit hblk hlt c
  exact ⟨block, heq, H', hkeeps.trans ⟨rfl, rfl, rfl, rfl, rfl, rfl, rfl⟩, hentry, hroom⟩

theorem AtStart.placed (H : AtStart q p) : p.quoted = false ∧ p.spaces = 0 ∧ p.entryPos = 0 := by
  have hplaced := H.fits.placed
  rcases H.pstate with hp | hp <;> rwa [hp] at hplaced

theorem AtStart.quote (Q : Quotes q M) (H : AtStart q p) (hM : 2 < M) :
    ∃ p', p.turn q.quoteChar = .ok (.next p' []) ∧ InField q p' [] := by
  obtain ⟨-, hs, he⟩ := H.placed
  obtain ⟨block, heq, H', hkeeps, -, hroom⟩ := Q.room H.fits H.keeps (by omega) q.quoteChar
  have hchar : { p with entryBuf := block }.parseChar q.quoteChar =
      .ok (.next { p with entryBuf := block, pstate := .fieldBegun, quoted := true } []) := by
    have hspace : space { p with entryBuf := block } q.quoteChar = false := hkeeps.space_eq.trans Q.space
    have hterm : term { p with entryBuf := block } q.quoteChar = false := hkeeps.term_eq.trans Q.term
    have hdelim : q.quoteChar ≠ p.delimChar := H.keeps.delimChar ▸ Q.ne
    have hquote : q.quoteChar = p.quoteChar := H.keeps.quoteChar.symm
    rw [parseChar_of_outside (by exact H.pstate), hspace, Bool.false_and, if_neg Bool.false_ne_true,
      hterm, if_neg Bool.false_ne_true, if_neg (by exact hdelim), if_pos (by exact hquote)]
  have hne : block ≠ [] := List.ne_nil_of_length_pos (by omega)
  obtain ⟨⟨Hnew, -, hkeeps'⟩, -⟩ : Turn _ (.next { p with
      entryBuf := block, pstate := .fieldBegun, quoted := true } []) := H'.state hne hs
  refine ⟨_, heq.trans hchar, Hnew, hkeeps.trans hkeeps', rfl, rfl, ?_⟩
  change block.take p.entryPos = []
  rw [he, List.take_zero]

theorem InField.char (Q : Quotes q M) (H : InField q p f) (hM : f.length + 2 < M)
    (hc : c ≠ q.quoteChar) :
    ∃ p', p.turn c = .ok (.next p' []) ∧ InField q p' (f ++ [c]) := by
  have hlen := H.fits.entry_length (H.fits.ne_nil (by rw [H.pstate]; decide))
  rw [H.entry] at hlen
  obtain ⟨block, heq, H', hkeeps, hentry, hroom⟩ := Q.room H.fits H.keeps (by omega) c
  have hquote : c ≠ p.quoteChar := H.keeps.quoteChar ▸ hc
  have hspaces : p.spaces = 0 := by
    have hplaced := H.fits.placed
    rwa [H.pstate, H.quoted] at hplaced
  have hchar : { p with entryBuf := block }.parseChar c = .ok (.next { p with
      entryBuf := block.set p.entryPos c, entryPos := p.entryPos + 1, pstate := .fieldBegun,
      quoted := true, spaces := 0 } []) := by
    have hsubmit := submitChar_eq (p := { p with entryBuf := block }) (c := c) (by
      change p.entryPos < block.length
      omega)
    unfold parseChar
    simp only [H.pstate, H.quoted, hspaces, hquote, if_false, if_true, Bool.not_true, Bool.false_and,
      Bool.false_eq_true] at hsubmit ⊢
    rw [hsubmit]
    split
    · rfl
    split
    · rfl
    · rfl
  obtain ⟨⟨Hnew, -, hkeeps'⟩, -⟩ := H'.char (c := c) hroom placed_quoted
  refine ⟨_, heq.trans hchar, Hnew, hkeeps.trans hkeeps', rfl, rfl, ?_⟩
  change (block.set p.entryPos c).take (p.entryPos + 1) = f ++ [c]
  rw [take_set_succ (by omega), hentry, H.entry]

theorem InField.quote (Q : Quotes q M) (H : InField q p f) (hM : f.length + 2 < M) :
    ∃ p', p.turn q.quoteChar = .ok (.next p' []) ∧ AtQuote q p' f := by
  have hlen := H.fits.entry_length (H.fits.ne_nil (by rw [H.pstate]; decide))
  rw [H.entry] at hlen
  obtain ⟨block, heq, H', hkeeps, hentry, hroom⟩ := Q.room H.fits H.keeps (by omega) q.quoteChar
  have hspaces : p.spaces = 0 := by
    have hplaced := H.fits.placed
    rwa [H.pstate, H.quoted] at hplaced
  have hchar : { p with entryBuf := block }.parseChar q.quoteChar = .ok (.next { p with
      entryBuf := block.set p.entryPos q.quoteChar, entryPos := p.entryPos + 1,
      pstate := .fieldMightHaveEnded, quoted := true, spaces := 0 } []) := by
    have hsubmit := submitChar_eq (p := { p with entryBuf := block }) (c := q.quoteChar) (by
      change p.entryPos < block.length
      omega)
    unfold parseChar
    simp only [H.pstate, H.quoted, hspaces, H.keeps.quoteChar, if_true] at hsubmit ⊢
    rw [hsubmit]
    rfl
  obtain ⟨⟨Hnew, -, hkeeps'⟩, -⟩ := H'.char (c := q.quoteChar) hroom (placed_ended (Nat.succ_pos _))
  refine ⟨_, heq.trans hchar, Hnew, hkeeps.trans hkeeps', rfl, rfl, ?_⟩
  change (block.set p.entryPos q.quoteChar).take (p.entryPos + 1) = f ++ [q.quoteChar]
  rw [take_set_succ (by omega), hentry, H.entry]

/-- What follows a quote inside a quoted field. -/
theorem AtQuote.room (Q : Quotes q M) (H : AtQuote q p f) (hM : f.length + 3 < M) (c : UInt8) :
    ∃ block, p.turn c = { p with entryBuf := block }.parseChar c ∧ { p with entryBuf := block }.Fits ∧
      Keeps q { p with entryBuf := block } ∧ block.take p.entryPos = f ++ [q.quoteChar] ∧ block ≠ [] ∧
      p.entryPos = f.length + 1 ∧ p.quoted = true := by
  have hlen := H.fits.entry_length (H.fits.ne_nil (by rw [H.pstate]; decide))
  rw [H.entry, List.length_append, List.length_singleton] at hlen
  obtain ⟨block, heq, H', hkeeps, hentry, hroom⟩ := Q.room H.fits H.keeps (by omega) c
  rw [H.entry] at hentry
  have hplaced := H.fits.placed
  rw [H.pstate] at hplaced
  exact ⟨block, heq, H', hkeeps, hentry, List.ne_nil_of_length_pos (by omega), hlen.symm, hplaced.1⟩

/-- A second quote stands for one. -/
theorem AtQuote.quote (Q : Quotes q M) (H : AtQuote q p f) (hM : f.length + 3 < M) :
    ∃ p', p.turn q.quoteChar = .ok (.next p' []) ∧ InField q p' (f ++ [q.quoteChar]) := by
  obtain ⟨block, heq, H', hkeeps, hentry, hne, -, hquoted⟩ := H.room Q hM q.quoteChar
  have hchar : { p with entryBuf := block }.parseChar q.quoteChar =
      .ok (.next { p with entryBuf := block, pstate := .fieldBegun, quoted := true } []) := by
    have hspace : space { p with entryBuf := block } q.quoteChar = false := hkeeps.space_eq.trans Q.space
    have hterm : term { p with entryBuf := block } q.quoteChar = false := hkeeps.term_eq.trans Q.term
    have hdelim : q.quoteChar ≠ p.delimChar := H.keeps.delimChar ▸ Q.ne
    unfold parseChar
    rw [hspace, hterm]
    simp only [H.pstate, H.spaces, hquoted, hdelim, H.keeps.quoteChar, if_false, if_true, ne_eq,
      not_true_eq_false, Bool.false_eq_true]
  obtain ⟨⟨Hnew, -, hkeeps'⟩, -⟩ : Turn _ (.next { p with
      entryBuf := block, pstate := .fieldBegun, quoted := true } []) := H'.state hne H.spaces
  exact ⟨_, heq.trans hchar, Hnew, hkeeps.trans hkeeps', rfl, rfl, hentry⟩

/-- The field is handed over, and the parser is behind it. -/
theorem AtStart.of_submitField (hkeeps : Keeps q p) (hspaces : p.quoted = false → p.spaces ≤ p.entryPos)
    (hroom : p.entryPos + p.reserve ≤ p.entryBuf.length) (hsize : p.entryBuf.length ≤ sizeMax)
    (hne : p.entryBuf ≠ []) :
    ∃ p' e, p.submitField = .ok (p', e) ∧ AtStart q p' ∧ p'.pstate = .fieldNotBegun ∧
      AtStart q p'.submitRow ∧ e.token = .field p.fieldContent := by
  obtain ⟨buf, s, heq, -, -, htoken⟩ := submitField_eq hspaces hroom hsize
  obtain ⟨p', e, heq', Hfield, Hrow, hkeeps', -, -⟩ := Fits.submitField hspaces hroom hsize hne
  cases heq.symm.trans heq'
  exact ⟨_, _, heq, ⟨Hfield, hkeeps.trans hkeeps', .inr rfl⟩, rfl,
    ⟨Hrow, (hkeeps.trans hkeeps').trans ⟨rfl, rfl, rfl, rfl, rfl, rfl, rfl⟩, .inl rfl⟩, htoken⟩

/-- The field is handed over without the last quote. -/
theorem AtQuote.submitField {block : List UInt8} (H : AtQuote q p f)
    (H' : { p with entryBuf := block }.Fits) (hentry : block.take p.entryPos = f ++ [q.quoteChar])
    (hne : block ≠ []) (hpos : p.entryPos = f.length + 1) (hquoted : p.quoted = true) :
    ∃ p' e, ({ p with entryBuf := block }.back (p.spaces + 1)).submitField = .ok (p', e) ∧
      AtStart q p' ∧ p'.pstate = .fieldNotBegun ∧ AtStart q p'.submitRow ∧ e.token = .field (some f) := by
  obtain ⟨hback, -, -, -⟩ := H'.back H.pstate
  have hkeeps : Keeps q { p with entryBuf := block, entryPos := p.entryPos - (p.spaces + 1) } :=
    H.keeps.trans ⟨rfl, rfl, rfl, rfl, rfl, rfl, rfl⟩
  have hspaces : { p with entryBuf := block, entryPos := p.entryPos - (p.spaces + 1) }.quoted = false →
      p.spaces ≤ p.entryPos - (p.spaces + 1) := fun h => absurd (hquoted.symm.trans h) Bool.noConfusion
  have hroom : p.entryPos - (p.spaces + 1) +
      reserve { p with entryBuf := block, entryPos := p.entryPos - (p.spaces + 1) } ≤ block.length := by
    have := H'.room hne
    dsimp only at this
    rw [hkeeps.reserve]
    have hreserve : reserve { p with entryBuf := block } = q.reserve :=
      Keeps.reserve (H.keeps.trans ⟨rfl, rfl, rfl, rfl, rfl, rfl, rfl⟩)
    omega
  obtain ⟨p', e, heq, Hfield, hp', Hrow, htoken⟩ :=
    AtStart.of_submitField hkeeps hspaces hroom H'.size hne
  refine ⟨p', e, (congrArg CsvParser.submitField hback).trans heq, Hfield, hp', Hrow, ?_⟩
  rw [htoken]
  refine congrArg CsvToken.field ?_
  unfold fieldContent fieldLen
  simp only [hquoted, Bool.not_true, Bool.and_false, Bool.false_and, Bool.false_eq_true, if_false, if_true,
    H.spaces, hpos]
  have htake : (block.take p.entryPos).take f.length = f := by
    rw [hentry, List.take_left]
  rw [List.take_take, hpos, Nat.min_eq_left (Nat.le_succ _)] at htake
  exact congrArg some htake

/-! ## The ends of fields -/

/-- The field `f` ends before a delimiter. -/
def EndsField (q p : CsvParser) (f : List UInt8) : Prop :=
  ∃ p' e, p.turn q.delimChar = .ok (.next p' [e]) ∧ AtStart q p' ∧ p'.pstate = .fieldNotBegun ∧
    e.token = .field (some f)

/-- The field `f` ends before the character `c`, and the row does. -/
def EndsRow (q p : CsvParser) (f : List UInt8) (c : UInt8) : Prop :=
  ∃ p' e, p.turn c = .ok (.next p' [e, .row c.toNat]) ∧ AtStart q p' ∧ p'.pstate = .rowNotBegun ∧
    e.token = .field (some f)

theorem AtQuote.endsField (Q : Quotes q M) (H : AtQuote q p f) (hM : f.length + 3 < M) :
    EndsField q p f := by
  obtain ⟨block, heq, H', -, hentry, hne, hpos, hquoted⟩ := H.room Q hM q.delimChar
  obtain ⟨p', e, hsubmit, Hstart, hp', -, htoken⟩ := H.submitField H' hentry hne hpos hquoted
  refine ⟨p', e, ?_, Hstart, hp', htoken⟩
  rw [heq]
  unfold parseChar
  simp only [H.pstate, H.keeps.delimChar, if_true] at hsubmit ⊢
  rw [hsubmit]
  rfl

theorem AtQuote.endsRow (Q : Quotes q M) (H : AtQuote q p f) (hM : f.length + 3 < M)
    (hdelim : c ≠ q.delimChar) (hterm : q.term c = true) : EndsRow q p f c := by
  obtain ⟨block, heq, H', hkeeps, hentry, hne, hpos, hquoted⟩ := H.room Q hM c
  obtain ⟨p', e, hsubmit, -, -, Hstart, htoken⟩ := H.submitField H' hentry hne hpos hquoted
  refine ⟨p'.submitRow, e, ?_, Hstart, rfl, htoken⟩
  have hterm' : CsvParser.term { p with entryBuf := block } c = true := hkeeps.term_eq.trans hterm
  have hdelim' : c ≠ p.delimChar := H.keeps.delimChar ▸ hdelim
  rw [heq]
  unfold parseChar
  rw [hterm']
  simp only [H.pstate, hdelim', if_false, if_true, submitFieldRow] at hsubmit ⊢
  rw [hsubmit]
  rfl

/-- A text that stands for the field `f` in a row that ends with `c`. An empty text is no row by itself. -/
def FieldText (q : CsvParser) (c : UInt8) (text f : List UInt8) : Prop :=
  ∀ p, AtStart q p → ∃ p', feed turn text p = .ok (text.length, p', []) ∧ EndsField q p' f ∧
    (p.pstate = .fieldNotBegun ∨ text ≠ [] → EndsRow q p' f c)

theorem intercalate_cons_concat {α : Type} (sep a b : List α) (as : List (List α)) :
    sep.intercalate (a :: (as ++ [b])) = a ++ (sep ++ sep.intercalate (as ++ [b])) := by
  cases as with
  | nil => rw [List.nil_append, List.intercalate_cons_cons, List.append_assoc]
  | cons a' as => rw [List.cons_append, List.intercalate_cons_cons, List.append_assoc]

/-- A row up to its end: the last field has not been handed over. -/
theorem AtStart.openRow (H : AtStart q p) {texts : List (List UInt8 × List UInt8)}
    {text : List UInt8} (htexts : ∀ t ∈ texts, FieldText q c t.1 t.2) (htext : FieldText q c text f) :
    ∃ p' out, feed turn ([q.delimChar].intercalate (texts.map Prod.fst ++ [text])) p =
        .ok (([q.delimChar].intercalate (texts.map Prod.fst ++ [text])).length, p', out) ∧
      out.map CsvEvent.token = texts.map (fun t => .field (some t.2)) ∧
      (p.pstate = .fieldNotBegun ∨ [q.delimChar].intercalate (texts.map Prod.fst ++ [text]) ≠ [] →
        EndsRow q p' f c) := by
  induction texts generalizing p with
  | nil =>
    obtain ⟨p', h', -, hrow⟩ := htext p H
    rw [List.map_nil, List.nil_append, List.intercalate_singleton]
    exact ⟨p', [], h', rfl, hrow⟩
  | cons t texts ih =>
    obtain ⟨p₁, h₁, ⟨p₂, e, h₂, H₂, hp₂, htoken⟩, -⟩ := htexts t List.mem_cons_self p H
    obtain ⟨p', out, h', htokens, hrow⟩ := ih H₂ fun t ht => htexts t (List.mem_cons_of_mem _ ht)
    refine ⟨p', [] ++ ([e] ++ out), ?_, ?_, fun _ => hrow (.inl hp₂)⟩
    · rw [List.map_cons, List.cons_append, intercalate_cons_concat]
      exact feed_append_ok h₁ (feed_append_ok (feed_one h₂) h')
    · rw [List.nil_append, List.map_append, htokens, List.map_singleton, htoken]
      rfl

/-- A row with the character behind it. -/
theorem AtStart.row (H : AtStart q p) {texts : List (List UInt8 × List UInt8)}
    (htexts : ∀ t ∈ texts, FieldText q c t.1 t.2)
    (hfirst : [q.delimChar].intercalate (texts.map Prod.fst) ≠ []) :
    ∃ p' out, feed turn ([q.delimChar].intercalate (texts.map Prod.fst) ++ [c]) p =
        .ok (([q.delimChar].intercalate (texts.map Prod.fst) ++ [c]).length, p', out) ∧
      AtStart q p' ∧ p'.pstate = .rowNotBegun ∧
      out.map CsvEvent.token = texts.map (fun t => .field (some t.2)) ++ [.row c.toNat] := by
  obtain rfl | ⟨texts, t, rfl⟩ := texts.eq_nil_or_concat
  · exact absurd rfl hfirst
  · rw [List.concat_eq_append] at htexts
    rw [List.concat_eq_append, List.map_append, List.map_singleton] at hfirst ⊢
    obtain ⟨p₁, out, h₁, htokens, hrow⟩ := H.openRow
      (fun t ht => htexts t (List.mem_append_left _ ht))
      (htexts t (List.mem_append_right _ List.mem_cons_self))
    obtain ⟨p', e, h', H', hp', htoken⟩ := hrow (.inr hfirst)
    refine ⟨p', out ++ [e, .row c.toNat], feed_append_ok h₁ (feed_one h'), H', hp', ?_⟩
    rw [List.map_append, htokens, List.map_append, List.map_cons, htoken, List.append_assoc]
    rfl

/-! ## Tables -/

/-- The characters of a field. -/
theorem InField.content (Q : Quotes q M) (H : InField q p f) (src : List UInt8)
    (hM : f.length + src.length + 3 ≤ M) :
    ∃ p', feed turn (doubled q.quoteChar src) p = .ok ((doubled q.quoteChar src).length, p', []) ∧
      InField q p' (f ++ src) := by
  induction src generalizing p f with
  | nil => exact ⟨p, rfl, by rwa [List.append_nil]⟩
  | cons c src ih =>
    rw [List.length_cons] at hM
    rw [doubled, List.flatMap_cons]
    have happend : f ++ c :: src = f ++ [c] ++ src := by rw [List.append_assoc, List.singleton_append]
    have hrest : ∀ p₂, InField q p₂ (f ++ [c]) →
        ∃ p', feed turn (doubled q.quoteChar src) p₂ =
          .ok ((doubled q.quoteChar src).length, p', []) ∧ InField q p' (f ++ [c] ++ src) :=
      fun p₂ H₂ => ih H₂ (by rw [List.length_append, List.length_singleton]; omega)
    rw [happend]
    split
    · next hc =>
      subst hc
      obtain ⟨p₁, h₁, H₁⟩ := H.quote Q (by omega)
      obtain ⟨p₂, h₂, H₂⟩ := H₁.quote Q (by omega)
      obtain ⟨p', h', H'⟩ := hrest p₂ H₂
      exact ⟨p', feed_append_ok (feed_append_ok (feed_one h₁) (feed_one h₂)) h', H'⟩
    · next hc =>
      obtain ⟨p₁, h₁, H₁⟩ := H.char Q (by omega) hc
      obtain ⟨p', h', H'⟩ := hrest p₁ H₁
      exact ⟨p', feed_append_ok (feed_one h₁) h', H'⟩

/-- A field up to its last quote. -/
theorem AtStart.field (Q : Quotes q M) (H : AtStart q p) (src : List UInt8) (hM : src.length + 3 ≤ M) :
    ∃ p', feed turn (quotedField q.quoteChar src) p = .ok ((quotedField q.quoteChar src).length, p', []) ∧
      AtQuote q p' src := by
  obtain ⟨p₁, h₁, H₁⟩ := H.quote Q (by omega)
  obtain ⟨p₂, h₂, H₂⟩ := H₁.content Q src (by rw [List.length_nil]; omega)
  obtain ⟨p', h', H'⟩ := H₂.quote Q (by rw [List.nil_append]; omega)
  exact ⟨p', feed_append_ok (feed_one h₁) (feed_append_ok h₂ (feed_one h')), H'⟩

/-- A row: its fields, between delimiters, and the character behind them. -/
def writtenRow (quote delim : UInt8) (r : List (List UInt8) × UInt8) : List UInt8 :=
  [delim].intercalate (r.1.map (quotedField quote)) ++ [r.2]

/-- What the callbacks get for a row. -/
def rowTokens (r : List (List UInt8) × UInt8) : List CsvToken :=
  r.1.map (fun f => .field (some f)) ++ [.row r.2.toNat]

/-- Quoted fields. -/
theorem fieldText_quoted (Q : Quotes q M) (hM : f.length + 4 ≤ M) (hdelim : c ≠ q.delimChar)
    (hterm : q.term c = true) : FieldText q c (quotedField q.quoteChar f) f := by
  intro p H
  obtain ⟨p', h', H'⟩ := H.field Q f (by omega)
  exact ⟨p', h', H'.endsField Q (by omega), fun _ => H'.endsRow Q (by omega) hdelim hterm⟩

theorem intercalate_ne_nil {sep : List UInt8} {texts : List (List UInt8)} (hne : texts ≠ [])
    (h : ∀ t ∈ texts, t ≠ []) : sep.intercalate texts ≠ [] := by
  obtain ⟨t, texts, rfl⟩ := List.exists_cons_of_ne_nil hne
  cases texts with
  | nil =>
    rw [List.intercalate_singleton]
    exact h t List.mem_cons_self
  | cons t' texts =>
    rw [List.intercalate_cons_cons, List.append_assoc]
    exact List.append_ne_nil_of_left_ne_nil (h t List.mem_cons_self) _

theorem AtStart.quotedRow (Q : Quotes q M) (H : AtStart q p) {fields : List (List UInt8)}
    (hne : fields ≠ []) (hM : ∀ f ∈ fields, f.length + 4 ≤ M) (hdelim : c ≠ q.delimChar)
    (hterm : q.term c = true) :
    ∃ p' out, feed turn (writtenRow q.quoteChar q.delimChar (fields, c)) p =
        .ok ((writtenRow q.quoteChar q.delimChar (fields, c)).length, p', out) ∧
      AtStart q p' ∧ p'.pstate = .rowNotBegun ∧ out.map CsvEvent.token = rowTokens (fields, c) := by
  have htexts : ∀ t ∈ fields.map fun f => (quotedField q.quoteChar f, f), FieldText q c t.1 t.2 := by
    intro t ht
    obtain ⟨f, hf, rfl⟩ := List.mem_map.mp ht
    exact fieldText_quoted Q (hM f hf) hdelim hterm
  have hfst : (fields.map fun f => (quotedField q.quoteChar f, f)).map Prod.fst =
      fields.map (quotedField q.quoteChar) := List.map_map ..
  have h := H.row htexts (by
    rw [hfst]
    refine intercalate_ne_nil (fun h => hne (List.map_eq_nil_iff.mp h)) fun t ht => ?_
    obtain ⟨f, -, rfl⟩ := List.mem_map.mp ht
    exact List.cons_ne_nil _ _)
  rw [hfst, List.map_map] at h
  exact h

theorem AtStart.table (Q : Quotes q M) (H : AtStart q p) (hp : p.pstate = .rowNotBegun)
    {rows : List (List (List UInt8) × UInt8)}
    (hrows : ∀ r ∈ rows, r.1 ≠ [] ∧ r.2 ≠ q.delimChar ∧ q.term r.2 = true)
    (hM : ∀ r ∈ rows, ∀ f ∈ r.1, f.length + 4 ≤ M) :
    ∃ p' out, feed turn (rows.flatMap (writtenRow q.quoteChar q.delimChar)) p =
        .ok ((rows.flatMap (writtenRow q.quoteChar q.delimChar)).length, p', out) ∧
      AtStart q p' ∧ p'.pstate = .rowNotBegun ∧
      out.map CsvEvent.token = rows.flatMap rowTokens := by
  induction rows generalizing p with
  | nil => exact ⟨p, [], rfl, H, hp, rfl⟩
  | cons r rows ih =>
    obtain ⟨hne, hdelim, hterm⟩ := hrows r List.mem_cons_self
    obtain ⟨p₁, out₁, h₁, H₁, hp₁, htokens₁⟩ :=
      H.quotedRow Q hne (hM r List.mem_cons_self) hdelim hterm
    obtain ⟨p', out', h', H', hp', htokens'⟩ := ih H₁ hp₁
      (fun r hr => hrows r (List.mem_cons_of_mem _ hr)) fun r hr => hM r (List.mem_cons_of_mem _ hr)
    refine ⟨p', out₁ ++ out', ?_, H', hp', ?_⟩
    · rw [List.flatMap_cons]
      exact feed_append_ok h₁ h'
    · rw [List.map_append, htokens₁, htokens']
      rfl

end

/-! ## The round trip -/

/-- What a program writes for a field: it asks for the size and gives a buffer of this size. -/
def written (quote : UInt8) (f : List UInt8) : List UInt8 :=
  (csvWrite2 (List.replicate (csvWrite2 [] (some f) quote).1 0) (some f) quote).2

theorem written_eq {quote : UInt8} {f : List UInt8} (hsize : 2 * f.length + 2 ≤ sizeMax) :
    written quote f = quotedField quote f := by
  have hdoubled : (doubled quote f).length ≤ 2 * f.length := by
    induction f with
    | nil => exact Nat.le_refl _
    | cons c f ih =>
      rw [List.length_cons] at hsize
      have hf := ih (by omega)
      rw [doubled] at hf
      rw [doubled, List.flatMap_cons, List.length_append, List.length_cons]
      split <;> simp only [List.length_cons, List.length_nil] <;> omega
  have hlen : (quotedField quote f).length ≤ sizeMax := by
    rw [quotedField, List.length_cons, List.length_append, List.length_singleton]
    omega
  have hask : (csvWrite2 [] (some f) quote).1 = (quotedField quote f).length := by
    rw [csvWrite2_eq (Nat.zero_le _)]
    exact Nat.min_eq_left hlen
  rw [written, hask, csvWrite2_eq (by rwa [List.length_replicate]), List.length_replicate]
  dsimp only
  rw [List.take_length, List.drop_eq_nil_of_le (by rw [List.length_replicate]), List.append_nil]

/-- A csv file: rows of fields, and the character behind each row. -/
def fileOf (quote delim : UInt8) (rows : List (List (List UInt8) × UInt8)) : List UInt8 :=
  rows.flatMap fun r => [delim].intercalate (r.1.map (written quote)) ++ [r.2]

/-- **Round trip.** A parser between rows, after any calls of the library, gets a file in any pieces. The
callbacks get the fields and rows that were written, and `csv_fini` adds nothing. -/
theorem parse_written (realloc : Realloc) (options : UInt8) {calls : List Call} {p : CsvParser} {M : Nat}
    (hcalls : Meets step Between calls (init realloc options))
    (hrun : calls.foldlM step (init realloc options) = .ok p) (hp : p.pstate = .rowNotBegun)
    (Q : Quotes p M) {rows : List (List (List UInt8) × UInt8)}
    (hrows : ∀ r ∈ rows, r.1 ≠ [] ∧ r.2 ≠ p.delimChar ∧ p.term r.2 = true)
    (hM : ∀ r ∈ rows, ∀ f ∈ r.1, f.length + 4 ≤ M ∧ 2 * f.length + 2 ≤ sizeMax)
    {pieces : List (List UInt8)} (hpieces : pieces.flatten = fileOf p.quoteChar p.delimChar rows) :
    ∃ p' out p'', p.parseAll pieces = .ok (pieces.flatten.length, p', out) ∧
      out.map CsvEvent.token = rows.flatMap rowTokens ∧ p'.fini = .ok (0, p'', []) := by
  obtain ⟨⟨p₁, hrun₁, H⟩, -⟩ := run_within realloc options calls hcalls
  cases hrun₁.symm.trans hrun
  have hfile : fileOf p.quoteChar p.delimChar rows =
      rows.flatMap (writtenRow p.quoteChar p.delimChar) := by
    refine congrArg List.flatten (List.map_congr_left fun r hr => ?_)
    rw [writtenRow, List.map_congr_left fun f hf => written_eq (hM r hr f hf).2]
  obtain ⟨p', out, hfeed, -, hp', htokens⟩ := AtStart.table Q ⟨H, Keeps.refl, .inl hp⟩ hp hrows
    fun r hr f hf => (hM r hr f hf).1
  have hfini : p'.fini = .ok (0, { p' with
      spaces := 0, quoted := false, entryPos := 0, status := .success, pstate := .rowNotBegun }, []) := by
    have hno : ¬ (p'.pstate = .fieldBegun ∧ p'.quoted ∧ p'.has csvStrict ∧ p'.has csvStrictFini) := by
      rw [hp']
      exact fun h => by cases h.1
    rw [fini, if_neg hno]
    simp only [hp']
  refine ⟨p', out, _, ?_, htokens, hfini⟩
  rw [parseAll_eq_parse H, parse_eq_feed H, hpieces, hfile]
  exact hfeed

/-- A quote and a delimiter are part of a field. -/
def quotedRows : List (List (List UInt8) × UInt8) :=
  [([[0x61, 0x22, 0x62], []], 0x0a), ([[0x78, 0x2c, 0x79]], 0x0d)]

theorem zeroed_supplies (options : UInt8) (M : Nat) : (init .zeroed options).Supplies M :=
  fun _ _ _ => rfl

theorem quotedRows_roundTrip : ∃ p' out p'',
    parseAll [(fileOf 0x22 0x2c quotedRows).take 4, (fileOf 0x22 0x2c quotedRows).drop 4]
        (init .zeroed csvAppendNull) = .ok (16, p', out) ∧
      out.map CsvEvent.token = quotedRows.flatMap rowTokens ∧ p'.fini = .ok (0, p'', []) := by
  have hpieces : [(fileOf 0x22 0x2c quotedRows).take 4, (fileOf 0x22 0x2c quotedRows).drop 4].flatten =
      fileOf 0x22 0x2c quotedRows := by decide
  have hlen : (fileOf 0x22 0x2c quotedRows).length = 16 := by decide
  have hcalls : Meets step Between [] (init .zeroed csvAppendNull) := trivial
  have hrun : ([] : List Call).foldlM step (init .zeroed csvAppendNull) =
      .ok (init .zeroed csvAppendNull) := rfl
  have Q : Quotes (init .zeroed csvAppendNull) 128 :=
    ⟨by decide, by decide, by decide, zeroed_supplies _ _, by decide, by decide⟩
  have hrows : ∀ r ∈ quotedRows, r.1 ≠ [] ∧ r.2 ≠ (init .zeroed csvAppendNull).delimChar ∧
      (init .zeroed csvAppendNull).term r.2 = true := by decide
  obtain ⟨p', out, p'', hparse, htokens, hfini⟩ :=
    parse_written .zeroed csvAppendNull hcalls hrun rfl Q hrows (by decide) hpieces
  rw [hpieces, hlen] at hparse
  exact ⟨p', out, p'', hparse, htokens, hfini⟩

end CsvParser

end C2DN.Simulator
