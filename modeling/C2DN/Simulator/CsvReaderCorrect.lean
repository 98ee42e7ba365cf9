import C2DN.Simulator.CsvPlain
import C2DN.Simulator.CsvReader

/-!
# Csv traces

A csv file is read into one request for each of its rows, with the fields of the row that the parameters
name.
-/

namespace C2DN.Simulator

/-! ## Files -/

/-- A field, which may be written with `csv_write`. -/
structure CsvField where
  quoted : Bool
  content : List UInt8

def CsvField.text (f : CsvField) : List UInt8 :=
  if f.quoted then CsvParser.written 0x22 f.content else f.content

/-- A row, with a carriage return before the line end or without. -/
structure CsvRow where
  fields : List CsvField
  cr : Bool

/-- The fields between delimiters. -/
def csvFields (delim : UInt8) (fields : List CsvField) : List UInt8 :=
  [delim].intercalate (fields.map CsvField.text)

/-- A row without its line feed. -/
def CsvRow.line (delim : UInt8) (r : CsvRow) : List UInt8 :=
  csvFields delim r.fields ++ if r.cr then [0x0d] else []

def CsvRow.text (delim : UInt8) (r : CsvRow) : List UInt8 := r.line delim ++ [0x0a]

/-- The contents of the fields. -/
def CsvRow.contents (r : CsvRow) : List (List UInt8) := r.fields.map CsvField.content

/-- The delimiter that the parser gets. -/
def CsvInitParams.delim (initParams : CsvInitParams) : UInt8 :=
  if initParams.delimiter = 0 then 0x2c else initParams.delimiter

/-- The line of the header, if there is one. -/
def headerText (initParams : CsvInitParams) (header : List UInt8) : List UInt8 :=
  if initParams.hasHeader then header ++ [0x0a] else []

/-- A file: the line of the header, and the rows. -/
def csvFile (initParams : CsvInitParams) (header : List UInt8) (rows : List CsvRow) : List UInt8 :=
  headerText initParams header ++ rows.flatMap (CsvRow.text initParams.delim)

/-- Line ends are not part of a field, and what has a meaning is quoted. -/
def CsvField.Readable (delim : UInt8) (f : CsvField) : Prop :=
  ∀ c ∈ f.content, isLineEnd c = false ∧
    (f.quoted = false → c ≠ delim ∧ c ≠ 0x22 ∧ c ≠ 0x20 ∧ c ≠ 0x09)

instance (delim : UInt8) (f : CsvField) : Decidable (f.Readable delim) :=
  List.decidableBAll (fun c => isLineEnd c = false ∧
    (f.quoted = false → c ≠ delim ∧ c ≠ 0x22 ∧ c ≠ 0x20 ∧ c ≠ 0x09)) f.content

/-- A line that is read whole and from its first character on. -/
structure ReadableLine (fields : List CsvField) (delim : UInt8) (line : List UInt8) : Prop where
  fields : ∀ f ∈ fields, f.Readable delim
  start : ∃ b, line.head? = some b ∧ isBlank b = false
  short : line.length < maxLineLen

/-- What the files of a reader have in common. -/
structure CsvFormat (realloc : Realloc) (initParams : CsvInitParams) : Prop where
  quote : initParams.delim ≠ 0x22
  lineEnd : isLineEnd initParams.delim = false
  supplies : ∀ buf size, size ≤ maxLineLen + 4 → (realloc.run buf size).isSome = true

section
variable {file pre line rest : List UInt8} {delim c : UInt8}

/-! ## Lines -/

theorem memchr_lf {size : Nat} (hline : 0x0a ∉ line) (hsize : line.length < size) :
    memchr (pre ++ (line ++ 0x0a :: rest)) pre.length 0x0a size = some (pre.length + line.length) := by
  obtain ⟨k, rfl⟩ := Nat.exists_eq_add_of_lt hsize
  have htake : (line ++ 0x0a :: rest).take (line.length + k + 1) = line ++ 0x0a :: rest.take k := by
    rw [Nat.add_assoc, List.take_length_add_append, List.take_succ_cons]
  have hnone : line.findIdx? (· == 0x0a) = none := by
    rw [List.findIdx?_eq_none_iff]
    intro b hb
    exact beq_eq_false_iff_ne.mpr fun h => hline (h ▸ hb)
  rw [memchr, List.drop_left, htake, List.findIdx?_append, hnone, List.findIdx?_cons,
    if_pos (beq_self_eq_true _)]
  exact congrArg (fun i => some (pre.length + i)) (Nat.zero_add _)

/-- A line that ends with a line feed. -/
theorem findLineEnding_lf (hline : 0x0a ∉ line) (hlen : line.length < maxLineLen)
    (hrest : ∀ b ∈ rest.head?, isBlank b = false) :
    findLineEnding (pre ++ (line ++ 0x0a :: rest)) pre.length =
      .ok (if rest = [] then ⟨true, pre.length + line.length, line.length⟩
        else ⟨false, pre.length + line.length + 1, line.length⟩) := by
  have hfile : (pre ++ (line ++ 0x0a :: rest)).length = pre.length + line.length + 1 + rest.length := by
    simp only [List.length_append, List.length_cons]
    omega
  have hdrop : (pre ++ (line ++ 0x0a :: rest)).drop (pre.length + line.length + 1) = rest := by
    rw [Nat.add_assoc, List.drop_length_add_append, List.drop_length_add_append]
    rfl
  have hskip : skipBlanks rest (pre.length + line.length) = pre.length + line.length := by
    cases rest with
    | nil => rfl
    | cons b rest => rw [skipBlanks, if_neg (by rw [hrest b rfl]; exact Bool.false_ne_true)]
  have hmem : memchr (pre ++ (line ++ 0x0a :: rest)) pre.length 0x0a
      (min maxLineLen ((pre ++ (line ++ 0x0a :: rest)).length - pre.length)) =
      some (pre.length + line.length) := memchr_lf hline (by omega)
  unfold findLineEnding
  rw [searchLineEnd]
  dsimp only
  rw [hmem]
  change Except.ok _ = _
  dsimp only
  rw [hdrop, hskip, hfile, Nat.add_sub_cancel_left]
  by_cases hnil : rest = []
  · rw [if_pos hnil, if_pos (by rw [hnil]; rfl)]
  · rw [if_neg hnil, if_neg (by have := List.length_pos_iff.mpr hnil; omega)]

end

/-! ## Settings -/

namespace CsvReader

section
variable {realloc : Realloc} {initParams : CsvInitParams} {c : UInt8}

/-- The parser of a reader between rows. -/
abbrev parserOf (realloc : Realloc) (initParams : CsvInitParams) : CsvParser :=
  freshParser realloc initParams.delimiter

theorem freshParser_eq (realloc : Realloc) (initParams : CsvInitParams) :
    parserOf realloc initParams =
      { CsvParser.init realloc csvAppendNull with delimChar := initParams.delim } := by
  unfold parserOf freshParser CsvInitParams.delim
  dsimp only
  split
  · rfl
  · next heq =>
    rw [if_pos (not_not.mp heq)]
    rfl

theorem freshParser_space : (parserOf realloc initParams).space c = (c == 0x20 || c == 0x09) := by
  rw [freshParser_eq]
  rfl

theorem freshParser_term : (parserOf realloc initParams).term c = isLineEnd c := by
  rw [freshParser_eq, isLineEnd, Bool.or_comm]
  rfl

theorem freshParser_delim : (parserOf realloc initParams).delimChar = initParams.delim := by
  rw [freshParser_eq]

theorem freshParser_quote : (parserOf realloc initParams).quoteChar = 0x22 := by
  rw [freshParser_eq]
  rfl

theorem freshParser_quotes (F : CsvFormat realloc initParams) :
    (parserOf realloc initParams).Quotes (maxLineLen + 4) where
  ne := by
    rw [freshParser_delim, freshParser_quote]
    exact F.quote.symm
  space := by
    rw [freshParser_space, freshParser_quote]
    rfl
  term := by
    rw [freshParser_term, freshParser_quote]
    rfl
  supplies := by
    rw [freshParser_eq]
    exact F.supplies
  limit := by decide
  blkSize := by
    rw [freshParser_eq]
    exact Nat.succ_pos 127

theorem freshParser_unquoted (F : CsvFormat realloc initParams) :
    (parserOf realloc initParams).Unquoted where
  null := by
    rw [freshParser_eq]
    exact (by decide : (csvAppendNull &&& csvEmptyIsNull != 0) = false)
  delim := by
    rw [freshParser_term, freshParser_delim]
    exact F.lineEnd

theorem freshParser_atStart (realloc : Realloc) (initParams : CsvInitParams) :
    (parserOf realloc initParams).AtStart (parserOf realloc initParams) where
  fits := by
    rw [freshParser_eq]
    exact ⟨Nat.zero_le _, fun h => absurd rfl h, fun _ => rfl, rfl, rfl, rfl⟩
  keeps := CsvParser.Keeps.refl
  pstate := .inl (by rw [freshParser_eq]; rfl)

end

end CsvReader

/-! ## Rows -/

section
variable {delim : UInt8} {f : CsvField} {fields : List CsvField}

theorem written_length (quote : UInt8) (f : List UInt8) :
    (CsvParser.written quote f).length = min (quotedField quote f).length sizeMax := by
  have hask : (csvWrite2 [] (some f) quote).1 = min (quotedField quote f).length sizeMax := by
    rw [csvWrite2_eq (Nat.zero_le _)]
  have hle : (csvWrite2 [] (some f) quote).1 ≤ sizeMax := by omega
  rw [CsvParser.written, csvWrite2_eq (by rwa [List.length_replicate])]
  simp only [List.length_append, List.length_take, List.length_drop, List.length_replicate]
  omega

theorem length_le_doubled (quote : UInt8) (f : List UInt8) : f.length ≤ (doubled quote f).length := by
  induction f with
  | nil => exact Nat.le_refl _
  | cons c f ih =>
    rw [doubled] at ih
    rw [doubled, List.flatMap_cons, List.length_append, List.length_cons]
    split
    · rw [List.length_cons]
      omega
    · rw [List.length_singleton]
      omega

theorem length_le_quotedField (quote : UInt8) (f : List UInt8) :
    f.length ≤ (quotedField quote f).length := by
  have := length_le_doubled quote f
  rw [quotedField, List.length_cons, List.length_append]
  omega

/-- A short text stands for a short field. -/
theorem CsvField.content_lt (h : f.text.length < maxLineLen) : f.content.length < maxLineLen := by
  unfold CsvField.text at h
  split at h
  · rw [written_length] at h
    have := length_le_quotedField 0x22 f.content
    unfold maxLineLen sizeMax at *
    omega
  · exact h

theorem length_le_intercalate {sep t : List UInt8} {texts : List (List UInt8)} (h : t ∈ texts) :
    t.length ≤ (sep.intercalate texts).length := by
  induction texts with
  | nil => exact absurd h List.not_mem_nil
  | cons t' texts ih =>
    cases texts with
    | nil =>
      obtain rfl := List.mem_singleton.mp h
      rw [List.intercalate_singleton]
    | cons t'' texts =>
      rw [List.intercalate_cons_cons, List.length_append, List.length_append]
      rcases List.mem_cons.mp h with rfl | h
      · omega
      · exact Nat.le_trans (ih h) (Nat.le_add_left _ _)

theorem CsvField.text_le (h : f ∈ fields) : f.text.length ≤ (csvFields delim fields).length :=
  length_le_intercalate (List.mem_map_of_mem h)

theorem mem_intercalate {sep : List UInt8} {texts : List (List UInt8)} {c : UInt8}
    (h : c ∈ sep.intercalate texts) : c ∈ sep ∨ ∃ t ∈ texts, c ∈ t := by
  induction texts with
  | nil => exact absurd h List.not_mem_nil
  | cons t texts ih =>
    cases texts with
    | nil =>
      rw [List.intercalate_singleton] at h
      exact .inr ⟨t, List.mem_cons_self, h⟩
    | cons t' texts =>
      rw [List.intercalate_cons_cons, List.append_assoc] at h
      obtain h | h := List.mem_append.mp h
      · exact .inr ⟨t, List.mem_cons_self, h⟩
      · obtain h | h := List.mem_append.mp h
        · exact .inl h
        · exact (ih h).imp_right fun ⟨t, ht, hc⟩ => ⟨t, List.mem_cons_of_mem _ ht, hc⟩

theorem mem_quotedField {quote c : UInt8} {f : List UInt8} (h : c ∈ quotedField quote f) :
    c = quote ∨ c ∈ f := by
  obtain rfl | h := List.mem_cons.mp h
  · exact .inl rfl
  obtain h | h := List.mem_append.mp h
  · obtain ⟨a, ha, hc⟩ := List.mem_flatMap.mp h
    split at hc
    · next heq =>
      subst heq
      obtain rfl | hc := List.mem_cons.mp hc
      · exact .inl rfl
      · exact .inl (List.mem_singleton.mp hc)
    · exact .inr (List.mem_singleton.mp hc ▸ ha)
  · exact .inl (List.mem_singleton.mp h)

theorem CsvField.text_quoted (h : f.text.length < maxLineLen) (hq : f.quoted = true) :
    f.text = quotedField 0x22 f.content := by
  have hlt := CsvField.content_lt h
  unfold CsvField.text
  rw [if_pos hq]
  refine CsvParser.written_eq ?_
  unfold maxLineLen sizeMax at *
  omega

/-- There is no line end in the fields of a row. -/
theorem csvFields_not_lineEnd (hdelim : isLineEnd delim = false)
    (hfields : ∀ f ∈ fields, f.Readable delim) (hlen : (csvFields delim fields).length < maxLineLen) :
    ∀ c ∈ csvFields delim fields, isLineEnd c = false := by
  intro c hc
  rcases mem_intercalate hc with hc | ⟨text, htext, hc⟩
  · rw [List.mem_singleton.mp hc]
    exact hdelim
  · obtain ⟨f, hf, rfl⟩ := List.mem_map.mp htext
    have hmem : c ∈ f.content ∨ c = 0x22 := by
      cases hq : f.quoted with
      | true =>
        rw [CsvField.text_quoted (Nat.lt_of_le_of_lt (CsvField.text_le hf) hlen) hq] at hc
        exact (mem_quotedField hc).symm
      | false =>
        rw [CsvField.text, hq] at hc
        exact .inl hc
    obtain hmem | rfl := hmem
    · exact (hfields f hf c hmem).1
    · rfl

end

/-! ## Parsing a row -/

namespace CsvReader
open CsvParser

section
variable {realloc : Realloc} {initParams : CsvInitParams} {p : CsvParser} {fields : List CsvField}
  {f : CsvField} {c : UInt8}

theorem isLineEnd_space (hc : isLineEnd c = true) : (parserOf realloc initParams).space c = false := by
  rw [freshParser_space]
  unfold isLineEnd at hc
  rw [Bool.or_eq_true, beq_iff_eq, beq_iff_eq] at hc
  obtain rfl | rfl := hc
  · rfl
  · rfl

theorem lineEnd_ne_delim (F : CsvFormat realloc initParams) (hc : isLineEnd c = true) :
    c ≠ (parserOf realloc initParams).delimChar := by
  rw [freshParser_delim]
  rintro rfl
  exact absurd (hc.symm.trans F.lineEnd) Bool.noConfusion

/-- The characters of an unquoted field have no meaning. -/
theorem Readable.plain (hf : f.Readable initParams.delim) (hq : f.quoted = false) :
    ∀ c ∈ f.content, (parserOf realloc initParams).Plain c := by
  intro c hc
  obtain ⟨hend, hplain⟩ := hf c hc
  obtain ⟨hdelim, hquote, hspace, htab⟩ := hplain hq
  refine ⟨?_, ?_, ?_, ?_⟩
  · rw [freshParser_space, Bool.or_eq_false_iff]
    exact ⟨beq_eq_false_iff_ne.mpr hspace, beq_eq_false_iff_ne.mpr htab⟩
  · rw [freshParser_term]
    exact hend
  · rw [freshParser_delim]
    exact hdelim
  · rw [freshParser_quote]
    exact hquote

theorem fieldText (F : CsvFormat realloc initParams) (hf : f.Readable initParams.delim)
    (hlen : f.text.length < maxLineLen) (hc : isLineEnd c = true) :
    (parserOf realloc initParams).FieldText c f.text f.content := by
  have Q := freshParser_quotes F
  have hlt := CsvField.content_lt hlen
  have hterm : (parserOf realloc initParams).term c = true := freshParser_term.trans hc
  cases hq : f.quoted with
  | true =>
    rw [CsvField.text_quoted hlen hq]
    have h := fieldText_quoted (f := f.content) Q (by omega) (lineEnd_ne_delim F hc) hterm
    rwa [freshParser_quote] at h
  | false =>
    rw [show f.text = f.content by rw [CsvField.text, hq]; rfl]
    exact fieldText_plain Q (freshParser_unquoted F) (by omega) (Readable.plain hf hq)
      (lineEnd_ne_delim F hc) (isLineEnd_space hc) hterm

/-- The texts of fields with their contents. -/
theorem map_text (fields : List CsvField) :
    (fields.map fun f => (f.text, f.content)).map Prod.fst = fields.map CsvField.text :=
  List.map_map ..

theorem fieldTexts (F : CsvFormat realloc initParams) (hfields : ∀ f ∈ fields, f.Readable initParams.delim)
    (hlen : (csvFields initParams.delim fields).length < maxLineLen) (hc : isLineEnd c = true) :
    ∀ t ∈ fields.map fun f => (f.text, f.content), (parserOf realloc initParams).FieldText c t.1 t.2 := by
  intro t ht
  obtain ⟨f, hf, rfl⟩ := List.mem_map.mp ht
  exact fieldText F (hfields f hf) (Nat.lt_of_le_of_lt (CsvField.text_le hf) hlen) hc

/-- What the callbacks get for a row. -/
def tokensOf (fields : List CsvField) (c : UInt8) : List CsvToken :=
  (fields.map CsvField.content).map (fun f => .field (some f)) ++ [.row c.toNat]

/-- A row with one character behind it. -/
theorem feed_fields (F : CsvFormat realloc initParams) (H : AtStart (parserOf realloc initParams) p)
    (hfields : ∀ f ∈ fields, f.Readable initParams.delim)
    (hlen : (csvFields initParams.delim fields).length < maxLineLen)
    (hne : csvFields initParams.delim fields ≠ []) (hc : isLineEnd c = true) :
    ∃ p' out, feed turn (csvFields initParams.delim fields ++ [c]) p =
        .ok ((csvFields initParams.delim fields ++ [c]).length, p', out) ∧
      AtStart (parserOf realloc initParams) p' ∧ p'.pstate = .rowNotBegun ∧
      out.map CsvEvent.token = tokensOf fields c := by
  have h := H.row (fieldTexts F hfields hlen hc) (by
    rw [map_text, freshParser_delim]
    exact hne)
  rw [map_text, freshParser_delim, List.map_map] at h
  rw [tokensOf, List.map_map]
  exact h

/-- The fields of a line that is short are short. -/
theorem ReadableLine.fields_short {r : CsvRow} {delim : UInt8}
    (hr : ReadableLine r.fields delim (r.line delim)) : (csvFields delim r.fields).length < maxLineLen := by
  refine Nat.lt_of_le_of_lt ?_ hr.short
  rw [CsvRow.line, List.length_append]
  exact Nat.le_add_right _ _

/-- A row of a file is handed to the parser. -/
theorem parse_row (F : CsvFormat realloc initParams) (H : AtStart (parserOf realloc initParams) p)
    {r : CsvRow}
    (hr : ReadableLine r.fields initParams.delim (r.line initParams.delim)) :
    ∃ p' out c, p.parse (r.text initParams.delim) = .ok ((r.text initParams.delim).length, p', out) ∧
      AtStart (parserOf realloc initParams) p' ∧
      out.map CsvEvent.token = tokensOf r.fields c ∧ ∀ e ∈ out, Sound csvAppendNull e := by
  have hlen := ReadableLine.fields_short hr
  have hne : csvFields initParams.delim r.fields ≠ [] := by
    intro hnil
    obtain ⟨b, hb, hblank⟩ := hr.start
    rw [CsvRow.line, hnil, List.nil_append] at hb
    split at hb
    · cases hb
      cases hblank
    · cases hb
  have hsound : ∀ {n p' out}, p.parse (r.text initParams.delim) = .ok (n, p', out) →
      ∀ e ∈ out, Sound csvAppendNull e := by
    intro n p' out hparse
    obtain ⟨n', p'', out', hparse', -, -, hout⟩ := parse_fits H.fits (r.text initParams.delim)
    cases hparse.symm.trans hparse'
    rw [H.keeps.options, freshParser_eq] at hout
    exact hout
  cases hcr : r.cr with
  | false =>
    have htext : r.text initParams.delim = csvFields initParams.delim r.fields ++ [0x0a] := by
      rw [CsvRow.text, CsvRow.line, hcr]
      exact congrArg (· ++ [0x0a]) (List.append_nil _)
    obtain ⟨p', out, hfeed, H', -, htokens⟩ := feed_fields (c := 0x0a) F H hr.fields hlen hne rfl
    rw [← htext, ← parse_eq_feed H.fits] at hfeed
    exact ⟨p', out, 0x0a, hfeed, H', htokens, hsound hfeed⟩
  | true =>
    have htext : r.text initParams.delim = csvFields initParams.delim r.fields ++ [0x0d] ++ [0x0a] := by
      rw [CsvRow.text, CsvRow.line, hcr]
      rfl
    obtain ⟨p₁, out, h₁, H₁, hp₁, htokens⟩ := feed_fields (c := 0x0d) F H hr.fields hlen hne rfl
    -- the line feed is an empty row
    obtain ⟨p', h', H', -⟩ := H₁.emptyRow (c := 0x0a) (freshParser_quotes F) hp₁ (by decide)
      (by
        rw [freshParser_eq]
        exact (by decide : (csvAppendNull &&& csvRepallNl != 0) = false))
      (isLineEnd_space rfl) (freshParser_term.trans rfl)
    have hfeed := feed_append_ok h₁ (feed_one h')
    rw [← htext, ← parse_eq_feed H.fits] at hfeed
    refine ⟨p', out ++ [], 0x0d, hfeed, H', ?_, hsound hfeed⟩
    rw [List.append_nil]
    exact htokens

end

end CsvReader

/-! ## Requests -/

/-- The field with this index. -/
def field? (fields : List (List UInt8)) (k : Int) : Option (List UInt8) :=
  if 0 ≤ k then fields[k.toNat]? else none

/-- The string in a field. -/
def stringOf (f : List UInt8) : List UInt8 := f.takeWhile (· != 0)

/-- The object id in a field. -/
def objIdOf (quark : List UInt8 → UInt64) (objIdType : ObjIdType) (f : List UInt8) : UInt64 :=
  match objIdType with
  | .num => strToObjId f
  | .str => quark (stringOf f)

section
variable (quark atof : List UInt8 → UInt64) (objIdType : ObjIdType) (initParams : CsvInitParams)

/-- The request of a row whose fields are counted from `n` on. Fields that are not there are left. -/
def rowRequest (fields : List (List UInt8)) (n : Int) (req : TraceReq) : TraceReq where
  realTime :=
    if initParams.realTimeField = initParams.objIdField then req.realTime
    else ((field? fields (initParams.realTimeField - n)).map fun f => atof (stringOf f)).getD req.realTime
  objId := ((field? fields (initParams.objIdField - n)).map (objIdOf quark objIdType)).getD req.objId
  objSize :=
    if initParams.objSizeField = initParams.objIdField ∨ initParams.objSizeField = initParams.realTimeField ∨
      initParams.objSizeField = initParams.opField then req.objSize
    else ((field? fields (initParams.objSizeField - n)).map fun f => .ofInt (atoll (stringOf f))).getD
      req.objSize
  extra1 := req.extra1
  extra2 := req.extra2
  valid := req.valid

/-- A row that no callback stops at. -/
structure Accepted (fields : List (List UInt8)) (n : Int) : Prop where
  id : objIdType = .str → ∀ f ∈ field? fields (initParams.objIdField - n), f.length < maxObjIdLen
  time : initParams.realTimeField ≠ initParams.objIdField →
    ∀ f ∈ field? fields (initParams.realTimeField - n), atof (stringOf f) < uint32Max

/-- The requests of the rows. -/
def requests (req : TraceReq) : List (List (List UInt8)) → List TraceReq
  | [] => []
  | fields :: rows =>
    let req := { rowRequest quark atof objIdType initParams fields 1 req with valid := true }
    req :: requests req rows

end

section
variable {quark atof : List UInt8 → UInt64} {objIdType : ObjIdType} {initParams : CsvInitParams}
  {f : List UInt8} {fields : List (List UInt8)} {n k : Int} {req : TraceReq}

theorem field?_cons : field? (f :: fields) (k - n) = if n = k then some f else field? fields (k - (n + 1)) := by
  unfold field?
  by_cases hnk : n = k
  · rw [if_pos hnk, if_pos (by omega), show (k - n).toNat = 0 by omega]
    rfl
  · rw [if_neg hnk]
    by_cases hlt : n < k
    · rw [if_pos (by omega), if_pos (by omega), show (k - n).toNat = (k - (n + 1)).toNat + 1 by omega]
      rfl
    · rw [if_neg (by omega), if_neg (by omega)]

theorem field?_nil : field? [] k = none := by
  unfold field?
  split
  · rfl
  · rfl

theorem field?_one : field? [f] (k - n) = if n = k then some f else none := by
  rw [field?_cons, field?_nil]

/-- The fields behind the one with the number `n` have greater numbers. -/
theorem field?_behind : field? fields (n - (n + 1)) = none := if_neg (by omega)

theorem rowRequest_nil : rowRequest quark atof objIdType initParams [] n req = req := by
  unfold rowRequest
  simp only [field?_nil, Option.map_none, Option.getD_none, ite_self]

/-- What a field with the number `n` is for. -/
theorem rowRequest_one : rowRequest quark atof objIdType initParams [f] n req =
    if n = initParams.objIdField then { req with objId := objIdOf quark objIdType f }
    else if n = initParams.realTimeField then { req with realTime := atof (stringOf f) }
    else if n = initParams.opField then req
    else if n = initParams.objSizeField then { req with objSize := .ofInt (atoll (stringOf f)) }
    else req := by
  obtain ⟨realTimeField, objIdField, objSizeField, opField, -, -⟩ := initParams
  unfold rowRequest
  simp only [field?_one]
  by_cases hid : n = objIdField
  · subst hid
    rw [if_pos rfl, if_pos rfl]
    congr 1
    · split
      · rfl
      · next hne => rw [if_neg (Ne.symm hne)]; rfl
    · split
      · rfl
      · next hne => rw [if_neg fun h => hne (.inl h.symm)]; rfl
  rw [if_neg hid, if_neg hid]
  by_cases htime : n = realTimeField
  · subst htime
    rw [if_pos rfl, if_neg hid, if_pos rfl]
    congr 1
    split
    · rfl
    · next hne => rw [if_neg fun h => hne (.inr (.inl h.symm))]; rfl
  rw [if_neg htime, if_neg htime]
  by_cases hop : n = opField
  · subst hop
    rw [if_pos rfl]
    congr 1
    · split
      · rfl
      · rfl
    · split
      · rfl
      · next hne => rw [if_neg fun h => hne (.inr (.inr h.symm))]; rfl
  rw [if_neg hop]
  by_cases hsize : n = objSizeField
  · subst hsize
    rw [if_pos rfl, if_pos rfl]
    congr 1
    · split
      · rfl
      · rfl
    · rw [if_neg fun h => h.elim hid fun h => h.elim htime hop]
      rfl
  · rw [if_neg hsize, if_neg hsize]
    congr 1
    · split
      · rfl
      · rfl
    · split
      · rfl
      · rfl

theorem rowRequest_cons : rowRequest quark atof objIdType initParams (f :: fields) n req =
    rowRequest quark atof objIdType initParams fields (n + 1)
      (rowRequest quark atof objIdType initParams [f] n req) := by
  have hget : ∀ {α : Type} (g : List UInt8 → α) (k : Int) (a : α),
      ((field? (f :: fields) (k - n)).map g).getD a =
        ((field? fields (k - (n + 1))).map g).getD (((field? [f] (k - n)).map g).getD a) := by
    intro α g k a
    rw [field?_cons, field?_one]
    by_cases hnk : n = k
    · subst hnk
      rw [if_pos rfl, if_pos rfl, field?_behind]
      rfl
    · rw [if_neg hnk, if_neg hnk]
      rfl
  unfold rowRequest
  simp only [hget]
  congr 1
  · split
    · rfl
    · rfl
  · split
    · rfl
    · rfl

theorem Accepted.head (h : Accepted atof objIdType initParams (f :: fields) n) :
    Accepted atof objIdType initParams [f] n := by
  have hmem : ∀ {k : Int} {g}, g ∈ field? [f] (k - n) → g ∈ field? (f :: fields) (k - n) := by
    intro k g hg
    rw [field?_one] at hg
    rw [field?_cons]
    split at hg
    · next hnk => rwa [if_pos hnk]
    · cases hg
  exact ⟨fun hstr g hg => h.id hstr g (hmem hg), fun hne g hg => h.time hne g (hmem hg)⟩

theorem Accepted.tail (h : Accepted atof objIdType initParams (f :: fields) n) :
    Accepted atof objIdType initParams fields (n + 1) := by
  refine ⟨fun hstr g hg => h.id hstr g ?_, fun hne g hg => h.time hne g ?_⟩
  · rw [field?_cons, if_neg (by rintro rfl; rw [field?_behind] at hg; cases hg)]
    exact hg
  · rw [field?_cons, if_neg (by rintro rfl; rw [field?_behind] at hg; cases hg)]
    exact hg

end

/-! ## Callbacks -/

namespace CsvReader
open CsvParser

section
variable {quark atof : List UInt8 → UInt64} {reader : CsvReader} {st : CsvRowState} {f : List UInt8}
  {fields : List (List UInt8)} {out : List CsvEvent}

/-- The string in a buffer with the null character behind the field. -/
theorem cString_eq {buf : List UInt8} {len : Nat} (hnull : buf[len]? = some 0) :
    cString buf = .ok (stringOf (buf.take len)) := by
  obtain ⟨hlt, hget⟩ := List.getElem?_eq_some_iff.mp hnull
  have hbuf : buf = buf.take len ++ 0 :: buf.drop (len + 1) := by
    rw [← hget, ← List.drop_eq_getElem_cons hlt, List.take_append_drop]
  have htake : ∀ f rest : List UInt8, (f ++ 0 :: rest).takeWhile (· != 0) = f.takeWhile (· != 0) := by
    intro f rest
    induction f with
    | nil => rfl
    | cons c f ih =>
      rw [List.cons_append, List.takeWhile_cons, List.takeWhile_cons, ih]
  rw [cString, if_pos (List.mem_of_getElem? hnull)]
  exact congrArg Except.ok ((congrArg _ hbuf).trans (htake _ _))

theorem csvObjId_eq {objIdType : ObjIdType} (h : objIdType = .str → f.length < maxObjIdLen) :
    csvObjId quark objIdType f = .ok (objIdOf quark objIdType f) := by
  cases objIdType with
  | num => rfl
  | str => exact if_neg (Nat.not_le.mpr (h rfl))

/-- A field is handed over. -/
theorem callback_field {e : CsvEvent} (htoken : e.token = .field (some f)) (hsound : Sound csvAppendNull e)
    (hacc : Accepted atof reader.objIdType reader.initParams [f] st.currentFieldCounter) :
    reader.callback quark atof st e = .ok ⟨st.currentFieldCounter + 1,
      st.alreadyGotReq || decide (st.currentFieldCounter = reader.initParams.objIdField),
      rowRequest quark atof reader.objIdType reader.initParams [f] st.currentFieldCounter st.req⟩ := by
  obtain ⟨buf, len, rfl, rfl⟩ : ∃ buf len, e = .field (some buf) len ∧ buf.take len = f := by
    cases e with
    | row c => cases htoken
    | field s len =>
      cases s with
      | none => cases htoken
      | some buf => exact ⟨buf, len, rfl, Option.some.inj (CsvToken.field.inj htoken)⟩
  have hstring := cString_eq (hsound.2 (by decide))
  rw [rowRequest_one]
  unfold callback cb1
  dsimp only [Except.bind]
  by_cases hid : st.currentFieldCounter = reader.initParams.objIdField
  · have hobj : csvObjId quark reader.objIdType (buf.take len) =
        .ok (objIdOf quark reader.objIdType (buf.take len)) :=
      csvObjId_eq fun hstr => hacc.id hstr (buf.take len) (by
        rw [field?_one, if_pos hid]
        rfl)
    rw [if_pos hid, if_pos hid, hobj, decide_eq_true hid, Bool.or_true]
    rfl
  rw [if_neg hid, if_neg hid, decide_eq_false hid, Bool.or_false]
  by_cases htime : st.currentFieldCounter = reader.initParams.realTimeField
  · have hts := hacc.time (fun h => hid (htime.trans h)) (buf.take len) (by
      rw [field?_one, if_pos htime]
      rfl)
    rw [if_pos htime, if_pos htime, hstring]
    exact if_pos hts
  rw [if_neg htime, if_neg htime]
  by_cases hop : st.currentFieldCounter = reader.initParams.opField
  · rw [if_pos hop, if_pos hop]
  rw [if_neg hop, if_neg hop]
  by_cases hsize : st.currentFieldCounter = reader.initParams.objSizeField
  · rw [if_pos hsize, if_pos hsize, hstring]
    rfl
  · rw [if_neg hsize, if_neg hsize]

/-- The fields of a row are handed over. -/
theorem callbacks_fields {contents : List (List UInt8)}
    (htokens : out.map CsvEvent.token = contents.map fun f => .field (some f))
    (hsound : ∀ e ∈ out, Sound csvAppendNull e)
    (hacc : Accepted atof reader.objIdType reader.initParams contents st.currentFieldCounter) :
    reader.callbacks quark atof out st = .ok ⟨st.currentFieldCounter + contents.length,
      st.alreadyGotReq ||
        (field? contents (reader.initParams.objIdField - st.currentFieldCounter)).isSome,
      rowRequest quark atof reader.objIdType reader.initParams contents st.currentFieldCounter st.req⟩ := by
  induction contents generalizing out st with
  | nil =>
    rw [List.map_nil, List.map_eq_nil_iff] at htokens
    rw [htokens, field?_nil, rowRequest_nil, Option.isSome_none, Bool.or_false, List.length_nil]
    refine congrArg Except.ok ?_
    rw [Nat.cast_zero, Int.add_zero]
  | cons f contents ih =>
    obtain ⟨e, out, rfl, he, hout⟩ := List.map_eq_cons_iff.mp htokens
    rw [callbacks, foldlM_cons_ok (callback_field he (hsound e List.mem_cons_self) hacc.head)]
    refine (ih hout (fun e he => hsound e (List.mem_cons_of_mem _ he)) hacc.tail).trans ?_
    rw [field?_cons]
    refine congrArg Except.ok (CsvRowState.mk.injEq .. ▸ ⟨?_, ?_, rowRequest_cons.symm⟩)
    · rw [List.length_cons]
      push_cast
      omega
    · dsimp only
      by_cases hid : st.currentFieldCounter = reader.initParams.objIdField
      · rw [decide_eq_true hid, if_pos hid, Bool.or_true, Option.isSome_some, Bool.or_true, Bool.true_or]
      · rw [decide_eq_false hid, if_neg hid, Bool.or_false]

/-- A row is handed over. -/
theorem callbacks_row {r : CsvRow} {c : UInt8} (htokens : out.map CsvEvent.token = tokensOf r.fields c)
    (hsound : ∀ e ∈ out, Sound csvAppendNull e)
    (hacc : Accepted atof reader.objIdType reader.initParams r.contents st.currentFieldCounter) :
    reader.callbacks quark atof out st = .ok ⟨1, st.alreadyGotReq ||
        (field? r.contents (reader.initParams.objIdField - st.currentFieldCounter)).isSome,
      rowRequest quark atof reader.objIdType reader.initParams r.contents st.currentFieldCounter
        st.req⟩ := by
  obtain ⟨out₁, out₂, rfl, h₁, h₂⟩ := List.map_eq_append_iff.mp htokens
  obtain ⟨e, rfl, he⟩ := List.map_eq_singleton_iff.mp h₂
  have hfields : reader.callbacks quark atof out₁ st = .ok _ :=
    callbacks_fields h₁ (fun e he => hsound e (List.mem_append_left _ he)) hacc
  rw [callbacks, foldlM_concat hfields]
  cases e with
  | field s len => cases he
  | row c => rfl

/-! ## Reading a row -/

/-- A line that is parsed and has an object id. -/
theorem readOneElement_ok {e : LineEnding} {line : List UInt8} {n : Nat} {p : CsvParser} {req : TraceReq}
    (hend : reader.readerEnd = false)
    (he : findLineEnding reader.mappedFile reader.mmapOffset = .ok e)
    (hline : reader.mapped (e.lineLen + 1) = .ok line)
    (hparse : reader.csvParser.parse line = .ok (n, p, out))
    (hst : reader.callbacks quark atof out ⟨reader.currentFieldCounter, false, req⟩ = .ok st)
    (hgot : st.alreadyGotReq = true) :
    reader.readOneElement quark atof req = .ok ({ reader with
      csvParser := p, currentFieldCounter := st.currentFieldCounter, mmapOffset := e.lineEnd
      readerEnd := e.atEnd }, st.req) := by
  simp only [readOneElement, hend, he, hline, hparse, ofParser, hst, hgot, Except.mapError, bind,
    Except.bind, if_true, Bool.false_eq_true, if_false]

/-- A text in the mapping. -/
theorem mapped_text {pre text rest : List UInt8} (hmapping : mapping reader.mappedFile = pre ++ (text ++ rest))
    (hoffset : reader.mmapOffset = pre.length) : reader.mapped text.length = .ok text := by
  rw [mapped, hmapping, hoffset, List.drop_left, List.take_left, if_pos]
  rw [List.length_append, List.length_append]
  omega

variable {realloc : Realloc} {initParams : CsvInitParams} {r : CsvRow} {rows : List CsvRow}
  {pre rest : List UInt8} {req : TraceReq}

theorem lf_not_mem_line (F : CsvFormat realloc initParams)
    (hr : ReadableLine r.fields initParams.delim (r.line initParams.delim)) :
    0x0a ∉ r.line initParams.delim := by
  intro hmem
  rw [CsvRow.line] at hmem
  obtain hmem | hmem := List.mem_append.mp hmem
  · exact absurd (csvFields_not_lineEnd F.lineEnd hr.fields (ReadableLine.fields_short hr) _ hmem) (by decide)
  · split at hmem
    · exact absurd (List.mem_singleton.mp hmem) (by decide)
    · exact absurd hmem List.not_mem_nil

theorem length_text (r : CsvRow) (delim : UInt8) : (r.text delim).length = (r.line delim).length + 1 :=
  List.length_append

theorem mapped_row {delim : UInt8} (hfile : reader.mappedFile = pre ++ (r.text delim ++ rest))
    (hoffset : reader.mmapOffset = pre.length) :
    reader.mapped ((r.line delim).length + 1) = .ok (r.text delim) := by
  obtain ⟨zeros, hzeros⟩ : ∃ zeros, mapping reader.mappedFile = pre ++ (r.text delim ++ (rest ++ zeros)) := by
    refine ⟨List.replicate ((pageSize - reader.mappedFile.length % pageSize) % pageSize) 0, ?_⟩
    rw [mapping, hfile, List.append_assoc, List.append_assoc]
  rw [← length_text]
  exact mapped_text hzeros hoffset

/-- The line end of a row. -/
theorem findLineEnding_row (F : CsvFormat realloc initParams) (pre : List UInt8)
    (hr : ReadableLine r.fields initParams.delim (r.line initParams.delim))
    (hrest : ∀ b ∈ rest.head?, isBlank b = false) :
    findLineEnding (pre ++ (r.text initParams.delim ++ rest)) pre.length =
      .ok (if rest = [] then
          ⟨true, pre.length + (r.line initParams.delim).length, (r.line initParams.delim).length⟩
        else
          ⟨false, pre.length + (r.line initParams.delim).length + 1, (r.line initParams.delim).length⟩) := by
  rw [CsvRow.text, List.append_assoc, List.singleton_append]
  exact findLineEnding_lf (lf_not_mem_line F hr) hr.short hrest

/-- A row is not skipped. -/
theorem head_rows (hrows : ∀ r ∈ rows, ReadableLine r.fields initParams.delim (r.line initParams.delim))
    (hrest : ∀ b ∈ rest.head?, isBlank b = false) :
    ∀ b ∈ (rows.flatMap (CsvRow.text initParams.delim) ++ rest).head?, isBlank b = false := by
  cases rows with
  | nil => exact hrest
  | cons r rows =>
    obtain ⟨b, hb, hblank⟩ := (hrows r List.mem_cons_self).start
    intro b' hb'
    rw [List.flatMap_cons, CsvRow.text, List.append_assoc, List.append_assoc, List.head?_append, hb] at hb'
    cases hb'
    exact hblank

theorem text_append_ne_nil (r : CsvRow) (delim : UInt8) (rest : List UInt8) :
    r.text delim ++ rest ≠ [] := by
  rw [CsvRow.text, List.append_assoc]
  exact List.append_ne_nil_of_right_ne_nil _ (List.cons_ne_nil _ _)

/-- A row that is read becomes a request. -/
theorem readOneReq_row (quark : List UInt8 → UInt64) (req : TraceReq)
    (F : CsvFormat realloc reader.initParams)
    (H : AtStart (parserOf realloc reader.initParams) reader.csvParser)
    (hfile : reader.mappedFile = pre ++ (r.text reader.initParams.delim ++ rest))
    (hoffset : reader.mmapOffset = pre.length) (hend : reader.readerEnd = false)
    (hcounter : reader.currentFieldCounter = 1)
    (hr : ReadableLine r.fields reader.initParams.delim (r.line reader.initParams.delim))
    (hrest : ∀ b ∈ rest.head?, isBlank b = false)
    (hacc : Accepted atof reader.objIdType reader.initParams r.contents 1)
    (hid : (field? r.contents (reader.initParams.objIdField - 1)).isSome = true) :
    ∃ p o, reader.readOneReq quark atof req = .ok ({ reader with
        csvParser := p, mmapOffset := o, readerEnd := decide (rest = []) },
        { rowRequest quark atof reader.objIdType reader.initParams r.contents 1 req with valid := true }) ∧
      AtStart (parserOf realloc reader.initParams) p ∧
      (rest ≠ [] → o = (pre ++ r.text reader.initParams.delim).length) := by
  have hfind := findLineEnding_row F pre hr hrest
  rw [← hfile, ← hoffset] at hfind
  obtain ⟨p, out, c, hparse, H', htokens, hsound⟩ := parse_row F H hr
  have hst : reader.callbacks quark atof out
      ⟨reader.currentFieldCounter, false, { req with valid := true }⟩ = .ok _ :=
    callbacks_row htokens hsound (by rw [hcounter]; exact hacc)
  have hgot : (false || (field? r.contents
      (reader.initParams.objIdField - reader.currentFieldCounter)).isSome) = true := by
    rw [hcounter, hid]
    rfl
  have hlen : (pre ++ r.text reader.initParams.delim).length =
      reader.mmapOffset + (r.line reader.initParams.delim).length + 1 := by
    rw [hoffset, List.length_append, length_text]
    rfl
  have hread : ∀ e : LineEnding, e.lineLen = (r.line reader.initParams.delim).length →
      findLineEnding reader.mappedFile reader.mmapOffset = .ok e →
      reader.readOneReq quark atof req = .ok ({ reader with
        csvParser := p, mmapOffset := e.lineEnd, readerEnd := e.atEnd },
        { rowRequest quark atof reader.objIdType reader.initParams r.contents 1 req with
          valid := true }) := by
    intro e hlineLen he
    have hline : reader.mapped (e.lineLen + 1) = .ok (r.text reader.initParams.delim) := by
      rw [hlineLen]
      exact mapped_row hfile hoffset
    refine (readOneElement_ok hend he hline hparse hst hgot).trans ?_
    rw [hcounter]
    rfl
  by_cases hnil : rest = []
  · rw [if_pos hnil] at hfind
    refine ⟨p, reader.mmapOffset + (r.line reader.initParams.delim).length,
      (hread _ rfl hfind).trans ?_, H', fun h => absurd hnil h⟩
    rw [decide_eq_true hnil]
  · rw [if_neg hnil] at hfind
    refine ⟨p, reader.mmapOffset + (r.line reader.initParams.delim).length + 1,
      (hread _ rfl hfind).trans ?_, H', fun _ => hlen.symm⟩
    rw [decide_eq_false hnil]

/-- The rows in front of the bytes `rest` are read. -/
theorem readAll_rest (quark : List UInt8 → UInt64) (reader : CsvReader) (pre : List UInt8)
    (req : TraceReq) (F : CsvFormat realloc reader.initParams)
    (H : AtStart (parserOf realloc reader.initParams) reader.csvParser)
    (hfile : reader.mappedFile = pre ++ (rows.flatMap (CsvRow.text reader.initParams.delim) ++ rest))
    (hoffset : rows.flatMap (CsvRow.text reader.initParams.delim) ++ rest ≠ [] →
      reader.mmapOffset = pre.length)
    (hend : reader.readerEnd = decide (rows.flatMap (CsvRow.text reader.initParams.delim) ++ rest = []))
    (hcounter : reader.currentFieldCounter = 1) (hrest : ∀ b ∈ rest.head?, isBlank b = false)
    (hrows : ∀ r ∈ rows, ReadableLine r.fields reader.initParams.delim (r.line reader.initParams.delim))
    (hacc : ∀ r ∈ rows, Accepted atof reader.objIdType reader.initParams r.contents 1)
    (hid : ∀ r ∈ rows, (field? r.contents (reader.initParams.objIdField - 1)).isSome = true) :
    ∃ p o, (∀ fuel, reader.readAll quark atof (fuel + rows.length) req =
        (readAll quark atof fuel { reader with
            csvParser := p, mmapOffset := o, readerEnd := decide (rest = []) }
          ((requests quark atof reader.objIdType reader.initParams req
            (rows.map CsvRow.contents)).getLastD req)).map fun x =>
          (requests quark atof reader.objIdType reader.initParams req (rows.map CsvRow.contents) ++ x.1,
            x.2)) ∧
      AtStart (parserOf realloc reader.initParams) p ∧
      (rest ≠ [] →
        o = (pre ++ rows.flatMap (CsvRow.text reader.initParams.delim)).length) := by
  induction rows generalizing reader pre req with
  | nil =>
    have hreader : { reader with readerEnd := decide (rest = []) } = reader := by
      rw [show decide (rest = []) = reader.readerEnd from hend.symm]
    refine ⟨reader.csvParser, reader.mmapOffset, fun fuel => ?_, H, fun hne => ?_⟩
    · refine Eq.trans ?_ (congrArg (fun x => Except.map _ (readAll quark atof fuel x req)) hreader.symm)
      rw [List.length_nil, Nat.add_zero, List.map_nil, requests]
      cases readAll quark atof fuel reader req with
      | error e => rfl
      | ok x => rfl
    · rw [List.flatMap_nil, List.append_nil]
      exact hoffset hne
  | cons r rows ih =>
    rw [List.flatMap_cons, List.append_assoc] at hfile hoffset hend
    have hrows' := fun r hr => hrows r (List.mem_cons_of_mem _ hr)
    obtain ⟨p, o, hread, H', ho⟩ := readOneReq_row quark req F H hfile
      (hoffset (text_append_ne_nil _ _ _)) (hend.trans (decide_eq_false (text_append_ne_nil _ _ _)))
      hcounter (hrows r List.mem_cons_self) (head_rows hrows' hrest) (hacc r List.mem_cons_self)
      (hid r List.mem_cons_self)
    obtain ⟨p', o', hall, H'', ho'⟩ := ih { reader with
        csvParser := p, mmapOffset := o
        readerEnd := decide (rows.flatMap (CsvRow.text reader.initParams.delim) ++ rest = []) }
      (pre ++ r.text reader.initParams.delim)
      { rowRequest quark atof reader.objIdType reader.initParams r.contents 1 req with valid := true }
      F H' (hfile.trans (List.append_assoc ..).symm) ho rfl hcounter hrows'
      (fun r hr => hacc r (List.mem_cons_of_mem _ hr)) (fun r hr => hid r (List.mem_cons_of_mem _ hr))
    refine ⟨p', o', fun fuel => ?_, H'', fun hne => ?_⟩
    · rw [List.length_cons, ← Nat.add_assoc, readAll, hread]
      refine (congrArg (Except.map _) (hall fuel)).trans ?_
      rw [List.map_cons, requests, List.getLastD_cons]
      cases readAll quark atof fuel _ _ with
      | error e => rfl
      | ok x => rfl
    · rw [ho' hne, List.flatMap_cons, List.append_assoc]

/-- Nothing is left to read. -/
theorem readAll_end (quark atof : List UInt8 → UInt64) (hend : reader.readerEnd = true) (fuel : Nat)
    (req : TraceReq) : reader.readAll quark atof (fuel + 1) req = .ok ([], reader) := by
  rw [readAll, readOneReq, readOneElement, if_pos hend]
  rfl

/-- The lines of a file whose rows are in front of the bytes `rest`. -/
theorem lines_rows (pre : List UInt8) (F : CsvFormat realloc initParams)
    (hrows : ∀ r ∈ rows, ReadableLine r.fields initParams.delim (r.line initParams.delim))
    (hrest : ∀ b ∈ rest.head?, isBlank b = false) (hne : rows ≠ [] ∨ rest ≠ [])
    (hlast : rest ≠ [] → ∀ pre, ∃ l, Lines (pre ++ rest) pre.length [(pre.length, l)]) :
    ∃ ls, Lines (pre ++ (rows.flatMap (CsvRow.text initParams.delim) ++ rest)) pre.length ls ∧
      ls.length = rows.length + if rest = [] then 0 else 1 := by
  induction rows generalizing pre with
  | nil =>
    have hne := hne.resolve_left fun h => h rfl
    obtain ⟨l, hl⟩ := hlast hne pre
    rw [if_neg hne]
    exact ⟨_, hl, rfl⟩
  | cons r rows ih =>
    have hr := hrows r List.mem_cons_self
    have hrows' := fun r hr => hrows r (List.mem_cons_of_mem _ hr)
    have hfind := findLineEnding_row F pre hr (head_rows hrows' hrest)
    rw [List.flatMap_cons, List.append_assoc]
    by_cases hnil : rows.flatMap (CsvRow.text initParams.delim) ++ rest = []
    · obtain ⟨hrowsNil, rfl⟩ := List.append_eq_nil_iff.mp hnil
      have hlen : rows = [] := by
        cases rows with
        | nil => rfl
        | cons r rows =>
          rw [List.flatMap_cons] at hrowsNil
          exact absurd hrowsNil (text_append_ne_nil _ _ _)
      rw [if_pos hnil] at hfind
      refine ⟨_, .last hfind, ?_⟩
      rw [hlen]
      rfl
    · rw [if_neg hnil] at hfind
      obtain ⟨ls, hls, hlen⟩ := ih (pre ++ r.text initParams.delim) hrows' (by
        by_contra hnone
        obtain ⟨h₁, h₂⟩ := not_or.mp hnone
        rw [not_not.mp h₁, not_not.mp h₂] at hnil
        exact hnil rfl)
      refine ⟨_, .next hfind (?_ : Lines _ _ ls), ?_⟩
      · rw [List.append_assoc, List.length_append, length_text] at hls
        exact hls
      · rw [List.length_cons, List.length_cons, hlen]
        omega

/-! ## The header -/

variable {objIdType : ObjIdType} {header : List UInt8}

/-- A reader before the rows. -/
def atRows (realloc : Realloc) (file : List UInt8) (objIdType : ObjIdType) (initParams : CsvInitParams)
    (header : List UInt8) : CsvReader :=
  ⟨file, if initParams.hasHeader then header.length + 1 else 0, objIdType, initParams,
    initParams.hasHeader, initParams.delimiter, parserOf realloc initParams, 1, false⟩

theorem length_headerText (initParams : CsvInitParams) (header : List UInt8) :
    (headerText initParams header).length = if initParams.hasHeader then header.length + 1 else 0 := by
  unfold headerText
  split
  · rw [List.length_append]
    rfl
  · rfl

theorem find_header (hheader : 0x0a ∉ header) (hlen : header.length < maxLineLen) (hne : rest ≠ [])
    (hrest : ∀ b ∈ rest.head?, isBlank b = false) (hhas : initParams.hasHeader = true) :
    findLineEnding (headerText initParams header ++ rest) 0 =
      .ok ⟨false, header.length + 1, header.length⟩ := by
  have hfind : findLineEnding ([] ++ (header ++ 0x0a :: rest)) ([] : List UInt8).length = .ok _ :=
    findLineEnding_lf hheader hlen hrest
  rw [if_neg hne, List.nil_append, List.length_nil, Nat.zero_add] at hfind
  rw [headerText, if_pos hhas, List.append_assoc]
  exact hfind

theorem setup_eq (hheader : 0x0a ∉ header) (hlen : header.length < maxLineLen) (hne : rest ≠ [])
    (hrest : ∀ b ∈ rest.head?, isBlank b = false) :
    setup realloc (headerText initParams header ++ rest) objIdType initParams =
      .ok (atRows realloc (headerText initParams header ++ rest) objIdType initParams header) := by
  unfold setup
  cases hhas : initParams.hasHeader with
  | false =>
    unfold atRows
    rw [hhas]
    rfl
  | true =>
    have hfind := find_header hheader hlen hne hrest hhas
    unfold atRows skipHeader
    dsimp only
    rw [hfind, hhas]
    rfl

/-- `reset_reader` leaves the counter of the fields. -/
theorem reset_eq (hheader : 0x0a ∉ header) (hlen : header.length < maxLineLen) (hne : rest ≠ [])
    (hrest : ∀ b ∈ rest.head?, isBlank b = false)
    {p : CsvParser} (hp : p.reallocFunc = realloc) (o : Nat) (b : Bool) (n : Int) :
    reset { atRows realloc (headerText initParams header ++ rest) objIdType initParams header with
        csvParser := p, mmapOffset := o, readerEnd := b, currentFieldCounter := n } =
      .ok { atRows realloc (headerText initParams header ++ rest) objIdType initParams header with
        currentFieldCounter := n } := by
  unfold reset atRows
  dsimp only
  rw [hp]
  cases hhas : initParams.hasHeader with
  | false => rfl
  | true =>
    have hfind := find_header hheader hlen hne hrest hhas
    unfold skipHeader
    dsimp only
    rw [hfind]
    rfl

/-- The count of `get_num_of_req` from the lines behind the header. -/
theorem getNumOfReq_eq (hheader : 0x0a ∉ header) (hlen : header.length < maxLineLen) (hne : rest ≠ [])
    (hrest : ∀ b ∈ rest.head?, isBlank b = false) {ls : List (Nat × Nat)}
    (hls : Lines (headerText initParams header ++ rest) (headerText initParams header).length ls) :
    ∃ fuel, getNumOfReq fuel
      (atRows realloc (headerText initParams header ++ rest) objIdType initParams header) =
        .ok ls.length := by
  rw [length_headerText] at hls
  unfold getNumOfReq atRows
  dsimp only
  cases hhas : initParams.hasHeader with
  | false =>
    rw [hhas] at hls
    obtain ⟨fuel, hcount⟩ := countLines_eq hls 0
    refine ⟨fuel, ?_⟩
    rw [show countLines (headerText initParams header ++ rest) fuel 0 0 = _ from hcount, Nat.zero_add]
    rfl
  | true =>
    rw [hhas] at hls
    obtain ⟨fuel, hcount⟩ := countLines_eq (Lines.next (find_header hheader hlen hne hrest hhas) hls) 0
    refine ⟨fuel, ?_⟩
    rw [hcount, List.length_cons, Nat.zero_add]
    rfl

/-- **A csv trace.** After setup a reader delivers one request for each row, in their order; as many as
`get_num_of_req` counts. After `reset_reader` it is as it was after setup. -/
theorem readAll_rows (quark atof : List UInt8 → UInt64) (objIdType : ObjIdType)
    (F : CsvFormat realloc initParams) (hheader : 0x0a ∉ header) (hlen : header.length < maxLineLen)
    (hne : rows ≠ [])
    (hrows : ∀ r ∈ rows, ReadableLine r.fields initParams.delim (r.line initParams.delim))
    (hacc : ∀ r ∈ rows, Accepted atof objIdType initParams r.contents 1)
    (hid : ∀ r ∈ rows, (field? r.contents (initParams.objIdField - 1)).isSome = true) (req : TraceReq) :
    ∃ reader reader', setup realloc (csvFile initParams header rows) objIdType initParams = .ok reader ∧
      (∀ fuel, rows.length < fuel → reader.readAll quark atof fuel req =
        .ok (requests quark atof objIdType initParams req (rows.map CsvRow.contents), reader')) ∧
      (∃ fuel, reader.getNumOfReq fuel = .ok rows.length) ∧ reader'.reset = .ok reader := by
  have hfile : csvFile initParams header rows = headerText initParams header ++
      (rows.flatMap (CsvRow.text initParams.delim) ++ []) := by
    rw [List.append_nil]
    rfl
  have hnone : ∀ b ∈ ([] : List UInt8).head?, isBlank b = false := by
    intro b hb
    cases hb
  have hhead := head_rows hrows hnone
  have hnil : rows.flatMap (CsvRow.text initParams.delim) ++ [] ≠ [] := by
    obtain ⟨r, rows, rfl⟩ := List.exists_cons_of_ne_nil hne
    rw [List.flatMap_cons, List.append_assoc]
    exact text_append_ne_nil _ _ _
  rw [hfile]
  obtain ⟨p, o, hread, H, -⟩ := readAll_rest quark
    (atRows realloc (headerText initParams header ++
      (rows.flatMap (CsvRow.text initParams.delim) ++ [])) objIdType initParams header)
    (headerText initParams header) req F (freshParser_atStart realloc initParams) rfl
    (fun _ => (length_headerText initParams header).symm) (decide_eq_false hnil).symm rfl hnone hrows hacc hid
  obtain ⟨ls, hls, hlength⟩ := lines_rows (headerText initParams header) F hrows hnone (.inl hne)
    fun h => absurd rfl h
  have hp : p.reallocFunc = realloc := by
    rw [H.keeps.reallocFunc, freshParser_eq]
    rfl
  refine ⟨_, _, setup_eq hheader hlen hnil hhead, fun fuel hfuel => ?_, ?_,
    reset_eq hheader hlen hnil hhead hp o true 1⟩
  · obtain ⟨fuel, rfl⟩ := Nat.exists_eq_add_of_lt hfuel
    rw [show rows.length + fuel + 1 = fuel + 1 + rows.length by omega, hread,
      readAll_end quark atof rfl]
    exact congrArg Except.ok (Prod.ext (List.append_nil _) rfl)
  · rw [if_pos rfl, Nat.add_zero] at hlength
    rw [← hlength]
    exact getNumOfReq_eq hheader hlen hnil hhead hls

end

/-- A time, an object id and a size. -/
def threeFields : CsvInitParams := ⟨1, 2, 3, 0, true, 0x2c⟩

/-- `1,7,5` with a carriage return, and `2,"8",6`. -/
def threeFieldRows : List CsvRow :=
  [⟨[⟨false, [0x31]⟩, ⟨false, [0x37]⟩, ⟨false, [0x35]⟩], true⟩,
    ⟨[⟨false, [0x32]⟩, ⟨true, [0x38]⟩, ⟨false, [0x36]⟩], false⟩]

/-- Both rows behind the header `t,id,size` are read. -/
theorem threeFields_read :
    ∃ reader reader', setup .zeroed
        (csvFile threeFields [0x74, 0x2c, 0x69, 0x64, 0x2c, 0x73, 0x69, 0x7a, 0x65] threeFieldRows)
        .num threeFields = .ok reader ∧
      (∀ fuel, 2 < fuel →
        reader.readAll (fun _ => 0) (fun s => .ofNat (leadingNat s)) fuel ⟨0, 0, 0, 0, 0, true⟩ =
          .ok ([⟨1, 7, 5, 0, 0, true⟩, ⟨2, 8, 6, 0, 0, true⟩], reader')) ∧
      (∃ fuel, reader.getNumOfReq fuel = .ok 2) ∧ reader'.reset = .ok reader := by
  have hreadable : ∀ r ∈ threeFieldRows,
      ReadableLine r.fields threeFields.delim (r.line threeFields.delim) := by
    intro r hr
    simp only [threeFieldRows, List.mem_cons, List.not_mem_nil, or_false] at hr
    rcases hr with rfl | rfl
    · exact ⟨by decide, ⟨0x31, by decide⟩, by decide⟩
    · exact ⟨by decide, ⟨0x32, by decide⟩, by decide⟩
  have haccepted : ∀ r ∈ threeFieldRows,
      Accepted (fun s => .ofNat (leadingNat s)) .num threeFields r.contents 1 := by
    intro r hr
    simp only [threeFieldRows, List.mem_cons, List.not_mem_nil, or_false] at hr
    rcases hr with rfl | rfl
    · exact ⟨fun h => ObjIdType.noConfusion h, fun _ => by decide⟩
    · exact ⟨fun h => ObjIdType.noConfusion h, fun _ => by decide⟩
  have hformat : CsvFormat .zeroed threeFields := ⟨by decide, by decide, fun _ _ _ => rfl⟩
  exact readAll_rows (fun _ => 0) (fun s => .ofNat (leadingNat s)) .num hformat (by decide) (by decide)
    (by decide) hreadable haccepted (by decide) ⟨0, 0, 0, 0, 0, true⟩

end CsvReader

end C2DN.Simulator
