import C2DN.Simulator.CsvReaderCorrect

/-!
# A last line without an end

In place of the missing line end the parser gets a null character of the mapping, and the last field is
not handed over before `csv_fini`, which is called only while there is no object id. So the last request
keeps the last field of the request before. `csv_reset_reader` leaves the counter of the fields, so that
the first row behind it is counted from where the last line has stopped.
-/

namespace C2DN.Simulator

section
variable {file pre line : List UInt8} {offset size : Nat} {c : UInt8}

theorem memchr_eq_none (h : ∀ b ∈ file.drop offset, b ≠ c) : memchr file offset c size = none := by
  rw [memchr, Option.map_eq_none_iff, List.findIdx?_eq_none_iff]
  intro b hb
  exact beq_eq_false_iff_ne.mpr (h b (List.mem_of_mem_take hb))

/-- The end of the file is the end of the last line. -/
theorem findLineEnding_open (hline : ∀ b ∈ line, isLineEnd b = false) (hlen : line.length < maxLineLen) :
    findLineEnding (pre ++ line) pre.length = .ok ⟨true, (pre ++ line).length, line.length⟩ := by
  have hnone : ∀ c size, isLineEnd c = true → memchr (pre ++ line) pre.length c size = none := by
    intro c size hc
    refine memchr_eq_none fun b hb => ?_
    rw [List.drop_left] at hb
    rintro rfl
    exact absurd ((hline b hb).symm.trans hc) Bool.noConfusion
  have hsize : min maxLineLen ((pre ++ line).length - pre.length) = line.length := by
    rw [List.length_append]
    omega
  unfold findLineEnding
  rw [searchLineEnd]
  dsimp only
  rw [hsize, hnone 0x0a _ rfl, hnone 0x0d _ rfl]
  dsimp only [Option.or]
  rw [if_neg (by omega)]
  rfl

theorem intercalate_concat_append {α : Type} (sep a b : List α) (as : List (List α)) :
    sep.intercalate (as ++ [a]) ++ b = sep.intercalate (as ++ [a ++ b]) := by
  induction as with
  | nil => rw [List.nil_append, List.nil_append, List.intercalate_singleton, List.intercalate_singleton]
  | cons c as ih =>
    rw [List.cons_append, List.cons_append, CsvParser.intercalate_cons_concat,
      CsvParser.intercalate_cons_concat, List.append_assoc, List.append_assoc, ih]

end

namespace CsvReader
open CsvParser

section
variable {quark atof : List UInt8 → UInt64} {realloc : Realloc} {initParams : CsvInitParams}
  {objIdType : ObjIdType} {reader : CsvReader} {p : CsvParser} {fields : List CsvField}
  {last pre rest header : List UInt8} {r : CsvRow} {rows : List CsvRow}

/-- The last line, whose last field is not quoted. -/
def lastLine (delim : UInt8) (fields : List CsvField) (last : List UInt8) : List UInt8 :=
  csvFields delim (fields ++ [⟨false, last⟩])

/-! ## The last line -/

theorem delim_ne_zero (initParams : CsvInitParams) : initParams.delim ≠ 0 := by
  unfold CsvInitParams.delim
  split
  · decide
  · assumption

/-- The null character is a part of the last field. -/
theorem plain_zero : (parserOf realloc initParams).Plain 0 where
  space := freshParser_space.trans rfl
  term := freshParser_term.trans rfl
  delim := by
    rw [freshParser_delim]
    exact (delim_ne_zero initParams).symm
  quote := by
    rw [freshParser_quote]
    decide

/-- The fields before the last one are handed over. -/
theorem parse_open (F : CsvFormat realloc initParams) (H : AtStart (parserOf realloc initParams) p)
    (hlast : ReadableLine (fields ++ [⟨false, last⟩]) initParams.delim
      (lastLine initParams.delim fields last)) :
    ∃ n p' out, p.parse (lastLine initParams.delim fields last ++ [0]) = .ok (n, p', out) ∧
      p'.reallocFunc = realloc ∧
      out.map CsvEvent.token = (fields.map CsvField.content).map (fun f => .field (some f)) ∧
      ∀ e ∈ out, Sound csvAppendNull e := by
  have htext : lastLine initParams.delim fields last ++ [0] =
      [(parserOf realloc initParams).delimChar].intercalate
        ((fields.map fun f => (f.text, f.content)).map Prod.fst ++ [last ++ [0]]) := by
    rw [lastLine, csvFields, List.map_append, List.map_singleton, intercalate_concat_append, map_text,
      freshParser_delim]
    rfl
  have hlt : ∀ f ∈ fields ++ [⟨false, last⟩], f.text.length < maxLineLen := fun f hf =>
    Nat.lt_of_le_of_lt (CsvField.text_le hf) hlast.short
  have hmem : (⟨false, last⟩ : CsvField) ∈ fields ++ [⟨false, last⟩] :=
    List.mem_append_right _ List.mem_cons_self
  have hopen : (parserOf realloc initParams).FieldText 0x0a (last ++ [0]) (last ++ [0]) := by
    have hlen : last.length < maxLineLen := hlt _ hmem
    refine fieldText_plain (freshParser_quotes F) (freshParser_unquoted F) ?_ ?_
      (lineEnd_ne_delim F rfl) (isLineEnd_space rfl) (freshParser_term.trans rfl)
    · rw [List.length_append, List.length_singleton]
      omega
    · intro c hc
      obtain hc | hc := List.mem_append.mp hc
      · exact Readable.plain (hlast.fields _ hmem) rfl c hc
      · rw [List.mem_singleton.mp hc]
        exact plain_zero
  have hfields : ∀ t ∈ fields.map fun f => (f.text, f.content),
      (parserOf realloc initParams).FieldText 0x0a t.1 t.2 := by
    intro t ht
    obtain ⟨f, hf, rfl⟩ := List.mem_map.mp ht
    have hf := List.mem_append_left [⟨false, last⟩] hf
    exact fieldText F (hlast.fields f hf) (hlt f hf) rfl
  obtain ⟨p', out, hfeed, htokens, -⟩ := H.openRow hfields hopen
  rw [← htext, ← parse_eq_feed H.fits] at hfeed
  obtain ⟨n, p'', out', hparse, -, hkeeps, hsound⟩ :=
    parse_fits H.fits (lastLine initParams.delim fields last ++ [0])
  cases hparse.symm.trans hfeed
  refine ⟨_, p', out, hfeed, ?_, ?_, ?_⟩
  · rw [hkeeps.reallocFunc, H.keeps.reallocFunc, freshParser_eq]
    rfl
  · rw [htokens, List.map_map, List.map_map]
    rfl
  · rw [H.keeps.options, freshParser_eq] at hsound
    exact hsound

/-- Behind the file there is a null character, unless the file ends with a page. -/
theorem mapped_open {line : List UInt8} (hfile : reader.mappedFile = pre ++ line)
    (hoffset : reader.mmapOffset = pre.length) (hpage : reader.mappedFile.length % pageSize ≠ 0) :
    reader.mapped (line.length + 1) = .ok (line ++ [0]) := by
  obtain ⟨k, hk⟩ : ∃ k, (pageSize - reader.mappedFile.length % pageSize) % pageSize = k + 1 := by
    have hlt : reader.mappedFile.length % pageSize < pageSize := Nat.mod_lt _ (by decide)
    rw [Nat.mod_eq_of_lt (by omega)]
    exact Nat.exists_eq_succ_of_ne_zero (by omega)
  have hmapping : mapping reader.mappedFile = pre ++ (line ++ [0] ++ List.replicate k 0) := by
    rw [mapping, hk, List.replicate_succ, hfile]
    simp only [List.append_assoc, List.cons_append, List.nil_append]
  have h := mapped_text hmapping hoffset
  rwa [List.length_append] at h

/-- The last line becomes a request without the last field. -/
theorem readOneReq_open (quark : List UInt8 → UInt64) (reader : CsvReader) (pre : List UInt8)
    (req : TraceReq)
    (F : CsvFormat realloc reader.initParams)
    (H : AtStart (parserOf realloc reader.initParams) reader.csvParser)
    (hfile : reader.mappedFile = pre ++ lastLine reader.initParams.delim fields last)
    (hoffset : reader.mmapOffset = pre.length) (hend : reader.readerEnd = false)
    (hcounter : reader.currentFieldCounter = 1) (hpage : reader.mappedFile.length % pageSize ≠ 0)
    (hlast : ReadableLine (fields ++ [⟨false, last⟩]) reader.initParams.delim
      (lastLine reader.initParams.delim fields last))
    (hacc : Accepted atof reader.objIdType reader.initParams (fields.map CsvField.content) 1)
    (hid : (field? (fields.map CsvField.content) (reader.initParams.objIdField - 1)).isSome = true) :
    ∃ p o, reader.readOneReq quark atof req = .ok ({ reader with
        csvParser := p, currentFieldCounter := 1 + fields.length, mmapOffset := o, readerEnd := true },
        { rowRequest quark atof reader.objIdType reader.initParams (fields.map CsvField.content) 1 req with
          valid := true }) ∧
      p.reallocFunc = realloc := by
  have hfind : findLineEnding (pre ++ lastLine reader.initParams.delim fields last) pre.length = .ok _ :=
    findLineEnding_open (csvFields_not_lineEnd F.lineEnd hlast.fields hlast.short) hlast.short
  rw [← hfile, ← hoffset] at hfind
  obtain ⟨n, p, out, hparse, hrealloc, htokens, hsound⟩ := parse_open F H hlast
  have hst : reader.callbacks quark atof out
      ⟨reader.currentFieldCounter, false, { req with valid := true }⟩ = .ok _ :=
    callbacks_fields htokens hsound (by rw [hcounter]; exact hacc)
  have hgot : (false || (field? (fields.map CsvField.content)
      (reader.initParams.objIdField - reader.currentFieldCounter)).isSome) = true := by
    rw [hcounter, hid]
    rfl
  refine ⟨p, reader.mappedFile.length,
    (readOneElement_ok hend hfind (mapped_open hfile hoffset hpage) hparse hst hgot).trans ?_, hrealloc⟩
  rw [hcounter, List.length_map]
  rfl

/-! ## The requests -/

theorem requests_concat (contents : List (List UInt8)) (req : TraceReq)
    (rows : List (List (List UInt8))) :
    requests quark atof objIdType initParams req (rows ++ [contents]) =
      requests quark atof objIdType initParams req rows ++
        [{ rowRequest quark atof objIdType initParams contents 1
            ((requests quark atof objIdType initParams req rows).getLastD req) with valid := true }] := by
  induction rows generalizing req with
  | nil => rfl
  | cons fields rows ih =>
    rw [List.cons_append, requests, requests, ih, List.getLastD_cons, List.cons_append]

theorem readAll_one {reader' : CsvReader} {req req' : TraceReq}
    (hread : reader.readOneReq quark atof req = .ok (reader', req')) (hvalid : req'.valid = true)
    (hend : reader'.readerEnd = true) (fuel : Nat) :
    reader.readAll quark atof (fuel + 1 + 1) req = .ok ([req'], reader') := by
  rw [readAll, hread]
  change (if req'.valid = true then _ else _) = _
  rw [if_pos hvalid, readAll_end quark atof hend]
  rfl

/-! ## The row behind a reset -/

theorem readOneElement_noObjId {e : LineEnding} {line : List UInt8} {n : Nat} {out : List CsvEvent}
    {st : CsvRowState} {req : TraceReq} (hend : reader.readerEnd = false)
    (he : findLineEnding reader.mappedFile reader.mmapOffset = .ok e)
    (hline : reader.mapped (e.lineLen + 1) = .ok line)
    (hparse : reader.csvParser.parse line = .ok (n, p, out))
    (hst : reader.callbacks quark atof out ⟨reader.currentFieldCounter, false, req⟩ = .ok st)
    (hgot : st.alreadyGotReq = false) (hatEnd : e.atEnd = false) :
    reader.readOneElement quark atof req = .error .noObjId := by
  simp only [readOneElement, hend, he, hline, hparse, ofParser, hst, hgot, hatEnd, Except.mapError, bind,
    Except.bind, Bool.false_eq_true, if_false]

/-- The fields that are needed are counted too high. -/
theorem readOneReq_miscounted (quark atof : List UInt8 → UInt64) (reader : CsvReader)
    (pre : List UInt8) (req : TraceReq) (F : CsvFormat realloc reader.initParams)
    (H : AtStart (parserOf realloc reader.initParams) reader.csvParser)
    (hfile : reader.mappedFile = pre ++ (r.text reader.initParams.delim ++ rest))
    (hoffset : reader.mmapOffset = pre.length) (hend : reader.readerEnd = false)
    (hr : ReadableLine r.fields reader.initParams.delim (r.line reader.initParams.delim))
    (hne : rest ≠ []) (hrest : ∀ b ∈ rest.head?, isBlank b = false)
    (hid : reader.initParams.objIdField < reader.currentFieldCounter)
    (htime : reader.initParams.realTimeField < reader.currentFieldCounter) :
    reader.readOneReq quark atof req = .error .noObjId := by
  have hnone : ∀ k, k < reader.currentFieldCounter →
      field? r.contents (k - reader.currentFieldCounter) = none := fun k hk => if_neg (by omega)
  have hfind := findLineEnding_row F pre hr hrest
  rw [← hfile, ← hoffset, if_neg hne] at hfind
  obtain ⟨p, out, c, hparse, -, htokens, hsound⟩ := parse_row F H hr
  have hacc : Accepted atof reader.objIdType reader.initParams r.contents reader.currentFieldCounter := by
    constructor
    · intro _ f hf
      rw [hnone _ hid] at hf
      cases hf
    · intro _ f hf
      rw [hnone _ htime] at hf
      cases hf
  have hst : reader.callbacks quark atof out
      ⟨reader.currentFieldCounter, false, { req with valid := true }⟩ = .ok _ :=
    callbacks_row htokens hsound hacc
  refine readOneElement_noObjId hend hfind (mapped_row hfile hoffset) hparse hst ?_ rfl
  change (false || (field? r.contents _).isSome) = false
  rw [hnone _ hid]
  rfl

/-- **A csv trace without a last line end.** One request is delivered for each row and one for the last
line, which lacks the last field; as many as `get_num_of_req` counts. Behind `reset_reader` the first row
is read without its object id. -/
theorem readAll_lastLine (quark atof : List UInt8 → UInt64) (objIdType : ObjIdType)
    (F : CsvFormat realloc initParams) (hheader : 0x0a ∉ header) (hlen : header.length < maxLineLen)
    (hrows : ∀ r ∈ rows, ReadableLine r.fields initParams.delim (r.line initParams.delim))
    (hlast : ReadableLine (fields ++ [⟨false, last⟩]) initParams.delim
      (lastLine initParams.delim fields last))
    (hpage : (csvFile initParams header rows ++ lastLine initParams.delim fields last).length % pageSize ≠ 0)
    (hacc : ∀ r ∈ rows, Accepted atof objIdType initParams r.contents 1)
    (hacc' : Accepted atof objIdType initParams (fields.map CsvField.content) 1)
    (hid : ∀ r ∈ rows, (field? r.contents (initParams.objIdField - 1)).isSome = true)
    (hid' : (field? (fields.map CsvField.content) (initParams.objIdField - 1)).isSome = true)
    (req : TraceReq) :
    ∃ reader reader' again,
      setup realloc (csvFile initParams header rows ++ lastLine initParams.delim fields last) objIdType
        initParams = .ok reader ∧
      (∀ fuel, rows.length + 1 < fuel → reader.readAll quark atof fuel req =
        .ok (requests quark atof objIdType initParams req
          (rows.map CsvRow.contents ++ [fields.map CsvField.content]), reader')) ∧
      (∃ fuel, reader.getNumOfReq fuel = .ok (rows.length + 1)) ∧ reader'.reset = .ok again ∧
      (rows ≠ [] → initParams.realTimeField ≤ fields.length →
        ∀ req, again.readOneReq quark atof req = .error .noObjId) := by
  have hfile : csvFile initParams header rows ++ lastLine initParams.delim fields last =
      headerText initParams header ++
        (rows.flatMap (CsvRow.text initParams.delim) ++ lastLine initParams.delim fields last) :=
    List.append_assoc ..
  obtain ⟨b, hb, hblank⟩ := hlast.start
  have hnil : lastLine initParams.delim fields last ≠ [] := by
    intro hnil
    rw [hnil] at hb
    cases hb
  have hnil' := List.append_ne_nil_of_right_ne_nil (rows.flatMap (CsvRow.text initParams.delim)) hnil
  have hrest : ∀ b ∈ (lastLine initParams.delim fields last).head?, isBlank b = false := by
    intro b' hb'
    cases hb.symm.trans hb'
    exact hblank
  have hhead := head_rows hrows hrest
  rw [hfile] at hpage ⊢
  obtain ⟨p, o, hread, H, ho⟩ := readAll_rest quark
    (atRows realloc (headerText initParams header ++ (rows.flatMap (CsvRow.text initParams.delim) ++
      lastLine initParams.delim fields last)) objIdType initParams header)
    (headerText initParams header) req F (freshParser_atStart realloc initParams) rfl
    (fun _ => (length_headerText initParams header).symm) (decide_eq_false hnil').symm rfl hrest hrows hacc
    hid
  obtain ⟨p', o', hopen, hp'⟩ := readOneReq_open quark
    { atRows realloc (headerText initParams header ++ (rows.flatMap (CsvRow.text initParams.delim) ++
        lastLine initParams.delim fields last)) objIdType initParams header with
      csvParser := p, mmapOffset := o
      readerEnd := decide (lastLine initParams.delim fields last = []) }
    (headerText initParams header ++ rows.flatMap (CsvRow.text initParams.delim))
    ((requests quark atof objIdType initParams req (rows.map CsvRow.contents)).getLastD req) F H
    (List.append_assoc ..).symm (ho hnil) (decide_eq_false hnil) rfl hpage hlast hacc' hid'
  obtain ⟨ls, hls, hlength⟩ := lines_rows (headerText initParams header) F hrows hrest (.inr hnil)
    fun _ pre => ⟨_, .last (findLineEnding_open
      (csvFields_not_lineEnd F.lineEnd hlast.fields hlast.short) hlast.short)⟩
  have hreset : reset { atRows realloc (headerText initParams header ++ (rows.flatMap
        (CsvRow.text initParams.delim) ++ lastLine initParams.delim fields last)) objIdType initParams
        header with
      csvParser := p', mmapOffset := o', readerEnd := true, currentFieldCounter := 1 + fields.length } =
      .ok _ := reset_eq hheader hlen hnil' hhead hp' o' true (1 + fields.length)
  refine ⟨_, _, _, setup_eq hheader hlen hnil' hhead, fun fuel hfuel => ?_, ?_, hreset,
    fun hne htime req => ?_⟩
  · obtain ⟨fuel, rfl⟩ := Nat.exists_eq_add_of_lt hfuel
    rw [show rows.length + 1 + fuel + 1 = fuel + 1 + 1 + rows.length by omega, hread, requests_concat]
    exact (congrArg (Except.map _) (readAll_one hopen rfl rfl fuel)).trans rfl
  · rw [if_neg hnil] at hlength
    rw [← hlength]
    exact getNumOfReq_eq hheader hlen hnil' hhead hls
  · obtain ⟨r, rows, rfl⟩ := List.exists_cons_of_ne_nil hne
    have hcount : initParams.objIdField < 1 + (fields.length : Int) := by
      unfold field? at hid'
      split at hid'
      · have hlt := (List.getElem?_eq_some_iff.mp (Option.eq_some_of_isSome hid')).1
        rw [List.length_map] at hlt
        omega
      · cases hid'
    have hrest' := head_rows (fun r hr => hrows r (List.mem_cons_of_mem _ hr)) hrest
    have hfirst : headerText initParams header ++ ((r :: rows).flatMap (CsvRow.text initParams.delim) ++
        lastLine initParams.delim fields last) = headerText initParams header ++
          (r.text initParams.delim ++
            (rows.flatMap (CsvRow.text initParams.delim) ++ lastLine initParams.delim fields last)) := by
      rw [List.flatMap_cons, List.append_assoc (r.text initParams.delim)]
    exact readOneReq_miscounted quark atof _ (headerText initParams header) req F
      (freshParser_atStart realloc initParams) hfirst (length_headerText initParams header).symm rfl
      (hrows r List.mem_cons_self) (List.append_ne_nil_of_right_ne_nil _ hnil) hrest' hcount
      (show initParams.realTimeField < 1 + (fields.length : Int) by omega)

end

/-- The row `1,7,5`. -/
def rowOfThree : CsvRow := ⟨[⟨false, [0x31]⟩, ⟨false, [0x37]⟩, ⟨false, [0x35]⟩], false⟩

/-- Behind it is `2,8,6` without a line end. The second request keeps the size 5. -/
theorem threeFields_lastLine :
    ∃ reader reader' again, setup .zeroed (csvFile threeFields [0x74] [rowOfThree] ++
        lastLine threeFields.delim [⟨false, [0x32]⟩, ⟨false, [0x38]⟩] [0x36]) .num threeFields =
        .ok reader ∧
      (∀ fuel, 2 < fuel →
        reader.readAll (fun _ => 0) (fun s => .ofNat (leadingNat s)) fuel ⟨0, 0, 0, 0, 0, true⟩ =
          .ok ([⟨1, 7, 5, 0, 0, true⟩, ⟨2, 8, 5, 0, 0, true⟩], reader')) ∧
      (∃ fuel, reader.getNumOfReq fuel = .ok 2) ∧ reader'.reset = .ok again ∧
      ∀ req, again.readOneReq (fun _ => 0) (fun s => .ofNat (leadingNat s)) req = .error .noObjId := by
  have hreadable : ∀ r ∈ [rowOfThree], ReadableLine r.fields threeFields.delim (r.line threeFields.delim) := by
    intro r hr
    obtain rfl := List.mem_singleton.mp hr
    exact ⟨by decide, ⟨0x31, by decide⟩, by decide⟩
  have hlast : ReadableLine ([⟨false, [0x32]⟩, ⟨false, [0x38]⟩] ++ [⟨false, [0x36]⟩]) threeFields.delim
      (lastLine threeFields.delim [⟨false, [0x32]⟩, ⟨false, [0x38]⟩] [0x36]) :=
    ⟨by decide, ⟨0x32, by decide⟩, by decide⟩
  have hpage : (csvFile threeFields [0x74] [rowOfThree] ++
      lastLine threeFields.delim [⟨false, [0x32]⟩, ⟨false, [0x38]⟩] [0x36]).length % pageSize ≠ 0 := by
    decide
  have haccepted : ∀ r ∈ [rowOfThree],
      Accepted (fun s => .ofNat (leadingNat s)) .num threeFields r.contents 1 := by
    intro r hr
    obtain rfl := List.mem_singleton.mp hr
    exact ⟨fun h => ObjIdType.noConfusion h, fun _ => by decide⟩
  have hheader : (0x0a : UInt8) ∉ [0x74] := by decide
  have hformat : CsvFormat .zeroed threeFields := ⟨by decide, by decide, fun _ _ _ => rfl⟩
  obtain ⟨reader, reader', again, hsetup, hread, hcount, hreset, hagain⟩ :=
    readAll_lastLine (fun _ => 0) (fun s => .ofNat (leadingNat s)) .num hformat hheader (by decide)
      hreadable hlast hpage haccepted ⟨fun h => ObjIdType.noConfusion h, fun _ => by decide⟩
      (by decide) (by decide) ⟨0, 0, 0, 0, 0, true⟩
  exact ⟨reader, reader', again, hsetup, hread, hcount, hreset, hagain (List.cons_ne_nil _ _) (by decide)⟩

end CsvReader

end C2DN.Simulator
