import TableNotation.Proofs.Document.Appending
import TableNotation.Proofs.Document.RoundTrip
import TableNotation.Proofs.Query.Answers
import TableNotation.Proofs.Query.Parsing
import TableNotation.Query.Selection
/-!
# Selections read back

What answers a query is written as a table of its own, and it comes back like any other
table: the name of the table is a word of the query, so it can be read from a header, and the
records are part of a table that could be counted.  But the query itself is written in front
of the table as it is, and the reader takes what is written there line by line.  A query on
one line is one directive without an effect; behind a line feed in a query, however, its text
is read as if it were part of the document.

* `encodeSelection_eq_ok_iff`: which selections are written, and how.
* `isReadable_of_parse`: the table of a query can be read from a header.
* `decodeChars_selection`: the table is laid over what the line of the query says.
* `decode_encodeSelection`: reading back a selection.
* `decode_multiline_query`: a query of two lines after which nothing is read.
-/

namespace TableNotation

/-! ### Writing -/

/-- The document that is written for records that answer a query. -/
def Query.answer (q : Query) (rows : List Record) : Document :=
  [(q.table, .array (rows.map .object))]

/-- A selection is written if the query can be read and answered. -/
theorem encodeSelected_eq_ok_iff [PatternLimit] {settings : Settings} {document : Document}
    {text encoded : String} : encodeSelected settings document text = .ok encoded ↔
      ∃ q rows, Query.parse text = .ok q ∧ q.execute document = .ok rows ∧
        encode settings true (q.answer rows) = .ok encoded := by
  constructor
  · intro h
    obtain ⟨q, hq, h⟩ := bind_eq_ok.1 h
    obtain ⟨selected, hselected, hencode⟩ := bind_eq_ok.1 h
    obtain ⟨rows, hrows, hdocument⟩ := bind_eq_ok.1 (mapError_eq_ok.1 hselected)
    obtain rfl := Except.ok.inj hdocument
    exact ⟨q, rows, mapError_eq_ok.1 hq, hrows, mapError_eq_ok.1 hencode⟩
  · intro h
    obtain ⟨q, rows, hq, hrows, hencode⟩ := h
    refine bind_eq_ok.2 ⟨q, mapError_eq_ok.2 hq, bind_eq_ok.2 ⟨q.answer rows, ?_,
      mapError_eq_ok.2 hencode⟩⟩
    exact mapError_eq_ok.2 (bind_eq_ok.2 ⟨rows, hrows, rfl⟩)

/-- A selection has the query as it is in front of the table of its answer. -/
theorem encodeSelection_eq_ok_iff [PatternLimit] {settings : Settings} {document : Document}
    {text out : String} : encodeSelection settings document text = .ok out ↔
      ∃ q rows, Query.parse text = .ok q ∧ q.execute document = .ok rows ∧
        out = String.ofList (Directive.query text ++ '\n' :: '\n' ::
          Text.joined ['\n'] (Encoding.lines settings true (q.answer rows))) := by
  have hencode : ∀ q rows, encode settings true (Query.answer q rows) = .ok
      (String.ofList (Text.joined ['\n'] (Encoding.lines settings true (q.answer rows)))) :=
    fun q rows => encode_of_validate (Document.validate_table q.table rows) settings true
  unfold encodeSelection
  constructor
  · intro h
    cases hselected : encodeSelected settings document text with
    | error cause =>
      rw [hselected] at h
      cases h
    | ok encoded =>
      rw [hselected] at h
      obtain ⟨q, rows, hq, hrows, hencoded⟩ := encodeSelected_eq_ok_iff.1 hselected
      refine ⟨q, rows, hq, hrows, ?_⟩
      rw [← Except.ok.inj h, toList_of_encode hencoded, List.append_assoc]
      rfl
  · intro h
    obtain ⟨q, rows, hq, hrows, rfl⟩ := h
    rw [encodeSelected_eq_ok_iff.2 ⟨q, rows, hq, hrows, hencode q rows⟩]
    dsimp only
    rw [String.toList_ofList, List.append_assoc]
    rfl

/-! ### The name of the table -/

/-- The characters of words lie between `0` and `z`, where no character has a meaning in a
header but the at sign. -/
theorem Token.isNameChar_of_isWordChar {c : Char} (h : isWordChar c = true) :
    Header.isNameChar c = true := by
  have hrange : 48 ≤ c.toNat ∧ c.toNat ≤ 122 := by
    simp only [isWordChar, Char.isAlphanum, Char.isAlpha, Char.isUpper, Char.isLower,
      Char.isDigit, Bool.or_eq_true, Bool.and_eq_true, decide_eq_true_eq, ge_iff_le,
      UInt32.le_iff_toNat_le] at h
    rcases h with ((h | h) | h) | h
    · exact ⟨Nat.le_trans (by decide) h.1, Nat.le_trans h.2 (by decide)⟩
    · exact ⟨Nat.le_trans (by decide) h.1, h.2⟩
    · exact ⟨h.1, Nat.le_trans h.2 (by decide)⟩
    · rw [h]
      decide
  have hblank : isBlank c = false := by
    simp only [isBlank, blankRanges, List.any_cons, List.any_nil, Bool.or_false,
      Bool.or_eq_false_iff, Bool.and_eq_false_iff, decide_eq_false_iff_not]
    omega
  have hopening : c ≠ '(' := by
    rintro rfl
    exact absurd hrange.1 (by decide)
  have hplus : c ≠ '+' := by
    rintro rfl
    exact absurd hrange.1 (by decide)
  simp [Header.isNameChar, hblank, hopening, hplus]

/-- A word can be read from a header. -/
theorem Token.IsName.isReadable {lexeme : List Char} (h : IsName lexeme) :
    Header.isReadable lexeme = true := by
  obtain ⟨c, tail, hstart, htail, rfl⟩ := h
  have hword : isWordChar c = true := by
    unfold isWordStart at hstart
    unfold isWordChar Char.isAlphanum
    rcases Bool.or_eq_true_iff.1 hstart with halpha | hunderscore
    · rw [halpha, Bool.true_or, Bool.true_or]
    · rw [hunderscore, Bool.or_true]
  have hall : (c :: tail).all Header.isNameChar = true := by
    rw [List.all_eq_true]
    intro d hd
    rcases List.mem_cons.1 hd with rfl | hd
    · exact isNameChar_of_isWordChar hword
    · exact isNameChar_of_isWordChar (htail d hd)
  have hsign : c ≠ '@' := by
    rintro rfl
    exact absurd hstart (by decide)
  simp [Header.isReadable, hall, hsign]

/-- The table of a query can be read from a header. -/
theorem Query.isReadable_of_parse {text : String} {q : Query} (h : parse text = .ok q) :
    Header.isReadable q.table.toList = true := by
  obtain ⟨tokens, htokens, h⟩ := bind_eq_ok.1 h
  have hlexed := Token.isLexed_of_ofQuery htokens
  cases derives_of_ofTokens hlexed h with
  | mk htable hselect hfilter horder hlimit hoffset =>
    cases htable with
    | mk => exact ((hlexed _ List.mem_cons_self).identifier rfl).isReadable

/-! ### Reading -/

/-- A line feed behind a text changes nothing. -/
theorem Scan.decodeChars_newline (a : List Char) : decodeChars (a ++ ['\n']) = decodeChars a := by
  rw [decodeChars_append, decodeChars_eq_run, run]
  refine bind_congr fun scan => ?_
  exact run_of_reads reads_blank _

/-- If the query is one line, there is nothing to read in its line. -/
theorem decodeChars_query {text : String} (h : '\n' ∉ text.toList) :
    decodeChars (Directive.query text) = .ok [] := by
  have hline : Directive.IsLine (Directive.query text) :=
    Directive.isLine_line (by decide) (by decide) h
  rw [Scan.decodeChars_eq_run, Text.lines_eq_singleton hline.oneLine]
  exact Scan.run_of_reads
    (Scan.reads_directive hline fun number => Directives.apply_query .initial number text) 1

variable {document : Document} {q : Query} {rows : List Record}

/-- An answer can be read back. -/
theorem Query.isReadable_answer [PatternLimit] (hname : Header.isReadable q.table.toList = true)
    (hdistinct : (Value.object document).hasDistinctKeys)
    (hcounts : ∀ name items, (name, Value.array items) ∈ document →
      items.length < Header.countLimit) (h : q.execute document = .ok rows) :
    (q.answer rows).IsReadable := by
  obtain ⟨items, hmem, hlength⟩ := length_le_of_execute h
  refine (Document.isReadable_iff _).2 ⟨⟨by simp [Fields.keys, answer], ?_, trivial⟩, ?_⟩
  · apply Value.itemsHaveDistinctKeys_of_forall
    intro v hv
    obtain ⟨row, hrow, rfl⟩ := List.mem_map.1 hv
    exact hasDistinctKeys_of_execute hdistinct h row hrow
  · intro e he
    obtain rfl := List.mem_singleton.1 he
    refine ⟨hname, ?_⟩
    rw [List.length_map]
    exact Nat.lt_of_le_of_lt hlength (hcounts _ _ hmem)

/-- The normal form of an answer is that of its only table. -/
theorem Query.normalForm_answer (q : Query) (rows : List Record) :
    (q.answer rows).normalForm = [Table.normalForm ⟨q.table, rows⟩] := by
  have htables : (q.answer rows).tables = [⟨q.table, rows⟩] :=
    congrArg (fun found => [Table.mk q.table found]) (filterMap_asObject?_map_object rows)
  rw [Document.normalForm, htables, List.map_singleton]

/-- The table behind the line of a query is laid over what that line says. -/
theorem decodeChars_selection {text : String} {settings : Settings} {selected : Document}
    (h : selected.IsReadable) :
    decodeChars (Directive.query text ++ '\n' :: '\n' ::
        Text.joined ['\n'] (Encoding.lines settings true selected))
      = (decodeChars (Directive.query text)).map fun shown =>
        shown.overlay (Encoding.readBack settings true selected) := by
  have happend := @decodeChars_append_lines settings true selected h
    (Directive.query text ++ ['\n'])
  rwa [Scan.decodeChars_newline, List.append_assoc, List.singleton_append] at happend

/-- The table of a selection comes back in its normal form, laid over what the reader finds
in the text of the query; and in a query on one line it finds nothing. -/
theorem decode_encodeSelection [PatternLimit] {settings : Settings} {text out : String}
    (hdistinct : (Value.object document).hasDistinctKeys)
    (hcounts : ∀ name items, (name, Value.array items) ∈ document →
      items.length < Header.countLimit)
    (hencode : encodeSelection settings document text = .ok out) :
    ∃ q rows back, Query.parse text = .ok q ∧ q.execute document = .ok rows ∧
      Value.fieldsPositiveZeros back
        = Value.fieldsPositiveZeros [Table.normalForm ⟨q.table, rows⟩] ∧
      decode out = (decode (String.ofList (Directive.query text))).map
        (fun shown => shown.overlay back) ∧
      ('\n' ∉ text.toList → decode out = .ok back) := by
  obtain ⟨q, rows, hq, hrows, hout⟩ := encodeSelection_eq_ok_iff.1 hencode
  have hreadable : (q.answer rows).IsReadable :=
    Query.isReadable_answer (Query.isReadable_of_parse hq) hdistinct hcounts hrows
  have hdecode : decode out = (decodeChars (Directive.query text)).map fun shown =>
      shown.overlay (Encoding.readBack settings true (q.answer rows)) := by
    rw [decode, hout, String.toList_ofList]
    exact decodeChars_selection hreadable
  refine ⟨q, rows, Encoding.readBack settings true (q.answer rows), hq, hrows, ?_, ?_, ?_⟩
  · rw [← Query.normalForm_answer]
    exact Encoding.fieldsPositiveZeros_readBack hreadable settings true
  · rw [hdecode, decode, String.toList_ofList]
  · intro hline
    have hback := @Encoding.nodup_keys_readBack settings true _ hreadable
    rw [hdecode, decodeChars_query hline]
    exact congrArg Except.ok (Fields.overlay_nil hback)

/-- Two records of three, with the fields of the first one of them. -/
theorem decode_encodeSelection_sample :
    let text := "log WHERE level = 'warning' OFFSET 1"
    (Value.object Document.sample).hasDistinctKeys ∧
      (∀ name items, (name, Value.array items) ∈ Document.sample →
        items.length < Header.countLimit) ∧
      ∃ out, encodeSelection .standard Document.sample text = .ok out ∧
        ∃ q rows back, Query.parse text = .ok q ∧ q.execute Document.sample = .ok rows ∧
          Value.fieldsPositiveZeros back
            = Value.fieldsPositiveZeros [Table.normalForm ⟨q.table, rows⟩] ∧
          decode out = .ok back := by
  intro text
  have hreadable : Document.sample.IsReadable := by decide
  let tokens : List Token :=
    [⟨.identifier, "log", 0⟩, ⟨.keyword .whereWord, "WHERE", 4⟩, ⟨.identifier, "level", 10⟩,
      ⟨.operator, "=", 16⟩, ⟨.string, "'warning'", 18⟩, ⟨.keyword .offset, "OFFSET", 28⟩,
      ⟨.number, "1", 35⟩]
  let condition : Condition := ⟨"level", .equal, .string "warning", none⟩
  let q : Query := ⟨"log", none, some ⟨.and, [.condition condition]⟩, none, .ascending, none, 1⟩
  have hunwrap : Query.unwrap text.toList = text.toList := by decide +kernel
  have htokens : Token.ofQuery text.toList = .ok tokens := by cbv
  have hq : Query.parse text = .ok q := by
    rw [Query.parse, Query.parseChars, hunwrap, htokens]
    cbv
  have hrows : q.execute Document.sample = .ok (Document.sampleRecords.drop 1) := rfl
  obtain ⟨out, hencode⟩ : ∃ out, encodeSelection .standard Document.sample text = .ok out :=
    ⟨_, encodeSelection_eq_ok_iff.2 ⟨q, _, hq, hrows, rfl⟩⟩
  obtain ⟨_, _, back, hparse, hanswer, hback, _, hdecode⟩ :=
    decode_encodeSelection hreadable.distinct hreadable.counts hencode
  exact ⟨hreadable.distinct, hreadable.counts, out, hencode, _, _, back, hparse, hanswer, hback,
    hdecode (by decide)⟩

/-- A query of two lines that is answered: of its selection nothing can be read. -/
theorem decode_multiline_query :
    let text := "t\nWHERE id = 1"
    let document : Document :=
      [("t", .array [.object [("id", .number (.integer 1 (by decide)))]])]
    ∃ out, encodeSelection .standard document text = .ok out ∧
      decode out = .error (.unexpectedLine 2 "WHERE id = 1]") := by
  intro text document
  let tokens : List Token :=
    [⟨.identifier, "t", 0⟩, ⟨.keyword .whereWord, "WHERE", 2⟩, ⟨.identifier, "id", 8⟩,
      ⟨.operator, "=", 11⟩, ⟨.number, "1", 13⟩]
  let condition : Condition := ⟨"id", .equal, .number (.integer 1 (by decide)), none⟩
  let q : Query := ⟨"t", none, some ⟨.and, [.condition condition]⟩, none, .ascending, none, 0⟩
  let rows : List Record := [[("id", .number (.integer 1 (by decide)))]]
  have hunwrap : Query.unwrap text.toList = text.toList := by decide +kernel
  have htokens : Token.ofQuery text.toList = .ok tokens := by cbv
  have hq : Query.parse text = .ok q := by
    rw [Query.parse, Query.parseChars, hunwrap, htokens]
    cbv
  have hrows : q.execute document = .ok rows := rfl
  have hreadable : (q.answer rows).IsReadable := by decide
  have hquery : decodeChars (Directive.query text)
      = .error (.unexpectedLine 2 "WHERE id = 1]") := by cbv
  let out : String := String.ofList (Directive.query text ++ '\n' :: '\n' ::
    Text.joined ['\n'] (Encoding.lines .standard true (q.answer rows)))
  refine ⟨out, encodeSelection_eq_ok_iff.2 ⟨q, rows, hq, hrows, rfl⟩, ?_⟩
  rw [decode, String.toList_ofList, decodeChars_selection hreadable, hquery]
  rfl

end TableNotation
