import TableNotation.Document.Decoding
import TableNotation.Proofs.Literal.RoundTrip
import TableNotation.Proofs.SortedMap
/-!
# Directives read back

The lines for a dictionary, a schema and defaults do to the reader's state what
they say: each sets its own part, a schema also clears the defaults, and all else
stays.  Defaults are literals, so their references are looked up in the
dictionary that the reader has at that line.

* `apply_dictionary`, `apply_schema`, `apply_defaults`: the effect of a line that
  was written.
* `apply_queryable`: the line that marks a table has no effect.
-/

namespace TableNotation

namespace FieldName

/-- A character that needs no quotes in a name has no meaning in literals. -/
theorem isPlain_of_not_isSpecial {c : Char} (h : isSpecial c = false) :
    Literal.isPlain c = true := by
  apply Literal.isPlain_of_forall_not (p := fun c => !isSpecial c)
  · rw [h, Bool.not_false]
  · decide

/-- A name stands without quotes if it has something, no blanks around it, no reference mark in
front and no special character. -/
theorem isBare_iff {name : List Char} : isBare name = true ↔
    name ≠ [] ∧ Text.trim name = name ∧ name.head? ≠ some '#' ∧
      ∀ c ∈ name, isSpecial c = false := by
  simp [isBare, and_assoc]

/-- A field name is a slot: either it stands in quotes, or nothing in it needs
them. -/
theorem isSlot_render (name : List Char) : Literal.IsSlot (render name) := by
  unfold render
  split
  · rename_i hbare
    obtain ⟨hne, htrim, _, hspecial⟩ := isBare_iff.1 hbare
    have htight : Text.IsTight name := htrim ▸ Text.isTight_trim name
    refine ⟨Literal.uncut_plain fun c hc => isPlain_of_not_isSpecial (hspecial c hc), ?_, htight,
      hne⟩
    intro hmem
    exact absurd (hspecial _ hmem) (by decide)
  · exact (Literal.isLiteral_quote name).isSlot

/-- No colon of a name can be taken for that of its entry. -/
theorem uncoloned_render (name : List Char) :
    Literal.Uncoloned .outside (render name) .outside := by
  unfold render
  split
  · rename_i hbare
    obtain ⟨_, _, _, hspecial⟩ := isBare_iff.1 hbare
    exact Literal.uncoloned_plain fun c hc => isPlain_of_not_isSpecial (hspecial c hc)
  · exact Literal.uncoloned_quote name

/-- Reading undoes writing. -/
theorem parse_render (name : List Char) : parse (render name) = name := by
  unfold parse render
  split
  · rename_i hbare
    obtain ⟨_, htrim, _, hspecial⟩ := isBare_iff.1 hbare
    have hquote : name.head? ≠ some '"' := by
      intro hhead
      exact absurd (hspecial _ (List.mem_of_head? hhead)) (by decide)
    simp only [htrim, Literal.enclosed?_of_head_ne hquote]
  · have hquote : Text.enclosed? '"' '"' (Literal.quote name) = some (Literal.escape name) :=
      Literal.enclosed?_between _ _ _
    simp only [(Literal.isLiteral_quote name).trim, hquote, Literal.unescape_escape]

end FieldName

/-- The name of a kind is a slot. -/
theorem Kind.isSlot_name (kind : Kind) : Literal.IsSlot kind.name.toList := by
  have hplain : kind.name.toList.all Literal.isPlain = true := by cases kind <;> decide
  have htight : kind.name.toList.all (fun c => !isBlank c) = true := by cases kind <;> decide
  have hline : '\n' ∉ kind.name.toList := by cases kind <;> decide
  have hne : kind.name.toList ≠ [] := by cases kind <;> decide
  refine ⟨Literal.uncut_plain (List.all_eq_true.1 hplain), hline, ?_, hne⟩
  apply Text.isTight_of_forall
  intro c hc
  simpa using List.all_eq_true.1 htight c hc

namespace Directive

/-- The body of a directive is what was written into its brackets. -/
theorem body?_line (mark body : List Char) : body? mark (line mark body) = some body := by
  have hafter : Text.after? mark (line mark body) = some ('[' :: (body ++ [']'])) :=
    Text.after?_eq_some_iff.2 rfl
  have hstart : Text.trimStart ('[' :: (body ++ [']'])) = '[' :: (body ++ [']']) := by
    apply Text.trimStart_eq_self
    intro c hc
    rw [List.head?_cons, Option.some.injEq] at hc
    rw [← hc]
    decide
  unfold body?
  rw [hafter, Option.bind_eq_bind, Option.bind_some, hstart, Literal.enclosed?_between]

/-- A directive has no blanks around it. -/
theorem isTight_line {mark : List Char} (hmark : mark.head? = some '@') (body : List Char) :
    Text.IsTight (line mark body) := by
  cases mark with
  | nil => exact absurd hmark (by decide)
  | cons c rest =>
    rw [List.head?_cons, Option.some.injEq] at hmark
    have hline : line (c :: rest) body = c :: ((rest ++ '[' :: body) ++ [']']) := by
      simp [line]
    rw [hline, hmark]
    exact Text.isTight_between (by decide) (by decide) _

/-- What a line has to be so that it is taken for a directive. -/
structure IsLine (s : List Char) : Prop where
  tight : Text.IsTight s
  oneLine : '\n' ∉ s
  head : s.head? = some '@'

/-- A directive is one line if its mark and its body are. -/
theorem isLine_line {mark body : List Char} (hmark : mark.head? = some '@')
    (hline : '\n' ∉ mark) (hbody : '\n' ∉ body) : IsLine (line mark body) := by
  refine ⟨isTight_line hmark body, ?_, ?_⟩
  · intro hmem
    rcases List.mem_append.1 hmem with hmem | hmem
    · exact hline hmem
    rcases List.mem_cons.1 hmem with hmem | hmem
    · exact absurd hmem (by decide)
    rcases List.mem_append.1 hmem with hmem | hmem
    · exact hbody hmem
    · exact absurd hmem (by decide)
  · rw [line, List.head?_append, hmark, Option.some_or]

/-- A mark begins a line if and only if it begins the mark of the line: no mark goes on behind the
bracket. -/
theorem isPrefixOf_line {mark : List Char} (h : '[' ∉ mark) (other body : List Char) :
    mark.isPrefixOf (line other body) = mark.isPrefixOf other := by
  induction mark generalizing other with
  | nil => rw [List.isPrefixOf_nil_left, List.isPrefixOf_nil_left]
  | cons c rest ih =>
    rw [List.mem_cons, not_or] at h
    obtain ⟨hc, hrest⟩ := h
    cases other with
    | nil =>
      have hbracket : (c == '[') = false := beq_eq_false_iff_ne.2 (Ne.symm hc)
      change (c == '[' && _) = false
      rw [hbracket, Bool.false_and]
    | cons d others =>
      change (c == d && rest.isPrefixOf (line others body)) = (c == d && rest.isPrefixOf others)
      rw [ih hrest]

/-- The marks of the directives that are written. -/
def marks : List (List Char) := [dictionaryMark, schemaMark, defaultsMark, queryableMark, queryMark]

/-- Of the marks of directives that take effect, only its own begins the line of a directive. -/
theorem isPrefixOf_line_of_mem {mark other : List Char}
    (hmark : mark ∈ [dictionaryMark, schemaMark, defaultsMark]) (hother : other ∈ marks)
    (body : List Char) : mark.isPrefixOf (line other body) = decide (other = mark) := by
  have hapart : ∀ mark ∈ [dictionaryMark, schemaMark, defaultsMark], '[' ∉ mark ∧
      ∀ other ∈ marks, mark.isPrefixOf other = decide (other = mark) := by decide
  obtain ⟨hbracket, hbegins⟩ := hapart mark hmark
  rw [isPrefixOf_line hbracket, hbegins other hother]

/-- The entries of a dictionary line. -/
def dictionaryEntry (e : String × String) : List Char :=
  e.1.toList ++ ':' :: Literal.quote e.2.toList

/-- The entries of a schema line. -/
def schemaEntry (column : String × Kind) : List Char :=
  FieldName.render column.1.toList ++ ':' :: column.2.name.toList

/-- The entries of a defaults line. -/
def defaultsEntry (d : Dictionary) (e : String × Value) : List Char :=
  FieldName.render e.1.toList ++ ':' :: Literal.render d e.2

variable {writer : Dictionary}

/-- An entry of a dictionary is one slot. -/
theorem isSlot_dictionaryEntry {e : String × String} (h : Dictionary.isReference e.1 = true) :
    Literal.IsSlot (dictionaryEntry e) := by
  have hname := (Literal.isLiteral_reference h).isSlot
  have hvalue := (Literal.isLiteral_quote e.2.toList).isSlot
  exact Literal.isSlot_entry hname hvalue fun _ hc => absurd hc List.not_mem_nil

/-- So is an entry of a schema. -/
theorem isSlot_schemaEntry (column : String × Kind) : Literal.IsSlot (schemaEntry column) :=
  Literal.isSlot_entry (FieldName.isSlot_render _) column.2.isSlot_name
    fun _ hc => absurd hc List.not_mem_nil

/-- So is an entry of defaults. -/
theorem isSlot_defaultsEntry (hd : writer.HasReferences) (e : String × Value) :
    Literal.IsSlot (defaultsEntry writer e) :=
  Literal.isSlot_entry (FieldName.isSlot_render _) (Literal.isLiteral_render hd e.2).isSlot
    fun _ hc => absurd hc List.not_mem_nil

/-- An entry of a dictionary is cut into its reference and its quoted text. -/
theorem pair?_dictionaryEntry {e : String × String} (h : Dictionary.isReference e.1 = true) :
    Literal.pair? (dictionaryEntry e) = some (e.1.toList, Literal.quote e.2.toList) := by
  have hname : Literal.Uncoloned .outside e.1.toList .outside := by
    obtain ⟨digits, hs, hdigits⟩ := Dictionary.toList_of_isReference h
    rw [hs]
    apply Literal.uncoloned_plain
    intro c hc
    rcases List.mem_cons.1 hc with rfl | hc
    · decide
    · exact Literal.isPlain_of_isNumeric (Number.isNumeric_of_isDigit (hdigits c hc))
  unfold dictionaryEntry
  rw [Literal.pair?_entry hname, (Literal.isLiteral_reference h).trim,
    (Literal.isLiteral_quote _).trim]

/-- An entry of a schema is cut into the name of a column and that of its kind. -/
theorem pair?_schemaEntry (column : String × Kind) :
    Literal.pair? (schemaEntry column)
      = some (FieldName.render column.1.toList, column.2.name.toList) := by
  unfold schemaEntry
  rw [Literal.pair?_entry (FieldName.uncoloned_render _),
    Text.trim_eq_self (FieldName.isSlot_render _).tight,
    Text.trim_eq_self column.2.isSlot_name.tight]

/-- An entry of defaults is cut into the name of a column and its literal. -/
theorem pair?_defaultsEntry (hd : writer.HasReferences) (e : String × Value) :
    Literal.pair? (defaultsEntry writer e)
      = some (FieldName.render e.1.toList, Literal.render writer e.2) := by
  unfold defaultsEntry
  rw [Literal.pair?_entry (FieldName.uncoloned_render _),
    Text.trim_eq_self (FieldName.isSlot_render _).tight, (Literal.isLiteral_render hd e.2).trim]

/-- A directive of slots is a line. -/
theorem isLine_commaList {mark : List Char} (hmark : mark.head? = some '@')
    (hline : '\n' ∉ mark) {parts : List (List Char)} (h : ∀ part ∈ parts, Literal.IsSlot part) :
    IsLine (line mark (Literal.commaList parts)) :=
  isLine_line hmark hline (Literal.newline_not_mem_commaList fun part hp => (h part hp).oneLine)

/-- A schema is written in a line. -/
theorem isLine_schema (columns : Schema) : IsLine (schema columns) := by
  apply isLine_commaList (by decide) (by decide)
  intro part hp
  obtain ⟨column, _, rfl⟩ := List.mem_map.1 hp
  exact isSlot_schemaEntry column

/-- So are defaults. -/
theorem isLine_defaults (hd : writer.HasReferences) (values : Defaults) :
    IsLine (defaults writer values) := by
  apply isLine_commaList (by decide) (by decide)
  intro part hp
  obtain ⟨e, _, rfl⟩ := List.mem_map.1 hp
  exact isSlot_defaultsEntry hd e

end Directive

/-- Every value of the defaults has distinct names in its objects. -/
def Defaults.HaveDistinctKeys (defaults : Defaults) : Prop :=
  ∀ e ∈ defaults.entries, e.2.hasDistinctKeys

/-- Defaults as a reader finds them whose dictionary need not be the writer's. -/
def Defaults.reread (writer reader : Dictionary) (defaults : Defaults) : Defaults :=
  defaults.mapValues (Value.mapStrings (writer.reread reader))

/-- A layout as a reader finds it whose dictionary need not be the writer's. -/
def Layout.reread (writer reader : Dictionary) (layout : Layout) : Layout :=
  { layout with defaults := layout.defaults.reread writer reader }

namespace Dictionary

/-- The keys of a dictionary of references are references. -/
theorem isReference_of_mem {dictionary : Dictionary} (h : dictionary.HasReferences)
    {e : String × String} (he : e ∈ dictionary.entries) : isReference e.1 = true := by
  have hfound : dictionary.get? e.1 = some e.2 := SortedMap.get?_eq_some_iff.2 he
  apply h
  rw [hfound]
  rfl

end Dictionary

/-- So is a dictionary of references. -/
theorem Directive.isLine_dictionary {dictionary : Dictionary} (h : dictionary.HasReferences) :
    IsLine (Directive.dictionary dictionary) := by
  apply isLine_commaList (by decide) (by decide)
  intro part hp
  obtain ⟨e, he, rfl⟩ := List.mem_map.1 hp
  exact isSlot_dictionaryEntry (Dictionary.isReference_of_mem h he)

/-- Reading each part of a list succeeds if it does so for the part of each item. -/
theorem mapM_map_eq_ok {ε α β γ : Type} {f : β → Except ε γ} {part : α → β} {value : α → γ}
    {xs : List α} (h : ∀ x ∈ xs, f (part x) = .ok (value x)) :
    (xs.map part).mapM f = .ok (xs.map value) := by
  induction xs with
  | nil => rfl
  | cons x rest ih =>
    obtain ⟨hx, hrest⟩ := List.forall_mem_cons.1 h
    rw [List.map_cons, List.mapM_cons, hx, ih hrest]
    rfl

namespace Directives

variable (state : Directives) (number : Nat)

/-- A quoted text in a dictionary is meant itself. -/
theorem literalText_quote (s : String) : literalText (Literal.quote s.toList) = s := by
  unfold literalText
  rw [Literal.parse_quote, String.ofList_toList]

/-- The entries of a dictionary line are read as the dictionary. -/
theorem readDictionary_written {dictionary : Dictionary} (h : dictionary.HasReferences) :
    readDictionary number (Literal.commaList (dictionary.entries.map Directive.dictionaryEntry))
      = .ok dictionary := by
  have hslots : Literal.slots (Literal.commaList
      (dictionary.entries.map Directive.dictionaryEntry))
      = dictionary.entries.map Directive.dictionaryEntry := by
    apply Literal.slots_of_isSlot
    intro part hp
    obtain ⟨e, he, rfl⟩ := List.mem_map.1 hp
    exact Directive.isSlot_dictionaryEntry (Dictionary.isReference_of_mem h he)
  have hentries : entries number .dictionaryEntry
      (Literal.commaList (dictionary.entries.map Directive.dictionaryEntry))
      = .ok (dictionary.entries.map fun e => (e.1.toList, Literal.quote e.2.toList)) := by
    unfold entries
    rw [hslots]
    apply mapM_map_eq_ok
    intro e he
    simp only [Directive.pair?_dictionaryEntry (Dictionary.isReference_of_mem h he)]
  have hback : (dictionary.entries.map fun e => (e.1.toList, Literal.quote e.2.toList)).map
      (fun e => (String.ofList e.1, literalText e.2)) = dictionary.entries := by
    rw [List.map_map]
    apply List.map_id''
    intro e
    simp only [Function.comp, String.ofList_toList, literalText_quote]
  unfold readDictionary
  rw [hentries]
  exact congrArg Except.ok (by rw [hback, SortedMap.ofList_entries])

/-- The entries of a schema line are read as the schema. -/
theorem readSchema_written (columns : Schema) :
    readSchema number (Literal.commaList (columns.map Directive.schemaEntry)) = .ok columns := by
  have hslots : Literal.slots (Literal.commaList (columns.map Directive.schemaEntry))
      = columns.map Directive.schemaEntry := by
    apply Literal.slots_of_isSlot
    intro part hp
    obtain ⟨column, _, rfl⟩ := List.mem_map.1 hp
    exact Directive.isSlot_schemaEntry column
  have hcolumns : (columns.map Directive.schemaEntry).mapM (readColumn number)
      = .ok (columns.map id) := by
    apply mapM_map_eq_ok
    intro column _
    unfold readColumn
    simp only [Directive.pair?_schemaEntry, String.ofList_toList, Kind.ofName?_name,
      FieldName.parse_render, id_eq]
  unfold readSchema
  rw [hslots, hcolumns, List.map_id]

/-- The entries of a defaults line are read as the defaults, with their references looked up in the
dictionary of the reader. -/
theorem readDefaults_written {writer : Dictionary} (hd : writer.HasReferences)
    (reader : Dictionary) {values : Defaults} (hvalues : values.HaveDistinctKeys) :
    readDefaults number reader
      (Literal.commaList (values.entries.map (Directive.defaultsEntry writer)))
      = .ok (values.reread writer reader) := by
  have hslots : Literal.slots (Literal.commaList
      (values.entries.map (Directive.defaultsEntry writer)))
      = values.entries.map (Directive.defaultsEntry writer) := by
    apply Literal.slots_of_isSlot
    intro part hp
    obtain ⟨e, _, rfl⟩ := List.mem_map.1 hp
    exact Directive.isSlot_defaultsEntry hd e
  have hentries : entries number .defaultsEntry
      (Literal.commaList (values.entries.map (Directive.defaultsEntry writer)))
      = .ok (values.entries.map fun e =>
        (FieldName.render e.1.toList, Literal.render writer e.2)) := by
    unfold entries
    rw [hslots]
    apply mapM_map_eq_ok
    intro e _
    simp only [Directive.pair?_defaultsEntry hd]
  have hback : (values.entries.map fun e =>
      (FieldName.render e.1.toList, Literal.render writer e.2)).map
      (fun e => (String.ofList (FieldName.parse e.1), Literal.parse reader e.2))
      = values.entries.map fun e => (e.1, e.2.mapStrings (writer.reread reader)) := by
    rw [List.map_map]
    apply List.map_congr_left
    intro e he
    simp only [Function.comp, FieldName.parse_render, String.ofList_toList,
      Literal.parse_render reader hd e.2 (hvalues e he)]
  unfold readDefaults
  rw [hentries]
  exact congrArg Except.ok (by rw [hback, SortedMap.ofList_mapped, Defaults.reread])

/-- The line of a directive has the effect of its body, as its mark says. -/
theorem apply_line {mark : List Char} (hmark : mark ∈ Directive.marks) (inner : List Char) :
    state.apply number (Directive.line mark inner)
      = if mark = Directive.dictionaryMark then do
          return { state with dictionary := ← readDictionary number inner }
        else if mark = Directive.schemaMark then do
          return { state with layout := ⟨← readSchema number inner, .empty⟩ }
        else if mark = Directive.defaultsMark then do
          let defaults ← readDefaults number state.dictionary inner
          return { state with layout := { state.layout with defaults } }
        else .ok state := by
  have hbody : ∀ part, body number part mark (Directive.line mark inner) = .ok inner := by
    intro part
    rw [body, Directive.body?_line]
  rw [apply, Directive.isPrefixOf_line_of_mem (by decide) hmark,
    Directive.isPrefixOf_line_of_mem (by decide) hmark,
    Directive.isPrefixOf_line_of_mem (by decide) hmark]
  simp only [decide_eq_true_eq]
  split
  · subst mark
    rw [hbody]
    rfl
  split
  · subst mark
    rw [hbody]
    rfl
  split
  · subst mark
    rw [hbody]
    rfl
  · rfl

/-- A dictionary line sets the dictionary. -/
theorem apply_dictionary {dictionary : Dictionary} (h : dictionary.HasReferences) :
    state.apply number (Directive.dictionary dictionary) = .ok { state with dictionary } := by
  have hmark : Directive.dictionaryMark ∈ Directive.marks := by decide
  have hline := apply_line state number hmark
    (Literal.commaList (dictionary.entries.map Directive.dictionaryEntry))
  rw [if_pos rfl, readDictionary_written number h] at hline
  exact hline

/-- A schema line sets the schema and clears the defaults. -/
theorem apply_schema (columns : Schema) :
    state.apply number (Directive.schema columns)
      = .ok { state with layout := ⟨columns, .empty⟩ } := by
  have hmark : Directive.schemaMark ∈ Directive.marks := by decide
  have hline := apply_line state number hmark
    (Literal.commaList (columns.map Directive.schemaEntry))
  rw [if_neg (by decide), if_pos rfl, readSchema_written number columns] at hline
  exact hline

/-- A defaults line sets the defaults, whose references are looked up in the dictionary
that is active. -/
theorem apply_defaults {writer : Dictionary} (hd : writer.HasReferences) {values : Defaults}
    (hvalues : values.HaveDistinctKeys) :
    state.apply number (Directive.defaults writer values) = .ok { state with
      layout := { state.layout with defaults := values.reread writer state.dictionary } } := by
  have hmark : Directive.defaultsMark ∈ Directive.marks := by decide
  have hline := apply_line state number hmark
    (Literal.commaList (values.entries.map (Directive.defaultsEntry writer)))
  rw [if_neg (by decide), if_neg (by decide), if_pos rfl,
    readDefaults_written number hd state.dictionary hvalues] at hline
  exact hline

/-- The line that marks a table as open to queries has no effect. -/
theorem apply_queryable (table : String) :
    state.apply number (Directive.queryable table) = .ok state :=
  apply_line state number (by decide : Directive.queryableMark ∈ Directive.marks) table.toList

/-- Nor has the line of a query. -/
theorem apply_query (text : String) : state.apply number (Directive.query text) = .ok state :=
  apply_line state number (by decide : Directive.queryMark ∈ Directive.marks) text.toList

end Directives
end TableNotation
