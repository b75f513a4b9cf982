import TableNotation.Proofs.Literal.OneLine
import TableNotation.Proofs.Table.DirectiveLine
/-!
# Written directives take effect

The line of a directive says what it puts into force, and a reader in any state puts just that into
force.  No line is broken by what is written in it: a name of a column that could end the line is
written in quotes, and so are the texts of a dictionary and of values.

* `isUnbroken_dictionary`, `isUnbroken_schema`, `isUnbroken_defaults`: each directive is one line.
* `apply_written`: the effect of each of them.
-/

namespace TableNotation

/-- A name without quotes has no character that ends a line, and quotes let none stand. -/
theorem FieldName.isUnbroken_render (name : List Char) : Literal.IsUnbroken (render name) := by
  unfold render
  split
  · rename_i hbare
    obtain ⟨_, _, _, hspecial⟩ := isBare_iff.1 hbare
    have hnot : ∀ mark, isSpecial mark = true → mark ∉ name := by
      intro mark hmark hmem
      rw [hspecial mark hmem] at hmark
      exact Bool.false_ne_true hmark
    intro c hc
    constructor
    · intro heq
      exact hnot '\n' (by decide) (heq ▸ hc)
    · intro heq
      exact hnot '\r' (by decide) (heq ▸ hc)
  · exact Literal.isUnbroken_quote name

/-- The name of a kind stays on its line. -/
theorem Kind.isUnbroken_name (kind : Kind) : Literal.IsUnbroken kind.name.toList := by
  cases kind <;> decide

namespace Directive

variable {dictionary : Dictionary}

/-- A directive stays on its line if its entries do. -/
theorem isUnbroken_line {mark : List Char} (hmark : Literal.IsUnbroken mark)
    {parts : List (List Char)} (h : ∀ part ∈ parts, Literal.IsUnbroken part) :
    Literal.IsUnbroken (line mark (Literal.commaList parts)) :=
  Literal.isUnbroken_append.2 ⟨hmark, Literal.isUnbroken_bracketed (.inl ⟨rfl, rfl⟩) h⟩

/-- An entry stays on its line if its name and its value do. -/
theorem isUnbroken_entry {name value : List Char} (hname : Literal.IsUnbroken name)
    (hvalue : Literal.IsUnbroken value) : Literal.IsUnbroken (name ++ ':' :: value) :=
  Literal.isUnbroken_append.2 ⟨hname, Literal.isUnbroken_cons.2 ⟨by decide, hvalue⟩⟩

/-- A dictionary is one line: its keys are references, and its texts stand in quotes. -/
theorem isUnbroken_dictionary (hd : dictionary.HasReferences) :
    Literal.IsUnbroken (Directive.dictionary dictionary) := by
  apply isUnbroken_line (by decide)
  intro part hpart
  obtain ⟨e, he, rfl⟩ := List.mem_map.1 hpart
  exact isUnbroken_entry (Literal.isUnbroken_reference (Dictionary.isReference_of_mem hd he))
    (Literal.isUnbroken_quote _)

/-- A schema is one line, whatever the names of its columns. -/
theorem isUnbroken_schema (columns : Schema) : Literal.IsUnbroken (schema columns) := by
  apply isUnbroken_line (by decide)
  intro part hpart
  obtain ⟨column, _, rfl⟩ := List.mem_map.1 hpart
  exact isUnbroken_entry (FieldName.isUnbroken_render _) column.2.isUnbroken_name

/-- Defaults are one line, whatever their values. -/
theorem isUnbroken_defaults (hd : dictionary.HasReferences) (values : Defaults) :
    Literal.IsUnbroken (defaults dictionary values) := by
  apply isUnbroken_line (by decide)
  intro part hpart
  obtain ⟨e, _, rfl⟩ := List.mem_map.1 hpart
  exact isUnbroken_entry (FieldName.isUnbroken_render _)
    ((Literal.holdsOfLiterals_isUnbroken hd).render e.2)

end Directive

namespace Directives

/-- Written directives are single lines, and in any state each puts into force what it was written
for, and leaves the rest of the state as it is.  A dictionary is set; a schema is set, whatever the
names of its columns, and the defaults are cleared; defaults are set with their references
resolved, if the dictionary with which they were written is in force. -/
theorem apply_written (state : Directives) (number : Nat) {dictionary : Dictionary}
    (hd : dictionary.HasReferences) (columns : Schema) {values : Defaults}
    (hvalues : values.HaveDistinctKeys) :
    (∀ line ∈ [Directive.dictionary dictionary, Directive.schema columns,
        Directive.defaults dictionary values], ∀ c ∈ line, c ≠ '\n' ∧ c ≠ '\r') ∧
      state.apply number (Directive.dictionary dictionary) = .ok ⟨dictionary, state.layout⟩ ∧
      state.apply number (Directive.schema columns)
        = .ok ⟨state.dictionary, ⟨columns, .empty⟩⟩ ∧
      (state.dictionary = dictionary → state.apply number (Directive.defaults dictionary values)
        = .ok ⟨dictionary, ⟨state.layout.schema, values.mapValues dictionary.resolve⟩⟩) := by
  refine ⟨?_, apply_dictionary state number hd, apply_schema state number columns, ?_⟩
  · intro line hline
    simp only [List.mem_cons, List.not_mem_nil, or_false] at hline
    rcases hline with rfl | rfl | rfl
    · exact Directive.isUnbroken_dictionary hd
    · exact Directive.isUnbroken_schema columns
    · exact Directive.isUnbroken_defaults hd values
  · intro hactive
    have happly := apply_defaults state number hd hvalues
    rw [hactive, Defaults.reread, Dictionary.reread_self] at happly
    exact happly

/-- Columns whose names are empty, could end the line, or look like an entry or a reference, one of
them twice; and a default that holds references, one of which the dictionary does not have. -/
theorem apply_written_sample :
    let dictionary : Dictionary := SortedMap.ofList [("#0", "a, b: \"c\"\n"), ("#1", "]")]
    let columns : Schema := [("", .int), (" x:y,", .str), ("#0", .array), ("\r\n", .null),
      ("n", .int), ("n", .int)]
    let values : Defaults := SortedMap.ofList [(" x:y,", .string "#0"),
      ("#0", .array [.string "#1", .string "#2", .object [("#1", .string "#1")]])]
    let state : Directives := ⟨dictionary, ⟨[], .empty⟩⟩
    Literal.IsUnbroken (Directive.schema columns) ∧
      state.apply 1 (Directive.schema columns) = .ok ⟨dictionary, ⟨columns, .empty⟩⟩ ∧
      ∃ next, state.apply 1 (Directive.defaults dictionary values) = .ok next ∧
        next.layout.defaults.get? "#0" = some (.array [.string "]", .string "#2",
          .object [("#1", .string "]")]]) := by
  intro dictionary columns values state
  have hd : dictionary.HasReferences := Dictionary.hasReferences_of_mem (by decide +kernel)
  have hvalues : values.HaveDistinctKeys := by
    unfold Defaults.HaveDistinctKeys
    decide +kernel
  obtain ⟨hlines, _, hschema, hdefaults⟩ := apply_written state 1 hd columns hvalues
  have hget : values.get? "#0" = some (.array [.string "#1", .string "#2",
      .object [("#1", .string "#1")]]) := by rfl
  have hknown : dictionary.resolveString "#1" = "]" := by decide +kernel
  have hunknown : dictionary.resolveString "#2" = "#2" := by decide +kernel
  refine ⟨hlines _ (by simp), hschema, _, hdefaults rfl, ?_⟩
  rw [SortedMap.get?_mapValues, hget]
  simp only [Option.map_some, Dictionary.resolve, Value.mapStrings, Value.mapItems,
    Value.mapFields, hknown, hunknown]

end Directives
end TableNotation
