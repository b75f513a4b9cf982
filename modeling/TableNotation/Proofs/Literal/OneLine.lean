import TableNotation.Proofs.Literal.RoundTrip
/-!
# Literals stay on their line

Lines end at line feeds, and a carriage return in front of one belongs to the end of the line.  A
literal has neither, however deep its value is nested: texts and names are quoted, and inside
quotes both are written with a backslash in front; nothing else in a literal could be one.

* `isUnbroken_quote`, `isUnbroken_reference`, `isUnbroken_number`: the parts of literals.
* `holdsOfLiterals_isUnbroken`: the literal of every value.
* `isUnbroken_and_parse_render`: it reads back.
-/

namespace TableNotation

namespace Literal

/-- Whether a text has no character that ends a line. -/
def IsUnbroken (s : List Char) : Prop := ∀ c ∈ s, c ≠ '\n' ∧ c ≠ '\r'

instance (s : List Char) : Decidable (IsUnbroken s) :=
  List.decidableBAll (fun c => c ≠ '\n' ∧ c ≠ '\r') s

/-- A text stays on its line if both parts do. -/
theorem isUnbroken_append {s t : List Char} :
    IsUnbroken (s ++ t) ↔ IsUnbroken s ∧ IsUnbroken t := List.forall_mem_append

/-- So it does if the first character and the rest do. -/
theorem isUnbroken_cons {c : Char} {s : List Char} :
    IsUnbroken (c :: s) ↔ (c ≠ '\n' ∧ c ≠ '\r') ∧ IsUnbroken s := List.forall_mem_cons

/-- Inside quotes no character ends the line. -/
theorem isUnbroken_escapeChar (c : Char) : IsUnbroken (escapeChar c) := by
  by_cases hslash : c = '\\'
  · subst hslash
    decide
  by_cases hquote : c = '"'
  · subst hquote
    decide
  by_cases hfeed : c = '\n'
  · subst hfeed
    decide
  by_cases hreturn : c = '\r'
  · subst hreturn
    decide
  · intro d hd
    simp only [escapeChar, List.mem_singleton] at hd
    exact hd ▸ ⟨hfeed, hreturn⟩

/-- A text in quotes stays on its line. -/
theorem isUnbroken_quote (s : List Char) : IsUnbroken (quote s) := by
  have hescape : IsUnbroken (escape s) := by
    intro c hc
    obtain ⟨d, _, hd⟩ := List.mem_flatMap.1 hc
    exact isUnbroken_escapeChar d c hd
  exact isUnbroken_cons.2 ⟨by decide, isUnbroken_append.2 ⟨hescape, by decide⟩⟩

/-- Digits, points and signs do not end a line. -/
theorem isUnbroken_of_isNumeric {s : List Char} (h : ∀ c ∈ s, Number.isNumeric c = true) :
    IsUnbroken s := by
  intro c hc
  have hnumeric := h c hc
  constructor
  · intro heq
    subst heq
    exact absurd hnumeric (by decide)
  · intro heq
    subst heq
    exact absurd hnumeric (by decide)

/-- So does a number. -/
theorem isUnbroken_number (n : Number) : IsUnbroken (n.text floatLayout) :=
  isUnbroken_of_isNumeric fun _ => Number.isNumeric_of_mem_text fun _ => rfl

/-- So does a reference. -/
theorem isUnbroken_reference {s : String} (h : Dictionary.isReference s = true) :
    IsUnbroken s.toList := by
  obtain ⟨digits, hs, hdigits⟩ := Dictionary.toList_of_isReference h
  rw [hs]
  refine isUnbroken_cons.2 ⟨by decide, isUnbroken_of_isNumeric fun c hc => ?_⟩
  exact Number.isNumeric_of_isDigit (hdigits c hc)

/-- So do parts with commas between them. -/
theorem isUnbroken_commaList {parts : List (List Char)} (h : ∀ part ∈ parts, IsUnbroken part) :
    IsUnbroken (commaList parts) := forall_mem_commaList (by decide) (by decide) h

/-- What stands between two brackets on one line stands on one line with them. -/
theorem isUnbroken_bracketed {parts : List (List Char)} {left right : Char}
    (hbrackets : (left = '[' ∧ right = ']') ∨ (left = '\x7b' ∧ right = '\x7d'))
    (h : ∀ part ∈ parts, IsUnbroken part) :
    IsUnbroken (left :: (commaList parts ++ [right])) := by
  have hparts := isUnbroken_commaList h
  rcases hbrackets with ⟨rfl, rfl⟩ | ⟨rfl, rfl⟩
  · exact isUnbroken_cons.2 ⟨by decide, isUnbroken_append.2 ⟨hparts, by decide⟩⟩
  · exact isUnbroken_cons.2 ⟨by decide, isUnbroken_append.2 ⟨hparts, by decide⟩⟩

variable {dictionary : Dictionary}

/-- A text stays on its line, whether it is quoted or a reference. -/
theorem isUnbroken_renderString (hd : dictionary.HasReferences) (s : String) :
    IsUnbroken (renderString dictionary s) := by
  unfold renderString
  split
  · rename_i hs
    exact isUnbroken_reference (hd s hs)
  · exact isUnbroken_quote _

/-- No literal has a character that ends a line, and no entry of an object. -/
theorem holdsOfLiterals_isUnbroken (hd : dictionary.HasReferences) :
    HoldsOfLiterals dictionary IsUnbroken IsUnbroken where
  null := by decide
  bool_true := by decide
  bool_false := by decide
  number := isUnbroken_number
  string := isUnbroken_renderString hd
  array _ h := isUnbroken_bracketed (.inl ⟨rfl, rfl⟩) h
  field name value h := by
    have hvalue : IsUnbroken (':' :: ' ' :: value) :=
      isUnbroken_cons.2 ⟨by decide, isUnbroken_cons.2 ⟨by decide, h⟩⟩
    exact isUnbroken_append.2 ⟨isUnbroken_quote name, hvalue⟩
  object _ h := isUnbroken_bracketed (.inr ⟨rfl, rfl⟩) h

/-- A literal has no line feed and no carriage return, and it reads back as its value with the
references resolved: each text that the dictionary has is looked up, and the rest is as it was,
names of fields and numbers included. -/
theorem isUnbroken_and_parse_render (hd : dictionary.HasReferences) {v : Value}
    (h : v.hasDistinctKeys) :
    (∀ c ∈ render dictionary v, c ≠ '\n' ∧ c ≠ '\r') ∧
      parse dictionary (render dictionary v) = dictionary.resolve v :=
  ⟨(holdsOfLiterals_isUnbroken hd).render v, parse_render_self hd h⟩

/-- Names and texts with all that could cut a literal, a name and texts that look like references,
and two zeros. -/
theorem isUnbroken_and_parse_render_sample :
    let dictionary : Dictionary := SortedMap.ofList [("#0", "line\r\nline"), ("#12", "#0")]
    let v : Value := .object [("#0", .array [.string "#0", .string "#12", .string "#1"]),
      ("a, b: \"c\"\n", .object [("", .string "[1, \\"), ("null", .string "null")]),
      ("n", .array [.number (.integer 0 (by decide)), .number (.float (.zero true)), .object []])]
    parse dictionary (render dictionary v)
      = .object [("#0", .array [.string "line\r\nline", .string "#0", .string "#1"]),
        ("a, b: \"c\"\n", .object [("", .string "[1, \\"), ("null", .string "null")]),
        ("n", .array [.number (.integer 0 (by decide)), .number (.float (.zero true)),
          .object []])] := by
  intro dictionary v
  have hd : dictionary.HasReferences := Dictionary.hasReferences_of_mem (by decide +kernel)
  have hv : v.hasDistinctKeys := by decide +kernel
  have hfirst : dictionary.resolveString "#0" = "line\r\nline" := by decide +kernel
  have hsecond : dictionary.resolveString "#12" = "#0" := by decide +kernel
  have hothers : ∀ s ∈ ["#1", "[1, \\", "null"], dictionary.resolveString s = s := by
    decide +kernel
  simp only [List.forall_mem_cons] at hothers
  rw [(isUnbroken_and_parse_render hd hv).2]
  simp only [v, Dictionary.resolve, Value.mapStrings, Value.mapFields, Value.mapItems, hfirst,
    hsecond, hothers]

end Literal
end TableNotation
