import TableNotation.Proofs.Query.Coverage
import TableNotation.Proofs.Query.Printing
/-!
# Literals read back

A literal is written as one token that is read as the literal, with two exceptions.  A text
with a single quote ends for the reader where its first quote stands, since it is written
between single quotes as it is.  And a double that is written with an exponent is cut in front
of the exponent, since the numbers of queries have none.

* `ReadsBack`: the text of a value is one token that is read as the value.
* `isLiteral_of_readsBack`, `readsBack_of_isLiteral`: exactly the literals read back.
* `readsBack_iff`: which values these are.
-/

namespace TableNotation

open Token (IsNumeral)

/-- The text of a value is one token, which is read as this value. -/
def Value.ReadsBack (v : Value) : Prop :=
  ∃ token, Token.ofQuery v.queryText = .ok [token] ∧ Query.tokenValue token = .ok v

/-! ### Numbers -/

/-- A number literal has no exponent. -/
theorem exponent_not_mem_of_isNumeral {lexeme : List Char} (h : IsNumeral lexeme) :
    'e' ∉ lexeme :=
  Query.not_mem_of_isNumeral (by decide) (by decide) (by decide) h

/-- A token that is read as a number has the characters of a number literal. -/
theorem isNumeral_of_tokenValue {token : Token} {n : Number} (hlexed : token.IsLexed)
    (h : Query.tokenValue token = .ok (.number n)) : IsNumeral token.lexeme.toList := by
  cases Query.literal_of_tokenValue hlexed h with
  | number _ => exact hlexed.number rfl

namespace Value

/-- A double is a literal if it is written positionally, as are those that are neither large
nor small. -/
theorem isLiteral_float_iff (x : Double) : IsLiteral (.number (.float x)) ↔
    -5 ≤ (x.shortest .toEven).leadingExponent ∧ (x.shortest .toEven).leadingExponent ≤ 15 := by
  have hlayout : Json.floatLayout.positional (x.shortest .toEven).leadingExponent = true ↔
      -5 ≤ (x.shortest .toEven).leadingExponent ∧
        (x.shortest .toEven).leadingExponent ≤ 15 := by
    simp [Json.floatLayout]
  rw [← hlayout]
  constructor
  · exact positional_of_not_mem
  · intro hpositional
    obtain ⟨whole, fraction, hx, hne, hwhole, hfraction, _⟩ := Double.text_parts hpositional
    exact exponent_not_mem_of_isNumeral
      ⟨x.negative, whole, ⟨hne, hwhole⟩, .inr ⟨fraction, hfraction, hx⟩⟩

/-- A number that reads back is written without an exponent: it would stand in the only token,
and no number literal has one. -/
theorem exponent_not_mem_of_readsBack {n : Number} (h : ReadsBack (.number n)) :
    'e' ∉ n.text Json.floatLayout := by
  obtain ⟨token, hscan, hvalue⟩ := h
  intro hmem
  have hlexed := Token.isLexed_of_ofQuery hscan token List.mem_cons_self
  obtain ⟨other, hother, he⟩ := Token.exists_mem_lexeme_of_scan hscan hmem (by decide)
  obtain rfl := List.mem_singleton.1 hother
  exact exponent_not_mem_of_isNumeral (isNumeral_of_tokenValue hlexed hvalue) he

/-! ### Texts -/

/-- A text that reads back has no single quote: the token would end at the first one. -/
theorem quote_not_mem_of_readsBack {s : String} (h : ReadsBack (.string s)) :
    '\'' ∉ s.toList := by
  obtain ⟨token, hscan, hvalue⟩ := h
  intro hmem
  obtain ⟨front, behind, hs, hfront⟩ := List.eq_append_cons_of_mem hmem
  have htext : queryText (.string s) = '\'' :: (front ++ '\'' :: (behind ++ ['\''])) := by
    simp [queryText, singleQuote, hs]
  rw [htext] at hscan
  obtain ⟨kind, lexeme, more, hfirst, htoken, _⟩ :=
    Token.exists_first_of_scan (by decide) hscan
  rw [Token.first?_quote (.inl rfl) hfront] at hfirst
  obtain ⟨rfl, rfl⟩ := Prod.mk.inj (Option.some.inj hfirst)
  obtain ⟨rfl, _⟩ := List.cons.inj htoken
  have hread : s = String.ofList front := by
    simpa [Query.tokenValue, String.toList_ofList] using hvalue.symm
  rw [hread, String.toList_ofList] at hmem
  exact hfront hmem

/-! ### Lists and objects -/

/-- A list begins with a parenthesis, which is no value. -/
theorem not_readsBack_array (items : List Value) : ¬ ReadsBack (.array items) := by
  rintro ⟨token, hscan, hvalue⟩
  obtain ⟨kind, lexeme, more, hfirst, htoken, _⟩ :=
    Token.exists_first_of_scan (by decide) hscan
  obtain ⟨rfl, rfl⟩ := Prod.mk.inj (Option.some.inj hfirst)
  obtain ⟨rfl, _⟩ := List.cons.inj htoken
  cases hvalue

/-- An object begins with a brace, which begins no token. -/
theorem not_readsBack_object (fields : List (String × Value)) :
    ¬ ReadsBack (.object fields) := by
  rintro ⟨token, hscan, _⟩
  obtain ⟨kind, lexeme, more, hfirst, _⟩ := Token.exists_first_of_scan (by decide) hscan
  cases hfirst

/-! ### All values -/

/-- The text of a literal is the token that means it. -/
theorem readsBack_of_isLiteral {v : Value} (h : v.IsLiteral) : v.ReadsBack := by
  have hends : Token.EndsToken [] := nofun
  obtain ⟨_, ⟨token, hliteral, rfl⟩, hscan⟩ := cuts_literal h 0 [] [] hends (by rw [Token.scan])
  rw [List.append_nil, List.append_nil] at hscan
  exact ⟨token, hscan, Query.tokenValue_of_literal hliteral⟩

/-- The values that read back are the literals. -/
theorem isLiteral_of_readsBack {v : Value} (h : v.ReadsBack) : v.IsLiteral := by
  cases v with
  | null => trivial
  | bool b => trivial
  | number n =>
    cases n with
    | integer n fits => trivial
    | float x => exact exponent_not_mem_of_readsBack h
  | string s => exact quote_not_mem_of_readsBack h
  | array items => exact absurd h (not_readsBack_array items)
  | object fields => exact absurd h (not_readsBack_object fields)

/-- The values that read back from their text are null, truth values, integers, texts without a
single quote, and doubles whose first digit has a power of ten from -5 to 15. -/
theorem readsBack_iff (v : Value) : v.ReadsBack ↔
    match v with
    | .string s => '\'' ∉ s.toList
    | .number (.float x) =>
      -5 ≤ (x.shortest .toEven).leadingExponent ∧ (x.shortest .toEven).leadingExponent ≤ 15
    | .array _ | .object _ => False
    | .null | .bool _ | .number (.integer ..) => True := by
  have hliteral : v.ReadsBack ↔ v.IsLiteral := ⟨isLiteral_of_readsBack, readsBack_of_isLiteral⟩
  rw [hliteral]
  cases v with
  | number n =>
    cases n with
    | integer n fits => exact Iff.rfl
    | float x => exact isLiteral_float_iff x
  | _ => exact Iff.rfl

/-- A text with a single quote does not read back, nor does the double that is written
`1e+20`.  A query that compares a field with such a text is refused when it is read back, or
read as another query: here as one with an OR. -/
theorem literals_lost :
    let large : Double := ⟨false, 6103515625000000, 1088, by decide⟩
    let equals (field s : String) : Node := .condition ⟨field, .equal, .string s, none⟩
    let query (connective : Connective) (operands : List Node) : Query :=
      ⟨"t", none, some ⟨connective, operands⟩, none, .ascending, none, 0⟩
    ¬ ReadsBack (.string "it's") ∧ ¬ ReadsBack (.number (.float large)) ∧
      (Query.parse (String.ofList (query .and [equals "a" "it's"]).text)).isOk = false ∧
      Query.parse (String.ofList (query .and [equals "a" "x' OR b = 'y"]).text)
        = .ok (query .or [equals "a" "x", equals "b" "y"]) := by
  intro large equals query
  have hlarge : 'e' ∈ (Number.float large).text Json.floatLayout := by decide +kernel
  refine ⟨fun h => quote_not_mem_of_readsBack h (by decide),
    fun h => exponent_not_mem_of_readsBack h hlarge, by decide +kernel, ?_⟩
  have htext : (query .and [equals "a" "x' OR b = 'y"]).text
      = (query .or [equals "a" "x", equals "b" "y"]).text := by decide +kernel
  have hbuilt : (query .or [equals "a" "x", equals "b" "y"]).IsBuilt := by
    refine ⟨by decide, nofun, ?_, nofun, fun _ => rfl, nofun, by decide⟩
    intro group hgroup
    obtain rfl := Option.some.inj hgroup
    refine .node (.chain nofun (by decide) (List.forall_mem_cons.2 ⟨?_, ?_⟩))
    · exact .condition ⟨by decide, by decide, rfl⟩
    · exact List.forall_mem_singleton.2 (.condition ⟨by decide, by decide, rfl⟩)
  obtain ⟨tokens, htokens, hderives⟩ := ofQuery_text hbuilt
  rw [htext, Query.parse, String.toList_ofList, Query.parseChars,
    Query.unwrap_eq_self (by decide +kernel), htokens]
  exact Query.ofTokens_of_derives hderives

end Value
end TableNotation
