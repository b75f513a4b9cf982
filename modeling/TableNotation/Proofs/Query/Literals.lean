import TableNotation.Proofs.Number.ReadBack
import TableNotation.Proofs.Query.Grammar
import TableNotation.Proofs.Success
import TableNotation.Query.Parser
/-!
# Literals of queries

The characters of a token tell what it means: a text stands between two equal quotes, a
number has digits, perhaps with a sign in front and with a point and more digits behind, and
an identifier is a word.
For tokens of this form the value that is read is the one that the grammar gives.

* `Token.First`: what the first token of a text can be.
* `Token.IsLexed`: the form of tokens; `isLexed_of_ofQuery`: all tokens of a text have it.
* `tokenValue_of_literal`, `literal_of_tokenValue`: values.
* `readCount?_of_isDigits`, `isDigits_of_readCount?`: numbers of records.
-/

namespace TableNotation

open Query.Grammar

namespace Token

/-- The characters of a number: a sign, digits, and perhaps a point and more digits. -/
def IsNumeral (lexeme : List Char) : Prop :=
  ∃ negative whole, IsDigits whole ∧ (lexeme = sign negative ++ whole ∨
    ∃ fraction, (∀ c ∈ fraction, c.isDigit = true) ∧
      lexeme = sign negative ++ (whole ++ '.' :: fraction))

/-- The characters of a name: letters, digits and underscores, without a digit in front. -/
def IsName (lexeme : List Char) : Prop :=
  ∃ c tail, isWordStart c = true ∧ (∀ d ∈ tail, isWordChar d = true) ∧ lexeme = c :: tail

/-- Texts, numbers and identifiers are written as texts, numbers and names. -/
structure IsLexed (token : Token) : Prop where
  string : token.kind = .string →
    ∃ quote inner, token.lexeme.toList = quote :: (inner ++ [quote])
  number : token.kind = .number → IsNumeral token.lexeme.toList
  identifier : token.kind = .identifier → IsName token.lexeme.toList

/-- A word is a keyword, or an identifier that is taken as it is. -/
theorem word_kind (c : Char) (rest : List Char) :
    (∃ keyword, (word c rest).1 = .keyword keyword) ∨
      word c rest = (.identifier, c :: rest.takeWhile isWordChar) := by
  simp only [word]
  split
  · cases byTail? (rest.dropWhile isWordChar) with
    | some tail => exact .inl ⟨_, rfl⟩
    | none => exact .inr rfl
  · cases Keyword.ofWord? (c :: rest.takeWhile isWordChar) with
    | some keyword => exact .inl ⟨_, rfl⟩
    | none => exact .inr rfl

/-- Digits, and perhaps a point and more digits, without a sign in front. -/
theorem isNumeral_unsigned {c : Char} (hc : c.isDigit = true) (rest : List Char)
    (negative : Bool) : IsNumeral (sign negative ++ unsigned (c :: rest)) := by
  have hwhole : IsDigits ((c :: rest).takeWhile Char.isDigit) :=
    ⟨by simp [hc], fun _ hd => List.all_eq_true.1 List.all_takeWhile _ hd⟩
  refine ⟨negative, _, hwhole, ?_⟩
  unfold unsigned
  split
  · rename_i behind _
    exact .inr ⟨behind.takeWhile Char.isDigit,
      fun _ hd => List.all_eq_true.1 List.all_takeWhile _ hd, rfl⟩
  · exact .inl rfl

/-- What a token at the beginning of a text can be, by its first character `c`. -/
inductive First (c : Char) (rest : List Char) : TokenKind → List Char → Prop
  | word (hstart : isWordStart c = true) : First c rest (word c rest).1 (word c rest).2
  | digits (hdigit : c.isDigit = true) : First c rest .number (unsigned (c :: rest))
  | negative (hminus : c = '-') (hdigit : (rest.headD ' ').isDigit = true) :
      First c rest .number (c :: unsigned rest)
  | quoted {tail : List Char} (hquote : c = '\'' ∨ c = '"') (htail : quoted? c rest = some tail) :
      First c rest .string (c :: tail)
  | punctuation {kind : TokenKind}
      (hkind : (c, kind) ∈ [(',', TokenKind.comma), ('(', .leftParen), (')', .rightParen)]) :
      First c rest kind [c]
  | operator {tail : List Char} (htail : operatorTail? c rest.head? = some tail) :
      First c rest .operator (c :: tail)

/-- The three signs that are tokens by themselves. -/
theorem punctuation_cases {c : Char} {kind : TokenKind}
    (h : (c, kind) ∈ [(',', TokenKind.comma), ('(', .leftParen), (')', .rightParen)]) :
    c = ',' ∧ kind = .comma ∨ c = '(' ∧ kind = .leftParen ∨ c = ')' ∧ kind = .rightParen := by
  simpa using h

theorem first_of_first? {c : Char} {rest lexeme : List Char} {kind : TokenKind}
    (h : first? c rest = some (kind, lexeme)) : First c rest kind lexeme := by
  unfold first? at h
  split at h
  · obtain ⟨rfl, rfl⟩ := Prod.mk.inj (Option.some.inj h)
    exact .word ‹_›
  split at h
  · obtain ⟨rfl, rfl⟩ := Prod.mk.inj (Option.some.inj h)
    exact .digits ‹_›
  split at h
  · rename_i hminus
    split at h
    · obtain ⟨rfl, rfl⟩ := Prod.mk.inj (Option.some.inj h)
      rw [← hminus]
      exact .negative hminus ‹_›
    · cases h
  split at h
  · rename_i hquote
    obtain ⟨tail, htail, hpair⟩ := Option.map_eq_some_iff.1 h
    obtain ⟨rfl, rfl⟩ := Prod.mk.inj hpair
    exact .quoted (by simpa using hquote) htail
  split at h
  · obtain ⟨rfl, rfl⟩ := Prod.mk.inj (Option.some.inj h)
    exact .punctuation (by simp [‹c = ','›])
  split at h
  · obtain ⟨rfl, rfl⟩ := Prod.mk.inj (Option.some.inj h)
    exact .punctuation (by simp [‹c = '('›])
  split at h
  · obtain ⟨rfl, rfl⟩ := Prod.mk.inj (Option.some.inj h)
    exact .punctuation (by simp [‹c = ')'›])
  · obtain ⟨tail, htail, hpair⟩ := Option.map_eq_some_iff.1 h
    obtain ⟨rfl, rfl⟩ := Prod.mk.inj hpair
    exact .operator htail

/-- The form of a token at the beginning of a text. -/
theorem isLexed_of_first? {c : Char} {rest lexeme : List Char} {kind : TokenKind}
    (h : first? c rest = some (kind, lexeme)) (position : Nat) :
    IsLexed ⟨kind, String.ofList lexeme, position⟩ := by
  suffices hform : (kind = .string → ∃ quote inner, lexeme = quote :: (inner ++ [quote])) ∧
      (kind = .number → IsNumeral lexeme) ∧ (kind = .identifier → IsName lexeme) by
    refine ⟨?_, ?_, ?_⟩ <;> simp only [String.toList_ofList]
    · exact hform.1
    · exact hform.2.1
    · exact hform.2.2
  cases first_of_first? h with
  | word hstart =>
    rcases word_kind c rest with ⟨keyword, hword⟩ | hword <;> rw [hword]
    · exact ⟨nofun, nofun, nofun⟩
    · exact ⟨nofun, nofun, fun _ => ⟨c, _, hstart,
        fun _ hd => List.all_eq_true.1 List.all_takeWhile _ hd, rfl⟩⟩
  | digits hdigit => exact ⟨nofun, fun _ => isNumeral_unsigned hdigit rest false, nofun⟩
  | negative hminus hdigit =>
    rw [hminus]
    cases rest with
    | nil => exact absurd hdigit (by decide)
    | cons d rest => exact ⟨nofun, fun _ => isNumeral_unsigned hdigit rest true, nofun⟩
  | @quoted tail _ htail =>
    refine ⟨fun _ => ?_, nofun, nofun⟩
    simp only [quoted?] at htail
    split at htail
    · obtain rfl := Option.some.inj htail
      exact ⟨c, _, rfl⟩
    · cases htail
  | punctuation hkind =>
    rcases punctuation_cases hkind with ⟨_, rfl⟩ | ⟨_, rfl⟩ | ⟨_, rfl⟩ <;> exact ⟨nofun, nofun, nofun⟩
  | operator htail => exact ⟨nofun, nofun, nofun⟩

/-- What holds of every token that can stand at the beginning of a text holds of all tokens
of a text. -/
theorem forall_of_scan {P : Token → Prop}
    (hfirst : ∀ c rest kind lexeme, first? c rest = some (kind, lexeme) →
      ∀ position, P ⟨kind, String.ofList lexeme, position⟩)
    {position : Nat} {text : List Char} {tokens : List Token}
    (h : scan position text = .ok tokens) : ∀ token ∈ tokens, P token := by
  induction position, text using scan.induct generalizing tokens with
  | case1 position =>
    rw [scan] at h
    obtain rfl := Except.ok.inj h
    exact fun _ hmem => absurd hmem List.not_mem_nil
  | case2 position c rest hseparator ih =>
    rw [scan, if_pos hseparator] at h
    exact ih h
  | case3 position c rest hseparator hnone =>
    rw [scan, if_neg hseparator, hnone] at h
    cases h
  | case4 position c rest hseparator kind lexeme htoken ih =>
    rw [scan, if_neg hseparator, htoken] at h
    obtain ⟨more, hmore, htokens⟩ := bind_eq_ok.1 h
    obtain rfl := Except.ok.inj htokens
    exact List.forall_mem_cons.2 ⟨hfirst c rest kind lexeme htoken position, ih hmore⟩

/-- All tokens of a text have the form of tokens. -/
theorem isLexed_of_ofQuery {text : List Char} {tokens : List Token}
    (h : ofQuery text = .ok tokens) : ∀ token ∈ tokens, token.IsLexed :=
  forall_of_scan (fun _ _ _ _ htoken => isLexed_of_first? htoken) h

end Token

namespace Query

/-- The decimal of digits around a point. -/
theorem ofParts_zero (whole fraction : List Char) : Decimal.ofParts whole fraction 0
    = ⟨naturalOf (whole ++ fraction), -(fraction.length : Int)⟩ := by
  simp only [Decimal.ofParts]
  congr 1
  omega

/-- A number literal is read as what it means. -/
theorem read?_of_numeral {lexeme : List Char} {n : Number} (h : Numeral lexeme n) :
    Number.read? lexeme = some n := by
  cases h with
  | integer negative hdigits fits =>
    exact (Number.read?_digits hdigits.1 hdigits.2 negative).trans (dif_pos fits)
  | float negative hwhole hfraction hvalue =>
    rw [sign, Number.read?_point hwhole.1 hwhole.2 hfraction, ofParts_zero, hvalue]
    rfl

theorem eq_integer_of_ofInt? {m : Int} {n : Number} (h : Number.ofInt? m = some n) :
    ∃ fits, n = .integer m fits := by
  unfold Number.ofInt? at h
  split at h
  · rename_i fits
    exact ⟨fits, (Option.some.inj h).symm⟩
  · cases h

/-- What is read from the characters of a number is what they mean. -/
theorem numeral_of_read? {lexeme : List Char} {n : Number} (hlexeme : Token.IsNumeral lexeme)
    (h : Number.read? lexeme = some n) : Numeral lexeme n := by
  obtain ⟨negative, whole, hwhole, rfl | ⟨fraction, hfraction, rfl⟩⟩ := hlexeme
  · rw [sign, Number.read?_digits hwhole.1 hwhole.2] at h
    obtain ⟨fits, rfl⟩ := eq_integer_of_ofInt? h
    exact .integer negative hwhole fits
  · rw [sign, Number.read?_point hwhole.1 hwhole.2 hfraction, ofParts_zero] at h
    obtain ⟨x, hx, rfl⟩ := Option.map_eq_some_iff.1 h
    exact .float negative hwhole hfraction hx

theorem ofList_toUpper_eq_iff {word capitals : String} :
    String.ofList (word.toList.map Char.toUpper) = capitals ↔ Spells word capitals := by
  rw [Spells, ← String.toList_inj, String.toList_ofList]

theorem Grammar.Spells.not_spells {word capitals others : String} (h : Spells word capitals)
    (hne : capitals ≠ others) : ¬ Spells word others := by
  intro hothers
  exact hne (String.toList_inj.1 (h.symm.trans hothers))

/-- The token that means a value is read as this value. -/
theorem tokenValue_of_literal {token : Token} {v : Value} (h : Literal token v) :
    tokenValue token = .ok v := by
  cases h with
  | string quote => simp [tokenValue, String.toList_ofList]
  | number hn => simp only [tokenValue, read?_of_numeral hn]
  | trueWord hword =>
    simp only [tokenValue, wordValue, ofList_toUpper_eq_iff]
    rw [if_pos hword]
  | falseWord hword =>
    simp only [tokenValue, wordValue, ofList_toUpper_eq_iff]
    rw [if_neg (hword.not_spells (by decide)), if_pos hword]
  | nullWord hword =>
    simp only [tokenValue, wordValue, ofList_toUpper_eq_iff]
    rw [if_neg (hword.not_spells (by decide)), if_neg (hword.not_spells (by decide)),
      if_pos hword]
  | otherWord htrue hfalse hnull =>
    simp only [tokenValue, wordValue, ofList_toUpper_eq_iff]
    rw [if_neg htrue, if_neg hfalse, if_neg hnull]

/-- The value that is read from a token is what the token means. -/
theorem literal_of_tokenValue {token : Token} (hlexed : token.IsLexed) {v : Value}
    (h : tokenValue token = .ok v) : Literal token v := by
  obtain ⟨kind, lexeme, position⟩ := token
  cases kind with
  | string =>
    obtain ⟨quote, inner, hlexeme⟩ := hlexed.string rfl
    obtain rfl : lexeme = String.ofList (quote :: (inner ++ [quote])) := by
      rw [← hlexeme, String.ofList_toList]
    obtain rfl := Except.ok.inj h
    simpa using Literal.string quote
  | number =>
    simp only [tokenValue] at h
    cases hread : Number.read? lexeme.toList with
    | none =>
      rw [hread] at h
      cases h
    | some n =>
      rw [hread] at h
      obtain rfl := Except.ok.inj h
      exact .number (numeral_of_read? (hlexed.number rfl) hread)
  | identifier =>
    simp only [tokenValue, wordValue, ofList_toUpper_eq_iff] at h
    obtain rfl := Except.ok.inj h
    split
    · exact .trueWord ‹_›
    split
    · exact .falseWord ‹_›
    split
    · exact .nullWord ‹_›
    · exact .otherWord ‹_› ‹_› ‹_›
  | _ => cases h

theorem not_mem_of_isDigits {c : Char} (hc : c.isDigit = false) {s : List Char}
    (h : ∀ d ∈ s, d.isDigit = true) : c ∉ s := by
  intro hmem
  rw [h c hmem] at hc
  cases hc

/-- The characters of a number are digits but for its sign and its point. -/
theorem not_mem_of_isNumeral {c : Char} (hc : c.isDigit = false) (hminus : c ≠ '-')
    (hpoint : c ≠ '.') {s : List Char} (h : Token.IsNumeral s) : c ∉ s := by
  obtain ⟨negative, whole, hwhole, hs⟩ := h
  have hsign : c ∉ sign negative := by cases negative <;> simp [sign, hminus]
  have hwhole := not_mem_of_isDigits hc hwhole.2
  rcases hs with rfl | ⟨fraction, hfraction, rfl⟩
  · simp [hsign, hwhole]
  · simp [hsign, hwhole, hpoint, not_mem_of_isDigits hc hfraction]

/-- Without a plus sign a count is all digits. -/
theorem readCount?_eq {s : List Char} (h : '+' ∉ s) : readCount? s
    = if !s.isEmpty && s.all Char.isDigit && naturalOf s < 2 ^ 64 then some (naturalOf s)
      else none := by
  unfold readCount?
  split
  · exact absurd List.mem_cons_self h
  · rfl

/-- The digits that mean a number of records are read as this number. -/
theorem readCount?_of_isDigits {s : List Char} (hs : IsDigits s) (hfits : naturalOf s < 2 ^ 64) :
    readCount? s = some (naturalOf s) := by
  rw [readCount?_eq (not_mem_of_isDigits (by decide) hs.2), if_pos]
  simp only [Bool.and_eq_true, Bool.not_eq_true', List.isEmpty_eq_false_iff, List.all_eq_true,
    decide_eq_true_eq]
  exact ⟨hs, hfits⟩

/-- A number of records is read from digits only. -/
theorem isDigits_of_readCount? {s : List Char} (hs : Token.IsNumeral s) {n : Nat}
    (h : readCount? s = some n) : IsDigits s ∧ naturalOf s < 2 ^ 64 ∧ n = naturalOf s := by
  rw [readCount?_eq (not_mem_of_isNumeral (by decide) (by decide) (by decide) hs)] at h
  split at h
  · rename_i hcount
    simp only [Bool.and_eq_true, Bool.not_eq_true', List.isEmpty_eq_false_iff, List.all_eq_true,
      decide_eq_true_eq] at hcount
    exact ⟨hcount.1, hcount.2, (Option.some.inj h).symm⟩
  · cases h

end Query
end TableNotation
