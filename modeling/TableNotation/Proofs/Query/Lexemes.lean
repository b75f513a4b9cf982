import TableNotation.Proofs.Query.Coverage
import TableNotation.Proofs.Query.Lexing
/-!
# The token at the beginning of a text

Which texts are tokens is said kind by kind, without the scanner: a keyword in any case,
`ORDER` and `BY` with separators between them, a name that is no keyword, a numeral, a text
in quotes of either sort, an operator, a comma or a parenthesis.
A token can begin a text if it is not a word that goes on.  The scanner takes the longest
token that can begin its text, and finds one whenever there is one.

* `IsLexeme`, `IsLexeme.kind_unique`: a text is a token of at most one kind.
* `Begins`, `IsFirst`: the tokens that can begin a text, and the longest of them.
* `front?_eq_some_iff`, `front?_eq_none_iff`: what the scanner finds at the beginning of a
  text.
-/

namespace TableNotation

namespace TokenKind

/-- Whether the tokens of a kind are words. -/
def isWord : TokenKind → Bool
  | keyword _ | identifier => true
  | _ => false

end TokenKind

namespace Token

/-- Separators and the word `BY`, which make a keyword of the word `ORDER` in front. -/
def IsByTail (tail : List Char) : Prop :=
  ∃ gap second, tail = gap ++ second ∧ gap ≠ [] ∧ (∀ c ∈ gap, isSeparator c = true) ∧
    second.map Char.toUpper = ['B', 'Y']

/-- The characters of tokens, by their kinds. -/
inductive IsLexeme : TokenKind → List Char → Prop
  | keyword {word : Keyword} {s : List Char} (hne : word ≠ .orderBy)
      (hspelt : s.map Char.toUpper = word.name.toList) : IsLexeme (.keyword word) s
  | orderBy {order tail : List Char} (horder : order.map Char.toUpper = ['O', 'R', 'D', 'E', 'R'])
      (hby : IsByTail tail) : IsLexeme (.keyword .orderBy) (order ++ tail)
  | identifier {s : List Char} (hname : IsName s)
      (hfree : ∀ word : Keyword, s.map Char.toUpper ≠ word.name.toList) : IsLexeme .identifier s
  | number {s : List Char} (hnumeral : IsNumeral s) : IsLexeme .number s
  | string {quote : Char} {inner : List Char} (hquote : quote = '\'' ∨ quote = '"')
      (hinner : quote ∉ inner) : IsLexeme .string (quote :: (inner ++ [quote]))
  | operator {symbol : String} {comparison : Comparison}
      (hsymbol : (symbol, comparison) ∈ Query.Grammar.operators) :
      IsLexeme .operator symbol.toList
  | punctuation {c : Char} {kind : TokenKind}
      (hkind : (c, kind) ∈ [(',', TokenKind.comma), ('(', .leftParen), (')', .rightParen)]) :
      IsLexeme kind [c]

/-- A token can stand in front of a text: a word does not go on there. -/
structure Begins (kind : TokenKind) (lexeme rest : List Char) : Prop where
  isLexeme : IsLexeme kind lexeme
  ends : kind.isWord = true → EndsName rest

/-- No longer token can begin the same text. -/
structure IsFirst (kind : TokenKind) (lexeme rest : List Char) : Prop
    extends Begins kind lexeme rest where
  longest : ∀ other s behind, Begins other s behind → s ++ behind = lexeme ++ rest →
    s.length ≤ lexeme.length

/-- The token that is found at the beginning of a text. -/
def front? : List Char → Option (TokenKind × List Char)
  | [] => none
  | c :: rest => first? c rest

/-! ### Words in capitals -/

theorem isAlpha_of_toUpper {c : Char} (h : c.toUpper.isAlpha = true) : c.isAlpha = true := by
  unfold Char.toUpper at h
  split at h
  · rename_i hlower
    have hc : c.isLower = true := by simpa [Char.isLower] using hlower
    simp [Char.isAlpha, hc]
  · exact h

/-- Only a blank is a blank in capitals. -/
theorem eq_blank_of_toUpper {c : Char} (h : c.toUpper = ' ') : c = ' ' := by
  unfold Char.toUpper at h
  split at h
  · rename_i hlower
    have hval := congrArg (fun d : Char => d.val.toNat) h
    simp only [UInt32.le_iff_toNat_le, UInt32.toNat_add, UInt32.toNat_sub] at hlower hval
    have hlow : 'a'.val.toNat = 97 := rfl
    have hhigh : 'z'.val.toNat = 122 := rfl
    have hcapital : 'A'.val.toNat = 65 := rfl
    have hblank : ' '.val.toNat = 32 := rfl
    omega
  · exact h

/-- A word that is spelled as some letters is a word. -/
theorem exists_isWord_of_spelt {s capitals : List Char} (h : s.map Char.toUpper = capitals)
    (hne : capitals ≠ []) (hletters : capitals.all Char.isAlpha = true) :
    ∃ c tail, s = c :: tail ∧ IsWord c tail := by
  have hs : ∀ c ∈ s, c.isAlpha = true := by
    intro c hc
    apply isAlpha_of_toUpper
    apply List.all_eq_true.1 hletters
    rw [← h]
    exact List.mem_map_of_mem hc
  cases s with
  | nil => exact absurd h.symm hne
  | cons c tail =>
    obtain ⟨hc, htail⟩ := List.forall_mem_cons.1 hs
    refine ⟨c, tail, rfl, by simp [isWordStart, hc], List.all_eq_true.2 fun d hd => ?_⟩
    simp [isWordChar, Char.isAlphanum, htail d hd]

theorem forall_isWordChar_of_isWord {c : Char} {tail : List Char} (h : IsWord c tail) :
    ∀ d ∈ c :: tail, isWordChar d = true := by
  obtain ⟨hstart, htail⟩ := h
  refine List.forall_mem_cons.2 ⟨?_, List.all_eq_true.1 htail⟩
  simp only [isWordStart, Bool.or_eq_true] at hstart
  rcases hstart with halpha | hunderscore
  · simp [isWordChar, Char.isAlphanum, halpha]
  · simp [isWordChar, hunderscore]

end Token

/-- The keyword of a word is the one that it spells. -/
theorem Keyword.ofWord?_eq_some_iff {s : List Char} {word : Keyword} :
    Keyword.ofWord? s = some word ↔ s.map Char.toUpper = word.name.toList := by
  constructor
  · intro h
    unfold Keyword.ofWord? at h
    have hname := List.find?_some h
    exact (of_decide_eq_true hname).symm
  · intro h
    unfold Keyword.ofWord?
    rw [h]
    cases word <;> decide

theorem Keyword.ofWord?_eq_none_iff {s : List Char} :
    Keyword.ofWord? s = none ↔ ∀ word : Keyword, s.map Char.toUpper ≠ word.name.toList := by
  rw [Option.eq_none_iff_forall_ne_some]
  exact forall_congr' fun word => not_congr Keyword.ofWord?_eq_some_iff

namespace Token

/-! ### The word behind `ORDER` -/

theorem endsName_dropWhile (s : List Char) : EndsName (s.dropWhile isWordChar) := by
  intro c hc
  have hnot := List.head?_dropWhile_not isWordChar s
  rw [Option.mem_def.1 hc] at hnot
  simpa using hnot

/-- The word `BY` is found behind separators, if it ends there. -/
theorem byTail?_eq_some_iff {s tail : List Char} :
    byTail? s = some tail ↔ IsByTail tail ∧ ∃ rest, EndsName rest ∧ s = tail ++ rest := by
  constructor
  · intro h
    simp only [byTail?] at h
    split at h
    · rename_i hfound
      obtain rfl := Option.some.inj h
      simp only [Bool.and_eq_true, Bool.not_eq_true', List.isEmpty_eq_false_iff,
        decide_eq_true_eq] at hfound
      refine ⟨⟨_, _, rfl, hfound.1, List.all_eq_true.1 List.all_takeWhile, hfound.2⟩, _,
        endsName_dropWhile (s.dropWhile isSeparator), ?_⟩
      rw [List.append_assoc, List.takeWhile_append_dropWhile, List.takeWhile_append_dropWhile]
    · cases h
  · rintro ⟨⟨gap, second, rfl, hgap, hseparators, hsecond⟩, rest, hrest, rfl⟩
    obtain ⟨c, letters, rfl, hword⟩ := exists_isWord_of_spelt hsecond (by decide) (by decide)
    have hhead : ∀ d ∈ (c :: letters ++ rest).head?, isSeparator d = false := by
      intro d hd
      rw [← Option.some.inj hd]
      exact isSeparator_of_isWordStart hword.1
    obtain ⟨htake, hdrop⟩ := takeWhile_of_head hseparators hhead
    obtain ⟨htakeWord, _⟩ := takeWhile_of_head (forall_isWordChar_of_isWord hword) hrest
    rw [List.append_assoc]
    simp only [byTail?, htake, hdrop, htakeWord, hsecond]
    simp [hgap]

theorem IsByTail.ne_nil {tail : List Char} (h : IsByTail tail) : tail ≠ [] := by
  obtain ⟨gap, second, rfl, hgap, _⟩ := h
  simp [hgap]

/-- A word ends in front of separators. -/
theorem IsByTail.endsName {tail : List Char} (h : IsByTail tail) (rest : List Char) :
    EndsName (tail ++ rest) := by
  obtain ⟨gap, second, rfl, hgap, hseparators, _⟩ := h
  obtain ⟨c, gap, rfl⟩ := List.exists_cons_of_ne_nil hgap
  intro d hd
  have hc := hseparators c List.mem_cons_self
  rw [← Option.some.inj hd]
  rcases isSeparator_cases hc with rfl | rfl | rfl | rfl <;> decide

/-! ### What is found is a token -/

/-- What a word is, in front of a text where it ends. -/
theorem begins_ofWord {c : Char} {tail rest : List Char} (hword : IsWord c tail)
    (hrest : EndsName rest) : ∃ behind, c :: tail ++ rest = (ofWord (c :: tail) rest).2 ++ behind ∧
      Begins (ofWord (c :: tail) rest).1 (ofWord (c :: tail) rest).2 behind := by
  have hname : IsName (c :: tail) := ⟨c, tail, hword.1, List.all_eq_true.1 hword.2, rfl⟩
  unfold ofWord
  split
  · rename_i horder
    cases hby : byTail? rest with
    | none =>
      refine ⟨rest, rfl, .identifier hname fun word => ?_, fun _ => hrest⟩
      rw [horder]
      cases word <;> decide
    | some second =>
      obtain ⟨hsecond, behind, hbehind, rfl⟩ := byTail?_eq_some_iff.1 hby
      exact ⟨behind, (List.append_assoc ..).symm, .orderBy horder hsecond, fun _ => hbehind⟩
  · cases hkeyword : Keyword.ofWord? (c :: tail) with
    | none =>
      exact ⟨rest, rfl, .identifier hname (Keyword.ofWord?_eq_none_iff.1 hkeyword), fun _ => hrest⟩
    | some word =>
      have hspelt := Keyword.ofWord?_eq_some_iff.1 hkeyword
      refine ⟨rest, rfl, .keyword ?_ hspelt, fun _ => hrest⟩
      -- `ORDER BY` has a blank, which no word has
      rintro rfl
      obtain ⟨d, hd, hblank⟩ : ∃ d ∈ c :: tail, d.toUpper = ' ' := by
        rw [← List.mem_map, hspelt]
        decide
      obtain rfl := eq_blank_of_toUpper hblank
      exact absurd (forall_isWordChar_of_isWord hword ' ' hd) (by decide)

/-- A quoted text ends at the first quote behind its beginning. -/
theorem exists_inner_of_quoted? {quote : Char} {rest tail : List Char}
    (h : quoted? quote rest = some tail) : ∃ inner, tail = inner ++ [quote] ∧ quote ∉ inner := by
  simp only [quoted?] at h
  split at h
  · refine ⟨_, (Option.some.inj h).symm, fun hmem => ?_⟩
    have hne := List.all_eq_true.1 List.all_takeWhile quote hmem
    simp at hne
  · cases h

theorem isLexeme_of_operatorTail? {c : Char} {next : Option Char} {tail : List Char}
    (h : operatorTail? c next = some tail) : IsLexeme .operator (c :: tail) := by
  unfold operatorTail? at h
  split at h
  · obtain rfl := Option.some.inj h
    exact @IsLexeme.operator "<=" .atMost (by simp [Query.Grammar.operators])
  · obtain rfl := Option.some.inj h
    exact @IsLexeme.operator "<>" .unequal (by simp [Query.Grammar.operators])
  · obtain rfl := Option.some.inj h
    exact @IsLexeme.operator ">=" .atLeast (by simp [Query.Grammar.operators])
  · obtain rfl := Option.some.inj h
    exact @IsLexeme.operator "!=" .unequal (by simp [Query.Grammar.operators])
  · obtain rfl := Option.some.inj h
    exact @IsLexeme.operator "=" .equal (by simp [Query.Grammar.operators])
  · obtain rfl := Option.some.inj h
    exact @IsLexeme.operator "<" .less (by simp [Query.Grammar.operators])
  · obtain rfl := Option.some.inj h
    exact @IsLexeme.operator ">" .greater (by simp [Query.Grammar.operators])
  · cases h

/-- What is found at the beginning of a text is a token that can stand there. -/
theorem begins_of_front? {text lexeme : List Char} {kind : TokenKind}
    (h : front? text = some (kind, lexeme)) :
    ∃ behind, text = lexeme ++ behind ∧ Begins kind lexeme behind := by
  cases text with
  | nil => cases h
  | cons c rest =>
    have hnumeral : kind = .number → IsNumeral lexeme := by
      simpa only [String.toList_ofList] using (isLexed_of_first? h 0).number
    obtain ⟨tail, htail, behind, rfl⟩ := first?_append h
    have htext : c :: (tail ++ behind) = lexeme ++ behind := by rw [htail, List.cons_append]
    cases first_of_first? h with
    | word hstart =>
      have hword : IsWord c ((tail ++ behind).takeWhile isWordChar) := ⟨hstart, List.all_takeWhile⟩
      have hbegins := begins_ofWord hword (endsName_dropWhile (tail ++ behind))
      rwa [List.cons_append, List.takeWhile_append_dropWhile] at hbegins
    | digits _ => exact ⟨behind, htext, .number (hnumeral rfl), nofun⟩
    | negative _ _ => exact ⟨behind, htext, .number (hnumeral rfl), nofun⟩
    | quoted hquote hquoted =>
      obtain ⟨inner, rfl, hinner⟩ := exists_inner_of_quoted? hquoted
      exact ⟨behind, htext, .string hquote hinner, nofun⟩
    | punctuation hkind =>
      refine ⟨behind, htext, .punctuation hkind, ?_⟩
      rcases punctuation_cases hkind with ⟨_, rfl⟩ | ⟨_, rfl⟩ | ⟨_, rfl⟩ <;> nofun
    | operator hoperator =>
      exact ⟨behind, htext, isLexeme_of_operatorTail? hoperator, nofun⟩

/-! ### Tokens are found -/

/-- Tokens that are no words are taken wherever a text begins with them. -/
theorem IsLexeme.isTaken {kind : TokenKind} {s : List Char} (h : IsLexeme kind s)
    (hword : kind.isWord = false) : IsTaken kind s := by
  cases h with
  | keyword _ _ => cases hword
  | orderBy _ _ => cases hword
  | identifier _ _ => cases hword
  | number hnumeral => exact hnumeral.isTaken
  | @string quote inner hquote hinner =>
    refine ⟨quote, inner ++ [quote], rfl, by rcases hquote with rfl | rfl <;> decide,
      fun rest => ⟨[], ?_, fun _ => rfl⟩⟩
    rw [List.append_assoc, List.append_nil]
    exact first?_quote hquote hinner rest
  | operator hsymbol => exact isTaken_operator hsymbol
  | punctuation hkind =>
    rcases punctuation_cases hkind with ⟨rfl, rfl⟩ | ⟨rfl, rfl⟩ | ⟨rfl, rfl⟩ <;>
      exact ⟨_, [], rfl, by decide, fun _ => ⟨[], rfl, fun _ => rfl⟩⟩

/-- A keyword of one word is taken for itself. -/
theorem ofWord_of_keyword {s : List Char} {word : Keyword} (hne : word ≠ .orderBy)
    (hspelt : s.map Char.toUpper = word.name.toList) (rest : List Char) :
    ofWord s rest = (.keyword word, s) := by
  have horder : s.map Char.toUpper ≠ ['O', 'R', 'D', 'E', 'R'] := by
    rw [hspelt]
    cases word <;> decide
  rw [ofWord, if_neg horder, Keyword.ofWord?_eq_some_iff.2 hspelt]

/-- The word `ORDER` is taken with the word `BY`. -/
theorem ofWord_of_byTail {order tail rest : List Char}
    (horder : order.map Char.toUpper = ['O', 'R', 'D', 'E', 'R']) (hby : byTail? rest = some tail) :
    ofWord order rest = (.keyword .orderBy, order ++ tail) := by
  rw [ofWord, if_pos horder, hby]

/-- Another name is taken for itself, but for the word `ORDER` in front of `BY`. -/
theorem ofWord_of_free {s : List Char}
    (hfree : ∀ word : Keyword, s.map Char.toUpper ≠ word.name.toList) (rest : List Char) :
    ofWord s rest = (.identifier, s) ∨
      ∃ tail, IsByTail tail ∧ ofWord s rest = (.keyword .orderBy, s ++ tail) := by
  rw [ofWord, Keyword.ofWord?_eq_none_iff.2 hfree]
  split
  · cases hby : byTail? rest with
    | none => exact .inl rfl
    | some tail => exact .inr ⟨tail, (byTail?_eq_some_iff.1 hby).1, rfl⟩
  · exact .inl rfl

/-- A word that ends is taken, or made one keyword with the word behind it. -/
theorem IsLexeme.exists_word {kind : TokenKind} {s : List Char} (h : IsLexeme kind s)
    (hkind : kind.isWord = true) : ∃ c tail, s = c :: tail ∧ isWordStart c = true ∧
      ∀ rest, EndsName rest → ∃ other more, word c (tail ++ rest) = (other, c :: tail ++ more) ∧
        (more = [] → other = kind) := by
  cases h with
  | @keyword word _ hne hspelt =>
    obtain ⟨c, tail, rfl, hs⟩ := exists_isWord_of_spelt hspelt (by cases word <;> decide)
      (by cases word <;> first | exact absurd rfl hne | decide)
    refine ⟨c, tail, rfl, hs.1, fun rest hrest => ⟨.keyword word, [], ?_, fun _ => rfl⟩⟩
    rw [word_eq hs hrest, ofWord_of_keyword hne hspelt, List.append_nil]
  | @orderBy _ second horder hby =>
    obtain ⟨c, tail, rfl, hs⟩ := exists_isWord_of_spelt horder (by decide) (by decide)
    refine ⟨c, tail ++ second, rfl, hs.1, fun rest hrest =>
      ⟨.keyword .orderBy, [], ?_, fun _ => rfl⟩⟩
    have hfound : byTail? (second ++ rest) = some second :=
      byTail?_eq_some_iff.2 ⟨hby, rest, hrest, rfl⟩
    rw [List.append_assoc, word_eq hs (hby.endsName rest),
      ofWord_of_byTail horder hfound, List.append_nil, List.cons_append]
  | identifier hname hfree =>
    obtain ⟨c, tail, hstart, htail, rfl⟩ := hname
    refine ⟨c, tail, rfl, hstart, fun rest hrest => ?_⟩
    rw [word_eq ⟨hstart, List.all_eq_true.2 htail⟩ hrest]
    rcases ofWord_of_free hfree rest with hword | ⟨second, hsecond, hword⟩
    · exact ⟨.identifier, [], by rw [hword, List.append_nil], fun _ => rfl⟩
    · exact ⟨.keyword .orderBy, second, hword, fun hnil => absurd hnil hsecond.ne_nil⟩
  | number _ => cases hkind
  | string _ _ => cases hkind
  | operator _ => cases hkind
  | punctuation hmem =>
    rcases punctuation_cases hmem with ⟨_, rfl⟩ | ⟨_, rfl⟩ | ⟨_, rfl⟩ <;> cases hkind

/-- What begins a text is found there, perhaps as a part of a longer token. -/
theorem Begins.exists_front? {kind : TokenKind} {s rest : List Char} (h : Begins kind s rest) :
    ∃ other more, front? (s ++ rest) = some (other, s ++ more) ∧ (more = [] → other = kind) := by
  cases hkind : kind.isWord with
  | true =>
    obtain ⟨c, tail, rfl, hstart, hword⟩ := h.isLexeme.exists_word hkind
    obtain ⟨other, more, hfound, hsame⟩ := hword rest (h.ends hkind)
    refine ⟨other, more, ?_, hsame⟩
    rw [List.cons_append, front?, first?, if_pos hstart, hfound]
  | false =>
    obtain ⟨c, tail, rfl, _, hfirst⟩ := h.isLexeme.isTaken hkind
    obtain ⟨more, hmore, _⟩ := hfirst rest
    exact ⟨kind, more, hmore, fun _ => rfl⟩

/-- A text begins with a token exactly where one is found. -/
theorem front?_eq_none_iff {text : List Char} :
    front? text = none ↔ ∀ kind s, IsLexeme kind s → ¬ s <+: text := by
  constructor
  · rintro hnone kind s hs ⟨rest, rfl⟩
    cases hkind : kind.isWord with
    | true =>
      obtain ⟨c, tail, rfl, hstart, _⟩ := hs.exists_word hkind
      rw [List.cons_append, front?, first?, if_pos hstart] at hnone
      cases hnone
    | false =>
      have hbegins : Begins kind s rest := ⟨hs, by simp [hkind]⟩
      obtain ⟨other, more, hfound, _⟩ := hbegins.exists_front?
      rw [hfound] at hnone
      cases hnone
  · intro hnone
    rw [Option.eq_none_iff_forall_ne_some]
    rintro ⟨kind, s⟩ hfound
    obtain ⟨behind, htext, hbegins⟩ := begins_of_front? hfound
    exact hnone kind s hbegins.isLexeme ⟨behind, htext.symm⟩

/-- The longest token that can begin a text is found there. -/
theorem front?_eq_some_iff {kind : TokenKind} {s rest : List Char} :
    front? (s ++ rest) = some (kind, s) ↔ IsFirst kind s rest := by
  constructor
  · intro hfound
    obtain ⟨behind, htext, hbegins⟩ := begins_of_front? hfound
    obtain rfl := List.append_cancel_left htext
    refine ⟨hbegins, fun other t after hother hsame => ?_⟩
    obtain ⟨_, more, hmore, _⟩ := hother.exists_front?
    rw [hsame, hfound] at hmore
    obtain ⟨_, rfl⟩ := Prod.mk.inj (Option.some.inj hmore)
    simp
  · intro hfirst
    obtain ⟨other, more, hfound, hsame⟩ := hfirst.toBegins.exists_front?
    obtain ⟨behind, htext, hbegins⟩ := begins_of_front? hfound
    have hlength := hfirst.longest other (s ++ more) behind hbegins htext.symm
    obtain rfl : more = [] := by simpa using hlength
    rw [hfound, hsame rfl, List.append_nil]

/-- A token alone is found as a whole. -/
theorem IsLexeme.front?_eq {kind : TokenKind} {s : List Char} (h : IsLexeme kind s) :
    front? s = some (kind, s) := by
  have hbegins : Begins kind s [] := ⟨h, fun _ => nofun⟩
  obtain ⟨other, more, hfound, hsame⟩ := hbegins.exists_front?
  obtain ⟨behind, htext, _⟩ := begins_of_front? hfound
  rw [List.append_nil] at hfound htext
  obtain ⟨rfl, _⟩ : more = [] ∧ behind = [] := by simpa using congrArg List.length htext
  rw [hfound, hsame rfl, List.append_nil]

/-- The characters of a token determine its kind. -/
theorem IsLexeme.kind_unique {kind other : TokenKind} {s : List Char} (h : IsLexeme kind s)
    (hother : IsLexeme other s) : kind = other :=
  (Prod.mk.inj (Option.some.inj (h.front?_eq.symm.trans hother.front?_eq))).1

end Token
end TableNotation
