import Mathlib
import TableNotation.Proofs.Query.Literals
import TableNotation.Proofs.Text.Lines
import TableNotation.Query.Printer
/-!
# Texts that are cut as they were put together

A text put together from the characters of tokens is cut into these tokens again if no
token runs into the next one.  What may follow a text is said for each kind of token:
anything at all behind a comma or a blank, but a word or a number has to end where it
ends, and behind the word `ORDER` there must not stand the word `BY`.

* `Cuts`: in front of whatever may follow it, a text is cut into a phrase.
* `Cuts.append`, `cuts_separated`: phrases put together.
* `IsTaken`: characters that are taken for a token whatever follows them.
* `cuts_identifier`, `cuts_keyword`, `cuts_numeral`, `cuts_quoted`: tokens.
-/

namespace TableNotation.Token

open Query.Grammar (IsDigits sign)

/-- In front of every text that may follow it, a text is cut into the tokens of a phrase,
whatever its position is. -/
def Cuts (Follow : List Char → Prop) (s : List Char) (Phrase : List Token → Prop) : Prop :=
  ∀ (position : Nat) (rest : List Char) (more : List Token), Follow rest →
    scan (position + s.length) rest = .ok more →
      ∃ front, Phrase front ∧ scan position (s ++ rest) = .ok (front ++ more)

/-- Anything may follow. -/
def Anything (_ : List Char) : Prop := True

/-- A word or a number ends here: there follows nothing, a blank, a comma or a closing
parenthesis. -/
def EndsToken (rest : List Char) : Prop :=
  ∀ c ∈ rest.head?, c = ' ' ∨ c = ',' ∨ c = ')'

/-- A name ends here: there follows no letter, digit or underscore. -/
def EndsName (rest : List Char) : Prop := ∀ c ∈ rest.head?, isWordChar c = false

theorem EndsToken.endsName {rest : List Char} (h : EndsToken rest) : EndsName rest := by
  intro c hc
  rcases h c hc with rfl | rfl | rfl <;> decide

/-- Any word ends here, also the word `ORDER`. -/
def EndsWord (rest : List Char) : Prop := EndsToken rest ∧ byTail? rest = none

section Cuts

variable {Follow Between : List Char → Prop} {s t : List Char}
  {Phrase First Second : List Token → Prop}

theorem Cuts.weaken {Follow' : List Char → Prop} (h : Cuts Follow s Phrase)
    (hfollow : ∀ rest, Follow' rest → Follow rest) : Cuts Follow' s Phrase :=
  fun position rest more hrest => h position rest more (hfollow rest hrest)

/-- What is cut in front of anything is cut in front of some texts. -/
theorem Cuts.anywhere (h : Cuts Anything s Phrase) : Cuts Follow s Phrase :=
  h.weaken fun _ _ => trivial

/-- What ends where tokens end, ends where words end. -/
theorem Cuts.endsWord (h : Cuts EndsToken s Phrase) : Cuts EndsWord s Phrase :=
  h.weaken fun _ hrest => hrest.1

theorem Cuts.imp (h : Cuts Follow s First) (himp : ∀ tokens, First tokens → Phrase tokens) :
    Cuts Follow s Phrase := by
  intro position rest more hrest hmore
  obtain ⟨front, hfront, hscan⟩ := h position rest more hrest hmore
  exact ⟨front, himp front hfront, hscan⟩

/-- Two texts are cut one after the other if the second may follow the first. -/
theorem Cuts.append (hs : Cuts Between s First) (ht : Cuts Follow t Second)
    (hbetween : ∀ rest, Follow rest → Between (t ++ rest))
    (hphrase : ∀ front behind, First front → Second behind → Phrase (front ++ behind)) :
    Cuts Follow (s ++ t) Phrase := by
  intro position rest more hrest hmore
  rw [List.length_append, ← Nat.add_assoc] at hmore
  obtain ⟨behind, hbehind, hscan⟩ := ht (position + s.length) rest more hrest hmore
  obtain ⟨front, hfront, hscan⟩ := hs position (t ++ rest) (behind ++ more) (hbetween rest hrest)
    hscan
  refine ⟨front ++ behind, hphrase front behind hfront hbehind, ?_⟩
  rw [List.append_assoc, hscan, List.append_assoc]

/-- Blanks are cut into nothing. -/
theorem cuts_blank : Cuts Anything [' '] (· = []) := by
  intro position rest more _ hmore
  refine ⟨[], rfl, ?_⟩
  rw [List.singleton_append, scan]
  exact hmore

end Cuts

/-! ### Single tokens -/

/-- The tokens are a single one with some kind and some characters. -/
def Single (kind : TokenKind) (lexeme : List Char) (tokens : List Token) : Prop :=
  ∃ position, tokens = [⟨kind, String.ofList lexeme, position⟩]

/-- What is found at the beginning of a text is its first token. -/
theorem cuts_of_first? {Follow : List Char → Prop} {c : Char} {tail : List Char}
    {kind : TokenKind} (hseparator : isSeparator c = false)
    (hfirst : ∀ rest, Follow rest → first? c (tail ++ rest) = some (kind, c :: tail)) :
    Cuts Follow (c :: tail) (Single kind (c :: tail)) := by
  intro position rest more hrest hmore
  refine ⟨_, ⟨position, rfl⟩, ?_⟩
  have hdrop : (tail ++ rest).drop ((c :: tail).length - 1) = rest := by simp
  rw [List.cons_append, scan, if_neg (by simp [hseparator]), hfirst rest hrest]
  simp only [hdrop, hmore]
  rfl

/-- Wherever a text begins with these characters, they are taken for a token, perhaps with
others behind them, but alone where a token ends. -/
def IsTaken (kind : TokenKind) (s : List Char) : Prop :=
  ∃ c tail, s = c :: tail ∧ isSeparator c = false ∧
    ∀ rest, ∃ more, first? c (tail ++ rest) = some (kind, c :: tail ++ more) ∧
      (EndsToken rest → more = [])

theorem IsTaken.cuts {kind : TokenKind} {s : List Char} (h : IsTaken kind s) :
    Cuts EndsToken s (Single kind s) := by
  obtain ⟨c, tail, rfl, hseparator, hfirst⟩ := h
  apply cuts_of_first? hseparator
  intro rest hrest
  obtain ⟨more, hmore, hends⟩ := hfirst rest
  rw [hmore, hends hrest, List.append_nil]

theorem cuts_comma : Cuts Anything [','] (Single .comma [',']) :=
  cuts_of_first? (by decide) fun _ _ => rfl

theorem cuts_leftParen : Cuts Anything ['('] (Single .leftParen ['(']) :=
  cuts_of_first? (by decide) fun _ _ => rfl

theorem cuts_rightParen : Cuts Anything [')'] (Single .rightParen [')']) :=
  cuts_of_first? (by decide) fun _ _ => rfl

/-- A run of characters of a kind ends in front of another character. -/
theorem takeWhile_of_head {p : Char → Bool} {s rest : List Char} (hs : ∀ c ∈ s, p c = true)
    (hrest : ∀ c ∈ rest.head?, p c = false) :
    (s ++ rest).takeWhile p = s ∧ (s ++ rest).dropWhile p = rest := by
  rw [List.takeWhile_append_of_pos hs, List.dropWhile_append_of_pos hs]
  cases rest with
  | nil => simp
  | cons c rest => simp [hrest c rfl]

/-- So it ends where a token ends. -/
theorem takeWhile_of_endsToken {p : Char → Bool} (hblank : p ' ' = false) (hcomma : p ',' = false)
    (hparen : p ')' = false) {s rest : List Char} (hs : ∀ c ∈ s, p c = true)
    (hrest : EndsToken rest) : (s ++ rest).takeWhile p = s ∧ (s ++ rest).dropWhile p = rest := by
  apply takeWhile_of_head hs
  intro c hc
  rcases hrest c hc with rfl | rfl | rfl
  · exact hblank
  · exact hcomma
  · exact hparen

/-! ### Words -/

/-- The characters of a word. -/
def IsWord (c : Char) (tail : List Char) : Prop :=
  isWordStart c = true ∧ tail.all isWordChar = true

instance (c : Char) (tail : List Char) : Decidable (IsWord c tail) :=
  inferInstanceAs (Decidable (_ ∧ _))

theorem isSeparator_cases {c : Char} (h : isSeparator c = true) :
    c = ' ' ∨ c = '\t' ∨ c = '\r' ∨ c = '\n' := by
  simpa [isSeparator, or_assoc] using h

theorem isSeparator_of_isWordStart {c : Char} (h : isWordStart c = true) :
    isSeparator c = false := by
  rw [Bool.eq_false_iff]
  intro hseparator
  rcases isSeparator_cases hseparator with rfl | rfl | rfl | rfl <;> exact absurd h (by decide)

/-- The kind and the characters of a token that begins with a word, in front of others. -/
def ofWord (word rest : List Char) : TokenKind × List Char :=
  if word.map Char.toUpper = ['O', 'R', 'D', 'E', 'R'] then
    match byTail? rest with
    | some tail => (.keyword .orderBy, word ++ tail)
    | none => (.identifier, word)
  else match Keyword.ofWord? word with
    | some keyword => (.keyword keyword, word)
    | none => (.identifier, word)

/-- A word that ends is taken whole. -/
theorem word_eq {c : Char} {tail rest : List Char} (hword : IsWord c tail)
    (hrest : EndsName rest) : word c (tail ++ rest) = ofWord (c :: tail) rest := by
  obtain ⟨htake, hdrop⟩ := takeWhile_of_head (List.all_eq_true.1 hword.2) hrest
  have htaken : word c (tail ++ rest) = ofWord (c :: (tail ++ rest).takeWhile isWordChar)
      ((tail ++ rest).dropWhile isWordChar) := rfl
  rw [htaken, htake, hdrop]

/-- A word is cut off whole if it is one token by itself. -/
theorem cuts_word {Follow : List Char → Prop} {c : Char} {tail : List Char} {kind : TokenKind}
    (hword : IsWord c tail)
    (hkind : ∀ rest, Follow rest → word c (tail ++ rest) = (kind, c :: tail)) :
    Cuts Follow (c :: tail) (Single kind (c :: tail)) := by
  apply cuts_of_first? (isSeparator_of_isWordStart hword.1)
  intro rest hrest
  rw [first?, if_pos hword.1, hkind rest hrest]

/-- A name that is read as an identifier: a word, and no keyword. -/
def IsIdentifier (name : String) : Prop :=
  ∃ c tail, name.toList = c :: tail ∧ IsWord c tail ∧ Keyword.ofWord? name.toList = none

instance (name : String) : Decidable (IsIdentifier name) :=
  match hname : name.toList with
  | [] => isFalse fun ⟨_, _, hcons, _⟩ => List.cons_ne_nil _ _ (hcons.symm.trans hname)
  | c :: tail => decidable_of_iff (IsWord c tail ∧ Keyword.ofWord? name.toList = none)
      ⟨fun h => ⟨c, tail, hname, h⟩, fun ⟨_, _, hcons, h⟩ => by
        obtain ⟨rfl, rfl⟩ := List.cons.inj (hname.symm.trans hcons)
        exact h⟩

/-- An identifier ends where words end, so that `ORDER` is not taken for a keyword. -/
theorem cuts_identifier {name : String} (h : IsIdentifier name) :
    Cuts EndsWord name.toList (Single .identifier name.toList) := by
  obtain ⟨c, tail, hname, hword, hkeyword⟩ := h
  rw [hname] at hkeyword ⊢
  apply cuts_word hword
  intro rest hrest
  rw [word_eq hword hrest.1.endsName, ofWord, hrest.2, hkeyword]
  split <;> rfl

/-- Other identifiers end where tokens end. -/
theorem cuts_otherIdentifier {name : String} (h : IsIdentifier name)
    (horder : name.toList.map Char.toUpper ≠ ['O', 'R', 'D', 'E', 'R']) :
    Cuts EndsToken name.toList (Single .identifier name.toList) := by
  obtain ⟨c, tail, hname, hword, hkeyword⟩ := h
  rw [hname] at hkeyword horder ⊢
  apply cuts_word hword
  intro rest hrest
  rw [word_eq hword hrest.endsName, ofWord, if_neg horder, hkeyword]

/-- A keyword of one word. -/
theorem cuts_keyword {keyword : Keyword} (hne : keyword ≠ .orderBy) :
    Cuts EndsToken keyword.name.toList (Single (.keyword keyword) keyword.name.toList) := by
  have hname : ∃ c tail, keyword.name.toList = c :: tail ∧ IsWord c tail ∧
      (c :: tail).map Char.toUpper ≠ ['O', 'R', 'D', 'E', 'R'] ∧
      Keyword.ofWord? (c :: tail) = some keyword := by
    cases keyword <;> first
      | exact absurd rfl hne
      | exact ⟨_, _, rfl, ⟨by decide, by decide⟩, by decide, by decide⟩
  obtain ⟨c, tail, hname, hword, horder, hkeyword⟩ := hname
  rw [hname]
  apply cuts_word hword
  intro rest hrest
  rw [word_eq hword hrest.endsName, ofWord, if_neg horder, hkeyword]

/-- The keyword of two words. -/
theorem cuts_orderBy :
    Cuts EndsToken "ORDER BY".toList (Single (.keyword .orderBy) "ORDER BY".toList) := by
  have htext : "ORDER BY".toList = 'O' :: "RDER BY".toList := by decide
  rw [htext]
  apply cuts_of_first? (by decide)
  intro rest hrest
  obtain ⟨htake, _⟩ := @takeWhile_of_endsToken isWordChar (by decide) (by decide) (by decide)
    ['B', 'Y'] rest (List.all_eq_true.1 (by decide)) hrest
  have hby : byTail? (" BY".toList ++ rest) = some " BY".toList := by
    have hgap : (" BY".toList ++ rest).takeWhile isSeparator = [' '] := rfl
    have hdrop : (" BY".toList ++ rest).dropWhile isSeparator = ['B', 'Y'] ++ rest := rfl
    simp only [byTail?, hgap, hdrop, htake]
    decide
  have hword : "RDER BY".toList ++ rest = "RDER".toList ++ (" BY".toList ++ rest) := by
    rw [← List.append_assoc]
    rfl
  have hends : EndsName (" BY".toList ++ rest) := by
    intro c hc
    rw [← Option.some.inj hc]
    decide
  rw [first?, if_pos (by decide), hword, word_eq ⟨by decide, by decide⟩ hends, ofWord, hby]
  rfl

/-! ### Numbers -/

theorem isWordStart_of_isDigit {c : Char} (h : c.isDigit = true) : isWordStart c = false := by
  have hne : c ≠ '_' := by
    rintro rfl
    exact absurd h (by decide)
  simp only [Char.isDigit, Bool.and_eq_true, decide_eq_true_eq, ge_iff_le, UInt32.le_iff_toNat_le]
    at h
  simp only [isWordStart, Char.isAlpha, Char.isUpper, Char.isLower, Bool.or_eq_false_iff,
    Bool.and_eq_false_iff, decide_eq_false_iff_not, ge_iff_le, UInt32.le_iff_toNat_le, hne,
    not_false_eq_true, and_true]
  obtain ⟨_, hhigh⟩ := h
  have hnine : ('9' : Char).val.toNat = 57 := by decide
  have hupper : ('A' : Char).val.toNat = 65 := by decide
  have hlower : ('a' : Char).val.toNat = 97 := by decide
  omega

theorem isSeparator_of_isDigit {c : Char} (h : c.isDigit = true) : isSeparator c = false := by
  rw [Bool.eq_false_iff]
  intro hseparator
  rcases isSeparator_cases hseparator with rfl | rfl | rfl | rfl <;> exact absurd h (by decide)

/-- Digits go on with digits, and perhaps a point and more digits. -/
theorem unsigned_digits_append {whole : List Char} (hwhole : ∀ c ∈ whole, c.isDigit = true)
    (rest : List Char) : unsigned (whole ++ rest) = whole ++ unsigned rest := by
  simp only [unsigned, List.takeWhile_append_of_pos hwhole, List.dropWhile_append_of_pos hwhole]
  split <;> simp

theorem unsigned_point (rest : List Char) :
    unsigned ('.' :: rest) = '.' :: rest.takeWhile Char.isDigit := rfl

/-- Digits end where a token ends. -/
theorem unsigned_of_endsToken {rest : List Char} (hrest : EndsToken rest) : unsigned rest = [] := by
  cases rest with
  | nil => rfl
  | cons c rest => rcases hrest c rfl with rfl | rfl | rfl <;> rfl

/-- A numeral is a sign and what is taken from its first digit on, and perhaps more digits. -/
theorem IsNumeral.exists_unsigned {s : List Char} (h : IsNumeral s) :
    ∃ negative d tail, s = sign negative ++ d :: tail ∧ d.isDigit = true ∧
      ∀ rest, ∃ more, unsigned (d :: tail ++ rest) = d :: tail ++ more ∧
        (EndsToken rest → more = []) := by
  obtain ⟨negative, whole, hwhole, hs⟩ := h
  obtain ⟨d, others, rfl⟩ := List.exists_cons_of_ne_nil hwhole.1
  have hd := hwhole.2 d List.mem_cons_self
  rcases hs with rfl | ⟨fraction, hfraction, rfl⟩
  · exact ⟨negative, d, others, rfl, hd, fun rest =>
      ⟨unsigned rest, unsigned_digits_append hwhole.2 rest, unsigned_of_endsToken⟩⟩
  · refine ⟨negative, d, others ++ '.' :: fraction, rfl, hd, fun rest =>
      ⟨rest.takeWhile Char.isDigit, ?_, fun hrest => ?_⟩⟩
    · have htext : d :: (others ++ '.' :: fraction) ++ rest
          = d :: others ++ '.' :: (fraction ++ rest) := by simp
      rw [htext, unsigned_digits_append hwhole.2, unsigned_point,
        List.takeWhile_append_of_pos hfraction]
      simp
    · exact (@takeWhile_of_endsToken Char.isDigit (by decide) (by decide) (by decide) [] rest
        nofun hrest).1

/-- A numeral at the beginning of a text is taken, perhaps with more digits. -/
theorem IsNumeral.isTaken {s : List Char} (h : IsNumeral s) : IsTaken .number s := by
  obtain ⟨negative, d, tail, rfl, hd, hunsigned⟩ := h.exists_unsigned
  cases negative with
  | true =>
    refine ⟨'-', d :: tail, rfl, by decide, fun rest => ?_⟩
    obtain ⟨more, hmore, hends⟩ := hunsigned rest
    have hhead : ((d :: tail ++ rest).headD ' ').isDigit = true := hd
    refine ⟨more, ?_, hends⟩
    rw [first?, if_neg (by decide), if_neg (by decide), if_pos rfl, if_pos hhead, hmore]
    rfl
  | false =>
    refine ⟨d, tail, rfl, isSeparator_of_isDigit hd, fun rest => ?_⟩
    obtain ⟨more, hmore, hends⟩ := hunsigned rest
    refine ⟨more, ?_, hends⟩
    rw [first?, if_neg (by simp [isWordStart_of_isDigit hd]), if_pos hd]
    exact congrArg (fun lexeme => some (TokenKind.number, lexeme)) hmore

/-- A number. -/
theorem cuts_numeral {lexeme : List Char} (h : IsNumeral lexeme) :
    Cuts EndsToken lexeme (Single .number lexeme) :=
  h.isTaken.cuts

/-! ### Texts and operators -/

/-- A text ends at the first quote behind its beginning. -/
theorem quoted?_append {quote : Char} {inner : List Char} (h : quote ∉ inner) (rest : List Char) :
    quoted? quote (inner ++ quote :: rest) = some (inner ++ [quote]) := by
  have hinner : ∀ c ∈ inner, (c != quote) = true := by
    intro c hc
    rw [bne_iff_ne]
    rintro rfl
    exact h hc
  obtain ⟨htake, _⟩ := @takeWhile_of_head (· != quote) inner (quote :: rest) hinner (by simp)
  simp only [quoted?, htake]
  rw [if_pos (by simp)]

/-- A text in quotes of one sort is taken up to the next quote of this sort. -/
theorem first?_quote {quote : Char} (hquote : quote = '\'' ∨ quote = '"') {inner : List Char}
    (h : quote ∉ inner) (rest : List Char) :
    first? quote (inner ++ quote :: rest) = some (.string, quote :: (inner ++ [quote])) := by
  have hfirst : first? quote (inner ++ quote :: rest)
      = (quoted? quote (inner ++ quote :: rest)).map fun tail => (.string, quote :: tail) := by
    rcases hquote with rfl | rfl <;> rfl
  rw [hfirst, quoted?_append h]
  rfl

/-- A text in quotes without a quote inside. -/
theorem cuts_quoted {inner : List Char} (h : '\'' ∉ inner) :
    Cuts Anything ('\'' :: (inner ++ ['\''])) (Single .string ('\'' :: (inner ++ ['\'']))) := by
  apply cuts_of_first? (by decide)
  intro rest _
  rw [List.append_assoc]
  exact first?_quote (.inl rfl) h rest

/-- An operator of one character is taken, perhaps with another one behind it. -/
theorem first?_operator {c : Char} (hc : c = '=' ∨ c = '<' ∨ c = '>') (rest : List Char) :
    ∃ more, first? c rest = some (.operator, c :: more) ∧ (EndsToken rest → more = []) := by
  have hother : first? c rest
      = (operatorTail? c rest.head?).map fun tail => (.operator, c :: tail) := by
    rcases hc with rfl | rfl | rfl <;> rfl
  obtain ⟨more, hmore⟩ : ∃ more, operatorTail? c rest.head? = some more := by
    unfold operatorTail?
    split <;> simp_all
  refine ⟨more, by rw [hother, hmore, Option.map_some], fun hrest => ?_⟩
  cases rest with
  | nil => rcases hc with rfl | rfl | rfl <;> exact (Option.some.inj hmore).symm
  | cons d rest =>
    rcases hrest d rfl with rfl | rfl | rfl <;> rcases hc with rfl | rfl | rfl <;>
      exact (Option.some.inj hmore).symm

/-- An operator at the beginning of a text is taken, perhaps as a part of a longer one. -/
theorem isTaken_operator {symbol : String} {comparison : Comparison}
    (h : (symbol, comparison) ∈ Query.Grammar.operators) : IsTaken .operator symbol.toList := by
  have htaken : ∀ e ∈ Query.Grammar.operators, IsTaken .operator e.1.toList := by
    simp only [Query.Grammar.operators, List.forall_mem_cons]
    refine ⟨⟨'=', [], rfl, by decide, fun rest => first?_operator (by decide) rest⟩,
      ⟨'!', ['='], rfl, by decide, fun _ => ⟨[], rfl, fun _ => rfl⟩⟩,
      ⟨'<', ['>'], rfl, by decide, fun _ => ⟨[], rfl, fun _ => rfl⟩⟩,
      ⟨'<', [], rfl, by decide, fun rest => first?_operator (by decide) rest⟩,
      ⟨'>', [], rfl, by decide, fun rest => first?_operator (by decide) rest⟩,
      ⟨'<', ['='], rfl, by decide, fun _ => ⟨[], rfl, fun _ => rfl⟩⟩,
      ⟨'>', ['='], rfl, by decide, fun _ => ⟨[], rfl, fun _ => rfl⟩⟩, nofun⟩
  exact htaken _ h

/-- An operator. -/
theorem cuts_operator {symbol : String} {comparison : Comparison}
    (h : (symbol, comparison) ∈ Query.Grammar.operators) :
    Cuts EndsToken symbol.toList (Single .operator symbol.toList) :=
  (isTaken_operator h).cuts

/-! ### Blanks and separators -/

theorem endsToken_blank (rest : List Char) : EndsToken (' ' :: rest) := by
  intro c hc
  exact .inl (Option.some.inj hc).symm

theorem endsToken_comma (rest : List Char) : EndsToken (',' :: rest) := by
  intro c hc
  exact .inr (.inl (Option.some.inj hc).symm)

theorem endsToken_rightParen (rest : List Char) : EndsToken (')' :: rest) := by
  intro c hc
  exact .inr (.inr (Option.some.inj hc).symm)

theorem endsWord_nil : EndsWord [] := ⟨nofun, rfl⟩

theorem endsWord_comma (rest : List Char) : EndsWord (',' :: rest) :=
  ⟨endsToken_comma rest, rfl⟩

section Blanks

variable {s : List Char} {Phrase : List Token → Prop}

/-- A blank ends every token. -/
theorem Cuts.blank (h : Cuts EndsToken s Phrase) : Cuts Anything (s ++ [' ']) Phrase := by
  apply h.append cuts_blank
  · exact fun rest _ => endsToken_blank rest
  · rintro front _ hfront rfl
    rwa [List.append_nil]

theorem Cuts.blanks (h : Cuts EndsToken s Phrase) : Cuts Anything (' ' :: (s ++ [' '])) Phrase := by
  apply cuts_blank.append h.blank
  · exact fun _ _ => trivial
  · rintro _ behind rfl hbehind
    exact hbehind

theorem cuts_commaBlank : Cuts Anything ", ".toList (Single .comma [',']) :=
  cuts_comma.anywhere.blank

/-- A phrase in parentheses. -/
theorem cuts_parens {Inside : List Token → Prop} (h : Cuts EndsToken s Inside)
    (hphrase : ∀ opening inside closing, opening.kind = .leftParen → Inside inside →
      closing.kind = .rightParen → Phrase (opening :: (inside ++ [closing]))) :
    Cuts EndsToken ('(' :: (s ++ [')'])) Phrase := by
  have hclosed : Cuts EndsToken (s ++ [')']) (fun tokens => ∃ inside closing,
      tokens = inside ++ [closing] ∧ Inside inside ∧ closing.kind = .rightParen) := by
    apply h.append cuts_rightParen.anywhere
    · exact fun rest _ => endsToken_rightParen rest
    · rintro front _ hfront ⟨position, rfl⟩
      exact ⟨front, _, rfl, hfront, rfl⟩
  apply cuts_leftParen.append hclosed (fun _ _ => trivial)
  rintro _ _ ⟨position, rfl⟩ ⟨inside, closing, rfl, hinside, hclosing⟩
  exact hphrase _ inside closing rfl hinside hclosing

end Blanks

/-- Parts are put together to many if each of them is cut, and what stands between them
separates them. -/
theorem cuts_separated {α : Type} {Follow : List Char → Prop} {separator : String}
    {Separator : List Token → Prop} {text : α → List Char} {One : List Token → α → Prop}
    {Many : List Token → List α → Prop} (hseparator : Cuts Anything separator.toList Separator)
    (hfollow : ∀ rest, Follow (separator.toList ++ rest))
    (hone : ∀ tokens a, One tokens a → Many tokens [a])
    (hmore : ∀ front between behind a as, One front a → Separator between → Many behind as →
      Many (front ++ (between ++ behind)) (a :: as))
    {as : List α} (hne : as ≠ []) (h : ∀ a ∈ as, Cuts Follow (text a) (One · a)) :
    Cuts Follow (separated separator (as.map text)) (Many · as) := by
  induction as with
  | nil => exact absurd rfl hne
  | cons a rest ih =>
    obtain ⟨ha, hrest⟩ := List.forall_mem_cons.1 h
    by_cases hnil : rest = []
    · rw [hnil]
      exact ha.imp fun tokens => hone tokens a
    · have hmap : rest.map text ≠ [] := by simp [hnil]
      have htext : separated separator ((a :: rest).map text)
          = text a ++ (separator.toList ++ separated separator (rest.map text)) :=
        Text.joined_cons separator.toList (text a) hmap
      rw [htext]
      have htail : Cuts Follow (separator.toList ++ separated separator (rest.map text))
          (fun tokens => ∃ between behind, tokens = between ++ behind ∧ Separator between ∧
            Many behind rest) :=
        hseparator.append (ih hnil hrest) (fun _ _ => trivial)
          fun between behind hbetween hbehind => ⟨between, behind, rfl, hbetween, hbehind⟩
      apply ha.append htail
      · intro more _
        rw [List.append_assoc]
        exact hfollow _
      · rintro front _ hfront ⟨between, behind, rfl, hbetween, hbehind⟩
        exact hmore front between behind a rest hfront hbetween hbehind

end TableNotation.Token
