import TableNotation.Proofs.Query.Lexemes
/-!
# A text as a sequence of tokens and separators

The tokens of a text and the separators around them make up the whole text.  At every place
the token is the longest one that can begin there, so a text has at most one such sequence, and
cutting it finds the sequence exactly if there is one.
Where cutting fails, everything up to the bad character is such a sequence, and no token begins
at the character.

* `Covers`: a text is a sequence of tokens and separators; `scan_eq_ok_iff`: cutting finds it.
* `Covers.exists_place`: where the tokens stand.
* `exists_covers_of_scan_error`: what is in front of a bad character, and what it begins.
* `ofQuery_covers`: all of this of the tokens of a query.
-/

namespace TableNotation.Token

/-- From a position on, a text is a sequence of tokens, each the longest at its place, and of
separators. -/
inductive Covers : Nat → List Char → List Token → Prop
  | nil (position : Nat) : Covers position [] []
  | separator {position : Nat} {c : Char} {rest : List Char} {tokens : List Token}
      (hc : isSeparator c = true) (hrest : Covers (position + 1) rest tokens) :
      Covers position (c :: rest) tokens
  | token {position : Nat} {kind : TokenKind} {lexeme rest : List Char} {tokens : List Token}
      (hfirst : IsFirst kind lexeme rest)
      (hrest : Covers (position + lexeme.length) rest tokens) :
      Covers position (lexeme ++ rest) (⟨kind, String.ofList lexeme, position⟩ :: tokens)

/-- Whether a character may be taken for a part of a word: letters, digits, the underscore, and
everything beyond ASCII. -/
def isWordLike (c : Char) : Bool := isWordChar c || 127 < c.toNat

/-- A token stands in a text behind as many characters as its position says, its characters
determine its kind, and a word does not go on behind it. -/
structure StandsIn (text : List Char) (token : Token) : Prop where
  place : ∃ before behind, text = before ++ (token.lexeme.toList ++ behind) ∧
    before.length = token.position ∧
      (token.kind.isWord = true → ∀ c ∈ behind.head?, isWordLike c = false)
  nonempty : token.lexeme.toList ≠ []
  kind_iff : ∀ kind, IsLexeme kind token.lexeme.toList ↔ kind = token.kind

/-! ### First characters -/

theorem toNat_le_of_isWordChar {c : Char} (h : isWordChar c = true) : c.toNat ≤ 127 := by
  simp only [isWordChar, Char.isAlphanum, Char.isAlpha, Char.isUpper, Char.isLower, Char.isDigit,
    Bool.or_eq_true, Bool.and_eq_true, decide_eq_true_eq, UInt32.le_iff_toNat_le, ge_iff_le] at h
  have hc : c.toNat = c.val.toNat := rfl
  have hupper : 'Z'.val.toNat = 90 := rfl
  have hlower : 'z'.val.toNat = 122 := rfl
  have hnine : '9'.val.toNat = 57 := rfl
  rcases h with h | rfl
  · omega
  · decide

theorem isWordChar_iff {c : Char} :
    isWordChar c = true ↔ isWordStart c = true ∨ c.isDigit = true := by
  simp only [isWordChar, isWordStart, Char.isAlphanum, Bool.or_eq_true]
  exact or_right_comm

/-- Tokens begin with characters of ASCII. -/
theorem toNat_le_of_front? {c : Char} {rest lexeme : List Char} {kind : TokenKind}
    (h : front? (c :: rest) = some (kind, lexeme)) : c.toNat ≤ 127 := by
  cases first_of_first? h with
  | word hstart => exact toNat_le_of_isWordChar (isWordChar_iff.2 (.inl hstart))
  | digits hdigit => exact toNat_le_of_isWordChar (isWordChar_iff.2 (.inr hdigit))
  | negative hminus _ => rw [hminus]; decide
  | quoted hquote _ => rcases hquote with rfl | rfl <;> decide
  | punctuation hkind =>
    rcases punctuation_cases hkind with ⟨rfl, _⟩ | ⟨rfl, _⟩ | ⟨rfl, _⟩ <;> decide
  | operator htail =>
    unfold operatorTail? at htail
    split at htail <;> first | decide | cases htail

/-- With a letter, a digit or an underscore a token begins. -/
theorem isWordChar_of_front?_eq_none {c : Char} {rest : List Char}
    (h : front? (c :: rest) = none) : isWordChar c = false := by
  rw [Bool.eq_false_iff, Ne, isWordChar_iff]
  rintro (hstart | hdigit)
  · rw [front?, first?, if_pos hstart] at h
    cases h
  · rw [front?, first?, if_neg (by simp [isWordStart_of_isDigit hdigit]), if_pos hdigit] at h
    cases h

theorem front?_separator {c : Char} (h : isSeparator c = true) (rest : List Char) :
    front? (c :: rest) = none := by
  rcases isSeparator_cases h with rfl | rfl | rfl | rfl <;> rfl

/-- A token is at least one character. -/
theorem exists_cons_of_front? {text lexeme : List Char} {kind : TokenKind}
    (h : front? text = some (kind, lexeme)) :
    ∃ c tail, lexeme = c :: tail ∧ isSeparator c = false := by
  cases text with
  | nil => cases h
  | cons c rest =>
    obtain ⟨tail, rfl, _⟩ := first?_append h
    refine ⟨c, tail, rfl, Bool.eq_false_iff.2 fun hseparator => ?_⟩
    rw [front?_separator hseparator] at h
    cases h

/-! ### Cutting a text -/

/-- The tokens that a text is cut into cover it. -/
theorem covers_of_scan {position : Nat} {text : List Char} {tokens : List Token}
    (h : scan position text = .ok tokens) : Covers position text tokens := by
  induction position, text using scan.induct generalizing tokens with
  | case1 position =>
    rw [scan] at h
    obtain rfl := Except.ok.inj h
    exact .nil position
  | case2 position c rest hseparator ih =>
    rw [scan, if_pos hseparator] at h
    exact .separator hseparator (ih h)
  | case3 position c rest hseparator hnone =>
    rw [scan, if_neg hseparator, hnone] at h
    cases h
  | case4 position c rest hseparator kind lexeme hfirst ih =>
    rw [scan, if_neg hseparator, hfirst] at h
    obtain ⟨more, hmore, htokens⟩ := bind_eq_ok.1 h
    obtain rfl := Except.ok.inj htokens
    have htext := append_drop_of_first? hfirst
    rw [← htext]
    exact .token (front?_eq_some_iff.1 (by rw [htext]; exact hfirst)) (ih hmore)

/-- A text that tokens cover is cut into them. -/
theorem Covers.scan_eq {position : Nat} {text : List Char} {tokens : List Token}
    (h : Covers position text tokens) : scan position text = .ok tokens := by
  induction h with
  | nil position => rw [scan]
  | separator hc _ ih => rw [scan, if_pos hc, ih]
  | @token position kind lexeme rest tokens hfirst _ ih =>
    have hfound := front?_eq_some_iff.2 hfirst
    obtain ⟨c, tail, rfl, hseparator⟩ := exists_cons_of_front? hfound
    have hfirst? : first? c (tail ++ rest) = some (kind, c :: tail) := hfound
    have hdrop : (tail ++ rest).drop ((c :: tail).length - 1) = rest := by simp
    rw [List.cons_append, scan, if_neg (by simp [hseparator]), hfirst?]
    simp only [hdrop, ih]
    rfl

theorem scan_eq_ok_iff {position : Nat} {text : List Char} {tokens : List Token} :
    scan position text = .ok tokens ↔ Covers position text tokens :=
  ⟨covers_of_scan, Covers.scan_eq⟩

/-! ### Where tokens stand -/

/-- A covered text begins with a character of ASCII. -/
theorem Covers.head_le {position : Nat} {text : List Char} {tokens : List Token}
    (h : Covers position text tokens) : ∀ c ∈ text.head?, c.toNat ≤ 127 := by
  cases h with
  | nil position => exact nofun
  | @separator _ c _ _ hc _ =>
    intro d hd
    rw [← Option.some.inj hd]
    rcases isSeparator_cases hc with rfl | rfl | rfl | rfl <;> decide
  | @token _ kind lexeme rest _ hfirst _ =>
    have hfound := front?_eq_some_iff.2 hfirst
    obtain ⟨c, tail, rfl, _⟩ := exists_cons_of_front? hfound
    intro d hd
    rw [← Option.some.inj hd]
    exact toNat_le_of_front? hfound

/-- Each token of a covered text stands at its position. -/
theorem Covers.exists_place {position : Nat} {text : List Char} {tokens : List Token}
    (h : Covers position text tokens) {token : Token} (hmem : token ∈ tokens) :
    ∃ before behind, text = before ++ (token.lexeme.toList ++ behind) ∧
      position + before.length = token.position ∧ IsLexeme token.kind token.lexeme.toList ∧
        (token.kind.isWord = true → ∀ c ∈ behind.head?, isWordLike c = false) := by
  induction h with
  | nil position => exact absurd hmem List.not_mem_nil
  | @separator position c _ _ _ _ ih =>
    obtain ⟨before, behind, rfl, hposition, hrest⟩ := ih hmem
    exact ⟨c :: before, behind, rfl, by rw [List.length_cons]; omega, hrest⟩
  | @token position kind lexeme rest _ hfirst hrest ih =>
    rcases List.mem_cons.1 hmem with rfl | hmem
    · refine ⟨[], rest, by simp, rfl, by simpa using hfirst.isLexeme, fun hword c hc => ?_⟩
      have hascii := hrest.head_le c hc
      simpa [isWordLike, hfirst.ends hword c hc] using hascii
    · obtain ⟨before, behind, rfl, hposition, hrest⟩ := ih hmem
      refine ⟨lexeme ++ before, behind, by simp, ?_, hrest⟩
      rw [List.length_append]
      omega

theorem Covers.standsIn {text : List Char} {tokens : List Token} (h : Covers 0 text tokens)
    {token : Token} (hmem : token ∈ tokens) : StandsIn text token := by
  obtain ⟨before, behind, htext, hposition, hlexeme, hends⟩ := h.exists_place hmem
  refine ⟨⟨before, behind, htext, by omega, hends⟩, ?_, fun kind => ?_⟩
  · obtain ⟨c, tail, hcons, _⟩ := exists_cons_of_front? hlexeme.front?_eq
    rw [hcons]
    exact List.cons_ne_nil c tail
  · constructor
    · exact fun hkind => hkind.kind_unique hlexeme
    · rintro rfl
      exact hlexeme

/-! ### What a bad character begins -/

/-- The longest token at the beginning of a text is the longest one at the beginning of the text
up to a character that no word goes on with. -/
theorem IsFirst.before {kind : TokenKind} {lexeme rest behind : List Char} {c : Char}
    (hc : isWordChar c = false) (h : IsFirst kind lexeme (rest ++ c :: behind)) :
    IsFirst kind lexeme rest := by
  refine ⟨⟨h.isLexeme, fun hword d hd => ?_⟩, fun other s after hother hsame => ?_⟩
  · apply h.ends hword
    cases rest with
    | nil => cases hd
    | cons e rest => exact hd
  · apply h.longest other s (after ++ c :: behind) ⟨hother.isLexeme, fun hword d hd => ?_⟩
    · rw [← List.append_assoc, hsame, List.append_assoc]
    · cases after with
      | nil => exact Option.some.inj hd ▸ hc
      | cons e after => exact hother.ends hword d hd

/-- Where cutting fails, the text up to the bad character is covered, and no token begins with
the character. -/
theorem exists_covers_of_scan_error {position : Nat} {text : List Char} {e : QueryError}
    (h : scan position text = .error e) : ∃ before c behind tokens, text = before ++ c :: behind ∧
      e = .invalidCharacter (position + before.length) c ∧ Covers position before tokens ∧
        isSeparator c = false ∧ front? (c :: behind) = none := by
  induction position, text using scan.induct with
  | case1 position =>
    rw [scan] at h
    cases h
  | case2 position c rest hseparator ih =>
    rw [scan, if_pos hseparator] at h
    obtain ⟨before, d, behind, tokens, rfl, rfl, hcovers, hbad⟩ := ih h
    refine ⟨c :: before, d, behind, tokens, rfl, ?_, .separator hseparator hcovers, hbad⟩
    rw [List.length_cons, Nat.add_assoc, Nat.add_comm 1]
  | case3 position c rest hseparator hnone =>
    rw [scan, if_neg hseparator, hnone] at h
    obtain rfl := Except.error.inj h
    exact ⟨[], c, rest, [], rfl, rfl, .nil position, by simpa using hseparator, hnone⟩
  | case4 position c rest hseparator kind lexeme hfirst ih =>
    rw [scan, if_neg hseparator, hfirst] at h
    have hmore : scan (position + lexeme.length) (rest.drop (lexeme.length - 1)) = .error e := by
      rcases bind_eq_error.1 h with hmore | ⟨more, _, hreturn⟩
      · exact hmore
      · cases hreturn
    obtain ⟨before, d, behind, tokens, hdrop, rfl, hcovers, hd, hnone⟩ := ih hmore
    have htext := append_drop_of_first? hfirst
    rw [hdrop] at htext
    have hlongest : IsFirst kind lexeme (before ++ d :: behind) :=
      front?_eq_some_iff.1 (by rw [htext]; exact hfirst)
    refine ⟨lexeme ++ before, d, behind, _, by rw [← htext, List.append_assoc], ?_,
      .token (hlongest.before (isWordChar_of_front?_eq_none hnone)) hcovers, hd, hnone⟩
    rw [List.length_append, Nat.add_assoc]

/-! ### The tokens of a query -/

/-- Cutting a text loses, doubles and moves nothing: the tokens and the separators around them
make up the text, each token stands at its position, has the kind of its characters and does not
end inside a word.  Where cutting fails, this holds of the text up to the bad character, and no
token begins there. -/
theorem ofQuery_covers (text : List Char) :
    (∀ tokens, ofQuery text = .ok tokens ↔ Covers 0 text tokens) ∧
    (∀ tokens, ofQuery text = .ok tokens → ∀ token ∈ tokens, StandsIn text token) ∧
    ∀ error, ofQuery text = .error error → ∃ before c behind tokens,
      text = before ++ c :: behind ∧ error = .invalidCharacter before.length c ∧
      Covers 0 before tokens ∧ (∀ token ∈ tokens, StandsIn before token) ∧
      isSeparator c = false ∧ ∀ kind s, IsLexeme kind s → ¬ s <+: c :: behind := by
  refine ⟨fun tokens => scan_eq_ok_iff, fun tokens htokens token hmem => ?_, fun error herror => ?_⟩
  · exact (covers_of_scan htokens).standsIn hmem
  · obtain ⟨before, c, behind, tokens, htext, he, hcovers, hc, hnone⟩ :=
      exists_covers_of_scan_error herror
    rw [Nat.zero_add] at he
    exact ⟨before, c, behind, tokens, htext, he, hcovers, fun _ hmem => hcovers.standsIn hmem, hc,
      front?_eq_none_iff.1 hnone⟩

/-- Three tokens, of which the second is two words, and a text that ends at a bad character. -/
theorem ofQuery_covers_sample :
    (∃ tokens, ofQuery "rows Order \t by n".toList = .ok tokens ∧ tokens.length = 3 ∧
      Covers 0 "rows Order \t by n".toList tokens ∧
        ∀ token ∈ tokens, StandsIn "rows Order \t by n".toList token) ∧
    ∃ before c behind tokens, "n >= -1.5é".toList = before ++ c :: behind ∧
      ofQuery "n >= -1.5é".toList = .error (.invalidCharacter before.length c) ∧
      Covers 0 before tokens ∧ (∀ token ∈ tokens, StandsIn before token) ∧
      isSeparator c = false ∧ ∀ kind s, IsLexeme kind s → ¬ s <+: c :: behind := by
  have htokens : ofQuery "rows Order \t by n".toList = .ok [⟨.identifier, "rows", 0⟩,
      ⟨.keyword .orderBy, "Order \t by", 5⟩, ⟨.identifier, "n", 16⟩] := by cbv
  have herror : ofQuery "n >= -1.5é".toList = .error (.invalidCharacter 9 'é') := by cbv
  obtain ⟨before, c, behind, tokens, htext, he, hbefore⟩ := (ofQuery_covers _).2.2 _ herror
  refine ⟨⟨_, htokens, rfl, ((ofQuery_covers _).1 _).1 htokens, (ofQuery_covers _).2.1 _ htokens⟩,
    before, c, behind, tokens, htext, ?_, hbefore⟩
  rw [herror, he]

end TableNotation.Token
