import TableNotation.Proofs.Query.Literals
/-!
# Tokens cover their text

A token is the beginning of the text that it is cut from, and the rest of the text is cut on
behind it.  So nothing of a text is lost but the blanks and line ends between its tokens.

* `first?_append`: a token is the beginning of a text.
* `exists_first_of_scan`: the first token of a text.
* `exists_mem_lexeme_of_scan`: every other character than a separator stands in a token.
-/

namespace TableNotation.Token

/-- The word `BY` and the separators in front of it are the beginning of what follows
`ORDER`. -/
theorem byTail?_prefix {s tail : List Char} (h : byTail? s = some tail) : tail <+: s := by
  simp only [byTail?] at h
  split at h
  · obtain rfl := Option.some.inj h
    obtain ⟨behind, hbehind⟩ : (s.dropWhile isSeparator).takeWhile isWordChar
        <+: s.dropWhile isSeparator := List.takeWhile_prefix _
    exact ⟨behind, by rw [List.append_assoc, hbehind, List.takeWhile_append_dropWhile]⟩
  · cases h

/-- A word, or the two words of a keyword, begin their text. -/
theorem word_append (c : Char) (rest : List Char) :
    ∃ tail, (word c rest).2 = c :: tail ∧ tail <+: rest := by
  simp only [word]
  split
  · cases hby : byTail? (rest.dropWhile isWordChar) with
    | none => exact ⟨_, rfl, List.takeWhile_prefix _⟩
    | some tail =>
      obtain ⟨behind, hbehind⟩ := byTail?_prefix hby
      refine ⟨rest.takeWhile isWordChar ++ tail, rfl, behind, ?_⟩
      rw [List.append_assoc, hbehind, List.takeWhile_append_dropWhile]
  · cases Keyword.ofWord? (c :: rest.takeWhile isWordChar) <;>
      exact ⟨_, rfl, List.takeWhile_prefix _⟩

/-- So do digits around a point. -/
theorem unsigned_prefix (s : List Char) : unsigned s <+: s := by
  have hwhole := @List.takeWhile_append_dropWhile _ Char.isDigit s
  simp only [unsigned]
  split
  · rename_i rest hrest
    obtain ⟨behind, hbehind⟩ : rest.takeWhile Char.isDigit <+: rest := List.takeWhile_prefix _
    refine ⟨behind, ?_⟩
    rw [List.append_assoc, List.cons_append, hbehind, ← hrest, hwhole]
  · exact List.takeWhile_prefix _

/-- So does a text in quotes. -/
theorem quoted?_prefix {quote : Char} {rest tail : List Char}
    (h : quoted? quote rest = some tail) : tail <+: rest := by
  simp only [quoted?] at h
  split at h
  · rename_i hshort
    obtain rfl := Option.some.inj h
    have happend := @List.takeWhile_append_dropWhile _ (· != quote) rest
    cases hbehind : rest.dropWhile (· != quote) with
    | nil =>
      rw [hbehind, List.append_nil] at happend
      rw [happend] at hshort
      omega
    | cons d behind =>
      have hd : d = quote := by
        have hnot := @List.head_dropWhile_not _ (· != quote) rest (by simp [hbehind])
        simpa [hbehind] using hnot
      rw [hbehind, hd] at happend
      exact ⟨behind, by rw [List.append_assoc]; exact happend⟩
  · cases h

/-- What belongs to an operator besides its first character is at most one character. -/
theorem operatorTail?_eq {c : Char} {next : Option Char} {tail : List Char}
    (h : operatorTail? c next = some tail) : tail = [] ∨ tail = next.toList := by
  unfold operatorTail? at h
  split at h <;> simp_all

/-- A token is the beginning of its text. -/
theorem first?_append {c : Char} {rest lexeme : List Char} {kind : TokenKind}
    (h : first? c rest = some (kind, lexeme)) : ∃ tail, lexeme = c :: tail ∧ tail <+: rest := by
  cases first_of_first? h with
  | word hstart => exact word_append c rest
  | digits hdigit =>
    obtain ⟨behind, hbehind⟩ := unsigned_prefix (c :: rest)
    obtain ⟨tail, hunsigned⟩ : ∃ tail, unsigned (c :: rest) = c :: tail := by
      simp only [unsigned, List.takeWhile_cons, hdigit, if_true]
      split <;> exact ⟨_, rfl⟩
    rw [hunsigned] at hbehind ⊢
    exact ⟨tail, rfl, behind, List.tail_eq_of_cons_eq hbehind⟩
  | negative _ _ => exact ⟨_, rfl, unsigned_prefix rest⟩
  | quoted _ htail => exact ⟨_, rfl, quoted?_prefix htail⟩
  | punctuation _ => exact ⟨[], rfl, List.nil_prefix⟩
  | @operator tail htail =>
    refine ⟨tail, rfl, ?_⟩
    rcases operatorTail?_eq htail with rfl | rfl
    · exact List.nil_prefix
    · cases rest with
      | nil => exact List.nil_prefix
      | cons d rest => exact ⟨rest, rfl⟩

/-- The text behind a token is the text without its characters. -/
theorem append_drop_of_first? {c : Char} {rest lexeme : List Char} {kind : TokenKind}
    (h : first? c rest = some (kind, lexeme)) :
    lexeme ++ rest.drop (lexeme.length - 1) = c :: rest := by
  obtain ⟨tail, rfl, behind, rfl⟩ := first?_append h
  simp

/-- A text that does not begin with a separator is cut into the token at its beginning and the
tokens of the rest. -/
theorem exists_first_of_scan {position : Nat} {c : Char} {rest : List Char} {tokens : List Token}
    (hseparator : isSeparator c = false) (h : scan position (c :: rest) = .ok tokens) :
    ∃ kind lexeme more, first? c rest = some (kind, lexeme) ∧
      tokens = ⟨kind, String.ofList lexeme, position⟩ :: more ∧
      scan (position + lexeme.length) (rest.drop (lexeme.length - 1)) = .ok more := by
  rw [scan, if_neg (by simp [hseparator])] at h
  cases hfirst : first? c rest with
  | none =>
    rw [hfirst] at h
    cases h
  | some found =>
    obtain ⟨kind, lexeme⟩ := found
    rw [hfirst] at h
    obtain ⟨more, hmore, htokens⟩ := bind_eq_ok.1 h
    exact ⟨kind, lexeme, more, rfl, (Except.ok.inj htokens).symm, hmore⟩

/-- Every character of a text but the separators stands in one of its tokens. -/
theorem exists_mem_lexeme_of_scan {position : Nat} {text : List Char} {tokens : List Token}
    (h : scan position text = .ok tokens) {c : Char} (hc : c ∈ text)
    (hseparator : isSeparator c = false) : ∃ token ∈ tokens, c ∈ token.lexeme.toList := by
  induction position, text using scan.induct generalizing tokens with
  | case1 position => exact absurd hc List.not_mem_nil
  | case2 position d rest hd ih =>
    rw [scan, if_pos hd] at h
    rcases List.mem_cons.1 hc with rfl | hc
    · rw [hd] at hseparator
      cases hseparator
    · exact ih h hc
  | case3 position d rest hd hnone =>
    rw [scan, if_neg hd, hnone] at h
    cases h
  | case4 position d rest hd kind lexeme hfirst ih =>
    obtain ⟨_, _, more, hfirst', rfl, hmore⟩ := exists_first_of_scan (by simpa using hd) h
    obtain ⟨rfl, rfl⟩ := Prod.mk.inj (Option.some.inj (hfirst.symm.trans hfirst'))
    rw [← append_drop_of_first? hfirst] at hc
    rcases List.mem_append.1 hc with hc | hc
    · exact ⟨_, List.mem_cons_self, by rwa [String.toList_ofList]⟩
    · obtain ⟨token, htoken, hmem⟩ := ih hmore hc
      exact ⟨token, List.mem_cons_of_mem _ htoken, hmem⟩

end TableNotation.Token
