import TableNotation.Query.QueryError
/-!
# Cutting a query into tokens

Tokens are words, numbers, quoted texts, operators and punctuation; spaces, tabs
and line ends separate them.  A word is taken as long as it is, so a keyword is
never cut out of a longer word; `ORDER BY` is one token with the blanks inside
it.

* `Token.ofQuery` are the tokens of a text.
-/

namespace TableNotation

namespace Token

/-- Whether a character separates tokens. -/
def isSeparator (c : Char) : Bool := c = ' ' || c = '\t' || c = '\r' || c = '\n'

/-- Whether a character can begin a word. -/
def isWordStart (c : Char) : Bool := c.isAlpha || c = '_'

/-- Whether a character can stand in a word. -/
def isWordChar (c : Char) : Bool := c.isAlphanum || c = '_'

/-- The separators and the word `BY` at the beginning of what follows `ORDER`. -/
def byTail? (s : List Char) : Option (List Char) :=
  let gap := s.takeWhile isSeparator
  let word := (s.dropWhile isSeparator).takeWhile isWordChar
  if !gap.isEmpty && word.map Char.toUpper = ['B', 'Y'] then some (gap ++ word) else none

/-- The kind and the characters of a token that begins with a word. -/
def word (c : Char) (rest : List Char) : TokenKind × List Char :=
  let word := c :: rest.takeWhile isWordChar
  if word.map Char.toUpper = ['O', 'R', 'D', 'E', 'R'] then
    match byTail? (rest.dropWhile isWordChar) with
    | some tail => (.keyword .orderBy, word ++ tail)
    | none => (.identifier, word)
  else match Keyword.ofWord? word with
    | some keyword => (.keyword keyword, word)
    | none => (.identifier, word)

/-- Digits, and perhaps a point and more digits. -/
def unsigned (s : List Char) : List Char :=
  let whole := s.takeWhile Char.isDigit
  match s.dropWhile Char.isDigit with
  | '.' :: rest => whole ++ '.' :: rest.takeWhile Char.isDigit
  | _ => whole

/-- A text up to and with the closing quote. -/
def quoted? (quote : Char) (rest : List Char) : Option (List Char) :=
  let inner := rest.takeWhile (· != quote)
  if inner.length < rest.length then some (inner ++ [quote]) else none

/-- The characters behind `c` that belong to an operator, if one begins there. -/
def operatorTail? (c : Char) (next : Option Char) : Option (List Char) :=
  match c, next with
  | '<', some '=' => some ['=']
  | '<', some '>' => some ['>']
  | '>', some '=' => some ['=']
  | '!', some '=' => some ['=']
  | '=', _ => some []
  | '<', _ => some []
  | '>', _ => some []
  | _, _ => none

/-- The kind and the characters of the token at the beginning of a text with first
character `c`. -/
def first? (c : Char) (rest : List Char) : Option (TokenKind × List Char) :=
  if isWordStart c then some (word c rest)
  else if c.isDigit then some (.number, unsigned (c :: rest))
  else if c = '-' then
    if (rest.headD ' ').isDigit then some (.number, '-' :: unsigned rest) else none
  else if c = '\'' || c = '"' then (quoted? c rest).map fun tail => (.string, c :: tail)
  else if c = ',' then some (.comma, [c])
  else if c = '(' then some (.leftParen, [c])
  else if c = ')' then some (.rightParen, [c])
  else (operatorTail? c rest.head?).map fun tail => (.operator, c :: tail)

/-- The tokens of a text in front of which there are `position` characters. -/
def scan (position : Nat) : List Char → Except QueryError (List Token)
  | [] => .ok []
  | c :: rest =>
    if isSeparator c then scan (position + 1) rest
    else match first? c rest with
      | none => .error (.invalidCharacter position c)
      | some (kind, lexeme) => do
        let more ← scan (position + lexeme.length) (rest.drop (lexeme.length - 1))
        return ⟨kind, String.ofList lexeme, position⟩ :: more
termination_by s => s.length
decreasing_by
  · simp
  · simp only [List.length_drop, List.length_cons]; omega

/-- The tokens of a query. -/
def ofQuery (query : List Char) : Except QueryError (List Token) := scan 0 query

end Token
end TableNotation
