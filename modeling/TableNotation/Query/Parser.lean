import TableNotation.Number.Reading
import TableNotation.Query.Lexer
/-!
# Reading a query

The tokens of a query are read from left to right by the grammar

    query      = IDENTIFIER [select] [where] [order] [limit] [offset]
    select     = SELECT IDENTIFIER more of: COMMA IDENTIFIER
    where      = WHERE any
    any        = all, more of: OR all
    all        = condition, more of: AND condition
    condition  = LPAREN any RPAREN
               | NOT condition
               | IDENTIFIER (IN list | NOT IN list | LIKE value
                            | BETWEEN value AND value | OPERATOR value)
    list       = LPAREN value more of: COMMA value, RPAREN
    value      = STRING | NUMBER | IDENTIFIER

A chain of one operand is that operand, a chain of several is one group.

* `Query.ofTokens` reads tokens, and `Query.parse` a text, which may be wrapped as
  `@query[...]`.
-/

namespace TableNotation

/-- What was read from the front of tokens, and the fewer tokens behind it. -/
structure Parsed (α : Type) (tokens : List Token) where
  value : α
  rest : List Token
  shorter : rest.length < tokens.length

/-- What was read from the front of tokens, and the tokens behind it, perhaps
all. -/
structure ParsedMore (α : Type) (tokens : List Token) where
  value : α
  rest : List Token
  notLonger : rest.length ≤ tokens.length

namespace Query

/-- The first token, which has to be of a kind. -/
def expect (kind : TokenKind) (tokens : List Token) : Except QueryError (Parsed Token tokens) :=
  match tokens with
  | [] => .error (.expected kind none)
  | token :: rest =>
    if token.kind = kind then .ok ⟨token, rest, Nat.lt_succ_self _⟩
    else .error (.expected kind (some token))

/-- Whether the first token is of a kind. -/
def startsWith (kind : TokenKind) (tokens : List Token) : Bool :=
  match tokens with
  | [] => false
  | token :: _ => token.kind = kind

/-- The value of an identifier in place of a literal: a word for a truth value or
for null, or a text. -/
def wordValue (word : String) : Value :=
  let upper := String.ofList (word.toList.map Char.toUpper)
  if upper = "TRUE" then .bool true
  else if upper = "FALSE" then .bool false
  else if upper = "NULL" then .null
  else .string word

/-- The value of a token. -/
def tokenValue (token : Token) : Except QueryError Value :=
  match token.kind with
  | .string => .ok (.string (String.ofList (token.lexeme.toList.drop 1).dropLast))
  | .number =>
    match Number.read? token.lexeme.toList with
    | some n => .ok (.number n)
    | none => .error (.invalidNumber token)
  | .identifier => .ok (wordValue token.lexeme)
  | _ => .error (.expectedValue (some token))

/-- A literal. -/
def value (tokens : List Token) : Except QueryError (Parsed Value tokens) :=
  match tokens with
  | [] => .error (.expectedValue none)
  | token :: rest => do
    let value ← tokenValue token
    return ⟨value, rest, Nat.lt_succ_self _⟩

/-- More of: a comma and an item. -/
def commaItems {α : Type}
    (item : (tokens : List Token) → Except QueryError (Parsed α tokens))
    (tokens : List Token) : Except QueryError (ParsedMore (List α) tokens) :=
  match tokens with
  | [] => .ok ⟨[], [], Nat.le_refl _⟩
  | token :: rest =>
    if token.kind = .comma then do
      let first ← item rest
      let more ← commaItems item first.rest
      return ⟨first.value :: more.value, more.rest, by
        have := first.shorter
        have := more.notLonger
        simp only [List.length_cons]; omega⟩
    else .ok ⟨[], token :: rest, Nat.le_refl _⟩
termination_by tokens.length
decreasing_by
  have := first.shorter
  simp only [List.length_cons]; omega

/-- Items with commas between them. -/
def items {α : Type}
    (item : (tokens : List Token) → Except QueryError (Parsed α tokens))
    (tokens : List Token) : Except QueryError (Parsed (List α) tokens) := do
  let first ← item tokens
  let more ← commaItems item first.rest
  return ⟨first.value :: more.value, more.rest,
    Nat.lt_of_le_of_lt more.notLonger first.shorter⟩

/-- Literals in parentheses. -/
def list (tokens : List Token) : Except QueryError (Parsed Value tokens) := do
  let opening ← expect .leftParen tokens
  let values ← items value opening.rest
  let closing ← expect .rightParen values.rest
  return ⟨.array values.value, closing.rest,
    Nat.lt_trans closing.shorter (Nat.lt_trans values.shorter opening.shorter)⟩

/-- The name of a field. -/
def identifier (tokens : List Token) : Except QueryError (Parsed String tokens) := do
  let token ← expect .identifier tokens
  return ⟨token.value.lexeme, token.rest, token.shorter⟩

/-- What follows the field of a condition. -/
def comparison (field : String) (tokens : List Token) :
    Except QueryError (Parsed Condition tokens) :=
  match tokens with
  | ⟨.keyword .inWord, _, _⟩ :: rest => do
    let candidates ← list rest
    return ⟨⟨field, .among, candidates.value, none⟩, candidates.rest,
      Nat.lt_succ_of_lt candidates.shorter⟩
  | ⟨.keyword .notWord, _, _⟩ :: ⟨.keyword .inWord, _, _⟩ :: rest => do
    let candidates ← list rest
    return ⟨⟨field, .notAmong, candidates.value, none⟩, candidates.rest,
      Nat.lt_succ_of_lt (Nat.lt_succ_of_lt candidates.shorter)⟩
  | ⟨.keyword .like, _, _⟩ :: rest => do
    let pattern ← value rest
    return ⟨⟨field, .like, pattern.value, none⟩, pattern.rest,
      Nat.lt_succ_of_lt pattern.shorter⟩
  | ⟨.keyword .between, _, _⟩ :: rest => do
    let lower ← value rest
    let joint ← expect (.keyword .andWord) lower.rest
    let upper ← value joint.rest
    return ⟨⟨field, .between, lower.value, some upper.value⟩, upper.rest,
      Nat.lt_succ_of_lt
        (Nat.lt_trans upper.shorter (Nat.lt_trans joint.shorter lower.shorter))⟩
  | tokens => do
    let operator ← expect .operator tokens
    match Comparison.ofSymbol? operator.value.lexeme with
    | none => throw (.unknownOperator operator.value)
    | some comparison =>
      let literal ← value operator.rest
      return ⟨⟨field, comparison, literal.value, none⟩, literal.rest,
        Nat.lt_trans literal.shorter operator.shorter⟩

/-- A chain of operands: a group, unless there is only one. -/
def chain (connective : Connective) (first : Node) (more : List Node) : Node :=
  match more with
  | [] => first
  | _ :: _ => .group connective (first :: more)

mutual

/-- A chain of OR. -/
def anyOf (tokens : List Token) : Except QueryError (Parsed Node tokens) := do
  let first ← allOf tokens
  let more ← orTerms first.rest
  return ⟨chain .or first.value more.value, more.rest,
    Nat.lt_of_le_of_lt more.notLonger first.shorter⟩
termination_by (tokens.length, 2)
decreasing_by
  · exact Prod.Lex.right _ (by decide)
  · exact Prod.Lex.left _ _ first.shorter

/-- The operands of a chain of OR behind the first. -/
def orTerms (tokens : List Token) : Except QueryError (ParsedMore (List Node) tokens) :=
  match tokens with
  | [] => .ok ⟨[], [], Nat.le_refl _⟩
  | token :: rest =>
    if token.kind = .keyword .orWord then do
      let first ← allOf rest
      let more ← orTerms first.rest
      return ⟨first.value :: more.value, more.rest,
        Nat.le_succ_of_le (Nat.le_trans more.notLonger (Nat.le_of_lt first.shorter))⟩
    else .ok ⟨[], token :: rest, Nat.le_refl _⟩
termination_by (tokens.length, 0)
decreasing_by
  · exact Prod.Lex.left _ _ (Nat.lt_succ_self _)
  · exact Prod.Lex.left _ _ (Nat.lt_succ_of_lt first.shorter)

/-- A chain of AND. -/
def allOf (tokens : List Token) : Except QueryError (Parsed Node tokens) := do
  let first ← condition tokens
  let more ← andTerms first.rest
  return ⟨chain .and first.value more.value, more.rest,
    Nat.lt_of_le_of_lt more.notLonger first.shorter⟩
termination_by (tokens.length, 1)
decreasing_by
  · exact Prod.Lex.right _ (by decide)
  · exact Prod.Lex.left _ _ first.shorter

/-- The operands of a chain of AND behind the first. -/
def andTerms (tokens : List Token) : Except QueryError (ParsedMore (List Node) tokens) :=
  match tokens with
  | [] => .ok ⟨[], [], Nat.le_refl _⟩
  | token :: rest =>
    if token.kind = .keyword .andWord then do
      let first ← condition rest
      let more ← andTerms first.rest
      return ⟨first.value :: more.value, more.rest,
        Nat.le_succ_of_le (Nat.le_trans more.notLonger (Nat.le_of_lt first.shorter))⟩
    else .ok ⟨[], token :: rest, Nat.le_refl _⟩
termination_by (tokens.length, 0)
decreasing_by
  · exact Prod.Lex.left _ _ (Nat.lt_succ_self _)
  · exact Prod.Lex.left _ _ (Nat.lt_succ_of_lt first.shorter)

/-- A condition, a group in parentheses, or the negation of one of them. -/
def condition (tokens : List Token) : Except QueryError (Parsed Node tokens) :=
  match tokens with
  | [] => .error (.expected .identifier none)
  | token :: rest =>
    if token.kind = .leftParen then do
      let inner ← anyOf rest
      let closing ← expect .rightParen inner.rest
      return ⟨inner.value, closing.rest,
        Nat.lt_succ_of_lt (Nat.lt_trans closing.shorter inner.shorter)⟩
    else if token.kind = .keyword .notWord then do
      let inner ← condition rest
      return ⟨.group .not [inner.value], inner.rest, Nat.lt_succ_of_lt inner.shorter⟩
    else do
      let field ← identifier (token :: rest)
      let condition ← comparison field.value field.rest
      return ⟨.condition condition.value, condition.rest,
        Nat.lt_trans condition.shorter field.shorter⟩
termination_by (tokens.length, 0)
decreasing_by
  all_goals exact Prod.Lex.left _ _ (Nat.lt_succ_self _)

end

/-- The field and the direction of an order. -/
def ordering (tokens : List Token) :
    Except QueryError (Parsed (String × Direction) tokens) := do
  let field ← identifier tokens
  match h : field.rest with
  | ⟨.keyword .asc, _, _⟩ :: rest =>
    return ⟨(field.value, .ascending), rest, by
      have := field.shorter; rw [h, List.length_cons] at this; omega⟩
  | ⟨.keyword .desc, _, _⟩ :: rest =>
    return ⟨(field.value, .descending), rest, by
      have := field.shorter; rw [h, List.length_cons] at this; omega⟩
  | _ => return ⟨(field.value, .ascending), field.rest, field.shorter⟩

/-- The number behind a keyword. -/
def count (clause : Keyword) (tokens : List Token) :
    Except QueryError (Parsed Nat tokens) := do
  let token ← expect .number tokens
  match readCount? token.value.lexeme.toList with
  | some n => return ⟨n, token.rest, token.shorter⟩
  | none => throw (.invalidCount clause token.value)

/-- A clause that a keyword opens, if the keyword comes first. -/
def optional {α : Type} (word : Keyword)
    (inner : (tokens : List Token) → Except QueryError (Parsed α tokens))
    (tokens : List Token) : Except QueryError (Option α × List Token) :=
  match tokens with
  | [] => .ok (none, [])
  | token :: rest =>
    if token.kind = .keyword word then do
      let parsed ← inner rest
      return (some parsed.value, parsed.rest)
    else .ok (none, token :: rest)

/-- The query of tokens, of which none may be left. -/
def ofTokens (tokens : List Token) : Except QueryError Query := do
  let table ← identifier tokens
  let (fields, rest) ← optional .selectWord (items identifier) table.rest
  let (filter, rest) ← optional .whereWord anyOf rest
  let (order, rest) ← optional .orderBy ordering rest
  let (limit, rest) ← optional .limit (count .limit) rest
  let (offset, rest) ← optional .offset (count .offset) rest
  match rest with
  | token :: _ => throw (.unexpected token)
  | [] =>
    return {
      table := table.value
      fields
      filter := filter.map Node.toGroup
      orderBy := order.map Prod.fst
      direction := (order.map Prod.snd).getD .ascending
      limit
      offset := offset.getD 0 }

/-- The beginning of a wrapped query. -/
def wrapper : List Char := "@QUERY[".toList

/-- What follows the first wrapper in a text, whatever its case. -/
def afterWrapper? : List Char → Option (List Char)
  | [] => none
  | c :: rest =>
    if ((c :: rest).take wrapper.length).map Char.toUpper = wrapper then
      some ((c :: rest).drop wrapper.length)
    else afterWrapper? rest

/-- What stands in front of the last closing bracket of a text. -/
def beforeLastBracket? : List Char → Option (List Char)
  | [] => none
  | c :: rest =>
    match beforeLastBracket? rest with
    | some inner => some (c :: inner)
    | none => if c = ']' then some [] else none

/-- The query inside `@query[...]`, up to the last bracket, or the text itself if
it holds no such wrapper. -/
def unwrap (text : List Char) : List Char :=
  ((afterWrapper? text).bind beforeLastBracket?).getD text

/-- The query of a text. -/
def parseChars (text : List Char) : Except QueryError Query := do
  let tokens ← Token.ofQuery (unwrap text)
  ofTokens tokens

/-- The query of a text. -/
def parse (text : String) : Except QueryError Query := parseChars text.toList

end Query
end TableNotation
