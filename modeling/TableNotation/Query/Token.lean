/-!
# Tokens of queries

A token is a piece of a query with its kind, its text and the number of
characters in front of it.  Keywords are read without regard to case.

* `Keyword.ofWord?` is the keyword of a word;
* `TokenKind.name` is the word for a kind in messages.
-/

namespace TableNotation

/-- The words with a meaning of their own. -/
inductive Keyword where
  | selectWord
  | fromWord
  | whereWord
  | orderBy
  | limit
  | offset
  | andWord
  | orWord
  | notWord
  | inWord
  | like
  | between
  | asc
  | desc
  deriving DecidableEq

namespace Keyword

/-- All keywords. -/
def all : List Keyword :=
  [.selectWord, .fromWord, .whereWord, .orderBy, .limit, .offset, .andWord, .orWord, .notWord,
   .inWord, .like, .between, .asc, .desc]

/-- The spelling of a keyword in capitals. -/
def name : Keyword → String
  | selectWord => "SELECT"
  | fromWord => "FROM"
  | whereWord => "WHERE"
  | orderBy => "ORDER BY"
  | limit => "LIMIT"
  | offset => "OFFSET"
  | andWord => "AND"
  | orWord => "OR"
  | notWord => "NOT"
  | inWord => "IN"
  | like => "LIKE"
  | between => "BETWEEN"
  | asc => "ASC"
  | desc => "DESC"

/-- The keyword of a single word, whatever its case. -/
def ofWord? (word : List Char) : Option Keyword :=
  all.find? fun k => k.name.toList = word.map Char.toUpper

end Keyword

/-- The kinds of tokens. -/
inductive TokenKind where
  | keyword (word : Keyword)
  | identifier
  | number
  | string
  | operator
  | comma
  | leftParen
  | rightParen
  deriving DecidableEq

namespace TokenKind

/-- The word for a kind in messages. -/
def name : TokenKind → String
  | keyword word => word.name
  | identifier => "IDENTIFIER"
  | number => "NUMBER"
  | string => "STRING"
  | operator => "OPERATOR"
  | comma => "COMMA"
  | leftParen => "LPAREN"
  | rightParen => "RPAREN"

/-- All kinds. -/
def all : List TokenKind :=
  Keyword.all.map .keyword
    ++ [.identifier, .number, .string, .operator, .comma, .leftParen, .rightParen]

/-- The kind of a word in messages. -/
def ofName? (name : String) : Option TokenKind := all.find? fun kind => kind.name = name

end TokenKind

/-- A piece of a query. -/
structure Token where
  kind : TokenKind
  lexeme : String
  position : Nat
  deriving DecidableEq

end TableNotation
