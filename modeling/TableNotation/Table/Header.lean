import TableNotation.Literal.Basic
/-!
# Headers of tables

A header is a line `name(count):`; behind the name a `+` says that the rows
continue a table of that name.

* `Header.read?` takes a line apart, whatever the count;
* `Header.looksLike` is the rough shape by which the reader of rows tells that a
  line is no row.
-/

namespace TableNotation

/-- The announcement of the rows of a table. -/
structure Header where
  name : String
  count : Nat
  continuation : Bool
  deriving DecidableEq

namespace Header

/-- The line of a header. -/
def render (header : Header) : List Char :=
  header.name.toList ++ (if header.continuation then ['+'] else [])
    ++ '(' :: (Decimal.digitsOf header.count ++ [')', ':'])

/-- Whether a character can be part of the name in a header. -/
def isNameChar (c : Char) : Bool := c != '(' && c != '+' && !isBlank c

/-- Whether a name can be read back from a header: it is not empty, has no
parenthesis, plus sign or blank, and is not a directive. -/
def isReadable (name : List Char) : Bool :=
  !name.isEmpty && name.all isNameChar && name.head? != some '@'

/-- The digits between parentheses in front of the colon that ends a header. -/
def countDigits? : List Char → Option (List Char)
  | '(' :: rest =>
    let digits := rest.takeWhile Char.isDigit
    if !digits.isEmpty && rest.dropWhile Char.isDigit = [')', ':'] then some digits else none
  | _ => none

/-- The header of a line, which may have blanks around it. -/
def read? (line : List Char) : Option Header :=
  let line := Text.trim line
  let name := line.takeWhile isNameChar
  let rest := line.dropWhile isNameChar
  let (continuation, rest) := match rest with
    | '+' :: rest => (true, rest)
    | rest => (false, rest)
  if name.isEmpty then none
  else (countDigits? rest).map fun digits =>
    ⟨String.ofList name, naturalOf digits, continuation⟩

/-- The count that no row count reaches. -/
def countLimit : Nat := 2 ^ 64

/-- Whether a line has the rough shape of a header: it is no directive, has an
opening parenthesis and ends with `):`. -/
def looksLike (line : List Char) : Bool :=
  line.head? != some '@' && line.contains '(' && [')', ':'].isSuffixOf line

end Header
end TableNotation
