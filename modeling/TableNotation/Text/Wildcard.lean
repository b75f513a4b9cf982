import TableNotation.Text.CaseFold
/-!
# Wildcard patterns

In a pattern `%` stands for any run of characters on one line, `_` for any one
character on a line, and every other character for itself, whatever its case.  A
pattern is found in a text when some piece of the text matches it.

* `PatternLimit` says which patterns are too large to be searched for;
* `Wildcard.Matches` says what matches a pattern;
* `Wildcard.isFound` decides whether a pattern is found, by a table with a row
  for each end of the text and an entry for each end of the pattern; its time is
  the product of their lengths.
-/

namespace TableNotation

/-- A limit on patterns: one that would take too much room is refused, in words of its own.
Whatever reads patterns works with any limit. -/
class PatternLimit where
  /-- Why a pattern is refused, if it is. -/
  refusal? : List Char → Option String

/-- The standard limit, 10485760 bytes, as far as the wildcard `_` tells: it takes more than 160
bytes, for it stands for all characters but one, so that more than 65536 of them are beyond the
limit. -/
instance PatternLimit.standard : PatternLimit where
  refusal? pattern :=
    if pattern.count '_' ≤ 65536 then none
    else some "Compiled regex exceeds size limit of 10485760 bytes."

/-- One item of a pattern. -/
inductive Wildcard where
  /-- Any characters but line feeds. -/
  | run
  /-- Any one character but a line feed. -/
  | one
  /-- The characters of one case folding. -/
  | folded (c : Char)
  deriving DecidableEq

namespace Wildcard

/-- The item of a character of a pattern. -/
def ofChar (c : Char) : Wildcard :=
  if c = '%' then .run else if c = '_' then .one else .folded (foldCase c)

/-- The items of a pattern. -/
def ofPattern (pattern : List Char) : List Wildcard := pattern.map ofChar

/-- `Matches pattern text`: the whole of the text matches the pattern. -/
inductive Matches : List Wildcard → List Char → Prop where
  | nil : Matches [] []
  | runEnd {p : List Wildcard} {s : List Char} : Matches p s → Matches (.run :: p) s
  | runMore {p : List Wildcard} {c : Char} {s : List Char} :
      c ≠ '\n' → Matches (.run :: p) s → Matches (.run :: p) (c :: s)
  | one {p : List Wildcard} {c : Char} {s : List Char} :
      c ≠ '\n' → Matches p s → Matches (.one :: p) (c :: s)
  | folded {p : List Wildcard} {c : Char} {s : List Char} :
      Matches p s → Matches (.folded (foldCase c) :: p) (c :: s)

/-- Which ends of a pattern, the whole pattern first, match a beginning of the
empty text. -/
def emptyRow : List Wildcard → List Bool
  | [] => [true]
  | w :: p =>
    let rest := emptyRow p
    (w = .run && rest.headD false) :: rest

/-- Which ends of a pattern match a beginning of a text with first character `c`,
given its folding and the row of the text behind it. -/
def nextRow (c folding : Char) : List Wildcard → List Bool → List Bool
  | [], _ => [true]
  | w :: p, row =>
    let rest := nextRow c folding p row.tail
    let behind := row.tail.headD false
    let entry := match w with
      | .run => rest.headD false || (c != '\n' && row.headD false)
      | .one => c != '\n' && behind
      | .folded x => folding == x && behind
    entry :: rest

/-- The row of a text, and whether the pattern is found in the text. -/
def search (pattern : List Wildcard) : List Char → List Bool × Bool
  | [] =>
    let row := emptyRow pattern
    (row, row.headD false)
  | c :: s =>
    let (row, found) := search pattern s
    let row := nextRow c (foldCase c) pattern row
    (row, found || row.headD false)

/-- Whether some piece of a text matches a pattern. -/
def isFound (pattern : List Wildcard) (text : List Char) : Bool := (search pattern text).2

end Wildcard
end TableNotation
