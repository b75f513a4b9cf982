import TableNotation.Toml.Scalar
/-!
# Reading TOML

A document is read line by line: a header opens a table, and a key with a value
adds to the table that is open.

* `Toml.read?` gives the entries of a document.
-/

namespace TableNotation.Toml

/-- The number of values that may be nested, and of names in a dotted key. -/
def depthLimit : Nat := 79

/-- Whether a character may stand in a name without quotes. -/
def isBareChar (c : Char) : Bool := c.isAlphanum || c = '_' || c = '-'

/-- The text behind blanks. -/
def skipSpace (s : List Char) : List Char := s.dropWhile isSpace

/-- A name of a key, and the text behind it. -/
def name? : List Char → Option (String × List Char)
  | '"' :: rest => lineString? '"' rest
  | '\'' :: rest => lineString? '\'' rest
  | s =>
    let bare := s.takeWhile isBareChar
    if bare.isEmpty then none else some (String.ofList bare, s.dropWhile isBareChar)

/-- The names of a dotted key, `limit` of them at most, and the text behind
them. -/
def names? : (limit : Nat) → List Char → Option (List String × List Char)
  | 0, _ => none
  | limit + 1, s => do
    let (first, after) ← name? s
    match skipSpace after with
    | '.' :: rest => do
      let (names, after) ← names? limit (skipSpace rest)
      return (first :: names, after)
    | after => return ([first], after)

/-- A dotted key: the names in front of the last one, the last one, and the text
behind them. -/
def key? (s : List Char) : Option (List String × String × List Char) := do
  let (names, after) ← names? depthLimit s
  let last ← names.getLast?
  return (names.dropLast, last, after)

/-- The text behind a comment, if the text begins with one: a line feed, or
nothing. -/
def skipComment? : List Char → Option (List Char)
  | '#' :: rest =>
    if (rest.takeWhile (· ≠ '\n')).all isTextChar then some (rest.dropWhile (· ≠ '\n')) else none
  | s => some s

/-- The text behind blanks, comments and line feeds, of which there are no more than
`limit`, the length of the text. -/
def skipFiller? : (limit : Nat) → List Char → Option (List Char)
  | 0, s => some s
  | limit + 1, s => do
    match ← skipComment? (skipSpace s) with
    | '\n' :: rest => skipFiller? limit rest
    | rest => return rest

/-- The items of an array behind its bracket, no more than `limit`, each read by
`item`, and the text behind the closing bracket. -/
def items? (item : List Char → Option (Toml × List Char)) :
    (limit : Nat) → List Char → Option (List Toml × List Char)
  | 0, _ => none
  | limit + 1, s => do
    match ← skipFiller? s.length s with
    | ']' :: rest => return ([], rest)
    | s => do
      let (first, after) ← item s
      match ← skipFiller? after.length after with
      | ']' :: rest => return ([first], rest)
      | ',' :: rest => do
        let (items, after) ← items? item limit rest
        return (first :: items, after)
      | _ => none

/-- A key, an equals sign and a value read by `value`, and the text behind
them. -/
def assignment? (value : List Char → Option (Toml × List Char)) (s : List Char) :
    Option (List String × String × Toml × List Char) := do
  let (path, key, after) ← key? s
  match after with
  | '=' :: rest => do
    let (value, after) ← value (skipSpace rest)
    return (path, key, value, after)
  | _ => none

/-- The entries of a table in braces that are not read yet, no more than `limit`,
added to those before them, and the text behind the closing brace. -/
def braced? (value : List Char → Option (Toml × List Char)) :
    (limit : Nat) → Entries → List Char → Option (Entries × List Char)
  | 0, _, _ => none
  | limit + 1, entries, s => do
    let (path, key, v, after) ← assignment? value (skipSpace s)
    let entries ← define path key v .header entries
    match skipSpace after with
    | '\x7d' :: rest => return (entries, rest)
    | ',' :: rest => braced? value limit entries rest
    | _ => none

/-- A scalar, and the text behind it.  A blank may stand between a date and a
time. -/
def scalar? : List Char → Option (Toml × List Char)
  | '"' :: rest => (string? '"' rest).map fun (s, after) => (.string s, after)
  | '\'' :: rest => (string? '\'' rest).map fun (s, after) => (.string s, after)
  | s =>
    let word := s.takeWhile isWordChar
    let after := s.dropWhile isWordChar
    let time := (after.drop 1).takeWhile isWordChar
    if isDate word && after.head? = some ' ' && isOffsetTime time then
      some (.moment, after.drop (1 + time.length))
    else (scalarOfWord? word).map (·, after)

/-- A value in which at most `depth` others are nested, and the text behind it. -/
def value? : (depth : Nat) → List Char → Option (Toml × List Char)
  | depth + 1, '[' :: rest => do
    let (items, after) ← items? (value? depth) (rest.length + 1) rest
    return (.array items, after)
  | depth + 1, '\x7b' :: rest =>
    match skipSpace rest with
    | '\x7d' :: after => some (.table .closed [], after)
    | s => do
      let (entries, after) ← braced? (value? depth) (s.length + 1) [] s
      return (.table .closed entries, after)
  | _, s => scalar? s

/-- A document of which some lines are read: its entries, and the path of the table
that is open. -/
structure Draft where
  entries : Entries
  table : List String

/-- Takes the part of a line in front of a comment, and gives the text behind
it. -/
def Draft.take? (draft : Draft) : List Char → Option (Draft × List Char)
  | '[' :: '[' :: rest => do
    let (path, key, after) ← key? (skipSpace rest)
    match after with
    | ']' :: ']' :: after => do
      let entries ← appendTable path key draft.entries
      return (⟨entries, path ++ [key]⟩, after)
    | _ => none
  | '[' :: rest => do
    let (path, key, after) ← key? (skipSpace rest)
    match after with
    | ']' :: after => do
      let entries ← defineTable path key draft.entries
      return (⟨entries, path ++ [key]⟩, after)
    | _ => none
  | s => do
    let (path, key, value, after) ← assignment? (value? depthLimit) s
    let entries ← defineIn draft.table path key value draft.entries
    return ({ draft with entries }, after)

/-- The entries of a document whose lines, no more than `limit`, are not all
read. -/
def Draft.finish? : (limit : Nat) → Draft → List Char → Option Entries
  | 0, _, _ => none
  | limit + 1, draft, s => do
    let s := skipSpace s
    let (draft, after) ←
      if s.isEmpty || s.head? = some '\n' || s.head? = some '#' then some (draft, s)
      else draft.take? s
    match ← skipComment? (skipSpace after) with
    | [] => return draft.entries
    | '\n' :: rest => finish? limit draft rest
    | _ => none

/-- A text with a line feed in place of a carriage return and a line feed. -/
def withLineFeeds : List Char → List Char
  | '\r' :: '\n' :: rest => '\n' :: withLineFeeds rest
  | c :: rest => c :: withLineFeeds rest
  | [] => []

/-- The entries of a TOML text, which may begin with a byte order mark. -/
def read? (text : String) : Option Entries :=
  let chars := match text.toList with
    | '\ufeff' :: rest => rest
    | chars => chars
  Draft.finish? (chars.length + 1) ⟨[], []⟩ (withLineFeeds chars)

end TableNotation.Toml
