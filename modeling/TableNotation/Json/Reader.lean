import TableNotation.Number.Reading
import TableNotation.Text.Hexadecimal
import TableNotation.Value.Basic
/-!
# Reading JSON text

Reading goes in two steps: the text is cut into lexemes, and the lexemes are
taken one by one with the open lists and objects on a stack.

* `Json.read?` reads one value; lists and objects may be nested to a given
  depth, and of two fields of one name the first place and the last value stay.
* A number without point and exponent is an integer if it fits a word; all
  others, and `-0`, are doubles, and a number beyond the largest double is
  refused.
-/

namespace TableNotation.Json

/-- Whether a code unit is the first half of a surrogate pair. -/
def isHighSurrogate (n : Nat) : Bool := 0xD800 ≤ n && n < 0xDC00

/-- Whether a code unit is the second half of a surrogate pair. -/
def isLowSurrogate (n : Nat) : Bool := 0xDC00 ≤ n && n < 0xE000

/-- The character of a one-letter escape. -/
def plainEscape? : Char → Option Char
  | '"' => some '"'
  | '\\' => some '\\'
  | '/' => some '/'
  | 'b' => some '\x08'
  | 'f' => some '\x0c'
  | 'n' => some '\n'
  | 'r' => some '\r'
  | 't' => some '\t'
  | _ => none

/-- The inside of a string behind its opening quote, and the text behind its
closing quote. -/
def readString? : List Char → Option (List Char × List Char)
  | [] => none
  | '"' :: rest => some ([], rest)
  | '\\' :: 'u' :: a :: b :: c :: d :: rest => do
    let unit ← Text.hexNumber? [a, b, c, d]
    if isLowSurrogate unit then none
    else if isHighSurrogate unit then
      match rest with
      | '\\' :: 'u' :: a :: b :: c :: d :: rest => do
        let low ← Text.hexNumber? [a, b, c, d]
        if isLowSurrogate low then do
          let (s, after) ← readString? rest
          return (Char.ofNat (0x10000 + (unit - 0xD800) * 0x400 + (low - 0xDC00)) :: s, after)
        else none
      | _ => none
    else do
      let (s, after) ← readString? rest
      return (Char.ofNat unit :: s, after)
  | '\\' :: mark :: rest => do
    let c ← plainEscape? mark
    let (s, after) ← readString? rest
    return (c :: s, after)
  | c :: rest =>
    if c.toNat < 0x20 || c = '\\' then none
    else do
      let (s, after) ← readString? rest
      return (c :: s, after)

/-- Whether digits are the whole part of a number: at least one, and no zero in
front of others. -/
def isWholePart : List Char → Bool
  | [] => false
  | ['0'] => true
  | c :: rest => c.isDigit && c != '0' && rest.all Char.isDigit

/-- The number of a text that stands between two other lexemes. -/
def number? (s : List Char) : Option Number :=
  let (negative, rest) := match s with
    | '-' :: rest => (true, rest)
    | rest => (false, rest)
  let whole := rest.takeWhile Char.isDigit
  if !isWholePart whole then none
  else match rest.dropWhile Char.isDigit with
    | [] =>
      let n : Int := if negative then -(naturalOf whole : Int) else naturalOf whole
      match if negative && n == 0 then none else Number.ofInt? n with
      | some number => some number
      | none => Number.float <$> (Decimal.ofParts whole [] 0).toDouble? negative
    | '.' :: rest =>
      let fraction := rest.takeWhile Char.isDigit
      if fraction.isEmpty then none
      else do
        let exponent ← Decimal.readExponent? (rest.dropWhile Char.isDigit)
        Number.float <$> (Decimal.ofParts whole fraction exponent).toDouble? negative
    | mark => do
      let exponent ← Decimal.readExponent? mark
      Number.float <$> (Decimal.ofParts whole [] exponent).toDouble? negative

/-- The smallest meaningful pieces of a JSON text. -/
inductive Lexeme where
  | scalar (value : Value)
  | openList
  | closeList
  | openObject
  | closeObject
  | comma
  | colon

/-- The mark of a single character. -/
def mark? : Char → Option Lexeme
  | '[' => some .openList
  | ']' => some .closeList
  | '\x7b' => some .openObject
  | '\x7d' => some .closeObject
  | ',' => some .comma
  | ':' => some .colon
  | _ => none

/-- The value of a word. -/
def word? (s : List Char) : Option Value :=
  if s = ['n', 'u', 'l', 'l'] then some .null
  else if s = ['t', 'r', 'u', 'e'] then some (.bool true)
  else if s = ['f', 'a', 'l', 's', 'e'] then some (.bool false)
  else none

/-- Whether a character may stand between lexemes. -/
def isSpace (c : Char) : Bool := c = ' ' || c = '\n' || c = '\r' || c = '\t'

/-- Whether a character may stand in a number. -/
def isNumberChar (c : Char) : Bool :=
  c.isDigit || c = '-' || c = '+' || c = '.' || c = 'e' || c = 'E'

/-- The first lexeme of a text that begins with `c`, and the text behind it. -/
def lexeme? (c : Char) (rest : List Char) : Option (Lexeme × List Char) :=
  match mark? c with
  | some mark => some (mark, rest)
  | none =>
    if c = '"' then do
      let (s, after) ← readString? rest
      return (.scalar (.string (String.ofList s)), after)
    else if c.isDigit || c = '-' then do
      let n ← number? (c :: rest.takeWhile isNumberChar)
      return (.scalar (.number n), rest.dropWhile isNumberChar)
    else do
      let v ← word? (c :: rest.takeWhile Char.isAlpha)
      return (.scalar v, rest.dropWhile Char.isAlpha)

/-- The lexemes of a text; each takes a character at least, so there are no more
than `limit`, its length. -/
def lexemes? : (limit : Nat) → List Char → Option (List Lexeme)
  | _, [] => some []
  | 0, _ :: _ => none
  | limit + 1, c :: rest =>
    if isSpace c then lexemes? limit rest
    else do
      let (first, after) ← lexeme? c rest
      let more ← lexemes? limit after
      return first :: more

/-- A list or an object that is not closed yet: the items so far, last first, or
the fields so far and the name of the field that is being read. -/
inductive Frame where
  | items (done : List Value)
  | fields (done : Fields) (key : String)

/-- What may come next. -/
inductive Phase where
  | value
  | valueOrEnd
  | key
  | keyOrEnd
  | colon
  | commaOrEnd

/-- How far the reading of a value is. -/
inductive Progress where
  | reading (frames : List Frame) (phase : Phase)
  | finished (value : Value)

/-- Puts a finished value where it belongs. -/
def Progress.put (value : Value) : List Frame → Progress
  | [] => .finished value
  | .items done :: frames => .reading (.items (value :: done) :: frames) .commaOrEnd
  | .fields done key :: frames =>
    .reading (.fields (Fields.insert key value done) key :: frames) .commaOrEnd

/-- Takes one lexeme; at most `depth` lists and objects may be open. -/
def Progress.take? (depth : Nat) : Progress → Lexeme → Option Progress
  | .reading frames .value, .scalar v => some (put v frames)
  | .reading frames .valueOrEnd, .scalar v => some (put v frames)
  | .reading frames .value, .openList => openList frames
  | .reading frames .valueOrEnd, .openList => openList frames
  | .reading frames .value, .openObject => openObject frames
  | .reading frames .valueOrEnd, .openObject => openObject frames
  | .reading (.items done :: frames) .valueOrEnd, .closeList =>
    some (put (.array done.reverse) frames)
  | .reading (.items done :: frames) .commaOrEnd, .closeList =>
    some (put (.array done.reverse) frames)
  | .reading (.items done :: frames) .commaOrEnd, .comma =>
    some (.reading (.items done :: frames) .value)
  | .reading (.fields done _ :: frames) .key, .scalar (.string key) =>
    some (.reading (.fields done key :: frames) .colon)
  | .reading (.fields done _ :: frames) .keyOrEnd, .scalar (.string key) =>
    some (.reading (.fields done key :: frames) .colon)
  | .reading frames .colon, .colon => some (.reading frames .value)
  | .reading (.fields done _ :: frames) .keyOrEnd, .closeObject =>
    some (put (.object done) frames)
  | .reading (.fields done _ :: frames) .commaOrEnd, .closeObject =>
    some (put (.object done) frames)
  | .reading (.fields done key :: frames) .commaOrEnd, .comma =>
    some (.reading (.fields done key :: frames) .key)
  | _, _ => none
where
  openList (frames : List Frame) : Option Progress :=
    if frames.length < depth then some (.reading (.items [] :: frames) .valueOrEnd) else none
  openObject (frames : List Frame) : Option Progress :=
    if frames.length < depth then some (.reading (.fields [] "" :: frames) .keyOrEnd) else none

/-- The value of a JSON text in which at most `depth` lists and objects are
nested. -/
def read? (depth : Nat) (text : String) : Option Value := do
  let lexemes ← lexemes? text.length text.toList
  match ← lexemes.foldlM (Progress.take? depth) (.reading [] .value) with
  | .finished value => some value
  | .reading .. => none

/-- The depth to which documents may be nested. -/
def documentDepth : Nat := 127

end TableNotation.Json
