import TableNotation.Number.Reading
import TableNotation.Text.Hexadecimal
import TableNotation.Toml.Basic
/-!
# Strings, numbers and dates of TOML

A string stands in double quotes, where a backslash escapes, or in single quotes,
where nothing does; three quotes at each end let it go over lines.  All other
scalars are words of letters, digits and a few marks.

* `Toml.string?` reads a string in any form;
* `Toml.scalarOfWord?` is the value of a word.
-/

namespace TableNotation.Toml

/-- Whether a character may stand between words on a line. -/
def isSpace (c : Char) : Bool := c = ' ' || c = '\t'

/-- Whether a character may stand in strings and comments: no control character
but the tab. -/
def isTextChar (c : Char) : Bool := c = '\t' || (' ' ≤ c && c != '\x7f')

/-- The form of a string: its quote, and whether it may go over lines. -/
structure StringForm where
  quote : Char
  multiline : Bool

/-- The character of an escape with a number; there is none for a surrogate. -/
def scalarOfHex? (digits : List Char) : Option Char := do
  let n ← Text.hexNumber? digits
  if n.isValidChar then some (Char.ofNat n) else none

/-- The character of a one-letter escape. -/
def plainEscape? : Char → Option Char
  | 'b' => some '\x08'
  | 't' => some '\t'
  | 'n' => some '\n'
  | 'f' => some '\x0c'
  | 'r' => some '\r'
  | '"' => some '"'
  | '\\' => some '\\'
  | _ => none

/-- The character of an escape behind its backslash, and the text behind it. -/
def escape? : List Char → Option (Char × List Char)
  | 'u' :: rest =>
    if rest.length < 4 then none else (scalarOfHex? (rest.take 4)).map (·, rest.drop 4)
  | 'U' :: rest =>
    if rest.length < 8 then none else (scalarOfHex? (rest.take 8)).map (·, rest.drop 8)
  | mark :: rest => (plainEscape? mark).map (·, rest)
  | [] => none

namespace StringForm

/-- The end of a string, if the text begins with it: what the end adds to the
string, and the text behind it.  A run of up to five quotes ends a string over
lines, the first ones belonging to it. -/
def closing? (form : StringForm) (s : List Char) : Option (List Char × List Char) :=
  let quotes := s.takeWhile (· = form.quote)
  if form.multiline then
    let count := min 5 quotes.length
    if count < 3 then none else some (List.replicate (count - 3) form.quote, s.drop count)
  else if quotes.isEmpty then none else some ([], s.drop 1)

/-- The next characters of a string, and the text behind them.  A backslash at the
end of a line takes all blanks and line feeds with it. -/
def next? (form : StringForm) : List Char → Option (List Char × List Char)
  | [] => none
  | c :: rest =>
    if c = '\\' && form.quote = '"' then
      match form.multiline, rest.dropWhile isSpace with
      | true, '\n' :: after => some ([], after.dropWhile fun c => isSpace c || c = '\n')
      | _, _ => (escape? rest).map fun (c, after) => ([c], after)
    else if isTextChar c || (form.multiline && c = '\n') then some ([c], rest)
    else none

/-- The inside of a string, and the text behind its end; each step takes a
character at least, so there are no more than `limit`, the length of the text. -/
def read? (form : StringForm) : (limit : Nat) → List Char → Option (List Char × List Char)
  | 0, _ => none
  | limit + 1, s =>
    match form.closing? s with
    | some closing => some closing
    | none => do
      let (chars, rest) ← form.next? s
      let (more, after) ← form.read? limit rest
      return (chars ++ more, after)

end StringForm

/-- A string on one line behind its quote. -/
def lineString? (quote : Char) (s : List Char) : Option (String × List Char) :=
  (StringForm.read? ⟨quote, false⟩ (s.length + 1) s).map fun (chars, after) =>
    (String.ofList chars, after)

/-- A string behind its first quote.  Two more quotes begin a string over lines,
which does not hold a line feed at its very beginning. -/
def string? (quote : Char) (s : List Char) : Option (String × List Char) :=
  if [quote, quote].isPrefixOf s then
    let inside := match s.drop 2 with
      | '\n' :: rest => rest
      | rest => rest
    (StringForm.read? ⟨quote, true⟩ (inside.length + 1) inside).map fun (chars, after) =>
      (String.ofList chars, after)
  else lineString? quote s

/-- Whether a text is digits, with at most one underscore between any two. -/
def isGrouped (isDigit : Char → Bool) : List Char → Bool
  | [] => false
  | [c] => isDigit c
  | c :: '_' :: rest => isDigit c && isGrouped isDigit rest
  | c :: rest => isDigit c && isGrouped isDigit rest

/-- Digits without underscores. -/
def ungrouped (s : List Char) : List Char := s.filter (· ≠ '_')

/-- Whether a text is the whole part of a decimal number: no zero in front of
other digits. -/
def isWholePart (s : List Char) : Bool :=
  isGrouped Char.isDigit s && (s.length = 1 || s.head? != some '0')

/-- The integer of a number with or without a sign, if it fits a signed word. -/
def ofInt? (n : Int) : Option Toml :=
  if -2 ^ 63 ≤ n && n < 2 ^ 63 then some (.integer n) else none

/-- The number of digits of a base. -/
def naturalInBase? (base : Nat) (digits : List Char) : Option Nat :=
  if isGrouped (fun c => (Text.hexDigit? c).isSome) digits then
    Text.numberInBase? base (ungrouped digits)
  else none

/-- The integer of a word: decimal with an optional sign, or with a mark for the
base sixteen, eight or two. -/
def integer? : List Char → Option Toml
  | '0' :: 'x' :: digits => (naturalInBase? 16 digits).bind fun n => ofInt? n
  | '0' :: 'o' :: digits => (naturalInBase? 8 digits).bind fun n => ofInt? n
  | '0' :: 'b' :: digits => (naturalInBase? 2 digits).bind fun n => ofInt? n
  | word =>
    let (negative, digits) := splitSign word
    if isWholePart digits then
      let n := naturalOf (ungrouped digits)
      ofInt? (if negative then -(n : Int) else n)
    else none

/-- The exponent of a float. -/
def exponent? : List Char → Option Int
  | [] => some 0
  | mark :: rest =>
    let (_, digits) := splitSign rest
    if isGrouped Char.isDigit digits then Decimal.readExponent? (mark :: ungrouped rest) else none

/-- Whether a word is a float: a word for infinity or for no number, or digits with
a fraction or an exponent.  A positive number beyond the largest double is none. -/
def isFloat (word : List Char) : Bool :=
  let (negative, rest) := splitSign word
  let isDigitChar (c : Char) : Bool := c.isDigit || c = '_'
  let whole := rest.takeWhile isDigitChar
  let isBounded (fraction : List Char) (exponent : Int) : Bool :=
    negative ||
      ((Decimal.ofParts (ungrouped whole) (ungrouped fraction) exponent).toDouble? false).isSome
  if rest = ['i', 'n', 'f'] || rest = ['n', 'a', 'n'] then true
  else isWholePart whole &&
    match rest.dropWhile isDigitChar with
    | '.' :: rest =>
      let fraction := rest.takeWhile isDigitChar
      isGrouped Char.isDigit fraction &&
        (exponent? (rest.dropWhile isDigitChar)).any (isBounded fraction)
    | [] => false
    | rest => (exponent? rest).any (isBounded [])

/-- The number of a text of `count` decimal digits. -/
def fixedDigits? (count : Nat) (s : List Char) : Option Nat :=
  if s.length = count && s.all Char.isDigit then some (naturalOf s) else none

/-- The number of days of a month. -/
def daysOfMonth (year month : Nat) : Nat :=
  if month = 2 then
    if year % 4 = 0 && (year % 100 != 0 || year % 400 = 0) then 29 else 28
  else if month = 4 || month = 6 || month = 9 || month = 11 then 30
  else 31

/-- Whether a text is a date, `YYYY-MM-DD`. -/
def isDate : List Char → Bool
  | [y, e, a, r, '-', m, n, '-', d, f] =>
    match fixedDigits? 4 [y, e, a, r], fixedDigits? 2 [m, n], fixedDigits? 2 [d, f] with
    | some year, some month, some day =>
      1 ≤ month && month ≤ 12 && 1 ≤ day && day ≤ daysOfMonth year month
    | _, _, _ => false
  | _ => false

/-- Whether a text is hours and minutes, `hh:mm`. -/
def isClock : List Char → Bool
  | [h, g, ':', m, n] =>
    (fixedDigits? 2 [h, g]).any (· ≤ 23) && (fixedDigits? 2 [m, n]).any (· ≤ 59)
  | _ => false

/-- Whether a text is a time, `hh:mm:ss` and perhaps a fraction, and the text
behind it. -/
def time? (s : List Char) : Option (List Char) :=
  match s.drop 5 with
  | ':' :: a :: b :: rest =>
    if isClock (s.take 5) && (fixedDigits? 2 [a, b]).any (· ≤ 60) then
      match rest with
      | '.' :: digits =>
        if (digits.takeWhile Char.isDigit).isEmpty then none
        else some (digits.dropWhile Char.isDigit)
      | _ => some rest
    else none
  | _ => none

/-- Whether a text is a time and perhaps its distance from universal time. -/
def isOffsetTime (s : List Char) : Bool :=
  match time? s with
  | some [] => true
  | some ['Z'] => true
  | some ['z'] => true
  | some ('+' :: distance) => isClock distance
  | some ('-' :: distance) => isClock distance
  | _ => false

/-- Whether a word is a time, a date, or both with a `T` between. -/
def isMoment (word : List Char) : Bool :=
  time? word = some [] || isDate word ||
    (isDate (word.take 10) && match word.drop 10 with
      | mark :: time => (mark = 'T' || mark = 't') && isOffsetTime time
      | [] => false)

/-- Whether a character may stand in a word. -/
def isWordChar (c : Char) : Bool :=
  c.isAlphanum || c = '_' || c = '+' || c = '-' || c = '.' || c = ':'

/-- The value of a word. -/
def scalarOfWord? (word : List Char) : Option Toml :=
  if word = "true".toList then some (.boolean true)
  else if word = "false".toList then some (.boolean false)
  else if isMoment word then some .moment
  else if isFloat word then some .float
  else integer? word

end TableNotation.Toml
