import TableNotation.Value.Basic
/-!
# Why a text is no document
-/

namespace TableNotation

/-- The parts of a directive that can be malformed. -/
inductive DirectivePart where
  | dictionary
  | dictionaryEntry
  | schema
  | schemaEntry
  | defaults
  | defaultsEntry
  deriving DecidableEq

/-- The words for a part of a directive. -/
def DirectivePart.name : DirectivePart → String
  | .dictionary => "dictionary"
  | .dictionaryEntry => "dictionary entry"
  | .schema => "schema"
  | .schemaEntry => "schema entry"
  | .defaults => "defaults"
  | .defaultsEntry => "defaults entry"

/-- Why a text cannot be decoded. -/
inductive DecodingError where
  /-- A line outside tables that is neither a directive nor a header. -/
  | unexpectedLine (number : Nat) (line : String)
  /-- A directive without its brackets, or an entry without a colon. -/
  | malformed (number : Nat) (part : DirectivePart) (text : String)
  /-- A kind that a schema does not know. -/
  | unknownKind (word : String)
  /-- A table with fewer rows than its header says. -/
  | missingRows (table : String) (declared found : Nat)
  /-- A row count beyond a 64-bit word. -/
  | countTooLarge
  deriving DecidableEq

namespace DecodingError

/-- What is wrong, in words. -/
def message : DecodingError → String
  | unexpectedLine number line =>
    s!"line {number}: expected a directive or table header, found '{line}'"
  | malformed number part text =>
    let name := part.name
    s!"line {number}: malformed {name} '{text}'"
  | unknownKind word => s!"unknown type tag '{word}'"
  | missingRows table declared found =>
    s!"table '{table}' declares {declared} rows but only {found} were found"
  | countTooLarge => "number too large to fit in target type"

/-- The words of the cause behind the error, if there is one. -/
def cause? : DecodingError → Option String
  | countTooLarge => some countTooLarge.message
  | _ => none

end DecodingError
end TableNotation
