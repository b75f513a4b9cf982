import TableNotation.SortedMap
import TableNotation.Value.Strings
/-!
# Dictionaries

A dictionary gives each reference, a short text such as `#0`, the literal that
it stands for.

* `Dictionary.resolve` replaces the references in a value by their literals.
-/

namespace TableNotation

/-- References and their literals, in the order of the references. -/
abbrev Dictionary := SortedMap String

namespace Dictionary

/-- The literal of a reference; any other text stands for itself. -/
def resolveString (dictionary : Dictionary) (s : String) : String :=
  (dictionary.get? s).getD s

/-- The value with each reference in it replaced by its literal. -/
def resolve (dictionary : Dictionary) (v : Value) : Value :=
  v.mapStrings dictionary.resolveString

/-- The reference with a number. -/
def reference (n : Nat) : String := String.ofList ('#' :: Decimal.digitsOf n)

end Dictionary
end TableNotation
