import TableNotation.Dictionary
/-!
# The dictionary of a document

A text goes into the dictionary of a document if it is long enough, occurs often
enough among the leaves of the document, and does not begin with `#`.  The
texts get the references `#0`, `#1`, … in the order of their first occurrence;
a reference that is itself a leaf of the document is passed over.

* `Dictionary.ofDocument` is the dictionary, and `Dictionary.abbreviate` puts the
  references in place of the texts.
-/

namespace TableNotation

/-- How long and how frequent a text has to be for the dictionary. -/
structure Thresholds where
  minLength : Nat
  minOccurrences : Nat
  deriving DecidableEq

namespace Thresholds

/-- Five characters, three times. -/
def standard : Thresholds := ⟨5, 3⟩

/-- Whether a text that occurs `count` times is long and frequent enough. -/
def admits (t : Thresholds) (s : String) (count : Nat) : Bool :=
  t.minLength ≤ s.length && t.minOccurrences ≤ count

end Thresholds

/-- The leaves of a document, in order. -/
def Document.strings (document : Document) : List String := Value.fieldStrings document

namespace Dictionary

/-- Whether a text begins like a reference. -/
def isMarked (s : String) : Bool := s.toList.head? = some '#'

/-- The texts of a dictionary for given leaves, in the order of their first
occurrence. -/
def frequent (t : Thresholds) (strings : List String) : List String :=
  strings.eraseDups.filter fun s => t.admits s (strings.count s) && !isMarked s

/-- The first `count` references that are not among the leaves.  Of the numbers
below `count` and the number of marked leaves together, at least `count` are
free. -/
def references (count : Nat) (strings : List String) : List String :=
  let taken := strings.filter isMarked
  (((List.range (count + taken.length)).map reference).filter fun r => !taken.contains r).take count

/-- References and texts for given leaves. -/
def pairs (t : Thresholds) (strings : List String) : List (String × String) :=
  let texts := frequent t strings
  (references texts.length strings).zip texts

/-- The dictionary of a document. -/
def ofDocument (t : Thresholds) (document : Document) : Dictionary :=
  SortedMap.ofList (pairs t document.strings)

/-- The reference of a text; a text without one stands for itself. -/
def abbreviateString (dictionary : Dictionary) (s : String) : String :=
  match dictionary.entries.find? fun e => e.2 = s with
  | some e => e.1
  | none => s

/-- The document with references in place of the texts of a dictionary. -/
def abbreviate (dictionary : Dictionary) (document : Document) : Document :=
  Value.mapFields dictionary.abbreviateString document

end Dictionary
end TableNotation
