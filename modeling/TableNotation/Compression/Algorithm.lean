import TableNotation.Compression.Mode
import TableNotation.Compression.Savings
import TableNotation.Json.Printer
/-!
# Compressing a document

An algorithm turns a document into a smaller one and says what it did; a mode
chooses the algorithms.  Only the dictionary changes anything so far: the delta
and the pattern algorithm pass the document through.

* `Algorithm.compress` and `Algorithm.savings` are what an algorithm does and what
  it would save;
* `Compression.run` applies a mode.
-/

namespace TableNotation

/-- What a compression did. -/
structure CompressionRecord where
  dictionary : Option Dictionary
  deltaFields : Option (List String)
  patterns : Option (SortedMap Value)
  applied : List String

namespace CompressionRecord

/-- Nothing was done. -/
def empty : CompressionRecord := ⟨none, none, none, []⟩

/-- Both records in one, what the later one sets counting. -/
def merge (earlier later : CompressionRecord) : CompressionRecord where
  dictionary := later.dictionary.or earlier.dictionary
  deltaFields := later.deltaFields.or earlier.deltaFields
  patterns := later.patterns.or earlier.patterns
  applied := earlier.applied ++ later.applied

/-- The dictionary in force, empty if none was built. -/
def activeDictionary (r : CompressionRecord) : Dictionary := r.dictionary.getD .empty

end CompressionRecord

/-- A step of compression. -/
inductive Algorithm where
  | dictionary
  | delta
  | pattern
  deriving DecidableEq

namespace Algorithm

/-- All algorithms, in the order in which they are applied. -/
def all : List Algorithm := [.dictionary, .delta, .pattern]

/-- The name of an algorithm. -/
def name : Algorithm → String
  | .dictionary => "dictionary"
  | .delta => "delta"
  | .pattern => "pattern"

/-- The document that an algorithm makes of a document. -/
def compress (t : Thresholds) (algorithm : Algorithm) (document : Document) :
    Document × CompressionRecord :=
  match algorithm with
  | .dictionary =>
    let dictionary := Dictionary.ofDocument t document
    (dictionary.abbreviate document, { CompressionRecord.empty with
      dictionary := some dictionary
      applied := [algorithm.name] })
  | .delta =>
    (document, { CompressionRecord.empty with deltaFields := some [], applied := [algorithm.name] })
  | .pattern =>
    (document, { CompressionRecord.empty with
      patterns := some .empty
      applied := [algorithm.name] })

/-- The fraction that an algorithm would save. -/
def savings (t : Thresholds) (algorithm : Algorithm) (document : Document) : Double :=
  match algorithm with
  | .dictionary => Savings.ofDictionary t document
  | .delta => Savings.ofDeltas document
  | .pattern => .zero false

end Algorithm

namespace Compression

/-- The length of the JSON text of a document in bytes. -/
def jsonSize (document : Document) : Nat := (Json.compact (.object document)).utf8ByteSize

/-- From this size on the adaptive mode compares algorithms; below, it takes the
dictionary. -/
def comparisonSize : Nat := 10000

/-- The algorithm with the largest savings, the first of several. -/
def best (t : Thresholds) (document : Document) : Algorithm :=
  let step (found : Algorithm × Double) (algorithm : Algorithm) :=
    let savings := algorithm.savings t document
    if found.2.compare savings == .lt then (algorithm, savings) else found
  ([Algorithm.delta, .pattern].foldl step
    (.dictionary, Algorithm.dictionary.savings t document)).1

/-- The algorithms of a mode for a document. -/
def algorithms (t : Thresholds) (mode : Mode) (document : Document) : List Algorithm :=
  match mode with
  | .fast => [.dictionary]
  | .balanced => [.dictionary]
  | .ultra => Algorithm.all
  | .adaptive =>
    if jsonSize document < comparisonSize then [.dictionary] else [best t document]

/-- Applies algorithms one after the other. -/
def applyAll (t : Thresholds) (start : Document × CompressionRecord)
    (algorithms : List Algorithm) : Document × CompressionRecord :=
  algorithms.foldl (fun (document, record) algorithm =>
    let (document, later) := algorithm.compress t document
    (document, record.merge later)) start

/-- The document that a mode makes of a document. -/
def run (t : Thresholds) (mode : Mode) (document : Document) : Document × CompressionRecord :=
  applyAll t (document, .empty) (algorithms t mode document)

end Compression
end TableNotation
