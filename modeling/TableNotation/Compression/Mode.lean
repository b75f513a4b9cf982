/-!
# Compression modes

A mode names a strategy for shrinking a document.  Its name is read without
regard to the case of ASCII letters.
-/

namespace TableNotation

/-- A strategy for shrinking a document. -/
inductive Mode where
  | fast
  | balanced
  | ultra
  | adaptive
  deriving DecidableEq

namespace Mode

/-- All modes, in the order in which they are listed. -/
def all : List Mode := [.fast, .balanced, .ultra, .adaptive]

/-- The name of a mode. -/
def name : Mode → String
  | .fast => "fast"
  | .balanced => "balanced"
  | .ultra => "ultra"
  | .adaptive => "adaptive"

/-- What a mode does, in a few words. -/
def description : Mode → String
  | .fast => "Dictionary compression only"
  | .balanced => "Dictionary + selective algorithms"
  | .ultra => "All compression algorithms"
  | .adaptive => "Size-driven mode selection"

/-- The mode of a name in lower case. -/
def ofName? (name : String) : Option Mode := all.find? fun mode => mode.name = name

/-- The mode of a name, whatever the case of its ASCII letters. -/
def ofNameIgnoringCase? (name : String) : Option Mode :=
  ofName? (String.ofList (name.toList.map Char.toLower))

theorem ofName?_name (mode : Mode) : ofName? mode.name = some mode := by
  cases mode <;> rfl

end Mode
end TableNotation
