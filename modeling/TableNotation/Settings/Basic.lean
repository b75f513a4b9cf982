import TableNotation.Compression.Frequent
import TableNotation.Compression.Mode
/-!
# Settings

What a user can choose about writing documents.
-/

namespace TableNotation

/-- The choices for writing documents. -/
structure Settings where
  /-- Leave out values that are defaults. -/
  optimize : Bool
  /-- The strategy for shrinking documents. -/
  mode : Mode
  /-- Mark each table as open to queries. -/
  queryable : Bool
  /-- Refuse documents with anything but lists of records. -/
  validate : Bool
  /-- The number of records in a chunk of a stream. -/
  chunkSize : Nat
  /-- What goes into the dictionary. -/
  thresholds : Thresholds
  deriving DecidableEq

namespace Settings

/-- The settings of a user who chose nothing. -/
def standard : Settings where
  optimize := true
  mode := .balanced
  queryable := false
  validate := true
  chunkSize := 100
  thresholds := .standard

end Settings

/-- Why settings cannot be used. -/
inductive SettingsError where
  /-- A word that names no mode. -/
  | unknownMode (word : String)
  /-- Chunks without records. -/
  | emptyChunks
  /-- A text that does not have the form of settings. -/
  | malformed

namespace SettingsError

/-- What is wrong, in words. -/
def message : SettingsError → String
  | unknownMode word => s!"Invalid compression mode: {word}"
  | emptyChunks => "chunk_size must be at least 1"
  | malformed => "TOML parse error"

end SettingsError

/-- Refuses settings with empty chunks. -/
def Settings.check (settings : Settings) : Except SettingsError Unit :=
  if settings.chunkSize = 0 then .error .emptyChunks else .ok ()

end TableNotation
