import TableNotation.Document.DecodingError
import TableNotation.Document.Encoding
import TableNotation.Query.QueryError
/-!
# Failures

Whatever goes wrong is a failure with a text that says in which activity it
happened, and with the texts of the causes behind it.
-/

namespace TableNotation

/-- Why a file cannot be read. -/
inductive FileError where
  | missing
  | isDirectory
  /-- A file stands where the path has a directory. -/
  | notADirectory
  | nameTooLong
  | denied
  | notText
  /-- Anything else, in the words of the system. -/
  | other (words : String)

/-- What is wrong, in words. -/
def FileError.message : FileError → String
  | missing => "No such file or directory (os error 2)"
  | isDirectory => "Is a directory (os error 21)"
  | notADirectory => "Not a directory (os error 20)"
  | nameTooLong => "File name too long (os error 36)"
  | denied => "Permission denied (os error 13)"
  | notText => "stream did not contain valid UTF-8"
  | other words => words

/-- Whether the error says that there is no file at the path. -/
def FileError.isAbsence : FileError → Bool
  | missing => true
  | isDirectory => true
  | notADirectory => true
  | nameTooLong => true
  | _ => false

/-- Why an operation fails. -/
inductive Failure where
  | encoding (cause : EncodingError)
  | decoding (cause : DecodingError)
  | query (cause : QueryError)
  /-- The records that answer a query cannot be found or written. -/
  | selection (cause : Failure)
  | settings (cause : SettingsError)
  | settingsFile (path : String) (cause : SettingsError)
  | file (cause : FileError)

namespace Failure

/-- What is wrong with settings, in words. -/
def settingsText (cause : SettingsError) : String := "Configuration error: " ++ cause.message

/-- The activity and what is wrong, in words. -/
def text : Failure → String
  | encoding cause => "Encoding failed: " ++ cause.message
  | decoding cause => "Decode failed: " ++ cause.message
  | query cause => "Query error: " ++ cause.message
  | selection cause => "Query error: Query encoding failed: " ++ cause.text
  | settings cause => settingsText cause
  | settingsFile path cause => "Configuration error: " ++ path ++ ": " ++ settingsText cause
  | file cause => "IO error: " ++ cause.message

/-- The texts of the causes behind a failure, the nearest one first. -/
def causes : Failure → List String
  | decoding cause => cause.cause?.toList
  | selection cause => cause.text :: cause.causes
  | file cause => [cause.message]
  | _ => []

end Failure
end TableNotation
