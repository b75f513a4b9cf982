import TableNotation.CommandLine.Answer
/-!
# The program

Reads arguments, files and the environment, and prints the outcome of the call.
-/

namespace TableNotation.CommandLine

/-- Why the system refuses to read a file. The number of an error comes with either
sign. -/
def fileErrorOf : IO.Error → FileError
  | .noFileOrDirectory .. => .missing
  | .permissionDenied .. => .denied
  | .inappropriateType _ code _ => if code = 20 || code = -20 then .notADirectory else .isDirectory
  | error@(.invalidArgument _ code _) =>
    if code = 36 || code = -36 then .nameTooLong else .other error.toString
  | error => .other error.toString

/-- The text of bytes. -/
def textOf (bytes : ByteArray) : Except FileError String :=
  match String.fromUTF8? bytes with
  | some text => .ok text
  | none => .error .notText

/-- The text of a file. -/
def readText (path : String) : IO (Except FileError String) := do
  try return textOf (← IO.FS.readBinFile path) catch error => return .error (fileErrorOf error)

/-- The surroundings of the running program. -/
def systemHost : Host IO where
  variableValue name := IO.getEnv name
  fileText := readText
  inputText := do
    try return textOf (← (← IO.getStdin).readBinToEnd)
    catch error => return .error (fileErrorOf error)

end TableNotation.CommandLine

/-- Runs the program. -/
def main (arguments : List String) : IO UInt32 := do
  let outcome ← TableNotation.CommandLine.call TableNotation.CommandLine.systemHost arguments
  (← IO.getStdout).putStr outcome.output
  (← IO.getStderr).putStr outcome.errors
  return outcome.code.toUInt32
