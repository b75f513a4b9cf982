import TableNotation.CommandLine.Command
import TableNotation.CommandLine.Report
import TableNotation.Document.Decoding
import TableNotation.Failure
import TableNotation.Json.Reader
import TableNotation.Query.Selection
import TableNotation.Settings.Reader
/-!
# Answers to commands

A call of the program has an `Outcome`: what it writes to the standard output and
to the error output, and its exit code.

* `Command.answer` is what a command writes, given the text of its input;
* `call` is a whole call, with the reading of files left to a `Host`.
-/

namespace TableNotation.CommandLine

/-- Why a command fails. -/
inductive CommandError where
  | failure (cause : Failure)
  | unreadable (path : String) (cause : FileError)
  | unreadableInput (cause : FileError)
  | notJson
  | notTables

/-- The texts of an error and of its causes. -/
def CommandError.texts : CommandError → List String
  | failure cause => cause.text :: cause.causes
  | unreadable path cause => ["Failed to read " ++ path, cause.message]
  | unreadableInput cause => [cause.message]
  | notJson => ["Input is not valid JSON", "malformed text"]
  | notTables => ["Data must be a dictionary of tables"]

/-- What a command writes, and the error with which it ends, if any. -/
structure Answer where
  output : List String
  notes : List String
  error : Option CommandError

namespace Answer

/-- An answer without an error. -/
def done (output : List String) : Answer := ⟨output, [], none⟩

/-- An answer that is nothing but an error. -/
def failed (error : CommandError) : Answer := ⟨[], [], some error⟩

/-- The answer of a computation. -/
def of {α : Type} (answer : α → Answer) : Except CommandError α → Answer
  | .ok a => answer a
  | .error error => failed error

end Answer

/-- The document of a JSON text. -/
def readDocument (text : String) : Except CommandError Document :=
  match Json.read? Json.documentDepth text with
  | some (.object document) => .ok document
  | some _ => .error .notTables
  | none => .error .notJson

/-- The document of a text that is written line by line. -/
def readTables (text : String) : Except CommandError Document :=
  (decode text).mapError fun cause => .failure (.decoding cause)

/-- The document of a text in either form; what is not a JSON object is read line by
line. -/
def readAny (text : String) : Except CommandError Document :=
  match Json.read? Json.documentDepth text with
  | some (.object document) => .ok document
  | _ => readTables text

/-- The settings of a user with the choices of one call. -/
def EncodeChoices.applyTo (choices : EncodeChoices) (settings : Settings) : Settings :=
  { settings with
    mode := choices.mode.getD settings.mode
    optimize := settings.optimize && !choices.noOptimize
    queryable := settings.queryable || choices.queryable }

/-- Writes a document. -/
def answerEncode (settings : Settings) (choices : EncodeChoices) (document : Document) : Answer :=
  match choices.query with
  | some text =>
    Answer.of (fun text => .done [text])
      ((encodeSelection settings document text).mapError .failure)
  | none =>
    Answer.of (fun (text, statistics) =>
        ⟨[text], if choices.statistics then Report.statistics statistics else [], none⟩)
      ((encodeWithStatistics settings document).mapError fun cause => .failure (.encoding cause))

/-- Runs a query. -/
def answerQuery (text : String) (document : Document) : Answer :=
  Answer.of (fun records => .done (Report.table records)) <|
    (do let q ← Query.parse text
        q.execute document : Except QueryError _).mapError fun cause => .failure (.query cause)

/-- Writes a table in chunks. -/
def answerStream (settings : Settings) (table : Option String) (chunkSize : Nat)
    (document : Document) : Answer :=
  if h : 0 < chunkSize then
    Answer.of (fun stream =>
        ⟨stream.rest.map fun c => String.ofList c.data, stream.rest.map Report.chunk, none⟩)
      ((ChunkStream.ofDocument settings.optimize chunkSize h document table).mapError
        fun cause => .failure (.encoding cause))
  else .failed (.failure (.settings .emptyChunks))

/-- Shows the parts of a query. -/
def answerExplain (text : String) : Answer :=
  let heading := Report.queryHeading text
  match Query.parse text with
  | .ok q => .done (heading ++ Report.query q)
  | .error cause => ⟨heading, [], some (.failure (.query cause))⟩

namespace Command

/-- Where the input of a command is, if it has one: the path of a file, or none for
the standard input. -/
def input? : Command → Option (Option String)
  | encode input _ => some input
  | decode input => some input
  | query input _ => some (some input)
  | stream input _ _ => some input
  | explain _ => none
  | modes => none

/-- The answer of a command, given the text of its input. -/
def answer (settings : Settings) (input : Except CommandError String) : Command → Answer
  | encode _ choices =>
    .of (answerEncode (choices.applyTo settings) choices) (input.bind readDocument)
  | decode _ =>
    .of (fun document => .done [Json.pretty (.object document)]) (input.bind readTables)
  | query _ text => .of (answerQuery text) (input.bind readAny)
  | stream _ table chunkSize =>
    .of (answerStream settings table (chunkSize.getD settings.chunkSize))
      (input.bind readDocument)
  | explain text => answerExplain text
  | modes => .done Report.modes

end Command

/-- What a call of the program writes, and its exit code. -/
structure Outcome where
  code : Nat
  output : String
  errors : String

/-- Lines, each with its line feed. -/
def withLineFeeds (lines : List String) : String :=
  String.join (lines.map fun line => line ++ "\n")

/-- The outcome of an answer. -/
def Answer.outcome (answer : Answer) : Outcome :=
  let failure := answer.error.map fun error => "Error: " ++ ": ".intercalate error.texts
  { code := if failure.isSome then 1 else 0
    output := withLineFeeds answer.output
    errors := withLineFeeds (answer.notes ++ failure.toList) }

/-- How the program is called. -/
def usage : List String :=
  ["Adaptive Token-Oriented Notation encoder, decoder and query tool", "",
   "Usage: aton [OPTIONS] <COMMAND>", "", "Commands:"]
    ++ CommandName.all.map fun name => "  " ++ Report.padded 8 name.word ++ " " ++ name.description

/-- The outcome of a call that names nothing to be done. -/
def Stop.outcome : Stop → Outcome
  | help => ⟨0, withLineFeeds usage, ""⟩
  | version => ⟨0, withLineFeeds ["aton 2.0.0"], ""⟩
  | misuse => ⟨2, "", withLineFeeds usage⟩

/-- The path of a name in a directory. -/
def pathIn (directory name : String) : String :=
  if directory.endsWith "/" then directory ++ name else directory ++ "/" ++ name

/-- The directory of a user's settings: the one that the environment names, which
counts only if its path is absolute, or else the usual one in the home directory. -/
def settingsDirectory? (named home : Option String) : Option String :=
  (named.filter fun directory => directory.startsWith "/").or
    ((home.filter isPath).map fun directory => pathIn directory ".config")

/-- What the program needs from its surroundings. -/
structure Host (m : Type → Type) where
  /-- The value of a variable of the environment. -/
  variableValue : String → m (Option String)
  /-- The text of a file. -/
  fileText : String → m (Except FileError String)
  /-- The text of the standard input. -/
  inputText : m (Except FileError String)

namespace Host

variable {m : Type → Type} [Monad m]

/-- The settings of a file. -/
def settingsOf (host : Host m) (path : String) : m (Except Failure Settings) := do
  match ← host.fileText path with
  | .error cause => return .error (.file cause)
  | .ok text =>
    return do
      let settings ← (Settings.parse text).mapError (Failure.settingsFile path)
      (settings.check).mapError Failure.settings
      return settings

/-- The file of settings that the environment names. -/
def namedSettings (host : Host m) : m (Option String) := host.variableValue "ATON_CONFIG"

/-- The file of settings of the user, if there is one. -/
def userSettings (host : Host m) : m (Option String) := do
  let named ← host.variableValue "XDG_CONFIG_HOME"
  let home ← host.variableValue "HOME"
  match settingsDirectory? named home with
  | none => return none
  | some directory =>
    let path := pathIn directory "aton/config.toml"
    match ← host.fileText path with
    | .error cause => return if cause.isAbsence then none else some path
    | .ok _ => return some path

/-- The settings for a call: those of the named file, or of the user's file, or the
standard ones. -/
def settings (host : Host m) (path : Option String) : m (Except Failure Settings) := do
  let user ← host.userSettings
  match path.or user with
  | some path => host.settingsOf path
  | none => return .ok .standard

/-- The text of the input of a command. -/
def inputOf (host : Host m) (command : Command) : m (Except CommandError String) := do
  match command.input? with
  | none => return .ok ""
  | some none => return (← host.inputText).mapError .unreadableInput
  | some (some path) => return (← host.fileText path).mapError (.unreadable path)

end Host

/-- A call of the program with arguments. -/
def call {m : Type → Type} [Monad m] (host : Host m) (arguments : List String) : m Outcome := do
  match Invocation.ofArguments (← host.namedSettings) arguments with
  | .error stop => return stop.outcome
  | .ok invocation =>
    match ← host.settings invocation.settingsPath with
    | .error cause => return (Answer.failed (.failure cause)).outcome
    | .ok settings =>
      let input ← host.inputOf invocation.command
      return (invocation.command.answer settings input).outcome

end TableNotation.CommandLine
