import TableNotation.CommandLine.Options
import TableNotation.Compression.Mode
import TableNotation.Number.Reading
/-!
# Commands

What a user can ask for on the command line.

* `Invocation.ofArguments` is what the arguments ask for.  The file of settings can
  be named by an option, in front of the command or behind it, or by a variable of
  the environment, which counts less.
-/

namespace TableNotation.CommandLine

/-- The choices for writing a document. -/
structure EncodeChoices where
  mode : Option Mode
  noOptimize : Bool
  queryable : Bool
  /-- Write the records that answer a query only. -/
  query : Option String
  statistics : Bool

/-- A command; an input without a path is the standard input. -/
inductive Command where
  | encode (input : Option String) (choices : EncodeChoices)
  | decode (input : Option String)
  | query (input : String) (text : String)
  | stream (input : Option String) (table : Option String) (chunkSize : Option Nat)
  | explain (text : String)
  | modes

/-- The names of the commands. -/
inductive CommandName where
  | encode
  | decode
  | query
  | stream
  | explain
  | modes
  deriving DecidableEq

namespace CommandName

/-- All names. -/
def all : List CommandName := [encode, decode, query, stream, explain, modes]

/-- The spelling of a name. -/
def word : CommandName → String
  | encode => "encode"
  | decode => "decode"
  | query => "query"
  | stream => "stream"
  | explain => "explain"
  | modes => "modes"

/-- What a command does, in a few words. -/
def description : CommandName → String
  | encode => "Encode a JSON document as ATON"
  | decode => "Decode ATON back to JSON"
  | query => "Run a query against a JSON or ATON document"
  | stream => "Encode one table in chunks"
  | explain => "Parse and explain a query"
  | modes => "List compression modes"

/-- The command of a spelling. -/
def ofWord? (word : String) : Option CommandName := all.find? fun name => name.word = word

end CommandName

/-- Any text. -/
def anyText (_ : String) : Bool := true

/-- A path that is not empty. -/
def isPath (s : String) : Bool := s != ""

/-- The name of a mode. -/
def isModeName (s : String) : Bool := (Mode.ofName? s).isSome

/-- A number of things. -/
def isCount (s : String) : Bool := (readCount? s.toList).isSome

/-- The options that every command has. -/
def commonOptions : List OptionSpec :=
  [⟨"config", none, .value isPath⟩, ⟨"verbose", some 'v', .flag⟩,
   ⟨"help", some 'h', .stop .help⟩]

/-- The command that explains the others. -/
def helpWord : String := "help"

/-- The grammar in front of a command. -/
def outerGrammar : Grammar where
  options := commonOptions ++ [⟨"version", some 'V', .stop .version⟩]
  operands := []
  commands := helpWord :: CommandName.all.map CommandName.word

namespace CommandName

/-- The options that a command has for itself. -/
def options : CommandName → List OptionSpec
  | encode =>
    [⟨"mode", some 'm', .value isModeName⟩, ⟨"no-optimize", none, .flag⟩,
     ⟨"queryable", none, .flag⟩, ⟨"query", some 'q', .value anyText⟩, ⟨"stats", none, .flag⟩]
  | stream =>
    [⟨"table", some 't', .value anyText⟩, ⟨"chunk-size", some 'c', .value isCount⟩]
  | _ => []

/-- The forms of the operands of a command. -/
def operands : CommandName → List (String → Bool)
  | encode => [isPath]
  | decode => [isPath]
  | query => [isPath, anyText]
  | stream => [isPath]
  | explain => [anyText]
  | modes => []

/-- The grammar behind a command. -/
def grammar (name : CommandName) : Grammar where
  options := name.options ++ commonOptions
  operands := name.operands
  commands := []

/-- The command of what has been read behind its name. -/
def command (name : CommandName) (r : Reading) : Except Stop Command :=
  match name, r.operands with
  | encode, operands => .ok <| .encode operands.head? {
      mode := (r.value? "mode").bind Mode.ofName?
      noOptimize := r.has "no-optimize"
      queryable := r.has "queryable"
      query := r.value? "query"
      statistics := r.has "stats" }
  | decode, operands => .ok (.decode operands.head?)
  | query, [input, text] => .ok (.query input text)
  | stream, operands =>
    let chunkSize := (r.value? "chunk-size").bind fun s => readCount? s.toList
    .ok (.stream operands.head? (r.value? "table") chunkSize)
  | explain, [text] => .ok (.explain text)
  | modes, _ => .ok .modes
  | _, _ => .error .misuse

end CommandName

/-- What a call of the program asks for: a command, and the file of settings for it,
if one is named. -/
structure Invocation where
  settingsPath : Option String
  command : Command

namespace Invocation

/-- What help is asked for is given for every command that there is. -/
def helpStop : List String → Stop
  | [] => .help
  | [word] => if outerGrammar.commands.contains word then .help else .misuse
  | _ => .misuse

/-- What arguments ask for, `named` being the file of settings that the environment
names.  That name must not be empty unless there is an option both in front of the
command and behind it. -/
def ofArguments (named : Option String) (arguments : List String) : Except Stop Invocation := do
  let (outer, next?) ← outerGrammar.read arguments
  match next? with
  | none => throw .misuse
  | some (word, rest) =>
    match CommandName.ofWord? word with
    | none => throw (helpStop rest)
    | some name => do
      let (inner, _) ← name.grammar.read rest
      let command ← name.command inner
      let isUnused := outer.has "config" && inner.has "config"
      if named.any (fun path => !isPath path) && !isUnused then throw .misuse
      return {
        settingsPath := ((inner.value? "config").or (outer.value? "config")).or named
        command }

end Invocation
end TableNotation.CommandLine
