/-!
# Options

The arguments of a command are options and operands.  An option has a long name
behind two dashes and perhaps a letter behind one; its value is the next argument
or stands behind an equals sign, and behind a letter also without one.  Letters
can share a dash.  Behind `--` all arguments are operands.

* `Grammar.read` takes arguments apart up to the name of a command, if the grammar
  knows any.
-/

namespace TableNotation.CommandLine

/-- Why the arguments name nothing to be done. -/
inductive Stop where
  | help
  | version
  | misuse
  deriving DecidableEq

/-- What an option asks for. -/
inductive OptionKind where
  /-- Nothing more than being there. -/
  | flag
  /-- A value of an admissible form. -/
  | value (admits : String → Bool)
  /-- The end of reading. -/
  | stop (reason : Stop)

/-- An option of a command. -/
structure OptionSpec where
  name : String
  letter : Option Char
  kind : OptionKind

/-- What can follow the name of a command. -/
structure Grammar where
  options : List OptionSpec
  /-- The forms of the operands in order. -/
  operands : List (String → Bool)
  /-- The names of the commands that can follow. -/
  commands : List String

/-- What has been read. -/
structure Reading where
  /-- The names of options with their values; that of a flag is empty. -/
  options : List (String × String)
  operands : List String

namespace Reading

/-- Nothing has been read. -/
def start : Reading := ⟨[], []⟩

/-- Adds an option, which must not be there yet. -/
def addOption (r : Reading) (option : OptionSpec) (value : String) : Except Stop Reading :=
  match option.kind with
  | .stop reason => .error reason
  | .flag => put
  | .value admits => if admits value then put else .error .misuse
where
  put : Except Stop Reading :=
    if (r.options.lookup option.name).isSome then .error .misuse
    else .ok { r with options := r.options ++ [(option.name, value)] }

/-- Adds an operand, for which there must be a place. -/
def addOperand (r : Reading) (grammar : Grammar) (operand : String) : Except Stop Reading :=
  match grammar.operands[r.operands.length]? with
  | some admits =>
    if admits operand then .ok { r with operands := r.operands ++ [operand] }
    else .error .misuse
  | none => .error .misuse

/-- The value of an option. -/
def value? (r : Reading) (name : String) : Option String := r.options.lookup name

/-- Whether an option is there. -/
def has (r : Reading) (name : String) : Bool := (r.value? name).isSome

end Reading

/-- Whether an argument is an option by its form; a single dash is none. -/
def isOption (argument : String) : Bool :=
  argument.toList.head? = some '-' && argument != "-"

/-- The parts of a long option: its name, and the value behind an equals sign. -/
def splitLong (body : List Char) : String × Option String :=
  match body.dropWhile (· ≠ '=') with
  | _ :: value => (String.ofList (body.takeWhile (· ≠ '=')), some (String.ofList value))
  | [] => (String.ofList body, none)

namespace Grammar

/-- What is still open behind an argument: nothing, or the value of an option. -/
abbrev Step := Except Stop (Reading × Option OptionSpec)

/-- Takes a long option. -/
def takeLong (grammar : Grammar) (r : Reading) (body : List Char) : Step :=
  let (name, value?) := splitLong body
  match grammar.options.find? fun option => option.name = name with
  | none => .error .misuse
  | some option =>
    match option.kind, value? with
    | .value _, some value => do return (← r.addOption option value, none)
    | .value _, none => .ok (r, some option)
    | _, some _ => .error .misuse
    | _, none => do return (← r.addOption option "", none)

/-- Takes the letters behind a dash. -/
def takeLetters (grammar : Grammar) (r : Reading) : List Char → Step
  | [] => .ok (r, none)
  | letter :: rest =>
    match grammar.options.find? fun option => option.letter = some letter with
    | none => .error .misuse
    | some option =>
      match option.kind, rest with
      | .value _, [] => .ok (r, some option)
      | .value _, '=' :: value => do return (← r.addOption option (String.ofList value), none)
      | .value _, value => do return (← r.addOption option (String.ofList value), none)
      | _, rest => do
        let r ← r.addOption option ""
        takeLetters grammar r rest

/-- Takes one argument in front of `--`. -/
def take (grammar : Grammar) (r : Reading) (argument : String) : Step :=
  match argument.toList with
  | '-' :: '-' :: body => grammar.takeLong r body
  | '-' :: letter :: rest => grammar.takeLetters r (letter :: rest)
  | _ => do return (← r.addOperand grammar argument, none)

/-- Reads arguments, `open?` being the option whose value comes next.  The result
holds the name of a command and the arguments behind it, if there is one. -/
def readFrom (grammar : Grammar) (r : Reading) (open? : Option OptionSpec) :
    List String → Except Stop (Reading × Option (String × List String))
  | [] => if open?.isSome then .error .misuse else .ok (r, none)
  | argument :: rest =>
    match open? with
    | some option =>
      if isOption argument then .error .misuse
      else do
        let r ← r.addOption option argument
        readFrom grammar r none rest
    | none =>
      if grammar.commands.contains argument then .ok (r, some (argument, rest))
      else if argument = "--" then do
        let r ← rest.foldlM (fun r operand => r.addOperand grammar operand) r
        return (r, none)
      else do
        let (r, open?) ← grammar.take r argument
        readFrom grammar r open? rest

/-- Reads the arguments of a command. -/
def read (grammar : Grammar) (arguments : List String) :
    Except Stop (Reading × Option (String × List String)) :=
  grammar.readFrom .start none arguments

end Grammar
end TableNotation.CommandLine
