import ResourceApi.Text.Quoted
import ResourceApi.Text.Similar

/-!
# Arguments of the command line

The arguments are options and words. An option may be long (two dashes and a name, with its value
after an equals sign or as the next argument) or short (one dash and a letter, with its value
attached or as the next argument; letters without a value may stand together). After two dashes
alone there are words only. The first word names a command, and the rest belongs to the command.
A long option or a command that is not known is answered with similar ones that are.
-/

namespace ResourceApi

/-- What an option sets. -/
inductive Setting where
  | help | verbose | output | options | specVersion | title | version | pathPrefix
  deriving DecidableEq, Repr, Inhabited

/-- Does the setting need a value? -/
def Setting.takesValue : Setting → Bool
  | .help | .verbose => false
  | _ => true

/-- The commands. -/
inductive Command where
  | generate | paths
  deriving DecidableEq, Repr, Inhabited

namespace Command

def name : Command → Text
  | .generate => "generate"
  | .paths => "paths"

def all : List Command := [.generate, .paths]

def ofName? (s : Text) : Option Command := all.find? fun c => c.name == s

/-- The options before the command. -/
def commonOptions : List (Text × Setting) :=
  [("-v", .verbose), ("--verbose", .verbose), ("--help", .help)]

/-- The options of a command. -/
def options : Command → List (Text × Setting)
  | .generate => [
    ("-o", .output), ("--output", .output), ("--options", .options),
    ("--spec-version", .specVersion), ("--title", .title), ("--api-version", .version),
    ("--prefix", .pathPrefix), ("--help", .help)]
  | .paths => [("--options", .options), ("--prefix", .pathPrefix), ("--help", .help)]

end Command

/-- Why the arguments ask for nothing that can be done. -/
inductive UsageError where
  | noArguments
  | unknownOption (name : Text) (similar : List Text)
  | missingValue (option : Text)
  | unexpectedValue (option : Text)
  | missingCommand
  | unknownCommand (name : Text) (similar : List Text)
  | missingArgument (name : Text)
  /-- The value of an option or argument is a location where nothing is. -/
  | nothingAt (name location : Text)
  | extraArguments (words : List Text)
  deriving DecidableEq, Repr, Inhabited

namespace UsageError

/-- The words that propose similar names, in alphabetical order. -/
def proposal (similar : List Text) : Text :=
  match similar.mergeSort Text.precedes with
  | [] => ""
  | [name] => " Did you mean " ++ Text.quoted name ++ "?"
  | names => " (Did you mean one of: " ++ Text.join ", " (names.map Text.quoted) ++ "?)"

/-- The words for an error; without any arguments there is nothing to say. -/
def message? : UsageError → Option Text
  | .noArguments => none
  | .unknownOption name similar =>
    some ("No such option " ++ Text.quoted name ++ "." ++ proposal similar)
  | .missingValue option => some ("Option " ++ Text.quoted option ++ " requires an argument.")
  | .unexpectedValue option => some ("Option " ++ Text.quoted option ++ " does not take a value.")
  | .missingCommand => some "Missing command."
  | .unknownCommand name similar =>
    some ("No such command " ++ Text.quoted name ++ "." ++ proposal similar)
  | .missingArgument name => some ("Missing argument " ++ Text.quoted name ++ ".")
  | .nothingAt name location =>
    some ("Invalid value for " ++ Text.quoted name ++ ": Path " ++ Text.quoted location ++
      " does not exist.")
  | .extraArguments words =>
    some ("Got unexpected extra " ++ (if words.length = 1 then "argument" else "arguments") ++
      " (" ++ Text.join " " words ++ ")")

end UsageError

/-! ## Options and words -/

/-- Options with their values, and words, in order. A setting without a value has an empty one. -/
structure Arguments where
  settings : List (Setting × Text) := []
  words : List Text := []
  deriving Repr, Inhabited

namespace Arguments

def has (a : Arguments) (s : Setting) : Bool := a.settings.any (·.1 == s)

/-- The last value of a setting. -/
def value? (a : Arguments) (s : Setting) : Option Text :=
  (a.settings.reverse.find? (·.1 == s)).map Prod.snd

def set (a : Arguments) (s : Setting) (value : Text) : Arguments :=
  { a with settings := a.settings ++ [(s, value)] }

def addWords (a : Arguments) (words : List Text) : Arguments :=
  { a with words := a.words ++ words }

/-- An argument read as an option. -/
inductive Reading where
  /-- Settings, all with their values. -/
  | complete (settings : List (Setting × Text))
  /-- Settings, and one more whose value is the next argument. -/
  | awaiting (settings : List (Setting × Text)) (name : Text) (s : Setting)

/-- The letters of a short option; what follows a letter that needs a value is its value. -/
def letters (table : List (Text × Setting)) (found : List (Setting × Text)) :
    List CodePoint → Except UsageError Reading
  | [] => .ok (.complete found)
  | c :: cs =>
    let name : Text := ⟨['-', c]⟩
    match table.lookup name with
    | none => .error (.unknownOption name [])
    | some s =>
      if s.takesValue then
        if cs.isEmpty then .ok (.awaiting found name s)
        else .ok (.complete (found ++ [(s, ⟨cs⟩)]))
      else letters table (found ++ [(s, Text.empty)]) cs

/-- Does the name of an option begin with two dashes? -/
def isLong : List CodePoint → Bool
  | a :: b :: _ => a = '-' && b = '-'
  | _ => false

/-- The names of the long options. -/
def longNames (table : List (Text × Setting)) : List Text :=
  (table.map Prod.fst).filter fun name => isLong name.points

/-- An argument that begins with a dash. -/
def option (table : List (Text × Setting)) (arg : List CodePoint) : Except UsageError Reading :=
  let name : Text := ⟨arg.takeWhile (· != .char '=')⟩
  let attached := arg.dropWhile (· != .char '=')
  if isLong arg then
    match table.lookup name with
    | none => .error (.unknownOption name (Text.mostSimilar name (longNames table)))
    | some s =>
      if s.takesValue then
        if attached.isEmpty then .ok (.awaiting [] name s)
        else .ok (.complete [(s, ⟨attached.tail⟩)])
      else if attached.isEmpty then .ok (.complete [(s, "")])
      else .error (.unexpectedValue name)
  else letters table [] arg.tail

/-- Is the argument an option? -/
def isOption (arg : Text) : Bool := arg.points.head? == some (.char '-') && arg != "-"

/-- Reads arguments. Options may stand among the words if they are `mixed`; otherwise the first
word ends them. -/
def parse (table : List (Text × Setting)) (mixed : Bool) :
    Arguments → List Text → Except UsageError Arguments
  | a, [] => .ok a
  | a, arg :: rest =>
    if arg = "--" then .ok (a.addWords rest)
    else if isOption arg then
      match option table arg.points with
      | .error e => .error e
      | .ok (.complete settings) =>
        parse table mixed { a with settings := a.settings ++ settings } rest
      | .ok (.awaiting settings name s) =>
        match rest with
        | value :: rest =>
          parse table mixed ({ a with settings := a.settings ++ settings }.set s value) rest
        | [] => .error (.missingValue name)
    else if mixed then parse table mixed (a.addWords [arg]) rest
    else .ok (a.addWords (arg :: rest))

end Arguments

/-! ## Invocations -/

/-- A command with its arguments. -/
structure Invocation where
  isVerbose : Bool
  command : Command
  arguments : Arguments
  deriving Repr

/-- What the arguments ask for. -/
inductive Request where
  | help
  | invocation (i : Invocation)
  deriving Repr

namespace Request

/-- Reads all arguments. A word in place of a command may still look like an option. -/
def parse (args : List Text) : Except UsageError Request := do
  if args.isEmpty then throw .noArguments
  let common ← Arguments.parse Command.commonOptions false {} args
  if common.has .help then return .help
  match common.words with
  | [] => throw .missingCommand
  | name :: rest =>
    match Command.ofName? name with
    | none =>
      let again ← Arguments.parse Command.commonOptions false {} (name :: rest)
      if again.has .help then return .help
      throw (.unknownCommand name (Text.mostSimilar name (Command.all.map Command.name)))
    | some command =>
      let arguments ← Arguments.parse command.options true {} rest
      if arguments.has .help then return .help
      return .invocation ⟨common.has .verbose, command, arguments⟩

end Request

end ResourceApi
