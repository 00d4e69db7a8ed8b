import ResourceApi.CommandLine.Arguments
import ResourceApi.Folder
import ResourceApi.Format
import ResourceApi.Journal
import ResourceApi.Loading

/-!
# The command line

`generate` writes the document of a model to a file, and `paths` lists its operations. Both load
the options before the model. What is to be done follows from the arguments and from what is at
the locations they name; it is a `Plan`: lines to print, and possibly a file to write with lines
to print once it is written. A plan is carried out on a folder, or on disk.

Lines for the user must be encodable, and the first that is not ends the work; a line on the side
shows what cannot be encoded by its code.
-/

namespace ResourceApi

namespace Invocation

/-- The word that names the model's file. -/
def modelText? (i : Invocation) : Option Text := i.arguments.words.head?

/-- The locations that the arguments name. -/
def locations (i : Invocation) : List Text :=
  (i.arguments.value? .options).toList ++ i.modelText?.toList

/-- The name of the argument for the model's file. -/
def modelName : Text := "MODEL_PATH"

end Invocation

/-! ## Plans -/

/-- How a plan ends before anything is written. -/
inductive Ending where
  /-- Nothing is left to do but what the plan says. -/
  | success
  /-- The arguments make no sense. -/
  | usage
  /-- The model or the options make no sense. -/
  | failure
  | misfit (m : Misfit)
  deriving DecidableEq, Repr

/-- What is to be done. -/
structure Plan where
  /-- Lines for the user, and lines on the side. -/
  lines : List Text := []
  notices : List Text := []
  ending : Ending := .success
  /-- A file to write, and lines for the user once it is written. -/
  file : Option (Location × Text) := none
  closing : List Text := []
  deriving Repr

namespace Plan

def errorLine (message : Text) : Text := "Error: " ++ message

/-- The plan for arguments that make no sense. -/
def ofUsageError (e : UsageError) : Plan :=
  { ending := .usage, notices := e.message?.toList.map errorLine }

/-- The plan when nothing can be at a location. -/
def ofMisfit (m : Misfit) : Plan := { ending := .misfit m }

/-- The plan after a failure. -/
def ofFailure (lines : List Text) (f : Failure) : Plan :=
  match f with
  | .misfit m => { lines, ending := .misfit m }
  | f => { lines, ending := .failure, notices := f.message?.toList.map errorLine }

end Plan

/-! ## Generating -/

/-- A generated document with its location and everything to be said on the side. -/
structure Generated where
  document : Document
  output : Location
  notices : List Text

/-- A file that is there. -/
structure SourceFile where
  location : Location
  place : Place

/-- The text of a file; a folder in its place is a misfit. -/
def SourceFile.text (s : SourceFile) : Except Failure String := s.place.text.mapError .misfit

def warningLine (text : Text) : Text := "Warning: " ++ text

/-- Loads the options, then the model, and generates the document. -/
def generate (isVerbose : Bool) (model : SourceFile) (options : Option SourceFile)
    (overrides : List (Text × Data)) : Except Failure Generated := do
  let file ← options.mapM fun s => s.text.map (Prod.mk s.location)
  let options ← Options.load file overrides
  let m ← Model.load model.location (← model.text)
  let g ← Generator.new m options
  let document ← g.document
  let journal := m.loaded model.location :: (← g.journal document)
  let shown := journal.filter fun l => isVerbose || l.isWarning
  return ⟨document, options.output,
    shown.map JournalLine.toText ++ g.warnings.map warningLine⟩

/-- Where the list of operations would go if it were a document. -/
def unusedOutput : Text := "openapi.json"

/-- The options that arguments can set, under their own names; null where they do not. -/
def Invocation.overrides (i : Invocation) : List (Text × Data) :=
  let value (s : Setting) : Data := ((i.arguments.value? s).map Data.str).getD .null
  match i.command with
  | .generate =>
    [("output", value .output), ("spec_version", value .specVersion), ("title", value .title),
      ("version", value .version), ("prefix", value .pathPrefix)]
  | .paths => [("output", .str unusedOutput), ("prefix", value .pathPrefix)]

/-- A method's name in capitals, with blanks up to a width of seven. -/
def Method.column (m : Method) : Text :=
  m.upper ++ ⟨List.replicate (7 - m.upper.points.length) ' '⟩

/-- One line for each operation. -/
def Document.listing (d : Document) : List Text :=
  d.paths.flatMap fun (path, item) =>
    Method.all.filterMap fun m =>
      (Assoc.get? item m).map fun o => m.column ++ path ++ "  " ++ o.id

namespace Plan

/-- The plan for a command on a model. -/
def ofCommand (i : Invocation) (model : SourceFile) (options : Option SourceFile) : Plan :=
  let lines : List Text :=
    match i.command with
    | .generate => ["Loading " ++ model.location.toText ++ "..."]
    | .paths => []
  match generate i.isVerbose model options i.overrides with
  | .error f => ofFailure lines f
  | .ok r =>
    match i.command with
    | .paths => { lines := r.document.listing, notices := r.notices }
    | .generate =>
      let text := (Format.ofLocation r.output).render r.document.toJson
      { lines, notices := r.notices, file := some (r.output, text),
        closing := [s!"Generated {r.document.paths.length} paths and " ++
          s!"{r.document.schemas.length} schemas in " ++ r.output.toText] }

/-- The file at a location that an argument names; something must be there. -/
def sourceFile (look : Text → Place) (name location : Text) : Except Plan SourceFile :=
  match look location with
  | .missing => .error (ofUsageError (.nothingAt name location))
  | .impossible m => .error (ofMisfit m)
  | place => .ok ⟨Location.ofText location, place⟩

/-- The options file that the arguments name. -/
def optionsFile (look : Text → Place) (a : Arguments) : Except Plan (Option SourceFile) :=
  (a.value? .options).mapM (sourceFile look "--options")

/-- Checks the location that a setting names; where the document goes, nothing need be. -/
def checkSetting (look : Text → Place) (a : Arguments) : Setting → Except Plan Unit
  | .options => (optionsFile look a).map fun _ => ()
  | .output =>
    match (a.value? .output).bind Location.impossible? with
    | some m => .error (ofMisfit m)
    | none => .ok ()
  | _ => .ok ()

/-- The plan for an invocation, given what is at the locations that it names. Settings are checked
in the order of the arguments, then the words. -/
def ofInvocation (look : Text → Place) (i : Invocation) : Except Plan Plan := do
  i.arguments.settings.forM fun s => checkSetting look i.arguments s.1
  let options ← optionsFile look i.arguments
  match i.arguments.words with
  | [] => throw (ofUsageError (.missingArgument Invocation.modelName))
  | word :: extra =>
    let model ← sourceFile look Invocation.modelName word
    if extra.isEmpty then return ofCommand i model options
    else throw (ofUsageError (.extraArguments extra))

/-- How to use the program. -/
def helpLines : List Text := [
  "Usage: [-v] generate MODEL_PATH [-o OUTPUT] [--options FILE] [--spec-version TEXT]",
  "       [--title TEXT] [--api-version TEXT] [--prefix TEXT]",
  "       [-v] paths MODEL_PATH [--options FILE] [--prefix TEXT]"]

/-- The plan for what the arguments ask for. -/
def ofRequest (look : Text → Place) : Request → Plan
  | .help => { lines := helpLines }
  | .invocation i =>
    match ofInvocation look i with
    | .ok p | .error p => p

/-- The plan for arguments. -/
def ofArguments (look : Text → Place) (args : List Text) : Plan :=
  match Request.parse args with
  | .ok r => ofRequest look r
  | .error e => ofUsageError e

end Plan

/-! ## Carrying out -/

/-- How a plan ended. -/
structure Report where
  ending : Ending
  lines : List String
  notices : List String
  deriving Repr

namespace Ending

/-- The code that the program ends with. -/
def exitCode : Ending → Nat
  | .success => 0
  | .usage => 2
  | .failure | .misfit _ => 1

end Ending

/-- The lines up to the first that cannot be encoded, and a misfit if there is one. -/
def encoded : List Text → List String × Option Misfit
  | [] => ([], none)
  | line :: lines =>
    match line.toString? with
    | some s => (s :: (encoded lines).1, (encoded lines).2)
    | none => ([], some .notEncodable)

/-- The ending of a plan after a misfit, if there was one. -/
def Ending.after (ending : Ending) : Option Misfit → Ending
  | some m => .misfit m
  | none => ending

/-- Carries out a plan on a folder. -/
def Plan.carryOut (p : Plan) (f : Folder) : Report × Folder :=
  let (lines, misfit) := encoded p.lines
  let notices := p.notices.map Text.shown
  match misfit, p.file with
  | some m, _ => (⟨.misfit m, lines, notices⟩, f)
  | none, none => (⟨p.ending, lines, notices⟩, f)
  | none, some (location, text) =>
    match f.write location text with
    | (.ok (), f) =>
      let (closing, misfit) := encoded p.closing
      (⟨p.ending.after misfit, lines ++ closing, notices⟩, f)
    | (.error m, f) => (⟨.misfit m, lines, notices⟩, f)

/-- Runs the program on a folder. -/
def run (args : List Text) (f : Folder) : Report × Folder :=
  (Plan.ofArguments f.lookText args).carryOut f

end ResourceApi
