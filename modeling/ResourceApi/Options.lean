import ResourceApi.Failure
import ResourceApi.Location
import ResourceApi.Schema
import ResourceApi.Text.Digit

/-!
# Generator options

What a user can set: where the document goes, which version of the target format it has, what it
says about itself, where its paths begin, how resources are named in paths, which security schemes
it declares, and which entities it covers. Options are a record without further keys; each may be
written under its outer name or its own.
-/

namespace ResourceApi

open Checked

/-! ## Versions of the target format -/

namespace SpecVersion

/-- The parts of a version. -/
def parts (s : Text) : List (List CodePoint) := Text.splitOn (.char '.') s.points

/-- Two parts or more, each a run of digits. -/
def isValid (s : Text) : Bool :=
  2 ≤ (parts s).length && (parts s).all fun p => !p.isEmpty && p.all Text.isDigit

/-- The first two parts as numbers; digits that form no number are a misfit. -/
def numbers (s : Text) : Except Misfit (Nat × Nat) :=
  match (parts s).map Text.readNat? with
  | some major :: some minor :: _ => .ok (major, minor)
  | _ => .error .notNumber

/-- From 3.1 on, null is a type. -/
def nullStyle (s : Text) : Except Misfit NullStyle :=
  (numbers s).map fun (major, minor) =>
    if 3 < major ∨ (major = 3 ∧ 1 ≤ minor) then .asType else .flag

end SpecVersion

/-! ## Options -/

/-- The options of a document. -/
structure Options where
  output : Location
  specVersion : Text := "3.0.0"
  title : Text := "Generated JSON:API"
  version : Text := "1.0.0"
  description : Option Text := none
  summary : Option Text := none
  pathPrefix : Text := ""
  /-- The names that entities go by in paths. -/
  nameMapping : Assoc Text Text := []
  /-- A map that is read as security schemes when a document is generated. -/
  securitySchemes : Data := .null
  /-- The names of the entities to cover; none covers all. -/
  included : Option (List Text) := none
  deriving Repr, Inhabited

namespace Options

/-- The only kind of document there is. -/
def flavor : Text := "rest"

/-- The style in which the document admits null. -/
def nullStyle (o : Options) : Except Misfit NullStyle := SpecVersion.nullStyle o.specVersion

/-- The prefix without a slash at its end. -/
def trimPrefix (s : Text) : Text :=
  match s.points.reverse with
  | .char '/' :: back => ⟨back.reverse⟩
  | _ => s

def checkLocation : Data → Checked Location
  | .str s => .ok (Location.ofText s)
  | _ => fault .notPath

def checkVersion (v : Data) : Checked Text :=
  match text v with
  | .ok s => if SpecVersion.isValid s then .ok s else fault (.badVersion s)
  | .bad issues => .bad issues

/-- A map, or null. -/
def mapOrNull : Data → Checked Data
  | .null => .ok .null
  | v => anyMap v

def outputName : Name := .plain "output"
def flavorName : Name := .plain "flavor"
def specVersionName : Name := ⟨"specVersion", "spec_version"⟩
def titleName : Name := .plain "title"
def versionName : Name := .plain "version"
def descriptionName : Name := .plain "description"
def summaryName : Name := .plain "summary"
def prefixName : Name := .plain "prefix"
def nameMappingName : Name := ⟨"modelNameMapping", "model_name_mapping"⟩
def securitySchemesName : Name := ⟨"securitySchemes", "security_schemes"⟩
def includeName : Name := .plain "include"

/-- The names of all options. -/
def names : List Name :=
  [outputName, flavorName, specVersionName, titleName, versionName, descriptionName, summaryName,
    prefixName, nameMappingName, securitySchemesName, includeName]

/-- Options from the members of a record. -/
def ofMembers (ms : List (Data × Data)) : Checked Options :=
  closed ms names
    ((fun output (_ : Text) => Options.mk output)
      <$> required ms outputName checkLocation
      <*> defaulted ms flavorName flavor (oneOf [flavor])
      <*> defaulted ms specVersionName "3.0.0" checkVersion
      <*> defaulted ms titleName "Generated JSON:API" text
      <*> defaulted ms versionName "1.0.0" text
      <*> defaulted ms descriptionName none (nullable text)
      <*> defaulted ms summaryName none (nullable text)
      <*> defaulted ms prefixName "" (fun v => trimPrefix <$> text v)
      <*> defaulted ms nameMappingName [] (textMap text)
      <*> defaulted ms securitySchemesName .null mapOrNull
      <*> defaulted ms includeName none (nullable (list text)))

/-- The names of an option that belongs to other kinds of documents. -/
def foreignNames : List Text := ["omitInputDetails", "omit_input_details"]

/-- Does the value name an option of other kinds of documents? A list names its texts, and a text
names every part of it. -/
def namesForeign (v : Data) : Bool :=
  match v.opened with
  | .map ms => foreignNames.any fun n => (Data.lookup ms n).isSome
  | .list xs => xs.any fun x => match x with | .str s => foreignNames.contains s | _ => false
  | .str s => foreignNames.any fun n => Text.occursIn n.points s.points
  | _ => false

/-- Options from a loaded value. -/
def ofData (v : Data) : Except Failure Options :=
  if namesForeign v then .error .unsupportedOption
  else
    match v.opened with
    | .map ms =>
      if ms.all fun m => match m.1 with | .str _ => true | _ => false then
        (ofMembers ms).toExcept (some .options) "GeneratorOptions"
      else .error (.misfit .keyNotText)
    | _ => .error (.misfit .notSequence)

/-- Lets overrides win over the members of a loaded value. -/
def override (ms : List (Data × Data)) (overrides : List (Text × Data)) : List (Data × Data) :=
  overrides.foldl (fun ms o => Data.insertKey ms (.str o.1) o.2) ms

/-- The overrides that set something. Null leaves an option as it is. -/
def given (overrides : List (Text × Data)) : List (Text × Data) :=
  overrides.filter fun o => match o.2 with | .null => false | _ => true

end Options

end ResourceApi
