import ResourceApi.Model.Definition
import ResourceApi.Options
import ResourceApi.Yaml.Reader

/-!
# Loading models and options

A model is loaded from the text of a definition file, and all its references are checked. Options
are loaded from the text of an options file, if there is one, and from overrides that win over it.
A text that cannot be read, or that holds no map, is reported with the file's location. Texts are
read by the standard reader unless another one is asked for.
-/

namespace ResourceApi

/-- The value that the text of a file stands for. -/
def FileRole.read (role : FileRole) (file : Location) (text : String)
    (reader : Yaml.Reader := .standard) : Except Failure Data :=
  match Yaml.read text.toList reader with
  | .ok v => .ok v
  | .error .malformed => .error (.unreadable role file.toText)
  | .error (.misfit m) => .error (.misfit m)

/-- The members of the map that a file must hold. -/
def FileRole.members (role : FileRole) (file : Location) (v : Data) :
    Except Failure (List (Data × Data)) :=
  match v.opened with
  | .map ms => .ok ms
  | _ => .error (.notMapping role file.toText)

/-- The model in a file. -/
def Model.load (file : Location) (text : String) (reader : Yaml.Reader := .standard) :
    Except Failure Model := do
  let doc ← FileRole.model.members file (← FileRole.model.read file text reader)
  let m ← Model.ofDefinition doc
  m.checkReferences.mapError Failure.unresolved
  return m

/-- The members that an options file holds; a file that holds nothing counts as an empty map. -/
def Options.fileMembers (file : Location) (text : String) (reader : Yaml.Reader := .standard) :
    Except Failure (List (Data × Data)) := do
  let v ← FileRole.options.read file text reader
  if v.isVoid then return [] else FileRole.options.members file v

/-- The options in a file and in overrides, which win unless they are null. -/
def Options.load (file : Option (Location × String)) (overrides : List (Text × Data))
    (reader : Yaml.Reader := .standard) : Except Failure Options := do
  let ms ←
    match file with
    | some (file, text) => Options.fileMembers file text reader
    | none => pure []
  Options.ofData (.map (Options.override ms (Options.given overrides)))

end ResourceApi
