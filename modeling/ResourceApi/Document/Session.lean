import ResourceApi.Data.Text
import ResourceApi.Document
import ResourceApi.Model.Definition

/-!
# Sessions

A generator can be used more than once. It keeps the warnings it has given: asking for the covered
entities adds one for each unknown name, and generating a document forgets the earlier ones first.
Between two uses the model and the options may change; the style in which null is admitted stays
what it was at the start. The entities to cover may then be given by any value: null covers all,
and of a value with parts those parts that are texts are names. Every part that names nothing is
warned about, and a part that could be no key ends the use after that.
-/

namespace ResourceApi

/-- A generator, the value that says which entities to cover, and the warnings given. -/
structure Session where
  generator : Generator
  included : Data := .null
  warnings : List Text := []

namespace Session

/-- A session that has not begun. -/
def ofGenerator (g : Generator) : Session where
  generator := g
  included :=
    match g.options.included with
    | none => .null
    | some names => .list (names.map Data.str)

/-! ## Covered entities -/

/-- The text that a part is, if it names an entity of the model. -/
def nameOf? (m : Model) : Data → Option Text
  | .str s => (m.entity? s).map fun _ => s
  | _ => none

/-- A warning for every part that names nothing. -/
def warningsOf (m : Model) (parts : List Data) : Except Misfit (List Text) :=
  (parts.filter fun v => (nameOf? m v).isNone).mapM fun v =>
    v.text.map ("Unable to load model definition for: " ++ ·)

/-- The generator with the entities to cover narrowed as the session says, and its warnings. -/
def narrowed (s : Session) : List Text × Except Misfit Generator :=
  let narrow (names : Option (List Text)) : Generator :=
    { s.generator with options := { s.generator.options with included := names } }
  match s.included, Definition.parts? s.included with
  | .null, _ => ([], .ok (narrow none))
  | _, none => ([], .error .notSequence)
  | _, some parts =>
    match warningsOf s.generator.model parts with
    | .error m => ([], .error m)
    | .ok warnings =>
      (warnings,
        if parts.all Data.isKey then
          .ok (narrow (some (parts.filterMap (nameOf? s.generator.model))))
        else .error .notKey)

/-- Asks for the covered entities. -/
def covered (s : Session) : Except Failure (List Entity) × Session :=
  let (warnings, g) := s.narrowed
  ((g.map Generator.covered).mapError .misfit, { s with warnings := s.warnings ++ warnings })

/-- Generates a document. Unknown names are warned about once the security schemes are read, even
if the document then fails. -/
def generate (s : Session) : Except Failure Document × Session :=
  match readSecuritySchemes s.generator.options.securitySchemes with
  | .error f => (.error f, { s with warnings := [] })
  | .ok _ =>
    let (warnings, g) := s.narrowed
    ((g.mapError .misfit).bind Generator.document, { s with warnings })

/-! ## Changes -/

def mapModel (s : Session) (f : Model → Model) : Session :=
  { s with generator := { s.generator with model := f s.generator.model } }

def mapOptions (s : Session) (f : Options → Options) : Session :=
  { s with generator := { s.generator with options := f s.generator.options } }

/-- Applies a function to the first element that fits. -/
def updateFirst {α : Type} (p : α → Bool) (f : α → α) : List α → List α
  | [] => []
  | a :: as => if p a then f a :: as else a :: updateFirst p f as

/-- Changes the first entity of a name; none when there is no such entity. -/
def updateEntity? (s : Session) (name : Text) (f : Entity → Entity) : Option Session :=
  if (s.generator.model.entity? name).isSome then
    some (s.mapModel fun m => { m with entities := updateFirst (·.name == name) f m.entities })
  else none

/-- Removes the first entity of a name; none when there is no such entity. -/
def dropEntity? (s : Session) (name : Text) : Option Session :=
  if (s.generator.model.entity? name).isSome then
    some (s.mapModel fun m => { m with entities := m.entities.eraseP (·.name == name) })
  else none

end Session

end ResourceApi
