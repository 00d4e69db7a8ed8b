import ResourceApi.Document.Path
import ResourceApi.Options
import ResourceApi.Reference
import ResourceApi.Schema.Component
import ResourceApi.Security

/-!
# Documents

The document of a model covers the entities that are not ignored, narrowed to those the options
name, and holds their paths, every schema that can be reached from those paths, the parameters and
security schemes, and a tag for each entity. The security schemes are read first, then every
schema is built, then the paths; the first failure ends the work.
-/

namespace ResourceApi

/-- What the document says about itself. -/
structure Info where
  title : Text
  version : Text
  description : Option Text
  summary : Option Text
  deriving DecidableEq, Repr, Inhabited

/-- A group of operations. -/
structure Tag where
  name : Text
  description : Text
  deriving DecidableEq, Repr, Inhabited

/-- A document of the target format. -/
structure Document where
  specVersion : Text
  info : Info
  tags : List Tag
  paths : Assoc Text PathItem
  schemas : Assoc Text Json
  securitySchemes : Option (Assoc Text SecurityScheme)
  deriving Repr, Inhabited

/-! ## Writing -/

def Info.members (i : Info) : List (Text × Json) :=
  Json.member "title" i.title ++ Json.member "version" i.version ++
    optionalText "description" i.description ++ optionalText "summary" i.summary

def Tag.toJson (t : Tag) : Json :=
  .obj [("name", .str t.name), ("description", .str t.description)]

/-- The paths of a document as an object. -/
def pathsJson (paths : Assoc Text PathItem) : Json :=
  .obj (Assoc.mapValues PathItem.toJson paths)

namespace Document

/-- The requirements that hold for every operation with none of its own: any of the schemes. -/
def requirements (d : Document) : Option Json :=
  match d.securitySchemes with
  | none | some [] => none
  | some schemes => some (.arr (schemes.map fun s => .obj [(s.1, .arr [])]))

def components (d : Document) : List (Text × Json) :=
  Json.member "schemas" (.obj d.schemas) ++
    Json.member "parameters" (.obj SharedParameter.components) ++
    Json.memberIf "securitySchemes"
      (d.securitySchemes.map fun s => .obj (Assoc.mapValues SecurityScheme.toJson s))

def members (d : Document) : List (Text × Json) :=
  Json.member "openapi" d.specVersion ++ Json.member "info" (.obj d.info.members) ++
    Json.member "tags" (.arr (d.tags.map Tag.toJson)) ++ Json.member "paths" (pathsJson d.paths) ++
    Json.member "components" (.obj d.components) ++ Json.memberIf "security" d.requirements

def toJson (d : Document) : Json := .obj d.members

end Document

/-! ## Covered entities -/

/-- Everything a document is made from. -/
structure Generator where
  model : Model
  options : Options
  nullStyle : NullStyle
  /-- The open operations of an entity. -/
  openness : Entity → Except Failure Openness := fun e => .ok e.openness

namespace Generator

/-- A generator for a model and options, if the version of the target format can be read. -/
def new (model : Model) (options : Options)
    (openness : Entity → Except Failure Openness := fun e => .ok e.openness) :
    Except Failure Generator :=
  match options.nullStyle with
  | .ok style => .ok ⟨model, options, style, openness⟩
  | .error m => .error (.misfit m)

/-- The entities that the document covers, in the order of the model. -/
def covered (g : Generator) : List Entity :=
  let entities := g.model.entities.filter (!·.ignored)
  match g.options.included with
  | none => entities
  | some names => entities.filter fun e => names.contains e.name

/-- One warning for each name in the options that no entity has, repetitions included. -/
def warnings (g : Generator) : List Text :=
  match g.options.included with
  | none => []
  | some names => (names.filter fun n => (g.model.entity? n).isNone).map fun n =>
      "Unable to load model definition for: " ++ n

/-! ## Assembly -/

def routing (g : Generator) : Routing where
  model := g.model
  openness := g.openness
  included := Assoc.ofList (g.covered.map fun e => (e.name, e))
  pathPrefix := g.options.pathPrefix
  nameMapping := g.options.nameMapping

def info (g : Generator) : Info :=
  ⟨g.options.title, g.options.version, g.options.description, g.options.summary⟩

/-- The tag of an entity, described by the entity or else by its name. -/
def tagOf (e : Entity) : Tag :=
  ⟨Routing.tag e, (e.resource.bind (·.tagDescription)).getD (e.name ++ " operations")⟩

/-- The paths of all covered entities. A path that two entities have is the later one's. -/
def paths (g : Generator) : Except Failure (Assoc Text PathItem) :=
  (g.covered.mapM g.routing.paths).map fun perEntity => Assoc.ofList perEntity.flatten

def schemas (g : Generator) : Except Failure (Assoc Text Json) :=
  (g.model.componentSchemas g.nullStyle).mapError .unresolved

/-- The document. -/
def document (g : Generator) : Except Failure Document := do
  let securitySchemes ← readSecuritySchemes g.options.securitySchemes
  let schemas ← g.schemas
  let paths ← g.paths
  return {
    specVersion := g.options.specVersion
    info := g.info
    tags := g.covered.map tagOf
    paths
    schemas := prune (pathsJson paths) schemas
    securitySchemes }

end Generator

end ResourceApi
