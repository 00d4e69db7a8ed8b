import ResourceApi.Document

/-!
# The journal of a generation

What a user can follow while a document is generated: what was loaded, each unknown name among the
options, the schemas of each entity, the paths of each covered entity with the relationships left
out, and what was dropped as unreachable. Unknown names are warnings; all else is shown on demand.
-/

namespace ResourceApi

/-- One line of the journal. -/
structure JournalLine where
  isWarning : Bool
  /-- The part of the program that speaks. -/
  source : Text
  text : Text
  deriving DecidableEq, Repr

namespace JournalLine

def toText (l : JournalLine) : Text :=
  (if l.isWarning then "WARNING " else "DEBUG ") ++ l.source ++ ": " ++ l.text

end JournalLine

/-- The line for a loaded model. -/
def Model.loaded (m : Model) (file : Location) : JournalLine :=
  ⟨false, "restful_openapi.model.loader",
    s!"Loaded {m.entities.length} entities, {m.enums.length} enums, " ++
      s!"{m.types.length} type defs from " ++ file.toText⟩

namespace Routing

/-- A line for each relationship of an entity to one that is not covered. -/
def skipped (r : Routing) (e : Entity) : List JournalLine :=
  (e.fields.filter fun f => r.model.isRelationship f && !Assoc.has r.included f.typeName).map
    fun f => ⟨false, "restful_openapi.generator.paths",
      "Skipping relationship " ++ e.name ++ "." ++ f.name ++ " to excluded entity " ++ f.typeName⟩

/-- The lines for the paths of an entity. -/
def journal (r : Routing) (e : Entity) (paths : Assoc Text PathItem) : List JournalLine :=
  r.skipped e ++
    [⟨false, "restful_openapi.generator.paths", s!"Generated {paths.length} paths for " ++ e.name⟩]

end Routing

namespace Generator

def warned (g : Generator) : List JournalLine :=
  g.warnings.map fun w => ⟨true, "restful_openapi.generator.document", w⟩

def schemasJournal (m : Model) (schemas : Assoc Text Json) : List JournalLine :=
  m.entities.map (fun e =>
    ⟨false, "restful_openapi.generator.components", "Generating schemas for " ++ e.name⟩) ++
  [⟨false, "restful_openapi.generator.components", s!"Built {schemas.length} component schemas"⟩]

/-- The journal of a generation that ends with a document. -/
def journal (g : Generator) (d : Document) : Except Failure (List JournalLine) := do
  let schemas ← g.schemas
  let perEntity ← g.covered.mapM fun e => (g.routing.paths e).map (g.routing.journal e)
  let pruned := schemas.length - d.schemas.length
  return g.warned ++ schemasJournal g.model schemas ++ perEntity.flatten ++
    [⟨false, "restful_openapi.generator.pruning",
      s!"Pruned {pruned} of {schemas.length} component schemas"⟩,
    ⟨false, "restful_openapi.generator.document",
      s!"Generated {d.paths.length} paths and {d.schemas.length} schemas"⟩]

end Generator

end ResourceApi
