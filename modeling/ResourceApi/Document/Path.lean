import ResourceApi.Document.Operation
import ResourceApi.Failure
import ResourceApi.Schema.Component
import ResourceApi.Text.Case

/-!
# Paths

The paths of an entity: its collection, its items, and for each relationship to an entity that the
document covers the related resources and the relationship itself. Operation ids are built from a
verb, the entity and the relationship. Which operations are open is asked of an entity only when
its paths, or those of a relationship to it, are made.
-/

namespace ResourceApi

/-- Everything the paths of an entity depend on. -/
structure Routing where
  model : Model
  /-- The open operations of an entity. -/
  openness : Entity → Except Failure Openness
  /-- The entities that the document covers, by name. -/
  included : Assoc Text Entity
  pathPrefix : Text := ""
  /-- The names that entities go by in paths. -/
  nameMapping : Assoc Text Text := []

namespace Routing

/-- The name that an entity goes by. -/
def mappedName (r : Routing) (e : Entity) : Text := (Assoc.get? r.nameMapping e.name).getD e.name

/-- The path of an entity's collection. -/
def base (r : Routing) (e : Entity) : Text :=
  r.pathPrefix ++ "/" ++ Text.lowerFirst (r.mappedName e)

/-- Is an operation open, by the entity's own security or by the rules that govern it? -/
def isOpen (e : Entity) (rules : Openness) (action : Action) : Bool :=
  opens e.resource (rules.allows action)

def tag (e : Entity) : Text := Text.lowerFirst e.name

/-- The parameters of a collection of an entity. -/
def collectionParameters (filters : List FilterParameter) : List Parameter :=
  .shared .sort :: .shared .pageOffset :: .shared .pageLimit :: filters.map .filter

/-! ## The entity itself -/

def list (e : Entity) (rules : Openness) (filters : List FilterParameter) : Operation where
  id := "list-" ++ e.name
  description := "List \"" ++ e.name ++ "\" resources"
  tag := tag e
  parameters := some (.shared .include :: collectionParameters filters)
  responses := [("200", .success e.listResponse), ("403", .forbidden)]
  isOpen := isOpen e rules .read

def create (e : Entity) (rules : Openness) : Operation where
  id := "create-" ++ e.name
  description := "Create a \"" ++ e.name ++ "\" resource"
  tag := tag e
  body := e.createRequest
  responses := [("201", .success e.response), ("403", .forbidden), ("422", .invalid)]
  isOpen := isOpen e rules .create

def fetch (e : Entity) (rules : Openness) : Operation where
  id := "fetch-" ++ e.name
  description := "Fetch a \"" ++ e.name ++ "\" resource"
  tag := tag e
  parameters := some [.shared .id, .shared .include]
  responses := [("200", .success e.response), ("403", .forbidden), ("404", .notFound)]
  isOpen := isOpen e rules .read

def update (r : Routing) (e : Entity) (rules : Openness) (method : Method) : Operation where
  id := "update-" ++ r.mappedName e ++ "-" ++ method.name
  description := "Update a \"" ++ e.name ++ "\" resource"
  tag := tag e
  parameters := some [.shared .id]
  body := e.updateRequest
  responses :=
    [("200", .success e.response), ("403", .forbidden), ("404", .notFound), ("422", .invalid)]
  isOpen := isOpen e rules .update

def delete (e : Entity) (rules : Openness) : Operation where
  id := "delete-" ++ e.name
  description := "Delete a \"" ++ e.name ++ "\" resource"
  tag := tag e
  parameters := some [.shared .id]
  responses := [("200", .success none), ("403", .forbidden), ("404", .notFound)]
  isOpen := isOpen e rules .delete

/-! ## Relationships -/

/-- The parameters that a to-many relationship adds: those of the target's collection. -/
def targetParameters (f : Field) (filters : List FilterParameter) : List Parameter :=
  if f.array then collectionParameters filters else []

/-- The related resources; they are governed by their own rules. -/
def fetchRelated (e : Entity) (f : Field) (target : Entity) (rules : Openness)
    (filters : List FilterParameter) : Operation where
  id := "fetch-" ++ e.name ++ "-related-" ++ f.name
  description := "Fetch the related \"" ++ f.name ++ "\" resource for \"" ++ e.name ++ "\""
  tag := tag e
  parameters := some (.shared .id :: .shared .include :: targetParameters f filters)
  responses := [("200", .success (if f.array then target.listResponse else target.response)),
    ("403", .forbidden), ("404", .notFound)]
  isOpen := isOpen e rules .read

def relationshipResponse (f : Field) : Text :=
  if f.array then "_toManyRelationshipResponse" else "_toOneRelationshipResponse"

def relationshipRequest (f : Field) : Text :=
  if f.array then "_toManyRelationshipRequest" else "_toOneRelationshipRequest"

def fetchRelationship (e : Entity) (rules : Openness) (f : Field)
    (filters : List FilterParameter) : Operation where
  id := "fetch-" ++ e.name ++ "-relationship-" ++ f.name
  description := "Fetch the \"" ++ f.name ++ "\" relationships for a \"" ++ e.name ++ "\""
  tag := tag e
  parameters := some (.shared .id :: targetParameters f filters)
  responses := [("200", .success (relationshipResponse f)), ("403", .forbidden),
    ("404", .notFound)]
  isOpen := isOpen e rules .read

def createRelationship (e : Entity) (rules : Openness) (f : Field) : Operation where
  id := "create-" ++ e.name ++ "-relationship-" ++ f.name
  description := "Create new \"" ++ f.name ++ "\" relationships for a \"" ++ e.name ++ "\""
  tag := tag e
  parameters := some [.shared .id]
  body := "_toManyRelationshipRequest"
  responses := [("200", .success "_toManyRelationshipResponse"), ("403", .forbidden),
    ("404", .notFound)]
  isOpen := isOpen e rules .update

def updateRelationship (e : Entity) (rules : Openness) (f : Field) (method : Method) :
    Operation where
  id := "update-" ++ e.name ++ "-relationship-" ++ f.name ++ "-" ++ method.name
  description := "Update \"" ++ f.name ++ "\" " ++
    (if f.array then "relationships" else "relationship") ++ " for a \"" ++ e.name ++ "\""
  tag := tag e
  parameters := some [.shared .id]
  body := relationshipRequest f
  responses := [("200", .success (relationshipResponse f)), ("403", .forbidden),
    ("404", .notFound)]
  isOpen := isOpen e rules .update

/-! ## Path items -/

def itemPath (base : Text) : Text := base ++ "/\x7bid\x7d"

def relatedPath (base : Text) (f : Field) : Text := itemPath base ++ "/" ++ f.name

def relationshipPath (base : Text) (f : Field) : Text :=
  itemPath base ++ "/relationships/" ++ f.name

/-- The two paths of an entity itself. -/
def ownPaths (r : Routing) (e : Entity) (rules : Openness) (filters : List FilterParameter) :
    List (Text × PathItem) :=
  [(r.base e, [(.get, list e rules filters), (.post, create e rules)]),
    (itemPath (r.base e), [(.get, fetch e rules), (.put, r.update e rules .put),
      (.patch, r.update e rules .patch), (.delete, delete e rules)])]

/-- The two paths of a relationship; only a to-many relationship can be added to. The first is
governed by the target's rules. -/
def relationshipPaths (r : Routing) (e : Entity) (rules : Openness) (f : Field) (target : Entity)
    (targetRules : Openness) (filters : List FilterParameter) : List (Text × PathItem) :=
  [(relatedPath (r.base e) f, [(.get, fetchRelated e f target targetRules filters)]),
    (relationshipPath (r.base e) f,
      [(.get, fetchRelationship e rules f filters), (.put, updateRelationship e rules f .put),
        (.patch, updateRelationship e rules f .patch)] ++
      if f.array then [(.post, createRelationship e rules f)] else [])]

/-- The relationships of an entity to covered entities, with their targets. -/
def routes (r : Routing) (e : Entity) : List (Field × Entity) :=
  (e.fields.filter r.model.isRelationship).filterMap fun f =>
    (Assoc.get? r.included f.typeName).map fun target => (f, target)

/-- The filters of an entity. -/
def filters (r : Routing) (e : Entity) : Except Failure (List FilterParameter) :=
  (r.model.filters e).mapError .unresolved

/-- The filters of a relationship's target, which only a to-many relationship takes. -/
def targetFilters (r : Routing) (f : Field) (target : Entity) :
    Except Failure (List FilterParameter) :=
  if f.array then r.filters target else .ok []

/-- The paths of one route, once the target's rules are known. -/
def routePaths (r : Routing) (e : Entity) (rules : Openness) (route : Field × Entity) :
    Except Failure (List (Text × PathItem)) := do
  let targetRules ← r.openness route.2
  let filters ← r.targetFilters route.1 route.2
  return r.relationshipPaths e rules route.1 route.2 targetRules filters

/-- All paths of an entity, in order. -/
def paths (r : Routing) (e : Entity) : Except Failure (Assoc Text PathItem) := do
  let rules ← r.openness e
  let filters ← r.filters e
  let related ← (r.routes e).mapM (r.routePaths e rules)
  return Assoc.ofList (r.ownPaths e rules filters ++ related.flatten)

end Routing

end ResourceApi
