import ResourceApi.Schema

/-!
# Named schemas

Every schema that a document may refer to by name: those shared by all documents, whose names
begin with an underscore, one for each enumeration and structured type, and five for each entity
(the resource itself, the bodies of its create and update requests, and its single and list
responses). A name that is written twice keeps its first place and takes the last schema.
-/

namespace ResourceApi

open Schema

/-- What a resource object is used for. -/
inductive Mode where
  | read | create | update
  deriving DecidableEq, Repr, Inhabited

namespace Schema

/-- A schema of an object with a description and members. -/
def objectOf (description : Text) (required : List Text) (properties : List (Text × Json)) :
    Json :=
  .obj [("type", "object"), ("required", Json.texts required), ("description", .str description),
    ("properties", .obj properties)]

/-- Puts a description in front of a schema. -/
def withDescription (description : Text) : Json → Json
  | .obj ms => .obj (Assoc.insertAll [("description", .str description)] ms)
  | v => v

/-- The schemas that every document shares. -/
def shared (style : NullStyle) : List (Text × Json) := [
  ("_jsonapi", .obj [
    ("type", "object"),
    ("description", "An object describing the server's implementation"),
    ("required", Json.texts ["version"]),
    ("properties", .obj [("version", typed "string")])]),
  ("_meta", .obj [
    ("type", "object"),
    ("description", "Meta information about the request or response"),
    ("properties", .obj [
      ("serialization", .obj [("description", "Serialization metadata")])]),
    ("additionalProperties", .bool true)]),
  ("_resourceIdentifier", .obj [
    ("type", "object"),
    ("description", "Identifier for a resource"),
    ("required", Json.texts ["type", "id"]),
    ("properties", .obj [
      ("type", described "string" "Resource type"),
      ("id", described "string" "Resource id")])]),
  ("_resource", allOf [
    ref "_resourceIdentifier",
    .obj [
      ("type", "object"),
      ("description", "A resource with attributes and relationships"),
      ("properties", .obj [
        ("attributes", described "object" "Resource attributes"),
        ("relationships", described "object" "Resource relationships")])]]),
  ("_links", objectOf "Links related to the resource" ["self"] [
    ("self", described "string" "Link for refetching the current results")]),
  ("_pagination", .obj [
    ("type", "object"),
    ("description", "Pagination information"),
    ("required", Json.texts ["first", "last", "prev", "next"]),
    ("properties", .obj [
      ("first", nullable style (described "string" "Link to the first page")),
      ("last", nullable style (described "string" "Link to the last page")),
      ("prev", nullable style (described "string" "Link to the previous page")),
      ("next", nullable style (described "string" "Link to the next page"))])]),
  ("_errors", .obj [
    ("type", "array"),
    ("description", "An array of error objects"),
    ("items", .obj [
      ("type", "object"),
      ("required", Json.texts ["status", "code"]),
      ("properties", .obj [
        ("status", described "string" "HTTP status"),
        ("code", described "string" "Error code"),
        ("providerCode",
          described "string" "Error code reported by the storage provider, if any"),
        ("title", described "string" "Error title"),
        ("detail", described "string" "Error detail"),
        ("reason", described "string" "Detailed error reason"),
        ("validationErrors", .obj [
          ("type", "object"),
          ("additionalProperties", .bool true),
          ("description",
            "Field validation errors if the error is due to data validation failure")])])])]),
  ("_errorResponse", objectOf "An error response" ["errors"] [
    ("jsonapi", ref "_jsonapi"),
    ("errors", ref "_errors")]),
  ("_relationLinks", objectOf "Links related to a relationship" ["self", "related"] [
    ("self", described "string" "Link for fetching this relationship"),
    ("related",
      described "string" "Link for fetching the resource represented by this relationship")]),
  ("_toOneRelationship", .obj [
    ("type", "object"),
    ("description", "A to-one relationship"),
    ("properties", .obj [("data", nullable style (ref "_resourceIdentifier"))])]),
  ("_toOneRelationshipWithLinks",
    objectOf "A to-one relationship with links" ["links", "data"] [
      ("links", ref "_relationLinks"),
      ("data", nullable style (ref "_resourceIdentifier"))]),
  ("_toManyRelationship", objectOf "A to-many relationship" ["data"] [
    ("data", arrayOf (ref "_resourceIdentifier"))]),
  ("_toManyRelationshipWithLinks",
    objectOf "A to-many relationship with links" ["links", "data"] [
      ("links", ref "_pagedRelationLinks"),
      ("data", arrayOf (ref "_resourceIdentifier"))]),
  ("_pagedRelationLinks",
    withDescription "Relationship links with pagination information"
      (allOf [ref "_pagination", ref "_relationLinks"])),
  ("_toManyRelationshipRequest",
    objectOf "Input for manipulating a to-many relationship" ["data"] [
      ("data", arrayOf (ref "_resourceIdentifier"))]),
  ("_toOneRelationshipRequest",
    withDescription "Input for manipulating a to-one relationship"
      (nullable style (.obj [
        ("type", "object"),
        ("required", Json.texts ["data"]),
        ("properties", .obj [("data", ref "_resourceIdentifier")])]))),
  ("_toManyRelationshipResponse",
    withDescription "Response for a to-many relationship" (allOf [
      ref "_toManyRelationshipWithLinks",
      .obj [("type", "object"), ("properties", .obj [("jsonapi", ref "_jsonapi")])]])),
  ("_toOneRelationshipResponse",
    withDescription "Response for a to-one relationship" (allOf [
      ref "_toOneRelationshipWithLinks",
      .obj [("type", "object"), ("properties", .obj [("jsonapi", ref "_jsonapi")])]]))]

/-- The name of the schema of a relationship. -/
def relationship (toMany withLinks : Bool) : Text :=
  (if toMany then "_toManyRelationship" else "_toOneRelationship") ++
    if withLinks then "WithLinks" else ""

end Schema

/-- The schema of an enumeration. -/
def EnumDecl.schema (d : EnumDecl) : Json :=
  .obj [("type", "string"), ("description", .str ("The \"" ++ d.name ++ "\" Enum")),
    ("enum", Json.texts d.members)]

/-! ## Entities -/

namespace Entity

/-- The fields that a resource object can show. The only identifying field is the resource's id
and shown as such; several identifying fields are ordinary fields. -/
def shownFields (e : Entity) (mode : Mode) : List Field :=
  let fields := if e.idFields.length > 1 then e.fields else e.fields.filter (!·.isId)
  fields.filter fun f => !f.foreignKey || mode == .read

/-- Must a resource object give the attribute? Reading returns all; creating needs those that
nothing else provides. -/
def requires (mode : Mode) (f : Field) : Bool :=
  match mode with
  | .read => true
  | .create => !f.optional && !f.hasDefault
  | .update => false

/-- The only identifying field. -/
def soleId? (e : Entity) : Option Field :=
  match e.idFields with
  | [f] => some f
  | _ => none

/-- Must a resource object give its id? Only creating may leave it out, when it is not a single
field or has a default. -/
def requiresId (e : Entity) (mode : Mode) : Bool :=
  mode != .create || e.soleId?.any (!·.hasDefault)

def createRequest (e : Entity) : Text := e.name ++ "CreateRequest"
def updateRequest (e : Entity) : Text := e.name ++ "UpdateRequest"
def response (e : Entity) : Text := e.name ++ "Response"
def listResponse (e : Entity) : Text := e.name ++ "ListResponse"

end Entity

namespace Model

/-- The schema of a structured type. -/
def typeSchema (m : Model) (style : NullStyle) (d : TypeDecl) : Except Unresolved Json :=
  (d.fields.mapM fun f => (m.fieldSchema style (some d.name) f).map (Prod.mk f.name)).map
    fun properties =>
      .obj [("type", "object"), ("description", .str ("The \"" ++ d.name ++ "\" TypeDef")),
        ("properties", .obj (Assoc.ofList properties))]

/-- The relationships of a resource object. -/
def relationshipSchemas (m : Model) (style : NullStyle) (mode : Mode) (fields : List Field) :
    Assoc Text Json :=
  Assoc.ofList ((fields.filter m.isRelationship).map fun f =>
    (f.name, nullableIf f.optional style (ref (relationship f.array (mode == .read)))))

/-- The attributes of a resource object. -/
def attributeSchemas (m : Model) (style : NullStyle) (owner : Text) (fields : List Field) :
    Except Unresolved (List (Text × Json)) :=
  (fields.filter (!m.isRelationship ·)).mapM fun f =>
    (m.fieldSchema style (some owner) f).map (Prod.mk f.name)

/-- The names of the attributes that a resource object must give. -/
def requiredAttributes (m : Model) (mode : Mode) (fields : List Field) : List Text :=
  (fields.filter fun f => !m.isRelationship f && Entity.requires mode f).map (·.name)

/-- The schema of the attributes, with the names of those that must be given. -/
def attributesSchema (required : List Text) (attributes : List (Text × Json)) : Json :=
  let properties : Text × Json := ("properties", .obj (Assoc.ofList attributes))
  .obj (("type", "object") ::
    if required.isEmpty then [properties] else [("required", Json.texts required), properties])

/-- The member for the relationships; none when there are none. -/
def relationshipsMember (relationships : Assoc Text Json) : List (Text × Json) :=
  if relationships.isEmpty then []
  else [("relationships", .obj [("type", "object"), ("properties", .obj relationships)])]

/-- The schema of a resource's id: that of the only identifying field, or else a text. -/
def idSchema (m : Model) (e : Entity) : Except Unresolved Json :=
  match e.soleId? with
  | some f => m.baseSchema (some e.name) f
  | none => .ok (typed "string")

/-- The resource object of an entity, given the schemas of its parts. -/
def resourceObject (e : Entity) (mode : Mode) (id attributes : Json)
    (relationships : Assoc Text Json) : Json :=
  .obj [
    ("type", "object"),
    ("description", .str ("The \"" ++ e.name ++ "\" model")),
    ("required", Json.texts (if e.requiresId mode then ["id", "type", "attributes"]
      else ["type", "attributes"])),
    ("properties", .obj (("id", id) :: ("type", typed "string") :: ("attributes", attributes) ::
      relationshipsMember relationships))]

/-- The resource object of an entity. -/
def entitySchema (m : Model) (style : NullStyle) (mode : Mode) (e : Entity) :
    Except Unresolved Json := do
  let fields := e.shownFields mode
  let attributes ← m.attributeSchemas style e.name fields
  let id ← m.idSchema e
  return resourceObject e mode id (attributesSchema (m.requiredAttributes mode fields) attributes)
    (m.relationshipSchemas style mode fields)

/-- The resource object inside a response: the entity with its bare relationships. -/
def resourceData (m : Model) (e : Entity) : Json :=
  let relationships := Assoc.ofList ((e.fields.filter m.isRelationship).map fun f =>
    (f.name, ref (relationship f.array false)))
  allOf [
    ref e.name,
    .obj [("type", "object"), ("properties", .obj [
      ("relationships", .obj [("type", "object"), ("properties", .obj relationships)])])]]

/-- An object schema whose description comes before its required members. -/
def envelope (description : Text) (required : List Text) (properties : List (Text × Json)) :
    Json :=
  .obj [("type", "object"), ("description", .str description),
    ("required", Json.texts required), ("properties", .obj properties)]

/-- The entity schema with its request and response envelopes. -/
def entitySchemas (m : Model) (style : NullStyle) (e : Entity) :
    Except Unresolved (List (Text × Json)) := do
  let read ← m.entitySchema style .read e
  let create ← m.entitySchema style .create e
  let update ← m.entitySchema style .update e
  return [
    (e.name, read),
    (e.createRequest, envelope ("Input for creating a \"" ++ e.name ++ "\"") ["data"] [
      ("data", create),
      ("meta", ref "_meta")]),
    (e.updateRequest, envelope ("Input for updating a \"" ++ e.name ++ "\"") ["data"] [
      ("data", update),
      ("meta", ref "_meta")]),
    (e.response, envelope ("Response for a \"" ++ e.name ++ "\"") ["data"] [
      ("jsonapi", ref "_jsonapi"),
      ("data", m.resourceData e),
      ("meta", ref "_meta"),
      ("included", arrayOf (ref "_resource")),
      ("links", ref "_links")]),
    (e.listResponse, envelope ("Response for a list of \"" ++ e.name ++ "\"") ["data", "links"] [
      ("jsonapi", ref "_jsonapi"),
      ("data", arrayOf (m.resourceData e)),
      ("meta", ref "_meta"),
      ("included", arrayOf (ref "_resource")),
      ("links", allOf [ref "_links", ref "_pagination"])])]

/-- All named schemas of a model, in the order shared, enumerations, entities, types. -/
def componentSchemas (m : Model) (style : NullStyle) : Except Unresolved (Assoc Text Json) := do
  let entities ← m.entities.mapM (m.entitySchemas style)
  let types ← m.types.mapM fun d => (m.typeSchema style d).map (Prod.mk d.name)
  return Assoc.ofList
    (shared style ++ m.enums.map (fun d => (d.name, d.schema)) ++ entities.flatten ++ types)

end Model

end ResourceApi
