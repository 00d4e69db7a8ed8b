import ResourceApi.Model.Openness
import ResourceApi.Schema.Filter

/-!
# Operations

An operation is what a caller can do at a path: an id, a text, a tag, parameters, a body, the
responses to expect, and whether it is open to everyone. The parameters that many operations
share are named parameters of the document and are referred to.
-/

namespace ResourceApi

open Schema

/-- The methods of requests. -/
inductive Method where
  | get | post | put | patch | delete
  deriving DecidableEq, Repr, Inhabited

namespace Method

def name : Method → Text
  | .get => "get"
  | .post => "post"
  | .put => "put"
  | .patch => "patch"
  | .delete => "delete"

/-- All methods, in the order in which they are listed to the user. -/
def all : List Method := [.get, .post, .put, .patch, .delete]

def upper : Method → Text
  | .get => "GET"
  | .post => "POST"
  | .put => "PUT"
  | .patch => "PATCH"
  | .delete => "DELETE"

end Method

/-! ## Parameters -/

/-- The parameters that operations share. -/
inductive SharedParameter where
  | id | include | sort | pageOffset | pageLimit
  deriving DecidableEq, Repr, Inhabited

namespace SharedParameter

def all : List SharedParameter := [.id, .include, .sort, .pageOffset, .pageLimit]

/-- The name of the parameter in the document. -/
def key : SharedParameter → Text
  | .id => "id"
  | .include => "include"
  | .sort => "sort"
  | .pageOffset => "page-offset"
  | .pageLimit => "page-limit"

/-- A parameter of the query that may be left out. -/
def queryParameter (name description valueType : Text) : Json :=
  .obj [("name", .str name), ("in", "query"), ("description", .str description),
    ("required", .bool false), ("style", "form"), ("schema", typed valueType)]

def toJson : SharedParameter → Json
  | .id => .obj [("name", "id"), ("in", "path"), ("description", "The resource id"),
      ("required", .bool true), ("schema", typed "string")]
  | .include => queryParameter "include" "Relationships to include" "string"
  | .sort => queryParameter "sort" "Fields to sort by" "string"
  | .pageOffset => queryParameter "page[offset]" "Offset for pagination" "integer"
  | .pageLimit => queryParameter "page[limit]" "Limit for pagination" "integer"

/-- The named parameters of every document. -/
def components : List (Text × Json) := all.map fun p => (p.key, p.toJson)

end SharedParameter

/-- A parameter of an operation. -/
inductive Parameter where
  | shared (p : SharedParameter)
  | filter (p : FilterParameter)
  deriving Repr, Inhabited

def Parameter.toJson : Parameter → Json
  | .shared p => parameterRef p.key
  | .filter p => p.toJson

/-! ## Bodies and responses -/

/-- The media type of all bodies. -/
def mediaType : Text := "application/vnd.api+json"

/-- A body with a named schema. -/
def content (schema : Text) : Json :=
  .obj [(mediaType, .obj [("schema", ref schema)])]

def requestBody (schema : Text) : Json := .obj [("content", content schema)]

/-- What a caller may be answered. -/
structure Response where
  description : Text
  /-- The name of the body's schema; an empty name stands for no body. -/
  schema : Option Text
  deriving DecidableEq, Repr, Inhabited

namespace Response

def toJson (r : Response) : Json :=
  .obj (("description", .str r.description) ::
    match r.schema with
    | none => []
    | some schema => if schema.isEmpty then [] else [("content", content schema)])

def success (schema : Option Text) : Response := ⟨"Successful operation", schema⟩

def failure (description : Text) : Response := ⟨description, some "_errorResponse"⟩

def forbidden : Response := failure "Request is forbidden"

def notFound : Response := failure "Resource is not found"

def invalid : Response := failure "Request is unprocessable due to validation errors"

end Response

/-! ## Operations -/

/-- An operation of a document. -/
structure Operation where
  id : Text
  description : Text
  tag : Text
  parameters : Option (List Parameter) := none
  /-- The name of the schema of the request's body. -/
  body : Option Text := none
  responses : List (Text × Response)
  /-- May everyone perform it? -/
  isOpen : Bool := false
  deriving Repr, Inhabited

namespace Operation

/-- The operation in the target format. An open operation has an empty list of security
requirements, any other falls under those of the document. -/
def toJson (o : Operation) : Json :=
  .obj (Json.member "operationId" (.str o.id) ++
    Json.member "description" (.str o.description) ++
    Json.member "tags" (.arr [.str o.tag]) ++
    Json.memberIf "parameters" (o.parameters.map fun ps => .arr (ps.map Parameter.toJson)) ++
    Json.memberIf "requestBody" (o.body.map requestBody) ++
    Json.member "responses" (.obj (o.responses.map fun r => (r.1, r.2.toJson))) ++
    Json.memberIf "security" (if o.isOpen then some (.arr []) else none))

end Operation

/-- Is an operation on a resource open? Any security of the resource's own opens it. -/
def opens (resource : Option ResourceMeta) (allowed : Bool) : Bool :=
  allowed || match resource with
    | some r => r.security.isSome
    | none => false

/-- The operations at a path, by method. -/
abbrev PathItem := List (Method × Operation)

def PathItem.toJson (item : PathItem) : Json :=
  .obj (item.map fun o => (o.1.name, o.2.toJson))

end ResourceApi
