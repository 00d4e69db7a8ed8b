import ResourceApi.Json
import ResourceApi.Model

/-!
# Schema fragments

Schemas are JSON objects in the schema dialect of the target format. A fragment refers to a named
schema by a `$ref` with the path of its component (`ref`); fragments are combined by `allOf`,
`oneOf` and `arrayOf`, and `nullable` admits null in the style of the target version: up to 3.0 by
a flag, from 3.1 on as a type of its own. A fragment that is a reference may carry no flag beside
it, so the flag goes around it.
-/

namespace ResourceApi

/-- How a schema admits null. -/
inductive NullStyle where
  /-- By the member `nullable`. -/
  | flag
  /-- As the type `null`. -/
  | asType
  deriving DecidableEq, Repr, Inhabited

namespace Schema

/-- The path of the named schemas of a document. -/
def schemaPath : Text := "#/components/schemas/"

/-- The path of the named parameters of a document. -/
def parameterPath : Text := "#/components/parameters/"

/-- A reference to a named schema. -/
def ref (name : Text) : Json := .obj [("$ref", .str (schemaPath ++ name))]

/-- A reference to a named parameter. -/
def parameterRef (name : Text) : Json := .obj [("$ref", .str (parameterPath ++ name))]

def allOf (schemas : List Json) : Json := .obj [("allOf", .arr schemas)]

def oneOf (schemas : List Json) : Json := .obj [("oneOf", .arr schemas)]

def arrayOf (items : Json) : Json := .obj [("type", "array"), ("items", items)]

/-- A schema of a type. -/
def typed (t : Text) : Json := .obj [("type", .str t)]

/-- A schema of a type with a description. -/
def described (t description : Text) : Json :=
  .obj [("type", .str t), ("description", .str description)]

/-- A schema of a type in a format. -/
def formatted (t format : Text) : Json := .obj [("type", .str t), ("format", .str format)]

/-- An array of the schema, if asked for. -/
def arrayIf (array : Bool) (schema : Json) : Json := if array then arrayOf schema else schema

/-- Is the fragment a reference? -/
def isRef : Json → Bool
  | .obj ms => Assoc.has ms "$ref"
  | _ => false

/-- Sets the flag that admits null. -/
def flagged : Json → Json
  | .obj ms => .obj (Assoc.insert ms "nullable" (.bool true))
  | v => v

/-- Admits null in addition. -/
def nullable (style : NullStyle) (schema : Json) : Json :=
  match style with
  | .asType => oneOf [schema, typed "null"]
  | .flag =>
    if isRef schema then .obj [("allOf", .arr [schema]), ("nullable", .bool true)]
    else flagged schema

/-- Admits null in addition, if asked for. -/
def nullableIf (optional : Bool) (style : NullStyle) (schema : Json) : Json :=
  if optional then nullable style schema else schema

end Schema

open Schema

/-! ## Field types -/

/-- The schema of a primitive type. -/
def Primitive.schema : Primitive → Json
  | .string => typed "string"
  | .int => typed "integer"
  | .bigInt => typed "integer"
  | .float => typed "number"
  | .decimal => oneOf [typed "number", typed "string"]
  | .boolean => typed "boolean"
  | .dateTime => formatted "string" "date-time"
  | .bytes =>
    .obj [("type", "string"), ("format", "byte"), ("description", "Base64 encoded byte array")]
  | .json => .obj []

/-- A field's name as seen from its owner. -/
def Field.place (owner : Option Text) (f : Field) : Text :=
  match owner with
  | none => f.name
  | some o => if o = "" then f.name else o ++ "." ++ f.name

namespace Model

/-- The schema of a field's type alone, whatever its flags. -/
def baseSchema (m : Model) (owner : Option Text) (f : Field) : Except Unresolved Json :=
  match f.primitive? with
  | some p => .ok p.schema
  | none => (m.resolve f.typeName (some (f.place owner))).map fun d => ref d.name

/-- The schema of a field: null admitted if it is optional, and an array of that if it is one. -/
def fieldSchema (m : Model) (style : NullStyle) (owner : Option Text) (f : Field) :
    Except Unresolved Json :=
  (m.baseSchema owner f).map fun s => arrayIf f.array (nullableIf f.optional style s)

end Model

end ResourceApi
