import ResourceApi.Data

/-!
# Models of resources

A model declares entities, enumerations and structured types, in order. A field names its type:
one of the primitive types, or a declaration. Names need not be distinct; looking a name up finds
an entity before an enumeration and an enumeration before a structured type, and among equals the
first.
-/

namespace ResourceApi

/-! ## Fields -/

/-- The built-in scalar types. -/
inductive Primitive where
  | string | int | bigInt | float | decimal | boolean | dateTime | bytes | json
  deriving DecidableEq, Repr, Inhabited

namespace Primitive

/-- The name a field refers to the type by. -/
def name : Primitive → Text
  | .string => "String"
  | .int => "Int"
  | .bigInt => "BigInt"
  | .float => "Float"
  | .decimal => "Decimal"
  | .boolean => "Boolean"
  | .dateTime => "DateTime"
  | .bytes => "Bytes"
  | .json => "Json"

def all : List Primitive :=
  [.string, .int, .bigInt, .float, .decimal, .boolean, .dateTime, .bytes, .json]

def ofName? (s : Text) : Option Primitive := all.find? fun p => p.name == s

/-- Has the type an order that comparison filters can use? -/
def isOrdered : Primitive → Bool
  | .int | .bigInt | .float | .decimal | .dateTime => true
  | _ => false

end Primitive

/-- A field of an entity or structured type. -/
structure Field where
  name : Text
  /-- The name of a primitive type or a declaration. -/
  typeName : Text
  array : Bool := false
  optional : Bool := false
  isId : Bool := false
  foreignKey : Bool := false
  hasDefault : Bool := false
  deriving DecidableEq, Repr, Inhabited

/-- The primitive type of a field; none when it names a declaration. -/
def Field.primitive? (f : Field) : Option Primitive := Primitive.ofName? f.typeName

/-! ## Access rules -/

/-- When a rule applies: always, never, or under a condition decided elsewhere. -/
inductive Condition where
  | literal (holds : Bool)
  | expression (source : Text)
  deriving DecidableEq, Repr, Inhabited

/-- A rule that allows or denies operations. -/
structure AccessRule where
  kind : Text := "allow"
  operations : List Text
  condition : Condition := .literal true
  deriving DecidableEq, Repr, Inhabited

/-- Does the rule speak about an operation, by name or by speaking about all? -/
def AccessRule.covers (r : AccessRule) (operation : Text) : Bool :=
  r.operations.contains operation || r.operations.contains "all"

/-! ## Declarations -/

/-- An enumeration of texts. -/
structure EnumDecl where
  name : Text
  members : List Text
  deriving DecidableEq, Repr, Inhabited

/-- A structured scalar type. -/
structure TypeDecl where
  name : Text
  fields : List Field := []
  deriving DecidableEq, Repr, Inhabited

/-- What an entity says about its resource. -/
structure ResourceMeta where
  tagDescription : Option Text := none
  /-- A security requirement, or a list of them. -/
  security : Option Data := none
  deriving Repr, Inhabited

/-- A record type that is exposed as a resource. -/
structure Entity where
  name : Text
  fields : List Field := []
  ignored : Bool := false
  resource : Option ResourceMeta := none
  access : List AccessRule := []
  deriving Repr, Inhabited

/-- The identifying fields of an entity, in order. -/
def Entity.idFields (e : Entity) : List Field := e.fields.filter (·.isId)

/-- All declarations, in order. -/
structure Model where
  entities : List Entity := []
  enums : List EnumDecl := []
  types : List TypeDecl := []
  deriving Repr, Inhabited

/-- What a type name can refer to. -/
inductive Declaration where
  | entity (e : Entity)
  | enum (d : EnumDecl)
  | type (d : TypeDecl)
  deriving Repr, Inhabited

def Declaration.name : Declaration → Text
  | .entity e => e.name
  | .enum d => d.name
  | .type d => d.name

/-- A type name that refers to nothing, and the field that uses it. -/
structure Unresolved where
  typeName : Text
  owner : Option Text
  deriving DecidableEq, Repr, Inhabited

namespace Model

/-- The first entity of a name. -/
def entity? (m : Model) (name : Text) : Option Entity := m.entities.find? (·.name == name)

/-- The declaration of a name. -/
def resolve? (m : Model) (name : Text) : Option Declaration :=
  match m.entity? name with
  | some e => some (.entity e)
  | none =>
    match m.enums.find? (·.name == name) with
    | some d => some (.enum d)
    | none => (m.types.find? (·.name == name)).map .type

/-- The declaration of a name that some owner uses. -/
def resolve (m : Model) (name : Text) (owner : Option Text) : Except Unresolved Declaration :=
  match m.resolve? name with
  | some d => .ok d
  | none => .error ⟨name, owner⟩

/-- Does the field refer to an entity? Such a field is a relationship, not an attribute. -/
def isRelationship (m : Model) (f : Field) : Bool :=
  f.primitive?.isNone && (m.entity? f.typeName).isSome

/-- The owner and fields of every declaration that has fields. -/
def fieldOwners (m : Model) : List (Text × List Field) :=
  m.entities.map (fun e => (e.name, e.fields)) ++ m.types.map (fun d => (d.name, d.fields))

/-- Checks one use of a type name. -/
def checkField (m : Model) (owner : Text) (f : Field) : Except Unresolved Unit :=
  match f.primitive? with
  | some _ => .ok ()
  | none => (m.resolve f.typeName (some (owner ++ "." ++ f.name))).map fun _ => ()

/-- Checks that every type name of the model refers to something; the first that does not is the
error. -/
def checkReferences (m : Model) : Except Unresolved Unit :=
  m.fieldOwners.forM fun (owner, fields) => fields.forM (m.checkField owner)

end Model

end ResourceApi
