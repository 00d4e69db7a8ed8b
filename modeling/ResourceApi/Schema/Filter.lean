import ResourceApi.Schema

/-!
# Filter parameters

A collection can be filtered by query parameters that are named after a field and an operator,
as in `filter[title$contains]`. Which operators a field has depends on the field, on what its type
refers to, and on whether the entity has more than one identifying field (`filterOps`); the
parameters of an entity are those of its fields, in order.
-/

namespace ResourceApi

open Schema

/-- The operators of filters. -/
inductive FilterOp where
  | id | equal
  | less | lessEqual | greater | greaterEqual
  | contains | containsAnyCase | search | startsWith | endsWith
  | has | hasEvery | hasSome | isEmpty
  deriving DecidableEq, Repr, Inhabited

namespace FilterOp

/-- What follows the field's name. -/
def suffix : FilterOp → Text
  | .id | .equal => ""
  | .less => "$lt"
  | .lessEqual => "$lte"
  | .greater => "$gt"
  | .greaterEqual => "$gte"
  | .contains => "$contains"
  | .containsAnyCase => "$icontains"
  | .search => "$search"
  | .startsWith => "$startsWith"
  | .endsWith => "$endsWith"
  | .has => "$has"
  | .hasEvery => "$hasEvery"
  | .hasSome => "$hasSome"
  | .isEmpty => "$isEmpty"

def label : FilterOp → Text
  | .id => "Id filter"
  | .equal => "Equality filter"
  | .less => "Less-than filter"
  | .lessEqual => "Less-than or equal filter"
  | .greater => "Greater-than filter"
  | .greaterEqual => "Greater-than or equal filter"
  | .contains => "String contains filter"
  | .containsAnyCase => "String case-insensitive contains filter"
  | .search => "String full-text search filter"
  | .startsWith => "String startsWith filter"
  | .endsWith => "String endsWith filter"
  | .has => "Collection contains filter"
  | .hasEvery => "Collection contains-all filter"
  | .hasSome => "Collection contains-any filter"
  | .isEmpty => "Collection is empty filter"

def comparisons : List FilterOp := [.less, .lessEqual, .greater, .greaterEqual]

def textual : List FilterOp := [.contains, .containsAnyCase, .search, .startsWith, .endsWith]

def collective : List FilterOp := [.has, .hasEvery, .hasSome, .isEmpty]

end FilterOp

/-- A query parameter that filters a collection. -/
structure FilterParameter where
  name : Text
  description : Text
  schema : Json
  deriving Repr, Inhabited

def FilterParameter.toJson (p : FilterParameter) : Json :=
  .obj [("name", .str p.name), ("required", .bool false), ("description", .str p.description),
    ("in", "query"), ("style", "form"), ("explode", .bool false), ("schema", p.schema)]

namespace Model

/-- The operators of a field. A foreign key is filtered through its relationship, and the only
identifying field has a filter of its own. -/
def filterOps (m : Model) (compoundId : Bool) (f : Field) : List FilterOp :=
  if f.foreignKey then []
  else if f.isId && !compoundId then [.id]
  else if m.isRelationship f then [.equal]
  else if f.array then .equal :: FilterOp.collective
  else
    match f.primitive? with
    | some .string => .equal :: FilterOp.textual
    | some p => if p.isOrdered then .equal :: FilterOp.comparisons else [.equal]
    | none => [.equal]

/-- The schema of the values that a field is compared with. -/
def filterValueSchema (m : Model) (owner : Text) (f : Field) : Except Unresolved Json :=
  match f.primitive? with
  | some .json => .ok (formatted "string" "json")
  | some p => .ok p.schema
  | none =>
    (m.resolve f.typeName (some (owner ++ "." ++ f.name))).map fun
      | .enum d => ref d.name
      | .type _ => formatted "string" "json"
      | .entity _ => typed "string"

def filterName (f : Field) : FilterOp → Text
  | .id => "filter[id]"
  | op => "filter[" ++ f.name ++ op.suffix ++ "]"

def filterDescription (f : Field) : FilterOp → Text
  | .id => FilterOp.id.label
  | op => op.label ++ " for \"" ++ f.name ++ "\""

/-- The schema of a parameter, given that of the field's values. -/
def filterSchema (f : Field) (value : Json) : FilterOp → Json
  | .isEmpty => typed "boolean"
  | .equal => arrayIf f.array value
  | .hasEvery | .hasSome => arrayOf value
  | _ => value

def filterParameter (f : Field) (value : Json) (op : FilterOp) : FilterParameter :=
  ⟨filterName f op, filterDescription f op, filterSchema f value op⟩

/-- The parameters of one field. -/
def fieldFilters (m : Model) (owner : Text) (compoundId : Bool) (f : Field) :
    Except Unresolved (List FilterParameter) :=
  match m.filterOps compoundId f with
  | [] => .ok []
  | ops => (m.filterValueSchema owner f).map fun value => ops.map (filterParameter f value)

/-- The parameters of an entity, field by field. -/
def filters (m : Model) (e : Entity) : Except Unresolved (List FilterParameter) :=
  (e.fields.mapM (m.fieldFilters e.name (e.idFields.length > 1))).map List.flatten

end Model

end ResourceApi
