import ResourceApi.Checked
import ResourceApi.Model.Openness
import ResourceApi.Text.Blank

/-!
# Models from loaded values

Each kind of declaration is a record. Flags that have a short outer name (`id`, `default`,
`tagDescription`) may be given under it or under their own; keys that no member is read from are
ignored.
-/

namespace ResourceApi

open Checked

namespace Decode

def flag (ms : List (Data × Data)) (n : Name) : Checked Bool := defaulted ms n false bool

/-- A field, from its members. -/
def fieldMembers (ms : List (Data × Data)) : Checked Field :=
  Field.mk
    <$> required ms (.plain "name") text
    <*> required ms (.plain "type") text
    <*> flag ms (.plain "array")
    <*> flag ms (.plain "optional")
    <*> flag ms ⟨"id", "is_id"⟩
    <*> flag ms (.plain "foreign_key")
    <*> flag ms ⟨"default", "has_default"⟩

def field : Data → Checked Field := record fieldMembers

def enum : Data → Checked EnumDecl :=
  record fun ms => EnumDecl.mk
    <$> required ms (.plain "name") text
    <*> required ms (.plain "members") (list text)

def type : Data → Checked TypeDecl :=
  record fun ms => TypeDecl.mk
    <$> required ms (.plain "name") text
    <*> defaulted ms (.plain "fields") [] (list field)

/-- The names that a comma-separated text lists: trimmed, the empty ones left out. -/
def splitOperations (s : Text) : List Text :=
  ((Text.splitOn (.char ',') s.points).map (Text.trim Text.isBlank)).filterMap fun cs =>
    if cs = [] then none else some ⟨cs⟩

/-- The operations of a rule, as a list or as a comma-separated text. -/
def operations : Data → Checked (List Text)
  | .str s => .ok (splitOperations s)
  | v => list text v

/-- A condition: a truth value, any text, or a number that stands for a truth value. -/
def condition : Data → Checked Condition
  | .str s => .ok (.expression s)
  | v =>
    match bool v, text v with
    | .ok b, _ => .ok (.literal b)
    | .bad _, .ok s => .ok (.expression s)
    | .bad is, .bad js => .bad ((under (.key "bool") (.bad is : Checked Unit)).issues ++
        (under (.key "str") (.bad js : Checked Unit)).issues)

def accessRule : Data → Checked AccessRule :=
  record fun ms => AccessRule.mk
    <$> defaulted ms (.plain "kind") "allow" text
    <*> required ms (.plain "operations") operations
    <*> defaulted ms (.plain "condition") (.literal true) condition

/-- A security requirement or a list of them, kept as it is given. -/
def security (v : Data) : Checked Data :=
  match list anyMap v, anyMap v with
  | .ok _, _ => .ok v
  | .bad _, .ok _ => .ok v
  | .bad is, .bad js =>
    .bad ((under (.key "list[dict[any,any]]") (.bad is : Checked Unit)).issues ++
      (under (.key "dict[any,any]") (.bad js : Checked Unit)).issues)

def resourceMeta : Data → Checked ResourceMeta :=
  record fun ms => ResourceMeta.mk
    <$> defaulted ms ⟨"tagDescription", "tag_description"⟩ none (nullable text)
    <*> defaulted ms (.plain "security") none (nullable security)

def entity : Data → Checked Entity :=
  record fun ms => Entity.mk
    <$> required ms (.plain "name") text
    <*> defaulted ms (.plain "fields") [] (list field)
    <*> flag ms (.plain "ignored")
    <*> defaulted ms (.plain "meta") none (nullable resourceMeta)
    <*> defaulted ms (.plain "access") [] (list accessRule)

def openness : Data → Checked Openness :=
  record fun ms => Openness.mk
    <$> flag ms (.plain "create")
    <*> flag ms (.plain "read")
    <*> flag ms (.plain "update")
    <*> flag ms (.plain "delete")

def model : Data → Checked Model :=
  record fun ms => Model.mk
    <$> defaulted ms (.plain "entities") [] (list entity)
    <*> defaulted ms (.plain "enums") [] (list enum)
    <*> defaulted ms (.plain "typedefs") [] (list type)

end Decode

end ResourceApi
