import ResourceApi.Failure
import ResourceApi.Model.Decode

/-!
# Models from definitions

A definition maps the names of enumerations to their members, and the names of structured types
and entities to their bodies. The type of a field may carry marks at its end: `?` makes the field
optional and `[]` makes it an array, in any order and number, unless the field says otherwise
itself. A section, body or list that is void counts as empty.

Declarations are read in order, enumerations first, then structured types, then entities; the
first that is invalid ends the reading.
-/

namespace ResourceApi

namespace Definition

/-! ## Shapes -/

/-- The parts of a value that has parts: the items of a list, or of a set in the order in which they
come, the keys of a map, the characters of a text. -/
def parts? (v : Data) : Option (List Data) :=
  match v.opened with
  | .list xs => some xs
  | .set xs => some xs
  | .pair a b => some [a, b]
  | .map ms => some (ms.map Prod.fst)
  | .str s => some (s.points.map fun c => .str ⟨[c]⟩)
  | .bytes b => some (b.map fun (n : Nat) => Data.int n)
  | _ => none

def parts (v : Data) : Except Failure (List Data) :=
  match parts? v with
  | some xs => .ok xs
  | none => .error (.misfit .notSequence)

/-- The parts of a value, none when it is void. -/
def partsOrEmpty (v : Data) : Except Failure (List Data) :=
  if v.isVoid then .ok [] else parts v

/-- The members of a map, none when it is void. -/
def membersOrEmpty (v : Data) : Except Failure (List (Data × Data)) :=
  if v.isVoid then .ok []
  else
    match v.opened with
    | .map ms => .ok ms
    | _ => .error (.misfit .notMap)

/-- The member of a map, null when it is absent. -/
def member (ms : List (Data × Data)) (key : Text) : Data := (Data.lookup ms key).getD .null

/-- A sequence of pairs as the members of a map. -/
def membersOfPairs : List (Data × Data) → List Data → Except Failure (List (Data × Data))
  | ms, [] => .ok ms
  | ms, x :: xs =>
    match parts? x with
    | none => .error (.misfit .notSequence)
    | some [k, v] =>
      if k.isKey then membersOfPairs (Data.insertKey ms k v) xs else .error (.misfit .notKey)
    | some _ => .error (.misfit .notPair)

/-- A map, or a sequence of pairs that stands for one. -/
def membersOf (v : Data) : Except Failure (List (Data × Data)) :=
  match v.opened with
  | .map ms => .ok ms
  | _ => (parts v).bind (membersOfPairs [])

/-! ## Type marks -/

/-- A type name without its marks, and which marks it had. -/
structure MarkedType where
  base : Text
  optional : Bool
  array : Bool
  deriving DecidableEq, Repr, Inhabited

/-- Takes marks off a type name that is given from its end. -/
def takeMarks : List CodePoint → List CodePoint × Bool × Bool
  | .char '?' :: cs =>
    let (rest, _, array) := takeMarks cs
    (rest, true, array)
  | .char ']' :: .char '[' :: cs =>
    let (rest, optional, _) := takeMarks cs
    (rest, optional, true)
  | cs => (cs, false, false)

def MarkedType.ofText (s : Text) : MarkedType :=
  let (rest, optional, array) := takeMarks s.points.reverse
  ⟨⟨rest.reverse⟩, optional, array⟩

/-- The members of a field with the marks of its type written out. A flag that the field gives
itself stands. -/
def expandType (ms : List (Data × Data)) : Except Misfit (List (Data × Data)) := do
  let marked := MarkedType.ofText (← ((Data.lookup ms "type").getD (.str "")).text)
  let ms := if marked.optional then Data.insertNew ms "optional" (.bool true) else ms
  let ms := if marked.array then Data.insertNew ms "array" (.bool true) else ms
  return Data.insertKey ms (.str "type") (.str marked.base)

/-! ## Declarations -/

def textKeys (ms : List (Data × Data)) : Bool :=
  ms.all fun m => match m.1 with | .str _ => true | _ => false

/-- A field from its members, which must all have text keys. -/
def fieldOfMembers (ms : List (Data × Data)) : Except Failure Field :=
  if textKeys ms then (Decode.fieldMembers ms).toExcept (some .definition) "EntityField"
  else .error (.misfit .keyNotText)

def field (v : Data) : Except Failure Field := do
  fieldOfMembers (← (expandType (← membersOf v)).mapError .misfit)

def fields (v : Data) : Except Failure (List Field) := (partsOrEmpty v).bind (·.mapM field)

def enum (name members : Data) : Except Failure EnumDecl :=
  (partsOrEmpty members).bind fun xs =>
    (EnumDecl.mk
      <$> Checked.under (.key "name") (Checked.text name)
      <*> Checked.under (.key "members") (Checked.list Checked.text (.list xs))).toExcept
      (some .definition) "EnumDef"

def type (name body : Data) : Except Failure TypeDecl := do
  let ms ← membersOrEmpty body
  let fs ← fields (member ms "fields")
  (TypeDecl.mk <$> Checked.under (.key "name") (Checked.text name) <*> pure fs).toExcept
    (some .definition) "TypeDef"

def entity (name body : Data) : Except Failure Entity := do
  let ms ← membersOrEmpty body
  let fs ← fields (member ms "fields")
  let ignored := !(member ms "ignore").isVoid
  let access := member ms "access"
  let access := if access.isVoid then Data.list [] else access
  (Entity.mk
    <$> Checked.under (.key "name") (Checked.text name)
    <*> pure fs
    <*> pure ignored
    <*> Checked.under (.key "meta") (Checked.nullable Decode.resourceMeta (member ms "meta"))
    <*> Checked.under (.key "access") (Checked.list Decode.accessRule access)).toExcept
    (some .definition) "Entity"

/-- The declarations of a section. -/
def declarations {α : Type} (doc : List (Data × Data)) (key : Text)
    (read : Data → Data → Except Failure α) : Except Failure (List α) :=
  (membersOrEmpty (member doc key)).bind (·.mapM fun (name, body) => read name body)

end Definition

/-- The model that a definition describes. -/
def Model.ofDefinition (doc : List (Data × Data)) : Except Failure Model := do
  let enums ← Definition.declarations doc "enums" Definition.enum
  let types ← Definition.declarations doc "typedefs" Definition.type
  let entities ← Definition.declarations doc "entities" Definition.entity
  return ⟨entities, enums, types⟩

/-- The model that a loaded value describes, if it is a definition at all. -/
def Model.ofData (v : Data) : Except Failure Model :=
  match v.opened with
  | .map doc => Model.ofDefinition doc
  | _ => .error (.misfit .notMap)

end ResourceApi
