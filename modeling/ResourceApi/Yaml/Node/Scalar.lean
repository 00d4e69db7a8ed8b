import ResourceApi.Data
import ResourceApi.Text.Base64
import ResourceApi.Yaml.Node
import ResourceApi.Yaml.Number

/-!
# What scalars stand for

A text stands for a value by its tag. A tag that is written may not fit the text; then the text
stands for nothing. A map can stand in the place of a scalar: its text is that of the value of its
own key, the one that is marked as such.
-/

namespace ResourceApi.Yaml

namespace Scalar

def truth? (cs : List Char) : Option Bool :=
  match String.ofList (cs.map Char.toLower) with
  | "yes" | "true" | "on" => some true
  | "no" | "false" | "off" => some false
  | _ => none

def moment (cs : List Char) : Except Misfit Data :=
  match Timestamp.read? (Timestamp.unterminated cs) with
  | none => .error .malformedMoment
  | some t =>
    match t.time with
    | none => if t.date.IsValid then .ok (.date t.date) else .error .notMoment
    | some m => if m.IsValid then .ok (.moment m) else .error .notMoment

/-- What is read from the characters of a text; a misfit if it has none. -/
def ofChars {α : Type} (t : Text) (otherwise : Misfit) (read : List Char → Except Misfit α) :
    Except Defect α :=
  match t.chars? with
  | some cs => (read cs).mapError .misfit
  | none => .error (.misfit otherwise)

/-- What a text stands for under a tag. -/
def data (tag : Tag) (t : Text) : Except Defect Data :=
  match tag with
  | .null => .ok .null
  | .text => .ok (.str t)
  | .truth => ofChars t .notTruth fun cs =>
    match truth? cs with
    | some b => .ok (.bool b)
    | none => .error .notTruth
  | .integer => ofChars t .notNumber fun cs => (Number.integer cs).map Data.int
  | .real => ofChars t .notNumber fun cs => (Number.real cs).map Data.real
  | .moment => ofChars t .malformedMoment moment
  | .octets =>
    match t.chars?.bind Text.octets? with
    | some octets => .ok (.bytes octets)
    | none => .error .malformed
  | _ => .error .malformed

/-- Is the tag one of scalars? -/
def isScalar : Tag → Bool
  | .null | .text | .truth | .integer | .real | .moment | .octets => true
  | _ => false

end Scalar

/-- The text of a node where a scalar is due, in at most so many steps from map to map. -/
def scalarText (nodes : Array Node) : Nat → Node → Except Defect Text
  | _, .scalar _ t => .ok t
  | _, .list _ _ => .error .malformed
  | 0, .map _ _ => .error (.misfit .endless)
  | fuel + 1, .map _ ms =>
    match ms.find? fun m => (nodeAt nodes m.1).tag = .own with
    | some (_, v) => scalarText nodes fuel (nodeAt nodes v)
    | none => .error .malformed

/-- What a node stands for under a tag of scalars. A moment must be written as a scalar. -/
def scalarData (nodes : Array Node) (n : Node) : Except Defect Data :=
  if Scalar.isScalar n.tag then do
    let t ← scalarText nodes nodes.size n
    match n, n.tag with
    | .map _ _, .moment => throw (.misfit .notText)
    | _, tag => Scalar.data tag t
  else .error .malformed

end ResourceApi.Yaml
