import ResourceApi.Assoc
import ResourceApi.Binary64
import ResourceApi.Text

/-!
# JSON values

A JSON value whose objects keep the order of their members. Schemas, path items and whole
documents are such values. Every walk over a value is one function on values, one on the items
of a list and one on the members of an object.
-/

namespace ResourceApi

/-- A JSON value; members stand in order of first insertion. -/
inductive Json where
  | null
  | bool (b : Bool)
  | int (n : Int)
  | real (x : Binary64)
  | str (s : Text)
  | arr (items : List Json)
  | obj (members : List (Text × Json))
  deriving Repr, Inhabited

namespace Json

instance : Coe Text Json := ⟨Json.str⟩

/-- A list of texts. -/
def texts (xs : List Text) : Json := .arr (xs.map Json.str)

/-- A text, or null when there is none. -/
def optional : Option Text → Json
  | some s => .str s
  | none => .null

/-- A single member of an object. -/
def member (key : Text) (v : Json) : List (Text × Json) := [(key, v)]

/-- A member of an object that is left out when it has no value. -/
def memberIf (key : Text) : Option Json → List (Text × Json)
  | some v => [(key, v)]
  | none => []

/-- The member of an object under a key. -/
def get? : Json → Text → Option Json
  | .obj ms, k => Assoc.get? ms k
  | _, _ => none

def str? : Json → Option Text
  | .str s => some s
  | _ => none

def members? : Json → Option (List (Text × Json))
  | .obj ms => some ms
  | _ => none

def items? : Json → Option (List Json)
  | .arr xs => some xs
  | _ => none

/-! ## Equality -/

mutual

/-- Are the values equal, the order of members included? -/
def same : Json → Json → Bool
  | .null, .null => true
  | .bool a, .bool b => a == b
  | .int a, .int b => a == b
  | .real a, .real b => decide (a = b)
  | .str a, .str b => a == b
  | .arr xs, .arr ys => sameItems xs ys
  | .obj ms, .obj ns => sameMembers ms ns
  | _, _ => false

def sameItems : List Json → List Json → Bool
  | [], [] => true
  | x :: xs, y :: ys => same x y && sameItems xs ys
  | _, _ => false

def sameMembers : List (Text × Json) → List (Text × Json) → Bool
  | [], [] => true
  | (k, x) :: ms, (l, y) :: ns => k == l && same x y && sameMembers ms ns
  | _, _ => false

end

end Json

end ResourceApi
