import ResourceApi.Data.Moment
import ResourceApi.Json

/-!
# Loaded values

What a definition or options text holds once it is read: scalars of several kinds, lists, maps
whose keys may be any scalar, and the rarer kinds a text can name explicitly. A JSON value is such
a value with text keys (`ofJson`).

A list or map may hold itself. It then stands as a `knot` with a label, and wherever it is found
inside its own body there is `again` with that label. `opened` shows such a value as the list or
map that it is, with the knot itself in every such place; nothing else looks inside a knot.

Two keys are the same key when `sameKey` says so; numbers and truth values are compared by value,
so `1`, `1.0` and true are one key.
-/

namespace ResourceApi

/-- A loaded value. -/
inductive Data where
  | null
  | bool (b : Bool)
  | int (n : Int)
  | real (x : Binary64)
  | str (s : Text)
  | bytes (octets : List Nat)
  | date (d : Date)
  | moment (t : Moment)
  | list (items : List Data)
  | pair (first second : Data)
  /-- A set, with its items in the order in which they come. -/
  | set (items : List Data)
  | map (members : List (Data × Data))
  /-- A list or map that holds itself. -/
  | knot (label : Nat) (body : Data)
  /-- The knot of a label around this place. -/
  | again (label : Nat)
  deriving Repr, Inhabited

namespace Data

mutual

/-- A JSON value as a loaded value. -/
def ofJson : Json → Data
  | .null => .null
  | .bool b => .bool b
  | .int n => .int n
  | .real x => .real x
  | .str s => .str s
  | .arr xs => .list (ofItems xs)
  | .obj ms => .map (ofMembers ms)

def ofItems : List Json → List Data
  | [] => []
  | x :: xs => ofJson x :: ofItems xs

def ofMembers : List (Text × Json) → List (Data × Data)
  | [] => []
  | (k, x) :: ms => (.str k, ofJson x) :: ofMembers ms

end

/-- Values that count as absent where a default takes their place: null, false, zero and
everything empty. -/
def isVoid : Data → Bool
  | .null => true
  | .bool b => !b
  | .int n => n == 0
  | .real x => x.isZero
  | .str s => s == ""
  | .bytes b => b.isEmpty
  | .list xs => xs.isEmpty
  | .set xs => xs.isEmpty
  | .map ms => ms.isEmpty
  | .date _ | .moment _ | .pair _ _ | .knot _ _ | .again _ => false

/-! ## Knots -/

mutual

/-- Puts a value in every place of a label. -/
def fill (label : Nat) (v : Data) : Data → Data
  | .again l => if l = label then v else .again l
  | .knot l body => if l = label then .knot l body else .knot l (fill label v body)
  | .list xs => .list (fillItems label v xs)
  | .pair a b => .pair (fill label v a) (fill label v b)
  | .map ms => .map (fillMembers label v ms)
  | d => d

def fillItems (label : Nat) (v : Data) : List Data → List Data
  | [] => []
  | x :: xs => fill label v x :: fillItems label v xs

def fillMembers (label : Nat) (v : Data) : List (Data × Data) → List (Data × Data)
  | [] => []
  | (k, x) :: ms => (k, fill label v x) :: fillMembers label v ms

end

/-- The value itself; a knot as the list or map that it is. -/
def opened : Data → Data
  | .knot l body => fill l (.knot l body) body
  | v => v

/-! ## Keys -/

/-- The value of a number or truth value, as a fraction. -/
def fraction? : Data → Option (Int × Nat)
  | .bool b => some (if b then 1 else 0, 1)
  | .int n => some (n, 1)
  | .real x => x.toFraction?
  | _ => none

/-- Do two values name the same key? -/
def sameKey : Data → Data → Bool
  | .null, .null => true
  | .str s, .str t => s == t
  | .bytes s, .bytes t => s == t
  | .date d, .date e => d == e
  | .moment t, .moment u => t.same u
  | .real (.infinite a), .real (.infinite b) => a == b
  | a, b =>
    match a.fraction?, b.fraction? with
    | some (m, d), some (n, e) => m * (e : Int) == n * (d : Int)
    | _, _ => false

/-- May the value be a key? -/
def isKey : Data → Bool
  | .list _ | .set _ | .map _ | .knot _ _ | .again _ => false
  | .pair a b => isKey a && isKey b
  | _ => true

/-- Writes a key of a map: in place when it is present, at the end when it is new. -/
def insertKey : List (Data × Data) → Data → Data → List (Data × Data)
  | [], a, b => [(a, b)]
  | (k, v) :: m, a, b => if sameKey k a then (k, b) :: m else (k, v) :: insertKey m a b

/-- The member of a map under a text key. -/
def lookup (ms : List (Data × Data)) (key : Text) : Option Data :=
  (ms.find? fun m => match m.1 with | .str k => k == key | _ => false).map Prod.snd

/-- Writes a text key only when it is absent. -/
def insertNew (ms : List (Data × Data)) (key : Text) (v : Data) : List (Data × Data) :=
  if (lookup ms key).isSome then ms else insertKey ms (.str key) v

end Data

end ResourceApi
