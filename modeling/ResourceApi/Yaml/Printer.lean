import ResourceApi.Binary64.Text
import ResourceApi.Json
import ResourceApi.Yaml.Style

/-!
# YAML texts

`Yaml.print` writes a value in block style, two blanks to a level. The items of a list that is the
value of a key stand at the column of the key; a list or map inside a list begins on the line of
its dash. An empty list or map stands on its line in brackets. A key is followed by a colon on one
line if it is short and has no line end; any other key stands after a question mark. A text that is
one unquoted scalar ends with a line of three dots.
-/

namespace ResourceApi.Yaml

/-- The spelling of numbers that are not whole. -/
def numbers : Binary64.Layout := ⟨".nan", ".inf", "-.inf", true⟩

/-- A scalar on one line; none for a text, a list or a map. -/
def word? : Json → Option String
  | .null => some "null"
  | .bool b => some (if b then "true" else "false")
  | .int n => some (toString n)
  | .real x => some (x.text numbers)
  | .arr [] => some "[]"
  | .obj [] => some "\x7b\x7d"
  | _ => none

/-- The greatest length of a key that stands before a colon on its line. -/
def longestKey : Nat := 122

/-- Does the key stand before a colon on its line? -/
def isSimpleKey (key : Text) : Bool :=
  !key.isEmpty && key.points.length ≤ longestKey && !key.points.any fun c => c.char?.any isBreak

/-- Where a value begins. -/
inductive Start where
  /-- After a mark, at a column that is also the value's indentation. -/
  | mark (column : Nat)
  /-- After a colon that ends before a column, in a map at an indentation. -/
  | colon (indent column : Nat)
  deriving Repr

namespace Start

/-- What stands before a value that goes on the same line. -/
def gap : Start → List Char
  | mark _ => []
  | colon _ _ => [' ']

/-- A text at a start. -/
def scalar (t : Text) : Start → List Char
  | mark column => Style.lines t column column
  | colon indent column => ' ' :: Style.lines t (indent + 2) (column + 1)

/-- The column of the items of a list. -/
def itemColumn : Start → Nat
  | mark column => column
  | colon indent _ => indent

/-- The column of the members of a map. -/
def memberColumn : Start → Nat
  | mark column => column
  | colon indent _ => indent + 2

/-- What stands before the first item or member at a column. -/
def lead (column : Nat) : Start → List Char
  | mark _ => []
  | colon _ _ => Style.newline column

end Start

/-- A key in a map at an indentation, up to its colon. -/
def keyText (indent : Nat) (key : Text) : List Char :=
  if isSimpleKey key then Style.line key ++ [':']
  else
    '?' :: ' ' :: (Style.lines key (indent + 2) (indent + 2) ++
      (Style.newline indent ++ [':', ' ']))

/-- Where a key's value begins. -/
def valueStart (indent : Nat) (key : Text) : Start :=
  if isSimpleKey key then .colon indent (indent + (Style.line key).length + 1)
  else .mark (indent + 2)

mutual

/-- A value at a start. -/
def printAt (start : Start) : Json → List Char
  | .str s => start.scalar s
  | .arr (x :: xs) =>
    start.lead start.itemColumn ++
      ('-' :: ' ' :: (printAt (.mark (start.itemColumn + 2)) x ++ printItems start.itemColumn xs))
  | .obj ((k, x) :: ms) =>
    start.lead start.memberColumn ++
      (keyText start.memberColumn k ++
        (printAt (valueStart start.memberColumn k) x ++
          printMembers start.memberColumn ms))
  | v => start.gap ++ ((word? v).getD "").toList

/-- Further items at a column, each on its own line. -/
def printItems (column : Nat) : List Json → List Char
  | [] => []
  | x :: xs =>
    Style.newline column ++
      ('-' :: ' ' :: (printAt (.mark (column + 2)) x ++ printItems column xs))

/-- Further members at a column, each on its own line. -/
def printMembers (column : Nat) : List (Text × Json) → List Char
  | [] => []
  | (k, x) :: ms =>
    Style.newline column ++
      (keyText column k ++
        (printAt (valueStart column k) x ++ printMembers column ms))

end

/-- Is the value one unquoted scalar? -/
def isBare : Json → Bool
  | .str s => match Style.ofText s with | .plain _ => true | _ => false
  | .arr _ | .obj _ => false
  | _ => true

/-- The text of a value. -/
def print (v : Json) : String :=
  let body :=
    match v with
    | .str s => Style.lines s 2 0
    | v => printAt (.mark 0) v
  String.ofList (body ++ '\n' :: if isBare v then ['.', '.', '.', '\n'] else [])

end ResourceApi.Yaml
