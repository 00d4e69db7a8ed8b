import ResourceApi.Data
import ResourceApi.Yaml.Kind
import ResourceApi.Yaml.Lexeme

/-!
# Nodes

A text stands for a graph of nodes: its parts are nodes in turn, and a node with an anchor can be a
part in several places, even inside itself. So the nodes of a text stand in a table, and a part is
named by its number there. Every node has a tag, which says what its content means: the tag that is
written, or else the one that the node's form gives.

Two things are left to the reader of a text (`Reader`): how deep lists and maps may lie in each
other, and in which order the items of a set come.
-/

namespace ResourceApi.Yaml

/-- What a node's content means. -/
inductive Tag where
  | null | truth | integer | real | moment | octets | text
  | list | map | set | pairs
  | merge | own
  | unknown
  deriving DecidableEq, Repr, Inhabited

namespace Tag

/-- The names of the tags that every text may use, after their common beginning. -/
def standard : List (String × Tag) := [
  ("null", .null), ("bool", .truth), ("int", .integer), ("float", .real), ("timestamp", .moment),
  ("binary", .octets), ("str", .text), ("seq", .list), ("map", .map), ("set", .set),
  ("omap", .pairs), ("pairs", .pairs), ("merge", .merge), ("value", .own)]

/-- The common beginning of the names of standard tags. -/
def standardBeginning : String := "tag:yaml.org,2002:"

/-- The tag of a full name. -/
def ofName (name : List Char) : Tag :=
  let beginning := standardBeginning.toList
  if beginning.isPrefixOf name then
    (standard.lookup (String.ofList (name.drop beginning.length))).getD .unknown
  else .unknown

/-- The tag of an unquoted scalar of a kind. -/
def ofKind : Kind → Tag
  | .null => .null
  | .truth => .truth
  | .integer => .integer
  | .real => .real
  | .moment => .moment
  | .merge => .merge
  | .own => .own
  | .reserved => .unknown
  | .text => .text

end Tag

/-- A node; its parts are named by their numbers. -/
inductive Node where
  | scalar (tag : Tag) (text : Text)
  | list (tag : Tag) (items : List Nat)
  | map (tag : Tag) (members : List (Nat × Nat))
  deriving DecidableEq, Repr, Inhabited

namespace Node

/-- What stands for a node that is left out, and for one that is still open. -/
def absent : Node := .scalar .null ""

def tag : Node → Tag
  | scalar t _ => t
  | list t _ => t
  | map t _ => t

end Node

/-- The nodes of a text. -/
structure Graph where
  nodes : Array Node
  /-- The number of the outermost node. -/
  root : Nat
  deriving Repr, Inhabited

/-- The node of a number. -/
def nodeAt (nodes : Array Node) (i : Nat) : Node := (nodes[i]?).getD .absent

/-- What is written before a node. -/
structure Properties where
  anchor : Option (List Char) := none
  /-- The full name of a tag; one exclamation mark asks for the tag that the form gives. -/
  tag : Option (List Char) := none
  /-- The tag that was read has a handle that stands for nothing. -/
  hasStrayTag : Bool := false
  deriving Repr, Inhabited

namespace Properties

def isEmpty (p : Properties) : Bool := p.anchor.isNone && p.tag.isNone

/-- The tag of a node with these properties whose form gives a tag. -/
def tagOr (p : Properties) (given : Tag) : Tag :=
  match p.tag with
  | none => given
  | some name => if name = ['!'] then given else Tag.ofName name

/-- A scalar with these properties. A lone exclamation mark makes a quoted scalar be read as if it
had no quotes. -/
def scalar (p : Properties) (text : Text) (isPlain : Bool) : Node :=
  let given := if isPlain || p.tag.isSome then Tag.ofKind (Kind.ofText text) else .text
  .scalar (p.tagOr given) text

/-- A scalar that is left out, with these properties. -/
def absent (p : Properties) : Node := p.scalar "" true

end Properties

/-- What is left to the reader of a text. -/
structure Reader where
  /-- The greatest number of lists and maps that may be open at once. -/
  maxDepth : Nat
  /-- The items of the set of a number, given as they are written, in the order they come in. -/
  arrange : Nat → List Data → List Data
  arrange_perm : ∀ i xs, (arrange i xs).Perm xs

/-- A reader that leaves the items of sets as they are written. -/
def Reader.standard : Reader where
  maxDepth := 490
  arrange _ xs := xs
  arrange_perm _ xs := .refl xs

end ResourceApi.Yaml
