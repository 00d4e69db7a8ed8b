import ResourceApi.Yaml.Node.Merge
import ResourceApi.Yaml.Node.Scalar

/-!
# What nodes hold

Every node that can be reached from the outermost one is read once, whatever the number of its
places. A scalar is read where it is met; a list or map is met first and read later, in the order
of meeting, so that a text is read from the outside inwards and the first defect on that way is the
text's. What a map takes in from others it takes in when it is read.

A key stands for a value that can be a key, and of members with one key the last one counts, in the
place of the first; the keys of a set come in the reader's order. Two keys that are no number are
one key only if they are spelled as that word or are one node.
-/

namespace ResourceApi.Yaml

/-- What a node holds: a whole value, or parts that are nodes in turn. -/
inductive Content where
  | whole (d : Data)
  | list (items : List Nat)
  | pairs (items : List (Nat × Nat))
  | set (keys : List Data)
  | map (members : List (Data × Nat))
  /-- A list or map that is met but not read. -/
  | met
  deriving Repr, Inhabited

/-- The reading of a graph. -/
structure Reading where
  nodes : Array Node
  /-- No more members of maps than this are marked. -/
  marked : Nat
  /-- What the nodes met so far hold. -/
  contents : Array (Option Content)
  /-- The lists and maps to read next, and those to read after them, in reverse. -/
  now : List Nat := []
  later : List Nat := []
  deriving Repr

namespace Reading

def contentAt (r : Reading) (i : Nat) : Option Content := (r.contents[i]?).join

def setContent (r : Reading) (i : Nat) (c : Content) : Reading :=
  { r with contents := r.contents.setIfInBounds i (some c) }

/-- Is the tag one of lists or maps? -/
def isCollection : Tag → Bool
  | .list | .map | .set | .pairs => true
  | _ => false

/-- Meets a node. -/
def meet (r : Reading) (i : Nat) : Except Defect Reading :=
  if (r.contentAt i).isSome then .ok r
  else
    let n := nodeAt r.nodes i
    if isCollection n.tag then .ok { r.setContent i .met with later := i :: r.later }
    else (scalarData r.nodes n).map fun d => r.setContent i (.whole d)

/-! ## Keys -/

/-- Is the node spelled as the word for what is no number? -/
def isNanWord (r : Reading) (i : Nat) : Bool :=
  match scalarText r.nodes r.nodes.size (nodeAt r.nodes i) with
  | .ok t => t.chars?.any Number.isNanWord
  | .error _ => false

/-- Do two nodes with their values stand for one key? -/
def sameKey (r : Reading) (a b : Nat × Data) : Bool :=
  match a.2, b.2 with
  | .real .nan, .real .nan => a.1 == b.1 || (r.isNanWord a.1 && r.isNanWord b.1)
  | x, y => Data.sameKey x y

/-- Members of a map: the node and value of each key, and the node of its value. -/
abbrev Members := List ((Nat × Data) × Nat)

/-- Writes a key: in place when it is present, at the end when it is new. -/
def insert (r : Reading) (key : Nat × Data) (value : Nat) : Members → Members
  | [] => [(key, value)]
  | (k, v) :: ms =>
    if r.sameKey k key then (k, value) :: ms else (k, v) :: insert r key value ms

/-! ## Lists and maps -/

/-- Meets a node that stands as a key; it must be a whole value. -/
def meetKey (r : Reading) (i : Nat) : Except Defect (Data × Reading) := do
  let r ← r.meet i
  match r.contentAt i with
  | some (.whole d) => return (d, r)
  | _ => throw .malformed

/-- Meets the members of a map one after the other. -/
def meetMembers : Reading → Members → List (Nat × Nat) → Except Defect (Reading × Members)
  | r, found, [] => .ok (r, found)
  | r, found, (k, v) :: ms => do
    let (key, r) ← r.meetKey k
    let r ← r.meet v
    meetMembers r (r.insert (k, key) v found) ms

/-- Meets maps of one member each, as pairs. -/
def meetPairs : Reading → List (Nat × Nat) → List Nat →
    Except Defect (Reading × List (Nat × Nat))
  | r, found, [] => .ok (r, found.reverse)
  | r, found, i :: is =>
    match nodeAt r.nodes i with
    | .map _ [(k, v)] => do
      let r ← r.meet k
      let r ← r.meet v
      meetPairs r ((k, v) :: found) is
    | _ => .error .malformed

/-- The members of the map of a number, after what it takes in. -/
def readMembers (r : Reading) (i : Nat) : Except Defect (Reading × Members) :=
  match nodeAt r.nodes i, takeIn? r.marked r.nodes i with
  | .map _ _, some nodes => meetMembers { r with nodes } [] (Merge.membersAt nodes i)
  | _, _ => .error .malformed

/-- Reads a list or map, which has been met. -/
def read (reader : Reader) (r : Reading) (i : Nat) : Except Defect Reading :=
  match (nodeAt r.nodes i).tag, nodeAt r.nodes i with
  | .list, .list _ xs => do
    let r ← xs.foldlM meet r
    return r.setContent i (.list xs)
  | .pairs, .list _ xs => do
    let (r, pairs) ← meetPairs r [] xs
    return r.setContent i (.pairs pairs)
  | .map, _ => do
    let (r, ms) ← r.readMembers i
    return r.setContent i (.map (ms.map fun m => (m.1.2, m.2)))
  | .set, _ => do
    let (r, ms) ← r.readMembers i
    return r.setContent i (.set (reader.arrange i (ms.map fun m => m.1.2)))
  | _, _ => .error .malformed

/-- The next list or map to read. -/
def next? (r : Reading) : Option (Nat × Reading) :=
  match r.now, r.later.reverse with
  | i :: now, _ => some (i, { r with now })
  | [], i :: now => some (i, { r with now, later := [] })
  | [], [] => none

/-- Reads all that is met, in at most so many turns. -/
def run (reader : Reader) : Nat → Reading → Except Defect Reading
  | 0, r => .ok r
  | fuel + 1, r =>
    match r.next? with
    | none => .ok r
    | some (i, r) => (r.read reader i).bind (run reader fuel)

end Reading

/-- What the nodes of a graph hold. Each is read at most once. -/
def Graph.contents (reader : Reader) (g : Graph) : Except Defect (Array (Option Content)) := do
  let start : Reading := {
    nodes := g.nodes
    marked := Merge.markedCount g.nodes
    contents := Array.replicate g.nodes.size none }
  let r ← (← start.meet g.root).run reader g.nodes.size
  return r.contents

end ResourceApi.Yaml
