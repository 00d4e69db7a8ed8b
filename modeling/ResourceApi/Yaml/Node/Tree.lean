import ResourceApi.Yaml.Node.Content

/-!
# From nodes to values

The value of a node is made of the values of its parts. A node that is met again inside itself ends
the way there; such a node, and every node on that way, becomes a knot. Where a knot begins depends
on the way to it, so it is made anew for every place. The value of a node that is on no way back to
itself is made once, however often the node occurs.
-/

namespace ResourceApi.Yaml

/-- A value, and the nodes around it that it leads back to. -/
structure Branch where
  data : Data
  back : List Nat

namespace Branch

/-- The values made once and for all. -/
abbrev Made := Array (Option Data)

/-- A value that leads back nowhere. -/
def whole (d : Data) : Branch := ⟨d, []⟩

/-- Several values as one. -/
def join (f : List Data → Data) (bs : List Branch) : Branch :=
  ⟨f (bs.map (·.data)), bs.foldl (fun back b => back ++ b.back.filter (!back.contains ·)) []⟩

/-- A list or map that leads back, as a knot. -/
def tie (i : Nat) (b : Branch) : Branch := ⟨.knot i b.data, b.back.filter (· != i)⟩

/-- The pairs of a list of their parts. -/
def pairUp : List Data → List Data
  | a :: b :: ds => .pair a b :: pairUp ds
  | _ => []

/-- The value of the node of a number, with the nodes around it, in a graph of at most so many
nodes further in. -/
def grow (contents : Array (Option Content)) : Nat → List Nat → Nat → StateM Made Branch
  | 0, _, _ => return whole .null
  | fuel + 1, around, i => do
    if around.contains i then return ⟨.again i, [i]⟩
    if let some d := ((← get)[i]?).join then return whole d
    let branches (is : List Nat) := is.mapM (grow contents fuel (i :: around))
    let b ←
      match (contents[i]?).join with
      | some (.whole d) => pure (whole d)
      | some (.set keys) => pure (whole (.set keys))
      | some (.list is) => do
        pure (join .list (← branches is))
      | some (.pairs ps) => do
        let parts ← branches (ps.flatMap fun p => [p.1, p.2])
        pure (join (fun ds => .list (pairUp ds)) parts)
      | some (.map ms) => do
        let values ← branches (ms.map Prod.snd)
        pure (join (fun ds => .map ((ms.map Prod.fst).zip ds)) values)
      | some .met | none => pure (whole .null)
    if b.back.isEmpty then
      modify fun made => made.setIfInBounds i (some b.data)
      return b
    else return tie i b

end Branch

/-- The value of a graph. -/
def Graph.data (reader : Reader) (g : Graph) : Except Defect Data := do
  let contents ← g.contents reader
  let made : Branch.Made := Array.replicate contents.size none
  return ((Branch.grow contents (contents.size + 1) [] g.root).run made).1.data

end ResourceApi.Yaml
