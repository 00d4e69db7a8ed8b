import ResourceApi.Yaml.Node

/-!
# Members taken in from other maps

A map takes in the members of others under a key that is marked for it: those of a map, or those of
several maps in a list, the later ones first. The maps take in what they are to take in themselves
before that, the marked members go, and the members taken in stand before the map's own. On the
way, the mark of a map's own value becomes plain text.

The table of nodes is changed in place, so that every other place of a map sees its members as they
are then. A map can be among those that it takes in. Every step removes a marked member, and none
is ever added, so their number bounds the steps.
-/

namespace ResourceApi.Yaml

namespace Merge

/-- The members of the map of a number. -/
def membersAt (nodes : Array Node) (i : Nat) : List (Nat × Nat) :=
  match nodeAt nodes i with
  | .map _ ms => ms
  | _ => []

/-- Gives the map of a number other members. -/
def setMembers (nodes : Array Node) (i : Nat) (ms : List (Nat × Nat)) : Array Node :=
  match nodeAt nodes i with
  | .map tag _ => nodes.setIfInBounds i (.map tag ms)
  | _ => nodes

/-- Is the member one under which others are taken in? -/
def isMarked (nodes : Array Node) (m : Nat × Nat) : Bool := (nodeAt nodes m.1).tag == .merge

/-- A key that marks the map's own value, as text. -/
def plainKey (nodes : Array Node) (i : Nat) : Array Node :=
  match nodeAt nodes i with
  | .scalar .own t => nodes.setIfInBounds i (.scalar .text t)
  | .list .own xs => nodes.setIfInBounds i (.list .text xs)
  | .map .own ms => nodes.setIfInBounds i (.map .text ms)
  | _ => nodes

/-- How many members of all maps are marked. -/
def markedCount (nodes : Array Node) : Nat :=
  nodes.foldl (fun count n =>
    match n with
    | .map _ ms => count + ms.countP (isMarked nodes)
    | _ => count) 0

/-- Takes in members for the map of a number, from a place among its members on, in at most so many
steps. `taken` are the members taken in before. -/
def takeFrom : Nat → Array Node → Nat → Nat → List (Nat × Nat) → Option (Array Node)
  | 0, _, _, _, _ => none
  | fuel + 1, nodes, i, place, taken =>
    let ms := membersAt nodes i
    let passed := (ms.drop place).takeWhile (!isMarked nodes ·)
    let nodes := passed.foldl (fun nodes m => plainKey nodes m.1) nodes
    let place := place + passed.length
    match ms[place]? with
    | none => some (setMembers nodes i (taken ++ ms))
    | some (_, source) =>
      let nodes := setMembers nodes i (ms.eraseIdx place)
      match nodeAt nodes source with
      | .scalar _ _ => none
      | .map _ _ =>
        (takeFrom fuel nodes source 0 []).bind fun nodes =>
          takeFrom fuel nodes i place (taken ++ membersAt nodes source)
      | .list _ sources =>
        let taking : Option (Array Node × List (List (Nat × Nat))) :=
          sources.foldlM (fun (nodes, groups) s =>
            match nodeAt nodes s with
            | .map _ _ =>
              (takeFrom fuel nodes s 0 []).map fun nodes => (nodes, membersAt nodes s :: groups)
            | _ => none) (nodes, [])
        taking.bind fun (nodes, groups) => takeFrom fuel nodes i place (taken ++ groups.flatten)

end Merge

/-- The nodes once the map of a number has taken in what it is to take in, if at most so many
members of all maps are marked; none if what it is to take in is not maps. -/
def takeIn? (marked : Nat) (nodes : Array Node) (i : Nat) : Option (Array Node) :=
  Merge.takeFrom (marked + 1) nodes i 0 []

end ResourceApi.Yaml
