import ResourceApi.Schema

/-!
# References between schemas

A value refers to the named schema `n` when an object somewhere inside it has the path of `n`
under the key `$ref`. `refs` lists the names a value refers to, each once, in the order of a walk
from left to right; a `$ref` that is no text is a member like any other.

`reachable` computes every name that can be reached from some roots along the references of a
collection of schemas, and `prune` keeps the schemas that can be reached from the paths of a
document.
-/

namespace ResourceApi

namespace Json

open Schema

/-- The name that a path refers to; none when it is no path of a named schema. -/
def refName? (path : Text) : Option Text :=
  let start := schemaPath.points
  if start.isPrefixOf path.points then some ⟨path.points.drop start.length⟩ else none

/-- The name that a member refers to, when it is a text under `$ref`. -/
def target? (key : Text) : Json → Option Text
  | .str path => if key = "$ref" then refName? path else none
  | _ => none

/-- Adds a name at the end unless it is listed already. -/
def addName (names : List Text) (name : Text) : List Text :=
  if name ∈ names then names else names ++ [name]

mutual

/-- The names that a value refers to, after those already found. -/
def refsAfter (found : List Text) : Json → List Text
  | .obj ms => refsInMembers found ms
  | .arr xs => refsInItems found xs
  | _ => found

def refsInItems (found : List Text) : List Json → List Text
  | [] => found
  | x :: xs => refsInItems (refsAfter found x) xs

def refsInMembers (found : List Text) : List (Text × Json) → List Text
  | [] => found
  | (k, x) :: ms =>
    match target? k x with
    | some name => refsInMembers (addName found name) ms
    | none => refsInMembers (refsAfter found x) ms

end

/-- The names that a value refers to, in the order they are first seen. -/
def refs (v : Json) : List Text := refsAfter [] v

end Json

/-! ## Reachability -/

/-- The names that each name refers to. -/
abbrev ReferenceGraph := Assoc Text (List Text)

namespace ReferenceGraph

def ofSchemas (schemas : List (Text × Json)) : ReferenceGraph := Assoc.mapValues Json.refs schemas

/-- The names a name refers to; none when it has no entry. -/
def successors (g : ReferenceGraph) (name : Text) : List Text := (Assoc.get? g name).getD []

/-- How many entries have a name that is not yet seen. -/
def unseen (g : ReferenceGraph) (seen : List Text) : Nat := g.countP fun e => e.1 ∉ seen

theorem unseen_cons_le (g : ReferenceGraph) (seen : List Text) (name : Text) :
    g.unseen (name :: seen) ≤ g.unseen seen :=
  List.countP_mono_left fun e _ h => by
    simp only [List.mem_cons, not_or, decide_eq_true_eq] at h ⊢
    exact h.2

theorem unseen_cons_lt {g : ReferenceGraph} {seen : List Text} {name : Text}
    (hseen : name ∉ seen) (hmem : name ∈ Assoc.keys g) :
    g.unseen (name :: seen) < g.unseen seen := by
  induction g with
  | nil => simp at hmem
  | cons e g ih =>
    have hle := unseen_cons_le g seen name
    simp only [Assoc.keys_cons, List.mem_cons] at hmem
    unfold unseen at ih hle ⊢
    simp only [List.countP_cons]
    by_cases he : e.1 = name
    · subst he
      simp [hseen] at hle ⊢
      omega
    · have ih := ih (hmem.resolve_left (Ne.symm he))
      by_cases hs : e.1 ∈ seen <;> simp [he, hs] at ih ⊢ <;> omega

/-- Visits the names of a stack and everything they refer to. Each turn either takes a name off
the stack for good or sees an entry for the first time. -/
def visit (g : ReferenceGraph) (seen : List Text) : List Text → List Text
  | [] => seen
  | name :: stack =>
    if name ∈ seen then visit g seen stack
    else
      match _entry : Assoc.get? g name with
      | none => visit g (name :: seen) stack
      | some next => visit g (name :: seen) (next ++ stack)
  termination_by stack => (g.unseen seen, stack.length)
  decreasing_by
  · exact Prod.Lex.right _ (by simp)
  · rcases Nat.lt_or_eq_of_le (unseen_cons_le g seen name) with hlt | heq
    · exact Prod.Lex.left _ _ hlt
    · rw [heq]
      exact Prod.Lex.right _ (by simp)
  · refine Prod.Lex.left _ _ (unseen_cons_lt (by assumption) ?_)
    refine Classical.byContradiction fun hmem => ?_
    rw [(Assoc.get?_eq_none_iff g name).2 hmem] at _entry
    cases _entry

/-- Every name that can be reached from the roots, each once. -/
def reachable (g : ReferenceGraph) (roots : List Text) : List Text := g.visit [] roots

end ReferenceGraph

/-- The schemas that some value refers to, directly or through others of them, in order. -/
def prune (paths : Json) (schemas : Assoc Text Json) : Assoc Text Json :=
  let used := (ReferenceGraph.ofSchemas schemas).reachable paths.refs
  schemas.filter fun e => used.contains e.1

end ResourceApi
