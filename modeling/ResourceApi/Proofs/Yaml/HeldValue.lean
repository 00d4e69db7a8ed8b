import ResourceApi.Proofs.OrderedMap
import ResourceApi.Proofs.Yaml.ValueScan
import ResourceApi.Yaml.Node

/-!
# Values in a table of nodes

A node holds a value (`Holds`) when its parts, which have greater numbers, hold the parts of the
value. A node holds one value only (`Holds.unique`), and it holds it in every table with the same
nodes from its number on (`Holds.mono`).

A written value is read back as `rereadValue`: its texts are read back, and keys that have become
the same key are merged.
-/

namespace ResourceApi.Yaml

/-! ## What is read back -/

mutual

/-- What a written value is read back as. -/
def rereadValue : Json → Data
  | .str s => .str (rereadText s)
  | .bool b => .bool b
  | .arr xs => .list (rereadItems xs)
  | .obj ms => .map ((Assoc.ofList (rereadMembers ms)).map fun m => (.str m.1, m.2))
  | _ => .null

def rereadItems : List Json → List Data
  | [] => []
  | x :: xs => rereadValue x :: rereadItems xs

/-- The members of an object before keys are merged. -/
def rereadMembers : List (Text × Json) → List (Text × Data)
  | [] => []
  | (k, x) :: ms => (rereadText k, rereadValue x) :: rereadMembers ms

end

/-! ## Nodes -/

/-- A member of a map: the node of its key, the key, the node of its value, and the value. -/
structure Entry where
  keyNode : Nat
  key : Text
  node : Nat
  value : Data

/-- The members of a map; of those with one key the last one counts, in the place of the first. -/
def membersOf (es : List Entry) : List (Data × Data) :=
  (Assoc.ofList (es.map fun e => (e.key, e.value))).map fun m => (.str m.1, m.2)

/-- The word for a truth value. -/
def truthWord (b : Bool) : Text := if b then "true" else "false"

theorem truthWord_injective {b b' : Bool} (h : truthWord b = truthWord b') : b = b' := by
  have hall : ∀ b b', truthWord b = truthWord b' → b = b' := by decide
  exact hall b b' h

/-- The node of a number holds a value. -/
inductive Holds (nodes : Array Node) : Nat → Data → Prop
  | text {i : Nat} {t : Text} : nodes[i]? = some (.scalar .text t) → Holds nodes i (.str t)
  | truth {i : Nat} {b : Bool} : nodes[i]? = some (.scalar .truth (truthWord b)) →
      Holds nodes i (.bool b)
  | list {i : Nat} (ps : List (Nat × Data)) : nodes[i]? = some (.list .list (ps.map Prod.fst)) →
      (∀ p ∈ ps, i < p.1) → (∀ p ∈ ps, Holds nodes p.1 p.2) →
      Holds nodes i (.list (ps.map Prod.snd))
  | map {i : Nat} (es : List Entry) :
      nodes[i]? = some (.map .map (es.map fun e => (e.keyNode, e.node))) →
      (∀ e ∈ es, i < e.keyNode ∧ nodes[e.keyNode]? = some (.scalar .text e.key) ∧ i < e.node) →
      (∀ e ∈ es, Holds nodes e.node e.value) →
      Holds nodes i (.map (membersOf es))

theorem eq_of_map_eq {α β : Type} {f : α → β} {xs ys : List α} (h : xs.map f = ys.map f)
    (hinj : ∀ x ∈ xs, ∀ y ∈ ys, f x = f y → x = y) : xs = ys := by
  induction xs generalizing ys with
  | nil => exact (List.map_eq_nil_iff.1 h.symm).symm
  | cons x xs ih =>
    cases ys with
    | nil => cases h
    | cons y ys =>
      obtain ⟨hhead, htail⟩ := List.cons.inj h
      rw [hinj x List.mem_cons_self y List.mem_cons_self hhead, ih htail fun x hx y hy =>
        hinj x (List.mem_cons_of_mem _ hx) y (List.mem_cons_of_mem _ hy)]

namespace Holds

variable {nodes nodes' : Array Node} {i : Nat} {d d' : Data}

theorem mono (h : Holds nodes i d)
    (hle : ∀ k n, i ≤ k → nodes[k]? = some n → nodes'[k]? = some n) : Holds nodes' i d := by
  induction h with
  | text hnode => exact .text (hle _ _ (Nat.le_refl _) hnode)
  | truth hnode => exact .truth (hle _ _ (Nat.le_refl _) hnode)
  | list ps hnode hlt _ ih =>
    refine .list ps (hle _ _ (Nat.le_refl _) hnode) hlt fun p hp => ih p hp fun k n hk => ?_
    exact hle k n (Nat.le_trans (Nat.le_of_lt (hlt p hp)) hk)
  | map es hnode hkeys _ ih =>
    refine .map es (hle _ _ (Nat.le_refl _) hnode) (fun e he => ?_) fun e he => ih e he ?_
    · obtain ⟨hkey, htext, hlt⟩ := hkeys e he
      exact ⟨hkey, hle _ _ (Nat.le_of_lt hkey) htext, hlt⟩
    · intro k n hk
      exact hle k n (Nat.le_trans (Nat.le_of_lt (hkeys e he).2.2) hk)

theorem lt_size (h : Holds nodes i d) : i < nodes.size := by
  have hsome : ∃ n, nodes[i]? = some n := by
    cases h with
    | text hnode => exact ⟨_, hnode⟩
    | truth hnode => exact ⟨_, hnode⟩
    | list ps hnode => exact ⟨_, hnode⟩
    | map es hnode => exact ⟨_, hnode⟩
  obtain ⟨n, hn⟩ := hsome
  exact (Array.getElem?_eq_some_iff.1 hn).1

/-- **A node holds one value.** -/
theorem unique (h : Holds nodes i d) (h' : Holds nodes i d') : d = d' := by
  induction h generalizing d' with
  | text hnode =>
    cases h' with
    | text hnode' =>
      cases hnode.symm.trans hnode'
      rfl
    | truth hnode' => cases hnode.symm.trans hnode'
    | list ps hnode' => cases hnode.symm.trans hnode'
    | map es hnode' => cases hnode.symm.trans hnode'
  | @truth i b hnode =>
    cases h' with
    | text hnode' => cases hnode.symm.trans hnode'
    | @truth _ b' hnode' =>
      have hword : truthWord b = truthWord b' := by
        have hnodes := hnode.symm.trans hnode'
        simpa using hnodes
      rw [truthWord_injective hword]
    | list ps hnode' => cases hnode.symm.trans hnode'
    | map es hnode' => cases hnode.symm.trans hnode'
  | list ps hnode hlt _ ih =>
    cases h' with
    | text hnode' => cases hnode.symm.trans hnode'
    | truth hnode' => cases hnode.symm.trans hnode'
    | list ps' hnode' hlt' hheld' =>
      have hnodes : ps.map Prod.fst = ps'.map Prod.fst := by
        have hnodes := hnode.symm.trans hnode'
        simpa using hnodes
      rw [eq_of_map_eq hnodes fun p hp p' hp' heq => ?_]
      have hvalue : p.2 = p'.2 := ih p hp (heq ▸ hheld' p' hp')
      exact Prod.ext heq hvalue
    | map es hnode' => cases hnode.symm.trans hnode'
  | map es hnode hkeys _ ih =>
    cases h' with
    | text hnode' => cases hnode.symm.trans hnode'
    | truth hnode' => cases hnode.symm.trans hnode'
    | list ps hnode' => cases hnode.symm.trans hnode'
    | map es' hnode' hkeys' hheld' =>
      have hnodes : es.map (fun e => (e.keyNode, e.node)) =
          es'.map fun e => (e.keyNode, e.node) := by
        have hnodes := hnode.symm.trans hnode'
        simpa using hnodes
      rw [eq_of_map_eq hnodes fun e he e' he' heq => ?_]
      obtain ⟨hkeyNode, hnode⟩ := Prod.mk.inj heq
      have hkey : e.key = e'.key := by
        have htext := (hkeys e he).2.1
        rw [hkeyNode, (hkeys' e' he').2.1] at htext
        simpa using htext.symm
      have hvalue : e.value = e'.value := ih e he (hnode ▸ hheld' e' he')
      cases e
      cases e'
      simp_all

end Holds

end ResourceApi.Yaml
