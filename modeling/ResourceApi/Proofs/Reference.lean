import ResourceApi.Proofs.OrderedMap
import ResourceApi.Proofs.Words
import ResourceApi.Proofs.Worklist

/-!
# What is referred to, and what is kept

Two relations say what the computations of `ResourceApi.Reference` are for. A value *mentions* a
name when some object inside it has the name's path under `$ref`; a name is *linked* to the paths
of a document when a chain of mentions leads to it, from the paths through schemas.

**References** (`mem_refs_iff`). The names that `refs` lists are those the value mentions.

**Pruning** (`mem_prune_iff`, `get?_prune_of_linked`). A schema is kept, unchanged, exactly when its
name is linked, and the kept schemas link the same names as all of them.
-/

namespace ResourceApi

open Schema

namespace Json

/-! ## Mentions -/

/-- The member that refers to a named schema. -/
def link (n : Text) : Text × Json := ("$ref", .str (schemaPath ++ n))

/-- Some object inside the value has the path of the schema `n` under `$ref`. -/
inductive Mentions (n : Text) : Json → Prop
  | here {ms : List (Text × Json)} : link n ∈ ms → Mentions n (.obj ms)
  | member {ms : List (Text × Json)} {k : Text} {v : Json} :
      (k, v) ∈ ms → Mentions n v → Mentions n (.obj ms)
  | item {xs : List Json} {v : Json} : v ∈ xs → Mentions n v → Mentions n (.arr xs)

variable {n : Text}

theorem mentions_arr_iff {xs : List Json} : (arr xs).Mentions n ↔ ∃ v ∈ xs, v.Mentions n := by
  constructor
  · intro hcases
    rcases hcases with _ | _ | ⟨hv, hn⟩
    exact ⟨_, hv, hn⟩
  · intro hparts
    obtain ⟨v, hv, hn⟩ := hparts
    exact .item hv hn

theorem mentions_obj_iff {ms : List (Text × Json)} :
    (obj ms).Mentions n ↔ link n ∈ ms ∨ ∃ k v, (k, v) ∈ ms ∧ v.Mentions n := by
  constructor
  · intro hcases
    rcases hcases with h | ⟨hv, hn⟩
    · exact .inl h
    · exact .inr ⟨_, _, hv, hn⟩
  · intro hcases
    rcases hcases with h | ⟨k, v, hv, hn⟩
    · exact .here h
    · exact .member hv hn

@[simp] theorem not_mentions_null : ¬ null.Mentions n := nofun

@[simp] theorem not_mentions_bool (b : Bool) : ¬ (bool b).Mentions n := nofun

@[simp] theorem not_mentions_int (i : Int) : ¬ (int i).Mentions n := nofun

@[simp] theorem not_mentions_real (x : Binary64) : ¬ (real x).Mentions n := nofun

@[simp] theorem not_mentions_str (s : Text) : ¬ (str s).Mentions n := nofun

@[simp] theorem not_mentions_arr_nil : ¬ (arr []).Mentions n := by
  simp [mentions_arr_iff]

@[simp] theorem mentions_arr_cons {x : Json} {xs : List Json} :
    (arr (x :: xs)).Mentions n ↔ x.Mentions n ∨ (arr xs).Mentions n := by
  simp [mentions_arr_iff]

@[simp] theorem not_mentions_obj_nil : ¬ (obj []).Mentions n := by
  simp [mentions_obj_iff]

theorem mentions_obj_cons {k : Text} {v : Json} {ms : List (Text × Json)} :
    (obj ((k, v) :: ms)).Mentions n ↔
      (k = "$ref" ∧ v = .str (schemaPath ++ n)) ∨ v.Mentions n ∨ (obj ms).Mentions n := by
  rw [mentions_obj_iff, mentions_obj_iff, List.mem_cons, link, Prod.mk.injEq]
  constructor
  · intro hcases
    rcases hcases with (⟨hk, hv⟩ | h) | ⟨k', v', h, hn⟩
    · exact .inl ⟨hk.symm, hv.symm⟩
    · exact .inr (.inr (.inl h))
    · rcases List.mem_cons.1 h with heq | h
      · cases heq
        exact .inr (.inl hn)
      · exact .inr (.inr (.inr ⟨k', v', h, hn⟩))
  · intro hcases
    rcases hcases with ⟨hk, hv⟩ | hn | h | ⟨k', v', h, hn⟩
    · exact .inl (.inl ⟨hk.symm, hv.symm⟩)
    · exact .inr ⟨k, v, List.mem_cons_self, hn⟩
    · exact .inl (.inr h)
    · exact .inr ⟨k', v', List.mem_cons_of_mem _ h, hn⟩

@[simp] theorem mentions_obj_append {ms ns : List (Text × Json)} :
    (obj (ms ++ ns)).Mentions n ↔ (obj ms).Mentions n ∨ (obj ns).Mentions n := by
  induction ms with
  | nil => simp
  | cons p ms ih =>
    rw [List.cons_append, mentions_obj_cons, mentions_obj_cons, ih, or_assoc, or_assoc]

/-! ## The names a value refers to -/

theorem refName?_eq_some_iff {path : Text} : refName? path = some n ↔ path = schemaPath ++ n := by
  unfold refName?
  simp only
  split
  · next hstart =>
    obtain ⟨rest, hrest⟩ := List.isPrefixOf_iff_prefix.1 hstart
    have hpath : path = schemaPath ++ ⟨rest⟩ := congrArg Text.mk hrest.symm
    rw [hpath, Text.append_right_inj, Option.some.injEq]
    show Text.mk ((schemaPath.points ++ rest).drop schemaPath.points.length) = n ↔ _
    rw [List.drop_left]
  · next hstart =>
    refine ⟨nofun, ?_⟩
    rintro rfl
    exact absurd (List.isPrefixOf_iff_prefix.2 (List.prefix_append _ _)) hstart

theorem target?_eq_some_iff {k : Text} {x : Json} :
    target? k x = some n ↔ k = "$ref" ∧ x = .str (schemaPath ++ n) := by
  cases x with
  | str path =>
    rw [target?, str.injEq, ← refName?_eq_some_iff]
    split_ifs with hk
    · simp [hk]
    · simp [hk]
  | _ => simp [target?]

theorem mem_addName {names : List Text} {name : Text} :
    n ∈ addName names name ↔ n ∈ names ∨ n = name := by
  unfold addName
  split_ifs with h
  · refine ⟨.inl, ?_⟩
    intro hcases
    rcases hcases with hn | rfl
    · exact hn
    · exact h
  · rw [List.mem_append, List.mem_singleton]

mutual

theorem mem_refsAfter {found : List Text} : ∀ v : Json,
    n ∈ refsAfter found v ↔ n ∈ found ∨ v.Mentions n
  | null => by simp [refsAfter]
  | bool b => by simp [refsAfter]
  | int i => by simp [refsAfter]
  | real x => by simp [refsAfter]
  | str s => by simp [refsAfter]
  | arr xs => by
    rw [refsAfter]
    exact mem_refsInItems xs
  | obj ms => by
    rw [refsAfter]
    exact mem_refsInMembers ms

theorem mem_refsInItems {found : List Text} : ∀ xs : List Json,
    n ∈ refsInItems found xs ↔ n ∈ found ∨ (arr xs).Mentions n
  | [] => by simp [refsInItems]
  | x :: xs => by
    rw [refsInItems, mem_refsInItems xs, mem_refsAfter x, mentions_arr_cons, or_assoc]

theorem mem_refsInMembers {found : List Text} : ∀ ms : List (Text × Json),
    n ∈ refsInMembers found ms ↔ n ∈ found ∨ (obj ms).Mentions n
  | [] => by simp [refsInMembers]
  | (k, x) :: ms => by
    rw [refsInMembers, mentions_obj_cons]
    cases ht : target? k x with
    | some name =>
      obtain ⟨rfl, rfl⟩ := target?_eq_some_iff.1 ht
      rw [mem_refsInMembers ms, mem_addName, or_assoc]
      simp [Text.append_right_inj, eq_comm]
    | none =>
      have hlink : ¬ (k = "$ref" ∧ x = .str (schemaPath ++ n)) := fun h => by
        rw [target?_eq_some_iff.2 h] at ht
        cases ht
      rw [mem_refsInMembers ms, mem_refsAfter x, or_assoc, or_iff_right hlink]

end

/-- **References are mentions.** -/
theorem mem_refs_iff {v : Json} : n ∈ v.refs ↔ v.Mentions n := by
  rw [refs, mem_refsAfter]
  simp

end Json

/-! ## Pruning -/

/-- A name that the paths mention, or that the schema of a linked name mentions. -/
inductive Linked (paths : Json) (schemas : Assoc Text Json) : Text → Prop
  | root {n : Text} : paths.Mentions n → Linked paths schemas n
  | step {m n : Text} {s : Json} : Linked paths schemas m → Assoc.get? schemas m = some s →
      s.Mentions n → Linked paths schemas n

theorem mem_successors_ofSchemas {schemas : Assoc Text Json} {m n : Text} :
    n ∈ (ReferenceGraph.ofSchemas schemas).successors m ↔
      ∃ s, Assoc.get? schemas m = some s ∧ s.Mentions n := by
  rw [ReferenceGraph.successors, ReferenceGraph.ofSchemas, Assoc.get?_mapValues]
  cases Assoc.get? schemas m with
  | none => simp
  | some s => simp [Json.mem_refs_iff]

/-- Links are reachability in the graph of the schemas. -/
theorem linked_iff_reaches {paths : Json} {schemas : Assoc Text Json} {n : Text} :
    Linked paths schemas n ↔ (ReferenceGraph.ofSchemas schemas).Reaches paths.refs n := by
  constructor
  · intro h
    induction h with
    | root hn => exact .root (Json.mem_refs_iff.2 hn)
    | step _ hs hn ih => exact .step ih (mem_successors_ofSchemas.2 ⟨_, hs, hn⟩)
  · intro h
    induction h with
    | root hn => exact .root (Json.mem_refs_iff.1 hn)
    | step _ hn ih =>
      obtain ⟨s, hs, hn⟩ := mem_successors_ofSchemas.1 hn
      exact .step ih hs hn

/-- Pruning selects the schemas of linked names. -/
theorem mem_prune_iff {paths : Json} {schemas : Assoc Text Json} {p : Text × Json} :
    p ∈ prune paths schemas ↔ p ∈ schemas ∧ Linked paths schemas p.1 := by
  rw [prune, List.mem_filter, List.contains_iff_mem, ReferenceGraph.mem_reachable_iff,
    linked_iff_reaches]

/-- **A linked name keeps its schema.** -/
theorem get?_prune_of_linked {paths : Json} {schemas : Assoc Text Json} {n : Text}
    (hn : Linked paths schemas n) : Assoc.get? (prune paths schemas) n = Assoc.get? schemas n := by
  have hkeep : ((ReferenceGraph.ofSchemas schemas).reachable paths.refs).contains n := by
    rw [List.contains_iff_mem, ReferenceGraph.mem_reachable_iff, ← linked_iff_reaches]
    exact hn
  rw [prune, Assoc.get?_filter, if_pos hkeep]

theorem linked_of_mem_keys_prune {paths : Json} {schemas : Assoc Text Json} {n : Text}
    (hn : n ∈ Assoc.keys (prune paths schemas)) : Linked paths schemas n := by
  obtain ⟨s, hs⟩ := Assoc.exists_of_mem_keys hn
  exact (mem_prune_iff.1 hs).2

/-- **Pruning keeps every chain**: a name linked through all schemas is linked through those that
are kept. -/
theorem Linked.prune {paths : Json} {schemas : Assoc Text Json} {n : Text}
    (hn : Linked paths schemas n) : Linked paths (prune paths schemas) n := by
  induction hn with
  | root h => exact .root h
  | step hm hs hn ih => exact .step ih (get?_prune_of_linked hm ▸ hs) hn

end ResourceApi
