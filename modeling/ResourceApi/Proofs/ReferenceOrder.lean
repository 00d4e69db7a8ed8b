import ResourceApi.Proofs.Reference
import Mathlib.Data.List.Induction

/-!
# The order of references

A walk over a value from left to right meets the members of all objects inside it, each before what
lies inside its own value. The names under `$ref` that it meets are the names that the value
mentions, as often as it mentions them; `refs` keeps the first of each (`refs_eq_foldl`).

**Main result** (`refs_exact`). The references of a value are the names that it mentions, each once,
in the order in which they are met first. A `$ref` that is no text is searched as if it had another
key, and one with another path might as well be left out.
-/

namespace ResourceApi

open Schema

namespace Json

/-! ## Walks -/

mutual

/-- The members of all objects inside a value, in the order in which a walk meets them. -/
def walk : Json → List (Text × Json)
  | .obj ms => walkMembers ms
  | .arr xs => walkItems xs
  | _ => []

def walkItems : List Json → List (Text × Json)
  | [] => []
  | x :: xs => walk x ++ walkItems xs

def walkMembers : List (Text × Json) → List (Text × Json)
  | [] => []
  | (k, x) :: ms => (k, x) :: (walk x ++ walkMembers ms)

end

/-- The names that some members refer to, as often as they do. -/
def targets (ms : List (Text × Json)) : List Text := ms.filterMap fun m => target? m.1 m.2

theorem targets_append (ms ns : List (Text × Json)) :
    targets (ms ++ ns) = targets ms ++ targets ns :=
  List.filterMap_append

theorem mem_targets_iff {ms : List (Text × Json)} {n : Text} : n ∈ targets ms ↔ link n ∈ ms := by
  rw [targets, List.mem_filterMap]
  constructor
  · rintro ⟨⟨k, x⟩, hm, htarget⟩
    obtain ⟨hk, hx⟩ := target?_eq_some_iff.1 htarget
    replace hk : k = "$ref" := hk
    replace hx : x = .str (schemaPath ++ n) := hx
    rw [link, ← hk, ← hx]
    exact hm
  · intro hm
    exact ⟨link n, hm, target?_eq_some_iff.2 ⟨rfl, rfl⟩⟩

theorem targets_walkMembers_cons (k : Text) (x : Json) (ms : List (Text × Json)) :
    targets (walkMembers ((k, x) :: ms)) =
      (target? k x).toList ++ targets x.walk ++ targets (walkMembers ms) := by
  rw [List.append_assoc, ← targets_append, walkMembers]
  cases htarget : target? k x with
  | none => exact List.filterMap_cons_none htarget
  | some name => exact List.filterMap_cons_some htarget

@[simp] theorem walk_str (s : Text) : walk (.str s) = [] := by simp [walk]

mutual

/-- References are found one after the other along the walk. -/
theorem refsAfter_eq_foldl (found : List Text) : ∀ v : Json,
    refsAfter found v = (targets v.walk).foldl addName found
  | null | bool _ | int _ | real _ | str _ => by simp [refsAfter, walk, targets]
  | arr xs => by
    rw [refsAfter, walk]
    exact refsInItems_eq_foldl found xs
  | obj ms => by
    rw [refsAfter, walk]
    exact refsInMembers_eq_foldl found ms

theorem refsInItems_eq_foldl (found : List Text) : ∀ xs : List Json,
    refsInItems found xs = (targets (walkItems xs)).foldl addName found
  | [] => rfl
  | x :: xs => by
    rw [refsInItems, refsInItems_eq_foldl _ xs, refsAfter_eq_foldl found x, walkItems,
      targets_append, List.foldl_append]

theorem refsInMembers_eq_foldl (found : List Text) : ∀ ms : List (Text × Json),
    refsInMembers found ms = (targets (walkMembers ms)).foldl addName found
  | [] => rfl
  | (k, x) :: ms => by
    rw [refsInMembers, targets_walkMembers_cons, List.foldl_append]
    cases htarget : target? k x with
    | some name =>
      obtain ⟨rfl, rfl⟩ := target?_eq_some_iff.1 htarget
      rw [walk_str]
      exact refsInMembers_eq_foldl _ ms
    | none =>
      rw [Option.toList_none, List.nil_append, ← refsAfter_eq_foldl found x]
      exact refsInMembers_eq_foldl _ ms

end

theorem refs_eq_foldl (v : Json) : v.refs = (targets v.walk).foldl addName [] :=
  refsAfter_eq_foldl [] v

/-! ## First occurrences -/

theorem mem_foldl_addName {found names : List Text} {n : Text} :
    n ∈ names.foldl addName found ↔ n ∈ found ∨ n ∈ names := by
  induction names generalizing found with
  | nil => simp
  | cons name names ih => rw [List.foldl_cons, ih, mem_addName, List.mem_cons, or_assoc]

theorem nodup_addName {names : List Text} (h : names.Nodup) (name : Text) :
    (addName names name).Nodup := by
  unfold addName
  split_ifs with hmem
  · exact h
  · exact List.nodup_append.2 ⟨h, List.nodup_singleton name, fun a ha b hb heq =>
      hmem (List.mem_singleton.1 hb ▸ heq ▸ ha)⟩

/-- Names added one after the other stand in the order in which they come first. -/
theorem pairwise_foldl_addName (names : List Text) :
    (names.foldl addName []).Pairwise fun m n => names.idxOf m < names.idxOf n := by
  induction names using List.reverseRecOn with
  | nil => exact .nil
  | append_singleton names name ih =>
    have hmem {n : Text} : n ∈ names.foldl addName [] ↔ n ∈ names := by
      simp [mem_foldl_addName]
    -- where a name comes first does not change when one is added at the end
    have hfirst {n : Text} (hn : n ∈ names) : (names ++ [name]).idxOf n = names.idxOf n :=
      List.idxOf_append_of_mem hn
    have hearlier : (names.foldl addName []).Pairwise fun m n =>
        (names ++ [name]).idxOf m < (names ++ [name]).idxOf n := by
      refine ih.imp_of_mem fun hm hn hlt => ?_
      rwa [hfirst (hmem.1 hm), hfirst (hmem.1 hn)]
    rw [List.foldl_append, List.foldl_cons, List.foldl_nil, addName]
    split_ifs with hname
    · exact hearlier
    · refine List.pairwise_append.2 ⟨hearlier, List.pairwise_singleton _ _, ?_⟩
      intro m hm n hn
      obtain rfl := List.mem_singleton.1 hn
      rw [hfirst (hmem.1 hm), List.idxOf_append_of_notMem (mt hmem.2 hname)]
      have hm : names.idxOf m < names.length := List.idxOf_lt_length_of_mem (hmem.1 hm)
      omega

theorem nodup_foldl_addName {found : List Text} (h : found.Nodup) (names : List Text) :
    (names.foldl addName found).Nodup := by
  induction names generalizing found with
  | nil => exact h
  | cons name names ih => exact ih (nodup_addName h name)

theorem mentions_iff_mem_walk {v : Json} {n : Text} : v.Mentions n ↔ link n ∈ v.walk := by
  rw [← mem_refs_iff, refs_eq_foldl, mem_foldl_addName, ← mem_targets_iff]
  simp

/-! ## One member of an object -/

theorem targets_walkMembers_append (ms ns : List (Text × Json)) :
    targets (walkMembers (ms ++ ns)) = targets (walkMembers ms) ++ targets (walkMembers ns) := by
  induction ms with
  | nil => rfl
  | cons m ms ih =>
    obtain ⟨k, x⟩ := m
    rw [List.cons_append, targets_walkMembers_cons, targets_walkMembers_cons, ih,
      List.append_assoc _ (targets (walkMembers ms))]

/-- Members that are met alike have the same references, whatever stands around them. -/
theorem refsAfter_obj_congr {ms ms' : List (Text × Json)}
    (h : targets (walkMembers ms) = targets (walkMembers ms'))
    (found : List Text) (before after : List (Text × Json)) :
    refsAfter found (obj (before ++ ms ++ after)) =
      refsAfter found (obj (before ++ ms' ++ after)) := by
  rw [refsAfter_eq_foldl, refsAfter_eq_foldl, walk, walk]
  simp only [targets_walkMembers_append, h]

theorem target?_eq_none {k : Text} {x : Json} (hx : ∀ s, x ≠ .str s) : target? k x = none := by
  cases htarget : target? k x with
  | none => rfl
  | some n => exact absurd (target?_eq_some_iff.1 htarget).2 (hx _)

/-- **References are exact.** They are the names that the value mentions, which are those that a
walk over it meets, each once and in the order of the first meetings. A `$ref` that is no text is
searched as any other member, and one with another path adds nothing, wherever they stand. -/
theorem refs_exact (v : Json) :
    v.refs.Nodup ∧
    (∀ n, n ∈ v.refs ↔ v.Mentions n) ∧
    (∀ n, v.Mentions n ↔ link n ∈ v.walk) ∧
    v.refs.Pairwise (fun m n => (targets v.walk).idxOf m < (targets v.walk).idxOf n) ∧
    (∀ (found : List Text) (before after : List (Text × Json)) (k : Text) (x : Json),
      (∀ s, x ≠ .str s) → refsAfter found (obj (before ++ member "$ref" x ++ after)) =
        refsAfter found (obj (before ++ member k x ++ after))) ∧
    ∀ (found : List Text) (before after : List (Text × Json)) (path : Text),
      (∀ n, path ≠ schemaPath ++ n) →
        refsAfter found (obj (before ++ member "$ref" path ++ after)) =
          refsAfter found (obj (before ++ after)) := by
  refine ⟨?_, fun n => mem_refs_iff, fun n => mentions_iff_mem_walk, ?_, ?_, ?_⟩
  · rw [refs_eq_foldl]
    exact nodup_foldl_addName List.nodup_nil _
  · rw [refs_eq_foldl]
    exact pairwise_foldl_addName _
  · intro found before after k x hx
    refine refsAfter_obj_congr ?_ found before after
    rw [member, member, targets_walkMembers_cons, targets_walkMembers_cons, target?_eq_none hx,
      target?_eq_none hx]
  · intro found before after path hpath
    have htarget : target? "$ref" (.str path) = none := by
      cases htarget : target? "$ref" (.str path) with
      | none => rfl
      | some n => exact absurd (str.inj (target?_eq_some_iff.1 htarget).2) (hpath n)
    have hnothing : targets (walkMembers (member "$ref" path)) = targets (walkMembers []) := by
      rw [member, targets_walkMembers_cons, htarget, walk_str]
      rfl
    have hrefs := refsAfter_obj_congr hnothing found before after
    rwa [List.append_nil] at hrefs

/-- A property of the name `$ref` refers through what lies inside it. -/
example : refs (.obj [("$ref", .obj [("$ref", .str "#/components/schemas/A")]),
    ("x", .arr [.obj [("$ref", .str "#/components/parameters/id")],
      .obj [("$ref", .str "#/components/schemas/B")],
      .obj [("$ref", .str "#/components/schemas/A")]])]) = ["A", "B"] := by decide

end Json

end ResourceApi
