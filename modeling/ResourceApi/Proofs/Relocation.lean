import ResourceApi.Proofs.Pruning
import ResourceApi.Proofs.ResolvedReference
import ResourceApi.Proofs.TwoRuns

/-!
# Where paths begin

All paths of a document begin with one prefix. Two maps of paths are *relocated* from one prefix to
another when they have the same items in the same order, under keys that differ in the prefix only.

**Writing** (`Relocated.ofList`). Putting a prefix in front is one to one, so one write meets the
key of an earlier one under either prefix or under none. Hence overwritten paths do no harm.

**Main result** (`prefix_only_relocates`). The builders of paths put the prefix in front of every
key and look at it nowhere else. Items are the same, so they mention the same schemas, and pruning
keeps the same.
-/

namespace ResourceApi

open Json

universe u

variable {β : Type u} {p q : Text}

/-- The same values in the same order, under keys that differ in the prefix only. -/
def Relocated (p q : Text) (m n : Assoc Text β) : Prop :=
  ∃ rests : Assoc Text β,
    Assoc.mapKeys (p ++ ·) rests = m ∧ Assoc.mapKeys (q ++ ·) rests = n

namespace Relocated

variable {m n m' n' : Assoc Text β}

theorem append (h : Relocated p q m n) (h' : Relocated p q m' n') :
    Relocated p q (m ++ m') (n ++ n') := by
  obtain ⟨rests, rfl, rfl⟩ := h
  obtain ⟨rests', rfl, rfl⟩ := h'
  exact ⟨rests ++ rests', Assoc.mapKeys_append .., Assoc.mapKeys_append ..⟩

theorem flatten {ms ns : List (Assoc Text β)} (h : List.Forall₂ (Relocated p q) ms ns) :
    Relocated p q ms.flatten ns.flatten := by
  induction h with
  | nil => exact ⟨[], rfl, rfl⟩
  | cons hmn _ ih => exact hmn.append ih

/-- **Relocated writes make relocated maps**, whatever is overwritten. -/
theorem ofList (h : Relocated p q m n) : Relocated p q (Assoc.ofList m) (Assoc.ofList n) := by
  obtain ⟨rests, rfl, rfl⟩ := h
  have hinjective (s : Text) : Function.Injective (s ++ · : Text → Text) :=
    fun _ _ => Text.append_right_inj.1
  exact ⟨Assoc.ofList rests, Assoc.mapKeys_ofList (hinjective p) rests,
    Assoc.mapKeys_ofList (hinjective q) rests⟩

theorem exists_mem_iff (h : Relocated p q m n) {P : β → Prop} :
    (∃ a ∈ m, P a.2) ↔ ∃ a ∈ n, P a.2 := by
  obtain ⟨rests, rfl, rfl⟩ := h
  simp [Assoc.mapKeys]

end Relocated

/-! ## Paths -/

namespace Routing

variable {r : Routing} {e : Entity}

/-- The routing with its paths under a prefix. -/
def under (r : Routing) (p : Text) : Routing := { r with pathPrefix := p }

/-- What the prefix of a collection's path is followed by. -/
def collectionRest (r : Routing) (e : Entity) : Text := "/" ++ Text.lowerFirst (r.mappedName e)

theorem base_under (r : Routing) (e : Entity) (p : Text) :
    (r.under p).base e = p ++ r.collectionRest e :=
  Text.append_assoc p "/" _

theorem itemPath_append (p rest : Text) : itemPath (p ++ rest) = p ++ itemPath rest :=
  Text.append_assoc p rest _

theorem relocated_ownPaths (rules : Openness) (filters : List FilterParameter) :
    Relocated p q ((r.under p).ownPaths e rules filters)
      ((r.under q).ownPaths e rules filters) := by
  have hown (s : Text) : (r.under s).ownPaths e rules filters =
      Assoc.mapKeys (s ++ ·) ((r.under "").ownPaths e rules filters) := by
    simp only [ownPaths, base_under, itemPath_append]
    rfl
  exact ⟨_, (hown p).symm, (hown q).symm⟩

theorem relocated_relationshipPaths (rules : Openness) (f : Field) (target : Entity)
    (targetRules : Openness) (filters : List FilterParameter) :
    Relocated p q ((r.under p).relationshipPaths e rules f target targetRules filters)
      ((r.under q).relationshipPaths e rules f target targetRules filters) := by
  have hpaths (s : Text) : (r.under s).relationshipPaths e rules f target targetRules filters =
      Assoc.mapKeys (s ++ ·)
        ((r.under "").relationshipPaths e rules f target targetRules filters) := by
    simp only [relationshipPaths, relatedPath, relationshipPath, base_under, itemPath_append,
      Text.append_assoc]
    rfl
  exact ⟨_, (hpaths p).symm, (hpaths q).symm⟩

theorem parallel_routePaths_under (rules : Openness) (route : Field × Entity) :
    Parallel (Relocated p q) ((r.under p).routePaths e rules route)
      ((r.under q).routePaths e rules route) := by
  refine Parallel.bind_same fun targetRules => Parallel.bind_same fun filters => ?_
  exact .ok (relocated_relationshipPaths rules _ _ targetRules filters)

/-- **The paths of an entity under two prefixes are relocated.** -/
theorem parallel_paths_under :
    Parallel (Relocated p q) ((r.under p).paths e) ((r.under q).paths e) := by
  refine Parallel.bind_same fun rules => Parallel.bind_same fun filters => ?_
  have hroutes : Parallel (List.Forall₂ (Relocated p q))
      ((r.routes e).mapM ((r.under p).routePaths e rules))
      ((r.routes e).mapM ((r.under q).routePaths e rules)) :=
    Parallel.mapM_same fun route _ => parallel_routePaths_under rules route
  refine hroutes.bind fun related related' hrelated => .ok ?_
  exact ((relocated_ownPaths rules filters).append (.flatten hrelated)).ofList

end Routing

/-! ## Documents -/

theorem Relocated.mentions_iff {paths paths' : Assoc Text PathItem}
    (h : Relocated p q paths paths') (n : Text) :
    (pathsJson paths).Mentions n ↔ (pathsJson paths').Mentions n := by
  rw [mentions_pathsJson_iff, mentions_pathsJson_iff]
  exact h.exists_mem_iff (P := fun item => item.toJson.Mentions n)

namespace Generator

/-- The generator with the paths under a prefix. -/
def under (g : Generator) (p : Text) : Generator :=
  { g with options := { g.options with pathPrefix := p } }

theorem parallel_paths_under (g : Generator) :
    Parallel (Relocated p q) (g.under p).paths (g.under q).paths := by
  have hpasses : Parallel (List.Forall₂ (Relocated p q))
      (g.covered.mapM (g.routing.under p).paths) (g.covered.mapM (g.routing.under q).paths) :=
    Parallel.mapM_same fun _ _ => Routing.parallel_paths_under
  exact hpasses.map fun _ _ hitems => (Relocated.flatten hitems).ofList

/-- **The prefix decides only where paths begin.** Under two prefixes there is no document for the
same reason, or there are two that are one but for the keys of their paths; and those have the same
items in the same order, each under a key that differs in the prefix only. The warnings are the
same. -/
theorem prefix_only_relocates (g : Generator) (p q : Text) :
    Parallel (fun d d' => Relocated p q d.paths d'.paths ∧ d' = { d with paths := d'.paths })
      (g.under p).document (g.under q).document ∧
    (g.under p).warnings = (g.under q).warnings := by
  -- nothing but the paths looks at the prefix
  have hsame : (g.under p).SameButPaths (g.under q) := ⟨rfl, rfl, rfl, rfl, rfl⟩
  exact ⟨parallel_document hsame g.parallel_paths_under fun _ _ => Relocated.mentions_iff, rfl⟩

end Generator

end ResourceApi
