import ResourceApi.Proofs.Generation
import ResourceApi.Proofs.Inclusion

/-!
# The layout of an entity's paths

An entity has a path for its collection and one for its items, and below the items two paths for
each relationship that leads to a covered entity.

**No path twice** (`nodup_keys_subjects`). Relationships are told apart by their names. A name
without slashes keeps the related resources of one relationship apart from the other one itself,
which stands a segment deeper.

**Main result** (`paths_laid_out`). Paths are then written to new keys only, so the map has them in
the order in which they are written.
-/

namespace ResourceApi

namespace Routing

variable {r : Routing} {e : Entity} {base : Text} {f g : Field}

/-! ## Paths of relationships -/

theorem relatedPath_eq : relatedPath base f = base ++ "/\x7bid\x7d/" ++ f.name := by
  simp only [relatedPath, itemPath, Text.append_assoc]
  rfl

theorem relationshipPath_eq :
    relationshipPath base f = base ++ "/\x7bid\x7d/relationships/" ++ f.name := by
  simp only [relationshipPath, itemPath, Text.append_assoc]
  rfl

theorem relatedPath_inj : relatedPath base f = relatedPath base g ↔ f.name = g.name := by
  rw [relatedPath_eq, relatedPath_eq, Text.append_right_inj]

theorem relationshipPath_inj :
    relationshipPath base f = relationshipPath base g ↔ f.name = g.name := by
  rw [relationshipPath_eq, relationshipPath_eq, Text.append_right_inj]

theorem relatedPath_ne_relationshipPath (hslash : .char '/' ∉ f.name.points) :
    relatedPath base f ≠ relationshipPath base g := by
  intro h
  rw [relatedPath, relationshipPath, Text.append_assoc, Text.append_assoc,
    Text.append_right_inj] at h
  have hname : f.name = "relationships/" ++ g.name := Text.append_right_inj.1 h
  rw [hname] at hslash
  simp at hslash

/-- The paths of a relationship. -/
def relationshipKeys (base : Text) (f : Field) : List Text :=
  [relatedPath base f, relationshipPath base f]

theorem mem_relationshipKeys {path : Text} : path ∈ relationshipKeys base f ↔
    path = relatedPath base f ∨ path = relationshipPath base f := by
  simp [relationshipKeys]

theorem nodup_relationshipKeys (hslash : .char '/' ∉ f.name.points) :
    (relationshipKeys base f).Nodup := by
  simpa [relationshipKeys] using relatedPath_ne_relationshipPath hslash

theorem disjoint_relationshipKeys (hf : .char '/' ∉ f.name.points) (hg : .char '/' ∉ g.name.points)
    (hne : f.name ≠ g.name) : (relationshipKeys base f).Disjoint (relationshipKeys base g) := by
  intro path hpf hpg
  rcases mem_relationshipKeys.1 hpf with rfl | rfl <;>
    rcases mem_relationshipKeys.1 hpg with hpg | hpg
  · exact hne (relatedPath_inj.1 hpg)
  · exact relatedPath_ne_relationshipPath hf hpg
  · exact relatedPath_ne_relationshipPath hg hpg.symm
  · exact hne (relationshipPath_inj.1 hpg)

theorem exists_rest_of_mem_relationshipKeys {path : Text} (h : path ∈ relationshipKeys base f) :
    ∃ rest, path = itemPath base ++ ("/" ++ rest) := by
  rcases mem_relationshipKeys.1 h with rfl | rfl
  · exact ⟨f.name, Text.append_assoc ..⟩
  · exact ⟨"relationships/" ++ f.name, Text.append_assoc ..⟩

theorem ne_append_slash (path rest : Text) : path ≠ path ++ ("/" ++ rest) := by
  intro h
  simpa using congrArg Text.points (Text.eq_append_right_iff.1 h)

theorem notMem_own_of_mem_relationshipKeys {path : Text} (h : path ∈ relationshipKeys base f) :
    path ∉ [base, itemPath base] := by
  obtain ⟨rest, rfl⟩ := exists_rest_of_mem_relationshipKeys h
  intro hown
  simp only [List.mem_cons, List.not_mem_nil, or_false] at hown
  rcases hown with hown | hown
  · rw [itemPath, Text.append_assoc] at hown
    exact ne_append_slash _ _ hown.symm
  · exact ne_append_slash _ _ hown.symm

/-! ## Routes -/

/-- The routes are the relationships whose type is the name of a covered entity. -/
theorem fields_of_routes (r : Routing) (e : Entity) : (r.routes e).map Prod.fst =
    (e.fields.filter r.model.isRelationship).filter fun f => Assoc.has r.included f.typeName := by
  have hcovered : (fun f : Field => Option.map Prod.fst
      ((Assoc.get? r.included f.typeName).map fun target => (f, target))) =
      Option.guard fun f => Assoc.has r.included f.typeName := by
    funext f
    cases htarget : Assoc.get? r.included f.typeName <;>
      simp [Option.guard, Assoc.has, htarget]
  rw [routes, List.map_filterMap, hcovered, List.filterMap_eq_filter]

theorem keys_subjects (r : Routing) (e : Entity) : Assoc.keys (r.subjects e) =
    [r.base e, itemPath (r.base e)] ++
      ((r.routes e).map Prod.fst).flatMap (relationshipKeys (r.base e)) := by
  rw [subjects, Assoc.keys_append, Assoc.keys, Assoc.keys, List.map_flatMap, List.flatMap_map]
  rfl

/-- **No path is written twice**, if the names of relationships differ and hold no slash. -/
theorem nodup_keys_subjects
    (hnames : ((e.fields.filter r.model.isRelationship).map (·.name)).Nodup)
    (hslash : ∀ f ∈ e.fields, r.model.isRelationship f = true → .char '/' ∉ f.name.points) :
    (Assoc.keys (r.subjects e)).Nodup := by
  have hsub : ((r.routes e).map Prod.fst).Sublist (e.fields.filter r.model.isRelationship) := by
    rw [fields_of_routes]
    exact List.filter_sublist
  have hfree : ∀ f ∈ (r.routes e).map Prod.fst, .char '/' ∉ f.name.points := by
    intro f hf
    obtain ⟨hf, hrelationship⟩ := List.mem_filter.1 (hsub.subset hf)
    exact hslash f hf hrelationship
  have hitem : r.base e ≠ itemPath (r.base e) := ne_append_slash _ "\x7bid\x7d"
  rw [keys_subjects]
  refine List.nodup_append'.2 ⟨by simpa using hitem, List.nodup_flatMap.2 ⟨?_, ?_⟩, ?_⟩
  · intro f hf
    exact nodup_relationshipKeys (hfree f hf)
  · refine (List.pairwise_map.1 (hnames.sublist (hsub.map _))).imp_of_mem ?_
    intro f g hf hg hne
    exact disjoint_relationshipKeys (hfree f hf) (hfree g hg) hne
  · intro path hown hpath
    obtain ⟨f, -, hpath⟩ := List.mem_flatMap.1 hpath
    exact notMem_own_of_mem_relationshipKeys hpath hown

/-! ## Layout -/

/-- The paths in order, each with its methods. -/
def layout (items : Assoc Text PathItem) : List (Text × List Method) :=
  items.map fun p => (p.1, p.2.map Prod.fst)

/-- **The paths of an entity and their methods.** Where the names of its relationships differ and
hold no slash, its collection comes first and then its items, and after these two paths for each
relationship to a covered entity, in the order of the fields. Only a to-many relationship can be
added to. The paths can be made when the rules of the entity and of the targets can be read, and the
filters of what is listed can be built. -/
theorem paths_laid_out
    (hnames : ((e.fields.filter r.model.isRelationship).map (·.name)).Nodup)
    (hslash : ∀ f ∈ e.fields, r.model.isRelationship f = true → .char '/' ∉ f.name.points) :
    (Succeeds (r.paths e) ↔ Succeeds (r.openness e) ∧ r.model.Filterable e ∧
      ∀ route ∈ r.routes e, Succeeds (r.openness route.2) ∧
        (route.1.array = true → r.model.Filterable route.2)) ∧
    ∀ items, r.paths e = .ok items → layout items =
      [(r.base e, [.get, .post]),
        (r.base e ++ "/\x7bid\x7d", [.get, .put, .patch, .delete])] ++
      ((e.fields.filter r.model.isRelationship).filter fun f =>
        Assoc.has r.included f.typeName).flatMap fun f =>
          [(r.base e ++ "/\x7bid\x7d/" ++ f.name, [.get]),
            (r.base e ++ "/\x7bid\x7d/relationships/" ++ f.name,
              [.get, .put, .patch] ++ if f.array then [.post] else [])] := by
  refine ⟨succeeds_paths_iff, ?_⟩
  intro items h
  obtain ⟨rules, filters, related, -, -, hrelated, rfl⟩ :=
    writes_of_paths h (nodup_keys_subjects hnames hslash)
  have hroute : related.map layout = (r.routes e).map fun route =>
      [(r.base e ++ "/\x7bid\x7d/" ++ route.1.name, [.get]),
        (r.base e ++ "/\x7bid\x7d/relationships/" ++ route.1.name,
          [.get, .put, .patch] ++ if route.1.array then [.post] else [])] := by
    apply map_eq_map_of_forall₂ hrelated
    intro route pairs hpairs
    obtain ⟨targetRules, filters, -, -, rfl⟩ := routePaths_eq_ok_iff.1 hpairs
    rw [relationshipPaths, ← relatedPath_eq, ← relationshipPath_eq]
    split_ifs <;> rfl
  calc layout (r.ownPaths e rules filters ++ related.flatten)
      = layout (r.ownPaths e rules filters) ++ (related.map layout).flatten := by
        rw [layout, List.map_append, List.map_flatten]
        rfl
    _ = _ := by
        rw [hroute, ← fields_of_routes, List.flatMap_map, List.flatMap_def]
        rfl

end Routing

/-- Users can be listed and created, read and changed; their posts be read, linked and unlinked. -/
theorem Blog.paths_of_user_laid_out : ∃ items, generator.routing.paths user = .ok items ∧
    Routing.layout items = ([("/user", [.get, .post]),
      ("/user/\x7bid\x7d", [.get, .put, .patch, .delete]),
      ("/user/\x7bid\x7d/posts", [.get]),
      ("/user/\x7bid\x7d/relationships/posts", [.get, .put, .patch, .post])] :
        List (Text × List Method)) := by
  obtain ⟨items, hitems⟩ : ∃ items, generator.routing.paths user = .ok items := ⟨_, rfl⟩
  have hlayout := (Routing.paths_laid_out (r := generator.routing) (e := user) (by decide)
    (by decide)).2 items hitems
  exact ⟨items, hitems, hlayout⟩

end ResourceApi
