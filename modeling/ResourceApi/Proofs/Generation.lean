import ResourceApi.Proofs.FilterBlock
import ResourceApi.Proofs.ResolvedReference

/-!
# When a document can be generated

Once the version of the target format, the security schemes and the rules of every entity can be
read, only a type name that refers to nothing can keep a document from being generated.

**Paths** (`Routing.succeeds_paths_iff`). They are made from rules, which can be read, and from
filters, whose fields resolve.

**Documents** (`generation_fails_iff_unresolved`). All schemas of the model are built, those of
entities that the document does not cover among them, and they look at every field. So generating
fails with an unresolved type name exactly when the check of the model's references does, and gives
a document otherwise.
-/

namespace ResourceApi

/-! ## Paths -/

namespace Routing

variable {r : Routing} {e : Entity}

theorem succeeds_routePaths_iff {rules : Openness} {route : Field × Entity} :
    Succeeds (r.routePaths e rules route) ↔
      Succeeds (r.openness route.2) ∧ (route.1.array = true → r.model.Filterable route.2) := by
  have hfilters : Succeeds (r.targetFilters route.1 route.2) ↔
      (route.1.array = true → r.model.Filterable route.2) := by
    unfold targetFilters
    split_ifs with harray
    · simp [harray, filters, Model.succeeds_filters_iff]
    · simp [harray]
  refine succeeds_bind_of_forall fun targetRules => ?_
  refine (succeeds_bind_of_forall fun filters => iff_true_intro (succeeds_ok _)).trans ?_
  rw [and_true, hfilters]

/-- **The paths of an entity can be made** when the rules of the entity and of its targets can be
read, and the filters of what its paths list can be built. -/
theorem succeeds_paths_iff : Succeeds (r.paths e) ↔
    Succeeds (r.openness e) ∧ r.model.Filterable e ∧ ∀ route ∈ r.routes e,
      Succeeds (r.openness route.2) ∧ (route.1.array = true → r.model.Filterable route.2) := by
  refine succeeds_bind_of_forall fun rules => ?_
  refine (succeeds_bind_of_forall fun filters => ?_).trans
    (and_congr_left' (succeeds_mapError_iff.trans Model.succeeds_filters_iff))
  refine (succeeds_bind_of_forall fun related => iff_true_intro (succeeds_ok _)).trans ?_
  rw [and_true, succeeds_mapM_iff]
  exact forall₂_congr fun route _ => succeeds_routePaths_iff

end Routing

/-! ## Documents -/

namespace Generator

variable {g : Generator}

theorem succeeds_paths (hopen : ∀ e, Succeeds (g.openness e))
    (hrefs : g.model.checkReferences = .ok ()) : Succeeds g.paths := by
  have hfilterable {e : Entity} (he : e ∈ g.covered) : g.model.Filterable e :=
    Model.filterable_of_checkReferences hrefs (g.covered_sublist.subset he)
  rw [Generator.paths, succeeds_map_iff, succeeds_mapM_iff]
  exact fun e he => Routing.succeeds_paths_iff.2 ⟨hopen e, hfilterable he, fun route hroute =>
    ⟨hopen route.2, fun _ => hfilterable (mem_covered_of_mem_routes hroute)⟩⟩

theorem document_cases {schemes : Option (Assoc Text SecurityScheme)}
    (hschemes : readSecuritySchemes g.options.securitySchemes = .ok schemes)
    (hopen : ∀ e, Succeeds (g.openness e)) :
    (g.model.checkReferences = .ok () ∧ Succeeds g.document) ∨
      (¬ Succeeds g.model.checkReferences ∧ ∃ u, g.document = .error (.unresolved u)) := by
  cases hschemas : g.model.componentSchemas g.nullStyle with
  | ok schemas =>
    have hrefs := Model.succeeds_componentSchemas_iff.1 ⟨schemas, hschemas⟩
    obtain ⟨paths, hpaths⟩ := succeeds_paths hopen hrefs
    exact .inl ⟨hrefs, _, document_eq_ok_iff.2 ⟨schemes, schemas, paths, hschemes,
      mapError_eq_ok_iff.2 hschemas, hpaths, rfl⟩⟩
  | error u =>
    refine .inr ⟨?_, u, ?_⟩
    · rw [succeeds_iff_eq_ok, ← Model.succeeds_componentSchemas_iff, hschemas]
      exact not_succeeds_error u
    · have hfailed : g.schemas = .error (.unresolved u) := by
        rw [schemas, hschemas]
        rfl
      rw [document, hschemes, hfailed]
      rfl

/-- **Generating fails on an unresolved type name exactly when the check of references fails**, and
otherwise it gives a document: whichever entities are ignored or left out, and whatever the flags of
the fields. -/
theorem generation_fails_iff_unresolved {m : Model} {o : Options}
    {openness : Entity → Except Failure Openness} {style : NullStyle}
    {schemes : Option (Assoc Text SecurityScheme)} (hstyle : o.nullStyle = .ok style)
    (hschemes : readSecuritySchemes o.securitySchemes = .ok schemes)
    (hopen : ∀ e, ∃ rules, openness e = .ok rules) :
    ((∃ u, (Generator.new m o openness >>= Generator.document) = .error (.unresolved u)) ↔
        ∃ u, m.checkReferences = .error u) ∧
      ((∃ d, (Generator.new m o openness >>= Generator.document) = .ok d) ↔
        ¬ ∃ u, m.checkReferences = .error u) := by
  have hnew : Generator.new m o openness = .ok ⟨m, o, style, openness⟩ :=
    new_eq_ok_iff.2 ⟨style, hstyle, rfl⟩
  have hbind : (Generator.new m o openness >>= Generator.document) =
      Generator.document ⟨m, o, style, openness⟩ := by
    rw [hnew]
    rfl
  rw [hbind, exists_error_iff_not_succeeds, not_not]
  rcases document_cases (g := ⟨m, o, style, openness⟩) hschemes hopen with
    ⟨hrefs, d, hd⟩ | ⟨hrefs, u, hu⟩
  · rw [hd]
    have hpasses : Succeeds m.checkReferences := ⟨_, hrefs⟩
    simp [hpasses]
  · rw [hu]
    simpa using hrefs

end Generator

namespace Blog

/-- A draft, which no document covers. The type of its id is declared nowhere. -/
def draft : Entity where
  name := "Draft"
  fields := [{ name := "id", typeName := "Slug", isId := true, foreignKey := true }]
  ignored := true

/-- A draft keeps the blog from having a document, though it would not be in it. -/
theorem generation_fails_with_draft :
    (∃ u, (Generator.new { generator.model with entities := [post, user, draft] }
        generator.options >>= Generator.document) = .error (.unresolved u)) ∧
      ∃ d, (Generator.new generator.model generator.options >>= Generator.document) = .ok d := by
  have hstyle : generator.options.nullStyle = .ok .flag := rfl
  have hschemes : readSecuritySchemes generator.options.securitySchemes = .ok none := rfl
  constructor
  · refine (Generator.generation_fails_iff_unresolved hstyle hschemes fun e => ⟨_, rfl⟩).1.2 ?_
    exact ⟨⟨"Slug", some "Draft.id"⟩, by rfl⟩
  · refine (Generator.generation_fails_iff_unresolved hstyle hschemes fun e => ⟨_, rfl⟩).2.2 ?_
    intro hfails
    obtain ⟨u, hu⟩ := hfails
    cases hu

end Blog

end ResourceApi
