import ResourceApi.Proofs.Endpoint
import ResourceApi.Proofs.SchemaMention

/-!
# Resolved references

Operations mention the enumerations that their filters take, the schema of their body and those of
their responses. The body and the success of an endpoint belong to its entity or its governor, or
are shared (`Routing.mentions_of_serves`). So the paths of a document mention plain schemas and
those of the entities it covers (`mentions_paths_cases`).

**No dangling reference, no orphan** (`document_references_resolved`). All names of the model have a
schema before pruning, so a mentioned name has one, and it is kept because it is linked. What is
kept is linked, and pruning keeps the chain that links it.
-/

namespace ResourceApi

open Schema Json

/-! ## Operations -/

section

variable {n : Text}

theorem mentions_filterParameter {p : FilterParameter} :
    p.toJson.Mentions n ↔ p.schema.Mentions n := by
  simp [FilterParameter.toJson, mentions_obj_cons, Text.ofString_inj]

@[simp] theorem mentions_content {name : Text} : (content name).Mentions n ↔ n = name := by
  simp [content, mentions_obj_cons, Text.ofString_inj]

@[simp] theorem mentions_requestBody {name : Text} : (requestBody name).Mentions n ↔ n = name := by
  simp [requestBody, mentions_obj_cons, Text.ofString_inj]

theorem schema_of_mentions_response {a : Response} (hn : a.toJson.Mentions n) :
    a.schema = some n := by
  obtain ⟨description, schema⟩ := a
  cases schema with
  | none => simp [Response.toJson, mentions_obj_cons, Text.ofString_inj] at hn
  | some name =>
    by_cases hempty : name.isEmpty
    · simp [Response.toJson, mentions_obj_cons, Text.ofString_inj, hempty] at hn
    · simp [Response.toJson, mentions_obj_cons, Text.ofString_inj, hempty] at hn
      rw [hn]

theorem mentions_memberIf {k : Text} {v? : Option Json} (hk : k ≠ "$ref") :
    (obj (memberIf k v?)).Mentions n ↔ ∃ v, v? = some v ∧ v.Mentions n := by
  cases v? with
  | none => simp [memberIf]
  | some v => simp [memberIf, mentions_obj_cons, hk]

theorem mentions_operation {o : Operation} (hn : o.toJson.Mentions n) :
    (∃ ps, o.parameters = some ps ∧ ∃ p, .filter p ∈ ps ∧ p.schema.Mentions n) ∨
      o.body = some n ∨ ∃ a ∈ o.responses, a.2.schema = some n := by
  have hparts : (∃ ps, o.parameters = some ps ∧ ∃ p ∈ ps, p.toJson.Mentions n) ∨
      o.body = some n ∨ (obj (o.responses.map fun a => (a.1, a.2.toJson))).Mentions n := by
    simp only [Operation.toJson, mentions_obj_append] at hn
    rcases hn with (((((hn | hn) | hn) | hn) | hn) | hn) | hn
    · simp [member, mentions_obj_cons, Text.ofString_inj] at hn
    · simp [member, mentions_obj_cons, Text.ofString_inj] at hn
    · simp [member, mentions_obj_cons, Text.ofString_inj] at hn
    · rw [mentions_memberIf (by simp [Text.ofString_inj])] at hn
      obtain ⟨v, hv, hn⟩ := hn
      obtain ⟨ps, hps, rfl⟩ := Option.map_eq_some_iff.1 hv
      obtain ⟨v, hv, hn⟩ := mentions_arr_iff.1 hn
      obtain ⟨p, hp, rfl⟩ := List.mem_map.1 hv
      exact .inl ⟨ps, hps, p, hp, hn⟩
    · rw [mentions_memberIf (by simp [Text.ofString_inj])] at hn
      obtain ⟨v, hv, hn⟩ := hn
      obtain ⟨name, hname, rfl⟩ := Option.map_eq_some_iff.1 hv
      rw [mentions_requestBody.1 hn]
      exact .inr (.inl hname)
    · simp only [member, mentions_obj_cons, not_mentions_obj_nil, or_false] at hn
      exact .inr (.inr (hn.resolve_left fun h => by simp [Text.ofString_inj] at h))
    · rw [mentions_memberIf (by simp [Text.ofString_inj])] at hn
      obtain ⟨v, hv, hn⟩ := hn
      split_ifs at hv
      cases hv
      exact absurd hn not_mentions_arr_nil
  rcases hparts with ⟨ps, hps, p, hp, hn⟩ | hbody | hn
  · cases p with
    | shared p => exact absurd hn (not_mentions_parameterRef _)
    | filter p => exact .inl ⟨ps, hps, p, hp, mentions_filterParameter.1 hn⟩
  · exact .inr (.inl hbody)
  · rw [mentions_obj_of_objects] at hn
    · obtain ⟨p, hp, hn⟩ := hn
      obtain ⟨a, ha, rfl⟩ := List.mem_map.1 hp
      exact .inr (.inr ⟨a, ha, schema_of_mentions_response hn⟩)
    · intro p hp
      obtain ⟨a, -, rfl⟩ := List.mem_map.1 hp
      trivial

theorem mentions_pathItem_iff {item : PathItem} :
    item.toJson.Mentions n ↔ ∃ a ∈ item, a.2.toJson.Mentions n := by
  have hobject (a : Method × Operation) : IsObject a.2.toJson := trivial
  exact mentions_obj_map hobject

theorem mentions_pathsJson_iff {paths : Assoc Text PathItem} :
    (pathsJson paths).Mentions n ↔ ∃ p ∈ paths, p.2.toJson.Mentions n := by
  have hobject (p : Text × PathItem) : IsObject p.2.toJson := trivial
  exact mentions_obj_map hobject

theorem mentions_pathsJson {paths : Assoc Text PathItem} (hn : (pathsJson paths).Mentions n) :
    ∃ path item, (path, item) ∈ paths ∧ ∃ m o, (m, o) ∈ item ∧ o.toJson.Mentions n := by
  obtain ⟨⟨path, item⟩, hitem, hn⟩ := mentions_pathsJson_iff.1 hn
  obtain ⟨⟨m, o⟩, ho, hn⟩ := mentions_pathItem_iff.1 hn
  exact ⟨path, item, hitem, m, o, ho, hn⟩

end

/-! ## Endpoints -/

namespace Endpoint

variable {r : Routing} {e : Entity} {rules : Openness} {filters : List FilterParameter} {n : Text}

theorem relationshipRequest_mem_sharedNames (f : Field) :
    Routing.relationshipRequest f ∈ sharedNames := by
  unfold Routing.relationshipRequest
  split_ifs <;> simp [sharedNames]

theorem relationshipResponse_mem_sharedNames (f : Field) :
    Routing.relationshipResponse f ∈ sharedNames := by
  unfold Routing.relationshipResponse
  split_ifs <;> simp [sharedNames]

theorem body_mem_schemaNames (x : Endpoint) (h : (x.operation r e rules filters).body = some n) :
    n ∈ e.schemaNames ∨ n ∈ sharedNames := by
  cases x with
  | create =>
    cases h
    exact .inl (by simp [Entity.schemaNames])
  | update m =>
    cases h
    exact .inl (by simp [Entity.schemaNames])
  | relink f target m =>
    cases h
    exact .inr (relationshipRequest_mem_sharedNames f)
  | link f target =>
    cases h
    exact .inr (by simp [sharedNames])
  | _ => cases h

/-- The success that an endpoint answers with; the other answers are failures. -/
def success (e : Entity) : Endpoint → Option Text
  | .list => some e.listResponse
  | .create | .fetch | .update _ => some e.response
  | .delete => none
  | .related f target => if f.array then some target.listResponse else some target.response
  | .linkage f _ | .relink f _ _ => some (Routing.relationshipResponse f)
  | .link .. => some "_toManyRelationshipResponse"

theorem response_cases (x : Endpoint) {a : Text × Response}
    (ha : a ∈ (x.operation r e rules filters).responses) :
    a.2.schema = x.success e ∨ a.2.schema = some "_errorResponse" := by
  cases x <;>
    simp only [operation, Routing.list, Routing.create, Routing.fetch, Routing.update,
      Routing.delete, Routing.fetchRelated, Routing.fetchRelationship, Routing.updateRelationship,
      Routing.createRelationship, List.mem_cons, List.not_mem_nil, or_false] at ha <;>
    rcases ha with rfl | rfl | rfl | rfl <;>
    simp [success, Response.success, Response.forbidden, Response.notFound, Response.invalid,
      Response.failure]

theorem success_mem_schemaNames (x : Endpoint) (h : x.success e = some n) :
    n ∈ (x.governor e).schemaNames ∨ n ∈ sharedNames := by
  cases x with
  | delete => cases h
  | linkage f target | relink f target m =>
    cases h
    exact .inr (relationshipResponse_mem_sharedNames f)
  | link f target =>
    cases h
    exact .inr (by simp [sharedNames])
  | related f target =>
    simp only [success] at h
    split_ifs at h <;> cases h <;> exact .inl (by simp [Entity.schemaNames, governor])
  | _ =>
    cases h
    exact .inl (by simp [Entity.schemaNames, governor])

theorem mem_filters_of_parameters (x : Endpoint) {ps : List Parameter}
    (h : (x.operation r e rules filters).parameters = some ps) {p : FilterParameter}
    (hp : .filter p ∈ ps) : p ∈ filters := by
  cases x with
  | create => cases h
  | list =>
    cases h
    simpa [Routing.collectionParameters] using hp
  | related f target | linkage f target =>
    cases h
    unfold Routing.targetParameters at hp
    split_ifs at hp
    · simpa [Routing.collectionParameters] using hp
    · simp at hp
  | _ =>
    cases h
    simp at hp

/-- The filters that an endpoint takes are those of the entity that it lists. -/
theorem filters_cases {x : Endpoint} (h : x.filters r e = .ok filters) :
    filters = [] ∨ ∃ e', x.listed? e = some e' ∧ r.model.filters e' = .ok filters := by
  have hown {e' : Entity} (h : r.filters e' = .ok filters) : r.model.filters e' = .ok filters :=
    mapError_eq_ok_iff.1 h
  cases x with
  | list => exact .inr ⟨e, rfl, hown h⟩
  | related f target | linkage f target =>
    replace h : r.targetFilters f target = .ok filters := h
    unfold Routing.targetFilters at h
    split_ifs at h with harray
    · exact .inr ⟨target, if_pos harray, hown h⟩
    · cases h
      exact .inl rfl
  | _ =>
    cases h
    exact .inl rfl

/-- **A filter among the parameters of an operation is one of some entity's.** -/
theorem Serves.exists_filters {x : Endpoint} {path : Text} {m : Method} {o : Operation}
    (h : x.Serves r e path m o) {ps : List Parameter} (hps : o.parameters = some ps)
    {p : FilterParameter} (hp : .filter p ∈ ps) :
    ∃ e' filters, r.model.filters e' = .ok filters ∧ p ∈ filters := by
  obtain ⟨rules, filters, -, hfilters, rfl⟩ := h.built
  have hmem := x.mem_filters_of_parameters hps hp
  rcases filters_cases hfilters with rfl | ⟨e', -, he'⟩
  · cases hmem
  · exact ⟨e', filters, he', hmem⟩

end Endpoint

/-! ## Documents -/

/-- **Operations mention plain schemas**, and those of their entity and their governor. -/
theorem Routing.mentions_of_serves {r : Routing} {e : Entity} {x : Endpoint} {path : Text}
    {m : Method} {o : Operation} {n : Text} (h : x.Serves r e path m o) (hn : o.toJson.Mentions n) :
    n ∈ r.model.plainNames ∨ n ∈ e.schemaNames ∨ n ∈ (x.governor e).schemaNames := by
  obtain ⟨rules, filters, -, -, rfl⟩ := h.built
  rcases mentions_operation hn with ⟨ps, hps, p, hp, hn⟩ | hbody | ⟨a, ha, hschema⟩
  · obtain ⟨e', filters', he', hp⟩ := h.exists_filters hps hp
    exact .inl (Model.mem_plainNames_of_enum (Model.mentions_filters he' hp hn))
  · rcases x.body_mem_schemaNames hbody with hown | hshared
    · exact .inr (.inl hown)
    · exact .inl (Model.mem_plainNames_of_shared hshared)
  · rcases x.response_cases ha with hsuccess | herror
    · rcases x.success_mem_schemaNames (hsuccess ▸ hschema) with hgovernor | hshared
      · exact .inr (.inr hgovernor)
      · exact .inl (Model.mem_plainNames_of_shared hshared)
    · rw [herror] at hschema
      cases hschema
      exact .inl (Model.mem_plainNames_of_shared (by simp [sharedNames]))

namespace Generator

variable {g : Generator} {n : Text}

theorem mem_covered_of_included {p : Text × Entity} (hp : p ∈ g.routing.included) :
    p.2 ∈ g.covered := by
  obtain ⟨e, he, rfl⟩ := List.mem_map.1 (Assoc.mem_of_mem_ofList hp)
  exact he

theorem mem_covered_of_mem_routes {e : Entity} {route : Field × Entity}
    (h : route ∈ g.routing.routes e) : route.2 ∈ g.covered := by
  obtain ⟨-, -, hget⟩ := Routing.mem_routes_iff.1 h
  exact mem_covered_of_included (Assoc.mem_of_get? hget)

/-- A governor of an endpoint is covered when the entity is: it is the entity itself or the target
of a route, and routes lead to covered entities. -/
theorem governor_mem_covered {e : Entity} (he : e ∈ g.covered) {x : Endpoint}
    (hx : x ∈ g.routing.endpoints e) : x.governor e ∈ g.covered := by
  rcases Routing.governor_cases hx with heq | ⟨f, hroute⟩
  · rw [heq]
    exact he
  · exact mem_covered_of_mem_routes hroute

/-- **Paths mention plain schemas and those of covered entities.** -/
theorem mentions_paths_cases {d : Document} (h : g.document = .ok d)
    (hn : (pathsJson d.paths).Mentions n) :
    n ∈ g.model.plainNames ∨ ∃ e ∈ g.covered, n ∈ e.schemaNames := by
  obtain ⟨path, item, hitem, m, o, ho, hn⟩ := mentions_pathsJson hn
  obtain ⟨e, he, x, hx, hserves⟩ := exists_serves_of_document h hitem ho
  rcases Routing.mentions_of_serves hserves hn with hplain | hown | hgovernor
  · exact .inl hplain
  · exact .inr ⟨e, he, hown⟩
  · exact .inr ⟨_, governor_mem_covered he hx, hgovernor⟩

theorem mentions_paths {d : Document} (h : g.document = .ok d)
    (hn : (pathsJson d.paths).Mentions n) : n ∈ g.model.schemaNames := by
  rcases mentions_paths_cases h hn with hplain | ⟨e, he, hn⟩
  · exact Model.mem_schemaNames_of_plain hplain
  · exact Model.mem_schemaNames_of_entity (g.covered_sublist.subset he) hn

theorem schemas_of_document {d : Document} (h : g.document = .ok d) :
    ∃ schemas, g.model.componentSchemas g.nullStyle = .ok schemas ∧
      d.schemas = prune (pathsJson d.paths) schemas := by
  obtain ⟨schemes, schemas, paths, -, hschemas, -, rfl⟩ := document_eq_ok_iff.1 h
  exact ⟨schemas, mapError_eq_ok_iff.1 hschemas, rfl⟩

/-- **No dangling reference, no orphan.** Every name that the paths or a schema of a document
mention has a schema in it, and every schema of it is linked to the paths through its schemas. -/
theorem document_references_resolved {d : Document} (h : g.document = .ok d) :
    (∀ n, (pathsJson d.paths).Mentions n ∨ (∃ m s, Assoc.get? d.schemas m = some s ∧ s.Mentions n) →
      n ∈ Assoc.keys d.schemas) ∧
    ∀ n ∈ Assoc.keys d.schemas, Linked (pathsJson d.paths) d.schemas n := by
  obtain ⟨schemas, hschemas, hd⟩ := schemas_of_document h
  rw [hd]
  have hkept : ∀ n ∈ g.model.schemaNames, Linked (pathsJson d.paths) schemas n →
      n ∈ Assoc.keys (prune (pathsJson d.paths) schemas) := by
    intro n hn hlinked
    obtain ⟨s, hs⟩ := Assoc.exists_of_mem_keys ((Model.mem_keys_componentSchemas hschemas).2 hn)
    exact Assoc.mem_keys_of_mem (mem_prune_iff.2 ⟨hs, hlinked⟩)
  refine ⟨?_, fun n hn => (linked_of_mem_keys_prune hn).prune⟩
  intro n hcases
  rcases hcases with hn | ⟨m, s, hs, hn⟩
  · exact hkept n (mentions_paths h hn) (.root hn)
  · obtain ⟨hmem, hlinked⟩ := mem_prune_iff.1 (Assoc.mem_of_get? hs)
    have hget : Assoc.get? schemas m = some s := get?_prune_of_linked hlinked ▸ hs
    exact hkept n (Model.mentions_componentSchemas hschemas hmem hn) (.step hlinked hget hn)

end Generator

/-- Listing posts needs a schema of the blog that is kept. -/
theorem Blog.references_resolved : ∃ d, generator.document = .ok d ∧
    ("PostListResponse" : Text) ∈ Assoc.keys d.schemas ∧
    Linked (pathsJson d.paths) d.schemas "PostListResponse" := by
  obtain ⟨d, hd⟩ : ∃ d, generator.document = .ok d := ⟨_, rfl⟩
  obtain ⟨hresolved, hlinked⟩ := Generator.document_references_resolved hd
  have hmentions : (pathsJson d.paths).Mentions "PostListResponse" := by
    cases hd
    exact mem_refs_iff.1 (by decide +kernel)
  have hkey : ("PostListResponse" : Text) ∈ Assoc.keys d.schemas :=
    hresolved _ (.inl hmentions)
  exact ⟨d, hd, hkey, hlinked _ hkey⟩

end ResourceApi
