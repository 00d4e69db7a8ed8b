import ResourceApi.Proofs.Fallible
import ResourceApi.Proofs.OrderedMap
import ResourceApi.Proofs.Words
import ResourceApi.Schema.Component

/-!
# Names of schemas

The names that a model gives to schemas: the shared names, the declared names, and for an entity
the names of its requests and responses. They are the keys of the schemas built from the model
(`mem_keys_componentSchemas`). Those that no entity gives are the *plain* names.
-/

namespace ResourceApi

open Schema

/-! ## The names of a model -/

/-- The names of the schemas that every document shares. -/
def Schema.sharedNames : List Text :=
  ["_jsonapi", "_meta", "_resourceIdentifier", "_resource", "_links", "_pagination", "_errors",
    "_errorResponse", "_relationLinks", "_toOneRelationship", "_toOneRelationshipWithLinks",
    "_toManyRelationship", "_toManyRelationshipWithLinks", "_pagedRelationLinks",
    "_toManyRelationshipRequest", "_toOneRelationshipRequest", "_toManyRelationshipResponse",
    "_toOneRelationshipResponse"]

/-- The names of an entity's schemas. -/
def Entity.schemaNames (e : Entity) : List Text :=
  [e.name, e.createRequest, e.updateRequest, e.response, e.listResponse]

/-- The names of all named schemas of a model. -/
def Model.schemaNames (m : Model) : List Text :=
  sharedNames ++ m.enums.map (·.name) ++ m.entities.flatMap Entity.schemaNames ++
    m.types.map (·.name)

/-- The names of schemas that no entity gives. -/
def Model.plainNames (m : Model) : List Text :=
  sharedNames ++ m.enums.map (·.name) ++ m.types.map (·.name)

theorem keys_shared (style : NullStyle) : Assoc.keys (shared style) = sharedNames := by
  cases style <;> rfl

theorem relationship_mem_sharedNames (toMany withLinks : Bool) :
    relationship toMany withLinks ∈ sharedNames := by
  cases toMany <;> cases withLinks <;>
    simp [relationship, sharedNames, ← Text.ofString_append, Text.ofString_inj]

namespace Model

variable {m : Model} {n : Text} {style : NullStyle}

theorem mem_schemaNames_iff : n ∈ m.schemaNames ↔ n ∈ sharedNames ∨ (∃ d ∈ m.enums, d.name = n) ∨
    (∃ e ∈ m.entities, n ∈ e.schemaNames) ∨ ∃ d ∈ m.types, d.name = n := by
  simp only [schemaNames, List.mem_append, List.mem_map, List.mem_flatMap, or_assoc]

theorem mem_schemaNames_of_entity {e : Entity} (he : e ∈ m.entities) (h : n ∈ e.schemaNames) :
    n ∈ m.schemaNames :=
  mem_schemaNames_iff.2 (.inr (.inr (.inl ⟨e, he, h⟩)))

theorem mem_plainNames_iff : n ∈ m.plainNames ↔
    n ∈ sharedNames ∨ (∃ d ∈ m.enums, d.name = n) ∨ ∃ d ∈ m.types, d.name = n := by
  simp only [plainNames, List.mem_append, List.mem_map, or_assoc]

theorem mem_plainNames_of_shared (h : n ∈ sharedNames) : n ∈ m.plainNames :=
  mem_plainNames_iff.2 (.inl h)

theorem mem_plainNames_of_enum (h : ∃ d ∈ m.enums, d.name = n) : n ∈ m.plainNames :=
  mem_plainNames_iff.2 (.inr (.inl h))

theorem mem_schemaNames_of_plain (h : n ∈ m.plainNames) : n ∈ m.schemaNames := by
  rw [mem_schemaNames_iff]
  rcases mem_plainNames_iff.1 h with hshared | henum | htype
  · exact .inl hshared
  · exact .inr (.inl henum)
  · exact .inr (.inr (.inr htype))

/-! ## Looking names up -/

theorem resolve_eq_ok_iff {name : Text} {owner : Option Text} {d : Declaration} :
    m.resolve name owner = .ok d ↔ m.resolve? name = some d := by
  unfold resolve
  cases m.resolve? name <;> simp

/-- A name is looked up among the entities first. -/
theorem resolve?_cases {d : Declaration} (h : m.resolve? n = some d) :
    (∃ e ∈ m.entities, d = .entity e ∧ m.entity? n = some e) ∨
      (m.entity? n = none ∧ ((∃ x ∈ m.enums, d = .enum x) ∨ ∃ x ∈ m.types, d = .type x)) := by
  unfold resolve? at h
  cases he : m.entity? n with
  | some e =>
    rw [he] at h
    cases h
    exact .inl ⟨e, List.mem_of_find?_eq_some he, rfl, rfl⟩
  | none =>
    rw [he] at h
    cases hx : m.enums.find? (·.name == n) with
    | some x =>
      rw [hx] at h
      cases h
      exact .inr ⟨rfl, .inl ⟨x, List.mem_of_find?_eq_some hx, rfl⟩⟩
    | none =>
      rw [hx] at h
      obtain ⟨x, hx, rfl⟩ := Option.map_eq_some_iff.1 h
      exact .inr ⟨rfl, .inr ⟨x, List.mem_of_find?_eq_some hx, rfl⟩⟩

theorem mem_enums_of_resolve {d : EnumDecl} (h : m.resolve? n = some (.enum d)) :
    d ∈ m.enums := by
  rcases resolve?_cases h with ⟨e, -, heq, -⟩ | ⟨-, ⟨x, hx, heq⟩ | ⟨x, -, heq⟩⟩
  · cases heq
  · cases heq
    exact hx
  · cases heq

/-! ## Keys -/

theorem keys_entitySchemas {e : Entity} {pairs : List (Text × Json)}
    (h : m.entitySchemas style e = .ok pairs) : Assoc.keys pairs = e.schemaNames := by
  obtain ⟨read, -, h⟩ := bind_eq_ok_iff.1 h
  obtain ⟨create, -, h⟩ := bind_eq_ok_iff.1 h
  obtain ⟨update, -, h⟩ := bind_eq_ok_iff.1 h
  cases h
  rfl

/-- What the named schemas are written from. -/
theorem componentSchemas_eq_ok_iff {schemas : Assoc Text Json} :
    m.componentSchemas style = .ok schemas ↔ ∃ entities types,
      List.Forall₂ (fun e pairs => m.entitySchemas style e = .ok pairs) m.entities entities ∧
      List.Forall₂ (fun d p => (m.typeSchema style d).map (Prod.mk d.name) = .ok p)
        m.types types ∧
      Assoc.ofList (shared style ++ m.enums.map (fun d => (d.name, d.schema)) ++
        entities.flatten ++ types) = schemas := by
  simp only [componentSchemas, bind_eq_ok_iff, mapM_eq_ok_iff]
  constructor
  · intro hparts
    obtain ⟨entities, hentities, types, htypes, h⟩ := hparts
    cases h
    exact ⟨entities, types, hentities, htypes, rfl⟩
  · intro hparts
    obtain ⟨entities, types, hentities, htypes, rfl⟩ := hparts
    exact ⟨entities, hentities, types, htypes, rfl⟩

/-- **Every name of the model has a schema**, and no other name. -/
theorem mem_keys_componentSchemas {schemas : Assoc Text Json}
    (h : m.componentSchemas style = .ok schemas) : n ∈ Assoc.keys schemas ↔ n ∈ m.schemaNames := by
  obtain ⟨entities, types, hentities, htypes, rfl⟩ := componentSchemas_eq_ok_iff.1 h
  have hentityKeys : entities.map Assoc.keys = m.entities.map Entity.schemaNames :=
    map_eq_map_of_forall₂ hentities fun _ _ => keys_entitySchemas
  have htypeKeys : Assoc.keys types = m.types.map (·.name) :=
    map_eq_map_of_forall₂ htypes fun d p hp => by
      obtain ⟨s, -, rfl⟩ := map_eq_ok_iff.1 hp
      rfl
  have henumKeys : Assoc.keys (m.enums.map fun d => (d.name, d.schema)) = m.enums.map (·.name) :=
    List.map_map
  rw [Assoc.mem_keys_ofList, Assoc.keys_append, Assoc.keys_append, Assoc.keys_append,
    Assoc.keys_flatten, keys_shared, henumKeys, hentityKeys, htypeKeys, schemaNames,
    List.flatMap_def]

end Model

end ResourceApi
