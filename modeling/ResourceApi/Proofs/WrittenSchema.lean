import ResourceApi.Proofs.Resolution
import ResourceApi.Proofs.SchemaName

/-!
# Schemas by declaration

After the shared schemas, the named schemas of a model are written declaration by declaration: the
enumerations, the entities and the structured types. A declaration writes a schema of its own under
its name, and an entity writes four more, the envelopes of its requests and responses.

**Last write** (`get?_of_last_write`, `exists_later_write`). What stands under a name was written
last: a schema stays where no later declaration writes the name, and otherwise one of the later
declarations has replaced it.

**Two kinds of schemas** (`exists_own_of_declarationSchemas`). An envelope says that `data` must be
given, and a declaration's own schema never does. So the two never stand in for each other.
-/

namespace ResourceApi

open Schema Json

/-! ## Declarations in the order of writing -/

namespace Entity

/-- The names of the envelopes that hold one resource. -/
def singleNames (e : Entity) : List Text := [e.createRequest, e.updateRequest, e.response]

/-- The names of an entity's requests and responses. -/
def envelopeNames (e : Entity) : List Text := e.singleNames ++ [e.listResponse]

theorem nodup_schemaNames (e : Entity) : e.schemaNames.Nodup := by
  simp [schemaNames, createRequest, updateRequest, response, listResponse,
    Text.eq_append_right_iff, Text.append_right_inj, Text.ofString_inj]

end Entity

namespace Declaration

/-- The names of the envelopes; only an entity has any. -/
def envelopeNames : Declaration → List Text
  | .entity e => e.envelopeNames
  | _ => []

/-- All names that a declaration gives to schemas. -/
def schemaNames (d : Declaration) : List Text := d.name :: d.envelopeNames

theorem nodup_schemaNames (d : Declaration) : d.schemaNames.Nodup := by
  cases d with
  | entity e => exact e.nodup_schemaNames
  | _ => exact List.nodup_singleton _

end Declaration

namespace Model

/-- All declarations, in the order in which their schemas are written. -/
def declarations (m : Model) : List Declaration :=
  m.enums.map .enum ++ m.entities.map .entity ++ m.types.map .type

/-- The names of all declarations. -/
def declaredNames (m : Model) : List Text := m.declarations.map (·.name)

/-- The schema of a declaration itself; that of an entity is the resource object that is read. -/
def ownSchema (m : Model) (style : NullStyle) : Declaration → Except Unresolved Json
  | .enum d => .ok d.schema
  | .entity e => m.entitySchema style .read e
  | .type d => m.typeSchema style d

/-- The schemas that are written for a declaration, with their names. -/
def declarationSchemas (m : Model) (style : NullStyle) :
    Declaration → Except Unresolved (List (Text × Json))
  | .enum d => .ok [(d.name, d.schema)]
  | .entity e => m.entitySchemas style e
  | .type d => (m.typeSchema style d).map fun s => [(d.name, s)]

variable {m : Model} {style : NullStyle} {d : Declaration} {n : Text}

theorem mem_declarations_iff : d ∈ m.declarations ↔ (∃ x ∈ m.enums, .enum x = d) ∨
    (∃ e ∈ m.entities, .entity e = d) ∨ ∃ x ∈ m.types, .type x = d := by
  simp only [declarations, List.mem_append, List.mem_map, or_assoc]

theorem mem_declaredNames_of_mem (h : d ∈ m.declarations) : d.name ∈ m.declaredNames :=
  List.mem_map_of_mem h

theorem exists_entity_of_mem_envelopeNames (hd : d ∈ m.declarations) (hn : n ∈ d.envelopeNames) :
    ∃ e ∈ m.entities, d = .entity e ∧ n ∈ e.envelopeNames := by
  rcases mem_declarations_iff.1 hd with ⟨x, -, rfl⟩ | ⟨e, he, rfl⟩ | ⟨x, -, rfl⟩
  · cases hn
  · exact ⟨e, he, rfl, hn⟩
  · cases hn

theorem keys_declarationSchemas {block : List (Text × Json)}
    (h : m.declarationSchemas style d = .ok block) : Assoc.keys block = d.schemaNames := by
  cases d with
  | «enum» x =>
    cases h
    rfl
  | entity e => exact keys_entitySchemas h
  | type x =>
    obtain ⟨s, -, rfl⟩ := map_eq_ok_iff.1 h
    rfl

/-! ## Writes -/

/-- The named schemas are the shared ones and those of the declarations, one after the other. -/
theorem exists_blocks_of_componentSchemas {schemas : Assoc Text Json}
    (h : m.componentSchemas style = .ok schemas) : ∃ blocks,
      List.Forall₂ (fun d block => m.declarationSchemas style d = .ok block) m.declarations blocks ∧
      schemas = Assoc.ofList (shared style ++ blocks.flatten) := by
  obtain ⟨entities, types, hentities, htypes, rfl⟩ := componentSchemas_eq_ok_iff.1 h
  refine ⟨m.enums.map (fun d => [(d.name, d.schema)]) ++ entities ++ types.map fun p => [p], ?_, ?_⟩
  · refine List.rel_append (List.rel_append ?_ ?_) ?_
    · rw [List.forall₂_map_left_iff, List.forall₂_map_right_iff, List.forall₂_same]
      exact fun d _ => rfl
    · rw [List.forall₂_map_left_iff]
      exact hentities
    · rw [List.forall₂_map_left_iff, List.forall₂_map_right_iff]
      refine htypes.imp fun d p hp => ?_
      obtain ⟨s, hs, rfl⟩ := map_eq_ok_iff.1 hp
      exact map_eq_ok_iff.2 ⟨s, hs, rfl⟩
  · have hsingletons (ps : List (Text × Json)) : (ps.map fun p => [p]).flatten = ps := by
      rw [← List.flatMap_def, List.flatMap_singleton']
    have henums : (m.enums.map fun d => [(d.name, d.schema)]).flatten =
        m.enums.map fun d => (d.name, d.schema) := by
      rw [← hsingletons (m.enums.map _), List.map_map]
      rfl
    rw [List.flatten_append, List.flatten_append, hsingletons, henums]
    simp only [List.append_assoc]

theorem exists_block_of_componentSchemas {schemas : Assoc Text Json}
    (h : m.componentSchemas style = .ok schemas) (hd : d ∈ m.declarations) :
    ∃ block, m.declarationSchemas style d = .ok block := by
  obtain ⟨blocks, hblocks, -⟩ := exists_blocks_of_componentSchemas h
  obtain ⟨block, -, hblock⟩ := exists_of_mem_left hblocks hd
  exact ⟨block, hblock⟩

theorem mem_keys_flatten_iff {ds : List Declaration} {blocks : List (List (Text × Json))}
    (h : List.Forall₂ (fun d block => m.declarationSchemas style d = .ok block) ds blocks) :
    n ∈ Assoc.keys blocks.flatten ↔ ∃ d ∈ ds, n ∈ d.schemaNames := by
  rw [Assoc.keys_flatten, map_eq_map_of_forall₂ h fun _ _ => keys_declarationSchemas,
    ← List.flatMap_def, List.mem_flatMap]

theorem get?_of_shared {schemas : Assoc Text Json} (h : m.componentSchemas style = .ok schemas)
    {s : Json} (hs : (n, s) ∈ shared style) (hn : ∀ d ∈ m.declarations, n ∉ d.schemaNames) :
    Assoc.get? schemas n = some s := by
  obtain ⟨blocks, hblocks, rfl⟩ := exists_blocks_of_componentSchemas h
  have hnone : Assoc.get? (Assoc.ofList blocks.flatten) n = none := by
    rw [Assoc.get?_eq_none_iff, Assoc.mem_keys_ofList, mem_keys_flatten_iff hblocks]
    simpa using hn
  have hnodup : (Assoc.keys (shared style)).Nodup := by
    rw [keys_shared]
    simp [sharedNames, Text.ofString_inj]
  rw [Assoc.get?_ofList_append, hnone, Option.none_or, Assoc.ofList_eq_self hnodup]
  exact (Assoc.get?_eq_some_iff_mem hnodup).2 hs

/-- What stands under a name is what the declarations after a point have written last, if they
write the name at all. -/
theorem exists_later_write {schemas : Assoc Text Json} (h : m.componentSchemas style = .ok schemas)
    {before after : List Declaration} (hm : m.declarations = before ++ after)
    (hn : ∃ d ∈ after, n ∈ d.schemaNames) : ∃ d ∈ after, ∃ block s,
      m.declarationSchemas style d = .ok block ∧ (n, s) ∈ block ∧
      Assoc.get? schemas n = some s := by
  obtain ⟨blocks, hblocks, rfl⟩ := exists_blocks_of_componentSchemas h
  rw [hm] at hblocks
  obtain ⟨bs, as, -, has, rfl⟩ := forall₂_append_left_iff.1 hblocks
  have hkey : n ∈ Assoc.keys (Assoc.ofList as.flatten) :=
    Assoc.mem_keys_ofList.2 ((mem_keys_flatten_iff has).2 hn)
  obtain ⟨s, hs⟩ := Assoc.exists_of_mem_keys hkey
  obtain ⟨block, hblock, hmem⟩ := List.mem_flatten.1 (Assoc.mem_of_mem_ofList hs)
  obtain ⟨d, hd, hok⟩ := exists_of_mem_right has hblock
  refine ⟨d, hd, block, s, hok, hmem, ?_⟩
  have hget := (Assoc.get?_eq_some_iff_mem (Assoc.nodup_keys_ofList _)).2 hs
  rw [List.flatten_append, ← List.append_assoc, Assoc.get?_ofList_append, hget, Option.some_or]

/-- **A schema stays when no later declaration writes its name.** -/
theorem get?_of_last_write {schemas : Assoc Text Json} (h : m.componentSchemas style = .ok schemas)
    {before after : List Declaration} (hm : m.declarations = before ++ d :: after)
    {block : List (Text × Json)} (hd : m.declarationSchemas style d = .ok block) {s : Json}
    (hs : (n, s) ∈ block) (hafter : ∀ d' ∈ after, n ∉ d'.schemaNames) :
    Assoc.get? schemas n = some s := by
  have hwritten : n ∈ d.schemaNames := keys_declarationSchemas hd ▸ Assoc.mem_keys_of_mem hs
  obtain ⟨d', hd', block', s', hblock', hs', hget⟩ :=
    exists_later_write h hm ⟨d, List.mem_cons_self, hwritten⟩
  rcases List.mem_cons.1 hd' with rfl | hd'
  · cases hd.symm.trans hblock'
    have hnodup : (Assoc.keys block).Nodup := keys_declarationSchemas hd ▸ d'.nodup_schemaNames
    rw [hget, ← (Assoc.get?_eq_some_iff_mem hnodup).2 hs, (Assoc.get?_eq_some_iff_mem hnodup).2 hs']
  · have hlater : n ∈ d'.schemaNames := keys_declarationSchemas hblock' ▸ Assoc.mem_keys_of_mem hs'
    exact absurd hlater (hafter d' hd')

end Model

/-! ## Two kinds of schemas -/

/-- The members that must be given are `data` and perhaps others. -/
def Schema.RequiresData (s : Json) : Prop :=
  ∃ others, s.get? "required" = some (texts ("data" :: others))

/-- The schema is an envelope of the entity, with the name of one. -/
def Entity.Encloses (e : Entity) (n : Text) (s : Json) : Prop :=
  (n ∈ e.singleNames ∧ s.get? "required" = some (texts ["data"])) ∨
    (n = e.listResponse ∧ s.get? "required" = some (texts ["data", "links"]))

theorem Entity.Encloses.requiresData {e : Entity} {n : Text} {s : Json} (h : e.Encloses n s) :
    RequiresData s := by
  rcases h with ⟨-, hdata⟩ | ⟨-, hdata⟩
  · exact ⟨[], hdata⟩
  · exact ⟨["links"], hdata⟩

namespace Model

variable {m : Model} {style : NullStyle} {d : Declaration} {n : Text} {s : Json}

theorem not_requiresData_ownSchema (h : m.ownSchema style d = .ok s) : ¬ RequiresData s := by
  intro hdata
  obtain ⟨others, hothers⟩ := hdata
  cases d with
  | «enum» x =>
    cases h
    simp [EnumDecl.schema, Json.get?, Assoc.get?_cons, Text.ofString_inj] at hothers
  | type x =>
    obtain ⟨properties, -, rfl⟩ := map_eq_ok_iff.1 h
    simp [Json.get?, Assoc.get?_cons, Text.ofString_inj] at hothers
  | entity e =>
    obtain ⟨attributes, -, h⟩ := bind_eq_ok_iff.1 h
    obtain ⟨id, -, h⟩ := bind_eq_ok_iff.1 h
    cases h
    simp only [resourceObject, Json.get?, Assoc.get?_cons] at hothers
    split_ifs at hothers <;> simp_all [texts, Text.ofString_inj]

theorem required_envelope (description : Text) (required : List Text)
    (properties : List (Text × Json)) :
    (envelope description required properties).get? "required" = some (texts required) := by
  simp [envelope, Json.get?, Assoc.get?_cons, Text.ofString_inj]

/-- The schemas of an entity are its resource object and its envelopes. -/
theorem exists_envelopes_of_entitySchemas {e : Entity} {pairs : List (Text × Json)}
    (h : m.entitySchemas style e = .ok pairs) : ∃ read envelopes,
      m.entitySchema style .read e = .ok read ∧ pairs = (e.name, read) :: envelopes ∧
      ∀ p ∈ envelopes, e.Encloses p.1 p.2 := by
  obtain ⟨read, hread, h⟩ := bind_eq_ok_iff.1 h
  obtain ⟨create, -, h⟩ := bind_eq_ok_iff.1 h
  obtain ⟨update, -, h⟩ := bind_eq_ok_iff.1 h
  cases h
  refine ⟨read, _, hread, rfl, fun p hp => ?_⟩
  simp only [List.mem_cons, List.not_mem_nil, or_false] at hp
  rcases hp with rfl | rfl | rfl | rfl
  · exact .inl ⟨by simp [Entity.singleNames], required_envelope _ _ _⟩
  · exact .inl ⟨by simp [Entity.singleNames], required_envelope _ _ _⟩
  · exact .inl ⟨by simp [Entity.singleNames], required_envelope _ _ _⟩
  · exact .inr ⟨rfl, required_envelope _ _ _⟩

/-- **A declaration writes its own schema under its name**, and an entity its envelopes. -/
theorem exists_own_of_declarationSchemas {block : List (Text × Json)}
    (h : m.declarationSchemas style d = .ok block) : ∃ own envelopes,
      m.ownSchema style d = .ok own ∧ block = (d.name, own) :: envelopes ∧
      ∀ p ∈ envelopes, ∃ e, d = .entity e ∧ e.Encloses p.1 p.2 := by
  cases d with
  | «enum» x =>
    cases h
    exact ⟨x.schema, [], rfl, rfl, nofun⟩
  | type x =>
    obtain ⟨own, hown, rfl⟩ := map_eq_ok_iff.1 h
    exact ⟨own, [], hown, rfl, nofun⟩
  | entity e =>
    obtain ⟨read, envelopes, hread, rfl, hencloses⟩ := exists_envelopes_of_entitySchemas h
    exact ⟨read, envelopes, hread, rfl, fun p hp => ⟨e, rfl, hencloses p hp⟩⟩

theorem mem_declarationSchemas_cases {block : List (Text × Json)}
    (h : m.declarationSchemas style d = .ok block) (hs : (n, s) ∈ block) :
    (n = d.name ∧ m.ownSchema style d = .ok s) ∨ ∃ e, d = .entity e ∧ e.Encloses n s := by
  obtain ⟨own, envelopes, hown, rfl, hencloses⟩ := exists_own_of_declarationSchemas h
  rcases List.mem_cons.1 hs with heq | hs
  · cases heq
    exact .inl ⟨rfl, hown⟩
  · exact .inr (hencloses _ hs)

end Model

end ResourceApi
