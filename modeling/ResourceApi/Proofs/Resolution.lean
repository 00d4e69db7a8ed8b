import ResourceApi.Proofs.Fallible
import ResourceApi.Schema.Component
import ResourceApi.Schema.Filter

/-!
# Resolved type names

The type name of a field *resolves* when it is that of a primitive type or of a declaration. Every
builder succeeds exactly when the fields that it looks at resolve, so whether schemas can be built
is a question about the fields of the model.

**Schemas** (`succeeds_componentSchemas_iff`). The named schemas of a model can be built exactly
when its references pass the check. A field may be missing from the attributes of a resource object:
as a relationship, and then its name resolves; as the only identifying field, and then the id has
its type; or as a foreign key, but not in what is read (`mem_fields_iff`).

**Filters** (`succeeds_filterValueSchema_iff`). They resolve the same names.
-/

namespace ResourceApi

namespace Model

variable {m : Model} {f : Field} {e : Entity} {style : NullStyle} {owner : Option Text}

/-- The type name of the field is that of a primitive type or of a declaration. -/
def Resolves (m : Model) (f : Field) : Prop :=
  f.primitive?.isSome ∨ (m.resolve? f.typeName).isSome

/-! ## The check -/

@[simp] theorem succeeds_resolve_iff {name : Text} :
    Succeeds (m.resolve name owner) ↔ (m.resolve? name).isSome := by
  unfold resolve
  cases m.resolve? name <;> simp

theorem resolves_of_primitive {p : Primitive} (h : f.primitive? = some p) : m.Resolves f :=
  .inl (h ▸ rfl)

theorem resolves_iff_of_declared (h : f.primitive? = none) :
    m.Resolves f ↔ (m.resolve? f.typeName).isSome := by
  simp [Resolves, h]

theorem resolves_of_isRelationship (h : m.isRelationship f) : m.Resolves f := by
  simp only [isRelationship, Bool.and_eq_true] at h
  obtain ⟨e, he⟩ := Option.isSome_iff_exists.1 h.2
  exact .inr (by simp [resolve?, he])

theorem checkField_eq_ok_iff {name : Text} : m.checkField name f = .ok () ↔ m.Resolves f := by
  rw [← succeeds_iff_eq_ok]
  unfold checkField
  cases hp : f.primitive? with
  | some p => simp [resolves_of_primitive hp]
  | none => rw [succeeds_map_iff, succeeds_resolve_iff, resolves_iff_of_declared hp]

/-- **References pass the check when every field of a declaration resolves.** -/
theorem checkReferences_eq_ok_iff : m.checkReferences = .ok () ↔
    (∀ e ∈ m.entities, ∀ f ∈ e.fields, m.Resolves f) ∧
      ∀ d ∈ m.types, ∀ f ∈ d.fields, m.Resolves f := by
  unfold checkReferences
  rw [forM_eq_ok_iff, fieldOwners, List.forall_mem_append, List.forall_mem_map, List.forall_mem_map]
  simp only [forM_eq_ok_iff, checkField_eq_ok_iff]

/-! ## Schemas -/

@[simp] theorem succeeds_baseSchema_iff : Succeeds (m.baseSchema owner f) ↔ m.Resolves f := by
  unfold baseSchema
  cases hp : f.primitive? with
  | some p => simp [resolves_of_primitive hp]
  | none => rw [succeeds_map_iff, succeeds_resolve_iff, resolves_iff_of_declared hp]

@[simp] theorem succeeds_fieldSchema_iff :
    Succeeds (m.fieldSchema style owner f) ↔ m.Resolves f := by
  rw [fieldSchema, succeeds_map_iff, succeeds_baseSchema_iff]

theorem succeeds_typeSchema_iff {d : TypeDecl} :
    Succeeds (m.typeSchema style d) ↔ ∀ f ∈ d.fields, m.Resolves f := by
  simp [typeSchema, succeeds_mapM_iff]

theorem succeeds_attributeSchemas_iff {name : Text} {fields : List Field} :
    Succeeds (m.attributeSchemas style name fields) ↔ ∀ f ∈ fields, m.Resolves f := by
  rw [attributeSchemas, succeeds_mapM_iff]
  simp only [succeeds_map_iff, succeeds_fieldSchema_iff, List.mem_filter, Bool.not_eq_true']
  constructor
  · intro h f hf
    by_cases hrel : m.isRelationship f
    · exact resolves_of_isRelationship hrel
    · exact h f ⟨hf, by simpa using hrel⟩
  · intro h f hf
    exact h f hf.1

theorem succeeds_idSchema_iff :
    Succeeds (m.idSchema e) ↔ ∀ f, e.soleId? = some f → m.Resolves f := by
  unfold idSchema
  cases e.soleId? <;> simp

end Model

/-! ## Resource objects -/

namespace Entity

variable {e : Entity} {f : Field}

theorem mem_fields_of_shown {mode : Mode} (h : f ∈ e.shownFields mode) : f ∈ e.fields := by
  unfold shownFields at h
  have hfields := (List.mem_filter.1 h).1
  split_ifs at hfields
  · exact hfields
  · exact (List.mem_filter.1 hfields).1

theorem soleId?_eq_some_iff : e.soleId? = some f ↔ e.idFields = [f] := by
  unfold soleId?
  split
  · next g hg => simp [hg]
  · next hne => exact ⟨nofun, fun h => absurd h (hne f)⟩

theorem mem_fields_of_sole (h : e.idFields = [f]) : f ∈ e.fields :=
  (List.mem_filter.1 (h ▸ List.mem_singleton_self f)).1

theorem idFields_ne_singleton (h : 1 < e.idFields.length) : e.idFields ≠ [f] := by
  intro heq
  rw [heq] at h
  exact Nat.lt_irrefl 1 h

theorem idFields_eq_singleton_iff (hf : f ∈ e.fields) (h : ¬e.idFields.length > 1) :
    e.idFields = [f] ↔ f.isId = true := by
  constructor
  · intro hid
    have hmem : f ∈ e.idFields := by simp [hid]
    exact (List.mem_filter.1 hmem).2
  · intro hid
    have hmem : f ∈ e.idFields := List.mem_filter.2 ⟨hf, hid⟩
    obtain ⟨g, hg⟩ := List.length_eq_one_iff.1
      (Nat.le_antisymm (Nat.not_lt.1 h) (List.length_pos_of_mem hmem))
    rw [hg, List.mem_singleton] at hmem
    rw [hg, hmem]

/-- **What is read shows every field**, the only identifying one as the id. -/
theorem mem_fields_iff : f ∈ e.fields ↔ f ∈ e.shownFields .read ∨ e.soleId? = some f := by
  constructor
  · intro hf
    by_cases hcompound : e.idFields.length > 1
    · exact .inl (by simp [shownFields, hcompound, hf])
    · by_cases hid : f.isId
      · have hsole : e.idFields = [f] := (idFields_eq_singleton_iff hf hcompound).2 hid
        exact .inr (soleId?_eq_some_iff.2 hsole)
      · exact .inl (by simp [shownFields, hcompound, hf, hid])
  · intro hcases
    rcases hcases with h | h
    · exact mem_fields_of_shown h
    · exact mem_fields_of_sole (soleId?_eq_some_iff.1 h)

end Entity

namespace Model

variable {m : Model} {f : Field} {e : Entity} {style : NullStyle}

theorem succeeds_entitySchema_iff {mode : Mode} : Succeeds (m.entitySchema style mode e) ↔
    (∀ f ∈ e.shownFields mode, m.Resolves f) ∧ ∀ f, e.soleId? = some f → m.Resolves f := by
  have hid (attributes : List (Text × Json)) : Succeeds (do
      let id ← m.idSchema e
      return resourceObject e mode id
        (attributesSchema (m.requiredAttributes mode (e.shownFields mode)) attributes)
        (m.relationshipSchemas style mode (e.shownFields mode)) : Except Unresolved Json) ↔
      ∀ f, e.soleId? = some f → m.Resolves f := by
    rw [← succeeds_idSchema_iff]
    exact (succeeds_bind_of_forall fun _ => iff_true_intro (succeeds_ok _)).trans
      (and_true _).to_iff
  exact (succeeds_bind_of_forall hid).trans (and_congr_left' succeeds_attributeSchemas_iff)

/-- **The schemas of an entity can be built when its fields resolve.** -/
theorem succeeds_entitySchemas_iff :
    Succeeds (m.entitySchemas style e) ↔ ∀ f ∈ e.fields, m.Resolves f := by
  have hmode (mode : Mode) (h : ∀ f ∈ e.fields, m.Resolves f) :
      Succeeds (m.entitySchema style mode e) :=
    succeeds_entitySchema_iff.2 ⟨fun f hf => h f (Entity.mem_fields_of_shown hf),
      fun f hf => h f (Entity.mem_fields_iff.2 (.inr hf))⟩
  constructor
  · intro h f hf
    obtain ⟨read, hread, -⟩ := succeeds_bind_iff.1 h
    obtain ⟨hshown, hid⟩ := succeeds_entitySchema_iff.1 ⟨read, hread⟩
    exact (Entity.mem_fields_iff.1 hf).elim (hshown f) (hid f)
  · intro h
    obtain ⟨read, hread⟩ := hmode .read h
    obtain ⟨create, hcreate⟩ := hmode .create h
    obtain ⟨update, hupdate⟩ := hmode .update h
    exact succeeds_bind_iff.2 ⟨read, hread, succeeds_bind_iff.2 ⟨create, hcreate,
      succeeds_bind_iff.2 ⟨update, hupdate, succeeds_ok _⟩⟩⟩

/-- **The schemas of a model can be built when its references pass the check.** -/
theorem succeeds_componentSchemas_iff :
    Succeeds (m.componentSchemas style) ↔ m.checkReferences = .ok () := by
  have htypes (entities : List (List (Text × Json))) : Succeeds (do
      let types ← m.types.mapM fun d => (m.typeSchema style d).map (Prod.mk d.name)
      return Assoc.ofList (Schema.shared style ++ m.enums.map (fun d => (d.name, d.schema)) ++
        entities.flatten ++ types) : Except Unresolved (Assoc Text Json)) ↔
      ∀ d ∈ m.types, ∀ f ∈ d.fields, m.Resolves f := by
    refine (succeeds_bind_of_forall fun _ => iff_true_intro (succeeds_ok _)).trans ?_
    simp only [and_true, succeeds_mapM_iff, succeeds_map_iff, succeeds_typeSchema_iff]
  refine (succeeds_bind_of_forall htypes).trans ?_
  simp only [succeeds_mapM_iff, succeeds_entitySchemas_iff, checkReferences_eq_ok_iff]

/-! ## Filters -/

/-- **The schema of a filter can be built when its field resolves.** -/
theorem succeeds_filterValueSchema_iff {name : Text} :
    Succeeds (m.filterValueSchema name f) ↔ m.Resolves f := by
  unfold filterValueSchema
  split
  · next hp => simp [resolves_of_primitive hp]
  · next p _ hp => simp [resolves_of_primitive hp]
  · next hp => rw [succeeds_map_iff, succeeds_resolve_iff, resolves_iff_of_declared hp]

end Model

end ResourceApi
