import ResourceApi.Proofs.Endpoint
import ResourceApi.Proofs.OrderedMap
import ResourceApi.Proofs.Resolution

/-!
# Where a resource object shows a field

Every field of an entity has at most one part in a resource object (`Model.partOf?`). The only
identifying field is the id, whatever else it is. Of the others a foreign key is shown when reading
only, a field whose type is an entity is a relationship, and all the rest are attributes.

**Fields by part** (`filter_shownFields`). The fields that are shown, in their order, are those with
the part of an attribute and those with the part of a relationship.

**Main result** (`field_in_one_part`). A resource object can be built when the fields that it shows
resolve, and it shows each of them in its part and nowhere else.
-/

namespace ResourceApi

open Schema

/-! ## Parts -/

/-- A part of a resource object that shows fields. -/
inductive ResourcePart where
  | id | attributes | relationships
  deriving DecidableEq, Repr

namespace Model

variable {m : Model} {e : Entity} {mode : Mode} {f : Field} {style : NullStyle}

/-- The part of a field in the resource object of its entity, if the object shows it. -/
def partOf? (m : Model) (e : Entity) (mode : Mode) (f : Field) : Option ResourcePart :=
  if e.idFields = [f] then some .id
  else if f.foreignKey && mode != .read then none
  else if m.isRelationship f then some .relationships
  else some .attributes

/-- The fields of a part, in the order of the entity. -/
def fieldsIn (m : Model) (e : Entity) (mode : Mode) (part : ResourcePart) : List Field :=
  e.fields.filter fun f => m.partOf? e mode f = some part

/-- **The fields that are shown** are all but the only identifying one and, unless for reading, the
foreign keys. -/
theorem shownFields_eq (e : Entity) (mode : Mode) : e.shownFields mode =
    e.fields.filter fun f => decide (e.idFields ≠ [f]) && !(f.foreignKey && mode != .read) := by
  have hkeys (f : Field) :
      (!f.foreignKey || mode == .read) = !(f.foreignKey && mode != .read) := by
    cases f.foreignKey <;> cases mode <;> rfl
  simp only [Entity.shownFields, hkeys]
  split_ifs with hcompound
  · -- none of several identifying fields is the only one
    refine List.filter_congr fun f _ => ?_
    simp [Entity.idFields_ne_singleton hcompound]
  · rw [List.filter_filter]
    refine List.filter_congr fun f hf => ?_
    have hid := Entity.idFields_eq_singleton_iff hf hcompound
    rw [Bool.and_comm]
    congr 1
    rw [Bool.eq_iff_iff]
    simp [hid]

theorem filter_shownFields (m : Model) (e : Entity) (mode : Mode) (relationship : Bool) :
    (e.shownFields mode).filter (fun f => m.isRelationship f == relationship) =
      m.fieldsIn e mode (if relationship then .relationships else .attributes) := by
  rw [shownFields_eq, List.filter_filter, fieldsIn]
  refine List.filter_congr fun f _ => ?_
  rw [Bool.eq_iff_iff]
  unfold partOf?
  by_cases hid : e.idFields = [f]
  · cases relationship <;> simp [hid]
  · by_cases hkey : (f.foreignKey && mode != .read) = true
    · simp [hid, hkey]
    · cases relationship <;> cases hrel : m.isRelationship f <;> simp [hid, hkey]

theorem isSome_partOf?_iff : (m.partOf? e mode f).isSome = true ↔
    e.idFields = [f] ∨ (f.foreignKey && mode != .read) = false := by
  unfold partOf?
  split_ifs with hid hkey <;> simp_all

/-! ## Building -/

theorem mem_shownFields_iff : f ∈ e.shownFields mode ↔
    f ∈ e.fields ∧ e.idFields ≠ [f] ∧ (f.foreignKey && mode != .read) = false := by
  rw [shownFields_eq, List.mem_filter, Bool.and_eq_true, decide_eq_true_iff, Bool.not_eq_true']

/-- **A resource object can be built** when the fields that it shows resolve. -/
theorem succeeds_entitySchema_iff_parts : Succeeds (m.entitySchema style mode e) ↔
    ∀ f ∈ e.fields, (m.partOf? e mode f).isSome = true → m.Resolves f := by
  rw [succeeds_entitySchema_iff]
  constructor
  · intro h f hf hsome
    rcases isSome_partOf?_iff.1 hsome with hid | hshown
    · exact h.2 f (Entity.soleId?_eq_some_iff.2 hid)
    · by_cases hid : e.idFields = [f]
      · exact h.2 f (Entity.soleId?_eq_some_iff.2 hid)
      · exact h.1 f (mem_shownFields_iff.2 ⟨hf, hid, hshown⟩)
  · intro h
    refine ⟨fun f hf => ?_, fun f hsole => ?_⟩
    · obtain ⟨hmem, -, hshown⟩ := mem_shownFields_iff.1 hf
      exact h f hmem (isSome_partOf?_iff.2 (.inr hshown))
    · have hid := Entity.soleId?_eq_some_iff.1 hsole
      have hmem : f ∈ e.fields := Entity.mem_fields_iff.2 (.inr hsole)
      exact h f hmem (isSome_partOf?_iff.2 (.inl hid))

/-- **The attributes that must be given**: all for reading, those without null and default for
creating, none for updating. -/
theorem requiredAttributes_eq : m.requiredAttributes mode (e.shownFields mode) =
    match mode with
    | .read => (m.fieldsIn e .read .attributes).map (·.name)
    | .create => ((m.fieldsIn e .create .attributes).filter fun f =>
        !f.optional && !f.hasDefault).map (·.name)
    | .update => [] := by
  have hrequired : m.requiredAttributes mode (e.shownFields mode) =
      ((m.fieldsIn e mode .attributes).filter (Entity.requires mode)).map (·.name) := by
    have hattributes := filter_shownFields m e mode false
    simp only [Bool.false_eq_true, if_false] at hattributes
    rw [← hattributes, List.filter_filter, requiredAttributes]
    congr 1
    refine List.filter_congr fun f _ => ?_
    cases m.isRelationship f <;> simp
  rw [hrequired]
  cases mode with
  | read =>
    have hall (fs : List Field) : fs.filter (Entity.requires .read) = fs :=
      List.filter_eq_self.2 fun _ _ => rfl
    rw [hall]
  | create => rfl
  | update =>
    have hnone (fs : List Field) : fs.filter (Entity.requires .update) = [] :=
      List.filter_eq_nil_iff.2 fun _ _ h => Bool.false_ne_true h
    rw [hnone]
    rfl

theorem attributesSchema_eq {required : List Text} {attributes : Assoc Text Json}
    (h : (Assoc.keys attributes).Nodup) : attributesSchema required attributes =
      .obj (Json.member "type" "object" ++
        Json.memberIf "required" (if required = [] then none else some (.texts required)) ++
        Json.member "properties" (.obj attributes)) := by
  rw [attributesSchema, Assoc.ofList_eq_self h]
  cases required <;> rfl

theorem relationshipsMember_eq (relationships : Assoc Text Json) :
    relationshipsMember relationships =
      Json.memberIf "relationships" (if relationships = [] then none
        else some (.obj [("type", "object"), ("properties", .obj relationships)])) := by
  cases relationships <;> rfl

theorem idSchema_cases {id : Json} (h : m.idSchema e = .ok id) :
    (∀ f, e.idFields = [f] → m.baseSchema (some e.name) f = .ok id) ∧
      ((∀ f, e.idFields ≠ [f]) → id = typed "string") := by
  unfold idSchema at h
  split at h
  · next g hg =>
    have hid := Entity.soleId?_eq_some_iff.1 hg
    refine ⟨fun f hf => ?_, fun hne => absurd hid (hne g)⟩
    rw [hid, List.singleton_inj] at hf
    exact hf ▸ h
  · next hnone =>
    cases h
    refine ⟨fun f hf => ?_, fun _ => rfl⟩
    rw [Entity.soleId?_eq_some_iff.2 hf] at hnone
    cases hnone

theorem requiresId_iff : e.requiresId mode = true ↔
    mode ≠ .create ∨ ∃ f, e.idFields = [f] ∧ f.hasDefault = false := by
  simp [Entity.requiresId, Option.any_eq_true, Entity.soleId?_eq_some_iff]

theorem name_mem_fieldsIn_iff (hnames : (e.fields.map (·.name)).Nodup) (hf : f ∈ e.fields)
    {part : ResourcePart} :
    f.name ∈ (m.fieldsIn e mode part).map (·.name) ↔ m.partOf? e mode f = some part := by
  constructor
  · intro hmem
    obtain ⟨g, hg, heq⟩ := List.mem_map.1 hmem
    obtain ⟨hgmem, hpart⟩ := List.mem_filter.1 hg
    rw [← List.inj_on_of_nodup_map hnames hgmem hf heq]
    exact of_decide_eq_true hpart
  · intro hpart
    exact List.mem_map_of_mem (List.mem_filter.2 ⟨hf, decide_eq_true hpart⟩)

theorem nodup_fieldsIn (hnames : (e.fields.map (·.name)).Nodup) (part : ResourcePart) :
    ((m.fieldsIn e mode part).map (·.name)).Nodup :=
  hnames.sublist (List.filter_sublist.map _)

/-- **Every field has one place in a resource object.** The object can be built when the fields that
it shows resolve. Then the id has the schema of the only identifying field, or else is a text; the
attributes and the relationships are those of the entity, in its order, and none stands in two
places; and what must be given is, of the attributes, all for reading, those without null and
default for creating, and none for updating, and of the whole the id unless creating provides it. -/
theorem field_in_one_part (m : Model) (style : NullStyle) (mode : Mode) {e : Entity}
    (hnames : (e.fields.map (·.name)).Nodup) :
    (Succeeds (m.entitySchema style mode e) ↔
      ∀ f ∈ e.fields, (m.partOf? e mode f).isSome = true → m.Resolves f) ∧
    ∀ s, m.entitySchema style mode e = .ok s →
      ∃ (id : Json) (attributes relationships : Assoc Text Json) (required : List Text)
          (givesId : Bool),
        s = .obj [
          ("type", "object"),
          ("description", .str ("The \"" ++ e.name ++ "\" model")),
          ("required", Json.texts (if givesId then ["id", "type", "attributes"]
            else ["type", "attributes"])),
          ("properties", .obj (Json.member "id" id ++ Json.member "type" (typed "string") ++
            Json.member "attributes" (.obj (Json.member "type" "object" ++
              Json.memberIf "required" (if required = [] then none else some (.texts required)) ++
              Json.member "properties" (.obj attributes))) ++
            Json.memberIf "relationships" (if relationships = [] then none
              else some (.obj [("type", "object"), ("properties", .obj relationships)]))))] ∧
        (∀ f, e.idFields = [f] → m.baseSchema (some e.name) f = .ok id) ∧
        ((∀ f, e.idFields ≠ [f]) → id = typed "string") ∧
        List.Forall₂ (fun f p => p.1 = f.name ∧ m.fieldSchema style (some e.name) f = .ok p.2)
          (m.fieldsIn e mode .attributes) attributes ∧
        relationships = (m.fieldsIn e mode .relationships).map (fun f => (f.name,
          nullableIf f.optional style (ref (relationship f.array (mode == .read))))) ∧
        (∀ f ∈ e.fields,
          (f.name ∈ Assoc.keys attributes ↔ m.partOf? e mode f = some .attributes) ∧
          (f.name ∈ Assoc.keys relationships ↔ m.partOf? e mode f = some .relationships)) ∧
        required = (match mode with
          | .read => Assoc.keys attributes
          | .create => ((m.fieldsIn e .create .attributes).filter fun f =>
              !f.optional && !f.hasDefault).map (·.name)
          | .update => []) ∧
        (givesId = true ↔ mode ≠ .create ∨ ∃ f, e.idFields = [f] ∧ f.hasDefault = false) := by
  refine ⟨succeeds_entitySchema_iff_parts, fun s hs => ?_⟩
  obtain ⟨attributes, hattributes, hs⟩ := bind_eq_ok_iff.1 hs
  obtain ⟨id, hid, hs⟩ := bind_eq_ok_iff.1 hs
  cases hs
  -- the attributes are written one by one, under distinct names
  have hfields : List.Forall₂
      (fun f p => p.1 = f.name ∧ m.fieldSchema style (some e.name) f = .ok p.2)
      (m.fieldsIn e mode .attributes) attributes := by
    have hshown := filter_shownFields m e mode false
    simp only [beq_false, Bool.false_eq_true, if_false] at hshown
    rw [attributeSchemas, hshown] at hattributes
    refine (mapM_eq_ok_iff.1 hattributes).imp fun f p hp => ?_
    obtain ⟨schema, hschema, rfl⟩ := map_eq_ok_iff.1 hp
    exact ⟨rfl, hschema⟩
  have hkeys : Assoc.keys attributes = (m.fieldsIn e mode .attributes).map (·.name) :=
    map_eq_map_of_forall₂ hfields fun _ _ h => h.1
  -- and so are the relationships
  have hrelationships : m.relationshipSchemas style mode (e.shownFields mode) =
      (m.fieldsIn e mode .relationships).map (fun f => (f.name,
        nullableIf f.optional style (ref (relationship f.array (mode == .read))))) := by
    have hshown := filter_shownFields m e mode true
    simp only [beq_true, if_true] at hshown
    rw [relationshipSchemas, hshown]
    refine Assoc.ofList_eq_self ?_
    rw [Assoc.keys, List.map_map]
    exact nodup_fieldsIn hnames _
  refine ⟨id, attributes, _, m.requiredAttributes mode (e.shownFields mode), e.requiresId mode,
    ?_, (idSchema_cases hid).1, (idSchema_cases hid).2, hfields, hrelationships, ?_, ?_,
    requiresId_iff⟩
  · rw [resourceObject, relationshipsMember_eq,
      attributesSchema_eq (hkeys ▸ nodup_fieldsIn hnames _)]
    rfl
  · intro f hf
    rw [hkeys, hrelationships, Assoc.keys, List.map_map]
    exact ⟨name_mem_fieldsIn_iff hnames hf, name_mem_fieldsIn_iff hnames hf⟩
  · rw [requiredAttributes_eq]
    cases mode with
    | read => exact hkeys.symm
    | create => rfl
    | update => rfl

end Model

namespace Blog

/-- A like of a post. Its only identifying field is a foreign key, and so is the key of its
author. -/
def like : Entity where
  name := "Like"
  fields := [
    { name := "post", typeName := "Int", isId := true, foreignKey := true },
    { name := "author", typeName := "User", optional := true },
    { name := "authorId", typeName := "String", foreignKey := true },
    { name := "marks", typeName := "Role", array := true },
    { name := "weight", typeName := "Float", hasDefault := true }]

/-- To create a like, its post is given as the id; the author goes by the relationship, not by its
key; and of the attributes only the marks must be given. -/
theorem like_created : ∃ (s id : Json) (attributes relationships : Assoc Text Json),
    generator.model.entitySchema .flag .create like = .ok s ∧
      s.get? "required" = some (Json.texts ["id", "type", "attributes"]) ∧
      s.get? "properties" = some (.obj [
        ("id", id), ("type", typed "string"),
        ("attributes", .obj [("type", "object"), ("required", Json.texts ["marks"]),
          ("properties", .obj attributes)]),
        ("relationships", .obj [("type", "object"), ("properties", .obj relationships)])]) ∧
      (∀ f ∈ like.idFields, generator.model.baseSchema (some "Like") f = .ok id) ∧
      Assoc.keys attributes = ["marks", "weight"] ∧ Assoc.keys relationships = ["author"] := by
  obtain ⟨s, hs⟩ : ∃ s, generator.model.entitySchema .flag .create like = .ok s := ⟨_, rfl⟩
  have hnames : (like.fields.map (·.name)).Nodup := by decide
  obtain ⟨id, attributes, relationships, required, givesId, hshape, hid, -, hattributes,
    hrelationships, -, hrequired, hgives⟩ :=
    (Model.field_in_one_part generator.model .flag .create hnames).2 s hs
  have hkeys : Assoc.keys attributes = ["marks", "weight"] :=
    map_eq_map_of_forall₂ hattributes fun _ _ h => h.1
  have hauthor : Assoc.keys relationships = ["author"] := by
    rw [hrelationships]
    rfl
  have hmarks : required = ["marks"] := hrequired
  have hgiven : givesId = true := hgives.2 (.inr ⟨_, rfl, rfl⟩)
  have hne : relationships ≠ [] := by
    rintro rfl
    cases hauthor
  rw [hmarks, hgiven, if_neg hne] at hshape
  refine ⟨s, id, attributes, relationships, hs, ?_, ?_, ?_, hkeys, hauthor⟩
  · rw [hshape]
    rfl
  · rw [hshape]
    rfl
  · intro f hf
    have hsole : like.idFields = [f] := by
      rw [List.mem_singleton.1 hf]
      rfl
    exact hid f hsole

end Blog

end ResourceApi
