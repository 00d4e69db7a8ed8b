import ResourceApi.Proofs.Reference
import ResourceApi.Proofs.SchemaName
import ResourceApi.Schema.Filter

/-!
# What schemas mention

Each builder has one lemma that says which names it mentions: a field type mentions the declaration
that it refers to (`mentions_baseSchema`), filters mention enumerations, resource objects add the
shared relationship schemas, and envelopes the other shared ones.

**Edges** (`leadsTo_of_mentions`). Most of what named schemas mention is *plain*: a shared schema,
an enumeration or a structured type. An entity is mentioned in three places only: in its own
responses, as the type of an id, and as the type of a structured type's field. So named schemas
mention named schemas (`mentions_componentSchemas`).

Properties are kept under the names of fields, and a field may have any name. It is no reference
all the same, since what is kept there is an object (`mentions_obj_of_objects`).
-/

namespace ResourceApi

open Schema Json

/-! ## Fragments -/

namespace Schema

variable {n : Text} {s : Json}

@[simp] theorem mentions_ref {name : Text} : (ref name).Mentions n ↔ n = name := by
  simp [ref, mentions_obj_cons, Text.append_right_inj, eq_comm]

theorem parameterPath_append_ne (name n : Text) : parameterPath ++ name ≠ schemaPath ++ n := by
  intro h
  have hpoints := congrArg (fun t : Text => t.points[13]?) h
  simp [parameterPath, schemaPath] at hpoints

@[simp] theorem not_mentions_parameterRef (name : Text) : ¬ (parameterRef name).Mentions n := by
  simp [parameterRef, mentions_obj_cons, parameterPath_append_ne]

@[simp] theorem not_mentions_typed (t : Text) : ¬ (typed t).Mentions n := by
  simp [typed, mentions_obj_cons, Text.ofString_inj]

@[simp] theorem not_mentions_described (t d : Text) : ¬ (described t d).Mentions n := by
  simp [described, mentions_obj_cons, Text.ofString_inj]

@[simp] theorem not_mentions_formatted (t f : Text) : ¬ (formatted t f).Mentions n := by
  simp [formatted, mentions_obj_cons, Text.ofString_inj]

@[simp] theorem not_mentions_texts (xs : List Text) : ¬ (texts xs).Mentions n := by
  simp [texts, mentions_arr_iff]

@[simp] theorem mentions_allOf {xs : List Json} : (allOf xs).Mentions n ↔ (arr xs).Mentions n := by
  simp [allOf, mentions_obj_cons]

@[simp] theorem mentions_oneOf {xs : List Json} : (oneOf xs).Mentions n ↔ (arr xs).Mentions n := by
  simp [oneOf, mentions_obj_cons]

@[simp] theorem mentions_arrayOf : (arrayOf s).Mentions n ↔ s.Mentions n := by
  simp [arrayOf, mentions_obj_cons, Text.ofString_inj]

@[simp] theorem mentions_arrayIf {array : Bool} : (arrayIf array s).Mentions n ↔ s.Mentions n := by
  unfold arrayIf
  split_ifs <;> simp

theorem mentions_of_nullable {style : NullStyle} (h : (nullable style s).Mentions n) :
    s.Mentions n := by
  unfold nullable at h
  cases style with
  | asType => simpa using h
  | flag =>
    simp only at h
    split_ifs at h with href
    · simpa [mentions_obj_cons] using h
    · cases s with
      | obj ms =>
        rw [flagged, mentions_obj_iff] at h
        rw [mentions_obj_iff]
        refine h.imp (fun hlink => ?_) fun ⟨k, v, hv, hn⟩ => ?_
        · refine (Assoc.mem_of_mem_insert hlink).resolve_left fun heq => ?_
          cases (Prod.mk.inj heq).2
        · rcases Assoc.mem_of_mem_insert hv with heq | hv
          · cases heq
            exact absurd hn (not_mentions_bool true)
          · exact ⟨k, v, hv, hn⟩
      | _ => exact h

theorem mentions_of_nullableIf {optional : Bool} {style : NullStyle}
    (h : (nullableIf optional style s).Mentions n) : s.Mentions n := by
  unfold nullableIf at h
  split_ifs at h with hopt
  · exact mentions_of_nullable h
  · exact h

theorem not_mentions_primitive (p : Primitive) : ¬ p.schema.Mentions n := by
  cases p <;> simp [Primitive.schema, mentions_obj_cons, Text.ofString_inj]

/-! ### Fragments are objects -/

/-- The value is an object. -/
def IsObject : Json → Prop
  | .obj _ => True
  | _ => False

instance : DecidablePred IsObject
  | .obj _ => .isTrue trivial
  | .null | .bool _ | .int _ | .real _ | .str _ | .arr _ => .isFalse id

@[simp] theorem isObject_obj (ms : List (Text × Json)) : IsObject (.obj ms) := trivial

theorem isObject_primitive (p : Primitive) : IsObject p.schema := by
  cases p <;> trivial

theorem IsObject.nullableIf {style : NullStyle} (h : IsObject s) (optional : Bool) :
    IsObject (nullableIf optional style s) := by
  cases s with
  | obj ms =>
    unfold Schema.nullableIf Schema.nullable
    cases style <;> split_ifs <;> trivial
  | _ => cases h

theorem IsObject.arrayIf (h : IsObject s) (array : Bool) : IsObject (arrayIf array s) := by
  unfold Schema.arrayIf
  split_ifs
  · trivial
  · exact h

/-- An object of objects mentions what they mention, whatever its keys are. -/
theorem mentions_obj_of_objects {ms : List (Text × Json)} (h : ∀ p ∈ ms, IsObject p.2) :
    (obj ms).Mentions n ↔ ∃ p ∈ ms, p.2.Mentions n := by
  rw [mentions_obj_iff]
  constructor
  · intro hcases
    rcases hcases with hlink | ⟨k, v, hv, hn⟩
    · exact (h _ hlink).elim
    · exact ⟨(k, v), hv, hn⟩
  · intro hparts
    obtain ⟨p, hp, hn⟩ := hparts
    exact .inr ⟨p.1, p.2, hp, hn⟩

theorem mentions_obj_map {α : Type} {key : α → Text} {f : α → Json} (hf : ∀ a, IsObject (f a))
    {as : List α} : (obj (as.map fun a => (key a, f a))).Mentions n ↔
      ∃ a ∈ as, (f a).Mentions n := by
  have hobjects : ∀ p ∈ as.map fun a => (key a, f a), IsObject p.2 := by
    intro p hp
    obtain ⟨a, -, rfl⟩ := List.mem_map.1 hp
    exact hf a
  rw [mentions_obj_of_objects hobjects]
  simp

end Schema

/-! ## Types of fields -/

namespace Model

variable {m : Model} {n : Text} {f : Field}

/-- The field's type is the declaration of the name. -/
def RefersTo (m : Model) (f : Field) (n : Text) : Prop :=
  f.primitive? = none ∧ ∃ d, m.resolve? f.typeName = some d ∧ d.name = n

/-- A relationship refers to an entity, and any other field to something plain. -/
theorem RefersTo.cases (h : m.RefersTo f n) :
    (m.isRelationship f = true ∧ ∃ e ∈ m.entities, e.name = n) ∨
      (m.isRelationship f = false ∧ n ∈ m.plainNames) := by
  obtain ⟨hprimitive, d, hd, rfl⟩ := h
  rcases resolve?_cases hd with ⟨e, he, rfl, hfound⟩ | ⟨hnone, hplain⟩
  · exact .inl ⟨by simp [isRelationship, hprimitive, hfound], e, he, rfl⟩
  · refine .inr ⟨by simp [isRelationship, hnone], mem_plainNames_iff.2 (.inr ?_)⟩
    rcases hplain with ⟨x, hx, rfl⟩ | ⟨x, hx, rfl⟩
    · exact .inl ⟨x, hx, rfl⟩
    · exact .inr ⟨x, hx, rfl⟩

theorem RefersTo.mem_plainNames (h : m.RefersTo f n) (hrel : m.isRelationship f = false) :
    n ∈ m.plainNames := by
  rcases h.cases with ⟨htrue, -⟩ | ⟨-, hplain⟩
  · rw [hrel] at htrue
    cases htrue
  · exact hplain

end Model

/-! ## Schemas of fields -/

namespace Model

variable {m : Model} {n : Text} {style : NullStyle} {owner : Option Text} {f : Field} {s : Json}

/-- The schema of a type is that of a primitive type or a reference to a declaration. -/
theorem baseSchema_cases (h : m.baseSchema owner f = .ok s) :
    (∃ p : Primitive, s = p.schema) ∨ ∃ name, m.RefersTo f name ∧ s = ref name := by
  unfold baseSchema at h
  split at h
  · next p hp =>
    cases h
    exact .inl ⟨p, rfl⟩
  · next hp =>
    obtain ⟨d, hd, rfl⟩ := map_eq_ok_iff.1 h
    exact .inr ⟨d.name, ⟨hp, d, resolve_eq_ok_iff.1 hd, rfl⟩, rfl⟩

theorem mentions_baseSchema (h : m.baseSchema owner f = .ok s) (hn : s.Mentions n) :
    m.RefersTo f n := by
  rcases baseSchema_cases h with ⟨p, rfl⟩ | ⟨name, hname, rfl⟩
  · exact absurd hn (not_mentions_primitive p)
  · rw [mentions_ref.1 hn]
    exact hname

theorem isObject_baseSchema (h : m.baseSchema owner f = .ok s) : IsObject s := by
  rcases baseSchema_cases h with ⟨p, rfl⟩ | ⟨name, -, rfl⟩
  · exact isObject_primitive p
  · trivial

theorem mentions_fieldSchema (h : m.fieldSchema style owner f = .ok s) (hn : s.Mentions n) :
    m.RefersTo f n := by
  obtain ⟨base, hbase, rfl⟩ := map_eq_ok_iff.1 h
  exact mentions_baseSchema hbase (mentions_of_nullableIf (mentions_arrayIf.1 hn))

theorem isObject_fieldSchema (h : m.fieldSchema style owner f = .ok s) : IsObject s := by
  obtain ⟨base, hbase, rfl⟩ := map_eq_ok_iff.1 h
  exact ((isObject_baseSchema hbase).nullableIf _).arrayIf _

theorem exists_field_of_mem_properties {fields : List Field} {properties : List (Text × Json)}
    (h : (fields.mapM fun f => (m.fieldSchema style owner f).map (Prod.mk f.name)) =
      .ok properties) {p : Text × Json} (hp : p ∈ Assoc.ofList properties) :
    ∃ f ∈ fields, m.fieldSchema style owner f = .ok p.2 := by
  obtain ⟨f, hf, hok⟩ := exists_of_mem_right (mapM_eq_ok_iff.1 h) (Assoc.mem_of_mem_ofList hp)
  obtain ⟨s, hs, rfl⟩ := map_eq_ok_iff.1 hok
  exact ⟨f, hf, hs⟩

theorem mentions_properties {fields : List Field} {properties : List (Text × Json)}
    (h : (fields.mapM fun f => (m.fieldSchema style owner f).map (Prod.mk f.name)) =
      .ok properties) (hn : (obj (Assoc.ofList properties)).Mentions n) :
    ∃ f ∈ fields, m.RefersTo f n := by
  have hobjects : ∀ p ∈ Assoc.ofList properties, IsObject p.2 := by
    intro p hp
    obtain ⟨f, -, hok⟩ := exists_field_of_mem_properties h hp
    exact isObject_fieldSchema hok
  obtain ⟨p, hp, hn⟩ := (mentions_obj_of_objects hobjects).1 hn
  obtain ⟨f, hf, hok⟩ := exists_field_of_mem_properties h hp
  exact ⟨f, hf, mentions_fieldSchema hok hn⟩

theorem mentions_filterValueSchema {owner : Text} (h : m.filterValueSchema owner f = .ok s)
    (hn : s.Mentions n) : ∃ d ∈ m.enums, d.name = n := by
  unfold filterValueSchema at h
  split at h
  · cases h
    exact absurd hn (not_mentions_formatted _ _)
  · next p _ _ =>
    cases h
    exact absurd hn (not_mentions_primitive p)
  · obtain ⟨d, hd, rfl⟩ := map_eq_ok_iff.1 h
    cases d with
    | «enum» d =>
      rw [mentions_ref.1 hn]
      exact ⟨d, mem_enums_of_resolve (resolve_eq_ok_iff.1 hd), rfl⟩
    | type d => exact absurd hn (not_mentions_formatted _ _)
    | entity e => exact absurd hn (not_mentions_typed _)

end Model

/-! ## Schemas of declarations -/

theorem mentions_shared {style : NullStyle} {p : Text × Json} (hp : p ∈ shared style) {n : Text}
    (hn : p.2.Mentions n) : n ∈ sharedNames := by
  have hrefs : ∀ p ∈ shared style, ∀ n ∈ p.2.refs, n ∈ sharedNames := by
    cases style <;> decide +kernel
  exact hrefs p hp n (mem_refs_iff.2 hn)

theorem not_mentions_enum (d : EnumDecl) (n : Text) : ¬ d.schema.Mentions n := by
  simp [EnumDecl.schema, mentions_obj_cons, Text.ofString_inj]

namespace Model

variable {m : Model} {n : Text} {style : NullStyle} {s : Json}

theorem mentions_typeSchema {d : TypeDecl} (h : m.typeSchema style d = .ok s)
    (hn : s.Mentions n) : ∃ f ∈ d.fields, m.RefersTo f n := by
  obtain ⟨properties, hproperties, rfl⟩ := map_eq_ok_iff.1 h
  have hmentions : (obj (Assoc.ofList properties)).Mentions n := by
    simpa [mentions_obj_cons, Text.ofString_inj] using hn
  exact mentions_properties hproperties hmentions

theorem mentions_relationshipSchemas {mode : Mode} {fields : List Field}
    (hn : (obj (m.relationshipSchemas style mode fields)).Mentions n) : n ∈ sharedNames := by
  have hvalue : ∀ p ∈ m.relationshipSchemas style mode fields, ∃ f : Field,
      p.2 = nullableIf f.optional style (ref (relationship f.array (mode == .read))) := by
    intro p hp
    obtain ⟨f, -, rfl⟩ := List.mem_map.1 (Assoc.mem_of_mem_ofList hp)
    exact ⟨f, rfl⟩
  have hobjects : ∀ p ∈ m.relationshipSchemas style mode fields, IsObject p.2 := by
    intro p hp
    obtain ⟨f, hf⟩ := hvalue p hp
    rw [hf]
    exact IsObject.nullableIf (s := ref _) trivial _
  obtain ⟨p, hp, hn⟩ := (mentions_obj_of_objects hobjects).1 hn
  obtain ⟨f, hf⟩ := hvalue p hp
  rw [hf] at hn
  rw [mentions_ref.1 (mentions_of_nullableIf hn)]
  exact relationship_mem_sharedNames _ _

/-- The id of a resource has the type of the only identifying field, or is a text. -/
theorem mentions_idSchema {e : Entity} (h : m.idSchema e = .ok s) (hn : s.Mentions n) :
    ∃ f, e.soleId? = some f ∧ m.RefersTo f n := by
  unfold idSchema at h
  split at h
  · next f hf => exact ⟨f, hf, mentions_baseSchema h hn⟩
  · cases h
    exact absurd hn (not_mentions_typed _)

theorem mentions_attributesSchema {required : List Text} {attributes : List (Text × Json)}
    (hn : (attributesSchema required attributes).Mentions n) :
    (obj (Assoc.ofList attributes)).Mentions n := by
  unfold attributesSchema at hn
  split_ifs at hn <;> simpa [mentions_obj_cons, Text.ofString_inj] using hn

theorem mentions_relationshipsMember {relationships : Assoc Text Json}
    (hn : (obj (relationshipsMember relationships)).Mentions n) :
    (obj relationships).Mentions n := by
  unfold relationshipsMember at hn
  split_ifs at hn
  · exact absurd hn not_mentions_obj_nil
  · simpa [mentions_obj_cons, Text.ofString_inj] using hn

/-- A resource object mentions what its id, attributes and relationships mention. -/
theorem mentions_resourceObject {e : Entity} {mode : Mode} {id attributes : Json}
    {relationships : Assoc Text Json}
    (hn : (resourceObject e mode id attributes relationships).Mentions n) :
    id.Mentions n ∨ attributes.Mentions n ∨ (obj relationships).Mentions n := by
  have hparts : id.Mentions n ∨ attributes.Mentions n ∨
      (obj (relationshipsMember relationships)).Mentions n := by
    simpa [resourceObject, mentions_obj_cons, Text.ofString_inj] using hn
  exact hparts.imp_right (.imp_right mentions_relationshipsMember)

/-- A resource object mentions something plain, or the type of its id. Its relationships are no
attributes, and they mention shared schemas whatever their targets are. -/
theorem mentions_entitySchema {mode : Mode} {e : Entity} (h : m.entitySchema style mode e = .ok s)
    (hn : s.Mentions n) : n ∈ m.plainNames ∨ ∃ f, e.soleId? = some f ∧ m.RefersTo f n := by
  obtain ⟨attributes, hattributes, h⟩ := bind_eq_ok_iff.1 h
  obtain ⟨id, hid, h⟩ := bind_eq_ok_iff.1 h
  cases h
  rcases mentions_resourceObject hn with hn | hn | hn
  · exact .inr (mentions_idSchema hid hn)
  · obtain ⟨f, hf, href⟩ := mentions_properties hattributes (mentions_attributesSchema hn)
    exact .inl (href.mem_plainNames (by simpa using (List.mem_filter.1 hf).2))
  · exact .inl (mem_plainNames_of_shared (mentions_relationshipSchemas hn))

theorem mentions_resourceData {e : Entity} (hn : (m.resourceData e).Mentions n) :
    n = e.name ∨ n ∈ sharedNames := by
  simp only [resourceData, mentions_allOf, mentions_arr_cons, mentions_ref,
    not_mentions_arr_nil, or_false] at hn
  refine hn.imp_right fun hn => ?_
  simp only [mentions_obj_cons, Text.ofString_inj, String.reduceEq, false_and, not_mentions_str,
    not_mentions_obj_nil, or_false, false_or] at hn
  rw [mentions_obj_of_objects] at hn
  · obtain ⟨p, hp, hn⟩ := hn
    obtain ⟨f, -, rfl⟩ := List.mem_map.1 (Assoc.mem_of_mem_ofList hp)
    rw [mentions_ref.1 hn]
    exact relationship_mem_sharedNames _ _
  · intro p hp
    obtain ⟨f, -, rfl⟩ := List.mem_map.1 (Assoc.mem_of_mem_ofList hp)
    trivial

@[simp] theorem mentions_envelope {description : Text} {required : List Text}
    {properties : List (Text × Json)} :
    (envelope description required properties).Mentions n ↔ (obj properties).Mentions n := by
  simp [envelope, mentions_obj_cons, Text.ofString_inj]

theorem mem_sharedNames_of_envelope
    (h : n ∈ (["_jsonapi", "_meta", "_resource", "_links", "_pagination"] : List Text)) :
    n ∈ sharedNames := by
  simp only [List.mem_cons, List.not_mem_nil, or_false] at h
  rcases h with rfl | rfl | rfl | rfl | rfl <;> simp [sharedNames]

/-! ## Edges -/

/-- The schema `k` of the model may mention the schema `n`. -/
inductive LeadsTo (m : Model) (k : Text) : Text → Prop
  | plain {n : Text} : n ∈ m.plainNames → LeadsTo m k n
  /-- A response holds its entity. -/
  | response {e : Entity} : e ∈ m.entities → k ∈ [e.response, e.listResponse] → LeadsTo m k e.name
  /-- The schemas of an entity hold its id. -/
  | id {e : Entity} {f : Field} {n : Text} : e ∈ m.entities → k ∈ e.schemaNames →
      e.soleId? = some f → m.RefersTo f n → LeadsTo m k n
  /-- A structured type holds its fields. -/
  | field {d : TypeDecl} {f : Field} {n : Text} : d ∈ m.types → k = d.name → f ∈ d.fields →
      m.RefersTo f n → LeadsTo m k n

theorem LeadsTo.shared {k : Text} (h : n ∈ sharedNames) : m.LeadsTo k n :=
  .plain (mem_plainNames_of_shared h)

/-- An edge ends in something plain or in an entity, and never in an envelope. -/
theorem LeadsTo.cases {k : Text} (h : m.LeadsTo k n) :
    n ∈ m.plainNames ∨ ∃ e ∈ m.entities, e.name = n := by
  have hrefers {f : Field} (href : m.RefersTo f n) :
      n ∈ m.plainNames ∨ ∃ e ∈ m.entities, e.name = n :=
    href.cases.symm.imp And.right And.right
  cases h with
  | plain hn => exact .inl hn
  | response he _ => exact .inr ⟨_, he, rfl⟩
  | id _ _ _ href => exact hrefers href
  | field _ _ _ href => exact hrefers href

theorem LeadsTo.mem_schemaNames {k : Text} (h : m.LeadsTo k n) : n ∈ m.schemaNames := by
  rcases h.cases with hn | ⟨e, he, rfl⟩
  · exact mem_schemaNames_of_plain hn
  · exact mem_schemaNames_of_entity he List.mem_cons_self

/-- A request mentions its resource object, a response the entity's data; the rest is shared. -/
theorem leadsTo_of_entitySchemas {e : Entity} (he : e ∈ m.entities) {pairs : List (Text × Json)}
    (h : m.entitySchemas style e = .ok pairs) {p : Text × Json} (hp : p ∈ pairs)
    (hn : p.2.Mentions n) : m.LeadsTo p.1 n := by
  have hkey : p.1 ∈ e.schemaNames := keys_entitySchemas h ▸ List.mem_map_of_mem hp
  obtain ⟨read, hread, h⟩ := bind_eq_ok_iff.1 h
  obtain ⟨create, hcreate, h⟩ := bind_eq_ok_iff.1 h
  obtain ⟨update, hupdate, h⟩ := bind_eq_ok_iff.1 h
  have hobject {mode : Mode} {s : Json} (hs : m.entitySchema style mode e = .ok s)
      (hn : s.Mentions n) : m.LeadsTo p.1 n := by
    rcases mentions_entitySchema hs hn with hplain | ⟨f, hf, href⟩
    · exact .plain hplain
    · exact .id he hkey hf href
  have hdata (hresponse : p.1 ∈ [e.response, e.listResponse])
      (hn : (m.resourceData e).Mentions n) : m.LeadsTo p.1 n := by
    rcases mentions_resourceData hn with rfl | hshared
    · exact .response he hresponse
    · exact .shared hshared
  have henvelope (h : n ∈ (["_jsonapi", "_meta", "_resource", "_links", "_pagination"] :
      List Text)) : m.LeadsTo p.1 n := .shared (mem_sharedNames_of_envelope h)
  cases h
  simp only [List.mem_cons, List.not_mem_nil, or_false] at hp
  rcases hp with rfl | rfl | rfl | rfl | rfl
  · exact hobject hread hn
  · simp [mentions_obj_cons, Text.ofString_inj] at hn
    rcases hn with hn | rfl
    · exact hobject hcreate hn
    · exact henvelope (by simp)
  · simp [mentions_obj_cons, Text.ofString_inj] at hn
    rcases hn with hn | rfl
    · exact hobject hupdate hn
    · exact henvelope (by simp)
  · simp [mentions_obj_cons, Text.ofString_inj] at hn
    rcases hn with rfl | hn | rfl | rfl | rfl
    · exact henvelope (by simp)
    · exact hdata (by simp) hn
    all_goals exact henvelope (by simp)
  · simp [mentions_obj_cons, mentions_arr_iff, Text.ofString_inj] at hn
    rcases hn with rfl | hn | rfl | rfl | rfl | rfl
    · exact henvelope (by simp)
    · exact hdata (by simp) hn
    all_goals exact henvelope (by simp)

/-- A schema of the model is a shared one, or one that a declaration gives. -/
theorem mem_componentSchemas_cases {schemas : Assoc Text Json}
    (h : m.componentSchemas style = .ok schemas) {p : Text × Json} (hp : p ∈ schemas) :
    p ∈ shared style ∨ (∃ d ∈ m.enums, p = (d.name, d.schema)) ∨
      (∃ e ∈ m.entities, ∃ pairs, m.entitySchemas style e = .ok pairs ∧ p ∈ pairs) ∨
      ∃ d ∈ m.types, m.typeSchema style d = .ok p.2 ∧ p.1 = d.name := by
  obtain ⟨entities, types, hentities, htypes, rfl⟩ := componentSchemas_eq_ok_iff.1 h
  have hp := Assoc.mem_of_mem_ofList hp
  simp only [List.mem_append] at hp
  rcases hp with ((hp | hp) | hp) | hp
  · exact .inl hp
  · obtain ⟨d, hd, rfl⟩ := List.mem_map.1 hp
    exact .inr (.inl ⟨d, hd, rfl⟩)
  · obtain ⟨pairs, hpairs, hp⟩ := List.mem_flatten.1 hp
    obtain ⟨e, he, hok⟩ := exists_of_mem_right hentities hpairs
    exact .inr (.inr (.inl ⟨e, he, pairs, hok, hp⟩))
  · obtain ⟨d, hd, hok⟩ := exists_of_mem_right htypes hp
    obtain ⟨s, hs, rfl⟩ := map_eq_ok_iff.1 hok
    exact .inr (.inr (.inr ⟨d, hd, hs, rfl⟩))

/-- **Every mention is an edge.** -/
theorem leadsTo_of_mentions {schemas : Assoc Text Json}
    (h : m.componentSchemas style = .ok schemas) {p : Text × Json} (hp : p ∈ schemas)
    (hn : p.2.Mentions n) : m.LeadsTo p.1 n := by
  rcases mem_componentSchemas_cases h hp with
    hp | ⟨d, -, rfl⟩ | ⟨e, he, pairs, hok, hp⟩ | ⟨d, hd, hok, hkey⟩
  · exact .shared (mentions_shared hp hn)
  · exact absurd hn (not_mentions_enum d n)
  · exact leadsTo_of_entitySchemas he hok hp hn
  · obtain ⟨f, hf, href⟩ := mentions_typeSchema hok hn
    exact .field hd hkey hf href

/-- **Named schemas mention named schemas.** -/
theorem mentions_componentSchemas {schemas : Assoc Text Json}
    (h : m.componentSchemas style = .ok schemas) {p : Text × Json} (hp : p ∈ schemas)
    (hn : p.2.Mentions n) : n ∈ m.schemaNames :=
  (leadsTo_of_mentions h hp hn).mem_schemaNames

/-! ## Filters -/

theorem exists_field_of_mem_filters {e : Entity} {filters : List FilterParameter}
    (h : m.filters e = .ok filters) {p : FilterParameter} (hp : p ∈ filters) :
    ∃ f value op, m.filterValueSchema e.name f = .ok value ∧ p = filterParameter f value op := by
  obtain ⟨perField, hperField, rfl⟩ := map_eq_ok_iff.1 h
  obtain ⟨ps, hps, hp⟩ := List.mem_flatten.1 hp
  obtain ⟨f, -, hf⟩ := exists_of_mem_right (mapM_eq_ok_iff.1 hperField) hps
  unfold fieldFilters at hf
  split at hf
  · cases hf
    cases hp
  · obtain ⟨value, hvalue, rfl⟩ := map_eq_ok_iff.1 hf
    obtain ⟨op, -, rfl⟩ := List.mem_map.1 hp
    exact ⟨f, value, op, hvalue, rfl⟩

/-- The filters of an entity mention enumerations. -/
theorem mentions_filters {e : Entity} {filters : List FilterParameter}
    (h : m.filters e = .ok filters) {p : FilterParameter} (hp : p ∈ filters)
    (hn : p.schema.Mentions n) : ∃ d ∈ m.enums, d.name = n := by
  obtain ⟨f, value, op, hvalue, rfl⟩ := exists_field_of_mem_filters h hp
  have hvalueMentions : value.Mentions n := by
    revert hn
    cases op <;> simp [filterParameter, filterSchema]
  exact mentions_filterValueSchema hvalue hvalueMentions

end Model

end ResourceApi
