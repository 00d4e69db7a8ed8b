import ResourceApi.Proofs.DocumentView
import ResourceApi.Proofs.ResolvedReference

/-!
# The dialect of schemas

A schema says by some of its members what it means: a text under `$ref` stands for another schema
and makes everything beside it void, and null is admitted by the flag `nullable` in one style and by
the type `null` in the other. A value is *in the dialect* of a style when it is built from
references with nothing beside them and from objects whose members are *plain*: none is a reference,
and none admits null as the other style would.

**Inside** (`InDialect.of_occurs`, `InDialect.conforms`). What occurs in a value of the dialect, at
any depth, is in the dialect, and an object of the dialect obeys its rules.

**Fragments** (`inDialect_nullable`). The way to admit null that a style has keeps to its dialect: a
reference gets no flag beside it but a wrapper around it.

**Names of fields** (`inDialect_of_objects`). A field may be named like a member with a meaning. It
has none, since what is kept under the name is an object.

**Main result** (`document_in_dialect`). The paths and the schemas of a document are in the dialect
of its version.
-/

namespace ResourceApi

open Schema Json

/-! ## Values in the dialect -/

/-- The value occurs in another one, at any depth. -/
inductive Json.Occurs (w : Json) : Json → Prop
  | here : Occurs w w
  | member {p : Text × Json} {ms : List (Text × Json)} :
      p ∈ ms → Occurs w p.2 → Occurs w (.obj ms)
  | item {v : Json} {xs : List Json} : v ∈ xs → Occurs w v → Occurs w (.arr xs)

/-- A member that is no reference and admits null in no other style. -/
structure Plain (style : NullStyle) (key : Text) (v : Json) : Prop where
  not_link : key = "$ref" → ∀ path, v ≠ .str path
  not_flag : style = .asType → key = "nullable" → v ≠ .bool true
  not_type : style = .flag → key = "type" → v ≠ .str "null"

/-- Values in which references stand alone and null is admitted in one style only. -/
inductive InDialect (style : NullStyle) : Json → Prop
  | text (s : Text) : InDialect style (.str s)
  | bool (b : Bool) : InDialect style (.bool b)
  | list {xs : List Json} : (∀ v ∈ xs, InDialect style v) → InDialect style (.arr xs)
  | reference (path : Text) : InDialect style (.obj [("$ref", .str path)])
  | object {ms : List (Text × Json)} : (∀ p ∈ ms, Plain style p.1 p.2) →
      (∀ p ∈ ms, InDialect style p.2) → InDialect style (.obj ms)

section

variable {style : NullStyle} {v w : Json} {ms : List (Text × Json)}

/-- **What occurs in a value of the dialect is in the dialect.** -/
theorem InDialect.of_occurs (hw : w.Occurs v) (h : InDialect style v) : InDialect style w := by
  induction hw with
  | here => exact h
  | @member p ms hp _ ih =>
    cases h with
    | reference path =>
      rw [List.mem_singleton] at hp
      exact ih (hp ▸ .text path)
    | object _ hvalues => exact ih (hvalues p hp)
  | item hx _ ih =>
    cases h with
    | list hitems => exact ih (hitems _ hx)

/-- **An object of the dialect** is a reference with nothing beside it or holds none, and admits
null in no other style. -/
theorem InDialect.conforms (h : InDialect style (.obj ms)) :
    (∀ path, (("$ref" : Text), Json.str path) ∈ ms → Assoc.keys ms = ["$ref"]) ∧
      (style = .asType → (("nullable" : Text), Json.bool true) ∉ ms) ∧
      (style = .flag → (("type" : Text), Json.str "null") ∉ ms) := by
  cases h with
  | reference path => simp [Text.ofString_inj]
  | object hplain _ =>
    refine ⟨fun path hp => ?_, fun hstyle hp => ?_, fun hstyle hp => ?_⟩
    · exact absurd rfl ((hplain _ hp).not_link rfl path)
    · exact (hplain _ hp).not_flag hstyle rfl rfl
    · exact (hplain _ hp).not_type hstyle rfl rfl

/-! ## Members -/

/-- What members have to be for their object to be in the dialect. -/
def Members (style : NullStyle) (ms : List (Text × Json)) : Prop :=
  ∀ p ∈ ms, Plain style p.1 p.2 ∧ InDialect style p.2

theorem Members.object (h : Members style ms) : InDialect style (.obj ms) :=
  .object (fun p hp => (h p hp).1) fun p hp => (h p hp).2

@[simp] theorem members_nil : Members style [] := nofun

@[simp] theorem members_cons {k : Text} :
    Members style ((k, v) :: ms) ↔ (Plain style k v ∧ InDialect style v) ∧ Members style ms :=
  List.forall_mem_cons

@[simp] theorem members_member {k : Text} :
    Members style (member k v) ↔ Plain style k v ∧ InDialect style v := by
  simp [member]

@[simp] theorem members_memberIf {k : Text} {v? : Option Json} :
    Members style (memberIf k v?) ↔ ∀ v, v? = some v → Plain style k v ∧ InDialect style v := by
  cases v? <;> simp [memberIf]

@[simp] theorem members_append {ns : List (Text × Json)} :
    Members style (ms ++ ns) ↔ Members style ms ∧ Members style ns :=
  List.forall_mem_append

/-- A key that means nothing to the dialect. -/
@[simp] theorem plain_of_key {k : String} (h : k ≠ "$ref" ∧ k ≠ "nullable" ∧ k ≠ "type") :
    Plain style k v where
  not_link hk := absurd (Text.ofString_inj.1 hk) h.1
  not_flag _ hk := absurd (Text.ofString_inj.1 hk) h.2.1
  not_type _ hk := absurd (Text.ofString_inj.1 hk) h.2.2

/-- An object means nothing to the dialect, whatever its key is. -/
@[simp] theorem plain_of_isObject {k : Text} (h : IsObject v) : Plain style k v where
  not_link _ path := by
    rintro rfl
    exact h
  not_flag _ _ := by
    rintro rfl
    exact h
  not_type _ _ := by
    rintro rfl
    exact h

@[simp] theorem plain_type {t : String} (h : t ≠ "null") : Plain style "type" (.str t) where
  not_link hk := by simp [Text.ofString_inj] at hk
  not_flag _ _ := nofun
  not_type _ _ := by simpa [Text.ofString_inj] using h

@[simp] theorem plain_flag : Plain .flag "nullable" (.bool true) where
  not_link hk := by simp [Text.ofString_inj] at hk
  not_flag hstyle := nomatch hstyle
  not_type _ hk := by simp [Text.ofString_inj] at hk

@[simp] theorem plain_null_type : Plain .asType "type" (.str "null") where
  not_link hk := by simp [Text.ofString_inj] at hk
  not_flag _ hk := by simp [Text.ofString_inj] at hk
  not_type hstyle := nomatch hstyle

end

/-! ## Fragments -/

namespace Schema

variable {style : NullStyle} {s : Json} {ms : List (Text × Json)}

attribute [simp] InDialect.text InDialect.bool

@[simp] theorem inDialect_arr {xs : List Json} :
    InDialect style (.arr xs) ↔ ∀ v ∈ xs, InDialect style v := by
  refine ⟨fun h => ?_, .list⟩
  cases h with
  | list hitems => exact hitems

@[simp] theorem isRef_nil : isRef (.obj []) = false := rfl

@[simp] theorem isRef_cons {k : Text} :
    isRef (.obj ((k, s) :: ms)) = (decide (k = "$ref") || isRef (.obj ms)) := by
  simp only [isRef, Assoc.has, Assoc.get?_cons]
  split_ifs with hk
  · simp [hk]
  · simp [hk]

/-- **An object that is no reference** is in the dialect when its members are plain. -/
@[simp] theorem inDialect_obj (href : isRef (.obj ms) = false) :
    InDialect style (.obj ms) ↔ Members style ms := by
  refine ⟨fun h => ?_, Members.object⟩
  cases h with
  | reference path => simp at href
  | object hplain hvalues => exact fun p hp => ⟨hplain p hp, hvalues p hp⟩

@[simp] theorem inDialect_ref (name : Text) : InDialect style (ref name) := .reference _

@[simp] theorem inDialect_parameterRef (name : Text) : InDialect style (parameterRef name) :=
  .reference _

@[simp] theorem inDialect_typed {t : String} (h : t ≠ "null") : InDialect style (typed t) := by
  simp [typed, Text.ofString_inj, h]

@[simp] theorem inDialect_described {t : String} {d : Text} (h : t ≠ "null") :
    InDialect style (described t d) := by
  simp [described, Text.ofString_inj, h]

@[simp] theorem inDialect_formatted {t : String} {format : Text} (h : t ≠ "null") :
    InDialect style (formatted t format) := by
  simp [formatted, Text.ofString_inj, h]

@[simp] theorem inDialect_texts (xs : List Text) : InDialect style (texts xs) := by
  simp [texts]

@[simp] theorem inDialect_allOf {schemas : List Json} :
    InDialect style (allOf schemas) ↔ ∀ s ∈ schemas, InDialect style s := by
  simp [allOf, Text.ofString_inj]

@[simp] theorem inDialect_oneOf {schemas : List Json} :
    InDialect style (oneOf schemas) ↔ ∀ s ∈ schemas, InDialect style s := by
  simp [oneOf, Text.ofString_inj]

@[simp] theorem inDialect_arrayOf : InDialect style (arrayOf s) ↔ InDialect style s := by
  simp [arrayOf, Text.ofString_inj]

@[simp] theorem inDialect_arrayIf {array : Bool} :
    InDialect style (arrayIf array s) ↔ InDialect style s := by
  cases array <;> simp [arrayIf]

/-- An object of objects is in the dialect when they are, whatever its keys are. -/
theorem inDialect_of_objects (h : ∀ p ∈ ms, IsObject p.2 ∧ InDialect style p.2) :
    InDialect style (.obj ms) :=
  Members.object fun p hp => ⟨plain_of_isObject (h p hp).1, (h p hp).2⟩

/-- **Admitting null stays in the dialect**: in a style's own way, and never beside a reference. -/
theorem inDialect_nullable (h : InDialect style s) (hs : IsObject s) :
    InDialect style (nullable style s) := by
  cases style with
  | asType =>
    have hnull : InDialect .asType (typed "null") := Members.object (by simp)
    simp [nullable, h, hnull]
  | flag =>
    unfold nullable
    simp only
    split_ifs with href
    · simp [h, Text.ofString_inj]
    · -- the flag joins members that are all plain, since the object is no reference
      cases s with
      | obj ms =>
        have hms : Members .flag ms := (inDialect_obj (by simpa using href)).1 h
        refine Members.object fun p hp => ?_
        rcases Assoc.mem_of_mem_insert hp with rfl | hp
        · exact ⟨plain_flag, .bool true⟩
        · exact hms p hp
      | _ => cases hs

theorem inDialect_nullableIf (h : InDialect style s) (hs : IsObject s) (optional : Bool) :
    InDialect style (nullableIf optional style s) := by
  unfold nullableIf
  split_ifs
  · exact inDialect_nullable h hs
  · exact h

theorem inDialect_withDescription {d : Text} (h : InDialect style s) (href : isRef s = false) :
    InDialect style (withDescription d s) := by
  cases s with
  | obj ms =>
    refine Members.object fun p hp => ?_
    have hmem : p ∈ (Text.ofString "description", Json.str d) :: ms := Assoc.mem_of_mem_ofList hp
    rcases List.mem_cons.1 hmem with rfl | hp
    · simp
    · exact (inDialect_obj href).1 h p hp
  | _ => exact h

theorem inDialect_primitive (p : Primitive) : InDialect style p.schema := by
  cases p with
  | bytes => simp [Primitive.schema, Text.ofString_inj]
  | json => exact Members.object members_nil
  | _ => simp [Primitive.schema]

end Schema

/-! ## Schemas -/

theorem isObject_shared {style : NullStyle} : ∀ p ∈ shared style, IsObject p.2 := by
  cases style <;> decide

theorem inDialect_shared {style : NullStyle} : ∀ p ∈ shared style, InDialect style p.2 := by
  have hlink (d : Text) : InDialect style (nullable style (described "string" d)) :=
    inDialect_nullable (by simp) trivial
  have hdata : InDialect style (nullable style (ref "_resourceIdentifier")) :=
    inDialect_nullable (by simp) trivial
  have hrequest (d : Text) : InDialect style (withDescription d (nullable style (.obj [
      ("type", "object"), ("required", Json.texts ["data"]),
      ("properties", .obj [("data", ref "_resourceIdentifier")])]))) := by
    refine inDialect_withDescription (inDialect_nullable ?_ trivial) (by cases style <;> rfl)
    simp [Text.ofString_inj]
  have hpaged (d : Text) : InDialect style (withDescription d
      (allOf [ref "_pagination", ref "_relationLinks"])) :=
    inDialect_withDescription (by simp) rfl
  have hresponse (d data : Text) : InDialect style (withDescription d (allOf [ref data, .obj [
      ("type", "object"), ("properties", .obj [("jsonapi", ref "_jsonapi")])]])) :=
    inDialect_withDescription (by simp [Text.ofString_inj]) rfl
  have hidentifier : Plain style "type" (described "string" "Resource type") :=
    plain_of_isObject trivial
  simp [shared, objectOf, hlink, hdata, hrequest, hpaged, hresponse, hidentifier,
    Text.ofString_inj]

theorem inDialect_enum {style : NullStyle} (d : EnumDecl) : InDialect style d.schema := by
  simp [EnumDecl.schema, Text.ofString_inj]

namespace Model

variable {m : Model} {style : NullStyle} {owner : Option Text} {s : Json}

theorem inDialect_baseSchema {f : Field} (h : m.baseSchema owner f = .ok s) :
    InDialect style s := by
  rcases baseSchema_cases h with ⟨p, rfl⟩ | ⟨name, -, rfl⟩
  · exact inDialect_primitive p
  · exact inDialect_ref name

theorem inDialect_fieldSchema {f : Field} (h : m.fieldSchema style owner f = .ok s) :
    InDialect style s := by
  obtain ⟨base, hbase, rfl⟩ := map_eq_ok_iff.1 h
  exact inDialect_arrayIf.2
    (inDialect_nullableIf (inDialect_baseSchema hbase) (isObject_baseSchema hbase) _)

/-- Properties are in the dialect, whatever the names of the fields are. -/
theorem inDialect_properties {fields : List Field} {properties : List (Text × Json)}
    (h : (fields.mapM fun f => (m.fieldSchema style owner f).map (Prod.mk f.name)) =
      .ok properties) : InDialect style (.obj (Assoc.ofList properties)) := by
  refine inDialect_of_objects fun p hp => ?_
  obtain ⟨f, -, hok⟩ := exists_field_of_mem_properties h hp
  exact ⟨isObject_fieldSchema hok, inDialect_fieldSchema hok⟩

theorem inDialect_typeSchema {d : TypeDecl} (h : m.typeSchema style d = .ok s) :
    IsObject s ∧ InDialect style s := by
  obtain ⟨properties, hproperties, rfl⟩ := map_eq_ok_iff.1 h
  refine ⟨trivial, ?_⟩
  simp [inDialect_properties hproperties, Text.ofString_inj]

theorem inDialect_relationshipSchemas {mode : Mode} {fields : List Field} :
    InDialect style (.obj (m.relationshipSchemas style mode fields)) := by
  refine inDialect_of_objects fun p hp => ?_
  obtain ⟨f, -, rfl⟩ := List.mem_map.1 (Assoc.mem_of_mem_ofList hp)
  have href : IsObject (ref (relationship f.array (mode == .read))) := trivial
  exact ⟨href.nullableIf _, inDialect_nullableIf (inDialect_ref _) href _⟩

theorem inDialect_idSchema {e : Entity} (h : m.idSchema e = .ok s) : InDialect style s := by
  unfold idSchema at h
  split at h
  · exact inDialect_baseSchema h
  · cases h
    simp

theorem inDialect_attributesSchema {required : List Text} {attributes : List (Text × Json)}
    (h : InDialect style (.obj (Assoc.ofList attributes))) :
    InDialect style (attributesSchema required attributes) := by
  unfold attributesSchema
  split_ifs <;> simp [h, Text.ofString_inj]

theorem members_relationshipsMember {relationships : Assoc Text Json}
    (h : InDialect style (.obj relationships)) :
    Members style (relationshipsMember relationships) := by
  unfold relationshipsMember
  split_ifs <;> simp [h, Text.ofString_inj]

/-- A resource object is in the dialect when its parts are. Its members stand under names of the
format, the type of the resource among them. -/
theorem inDialect_resourceObject {e : Entity} {mode : Mode} {id attributes : Json}
    {relationships : Assoc Text Json} (hid : InDialect style id)
    (hattributes : InDialect style attributes) (h : InDialect style (.obj relationships)) :
    InDialect style (resourceObject e mode id attributes relationships) := by
  have htype : Plain style "type" (typed "string") := plain_of_isObject trivial
  have hrelationships := members_relationshipsMember h
  have hproperties : InDialect style (.obj (("id", id) :: ("type", typed "string") ::
      ("attributes", attributes) :: relationshipsMember relationships)) :=
    Members.object (by simp [hid, htype, hattributes, hrelationships])
  simp [resourceObject, hproperties, Text.ofString_inj]

theorem inDialect_entitySchema {mode : Mode} {e : Entity}
    (h : m.entitySchema style mode e = .ok s) : IsObject s ∧ InDialect style s := by
  obtain ⟨attributes, hattributes, h⟩ := bind_eq_ok_iff.1 h
  obtain ⟨id, hid, h⟩ := bind_eq_ok_iff.1 h
  cases h
  exact ⟨trivial, inDialect_resourceObject (inDialect_idSchema hid)
    (inDialect_attributesSchema (inDialect_properties hattributes)) inDialect_relationshipSchemas⟩

theorem inDialect_resourceData (e : Entity) : InDialect style (m.resourceData e) := by
  have hrelationships : InDialect style (.obj (Assoc.ofList
      ((e.fields.filter m.isRelationship).map fun f =>
        (f.name, ref (relationship f.array false))))) := by
    refine inDialect_of_objects fun p hp => ?_
    obtain ⟨f, -, rfl⟩ := List.mem_map.1 (Assoc.mem_of_mem_ofList hp)
    exact ⟨trivial, inDialect_ref _⟩
  simp [resourceData, hrelationships, Text.ofString_inj]

theorem inDialect_entitySchemas {e : Entity} {pairs : List (Text × Json)}
    (h : m.entitySchemas style e = .ok pairs) :
    ∀ p ∈ pairs, IsObject p.2 ∧ InDialect style p.2 := by
  obtain ⟨read, hread, h⟩ := bind_eq_ok_iff.1 h
  obtain ⟨create, hcreate, h⟩ := bind_eq_ok_iff.1 h
  obtain ⟨update, hupdate, h⟩ := bind_eq_ok_iff.1 h
  cases h
  simp [envelope, inDialect_entitySchema hread, inDialect_entitySchema hcreate,
    inDialect_entitySchema hupdate, inDialect_resourceData, Text.ofString_inj]

/-- **Every schema is an object in the dialect** of the style it is built for. -/
theorem inDialect_componentSchemas {schemas : Assoc Text Json}
    (h : m.componentSchemas style = .ok schemas) {p : Text × Json} (hp : p ∈ schemas) :
    IsObject p.2 ∧ InDialect style p.2 := by
  rcases mem_componentSchemas_cases h hp with
    hp | ⟨d, -, rfl⟩ | ⟨e, -, pairs, hok, hp⟩ | ⟨d, -, hok, -⟩
  · exact ⟨isObject_shared p hp, inDialect_shared p hp⟩
  · exact ⟨trivial, inDialect_enum d⟩
  · exact inDialect_entitySchemas hok p hp
  · exact inDialect_typeSchema hok

theorem inDialect_filterValueSchema {owner : Text} {f : Field}
    (h : m.filterValueSchema owner f = .ok s) : InDialect style s := by
  unfold filterValueSchema at h
  split at h
  · cases h
    simp
  · next p _ _ =>
    cases h
    exact inDialect_primitive p
  · obtain ⟨d, -, rfl⟩ := map_eq_ok_iff.1 h
    cases d <;> simp

/-- Filters do not admit null, so they are in the dialect of either style. -/
theorem inDialect_filters {e : Entity} {filters : List FilterParameter}
    (h : m.filters e = .ok filters) {p : FilterParameter} (hp : p ∈ filters) :
    InDialect style p.schema := by
  obtain ⟨f, value, op, hvalue, rfl⟩ := exists_field_of_mem_filters h hp
  have hschema : InDialect style value := inDialect_filterValueSchema hvalue
  cases op <;> simp [filterParameter, filterSchema, hschema]

end Model

/-! ## Operations -/

section

variable {style : NullStyle}

theorem inDialect_parameter {p : Parameter}
    (h : ∀ filter, p = .filter filter → InDialect style filter.schema) :
    InDialect style p.toJson := by
  cases p with
  | shared p => exact inDialect_parameterRef p.key
  | filter p => simp [Parameter.toJson, FilterParameter.toJson, h p rfl, Text.ofString_inj]

theorem inDialect_content (name : Text) : InDialect style (content name) := by
  refine inDialect_of_objects fun p hp => ?_
  rw [List.mem_singleton] at hp
  rw [hp]
  exact ⟨trivial, by simp [Text.ofString_inj]⟩

theorem inDialect_requestBody (name : Text) : InDialect style (requestBody name) := by
  simp [requestBody, inDialect_content, Text.ofString_inj]

theorem inDialect_response (r : Response) : InDialect style r.toJson := by
  unfold Response.toJson
  split
  · simp [Text.ofString_inj]
  · split_ifs <;> simp [inDialect_content, Text.ofString_inj]

theorem inDialect_operation {o : Operation}
    (h : ∀ ps, o.parameters = some ps → ∀ p, .filter p ∈ ps → InDialect style p.schema) :
    InDialect style o.toJson := by
  have hparameters : ∀ ps, o.parameters = some ps → ∀ p ∈ ps, InDialect style p.toJson :=
    fun ps hps p hp => inDialect_parameter fun filter heq => h ps hps filter (heq ▸ hp)
  have hresponses : InDialect style (.obj (o.responses.map fun r => (r.1, r.2.toJson))) := by
    refine inDialect_of_objects fun p hp => ?_
    obtain ⟨r, -, rfl⟩ := List.mem_map.1 hp
    exact ⟨trivial, inDialect_response r.2⟩
  refine Members.object ?_
  simpa [hresponses, inDialect_requestBody] using hparameters

/-- **Paths are in the dialect** when their operations are. -/
theorem inDialect_pathsJson {paths : Assoc Text PathItem}
    (h : ∀ p ∈ paths, ∀ o ∈ p.2, InDialect style o.2.toJson) :
    InDialect style (pathsJson paths) := by
  refine inDialect_of_objects fun p hp => ?_
  obtain ⟨item, hitem, hjson⟩ := Assoc.mem_mapValues.1 hp
  rw [← hjson]
  refine ⟨trivial, inDialect_of_objects fun q hq => ?_⟩
  obtain ⟨o, ho, rfl⟩ := List.mem_map.1 hq
  exact ⟨trivial, h _ hitem o ho⟩

end

/-! ## Documents -/

theorem Routing.inDialect_of_serves {r : Routing} {e : Entity} {x : Endpoint} {path : Text}
    {m : Method} {o : Operation} (h : x.Serves r e path m o) (style : NullStyle) :
    InDialect style o.toJson := by
  refine inDialect_operation fun ps hps p hp => ?_
  obtain ⟨e', filters, he', hp⟩ := h.exists_filters hps hp
  exact Model.inDialect_filters he' hp

namespace Generator

variable {g : Generator} {d : Document}

/-- The paths of a document are in the dialect of either style. -/
theorem inDialect_paths (h : g.document = .ok d) (style : NullStyle) :
    InDialect style (pathsJson d.paths) := by
  refine inDialect_pathsJson fun p hp o ho => ?_
  obtain ⟨e, -, x, -, hserves⟩ := exists_serves_of_document h hp ho
  exact Routing.inDialect_of_serves hserves style

theorem inDialect_schemas (h : g.document = .ok d) : InDialect g.nullStyle (.obj d.schemas) := by
  obtain ⟨schemas, hschemas, hd⟩ := schemas_of_document h
  rw [hd]
  exact inDialect_of_objects fun p hp =>
    Model.inDialect_componentSchemas hschemas (mem_prune_iff.1 hp).1

/-- **Documents keep to their dialect.** In the paths and the schemas, at any depth: what has a text
under `$ref` has nothing beside it, no flag admits null where null is a type, and no type does where
it is a flag. -/
theorem document_in_dialect {m : Model} {o : Options} {openness : Entity → Except Failure Openness}
    (h : (Generator.new m o openness >>= Generator.document) = .ok d) {v : Json}
    (hv : d.toJson.get? "paths" = some v ∨
      (d.toJson.get? "components").bind (·.get? "schemas") = some v)
    {ms : List (Text × Json)} (hms : (Json.obj ms).Occurs v) :
    (∀ path, (("$ref" : Text), Json.str path) ∈ ms → Assoc.keys ms = ["$ref"]) ∧
      (o.nullStyle = .ok .asType → (("nullable" : Text), Json.bool true) ∉ ms) ∧
      (o.nullStyle = .ok .flag → (("type" : Text), Json.str "null") ∉ ms) := by
  obtain ⟨g, hg, hd⟩ := bind_eq_ok_iff.1 h
  obtain ⟨style, hstyle, rfl⟩ := new_eq_ok_iff.1 hg
  have hdialect : InDialect style v := by
    rw [Document.get?_paths, Document.get?_schemas, Option.some.injEq, Option.some.injEq] at hv
    rcases hv with rfl | rfl
    · exact inDialect_paths hd _
    · exact inDialect_schemas hd
  obtain ⟨href, hflag, htype⟩ := (hdialect.of_occurs hms).conforms
  rw [hstyle]
  exact ⟨href, fun heq => hflag (Except.ok.inj heq), fun heq => htype (Except.ok.inj heq)⟩

end Generator

/-- The first parameter for listing posts is a reference, and has nothing beside it. -/
theorem Blog.include_stands_alone : ∃ d ms,
    (Generator.new generator.model generator.options >>= Generator.document) = .ok d ∧
    (Json.obj ms).Occurs (pathsJson d.paths) ∧
    (("$ref" : Text), Json.str "#/components/parameters/include") ∈ ms ∧
    Assoc.keys ms = ["$ref"] ∧ (("type" : Text), Json.str "null") ∉ ms := by
  obtain ⟨d, hd⟩ : ∃ d, (Generator.new generator.model generator.options >>=
    Generator.document) = .ok d := ⟨_, rfl⟩
  have hoccurs : (Json.obj [(("$ref" : Text),
      Json.str "#/components/parameters/include")]).Occurs (pathsJson d.paths) := by
    cases hd
    exact .member List.mem_cons_self (.member List.mem_cons_self (.member
      (List.mem_of_getElem? (i := 3) rfl) (.item List.mem_cons_self .here)))
  obtain ⟨halone, -, htype⟩ :=
    Generator.document_in_dialect hd (.inl (Document.get?_paths d)) hoccurs
  exact ⟨d, _, hd, hoccurs, List.mem_singleton_self _, halone _ (List.mem_singleton_self _),
    htype rfl⟩

end ResourceApi
