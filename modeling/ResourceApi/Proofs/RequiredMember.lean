import ResourceApi.Proofs.Dialect
import ResourceApi.Proofs.FieldPlace
import ResourceApi.Proofs.WrittenSchema

/-!
# Required members

A schema of an object lists the names that must be given under `required`, and describes the members
under `properties`. A name that is listed and not described could be given as anything; in a
document there is none.

**Throughout a value** (`Json.Throughout`). A property of objects holds throughout a value when it
holds of every object that occurs in it. It is shown part by part (`throughout_obj`).

**Names of fields** (`requiredDescribed_of_objects`). A field may be named `required` or
`properties`. Among the properties it stands for itself, since what is kept there is an object and
no list.

**Attributes** (`describesRequired_attributesSchema`). The required attributes and the described
ones are put together side by side, from the same fields.

**Main result** (`document_describes_required`).
-/

namespace ResourceApi

open Schema Json

/-! ## Throughout a value -/

namespace Json

/-- The property holds of every object that occurs in the value. -/
def Throughout (P : List (Text × Json) → Prop) (v : Json) : Prop :=
  ∀ ms, (obj ms).Occurs v → P ms

section

variable {P : List (Text × Json) → Prop} {v : Json} {ms ns : List (Text × Json)}

@[simp] theorem throughout_str (s : Text) : Throughout P (.str s) := nofun

@[simp] theorem throughout_bool (b : Bool) : Throughout P (.bool b) := nofun

@[simp] theorem throughout_arr {xs : List Json} :
    Throughout P (.arr xs) ↔ ∀ v ∈ xs, Throughout P v := by
  constructor
  · intro h v hv ms hms
    exact h ms (.item hv hms)
  · intro h ms hms
    cases hms with
    | item hv hms => exact h _ hv ms hms

/-- An object has the property throughout when it has it itself and its members do. -/
@[simp] theorem throughout_obj :
    Throughout P (.obj ms) ↔ P ms ∧ ∀ p ∈ ms, Throughout P p.2 := by
  constructor
  · intro h
    refine ⟨h ms .here, ?_⟩
    intro p hp ns hns
    exact h ns (.member hp hns)
  · rintro ⟨hself, hmembers⟩ ns hns
    cases hns with
    | here => exact hself
    | member hp hns => exact hmembers _ hp ns hns

@[simp] theorem throughout_texts (xs : List Text) : Throughout P (texts xs) := by
  simp [texts]

end

end Json

/-! ## Described names -/

/-- The names that an object requires are described among its properties, and if names are distinct
then none of them is required twice. -/
def RequiredDescribed (distinct : Prop) (ms : List (Text × Json)) : Prop :=
  ∀ names, Assoc.get? ms "required" = some (.arr names) →
    ∃ properties, Assoc.get? ms "properties" = some (.obj properties) ∧
      (∀ v ∈ names, ∃ name ∈ Assoc.keys properties, v = .str name) ∧
      (distinct → names.Nodup)

@[simp] theorem texts_eq_arr_iff {names : List Text} {vs : List Json} :
    texts names = .arr vs ↔ names.map .str = vs := by
  simp [texts]

/-- Every object in the value describes what it requires. -/
abbrev DescribesRequired (distinct : Prop) (v : Json) : Prop :=
  Throughout (RequiredDescribed distinct) v

section

variable {distinct : Prop} {v s : Json} {ms : List (Text × Json)}

/-- What requires nothing has nothing to describe. -/
theorem requiredDescribed_of_none (h : Assoc.get? ms "required" = none) :
    RequiredDescribed distinct ms := by
  intro names hnames
  rw [h] at hnames
  cases hnames

/-- **Objects require nothing by their keys**, whatever these are: what stands under `required` is
no list. -/
theorem requiredDescribed_of_objects (h : ∀ p ∈ ms, IsObject p.2) :
    RequiredDescribed distinct ms := by
  intro names hnames
  exact (h _ (Assoc.mem_of_get? hnames)).elim

theorem requiredDescribed_of_texts {required : List Text} {properties : List (Text × Json)}
    (hrequired : Assoc.get? ms "required" = some (texts required))
    (hproperties : Assoc.get? ms "properties" = some (.obj properties))
    (hdescribed : ∀ name ∈ required, name ∈ Assoc.keys properties)
    (hdistinct : distinct → required.Nodup) : RequiredDescribed distinct ms := by
  intro names hnames
  rw [hrequired, Option.some.injEq] at hnames
  cases hnames
  refine ⟨properties, hproperties, ?_, ?_⟩
  · intro v hv
    obtain ⟨name, hname, rfl⟩ := List.mem_map.1 hv
    exact ⟨name, hdescribed name hname, rfl⟩
  · intro h
    exact (hdistinct h).map fun _ _ => Json.str.inj

/-- An object of objects describes what it requires when they do. -/
theorem describesRequired_of_objects
    (h : ∀ p ∈ ms, IsObject p.2 ∧ DescribesRequired distinct p.2) :
    DescribesRequired distinct (.obj ms) :=
  throughout_obj.2 ⟨requiredDescribed_of_objects fun p hp => (h p hp).1, fun p hp => (h p hp).2⟩

end

/-! ## Fragments -/

namespace Schema

variable {distinct : Prop} {style : NullStyle} {s : Json} {ms : List (Text × Json)}

@[simp] theorem describesRequired_ref (name : Text) : DescribesRequired distinct (ref name) := by
  simp [ref, requiredDescribed_of_none, Assoc.get?_cons, Text.ofString_inj]

@[simp] theorem describesRequired_typed (t : Text) : DescribesRequired distinct (typed t) := by
  simp [typed, requiredDescribed_of_none, Assoc.get?_cons, Text.ofString_inj]

@[simp] theorem describesRequired_described (t d : Text) :
    DescribesRequired distinct (described t d) := by
  simp [described, requiredDescribed_of_none, Assoc.get?_cons, Text.ofString_inj]

@[simp] theorem describesRequired_formatted (t format : Text) :
    DescribesRequired distinct (formatted t format) := by
  simp [formatted, requiredDescribed_of_none, Assoc.get?_cons, Text.ofString_inj]

@[simp] theorem describesRequired_allOf {schemas : List Json} :
    DescribesRequired distinct (allOf schemas) ↔ ∀ s ∈ schemas, DescribesRequired distinct s := by
  simp [allOf, requiredDescribed_of_none, Assoc.get?_cons, Text.ofString_inj]

@[simp] theorem describesRequired_oneOf {schemas : List Json} :
    DescribesRequired distinct (oneOf schemas) ↔ ∀ s ∈ schemas, DescribesRequired distinct s := by
  simp [oneOf, requiredDescribed_of_none, Assoc.get?_cons, Text.ofString_inj]

@[simp] theorem describesRequired_arrayOf :
    DescribesRequired distinct (arrayOf s) ↔ DescribesRequired distinct s := by
  simp [arrayOf, requiredDescribed_of_none, Assoc.get?_cons, Text.ofString_inj]

@[simp] theorem describesRequired_arrayIf {array : Bool} :
    DescribesRequired distinct (arrayIf array s) ↔ DescribesRequired distinct s := by
  cases array <;> simp [arrayIf]

/-- A member that is not about required names changes nothing. -/
theorem describesRequired_insert {key : String} {v : Json}
    (hkey : key ≠ "required" ∧ key ≠ "properties") (hv : DescribesRequired distinct v)
    (h : DescribesRequired distinct (.obj ms)) :
    DescribesRequired distinct (.obj (Assoc.insert ms key v)) := by
  obtain ⟨hself, hmembers⟩ := throughout_obj.1 h
  refine throughout_obj.2 ⟨?_, ?_⟩
  · simpa [RequiredDescribed, Assoc.get?_insert, Text.ofString_inj, hkey] using hself
  · intro p hp
    rcases Assoc.mem_of_mem_insert hp with rfl | hp
    · exact hv
    · exact hmembers p hp

theorem describesRequired_withDescription {d : Text}
    (hkeys : (Text.ofString "description" :: Assoc.keys ms).Nodup)
    (h : DescribesRequired distinct (.obj ms)) :
    DescribesRequired distinct (withDescription d (.obj ms)) := by
  have hfront : withDescription d (.obj ms) = .obj (("description", .str d) :: ms) :=
    congrArg Json.obj (Assoc.insertAll_of_disjoint hkeys)
  obtain ⟨hself, hmembers⟩ := throughout_obj.1 h
  rw [hfront]
  refine throughout_obj.2 ⟨?_, ?_⟩
  · simpa [RequiredDescribed, Assoc.get?_cons, Text.ofString_inj] using hself
  · exact List.forall_mem_cons.2 ⟨throughout_str d, hmembers⟩

theorem describesRequired_nullable (h : DescribesRequired distinct s) :
    DescribesRequired distinct (nullable style s) := by
  cases style with
  | asType => simp [nullable, h]
  | flag =>
    unfold nullable
    simp only
    split_ifs with href
    · simp [h, requiredDescribed_of_none, Assoc.get?_cons, Text.ofString_inj]
    · cases s with
      | obj ms => exact describesRequired_insert (by decide) (throughout_bool true) h
      | _ => exact h

theorem describesRequired_nullableIf (h : DescribesRequired distinct s) (optional : Bool) :
    DescribesRequired distinct (nullableIf optional style s) := by
  unfold nullableIf
  split_ifs
  · exact describesRequired_nullable h
  · exact h

theorem describesRequired_primitive (p : Primitive) : DescribesRequired distinct p.schema := by
  cases p with
  | bytes => simp [Primitive.schema, requiredDescribed_of_none, Assoc.get?_cons, Text.ofString_inj]
  | json => exact describesRequired_of_objects (List.forall_mem_nil _)
  | _ => simp [Primitive.schema]

end Schema

/-! ## Schemas -/

theorem describesRequired_shared {distinct : Prop} {style : NullStyle} :
    ∀ p ∈ shared style, DescribesRequired distinct p.2 := by
  have hlink (d : Text) : DescribesRequired distinct (nullable style (described "string" d)) :=
    describesRequired_nullable (describesRequired_described _ d)
  have hdata : DescribesRequired distinct (nullable style (ref "_resourceIdentifier")) :=
    describesRequired_nullable (describesRequired_ref _)
  have hrequest (d : Text) : DescribesRequired distinct (withDescription d (nullable style (.obj [
      ("type", "object"), ("required", Json.texts ["data"]),
      ("properties", .obj [("data", ref "_resourceIdentifier")])]))) := by
    have hbody : DescribesRequired distinct (nullable style (.obj [
        ("type", "object"), ("required", Json.texts ["data"]),
        ("properties", .obj [("data", ref "_resourceIdentifier")])])) := by
      apply describesRequired_nullable
      simp [RequiredDescribed, Assoc.get?_cons, Text.ofString_inj]
    cases style with
    | flag => exact describesRequired_withDescription (by decide) hbody
    | asType => exact describesRequired_withDescription (by decide) hbody
  have hpaged (d : Text) : DescribesRequired distinct (withDescription d
      (allOf [ref "_pagination", ref "_relationLinks"])) :=
    describesRequired_withDescription (by decide) (describesRequired_allOf.2 (by simp))
  have hresponse (d data : Text) : DescribesRequired distinct (withDescription d (allOf [ref data,
      .obj [("type", "object"), ("properties", .obj [("jsonapi", ref "_jsonapi")])]])) := by
    apply describesRequired_withDescription (by simp [Text.ofString_inj])
    apply describesRequired_allOf.2
    simp [RequiredDescribed, Assoc.get?_cons, Text.ofString_inj]
  simp [shared, objectOf, hlink, hdata, hrequest, hpaged, hresponse, RequiredDescribed,
    Assoc.get?_cons, Text.ofString_inj]

theorem describesRequired_enum {distinct : Prop} (d : EnumDecl) :
    DescribesRequired distinct d.schema := by
  simp [EnumDecl.schema, requiredDescribed_of_none, Assoc.get?_cons, Text.ofString_inj]

namespace Model

variable {distinct : Prop} {m : Model} {style : NullStyle} {owner : Option Text} {e : Entity}
  {mode : Mode} {s : Json}

theorem describesRequired_baseSchema {f : Field} (h : m.baseSchema owner f = .ok s) :
    DescribesRequired distinct s := by
  rcases baseSchema_cases h with ⟨p, rfl⟩ | ⟨name, -, rfl⟩
  · exact describesRequired_primitive p
  · exact describesRequired_ref name

theorem describesRequired_fieldSchema {f : Field} (h : m.fieldSchema style owner f = .ok s) :
    DescribesRequired distinct s := by
  obtain ⟨base, hbase, rfl⟩ := map_eq_ok_iff.1 h
  apply describesRequired_arrayIf.2
  exact describesRequired_nullableIf (describesRequired_baseSchema hbase) _

theorem describesRequired_properties {fields : List Field} {properties : List (Text × Json)}
    (h : (fields.mapM fun f => (m.fieldSchema style owner f).map (Prod.mk f.name)) =
      .ok properties) : DescribesRequired distinct (.obj (Assoc.ofList properties)) := by
  apply describesRequired_of_objects
  intro p hp
  obtain ⟨f, -, hok⟩ := exists_field_of_mem_properties h hp
  exact ⟨isObject_fieldSchema hok, describesRequired_fieldSchema hok⟩

theorem describesRequired_typeSchema {d : TypeDecl} (h : m.typeSchema style d = .ok s) :
    DescribesRequired distinct s := by
  obtain ⟨properties, hproperties, rfl⟩ := map_eq_ok_iff.1 h
  simp [describesRequired_properties hproperties, requiredDescribed_of_none, Assoc.get?_cons,
    Text.ofString_inj]

theorem describesRequired_relationshipSchemas {fields : List Field} :
    DescribesRequired distinct (.obj (m.relationshipSchemas style mode fields)) := by
  apply describesRequired_of_objects
  intro p hp
  obtain ⟨f, -, rfl⟩ := List.mem_map.1 (Assoc.mem_of_mem_ofList hp)
  have href : IsObject (ref (relationship f.array (mode == .read))) := trivial
  exact ⟨href.nullableIf _, describesRequired_nullableIf (describesRequired_ref _) _⟩

theorem describesRequired_idSchema (h : m.idSchema e = .ok s) : DescribesRequired distinct s := by
  unfold idSchema at h
  split at h
  · exact describesRequired_baseSchema h
  · cases h
    exact describesRequired_typed _

/-- **Attributes that must be given are described.** Both come from the fields that are shown: those
that must be given are some of the attributes, and under distinct names none is listed twice. -/
theorem describesRequired_attributesSchema {attributes : List (Text × Json)}
    (hdistinct : distinct → (e.fields.map (·.name)).Nodup)
    (h : m.attributeSchemas style e.name (e.shownFields mode) = .ok attributes) :
    DescribesRequired distinct
      (attributesSchema (m.requiredAttributes mode (e.shownFields mode)) attributes) := by
  have hkeys : Assoc.keys attributes =
      ((e.shownFields mode).filter (!m.isRelationship ·)).map (·.name) := by
    refine map_eq_map_of_forall₂ (mapM_eq_ok_iff.1 h) fun f p hp => ?_
    obtain ⟨schema, -, rfl⟩ := map_eq_ok_iff.1 hp
    rfl
  have hdescribed : ∀ name ∈ m.requiredAttributes mode (e.shownFields mode),
      name ∈ Assoc.keys (Assoc.ofList attributes) := by
    intro name hname
    obtain ⟨f, hf, rfl⟩ := List.mem_map.1 hname
    obtain ⟨hshown, hrequired⟩ := List.mem_filter.1 hf
    rw [Assoc.mem_keys_ofList, hkeys]
    exact List.mem_map_of_mem (List.mem_filter.2 ⟨hshown, (Bool.and_eq_true_iff.1 hrequired).1⟩)
  have hnodup : distinct → (m.requiredAttributes mode (e.shownFields mode)).Nodup := by
    intro hd
    refine (hdistinct hd).sublist (List.Sublist.map _ (List.filter_sublist.trans ?_))
    rw [shownFields_eq]
    exact List.filter_sublist
  unfold attributesSchema
  split_ifs with hnone
  · simp [describesRequired_properties h, requiredDescribed_of_none, Assoc.get?_cons,
      Text.ofString_inj]
  · refine throughout_obj.2 ⟨?_, ?_⟩
    · exact requiredDescribed_of_texts rfl rfl hdescribed hnodup
    · simp [describesRequired_properties h]

/-- A resource object requires members that every resource object has. -/
theorem describesRequired_resourceObject {id attributes : Json} {relationships : Assoc Text Json}
    (hid : DescribesRequired distinct id) (hattributes : DescribesRequired distinct attributes)
    (hrelationships : DescribesRequired distinct (.obj relationships)) :
    DescribesRequired distinct (resourceObject e mode id attributes relationships) := by
  have hnone : Assoc.get? (relationshipsMember relationships) "required" = none := by
    unfold relationshipsMember
    split_ifs <;> rfl
  have hmembers : ∀ p ∈ relationshipsMember relationships, DescribesRequired distinct p.2 := by
    unfold relationshipsMember
    split_ifs
    · exact List.forall_mem_nil _
    · simp [hrelationships, requiredDescribed_of_none, Assoc.get?_cons, Text.ofString_inj]
  refine throughout_obj.2 ⟨?_, ?_⟩
  · apply requiredDescribed_of_texts rfl rfl
    · split_ifs <;> simp
    · intro _
      split_ifs <;> decide
  · simpa [hid, hattributes, hnone, requiredDescribed_of_none, Assoc.get?_cons,
      Text.ofString_inj] using hmembers

theorem describesRequired_entitySchema (hdistinct : distinct → (e.fields.map (·.name)).Nodup)
    (h : m.entitySchema style mode e = .ok s) : DescribesRequired distinct s := by
  obtain ⟨attributes, hattributes, h⟩ := bind_eq_ok_iff.1 h
  obtain ⟨id, hid, h⟩ := bind_eq_ok_iff.1 h
  cases h
  exact describesRequired_resourceObject (describesRequired_idSchema hid)
    (describesRequired_attributesSchema hdistinct hattributes) describesRequired_relationshipSchemas

theorem describesRequired_resourceData (e : Entity) :
    DescribesRequired distinct (m.resourceData e) := by
  have hrelationships : DescribesRequired distinct (.obj (Assoc.ofList
      ((e.fields.filter m.isRelationship).map fun f =>
        (f.name, ref (relationship f.array false))))) := by
    apply describesRequired_of_objects
    intro p hp
    obtain ⟨f, -, rfl⟩ := List.mem_map.1 (Assoc.mem_of_mem_ofList hp)
    exact ⟨trivial, describesRequired_ref _⟩
  simp [resourceData, hrelationships, requiredDescribed_of_none, Assoc.get?_cons,
    Text.ofString_inj]

theorem describesRequired_entitySchemas {pairs : List (Text × Json)}
    (hdistinct : distinct → (e.fields.map (·.name)).Nodup)
    (h : m.entitySchemas style e = .ok pairs) : ∀ p ∈ pairs, DescribesRequired distinct p.2 := by
  obtain ⟨read, hread, h⟩ := bind_eq_ok_iff.1 h
  obtain ⟨create, hcreate, h⟩ := bind_eq_ok_iff.1 h
  obtain ⟨update, hupdate, h⟩ := bind_eq_ok_iff.1 h
  cases h
  simp [envelope, describesRequired_entitySchema hdistinct hread,
    describesRequired_entitySchema hdistinct hcreate,
    describesRequired_entitySchema hdistinct hupdate, describesRequired_resourceData,
    RequiredDescribed, Assoc.get?_cons, Text.ofString_inj]

/-- **Every named schema describes what it requires.** -/
theorem describesRequired_componentSchemas {schemas : Assoc Text Json}
    (hdistinct : distinct → ∀ e ∈ m.entities, (e.fields.map (·.name)).Nodup)
    (h : m.componentSchemas style = .ok schemas) {p : Text × Json} (hp : p ∈ schemas) :
    IsObject p.2 ∧ DescribesRequired distinct p.2 := by
  refine ⟨(inDialect_componentSchemas h hp).1, ?_⟩
  rcases mem_componentSchemas_cases h hp with
    hp | ⟨d, -, rfl⟩ | ⟨e, he, pairs, hok, hp⟩ | ⟨d, -, hok, -⟩
  · exact describesRequired_shared p hp
  · exact describesRequired_enum d
  · exact describesRequired_entitySchemas (fun hd => hdistinct hd e he) hok p hp
  · exact describesRequired_typeSchema hok

end Model

/-! ## Main result -/

/-- **What a document requires it describes.** In its schemas, at any depth: every name that an
object lists as required is described among its properties, and when the names of the fields of each
entity are distinct, no name is listed twice. -/
theorem Generator.document_describes_required {m : Model} {o : Options}
    {openness : Entity → Except Failure Openness} {d : Document}
    (h : (Generator.new m o openness >>= Generator.document) = .ok d) {v : Json}
    (hv : (d.toJson.get? "components").bind (·.get? "schemas") = some v)
    {ms : List (Text × Json)} (hms : (Json.obj ms).Occurs v) {names : List Json}
    (hnames : Assoc.get? ms "required" = some (.arr names)) :
    ∃ properties, Assoc.get? ms "properties" = some (.obj properties) ∧
      (∀ v ∈ names, ∃ name ∈ Assoc.keys properties, v = .str name) ∧
      ((∀ e ∈ m.entities, (e.fields.map (·.name)).Nodup) → names.Nodup) := by
  obtain ⟨g, hg, hd⟩ := bind_eq_ok_iff.1 h
  obtain ⟨style, -, rfl⟩ := new_eq_ok_iff.1 hg
  obtain ⟨schemas, hschemas, hpruned⟩ := schemas_of_document hd
  rw [Document.get?_schemas, Option.some.injEq] at hv
  have hdescribes : DescribesRequired (∀ e ∈ m.entities, (e.fields.map (·.name)).Nodup) v := by
    rw [← hv, hpruned]
    apply describesRequired_of_objects
    intro p hp
    exact Model.describesRequired_componentSchemas id hschemas (mem_prune_iff.1 hp).1
  exact hdescribes ms hms names hnames

/-- To create a user, a role must be given, and the document describes it. -/
theorem Blog.role_described : ∃ d ms properties,
    (Generator.new generator.model generator.options >>= Generator.document) = .ok d ∧
    (Json.obj ms).Occurs (.obj d.schemas) ∧
    Assoc.get? ms "required" = some (.arr [.str "role"]) ∧
    Assoc.get? ms "properties" = some (.obj properties) ∧
    ("role" : Text) ∈ Assoc.keys properties := by
  obtain ⟨d, hd⟩ : ∃ d, (Generator.new generator.model generator.options >>=
    Generator.document) = .ok d := ⟨_, rfl⟩
  obtain ⟨schemas, hschemas, hpruned⟩ := Generator.schemas_of_document (g := generator) hd
  -- the request is kept, since the paths mention it
  have hlinked : Linked (pathsJson d.paths) schemas "UserCreateRequest" := by
    apply Linked.root
    cases hd
    exact mem_refs_iff.1 (by decide +kernel)
  have hdeclared : generator.model.declarations =
      [.enum ⟨"Role", ["admin", "guest"]⟩, .entity post] ++ .entity user :: [] := rfl
  have hwritten := Model.get?_of_last_write hschemas hdeclared rfl
    (List.mem_of_getElem? (i := 1) rfl) nofun
  have hmem : _ ∈ d.schemas := hpruned ▸ mem_prune_iff.2 ⟨Assoc.mem_of_get? hwritten, hlinked⟩
  have hoccurs : (Model.attributesSchema ["role"] [("role", ref "Role")]).Occurs
      (.obj d.schemas) := by
    refine .member hmem ?_
    refine .member (List.mem_of_getElem? (i := 3) rfl) (.member List.mem_cons_self ?_)
    refine .member (List.mem_of_getElem? (i := 3) rfl) ?_
    refine .member (List.mem_of_getElem? (i := 2) rfl) ?_
    exact .here
  obtain ⟨properties, hproperties, hdescribed, -⟩ :=
    Generator.document_describes_required hd (Document.get?_schemas d) hoccurs rfl
  obtain ⟨name, hname, heq⟩ := hdescribed _ (List.mem_singleton_self _)
  exact ⟨d, _, properties, hd, hoccurs, rfl, hproperties, Json.str.inj heq ▸ hname⟩

end ResourceApi
