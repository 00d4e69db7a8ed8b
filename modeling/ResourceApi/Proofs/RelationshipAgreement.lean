import ResourceApi.Proofs.FieldPlace
import ResourceApi.Proofs.PathLayout

/-!
# Agreement about relationships

What a relationship is and whether it leads to one resource or to many is decided in three places:
in the resource object of an entity, in the data of its responses, and among its paths. Each goes
through the fields on its own, and they agree on every field but the only identifying one.

**Resource objects** (`relationshipIn?_entitySchema`). The object that is read describes a field
among its relationships when the type of the field is an entity, and then not among its attributes.

**Responses** (`relationshipIn?_resourceData`). The data of a response are a resource object and
describe its relationships once more, without their links.

**Paths** (`mem_keys_subjects_iff`). A field has its two paths when it is a relationship to a
covered entity. They can be told from all other paths, since its name is its own and holds no slash.

**Main result** (`relationships_agree`).
-/

namespace ResourceApi

open Schema

/-! ## Looking into schemas -/

/-- The value that is found by going from key to key. -/
def Json.at? : Json → List Text → Option Json
  | v, [] => some v
  | v, k :: ks => (v.get? k).bind (·.at? ks)

/-- What a resource object says about a relationship. -/
def relationshipIn? (object : Json) (name : Text) : Option Json :=
  (object.at? ["properties", "relationships", "properties"]).bind (·.get? name)

/-- What a resource object says about an attribute. -/
def attributeIn? (object : Json) (name : Text) : Option Json :=
  (object.at? ["properties", "attributes", "properties"]).bind (·.get? name)

/-- What the data of a response add to the resource object that they are. -/
def overlay? (data : Json) : Option Json :=
  match data.get? "allOf" with
  | some (.arr [_, overlay]) => some overlay
  | _ => none

theorem get?_ofList_of_field {α : Type} {fields : List Field} (hnames : (fields.map (·.name)).Nodup)
    {f : Field} (hf : f ∈ fields) (p : Field → Bool) (g : Field → α) :
    Assoc.get? (Assoc.ofList ((fields.filter p).map fun f => (f.name, g f))) f.name =
      if p f = true then some (g f) else none := by
  have hkeys : Assoc.keys ((fields.filter p).map fun f => (f.name, g f)) =
      (fields.filter p).map (·.name) := List.map_map
  have hnodup : (Assoc.keys ((fields.filter p).map fun f => (f.name, g f))).Nodup := by
    rw [hkeys]
    exact hnames.sublist (List.filter_sublist.map _)
  rw [Assoc.ofList_eq_self hnodup]
  split_ifs with hp
  · apply (Assoc.get?_eq_some_iff_mem hnodup).2
    exact List.mem_map_of_mem (f := fun f => (f.name, g f)) (List.mem_filter.2 ⟨hf, hp⟩)
  · rw [Assoc.get?_eq_none_iff, hkeys]
    intro hmem
    obtain ⟨f', hf', hname⟩ := List.mem_map.1 hmem
    obtain ⟨hmem', hp'⟩ := List.mem_filter.1 hf'
    rw [List.inj_on_of_nodup_map hnames hmem' hf hname] at hp'
    exact hp hp'

namespace Model

variable {m : Model} {style : NullStyle} {mode : Mode} {e : Entity} {f : Field} {s : Json}

/-! ## Resource objects -/

theorem relationshipIn?_resourceObject {id attributes : Json} {relationships : Assoc Text Json}
    (name : Text) : relationshipIn? (resourceObject e mode id attributes relationships) name =
      Assoc.get? relationships name := by
  cases relationships with
  | nil => rfl
  | cons p ps => rfl

theorem attributeIn?_resourceObject {id : Json} {required : List Text}
    {attributes : List (Text × Json)} {relationships : Assoc Text Json} (name : Text) :
    attributeIn? (resourceObject e mode id (attributesSchema required attributes) relationships)
      name = Assoc.get? (Assoc.ofList attributes) name := by
  cases required with
  | nil => rfl
  | cons n ns => rfl

/-- **A resource object describes a relationship** where it shows the field as one. -/
theorem relationshipIn?_entitySchema (hnames : (e.fields.map (·.name)).Nodup) (hf : f ∈ e.fields)
    (h : m.entitySchema style mode e = .ok s) : relationshipIn? s f.name =
      if m.partOf? e mode f = some .relationships then
        some (nullableIf f.optional style (ref (relationship f.array (mode == .read))))
      else none := by
  obtain ⟨attributes, -, h⟩ := bind_eq_ok_iff.1 h
  obtain ⟨id, -, h⟩ := bind_eq_ok_iff.1 h
  cases h
  have hshown := filter_shownFields m e mode true
  simp only [beq_true, if_true] at hshown
  rw [relationshipIn?_resourceObject, relationshipSchemas, hshown, fieldsIn,
    get?_ofList_of_field hnames hf]
  simp only [decide_eq_true_eq]

theorem attributeIn?_entitySchema (hnames : (e.fields.map (·.name)).Nodup) (hf : f ∈ e.fields)
    (h : m.entitySchema style mode e = .ok s) :
    attributeIn? s f.name ≠ none ↔ m.partOf? e mode f = some .attributes := by
  obtain ⟨attributes, hattributes, h⟩ := bind_eq_ok_iff.1 h
  obtain ⟨id, -, h⟩ := bind_eq_ok_iff.1 h
  cases h
  have hshown := filter_shownFields m e mode false
  simp only [beq_false, Bool.false_eq_true, if_false] at hshown
  have hkeys : Assoc.keys attributes = (m.fieldsIn e mode .attributes).map (·.name) := by
    rw [attributeSchemas, hshown] at hattributes
    refine map_eq_map_of_forall₂ (mapM_eq_ok_iff.1 hattributes) fun f p hp => ?_
    obtain ⟨schema, -, rfl⟩ := map_eq_ok_iff.1 hp
    rfl
  rw [attributeIn?_resourceObject, ne_eq, Assoc.get?_eq_none_iff, Assoc.mem_keys_ofList, hkeys,
    not_not, name_mem_fieldsIn_iff hnames hf]

theorem partOf?_read (hid : e.idFields ≠ [f]) : m.partOf? e .read f =
    some (if m.isRelationship f then .relationships else .attributes) := by
  simp only [partOf?, if_neg hid, bne_self_eq_false, Bool.and_false, Bool.false_eq_true, if_false]
  split_ifs <;> rfl

theorem partOf?_ne_attributes (hrelationship : m.isRelationship f = true) :
    m.partOf? e mode f ≠ some .attributes := by
  unfold partOf?
  split_ifs <;> simp

/-! ## Responses -/

theorem relationshipIn?_resourceData (hnames : (e.fields.map (·.name)).Nodup) (hf : f ∈ e.fields) :
    (overlay? (m.resourceData e)).bind (relationshipIn? · f.name) =
      if m.isRelationship f = true then some (ref (relationship f.array false)) else none :=
  get?_ofList_of_field hnames hf m.isRelationship fun f => ref (relationship f.array false)

theorem exists_read_of_entitySchemas {schemas : List (Text × Json)}
    (h : m.entitySchemas style e = .ok schemas) : ∃ read create update single list,
      schemas = [(e.name, read), (e.createRequest, create), (e.updateRequest, update),
        (e.response, single), (e.listResponse, list)] ∧
      m.entitySchema style .read e = .ok read ∧
      single.at? ["properties", "data"] = some (m.resourceData e) ∧
      list.at? ["properties", "data", "items"] = some (m.resourceData e) := by
  obtain ⟨read, hread, h⟩ := bind_eq_ok_iff.1 h
  obtain ⟨create, -, h⟩ := bind_eq_ok_iff.1 h
  obtain ⟨update, -, h⟩ := bind_eq_ok_iff.1 h
  cases h
  exact ⟨read, _, _, _, _, rfl, hread, rfl, rfl⟩

end Model

/-! ## Paths -/

namespace Routing

variable {r : Routing} {e : Entity} {f : Field}

/-- **The two paths of a field** are paths of the entity when it is a relationship to a covered
entity. -/
theorem mem_keys_subjects_iff (hnames : (e.fields.map (·.name)).Nodup)
    (hslash : ∀ f ∈ e.fields, .char '/' ∉ f.name.points) (hf : f ∈ e.fields) {path : Text}
    (hpath : path ∈ relationshipKeys (r.base e) f) :
    path ∈ Assoc.keys (r.subjects e) ↔ ∃ target, (f, target) ∈ r.routes e := by
  rw [keys_subjects, List.mem_append,
    or_iff_right (notMem_own_of_mem_relationshipKeys hpath), List.mem_flatMap]
  constructor
  · intro h
    obtain ⟨g, hg, hpath'⟩ := h
    obtain ⟨⟨g, target⟩, hroute, rfl⟩ := List.mem_map.1 hg
    have hgmem : g ∈ e.fields := (mem_routes_iff.1 hroute).1
    have hname : f.name = g.name := by
      by_contra hne
      exact disjoint_relationshipKeys (hslash f hf) (hslash g hgmem) hne hpath hpath'
    rw [List.inj_on_of_nodup_map hnames hf hgmem hname]
    exact ⟨target, hroute⟩
  · intro h
    obtain ⟨target, hroute⟩ := h
    exact ⟨f, List.mem_map_of_mem hroute, hpath⟩

theorem get?_of_route {items : Assoc Text PathItem} (h : r.paths e = .ok items)
    (hkeys : (Assoc.keys (r.subjects e)).Nodup) {target : Entity}
    (hroute : (f, target) ∈ r.routes e) : ∃ rules targetRules filters,
      ∀ p ∈ r.relationshipPaths e rules f target targetRules filters,
        Assoc.get? items p.1 = some p.2 := by
  have hnodup := nodup_keys_paths h
  obtain ⟨rules, filters, related, -, -, hrelated, rfl⟩ := writes_of_paths h hkeys
  obtain ⟨pairs, hpairs, hok⟩ := exists_of_mem_left hrelated hroute
  obtain ⟨targetRules, filters, -, -, rfl⟩ := routePaths_eq_ok_iff.1 hok
  refine ⟨rules, targetRules, filters, ?_⟩
  intro p hp
  apply (Assoc.get?_eq_some_iff_mem hnodup).2
  exact List.mem_append_right _ (List.mem_flatten_of_mem hpairs hp)

/-- **A relationship has its two paths.** What is answered at the first and whether the second can
be added to depend on whether it leads to many. -/
theorem exists_paths_of_route {items : Assoc Text PathItem} (h : r.paths e = .ok items)
    (hkeys : (Assoc.keys (r.subjects e)).Nodup) {target : Entity}
    (hroute : (f, target) ∈ r.routes e) : ∃ related linkage,
      Assoc.get? items (relatedPath (r.base e) f) = some [(.get, related)] ∧
      related.responses =
        ([("200", .success (if f.array then target.listResponse else target.response)),
          ("403", .forbidden), ("404", .notFound)] : List (Text × Response)) ∧
      Assoc.get? items (relationshipPath (r.base e) f) = some linkage ∧
      (.post ∈ linkage.map Prod.fst ↔ f.array = true) := by
  obtain ⟨rules, targetRules, filters, hget⟩ := get?_of_route h hkeys hroute
  refine ⟨_, _, hget _ List.mem_cons_self, rfl,
    hget _ (List.mem_cons_of_mem _ List.mem_cons_self), ?_⟩
  cases f.array <;> simp

theorem get?_paths_eq_none {items : Assoc Text PathItem} (h : r.paths e = .ok items)
    (hnames : (e.fields.map (·.name)).Nodup)
    (hslash : ∀ f ∈ e.fields, .char '/' ∉ f.name.points)
    (hkeys : (Assoc.keys (r.subjects e)).Nodup) (hf : f ∈ e.fields)
    (hrelationship : r.model.isRelationship f = false) {path : Text}
    (hpath : path ∈ relationshipKeys (r.base e) f) : Assoc.get? items path = none := by
  rw [Assoc.get?_eq_none_iff, keys_paths h hkeys, mem_keys_subjects_iff hnames hslash hf hpath]
  intro hroute
  obtain ⟨target, hroute⟩ := hroute
  rw [(mem_routes_iff.1 hroute).2.1] at hrelationship
  cases hrelationship

/-! ## Main result -/

/-- **The descriptions of a relationship agree.** Take an entity whose fields have distinct names
without slashes, and any of its fields but the only identifying one. The resource object that is
read, the data of a response and the data of a list describe it as a relationship when it is one and
not otherwise; and when the entity that its type names is covered, it has a path for the related
resources and one for the relationship when it is one and not otherwise. In all these places it
leads to many when it is an array: the schemas are those of relationships to many, what is answered
is a list, and more can be added. No resource object shows a relationship as an attribute. -/
theorem relationships_agree (r : Routing) (style : NullStyle) {e : Entity}
    (hnames : (e.fields.map (·.name)).Nodup)
    (hslash : ∀ f ∈ e.fields, .char '/' ∉ f.name.points) :
    (Succeeds (r.model.entitySchemas style e) ↔ ∀ f ∈ e.fields, r.model.Resolves f) ∧
    (Succeeds (r.paths e) ↔ Succeeds (r.openness e) ∧ r.model.Filterable e ∧
      ∀ route ∈ r.routes e, Succeeds (r.openness route.2) ∧
        (route.1.array = true → r.model.Filterable route.2)) ∧
    ∀ f ∈ e.fields, e.idFields ≠ [f] →
      (∀ schemas, r.model.entitySchemas style e = .ok schemas →
        ∃ read create update single list data,
          schemas = [(e.name, read), (e.createRequest, create), (e.updateRequest, update),
            (e.response, single), (e.listResponse, list)] ∧
          r.model.entitySchema style .read e = .ok read ∧
          relationshipIn? read f.name =
            (if r.model.isRelationship f = true then some (nullableIf f.optional style
              (ref (if f.array then "_toManyRelationshipWithLinks"
                else "_toOneRelationshipWithLinks")))
            else none) ∧
          single.at? ["properties", "data"] = some data ∧
          list.at? ["properties", "data", "items"] = some data ∧
          (overlay? data).bind (relationshipIn? · f.name) =
            if r.model.isRelationship f = true then
              some (ref (if f.array then "_toManyRelationship" else "_toOneRelationship"))
            else none) ∧
      (∀ mode s, r.model.entitySchema style mode e = .ok s → r.model.isRelationship f = true →
        attributeIn? s f.name = none) ∧
      ∀ target, Assoc.get? r.included f.typeName = some target → ∀ items, r.paths e = .ok items →
        (r.model.isRelationship f = true → ∃ related linkage,
          Assoc.get? items (r.base e ++ "/\x7bid\x7d/" ++ f.name) = some [(.get, related)] ∧
          related.responses =
            ([("200", .success (if f.array then target.listResponse else target.response)),
              ("403", .forbidden), ("404", .notFound)] : List (Text × Response)) ∧
          Assoc.get? items (r.base e ++ "/\x7bid\x7d/relationships/" ++ f.name) = some linkage ∧
          (.post ∈ linkage.map Prod.fst ↔ f.array = true)) ∧
        (r.model.isRelationship f = false →
          Assoc.get? items (r.base e ++ "/\x7bid\x7d/" ++ f.name) = none ∧
          Assoc.get? items (r.base e ++ "/\x7bid\x7d/relationships/" ++ f.name) = none) := by
  have hsublist : ((e.fields.filter r.model.isRelationship).map (·.name)).Nodup :=
    hnames.sublist (List.filter_sublist.map _)
  have hkeys : (Assoc.keys (r.subjects e)).Nodup :=
    nodup_keys_subjects hsublist fun f hf _ => hslash f hf
  refine ⟨Model.succeeds_entitySchemas_iff, succeeds_paths_iff, ?_⟩
  intro f hf hid
  refine ⟨?_, ?_, ?_⟩
  · intro schemas h
    obtain ⟨read, create, update, single, list, hschemas, hread, hsingle, hlist⟩ :=
      Model.exists_read_of_entitySchemas h
    refine ⟨read, create, update, single, list, r.model.resourceData e, hschemas, hread, ?_,
      hsingle, hlist, ?_⟩
    · rw [Model.relationshipIn?_entitySchema hnames hf hread, Model.partOf?_read hid]
      cases r.model.isRelationship f <;> cases f.array <;> rfl
    · rw [Model.relationshipIn?_resourceData hnames hf]
      cases f.array <;> rfl
  · intro mode s hs hrelationship
    by_contra hattribute
    have hpart := (Model.attributeIn?_entitySchema hnames hf hs).1 hattribute
    exact Model.partOf?_ne_attributes hrelationship hpart
  · intro target htarget items h
    rw [← relatedPath_eq, ← relationshipPath_eq]
    refine ⟨?_, ?_⟩
    · intro hrelationship
      exact exists_paths_of_route h hkeys (mem_routes_iff.2 ⟨hf, hrelationship, htarget⟩)
    · intro hrelationship
      refine ⟨?_, ?_⟩
      · apply get?_paths_eq_none h hnames hslash hkeys hf hrelationship
        exact mem_relationshipKeys.2 (.inl rfl)
      · apply get?_paths_eq_none h hnames hslash hkeys hf hrelationship
        exact mem_relationshipKeys.2 (.inr rfl)

end Routing

/-- The posts of a user are described as a relationship to many, and can be added to. -/
theorem Blog.posts_described : ∃ schemas items read linkage,
    generator.model.entitySchemas .flag user = .ok schemas ∧
    generator.routing.paths user = .ok items ∧ (user.name, read) ∈ schemas ∧
    relationshipIn? read "posts" = some (ref "_toManyRelationshipWithLinks") ∧
    Assoc.get? items "/user/\x7bid\x7d/relationships/posts" = some linkage ∧
    .post ∈ linkage.map Prod.fst ∧ attributeIn? read "posts" = none := by
  obtain ⟨-, -, hfields⟩ := Routing.relationships_agree generator.routing .flag (e := user)
    (by decide) (by decide)
  obtain ⟨schemas, hschemas⟩ : ∃ schemas,
    generator.model.entitySchemas .flag user = .ok schemas := ⟨_, rfl⟩
  obtain ⟨items, hitems⟩ : ∃ items, generator.routing.paths user = .ok items := ⟨_, rfl⟩
  obtain ⟨hdescribed, hattribute, hpaths⟩ :=
    hfields { name := "posts", typeName := "Post", array := true } (by decide) (by decide)
  obtain ⟨read, create, update, single, list, data, rfl, hread, hrelationship, -⟩ :=
    hdescribed schemas hschemas
  obtain ⟨related, linkage, -, -, hlinkage, hpost⟩ := (hpaths post rfl items hitems).1 rfl
  exact ⟨_, items, read, linkage, hschemas, hitems, List.mem_cons_self, hrelationship, hlinkage,
    hpost.2 rfl, hattribute .read read hread rfl⟩

end ResourceApi
