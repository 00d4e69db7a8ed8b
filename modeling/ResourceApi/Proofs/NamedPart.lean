import ResourceApi.Proofs.Dialect
import ResourceApi.Proofs.LowerCase
import ResourceApi.Proofs.OperationId

/-!
# Named parts of a document

A document names its parameters, tags and security schemes in one place, and its operations and
requirements go by these names in others.

**Citations** (`citesOnly_paths`). Whatever stands under `$ref` in the paths, at any depth, is the
path of a named schema or of a shared parameter.

**Parameters of an operation** (`exists_filters_of_parameters`). They are the shared ones of its
endpoint, each once, and filters, which are written in place. An endpoint of one item has the
parameter `id`, and only its path has the template of an item, unless a name brings one in.

**Main result** (`named_parts_resolved`).
-/

namespace ResourceApi

open Schema Json

/-! ## Citations -/

namespace Json

/-- Some object in the value has the path under `$ref`. -/
def Cites (v : Json) (path : Text) : Prop :=
  ∃ ms, (obj ms).Occurs v ∧ (("$ref" : Text), str path) ∈ ms

/-- All that the value cites are paths of a kind. -/
def CitesOnly (P : Text → Prop) (v : Json) : Prop := ∀ path, v.Cites path → P path

/-- The same of a member, itself and inside. -/
def MemberCitesOnly (P : Text → Prop) (p : Text × Json) : Prop :=
  (p.1 = "$ref" → ∀ path, p.2 = str path → P path) ∧ p.2.CitesOnly P

variable {P : Text → Prop} {v : Json} {k : Text} {ms ns : List (Text × Json)}

@[simp] theorem citesOnly_str (s : Text) : (str s).CitesOnly P := by
  intro path hcites
  obtain ⟨ms, hms, -⟩ := hcites
  cases hms

@[simp] theorem citesOnly_bool (b : Bool) : (bool b).CitesOnly P := by
  intro path hcites
  obtain ⟨ms, hms, -⟩ := hcites
  cases hms

@[simp] theorem citesOnly_arr {xs : List Json} :
    (arr xs).CitesOnly P ↔ ∀ v ∈ xs, v.CitesOnly P := by
  constructor
  · intro h v hv path hcites
    obtain ⟨ms, hms, hpath⟩ := hcites
    exact h path ⟨ms, .item hv hms, hpath⟩
  · intro h path hcites
    obtain ⟨ms, hms, hpath⟩ := hcites
    cases hms with
    | item hv hms => exact h _ hv path ⟨ms, hms, hpath⟩

/-- **An object cites what its members cite.** -/
theorem citesOnly_obj : (obj ms).CitesOnly P ↔ ∀ p ∈ ms, MemberCitesOnly P p := by
  constructor
  · intro h p hp
    refine ⟨fun hkey path hvalue => ?_, fun path hcites => ?_⟩
    · obtain ⟨k, v⟩ := p
      cases hkey
      cases hvalue
      exact h path ⟨ms, .here, hp⟩
    · obtain ⟨ns, hns, hpath⟩ := hcites
      exact h path ⟨ns, .member hp hns, hpath⟩
  · intro h path hcites
    obtain ⟨ns, hns, hpath⟩ := hcites
    cases hns with
    | here => exact (h _ hpath).1 rfl path rfl
    | member hp hns => exact (h _ hp).2 path ⟨ns, hns, hpath⟩

@[simp] theorem citesOnly_obj_nil : (obj []).CitesOnly P := citesOnly_obj.2 nofun

@[simp] theorem citesOnly_obj_cons {p : Text × Json} :
    (obj (p :: ms)).CitesOnly P ↔ MemberCitesOnly P p ∧ (obj ms).CitesOnly P := by
  rw [citesOnly_obj, citesOnly_obj, List.forall_mem_cons]

@[simp] theorem citesOnly_obj_append :
    (obj (ms ++ ns)).CitesOnly P ↔ (obj ms).CitesOnly P ∧ (obj ns).CitesOnly P := by
  rw [citesOnly_obj, citesOnly_obj, citesOnly_obj, List.forall_mem_append]

@[simp] theorem citesOnly_obj_memberIf {v? : Option Json} :
    (obj (memberIf k v?)).CitesOnly P ↔ ∀ v, v? = some v → MemberCitesOnly P (k, v) := by
  cases v? <;> simp [memberIf]

@[simp] theorem memberCitesOnly_of_key {k : String} (hk : k ≠ "$ref") :
    MemberCitesOnly P (k, v) ↔ v.CitesOnly P :=
  and_iff_right fun h => absurd (Text.ofString_inj.1 h) hk

/-- Objects cite what is in them, whatever their keys are. -/
theorem citesOnly_of_objects (h : ∀ p ∈ ms, IsObject p.2 ∧ p.2.CitesOnly P) :
    (obj ms).CitesOnly P := by
  refine citesOnly_obj.2 fun p hp => ⟨fun _ path hpath => ?_, (h p hp).2⟩
  have hobject := (h p hp).1
  rw [hpath] at hobject
  cases hobject

theorem citesOnly_reference {path : Text} (h : P path) :
    (obj [(("$ref" : Text), str path)]).CitesOnly P := by
  simp only [citesOnly_obj_cons, citesOnly_obj_nil, and_true]
  refine ⟨fun _ path' heq => ?_, citesOnly_str path⟩
  cases heq
  exact h

end Json

/-- The paths of the parts that are referred to: named schemas and shared parameters. -/
def NamesPart (path : Text) : Prop :=
  (∃ n, path = schemaPath ++ n) ∨ ∃ p : SharedParameter, path = parameterPath ++ p.key

@[simp] theorem citesOnly_ref (name : Text) : (ref name).CitesOnly NamesPart :=
  citesOnly_reference (.inl ⟨name, rfl⟩)

@[simp] theorem citesOnly_arrayIf {P : Text → Prop} {array : Bool} {s : Json} :
    (arrayIf array s).CitesOnly P ↔ s.CitesOnly P := by
  cases array <;> simp [arrayIf, arrayOf]

theorem citesOnly_primitive (p : Primitive) : p.schema.CitesOnly NamesPart := by
  cases p <;> simp [Primitive.schema, typed, formatted, oneOf]

namespace Model

variable {m : Model} {s : Json}

theorem citesOnly_filterValueSchema {owner : Text} {f : Field}
    (h : m.filterValueSchema owner f = .ok s) : s.CitesOnly NamesPart := by
  unfold filterValueSchema at h
  split at h
  · cases h
    simp [formatted]
  · next p _ _ =>
    cases h
    exact citesOnly_primitive p
  · obtain ⟨d, -, rfl⟩ := map_eq_ok_iff.1 h
    cases d <;> simp [formatted, typed]

theorem citesOnly_filters {e : Entity} {filters : List FilterParameter}
    (h : m.filters e = .ok filters) {p : FilterParameter} (hp : p ∈ filters) :
    p.schema.CitesOnly NamesPart := by
  obtain ⟨f, value, op, hvalue, rfl⟩ := exists_field_of_mem_filters h hp
  have hschema := citesOnly_filterValueSchema hvalue
  cases op <;> simp [filterParameter, filterSchema, typed, arrayOf, hschema]

end Model

theorem citesOnly_content (name : Text) : (content name).CitesOnly NamesPart := by
  refine citesOnly_of_objects fun p hp => ?_
  rw [List.mem_singleton] at hp
  rw [hp]
  exact ⟨trivial, by simp⟩

theorem citesOnly_response (r : Response) : r.toJson.CitesOnly NamesPart := by
  unfold Response.toJson
  split
  · simp
  · split_ifs <;> simp [citesOnly_content]

/-- An operation cites named parts when its filters do. -/
theorem citesOnly_operation {o : Operation}
    (h : ∀ ps, o.parameters = some ps → ∀ p, .filter p ∈ ps → p.schema.CitesOnly NamesPart) :
    o.toJson.CitesOnly NamesPart := by
  have hparameters : ∀ ps, o.parameters = some ps → ∀ p ∈ ps, p.toJson.CitesOnly NamesPart := by
    intro ps hps p hp
    cases p with
    | shared p => exact citesOnly_reference (.inr ⟨p, rfl⟩)
    | filter p => simp [Parameter.toJson, FilterParameter.toJson, h ps hps p hp]
  have hresponses : (obj (o.responses.map fun r => (r.1, r.2.toJson))).CitesOnly NamesPart := by
    refine citesOnly_of_objects fun p hp => ?_
    obtain ⟨r, -, rfl⟩ := List.mem_map.1 hp
    exact ⟨trivial, citesOnly_response r.2⟩
  simpa [Operation.toJson, member, requestBody, citesOnly_content, hresponses] using hparameters

/-! ## Parameters of an operation -/

namespace Json

/-- The items of the list under a key; none if there is no list. -/
def itemsAt (v : Json) (key : Text) : List Json := ((v.get? key).bind items?).getD []

/-- The names of the members of an object. -/
def names (v : Json) : List Text := Assoc.keys (v.members?.getD [])

end Json

theorem SharedParameter.key_injective : Function.Injective SharedParameter.key := by
  intro p q h
  cases p <;> cases q <;> simp [key, Text.ofString_inj] at h ⊢

theorem parameterRef_inj {n n' : Text} : parameterRef n = parameterRef n' ↔ n = n' := by
  simp [parameterRef, Text.append_right_inj]

theorem FilterParameter.toJson_ne_parameterRef (p : FilterParameter) (n : Text) :
    p.toJson ≠ parameterRef n := by
  simp [toJson, parameterRef]

theorem Operation.itemsAt_parameters (o : Operation) :
    o.toJson.itemsAt "parameters" = (o.parameters.getD []).map Parameter.toJson := by
  cases hparameters : o.parameters <;>
    simp [toJson, itemsAt, items?, hparameters, Text.ofString_inj]

theorem Operation.itemsAt_tags (o : Operation) : o.toJson.itemsAt "tags" = [.str o.tag] := by
  simp [toJson, itemsAt, items?, Text.ofString_inj]

namespace Endpoint

variable (r : Routing) (e : Entity) (rules : Openness) (filters : List FilterParameter)

/-- The shared parameters of a collection. -/
def paging : List SharedParameter := [.sort, .pageOffset, .pageLimit]

/-- The shared parameters of an endpoint. -/
def shared : Endpoint → List SharedParameter
  | .list => .include :: paging
  | .create => []
  | .fetch => [.id, .include]
  | .related f _ => .id :: .include :: if f.array then paging else []
  | .linkage f _ => .id :: if f.array then paging else []
  | .update _ | .delete | .relink .. | .link .. => [.id]

theorem nodup_shared (x : Endpoint) : x.shared.Nodup := by
  cases x with
  | related f | linkage f => cases hf : f.array <;> simp [shared, paging, hf]
  | _ => simp [shared, paging]

/-- **The parameters of an operation** are the shared ones of its endpoint, and filters. -/
theorem exists_filters_of_parameters (x : Endpoint) : ∃ own : List FilterParameter,
    own.Sublist filters ∧ (x.operation r e rules filters).parameters.getD [] =
      x.shared.map .shared ++ own.map .filter := by
  have htarget (f : Field) : ∃ own : List FilterParameter, own.Sublist filters ∧
      Routing.targetParameters f filters =
        (if f.array then paging else []).map .shared ++ own.map .filter := by
    unfold Routing.targetParameters
    split_ifs
    · exact ⟨filters, .refl _, rfl⟩
    · exact ⟨[], filters.nil_sublist, rfl⟩
  cases x with
  | list => exact ⟨filters, .refl _, rfl⟩
  | related f target | linkage f target =>
    obtain ⟨own, hsub, hown⟩ := htarget f
    refine ⟨own, hsub, ?_⟩
    simp [operation, Routing.fetchRelated, Routing.fetchRelationship, shared, hown]
  | _ => exact ⟨[], filters.nil_sublist, rfl⟩

theorem itemsAt_parameters (x : Endpoint) : ∃ own : List FilterParameter,
    own.Sublist filters ∧ (x.operation r e rules filters).toJson.itemsAt "parameters" =
      (x.shared.map fun p => parameterRef p.key) ++ own.map FilterParameter.toJson := by
  obtain ⟨own, hsub, hown⟩ := x.exists_filters_of_parameters r e rules filters
  refine ⟨own, hsub, ?_⟩
  rw [Operation.itemsAt_parameters, hown, List.map_append, List.map_map, List.map_map]
  rfl

/-- A shared parameter is listed exactly by the endpoints that have it. -/
theorem parameterRef_mem_iff (x : Endpoint) (p : SharedParameter) :
    parameterRef p.key ∈ (x.operation r e rules filters).toJson.itemsAt "parameters" ↔
      p ∈ x.shared := by
  obtain ⟨own, -, hown⟩ := x.itemsAt_parameters r e rules filters
  rw [hown, List.mem_append, List.mem_map, List.mem_map]
  constructor
  · intro hcases
    rcases hcases with ⟨q, hq, href⟩ | ⟨filter, -, href⟩
    · rwa [← SharedParameter.key_injective (parameterRef_inj.1 href)]
    · exact absurd href (filter.toJson_ne_parameterRef _)
  · intro hp
    exact .inl ⟨p, hp, rfl⟩

/-- **No parameter is listed twice.** -/
theorem pairwise_parameters (x : Endpoint) (n : Text) :
    ((x.operation r e rules filters).toJson.itemsAt "parameters").Pairwise fun v w =>
      v = parameterRef n → w ≠ parameterRef n := by
  obtain ⟨own, -, hown⟩ := x.itemsAt_parameters r e rules filters
  have hfilter : ∀ v ∈ own.map FilterParameter.toJson, v ≠ parameterRef n := by
    intro v hv
    obtain ⟨p, -, rfl⟩ := List.mem_map.1 hv
    exact p.toJson_ne_parameterRef n
  rw [hown, List.pairwise_append]
  refine ⟨?_, ?_, fun v _ w hw _ => hfilter w hw⟩
  · rw [List.pairwise_map]
    refine x.nodup_shared.imp fun {p q} hne hp hq => hne ?_
    exact SharedParameter.key_injective ((parameterRef_inj.1 hp).trans (parameterRef_inj.1 hq).symm)
  · exact List.pairwise_of_forall_mem_list fun v hv w _ h => absurd h (hfilter v hv)

end Endpoint

/-! ## The parameter of an item -/

/-- The text stands somewhere in the other. -/
def Text.Contains (t s : Text) : Prop := s.points <:+: t.points

/-- The text holds a brace that opens a template. -/
def Text.Braced (t : Text) : Prop := .char '\x7b' ∈ t.points

/-- What stands for the id in the path of an item. -/
def idTemplate : Text := "\x7bid\x7d"

theorem Text.Contains.braced {t : Text} (h : t.Contains idTemplate) : t.Braced :=
  h.subset (by simp [idTemplate])

/-- The path of an entity's collection is made from a text with such a brace: the prefix or the
name that the entity goes by. -/
def Routing.Braced (r : Routing) (e : Entity) : Prop :=
  r.pathPrefix.Braced ∨ (r.mappedName e).Braced

theorem Text.uncased_brace : Uncased '\x7b' := by
  unfold Uncased
  decide +kernel

theorem Routing.braced_of_base {r : Routing} {e : Entity} (h : (r.base e).Braced) : r.Braced e := by
  simp only [Text.Braced, base, Text.points_append, List.mem_append] at h
  rcases h with (h | h) | h
  · exact .inl h
  · simp at h
  · exact .inr (Text.mem_of_mem_lowerFirst Text.uncased_brace h)

namespace Endpoint

/-- **An endpoint has the parameter `id` when its path has the template**, unless a name brings
the template in. -/
theorem id_mem_shared_iff {r : Routing} {e : Entity} (hbase : ¬ (r.base e).Braced) (x : Endpoint) :
    .id ∈ x.shared ↔ (x.path r e).Contains idTemplate := by
  have hitem (rest : Text) : (Routing.itemPath (r.base e) ++ rest).Contains idTemplate :=
    ⟨(r.base e).points ++ [.char '/'], rest.points, by
      simp [Routing.itemPath, idTemplate]⟩
  cases x with
  | list | create =>
    refine iff_of_false (by simp [shared, paging]) fun h => hbase h.braced
  | fetch | update m | delete =>
    refine iff_of_true (by simp [shared]) ?_
    simpa [path, Text.append_empty] using hitem ""
  | related f | linkage f | relink f | link f =>
    refine iff_of_true (by simp [shared]) ?_
    simpa [path, Routing.relatedPath, Routing.relationshipPath, Text.append_assoc] using hitem _

end Endpoint

/-! ## Documents -/

namespace Document

/-- The names of the components of a kind that a document has. -/
def namesOf (d : Document) (kind : Text) : List Text :=
  ((d.toJson.get? "components").bind (·.get? kind)).elim [] names

theorem namesOf_parameters (d : Document) :
    d.namesOf "parameters" = SharedParameter.all.map SharedParameter.key := by
  simp [namesOf, toJson, members, components, Text.ofString_inj]
  rfl

/-- **The requirements name the schemes**, all of them and in order. -/
theorem flatMap_names_security (d : Document) :
    (d.toJson.itemsAt "security").flatMap names = d.namesOf "securitySchemes" := by
  have hdefined : d.namesOf "securitySchemes" = Assoc.keys (d.securitySchemes.getD []) := by
    cases hschemes : d.securitySchemes <;>
      simp [namesOf, toJson, members, components, names, members?, hschemes, Assoc.keys_mapValues,
        Text.ofString_inj]
  have hrequired : d.toJson.itemsAt "security" =
      (d.securitySchemes.getD []).map fun s => .obj [(s.1, .arr [])] := by
    have hget : d.toJson.get? "security" = d.requirements := by
      simp [toJson, members, Text.ofString_inj]
    rw [itemsAt, hget, requirements]
    rcases d.securitySchemes with _ | _ | ⟨s, schemes⟩ <;> rfl
  rw [hdefined, hrequired, List.flatMap_map, Assoc.keys, List.map_eq_flatMap]
  rfl

theorem itemsAt_tags (d : Document) : d.toJson.itemsAt "tags" = d.tags.map Tag.toJson := by
  simp [toJson, members, itemsAt, items?, Text.ofString_inj]

end Document

theorem Routing.citesOnly_of_serves {r : Routing} {e : Entity} {x : Endpoint} {path : Text}
    {m : Method} {o : Operation} (h : x.Serves r e path m o) :
    o.toJson.CitesOnly NamesPart := by
  refine citesOnly_operation fun ps hps p hp => ?_
  obtain ⟨e', filters, he', hp⟩ := h.exists_filters hps hp
  exact Model.citesOnly_filters he' hp

namespace Generator

variable {g : Generator} {d : Document}

/-- **Paths cite named schemas and shared parameters.** -/
theorem citesOnly_paths (h : g.document = .ok d) : (pathsJson d.paths).CitesOnly NamesPart := by
  refine citesOnly_of_objects fun p hp => ?_
  obtain ⟨item, hitem, hjson⟩ := Assoc.mem_mapValues.1 hp
  rw [← hjson]
  refine ⟨trivial, citesOnly_of_objects fun q hq => ?_⟩
  obtain ⟨o, ho, rfl⟩ := List.mem_map.1 hq
  obtain ⟨e, -, x, -, hserves⟩ := exists_serves_of_document h hitem ho
  exact ⟨trivial, Routing.citesOnly_of_serves hserves⟩

theorem tags_of_document (h : g.document = .ok d) : d.tags = g.covered.map tagOf := by
  obtain ⟨schemes, schemas, paths, -, -, -, rfl⟩ := document_eq_ok_iff.1 h
  rfl

/-- **Named parts that are referred to are there.** Every parameter that the paths refer to, at any
depth, is one of the document's, and no operation lists one twice. Every tag of an operation is the
name of one of the document's. The requirements of the document name its security schemes, all of
them. And where no brace comes in with the prefix or with a name, an operation lists the parameter
`id` exactly when its path has the template for it. -/
theorem named_parts_resolved (h : g.document = .ok d) :
    (∀ n, (pathsJson d.paths).Cites (parameterPath ++ n) → n ∈ d.namesOf "parameters") ∧
    (∀ a ∈ d.operations, ∀ n, (a.2.toJson.itemsAt "parameters").Pairwise fun v w =>
      v = parameterRef n → w ≠ parameterRef n) ∧
    (∀ a ∈ d.operations, ∀ v ∈ a.2.toJson.itemsAt "tags",
      ∃ tag ∈ d.toJson.itemsAt "tags", tag.get? "name" = some v) ∧
    (d.toJson.itemsAt "security").flatMap names = d.namesOf "securitySchemes" ∧
    ((∀ e ∈ g.covered, ¬ g.routing.Braced e) → ∀ a ∈ d.operations,
      (parameterRef "id" ∈ a.2.toJson.itemsAt "parameters" ↔ a.1.1.Contains idTemplate)) := by
  refine ⟨fun n hn => ?_, fun a ha n => ?_, fun a ha v hv => ?_, d.flatMap_names_security,
    fun hbraced a ha => ?_⟩
  · rcases citesOnly_paths h _ hn with ⟨s, hs⟩ | ⟨p, hp⟩
    · exact absurd hs (parameterPath_append_ne n s)
    · rw [Text.append_right_inj.1 hp, Document.namesOf_parameters]
      exact List.mem_map_of_mem (by cases p <;> decide)
  · obtain ⟨e, -, x, -, -, -, rules, filters, -, -, hbuilt⟩ := exists_serves_of_mem_operations h ha
    rw [hbuilt]
    exact x.pairwise_parameters _ _ _ _ n
  · obtain ⟨e, he, x, -, -, -, rules, filters, -, -, hbuilt⟩ := exists_serves_of_mem_operations h ha
    rw [hbuilt, Operation.itemsAt_tags, List.mem_singleton, Endpoint.operation_tag] at hv
    rw [Document.itemsAt_tags, tags_of_document h, hv]
    exact ⟨(tagOf e).toJson, List.mem_map_of_mem (List.mem_map_of_mem he), rfl⟩
  · obtain ⟨e, he, x, -, hpath, -, rules, filters, -, -, hbuilt⟩ :=
      exists_serves_of_mem_operations h ha
    rw [hbuilt, hpath]
    exact (x.parameterRef_mem_iff _ _ _ _ .id).trans
      (x.id_mem_shared_iff fun h => hbraced e he (Routing.braced_of_base h))

end Generator

/-- No name of the blog holds a brace. -/
theorem Blog.id_listed_of_items : ∃ d, generator.document = .ok d ∧ ∀ a ∈ d.operations,
    (parameterRef "id" ∈ a.2.toJson.itemsAt "parameters" ↔ a.1.1.Contains idTemplate) := by
  obtain ⟨d, hd⟩ : ∃ d, generator.document = .ok d := ⟨_, rfl⟩
  obtain ⟨-, -, -, -, hid⟩ := Generator.named_parts_resolved hd
  refine ⟨d, hd, hid ?_⟩
  unfold Routing.Braced Text.Braced
  decide

end ResourceApi
