import ResourceApi.Proofs.ResolvedReference
import ResourceApi.Proofs.SchemeKind
import Mathlib.Data.Set.List

/-!
# Tidy values

A document is a value of a simple kind: texts and truth values in lists and objects, where no object
has a key twice and nothing lies deeper than a fixed number of levels. There is no null in it, and
no number. Values of this kind are *tidy*; what is said of texts written and read back is said of
them.

**Objects** (`Within.tidy`). An object some of whose members may be left out is tidy when its keys
are among distinct ones, in order, and its values are tidy.

**Security schemes** (`SecurityScheme.Sound.tidy`). What a document holds as it was given is tidy
too: the scopes of a scheme are a map that was read key by key.

**Main result** (`Generator.tidy_document`). Every document is tidy, and nothing lies deeper in it
than fifteen levels.
-/

namespace ResourceApi

open Schema Json

/-- Is the text free of halves of pairs? -/
def Text.isWhole (t : Text) : Bool := t.chars?.isSome

theorem Text.isWhole_iff {t : Text} : t.isWhole = true ↔ ∃ cs, Text.ofChars cs = t := by
  simp only [isWhole, Option.isSome_iff_exists, chars?_eq_some_iff]

/-- Is the text one of ASCII characters? -/
def Text.isAscii (t : Text) : Bool := t.points.all fun p => p.code < 128

/-- A text of ASCII characters that is no longer than most keys are. -/
def Text.isShortAscii (t : Text) : Bool := decide (t.points.length ≤ 100) && t.isAscii

theorem Text.isAscii_of_isShortAscii {t : Text} (h : t.isShortAscii = true) : t.isAscii = true :=
  (Bool.and_eq_true_iff.1 h).2

theorem Text.isWhole_of_isAscii {t : Text} (h : t.isAscii = true) : t.isWhole = true := by
  have hchar : ∀ p ∈ t.points, ∃ c, CodePoint.char c = p := by
    intro p hp
    have hcode : p.code < 128 := of_decide_eq_true (List.all_eq_true.1 h p hp)
    cases p with
    | char c => exact ⟨c, rfl⟩
    | half n =>
      replace hcode : 0xD800 + n.val < 128 := hcode
      omega
  obtain ⟨cs, hcs⟩ : t.points ∈ Set.range (List.map CodePoint.char) := by
    rw [Set.range_list_map]
    exact hchar
  exact isWhole_iff.2 ⟨cs, congrArg Text.mk hcs⟩

/-- Texts and truth values in lists and objects with distinct keys, at most so many levels deep. -/
inductive Json.Tidy : Nat → Json → Prop
  | text {n : Nat} (s : Text) : Tidy n (.str s)
  | bool {n : Nat} (b : Bool) : Tidy n (.bool b)
  | list {n : Nat} {xs : List Json} : (∀ v ∈ xs, Tidy n v) → Tidy (n + 1) (.arr xs)
  | object {n : Nat} {ms : List (Text × Json)} : (Assoc.keys ms).Nodup →
      (∀ p ∈ ms, Tidy n p.2) → Tidy (n + 1) (.obj ms)

namespace Json

variable {n : Nat} {v : Json} {ms : List (Text × Json)}

attribute [simp] Tidy.text Tidy.bool

@[simp] theorem tidy_arr {xs : List Json} :
    Tidy (n + 1) (.arr xs) ↔ ∀ v ∈ xs, Tidy n v := by
  refine ⟨fun h => ?_, .list⟩
  cases h with
  | list hitems => exact hitems

@[simp] theorem tidy_obj :
    Tidy (n + 1) (.obj ms) ↔ (Assoc.keys ms).Nodup ∧ ∀ p ∈ ms, Tidy n p.2 := by
  refine ⟨fun h => ?_, fun h => .object h.1 h.2⟩
  cases h with
  | object hkeys hvalues => exact ⟨hkeys, hvalues⟩

theorem Tidy.mono (h : Tidy n v) {deeper : Nat} (hle : n ≤ deeper) : Tidy deeper v := by
  induction h generalizing deeper with
  | text s => exact .text s
  | bool b => exact .bool b
  | @list n xs _ ih =>
    obtain ⟨deeper, rfl⟩ : ∃ d, deeper = d + 1 := ⟨deeper - 1, by omega⟩
    exact .list fun v hv => ih v hv (by omega)
  | @object n ms hkeys _ ih =>
    obtain ⟨deeper, rfl⟩ : ∃ d, deeper = d + 1 := ⟨deeper - 1, by omega⟩
    exact .object hkeys fun p hp => ih p hp (by omega)

/-! ## Keys and texts -/

mutual

/-- Do all keys pass a test, and all texts another one, at any depth? -/
def every (key text : Text → Bool) : Json → Bool
  | .str s => text s
  | .arr xs => everyItem key text xs
  | .obj ms => everyMember key text ms
  | _ => true

def everyItem (key text : Text → Bool) : List Json → Bool
  | [] => true
  | x :: xs => every key text x && everyItem key text xs

def everyMember (key text : Text → Bool) : List (Text × Json) → Bool
  | [] => true
  | (k, x) :: ms => key k && every key text x && everyMember key text ms

end

section

variable {key text : Text → Bool}

@[simp] theorem every_str {s : Text} : every key text (.str s) = text s := rfl

@[simp] theorem every_bool {b : Bool} : every key text (.bool b) = true := rfl

@[simp] theorem every_arr {xs : List Json} :
    every key text (.arr xs) = true ↔ ∀ x ∈ xs, every key text x = true := by
  show everyItem key text xs = true ↔ _
  induction xs with
  | nil => simp [everyItem]
  | cons x xs ih => simp [everyItem, ih]

@[simp] theorem every_obj :
    every key text (.obj ms) = true ↔ ∀ p ∈ ms, key p.1 = true ∧ every key text p.2 = true := by
  show everyMember key text ms = true ↔ _
  induction ms with
  | nil => simp [everyMember]
  | cons p ms ih => simp [everyMember, ih]

/-- Weaker tests are passed where stronger ones are. -/
theorem Tidy.every_mono {key' text' : Text → Bool} (h : Tidy n v)
    (hkey : ∀ k, key k = true → key' k = true) (htext : ∀ t, text t = true → text' t = true)
    (hv : every key text v = true) : every key' text' v = true := by
  induction h with
  | text s => exact htext s hv
  | bool b => rfl
  | list _ ih => exact every_arr.2 fun x hx => ih x hx (every_arr.1 hv x hx)
  | object _ _ ih =>
    refine every_obj.2 fun p hp => ?_
    obtain ⟨hk, hx⟩ := every_obj.1 hv p hp
    exact ⟨hkey _ hk, ih p hp hx⟩

end

/-- A value of ASCII texts is one of whole texts. -/
theorem Tidy.every_isWhole (h : Tidy n v) (hv : v.every Text.isShortAscii Text.isAscii = true) :
    v.every Text.isWhole Text.isWhole = true :=
  h.every_mono (fun _ hk => Text.isWhole_of_isAscii (Text.isAscii_of_isShortAscii hk))
    (fun _ => Text.isWhole_of_isAscii) hv

/-! ## Members that may be left out -/

/-- The keys are some of the names, in order, and the values are tidy. -/
structure Within (names : List Text) (n : Nat) (ms : List (Text × Json)) : Prop where
  keys : (Assoc.keys ms).Sublist names
  values : ∀ p ∈ ms, Tidy n p.2

theorem Within.tidy {names : List Text} (h : Within names n ms) (hnames : names.Nodup) :
    Tidy (n + 1) (.obj ms) :=
  .object (hnames.sublist h.keys) h.values

theorem Within.append {names names' : List Text} {ns : List (Text × Json)}
    (h : Within names n ms) (h' : Within names' n ns) :
    Within (names ++ names') n (ms ++ ns) where
  keys := by
    rw [Assoc.keys_append]
    exact h.keys.append h'.keys
  values := List.forall_mem_append.2 ⟨h.values, h'.values⟩

theorem Within.member (key : Text) (h : Tidy n v) : Within [key] n (member key v) where
  keys := .refl _
  values := by simpa [Json.member] using h

theorem Within.memberIf (key : Text) {v? : Option Json} (h : ∀ v, v? = some v → Tidy n v) :
    Within [key] n (memberIf key v?) := by
  cases v? with
  | none => exact ⟨List.nil_sublist _, nofun⟩
  | some v => exact .member key (h v rfl)

theorem Within.optionalText (key : Text) (s : Option Text) :
    Within [key] n (optionalText key s) := by
  refine .memberIf key fun v hv => ?_
  obtain ⟨t, -, rfl⟩ := Option.map_eq_some_iff.1 hv
  exact .text t

/-- An object with some of the members, in order and under their outer names. Its values are
tidy. -/
def Presents (names : List Checked.Name) (n : Nat) (v : Json) : Prop :=
  ∃ ms, v = .obj ms ∧ Within (names.map Checked.Name.outer) n ms

theorem Presents.tidy {names : List Checked.Name} (h : Presents names n v)
    (hnames : (names.map Checked.Name.outer).Nodup) : Tidy (n + 1) v := by
  obtain ⟨ms, rfl, hms⟩ := h
  exact hms.tidy hnames

end Json

/-! ## Fragments -/

namespace Schema

variable {n : Nat} {style : NullStyle} {s : Json}

@[simp] theorem tidy_ref (name : Text) : Tidy (n + 1) (ref name) := by simp [ref]

@[simp] theorem tidy_parameterRef (name : Text) : Tidy (n + 1) (parameterRef name) := by
  simp [parameterRef]

@[simp] theorem tidy_typed (t : Text) : Tidy (n + 1) (typed t) := by simp [typed]

@[simp] theorem tidy_described (t d : Text) : Tidy (n + 1) (described t d) := by
  simp [described, Text.ofString_inj]

@[simp] theorem tidy_formatted (t format : Text) : Tidy (n + 1) (formatted t format) := by
  simp [formatted, Text.ofString_inj]

@[simp] theorem tidy_texts (xs : List Text) : Tidy (n + 1) (texts xs) := by simp [texts]

@[simp] theorem tidy_allOf {schemas : List Json} :
    Tidy (n + 2) (allOf schemas) ↔ ∀ s ∈ schemas, Tidy n s := by
  simp [allOf]

@[simp] theorem tidy_oneOf {schemas : List Json} :
    Tidy (n + 2) (oneOf schemas) ↔ ∀ s ∈ schemas, Tidy n s := by
  simp [oneOf]

@[simp] theorem tidy_arrayOf : Tidy (n + 1) (arrayOf s) ↔ Tidy n s := by
  simp [arrayOf, Text.ofString_inj]

theorem tidy_arrayIf {array : Bool} (h : Tidy n s) : Tidy (n + 1) (arrayIf array s) := by
  cases array with
  | true => exact tidy_arrayOf.2 h
  | false => exact h.mono (Nat.le_succ _)

/-- The map of pairs with tidy values is tidy. -/
theorem tidy_ofList {ms : List (Text × Json)} (h : ∀ p ∈ ms, Tidy n p.2) :
    Tidy (n + 1) (.obj (Assoc.ofList ms)) :=
  .object (Assoc.nodup_keys_ofList ms) fun p hp => h p (Assoc.mem_of_mem_ofList hp)

/-- Admitting null makes a schema at most two levels deeper. -/
theorem tidy_nullable (h : Tidy (n + 1) s) : Tidy (n + 3) (nullable style s) := by
  cases style with
  | asType => simp [nullable, h]
  | flag =>
    unfold nullable
    simp only
    split_ifs
    · simp [h, Text.ofString_inj]
    · cases h with
      | @object _ ms hkeys hvalues =>
        refine .object (Assoc.nodup_keys_insert hkeys _ _) fun p hp => ?_
        rcases Assoc.mem_of_mem_insert hp with rfl | hp
        · exact .bool true
        · exact (hvalues p hp).mono (by omega)
      | list hitems => exact (Tidy.list hitems).mono (by omega)
      | _ => simp [flagged]

theorem tidy_nullableIf (h : Tidy (n + 1) s) (optional : Bool) :
    Tidy (n + 3) (nullableIf optional style s) := by
  unfold nullableIf
  split_ifs
  · exact tidy_nullable h
  · exact h.mono (by omega)

theorem tidy_withDescription {d : Text} (h : Tidy (n + 1) s) :
    Tidy (n + 1) (withDescription d s) := by
  cases h with
  | @object _ ms _ hvalues =>
    have htidy : ∀ p ∈ (Text.ofString "description", Json.str d) :: ms, Tidy n p.2 :=
      List.forall_mem_cons.2 ⟨.text d, hvalues⟩
    exact tidy_ofList htidy
  | list hitems => exact .list hitems
  | _ => simp [withDescription]

@[simp] theorem tidy_objectOf {description : Text} {required : List Text}
    {properties : List (Text × Json)} : Tidy (n + 2) (objectOf description required properties) ↔
      Tidy (n + 1) (.obj properties) := by
  simp [objectOf, Text.ofString_inj]

theorem tidy_primitive (p : Primitive) : Tidy (n + 3) p.schema := by
  cases p with
  | bytes => simp [Primitive.schema, Text.ofString_inj]
  | _ => simp [Primitive.schema]

end Schema

/-! ## Schemas -/

theorem tidy_shared {n : Nat} {style : NullStyle} : ∀ p ∈ shared style, Tidy (n + 5) p.2 := by
  have hlink (d : Text) : Tidy (n + 3) (nullable style (described "string" d)) :=
    tidy_nullable (by simp)
  have hdata : Tidy (n + 3) (nullable style (ref "_resourceIdentifier")) :=
    tidy_nullable (by simp)
  have hrequest (d : Text) : Tidy (n + 5) (withDescription d (nullable style (.obj [
      ("type", "object"), ("required", Json.texts ["data"]),
      ("properties", .obj [("data", ref "_resourceIdentifier")])]))) :=
    tidy_withDescription (tidy_nullable (by simp [Text.ofString_inj]))
  have hpaged (d : Text) : Tidy (n + 5) (withDescription d
      (allOf [ref "_pagination", ref "_relationLinks"])) :=
    tidy_withDescription (by simp)
  have hresponse (d data : Text) : Tidy (n + 5) (withDescription d (allOf [ref data, .obj [
      ("type", "object"), ("properties", .obj [("jsonapi", ref "_jsonapi")])]])) :=
    tidy_withDescription (by simp [Text.ofString_inj])
  simp [shared, hlink, hdata, hrequest, hpaged, hresponse, Text.ofString_inj]

theorem tidy_enum {n : Nat} (d : EnumDecl) : Tidy (n + 2) d.schema := by
  simp [EnumDecl.schema, Text.ofString_inj]

namespace Model

variable {m : Model} {n : Nat} {style : NullStyle} {owner : Option Text} {s : Json}

theorem tidy_baseSchema {f : Field} (h : m.baseSchema owner f = .ok s) : Tidy (n + 3) s := by
  rcases baseSchema_cases h with ⟨p, rfl⟩ | ⟨name, -, rfl⟩
  · exact tidy_primitive p
  · exact tidy_ref name

theorem tidy_fieldSchema {f : Field} (h : m.fieldSchema style owner f = .ok s) :
    Tidy (n + 6) s := by
  obtain ⟨base, hbase, rfl⟩ := map_eq_ok_iff.1 h
  exact tidy_arrayIf (tidy_nullableIf (tidy_baseSchema hbase) _)

theorem tidy_properties {fields : List Field} {properties : List (Text × Json)}
    (h : (fields.mapM fun f => (m.fieldSchema style owner f).map (Prod.mk f.name)) =
      .ok properties) : Tidy (n + 7) (.obj (Assoc.ofList properties)) := by
  refine .object (Assoc.nodup_keys_ofList _) fun p hp => ?_
  obtain ⟨f, -, hok⟩ := exists_field_of_mem_properties h hp
  exact tidy_fieldSchema hok

theorem tidy_typeSchema {d : TypeDecl} (h : m.typeSchema style d = .ok s) :
    Tidy (n + 8) s := by
  obtain ⟨properties, hproperties, rfl⟩ := map_eq_ok_iff.1 h
  have hvalues : Tidy (n + 7) (.obj (Assoc.ofList properties)) := tidy_properties hproperties
  refine .object (by simp [Text.ofString_inj]) ?_
  simp [hvalues]

theorem tidy_relationshipSchemas {mode : Mode} {fields : List Field} :
    Tidy (n + 4) (.obj (m.relationshipSchemas style mode fields)) := by
  refine tidy_ofList fun p hp => ?_
  obtain ⟨f, -, rfl⟩ := List.mem_map.1 hp
  exact tidy_nullableIf (tidy_ref _) _

theorem tidy_idSchema {e : Entity} (h : m.idSchema e = .ok s) : Tidy (n + 3) s := by
  unfold idSchema at h
  split at h
  · exact tidy_baseSchema h
  · cases h
    simp

theorem tidy_attributesSchema {required : List Text} {attributes : List (Text × Json)}
    (h : Tidy (n + 1) (.obj (Assoc.ofList attributes))) :
    Tidy (n + 2) (attributesSchema required attributes) := by
  unfold attributesSchema
  split_ifs
  · exact .object (by simp [Text.ofString_inj]) (by simpa using h)
  · exact .object (by simp [Text.ofString_inj]) (by simpa using h)

/-- A resource object is tidy when its parts are. -/
theorem tidy_resourceObject {e : Entity} {mode : Mode} {id attributes : Json}
    {relationships : Assoc Text Json} (hid : Tidy (n + 2) id)
    (hattributes : Tidy (n + 2) attributes) (h : Tidy (n + 1) (.obj relationships)) :
    Tidy (n + 4) (resourceObject e mode id attributes relationships) := by
  have hmember : Within ["relationships"] (n + 2) (relationshipsMember relationships) := by
    unfold relationshipsMember
    split_ifs
    · exact ⟨List.nil_sublist _, nofun⟩
    · exact .member _ (.object (by simp [Text.ofString_inj]) (by simpa using h))
  have hproperties : Within ["id", "type", "attributes", "relationships"] (n + 2)
      (("id", id) :: ("type", typed "string") :: ("attributes", attributes) ::
        relationshipsMember relationships) :=
    (Within.member "id" hid).append ((Within.member "type" (tidy_typed _)).append
      ((Within.member "attributes" hattributes).append hmember))
  have hobject := hproperties.tidy (by simp [Text.ofString_inj])
  exact .object (by simp [Text.ofString_inj]) (by simpa using hobject)

theorem tidy_entitySchema {mode : Mode} {e : Entity} (h : m.entitySchema style mode e = .ok s) :
    Tidy (n + 10) s := by
  obtain ⟨attributes, hattributes, h⟩ := bind_eq_ok_iff.1 h
  obtain ⟨id, hid, h⟩ := bind_eq_ok_iff.1 h
  cases h
  exact tidy_resourceObject (n := n + 6) (tidy_idSchema hid)
    (tidy_attributesSchema (tidy_properties hattributes)) tidy_relationshipSchemas

theorem tidy_resourceData (e : Entity) : Tidy (n + 7) (m.resourceData e) := by
  have hrelationships : Tidy (n + 2) (.obj (Assoc.ofList
      ((e.fields.filter m.isRelationship).map fun f =>
        (f.name, ref (relationship f.array false))))) := by
    refine tidy_ofList fun p hp => ?_
    obtain ⟨f, -, rfl⟩ := List.mem_map.1 hp
    exact tidy_ref _
  have hobject : Tidy (n + 5) (.obj [("type", "object"), ("properties", .obj [
      ("relationships", .obj [("type", "object"), ("properties", .obj (Assoc.ofList
        ((e.fields.filter m.isRelationship).map fun f =>
          (f.name, ref (relationship f.array false)))))])])]) := by
    refine .object (by simp [Text.ofString_inj]) ?_
    simpa [Text.ofString_inj] using hrelationships
  exact tidy_allOf.2 (by simpa using hobject)

@[simp] theorem tidy_envelope {description : Text} {required : List Text}
    {properties : List (Text × Json)} :
    Tidy (n + 2) (envelope description required properties) ↔
      Tidy (n + 1) (.obj properties) := by
  simp [envelope, Text.ofString_inj]

theorem tidy_entitySchemas {e : Entity} {pairs : List (Text × Json)}
    (h : m.entitySchemas style e = .ok pairs) : ∀ p ∈ pairs, Tidy (n + 12) p.2 := by
  obtain ⟨read, hread, h⟩ := bind_eq_ok_iff.1 h
  obtain ⟨create, hcreate, h⟩ := bind_eq_ok_iff.1 h
  obtain ⟨update, hupdate, h⟩ := bind_eq_ok_iff.1 h
  cases h
  have hentity : Tidy (n + 12) read := tidy_entitySchema (n := n + 2) hread
  have hcreation : Tidy (n + 10) create := tidy_entitySchema hcreate
  have hchange : Tidy (n + 10) update := tidy_entitySchema hupdate
  have hdata (k : Nat) : Tidy (n + k + 7) (m.resourceData e) := tidy_resourceData e
  simp [hentity, hcreation, hchange, hdata 2, hdata 3, Text.ofString_inj]

/-- **Every schema is tidy.** -/
theorem tidy_componentSchemas {schemas : Assoc Text Json}
    (h : m.componentSchemas style = .ok schemas) {p : Text × Json} (hp : p ∈ schemas) :
    Tidy (n + 12) p.2 := by
  rcases mem_componentSchemas_cases h hp with
    hp | ⟨d, -, rfl⟩ | ⟨e, -, pairs, hok, hp⟩ | ⟨d, -, hok, -⟩
  · exact tidy_shared p hp
  · exact tidy_enum d
  · exact tidy_entitySchemas hok p hp
  · exact tidy_typeSchema hok

theorem tidy_filterValueSchema {name : Text} {f : Field}
    (h : m.filterValueSchema name f = .ok s) : Tidy (n + 3) s := by
  unfold filterValueSchema at h
  split at h
  · cases h
    simp
  · next p _ _ =>
    cases h
    exact tidy_primitive p
  · obtain ⟨d, -, rfl⟩ := map_eq_ok_iff.1 h
    cases d <;> simp

theorem tidy_filters {e : Entity} {filters : List FilterParameter}
    (h : m.filters e = .ok filters) {p : FilterParameter} (hp : p ∈ filters) :
    Tidy (n + 4) p.schema := by
  obtain ⟨f, value, op, hvalue, rfl⟩ := exists_field_of_mem_filters h hp
  have hschema : Tidy (n + 3) value := tidy_filterValueSchema hvalue
  have hdeeper : Tidy (n + 4) value := hschema.mono (by omega)
  cases op with
  | equal => exact tidy_arrayIf hschema
  | _ => simp [filterParameter, filterSchema, hschema, hdeeper]

end Model

/-! ## Operations -/

section

variable {n : Nat}

theorem tidy_parameter {p : Parameter}
    (h : ∀ filter, p = .filter filter → Tidy (n + 4) filter.schema) :
    Tidy (n + 5) p.toJson := by
  cases p with
  | shared p => exact tidy_parameterRef p.key
  | filter p => simp [Parameter.toJson, FilterParameter.toJson, h p rfl, Text.ofString_inj]

@[simp] theorem tidy_content (name : Text) : Tidy (n + 3) (content name) := by
  simp [content]

theorem tidy_response (r : Response) : Tidy (n + 4) r.toJson := by
  unfold Response.toJson
  split
  · simp
  · split_ifs <;> simp [Text.ofString_inj]

/-- The responses of an operation have distinct codes. -/
theorem Endpoint.nodup_codes {r : Routing} {e : Entity} {rules : Openness}
    {filters : List FilterParameter} (x : Endpoint) :
    ((x.operation r e rules filters).responses.map Prod.fst).Nodup := by
  cases x <;> simp [Endpoint.operation, Routing.list, Routing.create, Routing.fetch,
    Routing.update, Routing.delete, Routing.fetchRelated, Routing.fetchRelationship,
    Routing.updateRelationship, Routing.createRelationship, Text.ofString_inj]

/-- An operation is tidy when its filters are and its responses have distinct codes. -/
theorem tidy_operation {o : Operation} (hcodes : (o.responses.map Prod.fst).Nodup)
    (h : ∀ ps, o.parameters = some ps → ∀ p, .filter p ∈ ps → Tidy (n + 4) p.schema) :
    Tidy (n + 7) o.toJson := by
  have hparameters : ∀ v, (o.parameters.map fun ps => Json.arr (ps.map Parameter.toJson)) =
      some v → Tidy (n + 6) v := by
    intro v hv
    obtain ⟨ps, hps, rfl⟩ := Option.map_eq_some_iff.1 hv
    refine .list (List.forall_mem_map.2 fun p hp => tidy_parameter fun filter heq => ?_)
    exact h ps hps filter (heq ▸ hp)
  have hbody : ∀ v, o.body.map requestBody = some v → Tidy (n + 6) v := by
    intro v hv
    obtain ⟨name, -, rfl⟩ := Option.map_eq_some_iff.1 hv
    simp [requestBody]
  have hresponses : Tidy (n + 6) (.obj (o.responses.map fun r => (r.1, r.2.toJson))) := by
    refine .object ?_ (List.forall_mem_map.2 fun r _ => tidy_response r.2)
    simpa [Assoc.keys, Function.comp_def] using hcodes
  have hopen : ∀ v, (if o.isOpen then some (Json.arr []) else none) = some v →
      Tidy (n + 6) v := by
    intro v hv
    split_ifs at hv
    cases hv
    exact .list (List.forall_mem_nil _)
  have hmembers := ((((((Within.member "operationId" (Tidy.text o.id)).append
    (Within.member "description" (Tidy.text o.description))).append
    (Within.member "tags" (v := .arr [.str o.tag]) (.list (by simp)))).append
    (Within.memberIf "parameters" hparameters)).append
    (Within.memberIf "requestBody" hbody)).append
    (Within.member "responses" hresponses)).append
    (Within.memberIf "security" hopen)
  exact hmembers.tidy (by simp [Text.ofString_inj])

end

/-- The operations of an endpoint are tidy. -/
theorem Routing.tidy_of_serves {r : Routing} {e : Entity} {x : Endpoint} {path : Text}
    {m : Method} {o : Operation} (h : x.Serves r e path m o) {n : Nat} :
    Tidy (n + 7) o.toJson := by
  refine tidy_operation ?_ fun ps hps p hp => ?_
  · obtain ⟨rules, filters, -, -, rfl⟩ := h.built
    exact x.nodup_codes
  · obtain ⟨e', filters, he', hp⟩ := h.exists_filters hps hp
    exact Model.tidy_filters he' hp

/-! ## Security schemes -/

namespace SecurityScheme

open Checked

variable {n : Nat} {v : Data}

theorem tidy_texts {m : Assoc Text Text} (h : (Assoc.keys m).Nodup) :
    Tidy (n + 1) (.obj (Assoc.mapValues Json.str m)) := by
  refine .object (by rwa [Assoc.keys_mapValues]) fun p hp => ?_
  obtain ⟨t, -, hjson⟩ := Assoc.mem_mapValues.1 hp
  exact hjson ▸ .text t

/-- The members of a flow. -/
def flowNames : List Name :=
  [descriptionName, authorizationUrlName, tokenUrlName, refreshUrlName, .plain "scopes"]

/-- The members of the flows of a scheme. -/
def flowsNames : List Name :=
  [descriptionName, authorizationCodeName, .plain "implicit", .plain "password",
    clientCredentialsName]

/-- The members of a scheme. -/
def memberNames : SecurityScheme → List Name
  | .httpBasic _ => [descriptionName, .plain "type", .plain "scheme"]
  | .httpBearer _ _ => [descriptionName, .plain "type", .plain "scheme", bearerFormatName]
  | .apiKey _ _ _ => [descriptionName, .plain "type", locationName, .plain "name"]
  | .oauth2 _ _ => [descriptionName, .plain "type", .plain "flows"]
  | .openIdConnect _ _ => [descriptionName, .plain "type", openIdConnectUrlName]

theorem presents_flow {f : OAuthFlow} (h : (Assoc.keys f.scopes).Nodup) :
    Presents flowNames (n + 1) f.toJson :=
  ⟨_, rfl, ((((Within.optionalText "description" f.description).append
    (.optionalText "authorizationUrl" f.authorizationUrl)).append
    (.optionalText "tokenUrl" f.tokenUrl)).append
    (.optionalText "refreshUrl" f.refreshUrl)).append
    (.member "scopes" (tidy_texts h))⟩

theorem presents_flows {f : OAuthFlows} (h : ∀ flow ∈ f.all, (Assoc.keys flow.scopes).Nodup) :
    Presents flowsNames (n + 2) f.toJson := by
  have hflow {flow? : Option OAuthFlow} (hoffered : ∀ flow, flow? = some flow → flow ∈ f.all) :
      ∀ v, flow?.map OAuthFlow.toJson = some v → Tidy (n + 2) v := by
    intro v hv
    obtain ⟨flow, hflow, rfl⟩ := Option.map_eq_some_iff.1 hv
    exact (presents_flow (h flow (hoffered flow hflow))).tidy (by decide +kernel)
  simp only [OAuthFlows.mem_all_iff] at hflow
  exact ⟨_, rfl, ((((Within.optionalText "description" f.description).append
    (.memberIf "authorizationCode" (hflow fun _ => .inl))).append
    (.memberIf "implicit" (hflow fun _ hf => .inr (.inl hf)))).append
    (.memberIf "password" (hflow fun _ hf => .inr (.inr (.inl hf))))).append
    (.memberIf "clientCredentials" (hflow fun _ hf => .inr (.inr (.inr hf))))⟩

/-- **A sound scheme presents its members.** Only a scheme with flows holds more than texts. -/
theorem Sound.presents {s : SecurityScheme} (h : s.Sound) :
    Presents s.memberNames (n + 3) s.toJson := by
  have hdescription (d : Option Text) :
      Within ["description"] (n + 3) (optionalText "description" d) := .optionalText _ d
  have hmember (key t : Text) : Within [key] (n + 3) (member key (.str t)) :=
    .member key (.text t)
  cases s with
  | httpBasic d =>
    exact ⟨_, rfl, ((hdescription d).append (hmember "type" "http")).append
      (hmember "scheme" "basic")⟩
  | httpBearer d format =>
    exact ⟨_, rfl, (((hdescription d).append (hmember "type" "http")).append
      (hmember "scheme" "bearer")).append (.optionalText "bearerFormat" format)⟩
  | apiKey d location name =>
    exact ⟨_, rfl, (((hdescription d).append (hmember "type" "apiKey")).append
      (hmember "in" location)).append (hmember "name" name)⟩
  | oauth2 d flows =>
    exact ⟨_, rfl, ((hdescription d).append (hmember "type" "oauth2")).append
      (.member "flows" ((presents_flows h).tidy (by decide +kernel)))⟩
  | openIdConnect d url =>
    exact ⟨_, rfl, ((hdescription d).append (hmember "type" "openIdConnect")).append
      (hmember "openIdConnectUrl" url)⟩

theorem nodup_memberNames (s : SecurityScheme) : (s.memberNames.map Name.outer).Nodup := by
  cases s <;> simp only [memberNames] <;> decide +kernel

/-- **A sound scheme is tidy.** -/
theorem Sound.tidy {s : SecurityScheme} (h : s.Sound) : Tidy (n + 4) s.toJson :=
  h.presents.tidy s.nodup_memberNames

/-- The schemes of a document are tidy, and have distinct names. -/
theorem tidy_of_readSecuritySchemes {schemes : Option (Assoc Text SecurityScheme)}
    (h : readSecuritySchemes v = .ok schemes) {m : Assoc Text SecurityScheme}
    (hm : schemes = some m) :
    Tidy (n + 5) (.obj (Assoc.mapValues SecurityScheme.toJson m)) := by
  obtain ⟨hkeys, hvalues⟩ := of_nullable
    (P := fun m => (Assoc.keys m).Nodup ∧ ∀ p ∈ m, Tidy (n + 4) p.2.toJson)
    (of_textMap fun hread => (sound_of_ofData hread).tidy) (toExcept_eq_ok_iff.1 h) m hm
  refine .object (by rwa [Assoc.keys_mapValues]) fun p hp => ?_
  obtain ⟨s, hs, hjson⟩ := Assoc.mem_mapValues.1 hp
  exact hjson ▸ hvalues _ hs

end SecurityScheme

/-! ## Documents -/

namespace Generator

variable {g : Generator} {d : Document} {n : Nat}

theorem tidy_paths (h : g.document = .ok d) : Tidy (n + 9) (pathsJson d.paths) := by
  refine .object ?_ fun p hp => ?_
  · rw [Assoc.keys_mapValues]
    exact nodup_keys_document h
  · obtain ⟨item, hitem, hjson⟩ := Assoc.mem_mapValues.1 hp
    obtain ⟨e, -, items, hitems, hp⟩ := exists_entity_of_mem_paths (paths_of_document h) hitem
    rw [← hjson]
    refine .object ?_ (List.forall_mem_map.2 fun o ho => ?_)
    · have hnames : Function.Injective Method.name := by
        intro m m' hname
        cases m <;> cases m' <;> first | rfl | simp [Method.name, Text.ofString_inj] at hname
      have hmethods := ((Routing.methods_of_mem_paths hitems hp).1).map hnames
      simpa [Assoc.keys, Function.comp_def] using hmethods
    · obtain ⟨x, -, hserves⟩ := Routing.exists_serves hitems hp ho
      exact Routing.tidy_of_serves hserves

theorem tidy_schemas (h : g.document = .ok d) : Tidy (n + 13) (.obj d.schemas) := by
  obtain ⟨schemas, hschemas, hd⟩ := schemas_of_document h
  rw [hd]
  refine .object ?_ fun p hp => Model.tidy_componentSchemas hschemas (mem_prune_iff.1 hp).1
  obtain ⟨entities, types, -, -, rfl⟩ := Model.componentSchemas_eq_ok_iff.1 hschemas
  unfold prune
  exact (Assoc.nodup_keys_ofList _).sublist (List.filter_sublist.map Prod.fst)

theorem tidy_sharedParameters : Tidy (n + 3) (.obj SharedParameter.components) := by
  simp [SharedParameter.components, SharedParameter.all, SharedParameter.key,
    SharedParameter.toJson, SharedParameter.queryParameter, Text.ofString_inj]

theorem readSecuritySchemes_of_document (h : g.document = .ok d) :
    readSecuritySchemes g.options.securitySchemes = .ok d.securitySchemes := by
  obtain ⟨schemes, schemas, paths, hschemes, -, -, rfl⟩ := document_eq_ok_iff.1 h
  exact hschemes

/-- What all keys and texts have in common before schemas are dropped they have in common after. -/
theorem every_document (h : g.document = .ok d) {schemas : Assoc Text Json}
    (hschemas : g.model.componentSchemas g.nullStyle = .ok schemas) {key text : Text → Bool}
    (hevery : ({ d with schemas } : Document).toJson.every key text = true) :
    d.toJson.every key text = true := by
  have hsub : ∀ p ∈ d.schemas, p ∈ schemas := by
    obtain ⟨schemas', hschemas', hd⟩ := schemas_of_document h
    cases hschemas.symm.trans hschemas'
    intro p hp
    rw [hd] at hp
    exact (mem_prune_iff.1 hp).1
  have hparts : Document.requirements { d with schemas } = d.requirements := rfl
  simp only [Document.toJson, Document.members, Document.components, hparts, every_obj, every_arr,
    List.forall_mem_append, Json.member, List.forall_mem_singleton, List.forall_mem_map] at hevery ⊢
  obtain ⟨⟨hfront, hkey, ⟨⟨hname, hvalues⟩, hparameters⟩, hschemes⟩, hsecurity⟩ := hevery
  exact ⟨⟨hfront, hkey, ⟨⟨hname, fun p hp => hvalues p (hsub p hp)⟩, hparameters⟩, hschemes⟩,
    hsecurity⟩

/-- **Documents are tidy**, and at most fifteen levels deep. -/
theorem tidy_document (h : g.document = .ok d) : Tidy 15 d.toJson := by
  have hinfo : Tidy 14 (.obj d.info.members) :=
    ((((Within.member "title" (.text d.info.title)).append
      (.member "version" (.text d.info.version))).append
      (.optionalText "description" d.info.description)).append
      (.optionalText "summary" d.info.summary)).tidy (by simp [Text.ofString_inj])
  have htags : Tidy 14 (.arr (d.tags.map Tag.toJson)) := by
    refine .list (List.forall_mem_map.2 fun t _ => ?_)
    simp [Tag.toJson, Text.ofString_inj]
  have hschemes : ∀ v, (d.securitySchemes.map fun s =>
      Json.obj (Assoc.mapValues SecurityScheme.toJson s)) = some v → Tidy 13 v := by
    intro v hv
    obtain ⟨m, hm, rfl⟩ := Option.map_eq_some_iff.1 hv
    exact SecurityScheme.tidy_of_readSecuritySchemes (n := 8)
      (readSecuritySchemes_of_document h) hm
  have hcomponents : Tidy 14 (.obj d.components) :=
    (((Within.member "schemas" (tidy_schemas (n := 0) h)).append
      (.member "parameters" tidy_sharedParameters)).append
      (.memberIf "securitySchemes" hschemes)).tidy (by simp [Text.ofString_inj])
  have hrequirements : ∀ v, d.requirements = some v → Tidy 14 v := by
    intro v hv
    unfold Document.requirements at hv
    split at hv
    · cases hv
    · cases hv
    · cases hv
      refine .list (List.forall_mem_map.2 fun s _ => ?_)
      simp
  exact ((((((Within.member "openapi" (.text d.specVersion)).append
    (.member "info" hinfo)).append (.member "tags" htags)).append
    (.member "paths" (tidy_paths (n := 5) h))).append
    (.member "components" hcomponents)).append
    (.memberIf "security" hrequirements)).tidy (by simp [Text.ofString_inj])

end Generator

theorem Blog.ascii_document {d : Document} (h : generator.document = .ok d) :
    d.toJson.every Text.isShortAscii Text.isAscii = true := by
  refine Generator.every_document h rfl ?_
  cases h
  decide +kernel

end ResourceApi
