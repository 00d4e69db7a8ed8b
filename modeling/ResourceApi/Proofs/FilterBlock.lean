import ResourceApi.Proofs.Endpoint
import ResourceApi.Proofs.Resolution

/-!
# Filters, field by field

The filters of an entity are the blocks of its fields, one after the other. A block depends on the
field, on what its type stands for, and on whether the entity has several identifying fields.

**Blocks** (`Field.filterBlock`). A foreign key has no filter, and the only identifying field has
the one named `id`. Any other field is filtered by equality first. A relationship has no more than
that; a collection can be asked for what it contains, an ordered type be compared, a text be
searched.

**Fields that need to resolve** (`filters_eq_ok_iff`). They are those that have filters: all but the
foreign keys.

**Main result** (`filters_local`). A block says nothing about other fields, so exchanging those
leaves it as it is.
-/

namespace ResourceApi

open Schema

/-! ## What a type stands for -/

/-- What the type name of a field stands for. -/
inductive TypeKind where
  | primitive (p : Primitive)
  | entity
  | enum (name : Text)
  | structured
  deriving DecidableEq, Repr

def Declaration.kind : Declaration → TypeKind
  | .entity _ => .entity
  | .enum d => .enum d.name
  | .type _ => .structured

def TypeKind.primitive? : TypeKind → Option Primitive
  | .primitive p => some p
  | _ => none

/-- What the type name of a field stands for, if it resolves. -/
def Model.kind? (m : Model) (f : Field) : Option TypeKind :=
  match f.primitive? with
  | some p => some (.primitive p)
  | none => (m.resolve? f.typeName).map Declaration.kind

/-- The schema of one value in a filter. What has no text of its own is given as JSON, and an entity
by its id. -/
def TypeKind.valueSchema : TypeKind → Json
  | .primitive .json | .structured => formatted "string" "json"
  | .primitive p => p.schema
  | .enum name => ref name
  | .entity => typed "string"

namespace Model

variable {m : Model} {f : Field} {kind : TypeKind}

theorem resolves_iff_exists_kind : m.Resolves f ↔ ∃ kind, m.kind? f = some kind := by
  cases hp : f.primitive? with
  | some p => simp [Resolves, kind?, hp]
  | none => simp [Resolves, kind?, hp, Option.isSome_iff_exists]

theorem isRelationship_eq (h : m.kind? f = some kind) :
    m.isRelationship f = decide (kind = .entity) := by
  unfold kind? at h
  unfold isRelationship
  cases hp : f.primitive? with
  | some p =>
    rw [hp] at h
    cases h
    rfl
  | none =>
    simp only [hp, resolve?] at h
    cases he : m.entity? f.typeName with
    | some e =>
      simp only [he] at h
      cases h
      rfl
    | none =>
      rw [he] at h
      cases hd : m.enums.find? (·.name == f.typeName) with
      | some d =>
        simp only [hd] at h
        cases h
        rfl
      | none =>
        simp only [hd, Option.map_map, Option.map_eq_some_iff] at h
        obtain ⟨d, -, rfl⟩ := h
        rfl

theorem primitive?_eq (h : m.kind? f = some kind) : f.primitive? = kind.primitive? := by
  unfold kind? at h
  split at h
  · next p hp =>
    cases h
    exact hp
  · next hp =>
    obtain ⟨d, -, rfl⟩ := Option.map_eq_some_iff.1 h
    rw [hp]
    cases d <;> rfl

theorem filterValueSchema_eq (h : m.kind? f = some kind) (owner : Text) :
    m.filterValueSchema owner f = .ok kind.valueSchema := by
  unfold kind? at h
  unfold filterValueSchema
  split at h
  · next p hp =>
    cases h
    rw [hp]
    cases p <;> rfl
  · next hp =>
    obtain ⟨d, hd, rfl⟩ := Option.map_eq_some_iff.1 h
    rw [hp, resolve, hd]
    cases d <;> rfl

end Model

/-! ## Blocks -/

namespace Field

/-- The filter of a field with an operator. -/
def filterBy (f : Field) (operator label : Text) (schema : Json) : FilterParameter :=
  ⟨"filter[" ++ f.name ++ operator ++ "]", label ++ " for \"" ++ f.name ++ "\"", schema⟩

/-- The filters of a field besides equality. -/
def operatorFilters (kind : TypeKind) (f : Field) : List FilterParameter :=
  let value := kind.valueSchema
  if kind = .entity then []
  else if f.array then [
    f.filterBy "$has" "Collection contains filter" value,
    f.filterBy "$hasEvery" "Collection contains-all filter" (arrayOf value),
    f.filterBy "$hasSome" "Collection contains-any filter" (arrayOf value),
    f.filterBy "$isEmpty" "Collection is empty filter" (typed "boolean")]
  else if kind ∈ [.int, .bigInt, .float, .decimal, .dateTime].map TypeKind.primitive then [
    f.filterBy "$lt" "Less-than filter" value,
    f.filterBy "$lte" "Less-than or equal filter" value,
    f.filterBy "$gt" "Greater-than filter" value,
    f.filterBy "$gte" "Greater-than or equal filter" value]
  else if kind = .primitive .string then [
    f.filterBy "$contains" "String contains filter" value,
    f.filterBy "$icontains" "String case-insensitive contains filter" value,
    f.filterBy "$search" "String full-text search filter" value,
    f.filterBy "$startsWith" "String startsWith filter" value,
    f.filterBy "$endsWith" "String endsWith filter" value]
  else []

/-- The filters of a field, given what its type stands for and whether it is one of several
identifying fields. -/
def filterBlock (compoundId : Bool) (kind : TypeKind) (f : Field) : List FilterParameter :=
  if f.foreignKey then []
  else if f.isId ∧ compoundId = false then [⟨"filter[id]", "Id filter", kind.valueSchema⟩]
  else
    f.filterBy "" "Equality filter" (arrayIf f.array kind.valueSchema) :: f.operatorFilters kind

end Field

/-- Does the entity have several identifying fields? -/
def Entity.hasCompoundId (e : Entity) : Bool := e.idFields.length > 1

namespace Model

variable {m : Model} {e : Entity} {f : Field} {kind : TypeKind} {compoundId : Bool}

/-- The filters of a field whose type name resolves; none otherwise. -/
def filterBlock (m : Model) (compoundId : Bool) (f : Field) : List FilterParameter :=
  (m.kind? f).elim [] fun kind => f.filterBlock compoundId kind

theorem map_filterOps (h : m.kind? f = some kind) :
    (m.filterOps compoundId f).map (filterParameter f kind.valueSchema) =
      f.filterBlock compoundId kind := by
  unfold filterOps Field.filterBlock
  rw [isRelationship_eq h, primitive?_eq h]
  clear h
  obtain ⟨name, typeName, array, optional, isId, foreignKey, hasDefault⟩ := f
  cases foreignKey with
  | true => rfl
  | false =>
    cases isId <;> cases compoundId
    case true.false => rfl
    all_goals
      cases kind with
      | entity => rfl
      | enum | structured => cases array <;> rfl
      | primitive p => cases array <;> cases p <;> rfl

theorem fieldFilters_of_kind (h : m.kind? f = some kind) (owner : Text) :
    m.fieldFilters owner compoundId f = .ok (f.filterBlock compoundId kind) := by
  rw [← map_filterOps h, fieldFilters]
  split
  · next hnone =>
    rw [hnone]
    rfl
  · rw [filterValueSchema_eq h]
    rfl

/-- **The operators of a field**: none for a foreign key, one of its own for the only identifying
field, and otherwise equality with at most one group of others. -/
theorem filterOps_cases (m : Model) (compoundId : Bool) (f : Field) :
    (f.foreignKey = true ∧ m.filterOps compoundId f = []) ∨
      (f.foreignKey = false ∧ (f.isId && !compoundId) = true ∧
        m.filterOps compoundId f = [.id]) ∨
      (f.foreignKey = false ∧ (f.isId && !compoundId) = false ∧
        ∃ group ∈ [[], FilterOp.collective, FilterOp.textual, FilterOp.comparisons],
          m.filterOps compoundId f = .equal :: group) := by
  unfold filterOps
  split_ifs with hkey hid hrelationship harray
  · exact .inl ⟨hkey, rfl⟩
  · exact .inr (.inl ⟨by simpa using hkey, hid, rfl⟩)
  all_goals refine .inr (.inr ⟨by simpa using hkey, by simpa using hid, ?_⟩)
  · exact ⟨[], by simp, rfl⟩
  · exact ⟨_, by simp, rfl⟩
  · split
    · exact ⟨_, by simp, rfl⟩
    · split_ifs
      · exact ⟨_, by simp, rfl⟩
      · exact ⟨[], by simp, rfl⟩
    · exact ⟨[], by simp, rfl⟩

theorem filterOps_eq_nil_iff : m.filterOps compoundId f = [] ↔ f.foreignKey = true := by
  rcases m.filterOps_cases compoundId f with ⟨hkey, hops⟩ | ⟨hkey, -, hops⟩ |
    ⟨hkey, -, group, -, hops⟩ <;> simp [hkey, hops]

theorem filterBlock_of_foreignKey (h : f.foreignKey = true) : m.filterBlock compoundId f = [] := by
  unfold filterBlock Field.filterBlock
  cases m.kind? f <;> simp [h]

/-- **The filters of a field can be built** when it has none or its type name resolves. -/
theorem fieldFilters_eq_ok_iff {owner : Text} {ps : List FilterParameter} :
    m.fieldFilters owner compoundId f = .ok ps ↔
      (f.foreignKey = false → m.Resolves f) ∧ m.filterBlock compoundId f = ps := by
  cases hkind : m.kind? f with
  | some kind =>
    have hresolves : m.Resolves f := resolves_iff_exists_kind.2 ⟨kind, hkind⟩
    rw [fieldFilters_of_kind hkind, filterBlock, hkind, Except.ok.injEq]
    exact (and_iff_right fun _ => hresolves).symm
  | none =>
    have hresolves : ¬ m.Resolves f := by
      simp [resolves_iff_exists_kind, hkind]
    have hvalue : ¬ Succeeds (m.filterValueSchema owner f) :=
      fun h => hresolves (succeeds_filterValueSchema_iff.1 h)
    rw [filterBlock, hkind, Option.elim_none, fieldFilters]
    split
    · next hnone =>
      have hkey := filterOps_eq_nil_iff.1 hnone
      simp [hkey]
    · next hsome =>
      have hkey : f.foreignKey = false := by
        simpa [filterOps_eq_nil_iff] using hsome
      refine iff_of_false (fun h => hvalue ?_) fun h => hresolves (h.1 hkey)
      exact succeeds_map_iff.1 ⟨ps, h⟩

/-! ## Entities -/

/-- Every field of the entity that has filters has a type name that resolves. -/
def Filterable (m : Model) (e : Entity) : Prop :=
  ∀ f ∈ e.fields, f.foreignKey = false → m.Resolves f

/-- **The filters of an entity are the blocks of its fields.** -/
theorem filters_eq_ok_iff {ps : List FilterParameter} : m.filters e = .ok ps ↔
    m.Filterable e ∧ e.fields.flatMap (m.filterBlock e.hasCompoundId) = ps := by
  rw [filters, map_eq_ok_iff]
  have hper (perField : List (List FilterParameter)) :
      e.fields.mapM (m.fieldFilters e.name e.hasCompoundId) = .ok perField ↔
        m.Filterable e ∧ e.fields.map (m.filterBlock e.hasCompoundId) = perField := by
    rw [mapM_eq_ok_iff]
    simp only [fieldFilters_eq_ok_iff]
    rw [List.forall₂_and_left, ← List.forall₂_map_left_iff (R := Eq), List.forall₂_eq_eq_eq]
    rfl
  constructor
  · intro hparts
    obtain ⟨perField, hok, rfl⟩ := hparts
    obtain ⟨hfilterable, rfl⟩ := (hper perField).1 hok
    exact ⟨hfilterable, List.flatMap_def ..⟩
  · intro hparts
    obtain ⟨hfilterable, rfl⟩ := hparts
    exact ⟨_, (hper _).2 ⟨hfilterable, rfl⟩, (List.flatMap_def ..).symm⟩

theorem succeeds_filters_iff : Succeeds (m.filters e) ↔ m.Filterable e := by
  simp only [Succeeds, filters_eq_ok_iff, exists_and_left, exists_eq', and_true]

theorem filterable_of_checkReferences (hrefs : m.checkReferences = .ok ()) (he : e ∈ m.entities) :
    m.Filterable e :=
  fun f hf _ => (checkReferences_eq_ok_iff.1 hrefs).1 e he f hf

theorem filterBlock_congr {m' : Model} (h : m'.kind? f = m.kind? f) :
    m'.filterBlock compoundId f = m.filterBlock compoundId f := by
  rw [filterBlock, filterBlock, h]

/-- **Filters are local to their field.** The filters of an entity are the blocks of its fields, in
their order, and each is given by the field, what its type stands for, and whether the id is
compound. The same blocks make the filters of any other entity, in any other model, as long as the
types of its fields stand for the same and its id is compound as well or is not either: however its
fields are reordered, added to or left out, each brings its own block. -/
theorem filters_local (hrefs : m.checkReferences = .ok ()) (he : e ∈ m.entities) :
    m.filters e = .ok (e.fields.flatMap (m.filterBlock e.hasCompoundId)) ∧
    (∀ f ∈ e.fields, ∃ kind, m.kind? f = some kind ∧
      m.filterBlock e.hasCompoundId f = f.filterBlock e.hasCompoundId kind) ∧
    ∀ (m' : Model) (e' : Entity), m'.checkReferences = .ok () → e' ∈ m'.entities →
      (1 < e'.idFields.length ↔ 1 < e.idFields.length) →
      (∀ f ∈ e'.fields, m'.kind? f = m.kind? f) →
        m'.filters e' = .ok (e'.fields.flatMap (m.filterBlock e.hasCompoundId)) := by
  refine ⟨filters_eq_ok_iff.2 ⟨filterable_of_checkReferences hrefs he, rfl⟩, ?_, ?_⟩
  · intro f hf
    have hresolves : m.Resolves f := (checkReferences_eq_ok_iff.1 hrefs).1 e he f hf
    obtain ⟨kind, hkind⟩ := resolves_iff_exists_kind.1 hresolves
    exact ⟨kind, hkind, by rw [filterBlock, hkind, Option.elim_some]⟩
  · intro m' e' hrefs' he' hcompound hkinds
    have hsame : e'.hasCompoundId = e.hasCompoundId := decide_eq_decide.2 hcompound
    refine filters_eq_ok_iff.2 ⟨filterable_of_checkReferences hrefs' he', ?_⟩
    rw [hsame]
    exact List.flatMap_congr fun f hf => filterBlock_congr (hkinds f hf)

end Model

namespace Blog

/-- The fields of a user in another order, with a name between them. -/
def namedUser : Entity :=
  { user with fields := [{ name := "posts", typeName := "Post", array := true },
      { name := "name", typeName := "String" }, { name := "role", typeName := "Role" }] }

/-- The filters by posts and by role stay as they are; those by the name come between. -/
theorem named_users_filtered : ∃ posts byName role : List FilterParameter,
    generator.model.filters user = .ok (role ++ posts) ∧
      ({ generator.model with entities := [post, namedUser] } : Model).filters namedUser =
        .ok (posts ++ byName ++ role) ∧
      byName.map (·.name) = ["filter[name]", "filter[name$contains]", "filter[name$icontains]",
        "filter[name$search]", "filter[name$startsWith]", "filter[name$endsWith]"] := by
  obtain ⟨huser, -, hother⟩ := Model.filters_local (m := generator.model) (e := user) rfl
    (List.mem_cons_of_mem _ List.mem_cons_self)
  have hnamed := hother { generator.model with entities := [post, namedUser] } namedUser rfl
    (List.mem_cons_of_mem _ List.mem_cons_self) Iff.rfl (by decide)
  exact ⟨_, _, _, huser, hnamed, rfl⟩

end Blog

end ResourceApi
