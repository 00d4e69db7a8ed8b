import ResourceApi.Proofs.FilterBlock
import ResourceApi.Proofs.Words

/-!
# Names of filters

The name of a filter is put together from the word of its field and the operator, which begins with
a dollar sign if there is one. The word of the only identifying field is `id`, that of any other
field its name.

**One field** (`nodup_filterNames`). The operators of a field differ, and so do the names.

**The filter `id`** (`count_idFilter`). It is there once for every field that has filters and the
word `id`, so how often it is there can be counted by the words.

**Main result** (`identifiers_filterable`). An identifying field has a filter, by its name or as
`id`, unless it is a foreign key.
-/

namespace ResourceApi

open Schema

/-! ## Operators -/

theorem FilterOp.head_suffix (op : FilterOp) : ∀ c ∈ op.suffix.points.head?, c = .char '$' := by
  cases op <;> simp [suffix]

namespace Model

variable {m : Model} {f : Field} {compoundId : Bool}

/-- What the operators of a field add to names. -/
def filterSuffixes (m : Model) (compoundId : Bool) (f : Field) : List Text :=
  (m.filterOps compoundId f).map FilterOp.suffix

theorem nodup_filterSuffixes : (m.filterSuffixes compoundId f).Nodup := by
  unfold filterSuffixes
  rcases m.filterOps_cases compoundId f with ⟨-, hops⟩ | ⟨-, -, hops⟩ | ⟨-, -, group, hgroup, hops⟩
  · simp [hops]
  · simp [hops]
  · rw [hops]
    simp only [List.mem_cons, List.not_mem_nil, or_false] at hgroup
    rcases hgroup with rfl | rfl | rfl | rfl <;> decide

theorem head_of_mem_filterSuffixes {s : Text} (hs : s ∈ m.filterSuffixes compoundId f) :
    ∀ c ∈ s.points.head?, c = .char '$' := by
  obtain ⟨op, -, rfl⟩ := List.mem_map.1 hs
  exact op.head_suffix

theorem empty_mem_filterSuffixes_iff :
    ("" : Text) ∈ m.filterSuffixes compoundId f ↔ f.foreignKey = false := by
  unfold filterSuffixes
  rcases m.filterOps_cases compoundId f with ⟨hkey, hops⟩ | ⟨hkey, -, hops⟩ |
    ⟨hkey, -, group, -, hops⟩ <;> simp [hkey, hops, FilterOp.suffix]

end Model

/-! ## Names -/

theorem Field.filterBy_equality (f : Field) (schema : Json) :
    f.filterBy "" "Equality filter" schema =
      ⟨"filter[" ++ f.name ++ "]", "Equality filter for \"" ++ f.name ++ "\"", schema⟩ := by
  rw [filterBy, Text.append_empty]
  rfl

/-- What the names of a field's filters begin with. -/
def Field.filterWord (compoundId : Bool) (f : Field) : Text :=
  if f.isId && !compoundId then "id" else f.name

/-- The name of the filter that says a word. -/
def filterNamed (word : Text) : Text := "filter[" ++ word ++ "]"

theorem filterNamed_inj {s t : Text} : filterNamed s = filterNamed t ↔ s = t := by
  refine ⟨fun h => ?_, congrArg filterNamed⟩
  exact Text.append_right_inj.1 (Text.append_inj_of_length_eq rfl h).1

namespace Model

variable {m : Model} {e : Entity} {f g : Field} {compoundId : Bool} {ps : List FilterParameter}

/-- The names of a field's filters. -/
def filterNames (m : Model) (compoundId : Bool) (f : Field) : List Text :=
  (m.filterSuffixes compoundId f).map fun s => filterNamed (f.filterWord compoundId ++ s)

theorem filterName_of_ne {op : FilterOp} (h : op ≠ .id) :
    filterName f op = filterNamed (f.name ++ op.suffix) := by
  rw [filterNamed, ← Text.append_assoc]
  cases op <;> first | rfl | exact absurd rfl h

theorem map_filterName :
    (m.filterOps compoundId f).map (filterName f) = m.filterNames compoundId f := by
  rw [filterNames, filterSuffixes, List.map_map]
  refine List.map_congr_left fun op hop => ?_
  show filterName f op = filterNamed (f.filterWord compoundId ++ op.suffix)
  rcases m.filterOps_cases compoundId f with ⟨-, hops⟩ | ⟨-, hid, hops⟩ |
    ⟨-, hid, group, hgroup, hops⟩
  · rw [hops] at hop
    cases hop
  · rw [hops, List.mem_singleton] at hop
    rw [hop, Field.filterWord, if_pos hid]
    rfl
  · rw [Field.filterWord, hid, if_neg Bool.false_ne_true]
    refine filterName_of_ne ?_
    rintro rfl
    simp only [List.mem_cons, List.not_mem_nil, or_false] at hgroup
    rcases hgroup with rfl | rfl | rfl | rfl <;> rw [hops] at hop <;> revert hop <;> decide

/-- **The names of an entity's filters**, field by field. -/
theorem names_of_filters (h : m.filters e = .ok ps) :
    ps.map (·.name) = e.fields.flatMap (m.filterNames e.hasCompoundId) := by
  obtain ⟨hfilterable, rfl⟩ := filters_eq_ok_iff.1 h
  rw [List.map_flatMap]
  refine List.flatMap_congr fun f hf => ?_
  cases hkey : f.foreignKey with
  | true =>
    rw [filterBlock_of_foreignKey hkey, ← map_filterName, filterOps_eq_nil_iff.2 hkey]
    rfl
  | false =>
    obtain ⟨kind, hkind⟩ := resolves_iff_exists_kind.1 (hfilterable f hf hkey)
    rw [filterBlock, hkind, Option.elim_some, ← map_filterOps hkind, List.map_map, ← map_filterName]
    rfl

theorem nodup_filterNames : (m.filterNames compoundId f).Nodup := by
  refine nodup_filterSuffixes.map fun s t h => ?_
  exact Text.append_right_inj.1 (filterNamed_inj.1 h)

/-! ## Identifying fields -/

theorem idFilter_mem_iff : ("filter[id]" : Text) ∈ m.filterNames compoundId f ↔
    f.foreignKey = false ∧ f.filterWord compoundId = ("id" : Text) := by
  have hfiltered : ("" : Text) ∈ m.filterSuffixes compoundId f ↔ f.foreignKey = false :=
    empty_mem_filterSuffixes_iff
  rw [← hfiltered, filterNames, List.mem_map]
  constructor
  · intro hmem
    obtain ⟨s, hs, heq⟩ := hmem
    have hword : f.filterWord compoundId ++ s = ("id" : Text) := filterNamed_inj.1 heq
    -- an operator would bring a dollar sign in
    have hempty : s = ("" : Text) := by
      cases hhead : s.points.head? with
      | none => exact Text.points_inj.1 (List.head?_eq_none_iff.1 hhead)
      | some c =>
        have hc := head_of_mem_filterSuffixes hs c hhead
        have hmem : c ∈ (f.filterWord compoundId ++ s).points :=
          List.mem_append_right _ (List.mem_of_mem_head? hhead)
        rw [hword, hc] at hmem
        exact absurd hmem (by decide)
    rw [hempty, Text.append_empty] at hword
    exact ⟨hempty ▸ hs, hword⟩
  · intro hparts
    obtain ⟨hempty, hword⟩ := hparts
    exact ⟨"", hempty, by rw [hword]; rfl⟩

/-- **How often the filter `id` is there.** -/
theorem count_idFilter (h : m.filters e = .ok ps) : (ps.map (·.name)).count ("filter[id]" : Text) =
    e.fields.countP fun f => !f.foreignKey && f.filterWord e.hasCompoundId = ("id" : Text) := by
  rw [names_of_filters h]
  induction e.fields with
  | nil => rfl
  | cons f fields ih =>
    rw [List.flatMap_cons, List.count_append, List.countP_cons, ih, Nat.add_comm,
      nodup_filterNames.count]
    simp only [idFilter_mem_iff, Bool.and_eq_true, Bool.not_eq_true', decide_eq_true_iff]

/-- The word of a field is `id` when it is the only identifying field or has that name. -/
theorem filterWord_eq_id_iff (hf : f ∈ e.fields) :
    f.filterWord e.hasCompoundId = ("id" : Text) ↔ e.idFields = [f] ∨ f.name = ("id" : Text) := by
  unfold Field.filterWord Entity.hasCompoundId
  by_cases hcompound : e.idFields.length > 1
  · simp [hcompound, Entity.idFields_ne_singleton hcompound]
  · rw [Entity.idFields_eq_singleton_iff hf hcompound]
    cases f.isId <;> simp [hcompound]

theorem count_idFilter_of_sole (h : m.filters e = .ok ps) (hnodup : e.fields.Nodup)
    (hid : e.idFields = [f]) (hothers : ∀ g ∈ e.fields, g.name = ("id" : Text) → g = f) :
    (ps.map (·.name)).count ("filter[id]" : Text) = if f.foreignKey then 0 else 1 := by
  have hf : f ∈ e.fields := Entity.mem_fields_of_sole hid
  have hword : ∀ g ∈ e.fields, g.filterWord e.hasCompoundId = ("id" : Text) ↔ g = f := by
    intro g hg
    rw [filterWord_eq_id_iff hg, hid, List.singleton_inj]
    exact ⟨fun hcases => hcases.elim Eq.symm (hothers g hg), fun heq => .inl heq.symm⟩
  rw [count_idFilter h]
  split_ifs with hkey
  · rw [List.countP_eq_zero]
    intro g hg
    rw [Bool.and_eq_true, decide_eq_true_iff, hword g hg]
    rintro ⟨hfiltered, rfl⟩
    simp [hkey] at hfiltered
  · have hsole : ∀ g ∈ e.fields,
        (!g.foreignKey && g.filterWord e.hasCompoundId = ("id" : Text)) = true ↔ g == f := by
      intro g hg
      rw [Bool.and_eq_true, decide_eq_true_iff, hword g hg, beq_iff_eq]
      refine and_iff_right_of_imp ?_
      rintro rfl
      simpa using hkey
    rw [List.countP_congr hsole]
    exact List.count_eq_one_of_mem hnodup hf

theorem mem_filters_of_mem_filterBlock (h : m.filters e = .ok ps) (hf : f ∈ e.fields)
    {p : FilterParameter} (hp : p ∈ m.filterBlock e.hasCompoundId f) : p ∈ ps := by
  rw [← (filters_eq_ok_iff.1 h).2]
  exact List.mem_flatMap.2 ⟨f, hf, hp⟩

theorem idFilter_mem_of_sole (h : m.filters e = .ok ps) (hid : e.idFields = [f])
    (hkey : f.foreignKey = false) : ∃ schema, ⟨"filter[id]", "Id filter", schema⟩ ∈ ps := by
  have hf : f ∈ e.fields := Entity.mem_fields_of_sole hid
  have hisId : f.isId = true := (List.mem_filter.1 (hid ▸ List.mem_singleton_self f)).2
  obtain ⟨kind, hkind⟩ := resolves_iff_exists_kind.1 ((filters_eq_ok_iff.1 h).1 f hf hkey)
  refine ⟨kind.valueSchema, mem_filters_of_mem_filterBlock h hf ?_⟩
  simp [filterBlock, hkind, Field.filterBlock, hkey, hisId, Entity.hasCompoundId, hid]

theorem equality_mem_of_compound (h : m.filters e = .ok ps) (hcompound : 1 < e.idFields.length)
    (hf : f ∈ e.fields) (hkey : f.foreignKey = false) : ∃ schema,
      ⟨"filter[" ++ f.name ++ "]", "Equality filter for \"" ++ f.name ++ "\"", schema⟩ ∈ ps := by
  obtain ⟨kind, hkind⟩ := resolves_iff_exists_kind.1 ((filters_eq_ok_iff.1 h).1 f hf hkey)
  refine ⟨arrayIf f.array kind.valueSchema, mem_filters_of_mem_filterBlock h hf ?_⟩
  rw [← Field.filterBy_equality]
  simp [filterBlock, hkind, Field.filterBlock, hkey, Entity.hasCompoundId, hcompound]

theorem exists_named_id_of_compound (h : m.filters e = .ok ps)
    (hcompound : 1 < e.idFields.length) (hmem : ("filter[id]" : Text) ∈ ps.map (·.name)) :
    ∃ f ∈ e.fields, f.name = ("id" : Text) := by
  rw [names_of_filters h, List.mem_flatMap] at hmem
  obtain ⟨f, hf, hmem⟩ := hmem
  have hword : f.filterWord e.hasCompoundId = ("id" : Text) := (idFilter_mem_iff.1 hmem).2
  exact ⟨f, hf, ((filterWord_eq_id_iff hf).1 hword).resolve_left
    (Entity.idFields_ne_singleton hcompound)⟩

/-- **Identifying fields are filtered, unless they are foreign keys.** The filters can be built when
the type name of every other field resolves, and a foreign key brings none. If there is one
identifying field, it brings the filter `id`, and no other is there as long as no other field has
that name. If there are several, each brings a filter of its own, by equality, and the filter `id`
is there only if a field has that name. -/
theorem identifiers_filterable (hnames : (e.fields.map (·.name)).Nodup) :
    (Succeeds (m.filters e) ↔ ∀ f ∈ e.fields, f.foreignKey = false → m.Resolves f) ∧
    (∀ f ∈ e.fields, f.foreignKey = true → m.fieldFilters e.name e.hasCompoundId f = .ok []) ∧
    ∀ ps, m.filters e = .ok ps →
      (∀ f, e.idFields = [f] →
        (f.foreignKey = false → ∃ schema, ⟨"filter[id]", "Id filter", schema⟩ ∈ ps) ∧
        ((∀ g ∈ e.fields, g.name = ("id" : Text) → g = f) →
          (ps.map (·.name)).count ("filter[id]" : Text) = if f.foreignKey then 0 else 1)) ∧
      (1 < e.idFields.length →
        (∀ f ∈ e.idFields, f.foreignKey = false → ∃ schema,
          ⟨"filter[" ++ f.name ++ "]", "Equality filter for \"" ++ f.name ++ "\"", schema⟩ ∈ ps) ∧
        (("filter[id]" : Text) ∈ ps.map (·.name) → ∃ f ∈ e.fields, f.name = ("id" : Text))) := by
  refine ⟨succeeds_filters_iff, ?_, ?_⟩
  · intro f hf hkey
    refine fieldFilters_eq_ok_iff.2 ⟨?_, filterBlock_of_foreignKey hkey⟩
    intro hfiltered
    rw [hkey] at hfiltered
    cases hfiltered
  · intro ps h
    constructor
    · intro f hid
      exact ⟨idFilter_mem_of_sole h hid, count_idFilter_of_sole h (hnames.of_map _) hid⟩
    · intro hcompound
      refine ⟨?_, exists_named_id_of_compound h hcompound⟩
      intro f hf hkey
      exact equality_mem_of_compound h hcompound (List.mem_filter.1 hf).1 hkey

end Model

namespace Blog

/-- The settings of a user, identified by the key of their user. -/
def settings : Entity where
  name := "Settings"
  fields := [{ name := "userId", typeName := "String", isId := true, foreignKey := true },
    { name := "user", typeName := "User" }, { name := "theme", typeName := "String" }]

/-- A place on a shelf of a user, which the two identify together. -/
def shelving : Entity where
  name := "Shelving"
  fields := [{ name := "owner", typeName := "User", isId := true },
    { name := "shelf", typeName := "String", isId := true }]

/-- A post is filtered by its id, settings are not, and a place is filtered by both that identify
it. -/
theorem identified_filtered :
    (∃ ps, generator.model.filters post = .ok ps ∧
      (ps.map (·.name)).count ("filter[id]" : Text) = 1) ∧
    (∃ ps, generator.model.filters settings = .ok ps ∧
      (ps.map (·.name)).count ("filter[id]" : Text) = 0) ∧
    ∃ ps owner shelf, generator.model.filters shelving = .ok ps ∧
      ⟨"filter[owner]", "Equality filter for \"owner\"", owner⟩ ∈ ps ∧
      ⟨"filter[shelf]", "Equality filter for \"shelf\"", shelf⟩ ∈ ps ∧
      ("filter[id]" : Text) ∉ ps.map (·.name) := by
  have hfilters {e : Entity} (hnames : (e.fields.map (·.name)).Nodup) :=
    (Model.identifiers_filterable (m := generator.model) hnames).2.2
  refine ⟨⟨_, rfl, ?_⟩, ⟨_, rfl, ?_⟩, ?_⟩
  · exact ((hfilters (e := post) (by decide) _ rfl).1 _ rfl).2 (by decide)
  · exact ((hfilters (e := settings) (by decide) _ rfl).1 _ rfl).2 (by decide)
  · obtain ⟨hown, hid⟩ := (hfilters (e := shelving) (by decide) _ rfl).2 (by decide)
    obtain ⟨owner, howner⟩ := hown _ List.mem_cons_self rfl
    obtain ⟨shelf, hshelf⟩ := hown _ (List.mem_cons_of_mem _ List.mem_cons_self) rfl
    exact ⟨_, owner, shelf, rfl, howner, hshelf, fun hmem => absurd (hid hmem) (by decide)⟩

/-- **An identifying field need not be filtered.** Settings have no filter `id`, though they have
one identifying field. -/
theorem identifying_key_unfiltered : ¬ ∀ (m : Model) (e : Entity) (ps : List FilterParameter),
    (e.fields.map (·.name)).Nodup → m.filters e = .ok ps →
      (∀ f, e.idFields = [f] → (ps.map (·.name)).count ("filter[id]" : Text) = 1) ∧
      (1 < e.idFields.length →
        (∀ f ∈ e.idFields, "filter[" ++ f.name ++ "]" ∈ ps.map (·.name)) ∧
        (("filter[id]" : Text) ∈ ps.map (·.name) → ∃ f ∈ e.fields, f.name = ("id" : Text))) := by
  intro h
  have hcount := (h generator.model settings _ (by decide) rfl).1 _ rfl
  revert hcount
  decide

end Blog

end ResourceApi
