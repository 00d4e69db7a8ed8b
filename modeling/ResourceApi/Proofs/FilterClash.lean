import ResourceApi.Proofs.FilterName
import ResourceApi.Proofs.NamedPart

/-!
# Clashes of filter names

An operation tells its parameters apart by their names and locations. Filters are named after
fields, so it depends on the fields whether it can.

**Words** (`nodup_filterWords`). Fields with different names have different words, unless the only
identifying field takes the word `id` from a field of that name.

**Names** (`nodup_names_of_filters`). An operator begins with the first dollar sign of the name if
the word holds none, so a name can be taken apart.

**Main result** (`parameters_told_apart`). An operation lists the filters of one entity beside
shared parameters, which have other names.
-/

namespace ResourceApi

open Schema Json

/-! ## Words -/

/-- What it takes for two filters of an entity to have one name. -/
inductive Entity.FiltersMayClash (e : Entity) : Prop
  | repeated (h : ¬ (e.fields.map (·.name)).Nodup)
  | dollar {f : Field} (hf : f ∈ e.fields) (h : .char '$' ∈ f.name.points)
  /-- The only identifying field takes the word `id`, and another field has that name. -/
  | takenId {f g : Field} (hid : e.idFields = [f]) (hg : g ∈ e.fields) (hne : g ≠ f)
    (hname : g.name = ("id" : Text))

section

variable {e : Entity} {f g : Field} {compoundId : Bool}

theorem filtersMayClash_iff : e.FiltersMayClash ↔
    ¬ (e.fields.map (·.name)).Nodup ∨ (∃ f ∈ e.fields, .char '$' ∈ f.name.points) ∨
      ∃ f ∈ e.fields, e.idFields = [f] ∧ ∃ g ∈ e.fields, g ≠ f ∧ g.name = ("id" : Text) := by
  constructor
  · intro h
    cases h with
    | repeated h => exact .inl h
    | dollar hf h => exact .inr (.inl ⟨_, hf, h⟩)
    | takenId hid hg hne hname =>
      exact .inr (.inr ⟨_, Entity.mem_fields_of_sole hid, hid, _, hg, hne, hname⟩)
  · rintro (h | ⟨f, hf, h⟩ | ⟨f, -, hid, g, hg, hne, hname⟩)
    · exact .repeated h
    · exact .dollar hf h
    · exact .takenId hid hg hne hname

instance : Decidable e.FiltersMayClash := decidable_of_iff _ filtersMayClash_iff.symm

theorem filterWord_of_ne_id (h : f.filterWord compoundId ≠ ("id" : Text)) :
    f.filterWord compoundId = f.name := by
  unfold Field.filterWord at h ⊢
  split_ifs at h ⊢
  · exact absurd rfl h
  · rfl

theorem name_eq_of_filterWord_eq_id (h : ¬ e.FiltersMayClash) (hf : f ∈ e.fields)
    (hg : g ∈ e.fields) (hfid : f.filterWord e.hasCompoundId = ("id" : Text))
    (hgid : g.filterWord e.hasCompoundId = ("id" : Text)) : f.name = g.name := by
  by_contra hne
  have hfg : f ≠ g := by
    rintro rfl
    exact hne rfl
  rcases (Model.filterWord_eq_id_iff hf).1 hfid with hf' | hf' <;>
    rcases (Model.filterWord_eq_id_iff hg).1 hgid with hg' | hg'
  · rw [hf', List.singleton_inj] at hg'
    exact hfg hg'
  · exact h (.takenId hf' hg hfg.symm hg')
  · exact h (.takenId hg' hf hfg hf')
  · exact hne (hf'.trans hg'.symm)

/-- **Fields differ in their words** where filters do not clash. -/
theorem nodup_filterWords (h : ¬ e.FiltersMayClash) :
    (e.fields.map (Field.filterWord e.hasCompoundId)).Nodup := by
  have hnames : (e.fields.map (·.name)).Nodup := by
    by_contra hrepeated
    exact h (.repeated hrepeated)
  refine List.pairwise_map.2 ((List.pairwise_map.1 hnames).imp_of_mem ?_)
  intro f g hf hg hne hword
  apply hne
  by_cases hfid : f.filterWord e.hasCompoundId = ("id" : Text)
  · exact name_eq_of_filterWord_eq_id h hf hg hfid (hword ▸ hfid)
  · have hgid : g.filterWord e.hasCompoundId ≠ ("id" : Text) := hword ▸ hfid
    rwa [filterWord_of_ne_id hfid, filterWord_of_ne_id hgid] at hword

theorem dollar_notMem_filterWord (h : ¬ e.FiltersMayClash) (hf : f ∈ e.fields) :
    .char '$' ∉ (f.filterWord compoundId).points := by
  unfold Field.filterWord
  split_ifs
  · decide
  · intro hdollar
    exact h (.dollar hf hdollar)

end

/-! ## Names -/

namespace Model

variable {m : Model} {e : Entity} {f g : Field} {ps : List FilterParameter}

theorem disjoint_filterNames (h : ¬ e.FiltersMayClash) (hf : f ∈ e.fields) (hg : g ∈ e.fields)
    (hne : f.filterWord e.hasCompoundId ≠ g.filterWord e.hasCompoundId) :
    (m.filterNames e.hasCompoundId f).Disjoint (m.filterNames e.hasCompoundId g) := by
  intro n hnf hng
  obtain ⟨s, hs, rfl⟩ := List.mem_map.1 hnf
  obtain ⟨t, ht, heq⟩ := List.mem_map.1 hng
  exact hne (Text.eq_of_append_eq (dollar_notMem_filterWord h hf) (dollar_notMem_filterWord h hg)
    (head_of_mem_filterSuffixes hs) (head_of_mem_filterSuffixes ht) (filterNamed_inj.1 heq).symm)

/-- **The filters of an entity have different names**, except in three cases. -/
theorem nodup_names_of_filters (h : ¬ e.FiltersMayClash) (hps : m.filters e = .ok ps) :
    (ps.map (·.name)).Nodup := by
  rw [names_of_filters hps, List.nodup_flatMap]
  refine ⟨fun f _ => nodup_filterNames, ?_⟩
  refine (List.pairwise_map.1 (nodup_filterWords h)).imp_of_mem ?_
  intro f g hf hg hne
  exact disjoint_filterNames h hf hg hne

theorem exists_word_of_mem_filters (hps : m.filters e = .ok ps) {p : FilterParameter}
    (hp : p ∈ ps) : ∃ word, p.name = filterNamed word := by
  have hmem : p.name ∈ ps.map (·.name) := List.mem_map_of_mem hp
  rw [names_of_filters hps, List.mem_flatMap] at hmem
  obtain ⟨f, -, hmem⟩ := hmem
  obtain ⟨s, -, heq⟩ := List.mem_map.1 hmem
  exact ⟨_, heq.symm⟩

end Model

/-! ## Parameters of an operation -/

namespace SharedParameter

/-- What the parameter is called in a request. -/
def name : SharedParameter → Text
  | .id => "id"
  | .include => "include"
  | .sort => "sort"
  | .pageOffset => "page[offset]"
  | .pageLimit => "page[limit]"

@[simp] theorem get?_name (p : SharedParameter) : p.toJson.get? "name" = some (.str p.name) := by
  cases p <;> rfl

theorem name_injective : Function.Injective name := by
  intro p q h
  cases p <;> cases q <;> simp [name, Text.ofString_inj] at h ⊢

theorem name_ne_filterNamed (p : SharedParameter) (word : Text) : p.name ≠ filterNamed word := by
  intro h
  have hhead : p.name.points.head? = some (.char 'f') := by rw [h]; rfl
  cases p <;> simp [name] at hhead

end SharedParameter

/-- The parameter that a value stands for: the shared one that it refers to, or itself. -/
def Json.parameter (v : Json) : Json :=
  match v.get? "$ref" with
  | some (.str path) =>
    ((SharedParameter.components.find? fun c => parameterPath ++ c.1 == path).map Prod.snd).getD v
  | _ => v

@[simp] theorem parameter_parameterRef (p : SharedParameter) :
    (parameterRef p.key).parameter = p.toJson := by
  cases p <;> rfl

@[simp] theorem parameter_filter (p : FilterParameter) : p.toJson.parameter = p.toJson := rfl

@[simp] theorem FilterParameter.get?_name (p : FilterParameter) :
    p.toJson.get? "name" = some (.str p.name) := rfl

/-- The names and locations of an operation's parameters. -/
def Operation.parameterPlaces (o : Operation) : List (Option Json × Option Json) :=
  (o.toJson.itemsAt "parameters").map fun v => (v.parameter.get? "name", v.parameter.get? "in")

/-- **An operation tells its parameters apart** when its filters have different names. -/
theorem Endpoint.nodup_parameterPlaces {r : Routing} {e : Entity} {rules : Openness}
    {filters : List FilterParameter} (hnames : (filters.map (·.name)).Nodup)
    (hwords : ∀ p ∈ filters, ∃ word, p.name = filterNamed word) (x : Endpoint) :
    (x.operation r e rules filters).parameterPlaces.Nodup := by
  obtain ⟨own, hsub, hown⟩ := x.itemsAt_parameters r e rules filters
  -- the names alone tell them apart
  have hfirst : (x.operation r e rules filters).parameterPlaces.map Prod.fst =
      (x.shared.map SharedParameter.name ++ own.map (·.name)).map fun n => some (.str n) := by
    simp [Operation.parameterPlaces, hown, Function.comp_def]
  refine List.Nodup.of_map Prod.fst ?_
  rw [hfirst]
  refine List.Nodup.map (fun n n' h => Json.str.inj (Option.some.inj h)) ?_
  refine List.nodup_append'.2 ⟨x.nodup_shared.map SharedParameter.name_injective,
    hnames.sublist (hsub.map _), fun n hshared hfilter => ?_⟩
  obtain ⟨p, -, rfl⟩ := List.mem_map.1 hshared
  obtain ⟨q, hq, heq⟩ := List.mem_map.1 hfilter
  obtain ⟨word, hword⟩ := hwords q (hsub.subset hq)
  exact p.name_ne_filterNamed word (heq.symm.trans hword)

namespace Routing

/-- **Only three things make filters clash.** If two filters of an entity have one name, two of its
fields have one name, or the name of a field holds a dollar sign, or the entity has one identifying
field and another one is named `id`. No filter has the name of a shared parameter. An operation
among the paths of an entity tells its parameters apart, by their names and locations, if the entity
whose filters it takes has none of the three. -/
theorem parameters_told_apart (r : Routing) (e : Entity) :
    (∀ ps, r.model.filters e = .ok ps →
      (¬ (ps.map (·.name)).Nodup → e.FiltersMayClash) ∧
      ∀ p ∈ ps, ∀ s : SharedParameter, s.toJson.get? "name" ≠ some (.str p.name)) ∧
    ∀ items, r.paths e = .ok items → ∀ path item, (path, item) ∈ items → ∀ m o, (m, o) ∈ item →
      ∃ x ∈ r.endpoints e, x.Serves r e path m o ∧
        ((∀ e', x.listed? e = some e' → ¬ e'.FiltersMayClash) → o.parameterPlaces.Nodup) := by
  constructor
  · intro ps hps
    constructor
    · intro hclash
      by_contra h
      exact hclash (Model.nodup_names_of_filters h hps)
    · intro p hp s hname
      obtain ⟨word, hword⟩ := Model.exists_word_of_mem_filters hps hp
      rw [s.get?_name, Option.some.injEq, Json.str.injEq, hword] at hname
      exact s.name_ne_filterNamed word hname
  · intro items hitems path item hitem m o ho
    obtain ⟨x, hx, hserves⟩ := exists_serves hitems hitem ho
    refine ⟨x, hx, hserves, ?_⟩
    intro hsafe
    obtain ⟨rules, filters, -, hfilters, rfl⟩ := hserves.built
    rcases Endpoint.filters_cases hfilters with rfl | ⟨e', he', hfilters⟩
    · apply x.nodup_parameterPlaces <;> simp
    · apply x.nodup_parameterPlaces (Model.nodup_names_of_filters (hsafe e' he') hfilters)
      intro p hp
      exact Model.exists_word_of_mem_filters hfilters hp

end Routing

namespace Blog

/-- At the paths of a user, all operations tell their parameters apart. -/
theorem parameters_of_user_told_apart : ∃ items, generator.routing.paths user = .ok items ∧
    ∀ path item, (path, item) ∈ items → ∀ m o, (m, o) ∈ item → o.parameterPlaces.Nodup := by
  obtain ⟨items, hitems⟩ : ∃ items, generator.routing.paths user = .ok items := ⟨_, rfl⟩
  have hsafe : ∀ x ∈ generator.routing.endpoints user, ∀ e' ∈ x.listed? user,
      ¬ e'.FiltersMayClash := by decide
  refine ⟨items, hitems, fun path item hitem m o ho => ?_⟩
  obtain ⟨x, hx, -, hplaces⟩ :=
    (Routing.parameters_told_apart generator.routing user).2 items hitems path item hitem m o ho
  exact hplaces (hsafe x hx)

end Blog

end ResourceApi
