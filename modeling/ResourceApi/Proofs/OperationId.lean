import ResourceApi.Proofs.Endpoint
import ResourceApi.Proofs.Words

/-!
# Operation ids

The id of an operation is a list of words with hyphens between them: a verb, the name of the
entity, and what else tells its endpoint from the others. An update is the odd one out, it goes by
the name that its entity has in paths.

**Words tell positions apart** (`position_eq_of_words_eq`). Endpoints with the same words have the
same path and the same method, because the path depends on names only.

**Ids tell operations apart** (`operation_ids_distinct`). Without hyphens in names the words can be
read back from an id, so two operations of a document with one id stand at one position. Names need
not be distinct for that, nor do the names that entities go by: what shares a position was
overwritten.
-/

namespace ResourceApi

/-! ## Positions -/

/-- The operations of a document, each with its path and method. -/
def Document.operations (d : Document) : List ((Text × Method) × Operation) :=
  d.paths.flatMap fun p => p.2.map fun o => ((p.1, o.1), o.2)

theorem Document.mem_operations_iff {d : Document} {path : Text} {m : Method} {o : Operation} :
    ((path, m), o) ∈ d.operations ↔ ∃ item, (path, item) ∈ d.paths ∧ (m, o) ∈ item := by
  simp only [operations, List.mem_flatMap, List.mem_map, Prod.mk.injEq]
  constructor
  · intro hparts
    obtain ⟨⟨path', item⟩, hitem, ⟨m', o'⟩, ho, ⟨rfl, rfl⟩, rfl⟩ := hparts
    exact ⟨item, hitem, ho⟩
  · intro hparts
    obtain ⟨item, hitem, ho⟩ := hparts
    exact ⟨(path, item), hitem, (m, o), ho, ⟨rfl, rfl⟩, rfl⟩

theorem Generator.exists_serves_of_mem_operations {g : Generator} {d : Document}
    (h : g.document = .ok d) {a : (Text × Method) × Operation} (ha : a ∈ d.operations) :
    ∃ e ∈ g.covered, ∃ x ∈ g.routing.endpoints e, x.Serves g.routing e a.1.1 a.1.2 a.2 := by
  obtain ⟨⟨path, m⟩, o⟩ := a
  obtain ⟨item, hitem, ho⟩ := Document.mem_operations_iff.1 ha
  exact exists_serves_of_document h hitem ho

theorem Generator.nodup_positions {g : Generator} {d : Document} (h : g.document = .ok d) :
    (d.operations.map Prod.fst).Nodup := by
  have hmethods : ∀ p ∈ d.paths, (p.2.map Prod.fst).Nodup := by
    intro p hp
    obtain ⟨e, -, items, hitems, hp⟩ := exists_entity_of_mem_paths (paths_of_document h) hp
    exact (Routing.methods_of_mem_paths hitems hp).1
  have hpaths : d.paths.Pairwise fun p q => p.1 ≠ q.1 :=
    List.pairwise_map.1 (nodup_keys_document h)
  rw [Document.operations, List.map_flatMap, List.nodup_flatMap]
  refine ⟨fun p hp => ?_, hpaths.imp fun {p q} hne => ?_⟩
  · rw [List.map_map]
    refine List.Nodup.of_map Prod.snd ?_
    rw [List.map_map]
    exact hmethods p hp
  · intro position hp hq
    simp only [List.mem_map] at hp hq
    obtain ⟨-, ⟨o, -, rfl⟩, rfl⟩ := hp
    obtain ⟨-, ⟨o', -, rfl⟩, heq⟩ := hq
    exact hne (congrArg Prod.fst heq).symm

/-! ## Words -/

namespace Endpoint

variable {r : Routing} {e e' : Entity}

/-- What the id of an endpoint's operation says. -/
def words (r : Routing) (e : Entity) : Endpoint → List Text
  | .list => ["list", e.name]
  | .create => ["create", e.name]
  | .fetch => ["fetch", e.name]
  | .update m => ["update", r.mappedName e, m.name]
  | .delete => ["delete", e.name]
  | .related f _ => ["fetch", e.name, "related", f.name]
  | .linkage f _ => ["fetch", e.name, "relationship", f.name]
  | .relink f _ m => ["update", e.name, "relationship", f.name, m.name]
  | .link f _ => ["create", e.name, "relationship", f.name]

theorem words_ne_nil (x : Endpoint) : x.words r e ≠ [] := by
  cases x <;> exact List.cons_ne_nil _ _

theorem operation_id (rules : Openness) (filters : List FilterParameter) (x : Endpoint) :
    (x.operation r e rules filters).id = Text.join "-" (x.words r e) := by
  rw [← Text.points_inj, Text.points_join]
  cases x <;> simp [operation, words, Routing.list, Routing.create, Routing.fetch, Routing.update,
    Routing.delete, Routing.fetchRelated, Routing.fetchRelationship, Routing.updateRelationship,
    Routing.createRelationship, List.intercalate]

end Endpoint

theorem Method.name_injective : Function.Injective Method.name := by
  intro m m' h
  cases m <;> cases m' <;> simp [Method.name, Text.ofString_inj] at h ⊢

namespace Endpoint

variable {r : Routing} {e e' : Entity}

theorem base_congr (h : e.name = e'.name) : r.base e = r.base e' := by
  rw [Routing.base, Routing.base, Routing.mappedName, Routing.mappedName, h]

/-- **Words tell positions apart.** -/
theorem position_eq_of_words_eq {x y : Endpoint} (h : x.words r e = y.words r e') :
    x.path r e = y.path r e' ∧ x.method = y.method := by
  -- Different kinds of endpoints differ in a verb, in the third word or in the number of words.
  cases x <;> cases y <;>
    simp only [words, Text.ofString_inj, List.cons.injEq, String.reduceEq, reduceCtorEq, and_false,
      false_and, and_true, true_and] at h
  case list.list | create.create => exact ⟨base_congr h, rfl⟩
  case fetch.fetch | delete.delete => exact ⟨congrArg Routing.itemPath (base_congr h), rfl⟩
  case update.update =>
    obtain ⟨hmapped, hm⟩ := h
    have hbase : r.base e = r.base e' := by rw [Routing.base, Routing.base, hmapped]
    exact ⟨congrArg Routing.itemPath hbase, Method.name_injective hm⟩
  case related.related =>
    obtain ⟨hname, hf⟩ := h
    exact ⟨by rw [path, path, Routing.relatedPath, Routing.relatedPath, base_congr hname, hf], rfl⟩
  case linkage.linkage | link.link =>
    obtain ⟨hname, hf⟩ := h
    refine ⟨?_, rfl⟩
    rw [path, path, Routing.relationshipPath, Routing.relationshipPath, base_congr hname, hf]
  case relink.relink =>
    obtain ⟨hname, hf, hm⟩ := h
    refine ⟨?_, Method.name_injective hm⟩
    rw [path, path, Routing.relationshipPath, Routing.relationshipPath, base_congr hname, hf]

end Endpoint

/-! ## Hyphens -/

/-- The text holds a hyphen. -/
def Text.Hyphenated (t : Text) : Prop := .char '-' ∈ t.points

theorem Text.hyphenated_ofString {s : String} : (Text.ofString s).Hyphenated ↔ '-' ∈ s.toList := by
  simp [Hyphenated]

theorem Method.not_hyphenated_name (m : Method) : ¬ m.name.Hyphenated := by
  cases m <;> simp [name, Text.hyphenated_ofString]

/-- Some name that the ids of an entity's operations are built from holds a hyphen: its own name,
the name it goes by, or the name of a relationship. -/
def Routing.Hyphenated (r : Routing) (e : Entity) : Prop :=
  e.name.Hyphenated ∨ (r.mappedName e).Hyphenated ∨
    ∃ f ∈ e.fields, r.model.isRelationship f = true ∧ f.name.Hyphenated

theorem Endpoint.not_hyphenated_of_mem_words {r : Routing} {e : Entity} (he : ¬ r.Hyphenated e)
    {x : Endpoint} (hx : x ∈ r.endpoints e) : ∀ w ∈ x.words r e, ¬ w.Hyphenated := by
  have hname : ¬ e.name.Hyphenated := fun h => he (.inl h)
  have hmapped : ¬ (r.mappedName e).Hyphenated := fun h => he (.inr (.inl h))
  have hfield (f : Field) (target : Entity) (hroute : x.route? = some (f, target)) :
      ¬ f.name.Hyphenated := by
    intro h
    obtain ⟨hf, hrelationship, -⟩ :=
      Routing.mem_routes_iff.1 (Routing.mem_routes_of_mem_endpoints hx hroute)
    exact he (.inr (.inr ⟨f, hf, hrelationship, h⟩))
  cases x with
  | list | create | fetch | delete => simp [words, Text.hyphenated_ofString, hname]
  | update m => simp [words, Text.hyphenated_ofString, hmapped, m.not_hyphenated_name]
  | related f target | linkage f target | link f target =>
    simp [words, Text.hyphenated_ofString, hname, hfield f target rfl]
  | relink f target m =>
    simp [words, Text.hyphenated_ofString, hname, hfield f target rfl, m.not_hyphenated_name]

/-- Endpoints with one id stand at one position, if the names of their entities hold no hyphen. -/
theorem Endpoint.position_eq_of_id_eq {r : Routing} {e e' : Entity} {x y : Endpoint}
    (he : ¬ r.Hyphenated e) (he' : ¬ r.Hyphenated e') (hx : x ∈ r.endpoints e)
    (hy : y ∈ r.endpoints e') {rules rules' : Openness} {filters filters' : List FilterParameter}
    (h : (x.operation r e rules filters).id = (y.operation r e' rules' filters').id) :
    x.path r e = y.path r e' ∧ x.method = y.method := by
  rw [operation_id, operation_id] at h
  exact position_eq_of_words_eq (Text.join_injective (words_ne_nil x) (words_ne_nil y)
    (not_hyphenated_of_mem_words he hx) (not_hyphenated_of_mem_words he' hy) h)

namespace Generator

variable {g : Generator} {d : Document}

theorem position_eq_of_id_eq (h : g.document = .ok d) (hnames : ∀ e ∈ g.covered,
    ¬ g.routing.Hyphenated e) {a b : (Text × Method) × Operation} (ha : a ∈ d.operations)
    (hb : b ∈ d.operations) (hid : a.2.id = b.2.id) : a.1 = b.1 := by
  obtain ⟨e, he, x, hx, hpath, hm, rules, filters, -, -, ho⟩ := exists_serves_of_mem_operations h ha
  obtain ⟨e', he', y, hy, hpath', hm', rules', filters', -, -, ho'⟩ :=
    exists_serves_of_mem_operations h hb
  rw [ho, ho'] at hid
  obtain ⟨hpaths, hmethods⟩ :=
    Endpoint.position_eq_of_id_eq (hnames e he) (hnames e' he') hx hy hid
  exact Prod.ext (hpath.trans (hpaths.trans hpath'.symm)) (hm.trans (hmethods.trans hm'.symm))

/-- **Ids tell operations apart, as far as names hold no hyphen.** Where two positions of a document
have one id, a covered entity has a hyphen in its name, in the name it goes by, or in the name of a
relationship; without such hyphens all ids are distinct. -/
theorem operation_ids_distinct (h : g.document = .ok d) :
    (∀ a ∈ d.operations, ∀ b ∈ d.operations, a.1 ≠ b.1 → a.2.id = b.2.id →
      ∃ e ∈ g.covered, g.routing.Hyphenated e) ∧
    ((∀ e ∈ g.covered, ¬ g.routing.Hyphenated e) → (d.operations.map (·.2.id)).Nodup) := by
  constructor
  · intro a ha b hb hne hid
    by_contra hnone
    push Not at hnone
    exact hne (position_eq_of_id_eq h hnone ha hb hid)
  · intro hnames
    have hpositions := nodup_positions h
    refine List.Nodup.map_on (fun a ha b hb hid => ?_) (List.Nodup.of_map _ hpositions)
    exact List.inj_on_of_nodup_map hpositions ha hb (position_eq_of_id_eq h hnames ha hb hid)

end Generator

/-- The names of the blog hold no hyphen. -/
theorem Blog.operation_ids_nodup : ∃ d, generator.document = .ok d ∧
    (d.operations.map (·.2.id)).Nodup := by
  obtain ⟨d, hd⟩ : ∃ d, generator.document = .ok d := ⟨_, rfl⟩
  refine ⟨d, hd, (Generator.operation_ids_distinct hd).2 ?_⟩
  unfold Routing.Hyphenated Text.Hyphenated
  decide

end ResourceApi
