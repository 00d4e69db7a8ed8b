import ResourceApi.Loading
import ResourceApi.Proofs.WrittenSchema

/-!
# Names that declarations share

An entity, an enumeration and a structured type may have one name. Looking the name up finds the
entity before the enumeration and the enumeration before the structured type, and among equals the
first. The schema under the name is written by the last declaration of that name, enumerations
coming first, then entities, then structured types.

**Written schemas** (`stored_of_written`). Under a declared name stands the own schema of the
declaration that is written last, if no envelope has the name.

**Agreement** (`stored_iff_of_resolve`). When no two declarations of one kind share a name, an
entity is found and written before an enumeration of the name. So the schema under a name is that of
the declaration that is found, except where a structured type shares the name with another kind: its
schema stands there then, though the name is looked up as the other's.
-/

namespace ResourceApi

open Schema Json

section

variable {α : Type} {f : α → Text} {xs : List α}

theorem mem_of_find?_beq {x : α} {n : Text} (h : xs.find? (f · == n) = some x) :
    x ∈ xs ∧ f x = n :=
  ⟨List.mem_of_find?_eq_some h, by simpa using List.find?_some h⟩

theorem find?_reverse_of_nodup (h : (xs.map f).Nodup) (n : Text) :
    xs.reverse.find? (f · == n) = xs.find? (f · == n) := by
  have hfind {ys : List α} (hys : (ys.map f).Nodup) (y : α) :
      ys.find? (f · == n) = some y ↔ y ∈ ys ∧ f y = n := by
    refine ⟨mem_of_find?_beq, fun hy => ?_⟩
    obtain ⟨hmem, rfl⟩ := hy
    have hsome : (ys.find? (f · == f y)).isSome := by
      rw [List.find?_isSome]
      exact ⟨y, hmem, by simp⟩
    obtain ⟨z, hz⟩ := Option.isSome_iff_exists.1 hsome
    obtain ⟨hzmem, hzy⟩ := mem_of_find?_beq hz
    rw [hz, List.inj_on_of_nodup_map hys hzmem hmem hzy]
  have hreverse : (xs.reverse.map f).Nodup := by
    rw [List.map_reverse, List.nodup_reverse]
    exact h
  ext y
  rw [hfind hreverse, hfind h, List.mem_reverse]

end

namespace Model

variable {m : Model} {style : NullStyle} {d : Declaration} {n : Text} {schemas : Assoc Text Json}

/-! ## Two orders -/

/-- The last declaration of a name, in the order of writing. -/
def written? (m : Model) (n : Text) : Option Declaration :=
  m.declarations.reverse.find? (·.name == n)

theorem written?_eq : m.written? n = ((m.types.reverse.find? (·.name == n)).map .type).or
    (((m.entities.reverse.find? (·.name == n)).map .entity).or
      ((m.enums.reverse.find? (·.name == n)).map .enum)) := by
  simp only [written?, declarations, List.reverse_append, List.find?_append, ← List.map_reverse,
    List.find?_map]
  rfl

theorem resolve?_eq : m.resolve? n = ((m.entities.find? (·.name == n)).map .entity).or
    (((m.enums.find? (·.name == n)).map .enum).or
      ((m.types.find? (·.name == n)).map .type)) := by
  unfold resolve? entity?
  cases m.entities.find? (·.name == n) with
  | some e => rfl
  | none =>
    cases m.enums.find? (·.name == n) with
    | some d => rfl
    | none => rfl

theorem mem_of_resolve (h : m.resolve? n = some d) : d ∈ m.declarations ∧ d.name = n := by
  simp only [resolve?_eq, Option.or_eq_some_iff, Option.map_eq_some_iff] at h
  rw [mem_declarations_iff]
  rcases h with ⟨e, he, rfl⟩ | ⟨-, ⟨x, hx, rfl⟩ | ⟨-, x, hx, rfl⟩⟩
  · obtain ⟨hmem, hname⟩ := mem_of_find?_beq he
    exact ⟨.inr (.inl ⟨e, hmem, rfl⟩), hname⟩
  · obtain ⟨hmem, hname⟩ := mem_of_find?_beq hx
    exact ⟨.inl ⟨x, hmem, rfl⟩, hname⟩
  · obtain ⟨hmem, hname⟩ := mem_of_find?_beq hx
    exact ⟨.inr (.inr ⟨x, hmem, rfl⟩), hname⟩

theorem mem_declaredNames_of_resolve (h : m.resolve? n = some d) : n ∈ m.declaredNames := by
  obtain ⟨hmem, rfl⟩ := mem_of_resolve h
  exact mem_declaredNames_of_mem hmem

theorem resolve?_of_entity {e : Entity} (h : m.entity? n = some e) :
    m.resolve? n = some (.entity e) := by
  rw [resolve?, h]

theorem exists_written_of_resolve (h : m.resolve? n = some d) :
    ∃ last, m.written? n = some last := by
  obtain ⟨hmem, hname⟩ := mem_of_resolve h
  rw [← Option.isSome_iff_exists, written?, List.find?_isSome]
  exact ⟨d, List.mem_reverse.2 hmem, by simp [hname]⟩

theorem exists_split_of_written (h : m.written? n = some d) : ∃ before after,
    m.declarations = before ++ d :: after ∧ d.name = n ∧ ∀ d' ∈ after, d'.name ≠ n := by
  obtain ⟨hname, front, back, hsplit, hfront⟩ := List.find?_eq_some_iff_append.1 h
  refine ⟨back.reverse, front.reverse, ?_, by simpa using hname, ?_⟩
  · rw [← List.reverse_reverse m.declarations, hsplit]
    simp
  · intro d' hd'
    simpa using hfront d' (List.mem_reverse.1 hd')

theorem exists_type_of_written {t : TypeDecl} (ht : t ∈ m.types) :
    ∃ last, m.written? t.name = some (.type last) := by
  have hsome : (m.types.reverse.find? (·.name == t.name)).isSome := by
    rw [List.find?_isSome]
    exact ⟨t, List.mem_reverse.2 ht, by simp⟩
  obtain ⟨last, hlast⟩ := Option.isSome_iff_exists.1 hsome
  exact ⟨last, by rw [written?_eq, hlast, Option.map_some, Option.some_or]⟩

/-- No two declarations of one kind have the same name. -/
structure KindsDistinct (m : Model) : Prop where
  entities : (m.entities.map (·.name)).Nodup
  enums : (m.enums.map (·.name)).Nodup
  types : (m.types.map (·.name)).Nodup

instance : Decidable m.KindsDistinct :=
  decidable_of_iff ((m.entities.map (·.name)).Nodup ∧ (m.enums.map (·.name)).Nodup ∧
    (m.types.map (·.name)).Nodup)
    ⟨fun ⟨hentities, henums, htypes⟩ => ⟨hentities, henums, htypes⟩,
      fun h => ⟨h.entities, h.enums, h.types⟩⟩

/-- **What is found is written last**, unless a structured type of the name comes after it. -/
theorem KindsDistinct.written_of_resolve (hkinds : m.KindsDistinct) (h : m.resolve? n = some d)
    (hcases : (∃ t, d = .type t) ∨ ∀ t ∈ m.types, t.name ≠ n) : m.written? n = some d := by
  rw [resolve?_eq] at h
  rw [written?_eq, find?_reverse_of_nodup hkinds.entities, find?_reverse_of_nodup hkinds.enums,
    find?_reverse_of_nodup hkinds.types]
  rcases hcases with ⟨t, rfl⟩ | hfree
  · simp only [Option.or_eq_some_iff, Option.map_eq_some_iff, Option.map_eq_none_iff,
      reduceCtorEq, and_false, exists_false, false_or] at h
    obtain ⟨-, -, t', ht, heq⟩ := h
    rw [ht, Option.map_some, Option.some_or, heq]
  · have hnone : m.types.find? (·.name == n) = none := by simpa using hfree
    rw [hnone, Option.map_none, Option.or_none] at h
    rw [hnone, Option.map_none, Option.none_or, h]

/-! ## Stored schemas -/

/-- The schema under the name is the own one of the declaration. -/
def Stored (m : Model) (style : NullStyle) (schemas : Assoc Text Json) (n : Text)
    (d : Declaration) : Prop :=
  ∃ s, m.ownSchema style d = .ok s ∧ Assoc.get? schemas n = some s

/-- **The declaration that is written last has its schema stored**, if no envelope has the name. -/
theorem stored_of_written (h : m.componentSchemas style = .ok schemas)
    (hapart : ∀ e ∈ m.entities, n ∉ e.envelopeNames) (hd : m.written? n = some d) :
    m.Stored style schemas n d := by
  obtain ⟨before, after, hm, rfl, hafter⟩ := exists_split_of_written hd
  have hmem : d ∈ m.declarations := hm ▸ List.mem_append_right _ List.mem_cons_self
  obtain ⟨block, hblock⟩ := exists_block_of_componentSchemas h hmem
  obtain ⟨own, envelopes, hown, rfl, -⟩ := exists_own_of_declarationSchemas hblock
  refine ⟨own, hown, get?_of_last_write h hm hblock List.mem_cons_self fun d' hd' hn => ?_⟩
  have hmem' : d' ∈ m.declarations := hm ▸ List.mem_append_right _ (List.mem_cons_of_mem _ hd')
  rcases List.mem_cons.1 hn with heq | hn
  · exact hafter d' hd' heq.symm
  · obtain ⟨e, he, -, hn⟩ := exists_entity_of_mem_envelopeNames hmem' hn
    exact hapart e he hn

theorem exists_type_of_ownSchema_eq {t : TypeDecl} {s : Json} (ht : m.typeSchema style t = .ok s)
    (hd : m.ownSchema style d = .ok s) : ∃ t', d = .type t' := by
  obtain ⟨properties, -, rfl⟩ := map_eq_ok_iff.1 ht
  cases d with
  | type t' => exact ⟨t', rfl⟩
  | «enum» x =>
    -- only an enumeration lists its values
    have hvalues := congrArg (Except.map (Json.get? · "enum")) hd
    simp [ownSchema, EnumDecl.schema, Except.map, Json.get?, Assoc.get?_cons,
      Text.ofString_inj] at hvalues
  | entity e =>
    obtain ⟨attributes, -, hd⟩ := bind_eq_ok_iff.1 hd
    obtain ⟨id, -, hd⟩ := bind_eq_ok_iff.1 hd
    -- a structured type has no members that must be given
    have hrequired := congrArg (Except.map (Json.get? · "required")) hd
    simp [pure, Except.pure, resourceObject, Except.map, Json.get?, Assoc.get?_cons,
      Text.ofString_inj] at hrequired

/-- **What is found has its schema stored**, unless a structured type of the name replaces it. -/
theorem stored_iff_of_resolve (h : m.componentSchemas style = .ok schemas)
    (hapart : ∀ e ∈ m.entities, n ∉ e.envelopeNames) (hkinds : m.KindsDistinct)
    (hd : m.resolve? n = some d) :
    m.Stored style schemas n d ↔ (∃ t, d = .type t) ∨ ∀ t ∈ m.types, t.name ≠ n := by
  constructor
  · intro hstored
    obtain ⟨s, hown, hget⟩ := hstored
    refine or_iff_not_imp_right.2 fun hshadowed => ?_
    push Not at hshadowed
    obtain ⟨t, ht, rfl⟩ := hshadowed
    obtain ⟨last, hlast⟩ := exists_type_of_written ht
    obtain ⟨s', hown', hget'⟩ := stored_of_written h hapart hlast
    cases hget.symm.trans hget'
    exact exists_type_of_ownSchema_eq hown' hown
  · intro hcases
    exact stored_of_written h hapart (hkinds.written_of_resolve hd hcases)

/-! ## Loaded models -/

theorem checkReferences_of_load {file : Location} {text : String} {reader : Yaml.Reader}
    (h : Model.load file text reader = .ok m) : m.checkReferences = .ok () := by
  obtain ⟨v, -, h⟩ := bind_eq_ok_iff.1 h
  obtain ⟨doc, -, h⟩ := bind_eq_ok_iff.1 h
  obtain ⟨m', -, h⟩ := bind_eq_ok_iff.1 h
  obtain ⟨⟨⟩, hrefs, h⟩ := bind_eq_ok_iff.1 h
  cases h
  exact mapError_eq_ok_iff.1 hrefs

/-- **A name that is found in a loaded model** has the schema of the declaration that is written
last. If no two declarations of one kind share a name, that is the declaration that is found, unless
a structured type has the name and something else is found. -/
theorem resolved_schema_stored_iff {file : Location} {text : String} {reader : Yaml.Reader}
    {m : Model} {style : NullStyle} (hload : Model.load file text reader = .ok m)
    (hapart : ∀ n ∈ m.declaredNames, ∀ e ∈ m.entities, n ∉ e.envelopeNames) :
    ∃ schemas, m.componentSchemas style = .ok schemas ∧ ∀ n d, m.resolve? n = some d →
      (∃ last, m.written? n = some last ∧ m.Stored style schemas n last) ∧
      (m.KindsDistinct → (m.Stored style schemas n d ↔
        (∃ t, d = .type t) ∨ ∀ t ∈ m.types, t.name ≠ n)) := by
  obtain ⟨schemas, h⟩ := succeeds_componentSchemas_iff.2 (checkReferences_of_load hload)
  refine ⟨schemas, h, fun n d hd => ?_⟩
  have hn := hapart n (mem_declaredNames_of_resolve hd)
  obtain ⟨last, hlast⟩ := exists_written_of_resolve hd
  exact ⟨⟨last, hlast, stored_of_written h hn hlast⟩, fun hkinds =>
    stored_iff_of_resolve h hn hkinds hd⟩

end Model

/-! ## A blog with names of two kinds -/

namespace Blog

/-- A definition file whose entities share the names of an enumeration and of a structured type. -/
def moodsAndTags : String := "entities:
  Mood:
  Tag:
enums:
  Mood: [calm, glad]
typedefs:
  Tag:
"

theorem load_moodsAndTags : ∃ m, Model.load ⟨"", ["blog.yaml"]⟩ moodsAndTags = .ok m ∧
    (∀ n ∈ m.declaredNames, n ∉ sharedNames ∧ ∀ e ∈ m.entities, n ∉ e.envelopeNames) ∧
    m.KindsDistinct ∧ (m.entity? "Mood").isSome ∧ (m.entity? "Tag").isSome ∧
    (∀ t ∈ m.types, t.name ≠ "Mood") ∧ ∃ t ∈ m.types, t.name = "Tag" :=
  exists_ok_of_any (by decide +kernel)

/-- Moods have the schema of the entity, under which they are looked up; tags have not. -/
theorem tag_shadowed : ∃ m schemas mood tag,
    Model.load ⟨"", ["blog.yaml"]⟩ moodsAndTags = .ok m ∧
    m.componentSchemas .flag = .ok schemas ∧
    m.resolve? "Mood" = some (.entity mood) ∧ m.Stored .flag schemas "Mood" (.entity mood) ∧
    m.resolve? "Tag" = some (.entity tag) ∧ ¬ m.Stored .flag schemas "Tag" (.entity tag) := by
  obtain ⟨m, hload, hapart, hkinds, hmood, htag, hfree, t, ht, hname⟩ := load_moodsAndTags
  obtain ⟨schemas, h, hstored⟩ :=
    @Model.resolved_schema_stored_iff _ _ _ _ .flag hload fun n hn => (hapart n hn).2
  obtain ⟨mood, hmood⟩ := Option.isSome_iff_exists.1 hmood
  obtain ⟨tag, htag⟩ := Option.isSome_iff_exists.1 htag
  have hmood' := Model.resolve?_of_entity hmood
  have htag' := Model.resolve?_of_entity htag
  refine ⟨m, schemas, mood, tag, hload, h, hmood', ?_, htag', ?_⟩
  · exact ((hstored _ _ hmood').2 hkinds).2 (.inr hfree)
  · intro hentity
    rcases ((hstored _ _ htag').2 hkinds).1 hentity with ⟨t', heq⟩ | hfree'
    · cases heq
    · exact hfree' t ht hname

/-- **Not every name has the schema of what is found under it.** -/
theorem not_all_resolved_stored : ¬ ∀ (file : Location) (text : String) (m : Model)
    (style : NullStyle) (schemas : Assoc Text Json), Model.load file text = .ok m →
    (∀ n ∈ m.declaredNames, n ∉ sharedNames ∧ ∀ e ∈ m.entities, n ∉ e.envelopeNames) →
    m.componentSchemas style = .ok schemas → ∀ n d, Primitive.ofName? n = none →
      m.resolve? n = some d → m.Stored style schemas n d := by
  intro hall
  obtain ⟨m, hload, hapart, hkinds, -, htag, -, t, ht, hname⟩ := load_moodsAndTags
  obtain ⟨schemas, h⟩ : ∃ schemas, m.componentSchemas .flag = .ok schemas :=
    Model.succeeds_componentSchemas_iff.2 (Model.checkReferences_of_load hload)
  obtain ⟨tag, htag⟩ := Option.isSome_iff_exists.1 htag
  have htag' := Model.resolve?_of_entity htag
  have hentity := hall _ _ m .flag schemas hload hapart h "Tag" _ (by decide) htag'
  have hn : ∀ e ∈ m.entities, ("Tag" : Text) ∉ e.envelopeNames :=
    (hapart "Tag" (Model.mem_declaredNames_of_resolve htag')).2
  rcases (Model.stored_iff_of_resolve h hn hkinds htag').1 hentity with ⟨t', heq⟩ | hfree
  · cases heq
  · exact hfree t ht hname

end Blog

end ResourceApi
