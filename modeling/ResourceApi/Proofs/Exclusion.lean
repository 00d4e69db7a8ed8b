import ResourceApi.Proofs.ResolvedReference
import ResourceApi.Proofs.WrittenSchema
import Mathlib.Data.List.Pairwise

/-!
# Entities that a document does not cover

The schemas of every entity are built, whether the document covers the entity or not; pruning drops
those that the paths do not lead to. Which these are can be read off the edges between schemas, when
no two schemas of the model share a name.

**Envelopes** (`not_linked_envelope`). No edge ends in an envelope, so an envelope can only be
mentioned by the paths themselves, and they mention none but those of covered entities.

**Entities** (`not_linked_schemaNames`). An edge that ends in an entity starts from its own
responses, or comes from an id or a structured type. Where ids and structured types refer to no
entity, no chain enters the schemas of an entity that is not covered: the induction is on the chain,
and its first name belongs to no such entity.
-/

namespace ResourceApi

open Schema Json

/-! ## Distinct names -/

namespace Model

variable {m : Model} {e e' : Entity} {n : Text}

theorem not_mem_plainNames_of_entity (h : m.schemaNames.Nodup) (he : e ∈ m.entities)
    (hn : n ∈ e.schemaNames) : n ∉ m.plainNames := by
  have hentity : n ∈ m.entities.flatMap Entity.schemaNames := List.mem_flatMap.2 ⟨e, he, hn⟩
  obtain ⟨hfront, -, hback⟩ := List.nodup_append.1 h
  obtain ⟨-, -, hmiddle⟩ := List.nodup_append.1 hfront
  intro hplain
  rcases List.mem_append.1 hplain with hplain | htype
  · exact hmiddle n hplain n hentity rfl
  · exact hback n (List.mem_append_right _ hentity) n htype rfl

theorem eq_of_mem_schemaNames (h : m.schemaNames.Nodup) (he : e ∈ m.entities)
    (he' : e' ∈ m.entities) (hn : n ∈ e.schemaNames) (hn' : n ∈ e'.schemaNames) : e = e' := by
  obtain ⟨hfront, -, -⟩ := List.nodup_append.1 h
  obtain ⟨-, hentities, -⟩ := List.nodup_append.1 hfront
  obtain ⟨-, hpairwise⟩ := List.nodup_flatMap.1 hentities
  have hsymm : Std.Symm (Function.onFun List.Disjoint Entity.schemaNames) :=
    ⟨fun _ _ hdisjoint _ hb ha => hdisjoint ha hb⟩
  by_contra hne
  exact hpairwise.forall he he' hne hn hn'

end Model

theorem Entity.mem_schemaNames_of_envelope {e : Entity} {n : Text} (h : n ∈ e.envelopeNames) :
    n ∈ e.schemaNames :=
  List.mem_cons_of_mem _ h

theorem Entity.name_not_mem_envelopeNames (e : Entity) : e.name ∉ e.envelopeNames :=
  (List.nodup_cons.1 e.nodup_schemaNames).1

/-! ## Chains from the paths -/

namespace Generator

variable {g : Generator} {d : Document} {x : Entity} {n : Text}

/-- The entity is ignored, or the options name other entities. -/
def Excludes (g : Generator) (x : Entity) : Prop :=
  x.ignored = true ∨ ∃ names, g.options.included = some names ∧ x.name ∉ names

theorem Excludes.not_mem_covered (h : g.Excludes x) : x ∉ g.covered := by
  intro hx
  unfold covered at hx
  rcases h with hignored | ⟨names, hnames, hname⟩
  · have hkept : x ∈ g.model.entities.filter (!·.ignored) := by
      split at hx
      · exact hx
      · exact (List.mem_filter.1 hx).1
    simp [hignored] at hkept
  · rw [hnames] at hx
    exact hname (by simpa using (List.mem_filter.1 hx).2)

theorem not_mentions_excluded (h : g.document = .ok d) (hnames : g.model.schemaNames.Nodup)
    (hx : x ∈ g.model.entities) (hout : g.Excludes x) (hn : n ∈ x.schemaNames) :
    ¬ (pathsJson d.paths).Mentions n := by
  intro hmention
  rcases mentions_paths_cases h hmention with hplain | ⟨e, he, hne⟩
  · exact Model.not_mem_plainNames_of_entity hnames hx hn hplain
  · have heq : e = x :=
      Model.eq_of_mem_schemaNames hnames (g.covered_sublist.subset he) hx hne hn
    exact hout.not_mem_covered (heq ▸ he)

/-- **No chain leads to an envelope** of an entity that is not covered. -/
theorem not_linked_envelope {schemas : Assoc Text Json} (h : g.document = .ok d)
    (hschemas : g.model.componentSchemas g.nullStyle = .ok schemas)
    (hnames : g.model.schemaNames.Nodup) (hx : x ∈ g.model.entities) (hout : g.Excludes x)
    (hn : n ∈ x.envelopeNames) : ¬ Linked (pathsJson d.paths) schemas n := by
  have hschema : n ∈ x.schemaNames := Entity.mem_schemaNames_of_envelope hn
  intro hlinked
  cases hlinked with
  | root hmention => exact not_mentions_excluded h hnames hx hout hschema hmention
  | step _ hs hmention =>
    have hedge := Model.leadsTo_of_mentions hschemas (Assoc.mem_of_get? hs) hmention
    rcases hedge.cases with hplain | ⟨e, he, rfl⟩
    · exact Model.not_mem_plainNames_of_entity hnames hx hschema hplain
    · have heq : e = x := Model.eq_of_mem_schemaNames hnames he hx List.mem_cons_self hschema
      exact x.name_not_mem_envelopeNames (heq ▸ hn)

/-- **No chain enters the schemas of an entity that is not covered**, where ids and structured types
refer to no entity. -/
theorem not_linked_schemaNames {schemas : Assoc Text Json} (h : g.document = .ok d)
    (hschemas : g.model.componentSchemas g.nullStyle = .ok schemas)
    (hnames : g.model.schemaNames.Nodup) (hx : x ∈ g.model.entities) (hout : g.Excludes x)
    (htypes : ∀ t ∈ g.model.types, ∀ f ∈ t.fields, g.model.isRelationship f = false)
    (hids : ∀ e ∈ g.model.entities, ∀ f ∈ e.idFields, g.model.isRelationship f = false)
    (hlinked : Linked (pathsJson d.paths) schemas n) : n ∉ x.schemaNames := by
  have hplain {n : Text} (h : n ∈ g.model.plainNames) : n ∉ x.schemaNames :=
    fun hn => Model.not_mem_plainNames_of_entity hnames hx hn h
  induction hlinked with
  | root hmention => exact fun hn => not_mentions_excluded h hnames hx hout hn hmention
  | step _ hs hmention ih =>
    have hedge := Model.leadsTo_of_mentions hschemas (Assoc.mem_of_get? hs) hmention
    cases hedge with
    | plain hn => exact hplain hn
    | @response e he hk =>
      intro hn
      have heq : e = x := Model.eq_of_mem_schemaNames hnames he hx List.mem_cons_self hn
      rw [← heq] at ih
      refine ih ?_
      simp only [List.mem_cons, List.not_mem_nil, or_false] at hk
      rcases hk with rfl | rfl <;> simp [Entity.schemaNames]
    | @id e f _ he _ hf href =>
      have hid : f ∈ e.idFields := Entity.soleId?_eq_some_iff.1 hf ▸ List.mem_singleton_self f
      exact hplain (href.mem_plainNames (hids e he f hid))
    | field ht _ hf href => exact hplain (href.mem_plainNames (htypes _ ht _ hf))

/-- **Entities that are not covered leave no trace.** The document holds none of their envelopes;
and if no structured type and no id refers to an entity, it does not hold their own schemas either,
whatever relationships to them there are. -/
theorem excluded_leave_no_trace (h : g.document = .ok d) (hnames : g.model.schemaNames.Nodup)
    (hx : x ∈ g.model.entities) (hout : g.Excludes x) :
    (∀ n ∈ x.envelopeNames, n ∉ Assoc.keys d.schemas) ∧
      ((∀ t ∈ g.model.types, ∀ f ∈ t.fields, g.model.isRelationship f = false) →
        (∀ e ∈ g.model.entities, ∀ f ∈ e.idFields, g.model.isRelationship f = false) →
          x.name ∉ Assoc.keys d.schemas) := by
  obtain ⟨schemas, hschemas, hd⟩ := schemas_of_document h
  rw [hd]
  constructor
  · intro n hn hkey
    exact not_linked_envelope h hschemas hnames hx hout hn (linked_of_mem_keys_prune hkey)
  · intro htypes hids hkey
    exact not_linked_schemaNames h hschemas hnames hx hout htypes hids
      (linked_of_mem_keys_prune hkey) List.mem_cons_self

end Generator

namespace Blog

/-- The blog narrowed to its posts, which have users as their authors. -/
def postsOnly : Generator :=
  { generator with options := { generator.options with included := some ["Post"] } }

/-- Nothing of users is in the document of posts. -/
theorem users_left_out : ∃ d, postsOnly.document = .ok d ∧
    (∃ f ∈ post.fields, postsOnly.model.isRelationship f = true ∧ f.typeName = user.name) ∧
    (∀ n ∈ user.envelopeNames, n ∉ Assoc.keys d.schemas) ∧ user.name ∉ Assoc.keys d.schemas := by
  obtain ⟨d, hd⟩ : ∃ d, postsOnly.document = .ok d := ⟨_, rfl⟩
  have hnames : postsOnly.model.schemaNames.Nodup := by
    simp [postsOnly, generator, post, user, Model.schemaNames, sharedNames, Entity.schemaNames,
      Entity.createRequest, Entity.updateRequest, Entity.response, Entity.listResponse,
      ← Text.ofString_append, Text.ofString_inj]
  have huser : user ∈ postsOnly.model.entities := List.mem_cons_of_mem _ List.mem_cons_self
  have hout : postsOnly.Excludes user := .inr ⟨["Post"], rfl, by decide⟩
  obtain ⟨henvelopes, hown⟩ := Generator.excluded_leave_no_trace hd hnames huser hout
  refine ⟨d, hd, by decide +kernel, henvelopes, hown (List.forall_mem_nil _) ?_⟩
  decide +kernel

end Blog

end ResourceApi
