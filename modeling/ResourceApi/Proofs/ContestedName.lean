import ResourceApi.Proofs.WrittenSchema

/-!
# Contested names

The names of an entity's envelopes are made by putting endings behind its name, so two declarations
of different names can give the same name to schemas. Such a name is *contested*: it is that of an
envelope of an entity, and it is declared as well, or it is that of the entity's list response and
there is an entity whose name has `List` behind it (`contested_of_name_ne`).

**Stored schemas** (`stored_iff_last_write`). When the declared names are distinct and do not begin
as shared ones do, the shared schemas are stored, and a schema of a declaration is stored exactly
when no later declaration writes its name, and so wherever its name is not contested. The last write
matters, because two declarations never write the same schema (`schema_ne_of_name_ne`).
-/

namespace ResourceApi

open Schema Json

/-! ## Reserved names -/

/-- The name begins with an underscore, as the names of shared schemas do. -/
def Schema.IsReserved (n : Text) : Prop := n.points.head? = some (.char '_')

instance (n : Text) : Decidable (IsReserved n) :=
  inferInstanceAs (Decidable (n.points.head? = some (.char '_')))

theorem isReserved_of_shared {n : Text} (h : n ∈ sharedNames) : IsReserved n := by
  simp only [sharedNames, List.mem_cons, List.not_mem_nil, or_false] at h
  rcases h with rfl | rfl | rfl | rfl | rfl | rfl | rfl | rfl | rfl | rfl | rfl | rfl | rfl | rfl |
    rfl | rfl | rfl | rfl <;> rfl

theorem not_isReserved_append {s t : Text} (hs : ¬ IsReserved s) (ht : ¬ IsReserved t) :
    ¬ IsReserved (s ++ t) := by
  unfold IsReserved at *
  rw [Text.points_append, List.head?_append]
  cases hpoints : s.points.head? with
  | none => exact ht
  | some c =>
    rw [hpoints] at hs
    exact hs

theorem Declaration.not_isReserved {d : Declaration} (h : ¬ IsReserved d.name) {n : Text}
    (hn : n ∈ d.schemaNames) : ¬ IsReserved n := by
  rcases List.mem_cons.1 hn with rfl | hn
  · exact h
  · cases d with
    | entity e =>
      simp only [envelopeNames, Entity.envelopeNames, Entity.singleNames, List.cons_append,
        List.nil_append, List.mem_cons, List.not_mem_nil, or_false] at hn
      rcases hn with rfl | rfl | rfl | rfl <;>
        exact not_isReserved_append h (by simp [IsReserved])
    | _ => cases hn

/-! ## Envelopes of two entities -/

namespace Entity

variable {e e' : Entity} {n : Text}

theorem name_eq_of_singleNames (h : n ∈ e.singleNames) (h' : n ∈ e'.singleNames) :
    e.name = e'.name := by
  have hcases {x y : Text} (hxy : e.name ++ x = e'.name ++ y)
      (hends : x.points <:+ y.points ∨ y.points <:+ x.points → x = y) : e.name = e'.name := by
    have hlength := congrArg (List.length ∘ Text.points)
      (hends (Text.suffix_or_suffix_of_append_eq hxy))
    exact (Text.append_inj_of_length_eq hlength hxy).1
  simp only [singleNames, List.mem_cons, List.not_mem_nil, or_false] at h h'
  -- none of the endings is an ending of another one
  rcases h with rfl | rfl | rfl <;> rcases h' with h' | h' | h' <;> exact hcases h' (by decide)

theorem name_eq_of_listResponse (h : n = e.listResponse) (h' : n ∈ e'.singleNames) :
    e'.name = e.name ++ "List" := by
  subst h
  simp only [singleNames, List.mem_cons, List.not_mem_nil, or_false] at h'
  rcases h' with h' | h' | h'
  · exact absurd (Text.suffix_or_suffix_of_append_eq h') (by decide)
  · exact absurd (Text.suffix_or_suffix_of_append_eq h') (by decide)
  · have hending : e.listResponse = (e.name ++ "List") ++ "Response" := by
      rw [Text.append_assoc, ← Text.ofString_append]
      rfl
    exact (Text.append_inj_of_length_eq rfl (hending.symm.trans h')).1.symm

theorem name_eq_of_listResponse_eq (h : e.listResponse = e'.listResponse) : e.name = e'.name :=
  (Text.append_inj_of_length_eq rfl h).1

theorem Encloses.ne {s s' : Json} (h : e.Encloses n s) (h' : e'.Encloses n s')
    (hne : e.name ≠ e'.name) : s ≠ s' := by
  -- only the response with a list requires links
  have hlists : some (texts ["data"]) ≠ some (texts ["data", "links"]) := by simp [texts]
  rintro rfl
  rcases h with ⟨hn, hdata⟩ | ⟨hn, hdata⟩ <;> rcases h' with ⟨hn', hdata'⟩ | ⟨hn', hdata'⟩
  · exact hne (name_eq_of_singleNames hn hn')
  · exact hlists (hdata.symm.trans hdata')
  · exact hlists (hdata'.symm.trans hdata)
  · exact hne (name_eq_of_listResponse_eq (hn.symm.trans hn'))

end Entity

/-! ## Contested names -/

namespace Model

variable {m : Model} {style : NullStyle} {d d' : Declaration} {n : Text}

/-- The name is that of an envelope of an entity. It is declared as well, or it is that of the list
response and there is an entity whose name is the same with `List` behind it. -/
def Contested (m : Model) (n : Text) : Prop :=
  ∃ e ∈ m.entities, n ∈ e.envelopeNames ∧ (n ∈ m.declaredNames ∨
    (n = e.listResponse ∧ ∃ e' ∈ m.entities, e'.name = e.name ++ "List"))

theorem contested_of_name_ne (hd : d ∈ m.declarations) (hd' : d' ∈ m.declarations)
    (hne : d.name ≠ d'.name) (hn : n ∈ d.schemaNames) (hn' : n ∈ d'.schemaNames) :
    m.Contested n := by
  rcases List.mem_cons.1 hn with rfl | hn <;> rcases List.mem_cons.1 hn' with hn' | hn'
  · exact absurd hn' hne
  · obtain ⟨e', he', -, hn'⟩ := exists_entity_of_mem_envelopeNames hd' hn'
    exact ⟨e', he', hn', .inl (mem_declaredNames_of_mem hd)⟩
  · obtain ⟨e, he, -, hn⟩ := exists_entity_of_mem_envelopeNames hd hn
    exact ⟨e, he, hn, .inl (hn' ▸ mem_declaredNames_of_mem hd')⟩
  · obtain ⟨e, he, rfl, hn⟩ := exists_entity_of_mem_envelopeNames hd hn
    obtain ⟨e', he', rfl, hn'⟩ := exists_entity_of_mem_envelopeNames hd' hn'
    rcases List.mem_append.1 hn with hs | hl <;> rcases List.mem_append.1 hn' with hs' | hl'
    · exact absurd (Entity.name_eq_of_singleNames hs hs') hne
    · have hl' := List.mem_singleton.1 hl'
      exact ⟨e', he', hn', .inr ⟨hl', e, he, Entity.name_eq_of_listResponse hl' hs⟩⟩
    · have hl := List.mem_singleton.1 hl
      exact ⟨e, he, hn, .inr ⟨hl, e', he', Entity.name_eq_of_listResponse hl hs'⟩⟩
    · have heq := (List.mem_singleton.1 hl).symm.trans (List.mem_singleton.1 hl')
      exact absurd (Entity.name_eq_of_listResponse_eq heq) hne

/-- **Two declarations write different schemas** under a name. -/
theorem schema_ne_of_name_ne {block block' : List (Text × Json)} {s s' : Json}
    (hd : m.declarationSchemas style d = .ok block) (hs : (n, s) ∈ block)
    (hd' : m.declarationSchemas style d' = .ok block') (hs' : (n, s') ∈ block')
    (hne : d.name ≠ d'.name) : s ≠ s' := by
  rcases mem_declarationSchemas_cases hd hs with ⟨hn, hown⟩ | ⟨e, rfl, henvelope⟩ <;>
    rcases mem_declarationSchemas_cases hd' hs' with ⟨hn', hown'⟩ | ⟨e', rfl, henvelope'⟩
  · exact absurd (hn.symm.trans hn') hne
  · rintro rfl
    exact not_requiresData_ownSchema hown henvelope'.requiresData
  · rintro rfl
    exact not_requiresData_ownSchema hown' henvelope.requiresData
  · exact henvelope.ne henvelope' hne

/-! ## Stored schemas -/

theorem get?_eq_some_iff_last_write (hdistinct : m.declaredNames.Nodup)
    {schemas : Assoc Text Json} (h : m.componentSchemas style = .ok schemas)
    {before after : List Declaration} (hm : m.declarations = before ++ d :: after)
    {block : List (Text × Json)} (hd : m.declarationSchemas style d = .ok block) {s : Json}
    (hs : (n, s) ∈ block) :
    Assoc.get? schemas n = some s ↔ ∀ d' ∈ after, n ∉ d'.schemaNames := by
  refine ⟨?_, get?_of_last_write h hm hd hs⟩
  intro hget d' hd' hn
  have hm' : m.declarations = (before ++ [d]) ++ after := by rw [hm, List.append_cons]
  obtain ⟨d₂, hd₂, block₂, s₂, hblock₂, hs₂, hget₂⟩ := exists_later_write h hm' ⟨d', hd', hn⟩
  rw [declaredNames, hm] at hdistinct
  have hne : d.name ≠ d₂.name := ne_of_nodup_map hdistinct hd₂
  exact schema_ne_of_name_ne hd hs hblock₂ hs₂ hne (Option.some.inj (hget.symm.trans hget₂))

/-- **The last write of a name is stored.** When the declared names are distinct and not reserved,
every shared schema is stored, and a schema of a declaration is stored exactly when no later
declaration writes its name, in particular if the name is not contested. The schemas can be built at
all exactly when the model's references pass the check. -/
theorem stored_iff_last_write {m : Model} {style : NullStyle} (hdistinct : m.declaredNames.Nodup)
    (hplain : ∀ n ∈ m.declaredNames, ¬ IsReserved n) :
    ((∃ schemas, m.componentSchemas style = .ok schemas) ↔ m.checkReferences = .ok ()) ∧
      ∀ schemas, m.componentSchemas style = .ok schemas →
        (∀ p ∈ shared style, Assoc.get? schemas p.1 = some p.2) ∧
        ∀ before d after, m.declarations = before ++ d :: after →
          ∃ block, m.declarationSchemas style d = .ok block ∧
            Assoc.keys block = d.schemaNames ∧ ∀ n s, (n, s) ∈ block →
              (Assoc.get? schemas n = some s ↔ ∀ d' ∈ after, n ∉ d'.schemaNames) ∧
              (¬ m.Contested n → Assoc.get? schemas n = some s) := by
  refine ⟨succeeds_componentSchemas_iff, fun schemas h => ⟨?_, ?_⟩⟩
  · intro p hp
    have hreserved : IsReserved p.1 :=
      isReserved_of_shared (keys_shared style ▸ Assoc.mem_keys_of_mem hp)
    refine get?_of_shared h hp fun d hd hn => ?_
    exact d.not_isReserved (hplain _ (mem_declaredNames_of_mem hd)) hn hreserved
  · intro before d after hm
    have hmem : d ∈ m.declarations := hm ▸ List.mem_append_right _ List.mem_cons_self
    obtain ⟨block, hblock⟩ := exists_block_of_componentSchemas h hmem
    refine ⟨block, hblock, keys_declarationSchemas hblock, fun n s hs => ?_⟩
    have hiff := get?_eq_some_iff_last_write hdistinct h hm hblock hs
    refine ⟨hiff, fun hfree => hiff.2 fun d' hd' hn' => hfree ?_⟩
    have hmem' : d' ∈ m.declarations :=
      hm ▸ List.mem_append_right _ (List.mem_cons_of_mem _ hd')
    have hn : n ∈ d.schemaNames := keys_declarationSchemas hblock ▸ Assoc.mem_keys_of_mem hs
    rw [declaredNames, hm] at hdistinct
    exact contested_of_name_ne hmem hmem' (ne_of_nodup_map hdistinct hd') hn hn'

end Model

/-! ## A blog with a contested name -/

namespace Blog

/-- The answers that a reviewer of posts can give. -/
def reviewerAnswer : EnumDecl := ⟨"PostResponse", ["accept", "reject"]⟩

/-- The response to a request for a post has the name of the reviewers' answers. -/
def reviewed : Model where
  entities := [{ name := "Post" }]
  enums := [reviewerAnswer]

theorem reviewed_declarations :
    reviewed.declarations = [] ++ .enum reviewerAnswer :: [.entity { name := "Post" }] :=
  rfl

/-- All schemas of posts are stored, and so the answers of reviewers are not. -/
theorem reviewer_answers_replaced : ∃ schemas, reviewed.componentSchemas .flag = .ok schemas ∧
    (∃ block, reviewed.entitySchemas .flag { name := "Post" } = .ok block ∧
      ∀ n s, (n, s) ∈ block → Assoc.get? schemas n = some s) ∧
    Assoc.get? schemas "PostResponse" ≠ some reviewerAnswer.schema := by
  have hdistinct : reviewed.declaredNames.Nodup := by decide
  have hplain : ∀ n ∈ reviewed.declaredNames, ¬ IsReserved n := by decide
  obtain ⟨hsucceeds, hstored⟩ := Model.stored_iff_last_write (m := reviewed) hdistinct hplain
  obtain ⟨schemas, h⟩ := hsucceeds.2 rfl
  obtain ⟨-, hdeclared⟩ := hstored schemas h
  refine ⟨schemas, h, ?_, ?_⟩
  · obtain ⟨block, hblock, -, hiff⟩ := hdeclared [.enum reviewerAnswer] _ [] rfl
    exact ⟨block, hblock, fun n s hs => (hiff n s hs).1.2 nofun⟩
  · obtain ⟨block, hblock, -, hiff⟩ := hdeclared _ _ _ reviewed_declarations
    cases hblock
    intro hget
    have hlast := (hiff _ _ (List.mem_singleton_self _)).1.1 hget
    exact hlast _ (List.mem_singleton_self _) (by decide)

/-- **Not every schema is stored**, though all declared names are distinct and none is reserved. -/
theorem not_all_schemas_stored : ¬ ∀ (m : Model) (style : NullStyle) (schemas : Assoc Text Json),
    m.declaredNames.Nodup → (∀ n ∈ m.declaredNames, ¬ IsReserved n) →
    m.componentSchemas style = .ok schemas → ∀ d ∈ m.declarations, ∀ block,
      m.declarationSchemas style d = .ok block → ∀ p ∈ block,
        Assoc.get? schemas p.1 = some p.2 := by
  intro hall
  have hdistinct : reviewed.declaredNames.Nodup := by decide
  obtain ⟨schemas, h⟩ : ∃ schemas, reviewed.componentSchemas .flag = .ok schemas := ⟨_, rfl⟩
  have hget := hall reviewed .flag schemas hdistinct (by decide) h (.enum reviewerAnswer)
    List.mem_cons_self _ rfl _ (List.mem_singleton_self _)
  have hlast := (Model.get?_eq_some_iff_last_write hdistinct h reviewed_declarations rfl
    (List.mem_singleton_self _)).1 hget
  exact hlast _ (List.mem_singleton_self _) (by decide)

end Blog

end ResourceApi
