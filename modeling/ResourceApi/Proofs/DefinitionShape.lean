import ResourceApi.Loading
import ResourceApi.Proofs.Explained
import ResourceApi.Proofs.Member

/-!
# Shapes of definitions

A definition is made of sections, bodies, lists of fields and fields, and for each of them there is
a shape that its reader can take apart. Whatever is wrong inside the shapes is a failure with words;
a value of another shape is a misfit where the reading reaches it. Each reader has one lemma that
says so (`explained_field_iff`, `explained_fields_iff`, `explained_enum_iff`, `explained_type_iff`,
`explained_entity_iff`, `explained_declarations_iff`), and they make up **what holds of a whole
definition** (`explained_ofDefinition_iff`): the reading ends in no misfit exactly when everything
that it reaches has its shape.

Declarations are read in order and the first that is invalid ends the reading, so a misshapen value
behind it does no harm. Where all values have their shapes the order does not matter
(`explained_of_wellShaped`), and a definition that is accepted has them all
(`wellShaped_of_ofDefinition`).
-/

namespace ResourceApi.Definition

variable {v x name body : Data} {ms : List (Data × Data)} {xs : List Data}

/-! ## Maps and sequences of pairs -/

/-- The value has two parts, the first of which can be a key. -/
def IsPair (x : Data) (p : Data × Data) : Prop := parts? x = some [p.1, p.2] ∧ p.1.isKey = true

/-- Pairs written one after the other. -/
def writePairs (ms ps : List (Data × Data)) : List (Data × Data) :=
  ps.foldl (fun ms p => Data.insertKey ms p.1 p.2) ms

/-- The value is a map with the members, or a sequence of pairs that makes one. -/
inductive StandsFor (v : Data) : List (Data × Data) → Prop where
  | map {ms : List (Data × Data)} (h : v.opened = .map ms) : StandsFor v ms
  | pairs {xs : List Data} {ps : List (Data × Data)} (hmap : ∀ ms, v.opened ≠ .map ms)
    (hparts : parts? v = some xs) (hpairs : List.Forall₂ IsPair xs ps) :
    StandsFor v (writePairs [] ps)

theorem membersOfPairs_cons_of_isPair {p : Data × Data} (h : IsPair x p) :
    membersOfPairs ms (x :: xs) = membersOfPairs (Data.insertKey ms p.1 p.2) xs := by
  rw [membersOfPairs, h.1]
  exact if_pos h.2

theorem membersOfPairs_cons_of_not_isPair (ms : List (Data × Data)) (xs : List Data)
    (h : ∀ p, ¬ IsPair x p) : ∃ m, membersOfPairs ms (x :: xs) = .error (.misfit m) := by
  rw [membersOfPairs]
  split
  · exact ⟨_, rfl⟩
  · next k v hparts =>
    rw [if_neg fun hk => h (k, v) ⟨hparts, hk⟩]
    exact ⟨_, rfl⟩
  · exact ⟨_, rfl⟩

theorem membersOfPairs_eq_ok_iff {ms' : List (Data × Data)} :
    membersOfPairs ms xs = .ok ms' ↔ ∃ ps, List.Forall₂ IsPair xs ps ∧ writePairs ms ps = ms' := by
  induction xs generalizing ms with
  | nil => simp [membersOfPairs, writePairs]
  | cons x xs ih =>
    by_cases hx : ∃ p, IsPair x p
    · obtain ⟨p, hp⟩ := hx
      have hunique {q : Data × Data} (hq : IsPair x q) : q = p := by
        have hsame := hq.1.symm.trans hp.1
        simp only [Option.some.injEq, List.cons.injEq, and_true] at hsame
        exact Prod.ext hsame.1 hsame.2
      rw [membersOfPairs_cons_of_isPair hp, ih]
      constructor
      · rintro ⟨ps, hps, rfl⟩
        exact ⟨p :: ps, .cons hp hps, rfl⟩
      · rintro ⟨_, hall, rfl⟩
        obtain ⟨q, ps, hq, hps, rfl⟩ := List.forall₂_cons_left_iff.1 hall
        exact ⟨ps, hps, by rw [← hunique hq]; rfl⟩
    · rw [not_exists] at hx
      obtain ⟨m, hm⟩ := membersOfPairs_cons_of_not_isPair ms xs hx
      rw [hm]
      refine iff_of_false nofun ?_
      rintro ⟨_, hall, -⟩
      obtain ⟨p, -, hp, -⟩ := List.forall₂_cons_left_iff.1 hall
      exact hx p hp

theorem error_membersOfPairs {f : Failure} (h : membersOfPairs ms xs = .error f) :
    ∃ m, f = .misfit m := by
  induction xs generalizing ms with
  | nil => cases h
  | cons x xs ih =>
    by_cases hx : ∃ p, IsPair x p
    · obtain ⟨p, hp⟩ := hx
      rw [membersOfPairs_cons_of_isPair hp] at h
      exact ih h
    · obtain ⟨m, hm⟩ := membersOfPairs_cons_of_not_isPair ms xs (not_exists.1 hx)
      rw [hm] at h
      cases h
      exact ⟨m, rfl⟩

theorem error_parts {f : Failure} (h : parts v = .error f) : ∃ m, f = .misfit m := by
  unfold parts at h
  split at h
  · cases h
  · cases h
    exact ⟨_, rfl⟩

theorem parts_eq_ok_iff : parts v = .ok xs ↔ parts? v = some xs := by
  unfold parts
  cases parts? v <;> simp

theorem membersOf_eq_ok_iff : membersOf v = .ok ms ↔ StandsFor v ms := by
  unfold membersOf
  constructor
  · intro h
    split at h
    · next hmap =>
      cases h
      exact .map hmap
    · next hmap =>
      obtain ⟨xs, hxs, h⟩ := bind_eq_ok_iff.1 h
      obtain ⟨ps, hps, rfl⟩ := membersOfPairs_eq_ok_iff.1 h
      exact .pairs hmap (parts_eq_ok_iff.1 hxs) hps
  · intro h
    cases h with
    | map h => rw [h]
    | pairs hmap hparts hpairs =>
      split
      · next hms => exact absurd hms (hmap _)
      · exact bind_eq_ok_iff.2
          ⟨_, parts_eq_ok_iff.2 hparts, membersOfPairs_eq_ok_iff.2 ⟨_, hpairs, rfl⟩⟩

theorem explained_membersOf_iff : Explained (membersOf v) ↔ ∃ ms, StandsFor v ms := by
  have hmisfit (f : Failure) (h : membersOf v = .error f) : ∃ m, f = .misfit m := by
    unfold membersOf at h
    split at h
    · cases h
    · cases hparts : parts v with
      | error e =>
        rw [hparts] at h
        cases h
        exact error_parts hparts
      | ok xs =>
        rw [hparts] at h
        exact error_membersOfPairs h
  rw [explained_iff_succeeds hmisfit, Succeeds]
  simp only [membersOf_eq_ok_iff]

/-! ## Fields -/

/-- A field stands for members with text keys, and its type, if it has one, can be written out. -/
def FieldFits (v : Data) : Prop :=
  ∃ ms, StandsFor v ms ∧ textKeys ms = true ∧
    ∀ t, Data.lookup ms "type" = some t → Succeeds t.text

theorem succeeds_expandType_iff :
    Succeeds (expandType ms) ↔ ∀ t, Data.lookup ms "type" = some t → Succeeds t.text := by
  have hbind : Succeeds (expandType ms) ↔
      Succeeds ((Data.lookup ms "type").getD (.str "")).text ∧ True :=
    succeeds_bind_of_forall fun t => iff_true_intro (succeeds_ok _)
  rw [hbind, and_true]
  cases Data.lookup ms "type" with
  | none => exact iff_of_true (succeeds_ok _) nofun
  | some t => simp

theorem textKeys_of_expandType {ms' : List (Data × Data)} (h : expandType ms = .ok ms') :
    textKeys ms' = textKeys ms := by
  obtain ⟨t, -, h⟩ := bind_eq_ok_iff.1 h
  cases h
  rw [textKeys_insertKey]
  split_ifs <;> simp

theorem explained_fieldOfMembers_iff : Explained (fieldOfMembers ms) ↔ textKeys ms = true := by
  unfold fieldOfMembers
  split_ifs with htext
  · exact iff_of_true (explained_toExcept _ _ _) htext
  · exact iff_of_false (fun h => explained_iff.1 h _ rfl) htext

/-- **A field is explained when it fits.** -/
theorem explained_field_iff : Explained (field v) ↔ FieldFits v := by
  show Explained (membersOf v >>= fun ms =>
    (expandType ms).mapError Failure.misfit >>= fieldOfMembers) ↔ _
  rw [explained_bind_iff, explained_membersOf_iff]
  constructor
  · rintro ⟨⟨ms, hms⟩, h⟩
    obtain ⟨htype, h⟩ := explained_bind_iff.1 (h ms (membersOf_eq_ok_iff.2 hms))
    obtain ⟨ms', hms'⟩ := explained_mapError_misfit_iff.1 htype
    have htext := explained_fieldOfMembers_iff.1 (h ms' (mapError_eq_ok_iff.2 hms'))
    rw [textKeys_of_expandType hms'] at htext
    exact ⟨ms, hms, htext, succeeds_expandType_iff.1 ⟨ms', hms'⟩⟩
  · rintro ⟨ms, hms, htext, htype⟩
    refine ⟨⟨ms, hms⟩, fun ms' hms' => ?_⟩
    rw [membersOf_eq_ok_iff.2 hms] at hms'
    cases hms'
    refine explained_bind_iff.2
      ⟨explained_mapError_misfit_iff.2 (succeeds_expandType_iff.2 htype), fun ms' hms' => ?_⟩
    rw [explained_fieldOfMembers_iff, textKeys_of_expandType (mapError_eq_ok_iff.1 hms')]
    exact htext

/-! ## Lists, bodies and sections -/

/-- A value is taken apart; one without parts is a misfit unless it is void. -/
theorem explained_partsOrEmpty_bind_iff {α : Type} {f : List Data → Except Failure α}
    (hnil : Explained (f [])) :
    Explained (partsOrEmpty v >>= f) ↔
      v.isVoid ∨ ∃ xs, parts? v = some xs ∧ Explained (f xs) := by
  unfold partsOrEmpty parts
  rw [explained_bind_iff]
  split_ifs with hvoid
  · refine iff_of_true ⟨explained_ok _, ?_⟩ (.inl hvoid)
    rintro _ ⟨⟩
    exact hnil
  · cases parts? v with
    | none => simp [hvoid, explained_error_iff, Failure.message?]
    | some xs => simp [hvoid, explained_ok]

/-- A void value, or a list or another value that has parts. -/
def ListFits (v : Data) : Prop := v.isVoid ∨ ∃ xs, parts? v = some xs

/-- **An enumeration is explained when its members fit.** -/
theorem explained_enum_iff : Explained (enum name body) ↔ ListFits body := by
  have hchecked (xs : List Data) : Explained ((EnumDecl.mk
      <$> Checked.under (.key "name") (Checked.text name)
      <*> Checked.under (.key "members") (Checked.list Checked.text (.list xs))).toExcept
      (some .definition) "EnumDef") := explained_toExcept _ _ _
  show Explained (partsOrEmpty body >>= _) ↔ _
  rw [explained_partsOrEmpty_bind_iff (hchecked []), ListFits]
  simp only [hchecked, and_true]

/-- Void fields, or parts that fit as far as they are reached. -/
def FieldsFit (v : Data) : Prop :=
  v.isVoid ∨ ∃ xs, parts? v = some xs ∧ ∀ x, Reached field xs x → FieldFits x

theorem explained_fields_iff : Explained (fields v) ↔ FieldsFit v := by
  have hnil : Explained (([] : List Data).mapM field) := explained_ok []
  show Explained (partsOrEmpty v >>= fun xs => xs.mapM field) ↔ _
  rw [explained_partsOrEmpty_bind_iff hnil, FieldsFit]
  simp only [explained_mapM_iff, explained_field_iff]

/-- A void body, or a map whose fields fit. -/
def BodyFits (v : Data) : Prop :=
  v.isVoid ∨ ∃ ms, v.opened = .map ms ∧ FieldsFit (member ms "fields")

theorem explained_membersOrEmpty_bind_iff {α : Type}
    {f : List (Data × Data) → Except Failure α} (hnil : Explained (f [])) :
    Explained (membersOrEmpty v >>= f) ↔
      v.isVoid ∨ ∃ ms, v.opened = .map ms ∧ Explained (f ms) := by
  unfold membersOrEmpty
  rw [explained_bind_iff]
  split_ifs with hvoid
  · refine iff_of_true ⟨explained_ok _, ?_⟩ (.inl hvoid)
    rintro _ ⟨⟩
    exact hnil
  · cases v.opened with
    | map ms => simp [hvoid, explained_ok]
    | _ => simp [hvoid, explained_error_iff, Failure.message?]

theorem explained_body_iff {α : Type} (f : List (Data × Data) → List Field → Checked α)
    (title : Text) :
    Explained (membersOrEmpty body >>= fun ms => fields (member ms "fields") >>= fun fs =>
      (f ms fs).toExcept (some .definition) title) ↔ BodyFits body := by
  have hfields (ms : List (Data × Data)) :
      Explained (fields (member ms "fields") >>= fun fs =>
        (f ms fs).toExcept (some .definition) title) ↔ FieldsFit (member ms "fields") := by
    rw [explained_bind_iff, explained_fields_iff]
    exact and_iff_left fun fs _ => explained_toExcept _ _ _
  have hnil : FieldsFit (member [] "fields") := .inl rfl
  rw [explained_membersOrEmpty_bind_iff ((hfields []).2 hnil), BodyFits]
  simp only [hfields]

/-- **A structured type is explained when its body fits.** -/
theorem explained_type_iff : Explained (type name body) ↔ BodyFits body :=
  explained_body_iff _ "TypeDef"

/-- **An entity is explained when its body fits.** -/
theorem explained_entity_iff : Explained (entity name body) ↔ BodyFits body :=
  explained_body_iff _ "Entity"

/-- A void section, or a map whose declarations fit as far as they are reached. -/
def SectionFits {α : Type} (read : Data → Data → Except Failure α) (fits : Data → Prop)
    (v : Data) : Prop :=
  v.isVoid ∨ ∃ ms, v.opened = .map ms ∧ ∀ m, Reached (fun m => read m.1 m.2) ms m → fits m.2

theorem explained_declarations_iff {α : Type} {doc : List (Data × Data)} {key : Text}
    {read : Data → Data → Except Failure α} {fits : Data → Prop}
    (h : ∀ name body, Explained (read name body) ↔ fits body) :
    Explained (declarations doc key read) ↔ SectionFits read fits (member doc key) := by
  show Explained (membersOrEmpty (member doc key) >>= fun ms =>
    ms.mapM fun m => read m.1 m.2) ↔ _
  have hnil : Explained (([] : List (Data × Data)).mapM fun m => read m.1 m.2) := explained_ok []
  rw [explained_membersOrEmpty_bind_iff hnil, SectionFits]
  simp only [explained_mapM_iff, h]

/-! ## Definitions -/

/-- The sections of a definition fit as far as they are reached: structured types behind the
enumerations, entities behind both. -/
structure Fits (doc : List (Data × Data)) : Prop where
  enums : SectionFits enum ListFits (member doc "enums")
  types : Succeeds (declarations doc "enums" enum) →
    SectionFits type BodyFits (member doc "typedefs")
  entities : Succeeds (declarations doc "enums" enum) →
    Succeeds (declarations doc "typedefs" type) →
      SectionFits entity BodyFits (member doc "entities")

/-- **A definition is explained when it fits.** -/
theorem explained_ofDefinition_iff {doc : List (Data × Data)} :
    Explained (Model.ofDefinition doc) ↔ Fits doc := by
  have henums : Explained (declarations doc "enums" enum) ↔
      SectionFits enum ListFits (member doc "enums") :=
    explained_declarations_iff fun _ _ => explained_enum_iff
  have htypes : Explained (declarations doc "typedefs" type) ↔
      SectionFits type BodyFits (member doc "typedefs") :=
    explained_declarations_iff fun _ _ => explained_type_iff
  have hentities : Explained (declarations doc "entities" entity) ↔
      SectionFits entity BodyFits (member doc "entities") :=
    explained_declarations_iff fun _ _ => explained_entity_iff
  have hmodel (enums : List EnumDecl) (types : List TypeDecl) :
      Explained (declarations doc "entities" entity >>= fun entities =>
        pure (⟨entities, enums, types⟩ : Model)) ↔
        SectionFits entity BodyFits (member doc "entities") := by
    rw [explained_bind_iff, hentities]
    exact and_iff_left fun _ _ => explained_ok _
  unfold Model.ofDefinition
  rw [explained_bind_iff, henums]
  simp only [explained_bind_iff (x := declarations doc "typedefs" type), hmodel, htypes]
  constructor
  · rintro ⟨henums, h⟩
    exact ⟨henums, fun ⟨enums, hok⟩ => (h enums hok).1,
      fun ⟨enums, hok⟩ ⟨types, hok'⟩ => (h enums hok).2 types hok'⟩
  · intro h
    exact ⟨h.enums, fun enums hok => ⟨h.types ⟨enums, hok⟩,
      fun types hok' => h.entities ⟨enums, hok⟩ ⟨types, hok'⟩⟩⟩

/-! ## Well-shaped definitions -/

/-- A void value, or a value all parts of which have a property. -/
def EveryPart (p : Data → Prop) (v : Data) : Prop :=
  v.isVoid ∨ ∃ xs, parts? v = some xs ∧ ∀ x ∈ xs, p x

/-- A void value, or a map all members of which have a property. -/
def EveryMember (p : Data → Prop) (v : Data) : Prop :=
  v.isVoid ∨ ∃ ms, v.opened = .map ms ∧ ∀ m ∈ ms, p m.2

/-- A void body, or a map all fields of which fit. -/
def BodyWellShaped (v : Data) : Prop :=
  v.isVoid ∨ ∃ ms, v.opened = .map ms ∧ EveryPart FieldFits (member ms "fields")

/-- Everything in the definition has its shape, whether the reading reaches it or not. -/
structure WellShaped (doc : List (Data × Data)) : Prop where
  enums : EveryMember ListFits (member doc "enums")
  types : EveryMember BodyWellShaped (member doc "typedefs")
  entities : EveryMember BodyWellShaped (member doc "entities")

variable {doc : List (Data × Data)}

theorem BodyWellShaped.bodyFits (h : BodyWellShaped v) : BodyFits v := by
  refine h.imp_right fun ⟨ms, hms, hfields⟩ => ⟨ms, hms, ?_⟩
  exact hfields.imp_right fun ⟨xs, hxs, hall⟩ => ⟨xs, hxs, fun x hx => hall x hx.mem⟩

theorem EveryMember.sectionFits {α : Type} {read : Data → Data → Except Failure α}
    {p fits : Data → Prop} (h : EveryMember p v) (hp : ∀ v, p v → fits v) :
    SectionFits read fits v :=
  h.imp_right fun ⟨ms, hms, hall⟩ => ⟨ms, hms, fun m hm => hp m.2 (hall m hm.mem)⟩

/-- A well-shaped definition is explained, however much of it is wrong. -/
theorem explained_of_wellShaped (h : WellShaped doc) : Explained (Model.ofDefinition doc) :=
  explained_ofDefinition_iff.2
    { enums := h.enums.sectionFits fun _ hv => hv
      types := fun _ => h.types.sectionFits fun _ hv => hv.bodyFits
      entities := fun _ _ => h.entities.sectionFits fun _ hv => hv.bodyFits }

/-! ## Accepted definitions -/

theorem partsOrEmpty_eq (hvoid : ¬ v.isVoid = true) (hparts : parts? v = some xs) :
    partsOrEmpty v = .ok xs := by
  rw [partsOrEmpty, if_neg hvoid]
  exact parts_eq_ok_iff.2 hparts

theorem opened_of_membersOrEmpty (hvoid : ¬ v.isVoid = true) (h : membersOrEmpty v = .ok ms) :
    v.opened = .map ms := by
  rw [membersOrEmpty, if_neg hvoid] at h
  split at h
  · next hmap =>
    cases h
    exact hmap
  · cases h

theorem everyPart_of_fields (h : Succeeds (fields v)) : EveryPart FieldFits v := by
  by_cases hvoid : v.isVoid = true
  · exact .inl hvoid
  · obtain ⟨xs, hxs, hfit⟩ :=
      (explained_fields_iff.1 (explained_of_succeeds h)).resolve_left hvoid
    obtain ⟨ys, hys, hall⟩ := succeeds_bind_iff.1 h
    rw [partsOrEmpty_eq hvoid hxs] at hys
    cases hys
    exact .inr ⟨xs, hxs, fun x hx => hfit x (reached_of_succeeds hall hx)⟩

/-- What is read after the fields of a body succeeds only if the fields do. -/
theorem bodyWellShaped_of_succeeds {α : Type}
    {f : List Field → List (Data × Data) → Except Failure α}
    (h : Succeeds (membersOrEmpty v >>= fun ms =>
      fields (member ms "fields") >>= fun fs => f fs ms)) : BodyWellShaped v := by
  by_cases hvoid : v.isVoid = true
  · exact .inl hvoid
  · obtain ⟨ms, hms, h⟩ := succeeds_bind_iff.1 h
    obtain ⟨fs, hfs, -⟩ := succeeds_bind_iff.1 h
    exact .inr ⟨ms, opened_of_membersOrEmpty hvoid hms, everyPart_of_fields ⟨fs, hfs⟩⟩

theorem everyMember_of_declarations {α : Type} {key : Text}
    {read : Data → Data → Except Failure α} {p : Data → Prop}
    (hp : ∀ name body, Succeeds (read name body) → p body)
    (h : Succeeds (declarations doc key read)) : EveryMember p (member doc key) := by
  by_cases hvoid : (member doc key).isVoid = true
  · exact .inl hvoid
  · obtain ⟨ms, hms, h⟩ := succeeds_bind_iff.1 h
    exact .inr ⟨ms, opened_of_membersOrEmpty hvoid hms,
      fun m hm => hp m.1 m.2 (succeeds_mapM_iff.1 h m hm)⟩

/-- **A definition that is accepted is well-shaped.** -/
theorem wellShaped_of_ofDefinition {m : Model} (h : Model.ofDefinition doc = .ok m) :
    WellShaped doc := by
  obtain ⟨enums, henums, h⟩ := bind_eq_ok_iff.1 h
  obtain ⟨types, htypes, h⟩ := bind_eq_ok_iff.1 h
  obtain ⟨entities, hentities, -⟩ := bind_eq_ok_iff.1 h
  refine ⟨everyMember_of_declarations ?_ ⟨_, henums⟩,
    everyMember_of_declarations (fun name body hbody => ?_) ⟨_, htypes⟩,
    everyMember_of_declarations (fun name body hbody => ?_) ⟨_, hentities⟩⟩
  · exact fun _ _ h => explained_enum_iff.1 (explained_of_succeeds h)
  · exact bodyWellShaped_of_succeeds hbody
  · exact bodyWellShaped_of_succeeds hbody

end ResourceApi.Definition
