import ResourceApi.Proofs.MarkedField
import ResourceApi.Proofs.Shadowing

/-!
# Definitions of a model

A model can be written as a definition in more than one way. A flag of a field stands under one of
its names or goes without saying; where it is to be an array or optional, a mark behind its type may
say so instead. `Model.WrittenAs` describes all these definitions declaration by declaration, and
`Model.toDefinition` is the plainest of them.

**Members** (`Says`). A member of a map says a value under its outer name, or under its own name
with nothing under the other, or says nothing and stands for the value that goes without saying.
What is said is read (`Says.defaulted_eq_ok`).

**Declarations** (`field_eq_ok`, `entity_eq_ok`). Each kind of declaration is read back from
whatever it is written as. Sections are maps, so that a section keeps all declarations in their
order only if their names are distinct (`writePairs_eq_self`).

**Main result** (`definition_read_back`).
-/

namespace ResourceApi

open Checked Definition

/-! ## Members -/

/-- What the member of a map says, given how values are written and what goes without saying. -/
inductive Says {α : Type} (ms : List (Data × Data)) (n : Name) (write : α → Data) (implied a : α) :
    Prop
  | outer (h : Data.lookup ms n.outer = some (write a)) : Says ms n write implied a
  | own (houter : Data.lookup ms n.outer = none) (h : Data.lookup ms n.own = some (write a)) :
    Says ms n write implied a
  | unsaid (houter : Data.lookup ms n.outer = none) (hown : Data.lookup ms n.own = none)
    (h : a = implied) : Says ms n write implied a

namespace Says

variable {α : Type} {ms ms' : List (Data × Data)} {n : Name} {write : α → Data} {implied a : α}

theorem congr (h : Says ms n write implied a)
    (houter : Data.lookup ms' n.outer = Data.lookup ms n.outer)
    (hown : Data.lookup ms' n.own = Data.lookup ms n.own) : Says ms' n write implied a := by
  cases h with
  | outer h => exact .outer (houter.trans h)
  | own h h' => exact .own (houter.trans h) (hown.trans h')
  | unsaid h h' heq => exact .unsaid (houter.trans h) (hown.trans h') heq

/-- **What is said is read.** -/
theorem defaulted_eq_ok {check : Data → Checked α} (h : Says ms n write implied a)
    (hcheck : check (write a) = .ok a) : defaulted ms n implied check = .ok a := by
  cases h with
  | outer h => exact Checked.defaulted_eq_ok (find?_eq_of_outer h) hcheck
  | own houter h =>
    have hfind : find? ms n = some (n.own, write a) := by
      rw [find?_eq_of_own houter, h]
      rfl
    exact Checked.defaulted_eq_ok hfind hcheck
  | unsaid houter hown h =>
    have hfind : find? ms n = none := by
      rw [find?_eq_of_own houter, hown]
      rfl
    rw [h, defaulted_of_find?_eq_none hfind]

theorem not_isVoid {key : Text} {b : Bool} (h : Says ms (.plain key) .bool false b) :
    (!(member ms key).isVoid) = b := by
  have hsaid (hb : Data.lookup ms key = some (.bool b)) : (!(member ms key).isVoid) = b := by
    rw [member, hb]
    exact Bool.not_not b
  cases h with
  | outer h => exact hsaid h
  | own _ h => exact hsaid h
  | unsaid hnone _ h =>
    replace hnone : Data.lookup ms key = none := hnone
    rw [member, hnone, h]
    rfl

end Says

/-! ## Lists and maps -/

/-- The value is a list, or nothing of significance where there are no items. -/
def Data.IsListOf (v : Data) (xs : List Data) : Prop := v = .list xs ∨ (v.isVoid = true ∧ xs = [])

/-- The value is a map, or nothing of significance where there are no members. -/
def Data.IsMapOf (v : Data) (ms : List (Data × Data)) : Prop :=
  v = .map ms ∨ (v.isVoid = true ∧ ms = [])

namespace Definition

variable {v : Data} {xs : List Data} {ms ps : List (Data × Data)}

theorem partsOrEmpty_of_isListOf (h : v.IsListOf xs) : partsOrEmpty v = .ok xs := by
  rcases h with rfl | ⟨hvoid, rfl⟩
  · cases xs <;> rfl
  · rw [partsOrEmpty, if_pos hvoid]

theorem membersOrEmpty_of_isMapOf (h : v.IsMapOf ms) : membersOrEmpty v = .ok ms := by
  rcases h with rfl | ⟨hvoid, rfl⟩
  · cases ms <;> rfl
  · rw [membersOrEmpty, if_pos hvoid]

/-- **Pairs with distinct text keys are all kept**, in their order. -/
theorem writePairs_eq_self (htext : ∀ p ∈ ps, ∃ s, p.1 = .str s) (h : (ps.map Prod.fst).Nodup) :
    writePairs [] ps = ps := by
  induction ps using List.reverseRecOn with
  | nil => rfl
  | append_singleton ps p ih =>
    obtain ⟨k, v⟩ := p
    obtain ⟨s, hs⟩ := htext (k, v) (by simp)
    obtain rfl : k = .str s := hs
    rw [List.map_append, List.nodup_append] at h
    obtain ⟨hps, -, hdisjoint⟩ := h
    have hfresh : Data.str s ∉ ps.map Prod.fst := fun hmem => hdisjoint _ hmem _ (by simp) rfl
    rw [writePairs, List.foldl_append]
    show Data.insertKey (writePairs [] ps) (.str s) v = _
    rw [ih (fun p hp => htext p (List.mem_append_left _ hp)) hps, Data.insertKey_of_not_mem hfresh]

end Definition

/-! ## Fields -/

/-- The members say what the field is, with some marks behind its type. -/
structure Field.WrittenAs (f : Field) (marks : List Mark) (ms : List (Data × Data)) : Prop where
  text_keys : textKeys ms = true
  name : Data.lookup ms "name" = some (.str f.name)
  typeName : Data.lookup ms "type" = some (.str (f.typeName.marked marks))
  array : Says ms (.plain "array") .bool (decide (.array ∈ marks)) f.array
  optional : Says ms (.plain "optional") .bool (decide (.optional ∈ marks)) f.optional
  isId : Says ms ⟨"id", "is_id"⟩ .bool false f.isId
  foreignKey : Says ms (.plain "foreign_key") .bool false f.foreignKey
  hasDefault : Says ms ⟨"default", "has_default"⟩ .bool false f.hasDefault

/-- The value is a map that says what the field is. -/
def Field.StandsAs (f : Field) (v : Data) : Prop :=
  ∃ marks ms, f.WrittenAs marks ms ∧ v = .map ms

namespace Definition

variable {f : Field} {marks : List Mark} {ms : List (Data × Data)}

/-- **A field is read back from its members**, however they say what it is. -/
theorem markedField_eq_ok (h : f.WrittenAs marks ms) :
    markedField ms f.typeName marks = .ok f := by
  have hname : required ms (.plain "name") text = .ok f.name :=
    required_eq_ok (find?_eq_of_outer h.name) rfl
  unfold markedField Decode.flag
  rw [hname, h.array.defaulted_eq_ok rfl, h.optional.defaulted_eq_ok rfl,
    h.isId.defaulted_eq_ok rfl, h.foreignKey.defaulted_eq_ok rfl, h.hasDefault.defaulted_eq_ok rfl]
  rfl

/-- **A field is read back.** -/
theorem field_eq_ok {v : Data} (h : f.StandsAs v) (hf : f.typeName.Unmarked) : field v = .ok f := by
  obtain ⟨marks, ms, hms, rfl⟩ := h
  have htype : typeText ms = .ok (f.typeName.marked marks) := by
    rw [typeText, hms.typeName]
    rfl
  rw [field_eq_markedField (.map rfl) hf htype, if_pos hms.text_keys]
  exact toExcept_eq_ok_iff.2 (markedField_eq_ok hms)

theorem fields_eq_ok {v : Data} {fs : List Field} {vs : List Data} (hv : v.IsListOf vs)
    (h : List.Forall₂ Field.StandsAs fs vs) (hfs : ∀ f ∈ fs, f.typeName.Unmarked) :
    fields v = .ok fs := by
  refine bind_eq_ok_iff.2 ⟨vs, partsOrEmpty_of_isListOf hv, mapM_eq_ok_iff.2 ?_⟩
  have hread := (List.forall₂_and_left _ _).2 ⟨hfs, h⟩
  exact List.Forall₂.flip (hread.imp fun f x hfx => field_eq_ok hfx.2 hfx.1)

end Definition

/-! ## Enumerations and structured types -/

/-- The value lists the members of the enumeration. -/
def EnumDecl.StandsAs (d : EnumDecl) (v : Data) : Prop := v.IsListOf (d.members.map .str)

/-- The value is a map with the fields of the structured type. -/
def TypeDecl.StandsAs (d : TypeDecl) (v : Data) : Prop :=
  ∃ ms vs, v.IsMapOf ms ∧ (member ms "fields").IsListOf vs ∧ List.Forall₂ Field.StandsAs d.fields vs

namespace Definition

variable {v : Data}

theorem list_text_eq_ok (ts : List Text) : list text (.list (ts.map .str)) = .ok ts := by
  refine items_eq_ok_iff.2 (List.forall₂_map_left_iff.2 ?_)
  exact List.forall₂_same.2 fun t _ => rfl

theorem enum_eq_ok {d : EnumDecl} (h : d.StandsAs v) : enum (.str d.name) v = .ok d := by
  refine bind_eq_ok_iff.2 ⟨_, partsOrEmpty_of_isListOf h, toExcept_eq_ok_iff.2 ?_⟩
  rw [list_text_eq_ok]
  rfl

theorem type_eq_ok {d : TypeDecl} (h : d.StandsAs v) (hd : ∀ f ∈ d.fields, f.typeName.Unmarked) :
    type (.str d.name) v = .ok d := by
  obtain ⟨ms, vs, hms, hvs, hfields⟩ := h
  exact bind_eq_ok_iff.2 ⟨ms, membersOrEmpty_of_isMapOf hms,
    bind_eq_ok_iff.2 ⟨d.fields, fields_eq_ok hvs hfields hd, rfl⟩⟩

end Definition

/-! ## Entities -/

/-- A condition as it is written: a truth value or a text. -/
def Condition.toData : Condition → Data
  | .literal b => .bool b
  | .expression s => .str s

/-- The members say what the rule is. -/
structure AccessRule.WrittenAs (r : AccessRule) (ms : List (Data × Data)) : Prop where
  kind : Says ms (.plain "kind") .str "allow" r.kind
  operations : Data.lookup ms "operations" = some (.list (r.operations.map .str))
  condition : Says ms (.plain "condition") Condition.toData (.literal true) r.condition

def AccessRule.StandsAs (r : AccessRule) (v : Data) : Prop := ∃ ms, r.WrittenAs ms ∧ v = .map ms

/-- A text, or null where there is none. -/
def Data.ofText? (s : Option Text) : Data := s.elim .null .str

/-- The members say what the entity says about its resource. -/
structure ResourceMeta.WrittenAs (about : ResourceMeta) (ms : List (Data × Data)) : Prop where
  tagDescription : Says ms ⟨"tagDescription", "tag_description"⟩ Data.ofText? none
    about.tagDescription
  security : Says ms (.plain "security") (·.getD .null) none about.security

/-- The value is a map that says what there is to say about a resource, or null. -/
def ResourceMeta.StandsAs : Option ResourceMeta → Data → Prop
  | none, v => v = .null
  | some about, v => ∃ ms, about.WrittenAs ms ∧ v = .map ms

/-- The members say what the entity is. -/
structure Entity.WrittenAs (e : Entity) (ms : List (Data × Data)) : Prop where
  fields : ∃ vs, (member ms "fields").IsListOf vs ∧ List.Forall₂ Field.StandsAs e.fields vs
  ignored : Says ms (.plain "ignore") .bool false e.ignored
  resource : ResourceMeta.StandsAs e.resource (member ms "meta")
  access : ∃ vs, (member ms "access").IsListOf vs ∧ List.Forall₂ AccessRule.StandsAs e.access vs

def Entity.StandsAs (e : Entity) (v : Data) : Prop := ∃ ms, e.WrittenAs ms ∧ v.IsMapOf ms

/-- A security requirement or a list of them. -/
def Data.IsSecurity (v : Data) : Prop :=
  (∃ ms, v.opened = .map ms) ∨ ∃ xs, v.opened = .list xs ∧ ∀ x ∈ xs, ∃ ms, x.opened = .map ms

namespace Definition

variable {v : Data} {ms : List (Data × Data)}

theorem accessRule_eq_ok {r : AccessRule} (h : r.StandsAs v) : Decode.accessRule v = .ok r := by
  obtain ⟨ms, h, rfl⟩ := h
  have hoperations : required ms (.plain "operations") Decode.operations = .ok r.operations :=
    required_eq_ok (find?_eq_of_outer h.operations) (list_text_eq_ok r.operations)
  have hcondition : Decode.condition r.condition.toData = .ok r.condition := by
    cases r.condition <;> rfl
  show AccessRule.mk
    <$> defaulted ms (.plain "kind") "allow" text
    <*> required ms (.plain "operations") Decode.operations
    <*> defaulted ms (.plain "condition") (.literal true) Decode.condition = _
  rw [h.kind.defaulted_eq_ok rfl, hoperations, h.condition.defaulted_eq_ok hcondition]
  rfl

theorem anyMap_eq_ok (h : ∃ ms, v.opened = .map ms) : anyMap v = .ok v := by
  obtain ⟨ms, hms⟩ := h
  rw [anyMap, hms]

/-- **A requirement or a list of them is kept as it is.** -/
theorem security_eq_ok (h : v.IsSecurity) : Decode.security v = .ok v := by
  unfold Decode.security
  rcases h with ⟨ms, hms⟩ | ⟨xs, hxs, hmaps⟩
  · rw [list, hms, anyMap_eq_ok ⟨ms, hms⟩]
    rfl
  · have hlist : list anyMap v = .ok xs := by
      rw [list, hxs]
      exact items_eq_ok_iff.2 (List.forall₂_same.2 fun x hx => anyMap_eq_ok (hmaps x hx))
    rw [hlist]

theorem nullable_security_eq_ok {s : Option Data} (h : ∀ v, s = some v → v.IsSecurity) :
    nullable Decode.security (s.getD .null) = .ok s := by
  cases s with
  | none => rfl
  | some v =>
    have hsecurity := h v rfl
    refine nullable_eq_ok ?_ (security_eq_ok hsecurity)
    rintro (rfl : v = .null)
    rcases hsecurity with ⟨ms, hms⟩ | ⟨xs, hxs, -⟩
    · cases hms
    · cases hxs

theorem resourceMeta_eq_ok {about : Option ResourceMeta} (h : ResourceMeta.StandsAs about v)
    (hsecurity : ∀ a, about = some a → ∀ s, a.security = some s → s.IsSecurity) :
    nullable Decode.resourceMeta v = .ok about := by
  cases about with
  | none =>
    obtain rfl : v = .null := h
    rfl
  | some about =>
    obtain ⟨ms, h, rfl⟩ := h
    have htext (s : Option Text) : nullable text (Data.ofText? s) = .ok s := by
      cases s <;> rfl
    refine nullable_eq_ok nofun ?_
    show ResourceMeta.mk
      <$> defaulted ms ⟨"tagDescription", "tag_description"⟩ none (nullable text)
      <*> defaulted ms (.plain "security") none (nullable Decode.security) = _
    rw [h.tagDescription.defaulted_eq_ok (htext _),
      h.security.defaulted_eq_ok (nullable_security_eq_ok (hsecurity about rfl))]
    rfl

theorem list_accessRule_eq_ok {rules : List AccessRule} {vs : List Data} (hv : v.IsListOf vs)
    (h : List.Forall₂ AccessRule.StandsAs rules vs) :
    list Decode.accessRule (if v.isVoid then .list [] else v) = .ok rules := by
  have hvs : items Decode.accessRule vs = .ok rules :=
    items_eq_ok_iff.2 (List.Forall₂.flip (h.imp fun _ _ => accessRule_eq_ok))
  rcases hv with rfl | ⟨hvoid, rfl⟩
  · cases vs with
    | nil => exact hvs
    | cons x xs => exact hvs
  · rw [if_pos hvoid]
    exact hvs

/-- **An entity is read back.** -/
theorem entity_eq_ok {e : Entity} (h : e.StandsAs v) (he : ∀ f ∈ e.fields, f.typeName.Unmarked)
    (hsecurity : ∀ a, e.resource = some a → ∀ s, a.security = some s → s.IsSecurity) :
    entity (.str e.name) v = .ok e := by
  obtain ⟨ms, h, hms⟩ := h
  obtain ⟨fs, hfs, hfields⟩ := h.fields
  obtain ⟨rs, hrs, hrules⟩ := h.access
  have hignored : (!(member ms "ignore").isVoid) = e.ignored := h.ignored.not_isVoid
  refine bind_eq_ok_iff.2 ⟨ms, membersOrEmpty_of_isMapOf hms,
    bind_eq_ok_iff.2 ⟨e.fields, fields_eq_ok hfs hfields he, toExcept_eq_ok_iff.2 ?_⟩⟩
  simp only [hignored, resourceMeta_eq_ok h.resource hsecurity, list_accessRule_eq_ok hrs hrules]
  rfl

end Definition

/-! ## Models -/

/-- The value is a map of declarations by name, each written in some way. -/
def SectionStandsAs {α : Type} (name : α → Text) (standsAs : α → Data → Prop) (ds : List α)
    (v : Data) : Prop :=
  ∃ ps, v.IsMapOf (writePairs [] ps) ∧
    List.Forall₂ (fun d p => p.1 = .str (name d) ∧ standsAs d p.2) ds ps

/-- The definition has the declarations of the model in its sections. -/
structure Model.WrittenAs (m : Model) (doc : List (Data × Data)) : Prop where
  enums : SectionStandsAs EnumDecl.name EnumDecl.StandsAs m.enums (member doc "enums")
  types : SectionStandsAs TypeDecl.name TypeDecl.StandsAs m.types (member doc "typedefs")
  entities : SectionStandsAs Entity.name Entity.StandsAs m.entities (member doc "entities")

/-- **A section is read back** when its names are distinct. -/
theorem Definition.declarations_eq_ok {α : Type} {name : α → Text} {standsAs : α → Data → Prop}
    {read : Data → Data → Except Failure α} {ds : List α} {doc : List (Data × Data)} {key : Text}
    (h : SectionStandsAs name standsAs ds (member doc key)) (hnames : (ds.map name).Nodup)
    (hread : ∀ d ∈ ds, ∀ v, standsAs d v → read (.str (name d)) v = .ok d) :
    declarations doc key read = .ok ds := by
  obtain ⟨ps, hmap, hps⟩ := h
  have hkeys : ps.map Prod.fst = (ds.map name).map Data.str := by
    rw [List.map_map]
    exact map_eq_map_of_forall₂ hps fun d p hp => hp.1
  have htext : ∀ p ∈ ps, ∃ s, p.1 = .str s := by
    intro p hp
    obtain ⟨d, -, hd, -⟩ := exists_of_mem_right hps hp
    exact ⟨_, hd⟩
  have hdistinct : (ps.map Prod.fst).Nodup := by
    rw [hkeys]
    exact hnames.map fun s t hst => Data.str.inj hst
  rw [writePairs_eq_self htext hdistinct] at hmap
  refine bind_eq_ok_iff.2 ⟨ps, membersOrEmpty_of_isMapOf hmap, mapM_eq_ok_iff.2 ?_⟩
  have hds : ∀ d ∈ ds, d ∈ ds := fun _ hd => hd
  refine List.Forall₂.flip (((List.forall₂_and_left _ _).2 ⟨hds, hps⟩).imp ?_)
  intro d p hp
  obtain ⟨hd, hkey, hbody⟩ := hp
  show read p.1 p.2 = .ok d
  rw [hkey]
  exact hread d hd p.2 hbody

/-! ## The plainest definition -/

def Field.toData (f : Field) : Data :=
  .map [(.str "name", .str f.name), (.str "type", .str f.typeName), (.str "array", .bool f.array),
    (.str "optional", .bool f.optional), (.str "id", .bool f.isId),
    (.str "foreign_key", .bool f.foreignKey), (.str "default", .bool f.hasDefault)]

def EnumDecl.toData (d : EnumDecl) : Data := .list (d.members.map .str)

def TypeDecl.toData (d : TypeDecl) : Data :=
  .map [(.str "fields", .list (d.fields.map Field.toData))]

def AccessRule.toData (r : AccessRule) : Data :=
  .map [(.str "kind", .str r.kind), (.str "operations", .list (r.operations.map .str)),
    (.str "condition", r.condition.toData)]

def ResourceMeta.toData (about : ResourceMeta) : Data :=
  .map [(.str "tagDescription", Data.ofText? about.tagDescription),
    (.str "security", about.security.getD .null)]

def Entity.toData (e : Entity) : Data :=
  .map [(.str "fields", .list (e.fields.map Field.toData)), (.str "ignore", .bool e.ignored),
    (.str "meta", (e.resource.map ResourceMeta.toData).getD .null),
    (.str "access", .list (e.access.map AccessRule.toData))]

/-- A section with the declarations written one after the other. -/
def Definition.sectionOf {α : Type} (name : α → Text) (toData : α → Data) (ds : List α) : Data :=
  .map (writePairs [] (ds.map fun d => (.str (name d), toData d)))

/-- The definition that says everything, each flag under its outer name. -/
def Model.toDefinition (m : Model) : List (Data × Data) :=
  [(.str "enums", sectionOf EnumDecl.name EnumDecl.toData m.enums),
    (.str "typedefs", sectionOf TypeDecl.name TypeDecl.toData m.types),
    (.str "entities", sectionOf Entity.name Entity.toData m.entities)]

theorem Field.standsAs_toData (f : Field) : f.StandsAs f.toData := by
  refine ⟨[], _, ?_, rfl⟩
  exact {
    text_keys := rfl
    name := rfl
    typeName := by rw [Text.marked_nil]; rfl
    array := .outer rfl
    optional := .outer rfl
    isId := .outer rfl
    foreignKey := .outer rfl
    hasDefault := .outer rfl }

theorem forall₂_toData {α : Type} {standsAs : α → Data → Prop} {toData : α → Data}
    (h : ∀ a, standsAs a (toData a)) (as : List α) : List.Forall₂ standsAs as (as.map toData) :=
  List.forall₂_map_right_iff.2 (List.forall₂_same.2 fun a _ => h a)

theorem TypeDecl.standsAs_toData (d : TypeDecl) : d.StandsAs d.toData :=
  ⟨_, _, .inl rfl, .inl rfl, forall₂_toData Field.standsAs_toData d.fields⟩

theorem AccessRule.standsAs_toData (r : AccessRule) : r.StandsAs r.toData :=
  ⟨_, ⟨.outer rfl, rfl, .outer rfl⟩, rfl⟩

theorem ResourceMeta.standsAs_toData (about : Option ResourceMeta) :
    ResourceMeta.StandsAs about ((about.map ResourceMeta.toData).getD .null) := by
  cases about with
  | none => rfl
  | some about => exact ⟨_, ⟨.outer rfl, .outer rfl⟩, rfl⟩

theorem Entity.standsAs_toData (e : Entity) : e.StandsAs e.toData := by
  refine ⟨_, ?_, .inl rfl⟩
  exact {
    fields := ⟨_, .inl rfl, forall₂_toData Field.standsAs_toData e.fields⟩
    ignored := .outer rfl
    resource := ResourceMeta.standsAs_toData e.resource
    access := ⟨_, .inl rfl, forall₂_toData AccessRule.standsAs_toData e.access⟩ }

theorem sectionStandsAs_sectionOf {α : Type} {name : α → Text} {standsAs : α → Data → Prop}
    {toData : α → Data} (h : ∀ d, standsAs d (toData d)) (ds : List α) :
    SectionStandsAs name standsAs ds (sectionOf name toData ds) :=
  ⟨_, .inl rfl, List.forall₂_map_right_iff.2 (List.forall₂_same.2 fun d _ => ⟨rfl, h d⟩)⟩

theorem Model.writtenAs_toDefinition (m : Model) : m.WrittenAs m.toDefinition where
  enums := sectionStandsAs_sectionOf (fun _ => .inl rfl) m.enums
  types := sectionStandsAs_sectionOf TypeDecl.standsAs_toData m.types
  entities := sectionStandsAs_sectionOf Entity.standsAs_toData m.entities

/-! ## Reading back -/

/-- **Definitions are read back.** A model whose names are distinct within each kind, and none of
whose field types ends in a mark, is read from its plainest definition and from every other one that
it is written as: whether flags are given by marks or by members, under which of its names a member
stands, and whether what goes without saying is said. -/
theorem Model.definition_read_back {m : Model} (hkinds : m.KindsDistinct)
    (hunmarked : ∀ p ∈ m.fieldOwners, ∀ f ∈ p.2, f.typeName.Unmarked)
    (hsecurity : ∀ e ∈ m.entities, ∀ about, e.resource = some about →
      ∀ s, about.security = some s → s.IsSecurity) :
    Model.ofDefinition m.toDefinition = .ok m ∧
      ∀ doc, m.WrittenAs doc → Model.ofDefinition doc = .ok m := by
  have hentity : ∀ e ∈ m.entities, ∀ f ∈ e.fields, f.typeName.Unmarked := fun e he =>
    hunmarked (e.name, e.fields) (List.mem_append_left _ (List.mem_map_of_mem he))
  have htype : ∀ d ∈ m.types, ∀ f ∈ d.fields, f.typeName.Unmarked := fun d hd =>
    hunmarked (d.name, d.fields) (List.mem_append_right _ (List.mem_map_of_mem hd))
  have hread : ∀ doc, m.WrittenAs doc → Model.ofDefinition doc = .ok m := by
    intro doc h
    have henums : Definition.declarations doc "enums" Definition.enum = .ok m.enums :=
      declarations_eq_ok h.enums hkinds.enums fun d _ v hv => enum_eq_ok hv
    have htypes : Definition.declarations doc "typedefs" Definition.type = .ok m.types :=
      declarations_eq_ok h.types hkinds.types fun d hd v hv => type_eq_ok hv (htype d hd)
    have hentities : Definition.declarations doc "entities" Definition.entity = .ok m.entities :=
      declarations_eq_ok h.entities hkinds.entities fun e he v hv =>
        entity_eq_ok hv (hentity e he) (hsecurity e he)
    exact bind_eq_ok_iff.2
      ⟨_, henums, bind_eq_ok_iff.2 ⟨_, htypes, bind_eq_ok_iff.2 ⟨_, hentities, rfl⟩⟩⟩
  exact ⟨hread _ m.writtenAs_toDefinition, hread⟩

/-! ## Notes -/

namespace Blog

/-- Notes, with labels that need not be given. -/
def notes : Model where
  entities := [{
    name := "Note"
    fields := [{ name := "id", typeName := "Int", isId := true },
      { name := "labels", typeName := "String", array := true, optional := true }] }]

/-- A note in a few words: a mark for each flag that has one, and nothing that goes without
saying. -/
def noteInBrief : Data :=
  .map [(.str "fields", .list [
    .map [(.str "name", .str "id"), (.str "type", .str "Int"), (.str "is_id", .bool true)],
    .map [(.str "name", .str "labels"), (.str "type", .str "String?[]")]])]

def notesInBrief : List (Data × Data) := [(.str "entities", .map [(.str "Note", noteInBrief)])]

theorem notes_writtenAs : notes.WrittenAs notesInBrief where
  enums := ⟨[], .inr ⟨rfl, rfl⟩, .nil⟩
  types := ⟨[], .inr ⟨rfl, rfl⟩, .nil⟩
  entities := by
    refine ⟨[(.str "Note", noteInBrief)], .inl rfl, .cons ⟨rfl, _, ?_, .inl rfl⟩ .nil⟩
    refine ⟨⟨_, .inl rfl, .cons ⟨[], _, ?_, rfl⟩ (.cons ⟨[.optional, .array], _, ?_, rfl⟩ .nil)⟩,
      .unsaid rfl rfl rfl, rfl, ⟨[], .inr ⟨rfl, rfl⟩, .nil⟩⟩
    · exact ⟨rfl, rfl, rfl, .unsaid rfl rfl rfl, .unsaid rfl rfl rfl, .own rfl rfl,
        .unsaid rfl rfl rfl, .unsaid rfl rfl rfl⟩
    · exact ⟨rfl, rfl, rfl, .unsaid rfl rfl rfl, .unsaid rfl rfl rfl, .unsaid rfl rfl rfl,
        .unsaid rfl rfl rfl, .unsaid rfl rfl rfl⟩

/-- The notes are read back from their definition in a few words. -/
theorem notes_read_back : notes.KindsDistinct ∧ notes.WrittenAs notesInBrief ∧
    Model.ofDefinition notesInBrief = .ok notes := by
  have hkinds : notes.KindsDistinct := by decide
  obtain ⟨-, hread⟩ := Model.definition_read_back hkinds (by decide) (by simp [notes])
  exact ⟨hkinds, notes_writtenAs, hread notesInBrief notes_writtenAs⟩

end Blog

end ResourceApi
