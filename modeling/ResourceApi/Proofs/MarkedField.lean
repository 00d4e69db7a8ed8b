import ResourceApi.Proofs.Acceptance
import ResourceApi.Proofs.DefinitionShape
import ResourceApi.Proofs.TypeMark

/-!
# Fields with marks

A field is read from the members of a map after the marks behind its type have been written out as
members of their own (`markedMembers`). Whatever else the map holds is found as it was
(`lookup_markedMembers_of_ne`), and a flag that the map gives is not written over.

**Main result** (`marked_type_read`). A field with marks behind its type is the field that the other
members say (`markedField`): its type is the name before the marks, and where a flag is not given
the marks say whether it is set. Every type stands for one name and one list of marks, of which only
matters which marks are in it.
-/

namespace ResourceApi

open Checked

/-- The member of a field that a mark stands for. -/
def Mark.key : Mark → Text
  | .optional => "optional"
  | .array => "array"

namespace Definition

/-! ## Members with the marks written out -/

/-- The text of a field's type; a field without one has the empty text. -/
def typeText (ms : List (Data × Data)) : Except Misfit Text :=
  ((Data.lookup ms "type").getD (.str "")).text

/-- The members of a field with its marks written out. -/
def markedMembers (ms : List (Data × Data)) (t : Text) (marks : List Mark) : List (Data × Data) :=
  let ms := if .optional ∈ marks then Data.insertNew ms "optional" (.bool true) else ms
  let ms := if .array ∈ marks then Data.insertNew ms "array" (.bool true) else ms
  Data.insertKey ms (.str "type") (.str t)

variable {ms : List (Data × Data)} {t : Text} {marks : List Mark}

theorem expandType_eq (htype : typeText ms = .ok (t.marked marks)) (ht : t.Unmarked) :
    expandType ms = .ok (markedMembers ms t marks) := by
  refine bind_eq_ok_iff.2 ⟨t.marked marks, htype, ?_⟩
  rw [MarkedType.ofText_marked ht]
  simp [markedMembers]
  rfl

section

variable (ms : List (Data × Data)) (t : Text) (marks : List Mark)

theorem lookup_insertNew_if (a key : Text) (b : Data) (c : Prop) [Decidable c] :
    Data.lookup (if c then Data.insertNew ms a b else ms) key =
      if a = key ∧ c then (Data.lookup ms key).or (some b) else Data.lookup ms key := by
  split_ifs with hc h h
  · rw [Data.lookup_insertNew, if_pos h.1]
  · rw [Data.lookup_insertNew, if_neg fun ha => h ⟨ha, hc⟩]
  · exact absurd h.2 hc
  · rfl

theorem lookup_markedMembers_type :
    Data.lookup (markedMembers ms t marks) "type" = some (.str t) := by
  simp [markedMembers, Data.lookup_insertKey]

theorem lookup_markedMembers_key (k : Mark) : Data.lookup (markedMembers ms t marks) k.key =
    if k ∈ marks then (Data.lookup ms k.key).or (some (.bool true))
    else Data.lookup ms k.key := by
  cases k <;>
    simp [markedMembers, Mark.key, Data.lookup_insertKey, lookup_insertNew_if, Text.ofString_inj]

theorem lookup_markedMembers_of_ne {key : Text} (htype : key ≠ "type")
    (hkey : ∀ k : Mark, key ≠ k.key) :
    Data.lookup (markedMembers ms t marks) key = Data.lookup ms key := by
  have harray : key ≠ "array" := hkey .array
  have hoptional : key ≠ "optional" := hkey .optional
  simp [markedMembers, Data.lookup_insertKey, lookup_insertNew_if, htype.symm, harray.symm,
    hoptional.symm]

end

/-! ## The field they say -/

/-- The field of a type and some marks, the rest of it as the members say. A flag that they give
stands, and otherwise there is a mark for it or none. -/
def markedField (ms : List (Data × Data)) (t : Text) (marks : List Mark) : Checked Field :=
  Field.mk
    <$> required ms (.plain "name") text
    <*> .ok t
    <*> defaulted ms (.plain "array") (decide (.array ∈ marks)) bool
    <*> defaulted ms (.plain "optional") (decide (.optional ∈ marks)) bool
    <*> Decode.flag ms ⟨"id", "is_id"⟩
    <*> Decode.flag ms (.plain "foreign_key")
    <*> Decode.flag ms ⟨"default", "has_default"⟩

theorem defaulted_markedMembers (ms : List (Data × Data)) (t : Text) (marks : List Mark)
    (k : Mark) : defaulted (markedMembers ms t marks) (.plain k.key) false bool =
      defaulted ms (.plain k.key) (decide (k ∈ marks)) bool := by
  have hlookup := lookup_markedMembers_key ms t marks k
  unfold defaulted find?
  simp only [Name.plain, hlookup]
  cases Data.lookup ms k.key with
  | none => by_cases hk : k ∈ marks <;> simp [hk, Checked.bool, under]
  | some v => by_cases hk : k ∈ marks <;> simp [hk]

/-- **The members with the marks written out say the field of its type and marks.** -/
theorem fieldMembers_markedMembers (ms : List (Data × Data)) (t : Text) (marks : List Mark) :
    Decode.fieldMembers (markedMembers ms t marks) = markedField ms t marks := by
  have hkeep (key : String) (hkey : key ≠ "type" ∧ key ≠ "array" ∧ key ≠ "optional") :
      Data.lookup (markedMembers ms t marks) key = Data.lookup ms key := by
    refine lookup_markedMembers_of_ne ms t marks ?_ fun k => ?_
    · simp [Text.ofString_inj, hkey]
    · cases k <;> simp [Mark.key, Text.ofString_inj, hkey]
  have hfind (outer own : String) (houter : outer ≠ "type" ∧ outer ≠ "array" ∧ outer ≠ "optional")
      (hown : own ≠ "type" ∧ own ≠ "array" ∧ own ≠ "optional") :
      find? (markedMembers ms t marks) ⟨outer, own⟩ = find? ms ⟨outer, own⟩ :=
    find?_congr (hkeep outer houter) (hkeep own hown)
  have hname : required (markedMembers ms t marks) (.plain "name") text =
      required ms (.plain "name") text :=
    required_congr (hfind "name" "name" (by decide) (by decide))
  have htype : required (markedMembers ms t marks) (.plain "type") text = .ok t :=
    required_eq_ok (find?_eq_of_outer (lookup_markedMembers_type ms t marks)) rfl
  have hflag (n : Name) (h : find? (markedMembers ms t marks) n = find? ms n) :
      Decode.flag (markedMembers ms t marks) n = Decode.flag ms n := defaulted_congr h
  have harray : Decode.flag (markedMembers ms t marks) (.plain "array") =
      defaulted ms (.plain "array") (decide (.array ∈ marks)) bool :=
    defaulted_markedMembers ms t marks .array
  have hoptional : Decode.flag (markedMembers ms t marks) (.plain "optional") =
      defaulted ms (.plain "optional") (decide (.optional ∈ marks)) bool :=
    defaulted_markedMembers ms t marks .optional
  unfold Decode.fieldMembers markedField
  rw [hname, htype, harray, hoptional,
    hflag ⟨"id", "is_id"⟩ (hfind "id" "is_id" (by decide) (by decide)),
    hflag (.plain "foreign_key") (hfind "foreign_key" "foreign_key" (by decide) (by decide)),
    hflag ⟨"default", "has_default"⟩ (hfind "default" "has_default" (by decide) (by decide))]

theorem markedField_congr {ms' : List (Data × Data)} {marks' : List Mark}
    (hms : ∀ key : Text, key ≠ "type" → Data.lookup ms' key = Data.lookup ms key)
    (hmarks : ∀ k, k ∈ marks' ↔ k ∈ marks) : markedField ms' t marks' = markedField ms t marks := by
  have hfind (outer own : String) (houter : outer ≠ "type") (hown : own ≠ "type") :
      find? ms' ⟨outer, own⟩ = find? ms ⟨outer, own⟩ :=
    find?_congr (hms outer (by simpa [Text.ofString_inj] using houter))
      (hms own (by simpa [Text.ofString_inj] using hown))
  have hplain (key : String) (hkey : key ≠ "type") :
      find? ms' (.plain key) = find? ms (.plain key) :=
    hfind key key hkey hkey
  have hflag (n : Name) (h : find? ms' n = find? ms n) : Decode.flag ms' n = Decode.flag ms n :=
    defaulted_congr h
  unfold markedField
  rw [required_congr (hplain "name" (by decide)), defaulted_congr (hplain "array" (by decide)),
    defaulted_congr (hplain "optional" (by decide)),
    hflag ⟨"id", "is_id"⟩ (hfind "id" "is_id" (by decide) (by decide)),
    hflag (.plain "foreign_key") (hplain "foreign_key" (by decide)),
    hflag ⟨"default", "has_default"⟩ (hfind "default" "has_default" (by decide) (by decide)),
    decide_eq_decide.2 (hmarks .array), decide_eq_decide.2 (hmarks .optional)]

/-- The flags of a field. -/
def flagNames : List Name :=
  [.plain "array", .plain "optional", ⟨"id", "is_id"⟩, .plain "foreign_key",
    ⟨"default", "has_default"⟩]

/-- **There is such a field** when its name is a text and every flag that is given is a truth
value. -/
theorem exists_markedField_iff (ms : List (Data × Data)) (t : Text) (marks : List Mark) :
    (∃ f, markedField ms t marks = .ok f) ↔
      (∃ name, required ms (.plain "name") text = .ok name) ∧
      ∀ n ∈ flagNames, ∀ used w, find? ms n = some (used, w) → ∃ b, Checked.bool w = .ok b := by
  simp only [markedField, Decode.flag, exists_seq_eq_ok_iff, exists_map_eq_ok_iff,
    exists_defaulted_eq_ok_iff, flagNames, List.forall_mem_cons, List.not_mem_nil, false_imp_iff,
    implies_true, Checked.ok.injEq, exists_eq', and_true, and_assoc]

theorem typeName_of_markedField {f : Field} (h : markedField ms t marks = .ok f) :
    f.typeName = t := by
  simp only [markedField, seq_eq_ok_iff, Checked.map_eq_ok_iff] at h
  obtain ⟨_, _, ⟨_, _, ⟨_, _, ⟨_, _, ⟨_, _, ⟨_, _, ⟨_, -, rfl⟩, htype, rfl⟩, -, rfl⟩, -, rfl⟩,
    -, rfl⟩, -, rfl⟩, -, rfl⟩ := h
  cases htype
  rfl

/-- **A field with marks behind its type is read as the field of its type and marks**, if all keys
are texts. -/
theorem field_eq_markedField {v : Data} (hv : StandsFor v ms) (ht : t.Unmarked)
    (htype : typeText ms = .ok (t.marked marks)) :
    field v = if textKeys ms then (markedField ms t marks).toExcept (some .definition) "EntityField"
      else .error (.misfit .keyNotText) := by
  have hexpand := expandType_eq htype ht
  have hkeys : textKeys (markedMembers ms t marks) = textKeys ms := textKeys_of_expandType hexpand
  show (membersOf v >>= fun ms => (expandType ms).mapError Failure.misfit >>= fieldOfMembers) = _
  rw [membersOf_eq_ok_iff.2 hv]
  show ((expandType ms).mapError Failure.misfit >>= fieldOfMembers) = _
  rw [hexpand]
  show fieldOfMembers (markedMembers ms t marks) = _
  rw [fieldOfMembers, hkeys, fieldMembers_markedMembers]

/-- **Marks behind a type are read.** Every text is a name that ends in no mark with some marks
behind it, in one way. A field of such a type has the name for its type. A flag that the field gives
stands, and one that it does not give is set when there is a mark for it; everything else is as the
members say, and there is a field when they say it well. Neither the order of the marks nor how
often one stands there matters. -/
theorem marked_type_read {v : Data} (hv : StandsFor v ms) (ht : t.Unmarked)
    (htype : typeText ms = .ok (t.marked marks)) :
    (∀ s : Text, ∃! d : Text × List Mark, d.1.Unmarked ∧ d.1.marked d.2 = s) ∧
    (field v =
      if textKeys ms then (markedField ms t marks).toExcept (some .definition) "EntityField"
      else .error (.misfit .keyNotText)) ∧
    (Succeeds (field v) ↔ textKeys ms = true ∧
      (∃ name, required ms (.plain "name") text = .ok name) ∧
      ∀ n ∈ flagNames, ∀ used w, find? ms n = some (used, w) → ∃ b, Checked.bool w = .ok b) ∧
    (∀ f, field v = .ok f → f.typeName = t) ∧
    (∃ ms', expandType ms = .ok ms' ∧ ∀ key : Text, key ≠ "type" → (∀ k : Mark, key ≠ k.key) →
      Data.lookup ms' key = Data.lookup ms key) ∧
    ∀ v' ms' marks', StandsFor v' ms' → typeText ms' = .ok (t.marked marks') →
      (∀ k, k ∈ marks' ↔ k ∈ marks) → textKeys ms' = textKeys ms →
      (∀ key : Text, key ≠ "type" → Data.lookup ms' key = Data.lookup ms key) →
      field v' = field v := by
  have hfield := field_eq_markedField hv ht htype
  refine ⟨Text.existsUnique_marked, hfield, ?_, fun f hf => ?_, ?_, ?_⟩
  · rw [← exists_markedField_iff ms t marks, hfield]
    split_ifs with hkeys
    · simp only [Succeeds, toExcept_eq_ok_iff, hkeys, true_and]
    · simp [hkeys]
  · rw [hfield] at hf
    split_ifs at hf
    exact typeName_of_markedField (toExcept_eq_ok_iff.1 hf)
  · exact ⟨_, expandType_eq htype ht, fun key => lookup_markedMembers_of_ne ms t marks⟩
  · intro v' ms' marks' hv' htype' hmarks hkeys hms
    rw [field_eq_markedField hv' ht htype', markedField_congr hms hmarks, hkeys, hfield]

end Definition

namespace Blog

/-- Labels with a mark that they contradict: an array of texts, and not an optional one. -/
def labelMembers : List (Data × Data) :=
  [(.str "name", .str "labels"), (.str "type", .str "String[]?[]"), (.str "optional", .bool false)]

theorem labels_read :
    Definition.StandsFor (.map labelMembers) labelMembers ∧ (Text.ofString "String").Unmarked ∧
    Definition.typeText labelMembers =
      .ok ((Text.ofString "String").marked [.array, .optional, .array]) ∧
    Definition.field (.map labelMembers) =
      .ok { name := "labels", typeName := "String", array := true } := by
  have hv : Definition.StandsFor (.map labelMembers) labelMembers := .map rfl
  have ht : (Text.ofString "String").Unmarked := by decide
  have htype : Definition.typeText labelMembers =
      .ok ((Text.ofString "String").marked [.array, .optional, .array]) := rfl
  obtain ⟨-, hfield, -⟩ := Definition.marked_type_read hv ht htype
  exact ⟨hv, ht, htype, hfield.trans rfl⟩

end Blog

end ResourceApi
