import ResourceApi.Proofs.Endpoint
import ResourceApi.Proofs.Resolution
import ResourceApi.Proofs.SchemaMention
import ResourceApi.Proofs.Words

/-!
# What admits null

A schema stands for the values that it accepts. A fragment that admits null should accept null and
what it accepted before, and nothing else. There are two ways to admit null, and they do not always
come to the same.

**What a schema accepts** (`Interpretation.accepts`). The members of a schema all have to be met: a
value has the type, it is accepted by all of several schemas or by exactly one of them, and it is
among the values that a reference stands for. Under the style of flags, `nullable` lets null through
whatever the members say, and a reference makes everything beside it void. What references stand for
and what other members demand is left open.

**The two styles** (`accepts_nullable_flag`, `accepts_nullable_asType`). The flag adds null. The
type `null` is one of two schemas exactly one of which must accept, so it adds null where the
fragment rejects it, and takes it away where the fragment has it.

**Main result** (`nullable_adds_null_iff`). Null is admitted in addition, but for the type whose
values are not restricted, and for references to what has null, where null is a type.
-/

namespace ResourceApi

open Schema

/-! ## What a schema accepts -/

/-- Is the value null? -/
def Json.isNull : Json → Bool
  | .null => true
  | _ => false

/-- Has the value the type? A whole number is an integer however it is written. -/
def Json.hasType : Json → Text → Bool
  | .null, t => t == "null"
  | .bool _, t => t == "boolean"
  | .int _, t => t == "integer" || t == "number"
  | .real x, t => t == "number" || t == "integer" && x.toInt?.isSome
  | .str _, t => t == "string"
  | .arr _, t => t == "array"
  | .obj _, t => t == "object"

/-- What is needed to tell which values a schema accepts. -/
structure Interpretation where
  style : NullStyle
  /-- The values that a reference with a path stands for. -/
  target : Text → Json → Bool
  /-- The values that meet a member that is not about types, null or other schemas. -/
  meets : Text → Json → Json → Bool

namespace Interpretation

/-- The path of a schema that is a reference and nothing else. -/
def link? (i : Interpretation) (ms : List (Text × Json)) : Option Text :=
  match i.style with
  | .flag => (Assoc.get? ms "$ref").bind Json.str?
  | .asType => none

/-- Do the members let null through? -/
def admitsNull (i : Interpretation) (ms : List (Text × Json)) : Bool :=
  match i.style, Assoc.get? ms "nullable" with
  | .flag, some (.bool flag) => flag
  | _, _ => false

mutual

/-- Does the schema accept the value? -/
def accepts (i : Interpretation) : Json → Json → Bool
  | .obj ms, v =>
    match i.link? ms with
    | some path => i.target path v
    | none => i.admitsNull ms && v.isNull || i.acceptsAll ms v
  | _, _ => false
termination_by structural s => s

/-- Does the value meet all members? Whether null is let through is no demand. -/
def acceptsAll (i : Interpretation) : List (Text × Json) → Json → Bool
  | [], _ => true
  | (k, x) :: ms, v => (k = "nullable" || i.acceptsMember k x v) && i.acceptsAll ms v
termination_by structural ms => ms

/-- Does the value meet a member? -/
def acceptsMember (i : Interpretation) (k : Text) : Json → Json → Bool
  | .str s, v =>
    if k = "$ref" then i.target s v else if k = "type" then v.hasType s else i.meets k (.str s) v
  | .arr xs, v =>
    if k = "allOf" then i.count xs v == xs.length
    else if k = "oneOf" then i.count xs v == 1
    else i.meets k (.arr xs) v
  | x, v => i.meets k x v
termination_by structural x => x

/-- The number of schemas that accept the value. -/
def count (i : Interpretation) : List Json → Json → Nat
  | [], _ => 0
  | s :: schemas, v => (i.accepts s v).toNat + i.count schemas v
termination_by structural schemas => schemas

end

/-! ## Fragments -/

section

variable {i : Interpretation} {s t v : Json} {ms : List (Text × Json)}

@[simp] theorem acceptsAll_nil : i.acceptsAll [] v = true := rfl

@[simp] theorem acceptsAll_cons {k : Text} {x : Json} :
    i.acceptsAll ((k, x) :: ms) v =
      ((k = "nullable" || i.acceptsMember k x v) && i.acceptsAll ms v) := rfl

@[simp] theorem count_nil : i.count [] v = 0 := rfl

@[simp] theorem count_cons {schemas : List Json} :
    i.count (s :: schemas) v = (i.accepts s v).toNat + i.count schemas v := rfl

theorem accepts_obj (h : isRef (.obj ms) = false) :
    i.accepts (.obj ms) v = (i.admitsNull ms && v.isNull || i.acceptsAll ms v) := by
  have hnone : Assoc.get? ms "$ref" = none := by simpa [isRef, Assoc.has] using h
  have hlink : i.link? ms = none := by
    unfold link?
    rw [hnone]
    cases i.style <;> rfl
  rw [accepts, hlink]

@[simp] theorem accepts_empty : i.accepts (.obj []) v = true := by
  rw [accepts_obj rfl, acceptsAll_nil, Bool.or_true]

@[simp] theorem accepts_ref (name : Text) :
    i.accepts (ref name) v = i.target (schemaPath ++ name) v := by
  unfold ref accepts link?
  cases hstyle : i.style with
  | flag => rfl
  | asType => simp [admitsNull, hstyle, acceptsMember, Text.ofString_inj]

@[simp] theorem accepts_typed (t : Text) : i.accepts (typed t) v = v.hasType t := by
  unfold typed
  rw [accepts_obj rfl]
  simp [admitsNull, acceptsMember, Assoc.get?_cons, Text.ofString_inj]

theorem acceptsMember_allOf_singleton :
    i.acceptsMember "allOf" (.arr [s]) v = i.accepts s v := by
  cases h : i.accepts s v <;> simp [acceptsMember, h]

@[simp] theorem accepts_oneOf_pair :
    i.accepts (oneOf [s, t]) v = (i.accepts s v ^^ i.accepts t v) := by
  unfold oneOf
  rw [accepts_obj rfl]
  cases hs : i.accepts s v <;> cases ht : i.accepts t v <;>
    simp [admitsNull, acceptsMember, Assoc.get?_cons, Text.ofString_inj, hs, ht]

theorem accepts_null_of_type {t : String} (ht : t ≠ "null") (href : isRef (.obj ms) = false)
    (hflag : Assoc.get? ms "nullable" = none) :
    i.accepts (.obj (("type", .str t) :: ms)) .null = false := by
  have hadmits : i.admitsNull (("type", .str t) :: ms) = false := by
    unfold admitsNull
    rw [Assoc.get?_cons, if_neg (by decide), hflag]
    cases i.style <;> rfl
  have hlink : isRef (.obj (("type", .str t) :: ms)) = false := by
    rw [isRef, Assoc.has, Assoc.get?_cons, if_neg (by decide)]
    exact href
  rw [accepts_obj hlink, hadmits]
  simp [acceptsMember, Json.hasType, Text.ofString_inj, ht]

end

/-! ## The two styles -/

section

variable {i : Interpretation} {s v : Json} {ms : List (Text × Json)}

theorem acceptsAll_insert_flag (b : Json) :
    i.acceptsAll (Assoc.insert ms "nullable" b) v = i.acceptsAll ms v := by
  induction ms with
  | nil => simp [Assoc.insert]
  | cons p ms ih =>
    obtain ⟨k, x⟩ := p
    by_cases hk : k = "nullable"
    · simp [Assoc.insert, hk]
    · simp [Assoc.insert, hk, ih]

/-- **The flag adds null** to whatever it is put to. -/
theorem accepts_nullable_flag (hi : i.style = .flag) (hs : IsObject s) :
    i.accepts (nullable .flag s) v = (v.isNull || i.accepts s v) := by
  have hadmits {ms : List (Text × Json)} (h : Assoc.get? ms "nullable" = some (.bool true)) :
      i.admitsNull ms = true := by
    unfold admitsNull
    rw [hi, h]
  unfold nullable
  simp only
  split_ifs with href
  · -- the flag is put to a schema around the reference
    rw [accepts_obj rfl, hadmits rfl, acceptsAll_cons, acceptsMember_allOf_singleton]
    simp [Text.ofString_inj]
  · cases s with
    | obj ms =>
      have href : isRef (.obj ms) = false := by simpa using href
      have hnone : isRef (.obj (Assoc.insert ms "nullable" (.bool true))) = false := by
        simpa [isRef, Assoc.has, Assoc.get?_insert, Text.ofString_inj] using href
      have hflag : Assoc.get? (Assoc.insert ms "nullable" (.bool true)) "nullable" =
          some (.bool true) := by
        rw [Assoc.get?_insert, if_pos rfl]
      rw [flagged, accepts_obj hnone, accepts_obj href, hadmits hflag, acceptsAll_insert_flag]
      cases v.isNull <;> simp
    | _ => cases hs

/-- **The type adds null** where the schema rejects it, and takes it away where it does not. -/
theorem accepts_nullable_asType :
    i.accepts (nullable .asType s) v = (i.accepts s v ^^ v.isNull) := by
  have htype : v.hasType "null" = v.isNull := by
    cases v <;> simp [Json.hasType, Json.isNull, Text.ofString_inj]
  rw [nullable, accepts_oneOf_pair, accepts_typed, htype]

theorem accepts_nullable_of_ne_null (hs : IsObject s) (hv : v ≠ .null) :
    i.accepts (nullable i.style s) v = i.accepts s v := by
  have hnull : v.isNull = false := by
    cases v with
    | null => exact absurd rfl hv
    | _ => rfl
  cases hi : i.style with
  | flag => rw [accepts_nullable_flag hi hs, hnull, Bool.false_or]
  | asType => rw [accepts_nullable_asType, hnull, Bool.xor_false]

/-- **Null is admitted** unless it is a type and the schema has it already. -/
theorem accepts_nullable_null_iff (hs : IsObject s) :
    i.accepts (nullable i.style s) .null = true ↔
      ¬ (i.style = .asType ∧ i.accepts s .null = true) := by
  cases hi : i.style with
  | flag => simp [accepts_nullable_flag hi hs, Json.isNull]
  | asType => simp [accepts_nullable_asType, Json.isNull]

end

end Interpretation

/-! ## What null is added to -/

/-- The schemas that null is added to: types of fields, references to relationships and to what they
relate, and of the shared schemas the links of pages and the request for a relationship. -/
inductive Model.Widens (m : Model) : Json → Prop
  | fieldType {owner : Option Text} {f : Field} {s : Json} :
      m.baseSchema owner f = .ok s → m.Widens s
  | reference (name : Text) : m.Widens (ref name)
  | link (description : Text) : m.Widens (described "string" description)
  | request : m.Widens (.obj [("type", "object"), ("required", Json.texts ["data"]),
      ("properties", .obj [("data", ref "_resourceIdentifier")])])

/-- Null is a type, and the schema has null already: it is that of the type whose values are not
restricted, or refers to what has null. -/
def Interpretation.HasNullTwice (i : Interpretation) (s : Json) : Prop :=
  i.style = .asType ∧
    (s = .obj [] ∨ ∃ name, s = ref name ∧ i.target (schemaPath ++ name) .null = true)

section

variable {m : Model} {i : Interpretation} {s : Json}

theorem Interpretation.accepts_null_primitive {p : Primitive} (hp : p ≠ .json) :
    i.accepts p.schema .null = false := by
  cases p with
  | decimal =>
    rw [Primitive.schema, accepts_oneOf_pair, accepts_typed, accepts_typed]
    decide
  | json => exact absurd rfl hp
  | _ => exact accepts_null_of_type (by decide) rfl rfl

theorem Model.Widens.cases (h : m.Widens s) :
    s = .obj [] ∨ (∃ name, s = ref name) ∨ ∀ i : Interpretation, i.accepts s .null = false := by
  cases h with
  | fieldType h =>
    rcases baseSchema_cases h with ⟨p, rfl⟩ | ⟨name, -, rfl⟩
    · by_cases hp : p = .json
      · subst hp
        exact .inl rfl
      · exact .inr (.inr fun i => i.accepts_null_primitive hp)
    · exact .inr (.inl ⟨name, rfl⟩)
  | reference name => exact .inr (.inl ⟨name, rfl⟩)
  | link description =>
    exact .inr (.inr fun i => Interpretation.accepts_null_of_type (by decide) rfl rfl)
  | request => exact .inr (.inr fun i => Interpretation.accepts_null_of_type (by decide) rfl rfl)

theorem Model.Widens.isObject (h : m.Widens s) : IsObject s := by
  cases h with
  | fieldType h => exact isObject_baseSchema h
  | _ => trivial

/-- **What null is added to has null** only as the type without restrictions, or by reference. -/
theorem Model.Widens.accepts_null_iff (h : m.Widens s) : i.accepts s .null = true ↔
    s = .obj [] ∨ ∃ name, s = ref name ∧ i.target (schemaPath ++ name) .null = true := by
  constructor
  · intro hnull
    rcases h.cases with rfl | ⟨name, rfl⟩ | hreject
    · exact .inl rfl
    · exact .inr ⟨name, rfl, Interpretation.accepts_ref name ▸ hnull⟩
    · rw [hreject i] at hnull
      cases hnull
  · rintro (rfl | ⟨name, rfl, htarget⟩)
    · exact Interpretation.accepts_empty
    · rw [Interpretation.accepts_ref, htarget]

end

/-! ## Main result -/

/-- **Null is admitted in addition**, and nothing but null is added or taken away: what null is
added to accepts null and what it accepted before, unless null is a type and the schema has null
already. So a field that may be null accepts null, unless null is a type and the type of the field
is the one without restrictions, or refers to what has null. -/
theorem Interpretation.nullable_adds_null_iff (i : Interpretation) (m : Model) :
    (∀ s, m.Widens s →
      (∀ v, v ≠ .null → i.accepts (nullable i.style s) v = i.accepts s v) ∧
      ((∀ v, i.accepts (nullable i.style s) v = true ↔ v = .null ∨ i.accepts s v = true) ↔
        ¬ i.HasNullTwice s)) ∧
    ∀ (owner : Option Text) (f : Field), m.Resolves f → f.optional = true → f.array = false →
      ∃ base s, m.baseSchema owner f = .ok base ∧ m.fieldSchema i.style owner f = .ok s ∧
        (∀ v, v ≠ .null → i.accepts s v = i.accepts base v) ∧
        (i.accepts s .null = true ↔ ¬ i.HasNullTwice base) := by
  have hnull : ∀ s, m.Widens s →
      (i.accepts (nullable i.style s) .null = true ↔ ¬ i.HasNullTwice s) := by
    intro s hs
    rw [accepts_nullable_null_iff hs.isObject, hs.accepts_null_iff, HasNullTwice]
  refine ⟨?_, ?_⟩
  · intro s hs
    have hother : ∀ v, v ≠ .null → i.accepts (nullable i.style s) v = i.accepts s v :=
      fun v hv => accepts_nullable_of_ne_null hs.isObject hv
    refine ⟨hother, ?_⟩
    rw [← hnull s hs]
    constructor
    · intro h
      exact (h .null).2 (.inl rfl)
    · intro h v
      by_cases hv : v = .null
      · subst hv
        simp [h]
      · rw [hother v hv, or_iff_right hv]
  · intro owner f hf hoptional harray
    obtain ⟨base, hbase⟩ := Model.succeeds_baseSchema_iff.2 hf
    have hs : m.Widens base := .fieldType hbase
    refine ⟨base, nullable i.style base, hbase, ?_, ?_, hnull base hs⟩
    · rw [Model.fieldSchema, hbase]
      simp [nullableIf, arrayIf, hoptional, harray, Except.map]
    · exact fun v hv => accepts_nullable_of_ne_null hs.isObject hv

namespace Blog

/-- References stand for texts, and members that are about nothing else demand nothing. -/
def textual (style : NullStyle) : Interpretation where
  style
  target _ v := v.hasType "string"
  meets _ _ _ := true

/-- Data of any shape that need not be given. -/
def extras : Field where
  name := "extras"
  typeName := "Json"
  optional := true

/-- A role that may be null can be null and can be an administrator's, where null is a type. -/
theorem role_may_be_null : ∃ s,
    generator.model.fieldSchema .asType (some "User")
      { name := "role", typeName := "Role", optional := true } = .ok s ∧
    (textual .asType).accepts s .null = true ∧ (textual .asType).accepts s "admin" = true := by
  obtain ⟨base, s, hbase, hs, hother, hnull⟩ :=
    ((textual .asType).nullable_adds_null_iff generator.model).2 (some "User")
      { name := "role", typeName := "Role", optional := true } (.inr rfl) rfl rfl
  cases hbase
  refine ⟨s, hs, ?_, ?_⟩
  · apply hnull.2
    intro htwice
    obtain ⟨-, h | ⟨name, -, htarget⟩⟩ := htwice
    · cases h
    · cases htarget
  · rw [hother (.str "admin") (by simp)]
    exact Interpretation.accepts_ref "Role"

/-- **Null is not always admitted**: data of any shape that need not be given cannot be null where
null is a type. -/
theorem extras_not_null : ¬ ∀ (i : Interpretation) (m : Model) (owner : Option Text) (f : Field)
    (s : Json), m.baseSchema owner f = .ok s →
      ∀ v, (i.accepts (nullable i.style s) v = true ↔ v = .null ∨ i.accepts s v = true) := by
  intro hall
  have hnull := (hall (textual .asType) {} none extras (.obj []) rfl .null).2 (.inl rfl)
  exact absurd hnull (by decide)

end Blog

end ResourceApi
