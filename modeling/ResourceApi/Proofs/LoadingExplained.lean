import ResourceApi.Proofs.DefinitionShape
import ResourceApi.Proofs.OptionOverride
import ResourceApi.Proofs.Yaml.SetOrder

/-!
# What loading explains

A text that is malformed, or that holds no map, is always refused with words. Loading can end in a
misfit in two places only: while the text is read, and in the shape of what was read. For a
definition the shapes are those of `Definition.Fits`; options have a single one, that all keys are
texts.

**Loading is explained** (`loading_explained_iff`) exactly when the text can be read and the shapes
are right. Whether the text can be read depends on how deep the reader goes, but not on the order in
which it leaves the items of sets (`readable_congr`); the shapes may depend on that too, as a
definition is read in that order up to what is first wrong with it.
-/

namespace ResourceApi

variable {file : Location} {text : String} {reader : Yaml.Reader}

/-- Reading the text ends in no misfit. -/
def Readable (text : String) (reader : Yaml.Reader) : Prop :=
  ∀ m, Yaml.read text.toList reader ≠ .error (.misfit m)

/-- Whether a text can be read does not depend on the order of sets. -/
theorem readable_congr {reader' : Yaml.Reader} (h : reader.maxDepth = reader'.maxDepth) :
    Readable text reader ↔ Readable text reader' := by
  have hread := Yaml.read_alike h text.toList
  unfold Readable
  generalize Yaml.read text.toList reader = x, Yaml.read text.toList reader' = y at hread ⊢
  cases hread with
  | ok _ => exact iff_of_true nofun nofun
  | error d => rfl

theorem FileRole.explained_read_iff {role : FileRole} :
    Explained (role.read file text reader) ↔ Readable text reader := by
  unfold FileRole.read Readable
  cases Yaml.read text.toList reader with
  | ok v => exact iff_of_true (explained_ok v) nofun
  | error d =>
    cases d with
    | malformed => exact iff_of_true (explained_error_iff.2 rfl) nofun
    | misfit m => exact iff_of_false (fun h => explained_iff.1 h m rfl) fun h => h m rfl

theorem FileRole.read_eq_ok_iff {role : FileRole} {v : Data} :
    role.read file text reader = .ok v ↔ Yaml.read text.toList reader = .ok v := by
  unfold FileRole.read
  cases Yaml.read text.toList reader with
  | ok w => simp
  | error d => cases d <;> simp

theorem FileRole.explained_members (role : FileRole) (file : Location) (v : Data) :
    Explained (role.members file v) := by
  unfold FileRole.members
  split
  · exact explained_ok _
  · exact explained_error_iff.2 rfl

theorem FileRole.members_eq_ok_iff {role : FileRole} {v : Data} {ms : List (Data × Data)} :
    role.members file v = .ok ms ↔ v.opened = .map ms := by
  unfold FileRole.members
  cases v.opened <;> simp

theorem Model.explained_load_iff :
    Explained (Model.load file text reader) ↔ Readable text reader ∧
      ∀ v doc, Yaml.read text.toList reader = .ok v → v.opened = .map doc →
        Definition.Fits doc := by
  have hmodel (doc : List (Data × Data)) :
      Explained (Model.ofDefinition doc >>= fun m =>
        m.checkReferences.mapError Failure.unresolved >>= fun _ => pure m) ↔
        Definition.Fits doc := by
    rw [explained_bind_iff, Definition.explained_ofDefinition_iff, and_iff_left]
    intro m _
    exact explained_bind_iff.2 ⟨explained_mapError_unresolved _, fun _ _ => explained_ok m⟩
  unfold Model.load
  simp only [explained_bind_iff (x := FileRole.read _ _ _ _), FileRole.explained_read_iff,
    FileRole.read_eq_ok_iff, explained_bind_iff (x := FileRole.members _ _ _),
    FileRole.explained_members, FileRole.members_eq_ok_iff, hmodel, true_and]
  exact and_congr_right fun _ => forall_congr' fun v => forall_comm

theorem Options.explained_fileMembers_iff :
    Explained (Options.fileMembers file text reader) ↔ Readable text reader := by
  unfold Options.fileMembers
  rw [explained_bind_iff, FileRole.explained_read_iff, and_iff_left]
  intro v _
  split_ifs
  · exact explained_ok []
  · exact FileRole.explained_members .options file v

theorem Options.explained_ofData_map_iff {ms : List (Data × Data)} :
    Explained (Options.ofData (.map ms)) ↔
      namesForeign (.map ms) = true ∨ Definition.textKeys ms = true := by
  by_cases hforeign : namesForeign (.map ms) = true
  · have hrefused : Options.ofData (.map ms) = .error .unsupportedOption := if_pos hforeign
    rw [hrefused]
    exact iff_of_true (explained_error_iff.2 rfl) (.inl hforeign)
  · rw [ofData_map (by simpa using hforeign), or_iff_right hforeign]
    split_ifs with htext
    · exact iff_of_true (explained_toExcept _ _ _) htext
    · exact iff_of_false (fun h => explained_iff.1 h _ rfl) htext

theorem Options.fileMembers_eq_ok_iff {ms : List (Data × Data)} :
    Options.fileMembers file text reader = .ok ms ↔
      ∃ v, Yaml.read text.toList reader = .ok v ∧
        (v.isVoid = true ∧ ms = [] ∨ v.isVoid = false ∧ v.opened = .map ms) := by
  unfold Options.fileMembers
  rw [bind_eq_ok_iff]
  refine exists_congr fun v => and_congr FileRole.read_eq_ok_iff ?_
  split_ifs with hvoid
  · simp [hvoid, pure, Except.pure, eq_comm]
  · simp [hvoid, FileRole.members_eq_ok_iff]

/-- Options are loaded, or it is said why not, when the text can be read and the keys are texts.
Overrides do not matter, unless they name an option of another kind. -/
theorem Options.explained_load_iff {overrides : List (Text × Data)} :
    Explained (Options.load (some (file, text)) overrides reader) ↔ Readable text reader ∧
      ∀ v ms, Yaml.read text.toList reader = .ok v → v.isVoid = false → v.opened = .map ms →
        namesForeign (.map (override ms (given overrides))) = true ∨
          Definition.textKeys ms = true := by
  show Explained (Options.fileMembers file text reader >>= fun ms =>
    Options.ofData (.map (override ms (given overrides)))) ↔ _
  rw [explained_bind_iff, explained_fileMembers_iff]
  refine and_congr_right fun _ => ?_
  simp only [explained_ofData_map_iff, textKeys_override, fileMembers_eq_ok_iff]
  constructor
  · intro h v ms hv hvoid hms
    exact h ms ⟨v, hv, .inr ⟨hvoid, hms⟩⟩
  · rintro h ms ⟨v, hv, ⟨-, rfl⟩ | ⟨hvoid, hms⟩⟩
    · exact .inr rfl
    · exact h v ms hv hvoid hms

/-- **Loading is explained** when the text can be read and what it holds has the right shape: a
definition that fits as far as it is reached, and options whose keys are texts. This is so for every
reader, however deep it goes and in whatever order it leaves the items of sets. -/
theorem loading_explained_iff (file : Location) (text : String) (reader : Yaml.Reader) :
    (Explained (Model.load file text reader) ↔ Readable text reader ∧
        ∀ v doc, Yaml.read text.toList reader = .ok v → v.opened = .map doc →
          Definition.Fits doc) ∧
      (Explained (Options.load (some (file, text)) [] reader) ↔ Readable text reader ∧
        ∀ v ms, Yaml.read text.toList reader = .ok v → v.isVoid = false → v.opened = .map ms →
          Options.namesForeign (.map ms) = true ∨ Definition.textKeys ms = true) :=
  ⟨Model.explained_load_iff, Options.explained_load_iff⟩

/-- Entities in a list, where a map is needed. -/
def listedEntities : String := "entities: [Post]\n"

/-- Not every text is loaded or refused with words. -/
theorem listed_entities_unexplained :
    ¬ ∀ (file : Location) (text : String),
      Explained (Model.load file text) ∧ Explained (Options.load (some (file, text)) []) := by
  intro hall
  have hlisted : ¬ Explained (Model.load (Location.ofText "model.yaml") listedEntities) := by
    decide +kernel
  exact hlisted (hall _ _).1

end ResourceApi
