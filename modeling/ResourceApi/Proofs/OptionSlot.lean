import ResourceApi.Loading
import ResourceApi.Proofs.Acceptance
import Mathlib.Tactic.Choose

/-!
# Options one by one

A `Slot` is one of the options: its names, what it may hold and how a given value becomes that. No
two slots share a name (`Slot.own_inj`, `Slot.eq_of_own_eq_outer`). **Members make options** exactly
when every slot accepts what is found for it and no key is left over (`ofMembers_eq_ok_iff`), and
whatever the slots read is held by some options (`exists_of`).
-/

namespace ResourceApi.Options

open Checked

/-- One of the options. -/
inductive Slot where
  | output | flavor | specVersion | title | version | description | summary | pathPrefix
  | nameMapping | securitySchemes | included
  deriving DecidableEq, Repr

namespace Slot

/-- All options, in the order of their names. -/
def all : List Slot :=
  [output, flavor, specVersion, title, version, description, summary, pathPrefix, nameMapping,
    securitySchemes, included]

/-- The names of the option. -/
def name : Slot → Name
  | output => outputName
  | flavor => flavorName
  | specVersion => specVersionName
  | title => titleName
  | version => versionName
  | description => descriptionName
  | summary => summaryName
  | pathPrefix => prefixName
  | nameMapping => nameMappingName
  | securitySchemes => securitySchemesName
  | included => includeName

/-- What the option holds. -/
abbrev Value : Slot → Type
  | output => Location
  | flavor | specVersion | title | version | pathPrefix => Text
  | description | summary => Option Text
  | nameMapping => Assoc Text Text
  | securitySchemes => Data
  | included => Option (List Text)

/-- The option from a given value. -/
def check : (s : Slot) → Data → Checked s.Value
  | output => checkLocation
  | flavor => oneOf [Options.flavor]
  | specVersion => checkVersion
  | title | version => text
  | description | summary => nullable text
  | pathPrefix => fun v => trimPrefix <$> text v
  | nameMapping => textMap text
  | securitySchemes => mapOrNull
  | included => nullable (list text)

/-- The option where nothing is given. -/
def absent : (s : Slot) → Checked s.Value
  | output => .bad [⟨[.key outputName.outer], .missing⟩]
  | flavor => .ok Options.flavor
  | specVersion => .ok "3.0.0"
  | title => .ok "Generated JSON:API"
  | version => .ok "1.0.0"
  | description | summary | included => .ok none
  | pathPrefix => .ok ""
  | nameMapping => .ok []
  | securitySchemes => .ok .null

/-- The option from the members of a record. -/
def read (ms : List (Data × Data)) (s : Slot) : Checked s.Value :=
  match find? ms s.name with
  | some (used, v) => under (.key used) (s.check v)
  | none => s.absent

variable {s s' : Slot} {ms ms' : List (Data × Data)}

theorem read_congr (h : find? ms' s.name = find? ms s.name) : s.read ms' = s.read ms := by
  rw [read, read, h]

theorem read_of_find? {used : Text} {v : Data} {a : s.Value}
    (hfind : find? ms s.name = some (used, v)) (hv : s.check v = .ok a) : s.read ms = .ok a := by
  rw [read, hfind]
  exact under_eq_ok_iff.2 hv

/-! ## Names -/

theorem mem_all (s : Slot) : s ∈ all := by
  cases s <;> decide

theorem names_eq : names = all.map name := rfl

theorem name_mem_names (s : Slot) : s.name ∈ names :=
  List.mem_map_of_mem (mem_all s)

theorem mem_names_iff {n : Name} : n ∈ names ↔ ∃ s : Slot, s.name = n := by
  simp [names_eq, mem_all]

theorem own_inj : s.name.own = s'.name.own ↔ s = s' := by
  have hall : ∀ s ∈ all, ∀ s' ∈ all, s.name.own = s'.name.own ↔ s = s' := by decide +kernel
  exact hall s (mem_all s) s' (mem_all s')

/-- The own name of an option is the outer name of no other. -/
theorem eq_of_own_eq_outer (h : s.name.own = s'.name.outer) : s = s' := by
  have hall : ∀ s ∈ all, ∀ s' ∈ all, s.name.own = s'.name.outer → s = s' := by decide +kernel
  exact hall s (mem_all s) s' (mem_all s') h

theorem own_not_mem_foreignNames (s : Slot) : s.name.own ∉ foreignNames := by
  have hall : ∀ s ∈ all, s.name.own ∉ foreignNames := by decide +kernel
  exact hall s (mem_all s)

theorem stepOf_own (s : Slot) : stepOf (.str s.name.own) = .key s.name.own := by
  have hall : ∀ s ∈ all, stepOf (.str s.name.own) = .key s.name.own := by decide +kernel
  exact hall s (mem_all s)

theorem isUnencodable_own (s : Slot) : isUnencodable (.str s.name.own) = false := by
  have hall : ∀ s ∈ all, isUnencodable (.str s.name.own) = false := by decide +kernel
  exact hall s (mem_all s)

end Slot

/-! ## Options as the values of all slots -/

/-- What the options hold for a slot. -/
def of (o : Options) : (s : Slot) → s.Value
  | .output => o.output
  | .flavor => flavor
  | .specVersion => o.specVersion
  | .title => o.title
  | .version => o.version
  | .description => o.description
  | .summary => o.summary
  | .pathPrefix => o.pathPrefix
  | .nameMapping => o.nameMapping
  | .securitySchemes => o.securitySchemes
  | .included => o.included

variable {ms : List (Data × Data)} {o : Options}

theorem eq_flavor_of_read {t : Text} (h : Slot.read ms .flavor = .ok t) : t = flavor := by
  unfold Slot.read at h
  split at h
  · exact List.mem_singleton.1 (mem_of_oneOf (under_eq_ok_iff.1 h))
  · cases h
    rfl

/-- Where every slot can be read, there are options that hold what is read. -/
theorem exists_of (h : ∀ s : Slot, ∃ a, s.read ms = .ok a) :
    ∃ o : Options, ∀ s : Slot, s.read ms = .ok (o.of s) := by
  choose f hf using h
  refine ⟨⟨f .output, f .specVersion, f .title, f .version, f .description, f .summary,
    f .pathPrefix, f .nameMapping, f .securitySchemes, f .included⟩, fun s => ?_⟩
  cases s with
  | flavor => exact (hf .flavor).trans (congrArg Checked.ok (eq_flavor_of_read (hf .flavor)))
  | _ => exact hf _

/-- Options from the members of a record, whatever other keys there are. -/
def parts (ms : List (Data × Data)) : Checked Options :=
  (fun output (_ : Text) => Options.mk output)
    <$> Slot.read ms .output
    <*> Slot.read ms .flavor
    <*> Slot.read ms .specVersion
    <*> Slot.read ms .title
    <*> Slot.read ms .version
    <*> Slot.read ms .description
    <*> Slot.read ms .summary
    <*> Slot.read ms .pathPrefix
    <*> Slot.read ms .nameMapping
    <*> Slot.read ms .securitySchemes
    <*> Slot.read ms .included

theorem ofMembers_eq (ms : List (Data × Data)) : ofMembers ms = closed ms names (parts ms) := rfl

theorem parts_eq_ok_iff : parts ms = .ok o ↔ ∀ s : Slot, s.read ms = .ok (o.of s) := by
  unfold parts
  constructor
  · intro h
    -- the checks are taken apart from the last to the first
    obtain ⟨_, _, h₁, hincluded, rfl⟩ := seq_eq_ok_iff.1 h
    obtain ⟨_, _, h₂, hsecuritySchemes, rfl⟩ := seq_eq_ok_iff.1 h₁
    obtain ⟨_, _, h₃, hnameMapping, rfl⟩ := seq_eq_ok_iff.1 h₂
    obtain ⟨_, _, h₄, hpathPrefix, rfl⟩ := seq_eq_ok_iff.1 h₃
    obtain ⟨_, _, h₅, hsummary, rfl⟩ := seq_eq_ok_iff.1 h₄
    obtain ⟨_, _, h₆, hdescription, rfl⟩ := seq_eq_ok_iff.1 h₅
    obtain ⟨_, _, h₇, hversion, rfl⟩ := seq_eq_ok_iff.1 h₆
    obtain ⟨_, _, h₈, htitle, rfl⟩ := seq_eq_ok_iff.1 h₇
    obtain ⟨_, _, h₉, hspecVersion, rfl⟩ := seq_eq_ok_iff.1 h₈
    obtain ⟨_, _, h₁₀, hflavor, rfl⟩ := seq_eq_ok_iff.1 h₉
    obtain ⟨_, houtput, rfl⟩ := Checked.map_eq_ok_iff.1 h₁₀
    intro s
    cases s with
    | output => exact houtput
    | flavor => exact hflavor.trans (congrArg Checked.ok (eq_flavor_of_read hflavor))
    | specVersion => exact hspecVersion
    | title => exact htitle
    | version => exact hversion
    | description => exact hdescription
    | summary => exact hsummary
    | pathPrefix => exact hpathPrefix
    | nameMapping => exact hnameMapping
    | securitySchemes => exact hsecuritySchemes
    | included => exact hincluded
  · intro h
    rw [h, h, h, h, h, h, h, h, h, h, h]
    rfl

/-- **Members make options** when each slot can be read from them and no key is left over. -/
theorem ofMembers_eq_ok_iff :
    ofMembers ms = .ok o ↔
      (ms.any fun m => isUnencodable m.1) = false ∧ strayIssues ms names = [] ∧
        ∀ s : Slot, s.read ms = .ok (o.of s) := by
  rw [ofMembers_eq, closed_eq_ok_iff, parts_eq_ok_iff]

/-! ## Loading -/

theorem namesForeign_map_eq_false_iff :
    namesForeign (.map ms) = false ↔ ∀ n ∈ foreignNames, Data.lookup ms n = none := by
  simp [namesForeign, Data.opened]

theorem ofData_map (hforeign : namesForeign (.map ms) = false) :
    ofData (.map ms) =
      if Definition.textKeys ms then (ofMembers ms).toExcept (some .options) "GeneratorOptions"
      else .error (.misfit .keyNotText) := by
  rw [ofData, if_neg (by simp [hforeign])]
  rfl

/-- A map makes options when it names none of another kind, its keys are texts and its members make
them. -/
theorem ofData_map_eq_ok_iff :
    ofData (.map ms) = .ok o ↔
      namesForeign (.map ms) = false ∧ Definition.textKeys ms = true ∧ ofMembers ms = .ok o := by
  by_cases hforeign : namesForeign (.map ms) = true
  · simp [ofData, hforeign]
  · rw [ofData_map (by simpa using hforeign)]
    split_ifs with htext
    · simp [hforeign, htext, toExcept_eq_ok_iff]
    · simp [htext]

end ResourceApi.Options
