import ResourceApi.Proofs.Fallible
import ResourceApi.Proofs.OptionSlot
import ResourceApi.Proofs.OrderedMap

/-!
# Overrides of options

Overrides are written over the members of the options file under their own names, before any name
is resolved; null overrides are not written at all (`load_given`). An option that the file has under
its own name, or not at all, takes the override's value. An option that the file has under another
outer name is `Aliased`: the outer name wins, so the file's value stays and the override is a key
that no option is read from.

**Overrides win** (`overrides_win_iff`) unless one of them meets an aliased option, which is a
`Clash`. Then there are no options, and the issues are exactly the overrides that clash.
-/

namespace ResourceApi.Options

open Checked

/-! ## Members with overrides -/

section

variable {ms : List (Data × Data)} {overrides : List (Text × Data)} {key : Text} {v : Data}

theorem override_append_singleton (ms : List (Data × Data)) (overrides : List (Text × Data))
    (p : Text × Data) :
    override ms (overrides ++ [p]) = Data.insertKey (override ms overrides) (.str p.1) p.2 :=
  List.foldl_append

/-- The last override of a key counts, and the members where there is none. -/
theorem lookup_override (ms : List (Data × Data)) (overrides : List (Text × Data)) (key : Text) :
    Data.lookup (override ms overrides) key =
      (Assoc.get? overrides.reverse key).or (Data.lookup ms key) := by
  induction overrides using List.reverseRecOn with
  | nil => rfl
  | append_singleton overrides p ih =>
    obtain ⟨a, b⟩ := p
    rw [override_append_singleton, Data.lookup_insertKey, ih, List.reverse_append,
      List.reverse_singleton, List.singleton_append, Assoc.get?_cons]
    split_ifs <;> rfl

theorem lookup_override_of_not_mem (h : key ∉ Assoc.keys overrides) :
    Data.lookup (override ms overrides) key = Data.lookup ms key := by
  have hnone : Assoc.get? overrides.reverse key = none := by
    rw [Assoc.get?_eq_none_iff, Assoc.keys, List.map_reverse, List.mem_reverse]
    exact h
  rw [lookup_override, hnone, Option.none_or]

theorem lookup_override_of_mem (hnodup : (Assoc.keys overrides).Nodup)
    (h : (key, v) ∈ overrides) : Data.lookup (override ms overrides) key = some v := by
  have hsome : Assoc.get? overrides.reverse key = some v := by
    have hkeys : (Assoc.keys overrides.reverse).Nodup := by
      rwa [Assoc.keys, List.map_reverse, List.nodup_reverse]
    exact (Assoc.get?_eq_some_iff_mem hkeys).2 (List.mem_reverse.2 h)
  rw [lookup_override, hsome, Option.some_or]

theorem mem_keys_override {k : Data} :
    k ∈ (override ms overrides).map Prod.fst ↔
      (∃ a ∈ Assoc.keys overrides, k = .str a) ∨ k ∈ ms.map Prod.fst := by
  induction overrides using List.reverseRecOn with
  | nil => simp [override]
  | append_singleton overrides p ih =>
    rw [override_append_singleton, Data.mem_keys_insertKey, ih, Assoc.keys_append]
    simp only [List.mem_append, or_and_right, exists_or, Assoc.keys_cons, Assoc.keys_nil,
      List.mem_singleton, exists_eq_left]
    rw [← or_assoc, or_comm (b := ∃ a ∈ Assoc.keys overrides, k = .str a)]

theorem textKeys_override (ms : List (Data × Data)) (overrides : List (Text × Data)) :
    Definition.textKeys (override ms overrides) = Definition.textKeys ms := by
  induction overrides using List.reverseRecOn with
  | nil => rfl
  | append_singleton overrides p ih =>
    rw [override_append_singleton, Definition.textKeys_insertKey, ih]

end

/-! ## Null overrides -/

theorem mem_given_iff {overrides : List (Text × Data)} {p : Text × Data} :
    p ∈ given overrides ↔ p ∈ overrides ∧ p.2 ≠ .null := by
  rw [given, List.mem_filter]
  refine and_congr_right fun _ => ?_
  split
  · next hnull => simp [hnull]
  · next hnull => exact iff_of_true rfl hnull

theorem given_eq_self {overrides : List (Text × Data)} (h : ∀ p ∈ overrides, p.2 ≠ .null) :
    given overrides = overrides := by
  refine List.filter_eq_self.2 fun p hp => ?_
  exact (List.mem_filter.1 (mem_given_iff.2 ⟨hp, h p hp⟩)).2

/-- **Null overrides change nothing.** -/
theorem load_given (file : Option (Location × String)) (overrides : List (Text × Data))
    (reader : Yaml.Reader) : load file (given overrides) reader = load file overrides reader := by
  unfold load
  rw [given_eq_self fun p hp => (mem_given_iff.1 hp).2]

/-! ## Where an option is found -/

/-- Overrides name options by their own names, each once, with values that the options accept, and
none of them is null. -/
structure ValidOverrides (overrides : List (Text × Data)) : Prop where
  nodup : (Assoc.keys overrides).Nodup
  notNull : ∀ p ∈ overrides, p.2 ≠ .null
  accepted : ∀ p ∈ overrides, ∃ s : Slot, p.1 = s.name.own ∧ ∃ a, s.check p.2 = .ok a

/-- The members set the option under an outer name that is not its own. -/
def Slot.Aliased (s : Slot) (ms : List (Data × Data)) : Prop :=
  s.name.outer ≠ s.name.own ∧ (Data.lookup ms s.name.outer).isSome

/-- An override meets an option that the members set under another name. -/
def Clash (ms : List (Data × Data)) (overrides : List (Text × Data)) (s : Slot) : Prop :=
  s.name.own ∈ Assoc.keys overrides ∧ s.Aliased ms

variable {ms : List (Data × Data)} {overrides : List (Text × Data)} {s : Slot} {v : Data}
  {used : Text} {o : Options}

theorem Slot.lookup_outer_of_not_aliased (hs : ¬ s.Aliased ms) (hne : s.name.outer ≠ s.name.own) :
    Data.lookup ms s.name.outer = none := by
  by_contra hsome
  exact hs ⟨hne, Option.isSome_iff_ne_none.2 hsome⟩

namespace ValidOverrides

theorem exists_slot (h : ValidOverrides overrides) {a : Text} (ha : a ∈ Assoc.keys overrides) :
    ∃ s : Slot, a = s.name.own := by
  obtain ⟨v, hv⟩ := Assoc.exists_of_mem_keys ha
  obtain ⟨s, hs, -⟩ := h.accepted _ hv
  exact ⟨s, hs⟩

theorem check (h : ValidOverrides overrides) (hv : (s.name.own, v) ∈ overrides) :
    ∃ a, s.check v = .ok a := by
  obtain ⟨s', hs', ha⟩ := h.accepted _ hv
  obtain rfl : s = s' := Slot.own_inj.1 hs'
  exact ha

theorem outer_not_mem (h : ValidOverrides overrides)
    (hs : s.name.own ∉ Assoc.keys overrides ∨ s.name.outer ≠ s.name.own) :
    s.name.outer ∉ Assoc.keys overrides := by
  intro hmem
  obtain ⟨s', hs'⟩ := h.exists_slot hmem
  obtain rfl : s' = s := Slot.eq_of_own_eq_outer hs'.symm
  exact hs.elim (· (hs' ▸ hmem)) (· hs')

end ValidOverrides

theorem find?_override_of_not_mem (h : ValidOverrides overrides)
    (hs : s.name.own ∉ Assoc.keys overrides) :
    find? (override ms overrides) s.name = find? ms s.name := by
  unfold find?
  rw [lookup_override_of_not_mem (h.outer_not_mem (.inl hs)), lookup_override_of_not_mem hs]

/-- An aliased option stays what the file sets it to. -/
theorem find?_override_of_aliased (h : ValidOverrides overrides) (hs : s.Aliased ms) :
    ∃ v, find? (override ms overrides) s.name = some (s.name.outer, v) ∧
      find? ms s.name = some (s.name.outer, v) := by
  obtain ⟨hne, hsome⟩ := hs
  obtain ⟨v, hv⟩ := Option.isSome_iff_exists.1 hsome
  have hv' : Data.lookup (override ms overrides) s.name.outer = some v := by
    rw [lookup_override_of_not_mem (h.outer_not_mem (.inr hne)), hv]
  exact ⟨v, find?_eq_of_outer hv', find?_eq_of_outer hv⟩

theorem find?_override_of_mem (h : ValidOverrides overrides) (hs : ¬ s.Aliased ms)
    (hv : (s.name.own, v) ∈ overrides) :
    find? (override ms overrides) s.name = some (s.name.own, v) := by
  have hown : Data.lookup (override ms overrides) s.name.own = some v :=
    lookup_override_of_mem h.nodup hv
  by_cases hne : s.name.outer = s.name.own
  · have houter : Data.lookup (override ms overrides) s.name.outer = some v := hne ▸ hown
    rw [find?_eq_of_outer houter, hne]
  · have houter : Data.lookup (override ms overrides) s.name.outer = none := by
      rw [lookup_override_of_not_mem (h.outer_not_mem (.inr hne)),
        s.lookup_outer_of_not_aliased hs hne]
    rw [find?_eq_of_own houter, hown, Option.map_some]

/-! ## Keys that are left over -/

theorem eq_own_of_find? (hs : ¬ s.Aliased ms) (h : find? ms s.name = some (used, v)) :
    used = s.name.own := by
  rcases eq_outer_or_own_of_find? h with rfl | hown
  · by_contra hne
    rw [find?_eq_of_own (s.lookup_outer_of_not_aliased hs hne)] at h
    obtain ⟨w, -, heq⟩ := Option.map_eq_some_iff.1 h
    exact hne (congrArg Prod.fst heq).symm
  · exact hown

theorem isUsed_override_of_isUsed (h : ValidOverrides overrides) {key : Text}
    (hkey : isUsed ms names key = true) : isUsed (override ms overrides) names key = true := by
  obtain ⟨n, hn, v, hfind⟩ := isUsed_iff.1 hkey
  obtain ⟨s, rfl⟩ := Slot.mem_names_iff.1 hn
  refine isUsed_iff.2 ⟨s.name, hn, ?_⟩
  by_cases hmem : s.name.own ∈ Assoc.keys overrides
  · by_cases hs : s.Aliased ms
    · obtain ⟨w, hw, hms⟩ := find?_override_of_aliased h hs
      rw [hms] at hfind
      cases hfind
      exact ⟨_, hw⟩
    · obtain ⟨w, hw⟩ := Assoc.exists_of_mem_keys hmem
      obtain rfl : key = s.name.own := eq_own_of_find? hs hfind
      exact ⟨w, find?_override_of_mem h hs hw⟩
  · exact ⟨v, (find?_override_of_not_mem h hmem).trans hfind⟩

/-- An override is read exactly when its option is not aliased. -/
theorem isUsed_override_own_iff (h : ValidOverrides overrides)
    (hmem : s.name.own ∈ Assoc.keys overrides) :
    isUsed (override ms overrides) names s.name.own = true ↔ ¬ s.Aliased ms := by
  constructor
  · intro hused hs
    obtain ⟨n, hn, v, hfind⟩ := isUsed_iff.1 hused
    obtain ⟨s', rfl⟩ := Slot.mem_names_iff.1 hn
    obtain rfl : s = s' :=
      (eq_outer_or_own_of_find? hfind).elim Slot.eq_of_own_eq_outer Slot.own_inj.1
    obtain ⟨w, hw, -⟩ := find?_override_of_aliased h hs
    rw [hw] at hfind
    exact hs.1 (congrArg Prod.fst (Option.some.inj hfind))
  · intro hs
    obtain ⟨v, hv⟩ := Assoc.exists_of_mem_keys hmem
    exact isUsed_iff.2 ⟨s.name, s.name_mem_names, v, find?_override_of_mem h hs hv⟩

theorem any_isUnencodable_override (h : ValidOverrides overrides)
    (hms : (ms.any fun m => isUnencodable m.1) = false) :
    ((override ms overrides).any fun m => isUnencodable m.1) = false := by
  rw [List.any_eq_false] at hms ⊢
  intro m hm
  rcases mem_keys_override.1 (List.mem_map_of_mem hm) with ⟨a, ha, hkey⟩ | hkey
  · obtain ⟨s, rfl⟩ := h.exists_slot ha
    rw [hkey, s.isUnencodable_own]
    exact Bool.false_ne_true
  · obtain ⟨m', hm', heq⟩ := List.mem_map.1 hkey
    exact heq ▸ hms m' hm'

/-- **The keys left over** are the overrides of aliased options, if the file itself has none. -/
theorem mem_strayIssues_override_iff (h : ValidOverrides overrides)
    (htext : Definition.textKeys ms = true) (hstray : strayIssues ms names = []) {i : Issue} :
    i ∈ strayIssues (override ms overrides) names ↔
      ∃ s, Clash ms overrides s ∧ i = ⟨[.key s.name.own], .unknownKey⟩ := by
  have htext' := (textKeys_override ms overrides).trans htext
  rw [mem_strayIssues_iff (Definition.textKeys_iff.1 htext')]
  constructor
  · rintro ⟨a, ha, hunused, rfl⟩
    rcases mem_keys_override.1 ha with ⟨a', ha', heq⟩ | hfile
    · cases heq
      obtain ⟨s, rfl⟩ := h.exists_slot ha'
      have hs : s.Aliased ms := by
        by_contra hs
        rw [(isUsed_override_own_iff h ha').2 hs] at hunused
        cases hunused
      exact ⟨s, ⟨ha', hs⟩, by rw [s.stepOf_own]⟩
    · -- a key of the file alone that is not read would be left over there
      have hused : isUsed ms names a = true := by
        by_contra hunused
        have hmem := (mem_strayIssues_iff (Definition.textKeys_iff.1 htext)).2
          ⟨a, hfile, by simpa using hunused, rfl⟩
        rw [hstray] at hmem
        cases hmem
      rw [isUsed_override_of_isUsed h hused] at hunused
      cases hunused
  · rintro ⟨s, ⟨hmem, hs⟩, rfl⟩
    have hunused : isUsed (override ms overrides) names s.name.own = false := by
      by_contra hused
      exact (isUsed_override_own_iff h hmem).1 (by simpa using hused) hs
    exact ⟨s.name.own, mem_keys_override.2 (.inl ⟨_, hmem, rfl⟩), hunused, by rw [s.stepOf_own]⟩

/-! ## Options with overrides -/

/-- The options have the overrides' values, and those of the file for everything else. -/
structure Overridden (overrides : List (Text × Data)) (fromFile o : Options) : Prop where
  given : ∀ (s : Slot) (v : Data), (s.name.own, v) ∈ overrides → s.check v = .ok (o.of s)
  kept : ∀ s : Slot, s.name.own ∉ Assoc.keys overrides → o.of s = fromFile.of s

theorem exists_read_override (h : ValidOverrides overrides)
    (hfile : ∀ s : Slot, s.read ms = .ok (o.of s)) :
    ∃ o' : Options, (∀ s : Slot, s.read (override ms overrides) = .ok (o'.of s)) ∧
      ((∀ s, ¬ Clash ms overrides s) → Overridden overrides o o') := by
  have hread (s : Slot) : ∃ a, s.read (override ms overrides) = .ok a := by
    by_cases hmem : s.name.own ∈ Assoc.keys overrides
    · by_cases hs : s.Aliased ms
      · obtain ⟨v, hv, hms⟩ := find?_override_of_aliased h hs
        exact ⟨o.of s, (Slot.read_congr (hv.trans hms.symm)).trans (hfile s)⟩
      · obtain ⟨v, hv⟩ := Assoc.exists_of_mem_keys hmem
        obtain ⟨a, ha⟩ := h.check hv
        exact ⟨a, Slot.read_of_find? (find?_override_of_mem h hs hv) ha⟩
    · exact ⟨o.of s, (Slot.read_congr (find?_override_of_not_mem h hmem)).trans (hfile s)⟩
  obtain ⟨o', ho'⟩ := exists_of hread
  refine ⟨o', ho', fun hclear => ⟨fun s v hv => ?_, fun s hmem => ?_⟩⟩
  · obtain ⟨a, ha⟩ := h.check hv
    have hs : ¬ s.Aliased ms := fun hs => hclear s ⟨Assoc.mem_keys_of_mem hv, hs⟩
    have hfind := find?_override_of_mem h hs hv
    rw [ha, ← Slot.read_of_find? hfind ha, ho' s]
  · have hsame := (Slot.read_congr (find?_override_of_not_mem h hmem)).trans (hfile s)
    rw [ho' s] at hsame
    exact Checked.ok.inj hsame

theorem namesForeign_override (h : ValidOverrides overrides)
    (hforeign : namesForeign (.map ms) = false) :
    namesForeign (.map (override ms overrides)) = false := by
  rw [namesForeign_map_eq_false_iff] at hforeign ⊢
  intro n hn
  rw [lookup_override_of_not_mem, hforeign n hn]
  intro hmem
  obtain ⟨s, rfl⟩ := h.exists_slot hmem
  exact s.own_not_mem_foreignNames hn

theorem ofData_override (h : ValidOverrides overrides) (hfile : ofData (.map ms) = .ok o) :
    ∃ o' : Options,
      ofData (.map (override ms overrides)) =
        (closed (override ms overrides) names (.ok o')).toExcept (some .options)
          "GeneratorOptions" ∧
      ((∀ s, ¬ Clash ms overrides s) → Overridden overrides o o') := by
  obtain ⟨hforeign, htext, hmembers⟩ := ofData_map_eq_ok_iff.1 hfile
  obtain ⟨-, -, hread⟩ := ofMembers_eq_ok_iff.1 hmembers
  obtain ⟨o', ho', hover⟩ := exists_read_override h hread
  refine ⟨o', ?_, hover⟩
  rw [ofData_map (namesForeign_override h hforeign),
    if_pos ((textKeys_override ms overrides).trans htext), ofMembers_eq, parts_eq_ok_iff.2 ho']

theorem load_some_eq {file : Location} {text : String} {reader : Yaml.Reader}
    (hms : fileMembers file text reader = .ok ms) (overrides : List (Text × Data)) :
    load (some (file, text)) overrides reader =
      ofData (.map (override ms (given overrides))) := by
  show (fileMembers file text reader >>= fun ms =>
    ofData (.map (override ms (given overrides)))) = _
  rw [hms]
  rfl

/-- **Overrides win** over an accepted file exactly when none of them meets an option that the file
sets under another outer name. Where one does, the options are refused, and what is wrong with them
is that each such override is an unknown key. -/
theorem overrides_win_iff {file : Location} {text : String} {reader : Yaml.Reader}
    {fromFile : Options} (hms : fileMembers file text reader = .ok ms)
    (hfile : load (some (file, text)) [] reader = .ok fromFile) (h : ValidOverrides overrides) :
    ((∃ o, load (some (file, text)) overrides reader = .ok o ∧ Overridden overrides fromFile o) ↔
        ∀ s, ¬ Clash ms overrides s) ∧
      ∀ s, Clash ms overrides s →
        ∃ issues, load (some (file, text)) overrides reader =
            .error (.invalid (some .options) "GeneratorOptions" issues) ∧
          ∀ i, i ∈ issues ↔ ∃ s, Clash ms overrides s ∧
            i = ⟨[.key s.name.own], .unknownKey⟩ := by
  rw [load_some_eq hms] at hfile ⊢
  rw [given_eq_self h.notNull]
  have hdata : ofData (.map ms) = .ok fromFile := hfile
  obtain ⟨-, htext, hmembers⟩ := ofData_map_eq_ok_iff.1 hdata
  obtain ⟨hencodable, hstray, -⟩ := ofMembers_eq_ok_iff.1 hmembers
  obtain ⟨o, ho, hover⟩ := ofData_override h hdata
  have hencodable' := any_isUnencodable_override h hencodable
  have hissues := fun i => mem_strayIssues_override_iff h htext hstray (i := i)
  have hrefused (s : Slot) (hs : Clash ms overrides s) :
      ofData (.map (override ms overrides)) = .error (.invalid (some .options)
        "GeneratorOptions" (strayIssues (override ms overrides) names)) := by
    have hne : strayIssues (override ms overrides) names ≠ [] :=
      List.ne_nil_of_mem ((hissues _).2 ⟨s, hs, rfl⟩)
    rw [ho, closed_of_ok hencodable' names o hne]
    rfl
  refine ⟨⟨fun ⟨o', ho', _⟩ s hs => ?_, fun hclear => ⟨o, ?_, hover hclear⟩⟩,
    fun s hs => ⟨_, hrefused s hs, hissues⟩⟩
  · rw [hrefused s hs] at ho'
    cases ho'
  · have hnil : strayIssues (override ms overrides) names = [] := by
      refine List.eq_nil_iff_forall_not_mem.2 fun i hi => ?_
      obtain ⟨s, hs, -⟩ := (hissues i).1 hi
      exact hclear s hs
    rw [ho, closed_eq_ok_iff.2 ⟨hencodable', hnil, rfl⟩]
    rfl

instance (s : Slot) (ms : List (Data × Data)) : Decidable (s.Aliased ms) :=
  inferInstanceAs (Decidable (_ ∧ _))

/-- A place for options. -/
def optionsFile : Location := Location.ofText "options.yaml"

/-- A file with own names only. -/
def ownNamesText : String := "output: openapi.yaml\nspec_version: 3.0.0\ntitle: Blog\n"

/-- A file that names the version of the target format by its outer name. -/
def outerNameText : String := "output: openapi.yaml\nspecVersion: 3.0.0\n"

/-- Another version of the target format. -/
def newerVersion : List (Text × Data) := [("spec_version", .str "3.1.0")]

theorem newerVersion_valid : ValidOverrides newerVersion where
  nodup := by decide
  notNull := by simp [newerVersion]
  accepted p hp := by
    obtain rfl := List.mem_singleton.1 hp
    exact ⟨.specVersion, rfl, _, rfl⟩

/-- The version wins over an own name, and the title stays. -/
theorem newer_version_wins :
    ∃ fromFile o, load (some (optionsFile, ownNamesText)) [] = .ok fromFile ∧
      load (some (optionsFile, ownNamesText)) newerVersion = .ok o ∧
      fromFile.specVersion = "3.0.0" ∧ o.specVersion = "3.1.0" ∧ o.title = "Blog" := by
  obtain ⟨ms, hms, hclear⟩ : ∃ ms, fileMembers optionsFile ownNamesText = .ok ms ∧
      ∀ s ∈ Slot.all, ¬ s.Aliased ms := exists_ok_of_any (by decide +kernel)
  obtain ⟨fromFile, hfile, hold, htitle⟩ :
      ∃ o, load (some (optionsFile, ownNamesText)) [] = .ok o ∧ o.specVersion = "3.0.0" ∧
        o.title = "Blog" := exists_ok_of_any (by decide +kernel)
  obtain ⟨o, ho, hover⟩ := (overrides_win_iff hms hfile newerVersion_valid).1.2 fun s hs =>
    hclear s s.mem_all hs.2
  have hnew := hover.given .specVersion _ List.mem_cons_self
  have hkept := hover.kept .title (by decide)
  exact ⟨fromFile, o, hfile, ho, hold, (Checked.ok.inj hnew).symm, hkept.trans htitle⟩

/-- The version does not win over an outer name. -/
theorem newer_version_refused :
    ¬ ∀ (file : Location) (text : String) (overrides : List (Text × Data)) (fromFile : Options),
      load (some (file, text)) [] = .ok fromFile → ValidOverrides overrides →
        ∃ o, load (some (file, text)) overrides = .ok o ∧ Overridden overrides fromFile o := by
  intro hwins
  obtain ⟨fromFile, hfile, -⟩ :
      ∃ o, load (some (optionsFile, outerNameText)) [] = .ok o ∧ o.specVersion = "3.0.0" :=
    exists_ok_of_any (by decide +kernel)
  obtain ⟨o, ho, -⟩ := hwins _ _ _ _ hfile newerVersion_valid
  have hnone : (load (some (optionsFile, outerNameText)) newerVersion).toOption.isNone = true := by
    decide +kernel
  rw [ho] at hnone
  cases hnone

end ResourceApi.Options
