import ResourceApi.Failure
import ResourceApi.Proofs.Fallible
import ResourceApi.Proofs.Member
import ResourceApi.Proofs.OrderedMap
import Mathlib.Data.List.Forall2

/-!
# What checks accept

Combined checks accept a value when each of them does (`map_eq_ok_iff`, `seq_eq_ok_iff`), a list is
accepted when each of its items is (`items_eq_ok_iff`), and a closed record when besides every key
is one that a member is read from (`closed_eq_ok_iff`). In a record whose keys are texts the keys
that are left over are all there is to its stray issues (`mem_strayIssues_iff`).

What every value that passes a check has, it has wherever the check stands (`of_defaulted`,
`of_required`, `of_nullable`, `of_textMap`).
-/

namespace ResourceApi

namespace Checked

variable {α β : Type} {ms : List (Data × Data)} {names : List Name} {n : Name} {v : Data}

/-! ## Combined checks -/

theorem map_eq_ok_iff {c : Checked α} {f : α → β} {b : β} :
    f <$> c = .ok b ↔ ∃ a, c = .ok a ∧ f a = b := by
  cases c with
  | ok a => simp [Functor.map, Checked.map]
  | bad is => simp [Functor.map, Checked.map]

theorem seq_eq_ok_iff {f : Checked (α → β)} {c : Checked α} {b : β} :
    f <*> c = .ok b ↔ ∃ g a, f = .ok g ∧ c = .ok a ∧ g a = b := by
  cases f with
  | ok g => cases c <;> simp [Seq.seq, Checked.seq]
  | bad is => cases c <;> simp [Seq.seq, Checked.seq]

theorem exists_seq_eq_ok_iff {f : Checked (α → β)} {c : Checked α} :
    (∃ b, f <*> c = .ok b) ↔ (∃ g, f = .ok g) ∧ ∃ a, c = .ok a := by
  simp only [seq_eq_ok_iff]
  constructor
  · rintro ⟨b, g, a, hg, ha, -⟩
    exact ⟨⟨g, hg⟩, a, ha⟩
  · rintro ⟨⟨g, hg⟩, a, ha⟩
    exact ⟨g a, g, a, hg, ha, rfl⟩

theorem exists_map_eq_ok_iff {c : Checked α} {f : α → β} :
    (∃ b, f <$> c = .ok b) ↔ ∃ a, c = .ok a := by
  simp only [map_eq_ok_iff]
  constructor
  · rintro ⟨b, a, ha, -⟩
    exact ⟨a, ha⟩
  · rintro ⟨a, ha⟩
    exact ⟨f a, a, ha, rfl⟩

@[simp] theorem under_eq_ok_iff {s : Step} {c : Checked α} {a : α} :
    under s c = .ok a ↔ c = .ok a := by
  cases c <;> simp [under]

theorem toOption_eq_some_iff {c : Checked α} {a : α} : c.toOption = some a ↔ c = .ok a := by
  cases c <;> simp [toOption]

/-- One of a few texts is accepted as it is, if it can be encoded. -/
theorem oneOf_eq_ok_iff {allowed : List Text} {t : Text} :
    oneOf allowed v = .ok t ↔ v = .str t ∧ t.chars?.isSome = true ∧ t ∈ allowed := by
  cases v with
  | str s =>
    rw [oneOf, Data.str.injEq]
    split_ifs with hnone hmem
    · refine iff_of_false nofun ?_
      rintro ⟨rfl, hsome, -⟩
      simp [Option.isNone_iff_eq_none.1 hnone] at hsome
    · rw [Checked.ok.injEq]
      refine ⟨?_, And.left⟩
      rintro rfl
      exact ⟨rfl, by simpa [Option.isSome_iff_ne_none] using hnone, hmem⟩
    · refine iff_of_false nofun ?_
      rintro ⟨rfl, -, hmem'⟩
      exact hmem hmem'
  | _ => exact iff_of_false nofun nofun

theorem mem_of_oneOf {allowed : List Text} {t : Text} (h : oneOf allowed v = .ok t) :
    t ∈ allowed :=
  (oneOf_eq_ok_iff.1 h).2.2

/-- Null is accepted as nothing, and any other value when it passes the check. -/
theorem nullable_eq_ok_iff {check : Data → Checked α} {a? : Option α} :
    nullable check v = .ok a? ↔
      v = .null ∧ a? = none ∨ v ≠ .null ∧ ∃ a, check v = .ok a ∧ some a = a? := by
  cases v with
  | null => simp [nullable, eq_comm]
  | _ =>
    show some <$> check _ = .ok a? ↔ _
    simp [Checked.map_eq_ok_iff]

theorem nullable_eq_ok {check : Data → Checked α} {a : α} (hv : v ≠ .null)
    (h : check v = .ok a) : nullable check v = .ok (some a) :=
  nullable_eq_ok_iff.2 (.inr ⟨hv, a, h, rfl⟩)

theorem of_nullable {P : α → Prop} {check : Data → Checked α} {a? : Option α}
    (hcheck : ∀ {v a}, check v = .ok a → P a) (h : nullable check v = .ok a?) :
    ∀ a, a? = some a → P a := by
  rcases nullable_eq_ok_iff.1 h with ⟨-, rfl⟩ | ⟨-, a, ha, rfl⟩
  · exact nofun
  · rintro _ ⟨⟩
    exact hcheck ha

/-! ## Lists -/

theorem all_eq_ok_iff {cs : List (Checked α)} {as : List α} :
    all cs = .ok as ↔ List.Forall₂ (fun c a => c = .ok a) cs as := by
  induction cs generalizing as with
  | nil =>
    rw [all, List.forall₂_nil_left_iff, Checked.ok.injEq, eq_comm]
  | cons c cs ih =>
    have hsteps : all (c :: cs) = List.cons <$> c <*> all cs := rfl
    rw [hsteps, seq_eq_ok_iff, List.forall₂_cons_left_iff]
    constructor
    · intro hparts
      obtain ⟨g, rest, hg, hrest, rfl⟩ := hparts
      obtain ⟨a, ha, rfl⟩ := map_eq_ok_iff.1 hg
      exact ⟨a, rest, ha, ih.1 hrest, rfl⟩
    · intro hparts
      obtain ⟨a, rest, ha, hrest, rfl⟩ := hparts
      exact ⟨List.cons a, rest, map_eq_ok_iff.2 ⟨a, ha, rfl⟩, ih.2 hrest, rfl⟩

/-- **A list is accepted when every item is.** -/
theorem items_eq_ok_iff {check : Data → Checked α} {xs : List Data} {as : List α} :
    items check xs = .ok as ↔ List.Forall₂ (fun x a => check x = .ok a) xs as := by
  rw [items, all_eq_ok_iff, List.forall₂_map_left_iff]
  simp only [under_eq_ok_iff]
  rw [← List.forall₂_map_left_iff (R := fun x a => check x = .ok a), List.zipIdx_map_fst]

/-! ## Maps -/

theorem seq_map_mk_eq_ok_iff {c : Checked α} {c' : Checked β} {p : α × β} :
    Checked.seq (Checked.map Prod.mk c) c' = .ok p ↔ c = .ok p.1 ∧ c' = .ok p.2 := by
  have hsteps : Checked.seq (Checked.map Prod.mk c) c' = Prod.mk <$> c <*> c' := rfl
  rw [hsteps, seq_eq_ok_iff]
  simp only [map_eq_ok_iff]
  constructor
  · rintro ⟨_, b, ⟨a, ha, rfl⟩, hb, rfl⟩
    exact ⟨ha, hb⟩
  · rintro ⟨ha, hb⟩
    exact ⟨_, p.2, ⟨p.1, ha, rfl⟩, hb, rfl⟩

/-- **A map is accepted when every key is a text and every value passes its check.** Keys that stand
for one text are one key. -/
theorem textMap_eq_ok_iff {check : Data → Checked α} {m : Assoc Text α} :
    textMap check v = .ok m ↔ ∃ ms pairs, v.opened = .map ms ∧
      List.Forall₂ (fun x p => text x.1 = .ok p.1 ∧ check x.2 = .ok p.2) ms pairs ∧
      Assoc.ofList pairs = m := by
  have hmap (ms : List (Data × Data)) :
      Checked.map Assoc.ofList (all (ms.map fun x => Checked.seq
        (Checked.map Prod.mk (under (stepOf x.1) (under (.key "[key]") (text x.1))))
        (under (stepOf x.1) (check x.2)))) = .ok m ↔ ∃ pairs,
      List.Forall₂ (fun x p => text x.1 = .ok p.1 ∧ check x.2 = .ok p.2) ms pairs ∧
      Assoc.ofList pairs = m := by
    refine map_eq_ok_iff.trans (exists_congr fun pairs => and_congr_left fun _ => ?_)
    rw [all_eq_ok_iff, List.forall₂_map_left_iff]
    simp only [seq_map_mk_eq_ok_iff, under_eq_ok_iff]
  unfold textMap
  split
  · next ms hms =>
    refine (hmap ms).trans ?_
    rw [hms]
    simp
  · next hms =>
    refine iff_of_false nofun ?_
    rintro ⟨ms, -, hv, -⟩
    exact hms ms hv

/-- A map that was read has distinct keys, and values that passed the check. -/
theorem of_textMap {P : α → Prop} {check : Data → Checked α} {m : Assoc Text α}
    (hcheck : ∀ {v a}, check v = .ok a → P a) (h : textMap check v = .ok m) :
    (Assoc.keys m).Nodup ∧ ∀ p ∈ m, P p.2 := by
  obtain ⟨ms, pairs, -, hpairs, rfl⟩ := textMap_eq_ok_iff.1 h
  refine ⟨Assoc.nodup_keys_ofList _, fun p hp => ?_⟩
  obtain ⟨x, -, -, hx⟩ := exists_of_mem_right hpairs (Assoc.mem_of_mem_ofList hp)
  exact hcheck hx

/-! ## Members -/

theorem find?_eq_of_outer {v : Data} (h : Data.lookup ms n.outer = some v) :
    find? ms n = some (n.outer, v) := by
  simp [find?, h]

theorem find?_eq_of_own (houter : Data.lookup ms n.outer = none) :
    find? ms n = (Data.lookup ms n.own).map fun v => (n.own, v) := by
  simp [find?, houter]

/-- A member is read under one of its names. -/
theorem eq_outer_or_own_of_find? {used : Text} {v : Data} (h : find? ms n = some (used, v)) :
    used = n.outer ∨ used = n.own := by
  unfold find? at h
  split at h
  · cases h
    exact .inl rfl
  · obtain ⟨w, -, heq⟩ := Option.map_eq_some_iff.1 h
    cases heq
    exact .inr rfl

theorem find?_congr {ms' : List (Data × Data)}
    (houter : Data.lookup ms' n.outer = Data.lookup ms n.outer)
    (hown : Data.lookup ms' n.own = Data.lookup ms n.own) : find? ms' n = find? ms n := by
  rw [find?, find?, houter, hown]

theorem required_congr {ms' : List (Data × Data)} {check : Data → Checked α}
    (h : find? ms' n = find? ms n) : required ms' n check = required ms n check := by
  rw [required, required, h]

theorem defaulted_congr {ms' : List (Data × Data)} {default : α} {check : Data → Checked α}
    (h : find? ms' n = find? ms n) :
    defaulted ms' n default check = defaulted ms n default check := by
  rw [defaulted, defaulted, h]

theorem required_eq_ok {check : Data → Checked α} {used : Text} {v : Data} {a : α}
    (hfind : find? ms n = some (used, v)) (h : check v = .ok a) : required ms n check = .ok a := by
  rw [required, hfind]
  exact under_eq_ok_iff.2 h

theorem defaulted_eq_ok {check : Data → Checked α} {used : Text} {v : Data} {default a : α}
    (hfind : find? ms n = some (used, v)) (h : check v = .ok a) :
    defaulted ms n default check = .ok a := by
  rw [defaulted, hfind]
  exact under_eq_ok_iff.2 h

theorem defaulted_of_find?_eq_none {check : Data → Checked α} {default : α}
    (hfind : find? ms n = none) : defaulted ms n default check = .ok default := by
  rw [defaulted, hfind]

theorem exists_defaulted_eq_ok_iff {default : α} {check : Data → Checked α} :
    (∃ a, defaulted ms n default check = .ok a) ↔
      ∀ used v, find? ms n = some (used, v) → ∃ a, check v = .ok a := by
  unfold defaulted
  cases find? ms n with
  | none => simp
  | some found =>
    obtain ⟨used, w⟩ := found
    simp

/-- What a member gives, when it is present, and what it gives when it is not. -/
theorem of_defaulted {P : α → Prop} {check : Data → Checked α} {a default : α}
    (hdefault : P default) (hcheck : ∀ {v a}, check v = .ok a → P a)
    (h : defaulted ms n default check = .ok a) : P a := by
  unfold defaulted at h
  split at h
  · exact hcheck (under_eq_ok_iff.1 h)
  · cases h
    exact hdefault

theorem of_required {P : α → Prop} {check : Data → Checked α} {a : α}
    (hcheck : ∀ {v a}, check v = .ok a → P a) (h : required ms n check = .ok a) : P a := by
  unfold required at h
  split at h
  · exact hcheck (under_eq_ok_iff.1 h)
  · cases h

theorem isUsed_iff {key : Text} :
    isUsed ms names key = true ↔ ∃ n ∈ names, ∃ v, find? ms n = some (key, v) := by
  simp [isUsed, Option.any_eq_true]

/-! ## Closed records -/

/-- In a record whose keys are texts, every text that no member is read from is a stray key. -/
theorem mem_strayIssues_iff (htext : ∀ m ∈ ms, ∃ s, m.1 = .str s) {i : Issue} :
    i ∈ strayIssues ms names ↔
      ∃ s, .str s ∈ ms.map Prod.fst ∧ isUsed ms names s = false ∧
        i = ⟨[stepOf (.str s)], .unknownKey⟩ := by
  unfold strayIssues
  rw [List.mem_filterMap]
  constructor
  · rintro ⟨⟨k, v⟩, hm, hi⟩
    obtain ⟨s, hs⟩ := htext (k, v) hm
    obtain rfl : k = .str s := hs
    by_cases hused : isUsed ms names s
    · simp [hused] at hi
    · refine ⟨s, List.mem_map_of_mem hm, by simpa using hused, ?_⟩
      simpa [hused] using hi.symm
  · rintro ⟨s, hs, hused, rfl⟩
    obtain ⟨⟨k, v⟩, hm, hkey⟩ := List.mem_map.1 hs
    obtain rfl : k = .str s := hkey
    exact ⟨(.str s, v), hm, by simp [hused]⟩

theorem closed_eq_ok_iff {c : Checked α} {a : α} :
    closed ms names c = .ok a ↔
      (ms.any fun m => isUnencodable m.1) = false ∧ strayIssues ms names = [] ∧ c = .ok a := by
  unfold closed
  split_ifs with hms
  · simp [hms, fault]
  · cases c with
    | ok b => cases strayIssues ms names <;> simp [hms]
    | bad is => simp

theorem record_eq_ok_iff {check : List (Data × Data) → Checked α} {a : α} :
    record check v = .ok a ↔ ∃ ms, v.opened = .map ms ∧ check ms = .ok a := by
  unfold record
  split
  · next ms hms =>
    rw [hms]
    simp
  · next hms =>
    refine iff_of_false nofun ?_
    rintro ⟨ms, hv, -⟩
    exact hms ms hv

/-- What is left of a record whose members are all accepted is its stray keys. -/
theorem closed_of_ok (hms : (ms.any fun m => isUnencodable m.1) = false) (names : List Name)
    (a : α) (hstray : strayIssues ms names ≠ []) :
    closed ms names (.ok a) = .bad (strayIssues ms names) := by
  obtain ⟨i, is, hcons⟩ := List.exists_cons_of_ne_nil hstray
  simp [closed, hms, hcons]

theorem toExcept_eq_ok_iff {subject : Option Subject} {title : Text} {c : Checked α} {a : α} :
    c.toExcept subject title = .ok a ↔ c = .ok a := by
  cases c <;> simp [toExcept]

end Checked

end ResourceApi
