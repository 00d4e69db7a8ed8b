import ResourceApi.Options
import ResourceApi.Proofs.Acceptance
import ResourceApi.Proofs.Fallible
import Mathlib.Data.List.Induction
import Mathlib.Data.Nat.Digits.Defs
import Mathlib.Data.Prod.Lex

/-!
# The numbers of a version

A version is accepted when it has two parts or more and each is a run of digits of any kind. Which
style of null it stands for depends on the numbers of its first two parts, and not every run of
digits forms a number: only decimal digits do, and only so many of them (`readNat?_eq_some_iff`). A
superscript is a digit, and forms none.

**Main result** (`accepted_version_usable_iff`). An accepted version has a style exactly when its
first two parts form numbers. Null is a type from `3.1` on, where the pairs of numbers are compared
in lexicographic order, however great they are.
-/

namespace ResourceApi

namespace Text

/-- The number that decimal digits form. -/
def number (cs : List CodePoint) : Nat := Nat.ofDigits 10 (cs.filterMap digitValue?).reverse

/-- Digits that form a number: all of them decimal, and not too many. -/
def FormsNumber (cs : List CodePoint) : Prop :=
  (∀ c ∈ cs, (digitValue? c).isSome) ∧ cs.length ≤ maxDigits

instance (cs : List CodePoint) : Decidable (FormsNumber cs) := instDecidableAnd

theorem number_concat (cs : List CodePoint) {c : CodePoint} {d : Nat} (h : digitValue? c = some d) :
    number (cs ++ [c]) = 10 * number cs + d := by
  have hdigits : (cs ++ [c]).filterMap digitValue? = cs.filterMap digitValue? ++ [d] := by
    rw [List.filterMap_append, List.filterMap_cons_some h, List.filterMap_nil]
  rw [number, hdigits, List.reverse_append, List.reverse_singleton, List.singleton_append,
    Nat.ofDigits_cons, Nat.add_comm, number]

theorem foldl_digitValue? (cs : List CodePoint) :
    cs.foldl (fun n? c => n?.bind fun n => (digitValue? c).map (10 * n + ·)) (some 0) =
      if ∀ c ∈ cs, (digitValue? c).isSome then some (number cs) else none := by
  induction cs using List.reverseRecOn with
  | nil => rfl
  | append_singleton cs c ih =>
    rw [List.foldl_append, List.foldl_cons, List.foldl_nil, ih]
    simp only [List.forall_mem_append, List.forall_mem_singleton]
    cases hc : digitValue? c with
    | none => simp
    | some d =>
      by_cases hcs : ∀ c ∈ cs, (digitValue? c).isSome
      · rw [if_pos hcs, if_pos ⟨hcs, rfl⟩, number_concat cs hc]
        rfl
      · rw [if_neg hcs, if_neg fun h => hcs h.1]
        rfl

/-- **Digits are read as the number that they form.** -/
theorem readNat?_eq_some_iff {cs : List CodePoint} (hcs : cs ≠ []) {n : Nat} :
    readNat? cs = some n ↔ FormsNumber cs ∧ number cs = n := by
  rw [readNat?, foldl_digitValue?, FormsNumber]
  by_cases hlength : maxDigits < cs.length
  · rw [if_pos (.inr hlength)]
    simp [hlength]
  · rw [if_neg (not_or_intro hcs hlength), Option.ite_none_right_eq_some, Option.some.injEq]
    simp [Nat.not_lt.1 hlength]

theorem readNat?_of_formsNumber {cs : List CodePoint} (hcs : cs ≠ []) (h : FormsNumber cs) :
    readNat? cs = some (number cs) :=
  (readNat?_eq_some_iff hcs).2 ⟨h, rfl⟩

theorem readNat?_of_not_formsNumber {cs : List CodePoint} (hcs : cs ≠ []) (h : ¬ FormsNumber cs) :
    readNat? cs = none :=
  Option.eq_none_iff_forall_ne_some.2 fun _ hn => h ((readNat?_eq_some_iff hcs).1 hn).1

end Text

namespace SpecVersion

open Checked Text

variable {s : Text} {major minor : List CodePoint} {rest : List (List CodePoint)}

theorem exists_parts_of_isValid (h : isValid s = true) :
    ∃ major minor rest, parts s = major :: minor :: rest ∧ major ≠ [] ∧ minor ≠ [] := by
  rw [isValid, Bool.and_eq_true, decide_eq_true_eq, List.all_eq_true] at h
  obtain ⟨hlength, hall⟩ := h
  match hparts : parts s, hlength with
  | major :: minor :: rest, _ =>
    rw [hparts] at hall
    refine ⟨major, minor, rest, rfl, ?_, ?_⟩
    · rintro rfl
      simpa using hall [] List.mem_cons_self
    · rintro rfl
      simpa using hall [] (List.mem_cons_of_mem _ List.mem_cons_self)

/-- **The numbers of a version** are those of its first two parts, if they form some. -/
theorem numbers_eq (hparts : parts s = major :: minor :: rest) (hmajor : major ≠ [])
    (hminor : minor ≠ []) :
    numbers s = if FormsNumber major ∧ FormsNumber minor then .ok (number major, number minor)
      else .error .notNumber := by
  rw [numbers, hparts]
  simp only [List.map_cons]
  by_cases hm : FormsNumber major
  · by_cases hn : FormsNumber minor
    · rw [readNat?_of_formsNumber hmajor hm, readNat?_of_formsNumber hminor hn, if_pos ⟨hm, hn⟩]
    · rw [readNat?_of_formsNumber hmajor hm, readNat?_of_not_formsNumber hminor hn,
        if_neg fun h => hn h.2]
  · rw [readNat?_of_not_formsNumber hmajor hm, if_neg fun h => hm h.1]

theorem atLeast_iff {m n : Nat} : (3 < m ∨ m = 3 ∧ 1 ≤ n) ↔ toLex (3, 1) ≤ toLex (m, n) := by
  rw [Prod.Lex.toLex_le_toLex, eq_comm]

theorem checkVersion_of_isValid (h : isValid s = true) : Options.checkVersion (.str s) = .ok s :=
  if_pos h

theorem isValid_of_checkVersion {v : Data} (h : Options.checkVersion v = .ok s) :
    isValid s = true := by
  unfold Options.checkVersion at h
  split at h
  · split_ifs at h with hvalid
    · cases h
      exact hvalid
    · cases h
  · cases h

/-- **An accepted version is usable when its first two parts form numbers.** It then makes null a
type exactly when the pair of its numbers is at least `(3, 1)` in lexicographic order; and if one of
the parts forms no number, no style can be told. -/
theorem accepted_version_usable_iff {v : Data} (h : Options.checkVersion v = .ok s) :
    ∃ major minor rest, parts s = major :: minor :: rest ∧
      (Succeeds (nullStyle s) ↔ FormsNumber major ∧ FormsNumber minor) ∧
      (∀ style, nullStyle s = .ok style →
        (style = .asType ↔ toLex (3, 1) ≤ toLex (number major, number minor))) ∧
      ∀ m, nullStyle s = .error m → m = .notNumber := by
  obtain ⟨major, minor, rest, hparts, hmajor, hminor⟩ :=
    exists_parts_of_isValid (isValid_of_checkVersion h)
  have hnumbers := numbers_eq hparts hmajor hminor
  refine ⟨major, minor, rest, hparts, ?_⟩
  by_cases hforms : FormsNumber major ∧ FormsNumber minor
  · rw [nullStyle, hnumbers, if_pos hforms]
    refine ⟨iff_of_true (succeeds_ok _) hforms, fun style hstyle => ?_, nofun⟩
    cases hstyle
    show (if 3 < number major ∨ number major = 3 ∧ 1 ≤ number minor then NullStyle.asType
      else .flag) = _ ↔ _
    rw [← atLeast_iff]
    split_ifs with hle <;> simp [hle]
  · rw [nullStyle, hnumbers, if_neg hforms]
    refine ⟨iff_of_false (not_succeeds_error _) hforms, nofun, fun m hm => ?_⟩
    cases hm
    rfl

/-- The first version that makes null a type is accepted, and does. -/
theorem type_null_from_here : Options.checkVersion (.str "3.1") = .ok "3.1" ∧
    nullStyle "3.1" = .ok .asType ∧ ∃ major minor rest, parts "3.1" = major :: minor :: rest ∧
      FormsNumber major ∧ FormsNumber minor ∧
      toLex (3, 1) ≤ toLex (number major, number minor) := by
  have haccepted : Options.checkVersion (.str "3.1") = .ok "3.1" :=
    checkVersion_of_isValid (by decide)
  have hstyle : nullStyle "3.1" = .ok .asType := by decide
  obtain ⟨major, minor, rest, hparts, husable, htype, -⟩ := accepted_version_usable_iff haccepted
  obtain ⟨hmajor, hminor⟩ := husable.1 ⟨_, hstyle⟩
  exact ⟨haccepted, hstyle, major, minor, rest, hparts, hmajor, hminor, (htype _ hstyle).1 rfl⟩

/-- A version whose second part is a superscript is accepted, and no style can be told. -/
theorem superscript_accepted_not_usable : ¬ ∀ s : Text,
    Options.checkVersion (.str s) = .ok s → Succeeds (nullStyle s) := by
  intro h
  have haccepted : Options.checkVersion (.str "3.¹") = .ok "3.¹" :=
    checkVersion_of_isValid (by decide)
  have hstyle : nullStyle "3.¹" = .error .notNumber := by decide
  have husable := h "3.¹" haccepted
  rw [hstyle] at husable
  exact not_succeeds_error _ husable

end SpecVersion

end ResourceApi
