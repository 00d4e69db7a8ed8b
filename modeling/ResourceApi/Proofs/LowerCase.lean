import ResourceApi.Text.Case
import ResourceApi.Proofs.Words

/-!
# First letters in lower case

Two texts can agree once their first letter is in lower case. They are told apart again by whatever
shows how they start (`eq_of_lowerFirst_eq`), and no character without cases comes in with a
lower-case form (`mem_of_mem_lowerFirst`). A slash is such a character, so that a path can still be
cut where its slashes are.
-/

namespace ResourceApi.Text

/-! ## Cancellation -/

theorem lowerChar_ne_nil (c : Char) : lowerChar c ≠ [] := by
  unfold lowerChar
  split_ifs
  · exact List.cons_ne_nil _ _
  · split <;> exact List.cons_ne_nil _ _

theorem lower_ne_nil (c : CodePoint) : lower c ≠ [] := by
  cases c with
  | half n => exact List.cons_ne_nil _ _
  | char c => exact fun h => lowerChar_ne_nil c (List.map_eq_nil_iff.1 h)

theorem lowerFirst_cons (c : CodePoint) (cs : List CodePoint) :
    lowerFirst ⟨c :: cs⟩ = ⟨lower c ++ cs⟩ := rfl

/-- Texts that begin a common text and agree with their first letter in lower case are equal. -/
theorem eq_of_lowerFirst_eq {s t x y : Text} (hlower : lowerFirst s = lowerFirst t)
    (h : s ++ x = t ++ y) : s = t := by
  obtain ⟨cs⟩ := s
  obtain ⟨ds⟩ := t
  cases cs with
  | nil =>
    cases ds with
    | nil => rfl
    | cons d ds =>
      rw [lowerFirst_cons] at hlower
      obtain ⟨hnil, -⟩ := List.append_eq_nil_iff.1 (Text.mk.inj hlower).symm
      exact absurd hnil (lower_ne_nil d)
  | cons c cs =>
    cases ds with
    | nil =>
      rw [lowerFirst_cons] at hlower
      obtain ⟨hnil, -⟩ := List.append_eq_nil_iff.1 (Text.mk.inj hlower)
      exact absurd hnil (lower_ne_nil c)
    | cons d ds =>
      -- The common text shows that both begin with the same code point.
      have hpoints : c :: (cs ++ x.points) = d :: (ds ++ y.points) := congrArg points h
      obtain ⟨rfl, -⟩ := List.cons.inj hpoints
      rw [lowerFirst_cons, lowerFirst_cons, Text.mk.injEq, List.append_right_inj] at hlower
      rw [hlower]

/-! ## Uncased characters -/

/-- The character is in no lower-case form but its own: no run leads to it. -/
def Uncased (c : Char) : Prop :=
  c.toNat ≠ 0 ∧ c ≠ 'i' ∧ c ≠ Char.ofNat 0x307 ∧
    ∀ r ∈ caseRuns, (c.toNat : Int) < r.first + r.offset ∨ r.last + r.offset < (c.toNat : Int)

theorem uncased_slash : Uncased '/' := by
  unfold Uncased
  decide +kernel

theorem toNat_ofNat_cases (n : Nat) : (Char.ofNat n).toNat = n ∨ (Char.ofNat n).toNat = 0 := by
  by_cases hvalid : n.isValidChar
  · left
    rw [Char.ofNat, dif_pos hvalid]
    rfl
  · right
    rw [Char.ofNat, dif_neg hvalid]
    rfl

variable {c : Char}

theorem eq_of_mem_lowerChar (hc : Uncased c) {d : Char} (h : c ∈ lowerChar d) : d = c := by
  obtain ⟨hzero, hi, hdot, hruns⟩ := hc
  unfold lowerChar at h
  split_ifs at h
  · simp [hi, hdot] at h
  · split at h
    · next r hr =>
      have hcovers := List.find?_some hr
      simp only [CaseRun.covers, Bool.and_eq_true, decide_eq_true_eq] at hcovers
      obtain ⟨⟨hfirst, hlast⟩, -⟩ := hcovers
      have hbeside := hruns r (List.mem_of_find?_eq_some hr)
      have hcode := congrArg Char.toNat (List.mem_singleton.1 h)
      rcases toNat_ofNat_cases ((d.toNat : Int) + r.offset).toNat with hn | hn
      · rw [hn] at hcode
        omega
      · exact absurd (hcode.trans hn) hzero
    · exact (List.mem_singleton.1 h).symm

theorem eq_of_mem_lower (hc : Uncased c) {p : CodePoint} (h : .char c ∈ lower p) : p = .char c := by
  cases p with
  | half n => cases List.mem_singleton.1 h
  | char d =>
    obtain ⟨c', hc', heq⟩ := List.mem_map.1 h
    cases heq
    rw [eq_of_mem_lowerChar hc hc']

/-- **No uncased character comes in with a lower-case form.** -/
theorem mem_of_mem_lowerFirst (hc : Uncased c) {s : Text}
    (h : .char c ∈ (lowerFirst s).points) : .char c ∈ s.points := by
  obtain ⟨cs⟩ := s
  cases cs with
  | nil => exact h
  | cons p cs =>
    rw [lowerFirst_cons] at h
    rcases List.mem_append.1 h with h | h
    · rw [eq_of_mem_lower hc h]
      exact List.mem_cons_self
    · exact List.mem_cons_of_mem p h

end ResourceApi.Text
