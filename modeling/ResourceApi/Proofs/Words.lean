import ResourceApi.Text
import Mathlib.Data.List.Basic

/-!
# Words

Literals, and texts put together from parts. What stands before the first separator of a text is
determined by the text (`eq_of_append_eq`), and a text that is joined from words with a separator
that no word holds can be taken apart again (`join_injective`).
-/

namespace ResourceApi.Text

/-! ## Parts -/

theorem ofString_inj {s t : String} : ofString s = ofString t ↔ s = t := by
  refine ⟨fun h => ?_, fun h => h ▸ rfl⟩
  have hpoints := congrArg Text.points h
  rw [points_ofString, points_ofString] at hpoints
  have hchar : Function.Injective CodePoint.char := fun _ _ hab => CodePoint.char.inj hab
  exact String.toList_inj.1 (List.map_injective_iff.2 hchar hpoints)

theorem ofString_append (s t : String) : ofString (s ++ t) = ofString s ++ ofString t := by
  show Text.mk _ = Text.mk _
  rw [String.toList_append, List.map_append]
  rfl

theorem append_right_inj {s t u : Text} : s ++ t = s ++ u ↔ t = u := by
  obtain ⟨ts⟩ := t
  obtain ⟨us⟩ := u
  show Text.mk (s.points ++ ts) = Text.mk (s.points ++ us) ↔ _
  rw [Text.mk.injEq, List.append_right_inj, Text.mk.injEq]

theorem points_inj {s t : Text} : s.points = t.points ↔ s = t := by
  obtain ⟨ss⟩ := s
  obtain ⟨ts⟩ := t
  rw [Text.mk.injEq]

theorem chars?_eq_some_iff {t : Text} {cs : List Char} : t.chars? = some cs ↔ ofChars cs = t := by
  constructor
  · intro h
    obtain ⟨points⟩ := t
    replace h : points.mapM CodePoint.char? = some cs := h
    suffices hpoints : cs.map CodePoint.char = points from congrArg Text.mk hpoints
    induction points generalizing cs with
    | nil =>
      obtain rfl : [] = cs := by simpa using h
      rfl
    | cons p points ih =>
      rw [List.mapM_cons] at h
      cases p with
      | half n => cases h
      | char c =>
        cases hrest : points.mapM CodePoint.char? with
        | none => simp [CodePoint.char?, hrest] at h
        | some rest =>
          obtain rfl : c :: rest = cs := by simpa [CodePoint.char?, hrest] using h
          rw [List.map_cons, ih hrest]
  · rintro rfl
    exact chars?_ofChars cs

theorem append_empty (s : Text) : s ++ "" = s := points_inj.1 (List.append_nil _)

theorem eq_append_right_iff {s t : Text} : s = s ++ t ↔ t = "" := by
  rw [eq_comm, ← append_right_inj (t := t), append_empty]

theorem append_inj_of_length_eq {s t x y : Text} (hlength : x.points.length = y.points.length)
    (h : s ++ x = t ++ y) : s = t ∧ x = y := by
  have hpoints : s.points ++ x.points = t.points ++ y.points := congrArg Text.points h
  obtain ⟨hst, hxy⟩ := List.append_inj' hpoints hlength
  exact ⟨points_inj.1 hst, points_inj.1 hxy⟩

/-- Of two endings of a text, one is an ending of the other. -/
theorem suffix_or_suffix_of_append_eq {s t x y : Text} (h : s ++ x = t ++ y) :
    x.points <:+ y.points ∨ y.points <:+ x.points := by
  have hx : x.points <:+ (s ++ x).points := List.suffix_append _ _
  have hy : y.points <:+ (s ++ x).points := h ▸ List.suffix_append _ _
  exact List.suffix_or_suffix_of_suffix hx hy

/-- What stands before a separator is determined by the whole, if it does not hold the separator. -/
theorem eq_of_append_eq {separator : CodePoint} {s t x y : Text} (hs : separator ∉ s.points)
    (ht : separator ∉ t.points) (hx : ∀ c ∈ x.points.head?, c = separator)
    (hy : ∀ c ∈ y.points.head?, c = separator) (h : s ++ x = t ++ y) : s = t := by
  have htake (u z : Text) (hu : separator ∉ u.points) (hz : ∀ c ∈ z.points.head?, c = separator) :
      (u ++ z).points.takeWhile (· ≠ separator) = u.points := by
    rw [points_append, List.takeWhile_append_of_pos]
    · cases hpoints : z.points with
      | nil => simp
      | cons c cs =>
        rw [hpoints] at hz
        simp [hz c rfl]
    · intro c hc
      exact decide_eq_true fun heq => hu (heq ▸ hc)
  rw [← points_inj, ← htake s x hs hx, ← htake t y ht hy, h]

/-! ## Joined words -/

theorem points_join (separator : Text) (words : List Text) :
    (join separator words).points = separator.points.intercalate (words.map points) := by
  induction words with
  | nil => rfl
  | cons w words ih =>
    cases words with
    | nil => simp [join, List.intercalate]
    | cons w' words =>
      rw [join, points_append, points_append, ih]
      · simp [List.intercalate]
      · exact List.cons_ne_nil _ _

/-- **Words can be read back** from their joined form when none of them holds the separator. -/
theorem join_injective {separator : CodePoint} {xs ys : List Text} (hxs : xs ≠ []) (hys : ys ≠ [])
    (hx : ∀ w ∈ xs, separator ∉ w.points) (hy : ∀ w ∈ ys, separator ∉ w.points)
    (h : join ⟨[separator]⟩ xs = join ⟨[separator]⟩ ys) : xs = ys := by
  have hpoints := congrArg (fun t : Text => t.points.splitOn separator) h
  simp only [points_join] at hpoints
  rw [List.splitOn_intercalate separator (by simpa using hx) (by simpa using hxs),
    List.splitOn_intercalate separator (by simpa using hy) (by simpa using hys)] at hpoints
  exact List.map_injective_iff.2 (fun _ _ => points_inj.1) hpoints

end ResourceApi.Text
