import ResourceApi.Model.Definition
import ResourceApi.Proofs.Words
import Mathlib.Data.List.Induction

/-!
# Type marks

The type of a field may carry marks behind its name, each of which sets a flag of the field. They
are taken off from the end, one after the other, until the text ends in none.

**Main result** (`ofText_marked`). From a name that ends in no mark and any marks behind it the name
is read back, and the flags say which marks there were. Neither the order of the marks nor how often
one stands there matters.

Every text is such a name with marks behind it, in one way only (`existsUnique_marked`).
-/

namespace ResourceApi

open Definition

/-- The marks that a type may carry. -/
inductive Mark where
  | optional | array
  deriving DecidableEq, Repr

namespace Mark

def text : Mark → Text
  | .optional => "?"
  | .array => "[]"

end Mark

namespace Text

/-- The text with marks behind it. -/
def marked (t : Text) (marks : List Mark) : Text :=
  ⟨t.points ++ marks.flatMap fun k => k.text.points⟩

/-- The text ends in no mark. -/
def Unmarked (t : Text) : Prop := ∀ k : Mark, ¬ k.text.points <:+ t.points

instance (t : Text) : Decidable t.Unmarked :=
  decidable_of_iff
    (¬ Mark.optional.text.points <:+ t.points ∧ ¬ Mark.array.text.points <:+ t.points)
    ⟨fun h k => by cases k <;> simp [h], fun h => ⟨h .optional, h .array⟩⟩

theorem marked_nil (t : Text) : t.marked [] = t := points_inj.1 (List.append_nil _)

theorem points_marked_concat (t : Text) (marks : List Mark) (k : Mark) :
    (t.marked (marks ++ [k])).points = (t.marked marks).points ++ k.text.points := by
  simp [marked]

theorem mark_eq_of_append_eq {cs ds : List CodePoint} {k l : Mark}
    (h : cs ++ k.text.points = ds ++ l.text.points) : k = l := by
  have hlast := congrArg List.getLast? h
  cases k <;> cases l <;> simp [Mark.text] at hlast ⊢

/-- **A text has marks behind a name in one way only**, if the name ends in none. -/
theorem marked_inj {t t' : Text} {marks marks' : List Mark} (ht : t.Unmarked) (ht' : t'.Unmarked)
    (h : t.marked marks = t'.marked marks') : t = t' ∧ marks = marks' := by
  -- the ends are compared mark by mark, so the induction is from the end
  induction marks using List.reverseRecOn generalizing marks' with
  | nil =>
    cases marks' using List.reverseRecOn with
    | nil => exact ⟨by simpa [marked_nil] using h, rfl⟩
    | append_singleton marks' k' =>
      rw [marked_nil] at h
      exact absurd ⟨_, (h ▸ points_marked_concat t' marks' k').symm⟩ (ht k')
  | append_singleton marks k ih =>
    have hpoints := congrArg points h
    rw [points_marked_concat] at hpoints
    cases marks' using List.reverseRecOn with
    | nil =>
      rw [marked_nil] at hpoints
      exact absurd ⟨_, hpoints⟩ (ht' k)
    | append_singleton marks' k' =>
      rw [points_marked_concat] at hpoints
      obtain rfl := mark_eq_of_append_eq hpoints
      obtain ⟨hname, hmarks⟩ := ih (points_inj.1 (List.append_cancel_right hpoints))
      exact ⟨hname, by rw [hmarks]⟩

theorem exists_marked (s : Text) : ∃ (t : Text) (marks : List Mark),
    t.Unmarked ∧ t.marked marks = s := by
  by_cases hs : s.Unmarked
  · exact ⟨s, [], hs, marked_nil s⟩
  · obtain ⟨k, hk⟩ := not_forall_not.1 hs
    obtain ⟨cs, hcs⟩ := hk
    obtain ⟨t, marks, ht, hrest⟩ := exists_marked ⟨cs⟩
    refine ⟨t, marks ++ [k], ht, points_inj.1 ?_⟩
    rw [points_marked_concat, hrest, ← hcs]
termination_by s.points.length
decreasing_by
  rw [← hcs, List.length_append]
  cases k <;> simp [Mark.text]

/-- **Every text is a name with marks behind it**, in one way. -/
theorem existsUnique_marked (s : Text) :
    ∃! d : Text × List Mark, d.1.Unmarked ∧ d.1.marked d.2 = s := by
  obtain ⟨t, marks, ht, hs⟩ := exists_marked s
  refine ⟨(t, marks), ⟨ht, hs⟩, fun d hd => ?_⟩
  obtain ⟨hname, hmarks⟩ := marked_inj hd.1 ht (hd.2.trans hs.symm)
  exact Prod.ext hname hmarks

end Text

namespace Definition

theorem takeMarks_mark (k : Mark) (cs : List CodePoint) :
    takeMarks (k.text.points.reverse ++ cs) =
      ((takeMarks cs).1, (takeMarks cs).2.1 || decide (k = .optional),
        (takeMarks cs).2.2 || decide (k = .array)) := by
  cases k with
  | optional => simp [Mark.text, takeMarks]
  | array => simp [Mark.text, takeMarks]

theorem takeMarks_of_unmarked {t : Text} (h : t.Unmarked) :
    takeMarks t.points.reverse = (t.points.reverse, false, false) := by
  unfold takeMarks
  split
  · next cs hcs =>
    refine absurd ⟨cs.reverse, ?_⟩ (h .optional)
    rw [← List.reverse_reverse t.points, hcs]
    simp [Mark.text]
  · next cs hcs =>
    refine absurd ⟨cs.reverse, ?_⟩ (h .array)
    rw [← List.reverse_reverse t.points, hcs]
    simp [Mark.text]
  · rfl

/-- **Marks are read back**, and so is the name before them. -/
theorem MarkedType.ofText_marked {t : Text} (h : t.Unmarked) (marks : List Mark) :
    MarkedType.ofText (t.marked marks) =
      ⟨t, decide (.optional ∈ marks), decide (.array ∈ marks)⟩ := by
  -- marks are taken off from the end, so the induction is from the end too
  have htake : takeMarks (t.marked marks).points.reverse =
      (t.points.reverse, decide (.optional ∈ marks), decide (.array ∈ marks)) := by
    induction marks using List.reverseRecOn with
    | nil => rw [Text.marked_nil, takeMarks_of_unmarked h]; simp
    | append_singleton marks k ih =>
      rw [Text.points_marked_concat, List.reverse_append, takeMarks_mark, ih]
      simp [eq_comm]
  rw [ofText, htake]
  simp

end Definition

end ResourceApi
