import ResourceApi.Yaml.Glyph
import ResourceApi.Yaml.Style
import Mathlib.Data.List.Basic

/-!
# Spots in a text

A text is read as characters in their places. A *spot* is a place without its character, and the
glyphs of a text depend only on the spot where the text begins. After part of a text the rest stands
at the spot where the part ends, so a text can be read part by part (`Spot.glyphs_append`).

A new line brings the rest of the text to a known column (`Spot.column_after_newline`). Within a
line only the number of characters is known (`Spot.index_after`).
-/

namespace ResourceApi.Yaml

/-- A place in a text. -/
structure Spot where
  index : Nat
  line : Nat
  column : Nat

namespace Spot

/-- The spot after a character. -/
def next (s : Spot) (c : Char) : Spot :=
  if isBreak c then ⟨s.index + 1, s.line + 1, 0⟩
  else ⟨s.index + 1, s.line, if c = Glyph.byteOrderMark then s.column else s.column + 1⟩

/-- The spot after some characters. -/
def after (s : Spot) (cs : List Char) : Spot := cs.foldl next s

/-- The glyphs of a text that begins at the spot. -/
def glyphs (s : Spot) (cs : List Char) : List Glyph := Glyph.ofTextAt s.index s.line s.column cs

variable {s : Spot} {c : Char} {cs ds : List Char}

@[simp] theorem glyphs_nil : s.glyphs [] = [] := rfl

theorem glyphs_cons :
    s.glyphs (c :: cs) = ⟨c, s.index, s.line, s.column⟩ :: (s.next c).glyphs cs := by
  unfold glyphs next
  rw [Glyph.ofTextAt]
  split_ifs <;> rfl

@[simp] theorem after_nil : s.after [] = s := rfl

@[simp] theorem after_cons : s.after (c :: cs) = (s.next c).after cs := rfl

@[simp] theorem after_append : s.after (cs ++ ds) = (s.after cs).after ds := List.foldl_append

@[simp] theorem text_glyphs : Glyph.text (s.glyphs cs) = cs := by
  induction cs generalizing s with
  | nil => rfl
  | cons c cs ih =>
    rw [glyphs_cons]
    show c :: Glyph.text ((s.next c).glyphs cs) = c :: cs
    rw [ih]

@[simp] theorem length_glyphs : (s.glyphs cs).length = cs.length := by
  have htext : (Glyph.text (s.glyphs cs)).length = cs.length := by rw [text_glyphs]
  simpa [Glyph.text] using htext

/-! ## What comes next -/

@[simp] theorem nextIs_glyphs {p : Char → Bool} :
    Glyph.nextIs p (s.glyphs cs) = cs.head?.any p := by
  cases cs with
  | nil => rfl
  | cons c cs => rw [glyphs_cons]; rfl

@[simp] theorem endOr_glyphs {p : Char → Bool} :
    Glyph.endOr p (s.glyphs cs) = cs.head?.all p := by
  cases cs with
  | nil => rfl
  | cons c cs => rw [glyphs_cons]; rfl

theorem beginsWithMarker_iff : Style.beginsWithMarker cs = true ↔
    ∃ m rest, cs = m :: m :: m :: rest ∧ (m = '-' ∨ m = '.') := by
  constructor
  · intro h
    unfold Style.beginsWithMarker at h
    split at h
    · next a b c rest =>
      simp only [Bool.and_eq_true, Bool.or_eq_true, decide_eq_true_eq] at h
      obtain ⟨⟨rfl, rfl⟩, hmark⟩ := h
      exact ⟨a, rest, rfl, hmark⟩
    · cases h
  · rintro ⟨m, rest, rfl, hmark⟩
    simpa [Style.beginsWithMarker] using hmark

theorem beginsWithMarker_of_head (h : ∀ c ∈ cs.head?, c ≠ '-' ∧ c ≠ '.') :
    Style.beginsWithMarker cs = false := by
  rw [Bool.eq_false_iff, ne_eq, beginsWithMarker_iff]
  rintro ⟨m, rest, rfl, rfl | rfl⟩
  · exact (h '-' rfl).1 rfl
  · exact (h '.' rfl).2 rfl

/-- No mark arises before a character that belongs to none. -/
theorem beginsWithMarker_append (h : Style.beginsWithMarker cs = false)
    (hc : c ≠ '-' ∧ c ≠ '.') : Style.beginsWithMarker (cs ++ c :: ds) = false := by
  rw [Bool.eq_false_iff, ne_eq, beginsWithMarker_iff]
  rintro ⟨m, rest, heq, hmark⟩
  have hm : c ≠ m := by
    rintro rfl
    rcases hmark with rfl | rfl
    · exact hc.1 rfl
    · exact hc.2 rfl
  match cs with
  | [] => exact hm (List.cons.inj heq).1
  | [a] =>
    simp only [List.cons_append, List.nil_append, List.cons.injEq] at heq
    exact hm heq.2.1
  | [a, b] =>
    simp only [List.cons_append, List.nil_append, List.cons.injEq] at heq
    exact hm heq.2.2.1
  | a :: b :: d :: cs =>
    simp only [List.cons_append, List.cons.injEq] at heq
    obtain ⟨rfl, rfl, rfl, -⟩ := heq
    rw [beginsWithMarker_iff.2 ⟨_, _, rfl, hmark⟩] at h
    cases h

/-- A text that does not begin with a mark between documents is not taken for one. -/
theorem isMarker_glyphs (h : Style.beginsWithMarker cs = false) {mark : Char}
    (hmark : mark = '-' ∨ mark = '.') : Glyph.isMarker mark (s.glyphs cs) = false := by
  match cs with
  | [] => rfl
  | [a] => simp only [glyphs_cons, glyphs_nil, Glyph.isMarker]
  | [a, b] => simp only [glyphs_cons, glyphs_nil, Glyph.isMarker]
  | a :: b :: c :: cs =>
    simp only [glyphs_cons, Glyph.isMarker]
    by_contra hcontra
    simp only [Bool.not_eq_false, Bool.and_eq_true, decide_eq_true_eq] at hcontra
    obtain ⟨⟨⟨rfl, rfl⟩, rfl⟩, -⟩ := hcontra
    rcases hmark with rfl | rfl <;> simp [Style.beginsWithMarker] at h

theorem isAnyMarker_glyphs (h : Style.beginsWithMarker cs = false) :
    Glyph.isAnyMarker (s.glyphs cs) = false := by
  simp [Glyph.isAnyMarker, isMarker_glyphs h]

/-! ## Lines and columns -/

theorem line_le_next : s.line ≤ (s.next c).line := by
  unfold next
  split_ifs <;> simp

theorem line_le_after : s.line ≤ (s.after cs).line := by
  induction cs generalizing s with
  | nil => exact Nat.le_refl _
  | cons c cs ih => exact Nat.le_trans line_le_next ih

/-- On a line columns do not decrease. -/
theorem column_le_next (h : isBreak c = false) : s.column ≤ (s.next c).column := by
  unfold next
  rw [h]
  simp only [Bool.false_eq_true, if_false]
  split_ifs <;> omega

theorem column_le_after (h : ∀ c ∈ cs, isBreak c = false) : s.column ≤ (s.after cs).column := by
  induction cs generalizing s with
  | nil => exact Nat.le_refl _
  | cons c cs ih =>
    obtain ⟨hc, hcs⟩ := List.forall_mem_cons.1 h
    exact Nat.le_trans (column_le_next hc) (ih hcs)

theorem line_after (h : ∀ c ∈ cs, isBreak c = false) : (s.after cs).line = s.line := by
  induction cs generalizing s with
  | nil => rfl
  | cons c cs ih =>
    obtain ⟨hc, hcs⟩ := List.forall_mem_cons.1 h
    rw [after_cons, ih hcs, next, hc]
    rfl

theorem index_after : (s.after cs).index = s.index + cs.length := by
  induction cs generalizing s with
  | nil => rfl
  | cons c cs ih =>
    have hnext : (s.next c).index = s.index + 1 := by
      unfold next
      split_ifs <;> rfl
    rw [after_cons, ih, hnext, List.length_cons]
    omega

@[simp] theorem column_next_blank : (s.next ' ').column = s.column + 1 := rfl

@[simp] theorem line_next_blank : (s.next ' ').line = s.line := rfl

theorem after_blanks (n : Nat) :
    s.after (List.replicate n ' ') = ⟨s.index + n, s.line, s.column + n⟩ := by
  induction n generalizing s with
  | zero => rfl
  | succ n ih =>
    rw [List.replicate_succ, after_cons, ih]
    simp only [next]
    rw [if_neg (by decide), if_neg (by decide)]
    simp only [Spot.mk.injEq, true_and]
    omega

/-- **A new line leads to its indentation**, whatever stood before. -/
theorem after_newline (n : Nat) :
    s.after (Style.newline n) = ⟨s.index + 1 + n, s.line + 1, n⟩ := by
  rw [Style.newline, after_cons, after_blanks]
  simp [next, isBreak]

end Spot

end ResourceApi.Yaml
