import ResourceApi.Yaml.Style
import Mathlib.Data.List.Chain

/-!
# The layout of written scalars

A text outside double quotes is written run by run. Words are written as they are, or with their
quotes doubled, blanks as they are; a single blank between words may become a line end with the
indentation after it, and line ends are followed by the indentation. `Laid` holds between the runs
of a text and what they are written as, wherever lines were ended: it holds of the lines of a text
(`laid_wrap`) and of a text on one line (`laid_word`).

**Runs** (`flatMap_text_ofText`, `alternate_ofText`). The runs of a text are the text, cut into
words and what separates them.
-/

namespace ResourceApi.Yaml

namespace Style

/-! ## Runs -/

namespace Run

/-- The characters of a run. -/
def text : Run → List Char
  | word cs => cs
  | blanks n => List.replicate n ' '
  | breaks cs => cs

def isWord : Run → Bool
  | word _ => true
  | _ => false

/-- A run holds characters of its sort, and at least one. -/
def WellFormed : Run → Prop
  | word cs => cs ≠ [] ∧ ∀ c ∈ cs, c ≠ ' ' ∧ isBreak c = false
  | blanks n => 0 < n
  | breaks cs => cs ≠ [] ∧ ∀ c ∈ cs, isBreak c = true

/-- Words and what separates them, in turn. -/
structure Alternate (runs : List Run) : Prop where
  wellFormed : ∀ r ∈ runs, r.WellFormed
  alternate : runs.IsChain fun a b => a.isWord ≠ b.isWord

variable {c : Char} {cs : List Char} {r : Run} {runs : List Run}

theorem Alternate.tail (h : Alternate (r :: runs)) : Alternate runs where
  wellFormed := fun r hr => h.wellFormed r (List.mem_cons_of_mem _ hr)
  alternate := h.alternate.tail

theorem Alternate.head (h : Alternate (r :: runs)) : r.WellFormed :=
  h.wellFormed r List.mem_cons_self

theorem alternate_cons {a : Run} : Alternate (a :: r :: runs) ↔
    a.WellFormed ∧ a.isWord ≠ r.isWord ∧ Alternate (r :: runs) := by
  constructor
  · intro h
    exact ⟨h.head, (List.isChain_cons_cons.1 h.alternate).1, h.tail⟩
  · intro h
    obtain ⟨ha, hne, h⟩ := h
    exact ⟨List.forall_mem_cons.2 ⟨ha, h.wellFormed⟩, List.isChain_cons_cons.2 ⟨hne, h.alternate⟩⟩

theorem Alternate.isWord_next (h : Alternate (r :: runs)) (hr : r.isWord = false) :
    ∀ r' ∈ runs.head?, r'.isWord ≠ false := by
  intro r' hr'
  cases runs with
  | nil => cases hr'
  | cons _ runs =>
    cases hr'
    have hne := (alternate_cons.1 h).2.1
    rw [hr] at hne
    exact hne.symm

theorem alternate_singleton : Alternate [r] ↔ r.WellFormed :=
  ⟨fun h => h.head, fun h => ⟨by simpa using h, List.isChain_singleton r⟩⟩

theorem alternate_nil : Alternate [] := ⟨nofun, List.isChain_nil⟩

@[simp] theorem flatMap_text_cons : (cons c runs).flatMap text = c :: runs.flatMap text := by
  unfold cons
  split_ifs with hblank
  · split <;> simp [text, hblank, List.replicate_succ]
  · split <;> simp [text]
  · split <;> simp [text]

/-- **The runs of a text are the text.** -/
@[simp] theorem flatMap_text_ofText (cs : List Char) : (ofText cs).flatMap text = cs := by
  induction cs with
  | nil => rfl
  | cons c cs ih =>
    show (cons c (ofText cs)).flatMap text = c :: cs
    rw [flatMap_text_cons, ih]

/-- A run in front of others of another sort, or one joined to a run of its own sort. -/
theorem alternate_join {a : Run} (ha : a.WellFormed) (hsort : a.isWord = r.isWord)
    (h : Alternate (r :: runs)) : Alternate (a :: runs) := by
  cases runs with
  | nil => exact alternate_singleton.2 ha
  | cons b runs =>
    obtain ⟨-, hne, h⟩ := alternate_cons.1 h
    exact alternate_cons.2 ⟨ha, hsort ▸ hne, h⟩

theorem head_mem_text (h : ofText cs = r :: runs) (hr : r.WellFormed) :
    ∃ c rest, cs = c :: rest ∧ c ∈ r.text := by
  have htext : cs = r.text ++ runs.flatMap text := by
    rw [← flatMap_text_ofText cs, h, List.flatMap_cons]
  have hne : r.text ≠ [] := by
    cases r with
    | word w => exact hr.1
    | blanks n =>
      have hpos : n ≠ 0 := Nat.pos_iff_ne_zero.1 hr
      simpa [text] using hpos
    | breaks bs => exact hr.1
  obtain ⟨c, rest, hcons⟩ := List.exists_cons_of_ne_nil hne
  exact ⟨c, rest ++ runs.flatMap text, by rw [htext, hcons, List.cons_append], by simp [hcons]⟩

theorem hasBlankAtBreak_tail (h : hasBlankAtBreak (c :: cs) = false) :
    hasBlankAtBreak cs = false := by
  cases cs with
  | nil => rfl
  | cons d cs =>
    simp only [hasBlankAtBreak, Bool.or_eq_false_iff] at h
    exact h.2

/-- **Words alternate with what separates them**, where no blank stands next to a line end. -/
theorem alternate_ofText (h : hasBlankAtBreak cs = false) : Alternate (ofText cs) := by
  induction cs with
  | nil => exact alternate_nil
  | cons c cs ih =>
    have ih := ih (hasBlankAtBreak_tail h)
    show Alternate (cons c (ofText cs))
    cases hruns : ofText cs with
    | nil =>
      unfold cons
      split_ifs with hblank hbreak
      · exact alternate_singleton.2 Nat.one_pos
      · exact alternate_singleton.2 ⟨by simp, by simpa using hbreak⟩
      · exact alternate_singleton.2 ⟨by simp, by simp [hblank, hbreak]⟩
    | cons r runs =>
      rw [hruns] at ih
      obtain ⟨d, rest, rfl, hd⟩ := head_mem_text hruns ih.head
      simp only [hasBlankAtBreak, Bool.or_eq_false_iff, Bool.and_eq_false_imp,
        decide_eq_true_eq] at h
      obtain ⟨⟨hblankBreak, hbreakBlank⟩, -⟩ := h
      unfold cons
      split_ifs with hblank hbreak
      · cases r with
        | word w => exact alternate_cons.2 ⟨Nat.one_pos, by simp [isWord], ih⟩
        | blanks n => exact alternate_join (r := .blanks n) (Nat.succ_pos n) rfl ih
        | breaks bs =>
          have hbreak := ih.head.2 d hd
          rw [hblankBreak hblank] at hbreak
          cases hbreak
      · cases r with
        | word w =>
          exact alternate_cons.2 ⟨⟨by simp, by simpa using hbreak⟩, by simp [isWord], ih⟩
        | blanks n =>
          have hd : d = ' ' := List.eq_of_mem_replicate hd
          exact absurd hd (by simpa using hbreakBlank hbreak)
        | breaks bs =>
          exact alternate_join (r := .breaks bs)
            ⟨by simp, List.forall_mem_cons.2 ⟨hbreak, ih.head.2⟩⟩ rfl ih
      · have hc : c ≠ ' ' ∧ isBreak c = false := ⟨hblank, by simpa using hbreak⟩
        cases r with
        | word w =>
          exact alternate_join (r := .word w)
            ⟨by simp, List.forall_mem_cons.2 ⟨hc, ih.head.2⟩⟩ rfl ih
        | blanks n => exact alternate_cons.2 ⟨⟨by simp, by simpa using hc⟩, by simp [isWord], ih⟩
        | breaks bs => exact alternate_cons.2 ⟨⟨by simp, by simpa using hc⟩, by simp [isWord], ih⟩

end Run

/-! ## Layout -/

/-- What line ends are written as: a line feed at their head is written twice. -/
def breakLines (cs : List Char) : List Char :=
  (if cs.head? = some '\n' then ['\n'] else []) ++ cs

/-- The runs are written as the characters, with lines that go on at an indentation. -/
inductive Laid (isQuoted : Bool) (indent : Nat) : List Run → List Char → Prop
  | nil : Laid isQuoted indent [] []
  | word {runs : List Run} {out : List Char} (cs : List Char) :
      Laid isQuoted indent runs out →
      Laid isQuoted indent (.word cs :: runs) (Style.word isQuoted cs ++ out)
  | blanks {runs : List Run} {out : List Char} (n : Nat) :
      Laid isQuoted indent runs out →
      Laid isQuoted indent (.blanks n :: runs) (List.replicate n ' ' ++ out)
  /-- A single blank between words as a line end. -/
  | fold {run : Run} {runs : List Run} {out : List Char} (cs : List Char) :
      Laid isQuoted indent (run :: runs) out →
      Laid isQuoted indent (.word cs :: .blanks 1 :: run :: runs)
        (Style.word isQuoted cs ++ (newline indent ++ out))
  | breaks {runs : List Run} {out : List Char} (cs : List Char) :
      Laid isQuoted indent runs out →
      Laid isQuoted indent (.breaks cs :: runs)
        (breakLines cs ++ (List.replicate indent ' ' ++ out))

/-- **The lines of a text are a layout of it.** -/
theorem laid_wrap (isQuoted : Bool) (indent column : Nat) (runs : List Run) :
    Laid isQuoted indent runs (wrap isQuoted indent column runs) := by
  fun_induction wrap isQuoted indent column runs with
  | case1 => exact .nil
  | case2 column cs run runs after ih ih' =>
    split_ifs
    · exact .fold cs ih
    · exact .word cs (.blanks 1 ih')
  | case3 column cs runs _ ih => exact .word cs ih
  | case4 column n runs ih => exact .blanks n ih
  | case5 column cs runs ih =>
    rw [← List.append_assoc]
    exact .breaks cs ih

theorem word_blanks (isQuoted : Bool) (n : Nat) :
    Style.word isQuoted (List.replicate n ' ') = List.replicate n ' ' := by
  cases isQuoted with
  | false => rfl
  | true =>
    induction n with
    | zero => rfl
    | succ n ih => simpa [Style.word, List.replicate_succ] using ih

theorem laid_word {isQuoted : Bool} {indent : Nat} {runs : List Run}
    (h : ∀ r ∈ runs, ∀ cs, r ≠ .breaks cs) :
    Laid isQuoted indent runs (Style.word isQuoted (runs.flatMap Run.text)) := by
  induction runs with
  | nil => cases isQuoted <;> exact .nil
  | cons r runs ih =>
    obtain ⟨hr, hruns⟩ := List.forall_mem_cons.1 h
    have happend (as bs : List Char) :
        Style.word isQuoted (as ++ bs) = Style.word isQuoted as ++ Style.word isQuoted bs := by
      cases isQuoted <;> simp [Style.word]
    rw [List.flatMap_cons, happend]
    cases r with
    | word cs => exact .word cs (ih hruns)
    | blanks n =>
      rw [Run.text, word_blanks]
      exact .blanks n (ih hruns)
    | breaks cs => exact absurd rfl (hr cs)

end Style

end ResourceApi.Yaml
