import ResourceApi.Proofs.Yaml.PlainScalar
import ResourceApi.Yaml.Lexeme.Quoted

/-!
# Texts in single quotes read back

Blanks and line ends are read with a delay: what they stand for shows only at the character after
them (`pending`). A word is read after whatever is pending (`quoted_read_word`), so a text in single
quotes is read run by run (`single_read`).

Not every text is read back as it is. A next line mark at the head of a run of line ends is taken
for a line end of the layout, and elsewhere it is read as a line feed (`Run.reread`).
-/

namespace ResourceApi.Yaml

open Style Quoted

/-! ## What is read back -/

/-- What a run of line ends is read back as. A next line mark at its head is a blank when it stands
alone, and nothing before further line ends; any other next line mark is a line feed. -/
def rereadBreaks : List Char → List Char
  | [] => []
  | c :: cs =>
    if c = '\x85' then if cs.isEmpty then [' '] else cs.map breakText
    else c :: cs.map breakText

/-- What a run in single quotes is read back as. -/
def Style.Run.reread : Run → List Char
  | .breaks cs => rereadBreaks cs
  | r => r.text

/-! ## Steps -/

namespace Quoted

/-- The text that blanks and line ends before a character stand for, in reverse. -/
def pending : Quoted.Mode → List CodePoint
  | .blanks run => run.map .char
  | .lines first more => foldedBack first more
  | _ => []

/-- The reading stands after text that is complete but for what is pending. -/
inductive Settled : Quoted.Mode → Prop
  | inside : Settled .inside
  | blanks (run : List Char) : Settled (.blanks run)
  | lines (first : Option Char) (more : List Char) : Settled (.lines first more)

end Quoted

section

variable {isDouble : Bool} {mode mode' : Quoted.Mode} {seen seen' : List CodePoint} {c : Char}
  {cs tail : List Char} {s : Spot}

theorem turn_eq_ordinary (hmode : Settled mode) (hc : isSpace c = false) :
    turn isDouble mode seen c = ordinary isDouble (pending mode ++ seen) c := by
  simp only [isSpace, Bool.or_eq_false_iff, decide_eq_false_iff_not] at hc
  obtain ⟨⟨hblank, htab⟩, hbreak⟩ := hc
  cases hmode with
  | inside => rfl
  | blanks run => simp [turn, hblank, htab, hbreak, pending]
  | lines first more => simp [turn, hblank, htab, hbreak, pending]

/-- One character that keeps the scalar open, with no mark between documents after a line end. -/
theorem quoted_read_go (h : turn isDouble mode seen c = .go mode' seen')
    (hmarker : isBreak c = false ∨ beginsWithMarker cs = false) :
    Quoted.read isDouble mode seen (s.glyphs (c :: cs)) =
      Quoted.read isDouble mode' seen' ((s.next c).glyphs cs) := by
  have hnone : (isBreak c && Glyph.isAnyMarker ((s.next c).glyphs cs)) = false := by
    rcases hmarker with hbreak | hmarker
    · rw [hbreak, Bool.false_and]
    · rw [Spot.isAnyMarker_glyphs hmarker, Bool.and_false]
  rw [Spot.glyphs_cons, Quoted.read]
  simp [h, hnone]

theorem quoted_read_blanks {n : Nat} (hn : 0 < n) :
    Quoted.read isDouble .inside seen (s.glyphs (List.replicate n ' ' ++ tail)) =
      Quoted.read isDouble (.blanks (List.replicate n ' ')) seen
        ((s.after (List.replicate n ' ')).glyphs tail) := by
  have hmore (k m : Nat) (s : Spot) : Quoted.read isDouble (.blanks (List.replicate k ' ')) seen
      (s.glyphs (List.replicate m ' ' ++ tail)) =
        Quoted.read isDouble (.blanks (List.replicate (k + m) ' ')) seen
          ((s.after (List.replicate m ' ')).glyphs tail) := by
    induction m generalizing k s with
    | zero => rfl
    | succ m ih =>
      have hgo : turn isDouble (.blanks (List.replicate k ' ')) seen ' ' =
          .go (.blanks (List.replicate (k + 1) ' ')) seen := by
        simp [turn, List.replicate_succ]
      rw [List.replicate_succ, List.cons_append, quoted_read_go hgo (.inl rfl), ih,
        Spot.after_cons, Nat.add_right_comm, Nat.add_assoc]
  obtain ⟨k, rfl⟩ : ∃ k, n = k + 1 := ⟨n - 1, (Nat.succ_pred_eq_of_pos hn).symm⟩
  have hgo : turn isDouble .inside seen ' ' = .go (.blanks (List.replicate 1 ' ')) seen := by
    simp [turn, ordinary]
  rw [List.replicate_succ, List.cons_append, quoted_read_go hgo (.inl rfl), hmore, Spot.after_cons,
    Nat.add_comm, List.replicate_succ]

theorem quoted_read_indent (n : Nat) {first : Option Char} {more : List Char} :
    Quoted.read isDouble (.lines first more) seen (s.glyphs (List.replicate n ' ' ++ tail)) =
      Quoted.read isDouble (.lines first more) seen
        ((s.after (List.replicate n ' ')).glyphs tail) := by
  induction n generalizing s with
  | zero => rfl
  | succ n ih =>
    have hgo : turn isDouble (.lines first more) seen ' ' = .go (.lines first more) seen := by
      simp [turn]
    rw [List.replicate_succ, List.cons_append, quoted_read_go hgo (.inl rfl), ih, Spot.after_cons]

theorem beginsWithMarker_breaks {indent : Nat} (hpos : 0 < indent)
    (hcs : ∀ d ∈ cs, isBreak d = true) :
    beginsWithMarker (cs ++ (List.replicate indent ' ' ++ tail)) = false := by
  cases cs with
  | nil => exact beginsWithMarker_blanks hpos
  | cons d cs =>
    refine Spot.beginsWithMarker_of_head fun c hc => ?_
    obtain rfl : d = c := by simpa using hc
    have hd := hcs d List.mem_cons_self
    constructor <;> rintro rfl <;> cases hd

theorem quoted_read_breaks {indent : Nat} (cs : List Char) (hpos : 0 < indent)
    (hc : isBreak c = true) (hcs : ∀ d ∈ cs, isBreak d = true) :
    Quoted.read isDouble .inside seen
        (s.glyphs (c :: cs ++ (List.replicate indent ' ' ++ tail))) =
      Quoted.read isDouble (.lines (some (breakText c)) (cs.map breakText).reverse) seen
        ((s.after (c :: cs ++ List.replicate indent ' ')).glyphs tail) := by
  have hmore (first : Option Char) (more cs : List Char) (s : Spot)
      (hcs : ∀ d ∈ cs, isBreak d = true) : Quoted.read isDouble (.lines first more) seen
        (s.glyphs (cs ++ (List.replicate indent ' ' ++ tail))) =
      Quoted.read isDouble (.lines first ((cs.map breakText).reverse ++ more)) seen
        ((s.after (cs ++ List.replicate indent ' ')).glyphs tail) := by
    induction cs generalizing more s with
    | nil => exact quoted_read_indent indent
    | cons d cs ih =>
      obtain ⟨hd, hcs⟩ := List.forall_mem_cons.1 hcs
      have hgo : turn isDouble (.lines first more) seen d =
          .go (.lines first (breakText d :: more)) seen := by
        have hspace : d ≠ ' ' ∧ d ≠ '\t' := by
          constructor <;> rintro rfl <;> cases hd
        simp [turn, hd, hspace]
      rw [List.cons_append, quoted_read_go hgo (.inr (beginsWithMarker_breaks hpos hcs)),
        ih _ _ hcs]
      simp
  have hgo : turn isDouble .inside seen c = .go (.lines (some (breakText c)) []) seen := by
    have hspace : c ≠ ' ' ∧ c ≠ '\t' := by
      constructor <;> rintro rfl <;> cases hc
    simp [turn, ordinary, hc, hspace]
  rw [List.cons_append, quoted_read_go hgo (.inr (beginsWithMarker_breaks hpos hcs)),
    hmore _ _ _ _ hcs]
  simp

/-! ## Single quotes -/

theorem single_read_char (hmode : Settled mode) (hc : isSpace c = false) :
    Quoted.read false mode seen (s.glyphs ((if c = '\'' then ['\'', '\''] else [c]) ++ tail)) =
      Quoted.read false .inside (c :: (pending mode ++ seen))
        ((s.after (if c = '\'' then ['\'', '\''] else [c])).glyphs tail) := by
  have hspace := hc
  simp only [isSpace, Bool.or_eq_false_iff, decide_eq_false_iff_not] at hspace
  obtain ⟨⟨hblank, htab⟩, hbreak⟩ := hspace
  by_cases hquote : c = '\''
  · subst hquote
    have hfirst : turn false mode seen '\'' = .go .quote (pending mode ++ seen) := by
      rw [turn_eq_ordinary hmode hc]
      rfl
    have hsecond : turn false .quote (pending mode ++ seen) '\'' =
        .go .inside ('\'' :: (pending mode ++ seen)) := rfl
    simp only [if_true, List.cons_append, List.nil_append]
    rw [quoted_read_go hfirst (.inl rfl), quoted_read_go hsecond (.inl rfl)]
    rfl
  · have hgo : turn false mode seen c = .go .inside (c :: (pending mode ++ seen)) := by
      rw [turn_eq_ordinary hmode hc]
      simp [ordinary, hblank, htab, hbreak, hquote]
    simp only [hquote, if_false, List.cons_append, List.nil_append]
    rw [quoted_read_go hgo (.inl hbreak)]
    rfl

/-- **A word in single quotes is read back** after what is pending. -/
theorem single_read_word {w : List Char} (hne : w ≠ []) (hw : ∀ c ∈ w, isSpace c = false)
    (hmode : Settled mode) :
    Quoted.read false mode seen (s.glyphs (word true w ++ tail)) =
      Quoted.read false .inside ((w.map CodePoint.char).reverse ++ (pending mode ++ seen))
        ((s.after (word true w)).glyphs tail) := by
  induction w generalizing s mode seen with
  | nil => exact absurd rfl hne
  | cons c w ih =>
    obtain ⟨hc, hw⟩ := List.forall_mem_cons.1 hw
    have hcons : word true (c :: w) = (if c = '\'' then ['\'', '\''] else [c]) ++ word true w := by
      simp [word]
    rw [hcons, List.append_assoc, single_read_char hmode hc, Spot.after_append]
    cases w with
    | nil => simp [word]
    | cons d w =>
      rw [ih (by simp) hw .inside]
      simp [pending]

theorem single_read_close (hmode : Settled mode) (htail : tail.head? ≠ some '\'') :
    Quoted.read false mode seen (s.glyphs ('\'' :: tail)) =
      .ok (⟨(pending mode ++ seen).reverse⟩, (s.next '\'').glyphs tail) := by
  have hgo : turn false mode seen '\'' = .go .quote (pending mode ++ seen) := by
    rw [turn_eq_ordinary hmode rfl]
    rfl
  rw [quoted_read_go hgo (.inl rfl)]
  cases tail with
  | nil => rfl
  | cons d tail =>
    have hd : d ≠ '\'' := by simpa using htail
    have hclosed : turn false .quote (pending mode ++ seen) d = .closed (pending mode ++ seen) := by
      simp [turn, hd]
    rw [Spot.glyphs_cons, Quoted.read]
    simp [hclosed]

theorem pending_breakLines {cs : List Char} (hne : cs ≠ []) :
    ∃ c more, breakLines cs = c :: more ∧
      foldedBack (some (breakText c)) (more.map breakText).reverse =
        ((rereadBreaks cs).map CodePoint.char).reverse := by
  obtain ⟨c, cs, rfl⟩ := List.exists_cons_of_ne_nil hne
  by_cases hfeed : c = '\n'
  · subst hfeed
    refine ⟨'\n', '\n' :: cs, by simp [breakLines], ?_⟩
    simp [foldedBack, folded, rereadBreaks, breakText, List.map_reverse]
  · refine ⟨c, cs, by simp [breakLines, hfeed], ?_⟩
    by_cases hmark : c = '\x85'
    · subst hmark
      cases cs <;> simp [foldedBack, folded, rereadBreaks, breakText, List.map_reverse]
    · simp [foldedBack, folded, rereadBreaks, breakText, hfeed, hmark, List.map_reverse]

/-- **A text in single quotes is read back run by run**, wherever its lines are ended. -/
theorem single_read {indent : Nat} (hpos : 0 < indent) {runs : List Run} {out : List Char}
    (hout : Laid true indent runs out) (hruns : Run.Alternate runs)
    (hspace : ∀ w, .word w ∈ runs → ∀ c ∈ w, isSpace c = false) (hmode : Settled mode)
    (hinside : ∀ r ∈ runs.head?, r.isWord = false → mode = .inside)
    (htail : tail.head? ≠ some '\'') :
    Quoted.read false mode seen (s.glyphs (out ++ '\'' :: tail)) =
      .ok (⟨(pending mode ++ seen).reverse ++ (runs.flatMap Run.reread).map .char⟩,
        (s.after (out ++ ['\''])).glyphs tail) := by
  induction hout generalizing mode seen s with
  | nil => simpa using single_read_close hmode htail
  | @word runs out w hout ih =>
    have hw : w ≠ [] := hruns.head.1
    rw [List.append_assoc, single_read_word hw (hspace w List.mem_cons_self) hmode,
      ih hruns.tail (fun w hw => hspace w (List.mem_cons_of_mem _ hw)) .inside fun _ _ _ => rfl]
    simp [pending, Run.reread, Run.text]
  | @blanks runs out n hout ih =>
    obtain rfl : mode = .inside := hinside _ rfl rfl
    rw [List.append_assoc, quoted_read_blanks hruns.head,
      ih hruns.tail (fun w hw => hspace w (List.mem_cons_of_mem _ hw)) (.blanks _)
        fun r hr hword => absurd hword (hruns.isWord_next rfl r hr)]
    simp [pending, Run.reread, Run.text]
  | @fold run runs out w hout ih =>
    have hw : w ≠ [] := hruns.head.1
    have hnewline {seen : List CodePoint} {s : Spot} {tail : List Char} :
        Quoted.read false .inside seen (s.glyphs (newline indent ++ tail)) =
          Quoted.read false (.lines (some '\n') []) seen ((s.after (newline indent)).glyphs tail) :=
      quoted_read_breaks [] hpos rfl (List.forall_mem_nil _)
    rw [List.append_assoc, single_read_word hw (hspace w List.mem_cons_self) hmode,
      List.append_assoc, hnewline, ih hruns.tail.tail (fun w hw => hspace w
        (List.mem_cons_of_mem _ (List.mem_cons_of_mem _ hw))) (.lines _ _)
        fun r hr hword => absurd hword (hruns.tail.isWord_next rfl r hr)]
    simp [pending, foldedBack, folded, Run.reread, Run.text]
  | @breaks runs out bs hout ih =>
    obtain rfl : mode = .inside := hinside _ rfl rfl
    obtain ⟨c, more, hcons, hpending⟩ := pending_breakLines hruns.head.1
    have hbreaks : ∀ d ∈ c :: more, isBreak d = true := by
      intro d hd
      rw [← hcons, breakLines, List.mem_append] at hd
      rcases hd with hd | hd
      · split_ifs at hd
        · rw [List.mem_singleton.1 hd]
          rfl
        · cases hd
      · exact hruns.head.2 d hd
    obtain ⟨hc, hmore⟩ := List.forall_mem_cons.1 hbreaks
    rw [hcons, List.append_assoc, List.append_assoc, quoted_read_breaks more hpos hc hmore,
      ih hruns.tail (fun w hw => hspace w (List.mem_cons_of_mem _ hw)) (.lines _ _)
        fun r hr hword => absurd hword (hruns.isWord_next rfl r hr)]
    simp only [pending, hpending, List.flatMap_cons, Run.reread]
    simp [← List.append_assoc]

end

end ResourceApi.Yaml
