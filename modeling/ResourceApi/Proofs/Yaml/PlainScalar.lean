import ResourceApi.Proofs.Yaml.Layout
import ResourceApi.Proofs.Yaml.Spot
import ResourceApi.Yaml.Lexeme.Plain

/-!
# Unquoted scalars read back

A text that fits no quotes is words with blanks between them (`PlainRuns`): no word ends in a colon,
and none after a blank begins with a `#`. However its lines are ended, it is read back
(`plain_read`): a line end between words is read as the one blank that stood there.

The scalar ends at the colon of a key (`plain_read_colon`) or at the end of its lines
(`plain_read_line`), where the next line stands further out, or there is none.
-/

namespace ResourceApi.Yaml

open Style

/-! ## Texts that fit no quotes -/

/-- Characters that do not separate, the last of them no colon. -/
structure PlainWord (w : List Char) : Prop where
  nonempty : w ≠ []
  noSpace : ∀ c ∈ w, isSpace c = false
  noColon : w.getLast? ≠ some ':'

/-- Words with blanks between them. -/
inductive PlainRuns : List Run → Prop
  | last {w : List Char} : PlainWord w → PlainRuns [.word w]
  | more {w w' : List Char} {n : Nat} {d : Char} {runs : List Run} : PlainWord w → 0 < n → d ≠ '#' →
      PlainRuns (.word (d :: w') :: runs) →
      PlainRuns (.word w :: .blanks n :: .word (d :: w') :: runs)

section

variable {cs rest : List Char}

theorem holdsIndicator_append (front : List Char) (h : holdsIndicator (front ++ rest) = false)
    (hrest : rest ≠ []) : holdsIndicator rest = false := by
  induction front with
  | nil => exact h
  | cons c front ih =>
    obtain ⟨d, more, hcons⟩ : ∃ d more, front ++ rest = d :: more :=
      List.exists_cons_of_ne_nil (by simp [hrest])
    rw [List.cons_append, hcons, holdsIndicator, Bool.or_eq_false_iff, ← hcons] at h
    exact ih h.2

theorem holdsIndicator_colon {front : List Char}
    (h : holdsIndicator (front ++ ':' :: rest) = false) :
    ∃ d more, rest = d :: more ∧ isSpace d = false := by
  have hcolon : holdsIndicator (':' :: rest) = false := holdsIndicator_append _ h (by simp)
  cases rest with
  | nil => simp [holdsIndicator] at hcolon
  | cons d more =>
    simp only [holdsIndicator, Bool.or_eq_false_iff, decide_true, Bool.true_and] at hcolon
    exact ⟨d, more, rfl, hcolon.1.1⟩

theorem holdsIndicator_hash {front : List Char} :
    holdsIndicator (front ++ ' ' :: '#' :: rest) = true := by
  by_contra hcontra
  have hblank := holdsIndicator_append _ (Bool.eq_false_iff.2 hcontra) (by simp)
  simp [holdsIndicator, isSpace] at hblank

/-- A word of the text, given what stands after it: nothing, or a blank. -/
theorem plainWord_of_holdsIndicator {w : List Char} (rest : List Char)
    (hw : (Run.word w).WellFormed) (hspace : ∀ c ∈ w, isSpace c = true → c = ' ')
    (h : holdsIndicator (w ++ rest) = false)
    (hrest : ∀ d ∈ rest.head?, isSpace d = true) : PlainWord w where
  nonempty := hw.1
  noSpace c hc := by
    rw [Bool.eq_false_iff]
    exact fun hcontra => (hw.2 c hc).1 (hspace c hc hcontra)
  noColon hlast := by
    obtain ⟨front, rfl⟩ := List.getLast?_eq_some_iff.1 hlast
    rw [List.append_assoc, List.singleton_append] at h
    obtain ⟨d, more, rfl, hd⟩ := holdsIndicator_colon h
    have hspaces : isSpace d = true := hrest d rfl
    rw [hd] at hspaces
    cases hspaces

theorem plainRuns_of_alternate {w : List Char} {runs : List Run}
    (h : Run.Alternate (.word w :: runs))
    (hspace : ∀ c ∈ (Run.word w :: runs).flatMap Run.text, isSpace c = true → c = ' ')
    (hlast : ((Run.word w :: runs).flatMap Run.text).getLast? ≠ some ' ')
    (hind : holdsIndicator ((Run.word w :: runs).flatMap Run.text) = false) :
    PlainRuns (.word w :: runs) := by
  have hword : ∀ c ∈ w, isSpace c = true → c = ' ' := fun c hc => hspace c (by simp [Run.text, hc])
  cases runs with
  | nil =>
    refine .last (plainWord_of_holdsIndicator [] h.head hword ?_ (by simp))
    simpa [Run.text] using hind
  | cons run runs =>
    cases run with
    | word _ => exact absurd rfl (Run.alternate_cons.1 h).2.1
    | breaks bs =>
      obtain ⟨hne, hbreaks⟩ := h.tail.head
      obtain ⟨b, bs, rfl⟩ := List.exists_cons_of_ne_nil hne
      have hb : isBreak b = true := hbreaks b List.mem_cons_self
      obtain rfl : b = ' ' := hspace b (by simp [Run.text]) (by simp [isSpace, hb])
      cases hb
    | blanks n =>
      have hn : 0 < n := h.tail.head
      obtain ⟨k, rfl⟩ : ∃ k, n = k + 1 := ⟨n - 1, (Nat.succ_pred_eq_of_pos hn).symm⟩
      -- blanks do not end the text, so a word follows
      obtain ⟨w', runs, rfl⟩ : ∃ w' rest, runs = .word w' :: rest := by
        cases runs with
        | nil =>
          exact absurd (by simp [Run.text, List.replicate_succ', ← List.append_assoc]) hlast
        | cons run runs =>
          have halternate := (Run.alternate_cons.1 h.tail).2.1
          cases run with
          | word w' => exact ⟨w', runs, rfl⟩
          | blanks _ => exact absurd rfl halternate
          | breaks _ => exact absurd rfl halternate
      obtain ⟨d, w', rfl⟩ := List.exists_cons_of_ne_nil h.tail.tail.head.1
      have htext : (Run.word w :: .blanks (k + 1) :: .word (d :: w') :: runs).flatMap Run.text =
          (w ++ List.replicate k ' ') ++
            ' ' :: ((Run.word (d :: w') :: runs).flatMap Run.text) := by
        simp [Run.text, List.replicate_succ']
      rw [htext] at hspace hlast hind
      refine .more (plainWord_of_holdsIndicator (List.replicate (k + 1) ' ' ++
        (Run.word (d :: w') :: runs).flatMap Run.text) h.head hword ?_ ?_) hn ?_ ?_
      · simpa [List.replicate_succ', List.append_assoc] using hind
      · rintro _ ⟨⟩
        rfl
      · rintro rfl
        rw [List.flatMap_cons, Run.text, List.cons_append, holdsIndicator_hash] at hind
        cases hind
      · have hne : (Run.word (d :: w') :: runs).flatMap Run.text ≠ [] := by simp [Run.text]
        refine plainRuns_of_alternate h.tail.tail
          (fun c hc => hspace c (List.mem_append_right _ (List.mem_cons_of_mem _ hc))) ?_ ?_
        · obtain ⟨e, more, hcons⟩ := List.exists_cons_of_ne_nil hne
          rw [hcons] at hlast ⊢
          simpa using hlast
        · have hsplit := holdsIndicator_append _ hind (by simp)
          exact holdsIndicator_append [' '] hsplit hne
termination_by runs.length

theorem isSpace_of_isShown {c : Char} (hshown : isShown c = true) (hbreak : isBreak c = false) :
    isSpace c = true → c = ' ' := by
  intro hspace
  simp only [isSpace, hbreak, Bool.or_false, Bool.or_eq_true, decide_eq_true_eq] at hspace
  rcases hspace with rfl | rfl
  · rfl
  · cases hshown

theorem hasBlankAtBreak_of_noBreak (h : ∀ c ∈ cs, isBreak c = false) :
    hasBlankAtBreak cs = false := by
  induction cs with
  | nil => rfl
  | cons c cs ih =>
    obtain ⟨hc, hcs⟩ := List.forall_mem_cons.1 h
    cases cs with
    | nil => rfl
    | cons d cs => simp [hasBlankAtBreak, hc, hcs d List.mem_cons_self, ih hcs]

/-- **A text that fits no quotes is words with blanks between them.** -/
theorem plainRuns_of_fitsPlain (h : fitsPlain cs = true) (hne : cs ≠ []) :
    PlainRuns (Run.ofText cs) := by
  simp only [fitsPlain, Bool.and_eq_true, Bool.not_eq_true', bne_iff_ne, List.all_eq_true] at h
  obtain ⟨⟨⟨⟨⟨-, -⟩, hind⟩, hhead⟩, hlast⟩, hchars⟩ := h
  have halternate : Run.Alternate (Run.ofText cs) :=
    Run.alternate_ofText (hasBlankAtBreak_of_noBreak fun c hc => (hchars c hc).2)
  have hspace : ∀ c ∈ cs, isSpace c = true → c = ' ' := fun c hc =>
    isSpace_of_isShown (hchars c hc).1 (hchars c hc).2
  cases hruns : Run.ofText cs with
  | nil =>
    rw [← Run.flatMap_text_ofText cs, hruns] at hne
    exact absurd rfl hne
  | cons r runs =>
    have htext : (r :: runs).flatMap Run.text = cs := by rw [← hruns, Run.flatMap_text_ofText]
    rw [hruns] at halternate
    obtain ⟨c, rest, rfl, hc⟩ := Run.head_mem_text hruns halternate.head
    cases r with
    | word w =>
      rw [← htext] at hspace hlast hind
      exact plainRuns_of_alternate halternate hspace hlast hind
    | blanks n =>
      have hblank : c = ' ' := List.eq_of_mem_replicate hc
      exact absurd (by rw [hblank]; rfl) hhead
    | breaks bs =>
      have hbreak : isBreak c = true := halternate.head.2 c hc
      rw [(hchars c List.mem_cons_self).2] at hbreak
      cases hbreak

end

/-! ## Reading -/

open Yaml.Plain (endsWord)

section

variable {column : Nat} {seen tail : List Char} {s : Spot}

/-- No character of a word ends it: a colon is followed by another character of the word. -/
theorem endsWord_eq_false {c : Char} {w : List Char} (hspace : ∀ d ∈ c :: w, isSpace d = false)
    (hcolon : (c :: w).getLast? ≠ some ':') : endsWord false c (s.glyphs (w ++ tail)) = false := by
  obtain ⟨hc, hw⟩ := List.forall_mem_cons.1 hspace
  simp only [endsWord, hc, Bool.false_and, Bool.or_false, Bool.false_or, Bool.and_eq_false_imp,
    decide_eq_true_eq, Spot.endOr_glyphs]
  rintro rfl
  cases w with
  | nil => exact absurd rfl hcolon
  | cons d w => simpa using hw d List.mem_cons_self

theorem plain_read_on {w : List Char} (hspace : ∀ c ∈ w, isSpace c = false)
    (hcolon : w.getLast? ≠ some ':') :
    Plain.read false column .word seen (s.glyphs (w ++ tail)) =
      Plain.read false column .word (w.reverse ++ seen) ((s.after w).glyphs tail) := by
  induction w generalizing s seen with
  | nil => rfl
  | cons c w ih =>
    have hlast : w.getLast? ≠ some ':' := by
      cases w with
      | nil => nofun
      | cons d w => simpa using hcolon
    rw [List.cons_append, Spot.glyphs_cons, Plain.read]
    simp only [endsWord_eq_false hspace hcolon, Bool.not_false, if_true]
    rw [ih (List.forall_mem_cons.1 hspace).2 hlast, Spot.after_cons, List.reverse_cons,
      List.append_assoc, List.singleton_append]

/-- Where the reading may stand before a word that begins with a character, and the text between
the words before and this one: nothing is read yet, or there were blanks, or a line end. -/
inductive Ready (column : Nat) (s : Spot) (d : Char) : Plain.Mode → List Char → Prop
  | word : Ready column s d .word []
  | blanks (n : Nat) : column ≤ s.column → d ≠ '#' →
      Ready column s d (.blanks n) (List.replicate n ' ')
  | folded : column ≤ s.column → d ≠ '#' → Ready column s d (.lines '\n' []) [' ']

theorem plain_read_word {d : Char} {w between : List Char} {mode : Plain.Mode}
    (hw : PlainWord (d :: w)) (h : Ready column s d mode between) :
    Plain.read false column mode seen (s.glyphs (d :: w ++ tail)) =
      Plain.read false column .word ((d :: w).reverse ++ (between ++ seen))
        ((s.after (d :: w)).glyphs tail) := by
  obtain ⟨hd, hspace⟩ := List.forall_mem_cons.1 hw.noSpace
  have hends : endsWord false d ((s.next d).glyphs (w ++ tail)) = false :=
    endsWord_eq_false hw.noSpace hw.noColon
  have hblank : d ≠ ' ' := by
    rintro rfl
    cases hd
  have hbreak : isBreak d = false := by
    simp only [isSpace, Bool.or_eq_false_iff] at hd
    exact hd.2
  have hlast : w.getLast? ≠ some ':' := by
    have hcolon := hw.noColon
    cases w with
    | nil => nofun
    | cons e w => simpa using hcolon
  have hon (between : List Char) : Plain.read false column .word (d :: (between ++ seen))
      ((s.next d).glyphs (w ++ tail)) = Plain.read false column .word
        ((d :: w).reverse ++ (between ++ seen)) ((s.after (d :: w)).glyphs tail) := by
    rw [plain_read_on hspace hlast, List.reverse_cons, List.append_assoc, List.singleton_append,
      Spot.after_cons]
  cases h with
  | word => exact plain_read_on hw.noSpace hw.noColon
  | blanks n hcolumn hhash =>
    rw [List.cons_append, Spot.glyphs_cons, Plain.read]
    simp [hends, hblank, hbreak, hhash, hcolumn, hon]
  | folded hcolumn hhash =>
    rw [List.cons_append, Spot.glyphs_cons, Plain.read]
    simpa [hends, hblank, hbreak, hhash, hcolumn, folded] using hon [' ']

theorem plain_read_blanks {n : Nat} (hn : 0 < n) :
    Plain.read false column .word seen (s.glyphs (List.replicate n ' ' ++ tail)) =
      Plain.read false column (.blanks n) seen
        ((s.after (List.replicate n ' ')).glyphs tail) := by
  have hmore (k m : Nat) (s : Spot) :
      Plain.read false column (.blanks k) seen (s.glyphs (List.replicate m ' ' ++ tail)) =
        Plain.read false column (.blanks (k + m)) seen
          ((s.after (List.replicate m ' ')).glyphs tail) := by
    induction m generalizing k s with
    | zero => rfl
    | succ m ih =>
      rw [List.replicate_succ, List.cons_append, Spot.glyphs_cons, Plain.read]
      simp only [if_true]
      rw [ih, Spot.after_cons, Nat.add_right_comm, Nat.add_assoc]
  obtain ⟨k, rfl⟩ : ∃ k, n = k + 1 := ⟨n - 1, (Nat.succ_pred_eq_of_pos hn).symm⟩
  rw [List.replicate_succ, List.cons_append, Spot.glyphs_cons, Plain.read]
  simp only [endsWord, isSpace, decide_true, Bool.true_or, Bool.not_true, Bool.false_eq_true,
    if_false, if_true]
  rw [hmore, Spot.after_cons, Nat.add_comm]

theorem plain_read_indent (n : Nat) {first : Char} {more : List Char} :
    Plain.read false column (.lines first more) seen (s.glyphs (List.replicate n ' ' ++ tail)) =
      Plain.read false column (.lines first more) seen
        ((s.after (List.replicate n ' ')).glyphs tail) := by
  induction n generalizing s with
  | zero => rfl
  | succ n ih =>
    rw [List.replicate_succ, List.cons_append, Spot.glyphs_cons, Plain.read]
    simp only [if_true]
    rw [ih, Spot.after_cons]

theorem beginsWithMarker_blanks {n : Nat} (hn : 0 < n) {cs : List Char} :
    beginsWithMarker (List.replicate n ' ' ++ cs) = false := by
  obtain ⟨k, rfl⟩ : ∃ k, n = k + 1 := ⟨n - 1, (Nat.succ_pred_eq_of_pos hn).symm⟩
  refine Spot.beginsWithMarker_of_head fun c hc => ?_
  obtain rfl : ' ' = c := by simpa [List.replicate_succ] using hc
  decide

theorem beginsWithMarker_indent (n : Nat) {cs : List Char} (h : beginsWithMarker cs = false) :
    beginsWithMarker (List.replicate n ' ' ++ cs) = false := by
  cases n with
  | zero => exact h
  | succ n => exact beginsWithMarker_blanks (Nat.succ_pos n)

theorem plain_read_newline {n : Nat} (h : beginsWithMarker (List.replicate n ' ' ++ tail) = false) :
    Plain.read false column .word seen (s.glyphs (newline n ++ tail)) =
      Plain.read false column (.lines '\n' []) seen
        ((s.after (newline n)).glyphs tail) := by
  rw [newline, List.cons_append, Spot.glyphs_cons, Plain.read]
  simp only [endsWord, isSpace, isBreak, Spot.isAnyMarker_glyphs h, breakText]
  simp [plain_read_indent]

/-- **Words with blanks between them are read back**, wherever lines are ended. -/
theorem plain_read {runs : List Run} (h : PlainRuns runs) {indent : Nat} {out : List Char}
    (hout : Laid false indent runs out) (hpos : 0 < indent) (hindent : column ≤ indent)
    (hcolumn : column ≤ s.column + 1) {mode : Plain.Mode} {between : List Char}
    (hready : ∀ d ∈ out.head?, Ready column s d mode between) :
    Plain.read false column mode seen (s.glyphs (out ++ tail)) =
      Plain.read false column .word ((runs.flatMap Run.text).reverse ++ (between ++ seen))
        ((s.after out).glyphs tail) := by
  induction h generalizing out s seen mode between with
  | @last w hw =>
    obtain ⟨d, w, rfl⟩ := List.exists_cons_of_ne_nil hw.nonempty
    cases hout with
    | word _ hnil =>
      cases hnil
      simp only [word, Bool.false_eq_true, if_false, List.append_nil] at hready ⊢
      simpa [Run.text] using plain_read_word hw (hready d rfl)
  | @more w w' n d' runs hw hn hhash hruns ih =>
    obtain ⟨d, w, rfl⟩ := List.exists_cons_of_ne_nil hw.nonempty
    have hafter : s.column ≤ (s.after (d :: w)).column := by
      refine Spot.column_le_after fun c hc => ?_
      have hspace := hw.noSpace c hc
      simp only [isSpace, Bool.or_eq_false_iff] at hspace
      exact hspace.2
    have hhead {out : List Char} (h : Laid false indent (.word (d' :: w') :: runs) out) :
        ∀ e ∈ out.head?, e = d' := by
      cases h <;> simp [word]
    have hword : word false (d :: w) = d :: w := rfl
    cases hout with
    | word _ hout =>
      cases hout with
      | blanks _ hout =>
        have hcolumn' : column ≤ ((s.after (d :: w)).after (List.replicate n ' ')).column := by
          rw [Spot.after_blanks]
          show column ≤ (s.after (d :: w)).column + n
          omega
        rw [hword, List.append_assoc, plain_read_word hw (hready d rfl), List.append_assoc,
          plain_read_blanks hn, ih hout (Nat.le_succ_of_le hcolumn')
            (fun e he => .blanks n hcolumn' (hhead hout e he ▸ hhash)),
          Spot.after_append, Spot.after_append]
        simp [Run.text]
    | @fold _ _ out _ hout =>
      have hblank : beginsWithMarker (List.replicate indent ' ' ++ (out ++ tail)) = false :=
        beginsWithMarker_blanks hpos
      have hcolumn' : column ≤ ((s.after (d :: w)).after (newline indent)).column := by
        rw [Spot.after_newline]
        exact hindent
      rw [hword, List.append_assoc, plain_read_word hw (hready d rfl), List.append_assoc,
        plain_read_newline hblank, ih hout (Nat.le_succ_of_le hcolumn')
          (fun e he => .folded hcolumn' (hhead hout e he ▸ hhash)),
        Spot.after_append, Spot.after_append]
      simp [Run.text]

/-! ## The end -/

theorem plain_read_colon (htail : ∀ d ∈ tail.head?, isSpace d = true) :
    Plain.read false column .word seen (s.glyphs (':' :: tail)) =
      ⟨seen.reverse, false, s.glyphs (':' :: tail)⟩ := by
  have hends : endsWord false ':' ((s.next ':').glyphs tail) = true := by
    cases tail with
    | nil => rfl
    | cons d tail => simp [endsWord, htail d rfl]
  rw [Spot.glyphs_cons, Plain.read]
  simp [hends, isBreak]

/-- A scalar ends with its line where the next line stands further out, or where there is none. -/
theorem plain_read_line {n : Nat} (hn : tail ≠ [] → n < column)
    (htail : ∀ d ∈ tail.head?, isSpace d = false)
    (hmarker : beginsWithMarker (List.replicate n ' ' ++ tail) = false) :
    Plain.read false column .word seen (s.glyphs (newline n ++ tail)) =
      ⟨seen.reverse, true, (s.after (newline n)).glyphs tail⟩ := by
  rw [plain_read_newline hmarker]
  cases tail with
  | nil => rfl
  | cons d tail =>
    have hd : isSpace d = false := htail d rfl
    have hblank : d ≠ ' ' := by
      rintro rfl
      cases hd
    have hbreak : isBreak d = false := by
      simp only [isSpace, Bool.or_eq_false_iff] at hd
      exact hd.2
    have hcolumn : ¬ column ≤ n := Nat.not_le_of_lt (hn (by simp))
    rw [Spot.glyphs_cons, Plain.read, Spot.after_newline]
    simp [hblank, hbreak, hcolumn]

end

end ResourceApi.Yaml
