import ResourceApi.Proofs.Yaml.ScalarScan

/-!
# Keys in a scan

A key is found by the colon after it, on its line (`ends_simpleKey`) or on the line after it
(`ends_markedKey`), and the first key of a map opens its block. A key on its line is found only when
its colon is within reach (`isReached`): beyond that the key is forgotten, and the colon is a
defect.
-/

namespace ResourceApi.Yaml

open Style

namespace Scan

variable {blocks : List Nat} {allowsKey : Bool} {found : List Lexeme} {p : Spot} {c : Char}
  {cs : List Char} {r : Option (List Lexeme)} {key : Text} {more : List Char}

/-! ## Keys on their line -/

theorem isBreak_of_isSimpleKey (h : isSimpleKey key = true) :
    ∀ c, .char c ∈ key.points → isBreak c = false := by
  intro c hc
  simp only [isSimpleKey, Bool.and_eq_true, Bool.not_eq_true', List.any_eq_false] at h
  simpa [CodePoint.char?] using h.2 _ hc

theorem isBreak_line (h : isSimpleKey key = true) : ∀ c ∈ Style.line key, isBreak c = false := by
  have hchars {cs : List Char} (hcs : Text.ofChars cs = key) : ∀ c ∈ cs, isBreak c = false := by
    intro c hc
    refine isBreak_of_isSimpleKey h c ?_
    rw [← hcs]
    exact List.mem_map_of_mem hc
  unfold Style.line
  cases hstyle : ofText key with
  | plain cs => exact hchars (ofText_plain hstyle).1
  | single cs =>
    simp only [List.forall_mem_cons, List.forall_mem_append, word, if_true, List.mem_flatMap]
    refine ⟨by decide, ?_, by decide, List.forall_mem_nil _⟩
    rintro c ⟨d, hd, hc⟩
    split_ifs at hc with hquote
    · obtain rfl : c = '\'' := by simpa using hc
      decide
    · rw [List.mem_singleton.1 hc]
      exact hchars (ofText_single hstyle).1 d hd
  | double ps =>
    simp only [List.forall_mem_cons, List.forall_mem_append, List.mem_flatMap]
    refine ⟨by decide, ?_, by decide, List.forall_mem_nil _⟩
    rintro c ⟨q, -, hc⟩
    unfold inQuotes at hc
    split at hc
    · next d hd =>
      rw [List.mem_singleton.1 hc]
      exact (bare_eq_some hd).2.2.2.2
    · exact (escape_visible q c hc).1

theorem laid_of_noBreak {isQuoted : Bool} {indent : Nat} (hbreak : hasBlankAtBreak cs = false)
    (h : ∀ c ∈ cs, isBreak c = false) :
    Laid isQuoted indent (Run.ofText cs) (word isQuoted cs) := by
  have hnone : ∀ r ∈ Run.ofText cs, ∀ bs, r ≠ .breaks bs := by
    rintro r hr bs rfl
    obtain ⟨hne, hbreaks⟩ := (Run.alternate_ofText hbreak).wellFormed _ hr
    obtain ⟨b, bs, rfl⟩ := List.exists_cons_of_ne_nil hne
    have hmem : b ∈ cs := by
      rw [← Run.flatMap_text_ofText cs]
      exact List.mem_flatMap.2 ⟨_, hr, List.mem_cons_self⟩
    have hb := hbreaks b List.mem_cons_self
    rw [h b hmem] at hb
    cases hb
  have hlaid : Laid isQuoted indent (Run.ofText cs)
      (word isQuoted ((Run.ofText cs).flatMap Run.text)) := laid_word hnone
  rwa [Run.flatMap_text_ofText] at hlaid

theorem beginsWithMarker_line (key : Text) (more : List Char) :
    beginsWithMarker (Style.line key ++ ':' :: more) = false := by
  unfold Style.line
  cases hstyle : ofText key with
  | plain cs =>
    obtain ⟨-, -, hfits⟩ := ofText_plain hstyle
    simp only [fitsPlain, Bool.and_eq_true, Bool.not_eq_true'] at hfits
    exact Spot.beginsWithMarker_append hfits.1.1.1.1.1 (by decide)
  | single cs => exact Spot.beginsWithMarker_of_head (by simp)
  | double ps => exact Spot.beginsWithMarker_of_head (by simp)

/-- **A key on its line is scanned as one lexeme**, up to its colon. -/
theorem lexeme_line (allowsKey : Bool) (found : List Lexeme) (h : isSimpleKey key = true)
    (hblocks : ∀ b ∈ blocks.head?, b ≤ p.column) (hmore : ∀ d ∈ more.head?, isSpace d = true) :
    ∃ c cs, Style.line key = c :: cs ∧ Opens (c :: (cs ++ ':' :: more)) ∧
      Scan.lexeme ⟨blocks, none, [], allowsKey, found⟩ ⟨c, p.index, p.line, p.column⟩
          ((p.next c).glyphs (cs ++ ':' :: more)) =
        .ok (⟨blocks, noted blocks allowsKey found p, [], false, textLexeme key :: found⟩,
          (p.after (Style.line key)).glyphs (':' :: more)) := by
  unfold Style.line
  cases hstyle : ofText key with
  | plain cs =>
    obtain ⟨rfl, hkind, hfits⟩ := ofText_plain hstyle
    have hne : cs ≠ [] := ne_nil_of_kind hkind
    have hbreak : ∀ c ∈ cs, isBreak c = false := fun c hc =>
      isBreak_of_isSimpleKey h c (List.mem_map_of_mem hc)
    have hout : Laid false (p.column + 1) (Run.ofText cs) cs :=
      laid_of_noBreak (hasBlankAtBreak_of_noBreak hbreak) hbreak
    have hindent : plainIndent blocks ≤ p.column + 1 := by
      cases blocks with
      | nil => exact Nat.zero_le _
      | cons b bs => exact Nat.succ_le_succ (hblocks b rfl)
    have hread : Plain.read false (plainIndent blocks) .word [] (p.glyphs (cs ++ ':' :: more)) =
        ⟨cs, false, (p.after cs).glyphs (':' :: more)⟩ := by
      rw [plain_read (plainRuns_of_fitsPlain hfits hne) hout (Nat.succ_pos _) hindent hindent
          fun d _ => .word,
        plain_read_colon hmore]
      simp
    have hmarker : beginsWithMarker (cs ++ ':' :: more) = false := by
      have hline := beginsWithMarker_line (Text.ofChars cs) more
      rwa [Style.line, hstyle] at hline
    obtain ⟨c, rest, rfl, hhead⟩ := plainHead_of_laid hfits hne hout
    have hmark : c = '-' ∨ c = '?' ∨ c = ':' →
        ∃ d ∈ (rest ++ ':' :: more).head?, isSpace d = false := by
      intro hc
      obtain ⟨d, hd, hspace⟩ := hhead.mark hc
      exact ⟨d, by simp [Option.mem_def.1 hd], hspace⟩
    rw [List.cons_append] at hread hmarker
    refine ⟨c, rest, rfl, hhead.opens, ?_⟩
    rw [lexeme_plain hhead.noSpace hhead.noIndicator (fun _ => hmarker) hmark]
    simp only [hread, textLexeme_plain hstyle]
  | single cs =>
    obtain ⟨rfl, hfits⟩ := ofText_single hstyle
    have hbreak : ∀ c ∈ cs, isBreak c = false := fun c hc =>
      isBreak_of_isSimpleKey h c (List.mem_map_of_mem hc)
    have hout : Laid true 1 (Run.ofText cs) (word true cs) :=
      laid_of_noBreak (hasBlankAtBreak_of_noBreak hbreak) hbreak
    refine ⟨'\'', word true cs ++ ['\''], rfl, opens_cons.2 (by decide), ?_⟩
    rw [textLexeme_single hstyle]
    exact lexeme_single hfits hout Nat.one_pos (by simp)
  | double ps =>
    obtain rfl := ofText_double hstyle
    refine ⟨'"', key.points.flatMap inQuotes ++ ['"'], rfl, opens_cons.2 (by decide), ?_⟩
    rw [textLexeme_double hstyle]
    refine lexeme_quoted true rfl ?_
    rw [List.append_assoc]
    exact double_read_line .inside .inside

theorem opens_line (h : isSimpleKey key = true) : Opens (Style.line key ++ more) := by
  have hnone : ∀ b ∈ ([] : List Nat).head?, b ≤ (⟨0, 0, 0⟩ : Spot).column := nofun
  obtain ⟨c, cs, hline, hopens, -⟩ :=
    lexeme_line true [] h hnone (nofun : ∀ d ∈ ([] : List Char).head?, isSpace d = true)
  rw [hline, List.cons_append]
  exact opens_cons.2 (opens_cons.1 hopens)

/-! ## Blocks -/

/-- The open blocks inside a list or map at a column. -/
def inBlock (column : Nat) (blocks : List Nat) : List Nat :=
  if blocks.head? = some column then blocks else column :: blocks

/-- The mark of a list or map at a column, if its block is not open yet. -/
def blockMark (l : Lexeme) (column : Nat) (blocks : List Nat) : List Lexeme :=
  if blocks.head? = some column then [] else [l]

/-- Is the colon after the key within reach? -/
def isReached (key : Text) : Bool :=
  !isSimpleKey key || decide ((Style.line key).length ≤ keyReach)

theorem head?_inBlock (column : Nat) (blocks : List Nat) :
    (inBlock column blocks).head? = some column := by
  unfold inBlock
  split_ifs with h
  · exact h
  · rfl

theorem isBeyond_eq {column : Nat} {key : Option PossibleKey}
    (hblocks : ∀ b ∈ blocks.head?, b ≤ column) :
    isBeyond ⟨blocks, key, [], allowsKey, found⟩ column =
      !decide (blocks.head? = some column) := by
  cases blocks with
  | nil => rfl
  | cons b bs =>
    have hb : b ≤ column := hblocks b rfl
    by_cases heq : b = column
    · simp [isBeyond, heq]
    · have hlt : b < column := Nat.lt_of_le_of_ne hb heq
      simp [isBeyond, heq, hlt]

theorem openBlock_eq {l : Lexeme} {column : Nat} {key : Option PossibleKey}
    (hblocks : ∀ b ∈ blocks.head?, b ≤ column) :
    openBlock ⟨blocks, key, [], allowsKey, found⟩ l column =
      ⟨inBlock column blocks, key, [], allowsKey, blockMark l column blocks ++ found⟩ := by
  rw [openBlock, isBeyond_eq hblocks]
  by_cases h : blocks.head? = some column
  · simp [h, inBlock, blockMark]
  · simp [h, inBlock, blockMark]

theorem lexeme_colon {s : Scan} {q : Spot} (hmore : ∃ d ∈ more.head?, isSpace d = true) :
    s.lexeme ⟨':', q.index, q.line, q.column⟩ ((q.next ':').glyphs more) =
      (s.colon ⟨':', q.index, q.line, q.column⟩).map fun s => (s, (q.next ':').glyphs more) := by
  have hdash : Glyph.isMarker '-' (⟨':', q.index, q.line, q.column⟩ :: (q.next ':').glyphs more) =
      false := isMarker_cons (by decide : ':' ≠ '-')
  have hdot : Glyph.isMarker '.' (⟨':', q.index, q.line, q.column⟩ :: (q.next ':').glyphs more) =
      false := isMarker_cons (by decide : ':' ≠ '.')
  have hstarts : Glyph.endOr isSpace ((q.next ':').glyphs more) = true := by
    obtain ⟨d, hd, hspace⟩ := hmore
    rw [Spot.endOr_glyphs, hd]
    exact hspace
  unfold Scan.lexeme
  simp [hdash, hdot, hstarts]

/-- The key that was noted before a scalar is found by the colon. -/
theorem colon_noted {l : Lexeme} {g : Glyph} (hblocks : ∀ b ∈ blocks.head?, b ≤ p.column) :
    colon ⟨blocks, noted blocks true found p, [], false, l :: found⟩ g =
      .ok ⟨inBlock p.column blocks, none, [], false,
        .colon :: l :: .key :: (blockMark .blockMap p.column blocks ++ found)⟩ := by
  have hplace : (l :: found).length - found.length = 1 := by simp
  unfold colon noted
  simp only [if_true, isBeyond_eq hblocks, insertAt, hplace]
  by_cases h : blocks.head? = some p.column
  · simp [h, inBlock, blockMark, inFlow, emit]
  · simp [h, inBlock, blockMark, inFlow, emit]

/-- **A key on its line is found by its colon**, unless the colon is out of reach. -/
theorem ends_simpleKey (h : isSimpleKey key = true) (hblocks : ∀ b ∈ blocks.head?, b ≤ p.column)
    (hmore : ∃ d ∈ more.head?, isSpace d = true)
    (hends : ∀ q : Spot, p.column ≤ q.column → Ends ⟨inBlock p.column blocks, none, [], false,
      .colon :: textLexeme key :: .key :: (blockMark .blockMap p.column blocks ++ found)⟩
      (q.glyphs more) r) :
    Ends ⟨blocks, none, [], true, found⟩ (p.glyphs (Style.line key ++ ':' :: more))
      (if isReached key then r else none) := by
  have hspace : ∀ d ∈ more.head?, isSpace d = true := by
    obtain ⟨d, hd, hspace⟩ := hmore
    intro d' hd'
    rwa [Option.mem_unique hd' hd]
  obtain ⟨c, cs, hline, hopens, hlexeme⟩ :=
    lexeme_line true found h hblocks hspace
  have hbreak := isBreak_line h
  set q := p.after (Style.line key) with hq
  have hcolumn : p.column ≤ q.column := Spot.column_le_after hbreak
  have hplace : q.line = p.line ∧ q.index - p.index = (Style.line key).length := by
    refine ⟨Spot.line_after hbreak, ?_⟩
    rw [hq, Spot.index_after, Nat.add_sub_cancel_left]
  have hblocks' : ∀ b ∈ blocks.head?, b ≤ q.column := fun b hb =>
    Nat.le_trans (hblocks b hb) hcolumn
  rw [hline, List.cons_append]
  refine ends_lexeme hopens hblocks rfl hlexeme (by simp) ?_
  have hrefresh : refresh ⟨':', q.index, q.line, q.column⟩ (noted blocks true found p) =
      if (Style.line key).length ≤ keyReach then .ok (noted blocks true found p)
      else if blocks.head? == some p.column then .error .malformed else .ok none := by
    simp only [noted, refresh, if_true, hplace, ne_eq, not_true_eq_false, false_or]
    split_ifs with hlong hshort <;> first | rfl | omega
  by_cases hreach : (Style.line key).length ≤ keyReach
  · rw [if_pos (by simp [isReached, hreach])]
    rw [if_pos hreach] at hrefresh
    refine ends_lexeme (opens_cons.2 (by decide)) hblocks' hrefresh ?_ (Nat.le_refl _)
      (hends _ (Nat.le_trans hcolumn (Spot.column_le_next (c := ':') rfl)))
    rw [lexeme_colon hmore, colon_noted hblocks]
    rfl
  · rw [if_neg (by simp [isReached, hreach, h])]
    rw [if_neg hreach] at hrefresh
    refine ends_defect (d := .malformed) (opens_cons.2 (by decide)) ?_
    rw [next_eq hblocks', hrefresh]
    split_ifs
    · rfl
    · simp only [Except.bind]
      rw [lexeme_colon hmore]
      rfl

theorem lexeme_questionMark (hblocks : ∀ b ∈ blocks.head?, b ≤ p.column) :
    Scan.lexeme ⟨blocks, none, [], true, found⟩ ⟨'?', p.index, p.line, p.column⟩
        ((p.next '?').glyphs (' ' :: cs)) =
      .ok (⟨inBlock p.column blocks, none, [], true,
        .key :: (blockMark .blockMap p.column blocks ++ found)⟩,
        (p.next '?').glyphs (' ' :: cs)) := by
  have hdash : Glyph.isMarker '-'
      (⟨'?', p.index, p.line, p.column⟩ :: (p.next '?').glyphs (' ' :: cs)) = false :=
    isMarker_cons (by decide : '?' ≠ '-')
  have hdot : Glyph.isMarker '.'
      (⟨'?', p.index, p.line, p.column⟩ :: (p.next '?').glyphs (' ' :: cs)) = false :=
    isMarker_cons (by decide : '?' ≠ '.')
  have hstarts : Glyph.endOr isSpace ((p.next '?').glyphs (' ' :: cs)) = true := by
    rw [Spot.endOr_glyphs]
    rfl
  unfold Scan.lexeme
  simp [hdash, hdot, hstarts, questionMark, openBlock_eq hblocks, inFlow, dropKey, emit,
    Except.map, bind, Except.bind, pure, Except.pure]

/-- **A key after a question mark is found by the colon on the line after it.** -/
theorem ends_markedKey {column : Nat} (hcolumn : p.column = column)
    (hblocks : ∀ b ∈ blocks.head?, b ≤ column) (hmax : column + 2 < lastColumn)
    (hends : ∀ q : Spot, q.column = column + 2 → Ends ⟨inBlock column blocks, none, [], true,
      .colon :: textLexeme key :: .key :: (blockMark .blockMap column blocks ++ found)⟩
      (q.glyphs more) r) :
    Ends ⟨blocks, none, [], true, found⟩
      (p.glyphs ('?' :: ' ' :: (Style.lines key (column + 2) (column + 2) ++
        (newline column ++ ':' :: ' ' :: more)))) r := by
  subst hcolumn
  have hhead : p.column ∈ (inBlock p.column blocks).head? := head?_inBlock _ _
  have hinside : ∀ b ∈ (inBlock p.column blocks).head?, b ≤ p.column := by
    intro b hb
    rw [Option.mem_unique hb hhead]
  refine ends_lexeme (opens_cons.2 (by decide)) hblocks rfl (lexeme_questionMark hblocks)
    (Nat.le_refl _) (ends_blank ?_)
  have hspot : ((p.next '?').next ' ').column = p.column + 2 := rfl
  refine ends_lines hhead (by omega) (by omega) hmax ⟨p.column, _, rfl, ?_⟩
  refine ⟨opens_cons.2 (by decide), fun _ => ⟨_, hhead, Nat.le_refl _⟩, ?_, fun q hq => ?_⟩
  · exact beginsWithMarker_indent _ (Spot.beginsWithMarker_of_head (by simp))
  · have hblocks' : ∀ b ∈ (inBlock p.column blocks).head?, b ≤ q.column := by rwa [hq]
    have hsame : inBlock q.column (inBlock p.column blocks) = inBlock p.column blocks ∧
        blockMark .blockMap q.column (inBlock p.column blocks) = [] := by
      rw [hq, inBlock, blockMark, head?_inBlock]
      simp
    have hlexeme : Scan.lexeme ⟨inBlock p.column blocks, none, [], true,
          textLexeme key :: .key :: (blockMark .blockMap p.column blocks ++ found)⟩
          ⟨':', q.index, q.line, q.column⟩ ((q.next ':').glyphs (' ' :: more)) =
        .ok (⟨inBlock p.column blocks, none, [], true,
          .colon :: textLexeme key :: .key :: (blockMark .blockMap p.column blocks ++ found)⟩,
          (q.next ':').glyphs (' ' :: more)) := by
      rw [lexeme_colon ⟨' ', rfl, rfl⟩]
      simp [colon, inFlow, openBlock_eq hblocks', hsame, emit, pure, Except.pure,
        Except.map]
    refine ends_lexeme (opens_cons.2 (by decide)) hblocks' rfl hlexeme (Nat.le_refl _)
      (ends_blank (hends _ ?_))
    show q.column + 1 + 1 = p.column + 2
    omega

end Scan

end ResourceApi.Yaml
