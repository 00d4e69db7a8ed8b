import ResourceApi.Proofs.Yaml.ScalarText
import ResourceApi.Proofs.Yaml.ScanStep

/-!
# Scalars in a scan

A written text is scanned as one lexeme, `textLexeme`, and the scan notes that a key may have begun
there. A text that goes on over several lines (`ends_lines`) is followed by a new line, which leads
to a lexeme no further in, or to the end of the text (`Continues`).
-/

namespace ResourceApi.Yaml

open Style

namespace Scan

variable {blocks : List Nat} {allowsKey : Bool} {found : List Lexeme} {p : Spot} {c : Char}
  {cs next : List Char} {r : Option (List Lexeme)}

/-! ## The lexeme of a scalar -/

/-- The possible key at a spot. -/
def noted (blocks : List Nat) (allowsKey : Bool) (found : List Lexeme) (p : Spot) :
    Option PossibleKey :=
  if allowsKey then
    some ⟨found.length, p.index, p.line, p.column, blocks.head? == some p.column⟩
  else none

theorem noteKey_eq : noteKey ⟨blocks, none, [], allowsKey, found⟩
      ⟨c, p.index, p.line, p.column⟩ =
    .ok ⟨blocks, noted blocks allowsKey found p, [], allowsKey, found⟩ := by
  cases allowsKey <;> rfl

theorem isMarker_cons {mark : Char} {g : Glyph} {gs : List Glyph} (h : g.char ≠ mark) :
    Glyph.isMarker mark (g :: gs) = false := by
  unfold Glyph.isMarker
  split
  · next heq =>
    obtain ⟨rfl, -⟩ := List.cons.inj heq
    simp [h]
  · rfl

/-- The column beyond which further lines of an unquoted scalar stand. -/
def plainIndent : List Nat → Nat
  | [] => 0
  | b :: _ => b + 1

/-- Where no other lexeme begins, an unquoted scalar does. -/
theorem lexeme_plain (hspace : isSpace c = false) (hindicator : Style.indicators.contains c = false)
    (hmarker : p.column = 0 → beginsWithMarker (c :: cs) = false)
    (hmark : c = '-' ∨ c = '?' ∨ c = ':' → ∃ d ∈ cs.head?, isSpace d = false) :
    Scan.lexeme ⟨blocks, none, [], allowsKey, found⟩ ⟨c, p.index, p.line, p.column⟩
        ((p.next c).glyphs cs) =
      let r := Plain.read false (plainIndent blocks) .word [] (p.glyphs (c :: cs))
      .ok (⟨blocks, noted blocks allowsKey found p, [], r.hasBreak,
        .scalar (Text.ofChars r.text) true :: found⟩, r.rest) := by
  have hstarts : c = '-' ∨ c = '?' ∨ c = ':' →
      Glyph.endOr isSpace ((p.next c).glyphs cs) = false := by
    intro h
    obtain ⟨d, hd, hspace⟩ := hmark h
    rw [Spot.endOr_glyphs, hd]
    exact hspace
  have hdash : ¬ (p.column = 0 ∧
      Glyph.isMarker '-' (⟨c, p.index, p.line, p.column⟩ :: (p.next c).glyphs cs) = true) := by
    rintro ⟨hcolumn, h⟩
    rw [← Spot.glyphs_cons, Spot.isMarker_glyphs (hmarker hcolumn) (.inl rfl)] at h
    cases h
  have hdot : ¬ (p.column = 0 ∧
      Glyph.isMarker '.' (⟨c, p.index, p.line, p.column⟩ :: (p.next c).glyphs cs) = true) := by
    rintro ⟨hcolumn, h⟩
    rw [← Spot.glyphs_cons, Spot.isMarker_glyphs (hmarker hcolumn) (.inr rfl)] at h
    cases h
  have hne : ∀ d ∈ Style.indicators, c ≠ d := by
    rintro d hd rfl
    rw [List.contains_eq_mem, decide_eq_false_iff_not] at hindicator
    exact hindicator hd
  have hpercent : c ≠ '%' := hne '%' (by decide)
  simp only [Style.indicators, List.forall_mem_cons, List.not_mem_nil, false_implies,
    implies_true, and_true] at hne
  have hplain : startsPlain false c ((p.next c).glyphs cs) = true := by
    by_cases h : c = '-' ∨ c = '?' ∨ c = ':'
    · simp [startsPlain, hstarts h, h]
    · simp only [not_or] at h
      simp [startsPlain, hspace, Scan.indicators, h, hne]
  have hlone (d : Char) (hd : d = '-' ∨ d = '?' ∨ d = ':') :
      ¬ (c = d ∧ Glyph.endOr isSpace ((p.next c).glyphs cs) = true) := by
    rintro ⟨rfl, h⟩
    rw [hstarts hd] at h
    cases h
  unfold Scan.lexeme
  simp only [inFlow, List.isEmpty_nil, Bool.not_true, Bool.false_eq_true, false_or]
  rw [if_neg fun h => hpercent h.1, if_neg hdash, if_neg hdot]
  simp only [hne, if_false, false_and, hlone '-' (.inl rfl), hlone '?' (.inr (.inl rfl)),
    hlone ':' (.inr (.inr rfl)), hplain, if_true]
  unfold Scan.plain
  rw [noteKey_eq, Spot.glyphs_cons]
  cases blocks <;> rfl

theorem lexeme_quoted (isDouble : Bool) {t : Text} {rest : List Glyph}
    (hc : c = if isDouble then '"' else '\'')
    (hread : Quoted.read isDouble .inside [] ((p.next c).glyphs cs) = .ok (t, rest)) :
    Scan.lexeme ⟨blocks, none, [], allowsKey, found⟩ ⟨c, p.index, p.line, p.column⟩
        ((p.next c).glyphs cs) =
      .ok (⟨blocks, noted blocks allowsKey found p, [], false, .scalar t false :: found⟩,
        rest) := by
  have hne : c ≠ '-' ∧ c ≠ '.' := by
    rw [hc]
    cases isDouble <;> decide
  have hdash : Glyph.isMarker '-' (⟨c, p.index, p.line, p.column⟩ :: (p.next c).glyphs cs) =
      false := isMarker_cons hne.1
  have hdot : Glyph.isMarker '.' (⟨c, p.index, p.line, p.column⟩ :: (p.next c).glyphs cs) =
      false := isMarker_cons hne.2
  unfold Scan.lexeme
  simp only [hdash, hdot]
  cases isDouble with
  | false =>
    replace hc : c = '\'' := hc
    subst hc
    simp [keyLike, noteKey_eq, hread, named, Except.map, emit, bind, Except.bind, pure, Except.pure]
  | true =>
    replace hc : c = '"' := hc
    subst hc
    simp [keyLike, noteKey_eq, hread, named, Except.map, emit, bind, Except.bind, pure, Except.pure]

theorem lexeme_single {text out tail : List Char} {indent : Nat} (hfits : fitsSingle text = true)
    (hout : Laid true indent (Run.ofText text) out) (hpos : 0 < indent)
    (htail : tail.head? ≠ some '\'') :
    Scan.lexeme ⟨blocks, none, [], allowsKey, found⟩ ⟨'\'', p.index, p.line, p.column⟩
        ((p.next '\'').glyphs (out ++ ['\''] ++ tail)) =
      .ok (⟨blocks, noted blocks allowsKey found p, [], false,
        .scalar (Text.ofChars ((Run.ofText text).flatMap Run.reread)) false :: found⟩,
        ((p.next '\'').after (out ++ ['\''])).glyphs tail) := by
  simp only [fitsSingle, Bool.and_eq_true, Bool.not_eq_true', List.all_eq_true] at hfits
  obtain ⟨hshown, hbreak⟩ := hfits
  have hruns := Run.alternate_ofText hbreak
  have hspace : ∀ w, .word w ∈ Run.ofText text → ∀ c ∈ w, isSpace c = false := by
    intro w hw c hc
    obtain ⟨hblank, hbreak⟩ := (hruns.wellFormed _ hw).2 c hc
    have hmem : c ∈ text := by
      rw [← Run.flatMap_text_ofText text]
      exact List.mem_flatMap.2 ⟨_, hw, hc⟩
    rw [Bool.eq_false_iff]
    exact fun h => hblank (isSpace_of_isShown (hshown c hmem) hbreak h)
  refine lexeme_quoted false rfl ?_
  rw [List.append_assoc]
  exact single_read hpos hout hruns hspace .inside (fun _ _ _ => rfl) htail

/-! ## Unquoted scalars -/

/-- What an unquoted text begins with, wherever its lines are ended. -/
structure PlainHead (c : Char) (cs : List Char) : Prop where
  noSpace : isSpace c = false
  noIndicator : Style.indicators.contains c = false
  mark : c = '-' ∨ c = '?' ∨ c = ':' → ∃ d ∈ cs.head?, isSpace d = false

theorem PlainHead.opens (h : PlainHead c cs) : Opens (c :: next) := by
  refine opens_cons.2 ⟨h.noSpace, ?_⟩
  rintro rfl
  exact absurd h.noIndicator (by decide)

theorem plainHead_of_laid {text out : List Char} {indent : Nat} (hfits : fitsPlain text = true)
    (hne : text ≠ []) (hout : Laid false indent (Run.ofText text) out) :
    ∃ c cs, out = c :: cs ∧ PlainHead c cs := by
  have htext := Run.flatMap_text_ofText text
  have hruns := plainRuns_of_fitsPlain hfits hne
  simp only [fitsPlain, Bool.and_eq_true, Bool.not_eq_true'] at hfits
  obtain ⟨⟨⟨⟨⟨-, hbegins⟩, -⟩, -⟩, -⟩, -⟩ := hfits
  obtain ⟨w, runs, heq, hw, hrest⟩ : ∃ w runs, Run.ofText text = .word w :: runs ∧ PlainWord w ∧
      ∀ d ∈ (runs.flatMap Run.text).head?, d = ' ' := by
    generalize Run.ofText text = all at hruns
    cases hruns with
    | last hw => exact ⟨_, [], rfl, hw, by simp⟩
    | @more w w' n d runs hw hn hd hruns =>
      obtain ⟨k, rfl⟩ : ∃ k, n = k + 1 := ⟨n - 1, (Nat.succ_pred_eq_of_pos hn).symm⟩
      exact ⟨_, _, rfl, hw, by simp [Run.text, List.replicate_succ]⟩
  rw [heq] at htext hout
  obtain ⟨more, rfl⟩ : ∃ more, out = w ++ more := by
    cases hout with
    | word _ _ => exact ⟨_, rfl⟩
    | fold _ _ => exact ⟨_, rfl⟩
  obtain ⟨c, w, rfl⟩ := List.exists_cons_of_ne_nil hw.nonempty
  refine ⟨c, w ++ more, rfl, hw.noSpace c List.mem_cons_self, ?_, fun hc => ?_⟩
  · rw [← htext] at hbegins
    simp only [List.flatMap_cons, Run.text, List.cons_append, beginsWithIndicator,
      Bool.or_eq_false_iff] at hbegins
    exact hbegins.1
  · cases w with
    | cons d w => exact ⟨d, rfl, hw.noSpace d (by simp)⟩
    | nil =>
      -- the mark would stand alone or before a blank
      have hlone : c = '-' ∨ c = '?' →
          beginsWithIndicator (c :: runs.flatMap Run.text) = true := by
        intro h
        cases hmore : runs.flatMap Run.text with
        | nil => rcases h with rfl | rfl <;> rfl
        | cons d more =>
          obtain rfl := hrest d (by rw [hmore]; rfl)
          rcases h with rfl | rfl <;> rfl
      have hnone : beginsWithIndicator (c :: runs.flatMap Run.text) = false := by
        rw [← htext] at hbegins
        exact hbegins
      rw [hnone] at hlone
      have hcolon : c ≠ ':' := by
        rintro rfl
        exact hw.noColon rfl
      rcases hc with hc | hc | hc
      · cases hlone (.inl hc)
      · cases hlone (.inr hc)
      · exact absurd hc hcolon

/-! ## Values -/

/-- What follows on a new line at a column: a lexeme no further in than the innermost block, or the
end of the text; and what the scan gives from there on. -/
structure Continues (blocks : List Nat) (found : List Lexeme) (column : Nat) (next : List Char)
    (r : Option (List Lexeme)) : Prop where
  opens : Opens next
  inside : next ≠ [] → ∃ b ∈ blocks.head?, column ≤ b
  noMarker : beginsWithMarker (List.replicate column ' ' ++ next) = false
  ends : ∀ p : Spot, p.column = column → Ends ⟨blocks, none, [], true, found⟩ (p.glyphs next) r

/-- A new line follows, with what the scan gives from there on. -/
def Follows (blocks : List Nat) (found : List Lexeme) (tail : List Char)
    (r : Option (List Lexeme)) : Prop :=
  ∃ column next, tail = newline column ++ next ∧ Continues blocks found column next r

/-- On the new line a key that may have begun before is forgotten. -/
theorem Continues.ends_newline {key : Option PossibleKey} {column : Nat}
    (h : Continues blocks found column next r)
    (hkey : ∀ k ∈ key, k.isRequired = false ∧ k.line ≤ p.line) :
    Ends ⟨blocks, key, [], true, found⟩ ((p.after (newline column)).glyphs next) r := by
  have hspot : (p.after (newline column)).column = column ∧
      (p.after (newline column)).line = p.line + 1 := by
    rw [Spot.after_newline]
    exact ⟨rfl, rfl⟩
  refine ends_stale h.opens (fun k hk => ?_) (h.ends _ hspot.1)
  obtain ⟨hrequired, hline⟩ := hkey k hk
  exact ⟨hrequired, by omega⟩

theorem noted_eq {b : Nat} (hb : b ∈ blocks.head?) (hcolumn : b < p.column) {line : Nat}
    (hline : p.line ≤ line) :
    ∀ k ∈ noted blocks allowsKey found p, k.isRequired = false ∧ k.line ≤ line := by
  intro k hk
  cases allowsKey with
  | false => cases hk
  | true =>
    cases hk
    have hne : b ≠ p.column := Nat.ne_of_lt hcolumn
    rw [Option.mem_def] at hb
    simpa [hb, hne] using hline

theorem blocks_le {b : Nat} (hb : b ∈ blocks.head?) (hcolumn : b < p.column) :
    ∀ b' ∈ blocks.head?, b' ≤ p.column := by
  intro b' hb'
  rw [Option.mem_unique hb' hb]
  exact Nat.le_of_lt hcolumn

theorem ends_plain {text out tail : List Char} {indent b : Nat} (hfits : fitsPlain text = true)
    (hne : text ≠ []) (hout : Laid false indent (Run.ofText text) out) (hb : b ∈ blocks.head?)
    (hcolumn : b < p.column) (hindent : b < indent)
    (h : Follows blocks (.scalar (Text.ofChars text) true :: found) tail r) :
    Ends ⟨blocks, none, [], allowsKey, found⟩ (p.glyphs (out ++ tail)) r := by
  obtain ⟨k, next, rfl, h⟩ := h
  have hindents : plainIndent blocks = b + 1 := by
    cases blocks with
    | nil => cases hb
    | cons b' bs =>
      cases hb
      rfl
  have hinside : next ≠ [] → k < plainIndent blocks := by
    intro hnext
    obtain ⟨b', hb', hk⟩ := h.inside hnext
    rw [Option.mem_unique hb' hb] at hk
    omega
  have hread : Plain.read false (plainIndent blocks) .word []
      (p.glyphs (out ++ (newline k ++ next))) =
        ⟨text, true, ((p.after out).after (newline k)).glyphs next⟩ := by
    rw [plain_read (plainRuns_of_fitsPlain hfits hne) hout (by omega) (by omega) (by omega)
        fun d _ => .word,
      plain_read_line hinside (fun d hd => (h.opens d hd).1) h.noMarker]
    simp
  obtain ⟨c, more, rfl, hhead⟩ := plainHead_of_laid hfits hne hout
  have hmark : c = '-' ∨ c = '?' ∨ c = ':' →
      ∃ d ∈ (more ++ (newline k ++ next)).head?, isSpace d = false := by
    intro hc
    obtain ⟨d, hd, hspace⟩ := hhead.mark hc
    exact ⟨d, by simp [Option.mem_def.1 hd], hspace⟩
  rw [List.cons_append] at hread ⊢
  have hlexeme : Scan.lexeme ⟨blocks, none, [], allowsKey, found⟩
      ⟨c, p.index, p.line, p.column⟩ ((p.next c).glyphs (more ++ (newline k ++ next))) =
    .ok (⟨blocks, noted blocks allowsKey found p, [], true,
      .scalar (Text.ofChars text) true :: found⟩,
      ((p.after (c :: more)).after (newline k)).glyphs next) := by
    rw [lexeme_plain hhead.noSpace hhead.noIndicator (fun h => by omega) hmark]
    simp only [hread]
  refine ends_lexeme hhead.opens (blocks_le hb hcolumn) rfl hlexeme ?_
    (h.ends_newline (noted_eq hb hcolumn Spot.line_le_after))
  simp only [List.length_append]
  omega

theorem ends_quoted {l : Lexeme} {out tail : List Char} {b : Nat} (hb : b ∈ blocks.head?)
    (hcolumn : b < p.column) (hc : c = '\'' ∨ c = '"')
    (hlexeme : Scan.lexeme ⟨blocks, none, [], allowsKey, found⟩
        ⟨c, p.index, p.line, p.column⟩ ((p.next c).glyphs (out ++ tail)) =
      .ok (⟨blocks, noted blocks allowsKey found p, [], false, l :: found⟩,
        ((p.next c).after out).glyphs tail))
    (h : Follows blocks (l :: found) tail r) :
    Ends ⟨blocks, none, [], allowsKey, found⟩ (p.glyphs (c :: (out ++ tail))) r := by
  obtain ⟨k, next, rfl, h⟩ := h
  have hopens : Opens (c :: (out ++ (newline k ++ next))) := by
    rcases hc with rfl | rfl <;> exact opens_cons.2 (by decide)
  refine ends_lexeme hopens (blocks_le hb hcolumn) rfl hlexeme (by simp) (Scan.ends_newline ?_)
  exact h.ends_newline (noted_eq hb hcolumn (Nat.le_trans Spot.line_le_next Spot.line_le_after))

/-- **A text over several lines is scanned as one lexeme**, when a new line follows. -/
theorem ends_lines {t : Text} {indent column b : Nat} {tail : List Char}
    (hb : b ∈ blocks.head?) (hcolumn : b < p.column) (hindent : b < indent)
    (hmax : indent < lastColumn) (h : Follows blocks (textLexeme t :: found) tail r) :
    Ends ⟨blocks, none, [], allowsKey, found⟩
      (p.glyphs (Style.lines t indent column ++ tail)) r := by
  have hpos : 0 < indent := by omega
  unfold Style.lines
  cases hstyle : ofText t with
  | plain cs =>
    obtain ⟨rfl, hkind, hfits⟩ := ofText_plain hstyle
    rw [textLexeme_plain hstyle] at h
    exact ends_plain hfits (ne_nil_of_kind hkind) (laid_wrap false indent column _) hb hcolumn
      hindent h
  | single cs =>
    have htail : tail.head? ≠ some '\'' := by
      obtain ⟨k, next, rfl, -⟩ := h
      simp [newline]
    rw [textLexeme_single hstyle] at h
    simp only [List.cons_append]
    exact ends_quoted hb hcolumn (.inl rfl) (lexeme_single (ofText_single hstyle).2
      (laid_wrap true indent (column + 1) _) hpos htail) h
  | double ps =>
    obtain rfl := ofText_double hstyle
    rw [textLexeme_double hstyle] at h
    simp only [List.cons_append]
    refine ends_quoted hb hcolumn (.inr rfl) (lexeme_quoted true rfl ?_) h
    rw [List.append_assoc]
    exact (double_read_wrapped hpos hmax).1 .inside fun _ => .inside

end Scan

end ResourceApi.Yaml
