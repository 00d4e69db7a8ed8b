import ResourceApi.Proofs.Words
import ResourceApi.Proofs.Yaml.DoubleQuoted
import ResourceApi.Yaml.Lexeme.Scan
import ResourceApi.Yaml.Printer

/-!
# What a written text is read back as

A text is written without quotes, in single quotes or in double quotes, and the style says what is
known of it (`ofText_plain`, `ofText_single`, `ofText_double`). In single quotes a next line mark is
not read back as it is; everything else is.

**What is kept** (`rereadText_eq_self_iff`). A text is read back as itself unless it stands in
single quotes and holds a next line mark.
-/

namespace ResourceApi.Yaml

open Style

/-- Is the text written without quotes? -/
def isUnquoted (t : Text) : Bool :=
  match ofText t with
  | .plain _ => true
  | _ => false

/-- What a written text is read back as. -/
def rereadText (t : Text) : Text :=
  match ofText t with
  | .single cs => Text.ofChars ((Run.ofText cs).flatMap Run.reread)
  | _ => t

/-- Is the text read back as it is? It is not when a next line mark stands in single quotes. -/
def keepsText (t : Text) : Bool :=
  match ofText t with
  | .single cs => !cs.contains '\x85'
  | _ => true

/-- The lexeme that a written text is read as. -/
def textLexeme (t : Text) : Lexeme := .scalar (rereadText t) (isUnquoted t)

/-! ## Styles -/

section

variable {t : Text} {cs : List Char} {ps : List CodePoint}

theorem ofText_plain (h : ofText t = .plain cs) :
    Text.ofChars cs = t ∧ Kind.ofChars cs = .text ∧ fitsPlain cs = true := by
  unfold ofText at h
  split at h
  · next cs' hcs =>
    unfold Style.ofChars at h
    split_ifs at h with hplain
    cases h
    exact ⟨Text.chars?_eq_some_iff.1 hcs, hplain⟩
  · cases h

theorem ofText_single (h : ofText t = .single cs) :
    Text.ofChars cs = t ∧ fitsSingle cs = true := by
  unfold ofText at h
  split at h
  · next cs' hcs =>
    unfold Style.ofChars at h
    split_ifs at h with _ hsingle
    cases h
    exact ⟨Text.chars?_eq_some_iff.1 hcs, hsingle⟩
  · cases h

theorem ofText_double (h : ofText t = .double ps) : ps = t.points := by
  unfold ofText at h
  split at h
  · next cs' hcs =>
    unfold Style.ofChars at h
    split_ifs at h
    cases h
    rw [← Text.chars?_eq_some_iff.1 hcs]
    rfl
  · cases h
    rfl

theorem textLexeme_plain (h : ofText t = .plain cs) : textLexeme t = .scalar t true := by
  simp [textLexeme, rereadText, isUnquoted, h]

theorem textLexeme_single (h : ofText t = .single cs) :
    textLexeme t = .scalar (Text.ofChars ((Run.ofText cs).flatMap Run.reread)) false := by
  simp [textLexeme, rereadText, isUnquoted, h]

theorem textLexeme_double (h : ofText t = .double ps) : textLexeme t = .scalar t false := by
  simp [textLexeme, rereadText, isUnquoted, h]

theorem ne_nil_of_kind (h : Kind.ofChars cs = .text) : cs ≠ [] := by
  rintro rfl
  exact absurd h (by decide)

/-! ## What is kept -/

theorem breakText_ne (c : Char) : breakText c ≠ '\x85' := by
  unfold breakText
  split_ifs with h
  · decide
  · exact h

theorem breakText_eq_self {c : Char} (h : c ≠ '\x85') : breakText c = c := if_neg h

/-- No next line mark is read back from single quotes. -/
theorem notMem_reread {runs : List Run} (h : ∀ r ∈ runs, r.WellFormed) :
    '\x85' ∉ runs.flatMap Run.reread := by
  intro hmem
  obtain ⟨r, hr, hmem⟩ := List.mem_flatMap.1 hmem
  have hformed := h r hr
  cases r with
  | word w =>
    have hbreak := (hformed.2 _ hmem).2
    cases hbreak
  | blanks n =>
    have hblank : '\x85' = ' ' := List.eq_of_mem_replicate hmem
    cases hblank
  | breaks bs =>
    have hnone (bs : List Char) : '\x85' ∉ bs.map breakText := by
      intro hmem
      obtain ⟨c, -, hc⟩ := List.mem_map.1 hmem
      exact breakText_ne c hc
    replace hmem : '\x85' ∈ rereadBreaks bs := hmem
    unfold rereadBreaks at hmem
    split at hmem
    · cases hmem
    · split_ifs at hmem with hmark hempty
      · cases hmem with
        | tail _ hmem => cases hmem
      · exact hnone _ hmem
      · rcases List.mem_cons.1 hmem with heq | hmem
        · exact hmark heq.symm
        · exact hnone _ hmem

/-- Without next line marks everything is read back from single quotes. -/
theorem reread_eq_text {r : Run} (h : '\x85' ∉ r.text) : r.reread = r.text := by
  cases r with
  | word w => rfl
  | blanks n => rfl
  | breaks bs =>
    show rereadBreaks bs = bs
    cases bs with
    | nil => rfl
    | cons c bs =>
      have hne : ∀ d ∈ c :: bs, d ≠ '\x85' := fun d hd heq => h (heq ▸ hd)
      obtain ⟨hc, hbs⟩ := List.forall_mem_cons.1 hne
      have hmap : bs.map breakText = bs := by
        rw [List.map_congr_left fun d hd => breakText_eq_self (hbs d hd), List.map_id']
      simp [rereadBreaks, hc, hmap]

/-- **A text is read back as itself** unless a next line mark stands in single quotes. -/
theorem rereadText_eq_self_iff : rereadText t = t ↔ keepsText t = true := by
  unfold rereadText keepsText
  cases hstyle : ofText t with
  | plain cs => simp
  | double ps => simp
  | single cs =>
    obtain ⟨rfl, hfits⟩ := ofText_single hstyle
    have hruns : Run.Alternate (Run.ofText cs) := by
      simp only [fitsSingle, Bool.and_eq_true, Bool.not_eq_true'] at hfits
      exact Run.alternate_ofText hfits.2
    simp only [Bool.not_eq_true', List.contains_eq_mem, decide_eq_false_iff_not]
    constructor
    · intro h hmem
      have hcs : (Run.ofText cs).flatMap Run.reread = cs := by
        have hpoints := congrArg Text.chars? h
        rw [Text.chars?_ofChars, Text.chars?_ofChars] at hpoints
        exact Option.some.inj hpoints
      rw [← hcs] at hmem
      exact notMem_reread hruns.wellFormed hmem
    · intro h
      refine congrArg Text.ofChars ?_
      have htext : (Run.ofText cs).flatMap Run.reread = (Run.ofText cs).flatMap Run.text := by
        refine List.flatMap_congr fun r hr => reread_eq_text fun hmem => h ?_
        rw [← Run.flatMap_text_ofText cs]
        exact List.mem_flatMap.2 ⟨r, hr, hmem⟩
      rw [htext, Run.flatMap_text_ofText]

end

end ResourceApi.Yaml
