import ResourceApi.Proofs.Yaml.ValueScan
import ResourceApi.Yaml.Reader

/-!
# The characters of printed texts

A printed value holds only characters that may stand in a text, and no carriage return, so that its
line ends are read as they are (`isPrinted_printAt`). No byte order mark stands at its head. With
that the lexemes of the text of an object are those of the object, or the text has a defect
(`lexemes_of_print`).
-/

namespace ResourceApi.Yaml

open Style
open Json (Tidy)

/-! ## Printed characters -/

/-- The character may stand in a text, and is no carriage return. -/
def IsPrinted (c : Char) : Prop := isReadable c = true ∧ c ≠ '\r'

variable {c : Char} {cs : List Char}

theorem isPrinted_blank : IsPrinted ' ' := ⟨by decide, by decide⟩

theorem isPrinted_of_isShown (h : isShown c = true) : IsPrinted c := by
  constructor
  · simp only [isShown, shownRanges, isReadable, readableRanges, List.any_cons, List.any_nil,
      Bool.or_eq_true, Bool.and_eq_true, decide_eq_true_eq, Bool.or_false] at h ⊢
    omega
  · rintro rfl
    exact absurd h (by decide)

theorem isPrinted_of_all (h : cs.all isShown = true) : ∀ c ∈ cs, IsPrinted c :=
  fun c hc => isPrinted_of_isShown (List.all_eq_true.1 h c hc)

theorem isPrinted_of_isShownInQuotes (h : isShownInQuotes c = true) : IsPrinted c := by
  refine isPrinted_of_isShown ?_
  simp only [isShownInQuotes, quotedRanges, isShown, shownRanges, List.any_cons, List.any_nil,
    Bool.or_eq_true, Bool.and_eq_true, decide_eq_true_eq, Bool.or_false] at h ⊢
  omega

theorem isPrinted_newline (n : Nat) : ∀ c ∈ newline n, IsPrinted c := by
  refine List.forall_mem_cons.2 ⟨⟨by decide, by decide⟩, fun c hc => ?_⟩
  rw [List.eq_of_mem_replicate hc]
  exact isPrinted_blank

theorem isPrinted_word {isQuoted : Bool} (h : ∀ c ∈ cs, IsPrinted c) :
    ∀ c ∈ word isQuoted cs, IsPrinted c := by
  cases isQuoted with
  | false => exact h
  | true =>
    intro c hc
    obtain ⟨d, hd, hc⟩ := List.mem_flatMap.1 hc
    split_ifs at hc
    · obtain rfl : c = '\'' := by simpa using hc
      exact ⟨by decide, by decide⟩
    · rw [List.mem_singleton.1 hc]
      exact h d hd

theorem isPrinted_laid {isQuoted : Bool} {indent : Nat} {runs : List Run} {out : List Char}
    (h : Laid isQuoted indent runs out) (hruns : ∀ c ∈ runs.flatMap Run.text, IsPrinted c) :
    ∀ c ∈ out, IsPrinted c := by
  induction h with
  | nil => nofun
  | word cs _ ih =>
    simp only [List.flatMap_cons, List.forall_mem_append] at hruns ⊢
    exact ⟨isPrinted_word hruns.1, ih hruns.2⟩
  | blanks n _ ih =>
    simp only [List.flatMap_cons, List.forall_mem_append] at hruns ⊢
    exact ⟨hruns.1, ih hruns.2⟩
  | fold cs _ ih =>
    simp only [List.flatMap_cons, List.forall_mem_append] at hruns ih ⊢
    exact ⟨isPrinted_word hruns.1, isPrinted_newline indent, ih hruns.2.2⟩
  | breaks cs _ ih =>
    simp only [List.flatMap_cons, List.forall_mem_append] at hruns ⊢
    obtain ⟨hfeed, hblanks⟩ := List.forall_mem_cons.1 (isPrinted_newline indent)
    refine ⟨?_, hblanks, ih hruns.2⟩
    unfold breakLines
    split_ifs
    · exact List.forall_mem_cons.2 ⟨hfeed, hruns.1⟩
    · exact hruns.1

theorem isPrinted_bare {q : CodePoint} (h : bare? q = some c) : IsPrinted c := by
  cases q with
  | half n => cases h
  | char d =>
    replace h : (if isShownInQuotes d = true then some d else none) = some c := h
    split_ifs at h with hshown
    cases h
    exact isPrinted_of_isShownInQuotes hshown

theorem isPrinted_escape (q : CodePoint) : ∀ c ∈ Style.escape q, IsPrinted c :=
  fun c hc => (escape_visible q c hc).2

theorem isPrinted_continuation (indent : Nat) (rest : List CodePoint) :
    ∀ c ∈ continuation indent rest, IsPrinted c := by
  have hslash : IsPrinted '\\' := ⟨by decide, by decide⟩
  simp only [continuation, List.forall_mem_cons, List.forall_mem_append]
  refine ⟨hslash, isPrinted_newline indent, ?_⟩
  split_ifs
  · simpa using hslash
  · exact List.forall_mem_nil _

theorem isPrinted_wrapEscaped (indent : Nat) (isFirst isFresh : Bool) (column : Nat)
    (ps : List CodePoint) :
    ∀ c ∈ wrapEscaped indent isFirst isFresh column ps, IsPrinted c := by
  fun_induction wrapEscaped indent isFirst isFresh column ps with
  | case1 => exact List.forall_mem_nil _
  | case2 isFirst isFresh column p rest isInner c hbare hfold ih =>
    simp only [List.forall_mem_append, List.forall_mem_cons]
    exact ⟨isPrinted_continuation _ _, isPrinted_bare hbare, ih⟩
  | case3 isFirst isFresh column p rest isInner c hbare hfold ih =>
    exact List.forall_mem_cons.2 ⟨isPrinted_bare hbare, ih⟩
  | case4 isFirst isFresh column p rest isInner hbare after hfold ih =>
    simp only [List.forall_mem_append]
    exact ⟨isPrinted_escape p, isPrinted_continuation _ _, ih⟩
  | case5 isFirst isFresh column p rest isInner hbare after hfold ih =>
    exact List.forall_mem_append.2 ⟨isPrinted_escape p, ih⟩

theorem isPrinted_plain {t : Text} (h : ofText t = .plain cs) : ∀ c ∈ cs, IsPrinted c := by
  have hfits := (ofText_plain h).2.2
  simp only [fitsPlain, Bool.and_eq_true, List.all_eq_true] at hfits
  exact fun c hc => isPrinted_of_isShown (hfits.2 c hc).1

theorem isPrinted_single {t : Text} (h : ofText t = .single cs) : ∀ c ∈ cs, IsPrinted c := by
  have hfits := (ofText_single h).2
  exact isPrinted_of_all (Bool.and_eq_true_iff.1 hfits).1

/-- **Written texts are printed**, on several lines or on one. -/
theorem isPrinted_lines (t : Text) (indent column : Nat) :
    ∀ c ∈ Style.lines t indent column, IsPrinted c := by
  unfold Style.lines
  cases hstyle : ofText t with
  | plain cs =>
    refine isPrinted_laid (laid_wrap false indent column _) ?_
    rw [Run.flatMap_text_ofText]
    exact isPrinted_plain hstyle
  | single cs =>
    have hwrap : ∀ c ∈ wrap true indent (column + 1) (Run.ofText cs), IsPrinted c := by
      refine isPrinted_laid (laid_wrap true indent _ _) ?_
      rw [Run.flatMap_text_ofText]
      exact isPrinted_single hstyle
    simp only [List.forall_mem_cons, List.forall_mem_append]
    exact ⟨⟨by decide, by decide⟩, hwrap, ⟨by decide, by decide⟩, List.forall_mem_nil _⟩
  | double ps =>
    simp only [List.forall_mem_cons, List.forall_mem_append]
    exact ⟨⟨by decide, by decide⟩, isPrinted_wrapEscaped _ _ _ _ _, ⟨by decide, by decide⟩,
      List.forall_mem_nil _⟩

theorem isPrinted_line (t : Text) : ∀ c ∈ Style.line t, IsPrinted c := by
  unfold Style.line
  cases hstyle : ofText t with
  | plain cs => exact isPrinted_plain hstyle
  | single cs =>
    simp only [List.forall_mem_cons, List.forall_mem_append]
    exact ⟨⟨by decide, by decide⟩, isPrinted_word (isPrinted_single hstyle),
      ⟨by decide, by decide⟩, List.forall_mem_nil _⟩
  | double ps =>
    simp only [List.forall_mem_cons, List.forall_mem_append]
    refine ⟨⟨by decide, by decide⟩, fun c hc => ?_, ⟨by decide, by decide⟩, List.forall_mem_nil _⟩
    obtain ⟨q, -, hc⟩ := List.mem_flatMap.1 hc
    unfold inQuotes at hc
    split at hc
    · next d hd =>
      rw [List.mem_singleton.1 hc]
      exact isPrinted_bare hd
    · exact isPrinted_escape q c hc

/-! ## Printed values -/

theorem isPrinted_keyText (column : Nat) (key : Text) :
    ∀ c ∈ keyText column key, IsPrinted c := by
  unfold keyText
  split_ifs
  · simp only [List.forall_mem_append, List.forall_mem_cons]
    exact ⟨isPrinted_line key, ⟨by decide, by decide⟩, List.forall_mem_nil _⟩
  · simp only [List.forall_mem_append, List.forall_mem_cons]
    exact ⟨⟨by decide, by decide⟩, isPrinted_blank, isPrinted_lines _ _ _, isPrinted_newline _,
      ⟨by decide, by decide⟩, isPrinted_blank, List.forall_mem_nil _⟩

theorem isPrinted_gap (start : Start) : ∀ c ∈ start.gap, IsPrinted c := by
  cases start with
  | mark column => nofun
  | colon m column => exact List.forall_mem_singleton.2 isPrinted_blank

theorem isPrinted_lead (start : Start) (column : Nat) : ∀ c ∈ start.lead column, IsPrinted c := by
  cases start with
  | mark _ => nofun
  | colon _ _ => exact isPrinted_newline column

theorem isPrinted_printItems {xs : List Json} {column : Nat}
    (h : ∀ x ∈ xs, ∀ (start : Start), ∀ c ∈ printAt start x, IsPrinted c) :
    ∀ c ∈ printItems column xs, IsPrinted c := by
  induction xs with
  | nil => nofun
  | cons x xs ih =>
    obtain ⟨hx, hxs⟩ := List.forall_mem_cons.1 h
    simp only [printItems, List.forall_mem_append, List.forall_mem_cons]
    exact ⟨isPrinted_newline _, ⟨by decide, by decide⟩, isPrinted_blank, hx _, ih hxs⟩

theorem isPrinted_printMembers {ms : List (Text × Json)} {column : Nat}
    (h : ∀ m ∈ ms, ∀ (start : Start), ∀ c ∈ printAt start m.2, IsPrinted c) :
    ∀ c ∈ printMembers column ms, IsPrinted c := by
  induction ms with
  | nil => nofun
  | cons m ms ih =>
    obtain ⟨hm, hms⟩ := List.forall_mem_cons.1 h
    simp only [printMembers, List.forall_mem_append]
    exact ⟨isPrinted_newline _, isPrinted_keyText _ _, hm _, ih hms⟩

/-- **The text of a tidy value is printed.** -/
theorem isPrinted_printAt {n : Nat} {v : Json} (h : Tidy n v) (start : Start) :
    ∀ c ∈ printAt start v, IsPrinted c := by
  induction h generalizing start with
  | text s =>
    cases start with
    | mark column => exact isPrinted_lines s column column
    | colon m column =>
      exact List.forall_mem_cons.2 ⟨isPrinted_blank, isPrinted_lines s (m + 2) (column + 1)⟩
  | bool b =>
    refine List.forall_mem_append.2 ⟨isPrinted_gap start, isPrinted_of_all ?_⟩
    cases b <;> decide
  | @list n xs _ ih =>
    cases xs with
    | nil =>
      exact List.forall_mem_append.2 ⟨isPrinted_gap start, isPrinted_of_all (by decide)⟩
    | cons x xs =>
      obtain ⟨hx, hxs⟩ := List.forall_mem_cons.1 ih
      rw [printAt]
      simp only [List.forall_mem_append, List.forall_mem_cons]
      exact ⟨isPrinted_lead _ _, ⟨by decide, by decide⟩, isPrinted_blank, hx _,
        isPrinted_printItems hxs⟩
  | @object n ms _ _ ih =>
    cases ms with
    | nil =>
      exact List.forall_mem_append.2 ⟨isPrinted_gap start, isPrinted_of_all (by decide)⟩
    | cons m ms =>
      obtain ⟨key, x⟩ := m
      obtain ⟨hx, hms⟩ := List.forall_mem_cons.1 ih
      rw [printAt]
      simp only [List.forall_mem_append]
      exact ⟨isPrinted_lead _ _, isPrinted_keyText _ _, hx _, isPrinted_printMembers hms⟩

/-! ## Texts -/

/-- Line ends of printed characters are read as they are. -/
theorem unifyBreaks_eq_self (h : ∀ c ∈ cs, IsPrinted c) : unifyBreaks cs = cs := by
  induction cs with
  | nil => rfl
  | cons c cs ih =>
    obtain ⟨hc, hcs⟩ := List.forall_mem_cons.1 h
    rw [unifyBreaks]
    · rw [if_neg hc.2, ih hcs]
    · rintro rest rfl
      exact absurd rfl hc.2

/-- No byte order mark stands at the head of a key. -/
theorem head?_keyText (column : Nat) (key : Text) (more : List Char) :
    ∀ c ∈ (keyText column key ++ more).head?, c ≠ Glyph.byteOrderMark := by
  unfold keyText
  split_ifs with hkey
  · rw [List.append_assoc]
    unfold Style.line
    cases hstyle : ofText key with
    | plain cs =>
      obtain ⟨-, hkind, hfits⟩ := ofText_plain hstyle
      obtain ⟨c, cs, rfl⟩ := List.exists_cons_of_ne_nil (ne_nil_of_kind hkind)
      simp only [fitsPlain, Bool.and_eq_true, List.all_eq_true] at hfits
      rintro _ ⟨⟩ rfl
      exact absurd (hfits.2 _ List.mem_cons_self).1 (by decide)
    | single cs =>
      rintro _ ⟨⟩
      decide
    | double ps =>
      rintro _ ⟨⟩
      decide
  · rintro _ ⟨⟩
    decide

/-- **The text of an object has the lexemes of the object**, if the colons of all its keys are
within reach; otherwise it has a defect. -/
theorem lexemes_of_print {n : Nat} {ms : List (Text × Json)} (hne : ms ≠ [])
    (h : Tidy n (.obj ms)) (hmax : 2 * n < lastColumn) :
    (Scanned.ofText (printAt (.mark 0) (.obj ms) ++ ['\n'])).outcome =
      if Scan.isFound (.obj ms) then some (lexemes false (.obj ms)) else none := by
  obtain ⟨⟨key, x⟩, ms, rfl⟩ := List.exists_cons_of_ne_nil hne
  have hfirst : Glyph.nextIs (· = Glyph.byteOrderMark) (Glyph.ofText
      (printAt (.mark 0) (.obj ((key, x) :: ms)) ++ ['\n'])) = false := by
    have hhead := head?_keyText 0 key
      (printAt (valueStart 0 key) x ++ printMembers 0 ms ++ ['\n'])
    have htext : printAt (.mark 0) (.obj ((key, x) :: ms)) ++ ['\n'] = keyText 0 key ++
        (printAt (valueStart 0 key) x ++ printMembers 0 ms ++ ['\n']) := by
      rw [← List.append_assoc]
      rfl
    show Glyph.nextIs _ ((⟨0, 0, 0⟩ : Spot).glyphs _) = false
    rw [htext, Spot.nextIs_glyphs, Option.any_eq_false]
    exact fun c hc => decide_eq_false (hhead c hc)
  have hends : Scan.Ends {} (Glyph.ofText (printAt (.mark 0) (.obj ((key, x) :: ms)) ++ ['\n']))
      (if Scan.isFound (.obj ((key, x) :: ms)) then
        some (lexemes false (.obj ((key, x) :: ms))) else none) := by
    cases h with
    | @object n _ hkeys hvalues =>
      have hscans : ∀ m ∈ (key, x) :: ms, Scan.Scans 2 m.2 := fun m hm =>
        Scan.scans_of_tidy (hvalues m hm) (by omega)
      have hnone : ∀ b ∈ ([] : List Nat).head?, b < 0 := nofun
      have hfollows : Scan.Follows [] ((lexemes false (.obj ((key, x) :: ms))).reverse ++ [])
          ['\n'] (some (lexemes false (.obj ((key, x) :: ms)))) := by
        refine ⟨0, [], rfl, Scan.opens_nil, fun hnil => absurd rfl hnil, rfl, fun p _ => ?_⟩
        have hnil : Scan.Ends ⟨[], none, [], true,
            (lexemes false (.obj ((key, x) :: ms))).reverse ++ []⟩ (p.glyphs []) _ :=
          Scan.ends_nil
        rwa [List.append_nil, List.reverse_reverse, ← List.append_nil (List.reverse _)] at hnil
      exact Scan.ends_object (p := ⟨0, 0, 0⟩) hscans (Nat.le_refl _) (by decide) rfl hnone hfollows
  unfold Scanned.ofText
  simp only [hfirst, Bool.false_eq_true, if_false]
  exact hends _ (Nat.lt_succ_self _)

end ResourceApi.Yaml
