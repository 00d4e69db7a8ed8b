import ResourceApi.Proofs.Yaml.Spot
import ResourceApi.Yaml.Lexeme.Scan

/-!
# Steps of a scan

A scan that is to give all lexemes of a text goes on from lexeme to lexeme, and what it gives from a
state and a rest of the text on is all that matters (`Scan.Ends`): not how many steps are left, and
not what is settled when it breaks off.

**Steps.** Blanks and line ends lead to the next lexeme (`ends_blank`, `ends_newline`). A lexeme
leads to the state after it (`ends_next`), or to a defect (`ends_defect`). Before a lexeme further
out the innermost block ends (`ends_close`), and a key that may have begun on an earlier line is
forgotten (`ends_stale`).
-/

namespace ResourceApi.Yaml

/-- The lexemes of a text that has them to its end. -/
def Scanned.outcome (r : Scanned) : Option (List Lexeme) :=
  match r.defect with
  | none => some r.lexemes
  | some _ => none

namespace Scan

/-- What the scan gives from here on: all lexemes of the text, or none for a defect. -/
def Ends (s : Scan) (gs : List Glyph) (r : Option (List Lexeme)) : Prop :=
  ∀ fuel, gs.length < fuel → (run fuel s gs).outcome = r

/-- What a scan gives from the next lexeme on. -/
def proceed (fuel : Nat) (s : Scan) : Bool × List Glyph → Option (List Lexeme)
  | (_, []) => s.finish.toOption
  | (allowsKey, g :: rest) =>
    match { s with allowsKey }.next g rest with
    | .ok (s', rest) => (run fuel s' rest).outcome
    | .error _ => none

theorem outcome_run (fuel : Nat) (s : Scan) (gs : List Glyph) :
    (run (fuel + 1) s gs).outcome = s.proceed fuel (toLexeme s.inFlow false s.allowsKey gs) := by
  rw [run]
  rcases toLexeme s.inFlow false s.allowsKey gs with ⟨allowsKey, ahead⟩
  cases ahead with
  | nil =>
    simp only [proceed]
    cases s.finish <;> rfl
  | cons g rest =>
    simp only [proceed]
    rcases Scan.next { s with allowsKey } g rest with d | ⟨s', rest⟩ <;> rfl

theorem ends_iff {s : Scan} {gs : List Glyph} {r : Option (List Lexeme)} :
    s.Ends gs r ↔ ∀ fuel, gs.length ≤ fuel →
      s.proceed fuel (toLexeme s.inFlow false s.allowsKey gs) = r := by
  constructor
  · intro h fuel hfuel
    rw [← outcome_run]
    exact h _ (Nat.lt_succ_of_le hfuel)
  · intro h fuel hfuel
    obtain ⟨n, rfl⟩ : ∃ n, fuel = n + 1 := ⟨fuel - 1, by omega⟩
    rw [outcome_run]
    exact h n (Nat.le_of_lt_succ hfuel)

/-! ## To the next lexeme -/

variable {blocks : List Nat} {key : Option PossibleKey} {allowsKey : Bool} {found : List Lexeme}
  {p : Spot} {c : Char} {cs : List Char} {r : Option (List Lexeme)}

/-- What a lexeme begins with. -/
def Opens (cs : List Char) : Prop := ∀ c ∈ cs.head?, isSpace c = false ∧ c ≠ '#'

theorem opens_nil : Opens [] := nofun

theorem opens_cons : Opens (c :: cs) ↔ isSpace c = false ∧ c ≠ '#' := by simp [Opens]

theorem toLexeme_glyphs (h : Opens cs) (inFlow : Bool) :
    toLexeme inFlow false allowsKey (p.glyphs cs) = (allowsKey, p.glyphs cs) := by
  cases cs with
  | nil => rfl
  | cons c cs =>
    obtain ⟨hspace, hhash⟩ := opens_cons.1 h
    simp only [isSpace, Bool.or_eq_false_iff, decide_eq_false_iff_not] at hspace
    obtain ⟨⟨hblank, -⟩, hbreak⟩ := hspace
    rw [Spot.glyphs_cons, toLexeme]
    simp [hbreak, hblank, hhash]

theorem toLexeme_blanks (n : Nat) (inFlow : Bool) :
    toLexeme inFlow false allowsKey (p.glyphs (List.replicate n ' ' ++ cs)) =
      toLexeme inFlow false allowsKey ((p.after (List.replicate n ' ')).glyphs cs) := by
  induction n generalizing p with
  | zero => rfl
  | succ n ih =>
    rw [List.replicate_succ, List.cons_append, Spot.glyphs_cons, toLexeme]
    simp [isBreak, ih]

theorem toLexeme_newline (n : Nat) :
    toLexeme false false allowsKey (p.glyphs (Style.newline n ++ cs)) =
      toLexeme false false true ((p.after (Style.newline n)).glyphs cs) := by
  rw [Style.newline, List.cons_append, Spot.glyphs_cons, toLexeme]
  simp [isBreak, toLexeme_blanks]

theorem ends_skip {allowsKey' : Bool} {gs gs' : List Glyph}
    (hsame : toLexeme false false allowsKey gs = toLexeme false false allowsKey' gs')
    (hlength : gs'.length ≤ gs.length) (h : Ends ⟨blocks, key, [], allowsKey', found⟩ gs' r) :
    Ends ⟨blocks, key, [], allowsKey, found⟩ gs r := by
  refine ends_iff.2 fun fuel hfuel => ?_
  rw [← ends_iff.1 h fuel (Nat.le_trans hlength hfuel)]
  show proceed fuel _ (toLexeme false false allowsKey gs) =
    proceed fuel _ (toLexeme false false allowsKey' gs')
  rw [hsame]
  rcases toLexeme false false allowsKey' gs' with ⟨a, ahead⟩
  cases ahead <;> rfl

theorem ends_blank (h : Ends ⟨blocks, key, [], allowsKey, found⟩ ((p.next ' ').glyphs cs) r) :
    Ends ⟨blocks, key, [], allowsKey, found⟩ (p.glyphs (' ' :: cs)) r :=
  ends_skip (toLexeme_blanks 1 false) (by simp) h

theorem ends_newline {n : Nat}
    (h : Ends ⟨blocks, key, [], true, found⟩ ((p.after (Style.newline n)).glyphs cs) r) :
    Ends ⟨blocks, key, [], allowsKey, found⟩ (p.glyphs (Style.newline n ++ cs)) r :=
  ends_skip (toLexeme_newline n) (by simp) h

/-! ## Lexemes -/

/-- The lexeme at a glyph, when no block ends before it. -/
theorem next_eq {g : Glyph} {rest : List Glyph} (hblocks : ∀ b ∈ blocks.head?, b ≤ g.column) :
    Scan.next ⟨blocks, key, [], allowsKey, found⟩ g rest =
      (refresh g key).bind fun key => Scan.lexeme ⟨blocks, key, [], allowsKey, found⟩ g rest := by
  have hclose : closeBeyond g.column blocks found = (blocks, found) := by
    cases blocks with
    | nil => rfl
    | cons b bs =>
      rw [closeBeyond, if_neg (Nat.not_lt.2 (hblocks b rfl))]
  unfold Scan.next
  cases hrefresh : refresh g key with
  | error d => rfl
  | ok key =>
    show (unwind ⟨blocks, key, [], allowsKey, found⟩ g.column).lexeme g rest = _
    simp [unwind, inFlow, hclose, Except.bind]

/-- The lexeme at a glyph inside brackets, whose possible key outside is still open. -/
theorem next_flow {g : Glyph} {rest : List Glyph} (hkey : refresh g key = .ok key) :
    Scan.next ⟨blocks, none, [key], allowsKey, found⟩ g rest =
      Scan.lexeme ⟨blocks, none, [key], allowsKey, found⟩ g rest := by
  have houter : [key].mapM (refresh g) = .ok [key] := by
    rw [List.mapM_cons, hkey]
    rfl
  unfold Scan.next
  rw [houter]
  rfl

/-- **A lexeme leads to the state after it.** -/
theorem ends_next {s s' : Scan} {q : Spot} {cs' : List Char} (hopens : Opens (c :: cs))
    (hnext : s.next ⟨c, p.index, p.line, p.column⟩ ((p.next c).glyphs cs) =
      .ok (s', q.glyphs cs'))
    (hlength : cs'.length ≤ cs.length) (h : s'.Ends (q.glyphs cs') r) :
    s.Ends (p.glyphs (c :: cs)) r := by
  refine ends_iff.2 fun fuel hfuel => ?_
  rw [toLexeme_glyphs hopens, Spot.glyphs_cons]
  simp only [proceed, hnext]
  refine h fuel ?_
  simp only [Spot.length_glyphs, List.length_cons] at hfuel ⊢
  omega

theorem ends_lexeme {key' : Option PossibleKey} {s' : Scan} {q : Spot} {cs' : List Char}
    (hopens : Opens (c :: cs)) (hblocks : ∀ b ∈ blocks.head?, b ≤ p.column)
    (hkey : refresh ⟨c, p.index, p.line, p.column⟩ key = .ok key')
    (hlexeme : Scan.lexeme ⟨blocks, key', [], allowsKey, found⟩ ⟨c, p.index, p.line, p.column⟩
      ((p.next c).glyphs cs) = .ok (s', q.glyphs cs'))
    (hlength : cs'.length ≤ cs.length) (h : s'.Ends (q.glyphs cs') r) :
    Ends ⟨blocks, key, [], allowsKey, found⟩ (p.glyphs (c :: cs)) r := by
  refine ends_next hopens ?_ hlength h
  rw [next_eq hblocks, hkey]
  exact hlexeme

theorem ends_defect {d : Defect} (hopens : Opens (c :: cs))
    (h : Scan.next ⟨blocks, key, [], allowsKey, found⟩ ⟨c, p.index, p.line, p.column⟩
      ((p.next c).glyphs cs) = .error d) :
    Ends ⟨blocks, key, [], allowsKey, found⟩ (p.glyphs (c :: cs)) none := by
  refine ends_iff.2 fun fuel _ => ?_
  show proceed fuel _ (toLexeme false false allowsKey _) = none
  rw [toLexeme_glyphs hopens, Spot.glyphs_cons]
  simp only [proceed, h]

/-! ## Blocks and keys -/

/-- **The innermost block ends** before a lexeme further out, or at the end of the text. -/
theorem ends_close {column : Nat} (hopens : Opens cs) (hcolumn : cs ≠ [] → p.column < column)
    (h : Ends ⟨blocks, none, [], allowsKey, .blockEnd :: found⟩ (p.glyphs cs) r) :
    Ends ⟨column :: blocks, none, [], allowsKey, found⟩ (p.glyphs cs) r := by
  refine ends_iff.2 fun fuel hfuel => ?_
  rw [← ends_iff.1 h fuel hfuel]
  show proceed fuel _ (toLexeme false false allowsKey _) =
    proceed fuel _ (toLexeme false false allowsKey _)
  rw [toLexeme_glyphs hopens]
  cases cs with
  | nil =>
    have hends (n : Nat) : List.replicate n Lexeme.blockEnd ++ [.blockEnd] =
        .blockEnd :: List.replicate n .blockEnd := by
      rw [← List.replicate_succ', List.replicate_succ]
    simp [proceed, finish, unwindAll, inFlow, hends]
  | cons c cs =>
    rw [Spot.glyphs_cons]
    have hclose : closeBeyond p.column (column :: blocks) found =
        closeBeyond p.column blocks (.blockEnd :: found) := by
      rw [closeBeyond, if_pos (hcolumn (List.cons_ne_nil c cs))]
    simp [proceed, Scan.next, refresh, unwind, inFlow, hclose]

/-- A key that is not required and began on another line is forgotten. -/
theorem ends_stale (hopens : Opens cs) (hkey : ∀ k ∈ key, k.isRequired = false ∧ k.line ≠ p.line)
    (h : Ends ⟨blocks, none, [], allowsKey, found⟩ (p.glyphs cs) r) :
    Ends ⟨blocks, key, [], allowsKey, found⟩ (p.glyphs cs) r := by
  refine ends_iff.2 fun fuel hfuel => ?_
  rw [← ends_iff.1 h fuel hfuel]
  show proceed fuel _ (toLexeme false false allowsKey _) =
    proceed fuel _ (toLexeme false false allowsKey _)
  rw [toLexeme_glyphs hopens]
  cases key with
  | none => rfl
  | some k =>
    obtain ⟨hrequired, hline⟩ := hkey k rfl
    cases cs with
    | nil => simp [proceed, finish, unwindAll, inFlow, hrequired]
    | cons c cs =>
      rw [Spot.glyphs_cons]
      simp [proceed, Scan.next, refresh, hrequired, hline]

theorem ends_nil : Ends ⟨[], none, [], allowsKey, found⟩ (p.glyphs []) (some found.reverse) := by
  refine ends_iff.2 fun fuel _ => ?_
  rfl

end Scan

end ResourceApi.Yaml
