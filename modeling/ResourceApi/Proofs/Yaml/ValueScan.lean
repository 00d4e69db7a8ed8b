import ResourceApi.Proofs.TidyValue
import ResourceApi.Proofs.Yaml.KeyScan

/-!
# Values in a scan

The text of a tidy value is scanned as the lexemes of the value (`lexemes`), when the colons of all
its keys are within reach; otherwise the text has a defect. The proof follows the value. Behind each
item or member a new line follows, and on it the next item or member, or what follows the value
(`Follows.items`, `Follows.members`); behind the last one the block ends (`Follows.close`).

**Main results** (`scans_of_tidy`, `ends_object`). A tidy value is scanned wherever it stands, and
an object opens a block of its own.
-/

namespace ResourceApi.Yaml

open Style
open Json (Tidy every everyItem everyMember)

/-! ## Lexemes of values -/

mutual

/-- The lexemes of a written value. A list in place of the value of a key on its line stands at the
column of the key and opens no block. -/
def lexemes (isInline : Bool) : Json → List Lexeme
  | .str s => [textLexeme s]
  | .bool b => [.scalar (if b then "true" else "false") true]
  | .arr [] => [.flowList, .flowListEnd]
  | .obj [] => [.flowMap, .flowMapEnd]
  | .arr (x :: xs) =>
    if isInline then itemLexemes (x :: xs) else .blockList :: (itemLexemes (x :: xs) ++ [.blockEnd])
  | .obj (m :: ms) => .blockMap :: (memberLexemes (m :: ms) ++ [.blockEnd])
  | _ => []

/-- The lexemes of the items of a list. -/
def itemLexemes : List Json → List Lexeme
  | [] => []
  | x :: xs => .dash :: (lexemes false x ++ itemLexemes xs)

/-- The lexemes of the members of an object. -/
def memberLexemes : List (Text × Json) → List Lexeme
  | [] => []
  | (k, x) :: ms =>
    .key :: textLexeme k :: .colon :: (lexemes (isSimpleKey k) x ++ memberLexemes ms)

end

/-! ## Starts -/

namespace Start

/-- Does the value begin after a colon on the line of its key? -/
def isInline : Start → Bool
  | mark _ => false
  | colon _ _ => true

/-- The indentation of a text at the start. -/
def indent : Start → Nat
  | mark column => column
  | colon indent _ => indent + 2

/-- The reading has come to the start. -/
def Reached (p : Spot) : Start → Prop
  | mark column => p.column = column
  | colon indent _ => indent ≤ p.column

/-- The start lies inside the innermost block. -/
def Inside (blocks : List Nat) : Start → Prop
  | mark column => ∃ b ∈ blocks.head?, b < column
  | colon indent _ => indent ∈ blocks.head?

end Start

namespace Scan

/-- Are the colons of all keys within reach? -/
def isFound (v : Json) : Bool := v.every isReached fun _ => true

variable {blocks : List Nat} {allowsKey : Bool} {found : List Lexeme} {p : Spot}
  {tail : List Char} {r : Option (List Lexeme)} {n : Nat}

/-! ## Words and brackets -/

theorem ends_bool {word : String} {c : Nat} (hword : word = "true" ∨ word = "false")
    (hb : c ∈ blocks.head?) (hcolumn : c < p.column)
    (h : Follows blocks (.scalar word true :: found) tail r) :
    Ends ⟨blocks, none, [], allowsKey, found⟩ (p.glyphs (word.toList ++ tail)) r := by
  have hfits : fitsPlain word.toList = true ∧ word.toList ≠ [] ∧
      hasBlankAtBreak word.toList = false ∧ word.toList.any isBreak = false := by
    rcases hword with rfl | rfl <;> decide
  obtain ⟨hplain, hne, hblank, hbreak⟩ := hfits
  simp only [List.any_eq_false, Bool.not_eq_true] at hbreak
  exact ends_plain hplain hne (laid_of_noBreak hblank hbreak) hb hcolumn (Nat.lt_succ_self c) h

theorem ends_brackets {c d : Char} {l l' : Lexeme} {b : Nat}
    (hc : (c, d, l, l') = ('[', ']', .flowList, .flowListEnd) ∨
      (c, d, l, l') = ('\x7b', '\x7d', .flowMap, .flowMapEnd))
    (hb : b ∈ blocks.head?) (hcolumn : b < p.column)
    (h : Follows blocks (l' :: l :: found) tail r) :
    Ends ⟨blocks, none, [], allowsKey, found⟩ (p.glyphs (c :: d :: tail)) r := by
  obtain ⟨k, next, rfl, h⟩ := h
  have hopen : Scan.lexeme ⟨blocks, none, [], allowsKey, found⟩ ⟨c, p.index, p.line, p.column⟩
      ((p.next c).glyphs (d :: (newline k ++ next))) =
    .ok (⟨blocks, none, [noted blocks allowsKey found p], true, l :: found⟩,
      (p.next c).glyphs (d :: (newline k ++ next))) := by
    have hbracket : openBracket ⟨blocks, none, [], allowsKey, found⟩
        ⟨c, p.index, p.line, p.column⟩ l =
          .ok ⟨blocks, none, [noted blocks allowsKey found p], true, l :: found⟩ := by
      unfold openBracket
      rw [noteKey_eq]
      rfl
    unfold Scan.lexeme
    rcases hc with hc | hc <;> cases hc <;>
      simp [isMarker_cons, hbracket, Except.map]
  have hclose : Scan.next ⟨blocks, none, [noted blocks allowsKey found p], true, l :: found⟩
      ⟨d, (p.next c).index, (p.next c).line, (p.next c).column⟩
      (((p.next c).next d).glyphs (newline k ++ next)) =
    .ok (⟨blocks, noted blocks allowsKey found p, [], false, l' :: l :: found⟩,
      ((p.next c).next d).glyphs (newline k ++ next)) := by
    have hrefresh : refresh ⟨d, (p.next c).index, (p.next c).line, (p.next c).column⟩
        (noted blocks allowsKey found p) = .ok (noted blocks allowsKey found p) := by
      have hspot : (p.next c).line = p.line ∧ (p.next c).index = p.index + 1 := by
        rcases hc with hc | hc <;> cases hc <;> exact ⟨rfl, rfl⟩
      cases allowsKey with
      | false => rfl
      | true => simp [noted, refresh, hspot, keyReach]
    rw [next_flow hrefresh]
    unfold Scan.lexeme
    rcases hc with hc | hc <;> cases hc <;>
      simp [isMarker_cons, closeBracket, dropKey, emit, Except.map, bind, Except.bind, pure,
        Except.pure]
  have hopens : Opens (c :: d :: (newline k ++ next)) ∧ Opens (d :: (newline k ++ next)) := by
    rcases hc with hc | hc <;> cases hc <;>
      exact ⟨opens_cons.2 (by decide), opens_cons.2 (by decide)⟩
  refine ends_lexeme hopens.1 (blocks_le hb hcolumn) rfl hopen (Nat.le_refl _)
    (ends_next hopens.2 hclose (Nat.le_refl _) (Scan.ends_newline (h.ends_newline ?_)))
  exact noted_eq hb hcolumn (Nat.le_trans Spot.line_le_next Spot.line_le_next)

/-! ## Items and members -/

/-- The value is scanned wherever it stands, up to an indentation: it leads to what follows, or to a
defect if a colon in it is out of reach. -/
def Scans (bound : Nat) (v : Json) : Prop :=
  ∀ (start : Start) (blocks : List Nat) (found : List Lexeme) (p : Spot) (tail : List Char)
    (r : Option (List Lexeme)), start.indent ≤ bound → start.Inside blocks → start.Reached p →
    Follows blocks ((lexemes start.isInline v).reverse ++ found) tail r →
    Ends ⟨blocks, none, [], !start.isInline, found⟩ (p.glyphs (printAt start v ++ tail))
      (if isFound v then r else none)

theorem ite_and {a b : Bool} : (if (a && b) = true then r else none) =
    if a = true then (if b = true then r else none) else none := by
  cases a <;> rfl

theorem inBlock_eq_self {column : Nat} (h : column ∈ blocks.head?) :
    inBlock column blocks = blocks := if_pos h

theorem blockMark_eq_nil {l : Lexeme} {column : Nat} (h : column ∈ blocks.head?) :
    blockMark l column blocks = [] := if_pos h

theorem inBlock_eq_cons {column : Nat} (h : ∀ b ∈ blocks.head?, b < column) :
    inBlock column blocks = column :: blocks :=
  if_neg fun hmem => Nat.lt_irrefl _ (h column hmem)

theorem blockMark_eq_singleton {l : Lexeme} {column : Nat} (h : ∀ b ∈ blocks.head?, b < column) :
    blockMark l column blocks = [l] :=
  if_neg fun hmem => Nat.lt_irrefl _ (h column hmem)

/-- Further out than a block the block ends. -/
theorem Follows.close {column : Nat} (h : Follows blocks (.blockEnd :: found) tail r)
    (hblocks : ∀ b ∈ blocks.head?, b < column) : Follows (column :: blocks) found tail r := by
  obtain ⟨k, next, rfl, h⟩ := h
  have hk : next ≠ [] → k < column := by
    intro hnext
    obtain ⟨b, hb, hle⟩ := h.inside hnext
    exact Nat.lt_of_le_of_lt hle (hblocks b hb)
  refine ⟨k, next, rfl, h.opens, fun hnext => ⟨column, rfl, Nat.le_of_lt (hk hnext)⟩, h.noMarker,
    fun q hq => ends_close h.opens (fun hnext => ?_) (h.ends q hq)⟩
  rw [hq]
  exact hk hnext

theorem beginsWithMarker_dash (cs : List Char) : beginsWithMarker ('-' :: ' ' :: cs) = false := by
  rw [Bool.eq_false_iff, ne_eq, Spot.beginsWithMarker_iff]
  rintro ⟨m, rest, heq, -⟩
  simp only [List.cons.injEq] at heq
  exact absurd (heq.1.trans heq.2.1.symm) (by decide)

theorem lexeme_dash {cs : List Char} (hblocks : ∀ b ∈ blocks.head?, b ≤ p.column) :
    Scan.lexeme ⟨blocks, none, [], true, found⟩ ⟨'-', p.index, p.line, p.column⟩
        ((p.next '-').glyphs (' ' :: cs)) =
      .ok (⟨inBlock p.column blocks, none, [], true,
        .dash :: (blockMark .blockList p.column blocks ++ found)⟩,
        (p.next '-').glyphs (' ' :: cs)) := by
  have hdash : Glyph.isMarker '-'
      (⟨'-', p.index, p.line, p.column⟩ :: (p.next '-').glyphs (' ' :: cs)) = false := by
    rw [← Spot.glyphs_cons]
    exact Spot.isMarker_glyphs (beginsWithMarker_dash cs) (.inl rfl)
  have hdot : Glyph.isMarker '.'
      (⟨'-', p.index, p.line, p.column⟩ :: (p.next '-').glyphs (' ' :: cs)) = false :=
    isMarker_cons (by decide : '-' ≠ '.')
  have hstarts : Glyph.endOr isSpace ((p.next '-').glyphs (' ' :: cs)) = true := by
    rw [Spot.endOr_glyphs]
    rfl
  unfold Scan.lexeme
  simp [hdash, hdot, hstarts, Scan.dash, openBlock_eq hblocks, inFlow, dropKey, emit, Except.map,
    bind, Except.bind, pure, Except.pure]

theorem ends_item {x : Json} {column bound : Nat} (hx : Scans bound x)
    (hbound : column + 2 ≤ bound) (hcolumn : p.column = column)
    (hblocks : ∀ b ∈ blocks.head?, b ≤ column)
    (h : Follows (inBlock column blocks) ((lexemes false x).reverse ++
      .dash :: (blockMark .blockList column blocks ++ found)) tail r) :
    Ends ⟨blocks, none, [], true, found⟩
      (p.glyphs ('-' :: ' ' :: (printAt (.mark (column + 2)) x ++ tail)))
      (if isFound x then r else none) := by
  subst hcolumn
  refine ends_lexeme (opens_cons.2 (by decide)) hblocks rfl (lexeme_dash hblocks) (Nat.le_refl _)
    (ends_blank ?_)
  exact hx (.mark (p.column + 2)) _ _ _ _ _ hbound
    ⟨p.column, head?_inBlock _ _, by omega⟩ rfl h

/-- **Further items follow**, each on its own line. -/
theorem Follows.items {xs : List Json} {column bound : Nat} (hxs : ∀ x ∈ xs, Scans bound x)
    (hbound : column + 2 ≤ bound) (hhead : column ∈ blocks.head?)
    (h : Follows blocks ((itemLexemes xs).reverse ++ found) tail r) :
    Follows blocks found (printItems column xs ++ tail)
      (if everyItem isReached (fun _ => true) xs then r else none) := by
  induction xs generalizing found with
  | nil => exact h
  | cons x xs ih =>
    obtain ⟨hx, hxs⟩ := List.forall_mem_cons.1 hxs
    have hrest : Follows blocks ((lexemes false x).reverse ++ .dash :: found)
        (printItems column xs ++ tail)
        (if everyItem isReached (fun _ => true) xs then r else none) := by
      refine ih hxs ?_
      simpa [itemLexemes] using h
    refine ⟨column,
      '-' :: ' ' :: (printAt (.mark (column + 2)) x ++ (printItems column xs ++ tail)),
      by simp [printItems], opens_cons.2 (by decide), fun _ => ⟨_, hhead, Nat.le_refl _⟩, ?_,
      fun q hq => ?_⟩
    · exact beginsWithMarker_indent _ (beginsWithMarker_dash _)
    · have hle : ∀ b ∈ blocks.head?, b ≤ column := by
        intro b hb
        rw [Option.mem_unique hb hhead]
      rw [everyItem, ite_and]
      refine ends_item hx hbound hq hle ?_
      rw [inBlock_eq_self hhead, blockMark_eq_nil hhead]
      exact hrest

theorem head?_printAt (m column : Nat) (v : Json) (tail : List Char) :
    ∃ d ∈ (printAt (.colon m column) v ++ tail).head?, isSpace d = true := by
  have hblank : isSpace ' ' = true ∧ isSpace '\n' = true := by decide
  cases v with
  | arr xs =>
    cases xs with
    | nil => exact ⟨' ', rfl, hblank.1⟩
    | cons x xs => exact ⟨'\n', rfl, hblank.2⟩
  | obj ms =>
    cases ms with
    | nil => exact ⟨' ', rfl, hblank.1⟩
    | cons p ms => exact ⟨'\n', rfl, hblank.2⟩
  | _ => exact ⟨' ', rfl, hblank.1⟩

theorem ends_member {key : Text} {x : Json} {column bound : Nat} (hx : Scans bound x)
    (hbound : column + 2 ≤ bound) (hmax : bound < lastColumn) (hcolumn : p.column = column)
    (hblocks : ∀ b ∈ blocks.head?, b ≤ column)
    (h : Follows (inBlock column blocks) ((lexemes (isSimpleKey key) x).reverse ++
      .colon :: textLexeme key :: .key :: (blockMark .blockMap column blocks ++ found)) tail r) :
    Ends ⟨blocks, none, [], true, found⟩
      (p.glyphs (keyText column key ++ (printAt (valueStart column key) x ++ tail)))
      (if (isReached key && isFound x) = true then r else none) := by
  rw [ite_and]
  unfold keyText valueStart
  by_cases hkey : isSimpleKey key = true
  · rw [if_pos hkey, if_pos hkey]
    rw [hkey] at h
    subst hcolumn
    rw [List.append_assoc]
    exact ends_simpleKey hkey hblocks (head?_printAt _ _ _ _) fun q hq =>
      hx (.colon p.column _) _ _ _ _ _ hbound (head?_inBlock _ _) hq h
  · rw [if_neg hkey, if_neg hkey, if_pos (by simp [isReached, hkey])]
    rw [Bool.not_eq_true] at hkey
    rw [hkey] at h
    simp only [List.cons_append, List.append_assoc, List.nil_append]
    exact ends_markedKey hcolumn hblocks (by omega) fun q hq =>
      hx (.mark (column + 2)) _ _ _ _ _ hbound ⟨column, head?_inBlock _ _, by omega⟩ hq h

theorem opens_keyText (column : Nat) (key : Text) (more : List Char) :
    Opens (keyText column key ++ more) ∧
      beginsWithMarker (keyText column key ++ more) = false := by
  unfold keyText
  split_ifs with hkey
  · rw [List.append_assoc, List.singleton_append]
    exact ⟨opens_line hkey, beginsWithMarker_line key more⟩
  · exact ⟨opens_cons.2 (by decide), Spot.beginsWithMarker_of_head (by simp)⟩

/-- **Further members follow**, each on its own line. -/
theorem Follows.members {ms : List (Text × Json)} {column bound : Nat}
    (hms : ∀ m ∈ ms, Scans bound m.2) (hbound : column + 2 ≤ bound) (hmax : bound < lastColumn)
    (hhead : column ∈ blocks.head?)
    (h : Follows blocks ((memberLexemes ms).reverse ++ found) tail r) :
    Follows blocks found (printMembers column ms ++ tail)
      (if everyMember isReached (fun _ => true) ms then r else none) := by
  induction ms generalizing found with
  | nil => exact h
  | cons m ms ih =>
    obtain ⟨key, x⟩ := m
    obtain ⟨hx, hms⟩ := List.forall_mem_cons.1 hms
    have hrest : Follows blocks ((lexemes (isSimpleKey key) x).reverse ++
        .colon :: textLexeme key :: .key :: found) (printMembers column ms ++ tail)
        (if everyMember isReached (fun _ => true) ms then r else none) := by
      refine ih hms ?_
      simpa [memberLexemes] using h
    obtain ⟨hopens, hmarker⟩ := opens_keyText column key
      (printAt (valueStart column key) x ++ (printMembers column ms ++ tail))
    refine ⟨column, _, by simp [printMembers], hopens, fun _ => ⟨_, hhead, Nat.le_refl _⟩,
      beginsWithMarker_indent _ hmarker, fun q hq => ?_⟩
    have hle : ∀ b ∈ blocks.head?, b ≤ column := by
      intro b hb
      rw [Option.mem_unique hb hhead]
    rw [everyMember, ite_and]
    refine ends_member hx hbound hmax hq hle ?_
    rw [inBlock_eq_self hhead, blockMark_eq_nil hhead]
    exact hrest

/-! ## Values -/

/-- The items of a list, whose block opens with the first one unless it is open. -/
theorem ends_items {x : Json} {xs : List Json} {column bound : Nat}
    (hxs : ∀ v ∈ x :: xs, Scans bound v) (hbound : column + 2 ≤ bound)
    (hcolumn : p.column = column)
    (hblocks : ∀ b ∈ blocks.head?, b ≤ column)
    (h : Follows (inBlock column blocks) ((itemLexemes (x :: xs)).reverse ++
      (blockMark .blockList column blocks ++ found)) tail r) :
    Ends ⟨blocks, none, [], true, found⟩
      (p.glyphs ('-' :: ' ' :: (printAt (.mark (column + 2)) x ++ (printItems column xs ++ tail))))
      (if isFound (.arr (x :: xs)) then r else none) := by
  obtain ⟨hx, hxs⟩ := List.forall_mem_cons.1 hxs
  have hfound : isFound (.arr (x :: xs)) =
      (isFound x && everyItem isReached (fun _ => true) xs) := rfl
  rw [hfound, ite_and]
  refine ends_item hx hbound hcolumn hblocks (Follows.items hxs hbound (head?_inBlock _ _) ?_)
  simpa [itemLexemes] using h

theorem ends_object {m : Text × Json} {ms : List (Text × Json)} {column bound : Nat}
    (hms : ∀ p ∈ m :: ms, Scans bound p.2) (hbound : column + 2 ≤ bound) (hmax : bound < lastColumn)
    (hcolumn : p.column = column) (hblocks : ∀ b ∈ blocks.head?, b < column)
    (h : Follows blocks ((lexemes false (.obj (m :: ms))).reverse ++ found) tail r) :
    Ends ⟨blocks, none, [], true, found⟩
      (p.glyphs (printAt (.mark column) (.obj (m :: ms)) ++ tail))
      (if isFound (.obj (m :: ms)) then r else none) := by
  obtain ⟨key, x⟩ := m
  obtain ⟨hx, hms⟩ := List.forall_mem_cons.1 hms
  have hrest : Follows (column :: blocks) ((memberLexemes ((key, x) :: ms)).reverse ++
      .blockMap :: found) tail r := by
    refine Follows.close ?_ hblocks
    simpa [lexemes] using h
  have hmembers : Follows (column :: blocks) ((lexemes (isSimpleKey key) x).reverse ++
      .colon :: textLexeme key :: .key :: .blockMap :: found) (printMembers column ms ++ tail)
      (if everyMember isReached (fun _ => true) ms then r else none) := by
    refine Follows.members hms hbound hmax rfl ?_
    simpa [memberLexemes] using hrest
  have hprint : printAt (.mark column) (.obj ((key, x) :: ms)) = keyText column key ++
      (printAt (valueStart column key) x ++ printMembers column ms) := rfl
  have hfound : isFound (.obj ((key, x) :: ms)) = (isReached key && isFound x &&
      everyMember isReached (fun _ => true) ms) := rfl
  rw [hprint, hfound, ite_and, List.append_assoc, List.append_assoc]
  refine ends_member hx hbound hmax hcolumn (fun b hb => Nat.le_of_lt (hblocks b hb)) ?_
  rw [inBlock_eq_cons hblocks, blockMark_eq_singleton hblocks]
  exact hmembers

theorem ends_gap {start : Start} {out : List Char} (hinside : start.Inside blocks)
    (hreached : start.Reached p)
    (h : ∀ (q : Spot) (b : Nat), b ∈ blocks.head? → b < q.column →
      Ends ⟨blocks, none, [], !start.isInline, found⟩ (q.glyphs (out ++ tail)) r) :
    Ends ⟨blocks, none, [], !start.isInline, found⟩ (p.glyphs (start.gap ++ out ++ tail)) r := by
  cases start with
  | mark column =>
    obtain ⟨b, hb, hlt⟩ := hinside
    exact h p b hb (Nat.lt_of_lt_of_eq hlt hreached.symm)
  | colon m column =>
    exact ends_blank (h _ m hinside (Nat.lt_succ_of_le hreached))

/-- A list or map at a column: where the value begins, or on a new line. -/
theorem ends_lead {start : Start} {column : Nat} {cs : List Char} (hreached : start.Reached p)
    (hcolumn : ∀ c, start = .mark c → c = column)
    (h : ∀ q : Spot, q.column = column →
      Ends ⟨blocks, none, [], true, found⟩ (q.glyphs cs) r) :
    Ends ⟨blocks, none, [], !start.isInline, found⟩ (p.glyphs (start.lead column ++ cs)) r := by
  cases start with
  | mark c => exact h p (hcolumn c rfl ▸ hreached)
  | colon m c =>
    refine Scan.ends_newline (h _ ?_)
    rw [Spot.after_newline]

/-- The members of an object stand at the indentation of the object, and further in than the block
around it. -/
theorem lt_memberColumn {start : Start} (hinside : start.Inside blocks) :
    ∀ b ∈ blocks.head?, b < start.memberColumn := by
  intro b hb
  cases start with
  | mark column =>
    obtain ⟨b', hb', hlt⟩ := hinside
    rwa [Option.mem_unique hb hb']
  | colon m column =>
    rw [Option.mem_unique hb hinside]
    show m < m + 2
    omega

theorem itemColumn_le_indent (start : Start) : start.itemColumn ≤ start.indent := by
  cases start with
  | mark column => exact Nat.le_refl _
  | colon m column => exact Nat.le_add_right m 2

theorem memberColumn_eq_indent (start : Start) : start.memberColumn = start.indent := by
  cases start <;> rfl

section

variable {bound : Nat}

theorem scans_text (t : Text) (hmax : bound < lastColumn) : Scans bound (.str t) := by
  intro start blocks found p tail r hindent hinside hreached hfollows
  cases start with
  | mark column =>
    obtain ⟨b, hb, hlt⟩ := hinside
    have hcolumn : p.column = column := hreached
    have hle : column ≤ bound := hindent
    exact ends_lines hb (by omega) hlt (by omega) hfollows
  | colon m column =>
    have hle : m + 2 ≤ bound := hindent
    have hcolumn : m ≤ p.column := hreached
    exact ends_blank (ends_lines hinside (Nat.lt_succ_of_le hcolumn) (by omega) (by omega) hfollows)

theorem scans_bool (b : Bool) : Scans bound (.bool b) := by
  intro start blocks found p tail r hindent hinside hreached hfollows
  cases b with
  | false => exact ends_gap hinside hreached fun q c hc hlt =>
      ends_bool (.inr rfl) hc hlt hfollows
  | true => exact ends_gap hinside hreached fun q c hc hlt =>
      ends_bool (.inl rfl) hc hlt hfollows

theorem scans_list {xs : List Json} (hxs : ∀ x ∈ xs, Scans (bound + 2) x) :
    Scans bound (.arr xs) := by
  intro start blocks found p tail r hindent hinside hreached hfollows
  cases xs with
  | nil => exact ends_gap hinside hreached fun q b hb hlt =>
      ends_brackets (.inl rfl) hb hlt hfollows
  | cons x xs =>
    have hbound : start.itemColumn + 2 ≤ bound + 2 :=
      Nat.add_le_add_right (Nat.le_trans (itemColumn_le_indent start) hindent) 2
    rw [printAt, List.append_assoc]
    refine ends_lead hreached (fun c hc => by rw [hc]; rfl) fun q hq => ?_
    simp only [List.cons_append, List.append_assoc]
    cases start with
    | mark column =>
      have hblocks : ∀ b ∈ blocks.head?, b < column := lt_memberColumn hinside
      refine ends_items hxs hbound hq (fun b hb => Nat.le_of_lt (hblocks b hb)) ?_
      show Follows (inBlock column blocks) (_ ++ (blockMark .blockList column blocks ++ _)) _ _
      rw [inBlock_eq_cons hblocks, blockMark_eq_singleton hblocks]
      refine Follows.close ?_ hblocks
      simpa [lexemes, Start.isInline] using hfollows
    | colon m column =>
      -- the list goes on in the block of the key
      have hblocks : ∀ b ∈ blocks.head?, b ≤ m := by
        intro b hb
        rw [Option.mem_unique hb hinside]
      refine ends_items hxs hbound hq hblocks ?_
      show Follows (inBlock m blocks) (_ ++ (blockMark .blockList m blocks ++ _)) _ _
      rw [inBlock_eq_self hinside, blockMark_eq_nil hinside]
      simpa [lexemes, Start.isInline] using hfollows

theorem scans_object {ms : List (Text × Json)} (hms : ∀ m ∈ ms, Scans (bound + 2) m.2)
    (hmax : bound + 2 < lastColumn) : Scans bound (.obj ms) := by
  intro start blocks found p tail r hindent hinside hreached hfollows
  cases ms with
  | nil => exact ends_gap hinside hreached fun q b hb hlt =>
      ends_brackets (.inr rfl) hb hlt hfollows
  | cons m ms =>
    obtain ⟨key, x⟩ := m
    have hcolumn : start.memberColumn + 2 ≤ bound + 2 := by
      rw [memberColumn_eq_indent]
      omega
    rw [printAt, List.append_assoc]
    refine ends_lead hreached (fun c hc => by rw [hc]; rfl) fun q hq => ?_
    exact ends_object hms hcolumn hmax hq (lt_memberColumn hinside) hfollows

/-- **Tidy values are scanned**, as long as no line begins beyond the last column. -/
theorem scans_of_tidy {v : Json} (h : Tidy n v) (hmax : bound + 2 * n < lastColumn) :
    Scans bound v := by
  induction h generalizing bound with
  | text s => exact scans_text s (by omega)
  | bool b => exact scans_bool b
  | list _ ih => exact scans_list fun x hx => ih x hx (by omega)
  | object _ _ ih => exact scans_object (fun p hp => ih p hp (by omega)) (by omega)

end

end Scan

end ResourceApi.Yaml
