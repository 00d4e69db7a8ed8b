import ResourceApi.Proofs.Yaml.SingleQuoted
import Mathlib.Tactic.Ring

/-!
# Texts in double quotes read back

Inside double quotes every code point stands for itself or is escaped, and an escaped one is read
back from its letter or its code (`double_read_escape`). A line may end anywhere by a backslash; a
blank after such an end is escaped, since blanks at the head of a line are passed over.

**Reading** (`double_read_lines`, `double_read_line`). A text in double quotes is read back as it
is, on several lines or on one. The indentation must lie before the last column: beyond it a line
might end right after the backslash that escapes a blank.
-/

namespace ResourceApi.Yaml

open Style Quoted

section

variable {mode : Quoted.Mode} {seen : List CodePoint} {tail : List Char} {s : Spot}

/-! ## Escapes -/

theorem shortEscapes_readable : ∀ e ∈ Style.shortEscapes,
    Quoted.shortEscapes.lookup e.2 = some e.1 ∧ isBreak e.2 = false := by
  decide

theorem mem_of_lookup {c d : Char} {table : List (Char × Char)} (h : table.lookup c = some d) :
    (c, d) ∈ table := by
  induction table with
  | nil => cases h
  | cons e table ih =>
    rw [List.lookup_cons] at h
    split at h
    · next heq =>
      cases h
      rw [beq_iff_eq] at heq
      rw [heq]
      exact List.mem_cons_self
    · exact List.mem_cons_of_mem _ (ih h)

/-- The digits of codes are written with capital letters. -/
def capital (d : Char) : Char := if 'a' ≤ d ∧ d ≤ 'f' then d.toUpper else d

theorem hexValue_capital {n : Nat} (hn : n < 16) :
    hexValue? (capital (Nat.digitChar n)) = some n ∧
      isBreak (capital (Nat.digitChar n)) = false := by
  have hdigits : ∀ n < 16, hexValue? (capital (Nat.digitChar n)) = some n ∧
      isBreak (capital (Nat.digitChar n)) = false := by decide
  exact hdigits n hn

theorem hex_succ (width n : Nat) :
    Text.hex (width + 1) n = Nat.digitChar (n / 16 ^ width % 16) :: Text.hex width n := by
  simp only [Text.hex, List.range_succ, List.reverse_append, List.reverse_singleton,
    List.singleton_append, List.map_cons]
  rfl

/-- A code point is read back from its code. -/
theorem ofCode_code (p : CodePoint) : Quoted.ofCode p.code = .ok p := by
  cases p with
  | half n =>
    have hcode : (CodePoint.half n).code = 0xD800 + n.val := rfl
    have hn : n.val < 0x800 := n.isLt
    have hhalf : CodePoint.ofCode (0xD800 + n.val) = .half n := by
      unfold CodePoint.ofCode
      rw [dif_pos ⟨Nat.le_add_right _ _, by omega⟩]
      exact congrArg CodePoint.half (Fin.ext (Nat.add_sub_cancel_left ..))
    unfold Quoted.ofCode
    rw [hcode, if_pos (by omega), hhalf]
  | char c =>
    have hcode : (CodePoint.char c).code = c.toNat := rfl
    have hvalid : c.toNat < 0xD800 ∨ 0xDFFF < c.toNat ∧ c.toNat < 0x110000 := c.valid
    have hchar : CodePoint.ofCode c.toNat = .char c := by
      unfold CodePoint.ofCode
      rw [dif_neg (by omega), Char.ofNat_toNat]
    unfold Quoted.ofCode
    rw [hcode, if_pos (by omega), hchar]

/-- **Digits are read as the code they write.** -/
theorem double_read_code {p : CodePoint} {width value n : Nat}
    (hcode : value * 16 ^ (width + 1) + n % 16 ^ (width + 1) = p.code) :
    Quoted.read true (.code (width + 1) value) seen
        (s.glyphs ((Text.hex (width + 1) n).map capital ++ tail)) =
      Quoted.read true .inside (p :: seen)
        ((s.after ((Text.hex (width + 1) n).map capital)).glyphs tail) := by
  induction width generalizing value s with
  | zero =>
    obtain ⟨hvalue, hbreak⟩ := hexValue_capital (Nat.mod_lt (n / 16 ^ 0) (by omega : 0 < 16))
    have hgo : turn true (.code 1 value) seen (capital (Nat.digitChar (n / 16 ^ 0 % 16))) =
        .go .inside (p :: seen) := by
      have hall : 16 * value + n / 16 ^ 0 % 16 = p.code := by
        simp only [Nat.zero_add, Nat.pow_one, Nat.pow_zero, Nat.div_one] at hcode ⊢
        omega
      simp only [turn, hvalue, if_true, hall, ofCode_code]
    rw [hex_succ, List.map_cons, List.cons_append, quoted_read_go hgo (.inl hbreak)]
    rfl
  | succ width ih =>
    obtain ⟨hvalue, hbreak⟩ :=
      hexValue_capital (Nat.mod_lt (n / 16 ^ (width + 1)) (by omega : 0 < 16))
    have hgo : turn true (.code (width + 1 + 1) value) seen
        (capital (Nat.digitChar (n / 16 ^ (width + 1) % 16))) =
      .go (.code (width + 1) (16 * value + n / 16 ^ (width + 1) % 16)) seen := by
      simp [turn, hvalue]
    have hrest : (16 * value + n / 16 ^ (width + 1) % 16) * 16 ^ (width + 1) +
        n % 16 ^ (width + 1) = p.code := by
      rw [← hcode, Nat.mod_pow_succ (k := width + 1), Nat.pow_succ]
      ring
    rw [hex_succ, List.map_cons, List.cons_append, quoted_read_go hgo (.inl hbreak), ih hrest]
    rfl

theorem double_read_backslash (hmode : Settled mode) :
    Quoted.read true mode seen (s.glyphs ('\\' :: tail)) =
      Quoted.read true .escape (pending mode ++ seen) ((s.next '\\').glyphs tail) := by
  have hgo : turn true mode seen '\\' = .go .escape (pending mode ++ seen) := by
    rw [turn_eq_ordinary hmode rfl]
    rfl
  exact quoted_read_go hgo (.inl rfl)

theorem double_read_codeEscape (letter : Char) (width : Nat) {p : CodePoint}
    (hletter : Quoted.shortEscapes.lookup letter = none)
    (hwidth : codeLength? letter = some (width + 1)) (hbreak : isBreak letter = false)
    (hcode : p.code < 16 ^ (width + 1)) (hmode : Settled mode) :
    Quoted.read true mode seen
        (s.glyphs ('\\' :: letter :: ((Text.hex (width + 1) p.code).map capital ++ tail))) =
      Quoted.read true .inside (p :: (pending mode ++ seen)) ((s.after
        ('\\' :: letter :: (Text.hex (width + 1) p.code).map capital)).glyphs tail) := by
  have hgo : turn true .escape (pending mode ++ seen) letter =
      .go (.code (width + 1) 0) (pending mode ++ seen) := by
    simp [turn, hbreak, hletter, hwidth]
  have hvalue : 0 * 16 ^ (width + 1) + p.code % 16 ^ (width + 1) = p.code := by
    rw [Nat.zero_mul, Nat.zero_add, Nat.mod_eq_of_lt hcode]
  rw [double_read_backslash hmode, quoted_read_go hgo (.inl hbreak), double_read_code hvalue]
  rfl

/-- **An escaped code point is read back.** -/
theorem double_read_escape (p : CodePoint) (hmode : Settled mode) :
    Quoted.read true mode seen (s.glyphs (Style.escape p ++ tail)) =
      Quoted.read true .inside (p :: (pending mode ++ seen))
        ((s.after (Style.escape p)).glyphs tail) := by
  unfold Style.escape
  split
  · next d hd =>
    obtain ⟨c, hc, hlookup⟩ := Option.bind_eq_some_iff.1 hd
    obtain rfl : .char c = p := by
      cases p with
      | char e => rw [Option.some.inj hc]
      | half n => cases hc
    obtain ⟨hback, hbreak⟩ := shortEscapes_readable (c, d) (mem_of_lookup hlookup)
    have hgo : turn true .escape (pending mode ++ seen) d =
        .go .inside (.char c :: (pending mode ++ seen)) := by
      simp [turn, hbreak, hback]
    rw [List.cons_append, double_read_backslash hmode, List.cons_append,
      quoted_read_go hgo (.inl hbreak)]
    rfl
  · have hmax : p.code < 16 ^ 8 := by
      cases p with
      | char c =>
        have hbound : c.toNat < 0xD800 ∨ 0xDFFF < c.toNat ∧ c.toNat < 0x110000 := c.valid
        show c.toNat < _
        omega
      | half n =>
        have hn := n.isLt
        show 0xD800 + n.val < _
        omega
    unfold Text.codeEscape
    split_ifs with hshort hmiddle
    · exact double_read_codeEscape 'x' 1 rfl rfl rfl (by omega) hmode
    · exact double_read_codeEscape 'u' 3 rfl rfl rfl (by omega) hmode
    · exact double_read_codeEscape 'U' 7 rfl rfl rfl hmax hmode

theorem escape_visible (q : CodePoint) :
    ∀ c ∈ Style.escape q, isBreak c = false ∧ isReadable c = true ∧ c ≠ '\r' := by
  have hshort : ∀ e ∈ Style.shortEscapes, isBreak e.2 = false ∧ isReadable e.2 = true ∧
      e.2 ≠ '\r' := by decide
  have hdigit : ∀ n < 16, isBreak (capital (Nat.digitChar n)) = false ∧
      isReadable (capital (Nat.digitChar n)) = true ∧ capital (Nat.digitChar n) ≠ '\r' := by
    decide
  have hcode (letter : Char) (width n : Nat) (hletter : isBreak (capital letter) = false ∧
      isReadable (capital letter) = true ∧ capital letter ≠ '\r') :
      ∀ c ∈ ('\\' :: letter :: Text.hex width n).map capital,
        isBreak c = false ∧ isReadable c = true ∧ c ≠ '\r' := by
    simp only [List.map_cons, List.forall_mem_cons]
    refine ⟨by decide, hletter, ?_⟩
    simp only [Text.hex, List.map_map, List.forall_mem_map]
    exact fun i _ => hdigit _ (Nat.mod_lt _ (by omega))
  unfold Style.escape
  split
  · next d hd =>
    obtain ⟨c, -, hlookup⟩ := Option.bind_eq_some_iff.1 hd
    simp only [List.forall_mem_cons]
    exact ⟨by decide, hshort _ (mem_of_lookup hlookup), nofun⟩
  · show ∀ c ∈ (Text.codeEscape q.code).map capital, _
    unfold Text.codeEscape
    split_ifs
    · exact hcode 'x' 2 _ (by decide)
    · exact hcode 'u' 4 _ (by decide)
    · exact hcode 'U' 8 _ (by decide)

theorem length_escape_le (q : CodePoint) : (Style.escape q).length ≤ 10 := by
  have hhex (width n : Nat) : (Text.hex width n).length = width := by simp [Text.hex]
  unfold Style.escape
  split
  · simp
  · rw [List.length_map]
    unfold Text.codeEscape
    split_ifs <;> simp [hhex]

/-! ## Characters that stand for themselves -/

/-- The reading does not stand at the head of a line, where blanks are passed over. -/
def Kept (mode : Quoted.Mode) : Prop := ∀ first more, mode ≠ .lines first more

theorem Kept.inside : Kept .inside := nofun

theorem Kept.blanks (run : List Char) : Kept (.blanks run) := nofun

theorem bare_eq_some {p : CodePoint} {c : Char} (h : bare? p = some c) :
    p = .char c ∧ c ≠ '"' ∧ c ≠ '\\' ∧ c ≠ '\t' ∧ isBreak c = false := by
  cases p with
  | half n => cases h
  | char d =>
    replace h : (if isShownInQuotes d = true then some d else none) = some c := h
    split_ifs at h with hshown
    cases h
    simp only [isShownInQuotes, Bool.and_eq_true, bne_iff_ne, Bool.not_eq_true'] at hshown
    obtain ⟨⟨⟨hquote, hslash⟩, hbreak⟩, hrange⟩ := hshown
    refine ⟨rfl, hquote, hslash, ?_, hbreak⟩
    rintro rfl
    cases hrange

theorem double_read_bare {p : CodePoint} {c : Char} (h : bare? p = some c) (hmode : Settled mode)
    (hkept : c = ' ' → Kept mode) :
    ∃ mode' seen', Settled mode' ∧ Kept mode' ∧
      pending mode' ++ seen' = p :: (pending mode ++ seen) ∧
      Quoted.read true mode seen (s.glyphs (c :: tail)) =
        Quoted.read true mode' seen' ((s.next c).glyphs tail) := by
  obtain ⟨rfl, hquote, hslash, htab, hbreak⟩ := bare_eq_some h
  by_cases hblank : c = ' '
  · subst hblank
    cases hmode with
    | inside =>
      have hgo : turn true .inside seen ' ' = .go (.blanks [' ']) seen := by
        simp [turn, ordinary]
      exact ⟨.blanks [' '], seen, .blanks _, .blanks _, rfl, quoted_read_go hgo (.inl rfl)⟩
    | blanks run =>
      have hgo : turn true (.blanks run) seen ' ' = .go (.blanks (' ' :: run)) seen := by
        simp [turn]
      exact ⟨.blanks (' ' :: run), seen, .blanks _, .blanks _, rfl, quoted_read_go hgo (.inl rfl)⟩
    | lines first more => exact absurd rfl (hkept rfl first more)
  · have hspace : isSpace c = false := by simp [isSpace, hblank, htab, hbreak]
    have hgo : turn true mode seen c = .go .inside (.char c :: (pending mode ++ seen)) := by
      rw [turn_eq_ordinary hmode hspace]
      simp [ordinary, hblank, htab, hbreak, hquote, hslash]
    exact ⟨.inside, _, .inside, .inside, rfl, quoted_read_go hgo (.inl hbreak)⟩

theorem double_read_close (hmode : Settled mode) :
    Quoted.read true mode seen (s.glyphs ('"' :: tail)) =
      .ok (⟨(pending mode ++ seen).reverse⟩, (s.next '"').glyphs tail) := by
  have hclose : turn true mode seen '"' = .close (pending mode ++ seen) := by
    rw [turn_eq_ordinary hmode rfl]
    rfl
  rw [Spot.glyphs_cons, Quoted.read]
  simp [hclose]

/-! ## Texts -/

/-- **A text in double quotes on one line is read back.** -/
theorem double_read_line {ps : List CodePoint} (hmode : Settled mode) (hkept : Kept mode) :
    Quoted.read true mode seen (s.glyphs (ps.flatMap inQuotes ++ '"' :: tail)) =
      .ok (⟨(pending mode ++ seen).reverse ++ ps⟩,
        (s.after (ps.flatMap inQuotes ++ ['"'])).glyphs tail) := by
  induction ps generalizing mode seen s with
  | nil => simpa using double_read_close hmode
  | cons p ps ih =>
    rw [List.flatMap_cons, List.append_assoc]
    cases hbare : bare? p with
    | some c =>
      obtain ⟨mode', seen', hmode', hkept', hpending, hread⟩ :=
        double_read_bare hbare hmode fun _ => hkept
      have hinQuotes : inQuotes p = [c] := by simp [inQuotes, hbare]
      rw [hinQuotes, List.singleton_append, hread, ih hmode' hkept', hpending]
      simp
    | none =>
      have hinQuotes : inQuotes p = Style.escape p := by simp [inQuotes, hbare]
      rw [hinQuotes, double_read_escape p hmode, ih .inside .inside]
      simp [pending]

theorem double_read_lineEnd {indent : Nat} (hpos : 0 < indent) (hmode : Settled mode) :
    Quoted.read true mode seen (s.glyphs ('\\' :: (newline indent ++ tail))) =
      Quoted.read true (.lines none []) (pending mode ++ seen)
        ((s.after ('\\' :: newline indent)).glyphs tail) := by
  have hgo : turn true .escape (pending mode ++ seen) '\n' =
      .go (.lines none []) (pending mode ++ seen) := rfl
  have hmarker : beginsWithMarker (List.replicate indent ' ' ++ tail) = false :=
    beginsWithMarker_blanks hpos
  rw [double_read_backslash hmode, newline, List.cons_append, quoted_read_go hgo (.inr hmarker),
    quoted_read_indent]
  rfl

/-- On the next line the text goes on behind a backslash if it goes on with a blank, and at once
otherwise. -/
theorem double_read_continuation {indent : Nat} {rest : List CodePoint} (hpos : 0 < indent)
    (hmode : Settled mode) :
    Quoted.read true mode seen (s.glyphs (continuation indent rest ++ tail)) =
      Quoted.read true (if beginsWithBlank rest then .escape else .lines none [])
        (pending mode ++ seen) ((s.after (continuation indent rest)).glyphs tail) := by
  unfold continuation
  split_ifs with hbegins
  · simp only [List.cons_append, List.append_assoc]
    rw [double_read_lineEnd hpos hmode, double_read_backslash (.lines _ _), List.nil_append]
    simp [pending, foldedBack]
  · rw [List.append_nil, List.cons_append, double_read_lineEnd hpos hmode]

theorem beginsWithBlank_iff {p : CodePoint} {rest : List CodePoint} {c : Char}
    (h : bare? p = some c) : beginsWithBlank (p :: rest) = true ↔ c = ' ' := by
  rw [(bare_eq_some h).1]
  simp [beginsWithBlank]

theorem double_read_escapedBlank :
    Quoted.read true .escape seen (s.glyphs (' ' :: tail)) =
      Quoted.read true .inside (.char ' ' :: seen) ((s.next ' ').glyphs tail) :=
  quoted_read_go rfl (.inl rfl)

/-- **A text in double quotes is read back**, wherever its lines are ended. The second part is about
a blank at the head of a line, which stands after a backslash. -/
theorem double_read_wrapped {indent : Nat} (hpos : 0 < indent) (hindent : indent < lastColumn)
    {isFirst isFresh : Bool} {column : Nat} {ps : List CodePoint} :
    (∀ {mode : Quoted.Mode} {seen : List CodePoint} {s : Spot}, Settled mode →
      (beginsWithBlank ps = true → Kept mode) →
      Quoted.read true mode seen
          (s.glyphs (wrapEscaped indent isFirst isFresh column ps ++ '"' :: tail)) =
        .ok (⟨(pending mode ++ seen).reverse ++ ps⟩,
          (s.after (wrapEscaped indent isFirst isFresh column ps ++ ['"'])).glyphs tail)) ∧
    (column ≤ lastColumn → beginsWithBlank ps = true → ∀ {seen : List CodePoint} {s : Spot},
      Quoted.read true .escape seen
          (s.glyphs (wrapEscaped indent isFirst isFresh column ps ++ '"' :: tail)) =
        .ok (⟨seen.reverse ++ ps⟩,
          (s.after (wrapEscaped indent isFirst isFresh column ps ++ ['"'])).glyphs tail)) := by
  fun_induction wrapEscaped indent isFirst isFresh column ps with
  | case1 isFirst isFresh column =>
    refine ⟨fun hmode _ => ?_, fun _ hfalse => nomatch hfalse⟩
    simpa using double_read_close hmode
  | case2 isFirst isFresh column p rest isInner c hbare hfold ih =>
    refine ⟨fun {mode seen s} hmode _ => ?_, fun hcolumn => ?_⟩
    · by_cases hc : c = ' '
      · have hbegins : beginsWithBlank (p :: rest) = true := (beginsWithBlank_iff hbare).2 hc
        have hp : p = .char ' ' := hc ▸ (bare_eq_some hbare).1
        rw [List.append_assoc, double_read_continuation hpos hmode, if_pos hbegins, hc,
          List.cons_append, double_read_escapedBlank, ih.1 .inside fun _ => .inside]
        simp [pending, hp]
      · have hbegins : beginsWithBlank (p :: rest) ≠ true :=
          fun h => hc ((beginsWithBlank_iff hbare).1 h)
        rw [List.append_assoc, double_read_continuation hpos hmode, if_neg hbegins,
          List.cons_append]
        obtain ⟨mode', seen', hmode', hkept', hpending, hread⟩ := double_read_bare hbare
          (Settled.lines none []) fun h => absurd h hc
        rw [hread, ih.1 hmode' fun _ => hkept', hpending]
        simp [pending, foldedBack]
    · simp only [Bool.and_eq_true, decide_eq_true_eq] at hfold
      omega
  | case3 isFirst isFresh column p rest isInner c hbare hfold ih =>
    refine ⟨fun {mode seen s} hmode hkept => ?_, fun _ hbegins {seen s} => ?_⟩
    · obtain ⟨mode', seen', hmode', hkept', hpending, hread⟩ := double_read_bare hbare hmode
        fun hc => hkept ((beginsWithBlank_iff hbare).2 hc)
      rw [List.cons_append, hread, ih.1 hmode' fun _ => hkept', hpending]
      simp
    · have hc : c = ' ' := (beginsWithBlank_iff hbare).1 hbegins
      have hp : p = .char ' ' := hc ▸ (bare_eq_some hbare).1
      rw [hc, List.cons_append, double_read_escapedBlank, ih.1 .inside fun _ => .inside]
      simp [pending, hp]
  | case4 isFirst isFresh column p rest isInner hbare after hfold ih =>
    refine ⟨fun {mode seen s} hmode _ => ?_, fun _ hbegins => ?_⟩
    · rw [List.append_assoc, double_read_escape p hmode, List.append_assoc]
      rw [double_read_continuation hpos .inside]
      split_ifs with hbegins
      · have hcolumn : continued indent rest ≤ lastColumn := by
          simp only [continued, hbegins, if_true]
          exact hindent
        rw [ih.2 hcolumn hbegins]
        simp [pending]
      · rw [ih.1 (.lines _ _) fun h => absurd h hbegins]
        simp [pending, foldedBack]
    · have hp : p = .char ' ' := by simpa [beginsWithBlank] using hbegins
      rw [hp] at hbare
      cases hbare
  | case5 isFirst isFresh column p rest isInner hbare after hfold ih =>
    refine ⟨fun {mode seen s} hmode _ => ?_, fun _ hbegins => ?_⟩
    · rw [List.append_assoc, double_read_escape p hmode, ih.1 .inside fun _ => .inside]
      simp [pending]
    · have hp : p = .char ' ' := by simpa [beginsWithBlank] using hbegins
      rw [hp] at hbare
      cases hbare

end

end ResourceApi.Yaml
