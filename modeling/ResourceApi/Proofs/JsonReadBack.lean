import ResourceApi.Format
import ResourceApi.Json.Reader
import ResourceApi.Proofs.TidyValue

/-!
# JSON texts read back

A document is written as JSON over several lines, and the text is read in two stages: characters to
lexemes, and lexemes to a value. Between the stages stand the lexemes of a value (`Json.lexemes`),
which say nothing of how it is laid out.

**Characters** (`lexes_pretty`). What a value is written as is read as its lexemes. Inside quotes
every character is read back from its escape, and what stands between lexemes is blank. A word has
no end of its own, so something has to follow it that ends it: a blank, a mark or the end of the
text.

**Lexemes** (`run_lexemes`). The lexemes of a value bring the machine from before the value to after
it, with the lists and objects around it still open. Objects need distinct keys, since a key that
comes twice is one member.

**Main result** (`json_reads_back`). A document without halves of pairs is read back as it is, the
order of its keys included, so no other document has the same text.
-/

namespace ResourceApi

namespace Json

/-! ## The lexemes of a value -/

mutual

/-- The lexemes that write a value. -/
def lexemes : Json → List Lexeme
  | .str s => [.text s]
  | .arr [] => [.openArr, .closeArr]
  | .arr (x :: xs) => .openArr :: (lexemes x ++ (itemLexemes xs ++ [.closeArr]))
  | .obj [] => [.openObj, .closeObj]
  | .obj ((k, x) :: ms) =>
    .openObj :: .text k :: .colon :: (lexemes x ++ (memberLexemes ms ++ [.closeObj]))
  | v => [.word ((word v).chars?.getD [])]

/-- The lexemes of further items, each after a comma. -/
def itemLexemes : List Json → List Lexeme
  | [] => []
  | x :: xs => .comma :: (lexemes x ++ itemLexemes xs)

def memberLexemes : List (Text × Json) → List Lexeme
  | [] => []
  | (k, x) :: ms => .comma :: .text k :: .colon :: (lexemes x ++ memberLexemes ms)

end

/-! ## From characters to lexemes -/

open Lexeme (scan step start)

/-- Does a character end a word? -/
def endsWord (c : Char) : Bool := Lexeme.isBlank c || c = '"' || (Lexeme.punctuation c).isSome

/-- The code points are characters, and are read as some lexemes. -/
def Lexes (ps : List CodePoint) (ls : List Lexeme) : Prop :=
  ∃ cs : List Char, ps = cs.map .char ∧ ∀ found, scan .between found cs = some (found.reverse ++ ls)

/-- The code points come to an end, or begin with a character that ends a word. -/
def Delimited (ps : List CodePoint) : Prop := ∀ c ∈ ps.head?, ∃ d, c = .char d ∧ endsWord d = true

section

variable {ps : List CodePoint} {ls : List Lexeme} {found : List Lexeme} {cs : List Char}

theorem lexes_nil : Lexes [] [] := ⟨[], rfl, fun found => by simp [scan]⟩

theorem scan_cons {s s' : Scan} {c : Char} {ls : List Lexeme} (h : step s c = some (s', ls)) :
    scan s found (c :: cs) = scan s' (ls.reverse ++ found) cs := by
  cases s <;> simp only [scan, h]

theorem scan_silent {s s' : Scan} {c : Char} (h : step s c = some (s', [])) :
    scan s found (c :: cs) = scan s' found cs := scan_cons h

theorem lexes_mark {c : Char} {l : Lexeme} (hc : Lexeme.punctuation c = some l)
    (hblank : Lexeme.isBlank c = false) (hquote : c ≠ '"') (h : Lexes ps ls) :
    Lexes (.char c :: ps) (l :: ls) := by
  obtain ⟨cs, rfl, hcs⟩ := h
  refine ⟨c :: cs, rfl, fun found => ?_⟩
  have hstep : step .between c = some (.between, [l]) := by
    simp [step, start, hc, hblank, hquote]
  rw [scan_cons hstep, hcs]
  simp

theorem lexes_blank {c : Char} (hc : Lexeme.isBlank c = true) (h : Lexes ps ls) :
    Lexes (.char c :: ps) ls := by
  obtain ⟨cs, rfl, hcs⟩ := h
  refine ⟨c :: cs, rfl, fun found => ?_⟩
  have hstep : step .between c = some (.between, []) := by simp [step, start, hc]
  rw [scan_silent hstep, hcs]

theorem lexes_newline {n : Nat} (h : Lexes ps ls) : Lexes ((newline n).points ++ ps) ls := by
  have hblanks : ∀ k, Lexes ((List.replicate k ' ').map .char ++ ps) ls := by
    intro k
    induction k with
    | zero => exact h
    | succ k ih => exact lexes_blank rfl ih
  exact lexes_blank (c := '\n') rfl (hblanks (2 * n))

theorem delimited_newline {n : Nat} : Delimited ((newline n).points ++ ps) := by
  rintro c ⟨⟩
  exact ⟨'\n', rfl, rfl⟩

/-! ### Words -/

theorem scan_word {w read : List Char} (hw : ∀ c ∈ w, endsWord c = false) :
    scan (.word read) found (w ++ cs) = scan (.word (w.reverse ++ read)) found cs := by
  induction w generalizing read with
  | nil => rfl
  | cons c w ih =>
    have hc : endsWord c = false := hw c List.mem_cons_self
    have hstep : step (.word read) c = some (.word (c :: read), []) := by
      simp only [endsWord] at hc
      simp [step, hc]
    rw [List.cons_append, scan_silent hstep, ih fun d hd => hw d (List.mem_cons_of_mem c hd),
      List.reverse_cons, List.append_assoc, List.singleton_append]

theorem scan_word_end {read : List Char} (hcs : ∀ c ∈ cs.head?, endsWord c = true) :
    scan (.word read) found cs = scan .between (.word read.reverse :: found) cs := by
  cases cs with
  | nil => rfl
  | cons c cs =>
    have hc : endsWord c = true := hcs c rfl
    have hstep : step (.word read) c =
        some ((start c).1, .word read.reverse :: (start c).2) := by
      simp only [endsWord] at hc
      simp [step, hc]
    have halone : step .between c = some ((start c).1, (start c).2) := rfl
    rw [scan_cons hstep, scan_cons halone]
    simp

theorem lexes_word {c : Char} {w : List Char} (hw : (c :: w).any endsWord = false)
    (hps : Delimited ps) (h : Lexes ps ls) :
    Lexes ((c :: w).map .char ++ ps) (.word (c :: w) :: ls) := by
  obtain ⟨cs, rfl, hcs⟩ := h
  refine ⟨c :: w ++ cs, by simp, fun found => ?_⟩
  simp only [List.any_eq_false, Bool.not_eq_true] at hw
  have hc : endsWord c = false := hw c List.mem_cons_self
  simp only [endsWord, Bool.or_eq_false_iff, decide_eq_false_iff_not] at hc
  have hstart : step .between c = some (.word [c], []) := by
    simp only [step, start, hc, Bool.false_eq_true, if_false]
    rw [Option.isSome_eq_false_iff, Option.isNone_iff_eq_none] at hc
    simp [hc]
  have hend : ∀ d ∈ cs.head?, endsWord d = true := by
    intro d hd
    obtain ⟨d', hd', hends⟩ := hps (.char d) (by simpa using hd)
    cases hd'
    exact hends
  rw [List.cons_append, scan_silent hstart,
    scan_word fun d hd => hw d (List.mem_cons_of_mem c hd), scan_word_end hend, hcs]
  simp

/-! ### Quoted texts -/

theorem hexValue_hexDigit (n : Nat) : Lexeme.hexValue (hexDigit n) = some (n % 16) := by
  have hdigits : ∀ d < 16, Lexeme.hexValue (Nat.digitChar d) = some d := by decide
  exact hdigits _ (Nat.mod_lt n (by omega))

theorem addCode_of_lt {n : Nat} (hn : n < 0x20) (read : List CodePoint) :
    Lexeme.addCode n read = .char (Char.ofNat n) :: read := by
  have hcode : CodePoint.ofCode n = .char (Char.ofNat n) := by
    unfold CodePoint.ofCode
    rw [dif_neg (by omega)]
  unfold Lexeme.addCode
  split
  · rw [if_neg (by omega), hcode]
  · rw [hcode]

/-- **A character is read back from its escape.** -/
theorem scan_escape (c : Char) {read : List CodePoint} :
    scan (.text read) found (escape c ++ cs) = scan (.text (.char c :: read)) found cs := by
  have hslash : step (.text read) '\\' = some (.escape read, []) := by simp [step]
  have hletter (letter : Char) (hu : letter ≠ 'u') (hc : Lexeme.escaped letter = some c) :
      scan (.text read) found ('\\' :: letter :: cs) = scan (.text (.char c :: read)) found cs := by
    have hstep : step (.escape read) letter = some (.text (.char c :: read), []) := by
      simp [step, hu, hc]
    rw [scan_silent hslash, scan_silent hstep]
  unfold escape
  split_ifs with hquote hback hn hr ht hb hf hcontrol
  · exact hletter '"' (by decide) (by rw [hquote]; rfl)
  · exact hletter '\\' (by decide) (by rw [hback]; rfl)
  · exact hletter 'n' (by decide) (by rw [hn]; rfl)
  · exact hletter 'r' (by decide) (by rw [hr]; rfl)
  · exact hletter 't' (by decide) (by rw [ht]; rfl)
  · exact hletter 'b' (by decide) (by rw [hb]; rfl)
  · exact hletter 'f' (by decide) (by rw [hf]; rfl)
  · -- four digits, the first two of them zero
    have hzero (seen : Nat) (h : seen < 3) :
        step (.code read seen 0) '0' = some (.code read (seen + 1) 0, []) := by
      simp [step, Lexeme.hexValue, show seen ≠ 3 by omega]
    have hthird : step (.code read 2 0) (hexDigit (c.toNat / 16)) =
        some (.code read 3 (c.toNat / 16), []) := by
      simp [step, hexValue_hexDigit, show c.toNat / 16 % 16 = c.toNat / 16 by omega]
    have hfourth : step (.code read 3 (c.toNat / 16)) (hexDigit c.toNat) =
        some (.text (.char c :: read), []) := by
      simp only [step, hexValue_hexDigit, Option.map_some, if_true, Nat.div_add_mod]
      rw [addCode_of_lt hcontrol, Char.ofNat_toNat]
    have hu : step (.escape read) 'u' = some (.code read 0 0, []) := by simp [step]
    simp only [List.cons_append, List.nil_append]
    rw [scan_silent hslash, scan_silent hu, scan_silent (hzero 0 (by omega)),
      scan_silent (hzero 1 (by omega)), scan_silent hthird, scan_silent hfourth]
  · have hstep : step (.text read) c = some (.text (.char c :: read), []) := by
      simp [step, hquote, hback, hcontrol]
    exact scan_silent hstep

theorem scan_escaped {s : List Char} {read : List CodePoint} :
    scan (.text read) found (s.flatMap escape ++ cs) =
      scan (.text ((s.map CodePoint.char).reverse ++ read)) found cs := by
  induction s generalizing read with
  | nil => rfl
  | cons c s ih =>
    rw [List.flatMap_cons, List.append_assoc, scan_escape, ih, List.map_cons, List.reverse_cons,
      List.append_assoc, List.singleton_append]

theorem escapePoint_chars (s : List Char) :
    (s.map CodePoint.char).flatMap escapePoint = (s.flatMap escape).map .char := by
  rw [List.flatMap_map, List.map_flatMap]
  rfl

/-- **A text is read back from its quotes.** -/
theorem lexes_quoted {s : Text} (hs : s.isWhole = true) (h : Lexes ps ls) :
    Lexes ((quoted s).points ++ ps) (.text s :: ls) := by
  obtain ⟨s, rfl⟩ := Text.isWhole_iff.1 hs
  obtain ⟨cs, rfl, hcs⟩ := h
  have hinside : (Text.ofChars s).points.flatMap escapePoint = (s.flatMap escape).map .char :=
    escapePoint_chars s
  refine ⟨'"' :: (s.flatMap escape ++ '"' :: cs), by simp [quoted, hinside], fun found => ?_⟩
  have hopen : step .between '"' = some (.text [], []) := by simp [step, start, Lexeme.isBlank]
  have hclose : step (.text ((s.map CodePoint.char).reverse ++ [])) '"' =
      some (.between, [.text (Text.ofChars s)]) := by
    simp [step, Text.ofChars]
  rw [scan_silent hopen, scan_escaped, scan_cons hclose, hcs]
  simp

end

/-! ### Values -/

/-- Wherever the value stands, it is read as its lexemes. -/
def ReadAsLexemes (v : Json) : Prop :=
  ∀ {n ps ls}, Delimited ps → Lexes ps ls →
    Lexes ((prettyAt n v).points ++ ps) (lexemes v ++ ls)

section

variable {n : Nat} {ps : List CodePoint} {ls : List Lexeme}

theorem lexes_comma (h : Lexes ps ls) :
    Lexes (.char ',' :: ((newline n).points ++ ps)) (.comma :: ls) :=
  lexes_mark rfl rfl (by decide) (lexes_newline h)

theorem lexes_key {k : Text} (hk : k.isWhole = true) (h : Lexes ps ls) :
    Lexes ((quoted k).points ++ (.char ':' :: .char ' ' :: ps)) (.text k :: .colon :: ls) :=
  lexes_quoted hk (lexes_mark rfl rfl (by decide) (lexes_blank rfl h))

theorem delimited_mark {c : Char} (hc : endsWord c = true) : Delimited (.char c :: ps) := by
  rintro _ ⟨⟩
  exact ⟨c, rfl, hc⟩

theorem lexes_items {xs : List Json} (h : ∀ v ∈ xs, ReadAsLexemes v) (hps : Delimited ps)
    (hls : Lexes ps ls) : Delimited ((prettyItems n xs).points ++ ps) ∧
      Lexes ((prettyItems n xs).points ++ ps) (itemLexemes xs ++ ls) := by
  induction xs with
  | nil => exact ⟨hps, hls⟩
  | cons x xs ih =>
    obtain ⟨hx, hxs⟩ := List.forall_mem_cons.1 h
    obtain ⟨hdelimited, hlexes⟩ := ih hxs
    simp only [prettyItems, Text.points_append, List.append_assoc, itemLexemes, List.cons_append]
    exact ⟨delimited_mark rfl, lexes_comma (hx hdelimited hlexes)⟩

theorem lexes_members {ms : List (Text × Json)}
    (h : ∀ p ∈ ms, p.1.isWhole = true ∧ ReadAsLexemes p.2) (hps : Delimited ps)
    (hls : Lexes ps ls) : Delimited ((prettyMembers n ms).points ++ ps) ∧
      Lexes ((prettyMembers n ms).points ++ ps) (memberLexemes ms ++ ls) := by
  induction ms with
  | nil => exact ⟨hps, hls⟩
  | cons p ms ih =>
    obtain ⟨⟨hk, hx⟩, hms⟩ := List.forall_mem_cons.1 h
    obtain ⟨hdelimited, hlexes⟩ := ih hms
    simp only [prettyMembers, Text.points_append, List.append_assoc, memberLexemes,
      List.cons_append]
    exact ⟨delimited_mark rfl, lexes_comma (lexes_key hk (hx hdelimited hlexes))⟩

end

/-- **A tidy value is read as its lexemes**, when its texts are whole. -/
theorem lexes_pretty {depth : Nat} {v : Json} (h : Tidy depth v)
    (hwhole : v.every Text.isWhole Text.isWhole = true) : ReadAsLexemes v := by
  induction h with
  | text s =>
    intro n ps ls hps hls
    exact lexes_quoted hwhole hls
  | bool b =>
    intro n ps ls hps hls
    cases b with
    | true => exact lexes_word rfl hps hls
    | false => exact lexes_word rfl hps hls
  | @list depth xs _ ih =>
    intro n ps ls hps hls
    cases xs with
    | nil => exact lexes_mark rfl rfl (by decide) (lexes_mark rfl rfl (by decide) hls)
    | cons x xs =>
      have hclose {ps ls} : Lexes ps ls → Lexes (.char ']' :: ps) (.closeArr :: ls) :=
        lexes_mark rfl rfl (by decide)
      have hread : ∀ v ∈ x :: xs, ReadAsLexemes v := fun v hv =>
        ih v hv (every_arr.1 hwhole v hv)
      obtain ⟨hx, hxs⟩ := List.forall_mem_cons.1 hread
      obtain ⟨hdelimited, hlexes⟩ := lexes_items (n := n + 1) hxs
        (delimited_newline (n := n)) (lexes_newline (hclose hls))
      simp only [prettyAt, lexemes, Text.points_append, List.append_assoc, List.cons_append]
      exact lexes_mark rfl rfl (by decide) (lexes_newline (hx hdelimited hlexes))
  | @object depth ms _ _ ih =>
    intro n ps ls hps hls
    cases ms with
    | nil => exact lexes_mark rfl rfl (by decide) (lexes_mark rfl rfl (by decide) hls)
    | cons p ms =>
      have hclose {ps ls} : Lexes ps ls → Lexes (.char '\x7d' :: ps) (.closeObj :: ls) :=
        lexes_mark rfl rfl (by decide)
      have hread : ∀ q ∈ p :: ms, q.1.isWhole = true ∧ ReadAsLexemes q.2 := fun q hq =>
        ⟨(every_obj.1 hwhole q hq).1, ih q hq (every_obj.1 hwhole q hq).2⟩
      obtain ⟨⟨hk, hx⟩, hms⟩ := List.forall_mem_cons.1 hread
      obtain ⟨hdelimited, hlexes⟩ := lexes_members (n := n + 1) hms
        (delimited_newline (n := n)) (lexes_newline (hclose hls))
      simp only [prettyAt, lexemes, Text.points_append, List.append_assoc, List.cons_append]
      exact lexes_mark rfl rfl (by decide) (lexes_newline (lexes_key hk (hx hdelimited hlexes)))

/-! ## From lexemes to the value -/

/-- Before a value, its lexemes lead to after the value. -/
def ReadAsValue (v : Json) : Prop :=
  ∀ {stack ls}, Machine.run ⟨.value, stack⟩ (lexemes v ++ ls) =
    Machine.run ⟨.complete v, stack⟩ ls

section

variable {stack : List Frame} {ls : List Lexeme}

theorem run_items {xs read : List Json} {v : Json} (h : ∀ x ∈ xs, ReadAsValue x) :
    Machine.run ⟨.complete v, .items read :: stack⟩ (itemLexemes xs ++ .closeArr :: ls) =
      Machine.run ⟨.complete (.arr ((v :: read).reverse ++ xs)), stack⟩ ls := by
  induction xs generalizing v read with
  | nil =>
    rw [List.append_nil]
    rfl
  | cons x xs ih =>
    obtain ⟨hx, hxs⟩ := List.forall_mem_cons.1 h
    simp only [itemLexemes, List.cons_append, List.append_assoc]
    have hcomma : Machine.run ⟨.complete v, .items read :: stack⟩
        (.comma :: (lexemes x ++ (itemLexemes xs ++ .closeArr :: ls))) =
      Machine.run ⟨.value, .items (v :: read) :: stack⟩
        (lexemes x ++ (itemLexemes xs ++ .closeArr :: ls)) := rfl
    rw [hcomma, hx, ih hxs, List.reverse_cons, List.append_assoc, List.singleton_append]

theorem run_members {ms read : List (Text × Json)} {k : Text} {v : Json}
    (h : ∀ p ∈ ms, ReadAsValue p.2) :
    Machine.run ⟨.complete v, .members read k :: stack⟩ (memberLexemes ms ++ .closeObj :: ls) =
      Machine.run ⟨.complete (.obj (Assoc.ofList (((k, v) :: read).reverse ++ ms))), stack⟩ ls := by
  induction ms generalizing k v read with
  | nil =>
    rw [List.append_nil]
    rfl
  | cons p ms ih =>
    obtain ⟨hx, hms⟩ := List.forall_mem_cons.1 h
    simp only [memberLexemes, List.cons_append, List.append_assoc]
    have hcomma : Machine.run ⟨.complete v, .members read k :: stack⟩
        (.comma :: .text p.1 :: .colon ::
        (lexemes p.2 ++ (memberLexemes ms ++ .closeObj :: ls))) =
      Machine.run ⟨.value, .members ((k, v) :: read) p.1 :: stack⟩
        (lexemes p.2 ++ (memberLexemes ms ++ .closeObj :: ls)) := rfl
    rw [hcomma, hx, ih hms, List.reverse_cons, List.append_assoc, List.singleton_append]

/-- The lexemes of a value do not begin with the end of a list, so the first item of a list is
read like any other. -/
theorem run_firstItem {depth : Nat} {v : Json} (h : Tidy depth v) :
    Machine.run ⟨.firstItem, stack⟩ (lexemes v ++ ls) =
      Machine.run ⟨.value, .items [] :: stack⟩ (lexemes v ++ ls) := by
  cases h with
  | text s => rfl
  | bool b => cases b <;> rfl
  | @list depth xs _ => cases xs <;> rfl
  | @object depth ms _ _ => cases ms <;> rfl

end

/-- **A tidy value is read from its lexemes.** -/
theorem run_lexemes {depth : Nat} {v : Json} (h : Tidy depth v) : ReadAsValue v := by
  induction h with
  | text s =>
    intro stack ls
    rfl
  | bool b =>
    intro stack ls
    cases b <;> rfl
  | @list depth xs hxs ih =>
    intro stack ls
    cases xs with
    | nil => rfl
    | cons x xs =>
      obtain ⟨hx, hrest⟩ := List.forall_mem_cons.1 ih
      simp only [lexemes, List.cons_append, List.append_assoc, List.nil_append]
      have hopen : Machine.run ⟨.value, stack⟩
          (.openArr :: (lexemes x ++ (itemLexemes xs ++ .closeArr :: ls))) =
        Machine.run ⟨.firstItem, stack⟩ (lexemes x ++ (itemLexemes xs ++ .closeArr :: ls)) := rfl
      rw [hopen, run_firstItem (hxs x List.mem_cons_self), hx, run_items hrest]
      rfl
  | @object depth ms hkeys hms ih =>
    intro stack ls
    cases ms with
    | nil => rfl
    | cons p ms =>
      obtain ⟨hx, hrest⟩ := List.forall_mem_cons.1 ih
      simp only [lexemes, List.cons_append, List.append_assoc, List.nil_append]
      have hopen : Machine.run ⟨.value, stack⟩ (.openObj :: .text p.1 :: .colon ::
          (lexemes p.2 ++ (memberLexemes ms ++ .closeObj :: ls))) =
        Machine.run ⟨.value, .members [] p.1 :: stack⟩
          (lexemes p.2 ++ (memberLexemes ms ++ .closeObj :: ls)) := rfl
      rw [hopen, hx, run_members hrest]
      -- distinct keys are not merged
      exact congrArg (fun ms => Machine.run ⟨.complete (.obj ms), stack⟩ ls)
        (Assoc.ofList_eq_self hkeys)

/-! ## Texts -/

/-- **A tidy value is read back from its text**, when its texts are whole. -/
theorem parse_pretty {depth : Nat} {v : Json} (h : Tidy depth v)
    (hwhole : v.every Text.isWhole Text.isWhole = true) :
    ∃ cs, v.pretty.chars? = some cs ∧ parse cs = some v := by
  have hlexes : Lexes ((prettyAt 0 v).points ++ []) (lexemes v ++ []) :=
    lexes_pretty h hwhole nofun lexes_nil
  obtain ⟨cs, hcs, hscan⟩ := hlexes
  rw [List.append_nil] at hcs
  have htext : v.pretty = Text.ofChars cs := Text.points_inj.1 hcs
  refine ⟨cs, by rw [htext, Text.chars?_ofChars], ?_⟩
  have hlexemes : Lexeme.ofText cs = some (lexemes v) := by
    simpa [Lexeme.ofText] using hscan []
  have hrun : Machine.run ⟨.value, []⟩ (lexemes v) = some ⟨.complete v, []⟩ := by
    have hvalue : Machine.run ⟨.value, []⟩ (lexemes v ++ []) = _ := run_lexemes h
    rwa [List.append_nil] at hvalue
  rw [parse, hlexemes]
  simp only [hrun]

end Json

/-! ## Documents -/

namespace Generator

/-- **Documents are read back from JSON.** The text of a document without halves of pairs is one of
characters, it is read as the document, member for member and in the same order, and it is the text
of no other document. -/
theorem json_reads_back {g : Generator} {d : Document} (h : g.document = .ok d)
    (hwhole : d.toJson.every Text.isWhole Text.isWhole = true) :
    (∃ cs, (Format.json.render d.toJson).chars? = some cs ∧ Json.parse cs = some d.toJson) ∧
      ∀ (g' : Generator) (d' : Document), g'.document = .ok d' →
        d'.toJson.every Text.isWhole Text.isWhole = true →
        Format.json.render d'.toJson = Format.json.render d.toJson → d'.toJson = d.toJson := by
  obtain ⟨cs, hcs, hparse⟩ := Json.parse_pretty (tidy_document h) hwhole
  refine ⟨⟨cs, hcs, hparse⟩, fun g' d' h' hwhole' heq => ?_⟩
  obtain ⟨cs', hcs', hparse'⟩ := Json.parse_pretty (tidy_document h') hwhole'
  have hsame : some cs' = some cs := by
    rw [← hcs', ← hcs]
    exact congrArg Text.chars? heq
  cases hsame
  exact Option.some.inj (hparse'.symm.trans hparse)

end Generator

/-- The document of the blog is read back. -/
theorem Blog.json_read : ∃ d cs, generator.document = .ok d ∧
    d.toJson.every Text.isWhole Text.isWhole = true ∧
    (Format.json.render d.toJson).chars? = some cs ∧ Json.parse cs = some d.toJson := by
  obtain ⟨d, hd⟩ : ∃ d, generator.document = .ok d := ⟨_, rfl⟩
  have hwhole : d.toJson.every Text.isWhole Text.isWhole = true :=
    (Generator.tidy_document hd).every_isWhole (ascii_document hd)
  obtain ⟨⟨cs, hcs, hparse⟩, -⟩ := Generator.json_reads_back hd hwhole
  exact ⟨d, cs, hd, hwhole, hcs, hparse⟩

end ResourceApi
