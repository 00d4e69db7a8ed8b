import ResourceApi.Format
import ResourceApi.Proofs.Yaml.BuiltGraph
import ResourceApi.Proofs.Yaml.GraphData
import ResourceApi.Proofs.Yaml.PrintedText

/-!
# Documents are read back from YAML

The text of a tidy object is read as the object with its texts read back, or it is not read at all
(`read_print`). Two things are lost on the way, and nothing else:

* a text in single quotes that holds a next line mark comes back without it (`keepsText`), and
* a key on its line whose colon is out of reach makes the whole text unreadable (`isReached`).

**What is read back** (`rereadValue_eq_ofJson_iff`). A value is read back as itself when its keys
and texts are. Keys that came back as one key would have been merged, and the object would be
smaller.

**Main result** (`Generator.yaml_reads_back_iff`). A document is read back, with its members in the
same order, exactly when each of its keys and texts is kept.
-/

namespace ResourceApi.Yaml

open Json (Tidy every every_str every_arr every_obj)

variable {n : Nat} {v : Json}

/-- Does the key stand on its line with the colon within reach, or on a line of its own, and is it
read back as it is? -/
def keepsKey (key : Text) : Bool := keepsText key && Scan.isReached key

/-! ## Texts and keys -/

section

variable {t : Text}

theorem keepsText_of_notMem (h : .char '\x85' ∉ t.points) : keepsText t = true := by
  unfold keepsText
  cases hstyle : Style.ofText t with
  | plain cs => rfl
  | double ps => rfl
  | single cs =>
    obtain ⟨rfl, -⟩ := ofText_single hstyle
    simpa [Text.ofChars] using h

theorem length_line_le (t : Text) : (Style.line t).length ≤ 10 * t.points.length + 2 := by
  have hflatMap {α : Type} (f : α → List Char) (xs : List α) (h : ∀ x, (f x).length ≤ 10) :
      (xs.flatMap f).length ≤ 10 * xs.length := by
    induction xs with
    | nil => exact Nat.zero_le _
    | cons x xs ih =>
      have hx := h x
      rw [List.flatMap_cons, List.length_append, List.length_cons]
      omega
  unfold Style.line
  cases hstyle : Style.ofText t with
  | plain cs =>
    obtain ⟨rfl, -⟩ := ofText_plain hstyle
    simp only [Text.ofChars, List.length_map]
    omega
  | single cs =>
    obtain ⟨rfl, -⟩ := ofText_single hstyle
    have hword := hflatMap (fun c => if c = '\'' then ['\'', '\''] else [c]) cs fun c => by
      split_ifs <;> simp
    simp only [Style.word, if_true, Text.ofChars, List.length_map, List.length_cons,
      List.length_append, List.length_nil] at hword ⊢
    omega
  | double ps =>
    obtain rfl := ofText_double hstyle
    have hquoted := hflatMap Style.inQuotes t.points fun q => by
      unfold Style.inQuotes
      split
      · simp
      · exact length_escape_le q
    simp only [List.length_cons, List.length_append, List.length_nil]
    omega

/-- **Short keys are within reach**, however they are written. -/
theorem isReached_of_length (h : t.points.length ≤ 102) : Scan.isReached t = true := by
  have hline := length_line_le t
  have hreach : (Style.line t).length ≤ Scan.keyReach := by
    have : 10 * 102 + 2 ≤ Scan.keyReach := by decide
    omega
  simp [Scan.isReached, hreach]

theorem keepsText_of_isAscii (h : t.isAscii = true) : keepsText t = true := by
  refine keepsText_of_notMem fun hmem => ?_
  have hcode := List.all_eq_true.1 h _ hmem
  exact absurd hcode (by decide)

theorem keepsKey_of_isShortAscii (h : t.isShortAscii = true) : keepsKey t = true := by
  obtain ⟨hlength, hascii⟩ := Bool.and_eq_true_iff.1 h
  have hlength : t.points.length ≤ 100 := of_decide_eq_true hlength
  rw [keepsKey, keepsText_of_isAscii hascii, isReached_of_length (by omega)]
  rfl

end

/-! ## Values -/

theorem rereadItems_eq_map (xs : List Json) : rereadItems xs = xs.map rereadValue := by
  induction xs with
  | nil => rfl
  | cons x xs ih => rw [rereadItems, ih, List.map_cons]

theorem rereadMembers_eq_map (ms : List (Text × Json)) :
    rereadMembers ms = ms.map fun m => (rereadText m.1, rereadValue m.2) := by
  induction ms with
  | nil => rfl
  | cons m ms ih => rw [rereadMembers, ih, List.map_cons]

theorem rereadValue_obj_eq_iff {ms : List (Text × Json)} (hkeys : (Assoc.keys ms).Nodup) :
    rereadValue (.obj ms) = Data.ofJson (.obj ms) ↔
      ∀ m ∈ ms, rereadText m.1 = m.1 ∧ rereadValue m.2 = Data.ofJson m.2 := by
  have hinjective : Function.Injective fun m : Text × Data => ((.str m.1, m.2) : Data × Data) := by
    rintro ⟨k, d⟩ ⟨k', d'⟩ heq
    obtain ⟨hkey, hvalue⟩ := Prod.mk.inj heq
    exact Prod.ext (Data.str.inj hkey) hvalue
  have hmembers : Data.ofMembers ms =
      (ms.map fun m => (m.1, Data.ofJson m.2)).map fun m => (.str m.1, m.2) := by
    rw [Data.ofMembers_eq_map, List.map_map]
    rfl
  have hdistinct : (Assoc.keys (ms.map fun m => (m.1, Data.ofJson m.2))).Nodup := by
    simpa [Assoc.keys, Function.comp_def] using hkeys
  rw [rereadValue, Data.ofJson, Data.map.injEq, hmembers, hinjective.list_map.eq_iff,
    Assoc.ofList_eq_iff hdistinct (by rw [rereadMembers_eq_map, List.length_map, List.length_map]),
    rereadMembers_eq_map, List.map_inj_left]
  simp only [Prod.mk.injEq]

/-- **A tidy value is read back as it is** exactly when its keys and texts are. -/
theorem rereadValue_eq_ofJson_iff (h : Tidy n v) :
    rereadValue v = Data.ofJson v ↔ v.every keepsText keepsText = true := by
  induction h with
  | text s => rw [rereadValue, Data.ofJson, Data.str.injEq, rereadText_eq_self_iff, every_str]
  | bool b => exact iff_of_true rfl rfl
  | @list n xs _ ih =>
    rw [rereadValue, Data.ofJson, Data.list.injEq, rereadItems_eq_map, Data.ofItems_eq_map,
      List.map_inj_left, every_arr]
    exact forall₂_congr ih
  | @object n ms hkeys _ ih =>
    rw [rereadValue_obj_eq_iff hkeys, every_obj]
    refine forall₂_congr fun m hm => ?_
    rw [rereadText_eq_self_iff, ih m hm]

theorem every_keepsKey_iff (h : Tidy n v) :
    v.every keepsKey keepsText = true ↔
      v.every keepsText keepsText = true ∧ Scan.isFound v = true := by
  unfold Scan.isFound
  induction h with
  | text s => simp
  | bool b => simp
  | @list n xs _ ih =>
    simp only [every_arr, ← forall₂_and]
    exact forall₂_congr ih
  | @object n ms _ _ ih =>
    simp only [every_obj, ← forall₂_and]
    refine forall₂_congr fun m hm => ?_
    rw [ih m hm, keepsKey, Bool.and_eq_true]
    tauto

theorem every_keeps_of_isAscii (h : Tidy n v)
    (hv : v.every Text.isShortAscii Text.isAscii = true) :
    v.every keepsKey keepsText = true :=
  h.every_mono (fun _ => keepsKey_of_isShortAscii) (fun _ => keepsText_of_isAscii) hv

/-! ## Texts -/

section

variable {cs : List Char} {ls : List Lexeme}

theorem graph_of_outcome {reader : Reader} (hreadable : cs.all isReadable = true)
    (h : (Scanned.ofText cs).outcome = some ls) {b : Builder} {graph? : Option Graph}
    (hrun : Builder.run reader.maxDepth {} ls = .ok b) (hfinish : b.finish? = some graph?) :
    graph reader cs = .ok graph? := by
  unfold Scanned.outcome at h
  unfold graph
  rw [if_pos hreadable]
  cases hdefect : (Scanned.ofText cs).defect with
  | some d => simp [hdefect] at h
  | none =>
    obtain rfl : (Scanned.ofText cs).lexemes = ls := by simpa [hdefect] using h
    simp only [hrun, hdefect, hfinish]

theorem graph_of_defect (reader : Reader) (hreadable : cs.all isReadable = true)
    (h : (Scanned.ofText cs).outcome = none) : ∃ d, graph reader cs = .error d := by
  unfold Scanned.outcome at h
  unfold graph
  rw [if_pos hreadable]
  cases hdefect : (Scanned.ofText cs).defect with
  | none => simp [hdefect] at h
  | some d =>
    cases hrun : Builder.run reader.maxDepth {} (Scanned.ofText cs).lexemes with
    | ok b => exact ⟨d, by simp only [hrun, hdefect]⟩
    | error d' => exact ⟨d', by simp only [hrun, hdefect]⟩

end

section

variable {m : Text × Json} {ms : List (Text × Json)}

theorem print_obj (ms : List (Text × Json)) :
    Yaml.print (.obj ms) = String.ofList (printAt (.mark 0) (.obj ms) ++ ['\n']) := rfl

/-- **The text of a tidy object** is read as the object with its texts read back, if the colons of
all its keys are within reach, and is not read otherwise. -/
theorem read_print {reader : Reader} (h : Tidy n (.obj (m :: ms)))
    (hmax : 2 * n < Style.lastColumn) (hdepth : n ≤ reader.maxDepth) :
    if Scan.isFound (.obj (m :: ms)) then
      read (printAt (.mark 0) (.obj (m :: ms)) ++ ['\n']) reader =
        .ok (rereadValue (.obj (m :: ms)))
    else ∃ d, read (printAt (.mark 0) (.obj (m :: ms)) ++ ['\n']) reader = .error d := by
  have hprinted : ∀ c ∈ printAt (.mark 0) (.obj (m :: ms)) ++ ['\n'], IsPrinted c :=
    List.forall_mem_append.2 ⟨isPrinted_printAt h _, isPrinted_newline 0⟩
  have hreadable : (printAt (.mark 0) (.obj (m :: ms)) ++ ['\n']).all isReadable = true :=
    List.all_eq_true.2 fun c hc => (hprinted c hc).1
  have houtcome := lexemes_of_print (List.cons_ne_nil m ms) h hmax
  unfold read
  rw [unifyBreaks_eq_self hprinted]
  split_ifs with hfound
  · obtain ⟨b, nodes, hrun, hfinish, hheld⟩ := Builder.graph_of_lexemes h hdepth
    rw [graph_of_outcome hreadable (houtcome.trans (if_pos hfound)) hrun hfinish]
    exact data_of_holds reader hheld
  · obtain ⟨d, hd⟩ := graph_of_defect reader hreadable (houtcome.trans (if_neg hfound))
    exact ⟨d, by rw [hd]; rfl⟩

/-- **A tidy object is read back from its text** exactly when its keys and texts are kept, by every
reader that goes as deep as the object. -/
theorem render_reads_back_iff (h : Tidy n (.obj (m :: ms))) (hmax : 2 * n < Style.lastColumn) :
    ∃ cs, (Format.yaml.render (.obj (m :: ms))).chars? = some cs ∧
      ∀ reader : Reader, n ≤ reader.maxDepth →
        (read cs reader = .ok (Data.ofJson (.obj (m :: ms))) ↔
          every keepsKey keepsText (.obj (m :: ms)) = true) := by
  refine ⟨printAt (.mark 0) (.obj (m :: ms)) ++ ['\n'], ?_, fun reader hdepth => ?_⟩
  · show (Text.ofString (Yaml.print (.obj (m :: ms)))).chars? = _
    rw [print_obj, Text.ofString, String.toList_ofList, Text.chars?_ofChars]
  · have hread := read_print h hmax hdepth
    rw [every_keepsKey_iff h, ← rereadValue_eq_ofJson_iff h]
    split_ifs at hread with hfound
    · rw [hread, Except.ok.injEq, and_iff_left hfound]
    · obtain ⟨d, hd⟩ := hread
      rw [hd]
      refine iff_of_false ?_ fun hkept => hfound hkept.2
      intro hok
      cases hok

end

end Yaml

/-! ## Documents -/

namespace Generator

/-- **Documents are read back from YAML** exactly when each key and text of them is kept: no text in
single quotes holds a next line mark, and no key on its line keeps its colon out of reach. Then the
members are in the same order everywhere. The reader has to go as deep as documents do; nothing else
about it matters. -/
theorem yaml_reads_back_iff {g : Generator} {d : Document} (h : g.document = .ok d) :
    ∃ cs, (Format.yaml.render d.toJson).chars? = some cs ∧
      ∀ reader : Yaml.Reader, 15 ≤ reader.maxDepth →
        (Yaml.read cs reader = .ok (Data.ofJson d.toJson) ↔
          d.toJson.every Yaml.keepsKey Yaml.keepsText = true) :=
  Yaml.render_reads_back_iff (tidy_document h) (by decide)

end Generator

/-- The document of the blog is read back. -/
theorem Blog.yaml_read : ∃ d cs, generator.document = .ok d ∧
    (Format.yaml.render d.toJson).chars? = some cs ∧
      Yaml.read cs = .ok (Data.ofJson d.toJson) := by
  obtain ⟨d, hd⟩ : ∃ d, generator.document = .ok d := ⟨_, rfl⟩
  have hkept := Yaml.every_keeps_of_isAscii (Generator.tidy_document hd) (ascii_document hd)
  obtain ⟨cs, hcs, hread⟩ := Generator.yaml_reads_back_iff hd
  exact ⟨d, cs, hd, hcs, (hread .standard (by decide)).2 hkept⟩

namespace Generator

variable {g : Generator} {d : Document} {title : Text}

theorem document_title (h : g.document = .ok d) (title : Text) :
    ({ g with options := { g.options with title } } : Generator).document =
      .ok { d with info := { d.info with title } } := by
  obtain ⟨schemes, schemas, paths, hschemes, hschemas, hpaths, rfl⟩ := document_eq_ok_iff.1 h
  exact document_eq_ok_iff.2 ⟨schemes, schemas, paths, hschemes, hschemas, hpaths, rfl⟩

theorem every_title_iff {key text : Text → Bool} (h : d.toJson.every key text = true) :
    ({ d with info := { d.info with title } } : Document).toJson.every key text = true ↔
      text title = true := by
  have hparts : Document.requirements { d with info := { d.info with title } } = d.requirements ∧
    Document.components { d with info := { d.info with title } } = d.components := ⟨rfl, rfl⟩
  simp only [Document.toJson, Document.members, Info.members, hparts, Json.every_obj,
    List.forall_mem_append, Json.member, List.forall_mem_singleton, Json.every_str] at h ⊢
  obtain ⟨⟨⟨⟨⟨hopenapi, hinfo, ⟨⟨⟨hkey, -⟩, hversion⟩, hdescription⟩, hsummary⟩, htags⟩, hpaths⟩,
    hcomponents⟩, hsecurity⟩ := h
  constructor
  · rintro ⟨⟨⟨⟨⟨-, -, ⟨⟨⟨-, htitle⟩, -⟩, -⟩, -⟩, -⟩, -⟩, -⟩, -⟩
    exact htitle
  · intro htitle
    exact ⟨⟨⟨⟨⟨hopenapi, hinfo, ⟨⟨⟨hkey, htitle⟩, hversion⟩, hdescription⟩, hsummary⟩, htags⟩,
      hpaths⟩, hcomponents⟩, hsecurity⟩

end Generator

/-- A title with a next line mark is written in single quotes, and the document of the blog with
this title is not read back. -/
theorem Blog.title_broken : ∃ d cs,
    ({ generator with options := { generator.options with title := "a\x85b" } } :
      Generator).document = .ok d ∧
    d.toJson.every Text.isWhole Text.isWhole = true ∧
    (Format.yaml.render d.toJson).chars? = some cs ∧
      Yaml.read cs ≠ .ok (Data.ofJson d.toJson) := by
  obtain ⟨d, hd⟩ : ∃ d, generator.document = .ok d := ⟨_, rfl⟩
  have hkept := Yaml.every_keeps_of_isAscii (Generator.tidy_document hd) (ascii_document hd)
  have hwhole := (Generator.tidy_document hd).every_isWhole (ascii_document hd)
  have hd' := Generator.document_title hd "a\x85b"
  obtain ⟨cs, hcs, hread⟩ := Yaml.render_reads_back_iff (Generator.tidy_document hd') (by decide)
  refine ⟨_, cs, hd', (Generator.every_title_iff hwhole).2 (by decide), hcs, fun h => ?_⟩
  have htitle := (Generator.every_title_iff hkept).1 ((hread .standard (by decide)).1 h)
  exact absurd htitle (by decide)

end ResourceApi
