import ResourceApi.Proofs.Member
import ResourceApi.Proofs.OpenOperation
import ResourceApi.Proofs.WrittenDefinition
import ResourceApi.Proofs.Words
import Mathlib.Data.List.TakeWhile

/-!
# How access rules are written down

One and the same access can be put in many ways: the order of the rules, a rule said twice, one rule
for several operations or a rule for each, a list of operations or a text with commas. None of them
decides anything.

**What rules say** (`Speaks`). Whether an action is open depends on the kinds and conditions of the
rules that concern it and on nothing else. More that is allowed, or less that is denied, keeps open
what is open (`AlwaysAllowed.of_speaks`); every way to put rules in other words is judged by this.

**Texts with commas** (`splitOperations_join`). The names that are joined by commas, with any blanks
around them, are read back.

**Main result** (`openness_independent_of_writing`).
-/

namespace ResourceApi

open Checked

/-! ## What rules say -/

/-- Some rule of a kind, under a condition, concerns an action. -/
def Speaks (rules : List AccessRule) (kind : Text) (condition : Condition) (a : Action) : Prop :=
  ∃ rule ∈ rules, rule.kind = kind ∧ rule.condition = condition ∧ rule.Concerns a

section

variable {rules rules' : List AccessRule} {rule : AccessRule} {kind : Text} {condition : Condition}
  {a : Action}

theorem alwaysAllowed_iff_speaks : AlwaysAllowed rules a ↔
    Speaks rules "allow" (.literal true) a ∧
      ∀ condition, Speaks rules "deny" condition a → condition = .literal false := by
  constructor
  · intro h
    obtain ⟨rule, hrule, hkind, hconcerns, hcondition⟩ := h.allowed
    refine ⟨⟨rule, hrule, hkind, hcondition, hconcerns⟩, ?_⟩
    intro condition hdeny
    obtain ⟨rule, hrule, hkind, hcondition, hconcerns⟩ := hdeny
    rw [← hcondition]
    exact h.not_denied rule hrule hkind hconcerns
  · intro h
    obtain ⟨⟨rule, hrule, hkind, hcondition, hconcerns⟩, hdeny⟩ := h
    refine ⟨⟨rule, hrule, hkind, hconcerns, hcondition⟩, ?_⟩
    intro rule hrule hkind hconcerns
    exact hdeny _ ⟨rule, hrule, hkind, rfl, hconcerns⟩

/-- **An open action stays open** when no less is allowed and no more is denied. -/
theorem AlwaysAllowed.of_speaks (h : AlwaysAllowed rules a)
    (hallow : ∀ condition, Speaks rules "allow" condition a → Speaks rules' "allow" condition a)
    (hdeny : ∀ condition, Speaks rules' "deny" condition a → Speaks rules "deny" condition a) :
    AlwaysAllowed rules' a := by
  obtain ⟨hallowed, hdenied⟩ := alwaysAllowed_iff_speaks.1 h
  apply alwaysAllowed_iff_speaks.2
  refine ⟨hallow _ hallowed, ?_⟩
  intro condition hspeaks
  exact hdenied condition (hdeny condition hspeaks)

/-- **Rules that say the same leave the same open.** Only what is allowed and denied counts. -/
theorem allows_openness_congr {e e' : Entity}
    (h : ∀ kind : Text, kind = "allow" ∨ kind = "deny" →
      ∀ condition, Speaks e'.access kind condition a ↔ Speaks e.access kind condition a) :
    e'.openness.allows a = e.openness.allows a := by
  rw [Bool.eq_iff_iff, Entity.allows_openness_iff, Entity.allows_openness_iff]
  have hallow := h "allow" (.inl rfl)
  have hdeny := h "deny" (.inr rfl)
  constructor
  · intro hopen
    exact hopen.of_speaks (fun c => (hallow c).1) fun c => (hdeny c).2
  · intro hopen
    exact hopen.of_speaks (fun c => (hallow c).2) fun c => (hdeny c).1

theorem Speaks.mono (hsub : ∀ rule ∈ rules, rule ∈ rules') (h : Speaks rules kind condition a) :
    Speaks rules' kind condition a := by
  obtain ⟨rule, hrule, hspeaks⟩ := h
  exact ⟨rule, hsub rule hrule, hspeaks⟩

theorem speaks_append : Speaks (rules ++ rules') kind condition a ↔
    Speaks rules kind condition a ∨ Speaks rules' kind condition a := by
  simp only [Speaks, List.mem_append, or_and_right, exists_or]

theorem speaks_cons : Speaks (rule :: rules) kind condition a ↔
    (rule.kind = kind ∧ rule.condition = condition ∧ rule.Concerns a) ∨
      Speaks rules kind condition a := by
  simp only [Speaks, List.mem_cons, or_and_right, exists_or, exists_eq_left]

/-- **A rule for each operation** says what the rule for all of them says. -/
theorem speaks_split : Speaks (rule.operations.map fun operation =>
      { rule with operations := [operation] }) kind condition a ↔
    rule.kind = kind ∧ rule.condition = condition ∧ rule.Concerns a := by
  have hone (operation : Text) : ({ rule with operations := [operation] } : AccessRule).Concerns a ↔
      operation = a.name ∨ operation = "all" := by
    simp only [AccessRule.Concerns, List.mem_singleton, eq_comm]
  constructor
  · intro h
    obtain ⟨single, hsingle, hkind, hcondition, hconcerns⟩ := h
    obtain ⟨operation, hoperation, rfl⟩ := List.mem_map.1 hsingle
    refine ⟨hkind, hcondition, ?_⟩
    rcases (hone operation).1 hconcerns with rfl | rfl
    · exact .inl hoperation
    · exact .inr hoperation
  · intro h
    obtain ⟨hkind, hcondition, hconcerns⟩ := h
    rcases hconcerns with hname | hall
    · exact ⟨_, List.mem_map_of_mem hname, hkind, hcondition, (hone _).2 (.inl rfl)⟩
    · exact ⟨_, List.mem_map_of_mem hall, hkind, hcondition, (hone _).2 (.inr rfl)⟩

theorem AccessRule.covers_eq_false_iff : rule.covers a.name = false ↔ ¬ rule.Concerns a := by
  simp [covers, Concerns]

end

/-! ## Rules in other words -/

section

variable {e e' : Entity} {before after : List AccessRule} {rule : AccessRule} {a : Action}
  {kind : Text} {condition : Condition}

theorem allows_of_same_rules (h : ∀ rule, rule ∈ e'.access ↔ rule ∈ e.access) :
    e'.openness.allows a = e.openness.allows a := by
  apply allows_openness_congr
  intro kind _ condition
  exact ⟨.mono fun rule => (h rule).1, .mono fun rule => (h rule).2⟩

theorem allows_of_dropped (hsub : e'.access.Sublist e.access)
    (hdropped : ∀ rule ∈ e.access, rule ∉ e'.access →
      (rule.kind ≠ "allow" ∧ rule.kind ≠ "deny") ∨ rule.covers a.name = false) :
    e'.openness.allows a = e.openness.allows a := by
  apply allows_openness_congr
  intro kind hkind condition
  refine ⟨.mono fun rule hrule => hsub.subset hrule, ?_⟩
  intro h
  obtain ⟨rule, hrule, hspeaks⟩ := h
  -- a rule that is dropped says nothing of the kind
  by_cases hkept : rule ∈ e'.access
  · exact ⟨rule, hkept, hspeaks⟩
  · obtain ⟨rfl, -, hconcerns⟩ := hspeaks
    rcases hdropped rule hrule hkept with ⟨hallow, hdeny⟩ | hcovers
    · exact absurd hkind (not_or.2 ⟨hallow, hdeny⟩)
    · exact absurd hconcerns (AccessRule.covers_eq_false_iff.1 hcovers)

theorem allows_of_split (he : e.access = before ++ rule :: after)
    (he' : e'.access = before ++ (rule.operations.map fun operation =>
      { rule with operations := [operation] }) ++ after) :
    e'.openness.allows a = e.openness.allows a := by
  apply allows_openness_congr
  intro kind _ condition
  rw [he, he', speaks_append, speaks_append, speaks_append, speaks_split, speaks_cons, or_assoc]

theorem Speaks.of_added (he : e.access = before ++ after)
    (he' : e'.access = before ++ rule :: after) (hkind : rule.kind ≠ kind)
    (h : Speaks e'.access kind condition a) : Speaks e.access kind condition a := by
  rw [he', speaks_append, speaks_cons] at h
  rw [he, speaks_append]
  exact h.imp_right fun h => h.resolve_left fun h => hkind h.1

theorem Speaks.added (he : e.access = before ++ after)
    (he' : e'.access = before ++ rule :: after) (h : Speaks e.access kind condition a) :
    Speaks e'.access kind condition a := by
  rw [he, speaks_append] at h
  rw [he', speaks_append, speaks_cons]
  exact h.imp_right .inr

/-- **A rule that denies opens nothing.** -/
theorem allows_of_denied (he : e.access = before ++ after)
    (he' : e'.access = before ++ rule :: after) (hdeny : rule.kind = "deny")
    (h : e'.openness.allows a = true) : e.openness.allows a = true := by
  rw [Entity.allows_openness_iff] at h ⊢
  have hallow : rule.kind ≠ "allow" := by
    rw [hdeny]
    decide
  exact h.of_speaks (fun c => .of_added he he' hallow) fun c => .added he he'

/-- **A rule that allows closes nothing.** -/
theorem allows_of_allowed (he : e.access = before ++ after)
    (he' : e'.access = before ++ rule :: after) (hallow : rule.kind = "allow")
    (h : e.openness.allows a = true) : e'.openness.allows a = true := by
  rw [Entity.allows_openness_iff] at h ⊢
  have hdeny : rule.kind ≠ "deny" := by
    rw [hallow]
    decide
  exact h.of_speaks (fun c => .added he he') fun c => .of_added he he' hdeny

end

/-! ## Texts with commas -/

namespace Text

section

variable {α : Type} {p : α → Bool} {before word after : List α}

theorem trim_append (hbefore : ∀ c ∈ before, p c = true) (hafter : ∀ c ∈ after, p c = true) :
    trim p (before ++ word ++ after) = trim p word := by
  have hback (cs : List α) : (cs ++ after).reverse.dropWhile p = cs.reverse.dropWhile p := by
    rw [List.reverse_append, List.dropWhile_append_of_pos]
    intro c hc
    exact hafter c (List.mem_reverse.1 hc)
  unfold trim
  rw [List.append_assoc, List.dropWhile_append_of_pos hbefore, List.dropWhile_append]
  by_cases hblank : (word.dropWhile p).isEmpty
  · -- the word is trimmed away, and with it what comes after
    have hnone : after.dropWhile p = [] := List.dropWhile_eq_nil_iff.2 hafter
    rw [if_pos hblank, List.isEmpty_iff.1 hblank, hnone]
  · rw [if_neg hblank, hback]

theorem splitOn_eq [DecidableEq α] (separator : α) (cs : List α) :
    splitOn separator cs = cs.splitOn separator := by
  induction cs with
  | nil => rfl
  | cons c cs ih =>
    rw [splitOn, ih, List.splitOn_cons_eq_if_modifyHead]
    by_cases hc : c = separator
    · simp [hc]
    · obtain ⟨piece, pieces, hpieces⟩ :=
        List.exists_cons_of_ne_nil (List.splitOn_ne_nil separator cs)
      simp [hc, hpieces]

end

/-- The text with blanks around it. -/
def IsPadded (word padded : Text) : Prop :=
  ∃ before after, (∀ c ∈ before, isBlank c = true) ∧ (∀ c ∈ after, isBlank c = true) ∧
    padded.points = before ++ word.points ++ after

theorem IsPadded.trim_eq {word padded : Text} (h : word.IsPadded padded)
    (hword : trim isBlank word.points = word.points) :
    trim isBlank padded.points = word.points := by
  obtain ⟨before, after, hbefore, hafter, hpadded⟩ := h
  rw [hpadded, trim_append hbefore hafter, hword]

theorem IsPadded.comma_notMem {word padded : Text} (h : word.IsPadded padded)
    (hword : .char ',' ∉ word.points) : .char ',' ∉ padded.points := by
  obtain ⟨before, after, hbefore, hafter, hpadded⟩ := h
  have hcomma : isBlank (.char ',') = false := by decide
  rw [hpadded, List.append_assoc, List.mem_append, List.mem_append]
  rintro (hmem | hmem | hmem)
  · exact Bool.false_ne_true (hcomma ▸ hbefore _ hmem)
  · exact hword hmem
  · exact Bool.false_ne_true (hcomma ▸ hafter _ hmem)

end Text

namespace Decode

/-- A name that stands for itself between commas: trimmed, not empty and without a comma. -/
structure IsOperationName (name : Text) : Prop where
  trimmed : Text.trim Text.isBlank name.points = name.points
  nonempty : name.points ≠ []
  no_comma : .char ',' ∉ name.points

theorem filterMap_trim {names pieces : List Text} (hnames : ∀ n ∈ names, IsOperationName n)
    (h : List.Forall₂ Text.IsPadded names pieces) :
    ((pieces.map Text.points).map (Text.trim Text.isBlank)).filterMap
      (fun cs => if cs = [] then none else some ⟨cs⟩) = names := by
  induction h with
  | nil => rfl
  | @cons name piece names pieces hpadded _ ih =>
    obtain ⟨hname, hnames⟩ := List.forall_mem_cons.1 hnames
    rw [List.map_cons, List.map_cons, List.filterMap_cons, hpadded.trim_eq hname.trimmed,
      if_neg hname.nonempty, ih hnames]

/-- **Names joined by commas are read back**, whatever blanks there are around them. -/
theorem splitOperations_join {names pieces : List Text} (hnames : ∀ n ∈ names, IsOperationName n)
    (h : List.Forall₂ Text.IsPadded names pieces) :
    splitOperations (Text.join "," pieces) = names := by
  by_cases hpieces : pieces = []
  · -- the text is empty then, and its only piece is no name
    subst hpieces
    obtain rfl : names = [] := List.forall₂_nil_right_iff.1 h
    decide
  · have hcomma : ∀ cs ∈ pieces.map Text.points, .char ',' ∉ cs := by
      intro cs hcs
      obtain ⟨piece, hpiece, rfl⟩ := List.mem_map.1 hcs
      obtain ⟨name, hname, hpadded⟩ := exists_of_mem_right h hpiece
      exact hpadded.comma_notMem (hnames name hname).no_comma
    have hsplit : Text.splitOn (.char ',') (Text.join "," pieces).points =
        pieces.map Text.points := by
      rw [Text.splitOn_eq, Text.points_join]
      exact List.splitOn_intercalate _ hcomma (by simpa using hpieces)
    rw [splitOperations, hsplit, filterMap_trim hnames h]

theorem operations_join {names pieces : List Text} (hnames : ∀ n ∈ names, IsOperationName n)
    (h : List.Forall₂ Text.IsPadded names pieces) :
    operations (.str (Text.join "," pieces)) = .ok names :=
  congrArg Checked.ok (splitOperations_join hnames h)

/-! ## Lists of rules -/

variable {ms ms' : List (Data × Data)} {v v' : Data}

theorem lookup_rule_of_ne {key : String} (hkey : key ≠ "operations") (v w : Data) :
    Data.lookup (ms ++ (.str "operations", v) :: ms') key =
      Data.lookup (ms ++ (.str "operations", w) :: ms') key := by
  have hne : Data.str "operations" ≠ .str key := by
    simpa [Text.ofString_inj] using hkey.symm
  rw [Data.lookup_append, Data.lookup_append, Data.lookup_cons_of_ne hne,
    Data.lookup_cons_of_ne hne]

theorem accessRule_congr (h : operations v = operations v') :
    accessRule (.map (ms ++ (.str "operations", v) :: ms')) =
      accessRule (.map (ms ++ (.str "operations", v') :: ms')) := by
  have hother {α : Type} {key : String} (hkey : key ≠ "operations") (default : α)
      (check : Data → Checked α) :
      defaulted (ms ++ (.str "operations", v) :: ms') (.plain key) default check =
        defaulted (ms ++ (.str "operations", v') :: ms') (.plain key) default check := by
    simp only [defaulted, find?, Name.plain, lookup_rule_of_ne hkey v v']
  have hoperations : required (ms ++ (.str "operations", v) :: ms') (.plain "operations")
      operations = required (ms ++ (.str "operations", v') :: ms') (.plain "operations")
        operations := by
    simp only [required, find?, Name.plain, Data.lookup_append, Data.lookup_cons_self]
    cases Data.lookup ms "operations" with
    | some w => rfl
    | none =>
      show under (.key "operations") (operations v) = under (.key "operations") (operations v')
      rw [h]
  show AccessRule.mk
    <$> defaulted (ms ++ (.str "operations", v) :: ms') (.plain "kind") "allow" text
    <*> required (ms ++ (.str "operations", v) :: ms') (.plain "operations") operations
    <*> defaulted (ms ++ (.str "operations", v) :: ms') (.plain "condition") (.literal true)
      condition = _
  rw [hother (by decide), hother (by decide), hoperations]
  rfl

theorem list_accessRule_congr (h : accessRule v = accessRule v') (vs vs' : List Data) :
    list accessRule (.list (vs ++ v :: vs')) = list accessRule (.list (vs ++ v' :: vs')) := by
  show items accessRule (vs ++ v :: vs') = items accessRule (vs ++ v' :: vs')
  simp only [items, List.zipIdx_append, List.zipIdx_cons, List.map_append, List.map_cons, h]

end Decode

/-! ## Main result -/

/-- **What is open does not depend on how the rules are written down.** An action is open under the
same rules in any order and number, and without rules that neither allow nor deny or do not concern
the action. A rule may be split into one for each of its operations. Trimmed names in a list may be
written as a text with commas and any blanks around the names: the same rules are read, so the same
is open. A rule that denies opens nothing, and a rule that allows closes nothing. -/
theorem openness_independent_of_writing (a : Action) :
    (∀ e e' : Entity, (∀ rule, rule ∈ e'.access ↔ rule ∈ e.access) →
      e'.openness.allows a = e.openness.allows a) ∧
    (∀ e e' : Entity, e'.access.Sublist e.access →
      (∀ rule ∈ e.access, rule ∉ e'.access →
        (rule.kind ≠ "allow" ∧ rule.kind ≠ "deny") ∨ rule.covers a.name = false) →
      e'.openness.allows a = e.openness.allows a) ∧
    (∀ (e e' : Entity) (before after : List AccessRule) (rule : AccessRule),
      e.access = before ++ rule :: after →
      e'.access = before ++ (rule.operations.map fun operation =>
        { rule with operations := [operation] }) ++ after →
      e'.openness.allows a = e.openness.allows a) ∧
    (∀ names pieces : List Text, (∀ n ∈ names, Decode.IsOperationName n) →
      List.Forall₂ Text.IsPadded names pieces →
      Decode.operations (.str (Text.join "," pieces)) = .ok names ∧
      ∀ (before after : List Data) (ms ms' : List (Data × Data)),
        list Decode.accessRule (.list (before ++
          .map (ms ++ (.str "operations", .str (Text.join "," pieces)) :: ms') :: after)) =
        list Decode.accessRule (.list (before ++
          .map (ms ++ (.str "operations", .list (names.map .str)) :: ms') :: after))) ∧
    ∀ (e e' : Entity) (before after : List AccessRule) (rule : AccessRule),
      e.access = before ++ after → e'.access = before ++ rule :: after →
      (rule.kind = "deny" → e'.openness.allows a = true → e.openness.allows a = true) ∧
        (rule.kind = "allow" → e.openness.allows a = true → e'.openness.allows a = true) := by
  refine ⟨fun e e' => allows_of_same_rules, fun e e' => allows_of_dropped,
    fun e e' before after rule => allows_of_split, ?_, ?_⟩
  · intro names pieces hnames hpieces
    have hjoined := Decode.operations_join hnames hpieces
    refine ⟨hjoined, ?_⟩
    intro before after ms ms'
    apply Decode.list_accessRule_congr
    apply Decode.accessRule_congr
    rw [hjoined]
    exact (Definition.list_text_eq_ok names).symm
  · intro e e' before after rule he he'
    exact ⟨allows_of_denied he he', allows_of_allowed he he'⟩

namespace Blog

/-- A sketch, which everyone may read and change and no one may delete. -/
def sketch : Entity where
  name := "Sketch"
  access := [{ operations := ["read", "update"] }, { kind := "deny", operations := ["delete"] }]

/-- Sketches stay open for reading when their rules change places and are repeated, when the one
about deleting is dropped, when the other one is split or written as a text, and when more is
allowed. -/
theorem sketch_rewritten :
    (∀ access ∈ [sketch.access.reverse ++ sketch.access, sketch.access.take 1,
        [{ operations := ["read"] }, { operations := ["update"] },
          { kind := "deny", operations := ["delete"] }],
        { operations := ["all"], condition := .expression "isAdmin" } :: sketch.access],
      ({ sketch with access } : Entity).openness.allows .read = true) ∧
    Checked.list Decode.accessRule (.list [.map [(.str "operations", .str " read ,update")]]) =
      .ok [{ operations := ["read", "update"] }] := by
  obtain ⟨hset, hdrop, hsplit, hjoin, hadd⟩ := openness_independent_of_writing .read
  have hopen : sketch.openness.allows .read = true := by decide
  refine ⟨?_, ?_⟩
  · intro access haccess
    simp only [List.mem_cons, List.not_mem_nil, or_false] at haccess
    rcases haccess with rfl | rfl | rfl | rfl
    · rw [hset sketch _ (by simp), hopen]
    · rw [hdrop sketch _ (List.take_sublist ..) (by decide), hopen]
    · rw [hsplit sketch _ [] _ _ rfl rfl, hopen]
    · exact (hadd sketch _ [] _ _ rfl rfl).2 rfl hopen
  · have hnames : ∀ n ∈ (["read", "update"] : List Text), Decode.IsOperationName n := by
      intro n hn
      simp only [List.mem_cons, List.not_mem_nil, or_false] at hn
      rcases hn with rfl | rfl <;> exact ⟨by decide, by decide, by decide⟩
    have hpieces : List.Forall₂ Text.IsPadded ["read", "update"] [" read ", "update"] :=
      .cons ⟨[.char ' '], [.char ' '], by decide, by decide, rfl⟩
        (.cons ⟨[], [], by decide, by decide, rfl⟩ .nil)
    exact (hjoin _ _ hnames hpieces).2 [] [] [] []

end Blog

end ResourceApi
