import ResourceApi.Document.Session
import ResourceApi.Proofs.Inclusion

/-!
# Generators that are used more than once

A generator keeps the warnings that it has given, and every use writes to them: asking for the
covered entities adds to them, and generating a document begins anew. Nothing else of it changes
(`Fresh`), so no use can tell what came before.

**One use** (`Fresh.respond_eq`). A generator that differs from a fresh one in its warnings alone
answers as the fresh one does, and differs from it in its warnings alone afterwards.

**Main result** (`reused_as_fresh`). Every use in a sequence is answered as by a fresh generator,
and the warnings about a document are those about the names that no entity has.
-/

namespace ResourceApi

namespace Session

/-! ## Uses -/

/-- A use of a generator. -/
inductive Use where
  /-- Asking for the covered entities. -/
  | covered
  /-- Generating a document. -/
  | generate
  deriving DecidableEq, Repr

/-- What a use gives: the covered entities, or a document with the warnings about it. -/
inductive Answer where
  | covered (entities : Except Failure (List Entity))
  | document (result : Except Failure (Document × List Text))

/-- The answer to a use, and what becomes of the generator. -/
def respond (s : Session) : Use → Answer × Session
  | .covered => (.covered s.covered.1, s.covered.2)
  | .generate => (.document (s.generate.1.map fun d => (d, s.generate.2.warnings)), s.generate.2)

/-- The answers to one use after the other. -/
def answers (s : Session) : List Use → List Answer
  | [] => []
  | u :: us => (s.respond u).1 :: (s.respond u).2.answers us

/-! ## Covered entities -/

variable {g : Generator}

theorem nameOf?_str (m : Model) (n : Text) :
    nameOf? m (.str n) = if (m.entity? n).isSome then some n else none := by
  rw [show nameOf? m (.str n) = (m.entity? n).map fun _ => n from rfl]
  cases m.entity? n <;> rfl

theorem warningsOf_texts (m : Model) (names : List Text) :
    warningsOf m (names.map Data.str) = .ok ((names.filter fun n => (m.entity? n).isNone).map
      fun n => "Unable to load model definition for: " ++ n) := by
  have hunknown : (names.map Data.str).filter (fun v => (nameOf? m v).isNone) =
      (names.filter fun n => (m.entity? n).isNone).map Data.str := by
    rw [List.filter_map]
    congr 1
    refine List.filter_congr fun n _ => ?_
    rw [Function.comp_apply, nameOf?_str]
    cases m.entity? n <;> rfl
  rw [warningsOf, hunknown, mapM_eq_ok_iff, List.forall₂_map_left_iff, List.forall₂_map_right_iff]
  exact List.forall₂_same.2 fun n _ => rfl

theorem covered_of_known (names : List Text) :
    (g.including (some ((names.map Data.str).filterMap (nameOf? g.model)))).covered =
      (g.including (some names)).covered := by
  have hknown : (names.map Data.str).filterMap (nameOf? g.model) =
      names.filter fun n => (g.model.entity? n).isSome := by
    rw [List.filterMap_map, ← List.filterMap_eq_filter]
    refine List.filterMap_congr fun n _ => ?_
    rw [Function.comp_apply, nameOf?_str]
    rfl
  rw [hknown, Generator.covered_eq_filter, Generator.covered_eq_filter]
  refine List.filter_congr fun e he => ?_
  have hentity : (g.model.entity? e.name).isSome = true :=
    List.find?_isSome.2 ⟨e, he, beq_self_eq_true _⟩
  congr 1
  rw [Bool.eq_iff_iff, Generator.admits_including_iff, Generator.admits_including_iff]
  simp [Generator.Includes, hentity]

theorem warnings_eq (g : Generator) : g.warnings =
    ((g.options.included.getD []).filter fun n => n ∉ g.model.entities.map (·.name)).map
      fun n => ("Unable to load model definition for: " ++ n : Text) := by
  have hunknown (n : Text) :
      (g.model.entity? n).isNone = decide (n ∉ g.model.entities.map (·.name)) := by
    rw [Bool.eq_iff_iff]
    simp [Model.entity?]
  unfold Generator.warnings
  cases g.options.included with
  | none => rfl
  | some names => simp only [hunknown, Option.getD_some]

/-! ## One use -/

/-- The generator is a fresh one but for the warnings it has given. -/
def Fresh (g : Generator) (s : Session) : Prop :=
  s.generator = g ∧ s.included = (ofGenerator g).included

theorem fresh_ofGenerator (g : Generator) : Fresh g (ofGenerator g) := ⟨rfl, rfl⟩

theorem Fresh.narrowed_cases {s : Session} (h : Fresh g s) : ∃ g' : Generator,
    s.narrowed = (g.warnings, .ok g') ∧ g'.covered = g.covered ∧ g'.document = g.document := by
  obtain ⟨hgenerator, hincluded⟩ := h
  cases hnames : g.options.included with
  | none =>
    have hsame : g.including none = g := by
      unfold Generator.including
      rw [← hnames]
    refine ⟨g.including none, ?_, ?_, ?_⟩
    · simp [narrowed, hincluded, hgenerator, ofGenerator, hnames, Generator.including,
        Generator.warnings]
    · rw [hsame]
    · rw [hsame]
  | some names =>
    have hsame : g.including (some names) = g := by
      unfold Generator.including
      rw [← hnames]
    have hkeys : (names.map Data.str).all Data.isKey = true := by simp [Data.isKey]
    have hparts : Definition.parts? (.list (names.map Data.str)) = some (names.map Data.str) := rfl
    have hcovered := covered_of_known (g := g) names
    refine ⟨g.including (some ((names.map Data.str).filterMap (nameOf? g.model))), ?_, ?_, ?_⟩
    · simp only [narrowed, hincluded, hgenerator, ofGenerator, hnames, hparts, warningsOf_texts,
        hkeys, if_true, Generator.warnings]
      rfl
    · rw [hcovered, hsame]
    · rw [Generator.document_including_congr hcovered, hsame]

/-- **A use does not see the warnings given before**, and changes nothing else. -/
theorem Fresh.respond_eq {s : Session} (h : Fresh g s) (u : Use) :
    (s.respond u).1 = (match u with
      | .covered => .covered (.ok g.covered)
      | .generate => .document (g.document.map fun d => (d, g.warnings))) ∧
    Fresh g (s.respond u).2 := by
  obtain ⟨g', hnarrowed, hcovered, hdocument⟩ := h.narrowed_cases
  cases u with
  | covered =>
    simp only [respond, Session.covered, hnarrowed]
    exact ⟨by rw [← hcovered]; rfl, h⟩
  | generate =>
    obtain ⟨rfl, hincluded⟩ := h
    cases hschemes : readSecuritySchemes s.generator.options.securitySchemes with
    | error f =>
      -- the schemes are read before any name is looked up, so no warning is left
      have hfails : s.generator.document = .error f := by
        rw [Generator.document, hschemes]
        rfl
      simp only [respond, generate, hschemes, hfails]
      exact ⟨rfl, rfl, hincluded⟩
    | ok schemes =>
      simp only [respond, generate, hschemes, hnarrowed]
      exact ⟨by rw [← hdocument]; rfl, rfl, hincluded⟩

/-- **A generator that is used again answers as a fresh one.** Each use in a sequence gets the
answer that it would get alone, and that of generating is the document, or the error that keeps it
from being made, with one warning for each name in the options that no entity has, ignored ones
included: in their order and as often as they are given. -/
theorem reused_as_fresh (g : Generator) (us : List Use) :
    (ofGenerator g).answers us = us.map (fun u => ((ofGenerator g).respond u).1) ∧
      ((ofGenerator g).respond .generate).1 = .document (g.document.map fun d =>
        (d, ((g.options.included.getD []).filter fun n => n ∉ g.model.entities.map (·.name)).map
          fun n => ("Unable to load model definition for: " ++ n : Text))) := by
  constructor
  · have hanswers : ∀ s, Fresh g s →
        s.answers us = us.map (fun u => ((ofGenerator g).respond u).1) := by
      induction us with
      | nil => exact fun s _ => rfl
      | cons u us ih =>
        intro s hs
        obtain ⟨hanswer, hnext⟩ := hs.respond_eq u
        obtain ⟨halone, -⟩ := (fresh_ofGenerator g).respond_eq u
        rw [answers, List.map_cons, ih _ hnext, hanswer, halone]
    exact hanswers _ (fresh_ofGenerator g)
  · rw [((fresh_ofGenerator g).respond_eq .generate).1, warnings_eq]

end Session

end ResourceApi
