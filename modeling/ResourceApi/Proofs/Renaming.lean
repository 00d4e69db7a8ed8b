import ResourceApi.Proofs.Inclusion
import ResourceApi.Proofs.ResolvedReference

/-!
# The names that entities go by

An entity may go by another name in paths. The path of its collection is made from that name, and
with it all of its paths, which begin there. Besides, the ids of the two updates of an item say the
name. Nothing else does.

**Path items** (`Renamed`). So under two namings an entity has the same path items in the same
order. Each stands at the same rest of a path behind the collection's, and is the same but for the
ids of updates.

**Main result** (`naming_only_renames`). Where no path is written twice under either naming, the
documents are one but for such renamed paths. Ids are texts and refer to nothing, so pruning keeps
the same schemas.
-/

namespace ResourceApi

open Schema Json

/-! ## Path items -/

/-- What the path of an item has behind that of its collection. -/
def itemRest : Text := "/\x7bid\x7d"

/-- The operation, with an id made from a name if it is an update by its method. -/
def Operation.updatedAs (name : Text) (m : Method) (o : Operation) : Operation :=
  if m = .put ∨ m = .patch then { o with id := "update-" ++ name ++ "-" ++ m.name } else o

/-- The operations, with the ids of the updates made from a name. -/
def PathItem.updatedAs (name : Text) (item : PathItem) : PathItem :=
  item.map fun o => (o.1, o.2.updatedAs name o.1)

/-- A path item of an entity under two namings: behind the path of the collection the keys are the
same, and so are the operations, but for the ids of the updates of an item. -/
def Renamed (r r' : Routing) (e : Entity) (p p' : Text × PathItem) : Prop :=
  ∃ rest, p.1 = r.base e ++ rest ∧ p'.1 = r'.base e ++ rest ∧
    p'.2 = if rest = itemRest then p.2.updatedAs (r'.mappedName e) else p.2

section

variable {n : Text}

theorem Operation.mentions_updatedAs (o : Operation) (name : Text) (m : Method) :
    (o.updatedAs name m).toJson.Mentions n ↔ o.toJson.Mentions n := by
  have hid (id : Text) : ¬ (Json.obj (member "operationId" (.str id))).Mentions n := by
    simp [member, mentions_obj_cons, Text.ofString_inj]
  unfold updatedAs
  split_ifs
  · simp only [toJson, mentions_obj_append, hid]
  · rfl

theorem PathItem.mentions_updatedAs (item : PathItem) (name : Text) :
    (item.updatedAs name).toJson.Mentions n ↔ item.toJson.Mentions n := by
  rw [mentions_pathItem_iff, mentions_pathItem_iff]
  simp [updatedAs, Operation.mentions_updatedAs]

theorem Renamed.mentions_iff {r r' : Routing} {e : Entity} {p p' : Text × PathItem}
    (h : Renamed r r' e p p') : p'.2.toJson.Mentions n ↔ p.2.toJson.Mentions n := by
  obtain ⟨rest, -, -, hitem⟩ := h
  rw [hitem]
  split_ifs
  · exact PathItem.mentions_updatedAs _ _
  · rfl

end

/-! ## Paths -/

namespace Routing

variable {r : Routing} {e : Entity} {names names' : Assoc Text Text}

/-- The routing with other names for entities to go by. -/
def naming (r : Routing) (names : Assoc Text Text) : Routing := { r with nameMapping := names }

theorem renamed_ownPaths (rules : Openness) (filters : List FilterParameter) :
    List.Forall₂ (Renamed (r.naming names) (r.naming names') e)
      ((r.naming names).ownPaths e rules filters)
      ((r.naming names').ownPaths e rules filters) := by
  have hbase (r : Routing) : r.base e = r.base e ++ "" := (Text.append_empty _).symm
  refine .cons ⟨"", hbase _, hbase _, ?_⟩ (.cons ⟨itemRest, rfl, rfl, ?_⟩ .nil)
  · rw [if_neg (by decide)]
  · rw [if_pos rfl]
    rfl

theorem renamed_relationshipPaths (rules : Openness) (f : Field) (target : Entity)
    (targetRules : Openness) (filters : List FilterParameter) :
    List.Forall₂ (Renamed (r.naming names) (r.naming names') e)
      ((r.naming names).relationshipPaths e rules f target targetRules filters)
      ((r.naming names').relationshipPaths e rules f target targetRules filters) := by
  have hbehind (base rest : Text) : itemPath base ++ rest = base ++ (itemRest ++ rest) :=
    Text.append_assoc base itemRest rest
  -- what comes behind an item is none of its updates
  have hrest {rest : Text} (hne : rest ≠ "") : itemRest ++ rest ≠ itemRest := by
    rw [ne_comm, Ne, Text.eq_append_right_iff]
    exact hne
  have hslash (s t : Text) : (s ++ t = "") → s = "" := fun h =>
    Text.points_inj.1 (List.append_eq_nil_iff.1 (congrArg Text.points h)).1
  refine .cons ⟨itemRest ++ ("/" ++ f.name), ?_, ?_, ?_⟩
    (.cons ⟨itemRest ++ ("/relationships/" ++ f.name), ?_, ?_, ?_⟩ .nil)
  · exact (Text.append_assoc _ _ _).trans (hbehind _ _)
  · exact (Text.append_assoc _ _ _).trans (hbehind _ _)
  · rw [if_neg (hrest fun h => absurd (hslash _ _ h) (by decide))]
  · exact (Text.append_assoc _ _ _).trans (hbehind _ _)
  · exact (Text.append_assoc _ _ _).trans (hbehind _ _)
  · rw [if_neg (hrest fun h => absurd (hslash _ _ h) (by decide))]

theorem parallel_routePaths_naming (rules : Openness) (route : Field × Entity) :
    Parallel (List.Forall₂ (Renamed (r.naming names) (r.naming names') e))
      ((r.naming names).routePaths e rules route)
      ((r.naming names').routePaths e rules route) := by
  refine Parallel.bind_same fun targetRules => Parallel.bind_same fun filters => ?_
  exact .ok (renamed_relationshipPaths rules _ _ targetRules filters)

/-- **The paths of an entity under two namings are renamed** where none is written twice. -/
theorem parallel_paths_naming (h : (Assoc.keys ((r.naming names).subjects e)).Nodup)
    (h' : (Assoc.keys ((r.naming names').subjects e)).Nodup) :
    Parallel (List.Forall₂ (Renamed (r.naming names) (r.naming names') e))
      ((r.naming names).paths e) ((r.naming names').paths e) := by
  refine Parallel.bind_same fun rules => Parallel.bind_same fun filters => ?_
  have hroutes : Parallel
      (List.Forall₂ (List.Forall₂ (Renamed (r.naming names) (r.naming names') e)))
      ((r.routes e).mapM ((r.naming names).routePaths e rules))
      ((r.routes e).mapM ((r.naming names').routePaths e rules)) :=
    Parallel.mapM_same fun route _ => parallel_routePaths_naming rules route
  refine hroutes.of_answers.bind fun related related' hrelated => .ok ?_
  obtain ⟨hrelated, hok, hok'⟩ := hrelated
  rw [Assoc.ofList_eq_self (by rwa [keys_writes (mapM_eq_ok_iff.1 hok)]),
    Assoc.ofList_eq_self (by rwa [keys_writes (mapM_eq_ok_iff.1 hok')])]
  exact List.rel_append (renamed_ownPaths rules filters) (List.rel_flatten hrelated)

end Routing

/-! ## Documents -/

namespace Generator

variable {g : Generator} {names names' : Assoc Text Text}

/-- The generator with other names for entities to go by in paths. -/
def naming (g : Generator) (names : Assoc Text Text) : Generator :=
  { g with options := { g.options with nameMapping := names } }

/-- The path items of a document under two namings, each of a covered entity. -/
def RenamedPaths (g : Generator) (names names' : Assoc Text Text)
    (paths paths' : Assoc Text PathItem) : Prop :=
  List.Forall₂ (fun p p' => ∃ e ∈ g.covered,
    Renamed (g.naming names).routing (g.naming names').routing e p p') paths paths'

theorem parallel_paths_naming (h : (Assoc.keys (g.naming names).subjects).Nodup)
    (h' : (Assoc.keys (g.naming names').subjects).Nodup) :
    Parallel (g.RenamedPaths names names') (g.naming names).paths (g.naming names').paths := by
  have hpasses : Parallel (List.Forall₂ (g.RenamedPaths names names'))
      (g.covered.mapM (g.naming names).routing.paths)
      (g.covered.mapM (g.naming names').routing.paths) := by
    refine Parallel.mapM_same fun e he => ?_
    have hentity := Routing.parallel_paths_naming (r := g.routing)
      (nodup_keys_routing_subjects h he) (nodup_keys_routing_subjects h' he)
    exact hentity.imp fun _ _ hitems => hitems.imp fun _ _ hrenamed => ⟨e, he, hrenamed⟩
  refine hpasses.of_answers.map fun perEntity perEntity' hanswers => ?_
  obtain ⟨hrenamed, hok, hok'⟩ := hanswers
  rw [Assoc.ofList_eq_self (by rwa [keys_perEntity h (mapM_eq_ok_iff.1 hok)]),
    Assoc.ofList_eq_self (by rwa [keys_perEntity h' (mapM_eq_ok_iff.1 hok')])]
  exact List.rel_flatten hrenamed

theorem RenamedPaths.mentions_iff {paths paths' : Assoc Text PathItem}
    (h : g.RenamedPaths names names' paths paths') (n : Text) :
    (pathsJson paths).Mentions n ↔ (pathsJson paths').Mentions n := by
  rw [mentions_pathsJson_iff, mentions_pathsJson_iff]
  constructor
  · intro hmentions
    obtain ⟨p, hp, hn⟩ := hmentions
    obtain ⟨p', hp', e, -, hrenamed⟩ := exists_of_mem_left h hp
    exact ⟨p', hp', hrenamed.mentions_iff.2 hn⟩
  · intro hmentions
    obtain ⟨p', hp', hn⟩ := hmentions
    obtain ⟨p, hp, e, -, hrenamed⟩ := exists_of_mem_right h hp'
    exact ⟨p, hp, hrenamed.mentions_iff.1 hn⟩

/-- **The names that entities go by decide only their paths and the ids of updates.** Where no path
is written twice under either of two namings, there is no document for the same reason, or there are
two that are one but for their paths. These are the same items in the same order: each belongs to a
covered entity, its keys are the same behind the path of the entity's collection, and it is the same
but for the ids of an item's updates. The warnings are the same. -/
theorem naming_only_renames (g : Generator) (names names' : Assoc Text Text)
    (h : (Assoc.keys (g.naming names).subjects).Nodup)
    (h' : (Assoc.keys (g.naming names').subjects).Nodup) :
    Parallel (fun d d' => g.RenamedPaths names names' d.paths d'.paths ∧
        d' = { d with paths := d'.paths })
      (g.naming names).document (g.naming names').document ∧
    (g.naming names).warnings = (g.naming names').warnings := by
  -- nothing but the paths looks at the names
  have hsame : (g.naming names).SameButPaths (g.naming names') := ⟨rfl, rfl, rfl, rfl, rfl⟩
  have hpaths := parallel_paths_naming h h'
  exact ⟨parallel_document hsame hpaths fun _ _ => RenamedPaths.mentions_iff, rfl⟩

end Generator

namespace Blog

/-- Where posts go by the name of articles, only paths and the ids of updates are others. -/
theorem articles_only_renamed : ∃ d d',
    (generator.naming []).document = .ok d ∧
    (generator.naming [("Post", "Article")]).document = .ok d' ∧
    ("/post" : Text) ∈ Assoc.keys d.paths ∧ ("/article" : Text) ∈ Assoc.keys d'.paths ∧
    generator.RenamedPaths [] [("Post", "Article")] d.paths d'.paths ∧
    d' = { d with paths := d'.paths } := by
  obtain ⟨hruns, -⟩ := Generator.naming_only_renames generator [] [("Post", "Article")]
    (by decide +kernel) (by decide +kernel)
  obtain ⟨d, hd⟩ : ∃ d, (generator.naming []).document = .ok d := ⟨_, rfl⟩
  obtain ⟨d', hd'⟩ : ∃ d, (generator.naming [("Post", "Article")]).document = .ok d := ⟨_, rfl⟩
  rw [hd, hd'] at hruns
  refine ⟨d, d', hd, hd', ?_, ?_, hruns.of_ok⟩
  · cases hd
    decide +kernel
  · cases hd'
    decide +kernel

end Blog

end ResourceApi
