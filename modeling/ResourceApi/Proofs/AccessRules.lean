import ResourceApi.Proofs.DocumentView
import ResourceApi.Proofs.Exclusion
import ResourceApi.Proofs.Pruning
import ResourceApi.Proofs.ResolvedReference
import ResourceApi.Proofs.TwoRuns

/-!
# What access rules can change

The rules of an entity decide which of its operations are open. Two documents of one model, under
two readings of its rules, are compared.

**Side by side** (`parallel_document_governedBy`). Where both readings have an answer for the
covered entities, their documents have the same operations at the same paths, but for what is open.
Rules are asked of an entity for its own paths, and of the targets of its relationships for theirs;
both are covered. What is open adds no mention of a schema, so pruning keeps the same schemas.

**Rules nobody asks for** (`document_withAccess`). The rules of other entities may be exchanged for
any: no schema, filter or path looks at them.

**Main result** (`rules_move_only_security`).
-/

namespace ResourceApi

open Schema Json

/-! ## What is open -/

/-- The items have the same operations, but for what is open. -/
def PathItem.SameButOpen (item item' : PathItem) : Prop := item.closed = item'.closed

section

variable {n : Text}

theorem Operation.mentions_closed {o : Operation} :
    o.closed.toJson.Mentions n ↔ o.toJson.Mentions n := by
  have hopen : ∀ b : Bool,
      ¬ (Json.obj (memberIf "security" (if b then some (.arr []) else none))).Mentions n := by
    intro b
    cases b <;> simp [memberIf, mentions_obj_cons]
  simp only [toJson, closed, mentions_obj_append]
  exact or_congr_right (iff_of_false (hopen false) (hopen o.isOpen))

theorem PathItem.mentions_closed {item : PathItem} :
    item.closed.toJson.Mentions n ↔ item.toJson.Mentions n := by
  rw [mentions_pathItem_iff, mentions_pathItem_iff]
  simp [PathItem.closed, Operation.mentions_closed]

/-- **Paths mention the same names, whatever is open.** -/
theorem mentions_pathsJson_closed {paths : Assoc Text PathItem} :
    (pathsJson (Assoc.mapValues PathItem.closed paths)).Mentions n ↔
      (pathsJson paths).Mentions n := by
  rw [mentions_pathsJson_iff, mentions_pathsJson_iff]
  simp [Assoc.mapValues, PathItem.mentions_closed]

end

/-! ## Paths -/

namespace Routing

variable {r : Routing} {e : Entity} {openness' : Entity → Except Failure Openness}

/-- The routing under another reading of the rules. -/
def governedBy (r : Routing) (openness : Entity → Except Failure Openness) : Routing :=
  { r with openness }

theorem alike_ownPaths (rules rules' : Openness) (filters : List FilterParameter) :
    Assoc.Alike PathItem.SameButOpen (r.ownPaths e rules filters)
      ((r.governedBy openness').ownPaths e rules' filters) :=
  .cons ⟨rfl, rfl⟩ (.cons ⟨rfl, rfl⟩ .nil)

theorem alike_relationshipPaths (rules rules' : Openness) (f : Field) (target : Entity)
    (targetRules targetRules' : Openness) (filters : List FilterParameter) :
    Assoc.Alike PathItem.SameButOpen (r.relationshipPaths e rules f target targetRules filters)
      ((r.governedBy openness').relationshipPaths e rules' f target targetRules' filters) := by
  unfold relationshipPaths
  split_ifs
  · exact .cons ⟨rfl, rfl⟩ (.cons ⟨rfl, rfl⟩ .nil)
  · exact .cons ⟨rfl, rfl⟩ (.cons ⟨rfl, rfl⟩ .nil)

theorem parallel_routePaths {route : Field × Entity} (h : Succeeds (r.openness route.2))
    (h' : Succeeds (openness' route.2)) (rules rules' : Openness) :
    Parallel (Assoc.Alike PathItem.SameButOpen) (r.routePaths e rules route)
      ((r.governedBy openness').routePaths e rules' route) := by
  refine Parallel.bind_of_succeeds h h' fun targetRules targetRules' => ?_
  refine Parallel.bind_same fun filters => ?_
  exact .ok (alike_relationshipPaths rules rules' _ _ targetRules targetRules' filters)

/-- **The paths of an entity are the same, but for what is open.** -/
theorem parallel_paths (h : Succeeds (r.openness e)) (h' : Succeeds (openness' e))
    (htarget : ∀ route ∈ r.routes e, Succeeds (r.openness route.2) ∧ Succeeds (openness' route.2)) :
    Parallel (Assoc.Alike PathItem.SameButOpen) (r.paths e)
      ((r.governedBy openness').paths e) := by
  refine Parallel.bind_of_succeeds h h' fun rules rules' => ?_
  refine Parallel.bind_same fun filters => ?_
  have hroutes : Parallel (List.Forall₂ (Assoc.Alike PathItem.SameButOpen))
      ((r.routes e).mapM (r.routePaths e rules))
      ((r.routes e).mapM ((r.governedBy openness').routePaths e rules')) :=
    Parallel.mapM_same fun route hroute =>
      parallel_routePaths (htarget route hroute).1 (htarget route hroute).2 rules rules'
  refine hroutes.bind fun related related' hrelated => .ok (Assoc.Alike.ofList ?_)
  exact (alike_ownPaths rules rules' filters).append (List.rel_flatten hrelated)

theorem paths_congr (h : openness' e = r.openness e)
    (htarget : ∀ route ∈ r.routes e, openness' route.2 = r.openness route.2) :
    (r.governedBy openness').paths e = r.paths e := by
  have hrelated (rules : Openness) : (r.routes e).mapM
      ((r.governedBy openness').routePaths e rules) =
        (r.routes e).mapM (r.routePaths e rules) := by
    refine mapM_congr fun route hroute => ?_
    show (openness' route.2 >>= _) = (r.openness route.2 >>= _)
    rw [htarget route hroute]
    rfl
  show (openness' e >>= fun rules => r.filters e >>= fun filters =>
    (r.routes e).mapM ((r.governedBy openness').routePaths e rules) >>= _) = _
  simp only [h, hrelated]
  rfl

end Routing

/-! ## Documents -/

namespace Generator

variable {g : Generator} {openness' : Entity → Except Failure Openness}

/-- The generator under another reading of the rules. -/
def governedBy (g : Generator) (openness : Entity → Except Failure Openness) : Generator :=
  { g with openness }

theorem succeeds_openness {d : Document} (h : g.document = .ok d) {e : Entity}
    (he : e ∈ g.covered) : Succeeds (g.openness e) := by
  obtain ⟨perEntity, hall, -⟩ := paths_eq_ok_iff.1 (paths_of_document h)
  obtain ⟨items, -, hitems⟩ := exists_of_mem_left hall he
  obtain ⟨rules, -, -, hrules, -⟩ := Routing.paths_eq_ok_iff.1 hitems
  exact ⟨rules, hrules⟩

theorem parallel_paths (h : ∀ e ∈ g.covered, Succeeds (g.openness e))
    (h' : ∀ e ∈ g.covered, Succeeds (openness' e)) :
    Parallel (Assoc.Alike PathItem.SameButOpen) g.paths (g.governedBy openness').paths := by
  have hpasses : Parallel (List.Forall₂ (Assoc.Alike PathItem.SameButOpen))
      (g.covered.mapM g.routing.paths) (g.covered.mapM (g.governedBy openness').routing.paths) := by
    refine Parallel.mapM_same fun e he => ?_
    refine Routing.parallel_paths (r := g.routing) (h e he) (h' e he) fun route hroute => ?_
    have hcovered := mem_covered_of_mem_routes hroute
    exact ⟨h _ hcovered, h' _ hcovered⟩
  exact hpasses.map fun _ _ hitems => Assoc.Alike.ofList (List.rel_flatten hitems)

/-- **The documents are the same, but for what is open.** -/
theorem parallel_document_governedBy (h : ∀ e ∈ g.covered, Succeeds (g.openness e))
    (h' : ∀ e ∈ g.covered, Succeeds (openness' e)) :
    Parallel (fun d d' => d.closed = d'.closed) g.document (g.governedBy openness').document := by
  -- nothing but the paths asks for rules
  have hsame : g.SameButPaths (g.governedBy openness') := ⟨rfl, rfl, rfl, rfl, rfl⟩
  have hdocuments := parallel_document hsame (parallel_paths h h') fun paths paths' halike n => by
    rw [← mentions_pathsJson_closed, halike.mapValues_eq, mentions_pathsJson_closed]
  refine hdocuments.imp fun d d' hd => ?_
  obtain ⟨halike, hd'⟩ := hd
  rw [hd', Document.closed, Document.closed, halike.mapValues_eq]

/-- Readings that agree on the covered entities give one document. -/
theorem document_governedBy (h : ∀ e ∈ g.covered, openness' e = g.openness e) :
    (g.governedBy openness').document = g.document := by
  have hpaths : (g.governedBy openness').paths = g.paths := by
    have hpasses : g.covered.mapM (g.governedBy openness').routing.paths =
        g.covered.mapM g.routing.paths :=
      mapM_congr fun e he => Routing.paths_congr (r := g.routing) (h e he) fun route hroute =>
        h _ (mem_covered_of_mem_routes hroute)
    rw [paths, paths, ← hpasses]
    rfl
  simp only [document, hpaths]
  rfl

end Generator

/-! ## Rules nobody asks for -/

/-- The entity with other rules. -/
def Entity.withAccess (access : Entity → List AccessRule) (e : Entity) : Entity :=
  { e with access := access e }

/-- What the name refers to, with other rules if it is an entity. -/
def Declaration.withAccess (access : Entity → List AccessRule) : Declaration → Declaration
  | .entity e => .entity (e.withAccess access)
  | .enum d => .enum d
  | .type d => .type d

namespace Model

variable {m : Model} {access : Entity → List AccessRule}

/-- The model with other rules for its entities. -/
def withAccess (access : Entity → List AccessRule) (m : Model) : Model :=
  { m with entities := m.entities.map (Entity.withAccess access) }

theorem entity?_withAccess (name : Text) :
    (m.withAccess access).entity? name = (m.entity? name).map (Entity.withAccess access) := by
  rw [entity?, withAccess, List.find?_map]
  rfl

@[simp] theorem isRelationship_withAccess :
    (m.withAccess access).isRelationship = m.isRelationship := by
  funext f
  rw [isRelationship, isRelationship, entity?_withAccess, Option.isSome_map]

theorem resolve?_withAccess (name : Text) :
    (m.withAccess access).resolve? name =
      (m.resolve? name).map (Declaration.withAccess access) := by
  have henums : (m.withAccess access).enums = m.enums := rfl
  have htypes : (m.withAccess access).types = m.types := rfl
  unfold resolve?
  rw [entity?_withAccess, henums, htypes]
  cases m.entity? name with
  | some e => rfl
  | none =>
    cases m.enums.find? (·.name == name) with
    | some d => rfl
    | none => cases m.types.find? (·.name == name) <;> rfl

theorem resolve_withAccess (name : Text) (owner : Option Text) :
    (m.withAccess access).resolve name owner =
      (m.resolve name owner).map (Declaration.withAccess access) := by
  unfold resolve
  rw [resolve?_withAccess]
  cases m.resolve? name <;> rfl

@[simp] theorem baseSchema_withAccess (owner : Option Text) :
    (m.withAccess access).baseSchema owner = m.baseSchema owner := by
  funext f
  unfold baseSchema
  rw [resolve_withAccess]
  split
  · rfl
  · cases m.resolve f.typeName (some (f.place owner)) with
    | error u => rfl
    | ok d => cases d <;> rfl

@[simp] theorem filterValueSchema_withAccess (owner : Text) :
    (m.withAccess access).filterValueSchema owner = m.filterValueSchema owner := by
  funext f
  unfold filterValueSchema
  rw [resolve_withAccess]
  split
  · rfl
  · rfl
  · cases m.resolve f.typeName (some (owner ++ "." ++ f.name)) with
    | error u => rfl
    | ok d => cases d <;> rfl

@[simp] theorem fieldFilters_withAccess (owner : Text) (compoundId : Bool) :
    (m.withAccess access).fieldFilters owner compoundId = m.fieldFilters owner compoundId := by
  funext f
  unfold fieldFilters filterOps
  rw [isRelationship_withAccess, filterValueSchema_withAccess]

theorem filters_withAccess : (m.withAccess access).filters = m.filters := by
  funext e
  rw [filters, filters, fieldFilters_withAccess]

theorem entitySchemas_withAccess (style : NullStyle) (e : Entity) :
    (m.withAccess access).entitySchemas style (e.withAccess access) = m.entitySchemas style e := by
  simp only [entitySchemas, entitySchema, attributeSchemas, fieldSchema, relationshipSchemas,
    requiredAttributes, idSchema, resourceData, isRelationship_withAccess, baseSchema_withAccess]
  rfl

/-- **No schema looks at a rule.** -/
theorem componentSchemas_withAccess (style : NullStyle) :
    (m.withAccess access).componentSchemas style = m.componentSchemas style := by
  have hentities : (m.withAccess access).entities.mapM ((m.withAccess access).entitySchemas style) =
      m.entities.mapM (m.entitySchemas style) := by
    rw [withAccess, List.mapM_map]
    exact mapM_congr fun e _ => entitySchemas_withAccess style e
  simp only [componentSchemas, typeSchema, fieldSchema, hentities, baseSchema_withAccess]
  rfl

end Model

namespace Routing

/-- The routing over the model with other rules. -/
def withAccess (access : Entity → List AccessRule) (r : Routing) : Routing :=
  { r with model := r.model.withAccess access }

theorem paths_withAccess {r : Routing} {access : Entity → List AccessRule} :
    (r.withAccess access).paths = r.paths := by
  funext e
  have hfilters : (r.withAccess access).filters = r.filters := by
    funext e
    simp only [filters, withAccess, Model.filters_withAccess]
  have hroutes : (r.withAccess access).routes = r.routes := by
    funext e
    simp only [routes, withAccess, Model.isRelationship_withAccess]
  have hrelated : (r.withAccess access).routePaths = r.routePaths := by
    funext e rules route
    simp only [routePaths, targetFilters, hfilters]
    rfl
  simp only [paths, hfilters, hroutes, hrelated]
  rfl

end Routing

namespace Generator

variable {g : Generator} {access : Entity → List AccessRule}

/-- The generator for the model with other rules. -/
def withAccess (access : Entity → List AccessRule) (g : Generator) : Generator :=
  { g with model := g.model.withAccess access }

theorem covered_withAccess (h : ∀ e ∈ g.covered, access e = e.access) :
    (g.withAccess access).covered = g.covered := by
  have hmap : (g.withAccess access).covered = g.covered.map (Entity.withAccess access) := by
    rw [covered_eq_filter, covered_eq_filter, withAccess, Model.withAccess, List.filter_map]
    rfl
  have hsame : ∀ e ∈ g.covered, e.withAccess access = id e := by
    intro e he
    rw [Entity.withAccess, h e he]
    rfl
  rw [hmap, List.map_congr_left hsame, List.map_id]

/-- **The rules of entities that are not covered may be any.** -/
theorem document_withAccess (h : ∀ e ∈ g.covered, access e = e.access) :
    (g.withAccess access).document = g.document := by
  have hcovered := covered_withAccess h
  have hschemas : (g.withAccess access).schemas = g.schemas := by
    simp only [schemas, withAccess, Model.componentSchemas_withAccess]
  have hrouting : (g.withAccess access).routing = g.routing.withAccess access := by
    simp only [routing, hcovered]
    rfl
  have hpaths : (g.withAccess access).paths = g.paths := by
    simp only [paths, hcovered, hrouting, Routing.paths_withAccess]
  simp only [document, hcovered, hschemas, hpaths]
  rfl

/-- **Access rules decide nothing but what is open.** Under two readings of the rules the documents
are one once the security of the operations is left out, and two readings that have an answer for
every covered entity have documents or fail alike. They are one altogether when the readings agree
on the covered entities; and the rules of other entities may be exchanged for any. -/
theorem rules_move_only_security (g : Generator) :
    (∀ openness', (∀ e ∈ g.covered, Succeeds (g.openness e)) →
      (∀ e ∈ g.covered, Succeeds (openness' e)) →
      Parallel (fun d d' => d.toJson.withoutSecurity = d'.toJson.withoutSecurity)
        g.document (g.governedBy openness').document) ∧
    (∀ openness' d d', g.document = .ok d → (g.governedBy openness').document = .ok d' →
      d.toJson.withoutSecurity = d'.toJson.withoutSecurity) ∧
    (∀ openness', (∀ e ∈ g.covered, openness' e = g.openness e) →
      (g.governedBy openness').document = g.document) ∧
    ∀ access, (∀ e ∈ g.covered, access e = e.access) →
      (g.withAccess access).document = g.document := by
  have hruns (openness') (h : ∀ e ∈ g.covered, Succeeds (g.openness e))
      (h' : ∀ e ∈ g.covered, Succeeds (openness' e)) :
      Parallel (fun d d' => d.toJson.withoutSecurity = d'.toJson.withoutSecurity)
        g.document (g.governedBy openness').document := by
    refine (parallel_document_governedBy h h').imp fun d d' hclosed => ?_
    rw [Document.withoutSecurity_toJson, Document.withoutSecurity_toJson, hclosed]
  refine ⟨hruns, ?_, fun _ => document_governedBy, fun _ => document_withAccess⟩
  intro openness' d d' hd hd'
  have hparallel := hruns openness' (fun e he => succeeds_openness hd he)
    fun e he => succeeds_openness hd' he
  rw [hd, hd'] at hparallel
  exact hparallel.of_ok

end Generator

namespace Blog

/-- No one may do anything. -/
def lockedDown : Entity → Except Failure Openness := fun _ => .ok {}

/-- Locking the blog down closes its open operations and changes nothing else, and what users may do
is no matter for the document of posts. -/
theorem locked_down_but_equal : ∃ d d', postsOnly.document = .ok d ∧
    (postsOnly.governedBy lockedDown).document = .ok d' ∧
    (∃ p ∈ d.paths, p.2.any (·.2.isOpen)) ∧ (∀ p ∈ d'.paths, ¬ p.2.any (·.2.isOpen)) ∧
    d.toJson.withoutSecurity = d'.toJson.withoutSecurity ∧
    (postsOnly.withAccess fun e =>
      if e.name = "User" then post.access else e.access).document = .ok d := by
  obtain ⟨-, hviews, -, haccess⟩ := Generator.rules_move_only_security postsOnly
  obtain ⟨d, hd⟩ : ∃ d, postsOnly.document = .ok d := ⟨_, rfl⟩
  obtain ⟨d', hd'⟩ : ∃ d, (postsOnly.governedBy lockedDown).document = .ok d := ⟨_, rfl⟩
  refine ⟨d, d', hd, hd', ?_, ?_, hviews lockedDown d d' hd hd', ?_⟩
  · cases hd
    decide +kernel
  · cases hd'
    decide +kernel
  · rw [haccess _ ?_, hd]
    intro e he
    have hpost : e = post := List.mem_singleton.1 he
    rw [hpost]
    rfl

end Blog

end ResourceApi
