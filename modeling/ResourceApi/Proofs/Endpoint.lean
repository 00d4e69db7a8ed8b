import ResourceApi.Document
import ResourceApi.Proofs.Fallible
import ResourceApi.Proofs.OrderedMap

/-!
# Endpoints

An endpoint is a request that can be made on an entity: on its collection, on one of its items, on
the resources of a relationship, or on the relationship itself. Each endpoint has a path and a
method, an entity whose rules govern it, the action those rules are asked about, and an operation
built for it.

**Every operation serves an endpoint** (`exists_serves`). What stands at a path and a method among
the paths of an entity was built for one of the entity's endpoints there, from the rules of its
governor. Two endpoints may share a position when fields share a name or contain slashes; the later
one is then served.

**Assembly** (`exists_serves_of_document`). The same holds of a document and its covered entities.
-/

namespace ResourceApi

open Routing

/-- A request on the resources of an entity, or on a relationship to a target. -/
inductive Endpoint where
  | list
  | create
  | fetch
  | update (method : Method)
  | delete
  /-- The resources that a relationship leads to. -/
  | related (f : Field) (target : Entity)
  /-- What a relationship holds. -/
  | linkage (f : Field) (target : Entity)
  /-- Replaces what a relationship holds. -/
  | relink (f : Field) (target : Entity) (method : Method)
  /-- Adds to what a relationship holds. -/
  | link (f : Field) (target : Entity)

namespace Endpoint

def method : Endpoint → Method
  | .list | .fetch | .related .. | .linkage .. => .get
  | .create | .link .. => .post
  | .update m | .relink _ _ m => m
  | .delete => .delete

def path (r : Routing) (e : Entity) : Endpoint → Text
  | .list | .create => r.base e
  | .fetch | .update _ | .delete => itemPath (r.base e)
  | .related f _ => relatedPath (r.base e) f
  | .linkage f _ | .relink f _ _ | .link f _ => relationshipPath (r.base e) f

/-- The entity whose rules govern the endpoint: its own, or that of the related resources. -/
def governor (e : Entity) : Endpoint → Entity
  | .related _ target => target
  | _ => e

/-- The relationship that the endpoint belongs to, with its target. -/
def route? : Endpoint → Option (Field × Entity)
  | .related f target | .linkage f target | .relink f target _ | .link f target => some (f, target)
  | _ => none

/-- What the rules are asked about. -/
def action : Endpoint → Action
  | .list | .fetch | .related .. | .linkage .. => .read
  | .create => .create
  | .update _ | .relink .. | .link .. => .update
  | .delete => .delete

/-- The entity whose collection the endpoint lists, if it lists one. -/
def listed? (e : Entity) : Endpoint → Option Entity
  | .list => some e
  | .related f target | .linkage f target => if f.array then some target else none
  | _ => none

/-- The filters that the endpoint takes. -/
def filters (r : Routing) (e : Entity) : Endpoint → Except Failure (List FilterParameter)
  | .list => r.filters e
  | .related f target | .linkage f target => r.targetFilters f target
  | _ => .ok []

/-- The operation built for the endpoint, given its governor's rules and its filters. -/
def operation (r : Routing) (e : Entity) (rules : Openness) (filters : List FilterParameter) :
    Endpoint → Operation
  | .list => Routing.list e rules filters
  | .create => Routing.create e rules
  | .fetch => Routing.fetch e rules
  | .update m => r.update e rules m
  | .delete => Routing.delete e rules
  | .related f target => fetchRelated e f target rules filters
  | .linkage f _ => fetchRelationship e rules f filters
  | .relink f _ m => updateRelationship e rules f m
  | .link f _ => createRelationship e rules f

/-- The endpoints that every entity has. -/
def own : List Endpoint := [.list, .create, .fetch, .update .put, .update .patch, .delete]

/-- The endpoints of a relationship; only a to-many relationship can be added to. -/
def ofRoute (route : Field × Entity) : List Endpoint :=
  [.related route.1 route.2, .linkage route.1 route.2, .relink route.1 route.2 .put,
    .relink route.1 route.2 .patch] ++ if route.1.array then [.link route.1 route.2] else []

/-- The operation was built for the endpoint and stands at its path and method. -/
structure Serves (r : Routing) (e : Entity) (x : Endpoint) (path : Text) (m : Method)
    (o : Operation) : Prop where
  path_eq : path = x.path r e
  method_eq : m = x.method
  built : ∃ rules filters, r.openness (x.governor e) = .ok rules ∧
    x.filters r e = .ok filters ∧ o = x.operation r e rules filters

@[simp] theorem operation_tag (r : Routing) (e : Entity) (rules : Openness)
    (filters : List FilterParameter) (x : Endpoint) :
    (x.operation r e rules filters).tag = Routing.tag e := by
  cases x <;> rfl

/-- **An operation is open by its entity's own security or by its governor's rules.** -/
@[simp] theorem operation_isOpen (r : Routing) (e : Entity) (rules : Openness)
    (filters : List FilterParameter) (x : Endpoint) :
    (x.operation r e rules filters).isOpen = opens e.resource (rules.allows x.action) := by
  cases x <;> rfl

end Endpoint

namespace Routing

/-- The endpoints of an entity, in the order of its paths. -/
def endpoints (r : Routing) (e : Entity) : List Endpoint :=
  Endpoint.own ++ (r.routes e).flatMap Endpoint.ofRoute

variable {r : Routing} {e : Entity}

theorem mem_routes_iff {f : Field} {target : Entity} :
    (f, target) ∈ r.routes e ↔ f ∈ e.fields ∧ r.model.isRelationship f = true ∧
      Assoc.get? r.included f.typeName = some target := by
  simp only [routes, List.mem_filterMap, List.mem_filter, Option.map_eq_some_iff, Prod.mk.injEq]
  constructor
  · intro hparts
    obtain ⟨f', ⟨hf, hrel⟩, target', htarget, rfl, rfl⟩ := hparts
    exact ⟨hf, hrel, htarget⟩
  · intro hparts
    obtain ⟨hf, hrel, htarget⟩ := hparts
    exact ⟨f, ⟨hf, hrel⟩, target, htarget, rfl, rfl⟩

theorem mem_endpoints_iff {x : Endpoint} : x ∈ r.endpoints e ↔
    x ∈ Endpoint.own ∨ ∃ route ∈ r.routes e, x ∈ Endpoint.ofRoute route := by
  rw [endpoints, List.mem_append, List.mem_flatMap]

theorem mem_routes_of_mem_endpoints {x : Endpoint} (hx : x ∈ r.endpoints e)
    {route : Field × Entity} (h : x.route? = some route) : route ∈ r.routes e := by
  rcases mem_endpoints_iff.1 hx with hx | ⟨route', hroute, hx⟩
  · simp only [Endpoint.own, List.mem_cons, List.not_mem_nil, or_false] at hx
    rcases hx with rfl | rfl | rfl | rfl | rfl | rfl <;> cases h
  · rw [Endpoint.ofRoute] at hx
    rcases List.mem_append.1 hx with hx | hx
    · simp only [List.mem_cons, List.not_mem_nil, or_false] at hx
      rcases hx with rfl | rfl | rfl | rfl <;> cases h <;> exact hroute
    · split_ifs at hx
      · rw [List.mem_singleton.1 hx] at h
        cases h
        exact hroute
      · cases hx

/-- A governor is the entity itself or the target of one of its routes. -/
theorem governor_cases {x : Endpoint} (hx : x ∈ r.endpoints e) :
    x.governor e = e ∨ ∃ f, (f, x.governor e) ∈ r.routes e := by
  cases x with
  | related f target => exact .inr ⟨f, mem_routes_of_mem_endpoints hx rfl⟩
  | _ => exact .inl rfl

/-! ## Path items -/

theorem paths_eq_ok_iff {items : Assoc Text PathItem} :
    r.paths e = .ok items ↔ ∃ rules filters related, r.openness e = .ok rules ∧
      r.filters e = .ok filters ∧
      List.Forall₂ (fun route pairs => r.routePaths e rules route = .ok pairs) (r.routes e)
        related ∧
      Assoc.ofList (r.ownPaths e rules filters ++ related.flatten) = items := by
  simp only [paths, bind_eq_ok_iff, mapM_eq_ok_iff]
  constructor
  · intro hparts
    obtain ⟨rules, hrules, filters, hfilters, related, hrelated, h⟩ := hparts
    cases h
    exact ⟨rules, filters, related, hrules, hfilters, hrelated, rfl⟩
  · intro hparts
    obtain ⟨rules, filters, related, hrules, hfilters, hrelated, rfl⟩ := hparts
    exact ⟨rules, hrules, filters, hfilters, related, hrelated, rfl⟩

theorem routePaths_eq_ok_iff {rules : Openness} {route : Field × Entity}
    {pairs : List (Text × PathItem)} :
    r.routePaths e rules route = .ok pairs ↔ ∃ targetRules filters,
      r.openness route.2 = .ok targetRules ∧ r.targetFilters route.1 route.2 = .ok filters ∧
      r.relationshipPaths e rules route.1 route.2 targetRules filters = pairs := by
  simp only [routePaths, bind_eq_ok_iff]
  constructor
  · intro hparts
    obtain ⟨targetRules, htarget, filters, hfilters, h⟩ := hparts
    cases h
    exact ⟨targetRules, filters, htarget, hfilters, rfl⟩
  · intro hparts
    obtain ⟨targetRules, filters, htarget, hfilters, rfl⟩ := hparts
    exact ⟨targetRules, htarget, filters, hfilters, rfl⟩

/-- **A path item is one of the entity's own or one of a route's.** -/
theorem mem_paths_cases {items : Assoc Text PathItem} (h : r.paths e = .ok items)
    {p : Text × PathItem} (hp : p ∈ items) :
    ∃ rules, r.openness e = .ok rules ∧
      ((∃ filters, r.filters e = .ok filters ∧ p ∈ r.ownPaths e rules filters) ∨
        ∃ route ∈ r.routes e, ∃ targetRules filters, r.openness route.2 = .ok targetRules ∧
          r.targetFilters route.1 route.2 = .ok filters ∧
          p ∈ r.relationshipPaths e rules route.1 route.2 targetRules filters) := by
  obtain ⟨rules, filters, related, hrules, hfilters, hrelated, rfl⟩ := paths_eq_ok_iff.1 h
  refine ⟨rules, hrules, ?_⟩
  rcases List.mem_append.1 (Assoc.mem_of_mem_ofList hp) with hp | hp
  · exact .inl ⟨filters, hfilters, hp⟩
  · obtain ⟨pairs, hpairs, hp⟩ := List.mem_flatten.1 hp
    obtain ⟨route, hroute, hok⟩ := exists_of_mem_right hrelated hpairs
    obtain ⟨targetRules, filters, htarget, hfilters, rfl⟩ := routePaths_eq_ok_iff.1 hok
    exact .inr ⟨route, hroute, targetRules, filters, htarget, hfilters, hp⟩

theorem exists_serves_of_ownPaths {rules : Openness} {filters : List FilterParameter}
    (hrules : r.openness e = .ok rules) (hfilters : r.filters e = .ok filters) {path : Text}
    {item : PathItem} (hp : (path, item) ∈ r.ownPaths e rules filters) {m : Method} {o : Operation}
    (ho : (m, o) ∈ item) : ∃ x ∈ Endpoint.own, x.Serves r e path m o := by
  simp only [ownPaths, List.mem_cons, List.not_mem_nil, or_false, Prod.mk.injEq] at hp
  rcases hp with ⟨rfl, rfl⟩ | ⟨rfl, rfl⟩
  · simp only [List.mem_cons, List.not_mem_nil, or_false, Prod.mk.injEq] at ho
    rcases ho with ⟨rfl, rfl⟩ | ⟨rfl, rfl⟩
    · exact ⟨.list, by simp [Endpoint.own], rfl, rfl, rules, filters, hrules, hfilters, rfl⟩
    · exact ⟨.create, by simp [Endpoint.own], rfl, rfl, rules, [], hrules, rfl, rfl⟩
  · simp only [List.mem_cons, List.not_mem_nil, or_false, Prod.mk.injEq] at ho
    rcases ho with ⟨rfl, rfl⟩ | ⟨rfl, rfl⟩ | ⟨rfl, rfl⟩ | ⟨rfl, rfl⟩
    · exact ⟨.fetch, by simp [Endpoint.own], rfl, rfl, rules, [], hrules, rfl, rfl⟩
    · exact ⟨.update .put, by simp [Endpoint.own], rfl, rfl, rules, [], hrules, rfl, rfl⟩
    · exact ⟨.update .patch, by simp [Endpoint.own], rfl, rfl, rules, [], hrules, rfl, rfl⟩
    · exact ⟨.delete, by simp [Endpoint.own], rfl, rfl, rules, [], hrules, rfl, rfl⟩

theorem exists_serves_of_relationshipPaths {rules targetRules : Openness}
    {filters : List FilterParameter} {f : Field} {target : Entity}
    (hrules : r.openness e = .ok rules) (htarget : r.openness target = .ok targetRules)
    (hfilters : r.targetFilters f target = .ok filters) {path : Text} {item : PathItem}
    (hp : (path, item) ∈ r.relationshipPaths e rules f target targetRules filters) {m : Method}
    {o : Operation} (ho : (m, o) ∈ item) :
    ∃ x ∈ Endpoint.ofRoute (f, target), x.Serves r e path m o := by
  simp only [relationshipPaths, List.mem_cons, List.not_mem_nil, or_false, Prod.mk.injEq] at hp
  rcases hp with ⟨rfl, rfl⟩ | ⟨rfl, rfl⟩
  · simp only [List.mem_cons, List.not_mem_nil, or_false, Prod.mk.injEq] at ho
    obtain ⟨rfl, rfl⟩ := ho
    exact ⟨.related f target, by simp [Endpoint.ofRoute], rfl, rfl, targetRules, filters, htarget,
      hfilters, rfl⟩
  · rcases List.mem_append.1 ho with ho | ho
    · simp only [List.mem_cons, List.not_mem_nil, or_false, Prod.mk.injEq] at ho
      rcases ho with ⟨rfl, rfl⟩ | ⟨rfl, rfl⟩ | ⟨rfl, rfl⟩
      · exact ⟨.linkage f target, by simp [Endpoint.ofRoute], rfl, rfl, rules, filters, hrules,
          hfilters, rfl⟩
      · exact ⟨.relink f target .put, by simp [Endpoint.ofRoute], rfl, rfl, rules, [], hrules, rfl,
          rfl⟩
      · exact ⟨.relink f target .patch, by simp [Endpoint.ofRoute], rfl, rfl, rules, [], hrules,
          rfl, rfl⟩
    · split_ifs at ho with harray
      · rw [List.mem_singleton, Prod.mk.injEq] at ho
        obtain ⟨rfl, rfl⟩ := ho
        exact ⟨.link f target, by simp [Endpoint.ofRoute, harray], rfl, rfl, rules, [], hrules, rfl,
          rfl⟩
      · cases ho

/-- **Every operation serves an endpoint of its entity.** -/
theorem exists_serves {items : Assoc Text PathItem} (h : r.paths e = .ok items) {path : Text}
    {item : PathItem} (hp : (path, item) ∈ items) {m : Method} {o : Operation}
    (ho : (m, o) ∈ item) : ∃ x ∈ r.endpoints e, x.Serves r e path m o := by
  obtain ⟨rules, hrules, ⟨filters, hfilters, hp⟩ |
    ⟨⟨f, target⟩, hroute, targetRules, filters, htarget, hfilters, hp⟩⟩ := mem_paths_cases h hp
  · obtain ⟨x, hx, hserves⟩ := exists_serves_of_ownPaths hrules hfilters hp ho
    exact ⟨x, mem_endpoints_iff.2 (.inl hx), hserves⟩
  · obtain ⟨x, hx, hserves⟩ := exists_serves_of_relationshipPaths hrules htarget hfilters hp ho
    exact ⟨x, mem_endpoints_iff.2 (.inr ⟨_, hroute, hx⟩), hserves⟩

/-- A path item has one operation for each of its methods, and can be asked for with `get`. -/
theorem methods_of_mem_paths {items : Assoc Text PathItem} (h : r.paths e = .ok items)
    {path : Text} {item : PathItem} (hp : (path, item) ∈ items) :
    (item.map Prod.fst).Nodup ∧ .get ∈ item.map Prod.fst := by
  obtain ⟨rules, -, ⟨filters, -, hp⟩ | ⟨⟨f, target⟩, -, targetRules, filters, -, -, hp⟩⟩ :=
    mem_paths_cases h hp
  · simp only [ownPaths, List.mem_cons, List.not_mem_nil, or_false, Prod.mk.injEq] at hp
    rcases hp with ⟨-, rfl⟩ | ⟨-, rfl⟩ <;> simp
  · simp only [relationshipPaths, List.mem_cons, List.not_mem_nil, or_false, Prod.mk.injEq] at hp
    rcases hp with ⟨-, rfl⟩ | ⟨-, rfl⟩
    · simp
    · by_cases harray : f.array <;> simp [harray]

theorem exists_serves_get {items : Assoc Text PathItem} (h : r.paths e = .ok items) {path : Text}
    {item : PathItem} (hp : (path, item) ∈ items) :
    ∃ o, (.get, o) ∈ item ∧ ∃ x ∈ r.endpoints e, x.Serves r e path .get o := by
  obtain ⟨⟨m, o⟩, ho, rfl⟩ := List.mem_map.1 (methods_of_mem_paths h hp).2
  exact ⟨o, ho, exists_serves h hp ho⟩

theorem nodup_keys_paths {items : Assoc Text PathItem} (h : r.paths e = .ok items) :
    (Assoc.keys items).Nodup := by
  obtain ⟨rules, filters, related, -, -, -, rfl⟩ := paths_eq_ok_iff.1 h
  exact Assoc.nodup_keys_ofList _

end Routing

/-! ## Documents -/

namespace Generator

variable {g : Generator}

/-- There is a generator when the version can be read, and its style is that of the version. -/
theorem new_eq_ok_iff {m : Model} {o : Options} {openness : Entity → Except Failure Openness} :
    Generator.new m o openness = .ok g ↔
      ∃ style, o.nullStyle = .ok style ∧ ⟨m, o, style, openness⟩ = g := by
  unfold Generator.new
  cases o.nullStyle <;> simp

/-- Do the options let an entity of the name be covered? -/
def admits (g : Generator) (name : Text) : Bool :=
  match g.options.included with
  | none => true
  | some names => names.contains name

theorem covered_eq_filter (g : Generator) :
    g.covered = g.model.entities.filter fun e => !e.ignored && g.admits e.name := by
  unfold covered admits
  cases g.options.included with
  | none => simp only [Bool.and_true]
  | some names => simp only [List.filter_filter, Bool.and_comm]

theorem covered_sublist (g : Generator) : g.covered.Sublist g.model.entities := by
  rw [covered_eq_filter]
  exact List.filter_sublist

theorem document_eq_ok_iff {d : Document} :
    g.document = .ok d ↔ ∃ schemes schemas paths,
      readSecuritySchemes g.options.securitySchemes = .ok schemes ∧ g.schemas = .ok schemas ∧
      g.paths = .ok paths ∧
      Document.mk g.options.specVersion g.info (g.covered.map tagOf) paths
        (prune (pathsJson paths) schemas) schemes = d := by
  simp only [document, bind_eq_ok_iff]
  constructor
  · intro hparts
    obtain ⟨schemes, hschemes, schemas, hschemas, paths, hpaths, h⟩ := hparts
    cases h
    exact ⟨schemes, schemas, paths, hschemes, hschemas, hpaths, rfl⟩
  · intro hparts
    obtain ⟨schemes, schemas, paths, hschemes, hschemas, hpaths, rfl⟩ := hparts
    exact ⟨schemes, hschemes, schemas, hschemas, paths, hpaths, rfl⟩

theorem paths_eq_ok_iff {paths : Assoc Text PathItem} :
    g.paths = .ok paths ↔ ∃ perEntity,
      List.Forall₂ (fun e items => g.routing.paths e = .ok items) g.covered perEntity ∧
      Assoc.ofList perEntity.flatten = paths := by
  simp only [Generator.paths, map_eq_ok_iff, mapM_eq_ok_iff]

theorem paths_of_document {d : Document} (h : g.document = .ok d) : g.paths = .ok d.paths := by
  obtain ⟨schemes, schemas, paths, -, -, hpaths, rfl⟩ := document_eq_ok_iff.1 h
  exact hpaths

theorem exists_entity_of_mem_paths {paths : Assoc Text PathItem} (h : g.paths = .ok paths)
    {p : Text × PathItem} (hp : p ∈ paths) :
    ∃ e ∈ g.covered, ∃ items, g.routing.paths e = .ok items ∧ p ∈ items := by
  obtain ⟨perEntity, hall, rfl⟩ := paths_eq_ok_iff.1 h
  obtain ⟨items, hitems, hp⟩ := List.mem_flatten.1 (Assoc.mem_of_mem_ofList hp)
  obtain ⟨e, he, hok⟩ := exists_of_mem_right hall hitems
  exact ⟨e, he, items, hok, hp⟩

/-- **Every operation of a document serves an endpoint of a covered entity.** -/
theorem exists_serves_of_document {d : Document} (h : g.document = .ok d) {path : Text}
    {item : PathItem} (hp : (path, item) ∈ d.paths) {m : Method} {o : Operation}
    (ho : (m, o) ∈ item) :
    ∃ e ∈ g.covered, ∃ x ∈ g.routing.endpoints e, x.Serves g.routing e path m o := by
  obtain ⟨e, he, items, hitems, hp⟩ := exists_entity_of_mem_paths (paths_of_document h) hp
  obtain ⟨x, hx, hserves⟩ := exists_serves hitems hp ho
  exact ⟨e, he, x, hx, hserves⟩

theorem nodup_keys_document {d : Document} (h : g.document = .ok d) :
    (Assoc.keys d.paths).Nodup := by
  obtain ⟨perEntity, -, hpaths⟩ := paths_eq_ok_iff.1 (paths_of_document h)
  rw [← hpaths]
  exact Assoc.nodup_keys_ofList _

end Generator

/-! ## A blog -/

namespace Blog

/-- A post, which everyone may read. -/
def post : Entity where
  name := "Post"
  fields := [{ name := "id", typeName := "Int", isId := true },
    { name := "author", typeName := "User" }]
  access := [{ operations := ["read"] }]

/-- A user, with a role and posts. -/
def user : Entity where
  name := "User"
  fields := [{ name := "role", typeName := "Role" },
    { name := "posts", typeName := "Post", array := true }]

/-- Posts and users, covered with all defaults. -/
def generator : Generator where
  model := { entities := [post, user], enums := [⟨"Role", ["admin", "guest"]⟩] }
  options := { output := ⟨"", ["openapi.yaml"]⟩ }
  nullStyle := .flag

end Blog

end ResourceApi
