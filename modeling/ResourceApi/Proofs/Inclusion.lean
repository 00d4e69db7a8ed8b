import ResourceApi.Proofs.Exclusion
import ResourceApi.Proofs.Pruning
import ResourceApi.Proofs.TwoRuns

/-!
# Documents of fewer entities

The options narrow the entities that a document covers. Every path is about its owner, and a path of
a relationship about the target also.

**Subjects** (`subjects_narrow`). A route is left out when its target is not covered, and the paths
of an entity when the entity is not. So what remains are the paths whose subjects are all covered.

**Paths** (`exists_paths_including`). Where no path is written twice, the paths of fewer entities
stand among those of more entities, each as it is there: rules and filters do not depend on what
else is covered.

**Main result** (`narrower_document_within`). Fewer paths mention fewer schemas, so the schemas of
the narrower document stand among those of the wider one as well.
-/

namespace ResourceApi

open Json

/-! ## Subjects -/

/-- The paths of an entity, each with the entities it is about: its owner, and the target of the
relationship it belongs to. -/
def Routing.subjects (r : Routing) (e : Entity) : List (Text × List Entity) :=
  [(r.base e, [e]), (itemPath (r.base e), [e])] ++ (r.routes e).flatMap fun route =>
    [(relatedPath (r.base e) route.1, [e, route.2]),
      (relationshipPath (r.base e) route.1, [e, route.2])]

theorem flatMap_filter {α β : Type*} (p : α → Bool) (f : α → List β) (xs : List α) :
    (xs.filter p).flatMap f = xs.flatMap fun x => if p x then f x else [] := by
  induction xs with
  | nil => rfl
  | cons x xs ih =>
    rw [List.filter_cons, List.flatMap_cons, ← ih]
    split_ifs <;> rfl

namespace Generator

/-- The paths of a document in the order in which they are written, with what each is about. -/
def subjects (g : Generator) : List (Text × List Entity) := g.covered.flatMap g.routing.subjects

/-- The generator with other names of entities to cover. -/
def including (g : Generator) (names : Option (List Text)) : Generator :=
  { g with options := { g.options with included := names } }

variable {g : Generator} {inner outer : Option (List Text)}

theorem covered_narrow (hsub : (g.including inner).covered ⊆ (g.including outer).covered) :
    (g.including inner).covered =
      (g.including outer).covered.filter fun e => (g.including inner).admits e.name := by
  have hmem (names : Option (List Text)) (e : Entity) : e ∈ (g.including names).covered ↔
      e ∈ g.model.entities ∧ (!e.ignored && (g.including names).admits e.name) = true := by
    rw [covered_eq_filter, List.mem_filter]
    rfl
  rw [covered_eq_filter, covered_eq_filter, List.filter_filter]
  refine List.filter_congr fun e he => ?_
  -- what the inner names select the outer names select as well
  have houter : (!e.ignored && (g.including inner).admits e.name) = true →
      (!e.ignored && (g.including outer).admits e.name) = true := fun hinner =>
    ((hmem outer e).1 (hsub ((hmem inner e).2 ⟨he, hinner⟩))).2
  revert houter
  cases e.ignored <;> cases (g.including inner).admits e.name <;> simp

/-- A name leads to the entity that it led to, unless the entity is left out. -/
theorem get?_included_narrow (hsub : (g.including inner).covered ⊆ (g.including outer).covered)
    (n : Text) : Assoc.get? (g.including inner).routing.included n =
      if (g.including inner).admits n then Assoc.get? (g.including outer).routing.included n
      else none := by
  -- entities of one name stay or go together, so the last one of a name stays the last
  have hpairs : (g.including inner).covered.map (fun e => (e.name, e)) =
      ((g.including outer).covered.map fun e => (e.name, e)).filter
        fun p => (g.including inner).admits p.1 := by
    rw [covered_narrow hsub, List.filter_map]
    rfl
  rw [routing, routing, hpairs, Assoc.get?_ofList, Assoc.get?_ofList, ← List.filter_reverse,
    Assoc.get?_filter]

theorem name_of_included {n : Text} {e : Entity} (h : Assoc.get? g.routing.included n = some e) :
    e.name = n := by
  obtain ⟨e', -, heq⟩ := List.mem_map.1 (Assoc.mem_of_mem_ofList (Assoc.mem_of_get? h))
  cases heq
  rfl

theorem routes_narrow (hsub : (g.including inner).covered ⊆ (g.including outer).covered)
    (e : Entity) : (g.including inner).routing.routes e =
      ((g.including outer).routing.routes e).filter
        fun route => (g.including inner).admits route.2.name := by
  unfold Routing.routes
  rw [List.filter_filterMap]
  refine List.filterMap_congr fun f _ => ?_
  rw [get?_included_narrow hsub]
  cases htarget : Assoc.get? (g.including outer).routing.included f.typeName with
  | none => simp
  | some target =>
    have hname := name_of_included htarget
    split_ifs with hadmits
    · simp [Option.filter, hname, hadmits]
    · simp [Option.filter, hname, hadmits]

theorem routing_subjects_narrow
    (hsub : (g.including inner).covered ⊆ (g.including outer).covered) (e : Entity) :
    ((g.including outer).routing.subjects e).filter
      (fun p => p.2.all fun e => (g.including inner).admits e.name) =
        if (g.including inner).admits e.name then (g.including inner).routing.subjects e
        else [] := by
  have hbase : (g.including outer).routing.base e = (g.including inner).routing.base e := rfl
  rw [Routing.subjects, Routing.subjects, routes_narrow hsub, flatMap_filter, List.filter_append,
    List.filter_flatMap, hbase]
  split_ifs with he
  · congr 1
    · simp [he]
    · refine List.flatMap_congr fun route _ => ?_
      split_ifs with htarget
      · simp [he, htarget]
      · simp [htarget]
  · simp [he]

/-- **What remains are the paths whose subjects are all covered.** -/
theorem subjects_narrow (hsub : (g.including inner).covered ⊆ (g.including outer).covered) :
    (g.including inner).subjects = (g.including outer).subjects.filter
      fun p => p.2.all fun e => (g.including inner).admits e.name := by
  rw [subjects, subjects, covered_narrow hsub, List.filter_flatMap, flatMap_filter]
  exact List.flatMap_congr fun e _ => (routing_subjects_narrow hsub e).symm

end Generator

/-! ## Paths -/

namespace Routing

variable {r : Routing} {e : Entity}

theorem keys_routePaths {rules : Openness} {route : Field × Entity} {pairs : List (Text × PathItem)}
    (h : r.routePaths e rules route = .ok pairs) :
    Assoc.keys pairs = [relatedPath (r.base e) route.1, relationshipPath (r.base e) route.1] := by
  obtain ⟨targetRules, filters, -, -, rfl⟩ := routePaths_eq_ok_iff.1 h
  rfl

theorem keys_writes {rules : Openness} {filters : List FilterParameter}
    {related : List (List (Text × PathItem))}
    (h : List.Forall₂ (fun route pairs => r.routePaths e rules route = .ok pairs) (r.routes e)
      related) :
    Assoc.keys (r.ownPaths e rules filters ++ related.flatten) = Assoc.keys (r.subjects e) := by
  have hrelated : related.map Assoc.keys = (r.routes e).map fun route =>
      [relatedPath (r.base e) route.1, relationshipPath (r.base e) route.1] :=
    map_eq_map_of_forall₂ h fun _ _ => keys_routePaths
  rw [Assoc.keys_append, Assoc.keys_flatten, hrelated, subjects, Assoc.keys_append, Assoc.keys,
    Assoc.keys, Assoc.keys, List.map_flatMap, List.flatMap_def]
  rfl

theorem writes_of_paths {items : Assoc Text PathItem} (h : r.paths e = .ok items)
    (hkeys : (Assoc.keys (r.subjects e)).Nodup) :
    ∃ rules filters related, r.openness e = .ok rules ∧ r.filters e = .ok filters ∧
      List.Forall₂ (fun route pairs => r.routePaths e rules route = .ok pairs) (r.routes e)
        related ∧ r.ownPaths e rules filters ++ related.flatten = items := by
  obtain ⟨rules, filters, related, hrules, hfilters, hrelated, rfl⟩ := paths_eq_ok_iff.1 h
  refine ⟨rules, filters, related, hrules, hfilters, hrelated, ?_⟩
  rw [Assoc.ofList_eq_self]
  rwa [keys_writes hrelated]

theorem keys_paths {items : Assoc Text PathItem} (h : r.paths e = .ok items)
    (hkeys : (Assoc.keys (r.subjects e)).Nodup) :
    Assoc.keys items = Assoc.keys (r.subjects e) := by
  obtain ⟨rules, filters, related, -, -, hrelated, rfl⟩ := writes_of_paths h hkeys
  exact keys_writes hrelated

/-- **An entity with fewer routes has fewer paths**, each as it was. -/
theorem exists_paths_of_sublist {included : Assoc Text Entity} {items : Assoc Text PathItem}
    (h : r.paths e = .ok items) (hkeys : (Assoc.keys (r.subjects e)).Nodup)
    (hroutes : ({ r with included }.routes e).Sublist (r.routes e)) :
    ∃ items', { r with included }.paths e = .ok items' ∧ items'.Sublist items := by
  obtain ⟨rules, filters, related, hrules, hfilters, hrelated, rfl⟩ := writes_of_paths h hkeys
  obtain ⟨related', hrelated', hsub⟩ := exists_sublist_answers hroutes hrelated
    fun route _ pairs hpairs => ⟨pairs, hpairs, List.Sublist.refl _⟩
  -- the own paths are the same, since what is covered decides only about routes
  have hwrites : (r.ownPaths e rules filters ++ related'.flatten).Sublist
      (r.ownPaths e rules filters ++ related.flatten) := (List.Sublist.refl _).append hsub
  have hnodup : (Assoc.keys (r.ownPaths e rules filters ++ related'.flatten)).Nodup := by
    refine List.Nodup.sublist (hwrites.map Prod.fst) ?_
    show (Assoc.keys _).Nodup
    rwa [keys_writes hrelated]
  refine ⟨_, ?_, hwrites⟩
  exact paths_eq_ok_iff.2 ⟨rules, filters, related', hrules, hfilters, hrelated',
    Assoc.ofList_eq_self hnodup⟩

end Routing

namespace Generator

variable {g : Generator} {inner outer : Option (List Text)}

theorem nodup_keys_routing_subjects (hkeys : (Assoc.keys g.subjects).Nodup) {e : Entity}
    (he : e ∈ g.covered) : (Assoc.keys (g.routing.subjects e)).Nodup := by
  rw [subjects, Assoc.keys, List.map_flatMap] at hkeys
  exact (List.nodup_flatMap.1 hkeys).1 e he

theorem keys_perEntity (hkeys : (Assoc.keys g.subjects).Nodup)
    {perEntity : List (Assoc Text PathItem)}
    (h : List.Forall₂ (fun e items => g.routing.paths e = .ok items) g.covered perEntity) :
    Assoc.keys perEntity.flatten = Assoc.keys g.subjects := by
  have hall := (List.forall₂_and_left _ _).2 ⟨fun e => nodup_keys_routing_subjects hkeys, h⟩
  have hentities : perEntity.map Assoc.keys =
      g.covered.map fun e => Assoc.keys (g.routing.subjects e) :=
    map_eq_map_of_forall₂ hall fun e items hparts => Routing.keys_paths hparts.2 hparts.1
  rw [Assoc.keys_flatten, hentities, subjects, Assoc.keys, List.map_flatMap, List.flatMap_def]
  rfl

theorem perEntity_of_paths {paths : Assoc Text PathItem} (h : g.paths = .ok paths)
    (hkeys : (Assoc.keys g.subjects).Nodup) :
    ∃ perEntity, List.Forall₂ (fun e items => g.routing.paths e = .ok items) g.covered perEntity ∧
      perEntity.flatten = paths := by
  obtain ⟨perEntity, hall, rfl⟩ := paths_eq_ok_iff.1 h
  refine ⟨perEntity, hall, (Assoc.ofList_eq_self ?_).symm⟩
  rwa [keys_perEntity hkeys hall]

theorem keys_paths {paths : Assoc Text PathItem} (h : g.paths = .ok paths)
    (hkeys : (Assoc.keys g.subjects).Nodup) : Assoc.keys paths = Assoc.keys g.subjects := by
  obtain ⟨perEntity, hall, rfl⟩ := perEntity_of_paths h hkeys
  exact keys_perEntity hkeys hall

/-- **The paths of fewer entities stand among those of more**, each as it is there. -/
theorem exists_paths_including (hsub : (g.including inner).covered ⊆ (g.including outer).covered)
    {paths : Assoc Text PathItem} (h : (g.including outer).paths = .ok paths)
    (hkeys : (Assoc.keys (g.including outer).subjects).Nodup) :
    ∃ paths', (g.including inner).paths = .ok paths' ∧ paths'.Sublist paths ∧
      Assoc.keys paths' = Assoc.keys (g.including inner).subjects := by
  obtain ⟨perEntity, hall, rfl⟩ := perEntity_of_paths h hkeys
  have hcovered : (g.including inner).covered.Sublist (g.including outer).covered := by
    rw [covered_narrow hsub]
    exact List.filter_sublist
  have hroutes (e : Entity) : ((g.including inner).routing.routes e).Sublist
      ((g.including outer).routing.routes e) := by
    rw [routes_narrow hsub]
    exact List.filter_sublist
  obtain ⟨perEntity', hall', hpaths⟩ := exists_sublist_answers hcovered hall
    fun e he items hitems => Routing.exists_paths_of_sublist hitems
      (nodup_keys_routing_subjects hkeys (hsub he)) (hroutes e)
  have hkeys' : (Assoc.keys (g.including inner).subjects).Nodup := by
    rw [subjects_narrow hsub]
    exact hkeys.sublist (List.filter_sublist.map _)
  have hnames : Assoc.keys perEntity'.flatten = Assoc.keys (g.including inner).subjects :=
    keys_perEntity hkeys' hall'
  refine ⟨perEntity'.flatten, ?_, hpaths, hnames⟩
  refine paths_eq_ok_iff.2 ⟨perEntity', hall', Assoc.ofList_eq_self ?_⟩
  rwa [hnames]

/-! ## Documents -/

theorem mem_covered_narrow (hsub : (g.including inner).covered ⊆ (g.including outer).covered)
    {e : Entity} : e ∈ (g.including inner).covered ↔
      e ∈ (g.including outer).covered ∧ (g.including inner).admits e.name = true := by
  rw [covered_narrow hsub, List.mem_filter]

theorem subset_covered_of_mem_subjects {p : Text × List Entity} (hp : p ∈ g.subjects) :
    p.2 ⊆ g.covered := by
  obtain ⟨e, he, hp⟩ := List.mem_flatMap.1 hp
  rcases List.mem_append.1 hp with hp | hp
  · simp only [List.mem_cons, List.not_mem_nil, or_false] at hp
    rcases hp with rfl | rfl <;> simp [he]
  · obtain ⟨route, hroute, hp⟩ := List.mem_flatMap.1 hp
    have htarget : route.2 ∈ g.covered := mem_covered_of_mem_routes hroute
    simp only [List.mem_cons, List.not_mem_nil, or_false] at hp
    rcases hp with rfl | rfl <;> simp [he, htarget]

/-- **A path remains when its subjects are all covered.** -/
theorem mem_keys_subjects_narrow
    (hsub : (g.including inner).covered ⊆ (g.including outer).covered)
    (hkeys : (Assoc.keys (g.including outer).subjects).Nodup) {p : Text × List Entity}
    (hp : p ∈ (g.including outer).subjects) :
    p.1 ∈ Assoc.keys (g.including inner).subjects ↔ p.2 ⊆ (g.including inner).covered := by
  have hall : (p.2.all fun e => (g.including inner).admits e.name) = true ↔
      p.2 ⊆ (g.including inner).covered := by
    rw [List.all_eq_true]
    refine forall₂_congr fun e he => ?_
    rw [mem_covered_narrow hsub]
    exact (and_iff_right (subset_covered_of_mem_subjects hp he)).symm
  rw [← hall, subjects_narrow hsub]
  constructor
  · intro hkey
    obtain ⟨q, hq, heq⟩ := List.mem_map.1 hkey
    obtain ⟨hmem, hadmits⟩ := List.mem_filter.1 hq
    rwa [← List.inj_on_of_nodup_map hkeys hmem hp heq]
  · intro hadmits
    exact Assoc.mem_keys_of_mem (List.mem_filter.2 ⟨hp, hadmits⟩)

/-- The names let an entity of a name be covered: there are none, or the name is one of them. -/
def Includes (names : Option (List Text)) (name : Text) : Prop :=
  ∀ listed, names = some listed → name ∈ listed

theorem admits_including_iff {names : Option (List Text)} {name : Text} :
    (g.including names).admits name = true ↔ Includes names name := by
  cases names <;> simp [admits, including, Includes]

theorem document_including_congr {names names' : Option (List Text)}
    (h : (g.including names).covered = (g.including names').covered) :
    (g.including names).document = (g.including names').document := by
  have hrouting : (g.including names).routing = (g.including names').routing := by
    simp only [routing, h]
    rfl
  have hpaths : (g.including names).paths = (g.including names').paths := by
    simp only [paths, h, hrouting]
  simp only [document, h, hpaths]
  rfl

/-- **The document of fewer entities lies within that of more.** Where no path is written twice,
its paths are those whose subjects are all covered, and its schemas are some of those there, all as
they are there and in their order. And of the names that the options give, only those of entities
that are not ignored matter, and neither their order nor how often they are given. -/
theorem narrower_document_within (g : Generator) :
    (∀ inner outer d, (g.including inner).covered ⊆ (g.including outer).covered →
      (Assoc.keys (g.including outer).subjects).Nodup → (g.including outer).document = .ok d →
      ∃ d', (g.including inner).document = .ok d' ∧
        Assoc.keys d.paths = Assoc.keys (g.including outer).subjects ∧
        (∃ keep : Text → Bool, d'.paths = d.paths.filter (fun p => keep p.1) ∧
          ∀ p ∈ (g.including outer).subjects,
            keep p.1 = true ↔ p.2 ⊆ (g.including inner).covered) ∧
        d'.schemas.Sublist d.schemas) ∧
    ∀ names names', (∀ e ∈ g.model.entities, e.ignored = false →
        (Includes names e.name ↔ Includes names' e.name)) →
      (g.including names).document = (g.including names').document := by
  constructor
  · intro inner outer d hsub hkeys h
    obtain ⟨schemes, schemas, paths, hschemes, hschemas, hpaths, rfl⟩ := document_eq_ok_iff.1 h
    obtain ⟨paths', hpaths', hwithin, hnames⟩ := exists_paths_including hsub hpaths hkeys
    have hall : Assoc.keys paths = Assoc.keys (g.including outer).subjects :=
      keys_paths hpaths hkeys
    refine ⟨_, document_eq_ok_iff.2 ⟨schemes, schemas, paths', hschemes, hschemas, hpaths', rfl⟩,
      hall, ⟨fun n => n ∈ Assoc.keys paths', ?_, ?_⟩, ?_⟩
    · exact Assoc.eq_filter_of_sublist hwithin (by rwa [hall])
    · intro p hp
      rw [decide_eq_true_iff, hnames]
      exact mem_keys_subjects_narrow hsub hkeys hp
    · refine prune_sublist fun n hn => ?_
      obtain ⟨p, hp, hn⟩ := mentions_pathsJson_iff.1 hn
      exact mentions_pathsJson_iff.2 ⟨p, hwithin.subset hp, hn⟩
  · intro names names' hnames
    refine document_including_congr ?_
    rw [covered_eq_filter, covered_eq_filter]
    refine List.filter_congr fun e he => ?_
    cases hignored : e.ignored with
    | true => rfl
    | false =>
      rw [Bool.eq_iff_iff]
      simpa [admits_including_iff] using hnames e he hignored

end Generator

namespace Blog

/-- The document of posts lies within that of the blog, and is the same when posts are named twice
and beside a name that no entity has. -/
theorem posts_within_blog : ∃ d d', generator.document = .ok d ∧ postsOnly.document = .ok d' ∧
    (∃ keep : Text → Bool, d'.paths = d.paths.filter (fun p => keep p.1) ∧
      keep "/post" = true ∧ keep "/user" = false) ∧
    d'.schemas.Sublist d.schemas ∧
    (generator.including (some ["Post", "Comment", "Post"])).document = .ok d' := by
  obtain ⟨hwithin, hnames⟩ := Generator.narrower_document_within generator
  have hsub : (generator.including (some ["Post"])).covered ⊆
      (generator.including none).covered := by
    show [post] ⊆ [post, user]
    simp
  obtain ⟨d, hd⟩ : ∃ d, generator.document = .ok d := ⟨_, rfl⟩
  obtain ⟨d', hd', -, ⟨keep, hkeep, hsubjects⟩, hschemas⟩ :=
    hwithin (some ["Post"]) none d hsub (by decide +kernel) hd
  have hown {e : Entity} (he : e ∈ [post, user]) :
      ((generator.including none).routing.base e, [e]) ∈ (generator.including none).subjects :=
    List.mem_flatMap.2 ⟨e, he, List.mem_cons_self⟩
  have hpost : keep "/post" = true ↔ [post] ⊆ [post] := hsubjects _ (hown (e := post) (by simp))
  have huser : keep "/user" = true ↔ [user] ⊆ [post] := hsubjects _ (hown (e := user) (by simp))
  refine ⟨d, d', hd, hd', ⟨keep, hkeep, hpost.2 (List.Subset.refl _), ?_⟩, hschemas, ?_⟩
  · rw [Bool.eq_false_iff, Ne, huser]
    intro hmem
    have hsame : user = post := List.mem_singleton.1 (hmem List.mem_cons_self)
    exact absurd (congrArg Entity.name hsame) (by decide)
  · rw [hnames _ (some ["Post"]) ?_, hd']
    intro e he _
    rcases List.mem_pair.1 he with rfl | rfl
    · simp [Generator.Includes, post]
    · simp [Generator.Includes, user, Text.ofString_inj]

end Blog

end ResourceApi
