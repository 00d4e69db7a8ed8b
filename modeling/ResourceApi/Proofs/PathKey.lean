import ResourceApi.Proofs.Endpoint
import ResourceApi.Proofs.LowerCase

/-!
# Keys of paths

A document keeps one path item for each path. When two entities have one path, the later entity's
item stands there and the earlier one is lost.

**Items name their entity** (`name_eq_of_item_eq`). Entities with different names have different
path items, since an item has an operation whose id and tag together show the name.

**What is kept** (`path_items_kept`). So an item is kept exactly when no later entity has its path.
Entities share no path when the names they go by hold no slash and stay different with their first
letters in lower case; then every item is kept. Such a condition is needed: names that differ only
in the case of the first letter lead to one path (`not_all_path_items_kept`).
-/

namespace ResourceApi

/-! ## Items name their entity -/

namespace Endpoint

variable {r : Routing} {e e' : Entity}

theorem get_id_cases {x : Endpoint} (hx : x ∈ r.endpoints e) (hget : x.method = .get)
    (rules : Openness) (filters : List FilterParameter) :
    (∃ s, (x.operation r e rules filters).id = "list-" ++ (e.name ++ s)) ∨
      ∃ s, (x.operation r e rules filters).id = "fetch-" ++ (e.name ++ s) := by
  cases x with
  | list => exact .inl ⟨"", by rw [Text.append_empty]; rfl⟩
  | fetch => exact .inr ⟨"", by rw [Text.append_empty]; rfl⟩
  | related f target =>
    refine .inr ⟨"-related-" ++ f.name, ?_⟩
    show "fetch-" ++ e.name ++ "-related-" ++ f.name = _
    rw [Text.append_assoc, Text.append_assoc]
  | linkage f target =>
    refine .inr ⟨"-relationship-" ++ f.name, ?_⟩
    show "fetch-" ++ e.name ++ "-relationship-" ++ f.name = _
    rw [Text.append_assoc, Text.append_assoc]
  | create | delete | link f target => cases hget
  | update m | relink f target m =>
    -- An update is put or patched.
    cases hget
    rcases Routing.mem_endpoints_iff.1 hx with hx | ⟨route, -, hx⟩ <;> simp [own, ofRoute] at hx

theorem name_eq_of_operation_eq {x y : Endpoint} (hx : x ∈ r.endpoints e) (hy : y ∈ r.endpoints e')
    (hxget : x.method = .get) (hyget : y.method = .get) {rules rules' : Openness}
    {filters filters' : List FilterParameter}
    (h : x.operation r e rules filters = y.operation r e' rules' filters') : e.name = e'.name := by
  have htag : Text.lowerFirst e.name = Text.lowerFirst e'.name := by
    have h := congrArg Operation.tag h
    rwa [operation_tag, operation_tag] at h
  have hid := congrArg Operation.id h
  have hverb (s t : Text) : "list-" ++ s ≠ "fetch-" ++ t := fun h => by
    cases congrArg (fun t : Text => t.points.head?) h
  rcases get_id_cases hx hxget rules filters with ⟨s, hs⟩ | ⟨s, hs⟩ <;>
    rcases get_id_cases hy hyget rules' filters' with ⟨t, ht⟩ | ⟨t, ht⟩ <;>
    rw [hs, ht] at hid
  · exact Text.eq_of_lowerFirst_eq htag (Text.append_right_inj.1 hid)
  · exact absurd hid (hverb _ _)
  · exact absurd hid.symm (hverb _ _)
  · exact Text.eq_of_lowerFirst_eq htag (Text.append_right_inj.1 hid)

end Endpoint

namespace Routing

variable {r : Routing} {e e' : Entity} {items items' : Assoc Text PathItem} {path : Text}

/-- **Entities with different names have different path items.** -/
theorem name_eq_of_item_eq (h : r.paths e = .ok items) (h' : r.paths e' = .ok items')
    {path' : Text} {item : PathItem} (hitem : (path, item) ∈ items)
    (hitem' : (path', item) ∈ items') : e.name = e'.name := by
  obtain ⟨o, ho, x, hx, -, hxget, rules, filters, -, -, hxo⟩ := exists_serves_get h hitem
  obtain ⟨y, hy, -, hyget, rules', filters', -, -, hyo⟩ := exists_serves h' hitem' ho
  exact Endpoint.name_eq_of_operation_eq hx hy hxget.symm hyget.symm (hxo.symm.trans hyo)

/-! ## Shared paths -/

/-- The entity has a path item at the path. -/
def Writes (r : Routing) (e : Entity) (path : Text) : Prop :=
  ∃ items, r.paths e = .ok items ∧ path ∈ Assoc.keys items

theorem exists_suffix_of_writes (h : r.Writes e path) :
    ∃ s : Text, path = r.base e ++ s ∧ ∀ c ∈ s.points.head?, c = .char '/' := by
  obtain ⟨items, hitems, hkey⟩ := h
  obtain ⟨item, hitem⟩ := Assoc.exists_of_mem_keys hkey
  obtain ⟨o, -, x, -, hpath, -⟩ := exists_serves_get hitems hitem
  rw [hpath]
  cases x with
  | list | create => exact ⟨"", (Text.append_empty _).symm, nofun⟩
  | fetch | update m | delete => exact ⟨"/\x7bid\x7d", rfl, by simp⟩
  | related f target =>
    refine ⟨"/\x7bid\x7d" ++ ("/" ++ f.name), ?_, by simp⟩
    show r.base e ++ "/\x7bid\x7d" ++ "/" ++ f.name = _
    rw [Text.append_assoc, Text.append_assoc]
  | linkage f target | relink f target m | link f target =>
    refine ⟨"/\x7bid\x7d" ++ ("/relationships/" ++ f.name), ?_, by simp⟩
    show r.base e ++ "/\x7bid\x7d" ++ "/relationships/" ++ f.name = _
    rw [Text.append_assoc, Text.append_assoc]

/-- **Entities that share a path go by one name**, first letters in lower case, if the names they
go by hold no slash. -/
theorem lowerFirst_eq_of_writes (hslash : .char '/' ∉ (r.mappedName e).points)
    (hslash' : .char '/' ∉ (r.mappedName e').points) (h : r.Writes e path)
    (h' : r.Writes e' path) :
    Text.lowerFirst (r.mappedName e) = Text.lowerFirst (r.mappedName e') := by
  obtain ⟨s, hs, hsuffix⟩ := exists_suffix_of_writes h
  obtain ⟨t, ht, hsuffix'⟩ := exists_suffix_of_writes h'
  have hcommon : r.pathPrefix ++ "/" ++ (Text.lowerFirst (r.mappedName e) ++ s) =
      r.pathPrefix ++ "/" ++ (Text.lowerFirst (r.mappedName e') ++ t) := by
    rw [← Text.append_assoc, ← Text.append_assoc]
    exact hs.symm.trans ht
  exact Text.eq_of_append_eq (fun hc => hslash (Text.mem_of_mem_lowerFirst Text.uncased_slash hc))
    (fun hc => hslash' (Text.mem_of_mem_lowerFirst Text.uncased_slash hc)) hsuffix hsuffix'
    (Text.append_right_inj.1 hcommon)

/-- The names that entities go by keep their paths apart: they hold no slash and stay different with
their first letters in lower case. -/
structure Apart (r : Routing) (es : List Entity) : Prop where
  no_slash : ∀ e ∈ es, .char '/' ∉ (r.mappedName e).points
  distinct : (es.map fun e => Text.lowerFirst (r.mappedName e)).Nodup

theorem Apart.not_writes_of_mem_after {before after : List Entity}
    (h : r.Apart (before ++ e :: after)) (hpath : r.Writes e path) (he' : e' ∈ after) :
    ¬ r.Writes e' path := by
  intro hpath'
  have heq := lowerFirst_eq_of_writes (h.no_slash e (by simp)) (h.no_slash e' (by simp [he'])) hpath
    hpath'
  exact ne_of_nodup_map h.distinct he' heq

theorem exists_list_of_paths (h : r.paths e = .ok items) :
    ∃ item o, (r.base e, item) ∈ items ∧ (.get, o) ∈ item ∧ o.id = "list-" ++ e.name := by
  have hkey : r.base e ∈ Assoc.keys items := by
    obtain ⟨rules, filters, related, -, -, -, rfl⟩ := paths_eq_ok_iff.1 h
    rw [Assoc.mem_keys_ofList]
    exact List.mem_cons_self
  obtain ⟨item, hitem⟩ := Assoc.exists_of_mem_keys hkey
  obtain ⟨o, ho, x, -, hpath, hget, rules, filters, -, -, hxo⟩ := exists_serves_get h hitem
  refine ⟨item, o, hitem, ho, ?_⟩
  -- All other endpoints have longer paths or other methods.
  have hlength := congrArg (fun t : Text => t.points.length) hpath
  cases x with
  | list => rw [hxo]; rfl
  | create => cases hget
  | _ =>
    simp [Endpoint.path, itemPath, relatedPath, relationshipPath] at hlength

end Routing

/-! ## What is kept -/

namespace Generator

variable {g : Generator} {d : Document} {before after : List Entity} {e : Entity}

theorem name_ne_of_mem_after (hnames : (g.model.entities.map (·.name)).Nodup)
    (hcovered : g.covered = before ++ e :: after) {e' : Entity} (he' : e' ∈ after) :
    e.name ≠ e'.name := by
  have hdistinct := (g.covered_sublist.map (·.name)).nodup hnames
  rw [hcovered] at hdistinct
  exact ne_of_nodup_map hdistinct he'

theorem paths_of_covered_eq (h : g.document = .ok d) (hcovered : g.covered = before ++ e :: after) :
    ∃ earlier items later, g.routing.paths e = .ok items ∧
      List.Forall₂ (fun e items => g.routing.paths e = .ok items) after later ∧
      d.paths = Assoc.ofList (earlier ++ items ++ later.flatten) := by
  obtain ⟨perEntity, hall, hpaths⟩ := paths_eq_ok_iff.1 (paths_of_document h)
  rw [hcovered, forall₂_append_left_iff] at hall
  obtain ⟨earlier, rest, -, hrest, rfl⟩ := hall
  obtain ⟨items, later, hitems, hlater, rfl⟩ := List.forall₂_cons_left_iff.1 hrest
  refine ⟨earlier.flatten, items, later, hitems, hlater, ?_⟩
  rw [← hpaths, List.flatten_append, List.flatten_cons, List.append_assoc]

theorem get?_later_cases {later : List (Assoc Text PathItem)}
    (hlater : List.Forall₂ (fun e items => g.routing.paths e = .ok items) after later)
    (path : Text) :
    (Assoc.get? (Assoc.ofList later.flatten) path = none ∧
        ∀ e' ∈ after, ¬ g.routing.Writes e' path) ∨
      ∃ e' ∈ after, ∃ items item, g.routing.paths e' = .ok items ∧ (path, item) ∈ items ∧
        Assoc.get? (Assoc.ofList later.flatten) path = some item := by
  cases hget : Assoc.get? (Assoc.ofList later.flatten) path with
  | none =>
    refine .inl ⟨rfl, ?_⟩
    intro e' he' hparts
    obtain ⟨items, hitems, hkey⟩ := hparts
    obtain ⟨items', hmem, hok⟩ := exists_of_mem_left hlater he'
    rw [hitems] at hok
    cases hok
    rw [Assoc.get?_eq_none_iff, Assoc.mem_keys_ofList] at hget
    obtain ⟨item, hitem⟩ := Assoc.exists_of_mem_keys hkey
    exact hget (Assoc.mem_keys_of_mem (List.mem_flatten_of_mem hmem hitem))
  | some item =>
    have hmem := Assoc.mem_of_mem_ofList (Assoc.mem_of_get? hget)
    obtain ⟨items, hitems, hitem⟩ := List.mem_flatten.1 hmem
    obtain ⟨e', he', hok⟩ := exists_of_mem_right hlater hitems
    exact .inr ⟨e', he', items, item, hok, hitem, rfl⟩

theorem get?_paths_iff (hnames : (g.model.entities.map (·.name)).Nodup) (h : g.document = .ok d)
    (hcovered : g.covered = before ++ e :: after) {items : Assoc Text PathItem}
    (hitems : g.routing.paths e = .ok items) {path : Text} {item : PathItem}
    (hitem : (path, item) ∈ items) :
    Assoc.get? d.paths path = some item ↔ ∀ e' ∈ after, ¬ g.routing.Writes e' path := by
  obtain ⟨earlier, items', later, hok, hlater, hpaths⟩ := paths_of_covered_eq h hcovered
  rw [hitems] at hok
  cases hok
  have hnodup := Routing.nodup_keys_paths hitems
  have hown : Assoc.get? (Assoc.ofList items) path = some item := by
    rw [Assoc.ofList_eq_self hnodup]
    exact (Assoc.get?_eq_some_iff_mem hnodup).2 hitem
  rw [hpaths, Assoc.get?_ofList_append, Assoc.get?_ofList_append, hown]
  rcases get?_later_cases hlater path with ⟨hnone, hfree⟩ | ⟨e', he', items', item', hlater⟩
  · rw [hnone]
    exact ⟨fun _ => hfree, fun _ => rfl⟩
  · obtain ⟨hitems', hitem', hsome⟩ := hlater
    rw [hsome]
    refine ⟨fun heq => ?_, fun hfree => ?_⟩
    · cases heq
      have hname := Routing.name_eq_of_item_eq hitems hitems' hitem hitem'
      exact absurd hname (name_ne_of_mem_after hnames hcovered he')
    · exact absurd ⟨items', hitems', Assoc.mem_keys_of_mem hitem'⟩ (hfree e' he')

/-- **An item is kept exactly when no later entity has its path.** Among the items is one with the
list of the entity, at the path of its collection. Where the names that entities go by keep their
paths apart, every item is kept. -/
theorem path_items_kept (hnames : (g.model.entities.map (·.name)).Nodup) (h : g.document = .ok d)
    (hcovered : g.covered = before ++ e :: after) :
    ∃ items, g.routing.paths e = .ok items ∧
      (∃ item o, (g.routing.base e, item) ∈ items ∧ (.get, o) ∈ item ∧
        o.id = "list-" ++ e.name) ∧
      (∀ path item, (path, item) ∈ items →
        (Assoc.get? d.paths path = some item ↔ ∀ e' ∈ after, ¬ g.routing.Writes e' path)) ∧
      (g.routing.Apart g.covered → ∀ path item, (path, item) ∈ items →
        Assoc.get? d.paths path = some item) := by
  obtain ⟨-, items, -, hitems, -⟩ := paths_of_covered_eq h hcovered
  have hkept : ∀ path item, (path, item) ∈ items →
      (Assoc.get? d.paths path = some item ↔ ∀ e' ∈ after, ¬ g.routing.Writes e' path) :=
    fun _ _ hitem => get?_paths_iff hnames h hcovered hitems hitem
  refine ⟨items, hitems, Routing.exists_list_of_paths hitems, hkept, ?_⟩
  intro hapart path item hitem
  rw [hcovered] at hapart
  have hpath : g.routing.Writes e path := ⟨items, hitems, Assoc.mem_keys_of_mem hitem⟩
  rw [hkept path item hitem]
  exact fun e' he' => hapart.not_writes_of_mem_after hpath he'

end Generator

/-- The names of posts and users keep their paths apart, so the list of posts is kept. -/
theorem Blog.list_of_posts_kept : ∃ d item o, generator.document = .ok d ∧
    Assoc.get? d.paths "/post" = some item ∧ (Method.get, o) ∈ item ∧
      o.id = "list-" ++ post.name := by
  obtain ⟨d, hd⟩ : ∃ d, generator.document = .ok d := ⟨_, rfl⟩
  have hcovered : generator.covered = [] ++ post :: [user] := rfl
  obtain ⟨items, -, ⟨item, o, hitem, ho, hid⟩, -, hkept⟩ :=
    Generator.path_items_kept (by decide) hd hcovered
  have hapart : generator.routing.Apart generator.covered := ⟨by decide, by decide⟩
  exact ⟨d, item, o, hd, hkept hapart _ _ hitem, ho, hid⟩

/-- Two entities whose names differ in the case of the first letter. -/
def Blog.lowerCaseTwin : Generator where
  model := { entities := [{ name := "Post" }, { name := "post" }] }
  options := generator.options
  nullStyle := .flag

/-- Distinct names are not enough for all items to be kept: what is asked for the list of one twin
is there for the other. -/
theorem Generator.not_all_path_items_kept : ¬ ∀ (g : Generator) (d : Document),
    (g.model.entities.map (·.name)).Nodup → g.options.nameMapping = [] → g.document = .ok d →
      ∀ e ∈ g.covered, ∀ items, g.routing.paths e = .ok items →
        ∀ path item, (path, item) ∈ items → Assoc.get? d.paths path = some item := by
  intro hall
  obtain ⟨d, hd⟩ : ∃ d, Blog.lowerCaseTwin.document = .ok d := ⟨_, rfl⟩
  have hkept := hall Blog.lowerCaseTwin d (by decide) rfl hd { name := "Post" }
    List.mem_cons_self _ rfl "/post" _ List.mem_cons_self
  cases hd
  have hids := congrArg (Option.map fun item : PathItem => item.map (·.2.id)) hkept
  exact absurd hids (by decide +kernel)

end ResourceApi
