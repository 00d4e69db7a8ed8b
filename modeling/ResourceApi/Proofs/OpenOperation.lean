import ResourceApi.Proofs.DocumentView
import ResourceApi.Proofs.Endpoint

/-!
# Open operations

An operation with an empty list of security requirements is open to everyone; one without any list
falls under the requirements of the document.

**Rules** (`isOpen_iff_alwaysAllowed`). The rules leave an action open when one of them allows it
always and none can deny it.

**Operations** (`security_iff_opened`). An operation is open when its entity has security of its
own, or when the rules of the endpoint's governor allow the endpoint's action to everyone. The
governor is the target of a relationship where the related resources are fetched, and the entity
itself everywhere else.
-/

namespace ResourceApi

/-! ## Rules -/

/-- The rule speaks about an action, by name or by speaking about all. -/
def AccessRule.Concerns (rule : AccessRule) (a : Action) : Prop :=
  a.name ∈ rule.operations ∨ ("all" : Text) ∈ rule.operations

/-- Whatever is decided elsewhere, some rule allows the action and none denies it. -/
structure AlwaysAllowed (rules : List AccessRule) (a : Action) : Prop where
  allowed : ∃ rule ∈ rules, rule.kind = "allow" ∧ rule.Concerns a ∧ rule.condition = .literal true
  not_denied : ∀ rule ∈ rules, rule.kind = "deny" → rule.Concerns a →
    rule.condition = .literal false

theorem mem_coveringRules_iff {kind : Text} {a : Action} {rules : List AccessRule}
    {rule : AccessRule} : rule ∈ coveringRules kind a.name rules ↔
      rule ∈ rules ∧ rule.kind = kind ∧ rule.Concerns a := by
  simp only [coveringRules, AccessRule.covers, AccessRule.Concerns, List.mem_filter,
    Bool.and_eq_true, Bool.or_eq_true, beq_iff_eq, List.contains_iff_mem]

/-- **Open to everyone is allowed always and denied never.** -/
theorem isOpen_iff_alwaysAllowed {rules : List AccessRule} {a : Action} :
    isOpen rules a.name = true ↔ AlwaysAllowed rules a := by
  rw [isOpen, Bool.and_eq_true, List.any_eq_true, List.all_eq_true]
  simp only [mem_coveringRules_iff, beq_iff_eq]
  constructor
  · intro hparts
    obtain ⟨⟨rule, ⟨hrule, hkind, hconcerns⟩, hcondition⟩, hdeny⟩ := hparts
    exact ⟨⟨rule, hrule, hkind, hconcerns, hcondition⟩, fun rule hrule hkind hconcerns =>
      hdeny rule ⟨hrule, hkind, hconcerns⟩⟩
  · intro hparts
    obtain ⟨⟨rule, hrule, hkind, hconcerns, hcondition⟩, hdeny⟩ := hparts
    refine ⟨⟨rule, ⟨hrule, hkind, hconcerns⟩, hcondition⟩, ?_⟩
    intro rule hparts
    obtain ⟨hrule, hkind, hconcerns⟩ := hparts
    exact hdeny rule hrule hkind hconcerns

theorem Entity.allows_openness_iff {e : Entity} {a : Action} :
    e.openness.allows a = true ↔ AlwaysAllowed e.access a := by
  rw [← isOpen_iff_alwaysAllowed]
  cases a <;> rfl

/-! ## Security -/

theorem opens_iff {resource : Option ResourceMeta} {allowed : Bool} :
    opens resource allowed = true ↔
      (∃ about, resource = some about ∧ about.security ≠ none) ∨ allowed = true := by
  cases resource with
  | none => simp [opens]
  | some about => simp [opens, Option.isSome_iff_ne_none, or_comm]

theorem Operation.get?_security (o : Operation) :
    o.toJson.get? "security" = if o.isOpen then some (.arr []) else none := by
  cases hopen : o.isOpen <;> simp [toJson, hopen, Text.ofString_inj]

theorem Operation.exists_security_iff {o : Operation} :
    (∃ v, o.toJson.get? "security" = some v) ↔ o.isOpen = true := by
  rw [get?_security]
  by_cases hopen : o.isOpen
  · rw [if_pos hopen]
    exact ⟨fun _ => hopen, fun _ => ⟨_, rfl⟩⟩
  · rw [if_neg hopen]
    exact ⟨nofun, fun h => absurd h hopen⟩

/-- **An operation is open by its entity's own security or by its governor's rules.** Every
operation among the paths of an entity serves an endpoint of it, and whichever endpoint it serves
decides whether the operation is open; an open operation has an empty list of requirements. -/
theorem Routing.security_iff_opened {r : Routing} (hr : r.openness = fun e => .ok e.openness)
    {e : Entity} {items : Assoc Text PathItem} (h : r.paths e = .ok items) {path : Text}
    {item : PathItem} (hitem : (path, item) ∈ items) {m : Method} {o : Operation}
    (ho : (m, o) ∈ item) :
    (∃ x ∈ r.endpoints e, x.Serves r e path m o) ∧
    (∀ x : Endpoint, x.Serves r e path m o →
      ((∃ v, o.toJson.get? "security" = some v) ↔
        (∃ about, e.resource = some about ∧ about.security ≠ none) ∨
          AlwaysAllowed (x.governor e).access x.action)) ∧
    ∀ v, o.toJson.get? "security" = some v → v = .arr [] := by
  refine ⟨exists_serves h hitem ho, fun x hserves => ?_, fun v hv => ?_⟩
  · obtain ⟨rules, filters, hrules, -, rfl⟩ := hserves.built
    rw [hr] at hrules
    cases hrules
    rw [Operation.exists_security_iff, Endpoint.operation_isOpen, opens_iff,
      Entity.allows_openness_iff]
  · rw [Operation.get?_security] at hv
    split_ifs at hv
    cases hv
    rfl

/-- Everyone may fetch the posts of a user: the rules of posts say so, and the user has none. -/
theorem Blog.security_of_related_posts : ∃ (items : Assoc Text PathItem) (o : Operation),
    generator.routing.paths user = .ok items ∧
      (("/user/\x7bid\x7d/posts" : Text), [(Method.get, o)]) ∈ items ∧
      ∃ v, o.toJson.get? "security" = some v := by
  have hpost : AlwaysAllowed post.access .read :=
    isOpen_iff_alwaysAllowed.1 (by decide)
  obtain ⟨items, o, hitems, hitem, hserves⟩ : ∃ (items : Assoc Text PathItem) (o : Operation),
      generator.routing.paths user = .ok items ∧
        (("/user/\x7bid\x7d/posts" : Text), [(Method.get, o)]) ∈ items ∧
        (Endpoint.related { name := "posts", typeName := "Post", array := true } post).Serves
          generator.routing user "/user/\x7bid\x7d/posts" .get o :=
    ⟨_, _, rfl, List.mem_of_mem_drop (i := 2) List.mem_cons_self, rfl, rfl, _, _, rfl, rfl, rfl⟩
  obtain ⟨-, hopened, -⟩ := Routing.security_iff_opened rfl hitems hitem List.mem_cons_self
  exact ⟨items, o, hitems, hitem, (hopened _ hserves).2 (.inr hpost)⟩

end ResourceApi
