import ResourceApi.Document
import ResourceApi.Proofs.Reference
import ResourceApi.Proofs.TwoRuns
import Mathlib.Data.List.Chain

/-!
# What pruning keeps

A *chain* leads from the paths of a document to a name: the paths mention its first name, the
schema of each name mentions the next one, and it ends in the name. Names of a chain may repeat,
and a name without a schema ends every chain it is in.

**Chains** (`linked_iff_exists_chain`). A name is linked exactly when a chain ends in it. A link
grows at its end, so one direction appends to a chain and the other takes its last name off.

**Pruning** (`prune_keeps_chained`). What is kept are the schemas that a chain ends in, each as it
was and in the order in which they were.

**Pruning again** (`prune_stable`). Where every schema is linked, nothing is dropped. Since the
chains to kept schemas go through kept schemas only, this is so after pruning, and what is kept is
the least that the paths and the kept schemas need.

**Pruning side by side.** What is kept depends on mentions only. Paths that mention more keep more
(`prune_sublist`), and schemas that mention the same names are kept under the same names
(`prune_alike`). Hence documents that are made alike, up to paths that mention the same names, are
one but for these paths (`parallel_document`).
-/

namespace ResourceApi

/-- The schema of the name `m` mentions the name `n`. -/
def SchemaMentions (schemas : Assoc Text Json) (m n : Text) : Prop :=
  ∃ s, Assoc.get? schemas m = some s ∧ s.Mentions n

/-- The paths mention the first name, and the schema of each name mentions the next. -/
structure LinkChain (paths : Json) (schemas : Assoc Text Json) (chain : List Text) : Prop where
  start : ∀ n ∈ chain.head?, paths.Mentions n
  steps : chain.IsChain (SchemaMentions schemas)

namespace LinkChain

variable {paths : Json} {schemas : Assoc Text Json} {chain : List Text} {m n : Text}

theorem singleton (h : paths.Mentions n) : LinkChain paths schemas [n] where
  start := by simpa using h
  steps := .singleton n

theorem append (h : LinkChain paths schemas chain) (hm : chain.getLast? = some m)
    (hn : SchemaMentions schemas m n) : LinkChain paths schemas (chain ++ [n]) where
  start := by
    have hne : chain ≠ [] := by
      rintro rfl
      cases hm
    rw [List.head?_append_of_ne_nil _ hne]
    exact h.start
  steps := by
    refine List.isChain_append.2 ⟨h.steps, .singleton n, ?_⟩
    intro x hx y hy
    rw [hm] at hx
    cases hx
    cases hy
    exact hn

theorem linked (h : LinkChain paths schemas (chain ++ [n])) : Linked paths schemas n := by
  -- from the end of the chain, where its last step is the last link
  induction chain using List.reverseRecOn generalizing n with
  | nil => exact .root (h.start n rfl)
  | append_singleton chain m ih =>
    obtain ⟨hsteps, -, hlast⟩ := List.isChain_append.1 h.steps
    obtain ⟨s, hs, hn⟩ := hlast m (by simp) n rfl
    refine .step (ih ⟨?_, hsteps⟩) hs hn
    have hstart := h.start
    rwa [List.head?_append_of_ne_nil _ (by simp)] at hstart

end LinkChain

variable {paths : Json} {schemas : Assoc Text Json} {n : Text}

/-- **A name is linked when a chain ends in it.** -/
theorem linked_iff_exists_chain : Linked paths schemas n ↔
    ∃ chain, LinkChain paths schemas chain ∧ chain.getLast? = some n := by
  constructor
  · intro h
    induction h with
    | root hn => exact ⟨[_], .singleton hn, rfl⟩
    | step _ hs hn ih =>
      obtain ⟨chain, hchain, hm⟩ := ih
      exact ⟨chain ++ [_], hchain.append hm ⟨_, hs, hn⟩, List.getLast?_concat⟩
  · intro hparts
    obtain ⟨chain, hchain, hlast⟩ := hparts
    obtain ⟨front, rfl⟩ := List.getLast?_eq_some_iff.1 hlast
    exact hchain.linked

/-- **Pruning keeps exactly the schemas that a chain leads to**, unchanged and in their order. -/
theorem prune_keeps_chained (paths : Json) (schemas : Assoc Text Json) :
    ∃ keep : Text → Bool, prune paths schemas = schemas.filter (fun p => keep p.1) ∧
      ∀ n, keep n = true ↔
        ∃ chain, LinkChain paths schemas chain ∧ chain.getLast? = some n := by
  refine ⟨((ReferenceGraph.ofSchemas schemas).reachable paths.refs).contains, rfl, ?_⟩
  intro n
  rw [← linked_iff_exists_chain, List.contains_iff_mem, ReferenceGraph.mem_reachable_iff,
    linked_iff_reaches]

/-! ## Pruning again -/

theorem prune_eq_self (h : ∀ n ∈ Assoc.keys schemas, Linked paths schemas n) :
    prune paths schemas = schemas := by
  unfold prune
  refine List.filter_eq_self.2 fun p hp => ?_
  rw [List.contains_iff_mem, ReferenceGraph.mem_reachable_iff, ← linked_iff_reaches]
  exact h p.1 (Assoc.mem_keys_of_mem hp)

theorem mem_keys_prune_iff :
    n ∈ Assoc.keys (prune paths schemas) ↔ n ∈ Assoc.keys schemas ∧ Linked paths schemas n := by
  constructor
  · intro hn
    obtain ⟨s, hs⟩ := Assoc.exists_of_mem_keys hn
    obtain ⟨hmem, hlinked⟩ := mem_prune_iff.1 hs
    exact ⟨Assoc.mem_keys_of_mem hmem, hlinked⟩
  · intro hparts
    obtain ⟨hn, hlinked⟩ := hparts
    obtain ⟨s, hs⟩ := Assoc.exists_of_mem_keys hn
    exact Assoc.mem_keys_of_mem (mem_prune_iff.2 ⟨hs, hlinked⟩)

theorem get?_prune_eq_some_iff {s : Json} : Assoc.get? (prune paths schemas) n = some s ↔
    Linked paths schemas n ∧ Assoc.get? schemas n = some s := by
  constructor
  · intro hs
    have hlinked := linked_of_mem_keys_prune (Assoc.mem_keys_of_mem (Assoc.mem_of_get? hs))
    exact ⟨hlinked, get?_prune_of_linked hlinked ▸ hs⟩
  · intro hparts
    obtain ⟨hlinked, hs⟩ := hparts
    rw [get?_prune_of_linked hlinked, hs]

theorem linked_iff_mentioned : Linked paths schemas n ↔
    paths.Mentions n ∨ ∃ m, SchemaMentions (prune paths schemas) m n := by
  constructor
  · intro hn
    cases hn with
    | root hroot => exact .inl hroot
    | step hm hs hmention =>
      exact .inr ⟨_, _, get?_prune_eq_some_iff.2 ⟨hm, hs⟩, hmention⟩
  · intro hcases
    rcases hcases with hroot | ⟨m, s, hs, hmention⟩
    · exact .root hroot
    · obtain ⟨hm, hs⟩ := get?_prune_eq_some_iff.1 hs
      exact .step hm hs hmention

/-- **Pruning again changes nothing, and no reference is left dangling**: of the schemas there were,
those are kept whose names the paths or a kept schema mention. -/
theorem prune_stable (paths : Json) (schemas : Assoc Text Json) :
    prune paths (prune paths schemas) = prune paths schemas ∧
      ∀ n, n ∈ Assoc.keys (prune paths schemas) ↔ n ∈ Assoc.keys schemas ∧
        (paths.Mentions n ∨ ∃ m, SchemaMentions (prune paths schemas) m n) := by
  constructor
  · exact prune_eq_self fun n hn => (linked_of_mem_keys_prune hn).prune
  · intro n
    rw [mem_keys_prune_iff, linked_iff_mentioned]

/-! ## Pruning side by side -/

theorem mem_used_iff : n ∈ (ReferenceGraph.ofSchemas schemas).reachable paths.refs ↔
    Linked paths schemas n := by
  rw [ReferenceGraph.mem_reachable_iff, linked_iff_reaches]

theorem Linked.mono {paths' : Json} (h : ∀ n, paths.Mentions n → paths'.Mentions n)
    (hn : Linked paths schemas n) : Linked paths' schemas n := by
  induction hn with
  | root hroot => exact .root (h _ hroot)
  | step _ hs hmention ih => exact .step ih hs hmention

/-- **Paths that mention more keep more**, in the same order. -/
theorem prune_sublist {paths' : Json} (h : ∀ n, paths.Mentions n → paths'.Mentions n) :
    (prune paths schemas).Sublist (prune paths' schemas) := by
  refine List.monotone_filter_right schemas fun p hp => ?_
  rw [List.contains_iff_mem, mem_used_iff] at hp ⊢
  exact hp.mono h

theorem prune_congr {paths' : Json} (h : ∀ n, paths.Mentions n ↔ paths'.Mentions n) :
    prune paths schemas = prune paths' schemas :=
  (prune_sublist fun n => (h n).1).antisymm (prune_sublist fun n => (h n).2)

theorem Linked.alike {R : Json → Json → Prop} {schemas' : Assoc Text Json}
    (hR : ∀ s t, R s t → ∀ n, s.Mentions n → t.Mentions n) (h : Assoc.Alike R schemas schemas')
    (hn : Linked paths schemas n) : Linked paths schemas' n := by
  induction hn with
  | root hroot => exact .root hroot
  | step _ hs hmention ih =>
    obtain ⟨t, ht, hst⟩ := h.exists_of_get? hs
    exact .step ih ht (hR _ _ hst _ hmention)

/-- **Schemas that mention the same names are kept under the same names.** -/
theorem prune_alike {R : Json → Json → Prop} {schemas' : Assoc Text Json}
    (hR : ∀ s t, R s t → ∀ n, s.Mentions n ↔ t.Mentions n) (h : Assoc.Alike R schemas schemas') :
    Assoc.Alike R (prune paths schemas) (prune paths schemas') := by
  have hflip : Assoc.Alike (fun t s => R s t) schemas' schemas :=
    h.flip.imp fun _ _ hpq => ⟨hpq.1.symm, hpq.2⟩
  refine List.rel_filter (fun p q hpq => ?_) h
  simp only [List.contains_iff_mem, mem_used_iff, hpq.1]
  exact ⟨Linked.alike (fun s t hst n => (hR s t hst n).1) h,
    Linked.alike (fun t s hst n => (hR s t hst n).2) hflip⟩

/-! ## Documents side by side -/

namespace Generator

/-- All that two documents are made from is the same, but for the paths. -/
structure SameButPaths (g g' : Generator) : Prop where
  specVersion : g'.options.specVersion = g.options.specVersion
  info : g'.info = g.info
  covered : g'.covered = g.covered
  securitySchemes : g'.options.securitySchemes = g.options.securitySchemes
  schemas : g'.schemas = g.schemas

/-- **Paths that mention the same schemas leave the rest of a document as it is.** -/
theorem parallel_document {g g' : Generator}
    {R : Assoc Text PathItem → Assoc Text PathItem → Prop} (h : g.SameButPaths g')
    (hpaths : Parallel R g.paths g'.paths)
    (hR : ∀ paths paths', R paths paths' →
      ∀ n, (pathsJson paths).Mentions n ↔ (pathsJson paths').Mentions n) :
    Parallel (fun d d' => R d.paths d'.paths ∧ d' = { d with paths := d'.paths })
      g.document g'.document := by
  unfold document
  rw [h.securitySchemes, h.schemas]
  -- what is read before the paths is read alike
  refine Parallel.bind_same fun schemes => Parallel.bind_same fun schemas => ?_
  refine hpaths.bind fun paths paths' hrelated => .ok ⟨hrelated, ?_⟩
  have hprune : prune (pathsJson paths) schemas = prune (pathsJson paths') schemas :=
    prune_congr (hR paths paths' hrelated)
  simp only [h.specVersion, h.info, h.covered, hprune]

end Generator

end ResourceApi
