import ResourceApi.Reference
import Mathlib.Data.List.Flatten
import Mathlib.Data.List.Perm.Subperm
import Mathlib.Order.Bounds.Defs

/-!
# Reachability by a worklist

The names that some roots *reach* are the roots and whatever a reached name refers to. A visit
finds them with a worklist: the names seen so far, and a stack of names that wait. A turn takes one
name off the stack. A name that is known is dropped; one met for the first time is seen, and what
it refers to waits from now on. So the stack may grow from turn to turn, and the same name may wait
on it many times.

**Turns** (`Turn`, `Run`). A turn leaves open which of the waiting names is taken and where new ones
are put, so whatever holds of its runs holds of every way to work the stack off. `visit` is one of
them (`run_visit`).

**Invariant** (`Run.isAfter`). Three parts decide what is seen in the end: what is met is reached,
the roots are met, and what a seen name refers to is seen or waits. The fourth is a balance: a root
waits once, and so does every reference of a seen name, and a turn takes one of them away. As no
name is seen twice, this bounds the number of turns.

**Main result** (`worklist_computes_reachable`). Every run ends, in any order after equally many
turns, and has then seen the least set that holds the roots and is closed under references.
-/

namespace ResourceApi

namespace ReferenceGraph

/-! ## Reached names -/

/-- A root, or a name that a reached name refers to. -/
inductive Reaches (g : ReferenceGraph) (roots : List Text) : Text → Prop
  | root {n : Text} : n ∈ roots → Reaches g roots n
  | step {m n : Text} : Reaches g roots m → n ∈ g.successors m → Reaches g roots n

/-- Whatever a name of the set refers to is in the set. -/
def Closed (g : ReferenceGraph) (S : Text → Prop) : Prop :=
  ∀ m, S m → ∀ n ∈ g.successors m, S n

theorem Reaches.mem_closed {g : ReferenceGraph} {roots : List Text} {S : Text → Prop}
    (hS : g.Closed S) (hroots : ∀ m ∈ roots, S m) {n : Text} (hn : g.Reaches roots n) : S n := by
  induction hn with
  | root h => exact hroots _ h
  | step _ hmn ih => exact hS _ ih _ hmn

theorem closed_reaches (g : ReferenceGraph) (roots : List Text) : g.Closed (g.Reaches roots) :=
  fun _ hm _ hn => .step hm hn

/-- **The reached names are the least closed set** that holds the roots. -/
theorem isLeast_reaches (g : ReferenceGraph) (roots : List Text) :
    IsLeast {S : Set Text | (∀ n ∈ roots, n ∈ S) ∧ g.Closed (· ∈ S)} {n | g.Reaches roots n} := by
  constructor
  · exact ⟨fun n hn => .root hn, g.closed_reaches roots⟩
  · intro S hS n hn
    obtain ⟨hroots, hclosed⟩ := hS
    exact hn.mem_closed hclosed hroots

theorem Reaches.mono {g g' : ReferenceGraph} {roots roots' : List Text} {n : Text}
    (hroots : roots ⊆ roots') (hnext : ∀ m, g.successors m ⊆ g'.successors m)
    (hn : g.Reaches roots n) : g'.Reaches roots' n := by
  have hclosed : g.Closed (g'.Reaches roots') := by
    intro m hm n hmn
    exact .step hm (hnext m hmn)
  exact hn.mem_closed hclosed fun m hm => .root (hroots hm)

theorem reaches_append_iff {g : ReferenceGraph} {roots roots' : List Text} {n : Text} :
    g.Reaches (roots ++ roots') n ↔ g.Reaches roots n ∨ g.Reaches roots' n := by
  constructor
  · intro hn
    have hclosed : g.Closed fun n => g.Reaches roots n ∨ g.Reaches roots' n := by
      intro m hm n hmn
      exact hm.imp (.step · hmn) (.step · hmn)
    refine hn.mem_closed hclosed ?_
    intro m hm
    exact (List.mem_append.1 hm).imp .root .root
  · intro hcases
    rcases hcases with hn | hn
    · exact hn.mono (List.subset_append_left _ _) fun _ => List.Subset.refl _
    · exact hn.mono (List.subset_append_right _ _) fun _ => List.Subset.refl _

/-! ## Turns -/

/-- What a visit holds between two turns: the names seen and the names that wait. -/
structure Worklist where
  seen : List Text
  stack : List Text

/-- The name is seen or waits. -/
def Worklist.Met (w : Worklist) (n : Text) : Prop := n ∈ w.seen ∨ n ∈ w.stack

/-- One turn takes some name off the stack. A known one is dropped. One met for the first time is
seen, and the names it refers to wait with the others, in any order. -/
inductive Turn (g : ReferenceGraph) : Worklist → Worklist → Prop
  | known {seen stack rest : List Text} {name : Text} :
      stack.Perm (name :: rest) → name ∈ seen → Turn g ⟨seen, stack⟩ ⟨seen, rest⟩
  | fresh {seen stack rest next : List Text} {name : Text} :
      stack.Perm (name :: rest) → name ∉ seen → next.Perm (g.successors name ++ rest) →
        Turn g ⟨seen, stack⟩ ⟨name :: seen, next⟩

theorem exists_turn (g : ReferenceGraph) {w : Worklist} (hw : w.stack ≠ []) :
    ∃ w', g.Turn w w' := by
  obtain ⟨seen, stack⟩ := w
  cases stack with
  | nil => exact absurd rfl hw
  | cons name rest =>
    by_cases hname : name ∈ seen
    · exact ⟨_, .known (.refl _) hname⟩
    · exact ⟨_, .fresh (.refl _) hname (.refl _)⟩

variable {g : ReferenceGraph} {w w' : Worklist} {n : Text}

theorem Turn.met (h : g.Turn w w') (hn : w.Met n) : w'.Met n := by
  cases h with
  | known hperm hmem =>
    rcases hn with hseen | hwaits
    · exact .inl hseen
    · rcases List.mem_cons.1 (hperm.mem_iff.1 hwaits) with rfl | hwaits
      · exact .inl hmem
      · exact .inr hwaits
  | fresh hperm _ hnext =>
    rcases hn with hseen | hwaits
    · exact .inl (List.mem_cons_of_mem _ hseen)
    · rcases List.mem_cons.1 (hperm.mem_iff.1 hwaits) with rfl | hwaits
      · exact .inl List.mem_cons_self
      · exact .inr (hnext.mem_iff.2 (List.mem_append_right _ hwaits))

/-- A name that is met after a turn was met before, or a name met before refers to it. -/
theorem Turn.met_cases (h : g.Turn w w') (hn : w'.Met n) :
    w.Met n ∨ ∃ m, w.Met m ∧ n ∈ g.successors m := by
  cases h with
  | known hperm _ =>
    refine .inl (hn.imp_right fun hwaits => ?_)
    exact hperm.mem_iff.2 (List.mem_cons_of_mem _ hwaits)
  | fresh hperm _ hnext =>
    have htaken := hperm.mem_iff.2 List.mem_cons_self
    rcases hn with hseen | hwaits
    · rcases List.mem_cons.1 hseen with rfl | hseen
      · exact .inl (.inr htaken)
      · exact .inl (.inl hseen)
    · rcases List.mem_append.1 (hnext.mem_iff.1 hwaits) with hnew | hwaits
      · exact .inr ⟨_, .inr htaken, hnew⟩
      · exact .inl (.inr (hperm.mem_iff.2 (List.mem_cons_of_mem _ hwaits)))

theorem Turn.nodup (h : g.Turn w w') (hw : w.seen.Nodup) : w'.seen.Nodup := by
  cases h with
  | known => exact hw
  | fresh _ hname => exact List.nodup_cons.2 ⟨hname, hw⟩

/-- What a seen name refers to is seen or waits on the stack. -/
def Awaits (g : ReferenceGraph) (seen stack : List Text) : Prop :=
  ∀ m ∈ seen, ∀ n ∈ g.successors m, n ∈ seen ∨ n ∈ stack

theorem awaits_nil (g : ReferenceGraph) (stack : List Text) : g.Awaits [] stack := nofun

theorem Awaits.perm {seen stack stack' : List Text} (h : g.Awaits seen stack)
    (hperm : stack.Perm stack') : g.Awaits seen stack' := by
  intro m hm n hn
  exact (h m hm n hn).imp_right hperm.mem_iff.1

theorem Awaits.known {seen stack : List Text} {name : Text}
    (h : g.Awaits seen (name :: stack)) (hmem : name ∈ seen) : g.Awaits seen stack := by
  intro m hm n hn
  rcases h m hm n hn with hseen | hstack
  · exact .inl hseen
  · rcases List.mem_cons.1 hstack with rfl | hstack
    · exact .inl hmem
    · exact .inr hstack

/-- A name met for the first time is seen, and what it refers to waits in its place. -/
theorem Awaits.fresh {seen stack : List Text} {name : Text}
    (h : g.Awaits seen (name :: stack)) :
    g.Awaits (name :: seen) (g.successors name ++ stack) := by
  intro m hm n hn
  rcases List.mem_cons.1 hm with rfl | hm
  · exact .inr (List.mem_append_left _ hn)
  · rcases h m hm n hn with hseen | hstack
    · exact .inl (List.mem_cons_of_mem _ hseen)
    · rcases List.mem_cons.1 hstack with rfl | hstack
      · exact .inl List.mem_cons_self
      · exact .inr (List.mem_append_right _ hstack)

theorem Turn.awaits (h : g.Turn w w') (hw : g.Awaits w.seen w.stack) :
    g.Awaits w'.seen w'.stack := by
  cases h with
  | known hperm hmem => exact (hw.perm hperm).known hmem
  | fresh hperm _ hnext => exact (hw.perm hperm).fresh.perm hnext.symm

/-! ## The balance of turns -/

/-- All references that some names hold, one name after the other. -/
def references (g : ReferenceGraph) (names : List Text) : List Text := names.flatMap g.successors

@[simp] theorem references_nil (g : ReferenceGraph) : g.references [] = [] := rfl

@[simp] theorem references_cons (g : ReferenceGraph) (n : Text) (names : List Text) :
    g.references (n :: names) = g.successors n ++ g.references names := rfl

theorem length_references_le {names names' : List Text} (hnodup : names.Nodup)
    (hsub : names ⊆ names') : (g.references names).length ≤ (g.references names').length := by
  -- in some order the names are a part of the others
  obtain ⟨part, hperm, hsublist⟩ := List.subperm_of_subset hnodup hsub
  calc (g.references names).length
      = (g.references part).length := (hperm.symm.flatMap_right g.successors).length_eq
    _ ≤ (g.references names').length := (hsublist.flatMap g.successors).length_le

/-- A turn takes one name away and puts the references of a name that is now seen in its place. -/
theorem Turn.balance (h : g.Turn w w') :
    1 + w'.stack.length + (g.references w.seen).length =
      w.stack.length + (g.references w'.seen).length := by
  cases h with
  | known hperm _ =>
    have hlength := hperm.length_eq
    rw [List.length_cons] at hlength
    simp only
    omega
  | fresh hperm _ hnext =>
    have hlength := hperm.length_eq
    have hlength' := hnext.length_eq
    rw [List.length_cons] at hlength
    rw [List.length_append] at hlength'
    simp only [references_cons, List.length_append]
    omega

/-! ## Runs -/

/-- The worklists to which so many turns lead, from the roots on. -/
inductive Run (g : ReferenceGraph) (roots : List Text) : Nat → Worklist → Prop
  | start : Run g roots 0 ⟨[], roots⟩
  | turn {k : Nat} {w w' : Worklist} : Run g roots k w → g.Turn w w' → Run g roots (k + 1) w'

/-- The invariant of runs: what holds of a worklist after `k` turns. -/
structure IsAfter (g : ReferenceGraph) (roots : List Text) (k : Nat) (w : Worklist) : Prop where
  nodup : w.seen.Nodup
  reached : ∀ n, w.Met n → g.Reaches roots n
  rooted : ∀ n ∈ roots, w.Met n
  awaits : g.Awaits w.seen w.stack
  balance : k + w.stack.length = roots.length + (g.references w.seen).length

variable {roots : List Text} {k : Nat}

theorem isAfter_start (g : ReferenceGraph) (roots : List Text) :
    g.IsAfter roots 0 ⟨[], roots⟩ where
  nodup := List.nodup_nil
  reached := fun _ hn => .root (hn.resolve_left List.not_mem_nil)
  rooted := fun _ hn => .inr hn
  awaits := g.awaits_nil roots
  balance := by simp

theorem IsAfter.turn (h : g.IsAfter roots k w) (hturn : g.Turn w w') :
    g.IsAfter roots (k + 1) w' where
  nodup := hturn.nodup h.nodup
  reached := by
    intro n hn
    rcases hturn.met_cases hn with hn | ⟨m, hm, hmn⟩
    · exact h.reached n hn
    · exact .step (h.reached m hm) hmn
  rooted := fun n hn => hturn.met (h.rooted n hn)
  awaits := hturn.awaits h.awaits
  balance := by
    have hbefore := h.balance
    have hafter := hturn.balance
    omega

/-- **Every run keeps the invariant.** -/
theorem Run.isAfter (h : g.Run roots k w) : g.IsAfter roots k w := by
  induction h with
  | start => exact g.isAfter_start roots
  | turn _ hturn ih => exact ih.turn hturn

/-- **When no name waits, the seen names are the reached ones.** -/
theorem IsAfter.mem_seen_iff (h : g.IsAfter roots k w) (hdone : w.stack = []) :
    n ∈ w.seen ↔ g.Reaches roots n := by
  -- with an empty stack, to be met is to be seen
  have hseen {n : Text} (hn : w.Met n) : n ∈ w.seen := by
    refine hn.resolve_right ?_
    rw [hdone]
    exact List.not_mem_nil
  constructor
  · intro hn
    exact h.reached n (.inl hn)
  · intro hn
    have hclosed : g.Closed (· ∈ w.seen) := fun m hm n hmn => hseen (h.awaits m hm n hmn)
    exact hn.mem_closed hclosed fun m hm => hseen (h.rooted m hm)

/-! ## A visit is a run -/

theorem visit_cons (g : ReferenceGraph) (seen : List Text) (name : Text) (stack : List Text) :
    g.visit seen (name :: stack) =
      if name ∈ seen then g.visit seen stack
      else g.visit (name :: seen) (g.successors name ++ stack) := by
  rw [visit]
  split_ifs with hmem
  · rfl
  · unfold successors
    split
    · next hnone => rw [hnone, Option.getD_none, List.nil_append]
    · next next hsome => rw [hsome, Option.getD_some]

/-- Induction along a visit: a name on the stack is known already or is met for the first time. -/
theorem visit_induction {g : ReferenceGraph} {motive : List Text → List Text → Prop}
    (done : ∀ seen, motive seen [])
    (known : ∀ seen name stack, name ∈ seen → motive seen stack → motive seen (name :: stack))
    (fresh : ∀ seen name stack, name ∉ seen →
      motive (name :: seen) (g.successors name ++ stack) → motive seen (name :: stack))
    (seen stack : List Text) : motive seen stack := by
  induction seen, stack using visit.induct g with
  | case1 seen => exact done seen
  | case2 seen name stack hmem ih => exact known seen name stack hmem ih
  | case3 seen name stack hmem hentry ih =>
    refine fresh seen name stack hmem ?_
    rw [successors, hentry]
    exact ih
  | case4 seen name stack hmem next hentry ih =>
    refine fresh seen name stack hmem ?_
    rw [successors, hentry]
    exact ih

/-- **A visit takes one turn after the other** until no name waits. -/
theorem run_visit (seen stack : List Text) :
    ∀ k, g.Run roots k ⟨seen, stack⟩ → ∃ k', g.Run roots k' ⟨g.visit seen stack, []⟩ := by
  -- a run that has led so far is continued by the turn that the visit takes next
  induction seen, stack using visit_induction (g := g) with
  | done seen =>
    intro k hrun
    rw [visit]
    exact ⟨k, hrun⟩
  | known seen name stack hmem ih =>
    intro k hrun
    rw [visit_cons, if_pos hmem]
    exact ih (k + 1) (hrun.turn (.known (.refl _) hmem))
  | fresh seen name stack hmem ih =>
    intro k hrun
    rw [visit_cons, if_neg hmem]
    exact ih (k + 1) (hrun.turn (.fresh (.refl _) hmem (.refl _)))

theorem exists_run_reachable (g : ReferenceGraph) (roots : List Text) :
    ∃ k, g.Run roots k ⟨g.reachable roots, []⟩ :=
  run_visit [] roots 0 .start

theorem nodup_reachable (g : ReferenceGraph) (roots : List Text) : (g.reachable roots).Nodup := by
  obtain ⟨k, hrun⟩ := g.exists_run_reachable roots
  exact hrun.isAfter.nodup

/-- **The computed names are the reachable ones.** -/
theorem mem_reachable_iff {g : ReferenceGraph} {roots : List Text} {n : Text} :
    n ∈ g.reachable roots ↔ g.Reaches roots n := by
  obtain ⟨k, hrun⟩ := g.exists_run_reachable roots
  exact hrun.isAfter.mem_seen_iff rfl

/-- References back and forth, to oneself, and to a name without an entry. -/
example : reachable [("Post", ["User", "Role", "User"]), ("User", ["User", "Post"])] ["Post"] =
    ["Role", "User", "Post"] := by cbv

/-! ## Every run -/

/-- How many names are taken off the stack in all: the roots and the references of reached names. -/
def turns (g : ReferenceGraph) (roots : List Text) : Nat :=
  roots.length + (g.references (g.reachable roots)).length

theorem IsAfter.le_turns (h : g.IsAfter roots k w) : k + w.stack.length ≤ g.turns roots := by
  have hseen : w.seen ⊆ g.reachable roots := by
    intro n hn
    exact mem_reachable_iff.2 (h.reached n (.inl hn))
  have hcount := length_references_le (g := g) h.nodup hseen
  have hbalance := h.balance
  unfold turns
  omega

theorem IsAfter.perm_reachable (h : g.IsAfter roots k w) (hdone : w.stack = []) :
    w.seen.Perm (g.reachable roots) := by
  refine (List.perm_ext_iff_of_nodup h.nodup (g.nodup_reachable roots)).2 fun n => ?_
  rw [h.mem_seen_iff hdone, mem_reachable_iff]

theorem IsAfter.eq_turns (h : g.IsAfter roots k w) (hdone : w.stack = []) : k = g.turns roots := by
  have hcount : (g.references w.seen).length = (g.references (g.reachable roots)).length :=
    ((h.perm_reachable hdone).flatMap_right g.successors).length_eq
  have hbalance := h.balance
  rw [hdone, List.length_nil] at hbalance
  unfold turns
  omega

theorem run_reachable (g : ReferenceGraph) (roots : List Text) :
    g.Run roots (g.turns roots) ⟨g.reachable roots, []⟩ := by
  obtain ⟨k, hrun⟩ := g.exists_run_reachable roots
  rw [← hrun.isAfter.eq_turns rfl]
  exact hrun

theorem reachable_mono {g g' : ReferenceGraph} {roots roots' : List Text}
    (hroots : roots ⊆ roots') (hnext : ∀ m, g.successors m ⊆ g'.successors m) :
    g.reachable roots ⊆ g'.reachable roots' := by
  intro n hn
  rw [mem_reachable_iff] at hn ⊢
  exact hn.mono hroots hnext

theorem reachable_perm {g g' : ReferenceGraph} {roots roots' : List Text}
    (hroots : ∀ n, n ∈ roots ↔ n ∈ roots')
    (hnext : ∀ m n, n ∈ g.successors m ↔ n ∈ g'.successors m) :
    (g.reachable roots).Perm (g'.reachable roots') := by
  refine (List.perm_ext_iff_of_nodup (g.nodup_reachable _) (g'.nodup_reachable _)).2 fun n => ?_
  constructor
  · intro hn
    exact reachable_mono (fun n => (hroots n).1) (fun m n => (hnext m n).1) hn
  · intro hn
    exact reachable_mono (fun n => (hroots n).2) (fun m n => (hnext m n).2) hn

/-- **A worklist computes the reachable names.** A run can go on while names wait, and none takes
more than `turns` turns; all that end have taken as many and seen the same names, and the visit is
one of them. These names are the least set that holds the roots and is closed under references.
Hence neither order nor repetition of roots and references matters, more of them reach more, and
two lists of roots reach what one of them reaches. -/
theorem worklist_computes_reachable (g : ReferenceGraph) (roots : List Text) :
    (∀ k w, g.Run roots k w →
      k + w.stack.length ≤ g.turns roots ∧
      (w.stack ≠ [] → ∃ w', g.Turn w w') ∧
      (w.stack = [] → k = g.turns roots ∧ w.seen.Perm (g.reachable roots))) ∧
    g.Run roots (g.turns roots) ⟨g.reachable roots, []⟩ ∧
    (g.reachable roots).Nodup ∧
    IsLeast {S : Set Text | (∀ n ∈ roots, n ∈ S) ∧ g.Closed (· ∈ S)}
      {n | n ∈ g.reachable roots} ∧
    (∀ (g' : ReferenceGraph) (roots' : List Text), (∀ n, n ∈ roots ↔ n ∈ roots') →
      (∀ m n, n ∈ g.successors m ↔ n ∈ g'.successors m) →
        (g.reachable roots).Perm (g'.reachable roots')) ∧
    (∀ (g' : ReferenceGraph) (roots' : List Text), roots ⊆ roots' →
      (∀ m, g.successors m ⊆ g'.successors m) → g.reachable roots ⊆ g'.reachable roots') ∧
    ∀ roots' n, n ∈ g.reachable (roots ++ roots') ↔
      n ∈ g.reachable roots ∨ n ∈ g.reachable roots' := by
  refine ⟨?_, g.run_reachable roots, g.nodup_reachable roots, ?_, ?_, ?_, ?_⟩
  · intro k w hrun
    have hafter := hrun.isAfter
    refine ⟨hafter.le_turns, g.exists_turn, ?_⟩
    intro hdone
    exact ⟨hafter.eq_turns hdone, hafter.perm_reachable hdone⟩
  · simp only [mem_reachable_iff]
    exact g.isLeast_reaches roots
  · intro g' roots'
    exact reachable_perm
  · intro g' roots'
    exact reachable_mono
  · intro roots' n
    rw [mem_reachable_iff, mem_reachable_iff, mem_reachable_iff, reaches_append_iff]

end ReferenceGraph

namespace Blog

/-- Posts refer to users, twice, and to a role that has no entry; users refer to themselves and back
to posts. -/
def crossReferences : ReferenceGraph :=
  [("Post", ["User", "Role", "User"]), ("User", ["User", "Post"])]

/-- The same references in another order, each of them once. -/
def tidyReferences : ReferenceGraph :=
  [("User", ["Post", "User"]), ("Post", ["Role", "User"])]

/-- The visit takes one post and five references off its stack. -/
theorem tidy_references_reach_alike :
    crossReferences.Run ["Post"] 6 ⟨crossReferences.reachable ["Post"], []⟩ ∧
    (∀ n, n ∈ (["Post"] : List Text) ↔ n ∈ (["Post", "Post"] : List Text)) ∧
    (∀ m n, n ∈ crossReferences.successors m ↔ n ∈ tidyReferences.successors m) ∧
    (crossReferences.reachable ["Post"]).Perm (tidyReferences.reachable ["Post", "Post"]) := by
  have hturns : crossReferences.turns ["Post"] = 6 := by cbv
  have hroots : ∀ n, n ∈ (["Post"] : List Text) ↔ n ∈ (["Post", "Post"] : List Text) := by simp
  have hnext : ∀ m n, n ∈ crossReferences.successors m ↔ n ∈ tidyReferences.successors m := by
    intro m n
    have hne : ("User" : Text) ≠ "Post" := by decide
    rw [ReferenceGraph.successors, ReferenceGraph.successors, crossReferences, tidyReferences]
    grind [Assoc.get?_cons, Assoc.get?_nil]
  obtain ⟨-, hvisit, -, -, hperm, -, -⟩ :=
    ReferenceGraph.worklist_computes_reachable crossReferences ["Post"]
  rw [hturns] at hvisit
  exact ⟨hvisit, hroots, hnext, hperm _ _ hroots hnext⟩

end Blog

end ResourceApi
