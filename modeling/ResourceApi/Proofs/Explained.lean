import ResourceApi.Failure
import ResourceApi.Proofs.Fallible

/-!
# Explained failures

A computation is `Explained` when it has an answer or a failure with words, that is, when it ends in
no misfit. Steps that depend on each other are explained when each step that is taken is
(`explained_bind_iff`), and a pass over a list when every item that it reaches is
(`explained_mapM_iff`); what comes after the first failure does not matter.
-/

namespace ResourceApi

variable {α β : Type}

/-- An answer, or a failure that has words. -/
def Explained (x : Except Failure α) : Prop :=
  (∃ a, x = .ok a) ∨ ∃ f, x = .error f ∧ f.message?.isSome

theorem explained_ok (a : α) : Explained (.ok a) := .inl ⟨a, rfl⟩

theorem explained_error_iff {f : Failure} :
    Explained (.error f : Except Failure α) ↔ f.message?.isSome := by
  simp [Explained]

instance : (x : Except Failure α) → Decidable (Explained x)
  | .ok a => isTrue (explained_ok a)
  | .error _ => decidable_of_iff _ explained_error_iff.symm

/-- What is not explained is a misfit. -/
theorem explained_iff {x : Except Failure α} : Explained x ↔ ∀ m, x ≠ .error (.misfit m) := by
  cases x with
  | ok a => simp [explained_ok]
  | error f => cases f <;> simp [explained_error_iff, Failure.message?]

theorem explained_of_succeeds {x : Except Failure α} (h : Succeeds x) : Explained x := .inl h

/-- Where all that can go wrong is a misfit, to be explained is to have an answer. -/
theorem explained_iff_succeeds {x : Except Failure α}
    (h : ∀ f, x = .error f → ∃ m, f = .misfit m) : Explained x ↔ Succeeds x := by
  refine ⟨fun hx => ?_, explained_of_succeeds⟩
  cases x with
  | ok a => exact succeeds_ok a
  | error f =>
    obtain ⟨m, rfl⟩ := h f rfl
    exact absurd rfl (explained_iff.1 hx m)

theorem explained_bind_iff {x : Except Failure α} {f : α → Except Failure β} :
    Explained (x >>= f) ↔ Explained x ∧ ∀ a, x = .ok a → Explained (f a) := by
  cases x with
  | ok a =>
    refine ⟨fun h => ⟨explained_ok a, ?_⟩, fun h => h.2 a rfl⟩
    rintro _ ⟨⟩
    exact h
  | error e =>
    have hsame : Explained (.error e >>= f) ↔ Explained (.error e : Except Failure α) :=
      explained_error_iff.trans explained_error_iff.symm
    rw [hsame, iff_self_and]
    exact fun _ _ => nofun

theorem explained_toExcept (subject : Option Subject) (title : Text) (c : Checked α) :
    Explained (c.toExcept subject title) := by
  cases c with
  | ok a => exact explained_ok a
  | bad issues => exact explained_error_iff.2 rfl

theorem explained_mapError_misfit_iff {x : Except Misfit α} :
    Explained (x.mapError Failure.misfit) ↔ Succeeds x := by
  cases x with
  | ok a => exact iff_of_true (explained_ok a) (succeeds_ok a)
  | error m => simp [Except.mapError, explained_error_iff, Failure.message?]

theorem explained_mapError_unresolved (x : Except Unresolved α) :
    Explained (x.mapError Failure.unresolved) := by
  cases x with
  | ok a => exact explained_ok a
  | error u => exact explained_error_iff.2 rfl

/-! ## Passes -/

/-- A pass over a list reaches an item when it succeeds with all items before it. -/
def Reached (f : α → Except Failure β) (xs : List α) (x : α) : Prop :=
  ∃ before after, xs = before ++ x :: after ∧ ∀ y ∈ before, Succeeds (f y)

variable {f : α → Except Failure β} {x y : α} {xs : List α}

theorem Reached.mem (h : Reached f xs x) : x ∈ xs := by
  obtain ⟨before, after, rfl, -⟩ := h
  exact List.mem_append_right _ List.mem_cons_self

/-- A pass that succeeds reaches every item. -/
theorem reached_of_succeeds (h : Succeeds (xs.mapM f)) (hx : x ∈ xs) : Reached f xs x := by
  obtain ⟨before, after, rfl⟩ := List.append_of_mem hx
  refine ⟨before, after, rfl, fun y hy => ?_⟩
  exact succeeds_mapM_iff.1 h y (List.mem_append_left _ hy)

theorem reached_cons_iff :
    Reached f (x :: xs) y ↔ y = x ∨ Succeeds (f x) ∧ Reached f xs y := by
  constructor
  · rintro ⟨before, after, hsplit, hbefore⟩
    rcases List.cons_eq_append_iff.1 hsplit with ⟨rfl, heq⟩ | ⟨before, rfl, rfl⟩
    · cases heq
      exact .inl rfl
    · rw [List.forall_mem_cons] at hbefore
      exact .inr ⟨hbefore.1, before, after, rfl, hbefore.2⟩
  · rintro (rfl | ⟨hx, before, after, rfl, hbefore⟩)
    · exact ⟨[], xs, rfl, nofun⟩
    · exact ⟨x :: before, after, rfl, List.forall_mem_cons.2 ⟨hx, hbefore⟩⟩

/-- **A pass is explained when every item that it reaches is.** -/
theorem explained_mapM_iff : Explained (xs.mapM f) ↔ ∀ x, Reached f xs x → Explained (f x) := by
  induction xs with
  | nil => exact iff_of_true (explained_ok []) fun x hx => nomatch hx.mem
  | cons x xs ih =>
    have hrest (a : β) : Explained (xs.mapM f >>= fun bs => pure (a :: bs)) ↔
        Explained (xs.mapM f) :=
      explained_bind_iff.trans (and_iff_left fun bs _ => explained_ok (a :: bs))
    rw [List.mapM_cons, explained_bind_iff]
    constructor
    · rintro ⟨hx, hxs⟩ y hy
      rcases reached_cons_iff.1 hy with rfl | ⟨⟨a, ha⟩, hy⟩
      · exact hx
      · exact ih.1 ((hrest a).1 (hxs a ha)) y hy
    · intro h
      refine ⟨h x (reached_cons_iff.2 (.inl rfl)), fun a ha => (hrest a).2 (ih.2 fun y hy => ?_)⟩
      exact h y (reached_cons_iff.2 (.inr ⟨⟨a, ha⟩, hy⟩))

end ResourceApi
