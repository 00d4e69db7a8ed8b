import Mathlib.Data.List.Forall2

/-!
# Passes that can fail

A step that can fail has an answer exactly when each of its parts has one, and a pass over a list
has an answer exactly when every item has one: the answers then stand for the items one by one
(`mapM_eq_ok_iff`). Where only the fact of an answer matters, and not which one it is, a computation
`Succeeds`.
-/

namespace ResourceApi

universe u v

section

variable {ε ε' : Type u} {α β : Type v}

theorem bind_eq_ok_iff {x : Except ε α} {f : α → Except ε β} {b : β} :
    (x >>= f) = .ok b ↔ ∃ a, x = .ok a ∧ f a = .ok b := by
  cases x with
  | error e => simp [bind, Except.bind]
  | ok a => simp [bind, Except.bind]

theorem map_eq_ok_iff {x : Except ε α} {f : α → β} {b : β} :
    x.map f = .ok b ↔ ∃ a, x = .ok a ∧ f a = b := by
  cases x with
  | error e => simp [Except.map]
  | ok a => simp [Except.map]

theorem mapError_eq_ok_iff {x : Except ε α} {f : ε → ε'} {a : α} :
    x.mapError f = .ok a ↔ x = .ok a := by
  cases x with
  | error e => simp [Except.mapError]
  | ok b => simp [Except.mapError]

/-- **A pass succeeds when every item does**, with the items' answers in their order. -/
theorem mapM_eq_ok_iff {f : α → Except ε β} {xs : List α} {ys : List β} :
    xs.mapM f = .ok ys ↔ List.Forall₂ (fun x y => f x = .ok y) xs ys := by
  induction xs generalizing ys with
  | nil =>
    rw [List.mapM_nil, List.forall₂_nil_left_iff]
    show Except.ok [] = Except.ok ys ↔ ys = []
    rw [Except.ok.injEq, eq_comm]
  | cons x xs ih =>
    rw [List.mapM_cons, bind_eq_ok_iff, List.forall₂_cons_left_iff]
    constructor
    · intro hparts
      obtain ⟨y, hy, h⟩ := hparts
      obtain ⟨rest, hrest, h⟩ := bind_eq_ok_iff.1 h
      cases h
      exact ⟨y, rest, hy, ih.1 hrest, rfl⟩
    · intro hparts
      obtain ⟨y, rest, hy, hrest, rfl⟩ := hparts
      exact ⟨y, hy, bind_eq_ok_iff.2 ⟨rest, ih.2 hrest, rfl⟩⟩

theorem forM_eq_ok_iff {f : α → Except ε PUnit} {xs : List α} :
    xs.forM f = .ok ⟨⟩ ↔ ∀ x ∈ xs, f x = .ok ⟨⟩ := by
  induction xs with
  | nil => simp [List.forM, pure, Except.pure]
  | cons x xs ih =>
    show (f x >>= fun _ => xs.forM f) = _ ↔ _
    rw [bind_eq_ok_iff, List.forall_mem_cons, ih]
    exact ⟨fun ⟨_, hx, hxs⟩ => ⟨hx, hxs⟩, fun ⟨hx, hxs⟩ => ⟨_, hx, hxs⟩⟩

/-! ## Success -/

/-- The computation has an answer. -/
def Succeeds (x : Except ε α) : Prop := ∃ a, x = .ok a

@[simp] theorem succeeds_ok (a : α) : Succeeds (.ok a : Except ε α) := ⟨a, rfl⟩

@[simp] theorem not_succeeds_error (e : ε) : ¬ Succeeds (.error e : Except ε α) := nofun

theorem succeeds_iff_eq_ok {x : Except ε PUnit} : Succeeds x ↔ x = .ok ⟨⟩ :=
  ⟨fun ⟨_, h⟩ => h, fun h => ⟨_, h⟩⟩

theorem exists_error_iff_not_succeeds {x : Except ε α} : (∃ e, x = .error e) ↔ ¬ Succeeds x := by
  cases x with
  | error e => simp
  | ok a => simp

/-- An answer that passes a test has what is tested. -/
theorem exists_ok_of_any {x : Except ε α} {p : α → Prop} [DecidablePred p]
    (h : x.toOption.any (fun a => decide (p a)) = true) : ∃ a, x = .ok a ∧ p a := by
  cases x with
  | error e => cases h
  | ok a => exact ⟨a, rfl, of_decide_eq_true h⟩

@[simp] theorem succeeds_map_iff {x : Except ε α} {f : α → β} :
    Succeeds (x.map f) ↔ Succeeds x := by
  cases x with
  | error e => simp [Except.map]
  | ok a => simp [Except.map]

@[simp] theorem succeeds_mapError_iff {x : Except ε α} {f : ε → ε'} :
    Succeeds (x.mapError f) ↔ Succeeds x := by
  cases x with
  | error e => simp [Except.mapError]
  | ok a => simp [Except.mapError]

theorem succeeds_bind_iff {x : Except ε α} {f : α → Except ε β} :
    Succeeds (x >>= f) ↔ ∃ a, x = .ok a ∧ Succeeds (f a) := by
  cases x with
  | error e => simp [bind, Except.bind]
  | ok a => simp [bind, Except.bind]

/-- Two steps succeed when both do, if the answer of the first is no matter for the second. -/
theorem succeeds_bind_of_forall {x : Except ε α} {f : α → Except ε β} {p : Prop}
    (hf : ∀ a, Succeeds (f a) ↔ p) : Succeeds (x >>= f) ↔ Succeeds x ∧ p := by
  rw [succeeds_bind_iff, Succeeds, ← exists_and_right]
  simp only [hf]

/-- **A pass succeeds when every item does.** -/
theorem succeeds_mapM_iff {f : α → Except ε β} {xs : List α} :
    Succeeds (xs.mapM f) ↔ ∀ x ∈ xs, Succeeds (f x) := by
  induction xs with
  | nil => simp [pure, Except.pure]
  | cons x xs ih =>
    have hrest (y : β) : Succeeds (xs.mapM f >>= fun ys => pure (y :: ys)) ↔
        ∀ z ∈ xs, Succeeds (f z) := by
      refine (succeeds_bind_of_forall fun ys => ?_).trans ((and_true _).to_iff.trans ih)
      exact iff_true_intro (succeeds_ok (y :: ys))
    rw [List.mapM_cons, succeeds_bind_of_forall hrest, List.forall_mem_cons]

end

variable {α β : Type v} {R : α → β → Prop}

theorem exists_of_mem_right {xs : List α} {ys : List β} (h : List.Forall₂ R xs ys) {y : β}
    (hy : y ∈ ys) : ∃ x ∈ xs, R x y := by
  induction h with
  | nil => cases hy
  | @cons x z xs ys hxz _ ih =>
    rcases List.mem_cons.1 hy with rfl | hy
    · exact ⟨x, List.mem_cons_self, hxz⟩
    · obtain ⟨x', hx', hR⟩ := ih hy
      exact ⟨x', List.mem_cons_of_mem _ hx', hR⟩

theorem exists_of_mem_left {xs : List α} {ys : List β} (h : List.Forall₂ R xs ys) {x : α}
    (hx : x ∈ xs) : ∃ y ∈ ys, R x y :=
  exists_of_mem_right h.flip hx

theorem forall₂_append_left_iff {xs ys : List α} {us : List β} :
    List.Forall₂ R (xs ++ ys) us ↔
      ∃ vs ws, List.Forall₂ R xs vs ∧ List.Forall₂ R ys ws ∧ us = vs ++ ws := by
  induction xs generalizing us with
  | nil => simp
  | cons x xs ih =>
    rw [List.cons_append, List.forall₂_cons_left_iff]
    constructor
    · intro hparts
      obtain ⟨u, us, hx, hall, rfl⟩ := hparts
      obtain ⟨vs, ws, hvs, hws, rfl⟩ := ih.1 hall
      exact ⟨u :: vs, ws, .cons hx hvs, hws, rfl⟩
    · intro hparts
      obtain ⟨_, ws, hall, hws, rfl⟩ := hparts
      obtain ⟨v, vs, hx, hvs, rfl⟩ := List.forall₂_cons_left_iff.1 hall
      exact ⟨v, vs ++ ws, hx, ih.2 ⟨vs, ws, hvs, hws, rfl⟩, rfl⟩

/-- What can be read off an item and its answer alike is the same list. -/
theorem map_eq_map_of_forall₂ {γ : Type v} {f : α → γ} {g : β → γ} {xs : List α} {ys : List β}
    (h : List.Forall₂ R xs ys) (hR : ∀ x y, R x y → g y = f x) : ys.map g = xs.map f := by
  induction h with
  | nil => rfl
  | cons hxy _ ih => rw [List.map_cons, List.map_cons, hR _ _ hxy, ih]

end ResourceApi
