import ResourceApi.Proofs.Fallible

/-!
# Two runs

A computation that is run twice, on inputs that differ in some respect, runs in *parallel* when both
runs fail with the same error, or both have an answer and the answers are related.

**Steps** (`Parallel.bind`, `Parallel.mapM`). Running in parallel is kept by every step of a
computation, so a statement about two runs of a pass comes down to one about each of its steps.

**Fewer items** (`exists_sublist_answers`). A pass over some of the items has some of the answers.
-/

namespace ResourceApi

universe u v

variable {ε ε' : Type u} {α β γ δ : Type v}

/-- Both runs fail with one error, or both have answers and these are related. -/
inductive Parallel (R : α → β → Prop) : Except ε α → Except ε β → Prop
  | ok {a : α} {b : β} : R a b → Parallel R (.ok a) (.ok b)
  | error (e : ε) : Parallel R (.error e) (.error e)

namespace Parallel

variable {R : α → β → Prop} {S : γ → δ → Prop} {x : Except ε α} {y : Except ε β}

theorem refl {R : α → α → Prop} (hR : ∀ a, R a a) (x : Except ε α) : Parallel R x x := by
  cases x with
  | error e => exact .error e
  | ok a => exact .ok (hR a)

theorem eq {x y : Except ε α} (h : Parallel (· = ·) x y) : x = y := by
  cases h with
  | ok hab => rw [hab]
  | error e => rfl

theorem of_ok {a : α} {b : β} (h : Parallel R (.ok a : Except ε α) (.ok b)) : R a b := by
  cases h with
  | ok hab => exact hab

theorem imp {R' : α → β → Prop} (h : Parallel R x y) (hR : ∀ a b, R a b → R' a b) :
    Parallel R' x y := by
  cases h with
  | ok hab => exact .ok (hR _ _ hab)
  | error e => exact .error e

/-- What the runs have to do with each other may be said of their answers. -/
theorem of_answers (h : Parallel R x y) :
    Parallel (fun a b => R a b ∧ x = .ok a ∧ y = .ok b) x y := by
  cases h with
  | ok hab => exact .ok ⟨hab, rfl, rfl⟩
  | error e => exact .error e

/-! ## Steps -/

theorem map {f : α → γ} {g : β → δ} (h : Parallel R x y) (hf : ∀ a b, R a b → S (f a) (g b)) :
    Parallel S (x.map f) (y.map g) := by
  cases h with
  | ok hab => exact .ok (hf _ _ hab)
  | error e => exact .error e

theorem mapError (h : Parallel R x y) (f : ε → ε') :
    Parallel R (x.mapError f) (y.mapError f) := by
  cases h with
  | ok hab => exact .ok hab
  | error e => exact .error (f e)

theorem bind {f : α → Except ε γ} {g : β → Except ε δ} (h : Parallel R x y)
    (hf : ∀ a b, R a b → Parallel S (f a) (g b)) : Parallel S (x >>= f) (y >>= g) := by
  cases h with
  | ok hab => exact hf _ _ hab
  | error e => exact .error e

theorem bind_same {x : Except ε α} {f : α → Except ε γ} {g : α → Except ε δ}
    (hf : ∀ a, Parallel S (f a) (g a)) : Parallel S (x >>= f) (x >>= g) := by
  cases x with
  | ok a => exact hf a
  | error e => exact .error e

/-- Both runs begin with a step that has an answer, and what it is does not matter. -/
theorem bind_of_succeeds {f : α → Except ε γ} {g : β → Except ε δ} (hx : Succeeds x)
    (hy : Succeeds y) (hf : ∀ a b, Parallel S (f a) (g b)) :
    Parallel S (x >>= f) (y >>= g) := by
  obtain ⟨a, rfl⟩ := hx
  obtain ⟨b, rfl⟩ := hy
  exact hf a b

/-- **Passes over related items run in parallel** when the step does on related items. -/
theorem mapM {f : α → Except ε γ} {g : β → Except ε δ} {xs : List α} {ys : List β}
    (h : List.Forall₂ R xs ys) (hf : ∀ a b, R a b → Parallel S (f a) (g b)) :
    Parallel (List.Forall₂ S) (xs.mapM f) (ys.mapM g) := by
  induction h with
  | nil => exact .ok .nil
  | cons hab _ ih =>
    rw [List.mapM_cons, List.mapM_cons]
    refine (hf _ _ hab).bind fun c d hcd => ?_
    exact ih.bind fun cs ds hcs => .ok (.cons hcd hcs)

theorem mapM_same {S : γ → δ → Prop} {f : α → Except ε γ} {g : α → Except ε δ} {xs : List α}
    (hf : ∀ a ∈ xs, Parallel S (f a) (g a)) :
    Parallel (List.Forall₂ S) (xs.mapM f) (xs.mapM g) := by
  have hsame : List.Forall₂ (fun a b => a = b ∧ a ∈ xs) xs xs :=
    List.forall₂_same.2 fun a ha => ⟨rfl, ha⟩
  refine mapM hsame fun a b hab => ?_
  obtain ⟨rfl, ha⟩ := hab
  exact hf a ha

end Parallel

/-! ## Passes -/

theorem mapM_congr {f g : α → Except ε γ} {xs : List α} (h : ∀ a ∈ xs, f a = g a) :
    xs.mapM f = xs.mapM g := by
  have hruns : Parallel (List.Forall₂ (· = ·)) (xs.mapM f) (xs.mapM g) := by
    refine Parallel.mapM_same fun a ha => ?_
    rw [h a ha]
    exact .refl (fun _ => rfl) _
  rw [List.forall₂_eq_eq_eq] at hruns
  exact hruns.eq

/-- **A pass over fewer items has fewer answers**, where each item that is left has. -/
theorem exists_sublist_answers {α γ : Type*} {R S : α → List γ → Prop} {xs xs' : List α}
    {answers : List (List γ)} (hxs : xs'.Sublist xs) (h : List.Forall₂ R xs answers)
    (hRS : ∀ x ∈ xs', ∀ y, R x y → ∃ y', S x y' ∧ y'.Sublist y) :
    ∃ answers', List.Forall₂ S xs' answers' ∧ answers'.flatten.Sublist answers.flatten := by
  induction hxs generalizing answers with
  | slnil => exact ⟨[], .nil, List.nil_sublist _⟩
  | cons x _ ih =>
    obtain ⟨y, rest, -, hrest, rfl⟩ := List.forall₂_cons_left_iff.1 h
    obtain ⟨answers', hanswers, hsub⟩ := ih hrest hRS
    exact ⟨answers', hanswers, hsub.trans (List.sublist_append_right _ _)⟩
  | cons_cons x _ ih =>
    obtain ⟨y, rest, hy, hrest, rfl⟩ := List.forall₂_cons_left_iff.1 h
    obtain ⟨y', hy', hsub⟩ := hRS x List.mem_cons_self y hy
    obtain ⟨answers', hanswers, hsubs⟩ := ih hrest fun z hz => hRS z (List.mem_cons_of_mem _ hz)
    exact ⟨y' :: answers', .cons hy' hanswers, hsub.append hsubs⟩

end ResourceApi
