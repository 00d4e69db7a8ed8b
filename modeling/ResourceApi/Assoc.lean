/-!
# Ordered maps

A map is a list of key-value pairs in order of first insertion. Writing a key that is present
replaces its value where it stands; writing a new key appends it. Everything the library hands
out as a mapping (components, paths, properties, loaded definitions) keeps this order.

The view of a map is `get?`. `get?_insert` says what one write does to it, `get?_insertAll` what
a sequence of writes does, and `ofList_eq_self` that a list with distinct keys is already a map.
-/

namespace ResourceApi

universe u v w

/-- Key-value pairs in order of first insertion. -/
abbrev Assoc (α : Type u) (β : Type v) := List (α × β)

namespace Assoc

variable {α : Type u} {β : Type v} {γ : Type w} [DecidableEq α]

/-- The keys in order. -/
def keys (m : Assoc α β) : List α := m.map Prod.fst

/-- The value under a key. -/
def get? : Assoc α β → α → Option β
  | [], _ => none
  | (k, v) :: m, a => if k = a then some v else get? m a

/-- Is the key present? -/
def has (m : Assoc α β) (a : α) : Bool := (get? m a).isSome

/-- Writes a key: in place when it is present, at the end when it is new. -/
def insert : Assoc α β → α → β → Assoc α β
  | [], a, b => [(a, b)]
  | (k, v) :: m, a, b => if k = a then (k, b) :: m else (k, v) :: insert m a b

/-- Writes the pairs of the second list one after the other. -/
def insertAll (m : Assoc α β) (pairs : List (α × β)) : Assoc α β :=
  pairs.foldl (fun m p => insert m p.1 p.2) m

/-- The map of a list of pairs: first position, last value. -/
def ofList (pairs : List (α × β)) : Assoc α β := insertAll [] pairs

/-- Writes a key only when it is absent. -/
def insertNew (m : Assoc α β) (a : α) (b : β) : Assoc α β :=
  if has m a then m else insert m a b

/-- Applies a function to every value. -/
def mapValues (f : β → γ) (m : Assoc α β) : Assoc α γ := m.map fun p => (p.1, f p.2)

/-! ## Laws -/

omit [DecidableEq α] in
@[simp] theorem keys_nil : keys ([] : Assoc α β) = [] := rfl

omit [DecidableEq α] in
@[simp] theorem keys_cons (p : α × β) (m : Assoc α β) : keys (p :: m) = p.1 :: keys m := rfl

@[simp] theorem get?_nil (a : α) : get? ([] : Assoc α β) a = none := rfl

theorem get?_cons (k a : α) (v : β) (m : Assoc α β) :
    get? ((k, v) :: m) a = if k = a then some v else get? m a := rfl

theorem get?_insert (m : Assoc α β) (a a' : α) (b : β) :
    get? (insert m a b) a' = if a = a' then some b else get? m a' := by
  induction m with
  | nil => simp [insert, get?]
  | cons p m ih =>
    obtain ⟨k, v⟩ := p
    by_cases hk : k = a
    · subst hk
      by_cases h : k = a' <;> simp [insert, get?, h]
    · by_cases h : k = a'
      · subst h
        simp [insert, get?, hk, Ne.symm hk]
      · simp [insert, get?, hk, h, ih]

theorem get?_eq_none_iff (m : Assoc α β) (a : α) : get? m a = none ↔ a ∉ keys m := by
  induction m with
  | nil => simp
  | cons p m ih =>
    obtain ⟨k, v⟩ := p
    by_cases h : k = a
    · simp [get?, h]
    · simp [get?, h, ih, Ne.symm h]

theorem insert_of_not_mem {m : Assoc α β} {a : α} (h : a ∉ keys m) (b : β) :
    insert m a b = m ++ [(a, b)] := by
  induction m with
  | nil => rfl
  | cons p m ih =>
    obtain ⟨k, v⟩ := p
    simp only [keys_cons, List.mem_cons, not_or] at h
    simp [insert, Ne.symm h.1, ih h.2]

theorem keys_insert (m : Assoc α β) (a : α) (b : β) :
    keys (insert m a b) = if a ∈ keys m then keys m else keys m ++ [a] := by
  induction m with
  | nil => simp [insert]
  | cons p m ih =>
    obtain ⟨k, v⟩ := p
    by_cases h : k = a
    · simp [insert, h]
    · by_cases ha : a ∈ keys m <;> simp [insert, h, Ne.symm h, ih, ha]

/-- Of several writes to one key the last one counts. -/
theorem get?_insertAll (m : Assoc α β) (pairs : List (α × β)) (a : α) :
    get? (insertAll m pairs) a =
      match pairs.reverse.find? (fun p => decide (p.1 = a)) with
      | some p => some p.2
      | none => get? m a := by
  induction pairs generalizing m with
  | nil => rfl
  | cons p pairs ih =>
    simp only [insertAll, List.foldl_cons] at ih ⊢
    rw [ih]
    simp only [List.reverse_cons, List.find?_append, get?_insert]
    cases pairs.reverse.find? (fun p => decide (p.1 = a)) with
    | some q => simp
    | none => by_cases h : p.1 = a <;> simp [h]

theorem insertAll_of_disjoint {m : Assoc α β} {pairs : List (α × β)}
    (h : (keys m ++ keys pairs).Nodup) : insertAll m pairs = m ++ pairs := by
  induction pairs generalizing m with
  | nil => simp [insertAll]
  | cons p pairs ih =>
    obtain ⟨a, b⟩ := p
    have ha : a ∉ keys m := by
      intro hm
      rw [List.nodup_append] at h
      exact h.2.2 a hm a (by simp) rfl
    simp only [insertAll, List.foldl_cons]
    rw [insert_of_not_mem ha]
    have := ih (m := m ++ [(a, b)]) (by simpa [keys, List.append_assoc] using h)
    simpa [insertAll, List.append_assoc] using this

theorem ofList_eq_self {pairs : List (α × β)} (h : (keys pairs).Nodup) : ofList pairs = pairs := by
  have h' : (keys ([] : Assoc α β) ++ keys pairs).Nodup := by simpa using h
  simpa [ofList] using insertAll_of_disjoint h'

end Assoc

end ResourceApi
