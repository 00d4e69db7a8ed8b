import ResourceApi.Model.Definition
import Mathlib.Tactic.SplitIfs

/-!
# Laws of members

What a write under a text key does to the members of a loaded map: `lookup_insertKey` says what is
found afterwards, `mem_keys_insertKey` which keys there are. What is found in a loaded object is
what the object has (`lookup_ofMembers`).
-/

namespace ResourceApi.Data

variable {ms : List (Data × Data)} {k : Data} {a key : Text} {v b : Data}

/-- Only a text is the same key as a text. -/
@[simp] theorem sameKey_str_iff : sameKey k (.str a) = true ↔ k = .str a := by
  cases k <;> simp [sameKey, fraction?]

/-! ## What is found -/

@[simp] theorem lookup_nil (key : Text) : lookup [] key = none := rfl

theorem lookup_cons_self : lookup ((.str key, v) :: ms) key = some v := by
  simp [lookup]

theorem lookup_cons_of_ne (h : k ≠ .str key) : lookup ((k, v) :: ms) key = lookup ms key := by
  unfold lookup
  rw [List.find?_cons_of_neg]
  cases k with
  | str s => simpa using h
  | _ => simp

theorem lookup_append (ms ms' : List (Data × Data)) (key : Text) :
    lookup (ms ++ ms') key = (lookup ms key).or (lookup ms' key) := by
  unfold lookup
  rw [List.find?_append, Option.map_or]

theorem lookup_insertKey (ms : List (Data × Data)) (a : Text) (b : Data) (key : Text) :
    lookup (insertKey ms (.str a) b) key = if a = key then some b else lookup ms key := by
  induction ms with
  | nil =>
    by_cases ha : a = key
    · rw [if_pos ha, insertKey, ha, lookup_cons_self]
    · rw [if_neg ha, insertKey, lookup_cons_of_ne (by simpa using ha)]
  | cons m ms ih =>
    obtain ⟨k, v⟩ := m
    rw [insertKey]
    split_ifs with hk ha ha
    -- the write takes the place of the first member
    · rw [sameKey_str_iff.1 hk, ha, lookup_cons_self]
    · have hne : k ≠ .str key := by simpa [sameKey_str_iff.1 hk] using ha
      rw [lookup_cons_of_ne hne, lookup_cons_of_ne hne]
    -- the write goes further down
    · have hne : k ≠ .str key := ha ▸ mt sameKey_str_iff.2 hk
      rw [lookup_cons_of_ne hne, ih, if_pos ha]
    · by_cases hkey : k = .str key
      · rw [hkey, lookup_cons_self, lookup_cons_self]
      · rw [lookup_cons_of_ne hkey, lookup_cons_of_ne hkey, ih, if_neg ha]

theorem lookup_insertNew (ms : List (Data × Data)) (a : Text) (b : Data) (key : Text) :
    lookup (insertNew ms a b) key =
      if a = key then (lookup ms key).or (some b) else lookup ms key := by
  unfold insertNew
  by_cases ha : a = key
  · subst ha
    cases hfound : lookup ms a with
    | none => simp [lookup_insertKey]
    | some v => simp [hfound]
  · split_ifs
    · rfl
    · rw [lookup_insertKey, if_neg ha]

/-! ## Keys -/

theorem insertKey_of_not_mem (h : .str a ∉ ms.map Prod.fst) (b : Data) :
    insertKey ms (.str a) b = ms ++ [(.str a, b)] := by
  induction ms with
  | nil => rfl
  | cons m ms ih =>
    obtain ⟨k, v⟩ := m
    rw [List.map_cons, List.mem_cons, not_or] at h
    rw [insertKey, if_neg fun hk => h.1 (sameKey_str_iff.1 hk).symm, ih h.2]
    rfl

theorem mem_keys_insertKey :
    k ∈ (insertKey ms (.str a) b).map Prod.fst ↔ k = .str a ∨ k ∈ ms.map Prod.fst := by
  induction ms with
  | nil => simp [insertKey]
  | cons m ms ih =>
    obtain ⟨k', v⟩ := m
    rw [insertKey]
    split_ifs with hk
    · rw [List.map_cons, List.map_cons, List.mem_cons, sameKey_str_iff.1 hk, or_self_left]
    · rw [List.map_cons, List.map_cons, List.mem_cons, List.mem_cons, ih, or_left_comm]

/-! ## Loaded objects -/

theorem ofItems_eq_map (xs : List Json) : ofItems xs = xs.map ofJson := by
  induction xs with
  | nil => rfl
  | cons x xs ih => rw [ofItems, ih, List.map_cons]

theorem ofMembers_eq_map (ns : List (Text × Json)) :
    ofMembers ns = ns.map fun p => (.str p.1, ofJson p.2) := by
  induction ns with
  | nil => rfl
  | cons p ns ih => rw [ofMembers, ih, List.map_cons]

/-- What is found in a loaded object is what the object has. -/
theorem lookup_ofMembers (ns : List (Text × Json)) (key : Text) :
    lookup (ofMembers ns) key = ((Json.obj ns).get? key).map ofJson := by
  induction ns with
  | nil => rfl
  | cons p ns ih =>
    obtain ⟨k, x⟩ := p
    show lookup ((.str k, ofJson x) :: ofMembers ns) key =
      (Assoc.get? ((k, x) :: ns) key).map ofJson
    rw [Assoc.get?_cons]
    split_ifs with hk
    · rw [hk, lookup_cons_self]
      rfl
    · rw [lookup_cons_of_ne (by simpa using hk), ih]
      rfl

end ResourceApi.Data

namespace ResourceApi.Definition

variable {ms : List (Data × Data)}

theorem textKeys_iff : textKeys ms = true ↔ ∀ m ∈ ms, ∃ s, m.1 = .str s := by
  unfold textKeys
  rw [List.all_eq_true]
  refine forall₂_congr fun m _ => ?_
  cases m.1 <;> simp

/-- A write under a text key leaves all keys texts, or some key no text. -/
@[simp] theorem textKeys_insertKey (ms : List (Data × Data)) (a : Text) (b : Data) :
    textKeys (Data.insertKey ms (.str a) b) = textKeys ms := by
  induction ms with
  | nil => rfl
  | cons m ms ih =>
    obtain ⟨k, v⟩ := m
    rw [Data.insertKey]
    split_ifs
    · rfl
    · exact congrArg (_ && ·) ih

@[simp] theorem textKeys_insertNew (ms : List (Data × Data)) (a : Text) (b : Data) :
    textKeys (Data.insertNew ms a b) = textKeys ms := by
  unfold Data.insertNew
  split_ifs
  · rfl
  · exact textKeys_insertKey ms a b

end ResourceApi.Definition
