import ResourceApi.Assoc
import Mathlib.Data.List.Induction
import Mathlib.Data.List.Nodup
import Mathlib.Data.List.Perm.Subperm

/-!
# Laws of ordered maps

A map made from a list of writes has the keys that were written, each once, and the value under a
key is that of the last write (`get?_ofList`). In a map with distinct keys, to be found under a key
is to stand beside it (`get?_eq_some_iff_mem`).

Two maps are *alike* when they have the same keys in the same order and related values under them.
Writes of the same keys with related values keep maps alike (`Alike.ofList`).

When keys are replaced one to one, it does not matter whether that is done before or after writing
(`mapKeys_ofList`): a write meets its own key in either map.
-/

namespace ResourceApi

theorem ne_of_nodup_map {α β : Type} {f : α → β} {before after : List α} {a b : α}
    (h : ((before ++ a :: after).map f).Nodup) (hb : b ∈ after) : f a ≠ f b := by
  rw [List.map_append, List.map_cons] at h
  have ha : f a ∉ after.map f := (List.nodup_cons.1 (List.nodup_append.1 h).2.1).1
  intro heq
  exact ha (heq ▸ List.mem_map_of_mem hb)

namespace Assoc

universe u v w

variable {α : Type u} {β : Type v} {γ : Type w}

/-! ## Keys and pairs -/

theorem mem_keys_of_mem {m : Assoc α β} {a : α} {b : β} (h : (a, b) ∈ m) : a ∈ keys m :=
  List.mem_map_of_mem h

theorem exists_of_mem_keys {m : Assoc α β} {a : α} (h : a ∈ keys m) : ∃ b, (a, b) ∈ m := by
  obtain ⟨p, hp, rfl⟩ := List.mem_map.1 h
  exact ⟨p.2, hp⟩

theorem keys_append (m n : Assoc α β) : keys (m ++ n) = keys m ++ keys n :=
  List.map_append

theorem keys_flatten (ms : List (Assoc α β)) : keys ms.flatten = (ms.map keys).flatten :=
  List.map_flatten

theorem keys_mapValues (f : β → γ) (m : Assoc α β) : keys (mapValues f m) = keys m := by
  rw [keys, keys, mapValues, List.map_map]
  rfl

theorem mem_mapValues {f : β → γ} {m : Assoc α β} {p : α × γ} :
    p ∈ mapValues f m ↔ ∃ b, (p.1, b) ∈ m ∧ f b = p.2 := by
  obtain ⟨a, c⟩ := p
  simp [mapValues]

variable [DecidableEq α]

theorem mem_of_get? {m : Assoc α β} {a : α} {b : β} (h : get? m a = some b) : (a, b) ∈ m := by
  induction m with
  | nil => cases h
  | cons p m ih =>
    obtain ⟨k, v⟩ := p
    rw [get?_cons] at h
    split at h
    · next hk =>
      cases h
      rw [hk]
      exact List.mem_cons_self
    · exact List.mem_cons_of_mem _ (ih h)

theorem get?_eq_some_iff_mem {m : Assoc α β} (hm : (keys m).Nodup) {a : α} {b : β} :
    get? m a = some b ↔ (a, b) ∈ m := by
  refine ⟨mem_of_get?, fun h => ?_⟩
  induction m with
  | nil => cases h
  | cons p m ih =>
    obtain ⟨k, v⟩ := p
    rw [keys_cons, List.nodup_cons] at hm
    rcases List.mem_cons.1 h with heq | h
    · cases heq
      rw [get?_cons, if_pos rfl]
    · have hk : k ≠ a := by
        rintro rfl
        exact hm.1 (mem_keys_of_mem h)
      rw [get?_cons, if_neg hk]
      exact ih hm.2 h

theorem get?_append (m n : Assoc α β) (a : α) :
    get? (m ++ n) a = (get? m a).or (get? n a) := by
  induction m with
  | nil => rfl
  | cons p m ih =>
    obtain ⟨k, v⟩ := p
    rw [List.cons_append, get?_cons, get?_cons, ih]
    split <;> rfl

theorem get?_mapValues (f : β → γ) (m : Assoc α β) (a : α) :
    get? (mapValues f m) a = (get? m a).map f := by
  induction m with
  | nil => rfl
  | cons p m ih =>
    obtain ⟨k, v⟩ := p
    show get? ((k, f v) :: mapValues f m) a = _
    rw [get?_cons, get?_cons, ih]
    split <;> rfl

/-- A selection by key keeps or drops what stands under a key. -/
theorem get?_filter (keep : α → Bool) (m : Assoc α β) (a : α) :
    get? (m.filter fun p => keep p.1) a = if keep a then get? m a else none := by
  induction m with
  | nil => simp
  | cons p m ih =>
    obtain ⟨k, v⟩ := p
    by_cases hk : keep k
    · rw [List.filter_cons_of_pos (by exact hk), get?_cons, get?_cons, ih]
      by_cases ha : k = a
      · subst ha
        simp [hk]
      · rw [if_neg ha, if_neg ha]
    · rw [List.filter_cons_of_neg (by exact hk), ih, get?_cons]
      by_cases ha : k = a
      · subst ha
        simp [hk]
      · rw [if_neg ha]

/-- Part of a map, in the order of the map, is a selection by key. -/
theorem eq_filter_of_sublist {m n : Assoc α β} (h : m.Sublist n) (hn : (keys n).Nodup) :
    m = n.filter fun p => p.1 ∈ keys m := by
  induction h with
  | slnil => rfl
  | @cons m n p hsub ih =>
    obtain ⟨hp, hn⟩ := List.nodup_cons.1 hn
    have hkey : p.1 ∉ keys m := fun hm => hp ((hsub.map Prod.fst).subset hm)
    rw [List.filter_cons_of_neg (by simpa using hkey)]
    exact ih hn
  | @cons_cons m n p hsub ih =>
    obtain ⟨hp, hn⟩ := List.nodup_cons.1 hn
    have hrest : n.filter (fun q => decide (q.1 ∈ keys (p :: m))) =
        n.filter fun q => decide (q.1 ∈ keys m) := by
      refine List.filter_congr fun q hq => ?_
      have hne : q.1 ≠ p.1 := fun heq => hp (heq ▸ mem_keys_of_mem hq)
      simp [hne]
    rw [List.filter_cons_of_pos (by simp), hrest, ← ih hn]

/-! ## Writes -/

theorem mem_of_mem_insert {m : Assoc α β} {a : α} {b : β} {p : α × β} (h : p ∈ insert m a b) :
    p = (a, b) ∨ p ∈ m := by
  induction m with
  | nil => exact .inl (List.mem_singleton.1 h)
  | cons q m ih =>
    obtain ⟨k, v⟩ := q
    rw [insert] at h
    split_ifs at h with hk
    · rcases List.mem_cons.1 h with rfl | h
      · exact .inl (by rw [hk])
      · exact .inr (List.mem_cons_of_mem _ h)
    · rcases List.mem_cons.1 h with rfl | h
      · exact .inr List.mem_cons_self
      · exact (ih h).imp_right (List.mem_cons_of_mem _)

theorem nodup_keys_insert {m : Assoc α β} (hm : (keys m).Nodup) (a : α) (b : β) :
    (keys (insert m a b)).Nodup := by
  rw [keys_insert]
  split_ifs with ha
  · exact hm
  · exact List.nodup_append.2 ⟨hm, List.nodup_singleton a, fun k hk c hc heq =>
      ha (List.mem_singleton.1 hc ▸ heq ▸ hk)⟩

theorem nodup_keys_insertAll {m : Assoc α β} (hm : (keys m).Nodup) (pairs : List (α × β)) :
    (keys (insertAll m pairs)).Nodup := by
  induction pairs generalizing m with
  | nil => exact hm
  | cons p pairs ih => exact ih (nodup_keys_insert hm p.1 p.2)

theorem nodup_keys_ofList (pairs : List (α × β)) : (keys (ofList pairs)).Nodup :=
  nodup_keys_insertAll (m := []) List.nodup_nil pairs

theorem ofList_append (ps qs : List (α × β)) : ofList (ps ++ qs) = insertAll (ofList ps) qs :=
  List.foldl_append

/-- **The last write of a key counts.** -/
theorem get?_ofList (pairs : List (α × β)) (a : α) :
    get? (ofList pairs) a = get? pairs.reverse a := by
  induction pairs using List.reverseRecOn with
  | nil => rfl
  | append_singleton pairs p ih =>
    obtain ⟨k, v⟩ := p
    rw [ofList_append, List.reverse_append, List.reverse_singleton, List.singleton_append]
    show get? (insert (ofList pairs) k v) a = _
    rw [get?_insert, get?_cons, ih]

theorem get?_ofList_append (ps qs : List (α × β)) (a : α) :
    get? (ofList (ps ++ qs)) a = (get? (ofList qs) a).or (get? (ofList ps) a) := by
  rw [get?_ofList, get?_ofList, get?_ofList, List.reverse_append, get?_append]

theorem mem_of_mem_ofList {pairs : List (α × β)} {p : α × β} (h : p ∈ ofList pairs) :
    p ∈ pairs := by
  have hget := (get?_eq_some_iff_mem (nodup_keys_ofList pairs)).2 h
  rw [get?_ofList] at hget
  exact List.mem_reverse.1 (mem_of_get? hget)

@[simp] theorem mem_keys_ofList {pairs : List (α × β)} {a : α} :
    a ∈ keys (ofList pairs) ↔ a ∈ keys pairs := by
  refine ⟨fun h => ?_, fun h => ?_⟩
  · obtain ⟨b, hb⟩ := exists_of_mem_keys h
    exact mem_keys_of_mem (mem_of_mem_ofList hb)
  · by_contra hne
    have hnone := (get?_eq_none_iff _ _).2 hne
    rw [get?_ofList, get?_eq_none_iff, keys, List.map_reverse, List.mem_reverse] at hnone
    exact hnone h

/-- Writes that give a map of as many members are that map: no write met a key again. -/
theorem ofList_eq_iff {ps qs : List (α × β)} (hqs : (keys qs).Nodup)
    (hlength : ps.length = qs.length) : ofList ps = qs ↔ ps = qs := by
  refine ⟨fun h => ?_, fun h => by rw [h, ofList_eq_self hqs]⟩
  have hsub : keys qs ⊆ keys ps := fun a ha => mem_keys_ofList.1 (h ▸ ha)
  have hlength : (keys ps).length ≤ (keys qs).length := by simp [keys, hlength]
  have hperm := (hqs.subperm hsub).perm_of_length_le hlength
  rw [← h, ofList_eq_self (hperm.nodup hqs)]

/-! ## Maps that are alike -/

/-- The maps have the same keys in the same order, and related values under them. -/
def Alike (R : β → γ → Prop) (m : Assoc α β) (n : Assoc α γ) : Prop :=
  List.Forall₂ (fun p q => p.1 = q.1 ∧ R p.2 q.2) m n

variable {R : β → γ → Prop} {m : Assoc α β} {n : Assoc α γ}

omit [DecidableEq α] in
theorem Alike.refl {R : β → β → Prop} (hR : ∀ b, R b b) (m : Assoc α β) : Alike R m m :=
  List.forall₂_same.2 fun p _ => ⟨rfl, hR p.2⟩

omit [DecidableEq α] in
theorem Alike.append {m' : Assoc α β} {n' : Assoc α γ} (h : Alike R m n) (h' : Alike R m' n') :
    Alike R (m ++ m') (n ++ n') :=
  List.rel_append h h'

omit [DecidableEq α] in
theorem Alike.keys_eq (h : Alike R m n) : keys m = keys n := by
  induction h with
  | nil => rfl
  | cons hpq _ ih => rw [keys_cons, keys_cons, hpq.1, ih]

omit [DecidableEq α] in
/-- What is read off the values of maps that are alike is one map. -/
theorem Alike.mapValues_eq {δ : Type*} {f : β → δ} {g : γ → δ}
    (h : Alike (fun b c => f b = g c) m n) : mapValues f m = mapValues g n := by
  induction h with
  | nil => rfl
  | @cons p q _ _ hpq _ ih =>
    show (p.1, f p.2) :: mapValues f _ = (q.1, g q.2) :: mapValues g _
    rw [hpq.1, hpq.2, ih]

theorem Alike.exists_of_get? (h : Alike R m n) {a : α} {b : β} (hb : get? m a = some b) :
    ∃ c, get? n a = some c ∧ R b c := by
  induction h with
  | nil => cases hb
  | @cons p q _ _ hpq _ ih =>
    obtain ⟨k, v⟩ := p
    obtain ⟨l, w⟩ := q
    obtain ⟨hkey, hR⟩ := hpq
    cases hkey
    rw [get?_cons] at hb ⊢
    split_ifs at hb ⊢ with hk
    · cases hb
      exact ⟨w, rfl, hR⟩
    · exact ih hb

theorem Alike.insert (h : Alike R m n) (a : α) {b : β} {c : γ} (hbc : R b c) :
    Alike R (Assoc.insert m a b) (Assoc.insert n a c) := by
  induction h with
  | nil => exact .cons ⟨rfl, hbc⟩ .nil
  | @cons p q _ _ hpq hrest ih =>
    obtain ⟨k, v⟩ := p
    obtain ⟨l, w⟩ := q
    obtain ⟨hkey, hR⟩ := hpq
    cases hkey
    rw [Assoc.insert, Assoc.insert]
    split_ifs
    · exact .cons ⟨rfl, hbc⟩ hrest
    · exact .cons ⟨rfl, hR⟩ ih

theorem Alike.insertAll (h : Alike R m n) {ps : List (α × β)} {qs : List (α × γ)}
    (hwrites : Alike R ps qs) : Alike R (Assoc.insertAll m ps) (Assoc.insertAll n qs) := by
  induction hwrites generalizing m n with
  | nil => exact h
  | @cons p q _ _ hpq _ ih =>
    obtain ⟨k, v⟩ := p
    obtain ⟨l, w⟩ := q
    obtain ⟨hkey, hR⟩ := hpq
    cases hkey
    exact ih (h.insert k hR)

/-- **Maps made from the same writes, with related values, are alike.** -/
theorem Alike.ofList {ps : List (α × β)} {qs : List (α × γ)} (h : Alike R ps qs) :
    Alike R (Assoc.ofList ps) (Assoc.ofList qs) :=
  Alike.insertAll (m := []) (n := []) .nil h

/-! ## Other keys -/

/-- Replaces every key. -/
def mapKeys {δ : Type*} (f : α → δ) (m : Assoc α β) : Assoc δ β := m.map fun p => (f p.1, p.2)

section

variable {δ : Type*} {f : α → δ}

omit [DecidableEq α] in
theorem mapKeys_append (m n : Assoc α β) : mapKeys f (m ++ n) = mapKeys f m ++ mapKeys f n :=
  List.map_append

variable [DecidableEq δ]

theorem mapKeys_insert (hf : Function.Injective f) (m : Assoc α β) (a : α) (b : β) :
    mapKeys f (insert m a b) = insert (mapKeys f m) (f a) b := by
  induction m with
  | nil => rfl
  | cons p m ih =>
    obtain ⟨k, v⟩ := p
    show mapKeys f (insert ((k, v) :: m) a b) = insert ((f k, v) :: mapKeys f m) (f a) b
    rw [insert, insert, ← ih]
    by_cases hk : k = a
    · rw [if_pos hk, if_pos (congrArg f hk)]
      rfl
    · rw [if_neg hk, if_neg (hf.ne hk)]
      rfl

theorem mapKeys_insertAll (hf : Function.Injective f) (m : Assoc α β) (pairs : List (α × β)) :
    mapKeys f (insertAll m pairs) = insertAll (mapKeys f m) (mapKeys f pairs) := by
  induction pairs generalizing m with
  | nil => rfl
  | cons p pairs ih =>
    show mapKeys f (insertAll (insert m p.1 p.2) pairs) =
      insertAll (insert (mapKeys f m) (f p.1) p.2) (mapKeys f pairs)
    rw [ih, mapKeys_insert hf]

/-- **Keys can be replaced one to one before or after writing.** -/
theorem mapKeys_ofList (hf : Function.Injective f) (pairs : List (α × β)) :
    mapKeys f (ofList pairs) = ofList (mapKeys f pairs) :=
  mapKeys_insertAll hf [] pairs

end

end Assoc

end ResourceApi
