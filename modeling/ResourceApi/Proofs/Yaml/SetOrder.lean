import ResourceApi.Proofs.TwoRuns
import ResourceApi.Proofs.Yaml.GraphData
import ResourceApi.Yaml.Reader
import Mathlib.Data.List.Forall2

/-!
# The order of sets

Readers that go equally deep agree on a text but for the order in which they leave the items of
sets. Two readings of a graph stay *alike* on the way (`Reading.Alike`): they have met the same
nodes and wait for the same, and what a node holds differs in the order of a set at most. Nothing
that is read later looks into a set, as a set can be no key.

**Main result** (`read_alike`). Such readers refuse the same texts, for the same defects, and read
any other text as values that are alike.
-/

namespace ResourceApi

/-- The values are the same but for the order of the items of sets. -/
inductive Data.Alike : Data → Data → Prop
  | refl (d : Data) : Alike d d
  | set {xs ys : List Data} : xs.Perm ys → Alike (.set xs) (.set ys)
  | list {xs ys : List Data} : List.Forall₂ Alike xs ys → Alike (.list xs) (.list ys)
  | pair {a b c d : Data} : Alike a c → Alike b d → Alike (.pair a b) (.pair c d)
  | map {ms ns : List (Data × Data)} : ms.map Prod.fst = ns.map Prod.fst →
      List.Forall₂ Alike (ms.map Prod.snd) (ns.map Prod.snd) → Alike (.map ms) (.map ns)
  | knot (label : Nat) {d e : Data} : Alike d e → Alike (.knot label d) (.knot label e)

namespace Yaml

/-! ## Contents -/

/-- The contents are the same but for the order of a set. -/
inductive Content.Alike : Content → Content → Prop
  | refl (c : Content) : Alike c c
  | set {ks ks' : List Data} : ks.Perm ks' → Alike (.set ks) (.set ks')

/-! ## Tables -/

/-- The tables have related entries under every number, or none in either. -/
structure Matched {α : Type} (R : α → α → Prop) (xs ys : Array (Option α)) : Prop where
  size_eq : xs.size = ys.size
  rel : ∀ i : Nat, Option.Rel R (xs[i]?).join (ys[i]?).join

namespace Matched

variable {α : Type} {R : α → α → Prop} {xs ys : Array (Option α)}

theorem replicate_none (n : Nat) :
    Matched R (Array.replicate n (none : Option α)) (Array.replicate n none) := by
  refine ⟨rfl, fun i => ?_⟩
  rw [Array.getElem?_replicate]
  split_ifs <;> exact .none

theorem set (h : Matched R xs ys) (i : Nat) {x y : α} (hxy : R x y) :
    Matched R (xs.setIfInBounds i (some x)) (ys.setIfInBounds i (some y)) := by
  refine ⟨by simp [h.size_eq], fun j => ?_⟩
  by_cases hij : i = j
  · subst hij
    by_cases hlt : i < xs.size
    · have hlt' : i < ys.size := h.size_eq ▸ hlt
      simpa [hlt, hlt'] using Option.Rel.some hxy
    · have hlt' : ¬ i < ys.size := h.size_eq ▸ hlt
      simp [hlt, hlt']
  · rw [Array.getElem?_setIfInBounds_ne hij, Array.getElem?_setIfInBounds_ne hij]
    exact h.rel j

end Matched

namespace Reading

/-! ## Meeting nodes -/

/-- The readings are the same but for the order of the sets that were read. -/
structure Alike (r r' : Reading) : Prop where
  nodes_eq : r.nodes = r'.nodes
  marked_eq : r.marked = r'.marked
  now_eq : r.now = r'.now
  later_eq : r.later = r'.later
  contents : Matched Content.Alike r.contents r'.contents

/-- The readings are alike, and what was found beside them is the same. -/
structure AlikeWith {α : Type} (p q : Reading × α) : Prop where
  readings : Alike p.1 q.1
  found_eq : p.2 = q.2

variable {r r' : Reading}

theorem Alike.refl (r : Reading) : Alike r r := by
  refine ⟨rfl, rfl, rfl, rfl, rfl, fun i => ?_⟩
  cases (r.contents[i]?).join with
  | none => exact .none
  | some c => exact .some (.refl c)

theorem Alike.setContent (h : Alike r r') (i : Nat) {c c' : Content} (hc : c.Alike c') :
    Alike (r.setContent i c) (r'.setContent i c') :=
  ⟨h.nodes_eq, h.marked_eq, h.now_eq, h.later_eq, h.contents.set i hc⟩

theorem meet_alike (h : Alike r r') (i : Nat) : Parallel Alike (r.meet i) (r'.meet i) := by
  have hrel : Option.Rel Content.Alike (r.contentAt i) (r'.contentAt i) := h.contents.rel i
  have hmet : (r.contentAt i).isSome = (r'.contentAt i).isSome := by
    generalize r.contentAt i = c, r'.contentAt i = c' at hrel
    cases hrel <;> rfl
  unfold meet
  rw [hmet, h.nodes_eq]
  dsimp only
  split_ifs
  · exact .ok h
  · obtain ⟨hnodes, hmarked, hnow, hlater, hcontents⟩ := h.setContent i (.refl .met)
    refine .ok ?_
    exact ⟨hnodes, hmarked, hnow, congrArg (i :: ·) hlater, hcontents⟩
  · refine Parallel.map (.refl (fun _ => rfl) _) fun d d' hd => ?_
    subst hd
    exact h.setContent i (.refl _)

/-- A key is a whole value, and so the same in both readings. -/
theorem meetKey_alike (h : Alike r r') (i : Nat) :
    Parallel (fun p q => p.1 = q.1 ∧ Alike p.2 q.2) (r.meetKey i) (r'.meetKey i) := by
  refine (meet_alike h i).bind fun s s' hs => ?_
  have hrel : Option.Rel Content.Alike (s.contentAt i) (s'.contentAt i) := hs.contents.rel i
  generalize s.contentAt i = c, s'.contentAt i = c' at hrel
  cases hrel with
  | none => exact .error _
  | @some c _ hc =>
    cases hc with
    | set hperm => exact .error _
    | refl =>
      cases c with
      | whole d => exact .ok ⟨rfl, hs⟩
      | _ => exact .error _

theorem insert_congr (h : r.nodes = r'.nodes) (key : Nat × Data) (value : Nat) (found : Members) :
    r.insert key value found = r'.insert key value found := by
  have hsame (a b : Nat × Data) : r.sameKey a b = r'.sameKey a b := by
    simp only [sameKey, isNanWord, h]
  induction found with
  | nil => rfl
  | cons m found ih => simp only [insert, hsame, ih]

theorem meetMembers_alike (h : Alike r r') (found : Members) (ms : List (Nat × Nat)) :
    Parallel AlikeWith (r.meetMembers found ms) (r'.meetMembers found ms) := by
  induction ms generalizing r r' found with
  | nil => exact .ok ⟨h, rfl⟩
  | cons m ms ih =>
    refine (meetKey_alike h m.1).bind fun p q hpq => ?_
    obtain ⟨hkey, hs⟩ := hpq
    refine (meet_alike hs m.2).bind fun s s' hs => ?_
    rw [hkey, insert_congr hs.nodes_eq]
    exact ih hs _

theorem meetPairs_alike (h : Alike r r') (found : List (Nat × Nat)) (is : List Nat) :
    Parallel AlikeWith (r.meetPairs found is) (r'.meetPairs found is) := by
  induction is generalizing r r' found with
  | nil => exact .ok ⟨h, rfl⟩
  | cons i is ih =>
    rw [meetPairs, meetPairs, h.nodes_eq]
    split
    · refine (meet_alike h _).bind fun s s' hs => ?_
      exact (meet_alike hs _).bind fun t t' ht => ih ht _
    · exact .error _

theorem meetAll_alike (h : Alike r r') (is : List Nat) :
    Parallel Alike (is.foldlM meet r) (is.foldlM meet r') := by
  induction is generalizing r r' with
  | nil => exact .ok h
  | cons i is ih => exact (meet_alike h i).bind fun s s' hs => ih hs

/-! ## Reading lists and maps -/

theorem readMembers_alike (h : Alike r r') (i : Nat) :
    Parallel AlikeWith (r.readMembers i) (r'.readMembers i) := by
  unfold readMembers
  rw [h.nodes_eq, h.marked_eq]
  split
  · refine meetMembers_alike ?_ _ _
    exact ⟨rfl, rfl, h.now_eq, h.later_eq, h.contents⟩
  · exact .error _

/-- **Reading one list or map** keeps readings alike: only the items of a set may change places. -/
theorem read_alike (reader reader' : Reader) (h : Alike r r') (i : Nat) :
    Parallel Alike (r.read reader i) (r'.read reader' i) := by
  unfold read
  rw [h.nodes_eq]
  split
  · exact (meetAll_alike h _).bind fun s s' hs => .ok (hs.setContent i (.refl _))
  · refine (meetPairs_alike h _ _).bind fun p q hpq => ?_
    obtain ⟨hs, hpairs⟩ := hpq
    exact .ok (hs.setContent i (hpairs ▸ .refl _))
  · refine (readMembers_alike h i).bind fun p q hpq => ?_
    obtain ⟨hs, hmembers⟩ := hpq
    exact .ok (hs.setContent i (hmembers ▸ .refl _))
  · refine (readMembers_alike h i).bind fun p q hpq => ?_
    obtain ⟨hs, hmembers⟩ := hpq
    have hperm := (reader.arrange_perm i (p.2.map fun m => m.1.2)).trans
      (reader'.arrange_perm i (p.2.map fun m => m.1.2)).symm
    exact .ok (hs.setContent i (.set (hmembers ▸ hperm)))
  · exact .error _

theorem next?_alike (h : Alike r r') :
    Option.Rel (fun p q => p.1 = q.1 ∧ Alike p.2 q.2) r.next? r'.next? := by
  obtain ⟨hnodes, hmarked, hnow, hlater, hcontents⟩ := h
  unfold next?
  rw [hnow, hlater]
  split
  · exact .some ⟨rfl, hnodes, hmarked, rfl, rfl, hcontents⟩
  · exact .some ⟨rfl, hnodes, hmarked, rfl, rfl, hcontents⟩
  · exact .none

theorem run_alike (reader reader' : Reader) (fuel : Nat) (h : Alike r r') :
    Parallel Alike (r.run reader fuel) (r'.run reader' fuel) := by
  induction fuel generalizing r r' with
  | zero => exact .ok h
  | succ fuel ih =>
    have hnext := next?_alike h
    rw [run, run]
    generalize r.next? = next, r'.next? = next' at hnext ⊢
    cases hnext with
    | none => exact .ok h
    | @some p q hpq =>
      obtain ⟨i, s⟩ := p
      obtain ⟨j, s'⟩ := q
      obtain ⟨rfl, hs⟩ := hpq
      exact (read_alike reader reader' hs i).bind fun t t' ht => ih ht

end Reading

/-- **The contents of a graph** differ in the order of sets only. -/
theorem contents_alike (reader reader' : Reader) (g : Graph) :
    Parallel (Matched Content.Alike) (g.contents reader) (g.contents reader') := by
  refine Parallel.bind_same fun r => ?_
  exact (r.run_alike reader reader' _ (.refl r)).bind fun s s' hs => .ok hs.contents

/-! ## Making values -/

namespace Branch

/-- The branches lead back to the same nodes, with values that are alike. -/
structure Alike (b b' : Branch) : Prop where
  data : b.data.Alike b'.data
  back_eq : b.back = b'.back

/-- Both computations have related answers, and leave alike what was made if it was alike before. -/
def Together {α : Type} (R : α → α → Prop) (x y : StateM Made α) : Prop :=
  ∀ made made', Matched Data.Alike made made' →
    R (x.run made).1 (y.run made').1 ∧ Matched Data.Alike (x.run made).2 (y.run made').2

variable {contents contents' : Array (Option Content)} {fuel : Nat} {around : List Nat}

namespace Together

variable {α β : Type} {R : α → α → Prop} {S : β → β → Prop} {x y : StateM Made α}

theorem pure {a b : α} (h : R a b) : Together R (Pure.pure a) (Pure.pure b) :=
  fun _ _ hmade => ⟨h, hmade⟩

theorem bind {f g : α → StateM Made β} (h : Together R x y)
    (hf : ∀ a b, R a b → Together S (f a) (g b)) : Together S (x >>= f) (y >>= g) := by
  intro made made' hmade
  obtain ⟨hab, hmade⟩ := h made made' hmade
  exact hf _ _ hab _ _ hmade

theorem mapM {f g : Nat → StateM Made β} (hf : ∀ i, Together S (f i) (g i)) (is : List Nat) :
    Together (List.Forall₂ S) (is.mapM f) (is.mapM g) := by
  induction is with
  | nil => exact .pure .nil
  | cons i is ih =>
    rw [List.mapM_cons, List.mapM_cons]
    exact (hf i).bind fun a b hab => ih.bind fun as bs habs => .pure (.cons hab habs)

end Together

/-! ### Joining values -/

theorem alike_whole {d d' : Data} (h : d.Alike d') : Alike (whole d) (whole d') :=
  ⟨h, rfl⟩

theorem alike_join {f : List Data → Data} {bs bs' : List Branch} (h : List.Forall₂ Alike bs bs')
    (hf : ∀ ds ds', List.Forall₂ Data.Alike ds ds' → (f ds).Alike (f ds')) :
    Alike (join f bs) (join f bs') := by
  refine ⟨hf _ _ ?_, ?_⟩
  · rw [List.forall₂_map_left_iff, List.forall₂_map_right_iff]
    exact h.imp fun b b' hb => hb.data
  · have hback : bs.map (·.back) = bs'.map (·.back) := by
      rw [← List.forall₂_eq_eq_eq, List.forall₂_map_left_iff, List.forall₂_map_right_iff]
      exact h.imp fun b b' hb => hb.back_eq
    have hfold (cs : List Branch) :
        (join f cs).back = (cs.map (·.back)).foldl
          (fun back more => back ++ more.filter (!back.contains ·)) [] := by
      rw [List.foldl_map]
      rfl
    rw [hfold, hfold, hback]

theorem alike_pairUp {ds ds' : List Data} (h : List.Forall₂ Data.Alike ds ds') :
    List.Forall₂ Data.Alike (pairUp ds) (pairUp ds') := by
  induction ds using pairUp.induct generalizing ds' with
  | case1 a b ds ih =>
    cases h with
    | cons ha h =>
      cases h with
      | cons hb h => exact .cons (.pair ha hb) (ih h)
  | case2 ds hds =>
    cases h with
    | nil => exact .nil
    | cons _ h =>
      cases h with
      | nil => exact .nil
      | cons => exact absurd rfl (hds _ _ _)

theorem alike_zip (keys : List Data) {ds ds' : List Data} (h : List.Forall₂ Data.Alike ds ds') :
    Data.Alike (.map (keys.zip ds)) (.map (keys.zip ds')) := by
  have hboth : (keys.zip ds).map Prod.fst = (keys.zip ds').map Prod.fst ∧
      List.Forall₂ Data.Alike ((keys.zip ds).map Prod.snd) ((keys.zip ds').map Prod.snd) := by
    induction h generalizing keys with
    | nil => simp
    | cons hd _ ih =>
      cases keys with
      | nil => exact ⟨rfl, .nil⟩
      | cons key keys => exact ⟨congrArg (key :: ·) (ih keys).1, .cons hd (ih keys).2⟩
  exact .map hboth.1 hboth.2

/-! ### Growing -/

theorem ofContent_alike
    (hgrow : ∀ i, Together Alike (grow contents fuel around i) (grow contents' fuel around i))
    {c c' : Option Content} (h : Option.Rel Content.Alike c c') :
    Together Alike (ofContent contents fuel around c) (ofContent contents' fuel around c') := by
  cases h with
  | none => exact .pure (alike_whole (.refl _))
  | @some c _ hc =>
    cases hc with
    | set hperm => exact .pure (alike_whole (.set hperm))
    | refl =>
      cases c with
      | whole d => exact .pure (alike_whole (.refl d))
      | set ks => exact .pure (alike_whole (.refl _))
      | met => exact .pure (alike_whole (.refl _))
      | list is =>
        exact (Together.mapM hgrow is).bind fun bs bs' hbs =>
          .pure (alike_join hbs fun ds ds' hds => .list hds)
      | pairs ps =>
        exact (Together.mapM hgrow _).bind fun bs bs' hbs =>
          .pure (alike_join hbs fun ds ds' hds => .list (alike_pairUp hds))
      | map ms =>
        exact (Together.mapM hgrow _).bind fun bs bs' hbs =>
          .pure (alike_join hbs fun ds ds' hds => alike_zip _ hds)

/-- **Growing a branch** of alike contents gives alike values, and leads back alike. -/
theorem grow_alike (h : Matched Content.Alike contents contents') (fuel : Nat) (around : List Nat)
    (i : Nat) : Together Alike (grow contents fuel around i) (grow contents' fuel around i) := by
  induction fuel generalizing around i with
  | zero => exact .pure (alike_whole (.refl _))
  | succ fuel ih =>
    have hcontent := ofContent_alike (ih (i :: around)) (h.rel i)
    rw [grow_succ, grow_succ]
    split_ifs with hmem
    · exact .pure ⟨.refl _, rfl⟩
    · -- the node was made in both runs, or is made now
      intro made made' hmade
      have hget (made : Made) : (get : StateM Made Made).run made = (made, made) := rfl
      have hrel := hmade.rel i
      rw [run_bind_eq (hget made), run_bind_eq (hget made')]
      generalize (made[i]?).join = cached, (made'[i]?).join = cached' at hrel ⊢
      cases hrel with
      | some hd => exact ⟨alike_whole hd, hmade⟩
      | none =>
        refine hcontent.bind (fun b b' hb => ?_) made made' hmade
        rw [hb.back_eq]
        split_ifs
        · intro made made' hmade
          exact ⟨hb, hmade.set i hb.data⟩
        · exact .pure ⟨.knot i hb.data, congrArg (List.filter (· != i)) hb.back_eq⟩

end Branch

theorem data_alike (reader reader' : Reader) (g : Graph) :
    Parallel Data.Alike (g.data reader) (g.data reader') := by
  refine (contents_alike reader reader' g).bind fun contents contents' h => ?_
  rw [h.size_eq]
  exact .ok (Branch.grow_alike h _ [] g.root _ _ (.replicate_none _)).1.data

/-- **Readers that go equally deep differ in the order of sets only.** -/
theorem read_alike {reader reader' : Reader} (h : reader.maxDepth = reader'.maxDepth)
    (text : List Char) : Parallel Data.Alike (read text reader) (read text reader') := by
  have hgraph (cs : List Char) : graph reader cs = graph reader' cs := by
    unfold graph
    rw [h]
  unfold read
  rw [hgraph]
  refine .bind_same fun g => ?_
  cases g with
  | none => exact .ok (.refl _)
  | some g => exact data_alike reader reader' g

end Yaml

end ResourceApi
