import ResourceApi.Proofs.Yaml.HeldValue
import ResourceApi.Yaml.Node.Content
import Mathlib.Data.List.Nodup
import Mathlib.Data.List.Perm.Subperm
import Mathlib.Data.List.TakeWhile

/-!
# Reading the nodes of a value

A table of nodes is read from its first node outwards in, each list or map once. While it is read,
every node that was met holds a value, and either waits to be read or holds what its node says, with
all its parts met (`Sound`). Meeting a node keeps this (`meet_sound`), and so does reading the next
list or map (`read_sound`). Each reading leaves one node fewer to read, so the reading comes to its
end (`run_sound`).

**Main result** (`contents_of_holds`). A graph whose root holds a value has contents, and whatever
is met in it is read (`Complete`).
-/

namespace ResourceApi.Yaml

/-- The nodes of the members of a map, with their keys. -/
def numberedMembers (es : List Entry) : List (Data × Nat) :=
  (Assoc.ofList (es.map fun e => (e.key, e.node))).map fun m => (.str m.1, m.2)

/-- What a node holds once it is read. -/
inductive ReadAs (nodes : Array Node) (i : Nat) : Content → Prop
  | text {t : Text} : nodes[i]? = some (.scalar .text t) → ReadAs nodes i (.whole (.str t))
  | truth {b : Bool} : nodes[i]? = some (.scalar .truth (truthWord b)) →
      ReadAs nodes i (.whole (.bool b))
  | list {is : List Nat} : nodes[i]? = some (.list .list is) → ReadAs nodes i (.list is)
  | map (es : List Entry) : nodes[i]? = some (.map .map (es.map fun e => (e.keyNode, e.node))) →
      (∀ e ∈ es, nodes[e.keyNode]? = some (.scalar .text e.key)) →
      ReadAs nodes i (.map (numberedMembers es))

theorem ReadAs.ne_met {nodes : Array Node} {i : Nat} {c : Content} (h : ReadAs nodes i c) :
    c ≠ .met := by
  cases h <;> nofun

/-- The text of the scalar of a number. -/
def textAt (nodes : Array Node) (i : Nat) : Text :=
  match nodes[i]? with
  | some (.scalar _ t) => t
  | _ => ""

/-- **A node is read in one way.** -/
theorem ReadAs.unique {nodes : Array Node} {i : Nat} {c c' : Content} (h : ReadAs nodes i c)
    (h' : ReadAs nodes i c') : c = c' := by
  cases h with
  | text hnode =>
    cases h' with
    | text hnode' =>
      cases hnode.symm.trans hnode'
      rfl
    | truth hnode' => cases hnode.symm.trans hnode'
    | list hnode' => cases hnode.symm.trans hnode'
    | map es hnode' => cases hnode.symm.trans hnode'
  | @truth b hnode =>
    cases h' with
    | text hnode' => cases hnode.symm.trans hnode'
    | @truth b' hnode' =>
      have hword : truthWord b = truthWord b' := by
        have hnodes := hnode.symm.trans hnode'
        simpa using hnodes
      rw [truthWord_injective hword]
    | list hnode' => cases hnode.symm.trans hnode'
    | map es hnode' => cases hnode.symm.trans hnode'
  | list hnode =>
    cases h' with
    | text hnode' => cases hnode.symm.trans hnode'
    | truth hnode' => cases hnode.symm.trans hnode'
    | list hnode' =>
      cases hnode.symm.trans hnode'
      rfl
    | map es hnode' => cases hnode.symm.trans hnode'
  | map es hnode hkeys =>
    cases h' with
    | text hnode' => cases hnode.symm.trans hnode'
    | truth hnode' => cases hnode.symm.trans hnode'
    | list hnode' => cases hnode.symm.trans hnode'
    | map es' hnode' hkeys' =>
      have hnodes : es.map (fun e => (e.keyNode, e.node)) =
          es'.map fun e => (e.keyNode, e.node) := by
        have hnodes := hnode.symm.trans hnode'
        simpa using hnodes
      -- the nodes of the keys tell the keys
      have hread (es : List Entry)
          (hkeys : ∀ e ∈ es, nodes[e.keyNode]? = some (.scalar .text e.key)) :
          es.map (fun e => (e.key, e.node)) =
            (es.map fun e => (e.keyNode, e.node)).map fun p => (textAt nodes p.1, p.2) := by
        rw [List.map_map]
        refine List.map_congr_left fun e he => ?_
        simp [textAt, hkeys e he]
      have hmembers : es.map (fun e => (e.key, e.node)) = es'.map fun e => (e.key, e.node) := by
        rw [hread es hkeys, hread es' hkeys', hnodes]
      rw [numberedMembers, numberedMembers, hmembers]

/-- The parts of a content that are nodes. -/
def Content.parts : Content → List Nat
  | .list is => is
  | .map ms => ms.map Prod.snd
  | _ => []

/-! ## Single nodes -/

section

variable {nodes : Array Node} {i : Nat} {n : Node} {d : Data}

theorem nodeAt_eq (h : nodes[i]? = some n) : nodeAt nodes i = n := by
  simp [nodeAt, h]

theorem scalarData_text (t : Text) : scalarData nodes (.scalar .text t) = .ok (.str t) := by
  simp [scalarData, Node.tag, Scalar.isScalar, scalarText, Scalar.data, bind, Except.bind]

theorem scalarData_truth (b : Bool) :
    scalarData nodes (.scalar .truth (truthWord b)) = .ok (.bool b) := by
  obtain ⟨cs, hcs, htruth⟩ : ∃ cs, (truthWord b).chars? = some cs ∧ Scalar.truth? cs = some b := by
    cases b with
    | false => exact ⟨"false".toList, Text.chars?_ofChars _, by decide +kernel⟩
    | true => exact ⟨"true".toList, Text.chars?_ofChars _, by decide +kernel⟩
  simp [scalarData, Node.tag, Scalar.isScalar, scalarText, Scalar.data, Scalar.ofChars, hcs, htruth,
    bind, Except.bind, Except.mapError]

theorem takeIn?_eq_self {marked : Nat} {ms : List (Nat × Nat)}
    (h : nodes[i]? = some (.map .map ms))
    (hkeys : ∀ m ∈ ms, ∃ t, nodes[m.1]? = some (.scalar .text t)) :
    takeIn? marked nodes i = some nodes := by
  have hmembers : Merge.membersAt nodes i = ms := by
    simp [Merge.membersAt, nodeAt_eq h]
  have hpassed : ms.takeWhile (!Merge.isMarked nodes ·) = ms := by
    refine List.takeWhile_eq_self_iff.2 fun m hm => ?_
    obtain ⟨t, ht⟩ := hkeys m hm
    simp [Merge.isMarked, nodeAt_eq ht, Node.tag]
  have hplain : ms.foldl (fun nodes m => Merge.plainKey nodes m.1) nodes = nodes := by
    have hkey : ∀ m ∈ ms, Merge.plainKey nodes m.1 = nodes := by
      intro m hm
      obtain ⟨t, ht⟩ := hkeys m hm
      simp [Merge.plainKey, nodeAt_eq ht]
    clear h hmembers hpassed hkeys
    induction ms with
    | nil => rfl
    | cons m ms ih =>
      obtain ⟨hm, hms⟩ := List.forall_mem_cons.1 hkey
      rw [List.foldl_cons, hm, ih hms]
  have hset : Merge.setMembers nodes i ms = nodes := by
    simp only [Merge.setMembers, nodeAt_eq h]
    refine Array.ext_getElem? fun k => ?_
    by_cases hk : i = k
    · subst hk
      rw [h]
      have hlt : i < nodes.size := (Array.getElem?_eq_some_iff.1 h).1
      simp [hlt]
    · rw [Array.getElem?_setIfInBounds_ne hk]
  unfold takeIn?
  rw [Merge.takeFrom]
  simp [hmembers, hpassed, hplain, hset]

end

namespace Reading

/-! ## The state of a reading -/

/-- The nodes read so far, and the one that is being read, if any, with those that wait. Whatever
was met holds a value, and has met its parts once it is read. -/
structure Sound (nodes : Array Node) (done busy : List Nat) (r : Reading) : Prop where
  nodes_eq : r.nodes = nodes
  size_eq : r.contents.size = nodes.size
  distinct : (done ++ (busy ++ (r.now ++ r.later.reverse))).Nodup
  waits_iff : ∀ i, i ∈ busy ++ (r.now ++ r.later.reverse) ↔ r.contentAt i = some .met
  done_read : ∀ i ∈ done, ∃ c, r.contentAt i = some c ∧ c ≠ .met
  held : ∀ i c, r.contentAt i = some c → ∃ d, Holds nodes i d
  met : ∀ i, r.contentAt i = some .met → ∃ n, nodes[i]? = some n ∧ isCollection n.tag = true
  read : ∀ i c, r.contentAt i = some c → c ≠ .met →
    ReadAs nodes i c ∧ ∀ j ∈ c.parts, r.contentAt j ≠ none

/-- Whatever one reading has met the other one holds too. -/
def Keeps (r r' : Reading) : Prop := ∀ i c, r.contentAt i = some c → r'.contentAt i = some c

variable {nodes : Array Node} {done busy : List Nat} {r r' r'' : Reading} {i : Nat} {d : Data}

theorem Keeps.refl (r : Reading) : Keeps r r := fun _ _ h => h

theorem Keeps.trans (h : Keeps r r') (h' : Keeps r' r'') : Keeps r r'' :=
  fun i c hc => h' i c (h i c hc)

theorem Keeps.ne_none (h : Keeps r r') (hi : r.contentAt i ≠ none) : r'.contentAt i ≠ none := by
  obtain ⟨c, hc⟩ := Option.ne_none_iff_exists'.1 hi
  rw [h i c hc]
  exact Option.some_ne_none c

theorem contentAt_setContent (r : Reading) (i j : Nat) (c : Content) :
    (r.setContent i c).contentAt j =
      if i = j ∧ i < r.contents.size then some c else r.contentAt j := by
  unfold contentAt setContent
  by_cases hij : i = j
  · subst hij
    by_cases hlt : i < r.contents.size
    · simp [hlt]
    · simp [hlt]
  · simp [hij, Array.getElem?_setIfInBounds_ne hij]

/-! ## Meeting -/

theorem keeps_setContent (c : Content) (h : r.contentAt i = none) : Keeps r (r.setContent i c) := by
  intro j e he
  rw [contentAt_setContent, if_neg, he]
  rintro ⟨rfl, -⟩
  rw [h] at he
  cases he

theorem Sound.notMem (h : Sound nodes done busy r) (hi : r.contentAt i = none) :
    i ∉ done ++ (busy ++ (r.now ++ r.later.reverse)) := by
  intro hmem
  rcases List.mem_append.1 hmem with hmem | hmem
  · obtain ⟨c, hc, -⟩ := h.done_read i hmem
    rw [hi] at hc
    cases hc
  · rw [h.waits_iff, hi] at hmem
    cases hmem

theorem Sound.held_setContent (h : Sound nodes done busy r) (hd : Holds nodes i d) (c : Content) :
    ∀ j e, (r.setContent i c).contentAt j = some e → ∃ d, Holds nodes j d := by
  intro j e he
  rw [contentAt_setContent] at he
  split_ifs at he with hij
  · exact ⟨d, hij.1 ▸ hd⟩
  · exact h.held j e he

theorem Sound.meetScalar (h : Sound nodes done busy r) (hd : Holds nodes i d)
    (hnew : r.contentAt i = none) {v : Data} (hread : ReadAs nodes i (.whole v)) :
    Sound nodes done busy (r.setContent i (.whole v)) := by
  have hkeeps := keeps_setContent (.whole v) hnew
  have hmet (j : Nat) : (r.setContent i (.whole v)).contentAt j = some .met ↔
      r.contentAt j = some .met := by
    rw [contentAt_setContent]
    split_ifs with hij
    · rw [← hij.1, hnew]
      simp
    · rfl
  refine ⟨h.nodes_eq, ?_, h.distinct, fun j => ?_, fun j hj => ?_, h.held_setContent hd _,
    fun j hj => h.met j ((hmet j).1 hj), fun j e he hne => ?_⟩
  · show (r.contents.setIfInBounds i (some (.whole v))).size = _
    rw [Array.size_setIfInBounds, h.size_eq]
  · rw [hmet]
    exact h.waits_iff j
  · obtain ⟨e, he, hne⟩ := h.done_read j hj
    exact ⟨e, hkeeps j e he, hne⟩
  · rw [contentAt_setContent] at he
    split_ifs at he with hij
    · cases he
      exact ⟨hij.1 ▸ hread, nofun⟩
    · obtain ⟨hread, hparts⟩ := h.read j e he hne
      exact ⟨hread, fun k hk => hkeeps.ne_none (hparts k hk)⟩

theorem Sound.meetCollection (h : Sound nodes done busy r) (hd : Holds nodes i d)
    (hnew : r.contentAt i = none) {n : Node} (hn : nodes[i]? = some n)
    (hcollection : isCollection n.tag = true) :
    Sound nodes done busy { r.setContent i .met with later := i :: r.later } := by
  have hkeeps := keeps_setContent .met hnew
  have hlt : i < r.contents.size := by
    rw [h.size_eq]
    exact hd.lt_size
  have hcontent (j : Nat) : Reading.contentAt { r.setContent i .met with later := i :: r.later } j =
      (r.setContent i .met).contentAt j := rfl
  have hmet (j : Nat) : (r.setContent i .met).contentAt j = some .met ↔
      i = j ∨ r.contentAt j = some .met := by
    rw [contentAt_setContent]
    by_cases hij : i = j
    · simp [hij, hij ▸ hlt]
    · simp [hij]
  refine ⟨h.nodes_eq, ?_, ?_, fun j => ?_, fun j hj => ?_, h.held_setContent hd _,
    fun j hj => ?_, fun j e he hne => ?_⟩
  · show (r.contents.setIfInBounds i (some .met)).size = _
    rw [Array.size_setIfInBounds, h.size_eq]
  · have hnodup : ((done ++ (busy ++ (r.now ++ r.later.reverse))) ++ [i]).Nodup := by
      refine List.nodup_append.2 ⟨h.distinct, List.nodup_singleton i, ?_⟩
      rintro j hj k hk rfl
      rw [List.mem_singleton.1 hk] at hj
      exact h.notMem hnew hj
    show (done ++ (busy ++ (r.now ++ (i :: r.later).reverse))).Nodup
    simpa using hnodup
  · rw [hcontent, hmet, ← h.waits_iff]
    simp only [List.reverse_cons, List.mem_append, List.mem_singleton]
    tauto
  · obtain ⟨e, he, hne⟩ := h.done_read j hj
    exact ⟨e, hkeeps j e he, hne⟩
  · rw [hcontent, hmet] at hj
    rcases hj with rfl | hj
    · exact ⟨n, hn, hcollection⟩
    · exact h.met j hj
  · rw [hcontent, contentAt_setContent] at he
    split_ifs at he with hij
    · cases he
      exact absurd rfl hne
    · obtain ⟨hread, hparts⟩ := h.read j e he hne
      exact ⟨hread, fun k hk => hkeeps.ne_none (hparts k hk)⟩

/-- **Meeting a node** that holds a value. -/
theorem meet_sound (h : Sound nodes done busy r) (hd : Holds nodes i d) :
    ∃ r', r.meet i = .ok r' ∧ Sound nodes done busy r' ∧ Keeps r r' ∧ r'.contentAt i ≠ none := by
  cases hcontent : r.contentAt i with
  | some c =>
    refine ⟨r, ?_, h, .refl r, by simp [hcontent]⟩
    simp [meet, hcontent]
  | none =>
    have hlt : i < r.contents.size := by
      rw [h.size_eq]
      exact hd.lt_size
    have hset (c : Content) : (r.setContent i c).contentAt i ≠ none := by
      rw [contentAt_setContent, if_pos ⟨rfl, hlt⟩]
      exact Option.some_ne_none c
    cases hd with
    | @text _ t hnode =>
      refine ⟨_, ?_, h.meetScalar (.text hnode) hcontent (.text hnode),
        keeps_setContent _ hcontent, hset _⟩
      simp [meet, hcontent, h.nodes_eq, nodeAt_eq hnode, Node.tag, isCollection, scalarData_text,
        Except.map]
    | @truth _ b hnode =>
      refine ⟨_, ?_, h.meetScalar (.truth hnode) hcontent (.truth hnode),
        keeps_setContent _ hcontent, hset _⟩
      simp [meet, hcontent, h.nodes_eq, nodeAt_eq hnode, Node.tag, isCollection, scalarData_truth,
        Except.map]
    | list ps hnode hlt' hheld =>
      refine ⟨_, ?_, h.meetCollection (.list ps hnode hlt' hheld) hcontent hnode rfl,
        keeps_setContent _ hcontent, hset _⟩
      simp [meet, hcontent, h.nodes_eq, nodeAt_eq hnode, Node.tag, isCollection]
    | map es hnode hkeys hheld =>
      refine ⟨_, ?_, h.meetCollection (.map es hnode hkeys hheld) hcontent hnode rfl,
        keeps_setContent _ hcontent, hset _⟩
      simp [meet, hcontent, h.nodes_eq, nodeAt_eq hnode, Node.tag, isCollection]

theorem meetAll_sound {is : List Nat} (h : Sound nodes done busy r)
    (his : ∀ i ∈ is, ∃ d, Holds nodes i d) :
    ∃ r', is.foldlM meet r = .ok r' ∧ Sound nodes done busy r' ∧ Keeps r r' ∧
      ∀ i ∈ is, r'.contentAt i ≠ none := by
  induction is generalizing r with
  | nil => exact ⟨r, rfl, h, .refl r, nofun⟩
  | cons i is ih =>
    obtain ⟨⟨d, hd⟩, his⟩ := List.forall_mem_cons.1 his
    obtain ⟨r₁, hmeet, hsound₁, hkeeps₁, hi⟩ := meet_sound h hd
    obtain ⟨r₂, hmeets, hsound₂, hkeeps₂, hmets⟩ := ih hsound₁ his
    refine ⟨r₂, ?_, hsound₂, hkeeps₁.trans hkeeps₂, List.forall_mem_cons.2
      ⟨hkeeps₂.ne_none hi, hmets⟩⟩
    rw [List.foldlM_cons, hmeet]
    exact hmeets

/-! ## Members -/

/-- The members written so far, without the nodes of their keys. -/
def unkeyed (found : Members) : List (Data × Nat) := found.map fun m => (m.1.2, m.2)

theorem unkeyed_insert {found : Members} {m : Assoc Text Nat}
    (h : unkeyed found = m.map fun p => (.str p.1, p.2)) (k : Nat) (t : Text) (v : Nat) :
    unkeyed (r.insert (k, .str t) v found) = (Assoc.insert m t v).map fun p => (.str p.1, p.2) := by
  induction found generalizing m with
  | nil =>
    obtain rfl : m = [] := List.map_eq_nil_iff.1 h.symm
    rfl
  | cons e found ih =>
    obtain ⟨⟨k', d⟩, v'⟩ := e
    cases m with
    | nil => cases h
    | cons p m =>
      obtain ⟨hhead, htail⟩ := List.cons.inj h
      obtain ⟨rfl, rfl⟩ := Prod.mk.inj hhead
      have hsame : r.sameKey (k', .str p.1) (k, .str t) = (p.1 == t) := rfl
      rw [Reading.insert, Assoc.insert, hsame]
      by_cases heq : p.1 = t
      · rw [if_pos (beq_iff_eq.2 heq), if_pos heq, List.map_cons, ← htail]
        rfl
      · rw [if_neg (fun hbeq => heq (beq_iff_eq.1 hbeq)), if_neg heq, List.map_cons,
          ← ih htail]
        rfl

theorem meetKey_sound (h : Sound nodes done busy r) {t : Text}
    (hnode : nodes[i]? = some (.scalar .text t)) :
    ∃ r', r.meetKey i = .ok (.str t, r') ∧ Sound nodes done busy r' ∧ Keeps r r' := by
  obtain ⟨r', hmeet, hsound, hkeeps, hne⟩ := meet_sound h (.text hnode)
  obtain ⟨c, hc⟩ := Option.ne_none_iff_exists'.1 hne
  have hnotMet : c ≠ .met := by
    rintro rfl
    obtain ⟨n, hn, hcollection⟩ := hsound.met i hc
    cases hnode.symm.trans hn
    cases hcollection
  obtain rfl : c = .whole (.str t) := (hsound.read i c hc hnotMet).1.unique (.text hnode)
  refine ⟨r', ?_, hsound, hkeeps⟩
  simp [meetKey, hmeet, hc, bind, Except.bind, pure, Except.pure]

/-- **The members of a map are met** one after the other. -/
theorem meetMembers_sound {es : List Entry} (h : Sound nodes done busy r)
    (hkeys : ∀ e ∈ es, nodes[e.keyNode]? = some (.scalar .text e.key))
    (hvalues : ∀ e ∈ es, ∃ d, Holds nodes e.node d) (found : Members) (m : Assoc Text Nat)
    (hfound : unkeyed found = m.map fun p => (.str p.1, p.2)) :
    ∃ r' found', meetMembers r found (es.map fun e => (e.keyNode, e.node)) = .ok (r', found') ∧
      Sound nodes done busy r' ∧ Keeps r r' ∧ (∀ e ∈ es, r'.contentAt e.node ≠ none) ∧
      unkeyed found' =
        (Assoc.insertAll m (es.map fun e => (e.key, e.node))).map fun p => (.str p.1, p.2) := by
  induction es generalizing r found m with
  | nil => exact ⟨r, found, rfl, h, .refl r, nofun, hfound⟩
  | cons e es ih =>
    obtain ⟨hkey, hkeys⟩ := List.forall_mem_cons.1 hkeys
    obtain ⟨⟨d, hd⟩, hvalues⟩ := List.forall_mem_cons.1 hvalues
    obtain ⟨r₁, hmeet₁, hsound₁, hkeeps₁⟩ := meetKey_sound h hkey
    obtain ⟨r₂, hmeet₂, hsound₂, hkeeps₂, hmet⟩ := meet_sound hsound₁ hd
    obtain ⟨r₃, found₃, hmeet₃, hsound₃, hkeeps₃, hmets, hfound₃⟩ :=
      ih hsound₂ hkeys hvalues _ _ (unkeyed_insert (r := r₂) hfound e.keyNode e.key e.node)
    refine ⟨r₃, found₃, ?_, hsound₃, (hkeeps₁.trans hkeeps₂).trans hkeeps₃,
      List.forall_mem_cons.2 ⟨hkeeps₃.ne_none hmet, hmets⟩, hfound₃⟩
    rw [List.map_cons, meetMembers, hmeet₁]
    simp only [bind, Except.bind, hmeet₂]
    exact hmeet₃

/-! ## Reading -/

/-- A node whose parts are met is read. -/
theorem Sound.finish (h : Sound nodes done [i] r) {c : Content} (hread : ReadAs nodes i c)
    (hparts : ∀ j ∈ c.parts, r.contentAt j ≠ none) :
    Sound nodes (i :: done) [] (r.setContent i c) := by
  have hc : c ≠ .met := hread.ne_met
  have hwaits : r.contentAt i = some .met := (h.waits_iff i).1 (by simp)
  obtain ⟨d, hd⟩ := h.held i .met hwaits
  have hlt : i < r.contents.size := by
    rw [h.size_eq]
    exact hd.lt_size
  have hcontent (j : Nat) : (r.setContent i c).contentAt j =
      if i = j then some c else r.contentAt j := by
    rw [contentAt_setContent]
    simp [hlt]
  have hne {j : Nat} (hj : r.contentAt j ≠ none) : (r.setContent i c).contentAt j ≠ none := by
    rw [hcontent]
    split_ifs
    · exact Option.some_ne_none c
    · exact hj
  have hperm : (done ++ ([i] ++ (r.now ++ r.later.reverse))).Perm
      (i :: (done ++ (r.now ++ r.later.reverse))) := List.perm_middle
  have hdistinct := hperm.nodup_iff.1 h.distinct
  have hnotMem : i ∉ done ∧ i ∉ r.now ++ r.later.reverse := by
    simpa using (List.nodup_cons.1 hdistinct).1
  refine ⟨h.nodes_eq, ?_, hdistinct, fun j => ?_,
    List.forall_mem_cons.2 ⟨⟨c, ?_, hc⟩, fun j hj => ?_⟩, h.held_setContent hd c, fun j hj => ?_,
    fun j e he hemet => ?_⟩
  · show (r.contents.setIfInBounds i (some c)).size = _
    rw [Array.size_setIfInBounds, h.size_eq]
  · rw [hcontent]
    by_cases hij : i = j
    · subst hij
      rw [if_pos rfl]
      refine ⟨fun hmem => absurd hmem hnotMem.2, fun hmet => absurd (Option.some.inj hmet) hc⟩
    · rw [if_neg hij, ← h.waits_iff]
      show j ∈ r.now ++ r.later.reverse ↔ j ∈ i :: (r.now ++ r.later.reverse)
      simp [Ne.symm hij]
  · rw [hcontent, if_pos rfl]
  · obtain ⟨e, he, hemet⟩ := h.done_read j hj
    have hij : i ≠ j := by
      rintro rfl
      exact hnotMem.1 hj
    exact ⟨e, by rw [hcontent, if_neg hij, he], hemet⟩
  · rw [hcontent] at hj
    split_ifs at hj with hij
    · exact absurd (Option.some.inj hj) hc
    · exact h.met j hj
  · rw [hcontent] at he
    split_ifs at he with hij
    · cases he
      exact ⟨hij ▸ hread, fun k hk => hne (hparts k hk)⟩
    · obtain ⟨hread, hparts⟩ := h.read j e he hemet
      exact ⟨hread, fun k hk => hne (hparts k hk)⟩

/-- **Reading a list or map** that waits. -/
theorem read_sound (reader : Reader) (h : Sound nodes done [i] r) :
    ∃ r', r.read reader i = .ok r' ∧ Sound nodes (i :: done) [] r' ∧
      ∀ j, r.contentAt j ≠ none → r'.contentAt j ≠ none := by
  have hwaits : r.contentAt i = some .met := (h.waits_iff i).1 (by simp)
  obtain ⟨d, hd⟩ := h.held i .met hwaits
  obtain ⟨n, hn, hcollection⟩ := h.met i hwaits
  have hne {r' : Reading} (hkeeps : Keeps r r') {c : Content} (j : Nat)
      (hj : r.contentAt j ≠ none) : (r'.setContent i c).contentAt j ≠ none := by
    rw [contentAt_setContent]
    split_ifs
    · exact Option.some_ne_none c
    · exact hkeeps.ne_none hj
  cases hd with
  | text hnode =>
    cases hnode.symm.trans hn
    cases hcollection
  | truth hnode =>
    cases hnode.symm.trans hn
    cases hcollection
  | list ps hnode _ hheld =>
    have hparts : ∀ j ∈ ps.map Prod.fst, ∃ d, Holds nodes j d := by
      intro j hj
      obtain ⟨p, hp, rfl⟩ := List.mem_map.1 hj
      exact ⟨_, hheld p hp⟩
    obtain ⟨r', hmeets, hsound, hkeeps, hmets⟩ := meetAll_sound h hparts
    refine ⟨_, ?_, hsound.finish (.list hnode) hmets, hne hkeeps⟩
    simp [Reading.read, h.nodes_eq, nodeAt_eq hnode, Node.tag, hmeets, bind, Except.bind, pure,
      Except.pure]
  | map es hnode hkeys hheld =>
    have htexts : ∀ e ∈ es, nodes[e.keyNode]? = some (.scalar .text e.key) := fun e he =>
      (hkeys e he).2.1
    have htakes : takeIn? r.marked nodes i = some nodes := by
      refine takeIn?_eq_self hnode fun m hm => ?_
      obtain ⟨e, he, rfl⟩ := List.mem_map.1 hm
      exact ⟨e.key, htexts e he⟩
    have hsame : { r with nodes } = r := by
      rw [← h.nodes_eq]
    obtain ⟨r', found, hmeets, hsound, hkeeps, hmets, hfound⟩ := meetMembers_sound h htexts
      (fun e he => ⟨_, hheld e he⟩) [] [] rfl
    have hmembers : found.map (fun m => (m.1.2, m.2)) = numberedMembers es := hfound
    have hparts : ∀ j ∈ (Content.map (numberedMembers es)).parts, r'.contentAt j ≠ none := by
      intro j hj
      obtain ⟨p, hp, rfl⟩ := List.mem_map.1 hj
      obtain ⟨q, hq, rfl⟩ := List.mem_map.1 hp
      obtain ⟨e, he, rfl⟩ := List.mem_map.1 (Assoc.mem_of_mem_ofList hq)
      exact hmets e he
    refine ⟨_, ?_, hsound.finish (.map es hnode htexts) hparts, hne hkeeps⟩
    simp [Reading.read, readMembers, h.nodes_eq, nodeAt_eq hnode, Node.tag, htakes, hsame,
      Merge.membersAt, hmeets, hmembers, bind, Except.bind, pure, Except.pure]

/-! ## The whole table -/

theorem next?_eq (r : Reading) :
    (∃ i r', r.next? = some (i, r') ∧
      r.now ++ r.later.reverse = i :: (r'.now ++ r'.later.reverse) ∧ r'.nodes = r.nodes ∧
      r'.contents = r.contents) ∨
    (r.next? = none ∧ r.now ++ r.later.reverse = []) := by
  unfold next?
  cases r.now with
  | cons i now => exact .inl ⟨i, _, rfl, rfl, rfl, rfl⟩
  | nil =>
    cases hlater : r.later.reverse with
    | nil => exact .inr ⟨rfl, rfl⟩
    | cons i now => exact .inl ⟨i, _, rfl, by simp, rfl, rfl⟩

theorem Sound.length_le (h : Sound nodes done busy r) :
    (done ++ (busy ++ (r.now ++ r.later.reverse))).length ≤ nodes.size := by
  have hsubset : done ++ (busy ++ (r.now ++ r.later.reverse)) ⊆ List.range nodes.size := by
    intro i hi
    have hsome : ∃ c, r.contentAt i = some c := by
      rcases List.mem_append.1 hi with hi | hi
      · obtain ⟨c, hc, -⟩ := h.done_read i hi
        exact ⟨c, hc⟩
      · exact ⟨.met, (h.waits_iff i).1 hi⟩
    obtain ⟨c, hc⟩ := hsome
    obtain ⟨d, hd⟩ := h.held i c hc
    exact List.mem_range.2 hd.lt_size
  have hle := (h.distinct.subperm hsubset).length_le
  rwa [List.length_range] at hle

/-- **All that waits is read**, in as many turns as there are nodes. -/
theorem run_sound (reader : Reader) (fuel : Nat) (h : Sound nodes done [] r)
    (hfuel : nodes.size ≤ done.length + fuel) :
    ∃ r' done', r.run reader fuel = .ok r' ∧ Sound nodes done' [] r' ∧
      r'.now ++ r'.later.reverse = [] ∧ ∀ j, r.contentAt j ≠ none → r'.contentAt j ≠ none := by
  induction fuel generalizing r done with
  | zero =>
    refine ⟨r, done, rfl, h, ?_, fun j hj => hj⟩
    have hle := h.length_le
    rw [List.length_append, List.nil_append] at hle
    exact List.length_eq_zero_iff.1 (by omega)
  | succ fuel ih =>
    rw [run]
    rcases next?_eq r with ⟨i, r₁, hnext, hwaits, hnodes, hcontents⟩ | ⟨hnext, hwaits⟩
    · have hcontent (j : Nat) : r₁.contentAt j = r.contentAt j := by
        rw [contentAt, contentAt, hcontents]
      have hsound₁ : Sound nodes done [i] r₁ := by
        obtain ⟨h₁, h₂, h₃, h₄, h₅, h₆, h₇, h₈⟩ := h
        rw [List.nil_append, hwaits] at h₃
        refine ⟨hnodes.trans h₁, by rw [hcontents, h₂], h₃, fun j => ?_, ?_, ?_, ?_, ?_⟩
        · rw [hcontent, ← h₄, List.nil_append, hwaits]
          rfl
        · simpa only [hcontent] using h₅
        · simpa only [hcontent] using h₆
        · simpa only [hcontent] using h₇
        · simpa only [hcontent] using h₈
      obtain ⟨r₂, hread, hsound₂, hmets⟩ := read_sound reader hsound₁
      have hlength : nodes.size ≤ (i :: done).length + fuel := by
        rw [List.length_cons]
        omega
      obtain ⟨r₃, done', hrun, hsound₃, hnone, hmets₃⟩ := ih hsound₂ hlength
      refine ⟨r₃, done', ?_, hsound₃, hnone, fun j hj => hmets₃ j (hmets j ?_)⟩
      · simp only [hnext, hread, Except.bind]
        exact hrun
      · rwa [hcontent]
    · rw [hnext]
      exact ⟨r, done, rfl, h, hwaits, fun j hj => hj⟩

end Reading

/-- Whatever is met is read, and its parts are met. -/
def Complete (nodes : Array Node) (contents : Array (Option Content)) : Prop :=
  ∀ i c, (contents[i]?).join = some c →
    ReadAs nodes i c ∧ ∀ j ∈ c.parts, (contents[j]?).join ≠ none

/-- **A graph whose root holds a value has contents**, and all that is met is read. -/
theorem contents_of_holds {nodes : Array Node} {root : Nat} {d : Data} (reader : Reader)
    (h : Holds nodes root d) :
    ∃ contents, (⟨nodes, root⟩ : Graph).contents reader = .ok contents ∧
      contents.size = nodes.size ∧ Complete nodes contents ∧ (contents[root]?).join ≠ none := by
  have hnone (i : Nat) :
      ((Array.replicate nodes.size (none : Option Content))[i]?).join = none := by
    rw [Array.getElem?_replicate]
    split_ifs <;> rfl
  set start : Reading := {
    nodes
    marked := Merge.markedCount nodes
    contents := Array.replicate nodes.size none } with hstart
  have hsound : Reading.Sound nodes [] [] start := by
    have hcontent (i : Nat) : start.contentAt i = none := hnone i
    refine ⟨rfl, by simp [hstart], by simp [hstart], fun i => ?_, nofun, ?_, ?_, ?_⟩
    · rw [hcontent]
      simp [hstart]
    · intro i c hc
      rw [hcontent] at hc
      cases hc
    · intro i hi
      rw [hcontent] at hi
      cases hi
    · intro i c hc
      rw [hcontent] at hc
      cases hc
  obtain ⟨r₁, hmeet, hsound₁, -, hroot⟩ := Reading.meet_sound hsound h
  obtain ⟨r₂, done, hrun, hsound₂, hwaits, hmets⟩ :=
    Reading.run_sound reader nodes.size hsound₁ (by simp)
  refine ⟨r₂.contents, ?_, hsound₂.size_eq, fun i c hc => ?_, hmets root hroot⟩
  · show (do
      let r ← (← start.meet root).run reader nodes.size
      return r.contents : Except Defect (Array (Option Content))) = _
    simp [hmeet, hrun, bind, Except.bind, pure, Except.pure]
  · refine hsound₂.read i c hc ?_
    rintro rfl
    have hmem := (hsound₂.waits_iff i).2 hc
    rw [List.nil_append, hwaits] at hmem
    cases hmem

end ResourceApi.Yaml
