import ResourceApi.Proofs.Yaml.GraphContents
import ResourceApi.Yaml.Node.Tree

/-!
# The value of a graph

A node that holds a value is made into that value (`grow_of_holds`): its parts have greater numbers,
so no node is met inside itself, and no value leads back. What was made before is kept for the
nodes' other places and is the value that they hold (`MadeOf`).
-/

namespace ResourceApi.Yaml

/-! ## Members -/

section

variable (es : List Entry)

theorem alike_members : Assoc.Alike (fun j d => ∃ e ∈ es, e.node = j ∧ e.value = d)
    (Assoc.ofList (es.map fun e => (e.key, e.node)))
    (Assoc.ofList (es.map fun e => (e.key, e.value))) := by
  refine Assoc.Alike.ofList ?_
  unfold Assoc.Alike
  rw [List.forall₂_map_left_iff, List.forall₂_map_right_iff, List.forall₂_same]
  exact fun e he => ⟨rfl, e, he, rfl, rfl⟩

/-- What relates the node and the value of each member relates those that are left. -/
theorem forall₂_members {R : Nat → Data → Prop}
    (h : ∀ e ∈ es, e.node ∈ (numberedMembers es).map Prod.snd → R e.node e.value) :
    List.Forall₂ R ((numberedMembers es).map Prod.snd)
      ((Assoc.ofList (es.map fun e => (e.key, e.value))).map Prod.snd) := by
  have hnodes : (numberedMembers es).map Prod.snd =
      (Assoc.ofList (es.map fun e => (e.key, e.node))).map Prod.snd := by
    rw [numberedMembers, List.map_map]
    rfl
  rw [hnodes] at h ⊢
  rw [List.forall₂_map_left_iff, List.forall₂_map_right_iff]
  obtain ⟨hlength, hpairs⟩ := List.forall₂_iff_zip.1 (alike_members es)
  refine List.forall₂_iff_zip.2 ⟨hlength, fun {p q} hmem => ?_⟩
  obtain ⟨-, e, he, hnode, hvalue⟩ := hpairs hmem
  rw [← hnode, ← hvalue]
  refine h e he ?_
  rw [hnode]
  exact List.mem_map_of_mem (List.of_mem_zip hmem).1

theorem zip_members : ((numberedMembers es).map Prod.fst).zip
    ((Assoc.ofList (es.map fun e => (e.key, e.value))).map Prod.snd) = membersOf es := by
  have hkeys : (numberedMembers es).map Prod.fst =
      (Assoc.ofList (es.map fun e => (e.key, e.value))).map fun m => .str m.1 := by
    have hsame := congrArg (List.map Data.str) (alike_members es).keys_eq
    rw [Assoc.keys, Assoc.keys, List.map_map, List.map_map] at hsame
    rw [numberedMembers, List.map_map]
    exact hsame
  rw [hkeys, List.zip_map']
  rfl

end

/-! ## Branches -/

theorem Complete.content {nodes : Array Node} {contents : Array (Option Content)} {i : Nat}
    {c : Content} (h : Complete nodes contents) (hmet : (contents[i]?).join ≠ none)
    (hread : ReadAs nodes i c) :
    (contents[i]?).join = some c ∧ ∀ j ∈ c.parts, (contents[j]?).join ≠ none := by
  obtain ⟨c', hc'⟩ := Option.ne_none_iff_exists'.1 hmet
  obtain ⟨hread', hparts⟩ := h i c' hc'
  obtain rfl := hread'.unique hread
  exact ⟨hc', hparts⟩

namespace Branch

/-- The values made so far are those that the nodes hold. -/
def MadeOf (nodes : Array Node) (made : Made) : Prop :=
  ∀ (i : Nat) (d : Data), (made[i]?).join = some d → Holds nodes i d

variable {nodes : Array Node} {contents : Array (Option Content)} {made : Made} {i fuel : Nat}
  {around : List Nat} {d : Data}

theorem MadeOf.set (h : MadeOf nodes made) (hd : Holds nodes i d) :
    MadeOf nodes (made.setIfInBounds i (some d)) := by
  intro j e he
  by_cases hij : i = j
  · subst hij
    by_cases hlt : i < made.size
    · obtain rfl : d = e := by simpa [hlt] using he
      exact hd
    · simp [hlt] at he
  · rw [Array.getElem?_setIfInBounds_ne hij] at he
    exact h j e he

/-- The node of a number is made into a value. -/
def Grows (nodes : Array Node) (contents : Array (Option Content)) (fuel : Nat)
    (around : List Nat) (i : Nat) (d : Data) : Prop :=
  ∀ made, MadeOf nodes made →
    ∃ made', (grow contents fuel around i).run made = (whole d, made') ∧ MadeOf nodes made'

theorem run_bind_eq {α β : Type} {x : StateM Made α} {f : α → StateM Made β} {a : α}
    {made' : Made} (h : x.run made = (a, made')) : (x >>= f).run made = (f a).run made' := by
  rw [StateT.run_bind, h]
  rfl

theorem run_mapM {is : List Nat} {ds : List Data}
    (h : List.Forall₂ (fun i d => Grows nodes contents fuel around i d) is ds)
    (hmade : MadeOf nodes made) :
    ∃ made', (is.mapM (grow contents fuel around)).run made = (ds.map whole, made') ∧
      MadeOf nodes made' := by
  induction h generalizing made with
  | nil => exact ⟨made, rfl, hmade⟩
  | @cons i d is ds hi _ ih =>
    obtain ⟨made₁, hrun₁, hmade₁⟩ := hi made hmade
    obtain ⟨made₂, hrun₂, hmade₂⟩ := ih hmade₁
    refine ⟨made₂, ?_, hmade₂⟩
    rw [List.mapM_cons, run_bind_eq hrun₁, run_bind_eq hrun₂]
    rfl

theorem join_whole (f : List Data → Data) (ds : List Data) :
    join f (ds.map whole) = whole (f ds) := by
  have hback : ∀ back, (ds.map whole).foldl
      (fun back b => back ++ b.back.filter (!back.contains ·)) back = back := by
    induction ds with
    | nil => exact fun _ => rfl
    | cons d ds ih =>
      intro back
      rw [List.map_cons, List.foldl_cons]
      simpa [whole] using ih back
  show Branch.mk (f ((ds.map whole).map (·.data))) _ = _
  rw [hback, List.map_map]
  exact congrArg (fun ds => whole (f ds)) (List.map_id ds)

/-- What a content is made into, with the nodes around its parts. -/
def ofContent (contents : Array (Option Content)) (fuel : Nat) (around : List Nat) :
    Option Content → StateM Made Branch
  | some (.whole d) => pure (whole d)
  | some (.set keys) => pure (whole (.set keys))
  | some (.list is) => do
    return join .list (← is.mapM (grow contents fuel around))
  | some (.pairs ps) => do
    let parts ← (ps.flatMap fun p => [p.1, p.2]).mapM (grow contents fuel around)
    return join (fun ds => .list (pairUp ds)) parts
  | some (.map ms) => do
    let values ← (ms.map Prod.snd).mapM (grow contents fuel around)
    return join (fun ds => .map ((ms.map Prod.fst).zip ds)) values
  | some .met | none => pure (whole .null)

theorem grow_succ : grow contents (fuel + 1) around i = do
    if around.contains i then return ⟨.again i, [i]⟩
    if let some d := ((← get)[i]?).join then return whole d
    let b ← ofContent contents fuel (i :: around) (contents[i]?).join
    if b.back.isEmpty then
      modify fun made => made.setIfInBounds i (some b.data)
      return b
    else return tie i b := by
  rw [grow]
  generalize (contents[i]?).join = content
  rcases content with - | content
  · rfl
  · cases content <;> rfl

/-- A node that is not met inside itself, and whose content leads to a value. -/
theorem grows_of_content {content : Option Content} (hd : Holds nodes i d)
    (haround : ∀ a ∈ around, a < i) (hcontent : (contents[i]?).join = content)
    (hmade : ∀ made, MadeOf nodes made →
      ∃ made', (ofContent contents fuel (i :: around) content).run made = (whole d, made') ∧
        MadeOf nodes made') :
    Grows nodes contents (fuel + 1) around i d := by
  intro made hold
  have hcontains : around.contains i = false := by
    simpa using fun hmem => Nat.lt_irrefl i (haround i hmem)
  have hget : (get : StateM Made Made).run made = (made, made) := rfl
  rw [grow_succ, hcontent, hcontains]
  simp only [Bool.false_eq_true, if_false]
  cases hcache : (made[i]?).join with
  | some d' =>
    obtain rfl : d' = d := (hold i d' hcache).unique hd
    refine ⟨made, ?_, hold⟩
    rw [run_bind_eq hget, hcache]
    rfl
  | none =>
    obtain ⟨made', hrun, hmade'⟩ := hmade made hold
    refine ⟨made'.setIfInBounds i (some d), ?_, hmade'.set hd⟩
    rw [run_bind_eq hget, hcache]
    simp only
    rw [run_bind_eq hrun]
    rfl

/-- **A node that holds a value is made into it.** -/
theorem grow_of_holds (hcomplete : Complete nodes contents) (hd : Holds nodes i d)
    (hmet : (contents[i]?).join ≠ none) (haround : ∀ a ∈ around, a < i)
    (hfuel : nodes.size < fuel + i) : Grows nodes contents fuel around i d := by
  have hsucc {i fuel : Nat} {d : Data} (hd : Holds nodes i d) (hfuel : nodes.size < fuel + i) :
      ∃ f, fuel = f + 1 := by
    have hlt := hd.lt_size
    exact ⟨fuel - 1, by omega⟩
  have hinside {i j : Nat} {around : List Nat} (haround : ∀ a ∈ around, a < i) (hlt : i < j) :
      ∀ a ∈ i :: around, a < j :=
    List.forall_mem_cons.2 ⟨hlt, fun a ha => Nat.lt_trans (haround a ha) hlt⟩
  induction hd generalizing fuel around with
  | @text i t hnode =>
    obtain ⟨fuel, rfl⟩ := hsucc (.text hnode) hfuel
    have hcontent := (hcomplete.content hmet (.text hnode)).1
    exact grows_of_content (.text hnode) haround hcontent fun made hmade => ⟨made, rfl, hmade⟩
  | @truth i b hnode =>
    obtain ⟨fuel, rfl⟩ := hsucc (.truth hnode) hfuel
    have hcontent := (hcomplete.content hmet (.truth hnode)).1
    exact grows_of_content (.truth hnode) haround hcontent fun made hmade => ⟨made, rfl, hmade⟩
  | @list i ps hnode hlt hheld ih =>
    obtain ⟨fuel, rfl⟩ := hsucc (.list ps hnode hlt hheld) hfuel
    obtain ⟨hcontent, hparts⟩ := hcomplete.content hmet (.list hnode)
    have hgrows : List.Forall₂ (fun j d => Grows nodes contents fuel (i :: around) j d)
        (ps.map Prod.fst) (ps.map Prod.snd) := by
      rw [List.forall₂_map_left_iff, List.forall₂_map_right_iff, List.forall₂_same]
      intro p hp
      have hlt := hlt p hp
      exact ih p hp (hparts p.1 (List.mem_map_of_mem hp)) (hinside haround hlt) (by omega)
    refine grows_of_content (.list ps hnode hlt hheld) haround hcontent fun made hmade => ?_
    obtain ⟨made', hrun, hmade'⟩ := run_mapM hgrows hmade
    refine ⟨made', ?_, hmade'⟩
    rw [ofContent, run_bind_eq hrun, join_whole]
    rfl
  | @map i es hnode hkeys hheld ih =>
    obtain ⟨fuel, rfl⟩ := hsucc (.map es hnode hkeys hheld) hfuel
    obtain ⟨hcontent, hparts⟩ := hcomplete.content hmet (.map es hnode fun e he => (hkeys e he).2.1)
    have hgrows : List.Forall₂ (fun j d => Grows nodes contents fuel (i :: around) j d)
        ((numberedMembers es).map Prod.snd)
        ((Assoc.ofList (es.map fun e => (e.key, e.value))).map Prod.snd) := by
      refine forall₂_members es fun e he hmem => ?_
      have hlt := (hkeys e he).2.2
      exact ih e he (hparts e.node hmem) (hinside haround hlt) (by omega)
    refine grows_of_content (.map es hnode hkeys hheld) haround hcontent fun made hmade => ?_
    obtain ⟨made', hrun, hmade'⟩ := run_mapM hgrows hmade
    refine ⟨made', ?_, hmade'⟩
    rw [ofContent, run_bind_eq hrun, join_whole, zip_members]
    rfl

end Branch

/-- **The value of a graph** is the one that its root holds. -/
theorem data_of_holds {nodes : Array Node} {root : Nat} {d : Data} (reader : Reader)
    (h : Holds nodes root d) : (⟨nodes, root⟩ : Graph).data reader = .ok d := by
  obtain ⟨contents, hcontents, hsize, hcomplete, hmet⟩ := contents_of_holds reader h
  have hmade : Branch.MadeOf nodes (Array.replicate contents.size none) := by
    intro i d hd
    rw [Array.getElem?_replicate] at hd
    split_ifs at hd <;> cases hd
  have hgrows : Branch.Grows nodes contents (contents.size + 1) [] root d :=
    Branch.grow_of_holds hcomplete h hmet nofun (by omega)
  obtain ⟨made', hrun, -⟩ := hgrows _ hmade
  have hvalue : (⟨nodes, root⟩ : Graph).data reader = .ok ((Branch.grow contents
      (contents.size + 1) [] root).run (Array.replicate contents.size none)).1.data := by
    unfold Graph.data
    rw [hcontents]
    rfl
  rw [hvalue, hrun]
  rfl

end ResourceApi.Yaml
