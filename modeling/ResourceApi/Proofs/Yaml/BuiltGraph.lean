import ResourceApi.Proofs.Yaml.HeldValue
import ResourceApi.Yaml.Node.Builder

/-!
# The graph of a value

The lexemes of a tidy value lead the machine from before a node to after it, and the node that was
added holds what the value is read back as (`Builds`). A list or map takes its number when it opens
and its parts take theirs after that, so parts have greater numbers. A list in place of the value of
a key on its line ends only at the lexeme after it.

**Main result** (`graph_of_lexemes`). The lexemes of a tidy object give a graph whose first node
holds what the object is read back as.
-/

namespace ResourceApi.Yaml

open Json (Tidy)

/-- Every node of the first table stands in the second one, under the same number. -/
def Extends (nodes nodes' : Array Node) : Prop :=
  ∀ (k : Nat) (n : Node), nodes[k]? = some n → nodes'[k]? = some n

namespace Extends

variable {nodes nodes' nodes'' : Array Node} {n : Node} {i : Nat} {d : Data}

theorem refl (nodes : Array Node) : Extends nodes nodes := fun _ _ h => h

theorem trans (h : Extends nodes nodes') (h' : Extends nodes' nodes'') : Extends nodes nodes'' :=
  fun k n hn => h' k n (h k n hn)

theorem push (nodes : Array Node) (n : Node) : Extends nodes (nodes.push n) := by
  intro k m hm
  obtain ⟨hk, hget⟩ := Array.getElem?_eq_some_iff.1 hm
  rw [Array.getElem?_push_lt hk, hget]

theorem size_le (h : Extends nodes nodes') : nodes.size ≤ nodes'.size := by
  by_contra hlt
  have hsome : nodes[nodes'.size]? = some nodes[nodes'.size] :=
    Array.getElem?_eq_getElem (Nat.lt_of_not_le hlt)
  exact Nat.lt_irrefl _ (Array.getElem?_eq_some_iff.1 (h _ _ hsome)).1

theorem holds (h : Extends nodes nodes') (hd : Holds nodes i d) : Holds nodes' i d :=
  hd.mono fun k n _ => h k n

/-- The node that was open is put in its place in the end. -/
theorem set (h : Extends (nodes.push .absent) nodes') (n : Node) :
    Extends nodes (nodes'.setIfInBounds nodes.size n) := by
  intro k m hm
  have hk : k < nodes.size := (Array.getElem?_eq_some_iff.1 hm).1
  rw [Array.getElem?_setIfInBounds_ne (Nat.ne_of_gt hk)]
  exact h k m (push nodes _ k m hm)

theorem getElem?_set (h : Extends (nodes.push .absent) nodes') (n : Node) :
    (nodes'.setIfInBounds nodes.size n)[nodes.size]? = some n := by
  have hsize : nodes.size < nodes'.size := by
    have hle := h.size_le
    rw [Array.size_push] at hle
    exact hle
  simp [hsize]

theorem holds_set {k : Nat} (hk : k < i) (hd : Holds nodes i d) :
    Holds (nodes.setIfInBounds k n) i d := by
  refine hd.mono fun j m hj hm => ?_
  rwa [Array.getElem?_setIfInBounds_ne (by omega)]

end Extends

namespace Builder

variable {place : Place} {stack : List Frame} {handles : Handles} {isExplicit : Bool}
  {noted : Assoc (List Char) Nat} {nodes : Array Node} {limit n : Nat} {ls : List Lexeme}

/-! ## Steps -/

theorem run_step {b b' : Builder} {l : Lexeme} (h : b.step l = some b')
    (hdepth : b'.stack.length ≤ limit) : run limit b (l :: ls) = run limit b' ls := by
  rw [run, h]
  simp [Nat.not_lt.2 hdepth]

theorem length_stack_hand (b : Builder) (id : Nat) :
    (b.hand id).stack.length = b.stack.length := by
  unfold hand
  split <;> simp_all

theorem hand_eq_hand (place place' : Place) (id : Nat) :
    hand ⟨place, stack, handles, isExplicit, noted, nodes⟩ id =
      hand ⟨place', stack, handles, isExplicit, noted, nodes⟩ id := by
  simp only [hand]

/-- A list or map is a complete node once it is closed. -/
theorem run_enclosed {l l' : Lexeme} {inner : List Lexeme} {opened closed : Builder} {id : Nat}
    {nodes' : Array Node} (hdepth : stack.length + 1 ≤ limit)
    (hopen : step ⟨.due {}, stack, handles, isExplicit, noted, nodes⟩ l = some opened)
    (hlength : opened.stack.length = stack.length + 1)
    (hinner : run limit opened (inner ++ l' :: ls) = run limit closed (l' :: ls))
    (hclose : step closed l' =
      some (hand ⟨place, stack, handles, isExplicit, noted, nodes'⟩ id)) :
    run limit ⟨.due {}, stack, handles, isExplicit, noted, nodes⟩ (l :: (inner ++ l' :: ls)) =
      run limit (hand ⟨place, stack, handles, isExplicit, noted, nodes'⟩ id) ls := by
  rw [run_step hopen (by omega), hinner, run_step hclose]
  rw [length_stack_hand]
  exact Nat.le_of_succ_le hdepth

theorem run_scalar {text : Text} {isPlain : Bool} {node : Node} (hdepth : stack.length ≤ limit)
    (hnode : Properties.scalar {} text isPlain = node) :
    run limit ⟨.due {}, stack, handles, isExplicit, noted, nodes⟩ (.scalar text isPlain :: ls) =
      run limit (hand ⟨.due {}, stack, handles, isExplicit, noted, nodes.push node⟩ nodes.size)
        ls := by
  subst hnode
  refine run_step rfl ?_
  rw [length_stack_hand]
  exact hdepth

theorem step_listEnd (i : Nat) (xs : List Nat) :
    step ⟨.between, .blockList i .list xs :: stack, handles, isExplicit, noted, nodes⟩ .blockEnd =
      some (hand ⟨.due {}, stack, handles, isExplicit, noted,
        nodes.setIfInBounds i (.list .list xs.reverse)⟩ i) := by
  rw [hand_eq_hand _ .between]
  rfl

theorem step_mapEnd (i : Nat) (ms : List (Nat × Nat)) :
    step ⟨.between, .blockMap i .map ms none none :: stack, handles, isExplicit, noted, nodes⟩
        .blockEnd =
      some (hand ⟨.due {}, stack, handles, isExplicit, noted,
        nodes.setIfInBounds i (.map .map ms.reverse)⟩ i) := by
  rw [hand_eq_hand _ .between]
  rfl

/-- A list in place of a value ends at a lexeme that is no dash, which then follows the value. -/
theorem run_inlineEnd {l : Lexeme} (hl : l = .key ∨ l = .blockEnd) (i j k : Nat) (t : Tag)
    (ms : List (Nat × Nat)) (xs : List Nat) (s : List Frame) (ls : List Lexeme) :
    run limit ⟨.between, .blockMap i t ms (some k) (some (j, .list, xs)) :: s, handles, isExplicit,
        noted, nodes⟩ (l :: ls) =
      run limit (hand ⟨.due {}, .blockMap i t ms (some k) none :: s, handles, isExplicit, noted,
        nodes.setIfInBounds j (.list .list xs.reverse)⟩ j) (l :: ls) := by
  rw [run, run]
  rcases hl with rfl | rfl <;> rfl

/-! ## Values -/

/-- The lexemes of the value lead from before a node to after it. -/
def Builds (limit n : Nat) (v : Json) : Prop :=
  ∀ (isInline : Bool) (stack : List Frame) (handles : Handles) (isExplicit : Bool)
    (noted : Assoc (List Char) Nat) (nodes : Array Node), stack.length + n ≤ limit →
    admitsBlock stack = true →
    (isInline = true → ∃ i t ms k s, stack = .blockMap i t ms (some k) none :: s) →
    ∃ nodes', Extends nodes nodes' ∧ Holds nodes' nodes.size (rereadValue v) ∧
      ∀ ls, (isInline = true → ∃ l more, ls = l :: more ∧ (l = .key ∨ l = .blockEnd)) →
        run limit ⟨.due {}, stack, handles, isExplicit, noted, nodes⟩ (lexemes isInline v ++ ls) =
          run limit (hand ⟨.due {}, stack, handles, isExplicit, noted, nodes'⟩ nodes.size) ls

/-- What an open list in block style looks like, given its items in reverse. -/
inductive IsList : (List Nat → Frame) → Prop
  | block (i : Nat) (t : Tag) : IsList fun xs => .blockList i t xs
  | inline (i : Nat) (t : Tag) (ms : List (Nat × Nat)) (key : Option Nat) (j : Nat) (u : Tag) :
      IsList fun xs => .blockMap i t ms key (some (j, u, xs))

namespace IsList

variable {frame : List Nat → Frame} {ids : List Nat} {s : List Frame}

theorem admits (h : IsList frame) : admitsBlock (frame ids :: s) = true := by
  cases h <;> rfl

theorem step_dash (h : IsList frame) :
    step ⟨.between, frame ids :: s, handles, isExplicit, noted, nodes⟩ .dash =
      some ⟨.due {}, frame ids :: s, handles, isExplicit, noted, nodes⟩ := by
  cases h with
  | block => rfl
  | inline i t ms key => cases key <;> rfl

theorem hand_eq (h : IsList frame) (id : Nat) :
    hand ⟨place, frame ids :: s, handles, isExplicit, noted, nodes⟩ id =
      ⟨.between, frame (id :: ids) :: s, handles, isExplicit, noted, nodes⟩ := by
  cases h with
  | block => rfl
  | inline i t ms key => cases key <;> rfl

end IsList

/-- **The items of a list** are added one after the other. -/
theorem run_items (handles : Handles) (isExplicit : Bool) (noted : Assoc (List Char) Nat)
    {frame : List Nat → Frame} {s : List Frame} (hframe : IsList frame)
    {xs : List Json} (hxs : ∀ x ∈ xs, Builds limit n x) (hdepth : s.length + 1 + n ≤ limit)
    (ids : List Nat) (nodes : Array Node) :
    ∃ (ps : List (Nat × Data)) (nodes' : Array Node), ps.map Prod.snd = rereadItems xs ∧
      Extends nodes nodes' ∧ (∀ p ∈ ps, nodes.size ≤ p.1 ∧ Holds nodes' p.1 p.2) ∧
      ∀ ls, run limit ⟨.between, frame ids :: s, handles, isExplicit, noted, nodes⟩
          (itemLexemes xs ++ ls) =
        run limit ⟨.between, frame ((ps.map Prod.fst).reverse ++ ids) :: s, handles, isExplicit,
          noted, nodes'⟩ ls := by
  induction xs generalizing ids nodes with
  | nil => exact ⟨[], nodes, rfl, .refl nodes, nofun, fun ls => rfl⟩
  | cons x xs ih =>
    obtain ⟨hx, hxs⟩ := List.forall_mem_cons.1 hxs
    obtain ⟨nodes₁, hextends₁, hheld₁, hrun₁⟩ :=
      hx false (frame ids :: s) handles isExplicit noted nodes hdepth hframe.admits nofun
    obtain ⟨ps, nodes₂, hps, hextends₂, hheld₂, hrun₂⟩ := ih hxs (nodes.size :: ids) nodes₁
    refine ⟨(nodes.size, rereadValue x) :: ps, nodes₂, by simp [rereadItems, hps],
      hextends₁.trans hextends₂, ?_, fun ls => ?_⟩
    · refine List.forall_mem_cons.2 ⟨⟨Nat.le_refl _, hextends₂.holds hheld₁⟩, fun p hp => ?_⟩
      exact ⟨Nat.le_trans hextends₁.size_le (hheld₂ p hp).1, (hheld₂ p hp).2⟩
    · have hle : (frame ids :: s).length ≤ limit := by
        rw [List.length_cons]
        omega
      rw [itemLexemes, List.cons_append, run_step hframe.step_dash hle, List.append_assoc,
        hrun₁ _ nofun, hframe.hand_eq, hrun₂]
      simp

theorem scalar_text (t : Text) :
    Properties.scalar {} (rereadText t) (isUnquoted t) = .scalar .text (rereadText t) := by
  unfold isUnquoted rereadText
  cases hstyle : Style.ofText t with
  | plain cs =>
    obtain ⟨rfl, hkind, -⟩ := ofText_plain hstyle
    have hkinds : Kind.ofText (Text.ofChars cs) = .text := by
      unfold Kind.ofText
      rw [Text.chars?_ofChars]
      exact hkind
    simp [Properties.scalar, Properties.tagOr, hkinds, Tag.ofKind]
  | single cs => rfl
  | double ps => rfl

theorem memberLexemes_head (ms : List (Text × Json)) (ls : List Lexeme) :
    ∃ l more, memberLexemes ms ++ .blockEnd :: ls = l :: more ∧ (l = .key ∨ l = .blockEnd) := by
  cases ms with
  | nil => exact ⟨_, _, rfl, .inr rfl⟩
  | cons m ms => exact ⟨_, _, rfl, .inl rfl⟩

/-- **The members of an object** are added one after the other. -/
theorem run_members (handles : Handles) (isExplicit : Bool) (noted : Assoc (List Char) Nat)
    {s : List Frame} {i : Nat} {t : Tag} {ms : List (Text × Json)}
    (hms : ∀ m ∈ ms, Builds limit n m.2) (hdepth : s.length + 1 + n ≤ limit)
    (ids : List (Nat × Nat)) (nodes : Array Node) :
    ∃ (es : List Entry) (nodes' : Array Node),
      es.map (fun e => (e.key, e.value)) = rereadMembers ms ∧ Extends nodes nodes' ∧
      (∀ e ∈ es, nodes.size ≤ e.keyNode ∧ nodes'[e.keyNode]? = some (.scalar .text e.key) ∧
        nodes.size ≤ e.node ∧ Holds nodes' e.node e.value) ∧
      ∀ ls, run limit ⟨.between, .blockMap i t ids none none :: s, handles, isExplicit, noted,
          nodes⟩ (memberLexemes ms ++ .blockEnd :: ls) =
        run limit ⟨.between, .blockMap i t ((es.map fun e => (e.keyNode, e.node)).reverse ++ ids)
          none none :: s, handles, isExplicit, noted, nodes'⟩ (.blockEnd :: ls) := by
  induction ms generalizing ids nodes with
  | nil => exact ⟨[], nodes, rfl, .refl nodes, nofun, fun ls => rfl⟩
  | cons m ms ih =>
    obtain ⟨key, x⟩ := m
    obtain ⟨hx, hms⟩ := List.forall_mem_cons.1 hms
    set keyed := nodes.push (.scalar .text (rereadText key)) with hkeyed
    have hkey : keyed[nodes.size]? = some (.scalar .text (rereadText key)) :=
      Array.getElem?_push_size
    have hsize : nodes.size ≤ keyed.size := (Extends.push nodes _).size_le
    obtain ⟨nodes₁, hextends₁, hheld₁, hrun₁⟩ :=
      hx (isSimpleKey key) (.blockMap i t ids (some nodes.size) none :: s) handles isExplicit noted
        keyed hdepth rfl fun _ => ⟨i, t, ids, nodes.size, s, rfl⟩
    obtain ⟨es, nodes₂, hes, hextends₂, hheld₂, hrun₂⟩ :=
      ih hms ((nodes.size, keyed.size) :: ids) nodes₁
    refine ⟨⟨nodes.size, rereadText key, keyed.size, rereadValue x⟩ :: es, nodes₂,
      by simp [rereadMembers, hes], ((Extends.push nodes _).trans hextends₁).trans hextends₂, ?_,
      fun ls => ?_⟩
    · have hsize₁ : nodes.size ≤ nodes₁.size := Nat.le_trans hsize hextends₁.size_le
      refine List.forall_mem_cons.2 ⟨⟨Nat.le_refl _, hextends₂ _ _ (hextends₁ _ _ hkey), hsize,
        hextends₂.holds hheld₁⟩, fun e he => ?_⟩
      obtain ⟨hkeyNode, htext, hnode, hvalue⟩ := hheld₂ e he
      exact ⟨Nat.le_trans hsize₁ hkeyNode, htext, Nat.le_trans hsize₁ hnode, hvalue⟩
    · have hle : (Frame.blockMap i t ids none none :: s).length ≤ limit := by
        rw [List.length_cons]
        omega
      have hmark : step ⟨.between, .blockMap i t ids none none :: s, handles, isExplicit, noted,
          nodes⟩ .key = some ⟨.due {}, .blockMap i t ids none none :: s, handles, isExplicit, noted,
          nodes⟩ := rfl
      have hcolon : step ⟨.between, .blockMap i t ids (some nodes.size) none :: s, handles,
          isExplicit, noted, keyed⟩ .colon = some ⟨.due {}, .blockMap i t ids (some nodes.size)
          none :: s, handles, isExplicit, noted, keyed⟩ := rfl
      have hhead := memberLexemes_head ms ls
      rw [memberLexemes, List.cons_append, List.cons_append, List.cons_append, List.append_assoc,
        run_step hmark hle, textLexeme, run_scalar hle (scalar_text key)]
      show run limit ⟨.between, .blockMap i t ids (some nodes.size) none :: s, handles, isExplicit,
        noted, keyed⟩ _ = _
      rw [run_step hcolon hle, hrun₁ _ fun _ => hhead]
      show run limit ⟨.between, .blockMap i t ((nodes.size, keyed.size) :: ids) none none :: s,
        handles, isExplicit, noted, nodes₁⟩ _ = _
      rw [hrun₂]
      simp

theorem scalar_bool (b : Bool) :
    Properties.scalar {} (truthWord b) true = .scalar .truth (truthWord b) := by
  cases b <;> decide +kernel

theorem run_brackets {l l' : Lexeme} {node : Node} (hdepth : stack.length + 1 ≤ limit)
    (h : (l, l', node) = (.flowList, .flowListEnd, .list .list []) ∨
      (l, l', node) = (.flowMap, .flowMapEnd, .map .map [])) (ls : List Lexeme) :
    run limit ⟨.due {}, stack, handles, isExplicit, noted, nodes⟩ (l :: l' :: ls) =
      run limit (hand ⟨.due {}, stack, handles, isExplicit, noted,
        (nodes.push .absent).setIfInBounds nodes.size node⟩ nodes.size) ls := by
  have hsteps : ∃ frame : Frame,
      step ⟨.due {}, stack, handles, isExplicit, noted, nodes⟩ l =
        some ⟨.due {}, frame :: stack, handles, isExplicit, noted, nodes.push .absent⟩ ∧
      step ⟨.due {}, frame :: stack, handles, isExplicit, noted, nodes.push .absent⟩ l' =
        some (hand ⟨.due {}, stack, handles, isExplicit, noted,
          (nodes.push .absent).setIfInBounds nodes.size node⟩ nodes.size) := by
    rcases h with h | h
    · cases h
      exact ⟨.flowList nodes.size .list [] .entry, rfl, rfl⟩
    · cases h
      exact ⟨.flowMap nodes.size .map [] .entry, rfl, rfl⟩
  obtain ⟨frame, hopen, hclose⟩ := hsteps
  show run limit _ (l :: ([] ++ l' :: ls)) = _
  exact run_enclosed hdepth hopen rfl rfl hclose

theorem holds_list {nodes nodes' : Array Node} (ps : List (Nat × Data))
    (h : Extends (nodes.push .absent) nodes')
    (hps : ∀ p ∈ ps, (nodes.push .absent).size ≤ p.1 ∧ Holds nodes' p.1 p.2) :
    Holds (nodes'.setIfInBounds nodes.size (.list .list (ps.map Prod.fst))) nodes.size
      (.list (ps.map Prod.snd)) := by
  have hlt : ∀ p ∈ ps, nodes.size < p.1 := fun p hp => by
    have hle := (hps p hp).1
    rwa [Array.size_push] at hle
  exact .list ps (h.getElem?_set _) hlt fun p hp =>
    Extends.holds_set (hlt p hp) (hps p hp).2

theorem holds_map {nodes nodes' : Array Node} (es : List Entry)
    (h : Extends (nodes.push .absent) nodes')
    (hes : ∀ e ∈ es, (nodes.push .absent).size ≤ e.keyNode ∧
      nodes'[e.keyNode]? = some (.scalar .text e.key) ∧ (nodes.push .absent).size ≤ e.node ∧
      Holds nodes' e.node e.value) :
    Holds (nodes'.setIfInBounds nodes.size (.map .map (es.map fun e => (e.keyNode, e.node))))
      nodes.size (.map (membersOf es)) := by
  have hlt : ∀ e ∈ es, nodes.size < e.keyNode ∧ nodes.size < e.node := fun e he => by
    obtain ⟨hkey, -, hnode, -⟩ := hes e he
    rw [Array.size_push] at hkey hnode
    exact ⟨hkey, hnode⟩
  refine .map es (h.getElem?_set _) (fun e he => ⟨(hlt e he).1, ?_, (hlt e he).2⟩) fun e he =>
    Extends.holds_set (hlt e he).2 (hes e he).2.2.2
  rw [Array.getElem?_setIfInBounds_ne (Nat.ne_of_lt (hlt e he).1)]
  exact (hes e he).2.1

/-- **A list builds** when its items do: in a block of its own, or at the column of its key. -/
theorem builds_list {xs : List Json} (hxs : ∀ x ∈ xs, Builds limit n x) :
    Builds limit (n + 1) (.arr xs) := by
  intro isInline stack handles isExplicit noted nodes hdepth hadmits hinline
  have hadd : Extends (nodes.push .absent) (nodes.push .absent) := .refl _
  have hstack : stack.length + 1 + n ≤ limit := by omega
  cases xs with
  | nil =>
    exact ⟨_, hadd.set _, holds_list [] hadd (List.forall_mem_nil _), fun ls _ =>
      run_brackets (by omega) (.inl rfl) ls⟩
  | cons x xs =>
    cases isInline with
    | false =>
      obtain ⟨ps, nodes', hps, hextends, hheld, hrun⟩ := run_items handles isExplicit noted
        (IsList.block nodes.size .list) hxs hstack [] (nodes.push .absent)
      refine ⟨_, hextends.set (.list .list (ps.map Prod.fst)), ?_, fun ls _ => ?_⟩
      · have hholds := holds_list ps hextends hheld
        rwa [hps] at hholds
      · have hopen : step ⟨.due {}, stack, handles, isExplicit, noted, nodes⟩ .blockList =
            some ⟨.between, .blockList nodes.size .list [] :: stack, handles, isExplicit, noted,
              nodes.push .absent⟩ := by
          simp [step, before, hadmits]
          rfl
        simp only [lexemes, Bool.false_eq_true, if_false, List.cons_append, List.append_assoc,
          List.nil_append]
        rw [run_enclosed (by omega) hopen rfl (hrun _) (step_listEnd _ _), List.append_nil,
          List.reverse_reverse]
    | true =>
      obtain ⟨i, t, ms, k, s, rfl⟩ := hinline rfl
      have hinside : s.length + 1 + n ≤ limit := by
        rw [List.length_cons] at hdepth
        omega
      obtain ⟨ps, nodes', hps, hextends, hheld, hrun⟩ := run_items handles isExplicit noted
        (IsList.inline i t ms (some k) nodes.size .list) hxs hinside [] (nodes.push .absent)
      refine ⟨_, hextends.set (.list .list (ps.map Prod.fst)), ?_, fun ls hls => ?_⟩
      · have hholds := holds_list ps hextends hheld
        rwa [hps] at hholds
      · obtain ⟨l, more, rfl, hl⟩ := hls rfl
        -- the first dash opens the list, and is then like any other
        have hopen : run limit ⟨.due {}, .blockMap i t ms (some k) none :: s, handles, isExplicit,
              noted, nodes⟩ (itemLexemes (x :: xs) ++ l :: more) =
            run limit ⟨.between, .blockMap i t ms (some k) (some (nodes.size, .list, [])) :: s,
              handles, isExplicit, noted, nodes.push .absent⟩
                (itemLexemes (x :: xs) ++ l :: more) := by
          rfl
        show run limit _ (itemLexemes (x :: xs) ++ l :: more) = _
        rw [hopen, hrun, List.append_nil, run_inlineEnd hl, List.reverse_reverse]

/-- **An object builds** when its values do. -/
theorem builds_object {ms : List (Text × Json)} (hms : ∀ m ∈ ms, Builds limit n m.2) :
    Builds limit (n + 1) (.obj ms) := by
  intro isInline stack handles isExplicit noted nodes hdepth hadmits hinline
  have hadd : Extends (nodes.push .absent) (nodes.push .absent) := .refl _
  have hstack : stack.length + 1 + n ≤ limit := by omega
  cases ms with
  | nil =>
    exact ⟨_, hadd.set _, holds_map [] hadd (List.forall_mem_nil _), fun ls _ =>
      run_brackets (by omega) (.inr rfl) ls⟩
  | cons m ms =>
    obtain ⟨es, nodes', hes, hextends, hheld, hrun⟩ := run_members handles isExplicit noted
      (i := nodes.size) (t := .map) hms hstack [] (nodes.push .absent)
    refine ⟨_, hextends.set (.map .map (es.map fun e => (e.keyNode, e.node))), ?_, fun ls _ => ?_⟩
    · have hholds := holds_map es hextends hheld
      rwa [membersOf, hes] at hholds
    · have hopen : step ⟨.due {}, stack, handles, isExplicit, noted, nodes⟩ .blockMap =
          some ⟨.between, .blockMap nodes.size .map [] none none :: stack, handles, isExplicit,
            noted, nodes.push .absent⟩ := by
        simp [step, before, hadmits]
        rfl
      simp only [lexemes, List.cons_append, List.append_assoc, List.nil_append]
      rw [run_enclosed (by omega) hopen rfl (hrun _) (step_mapEnd _ _), List.append_nil,
        List.reverse_reverse]

/-- **The lexemes of tidy values build them.** -/
theorem builds_of_tidy {v : Json} (h : Tidy n v) : Builds limit n v := by
  induction h with
  | text s =>
    intro isInline stack handles isExplicit noted nodes hdepth _ _
    exact ⟨nodes.push (.scalar .text (rereadText s)), .push nodes _, .text Array.getElem?_push_size,
      fun ls _ => run_scalar (by omega) (scalar_text s)⟩
  | bool b =>
    intro isInline stack handles isExplicit noted nodes hdepth _ _
    exact ⟨nodes.push (.scalar .truth (truthWord b)), .push nodes _,
      .truth Array.getElem?_push_size, fun ls _ => run_scalar (by omega) (scalar_bool b)⟩
  | list _ ih => exact builds_list ih
  | object _ _ ih => exact builds_object ih

/-- **The lexemes of a tidy object give its graph**: the first node holds what is read back. -/
theorem graph_of_lexemes {m : Text × Json} {ms : List (Text × Json)} (h : Tidy n (.obj (m :: ms)))
    (hdepth : n ≤ limit) :
    ∃ (b : Builder) (nodes : Array Node),
      run limit {} (lexemes false (.obj (m :: ms))) = .ok b ∧ b.finish? = some (some ⟨nodes, 0⟩) ∧
        Holds nodes 0 (rereadValue (.obj (m :: ms))) := by
  have hstart : begin {} {} false =
    ⟨.due {}, [], (begin {} {} false).handles, false, [], #[]⟩ := rfl
  generalize (begin {} {} false).handles = handles at hstart
  obtain ⟨nodes, -, hheld, hrun⟩ := builds_of_tidy h false [] handles false [] #[]
    (by simpa using hdepth) rfl nofun
  refine ⟨⟨.done 0, [], handles, false, [], nodes⟩, nodes, ?_, rfl, hheld⟩
  have hend : run limit (hand ⟨.due {}, [], handles, false, [], nodes⟩ 0) [] =
      .ok ⟨.done 0, [], handles, false, [], nodes⟩ := rfl
  have hempty := hrun [] nofun
  rw [List.append_nil, ← hstart] at hempty
  refine Eq.trans ?_ (hempty.trans hend)
  rw [lexemes, run, run]
  rfl

end Builder

end ResourceApi.Yaml
