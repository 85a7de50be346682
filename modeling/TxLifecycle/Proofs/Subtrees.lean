import TxLifecycle.Concrete.Lowering

/-!
# Parts of concrete trees

The reader of concrete trees looks for the parts of a node in several ways: by role, by kind,
through the list that groups statements, along the left operands of an expression. This file says
where such parts stand.

* `Node.Below`: a node stands somewhere in the tree of another one, and every part that is looked up
  does;
* `Node.Nested`: the places of a tree nest, and siblings follow each other;
* `Node.InOrder`: nodes follow each other. In a tree whose places nest, so do the statements of a
  block or clause and the specifications of a declaration.
-/

/-- What lies inside of two places that follow each other does so as well. -/
theorem TxLifecycle.Span.precedes_of_contains {a b c d : Span} (h : a.precedes b)
    (hac : a.contains c) (hbd : b.contains d) : c.precedes d := by
  simp only [Span.precedes, decide_eq_true_eq] at *
  rw [Span.contains_iff] at hac hbd
  omega

namespace TxLifecycle.Concrete

/-! ## Where parts stand -/

/-- The first node is the second one or stands somewhere in it. -/
inductive Node.Below : Node → Node → Prop where
  | refl (node : Node) : Below node node
  /-- What stands in a child stands in the node. -/
  | child {node child below : Node} : child ∈ node.children → Below below child → Below below node

namespace Node

variable {node n m : Node} {role : Role}

/-- A node in a part of a tree stands in the tree. -/
theorem Below.trans (h : m.Below n) (h' : n.Below node) : m.Below node := by
  induction h' with
  | refl => exact h
  | child hmem _ ih => exact .child hmem (ih h)

theorem below_of_mem_children (h : n ∈ node.children) : n.Below node :=
  .child h (.refl n)

/-- A child that is looked up by its role. -/
theorem below_of_child? (h : node.child? role = some n) : n.Below node :=
  below_of_mem_children (List.mem_of_find?_eq_some h)

theorem below_of_mem_namedChildren (h : n ∈ node.namedChildren) : n.Below node :=
  below_of_mem_children (List.mem_filter.mp h).1

theorem below_of_mem_parts (h : n ∈ node.parts) : n.Below node :=
  below_of_mem_namedChildren (List.mem_filter.mp h).1

theorem below_of_firstNamed? (h : node.firstNamed? = some n) : n.Below node :=
  below_of_mem_namedChildren (List.mem_of_mem_head? h)

/-- The parts of a child that is looked up by its role, none where there is no such child. -/
theorem below_of_mem_partsOf (h : n ∈ ((node.child? role).map Node.parts).getD []) :
    n.Below node := by
  cases hchild : node.child? role with
  | none => simp [hchild] at h
  | some child =>
    rw [hchild] at h
    exact (below_of_mem_parts h).trans (below_of_child? hchild)

/-- The first of a keyed element's parts stands for a key without role. -/
theorem below_of_key (h : (node.child? .key).or node.namedChildren.head? = some n) :
    n.Below node := by
  rcases Option.or_eq_some_iff.mp h with hrole | ⟨-, hfirst⟩
  · exact below_of_child? hrole
  · exact below_of_firstNamed? hfirst

/-- The last of several parts stands for a value without role. -/
theorem below_of_value (h : (node.child? .value).or (if 2 ≤ node.namedChildren.length then
    node.namedChildren.getLast? else none) = some n) : n.Below node := by
  rcases Option.or_eq_some_iff.mp h with hrole | ⟨-, hlast⟩
  · exact below_of_child? hrole
  · split at hlast
    · exact below_of_mem_namedChildren (List.mem_of_getLast? hlast)
    · cases hlast

end Node

variable {block clause n : Node}

/-- Members of a statement list, where that is what groups the statements. -/
theorem below_of_mem_grouped {node : Node}
    (h : n ∈ if node.kind == .statementList then node.parts else [node]) : n.Below node := by
  split at h
  · exact Node.below_of_mem_parts h
  · rw [List.mem_singleton.mp h]
    exact .refl node

theorem below_of_mem_statementNodes (h : n ∈ Levels.statementNodes block) : n.Below block := by
  obtain ⟨child, hchild, hn⟩ := List.mem_flatMap.mp h
  exact (below_of_mem_grouped hn).trans (Node.below_of_mem_parts hchild)

theorem below_of_mem_clauseNodes (h : n ∈ Levels.clauseNodes clause) : n.Below clause := by
  obtain ⟨child, hchild, hn⟩ := List.mem_flatMap.mp h
  refine (below_of_mem_grouped hn).trans (Node.below_of_mem_children ?_)
  exact (List.dropWhile_suffix _).subset (List.mem_of_mem_drop (List.mem_filter.mp hchild).1)

mutual

/-- The specifications of a declaration. -/
theorem below_of_mem_varSpecsOf : ∀ {decl n : Node}, n ∈ varSpecsOf decl → n.Below decl
  | ⟨_, _, _, children⟩, n, h => by
    obtain ⟨child, hchild, hn⟩ := exists_below_of_mem_specsAmong children h
    exact .child hchild hn

/-- A specification that is found among children is one of them or stands in one. -/
theorem exists_below_of_mem_specsAmong : ∀ (children : List Node) {n : Node},
    n ∈ varSpecsOf.specsAmong children → ∃ child ∈ children, n.Below child
  | [], n, h => by simp [varSpecsOf.specsAmong] at h
  | child :: rest, n, h => by
    have hrest : n ∈ varSpecsOf.specsAmong rest → ∃ c ∈ child :: rest, n.Below c := by
      intro h
      obtain ⟨c, hc, hn⟩ := exists_below_of_mem_specsAmong rest h
      exact ⟨c, List.mem_cons_of_mem _ hc, hn⟩
    rw [varSpecsOf.specsAmong] at h
    split at h
    · rcases List.mem_cons.mp h with rfl | h
      · exact ⟨n, List.mem_cons_self, .refl n⟩
      · exact hrest h
    · rcases List.mem_append.mp h with h | h
      · exact ⟨child, List.mem_cons_self, below_of_mem_varSpecsOf h⟩
      · exact hrest h
    · exact hrest h

end

mutual

/-- The operands along the left spine of an expression. -/
theorem below_of_leftSpine : ∀ (node : Node),
    (∀ n ∈ (leftSpine node).1, n.Below node) ∧ (leftSpine node).2.Below node
  | ⟨kind, role, span, children⟩ => by
    rw [leftSpine]
    split
    · exact below_of_spineOf children _ fun _ h => h
    · exact ⟨by simp, .refl _⟩

/-- The operands below the first left one among some children of a node. -/
theorem below_of_spineOf : ∀ (children : List Node) (node : Node), children ⊆ node.children →
    (∀ n ∈ (leftSpine.spineOf children node).1, n.Below node) ∧
      (leftSpine.spineOf children node).2.Below node
  | [], node, _ => by
    rw [leftSpine.spineOf]
    exact ⟨by simp, .refl node⟩
  | child :: rest, node, hsubset => by
    rw [leftSpine.spineOf]
    split
    · split
      · rename_i right hright
        obtain ⟨hrights, hfirst⟩ := below_of_leftSpine child
        have hchild : child.Below node :=
          Node.below_of_mem_children (hsubset List.mem_cons_self)
        refine ⟨fun n hn => ?_, hfirst.trans hchild⟩
        rcases List.mem_cons.mp hn with rfl | hn
        · exact Node.below_of_child? hright
        · exact (hrights n hn).trans hchild
      · exact ⟨by simp, .refl node⟩
    · exact below_of_spineOf rest node fun _ h => hsubset (List.mem_cons_of_mem _ h)

end

/-! ## Trees whose places nest -/

/-- The places of a tree nest: a node does not end before it starts, its children lie inside it, and
each of them ends before the next one starts. -/
inductive Node.Nested : Node → Prop where
  | mk {node : Node} (ordered : node.span.start ≤ node.span.stop)
      (inside : ∀ child ∈ node.children, node.span.contains child.span)
      (apart : node.children.Pairwise fun a b => a.span.precedes b.span)
      (children : ∀ child ∈ node.children, child.Nested) : Nested node

/-- The nodes follow each other in the source. -/
def Node.InOrder (nodes : List Node) : Prop :=
  nodes.Pairwise fun a b => a.span.precedes b.span

namespace Node

variable {node n : Node} {nodes : List Node}

/-- A node does not end before it starts. -/
theorem Nested.ordered (h : node.Nested) : node.span.start ≤ node.span.stop := by
  cases h with
  | mk ordered _ _ _ => exact ordered

/-- The children of a node follow each other. -/
theorem Nested.inOrder_children (h : node.Nested) : InOrder node.children := by
  cases h with
  | mk _ _ apart _ => exact apart

/-- In what stands in a tree the places nest as well. -/
theorem Nested.of_below (h : node.Nested) (hn : n.Below node) : n.Nested := by
  induction hn with
  | refl => exact h
  | child hmem _ ih =>
    cases h with
    | mk _ _ _ children => exact ih (children _ hmem)

/-- What stands in a tree lies inside its place. -/
theorem Nested.contains (h : node.Nested) (hn : n.Below node) : node.span.contains n.span := by
  induction hn with
  | refl => exact Span.contains_self _
  | child hmem _ ih =>
    cases h with
    | mk _ inside _ children =>
      exact Span.contains_trans (inside _ hmem) (ih (children _ hmem))

/-- Some of the nodes that follow each other do so. -/
theorem InOrder.filter (h : InOrder nodes) (p : Node → Bool) : InOrder (nodes.filter p) :=
  List.Pairwise.filter p h

/-- The children that have a name follow each other. -/
theorem Nested.inOrder_namedChildren (h : node.Nested) : InOrder node.namedChildren :=
  h.inOrder_children.filter _

/-- The parts of a node follow each other. -/
theorem Nested.inOrder_parts (h : node.Nested) : InOrder node.parts :=
  h.inOrder_namedChildren.filter _

/-- Where nodes that follow each other are replaced by parts of theirs, these follow each other. -/
theorem InOrder.flatMap (h : InOrder nodes) {f : Node → List Node}
    (hf : ∀ n ∈ nodes, InOrder (f n) ∧ ∀ m ∈ f n, n.span.contains m.span) :
    InOrder (nodes.flatMap f) := by
  refine List.pairwise_flatMap.mpr ⟨fun n hn => (hf n hn).1, h.imp_of_mem ?_⟩
  intro a b ha hb hprecedes c hc d hd
  exact Span.precedes_of_contains hprecedes ((hf a ha).2 c hc) ((hf b hb).2 d hd)

end Node

open Node

/-- Members of statement lists follow each other. -/
theorem inOrder_grouped {nodes : List Node} (h : InOrder nodes) (hnested : ∀ n ∈ nodes, n.Nested) :
    InOrder (nodes.flatMap fun n => if n.kind == .statementList then n.parts else [n]) := by
  refine h.flatMap fun n hn => ⟨?_, fun m hm => ?_⟩
  · split
    · exact (hnested n hn).inOrder_parts
    · exact List.pairwise_singleton _ n
  · exact (hnested n hn).contains (below_of_mem_grouped hm)

/-- The statements of a block follow each other. -/
theorem inOrder_statementNodes (h : block.Nested) : InOrder (Levels.statementNodes block) :=
  inOrder_grouped h.inOrder_parts fun _ hn => h.of_below (below_of_mem_parts hn)

/-- The statements of a clause follow each other. -/
theorem inOrder_clauseNodes (h : clause.Nested) : InOrder (Levels.clauseNodes clause) := by
  have hsublist : ((clause.children.dropWhile (·.kind != .token ":")).drop 1).Sublist
      clause.children :=
    (List.drop_sublist 1 _).trans (List.dropWhile_sublist _)
  refine inOrder_grouped (List.Pairwise.filter _ (h.inOrder_children.sublist hsublist)) ?_
  intro n hn
  exact h.of_below (below_of_mem_children (hsublist.subset (List.mem_filter.mp hn).1))

mutual

/-- The specifications of a declaration follow each other. -/
theorem inOrder_varSpecsOf : ∀ {decl : Node}, decl.Nested → InOrder (varSpecsOf decl)
  | ⟨_, _, _, children⟩, h => by
    cases h with
    | mk _ _ apart nested => exact inOrder_specsAmong children apart nested

/-- The specifications that are found among children follow each other. -/
theorem inOrder_specsAmong : ∀ (children : List Node), InOrder children →
    (∀ child ∈ children, child.Nested) → InOrder (varSpecsOf.specsAmong children)
  | [], _, _ => by
    rw [varSpecsOf.specsAmong]
    exact .nil
  | child :: rest, h, hnested => by
    obtain ⟨hfirst, hapart⟩ := List.pairwise_cons.mp h
    have hchild := hnested child List.mem_cons_self
    have hrest := inOrder_specsAmong rest hapart fun c hc => hnested c (List.mem_cons_of_mem _ hc)
    -- what is found in the child comes before what is found in its siblings
    have hbefore : ∀ n : Node, n.Below child → ∀ m ∈ varSpecsOf.specsAmong rest,
        n.span.precedes m.span := by
      intro n hn m hm
      obtain ⟨c, hc, hbelow⟩ := exists_below_of_mem_specsAmong rest hm
      exact Span.precedes_of_contains (hfirst c hc) (hchild.contains hn)
        ((hnested c (List.mem_cons_of_mem _ hc)).contains hbelow)
    rw [varSpecsOf.specsAmong]
    split
    · exact List.pairwise_cons.mpr ⟨hbefore child (.refl child), hrest⟩
    · refine List.pairwise_append.mpr ⟨inOrder_varSpecsOf hchild, hrest, fun n hn m hm => ?_⟩
      exact hbefore n (below_of_mem_varSpecsOf hn) m hm
    · exact hrest

end

end TxLifecycle.Concrete
