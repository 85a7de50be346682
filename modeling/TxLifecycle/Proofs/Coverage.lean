import TxLifecycle.Binding.Coverage

/-!
# Coverage as a relation

`Binding.finalizes` follows the scope tree by a bounded recursion. This file gives the same notion
as an inductive relation, `ScopeTree.Covered`, which leaves two things open:

* which scopes hold a finalization themselves, as a predicate `direct`;
* which constructs are still being read, as a list `opened`. The arms of such a construct are not
  all known, so it covers nothing yet.

Main statements:

* `Binding.finalizes_iff_covered`: on a tree whose children and arms have larger indices,
  `finalizes` is `Covered` with no construct left out;
* `ScopeTree.Covered.transfer`: coverage carries over between two trees that agree, on a set of
  scopes closed under children and arms, in all that coverage looks at.
-/

namespace TxLifecycle

namespace ScopeTree

/-- The scopes opened directly in a scope; none where the tree does not hold the scope. -/
def childrenOf (tree : ScopeTree) (scope : ScopeId) : List ScopeId :=
  ((tree.get? scope).map (·.children)).getD []

/-- Control never falls out of the end of the scope. -/
def Terminated (tree : ScopeTree) (scope : ScopeId) : Prop :=
  (tree.get? scope).any (·.terminated) = true

/-- The construct stands directly in the scope and is not one of those left out. -/
structure Holds (tree : ScopeTree) (opened : List ConstructId) (scope : ScopeId)
    (construct : Construct) (id : ConstructId) : Prop where
  /-- The tree holds the construct under this index. -/
  get : tree.construct? id = some construct
  closed : id ∉ opened
  owner : construct.owner = scope

/-- Every path through the scope finalizes the transaction that `direct` tells the direct
finalizations of, as far as the constructs not in `opened` show. -/
inductive Covered (tree : ScopeTree) (opened : List ConstructId) (direct : ScopeId → Prop) :
    ScopeId → Prop where
  /-- By a finalization that stands in the scope. -/
  | direct {scope : ScopeId} : direct scope → Covered tree opened direct scope
  | block {scope child : ScopeId} : child ∈ tree.childrenOf scope →
      tree.kind? child = some .block → Covered tree opened direct child →
      Covered tree opened direct scope
  /-- By a construct that always takes an arm, each of which is covered or never falls through. -/
  | branch {scope : ScopeId} {construct : Construct} {id : ConstructId} :
      tree.Holds opened scope construct id → construct.hasFallback = true →
      construct.arms ≠ [] →
      (∀ arm ∈ construct.arms, ¬ tree.Terminated arm → Covered tree opened direct arm) →
      Covered tree opened direct scope

/-- Children and arms have larger indices than the scope they belong to. -/
structure Ordered (tree : ScopeTree) : Prop where
  child : ∀ {scope child : Nat}, child ∈ tree.childrenOf scope →
    scope < child ∧ child < tree.scopes.length
  /-- An arm lies after the scope of its construct. -/
  arm : ∀ {id : ConstructId} {construct : Construct} {scope arm : Nat},
    tree.Holds [] scope construct id → arm ∈ construct.arms →
    scope < arm ∧ arm < tree.scopes.length

/-- A construct that stands in a scope is found by its index. -/
theorem mem_constructsOwnedBy_iff {tree : ScopeTree} {scope : ScopeId} {construct : Construct} :
    construct ∈ tree.constructsOwnedBy scope ↔ ∃ id, tree.Holds [] scope construct id := by
  constructor
  · intro h
    rw [constructsOwnedBy, List.mem_filter] at h
    obtain ⟨id, hid⟩ := List.mem_iff_getElem?.mp h.1
    exact ⟨id, hid, by simp, by simpa using h.2⟩
  · rintro ⟨id, hget, -, howner⟩
    rw [constructsOwnedBy, List.mem_filter]
    exact ⟨List.mem_of_getElem? hget, by simpa using howner⟩

end ScopeTree

namespace Binding

open ScopeTree

variable {binding : Binding} {tree : ScopeTree} {scope : ScopeId}

/-- The equation of the bounded recursion, with membership in place of the list operations. -/
theorem finalizesWithin_succ_iff {fuel : Nat} :
    binding.finalizesWithin tree (fuel + 1) scope = true ↔
      binding.finalizedIn scope = true ∨
      (∃ child ∈ tree.childrenOf scope, tree.kind? child = some .block ∧
        binding.finalizesWithin tree fuel child = true) ∨
      ∃ construct id, tree.Holds [] scope construct id ∧ construct.hasFallback = true ∧
        construct.arms ≠ [] ∧ tree.get? scope ≠ none ∧
        ∀ arm ∈ construct.arms, ¬ tree.Terminated arm →
          binding.finalizesWithin tree fuel arm = true := by
  rw [finalizesWithin, Bool.or_eq_true]
  refine or_congr Iff.rfl ?_
  cases hget : tree.get? scope with
  | none =>
    -- a scope that is not there has no children, and the last disjunct asks for it
    simp [childrenOf, hget]
  | some current =>
    simp only [childrenOf, hget, Option.map_some, Option.getD_some, Bool.or_eq_true,
      List.any_eq_true, Bool.and_eq_true, beq_iff_eq]
    refine or_congr Iff.rfl ?_
    constructor
    · rintro ⟨construct, hmem, ⟨hfallback, hnonempty⟩, hall⟩
      obtain ⟨id, hid⟩ := mem_constructsOwnedBy_iff.mp hmem
      refine ⟨construct, id, hid, hfallback, by simpa using hnonempty, by simp, ?_⟩
      intro arm harm hrunning
      rcases Bool.or_eq_true_iff.mp (List.all_eq_true.mp hall arm harm) with h | h
      · exact h
      · exact absurd h hrunning
    · rintro ⟨construct, id, hid, hfallback, hnonempty, -, harms⟩
      refine ⟨construct, mem_constructsOwnedBy_iff.mpr ⟨id, hid⟩,
        ⟨hfallback, by simpa using hnonempty⟩, List.all_eq_true.mpr ?_⟩
      intro arm harm
      by_cases h : tree.Terminated arm
      · exact Bool.or_eq_true_iff.mpr (Or.inr h)
      · exact Bool.or_eq_true_iff.mpr (Or.inl (harms arm harm h))

/-- What the bounded recursion finds is coverage. -/
theorem covered_of_finalizesWithin (fuel : Nat)
    (h : binding.finalizesWithin tree fuel scope = true) :
    tree.Covered [] (binding.finalizedIn · = true) scope := by
  induction fuel generalizing scope with
  | zero => simp [finalizesWithin] at h
  | succ fuel ih =>
    rcases finalizesWithin_succ_iff.mp h with h | ⟨child, hmem, hkind, h⟩ |
      ⟨construct, id, hid, hfallback, hnonempty, -, harms⟩
    · exact .direct h
    · exact .block hmem hkind (ih h)
    · exact .branch hid hfallback hnonempty fun arm harm hrunning => ih (harms arm harm hrunning)

/-- Enough fuel finds all coverage: every level of the recursion goes to a larger index. -/
theorem finalizesWithin_of_covered (hordered : tree.Ordered)
    (h : tree.Covered [] (binding.finalizedIn · = true) scope) :
    ∀ fuel, tree.scopes.length ≤ fuel + scope →
      binding.finalizesWithin tree (fuel + 1) scope = true := by
  induction h with
  | direct h =>
    intro fuel _
    exact finalizesWithin_succ_iff.mpr (Or.inl h)
  | @block scope child hmem hkind _ ih =>
    intro fuel hfuel
    -- the child lies before the end of the tree, so this was not the last level
    obtain ⟨hlt, hlen⟩ := hordered.child hmem
    obtain ⟨fuel, rfl⟩ : ∃ n, fuel = n + 1 := ⟨fuel - 1, by omega⟩
    exact finalizesWithin_succ_iff.mpr
      (Or.inr (Or.inl ⟨child, hmem, hkind, ih fuel (by omega)⟩))
  | @branch scope construct id hholds hfallback hnonempty _ ih =>
    intro fuel hfuel
    have hscope : tree.get? scope ≠ none := by
      obtain ⟨arm, harm⟩ := List.exists_mem_of_ne_nil _ hnonempty
      have := hordered.arm hholds harm
      rw [get?, List.getElem?_eq_getElem (by omega)]
      simp
    refine finalizesWithin_succ_iff.mpr
      (Or.inr (Or.inr ⟨construct, id, hholds, hfallback, hnonempty, hscope, ?_⟩))
    intro arm harm hrunning
    obtain ⟨hlt, hlen⟩ := hordered.arm hholds harm
    obtain ⟨fuel, rfl⟩ : ∃ n, fuel = n + 1 := ⟨fuel - 1, by omega⟩
    exact ih arm harm hrunning fuel (by omega)

/-- The bounded recursion decides coverage. -/
theorem finalizes_iff_covered (hordered : tree.Ordered) :
    binding.finalizes tree scope = true ↔
      tree.Covered [] (binding.finalizedIn · = true) scope := by
  constructor
  · exact covered_of_finalizesWithin _
  · intro h
    exact finalizesWithin_of_covered hordered h _ (by omega)

end Binding

namespace ScopeTree

/-- Two trees agree, on a set of scopes, in all that coverage in the first one rests on. A block or
a construct of the first tree may be missing in the second where it does not help: a block that is
not covered, a construct with an arm that falls through and is not covered in the second tree. -/
structure Reflects (tree tree' : ScopeTree) (opened opened' : List ConstructId)
    (direct direct' : ScopeId → Prop) (within : ScopeId → Prop) : Prop where
  /-- Direct finalizations are known to the second tree. -/
  ofDirect : ∀ {scope}, within scope → direct scope → direct' scope
  ofBlock : ∀ {scope child}, within scope → child ∈ tree.childrenOf scope →
    tree.kind? child = some .block → tree.Covered opened direct child →
    child ∈ tree'.childrenOf scope ∧ tree'.kind? child = some .block ∧ within child
  ofBranch : ∀ {scope construct id}, within scope → tree.Holds opened scope construct id →
    construct.hasFallback = true →
    (tree'.Holds opened' scope construct id ∧
      ∀ arm ∈ construct.arms, within arm ∧ (tree.Terminated arm → tree'.Terminated arm)) ∨
    ∃ arm ∈ construct.arms, within arm ∧ ¬ tree.Terminated arm ∧
      ¬ tree'.Covered opened' direct' arm

/-- Coverage carries over to a tree that reflects the first one. -/
theorem Covered.transfer {tree tree' : ScopeTree} {opened opened' : List ConstructId}
    {direct direct' within : ScopeId → Prop}
    (hreflects : tree.Reflects tree' opened opened' direct direct' within)
    {scope : ScopeId} (h : tree.Covered opened direct scope) (hwithin : within scope) :
    tree'.Covered opened' direct' scope := by
  induction h with
  | direct h => exact .direct (hreflects.ofDirect hwithin h)
  | block hmem hkind hcovered ih =>
    obtain ⟨hmem', hkind', hchild⟩ := hreflects.ofBlock hwithin hmem hkind hcovered
    exact .block hmem' hkind' (ih hchild)
  | branch hholds hfallback hnonempty _ ih =>
    rcases hreflects.ofBranch hwithin hholds hfallback with ⟨hholds', harms⟩ |
      ⟨arm, harm, hin, hrunning, huncovered⟩
    · refine .branch hholds' hfallback hnonempty fun arm harm hrunning => ?_
      obtain ⟨hin, hterminated⟩ := harms arm harm
      exact ih arm harm (fun h => hrunning (hterminated h)) hin
    · -- the construct would cover that arm as well
      exact absurd (ih arm harm hrunning hin) huncovered

end ScopeTree

end TxLifecycle
