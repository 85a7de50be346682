import Mathlib.Logic.Relation
import TxLifecycle.Proofs.Ancestry

/-!
# The nearest scope around two scopes

`ScopeTree.commonAncestor` walks up from one scope until it meets a scope around the other. For
every tree that the operations can make, and two of its scopes:

* `ScopeTree.commonAncestor_nearest`: the result is around both and inside every scope that is, the
  order of the two does not matter, and the path from the first scope up to the result lists what is
  around the first scope only, the innermost scope first.

The operations put no condition on the construct of an arm, so the trees are more than the ones of a
walk: an arm may stand elsewhere than its construct. The links to the parents do not depend on it.
-/

namespace TxLifecycle.ScopeTree

variable {tree tree' : ScopeTree} {a b c : ScopeId}

/-- The trees that opening scopes, leaving them and registering constructs make. An operation that
fails makes none. -/
inductive Built : ScopeTree → Prop where
  | empty : Built empty
  | push {tree tree' : ScopeTree} {id : ScopeId} (h : Built tree) (kind : ScopeKind)
      (hpush : tree.push kind = .ok (id, tree')) : Built tree'
  | pushArm {tree tree' : ScopeTree} {id : ScopeId} (h : Built tree) (kind : ScopeKind)
      (construct : ConstructId) (hpush : tree.pushArm kind construct = .ok (id, tree')) :
      Built tree'
  | pop {tree tree' : ScopeTree} {id : ScopeId} (h : Built tree)
      (hpop : tree.pop = .ok (id, tree')) : Built tree'
  | openConstruct {tree : ScopeTree} (h : Built tree) (kind : ConstructKind) (hasFallback : Bool)
      (span : Span) : Built (tree.openConstruct kind hasFallback span).2

/-- The first scope is the second, its parent, the parent of that, and so on. -/
def Encloses (tree : ScopeTree) : ScopeId → ScopeId → Prop :=
  Relation.ReflTransGen fun outer inner => tree.parent? inner = some outer

/-! ## Chains of well-formed trees -/

namespace WellFormed

variable (h : tree.WellFormed)
include h

/-- The bounded recursion finds all scopes around a scope. -/
theorem encloses_iff : tree.Encloses a b ↔ a ∈ tree.ancestors b := by
  constructor
  · intro hencloses
    induction hencloses with
    | refl => simp
    | tail _ hparent ih =>
      rw [h.ancestors_of_parent hparent]
      exact List.mem_cons_of_mem _ ih
  · intro hmem
    induction b using Nat.strongRecOn with
    | ind b ih =>
      cases hparent : tree.parent? b with
      | none =>
        rw [h.ancestors_of_root hparent, List.mem_singleton] at hmem
        exact hmem ▸ .refl
      | some outer =>
        rw [h.ancestors_of_parent hparent] at hmem
        rcases List.mem_cons.mp hmem with rfl | hmem
        · exact .refl
        · exact (ih outer (h.parent hparent) hmem).tail hparent

/-- The chain from a scope leads outwards. -/
theorem pairwise_ancestors (a : ScopeId) :
    (tree.ancestors a).Pairwise fun inner outer =>
      inner ≠ outer ∧ outer ∈ tree.ancestors inner := by
  induction a using Nat.strongRecOn with
  | ind a ih =>
    cases hparent : tree.parent? a with
    | none => simp [h.ancestors_of_root hparent]
    | some outer =>
      have hlt := h.parent hparent
      have hchain := h.ancestors_of_parent hparent
      rw [hchain, List.pairwise_cons]
      refine ⟨fun s hs => ⟨?_, ?_⟩, ih outer hlt⟩
      · exact Nat.ne_of_gt (Nat.lt_of_le_of_lt (h.le_of_mem_ancestors hs) hlt)
      · rw [hchain]
        exact List.mem_cons_of_mem _ hs

/-- Which of two scopes comes first does not matter. -/
theorem commonAncestor_comm (ha : c ∈ tree.ancestors a) (hb : c ∈ tree.ancestors b) :
    tree.commonAncestor a b = tree.commonAncestor b a := by
  obtain ⟨hina, hinb, -⟩ := h.commonAncestor_spec ha hb
  obtain ⟨hinb', hina', -⟩ := h.commonAncestor_spec hb ha
  -- each of the two is around both scopes, so each is around the other
  exact Nat.le_antisymm (h.le_of_mem_ancestors (h.commonAncestor_spec hinb hina).2.2)
    (h.le_of_mem_ancestors (h.commonAncestor_spec hina' hinb').2.2)

/-- The path up to the nearest scope around both holds what is around the first one only. -/
theorem mem_pathBelow_iff (ha : c ∈ tree.ancestors a) (hb : c ∈ tree.ancestors b)
    {scope : ScopeId} :
    scope ∈ tree.pathBelow a (tree.commonAncestor a b) ↔
      scope ∈ tree.ancestors a ∧ scope ∉ tree.ancestors b := by
  obtain ⟨hina, hinb, -⟩ := h.commonAncestor_spec ha hb
  have happend := h.pathBelow_append hina
  have hnodup : (tree.ancestors a).Nodup := (h.pairwise_ancestors a).imp And.left
  rw [← happend] at hnodup
  constructor
  · intro hpath
    have hmem : scope ∈ tree.ancestors a := happend ▸ List.mem_append_left _ hpath
    -- a scope of the path that is around both would come again above the nearest one
    refine ⟨hmem, fun hscope => (List.nodup_append.mp hnodup).2.2 scope hpath scope ?_ rfl⟩
    exact (h.commonAncestor_spec hmem hscope).2.2
  · rintro ⟨hmem, hscope⟩
    rw [← happend, List.mem_append] at hmem
    exact hmem.resolve_right fun habove => hscope (h.mem_ancestors_trans habove hinb)

end WellFormed

/-! ## Trees made by the operations -/

/-- The tree without its constructs. -/
def bare (tree : ScopeTree) : ScopeTree :=
  { tree with constructs := [] }

/-- A scope that is opened is opened without the constructs as well. -/
theorem Opens.bare {kind : ScopeKind} {arm? : Option ConstructId} (h : tree.Opens kind arm? tree') :
    tree.bare.Opens kind none tree'.bare :=
  ⟨h.stack, h.length, h.fresh, h.old, rfl⟩

/-- What every operation keeps: without its constructs the tree is well formed, and each scope but
the function's own one stands in another. -/
structure Linked (tree : ScopeTree) : Prop where
  wellFormed : tree.bare.WellFormed
  parent? : ∀ {scope : Nat}, 0 < scope → scope < tree.scopes.length → (tree.parent? scope).isSome

theorem Linked.opens (h : tree.Linked) {kind : ScopeKind} {arm? : Option ConstructId}
    (hopens : tree.Opens kind arm? tree') : tree'.Linked where
  wellFormed := h.wellFormed.opens hopens.bare (by simp)
  parent? := fun hpos hlt => by
    rw [hopens.length] at hlt
    rcases Nat.lt_succ_iff_lt_or_eq.mp hlt with hlt | rfl
    · rw [hopens.parent?_old hlt]
      exact h.parent? hpos hlt
    · rw [hopens.parent?_fresh]
      rfl

/-- The function's own scope is around every scope. -/
theorem Linked.root_mem (h : tree.Linked) {scope : Nat} (hlt : scope < tree.scopes.length) :
    root ∈ tree.bare.ancestors scope := by
  induction scope using Nat.strongRecOn with
  | ind scope ih =>
    rcases Nat.eq_zero_or_pos scope with rfl | hpos
    · exact self_mem_ancestors _ _
    · obtain ⟨outer, houter⟩ := Option.isSome_iff_exists.mp (h.parent? hpos hlt)
      have hbefore := h.wellFormed.parent houter
      rw [h.wellFormed.ancestors_of_parent houter]
      exact List.mem_cons_of_mem _ (ih outer hbefore (Nat.lt_trans hbefore hlt))

theorem Built.linked (h : tree.Built) : tree.Linked := by
  induction h with
  | empty =>
    refine ⟨WellFormed.empty, fun hpos hlt => ?_⟩
    exact absurd (Nat.lt_one_iff.mp hlt) (Nat.ne_of_gt hpos)
  | push _ _ hpush ih => exact ih.opens (opens_of_push hpush).2
  | pushArm _ _ _ hpush ih => exact ih.opens (opens_of_pushArm hpush)
  | pop _ hpop ih =>
    rw [ScopeTree.pop] at hpop
    split at hpop
    · rename_i outer rest hstack
      cases hpop
      obtain ⟨hwf, hparent⟩ := ih
      have hpath : IsPath _ (_ :: outer :: rest) := hstack ▸ hwf.stack
      exact ⟨⟨hwf.root, hwf.parent, hwf.child, hwf.owner, hwf.arm, hpath.2.congr fun _ _ => rfl⟩,
        hparent⟩
    · cases hpop
  | openConstruct _ _ _ _ ih => exact ⟨ih.wellFormed, ih.parent?⟩

/-- The nearest scope around two scopes of a tree, whatever made the tree. -/
theorem commonAncestor_nearest (hbuilt : tree.Built) (ha : a < tree.scopes.length)
    (hb : b < tree.scopes.length) :
    tree.Encloses (tree.commonAncestor a b) a ∧ tree.Encloses (tree.commonAncestor a b) b ∧
      (∀ c, tree.Encloses c a → tree.Encloses c b → tree.Encloses c (tree.commonAncestor a b)) ∧
      tree.commonAncestor a b = tree.commonAncestor b a ∧
      (∀ scope, scope ∈ tree.pathBelow a (tree.commonAncestor a b) ↔
        tree.Encloses scope a ∧ ¬ tree.Encloses scope b) ∧
      (tree.pathBelow a (tree.commonAncestor a b)).Pairwise fun inner outer =>
        inner ≠ outer ∧ tree.Encloses outer inner := by
  have hlinked := hbuilt.linked
  have hwf := hlinked.wellFormed
  have hroota := hlinked.root_mem ha
  have hrootb := hlinked.root_mem hb
  -- the chains depend on the parents only
  have hchain : ∀ scope, tree.ancestors scope = tree.bare.ancestors scope :=
    fun scope => ancestors_congr hwf fun _ _ => rfl
  have hcommon : ∀ a b, tree.commonAncestor a b = tree.bare.commonAncestor a b := by
    intro a b
    simp only [commonAncestor, isAncestor, hchain]
  obtain ⟨hina, hinb, -⟩ := hwf.commonAncestor_spec hroota hrootb
  have hencloses : ∀ {outer inner},
      tree.Encloses outer inner ↔ outer ∈ tree.bare.ancestors inner := hwf.encloses_iff
  simp only [hencloses, hcommon, pathBelow, hchain]
  refine ⟨hina, hinb, fun c hca hcb => (hwf.commonAncestor_spec hca hcb).2.2,
    hwf.commonAncestor_comm hroota hrootb, fun scope => hwf.mem_pathBelow_iff hroota hrootb, ?_⟩
  exact (hwf.pairwise_ancestors a).sublist (List.takeWhile_sublist _)

/-- A loop with a block in it, and after it two arms of a construct, the second one inside the
first: no walk opens them so, but the operations do. -/
def armInArm : ScopeTree where
  scopes := [{ kind := .function, children := [1, 3] },
    { parent := some 0, kind := .loopBody, loopDepth := 1, children := [2] },
    { parent := some 1, kind := .block, loopDepth := 1 },
    { parent := some 0, kind := .ifBranch, children := [4], armOf := some 0 },
    { parent := some 3, kind := .elseBranch, armOf := some 0 }]
  constructs :=
    [{ kind := .conditional, owner := 0, arms := [3, 4], hasFallback := true, span := {} }]
  stack := [4, 3, 0]

/-- From the block in the loop to the inner arm the nearest scope is the function's own one. -/
theorem commonAncestor_nearest_armInArm :
    armInArm.commonAncestor 2 4 = 0 ∧ armInArm.pathBelow 2 (armInArm.commonAncestor 2 4) = [2, 1] ∧
      armInArm.commonAncestor 2 4 = armInArm.commonAncestor 4 2 := by
  have hbuilt : armInArm.Built :=
    .pushArm (.pushArm (.openConstruct (.pop (.pop (.push (.push .empty .loopBody rfl)
      .block rfl) rfl) rfl) .conditional true {}) .ifBranch 0 rfl) .elseBranch 0 rfl
  have hnearest := commonAncestor_nearest hbuilt (a := 2) (b := 4) (by decide) (by decide)
  exact ⟨by decide, by decide, hnearest.2.2.2.1⟩

end TxLifecycle.ScopeTree
