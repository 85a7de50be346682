import TxLifecycle.Proofs.Ancestry

/-!
# Scopes on different branches

The arms of a branching construct are siblings in the scope tree. So no scope lies in two of them,
and two scopes that lie in different arms meet in the scope of the construct.

* `Construct.Separates`: two scopes lie in different arms of a construct;
* `ScopeTree.Exclusive`: some construct separates them;
* `Construct.Isolates`: a scope lies in one arm of a construct, and each of some others in another;
* `ScopeTree.exclusive_iff`: whether two scopes are exclusive is seen below the nearest scope around
  both.
-/

namespace TxLifecycle

/-- The two scopes lie in different arms of the construct. -/
def Construct.Separates (c : Construct) (tree : ScopeTree) (a b : ScopeId) : Prop :=
  ∃ arm ∈ c.arms, ∃ arm' ∈ c.arms, arm ≠ arm' ∧ arm ∈ tree.ancestors a ∧ arm' ∈ tree.ancestors b

/-- The scope lies in one arm of the construct, and each of the sites in another one. -/
def Construct.Isolates (c : Construct) (tree : ScopeTree) (sites : ScopeId → Prop)
    (scope : ScopeId) : Prop :=
  ∃ arm ∈ c.arms, arm ∈ tree.ancestors scope ∧
    ∀ site, sites site → ∃ arm' ∈ c.arms, arm' ≠ arm ∧ arm' ∈ tree.ancestors site

variable {c : Construct} {tree : ScopeTree}

/-- The construct separates an isolated scope from each of the sites. -/
theorem Construct.Isolates.separates {sites : ScopeId → Prop} {scope site : ScopeId}
    (h : c.Isolates tree sites scope) (hsite : sites site) : c.Separates tree site scope := by
  obtain ⟨arm, harm, hscope, hsites⟩ := h
  obtain ⟨arm', harm', hne, hmem⟩ := hsites site hsite
  exact ⟨arm', harm', arm, harm, hne, hmem, hscope⟩

theorem Construct.Separates.symm {a b : ScopeId} (h : c.Separates tree a b) :
    c.Separates tree b a := by
  obtain ⟨arm, harm, arm', harm', hne, hmem, hmem'⟩ := h
  exact ⟨arm', harm', arm, harm, Ne.symm hne, hmem', hmem⟩

namespace ScopeTree

/-- The two scopes lie in different arms of one construct. -/
def Exclusive (tree : ScopeTree) (a b : ScopeId) : Prop :=
  ∃ c ∈ tree.constructs, c.Separates tree a b

instance (c : Construct) (tree : ScopeTree) (a b : ScopeId) : Decidable (c.Separates tree a b) :=
  inferInstanceAs (Decidable (∃ arm ∈ c.arms, ∃ arm' ∈ c.arms,
    arm ≠ arm' ∧ arm ∈ tree.ancestors a ∧ arm' ∈ tree.ancestors b))

instance (tree : ScopeTree) (a b : ScopeId) : Decidable (tree.Exclusive a b) :=
  inferInstanceAs (Decidable (∃ c ∈ tree.constructs, c.Separates tree a b))

variable {tree tree' : ScopeTree} {scope inner : Nat} {a b d e outer : ScopeId} {c : Construct}

theorem Exclusive.symm (h : tree.Exclusive a b) : tree.Exclusive b a := by
  obtain ⟨c, hc, hseparates⟩ := h
  exact ⟨c, hc, hseparates.symm⟩

/-! ## Chains -/

variable (h : tree.WellFormed)
include h

/-- Of two scopes around a third one, one is around the other. -/
theorem WellFormed.mem_ancestors_or (ha : a ∈ tree.ancestors scope)
    (hb : b ∈ tree.ancestors scope) : a ∈ tree.ancestors b ∨ b ∈ tree.ancestors a := by
  rcases List.suffix_or_suffix_of_suffix (h.ancestors_suffix ha) (h.ancestors_suffix hb)
    with hsuffix | hsuffix
  · exact Or.inl (hsuffix.subset (tree.self_mem_ancestors a))
  · exact Or.inr (hsuffix.subset (tree.self_mem_ancestors b))

/-- A scope around another one is that one or around its parent. -/
theorem WellFormed.mem_ancestors_cases (hparent : tree.parent? b = some outer)
    (ha : a ∈ tree.ancestors b) : a = b ∨ a ∈ tree.ancestors outer := by
  rw [h.ancestors_of_parent hparent] at ha
  exact List.mem_cons.mp ha

/-- The scope in which another one stands is around it. -/
theorem WellFormed.parent_mem_ancestors (hparent : tree.parent? scope = some outer) :
    outer ∈ tree.ancestors scope := by
  rw [h.ancestors_of_parent hparent]
  exact List.mem_cons_of_mem _ (tree.self_mem_ancestors outer)

/-- A scope is not around the one in which it stands. -/
theorem WellFormed.notMem_ancestors_parent (hparent : tree.parent? scope = some outer) :
    scope ∉ tree.ancestors outer := by
  intro hmem
  exact Nat.not_lt.mpr (h.le_of_mem_ancestors hmem) (h.parent hparent)

theorem WellFormed.eq_of_siblings (ha : a ∈ tree.ancestors scope) (hb : b ∈ tree.ancestors scope)
    (hpa : tree.parent? a = some outer) (hpb : tree.parent? b = some outer) : a = b := by
  rcases h.mem_ancestors_or ha hb with hmem | hmem
  · rcases h.mem_ancestors_cases hpb hmem with heq | hmem
    · exact heq
    · exact absurd hmem (h.notMem_ancestors_parent hpa)
  · rcases h.mem_ancestors_cases hpa hmem with heq | hmem
    · exact heq.symm
    · exact absurd hmem (h.notMem_ancestors_parent hpb)

/-- A chain enters a scope around its first one through a child of that scope. -/
theorem WellFormed.exists_child (ha : a ∈ tree.ancestors scope) (hne : a ≠ scope) :
    ∃ child, tree.parent? child = some a ∧ child ∈ tree.ancestors scope := by
  induction scope using Nat.strongRecOn with
  | ind scope ih =>
    cases hparent : tree.parent? scope with
    | none =>
      rw [h.ancestors_of_root hparent] at ha
      exact absurd (List.mem_singleton.mp ha) hne
    | some outer =>
      have hmem := (h.mem_ancestors_cases hparent ha).resolve_left hne
      by_cases heq : a = outer
      · exact ⟨scope, heq ▸ hparent, tree.self_mem_ancestors scope⟩
      · obtain ⟨child, hchild, hchain⟩ := ih outer (h.parent hparent) hmem heq
        refine ⟨child, hchild, ?_⟩
        exact h.mem_ancestors_trans hchain (h.parent_mem_ancestors hparent)

/-! ## Arms -/

/-- A scope around two scopes that a construct separates is around the construct. -/
theorem WellFormed.mem_ancestors_owner (hc : c ∈ tree.constructs)
    (hseparates : c.Separates tree a b) (ha : d ∈ tree.ancestors a) (hb : d ∈ tree.ancestors b) :
    d ∈ tree.ancestors c.owner := by
  obtain ⟨id, hid⟩ := List.mem_iff_getElem?.mp hc
  obtain ⟨arm, harm, arm', harm', hne, hmem, hmem'⟩ := hseparates
  have hparent := h.arm hid harm
  have hparent' := h.arm hid harm'
  rcases h.mem_ancestors_or ha hmem with hinside | hinside
  · rcases h.mem_ancestors_cases hparent hinside with heq | hmem
    · -- the arm itself would be around the other scope
      exact absurd (h.eq_of_siblings (heq ▸ hb) hmem' hparent hparent') hne
    · exact hmem
  · have hboth := h.mem_ancestors_trans hinside hb
    exact absurd (h.eq_of_siblings hboth hmem' hparent hparent') hne

/-- A scope inside one of the arms of a construct is not around the construct. -/
theorem WellFormed.notMem_ancestors_owner {arm : ScopeId} (hc : c ∈ tree.constructs)
    (harm : arm ∈ c.arms) (hmem : arm ∈ tree.ancestors a) : a ∉ tree.ancestors c.owner := by
  obtain ⟨id, hid⟩ := List.mem_iff_getElem?.mp hc
  intro howner
  exact h.notMem_ancestors_parent (h.arm hid harm) (h.mem_ancestors_trans hmem howner)

/-- Two scopes of which one lies in the other are not exclusive. -/
theorem WellFormed.not_exclusive (hmem : b ∈ tree.ancestors a) : ¬ tree.Exclusive a b := by
  rintro ⟨c, hc, hseparates⟩
  have howner := h.mem_ancestors_owner hc hseparates hmem (tree.self_mem_ancestors b)
  obtain ⟨-, -, arm', harm', -, -, hmem'⟩ := hseparates
  exact h.notMem_ancestors_owner hc harm' hmem' howner

/-- Whether two scopes are exclusive is seen at the children of the nearest scope around both: these
must be arms of one construct. -/
theorem WellFormed.exclusive_iff (hne : d ≠ e) (hpd : tree.parent? d = some outer)
    (hpe : tree.parent? e = some outer) (hd : d ∈ tree.ancestors a) (he : e ∈ tree.ancestors b) :
    tree.Exclusive a b ↔ ∃ c ∈ tree.constructs, d ∈ c.arms ∧ e ∈ c.arms := by
  constructor
  · rintro ⟨c, hc, hseparates⟩
    have ha := h.mem_ancestors_trans (h.parent_mem_ancestors hpd) hd
    have hb := h.mem_ancestors_trans (h.parent_mem_ancestors hpe) he
    have howner := h.mem_ancestors_owner hc hseparates ha hb
    obtain ⟨id, hid⟩ := List.mem_iff_getElem?.mp hc
    obtain ⟨arm, harm, arm', harm', -, hmem, hmem'⟩ := hseparates
    have hparent := h.arm hid harm
    have hparent' := h.arm hid harm'
    -- the construct stands in the nearest scope around both, for it is not inside a child of it
    have heq : c.owner = outer := by
      refine Decidable.byContradiction fun hother => ?_
      obtain ⟨child, hchild, hinside⟩ := h.exists_child howner (Ne.symm hother)
      have hin : child ∈ tree.ancestors a :=
        h.mem_ancestors_trans (h.mem_ancestors_trans hinside (h.parent_mem_ancestors hparent)) hmem
      have hin' : child ∈ tree.ancestors b :=
        h.mem_ancestors_trans
          (h.mem_ancestors_trans hinside (h.parent_mem_ancestors hparent')) hmem'
      exact hne ((h.eq_of_siblings hd hin hpd hchild).trans (h.eq_of_siblings hin' he hchild hpe))
    rw [heq] at hparent hparent'
    refine ⟨c, hc, ?_, ?_⟩
    · rwa [h.eq_of_siblings hd hmem hpd hparent]
    · rwa [h.eq_of_siblings he hmem' hpe hparent']
  · rintro ⟨c, hc, hdarm, hearm⟩
    exact ⟨c, hc, d, hdarm, e, hearm, hne, hd, he⟩

/-- The nearest scope around two scopes of which the first is not around the second: the first lies
in a child of it, and the second does not. -/
theorem WellFormed.exists_child_commonAncestor (ha : d ∈ tree.ancestors a)
    (hb : d ∈ tree.ancestors b) (hnot : a ∉ tree.ancestors b) :
    ∃ child, tree.parent? child = some (tree.commonAncestor a b) ∧ child ∈ tree.ancestors a ∧
      child ∉ tree.ancestors b := by
  obtain ⟨hin, hin', -⟩ := h.commonAncestor_spec ha hb
  have hne : tree.commonAncestor a b ≠ a := by
    intro heq
    exact hnot (heq ▸ hin')
  obtain ⟨child, hchild, hmem⟩ := h.exists_child hin hne
  refine ⟨child, hchild, hmem, fun hmem' => ?_⟩
  -- a child around both would be nearer
  have hnearer := (h.commonAncestor_spec hmem hmem').2.2
  exact h.notMem_ancestors_parent hchild hnearer

end ScopeTree

end TxLifecycle
