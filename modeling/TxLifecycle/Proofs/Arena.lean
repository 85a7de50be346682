import TxLifecycle.Proofs.Prepared

/-!
# The shape of scope trees

What a walk builds is a tree in every respect in which it is later used as one:

* `ScopeTree.Arena`: parents, children, loop depths, the open scopes and the arms of constructs
  agree with each other at every moment;
* `ScopeTree.Ends`: hence following parents ends, and so does asking whether a scope finalizes a
  transaction, which goes to blocks and arms inside it; the bounds that the two recursions carry cut
  nothing off;
* `Walk.Completed`: a construct that is not open any more has all the arms of its statement.

The main statement is `FunctionUnit.scopes_agree`.
-/

namespace TxLifecycle

namespace ScopeTree

/-- The parts of a scope tree agree with each other. -/
structure Arena (tree : ScopeTree) : Prop where
  nonempty : ScopeTree.root < tree.scopes.length
  /-- It is the only scope that stands in no other one. -/
  root : ∀ {scope : Nat}, scope < tree.scopes.length →
    (tree.parent? scope = none ↔ scope = ScopeTree.root)
  /-- Every other scope stands in an earlier one. -/
  parent : ∀ {scope outer : Nat}, tree.parent? scope = some outer → outer < scope
  /-- The children of a scope are the scopes that stand in it. -/
  children : ∀ {scope child : Nat},
    child ∈ tree.childrenOf scope ↔ tree.parent? child = some scope
  /-- They are listed in increasing order, each of them once. -/
  increasing : ∀ scope : Nat, (tree.childrenOf scope).Pairwise (· < ·)
  /-- The loop depth counts the loop bodies among a scope and the scopes around it. -/
  loopDepth : ∀ {scope : Nat} {s : Scope}, tree.get? scope = some s →
    s.loopDepth = (tree.ancestors scope).countP (tree.kind? · == some .loopBody)
  /-- The open scopes are the current one and those around it. -/
  stack : tree.stack = tree.ancestors tree.current
  /-- A scope knows the construct of which it is an arm. -/
  arm : ∀ {scope : Nat} {s : Scope} {id : ConstructId}, tree.get? scope = some s →
    (s.armOf = some id ↔ ∃ c, tree.construct? id = some c ∧ scope ∈ c.arms)
  /-- It is an arm of that construct once. -/
  once : ∀ {id : ConstructId} {c : Construct}, tree.construct? id = some c → c.arms.Nodup
  /-- An arm stands in the scope of its construct and is of a kind that the construct takes. -/
  owner : ∀ {id : ConstructId} {c : Construct} {scope : Nat}, tree.construct? id = some c →
    scope ∈ c.arms → tree.parent? scope = some c.owner ∧
      ∃ kind, tree.kind? scope = some kind ∧ c.kind.takes kind = true

variable {tree tree' : ScopeTree}

/-- Any other construct is the one that was registered last and has no arms. -/
theorem construct?_openConstruct_cases {kind : ConstructKind} {hasFallback : Bool} {span : Span}
    {id : ConstructId} {c : Construct}
    (h : (tree.openConstruct kind hasFallback span).2.construct? id = some c) :
    tree.construct? id = some c ∨ id = tree.constructs.length ∧ c.arms = [] := by
  rw [openConstruct, construct?, List.getElem?_append] at h
  split at h
  · exact Or.inl h
  · rename_i hge
    rw [List.getElem?_singleton] at h
    split at h
    · rename_i hle
      cases h
      exact Or.inr ⟨Nat.le_antisymm (Nat.sub_eq_zero_iff_le.mp hle) (Nat.le_of_not_lt hge), rfl⟩
    · cases h

/-- Chains with the same scopes, each of which keeps its kind, have the same loop bodies. -/
theorem countP_loopBody {scope : Nat} (hancestors : tree'.ancestors scope = tree.ancestors scope)
    (hkind : ∀ a ∈ tree.ancestors scope, tree'.kind? a = tree.kind? a) :
    (tree'.ancestors scope).countP (tree'.kind? · == some .loopBody) =
      (tree.ancestors scope).countP (tree.kind? · == some .loopBody) := by
  rw [hancestors]
  exact List.countP_congr fun a ha => by rw [hkind a ha]

namespace Arena

/-- The tree that holds the function's own scope only. -/
theorem empty : ScopeTree.empty.Arena where
  nonempty := by decide
  root := fun {scope} hlt => by
    obtain rfl : scope = 0 := Nat.lt_one_iff.mp hlt
    decide
  parent := WellFormed.empty.parent
  children := fun {scope child} => by
    refine ⟨WellFormed.empty.child, fun hparent => ?_⟩
    obtain rfl : child = 0 := Nat.lt_one_iff.mp (lt_of_parent? hparent)
    cases hparent
  increasing := fun scope => by
    cases scope with
    | zero => exact .nil
    | succ n => exact .nil
  loopDepth := fun {scope s} hget => by
    obtain rfl : scope = 0 := Nat.lt_one_iff.mp (List.getElem?_eq_some_iff.mp hget).1
    cases hget
    rfl
  stack := WellFormed.empty.stack_eq
  arm := fun {scope s id} hget => by
    obtain rfl : scope = 0 := Nat.lt_one_iff.mp (List.getElem?_eq_some_iff.mp hget).1
    cases hget
    constructor
    · intro harm
      cases harm
    · rintro ⟨c, hc, -⟩
      cases hc
  once := fun hc => by cases hc
  owner := fun hc => by cases hc

/-- A tree in which only locals, `defer` statements, marks of exits or the open scopes differ, and
perhaps constructs that have no arms yet. -/
theorem of_same (h : tree.Arena) (hwf : tree.WellFormed) (hwf' : tree'.WellFormed)
    (hlength : tree'.scopes.length = tree.scopes.length)
    (hframe : ∀ scope : Nat, (tree'.get? scope).map (Scope.frame true) =
      (tree.get? scope).map (Scope.frame true))
    (hkept : ∀ {id : ConstructId} {c : Construct}, tree.construct? id = some c →
      tree'.construct? id = some c)
    (hold : ∀ {id : ConstructId} {c : Construct}, tree'.construct? id = some c →
      tree.construct? id = some c ∨ c.arms = []) : tree'.Arena := by
  -- all that is asked of a scope is read off its frame
  have hread : ∀ {α : Type} (f : Scope → α), (∀ s : Scope, f (s.frame true) = f s) →
      ∀ scope : Nat, (tree'.get? scope).map f = (tree.get? scope).map f := by
    intro α f hf scope
    have hmap : ∀ x : Option Scope, x.map f = (x.map (Scope.frame true)).map f := by
      intro x
      cases x <;> simp [hf]
    rw [hmap, hframe, ← hmap]
  have hparent : ∀ scope : Nat, tree'.parent? scope = tree.parent? scope := by
    intro scope
    have hbind : ∀ x : Option Scope, x.bind Scope.parent = (x.map Scope.parent).bind id := by
      intro x
      cases x <;> rfl
    rw [parent?, parent?, hbind, hread Scope.parent (fun _ => rfl), ← hbind]
  have hkind : ∀ scope : Nat, tree'.kind? scope = tree.kind? scope := hread Scope.kind fun _ => rfl
  have hchildren : ∀ scope : Nat, tree'.childrenOf scope = tree.childrenOf scope := fun scope =>
    congrArg (·.getD []) (hread Scope.children (fun _ => rfl) scope)
  have hancestors : ∀ scope : Nat, tree'.ancestors scope = tree.ancestors scope := fun scope =>
    ancestors_congr hwf fun s _ => hparent s
  -- a construct that has arms is an old one
  have harmed : ∀ {id : ConstructId} {c : Construct} {scope : Nat}, tree'.construct? id = some c →
      scope ∈ c.arms → tree.construct? id = some c := by
    intro id c scope hc hmem
    refine (hold hc).resolve_right fun hnil => ?_
    rw [hnil] at hmem
    cases hmem
  refine
    { nonempty := hlength ▸ h.nonempty
      root := fun hlt => by rw [hparent]; exact h.root (hlength ▸ hlt)
      parent := hwf'.parent
      children := fun {scope child} => by rw [hchildren, hparent]; exact h.children
      increasing := fun scope => by rw [hchildren]; exact h.increasing scope
      loopDepth := fun {scope s} hget => ?_
      stack := hwf'.stack_eq
      arm := fun {scope s id} hget => ?_
      once := fun {id c} hc => ?_
      owner := fun {id c scope} hc hmem => ?_ }
  · have hdepth := hread Scope.loopDepth (fun _ => rfl) scope
    rw [hget, Option.map_some] at hdepth
    obtain ⟨t, ht, heq⟩ := Option.map_eq_some_iff.mp hdepth.symm
    rw [← heq, h.loopDepth ht, countP_loopBody (hancestors scope) fun a _ => hkind a]
  · have harm := hread Scope.armOf (fun _ => rfl) scope
    rw [hget, Option.map_some] at harm
    obtain ⟨t, ht, heq⟩ := Option.map_eq_some_iff.mp harm.symm
    rw [← heq, h.arm ht]
    constructor
    · rintro ⟨c, hc, hmem⟩
      exact ⟨c, hkept hc, hmem⟩
    · rintro ⟨c, hc, hmem⟩
      exact ⟨c, harmed hc hmem, hmem⟩
  · rcases hold hc with hc | hnil
    · exact h.once hc
    · rw [hnil]
      exact .nil
  · rw [hparent, hkind]
    exact h.owner (harmed hc hmem) hmem

section Opens

variable {kind : ScopeKind} {arm? : Option ConstructId} {scope : Nat} {id : ConstructId}
  {c : Construct}

section

variable (hopens : tree.Opens kind arm? tree')
include hopens

/-- The scopes of a tree in which one is opened: the old ones, kept but for their children, and the
new one. -/
theorem get?_opens_cases (hadds : tree.Adds kind arm? tree') {s : Scope}
    (hget : tree'.get? scope = some s) :
    (scope < tree.scopes.length ∧ ∃ t, tree.get? scope = some t ∧ s.loopDepth = t.loopDepth ∧
      s.armOf = t.armOf) ∨
    (scope = tree.scopes.length ∧ s.armOf = arm? ∧ ∃ outer, tree.get? tree.current = some outer ∧
      s.loopDepth = outer.loopDepth + if kind = .loopBody then 1 else 0) := by
  have hlt : scope < tree.scopes.length + 1 :=
    hopens.length ▸ (List.getElem?_eq_some_iff.mp hget).1
  rcases Nat.lt_succ_iff_lt_or_eq.mp hlt with hlt | rfl
  · rw [hopens.old hlt] at hget
    obtain ⟨t, ht, rfl⟩ := Option.map_eq_some_iff.mp hget
    refine Or.inl ⟨hlt, t, ht, ?_⟩
    split <;> exact ⟨rfl, rfl⟩
  · obtain ⟨outer, houter, hfresh⟩ := hadds
    rw [hfresh, Option.some.injEq] at hget
    subst hget
    exact Or.inr ⟨rfl, rfl, outer, houter, rfl⟩

/-- The constructs of such a tree: one of them may have the new scope as its last arm. -/
theorem construct?_opens (hc : tree.construct? id = some c) :
    ∃ c', tree'.construct? id = some c' ∧
      c'.arms = c.arms ++ if arm? = some id then [tree.scopes.length] else [] := by
  rw [hopens.construct?, hc, Option.map_some]
  refine ⟨_, rfl, ?_⟩
  split
  · rfl
  · rw [List.append_nil]

theorem construct?_opens_cases {c' : Construct} (hc' : tree'.construct? id = some c') :
    ∃ c, tree.construct? id = some c ∧ c'.kind = c.kind ∧
      c'.arms = c.arms ++ if arm? = some id then [tree.scopes.length] else [] := by
  rw [hopens.construct?] at hc'
  obtain ⟨c, hc, rfl⟩ := Option.map_eq_some_iff.mp hc'
  refine ⟨c, hc, ?_⟩
  split
  · exact ⟨rfl, rfl⟩
  · exact ⟨rfl, (List.append_nil _).symm⟩

end

/-- No construct has the new scope as an arm yet. -/
theorem length_notMem_arms (hwf : tree.WellFormed) (hc : tree.construct? id = some c) :
    tree.scopes.length ∉ c.arms :=
  fun hmem => Nat.lt_irrefl _ (lt_of_parent? (hwf.arm hc hmem))

variable (h : tree.Arena)
include h

/-- The new scope is a child of the one in which it is opened. -/
theorem children_opens (hwf : tree.WellFormed) (hopens : tree.Opens kind arm? tree') {child : Nat}
    (hparent : tree'.parent? child = some scope) : child ∈ tree'.childrenOf scope := by
  rcases hopens.parent?_cases hparent with hold | ⟨rfl, rfl⟩
  · have hlt : scope < tree.scopes.length :=
      Nat.lt_trans (h.parent hold) (lt_of_parent? hold)
    rw [hopens.childrenOf_old hlt]
    exact List.mem_append_left _ (h.children.mpr hold)
  · rw [hopens.childrenOf_old hwf.current_lt, if_pos rfl]
    exact List.mem_append_right _ (List.mem_singleton.mpr rfl)

/-- A scope that opens gets a larger index than the other children of its parent, so that children
are listed in increasing order. -/
theorem increasing_opens (hopens : tree.Opens kind arm? tree') :
    (tree'.childrenOf scope).Pairwise (· < ·) := by
  rcases Nat.lt_trichotomy scope tree.scopes.length with hlt | rfl | hgt
  · -- the new scope is the last child, and no scope of before has its index
    rw [hopens.childrenOf_old hlt]
    refine List.pairwise_append.mpr ⟨h.increasing scope, ?_, fun child hchild last hlast => ?_⟩
    · split
      · exact List.pairwise_singleton _ _
      · exact .nil
    · split at hlast
      · rw [List.mem_singleton.mp hlast]
        exact lt_of_parent? (h.children.mp hchild)
      · cases hlast
  · rw [hopens.childrenOf_fresh]
    exact .nil
  · have hnone : tree'.get? scope = none := List.getElem?_eq_none (hopens.length ▸ hgt)
    rw [childrenOf, hnone]
    exact .nil

variable (hwf : tree.WellFormed)
include hwf

/-- A new loop body adds one to the loop depth of the scope in which it is opened. -/
theorem loopDepth_opens (hwf' : tree'.WellFormed) (hopens : tree.Opens kind arm? tree')
    (hadds : tree.Adds kind arm? tree') {s : Scope} (hget : tree'.get? scope = some s) :
    s.loopDepth = (tree'.ancestors scope).countP (tree'.kind? · == some .loopBody) := by
  have hold : ∀ {scope : Nat}, scope < tree.scopes.length →
      (tree'.ancestors scope).countP (tree'.kind? · == some .loopBody) =
        (tree.ancestors scope).countP (tree.kind? · == some .loopBody) := fun hlt =>
    countP_loopBody (hopens.grows.ancestors hwf hlt) fun a ha =>
      hopens.kind?_old (Nat.lt_of_le_of_lt (hwf.le_of_mem_ancestors ha) hlt)
  rcases get?_opens_cases hopens hadds hget with ⟨hlt, t, ht, hdepth, -⟩ |
    ⟨rfl, -, outer, houter, hdepth⟩
  · rw [hdepth, h.loopDepth ht, hold hlt]
  · rw [hdepth, h.loopDepth houter, hwf'.ancestors_of_parent hopens.parent?_fresh,
      List.countP_cons, hold hwf.current_lt, hopens.kind?_fresh]
    simp

section

variable (hopens : tree.Opens kind arm? tree')
include hopens

/-- A scope is an arm of the construct that it knows. -/
theorem arm_opens (hadds : tree.Adds kind arm? tree')
    (harm : ∀ id ∈ arm?, ∃ c, tree.construct? id = some c ∧ c.kind.takes kind = true) {s : Scope}
    (hget : tree'.get? scope = some s) :
    s.armOf = some id ↔ ∃ c, tree'.construct? id = some c ∧ scope ∈ c.arms := by
  rcases get?_opens_cases hopens hadds hget with ⟨hlt, t, ht, -, heq⟩ | ⟨rfl, heq, -⟩
  · -- an old scope does not become an arm
    rw [heq, h.arm ht]
    constructor
    · rintro ⟨c, hc, hmem⟩
      obtain ⟨c', hc', harms⟩ := construct?_opens hopens hc
      exact ⟨c', hc', harms ▸ List.mem_append_left _ hmem⟩
    · rintro ⟨c', hc', hmem⟩
      obtain ⟨c, hc, -, harms⟩ := construct?_opens_cases hopens hc'
      rw [harms] at hmem
      refine ⟨c, hc, (List.mem_append.mp hmem).resolve_right fun hnew => ?_⟩
      split at hnew
      · exact Nat.ne_of_lt hlt (List.mem_singleton.mp hnew)
      · cases hnew
  · -- the new scope is an arm of the construct for which it was opened, and of no other one
    rw [heq]
    constructor
    · rintro rfl
      obtain ⟨c, hc, -⟩ := harm id rfl
      obtain ⟨c', hc', harms⟩ := construct?_opens hopens hc
      rw [if_pos rfl] at harms
      exact ⟨c', hc', harms ▸ List.mem_append_right _ (List.mem_singleton.mpr rfl)⟩
    · rintro ⟨c', hc', hmem⟩
      obtain ⟨c, hc, -, harms⟩ := construct?_opens_cases hopens hc'
      by_cases hid : arm? = some id
      · exact hid
      · rw [harms, if_neg hid, List.append_nil] at hmem
        exact absurd hmem (length_notMem_arms hwf hc)

/-- The new scope is an arm of one construct, and of that only once. -/
theorem once_opens (hc : tree'.construct? id = some c) : c.arms.Nodup := by
  obtain ⟨old, hold, -, harms⟩ := construct?_opens_cases hopens hc
  rw [harms]
  split
  · exact List.nodup_append.mpr ⟨h.once hold, by simp, fun a ha b hb heq =>
      length_notMem_arms hwf hold (List.mem_singleton.mp hb ▸ heq ▸ ha)⟩
  · rw [List.append_nil]
    exact h.once hold

theorem takes_opens
    (harm : ∀ id ∈ arm?, ∃ c, tree.construct? id = some c ∧ c.kind.takes kind = true)
    (hc : tree'.construct? id = some c) (hmem : scope ∈ c.arms) :
    ∃ kind, tree'.kind? scope = some kind ∧ c.kind.takes kind = true := by
  obtain ⟨old, hold, hkind, harms⟩ := construct?_opens_cases hopens hc
  rw [hkind]
  rw [harms] at hmem
  rcases List.mem_append.mp hmem with hmem | hnew
  · rw [hopens.kind?_old (lt_of_parent? (hwf.arm hold hmem))]
    exact (h.owner hold hmem).2
  · -- the new arm was checked when it was opened
    split at hnew
    · rename_i hid
      obtain ⟨c', hc', htakes⟩ := harm id hid
      obtain rfl : old = c' := Option.some.inj (hold.symm.trans hc')
      rw [List.mem_singleton.mp hnew]
      exact ⟨kind, hopens.kind?_fresh, htakes⟩
    · cases hnew

end

/-- A scope opens. An arm is opened for a construct that is there and takes it. -/
theorem opens (hwf' : tree'.WellFormed) (hopens : tree.Opens kind arm? tree')
    (hadds : tree.Adds kind arm? tree')
    (harm : ∀ id ∈ arm?, ∃ c, tree.construct? id = some c ∧ c.kind.takes kind = true) :
    tree'.Arena where
  nonempty := Nat.lt_of_lt_of_le h.nonempty hopens.grows.length
  root := fun {scope} hlt => by
    rw [hopens.length] at hlt
    rcases Nat.lt_succ_iff_lt_or_eq.mp hlt with hlt | rfl
    · rw [hopens.parent?_old hlt]
      exact h.root hlt
    · rw [hopens.parent?_fresh]
      constructor
      · intro hnone
        cases hnone
      · intro heq
        exact absurd h.nonempty (by rw [heq]; exact Nat.lt_irrefl _)
  parent := hwf'.parent
  children := ⟨hwf'.child, children_opens h hwf hopens⟩
  increasing := fun _ => increasing_opens h hopens
  loopDepth := loopDepth_opens h hwf hwf' hopens hadds
  stack := hwf'.stack_eq
  arm := arm_opens h hwf hopens hadds harm
  once := once_opens h hwf hopens
  owner := fun hc hmem => ⟨hwf'.arm hc hmem, takes_opens h hwf hopens harm hc hmem⟩

end Opens

end Arena

end ScopeTree

namespace Walk

variable {limits : Limits} {w u : Walk} {action : Action}

/-- An action that opens and closes nothing keeps the shape of the tree. -/
theorem Edits.arena {e : Bool} (hedits : w.Edits action e w u) (h : w.scopes.Arena)
    (hwf : w.scopes.WellFormed) : u.scopes.Arena := by
  refine h.of_same hwf (hedits.wellFormed hwf) hedits.length (fun scope => ?_)
    (fun hc => (hedits.construct? _).trans hc)
    fun hc => Or.inl ((hedits.construct? _).symm.trans hc)
  have habsorb : ∀ (exits : Bool) (x : Option Scope),
      (x.map (Scope.frame exits)).map (Scope.frame true) = x.map (Scope.frame true) := by
    intro exits x
    cases x <;> simp
  rw [← habsorb false, hedits.frames, habsorb]

/-- Every action keeps the shape of the tree, where an arm is opened for a construct that takes
it. -/
theorem exec_arena (h : w.scopes.Arena) (hwf : w.WellFormed) (hwf' : u.WellFormed)
    (hprepared : w.Prepared action) (hexec : w.exec limits action = .ok u) : u.scopes.Arena := by
  -- many actions keep the scopes and all constructs that have arms
  have hsame : u.scopes.scopes = w.scopes.scopes →
      (∀ {id : ConstructId} {c : Construct}, w.scopes.construct? id = some c →
        u.scopes.construct? id = some c) →
      (∀ {id : ConstructId} {c : Construct}, u.scopes.construct? id = some c →
        w.scopes.construct? id = some c ∨ c.arms = []) → u.scopes.Arena := by
    intro hscopes hkept hold
    refine h.of_same hwf.tree hwf'.tree (by rw [hscopes]) (fun scope => ?_) hkept hold
    rw [ScopeTree.get?, hscopes, ScopeTree.get?]
  have hclosed : u.scopes.scopes = w.scopes.scopes → u.scopes.constructs = w.scopes.constructs →
      u.scopes.Arena := by
    intro hscopes hconstructs
    have hconstruct : ∀ id, u.scopes.construct? id = w.scopes.construct? id := fun id => by
      rw [ScopeTree.construct?, hconstructs, ScopeTree.construct?]
    exact hsame hscopes (fun hc => (hconstruct _).trans hc)
      fun hc => Or.inl ((hconstruct _).symm.trans hc)
  cases action with
  | enter kind =>
    exact h.opens hwf.tree hwf'.tree (exec_enter hexec).tree (exec_enter_adds hexec)
      (by simp)
  | openBody kind =>
    exact h.opens hwf.tree hwf'.tree (exec_openBody hexec).tree (exec_openBody_adds hexec)
      (by simp)
  | enterArm kind =>
    obtain ⟨-, c, hc, -, htakes⟩ := hprepared
    refine h.opens hwf.tree hwf'.tree (exec_enterArm hexec).tree (exec_enterArm_adds hexec) ?_
    intro id hid
    cases hid
    exact ⟨c, hc, htakes⟩
  | leave => exact hclosed (closes_of_leave hexec).scopes (closes_of_leave hexec).constructs
  | closeBody => exact hclosed (exec_closeBody hexec).scopes (exec_closeBody hexec).constructs
  | closeConstruct | openGuard _ | closeGuard =>
    cases hexec
    exact hclosed rfl rfl
  | openConstruct kind hasFallback span =>
    cases hexec
    exact hsame rfl (fun hc => ScopeTree.construct?_openConstruct hc kind hasFallback span)
      fun hc => (ScopeTree.construct?_openConstruct_cases hc).imp_right And.right
  | _ => exact (exec_edits hwf.indexed rfl hexec).arena h hwf.tree

/-! ## Finished constructs -/

/-- A construct that is not open any more has all the arms of its statement. -/
def Completed (w : Walk) : Prop :=
  ∀ (id : ConstructId) (c : Construct), w.scopes.construct? id = some c →
    id ∈ w.constructs ∨ c.Complete w.scopes

/-- Constructs that are not open are neither changed nor added. -/
theorem Completed.of_extends (h : w.Completed) (hwf : w.WellFormed)
    (hextends : w.scopes.Extends u.scopes) (hopened : ∀ id ∈ w.constructs, id ∈ u.constructs)
    (hold : ∀ {id : ConstructId} {c : Construct}, u.scopes.construct? id = some c →
      id ∈ u.constructs ∨ w.scopes.construct? id = some c) : u.Completed := by
  intro id c hc
  rcases hold hc with hopen | hc
  · exact Or.inl hopen
  · rcases h id c hc with hopen | ⟨kinds, hkinds, hallows⟩
    · exact Or.inl (hopened id hopen)
    · refine Or.inr ⟨kinds, ?_, hallows⟩
      rw [← hkinds]
      exact List.map_congr_left fun arm harm =>
        hextends.kind? (ScopeTree.lt_of_parent? (hwf.tree.arm hc harm))

/-- An action leaves finished constructs complete, where the one that it closes is. -/
theorem exec_completed (h : w.Completed) (hwf : w.WellFormed) (hprepared : w.Prepared action)
    (hexec : w.exec limits action = .ok u) : u.Completed := by
  have hextends := exec_extends hwf.indexed hexec
  -- most actions change neither the constructs nor which of them are open
  have hsame : u.constructs = w.constructs → u.scopes.constructs = w.scopes.constructs →
      u.Completed := by
    intro hopened hconstructs
    refine h.of_extends hwf hextends (fun id hid => hopened ▸ hid) fun hc => Or.inr ?_
    rw [ScopeTree.construct?, ← hconstructs]
    exact hc
  cases action with
  | enter kind => exact hsame (exec_enter hexec).opened (exec_enter hexec).tree.constructs
  | openBody kind =>
    exact hsame (exec_openBody hexec).opened (exec_openBody hexec).tree.constructs
  | leave => exact hsame (closes_of_leave hexec).opened (closes_of_leave hexec).constructs
  | closeBody => exact hsame (exec_closeBody hexec).opened (exec_closeBody hexec).constructs
  | openGuard _ | closeGuard =>
    cases hexec
    exact hsame rfl rfl
  | enterArm kind =>
    have hopens := exec_enterArm hexec
    refine h.of_extends hwf hextends (fun id hid => hopens.opened ▸ hid) fun {id c} hc => ?_
    -- the construct that gets the arm is open
    rw [hopens.opened]
    rw [hopens.tree.construct?] at hc
    obtain ⟨c', hc', rfl⟩ := Option.map_eq_some_iff.mp hc
    split
    · rename_i heq
      refine Or.inl ?_
      obtain ⟨first, rest, hfirst⟩ := List.exists_cons_of_ne_nil hprepared.1
      rw [hfirst, List.headD_cons, Option.some.injEq] at heq
      rw [hfirst, ← heq]
      exact List.mem_cons_self
    · exact Or.inr hc'
  | openConstruct kind hasFallback span =>
    cases hexec
    refine h.of_extends hwf hextends (fun id hid => List.mem_cons_of_mem _ hid) fun {id c} hc => ?_
    rcases ScopeTree.construct?_openConstruct_cases hc with hc | ⟨rfl, -⟩
    · exact Or.inr hc
    · exact Or.inl List.mem_cons_self
  | closeConstruct =>
    cases hexec
    intro id c hc
    rcases h id c hc with hopen | hcomplete
    · cases hopened : w.constructs with
      | nil =>
        rw [hopened] at hopen
        cases hopen
      | cons first rest =>
        rw [hopened] at hopen
        rcases List.mem_cons.mp hopen with rfl | hopen
        · refine Or.inr (hprepared c ?_)
          rw [hopened]
          exact hc
        · exact Or.inl hopen
    · exact Or.inr hcomplete
  | _ =>
    have hedits := exec_edits hwf.indexed rfl hexec
    exact hsame hedits.opened hedits.constructs

end Walk

/-! ## Recursions that end -/

namespace ScopeTree

/-- The question whether the second scope finalizes a transaction may lead to the first one: it is a
child of that scope or an arm of a construct in it. -/
def LeadsTo (tree : ScopeTree) (inner scope : ScopeId) : Prop :=
  inner ∈ tree.childrenOf scope ∨ ∃ c ∈ tree.constructsOwnedBy scope, inner ∈ c.arms

/-- What follows the parents of a scope, or its blocks and arms, comes to an end, and the bounds
with which this is written cut nothing off: the equations are those of the recursions without
bounds. -/
structure Ends (tree : ScopeTree) : Prop where
  /-- No scope stands in itself, however far one goes. -/
  outwards : WellFounded fun outer scope : ScopeId => tree.parent? scope = some outer
  /-- The chain of parents, without a bound. -/
  ancestors : ∀ scope : ScopeId, tree.ancestors scope =
    scope :: match tree.parent? scope with
      | some outer => tree.ancestors outer
      | none => []
  inwards : WellFounded tree.LeadsTo
  /-- Coverage of scopes and of arms, each in terms of the other and without a bound. -/
  finalizes : ∀ (binding : Binding) (scope : ScopeId), binding.finalizes tree scope =
    (binding.finalizedIn scope || match tree.get? scope with
      | none => false
      | some s =>
        (s.children.any fun child =>
          tree.kind? child == some .block && binding.finalizes tree child) ||
        (tree.constructsOwnedBy scope).any fun c =>
          c.hasFallback && !c.arms.isEmpty && c.arms.all (binding.armOk tree))

variable {tree : ScopeTree}

/-- Blocks and arms have larger indices than the scope that they belong to. -/
theorem Ordered.lt_of_leadsTo (h : tree.Ordered) {inner scope : Nat}
    (hleads : tree.LeadsTo inner scope) : scope < inner ∧ inner < tree.scopes.length := by
  rcases hleads with hchild | ⟨c, hc, harm⟩
  · exact h.child hchild
  · obtain ⟨id, hholds⟩ := mem_constructsOwnedBy_iff.mp hc
    exact h.arm hholds harm

/-- The equation of coverage without its bound. A level of the recursion that is reached at all
belongs to a scope after the first one, so it is enough to look one level less deep. -/
theorem Ordered.finalizes_eq (h : tree.Ordered) (binding : Binding) (scope : ScopeId) :
    binding.finalizes tree scope =
      (binding.finalizedIn scope || match tree.get? scope with
        | none => false
        | some s =>
          (s.children.any fun child =>
            tree.kind? child == some .block && binding.finalizes tree child) ||
          (tree.constructsOwnedBy scope).any fun c =>
            c.hasFallback && !c.arms.isEmpty && c.arms.all (binding.armOk tree)) := by
  -- coverage has no bound, so it takes the place of the bounded test on both sides
  have hinner : ∀ {inner : Nat}, tree.LeadsTo inner scope →
      binding.finalizesWithin tree tree.scopes.length inner = binding.finalizes tree inner := by
    intro inner hleads
    obtain ⟨hlt, hlength⟩ := h.lt_of_leadsTo hleads
    obtain ⟨fuel, hfuel⟩ : ∃ n, tree.scopes.length = n + 1 := ⟨tree.scopes.length - 1, by omega⟩
    rw [Bool.eq_iff_iff, Binding.finalizes_iff_covered h]
    constructor
    · exact Binding.covered_of_finalizesWithin _
    · intro hcovered
      rw [hfuel]
      exact Binding.finalizesWithin_of_covered h hcovered fuel (by omega)
  rw [Binding.finalizes, Binding.finalizesWithin]
  refine congrArg (binding.finalizedIn scope || ·) ?_
  cases hget : tree.get? scope with
  | none => rfl
  | some s =>
    have hchildren : tree.childrenOf scope = s.children := by rw [childrenOf, hget]; rfl
    rw [Bool.eq_iff_iff]
    simp only [Bool.or_eq_true, List.any_eq_true, Bool.and_eq_true, List.all_eq_true,
      Binding.armOk]
    refine or_congr ?_ ?_
    · refine exists_congr fun child => and_congr_right fun hchild => ?_
      rw [hinner (Or.inl (hchildren ▸ hchild))]
    · refine exists_congr fun c => and_congr_right fun hc => and_congr_right fun _ => ?_
      refine forall_congr' fun arm => imp_congr_right fun harm => ?_
      rw [hinner (Or.inr ⟨c, hc, harm⟩)]

/-- In a well-formed tree both recursions end. -/
theorem WellFormed.ends (h : tree.WellFormed) : tree.Ends where
  outwards := Subrelation.wf h.parent Nat.lt_wfRel.wf
  ancestors := h.ancestors_eq
  inwards := by
    -- what is left of the tree after the scope gets smaller
    refine Subrelation.wf ?_ (measure fun scope : Nat => tree.scopes.length - scope).wf
    intro inner scope hleads
    obtain ⟨hlt, hlength⟩ := h.ordered.lt_of_leadsTo hleads
    exact Nat.sub_lt_sub_left (Nat.lt_trans hlt hlength) hlt
  finalizes := h.ordered.finalizes_eq

end ScopeTree

namespace FunctionUnit

variable {limits : Limits} {names : Recognizers} {unit : FunctionUnit} {w : Walk}

/-- At every moment of a walk the parts of the tree agree, and finished constructs are complete. -/
theorem arena_of_run {before rest : List Action} (hactions : unit.actions names = before ++ rest)
    (hrun : Walk.run limits {} before = .ok w) : w.scopes.Arena ∧ w.Completed := by
  refine invariant_of_run (Q := fun u => u.scopes.Arena ∧ u.Completed) hactions hrun
    (fun hwf hwf' hprepared hexec h => ?_) ⟨.empty, fun id c hc => by cases hc⟩
  exact ⟨Walk.exec_arena h.1 hwf hwf' hprepared hexec, Walk.exec_completed h.2 hwf hprepared hexec⟩

/-- Once the walk is done, every construct is complete. -/
theorem complete_of_walk (hwalk : unit.walk limits names = .ok w) {c : Construct}
    (hc : c ∈ w.scopes.constructs) : c.Complete w.scopes := by
  have hrun := run_of_walk hwalk
  obtain ⟨id, hid⟩ := List.mem_iff_getElem?.mp hc
  refine ((arena_of_run (List.append_nil _).symm hrun).2 id c hid).resolve_left fun hopen => ?_
  rw [(walks_of_walk hwalk).balanced.opened] at hopen
  cases hopen

/-- **Scopes agree.** At every moment of the walk of any function the parts of its scope tree agree
with each other, and whatever follows the tree outwards or inwards comes to an end. When the walk is
done, an `if` statement has a branch for its consequence and, exactly where it has an `else`, a
second one for the alternative. -/
theorem scopes_agree (limits : Limits) (names : Recognizers) (unit : FunctionUnit) :
    (∀ {before rest : List Action} {w : Walk}, unit.actions names = before ++ rest →
      Walk.run limits {} before = .ok w → w.scopes.Arena ∧ w.scopes.Ends) ∧
    ∀ {tracked : Tracked}, unit.track limits names = .ok tracked →
      ∀ c ∈ tracked.scopes.constructs, c.kind = .conditional →
        c.arms.map tracked.scopes.kind? =
          some .ifBranch :: if c.hasFallback then [some .elseBranch] else [] := by
  constructor
  · intro before rest w hactions hrun
    have hwf := wellFormed_of_run hactions hrun
    exact ⟨(arena_of_run hactions hrun).1, hwf.tree.ends⟩
  · intro tracked htrack c hc hkind
    obtain ⟨w, hwalk, rfl⟩ := exists_walk_of_track htrack
    obtain ⟨kinds, hkinds, hallows⟩ := complete_of_walk hwalk hc
    rw [hkind] at hallows
    rw [hkinds, show kinds = _ from hallows]
    cases c.hasFallback <;> rfl

/-- A chain of two `if` statements in a loop. -/
def chained : FunctionUnit where
  name := "Chain"
  body := {
    stmts := [
      .forStmt none none none {
        stmts := [.ifStmt {
          init := none
          cond := .ident "first" {}
          consequence := { stmts := [], span := {} }
          otherwise := some (.elseIf {
            init := none
            cond := .ident "second" {}
            consequence := { stmts := [], span := {} }
            otherwise := none
            span := {} })
          span := {} }]
        span := {} } {}]
    span := {} }

/-- The second `if` of that function stands in the alternative of the first one and has one branch
only; all of its scopes are one loop deep. -/
theorem scopes_agree_chained :
    ∃ (w : Walk) (tracked : Tracked) (first second : Construct),
      Walk.run {} {} (chained.actions {}) = .ok w ∧ w.scopes.Arena ∧ w.scopes.Ends ∧
      chained.track {} {} = .ok tracked ∧ tracked.scopes.constructs = [first, second] ∧
      first.kind = .conditional ∧ first.arms = [2, 3] ∧ first.hasFallback = true ∧
      first.arms.map tracked.scopes.kind? = [some .ifBranch, some .elseBranch] ∧
      second.kind = .conditional ∧ second.arms = [4] ∧ second.hasFallback = false ∧
      second.arms.map tracked.scopes.kind? = [some .ifBranch] ∧
      tracked.scopes.ancestors 4 = [4, 3, 1, 0] := by
  have hwalk : ∃ (w : Walk) (tracked : Tracked) (first second : Construct),
      Walk.run {} {} (chained.actions {}) = .ok w ∧
      chained.track {} {} = .ok tracked ∧ tracked.scopes.constructs = [first, second] ∧
      first.kind = .conditional ∧ first.arms = [2, 3] ∧ first.hasFallback = true ∧
      second.kind = .conditional ∧ second.arms = [4] ∧ second.hasFallback = false ∧
      tracked.scopes.ancestors 4 = [4, 3, 1, 0] :=
    ⟨_, _, _, _, rfl, rfl, rfl, rfl, rfl, rfl, rfl, rfl, rfl, rfl⟩
  obtain ⟨w, tracked, first, second, hrun, htrack, hconstructs, hfirst, harms, helse, hsecond,
    harms', helse', hancestors⟩ := hwalk
  obtain ⟨hshape, hbranches⟩ := scopes_agree {} {} chained
  obtain ⟨harena, hends⟩ := hshape (List.append_nil _).symm hrun
  have hone := hbranches htrack first (by rw [hconstructs]; simp) hfirst
  have htwo := hbranches htrack second (by rw [hconstructs]; simp) hsecond
  rw [helse] at hone
  rw [helse'] at htwo
  exact ⟨w, tracked, first, second, hrun, harena, hends, htrack, hconstructs, hfirst, harms, helse,
    hone, hsecond, harms', helse', htwo, hancestors⟩

end FunctionUnit

end TxLifecycle
