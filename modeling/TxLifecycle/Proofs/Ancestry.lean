import TxLifecycle.Proofs.States

/-!
# The scopes around a scope

`ScopeTree.ancestors` follows the parents of a scope by a bounded recursion. A parent has a smaller
index than its child, so the bound never cuts the chain off. This file gives the chain without its
bound:

* `ScopeTree.WellFormed.ancestors_eq`: the equation of the unbounded recursion;
* `ScopeTree.WellFormed.ancestors_suffix`: the chain from a scope of the chain is what is left of
  it;
* `ScopeTree.WellFormed.stack_eq`: the open scopes are the chain from the current one;
* `ScopeTree.WellFormed.commonAncestor_spec`: the nearest scope around two scopes lies inside every
  other one around both;
* `ScopeTree.ancestors_congr`: the chain rests on the parents of its scopes only, so scopes that are
  opened later do not change it;
* `Walk.exec_extends`: running an action makes the tree grow at most, so the chains stay.
-/

namespace TxLifecycle

namespace ScopeTree

variable {tree tree' : ScopeTree} {scope outer : Nat} {a b c : ScopeId}

/-- Every scope belongs to its own chain. -/
@[simp]
theorem self_mem_ancestors (tree : ScopeTree) (scope : ScopeId) : scope ∈ tree.ancestors scope := by
  simp [ancestors, parentChain]

/-- The test for scopes around a scope, as membership. -/
theorem isAncestor_iff : tree.isAncestor a b = true ↔ a ∈ tree.ancestors b := by
  simp [isAncestor]

namespace WellFormed

section

variable (h : tree.WellFormed)
include h

/-- A bound above the index of the scope cuts nothing off. -/
theorem parentChain_eq {fuel : Nat} (hfuel : scope < fuel) :
    tree.parentChain fuel scope = tree.ancestors scope := by
  induction scope using Nat.strongRecOn generalizing fuel with
  | ind scope ih =>
    obtain ⟨fuel, rfl⟩ : ∃ n, fuel = n + 1 := ⟨fuel - 1, by omega⟩
    rw [ancestors, parentChain, parentChain]
    cases hparent : tree.parent? scope with
    | none => rfl
    | some outer =>
      have hlt := h.parent hparent
      simp only
      rw [ih outer hlt (Nat.lt_of_lt_of_le hlt (Nat.lt_succ_iff.mp hfuel)), ih outer hlt hlt]

/-- The chain from a scope is the scope and the chain from its parent. -/
theorem ancestors_eq (scope : ScopeId) :
    tree.ancestors scope = scope :: match tree.parent? scope with
      | some outer => tree.ancestors outer
      | none => [] := by
  rw [ancestors, parentChain]
  cases hparent : tree.parent? scope with
  | none => rfl
  | some outer => simp only [h.parentChain_eq (h.parent hparent)]

/-- The chain from a scope that stands in another one. -/
theorem ancestors_of_parent (hparent : tree.parent? scope = some outer) :
    tree.ancestors scope = scope :: tree.ancestors outer := by
  rw [h.ancestors_eq, hparent]

/-- The chain from a scope that stands in no other one. -/
theorem ancestors_of_root (hparent : tree.parent? scope = none) :
    tree.ancestors scope = [scope] := by
  rw [h.ancestors_eq, hparent]

/-- Scopes around a scope have smaller indices. -/
theorem le_of_mem_ancestors {a : Nat} (ha : a ∈ tree.ancestors scope) : a ≤ scope := by
  induction scope using Nat.strongRecOn with
  | ind scope ih =>
    cases hparent : tree.parent? scope with
    | none =>
      rw [h.ancestors_of_root hparent] at ha
      exact Nat.le_of_eq (List.mem_singleton.mp ha)
    | some outer =>
      have hlt := h.parent hparent
      rw [h.ancestors_of_parent hparent] at ha
      rcases List.mem_cons.mp ha with rfl | ha
      · exact Nat.le_refl _
      · exact Nat.le_trans (ih outer hlt ha) (Nat.le_of_lt hlt)

end

variable {rest : List ScopeId} (h : tree.WellFormed)
include h

/-- What is left of a chain from some scope on is the chain from that scope. -/
theorem ancestors_of_append {before : List ScopeId}
    (hsplit : tree.ancestors scope = before ++ a :: rest) : tree.ancestors a = a :: rest := by
  -- each scope that is cut off is one step to the parent
  induction before generalizing scope with
  | nil =>
    have hhead := hsplit
    rw [h.ancestors_eq] at hhead
    obtain rfl : scope = a := (List.cons.inj hhead).1
    exact hsplit
  | cons first before ih =>
    cases hparent : tree.parent? scope with
    | none =>
      rw [h.ancestors_of_root hparent] at hsplit
      simp at hsplit
    | some outer =>
      rw [h.ancestors_of_parent hparent] at hsplit
      exact ih (List.cons.inj hsplit).2

/-- The chain from a scope of a chain is what is left of it. -/
theorem ancestors_suffix (ha : a ∈ tree.ancestors scope) :
    tree.ancestors a <:+ tree.ancestors scope := by
  obtain ⟨before, rest, hsplit⟩ := List.append_of_mem ha
  rw [h.ancestors_of_append hsplit, hsplit]
  exact List.suffix_append _ _

/-- A scope around a scope around a third one is around that one. -/
theorem mem_ancestors_trans (ha : a ∈ tree.ancestors b) (hb : b ∈ tree.ancestors c) :
    a ∈ tree.ancestors c :=
  (h.ancestors_suffix hb).subset ha

/-- A path to the function's own scope is the chain from its first scope. -/
theorem ancestors_of_isPath (hpath : tree.IsPath (scope :: rest)) :
    tree.ancestors scope = scope :: rest := by
  induction rest generalizing scope with
  | nil =>
    obtain rfl : scope = ScopeTree.root := hpath
    obtain ⟨s, hget, hnone⟩ := h.root
    exact h.ancestors_of_root (by rw [parent?, hget, Option.bind_some, hnone])
  | cons outer rest ih => rw [h.ancestors_of_parent hpath.1, ih hpath.2]

/-- The open scopes are the current one and those around it. -/
theorem stack_eq : tree.stack = tree.ancestors tree.current := by
  have hpath := h.stack
  unfold current
  cases hs : tree.stack with
  | nil =>
    rw [hs] at hpath
    exact hpath.elim
  | cons scope rest =>
    rw [hs] at hpath
    rw [List.headD_cons, h.ancestors_of_isPath hpath]

/-- The nearest scope around two scopes that have one: it is around both, and inside all others that
are. -/
theorem commonAncestor_spec (ha : c ∈ tree.ancestors a) (hb : c ∈ tree.ancestors b) :
    tree.commonAncestor a b ∈ tree.ancestors a ∧ tree.commonAncestor a b ∈ tree.ancestors b ∧
      c ∈ tree.ancestors (tree.commonAncestor a b) := by
  rw [commonAncestor]
  cases hfind : (tree.ancestors a).find? (tree.isAncestor · b) with
  | none => exact absurd (isAncestor_iff.mpr hb) (List.find?_eq_none.mp hfind c ha)
  | some d =>
    obtain ⟨hd, before, rest, hsplit, hbefore⟩ := List.find?_eq_some_iff_append.mp hfind
    rw [Option.getD_some]
    refine ⟨by simp [hsplit], isAncestor_iff.mp hd, ?_⟩
    rw [h.ancestors_of_append hsplit]
    -- the scopes before the first one that is around both are not, so `c` comes later
    rw [hsplit, List.mem_append] at ha
    refine ha.resolve_left fun hmem => ?_
    have hfalse := hbefore c hmem
    rw [isAncestor_iff.mpr hb] at hfalse
    cases hfalse

/-- A path that does not stop at a scope goes on at the scope around it. -/
theorem pathBelow_of_parent {stop : ScopeId} (hparent : tree.parent? scope = some outer)
    (hne : stop ≠ scope) : tree.pathBelow scope stop = scope :: tree.pathBelow outer stop := by
  rw [pathBelow, h.ancestors_of_parent hparent, List.takeWhile_cons_of_pos, pathBelow]
  simpa only [bne_iff_ne] using hne.symm

/-- The scopes around a scope are those below some scope around it and those around that one. -/
theorem pathBelow_append {stop : ScopeId} (hstop : stop ∈ tree.ancestors scope) :
    tree.pathBelow scope stop ++ tree.ancestors stop = tree.ancestors scope := by
  induction scope using Nat.strongRecOn with
  | ind scope ih =>
    by_cases heq : stop = scope
    · rw [heq, pathBelow, h.ancestors_eq, List.takeWhile_cons_of_neg (by simp)]
      rfl
    cases hparent : tree.parent? scope with
    | none =>
      rw [h.ancestors_of_root hparent] at hstop
      exact absurd (List.mem_singleton.mp hstop) heq
    | some outer =>
      rw [h.ancestors_of_parent hparent] at hstop ⊢
      have houter := (List.mem_cons.mp hstop).resolve_left heq
      rw [h.pathBelow_of_parent hparent heq, List.cons_append, ih outer (h.parent hparent) houter]

end WellFormed

/-- Trees in which the scopes up to an index have the same parents have the same chain from it. -/
theorem ancestors_congr (h : tree.WellFormed)
    (hsame : ∀ s : Nat, s ≤ scope → tree'.parent? s = tree.parent? s) :
    tree'.ancestors scope = tree.ancestors scope := by
  -- parents have smaller indices, so the chain never leaves the part that is the same
  have hchain : ∀ (fuel s : Nat), s ≤ scope →
      tree'.parentChain fuel s = tree.parentChain fuel s := by
    intro fuel
    induction fuel with
    | zero => exact fun _ _ => rfl
    | succ fuel ih =>
      intro s hs
      rw [parentChain, parentChain, hsame s hs]
      cases hparent : tree.parent? s with
      | none => rfl
      | some outer =>
        simp only
        rw [ih outer (Nat.le_trans (Nat.le_of_lt (h.parent hparent)) hs)]
  exact hchain _ scope (Nat.le_refl _)

end ScopeTree

variable {action : Action}

/-- An edit keeps the chains from all scopes. -/
theorem Walk.Edits.ancestors {w v v' : Walk} {e : Bool} (hedits : w.Edits action e v v')
    (h : v.scopes.WellFormed) (scope : ScopeId) :
    v'.scopes.ancestors scope = v.scopes.ancestors scope :=
  ScopeTree.ancestors_congr h fun s _ => hedits.parent? s

/-! ## Growing trees -/

/-- The scopes of the first tree are in the second one, with their kinds and under the same
parents. -/
structure ScopeTree.Extends (tree tree' : ScopeTree) : Prop where
  length : tree.scopes.length ≤ tree'.scopes.length
  parent? : ∀ {scope : Nat}, scope < tree.scopes.length → tree'.parent? scope = tree.parent? scope
  kind? : ∀ {scope : Nat}, scope < tree.scopes.length → tree'.kind? scope = tree.kind? scope

namespace ScopeTree.Extends

variable {tree tree' tree'' : ScopeTree}

theorem refl (tree : ScopeTree) : tree.Extends tree :=
  ⟨Nat.le_refl _, fun _ => rfl, fun _ => rfl⟩

theorem trans (h : tree.Extends tree') (h' : tree'.Extends tree'') : tree.Extends tree'' where
  length := Nat.le_trans h.length h'.length
  parent? := fun hlt => (h'.parent? (Nat.lt_of_lt_of_le hlt h.length)).trans (h.parent? hlt)
  kind? := fun hlt => (h'.kind? (Nat.lt_of_lt_of_le hlt h.length)).trans (h.kind? hlt)

/-- The chains from the scopes of the first tree stay. -/
theorem ancestors (h : tree.Extends tree') (hwf : tree.WellFormed) {scope : Nat}
    (hlt : scope < tree.scopes.length) : tree'.ancestors scope = tree.ancestors scope :=
  ancestors_congr hwf fun _ hle => h.parent? (Nat.lt_of_le_of_lt hle hlt)

end ScopeTree.Extends

/-- Opening a scope makes the tree grow. -/
theorem ScopeTree.Opens.grows {tree tree' : ScopeTree} {kind : ScopeKind}
    {arm? : Option ConstructId} (h : tree.Opens kind arm? tree') : tree.Extends tree' where
  length := by rw [h.length]; exact Nat.le_succ _
  parent? := fun hlt => h.parent?_old hlt
  kind? := fun hlt => h.kind?_old hlt

/-- Running an action never removes a scope. -/
theorem Walk.exec_extends {limits : Limits} {w u : Walk} (hindexed : w.Indexed)
    (hexec : w.exec limits action = .ok u) : w.scopes.Extends u.scopes := by
  -- leaving a scope and registering a construct keep the list of scopes itself
  have hsame : u.scopes.scopes = w.scopes.scopes → w.scopes.Extends u.scopes := by
    intro heq
    refine ⟨Nat.le_of_eq (by rw [heq]), fun _ => ?_, fun _ => ?_⟩
    · rw [ScopeTree.parent?, ScopeTree.get?, heq, ScopeTree.parent?, ScopeTree.get?]
    · rw [ScopeTree.kind?, ScopeTree.get?, heq, ScopeTree.kind?, ScopeTree.get?]
  cases exec_moves hindexed hexec with
  | opens hopens => exact hopens.tree.grows
  | closes hcloses => exact hsame hcloses.scopes
  | edits hedits =>
    exact ⟨Nat.le_of_eq hedits.length.symm, fun _ => hedits.parent? _, fun _ => hedits.kind? _⟩
  | stays hscopes _ _ _ => exact hsame hscopes

/-! ## New scopes -/

/-- The last scope of the second tree is a new one in the current scope of the first: it has its
place, its kind, its loops and the construct of which it is an arm, and nothing else. -/
def ScopeTree.Adds (tree : ScopeTree) (kind : ScopeKind) (arm? : Option ConstructId)
    (tree' : ScopeTree) : Prop :=
  ∃ outer, tree.get? tree.current = some outer ∧ tree'.get? tree.scopes.length = some
    { parent := some tree.current, kind, armOf := arm?
      loopDepth := outer.loopDepth + if kind = .loopBody then 1 else 0 }

namespace ScopeTree

variable {tree tree' : ScopeTree} {kind : ScopeKind} {id : ScopeId}

theorem adds_of_push (h : tree.push kind = .ok (id, tree')) : tree.Adds kind none tree' := by
  unfold push at h
  split at h
  · cases h
  · rename_i outer houter
    cases h
    exact ⟨outer, houter, by simp [get?]⟩

theorem adds_of_pushArm {construct : ConstructId}
    (h : tree.pushArm kind construct = .ok (id, tree')) :
    tree.Adds kind (some construct) tree' := by
  obtain ⟨⟨n, pushed⟩, hpush, h⟩ := bind_eq_ok.mp h
  obtain ⟨marked, hmark, h⟩ := bind_eq_ok.mp h
  cases h
  obtain ⟨rfl, -⟩ := opens_of_push hpush
  obtain ⟨outer, houter, hfresh⟩ := adds_of_push hpush
  obtain ⟨-, rfl⟩ := of_modify hmark
  refine ⟨outer, houter, ?_⟩
  rw [get?] at hfresh
  rw [get?, List.getElem?_modify, hfresh]
  simp

end ScopeTree

namespace Walk

variable {limits : Limits} {w u : Walk} {kind : ScopeKind}

/-- Running the action that opens a scope. -/
theorem exec_enter_adds (h : w.exec limits (.enter kind) = .ok u) :
    w.scopes.Adds kind none u.scopes := by
  obtain ⟨id, tree, hpush, rfl⟩ := of_exec_enter h
  exact ScopeTree.adds_of_push hpush

/-- Running the action that opens an arm. -/
theorem exec_enterArm_adds (h : w.exec limits (.enterArm kind) = .ok u) :
    w.scopes.Adds kind (some (w.constructs.headD 0)) u.scopes := by
  obtain ⟨id, tree, hpush, rfl⟩ := of_exec_enterArm h
  exact ScopeTree.adds_of_pushArm hpush

/-- Running the action that opens a body. -/
theorem exec_openBody_adds {kind : BodyKind} (h : w.exec limits (.openBody kind) = .ok u) :
    w.scopes.Adds kind.scopeKind none u.scopes := by
  obtain ⟨id, tree, hpush, rfl⟩ := of_exec_openBody h
  exact ScopeTree.adds_of_push hpush

end Walk

end TxLifecycle
