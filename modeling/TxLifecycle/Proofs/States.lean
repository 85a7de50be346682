import TxLifecycle.Proofs.Coverage
import TxLifecycle.Proofs.Effects

/-!
# The states of a walk

The first part describes the actions that open and close a scope, `Walk.Opens` and `Walk.Closes`.
The second one says what holds of a walk at every moment:

* `ScopeTree.WellFormed`: scopes stand in earlier ones, children and arms stand where their scope
  or construct says, and the open scopes are a path to the function's own scope;
* `Walk.WellFormed`: in addition every binding knows its position in the table, and all that the
  walk holds on to is there.

`Walk.WellFormed.exec` shows that running an action keeps a walk well formed. The one condition is
that an arm is opened where its construct stands, which is a matter of the structure of the code.
-/

namespace TxLifecycle

/-! ## Opening and closing scopes -/

namespace ScopeTree

/-- A scope of the given kind is opened in the current one, as an arm of a construct or as none. -/
structure Opens (tree : ScopeTree) (kind : ScopeKind) (arm? : Option ConstructId)
    (tree' : ScopeTree) : Prop where
  stack : tree'.stack = tree.scopes.length :: tree.stack
  length : tree'.scopes.length = tree.scopes.length + 1
  fresh : ∃ s, tree'.get? tree.scopes.length = some s ∧ s.parent = some tree.current ∧
    s.kind = kind ∧ s.children = [] ∧ s.terminated = false
  /-- It becomes a child of the scope that was the current one. -/
  old : ∀ {scope : Nat}, scope < tree.scopes.length →
    tree'.get? scope = (tree.get? scope).map fun s =>
      if scope = tree.current then { s with children := s.children ++ [tree.scopes.length] } else s
  /-- It becomes the last arm of the construct. -/
  constructs : tree'.constructs = match arm? with
    | none => tree.constructs
    | some id => tree.constructs.modify id fun c =>
        { c with arms := c.arms ++ [tree.scopes.length] }

variable {id : ScopeId} {kind : ScopeKind}

theorem opens_of_push {tree tree' : ScopeTree} (h : tree.push kind = .ok (id, tree')) :
    id = tree.scopes.length ∧ tree.Opens kind none tree' := by
  unfold push at h
  split at h
  · cases h
  · cases h
    refine ⟨rfl, rfl, by simp, ?_, ?_, rfl⟩
    · exact ⟨_, by simp [get?]; rfl, rfl, rfl, rfl, rfl⟩
    · intro scope hlt
      rw [get?, List.getElem?_append_left (by simpa using hlt), List.getElem?_modify, get?]
      simp only [eq_comm]
      rfl

theorem opens_of_pushArm {tree tree' : ScopeTree} {construct : ConstructId}
    (h : tree.pushArm kind construct = .ok (id, tree')) :
    tree.Opens kind (some construct) tree' := by
  obtain ⟨⟨n, pushed⟩, hpush, h⟩ := bind_eq_ok.mp h
  obtain ⟨marked, hmark, h⟩ := bind_eq_ok.mp h
  obtain ⟨rfl, hopens⟩ := opens_of_push hpush
  obtain ⟨-, rfl⟩ := of_modify hmark
  cases h
  obtain ⟨s, hget, hparent, hkind, hchildren, hterminated⟩ := hopens.fresh
  refine ⟨hopens.stack, by simpa using hopens.length, ?_, ?_, ?_⟩
  · refine ⟨{ s with armOf := some construct }, ?_, hparent, hkind, hchildren, hterminated⟩
    rw [get?, List.getElem?_modify, ← get?, hget]
    simp
  · intro scope hlt
    have hne : tree.scopes.length ≠ scope := by omega
    simp only [get?, List.getElem?_modify_ne _ _ hne]
    exact hopens.old hlt
  · simp [hopens.constructs]

namespace Opens

variable {tree tree' : ScopeTree} {kind : ScopeKind} {arm? : Option ConstructId} {scope : Nat}
  (h : tree.Opens kind arm? tree')
include h

/-- The new scope is the current one. -/
theorem current : tree'.current = tree.scopes.length := by
  rw [ScopeTree.current, h.stack, List.headD_cons]

theorem parent?_fresh : tree'.parent? tree.scopes.length = some tree.current := by
  obtain ⟨s, hget, hparent, -⟩ := h.fresh
  rw [parent?, hget, Option.bind_some, hparent]

theorem kind?_fresh : tree'.kind? tree.scopes.length = some kind := by
  obtain ⟨s, hget, -, hkind, -⟩ := h.fresh
  rw [kind?, hget, Option.map_some, hkind]

theorem childrenOf_fresh : tree'.childrenOf tree.scopes.length = [] := by
  obtain ⟨s, hget, -, -, hchildren, -⟩ := h.fresh
  rw [childrenOf, hget, Option.map_some, Option.getD_some, hchildren]

/-- Nothing has left the function in the new scope. -/
theorem not_terminated_fresh : ¬ tree'.Terminated tree.scopes.length := by
  obtain ⟨s, hget, -, -, -, hterminated⟩ := h.fresh
  rw [Terminated, hget, Option.any_some, hterminated]
  exact Bool.false_ne_true

section

variable (hlt : scope < tree.scopes.length)
include hlt

theorem parent?_old : tree'.parent? scope = tree.parent? scope := by
  rw [parent?, h.old hlt, parent?]
  cases tree.get? scope with
  | none => rfl
  | some s =>
    simp only [Option.map_some, Option.bind_some]
    split <;> rfl

theorem kind?_old : tree'.kind? scope = tree.kind? scope := by
  rw [kind?, h.old hlt, kind?]
  cases tree.get? scope with
  | none => rfl
  | some s =>
    simp only [Option.map_some]
    split <;> rfl

/-- Whether control leaves the function in any other scope. -/
theorem terminated_old : tree'.Terminated scope ↔ tree.Terminated scope := by
  rw [Terminated, h.old hlt, Terminated]
  cases tree.get? scope with
  | none => rfl
  | some s =>
    simp only [Option.map_some, Option.any_some]
    split <;> rfl

/-- The children of any other scope: the current one gets the new scope. -/
theorem childrenOf_old :
    tree'.childrenOf scope =
      tree.childrenOf scope ++ if scope = tree.current then [tree.scopes.length] else [] := by
  rw [childrenOf, h.old hlt, childrenOf, get?, List.getElem?_eq_getElem hlt]
  simp only [Option.map_some, Option.getD_some]
  split <;> simp

end

/-- A construct keeps all but its arms, of which one may be new. -/
theorem construct? (id : ConstructId) :
    tree'.construct? id = (tree.construct? id).map fun c =>
      if arm? = some id then { c with arms := c.arms ++ [tree.scopes.length] } else c := by
  have hconstructs := h.constructs
  cases arm? with
  | none => simp [ScopeTree.construct?, hconstructs]
  | some k =>
    simp only [ScopeTree.construct?, hconstructs, List.getElem?_modify, Option.some.injEq]
    rfl

end Opens

end ScopeTree

namespace Walk

/-- A scope opens and nothing happens to the table; a body has surroundings of its own. -/
structure Opens (w : Walk) (kind : ScopeKind) (arm? : Option ConstructId) (context : Context)
    (outer : List Context) (u : Walk) : Prop where
  tree : w.scopes.Opens kind arm? u.scopes
  bindings : u.bindings = w.bindings
  opened : u.constructs = w.constructs
  context_eq : u.context = context
  /-- The surroundings of the bodies around it. -/
  outer_eq : u.outer = outer

variable {limits : Limits} {w u : Walk} {action : Action} {kind : ScopeKind}

theorem of_enter {id : ScopeId} (h : w.enter limits kind = .ok (id, u)) :
    ∃ tree, w.scopes.push kind = .ok (id, tree) ∧ u = w.setScopes tree := by
  unfold enter at h
  split at h
  · cases h
  · split at h
    · cases h
    · rename_i n tree hpush
      cases h
      exact ⟨tree, hpush, rfl⟩

/-! An action that opens a scope changes the scopes, and nothing else but the surroundings of a
body. -/

theorem of_exec_enter (h : w.exec limits (.enter kind) = .ok u) :
    ∃ id tree, w.scopes.push kind = .ok (id, tree) ∧ u = w.setScopes tree := by
  rw [exec] at h
  cases henter : w.enter limits kind with
  | error e =>
    rw [henter] at h
    cases h
  | ok result =>
    rw [henter] at h
    cases h
    exact ⟨_, of_enter henter⟩

theorem of_exec_enterArm (h : w.exec limits (.enterArm kind) = .ok u) :
    ∃ id tree, w.scopes.pushArm kind (w.constructs.headD 0) = .ok (id, tree) ∧
      u = w.setScopes tree := by
  rw [exec, enterArm] at h
  split at h
  · cases h
  · split at h
    · cases h
    · rename_i n tree hpush
      cases h
      exact ⟨n, tree, hpush, rfl⟩

theorem of_exec_openBody {kind : BodyKind} (h : w.exec limits (.openBody kind) = .ok u) :
    ∃ id tree, w.scopes.push kind.scopeKind = .ok (id, tree) ∧
      u = { w.setScopes tree with
        context := w.context.enterBody kind w.scopes.current id
        outer := w.context :: w.outer } := by
  rw [exec, openBody] at h
  split at h
  · cases h
  · rename_i inner v henter
    obtain ⟨tree, hpush, rfl⟩ := of_enter henter
    cases h
    exact ⟨inner, tree, hpush, rfl⟩

/-- Running the action that opens a scope. -/
theorem exec_enter (h : w.exec limits (.enter kind) = .ok u) :
    w.Opens kind none w.context w.outer u := by
  obtain ⟨id, tree, hpush, rfl⟩ := of_exec_enter h
  exact ⟨(ScopeTree.opens_of_push hpush).2, rfl, rfl, rfl, rfl⟩

/-- Running the action that opens an arm. -/
theorem exec_enterArm (h : w.exec limits (.enterArm kind) = .ok u) :
    w.Opens kind (some (w.constructs.headD 0)) w.context w.outer u := by
  obtain ⟨id, tree, hpush, rfl⟩ := of_exec_enterArm h
  exact ⟨ScopeTree.opens_of_pushArm hpush, rfl, rfl, rfl, rfl⟩

/-- Running the action that opens a body. -/
theorem exec_openBody {kind : BodyKind} (h : w.exec limits (.openBody kind) = .ok u) :
    w.Opens kind.scopeKind none
      (w.context.enterBody kind w.scopes.current w.scopes.scopes.length)
      (w.context :: w.outer) u := by
  obtain ⟨id, tree, hpush, rfl⟩ := of_exec_openBody h
  obtain ⟨rfl, hopens⟩ := ScopeTree.opens_of_push hpush
  exact ⟨hopens, rfl, rfl, rfl, rfl⟩

/-- The current scope closes and nothing happens to the scopes and the table. -/
structure Closes (w : Walk) (context : Context) (outer : List Context) (u : Walk) : Prop where
  /-- The open scopes around the current one stay. -/
  stack : ∃ id, w.scopes.stack = id :: u.scopes.stack
  nonempty : u.scopes.stack ≠ []
  scopes : u.scopes.scopes = w.scopes.scopes
  constructs : u.scopes.constructs = w.scopes.constructs
  bindings : u.bindings = w.bindings
  opened : u.constructs = w.constructs
  /-- The surroundings of the code that follows. -/
  context_eq : u.context = context
  /-- The surroundings of the bodies around it. -/
  outer_eq : u.outer = outer

theorem closes_of_leave (h : w.leave = .ok u) : w.Closes w.context w.outer u := by
  unfold leave ScopeTree.pop at h
  split at h
  · cases h
  · rename_i id tree hpop
    split at hpop
    · rename_i top next rest hstack
      cases hpop
      cases h
      exact ⟨⟨_, hstack⟩, List.cons_ne_nil _ _, rfl, rfl, rfl, rfl, rfl, rfl⟩
    · cases hpop

/-- Running the action that closes a body. -/
theorem exec_closeBody (h : w.exec limits .closeBody = .ok u) :
    w.Closes (w.outer.headD w.context) w.outer.tail u := by
  rw [exec, closeBody] at h
  exact { closes_of_leave h with }

/-- Running one action and then others. -/
theorem run_cons_eq_ok {rest : List Action} :
    w.run limits (action :: rest) = .ok u ↔
      ∃ v, w.exec limits action = .ok v ∧ v.run limits rest = .ok u := by
  rw [run_cons, bind_eq_ok]

/-- Running some actions and then others. -/
theorem run_append_eq_ok {first second : List Action} :
    w.run limits (first ++ second) = .ok u ↔
      ∃ v, w.run limits first = .ok v ∧ v.run limits second = .ok u := by
  rw [run_append, bind_eq_ok]

theorem run_single (h : w.exec limits action = .ok u) : w.run limits [action] = .ok u :=
  run_cons_eq_ok.mpr ⟨u, h, rfl⟩

/-- Running actions between two others. -/
theorem run_bracket_eq_ok {first last : Action} {between : List Action} :
    w.run limits (first :: between ++ [last]) = .ok u ↔
      ∃ v v', w.exec limits first = .ok v ∧ v.run limits between = .ok v' ∧
        v'.exec limits last = .ok u := by
  constructor
  · intro h
    obtain ⟨v, hfirst, h⟩ := run_cons_eq_ok.mp h
    obtain ⟨v', hbetween, h⟩ := run_append_eq_ok.mp h
    obtain ⟨u', hlast, h⟩ := run_cons_eq_ok.mp h
    cases h
    exact ⟨v, v', hfirst, hbetween, hlast⟩
  · rintro ⟨v, v', hfirst, hbetween, hlast⟩
    exact run_cons_eq_ok.mpr ⟨v, hfirst, run_append_eq_ok.mpr ⟨v', hbetween, run_single hlast⟩⟩

theorem run_then {first second : List Action} (h : w.run limits first = .ok v)
    (h' : v.run limits second = .ok u) : w.run limits (first ++ second) = .ok u :=
  run_append_eq_ok.mpr ⟨v, h, h'⟩

/-- What every action keeps holds at the end of a run. -/
theorem run_preserves {P : Walk → Prop} {actions : List Action}
    (hstep : ∀ {u v : Walk}, ∀ action ∈ actions, u.exec limits action = .ok v → P u → P v)
    (h : w.run limits actions = .ok u) (hw : P w) : P u := by
  induction actions generalizing w with
  | nil =>
    cases h
    exact hw
  | cons action rest ih =>
    obtain ⟨v, hexec, h⟩ := run_cons_eq_ok.mp h
    exact ih (fun a ha => hstep a (List.mem_cons_of_mem _ ha)) h
      (hstep action List.mem_cons_self hexec hw)

end Walk

/-! ## Well-formed states -/

namespace ScopeTree

/-- The list leads from its first scope through parents to the function's own scope. -/
def IsPath (tree : ScopeTree) : List ScopeId → Prop
  | [] => False
  | [scope] => scope = root
  | scope :: outer :: rest => tree.parent? scope = some outer ∧ tree.IsPath (outer :: rest)

/-- What holds of the scopes of a function at every moment. -/
structure WellFormed (tree : ScopeTree) : Prop where
  /-- The function's own scope is there and stands in no other one. -/
  root : ∃ s, tree.get? ScopeTree.root = some s ∧ s.parent = none
  /-- Every other scope stands in an earlier one. -/
  parent : ∀ {scope outer : Nat}, tree.parent? scope = some outer → outer < scope
  /-- The children of a scope stand in it. -/
  child : ∀ {scope child : Nat}, child ∈ tree.childrenOf scope → tree.parent? child = some scope
  owner : ∀ {id : ConstructId} {c : Construct}, tree.construct? id = some c →
    c.owner < tree.scopes.length
  /-- The arms of a construct stand in the same scope. -/
  arm : ∀ {id : ConstructId} {c : Construct} {arm : Nat}, tree.construct? id = some c →
    arm ∈ c.arms → tree.parent? arm = some c.owner
  /-- The open scopes are the current one and those around it. -/
  stack : tree.IsPath tree.stack

variable {tree tree' : ScopeTree} {path : List ScopeId} {scope : ScopeId}

/-- A scope that stands in another one is there. -/
theorem lt_of_parent? {scope outer : Nat} (h : tree.parent? scope = some outer) :
    scope < tree.scopes.length := by
  obtain ⟨s, hget, -⟩ := Option.bind_eq_some_iff.mp h
  exact (List.getElem?_eq_some_iff.mp hget).1

/-- Only scopes of the tree are terminated. -/
theorem Terminated.lt (h : tree.Terminated scope) : scope < tree.scopes.length := by
  refine Nat.lt_of_not_le fun hge => ?_
  rw [Terminated, get?, List.getElem?_eq_none hge] at h
  cases h

namespace Opens

variable {kind : ScopeKind} {arm? : Option ConstructId} {scope child : Nat} {outer : ScopeId}
  (h : tree.Opens kind arm? tree')
include h

/-- A scope of the new tree is an old one or the new one. -/
theorem parent?_cases (hp : tree'.parent? scope = some outer) :
    tree.parent? scope = some outer ∨ (scope = tree.scopes.length ∧ outer = tree.current) := by
  have hlt := lt_of_parent? hp
  rw [h.length] at hlt
  rcases Nat.lt_or_ge scope tree.scopes.length with hold | hnew
  · rw [h.parent?_old hold] at hp
    exact Or.inl hp
  · obtain rfl : scope = tree.scopes.length := by omega
    rw [h.parent?_fresh, Option.some.injEq] at hp
    exact Or.inr ⟨rfl, hp.symm⟩

/-- A scope that stood in another one still does. -/
theorem parent?_keep (hp : tree.parent? scope = some outer) : tree'.parent? scope = some outer := by
  rw [h.parent?_old (lt_of_parent? hp), hp]

/-- A child of the new tree is an old one, or the new scope in the one that was the current one. -/
theorem childrenOf_cases (hmem : child ∈ tree'.childrenOf scope) :
    child ∈ tree.childrenOf scope ∨ (child = tree.scopes.length ∧ scope = tree.current) := by
  rcases Nat.lt_trichotomy scope tree.scopes.length with hold | rfl | hnone
  · rw [h.childrenOf_old hold, List.mem_append] at hmem
    rcases hmem with hmem | hmem
    · exact Or.inl hmem
    · split at hmem
      · rename_i hcurrent
        exact Or.inr ⟨List.mem_singleton.mp hmem, hcurrent⟩
      · cases hmem
  · rw [h.childrenOf_fresh] at hmem
    cases hmem
  · rw [childrenOf, get?, List.getElem?_eq_none (by rw [h.length]; exact hnone)] at hmem
    cases hmem

end Opens

/-- A path is one in any tree in which its scopes have the same parents. -/
theorem IsPath.congr (h : tree.IsPath path)
    (hparent : ∀ scope ∈ path, tree'.parent? scope = tree.parent? scope) : tree'.IsPath path := by
  induction path with
  | nil => exact h
  | cons scope rest ih =>
    cases rest with
    | nil => exact h
    | cons outer rest =>
      refine ⟨?_, ih h.2 fun t ht => hparent t (List.mem_cons_of_mem _ ht)⟩
      rw [hparent scope (by simp)]
      exact h.1

/-- The rest of a path, where there is one, is a path. -/
theorem IsPath.tail {rest : List ScopeId} (h : tree.IsPath (scope :: rest)) (hrest : rest ≠ []) :
    tree.IsPath rest := by
  cases rest with
  | nil => exact absurd rfl hrest
  | cons outer rest => exact h.2

theorem IsPath.lt (h : tree.IsPath path) (hroot : ∃ s, tree.get? root = some s ∧ s.parent = none) :
    ∀ scope ∈ path, scope < tree.scopes.length := by
  obtain ⟨s, hget, -⟩ := hroot
  have hlt : (root : Nat) < tree.scopes.length := (List.getElem?_eq_some_iff.mp hget).1
  induction path with
  | nil => simp
  | cons scope rest ih =>
    cases rest with
    | nil =>
      intro t ht
      obtain rfl := List.mem_singleton.mp ht
      exact (show t = root from h) ▸ hlt
    | cons outer rest =>
      intro t ht
      rcases List.mem_cons.mp ht with rfl | ht
      · exact lt_of_parent? h.1
      · exact ih h.2 t ht

/-- A path holds the parents of its scopes. -/
theorem IsPath.parent_mem (h : tree.IsPath path)
    (hroot : ∃ s, tree.get? root = some s ∧ s.parent = none) {scope outer : Nat}
    (hscope : scope ∈ path) (hparent : tree.parent? scope = some outer) : outer ∈ path := by
  obtain ⟨s, hget, hnone⟩ := hroot
  induction path with
  | nil => cases hscope
  | cons first rest ih =>
    cases rest with
    | nil =>
      obtain rfl := List.mem_singleton.mp hscope
      rw [show scope = root from h, parent?, hget, Option.bind_some, hnone] at hparent
      cases hparent
    | cons second rest =>
      rcases List.mem_cons.mp hscope with rfl | hscope
      · rw [h.1, Option.some.injEq] at hparent
        simp [hparent]
      · exact List.mem_cons_of_mem _ (ih h.2 hscope)

/-- Constructs stay when another one is registered. -/
theorem construct?_openConstruct {id : ConstructId} {c : Construct}
    (h : tree.construct? id = some c) (kind : ConstructKind) (hasFallback : Bool) (span : Span) :
    (tree.openConstruct kind hasFallback span).2.construct? id = some c :=
  (List.getElem?_append_left (List.getElem?_eq_some_iff.mp h).1).trans h

namespace WellFormed

section

variable (h : tree.WellFormed)
include h

theorem stack_lt {scope : Nat} (hscope : scope ∈ tree.stack) : scope < tree.scopes.length :=
  h.stack.lt h.root scope hscope

theorem current_mem : tree.current ∈ tree.stack := by
  have hstack := h.stack
  unfold current
  cases hs : tree.stack with
  | nil =>
    rw [hs] at hstack
    exact hstack.elim
  | cons scope rest => simp

theorem current_lt : (tree.current : Nat) < tree.scopes.length :=
  h.stack_lt h.current_mem

/-- Children and arms have larger indices than the scopes they belong to. -/
theorem ordered : tree.Ordered where
  child := fun hmem => ⟨h.parent (h.child hmem), lt_of_parent? (h.child hmem)⟩
  arm := fun hholds harm => by
    have hparent := h.arm hholds.get harm
    rw [hholds.owner] at hparent
    exact ⟨h.parent hparent, lt_of_parent? hparent⟩

end

/-- The tree that holds the function's own scope only. -/
theorem empty : ScopeTree.empty.WellFormed where
  root := ⟨_, rfl, rfl⟩
  parent := fun {scope outer} h => by
    have hlt := lt_of_parent? h
    obtain rfl : scope = 0 := by simpa [ScopeTree.empty] using hlt
    cases h
  child := fun {scope child} h => by
    cases scope with
    | zero => cases h
    | succ n => cases h
  owner := fun h => by cases h
  arm := fun h => by cases h
  stack := rfl

variable {arm? : Option ConstructId} {kind : ScopeKind} (h : tree.WellFormed)
include h

/-- The open scopes are a path again after one more has been opened. -/
theorem isPath_opens (hopens : tree.Opens kind arm? tree') : tree'.IsPath tree'.stack := by
  have hpath : tree'.IsPath tree.stack :=
    h.stack.congr fun t ht => hopens.parent?_old (h.stack_lt ht)
  have hcurrent := h.current_mem
  have hfresh := hopens.parent?_fresh
  unfold current at hfresh hcurrent
  rw [hopens.stack]
  cases hs : tree.stack with
  | nil =>
    rw [hs] at hcurrent
    cases hcurrent
  | cons scope rest =>
    rw [hs] at hfresh hpath
    exact ⟨hfresh, hpath⟩

/-- Opening a scope keeps all this; as an arm it has to stand where the construct does. -/
theorem opens (hopens : tree.Opens kind arm? tree')
    (harm : ∀ id ∈ arm?, ∀ c, tree.construct? id = some c → c.owner = tree.current) :
    tree'.WellFormed where
  root := by
    obtain ⟨s, hget, hnone⟩ := h.root
    have hlt : (ScopeTree.root : Nat) < tree.scopes.length :=
      (List.getElem?_eq_some_iff.mp hget).1
    rw [hopens.old hlt, hget]
    refine ⟨_, rfl, ?_⟩
    split <;> exact hnone
  parent := fun hp => by
    rcases hopens.parent?_cases hp with hp | ⟨rfl, rfl⟩
    · exact h.parent hp
    · exact h.current_lt
  child := fun hmem => by
    rcases hopens.childrenOf_cases hmem with hmem | ⟨rfl, rfl⟩
    · exact hopens.parent?_keep (h.child hmem)
    · exact hopens.parent?_fresh
  owner := fun hc => by
    rw [hopens.construct?] at hc
    obtain ⟨c, hget, rfl⟩ := Option.map_eq_some_iff.mp hc
    have howner := h.owner hget
    rw [hopens.length]
    split <;> exact Nat.lt_succ_of_lt howner
  arm := fun {id c arm} hc hmem => by
    rw [hopens.construct?] at hc
    obtain ⟨c, hget, rfl⟩ := Option.map_eq_some_iff.mp hc
    split at hmem
    · rename_i hid
      rw [if_pos hid]
      rcases List.mem_append.mp hmem with hmem | hmem
      · have hparent := h.arm hget hmem
        exact hopens.parent?_keep hparent
      · rw [List.mem_singleton.mp hmem, hopens.parent?_fresh, harm id (by simp [hid]) c hget]
    · rename_i hid
      rw [if_neg hid]
      exact hopens.parent?_keep (h.arm hget hmem)
  stack := h.isPath_opens hopens

/-- Registering a construct keeps all this. -/
theorem openConstruct (kind : ConstructKind) (hasFallback : Bool) (span : Span) :
    (tree.openConstruct kind hasFallback span).2.WellFormed := by
  -- a construct of the new tree is an old one, or the new one, which has no arms
  have hsplit : ∀ {id : ConstructId} {c : Construct},
      (tree.openConstruct kind hasFallback span).2.construct? id = some c →
      tree.construct? id = some c ∨ c = { kind, owner := tree.current, hasFallback, span } := by
    intro id c hc
    simp only [ScopeTree.openConstruct, ScopeTree.construct?, List.getElem?_append] at hc
    split at hc
    · exact Or.inl hc
    · rw [List.getElem?_singleton] at hc
      split at hc
      · exact Or.inr (Option.some.inj hc).symm
      · cases hc
  refine ⟨h.root, h.parent, h.child, ?_, ?_, h.stack.congr fun _ _ => rfl⟩
  · intro id c hc
    rcases hsplit hc with hc | rfl
    · exact h.owner hc
    · exact h.current_lt
  · intro id c arm hc hmem
    rcases hsplit hc with hc | rfl
    · exact h.arm hc hmem
    · cases hmem

end WellFormed

end ScopeTree

namespace Walk

namespace Edits

variable {w v v' : Walk} {action : Action} {e : Bool} (h : w.Edits action e v v')
include h

theorem childrenOf (scope : ScopeId) : v'.scopes.childrenOf scope = v.scopes.childrenOf scope := by
  rw [ScopeTree.childrenOf, ScopeTree.childrenOf, h.map_get? (fun _ _ => rfl)]

/-- Only the current scope becomes terminated, and only by an exit. -/
theorem terminated (scope : ScopeId) :
    v'.scopes.Terminated scope ↔ v.scopes.Terminated scope ∨
      (e = true ∧ scope = v.scopes.current ∧ scope < v.scopes.scopes.length) := by
  have hany : ∀ (e : Bool) (x : Option Scope),
      (x.map (Scope.frame e)).any (·.terminated) = (x.any (·.terminated) || (x.isSome && e)) := by
    intro e x
    cases x <;> simp [Scope.frame]
  have hterminated := congrArg (Option.any (·.terminated)) (h.frames scope)
  rw [hany, hany, Bool.and_false, Bool.or_false] at hterminated
  rw [ScopeTree.Terminated, hterminated, Bool.or_eq_true, ScopeTree.Terminated, Bool.and_eq_true,
    Bool.and_eq_true, beq_iff_eq, ScopeTree.get?, Option.isSome_iff_exists]
  refine or_congr Iff.rfl ⟨?_, ?_⟩
  · rintro ⟨⟨s, hget⟩, he, hscope⟩
    exact ⟨he, hscope, (List.getElem?_eq_some_iff.mp hget).1⟩
  · rintro ⟨he, hscope, hlt⟩
    exact ⟨⟨_, List.getElem?_eq_getElem hlt⟩, he, hscope⟩

theorem construct? (id : ConstructId) : v'.scopes.construct? id = v.scopes.construct? id := by
  rw [ScopeTree.construct?, h.constructs, ScopeTree.construct?]

/-- An edit keeps the scope tree well formed. -/
theorem wellFormed (hwf : v.scopes.WellFormed) : v'.scopes.WellFormed where
  root := by
    obtain ⟨s, hget, hnone⟩ := hwf.root
    have hmap := h.map_get? (f := Scope.parent) (fun _ _ => rfl) ScopeTree.root
    rw [hget] at hmap
    obtain ⟨s', hget', hs'⟩ := Option.map_eq_some_iff.mp hmap
    exact ⟨s', hget', hs'.trans hnone⟩
  parent := fun hp => hwf.parent (h.parent? _ ▸ hp)
  child := fun hc => by
    rw [h.childrenOf] at hc
    rw [h.parent?]
    exact hwf.child hc
  owner := fun hc => by
    rw [h.construct?] at hc
    rw [h.length]
    exact hwf.owner hc
  arm := fun hc harm => by
    rw [h.construct?] at hc
    rw [h.parent?]
    exact hwf.arm hc harm
  stack := by
    rw [h.stack]
    exact hwf.stack.congr fun t _ => h.parent? t

end Edits

/-- What holds of a walk at every moment. -/
structure WellFormed (w : Walk) : Prop where
  tree : w.scopes.WellFormed
  /-- Every binding knows its own position. -/
  indexed : w.Indexed
  /-- Events are recorded for scopes that are there. -/
  events : ∀ {i : Nat} {b : Binding} {event : Event}, w.bindings[i]? = some b →
    event ∈ b.events → event.scope < w.scopes.scopes.length
  opened : ∀ id ∈ w.constructs, ∃ c, w.scopes.construct? id = some c
  /-- So are the scopes of the `defer` statements whose literals are being read. -/
  deferred : ∀ context ∈ w.context :: w.outer, ∀ scope ∈ context.deferScope,
    scope < w.scopes.scopes.length

variable {limits : Limits} {w w' u : Walk} {b' : Binding} {event : Event} {i : Nat}

/-- An event is recorded for a scope that is there. -/
theorem Records.lt {action : Action} {id : BindingId} (h : w.Records action id event)
    (hwf : w.WellFormed) : event.scope < w.scopes.scopes.length := by
  cases h with
  | direct _ _ _ hscope | deferred _ _ hscope | exit _ _ _ hscope | mention _ _ hscope
  | capture _ _ hscope | acquire _ _ hscope => exact hscope ▸ hwf.tree.current_lt
  | inDeferred _ hscope _ => exact hwf.deferred w.context (by simp) _ hscope

/-- Every event of a rewritten table was there or has just been recorded. -/
theorem Rewrites.event_cases {action : Action} {table table' : List Binding}
    (h : w.Rewrites action table table') (hget : table'[i]? = some b')
    (hevent : event ∈ b'.events) :
    (∃ b, table[i]? = some b ∧ event ∈ b.events) ∨ w.Records action i event := by
  rcases h.cases hget with ⟨b, hold, hchanges⟩ | ⟨_, _, _, _, _, _, -, hchanges⟩
  · obtain ⟨recorded, hevents, hrecorded⟩ := hchanges.events
    rw [hevents] at hevent
    rcases List.mem_append.mp hevent with hevent | hevent
    · exact Or.inl ⟨b, hold, hevent⟩
    · exact Or.inr (hrecorded event hevent)
  · obtain ⟨recorded, hevents, hrecorded⟩ := hchanges.events
    rw [hevents] at hevent
    exact Or.inr (hrecorded event hevent)

/-- Positions stay known in a rewritten table. -/
theorem Rewrites.id_eq {action : Action} {table table' : List Binding}
    (h : w.Rewrites action table table')
    (hindexed : ∀ {i : Nat} {b : Binding}, table[i]? = some b → b.id = i)
    (hget : table'[i]? = some b') : b'.id = i := by
  rcases h.cases hget with ⟨b, hold, hchanges⟩ | ⟨_, _, _, _, _, _, -, hchanges⟩
  · rw [hchanges.id_eq, hindexed hold]
  · exact hchanges.id_eq

namespace WellFormed

theorem edits (h : w.WellFormed) {action : Action} {e : Bool} (hedits : w.Edits action e w w') :
    w'.WellFormed where
  tree := hedits.wellFormed h.tree
  indexed := hedits.table.id_eq h.indexed
  events := fun hget hevent => by
    rw [hedits.length]
    rcases hedits.table.event_cases hget hevent with ⟨b, hb, hold⟩ | hrecords
    · exact h.events hb hold
    · exact hrecords.lt h
  opened := fun id hid => by
    rw [hedits.opened] at hid
    rw [hedits.construct?]
    exact h.opened id hid
  deferred := fun context hcontext scope hscope => by
    rw [hedits.length]
    rw [hedits.context, hedits.outer] at hcontext
    rcases List.mem_cons.mp hcontext with rfl | hcontext
    · exact h.deferred w.context (by simp) scope hscope
    · exact h.deferred context (List.mem_cons_of_mem _ hcontext) scope hscope

variable {context : Context} {outer : List Context}

/-- Opening a scope keeps a walk well formed. -/
theorem opens (h : w.WellFormed) {kind : ScopeKind} {arm? : Option ConstructId}
    (hopens : w.Opens kind arm? context outer u)
    (harm : ∀ id ∈ arm?, ∀ c, w.scopes.construct? id = some c → c.owner = w.scopes.current)
    (hcontext : ∀ c ∈ context :: outer, ∀ scope ∈ c.deferScope, scope < w.scopes.scopes.length) :
    u.WellFormed where
  tree := h.tree.opens hopens.tree harm
  indexed := fun hget => h.indexed (hopens.bindings ▸ hget)
  events := fun hget hevent => by
    rw [hopens.bindings] at hget
    rw [hopens.tree.length]
    exact Nat.lt_succ_of_lt (h.events hget hevent)
  opened := fun id hid => by
    rw [hopens.opened] at hid
    obtain ⟨c, hc⟩ := h.opened id hid
    rw [hopens.tree.construct?, hc]
    exact ⟨_, rfl⟩
  deferred := fun c hc scope hscope => by
    rw [hopens.context_eq, hopens.outer_eq] at hc
    rw [hopens.tree.length]
    exact Nat.lt_succ_of_lt (hcontext c hc scope hscope)

/-- Closing a scope keeps a walk well formed. -/
theorem closes (h : w.WellFormed) (hcloses : w.Closes context outer u)
    (hcontext : ∀ c ∈ context :: outer, c ∈ w.context :: w.outer) : u.WellFormed := by
  obtain ⟨id, hstack⟩ := hcloses.stack
  have hpath := h.tree.stack
  rw [hstack] at hpath
  -- all but the stack stays, and what is left of the stack is a path
  have htree : u.scopes = { w.scopes with stack := u.scopes.stack } := by
    simp only [← hcloses.scopes, ← hcloses.constructs]
  refine ⟨?_, ?_, ?_, ?_, ?_⟩
  · rw [htree]
    exact ⟨h.tree.root, h.tree.parent, h.tree.child, h.tree.owner, h.tree.arm,
      (hpath.tail hcloses.nonempty).congr fun _ _ => rfl⟩
  · exact fun hget => h.indexed (hcloses.bindings ▸ hget)
  · intro i b event hget hevent
    rw [hcloses.bindings] at hget
    rw [hcloses.scopes]
    exact h.events hget hevent
  · intro k hk
    rw [hcloses.opened] at hk
    rw [ScopeTree.construct?, hcloses.constructs]
    exact h.opened k hk
  · intro c hc scope hscope
    rw [hcloses.context_eq, hcloses.outer_eq] at hc
    rw [hcloses.scopes]
    exact h.deferred c (hcontext c hc) scope hscope

/-- The scopes, the table and the open constructs stay, and so do the `defer` statements whose
literals are being read. -/
theorem of_eq (h : w.WellFormed) (hscopes : u.scopes = w.scopes)
    (hbindings : u.bindings = w.bindings) (hopened : u.constructs = w.constructs)
    (hdeferred : u.context.deferScope = w.context.deferScope) (houter : u.outer = w.outer) :
    u.WellFormed where
  tree := hscopes ▸ h.tree
  indexed := fun hget => h.indexed (hbindings ▸ hget)
  events := fun hget hevent => by
    rw [hscopes]
    exact h.events (hbindings ▸ hget) hevent
  opened := fun id hid => by
    rw [hscopes]
    exact h.opened id (hopened ▸ hid)
  deferred := fun context hcontext scope hscope => by
    rw [hscopes]
    rcases List.mem_cons.mp hcontext with rfl | hcontext
    · exact h.deferred w.context (by simp) scope (hdeferred ▸ hscope)
    · exact h.deferred context (List.mem_cons_of_mem _ (houter ▸ hcontext)) scope hscope

/-- The state in which the walk of a function begins. -/
theorem init : ({} : Walk).WellFormed where
  tree := .empty
  indexed := fun hget => by cases hget
  events := fun hget => by cases hget
  opened := fun id hid => by cases hid
  deferred := fun context hcontext scope hscope => by
    rw [List.mem_singleton.mp hcontext] at hscope
    cases hscope

/-- Running an action keeps a walk well formed where an arm is opened for the construct that stands
in the current scope. -/
theorem exec (h : w.WellFormed) {action : Action} (hexec : w.exec limits action = .ok u)
    (harm : ∀ kind, action = .enterArm kind → ∀ c,
      w.scopes.construct? (w.constructs.headD 0) = some c → c.owner = w.scopes.current) :
    u.WellFormed := by
  cases hinner : action.isInner with
  | true => exact h.edits (exec_edits h.indexed hinner hexec)
  | false =>
    cases action with
    | enter kind =>
      have hopens := exec_enter hexec
      exact h.opens hopens (by simp) h.deferred
    | enterArm kind =>
      have hopens := exec_enterArm hexec
      refine h.opens hopens (fun id hid => ?_) h.deferred
      rw [Option.mem_some] at hid
      exact hid ▸ harm kind rfl
    | leave =>
      exact h.closes (closes_of_leave hexec) fun c hc => hc
    | openConstruct kind hasFallback span =>
      cases hexec
      refine ⟨h.tree.openConstruct kind hasFallback span, h.indexed, h.events, ?_, h.deferred⟩
      intro id hid
      rcases List.mem_cons.mp hid with rfl | hid
      · exact ⟨_, List.getElem?_concat_length⟩
      · obtain ⟨c, hc⟩ := h.opened id hid
        exact ⟨c, ScopeTree.construct?_openConstruct hc kind hasFallback span⟩
    | closeConstruct =>
      cases hexec
      exact ⟨h.tree, h.indexed, h.events, fun id hid => h.opened id (List.mem_of_mem_tail hid),
        h.deferred⟩
    | openBody kind =>
      refine h.opens (exec_openBody hexec) (by simp) ?_
      intro c hc scope hscope
      -- only a deferred body gets a new scope to which its calls belong
      rcases List.mem_cons.mp hc with rfl | hc
      · cases kind with
        | closure => cases hscope
        | deferred =>
          cases hscope
          exact h.tree.current_lt
        | goroutine launch => exact h.deferred w.context (by simp) scope hscope
      · exact h.deferred c hc scope hscope
    | closeBody =>
      refine h.closes (exec_closeBody hexec) fun c hc => ?_
      cases houter : w.outer with
      | nil => simpa [houter] using hc
      | cons first rest =>
        rw [houter] at hc
        exact List.mem_cons_of_mem _ hc
    | openGuard names =>
      cases hexec
      exact h.of_eq rfl rfl rfl rfl rfl
    | closeGuard =>
      cases hexec
      exact h.of_eq rfl rfl rfl rfl rfl
    | _ => cases hinner

end WellFormed

/-! ## What an action does to the tree -/

/-- An action opens a scope, closes the current one, edits what there is, or leaves the scopes as
they are and registers at most a construct in the current one. -/
inductive Moves (w : Walk) (action : Action) (u : Walk) : Prop where
  | opens {kind : ScopeKind} {arm? : Option ConstructId} {context : Context}
      {outer : List Context} : w.Opens kind arm? context outer u → Moves w action u
  | closes {context : Context} {outer : List Context} : w.Closes context outer u →
      Moves w action u
  | edits : w.Edits action (w.exits action) w u → Moves w action u
  | stays : u.scopes.scopes = w.scopes.scopes → u.scopes.stack = w.scopes.stack →
      u.bindings = w.bindings →
      (∀ c ∈ u.scopes.constructs, c ∈ w.scopes.constructs ∨ c.owner = w.scopes.current) →
      Moves w action u

variable {action : Action} {scope : ScopeId} (hindexed : w.Indexed)
  (hexec : w.exec limits action = .ok u)
include hindexed hexec

theorem exec_moves : w.Moves action u := by
  cases action with
  | enter kind => exact .opens (exec_enter hexec)
  | enterArm kind => exact .opens (exec_enterArm hexec)
  | openBody kind => exact .opens (exec_openBody hexec)
  | leave => exact .closes (closes_of_leave hexec)
  | closeBody => exact .closes (exec_closeBody hexec)
  | openConstruct kind hasFallback span =>
    cases hexec
    refine .stays rfl rfl rfl fun c hc => (List.mem_append.mp hc).imp_right fun hnew => ?_
    rw [List.mem_singleton.mp hnew]
  | closeConstruct | openGuard _ | closeGuard =>
    cases hexec
    exact .stays rfl rfl rfl fun _ => Or.inl
  | _ => exact .edits (exec_edits hindexed rfl hexec)

/-- Every action rewrites the table, and an action that opens or closes something leaves it as it
is. -/
theorem exec_rewrites : w.Rewrites action w.bindings u.bindings := by
  have hsame : u.bindings = w.bindings → w.Rewrites action w.bindings u.bindings := by
    intro heq
    rw [heq]
    exact .refl _ _ _
  cases exec_moves hindexed hexec with
  | opens hopens => exact hsame hopens.bindings
  | closes hcloses => exact hsame hcloses.bindings
  | edits hedits => exact hedits.table
  | stays _ _ hbindings _ => exact hsame hbindings

/-- An action terminates at most the current scope, and that only where it leaves the function. -/
theorem exec_terminated (h : u.scopes.Terminated scope) :
    w.scopes.Terminated scope ∨ w.exits action = true ∧ scope = w.scopes.current := by
  have hsame : u.scopes.scopes = w.scopes.scopes → w.scopes.Terminated scope := by
    intro hscopes
    rwa [ScopeTree.Terminated, ScopeTree.get?, hscopes] at h
  cases exec_moves hindexed hexec with
  | opens hopens =>
    have hlt := h.lt
    rw [hopens.tree.length] at hlt
    rcases Nat.lt_or_eq_of_le (Nat.le_of_lt_succ hlt) with hold | rfl
    · exact Or.inl ((hopens.tree.terminated_old hold).mp h)
    · exact absurd h hopens.tree.not_terminated_fresh
  | closes hcloses => exact Or.inl (hsame hcloses.scopes)
  | edits hedits =>
    exact ((hedits.terminated scope).mp h).imp_right fun hexits => ⟨hexits.1, hexits.2.1⟩
  | stays hscopes _ _ _ => exact Or.inl (hsame hscopes)

end Walk

end TxLifecycle
