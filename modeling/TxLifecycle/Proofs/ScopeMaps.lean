import TxLifecycle.Proofs.Judgement
import TxLifecycle.Walk.Run

/-!
# Changes of all scopes that commute with a walk

A change of every scope of a tree that concerns the names declared in the scopes and their `defer`
statements only, such as a renaming, leaves every scope where it is. So scopes are opened, left and
looked up in the changed tree as in the tree itself.

* `Scope.Keeps`: what such a change keeps;
* `ScopeTree.mapScopes`, `Scope.Keeps.push` and its neighbours: the operations of a tree;
* `Walk.Lifts`: a change of states that does this to their scopes, and the actions that it commutes
  with.
-/

namespace TxLifecycle

/-- Two steps that commute with a change do so one after the other. -/
theorem map_bind_of_commutes {ε α β α' β' : Type} {x : Except ε α} {x' : Except ε α'}
    {k : α → Except ε β} {k' : α' → Except ε β'} {g : α → α'} {r : β → β'} (hx : x' = x.map g)
    (hk : ∀ a, k' (g a) = (k a).map r) : (x' >>= k') = (x >>= k).map r := by
  subst hx
  cases x with
  | error e => rfl
  | ok a => exact hk a

/-- Two steps that commute with a change do so if one of them is taken. -/
theorem ite_map_of_commutes {ε α α' : Type} {p : Prop} [Decidable p] {x y : Except ε α}
    {x' y' : Except ε α'} {r : α → α'} (hx : x' = x.map r) (hy : y' = y.map r) :
    (if p then x' else y') = (if p then x else y).map r := by
  split
  · exact hx
  · exact hy

/-- Changing one member of a list commutes with a change of all of them. -/
theorem modify_map {α β : Type} {g : α → α} {g' : β → β} {r : α → β} {l : List α} {i : Nat}
    (h : ∀ a, g' (r a) = r (g a)) : (l.map r).modify i g' = (l.modify i g).map r := by
  refine List.ext_getElem? fun n => ?_
  rw [List.getElem?_modify, List.getElem?_map, List.getElem?_map, List.getElem?_modify]
  by_cases hn : i = n <;> cases l[n]? <;> simp [hn, h]

/-- A change of scopes that leaves them where they are: it concerns the names declared in a scope
and its `defer` statements only. -/
structure Scope.Keeps (r : Scope → Scope) : Prop where
  shape : ∀ s : Scope, (r s).shape = s.shape
  /-- What control does at its end is kept. -/
  terminated : ∀ s : Scope, (r s).terminated = s.terminated
  /-- A scope may be opened in it before or after. -/
  children : ∀ (s : Scope) (children : List ScopeId),
    r { s with children } = { r s with children }
  /-- It may become an arm before or after. -/
  armOf : ∀ (s : Scope) (armOf : Option ConstructId), r { s with armOf } = { r s with armOf }
  /-- Control may leave it before or after. -/
  terminate : ∀ s : Scope, r { s with terminated := true } = { r s with terminated := true }
  /-- Nothing is to be changed in a new scope. -/
  fresh : ∀ (parent : Option ScopeId) (kind : ScopeKind) (loopDepth : Nat),
    r { parent, kind, loopDepth } = { parent, kind, loopDepth }

/-- Change every scope of a tree. -/
def ScopeTree.mapScopes (r : Scope → Scope) (tree : ScopeTree) : ScopeTree :=
  { tree with scopes := tree.scopes.map r }

namespace ScopeTree

variable {r : Scope → Scope} {tree : ScopeTree}

theorem get?_mapScopes (r : Scope → Scope) (tree : ScopeTree) (scope : ScopeId) :
    (tree.mapScopes r).get? scope = (tree.get? scope).map r :=
  List.getElem?_map

/-- A scope of the changed tree, or the same error. -/
theorem get_mapScopes (r : Scope → Scope) (tree : ScopeTree) (scope : ScopeId) :
    (tree.mapScopes r).get scope = (tree.get scope).map r := by
  rw [get, get, get?_mapScopes]
  cases tree.get? scope <;> rfl

theorem modify_mapScopes {g g' : Scope → Scope} {scope : ScopeId}
    (h : ∀ s : Scope, g' (r s) = r (g s)) :
    (tree.mapScopes r).modify scope g' = (tree.modify scope g).map (mapScopes r) := by
  rw [modify, modify, get?_mapScopes]
  cases tree.get? scope with
  | none => rfl
  | some s =>
    have hmodify : (tree.scopes.map r).modify scope g' = (tree.scopes.modify scope g).map r :=
      modify_map h
    simp only [Option.map_some, mapScopes, hmodify, Except.map]

theorem pop_mapScopes (r : Scope → Scope) (tree : ScopeTree) :
    (tree.mapScopes r).pop = tree.pop.map fun (id, left) => (id, left.mapScopes r) := by
  obtain ⟨scopes, constructs, stack⟩ := tree
  rcases stack with _ | ⟨id, _ | ⟨outer, rest⟩⟩ <;> rfl

end ScopeTree

namespace Scope.Keeps

variable {r : Scope → Scope} (hr : Scope.Keeps r)
include hr

/-- The changed tree resembles the tree. -/
theorem resembles (tree : ScopeTree) : tree.Resembles (tree.mapScopes r) where
  shapes := by
    rw [ScopeTree.mapScopes, List.map_map]
    exact congrArg (tree.scopes.map ·) (funext hr.shape)
  constructs := rfl
  arms := by
    intro construct _ arm _
    rw [ScopeTree.ends, ScopeTree.ends, ScopeTree.get?_mapScopes, Option.any_map]
    exact congrArg (fun p => Option.any p _) (funext hr.terminated)

/-- What is read off the shape of a scope is kept. -/
theorem of_shape {α : Type} (f : Scope → α) (hf : ∀ s : Scope, f s.shape = f s) (s : Scope) :
    f (r s) = f s := by
  rw [← hf, hr.shape, hf]

/-- A scope is as deep in loops as before. -/
theorem loopDepth (s : Scope) : (r s).loopDepth = s.loopDepth :=
  hr.of_shape Scope.loopDepth (fun _ => rfl) s

/-- Opening a scope. -/
theorem push (tree : ScopeTree) (kind : ScopeKind) :
    (tree.mapScopes r).push kind =
      (tree.push kind).map fun (id, opened) => (id, opened.mapScopes r) := by
  have hget : (tree.mapScopes r).get? (tree.mapScopes r).current =
      (tree.get? tree.current).map r := tree.get?_mapScopes r tree.current
  rw [ScopeTree.push, ScopeTree.push, hget]
  cases tree.get? tree.current with
  | none => rfl
  | some outer =>
    have hmodify : (tree.scopes.map r).modify tree.current
        (fun s => { s with children := s.children ++ [tree.scopes.length] }) =
        (tree.scopes.modify tree.current
          fun s => { s with children := s.children ++ [tree.scopes.length] }).map r := by
      refine modify_map fun s => ?_
      have hold : (r s).children = s.children := hr.of_shape Scope.children (fun _ => rfl) s
      simp only [hold]
      exact (hr.children s _).symm
    simp only [Option.map_some, Except.map, ScopeTree.mapScopes, List.length_map, List.map_append,
      List.map_singleton, hr.fresh, hr.loopDepth, ← hmodify]
    rfl

theorem pushArm (tree : ScopeTree) (kind : ScopeKind) (construct : ConstructId) :
    (tree.mapScopes r).pushArm kind construct =
      (tree.pushArm kind construct).map fun (id, opened) => (id, opened.mapScopes r) := by
  refine map_bind_of_commutes (hr.push tree kind) fun (id, opened) => ?_
  have hmark : (opened.mapScopes r).modify id (fun s => { s with armOf := some construct }) =
      (opened.modify id fun s => { s with armOf := some construct }).map (ScopeTree.mapScopes r) :=
    ScopeTree.modify_mapScopes fun s => (hr.armOf s _).symm
  exact map_bind_of_commutes hmark fun _ => rfl

theorem markTerminated (tree : ScopeTree) :
    (tree.mapScopes r).markTerminated = tree.markTerminated.map (ScopeTree.mapScopes r) :=
  ScopeTree.modify_mapScopes fun s => (hr.terminate s).symm

end Scope.Keeps

namespace Walk

/-- A change of states that changes their scopes by `r`, whatever else it does. -/
structure Lifts (r : Scope → Scope) (lift : Walk → Walk) : Prop where
  scopes : ∀ w : Walk, (lift w).scopes = w.scopes.mapScopes r
  /-- What else is changed does not depend on the scopes. -/
  setScopes : ∀ (w : Walk) (tree : ScopeTree),
    lift (w.setScopes tree) = (lift w).setScopes (tree.mapScopes r)
  constructs : ∀ w : Walk, (lift w).constructs = w.constructs

namespace Lifts

variable {r : Scope → Scope} {lift : Walk → Walk} (hlift : Lifts r lift)
include hlift

/-- Changing the scopes by an operation that can fail. -/
theorem updateScopes {w : Walk} (g g' : ScopeTree → Except AnalysisError ScopeTree)
    (h : g' (w.scopes.mapScopes r) = (g w.scopes).map (ScopeTree.mapScopes r)) :
    (lift w).updateScopes g' = (w.updateScopes g).map lift := by
  rw [Walk.updateScopes, Walk.updateScopes, hlift.scopes, h]
  cases g w.scopes with
  | error e => rfl
  | ok tree => exact congrArg Except.ok (hlift.setScopes w tree).symm

/-- Opening a scope. -/
theorem enter (hr : Scope.Keeps r) (limits : Limits) (w : Walk) (kind : ScopeKind) :
    (lift w).enter limits kind = (w.enter limits kind).map fun (id, v) => (id, lift v) := by
  rw [Walk.enter, Walk.enter, hlift.scopes, hr.push]
  refine ite_map_of_commutes rfl ?_
  cases w.scopes.push kind with
  | error e => rfl
  | ok opened => exact congrArg (fun v => Except.ok (opened.1, v)) (hlift.setScopes w opened.2).symm

theorem enterArm (hr : Scope.Keeps r) (limits : Limits) (w : Walk) (kind : ScopeKind) :
    (lift w).enterArm limits kind = (w.enterArm limits kind).map lift := by
  rw [Walk.enterArm, Walk.enterArm, hlift.scopes, hlift.constructs, hr.pushArm]
  refine ite_map_of_commutes rfl ?_
  cases w.scopes.pushArm kind (w.constructs.headD 0) with
  | error e => rfl
  | ok opened => exact congrArg Except.ok (hlift.setScopes w opened.2).symm

/-- Leaving a scope. -/
theorem leave (w : Walk) : (lift w).leave = w.leave.map lift := by
  rw [Walk.leave, Walk.leave, hlift.scopes, ScopeTree.pop_mapScopes]
  cases w.scopes.pop with
  | error e => rfl
  | ok left => exact congrArg Except.ok (hlift.setScopes w left.2).symm

end Lifts

end Walk

end TxLifecycle
