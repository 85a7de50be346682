import Mathlib.Data.List.Find
import TxLifecycle.Verdict

/-!
# What a verdict looks at

A verdict is taken from a binding and the scopes of its function, but not from all that they hold.
This file says what it looks at, so that changes to anything else need no second look at the
checks.

* `ScopeTree.Resembles`: two trees with the same scopes and constructs, whatever the names declared
  in a scope, whatever its `defer` statements and whatever control does at the end of a scope that
  is no arm; `ScopeTree.Agrees` compares the `defer` statements too;
* `Binding.Resembles`: two bindings with the same acquisition and the same events, `return`s apart;
  `Binding.Agrees` compares their positions too;
* `Binding.verdict_congr`: a binding is judged alike in a tree that agrees, if both or neither have
  met a `return`; `Binding.verdict_eq_of_resembles` asks for less where both or neither have a
  safety net.
-/

namespace TxLifecycle

variable {α : Type}

/-- Conditions that agree on the members of a list hold of all of them alike. -/
theorem all_eq_of_mem {l : List α} {p q : α → Bool} (h : ∀ a ∈ l, p a = q a) :
    l.all p = l.all q := by
  rw [Bool.eq_iff_iff, List.all_eq_true, List.all_eq_true]
  exact forall₂_congr fun a ha => by rw [h a ha]

theorem any_eq_of_mem {l : List α} {p q : α → Bool} (h : ∀ a ∈ l, p a = q a) :
    l.any p = l.any q := by
  rw [List.any_eq_not_all_not, List.any_eq_not_all_not, all_eq_of_mem fun a ha => by rw [h a ha]]

/-- A scope without the names declared in it and without what control does at its end. -/
def Scope.outline (scope : Scope) : Scope :=
  { scope with declared := [], terminated := false }

/-- A scope without its `defer` statements either. -/
def Scope.shape (scope : Scope) : Scope :=
  { scope with declared := [], defers := [], terminated := false }

/-- Control never falls out of the end of the scope, as a truth value. -/
def ScopeTree.ends (tree : ScopeTree) (scope : ScopeId) : Bool :=
  (tree.get? scope).any (·.terminated)

/-- Two trees agree in all that a verdict looks at. -/
structure ScopeTree.Agrees (tree tree' : ScopeTree) : Prop where
  outlines : tree'.scopes.map Scope.outline = tree.scopes.map Scope.outline
  constructs : tree'.constructs = tree.constructs
  arms : ∀ construct ∈ tree.constructs, ∀ arm ∈ construct.arms, tree'.ends arm = tree.ends arm

/-- Two trees agree in all that a verdict looks at, `defer` statements apart. -/
structure ScopeTree.Resembles (tree tree' : ScopeTree) : Prop where
  shapes : tree'.scopes.map Scope.shape = tree.scopes.map Scope.shape
  constructs : tree'.constructs = tree.constructs
  arms : ∀ construct ∈ tree.constructs, ∀ arm ∈ construct.arms, tree'.ends arm = tree.ends arm

namespace ScopeTree

variable {tree tree' : ScopeTree}

/-- What is read off a part of a scope is the same in trees whose scopes have the same parts. -/
theorem map_get?_of_map_eq {g : Scope → Scope} (h : tree'.scopes.map g = tree.scopes.map g)
    {α : Type} {f : Scope → α} (hf : ∀ s : Scope, f (g s) = f s) (scope : ScopeId) :
    (tree'.get? scope).map f = (tree.get? scope).map f := by
  -- the parts are known as a list, so `f` is taken from the part
  have hmap : ∀ x : Option Scope, x.map f = (x.map g).map f := by
    intro x
    cases x <;> simp [hf]
  have hget : ∀ tree : ScopeTree, (tree.get? scope).map g = (tree.scopes.map g)[scope]? := by
    intro tree
    rw [List.getElem?_map]
    rfl
  rw [hmap, hmap (tree.get? scope), hget, hget, h]

namespace Agrees

/-- A scope changes in nothing that a verdict looks at: its outline stays, and so does what control
does at its end, or the scope is no arm. -/
theorem of_modify {scope : ScopeId} {f : Scope → Scope}
    (houtline : ∀ s : Scope, (f s).outline = s.outline)
    (hends : (∀ s : Scope, (f s).terminated = s.terminated) ∨
      ∀ construct ∈ tree.constructs, scope ∉ construct.arms)
    (h : tree.modify scope f = .ok tree') : tree.Agrees tree' := by
  rw [ScopeTree.modify] at h
  split at h
  · cases h
    refine ⟨?_, rfl, fun construct hconstruct arm harm => ?_⟩
    · refine List.ext_getElem? fun i => ?_
      simp only [List.getElem?_map, List.getElem?_modify]
      cases tree.scopes[i]? with
      | none => rfl
      | some s => by_cases heq : scope = i <;> simp [heq, houtline]
    · simp only [ends, ScopeTree.get?, List.getElem?_modify]
      cases tree.scopes[arm]? with
      | none => rfl
      | some s =>
        -- an arm is another scope, unless the change leaves its end alone
        by_cases heq : scope = arm
        · rcases hends with hsame | hnone
          · simp [heq, hsame]
          · exact absurd (heq ▸ harm) (hnone construct hconstruct)
        · simp [heq]
  · cases h

/-- What is read off the outline of a scope is the same. -/
theorem any_get? (h : tree.Agrees tree') {p : Scope → Bool} (hp : ∀ s : Scope, p s.outline = p s)
    (scope : ScopeId) : (tree'.get? scope).any p = (tree.get? scope).any p := by
  have hany : ∀ x : Option Scope, x.any p = (x.map p).any id := by
    intro x
    cases x <;> rfl
  rw [hany, hany (tree.get? scope), map_get?_of_map_eq h.outlines hp]

/-- Trees that agree resemble each other. -/
theorem resembles (h : tree.Agrees tree') : tree.Resembles tree' where
  shapes := by
    have hshape : Scope.shape = (fun s : Scope => { s with defers := [] }) ∘ Scope.outline := rfl
    rw [hshape, ← List.map_map, ← List.map_map, h.outlines]
  constructs := h.constructs
  arms := h.arms

end Agrees

namespace Resembles

theorem length (h : tree.Resembles tree') : tree'.scopes.length = tree.scopes.length := by
  simpa using congrArg List.length h.shapes

variable {α : Type} (h : tree.Resembles tree')
include h

/-- What is read off the shape of a scope is the same. -/
theorem map_get? {f : Scope → α} (hf : ∀ s : Scope, f s.shape = f s) (scope : ScopeId) :
    (tree'.get? scope).map f = (tree.get? scope).map f :=
  map_get?_of_map_eq h.shapes hf scope

/-- What may be missing and is read off the shape of a scope is the same. -/
theorem bind_get? {f : Scope → Option α} (hf : ∀ s : Scope, f s.shape = f s) (scope : ScopeId) :
    (tree'.get? scope).bind f = (tree.get? scope).bind f := by
  have hbind : ∀ x : Option Scope, x.bind f = (x.map f).bind id := by
    intro x
    cases x <;> rfl
  rw [hbind, hbind, h.map_get? hf]

theorem kind? (scope : ScopeId) : tree'.kind? scope = tree.kind? scope :=
  h.map_get? (fun _ => rfl) scope

theorem parent? (scope : ScopeId) : tree'.parent? scope = tree.parent? scope :=
  h.bind_get? (fun _ => rfl) scope

/-- The chains of scopes are the same. -/
theorem ancestors (scope : ScopeId) : tree'.ancestors scope = tree.ancestors scope := by
  have hchain : ∀ (fuel : Nat) (scope : ScopeId),
      tree'.parentChain fuel scope = tree.parentChain fuel scope := by
    intro fuel
    induction fuel with
    | zero => exact fun _ => rfl
    | succ fuel ih =>
      intro scope
      rw [parentChain, parentChain, h.parent?]
      cases tree.parent? scope with
      | none => rfl
      | some outer => exact congrArg _ (ih outer)
  exact hchain _ _

/-- The same scopes stand around a scope. -/
theorem isAncestor (a b : ScopeId) : tree'.isAncestor a b = tree.isAncestor a b := by
  rw [ScopeTree.isAncestor, ScopeTree.isAncestor, h.ancestors]

/-- The nearest scope around two others is the same. -/
theorem commonAncestor (a b : ScopeId) : tree'.commonAncestor a b = tree.commonAncestor a b := by
  rw [ScopeTree.commonAncestor, ScopeTree.commonAncestor, h.ancestors]
  simp only [h.isAncestor]

/-- With the same open scopes, code stands in a function literal in both or in neither. -/
theorem inClosure (hstack : tree'.stack = tree.stack) : tree'.inClosure = tree.inClosure := by
  rw [ScopeTree.inClosure, ScopeTree.inClosure, hstack]
  simp only [h.kind?]

/-- The same constructs stand in a scope. -/
theorem constructsOwnedBy (scope : ScopeId) :
    tree'.constructsOwnedBy scope = tree.constructsOwnedBy scope := by
  rw [ScopeTree.constructsOwnedBy, ScopeTree.constructsOwnedBy, h.constructs]

end Resembles

end ScopeTree

namespace Binding

/-- Two bindings agree in all that a verdict looks at, `return`s apart. -/
structure Agrees (b b' : Binding) : Prop where
  id_eq : b'.id = b.id
  acquiredIn_eq : b'.acquiredIn = b.acquiredIn
  /-- They have the same statement of acquisition. -/
  acquisition_eq : b'.acquisition = b.acquisition
  /-- Both or neither are somebody else's to finish. -/
  isEscaped_eq : b'.isEscaped = b.isEscaped
  events_eq : b'.events.filter (·.kind != .earlyReturn) = b.events.filter (·.kind != .earlyReturn)

/-- Two bindings agree in all that a verdict looks at, `return`s and their positions apart. -/
structure Resembles (b b' : Binding) : Prop where
  acquiredIn_eq : b'.acquiredIn = b.acquiredIn
  /-- They have the same statement of acquisition. -/
  acquisition_eq : b'.acquisition = b.acquisition
  /-- Both or neither are somebody else's to finish. -/
  isEscaped_eq : b'.isEscaped = b.isEscaped
  events_eq : b'.events.filter (·.kind != .earlyReturn) = b.events.filter (·.kind != .earlyReturn)

variable {b b' : Binding} {tree tree' : ScopeTree}

namespace Agrees

theorem refl (b : Binding) : b.Agrees b :=
  ⟨rfl, rfl, rfl, rfl, rfl⟩

/-- A `return` makes no difference. -/
theorem record {event : Event} (hkind : event.kind = .earlyReturn) : b.Agrees (b.record event) where
  id_eq := rfl
  acquiredIn_eq := rfl
  acquisition_eq := rfl
  isEscaped_eq := rfl
  events_eq := by simp [Binding.record, hkind]

/-- Bindings that agree resemble each other. -/
theorem resembles (h : b.Agrees b') : b.Resembles b' :=
  ⟨h.acquiredIn_eq, h.acquisition_eq, h.isEscaped_eq, h.events_eq⟩

end Agrees

namespace Resembles

variable {p : Event → Bool} (h : b.Resembles b')
include h

section

variable (hp : ∀ event : Event, p event = true → event.kind ≠ .earlyReturn)
include hp

/-- The same events of a kind other than `return` are found. -/
theorem filter : b'.events.filter p = b.events.filter p := by
  have hdrop : ∀ events : List Event,
      events.filter p = (events.filter (·.kind != .earlyReturn)).filter p := by
    intro events
    rw [List.filter_filter]
    refine List.filter_congr fun event _ => ?_
    cases hevent : p event with
    | false => simp
    | true => simpa using hp event hevent
  rw [hdrop, hdrop b.events, h.events_eq]

/-- Both bindings or neither have an event of a kind other than `return` that passes a test. -/
theorem any : b'.events.any p = b.events.any p := by
  have hempty : ∀ events : List Event, events.any p = !(events.filter p).isEmpty := by
    intro events
    rw [Bool.eq_iff_iff]
    simp
  rw [hempty, hempty, h.filter hp]

theorem find? : b'.events.find? p = b.events.find? p := by
  rw [← List.head?_filter, ← List.head?_filter, h.filter hp]

end

/-- Bindings that resemble each other have the same direct commits. -/
theorem directCommits : b'.directCommits = b.directCommits := by
  apply h.filter
  intro event hevent
  rw [eq_of_beq (Bool.and_eq_true_iff.mp hevent).1]
  simp

/-- Other events than `return`s are seen on both or on neither. -/
theorem has (kind : EventKind) (hkind : kind ≠ .earlyReturn) : b'.has kind = b.has kind := by
  apply h.any
  intro event hevent
  rwa [eq_of_beq hevent]

theorem hasCommit : b'.hasCommit = b.hasCommit := by
  apply h.any
  intro event hevent heq
  simp [heq, EventKind.isCommit] at hevent

theorem hasRollback : b'.hasRollback = b.hasRollback := by
  apply h.any
  intro event hevent heq
  simp [heq, EventKind.isRollback] at hevent

/-- A direct finalization in a scope is seen on both or on neither. -/
theorem finalizedIn (scope : ScopeId) : b'.finalizedIn scope = b.finalizedIn scope := by
  apply h.any
  intro event hevent heq
  simp [heq, EventKind.isDirectFinalization] at hevent

/-- The first commit whose error is thrown away is the same. -/
theorem discardedCommit : b'.discardedCommit = b.discardedCommit := by
  rw [Binding.discardedCommit, Binding.discardedCommit, h.find?]
  intro event hevent
  rw [eq_of_beq (Bool.and_eq_true_iff.mp hevent).1]
  simp

end Resembles

/-! ## The checks -/

section

variable (hb : b.Resembles b') (htree : tree.Resembles tree')
include hb htree

/-- Coverage of a scope looks at no more. -/
theorem finalizesWithin_congr (fuel : Nat) (scope : ScopeId) :
    b'.finalizesWithin tree' fuel scope = b.finalizesWithin tree fuel scope := by
  induction fuel generalizing scope with
  | zero => rfl
  | succ fuel ih =>
    rw [finalizesWithin, finalizesWithin, hb.finalizedIn]
    congr 1
    -- whether there is such a scope, and which scopes stand in it
    have hscope := htree.map_get? (f := Scope.children) (fun _ => rfl) scope
    cases hget : tree.get? scope with
    | none =>
      rw [hget] at hscope
      rw [Option.map_eq_none_iff.mp hscope]
    | some current =>
      rw [hget] at hscope
      obtain ⟨current', hget', hchildren⟩ := Option.map_eq_some_iff.mp hscope
      simp only [hget', hchildren, htree.kind?, htree.constructsOwnedBy, ih]
      congr 1
      refine any_eq_of_mem fun construct hconstruct => ?_
      have hmem := (List.mem_filter.mp hconstruct).1
      congr 1
      refine all_eq_of_mem fun arm harm => ?_
      exact congrArg _ (htree.arms construct hmem arm harm)

/-- Coverage with as many levels as needed looks at no more. -/
theorem finalizes_congr (scope : ScopeId) : b'.finalizes tree' scope = b.finalizes tree scope := by
  rw [finalizes, finalizes, htree.length]
  exact finalizesWithin_congr hb htree _ scope

theorem coveredBy_congr {construct : Construct} (hmem : construct ∈ tree.constructs) :
    b'.coveredBy tree' construct = b.coveredBy tree construct := by
  rw [coveredBy, coveredBy]
  congr 1
  refine all_eq_of_mem fun arm harm => ?_
  rw [armOk, armOk, finalizes_congr hb htree]
  exact congrArg _ (htree.arms construct hmem arm harm)

/-- The search for a construct that can be passed looks at no more. -/
theorem uncoveredAround_congr (event : Event) :
    b'.uncoveredAround tree' event = b.uncoveredAround tree event := by
  have hpath : tree'.pathBelow event.scope b'.acquiredIn =
      tree.pathBelow event.scope b.acquiredIn := by
    rw [ScopeTree.pathBelow, ScopeTree.pathBelow, htree.ancestors, hb.acquiredIn_eq]
  have harmOf : (fun id => (tree'.get? id).bind (·.armOf)) =
      fun id => (tree.get? id).bind (·.armOf) :=
    funext fun id => htree.bind_get? (fun _ => rfl) id
  have hconstruct : tree'.construct? = tree.construct? := by
    funext id
    rw [ScopeTree.construct?, ScopeTree.construct?, htree.constructs]
  rw [uncoveredAround, uncoveredAround, hpath, harmOf, hconstruct]
  apply List.find?_congr
  intro construct hmem
  obtain ⟨id, -, hid⟩ := List.mem_filterMap.mp hmem
  rw [coveredBy_congr hb htree (List.mem_of_getElem? hid)]

/-- The check for a commit on some arms only looks at no more. -/
theorem branchCommit_congr : b'.branchCommit tree' = b.branchCommit tree := by
  rw [branchCommit, branchCommit, finalizes_congr hb htree, hb.acquiredIn_eq, hb.directCommits,
    hb.acquisition_eq]
  simp only [uncoveredAround_congr hb htree]

/-- The check for a commit in a loop looks at no more. -/
theorem commitInLoop_congr : b'.commitInLoop tree' = b.commitInLoop tree := by
  have hcrosses : b'.crossesLoop tree' = b.crossesLoop tree := by
    funext event
    rw [crossesLoop, crossesLoop, hb.acquiredIn_eq,
      htree.map_get? (f := Scope.loopDepth) (fun _ => rfl)]
  rw [commitInLoop, commitInLoop, hb.directCommits, hcrosses]

end

/-- The search for a deferred rollback around the acquisition looks at what agrees. -/
theorem hasSafetyNet_congr (hb : b.Agrees b') (htree : tree.Agrees tree') :
    b'.hasSafetyNet tree' = b.hasSafetyNet tree := by
  rw [hasSafetyNet, hasSafetyNet, htree.resembles.ancestors, hb.acquiredIn_eq, hb.id_eq]
  exact List.any_congr rfl fun id => htree.any_get? (fun _ => rfl) id

/-- The check whether the open scopes finalize the transaction looks at what resembles each other.
-/
theorem finalizedOnPath_congr (hb : b.Resembles b') (htree : tree.Resembles tree')
    (hstack : tree'.stack = tree.stack) : b'.finalizedOnPath tree' = b.finalizedOnPath tree := by
  rw [finalizedOnPath, finalizedOnPath, hstack]
  exact List.any_congr rfl fun scope => finalizes_congr hb htree scope

/-- The check whether the open scopes finalize the transaction or hold a `defer` statement that does
looks at what resembles each other. -/
theorem guardedOnPath_congr (hb : b.Resembles b') (htree : tree.Resembles tree')
    (hstack : tree'.stack = tree.stack) : b'.guardedOnPath tree' = b.guardedOnPath tree := by
  rw [guardedOnPath, guardedOnPath, finalizedOnPath_congr hb htree hstack]
  congr 1
  simp only [ScopeTree.isOnStack, hstack]
  apply hb.any
  intro event hevent heq
  simp [heq, EventKind.isDeferred] at hevent

/-- A verdict looks at the `return`s and at the safety net besides. -/
theorem verdict_eq_of_resembles (hb : b.Resembles b') (htree : tree.Resembles tree')
    (hreturn : b'.has .earlyReturn = b.has .earlyReturn)
    (hnet : b'.hasSafetyNet tree' = b.hasSafetyNet tree) : b'.verdict tree' = b.verdict tree := by
  rw [verdict, verdict, hb.isEscaped_eq, hb.hasCommit, hb.hasRollback,
    hb.has .shadowing (by simp), hb.has .reassignment (by simp),
    hb.has .goroutineCapture (by simp), hb.has (.fatalExit .fatal) (by simp),
    hb.has (.fatalExit .panic) (by simp), hreturn, hnet,
    commitInLoop_congr hb htree, branchCommit_congr hb htree, hb.discardedCommit,
    hb.acquisition_eq]

/-- Bindings that agree are judged alike in trees that agree. -/
theorem verdict_congr (hb : b.Agrees b') (htree : tree.Agrees tree')
    (hreturn : b'.has .earlyReturn = b.has .earlyReturn) : b'.verdict tree' = b.verdict tree :=
  verdict_eq_of_resembles hb.resembles htree.resembles hreturn (hasSafetyNet_congr hb htree)

end Binding

end TxLifecycle
