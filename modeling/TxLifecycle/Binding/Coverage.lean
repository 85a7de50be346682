import TxLifecycle.Binding.Basic
import TxLifecycle.Scope.Tree

/-!
# Coverage

Whether every path through a scope finalizes a transaction, judged from the scope tree and the
binding's events alone. A scope is covered by a direct commit or rollback in it, by a plain block
in it that is covered, or by a branching statement that always takes an arm and whose arms are
all covered or never fall through.
-/

namespace TxLifecycle.Binding

/-- A deferred rollback stands in the acquiring scope or in a scope around it. -/
def hasSafetyNet (binding : Binding) (tree : ScopeTree) : Bool :=
  (tree.ancestors binding.acquiredIn).any fun id =>
    (tree.get? id).any (·.rollsBack binding.id)

/-- A direct commit or rollback stands in the scope itself, outside function literals. -/
def finalizedIn (binding : Binding) (scope : ScopeId) : Bool :=
  binding.events.any fun event =>
    event.kind.isDirectFinalization && !event.inClosure && event.scope == scope

/-- Coverage of a scope, followed through at most `fuel` levels of scopes. -/
def finalizesWithin (binding : Binding) (tree : ScopeTree) : Nat → ScopeId → Bool
  | 0, _ => false
  | fuel + 1, scope =>
    binding.finalizedIn scope ||
      match tree.get? scope with
      | none => false
      | some current =>
        (current.children.any fun child =>
          tree.kind? child == some .block && binding.finalizesWithin tree fuel child) ||
        (tree.constructsOwnedBy scope).any fun construct =>
          construct.hasFallback && !construct.arms.isEmpty &&
            construct.arms.all fun arm =>
              binding.finalizesWithin tree fuel arm || (tree.get? arm).any (·.terminated)

/-- Every path through the scope finalizes the transaction directly. Children and arms have larger
indices than their scope, so no chain of them is longer than the tree is large. -/
def finalizes (binding : Binding) (tree : ScopeTree) (scope : ScopeId) : Bool :=
  binding.finalizesWithin tree (tree.scopes.length + 1) scope

/-- The arm finalizes the transaction or never falls through. -/
def armOk (binding : Binding) (tree : ScopeTree) (arm : ScopeId) : Bool :=
  binding.finalizes tree arm || (tree.get? arm).any (·.terminated)

/-- Some open scope finalizes the transaction. -/
def finalizedOnPath (binding : Binding) (tree : ScopeTree) : Bool :=
  tree.stack.any (binding.finalizes tree ·)

/-- Some open scope finalizes the transaction or holds a `defer` statement that does. -/
def guardedOnPath (binding : Binding) (tree : ScopeTree) : Bool :=
  binding.finalizedOnPath tree ||
    binding.events.any fun event => event.kind.isDeferred && tree.isOnStack event.scope

end TxLifecycle.Binding
