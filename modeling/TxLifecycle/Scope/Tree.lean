import TxLifecycle.Scope.Basic

/-!
# Scope trees

All scopes of one function, and the stack of those that are open at the moment. A scope that has
been left stays in the tree, so that its events can be judged later.
-/

namespace TxLifecycle

/-- The scopes and constructs of a function, with the scopes that are open. -/
structure ScopeTree where
  /-- Every scope opened so far, in order of creation. -/
  scopes : List Scope
  /-- Every construct opened so far, in order of creation. -/
  constructs : List Construct
  /-- The open scopes, the innermost first. -/
  stack : List ScopeId
deriving DecidableEq, Repr

namespace ScopeTree

/-- The tree that holds the function's own scope only. -/
def empty : ScopeTree where
  scopes := [{ kind := .function }]
  constructs := []
  stack := [0]

instance : Inhabited ScopeTree := ⟨empty⟩

def root : ScopeId := 0

def current (tree : ScopeTree) : ScopeId :=
  tree.stack.headD root

/-- The number of open scopes, the function's own included. -/
def depth (tree : ScopeTree) : Nat :=
  tree.stack.length

/-- The scope with the given index, if the tree holds it. -/
def get? (tree : ScopeTree) (id : ScopeId) : Option Scope :=
  tree.scopes[id]?

/-- The scope with the given index. -/
def get (tree : ScopeTree) (id : ScopeId) : Except AnalysisError Scope :=
  match tree.get? id with
  | some scope => .ok scope
  | none => .error (.unknownScope id)

/-- The construct with the given index, if the tree holds it. -/
def construct? (tree : ScopeTree) (id : ConstructId) : Option Construct :=
  tree.constructs[id]?

/-- The kind of a scope, if the tree holds it. -/
def kind? (tree : ScopeTree) (id : ScopeId) : Option ScopeKind :=
  (tree.get? id).map (·.kind)

def modify (tree : ScopeTree) (id : ScopeId) (f : Scope → Scope) :
    Except AnalysisError ScopeTree :=
  match tree.get? id with
  | some _ => .ok { tree with scopes := tree.scopes.modify id f }
  | none => .error (.unknownScope id)

/-- Open a scope inside the current one. -/
def push (tree : ScopeTree) (kind : ScopeKind) : Except AnalysisError (ScopeId × ScopeTree) :=
  match tree.get? tree.current with
  | none => .error (.unknownScope tree.current)
  | some outer =>
    let id := tree.scopes.length
    let fresh : Scope :=
      { parent := some tree.current, kind,
        loopDepth := outer.loopDepth + if kind = .loopBody then 1 else 0 }
    let scopes := tree.scopes.modify tree.current fun scope =>
      { scope with children := scope.children ++ [id] }
    .ok (id, { tree with scopes := scopes ++ [fresh], stack := id :: tree.stack })

/-- Open a scope inside the current one as the next arm of a construct. -/
def pushArm (tree : ScopeTree) (kind : ScopeKind) (construct : ConstructId) :
    Except AnalysisError (ScopeId × ScopeTree) := do
  let (id, tree) ← tree.push kind
  let tree ← tree.modify id fun scope => { scope with armOf := some construct }
  let constructs := tree.constructs.modify construct fun c => { c with arms := c.arms ++ [id] }
  return (id, { tree with constructs })

/-- Leave the innermost scope. The function's own scope is never left. -/
def pop (tree : ScopeTree) : Except AnalysisError (ScopeId × ScopeTree) :=
  match tree.stack with
  | id :: outer :: rest => .ok (id, { tree with stack := outer :: rest })
  | _ => .error .scopeUnderflow

/-- Register a branching construct that stands in the current scope. -/
def openConstruct (tree : ScopeTree) (kind : ConstructKind) (hasFallback : Bool) (span : Span) :
    ConstructId × ScopeTree :=
  (tree.constructs.length,
    { tree with
      constructs := tree.constructs ++ [{ kind, owner := tree.current, hasFallback, span }] })

/-- The constructs that stand directly in a scope. -/
def constructsOwnedBy (tree : ScopeTree) (scope : ScopeId) : List Construct :=
  tree.constructs.filter (·.owner == scope)

/-- Declare a plain local in the current scope. -/
def declare (tree : ScopeTree) (name : String) : Except AnalysisError ScopeTree :=
  tree.modify tree.current (·.declare name)

/-- The scope declares the name as a plain local. -/
def declares (tree : ScopeTree) (scope : ScopeId) (name : String) : Bool :=
  match tree.get? scope with
  | some scope => scope.declared.contains name
  | none => false

/-- The innermost open scope that declares the name as a plain local. -/
def declaringScope (tree : ScopeTree) (name : String) : Option ScopeId :=
  tree.stack.find? (tree.declares · name)

/-- Note that control leaves the function in the current scope. -/
def markTerminated (tree : ScopeTree) : Except AnalysisError ScopeTree :=
  tree.modify tree.current fun scope => { scope with terminated := true }

/-- Register a `defer` statement in the current scope. -/
def addDefer (tree : ScopeTree) : Except AnalysisError ScopeTree :=
  tree.modify tree.current fun scope => { scope with defers := scope.defers ++ [{}] }

/-- Note that the latest `defer` statement of a scope rolls a binding back. -/
def noteDeferredRollback (tree : ScopeTree) (scope : ScopeId) (binding : BindingId) :
    Except AnalysisError ScopeTree :=
  tree.modify scope (·.noteRollback binding)

/-- Some open scope is the body of a function literal or of a launched call. -/
def inClosure (tree : ScopeTree) : Bool :=
  tree.stack.any fun id => (tree.kind? id).any (·.isClosure)

def isOnStack (tree : ScopeTree) (scope : ScopeId) : Bool :=
  tree.stack.contains scope

/-- The parent of a scope, if the tree holds the scope and it has one. -/
def parent? (tree : ScopeTree) (id : ScopeId) : Option ScopeId :=
  (tree.get? id).bind (·.parent)

/-- The first `fuel` members of the chain from a scope through its parents. -/
def parentChain (tree : ScopeTree) : Nat → ScopeId → List ScopeId
  | 0, _ => []
  | fuel + 1, id =>
    id :: match tree.parent? id with
      | some parent => tree.parentChain fuel parent
      | none => []

/-- A scope, its parent, and so on up to the function's own scope. A parent's index is smaller
than its child's, so the chain has at most `id + 1` members. -/
def ancestors (tree : ScopeTree) (id : ScopeId) : List ScopeId :=
  tree.parentChain (id + 1) id

/-- The first scope is the second or one of the scopes around it. -/
def isAncestor (tree : ScopeTree) (ancestor id : ScopeId) : Bool :=
  (tree.ancestors id).contains ancestor

/-- The nearest scope around both scopes. -/
def commonAncestor (tree : ScopeTree) (a b : ScopeId) : ScopeId :=
  ((tree.ancestors a).find? (tree.isAncestor · b)).getD root

/-- The scopes from `id` outwards that come before `stop`, or all of them up to the function's own
scope where `stop` is not among them. -/
def pathBelow (tree : ScopeTree) (id stop : ScopeId) : List ScopeId :=
  (tree.ancestors id).takeWhile (· != stop)

end ScopeTree

end TxLifecycle
