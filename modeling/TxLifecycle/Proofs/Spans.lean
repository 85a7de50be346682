import TxLifecycle.Proofs.Readers

/-!
# Places of syntax

The reader of concrete trees leaves some nodes out, groups others and puts operands into another
order. What it builds still has its places nested as the concrete tree has.

* `Phrase`: an expression, statement, block or clause, and the phrases that it is made of;
* `Phrase.Placed`: every phrase of a phrase lies inside the one that it belongs to and inside the
  function, and statements and clauses follow each other;
* `Levels.Places`: a reader builds such phrases from trees whose places nest;
* `Levels.places_upTo`: readers with any number of levels do.

The main statement is `fileOf_wellPlaced`.
-/

namespace TxLifecycle

/-! ## Phrases of syntax -/

/-- What has a place in a function. -/
inductive Phrase where
  | expr (e : Expr)
  | stmt (s : Stmt)
  | block (b : Block)
  | clause (c : CaseClause)

/-- What follows `else`, as a phrase. -/
def Else.phrase : Else → Phrase
  | .block b => .block b
  | .elseIf stmt => .stmt (.ifStmt stmt)

/-- The phrases of a statement. -/
def Stmt.phrases : Stmt → List Phrase
  | .shortVarDecl left right _ | .assign left right _ => left.map .expr ++ right.map .expr
  | .varDecl _ values _ | .returnStmt values _ => values.map .expr
  | .exprStmt e _ | .deferStmt e _ | .goStmt e _ | .incDec e _ => [.expr e]
  | .ifStmt stmt => stmt.init.toList.map .stmt ++
      .expr stmt.cond :: .block stmt.consequence :: stmt.otherwise.toList.map Else.phrase
  | .forStmt init cond post body _ => init.toList.map .stmt ++ cond.toList.map .expr ++
      post.toList.map .stmt ++ [.block body]
  | .rangeStmt left _ right body _ => left.map .expr ++ [.expr right, .block body]
  | .switchStmt init tag cases _ => init.toList.map .stmt ++ tag.toList.map .expr ++
      cases.map .clause
  | .selectStmt cases _ => cases.map .clause
  | .block b => [.block b]
  | .seq stmts _ => stmts.map .stmt
  | .labeled _ stmt _ => [.stmt stmt]
  | .send channel value _ => [.expr channel, .expr value]
  | .branch _ | .empty _ | .unsupported _ _ => []

/-- The phrases of an expression. -/
def Expr.phrases : Expr → List Phrase
  | .call func args _ => .expr func :: args.map .expr
  | .selector operand _ _ | .unary _ operand _ => [.expr operand]
  | .funcLit _ body _ => [.block body]
  | .composite parts _ | .other _ parts _ => parts.map .expr
  | .keyValue key value _ => [.expr key, .expr value]
  | .ident _ _ | .literal _ => []

namespace Phrase

/-- The place of a phrase. -/
def span : Phrase → Span
  | .expr e => e.span
  | .stmt s => s.span
  | .block b => b.span
  | .clause c => c.span

/-- The phrases that a phrase is made of. -/
def phrases : Phrase → List Phrase
  | .expr e => e.phrases
  | .stmt s => s.phrases
  | .block b => b.stmts.map .stmt
  | .clause c => c.values.map .expr ++ c.comm.toList.map .stmt ++ c.body.map .stmt

/-- The places of the statements or clauses that a phrase lists. -/
def listed : Phrase → List Span
  | .block b => b.stmts.map Stmt.span
  | .clause c => c.body.map Stmt.span
  | .stmt (.seq stmts _) => stmts.map Stmt.span
  | .stmt (.switchStmt _ _ cases _) | .stmt (.selectStmt cases _) => cases.map CaseClause.span
  | _ => []

/-- A phrase has its place inside the given one, in a source of `size` bytes and in a function, and
so have its phrases inside the place of their own. The statements or clauses that it lists follow
each other. -/
inductive Placed (size : Nat) (func : Span) : Span → Phrase → Prop where
  | mk {outer : Span} {phrase : Phrase} (ordered : phrase.span.start ≤ phrase.span.stop)
      (bounded : phrase.span.stop ≤ size) (inside : outer.contains phrase.span)
      (within : func.contains phrase.span)
      (apart : phrase.listed.Pairwise fun a b => a.precedes b)
      (phrases : ∀ p ∈ phrase.phrases, Placed size func phrase.span p) :
      Placed size func outer phrase

variable {size : Nat} {func outer outer' : Span} {phrase : Phrase}

/-- A phrase lies inside the given place. -/
theorem Placed.inside (h : Placed size func outer phrase) : outer.contains phrase.span := by
  cases h with
  | mk _ _ inside _ _ _ => exact inside

/-- A phrase that lies inside a place lies inside any larger one. -/
theorem Placed.of_contains (h : Placed size func outer phrase) (hcontains : outer'.contains outer) :
    Placed size func outer' phrase := by
  cases h with
  | mk ordered bounded inside within apart phrases =>
    exact .mk ordered bounded (Span.contains_trans hcontains inside) within apart phrases

/-- Statements that have their places inside the given one, and follow each other. -/
structure Sequence (size : Nat) (func outer : Span) (stmts : List Stmt) : Prop where
  placed : ∀ p ∈ stmts.map Phrase.stmt, Placed size func outer p
  apart : (stmts.map Stmt.span).Pairwise fun a b => a.precedes b

theorem Sequence.singleton {s : Stmt} (h : Placed size func outer (.stmt s)) :
    Sequence size func outer [s] :=
  ⟨List.forall_mem_singleton.mpr h, List.pairwise_singleton _ _⟩

end Phrase

/-- The parts of a declaration have their places inside it. -/
structure FuncDecl.WellPlaced (size : Nat) (decl : FuncDecl) : Prop where
  ordered : decl.span.start ≤ decl.span.stop
  bounded : decl.span.stop ≤ size
  body : ∀ body, decl.body = some body → Phrase.Placed size decl.span decl.span (.block body)

/-- The functions of a file, of a source of `size` bytes, have their places one after the other. -/
structure SourceFile.WellPlaced (size : Nat) (file : SourceFile) : Prop where
  /-- The parts of each one lie inside it. -/
  functions : ∀ decl ∈ file.functions, decl.WellPlaced size
  apart : file.functions.Pairwise fun a b => a.span.precedes b.span

namespace Concrete

/-! ## Readers that keep places -/

/-- The places of a tree nest, in a source of `size` bytes and inside a function. -/
structure Node.Fits (size : Nat) (func : Span) (node : Node) : Prop where
  nested : node.Nested
  bounded : node.span.stop ≤ size
  within : func.contains node.span

section Fits

open Phrase

variable {size : Nat} {func : Span} {node n : Node} (h : node.Fits size func)
include h

/-- What stands in such a tree is one. -/
theorem Node.Fits.of_below (hn : n.Below node) : n.Fits size func := by
  have hcontains := h.nested.contains hn
  refine ⟨h.nested.of_below hn, ?_, Span.contains_trans h.within hcontains⟩
  exact Nat.le_trans ((Span.contains_iff _ _).mp hcontains).2 h.bounded

/-- What lies in the place of a node below lies in the place of the node. -/
theorem Node.Fits.below {phrase : Phrase} (hn : n.Below node)
    (hplaced : n.Fits size func → Placed size func n.span phrase) :
    Placed size func node.span phrase :=
  (hplaced (h.of_below hn)).of_contains (h.nested.contains hn)

/-- A phrase that takes the place of its node. -/
theorem Node.Fits.placed {phrase : Phrase} (hspan : phrase.span = node.span)
    (hapart : phrase.listed.Pairwise fun a b => a.precedes b)
    (hphrases : ∀ p ∈ phrase.phrases, Placed size func node.span p) :
    Placed size func node.span phrase := by
  rw [← hspan] at hphrases
  refine .mk ?_ ?_ ?_ ?_ hapart hphrases
  · exact hspan ▸ h.nested.ordered
  · exact hspan ▸ h.bounded
  · exact hspan ▸ Span.contains_self _
  · exact hspan ▸ h.within

/-- A phrase without phrases that takes the place of its node. -/
theorem Node.Fits.placed_nil {phrase : Phrase} (hspan : phrase.span = node.span)
    (hlisted : phrase.listed = []) (hphrases : phrase.phrases = []) :
    Placed size func node.span phrase :=
  h.placed hspan (hlisted ▸ .nil) fun _ hp => absurd (hphrases ▸ hp) List.not_mem_nil

/-- A phrase with one phrase that takes the place of its node. -/
theorem Node.Fits.placed_one {phrase p : Phrase} (hspan : phrase.span = node.span)
    (hlisted : phrase.listed = []) (hphrases : phrase.phrases = [p])
    (hp : Placed size func node.span p) : Placed size func node.span phrase :=
  h.placed hspan (hlisted ▸ .nil) (hphrases ▸ List.forall_mem_singleton.mpr hp)

/-- The statements that stand for nodes which follow each other do so as well. -/
theorem Node.Fits.sequence_flatMap {nodes : List Node} (hbelow : ∀ n ∈ nodes, n.Below node)
    (horder : InOrder nodes) {read : Node → List Stmt}
    (hread : ∀ n ∈ nodes, Sequence size func n.span (read n)) :
    Sequence size func node.span (nodes.flatMap read) := by
  have hinside : ∀ n ∈ nodes, ∀ span ∈ (read n).map Stmt.span, n.span.contains span := by
    intro n hn span hspan
    obtain ⟨s, hs, rfl⟩ := List.mem_map.mp hspan
    exact ((hread n hn).placed _ (List.mem_map_of_mem hs)).inside
  constructor
  · simp only [List.map_flatMap, List.mem_flatMap]
    rintro p ⟨n, hn, hp⟩
    exact ((hread n hn).placed p hp).of_contains (h.nested.contains (hbelow n hn))
  · rw [List.map_flatMap]
    refine List.pairwise_flatMap.mpr ⟨fun n hn => (hread n hn).apart, horder.imp_of_mem ?_⟩
    intro a b ha hb hprecedes c hc d hd
    exact Span.precedes_of_contains hprecedes (hinside a ha c hc) (hinside b hb d hd)

end Fits

/-- What a reader builds from a tree has its place inside the tree's. -/
structure Levels.Places (size : Nat) (func : Span) (levels : Levels Lowered) : Prop where
  expression : ∀ {node : Node}, node.Fits size func →
    Phrase.Placed size func node.span (.expr (levels.expression node).value)
  statement : ∀ {node : Node}, node.Fits size func →
    Phrase.Placed size func node.span (.stmt (levels.statement node).value)
  elseIf : ∀ {node : Node}, node.Fits size func → ∀ stmt ∈ (levels.elseIf node).value,
    Phrase.Placed size func node.span (.stmt (.ifStmt stmt))

namespace Levels.Places

open Node Phrase

variable {size : Nat} {func : Span} {levels : Levels Lowered} {source : Source} {node n : Node}

section Below

variable (h : Places size func levels) (hfits : node.Fits size func)

include h hfits

/-- The expressions that are read from nodes below. -/
theorem expressions_below {nodes : List Node} (hnodes : ∀ n ∈ nodes, n.Below node) :
    ∀ p ∈ (nodes.mapM levels.expression).value.map Phrase.expr, Placed size func node.span p := by
  intro p hp
  simp only [Lowered.value_mapM, List.mem_map] at hp
  obtain ⟨e, ⟨n, hn, rfl⟩, rfl⟩ := hp
  exact hfits.below (hnodes n hn) h.expression

/-- The expressions of a list below that may be absent. -/
theorem expressionList_below (list? : Option Node) (hlist : ∀ {n}, list? = some n → n.Below node) :
    ∀ p ∈ (levels.expressionList list?).value.map Phrase.expr, Placed size func node.span p := by
  intro p hp
  cases list? with
  | none => simp [Levels.expressionList] at hp
  | some n =>
    have hn := hlist rfl
    rw [Levels.expressionList] at hp
    split at hp
    · exact h.expressions_below hfits (fun m hm => (below_of_mem_parts hm).trans hn) p hp
    · rw [List.mem_singleton.mp hp]
      exact hfits.below hn h.expression

/-- An expression below that may be absent. -/
theorem expression?_below (part? : Option Node) (hpart : ∀ {n}, part? = some n → n.Below node) :
    ∀ p ∈ (part?.mapM levels.expression).value.toList.map Phrase.expr,
      Placed size func node.span p := by
  cases part? with
  | none => simp
  | some n => simpa using hfits.below (hpart rfl) h.expression

/-- A statement below that may be absent. -/
theorem statement?_below (part? : Option Node) (hpart : ∀ {n}, part? = some n → n.Below node) :
    ∀ p ∈ (part?.mapM levels.statement).value.toList.map Phrase.stmt,
      Placed size func node.span p := by
  cases part? with
  | none => simp
  | some n => simpa using hfits.below (hpart rfl) h.statement

end Below

section Lowering

variable (h : Places size func levels) (hfits : node.Fits size func)

include h hfits

/-- Any node. -/
theorem other : Placed size func node.span (.expr (levels.other node).value) :=
  hfits.placed rfl .nil (h.expressions_below hfits fun _ hn => below_of_mem_parts hn)

/-- The specifications of a `var` declaration. -/
theorem varSpecs : Sequence size func node.span (levels.varSpecs source node).value := by
  rw [Levels.varSpecs, Lowered.value_mapM, List.map_eq_flatMap]
  refine hfits.sequence_flatMap (fun n hn => below_of_mem_varSpecsOf hn)
    (inOrder_varSpecsOf hfits.nested) fun spec hspec => .singleton ?_
  have hfits' := hfits.of_below (below_of_mem_varSpecsOf hspec)
  exact hfits'.placed rfl .nil (h.expressionList_below hfits' _ below_of_child?)

/-- A `var` declaration that stands for one statement. -/
theorem varDeclaration :
    Placed size func node.span (.stmt (levels.varDeclaration source node).value) := by
  have hspecs : Sequence size func node.span (levels.varSpecs source node).value :=
    h.varSpecs hfits
  rw [Levels.varDeclaration, Lowered.value_bind]
  split
  · rename_i spec hspec
    rw [hspec] at hspecs
    exact hspecs.placed _ List.mem_cons_self
  · exact hfits.placed rfl hspecs.apart hspecs.placed

/-- What a node of a statement list stands for. -/
theorem listed : Sequence size func node.span (levels.listed source node).value := by
  rw [Levels.listed]
  split
  · exact h.varSpecs hfits
  · exact .singleton (h.statement hfits)

/-- A block. -/
theorem block : Placed size func node.span (.block (levels.block source node).value) := by
  have hbody : Sequence size func node.span
      ((statementNodes node).flatMap fun n => (levels.listed source n).value) := by
    refine hfits.sequence_flatMap (fun n hn => below_of_mem_statementNodes hn)
      (inOrder_statementNodes hfits.nested) fun n hn => ?_
    exact h.listed (hfits.of_below (below_of_mem_statementNodes hn))
  have hvalue : (levels.block source node).value =
      ⟨(statementNodes node).flatMap fun n => (levels.listed source n).value, node.span⟩ := by
    simp [Levels.block, List.flatMap_def]
  rw [hvalue]
  exact hfits.placed rfl hbody.apart hbody.placed

/-- A keyed element of a literal value. -/
theorem keyedElement : Placed size func node.span (.expr (levels.keyedElement node).value) := by
  rw [Levels.keyedElement]
  split
  · rename_i key value hkey hvalue
    have hkey := hfits.below (below_of_key hkey) h.expression
    have hvalue := hfits.below (below_of_value hvalue) h.expression
    exact hfits.placed rfl .nil
      (List.forall_mem_cons.mpr ⟨hkey, List.forall_mem_singleton.mpr hvalue⟩)
  · exact h.other hfits

/-- The elements of a literal value below. -/
theorem elements_below (hn : n.Below node) :
    ∀ p ∈ (levels.elements n).value.map Phrase.expr, Placed size func node.span p := by
  intro p hp
  simp only [Levels.elements, Lowered.value_mapM, List.mem_map] at hp
  obtain ⟨e, ⟨element, helement, rfl⟩, rfl⟩ := hp
  have hbelow := (below_of_mem_parts helement).trans hn
  split
  · exact hfits.below hbelow h.keyedElement
  · exact hfits.below hbelow h.expression

theorem binaryChain : Placed size func node.span (.expr (levels.binaryChain node).value) := by
  obtain ⟨hrights, hfirst⟩ := below_of_leftSpine node
  have hrights := h.expressions_below hfits fun n hn => hrights n (List.mem_reverse.mp hn)
  rw [Levels.binaryChain]
  dsimp only
  -- the operand at the end of the spine may be one that lacks its right operand
  split
  · refine hfits.placed rfl .nil (List.forall_mem_cons.mpr ⟨?_, hrights⟩)
    exact hfits.below hfirst h.other
  · exact hfits.placed rfl .nil
      (List.forall_mem_cons.mpr ⟨hfits.below hfirst h.expression, hrights⟩)

/-- An expression for which a level is left. -/
theorem lowerExpression :
    Placed size func node.span (.expr (levels.lowerExpression source node).value) := by
  rw [Levels.lowerExpression]
  split
  · exact hfits.placed_nil rfl rfl rfl
  · -- a call
    split
    · exact h.other hfits
    · rename_i callee hcallee
      have hargs := h.expressions_below hfits
        fun n (hn : n ∈ ((node.child? .arguments).map Node.parts).getD []) =>
          below_of_mem_partsOf hn
      refine hfits.placed rfl .nil (List.forall_mem_cons.mpr ⟨?_, hargs⟩)
      exact hfits.below (below_of_child? hcallee) h.expression
  · -- a selector
    split
    · rename_i operand field hoperand hfield
      exact hfits.placed_one rfl rfl rfl (hfits.below (below_of_child? hoperand) h.expression)
    · exact h.other hfits
  · -- a function literal
    split
    · exact h.other hfits
    · rename_i body hbody
      exact hfits.placed_one rfl rfl rfl (hfits.below (below_of_child? hbody) h.block)
  · -- a composite literal, and the braces of one without its type
    split
    · exact hfits.placed_nil rfl rfl rfl
    · rename_i body hbody
      exact hfits.placed rfl .nil (h.elements_below hfits (below_of_child? hbody))
  · exact hfits.placed rfl .nil (h.elements_below hfits (.refl node))
  · split
    · exact h.other hfits
    · rename_i operand hoperand
      exact hfits.placed_one rfl rfl rfl (hfits.below (below_of_child? hoperand) h.expression)
  · exact h.binaryChain hfits
  -- parentheses and elements of composite literals take the place of what they hold
  iterate 2
    · split
      · exact h.other hfits
      · rename_i inner hinner
        exact hfits.below (below_of_firstNamed? hinner) h.expression
  -- constants
  iterate 10
    · exact hfits.placed_nil rfl rfl rfl
  · exact h.other hfits

theorem alternative_below (hn : n.Below node) : ∀ alternative ∈ (levels.alternative source n).value,
    Placed size func node.span alternative.phrase := by
  intro alternative halternative
  rw [Levels.alternative] at halternative
  split at halternative
  · obtain rfl := Option.some.inj halternative
    exact hfits.below hn h.block
  · obtain ⟨stmt, hstmt, rfl⟩ := Option.map_eq_some_iff.mp halternative
    exact hfits.below hn fun hn => h.elseIf hn stmt hstmt
  · cases halternative

/-- An `if` statement for which a level is left. -/
theorem lowerIf : ∀ stmt ∈ (levels.lowerIf source node).value,
    Placed size func node.span (.stmt (.ifStmt stmt)) := by
  intro stmt hstmt
  rw [Levels.lowerIf] at hstmt
  split at hstmt
  · rename_i cond consequence hcond hconsequence
    obtain rfl := Option.some.inj hstmt
    have hinit := h.statement?_below hfits (node.child? .initializer) below_of_child?
    refine hfits.placed rfl .nil (List.forall_mem_append.mpr ⟨hinit, ?_⟩)
    refine List.forall_mem_cons.mpr ⟨hfits.below (below_of_child? hcond) h.expression, ?_⟩
    refine List.forall_mem_cons.mpr ⟨hfits.below (below_of_child? hconsequence) h.block, ?_⟩
    intro p hp
    simp only [List.mem_map, Option.mem_toList, Lowered.value_mapM?] at hp
    obtain ⟨alternative, halternative, rfl⟩ := hp
    obtain ⟨n, hn, hread⟩ := Option.map_eq_some_iff.mp (Option.join_eq_some_iff.mp halternative)
    exact h.alternative_below hfits (below_of_child? hn) alternative hread
  · cases hstmt

theorem lowerFor : Placed size func node.span (.stmt (levels.lowerFor source node).value) := by
  rw [Levels.lowerFor]
  split
  · exact hfits.placed_nil rfl rfl rfl
  · rename_i body hbody
    have hbody : ∀ p ∈ [Phrase.block (levels.block source body).value],
        Placed size func node.span p :=
      List.forall_mem_singleton.mpr (hfits.below (below_of_child? hbody) h.block)
    dsimp only [Lowered.value_bind]
    split
    · exact hfits.placed rfl .nil hbody
    · rename_i clause hclause
      have hclause : clause.Below node := below_of_mem_parts (List.mem_of_find?_eq_some hclause)
      have hchild : ∀ {role : Role} {n : Node}, clause.child? role = some n → n.Below node :=
        fun hn => (below_of_child? hn).trans hclause
      split
      · -- a loop with a condition
        have hinit := h.statement?_below hfits (clause.child? .initializer) hchild
        have hcond := h.expression?_below hfits (clause.child? .condition) hchild
        have hpost := h.statement?_below hfits (clause.child? .update) hchild
        refine hfits.placed rfl .nil (List.forall_mem_append.mpr ⟨?_, hbody⟩)
        refine List.forall_mem_append.mpr ⟨List.forall_mem_append.mpr ⟨hinit, hcond⟩, hpost⟩
      · -- a loop over a range
        have hleft := h.expressionList_below hfits (clause.child? .left) hchild
        split
        · rename_i right hright
          have hright := hfits.below (hchild hright) h.expression
          refine hfits.placed rfl .nil (List.forall_mem_append.mpr ⟨hleft, ?_⟩)
          exact List.forall_mem_cons.mpr ⟨hright, hbody⟩
        · -- without anything to range over, a constant stands in the place of the clause
          have hright : Placed size func node.span (.expr (.literal clause.span)) :=
            hfits.below hclause fun hclause => hclause.placed_nil rfl rfl rfl
          refine hfits.placed rfl .nil (List.forall_mem_append.mpr ⟨hleft, ?_⟩)
          exact List.forall_mem_cons.mpr ⟨hright, hbody⟩
      · refine hfits.placed rfl .nil (List.forall_mem_cons.mpr ⟨?_, hbody⟩)
        exact hfits.below hclause h.expression

theorem clauseBody :
    Sequence size func node.span ((clauseNodes node).mapM levels.statement).value := by
  rw [Lowered.value_mapM, List.map_eq_flatMap]
  refine hfits.sequence_flatMap (fun n hn => below_of_mem_clauseNodes hn)
    (inOrder_clauseNodes hfits.nested) fun n hn => .singleton ?_
  exact h.statement (hfits.of_below (below_of_mem_clauseNodes hn))

/-- One clause of a switch or select. -/
theorem clause : Placed size func node.span (.clause (levels.clause node).value) := by
  have hcomm := h.statement?_below hfits (node.child? .communication) below_of_child?
  have hbody := h.clauseBody hfits
  rw [Levels.clause]
  dsimp only
  split
  · have hvalues := h.expressionList_below hfits (node.child? .value) below_of_child?
    refine hfits.placed rfl hbody.apart (List.forall_mem_append.mpr ⟨?_, hbody.placed⟩)
    exact List.forall_mem_append.mpr ⟨hvalues, hcomm⟩
  · exact hfits.placed rfl hbody.apart (List.forall_mem_append.mpr ⟨hcomm, hbody.placed⟩)

omit h hfits in
/-- A clause takes the place of its node. -/
theorem span_clause : (levels.clause node).value.span = node.span := by
  rw [Levels.clause]
  dsimp only
  split <;> rfl

/-- The clauses of a switch or select. -/
theorem clauses :
    (∀ p ∈ (levels.clauses node).value.map Phrase.clause, Placed size func node.span p) ∧
      ((levels.clauses node).value.map CaseClause.span).Pairwise fun a b => a.precedes b := by
  rw [Levels.clauses, Lowered.value_mapM]
  simp only [List.forall_mem_map, List.pairwise_map, span_clause]
  constructor
  · intro n hn
    have hbelow := below_of_mem_namedChildren (List.mem_filter.mp hn).1
    exact hfits.below hbelow h.clause
  · exact hfits.nested.inOrder_namedChildren.filter _

/-- A switch for which a level is left. -/
theorem lowerSwitch : Placed size func node.span (.stmt (levels.lowerSwitch node).value) := by
  have hinit := h.statement?_below hfits (node.child? .initializer) below_of_child?
  have htag := h.expression?_below hfits (node.child? .value) below_of_child?
  obtain ⟨hclauses, hapart⟩ := h.clauses hfits
  refine hfits.placed rfl hapart (List.forall_mem_append.mpr ⟨?_, hclauses⟩)
  exact List.forall_mem_append.mpr ⟨hinit, htag⟩

/-- A receive in a clause of a select. -/
theorem lowerReceive : Placed size func node.span (.stmt (levels.lowerReceive node).value) := by
  have hleft := h.expressionList_below hfits (node.child? .left) below_of_child?
  have hright := h.expression?_below hfits (node.child? .right) below_of_child?
  have hboth := List.forall_mem_append.mpr ⟨hleft, hright⟩
  rw [Levels.lowerReceive]
  dsimp only [Lowered.value_bind]
  split
  · split
    · rename_i e he
      rw [he] at hright
      exact hfits.placed rfl .nil hright
    · exact hfits.placed_nil rfl rfl rfl
  · split
    · exact hfits.placed rfl .nil hboth
    · exact hfits.placed rfl .nil hboth

/-- A labelled statement for which a level is left. -/
theorem lowerLabeled :
    Placed size func node.span (.stmt (levels.lowerLabeled source node).value) := by
  rw [Levels.lowerLabeled]
  split
  · exact hfits.placed_nil rfl rfl rfl
  · rename_i inner hinner
    have hbelow : inner.Below node := below_of_mem_parts (List.mem_of_find?_eq_some hinner)
    exact hfits.placed_one rfl rfl rfl (hfits.below hbelow h.statement)

/-- A statement for which a level is left. -/
theorem lowerStatement :
    Placed size func node.span (.stmt (levels.lowerStatement source node).value) := by
  have hleft := h.expressionList_below hfits (node.child? .left) below_of_child?
  have hright := h.expressionList_below hfits (node.child? .right) below_of_child?
  have hboth := List.forall_mem_append.mpr ⟨hleft, hright⟩
  rw [Levels.lowerStatement]
  split
  · exact hfits.placed_one rfl rfl rfl (h.block hfits)
  -- a short declaration and an assignment
  iterate 2
    · exact hfits.placed rfl .nil hboth
  · exact h.varDeclaration hfits
  · split
    · rename_i e he
      exact hfits.placed_one rfl rfl rfl (hfits.below (below_of_firstNamed? he) h.expression)
    · exact hfits.placed_nil rfl rfl rfl
  · exact hfits.placed rfl .nil
      (h.expressionList_below hfits node.firstNamed? below_of_firstNamed?)
  -- `defer` and `go`
  iterate 2
    · split
      · rename_i call hcall
        exact hfits.placed_one rfl rfl rfl (hfits.below (below_of_firstNamed? hcall) h.expression)
      · exact hfits.placed_nil rfl rfl rfl
  · rw [Lowered.value_bind]
    split
    · rename_i stmt hstmt
      exact h.lowerIf hfits stmt hstmt
    · exact hfits.placed_nil rfl rfl rfl
  · exact h.lowerFor hfits
  iterate 2
    · exact h.lowerSwitch hfits
  · obtain ⟨hclauses, hapart⟩ := h.clauses hfits
    exact hfits.placed rfl hapart hclauses
  · exact h.lowerLabeled hfits
  -- `++` and `--`
  iterate 2
    · split
      · rename_i operand hoperand
        exact hfits.placed_one rfl rfl rfl
          (hfits.below (below_of_firstNamed? hoperand) h.expression)
      · exact hfits.placed_nil rfl rfl rfl
  · split
    · rename_i channel value hchannel hvalue
      have hchannel := hfits.below (below_of_child? hchannel) h.expression
      have hvalue := hfits.below (below_of_child? hvalue) h.expression
      refine hfits.placed rfl .nil (List.forall_mem_cons.mpr ⟨hchannel, ?_⟩)
      exact List.forall_mem_singleton.mpr hvalue
    · exact hfits.placed_nil rfl rfl rfl
  · exact h.lowerReceive hfits
  -- what is read from its place alone
  iterate 8
    · exact hfits.placed_nil rfl rfl rfl

end Lowering

end Levels.Places

/-- Readers with any number of levels keep places, also of what they cut off. -/
theorem Levels.places_upTo (size : Nat) (func : Span) (source : Source) (levels : Nat) :
    Levels.Places size func (upTo source levels) := by
  induction levels with
  | zero =>
    refine ⟨fun hfits => ?_, fun hfits => ?_, fun _ stmt hstmt => ?_⟩
    · exact hfits.placed_nil rfl rfl rfl
    · exact hfits.placed_nil rfl rfl rfl
    · cases hstmt
  | succ levels ih => exact ⟨ih.lowerExpression, ih.lowerStatement, ih.lowerIf⟩

/-! ## Functions and files -/

/-- The declaration that is read from a node takes its place, and its parts lie in it. -/
theorem declarationOf?_wellPlaced {source : Source} {levels size : Nat} {node : Node}
    (hnested : node.Nested) (hsize : node.span.stop ≤ size) {decl : FuncDecl}
    (hdecl : declarationOf? source levels node = some decl) :
    decl.span = node.span ∧ decl.WellPlaced size := by
  obtain ⟨name, -, rfl⟩ := Option.map_eq_some_iff.mp hdecl
  refine ⟨rfl, hnested.ordered, hsize, fun body hbody => ?_⟩
  dsimp only at hbody
  rw [Lowered.value_mapM?] at hbody
  obtain ⟨n, hn, rfl⟩ := Option.map_eq_some_iff.mp hbody
  have hfits : node.Fits size node.span := ⟨hnested, hsize, Span.contains_self _⟩
  exact hfits.below (Node.below_of_child? hn)
    (Levels.places_upTo size node.span source levels).block

section File

variable {source : Source} {maxDepth : Nat} {root : Node} (hnested : root.Nested)
  (hsize : root.span.stop ≤ source.bytes.size)
include hnested hsize

/-- A function of a file has the place of its node, and its parts have their places inside it. -/
theorem wellPlaced_of_mem_functionNodes {node : Node} {decl : FuncDecl}
    (hnode : node ∈ functionNodes root) (hdecl : declarationOf? source maxDepth node = some decl) :
    decl.span = node.span ∧ decl.WellPlaced source.bytes.size := by
  have hbelow := Node.below_of_mem_namedChildren (List.mem_filter.mp hnode).1
  have hstop := ((Span.contains_iff _ _).mp (hnested.contains hbelow)).2
  exact declarationOf?_wellPlaced (hnested.of_below hbelow) (Nat.le_trans hstop hsize) hdecl

theorem wellPlaced_of_mem_functions {decl : FuncDecl}
    (hdecl : decl ∈ (fileOf source maxDepth root).functions) :
    decl.WellPlaced source.bytes.size := by
  rw [functions_fileOf] at hdecl
  obtain ⟨node, hnode, hread⟩ := List.mem_filterMap.mp hdecl
  exact (wellPlaced_of_mem_functionNodes hnested hsize hnode hread).2

end File

/-- **What is read from a tree whose places nest has its own places nested.** Under any limit of
nesting, every expression, statement, clause and block lies in the source, in its function and in
what it is part of. The statements of each list, the clauses of each switch and select and the
functions of the file follow each other without overlap. -/
theorem fileOf_wellPlaced (source : Source) (maxDepth : Nat) {root : Node} (hnested : root.Nested)
    (hsize : root.span.stop ≤ source.bytes.size) :
    (fileOf source maxDepth root).WellPlaced source.bytes.size := by
  refine ⟨fun _ hdecl => wellPlaced_of_mem_functions hnested hsize hdecl, ?_⟩
  have hspan : ∀ {node : Node} {decl : FuncDecl}, node ∈ functionNodes root →
      declarationOf? source maxDepth node = some decl → decl.span = node.span :=
    fun hnode hread => (wellPlaced_of_mem_functionNodes hnested hsize hnode hread).1
  rw [functions_fileOf]
  refine List.pairwise_filterMap.mpr ((hnested.inOrder_namedChildren.filter _).imp_of_mem ?_)
  intro a b ha hb hprecedes f hf g hg
  rw [hspan ha hf, hspan hb hg]
  exact hprecedes

/-- The statement `name()` at the given place. -/
def callAt (start stop : Nat) : Node where
  kind := .expressionStatement
  span := ⟨start, stop⟩
  children := [
    { kind := .callExpression
      span := ⟨start, stop⟩
      children := [{ kind := .identifier, role := some .function, span := ⟨start, stop - 2⟩ }] }]

theorem nested_callAt {start stop : Nat} (h : start + 2 ≤ stop) : (callAt start stop).Nested := by
  refine .mk (by dsimp only [callAt]; omega) ?_ (List.pairwise_singleton _ _) ?_
  · simp [callAt]
  · refine List.forall_mem_singleton.mpr
      (.mk (by dsimp only; omega) ?_ (List.pairwise_singleton _ _) ?_)
    · simp [Span.contains]
    · refine List.forall_mem_singleton.mpr (.mk (by dsimp only; omega) ?_ .nil ?_) <;> simp

/-- The statements of `func f() { stop(); run() }`, whose calls take more than the two levels that
are read. -/
theorem fileOf_wellPlaced_twoCalls :
    let body : Node := { kind := .block, role := some .body, span := ⟨9, 26⟩
                         children := [callAt 11 17, callAt 19 24] }
    let name : Node := { kind := .identifier, role := some .name, span := ⟨5, 6⟩ }
    let function : Node := { kind := .functionDeclaration, span := ⟨0, 26⟩
                             children := [name, body] }
    let root : Node := { kind := .sourceFile, span := ⟨0, 26⟩, children := [function] }
    let source : Source := ⟨"func f() { stop(); run() }".toUTF8⟩
    root.Nested ∧ (fileOf source 2 root).WellPlaced source.bytes.size ∧
      ((fileOf source 2 root).functions.filterMap (·.body)).map (·.stmts.map Stmt.span) =
        [[⟨11, 17⟩, ⟨19, 24⟩]] := by
  intro body name function root source
  have hbody : body.Nested := by
    refine .mk (by decide) (by decide) (by decide) (List.forall_mem_cons.mpr ⟨?_, ?_⟩)
    · exact nested_callAt (by decide)
    · exact List.forall_mem_singleton.mpr (nested_callAt (by decide))
  have hname : name.Nested := .mk (by decide) (by decide) .nil (by simp [name])
  have hfunction : function.Nested := .mk (by decide) (by decide) (by decide)
    (List.forall_mem_cons.mpr ⟨hname, List.forall_mem_singleton.mpr hbody⟩)
  have hroot : root.Nested := .mk (by decide) (by decide) (List.pairwise_singleton _ _)
    (List.forall_mem_singleton.mpr hfunction)
  exact ⟨hroot, fileOf_wellPlaced source 2 hroot (by decide), rfl⟩

end Concrete

end TxLifecycle
