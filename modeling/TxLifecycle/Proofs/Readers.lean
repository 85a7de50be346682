import Mathlib.Data.List.Basic
import TxLifecycle.Proofs.Subtrees

/-!
# Readers of concrete trees

The readers of a file share two cells, for the levels that are entered and for the mark of the
current function. What they read from a node depends on the cells only through the number of levels
that are left, and they come back to the depth at which they started.

* `Correspondence`: a relation between what two monads do, which goes over from parts to what is
  made of them;
* `Levels.Correspond`: the readers of two monads correspond on every part that has the same texts
  for both. One lemma each says that what they read from larger parts then corresponds as well;
* `Levels.upTo`: reading without cells, where the readers are on top of each other as often as
  levels are left;
* `Levels.correspond_counting`: reading with the cells gives the same, and leaves the depth as it
  was;
* `run_functionOf?`, `functions_fileOf`: so each function of a file is read as if it stood alone.
-/

namespace TxLifecycle.Concrete

/-! ## Monads that correspond -/

/-- A relation between what two monads do. It holds of parts done one after another if it holds of
each. -/
structure Correspondence (m n : Type → Type) [Monad m] [Monad n] where
  Rel {α : Type} : m α → n α → Prop
  pure {α : Type} (a : α) : Rel (pure a) (pure a)
  bind {α β : Type} {x : m α} {y : n α} {f : α → m β} {g : α → n β} :
    Rel x y → (∀ a, Rel (f a) (g a)) → Rel (x >>= f) (y >>= g)

namespace Correspondence

variable {m n : Type → Type} [Monad m] [Monad n] [LawfulMonad m] [LawfulMonad n]
  (R : Correspondence m n) {α β : Type} {f : α → m β} {g : α → n β}

/-- A part that is used as it is read. -/
theorem map {x : m α} {y : n α} (h : R.Rel x y) (f : α → β) : R.Rel (f <$> x) (f <$> y) := by
  rw [map_eq_pure_bind, map_eq_pure_bind]
  exact R.bind h fun a => R.pure (f a)

theorem mapM {parts : List α} (h : ∀ a ∈ parts, R.Rel (f a) (g a)) :
    R.Rel (parts.mapM f) (parts.mapM g) := by
  induction parts with
  | nil => exact R.pure []
  | cons a rest ih =>
    rw [List.mapM_cons, List.mapM_cons]
    refine R.bind (h a List.mem_cons_self) fun _ => ?_
    exact R.bind (ih fun b hb => h b (List.mem_cons_of_mem _ hb)) fun _ => R.pure _

/-- A part that may be absent. -/
theorem mapM? {part : Option α} (h : ∀ a, part = some a → R.Rel (f a) (g a)) :
    R.Rel (part.mapM f) (part.mapM g) := by
  cases part with
  | none => exact R.pure none
  | some a => exact R.map (h a rfl) some

end Correspondence

/-! ## Texts -/

/-- The nodes of a tree have the same texts in both sources. -/
def Node.SameText (source source' : Source) (node : Node) : Prop :=
  ∀ n : Node, n.Below node → source'.text n = source.text n

section Texts

variable {source source' : Source} {node n : Node}

/-- A source has the same texts as itself. -/
theorem Node.SameText.refl (source : Source) (node : Node) : node.SameText source source :=
  fun _ _ => rfl

variable (h : node.SameText source source')
include h

/-- The nodes of a part have the same texts. -/
theorem Node.SameText.of_below (hn : n.Below node) : n.SameText source source' :=
  fun m hm => h m (hm.trans hn)

theorem Node.SameText.of_child {role : Role} (hn : node.child? role = some n) :
    n.SameText source source' :=
  h.of_below (below_of_child? hn)

/-- A node in a role has the same text. -/
theorem Node.SameText.child? (role : Role) :
    (node.child? role).map source'.text = (node.child? role).map source.text :=
  Option.map_congr fun child hchild => h child (below_of_child? hchild)

theorem Node.SameText.childrenIn (role : Role) :
    (node.childrenIn role).map source'.text = (node.childrenIn role).map source.text :=
  List.map_congr_left fun n hn => h n (below_of_mem_children (List.mem_filter.mp hn).1)

/-- The parameters of a declaration are the same. -/
theorem paramsOf_eq : paramsOf source' node = paramsOf source node := by
  have hnames : ∀ name ∈ node.childrenIn .name, source'.text name = source.text name :=
    fun name hname => h name (Node.below_of_mem_children (List.mem_filter.mp hname).1)
  rw [paramsOf, paramsOf, h.child?]
  split
  · rfl
  · exact List.map_congr_left fun name hname => by rw [hnames name hname]

/-- The parameters of a list are the same. -/
theorem parametersOf_eq : parametersOf source' node = parametersOf source node := by
  refine List.flatMap_congr fun decl hdecl => ?_
  exact paramsOf_eq (h.of_below (Node.below_of_mem_namedChildren (List.mem_filter.mp hdecl).1))

/-- The parameters of a node that has a list of them are the same. -/
theorem parameters_eq (role : Role) :
    (node.child? role).map (parametersOf source') = (node.child? role).map (parametersOf source) :=
  Option.map_congr fun _ hchild => parametersOf_eq (h.of_child hchild)

end Texts

/-! ## Readers that correspond -/

section Correspond

variable {m n : Type → Type} [Monad m] [Monad n]

/-- Two readers correspond on every part that has the same texts for both. -/
structure Levels.Correspond (R : Correspondence m n) (source source' : Source) (levels : Levels m)
    (levels' : Levels n) : Prop where
  expression : ∀ {node : Node}, node.SameText source source' →
    R.Rel (levels.expression node) (levels'.expression node)
  statement : ∀ {node : Node}, node.SameText source source' →
    R.Rel (levels.statement node) (levels'.statement node)
  elseIf : ∀ {node : Node}, node.SameText source source' →
    R.Rel (levels.elseIf node) (levels'.elseIf node)

namespace Levels.Correspond

open Node

variable [LawfulMonad m] [LawfulMonad n] {R : Correspondence m n} {source source' : Source}
  {levels : Levels m} {levels' : Levels n} {node : Node}

section

variable (h : Correspond R source source' levels levels')
include h

theorem expressions {nodes : List Node} (hnodes : ∀ n ∈ nodes, n.SameText source source') :
    R.Rel (nodes.mapM levels.expression) (nodes.mapM levels'.expression) :=
  R.mapM fun n hn => h.expression (hnodes n hn)

/-- A list of expressions that may be absent. -/
theorem expressionList (list? : Option Node)
    (hlist : ∀ n, list? = some n → n.SameText source source') :
    R.Rel (levels.expressionList list?) (levels'.expressionList list?) := by
  cases list? with
  | none => exact R.pure _
  | some n =>
    have hn := hlist n rfl
    rw [Levels.expressionList, Levels.expressionList]
    split
    · exact h.expressions fun m hm => hn.of_below (below_of_mem_parts hm)
    · exact R.map (h.expression hn) _

theorem expression? (part? : Option Node)
    (hpart : ∀ n, part? = some n → n.SameText source source') :
    R.Rel (part?.mapM levels.expression) (part?.mapM levels'.expression) :=
  R.mapM? fun n hn => h.expression (hpart n hn)

theorem statement? (part? : Option Node) (hpart : ∀ n, part? = some n → n.SameText source source') :
    R.Rel (part?.mapM levels.statement) (part?.mapM levels'.statement) :=
  R.mapM? fun n hn => h.statement (hpart n hn)

end

variable (h : Correspond R source source' levels levels') (htext : node.SameText source source')

include h htext

/-- Any node. -/
theorem other : R.Rel (levels.other node) (levels'.other node) :=
  R.bind (h.expressions fun _ hm => htext.of_below (below_of_mem_parts hm)) fun _ => R.pure _

/-- The specifications of a `var` declaration. -/
theorem varSpecs : R.Rel (levels.varSpecs source node) (levels'.varSpecs source' node) := by
  refine R.mapM fun spec hspec => ?_
  have hspecText := htext.of_below (below_of_mem_varSpecsOf hspec)
  rw [hspecText.childrenIn]
  refine R.bind (h.expressionList _ fun n hn => ?_) fun _ => R.pure _
  exact hspecText.of_below (below_of_child? hn)

/-- A `var` declaration that stands for one statement. -/
theorem varDeclaration :
    R.Rel (levels.varDeclaration source node) (levels'.varDeclaration source' node) := by
  refine R.bind (h.varSpecs htext) fun specs => ?_
  split <;> exact R.pure _

/-- What a node of a statement list stands for. -/
theorem listed : R.Rel (levels.listed source node) (levels'.listed source' node) := by
  rw [Levels.listed, Levels.listed]
  split
  · exact h.varSpecs htext
  · exact R.map (h.statement htext) _

/-- A block. -/
theorem block : R.Rel (levels.block source node) (levels'.block source' node) := by
  refine R.bind (R.mapM fun n hn => ?_) fun _ => R.pure _
  exact h.listed (htext.of_below (below_of_mem_statementNodes hn))

/-- A keyed element of a literal value. -/
theorem keyedElement : R.Rel (levels.keyedElement node) (levels'.keyedElement node) := by
  rw [Levels.keyedElement, Levels.keyedElement]
  split
  · rename_i key value hkey hvalue
    refine R.bind (h.expression (htext.of_below (below_of_key hkey))) fun _ => ?_
    exact R.bind (h.expression (htext.of_below (below_of_value hvalue))) fun _ => R.pure _
  · exact h.other htext

theorem elements : R.Rel (levels.elements node) (levels'.elements node) := by
  refine R.mapM fun element helement => ?_
  have htext' := htext.of_below (below_of_mem_parts helement)
  split
  · exact h.keyedElement htext'
  · exact h.expression htext'

theorem binaryChain : R.Rel (levels.binaryChain node) (levels'.binaryChain node) := by
  rw [Levels.binaryChain, Levels.binaryChain]
  obtain ⟨hrights, hfirst⟩ := below_of_leftSpine node
  generalize leftSpine node = spine at hrights hfirst
  have hrights := h.expressions fun n hn => htext.of_below (hrights n (List.mem_reverse.mp hn))
  dsimp only
  split
  · exact R.bind (h.other (htext.of_below hfirst)) fun _ => R.bind hrights fun _ => R.pure _
  · exact R.bind (h.expression (htext.of_below hfirst)) fun _ => R.bind hrights fun _ => R.pure _

/-- An expression for which a level is left. -/
theorem lowerExpression :
    R.Rel (levels.lowerExpression source node) (levels'.lowerExpression source' node) := by
  rw [Levels.lowerExpression, Levels.lowerExpression]
  split
  · -- an identifier
    rw [htext node (.refl node)]
    exact R.pure _
  · -- a call
    split
    · exact h.other htext
    · rename_i func hfunc
      refine R.bind (h.expression (htext.of_child hfunc)) fun _ => ?_
      refine R.bind (h.expressions fun n hn => ?_) fun _ => R.pure _
      exact htext.of_below (below_of_mem_partsOf hn)
  · -- a selector
    split
    · rename_i operand field hoperand hfield
      rw [htext field (below_of_child? hfield)]
      exact R.bind (h.expression (htext.of_child hoperand)) fun _ => R.pure _
    · exact h.other htext
  · -- a function literal
    split
    · exact h.other htext
    · rename_i body hbody
      rw [parameters_eq htext]
      exact R.bind (h.block (htext.of_child hbody)) fun _ => R.pure _
  · -- a composite literal, and the braces of one without its type
    split
    · exact R.pure _
    · rename_i body hbody
      exact R.bind (h.elements (htext.of_child hbody)) fun _ => R.pure _
  · exact R.bind (h.elements htext) fun _ => R.pure _
  · -- an operator with one operand
    split
    · exact h.other htext
    · rename_i operand hoperand
      rw [htext.child?]
      exact R.bind (h.expression (htext.of_child hoperand)) fun _ => R.pure _
  · exact h.binaryChain htext
  -- parentheses and elements of composite literals, which are read as what they hold
  iterate 2
    · split
      · exact h.other htext
      · rename_i inner hinner
        exact h.expression (htext.of_below (below_of_firstNamed? hinner))
  -- constants
  iterate 10
    · exact R.pure _
  · exact h.other htext

/-- What follows `else`. -/
theorem alternative :
    R.Rel (levels.alternative source node) (levels'.alternative source' node) := by
  rw [Levels.alternative, Levels.alternative]
  split
  · exact R.bind (h.block htext) fun _ => R.pure _
  · exact R.bind (h.elseIf htext) fun _ => R.pure _
  · exact R.pure _

/-- An `if` statement for which a level is left. -/
theorem lowerIf : R.Rel (levels.lowerIf source node) (levels'.lowerIf source' node) := by
  rw [Levels.lowerIf, Levels.lowerIf]
  split
  · rename_i cond consequence hcond hconsequence
    refine R.bind (R.mapM? fun n hn => h.alternative (htext.of_child hn)) fun _ => ?_
    refine R.bind (h.statement? _ fun _ => htext.of_child) fun _ => ?_
    refine R.bind (h.expression (htext.of_child hcond)) fun _ => ?_
    exact R.bind (h.block (htext.of_child hconsequence)) fun _ => R.pure _
  · exact R.pure _

theorem lowerFor : R.Rel (levels.lowerFor source node) (levels'.lowerFor source' node) := by
  rw [Levels.lowerFor, Levels.lowerFor]
  split
  · exact R.pure _
  · rename_i body hbody
    refine R.bind (h.block (htext.of_child hbody)) fun _ => ?_
    split
    · exact R.pure _
    · rename_i clause hclause
      have hclauseText : clause.SameText source source' :=
        htext.of_below (below_of_mem_parts (List.mem_of_find?_eq_some hclause))
      split
      · refine R.bind (h.statement? _ fun _ => hclauseText.of_child) fun _ => ?_
        refine R.bind (h.expression? _ fun _ => hclauseText.of_child) fun _ => ?_
        exact R.bind (h.statement? _ fun _ => hclauseText.of_child) fun _ => R.pure _
      · have hleft := h.expressionList (clause.child? .left) fun _ => hclauseText.of_child
        dsimp only
        split
        · rename_i right hright
          exact R.bind (h.expression (hclauseText.of_child hright)) fun _ =>
            R.bind hleft fun _ => R.pure _
        · exact R.bind (R.pure _) fun _ => R.bind hleft fun _ => R.pure _
      · exact R.bind (h.expression hclauseText) fun _ => R.pure _

/-- One clause of a switch or select. -/
theorem clause : R.Rel (levels.clause node) (levels'.clause node) := by
  have hbody : R.Rel ((Levels.clauseNodes node).mapM levels.statement)
      ((Levels.clauseNodes node).mapM levels'.statement) :=
    R.mapM fun n hn => h.statement (htext.of_below (below_of_mem_clauseNodes hn))
  have hcomm := h.statement? (node.child? .communication) fun _ => htext.of_child
  rw [Levels.clause, Levels.clause]
  dsimp only
  split
  · refine R.bind (h.expressionList _ fun _ => htext.of_child) fun _ => ?_
    exact R.bind hcomm fun _ => R.bind hbody fun _ => R.pure _
  · exact R.bind (R.pure _) fun _ => R.bind hcomm fun _ => R.bind hbody fun _ => R.pure _

/-- The clauses of a switch or select. -/
theorem clauses : R.Rel (levels.clauses node) (levels'.clauses node) :=
  R.mapM fun _ hn =>
    h.clause (htext.of_below (below_of_mem_namedChildren (List.mem_filter.mp hn).1))

/-- A switch for which a level is left. -/
theorem lowerSwitch : R.Rel (levels.lowerSwitch node) (levels'.lowerSwitch node) := by
  refine R.bind (h.statement? _ fun _ => htext.of_child) fun _ => ?_
  refine R.bind (h.expression? _ fun _ => htext.of_child) fun _ => ?_
  exact R.bind (h.clauses htext) fun _ => R.pure _

/-- A receive in a clause of a select. -/
theorem lowerReceive : R.Rel (levels.lowerReceive node) (levels'.lowerReceive node) := by
  refine R.bind (h.expression? _ fun _ => htext.of_child) fun right => ?_
  refine R.bind (h.expressionList _ fun _ => htext.of_child) fun left => ?_
  split
  · cases right <;> exact R.pure _
  · split <;> exact R.pure _

omit [LawfulMonad m] [LawfulMonad n] in
/-- A labelled statement for which a level is left. -/
theorem lowerLabeled :
    R.Rel (levels.lowerLabeled source node) (levels'.lowerLabeled source' node) := by
  rw [Levels.lowerLabeled, Levels.lowerLabeled]
  split
  · exact R.pure _
  · rename_i inner hinner
    rw [htext.child?]
    have hmem := List.mem_of_find?_eq_some hinner
    exact R.bind (h.statement (htext.of_below (below_of_mem_parts hmem))) fun _ => R.pure _

/-- A statement for which a level is left. -/
theorem lowerStatement :
    R.Rel (levels.lowerStatement source node) (levels'.lowerStatement source' node) := by
  have hfirst : ∀ {n : Node}, node.firstNamed? = some n → n.SameText source source' :=
    fun hn => htext.of_below (below_of_firstNamed? hn)
  rw [Levels.lowerStatement, Levels.lowerStatement]
  split
  · exact R.bind (h.block htext) fun _ => R.pure _
  -- a short declaration and an assignment
  iterate 2
    · refine R.bind (h.expressionList _ fun _ => htext.of_child) fun _ => ?_
      exact R.bind (h.expressionList _ fun _ => htext.of_child) fun _ => R.pure _
  · exact h.varDeclaration htext
  · split
    · rename_i e he
      exact R.bind (h.expression (hfirst he)) fun _ => R.pure _
    · exact R.pure _
  · exact R.bind (h.expressionList _ fun n hn => hfirst hn) fun _ => R.pure _
  -- `defer` and `go`
  iterate 2
    · split
      · rename_i call hcall
        exact R.bind (h.expression (hfirst hcall)) fun _ => R.pure _
      · exact R.pure _
  · refine R.bind (h.lowerIf htext) fun stmt => ?_
    cases stmt <;> exact R.pure _
  · exact h.lowerFor htext
  iterate 2
    · exact h.lowerSwitch htext
  · exact R.bind (h.clauses htext) fun _ => R.pure _
  · exact h.lowerLabeled htext
  -- `++` and `--`
  iterate 2
    · split
      · rename_i operand hoperand
        exact R.bind (h.expression (hfirst hoperand)) fun _ => R.pure _
      · exact R.pure _
  · split
    · rename_i channel value hchannel hvalue
      refine R.bind (h.expression (htext.of_child hchannel)) fun _ => ?_
      exact R.bind (h.expression (htext.of_child hvalue)) fun _ => R.pure _
    · exact R.pure _
  · exact h.lowerReceive htext
  -- what is read from its place alone
  iterate 8
    · exact R.pure _

end Levels.Correspond

end Correspond

/-! ## Reading by the levels that are left -/

/-- A value read from a concrete tree, and whether something in it was cut off. -/
structure Lowered (α : Type) where
  value : α
  /-- Some part was nested too deeply to be read. -/
  cut : Bool := false

namespace Lowered

/-- Read one part after another: something is cut off if it is in either part. -/
instance : Monad Lowered where
  pure a := { value := a }
  bind x f := { value := (f x.value).value, cut := x.cut || (f x.value).cut }

instance : LawfulMonad Lowered := .mk' _
  (fun _ => by simp [Functor.map])
  (fun _ _ => by simp [bind, pure])
  (fun _ _ _ => by simp [bind, Bool.or_assoc])

variable {α β : Type}

@[simp]
theorem value_pure (a : α) : (pure a : Lowered α).value = a := rfl

@[simp]
theorem cut_pure (a : α) : (pure a : Lowered α).cut = false := rfl

/-- The values of two parts, one read after the other. -/
@[simp]
theorem value_bind (x : Lowered α) (f : α → Lowered β) : (x >>= f).value = (f x.value).value := rfl

/-- Something is cut off if it is in either part. -/
@[simp]
theorem cut_bind (x : Lowered α) (f : α → Lowered β) :
    (x >>= f).cut = (x.cut || (f x.value).cut) := rfl

/-- A value that is used as it is read. -/
@[simp]
theorem value_map (f : α → β) (x : Lowered α) : (f <$> x).value = f x.value := rfl

/-- The values of the parts of a list. -/
@[simp]
theorem value_mapM (read : α → Lowered β) (parts : List α) :
    (parts.mapM read).value = parts.map fun a => (read a).value := by
  induction parts with
  | nil => simp
  | cons a rest ih => simp [ih]

/-- The value of a part that may be absent. -/
@[simp]
theorem value_mapM? (read : α → Lowered β) (part : Option α) :
    (part.mapM read).value = part.map fun a => (read a).value := by
  cases part <;> rfl

end Lowered

namespace Levels

/-- Readers that cut everything off. -/
def none : Levels Lowered where
  expression node := { value := node.cutExpr, cut := true }
  statement node := { value := node.unreadStmt, cut := true }
  elseIf _ := { value := .none, cut := true }

/-- Readers for which `levels` levels are left. -/
def upTo (source : Source) : Nat → Levels Lowered
  | 0 => none
  | levels + 1 =>
    { expression := fun node => (upTo source levels).lowerExpression source node
      statement := fun node => (upTo source levels).lowerStatement source node
      elseIf := fun node => (upTo source levels).lowerIf source node }

end Levels

/-! ## Cells that come back -/

namespace Counted

variable {α : Type} {maxDepth depth : Nat} {x : Lowered α} {cut : α} {read : Counted α}

/-- Reading with cells, where `depth` levels are entered, gives the same as reading without them. It
comes back to that depth, and marks the function if something is cut off. -/
def atDepth (depth : Nat) : Correspondence Lowered Counted where
  Rel x read := ∀ exceeded, read.run ⟨depth, exceeded⟩ = (x.value, ⟨depth, exceeded || x.cut⟩)
  pure a exceeded := by rw [Lowered.cut_pure, Bool.or_false]; rfl
  bind {α β x read f g} hx hf exceeded := by
    change (g (read.run _).1).run (read.run _).2 = _
    rw [hx, hf, Lowered.value_bind, Lowered.cut_bind, Bool.or_assoc]

/-- A level is entered while fewer than `maxDepth` are. -/
theorem run_descend (maxDepth : Nat) (cells : Cells) :
    (descend maxDepth).run cells =
      if maxDepth ≤ cells.depth then (false, { cells with exceeded := true })
      else (true, { cells with depth := cells.depth + 1 }) := by
  rw [descend, StateT.run_bind]
  exact apply_ite (fun reading : Counted Bool => reading.run cells) _ _ _

/-- Where no level is left, the part is cut off and the function marked. -/
theorem nested_of_le (h : maxDepth ≤ depth) :
    (atDepth depth).Rel { value := cut, cut := true } (nested maxDepth cut read) := by
  intro exceeded
  rw [nested, StateT.run_bind, run_descend, if_pos h, Bool.or_true]
  rfl

/-- A part is read one level further in, and the level is left after it. -/
theorem nested_of_lt (h : depth < maxDepth) (hread : (atDepth (depth + 1)).Rel x read) :
    (atDepth depth).Rel x (nested maxDepth cut read) := by
  intro exceeded
  rw [nested, StateT.run_bind, run_descend, if_neg (Nat.not_le.mpr h)]
  change (ascend >>= fun _ => pure (read.run _).1).run (read.run _).2 = _
  rw [hread]
  rfl

end Counted

/-- The readers of a file do what the readers for the levels that are left do. -/
theorem Levels.correspond_counting (source : Source) {maxDepth depth readers : Nat}
    (h : maxDepth - depth < readers) :
    Correspond (Counted.atDepth depth) source source (upTo source (maxDepth - depth))
      (counting source maxDepth readers) := by
  -- every reader enters a level, and there are more of them than levels left
  induction readers generalizing depth with
  | zero => exact absurd h (Nat.not_lt_zero _)
  | succ readers ih =>
    cases hleft : maxDepth - depth with
    | zero =>
      have hle : maxDepth ≤ depth := Nat.le_of_sub_eq_zero hleft
      exact ⟨fun _ => Counted.nested_of_le hle, fun _ => Counted.nested_of_le hle,
        fun _ => Counted.nested_of_le hle⟩
    | succ left =>
      have hlt : depth < maxDepth := by omega
      have hparts := @ih (depth + 1) (by omega)
      rw [show maxDepth - (depth + 1) = left by omega] at hparts
      exact ⟨fun htext => Counted.nested_of_lt hlt (hparts.lowerExpression htext),
        fun htext => Counted.nested_of_lt hlt (hparts.lowerStatement htext),
        fun htext => Counted.nested_of_lt hlt (hparts.lowerIf htext)⟩

/-! ## Functions -/

/-- The declaration of a function or method, read with `levels` levels of nesting and without
cells. -/
def declarationOf? (source : Source) (levels : Nat) (node : Node) : Option FuncDecl :=
  (node.child? .name).map fun name =>
    let body := (node.child? .body).mapM ((Levels.upTo source levels).block source)
    { name := source.text name
      receiver := ((node.child? .receiver).map (parametersOf source)).bind List.head?
      params := ((node.child? .parameters).map (parametersOf source)).getD []
      body := body.value
      span := node.span
      nestingExceeded := body.cut }

/-- What a file reads as a function is what its node alone is read as, with the levels that are
left. The cells come back to their depth, and hold the mark of the function. -/
theorem run_functionOf? (source : Source) (maxDepth : Nat) (node : Node) (cells : Cells) :
    let decl? := declarationOf? source (maxDepth - cells.depth) node
    (functionOf? source maxDepth node).run cells =
      (decl?, ⟨cells.depth, (decl?.map (·.nestingExceeded)).getD cells.exceeded⟩) := by
  rw [functionOf?, declarationOf?]
  cases node.child? .name with
  | none => rfl
  | some name =>
    have hlevels := Levels.correspond_counting source
      (Nat.lt_succ_of_le (Nat.sub_le maxDepth cells.depth))
    have hbody := (Counted.atDepth cells.depth).mapM?
      (fun body (_ : node.child? .body = some body) =>
        hlevels.block (Node.SameText.refl source body)) false
    rw [Bool.false_or] at hbody
    simp only [Option.mapM_some, StateT.run_map, StateT.run_bind, StateT.run_modify, pure_bind]
    rw [hbody]
    rfl

/-- The functions of a file are read one after another, and each as if it stood alone. -/
theorem run_functions (source : Source) (maxDepth : Nat) (nodes : List Node) (cells : Cells) :
    ∃ exceeded, (nodes.mapM (functionOf? source maxDepth)).run cells =
      (nodes.map (declarationOf? source (maxDepth - cells.depth)), ⟨cells.depth, exceeded⟩) := by
  -- the depth comes back, and the mark that a function leaves is not read by the next one
  induction nodes generalizing cells with
  | nil => exact ⟨cells.exceeded, rfl⟩
  | cons node rest ih =>
    let decl? := declarationOf? source (maxDepth - cells.depth) node
    obtain ⟨exceeded, hrest⟩ :=
      ih ⟨cells.depth, (decl?.map (·.nestingExceeded)).getD cells.exceeded⟩
    refine ⟨exceeded, ?_⟩
    rw [List.mapM_cons, StateT.run_bind, run_functionOf?]
    change (rest.mapM (functionOf? source maxDepth) >>= fun decls =>
      pure (decl? :: decls)).run _ = _
    rw [StateT.run_bind, hrest]
    rfl

/-- The functions of a file. -/
theorem functions_fileOf (source : Source) (maxDepth : Nat) (root : Node) :
    (fileOf source maxDepth root).functions =
      (functionNodes root).filterMap (declarationOf? source maxDepth) := by
  obtain ⟨exceeded, hrun⟩ := run_functions source maxDepth (functionNodes root) {}
  calc (fileOf source maxDepth root).functions
    _ = (((functionNodes root).mapM (functionOf? source maxDepth)).run {}).1.filterMap id := rfl
    _ = ((functionNodes root).map (declarationOf? source maxDepth)).filterMap id := by
      rw [hrun]
      rfl
    _ = _ := by rw [List.filterMap_map, Function.id_comp]

end TxLifecycle.Concrete
