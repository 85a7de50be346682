import Mathlib.Data.ENat.Lattice
import Mathlib.Order.CompletePartialOrder
import TxLifecycle.Proofs.NestingLimit

/-!
# Chains of operands

`a + b + c` nests to the left, but is read as one list of operands. `Levels.expression_operands`
says that the list is the one of the recursive definition, `Node.Operands`, with every operand read
on its own, and that a chain of any length takes one level on top of those of its deepest operand.
-/

namespace TxLifecycle.Concrete

/-- The operands of an expression from left to right, where every binary expression on its left
spine has both operands. -/
inductive Node.Operands : Node → List Node → Prop where
  | single {node : Node} (hkind : node.kind ≠ .binaryExpression) : Operands node [node]
  | binary {node left right : Node} {operands : List Node} (hkind : node.kind = .binaryExpression)
      (hleft : node.child? .left = some left) (hright : node.child? .right = some right)
      (h : Operands left operands) : Operands node (operands ++ [right])

/-- The smallest number of levels with which nothing of an expression is cut off. -/
noncomputable def levelsNeeded (source : Source) (node : Node) : ℕ∞ :=
  ⨅ (d : ℕ) (_ : ((Levels.upTo source d).expression node).cut = false), (d : ℕ∞)

variable {source : Source} {node left right : Node} {operands : List Node} {d : ℕ}

/-- The levels that suffice are the smallest number of them and all larger ones. -/
theorem levelsNeeded_le_iff :
    levelsNeeded source node ≤ d ↔ ((Levels.upTo source d).expression node).cut = false := by
  constructor
  · intro hle
    by_contra hcut
    refine absurd hle (not_le.mpr ((ENat.natCast_lt_natCast.mpr d.lt_succ_self).trans_le ?_))
    -- what is not cut off with some number of levels is not with a larger one either
    refine le_iInf₂ fun e he => Nat.cast_le.mpr (Nat.lt_of_not_le fun hed => hcut ?_)
    have hagree := @Levels.correspond_upTo False source source e d False.elim hed
    rw [hagree.expression (Node.SameText.refl source node) (.inr he), he]
  · exact fun hcut => iInf₂_le d hcut

/-- The operands among the children of a node, from the first left one on. -/
theorem spineOf_eq {children : List Node} (hright : node.child? .right = some right)
    (hleft : children.find? (·.role == some .left) = some left) :
    leftSpine.spineOf children node = (right :: (leftSpine left).1, (leftSpine left).2) := by
  induction children with
  | nil => cases hleft
  | cons child rest ih =>
    rw [leftSpine.spineOf]
    rw [List.find?_cons] at hleft
    cases hrole : child.role == some .left with
    | false =>
      rw [hrole] at hleft
      exact ih hleft
    | true =>
      rw [hrole] at hleft
      cases hleft
      rw [if_pos rfl, hright]

/-- The spine of an expression ends at the first operand, and holds the others in reverse. -/
theorem Node.Operands.eq_leftSpine (h : node.Operands operands) :
    operands = (leftSpine node).2 :: (leftSpine node).1.reverse ∧
      (leftSpine node).2.kind ≠ .binaryExpression := by
  induction h with
  | @single node hkind =>
    obtain ⟨kind, role, span, children⟩ := node
    rw [leftSpine, if_neg (by simpa using hkind)]
    exact ⟨rfl, hkind⟩
  | @binary node left right operands hkind hleft hright _ ih =>
    obtain ⟨kind, role, span, children⟩ := node
    rw [leftSpine, if_pos (by simpa using hkind), spineOf_eq hright hleft, ih.1]
    exact ⟨by simp, ih.2⟩

@[simp]
theorem Lowered.cut_map {α β : Type} (f : α → β) (x : Lowered α) : (f <$> x).cut = x.cut :=
  Bool.or_false _

/-- Something of a list is cut off where something of a member is. -/
theorem Lowered.cut_mapM {α β : Type} (read : α → Lowered β) (parts : List α) :
    (parts.mapM read).cut = parts.any fun a => (read a).cut := by
  induction parts with
  | nil => rfl
  | cons a rest ih => simp [ih]

/-- A chain is read as its operands are. -/
theorem Node.Operands.binaryChain (h : node.Operands operands) (levels : Levels Lowered) :
    levels.binaryChain node =
      (.other node.kind.text · node.span) <$> operands.mapM levels.expression := by
  obtain ⟨rfl, hfirst⟩ := h.eq_leftSpine
  rw [Levels.binaryChain]
  generalize leftSpine node = spine at hfirst
  obtain ⟨rights, first⟩ := spine
  simp [hfirst]

/-- A binary expression is read as a chain. -/
theorem Levels.expression_upTo_succ (hkind : node.kind = .binaryExpression) (d : ℕ) :
    (upTo source (d + 1)).expression node = (upTo source d).binaryChain node := by
  change (upTo source d).lowerExpression source node = _
  rw [lowerExpression, hkind]

/-- A chain takes one level on top of those of its deepest operand. -/
theorem Node.Operands.cut_expression_iff (hkind : node.kind = .binaryExpression)
    (h : node.Operands operands) (d : ℕ) :
    ((Levels.upTo source d).expression node).cut = false ↔
      1 + (⨆ operand ∈ operands, levelsNeeded source operand) ≤ d := by
  cases d with
  | zero => simp [Levels.upTo, Levels.none]
  | succ d =>
    calc ((Levels.upTo source (d + 1)).expression node).cut = false
      _ ↔ ∀ operand ∈ operands, ((Levels.upTo source d).expression operand).cut = false := by
        simp [Levels.expression_upTo_succ hkind, h.binaryChain, Lowered.cut_mapM]
      _ ↔ (⨆ operand ∈ operands, levelsNeeded source operand) ≤ d := by
        simp only [iSup_le_iff, levelsNeeded_le_iff]
      _ ↔ 1 + (⨆ operand ∈ operands, levelsNeeded source operand) ≤ (d + 1 : ℕ) := by
        rw [Nat.cast_succ, add_comm, ENat.add_le_add_iff_right ENat.one_ne_top]

/-- A chain of operands is read as the list of them, each one as it is read alone, and with one
level more than the deepest of them needs, however many there are. The readers of a file give the
same at every depth, and mark the function if the levels that are left are fewer. -/
theorem Levels.expression_operands (hkind : node.kind = .binaryExpression)
    (h : node.Operands operands) (source : Source) :
    (∀ levels : Levels Lowered, (levels.binaryChain node).value =
      .other node.kind.text (operands.map fun operand => (levels.expression operand).value)
        node.span) ∧
      (∀ d, (upTo source (d + 1)).expression node = (upTo source d).binaryChain node) ∧
      (∀ d : ℕ, ((upTo source d).expression node).cut = false ↔
        1 + (⨆ operand ∈ operands, levelsNeeded source operand) ≤ d) ∧
      ∀ maxDepth depth : ℕ, ∃ exceeded,
        ((counting source maxDepth (maxDepth + 1)).expression node).run ⟨depth, false⟩ =
          (((upTo source (maxDepth - depth)).expression node).value, ⟨depth, exceeded⟩) ∧
        (exceeded = false ↔
          1 + (⨆ operand ∈ operands, levelsNeeded source operand) ≤ (maxDepth - depth : ℕ)) := by
  refine ⟨fun levels => by simp [h.binaryChain], expression_upTo_succ hkind,
    h.cut_expression_iff hkind, fun maxDepth depth => ⟨_, ?_, h.cut_expression_iff hkind _⟩⟩
  have hcounting := correspond_counting source (Nat.lt_succ_of_le (Nat.sub_le maxDepth depth))
  rw [hcounting.expression (Node.SameText.refl source node) false, Bool.false_or]

/-- The node of `a + b + f()` as the left-nested expression that it is. -/
def sumOfThree : Node where
  kind := .binaryExpression
  span := ⟨0, 11⟩
  children := [
    { kind := .binaryExpression, role := some .left, span := ⟨0, 5⟩
      children := [{ kind := .identifier, role := some .left, span := ⟨0, 1⟩ },
        { kind := .identifier, role := some .right, span := ⟨4, 5⟩ }] },
    { kind := .callExpression, role := some .right, span := ⟨8, 11⟩
      children := [{ kind := .identifier, role := some .function, span := ⟨8, 9⟩ }] }]

/-- The call takes two levels, so the sum is cut off with two levels and not with three. -/
theorem Levels.expression_operands_sumOfThree :
    let source : Source := ⟨"a + b + f()".toUTF8⟩
    ((upTo source 2).expression sumOfThree).cut = true ∧
      ∃ operands, sumOfThree.Operands operands ∧ operands.length = 3 ∧
        1 + (⨆ operand ∈ operands, levelsNeeded source operand) ≤ (3 : ℕ) := by
  intro source
  have hoperands : sumOfThree.Operands _ :=
    .binary rfl rfl rfl (.binary rfl rfl rfl (.single (by decide)))
  exact ⟨rfl, _, hoperands, rfl, ((expression_operands rfl hoperands source).2.2.1 3).mp rfl⟩

end TxLifecycle.Concrete
