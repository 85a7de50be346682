import Mathlib.Data.List.Forall2
import TxLifecycle.Proofs.Readers

/-!
# The limit of nesting

A function is read with a limit on how deeply its parts may nest, and is marked where the limit cuts
something off. The mark is all that the limit leaves behind: a function without it is read as it
would be under any larger limit, and no function bears on how another one is read.

* `Lowered.agreement`: two ways of reading give the same, unless the limits differ and the first way
  has cut something off;
* `Levels.correspond_upTo`: readers with different numbers of levels do;
* `Deepens`: what a larger limit makes of a declaration;
* `ReadAlone`: how a function is read with the cells that those before it leave.

The main statement is `fileOf_deepens`.
-/

namespace TxLifecycle.Concrete

/-! ## Levels -/

/-- The second way of reading gives the same as the first one, if they do `same`, and also where the
first one has cut nothing off. -/
def Lowered.agreement (same : Prop) : Correspondence Lowered Lowered where
  Rel x y := same ∨ x.cut = false → y = x
  pure _ _ := rfl
  bind {_ _ x y f g} h hf hread := by
    simp only [cut_bind, Bool.or_eq_false_iff] at hread
    obtain rfl : y = x := h (hread.imp_right And.left)
    have hrest : g y.value = f y.value := hf y.value (hread.imp_right And.right)
    change Lowered.mk _ _ = Lowered.mk _ _
    rw [hrest]

/-- Readers with more levels agree with those that have fewer, and with those that have as many also
on what both cut off. -/
theorem Levels.correspond_upTo {same : Prop} {source source' : Source} {d d' : Nat}
    (hsame : same → d' = d) (hle : d ≤ d') :
    Levels.Correspond (Lowered.agreement same) source source' (upTo source d)
      (upTo source' d') := by
  induction d generalizing d' with
  | zero =>
    -- with no level left everything is cut off, so only readers that do the same are compared
    have hread : ∀ {α : Type} {x y : Lowered α}, x.cut = true → (same → y = x) →
        (Lowered.agreement same).Rel x y :=
      fun hcut heq hor => hor.elim heq fun h => absurd (hcut.symm.trans h) (by decide)
    refine ⟨fun _ => hread rfl fun hs => ?_, fun _ => hread rfl fun hs => ?_,
      fun _ => hread rfl fun hs => ?_⟩ <;>
    rw [hsame hs, upTo, upTo]
  | succ d ih =>
    obtain ⟨e, rfl⟩ : ∃ e, d' = e + 1 := ⟨d' - 1, by omega⟩
    have hagree := ih (fun hs => by have := hsame hs; omega) (Nat.le_of_succ_le_succ hle)
    exact ⟨hagree.lowerExpression, hagree.lowerStatement, hagree.lowerIf⟩

/-! ## Functions -/

/-- What a larger limit makes of a declaration: the same one, if it was not marked. It marks no
declaration that was not. -/
structure Deepens (decl decl' : FuncDecl) : Prop where
  /-- It is the declaration of the same function. -/
  name : decl'.name = decl.name
  span : decl'.span = decl.span
  /-- A declaration without mark stays as it is, without mark. -/
  unmarked : decl.nestingExceeded = false → decl' = decl
  marked : decl'.nestingExceeded = true → decl.nestingExceeded = true

/-- A function is read with cells that other functions have left as if it stood alone, here in a
source that has the same texts for it. -/
structure ReadAlone (source source' : Source) (maxDepth : Nat) (node : Node) (cells : Cells) :
    Prop where
  /-- Every level that is entered is left. -/
  depth : ((functionOf? source' maxDepth node).run cells).2.depth = cells.depth
  /-- The mark that is left is the one of this function. -/
  mark : ∀ decl, ((functionOf? source' maxDepth node).run cells).1 = some decl →
    ((functionOf? source' maxDepth node).run cells).2.exceeded = decl.nestingExceeded
  alone : cells.depth = 0 →
    ((functionOf? source' maxDepth node).run cells).1 =
      ((functionOf? source maxDepth node).run {}).1

section Functions

variable {source source' : Source} {node : Node} {d d' : Nat}

theorem agrees_body (same : Prop) (hsame : same → d' = d) (hle : d ≤ d')
    (htext : node.SameText source source') :
    (Lowered.agreement same).Rel
      ((node.child? .body).mapM ((Levels.upTo source d).block source))
      ((node.child? .body).mapM ((Levels.upTo source' d').block source')) :=
  (Lowered.agreement same).mapM? fun _ hbody =>
    (Levels.correspond_upTo hsame hle).block (htext.of_below (Node.below_of_child? hbody))

/-- A function is read from its own texts. -/
theorem declarationOf?_eq (htext : node.SameText source source') :
    declarationOf? source' d node = declarationOf? source d node := by
  have hbody := agrees_body True (fun _ => rfl) (Nat.le_refl d) htext (.inl trivial)
  rw [declarationOf?, declarationOf?]
  dsimp only
  rw [hbody, parameters_eq htext, parameters_eq htext]
  refine Option.map_congr fun name hname => ?_
  rw [htext name (Node.below_of_child? hname)]

/-- A larger limit leaves a function that was not cut as it is. -/
theorem declarationOf?_deepens (hle : d ≤ d') :
    Option.Rel Deepens (declarationOf? source d node) (declarationOf? source d' node) := by
  have hbody := agrees_body False False.elim hle (Node.SameText.refl source node)
  rw [declarationOf?, declarationOf?]
  cases node.child? .name with
  | none => exact .none
  | some name =>
    dsimp only [Option.map_some]
    generalize (Option.mapM _ (node.child? .body) : Lowered _) = body at hbody ⊢
    generalize (Option.mapM _ (node.child? .body) : Lowered _) = body' at hbody ⊢
    refine .some ⟨rfl, rfl, fun hcut => ?_, fun hcut => ?_⟩
    · rw [hbody (.inr hcut)]
    · by_contra hread
      rw [hbody (.inr (Bool.not_eq_true _ ▸ hread))] at hcut
      exact hread hcut

/-- The levels and the mark of other functions make no difference to a function. -/
theorem readAlone (htext : node.SameText source source') (cells : Cells) :
    ReadAlone source source' d node cells := by
  have hrun := run_functionOf? source' d node cells
  refine ⟨by rw [hrun], fun decl hdecl => ?_, fun hdepth => ?_⟩
  · rw [hrun] at hdecl ⊢
    dsimp only at hdecl ⊢
    rw [hdecl]
    rfl
  · rw [hrun, run_functionOf? source d node {}, hdepth]
    exact declarationOf?_eq htext

/-- The functions of a file whose declarations are given in two parts. -/
theorem functions_append (root : Node) (before after : List Node) :
    (fileOf source d { root with children := before ++ after }).functions =
      (fileOf source d { root with children := before }).functions ++
        (fileOf source d { root with children := after }).functions := by
  simp [functions_fileOf, functionNodes, Node.namedChildren]

/-- The function that is read from a node that stands alone, where it is one of a function. -/
theorem functions_singleton (root : Node) (htext : node.SameText source source') :
    (fileOf source' d { root with children := [node] }).functions =
      (fileOf source d { root with children := [node] }).functions := by
  rw [functions_fileOf, functions_fileOf]
  refine List.filterMap_congr fun n hn => declarationOf?_eq ?_
  have hmem := List.mem_of_mem_filter (List.mem_of_mem_filter hn)
  rw [List.mem_singleton.mp hmem]
  exact htext

end Functions

/-- **The limit of nesting cuts off what it marks, and nothing else.** Under a larger limit a file
has the same functions. Those without mark are read as before, and no function gets a mark that it
did not have. The functions of a file are read with the same cells: after each of them the depth is
back where it was, so that it is 0 at the end, and each resets the mark. So what is read from a node
does not depend on the rest of its file: it is what is read where the node stands alone, in any
source that has the same texts for it. -/
theorem fileOf_deepens (source source' : Source) {d d' : Nat} (root node : Node)
    (before after : List Node) (hle : d ≤ d') (htext : node.SameText source source') :
    List.Forall₂ Deepens (fileOf source d root).functions (fileOf source d' root).functions ∧
      (∀ cells, ReadAlone source source' d node cells) ∧
      (((functionNodes root).mapM (functionOf? source d)).run {}).2.depth = 0 ∧
      (fileOf source' d { root with children := before ++ node :: after }).functions =
        (fileOf source' d { root with children := before }).functions ++
          (fileOf source d { root with children := [node] }).functions ++
            (fileOf source' d { root with children := after }).functions := by
  refine ⟨?_, readAlone htext, ?_, ?_⟩
  · rw [functions_fileOf, functions_fileOf]
    refine List.rel_filterMap (R := Eq) (fun n n' heq => ?_) (List.forall₂_refl _)
    rw [heq]
    exact declarationOf?_deepens hle
  · obtain ⟨exceeded, hrun⟩ := run_functions source d (functionNodes root) {}
    rw [hrun]
  · calc (fileOf source' d { root with children := before ++ ([node] ++ after) }).functions
      _ = (fileOf source' d { root with children := before }).functions ++
          ((fileOf source' d { root with children := [node] }).functions ++
            (fileOf source' d { root with children := after }).functions) := by
        rw [functions_append root before, functions_append root [node]]
      _ = _ := by rw [functions_singleton root htext, List.append_assoc]

/-- The declaration of `func f() {}`. -/
def shallowFunction : Node where
  kind := .functionDeclaration
  span := ⟨0, 11⟩
  children := [
    { kind := .identifier, role := some .name, span := ⟨5, 6⟩ },
    { kind := .block, role := some .body, span := ⟨9, 11⟩ }]

/-- The declaration of `func g() { run() }`, which takes three levels. -/
def deepFunction : Node where
  kind := .functionDeclaration
  span := ⟨12, 30⟩
  children := [
    { kind := .identifier, role := some .name, span := ⟨17, 18⟩ },
    { kind := .block, role := some .body, span := ⟨21, 30⟩
      children := [{ kind := .expressionStatement, span := ⟨23, 28⟩
                     children := [{ kind := .callExpression, span := ⟨23, 28⟩
                                    children := [{ kind := .identifier, role := some .function
                                                   span := ⟨23, 26⟩ }] }] }] }]

/-- With two levels the deep function is marked, and the shallow one after it is not. With three
levels none is. -/
theorem fileOf_deepens_twoFunctions :
    let source : Source := ⟨"func f() {}\nfunc g() { run() }\n".toUTF8⟩
    let file (children : List Node) : Node := { kind := .sourceFile, span := ⟨0, 31⟩, children }
    let marks (d : Nat) (children : List Node) : List Bool :=
      (fileOf source d (file children)).functions.map (·.nestingExceeded)
    marks 2 [deepFunction, shallowFunction] = [true, false] ∧
      marks 3 [deepFunction, shallowFunction] = [false, false] ∧
      List.Forall₂ Deepens (fileOf source 2 (file [shallowFunction, deepFunction])).functions
        (fileOf source 3 (file [shallowFunction, deepFunction])).functions ∧
      ReadAlone source source 2 shallowFunction ⟨0, true⟩ ∧
      (fileOf source 2 (file [deepFunction, shallowFunction])).functions =
        (fileOf source 2 (file [deepFunction])).functions ++
          (fileOf source 2 (file [shallowFunction])).functions ++
            (fileOf source 2 (file [])).functions := by
  intro source file marks
  have hdeepens := fileOf_deepens source source (file [shallowFunction, deepFunction])
    shallowFunction [deepFunction] [] (Nat.le_succ 2) (Node.SameText.refl source shallowFunction)
  exact ⟨rfl, rfl, hdeepens.1, hdeepens.2.1 _, hdeepens.2.2.2⟩

end TxLifecycle.Concrete
