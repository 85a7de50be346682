import TxLifecycle.Proofs.Parts

/-!
# Statement lists

A function is made of statement lists: its body, and the bodies of the blocks, branches, clauses and
function literals in it. Each of them is read in one piece, and each acquisition is read once.

* `FunctionUnit.lists`: the statement lists of a function;
* `Stmt.acquires`: the statement starts a transaction in a variable;
* `Reading`: how the lists and the acquisitions of some code turn up among its actions. The targets
  of a declaration and of an acquisition are not read, so what stands in a function literal there
  does not turn up at all.
-/

namespace TxLifecycle

/-- What is neither in front nor behind stands in the middle. -/
theorem exists_middle {α : Type} {first middle last before rest : List α} {a : α}
    (h : first ++ (middle ++ last) = before ++ a :: rest) (hfirst : a ∉ first) (hlast : a ∉ last) :
    ∃ lead rest', before = first ++ lead ∧ middle = lead ++ a :: rest' := by
  induction first generalizing before with
  | nil =>
    rw [List.nil_append] at h
    rcases List.append_eq_append_iff.mp h with ⟨more, -, rfl⟩ | ⟨more, hmiddle, hmore⟩
    · exact (hlast (by simp)).elim
    · cases more with
      | nil =>
        obtain rfl : _ = last := hmore
        exact (hlast List.mem_cons_self).elim
      | cons b more =>
        obtain ⟨rfl, -⟩ := List.cons_eq_cons.mp hmore
        exact ⟨before, more, rfl, hmiddle⟩
  | cons b first ih =>
    cases before with
    | nil => exact (hfirst (by simp [(List.cons_eq_cons.mp h).1])).elim
    | cons c before =>
      obtain ⟨rfl, htail⟩ := List.cons_eq_cons.mp h
      obtain ⟨lead, rest', rfl, hmiddle⟩ := ih htail fun ha => hfirst (List.mem_cons_of_mem _ ha)
      exact ⟨lead, rest', rfl, hmiddle⟩

/-! ## The lists of a function -/

mutual

/-- The statement lists in an expression, which are those of its function literals. -/
def Expr.lists : Expr → List (List Stmt)
  | .ident _ _ => []
  | .call func args _ => func.lists ++ exprsLists args
  | .selector operand _ _ => operand.lists
  | .funcLit _ ⟨stmts, _⟩ _ => stmts :: stmtsLists stmts
  | .composite elements _ => exprsLists elements
  | .keyValue key value _ => key.lists ++ value.lists
  | .unary _ operand _ => operand.lists
  | .literal _ => []
  | .other _ children _ => exprsLists children

/-- The statement lists in expressions. -/
def exprsLists : List Expr → List (List Stmt)
  | [] => []
  | e :: es => e.lists ++ exprsLists es

/-- The statement lists in an expression that may be absent. -/
def exprLists? : Option Expr → List (List Stmt)
  | some e => e.lists
  | none => []

/-- The statement lists in a statement that may be absent. -/
def stmtLists? : Option Stmt → List (List Stmt)
  | some s => s.lists
  | none => []

/-- The statement lists in a statement. -/
def Stmt.lists : Stmt → List (List Stmt)
  | .shortVarDecl left right _ => exprsLists left ++ exprsLists right
  | .varDecl _ values _ => exprsLists values
  | .assign left right _ => exprsLists right ++ exprsLists left
  | .exprStmt e _ => e.lists
  | .returnStmt values _ => exprsLists values
  | .deferStmt call _ => call.lists
  | .goStmt call _ => call.lists
  | .ifStmt stmt => stmt.lists
  | .forStmt init cond post ⟨stmts, _⟩ _ =>
    stmtLists? init ++ exprLists? cond ++ stmts :: stmtsLists stmts ++ stmtLists? post
  | .rangeStmt left _ right ⟨stmts, _⟩ _ =>
    right.lists ++ exprsLists left ++ stmts :: stmtsLists stmts
  | .switchStmt init tag cases _ => stmtLists? init ++ exprLists? tag ++ casesLists cases
  | .selectStmt cases _ => casesLists cases
  | .block ⟨stmts, _⟩ => stmts :: stmtsLists stmts
  | .seq stmts _ => stmts :: stmtsLists stmts
  | .labeled _ stmt _ => stmt.lists
  | .incDec operand _ => operand.lists
  | .send channel value _ => channel.lists ++ value.lists
  | .branch _ => []
  | .empty _ => []
  | .unsupported _ _ => []

/-- The statement lists in the statements of a list, less the list itself. -/
def stmtsLists : List Stmt → List (List Stmt)
  | [] => []
  | stmt :: rest => stmt.lists ++ stmtsLists rest

/-- The statement lists in an `if` statement. -/
def IfStmt.lists : IfStmt → List (List Stmt)
  | ⟨init, cond, ⟨stmts, _⟩, otherwise, _⟩ =>
    stmtLists? init ++ cond.lists ++ stmts :: stmtsLists stmts ++ elseLists? otherwise

/-- The statement lists in an alternative that may be absent. -/
def elseLists? : Option Else → List (List Stmt)
  | none => []
  | some (.block ⟨stmts, _⟩) => stmts :: stmtsLists stmts
  | some (.elseIf stmt) => stmt.lists

/-- The statement lists in the clauses of a switch or select. -/
def casesLists : List CaseClause → List (List Stmt)
  | [] => []
  | ⟨_, values, comm, body, _⟩ :: rest =>
    exprsLists values ++ stmtLists? comm ++ body :: stmtsLists body ++ casesLists rest

end

/-- The statement lists of a function, function literals included. -/
def FunctionUnit.lists (unit : FunctionUnit) : List (List Stmt) :=
  unit.body.stmts :: stmtsLists unit.body.stmts

/-! ## Acquisitions into a variable -/

/-- The action starts a transaction in the variable. -/
def Action.acquires (x : String) : Action → Bool
  | .acquire name _ _ _ => name == x
  | _ => false

/-- The statement starts a transaction in the variable: its single right side is a recognized call,
and the variable is its first target. -/
def Stmt.acquires (names : Recognizers) (x : String) : Stmt → Bool
  | .shortVarDecl left right _ | .assign left right _ =>
    (names.acquisitionOf right).isSome && left.head?.bind Expr.asIdent == some x
  | .varDecl declared values _ =>
    (names.acquisitionOf values).isSome && declared.head? == some x
  | _ => false

/-- The part is such a statement. -/
def Part.acquires (names : Recognizers) (x : String) : Part → Bool
  | .expr _ => false
  | .stmt s => s.acquires names x

/-- The number of acquisitions into the variable. -/
def acquisitions (names : Recognizers) (x : String) (parts : List Part) : Nat :=
  parts.countP (·.acquires names x)

section Acquisitions

variable {names : Recognizers} {x : String}

@[simp]
theorem acquisitions_append (parts parts' : List Part) :
    acquisitions names x (parts ++ parts') =
      acquisitions names x parts + acquisitions names x parts' :=
  List.countP_append

@[simp]
theorem acquisitions_stmt (s : Stmt) (parts : List Part) :
    acquisitions names x (.stmt s :: parts) =
      acquisitions names x parts + if s.acquires names x then 1 else 0 := by
  simp [acquisitions, Part.acquires, List.countP_cons]

/-- A statement that stores the result of one call adds at most the acquisition into its first
target. -/
theorem countP_acquireActions {targets : List Expr} {kind : AcquisitionKind} {span : Span}
    {declares : Bool} :
    (Recognizers.acquireActions targets kind span declares).countP (·.acquires x) ≤
      if targets.head?.bind Expr.asIdent == some x then 1 else 0 := by
  unfold Recognizers.acquireActions
  split
  · rename_i name hname
    rw [hname]
    split
    · exact Nat.zero_le _
    · simp [Action.acquires]
  · exact Nat.zero_le _

/-- Actions none of which is an acquisition. -/
theorem countP_eq_zero_of_forall {actions : List Action}
    (h : ∀ action ∈ actions, action.acquires x = false) : actions.countP (·.acquires x) = 0 := by
  rw [List.countP_eq_zero]
  intro action haction
  simp [h action haction]

theorem countP_declareActions (targets : List Expr) :
    (declareActions targets).countP (·.acquires x) = 0 := by
  apply countP_eq_zero_of_forall
  intro action haction
  obtain ⟨name, rfl⟩ := eq_declare_of_mem_declareActions haction
  rfl

theorem countP_finalizeActions (names : Recognizers) (call : Expr) :
    (names.finalizeActions call).countP (·.acquires x) = 0 := by
  apply countP_eq_zero_of_forall
  intro action haction
  have hcall := names.finalizeActions_isFinalize call action haction
  cases action <;> first | rfl | cases hcall

theorem countP_delegateActions (names : Recognizers) (call : Expr) :
    (names.delegateActions call).countP (·.acquires x) = 0 := by
  unfold Recognizers.delegateActions
  split <;> rfl

/-- What a `defer` statement takes care of is no acquisition. -/
theorem countP_deferActions (names : Recognizers) (call : Expr) :
    (names.deferActions call).countP (·.acquires x) = 0 := by
  apply countP_eq_zero_of_forall
  intro action haction
  have hcall := names.deferActions_isDeferCall call action haction
  cases action <;> first | rfl | cases hcall

theorem countP_storeActions (left right : List Expr) (stop : Nat) :
    (storeActions left right stop).countP (·.acquires x) = 0 := by
  apply countP_eq_zero_of_forall
  intro action haction
  obtain ⟨pair, -, hstore⟩ := List.mem_filterMap.mp haction
  split at hstore
  · cases hstore
    rfl
  · cases hstore

/-- A variable given to a launched call is no acquisition. -/
theorem countP_captureActions (args : List Expr) (span : Span) :
    (captureActions args span).countP (·.acquires x) = 0 := by
  apply countP_eq_zero_of_forall
  intro action haction
  obtain ⟨name, -, rfl⟩ := List.mem_map.mp haction
  rfl

/-- A declaration adds at most the acquisition into its first target. -/
theorem countP_declarationActions {targets right : List Expr} {span : Span} :
    (names.declarationActions targets right span).countP (·.acquires x) ≤
      if (names.acquisitionOf right).isSome && targets.head?.bind Expr.asIdent == some x
      then 1 else 0 := by
  unfold Recognizers.declarationActions
  split
  · rename_i kind hkind
    rw [List.countP_append, countP_declareActions, hkind]
    exact countP_acquireActions
  · rw [countP_declareActions]
    exact Nat.zero_le _

/-- What a part does itself adds at most the acquisition that it is. -/
theorem countP_handling {part : Part} : (part.handling names).countP (·.acquires x) ≤
    if part.acquires names x then 1 else 0 := by
  unfold Part.handling
  split
  · simp [countP_finalizeActions, countP_delegateActions]
  · exact countP_declarationActions
  · rename_i declared values span
    refine Nat.le_trans countP_declarationActions ?_
    cases declared <;> exact Nat.le_refl _
  · rename_i left right span
    rw [List.countP_append, countP_storeActions, Nat.zero_add, Part.acquires, Stmt.acquires]
    cases names.acquisitionOf right with
    | none => exact Nat.zero_le _
    | some kind => exact countP_acquireActions
  · exact Nat.zero_le _
  · rw [countP_deferActions]
    exact Nat.zero_le _
  · rw [countP_captureActions]
    exact Nat.zero_le _
  · exact Nat.zero_le _

end Acquisitions

/-! ## How code is read -/

/-- Code with `n` acquisitions into a variable and with certain statement lists is read as these
actions: every list turns up in one piece, or it is not read and its acquisitions are missing. -/
structure Reading (names : Recognizers) (x : String) (n : Nat) (lists : List (List Stmt))
    (actions : List Action) : Prop where
  count : actions.countP (·.acquires x) ≤ n
  within : ∀ list ∈ lists, acquisitions names x (stmtsParts list) ≤ n
  /-- A list is read in one piece, or not at all. -/
  piece : ∀ list ∈ lists, stmtsActions names list <:+: actions ∨
    actions.countP (·.acquires x) + acquisitions names x (stmtsParts list) ≤ n

namespace Reading

variable {names : Recognizers} {x : String} {n n' k : Nat} {lists lists' : List (List Stmt)}
  {actions actions' own : List Action}

/-- Nothing is read. -/
theorem nil : Reading names x 0 [] [] :=
  ⟨Nat.le_refl _, by simp, by simp⟩

/-- The number of acquisitions, counted in another way. -/
theorem of_eq (h : Reading names x n lists actions) (heq : n = n') :
    Reading names x n' lists actions :=
  heq ▸ h

theorem append (h : Reading names x n lists actions) (h' : Reading names x n' lists' actions') :
    Reading names x (n + n') (lists ++ lists') (actions ++ actions') := by
  have hcount := h.count
  have hcount' := h'.count
  refine ⟨?_, fun list hlist => ?_, fun list hlist => ?_⟩
  · rw [List.countP_append]
    omega
  · rcases List.mem_append.mp hlist with hlist | hlist
    · have := h.within list hlist
      omega
    · have := h'.within list hlist
      omega
  · -- what is missing on one side is not made up for on the other
    rw [List.countP_append]
    rcases List.mem_append.mp hlist with hlist | hlist
    · rcases h.piece list hlist with hread | hmissing
      · exact Or.inl (hread.trans (List.prefix_append _ _).isInfix)
      · right
        omega
    · rcases h'.piece list hlist with hread | hmissing
      · exact Or.inl (hread.trans (List.suffix_append _ _).isInfix)
      · right
        omega

/-- Actions that belong to no part of the code. -/
theorem ofCount (h : own.countP (·.acquires x) ≤ k) : Reading names x k [] own :=
  ⟨h, by simp, by simp⟩

/-- Actions around that are no acquisitions. -/
theorem bracket {first last : Action} (h : Reading names x n lists actions)
    (hfirst : first.acquires x = false) (hlast : last.acquires x = false) :
    Reading names x n lists (first :: actions ++ [last]) := by
  have hnone : ∀ action : Action, action.acquires x = false →
      Reading names x 0 [] [action] := fun action haction => .ofCount (by simp [haction])
  simpa using ((hnone first hfirst).append h).append (hnone last hlast)

theorem unread (h : Reading names x n lists actions) : Reading names x n lists [] where
  count := Nat.zero_le _
  within := h.within
  piece := fun list hlist => Or.inr (by simpa using h.within list hlist)

/-- The code is a statement list, with the lists in its statements. -/
theorem body {list : List Stmt}
    (h : Reading names x (acquisitions names x (stmtsParts list)) lists
      (stmtsActions names list)) :
    Reading names x (acquisitions names x (stmtsParts list)) (list :: lists)
      (stmtsActions names list) where
  count := h.count
  within := by
    intro list' hlist
    rcases List.mem_cons.mp hlist with rfl | hlist
    · exact Nat.le_refl _
    · exact h.within list' hlist
  piece := by
    intro list' hlist
    rcases List.mem_cons.mp hlist with rfl | hlist
    · exact Or.inl (List.infix_refl _)
    · exact h.piece list' hlist

end Reading

end TxLifecycle
