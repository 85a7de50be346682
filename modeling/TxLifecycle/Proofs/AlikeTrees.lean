import Mathlib.Logic.Function.Defs
import TxLifecycle.Proofs.Flow

/-!
# Trees that are read alike

Several changes of a function leave the actions that it is read into nearly as they are: its
variables get other names, methods are called under other names, an `else if` gets a block of its
own. This file says once for all such changes what reading makes of them.

* `Likeness`: which changes are made;
* `Expr.Alike`, `Stmt.Alike` and the others: two trees that differ in such changes only;
* `Likeness.Reads`: what a relation between lists of actions needs to hold of what alike trees are
  read into; most of it is about a single change and a single action;
* `FunctionUnit.reads_of_alike`: then it holds of the actions of functions.
-/

namespace TxLifecycle

/-! ## Renaming -/

/-- Rename a parameter. -/
def Param.rename (f : String → String) (param : Param) : Param :=
  { param with name := param.name.map f }

/-- Rename the variables of an action. -/
def Action.rename (f : String → String) : Action → Action
  | .declare name => .declare (f name)
  | .mention name span => .mention (f name) span
  | .acquire name errVar span declares => .acquire (f name) (errVar.map f) span declares
  | .storeField name stop => .storeField (f name) stop
  | .finalize name commit => .finalize (f name) commit
  | .deferCall name commit => .deferCall (f name) commit
  | .capture name span => .capture (f name) span
  | .delegate names => .delegate (names.map f)
  | .handOut names => .handOut (names.map f)
  | .openGuard names => .openGuard (names.map f)
  | action => action

/-- What follows the first name of a dotted one: nothing, or a dot and more. -/
def IsSelection (suffix : String) : Prop :=
  suffix = "" ∨ ∃ rest, suffix = "." ++ rest

/-- The renaming keeps names apart and does not touch those that reading a function looks for. -/
structure Recognizers.Spares (names : Recognizers) (f : String → String) : Prop where
  injective : Function.Injective f
  blank : f "_" = "_"
  /-- No name becomes the name of a helper or ceases to be one. -/
  helper : ∀ name, names.callbackHelpers.contains (f name) = names.callbackHelpers.contains name
  /-- Selections from a variable abort after the renaming if they do before. -/
  abort : ∀ name suffix, IsSelection suffix →
    names.abortByName (f name ++ suffix) = names.abortByName (name ++ suffix)

/-- The blank name stays, and no other name becomes it. -/
theorem Recognizers.Spares.eq_blank_iff {names : Recognizers} {f : String → String}
    (h : names.Spares f) (name : String) : f name = "_" ↔ name = "_" :=
  ⟨fun hname => h.injective (hname.trans h.blank.symm), fun hname => hname ▸ h.blank⟩

/-- Names may stay as they are. -/
theorem Recognizers.spares_id (names : Recognizers) : names.Spares id :=
  ⟨fun _ _ h => h, rfl, fun _ => rfl, fun _ _ _ => rfl⟩

theorem Action.rename_id (action : Action) : action.rename id = action := by
  cases action <;> simp [Action.rename]

theorem Param.rename_id : Param.rename id = id := by
  funext param
  simp [Param.rename]

/-! ## Trees -/

/-- How two trees may differ. -/
structure Likeness where
  /-- The other name of a variable. -/
  rename : String → String
  /-- The second method may be called on the expression in place of the first. -/
  method : Expr → String → String → Prop
  /-- An `else if` may stand in a block of its own. -/
  split : IfStmt → Prop

mutual

/-- Two expressions that differ only as they may. -/
inductive Expr.Alike (S : Likeness) : Expr → Expr → Prop where
  | ident {name span} : Expr.Alike S (.ident name span) (.ident (S.rename name) span)
  | call {func func' args args' span} : Expr.Alike S func func' → ExprsAlike S args args' →
      Expr.Alike S (.call func args span) (.call func' args' span)
  | method {operand m m' operand' args args' place span} :
      S.method operand m m' → Expr.Alike S operand operand' → ExprsAlike S args args' →
      Expr.Alike S (.call (.selector operand m place) args span)
        (.call (.selector operand' m' place) args' span)
  | selector {operand operand' field span} : Expr.Alike S operand operand' →
      Expr.Alike S (.selector operand field span) (.selector operand' field span)
  | funcLit {stmts stmts' params place span} : StmtsAlike S stmts stmts' →
      Expr.Alike S (.funcLit params ⟨stmts, place⟩ span)
        (.funcLit (params.map (·.rename S.rename)) ⟨stmts', place⟩ span)
  | composite {elements elements' span} : ExprsAlike S elements elements' →
      Expr.Alike S (.composite elements span) (.composite elements' span)
  | keyValue {key key' value value' span} : Expr.Alike S key key' → Expr.Alike S value value' →
      Expr.Alike S (.keyValue key value span) (.keyValue key' value' span)
  | unary {operand operand' op span} : Expr.Alike S operand operand' →
      Expr.Alike S (.unary op operand span) (.unary op operand' span)
  | literal {span} : Expr.Alike S (.literal span) (.literal span)
  | other {children children' kind span} : ExprsAlike S children children' →
      Expr.Alike S (.other kind children span) (.other kind children' span)

/-- Lists of expressions that differ only as they may. -/
inductive ExprsAlike (S : Likeness) : List Expr → List Expr → Prop where
  | nil : ExprsAlike S [] []
  | cons {e e' es es'} :
      Expr.Alike S e e' → ExprsAlike S es es' → ExprsAlike S (e :: es) (e' :: es')

/-- Optional expressions that differ only as they may: both are absent, or none is. -/
inductive ExprAlike? (S : Likeness) : Option Expr → Option Expr → Prop where
  | none : ExprAlike? S none none
  | some {e e'} : Expr.Alike S e e' → ExprAlike? S (some e) (some e')

/-- Optional statements that differ only as they may: both are absent, or none is. -/
inductive StmtAlike? (S : Likeness) : Option Stmt → Option Stmt → Prop where
  | none : StmtAlike? S none none
  | some {s s'} : Stmt.Alike S s s' → StmtAlike? S (some s) (some s')

/-- Two statements that differ only as they may. -/
inductive Stmt.Alike (S : Likeness) : Stmt → Stmt → Prop where
  | shortVarDecl {left left' right right' span} :
      ExprsAlike S left left' → ExprsAlike S right right' →
      Stmt.Alike S (.shortVarDecl left right span) (.shortVarDecl left' right' span)
  | varDecl {values values' declared span} : ExprsAlike S values values' →
      Stmt.Alike S (.varDecl declared values span) (.varDecl (declared.map S.rename) values' span)
  | assign {left left' right right' span} : ExprsAlike S left left' → ExprsAlike S right right' →
      Stmt.Alike S (.assign left right span) (.assign left' right' span)
  | exprStmt {e e' span} : Expr.Alike S e e' → Stmt.Alike S (.exprStmt e span) (.exprStmt e' span)
  | returnStmt {values values' span} : ExprsAlike S values values' →
      Stmt.Alike S (.returnStmt values span) (.returnStmt values' span)
  | deferStmt {e e' span} :
      Expr.Alike S e e' → Stmt.Alike S (.deferStmt e span) (.deferStmt e' span)
  | goStmt {e e' span} : Expr.Alike S e e' → Stmt.Alike S (.goStmt e span) (.goStmt e' span)
  | ifStmt {stmt stmt'} : IfStmt.Alike S stmt stmt' → Stmt.Alike S (.ifStmt stmt) (.ifStmt stmt')
  | forStmt {init init' test test' post post' stmts stmts' place span} :
      StmtAlike? S init init' → ExprAlike? S test test' → StmtAlike? S post post' →
      StmtsAlike S stmts stmts' →
      Stmt.Alike S (.forStmt init test post ⟨stmts, place⟩ span)
        (.forStmt init' test' post' ⟨stmts', place⟩ span)
  | rangeStmt {left left' right right' stmts stmts' declares place span} :
      ExprsAlike S left left' → Expr.Alike S right right' → StmtsAlike S stmts stmts' →
      Stmt.Alike S (.rangeStmt left declares right ⟨stmts, place⟩ span)
        (.rangeStmt left' declares right' ⟨stmts', place⟩ span)
  | switchStmt {init init' tag tag' cases cases' span} :
      StmtAlike? S init init' → ExprAlike? S tag tag' → CasesAlike S cases cases' →
      Stmt.Alike S (.switchStmt init tag cases span) (.switchStmt init' tag' cases' span)
  | selectStmt {cases cases' span} : CasesAlike S cases cases' →
      Stmt.Alike S (.selectStmt cases span) (.selectStmt cases' span)
  | block {stmts stmts' span} :
      StmtsAlike S stmts stmts' → Stmt.Alike S (.block ⟨stmts, span⟩) (.block ⟨stmts', span⟩)
  | seq {stmts stmts' span} :
      StmtsAlike S stmts stmts' → Stmt.Alike S (.seq stmts span) (.seq stmts' span)
  | labeled {stmt stmt' label span} : Stmt.Alike S stmt stmt' →
      Stmt.Alike S (.labeled label stmt span) (.labeled label stmt' span)
  | incDec {e e' span} : Expr.Alike S e e' → Stmt.Alike S (.incDec e span) (.incDec e' span)
  | send {channel channel' value value' span} :
      Expr.Alike S channel channel' → Expr.Alike S value value' →
      Stmt.Alike S (.send channel value span) (.send channel' value' span)
  | branch {span} : Stmt.Alike S (.branch span) (.branch span)
  | empty {span} : Stmt.Alike S (.empty span) (.empty span)
  | unsupported {kind span} : Stmt.Alike S (.unsupported kind span) (.unsupported kind span)

/-- Lists of statements that differ only as they may. -/
inductive StmtsAlike (S : Likeness) : List Stmt → List Stmt → Prop where
  | nil : StmtsAlike S [] []
  | cons {s s' stmts stmts'} : Stmt.Alike S s s' → StmtsAlike S stmts stmts' →
      StmtsAlike S (s :: stmts) (s' :: stmts')

/-- Two `if` statements that differ only as they may. -/
inductive IfStmt.Alike (S : Likeness) : IfStmt → IfStmt → Prop where
  | mk {init init' test test' stmts stmts' otherwise otherwise' place span} :
      StmtAlike? S init init' → Expr.Alike S test test' → StmtsAlike S stmts stmts' →
      ElseAlike? S otherwise otherwise' →
      IfStmt.Alike S ⟨init, test, ⟨stmts, place⟩, otherwise, span⟩
        ⟨init', test', ⟨stmts', place⟩, otherwise', span⟩

/-- Optional alternatives of `if` statements that differ only as they may. -/
inductive ElseAlike? (S : Likeness) : Option Else → Option Else → Prop where
  | none : ElseAlike? S none none
  | block {stmts stmts' place} : StmtsAlike S stmts stmts' →
      ElseAlike? S (some (.block ⟨stmts, place⟩)) (some (.block ⟨stmts', place⟩))
  | elseIf {stmt stmt'} :
      IfStmt.Alike S stmt stmt' → ElseAlike? S (some (.elseIf stmt)) (some (.elseIf stmt'))
  | split {stmt stmt' place} : S.split stmt → IfStmt.Alike S stmt stmt' →
      ElseAlike? S (some (.elseIf stmt)) (some (.block ⟨[.ifStmt stmt'], place⟩))

/-- Lists of clauses of a switch or select that differ only as they may. -/
inductive CasesAlike (S : Likeness) : List CaseClause → List CaseClause → Prop where
  | nil : CasesAlike S [] []
  | cons {values values' init init' body body' rest rest' isDefault span} :
      ExprsAlike S values values' → StmtAlike? S init init' → StmtsAlike S body body' →
      CasesAlike S rest rest' →
      CasesAlike S (⟨isDefault, values, init, body, span⟩ :: rest)
        (⟨isDefault, values', init', body', span⟩ :: rest')

end

variable {S : Likeness} {names : Recognizers} {e e' : Expr} {es es' : List Expr}

/-- Parameters that keep their names. -/
theorem Expr.Alike.funcLit_id {params : List Param} {stmts stmts' : List Stmt} {place span : Span}
    (hid : S.rename = id) (h : StmtsAlike S stmts stmts') :
    Expr.Alike S (.funcLit params ⟨stmts, place⟩ span) (.funcLit params ⟨stmts', place⟩ span) := by
  have hlit : Expr.Alike S (.funcLit params ⟨stmts, place⟩ span) _ := .funcLit h
  rwa [hid, Param.rename_id, List.map_id] at hlit

/-- Declared variables that keep their names. -/
theorem Stmt.Alike.varDecl_id {declared : List String} {span : Span} (hid : S.rename = id)
    (h : ExprsAlike S es es') :
    Stmt.Alike S (.varDecl declared es span) (.varDecl declared es' span) := by
  have hdecl : Stmt.Alike S (.varDecl declared es span) _ := .varDecl h
  rwa [hid, List.map_id] at hdecl

/-! ## What reading an expression looks at -/

namespace ExprsAlike

theorem filterMap {α : Type} {g : Expr → Option α} {k : α → α}
    (hg : ∀ {e e' : Expr}, e.Alike S e' → g e' = (g e).map k) :
    ∀ {es es' : List Expr}, ExprsAlike S es es' → es'.filterMap g = (es.filterMap g).map k
  | _, _, .nil => rfl
  | _, _, .cons (e := e) he hes => by
    rw [List.filterMap_cons, List.filterMap_cons, hg he, filterMap hg hes]
    cases g e <;> rfl

theorem any {p : Expr → Bool} (hp : ∀ {e e' : Expr}, e.Alike S e' → p e' = p e) :
    ∀ {es es' : List Expr}, ExprsAlike S es es' → es'.any p = es.any p
  | _, _, .nil => rfl
  | _, _, .cons he hes => by rw [List.any_cons, List.any_cons, hp he, any hp hes]

end ExprsAlike

/-- A name stays one. -/
theorem Expr.Alike.asIdent (h : e.Alike S e') : e'.asIdent = e.asIdent.map S.rename := by
  cases h <;> rfl

/-- The name in one place of a list. -/
theorem ExprsAlike.asIdent_at : ∀ {es es' : List Expr}, ExprsAlike S es es' → ∀ i : Nat,
    es'[i]?.bind Expr.asIdent = (es[i]?.bind Expr.asIdent).map S.rename
  | _, _, .nil, _ => rfl
  | _, _, .cons he _, 0 => he.asIdent
  | _, _, .cons _ hes, i + 1 => hes.asIdent_at i

/-- A dotted name begins with a variable, and nothing else of it changes. -/
theorem Expr.Alike.qualifiedName : ∀ {e e' : Expr}, e.Alike S e' →
    (e.qualifiedName = none ∧ e'.qualifiedName = none) ∨
    ∃ name suffix, IsSelection suffix ∧ e.qualifiedName = some (name ++ suffix) ∧
      e'.qualifiedName = some (S.rename name ++ suffix)
  | _, _, @ident _ name _ => Or.inr ⟨name, "", Or.inl rfl, by simp [Expr.qualifiedName],
      by simp [Expr.qualifiedName]⟩
  | _, _, @selector _ _ _ field _ hoperand => by
    rw [Expr.qualifiedName, Expr.qualifiedName]
    rcases hoperand.qualifiedName with ⟨hnone, hnone'⟩ | ⟨name, suffix, hsel, hname, hname'⟩
    · rw [hnone, hnone']
      exact Or.inl ⟨rfl, rfl⟩
    · refine Or.inr ⟨name, suffix ++ "." ++ field, ?_, ?_, ?_⟩
      · rcases hsel with rfl | ⟨rest, rfl⟩
        · exact Or.inr ⟨field, by simp⟩
        · exact Or.inr ⟨rest ++ "." ++ field, by simp [String.append_assoc]⟩
      · rw [hname, Option.map_some]
        simp [String.append_assoc]
      · rw [hname', Option.map_some]
        simp [String.append_assoc]
  | _, _, .call _ _ | _, _, .method _ _ _ | _, _, .funcLit _ | _, _, .composite _
  | _, _, .keyValue _ _ | _, _, .unary _ | _, _, .literal | _, _, .other _ => Or.inl ⟨rfl, rfl⟩

mutual

/-- The names that an expression mentions. -/
theorem Expr.Alike.mentioned : ∀ {e e' : Expr}, e.Alike S e' →
    e'.mentioned = e.mentioned.map S.rename
  | _, _, .ident | _, _, .funcLit _ | _, _, .literal => rfl
  | _, _, .call hfunc hargs => by
    rw [Expr.mentioned, Expr.mentioned, hfunc.mentioned, hargs.mentionedIn, List.map_append]
  | _, _, .method _ hoperand hargs => by
    rw [Expr.mentioned, Expr.mentioned, Expr.mentioned, Expr.mentioned, hoperand.mentioned,
      hargs.mentionedIn, List.map_append]
  | _, _, .selector hoperand | _, _, .unary hoperand => hoperand.mentioned
  | _, _, .composite helements | _, _, .other helements => helements.mentionedIn
  | _, _, .keyValue hkey hvalue => by
    rw [Expr.mentioned, Expr.mentioned, hkey.mentioned, hvalue.mentioned, List.map_append]

/-- The names that a list of expressions mentions. -/
theorem ExprsAlike.mentionedIn : ∀ {es es' : List Expr}, ExprsAlike S es es' →
    Expr.mentionedIn es' = (Expr.mentionedIn es).map S.rename
  | _, _, .nil => rfl
  | _, _, .cons he hes => by
    rw [Expr.mentionedIn, Expr.mentionedIn, he.mentioned, hes.mentionedIn, List.map_append]

end

mutual

/-- The names whose value an expression hands out. -/
theorem Expr.Alike.handedOut : ∀ {e e' : Expr}, e.Alike S e' →
    e'.handedOut = e.handedOut.map S.rename
  | _, _, .unary hoperand => by
    rw [Expr.handedOut, Expr.handedOut, hoperand.handedOut]
    split <;> rfl
  | _, _, .composite helements => helements.handedOutBy
  | _, _, .keyValue _ hvalue => hvalue.handedOut
  | _, _, .ident | _, _, .call _ _ | _, _, .method _ _ _ | _, _, .selector _ | _, _, .funcLit _
  | _, _, .literal | _, _, .other _ => rfl

/-- The names whose values a list of expressions hands out. -/
theorem ExprsAlike.handedOutBy : ∀ {es es' : List Expr}, ExprsAlike S es es' →
    Expr.handedOutBy es' = (Expr.handedOutBy es).map S.rename
  | _, _, .nil => rfl
  | _, _, .cons he hes => by
    rw [Expr.handedOutBy, Expr.handedOutBy, he.handedOut, hes.handedOutBy, List.map_append]

end

/-- The variable that a deferred call is given. -/
theorem Expr.Alike.deferredArg (h : e.Alike S e') :
    Recognizers.deferredArg e' = (Recognizers.deferredArg e).map S.rename := by
  cases h with
  | @unary _ _ op _ hoperand =>
    by_cases hop : op = "&"
    · subst hop
      cases hoperand <;> rfl
    · simp [Recognizers.deferredArg, hop]
  | _ => rfl

/-- Whether an argument is a function literal with a transaction parameter. -/
theorem Expr.Alike.isTxCallback (h : e.Alike S e') :
    Recognizers.isTxCallback e' = Recognizers.isTxCallback e := by
  cases h with
  | funcLit _ =>
    rw [Recognizers.isTxCallback, Recognizers.isTxCallback, List.any_map]
    rfl
  | _ => rfl

/-- Whether there is a default clause. -/
theorem CasesAlike.any_isDefault : ∀ {cases cases' : List CaseClause}, CasesAlike S cases cases' →
    cases'.any (·.isDefault) = cases.any (·.isDefault)
  | _, _, .nil => rfl
  | _, _, .cons _ _ _ hrest => by rw [List.any_cons, List.any_cons, hrest.any_isDefault]

theorem ElseAlike?.isSome {otherwise otherwise' : Option Else}
    (h : ElseAlike? S otherwise otherwise') : otherwise'.isSome = otherwise.isSome := by
  cases h <;> rfl

/-! ## What is recognized -/

section Spared

variable (hspares : names.Spares S.rename)
include hspares

/-- What transactions can be started on. -/
theorem Expr.Alike.startsOn (h : e.Alike S e') :
    Recognizers.startsOn e' = Recognizers.startsOn e := by
  have hname := h.qualifiedName
  cases h with
  | ident =>
    rw [Recognizers.startsOn, Recognizers.startsOn, Bool.eq_iff_iff]
    simp [hspares.eq_blank_iff]
  | selector _ =>
    rw [Recognizers.startsOn, Recognizers.startsOn]
    rcases hname with ⟨hnone, hnone'⟩ | ⟨name, suffix, -, hname, hname'⟩
    · rw [hnone, hnone']
    · rw [hname, hname']
      rfl
  | _ => rfl

/-- A target that is declared. -/
theorem declareActions_alike (h : ExprsAlike S es es') :
    declareActions es' = (declareActions es).map (Action.rename S.rename) := by
  refine ExprsAlike.filterMap (fun {e e'} he => ?_) h
  rw [he.asIdent]
  cases e.asIdent with
  | none => rfl
  | some name =>
    by_cases hname : name = "_" <;>
      simp [Option.filter, Action.rename, hspares.eq_blank_iff, hname]

theorem paramActions_alike (params : List Param) :
    paramActions (params.map (·.rename S.rename)) =
      (paramActions params).map (Action.rename S.rename) := by
  have hparam : ∀ param : Param,
      (param.rename S.rename).actions = param.actions.map (Action.rename S.rename) := by
    rintro ⟨name, type⟩
    cases name with
    | none => rfl
    | some name =>
      by_cases hname : name = "_" <;>
        simp [Param.actions, Param.rename, Action.rename, hspares.eq_blank_iff, hname]
  rw [paramActions, paramActions, List.flatMap_map, List.map_flatMap]
  simp only [hparam]

/-- The acquisition into the first target. Only the names of the first two targets count. -/
theorem acquireActions_alike (h : ExprsAlike S es es') (kind : AcquisitionKind) (span : Span)
    (declares : Bool) : Recognizers.acquireActions es' kind span declares =
      (Recognizers.acquireActions es kind span declares).map (Action.rename S.rename) := by
  have herror : errorTarget es' kind = (errorTarget es kind).map S.rename := by
    rw [errorTarget, errorTarget, h.asIdent_at]
    split
    · cases es[1]?.bind Expr.asIdent with
      | none => rfl
      | some name =>
        by_cases hname : name = "_" <;> simp [Option.filter, hspares.eq_blank_iff, hname]
    · rfl
  rw [Recognizers.acquireActions, Recognizers.acquireActions, herror, List.head?_eq_getElem?,
    List.head?_eq_getElem?, h.asIdent_at]
  cases es[0]?.bind Expr.asIdent with
  | none => rfl
  | some name => by_cases hname : name = "_" <;> simp [Action.rename, hspares.eq_blank_iff, hname]

/-- Whether the only target of an assignment is the blank name. -/
theorem isBlank_alike : ExprsAlike S es es' →
    (match es' with | [e] => e.isBlank | _ => false) =
      match es with | [e] => e.isBlank | _ => false := by
  intro h
  cases h with
  | nil => rfl
  | @cons e _ _ _ he hes =>
    cases hes with
    | cons _ _ => rfl
    | nil =>
      simp only [Expr.isBlank, he.asIdent]
      cases e.asIdent with
      | none => rfl
      | some name =>
        rw [Bool.eq_iff_iff]
        simp [hspares.eq_blank_iff]

end Spared

/-- The stores of variables into fields. -/
theorem storeActions_alike (stop : Nat) {left left' right right' : List Expr}
    (hleft : ExprsAlike S left left') (hright : ExprsAlike S right right') :
    storeActions left' right' stop =
      (storeActions left right stop).map (Action.rename S.rename) := by
  induction left generalizing left' right right' with
  | nil =>
    cases hleft
    rfl
  | cons target left ih =>
    cases hleft with
    | cons htarget hleft =>
      cases hright with
      | nil => rfl
      | cons hvalue hright =>
        have hrest := ih hleft hright
        simp only [storeActions] at hrest
        simp only [storeActions, List.zip_cons_cons, List.filterMap_cons, hrest]
        cases htarget with
        | selector _ => cases hvalue <;> rfl
        | _ => rfl

/-- The variables among the arguments of a launched call. -/
theorem captureActions_alike (h : ExprsAlike S es es') (span : Span) :
    captureActions es' span = (captureActions es span).map (Action.rename S.rename) := by
  rw [captureActions, captureActions, h.filterMap Expr.Alike.asIdent, List.map_map, List.map_map]
  rfl

/-! ## Reading -/

/-- What reading asks of a call is the same for both, and what it makes of them is related. -/
structure Recognizers.Exchanges (names : Recognizers) (R : List Action → List Action → Prop)
    (call call' : Expr) : Prop where
  acquisition : names.acquisition call' = names.acquisition call
  helper : names.isCallbackHelper call' = names.isCallbackHelper call
  abort : names.abortKind call' = names.abortKind call
  finalize : R (names.finalizeActions call) (names.finalizeActions call')
  defer : R (names.deferActions call) (names.deferActions call')

/-- What a relation needs to hold of the actions of trees that are alike. -/
structure Likeness.Reads (S : Likeness) (names : Recognizers)
    (R : List Action → List Action → Prop) : Prop where
  spares : names.Spares S.rename
  nil : R [] []
  single : ∀ action : Action, R [action] [action.rename S.rename]
  append : ∀ {a a' b b' : List Action}, R a a' → R b b' → R (a ++ b) (a' ++ b')
  /-- Methods that may be called in place of one another. -/
  method : ∀ {operand operand' : Expr} {m m' : String} {args args' : List Expr} {place span : Span},
    S.method operand m m' → operand.Alike S operand' → ExprsAlike S args args' →
    names.Exchanges R (.call (.selector operand m place) args span)
      (.call (.selector operand' m' place) args' span)
  /-- An `else if` that gets a block of its own. -/
  split : ∀ {stmt stmt' : IfStmt}, S.split stmt → R (stmt.actions names) (stmt'.actions names) →
    R (.enterArm .elseBranch :: .count :: .holdGuards false :: stmt.actions names ++ [.leave])
      (.enterArm .elseBranch :: .holdGuards true :: .count :: .setSpan stmt'.span ::
        stmt'.actions names ++ [.leave])

namespace Likeness.Reads

variable {R : List Action → List Action → Prop} (hR : S.Reads names R) {a a' : List Action}
include hR

theorem of_map (a : List Action) : R a (a.map (Action.rename S.rename)) := by
  induction a with
  | nil => exact hR.nil
  | cons action a ih => exact hR.append (hR.single action) ih

/-- Actions whose variables are renamed. -/
theorem of_eq (h : a' = a.map (Action.rename S.rename)) : R a a' :=
  h ▸ hR.of_map a

theorem cons (action : Action) (h : R a a') : R (action :: a) (action.rename S.rename :: a') :=
  hR.append (hR.single action) h

theorem cons_of {action action' : Action} (haction : action' = action.rename S.rename)
    (h : R a a') : R (action :: a) (action' :: a') :=
  haction ▸ hR.cons action h

theorem close (action : Action) (h : R a a') : R (a ++ [action]) (a' ++ [action.rename S.rename]) :=
  hR.append h (hR.single action)

/-- A statement is counted, and then events point at it. -/
theorem counted (span : Span) (h : R a a') : R (.count :: .setSpan span :: a)
    (.count :: .setSpan span :: a') :=
  hR.cons .count (hR.cons (.setSpan span) h)

theorem guard (he : e.Alike S e') (h : R a a') :
    R (.openGuard e.mentioned :: a) (.openGuard e'.mentioned :: a') :=
  hR.cons_of (congrArg Action.openGuard he.mentioned) h

theorem construct (kind : ConstructKind) (span : Span) {closed closed' : Bool}
    (hclosed : closed' = closed) (h : R a a') :
    R (.openConstruct kind closed span :: a) (.openConstruct kind closed' span :: a') :=
  hclosed ▸ hR.cons (.openConstruct kind closed span) h

theorem unlessIdent (he : e.Alike S e') (h : R a a') :
    R (if e.asIdent.isSome then [] else a) (if e'.asIdent.isSome then [] else a') := by
  rw [he.asIdent, Option.isSome_map]
  split
  · exact hR.nil
  · exact h

/-! ### Calls -/

/-- Calls that are alike may stand for one another. -/
theorem exchanges (h : e.Alike S e') : names.Exchanges R e e' := by
  cases h with
  | method hm hoperand hargs => exact hR.method hm hoperand hargs
  | @call func func' args args' span hfunc hargs =>
    have hselects : Recognizers.selectsFatal func' = Recognizers.selectsFatal func := by
      cases hfunc <;> rfl
    have hgiven := hargs.filterMap Expr.Alike.deferredArg
    have hdefer : R ((args.filterMap Recognizers.deferredArg).map (.deferCall · false))
        ((args'.filterMap Recognizers.deferredArg).map (.deferCall · false)) := by
      refine hR.of_eq ?_
      rw [hgiven, List.map_map, List.map_map]
      rfl
    refine ⟨?_, ?_, ?_, ?_, ?_⟩
    -- acquisition, helper, abort, finalization and deferred call, in this order
    · cases hfunc with
      | selector hoperand =>
        simp only [Recognizers.acquisition, Expr.methodCall, hoperand.startsOn hR.spares]
      | _ => rfl
    · rw [Recognizers.isCallbackHelper, Recognizers.isCallbackHelper,
        hargs.any Expr.Alike.isTxCallback]
      cases hfunc with
      | ident => exact congrArg (· || _) (hR.spares.helper _)
      | _ => rfl
    · rw [Recognizers.abortKind, Recognizers.abortKind, hselects]
      rcases hfunc.qualifiedName with ⟨hnone, hnone'⟩ | ⟨name, suffix, hsel, hname, hname'⟩
      · rw [hnone, hnone']
      · rw [hname, hname', Option.bind_some, Option.bind_some, hR.spares.abort name suffix hsel]
    · cases hfunc with
      | selector hoperand =>
        refine hR.of_eq ?_
        cases hoperand with
        | ident =>
          simp only [Recognizers.finalizeActions, Expr.methodCall]
          split
          · rfl
          · split <;> rfl
        | _ => rfl
      | _ => exact hR.nil
    · cases hfunc with
      | selector hoperand => cases hoperand <;> exact hR.of_map _
      | _ => exact hdefer
  | _ => exact ⟨rfl, rfl, rfl, hR.nil, hR.nil⟩

theorem delegateActions (h : e.Alike S e') :
    R (names.delegateActions e) (names.delegateActions e') := by
  have hargs : e'.callArgs.filterMap Expr.asIdent =
      (e.callArgs.filterMap Expr.asIdent).map S.rename := by
    cases h with
    | call _ hargs | method _ _ hargs => exact hargs.filterMap Expr.Alike.asIdent
    | _ => rfl
  refine hR.of_eq ?_
  rw [Recognizers.delegateActions, Recognizers.delegateActions, (hR.exchanges h).helper, hargs]
  split <;> rfl

theorem abortActions (h : e.Alike S e') : R (names.abortActions e) (names.abortActions e') := by
  refine hR.of_eq ?_
  rw [Recognizers.abortActions, Recognizers.abortActions, (hR.exchanges h).abort]
  split <;> rfl

variable (h : ExprsAlike S es es')
include h

/-- How a statement with these right sides starts a transaction. -/
theorem acquisitionOf : names.acquisitionOf es' = names.acquisitionOf es := by
  cases h with
  | nil => rfl
  | cons he hes =>
    cases hes with
    | nil => exact (hR.exchanges he).acquisition
    | cons _ _ => rfl

/-- What a declaration does after its right sides. -/
theorem declarationActions {right right' : List Expr} (hright : ExprsAlike S right right')
    (span : Span) :
    R (names.declarationActions es right span) (names.declarationActions es' right' span) := by
  have hrest : declareActions (es'.drop 1) =
      (declareActions (es.drop 1)).map (Action.rename S.rename) := by
    cases h with
    | nil => rfl
    | cons _ htail => exact declareActions_alike hR.spares htail
  refine hR.of_eq ?_
  rw [Recognizers.declarationActions, Recognizers.declarationActions, hR.acquisitionOf hright,
    hrest, declareActions_alike hR.spares h]
  split
  · rw [acquireActions_alike hR.spares h, List.map_append]
  · rfl

/-- What an assignment does to its targets. -/
theorem assigned {right right' : List Expr} (hright : ExprsAlike S right right') (span : Span)
    (htargets : R (targetsActions names es) (targetsActions names es')) :
    R (match names.acquisitionOf right with
        | some kind => Recognizers.acquireActions es kind span false
        | none => targetsActions names es)
      (match names.acquisitionOf right' with
        | some kind => Recognizers.acquireActions es' kind span false
        | none => targetsActions names es') := by
  rw [hR.acquisitionOf hright]
  split
  · exact hR.of_eq (acquireActions_alike hR.spares h _ span false)
  · exact htargets

/-- What a loop over a range does to its targets. -/
theorem ranged (declares : Bool) (htargets : R (exprsActions names es) (exprsActions names es')) :
    R (if declares then declareActions es else exprsActions names es)
      (if declares then declareActions es' else exprsActions names es') := by
  split
  · exact hR.of_eq (declareActions_alike hR.spares h)
  · exact htargets

end Likeness.Reads

/-- Names that are declared as targets are. -/
theorem ExprsAlike.idents (span : Span) : ∀ declared : List String,
    ExprsAlike S (declared.map (.ident · span)) ((declared.map S.rename).map (.ident · span))
  | [] => .nil
  | _ :: rest => .cons .ident (idents span rest)

/-! ### Statements -/

/-- The statements of a function literal. -/
def Expr.bodyStmts : Expr → List Stmt
  | .funcLit _ ⟨stmts, _⟩ _ => stmts
  | _ => []

def Expr.isCall : Expr → Bool
  | .call _ _ _ => true
  | _ => false

def Stmt.isIf : Stmt → Bool
  | .ifStmt _ => true
  | _ => false

/-- What two expressions are read into is related, also if they are deferred or launched. -/
structure Recognizers.ReadsExpr (names : Recognizers) (R : List Action → List Action → Prop)
    (e e' : Expr) : Prop where
  whole : R (e.actions names) (e'.actions names)
  /-- A function literal that is called at once is no callee. -/
  body : R (stmtsActions names e.bodyStmts) (stmtsActions names e'.bodyStmts)
  deferred : ∀ span, R (Stmt.actions names (.deferStmt e span))
    (Stmt.actions names (.deferStmt e' span))
  launched : ∀ span, R (Stmt.actions names (.goStmt e span)) (Stmt.actions names (.goStmt e' span))

/-- What two statements are read into is related, also in lists of statements. -/
structure Recognizers.ReadsStmt (names : Recognizers) (R : List Action → List Action → Prop)
    (s s' : Stmt) : Prop where
  whole : R (s.actions names) (s'.actions names)
  listed : ∀ {rest rest' : List Stmt}, R (stmtsActions names rest) (stmtsActions names rest') →
    R (stmtsActions names (s :: rest)) (stmtsActions names (s' :: rest'))

theorem Expr.actions_deferStmt (h : e.isCall = false) (span : Span) :
    Stmt.actions names (.deferStmt e span) =
      .count :: .setSpan span :: .addDefer :: e.actions names := by
  cases e <;> first | rfl | cases h

theorem Expr.actions_goStmt (h : e.isCall = false) (span : Span) :
    Stmt.actions names (.goStmt e span) = .count :: .setSpan span :: e.actions names := by
  cases e <;> first | rfl | cases h

theorem Stmt.actions_cons {s : Stmt} (h : s.isIf = false) (rest : List Stmt) :
    stmtsActions names (s :: rest) = .dropGuards :: s.actions names ++ stmtsActions names rest := by
  cases s <;> first | rfl | cases h

namespace Likeness.Reads

variable {R : List Action → List Action → Prop} (hR : S.Reads names R) {func func' : Expr}
  {args args' : List Expr} {s s' : Stmt} {stmt stmt' : IfStmt} {place : Span}
include hR

theorem called (h : Expr.Alike S (.call func args place) (.call func' args' place))
    (hfunc : names.ReadsExpr R func func')
    (hargs : R (exprsActions names args) (exprsActions names args')) :
    names.ReadsExpr R (.call func args place) (.call func' args' place) where
  whole := hR.append (hR.append (hR.append (hR.append (hR.exchanges h).finalize
    (hR.delegateActions h)) hfunc.whole) (hR.cons .openArgs hargs))
    (hR.cons .closeArgs (hR.abortActions h))
  body := hR.nil
  deferred span := by
    have hread := hR.counted span (hR.cons .addDefer
      (hR.append (hR.append (hR.exchanges h).defer hfunc.whole) hargs))
    have hbody := hfunc.body
    cases h with
    | method _ _ _ => exact hread
    | call hcallee _ =>
      cases hcallee with
      | funcLit =>
        -- a literal is read behind the arguments, as a body of its own
        exact hR.counted span (hR.cons .addDefer (hR.close .closeBody (hR.append (hR.append hargs
          (hR.cons (.openBody .deferred) (hR.of_eq (paramActions_alike hR.spares _)))) hbody)))
      | _ => exact hread
  launched span := by
    have hread := fun {a a' : List Action} (hcapture : R a a') => hR.counted span
      (hR.close .closeBody (hR.append (hR.append (hR.append hcapture hargs) (hR.cons
        (.openBody (.goroutine span)) (hR.exchanges h).finalize)) hfunc.whole))
    have hbody := hfunc.body
    cases h with
    | method _ _ hgiven => exact hread (hR.of_eq (captureActions_alike hgiven span))
    | call hcallee hgiven =>
      have hcapture := hR.of_eq (captureActions_alike hgiven span)
      have hread := hread hcapture
      cases hcallee with
      | funcLit =>
        exact hR.counted span (hR.close .closeBody (hR.append (hR.append (hR.append hcapture hargs)
          (hR.cons (.openBody (.goroutine span)) (hR.of_eq (paramActions_alike hR.spares _))))
          hbody))
      | _ => exact hread

/-- Expressions that are no calls. -/
theorem uncalled (hcall : e.isCall = false) (hcall' : e'.isCall = false)
    (hbody : R (stmtsActions names e.bodyStmts) (stmtsActions names e'.bodyStmts))
    (h : R (e.actions names) (e'.actions names)) : names.ReadsExpr R e e' where
  whole := h
  body := hbody
  deferred span := by
    rw [Expr.actions_deferStmt hcall, Expr.actions_deferStmt hcall']
    exact hR.counted span (hR.cons .addDefer h)
  launched span := by
    rw [Expr.actions_goStmt hcall, Expr.actions_goStmt hcall']
    exact hR.counted span h

/-- Statements other than `if`. -/
theorem stated (hif : s.isIf = false) (hif' : s'.isIf = false)
    (h : R (s.actions names) (s'.actions names)) : names.ReadsStmt R s s' where
  whole := h
  listed hrest := by
    rw [Stmt.actions_cons hif, Stmt.actions_cons hif']
    exact hR.append (hR.cons .dropGuards h) hrest

theorem conditional (hif : stmt.Alike S stmt')
    (h : R (stmt.actions names) (stmt'.actions names)) :
    names.ReadsStmt R (.ifStmt stmt) (.ifStmt stmt') where
  whole := by
    have hread := fun span => hR.counted span (hR.cons (.holdGuards false) h)
    cases hif
    exact hread _
  listed hrest := by
    have hread := fun span => hR.append (hR.cons (.holdGuards true) (hR.counted span h)) hrest
    cases hif
    exact hread _

theorem elseSplit (place : Span) (hsplit : S.split stmt) (hif : stmt.Alike S stmt')
    (h : R (stmt.actions names) (stmt'.actions names)) :
    R (Else.actions names (.elseIf stmt))
      (Else.actions names (.block ⟨[.ifStmt stmt'], place⟩)) := by
  have hread := hR.split hsplit h
  cases hif
  show R _ (.enterArm .elseBranch :: (.holdGuards true :: .count :: .setSpan _ ::
    IfStmt.actions names _ ++ []) ++ [.leave])
  rw [List.append_nil]
  exact hread

end Likeness.Reads

section Reading

variable {R : List Action → List Action → Prop} (hR : S.Reads names R)
include hR

mutual

theorem Expr.Alike.reads : ∀ {e e' : Expr}, e.Alike S e' → names.ReadsExpr R e e'
  | _, _, .ident => hR.uncalled rfl rfl hR.nil (hR.single _)
  | _, _, .call hfunc hargs => hR.called (.call hfunc hargs) hfunc.reads hargs.reads
  | _, _, .method hm hoperand hargs =>
    hR.called (.method hm hoperand hargs) (hR.uncalled rfl rfl hR.nil hoperand.reads.whole)
      hargs.reads
  | _, _, .selector hoperand | _, _, .unary hoperand =>
    hR.uncalled rfl rfl hR.nil hoperand.reads.whole
  | _, _, .funcLit hstmts =>
    hR.uncalled rfl rfl hstmts.reads (hR.close .closeBody (hR.append
      (hR.cons (.openBody .closure) (hR.of_eq (paramActions_alike hR.spares _))) hstmts.reads))
  | _, _, .composite helements | _, _, .other helements =>
    hR.uncalled rfl rfl hR.nil helements.reads
  | _, _, .keyValue hkey hvalue =>
    hR.uncalled rfl rfl hR.nil (hR.append (hR.unlessIdent hkey hkey.reads.whole) hvalue.reads.whole)
  | _, _, .literal => hR.uncalled rfl rfl hR.nil hR.nil

theorem ExprsAlike.reads : ∀ {es es' : List Expr}, ExprsAlike S es es' →
    R (exprsActions names es) (exprsActions names es')
  | _, _, .nil => hR.nil
  | _, _, .cons he hes => hR.append he.reads.whole hes.reads

theorem ExprsAlike.readsTargets : ∀ {es es' : List Expr}, ExprsAlike S es es' →
    R (targetsActions names es) (targetsActions names es')
  | _, _, .nil => hR.nil
  | _, _, .cons he hes => hR.append (hR.unlessIdent he he.reads.whole) hes.readsTargets

theorem ExprAlike?.reads : ∀ {e? e?' : Option Expr}, ExprAlike? S e? e?' →
    R (e?.elim [] (Expr.actions names)) (e?'.elim [] (Expr.actions names))
  | _, _, .none => hR.nil
  | _, _, .some he => he.reads.whole

theorem StmtAlike?.reads : ∀ {s? s?' : Option Stmt}, StmtAlike? S s? s?' →
    R (s?.elim [] (Stmt.actions names)) (s?'.elim [] (Stmt.actions names))
  | _, _, .none => hR.nil
  | _, _, .some hs => hs.reads.whole

/-- The init clause of an `if` statement keeps its error checks for the condition. -/
theorem StmtAlike?.readsFirst : ∀ {s? s?' : Option Stmt}, StmtAlike? S s? s?' →
    R (s?.elim [] fun s => s.actions names ++ [.collectGuards])
      (s?'.elim [] fun s => s.actions names ++ [.collectGuards])
  | _, _, .none => hR.nil
  | _, _, .some hs => hR.close .collectGuards hs.reads.whole

theorem Stmt.Alike.reads : ∀ {s s' : Stmt}, s.Alike S s' → names.ReadsStmt R s s'
  | _, _, .shortVarDecl hleft hright => hR.stated rfl rfl
    (hR.append (hR.counted _ hright.reads) (hR.declarationActions hleft hright _))
  | _, _, .varDecl hvalues => hR.stated rfl rfl
    (hR.append (hR.counted _ hvalues.reads) (hR.declarationActions (.idents _ _) hvalues _))
  | _, _, .assign hleft hright => hR.stated rfl rfl
    (hR.append (hR.append (hR.counted _ (hR.cons_of
        (congrArg Action.beginAssign (isBlank_alike hR.spares hleft)) hright.reads))
      (hR.cons .endAssign (hR.of_eq (storeActions_alike _ hleft hright))))
      (hR.assigned hleft hright _ hleft.readsTargets))
  | _, _, .exprStmt he => hR.stated rfl rfl (hR.counted _ he.reads.whole)
  | _, _, .returnStmt hvalues => hR.stated rfl rfl
    (hR.close (.exit .byReturn) (hR.counted _
      (hR.cons_of (congrArg Action.handOut hvalues.handedOutBy) hvalues.reads)))
  | _, _, .deferStmt he => hR.stated rfl rfl (he.reads.deferred _)
  | _, _, .goStmt he => hR.stated rfl rfl (he.reads.launched _)
  | _, _, .ifStmt hif => hR.conditional hif hif.reads
  | _, _, .forStmt hinit htest hpost hstmts => hR.stated rfl rfl <| by
    rw [Stmt.actions_forStmt, Stmt.actions_forStmt]
    exact hR.close .leave (hR.append (hR.append (hR.append (hR.counted _ hinit.reads) htest.reads)
      (hR.cons (.enter .loopBody) hstmts.reads)) hpost.reads)
  | _, _, .rangeStmt hleft hright hstmts => hR.stated rfl rfl
    (hR.close .leave (hR.append (hR.append (hR.counted _ hright.reads.whole)
      (hR.cons (.enter .loopBody) (hR.ranged hleft _ hleft.reads))) hstmts.reads))
  | _, _, .switchStmt hinit htag hcases => hR.stated rfl rfl <| by
    rw [Stmt.actions_switchStmt, Stmt.actions_switchStmt]
    exact hR.close .closeConstruct (hR.append (hR.append (hR.counted _ hinit.reads) htag.reads)
      (hR.construct .switch _ hcases.any_isDefault (hcases.reads .switch)))
  | _, _, .selectStmt hcases => hR.stated rfl rfl
    (hR.close .closeConstruct (hR.counted _
      (hR.construct .select _ hcases.any_isDefault (hcases.reads .select))))
  | _, _, .block hstmts => hR.stated rfl rfl
    (hR.close .leave (hR.counted _ (hR.cons (.enter .block) hstmts.reads)))
  | _, _, .seq hstmts => hR.stated rfl rfl (hR.counted _ hstmts.reads)
  | _, _, .labeled hstmt => hR.stated rfl rfl (hR.counted _ hstmt.reads.whole)
  | _, _, .incDec he => hR.stated rfl rfl (hR.counted _ he.reads.whole)
  | _, _, .send hchannel hvalue => hR.stated rfl rfl
    (hR.append (hR.counted _ hchannel.reads.whole) hvalue.reads.whole)
  | _, _, .branch | _, _, .empty | _, _, .unsupported =>
    hR.stated rfl rfl (hR.counted _ hR.nil)

theorem StmtsAlike.reads : ∀ {stmts stmts' : List Stmt}, StmtsAlike S stmts stmts' →
    R (stmtsActions names stmts) (stmtsActions names stmts')
  | _, _, .nil => hR.nil
  | _, _, .cons hs hrest => hs.reads.listed hrest.reads

theorem IfStmt.Alike.reads : ∀ {stmt stmt' : IfStmt}, stmt.Alike S stmt' →
    R (stmt.actions names) (stmt'.actions names)
  | _, _, .mk hinit htest hstmts helse => by
    rw [IfStmt.actions_mk, IfStmt.actions_mk]
    exact hR.close .closeConstruct (hR.append (hR.append (hR.append hinit.readsFirst
      (hR.cons (.setSpan _) htest.reads.whole)) (hR.guard htest (hR.construct .conditional _
        helse.isSome (hR.cons (.enterArm .ifBranch) hstmts.reads))))
      (hR.cons .leave (hR.cons .closeGuard helse.reads)))

theorem ElseAlike?.reads : ∀ {otherwise otherwise' : Option Else},
    ElseAlike? S otherwise otherwise' →
    R (otherwise.elim [] (Else.actions names)) (otherwise'.elim [] (Else.actions names))
  | _, _, .none => hR.nil
  | _, _, .block hstmts => hR.close .leave (hR.cons (.enterArm .elseBranch) hstmts.reads)
  | _, _, .elseIf hif =>
    hR.close .leave (hR.cons (.enterArm .elseBranch) (hR.cons .count
      (hR.cons (.holdGuards false) hif.reads)))
  | _, _, @ElseAlike?.split _ _ _ place hsplit hif => hR.elseSplit place hsplit hif hif.reads

theorem CasesAlike.reads : ∀ {cases cases' : List CaseClause}, CasesAlike S cases cases' →
    ∀ kind, R (casesActions names kind cases) (casesActions names kind cases')
  | _, _, .nil, _ => hR.nil
  | _, _, .cons hvalues hcomm hbody hrest, kind => by
    rw [casesActions_cons, casesActions_cons]
    exact hR.append (hR.append (hR.append (hR.cons (.enterArm kind.clauseKind)
      (hR.cons (.setSpan _) hvalues.reads)) hcomm.reads) hbody.reads)
      (hR.cons .leave (hrest.reads kind))

end

/-- Functions are read alike if their parameters are renamed and their bodies are alike. -/
theorem FunctionUnit.reads_of_alike {unit unit' : FunctionUnit}
    (hreceiver : unit'.receiver = unit.receiver.map (·.rename S.rename))
    (hparams : unit'.params = unit.params.map (·.rename S.rename))
    (hbody : StmtsAlike S unit.body.stmts unit'.body.stmts) :
    R (unit.actions names) (unit'.actions names) := by
  have hfirst : unit'.receiver.toList = unit.receiver.toList.map (·.rename S.rename) := by
    rw [hreceiver, Option.toList_map]
  rw [FunctionUnit.actions, FunctionUnit.actions, hfirst, hparams]
  exact hR.append (hR.append (hR.of_eq (paramActions_alike hR.spares _))
    (hR.of_eq (paramActions_alike hR.spares _))) (hbody.reads hR)

/-- Functions with the same parameters are read alike if names stay and their bodies are alike. -/
theorem FunctionUnit.reads_of_alike_id {unit unit' : FunctionUnit} (hid : S.rename = id)
    (hreceiver : unit'.receiver = unit.receiver) (hparams : unit'.params = unit.params)
    (hbody : StmtsAlike S unit.body.stmts unit'.body.stmts) :
    R (unit.actions names) (unit'.actions names) := by
  refine reads_of_alike hR ?_ ?_ hbody
  · rw [hreceiver, hid, Param.rename_id, Option.map_id, id]
  · rw [hparams, hid, Param.rename_id, List.map_id]

end Reading

end TxLifecycle
