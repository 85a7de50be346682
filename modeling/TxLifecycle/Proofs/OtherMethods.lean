import TxLifecycle.Proofs.AlikeTrees
import TxLifecycle.Proofs.OneVariable

/-!
# Methods called on another variable

What a function calls on one variable says nothing about another. Trees that differ only in plain
names of methods called on `y` are read into actions that differ only in commits and rollbacks of
`y`, and of those nothing is left for a variable `x`.

* `Recognizers.Plain`: the names of methods that mean no more than a commit, a rollback or nothing;
* `FunctionUnit.Varies`: functions that differ in such names only, at whatever set of calls;
* `SameTrace`: lists of actions that leave the same for `x`;
* `FunctionUnit.trace_eq_of_varies`: variants of a function are read into such lists;
* `FunctionUnit.track_varies`: so their walks succeed together, and give the same bindings and the
  same violations for `x`.
-/

namespace TxLifecycle

/-! ## Functions that differ in names of methods -/

/-- A call `y.m(…)` starts no transaction, takes no handle over and does not abort. It may commit,
roll back or do anything else. -/
structure Recognizers.Plain (names : Recognizers) (y m : String) : Prop where
  /-- The method is no built-in acquisition. -/
  builtin : AcquisitionKind.ofMethod? m = none
  acquire : m ∉ names.acquireMethods
  /-- It is not the name of a helper that takes handles over. -/
  helper : m ∉ names.callbackHelpers
  /-- The selection `y.m` is not the name of an aborting function. -/
  abort : names.abortByName (y ++ "." ++ m) = none
  /-- The name does not start with `Fatal`. -/
  fatal : "Fatal".toList.isPrefixOf m.toList = false

/-- Plain methods called on `y` may have other plain names, and nothing else changes. -/
def Likeness.varied (names : Recognizers) (y : String) : Likeness where
  rename := id
  method operand m m' := (∃ place, operand = .ident y place) ∧ names.Plain y m ∧ names.Plain y m'
  split _ := False

/-- The second function is the first one with other plain names at some of its calls of methods on
`y`. -/
structure FunctionUnit.Varies (names : Recognizers) (y : String) (unit unit' : FunctionUnit) :
    Prop where
  name : unit'.name = unit.name
  receiver : unit'.receiver = unit.receiver
  params : unit'.params = unit.params
  body : StmtsAlike (.varied names y) unit.body.stmts unit'.body.stmts
  nestingExceeded : unit'.nestingExceeded = unit.nestingExceeded

namespace Recognizers.Plain

variable {names : Recognizers} {y m : String} (h : names.Plain y m) (args : List Expr)
  (place place' span : Span)
include h

theorem acquisition :
    names.acquisition (.call (.selector (.ident y place) m place') args span) = none := by
  simp [Recognizers.acquisition, Expr.methodCall, h.builtin, h.acquire]

theorem isCallbackHelper :
    names.isCallbackHelper (.call (.selector (.ident y place) m place') args span) =
      args.any isTxCallback := by
  simp [Recognizers.isCallbackHelper, calleeName, h.helper]

theorem abortKind :
    names.abortKind (.call (.selector (.ident y place) m place') args span) = none := by
  rw [Recognizers.abortKind, Expr.qualifiedName, Expr.qualifiedName, Option.map_some,
    Option.bind_some, h.abort]
  exact if_neg (Bool.eq_false_iff.mp h.fatal)

end Recognizers.Plain

variable {names : Recognizers} {x y : String}

/-! ## Reading -/

/-- Two lists of actions leave the same for the variable. -/
def SameTrace (x : String) (a a' : List Action) : Prop :=
  trace x a' = trace x a

/-- Commits and rollbacks of other variables leave nothing. -/
theorem trace_finalizeActions (hxy : x ≠ y) (m : String) (args : List Expr)
    (place place' span : Span) :
    trace x (names.finalizeActions (.call (.selector (.ident y place) m place') args span)) =
      [] := by
  simp only [Recognizers.finalizeActions, Expr.methodCall]
  split_ifs <;> simp [trace, Action.only, hxy.symm]

theorem trace_deferActions (hxy : x ≠ y) (m : String) (args : List Expr)
    (place place' span : Span) :
    trace x (names.deferActions (.call (.selector (.ident y place) m place') args span)) = [] := by
  simp [Recognizers.deferActions, Expr.methodCall, trace, Action.only, hxy.symm]

theorem Likeness.reads_varied (names : Recognizers) (hxy : x ≠ y) :
    (varied names y).Reads names (SameTrace x) where
  spares := names.spares_id
  nil := rfl
  single action := congrArg (trace x [·]) action.rename_id
  append ha hb := by rw [SameTrace, trace_append, trace_append, ha, hb]
  method := by
    rintro operand operand' m m' args args' place span ⟨⟨place', rfl⟩, hm, hm'⟩ hoperand hargs
    cases hoperand
    exact {
      acquisition := by rw [hm.acquisition]; exact hm'.acquisition _ _ _ _
      helper := by
        rw [hm.isCallbackHelper, ← hargs.any Expr.Alike.isTxCallback]
        exact hm'.isCallbackHelper _ _ _ _
      abort := by rw [hm.abortKind]; exact hm'.abortKind _ _ _ _
      finalize := (trace_finalizeActions hxy _ _ _ _ _).trans
        (trace_finalizeActions hxy _ _ _ _ _).symm
      defer := (trace_deferActions hxy _ _ _ _ _).trans (trace_deferActions hxy _ _ _ _ _).symm }
  split hsplit := hsplit.elim

namespace FunctionUnit

variable {limits : Limits} {unit unit' : FunctionUnit}

/-- Reading a function with other methods called on `y` leaves the same actions for `x`. -/
theorem trace_eq_of_varies (hxy : x ≠ y) (h : unit.Varies names y unit') :
    trace x (unit'.actions names) = trace x (unit.actions names) :=
  reads_of_alike_id (Likeness.reads_varied names hxy) rfl h.receiver h.params h.body

/-- A function that leaves the same actions for a variable as one whose walk succeeds has such a
walk itself. -/
theorem exists_track_of_trace_eq (hread : unit'.nestingExceeded = unit.nestingExceeded)
    (htrace : trace x (unit'.actions names) = trace x (unit.actions names))
    (h : ∃ t, unit.track limits names = .ok t) : ∃ t', unit'.track limits names = .ok t' := by
  obtain ⟨t, htrack⟩ := h
  obtain ⟨w, hwalk, -⟩ := exists_walk_of_track htrack
  have hwhole := nestingExceeded_of_walk hwalk
  have hle := (walk_ok_iff hwhole limits).mp ⟨w, hwalk⟩
  rw [← demand_eq_of_trace_eq htrace] at hle
  obtain ⟨w', hwalk'⟩ := (walk_ok_iff (hread.trans hwhole) limits).mpr hle
  exact ⟨⟨w'.scopes, w'.bindings⟩, by rw [track, hwalk']; rfl⟩

/-- Walks of functions that leave the same actions for a variable leave the same for it. -/
theorem only_eq_of_trace_eq {w w' : Walk}
    (htrace : trace x (unit'.actions names) = trace x (unit.actions names))
    (h : unit.walk limits names = .ok w) (h' : unit'.walk limits names = .ok w') :
    w'.only (w'.bindings.map (·.name)) x = w.only (w.bindings.map (·.name)) x := by
  have hrun := walk_only x h'
  rw [htrace, walk_only x h] at hrun
  exact (Except.ok.inj hrun).symm

/-- **What is called on one variable says nothing about another.** Where functions differ only in
the names of methods called on `y`, and all these names are plain, their walks succeed or fail
together. Then the bindings named `x` are the same but for their numbers, and so are the violations
found for `x`. -/
theorem track_varies (limits : Limits) (hxy : x ≠ y) (h : unit.Varies names y unit') :
    ((∃ t, unit.track limits names = .ok t) ↔ ∃ t', unit'.track limits names = .ok t') ∧
    ∀ t t', unit.track limits names = .ok t → unit'.track limits names = .ok t' →
      (t'.bindings.filter (·.name == x)).map Binding.unplaced =
          (t.bindings.filter (·.name == x)).map Binding.unplaced ∧
        (t'.violations unit'.name).filter (·.variableName == x) =
          (t.violations unit.name).filter (·.variableName == x) := by
  have htrace := trace_eq_of_varies hxy h
  refine ⟨⟨exists_track_of_trace_eq h.nestingExceeded htrace,
    exists_track_of_trace_eq h.nestingExceeded.symm htrace.symm⟩, ?_⟩
  intro t t' htrack htrack'
  obtain ⟨w, hwalk, rfl⟩ := exists_walk_of_track htrack
  obtain ⟨w', hwalk', rfl⟩ := exists_walk_of_track htrack'
  have honly := only_eq_of_trace_eq htrace hwalk hwalk'
  have hlisted := listed_of_walk hwalk
  have hlisted' := listed_of_walk hwalk'
  constructor
  · rw [← Walk.unplaced_only hlisted', honly, Walk.unplaced_only hlisted]
  · rw [← Walk.violations_only hlisted', honly, Walk.violations_only hlisted, h.name]

/-- A function that starts a transaction for `audit`, calls a method on it and starts another one,
before it starts one for `tx`. -/
def auditedTransfer (method : String) : FunctionUnit where
  name := "Transfer"
  body := {
    stmts := [
      .shortVarDecl [.ident "audit" {}]
        [.call (.selector (.ident "db" {}) "MustBegin" {}) [] {}] {},
      .exprStmt (.call (.selector (.ident "audit" {}) method {}) [] {}) {},
      .assign [.ident "audit" {}] [.call (.selector (.ident "db" {}) "MustBegin" {}) [] {}] {},
      .shortVarDecl [.ident "tx" {}] [.call (.selector (.ident "db" {}) "MustBegin" {}) [] {}]
        { start := 40, stop := 60 }]
    span := {} }

/-- `auditedTransfer` varies with the name of the method that is called on `audit`. -/
theorem auditedTransfer_varies {m m' : String} (hm : names.Plain "audit" m)
    (hm' : names.Plain "audit" m') :
    (auditedTransfer m).Varies names "audit" (auditedTransfer m') where
  name := rfl
  receiver := rfl
  params := rfl
  body := by
    have hbegin : ExprsAlike (.varied names "audit")
        [.call (.selector (.ident "db" {}) "MustBegin" {}) [] {}]
        [.call (.selector (.ident "db" {}) "MustBegin" {}) [] {}] :=
      .cons (.call (.selector .ident) .nil) .nil
    have hname : ∀ name, ExprsAlike (.varied names "audit") [.ident name {}] [.ident name {}] :=
      fun _ => .cons .ident .nil
    exact .cons (.shortVarDecl (hname _) hbegin)
      (.cons (.exprStmt (.method ⟨⟨_, rfl⟩, hm, hm'⟩ .ident .nil)) (.cons (.assign (hname _) hbegin)
        (.cons (.shortVarDecl (hname _) hbegin) .nil)))
  nestingExceeded := rfl

/-- A commit of `audit` makes its next transaction a binding of its own and so shifts the number of
`tx`. All else about `tx` is as if `audit` was only pinged. -/
theorem track_varies_auditedTransfer :
    ∃ committed pinged : Tracked,
      (auditedTransfer "Commit").track {} {} = .ok committed ∧
      (auditedTransfer "Ping").track {} {} = .ok pinged ∧
      (committed.bindings.filter (·.name == "tx")).map (·.id) = [2] ∧
      (pinged.bindings.filter (·.name == "tx")).map (·.id) = [1] ∧
      (pinged.bindings.filter (·.name == "tx")).map Binding.unplaced =
        (committed.bindings.filter (·.name == "tx")).map Binding.unplaced ∧
      ((committed.violations "Transfer").filter (·.variableName == "tx")).map (·.kind) =
        [.noCommitRollback] ∧
      (pinged.violations "Transfer").filter (·.variableName == "tx") =
        (committed.violations "Transfer").filter (·.variableName == "tx") := by
  have hcommit : ({} : Recognizers).Plain "audit" "Commit" :=
    ⟨by decide, by decide, by decide, by decide, by decide⟩
  have hping : ({} : Recognizers).Plain "audit" "Ping" :=
    ⟨by decide, by decide, by decide, by decide, by decide⟩
  obtain ⟨-, hsame⟩ :=
    track_varies (x := "tx") {} (by decide) (auditedTransfer_varies hcommit hping)
  obtain ⟨committed, htrack, hshifted, hreported⟩ : ∃ committed : Tracked,
      (auditedTransfer "Commit").track {} {} = .ok committed ∧
      (committed.bindings.filter (·.name == "tx")).map (·.id) = [2] ∧
      ((committed.violations "Transfer").filter (·.variableName == "tx")).map (·.kind) =
        [.noCommitRollback] := ⟨_, rfl, rfl, rfl⟩
  obtain ⟨pinged, htrack', hplace⟩ : ∃ pinged : Tracked,
      (auditedTransfer "Ping").track {} {} = .ok pinged ∧
      (pinged.bindings.filter (·.name == "tx")).map (·.id) = [1] := ⟨_, rfl, rfl⟩
  obtain ⟨hbindings, hviolations⟩ := hsame committed pinged htrack htrack'
  exact ⟨committed, pinged, htrack, htrack', hshifted, hplace, hbindings, hreported, hviolations⟩

end FunctionUnit

end TxLifecycle
