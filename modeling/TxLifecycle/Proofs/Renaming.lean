import Mathlib.Algebra.Group.End
import Mathlib.Data.List.Basic
import TxLifecycle.Check
import TxLifecycle.Proofs.RenamedSyntax
import TxLifecycle.Proofs.StateMaps

/-!
# Names of variables do not matter

Reading a function compares names with one another and with the names of the settings, and does
nothing else with them. So a renaming of the variables that keeps names apart and leaves the names
of the settings alone commutes with everything: with the lookups in scopes and tables, with each
action, with the walk, and with the verdicts.

* `StateMap.rename`: renaming as a change of states that a walk goes on with;
* `Walk.exec_rename`: running a renamed action in a renamed state;
* `Walk.run_rename`: running renamed actions one after the other;
* `Recognizers.FixedBy.spares`: which permutations of identifiers leave the settings alone;
* `AnalysisConfig.checkFunction_rename`: tracking a renamed function gives the renamed scopes and
  bindings, or the same error, and the same violations under the new names.
-/

namespace TxLifecycle

/-! ## Renamed states -/

/-- Rename the names declared in a scope. -/
def Scope.rename (f : String → String) (scope : Scope) : Scope :=
  { scope with declared := scope.declared.map f }

/-- Rename the names declared in the scopes of a tree. -/
def ScopeTree.rename (f : String → String) (tree : ScopeTree) : ScopeTree :=
  { tree with scopes := tree.scopes.map (Scope.rename f) }

/-- Rename the variable of a binding and the one that received its error. -/
def Binding.rename (f : String → String) (b : Binding) : Binding :=
  { b with name := f b.name, errVar := b.errVar.map f }

/-- Rename the error variable of a waiting acquisition. -/
def Guard.rename (f : String → String) (guard : Guard) : Guard :=
  { guard with errVar := f guard.errVar }

/-- Rename all variables of a state. -/
def Walk.rename (f : String → String) (w : Walk) : Walk :=
  { w with
    scopes := w.scopes.rename f
    bindings := w.bindings.map (Binding.rename f)
    pending := w.pending.map (Guard.rename f)
    held := w.held.map (List.map (Guard.rename f)) }

/-- Rename all variables of a tracked function. -/
def Tracked.rename (f : String → String) (tracked : Tracked) : Tracked where
  scopes := tracked.scopes.rename f
  bindings := tracked.bindings.map (Binding.rename f)

/-- Report a defect under the new name of the variable, in its message too. -/
def Violation.rename (f : String → String) (violation : Violation) : Violation :=
  { violation with
    variableName := f violation.variableName
    message := violation.kind.describe (f violation.variableName) }

/-- A renamed name is in a renamed list if the name is in the list. -/
theorem contains_map {f : String → String} (hf : Function.Injective f) (l : List String)
    (name : String) : (l.map f).contains (f name) = l.contains name := by
  rw [Bool.eq_iff_iff, List.contains_iff_mem, List.contains_iff_mem]
  exact List.mem_map_of_injective hf

/-- Renaming leaves the scopes where they are. -/
theorem Scope.keeps_rename (f : String → String) : Scope.Keeps (Scope.rename f) where
  shape := fun _ => rfl
  terminated := fun _ => rfl
  children := fun _ _ => rfl
  armOf := fun _ _ => rfl
  terminate := fun _ => rfl
  fresh := fun _ _ _ => rfl

/-- The names declared in scopes make no difference to a verdict. -/
theorem ScopeTree.agrees_rename (f : String → String) (tree : ScopeTree) :
    tree.Agrees (tree.rename f) where
  outlines := by
    rw [rename, List.map_map]
    rfl
  constructs := rfl
  arms := ((Scope.keeps_rename f).resembles tree).arms

/-- The name of a binding makes no difference to a verdict. -/
theorem Binding.agrees_rename (f : String → String) (b : Binding) : b.Agrees (b.rename f) :=
  ⟨rfl, rfl, rfl, rfl, rfl⟩

/-- The scopes of a renamed state are renamed. -/
theorem Walk.lifts_rename (f : String → String) : Lifts (Scope.rename f) (Walk.rename f) where
  scopes := fun _ => rfl
  setScopes := fun _ _ => rfl
  constructs := fun _ => rfl

/-- Renaming all variables, as a change that a walk goes on with. -/
def StateMap.rename {f : String → String} (hf : Function.Injective f) : StateMap where
  toSelection := .all
  name := f
  scope := Scope.rename f
  binding := Binding.rename f
  state := Walk.rename f
  scope_keeps := Scope.keeps_rename f
  scope_declared := fun s x => contains_map hf s.declared x
  scope_declare := by
    intro s x
    rw [Scope.declare, Scope.declare, Scope.rename, contains_map hf]
    split
    · rfl
    · simp [Scope.rename]
  scope_noteRollback := fun _ _ _ => rfl
  binding_finalizedOnPath := fun b _ =>
    Binding.finalizedOnPath_congr (b.agrees_rename f).resembles ⟨rfl, rfl, fun _ _ _ _ => rfl⟩ rfl
  binding_any_capture := fun _ _ => rfl
  binding_record := fun _ _ _ => rfl
  lifts := Walk.lifts_rename f
  get := fun _ _ => get_of_map (fun _ _ => rfl) _ _
  modify := fun _ _ h _ => modify_of_map (fun _ _ => rfl) h _
  add := fun _ _ => ⟨rfl, add_of_map (fun _ _ => rfl) fun _ => rfl⟩
  ownedBy := fun scope _ _ =>
    ownedBy_of_map (fun _ _ => rfl) hf (fun _ => by exact ⟨rfl, rfl, rfl⟩) _ scope _

theorem StateMap.rename_names {f : String → String} (hf : Function.Injective f)
    (names : List String) :
    (names.filter (rename hf).stays).map (rename hf).name = names.map f := by
  simp [rename, Selection.all]

/-! ## Actions

What is left are the actions that look at error checks. -/

namespace Walk

variable {f : String → String} {w : Walk} (hf : Function.Injective f)
include hf

theorem exposed_rename : (w.rename f).exposed = w.exposed := by
  have hresolve : ∀ name, (w.rename f).resolve (f name) = w.resolve name :=
    fun name => ((StateMap.rename hf).resolve trivial rfl).trans Option.map_id'
  have hguarded : ∀ b : Binding,
      (b.rename f).guardedOnPath (w.rename f).scopes = b.guardedOnPath w.scopes := fun b =>
    Binding.guardedOnPath_congr (b.agrees_rename f).resembles ((StateMap.rename hf).resembles w) rfl
  have hpred : (fun b : Binding => !b.retired && !b.isEscaped &&
      (w.rename f).resolve b.name == some b.id &&
      !((w.rename f).context.guarded.any (·.contains b.id)) &&
      !b.guardedOnPath (w.rename f).scopes) ∘ Binding.rename f =
      fun b => !b.retired && !b.isEscaped && w.resolve b.name == some b.id &&
        !(w.context.guarded.any (·.contains b.id)) && !b.guardedOnPath w.scopes := by
    funext b
    rw [Function.comp, hguarded, show (b.rename f).name = f b.name from rfl, hresolve]
    rfl
  rw [exposed, exposed]
  show ((w.bindings.map (Binding.rename f)).filter _).map _ = _
  rw [List.filter_map, List.map_map, hpred]
  rfl

/-- Waiting for the check of an error. -/
theorem awaitCheck_rename (w : Walk) (id : BindingId) (errVar : Option String) :
    (w.rename f).awaitCheck id (errVar.map f) = (w.awaitCheck id errVar).rename f := by
  cases errVar with
  | none => rfl
  | some name =>
    have hmodify : (w.rename f).modifyBinding id (fun b => { b with errVar := some (f name) }) =
        (w.modifyBinding id fun b => { b with errVar := some name }).rename f :=
      (StateMap.rename hf).noteCheck trivial rfl name
    rw [Option.map_some, awaitCheck, awaitCheck, hmodify]
    simp [rename, Guard.rename]

theorem recordAll_rename (w : Walk) (ids : List BindingId) (kind : EventKind) :
    (w.rename f).recordAll ids kind = (w.recordAll ids kind).map (Walk.rename f) := by
  induction ids generalizing w with
  | nil => rfl
  | cons id ids ih =>
    have hrecord : (w.rename f).record id kind = (w.record id kind).map (Walk.rename f) :=
      (StateMap.rename hf).recordAt_of trivial rfl (fun _ _ _ => rfl) _ _ _
    exact map_bind_of_commutes hrecord ih

theorem exit_rename (w : Walk) (how : Exit) :
    (w.rename f).exit how = (w.exit how).map (Walk.rename f) := by
  have hinside : (w.rename f).scopes.inClosure = w.scopes.inClosure :=
    (StateMap.rename hf).inClosure w
  rw [exit, exit, hinside, exposed_rename hf, recordAll_rename hf]
  refine ite_map_of_commutes rfl ?_
  cases w.recordAll w.exposed how.event with
  | error e => rfl
  | ok v =>
    exact (lifts_rename f).updateScopes (·.markTerminated) (·.markTerminated)
      (ScopeTree.modify_mapScopes fun _ => rfl)

/-- Guarding what the condition of an `if` mentions. -/
theorem openGuard_rename (w : Walk) (names : List String) :
    (w.rename f).openGuard (names.map f) = (w.openGuard names).rename f := by
  have hheld : (w.rename f).held.headD [] = (w.held.headD []).map (Guard.rename f) := by
    show (w.held.map (List.map (Guard.rename f))).headD _ = _
    cases w.held <;> rfl
  have hguards : ((w.held.headD []).map (Guard.rename f)).filter ((names.map f).contains ·.errVar) =
      ((w.held.headD []).filter (names.contains ·.errVar)).map (Guard.rename f) := by
    rw [List.filter_map]
    refine congrArg (List.map _) (List.filter_congr fun guard _ => ?_)
    exact contains_map hf names guard.errVar
  have htail : (w.rename f).held.tail = w.held.tail.map (List.map (Guard.rename f)) :=
    List.map_tail.symm
  rw [openGuard, openGuard, hheld, hguards, htail, List.map_map]
  rfl

/-- Each action commutes with renaming. -/
theorem exec_rename (limits : Limits) (w : Walk) (action : Action) :
    (w.rename f).exec limits (action.rename f) = (w.exec limits action).map (Walk.rename f) := by
  cases action with
  | count => exact ite_map_of_commutes rfl rfl
  | enter kind =>
    show ((w.rename f).enter limits kind).map (·.2) = ((w.enter limits kind).map (·.2)).map _
    rw [(lifts_rename f).enter (Scope.keeps_rename f)]
    cases w.enter limits kind <;> rfl
  | enterArm kind => exact (lifts_rename f).enterArm (Scope.keeps_rename f) limits w kind
  | leave => exact (lifts_rename f).leave w
  | openBody kind =>
    show (w.rename f).openBody limits kind = (w.openBody limits kind).map _
    rw [openBody, openBody, (lifts_rename f).enter (Scope.keeps_rename f)]
    cases w.enter limits kind.scopeKind <;> rfl
  | closeBody =>
    exact (lifts_rename f).leave
      { w with context := w.outer.headD w.context, outer := w.outer.tail }
  | declare name => exact (StateMap.rename hf).declare w name
  | mention name span => exact (StateMap.rename hf).mention trivial rfl span
  | acquire name errVar span declares =>
    rcases (StateMap.rename hf).acquire_cases (w := w) trivial rfl errVar span declares
      fun _ _ => trivial with ⟨e, hacquire, hacquire'⟩ | ⟨id, v, -, -, hacquire, hacquire'⟩
    · exact hacquire'.trans (congrArg (Except.map (Walk.rename f)) hacquire).symm
    · refine hacquire'.trans (.trans ?_ (congrArg (Except.map (Walk.rename f)) hacquire).symm)
      exact congrArg Except.ok (awaitCheck_rename hf v id errVar)
  | storeField name stop =>
    exact congrArg Except.ok ((StateMap.rename hf).storeField trivial rfl stop)
  | finalize name commit => exact (StateMap.rename hf).finalize trivial rfl commit
  | addDefer =>
    exact (lifts_rename f).updateScopes (·.addDefer) (·.addDefer)
      (ScopeTree.modify_mapScopes fun _ => rfl)
  | deferCall name commit => exact (StateMap.rename hf).deferCall trivial rfl commit
  | capture name span => exact (StateMap.rename hf).capture trivial rfl span
  | delegate names =>
    have hdelegate := (StateMap.rename hf).delegate (w := w) trivial names
    rw [StateMap.rename_names] at hdelegate
    exact congrArg Except.ok hdelegate
  | handOut names =>
    have hhandOut := (StateMap.rename hf).handOut (w := w) trivial names
    rw [StateMap.rename_names] at hhandOut
    exact congrArg Except.ok hhandOut
  | exit how => exact exit_rename hf w how
  | holdGuards take => cases take <;> rfl
  | collectGuards =>
    refine congrArg Except.ok ?_
    obtain ⟨scopes, bindings, steps, context, outer, constructs, pending, held, _, _⟩ := w
    cases held with
    | nil => rfl
    | cons guards rest => simp [collectGuards, rename]
  | openGuard names => exact congrArg Except.ok (openGuard_rename hf w names)
  | _ => rfl

/-- Running several actions commutes with renaming. -/
theorem run_rename (limits : Limits) (w : Walk) (actions : List Action) :
    (w.rename f).run limits (actions.map (Action.rename f)) =
      (w.run limits actions).map (Walk.rename f) := by
  induction actions generalizing w with
  | nil => rfl
  | cons action rest ih => exact map_bind_of_commutes (exec_rename hf limits w action) ih

end Walk

/-! ## Permutations of identifiers -/

/-- A name without a dot. -/
abbrev Identifier := { name : String // '.' ∉ name.toList }

/-- What stands before the first dot of a name. -/
def firstComponent (name : String) : String :=
  String.ofList (name.toList.takeWhile (· != '.'))

/-- A permutation of the identifiers, as a renaming. A name with a dot is none and stays. -/
def renameBy (p : Equiv.Perm Identifier) : String → String :=
  Equiv.Perm.ofSubtype p

/-- The permutation leaves the blank name, the helpers and the packages and functions that abort as
they are. -/
structure Recognizers.FixedBy (names : Recognizers) (p : Equiv.Perm Identifier) : Prop where
  blank : renameBy p "_" = "_"
  helper : ∀ name ∈ names.callbackHelpers, renameBy p name = name
  /-- The first components of aborting functions stay. -/
  abort : ∀ name ∈ names.fatalFunctions ++ names.panicFunctions,
    renameBy p (firstComponent name) = firstComponent name

/-- An identifier is the first component of all selections from it. -/
theorem firstComponent_append {name suffix : String} (hname : '.' ∉ name.toList)
    (hsuffix : IsSelection suffix) : firstComponent (name ++ suffix) = name := by
  have hrest : suffix.toList.takeWhile (· != '.') = [] := by
    rcases hsuffix with rfl | ⟨rest, rfl⟩
    · rfl
    · rw [String.toList_append]
      rfl
  have hall : ∀ c ∈ name.toList, (c != '.') = true := by
    intro c hc
    simp only [bne_iff_ne]
    rintro rfl
    exact hname hc
  rw [firstComponent, String.toList_append, List.takeWhile_append_of_pos hall, hrest,
    List.append_nil, String.ofList_toList]

namespace Recognizers

variable {names : Recognizers} {p : Equiv.Perm Identifier}

/-- A configured name is selected from a renamed variable if it was from the variable. -/
theorem FixedBy.append_eq_iff (h : names.FixedBy p) {name suffix configured : String}
    (hsuffix : IsSelection suffix)
    (hconfigured : configured ∈ names.fatalFunctions ++ names.panicFunctions) :
    renameBy p name ++ suffix = configured ↔ name ++ suffix = configured := by
  by_cases hname : '.' ∉ name.toList
  · -- both names are first components of what is selected from them, so they are fixed
    have hnew : '.' ∉ (renameBy p name).toList :=
      (Equiv.Perm.ofSubtype_apply_mem_iff_mem p name).mpr hname
    constructor
    · rintro rfl
      have hfixed := h.abort _ hconfigured
      rw [firstComponent_append hnew hsuffix] at hfixed
      rw [(Equiv.Perm.ofSubtype p).injective hfixed]
    · rintro rfl
      have hfixed := h.abort _ hconfigured
      rw [firstComponent_append hname hsuffix] at hfixed
      rw [hfixed]
  · rw [show renameBy p name = name from Equiv.Perm.ofSubtype_apply_of_not_mem p hname]

/-- A permutation that leaves those names as they are does what reading a function asks for. -/
theorem FixedBy.spares (h : names.FixedBy p) : names.Spares (renameBy p) where
  injective := (Equiv.Perm.ofSubtype p).injective
  blank := h.blank
  helper := by
    intro name
    rw [Bool.eq_iff_iff, List.contains_iff_mem, List.contains_iff_mem]
    constructor
    · intro hmem
      have hname : renameBy p name = name :=
        (Equiv.Perm.ofSubtype p).injective (h.helper _ hmem)
      rwa [hname] at hmem
    · intro hmem
      rwa [h.helper name hmem]
  abort := by
    intro name suffix hsuffix
    have hcontains : ∀ l : List String, l ⊆ names.fatalFunctions ++ names.panicFunctions →
        l.contains (renameBy p name ++ suffix) = l.contains (name ++ suffix) := by
      intro l hl
      rw [Bool.eq_iff_iff, List.contains_iff_mem, List.contains_iff_mem]
      exact ⟨fun hmem => ((h.append_eq_iff hsuffix (hl hmem)).mp rfl) ▸ hmem,
        fun hmem => ((h.append_eq_iff hsuffix (hl hmem)).mpr rfl) ▸ hmem⟩
    rw [abortByName, abortByName, hcontains _ (List.subset_append_left _ _),
      hcontains _ (List.subset_append_right _ _)]

end Recognizers

/-! ## Functions -/

/-- The same defects are found in a renamed function, under the new names. -/
theorem Tracked.violations_rename (f : String → String) (function : String) (tracked : Tracked) :
    (tracked.rename f).violations function =
      (tracked.violations function).map (Violation.rename f) := by
  have hverdict : ∀ b : Binding,
      (b.rename f).verdict (tracked.scopes.rename f) = b.verdict tracked.scopes := fun b =>
    Binding.verdict_congr (b.agrees_rename f) (tracked.scopes.agrees_rename f) rfl
  rw [violations, violations, rename, List.filterMap_map, List.map_filterMap]
  refine congrArg (tracked.bindings.filterMap ·) (funext fun b => ?_)
  rw [Function.comp, hverdict]
  cases b.verdict tracked.scopes <;> rfl

namespace AnalysisConfig

/-- **The names of variables do not matter.** Let a permutation of the identifiers leave the blank
name, the names of helpers and the first components of aborting functions as they are. Tracking a
function under the new names gives what tracking it gives, with the names of bindings, of error
variables and of declared locals renamed, or the same error. So the same defects are reported at the
same places, under the new name of the variable and in a message with that name. -/
theorem checkFunction_rename (config : AnalysisConfig) {p : Equiv.Perm Identifier}
    (h : config.names.FixedBy p) (unit : FunctionUnit) :
    (unit.rename (renameBy p)).track config.limits config.names =
      (unit.track config.limits config.names).map (Tracked.rename (renameBy p)) ∧
    config.checkFunction (unit.rename (renameBy p)) =
      (config.checkFunction unit).map (List.map (Violation.rename (renameBy p))) := by
  have hspares := h.spares
  have hwalk : (unit.rename (renameBy p)).walk config.limits config.names =
      (unit.walk config.limits config.names).map (Walk.rename (renameBy p)) := by
    -- a function that was not read whole gives the same error
    refine ite_map_of_commutes rfl ?_
    rw [FunctionUnit.actions_rename hspares]
    exact Walk.run_rename hspares.injective config.limits {} _
  have htrack : (unit.rename (renameBy p)).track config.limits config.names =
      (unit.track config.limits config.names).map (Tracked.rename (renameBy p)) := by
    rw [FunctionUnit.track, FunctionUnit.track, hwalk]
    cases unit.walk config.limits config.names <;> rfl
  refine ⟨htrack, ?_⟩
  rw [checkFunction, checkFunction, htrack]
  cases unit.track config.limits config.names with
  | error e => rfl
  | ok tracked => exact congrArg Except.ok (tracked.violations_rename _ unit.name)

/-- A function that may end the process between the start of its transaction and the commit. -/
def savingRecord : FunctionUnit where
  name := "Save"
  params := [⟨some "db", "*sql.DB"⟩]
  body := {
    stmts := [
      .shortVarDecl [.ident "tx" {}, .ident "err" {}]
        [.call (.selector (.ident "db" {}) "Begin" {}) [] {}] {},
      .ifStmt {
        init := none
        cond := .ident "err" {}
        consequence := { stmts := [.returnStmt [] {}], span := {} }
        otherwise := none
        span := {} },
      .exprStmt (.call (.selector (.ident "log" {}) "Fatal" {}) [.ident "tx" {}] {}) {},
      .exprStmt (.call (.selector (.ident "tx" {}) "Commit" {}) [] {}) {}]
    span := {} }

/-- The handle and the database swap names. -/
def swapNames : Equiv.Perm Identifier :=
  Equiv.swap ⟨"tx", by decide⟩ ⟨"db", by decide⟩

/-- The function is judged as before, and its handle is reported as `db`. -/
theorem checkFunction_rename_savingRecord :
    ({} : AnalysisConfig).names.FixedBy swapNames ∧
    ∃ violations, ({} : AnalysisConfig).checkFunction savingRecord = .ok violations ∧
      violations.map (·.variableName) = ["tx"] ∧
      ({} : AnalysisConfig).checkFunction (savingRecord.rename (renameBy swapNames)) =
        .ok (violations.map (Violation.rename (renameBy swapNames))) ∧
      (violations.map (Violation.rename (renameBy swapNames))).map (·.variableName) = ["db"] := by
  have hfixed : ({} : AnalysisConfig).names.FixedBy swapNames :=
    ⟨by decide +kernel, by decide +kernel, by decide +kernel⟩
  refine ⟨hfixed, _, rfl, by decide +kernel, ?_, by decide +kernel⟩
  exact (checkFunction_rename {} hfixed savingRecord).2

end AnalysisConfig

end TxLifecycle
