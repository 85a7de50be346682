import TxLifecycle.Check
import TxLifecycle.Proofs.ElseChains
import TxLifecycle.Proofs.Guards
import TxLifecycle.Proofs.States

/-!
# When `else if` is the same as an `if` in a block

An `else if` is nearly a shorthand for an `else` block that holds the `if`. Whether it is or not
depends on the acquisitions that wait for the check of their error when the alternative begins: the
`if` in the block takes them and the `else if` does not.

* `Unchained.run_forgetGuards`: the two ways of writing are walked alike up to error checks and
  exits;
* `Unchained.run_eq`: they are walked alike if nothing waits where they differ;
* `FunctionUnit.track_unchain`: so it is for functions, of whose `else if`s any are given blocks;
* `FunctionUnit.elseIf_not_shorthand`: in a loop an acquisition can wait there, and then a `return`
  in the `else if` is reported that is not reported in the block.
-/

namespace TxLifecycle

variable {limits : Limits} {w v : Walk} {spot : List Action → Prop} {a a' : List Action}

namespace Walk

/-- Where events point at is set anew before anything depends on it. -/
theorem run_setSpan (h : Respans a) (w : Walk) (span : Span) :
    w.run limits (.setSpan span :: a) = w.run limits a := by
  cases h with
  | now span' rest => rfl
  | counted span' rest =>
    have hcount : (w.modifyContext ({ · with span })).countStep limits =
        (w.countStep limits).map (·.modifyContext ({ · with span })) :=
      ite_map_of_commutes rfl rfl
    show (w.modifyContext ({ · with span })).countStep limits >>= _ = w.countStep limits >>= _
    rw [hcount]
    cases w.countStep limits <;> rfl

/-- In a block of its own an `if` is read like an `else if` that takes what waits. -/
theorem run_holdGuards (h : Respans a) (w : Walk) (span : Span) :
    w.run limits (.holdGuards true :: .count :: .setSpan span :: a) =
      w.run limits (.count :: .holdGuards true :: a) := by
  have hcount : (w.holdGuards true).countStep limits =
      (w.countStep limits).map (·.holdGuards true) := ite_map_of_commutes rfl rfl
  show (w.holdGuards true).countStep limits >>= _ = w.countStep limits >>= _
  rw [hcount]
  cases w.countStep limits with
  | error e => rfl
  | ok v => exact run_setSpan h (v.holdGuards true) span

/-- Where nothing waits, there is nothing to take. -/
theorem holdGuards_of_pending (h : w.pending = []) : w.holdGuards true = w.holdGuards false := by
  simp [holdGuards, h]

/-- When an alternative begins, what waits goes on waiting. -/
theorem pending_of_alternative {u : Walk} (henter : w.exec limits (.enterArm .elseBranch) = .ok u)
    (hcount : u.exec limits .count = .ok v) : v.pending = w.pending := by
  obtain ⟨_, _, -, rfl⟩ := of_exec_enterArm henter
  obtain ⟨-, rfl⟩ := of_exec_count hcount
  rfl

/-- Two steps that agree up to error checks and exits do so one after the other. -/
theorem map_bind_congr {x x' : Except AnalysisError Walk}
    {k k' : Walk → Except AnalysisError Walk} (hx : x'.map forgetGuards = x.map forgetGuards)
    (hk : ∀ w v : Walk, v.forgetGuards = w.forgetGuards →
      (k' v).map forgetGuards = (k w).map forgetGuards) :
    (x' >>= k').map forgetGuards = (x >>= k).map forgetGuards := by
  cases x with
  | error e =>
    cases x' with
    | error e' => exact hx
    | ok v => cases hx
  | ok w =>
    cases x' with
    | error e' => cases hx
    | ok v => exact hk w v (Except.ok.inj hx)

/-- At every alternative of which `spot` holds nothing waits for the check of its error. -/
def FreeAt (limits : Limits) (spot : List Action → Prop) (w : Walk) (a : List Action) : Prop :=
  ∀ (before nested rest : List Action) (v : Walk),
    a = before ++ .enterArm .elseBranch :: .count :: .holdGuards false :: (nested ++ rest) →
      spot nested → w.run limits before = .ok v → v.pending = []

theorem FreeAt.tail {action : Action} (h : w.FreeAt limits spot (action :: a))
    (hexec : w.exec limits action = .ok v) : v.FreeAt limits spot a := by
  intro before nested rest u ha hspot hrun
  refine h (action :: before) nested rest u (by rw [ha, List.cons_append]) hspot ?_
  rw [run_cons, hexec]
  exact hrun

end Walk

namespace Unchained

/-- The two ways of writing are walked alike up to error checks and exits. -/
theorem run_forgetGuards (h : Unchained spot a a') (hstates : v.forgetGuards = w.forgetGuards) :
    (v.run limits a').map Walk.forgetGuards = (w.run limits a).map Walk.forgetGuards := by
  induction h generalizing w v with
  | nil => exact congrArg Except.ok hstates
  | cons action _ ih =>
    rw [Walk.run_cons, Walk.run_cons]
    exact Walk.map_bind_congr (Walk.exec_congr_forgetGuards limits hstates action)
      fun _ _ hstates => ih hstates
  | alternative span _ hrespans _ ih =>
    rw [Walk.run_cons, Walk.run_cons]
    refine Walk.map_bind_congr (Walk.exec_congr_forgetGuards limits hstates _) fun w v hstates => ?_
    rw [Walk.run_holdGuards hrespans, Walk.run_cons, Walk.run_cons]
    refine Walk.map_bind_congr (Walk.exec_congr_forgetGuards limits hstates _) fun w v hstates => ?_
    -- one of the nested `if`s takes what waits and the other one does not, which is forgotten
    have htaken : (v.holdGuards true).forgetGuards = (w.holdGuards false).forgetGuards := by
      rw [Walk.forgetGuards_holdGuards, Walk.forgetGuards_holdGuards, hstates]
    exact ih htaken

/-- The two ways of writing are walked alike if nothing waits where they differ. -/
theorem run_eq (h : Unchained spot a a') (hfree : w.FreeAt limits spot a) :
    w.run limits a' = w.run limits a := by
  induction h generalizing w with
  | nil => rfl
  | cons action _ ih =>
    rw [Walk.run_cons, Walk.run_cons]
    cases hexec : w.exec limits action with
    | error e => rfl
    | ok v => exact ih (hfree.tail hexec)
  | @alternative span nested rest a' hspot hrespans _ ih =>
    have hpending : w.pending = [] := hfree [] nested rest w rfl hspot rfl
    rw [Walk.run_cons, Walk.run_cons]
    cases henter : w.exec limits (.enterArm .elseBranch) with
    | error e => rfl
    | ok u =>
      show u.run limits _ = u.run limits _
      rw [Walk.run_holdGuards hrespans, Walk.run_cons, Walk.run_cons]
      cases hcount : u.exec limits .count with
      | error e => rfl
      | ok v =>
        have htaken : v.holdGuards true = v.holdGuards false :=
          Walk.holdGuards_of_pending ((Walk.pending_of_alternative henter hcount).trans hpending)
        show (v.holdGuards true).run limits _ = (v.holdGuards false).run limits _
        rw [htaken]
        exact ih (((hfree.tail henter).tail hcount).tail rfl)

end Unchained

namespace FunctionUnit

/-- Reading the function comes to an `else if` in a state, before its alternative begins. -/
def ComesTo (limits : Limits) (names : Recognizers) (unit : FunctionUnit) (stmt : IfStmt)
    (w : Walk) : Prop :=
  ∃ before rest, unit.actions names = before ++
      .enterArm .elseBranch :: .count :: .holdGuards false :: (stmt.actions names ++ rest) ∧
    Walk.run limits {} before = .ok w

/-- What is left of the result of a walk without the exits is what is left of its last state. -/
theorem map_track_withoutExits (limits : Limits) (names : Recognizers) (unit : FunctionUnit) :
    (unit.track limits names).map Tracked.withoutExits =
      ((unit.walk limits names).map Walk.forgetGuards).map
        fun w => { scopes := w.scopes, bindings := w.bindings } := by
  rw [track]
  cases unit.walk limits names <;> rfl

/-- Bindings that differ in their exits only get the same verdict, or one of the verdicts blames an
exit. -/
theorem verdict_of_withoutExits {tracked tracked' : Tracked}
    (h : tracked'.withoutExits = tracked.withoutExits) {id : BindingId} {b b' : Binding}
    (hb : tracked.bindings[id]? = some b) (hb' : tracked'.bindings[id]? = some b') :
    b'.verdict tracked'.scopes = b.verdict tracked.scopes ∨
      blamesExit (b.verdict tracked.scopes) = true ∨
      blamesExit (b'.verdict tracked'.scopes) = true := by
  have hscopes : tracked'.withoutExits.scopes = tracked.withoutExits.scopes := by rw [h]
  change tracked'.scopes = tracked.scopes at hscopes
  have hbindings := congrArg (·.bindings[id]?) h
  simp only [Tracked.withoutExits, List.getElem?_map, hb, hb', Option.map_some,
    Option.some.injEq] at hbindings
  rcases b.verdict_withoutExits tracked.scopes with heq | hblames
  · rcases b'.verdict_withoutExits tracked'.scopes with heq' | hblames'
    · left
      rw [← heq, ← heq', hbindings, hscopes]
    · exact .inr (.inr hblames')
  · exact .inr (.inl hblames)

/-- An `else if` is the same as an `if` in an `else` block, up to the exits that are recorded and
the verdicts that blame one. If no acquisition waits for the check of its error at those `else if`s
that are given a block, it is the same altogether. -/
theorem track_unchain (config : AnalysisConfig) (unit : FunctionUnit) (plan : UnchainPlan) :
    ((unit.unchain plan).track config.limits config.names).map Tracked.withoutExits =
      (unit.track config.limits config.names).map Tracked.withoutExits ∧
    (∀ (tracked tracked' : Tracked), unit.track config.limits config.names = .ok tracked →
      (unit.unchain plan).track config.limits config.names = .ok tracked' →
      ∀ (id : BindingId) (b b' : Binding), tracked.bindings[id]? = some b →
        tracked'.bindings[id]? = some b' →
        b'.verdict tracked'.scopes = b.verdict tracked.scopes ∨
          blamesExit (b.verdict tracked.scopes) = true ∨
          blamesExit (b'.verdict tracked'.scopes) = true) ∧
    ((∀ (place : List Nat) (stmt : IfStmt) (w : Walk), (plan place stmt).isSome = true →
        unit.ComesTo config.limits config.names stmt w → w.pending = []) →
      (unit.unchain plan).track config.limits config.names =
        unit.track config.limits config.names ∧
      config.checkFunction (unit.unchain plan) = config.checkFunction unit) := by
  -- the actions differ at the planned alternatives
  have hplan : plan.Marks config.names fun nested => ∃ place stmt,
      (plan place stmt).isSome = true ∧ nested = stmt.actions config.names := by
    intro place stmt span hspan
    exact ⟨place, stmt, by rw [hspan]; rfl, rfl⟩
  have hactions := unit.actions_unchain hplan
  have hnesting : (unit.unchain plan).nestingExceeded = unit.nestingExceeded := rfl
  have hwithout : ((unit.unchain plan).track config.limits config.names).map Tracked.withoutExits =
      (unit.track config.limits config.names).map Tracked.withoutExits := by
    rw [map_track_withoutExits, map_track_withoutExits, walk, walk, hnesting]
    congr 1
    split
    · rfl
    · exact hactions.run_forgetGuards rfl
  refine ⟨hwithout, ?_, ?_⟩
  · intro tracked tracked' htrack htrack' id b b' hb hb'
    rw [htrack, htrack'] at hwithout
    exact verdict_of_withoutExits (Except.ok.inj hwithout) hb hb'
  · intro hfree
    have htrack : (unit.unchain plan).track config.limits config.names =
        unit.track config.limits config.names := by
      rw [track, track, walk, walk, hnesting, hactions.run_eq]
      intro before nested rest w ha hspot hrun
      obtain ⟨place, stmt, hplanned, rfl⟩ := hspot
      exact hfree place stmt w hplanned ⟨before, rest, ha, hrun⟩
    refine ⟨htrack, ?_⟩
    rw [AnalysisConfig.checkFunction, AnalysisConfig.checkFunction, htrack]
    rfl

/-- Where an `else if` is come to, the arm of the alternative is the next to be opened. -/
theorem ComesTo.exists_take {limits : Limits} {names : Recognizers} {unit : FunctionUnit}
    {stmt : IfStmt} {w : Walk} (h : unit.ComesTo limits names stmt w) :
    ∃ n < (unit.actions names).length,
      (unit.actions names)[n]? = some (.enterArm .elseBranch) ∧
      Walk.run limits {} ((unit.actions names).take n) = .ok w := by
  obtain ⟨before, rest, hactions, hrun⟩ := h
  refine ⟨before.length, ?_, ?_, ?_⟩
  · simp [hactions]
  · simp [hactions]
  · simpa [hactions] using hrun

/-- A function that checks the error of an acquisition and then goes on in an `else if`. -/
def settledIfStarted : FunctionUnit where
  name := "Settle"
  body := {
    stmts := [
      .shortVarDecl [.ident "tx" {}, .ident "err" {}]
        [.call (.selector (.ident "db" {}) "Begin" {}) [] {}] {},
      .ifStmt {
        init := none
        cond := .other "binary_expression" [.ident "err" {}, .literal {}] {}
        consequence := { stmts := [.returnStmt [.ident "err" {}] {}], span := {} }
        otherwise := some (.elseIf {
          init := none
          cond := .ident "done" {}
          consequence := {
            stmts := [.exprStmt (.call (.selector (.ident "tx" {}) "Commit" {}) [] {}) {}]
            span := {} }
          otherwise := some (.block {
            stmts := [.exprStmt (.call (.selector (.ident "tx" {}) "Rollback" {}) [] {}) {}]
            span := {} })
          span := {} })
        span := {} },
      .returnStmt [] {}]
    span := {} }

/-- The error check of that function has taken the acquisition, so the `else if` may be given a
block: the same is recorded for the one transaction, a commit and a rollback, and not the `return`
in the error check. -/
theorem track_unchain_settledIfStarted :
    ∃ (tracked : Tracked) (b : Binding),
      (settledIfStarted.unchain fun _ _ => some {}).track {} {} = .ok tracked ∧
      settledIfStarted.track {} {} = .ok tracked ∧ tracked.bindings = [b] ∧
      b.events.map (·.kind) = [.directCommit, .directRollback] := by
  have hfree : ∀ (place : List Nat) (stmt : IfStmt) (w : Walk),
      ((fun _ _ => some {} : UnchainPlan) place stmt).isSome = true →
      settledIfStarted.ComesTo {} {} stmt w → w.pending = [] := by
    intro _ stmt w _ hcomes
    obtain ⟨n, hn, harm, hrun⟩ := hcomes.exists_take
    have hcheck : ∀ n < (settledIfStarted.actions {}).length,
        (settledIfStarted.actions {})[n]? = some (.enterArm .elseBranch) →
        ((Walk.run {} {} ((settledIfStarted.actions {}).take n)).map (·.pending)) = .ok [] := by
      decide +kernel
    have hpending := hcheck n hn harm
    rw [hrun] at hpending
    exact Except.ok.inj hpending
  have htrack := ((track_unchain {} settledIfStarted fun _ _ => some {}).2.2 hfree).1
  have hresult : ∃ (tracked : Tracked) (b : Binding),
      settledIfStarted.track {} {} = .ok tracked ∧ tracked.bindings = [b] ∧
      b.events.map (·.kind) = [.directCommit, .directRollback] := ⟨_, _, rfl, rfl, rfl⟩
  obtain ⟨tracked, b, hok, hbindings, hevents⟩ := hresult
  exact ⟨tracked, b, htrack.trans hok, hok, hbindings, hevents⟩

/-- An `if` that returns an error. -/
def returnIfFailed : IfStmt where
  init := none
  cond := .other "binary_expression" [.ident "err" {}, .literal {}] {}
  consequence := { stmts := [.returnStmt [.ident "err" {}] {}], span := {} }
  otherwise := none
  span := {}

/-- A function that starts a transaction the first time round a loop, does something else in all
later rounds and finishes the transaction after the loop. -/
def startedOnce (later : Else) : FunctionUnit where
  name := "Run"
  body := {
    stmts := [
      .varDecl ["tx"] [] {},
      .varDecl ["err"] [] {},
      .rangeStmt [.ident "_" {}, .ident "job" {}] true (.ident "jobs" {}) {
        stmts := [
          .assign [.ident "err" {}] [.call (.selector (.ident "job" {}) "Prepare" {}) [] {}] {},
          .ifStmt {
            init := none
            cond := .other "binary_expression" [.ident "tx" {}, .literal {}] {}
            consequence := {
              stmts := [.assign [.ident "tx" {}, .ident "err" {}]
                [.call (.selector (.ident "db" {}) "Begin" {}) [] {}] ⟨169, 189⟩]
              span := {} }
            otherwise := some later
            span := {} }]
        span := {} } {},
      .ifStmt {
        init := none
        cond := .ident "ok" {}
        consequence := {
          stmts := [.exprStmt (.call (.selector (.ident "tx" {}) "Commit" {}) [] {}) {}]
          span := {} }
        otherwise := some (.block {
          stmts := [.exprStmt (.call (.selector (.ident "tx" {}) "Rollback" {}) [] {}) {}]
          span := {} })
        span := {} },
      .returnStmt [.literal {}] {}]
    span := {} }

/-- A `return` in an `else if` is reported that is not reported in a block of its own: the block is
taken for the error check of the acquisition on the other branch. -/
theorem elseIf_not_shorthand :
    (startedOnce (.elseIf returnIfFailed)).unchain (fun _ _ => some {}) =
      startedOnce (.block ⟨[.ifStmt returnIfFailed], {}⟩) ∧
    ∃ violation, ({} : AnalysisConfig).checkFunction (startedOnce (.elseIf returnIfFailed)) =
        .ok [violation] ∧ violation.kind = .earlyReturn ∧
      ({} : AnalysisConfig).checkFunction (startedOnce (.block ⟨[.ifStmt returnIfFailed], {}⟩)) =
        .ok [] :=
  ⟨rfl, _, rfl, rfl, rfl⟩

end FunctionUnit

end TxLifecycle
