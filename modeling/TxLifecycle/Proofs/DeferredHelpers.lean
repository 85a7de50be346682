import TxLifecycle.Proofs.DeferredLocals
import TxLifecycle.Proofs.InitClauses
import TxLifecycle.Proofs.Lookups

/-!
# Deferred calls of helpers

A function may leave its rollback to a helper that it defers. Where the helper is called by its own
name, every handle that it is given counts as rolled back when the function returns. Where it is
called through a package or a value, only what stands before the dot is looked at, and the handles
that it is given are overlooked.

* `Flow.Evaluates`: the flows of expressions;
* `Flow.Evaluates.defersOf`: reading an expression adds nothing to the `defer` statements of the
  scope in which it stands, whatever its function literals defer;
* `Walk.defersOf_deferCalls`: what the deferred calls of a statement add to it;
* `FunctionUnit.rollsBack_of_deferred_helper`: what a `defer` statement that calls a helper rolls
  back.
-/

namespace TxLifecycle

/-! ## Expressions -/

namespace Flow

/-- What the flows of expressions are made of. -/
inductive Evaluates : Flow .code → Prop where
  | skip : Evaluates .skip
  | act {action : Action} {plain : action.isPlain = true} : Evaluates (.act action plain)
  | seq {first second : Flow .code} :
      Evaluates first → Evaluates second → Evaluates (.seq first second)
  | arguments {args : Flow .code} : Evaluates args → Evaluates (.arguments args)
  /-- Anything may stand in a function literal. -/
  | literal {launch : Option Span} {body : Flow .code} : Evaluates (.literal launch body)

theorem Evaluates.acts : ∀ {list : List Action} {plain : ∀ a ∈ list, a.isPlain = true},
    Evaluates (Flow.acts list plain)
  | [], _ => .skip
  | _ :: _, _ => .seq .act .acts

end Flow

mutual

theorem Expr.evaluates (names : Recognizers) : ∀ e : Expr, (e.flow names).Evaluates
  | .ident _ _ => .act
  | .call func args _ =>
    .seq .acts (.seq .acts (.seq (func.evaluates names)
      (.seq (.arguments (exprs_evaluate names args)) .acts)))
  | .selector operand _ _ | .unary _ operand _ => operand.evaluates names
  | .funcLit _ ⟨_, _⟩ _ => .literal
  | .composite elements _ | .other _ elements _ => exprs_evaluate names elements
  | .keyValue key value _ => by
    have hkey := key.evaluates names
    refine .seq ?_ (value.evaluates names)
    split
    · exact .skip
    · exact hkey
  | .literal _ => .skip

theorem exprs_evaluate (names : Recognizers) : ∀ es : List Expr, (exprsFlow names es).Evaluates
  | [] => .skip
  | e :: es => .seq (e.evaluates names) (exprs_evaluate names es)

end

namespace Walk

variable {limits : Limits} {w u : Walk} {action : Action} {scope : ScopeId}

/-- An action changes the `defer` statements of a scope only where it defers a call there. -/
theorem exec_defersOf_eq (hdefer : w.context.deferScope ≠ some scope)
    (haction : scope = w.scopes.current → action ≠ .addDefer ∧ action.isDeferCall = false)
    (hexec : w.exec limits action = .ok u) : u.scopes.defersOf scope = w.scopes.defersOf scope := by
  rcases exec_defersOf_cases hexec scope with hsame | ⟨rfl, hcurrent, -⟩ | ⟨id, hdefers, -⟩
  · exact hsame
  · exact absurd rfl (haction hcurrent).1
  · cases hdefers with
    | called => cases (haction rfl).2
    | inLiteral _ heq => exact absurd heq hdefer

/-- A younger scope than the given one is open, and the code belongs to no `defer` statement of the
given one. -/
structure Beyond (scope : ScopeId) (w : Walk) : Prop where
  younger : ∃ body ∈ w.scopes.stack, scope < body
  deferScope : w.context.deferScope ≠ some scope

theorem Beyond.ne_current (h : w.Beyond scope) (hwf : w.WellFormed) :
    scope ≠ w.scopes.current := by
  obtain ⟨body, hbody, hlt⟩ := h.younger
  rw [hwf.tree.stack_eq] at hbody
  exact Nat.ne_of_lt (Nat.lt_of_lt_of_le hlt (hwf.tree.le_of_mem_ancestors hbody))

theorem Beyond.of_openBody {kind : BodyKind} (hlt : scope < w.scopes.scopes.length)
    (hdefer : w.context.deferScope ≠ some scope)
    (hkind : kind = .deferred → scope ≠ w.scopes.current)
    (hexec : w.exec limits (.openBody kind) = .ok u) : u.Beyond scope := by
  have hopens := exec_openBody hexec
  refine ⟨⟨_, hopens.tree.stack ▸ List.mem_cons_self, hlt⟩, ?_⟩
  rw [hopens.context_eq]
  cases kind with
  | closure => exact Option.some_ne_none scope ∘ Eq.symm
  | deferred => exact fun heq => hkind rfl (Option.some.inj heq).symm
  | goroutine launch => exact hdefer

theorem nested_beyond (limits : Limits) (scope : ScopeId) : Nested limits (Beyond scope) where
  same := fun h _ _ hstack hcontext => ⟨hstack ▸ h.younger, by rw [hcontext]; exact h.deferScope⟩
  openGuard := fun _ h => ⟨h.younger, h.deferScope⟩
  opens := fun h _ _ hopens => by
    obtain ⟨body, hbody, hlt⟩ := h.younger
    refine ⟨⟨body, ?_, hlt⟩, by rw [hopens.context_eq]; exact h.deferScope⟩
    exact hopens.tree.stack ▸ List.mem_cons_of_mem _ hbody
  openBody := fun h hwf hexec => by
    obtain ⟨body, hbody, hlt⟩ := h.younger
    exact .of_openBody (Nat.lt_trans hlt (hwf.tree.stack_lt hbody)) h.deferScope
      (fun _ => h.ne_current hwf) hexec

end Walk

open Walk in
/-- Reading an expression leaves the `defer` statements of all scopes alone: its own actions are no
deferred calls, and those of its function literals run in younger scopes. -/
theorem Flow.Evaluates.defersOf {limits : Limits} {flow : Flow .code} {w w' : Walk}
    {scope : ScopeId} (h : flow.Evaluates) (hwalks : flow.Walks limits w w')
    (hdefer : w.context.deferScope ≠ some scope) (hlt : scope < w.scopes.scopes.length) :
    w'.scopes.defersOf scope = w.scopes.defersOf scope := by
  induction h generalizing w w' with
  | skip =>
    cases hwalks
    rfl
  | @act action plain =>
    cases hwalks with
    | act hstep =>
      refine exec_defersOf_eq hdefer (fun _ => ?_) hstep.exec
      cases action with
      | addDefer | deferCall _ _ => cases plain
      | _ => exact ⟨by simp, rfl⟩
  | seq _ _ ih ih' =>
    cases hwalks with
    | seq hfirst hsecond =>
      refine (ih' hsecond ?_ ?_).trans (ih hfirst hdefer hlt)
      · rwa [hfirst.balanced.deferScope]
      · exact Nat.lt_of_lt_of_le hlt hfirst.grows.length
  | arguments _ ih =>
    cases hwalks with
    | @arguments _ u v _ _ hopen hargs hclose =>
      have hedits := hopen.edits rfl
      have hu : u.context.deferScope ≠ some scope := by rwa [hedits.context]
      have hv : v.context.deferScope ≠ some scope := by rwa [hargs.balanced.deferScope]
      have hopened := exec_defersOf_eq hdefer (fun _ => ⟨by simp, rfl⟩) hopen.exec
      have hclosed := exec_defersOf_eq hv (fun _ => ⟨by simp, rfl⟩) hclose.exec
      exact hclosed.trans ((ih hargs hu (hedits.length ▸ hlt)).trans hopened)
  | @literal launch body =>
    cases hwalks with
    | @literal _ u v _ _ _ hopen hbody hclose =>
      have hu : u.Beyond scope :=
        .of_openBody hlt hdefer (by cases launch <;> simp [literalKind]) hopen.exec
      have hv := (nested_beyond limits scope).traverses hu hbody.traverses
      have hopened := exec_defersOf_eq hdefer (fun _ => ⟨by simp, rfl⟩) hopen.exec
      have hinside : v.scopes.defersOf scope = u.scopes.defersOf scope :=
        keeps_of_run (nested_beyond · scope) hopen.ready' (List.append_nil _).symm hbody.run hu
          (fun hbeyond hwf hexec => (exec_defersOf_eq hbeyond.deferScope
            (fun hcurrent => absurd hcurrent (hbeyond.ne_current hwf)) hexec).trans) rfl
      have hclosed := exec_defersOf_eq hv.deferScope (fun _ => ⟨by simp, rfl⟩) hclose.exec
      exact hclosed.trans (hinside.trans hopened)

/-! ## Deferred calls -/

namespace Walk

variable {limits : Limits} {w u : Walk}

/-- A deferred call rolls back, with the latest `defer` statement, what its name means. -/
theorem defersOf_deferCall {x : String} {old : List DeferRecord} {record : DeferRecord}
    (hlatest : w.scopes.defersOf w.scopes.current = old ++ [record])
    (hexec : w.exec limits (.deferCall x false) = .ok u) :
    ∃ record', u.scopes.defersOf w.scopes.current = old ++ [record'] ∧
      ∀ id, id ∈ record'.rollbacks ↔ id ∈ record.rollbacks ∨ w.resolve x = some id := by
  cases hx : w.resolve x with
  | none =>
    rw [exec, deferCall, hx] at hexec
    cases hexec
    exact ⟨record, hlatest, by simp⟩
  | some id =>
    have hnote := (exec_defers hexec (.called hx)).1
    refine ⟨record.note id, ?_, by simp [eq_comm]⟩
    rw [ScopeTree.defersOf_modify (g := fun defers => defers.modify (defers.length - 1) (·.note id))
      (fun _ => rfl) hnote, if_pos rfl, hlatest]
    simp [List.modify_eq_take_drop]

/-- Several deferred calls roll back, with the latest `defer` statement, what their names mean. -/
theorem defersOf_deferCalls {xs : List String} {old : List DeferRecord} {record : DeferRecord}
    (hwf : w.WellFormed) (horderly : w.scopes.Orderly w.bindings)
    (hlatest : w.scopes.defersOf w.scopes.current = old ++ [record])
    (hrun : w.run limits (xs.map (.deferCall · false)) = .ok u) :
    ∃ record', u.scopes.defersOf w.scopes.current = old ++ [record'] ∧
      ∀ id, id ∈ record'.rollbacks ↔ id ∈ record.rollbacks ∨ ∃ x ∈ xs, w.resolve x = some id := by
  induction xs generalizing w record with
  | nil =>
    cases hrun
    exact ⟨record, hlatest, by simp⟩
  | cons x xs ih =>
    obtain ⟨v, hexec, hrun⟩ := run_cons_eq_ok.mp hrun
    obtain ⟨first, hfirst, hids⟩ := defersOf_deferCall hlatest hexec
    have hedits := exec_edits hwf.indexed rfl hexec
    rw [← hedits.current] at hfirst ⊢
    obtain ⟨last, hlast, hids'⟩ :=
      ih (hwf.edits hedits) (exec_orderly hwf horderly hexec) hfirst hrun
    refine ⟨last, hlast, fun id => ?_⟩
    -- the calls before this one change no name
    simp only [hids', hids, resolve_of_exec hwf horderly rfl hexec, List.mem_cons, or_assoc,
      exists_eq_or_imp]

end Walk

/-- The beginning of a `defer` statement registers it, and changes no name. -/
theorem Walk.of_run_registered {limits : Limits} {w v : Walk} {span : Span} (hready : w.Ready .code)
    (horderly : w.scopes.Orderly w.bindings)
    (h : w.run limits ([.count, .setSpan span] ++ [.addDefer]) = .ok v) :
    w.Balanced v ∧ v.Ready .code ∧ v.scopes.Orderly v.bindings ∧ v.resolve = w.resolve ∧
      v.scopes.defersOf v.scopes.current = w.scopes.defersOf w.scopes.current ++ [⟨[]⟩] := by
  have hsteady : ∀ a ∈ [Action.count, .setSpan span] ++ [.addDefer], a.isSteady = true := by
    simp [Action.isSteady, Action.isInner]
  have hinner := fun a ha => Action.isInner_of_isSteady (hsteady a ha)
  have hsound : w.Sound limits _ := Sound.inner hinner hready.wellFormed
  have hread := Traverses.of_run hinner hready h
  refine ⟨hread.balanced, hread.ready', (hsound.ages h horderly).1,
    funext (resolve_of_run hsound horderly hsteady h), ?_⟩
  obtain ⟨u, hbegin, hadd⟩ := run_append_eq_ok.mp h
  obtain ⟨v, hadd, hnil⟩ := run_cons_eq_ok.mp hadd
  cases hnil
  rw [(exec_addDefer hadd).2, (of_run_begin hbegin).1]

/-- The actions of a `defer` statement that calls something by its name. -/
theorem Stmt.actions_deferStmt {names : Recognizers} {func : Expr} {args : List Expr}
    {place span : Span} (h : func.qualifiedName.isSome = true) :
    (Stmt.deferStmt (.call func args place) span).actions names =
      [.count, .setSpan span] ++ [.addDefer] ++ (names.deferActions (.call func args place) ++
        (func.actions names ++ exprsActions names args)) := by
  rw [← List.append_assoc (names.deferActions _)]
  cases func <;> first | rfl | cases h

/-- The deferred calls of such a statement, where what is called is no method of a handle. -/
theorem Walk.run_deferActions {limits : Limits} {names : Recognizers} {func : Expr}
    {args : List Expr} {place : Span} {w : Walk} (h : func.qualifiedName.isSome = true)
    (hreceiver : ∀ y here field there, func = .selector (.ident y here) field there →
      w.resolve y = none) :
    w.run limits (names.deferActions (.call func args place)) = w.run limits
      ((if func.asIdent.isSome then args.filterMap Recognizers.deferredArg else []).map
        (.deferCall · false)) := by
  cases func with
  | ident name here => rfl
  | selector operand field there =>
    cases operand with
    | ident y here =>
      have hskip : ∀ commit, w.run limits [.deferCall y commit] = .ok w := fun commit => by
        rw [run_cons, exec, deferCall, hreceiver y here field there rfl]
        rfl
      exact hskip _
    | _ => rfl
  | _ => cases h

namespace FunctionUnit

open Walk

variable {limits : Limits} {names : Recognizers} {unit : FunctionUnit} {w w' : Walk} {func : Expr}
  {args : List Expr} {place span : Span} {before after : List Action}

/-- Code does not belong to a `defer` statement of the scope in which it stands. -/
theorem deferScope_ne_current (hactions : unit.actions names = before ++ after)
    (hbefore : Walk.run limits {} before = .ok w) :
    w.context.deferScope ≠ some w.scopes.current := by
  intro hdefer
  have hwf := wellFormed_of_run hactions hbefore
  obtain ⟨body, hbody, hparent⟩ := nested_of_run nested_enclosed hactions hbefore
    (by intro scope hscope; cases hscope) _ hdefer
  rw [hwf.tree.stack_eq] at hbody
  exact Nat.not_le.mpr (hwf.tree.parent hparent) (hwf.tree.le_of_mem_ancestors hbody)

/-- **What a deferred helper rolls back.** Let a `defer` statement call something by its name or
through a chain of selections that does not start on a handle. The statement registers one record in
its scope, also where function literals among the arguments defer calls of their own. With a plain
name, the record rolls back the handles among the arguments, which may be given by their addresses.
With a selection it rolls nothing back. The events of the bindings agree with the record. -/
theorem rollsBack_of_deferred_helper
    (hactions : unit.actions names = before ++
      ((Stmt.deferStmt (.call func args place) span).actions names ++ after))
    (hbefore : Walk.run limits {} before = .ok w)
    (hrun : w.run limits ((Stmt.deferStmt (.call func args place) span).actions names) = .ok w')
    (hfunc : func.qualifiedName.isSome = true)
    (hreceiver : ∀ y here field there, func = .selector (.ident y here) field there →
      w.resolve y = none) :
    w'.scopes.current = w.scopes.current ∧ ∃ record : DeferRecord,
      w'.scopes.defersOf w.scopes.current = w.scopes.defersOf w.scopes.current ++ [record] ∧
      ∀ id, (record.rollsBack id = true ↔ func.asIdent.isSome = true ∧
          ∃ x ∈ args.filterMap Recognizers.deferredArg, w.resolve x = some id) ∧
        (w'.RolledBackIn id w.scopes.current ↔
          w.RolledBackIn id w.scopes.current ∨ record.rollsBack id = true) := by
  have horderly := ((sound_of_actions limits hactions).take.ages hbefore orderly_init).1
  have hne := deferScope_ne_current hactions hbefore
  have hmatched := matched_of_run hactions hbefore
  have hmatched' : w'.Matched := by
    rw [← List.append_assoc] at hactions
    exact matched_of_run hactions (run_append_eq_ok.mpr ⟨w, hbefore, hrun⟩)
  rw [Stmt.actions_deferStmt hfunc] at hactions hrun
  have hready : w.Ready .code := poised_of_run hactions hbefore rfl
  -- the statement is registered, then its calls, then the rest is evaluated
  obtain ⟨v, hlead, hrest⟩ := run_append_eq_ok.mp hrun
  obtain ⟨t, hcalls, hevaluated⟩ := run_append_eq_ok.mp hrest
  obtain ⟨hbalanced, hv, hvorderly, hresolve, hlatest⟩ := of_run_registered hready horderly hlead
  have hcalled := Traverses.of_run (fun a ha => Action.isInner_of_isDeferCall
    (names.deferActions_isDeferCall _ a ha)) hv hcalls
  rw [run_deferActions hfunc (hresolve ▸ hreceiver)] at hcalls
  obtain ⟨record, hrecord, hids⟩ := defersOf_deferCalls hv.wellFormed hvorderly hlatest hcalls
  have hwalks := (Flow.seq (func.flow names) (exprsFlow names args)).walks_of_run hcalled.ready'
    (by rwa [Flow.actions, Expr.flow_actions, exprsFlow_actions])
  have hread := hbalanced.trans hcalled.balanced
  have hdefers : w'.scopes.defersOf w.scopes.current =
      w.scopes.defersOf w.scopes.current ++ [record] := by
    rw [← hrecord, hbalanced.current]
    refine (Flow.Evaluates.seq (func.evaluates names) (exprs_evaluate names args)).defersOf hwalks
      (by rwa [hread.deferScope]) ?_
    rw [← hread.current]
    exact hcalled.ready'.wellFormed.tree.current_lt
  refine ⟨(hread.trans hwalks.balanced).current, record, hdefers, fun id => ⟨?_, ?_⟩⟩
  · have hid := hids id
    rw [hresolve] at hid
    rw [DeferRecord.rollsBack, List.contains_iff_mem, hid]
    cases func.asIdent.isSome <;> simp
  · rw [← hmatched'.agree, ← hmatched.agree, ScopeTree.RollsBack, ScopeTree.RollsBack, hdefers]
    simp [DeferRecord.rollsBack, or_and_right, exists_or]

/-- A function that defers a call with its handle before it commits. -/
def cleansUp (func : Expr) : FunctionUnit where
  name := "run"
  body := {
    stmts := [
      .shortVarDecl [.ident "tx" {}, .ident "_" {}]
        [.call (.selector (.ident "db" {}) "Begin" {}) [] {}] ⟨54, 73⟩,
      .deferStmt (.call func [.ident "tx" {}] {}) {},
      .returnStmt [.call (.selector (.ident "tx" {}) "Commit" {}) [] {}] {}]
    span := {} }

/-- A helper that is called by its name takes care of the handle. -/
theorem rollsBack_of_deferred_helper_cleansUp :
    let func := Expr.ident "cleanup" {}
    ∃ w w' record, Walk.run {} {} (((cleansUp func).actions {}).take 8) = .ok w ∧
      w.run {} ((Stmt.deferStmt (.call func [.ident "tx" {}] {}) {}).actions {}) = .ok w' ∧
      w.resolve "tx" = some 0 ∧ w'.scopes.defersOf 0 = [record] ∧ record.rollsBack 0 = true ∧
      w'.RolledBackIn 0 0 := by
  intro func
  obtain ⟨w, w', hw, hw', hresolve, hcurrent, hdefers⟩ : ∃ w w',
      Walk.run {} {} (((cleansUp func).actions {}).take 8) = .ok w ∧
      w.run {} ((Stmt.deferStmt (.call func [.ident "tx" {}] {}) {}).actions {}) = .ok w' ∧
      w.resolve "tx" = some 0 ∧ w.scopes.current = 0 ∧ w.scopes.defersOf 0 = [] :=
    ⟨_, _, rfl, rfl, rfl, rfl, rfl⟩
  have hactions : (cleansUp func).actions {} = ((cleansUp func).actions {}).take 8 ++
      ((Stmt.deferStmt (.call func [.ident "tx" {}] {}) {}).actions {} ++
        ((cleansUp func).actions {}).drop 14) := rfl
  obtain ⟨-, record, hrecord, hids⟩ := rollsBack_of_deferred_helper hactions hw hw' rfl
    (by simp [func])
  rw [hcurrent, hdefers] at hrecord
  have hrolls := (hids 0).1.mpr ⟨rfl, "tx", by simp [Recognizers.deferredArg], hresolve⟩
  have hevent := (hids 0).2.mpr (Or.inr hrolls)
  exact ⟨w, w', record, hw, hw', hresolve, hrecord, hrolls, hcurrent ▸ hevent⟩

/-- One that is called through its package does not, and the handle is reported. -/
theorem overlooked_deferred_helper_cleansUp :
    let func := Expr.selector (.ident "pkg" {}) "Cleanup" {}
    func.qualifiedName.isSome = true ∧ ∃ w w' tracked,
      Walk.run {} {} (((cleansUp func).actions {}).take 8) = .ok w ∧
      w.run {} ((Stmt.deferStmt (.call func [.ident "tx" {}] {}) {}).actions {}) = .ok w' ∧
      w.resolve "pkg" = none ∧ w.resolve "tx" = some 0 ∧
      w'.scopes.defersOf w.scopes.current = [⟨[]⟩] ∧ (¬ w'.RolledBackIn 0 w.scopes.current) ∧
      (cleansUp func).track {} {} = .ok tracked ∧
      (tracked.violations "run").map (·.kind) = [.noRollback] := by
  intro func
  refine ⟨rfl, _, _, _, rfl, rfl, rfl, rfl, rfl, ?_, rfl, rfl⟩
  unfold RolledBackIn
  decide +kernel

end FunctionUnit

end TxLifecycle
