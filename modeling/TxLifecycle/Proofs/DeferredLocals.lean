import TxLifecycle.Proofs.Inside
import TxLifecycle.Proofs.SafetyNet
import TxLifecycle.Proofs.Sites

/-!
# Which variables a `defer` statement takes care of

A `defer` statement runs when its function returns, and it takes care of variables that are there
when it is registered. For the function literal that it calls this is not checked: a rollback in the
literal is noted for the scope of the statement, whatever the variable. So the literal's own
variables are taken care of as well, by any rollback that stands in it.

* `Walk.Enclosed`: the literal of the `defer` statement that code is read for is around that code;
* `FunctionUnit.home_of_defers`: where the variable of a deferred rollback is at home;
* `FunctionUnit.rollsBack_outside_iff`: the variables that are not around the statement are those of
  its literal.
-/

namespace TxLifecycle

namespace Walk

variable {limits : Limits} {w : Walk}

/-- Where the function literal of a `defer` statement is being read, a body that stands in the scope
of the statement is open. -/
def Enclosed (w : Walk) : Prop :=
  ∀ scope ∈ w.context.deferScope, ∃ body ∈ w.scopes.stack, w.scopes.parent? body = some scope

/-- The literal stays open as long as it is read. -/
theorem nested_enclosed (limits : Limits) : Nested limits Enclosed where
  same := fun h _ hextends hstack hcontext scope hscope => by
    rw [hcontext] at hscope
    obtain ⟨body, hbody, hparent⟩ := h scope hscope
    refine ⟨body, hstack ▸ hbody, ?_⟩
    rw [hextends.parent? (ScopeTree.lt_of_parent? hparent), hparent]
  openGuard := fun _ h => h
  opens := fun h _ _ hopens scope hscope => by
    rw [hopens.context_eq] at hscope
    obtain ⟨body, hbody, hparent⟩ := h scope hscope
    refine ⟨body, ?_, hopens.tree.parent?_keep hparent⟩
    rw [hopens.tree.stack]
    exact List.mem_cons_of_mem _ hbody
  openBody := fun {u v kind} h _ hexec scope hscope => by
    have hopens := exec_openBody hexec
    rw [hopens.context_eq] at hscope
    rw [hopens.tree.stack]
    cases kind with
    | closure => cases hscope
    | deferred =>
      cases hscope
      exact ⟨_, List.mem_cons_self, hopens.tree.parent?_fresh⟩
    | goroutine launch =>
      obtain ⟨body, hbody, hparent⟩ := h scope hscope
      exact ⟨body, List.mem_cons_of_mem _ hbody, hopens.tree.parent?_keep hparent⟩

/-- A rollback that a `defer` statement takes care of stays there as the walk goes on. -/
theorem run_rollsBack {u : Walk} {actions : List Action} {scope : ScopeId} {id : BindingId}
    (hrun : w.run limits actions = .ok u) (h : w.scopes.RollsBack scope id) :
    u.scopes.RollsBack scope id :=
  run_preserves (P := fun v => v.scopes.RollsBack scope id)
    (fun _ _ => exec_rollsBack_of_rollsBack) hrun h

end Walk

namespace FunctionUnit

open Walk

variable {limits : Limits} {names : Recognizers} {unit : FunctionUnit} {tracked : Tracked}
  {id : BindingId} {b : Binding} {scope : ScopeId}

/-- In the function literal of a `defer` statement of `scope` an ordinary call rolls a handle back;
`body` is the scope of the literal. -/
def RollsBackInLiteral (limits : Limits) (names : Recognizers) (unit : FunctionUnit)
    (id : BindingId) (scope body : ScopeId) : Prop :=
  ∃ before name rest w, unit.actions names = before ++ .finalize name false :: rest ∧
    Walk.run limits {} before = .ok w ∧ w.resolve name = some id ∧
    w.context.deferScope = some scope ∧ body ∈ w.scopes.stack ∧
    w.scopes.parent? body = some scope

/-- The variable of a deferred rollback is at home around the `defer` statement, or inside of the
function literal that the statement calls. -/
theorem home_of_defers {before rest : List Action} {action : Action} {w z : Walk}
    (hactions : unit.actions names = before ++ action :: rest)
    (hrun : Walk.run limits {} before = .ok w) (hrest : w.run limits (action :: rest) = .ok z)
    (hdefers : w.Defers action id scope) (hget : z.bindings[id]? = some b) :
    b.home ∈ z.scopes.ancestors scope ∨
      ∃ body ∈ z.scopes.ancestors b.home, unit.RollsBackInLiteral limits names id scope body := by
  have hsound := sound_of_actions limits hactions
  have hwf := (hsound.drop hrun).wellFormed
  have hextends := (hsound.drop hrun).grows hrest
  have hhome : ∀ {name : String}, w.resolve name = some id → b.home ∈ w.scopes.stack := by
    intro name hresolve
    obtain ⟨b₀, hget₀, -, hopen, -⟩ := Indexed.get_of_resolve hwf.indexed hresolve
    have horderly := (hsound.take.ages hrun orderly_init).1
    obtain ⟨b', hget', hages⟩ := ((hsound.drop hrun).ages hrest horderly).2 hget₀
    obtain rfl : b' = b := Option.some.inj (hget'.symm.trans hget)
    exact hages.home_eq ▸ hopen
  cases hdefers with
  | called hresolve =>
    refine Or.inl ?_
    rw [hextends.ancestors hwf.tree hwf.tree.current_lt, ← hwf.tree.stack_eq]
    exact hhome hresolve
  | inLiteral hresolve hdefer =>
    obtain ⟨body, hbody, hparent⟩ := nested_of_run nested_enclosed hactions hrun
      (by intro scope hscope; cases hscope) scope hdefer
    have hopen := hhome hresolve
    have hliteral : unit.RollsBackInLiteral limits names id scope body :=
      ⟨before, _, rest, w, hactions, hrun, hresolve, hdefer, hbody, hparent⟩
    have hlt := hwf.tree.stack_lt hopen
    rw [hextends.ancestors hwf.tree hlt, hextends.ancestors hwf.tree
      (Nat.lt_trans (hwf.tree.parent hparent) (ScopeTree.lt_of_parent? hparent))]
    -- the home and the literal are both open, so one of them is around the other
    rw [hwf.tree.stack_eq] at hbody hopen
    rcases hwf.tree.mem_ancestors_or hopen hbody with hinside | haround
    · rcases hwf.tree.mem_ancestors_cases hparent hinside with rfl | houter
      · exact Or.inr ⟨_, ScopeTree.self_mem_ancestors _ _, hliteral⟩
      · exact Or.inl houter
    · exact Or.inr ⟨body, haround, hliteral⟩

/-- A rollback in a deferred literal is noted for good, and so is the place of the literal. -/
theorem rollsBack_of_literal {body : ScopeId} {z : Walk} (hwalk : unit.walk limits names = .ok z)
    (h : unit.RollsBackInLiteral limits names id scope body) :
    z.scopes.RollsBack scope id ∧ z.scopes.parent? body = some scope := by
  obtain ⟨before, name, rest, w, hactions, hrun, hresolve, hdefer, -, hparent⟩ := h
  have hall := run_of_walk hwalk
  rw [hactions] at hall
  have hsound := sound_of_actions limits hactions
  obtain ⟨-, hrest⟩ := At.run_of_append ⟨limits, hrun⟩ hall
  have hextends := (hsound.drop hrun).grows hrest
  refine ⟨?_, by rw [hextends.parent? (ScopeTree.lt_of_parent? hparent), hparent]⟩
  obtain ⟨u, hexec, hrest⟩ := run_cons_eq_ok.mp hrest
  -- the statement is registered, so the call finds a record to be noted on
  have hregistered := (matched_of_run hactions hrun).registered w.context List.mem_cons_self
  refine run_rollsBack hrest ((exec_rollsBack_iff hexec fun _ => hregistered scope hdefer).mpr ?_)
  exact Or.inr (.inLiteral hresolve hdefer)

/-- **A `defer` statement also takes care of the variables of its literal.** In every function that
is read to its end, take a scope with a `defer` statement that rolls a handle back. The variable is
at home in that scope or around it, unless it belongs to the function literal of the statement,
where an ordinary call rolls it back; and each such call has this effect. The statement then counts
as a safety net for the handle, although it was registered before the handle was acquired. -/
theorem rollsBack_outside_iff (htrack : unit.track limits names = .ok tracked)
    (hb : b ∈ tracked.bindings) (scope : ScopeId) :
    ((tracked.scopes.get? scope).any (·.rollsBack b.id) = true ∧
        b.home ∉ tracked.scopes.ancestors scope ↔
      ∃ body ∈ tracked.scopes.ancestors b.home,
        unit.RollsBackInLiteral limits names b.id scope body) ∧
    ((tracked.scopes.get? scope).any (·.rollsBack b.id) = true →
      b.home ∉ tracked.scopes.ancestors scope → b.hasSafetyNet tracked.scopes = true) := by
  obtain ⟨z, hwalk, rfl⟩ := exists_walk_of_track htrack
  have hall := run_of_walk hwalk
  have hwf := wellFormed_of_walk hwalk
  obtain ⟨i, hget⟩ := List.mem_iff_getElem?.mp hb
  obtain rfl : b.id = i := hwf.indexed hget
  have houtside : (z.scopes.get? scope).any (·.rollsBack b.id) = true →
      b.home ∉ z.scopes.ancestors scope →
      ∃ body ∈ z.scopes.ancestors b.home,
        unit.RollsBackInLiteral limits names b.id scope body := by
    intro hrolls hhome
    -- the call that the record stems from
    obtain ⟨event, hevent, hkind, rfl⟩ := (rollsBack_iff_event htrack hb).mp hrolls
    obtain ⟨before, action, rest, w, hactions, hat, hadds⟩ :=
      accounted_of_run (List.append_nil _).symm hall (eventsOf_eq hget ▸ hevent)
    rw [hactions] at hall
    obtain ⟨hrun, hrest⟩ := hat.run_of_append hall
    exact (home_of_defers hactions hrun hrest (hadds.records.defers hkind) hget).resolve_left hhome
  refine ⟨⟨?_, ?_⟩, ?_⟩
  · rintro ⟨hrolls, hhome⟩
    exact houtside hrolls hhome
  · rintro ⟨body, hbody, hliteral⟩
    obtain ⟨hrolls, hparent⟩ := rollsBack_of_literal hwalk hliteral
    refine ⟨ScopeTree.any_rollsBack_iff.mpr hrolls, fun hhome => ?_⟩
    exact hwf.tree.notMem_ancestors_parent hparent (hwf.tree.mem_ancestors_trans hbody hhome)
  · intro hrolls hhome
    obtain ⟨body, hbody, hliteral⟩ := houtside hrolls hhome
    have hparent := (rollsBack_of_literal hwalk hliteral).2
    -- the statement is around the literal, the literal around the variable and its acquisition
    have hsound := unit.sound_actions limits names
    have hacquired := (hsound.ages hall orderly_init).1.home hget
    have hscope := hwf.tree.mem_ancestors_trans (hwf.tree.parent_mem_ancestors hparent)
      (hwf.tree.mem_ancestors_trans hbody hacquired)
    exact List.any_eq_true.mpr ⟨scope, hscope, hrolls⟩

/-- A deferred function literal that starts a transaction, shares it with a goroutine and finishes
it. -/
def finishedInLiteral : FunctionUnit where
  name := "run"
  body := {
    stmts := [
      .deferStmt (.call (.funcLit [] {
        stmts := [
          .shortVarDecl [.ident "tx" {}, .ident "_" {}]
            [.call (.selector (.ident "db" {}) "Begin" {}) [] {}] ⟨55, 74⟩,
          .exprStmt (.call (.ident "each" {}) [.funcLit [] {
            stmts := [.goStmt (.call (.ident "use" {}) [.ident "tx" {}] {}) {}]
            span := {} } {}] {}) {},
          .ifStmt {
            init := none
            cond := .unary "!" (.call (.ident "done" {}) [] {}) {}
            consequence := {
              stmts := [
                .exprStmt (.call (.selector (.ident "tx" {}) "Rollback" {}) [] {}) {},
                .returnStmt [] {}]
              span := {} }
            otherwise := none
            span := {} },
          .exprStmt (.call (.selector (.ident "tx" {}) "Commit" {}) [] {}) {}]
        span := {} } {}) [] {}) {}]
    span := {} }

/-- The transaction of this literal gets its safety net from the rollback in the literal. -/
theorem rollsBack_outside_finishedInLiteral :
    ∃ (tracked : Tracked) (b : Binding), finishedInLiteral.track {} {} = .ok tracked ∧
      tracked.bindings = [b] ∧ b.hasSafetyNet tracked.scopes = true ∧
      ∃ body ∈ tracked.scopes.ancestors b.home,
        finishedInLiteral.RollsBackInLiteral {} {} b.id ScopeTree.root body := by
  obtain ⟨tracked, b, htrack, hbindings, hrolls, hhome⟩ : ∃ (tracked : Tracked) (b : Binding),
      finishedInLiteral.track {} {} = .ok tracked ∧ tracked.bindings = [b] ∧
      (tracked.scopes.get? ScopeTree.root).any (·.rollsBack b.id) = true ∧
      b.home ∉ tracked.scopes.ancestors ScopeTree.root :=
    ⟨_, _, rfl, rfl, rfl, by decide +kernel⟩
  have hb : b ∈ tracked.bindings := hbindings ▸ List.mem_singleton.mpr rfl
  obtain ⟨houtside, hnet⟩ := rollsBack_outside_iff htrack hb ScopeTree.root
  exact ⟨tracked, b, htrack, hbindings, hnet hrolls hhome, houtside.mp ⟨hrolls, hhome⟩⟩

/-- A `defer` statement takes care of a variable that is not there when it is registered: the
goroutine of this literal is not reported, although no rollback is deferred for its transaction. -/
theorem exists_rollsBack_outside :
    ∃ (tracked : Tracked) (b : Binding), finishedInLiteral.track {} {} = .ok tracked ∧
      tracked.bindings = [b] ∧
      (tracked.scopes.get? ScopeTree.root).any (·.rollsBack b.id) = true ∧
      b.home ∉ tracked.scopes.ancestors ScopeTree.root ∧
      b.has .goroutineCapture = true ∧ tracked.violations "run" = [] :=
  ⟨_, _, rfl, rfl, rfl, by decide +kernel, rfl, by decide +kernel⟩

end FunctionUnit

end TxLifecycle
