import TxLifecycle.Proofs.PlainCommits

/-!
# Bodies of function literals

The body of a function literal runs when the literal is called, and perhaps never. So a commit or
rollback in it is marked as such, and what leaves the literal does not leave the function around it.

* `ScopeTree.InLiteral`: a scope or one around it is the body of a function literal;
* `Walk.LiteralsApart`: a commit or rollback is marked as standing in a literal exactly where it
  does, and neither an exit of the function nor a scope that ends with one stands there.

The main statement is `FunctionUnit.literals_apart`.
-/

namespace TxLifecycle

/-- A scope or one around it is the body of a function literal, plain or launched. -/
def ScopeTree.InLiteral (tree : ScopeTree) (scope : ScopeId) : Prop :=
  ∃ a ∈ tree.ancestors scope, tree.kind? a = some .closure ∨ tree.kind? a = some .goroutine

namespace ScopeTree

variable {tree tree' : ScopeTree} {scope : ScopeId}

/-- Whether code stands in a literal is read off the open scopes. -/
theorem inLiteral_current_iff (hwf : tree.WellFormed) :
    tree.InLiteral tree.current ↔ tree.inClosure = true := by
  rw [inClosure, List.any_eq_true, hwf.stack_eq]
  refine exists_congr fun a => and_congr_right fun _ => ?_
  cases tree.kind? a with
  | none => simp
  | some kind => cases kind <;> simp [ScopeKind.isClosure]

/-- What is around a scope stays when the tree grows. -/
theorem Extends.inLiteral_iff (h : tree.Extends tree') (hwf : tree.WellFormed)
    (hlt : scope < tree.scopes.length) : tree'.InLiteral scope ↔ tree.InLiteral scope := by
  rw [InLiteral, h.ancestors hwf hlt]
  refine exists_congr fun a => and_congr_right fun ha => ?_
  rw [h.kind? (Nat.lt_of_le_of_lt (hwf.le_of_mem_ancestors ha) hlt)]

end ScopeTree

namespace Walk

variable {limits : Limits} {w u v : Walk} {action : Action}

/-- The events that are in the table, each with the position of its binding. -/
def HasEvent (w : Walk) (i : Nat) (event : Event) : Prop :=
  ∃ b, w.bindings[i]? = some b ∧ event ∈ b.events

/-- Function literals are told apart from the code around them. -/
structure LiteralsApart (w : Walk) : Prop where
  /-- A commit or rollback that runs where it is written is marked where that is in a literal. -/
  direct : ∀ {i : Nat} {event : Event}, w.HasEvent i event →
    event.kind.isDirectFinalization = true →
    (event.inClosure = true ↔ w.scopes.InLiteral event.scope)
  /-- An exit of the function stands in no literal. -/
  exits : ∀ {i : Nat} {event : Event} {how : Exit}, w.HasEvent i event → event.kind = how.event →
    event.inClosure = false ∧ ¬ w.scopes.InLiteral event.scope
  /-- Neither does a scope that ends with one. -/
  terminated : ∀ {scope : ScopeId}, w.scopes.Terminated scope → ¬ w.scopes.InLiteral scope

/-! ## One action -/

/-- An exit outside function literals is recorded as one. -/
theorem inClosure_of_exit {how : Exit} {i : Nat} {event : Event} (hwf : w.WellFormed)
    (hsees : w.SeesLiterals) (houtside : w.scopes.inClosure = false)
    (hexec : w.exec limits (.exit how) = .ok u) (hevent : u.HasEvent i event) :
    w.HasEvent i event ∨ event.inClosure = false := by
  obtain ⟨recorded, -, -, -, hclosure, htable, -⟩ := exec_exit hwf houtside hexec
  obtain ⟨b, hget, hmem⟩ := hevent
  rw [htable] at hget
  obtain ⟨old, hold, rfl⟩ := Option.map_eq_some_iff.mp hget
  split at hmem
  · rcases List.mem_append.mp hmem with hmem | hmem
    · exact Or.inl ⟨old, hold, hmem⟩
    · -- no literal is open, so none is counted
      obtain rfl := List.mem_singleton.mp hmem
      rw [SeesLiterals, houtside] at hsees
      rw [hclosure]
      exact Or.inr (Bool.or_eq_false_iff.mp hsees.symm).1
  · exact Or.inl ⟨old, hold, hmem⟩

/-- Every action tells function literals apart. -/
theorem exec_literalsApart (h : w.LiteralsApart) (hwf : w.WellFormed) (hsees : w.SeesLiterals)
    (hexec : w.exec limits action = .ok u) : u.LiteralsApart := by
  have hextends := exec_extends hwf.indexed hexec
  have hcurrent : u.scopes.InLiteral w.scopes.current ↔ w.scopes.inClosure = true :=
    (hextends.inLiteral_iff hwf.tree hwf.tree.current_lt).trans
      (ScopeTree.inLiteral_current_iff hwf.tree)
  have hcases : ∀ {i : Nat} {event : Event}, u.HasEvent i event →
      w.HasEvent i event ∨ w.Records action i event := by
    rintro i event ⟨b, hget, hevent⟩
    exact (exec_rewrites hwf.indexed hexec).event_cases hget hevent
  -- what is around an event that is there does not change
  have hold : ∀ {i : Nat} {event : Event}, w.HasEvent i event →
      (u.scopes.InLiteral event.scope ↔ w.scopes.InLiteral event.scope) := by
    rintro i event ⟨b, hget, hevent⟩
    exact hextends.inLiteral_iff hwf.tree (hwf.events hget hevent)
  constructor
  · intro i event hevent hdirect
    rcases hcases hevent with hevent | hnew
    · rw [hold hevent]
      exact h.direct hevent hdirect
    · obtain ⟨_, _, -, -, hscope, hinside, hdefer⟩ := hnew.of_direct hdirect
      rw [hscope, hcurrent, hsees, hinside, hdefer, Option.isSome_none, Bool.or_false]
  · intro i event how hevent hexit
    have hkept : w.HasEvent i event → event.inClosure = false ∧
        ¬ u.scopes.InLiteral event.scope := by
      intro hevent
      rw [hold hevent]
      exact h.exits hevent hexit
    rcases hcases hevent with hevent | hnew
    · exact hkept hevent
    · cases hnew with
      | exit _ houtside _ hscope =>
        rcases inClosure_of_exit hwf hsees houtside hexec hevent with hevent | hclosure
        · exact hkept hevent
        · rw [hscope, hcurrent, houtside]
          exact ⟨hclosure, Bool.false_ne_true⟩
      | _ => grind [cases Exit, directKind, deferredKind, Exit.event]
  · intro scope hterminated
    rcases exec_terminated hwf.indexed hexec hterminated with hterminated | ⟨hexits, rfl⟩
    · rw [hextends.inLiteral_iff hwf.tree hterminated.lt]
      exact h.terminated hterminated
    · cases action with
      | exit how =>
        rw [hcurrent]
        simpa [Walk.exits] using hexits
      | _ => cases hexits

end Walk

/-! ## A whole function -/

namespace FunctionUnit

open Walk

variable {limits : Limits} {names : Recognizers} {unit : FunctionUnit} {w : Walk}

/-- When a function has been read, its function literals are told apart. -/
theorem literalsApart_of_walk (hwalk : unit.walk limits names = .ok w) : w.LiteralsApart := by
  have hwalks := walks_of_walk hwalk
  have halong := hwalks.charted rfl
  have hsound := unit.sound_actions limits names
  have hrun := hwalks.run
  rw [flow_actions] at halong hrun
  rw [← List.append_nil (unit.actions names)] at halong hsound
  refine halong.preserves (Q := LiteralsApart) hsound hrun ?_ ?_
  · intro u v action hwf _ hcharted hexec happart
    exact exec_literalsApart happart hwf hcharted.1 hexec
  · -- there are no events yet, and the function's own scope has no end
    refine ⟨?_, ?_, ?_⟩
    · rintro i event ⟨b, hget, -⟩
      cases hget
    · rintro i event how ⟨b, hget, -⟩
      cases hget
    · intro scope hterminated
      obtain rfl := Nat.lt_one_iff.mp hterminated.lt
      cases hterminated

/-- Bodies of function literals never bear on the paths of the function around them. A commit or
rollback that runs where it is written is marked as standing in a literal exactly where it does; an
exit that is recorded for a transaction stands in no literal and is not marked so; and a scope that
ends with an exit of the function stands in none. -/
theorem literals_apart (limits : Limits) (names : Recognizers) (unit : FunctionUnit)
    {tracked : Tracked} (htrack : unit.track limits names = .ok tracked) :
    (∀ b ∈ tracked.bindings, ∀ event ∈ b.events,
      (event.kind = .directCommit ∨ event.kind = .directRollback →
        (event.inClosure = true ↔ tracked.scopes.InLiteral event.scope)) ∧
      (event.kind = .earlyReturn ∨ (∃ kind, event.kind = .fatalExit kind) →
        event.inClosure = false ∧ ¬ tracked.scopes.InLiteral event.scope)) ∧
    ∀ scope s, tracked.scopes.get? scope = some s → s.terminated = true →
      ¬ tracked.scopes.InLiteral scope := by
  obtain ⟨w, hwalk, rfl⟩ := exists_walk_of_track htrack
  have happart := literalsApart_of_walk hwalk
  refine ⟨fun b hb event hevent => ?_, fun scope s hget hterminated => ?_⟩
  · obtain ⟨i, hget⟩ := List.mem_iff_getElem?.mp hb
    have hhas : w.HasEvent i event := ⟨b, hget, hevent⟩
    constructor
    · intro hkind
      refine happart.direct hhas ?_
      rcases hkind with hkind | hkind <;> rw [hkind] <;> rfl
    · rintro (hkind | ⟨kind, hkind⟩)
      · exact happart.exits hhas (show event.kind = Exit.byReturn.event from hkind)
      · exact happart.exits hhas (show event.kind = (Exit.byAbort kind).event from hkind)
  · refine happart.terminated ?_
    rw [ScopeTree.Terminated, show w.scopes.get? scope = some s from hget]
    exact hterminated

/-- A function that commits and returns in a goroutine, and returns and rolls back outside it. -/
def launchedCommit : FunctionUnit where
  name := "Handle"
  body := {
    stmts := [
      .shortVarDecl [.ident "tx" {}, .ident "err" {}]
        [.call (.selector (.ident "db" {}) "Begin" {}) [] {}] {},
      .goStmt (.call (.funcLit [] {
        stmts := [
          .exprStmt (.call (.selector (.ident "tx" {}) "Commit" {}) [] {}) {},
          .returnStmt [] {}]
        span := {} } {}) [] {}) {},
      .ifStmt {
        init := none
        cond := .ident "closed" {}
        consequence := { stmts := [.returnStmt [] {}], span := {} }
        otherwise := none
        span := {} },
      .exprStmt (.call (.selector (.ident "tx" {}) "Rollback" {}) [] {}) {}]
    span := {} }

/-- The commit of that function is marked, the rollback is not; of the two `return` statements only
the second one is recorded and ends a scope. -/
theorem literals_apart_launchedCommit :
    ∃ (tracked : Tracked) (b : Binding) (commit earlyReturn rollback : Event),
      launchedCommit.track {} {} = .ok tracked ∧ tracked.bindings = [b] ∧
      b.events.filter (·.kind != .goroutineCapture) = [commit, earlyReturn, rollback] ∧
      commit.kind = .directCommit ∧ commit.inClosure = true ∧
      tracked.scopes.InLiteral commit.scope ∧
      earlyReturn.kind = .earlyReturn ∧ earlyReturn.inClosure = false ∧
      ¬ tracked.scopes.InLiteral earlyReturn.scope ∧
      rollback.kind = .directRollback ∧ rollback.inClosure = false ∧
      ¬ tracked.scopes.InLiteral rollback.scope ∧
      tracked.scopes.scopes.map (·.terminated) = [false, false, true] ∧
      ¬ tracked.scopes.InLiteral 2 := by
  have hwalk : ∃ (tracked : Tracked) (b : Binding) (commit earlyReturn rollback : Event)
      (s : Scope),
      launchedCommit.track {} {} = .ok tracked ∧ tracked.bindings = [b] ∧
      b.events.filter (·.kind != .goroutineCapture) = [commit, earlyReturn, rollback] ∧
      commit.kind = .directCommit ∧ commit.inClosure = true ∧
      earlyReturn.kind = .earlyReturn ∧
      rollback.kind = .directRollback ∧ rollback.inClosure = false ∧
      tracked.scopes.scopes.map (·.terminated) = [false, false, true] ∧
      tracked.scopes.get? 2 = some s ∧ s.terminated = true :=
    ⟨_, _, _, _, _, _, rfl, rfl, rfl, rfl, rfl, rfl, rfl, rfl, rfl, rfl, rfl⟩
  obtain ⟨tracked, b, commit, earlyReturn, rollback, s, htrack, hbindings, hevents, hcommit,
    hmarked, hreturn, hrollback, hunmarked, hends, hget, hterminated⟩ := hwalk
  obtain ⟨hrecorded, hscopes⟩ := literals_apart {} {} launchedCommit htrack
  have hb : b ∈ tracked.bindings := by simp [hbindings]
  have hmem : ∀ event ∈ [commit, earlyReturn, rollback], event ∈ b.events := by
    intro event hevent
    rw [← hevents] at hevent
    exact (List.mem_filter.mp hevent).1
  have hfirst := (hrecorded b hb commit (hmem commit (by simp))).1 (Or.inl hcommit)
  have hsecond := (hrecorded b hb earlyReturn (hmem earlyReturn (by simp))).2 (Or.inl hreturn)
  have hthird := (hrecorded b hb rollback (hmem rollback (by simp))).1 (Or.inr hrollback)
  refine ⟨tracked, b, commit, earlyReturn, rollback, htrack, hbindings, hevents, hcommit, hmarked,
    hfirst.mp hmarked, hreturn, hsecond.1, hsecond.2, hrollback, hunmarked, fun hin => ?_, hends,
    hscopes 2 s hget hterminated⟩
  rw [hthird.mpr hin] at hunmarked
  cases hunmarked

end FunctionUnit

end TxLifecycle
