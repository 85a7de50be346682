import Mathlib.Data.List.Basic
import TxLifecycle.Proofs.CommitCoverage
import TxLifecycle.Proofs.DeferredRollback
import TxLifecycle.Proofs.Path

/-!
# The end of a function

A function ends at its last statement as it does at a `return` there. At a `return` the handles
that may still be open are looked for while the code is read; at the end of the function nobody
looks. This file says where that makes a difference.

* `Binding.isOpen`: the handles that a `return` at the end of the function meets;
* `Walk.exit_at_end`: what reading that `return` does;
* `Binding.verdict_of_has_earlyReturn`: what a `return` adds to a verdict;
* `Binding.slipsOut`: the bindings whose verdict it changes.

The main statement is `FunctionUnit.violations_withReturn`.
-/

namespace TxLifecycle

/-! ## What a `return` at the end meets -/

/-- The handle is still open at the end of the function: its variable belongs to the function's own
scope and holds it, nobody else is to finish it, and neither does that scope nor one of its `defer`
statements. -/
def Binding.isOpen (b : Binding) (tree : ScopeTree) : Bool :=
  b.home == ScopeTree.root && !b.retired && !b.isEscaped && !b.guardedOnPath tree

namespace Walk

variable {limits : Limits} {w u : Walk}

/-- In the function's own scope a name means the binding there that is not retired. -/
theorem resolve_iff_of_stack (hwf : w.WellFormed) (horderly : w.scopes.Orderly w.bindings)
    (hstack : w.scopes.stack = [ScopeTree.root]) {b : Binding} (hb : b ∈ w.bindings) :
    w.resolve b.name = some b.id ↔ b.home = ScopeTree.root ∧ b.retired = false := by
  have hcurrent : w.scopes.current = ScopeTree.root := by rw [ScopeTree.current, hstack]; rfl
  constructor
  · intro hresolve
    obtain ⟨i, hget⟩ := List.mem_iff_getElem?.mp hb
    rw [hwf.indexed hget] at hresolve
    obtain ⟨-, hhome, hretired⟩ := Indexed.of_resolve hwf.indexed hresolve hget
    rw [hstack, List.mem_singleton] at hhome
    exact ⟨hhome, hretired⟩
  · rintro ⟨hhome, hretired⟩
    exact (resolve_iff_of_home hwf horderly hb (hhome.trans hcurrent.symm)).mpr hretired

/-- At the end of the function the exposed bindings are the open ones. -/
theorem mem_exposed_iff_isOpen (hwf : w.WellFormed) (horderly : w.scopes.Orderly w.bindings)
    (hstack : w.scopes.stack = [ScopeTree.root]) (hcontext : w.context.Outermost) {i : Nat}
    {b : Binding} (hget : w.bindings[i]? = some b) :
    i ∈ w.exposed ↔ b.isOpen w.scopes = true := by
  have hresolve := resolve_iff_of_stack hwf horderly hstack (List.mem_of_getElem? hget)
  rw [hwf.indexed hget] at hresolve
  simp [mem_exposed_iff hwf.indexed hget, hresolve, hcontext.guarded, Binding.isOpen, and_assoc]

/-- A `return` at the end of the function leaves an event on the open bindings, and the function's
own scope has an end. -/
theorem exit_at_end (hwf : w.WellFormed) (horderly : w.scopes.Orderly w.bindings)
    (hstack : w.scopes.stack = [ScopeTree.root]) (hcontext : w.context.Outermost)
    (houtside : w.scopes.inClosure = false) (hexec : w.exec limits (.exit .byReturn) = .ok u) :
    ∃ event : Event, event.kind = .earlyReturn ∧ event.span = w.context.span ∧
      event.scope = w.scopes.current ∧
      u.bindings = w.bindings.map (fun b => if b.isOpen w.scopes then b.record event else b) ∧
      w.scopes.markTerminated = .ok u.scopes := by
  obtain ⟨event, hkind, hspan, hscope, -, htable, htree⟩ := exec_exit hwf houtside hexec
  refine ⟨event, hkind, hspan, hscope, List.ext_getElem? fun i => ?_, htree⟩
  rw [htable, List.getElem?_map]
  cases hget : w.bindings[i]? with
  | none => rfl
  | some b => simp [mem_exposed_iff_isOpen hwf horderly hstack hcontext hget]

/-- Nothing happens at a `return` without values before the function is left. -/
theorem run_before_exit {span : Span}
    (hrun : w.run limits [.dropGuards, .count, .setSpan span, .handOut []] = .ok u) :
    u.scopes = w.scopes ∧ u.bindings = w.bindings ∧ u.context = { w.context with span } ∧
      u.constructs = w.constructs ∧ u.outer = w.outer := by
  obtain ⟨_, hdrop, hrun⟩ := run_cons_eq_ok.mp hrun
  cases hdrop
  obtain ⟨v, hcount, hrun⟩ := run_cons_eq_ok.mp hrun
  obtain ⟨_, hspan, hrun⟩ := run_cons_eq_ok.mp hrun
  cases hspan
  obtain ⟨_, hhand, hrun⟩ := run_cons_eq_ok.mp hrun
  cases hhand
  cases hrun
  obtain ⟨-, rfl⟩ := of_exec_count hcount
  rw [handOut]
  split
  · exact ⟨rfl, rfl, rfl, rfl, rfl⟩
  · exact ⟨rfl, rfl, rfl, rfl, rfl⟩

end Walk

namespace ScopeTree

variable {tree tree' : ScopeTree}

/-- The end of the function's own scope is of no interest to a verdict: that scope is no arm. -/
theorem agrees_of_markTerminated (hwf : tree.WellFormed) (hcurrent : tree.current = ScopeTree.root)
    (h : tree.markTerminated = .ok tree') : tree.Agrees tree' := by
  refine .of_modify (f := fun s => { s with terminated := true }) (fun _ => rfl)
    (Or.inr fun construct hconstruct harm => ?_) h
  obtain ⟨id, hid⟩ := List.mem_iff_getElem?.mp hconstruct
  -- an arm stands in another scope, the function's own scope in none
  obtain ⟨s, hs, hparent⟩ := hwf.root
  have hinside := hwf.arm hid harm
  rw [hcurrent, parent?, hs, Option.bind_some, hparent] at hinside
  cases hinside

end ScopeTree

namespace Binding

variable {b b' : Binding} {tree tree' : ScopeTree}

/-! ## What a `return` adds to a verdict -/

/-- Nothing is wrong with the binding but, at most, that the error of a commit is thrown away. -/
def passes (b : Binding) (tree : ScopeTree) : Bool :=
  (b.verdict tree).all (·.1 == .commitErrorIgnored)

/-- A commit on some arms only is another defect than an error that is thrown away. -/
theorem kind_of_branchCommit {found : ViolationKind × Span} (h : b.branchCommit tree = some found) :
    (found.1 == .commitErrorIgnored) = false := by
  have hmisplaced := misplacesCommit_of_branchCommit h
  cases hkind : found.1 with
  | commitErrorIgnored =>
    rw [hkind] at hmisplaced
    cases hmisplaced
  | _ => rfl

/-- With a binding that passes, neither a loop nor a branch is wrong. -/
theorem of_passes (hescaped : b.isEscaped = false) (hnet : b.hasSafetyNet tree = false)
    (h : b.passes tree = true) : b.commitInLoop tree = none ∧ b.branchCommit tree = none := by
  rw [passes, verdict, hescaped, hnet] at h
  -- either would decide the verdict, and neither is about an error that is thrown away
  cases hloop : b.commitInLoop tree with
  | some event =>
    rw [hloop] at h
    grind
  | none =>
    cases hbranch : b.branchCommit tree with
    | some found =>
      rw [hloop, hbranch] at h
      have hkind := kind_of_branchCommit hbranch
      grind
    | none => exact ⟨rfl, rfl⟩

/-- A `return` is reported on a binding with which nothing else is wrong, unless a deferred rollback
stands around the acquisition or the handle was handed over. An error that is thrown away comes
after it. -/
theorem verdict_of_has_earlyReturn (hb : b.Agrees b') (htree : tree.Agrees tree')
    (hreturn : b'.has .earlyReturn = true) :
    b'.verdict tree' =
      if !b.isEscaped && !b.hasSafetyNet tree && b.passes tree then
        some (.earlyReturn, b.acquisition)
      else b.verdict tree := by
  have hlike := hb.resembles
  rw [passes, verdict, verdict, hlike.isEscaped_eq, hlike.hasCommit, hlike.hasRollback,
    hlike.has .shadowing (by simp), hlike.has .reassignment (by simp),
    hlike.has .goroutineCapture (by simp), hlike.has (.fatalExit .fatal) (by simp),
    hlike.has (.fatalExit .panic) (by simp), hreturn, hasSafetyNet_congr hb htree,
    commitInLoop_congr hlike htree.resembles, branchCommit_congr hlike htree.resembles,
    hlike.discardedCommit, hlike.acquisition_eq]
  -- the checks are tried in order; those before the `return` decide both verdicts alike
  cases b.isEscaped with
  | true => simp
  | false =>
  cases !b.hasCommit && !b.hasRollback with
  | true => simp
  | false =>
  cases b.has .shadowing with
  | true => simp
  | false =>
  cases b.has .reassignment with
  | true => simp
  | false =>
  cases b.hasSafetyNet tree with
  | true => simp
  | false =>
  cases b.has .goroutineCapture with
  | true => simp
  | false =>
  cases b.has (.fatalExit .fatal) with
  | true => simp
  | false =>
  cases b.has (.fatalExit .panic) with
  | true => simp
  | false =>
  cases b.commitInLoop tree with
  | some event => simp
  | none =>
  cases hbranch : b.branchCommit tree with
  | some found => simp [kind_of_branchCommit hbranch]
  | none =>
  cases b.hasRollback with
  | false => simp
  | true =>
  cases b.hasCommit with
  | false => simp
  | true =>
  cases b.has .earlyReturn with
  | true => simp
  | false =>
  -- what is left is an error that is thrown away, which the other function does not reach
  cases hdiscarded : b.discardedCommit with
  | none => simp
  | some found => simp [kind_of_discardedCommit hdiscarded]

/-- The handle slips out at the end of the function: it is open there, no deferred rollback stands
around its acquisition, and nothing is wrong with it otherwise but, at most, that the error of a
commit is thrown away. -/
def slipsOut (b : Binding) (tree : ScopeTree) : Bool :=
  b.isOpen tree && !b.hasSafetyNet tree && b.passes tree

/-- An open handle that meets a `return` is reported for it where it slips out. -/
theorem verdict_record (htree : tree.Agrees tree') {event : Event}
    (hkind : event.kind = .earlyReturn) :
    (if b.isOpen tree then b.record event else b).verdict tree' =
      if b.slipsOut tree then some (.earlyReturn, b.acquisition) else b.verdict tree := by
  cases hopen : b.isOpen tree with
  | false =>
    rw [slipsOut, hopen]
    exact verdict_congr (.refl b) htree rfl
  | true =>
    have hreturn : (b.record event).has .earlyReturn = true := by
      simp [Binding.has, Binding.record, hkind]
    have hescaped : b.isEscaped = false := by
      simp only [isOpen, Bool.and_eq_true, Bool.not_eq_true'] at hopen
      exact hopen.1.2
    rw [if_pos rfl, verdict_of_has_earlyReturn (.record hkind) htree hreturn, slipsOut, hopen,
      hescaped]
    rfl

end Binding

/-! ## Violations -/

/-- What is reported on a binding for a verdict. -/
def Binding.report (b : Binding) (function : String) (found : Option (ViolationKind × Span)) :
    Option Violation :=
  found.map fun (kind, span) => Violation.new function b.name kind span

/-- What is reported on a binding where the function ends in a `return`. -/
def Binding.reportAtReturn (b : Binding) (function : String) (tree : ScopeTree) :
    Option Violation :=
  b.report function
    (if b.slipsOut tree then some (.earlyReturn, b.acquisition) else b.verdict tree)

variable {b : Binding} {tree : ScopeTree}

/-- One that slips out is reported for the `return`; otherwise it would not be. -/
theorem Binding.any_report_of_slipsOut (function : String) (h : b.slipsOut tree = true) :
    (b.reportAtReturn function tree).any (·.kind == .earlyReturn) = true ∧
      (b.report function (b.verdict tree)).any (·.kind == .earlyReturn) = false := by
  constructor
  · rw [Binding.reportAtReturn, h]
    rfl
  · have hpasses := (Bool.and_eq_true_iff.mp h).2
    rw [Binding.passes] at hpasses
    cases hverdict : b.verdict tree with
    | none => rfl
    | some found =>
      rw [hverdict, Option.all_some, beq_iff_eq] at hpasses
      simp [Binding.report, Violation.new, hpasses]

/-- Any other one is reported as before. -/
theorem Binding.reportAtReturn_of_not_slipsOut {function : String} (h : b.slipsOut tree = false) :
    b.reportAtReturn function tree = b.report function (b.verdict tree) := by
  rw [Binding.reportAtReturn, h]
  rfl

namespace Tracked

variable {t t' : Tracked} {function : String}

/-- The violations of a function in which the open handles have met a `return`. -/
theorem violations_of_returns (function : String) (htree : t.scopes.Agrees t'.scopes)
    {event : Event} (hkind : event.kind = .earlyReturn)
    (hbindings : t'.bindings =
      t.bindings.map fun b => if b.isOpen t.scopes then b.record event else b) :
    t'.violations function = t.bindings.filterMap (·.reportAtReturn function t.scopes) := by
  rw [violations, hbindings, List.filterMap_map]
  congr 1
  funext b
  have hname : (if b.isOpen t.scopes then b.record event else b).name = b.name := by
    split <;> rfl
  rw [Function.comp_apply, Binding.verdict_record htree hkind, hname]
  rfl

/-- A `return` at the end adds one to the reports for a `return` for each handle that slips out. -/
theorem countP_reportAtReturn (function : String) (tree : ScopeTree) (bindings : List Binding) :
    (bindings.filterMap (·.reportAtReturn function tree)).countP (·.kind == .earlyReturn) =
      (bindings.filterMap fun b => b.report function (b.verdict tree)).countP
        (·.kind == .earlyReturn) + bindings.countP (·.slipsOut tree) := by
  -- a binding adds one report to a list or none
  have hcount : ∀ x : Option Violation, (x.toList).countP (·.kind == .earlyReturn) =
      if x.any (·.kind == .earlyReturn) then 1 else 0 := by
    intro x
    cases x <;> simp
  have hcons : ∀ (f : Binding → Option Violation) (b : Binding) (rest : List Binding),
      (b :: rest).filterMap f = (f b).toList ++ rest.filterMap f := by
    intro f b rest
    cases h : f b <;> simp [h]
  induction bindings with
  | nil => rfl
  | cons b rest ih =>
    rw [hcons, hcons, List.countP_append, List.countP_append, List.countP_cons, hcount, hcount, ih]
    cases hslips : b.slipsOut tree with
    | false =>
      rw [Binding.reportAtReturn_of_not_slipsOut hslips, if_neg Bool.false_ne_true]
      omega
    | true =>
      obtain ⟨hreported, hsilent⟩ := Binding.any_report_of_slipsOut function hslips
      rw [if_pos hreported, if_neg (by rw [hsilent]; exact Bool.false_ne_true), if_pos rfl]
      omega

/-- A `return` at the end changes no violation if and only if no handle slips out. -/
theorem violations_eq_iff
    (h : t'.violations function = t.bindings.filterMap (·.reportAtReturn function t.scopes)) :
    t'.violations function = t.violations function ↔
      ∀ b ∈ t.bindings, b.slipsOut t.scopes = false := by
  have hviolations : t.violations function =
      t.bindings.filterMap fun b => b.report function (b.verdict t.scopes) := rfl
  constructor
  · intro heq b hb
    -- equal lists have as many reports for a `return`
    have hcount := countP_reportAtReturn function t.scopes t.bindings
    rw [← h, ← hviolations, heq, Nat.left_eq_add, List.countP_eq_zero] at hcount
    simpa using hcount b hb
  · intro hnone
    rw [h, hviolations]
    exact List.filterMap_congr fun b hb =>
      Binding.reportAtReturn_of_not_slipsOut (hnone b hb)

end Tracked

namespace FunctionUnit

open Walk

variable {limits limits' : Limits} {names : Recognizers} {unit : FunctionUnit} {span : Span}
  {t : Tracked}

/-- The function with a `return` without values as its last statement. -/
def withReturn (unit : FunctionUnit) (span : Span) : FunctionUnit :=
  { unit with body := { unit.body with stmts := unit.body.stmts ++ [.returnStmt [] span] } }

theorem actions_withReturn (names : Recognizers) (unit : FunctionUnit) (span : Span) :
    (unit.withReturn span).actions names = unit.actions names ++
      ([.dropGuards, .count, .setSpan span, .handOut []] ++ [.exit .byReturn]) := by
  rw [actions, actions, withReturn, stmtsActions_append, ← List.append_assoc]
  rfl

/-- At the end of a function no function literal is open. -/
theorem inClosure_of_walk {w : Walk} (hwalk : unit.walk limits names = .ok w) :
    w.scopes.inClosure = false := by
  rw [ScopeTree.inClosure, (walk_closed hwalk).1, List.any_cons, List.any_nil,
    kind?_root hwalk]
  rfl

/-- What a `return` at the end of a function adds to its scopes and bindings. -/
theorem track_withReturn {t' : Tracked} (htrack : unit.track limits names = .ok t)
    (htrack' : (unit.withReturn span).track limits' names = .ok t') :
    t.scopes.Agrees t'.scopes ∧
    ∃ event : Event, event.kind = .earlyReturn ∧ event.span = span ∧
      event.scope = ScopeTree.root ∧ t'.bindings =
        t.bindings.map fun b => if b.isOpen t.scopes then b.record event else b := by
  obtain ⟨w, hwalk, rfl⟩ := exists_walk_of_track htrack
  obtain ⟨w', hwalk', rfl⟩ := exists_walk_of_track htrack'
  have hrun := run_of_walk hwalk
  have hrun' := run_of_walk hwalk'
  rw [actions_withReturn] at hrun'
  -- up to the `return` both are read alike, whatever the limits
  obtain ⟨v, hv, hreturn⟩ := run_append_eq_ok.mp hrun'
  obtain rfl : w = v := At.unique ⟨limits, hrun⟩ ⟨limits', hv⟩
  obtain ⟨u, hu, hexit⟩ := run_append_eq_ok.mp hreturn
  obtain ⟨hscopes, hbindings, hcontext, hopened, houter⟩ := run_before_exit hu
  obtain ⟨_, hexec, hdone⟩ := run_cons_eq_ok.mp hexit
  cases hdone
  -- the state in which the function is left
  obtain ⟨hstack, houtermost⟩ := walk_closed hwalk
  have hsound := unit.sound_actions limits names
  have hwf : w.WellFormed := wellFormed_of_walk hwalk
  have horderly := (hsound.ages hrun orderly_init).1
  have hcurrent : w.scopes.current = ScopeTree.root := by rw [ScopeTree.current, hstack]; rfl
  have hclosed : u.context.Outermost := by
    rw [hcontext]
    exact ⟨houtermost.closureDepth, houtermost.deferScope, houtermost.launches, houtermost.guarded⟩
  have huwf : u.WellFormed :=
    hwf.of_eq hscopes hbindings hopened (by rw [hcontext]) houter
  obtain ⟨event, hkind, hspan, hscope, htable, hterminated⟩ :=
    exit_at_end huwf (by rwa [hscopes, hbindings]) (by rw [hscopes, hstack]) hclosed
      (by rw [hscopes, inClosure_of_walk hwalk]) hexec
  rw [hscopes] at hterminated hscope htable
  rw [hbindings] at htable
  rw [hcontext] at hspan
  exact ⟨ScopeTree.agrees_of_markTerminated hwf.tree hcurrent hterminated,
    event, hkind, hspan, hscope.trans hcurrent, htable⟩

/-- A handle that slips out was acquired in an inner scope, or each of its commits stands in a
function literal or on a `defer` statement. -/
theorem directCommits_of_slipsOut (htrack : unit.track limits names = .ok t) {b : Binding}
    (hb : b ∈ t.bindings) (hslips : b.slipsOut t.scopes = true) :
    b.acquiredIn ≠ ScopeTree.root ∨ b.directCommits = [] := by
  obtain ⟨w, hwalk, rfl⟩ := exists_walk_of_track htrack
  simp only [Binding.slipsOut, Binding.isOpen, Bool.and_eq_true, Bool.not_eq_true'] at hslips
  obtain ⟨⟨⟨⟨_, hescaped⟩, hpath⟩, hnet⟩, hpasses⟩ := hslips
  by_cases hacquired : b.acquiredIn = ScopeTree.root
  · right
    obtain ⟨hloop, hbranch⟩ := Binding.of_passes hescaped hnet hpasses
    -- the function's own scope does not finalize the transaction, or it would not be open
    have hunfinished : b.finalizes w.scopes ScopeTree.root = false := by
      rw [Binding.guardedOnPath, Bool.or_eq_false_iff, Binding.finalizedOnPath,
        (walk_closed hwalk).1, List.any_cons, List.any_nil,
        Bool.or_false] at hpath
      exact hpath.1
    by_contra hcommits
    rw [finalizes_root hwalk hb hacquired hloop hbranch hcommits] at hunfinished
    cases hunfinished
  · exact Or.inl hacquired

/-- **A `return` at the end.** With a `return` without values as its last statement a function has
the same bindings in the same order, where the open handles have met that `return`. The reports on
them are the same except for the handles that slip out, each of which is reported for the `return`
and for nothing else; so all reports are the same exactly where no handle slips out. None does that
was acquired in the function's own scope and has a commit that is neither deferred nor in a function
literal. The limits under which the two functions are read need not be the same. -/
theorem violations_withReturn {t t' : Tracked} (htrack : unit.track limits names = .ok t)
    (htrack' : (unit.withReturn span).track limits' names = .ok t') :
    (∃ event : Event, event.kind = .earlyReturn ∧ event.span = span ∧
      event.scope = ScopeTree.root ∧ t'.bindings =
        t.bindings.map fun b => if b.isOpen t.scopes then b.record event else b) ∧
    (∀ function, t'.violations function =
      t.bindings.filterMap (·.reportAtReturn function t.scopes)) ∧
    (∀ function, t'.violations function = t.violations function ↔
      ∀ b ∈ t.bindings, b.slipsOut t.scopes = false) ∧
    ∀ b ∈ t.bindings, b.slipsOut t.scopes = true →
      b.acquiredIn ≠ ScopeTree.root ∨ b.directCommits = [] := by
  obtain ⟨htree, event, hkind, hspan, hscope, hbindings⟩ := track_withReturn htrack htrack'
  have hviolations := fun function =>
    Tracked.violations_of_returns function htree hkind hbindings
  exact ⟨⟨event, hkind, hspan, hscope, hbindings⟩, hviolations,
    fun function => Tracked.violations_eq_iff (hviolations function),
    fun b hb hslips => directCommits_of_slipsOut htrack hb hslips⟩

/-- A function that leaves it to a function literal to commit its transaction or to roll it back. -/
def settledByCallback : FunctionUnit where
  name := "Settle"
  body := {
    stmts := [
      .shortVarDecl [.ident "tx" {}, .ident "_" {}]
        [.call (.selector (.ident "db" {}) "Begin" {}) [] {}] {},
      .shortVarDecl [.ident "done" {}] [.funcLit [{ name := some "ok", type := "bool" }] {
        stmts := [.ifStmt {
          init := none
          cond := .ident "ok" {}
          consequence := {
            stmts := [.exprStmt (.call (.selector (.ident "tx" {}) "Commit" {}) [] {}) {}]
            span := {} }
          otherwise := some (.block {
            stmts := [.exprStmt (.call (.selector (.ident "tx" {}) "Rollback" {}) [] {}) {}]
            span := {} })
          span := {} }]
        span := {} } {}] {},
      .exprStmt (.call (.ident "use" {}) [.ident "done" {}] {}) {}]
    span := {} }

/-- The handle of that function slips out: with a `return` after its last statement it is reported,
without one it is not. -/
theorem violations_withReturn_settledByCallback :
    ∃ (t t' : Tracked) (b : Binding), settledByCallback.track {} {} = .ok t ∧
      (settledByCallback.withReturn ⟨1, 7⟩).track {} {} = .ok t' ∧ t.bindings = [b] ∧
      b.slipsOut t.scopes = true ∧ b.acquiredIn = ScopeTree.root ∧ b.directCommits = [] ∧
      t'.violations "Settle" = [Violation.new "Settle" "tx" .earlyReturn {}] ∧
      t'.violations "Settle" ≠ t.violations "Settle" := by
  have hwalk : ∃ (t t' : Tracked) (b : Binding), settledByCallback.track {} {} = .ok t ∧
      (settledByCallback.withReturn ⟨1, 7⟩).track {} {} = .ok t' ∧ t.bindings = [b] ∧
      b.slipsOut t.scopes = true ∧ b.acquiredIn = ScopeTree.root ∧
      b.reportAtReturn "Settle" t.scopes = some (Violation.new "Settle" "tx" .earlyReturn {}) :=
    ⟨_, _, _, rfl, rfl, rfl, rfl, rfl, rfl⟩
  obtain ⟨t, t', b, htrack, htrack', hbindings, hslips, hacquired, hreport⟩ := hwalk
  obtain ⟨-, hviolations, hsame, hcommits⟩ := violations_withReturn htrack htrack'
  have hb : b ∈ t.bindings := by rw [hbindings]; exact List.mem_singleton.mpr rfl
  refine ⟨t, t', b, htrack, htrack', hbindings, hslips, hacquired,
    (hcommits b hb hslips).resolve_left fun hne => hne hacquired, ?_, fun heq => ?_⟩
  · rw [hviolations, hbindings, List.filterMap_cons, hreport]
    rfl
  · rw [(hsame "Settle").mp heq b hb] at hslips
    cases hslips

/-- A function whose last statement is no `return` can have other violations with one. -/
theorem violations_withReturn_ne :
    ∃ t t' : Tracked, (∀ values span, settledByCallback.body.stmts.getLast? ≠
        some (.returnStmt values span)) ∧
      settledByCallback.track {} {} = .ok t ∧
      (settledByCallback.withReturn ⟨1, 7⟩).track {} {} = .ok t' ∧
      t.violations settledByCallback.name = [] ∧
      t'.violations settledByCallback.name = [Violation.new "Settle" "tx" .earlyReturn {}] :=
  ⟨_, _, by simp [settledByCallback], rfl, rfl, rfl, rfl⟩

end FunctionUnit

end TxLifecycle
