import Mathlib.Order.Bounds.Defs
import TxLifecycle.Proofs.Limits
import TxLifecycle.Proofs.Registers

/-!
# What limits a function asks for

Two limits bound the walk of a function: how many statements are counted, and how many scopes are
open at once. This file shows that they decide whether the walk succeeds and nothing else.

* `Walk.exec_ok_iff`: one action succeeds if it does not count a statement or open a scope where
  the limit is reached;
* `Walk.run_ok_iff`: so a run succeeds under all limits that are no smaller than the number of its
  statements and the largest number of scopes that it has open;
* `FunctionUnit.track_ok_iff_demand_le`: every function has least limits of this kind, and what
  the walk gives is the same under all limits above them.

Both numbers are read off the actions of the function, with no state at hand.
-/

namespace TxLifecycle

/-- How many scopes are open after the action, where there are `depth` before it. -/
def Action.depthAfter (depth : Nat) : Action → Nat
  | .enter _ | .enterArm _ | .openBody _ => depth + 1
  | .leave | .closeBody => depth - 1
  | _ => depth

/-- The largest number of scopes that are open after one was opened, where there are `depth` at
the beginning. It is zero where none is opened. -/
def peakDepth : Nat → List Action → Nat
  | _, [] => 0
  | depth, action :: rest =>
    max (if action.opens then depth + 1 else 0) (peakDepth (action.depthAfter depth) rest)

/-- Only what opens no scope has no largest number of open scopes. -/
theorem peakDepth_eq_zero_iff {depth : Nat} {actions : List Action} :
    peakDepth depth actions = 0 ↔ actions.countP (·.opens) = 0 := by
  induction actions generalizing depth with
  | nil => simp [peakDepth]
  | cons action rest ih =>
    rw [peakDepth, Nat.max_eq_zero_iff, ih, List.countP_cons]
    cases action.opens <;> simp

namespace Walk

variable {limits limits' : Limits} {w u v v' : Walk} {action : Action} {actions : List Action}

/-! ## Open scopes -/

/-- How an action changes the number of scopes that are open, and of those that there are. -/
theorem exec_depth (hindexed : w.Indexed) (h : w.exec limits action = .ok u) :
    u.scopes.depth = action.depthAfter w.scopes.depth ∧
      u.scopes.scopes.length = w.scopes.scopes.length + if action.opens then 1 else 0 := by
  have hopens : ∀ {kind : ScopeKind} {arm? : Option ConstructId} {context : Context}
      {outer : List Context}, w.Opens kind arm? context outer u →
      u.scopes.depth = w.scopes.depth + 1 ∧
        u.scopes.scopes.length = w.scopes.scopes.length + 1 := by
    intro kind arm? context outer hopens
    refine ⟨?_, hopens.tree.length⟩
    rw [ScopeTree.depth, hopens.tree.stack]
    rfl
  have hcloses : ∀ {context : Context} {outer : List Context}, w.Closes context outer u →
      u.scopes.depth = w.scopes.depth - 1 ∧
        u.scopes.scopes.length = w.scopes.scopes.length := by
    intro context outer hcloses
    obtain ⟨id, hstack⟩ := hcloses.stack
    refine ⟨?_, by rw [hcloses.scopes]⟩
    rw [ScopeTree.depth, ScopeTree.depth, hstack]
    rfl
  cases action with
  | enter kind => exact hopens (exec_enter h)
  | enterArm kind => exact hopens (exec_enterArm h)
  | openBody kind => exact hopens (exec_openBody h)
  | leave => exact hcloses (closes_of_leave h)
  | closeBody => exact hcloses (exec_closeBody h)
  | openConstruct kind hasFallback span | openGuard names | closeConstruct | closeGuard =>
    cases h
    exact ⟨rfl, rfl⟩
  | _ =>
    -- all others open and close nothing
    have hedits := exec_edits hindexed rfl h
    exact ⟨congrArg List.length hedits.stack, hedits.length⟩

section

variable (hsound : w.Sound limits actions) (h : w.run limits actions = .ok u)
include hsound h

/-- A run makes as many scopes as it opens. -/
theorem run_length :
    u.scopes.scopes.length = w.scopes.scopes.length + actions.countP (·.opens) := by
  induction actions generalizing w with
  | nil =>
    cases h
    rfl
  | cons action rest ih =>
    obtain ⟨v, hexec, h⟩ := run_cons_eq_ok.mp h
    rw [ih (hsound.2.2 v hexec) h, (exec_depth hsound.1.indexed hexec).2, List.countP_cons]
    omega

/-- No state on the way has more open scopes than the first state or the largest number. -/
theorem depth_le_peakDepth (rest : List Action) :
    u.scopes.depth ≤ max w.scopes.depth (peakDepth w.scopes.depth (actions ++ rest)) := by
  induction actions generalizing w with
  | nil =>
    cases h
    exact Nat.le_max_left _ _
  | cons action before ih =>
    obtain ⟨v, hexec, h⟩ := run_cons_eq_ok.mp h
    have hrest := ih (hsound.2.2 v hexec) h
    have hdepth := (exec_depth hsound.1.indexed hexec).1
    -- where the next state has more open scopes than this one, a scope was opened
    have hopened : action.depthAfter w.scopes.depth ≤ w.scopes.depth ∨
        action.opens = true ∧ action.depthAfter w.scopes.depth = w.scopes.depth + 1 := by
      cases action <;> simp [Action.depthAfter, Action.opens]
    rw [hdepth] at hrest
    rw [List.cons_append, peakDepth]
    rcases hopened with hle | ⟨hopens, heq⟩
    · omega
    · rw [if_pos hopens]
      omega

/-- Some state on the way has the largest number of open scopes, if a scope is opened at all. -/
theorem exists_depth_eq_peakDepth (hpeak : peakDepth w.scopes.depth actions ≠ 0) :
    ∃ before rest v, actions = before ++ rest ∧ w.run limits before = .ok v ∧
      v.scopes.depth = peakDepth w.scopes.depth actions := by
  induction actions generalizing w with
  | nil => exact absurd rfl hpeak
  | cons action tail ih =>
    obtain ⟨x, hexec, h⟩ := run_cons_eq_ok.mp h
    have hdepth := (exec_depth hsound.1.indexed hexec).1
    rw [peakDepth, ← hdepth] at hpeak ⊢
    by_cases hlater : (if action.opens then w.scopes.depth + 1 else 0)
        < peakDepth x.scopes.depth tail
    · obtain ⟨before, rest, v, rfl, hrun, hv⟩ := ih (hsound.2.2 x hexec) h (by omega)
      exact ⟨action :: before, rest, v, rfl, run_cons_eq_ok.mpr ⟨x, hexec, hrun⟩, by omega⟩
    · -- the scope that this action opens is as deep as any later one
      have hopens : action.opens = true := by
        cases hopens : action.opens with
        | true => rfl
        | false =>
          simp only [hopens, Bool.false_eq_true, if_false] at hlater hpeak
          omega
      refine ⟨[action], tail, x, rfl, run_single hexec, ?_⟩
      have hafter : x.scopes.depth = w.scopes.depth + 1 := by
        rw [hdepth]
        cases action <;> first | rfl | cases hopens
      rw [if_pos hopens] at hlater ⊢
      omega

end

/-! ## Which limits suffice -/

/-- An action that can fail at the limits only fails where it counts a statement or opens a scope
and the limit is reached. -/
theorem exec_ok_iff
    (hbounded : ∀ limits', limits ≤ limits' → Bounded limits' (w.exec limits' action)) :
    (∃ u, w.exec limits action = .ok u) ↔
      (action = .count → w.steps < limits.maxSteps) ∧
      (action.opens = true → w.scopes.depth < limits.maxDepth) := by
  constructor
  · rintro ⟨u, hexec⟩
    exact room_of_exec hexec
  · rintro ⟨hsteps, hdepth⟩
    exact exec_ok_of_room hsteps hdepth hbounded

/-- Actions that can fail at the limits only succeed if the limits leave room for all statements
and for the largest number of open scopes. -/
theorem run_ok_iff (hsound : ∀ limits', limits ≤ limits' → w.Sound limits' actions)
    (hsteps : w.steps ≤ limits.maxSteps) :
    (∃ u, w.run limits actions = .ok u) ↔
      w.steps + actions.count .count ≤ limits.maxSteps ∧
      peakDepth w.scopes.depth actions ≤ limits.maxDepth := by
  induction actions generalizing w with
  | nil => simp [peakDepth, hsteps]
  | cons action rest ih =>
    have hiff := exec_ok_iff fun limits' hle => (hsound limits' hle).2.1
    rw [List.count_cons, peakDepth]
    cases hexec : w.exec limits action with
    | error e =>
      -- a limit is reached, and what the whole list asks for is above it
      have hfails : ¬ ∃ u, w.run limits (action :: rest) = .ok u := by
        rintro ⟨u, hrun⟩
        obtain ⟨v, hv, -⟩ := run_cons_eq_ok.mp hrun
        rw [hexec] at hv
        cases hv
      refine iff_of_false hfails fun hroom => ?_
      obtain ⟨u, hu⟩ := hiff.mpr ⟨fun hcount => by simp [hcount] at hroom; omega,
        fun hopens => by rw [if_pos hopens] at hroom; omega⟩
      rw [hexec] at hu
      cases hu
    | ok v =>
      obtain ⟨hcount, hopens⟩ := hiff.mp ⟨v, hexec⟩
      have hwf := (hsound limits limits.le_refl).1
      have hvSteps := exec_steps hexec
      have hlater : v.steps ≤ limits.maxSteps := by
        rw [hvSteps]
        split
        · rename_i hbeq
          exact hcount (eq_of_beq hbeq)
        · exact hsteps
      have hrest := ih (fun limits' hle => (hsound limits' hle).2.2 v (exec_mono hle hexec)) hlater
      have hrun : (∃ u, w.run limits (action :: rest) = .ok u) ↔
          ∃ u, v.run limits rest = .ok u := by
        rw [run_cons, hexec]
        rfl
      rw [hrun, hrest, hvSteps, (exec_depth hwf.indexed hexec).1]
      have hroom : (if action.opens then w.scopes.depth + 1 else 0) ≤ limits.maxDepth := by
        split
        · rename_i h
          exact hopens h
        · exact Nat.zero_le _
      omega

/-- Limits under which a run succeeds do not change where it ends. -/
theorem run_unique (h : w.run limits actions = .ok u) (h' : w.run limits' actions = .ok v) :
    u = v := by
  -- what succeeds under some limits also does under larger ones
  let both : Limits := ⟨max limits.maxSteps limits'.maxSteps, max limits.maxDepth limits'.maxDepth⟩
  have hleft : w.run both actions = .ok u :=
    run_mono ⟨Nat.le_max_left _ _, Nat.le_max_left _ _⟩ h
  have hright : w.run both actions = .ok v :=
    run_mono ⟨Nat.le_max_right _ _, Nat.le_max_right _ _⟩ h'
  exact Except.ok.inj (hleft.symm.trans hright)

/-- Where a run is allowed fewer statements, it ends in the same state or at that limit. -/
theorem run_of_run_maxSteps {n : Nat}
    (h : w.run { limits with maxSteps := n } actions = .ok u) : w.run limits actions = .ok u ∨
      w.run limits actions = .error (.stepLimitExceeded limits.maxSteps) := by
  induction actions generalizing w with
  | nil => exact Or.inl h
  | cons action rest ih =>
    obtain ⟨v, hexec, h⟩ := run_cons_eq_ok.mp h
    rw [run_cons]
    by_cases hcount : action = .count
    · subst hcount
      obtain ⟨-, rfl⟩ := of_exec_count hexec
      rw [exec, countStep]
      split
      · exact Or.inr rfl
      · exact ih h
    · -- only the beginning of a statement looks at that limit
      have hsame : w.exec limits action = w.exec { limits with maxSteps := n } action :=
        exec_congr_limits (fun heq => absurd heq hcount) fun _ => .inl rfl
      rw [hsame, hexec]
      exact ih h

end Walk

namespace FunctionUnit

variable (names : Recognizers) (unit : FunctionUnit)

/-- The least limits under which the function is read to its end: the number of its statements,
and the largest number of scopes that are open after one was opened. -/
def demand : Limits where
  maxSteps := (unit.actions names).count .count
  maxDepth := peakDepth ScopeTree.empty.depth (unit.actions names)

/-- The numbers of scopes that are open at once in the states of the walk, under whatever limits
it comes there. -/
def depths : Set Nat :=
  {depth | ∃ limits before rest w, unit.actions names = before ++ rest ∧
    Walk.run limits {} before = .ok w ∧ w.scopes.depth = depth}

variable {names unit}

/-- The walk of a function that was read whole runs its actions. -/
theorem walk_eq_run (hread : unit.nestingExceeded = false) (limits : Limits) :
    unit.walk limits names = Walk.run limits {} (unit.actions names) := by
  rw [walk, hread]
  rfl

/-- A function is read to its end under all limits that are no smaller than what it asks for. -/
theorem walk_ok_iff (hread : unit.nestingExceeded = false) (limits : Limits) :
    (∃ w, unit.walk limits names = .ok w) ↔ unit.demand names ≤ limits := by
  have hsound : ∀ limits', limits ≤ limits' → ({} : Walk).Sound limits' (unit.actions names) :=
    fun limits' _ => unit.sound_actions limits' names
  rw [walk_eq_run hread, Walk.run_ok_iff hsound (Nat.zero_le _), Nat.zero_add]
  rfl

/-- Where a scope is opened, the largest number of open scopes is reached and never exceeded. -/
theorem isGreatest_depths {limits : Limits} {w : Walk}
    (hrun : Walk.run limits {} (unit.actions names) = .ok w)
    (hopened : (unit.demand names).maxDepth ≠ 0) :
    IsGreatest (unit.depths names) (unit.demand names).maxDepth := by
  constructor
  · obtain ⟨before, rest, v, hsplit, hv, hdepth⟩ :=
      Walk.exists_depth_eq_peakDepth (unit.sound_actions limits names) hrun hopened
    exact ⟨limits, before, rest, v, hsplit, hv, hdepth⟩
  · rintro depth ⟨limits', before, rest, v, hsplit, hv, rfl⟩
    have hsound := unit.sound_actions limits' names
    rw [hsplit] at hsound
    have hle := Walk.depth_le_peakDepth hsound.take hv rest
    rw [← hsplit] at hle
    have hstart : ({} : Walk).scopes.depth = 1 := rfl
    have hpeak : (unit.demand names).maxDepth
        = peakDepth ({} : Walk).scopes.depth (unit.actions names) := rfl
    omega

variable (names unit) in
/-- **Limits decide whether a function is analysed, never what is found.** Every function that was
read whole has least limits: under them and all larger ones the walk succeeds and gives one and the
same result, under all others it fails. The least number of open scopes is zero if the function's
own scope is the only one there is, and else the largest number that are open at once. -/
theorem track_ok_iff_demand_le (hread : unit.nestingExceeded = false) :
    ∃ tracked : Tracked,
      (∀ limits result, unit.track limits names = .ok result ↔
        ((unit.demand names).maxSteps ≤ limits.maxSteps ∧
          (unit.demand names).maxDepth ≤ limits.maxDepth) ∧ result = tracked) ∧
      (tracked.scopes.scopes.length = 1 → (unit.demand names).maxDepth = 0) ∧
      (tracked.scopes.scopes.length ≠ 1 →
        IsGreatest (unit.depths names) (unit.demand names).maxDepth) := by
  obtain ⟨w, hwalk⟩ : ∃ w, unit.walk (unit.demand names) names = .ok w :=
    (walk_ok_iff hread _).mpr (Limits.le_refl _)
  have hrun := hwalk
  rw [walk_eq_run hread] at hrun
  -- the tree holds the scopes that were opened and the function's own one
  have hlength : w.scopes.scopes.length = 1 ↔ (unit.demand names).maxDepth = 0 := by
    have hlength := Walk.run_length (unit.sound_actions (unit.demand names) names) hrun
    have hstart : ({} : Walk).scopes.scopes.length = 1 := rfl
    rw [hstart] at hlength
    rw [demand, peakDepth_eq_zero_iff]
    omega
  refine ⟨⟨w.scopes, w.bindings⟩, fun limits result => ?_, hlength.mp,
    fun hopened => isGreatest_depths hrun (mt hlength.mpr hopened)⟩
  constructor
  · intro htrack
    obtain ⟨w', hwalk', rfl⟩ := exists_walk_of_track htrack
    refine ⟨(walk_ok_iff hread limits).mp ⟨w', hwalk'⟩, ?_⟩
    rw [walk_eq_run hread] at hwalk'
    rw [Walk.run_unique hrun hwalk']
  · rintro ⟨hle, rfl⟩
    obtain ⟨w', hwalk'⟩ := (walk_ok_iff hread limits).mpr hle
    have hrun' := hwalk'
    rw [walk_eq_run hread] at hrun'
    rw [track, hwalk', Walk.run_unique hrun hrun']
    rfl

/-- A function that declares its parameter anew in a block of a loop. -/
def pollingLoop : FunctionUnit where
  name := "Poll"
  params := [⟨some "db", "*sql.DB"⟩]
  body := {
    stmts := [.forStmt none none none {
      stmts := [.block {
        stmts := [.shortVarDecl [.ident "db" {}] [.call (.ident "next" {}) [] {}] {}]
        span := {} }]
      span := {} } {}]
    span := {} }

/-- Three statements and three open scopes are what that function asks for. -/
theorem track_ok_iff_demand_le_pollingLoop :
    pollingLoop.nestingExceeded = false ∧ ∃ tracked : Tracked,
      (∀ limits result, pollingLoop.track limits {} = .ok result ↔
        (3 ≤ limits.maxSteps ∧ 3 ≤ limits.maxDepth) ∧ result = tracked) ∧
      IsGreatest (pollingLoop.depths {}) 3 := by
  refine ⟨rfl, ?_⟩
  obtain ⟨tracked, htrack, -, hdepths⟩ :=
    track_ok_iff_demand_le {} pollingLoop rfl
  have hdemand : pollingLoop.demand {} = ⟨3, 3⟩ := by decide +kernel
  rw [hdemand] at htrack hdepths
  refine ⟨tracked, htrack, hdepths ?_⟩
  -- under the standard limits the walk makes two scopes
  obtain ⟨-, rfl⟩ := (htrack {} _).mp rfl
  decide +kernel

end FunctionUnit

end TxLifecycle
