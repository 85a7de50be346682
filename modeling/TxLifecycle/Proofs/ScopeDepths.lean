import TxLifecycle.Proofs.Demand

/-!
# Open scopes and nested syntax

One setting limits two things: how deeply the parts of a function nest when it is read from its
source, and how many scopes are open at once when it is walked. A scope is opened by a statement or
an expression that takes a level of nesting, so the first number bounds the second.

* `Moves`: actions that lead from one number of open scopes to another and stay below a bound;
* `Flow.moves`: a flow closes the scopes that it opens, and has no more open than fit;
* `FunctionUnit.track_ne_nestingLimitExceeded`: with one scope more than there are levels, the walk
  never stops at the limit;
* `FunctionUnit.track_ok_iff_statements_le`: then only the number of statements can stop it.
-/

namespace TxLifecycle

/-- The actions lead from `d` open scopes to `d'`, and there are never more than `n` after one was
opened. -/
def Moves (n d d' : Nat) (actions : List Action) : Prop :=
  actions.foldl Action.depthAfter d = d' ∧ peakDepth d actions ≤ n

namespace Moves

variable {n d d' d'' : Nat} {action : Action} {a b : List Action}

theorem nil : Moves n d d [] :=
  ⟨rfl, Nat.zero_le n⟩

theorem opening (hopens : action.opens = true) (hlt : d < n) (h : Moves n (d + 1) d' a) :
    Moves n d d' (action :: a) := by
  have hafter : action.depthAfter d = d + 1 := by
    cases action <;> first | rfl | cases hopens
  refine ⟨(congrArg (a.foldl _) hafter).trans h.1, ?_⟩
  rw [peakDepth, hopens, hafter]
  exact Nat.max_le.mpr ⟨hlt, h.2⟩

/-- An action that opens and closes no scope. -/
theorem keep (h : Moves n d d' a)
    (hkeeps : action.opens = false ∧ action.depthAfter d = d := by exact ⟨rfl, rfl⟩) :
    Moves n d d' (action :: a) := by
  refine ⟨(congrArg (a.foldl _) hkeeps.2).trans h.1, ?_⟩
  rw [peakDepth, hkeeps.1, hkeeps.2]
  exact Nat.max_le.mpr ⟨Nat.zero_le n, h.2⟩

theorem leave (h : Moves n d d' a) : Moves n (d + 1) d' (.leave :: a) :=
  h

theorem append (ha : Moves n d d' a) (hb : Moves n d' d'' b) : Moves n d d'' (a ++ b) := by
  induction a generalizing d with
  | nil => rwa [← ha.1] at hb
  | cons action rest ih =>
    obtain ⟨hopen, hrest⟩ := Nat.max_le.mp ha.2
    obtain ⟨hend, hpeak⟩ := ih ⟨ha.1, hrest⟩
    exact ⟨hend, Nat.max_le.mpr ⟨hopen, hpeak⟩⟩

theorem inner (hinner : ∀ action ∈ a, action.isInner = true) : Moves n d d a := by
  induction a with
  | nil => exact nil
  | cons action rest ih =>
    obtain ⟨haction, hrest⟩ := List.forall_mem_cons.mp hinner
    refine keep (ih hrest) ?_
    cases action <;> first | exact ⟨rfl, rfl⟩ | cases haction

end Moves

open Moves in
/-- **Scopes are open one inside the other.** A flow closes the scopes that it opens. -/
theorem Flow.moves {shape : Shape} {flow : Flow shape} {n d : Nat} (h : d + flow.levels ≤ n) :
    Moves n d d flow.actions := by
  induction flow generalizing d with
  | skip | jump | noArm => exact nil
  | act action plain =>
    exact inner (List.forall_mem_singleton.mpr (Action.isInner_of_isPlain plain))
  | seq first second ihFirst ihSecond =>
    simp only [levels] at h
    exact (ihFirst (by omega)).append (ihSecond (by omega))
  | block body ih | literal launch body ih =>
    simp only [levels] at h
    exact (opening rfl (by omega) (ih (by omega))).append nil
  | loop head body ihHead ihBody =>
    simp only [levels] at h
    exact ((ihHead (by omega)).append (opening rfl (by omega) (ihBody (by omega)))).append nil
  | conditional take head names hasElse span consequence alternative ihHead ihThen ihElse =>
    simp only [levels] at h
    have harm : Moves n d (d + 1) (.enterArm .ifBranch :: consequence.actions) :=
      opening rfl (by omega) (ihThen (by omega))
    exact append (append (append (keep (ihHead (by omega))) (keep (keep harm)))
      (leave (keep (ihElse (by omega))))) (keep nil)
  | clauses kind hasDefault span arms ih | arguments args ih =>
    exact append (keep (ih h)) (keep nil)
  | launched span call finalizes func ih =>
    simp only [levels] at h
    exact append (append (opening rfl (by omega) (inner fun a ha =>
      Action.isInner_of_isFinalize (finalizes a ha))) (ih (by omega))) nil
  | deferral calls deferred evaluated ih =>
    exact append (keep (inner fun a ha => Action.isInner_of_isDeferCall (deferred a ha))) (ih h)
  | deferredLiteral evaluated body ihEvaluated ihBody =>
    simp only [levels] at h
    exact append (append (keep (ihEvaluated (by omega)))
      (opening rfl (by omega) (ihBody (by omega)))) nil
  | arm kind isArm body rest ihBody ihRest =>
    simp only [levels] at h
    have hbody : Moves n d (d + 1) (.enterArm kind :: body.actions) :=
      opening rfl (by omega) (ihBody (by omega))
    exact hbody.append (leave (ihRest (by omega)))

namespace FunctionUnit

variable {limits : Limits} {names : Recognizers} {unit : FunctionUnit}

/-- At most one scope more is open at once than the function has levels. -/
theorem demand_maxDepth_le (names : Recognizers) (unit : FunctionUnit) :
    (unit.demand names).maxDepth ≤ unit.size.levels + 1 := by
  have hmoves : Moves (unit.size.levels + 1) 1 1 (unit.flow names).actions :=
    Flow.moves (by have := (unit.spells names).levels; omega)
  rw [flow_actions] at hmoves
  exact hmoves.2

/-- **What is read whole is not too deep to be walked.** A function that was read whole never stops
the walk at the limit of open scopes, if this is larger than the number of its levels. -/
theorem track_ne_nestingLimitExceeded (hread : unit.nestingExceeded = false)
    (hlevels : unit.size.levels + 1 ≤ limits.maxDepth) (limit : Nat) :
    unit.track limits names ≠ .error (.nestingLimitExceeded limit) := by
  -- with room for all statements the walk would succeed
  obtain ⟨w, hw⟩ :=
    (walk_ok_iff hread { limits with maxSteps := (unit.demand names).maxSteps }).mpr
      ⟨Nat.le_refl _, Nat.le_trans (demand_maxDepth_le names unit) hlevels⟩
  rw [walk_eq_run hread] at hw
  rw [track, walk_eq_run hread]
  intro herror
  rcases Walk.run_of_run_maxSteps hw with h | h <;>
  · rw [h] at herror
    cases herror

/-- The loop, its block, the declaration in it, the call and its function are five levels, one
inside the other. -/
theorem track_ne_nestingLimitExceeded_pollingLoop : pollingLoop.size.levels = 5 ∧
    pollingLoop.track ⟨3, 6⟩ {} ≠ .error (.nestingLimitExceeded 6) := by
  have hlevels : pollingLoop.size.levels = 5 := by decide +kernel
  exact ⟨hlevels, track_ne_nestingLimitExceeded rfl (hlevels ▸ Nat.le_refl 6) 6⟩

/-- **Every statement is read once.** Let no more scopes be open at once than the limit allows, and
let no statement stand in a target that is not read. Then the function is read to its end if it has
no more statements than the limit allows, and otherwise the walk stops at that limit. -/
theorem track_ok_iff_statements_le (hread : unit.nestingExceeded = false)
    (hdepth : (unit.demand names).maxDepth ≤ limits.maxDepth)
    (hwhole : unit.size.skipped names = 0) :
    ((∃ tracked, unit.track limits names = .ok tracked) ↔
      unit.size.statements ≤ limits.maxSteps) ∧
    (limits.maxSteps < unit.size.statements →
      unit.track limits names = .error (.stepLimitExceeded limits.maxSteps)) := by
  have hsteps : (unit.demand names).maxSteps = unit.size.statements := by
    have hcounts := (unit.spells names).counts
    rwa [hwhole, Nat.add_zero] at hcounts
  have hiff : (∃ w, unit.walk limits names = .ok w) ↔ unit.demand names ≤ limits :=
    walk_ok_iff hread limits
  -- with room for all statements the walk succeeds
  obtain ⟨w, hw⟩ := (walk_ok_iff hread { limits with maxSteps := unit.size.statements }).mpr
    ⟨Nat.le_of_eq hsteps, hdepth⟩
  rw [walk_eq_run hread] at hw hiff
  rw [track, walk_eq_run hread, ← hsteps]
  rcases Walk.run_of_run_maxSteps hw with h | h
  · have hle := (hiff.mp ⟨w, h⟩).1
    rw [h]
    exact ⟨⟨fun _ => hle, fun _ => ⟨_, rfl⟩⟩, fun hlt => absurd hle (Nat.not_le.mpr hlt)⟩
  · rw [h] at hiff ⊢
    refine ⟨⟨fun hok => ?_, fun hle => ?_⟩, fun _ => rfl⟩
    · obtain ⟨_, hok⟩ := hok
      cases hok
    · obtain ⟨_, hok⟩ := hiff.mpr ⟨hle, hdepth⟩
      cases hok

/-- The loop, its block and the declaration in it are three statements, which two steps do not
reach. -/
theorem track_ok_iff_statements_le_pollingLoop :
    pollingLoop.size.statements = 3 ∧ pollingLoop.size.skipped {} = 0 ∧
      (∃ tracked, pollingLoop.track ⟨3, 10⟩ {} = .ok tracked) ∧
      pollingLoop.track ⟨2, 10⟩ {} = .error (.stepLimitExceeded 2) := by
  have hcount : pollingLoop.size.statements = 3 := by decide +kernel
  have hwhole : pollingLoop.size.skipped {} = 0 := by decide +kernel
  have hdepth : (pollingLoop.demand {}).maxDepth ≤ 10 := by decide +kernel
  have hspec := fun limits : Limits => @track_ok_iff_statements_le limits {} pollingLoop rfl
  obtain ⟨hok, -⟩ := hspec ⟨3, 10⟩ hdepth hwhole
  obtain ⟨-, hfull⟩ := hspec ⟨2, 10⟩ hdepth hwhole
  exact ⟨hcount, hwhole, hok.mpr (Nat.le_of_eq hcount), hfull (hcount ▸ Nat.lt_succ_self 2)⟩

end FunctionUnit

end TxLifecycle
