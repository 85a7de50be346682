import TxLifecycle.Proofs.Following

/-!
# No leaking return is accepted

A `return` statement is read while constructs around it are still open: the arms of such a construct
are not all known, and yet the walk takes the ones that it has seen for all there are. This file
shows that nothing is lost by that.

* `Walk.covered_of_aligned`: coverage that rests on an open construct rests on an open arm of it, or
  the path has left the function before;
* `Walk.exists_recorded_of_exposed`: an exit leaves an event on every exposed binding;
* `FunctionUnit.leaking_return_recorded`: where the walk records no early return, every path that
  has acquired the binding has also taken care of it.
-/

namespace TxLifecycle

namespace Walk

variable {limits : Limits} {w w' u v : Walk} {id : BindingId} {b : Binding} {history : List Step}

/-! ## Coverage while constructs are open -/

/-- Coverage that takes the known arms of open constructs for all of their arms. Either it does not
rest on such a construct, or some open scope is covered or left without one. -/
theorem covered_of_aligned (haligned : w.Aligned w.constructs) {direct : ScopeId → Prop}
    {scope : ScopeId} (h : w.scopes.Covered [] direct scope) :
    w.scopes.Covered w.constructs direct scope ∨
      ∃ t ∈ w.scopes.stack, w.scopes.Covered w.constructs direct t ∨ w.scopes.Terminated t := by
  induction h with
  | direct h => exact Or.inl (.direct h)
  | block hmem hkind _ ih =>
    rcases ih with hcovered | hopen
    · exact Or.inl (.block hmem hkind hcovered)
    · exact Or.inr hopen
  | @branch scope c k hholds hfallback hnonempty _ ih =>
    by_cases hopen : ∃ t ∈ w.scopes.stack,
        w.scopes.Covered w.constructs direct t ∨ w.scopes.Terminated t
    · exact Or.inr hopen
    · -- an arm that is being read would be covered or left itself
      have hclosed : k ∉ w.constructs := by
        intro hk
        obtain ⟨d, arm, hd, harm, hstack⟩ := haligned k hk
        obtain rfl : c = d := Option.some.inj (hholds.get.symm.trans hd)
        refine hopen ⟨arm, hstack, ?_⟩
        by_cases ht : w.scopes.Terminated arm
        · exact Or.inr ht
        · exact Or.inl ((ih arm harm ht).resolve_right hopen)
      refine Or.inl (.branch ⟨hholds.get, hclosed, hholds.owner⟩ hfallback hnonempty ?_)
      intro arm harm hrunning
      exact (ih arm harm hrunning).resolve_right hopen

/-- A binding that some open scope finalizes is settled on every path that leads here. -/
theorem Following.not_unsettled (h : Following 0 history w) (hready : w.Ready .code)
    (hget : w.bindings[id]? = some b) (hpath : b.finalizedOnPath w.scopes = true) :
    ¬ Unsettled (some id) history := by
  intro hunsettled
  have hdirect : w.FinalizedIn (some id) = (b.finalizedIn · = true) :=
    funext fun scope => propext (finalizedIn_iff hget)
  have huncovered : ∀ t ∈ w.scopes.stack,
      ¬ w.scopes.Covered w.constructs (b.finalizedIn · = true) t := by
    intro t ht hcovered
    refine h.uncovered (some id) hunsettled t ht (Nat.zero_le t) ?_
    rw [Walk.Covered, hdirect]
    exact hcovered
  obtain ⟨scope, hscope, hfinalizes⟩ := List.any_eq_true.mp hpath
  have hcovered := (Binding.finalizes_iff_covered hready.wellFormed.tree.ordered).mp hfinalizes
  rcases covered_of_aligned hready.aligned hcovered with hcovered | ⟨t, ht, hcovered | hterminated⟩
  · exact huncovered scope hscope hcovered
  · exact huncovered t ht hcovered
  · exact h.running t ht (Nat.zero_le t) hterminated

/-- A `defer` statement in an open scope that takes care of a binding was executed on every path
that leads here. -/
theorem Following.exists_defers (h : Following 0 history w) (hget : w.bindings[id]? = some b)
    {event : Event} (hevent : event ∈ b.events) (hkind : event.kind.isDeferred = true)
    (hopen : w.scopes.isOnStack event.scope = true) : ∃ step ∈ history, step.Defers id := by
  have hscope : event.scope ∈ w.scopes.stack := by
    simpa [ScopeTree.isOnStack] using hopen
  refine h.deferred id event.scope hscope (Nat.zero_le event.scope) ⟨event, ?_, hkind, rfl⟩
  rw [eventsOf_eq hget]
  exact hevent

/-! ## Exposed bindings -/

/-- An exit outside function literals leaves an event on every exposed binding. -/
theorem exists_recorded_of_exposed {how : Exit} (hwf : w.WellFormed)
    (hexec : w.exec limits (.exit how) = .ok w') (houtside : w.scopes.inClosure = false)
    (hget : w.bindings[id]? = some b) (hexposed : id ∈ w.exposed) :
    ∃ event ∈ w.recorded w' id, event.kind = how.event := by
  obtain ⟨event, hkind, -, -, -, htable, -⟩ := exec_exit hwf houtside hexec
  have hget' : w'.bindings[id]? = some (b.record event) := by simp [htable, hget, hexposed]
  refine ⟨event, ?_, hkind⟩
  simp [Walk.recorded, eventsOf_eq hget, eventsOf_eq hget', Binding.record]

/-- A visible binding that is not exposed has been handed over, stands in its own error check, or
some open scope takes care of it. -/
theorem cases_of_not_exposed (hindexed : w.Indexed) (hget : w.bindings[b.id]? = some b)
    (hresolve : w.resolve b.name = some b.id) (hexposed : b.id ∉ w.exposed) :
    b.isEscaped = true ∨ (∃ guards ∈ w.context.guarded, b.id ∈ guards) ∨
      b.guardedOnPath w.scopes = true := by
  cases hescaped : b.isEscaped with
  | true => exact Or.inl rfl
  | false =>
    by_cases hguarded : ∃ guards ∈ w.context.guarded, b.id ∈ guards
    · exact Or.inr (Or.inl hguarded)
    · have hguard : ∀ guards ∈ w.context.guarded, b.id ∉ guards :=
        fun guards hguards hmem => hguarded ⟨guards, hguards, hmem⟩
      rw [mem_exposed_iff hindexed hget] at hexposed
      exact Or.inr (Or.inr (Bool.of_not_eq_false fun hpath =>
        hexposed ⟨hresolve, hescaped, hguard, hpath⟩))

/-- What takes care of a binding at this point has been executed on every path that leads here. -/
theorem Following.cases_of_guardedOnPath (h : Following 0 history w) (hready : w.Ready .code)
    (hget : w.bindings[id]? = some b) (hguarded : b.guardedOnPath w.scopes = true) :
    ¬ Unsettled (some id) history ∨ ∃ step ∈ history, step.Defers id := by
  rcases Bool.or_eq_true_iff.mp hguarded with hpath | hdeferred
  · exact Or.inl (h.not_unsettled hready hget hpath)
  · obtain ⟨event, hevent, hkind⟩ := List.any_eq_true.mp hdeferred
    obtain ⟨hkind, hopen⟩ := Bool.and_eq_true_iff.mp hkind
    exact Or.inr (h.exists_defers hget hevent hkind hopen)

end Walk

/-- A binding that is settled after an acquisition has been finalized since. -/
theorem exists_finalizes_of_not_unsettled {id : BindingId} {earlier later : List Step} {site : Step}
    (h : ¬ Unsettled (some id) (earlier ++ site :: later)) (hsite : site.Acquires id) :
    ∃ step ∈ later, step.Finalizes id := by
  apply Classical.byContradiction
  intro hnone
  refine h ⟨earlier ++ [site], later, by simp, Or.inr ⟨earlier, site, id, rfl, rfl, hsite⟩, ?_⟩
  intro step hstep i hi hfinalizes
  cases hi
  exact hnone ⟨step, hstep, hfinalizes⟩

namespace FunctionUnit

open Walk

variable {limits : Limits} {names : Recognizers} {unit : FunctionUnit} {w w' : Walk} {b : Binding}
  {before : List Action}

/-- A path that has come to an exit has been followed up to there, in the state in which the walk
comes to it. -/
theorem following_of_runs {action : Action} {path : List Step}
    (hrun : Walk.run limits {} before = .ok w)
    (hpath : (unit.flow names).Runs [] (path ++ [.did before action]) .stops) :
    w.Ready .code ∧ w.Following 0 path := by
  -- the walk need not succeed beyond the exit, so the function is read under larger limits
  obtain ⟨limits', w', hle, hwalks⟩ := exists_walks limits names unit
  have hhalted := hpath.reached hwalks rfl .init
  obtain ⟨steps, before', action', u, heq, hu, hready, hfollowing⟩ := hhalted
  obtain ⟨rfl, hlast⟩ := List.append_inj' heq rfl
  obtain ⟨rfl, rfl⟩ : before = before' ∧ action = action' := by simpa using hlast
  obtain rfl : w = u := At.unique ⟨limits, hrun⟩ ⟨limits', hu⟩
  exact ⟨hready, hfollowing⟩

/-- A step of the function that finalizes a binding calls a commit or rollback method on the
variable of that name. -/
theorem finalize_of_finalizes {rest : List Action} (hactions : unit.actions names = before ++ rest)
    (hrun : Walk.run limits {} before = .ok w) (hget : w.bindings[b.id]? = some b) {step : Step}
    (hstep : step.Within [] (unit.flow names).actions) (hfinalizes : step.Finalizes b.id) :
    ∃ before' commit, step = .did before' (.finalize b.name commit) := by
  obtain ⟨limits', w', hle, hwalks⟩ := exists_walks limits names unit
  have hsound : ({} : Walk).Sound limits' (unit.flow names).actions :=
    (unit.flow names).sound .init
  obtain ⟨c, before', commit, hc, rfl⟩ := name_of_finalizes rfl hsound hwalks.run hstep hfinalizes
  -- the binding has kept its name from this state to the end of the function
  have hrest := hwalks.run
  rw [flow_actions, hactions] at hsound hrest
  obtain ⟨v, hv, hrest⟩ := run_append_eq_ok.mp hrest
  obtain rfl : w = v := At.unique ⟨limits, hrun⟩ ⟨limits', hv⟩
  obtain ⟨b', hb', hname⟩ := (hsound.drop hv).keepsNames hrest b.id b hget
  obtain rfl : c = b' := Option.some.inj (hc.symm.trans hb')
  rw [← hname]
  exact ⟨before', commit, rfl⟩

/-- No leaking `return` is accepted. Let the walk come to a `return` statement outside function
literals and record no early return for a visible binding. Then the binding has been handed over,
or it stands in the check of its acquisition error, or every path to the statement that has acquired
it has finalized it since, or has executed a `defer` statement that will. -/
theorem leaking_return_recorded {before rest : List Action}
    (hactions : unit.actions names = before ++ .exit .byReturn :: rest)
    (hrun : Walk.run limits {} before = .ok w)
    (hexec : w.exec limits (.exit .byReturn) = .ok w') (houtside : w.scopes.inClosure = false)
    (hb : b ∈ w.bindings) (hresolve : w.resolve b.name = some b.id)
    (hquiet : ∀ event ∈ w.recorded w' b.id, event.kind ≠ .earlyReturn) :
    b.isEscaped = true ∨ (∃ guards ∈ w.context.guarded, b.id ∈ guards) ∨
      ∀ path, (unit.flow names).Runs [] (path ++ [.did before (.exit .byReturn)]) .stops →
        ∀ earlier site later, path = earlier ++ site :: later → site.Acquires b.id →
          (∃ before' commit, Step.did before' (.finalize b.name commit) ∈ later) ∨
            ∃ step ∈ path, step.Defers b.id := by
  have hwf := wellFormed_of_run hactions hrun
  have hget : w.bindings[b.id]? = some b := by
    obtain ⟨i, hi⟩ := List.mem_iff_getElem?.mp hb
    rw [hwf.indexed hi]
    exact hi
  have hexposed : b.id ∉ w.exposed := by
    intro hmem
    obtain ⟨event, hevent, hkind⟩ := exists_recorded_of_exposed hwf hexec houtside hget hmem
    exact hquiet event hevent hkind
  rcases cases_of_not_exposed hwf.indexed hget hresolve hexposed with
    hescaped | hguards | hguarded
  · exact Or.inl hescaped
  · exact Or.inr (Or.inl hguards)
  · right; right
    rintro path hpath earlier site later rfl hsite
    obtain ⟨hready, hfollowing⟩ := following_of_runs hrun hpath
    rcases hfollowing.cases_of_guardedOnPath hready hget hguarded with hsettled | hdeferred
    · left
      obtain ⟨step, hstep, hfinalizes⟩ := exists_finalizes_of_not_unsettled hsettled hsite
      have hwithin := hpath.within step (by simp [hstep])
      obtain ⟨before', commit, rfl⟩ := finalize_of_finalizes hactions hrun hget hwithin hfinalizes
      exact ⟨before', commit, hstep⟩
    · exact Or.inr hdeferred

/-- A function that starts a transaction on both branches, into the same variable, and rolls it back
before it returns. -/
def mergedSites : FunctionUnit where
  name := "Refresh"
  body := {
    stmts := [
      .varDecl ["tx"] [] {},
      .ifStmt {
        init := none
        cond := .ident "primary" {}
        consequence := {
          stmts := [.assign [.ident "tx" {}]
            [.call (.selector (.ident "db" {}) "MustBegin" {}) [] {}] {}]
          span := {} }
        otherwise := some (.block {
          stmts := [.assign [.ident "tx" {}]
            [.call (.selector (.ident "replica" {}) "MustBegin" {}) [] {}] {}]
          span := {} })
        span := {} },
      .exprStmt (.call (.selector (.ident "tx" {}) "Rollback" {}) [] {}) {},
      .returnStmt [] {}]
    span := {} }

/-- The `return` of that function leaves no event on the one binding of both acquisitions, and the
path through the second of them does roll back. -/
theorem leaking_return_recorded_mergedSites :
    ∃ (w w' : Walk) (b : Binding) (path earlier later : List Step) (site : Step),
      Walk.run {} {} ((mergedSites.actions {}).take 46) = .ok w ∧
      w.exec {} (.exit .byReturn) = .ok w' ∧ w.scopes.inClosure = false ∧
      b ∈ w.bindings ∧ b.name = "tx" ∧ w.resolve b.name = some b.id ∧ w.recorded w' b.id = [] ∧
      b.isEscaped = false ∧ w.context.guarded = [] ∧
      (mergedSites.flow {}).Runs []
        (path ++ [.did ((mergedSites.actions {}).take 46) (.exit .byReturn)]) .stops ∧
      path = earlier ++ site :: later ∧ site.Acquires b.id ∧
      ((∃ before' commit, Step.did before' (.finalize b.name commit) ∈ later) ∨
        ∃ step ∈ path, step.Defers b.id) := by
  have hwalk : ∃ w w' b, Walk.run {} {} ((mergedSites.actions {}).take 46) = .ok w ∧
      w.exec {} (.exit .byReturn) = .ok w' ∧ w.scopes.inClosure = false ∧ w.bindings = [b] ∧
      b.id = 0 ∧ b.name = "tx" ∧ w.resolve b.name = some b.id ∧ w.recorded w' b.id = [] ∧
      b.isEscaped = false ∧ w.context.guarded = [] :=
    ⟨_, _, _, rfl, rfl, rfl, rfl, rfl, rfl, rfl, rfl, rfl, rfl⟩
  have hpath : ∃ trace, (mergedSites.flow {}).Runs [] trace .stops ∧
      trace.take 14 ++ .did ((mergedSites.actions {}).take 32) (.acquire "tx" none {} false) ::
        (trace.drop 15).dropLast ++
        [.did ((mergedSites.actions {}).take 46) (.exit .byReturn)] = trace := by
    constructor
    constructor
    · -- the code decides which rule applies next, but for the choice of the alternative
      repeat' first
        | exact .skip
        | exact .act rfl
        | exact .seqStop (.seq (.seq (.act rfl) (.seq (.act rfl) .skip))
            (.seq (.act rfl) (.seq .skip (.exit rfl))))
        | apply Flow.Runs.seq
        | apply Flow.Runs.arguments
        | apply Flow.Runs.alternative
        | apply Flow.Runs.armHere
    · rfl
  have hactions : mergedSites.actions {} =
      (mergedSites.actions {}).take 46 ++ .exit .byReturn :: [] := rfl
  obtain ⟨w, w', b, hrun, hexec, houtside, hbindings, hid, hname, hresolve, hquiet, hescaped,
    hguarded⟩ := hwalk
  obtain ⟨trace, htrace, heq⟩ := hpath
  rw [← heq] at htrace
  have hb : b ∈ w.bindings := by
    rw [hbindings]
    exact List.mem_singleton.mpr rfl
  have hsite : (Step.did ((mergedSites.actions {}).take 32)
      (.acquire "tx" none {} false)).Acquires b.id := by
    rw [hid]
    exact ⟨_, _, ⟨{}, rfl⟩, rfl⟩
  refine ⟨w, w', b, _, _, _, _, hrun, hexec, houtside, hb, hname, hresolve, hquiet, hescaped,
    hguarded, htrace, rfl, hsite, ?_⟩
  rcases leaking_return_recorded hactions hrun hexec houtside hb hresolve
    (by simp [hquiet]) with hescaped' | ⟨guards, hguards, -⟩ | hcovered
  · rw [hescaped] at hescaped'
    cases hescaped'
  · rw [hguarded] at hguards
    cases hguards
  · exact hcovered _ htrace _ _ _ rfl hsite

end FunctionUnit

end TxLifecycle
