import TxLifecycle.Proofs.Sites
import TxLifecycle.Proofs.StateMaps

/-!
# Exits of which a handle keeps note

An exit of the function is noted on every binding that is visible there and not taken care of. It
does not matter whether the handle can have been acquired when the exit runs. So an exit on one
branch counts against a handle that is acquired on another branch only, if the variable is declared
before the branches.

* `FunctionUnit.Exits`: what is known where an exit is noted;
* `FunctionUnit.exits_of_event`: every such event comes from such an exit.
-/

namespace TxLifecycle

namespace FunctionUnit

open Walk

variable {limits : Limits} {names : Recognizers} {unit : FunctionUnit} {tracked : Tracked}
  {n : BindingId} {b : Binding} {event : Event} {scope : ScopeId} {w : Walk}

/-- The scopes in which the acquisitions for a binding run that are read before an exit. -/
def SiteBefore (before : List Action) (n : BindingId) (scope : ScopeId) : Prop :=
  ∃ step declares, Site before n step scope declares

/-- What is known of an event on a binding that stems from the exit that is read after `before`. -/
structure Exits (limits : Limits) (names : Recognizers) (unit : FunctionUnit) (tracked : Tracked)
    (n : BindingId) (b : Binding) (event : Event) (before : List Action) (how : Exit) : Prop where
  /-- The exit is read in the scope of the event, where the binding is exposed, and running it adds
  the event. -/
  reached : ∃ rest w, unit.actions names = before ++ .exit how :: rest ∧
    Walk.run limits {} before = .ok w ∧ n ∈ w.exposed ∧ event.scope = w.scopes.current ∧
      w.Adds (.exit how) n event
  kind : event.kind = how.event
  /-- The binding has been acquired by then. -/
  acquired : ∃ scope, SiteBefore before n scope
  /-- The scope of the variable is around the exit and around all acquisitions. -/
  around : b.home ∈ tracked.scopes.ancestors event.scope ∧
    ∀ scope, SiteBefore before n scope → b.home ∈ tracked.scopes.ancestors scope
  /-- Where the acquisitions are on other branches of a statement than the exit, the variable is
  declared before that statement, and none of the acquisitions declares it. -/
  isolated : ∀ c ∈ tracked.scopes.constructs,
    c.Isolates tracked.scopes (SiteBefore before n) event.scope →
    b.home ∈ tracked.scopes.ancestors c.owner ∧
      ∀ step scope declares, Site before n step scope declares → declares = false
  /-- Where they are, no execution comes to one of them and to the exit, unless it goes round a
  loop. -/
  unreached : ∀ c ∈ tracked.scopes.constructs,
    c.Isolates tracked.scopes (SiteBefore before n) event.scope →
    ∀ step scope declares trace outcome, Site before n step scope declares →
      (unit.flow names).Runs [] trace outcome → step ∈ trace → .did before (.exit how) ∈ trace →
      step.LoopAround ((unit.flow names).loops []) (.did before (.exit how))

theorem exit_of_records {action : Action} (h : w.Records action n event)
    (hkind : event.kind.isExit = true) :
    ∃ how, action = .exit how ∧ n ∈ w.exposed ∧ event.kind = how.event ∧
      event.scope = w.scopes.current := by
  cases h with
  | exit hexposed _ hevent hscope => exact ⟨_, rfl, hexposed, hevent, hscope⟩
  | _ => grind [directKind, deferredKind, EventKind.isExit]

/-- An exposed binding is for a variable of an open scope. -/
theorem exists_open_of_exposed (hwf : w.WellFormed) (h : n ∈ w.exposed) :
    ∃ b, w.bindings[n]? = some b ∧ b.home ∈ w.scopes.stack := by
  obtain ⟨b, hmem, rfl⟩ := List.mem_map.mp h
  obtain ⟨-, hvisible⟩ := List.mem_filter.mp hmem
  simp only [Bool.and_eq_true, beq_iff_eq] at hvisible
  obtain ⟨b', hget, -, hopen, -⟩ := Indexed.get_of_resolve hwf.indexed hvisible.1.1.2
  exact ⟨b', hget, hopen⟩

/-- The acquisitions for a binding that is visible run inside the scope of its variable, and those
that declare the variable in that scope. -/
theorem home_of_site {before rest : List Action} {z : Walk} {b₀ : Binding} {step : Step}
    {declares : Bool} (hactions : unit.actions names = before ++ rest)
    (hrun : Walk.run limits {} before = .ok w) (hrest : w.run limits rest = .ok z)
    (hget : w.bindings[n]? = some b₀) (hsite : Site before n step scope declares) :
    b₀.home ∈ z.scopes.ancestors scope ∧ (declares = true → b₀.home = scope) := by
  have hsound := sound_of_actions limits hactions
  have horderly := (hsound.take.ages hrun orderly_init).1
  have hwf := (hsound.drop hrun).wellFormed
  obtain ⟨c, hc, hlt, hinside, hhome⟩ := (sited_of_run hactions hrun).placed hsite
  obtain rfl : b₀ = c := Option.some.inj (hget.symm.trans hc)
  refine ⟨?_, hhome⟩
  rw [((hsound.drop hrun).grows hrest).ancestors hwf.tree hlt]
  exact hwf.tree.mem_ancestors_trans (horderly.home hget) hinside

/-- **Exits are noted where the variable is visible.** Every early return and every abort that is
noted on a binding stems from an exit of the function that is read after an acquisition for the
binding, in the scope of its variable. It may still be that all these acquisitions are on other
branches than the exit. Then none of them declares the variable, which belongs to a scope around the
branches; and no execution comes to one of them and to the exit, unless it goes round a loop. -/
theorem exits_of_event (htrack : unit.track limits names = .ok tracked)
    (hget : tracked.bindings[n]? = some b) (hevent : event ∈ b.events)
    (hkind : event.kind.isExit = true) :
    ∃ before how, Exits limits names unit tracked n b event before how := by
  obtain ⟨z, hwalk, rfl⟩ := exists_walk_of_track htrack
  have hall := run_of_walk hwalk
  -- the action that recorded the event
  obtain ⟨before, action, rest, w, hactions, hat, hadds⟩ :=
    accounted_of_run (List.append_nil _).symm hall (eventsOf_eq hget ▸ hevent)
  obtain ⟨how, rfl, hexposed, hhow, hscope⟩ := exit_of_records hadds.records hkind
  have hsplit := hall
  rw [hactions] at hsplit
  obtain ⟨hrun, hrest⟩ := hat.run_of_append hsplit
  have hsound := sound_of_actions limits hactions
  have hfinal := wellFormed_of_walk hwalk
  have horderly := (hsound.take.ages hrun orderly_init).1
  -- the binding as it was there, with its variable in an open scope
  obtain ⟨b₀, hget₀, hopen⟩ := exists_open_of_exposed (hsound.drop hrun).wellFormed hexposed
  obtain ⟨b', hget', hages⟩ := ((hsound.drop hrun).ages hrest horderly).2 hget₀
  obtain rfl : b' = b := Option.some.inj (hget'.symm.trans hget)
  have hsite : ∀ {step scope declares}, Site before n step scope declares →
      b'.home ∈ z.scopes.ancestors scope ∧ (declares = true → b'.home = scope) := by
    intro step scope declares hsite
    rw [hages.home_eq]
    exact home_of_site hactions hrun hrest hget₀ hsite
  have hhome : b'.home ∈ z.scopes.ancestors event.scope := by
    rw [hscope, ancestors_current_of_run (hsound.drop hrun) hrest, hages.home_eq]
    exact hopen
  obtain ⟨step₀, scope₀, declares₀, hsite₀⟩ := (sited_of_run hactions hrun).acquired hget₀
  refine ⟨before, how, ⟨rest, w, hactions, hrun, hexposed, hscope, hadds⟩, hhow,
    ⟨scope₀, step₀, declares₀, hsite₀⟩, ⟨hhome, ?_⟩, ?_, ?_⟩
  · rintro scope ⟨step, declares, h⟩
    exact (hsite h).1
  · intro c hc hisolates
    have howner : ∀ {step scope declares}, Site before n step scope declares →
        b'.home ∈ z.scopes.ancestors c.owner := fun h =>
      hfinal.tree.mem_ancestors_owner hc (hisolates.separates ⟨_, _, h⟩) (hsite h).1 hhome
    refine ⟨howner hsite₀, fun step scope declares h => ?_⟩
    -- a declaration would put the variable into one of the branches
    refine Bool.eq_false_iff.mpr fun hdeclares => ?_
    obtain ⟨arm, harm, -, -, -, hinside, -⟩ := hisolates.separates ⟨step, declares, h⟩
    exact hfinal.tree.notMem_ancestors_owner hc harm ((hsite h).2 hdeclares ▸ hinside) (howner h)
  · intro c hc hisolates step scope declares trace outcome h hruns hstep hexit
    obtain ⟨u, hu, rfl⟩ := h.at_scope
    refine Classical.byContradiction fun hloop => ?_
    refine not_separates hall hruns hstep hexit hloop hu hat hc ?_
    exact hscope ▸ hisolates.separates ⟨step, declares, h⟩

/-- A function that starts a transaction on one branch and leaves on the other, for a variable that
it declares before; then it finishes the transaction. -/
def startedOnOneBranch : FunctionUnit where
  name := "Run"
  body := {
    stmts := [
      .varDecl ["tx"] [] {},
      .ifStmt {
        init := none
        cond := .ident "ok" {}
        consequence := {
          stmts := [.assign [.ident "tx" {}, .ident "_" {}]
            [.call (.selector (.ident "db" {}) "Begin" {}) [] {}] ⟨79, 97⟩]
          span := {} }
        otherwise := some (.block {
          stmts := [.returnStmt [.ident "nil" {}] ⟨110, 120⟩]
          span := {} })
        span := {} },
      .exprStmt (.call (.selector (.ident "tx" {}) "Commit" {}) [] {}) {}]
    span := {} }

/-- The early return of this function is noted. -/
theorem exits_of_event_startedOnOneBranch :
    ∃ tracked b event before how, startedOnOneBranch.track {} {} = .ok tracked ∧
      tracked.bindings[0]? = some b ∧ event ∈ b.events ∧ event.kind = .earlyReturn ∧
      Exits {} {} startedOnOneBranch tracked 0 b event before how := by
  obtain ⟨tracked, b, event, htrack, hget, hevent, hkind⟩ : ∃ tracked b event,
      startedOnOneBranch.track {} {} = .ok tracked ∧ tracked.bindings[0]? = some b ∧
      event ∈ b.events ∧ event.kind = .earlyReturn :=
    ⟨_, _, _, rfl, rfl, List.mem_cons_self, rfl⟩
  obtain ⟨before, how, hexits⟩ := exits_of_event htrack hget hevent (by rw [hkind]; rfl)
  exact ⟨tracked, b, event, before, how, htrack, hget, hevent, hkind, hexits⟩

/-- The only acquisition before the return runs in the consequence of the `if`. -/
theorem site_startedOnOneBranch (h : SiteBefore ((startedOnOneBranch.actions {}).take 29) 0 scope) :
    scope = 1 := by
  obtain ⟨step, declares, hsite⟩ := h
  obtain ⟨k, hlt, hacquire, u, hat, hscope⟩ := hsite.exists_index
  have honly : ∀ k < 29, ((startedOnOneBranch.actions {}).take 29)[k]?.any Action.isAcquire = true →
      k = 20 := by decide +kernel
  have hk : k = 20 := honly k hlt hacquire
  subst hk
  obtain ⟨w, hrun, hcurrent⟩ : ∃ w,
      Walk.run {} {} (((startedOnOneBranch.actions {}).take 29).take 20) = .ok w ∧
      w.scopes.current = 1 := ⟨_, rfl, rfl⟩
  rw [← hscope, hat.unique ⟨{}, hrun⟩, hcurrent]

/-- Exits are noted also where no handle can have been acquired: all acquisitions before the return
are on the other branch of the `if`. -/
theorem exit_event_isolated :
    ∃ (tracked : Tracked) (b : Binding) (event : Event) (c : Construct) (w : Walk),
      startedOnOneBranch.track {} {} = .ok tracked ∧ tracked.bindings[0]? = some b ∧
      event ∈ b.events ∧ event.kind = .earlyReturn ∧
      startedOnOneBranch.actions {} = (startedOnOneBranch.actions {}).take 29 ++
        .exit .byReturn :: (startedOnOneBranch.actions {}).drop 30 ∧
      Walk.run {} {} ((startedOnOneBranch.actions {}).take 29) = .ok w ∧
      event.scope = w.scopes.current ∧ c ∈ tracked.scopes.constructs ∧
      (∃ scope, SiteBefore ((startedOnOneBranch.actions {}).take 29) 0 scope) ∧
      c.Isolates tracked.scopes (SiteBefore ((startedOnOneBranch.actions {}).take 29) 0)
        event.scope := by
  refine ⟨_, _, _, _, _, rfl, rfl, List.mem_cons_self, rfl, rfl, rfl, rfl, List.mem_cons_self, ?_,
    2, ?_, ?_, ?_⟩
  · have hread : (startedOnOneBranch.actions {}).take 29 =
        (startedOnOneBranch.actions {}).take 20 ++ .acquire "tx" none ⟨79, 97⟩ false
          :: ((startedOnOneBranch.actions {}).drop 21).take 8 := rfl
    exact ⟨_, _, _, .intro hread ⟨{}, rfl⟩ rfl⟩
  · decide +kernel
  · decide +kernel
  · intro scope hsite
    rw [site_startedOnOneBranch hsite]
    exact ⟨1, by decide +kernel, by decide +kernel, by decide +kernel⟩

end FunctionUnit

end TxLifecycle
