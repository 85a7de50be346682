import TxLifecycle.Proofs.EventPlaces
import TxLifecycle.Proofs.FunctionEnd
import TxLifecycle.Proofs.LeakingReturns

/-!
# Exits between a field store and a later use

A handle that is stored into a field counts as handed over as long as it is not mentioned again. At
the end of the function this is known for good. But exits ask for it while the function is read,
when the later uses have not been seen yet. So an exit between the store and the next use of the
handle is judged as if the handle were gone, and it leaves no event, although in the end the handle
counts as the function's own.

* `Walk.exists_reuse_of_run`: a hand-over by a field store is undone by a later use only.

The main statement is `FunctionUnit.exit_recorded_iff`.
-/

namespace TxLifecycle

namespace Walk

variable {limits : Limits} {w u z : Walk} {n : BindingId} {b b' : Binding} {action : Action}
  {how : Exit}

/-! ## Hand-overs that are undone -/

/-- The action uses the binding again: it mentions the variable or stores it into a field. -/
def Reuses (w : Walk) (action : Action) (id : BindingId) : Prop :=
  w.Mentions action id ∨ w.Stores action id

/-- A binding that counted as handed over and does so no longer has just been used. -/
theorem reuses_of_exec (hwf : w.WellFormed) (horderly : w.scopes.Orderly w.bindings)
    (hexec : w.exec limits action = .ok u) (hget : w.bindings[n]? = some b)
    (hget' : u.bindings[n]? = some b') (hescaped : b.isEscaped = true)
    (hkept : b'.isEscaped = false) : w.Reuses action n := by
  obtain ⟨c, hc, hchanges⟩ := (exec_rewrites hwf.indexed hexec).old hget
  obtain rfl : c = b' := Option.some.inj (hc.symm.trans hget')
  obtain ⟨c', hc', hages⟩ := exec_ages hwf horderly hexec hget
  obtain rfl : c' = c := Option.some.inj (hc'.symm.trans hget')
  rcases hchanges.mentioned with hmention | hmentions
  · rcases hchanges.stored with hstore | hstores
    · -- otherwise all that the hand-over rests on has stayed
      rw [Binding.isEscaped, Bool.or_eq_false_iff, hstore, hmention] at hkept
      rw [Binding.isEscaped, hkept.2, Bool.or_false] at hescaped
      rw [hages.escaped hescaped] at hkept
      cases hkept.1
    · exact Or.inr hstores
  · exact Or.inl hmentions

/-- A binding that counts as handed over at some moment of a run and not at its end is used in
between. -/
theorem exists_reuse_of_run {rest : List Action} (hsound : w.Sound limits rest)
    (horderly : w.scopes.Orderly w.bindings) (hrun : w.run limits rest = .ok z)
    (hget : w.bindings[n]? = some b) (hget' : z.bindings[n]? = some b')
    (hescaped : b.isEscaped = true) (hkept : b'.isEscaped = false) :
    ∃ middle action tail v, rest = middle ++ action :: tail ∧ w.run limits middle = .ok v ∧
      v.Reuses action n := by
  induction rest generalizing w b with
  | nil =>
    cases hrun
    obtain rfl : b = b' := Option.some.inj (hget.symm.trans hget')
    rw [hescaped] at hkept
    cases hkept
  | cons action rest ih =>
    obtain ⟨u, hexec, hrest⟩ := run_cons_eq_ok.mp hrun
    obtain ⟨b₁, hget₁, -⟩ := exec_ages hsound.1 horderly hexec hget
    cases hfirst : b₁.isEscaped with
    | false =>
      exact ⟨[], action, rest, w, rfl, rfl,
        reuses_of_exec hsound.1 horderly hexec hget hget₁ hescaped hfirst⟩
    | true =>
      obtain ⟨middle, later, tail, v, rfl, hmiddle, hreuses⟩ := ih (hsound.2.2 u hexec)
        (exec_orderly hsound.1 horderly hexec) hrest hget₁ hfirst
      exact ⟨action :: middle, later, tail, v, rfl, run_cons_eq_ok.mpr ⟨u, hexec, hmiddle⟩, hreuses⟩

end Walk

namespace FunctionUnit

open Walk

variable {limits : Limits} {names : Recognizers} {unit : FunctionUnit} {tracked : Tracked}
  {w : Walk} {b b₀ : Binding} {how : Exit} {before rest : List Action}

/-- A return points at its own statement, whatever its values are. -/
theorem span_of_return {start : List Action} {values : List Expr} {span : Span}
    (hactions : unit.actions names = before ++ rest) (hrun : Walk.run limits {} before = .ok w)
    (hreturn : before = start ++ .count :: .setSpan span
      :: .handOut (Expr.handedOutBy values) :: exprsActions names values) :
    w.context.span = span := by
  have hsound := sound_of_actions limits hactions
  have hpointer := pointer_of_run hsound.take hrun
  rw [hreturn, List.foldl_append, List.foldl_cons, List.foldl_cons, List.foldl_cons,
    exprsActions_point] at hpointer
  exact congrArg Prod.fst hpointer

/-- **Exits and field stores.** Take a binding that does not count as handed over at the end of the
function, and an exit outside of function literals at which its variable was visible, outside of the
acquisition's error check, and neither finished nor deferred on the way there. The exit has left an
event, which for a `return` carries the span of that statement, exactly if the binding did not count
as handed over at that moment either. If it did, that was because of a field store after which the
variable had not been mentioned yet, and the exit has left nothing. Some later action uses it
again. -/
theorem exit_recorded_iff (htrack : unit.track limits names = .ok tracked)
    (hb : b ∈ tracked.bindings) (hkept : b.isEscaped = false)
    (hactions : unit.actions names = before ++ .exit how :: rest)
    (hrun : Walk.run limits {} before = .ok w) (houtside : w.scopes.inClosure = false)
    (hresolve : w.resolve b.name = some b.id) (hget : w.bindings[b.id]? = some b₀)
    (hguard : ∀ guards ∈ w.context.guarded, b.id ∉ guards)
    (hpath : b₀.guardedOnPath w.scopes = false) :
    (∀ start values span, before = start ++ .count :: .setSpan span
      :: .handOut (Expr.handedOutBy values) :: exprsActions names values →
        w.context.span = span) ∧
    ∃ u, w.exec limits (.exit how) = .ok u ∧ u.eventsOf b.id <+: b.events ∧
      (b₀.isEscaped = false → ∃ event : Event, u.eventsOf b.id = b₀.events ++ [event] ∧
        event.kind = how.event ∧ event.span = w.context.span ∧
        event.scope = w.scopes.current) ∧
      (b₀.isEscaped = true → u.eventsOf b.id = b₀.events ∧ b₀.escaped = false ∧
        (∃ stop, b₀.fieldStoreEnd = some stop ∧ b₀.lastMention ≤ stop) ∧
        ∃ middle action tail v, rest = middle ++ action :: tail ∧ u.run limits middle = .ok v ∧
          v.Reuses action b.id) := by
  refine ⟨fun start values span hreturn => span_of_return hactions hrun hreturn, ?_⟩
  obtain ⟨z, hwalk, rfl⟩ := exists_walk_of_track htrack
  have hall := run_of_walk hwalk
  have hfinal := wellFormed_of_walk hwalk
  obtain ⟨i, hgetz⟩ := List.mem_iff_getElem?.mp hb
  obtain rfl : b.id = i := hfinal.indexed hgetz
  rw [hactions] at hall
  obtain ⟨-, hlater⟩ := At.run_of_append ⟨limits, hrun⟩ hall
  obtain ⟨u, hexec, hrest⟩ := run_cons_eq_ok.mp hlater
  have hsound := sound_of_actions limits hactions
  have hexit := hsound.drop hrun
  have horderly := (hsound.take.ages hrun orderly_init).1
  have hafter : u.scopes.Orderly u.bindings := exec_orderly hexit.1 horderly hexec
  have hsoundu := hexit.2.2 u hexec
  -- the binding at the exit, right after it, and in the end
  obtain ⟨event, hkind, hspan, hscope, -, htable, -⟩ := exec_exit hexit.1 houtside hexec
  have hgetu := htable b.id
  rw [hget, Option.map_some] at hgetu
  obtain ⟨b', hget', hages⟩ := (hsoundu.ages hrest hafter).2 hgetu
  obtain rfl : b' = b := Option.some.inj (hget'.symm.trans hgetz)
  obtain ⟨hname, -⟩ := Indexed.of_resolve hexit.1.indexed hresolve hget
  have hexposed := mem_exposed_iff hexit.1.indexed hget
  refine ⟨u, hexec, ?_, fun hopen => ?_, fun hescaped => ?_⟩
  · rw [eventsOf_eq hgetu]
    exact hages.events
  · rw [if_pos (hexposed.mpr ⟨hname ▸ hresolve, hopen, hguard, hpath⟩)] at hgetu
    exact ⟨event, eventsOf_eq hgetu, hkind, hspan, hscope⟩
  · have hhidden : b'.id ∉ w.exposed := fun hmem => by
      rw [(hexposed.mp hmem).2.1] at hescaped
      cases hescaped
    rw [if_neg hhidden] at hgetu hages
    -- a hand-over by name would last until the end
    have hunmarked : b₀.escaped = false := by
      refine Bool.eq_false_iff.mpr fun hmarked => ?_
      rw [Binding.isEscaped, hages.escaped hmarked] at hkept
      cases hkept
    have hstored := hescaped
    rw [Binding.isEscaped, hunmarked, Bool.false_or, Option.any_eq_true] at hstored
    obtain ⟨stop, hstop, hle⟩ := hstored
    exact ⟨eventsOf_eq hgetu, hunmarked, ⟨stop, hstop, of_decide_eq_true hle⟩,
      exists_reuse_of_run hsoundu hafter hrest hgetu hgetz hescaped hkept⟩

/-- A function that stores its transaction into a field, may return, and then finishes it itself. -/
def storedThenFinished : FunctionUnit where
  name := "run"
  body := {
    stmts := [
      .shortVarDecl [.ident "tx" {}, .ident "_" {}]
        [.call (.selector (.ident "db" {}) "Begin" {}) [] {}] ⟨68, 87⟩,
      .assign [.selector (.ident "s" {}) "tx" {}] [.ident "tx" ⟨96, 98⟩] ⟨89, 98⟩,
      .ifStmt {
        init := none
        cond := .ident "bad" {}
        consequence := { stmts := [.returnStmt [.ident "nil" {}] ⟨111, 121⟩], span := {} }
        otherwise := none
        span := {} },
      .ifStmt {
        init := none
        cond := .ident "ok" {}
        consequence := {
          stmts := [.exprStmt (.call (.selector (.ident "tx" ⟨136, 138⟩) "Commit" {}) [] {}) {}]
          span := {} }
        otherwise := some (.block {
          stmts := [.exprStmt (.call (.selector (.ident "tx" ⟨160, 162⟩) "Rollback" {}) [] {}) {}]
          span := {} })
        span := {} },
      .returnStmt [.ident "nil" {}] ⟨178, 188⟩]
    span := {} }

/-- The first `return` of this function is told from the later use of the transaction. -/
theorem exit_recorded_iff_storedThenFinished :
    ∃ (tracked : Tracked) (b b₀ : Binding) (w u : Walk),
      storedThenFinished.track {} {} = .ok tracked ∧ tracked.bindings = [b] ∧
      b.isEscaped = false ∧ Walk.run {} {} ((storedThenFinished.actions {}).take 28) = .ok w ∧
      w.resolve "tx" = some b.id ∧ w.bindings = [b₀] ∧ b₀.isEscaped = true ∧
      w.exec {} (.exit .byReturn) = .ok u ∧ u.eventsOf b.id = b₀.events ∧
      ∃ middle action tail v, (storedThenFinished.actions {}).drop 29 = middle ++ action :: tail ∧
        u.run {} middle = .ok v ∧ v.Reuses action b.id := by
  obtain ⟨tracked, b, htrack, hbindings, hkept, hid, hname⟩ : ∃ tracked b,
      storedThenFinished.track {} {} = .ok tracked ∧ tracked.bindings = [b] ∧
      b.isEscaped = false ∧ b.id = 0 ∧ b.name = "tx" := ⟨_, _, rfl, rfl, rfl, rfl, rfl⟩
  obtain ⟨w, b₀, hrun, hstate, houtside, hresolve, hguard, hpath, hescaped⟩ : ∃ w b₀,
      Walk.run {} {} ((storedThenFinished.actions {}).take 28) = .ok w ∧ w.bindings = [b₀] ∧
      w.scopes.inClosure = false ∧ w.resolve "tx" = some 0 ∧ w.context.guarded = [[]] ∧
      b₀.guardedOnPath w.scopes = false ∧ b₀.isEscaped = true :=
    ⟨_, _, rfl, rfl, rfl, rfl, rfl, by decide +kernel, rfl⟩
  have hactions : storedThenFinished.actions {} = (storedThenFinished.actions {}).take 28 ++
      .exit .byReturn :: (storedThenFinished.actions {}).drop 29 := rfl
  have hguards : ∀ guards ∈ w.context.guarded, b.id ∉ guards := by
    simp [hguard]
  obtain ⟨-, u, hexec, -, -, hlost⟩ := exit_recorded_iff htrack
    (hbindings ▸ List.mem_singleton.mpr rfl) hkept hactions hrun houtside
    (by rw [hname, hid, hresolve]) (by rw [hstate, hid]; rfl) hguards hpath
  obtain ⟨hevents, -, -, hreuse⟩ := hlost hescaped
  exact ⟨tracked, b, b₀, w, u, htrack, hbindings, hkept, hrun, hid ▸ hresolve, hstate, hescaped,
    hexec, hevents, hreuse⟩

/-- The first `return` of `storedThenFinished` leaves no event on the transaction, which is open
there and belongs to the function in the end. -/
theorem exists_unrecorded_return :
    ∃ (tracked : Tracked) (b b₀ : Binding) (w : Walk),
      storedThenFinished.track {} {} = .ok tracked ∧ tracked.bindings = [b] ∧
      b.isEscaped = false ∧ b.has .earlyReturn = false ∧
      storedThenFinished.actions {} = (storedThenFinished.actions {}).take 28 ++
        .exit .byReturn :: (storedThenFinished.actions {}).drop 29 ∧
      Walk.run {} {} ((storedThenFinished.actions {}).take 28) = .ok w ∧
      w.scopes.inClosure = false ∧ w.resolve b.name = some b.id ∧ w.context.guarded = [[]] ∧
      w.bindings = [b₀] ∧ b₀.guardedOnPath w.scopes = false ∧
      tracked.violations "run" = [] :=
  ⟨_, _, _, _, rfl, rfl, rfl, rfl, rfl, rfl, rfl, rfl, rfl, rfl, by decide +kernel,
    by decide +kernel⟩

end FunctionUnit

end TxLifecycle
