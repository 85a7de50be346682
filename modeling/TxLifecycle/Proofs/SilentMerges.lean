import TxLifecycle.Proofs.Sites

/-!
# Acquisitions that are merged in silence

An acquisition into a variable that holds an open handle is noted as the loss of that handle if the
scope in which the handle was acquired is still open. If that scope has been left, the two are taken
for acquisitions on different branches and merged, with no note. But a scope may have been left that
is no branch, or the branching statement may be over.

* `Walk.Loses`: the acquisition is noted on the binding;
* `Walk.Merges`: it is merged, with the way to tell whether branches keep the acquisitions apart.

The main statement is `FunctionUnit.reuse_cases`.
-/

namespace TxLifecycle

namespace Walk

variable {w u v : Walk} {b b' : Binding} {x : String} {span : Span} {declares : Bool}
  {table : List Binding}

/-- An acquisition loses the handle of a binding, and the binding keeps note of that. -/
structure Loses (w : Walk) (b b' : Binding) : Prop where
  noted : ∃ event : Event, event.kind = .reassignment ∧ b' = b.record event
  /-- The scope in which the handle was acquired is open. -/
  isOpen : b.acquiredIn ∈ w.scopes.stack
  /-- So no branches keep it apart from the acquisition. -/
  together : ¬ w.scopes.Exclusive b.acquiredIn w.scopes.current

/-- An acquisition is merged with those for a binding. -/
structure Merges (w : Walk) (b b' : Binding) : Prop where
  /-- The binding is now acquired in the nearest open scope around them, and that is all. -/
  merged : b' = { b with acquiredIn := b'.acquiredIn }
  /-- The scope in which the handle was acquired has been left. -/
  left : b.acquiredIn ∉ w.scopes.stack
  nearest : b'.acquiredIn ∈ w.scopes.stack
  /-- It has been left through a child of that nearest scope. Branches keep the acquisitions apart
  just if that child is an arm of a construct and the acquisition stands in another arm of it. -/
  exclusive_iff : ∃ gone, w.scopes.parent? gone = some b'.acquiredIn ∧
    gone ∈ w.scopes.ancestors b.acquiredIn ∧ gone ∉ w.scopes.stack ∧
    (w.scopes.Exclusive b.acquiredIn w.scopes.current ↔
      ∃ inside ∈ w.scopes.stack, w.scopes.parent? inside = some b'.acquiredIn ∧
        ∃ c ∈ w.scopes.constructs, gone ∈ c.arms ∧ inside ∈ c.arms)

/-- Whether branches keep a scope that has been left apart from the current one is told by the
children of the nearest open scope around it. -/
theorem exists_gone {a home : ScopeId} (hwf : w.WellFormed) (hhome : home ∈ w.scopes.stack)
    (ha : home ∈ w.scopes.ancestors a) (hleft : a ∉ w.scopes.stack) :
    ∃ gone, w.scopes.parent? gone = some (w.scopes.commonAncestor a w.scopes.current) ∧
      gone ∈ w.scopes.ancestors a ∧ gone ∉ w.scopes.stack ∧
      (w.scopes.Exclusive a w.scopes.current ↔
        ∃ inside ∈ w.scopes.stack,
          w.scopes.parent? inside = some (w.scopes.commonAncestor a w.scopes.current) ∧
          ∃ c ∈ w.scopes.constructs, gone ∈ c.arms ∧ inside ∈ c.arms) := by
  have hstack := hwf.tree.stack_eq
  rw [hstack] at hhome hleft ⊢
  obtain ⟨gone, hparent, hmem, hgone⟩ := hwf.tree.exists_child_commonAncestor ha hhome hleft
  obtain ⟨-, haround, -⟩ := hwf.tree.commonAncestor_spec ha hhome
  refine ⟨gone, hparent, hmem, hgone, ?_⟩
  by_cases hcurrent : w.scopes.commonAncestor a w.scopes.current = w.scopes.current
  · -- the acquisition stands in that scope itself, so no branch is around it alone
    constructor
    · intro hexclusive
      have hinside := (hwf.tree.commonAncestor_spec ha hhome).1
      rw [hcurrent] at hinside
      exact absurd hexclusive (hwf.tree.not_exclusive hinside)
    · rintro ⟨inside, hinside, hparent', -⟩
      rw [hcurrent] at hparent'
      exact absurd hinside (hwf.tree.notMem_ancestors_parent hparent')
  · -- it stands in another child of that scope, and the two children are told apart by constructs
    obtain ⟨inside, hparent', hinside⟩ := hwf.tree.exists_child haround hcurrent
    have hne : gone ≠ inside := by
      rintro rfl
      exact hgone hinside
    rw [hwf.tree.exclusive_iff hne hparent hparent' hmem hinside]
    constructor
    · intro hc
      exact ⟨inside, hinside, hparent', hc⟩
    · rintro ⟨other, hother, hparent'', hc⟩
      rwa [← hwf.tree.eq_of_siblings hother hinside hparent'' hparent']

/-- An acquisition that re-uses a binding loses the handle or is merged. -/
theorem Acquires.reuse (hwf : w.WellFormed) (horderly : w.scopes.Orderly w.bindings)
    (hmeets : w.Meets x b) (h : w.Acquires x span declares b.id table) :
    ∃ b', table[b.id]? = some b' ∧ (w.Loses b b' ∨ w.Merges b b') := by
  have hlt := (List.getElem?_eq_some_iff.mp hmeets.get).1
  -- a binding that is re-used is an old one, so only a merge and a loss are left
  generalize hid : b.id = n at h hlt
  cases h with
  | fresh | shadow | replace => exact absurd hlt (Nat.lt_irrefl _)
  | @merge old merged hother _ _ hleft hmerged =>
    obtain rfl := hother.unique hmeets
    obtain ⟨c, hc, -, hopen, -⟩ := Indexed.get_of_resolve hwf.indexed hmeets.resolve
    obtain rfl : old = c := Option.some.inj (hmeets.get.symm.trans hc)
    have hleft' : old.acquiredIn ∉ w.scopes.stack := by
      simpa [ScopeTree.isOnStack] using hleft
    refine ⟨{ old with acquiredIn := merged }, ?_, Or.inr ⟨rfl, hleft', ?_, ?_⟩⟩
    · rw [List.getElem?_modify_eq, hmeets.get]
      rfl
    · rw [hwf.tree.stack_eq] at hopen ⊢
      exact hmerged ▸ (hwf.tree.commonAncestor_spec (horderly.home hmeets.get) hopen).2.1
    · exact hmerged ▸ exists_gone hwf hopen (horderly.home hmeets.get) hleft'
  | @reassign old event hother _ _ honstack hkind =>
    obtain rfl := hother.unique hmeets
    have hopen : old.acquiredIn ∈ w.scopes.stack := List.contains_iff_mem.mp honstack
    refine ⟨old.record event, ?_, Or.inl ⟨⟨event, hkind, rfl⟩, hopen, ?_⟩⟩
    · rw [List.getElem?_modify_eq, hmeets.get]
      rfl
    · -- the scope of the handle is around the current one
      intro hexclusive
      exact hwf.tree.not_exclusive (hwf.tree.stack_eq ▸ hopen) hexclusive.symm

end Walk

namespace FunctionUnit

open Walk

variable {limits : Limits} {names : Recognizers} {unit : FunctionUnit} {w v : Walk}
  {before rest : List Action} {x : String} {errVar : Option String} {span : Span}
  {declares : Bool} {b : Binding}

/-- An action and an earlier acquisition that branches keep apart: no execution comes to both,
unless it goes round a loop. -/
theorem loopAround_of_exclusive {action : Action} {n : BindingId} {step : Step} {scope : ScopeId}
    {trace : List Step} {outcome : Outcome}
    (hactions : unit.actions names = before ++ action :: rest)
    (hbefore : Walk.run limits {} before = .ok w) (hsite : Site before n step scope declares)
    (hexclusive : w.scopes.Exclusive scope w.scopes.current)
    (hruns : (unit.flow names).Runs [] trace outcome) (hstep : step ∈ trace)
    (hmem : .did before action ∈ trace) :
    step.LoopAround ((unit.flow names).loops []) (.did before action) := by
  -- under larger limits the function is read to its end
  obtain ⟨limits', z, -, hwalks⟩ := exists_walks limits names unit
  have hall := hwalks.run
  rw [flow_actions] at hall
  obtain ⟨limits', hreads⟩ := readsAll_of_run hall
  have hat : At before w := ⟨limits, hbefore⟩
  have hrun := hreads.run
  have hsound := hreads.sound
  have halong := hreads.along
  rw [hactions] at hrun hsound halong
  obtain ⟨hbefore', hrest⟩ := hat.run_of_append hrun
  obtain ⟨-, -, hlt, -⟩ := (sited_of_run hactions hbefore).placed hsite
  obtain ⟨c, hc, hseparates⟩ := exclusive_of_run (hsound.drop hbefore') (halong.drop hbefore') hrest
    hlt (hsound.drop hbefore').wellFormed.tree.current_lt hexclusive
  obtain ⟨u, hu, rfl⟩ := hsite.at_scope
  exact Classical.byContradiction fun hloop =>
    not_separates hreads.run hruns hstep hmem hloop hu hat hc hseparates

/-- **Merged acquisitions.** Let an acquisition re-use the binding of the handle that the variable
holds. It is noted as a loss of that handle just if the scope in which the handle was acquired is
still open; otherwise it is merged in silence, whether branches keep the two apart or not. If they
do, then no execution comes to an earlier acquisition for the binding and to this one, unless it
goes round a loop. -/
theorem reuse_cases
    (hactions : unit.actions names = before ++ .acquire x errVar span declares :: rest)
    (hbefore : Walk.run limits {} before = .ok w) (hmeets : w.Meets x b)
    (hreuse : w.acquisition x errVar span declares = .ok (b.id, v)) :
    ∃ b', v.bindings[b.id]? = some b' ∧
      (b'.events = b.events ↔ b.acquiredIn ∉ w.scopes.stack) ∧
      (b.acquiredIn ∈ w.scopes.stack → w.Loses b b') ∧
      (b.acquiredIn ∉ w.scopes.stack → w.Merges b b') ∧
      (w.scopes.Exclusive b.acquiredIn w.scopes.current →
        ∀ step scope declares' trace outcome, Site before b.id step scope declares' →
          (unit.flow names).Runs [] trace outcome → step ∈ trace →
          .did before (.acquire x errVar span declares) ∈ trace →
          step.LoopAround ((unit.flow names).loops [])
            (.did before (.acquire x errVar span declares))) := by
  have hsound := sound_of_actions limits hactions
  have hwf := (hsound.drop hbefore).wellFormed
  have horderly := (hsound.take.ages hbefore orderly_init).1
  obtain ⟨b', hget, hcases⟩ := (acquires_of_acquisition hwf hreuse).reuse hwf horderly hmeets
  refine ⟨b', hget, ?_, fun hopen => ?_, fun hleft => ?_, ?_⟩
  · rcases hcases with hloses | hmerges
    · obtain ⟨event, -, rfl⟩ := hloses.noted
      exact ⟨fun heq => by simp [Binding.record] at heq, fun hleft => absurd hloses.isOpen hleft⟩
    · exact ⟨fun _ => hmerges.left, fun _ => by rw [hmerges.merged]⟩
  · exact hcases.resolve_right fun hmerges => hmerges.left hopen
  · exact hcases.resolve_left fun hloses => hleft hloses.isOpen
  · intro hexclusive step scope declares' trace outcome hsite hruns hstep hmem
    refine loopAround_of_exclusive hactions hbefore hsite ?_ hruns hstep hmem
    -- every acquisition runs in the acquiring scope or inside it
    obtain ⟨c, hc, -, hinside, -⟩ := (sited_of_run hactions hbefore).placed hsite
    obtain rfl : b = c := Option.some.inj (hmeets.get.symm.trans hc)
    obtain ⟨c, hc, arm, harm, arm', harm', hne, hmem, hmem'⟩ := hexclusive
    exact ⟨c, hc, arm, harm, arm', harm', hne, hwf.tree.mem_ancestors_trans hmem hinside, hmem'⟩

/-- An assignment that starts a transaction. -/
def starting (db : String) (span : Span) : Stmt :=
  .assign [.ident "tx" {}, .ident "_" {}]
    [.call (.selector (.ident db {}) "Begin" {}) [] {}] span

/-- A function that starts one of two transactions. -/
def startedOnEither : FunctionUnit where
  name := "Run"
  body := {
    stmts := [
      .varDecl ["tx"] [] {},
      .ifStmt {
        init := none
        cond := .ident "ok" {}
        consequence := { stmts := [starting "a" ⟨60, 77⟩], span := {} }
        otherwise := some (.block { stmts := [starting "b" ⟨90, 107⟩], span := {} })
        span := {} }]
    span := {} }

/-- The second acquisition of this function is merged with the first one, and an `if` keeps them
apart. -/
theorem reuse_cases_startedOnEither :
    ∃ (w v : Walk) (b b' : Binding),
      Walk.run {} {} ((startedOnEither.actions {}).take 32) = .ok w ∧ w.Meets "tx" b ∧
      w.acquisition "tx" none ⟨90, 107⟩ false = .ok (b.id, v) ∧
      v.bindings[b.id]? = some b' ∧ b'.events = b.events ∧ w.Merges b b' ∧
      w.scopes.Exclusive b.acquiredIn w.scopes.current := by
  have hactions : startedOnEither.actions {} = (startedOnEither.actions {}).take 32 ++
      .acquire "tx" none ⟨90, 107⟩ false :: (startedOnEither.actions {}).drop 33 := rfl
  obtain ⟨w, v, b, hbefore, hmeets, hreuse, hleft, hexclusive⟩ : ∃ w v b,
      Walk.run {} {} ((startedOnEither.actions {}).take 32) = .ok w ∧ w.Meets "tx" b ∧
      w.acquisition "tx" none ⟨90, 107⟩ false = .ok (b.id, v) ∧ b.acquiredIn ∉ w.scopes.stack ∧
      w.scopes.Exclusive b.acquiredIn w.scopes.current :=
    ⟨_, _, _, rfl, ⟨by decide +kernel, rfl⟩, rfl, by decide +kernel, by decide +kernel⟩
  obtain ⟨b', hget, hsilent, -, hmerges, -⟩ := reuse_cases hactions hbefore hmeets hreuse
  exact ⟨w, v, b, b', hbefore, hmeets, hreuse, hget, hsilent.mpr hleft, hmerges hleft, hexclusive⟩

/-- A function that starts a transaction in a block and another one after it. -/
def startedTwice : FunctionUnit where
  name := "Run"
  body := {
    stmts := [
      .varDecl ["tx"] [] {},
      .block { stmts := [starting "a" ⟨60, 77⟩], span := {} },
      starting "b" ⟨82, 99⟩]
    span := {} }

/-- Acquisitions are merged also where an execution comes to both: the second acquisition re-uses
the binding of the first one, nothing is noted, no branches keep them apart, and an execution of the
function runs one after the other. -/
theorem merge_not_exclusive :
    ∃ (w v : Walk) (b b' : Binding) (trace : List Step),
      startedTwice.actions {} = (startedTwice.actions {}).take 26 ++
        .acquire "tx" none ⟨82, 99⟩ false :: [] ∧
      Walk.run {} {} ((startedTwice.actions {}).take 26) = .ok w ∧ w.Meets "tx" b ∧
      w.acquisition "tx" none ⟨82, 99⟩ false = .ok (b.id, v) ∧ v.bindings[b.id]? = some b' ∧
      b'.events = b.events ∧ ¬ w.scopes.Exclusive b.acquiredIn w.scopes.current ∧
      (startedTwice.flow {}).Runs [] trace .falls ∧
      .did ((startedTwice.actions {}).take 16) (.acquire "tx" none ⟨60, 77⟩ false) ∈ trace ∧
      .did ((startedTwice.actions {}).take 26) (.acquire "tx" none ⟨82, 99⟩ false) ∈ trace := by
  have hpath : ∃ trace, (startedTwice.flow {}).Runs [] trace .falls ∧
      .did ((startedTwice.actions {}).take 16) (.acquire "tx" none ⟨60, 77⟩ false) ∈ trace ∧
      .did ((startedTwice.actions {}).take 26) (.acquire "tx" none ⟨82, 99⟩ false) ∈ trace := by
    constructor
    constructor
    · repeat' first
        | exact Flow.Runs.skip
        | exact Flow.Runs.act rfl
        | apply Flow.Runs.seq
        | apply Flow.Runs.arguments
        | apply Flow.Runs.block
    · decide +kernel
  obtain ⟨trace, htrace, hfirst, hsecond⟩ := hpath
  exact ⟨_, _, _, _, trace, rfl, rfl, ⟨by decide +kernel, rfl⟩, rfl, rfl, rfl, by decide +kernel,
    htrace, hfirst, hsecond⟩

end FunctionUnit

end TxLifecycle
