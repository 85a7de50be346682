import TxLifecycle.Proofs.SilentMerges
import TxLifecycle.Proofs.Unaltered

/-!
# Acquisitions after a finalization

A variable whose transaction has been committed or rolled back may take the next one. The
acquisition then starts a binding of its own. This works for the code of the function itself; a
commit or rollback in a function literal is not counted, because the literal may never be called.
But then it is not counted for later code of the same literal either, and the next transaction of
the variable is taken for the loss of one that is open.

* `Walk.Renews`: the acquisition starts a binding of its own;
* `Walk.Overlooks`: it is taken for one that meets an open handle;
* `FunctionUnit.acquisition_after_finalization`: the first is what happens after a call outside
  function literals, the second what happens to the variables of a literal.
-/

namespace TxLifecycle

namespace Walk

variable {limits : Limits} {w u v : Walk} {x : String} {errVar : Option String} {span : Span}
  {declares commit : Bool} {n : BindingId} {b : Binding} {table : List Binding}

/-! ## What an acquisition does with the handle before -/

/-- An acquisition here declares a variable that hides the one of the binding. -/
def Hides (w : Walk) (declares : Bool) (b : Binding) : Prop :=
  declares = true ∧ b.home ≠ w.scopes.current

instance (w : Walk) (declares : Bool) (b : Binding) : Decidable (w.Hides declares b) :=
  inferInstanceAs (Decidable (declares = true ∧ b.home ≠ w.scopes.current))

/-- The acquisition gets a binding of its own, and nothing is noted against the handle before. A new
variable leaves the old binding as it is; otherwise the old one is retired, and the new one is for
the same variable. -/
def Renews (w : Walk) (x : String) (span : Span) (declares : Bool) (b : Binding) (n : BindingId)
    (table : List Binding) : Prop :=
  n = w.bindings.length ∧
    table =
      if w.Hides declares b then
        w.bindings ++ [.new w.bindings.length x w.scopes.current w.scopes.current span]
      else
        w.bindings.modify b.id (fun b => { b with retired := true }) ++
          [.new w.bindings.length x b.home w.scopes.current span]

/-- The handle before is taken for an open one. A new variable is noted for hiding it; otherwise the
acquisition shares its binding, and is noted for losing it or merged with it. -/
def Overlooks (w : Walk) (declares : Bool) (b : Binding) (n : BindingId) (table : List Binding) :
    Prop :=
  if w.Hides declares b then
    ∃ event : Event, event.kind = .shadowing ∧ table[b.id]? = some (b.record event)
  else n = b.id ∧ ∃ b', table[b.id]? = some b' ∧ (w.Loses b b' ∨ w.Merges b b')

/-- A variable that hides another one gets a binding of its own. The binding of the hidden one is
left alone only if its handle is finished. -/
theorem acquisition_of_hides (hmeets : w.Meets x b) (hhides : w.Hides declares b)
    (h : w.acquisition x errVar span declares = .ok (n, v)) :
    n = w.bindings.length ∧
      if b.finalizedOnPath w.scopes then
        v.bindings =
          w.bindings ++ [.new w.bindings.length x w.scopes.current w.scopes.current span]
      else
        ∃ event : Event, event.kind = .shadowing ∧
          v.bindings = w.bindings.modify b.id (·.record event) ++
            [.new w.bindings.length x w.scopes.current w.scopes.current span] := by
  rw [acquisition] at h
  cases hdeclared : w.declareError errVar declares with
  | error e => simp [hdeclared] at h
  | ok u =>
    obtain ⟨hagrees, hbindings, hstack⟩ := agrees_of_declareError hdeclared
    have hcurrent : u.scopes.current = w.scopes.current := by
      rw [ScopeTree.current, hstack, ScopeTree.current]
    -- the declaration of the error variable finishes nothing
    have hpath : b.finalizedOnPath u.scopes = b.finalizedOnPath w.scopes :=
      Binding.finalizedOnPath_congr (Binding.Agrees.refl b).resembles hagrees.resembles hstack
    have hinner : (declares && b.home != w.scopes.current) = true := by
      simpa [Hides] using hhides
    simp only [hdeclared, hmeets.resolve, Option.bind_some, hmeets.get, Walk.bind, hcurrent, hinner,
      if_true, hpath] at h
    by_cases hfinished : b.finalizedOnPath w.scopes = true
    · simp only [hfinished, if_true, Except.ok.injEq, addBinding, Prod.mk.injEq] at h ⊢
      obtain ⟨rfl, rfl⟩ := h
      exact ⟨by rw [hbindings], by simp only [hbindings]⟩
    · simp only [hfinished, Bool.false_eq_true, if_false] at h ⊢
      split at h
      · cases h
      · rename_i hrecord
        obtain ⟨event, hkind, -, -, rfl⟩ := of_recordAt hrecord
        cases h
        simp only [modifyBinding, List.length_modify, hbindings, hcurrent]
        exact ⟨trivial, event, hkind, rfl⟩

/-- Where the handle is finished or handed over, an acquisition that hides nothing starts anew. -/
theorem renews_of_done (hwf : w.WellFormed) (hmeets : w.Meets x b) (hseen : ¬ w.Hides declares b)
    (hdone : (b.finalizedOnPath w.scopes || b.isEscaped) = true)
    (h : w.acquisition x errVar span declares = .ok (n, v)) :
    w.Renews x span declares b n v.bindings := by
  rw [Renews, if_neg hseen]
  have hacquires := acquires_of_acquisition hwf h
  generalize v.bindings = table at hacquires ⊢
  cases hacquires with
  -- the first two are for variables that hide another one
  | fresh _ hnone => exact absurd (hnone b hmeets) hseen
  | shadow hother hdeclares hhome => exact absurd ⟨hdeclares, hother.unique hmeets ▸ hhome⟩ hseen
  | replace hother =>
    obtain rfl := hother.unique hmeets
    exact ⟨rfl, rfl⟩
  -- the others are for handles that are open
  | merge hother _ hopen | reassign hother _ hopen =>
    obtain rfl := hother.unique hmeets
    rw [hdone] at hopen
    cases hopen

/-- Where the handle is finished, the acquisition starts anew. -/
theorem renews_of_finalizedOnPath (hwf : w.WellFormed) (hmeets : w.Meets x b)
    (hfinished : b.finalizedOnPath w.scopes = true)
    (h : w.acquisition x errVar span declares = .ok (n, v)) :
    w.Renews x span declares b n v.bindings := by
  by_cases hhides : w.Hides declares b
  · have hnew := acquisition_of_hides hmeets hhides h
    simpa only [Renews, if_pos hhides, hfinished, if_true] using hnew
  · exact renews_of_done hwf hmeets hhides (by rw [hfinished, Bool.true_or]) h

/-- Where the handle is neither finished nor handed over, it is taken for an open one. -/
theorem overlooks_of_not_finalizedOnPath (hwf : w.WellFormed)
    (horderly : w.scopes.Orderly w.bindings) (hmeets : w.Meets x b)
    (hopen : b.finalizedOnPath w.scopes = false) (hkept : b.isEscaped = false)
    (h : w.acquisition x errVar span declares = .ok (n, v)) :
    w.Overlooks declares b n v.bindings := by
  have hlt : b.id < w.bindings.length := (List.getElem?_eq_some_iff.mp hmeets.get).1
  unfold Overlooks
  by_cases hhides : w.Hides declares b
  · obtain ⟨-, hnoted⟩ := acquisition_of_hides hmeets hhides h
    simp only [hopen, Bool.false_eq_true, if_false] at hnoted
    obtain ⟨event, hkind, hbindings⟩ := hnoted
    rw [if_pos hhides, hbindings]
    refine ⟨event, hkind, ?_⟩
    rw [List.getElem?_append_left (by simpa using hlt), List.getElem?_modify_eq, hmeets.get]
    rfl
  · rw [if_neg hhides]
    have hacquires := acquires_of_acquisition hwf h
    have hn : n = b.id := by
      generalize v.bindings = table at hacquires
      cases hacquires with
      | fresh _ hnone => exact absurd (hnone b hmeets) hhides
      | shadow hother hdeclares hhome =>
        exact absurd ⟨hdeclares, hother.unique hmeets ▸ hhome⟩ hhides
      | replace hother _ hfinished =>
        obtain rfl := hother.unique hmeets
        simp [hopen, hkept] at hfinished
      | merge hother | reassign hother => rw [hother.unique hmeets]
    subst hn
    exact ⟨rfl, hacquires.reuse hwf horderly hmeets⟩

/-! ## What a commit or rollback leaves -/

/-- A commit or rollback at once is noted where it stands, and whether it stands in a literal. -/
theorem exists_event_of_finalize (hexec : w.exec limits (.finalize x commit) = .ok u)
    (hresolve : w.resolve x = some n) (hdefer : w.context.deferScope = none)
    (hget : w.bindings[n]? = some b) :
    ∃ event : Event, event.kind.isDirectFinalization = true ∧ event.scope = w.scopes.current ∧
      event.inClosure = decide (0 < w.context.closureDepth) ∧
      u.bindings[n]? = some (b.record event) := by
  simp only [exec, finalize, hresolve, hdefer] at hexec
  obtain ⟨event, hkind, hscope, hclosure, rfl⟩ := of_recordAt hexec
  refine ⟨event, ?_, hscope, hclosure, ?_⟩
  · rw [hkind]
    cases commit <;> rfl
  · rw [modifyBinding, List.getElem?_modify_eq, hget]
    rfl

/-- A handle with a commit or rollback in an open scope is finished, if the call counts. -/
theorem finalizedOnPath_of_event {event : Event} (hwf : w.WellFormed) (hevent : event ∈ b.events)
    (hkind : event.kind.isDirectFinalization = true) (hcounts : event.inClosure = false)
    (hopen : event.scope ∈ w.scopes.stack) : b.finalizedOnPath w.scopes = true := by
  refine List.any_eq_true.mpr ⟨event.scope, hopen, ?_⟩
  refine (Binding.finalizes_iff_covered hwf.tree.ordered).mpr (.direct ?_)
  exact List.any_eq_true.mpr ⟨event, hevent, by simp [hkind, hcounts]⟩

/-- Code in a function literal or a launched call is known to be there, or to be deferred. -/
def Sheltered (w : Walk) : Prop :=
  ∀ scope ∈ w.scopes.stack, (w.scopes.kind? scope).any (·.isClosure) = true →
    0 < w.context.closureDepth ∨ w.context.deferScope.isSome = true

theorem nested_sheltered (limits : Limits) : Nested limits Sheltered where
  same := fun h hwf hextends hstack hcontext scope hscope hkind => by
    rw [hstack] at hscope
    rw [hextends.kind? (hwf.tree.stack_lt hscope)] at hkind
    rw [hcontext]
    exact h scope hscope hkind
  openGuard := fun _ h => h
  opens := fun h hwf hplain hopens scope hscope hkind => by
    rw [hopens.context_eq]
    rw [hopens.tree.stack] at hscope
    rcases List.mem_cons.mp hscope with rfl | hscope
    · -- the scope that opens is no body
      rw [hopens.tree.kind?_fresh] at hkind
      simp [hplain] at hkind
    · rw [hopens.tree.grows.kind? (hwf.tree.stack_lt hscope)] at hkind
      exact h scope hscope hkind
  openBody := fun {u v kind} h _ hexec scope hscope hkind => by
    rw [(exec_openBody hexec).context_eq]
    cases kind with
    | closure | goroutine => exact Or.inl (Nat.succ_pos _)
    | deferred => exact Or.inr rfl

end Walk

namespace FunctionUnit

open Walk

variable {limits : Limits} {names : Recognizers} {unit : FunctionUnit} {w v : Walk} {x : String}
  {errVar : Option String} {span : Span} {declares commit : Bool} {b : Binding}
  {before between rest : List Action}

/-- The commits and rollbacks of a variable that belongs to a function literal stand in literals. -/
theorem inClosure_of_home {event : Event} {body : ScopeId}
    (hactions : unit.actions names = before ++ rest) (hrun : Walk.run limits {} before = .ok v)
    (hget : v.bindings[b.id]? = some b) (hbody : body ∈ v.scopes.ancestors b.home)
    (hliteral : (v.scopes.kind? body).any (·.isClosure) = true) (hevent : event ∈ b.events)
    (hkind : event.kind.isDirectFinalization = true) : event.inClosure = true := by
  -- the call that left the event
  obtain ⟨first, action, tail, u, rfl, hat, hadds⟩ :=
    accounted_of_run hactions hrun (eventsOf_eq hget ▸ hevent)
  obtain ⟨name, -, -, hresolve, -, hclosure, hdefer⟩ := hadds.records.of_direct hkind
  obtain ⟨hfirst, htail⟩ := hat.run_of_append hrun
  have hsound := unit.sound_actions limits names
  rw [hactions, List.append_assoc] at hsound
  have hlater := hsound.drop hfirst
  have hwf := hlater.wellFormed
  have hextends := hlater.take.grows htail
  -- the variable was visible there, so the literal was open
  obtain ⟨b₀, hget₀, -, hopen, -⟩ := Indexed.get_of_resolve hwf.indexed hresolve
  have horderly := (hsound.take.ages hfirst orderly_init).1
  obtain ⟨b', hget', hages⟩ := (hlater.take.ages htail horderly).2 hget₀
  obtain rfl : b' = b := Option.some.inj (hget'.symm.trans hget)
  rw [hages.home_eq, hextends.ancestors hwf.tree (hwf.tree.stack_lt hopen)] at hbody
  have hstack : body ∈ u.scopes.stack := by
    rw [hwf.tree.stack_eq] at hopen ⊢
    exact hwf.tree.mem_ancestors_trans hbody hopen
  rw [hextends.kind? (hwf.tree.stack_lt hstack)] at hliteral
  have hsheltered : u.Sheltered := nested_of_run nested_sheltered
    (hactions.trans (List.append_assoc _ _ _)) hfirst (by
      intro scope hscope hkind
      rw [List.mem_singleton.mp hscope] at hkind
      cases hkind)
  rcases hsheltered body hstack hliteral with hdepth | hdeferred
  · rw [hclosure]
    exact decide_eq_true hdepth
  · rw [hdefer] at hdeferred
    cases hdeferred

/-- **Acquisitions after a finalization.** A commit or rollback that is not deferred has been read
in a scope that is still open, and now its variable takes another transaction. If the call stands
outside function literals, the acquisition starts a binding of its own, and nothing is noted against
the one before. A call in a literal does not count. If all of the handle's commits and rollbacks
stand in literals, as those of a literal's own variables do, and the handle is not handed over, then
the acquisition is taken for one that meets an open handle, unless it cannot be reached. -/
theorem acquisition_after_finalization
    (hactions : unit.actions names =
      before ++ .finalize x commit :: between ++ .acquire x errVar span declares :: rest)
    (hbefore : Walk.run limits {} before = .ok w) (hresolve : w.resolve x = some b.id)
    (hdefer : w.context.deferScope = none)
    (hrun : Walk.run limits {} (before ++ .finalize x commit :: between) = .ok v)
    (hopen : w.scopes.current ∈ v.scopes.stack) (hmeets : v.Meets x b) :
    ∃ n z, v.acquisition x errVar span declares = .ok (n, z) ∧
      (w.context.closureDepth = 0 → v.Renews x span declares b n z.bindings) ∧
      ((∃ body ∈ v.scopes.ancestors b.home, (v.scopes.kind? body).any (·.isClosure) = true) →
        ∀ event ∈ b.events, event.kind.isDirectFinalization = true → event.inClosure = true) ∧
      ((∀ event ∈ b.events, event.kind.isDirectFinalization = true → event.inClosure = true) →
        b.isEscaped = false → v.Live → v.Overlooks declares b n z.bindings) := by
  have hsound := sound_of_actions limits hactions
  have hwf := (hsound.drop hrun).wellFormed
  have horderly := (hsound.take.ages hrun orderly_init).1
  obtain ⟨z', hacquire⟩ := acquire_ok hwf x errVar span declares
  have hexec : v.exec limits (.acquire x errVar span declares) = .ok z' := hacquire
  obtain ⟨n, z, hacquisition, -⟩ := exists_acquisition_of_acquire hexec
  refine ⟨n, z, hacquisition, fun hdepth => ?_, ?_, fun hliteral hkept hlive => ?_⟩
  · refine renews_of_finalizedOnPath hwf hmeets ?_ hacquisition
    -- the event of the call, which the binding has kept
    obtain ⟨-, hlater⟩ := At.run_of_append ⟨limits, hbefore⟩ hrun
    obtain ⟨u, hexec, hbetween⟩ := run_cons_eq_ok.mp hlater
    have hcall := hsound.take.drop hbefore
    obtain ⟨b₀, hget₀, -⟩ := Indexed.get_of_resolve hcall.wellFormed.indexed hresolve
    obtain ⟨event, hkind, hscope, hclosure, hget⟩ :=
      exists_event_of_finalize hexec hresolve hdefer hget₀
    have hbegun : u.scopes.Orderly u.bindings :=
      exec_orderly hcall.wellFormed (hsound.take.take.ages hbefore orderly_init).1 hexec
    obtain ⟨b', hget', hages⟩ := ((hcall.2.2 u hexec).ages hbetween hbegun).2 hget
    obtain rfl : b' = b := Option.some.inj (hget'.symm.trans hmeets.get)
    refine finalizedOnPath_of_event hwf (hages.events.subset ?_) hkind ?_ (hscope ▸ hopen)
    · exact List.mem_append_right _ (List.mem_singleton.mpr rfl)
    · rw [hclosure, hdepth]
      rfl
  · rintro ⟨body, hbody, hliteral⟩ event hevent hkind
    exact inClosure_of_home hactions hrun hmeets.get hbody hliteral hevent hkind
  · refine overlooks_of_not_finalizedOnPath hwf horderly hmeets ?_ hkept hacquisition
    refine hlive.not_finalizedOnPath hwf fun scope => List.any_eq_false.mpr fun event hevent => ?_
    -- a call that counts stands outside of literals
    intro hcounts
    simp only [Bool.and_eq_true, Bool.not_eq_true'] at hcounts
    obtain ⟨⟨hkind, hclosure⟩, -⟩ := hcounts
    rw [hliteral event hevent hkind] at hclosure
    cases hclosure

/-- Two transactions one after the other in the same variable. -/
def twoTransactions : List Stmt := [
  .shortVarDecl [.ident "tx" {}, .ident "_" {}]
    [.call (.selector (.ident "db" {}) "Begin" {}) [] {}] ⟨54, 73⟩,
  .deferStmt (.call (.selector (.ident "tx" {}) "Rollback" {}) [] {}) {},
  .exprStmt (.call (.selector (.ident "tx" {}) "Commit" {}) [] {}) {},
  .assign [.ident "tx" {}, .ident "_" {}]
    [.call (.selector (.ident "db" {}) "Begin" {}) [] {}] ⟨110, 128⟩,
  .deferStmt (.call (.selector (.ident "tx" {}) "Rollback" {}) [] {}) {},
  .exprStmt (.call (.selector (.ident "tx" {}) "Commit" {}) [] {}) {}]

/-- The transactions are those of a function. -/
def twoInFunction : FunctionUnit where
  name := "run"
  body := { stmts := twoTransactions, span := {} }

/-- The transactions are those of a function literal. -/
def twoInLiteral : FunctionUnit where
  name := "run"
  body := {
    stmts := [.exprStmt (.call (.ident "work" {})
      [.funcLit [] { stmts := twoTransactions, span := {} } {}] {}) {}]
    span := {} }

/-- In the function the second transaction gets a binding of its own. -/
theorem acquisition_after_finalization_twoInFunction :
    ∃ (w v : Walk) (b : Binding) (n : BindingId) (z : Walk),
      Walk.run {} {} ((twoInFunction.actions {}).take 16) = .ok w ∧ w.context.closureDepth = 0 ∧
      Walk.run {} {} ((twoInFunction.actions {}).take 28) = .ok v ∧ v.Meets "tx" b ∧
      v.acquisition "tx" none ⟨110, 128⟩ false = .ok (n, z) ∧
      v.Renews "tx" ⟨110, 128⟩ false b n z.bindings := by
  obtain ⟨w, hbefore, hresolve, hdefer, hcurrent, hdepth⟩ : ∃ w,
      Walk.run {} {} ((twoInFunction.actions {}).take 16) = .ok w ∧ w.resolve "tx" = some 0 ∧
      w.context.deferScope = none ∧ w.scopes.current = ScopeTree.root ∧
      w.context.closureDepth = 0 := ⟨_, rfl, rfl, rfl, rfl, rfl⟩
  obtain ⟨v, b, hrun, hstack, hmeets, hid⟩ : ∃ v b,
      Walk.run {} {} ((twoInFunction.actions {}).take 28) = .ok v ∧
      v.scopes.stack = [ScopeTree.root] ∧ v.Meets "tx" b ∧ b.id = 0 :=
    ⟨_, _, rfl, rfl, ⟨rfl, rfl⟩, rfl⟩
  have hactions : twoInFunction.actions {} = (twoInFunction.actions {}).take 16 ++
      .finalize "tx" true :: ((twoInFunction.actions {}).drop 17).take 11 ++
      .acquire "tx" none ⟨110, 128⟩ false :: (twoInFunction.actions {}).drop 29 := rfl
  have hopen : w.scopes.current ∈ v.scopes.stack := by
    rw [hcurrent, hstack]
    exact List.mem_singleton.mpr rfl
  obtain ⟨n, z, hacquisition, hrenews, -⟩ := acquisition_after_finalization hactions hbefore
    (hid ▸ hresolve) hdefer hrun hopen hmeets
  exact ⟨w, v, b, n, z, hbefore, hdepth, hrun, hmeets, hacquisition, hrenews hdepth⟩

/-- In the literal it is taken for the loss of the first one, which has been committed. -/
theorem exists_reassignment_after_commit :
    ∃ (w v z : Walk) (b b' : Binding) (tracked : Tracked),
      twoInLiteral.actions {} = (twoInLiteral.actions {}).take 22 ++
        .finalize "tx" true :: ((twoInLiteral.actions {}).drop 23).take 11 ++
        .acquire "tx" none ⟨110, 128⟩ false :: (twoInLiteral.actions {}).drop 35 ∧
      Walk.run {} {} ((twoInLiteral.actions {}).take 34) = .ok v ∧ v.bindings = [b] ∧
      Walk.run {} {} ((twoInLiteral.actions {}).take 22) = .ok w ∧ w.resolve "tx" = some b.id ∧
      v.Meets "tx" b ∧ v.context.deferScope = none ∧ v.scopes.current = w.scopes.current ∧
      v.acquisition "tx" none ⟨110, 128⟩ false = .ok (b.id, z) ∧
      z.bindings = [b'] ∧ b.has .reassignment = false ∧ b'.has .reassignment = true ∧
      twoInLiteral.track {} {} = .ok tracked ∧
      tracked.violations "run" = [.new "run" "tx" .variableReassignment ⟨54, 73⟩] :=
  ⟨_, _, _, _, _, _, rfl, rfl, rfl, rfl, rfl, ⟨rfl, rfl⟩, rfl, rfl, rfl, rfl, rfl, rfl, rfl,
    by decide +kernel⟩

end FunctionUnit

end TxLifecycle
