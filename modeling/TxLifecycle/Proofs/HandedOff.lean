import TxLifecycle.Proofs.Lookups
import TxLifecycle.Proofs.Renewals

/-!
# Handles that are handed over

A function that returns a handle leaves it to its caller, and one that gives it to a helper for
callbacks leaves it to the helper. From then on nothing is reported of the handle, whatever else is
read, and its variable is free for the next transaction.

* `Walk.HandsOff`: the return and the call by which a handle is given away;
* `Walk.Escaped.run`: what is handed over stays so;
* `FunctionUnit.handed_off_unreported`: it is never reported, and a later acquisition starts anew.
-/

namespace TxLifecycle

/-- What one of the expressions hands out, all of them together do. -/
theorem Expr.mem_handedOutBy {e : Expr} {es : List Expr} {x : String} (he : e ∈ es)
    (hx : x ∈ e.handedOut) : x ∈ Expr.handedOutBy es := by
  induction es with
  | nil => cases he
  | cons first rest ih =>
    rcases List.mem_cons.mp he with rfl | he
    · exact List.mem_append_left _ hx
    · exact List.mem_append_right _ (ih he)

/-- An expression hands out what it gives away. -/
theorem Expr.GivesAway.mem_handedOut {e : Expr} {x : String} (h : e.GivesAway x) :
    x ∈ e.handedOut := by
  induction h with
  | ident => exact List.mem_singleton.mpr rfl
  | address _ ih => simpa [Expr.handedOut] using ih
  | element he _ ih => exact Expr.mem_handedOutBy he ih
  | value _ ih => exact ih

namespace Walk

variable {limits : Limits} {names : Recognizers} {w u v : Walk} {id : BindingId}
  {ids : List BindingId} {actions : List Action}

/-! ## The mark of a handle that is handed over -/

/-- The binding is marked as handed over. -/
def Escaped (w : Walk) (id : BindingId) : Prop :=
  ∃ b, w.bindings[id]? = some b ∧ b.escaped = true

/-- Marking leaves the marks there are. -/
theorem Escaped.modify (h : w.Escaped id) (i : BindingId) :
    (w.modifyBinding i fun b => { b with escaped := true }).Escaped id := by
  obtain ⟨b, hget, hescaped⟩ := h
  by_cases heq : i = id
  · exact ⟨{ b with escaped := true }, by simp [modifyBinding, heq, hget], rfl⟩
  · exact ⟨b, by simp [modifyBinding, heq, hget], hescaped⟩

/-- A list of marks marks every binding it names. -/
theorem escaped_markEscaped (hlt : id < w.bindings.length) (h : id ∈ ids ∨ w.Escaped id) :
    (w.markEscaped ids).Escaped id := by
  induction ids generalizing w with
  | nil => exact h.resolve_left List.not_mem_nil
  | cons i rest ih =>
    refine ih (by simpa [modifyBinding] using hlt) ?_
    rcases h with h | h
    · rcases List.mem_cons.mp h with rfl | h
      · refine Or.inr ⟨{ w.bindings[id] with escaped := true }, ?_, rfl⟩
        simp [modifyBinding, hlt]
      · exact Or.inl h
    · exact Or.inr (h.modify i)

theorem lt_of_resolve {x : String} (hwf : w.WellFormed) (h : w.resolve x = some id) :
    id < w.bindings.length := by
  obtain ⟨b, hget, -⟩ := Indexed.get_of_resolve hwf.indexed h
  exact (List.getElem?_eq_some_iff.mp hget).1

/-- Nothing that is read later takes the mark away. -/
theorem Escaped.run (h : w.Escaped id) (hsound : w.Sound limits actions)
    (horderly : w.scopes.Orderly w.bindings) (hrun : w.run limits actions = .ok v) :
    v.Escaped id := by
  obtain ⟨b, hget, hescaped⟩ := h
  obtain ⟨b', hget', hages⟩ := (hsound.ages hrun horderly).2 hget
  exact ⟨b', hget', hages.escaped hescaped⟩

/-! ## What hands over -/

/-- What is read next hands the binding over. -/
inductive HandsOff (names : Recognizers) (w : Walk) (id : BindingId) : List Action → Prop where
  /-- The function itself returns a value that gives the variable away. -/
  | returned {e : Expr} {values : List Expr} {span : Span} {x : String} {rest : List Action} :
      w.scopes.inClosure = false → e ∈ values → e.GivesAway x → w.resolve x = some id →
      HandsOff names w id ((Stmt.returnStmt values span).actions names ++ rest)
  /-- A helper for callbacks is called, and exactly one of its arguments is the variable. -/
  | delegated {func : Expr} {args : List Expr} {span : Span} {rest : List Action} :
      names.isCallbackHelper (.call func args span) = true →
      args.countP (fun arg => arg.asIdent.bind w.resolve = some id) = 1 →
      HandsOff names w id ((Expr.call func args span).actions names ++ rest)

/-- A helper marks what it is given once. -/
theorem mem_delegated {args : List Expr}
    (h : args.countP (fun arg => arg.asIdent.bind w.resolve = some id) = 1) :
    let passed := (args.filterMap Expr.asIdent).filterMap w.resolve
    id ∈ passed.filter fun id => passed.count id == 1 := by
  intro passed
  have hcount : passed.count id = 1 := by
    rw [← h, List.count, show passed = _ from List.filterMap_filterMap, List.countP_filterMap]
    refine List.countP_congr fun arg _ => ?_
    cases arg.asIdent.bind w.resolve <;> simp
  refine List.mem_filter.mpr ⟨List.count_pos_iff.mp ?_, ?_⟩
  · rw [hcount]
    exact Nat.one_pos
  · rw [hcount]
    rfl

/-- A statement that hands a handle off begins with actions that mark the binding and acquire
nothing. -/
theorem HandsOff.exists_mark (h : w.HandsOff names id actions) :
    ∃ lead tail, actions = lead ++ tail ∧ (∀ a ∈ lead, a.isAcquire = false) ∧
      ∀ {limits : Limits} {v : Walk}, w.Sound limits lead → w.scopes.Orderly w.bindings →
        w.run limits lead = .ok v → v.Escaped id := by
  cases h with
  | @returned e values span x rest hopen he hgives hresolve =>
    refine ⟨[.count, .setSpan span] ++ [.handOut (Expr.handedOutBy values)],
      exprsActions names values ++ [.exit .byReturn] ++ rest, rfl, by simp [Action.isAcquire], ?_⟩
    intro limits v hsound horderly hrun
    obtain ⟨u, hbegin, hrun⟩ := run_append_eq_ok.mp hrun
    obtain ⟨v', hout, hrun⟩ := run_cons_eq_ok.mp hrun
    cases hout
    cases hrun
    obtain ⟨hscopes, -, -⟩ := of_run_begin hbegin
    have hsame := resolve_of_run hsound.take horderly
      (by simp [Action.isSteady, Action.isInner]) hbegin x
    rw [handOut, hscopes, if_neg (ne_true_of_eq_false hopen)]
    rw [← hsame] at hresolve
    refine escaped_markEscaped (lt_of_resolve (hsound.drop hbegin).wellFormed hresolve) (Or.inl ?_)
    exact List.mem_filterMap.mpr ⟨x, Expr.mem_handedOutBy he hgives.mem_handedOut, hresolve⟩
  | @delegated func args span rest hhelper hcount =>
    have hfinalize : ∀ a ∈ names.finalizeActions (.call func args span),
        a.isSteady = true ∧ a.isAcquire = false := by
      intro a ha
      have ha := names.finalizeActions_isFinalize _ a ha
      cases a <;> first | exact ⟨rfl, rfl⟩ | cases ha
    refine ⟨names.finalizeActions (.call func args span) ++
      [.delegate (args.filterMap Expr.asIdent)], func.actions names ++ .openArgs ::
        exprsActions names args ++ .closeArgs :: names.abortActions (.call func args span) ++ rest,
      ?_, ?_, ?_⟩
    · rw [Expr.actions, Recognizers.delegateActions, if_pos hhelper]
      simp only [List.append_assoc, List.cons_append, Expr.callArgs]
    · intro a ha
      rcases List.mem_append.mp ha with ha | ha
      · exact (hfinalize a ha).2
      · rw [List.mem_singleton.mp ha]
        rfl
    · intro limits v hsound horderly hrun
      obtain ⟨u, hcalled, hrun⟩ := run_append_eq_ok.mp hrun
      obtain ⟨v', hout, hrun⟩ := run_cons_eq_ok.mp hrun
      cases hout
      cases hrun
      -- nor does a commit or rollback by the same call change what a name means
      have hresolve : u.resolve = w.resolve :=
        funext (resolve_of_run hsound.take horderly (fun a ha => (hfinalize a ha).1) hcalled)
      rw [← hresolve] at hcount
      have hmem := mem_delegated hcount
      obtain ⟨x, -, hx⟩ := List.mem_filterMap.mp (List.mem_filter.mp hmem).1
      exact escaped_markEscaped (lt_of_resolve (hsound.drop hcalled).wellFormed hx) (Or.inl hmem)

end Walk

namespace FunctionUnit

open Walk

variable {limits : Limits} {names : Recognizers} {unit : FunctionUnit} {w v : Walk}
  {id : BindingId} {b : Binding} {tracked : Tracked} {before more rest tail : List Action}

/-- From a hand-over on, the binding is marked. -/
theorem escaped_of_handsOff (hactions : unit.actions names = before ++ (more ++ tail))
    (hbefore : Walk.run limits {} before = .ok w) (hoff : w.HandsOff names id (more ++ tail))
    (htail : ∀ a ∈ tail.head?, a.isAcquire = true)
    (hrun : Walk.run limits {} (before ++ more) = .ok v) : v.Escaped id := by
  have hsound := sound_of_actions limits hactions
  have horderly := (hsound.take.ages hbefore orderly_init).1
  obtain ⟨lead, after, hsplit, hlead, hmark⟩ := hoff.exists_mark
  -- the hand-over is over before the next acquisition
  obtain ⟨between, rfl⟩ : ∃ between, more = lead ++ between := by
    rcases List.append_eq_append_iff.mp hsplit with ⟨rest, rfl, rfl⟩ | ⟨rest, rfl, -⟩
    · cases rest with
      | nil => exact ⟨[], by simp⟩
      | cons a rest =>
        have ha := hlead a (by simp)
        rw [htail a rfl] at ha
        cases ha
    · exact ⟨rest, rfl⟩
  obtain ⟨-, hmore⟩ := At.run_of_append ⟨limits, hbefore⟩ hrun
  obtain ⟨u, hu, hlater⟩ := run_append_eq_ok.mp hmore
  have hbegun := (hsound.drop hbefore).take
  exact (hmark hbegun.take horderly hu).run (hbegun.drop hu)
    (hbegun.take.ages hu horderly).1 hlater

/-- **A handle that is handed over is not reported.** Let a function be read to its end, and let a
binding be handed over at some point. Whatever is read before and behind, nothing is reported of the
binding, and what is reported does not depend on it. A later acquisition that finds the binding and
does not hide it starts a new one, and is not recorded as a reassignment. -/
theorem handed_off_unreported (htrack : unit.track limits names = .ok tracked)
    (hb : b ∈ tracked.bindings) (hactions : unit.actions names = before ++ rest)
    (hbefore : Walk.run limits {} before = .ok w) (hoff : w.HandsOff names b.id rest) :
    b.verdict tracked.scopes = none ∧
      (∀ function first last, tracked.bindings = first ++ b :: last →
        tracked.violations function =
          Tracked.violations function ⟨tracked.scopes, first ++ last⟩) ∧
      ∀ {more tail : List Action} {x : String} {errVar : Option String} {span : Span}
        {declares : Bool} {v : Walk} {c : Binding},
        rest = more ++ .acquire x errVar span declares :: tail →
        Walk.run limits {} (before ++ more) = .ok v → v.Meets x c → c.id = b.id →
        ¬ v.Hides declares c →
        ∃ n z, v.acquisition x errVar span declares = .ok (n, z) ∧
          v.Renews x span declares c n z.bindings := by
  have hverdict : b.verdict tracked.scopes = none := by
    obtain ⟨z, hwalk, rfl⟩ := exists_walk_of_track htrack
    have hrun := run_of_walk hwalk
    rw [hactions] at hrun
    obtain ⟨i, hi⟩ := List.mem_iff_getElem?.mp hb
    have hwhole : unit.actions names = before ++ (rest ++ []) := by rw [List.append_nil, hactions]
    obtain ⟨b', hget, hescaped⟩ :=
      escaped_of_handsOff hwhole hbefore (by rwa [List.append_nil]) (by simp) hrun
    rw [(wellFormed_of_walk hwalk).indexed hi, show z.bindings[i]? = some b from hi] at hget
    obtain rfl := Option.some.inj hget
    simp [Binding.verdict, Binding.isEscaped, hescaped]
  refine ⟨hverdict, fun function first last hsplit => ?_, ?_⟩
  · simp [Tracked.violations, hsplit, hverdict]
  · intro more tail x errVar span declares v c hrest hrun hmeets hid hseen
    subst hrest
    have hsound := sound_of_actions limits (hactions.trans (List.append_assoc _ _ _).symm)
    have hwf := (hsound.drop hrun).wellFormed
    obtain ⟨z', hacquire⟩ := acquire_ok hwf x errVar span declares
    have hexec : v.exec limits (.acquire x errVar span declares) = .ok z' := hacquire
    obtain ⟨n, z, hacquisition, -⟩ := exists_acquisition_of_acquire hexec
    refine ⟨n, z, hacquisition, renews_of_done hwf hmeets hseen ?_ hacquisition⟩
    obtain ⟨c', hget, hescaped⟩ :=
      escaped_of_handsOff hactions hbefore hoff (by simp [Action.isAcquire]) hrun
    obtain rfl : c' = c := Option.some.inj (hget.symm.trans (hid ▸ hmeets.get))
    simp [Binding.isEscaped, hescaped]

/-- A handle goes to a helper; the next one in its variable goes to the caller, in a new store. -/
def handsTwoOver : FunctionUnit where
  name := "open"
  body := {
    stmts := [
      .shortVarDecl [.ident "tx" {}, .ident "_" {}]
        [.call (.selector (.ident "db" {}) "Begin" {}) [] {}] ⟨54, 73⟩,
      .exprStmt (.call (.ident "WithTx" {}) [.ident "tx" {}, .ident "work" {}] {}) {},
      .assign [.ident "tx" {}, .ident "_" {}]
        [.call (.selector (.ident "db" {}) "Begin" {}) [] {}] ⟨110, 128⟩,
      .returnStmt [.unary "&" (.composite [.keyValue (.ident "tx" {}) (.ident "tx" {}) {}] {}) {}]
        {}]
    span := {} }

/-- Nothing is reported of the two handles, and the second one gets a binding of its own. -/
theorem handed_off_unreported_handsTwoOver :
    ∃ (tracked : Tracked) (first second : Binding) (w v u z : Walk) (c : Binding) (n : BindingId),
      handsTwoOver.track {} {} = .ok tracked ∧ tracked.bindings = [first, second] ∧
      Walk.run {} {} ((handsTwoOver.actions {}).take 10) = .ok w ∧
      w.HandsOff {} first.id ((handsTwoOver.actions {}).drop 10) ∧
      Walk.run {} {} ((handsTwoOver.actions {}).take 24) = .ok v ∧ v.Meets "tx" c ∧
      v.acquisition "tx" none ⟨110, 128⟩ false = .ok (n, z) ∧
      v.Renews "tx" ⟨110, 128⟩ false c n z.bindings ∧
      Walk.run {} {} ((handsTwoOver.actions {}).take 26) = .ok u ∧
      u.HandsOff {} second.id ((handsTwoOver.actions {}).drop 26) ∧
      first.verdict tracked.scopes = none ∧ second.verdict tracked.scopes = none := by
  obtain ⟨tracked, first, second, htrack, hbindings, hfirst, hsecond⟩ : ∃ tracked first second,
      handsTwoOver.track {} {} = .ok tracked ∧ tracked.bindings = [first, second] ∧
      first.id = 0 ∧ second.id = 1 := ⟨_, _, _, rfl, rfl, rfl, rfl⟩
  obtain ⟨w, hw, hhelper⟩ : ∃ w, Walk.run {} {} ((handsTwoOver.actions {}).take 10) = .ok w ∧
      [Expr.ident "tx" {}, .ident "work" {}].countP
        (fun arg => arg.asIdent.bind w.resolve = some 0) = 1 := ⟨_, rfl, rfl⟩
  obtain ⟨v, c, hv, hmeets, hid⟩ : ∃ v c,
      Walk.run {} {} ((handsTwoOver.actions {}).take 24) = .ok v ∧ v.Meets "tx" c ∧ c.id = 0 :=
    ⟨_, _, rfl, ⟨rfl, rfl⟩, rfl⟩
  obtain ⟨u, hu, houtside, hresolve⟩ : ∃ u,
      Walk.run {} {} ((handsTwoOver.actions {}).take 26) = .ok u ∧
      u.scopes.inClosure = false ∧ u.resolve "tx" = some 1 := ⟨_, rfl, rfl, rfl⟩
  have hdelegates : w.HandsOff {} first.id ((handsTwoOver.actions {}).drop 10) :=
    @HandsOff.delegated {} w first.id (.ident "WithTx" {}) _ {} _ rfl (hfirst ▸ hhelper)
  have hreturns : u.HandsOff {} second.id ((handsTwoOver.actions {}).drop 26) :=
    @HandsOff.returned {} u second.id _ _ {} _ [] houtside (List.mem_singleton.mpr rfl)
      (.address (.element (List.mem_singleton.mpr rfl) (.value .ident))) (hsecond ▸ hresolve)
  obtain ⟨hclear, -, hrenews⟩ := handed_off_unreported htrack (by simp [hbindings])
    (List.take_append_drop 10 _).symm hw hdelegates
  obtain ⟨n, z, hacquisition, hnew⟩ := @hrenews (((handsTwoOver.actions {}).drop 10).take 14) _
    "tx" _ _ false v c rfl hv hmeets (hid.trans hfirst.symm) (by simp [Hides])
  obtain ⟨hclear', -⟩ := handed_off_unreported htrack (by simp [hbindings])
    (List.take_append_drop 26 _).symm hu hreturns
  exact ⟨tracked, first, second, w, v, u, z, c, n, htrack, hbindings, hw, hdelegates, hv, hmeets,
    hacquisition, hnew, hu, hreturns, hclear, hclear'⟩

end FunctionUnit

end TxLifecycle
