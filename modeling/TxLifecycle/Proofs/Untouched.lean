import Mathlib.Data.List.Basic
import TxLifecycle.Proofs.Composition
import TxLifecycle.Proofs.Limits

/-!
# No untouched transaction is missed

A variable that no part of a function commits, rolls back, hands over or leaves to a `defer`
statement keeps its transaction open. This file shows that each binding of such a variable is
reported.

* `Part.Touches`: what a part of a function can do to a variable so that it is not reported;
* `Walk.untouched_of_run`: without such a part no binding of the variable is finalized or handed
  over;
* `FunctionUnit.untouched_reported`: each of its bindings is reported, and there is one if a
  declaration starts a transaction.
-/

namespace TxLifecycle

/-! ## What touches a variable -/

/-- The value of the expression gives the variable away: it is the variable itself, also under `&`,
in a composite literal or as the value of a keyed element. -/
inductive Expr.GivesAway (x : String) : Expr → Prop where
  | ident {span : Span} : GivesAway x (.ident x span)
  | address {operand : Expr} {span : Span} :
      GivesAway x operand → GivesAway x (.unary "&" operand span)
  | element {e : Expr} {elements : List Expr} {span : Span} :
      e ∈ elements → GivesAway x e → GivesAway x (.composite elements span)
  | value {key value : Expr} {span : Span} :
      GivesAway x value → GivesAway x (.keyValue key value span)

/-- The part commits, rolls back or hands over the variable, or leaves it to a `defer` statement. -/
inductive Part.Touches (names : Recognizers) (x : String) : Part → Prop where
  /-- A commit or rollback method is called on it. -/
  | finalized {method : String} {args : List Expr} {span span' span'' : Span} :
      names.isCommit method = true ∨ names.isRollback method = true →
      Touches names x (.expr (.call (.selector (.ident x span) method span') args span''))
  /-- A method is called on it when the function ends. -/
  | deferredReceiver {method : String} {args : List Expr} {span span' span'' place : Span} :
      Touches names x
        (.stmt (.deferStmt (.call (.selector (.ident x span) method span') args span'') place))
  /-- It is given to a call when the function ends. -/
  | deferredArgument {func : Expr} {args : List Expr} {span span' place : Span} :
      .ident x span ∈ args → Touches names x (.stmt (.deferStmt (.call func args span') place))
  /-- Its address is given to a call when the function ends. -/
  | deferredAddress {func : Expr} {args : List Expr} {span span' span'' place : Span} :
      .unary "&" (.ident x span) span' ∈ args →
      Touches names x (.stmt (.deferStmt (.call func args span'') place))
  | returned {e : Expr} {values : List Expr} {span : Span} :
      e ∈ values → e.GivesAway x → Touches names x (.stmt (.returnStmt values span))
  /-- It is given to a helper that takes handles over. -/
  | delegated {func : Expr} {args : List Expr} {span span' : Span} :
      names.isCallbackHelper (.call func args span') = true → .ident x span ∈ args →
      Touches names x (.expr (.call func args span'))
  | stored {operand : Expr} {field : String} {left right : List Expr} {span span' place : Span} :
      (.selector operand field span, .ident x span') ∈ left.zip right →
      Touches names x (.stmt (.assign left right place))

/-- The statement declares the variable and starts a transaction in it: its single right side is a
recognized call, and the variable is its first target. -/
inductive Stmt.Starts (names : Recognizers) (x : String) : Stmt → Prop where
  | short {call : Expr} {targets : List Expr} {span span' : Span} :
      (names.acquisition call).isSome = true →
      Starts names x (.shortVarDecl (.ident x span :: targets) [call] span')
  | var {call : Expr} {targets : List String} {span : Span} :
      (names.acquisition call).isSome = true → Starts names x (.varDecl (x :: targets) [call] span)

/-- The action finalizes the variable or hands it over. -/
def Action.Touches (x : String) : Action → Prop
  | .finalize name _ | .deferCall name _ | .storeField name _ => name = x
  | .delegate names | .handOut names => x ∈ names
  | _ => False

variable {e : Expr} {x : String}

/-- An action that finalizes a variable or hands it over handles one. -/
theorem Action.Touches.isHandling {action : Action} (h : action.Touches x) :
    action.isHandling = true := by
  cases action <;> first | rfl | exact False.elim h

mutual

/-- What an expression hands out is what it gives away. -/
theorem Expr.givesAway_of_mem : ∀ e : Expr, x ∈ e.handedOut → e.GivesAway x
  | .ident name span, h => by
    rw [List.mem_singleton.mp h]
    exact .ident
  | .unary op operand span, h => by
    rw [Expr.handedOut] at h
    split at h
    · rename_i hop
      rw [eq_of_beq hop]
      exact .address (operand.givesAway_of_mem h)
    · cases h
  | .composite elements span, h => by
    obtain ⟨e, he, hgives⟩ := givesAway_of_mem_handedOutBy elements h
    exact .element he hgives
  | .keyValue key value span, h => .value (value.givesAway_of_mem h)
  | .call _ _ _, h | .selector _ _ _, h | .funcLit _ _ _, h | .literal _, h | .other _ _ _, h => by
    cases h

/-- What expressions hand out one of them gives away. -/
theorem givesAway_of_mem_handedOutBy :
    ∀ es : List Expr, x ∈ Expr.handedOutBy es → ∃ e ∈ es, e.GivesAway x
  | [], h => by cases h
  | e :: es, h => by
    rcases List.mem_append.mp h with h | h
    · exact ⟨e, List.mem_cons_self, e.givesAway_of_mem h⟩
    · obtain ⟨e', he', hgives⟩ := givesAway_of_mem_handedOutBy es h
      exact ⟨e', List.mem_cons_of_mem _ he', hgives⟩

end

theorem Expr.asIdent_eq_some (h : e.asIdent = some x) : ∃ span, e = .ident x span := by
  cases e with
  | ident name span =>
    cases h
    exact ⟨span, rfl⟩
  | _ => cases h

/-- An expression that calls a method on a name. -/
theorem Expr.methodCall_eq_some {operand : Expr} {method : String}
    (h : e.methodCall = some (operand, method)) :
    ∃ args span span', e = .call (.selector operand method span) args span' := by
  cases e with
  | call func args span' =>
    cases func with
    | selector operand' field span =>
      cases h
      exact ⟨args, span, span', rfl⟩
    | _ => cases h
  | _ => cases h

section Starts

variable {names : Recognizers} {s : Stmt}

/-- A declaration with a recognized right side acquires into its first target, and the rest of its
targets become plain locals. -/
theorem declarationActions_eq {call : Expr} {kind : AcquisitionKind} {targets : List Expr}
    (span : Span) (hx : x ≠ "_") (hkind : names.acquisition call = some kind)
    (hfirst : targets.head?.bind Expr.asIdent = some x) :
    names.declarationActions targets [call] span =
      .acquire x (errorTarget targets kind) span true :: declareActions (targets.drop 1) := by
  rw [Recognizers.declarationActions, Recognizers.acquisitionOf, hkind]
  simp [Recognizers.acquireActions, hfirst, hx]

/-- A declaration that starts a transaction reads its right side and then acquires. -/
theorem Stmt.Starts.actions_eq (h : s.Starts names x) (hx : x ≠ "_") :
    ∃ call errVar targets, s.actions names = .count :: .setSpan s.span :: exprsActions names [call]
      ++ .acquire x errVar s.span true :: declareActions targets := by
  obtain ⟨call, left, hcall, hfirst, hread⟩ : ∃ call left, (names.acquisition call).isSome = true ∧
      left.head?.bind Expr.asIdent = some x ∧ s.actions names =
        .count :: .setSpan s.span :: exprsActions names [call]
          ++ names.declarationActions left [call] s.span := by
    cases h with
    | @short call targets span span' hcall =>
      exact ⟨call, .ident x span :: targets, hcall, rfl, rfl⟩
    | @var call targets span hcall =>
      exact ⟨call, (x :: targets).map (.ident · span), hcall, rfl, rfl⟩
  obtain ⟨kind, hkind⟩ := Option.isSome_iff_exists.mp hcall
  rw [declarationActions_eq s.span hx hkind hfirst] at hread
  exact ⟨call, _, _, hread⟩

end Starts

namespace Part

variable {names : Recognizers} {x : String} {action : Action} {call : Expr} {targets : List Expr}
  {place span : Span}

/-- A call that is read as a commit or rollback of the variable. -/
theorem touches_of_finalize (h : action ∈ names.finalizeActions call)
    (htouches : action.Touches x) : (Part.expr call).Touches names x := by
  unfold Recognizers.finalizeActions at h
  split at h
  · rename_i name span method hcall
    obtain ⟨args, span', span'', rfl⟩ := Expr.methodCall_eq_some hcall
    split at h
    · rename_i hcommit
      obtain rfl := List.mem_singleton.mp h
      obtain rfl : name = x := htouches
      exact .finalized (Or.inl hcommit)
    · split at h
      · rename_i hrollback
        obtain rfl := List.mem_singleton.mp h
        obtain rfl : name = x := htouches
        exact .finalized (Or.inr hrollback)
      · cases h
  · cases h

/-- A call that is read as one that takes the variable over. -/
theorem touches_of_delegate (h : action ∈ names.delegateActions call)
    (htouches : action.Touches x) : (Part.expr call).Touches names x := by
  unfold Recognizers.delegateActions at h
  split at h
  · rename_i hhelper
    obtain rfl := List.mem_singleton.mp h
    obtain ⟨arg, harg, hident⟩ := List.mem_filterMap.mp htouches
    obtain ⟨span, rfl⟩ := Expr.asIdent_eq_some hident
    cases call with
    | call func args span' => exact .delegated hhelper harg
    | _ => cases harg
  · cases h

/-- A `defer` statement that is read as one that takes care of the variable. -/
theorem touches_of_defer (h : action ∈ names.deferActions call) (htouches : action.Touches x) :
    (Part.stmt (.deferStmt call place)).Touches names x := by
  unfold Recognizers.deferActions at h
  split at h
  · rename_i name span method hcall
    obtain ⟨args, span', span'', rfl⟩ := Expr.methodCall_eq_some hcall
    obtain rfl := List.mem_singleton.mp h
    obtain rfl : name = x := htouches
    exact .deferredReceiver
  · cases h
  · obtain ⟨name, hname, rfl⟩ := List.mem_map.mp h
    obtain rfl : name = x := htouches
    obtain ⟨arg, harg, heq⟩ := List.mem_filterMap.mp hname
    cases call with
    | call func args span =>
      unfold Recognizers.deferredArg at heq
      split at heq
      · cases heq
        exact .deferredAddress harg
      · cases heq
        exact .deferredArgument harg
      · cases heq
    | _ => cases harg

/-- An assignment that is read as a store of the variable into a field. -/
theorem touches_of_store {left right : List Expr} {stop : Nat}
    (h : action ∈ storeActions left right stop) (htouches : action.Touches x) :
    (Part.stmt (.assign left right place)).Touches names x := by
  obtain ⟨pair, hpair, heq⟩ := List.mem_filterMap.mp h
  split at heq
  · cases heq
    obtain rfl := htouches
    exact .stored hpair
  · cases heq

/-- Acquisitions do not touch a variable. -/
theorem not_touches_of_acquire {kind : AcquisitionKind} {declares : Bool}
    (h : action ∈ Recognizers.acquireActions targets kind span declares) : ¬ action.Touches x := by
  obtain ⟨name, errVar, rfl⟩ := Recognizers.eq_acquire_of_mem_acquireActions h
  exact fun htouches => htouches

theorem not_touches_of_declaration {right : List Expr}
    (h : action ∈ names.declarationActions targets right span) : ¬ action.Touches x := by
  rcases Recognizers.cases_of_mem_declarationActions h with ⟨kind, -, h⟩ | ⟨name, rfl⟩
  · exact not_touches_of_acquire h
  · exact fun htouches => htouches

/-- A part that is read as an action that touches the variable touches it. -/
theorem touches_of_handling {part : Part} (h : action ∈ part.handling names)
    (htouches : action.Touches x) : part.Touches names x := by
  unfold handling at h
  split at h
  · rcases List.mem_append.mp h with h | h
    · exact touches_of_finalize h htouches
    · exact touches_of_delegate h htouches
  · exact absurd htouches (not_touches_of_declaration h)
  · exact absurd htouches (not_touches_of_declaration h)
  · rcases List.mem_append.mp h with h | h
    · exact touches_of_store h htouches
    · split at h
      · exact absurd htouches (not_touches_of_acquire h)
      · cases h
  · obtain rfl := List.mem_singleton.mp h
    obtain ⟨e, he, hgives⟩ := givesAway_of_mem_handedOutBy _ htouches
    exact .returned he hgives
  · exact touches_of_defer h htouches
  · obtain ⟨name, -, rfl⟩ := List.mem_map.mp h
    exact False.elim htouches
  · cases h

end Part

/-! ## Bindings of an untouched variable -/

/-- Nothing has finalized the transaction or handed it over. -/
structure Binding.Untouched (b : Binding) : Prop where
  /-- No commit or rollback is recorded, neither direct nor deferred. -/
  unfinalized : ∀ event ∈ b.events, event.kind.isCommit = false ∧ event.kind.isRollback = false
  /-- The handle was neither returned nor given to a helper. -/
  kept : b.escaped = false
  unstored : b.fieldStoreEnd = none

theorem Binding.Untouched.new (id : BindingId) (name : String) (home acquiredIn : ScopeId)
    (span : Span) : (Binding.new id name home acquiredIn span).Untouched :=
  ⟨fun _ hevent => (by cases hevent), rfl, rfl⟩

/-- An untouched binding is reported at its acquisition. -/
theorem Binding.Untouched.verdict_eq {b : Binding} (h : b.Untouched) (tree : ScopeTree) :
    b.verdict tree = some (.noCommitRollback, b.acquisition) := by
  have hescaped : b.isEscaped = false := by
    rw [Binding.isEscaped, h.kept, h.unstored]
    rfl
  have hcommit : b.hasCommit = false := by
    rw [Binding.hasCommit, List.any_eq_false]
    exact fun event hevent => by simp [(h.unfinalized event hevent).1]
  have hrollback : b.hasRollback = false := by
    rw [Binding.hasRollback, List.any_eq_false]
    exact fun event hevent => by simp [(h.unfinalized event hevent).2]
  rw [Binding.verdict, hescaped, hcommit, hrollback]
  rfl

namespace Walk

variable {limits : Limits} {w u w' : Walk} {action : Action} {id : BindingId} {b b' : Binding}
  {x : String}

/-- A commit or rollback is recorded for a name that the action touches. -/
theorem Records.touches {event : Event} (h : w.Records action id event)
    (hkind : ¬ (event.kind.isCommit = false ∧ event.kind.isRollback = false)) :
    ∃ name, action.Touches name ∧ w.resolve name = some id := by
  cases h with
  | direct hresolve _ _ _ _ | inDeferred hresolve _ _ | deferred hresolve _ _ =>
    exact ⟨_, rfl, hresolve⟩
  | @exit how _ _ _ _ heq _ =>
    refine absurd ?_ hkind
    rw [heq]
    cases how <;> exact ⟨rfl, rfl⟩
  | mention _ heq _ | capture _ heq _ =>
    refine absurd ?_ hkind
    rw [heq]
    exact ⟨rfl, rfl⟩
  | acquire _ heq _ =>
    refine absurd ?_ hkind
    rcases heq with heq | heq <;> rw [heq] <;> exact ⟨rfl, rfl⟩

/-- A handle is handed over under a name that the action touches. -/
theorem HandsOver.touches (h : w.HandsOver action id) :
    ∃ name, action.Touches name ∧ w.resolve name = some id := by
  obtain ⟨names, name, rfl | rfl, hname, hresolve⟩ := h
  · exact ⟨name, hname, hresolve⟩
  · exact ⟨name, hname, hresolve⟩

theorem Stores.touches (h : w.Stores action id) :
    ∃ name, action.Touches name ∧ w.resolve name = some id := by
  obtain ⟨name, stop, rfl, hresolve⟩ := h
  exact ⟨name, rfl, hresolve⟩

/-- A binding stays untouched where the action touches no name that means it. -/
theorem Changes.untouched (h : w.Changes action id b b')
    (hquiet : ∀ name, action.Touches name → w.resolve name ≠ some id) (hb : b.Untouched) :
    b'.Untouched := by
  have hnone : ¬ ∃ name, action.Touches name ∧ w.resolve name = some id := by
    rintro ⟨name, htouches, hresolve⟩
    exact hquiet name htouches hresolve
  refine ⟨fun event hevent => ?_, ?_, ?_⟩
  · obtain ⟨recorded, hevents, hrecorded⟩ := h.events
    rw [hevents, List.mem_append] at hevent
    rcases hevent with hevent | hevent
    · exact hb.unfinalized event hevent
    · apply Classical.byContradiction
      intro hkind
      exact hnone ((hrecorded event hevent).touches hkind)
  · cases hescaped : b'.escaped with
    | false => rfl
    | true =>
      rcases h.escaped hescaped with hold | hover
      · rw [hb.kept] at hold
        cases hold
      · exact absurd hover.touches hnone
  · rcases h.stored with hsame | hstores
    · rw [hsame, hb.unstored]
    · exact absurd hstores.touches hnone

/-- An action that does not touch a variable keeps its bindings untouched. -/
theorem untouched_of_exec (hwf : w.WellFormed) (hexec : w.exec limits action = .ok u)
    (hquiet : ¬ action.Touches x) (h : ∀ b ∈ w.bindings, b.name = x → b.Untouched) :
    ∀ b ∈ u.bindings, b.name = x → b.Untouched := by
  have hrewrites := exec_rewrites hwf.indexed hexec
  intro b' hb' hname
  obtain ⟨i, hi⟩ := List.mem_iff_getElem?.mp hb'
  rcases hrewrites.cases hi with
    ⟨b, hget, hchanges⟩ | ⟨name, errVar, span, declares, home, acquiredIn, rfl, hchanges⟩
  · have hold : b.name = x := hchanges.name_eq.symm.trans hname
    refine hchanges.untouched (fun name htouches hresolve => hquiet ?_)
      (h b (List.mem_of_getElem? hget) hold)
    -- a name that means the binding is its own
    rw [← hold, (Indexed.of_resolve hwf.indexed hresolve hget).1]
    exact htouches
  · exact hchanges.untouched (fun _ htouches => False.elim htouches) (.new _ _ _ _ _)

/-- A run of such actions keeps them untouched. -/
theorem untouched_of_run {actions : List Action} (hsound : w.Sound limits actions)
    (hrun : w.run limits actions = .ok w') (hquiet : ∀ action ∈ actions, ¬ action.Touches x)
    (h : ∀ b ∈ w.bindings, b.name = x → b.Untouched) :
    ∀ b ∈ w'.bindings, b.name = x → b.Untouched :=
  hsound.preserves (P := fun w => ∀ b ∈ w.bindings, b.name = x → b.Untouched) hrun
    (fun haction hwf hexec hu => untouched_of_exec hwf hexec (hquiet _ haction) hu) h

/-- A new binding keeps its name when its error variable is noted. -/
theorem exists_named_addBinding (v : Walk) (home acquiredIn : ScopeId) (span : Span)
    (errVar : Option String) :
    ∃ b ∈ ((v.addBinding x home acquiredIn span).2.awaitCheck
      (v.addBinding x home acquiredIn span).1 errVar).bindings, b.name = x := by
  have hedits : v.Edits (.declare x) false (v.addBinding x home acquiredIn span).2
      ((v.addBinding x home acquiredIn span).2.awaitCheck
        (v.addBinding x home acquiredIn span).1 errVar) := awaitCheck_edits _ errVar
  obtain ⟨b, hget, hname⟩ := KeepsNames.of_rewrites hedits.table v.bindings.length _
    List.getElem?_concat_length
  exact ⟨b, List.mem_of_getElem? hget, hname⟩

/-- After an acquisition there is a binding of the variable. -/
theorem exists_named_of_acquire (hindexed : w.Indexed) {errVar : Option String} {span : Span}
    {declares : Bool} (hexec : w.exec limits (.acquire x errVar span declares) = .ok u) :
    ∃ b ∈ u.bindings, b.name = x := by
  cases hresolve : w.resolve x with
  | some id =>
    -- whatever becomes of the old binding, it stays in the table
    obtain ⟨b, hget, hname, -⟩ := Indexed.get_of_resolve hindexed hresolve
    obtain ⟨b', hget', hname'⟩ :=
      KeepsNames.of_rewrites (exec_rewrites hindexed hexec) id b hget
    exact ⟨b', List.mem_of_getElem? hget', hname'.trans hname⟩
  | none =>
    rw [exec, acquire_eq, acquisition, hresolve, Option.bind_none] at hexec
    cases hdeclare : w.declareError errVar declares with
    | error e =>
      rw [hdeclare] at hexec
      cases hexec
    | ok v =>
      rw [hdeclare] at hexec
      cases hexec
      exact exists_named_addBinding v _ _ span errVar

end Walk

/-- The reports on a variable are those on its bindings. -/
theorem Tracked.violations_filter (function x : String) (tracked : Tracked) :
    (tracked.violations function).filter (·.variableName == x) =
      Tracked.violations function
        { tracked with bindings := tracked.bindings.filter (·.name == x) } := by
  rw [Tracked.violations, Tracked.violations, List.filter_filterMap, List.filterMap_filter]
  congr 1
  funext b
  cases b.verdict tracked.scopes with
  | none => simp
  | some verdict => by_cases hname : b.name = x <;> simp [Violation.new, hname]

/-- The reports on a variable whose bindings are untouched: one for each of them, in their order. -/
theorem violations_of_untouched (function : String) (tree : ScopeTree) (bindings : List Binding)
    (h : ∀ b ∈ bindings, b.name = x → b.Untouched) :
    (Tracked.violations function ⟨tree, bindings⟩).filter (·.variableName == x) =
      (bindings.filter (·.name == x)).map fun b =>
        Violation.new function x .noCommitRollback b.acquisition := by
  rw [Tracked.violations_filter, Tracked.violations]
  refine List.filterMap_eq_map_iff_forall_eq_some.mpr fun b hb => ?_
  obtain ⟨hmem, hname⟩ := List.mem_filter.mp hb
  rw [(h b hmem (eq_of_beq hname)).verdict_eq tree, eq_of_beq hname]
  rfl

namespace FunctionUnit

variable {limits : Limits} {names : Recognizers} {unit : FunctionUnit} {x : String} {w : Walk}
  {s : Stmt}

/-- A declaration that starts a transaction is read as an acquisition. -/
theorem exists_acquire (hx : x ≠ "_") (hs : s ∈ unit.statements) (hstarts : s.Starts names x) :
    ∃ errVar span, .acquire x errVar span true ∈ unit.actions names := by
  have hinfix : s.core names <:+: unit.actions names := infix_of_mem_statements hs
  have hcore : s.core names = s.actions names := by cases hstarts <;> rfl
  obtain ⟨call, errVar, targets, hread⟩ := hstarts.actions_eq hx
  rw [hcore, hread] at hinfix
  exact ⟨errVar, s.span, hinfix.subset (by simp)⟩

/-- Where a declaration starts a transaction in a variable, the table ends with a binding of it. -/
theorem exists_named_of_starts (hwalk : unit.walk limits names = .ok w) (hx : x ≠ "_")
    (hs : s ∈ unit.statements) (hstarts : s.Starts names x) : ∃ b ∈ w.bindings, b.name = x := by
  obtain ⟨errVar, span, hmem⟩ := exists_acquire hx hs hstarts
  obtain ⟨before, rest, hactions⟩ := List.append_of_mem hmem
  have hrun := run_of_walk hwalk
  have hsound := sound_of_actions limits hactions
  rw [hactions] at hrun
  obtain ⟨u, hbefore, hrest⟩ := Walk.run_append_eq_ok.mp hrun
  obtain ⟨v, hexec, hrest⟩ := Walk.run_cons_eq_ok.mp hrest
  have hsound := hsound.drop hbefore
  obtain ⟨b, hb, hname⟩ := Walk.exists_named_of_acquire hsound.wellFormed.indexed hexec
  obtain ⟨i, hi⟩ := List.mem_iff_getElem?.mp hb
  obtain ⟨b', hb', hname'⟩ := (hsound.2.2 v hexec).keepsNames hrest i b hi
  exact ⟨b', List.mem_of_getElem? hb', hname'.trans hname⟩

/-- No untouched transaction is missed. Where no part of a function touches a variable, the reports
on it are one for each of its bindings, critical, at the acquisition, and about the missing commit
and rollback; and there is one if a declaration outside function literals starts a transaction in
it. -/
theorem untouched_reported {tracked : Tracked} (h : unit.track limits names = .ok tracked)
    (hx : x ≠ "_") (huntouched : ∀ part ∈ unit.parts, ¬ part.Touches names x) :
    (tracked.violations unit.name).filter (·.variableName == x) =
      (tracked.bindings.filter (·.name == x)).map (fun b =>
        { function := unit.name
          variableName := x
          kind := .noCommitRollback
          severity := .critical
          message := ViolationKind.describe .noCommitRollback x
          span := b.acquisition }) ∧
    ((∃ s ∈ unit.statements, s.Starts names x) →
      ∃ v ∈ tracked.violations unit.name, v.variableName = x ∧ v.kind = .noCommitRollback ∧
        v.severity = .critical) := by
  obtain ⟨w, hwalk, rfl⟩ := exists_walk_of_track h
  have hquiet : ∀ action ∈ unit.actions names, ¬ action.Touches x := by
    intro action haction htouches
    obtain ⟨part, hpart, hmem⟩ := exists_part haction htouches.isHandling
    exact huntouched part hpart (Part.touches_of_handling hmem htouches)
  have hbindings : ∀ b ∈ w.bindings, b.name = x → b.Untouched := by
    refine Walk.untouched_of_run (unit.sound_actions limits names) (run_of_walk hwalk) hquiet ?_
    intro b hb
    cases hb
  have hreports := violations_of_untouched unit.name w.scopes w.bindings hbindings
  refine ⟨hreports, ?_⟩
  rintro ⟨s, hs, hstarts⟩
  obtain ⟨b, hb, hname⟩ := exists_named_of_starts hwalk hx hs hstarts
  have hreport : Violation.new unit.name x .noCommitRollback b.acquisition ∈
      (Tracked.violations unit.name ⟨w.scopes, w.bindings⟩).filter (·.variableName == x) := by
    rw [hreports]
    exact List.mem_map.mpr ⟨b, List.mem_filter.mpr ⟨hb, by simpa using hname⟩, rfl⟩
  exact ⟨_, (List.mem_filter.mp hreport).1, rfl, rfl, rfl⟩

/-- A function that starts a transaction, returns if that has failed, shares the handle with a
goroutine and commits something else. -/
def abandoned : FunctionUnit where
  name := "Export"
  body := {
    stmts := [
      .shortVarDecl [.ident "tx" {}, .ident "err" {}]
        [.call (.selector (.ident "db" {}) "Begin" {}) [] {}] {},
      .ifStmt {
        init := none
        cond := .ident "err" {}
        consequence := { stmts := [.returnStmt [] {}], span := {} }
        otherwise := none
        span := {} },
      .goStmt (.call (.ident "audit" {}) [.ident "tx" {}] {}) {},
      .exprStmt (.call (.selector (.ident "job" {}) "Commit" {}) [] {}) {}]
    span := {} }

/-- None of its parts touches the transaction, and the transaction is reported. -/
theorem untouched_reported_abandoned :
    ∃ tracked : Tracked, abandoned.track {} {} = .ok tracked ∧
      (∀ part ∈ abandoned.parts, ¬ part.Touches {} "tx") ∧
      (∃ s ∈ abandoned.statements, s.Starts {} "tx") ∧
      ∃ v ∈ tracked.violations "Export", v.variableName = "tx" ∧ v.kind = .noCommitRollback ∧
        v.severity = .critical := by
  have huntouched : ∀ part ∈ abandoned.parts, ¬ part.Touches {} "tx" := by
    intro part hpart htouches
    simp only [abandoned, FunctionUnit.parts, stmtsParts, Stmt.parts, Expr.parts, exprsParts,
      IfStmt.parts, stmtParts?, elseParts?, List.append_nil, List.cons_append, List.nil_append,
      List.mem_cons, List.not_mem_nil, or_false] at hpart
    cases htouches with
    | finalized _ | deferredReceiver | deferredArgument _ | deferredAddress _ | stored _ =>
      simp at hpart
    | returned he _ =>
      simp only [Part.stmt.injEq, Stmt.returnStmt.injEq, reduceCtorEq, false_or, or_false] at hpart
      rw [hpart.1] at he
      cases he
    | delegated hhelper _ =>
      simp only [Part.expr.injEq, reduceCtorEq, false_or, or_false] at hpart
      rcases hpart with hcall | hcall | hcall <;> rw [hcall] at hhelper <;> cases hhelper
  have hstarts : ∃ s ∈ abandoned.statements, s.Starts {} "tx" :=
    ⟨_, List.mem_cons_self, .short rfl⟩
  obtain ⟨tracked, htrack⟩ : ∃ tracked, abandoned.track {} {} = .ok tracked := ⟨_, rfl⟩
  exact ⟨tracked, htrack, huntouched, hstarts,
    (untouched_reported htrack (by decide) huntouched).2 hstarts⟩

end FunctionUnit

end TxLifecycle
