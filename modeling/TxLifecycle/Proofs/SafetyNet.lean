import TxLifecycle.Proofs.Frame
import TxLifecycle.Proofs.Prepared
import TxLifecycle.Verdict

/-!
# Deferred rollbacks

A deferred rollback is written down twice: on the `defer` statement, in the scope where that stands,
and among the events of the binding. The judgement reads the first of them to find a safety net and
the second one for all else, so the two must agree.

* `Walk.exec_rollsBack_iff` and `Walk.exec_rolledBackIn_iff`: an action adds to both the same
  rollbacks, which are those of `Walk.Defers`;
* `Walk.Matched`: hence the two agree at every moment of a walk;
* `Binding.verdict_of_hasSafetyNet`: what is left to judge where there is a safety net.

The main statement is `FunctionUnit.safetyNet_agrees`.
-/

namespace TxLifecycle

/-! ## On `defer` statements -/

namespace DeferRecord

variable {record : DeferRecord} {id other : BindingId} {defers : List DeferRecord}

@[simp]
theorem mem_note :
    other ∈ (record.note id).rollbacks ↔ other ∈ record.rollbacks ∨ other = id := by
  unfold note rollsBack
  split
  · -- the binding is there already
    rename_i hmem
    refine ⟨Or.inl, fun h => h.elim (fun hold => hold) ?_⟩
    rintro rfl
    simpa using hmem
  · simp

theorem nodup_note (h : record.rollbacks.Nodup) : (record.note id).rollbacks.Nodup := by
  unfold note rollsBack
  split
  · exact h
  · rename_i hmem
    have hnew : id ∉ record.rollbacks := by simpa using hmem
    refine List.nodup_append.mpr ⟨h, by simp, fun a ha b hb heq => hnew ?_⟩
    rwa [← List.mem_singleton.mp hb, ← heq]

/-- The statements of a list in which a rollback is noted on one. -/
theorem mem_modify_note {n : Nat} (h : record ∈ defers.modify n (·.note id)) :
    record ∈ defers ∨ ∃ old ∈ defers, record = old.note id := by
  obtain ⟨i, hi⟩ := List.mem_iff_getElem?.mp h
  rw [List.getElem?_modify] at hi
  obtain ⟨old, hold, rfl⟩ := Option.map_eq_some_iff.mp hi
  have hmem := List.mem_of_getElem? hold
  by_cases heq : n = i
  · exact Or.inr ⟨old, hmem, by simp [heq]⟩
  · exact Or.inl (by simpa [heq] using hmem)

/-- A rollback that one of the statements takes care of stays with it. -/
theorem exists_mem_modify_note (n : Nat) (id : BindingId) (hrecord : record ∈ defers)
    (hother : other ∈ record.rollbacks) :
    ∃ record' ∈ defers.modify n (·.note id), other ∈ record'.rollbacks := by
  obtain ⟨i, hi⟩ := List.mem_iff_getElem?.mp hrecord
  refine ⟨if n = i then record.note id else record, ?_, ?_⟩
  · apply List.mem_of_getElem? (i := i)
    rw [List.getElem?_modify, hi]
    split <;> rfl
  · split
    · exact mem_note.mpr (Or.inl hother)
    · exact hother

end DeferRecord

namespace ScopeTree

variable {tree tree' : ScopeTree} {scope : ScopeId} {id : BindingId}

/-- Some `defer` statement of the scope rolls the binding back. -/
def RollsBack (tree : ScopeTree) (scope : ScopeId) (id : BindingId) : Prop :=
  ∃ record ∈ tree.defersOf scope, id ∈ record.rollbacks

theorem any_rollsBack_iff :
    (tree.get? scope).any (·.rollsBack id) = true ↔ tree.RollsBack scope id := by
  rw [RollsBack, defersOf]
  cases tree.get? scope with
  | none => simp
  | some s => simp [Scope.rollsBack, DeferRecord.rollsBack]

/-- A rollback that is noted on the latest `defer` statement of a scope which has one. -/
theorem rollsBack_of_note (hnote : tree.noteDeferredRollback scope id = .ok tree')
    (hdefers : tree.defersOf scope ≠ []) : tree'.RollsBack scope id := by
  have hlatest : tree'.defersOf scope =
      (tree.defersOf scope).modify ((tree.defersOf scope).length - 1) (·.note id) := by
    rw [defersOf_modify (g := fun defers => defers.modify (defers.length - 1) (·.note id))
      (fun _ => rfl) hnote, if_pos rfl]
  have hlt : (tree.defersOf scope).length - 1 < (tree.defersOf scope).length := by
    have := List.length_pos_iff.mpr hdefers
    omega
  refine ⟨((tree.defersOf scope)[(tree.defersOf scope).length - 1]).note id, ?_, by simp⟩
  rw [hlatest]
  refine List.mem_of_getElem? (i := (tree.defersOf scope).length - 1) ?_
  simp [List.getElem?_eq_getElem hlt]

end ScopeTree

namespace Walk

variable {limits : Limits} {w u : Walk} {action : Action} {id : BindingId} {scope : ScopeId}
  {context : Context}

/-- Among the events of the binding is a deferred rollback for the scope. -/
def RolledBackIn (w : Walk) (id : BindingId) (scope : ScopeId) : Prop :=
  ∃ event ∈ w.eventsOf id, event.kind = .deferredRollback ∧ event.scope = scope

/-- What a deferred rollback does: it is noted in the scope and recorded for the binding. -/
theorem exec_defers (hexec : w.exec limits action = .ok u) (h : w.Defers action id scope) :
    w.scopes.noteDeferredRollback scope id = .ok u.scopes ∧
      ∃ event : Event, event.kind = .deferredRollback ∧ event.scope = scope ∧
        u.bindings = w.bindings.modify id (·.record event) := by
  have hrecord : w.recordDeferred id false scope = .ok u := by
    cases h with
    | called hresolve =>
      rw [exec, deferCall, hresolve] at hexec
      exact hexec
    | inLiteral hresolve hdefer =>
      rw [exec, finalize, hresolve] at hexec
      simpa only [hdefer] using hexec
  obtain ⟨tree, event, hkind, hscope, -, rfl, hnote⟩ := of_recordDeferred hrecord
  exact ⟨hnote, event, hkind, hscope, rfl⟩

/-- A binding that is rolled back is one of the table. -/
theorem Defers.exists_binding (h : w.Defers action id scope) (hindexed : w.Indexed) :
    ∃ b, w.bindings[id]? = some b := by
  cases h with
  | called hresolve | inLiteral hresolve _ =>
    obtain ⟨b, hget, -⟩ := hindexed.get_of_resolve hresolve
    exact ⟨b, hget⟩

/-- No other action records a deferred rollback. -/
theorem Records.defers {event : Event} (h : w.Records action id event)
    (hkind : event.kind = .deferredRollback) : w.Defers action id event.scope := by
  have hdeferred : ∀ {commit : Bool}, event.kind = deferredKind commit → commit = false := by
    grind [deferredKind]
  -- only the two forms of a deferred call leave events of this kind
  cases h with
  | inDeferred hresolve hscope hevent =>
    rw [hdeferred hevent]
    exact .inLiteral hresolve hscope
  | deferred hresolve hevent hscope =>
    rw [hdeferred hevent, hscope]
    exact .called hresolve
  | _ => grind [cases Exit, directKind, Exit.event]

/-- The deferred rollbacks among the events of a binding after an action. -/
theorem exec_rolledBackIn_iff (hindexed : w.Indexed) (hexec : w.exec limits action = .ok u) :
    u.RolledBackIn id scope ↔ w.RolledBackIn id scope ∨ w.Defers action id scope := by
  obtain ⟨recorded, hevents, hrecords⟩ := (exec_rewrites hindexed hexec).eventsOf id
  constructor
  · rintro ⟨event, hevent, hkind, rfl⟩
    rw [hevents] at hevent
    rcases List.mem_append.mp hevent with hold | hnew
    · exact Or.inl ⟨event, hold, hkind, rfl⟩
    · exact Or.inr ((hrecords event hnew).defers hkind)
  · rintro (⟨event, hevent, hkind⟩ | hdefers)
    · exact ⟨event, by rw [hevents]; exact List.mem_append_left _ hevent, hkind⟩
    · -- the event goes to a binding that is there, so it is not lost
      obtain ⟨b, hget⟩ := hdefers.exists_binding hindexed
      obtain ⟨-, event, hkind, hscope, hbindings⟩ := exec_defers hexec hdefers
      refine ⟨event, ?_, hkind, hscope⟩
      rw [eventsOf, hbindings, List.getElem?_modify, hget]
      simp [Binding.record]

section

variable (hexec : w.exec limits action = .ok u)
include hexec

/-- A rollback that a `defer` statement takes care of stays there. -/
theorem exec_rollsBack_of_rollsBack (h : w.scopes.RollsBack scope id) :
    u.scopes.RollsBack scope id := by
  obtain ⟨record, hrecord, hid⟩ := h
  rw [ScopeTree.RollsBack]
  rcases exec_defersOf_cases hexec scope with heq | ⟨-, -, heq⟩ | ⟨noted, -, heq⟩ <;> rw [heq]
  · exact ⟨record, hrecord, hid⟩
  · exact ⟨record, List.mem_append_left _ hrecord, hid⟩
  · exact DeferRecord.exists_mem_modify_note _ noted hrecord hid

/-- Any other one has just been noted. -/
theorem exec_rollsBack_cases (h : u.scopes.RollsBack scope id) :
    w.scopes.RollsBack scope id ∨ w.Defers action id scope := by
  obtain ⟨record, hrecord, hid⟩ := h
  rcases exec_defersOf_cases hexec scope with heq | ⟨-, -, heq⟩ | ⟨noted, hnoted, heq⟩ <;>
    rw [heq] at hrecord
  · exact Or.inl ⟨record, hrecord, hid⟩
  · -- a new statement rolls nothing back yet
    rw [List.mem_append, List.mem_singleton] at hrecord
    rcases hrecord with hold | rfl
    · exact Or.inl ⟨record, hold, hid⟩
    · cases hid
  · -- what is noted on the latest statement is what `Defers` says
    rcases DeferRecord.mem_modify_note hrecord with hold | ⟨old, hold, rfl⟩
    · exact Or.inl ⟨record, hold, hid⟩
    · rcases DeferRecord.mem_note.mp hid with hid | rfl
      · exact Or.inl ⟨old, hold, hid⟩
      · exact Or.inr hnoted

/-- The rollbacks that the `defer` statements of a scope take care of after an action. -/
theorem exec_rollsBack_iff (hdefers : w.Defers action id scope → w.scopes.defersOf scope ≠ []) :
    u.scopes.RollsBack scope id ↔ w.scopes.RollsBack scope id ∨ w.Defers action id scope := by
  refine ⟨exec_rollsBack_cases hexec, ?_⟩
  rintro (hold | hnow)
  · exact exec_rollsBack_of_rollsBack hexec hold
  · exact ScopeTree.rollsBack_of_note (exec_defers hexec hnow).1 (hdefers hnow)

/-- No action makes a `defer` statement list a binding twice. -/
theorem exec_nodup_rollbacks (h : ∀ record ∈ w.scopes.defersOf scope, record.rollbacks.Nodup) :
    ∀ record ∈ u.scopes.defersOf scope, record.rollbacks.Nodup := by
  intro record hrecord
  rcases exec_defersOf_cases hexec scope with heq | ⟨-, -, heq⟩ | ⟨noted, -, heq⟩ <;>
    rw [heq] at hrecord
  · exact h record hrecord
  · rw [List.mem_append, List.mem_singleton] at hrecord
    rcases hrecord with hold | rfl
    · exact h record hold
    · exact .nil
  · rcases DeferRecord.mem_modify_note hrecord with hold | ⟨old, hold, rfl⟩
    · exact h record hold
    · exact DeferRecord.nodup_note (h old hold)

end

/-! ## The two agree -/

/-- What the scopes and the bindings know of deferred rollbacks agrees. -/
structure Matched (w : Walk) : Prop where
  /-- A `defer` statement takes care of a binding where the binding knows of it. -/
  agree : ∀ {scope : ScopeId} {id : BindingId},
    w.scopes.RollsBack scope id ↔ w.RolledBackIn id scope
  /-- No `defer` statement lists a binding twice. -/
  once : ∀ {scope : ScopeId}, ∀ record ∈ w.scopes.defersOf scope, record.rollbacks.Nodup
  /-- Where the function literal of a `defer` statement is read, that statement is there. -/
  registered : ∀ context ∈ w.context :: w.outer, ∀ scope ∈ context.deferScope,
    w.scopes.defersOf scope ≠ []

/-- The surroundings of the code and of the bodies around it: those of before, as far as the `defer`
statement and the launched calls go, and those of the body that the action opens. -/
theorem exec_context_cases (hindexed : w.Indexed) (hexec : w.exec limits action = .ok u)
    (hcontext : context ∈ u.context :: u.outer) :
    (∃ c ∈ w.context :: w.outer, context.deferScope = c.deferScope ∧
      context.launches = c.launches) ∨
    ∃ kind, action = .openBody kind ∧
      context = w.context.enterBody kind w.scopes.current w.scopes.scopes.length := by
  have hkept : context ∈ w.context :: w.outer → ∃ c ∈ w.context :: w.outer,
      context.deferScope = c.deferScope ∧ context.launches = c.launches :=
    fun hmem => ⟨context, hmem, rfl, rfl⟩
  -- most actions change the surroundings, if at all, in fields that are not looked at here
  have hsame : u.context.deferScope = w.context.deferScope →
      u.context.launches = w.context.launches → u.outer = w.outer →
      ∃ c ∈ w.context :: w.outer,
        context.deferScope = c.deferScope ∧ context.launches = c.launches := by
    intro hdefer hlaunches houter
    rw [houter] at hcontext
    rcases List.mem_cons.mp hcontext with rfl | hmem
    · exact ⟨w.context, List.mem_cons_self, hdefer, hlaunches⟩
    · exact hkept (List.mem_cons_of_mem _ hmem)
  cases action with
  | enter kind =>
    have hopens := exec_enter hexec
    exact .inl (hsame (by rw [hopens.context_eq]) (by rw [hopens.context_eq]) hopens.outer_eq)
  | enterArm kind =>
    have hopens := exec_enterArm hexec
    exact .inl (hsame (by rw [hopens.context_eq]) (by rw [hopens.context_eq]) hopens.outer_eq)
  | leave =>
    have hcloses := closes_of_leave hexec
    exact .inl (hsame (by rw [hcloses.context_eq]) (by rw [hcloses.context_eq]) hcloses.outer_eq)
  | openBody kind =>
    rw [(exec_openBody hexec).context_eq, (exec_openBody hexec).outer_eq] at hcontext
    rcases List.mem_cons.mp hcontext with rfl | hcontext
    · exact .inr ⟨kind, rfl, rfl⟩
    · exact .inl (hkept hcontext)
  | closeBody =>
    rw [(exec_closeBody hexec).context_eq, (exec_closeBody hexec).outer_eq] at hcontext
    refine .inl (hkept ?_)
    cases houter : w.outer with
    | nil => simpa [houter] using hcontext
    | cons first rest =>
      rw [houter] at hcontext
      exact List.mem_cons_of_mem _ hcontext
  | openConstruct _ _ _ | closeConstruct | openGuard _ | closeGuard =>
    cases hexec
    exact .inl (hsame rfl rfl rfl)
  | _ =>
    have hedits := exec_edits hindexed rfl hexec
    exact .inl (hsame (by rw [hedits.context]) (by rw [hedits.context]) hedits.outer)

/-- The function literals of `defer` statements that are being read: those of before, and the one
that the action opens. -/
theorem exec_deferScope_cases (hindexed : w.Indexed) (hexec : w.exec limits action = .ok u)
    (hcontext : context ∈ u.context :: u.outer) (hscope : context.deferScope = some scope) :
    (∃ c ∈ w.context :: w.outer, c.deferScope = some scope) ∨
      action = .openBody .deferred ∧ scope = w.scopes.current := by
  rcases exec_context_cases hindexed hexec hcontext with ⟨c, hc, hdefer, -⟩ | ⟨kind, rfl, rfl⟩
  · exact .inl ⟨c, hc, hdefer ▸ hscope⟩
  · cases kind with
    | closure => cases hscope
    | deferred =>
      cases hscope
      exact .inr ⟨rfl, rfl⟩
    | goroutine launch => exact .inl ⟨w.context, List.mem_cons_self, hscope⟩

/-- A prepared action keeps both in agreement: each of them gets what `Defers` says. -/
theorem exec_matched (h : w.Matched) (hwf : w.WellFormed) (hprepared : w.Prepared action)
    (hexec : w.exec limits action = .ok u) : u.Matched where
  agree := fun {scope id} => by
    have hdefers : w.Defers action id scope → w.scopes.defersOf scope ≠ [] := by
      intro hdefers
      cases hdefers with
      | called _ => exact hprepared
      | inLiteral _ hscope => exact h.registered w.context List.mem_cons_self scope hscope
    rw [exec_rollsBack_iff hexec hdefers, exec_rolledBackIn_iff hwf.indexed hexec, h.agree]
  once := exec_nodup_rollbacks hexec h.once
  registered := fun context hcontext scope hscope => by
    apply exec_defersOf_ne_nil hexec
    rcases exec_deferScope_cases hwf.indexed hexec hcontext hscope with ⟨c, hc, hold⟩ | ⟨rfl, rfl⟩
    · exact h.registered c hc scope hold
    · exact hprepared

/-- Nothing is deferred before a walk. -/
theorem Matched.init : ({} : Walk).Matched where
  agree := fun {scope id} => by
    constructor
    · rintro ⟨record, hrecord, -⟩
      cases scope <;> cases hrecord
    · rintro ⟨event, hevent, -⟩
      cases hevent
  once := fun {scope} record hrecord => by cases scope <;> cases hrecord
  registered := fun context hcontext scope hscope => by
    rw [List.mem_singleton.mp hcontext] at hscope
    cases hscope

end Walk

/-! ## What is left to judge -/

variable {b : Binding} {tree : ScopeTree} {span : Span} {kind : ViolationKind}

/-- Under a safety net the shape of the code is not judged any more: what counts is whether the
variable got another handle, whether there is a commit, and whether its error is looked at. -/
theorem Binding.verdict_of_hasSafetyNet (hnet : b.hasSafetyNet tree = true)
    (hrollback : b.hasRollback = true) :
    b.verdict tree =
      if b.isEscaped then none
      else if b.has .shadowing then some (.shadowedTransaction, b.acquisition)
      else if b.has .reassignment then some (.variableReassignment, b.acquisition)
      else if !b.hasCommit then some (.noCommit, b.acquisition)
      else b.discardedCommit := by
  rw [Binding.verdict, hnet, hrollback]
  simp

/-- A commit whose error is thrown away is reported as just that. -/
theorem Binding.kind_of_discardedCommit (h : b.discardedCommit = some (kind, span)) :
    kind = .commitErrorIgnored := by
  obtain ⟨event, -, heq⟩ := Option.map_eq_some_iff.mp h
  exact (congrArg Prod.fst heq).symm

/-- Under a safety net four things can be reported, the first two of them for want of the handle. -/
theorem Binding.kind_of_hasSafetyNet (hnet : b.hasSafetyNet tree = true)
    (hrollback : b.hasRollback = true) (hverdict : b.verdict tree = some (kind, span)) :
    b.has .shadowing = true ∧ kind = .shadowedTransaction ∨
      b.has .reassignment = true ∧ kind = .variableReassignment ∨
      kind = .noCommit ∨ kind = .commitErrorIgnored := by
  rw [Binding.verdict_of_hasSafetyNet hnet hrollback] at hverdict
  -- one case for each of the checks that are left, in their order
  by_cases hescaped : b.isEscaped = true
  · simp [hescaped] at hverdict
  by_cases hshadowing : b.has .shadowing = true
  · have heq : .shadowedTransaction = kind ∧ b.acquisition = span := by
      simpa [hescaped, hshadowing] using hverdict
    exact Or.inl ⟨hshadowing, heq.1.symm⟩
  by_cases hreassigned : b.has .reassignment = true
  · have heq : .variableReassignment = kind ∧ b.acquisition = span := by
      simpa [hescaped, hshadowing, hreassigned] using hverdict
    exact Or.inr (Or.inl ⟨hreassigned, heq.1.symm⟩)
  by_cases hcommit : b.hasCommit = true
  · have hdiscarded : b.discardedCommit = some (kind, span) := by
      simpa [hescaped, hshadowing, hreassigned, hcommit] using hverdict
    exact Or.inr (Or.inr (Or.inr (kind_of_discardedCommit hdiscarded)))
  · have heq : .noCommit = kind ∧ b.acquisition = span := by
      simpa [hescaped, hshadowing, hreassigned, hcommit] using hverdict
    exact Or.inr (Or.inr (Or.inl heq.1.symm))

namespace FunctionUnit

variable {limits : Limits} {names : Recognizers} {unit : FunctionUnit} {w : Walk}
  {tracked : Tracked} {b : Binding}

/-- At every moment of a walk the two agree. -/
theorem matched_of_run {before rest : List Action} (hactions : unit.actions names = before ++ rest)
    (hrun : Walk.run limits {} before = .ok w) : w.Matched :=
  invariant_of_run (Q := Walk.Matched) hactions hrun
    (fun hwf _ hprepared hexec h => Walk.exec_matched h hwf hprepared hexec) .init

theorem matched_of_walk (hwalk : unit.walk limits names = .ok w) : w.Matched := by
  have hrun := run_of_walk hwalk
  exact matched_of_run (List.append_nil _).symm hrun

section

variable (htrack : unit.track limits names = .ok tracked) (hb : b ∈ tracked.bindings)
include htrack hb

/-- A scope rolls a binding back where the binding has such an event. -/
theorem rollsBack_iff_event {scope : ScopeId} :
    (tracked.scopes.get? scope).any (·.rollsBack b.id) = true ↔
      ∃ event ∈ b.events, event.kind = .deferredRollback ∧ event.scope = scope := by
  obtain ⟨w, hwalk, rfl⟩ := exists_walk_of_track htrack
  have hwf := wellFormed_of_walk hwalk
  -- the binding stands at the position that its index names
  obtain ⟨i, hi⟩ := List.mem_iff_getElem?.mp hb
  obtain rfl : b.id = i := hwf.indexed hi
  rw [ScopeTree.any_rollsBack_iff, (matched_of_walk hwalk).agree, Walk.RolledBackIn,
    Walk.eventsOf_eq hi]

/-- There is a safety net where a deferred rollback was recorded for the acquiring scope or for one
around it. -/
theorem hasSafetyNet_iff_event :
    b.hasSafetyNet tracked.scopes = true ↔ ∃ event ∈ b.events, event.kind = .deferredRollback ∧
      event.scope ∈ tracked.scopes.ancestors b.acquiredIn := by
  rw [Binding.hasSafetyNet, List.any_eq_true]
  constructor
  · rintro ⟨scope, hscope, hrolls⟩
    obtain ⟨event, hevent, hkind, rfl⟩ := (rollsBack_iff_event htrack hb).mp hrolls
    exact ⟨event, hevent, hkind, hscope⟩
  · rintro ⟨event, hevent, hkind, hscope⟩
    exact ⟨event.scope, hscope, (rollsBack_iff_event htrack hb).mpr ⟨event, hevent, hkind, rfl⟩⟩

/-- A binding with a safety net has been rolled back. -/
theorem hasRollback_of_hasSafetyNet (hnet : b.hasSafetyNet tracked.scopes = true) :
    b.hasRollback = true := by
  obtain ⟨event, hevent, hkind, -⟩ := (hasSafetyNet_iff_event htrack hb).mp hnet
  exact List.any_eq_true.mpr ⟨event, hevent, by rw [hkind]; rfl⟩

end

/-- **Safety nets agree.** In every function that is read to its end, the `defer` statements of a
scope roll a binding back exactly where the binding has a deferred rollback for that scope, and none
of them lists a binding twice. So a safety net is never judged without the rollback, and it leaves
nothing to report but a variable that got another handle, a missing commit, or an error of a commit
that is thrown away. -/
theorem safetyNet_agrees (limits : Limits) (names : Recognizers) (unit : FunctionUnit)
    {tracked : Tracked} (htrack : unit.track limits names = .ok tracked) :
    (∀ b ∈ tracked.bindings, ∀ scope : ScopeId,
      (tracked.scopes.get? scope).any (·.rollsBack b.id) = true ↔
        ∃ event ∈ b.events, event.kind = .deferredRollback ∧ event.scope = scope) ∧
    (∀ s ∈ tracked.scopes.scopes, ∀ record ∈ s.defers, record.rollbacks.Nodup) ∧
    ∀ b ∈ tracked.bindings, b.hasSafetyNet tracked.scopes = true →
      ∀ {kind : ViolationKind} {span : Span}, b.verdict tracked.scopes = some (kind, span) →
        kind ∈ [.shadowedTransaction, .variableReassignment, .noCommit, .commitErrorIgnored] := by
  refine ⟨fun b hb scope => rollsBack_iff_event htrack hb, fun s hs record hrecord => ?_,
    fun b hb hnet kind span hverdict => ?_⟩
  · obtain ⟨w, hwalk, rfl⟩ := exists_walk_of_track htrack
    obtain ⟨scope, hscope⟩ := List.mem_iff_getElem?.mp hs
    have honce : ∀ record ∈ w.scopes.defersOf scope, record.rollbacks.Nodup :=
      (matched_of_walk hwalk).once
    rw [ScopeTree.defersOf, ScopeTree.get?, hscope] at honce
    exact honce record hrecord
  · have hrollback := hasRollback_of_hasSafetyNet htrack hb hnet
    rcases Binding.kind_of_hasSafetyNet hnet hrollback hverdict with
      ⟨-, rfl⟩ | ⟨-, rfl⟩ | rfl | rfl <;> simp

/-- A transaction that a deferred function literal rolls back, and that is committed in a loop
without a look at the error. -/
def nettedInLiteral : FunctionUnit where
  name := "Drain"
  body := {
    stmts := [
      .shortVarDecl [.ident "tx" {}, .ident "err" {}]
        [.call (.selector (.ident "db" {}) "Begin" {}) [] {}] {},
      .deferStmt (.call (.funcLit [] {
        stmts := [
          .ifStmt {
            init := none
            cond := .ident "err" {}
            consequence := {
              stmts := [.exprStmt (.call (.selector (.ident "tx" {}) "Rollback" {}) [] {}) {}]
              span := {} }
            otherwise := none
            span := {} }]
        span := {} } {}) [] {}) {},
      .forStmt none none none {
        stmts := [.assign [.ident "_" {}] [.call (.selector (.ident "tx" {}) "Commit" {}) [] {}] {}]
        span := {} } {}]
    span := {} }

/-- The rollback in the literal counts for the scope of the `defer` statement, and of all that is
wrong with the function only the error is reported. -/
theorem safetyNet_agrees_nettedInLiteral :
    ∃ (tracked : Tracked) (b : Binding) (kind : ViolationKind) (span : Span),
      nettedInLiteral.track {} {} = .ok tracked ∧ tracked.bindings = [b] ∧
      (∃ event ∈ b.events, event.kind = .deferredRollback ∧ event.scope = ScopeTree.root) ∧
      b.hasSafetyNet tracked.scopes = true ∧ b.verdict tracked.scopes = some (kind, span) ∧
      kind ∈ [.shadowedTransaction, .variableReassignment, .noCommit, .commitErrorIgnored] := by
  have hwalk : ∃ (tracked : Tracked) (b : Binding) (kind : ViolationKind) (span : Span),
      nettedInLiteral.track {} {} = .ok tracked ∧ tracked.bindings = [b] ∧
      (tracked.scopes.get? ScopeTree.root).any (·.rollsBack b.id) = true ∧
      b.hasSafetyNet tracked.scopes = true ∧ b.verdict tracked.scopes = some (kind, span) :=
    ⟨_, _, _, _, rfl, rfl, rfl, rfl, rfl⟩
  obtain ⟨tracked, b, kind, span, htrack, hbindings, hrolls, hnet, hverdict⟩ := hwalk
  obtain ⟨hagree, -, hkinds⟩ := safetyNet_agrees {} {} nettedInLiteral htrack
  have hb : b ∈ tracked.bindings := by rw [hbindings]; exact List.mem_singleton.mpr rfl
  exact ⟨tracked, b, kind, span, htrack, hbindings, (hagree b hb ScopeTree.root).mp hrolls, hnet,
    hverdict, hkinds b hb hnet hverdict⟩

end FunctionUnit

end TxLifecycle
