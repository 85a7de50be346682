import TxLifecycle.Check
import TxLifecycle.Proofs.Walks

/-!
# A walk fails at its limits only

Some operations on scopes can fail in ways that no function causes: a scope that is not there, an
attempt to leave the function's own scope. This file shows that reading a function never comes
there, and what follows for the check of a file.

* `Walk.exec_inner_bounded`: an action that opens and closes nothing succeeds in every well-formed
  state, unless it counts one statement too many;
* `Flow.sound`: reading a flow succeeds or exceeds a limit, and every state on the way is
  well-formed;
* the walk of a function therefore ends with everything closed that it opened, every lookup in its
  table finds a binding, and a file is checked function by function.
-/

namespace TxLifecycle

/-- The computation succeeds or exceeds one of the limits. -/
def Bounded (limits : Limits) {α : Type} (x : Except AnalysisError α) : Prop :=
  ∀ e, x = .error e →
    e = .stepLimitExceeded limits.maxSteps ∨ e = .nestingLimitExceeded limits.maxDepth

namespace Bounded

variable {limits : Limits} {α β : Type} {x : Except AnalysisError α}

theorem of_ok {a : α} (h : x = .ok a) : Bounded limits x := by
  intro e he
  rw [h] at he
  cases he

/-- One computation after the other. -/
theorem bind {f : α → Except AnalysisError β} (hx : Bounded limits x)
    (hf : ∀ a, x = .ok a → Bounded limits (f a)) : Bounded limits (x >>= f) := by
  cases x with
  | error e =>
    intro e' he
    exact hx e' (by cases he; rfl)
  | ok a => exact hf a rfl

theorem map {f : α → β} (hx : Bounded limits x) : Bounded limits (x.map f) := by
  cases x with
  | error e =>
    intro e' he
    exact hx e' (by cases he; rfl)
  | ok a => exact of_ok rfl

end Bounded

/-- Changing a table at several different positions changes each of them once. -/
theorem getElem?_foldl_modify {α : Type} {ids : List Nat} (hnodup : ids.Nodup) (f : α → α)
    (table : List α) (i : Nat) :
    (ids.foldl (fun table id => table.modify id f) table)[i]? =
      table[i]?.map fun a => if i ∈ ids then f a else a := by
  induction ids generalizing table with
  | nil => simp
  | cons id rest ih =>
    obtain ⟨hid, hrest⟩ := List.nodup_cons.mp hnodup
    rw [List.foldl_cons, ih hrest, List.getElem?_modify]
    cases table[i]? with
    | none => rfl
    | some a =>
      -- no position comes twice, so the rest leaves the first one alone
      by_cases heq : id = i
      · subst heq
        simp [hid]
      · simp [heq, Ne.symm heq]

namespace Walk

variable {limits : Limits} {w v u w' : Walk} {id : BindingId} {action : Action} {context : Context}
  {outer : List Context} {arm? : Option ConstructId} {kind : ScopeKind} {tree : ScopeTree}

/-! ## Parts of actions that always succeed -/

/-- A scope that is there can be changed. -/
theorem modify_ok {scope : Nat} (h : scope < tree.scopes.length) (f : Scope → Scope) :
    tree.modify scope f = .ok { tree with scopes := tree.scopes.modify scope f } := by
  rw [ScopeTree.modify, ScopeTree.get?, List.getElem?_eq_getElem h]

/-- An event can be recorded for a scope that is there. -/
theorem recordAt_ok {scope : Nat} (h : scope < v.scopes.scopes.length) (id : BindingId)
    (kind : EventKind) (span : Span) (discarded : Bool) :
    ∃ v', v.recordAt id kind span scope discarded = .ok v' ∧ v'.scopes = v.scopes := by
  rw [recordAt, ScopeTree.get, ScopeTree.get?, List.getElem?_eq_getElem h]
  exact ⟨_, rfl, rfl⟩

/-- Recording for several bindings records one and the same event. -/
theorem recordAll_eq (h : v.scopes.WellFormed) (ids : List BindingId) (kind : EventKind) :
    ∃ event : Event, event.kind = kind ∧ event.span = v.context.span ∧
      event.scope = v.scopes.current ∧ event.inClosure = decide (0 < v.context.closureDepth) ∧
      v.recordAll ids kind = .ok { v with
        bindings := ids.foldl (fun table id => table.modify id (·.record event)) v.bindings } := by
  obtain ⟨s, hs⟩ : ∃ s, v.scopes.get? v.scopes.current = some s :=
    ⟨_, List.getElem?_eq_getElem h.current_lt⟩
  let event : Event :=
    { kind, span := v.context.span, scope := v.scopes.current, loopDepth := s.loopDepth
      inClosure := decide (0 < v.context.closureDepth) }
  refine ⟨event, rfl, rfl, rfl, rfl, ?_⟩
  -- the event depends on the scopes and on the surroundings, which stay
  have hfold : ∀ table, ({ v with bindings := table } : Walk).recordAll ids kind = .ok { v with
      bindings := ids.foldl (fun table id => table.modify id (·.record event)) table } := by
    induction ids with
    | nil => exact fun _ => rfl
    | cons id rest ih =>
      intro table
      rw [recordAll, List.foldlM_cons, record, recordAt, ScopeTree.get]
      simp only [hs]
      exact ih _
  exact hfold v.bindings

/-- A deferred commit or rollback can be recorded for a scope that is there. -/
theorem recordDeferred_ok {scope : Nat} (h : scope < v.scopes.scopes.length) (id : BindingId)
    (commit : Bool) : ∃ v', v.recordDeferred id commit scope = .ok v' := by
  unfold recordDeferred
  split
  · obtain ⟨v', hv', -⟩ := recordAt_ok h id .deferredCommit v.context.span false
    exact ⟨v', hv'⟩
  · -- noting the rollback changes a scope, but not which scopes there are
    rw [ScopeTree.noteDeferredRollback, modify_ok h]
    have hlt : scope < (v.scopes.scopes.modify scope (·.noteRollback id)).length := by
      rw [List.length_modify]
      exact h
    obtain ⟨v', hv', -⟩ := recordAt_ok
      (v := v.setScopes { v.scopes with scopes := v.scopes.scopes.modify scope _ })
      hlt id .deferredRollback v.context.span false
    exact ⟨v', hv'⟩

section

variable (h : v.scopes.WellFormed)
include h

theorem recordCapture_ok (id : BindingId) (span : Span) :
    ∃ v', v.recordCapture id span = .ok v' ∧ v'.scopes = v.scopes := by
  unfold recordCapture
  dsimp only
  split
  · exact ⟨v, rfl, rfl⟩
  · exact recordAt_ok h.current_lt id .goroutineCapture span false

theorem recordCaptures_ok (id : BindingId) (launches : List Launch) :
    ∃ v', launches.foldlM (fun w launch => w.recordCapture id launch.span) v = .ok v' := by
  induction launches generalizing v with
  | nil => exact ⟨v, rfl⟩
  | cons launch launches ih =>
    obtain ⟨u, hu, hscopes⟩ := recordCapture_ok h id launch.span
    obtain ⟨v', hv'⟩ := ih (hscopes ▸ h)
    exact ⟨v', bind_eq_ok.mpr ⟨u, hu, hv'⟩⟩

theorem updateScopes_ok (f : Scope → Scope) :
    ∃ v', v.updateScopes (fun tree => tree.modify tree.current f) = .ok v' := by
  rw [updateScopes, modify_ok h.current_lt]
  exact ⟨_, rfl⟩

/-- The binding of an acquisition is found or made. -/
theorem bind_ok (existing : Option Binding) (name : String) (span : Span) (declares : Bool) :
    ∃ result, v.bind existing name span declares = .ok result := by
  have hrecord : ∀ id kind, ∃ v', v.record id kind = .ok v' := by
    intro id kind
    obtain ⟨v', hv', -⟩ := recordAt_ok h.current_lt id kind v.context.span false
    exact ⟨v', hv'⟩
  unfold Walk.bind reacquire
  split
  · exact ⟨_, rfl⟩
  · rename_i old
    split
    · split
      · exact ⟨_, rfl⟩
      · obtain ⟨v', hv'⟩ := hrecord old.id .shadowing
        rw [hv']
        exact ⟨_, rfl⟩
    · split
      · exact ⟨_, rfl⟩
      · split
        · exact ⟨_, rfl⟩
        · obtain ⟨v', hv'⟩ := hrecord old.id .reassignment
          rw [hv']
          exact ⟨_, rfl⟩

/-- The error variable of an acquisition can be declared. -/
theorem declareError_ok (errVar : Option String) (declares : Bool) :
    ∃ v', v.declareError errVar declares = .ok v' := by
  unfold declareError
  split
  · split
    · exact updateScopes_ok h _
    · exact ⟨v, rfl⟩
  · exact ⟨v, rfl⟩

end

/-! ## Actions -/

section

variable (h : w.WellFormed)
include h

theorem acquire_ok (name : String) (errVar : Option String) (span : Span) (declares : Bool) :
    ∃ w', w.acquire name errVar span declares = .ok w' := by
  obtain ⟨u, hu⟩ := declareError_ok h.tree errVar declares
  have hedits : w.Edits (.declare name) false w u := declareError_edits hu
  obtain ⟨result, hresult⟩ := bind_ok (hedits.wellFormed h.tree)
    ((w.resolve name).bind (w.bindings[·]?)) name span declares
  unfold acquire
  simp only [hu, hresult]
  exact ⟨_, rfl⟩

theorem mention_ok (name : String) (span : Span) : ∃ w', w.mention name span = .ok w' := by
  unfold mention
  split
  · exact ⟨w, rfl⟩
  · dsimp only
    split
    · exact ⟨_, rfl⟩
    · exact recordCaptures_ok (v := w.modifyBinding _ _) h.tree _ _

theorem finalize_ok (name : String) (commit : Bool) : ∃ w', w.finalize name commit = .ok w' := by
  unfold finalize
  split
  · exact ⟨w, rfl⟩
  · rename_i id _
    split
    · rename_i scope hdefer
      exact recordDeferred_ok (h.deferred w.context (by simp) scope hdefer) id commit
    · obtain ⟨v', hv', -⟩ := recordAt_ok h.tree.current_lt id
        (if commit then .directCommit else .directRollback) w.context.span (commit && w.discarding)
      exact ⟨v', hv'⟩

theorem deferCall_ok (name : String) (commit : Bool) : ∃ w', w.deferCall name commit = .ok w' := by
  unfold deferCall
  split
  · exact ⟨w, rfl⟩
  · exact recordDeferred_ok h.tree.current_lt _ commit

/-- Sharing a variable with a goroutine succeeds. -/
theorem capture_ok (name : String) (span : Span) : ∃ w', w.capture name span = .ok w' := by
  unfold capture
  split
  · exact ⟨w, rfl⟩
  · split
    · exact ⟨w, rfl⟩
    · obtain ⟨v', hv', -⟩ := recordCapture_ok h.tree _ span
      exact ⟨v', hv'⟩

theorem exit_ok (how : Exit) : ∃ w', w.exit how = .ok w' := by
  unfold exit
  split
  · exact ⟨w, rfl⟩
  · obtain ⟨event, -, -, -, -, hrecord⟩ := recordAll_eq h.tree w.exposed how.event
    rw [hrecord]
    refine updateScopes_ok ?_ _
    exact h.tree

/-- An action that opens and closes nothing succeeds, unless it counts one statement too many. -/
theorem exec_inner_bounded (hinner : action.isInner = true) :
    Bounded limits (w.exec limits action) := by
  have hok : ∀ {x : Except AnalysisError Walk}, (∃ w', x = .ok w') → Bounded limits x := by
    rintro x ⟨w', hw'⟩
    exact .of_ok hw'
  cases action with
  | count =>
    intro e he
    rw [exec, countStep] at he
    split at he
    · cases he
      exact Or.inl rfl
    · cases he
  | declare name | addDefer => exact hok (updateScopes_ok h.tree _)
  | mention name span => exact hok (mention_ok h name span)
  | acquire name errVar span declares => exact hok (acquire_ok h name errVar span declares)
  | finalize name commit => exact hok (finalize_ok h name commit)
  | deferCall name commit => exact hok (deferCall_ok h name commit)
  | capture name span => exact hok (capture_ok h name span)
  | exit how => exact hok (exit_ok h how)
  | enter _ | enterArm _ | leave | openConstruct _ _ _ | closeConstruct | openBody _
  | closeBody | openGuard _ | closeGuard => cases hinner
  | _ => exact .of_ok rfl

end

/-- What makes a binding exposed. -/
theorem mem_exposed_iff {b : Binding} (hindexed : w.Indexed) (hget : w.bindings[id]? = some b) :
    id ∈ w.exposed ↔ w.resolve b.name = some id ∧ b.isEscaped = false ∧
      (∀ guards ∈ w.context.guarded, id ∉ guards) ∧ b.guardedOnPath w.scopes = false := by
  obtain rfl := hindexed hget
  rw [exposed, List.mem_map]
  constructor
  · rintro ⟨c, hc, hid⟩
    obtain ⟨hc, hvisible⟩ := List.mem_filter.mp hc
    obtain ⟨i, hi⟩ := List.mem_iff_getElem?.mp hc
    -- the table holds one binding at this position
    obtain rfl : c = b := by
      rw [← hindexed hi, hid, hget] at hi
      exact (Option.some.inj hi).symm
    simp_all
  · rintro ⟨hresolve, hkept, hguard, hpath⟩
    -- a name never means a retired binding
    obtain ⟨-, -, hretired⟩ := hindexed.of_resolve hresolve hget
    exact ⟨b, List.mem_filter.mpr ⟨List.mem_of_getElem? hget, by simpa [*] using hguard⟩, rfl⟩

theorem nodup_exposed (hindexed : w.Indexed) : w.exposed.Nodup := by
  have hids : w.bindings.map (·.id) = List.range w.bindings.length := by
    refine List.ext_getElem? fun i => ?_
    rw [List.getElem?_map]
    cases hget : w.bindings[i]? with
    | none => simpa using hget
    | some b =>
      have hlt : i < w.bindings.length := (List.getElem?_eq_some_iff.mp hget).1
      simp [hindexed hget, hlt]
  refine List.Nodup.sublist (List.filter_sublist.map _) ?_
  rw [hids]
  exact List.nodup_range

/-- An exit outside function literals leaves one event on each exposed binding and nothing on the
others, and ends the scope. -/
theorem exec_exit {how : Exit} (h : w.WellFormed) (houtside : w.scopes.inClosure = false)
    (hexec : w.exec limits (.exit how) = .ok u) :
    ∃ event : Event, event.kind = how.event ∧ event.span = w.context.span ∧
      event.scope = w.scopes.current ∧ event.inClosure = decide (0 < w.context.closureDepth) ∧
      (∀ i, u.bindings[i]? =
        w.bindings[i]?.map fun b => if i ∈ w.exposed then b.record event else b) ∧
      w.scopes.markTerminated = .ok u.scopes := by
  obtain ⟨event, hkind, hspan, hscope, hclosure, hrecord⟩ :=
    recordAll_eq h.tree w.exposed how.event
  rw [exec, exit, houtside, if_neg Bool.false_ne_true, hrecord] at hexec
  obtain ⟨tree, htree, rfl⟩ := of_updateScopes hexec
  refine ⟨event, hkind, hspan, hscope, hclosure, fun i => ?_, htree⟩
  rw [setScopes, getElem?_foldl_modify (nodup_exposed h.indexed)]

/-- In a well-formed tree a scope can be opened. -/
theorem push_ok (h : tree.WellFormed) (kind : ScopeKind) :
    ∃ tree', tree.push kind = .ok (tree.scopes.length, tree') := by
  rw [ScopeTree.push, ScopeTree.get?, List.getElem?_eq_getElem h.current_lt]
  exact ⟨_, rfl⟩

theorem pushArm_ok (h : tree.WellFormed) (kind : ScopeKind) (construct : ConstructId) :
    ∃ result, tree.pushArm kind construct = .ok result := by
  obtain ⟨pushed, hpushed⟩ := push_ok h kind
  have hlt : tree.scopes.length < pushed.scopes.length := by
    rw [(ScopeTree.opens_of_push hpushed).2.length]
    exact Nat.lt_succ_self _
  exact ⟨_, bind_eq_ok.mpr ⟨_, hpushed, bind_eq_ok.mpr ⟨_, modify_ok hlt _, rfl⟩⟩⟩

section

variable (h : w.WellFormed)
include h

/-- Opening a scope succeeds below the limit. -/
theorem enter_bounded (kind : ScopeKind) : Bounded limits (w.enter limits kind) := by
  intro e he
  unfold enter at he
  split at he
  · cases he
    exact Or.inr rfl
  · obtain ⟨tree, htree⟩ := push_ok h.tree kind
    rw [htree] at he
    cases he

/-- Opening an arm succeeds below the limit. -/
theorem enterArm_bounded (kind : ScopeKind) : Bounded limits (w.enterArm limits kind) := by
  intro e he
  unfold enterArm at he
  split at he
  · cases he
    exact Or.inr rfl
  · obtain ⟨result, hresult⟩ := pushArm_ok h.tree kind (w.constructs.headD 0)
    rw [hresult] at he
    cases he

/-- Opening a body succeeds below the limit. -/
theorem openBody_bounded (kind : BodyKind) : Bounded limits (w.openBody limits kind) := by
  intro e he
  unfold openBody at he
  split at he
  · rename_i e' henter
    cases he
    exact enter_bounded h kind.scopeKind e henter
  · cases he

/-- A scope that was opened can be left again. -/
theorem leave_ok (hopens : w.Opens kind arm? context outer u) (hbody : u.Balanced v) :
    ∃ w', v.leave = .ok w' := by
  have hstack : v.scopes.stack = w.scopes.scopes.length :: w.scopes.stack := by
    rw [hbody.stack, hopens.tree.stack]
  have hnonempty := h.tree.current_mem
  cases hs : w.scopes.stack with
  | nil =>
    rw [hs] at hnonempty
    cases hnonempty
  | cons scope rest =>
    unfold leave ScopeTree.pop
    rw [hstack, hs]
    exact ⟨_, rfl⟩

/-- A body that was opened can be left again. -/
theorem closeBody_ok (hopens : w.Opens kind arm? context outer u) (hbody : u.Balanced v) :
    ∃ w', v.closeBody = .ok w' := by
  obtain ⟨w', hw'⟩ := leave_ok h hopens hbody
  unfold leave at hw'
  unfold closeBody leave
  split at hw'
  · cases hw'
  · rename_i id tree hpop
    rw [hpop]
    exact ⟨_, rfl⟩

end

/-! ## Names -/

/-- The bindings of the first state are in the second one, under the same names. -/
def KeepsNames (w w' : Walk) : Prop :=
  ∀ (id : BindingId) (b : Binding), w.bindings[id]? = some b →
    ∃ b', w'.bindings[id]? = some b' ∧ b'.name = b.name

theorem KeepsNames.refl (w : Walk) : w.KeepsNames w :=
  fun _ _ hget => ⟨_, hget, rfl⟩

theorem KeepsNames.trans (h : w.KeepsNames u) (h' : u.KeepsNames w') : w.KeepsNames w' := by
  intro id b hget
  obtain ⟨b', hget', hname⟩ := h id b hget
  obtain ⟨b'', hget'', hname'⟩ := h' id b' hget'
  exact ⟨b'', hget'', hname'.trans hname⟩

theorem KeepsNames.of_eq (h : w'.bindings = w.bindings) : w.KeepsNames w' :=
  fun _ _ hget => ⟨_, by rw [h]; exact hget, rfl⟩

theorem KeepsNames.of_rewrites (h : u.Rewrites action w.bindings w'.bindings) :
    w.KeepsNames w' := by
  intro id b hget
  obtain ⟨b', hget', hchanges⟩ := h.old hget
  exact ⟨b', hget', hchanges.name_eq⟩

/-! ## Runs -/

/-- Running the actions one after the other goes through well-formed states only, and succeeds or
exceeds a limit. -/
def Sound (limits : Limits) (w : Walk) : List Action → Prop
  | [] => w.WellFormed
  | action :: rest =>
    w.WellFormed ∧ Bounded limits (w.exec limits action) ∧
      ∀ u, w.exec limits action = .ok u → Sound limits u rest

namespace Sound

theorem append {first second : List Action} (hfirst : w.Sound limits first)
    (hsecond : ∀ u, w.run limits first = .ok u → u.Sound limits second) :
    w.Sound limits (first ++ second) := by
  induction first generalizing w with
  | nil => exact hsecond w rfl
  | cons action rest ih =>
    obtain ⟨hwf, hbounded, hrest⟩ := hfirst
    exact ⟨hwf, hbounded, fun u hu => ih (hrest u hu) fun v hv =>
      hsecond v (run_cons_eq_ok.mpr ⟨u, hu, hv⟩)⟩

variable {action : Action} {actions rest : List Action} {w' : Walk}

/-- The run succeeds or exceeds a limit. -/
theorem bounded (h : w.Sound limits actions) : Bounded limits (w.run limits actions) := by
  induction actions generalizing w with
  | nil => exact .of_ok rfl
  | cons action rest ih =>
    obtain ⟨-, hbounded, hrest⟩ := h
    rw [run_cons]
    exact hbounded.bind fun u hu => ih (hrest u hu)

theorem wellFormed (h : w.Sound limits actions) : w.WellFormed := by
  cases actions with
  | nil => exact h
  | cons action rest => exact h.1

/-- What holds of a run holds of its rest. -/
theorem drop {before : List Action} {u : Walk} (h : w.Sound limits (before ++ rest))
    (hrun : w.run limits before = .ok u) : u.Sound limits rest := by
  induction before generalizing w with
  | nil =>
    cases hrun
    exact h
  | cons action before ih =>
    obtain ⟨v, hexec, hrun⟩ := run_cons_eq_ok.mp hrun
    exact ih (h.2.2 v hexec) hrun

/-- What holds of a run holds of its beginning. -/
theorem take {before : List Action} (h : w.Sound limits (before ++ rest)) :
    w.Sound limits before := by
  induction before generalizing w with
  | nil => exact h.wellFormed
  | cons action before ih => exact ⟨h.1, h.2.1, fun u hu => ih (h.2.2 u hu)⟩

/-- What every action keeps holds at the end of a run. -/
theorem preserves {P : Walk → Prop} (h : w.Sound limits actions)
    (hrun : w.run limits actions = .ok w')
    (hstep : ∀ {u v : Walk} {action : Action}, action ∈ actions → u.WellFormed →
      u.exec limits action = .ok v → P u → P v)
    (hw : P w) : P w' := by
  induction actions generalizing w with
  | nil =>
    cases hrun
    exact hw
  | cons action rest ih =>
    obtain ⟨u, hexec, hrun⟩ := run_cons_eq_ok.mp hrun
    refine ih (h.2.2 u hexec) hrun (fun haction => hstep (List.mem_cons_of_mem _ haction)) ?_
    exact hstep List.mem_cons_self h.1 hexec hw

theorem keepsNames (h : w.Sound limits actions) (hrun : w.run limits actions = .ok w') :
    w.KeepsNames w' := by
  refine h.preserves (P := w.KeepsNames) hrun (fun _ hwf hexec hkeeps => hkeeps.trans ?_) (.refl w)
  exact .of_rewrites (exec_rewrites hwf.indexed hexec)

theorem single {shape shape' : Shape} (h : w.Steps limits shape action shape' w') :
    w.Sound limits [action] := by
  refine ⟨h.ready.wellFormed, .of_ok h.exec, fun u hu => ?_⟩
  rw [h.exec] at hu
  cases hu
  exact h.ready'.wellFormed

/-- Actions that open and close nothing. -/
theorem inner (hinner : ∀ a ∈ actions, a.isInner = true) (h : w.WellFormed) :
    w.Sound limits actions := by
  induction actions generalizing w with
  | nil => exact h
  | cons action rest ih =>
    have haction := hinner action (by simp)
    exact ⟨h, exec_inner_bounded h haction, fun u hu =>
      ih (fun a ha => hinner a (List.mem_cons_of_mem _ ha))
        (h.edits (exec_edits h.indexed haction hu))⟩

/-- Code read in a scope of its own. -/
theorem scope {close : Action} (body : Flow .code) (h : w.WellFormed)
    (hopen : Bounded limits (w.exec limits action))
    (hready : ∀ u, w.exec limits action = .ok u → u.Ready .code)
    (hbody : ∀ u : Walk, u.Ready .code → u.Sound limits body.actions)
    (hclose : ∀ u v : Walk, w.exec limits action = .ok u → body.Walks limits u v →
      ∃ w', v.exec limits close = .ok w' ∧ w'.Sound limits rest) :
    w.Sound limits (action :: body.actions ++ close :: rest) := by
  refine ⟨h, hopen, fun u hu => (hbody u (hready u hu)).append fun v hv => ?_⟩
  have hwalks := Flow.walks_of_run body (hready u hu) hv
  obtain ⟨w', hw', hrest⟩ := hclose u v hu hwalks
  refine ⟨hwalks.ready'.wellFormed, .of_ok hw', fun x hx => ?_⟩
  rw [hw'] at hx
  cases hx
  exact hrest

end Sound

end Walk

namespace Flow

open Walk

variable {limits : Limits} {body : Flow .code} {kind : ScopeKind} {w : Walk}

/-- Code that is read in a scope of its own, with nothing after it. -/
theorem sound_scope (hready : w.Ready .code)
    (hbody : ∀ u : Walk, u.Ready .code → u.Sound limits body.actions) :
    w.Sound limits (.enter kind :: body.actions ++ [.leave]) := by
  refine .scope body hready.wellFormed (enter_bounded hready.wellFormed kind).map
    (fun u hu => (Steps.of_enter hready hu).ready') hbody fun u v hu hwalks => ?_
  obtain ⟨w', hw'⟩ := leave_ok hready.wellFormed (exec_enter hu) hwalks.balanced
  have hleave : v.Steps limits .code .leave .code w' :=
    .of_leave hready (exec_enter hu) hwalks.balanced hwalks.ready' hw'
  exact ⟨w', hw', hleave.ready'.wellFormed⟩

theorem sound_body {kind : BodyKind} (hready : w.Ready .code)
    (hbody : ∀ u : Walk, u.Ready .code → u.Sound limits body.actions) :
    w.Sound limits (.openBody kind :: body.actions ++ [.closeBody]) := by
  refine .scope body hready.wellFormed (openBody_bounded hready.wellFormed kind)
    (fun u hu => (Steps.of_openBody hready hu).ready') hbody fun u v hu hwalks => ?_
  obtain ⟨w', hw'⟩ := closeBody_ok hready.wellFormed (exec_openBody hu) hwalks.balanced
  exact ⟨w', hw',
    (Steps.of_closeBody hready hu hwalks.balanced hwalks.ready' hw').ready'.wellFormed⟩

theorem sound_arm {rest : List Action} (hready : w.Ready .arms)
    (hbody : ∀ u : Walk, u.Ready .code → u.Sound limits body.actions)
    (hrest : ∀ w' : Walk, w'.Ready .arms → w'.Sound limits rest) :
    w.Sound limits (.enterArm kind :: body.actions ++ .leave :: rest) := by
  refine .scope body hready.wellFormed (enterArm_bounded hready.wellFormed kind)
    (fun u hu => (Steps.of_enterArm hready hu).ready') hbody fun u v hu hwalks => ?_
  obtain ⟨w', hw'⟩ := leave_ok hready.wellFormed (exec_enterArm hu) hwalks.balanced
  have hleave : v.Steps limits .code .leave .arms w' :=
    .of_leave hready (exec_enterArm hu) hwalks.balanced hwalks.ready' hw'
  exact ⟨w', hw', hrest w' hleave.ready'⟩

theorem sound_closeConstruct (hready : w.Ready .arms) : w.Sound limits [.closeConstruct] :=
  .single (.of_closeConstruct hready rfl)

/-- Reading a flow goes through well-formed states and succeeds or exceeds a limit. -/
theorem sound {shape : Shape} (flow : Flow shape) (hready : w.Ready shape) :
    w.Sound limits flow.actions := by
  induction flow generalizing w with
  | skip | jump | noArm => exact hready.wellFormed
  | act action plain =>
    have hinner := Action.isInner_of_isPlain plain
    exact ⟨hready.wellFormed, exec_inner_bounded hready.wellFormed hinner, fun u hu =>
      (Steps.of_inner hready hinner hu).ready'.wellFormed⟩
  | seq first second ihFirst ihSecond =>
    exact (ihFirst hready).append fun u hu => ihSecond (walks_of_run first hready hu).ready'
  | block body ih => exact sound_scope hready fun u hu => ih hu
  | loop head body ihHead ihBody =>
    rw [actions, List.append_assoc]
    exact (ihHead hready).append fun t ht =>
      sound_scope (walks_of_run head hready ht).ready' fun u hu => ihBody hu
  | conditional take head names hasElse span consequence alternative ihHead ihThen ihElse =>
    simp only [actions, List.append_assoc, List.cons_append]
    refine ⟨hready.wellFormed, exec_inner_bounded hready.wellFormed rfl, fun w₁ hhold => ?_⟩
    have hhold := Steps.of_inner hready rfl hhold
    refine (ihHead hhold.ready').append fun w₂ hhead => ?_
    have hhead := walks_of_run head hhold.ready' hhead
    refine ⟨hhead.ready'.wellFormed, .of_ok rfl, fun w₃ hguard => ?_⟩
    have hguard := Steps.of_guard hhead.ready' (Or.inl ⟨names, rfl⟩) hguard
    refine ⟨hguard.ready'.wellFormed, .of_ok rfl, fun w₄ hconstruct => ?_⟩
    have hconstruct := Steps.of_openConstruct hguard.ready' hconstruct
    refine sound_arm hconstruct.ready' (fun u hu => ihThen hu) fun w₅ hw₅ => ?_
    refine ⟨hw₅.wellFormed, .of_ok rfl, fun w₆ hunguard => ?_⟩
    have hunguard := Steps.of_guard hw₅ (Or.inr rfl) hunguard
    exact (ihElse hunguard.ready').append fun w₇ helse =>
      sound_closeConstruct (walks_of_run alternative hunguard.ready' helse).ready'
  | clauses kind hasDefault span arms ih =>
    refine ⟨hready.wellFormed, .of_ok rfl, fun u hu => ?_⟩
    have hopen := Steps.of_openConstruct hready hu
    exact (ih hopen.ready').append fun v hv =>
      sound_closeConstruct (walks_of_run arms hopen.ready' hv).ready'
  | arguments args ih =>
    refine ⟨hready.wellFormed, .of_ok rfl, fun u hu => ?_⟩
    have hopen := Steps.of_inner hready rfl hu
    refine (ih hopen.ready').append fun v hv => ?_
    exact .single (.of_inner (walks_of_run args hopen.ready' hv).ready' rfl rfl)
  | literal launch body ih => exact sound_body hready fun u hu => ih hu
  | launched span call finalizes func ih =>
    have hcall : ∀ a ∈ call, a.isInner = true := fun a ha =>
      Action.isInner_of_isFinalize (finalizes a ha)
    have hplain : ∀ a ∈ call, a.isPlain = true := fun a ha =>
      Action.isPlain_of_isFinalize (finalizes a ha)
    -- a launched call is a body whose code begins with the call itself
    have hbody : ∀ u : Walk, u.Ready .code →
        u.Sound limits (Flow.seq (.acts call hplain) func).actions := by
      intro u hu
      rw [actions, actions_acts]
      exact (Sound.inner hcall hu.wellFormed).append fun v hv =>
        ih (Traverses.of_run hcall hu hv).ready'
    have hactions : (Flow.launched span call finalizes func).actions
        = .openBody (.goroutine span) :: (Flow.seq (.acts call hplain) func).actions
          ++ [.closeBody] := by
      simp [actions]
    rw [hactions]
    exact sound_body hready hbody
  | deferral calls deferred evaluated ih =>
    have hcalls : ∀ a ∈ calls, a.isInner = true := fun a ha =>
      Action.isInner_of_isDeferCall (deferred a ha)
    refine ⟨hready.wellFormed, exec_inner_bounded hready.wellFormed rfl, fun u hu => ?_⟩
    have hdefer := Steps.of_inner hready rfl hu
    exact (Sound.inner hcalls hdefer.ready'.wellFormed).append
      fun v hv => ih (Traverses.of_run hcalls hdefer.ready' hv).ready'
  | deferredLiteral evaluated body ihEvaluated ihBody =>
    rw [actions, List.append_assoc]
    refine ⟨hready.wellFormed, exec_inner_bounded hready.wellFormed rfl, fun t ht => ?_⟩
    have hdefer := Steps.of_inner hready rfl ht
    exact (ihEvaluated hdefer.ready').append fun u hu =>
      sound_body (walks_of_run evaluated hdefer.ready' hu).ready' fun u hu => ihBody hu
  | arm kind isArm body rest ihBody ihRest =>
    exact sound_arm hready (fun u hu => ihBody hu) fun w' hw' => ihRest hw'

end Flow

/-! ## Larger limits -/

/-- The action opens a scope. -/
def Action.opens : Action → Bool
  | .enter _ | .enterArm _ | .openBody _ => true
  | _ => false

/-- Limits are compared one by one. -/
instance : LE Limits where
  le limits limits' := limits.maxSteps ≤ limits'.maxSteps ∧ limits.maxDepth ≤ limits'.maxDepth

/-- Limits are no larger than themselves. -/
theorem Limits.le_refl (limits : Limits) : limits ≤ limits :=
  ⟨Nat.le_refl _, Nat.le_refl _⟩

/-- The order of limits is transitive. -/
theorem Limits.le_trans {a b c : Limits} (h : a ≤ b) (h' : b ≤ c) : a ≤ c :=
  ⟨Nat.le_trans h.1 h'.1, Nat.le_trans h.2 h'.2⟩

namespace Walk

variable {limits limits' : Limits} {w u : Walk} {action : Action} {actions : List Action}

/-- An action looks at a limit only where it counts a statement or opens a scope, and if there is
room, it does not matter how much. -/
theorem exec_congr_limits
    (hsteps : action = .count → limits.maxSteps = limits'.maxSteps ∨
      w.steps < limits.maxSteps ∧ w.steps < limits'.maxSteps)
    (hdepth : action.opens = true → limits.maxDepth = limits'.maxDepth ∨
      w.scopes.depth < limits.maxDepth ∧ w.scopes.depth < limits'.maxDepth) :
    w.exec limits action = w.exec limits' action := by
  have henter : action.opens = true → ∀ kind, w.enter limits kind = w.enter limits' kind := by
    intro hopens kind
    unfold enter
    rcases hdepth hopens with heq | ⟨hroom, hroom'⟩
    · rw [heq]
    · rw [if_neg (by omega), if_neg (by omega)]
  cases action with
  | count =>
    rw [exec, exec, countStep, countStep]
    rcases hsteps rfl with heq | ⟨hroom, hroom'⟩
    · rw [heq]
    · rw [if_neg (by omega), if_neg (by omega)]
  | enter kind => rw [exec, exec, henter rfl]
  | enterArm kind =>
    rw [exec, exec, Walk.enterArm, Walk.enterArm]
    rcases hdepth rfl with heq | ⟨hroom, hroom'⟩
    · rw [heq]
    · rw [if_neg (by omega), if_neg (by omega)]
  | openBody kind => rw [exec, exec, Walk.openBody, Walk.openBody, henter rfl]
  | _ => rfl

/-- An action that succeeds has room for what it counts or opens. -/
theorem room_of_exec (h : w.exec limits action = .ok u) :
    (action = .count → w.steps < limits.maxSteps) ∧
      (action.opens = true → w.scopes.depth < limits.maxDepth) := by
  constructor
  · rintro rfl
    exact (of_exec_count h).1
  · refine fun hopens => Nat.lt_of_not_le fun hfull => ?_
    cases action with
    | enter kind | openBody kind | enterArm kind =>
      simp [exec, Walk.openBody, Walk.enter, Walk.enterArm, hfull, Except.map] at h
    | _ => cases hopens

theorem exec_mono (hle : limits ≤ limits') (h : w.exec limits action = .ok u) :
    w.exec limits' action = .ok u := by
  obtain ⟨hsteps, hdepth⟩ := room_of_exec h
  rw [← h]
  exact exec_congr_limits
    (fun hcount => .inr ⟨Nat.lt_of_lt_of_le (hsteps hcount) hle.1, hsteps hcount⟩)
    fun hopens => .inr ⟨Nat.lt_of_lt_of_le (hdepth hopens) hle.2, hdepth hopens⟩

theorem run_mono (hle : limits ≤ limits') (h : w.run limits actions = .ok u) :
    w.run limits' actions = .ok u := by
  induction actions generalizing w with
  | nil => exact h
  | cons action rest ih =>
    obtain ⟨v, hexec, h⟩ := run_cons_eq_ok.mp h
    exact run_cons_eq_ok.mpr ⟨v, exec_mono hle hexec, ih h⟩

/-- An action succeeds that can fail at the limits only and has room. -/
theorem exec_ok_of_room (hsteps : action = .count → w.steps < limits.maxSteps)
    (hdepth : action.opens = true → w.scopes.depth < limits.maxDepth)
    (hbounded : ∀ limits', limits ≤ limits' → Bounded limits' (w.exec limits' action)) :
    ∃ u, w.exec limits action = .ok u := by
  cases hexec : w.exec limits action with
  | ok u => exact ⟨u, rfl⟩
  | error e =>
    -- with larger limits the error would be the same, although it names the limits
    have hsame : w.exec ⟨limits.maxSteps + 1, limits.maxDepth + 1⟩ action = .error e := by
      rw [← hexec]
      exact exec_congr_limits
        (fun hcount => .inr ⟨Nat.lt_succ_of_lt (hsteps hcount), hsteps hcount⟩)
        fun hopens => .inr ⟨Nat.lt_succ_of_lt (hdepth hopens), hdepth hopens⟩
    have hlarger := hbounded _ ⟨Nat.le_succ _, Nat.le_succ _⟩ e hsame
    rcases hbounded limits limits.le_refl e hexec with rfl | rfl <;>
    · rcases hlarger with h | h
      · simp at h
      · simp at h

/-- Actions that can fail at the limits only succeed under limits that are large enough. -/
theorem Sound.exists_run (h : ∀ limits', limits ≤ limits' → w.Sound limits' actions) :
    ∃ limits' u, limits ≤ limits' ∧ w.run limits' actions = .ok u := by
  induction actions generalizing w limits with
  | nil => exact ⟨limits, w, limits.le_refl, rfl⟩
  | cons action rest ih =>
    -- enough for this action and at least the old limits
    let room : Limits :=
      ⟨max limits.maxSteps (w.steps + 1), max limits.maxDepth (w.scopes.depth + 1)⟩
    have hroom : limits ≤ room := ⟨Nat.le_max_left _ _, Nat.le_max_left _ _⟩
    obtain ⟨v, hexec⟩ := exec_ok_of_room (fun _ => Nat.le_max_right _ _)
      (fun _ => Nat.le_max_right _ _) fun limits' hle =>
      (h limits' (Limits.le_trans hroom hle)).2.1
    have hrest : ∀ limits', room ≤ limits' → v.Sound limits' rest := fun limits' hle =>
      (h limits' (Limits.le_trans hroom hle)).2.2 v (exec_mono hle hexec)
    obtain ⟨limits', u, hle, hrun⟩ := ih hrest
    exact ⟨limits', u, Limits.le_trans hroom hle,
      run_cons_eq_ok.mpr ⟨v, exec_mono hle hexec, hrun⟩⟩

end Walk

/-! ## Functions and files -/

/-- The surroundings outside all literals, launched calls and guarded branches. -/
structure Context.Outermost (context : Context) : Prop where
  /-- The code stands in no function literal. -/
  closureDepth : context.closureDepth = 0
  deferScope : context.deferScope = none
  launches : context.launches = []
  /-- It stands in the consequence of no error check. -/
  guarded : context.guarded = []

namespace FunctionUnit

variable {limits : Limits} {names : Recognizers} {unit : FunctionUnit} {w : Walk}

section

variable (h : unit.walk limits names = .ok w)
include h

/-- A walk that succeeds reads the flow of the function. -/
theorem walks_of_walk : (unit.flow names).Walks limits {} w := by
  unfold walk at h
  split at h
  · cases h
  · exact Flow.walks_of_run _ .init (by rw [flow_actions]; exact h)

/-- A walk that succeeds runs the actions of the function. -/
theorem run_of_walk : Walk.run limits {} (unit.actions names) = .ok w := by
  rw [← flow_actions]
  exact (walks_of_walk h).run

theorem wellFormed_of_walk : w.WellFormed :=
  (walks_of_walk h).ready'.wellFormed

end

/-- What is tracked of a function is what its walk ends with. -/
theorem exists_walk_of_track {tracked : Tracked} (h : unit.track limits names = .ok tracked) :
    ∃ w, unit.walk limits names = .ok w ∧ tracked = ⟨w.scopes, w.bindings⟩ := by
  unfold track at h
  cases hwalk : unit.walk limits names with
  | error e =>
    rw [hwalk] at h
    cases h
  | ok w =>
    rw [hwalk] at h
    cases h
    exact ⟨w, rfl, rfl⟩

variable (limits names unit) in
/-- The walk of a function succeeds or exceeds a limit. -/
theorem walk_bounded : Bounded limits (unit.walk limits names) := by
  unfold walk
  split
  · intro e he
    cases he
    exact Or.inr rfl
  · rw [← flow_actions]
    exact (Flow.sound _ .init).bounded

/-- A walk that succeeds has closed all that it opened. -/
theorem walk_closed (h : unit.walk limits names = .ok w) :
    w.scopes.stack = [ScopeTree.root] ∧ w.context.Outermost := by
  have hbalanced := (walks_of_walk h).balanced
  refine ⟨hbalanced.stack, ?_⟩
  rw [hbalanced.context]
  exact ⟨rfl, rfl, rfl, rfl⟩

variable (limits names unit)

/-- The function exceeds one of the limits. -/
def exceedsLimit : Bool :=
  match unit.walk limits names with
  | .error (.stepLimitExceeded _) | .error (.nestingLimitExceeded _) => true
  | _ => false

/-- The walk of a function goes through well-formed states. -/
theorem sound_actions : ({} : Walk).Sound limits (unit.actions names) := by
  rw [← flow_actions]
  exact Flow.sound _ .init

variable {names unit} in
theorem sound_of_actions {actions : List Action} (hactions : unit.actions names = actions) :
    ({} : Walk).Sound limits actions := by
  rw [← hactions]
  exact sound_actions limits names unit

variable {limits names unit} in
/-- Every state of the walk of a function is well formed. -/
theorem wellFormed_of_run {before rest : List Action}
    (hactions : unit.actions names = before ++ rest) (h : Walk.run limits {} before = .ok w) :
    w.WellFormed :=
  ((sound_of_actions limits hactions).drop h).wellFormed

/-- Under limits that are large enough a function is read to its end. -/
theorem exists_walks :
    ∃ limits' w', limits ≤ limits' ∧ (unit.flow names).Walks limits' {} w' := by
  have hsound : ∀ limits', limits ≤ limits' → ({} : Walk).Sound limits' (unit.flow names).actions :=
    fun _ _ => (unit.flow names).sound .init
  obtain ⟨limits', w', hle, hrun⟩ := Walk.Sound.exists_run hsound
  exact ⟨limits', w', hle, Flow.walks_of_run _ .init hrun⟩

/-- The walk of the function runs an action in a state. -/
def Reaches (w : Walk) (action : Action) : Prop :=
  ∃ before rest, unit.actions names = before ++ action :: rest ∧
    Walk.run limits {} before = .ok w

/-- The walk of the function comes through the first state, and later on through the second. -/
def Visits (w w' : Walk) : Prop :=
  ∃ before between rest, unit.actions names = before ++ (between ++ rest) ∧
    Walk.run limits {} before = .ok w ∧ w.run limits between = .ok w'

end FunctionUnit

namespace Walk

variable {id : Nat}

end Walk

namespace AnalysisConfig

variable (config : AnalysisConfig)

/-- Checking functions one after the other collects what each of them gives. -/
theorem foldlM_add (units : List FunctionUnit) (report : FileReport) :
    units.foldlM (fun report unit => report.add unit (config.checkFunction unit)) report = .ok
      { report with
        violations := report.violations ++
          units.flatMap fun unit => (config.checkFunction unit).toOption.getD []
        skipped := report.skipped ++
          (units.filter (·.exceedsLimit config.limits config.names)).map (·.name) } := by
  induction units generalizing report with
  | nil => simp [pure, Except.pure]
  | cons unit units ih =>
    have hbounded := unit.walk_bounded config.limits config.names
    rw [List.foldlM_cons]
    cases hwalk : unit.walk config.limits config.names with
    | ok w =>
      have hcheck : config.checkFunction unit = .ok
          (Tracked.violations unit.name { scopes := w.scopes, bindings := w.bindings }) := by
        rw [checkFunction, FunctionUnit.track, hwalk]
        rfl
      have hwithin : unit.exceedsLimit config.limits config.names = false := by
        rw [FunctionUnit.exceedsLimit, hwalk]
      rw [hcheck, FileReport.add]
      refine (ih _).trans ?_
      simp [hcheck, hwithin, Except.toOption]
    | error e =>
      have hcheck : config.checkFunction unit = .error e := by
        rw [checkFunction, FunctionUnit.track, hwalk]
        rfl
      -- the error is a limit, so the function is skipped and the file goes on
      have hlimit : e.isInternal = false ∧
          unit.exceedsLimit config.limits config.names = true := by
        rw [FunctionUnit.exceedsLimit, hwalk]
        rcases hbounded e hwalk with rfl | rfl <;> exact ⟨rfl, rfl⟩
      rw [hcheck, FileReport.add, hlimit.1]
      refine (ih _).trans ?_
      simp [hcheck, hlimit.2, Except.toOption]

end AnalysisConfig

end TxLifecycle
