import TxLifecycle.Proofs.StateMaps

/-!
# Error checks decide about exits only

The check of an acquisition's error keeps an exit in it from being recorded for the acquired handle.
It does nothing else. So whether an acquisition waits for its check, which checks an `if` holds and
what a consequence guards may all be forgotten, together with the exits recorded so far, without a
difference to the scopes, the constructs, the rest of the bindings or the errors of a walk.

* `Walk.forgetGuards`: a state without these;
* `Walk.exec_forgetGuards`: each action gives the same up to them;
* `Binding.verdict_withoutExits`: exits make a difference only to verdicts that blame one.
-/

namespace TxLifecycle

/-! ## What is forgotten -/

/-- A binding without its exits. -/
def Binding.withoutExits (b : Binding) : Binding :=
  { b with events := b.events.filter (!·.kind.isExit) }

/-- What a walk gives, without the exits. -/
def Tracked.withoutExits (tracked : Tracked) : Tracked :=
  { tracked with bindings := tracked.bindings.map Binding.withoutExits }

/-- A state without error checks and exits. -/
def Walk.forgetGuards (w : Walk) : Walk :=
  { w with
    bindings := w.bindings.map Binding.withoutExits
    context := w.context.unguarded
    outer := w.outer.map Context.unguarded
    pending := []
    held := [] }

theorem Exit.isExit_event (how : Exit) : how.event.isExit = true := by
  cases how <;> rfl

/-- Scopes that are left as they are stay where they are. -/
theorem Scope.keeps_self : Scope.Keeps fun s => s :=
  ⟨fun _ => rfl, fun _ => rfl, fun _ _ => rfl, fun _ _ => rfl, fun _ => rfl, fun _ _ _ => rfl⟩

namespace Binding

variable {event : Event}

/-- Exits are forgotten once and for all. -/
theorem withoutExits_withoutExits (b : Binding) : b.withoutExits.withoutExits = b.withoutExits := by
  simp [withoutExits, List.filter_filter]

theorem record_withoutExits (hevent : event.kind.isExit = false) (b : Binding) :
    b.withoutExits.record event = (b.record event).withoutExits := by
  simp [withoutExits, record, hevent]

theorem withoutExits_record (hevent : event.kind.isExit = true) (b : Binding) :
    (b.record event).withoutExits = b.withoutExits := by
  simp [withoutExits, record, hevent]

theorem any_withoutExits {p : Event → Bool}
    (hp : ∀ event : Event, p event = true → event.kind.isExit = false) (b : Binding) :
    b.withoutExits.events.any p = b.events.any p := by
  rw [withoutExits, List.any_filter]
  refine List.any_congr rfl fun event => ?_
  cases hevent : p event with
  | false => simp
  | true => simp [hp event hevent]

/-- Coverage of a scope does not depend on exits. -/
theorem finalizesWithin_withoutExits (b : Binding) (tree : ScopeTree) (fuel : Nat)
    (scope : ScopeId) :
    b.withoutExits.finalizesWithin tree fuel scope = b.finalizesWithin tree fuel scope := by
  have hdirect : ∀ scope, b.withoutExits.finalizedIn scope = b.finalizedIn scope := by
    intro scope
    apply any_withoutExits
    intro event hevent
    cases hkind : event.kind <;> simp [hkind, EventKind.isDirectFinalization] at hevent <;> rfl
  induction fuel generalizing scope with
  | zero => rfl
  | succ fuel ih => simp only [finalizesWithin, hdirect, ih]

/-- Coverage of the open scopes does not depend on exits. -/
theorem finalizedOnPath_withoutExits (b : Binding) (tree : ScopeTree) :
    b.withoutExits.finalizedOnPath tree = b.finalizedOnPath tree :=
  List.any_congr rfl fun _ => finalizesWithin_withoutExits b tree _ _

end Binding

namespace Walk

variable {w v : Walk}

theorem forgetGuards_forgetGuards (w : Walk) : w.forgetGuards.forgetGuards = w.forgetGuards := by
  have hbindings : (w.bindings.map Binding.withoutExits).map Binding.withoutExits =
      w.bindings.map Binding.withoutExits := by
    rw [List.map_map]
    exact List.map_congr_left fun b _ => b.withoutExits_withoutExits
  have houter : (w.outer.map Context.unguarded).map Context.unguarded =
      w.outer.map Context.unguarded := by
    rw [List.map_map]
    rfl
  rw [forgetGuards, forgetGuards, hbindings, houter]
  rfl

@[simp]
theorem scopes_forgetGuards (w : Walk) : w.forgetGuards.scopes = w.scopes := rfl

/-- Which error checks an `if` takes is forgotten. -/
theorem forgetGuards_holdGuards (w : Walk) (take : Bool) :
    (w.holdGuards take).forgetGuards = w.forgetGuards := by
  cases take <;> rfl

/-- The scopes of a state are left as they are. -/
theorem lifts_forgetGuards : Lifts (fun s => s) forgetGuards where
  scopes := fun w => by simp [forgetGuards, ScopeTree.mapScopes]
  setScopes := fun w tree => by simp [forgetGuards, setScopes, ScopeTree.mapScopes]
  constructs := fun _ => rfl

end Walk

/-- Forgetting about error checks and exits, as a change that a walk goes on with. -/
def StateMap.forgetGuards : StateMap where
  toSelection := .all
  name := fun x => x
  scope := fun s => s
  binding := Binding.withoutExits
  state := Walk.forgetGuards
  scope_keeps := Scope.keeps_self
  scope_declared := fun _ _ => rfl
  scope_declare := fun _ _ => rfl
  scope_noteRollback := fun _ _ _ => rfl
  binding_finalizedOnPath := Binding.finalizedOnPath_withoutExits
  binding_any_capture := by
    intro b span
    apply Binding.any_withoutExits
    intro event hevent
    rw [eq_of_beq (Bool.and_eq_true_iff.mp hevent).1]
    rfl
  binding_record := fun b _ hevent => b.record_withoutExits hevent
  lifts := Walk.lifts_forgetGuards
  get := fun _ _ => get_of_map (fun _ _ => rfl) _ _
  modify := fun _ _ h _ => modify_of_map (fun _ _ => rfl) h _
  add := fun _ _ => ⟨rfl, add_of_map (fun _ _ => rfl) fun _ => rfl⟩
  ownedBy := fun scope _ _ =>
    ownedBy_of_map (fun _ _ => rfl) (fun _ _ h => h) (fun _ => by exact ⟨rfl, rfl, rfl⟩) _ scope _

theorem StateMap.forgetGuards_names (names : List String) :
    (names.filter forgetGuards.stays).map forgetGuards.name = names := by
  simp [forgetGuards, Selection.all]

namespace Walk

variable {w v : Walk} {id : BindingId}

/-! ## Actions

Those that concern neither exits nor error checks commute with forgetting, whether they succeed or
not. -/

theorem updateScopes_forgetGuards (w : Walk) (f : ScopeTree → Except AnalysisError ScopeTree) :
    w.forgetGuards.updateScopes f = (w.updateScopes f).map forgetGuards := by
  rw [updateScopes, updateScopes, scopes_forgetGuards]
  cases f w.scopes <;> rfl

/-- Of an acquisition that waits for its check only the error variable is remembered. -/
theorem forgetGuards_awaitCheck (w : Walk) (id : BindingId) (errVar : Option String) :
    (w.forgetGuards.awaitCheck id errVar).forgetGuards = (w.awaitCheck id errVar).forgetGuards := by
  cases errVar with
  | none => exact w.forgetGuards_forgetGuards
  | some name =>
    have hnote : w.forgetGuards.modifyBinding id (fun b => { b with errVar := some name }) =
        (w.modifyBinding id fun b => { b with errVar := some name }).forgetGuards :=
      StateMap.forgetGuards.noteCheck trivial rfl name
    show (w.forgetGuards.modifyBinding id _).forgetGuards = (w.modifyBinding id _).forgetGuards
    rw [hnote, forgetGuards_forgetGuards]

theorem acquire_forgetGuards (w : Walk) (name : String) (errVar : Option String) (span : Span)
    (declares : Bool) :
    (w.forgetGuards.acquire name errVar span declares).map forgetGuards =
      (w.acquire name errVar span declares).map forgetGuards := by
  have herrVar : errVar.map StateMap.forgetGuards.name = errVar := Option.map_id'
  have hcases := StateMap.forgetGuards.acquire_cases (w := w) (x := name) trivial rfl errVar span
    declares fun _ _ => trivial
  rw [herrVar] at hcases
  rcases hcases with ⟨e, hacquire, hforgotten⟩ | ⟨id, v, -, -, hacquire, hforgotten⟩
  · exact congrArg (Except.map forgetGuards) (hforgotten.trans hacquire.symm)
  · rw [hacquire]
    refine (congrArg (Except.map forgetGuards) hforgotten).trans ?_
    exact congrArg Except.ok (forgetGuards_awaitCheck v id errVar)

/-- An exit that is recorded for a binding is forgotten. -/
theorem forgetGuards_record {w' : Walk} {how : Exit} (h : w.record id how.event = .ok w') :
    w'.forgetGuards = w.forgetGuards := by
  rw [record, recordAt] at h
  split at h
  · cases h
  · cases h
    have hmodify : ∀ event : Event, event.kind.isExit = true →
        (w.bindings.modify id (·.record event)).map Binding.withoutExits =
          w.bindings.map Binding.withoutExits := by
      intro event hevent
      have hkept : (w.bindings.map Binding.withoutExits).modify id (fun b => b) =
          (w.bindings.modify id (·.record event)).map Binding.withoutExits :=
        modify_map fun b => (b.withoutExits_record hevent).symm
      rw [← hkept]
      exact List.modify_id _ _
    rw [forgetGuards, forgetGuards, modifyBinding, hmodify _ how.isExit_event]

/-- Where an event cannot be recorded, control cannot be marked as leaving either. -/
theorem markTerminated_of_record {kind : EventKind} {e : AnalysisError}
    (h : w.record id kind = .error e) : w.scopes.markTerminated = .error e := by
  rw [record, recordAt, ScopeTree.get] at h
  rw [ScopeTree.markTerminated, ScopeTree.modify]
  cases hget : w.scopes.get? w.scopes.current with
  | none => simpa [hget] using h
  | some s => simp [hget] at h

/-- Whatever bindings an exit is recorded for, all that is left of it is that control does not come
to the end of the scope. -/
theorem recordAll_forgetGuards (w : Walk) (how : Exit) (ids : List BindingId) :
    (w.recordAll ids how.event >>= fun v => v.updateScopes (·.markTerminated)).map forgetGuards =
      w.forgetGuards.updateScopes (·.markTerminated) := by
  induction ids generalizing w with
  | nil => exact (updateScopes_forgetGuards w _).symm
  | cons id ids ih =>
    have hcons : w.recordAll (id :: ids) how.event =
        w.record id how.event >>= fun v => v.recordAll ids how.event := rfl
    rw [hcons]
    cases hrecord : w.record id how.event with
    | error e =>
      rw [updateScopes, scopes_forgetGuards, markTerminated_of_record hrecord]
      rfl
    | ok v =>
      rw [← forgetGuards_record hrecord]
      exact ih v

theorem exit_forgetGuards (w : Walk) (how : Exit) :
    (w.forgetGuards.exit how).map forgetGuards = (w.exit how).map forgetGuards := by
  have hexit : ∀ v : Walk, v.exit how = if v.scopes.inClosure then .ok v else
      v.recordAll v.exposed how.event >>= fun u => u.updateScopes (·.markTerminated) := by
    intro v
    rw [exit]
    cases v.recordAll v.exposed how.event <;> rfl
  rw [hexit, hexit, scopes_forgetGuards]
  split
  · exact congrArg Except.ok w.forgetGuards_forgetGuards
  · rw [recordAll_forgetGuards, recordAll_forgetGuards, forgetGuards_forgetGuards]

/-- Each action gives the same up to error checks and exits. -/
theorem exec_forgetGuards (limits : Limits) (w : Walk) (action : Action) :
    (w.forgetGuards.exec limits action).map forgetGuards =
      (w.exec limits action).map forgetGuards := by
  -- what commutes with forgetting gives the same after it
  have hcommutes : ∀ {x x' : Except AnalysisError Walk}, x' = x.map forgetGuards →
      x'.map forgetGuards = x.map forgetGuards := by
    rintro x x' rfl
    cases x with
    | error e => rfl
    | ok v => exact congrArg Except.ok v.forgetGuards_forgetGuards
  cases action with
  | count => exact hcommutes (ite_map_of_commutes rfl rfl)
  | enter kind =>
    apply hcommutes
    show (w.forgetGuards.enter limits kind).map (·.2) = ((w.enter limits kind).map (·.2)).map _
    rw [lifts_forgetGuards.enter Scope.keeps_self limits w kind]
    cases w.enter limits kind <;> rfl
  | enterArm kind => exact hcommutes (lifts_forgetGuards.enterArm Scope.keeps_self limits w kind)
  | leave => exact hcommutes (lifts_forgetGuards.leave w)
  | openBody kind =>
    apply hcommutes
    show w.forgetGuards.openBody limits kind = (w.openBody limits kind).map _
    rw [openBody, openBody, lifts_forgetGuards.enter Scope.keeps_self limits w kind.scopeKind]
    cases w.enter limits kind.scopeKind with
    | error e => rfl
    | ok entered => cases kind <;> rfl
  | closeBody =>
    apply hcommutes
    have hcontext : (w.outer.map Context.unguarded).headD w.context.unguarded =
        (w.outer.headD w.context).unguarded := by
      cases w.outer <;> rfl
    have houter : (w.outer.map Context.unguarded).tail = w.outer.tail.map Context.unguarded :=
      List.map_tail.symm
    show ({ w.forgetGuards with
        context := (w.outer.map Context.unguarded).headD w.context.unguarded
        outer := (w.outer.map Context.unguarded).tail } : Walk).leave = w.closeBody.map _
    rw [hcontext, houter]
    exact lifts_forgetGuards.leave
      { w with context := w.outer.headD w.context, outer := w.outer.tail }
  | declare name => exact hcommutes (StateMap.forgetGuards.declare w name)
  | mention name span => exact hcommutes (StateMap.forgetGuards.mention trivial rfl span)
  | acquire name errVar span declares => exact acquire_forgetGuards w name errVar span declares
  | storeField name stop =>
    exact hcommutes (congrArg Except.ok (StateMap.forgetGuards.storeField trivial rfl stop))
  | finalize name commit => exact hcommutes (StateMap.forgetGuards.finalize trivial rfl commit)
  | addDefer => exact hcommutes (updateScopes_forgetGuards w (·.addDefer))
  | deferCall name commit => exact hcommutes (StateMap.forgetGuards.deferCall trivial rfl commit)
  | capture name span => exact hcommutes (StateMap.forgetGuards.capture trivial rfl span)
  | delegate names =>
    have hdelegate := StateMap.forgetGuards.delegate (w := w) trivial names
    rw [StateMap.forgetGuards_names] at hdelegate
    exact hcommutes (congrArg Except.ok hdelegate)
  | handOut names =>
    have hhandOut := StateMap.forgetGuards.handOut (w := w) trivial names
    rw [StateMap.forgetGuards_names] at hhandOut
    exact hcommutes (congrArg Except.ok hhandOut)
  | exit how => exact exit_forgetGuards w how
  | holdGuards take =>
    refine congrArg Except.ok ?_
    rw [forgetGuards_holdGuards, forgetGuards_holdGuards, forgetGuards_forgetGuards]
  | collectGuards =>
    refine hcommutes (congrArg Except.ok ?_)
    rw [collectGuards, collectGuards]
    cases w.held <;> rfl
  | openGuard names => exact congrArg Except.ok w.forgetGuards_forgetGuards
  | _ => exact hcommutes rfl

/-- States that differ in error checks and exits give the same up to them. -/
theorem exec_congr_forgetGuards (limits : Limits) (h : v.forgetGuards = w.forgetGuards)
    (action : Action) :
    (v.exec limits action).map forgetGuards = (w.exec limits action).map forgetGuards := by
  rw [← exec_forgetGuards limits v, h, exec_forgetGuards]

end Walk

/-! ## Verdicts -/

/-- A verdict is that an exit leaves the transaction open. -/
def blamesExit (verdict : Option (ViolationKind × Span)) : Bool :=
  verdict.any fun (kind, _) =>
    kind == .fatalWithoutDefer || kind == .panicWithoutDefer || kind == .earlyReturn

namespace Binding

theorem filter_withoutExits {p : Event → Bool}
    (hp : ∀ event : Event, p event = true → event.kind.isExit = false) (b : Binding) :
    b.withoutExits.events.filter p = b.events.filter p := by
  rw [withoutExits, List.filter_filter]
  refine List.filter_congr fun event _ => ?_
  cases hevent : p event with
  | false => simp
  | true => simp [hp event hevent]

variable {kind : EventKind} {c : Prop}

/-- Other events than exits are seen as before. -/
theorem has_withoutExits (hkind : kind.isExit = false) (b : Binding) :
    b.withoutExits.has kind = b.has kind := by
  apply any_withoutExits
  intro event hevent
  rwa [eq_of_beq hevent]

theorem has_exit_withoutExits (hkind : kind.isExit = true) (b : Binding) :
    b.withoutExits.has kind = false := by
  rw [has, withoutExits, List.any_filter, List.any_eq_false]
  intro event _ hevent
  obtain ⟨hkept, heq⟩ := Bool.and_eq_true_iff.mp hevent
  rw [eq_of_beq heq, hkind] at hkept
  cases hkept

/-- The checks of commits do not look at exits. -/
theorem commits_withoutExits (b : Binding) (tree : ScopeTree) :
    b.withoutExits.commitInLoop tree = b.commitInLoop tree ∧
    b.withoutExits.branchCommit tree = b.branchCommit tree ∧
    b.withoutExits.discardedCommit = b.discardedCommit := by
  have hdirect : b.withoutExits.directCommits = b.directCommits := by
    apply filter_withoutExits
    intro event hevent
    rw [eq_of_beq (Bool.and_eq_true_iff.mp hevent).1]
    rfl
  have hfinalizes : b.withoutExits.finalizes tree = b.finalizes tree :=
    funext fun scope => finalizesWithin_withoutExits b tree _ scope
  have harm : b.withoutExits.armOk tree = b.armOk tree := by
    funext arm
    rw [armOk, armOk, hfinalizes]
  have haround : b.withoutExits.uncoveredAround tree = b.uncoveredAround tree := by
    funext event
    simp only [uncoveredAround, coveredBy, harm]
    rfl
  refine ⟨?_, ?_, ?_⟩
  · rw [commitInLoop, commitInLoop, hdirect]
    rfl
  · rw [branchCommit, branchCommit, hfinalizes, hdirect, haround]
    rfl
  · rw [discardedCommit, discardedCommit, ← List.head?_filter, ← List.head?_filter,
      filter_withoutExits]
    intro event hevent
    rw [eq_of_beq (Bool.and_eq_true_iff.mp hevent).1]
    rfl

/-- A check that two verdicts share leaves their difference to the checks after it. -/
theorem eq_or_blamesExit_of_shared [Decidable c] {x y y' : Option (ViolationKind × Span)}
    (h : y' = y ∨ blamesExit y = true) :
    (if c then x else y') = (if c then x else y) ∨ blamesExit (if c then x else y) = true := by
  split
  · exact .inl rfl
  · exact h

/-- A check of exits blames one, or it leaves the difference to the checks after it. -/
theorem eq_or_blamesExit_of_exit [Decidable c] {x x' y y' : Option (ViolationKind × Span)}
    (hx : blamesExit x = true) (h : y' = y ∨ blamesExit y = true) :
    (if false = true then x' else y') = (if c then x else y) ∨
      blamesExit (if c then x else y) = true := by
  by_cases hc : c
  · rw [if_pos hc]
    exact .inr hx
  · rw [if_neg hc]
    exact h

/-- Exits make a difference only to the verdict on a binding that blames one. -/
theorem verdict_withoutExits (b : Binding) (tree : ScopeTree) :
    b.withoutExits.verdict tree = b.verdict tree ∨ blamesExit (b.verdict tree) = true := by
  have hcommit : b.withoutExits.hasCommit = b.hasCommit := by
    apply any_withoutExits
    intro event hevent
    cases hkind : event.kind <;> simp [hkind, EventKind.isCommit] at hevent <;> rfl
  have hrollback : b.withoutExits.hasRollback = b.hasRollback := by
    apply any_withoutExits
    intro event hevent
    cases hkind : event.kind <;> simp [hkind, EventKind.isRollback] at hevent <;> rfl
  obtain ⟨hloop, hbranch, hdiscarded⟩ := b.commits_withoutExits tree
  have hescaped : b.withoutExits.isEscaped = b.isEscaped := rfl
  have hnet : b.withoutExits.hasSafetyNet tree = b.hasSafetyNet tree := rfl
  have hacquisition : b.withoutExits.acquisition = b.acquisition := rfl
  rw [verdict, verdict, hcommit, hrollback, hloop, hbranch, hdiscarded, hescaped, hnet,
    hacquisition, has_withoutExits rfl, has_withoutExits rfl, has_withoutExits rfl,
    has_exit_withoutExits rfl, has_exit_withoutExits rfl, has_exit_withoutExits rfl]
  -- six checks come before those of aborts, and two between these and the one of `return`s
  iterate 6 apply eq_or_blamesExit_of_shared
  refine eq_or_blamesExit_of_exit rfl (eq_or_blamesExit_of_exit rfl ?_)
  cases b.commitInLoop tree with
  | some event => exact .inl rfl
  | none =>
    cases b.branchCommit tree with
    | some found => exact .inl rfl
    | none =>
      dsimp only
      iterate 2 apply eq_or_blamesExit_of_shared
      exact eq_or_blamesExit_of_exit rfl (.inl rfl)

end Binding

end TxLifecycle
