import TxLifecycle.Proofs.Path

/-!
# Following a path through a walk

A walk judges coverage from all code that it has read. This file compares that judgement with what
one execution path has done. The invariant is `Walk.Following base history w`: for the open scopes
from `base` on, the state `w` claims no more than the path with the steps `history` has done.

* `Unsettled`: the bindings that the path has acquired and not finalized since;
* `Flow.Runs.reached`: the invariant holds along every path, at its end as well as where it leaves
  the function.
-/

namespace TxLifecycle

/-! ## The invariant -/

/-- No step has finalized the binding since a step that acquired it, or since the path began.
Without a binding this always holds: coverage for no binding is coverage that rests on code through
which nothing falls. -/
def Unsettled (id? : Option BindingId) (history : List Step) : Prop :=
  ∃ earlier later, history = earlier ++ later ∧
    (earlier = [] ∨ ∃ rest site id, earlier = rest ++ [site] ∧ id? = some id ∧ site.Acquires id) ∧
    ∀ step ∈ later, ∀ id ∈ id?, ¬ step.Finalizes id

namespace Unsettled

variable {id? : Option BindingId} {history : List Step} {step : Step}

/-- Nothing is to be finalized. -/
theorem none (history : List Step) : Unsettled none history :=
  ⟨[], history, rfl, Or.inl rfl, by simp⟩

/-- A binding that no step has finalized. -/
theorem of_forall (h : ∀ step ∈ history, ∀ id ∈ id?, ¬ step.Finalizes id) : Unsettled id? history :=
  ⟨[], history, rfl, Or.inl rfl, h⟩

/-- A binding is unsettled after a step that acquires it, or if it was unsettled before and the step
does not finalize it. -/
theorem of_concat (h : Unsettled id? (history ++ [step])) :
    (Unsettled id? history ∧ ∀ id ∈ id?, ¬ step.Finalizes id) ∨
      ∃ id, id? = some id ∧ step.Acquires id := by
  obtain ⟨earlier, later, heq, hsince, hlater⟩ := h
  rcases List.eq_nil_or_concat later with rfl | ⟨later, last, rfl⟩
  · right
    rw [List.append_nil] at heq
    rcases hsince with rfl | ⟨rest, site, id, hearlier, hid, hsite⟩
    · simp at heq
    · have hlast := List.append_inj_right' (heq.trans hearlier) rfl
      obtain rfl : step = site := by simpa using hlast
      exact ⟨id, hid, hsite⟩
  · left
    rw [List.concat_eq_append] at heq hlater
    rw [← List.append_assoc] at heq
    have hlast := List.append_inj_right' heq rfl
    obtain rfl : step = last := by simpa using hlast
    refine ⟨⟨earlier, later, List.append_inj_left' heq rfl, hsince, ?_⟩, hlater step (by simp)⟩
    intro step hstep
    exact hlater step (List.mem_append_left _ hstep)

end Unsettled

namespace Walk

/-- For the open scopes from `base` on, the state claims no more than the path with these steps has
done. -/
structure Following (base : Nat) (history : List Step) (w : Walk) : Prop where
  /-- The scope in which the path began is open. -/
  base_mem : base ∈ w.scopes.stack
  /-- The path is in no deferred function literal. -/
  outside : w.context.deferScope = none
  /-- The path is still in the scopes that it has entered. -/
  running : ∀ scope : Nat, scope ∈ w.scopes.stack → base ≤ scope → ¬ w.scopes.Terminated scope
  uncovered : ∀ id?, Unsettled id? history → ∀ scope : Nat, scope ∈ w.scopes.stack → base ≤ scope →
    ¬ w.Covered id? scope
  /-- What has been deferred in these scopes was deferred on the path. -/
  deferred : ∀ id (scope : Nat), scope ∈ w.scopes.stack → base ≤ scope → w.DeferredIn id scope →
    ∃ step ∈ history, step.Defers id

/-- An arm of the innermost construct has been executed to its end. -/
def Passed (history : List Step) (w : Walk) : Prop :=
  ∃ c arm, w.scopes.construct? (w.constructs.headD 0) = some c ∧ arm ∈ c.arms ∧
    ¬ w.scopes.Terminated arm ∧ ∀ id?, Unsettled id? history → ¬ w.Covered id? arm

/-- The innermost construct may take no arm. -/
def NoFallback (w : Walk) : Prop :=
  ∃ c, w.scopes.construct? (w.constructs.headD 0) = some c ∧ c.hasFallback = false

variable {limits : Limits} {w u v w' : Walk} {action : Action} {base : Nat}
  {history history' : List Step} {b : Binding} {id : BindingId} {scope : ScopeId} {span : Span}

/-- A direct commit or rollback of a binding, as the binding itself tells it. -/
theorem finalizedIn_iff (hget : w.bindings[id]? = some b) :
    w.FinalizedIn (some id) scope ↔ b.finalizedIn scope = true := by
  rw [FinalizedIn, eventsOf_eq hget, Binding.finalizedIn, List.any_eq_true]
  simp [and_assoc]

/-- A covered scope counts as one that finalizes, also after an edit that is no exit. -/
theorem Covered.finalizes (h : w.Covered (some id) scope) (hwf : w.WellFormed)
    (hget : w.bindings[id]? = some b) (hedits : w.Edits action false w u) :
    b.finalizes u.scopes scope = true := by
  have hreflects : w.scopes.Reflects u.scopes w.constructs [] (w.FinalizedIn (some id))
      (b.finalizedIn · = true) fun _ => True := by
    refine ⟨fun _ hf => (finalizedIn_iff hget).mp hf, ?_, ?_⟩
    · intro scope child _ hmem hkind _
      rw [hedits.childrenOf]
      exact ⟨hmem, (hedits.kind? child).trans hkind, trivial⟩
    · intro scope c id _ hholds _
      exact Or.inl ⟨⟨(hedits.construct? id).trans hholds.get, by simp, hholds.owner⟩,
        fun arm _ => ⟨trivial, fun ht => (hedits.terminated arm).mpr (Or.inl ht)⟩⟩
  exact (Binding.finalizes_iff_covered (hedits.wellFormed hwf.tree).ordered).mpr
    (ScopeTree.Covered.transfer hreflects h trivial)

namespace Following

/-- The path skips code that adds nothing to the scopes that were there, or leaves a scope. -/
theorem of_same (h : Following base history w) (hwf : w.WellFormed)
    (hsame : ∀ {scope : Nat}, scope < w.scopes.scopes.length → SameAt scope w w')
    (hstack : ∀ scope : Nat, scope ∈ w'.scopes.stack → scope ∈ w.scopes.stack)
    (hbase : base ∈ w'.scopes.stack)
    (hlevel : w'.context.deferScope = w.context.deferScope)
    (hdeferred : ∀ id (scope : Nat), scope ∈ w'.scopes.stack → base ≤ scope →
      w'.DeferredIn id scope → ∃ step ∈ history, step.Defers id) :
    Following base history w' where
  base_mem := hbase
  outside := hlevel.trans h.outside
  running := fun scope hscope hle ht =>
    h.running scope (hstack scope hscope) hle
      ((hsame (hwf.tree.stack_lt (hstack scope hscope))).terminated ht)
  uncovered := fun id? hunsettled scope hscope hle hcovered =>
    h.uncovered id? hunsettled scope (hstack scope hscope) hle
      (covered_of_all hwf hsame (hwf.tree.stack_lt (hstack scope hscope)) hcovered)
  deferred := hdeferred

/-- The path skips code that leaves all scopes alone, or leaves a scope. -/
theorem of_frame (h : Following base history w) (hwf : w.WellFormed)
    (hframe : Frame (fun _ => True) w w')
    (hstack : ∀ scope : Nat, scope ∈ w'.scopes.stack → scope ∈ w.scopes.stack)
    (hbase : base ∈ w'.scopes.stack) (hlevel : w'.context.deferScope = w.context.deferScope) :
    Following base history w' := by
  refine h.of_same hwf (fun hlt => hframe.same hlt trivial) hstack hbase hlevel ?_
  intro id scope hscope hle hd
  have hopen := hstack scope hscope
  refine h.deferred id scope hopen hle (hframe.deferred (hwf.tree.stack_lt hopen) trivial ?_ hd)
  rw [h.outside]
  simp

variable {context : Context} {outer : List Context} {kind : ScopeKind}

section

variable (h : Following base history w)
include h

/-- The path enters a scope. -/
theorem opens (hwf : w.WellFormed) {arm? : Option ConstructId}
    (hopens : w.Opens kind arm? context outer u) (harm : ∀ id ∈ arm?, id ∈ w.constructs)
    (hcontext : context.deferScope = none) : Following base history u := by
  have hstack : ∀ scope : Nat, scope ∈ u.scopes.stack →
      scope = w.scopes.scopes.length ∨ scope ∈ w.scopes.stack := by
    intro scope hscope
    rw [hopens.tree.stack] at hscope
    exact List.mem_cons.mp hscope
  refine ⟨?_, hopens.context_eq ▸ hcontext, fun scope hscope hle ht => ?_,
    fun id? hunsettled scope hscope hle hcovered => ?_, fun id scope hscope hle hd => ?_⟩
  · rw [hopens.tree.stack]
    exact List.mem_cons_of_mem _ h.base_mem
  · rcases hstack scope hscope with rfl | hold
    · exact hopens.tree.not_terminated_fresh ht
    · exact h.running scope hold hle
        ((hopens.tree.terminated_old (hwf.tree.stack_lt hold)).mp ht)
  · rcases hstack scope hscope with rfl | hold
    · exact hopens.not_covered hwf hcovered
    · exact h.uncovered id? hunsettled scope hold hle
        (hopens.covered harm hwf (hwf.tree.stack_lt hold) hcovered)
  · rw [DeferredIn, hopens.eventsOf_eq] at hd
    rcases hstack scope hscope with rfl | hold
    · obtain ⟨event, hevent, -, heq⟩ := hd
      have hlt := hwf.event_lt hevent
      rw [heq] at hlt
      exact absurd hlt (Nat.lt_irrefl _)
    · exact h.deferred id scope hold hle hd

/-- An action that is no exit runs, where each unsettled binding was not covered before, perhaps as
another one. -/
theorem of_edits (hedits : w.Edits action false w w')
    (huncovered : ∀ id?, Unsettled id? history' → ∃ other?,
      (∀ scope : Nat, scope ∈ w.scopes.stack → base ≤ scope → ¬ w.Covered other? scope) ∧
      ∀ {scope}, w'.FinalizedIn id? scope → w.FinalizedIn other? scope)
    (hdeferred : ∀ id (scope : Nat), scope ∈ w.scopes.stack → base ≤ scope →
      w'.DeferredIn id scope → ∃ step ∈ history', step.Defers id) : Following base history' w' := by
  refine ⟨?_, (Balanced.of_edits hedits).deferScope.trans h.outside,
    fun scope hscope hle ht => ?_, fun id? hunsettled scope hscope hle hcovered => ?_,
    fun id scope hscope hle hd => ?_⟩
  · rw [hedits.stack]
    exact h.base_mem
  · rw [hedits.stack] at hscope
    rcases (hedits.terminated scope).mp ht with ht | ⟨hexit, -⟩
    · exact h.running scope hscope hle ht
    · cases hexit
  · rw [hedits.stack] at hscope
    obtain ⟨other?, hother, hfinalized⟩ := huncovered id? hunsettled
    exact hother scope hscope hle (hedits.covered hfinalized hcovered)
  · rw [hedits.stack] at hscope
    exact hdeferred id scope hscope hle hd

/-- An action runs that is no step of the path: it finalizes nothing here and defers nothing. -/
theorem quiet (hedits : w.Edits action false w w')
    (hfinalize : action.isFinalize = false ∨ 0 < w.context.closureDepth)
    (hcall : action.isDeferCall = false) : Following base history w' := by
  refine h.of_edits hedits (fun id? hunsettled => ⟨id?, h.uncovered id? hunsettled, ?_⟩) ?_
  · intro scope hf
    rcases hedits.finalizedIn_cases hf with hold | ⟨-, id, name, commit, -, rfl, -, hdepth⟩
    · exact hold
    · rcases hfinalize with hno | hliteral
      · cases hno
      · omega
  · intro id scope hscope hle hd
    rcases hedits.deferredIn_cases (by simp [h.outside]) hd with hd | ⟨-, hdeferred⟩
    · exact h.deferred id scope hscope hle hd
    · rw [hcall] at hdeferred
      cases hdeferred

end

theorem closes (h : Following base history v) (hwf : v.WellFormed)
    (hcloses : v.Closes context outer w') (hcontext : context.deferScope = none)
    (hbase : base ∈ w'.scopes.stack) : Following base history w' := by
  refine h.of_frame hwf hcloses.frame (fun scope hscope => ?_) hbase ?_
  · obtain ⟨id, hstack⟩ := hcloses.stack
    rw [hstack]
    exact List.mem_cons_of_mem _ hscope
  · rw [hcloses.context_eq, hcontext, h.outside]

/-- The path goes back to the start of a loop: less has been read there. -/
theorem back (h : Following base history w') (hlater : w.Later w') (hbalanced : w.Balanced w') :
    Following base history w where
  base_mem := hbalanced.stack ▸ h.base_mem
  outside := hbalanced.deferScope.symm.trans h.outside
  running := fun scope hscope hle ht =>
    h.running scope (hbalanced.stack ▸ hscope) hle (hlater.terminated ht)
  uncovered := fun id? hunsettled scope hscope hle hcovered =>
    h.uncovered id? hunsettled scope (hbalanced.stack ▸ hscope) hle (hlater.covered hcovered)
  deferred := fun id scope hscope hle hd =>
    h.deferred id scope (hbalanced.stack ▸ hscope) hle (hlater.deferred hd)

section

variable (h : Following base history w)
include h

/-- An acquisition leaves its binding uncovered: either the binding is new, or it was kept because
no open scope finalizes it. -/
theorem acquired (hwf : w.WellFormed) {name : String} {errVar : Option String} {span : Span}
    {declares : Bool} {id : BindingId}
    (hacquisition : w.acquisition name errVar span declares = .ok (id, v))
    (hedits : w.Edits (.acquire name errVar span declares) false w w') :
    ∃ other?, (∀ scope : Nat, scope ∈ w.scopes.stack → base ≤ scope → ¬ w.Covered other? scope) ∧
      ∀ {scope}, w'.FinalizedIn (some id) scope → w.FinalizedIn other? scope := by
  have hold : ∀ {scope}, w'.FinalizedIn (some id) scope → w.FinalizedIn (some id) scope := by
    intro scope hf
    rcases hedits.finalizedIn_cases hf with hf | ⟨-, _, _, _, -, haction, -⟩
    · exact hf
    · cases haction
  obtain ⟨u, hdeclare, hbound⟩ := of_acquisition hacquisition
  have hdeclares : w.Edits (.declare name) false w u := declareError_edits hdeclare
  have hcases := hbound.cases
  dsimp only at hcases
  rcases hcases with ⟨hid, -⟩ | ⟨old, hexisting, hid, hopen, -⟩
  · -- nothing has been recorded for the new binding
    refine ⟨none, h.uncovered none (.none history), fun hf => ?_⟩
    obtain ⟨event, hevent, -⟩ := hold hf
    have hnone : w.bindings[id]? = none := by
      cases hget : w.bindings[id]? with
      | none => rfl
      | some b =>
        obtain ⟨b', hb', -⟩ := hdeclares.table.old hget
        have hlt := (List.getElem?_eq_some_iff.mp hb').1
        rw [hid] at hlt
        exact absurd hlt (Nat.lt_irrefl _)
    rw [eventsOf, hnone] at hevent
    cases hevent
  · obtain ⟨i, -, hget⟩ := Option.bind_eq_some_iff.mp hexisting
    have hindex : id = i := hid.trans (hwf.indexed hget)
    subst hindex
    -- a binding that an open scope finalizes would have been retired
    refine ⟨some id, fun scope hscope _ hcovered => ?_, hold⟩
    have hfinalizes := hcovered.finalizes hwf hget hdeclares
    have hany : old.finalizedOnPath u.scopes = true := by
      rw [Binding.finalizedOnPath, hdeclares.stack]
      exact List.any_eq_true.mpr ⟨scope, hscope, hfinalizes⟩
    rw [hany] at hopen
    cases hopen

/-- The path executes an action that does not leave the function. -/
theorem act {before : List Action} (hat : At before w) (hwf : w.WellFormed)
    (hplain : action.isPlain = true) (hexit : action.isExit = false)
    (hexec : w.exec limits action = .ok w') :
    Following base (history ++ [.did before action]) w' := by
  have hexits : w.exits action = false := by
    cases action <;> first | rfl | cases hexit
  have hnoDefer : action.isDeferCall = false := by
    cases action <;> first | rfl | cases hplain
  have hedits := exec_edits hwf.indexed (Action.isInner_of_isPlain hplain) hexec
  rw [hexits] at hedits
  refine h.of_edits hedits (fun id? hunsettled => ?_) ?_
  · rcases hunsettled.of_concat with ⟨hunsettled, hnot⟩ | ⟨id, rfl, hacquires⟩
    · refine ⟨id?, h.uncovered id? hunsettled, fun {scope} hf => ?_⟩
      rcases hedits.finalizedIn_cases hf with hf | ⟨-, id, name, commit, rfl, rfl, hresolve, -⟩
      · exact hf
      · -- such a step settles the binding
        exact absurd ⟨w, hat, hresolve⟩ (hnot id rfl)
    · cases action with
      | acquire name errVar span declares =>
        obtain ⟨x, v, hx, hacquisition⟩ := hacquires
        rw [hx.unique hat] at hacquisition
        exact h.acquired hwf hacquisition hedits
      | _ => exact False.elim hacquires
  · intro id scope hscope hle hd
    rcases hedits.deferredIn_cases (by simp [h.outside]) hd with hd | ⟨-, hcall⟩
    · obtain ⟨step, hstep, hdefers⟩ := h.deferred id scope hscope hle hd
      exact ⟨step, List.mem_append_left _ hstep, hdefers⟩
    · rw [hnoDefer] at hcall
      cases hcall

/-- A `defer` statement that the path executes neither finalizes nor acquires. -/
theorem defers (before statement : List Action) :
    Following base (history ++ [.deferred before statement]) w where
  base_mem := h.base_mem
  outside := h.outside
  running := h.running
  uncovered := fun id? hunsettled => by
    rcases hunsettled.of_concat with ⟨hunsettled, -⟩ | ⟨id, -, hacquires⟩
    · exact h.uncovered id? hunsettled
    · exact False.elim hacquires
  deferred := fun id scope hscope hle hd => by
    obtain ⟨step, hstep, hdefers⟩ := h.deferred id scope hscope hle hd
    exact ⟨step, List.mem_append_left _ hstep, hdefers⟩

/-- The calls of a `defer` statement are registered. They are deferred on the path, if the statement
is a step of it. -/
theorem deferCalls {calls : List Action} (hcalls : ∀ a ∈ calls, a.isDeferCall = true)
    (hready : w.Ready .code) (hrun : w.run limits calls = .ok v)
    (hdeferred : ∀ id (scope : Nat), scope ∈ w.scopes.stack → base ≤ scope → v.DeferredIn id scope →
      ∃ step ∈ history, step.Defers id) : Following base history v := by
  have hinner := fun a ha => Action.isInner_of_isDeferCall (hcalls a ha)
  have hbalanced := (Traverses.of_run hinner hready hrun).balanced
  have hsame : ∀ scope, SameAt scope w v := by
    refine (Sound.inner hinner hready.wellFormed).preserves
      (P := fun u => ∀ scope, SameAt scope w u) hrun ?_ fun _ => .of_later (.refl w) _
    intro u u' action haction hwf hexec hu scope
    have hedits := exec_edits hwf.indexed (hinner action haction) hexec
    have hcall := hcalls action haction
    cases action with
    | deferCall name commit =>
      exact (hu scope).trans (hedits.sameAt (fun hexit => by cases hexit) fun h => by cases h)
    | _ => cases hcall
  refine h.of_same hready.wellFormed (fun _ => hsame _)
    (fun scope hscope => hbalanced.stack ▸ hscope)
    (hbalanced.stack ▸ h.base_mem) hbalanced.deferScope fun id scope hscope => ?_
  exact hdeferred id scope (hbalanced.stack ▸ hscope)

/-- A commit or rollback that a `go` statement launches is not executed here. -/
theorem launchedCall {call : List Action} (hcall : ∀ a ∈ call, a.isFinalize = true)
    (hready : w.Ready .code) (hrun : w.run limits call = .ok v)
    (hdepth : 0 < w.context.closureDepth) : Following base history v := by
  have hinner := fun a ha => Action.isInner_of_isFinalize (hcall a ha)
  refine ((Sound.inner hinner hready.wellFormed).preserves
    (P := fun u => Following base history u ∧ 0 < u.context.closureDepth) hrun ?_ ⟨h, hdepth⟩).1
  rintro u u' action haction hwf hexec ⟨hu, hdepth⟩
  have hedits := exec_edits hwf.indexed (hinner action haction) hexec
  have hfinalize := hcall action haction
  cases action with
  | finalize name commit =>
    refine ⟨hu.quiet hedits (Or.inr hdepth) rfl, ?_⟩
    rw [hedits.context]
    exact hdepth
  | _ => cases hfinalize

/-- The path comes to the end of a construct, through one of its arms or past all of them. -/
theorem closeConstruct (hready : w.Ready .arms) (hexec : w.exec limits .closeConstruct = .ok w')
    (hdecided : w.Passed history ∨ w.NoFallback) : Following base history w' := by
  obtain ⟨k, rest, -, hopened, -⟩ := hready.construct rfl
  have hhead : w.constructs.headD 0 = k := by rw [hopened, List.headD_cons]
  cases hexec
  refine ⟨h.base_mem, h.outside, h.running,
    fun id? hunsettled scope hscope hle hcovered => ?_, h.deferred⟩
  have hreflects : w.scopes.Reflects w.scopes w.constructs.tail w.constructs (w.FinalizedIn id?)
      (w.FinalizedIn id?) fun _ => True := by
    refine ⟨fun _ hf => hf, fun _ hmem hkind _ => ⟨hmem, hkind, trivial⟩, ?_⟩
    intro scope c' id _ hholds hfallback
    by_cases hid : id ∈ w.constructs
    · -- the construct that closes has an arm through which the path may have come
      right
      have hclosed := hholds.closed
      rw [hopened] at hid hclosed
      obtain rfl : id = k := by
        rcases List.mem_cons.mp hid with heq | hmem
        · exact heq
        · exact absurd hmem hclosed
      have hget : w.scopes.construct? (w.constructs.headD 0) = some c' := by
        rw [hhead]
        exact hholds.get
      rcases hdecided with ⟨d, arm, hd, hmem, hrunning, huncovered⟩ | ⟨d, hd, hnone⟩
      · rw [hget, Option.some.injEq] at hd
        subst hd
        exact ⟨arm, hmem, trivial, hrunning, huncovered id? hunsettled⟩
      · rw [hget, Option.some.injEq] at hd
        rw [hd, hnone] at hfallback
        cases hfallback
    · exact Or.inl ⟨⟨hholds.get, hid, hholds.owner⟩, fun arm _ => ⟨trivial, fun ht => ht⟩⟩
  exact h.uncovered id? hunsettled scope hscope hle
    (ScopeTree.Covered.transfer hreflects hcovered trivial)

end

/-- The path comes to the end of an arm. -/
theorem passed (h : Following base history v)
    (hopen : w.Steps limits .arms (.enterArm kind) .code u) (hbalanced : u.Balanced v)
    (hwf : v.WellFormed) (hbase : base ∈ w.scopes.stack) (hclose : v.exec limits .leave = .ok w') :
    w'.Passed history := by
  have hopens := exec_enterArm hopen.exec
  have hcloses := closes_of_leave hclose
  obtain ⟨k, rest, c, hopened, hc, -⟩ := hopen.ready.construct rfl
  have hhead : w.constructs.headD 0 = k := by rw [hopened, List.headD_cons]
  rw [hhead] at hopens
  -- the arm is the scope that was opened, and the construct has kept it
  have harm : u.scopes.construct? k =
      some { c with arms := c.arms ++ [w.scopes.scopes.length] } := by
    rw [hopens.tree.construct?, hc, Option.map_some, if_pos rfl]
  obtain ⟨c', hc', hgrows⟩ := hbalanced.constructs harm
  have hmem : w.scopes.scopes.length ∈ v.scopes.stack := by
    rw [hbalanced.stack, hopens.tree.stack]
    exact List.mem_cons_self
  have hle : base ≤ w.scopes.scopes.length :=
    Nat.le_of_lt (hopen.ready.wellFormed.tree.stack_lt hbase)
  have hsame := hcloses.frame.same (hwf.tree.stack_lt hmem) trivial
  refine ⟨c', w.scopes.scopes.length, ?_, hgrows.arms _ (by simp), fun ht => ?_,
    fun id? hunsettled hcovered => ?_⟩
  · rw [ScopeTree.construct?, hcloses.constructs, hcloses.opened, hbalanced.opened, hopens.opened,
      hhead]
    exact hc'
  · exact h.running _ hmem hle (hsame.terminated ht)
  · exact h.uncovered id? hunsettled _ hmem hle (covered_of_all hwf
      (fun hlt => hcloses.frame.same hlt trivial) (hwf.tree.stack_lt hmem) hcovered)

end Following

/-- Later arms do not change that an arm has been executed. -/
theorem Passed.of_frame (h : w.Passed history) (hwf : w.WellFormed)
    (hframe : Frame (fun _ => True) w w') (hbalanced : w.Balanced w') : w'.Passed history := by
  obtain ⟨c, arm, hc, hmem, hrunning, huncovered⟩ := h
  obtain ⟨c', hc', hgrows⟩ := hbalanced.constructs hc
  have hlt := ScopeTree.lt_of_parent? (hwf.tree.arm hc hmem)
  refine ⟨c', arm, by rw [hbalanced.opened]; exact hc', hgrows.arms arm hmem, fun ht => ?_,
    fun id? hunsettled hcovered => ?_⟩
  · exact hrunning ((hframe.same hlt trivial).terminated ht)
  · exact huncovered id? hunsettled
      (covered_of_all hwf (fun hlt => hframe.same hlt trivial) hlt hcovered)

/-- Arms do not change whether a construct may take none. -/
theorem NoFallback.of_balanced (h : w.NoFallback) (hbalanced : w.Balanced w') : w'.NoFallback := by
  obtain ⟨c, hc, hnone⟩ := h
  obtain ⟨c', hc', hgrows⟩ := hbalanced.constructs hc
  exact ⟨c', by rw [hbalanced.opened]; exact hc', hgrows.hasFallback.trans hnone⟩

/-- A construct without a fallback may take no arm. -/
theorem noFallback_openConstruct {kind : ConstructKind}
    (hexec : w.exec limits (.openConstruct kind false span) = .ok u) : u.NoFallback := by
  cases hexec
  exact ⟨_, List.getElem?_concat_length, rfl⟩

/-- A deferred literal covers nothing: what it finalizes is deferred. -/
theorem sameAt_deferredBody {body : Flow .code}
    (hopen : w.Steps limits .code (.openBody .deferred) .code u) (hbody : body.Walks limits u v)
    (hclose : v.exec limits .closeBody = .ok w') {scope : Nat}
    (hlt : scope < w.scopes.scopes.length) : SameAt scope w w' := by
  have hopens := exec_openBody hopen.exec
  have hbefore := (hopens.frame (by simp) hopen.ready.wellFormed.tree).same hlt
    fun hblock => by cases hblock
  have hlt' : scope < u.scopes.scopes.length := by
    rw [hopens.tree.length]
    omega
  have hinside := hbody.frame_code.same hlt' (by
    rw [hopens.tree.current]
    exact Nat.ne_of_lt hlt)
  have hafter := (exec_closeBody hclose).frame.same
    (Nat.lt_of_lt_of_le hlt' hbody.frame.later.length) trivial
  exact hbefore.trans (hinside.trans hafter)

/-- The events that a `defer` statement defers are known to be deferred by it, at any time until the
statement has been read. -/
theorem DeferredIn.cases {before statement : List Action} (hw : At before w)
    (hw' : At (before ++ statement) w') (hlater : w.Later u) (hlater' : u.Later w')
    (h : u.DeferredIn id scope) :
    w.DeferredIn id scope ∨ (Step.deferred before statement).Defers id := by
  obtain ⟨event, hevent, hkind, hscope⟩ := h
  obtain ⟨recorded, heq⟩ := hlater.events id
  obtain ⟨recorded', heq'⟩ := hlater'.events id
  rw [← heq, List.mem_append] at hevent
  rcases hevent with hevent | hevent
  · exact Or.inl ⟨event, hevent, hkind, hscope⟩
  · refine Or.inr ⟨w, w', hw, hw', event, ?_, hkind⟩
    rw [Walk.recorded, ← heq', ← heq, List.append_assoc, List.drop_left]
    exact List.mem_append_left _ hevent

/-- A launched call stands in a literal of its own. -/
theorem depth_of_launch (hexec : w.exec limits (.openBody (.goroutine span)) = .ok u) :
    0 < u.context.closureDepth := by
  rw [(exec_openBody hexec).context_eq]
  exact Nat.succ_pos _

/-! ## Paths through a flow -/

/-- The path has left the function by its last step, and the invariant holds where it did. -/
def Halted (limits : Limits) (base : Nat) (history trace : List Step) : Prop :=
  ∃ steps before action u, trace = steps ++ [.did before action] ∧
    Walk.run limits {} before = .ok u ∧ u.Ready .code ∧ Following base (history ++ steps) u

/-- Where a path through a flow has led. -/
def Reached (limits : Limits) (base : Nat) (history trace : List Step) (w' : Walk)
    (shape : Shape) : Outcome → Prop
  | .falls =>
    Following base (history ++ trace) w' ∧ (shape = .arms → w'.Passed (history ++ trace))
  | .stops => Halted limits base history trace

namespace Reached

variable {trace trace' : List Step} {shape shape' : Shape} {outcome : Outcome}

/-- The path has come to the end of code. -/
theorem code (h : Following base (history ++ trace) w') :
    Reached limits base history trace w' .code .falls :=
  ⟨h, fun hshape => by cases hshape⟩

theorem append (h : Reached limits base (history ++ trace) trace' w' shape outcome) :
    Reached limits base history (trace ++ trace') w' shape outcome := by
  cases outcome with
  | falls => simpa only [Reached, List.append_assoc] using h
  | stops =>
    obtain ⟨steps, before, action, u, rfl, hrun, hready, hfollowing⟩ := h
    refine ⟨trace ++ steps, before, action, u, by simp, hrun, hready, ?_⟩
    rw [← List.append_assoc]
    exact hfollowing

/-- A path that has stopped in part of some code has stopped in all of it. -/
theorem stop (h : Reached limits base history trace w shape .stops) :
    Reached limits base history trace w' shape' .stops :=
  h

/-- A path that falls through goes on without a step; one that stops has stopped. -/
theorem map (h : Reached limits base history trace w shape outcome)
    (hfalls : Following base (history ++ trace) w → (shape = .arms → w.Passed (history ++ trace)) →
      Reached limits base history trace w' shape' .falls) :
    Reached limits base history trace w' shape' outcome := by
  cases outcome with
  | falls => exact hfalls h.1 h.2
  | stops => exact h

end Reached

namespace Following

variable {body : Flow .code} {kind : ScopeKind} {span : Span}

/-- The path goes through a scope. -/
theorem leave (h : Following base history v) {arm? : Option ConstructId}
    (hbase : base ∈ w.scopes.stack) (hopens : w.Opens kind arm? w.context w.outer u)
    (hbalanced : u.Balanced v) (hwf : v.WellFormed) (hclose : v.exec limits .leave = .ok w') :
    Following base history w' := by
  refine h.closes hwf (closes_of_leave hclose) h.outside ?_
  rw [(Balanced.of_leave hopens hbalanced hclose).stack]
  exact hbase

section

variable (h : Following base history w)
include h

/-- The path skips code that leaves all scopes alone. -/
theorem skip (hwf : w.WellFormed) (hframe : Frame (fun _ => True) w w')
    (hstack : w'.scopes.stack = w.scopes.stack)
    (hlevel : w'.context.deferScope = w.context.deferScope) : Following base history w' := by
  refine h.of_frame hwf hframe (fun scope hscope => hstack ▸ hscope) ?_ hlevel
  rw [hstack]
  exact h.base_mem

/-- The path skips the arms that are left. -/
theorem skipArms {arms : Flow .arms} (harms : arms.Walks limits w w') : Following base history w' :=
  h.skip harms.ready.wellFormed harms.frame_arms harms.balanced.stack harms.balanced.deferScope

theorem skipArm (isArm : kind.isArm = true)
    (hopen : w.Steps limits .arms (.enterArm kind) .code u) (hbody : body.Walks limits u v)
    (hclose : v.Steps limits .code .leave .arms w') : Following base history w' := by
  have harms : (Flow.arm kind isArm body .noArm).Walks limits w w' :=
    .arm hopen hbody hclose (.noArm hclose.ready')
  exact h.skipArms harms

/-- The path skips the body of a loop. -/
theorem skipLoopBody (hopen : w.Steps limits .code (.enter .loopBody) .code u)
    (hbody : body.Walks limits u v) (hclose : v.exec limits .leave = .ok w') :
    Following base history w' := by
  have hopens := exec_enter hopen.exec
  have hwf := hopen.ready.wellFormed
  have hbalanced := Balanced.of_leave hopens hbody.balanced hclose
  refine h.skip hwf (.enclosed hopens (by simp) hwf.tree (fun _ _ hblock => ?_)
    (fun _ _ hdefer => hdefer) hbody.frame_code hbody.balanced (closes_of_leave hclose))
    hbalanced.stack hbalanced.deferScope
  cases hblock

theorem enterArm (hopen : w.Steps limits .arms (.enterArm kind) .code u) :
    Following base history u :=
  h.opens hopen.ready.wellFormed (exec_enterArm hopen.exec) hopen.head_mem h.outside

end

theorem leaveArm (h : Following base history v) (hbase : base ∈ w.scopes.stack)
    (hopen : w.Steps limits .arms (.enterArm kind) .code u) (hbalanced : u.Balanced v)
    (hwf : v.WellFormed) (hclose : v.exec limits .leave = .ok w') :
    Following base history w' ∧ w'.Passed history :=
  ⟨h.leave hbase (exec_enterArm hopen.exec) hbalanced hwf hclose,
    h.passed hopen hbalanced hwf hbase hclose⟩

variable (h : Following base history w)
include h

/-- The path comes to a branching statement. -/
theorem openConstruct (hwf : w.WellFormed) {kind : ConstructKind} {hasFallback : Bool}
    (hexec : w.exec limits (.openConstruct kind hasFallback span) = .ok u) :
    Following base history u := by
  have hframe := frame_openConstruct hexec
  cases hexec
  exact h.skip hwf hframe rfl rfl

/-- The guards of an `if` mean nothing to a path. -/
theorem guard (hwf : w.WellFormed)
    (haction : (∃ names, action = .openGuard names) ∨ action = .closeGuard)
    (hexec : w.exec limits action = .ok u) : Following base history u := by
  have hframe := frame_guard haction hexec
  rcases haction with ⟨names, rfl⟩ | rfl <;>
  · cases hexec
    exact h.skip hwf hframe rfl rfl

/-- The path comes to the choice of an `if`. -/
theorem choice {names : List String} {hasElse : Bool}
    (hguard : w.Steps limits .code (.openGuard names) .code u)
    (hconstruct : u.Steps limits .code (.openConstruct .conditional hasElse span) .arms v) :
    Following base history v :=
  (h.guard hguard.ready.wellFormed (Or.inl ⟨names, rfl⟩) hguard.exec).openConstruct
    hconstruct.ready.wellFormed hconstruct.exec

/-- The path skips the alternative of an `if`, having come through its consequence or past it. -/
theorem skipAlternative (hdecided : w.Passed history ∨ w.NoFallback) {alternative : Flow .arms}
    (hunguard : w.Steps limits .arms .closeGuard .arms u) (helse : alternative.Walks limits u v)
    (hclose : v.Steps limits .arms .closeConstruct .code w') : Following base history w' := by
  have hguarded := h.guard hunguard.ready.wellFormed (Or.inr rfl) hunguard.exec
  have hdecided' : u.Passed history ∨ u.NoFallback := by
    cases hunguard.exec
    exact hdecided
  refine (hguarded.skipArms helse).closeConstruct hclose.ready hclose.exec ?_
  rcases hdecided' with hpassed | hnone
  · exact Or.inl (hpassed.of_frame helse.ready.wellFormed helse.frame_arms helse.balanced)
  · exact Or.inr (hnone.of_balanced helse.balanced)

/-- The path skips a function literal. -/
theorem skipLiteral {launch : Option Span}
    (hopen : w.Steps limits .code (.openBody (Flow.literalKind launch)) .code u)
    (hbody : body.Walks limits u v) (hclose : v.exec limits .closeBody = .ok w') :
    Following base history w' := by
  have hwf := hopen.ready.wellFormed
  have hbalanced := Balanced.of_closeBody hopen.exec hbody.balanced hclose
  refine h.skip hwf (.enclosed (exec_openBody hopen.exec) (by simp) hwf.tree
    (fun _ _ hblock => ?_) (fun _ _ hdefer => ?_) hbody.frame_code hbody.balanced
    (exec_closeBody hclose)) hbalanced.stack hbalanced.deferScope
  · cases launch <;> cases hblock
  · cases launch with
    | none => cases hdefer
    | some span => exact hdefer

end Following

end Walk

namespace Flow.Runs

open Walk

variable {limits : Limits} {shape : Shape} {flow : Flow shape} {before : List Action}
  {trace : List Step} {outcome : Outcome} {base : Nat} {history : List Step} {w w' : Walk}

/-- The invariant holds along every path. -/
theorem reached (h : flow.Runs before trace outcome) (hwalks : flow.Walks limits w w')
    (hat : Walk.run limits {} before = .ok w) (hfollowing : w.Following base history) :
    Reached limits base history trace w' shape outcome := by
  -- the path may come to the same code again with another history, so that is generalized
  induction h generalizing w w' history with
  | skip =>
    cases hwalks
    exact .code (by rwa [List.append_nil])
  | @act before action plain hexit =>
    cases hwalks with
    | act hstep =>
      exact .code (hfollowing.act ⟨limits, hat⟩ hstep.ready.wellFormed plain hexit hstep.exec)
  | @exit before action plain _ =>
    cases hwalks with
    | act hstep => exact ⟨[], before, action, w, rfl, hat, hstep.ready, by rwa [List.append_nil]⟩
  | seq _ _ ih ih' =>
    cases hwalks with
    | seq hfirst hsecond =>
      exact (ih' hsecond (run_then hat hfirst.run) (ih hfirst hat hfollowing).1).append
  | seqStop _ ih =>
    cases hwalks with
    | seq hfirst _ => exact (ih hfirst hat hfollowing).stop
  | block _ ih =>
    cases hwalks with
    | block hopen hbody hclose =>
      have hopens := exec_enter hopen.exec
      have hinside := ih hbody (run_then hat (run_single hopen.exec))
        (hfollowing.opens hopen.ready.wellFormed hopens (by simp) hfollowing.outside)
      exact hinside.map fun h _ => .code (h.leave hfollowing.base_mem hopens hbody.balanced
        hbody.ready'.wellFormed hclose.exec)
  | loopHead _ ih =>
    cases hwalks with
    | loop hhead _ _ _ => exact (ih hhead hat hfollowing).stop
  | loopDone _ ih =>
    cases hwalks with
    | loop hhead hopen hbody hclose =>
      exact .code ((ih hhead hat hfollowing).1.skipLoopBody hopen hbody hclose.exec)
  | loopStop _ _ ih ih' =>
    cases hwalks with
    | loop hhead hopen hbody hclose =>
      have hstart := (ih hhead hat hfollowing).1
      have hinside := ih' hbody (run_then (run_then hat hhead.run) (run_single hopen.exec))
        (hstart.opens hopen.ready.wellFormed (exec_enter hopen.exec) (by simp) hstart.outside)
      exact hinside.append.stop
  | loopAgain _ _ _ ih ih' ih'' =>
    have hagain := hwalks
    cases hwalks with
    | loop hhead hopen hbody hclose =>
      have hstart := (ih hhead hat hfollowing).1
      have hopens := exec_enter hopen.exec
      have hinside := (ih' hbody (run_then (run_then hat hhead.run) (run_single hopen.exec))
        (hstart.opens hopen.ready.wellFormed hopens (by simp) hstart.outside)).1
      have hend := hinside.leave hstart.base_mem hopens hbody.balanced hbody.ready'.wellFormed
        hclose.exec
      -- what the walk has read of the loop is more than it had read before it
      have hback := hend.back hagain.frame.later hagain.balanced
      rw [List.append_assoc] at hback
      exact (ih'' hagain hat hback).append
  | conditionalHead _ ih =>
    cases hwalks with
    | conditional hhold hhead _ _ _ _ _ _ _ _ =>
      have hheld := hfollowing.quiet (hhold.edits rfl) (Or.inl rfl) rfl
      exact (ih hhead (run_then hat (run_single hhold.exec)) hheld).stop
  | consequence _ _ ih ih' =>
    cases hwalks with
    | conditional hhold hhead hguard hconstruct harm hthen hleave hunguard helse hclose =>
      have hheld := hfollowing.quiet (hhold.edits rfl) (Or.inl rfl) rfl
      have hchoice := (ih hhead (run_then hat (run_single hhold.exec)) hheld).1.choice hguard
        hconstruct
      have hlead := run_toConsequence hhold.exec hhead hguard.exec hconstruct.exec harm.exec
      have hinside := ih' hthen (run_then hat hlead) (hchoice.enterArm harm)
      refine (hinside.map fun h _ => ?_).append
      obtain ⟨hend, hpassed⟩ := h.leaveArm hchoice.base_mem harm hthen.balanced
        hthen.ready'.wellFormed hleave.exec
      exact .code (hend.skipAlternative (Or.inl hpassed) hunguard helse hclose)
  | alternative _ _ ih ih' =>
    cases hwalks with
    | conditional hhold hhead hguard hconstruct harm hthen hleave hunguard helse hclose =>
      have hheld := hfollowing.quiet (hhold.edits rfl) (Or.inl rfl) rfl
      have hchoice := (ih hhead (run_then hat (run_single hhold.exec)) hheld).1.choice hguard
        hconstruct
      have hskipped := hchoice.skipArm rfl harm hthen hleave
      have hstart := hskipped.guard hunguard.ready.wellFormed (Or.inr rfl) hunguard.exec
      have hlead := run_toAlternative
        (run_toConsequence hhold.exec hhead hguard.exec hconstruct.exec harm.exec) hthen
        hleave.exec hunguard.exec
      exact ((ih' helse (run_then hat hlead) hstart).map fun h hpassed =>
        .code (h.closeConstruct hclose.ready hclose.exec (Or.inl (hpassed rfl)))).append
  | noBranch _ ih =>
    cases hwalks with
    | conditional hhold hhead hguard hconstruct harm hthen hleave hunguard helse hclose =>
      have hheld := hfollowing.quiet (hhold.edits rfl) (Or.inl rfl) rfl
      have hchoice := (ih hhead (run_then hat (run_single hhold.exec)) hheld).1.choice hguard
        hconstruct
      have hskipped := hchoice.skipArm rfl harm hthen hleave
      -- an `if` without an alternative may fall through, whatever its consequence does
      have hnone := (noFallback_openConstruct hconstruct.exec).of_balanced
        (Balanced.of_leave (exec_enterArm harm.exec) hthen.balanced hleave.exec)
      exact .code (hskipped.skipAlternative (Or.inr hnone) hunguard helse hclose)
  | clauses _ ih =>
    cases hwalks with
    | clauses hopen harms hclose =>
      have hstart := hfollowing.openConstruct hopen.ready.wellFormed hopen.exec
      exact (ih harms (run_then hat (run_single hopen.exec)) hstart).map fun h hpassed =>
        .code (h.closeConstruct hclose.ready hclose.exec (Or.inl (hpassed rfl)))
  | noClause =>
    cases hwalks with
    | clauses hopen harms hclose =>
      have hstart := hfollowing.openConstruct hopen.ready.wellFormed hopen.exec
      have hnone := (noFallback_openConstruct hopen.exec).of_balanced harms.balanced
      have hend := (hstart.skipArms harms).closeConstruct hclose.ready hclose.exec (Or.inr hnone)
      exact .code (by rwa [List.append_nil])
  | arguments _ ih =>
    cases hwalks with
    | arguments hopen hargs hclose =>
      have hstart := hfollowing.quiet (hopen.edits rfl) (Or.inl rfl) rfl
      exact (ih hargs (run_then hat (run_single hopen.exec)) hstart).map fun h _ =>
        .code (h.quiet (hclose.edits rfl) (Or.inl rfl) rfl)
  | literal =>
    cases hwalks with
    | literal hopen hbody hclose =>
      have hskipped := hfollowing.skipLiteral hopen hbody hclose.exec
      exact .code (by rwa [List.append_nil])
  | @launched _ _ _ finalizes _ _ _ _ ih =>
    have hbalanced := hwalks.balanced
    cases hwalks with
    | launched hopen hcall hfunc hclose =>
      have hstart := hfollowing.opens hopen.ready.wellFormed (exec_openBody hopen.exec) (by simp)
        hfollowing.outside
      have hcalled := hstart.launchedCall finalizes hopen.ready' hcall (depth_of_launch hopen.exec)
      have hinside := ih hfunc (run_then hat (run_cons_eq_ok.mpr ⟨_, hopen.exec, hcall⟩)) hcalled
      have hcloses := exec_closeBody hclose.exec
      refine hinside.map fun h _ => .code (h.closes hfunc.ready'.wellFormed hcloses ?_ ?_)
      · rw [← hcloses.context_eq, hbalanced.deferScope, hfollowing.outside]
      · rw [hbalanced.stack]
        exact hfollowing.base_mem
  | @deferral before calls deferred evaluated _ _ _ ih =>
    have hend := hwalks.run
    cases hwalks with
    | deferral hopen hcalls hevaluated =>
      have hstart := (hfollowing.defers before
        (Flow.deferral calls deferred evaluated).actions).quiet (hopen.edits rfl) (Or.inl rfl) rfl
      -- all that is deferred now was deferred before the statement, or by the statement itself
      have hall := (hopen.edits rfl).later.trans (Traverses.of_run
        (fun a ha => Action.isInner_of_isDeferCall (deferred a ha)) hopen.ready' hcalls).frame.later
      have hcalled := hstart.deferCalls deferred hopen.ready' hcalls (by
        intro id scope hscope hle hd
        rw [(hopen.edits rfl).stack] at hscope
        rcases hd.cases ⟨limits, hat⟩ ⟨limits, run_then hat hend⟩ hall hevaluated.frame.later with
          hold | hnew
        · obtain ⟨step, hstep, hdefers⟩ := hfollowing.deferred id scope hscope hle hold
          exact ⟨step, List.mem_append_left _ hstep, hdefers⟩
        · exact ⟨_, by simp, hnew⟩)
      exact (ih hevaluated (run_then hat (run_cons_eq_ok.mpr ⟨_, hopen.exec, hcalls⟩))
        hcalled).append
  | @deferredLiteral before evaluated body _ _ _ ih =>
    have hend := hwalks.run
    have hbalanced := hwalks.balanced
    have hall := hwalks.frame.later
    cases hwalks with
    | deferredLiteral hdeferred hevaluated hopen hbody hclose =>
      have hstart := (hfollowing.defers before
        (Flow.deferredLiteral evaluated body).actions).quiet (hdeferred.edits rfl) (Or.inl rfl) rfl
      have hinside := ih hevaluated (run_then hat (run_single hdeferred.exec)) hstart
      show Reached limits base history ([.deferred before _] ++ _) w' .code _
      refine Reached.append (hinside.map fun h _ => .code ?_)
      have hclosed := Balanced.of_closeBody hopen.exec hbody.balanced hclose.exec
      refine h.of_same hopen.ready.wellFormed
        (sameAt_deferredBody hopen hbody hclose.exec) (fun scope hscope => hclosed.stack ▸ hscope)
        (hbalanced.stack ▸ hfollowing.base_mem) hclosed.deferScope fun id scope hscope hle hd => ?_
      rw [hbalanced.stack] at hscope
      rcases hd.cases ⟨limits, hat⟩ ⟨limits, run_then hat hend⟩ hall (.refl _) with hold | hnew
      · obtain ⟨step, hstep, hdefers⟩ := hfollowing.deferred id scope hscope hle hold
        exact ⟨step, by simp [hstep], hdefers⟩
      · exact ⟨_, by simp, hnew⟩
  | armHere _ ih =>
    cases hwalks with
    | arm hopen hbody hclose hrest =>
      have hinside := ih hbody (run_then hat (run_single hopen.exec)) (hfollowing.enterArm hopen)
      refine hinside.map fun h _ => ?_
      obtain ⟨hend, hpassed⟩ := h.leaveArm hfollowing.base_mem hopen hbody.balanced
        hbody.ready'.wellFormed hclose.exec
      exact ⟨hend.skipArms hrest, fun _ =>
        hpassed.of_frame hrest.ready.wellFormed hrest.frame_arms hrest.balanced⟩
  | @armLater _ _ isArm _ _ _ _ _ ih =>
    cases hwalks with
    | arm hopen hbody hclose hrest =>
      have hlead := run_append_eq_ok.mpr ⟨_, run_cons_eq_ok.mpr ⟨_, hopen.exec, hbody.run⟩,
        run_single hclose.exec⟩
      exact ih hrest (run_then hat hlead) (hfollowing.skipArm isArm hopen hbody hclose)

end Flow.Runs

namespace Walk

variable {limits : Limits} {base : Nat} {history : List Step} {w w' : Walk} {id : BindingId}

/-- A path begins at the start of a function. -/
theorem Following.init : ({} : Walk).Following 0 [] := by
  refine ⟨List.mem_singleton.mpr rfl, rfl, fun scope hopen _ ht => ?_,
    fun id? _ scope hopen _ hcovered => ?_, fun id scope _ _ hd => ?_⟩
  · rw [List.mem_singleton.mp hopen] at ht
    cases ht
  · rw [List.mem_singleton.mp hopen] at hcovered
    cases hcovered with
    | direct hf =>
      cases id? with
      | none => exact hf
      | some id =>
        obtain ⟨event, hevent, -⟩ := hf
        cases hevent
    | block hmem _ _ => cases hmem
    | branch hholds _ _ _ => cases hholds.get
  · obtain ⟨event, hevent, -⟩ := hd
    cases hevent

/-- What covers the scope in which a path began was finalized on the path. -/
theorem Following.exists_finalizes (h : Following base history w)
    (hcovered : w.Covered (some id) base) : ∃ step ∈ history, step.Finalizes id := by
  apply Classical.byContradiction
  intro hnone
  refine h.uncovered (some id) (.of_forall fun step hstep i hi hfinalizes => hnone ?_) base
    h.base_mem (Nat.le_refl base) hcovered
  cases hi
  exact ⟨step, hstep, hfinalizes⟩

/-- A step that finalizes a binding calls a commit or rollback method on the variable of that
name. -/
theorem name_of_finalizes {start actions : List Action} (hat : Walk.run limits {} start = .ok w)
    (hsound : w.Sound limits actions) (hrun : w.run limits actions = .ok w') {step : Step}
    (hstep : step.Within start actions) (hfinalizes : step.Finalizes id) :
    ∃ b before commit, w'.bindings[id]? = some b ∧
      step = .did before (.finalize b.name commit) := by
  obtain ⟨read, hbefore, rest, rfl⟩ := hstep
  cases step with
  | deferred before statement => exact False.elim hfinalizes
  | did before action =>
    cases action with
    | finalize name commit =>
      obtain ⟨x, hx, hresolve⟩ := hfinalizes
      -- the state in which the step is met lies on the run
      obtain ⟨v, hv, hrest⟩ := run_append_eq_ok.mp hrun
      obtain rfl : x = v := by
        refine hx.unique ⟨limits, ?_⟩
        rw [show before = start ++ read from hbefore]
        exact run_then hat hv
      have hsound' := hsound.drop hv
      obtain ⟨c, hc, hname, -⟩ := Indexed.get_of_resolve hsound'.wellFormed.indexed hresolve
      obtain ⟨b, hb, hname'⟩ := hsound'.keepsNames hrest id c hc
      exact ⟨b, before, commit, hb, by rw [hname', hname]⟩
    | _ => exact False.elim hfinalizes

end Walk

end TxLifecycle
