import TxLifecycle.Proofs.Amendments
import TxLifecycle.Proofs.Arms

/-!
# Where actions run

An action is run blindly: a rollback is noted on the latest `defer` statement of a scope, an arm is
opened for the innermost construct, whatever these are. That they are the right ones is a matter of
the code from which the actions come.

* `Walk.Along`: a property of states and actions holds wherever an action of a list runs;
* `Walk.Prepared`: what the code guarantees where an action runs;
* `FunctionUnit.prepared`: it does so wherever an action of a function runs;
* `FunctionUnit.invariant_of_run`: hence what prepared actions keep holds at every moment.
-/

namespace TxLifecycle

/-! ## `defer` statements -/

namespace ScopeTree

variable {tree tree' : ScopeTree} {scope target : ScopeId} {f : Scope → Scope}

/-- The `defer` statements that stand directly in a scope. -/
def defersOf (tree : ScopeTree) (scope : ScopeId) : List DeferRecord :=
  ((tree.get? scope).map (·.defers)).getD []

/-- The `defer` statements of scopes of which one is changed. -/
theorem defersOf_modify {g : List DeferRecord → List DeferRecord}
    (hf : ∀ s, (f s).defers = g s.defers) (h : tree.modify target f = .ok tree') :
    tree'.defersOf scope =
      if scope = target then g (tree.defersOf scope) else tree.defersOf scope := by
  obtain ⟨⟨s, hget⟩, rfl⟩ := of_modify h
  rw [defersOf, get?, List.getElem?_modify, defersOf, get?]
  by_cases heq : scope = target
  · subst heq
    rw [get?] at hget
    simp [hget, hf]
  · simp [heq, Ne.symm heq]

/-- A change that leaves the `defer` statements alone. -/
theorem defersOf_modify_same (hf : ∀ s, (f s).defers = s.defers)
    (h : tree.modify target f = .ok tree') : tree'.defersOf scope = tree.defersOf scope := by
  have hmodify : tree'.defersOf scope =
      if scope = target then tree.defersOf scope else tree.defersOf scope :=
    defersOf_modify (g := fun defers => defers) hf h
  rwa [ite_self] at hmodify

end ScopeTree

namespace Walk

variable {limits : Limits} {w u v w' : Walk} {action : Action} {scope : ScopeId} {tree : ScopeTree}

/-- Running the action makes a `defer` statement of a scope roll the binding back. -/
inductive Defers (w : Walk) : Action → BindingId → ScopeId → Prop where
  /-- The `defer` statement calls the rollback. -/
  | called {name : String} {id : BindingId} : w.resolve name = some id →
      Defers w (.deferCall name false) id w.scopes.current
  /-- The rollback stands in the function literal that the `defer` statement calls. -/
  | inLiteral {name : String} {id : BindingId} {scope : ScopeId} : w.resolve name = some id →
      w.context.deferScope = some scope → Defers w (.finalize name false) id scope

/-- An action that opens and closes nothing leaves the `defer` statements of a scope alone, or
registers one, or notes a rollback on the latest of them. -/
theorem Marks.defersOf_cases (h : w.Marks action tree) (scope : ScopeId) :
    tree.defersOf scope = w.scopes.defersOf scope ∨
    (action = .addDefer ∧ scope = w.scopes.current ∧
      tree.defersOf scope = w.scopes.defersOf scope ++ [⟨[]⟩]) ∨
    ∃ id, w.Defers action id scope ∧
      tree.defersOf scope = (w.scopes.defersOf scope).modify
        ((w.scopes.defersOf scope).length - 1) (·.note id) := by
  -- a change of one scope is seen in that scope only
  have hnoted : ∀ {target : ScopeId} {id : BindingId}, w.Defers action id target →
      w.scopes.noteDeferredRollback target id = .ok tree →
      tree.defersOf scope = w.scopes.defersOf scope ∨
        ∃ id, w.Defers action id scope ∧
          tree.defersOf scope = (w.scopes.defersOf scope).modify
            ((w.scopes.defersOf scope).length - 1) (·.note id) := by
    intro target id hdefers hnote
    rw [ScopeTree.defersOf_modify
      (g := fun defers => defers.modify (defers.length - 1) (·.note id)) (fun _ => rfl) hnote]
    split
    · rename_i heq
      exact Or.inr ⟨id, heq ▸ hdefers, rfl⟩
    · exact Or.inl rfl
  cases h with
  | nothing => exact Or.inl rfl
  | «local» hdeclare | error hdeclare =>
    refine Or.inl (ScopeTree.defersOf_modify_same (fun s => ?_) hdeclare)
    unfold Scope.declare
    split <;> rfl
  | exit hmark =>
    exact Or.inl (ScopeTree.defersOf_modify_same
      (f := fun s => { s with terminated := true }) (fun _ => rfl) hmark)
  | defer hdefer =>
    rw [ScopeTree.defersOf_modify (g := fun defers => defers ++ [⟨[]⟩]) (fun _ => rfl) hdefer]
    split
    · exact Or.inr (Or.inl ⟨rfl, ‹_›, rfl⟩)
    · exact Or.inl rfl
  | called hresolve hnote => exact (hnoted (.called hresolve) hnote).imp_right Or.inr
  | inLiteral hresolve hdefer hnote =>
    exact (hnoted (.inLiteral hresolve hdefer) hnote).imp_right Or.inr

section

variable (hexec : w.exec limits action = .ok u)
include hexec

/-- What opens or closes something leaves what is declared and deferred in a scope alone, and a new
scope declares and defers nothing. -/
theorem map_get?_exec {α : Type} {f : Scope → α} {d : α} (houter : action.isInner = false)
    (hf : ∀ (s : Scope) children, f { s with children } = f s)
    (hd : ∀ parent kind arm depth, f { parent, kind, armOf := arm, loopDepth := depth } = d) :
    ((u.scopes.get? scope).map f).getD d = ((w.scopes.get? scope).map f).getD d := by
  have hopens : ∀ {kind : ScopeKind} {arm? : Option ConstructId},
      w.scopes.Opens kind arm? u.scopes → w.scopes.Adds kind arm? u.scopes →
      ((u.scopes.get? scope).map f).getD d = ((w.scopes.get? scope).map f).getD d := by
    intro kind arm? hopens hadds
    rcases Nat.lt_trichotomy scope w.scopes.scopes.length with hlt | rfl | hgt
    · rw [hopens.old hlt, Option.map_map]
      refine congrArg (fun g => ((w.scopes.get? scope).map g).getD d) (funext fun s => ?_)
      rw [Function.comp_apply]
      split
      · exact hf s _
      · rfl
    · obtain ⟨outer, -, hget⟩ := hadds
      rw [hget, ScopeTree.get?, List.getElem?_eq_none (Nat.le_refl _)]
      exact hd _ _ _ _
    · have hnone : w.scopes.get? scope = none := List.getElem?_eq_none (Nat.le_of_lt hgt)
      have hnone' : u.scopes.get? scope = none := List.getElem?_eq_none (hopens.length ▸ hgt)
      rw [hnone, hnone']
  cases action with
  | enter kind => exact hopens (exec_enter hexec).tree (exec_enter_adds hexec)
  | enterArm kind => exact hopens (exec_enterArm hexec).tree (exec_enterArm_adds hexec)
  | openBody kind => exact hopens (exec_openBody hexec).tree (exec_openBody_adds hexec)
  | leave => rw [ScopeTree.get?, (closes_of_leave hexec).scopes, ScopeTree.get?]
  | closeBody => rw [ScopeTree.get?, (exec_closeBody hexec).scopes, ScopeTree.get?]
  | openConstruct _ _ _ | closeConstruct | openGuard _ | closeGuard =>
    cases hexec
    rfl
  | _ => cases houter

/-- Any action leaves the `defer` statements of a scope alone, or registers one, or notes a rollback
on the latest of them. -/
theorem exec_defersOf_cases (scope : ScopeId) :
    u.scopes.defersOf scope = w.scopes.defersOf scope ∨
    (action = .addDefer ∧ scope = w.scopes.current ∧
      u.scopes.defersOf scope = w.scopes.defersOf scope ++ [⟨[]⟩]) ∨
    ∃ id, w.Defers action id scope ∧
      u.scopes.defersOf scope = (w.scopes.defersOf scope).modify
        ((w.scopes.defersOf scope).length - 1) (·.note id) := by
  by_cases hinner : action.isInner = true
  · exact (exec_inner hinner hexec).marks.defersOf_cases scope
  · exact Or.inl (map_get?_exec hexec (by simpa using hinner) (fun _ _ => rfl) fun _ _ _ _ => rfl)

/-- A `defer` statement that is registered stays. -/
theorem exec_defersOf_ne_nil (h : w.scopes.defersOf scope ≠ []) : u.scopes.defersOf scope ≠ [] := by
  rcases exec_defersOf_cases hexec scope with heq | ⟨-, -, heq⟩ | ⟨id, -, heq⟩
  · rwa [heq]
  · rw [heq]
    exact List.append_ne_nil_of_left_ne_nil h _
  · -- a note changes no length
    rw [heq]
    intro hnil
    exact h (List.length_eq_zero_iff.mp (by simpa using congrArg List.length hnil))

end

/-- A `defer` statement is registered in the current scope. -/
theorem exec_addDefer (hexec : w.exec limits .addDefer = .ok u) :
    u.scopes.current = w.scopes.current ∧
      u.scopes.defersOf u.scopes.current = w.scopes.defersOf w.scopes.current ++ [⟨[]⟩] := by
  rw [exec] at hexec
  obtain ⟨tree, hdefer, rfl⟩ := of_updateScopes hexec
  have hcurrent : tree.current = w.scopes.current := by
    obtain ⟨-, rfl⟩ := ScopeTree.of_modify hdefer
    rfl
  refine ⟨hcurrent, ?_⟩
  rw [setScopes, hcurrent, ScopeTree.defersOf_modify (g := fun defers => defers ++ [⟨[]⟩])
    (fun _ => rfl) hdefer, if_pos rfl]

theorem exec_addDefer_ne_nil (hexec : w.exec limits .addDefer = .ok u) :
    u.scopes.defersOf u.scopes.current ≠ [] := by
  rw [(exec_addDefer hexec).2]
  exact List.append_ne_nil_of_right_ne_nil _ (List.cons_ne_nil _ _)

/-- A run never takes a `defer` statement away. -/
theorem run_defersOf_ne_nil {actions : List Action} (hrun : w.run limits actions = .ok u)
    (h : w.scopes.defersOf scope ≠ []) : u.scopes.defersOf scope ≠ [] :=
  run_preserves (P := fun v => v.scopes.defersOf scope ≠ []) (fun _ _ => exec_defersOf_ne_nil) hrun
    h

/-! ## Properties of states and actions -/

/-- The property holds wherever an action of the list runs. -/
def Along (limits : Limits) (P : Walk → Action → Prop) (w : Walk) : List Action → Prop
  | [] => True
  | action :: rest => P w action ∧ ∀ u, w.exec limits action = .ok u → Along limits P u rest

namespace Along

variable {P : Walk → Action → Prop} {actions before rest : List Action}

theorem imp_mem {Q : Walk → Action → Prop} {w : Walk} (h : w.Along limits P actions)
    (hQ : ∀ {u : Walk} {action : Action}, action ∈ actions → P u action → Q u action) :
    w.Along limits Q actions := by
  induction actions generalizing w with
  | nil => trivial
  | cons action rest ih =>
    exact ⟨hQ List.mem_cons_self h.1, fun u hexec =>
      ih (h.2 u hexec) fun hmem => hQ (List.mem_cons_of_mem _ hmem)⟩

/-- One action and then others. -/
theorem cons (h : P w action) (hexec : w.exec limits action = .ok u)
    (hrest : u.Along limits P rest) : w.Along limits P (action :: rest) := by
  refine ⟨h, fun v hv => ?_⟩
  rw [hexec, Except.ok.injEq] at hv
  exact hv ▸ hrest

theorem append {first second : List Action} (h : w.Along limits P first)
    (hrun : w.run limits first = .ok u) (hsecond : u.Along limits P second) :
    w.Along limits P (first ++ second) := by
  induction first generalizing w with
  | nil =>
    cases hrun
    exact hsecond
  | cons action rest ih =>
    obtain ⟨v, hexec, hrun⟩ := run_cons_eq_ok.mp hrun
    exact .cons h.1 hexec (ih (h.2 v hexec) hrun)

/-- One action, then some others, then the rest. -/
theorem bracket {between : List Action} (h : P w action) (hexec : w.exec limits action = .ok u)
    (hbetween : u.Along limits P between) (hrun : u.run limits between = .ok v)
    (hrest : v.Along limits P rest) : w.Along limits P (action :: between ++ rest) :=
  .cons h hexec (hbetween.append hrun hrest)

/-- A last action. -/
theorem last (h : P w action) : w.Along limits P [action] :=
  ⟨h, fun _ _ => trivial⟩

/-- The property holds of the actions in any state. -/
theorem of_forall (h : ∀ action ∈ actions, ∀ u, P u action) : w.Along limits P actions := by
  induction actions generalizing w with
  | nil => trivial
  | cons action rest ih =>
    exact ⟨h action List.mem_cons_self w, fun u _ =>
      ih fun a ha => h a (List.mem_cons_of_mem _ ha)⟩

/-- The property holds where an action runs after others. -/
theorem at_append (h : w.Along limits P (before ++ action :: rest))
    (hrun : w.run limits before = .ok u) : P u action := by
  induction before generalizing w with
  | nil =>
    cases hrun
    exact h.1
  | cons first before ih =>
    obtain ⟨v, hexec, hrun⟩ := run_cons_eq_ok.mp hrun
    exact ih (h.2 v hexec) hrun

variable (h : w.Along limits P (before ++ rest))
include h

/-- The property holds along the beginning of a run. -/
theorem take : w.Along limits P before := by
  induction before generalizing w with
  | nil => trivial
  | cons action before ih => exact ⟨h.1, fun u hexec => ih (h.2 u hexec)⟩

/-- The property holds along the rest of a run. -/
theorem drop (hrun : w.run limits before = .ok u) : u.Along limits P rest := by
  induction before generalizing w with
  | nil =>
    cases hrun
    exact h
  | cons first before ih =>
    obtain ⟨v, hexec, hrun⟩ := run_cons_eq_ok.mp hrun
    exact ih (h.2 v hexec) hrun

/-- What every action keeps where the property holds is kept by the beginning of a run. -/
theorem preserves {Q : Walk → Prop} (hsound : w.Sound limits (before ++ rest))
    (hrun : w.run limits before = .ok w')
    (hstep : ∀ {u v : Walk} {action : Action}, u.WellFormed → v.WellFormed → P u action →
      u.exec limits action = .ok v → Q u → Q v)
    (hw : Q w) : Q w' := by
  induction before generalizing w with
  | nil =>
    cases hrun
    exact hw
  | cons action before ih =>
    obtain ⟨u, hexec, hrun⟩ := run_cons_eq_ok.mp hrun
    have hrest := hsound.2.2 u hexec
    exact ih (h.2 u hexec) hrest hrun (hstep hsound.1 hrest.wellFormed h.1 hexec hw)

end Along

/-! ## What the code guarantees -/

/-- What the code guarantees where an action runs: an arm is opened in the scope of a construct that
takes it, a construct is closed when it has all its arms, a deferred call finds its `defer`
statement in the current scope, and acquisitions and returns stand where statements are read. -/
def Prepared (w : Walk) : Action → Prop
  | .acquire _ _ _ _ | .handOut _ => w.Ready .code
  | .enterArm kind => w.constructs ≠ [] ∧ ∃ c, w.scopes.construct? (w.constructs.headD 0) = some c ∧
      c.owner = w.scopes.current ∧ c.kind.takes kind = true
  | .closeConstruct => ∀ c, w.scopes.construct? (w.constructs.headD 0) = some c →
      c.Complete w.scopes
  | .deferCall _ _ | .openBody .deferred => w.scopes.defersOf w.scopes.current ≠ []
  | _ => True

/-- Plain actions need no preparation other than to stand where statements are read. -/
theorem prepared_of_isPlain (h : action.isPlain = true) (hready : w.Ready .code) :
    w.Prepared action := by
  cases action with
  | acquire _ _ _ _ | handOut _ => exact hready
  | _ => trivial

/-- Commits and rollbacks need none at all. -/
theorem prepared_of_isFinalize (h : action.isFinalize = true) (w : Walk) : w.Prepared action := by
  cases action <;> trivial

/-- Deferred calls find the `defer` statement that has just been registered. -/
theorem along_deferCalls {calls : List Action} (hcalls : ∀ a ∈ calls, a.isDeferCall = true)
    (hwf : w.WellFormed) (h : w.scopes.defersOf w.scopes.current ≠ []) :
    w.Along limits Prepared calls := by
  induction calls generalizing w with
  | nil => trivial
  | cons call rest ih =>
    have hcall := hcalls call List.mem_cons_self
    refine ⟨?_, fun u hexec => ih (fun a ha => hcalls a (List.mem_cons_of_mem _ ha)) ?_ ?_⟩
    · cases call <;> first | exact h | cases hcall
    · exact hwf.edits (exec_edits hwf.indexed (Action.isInner_of_isDeferCall hcall) hexec)
    · have hedits := exec_edits hwf.indexed (Action.isInner_of_isDeferCall hcall) hexec
      rw [hedits.current]
      exact exec_defersOf_ne_nil hexec h

end Walk

namespace Flow.Walks

open Walk

variable {limits : Limits} {shape : Shape} {flow : Flow shape} {w w' : Walk}

/-- The next arm is opened in the scope of a construct that takes it. -/
theorem prepared_enterArm {u : Walk} {kind : ScopeKind} {c : Construct}
    (h : w.Steps limits .arms (.enterArm kind) .code u)
    (hc : w.scopes.construct? (w.constructs.headD 0) = some c) (htakes : c.kind.takes kind = true) :
    w.Prepared (.enterArm kind) := by
  obtain ⟨id, rest, c', hopened, hc', howner⟩ := h.ready.construct rfl
  rw [hopened, List.headD_cons, hc', Option.some.injEq] at hc
  subst hc
  refine ⟨by rw [hopened]; exact List.cons_ne_nil id rest, c', ?_, howner, htakes⟩
  rw [hopened, List.headD_cons, hc']

/-- Reading proper code prepares all its actions. The arms of a flow must suit the innermost
construct, which is registered before them. -/
theorem prepared (h : flow.Walks limits w w') (hproper : flow.Proper)
    (htakes : shape = .arms → ∀ c, w.scopes.construct? (w.constructs.headD 0) = some c →
      ∀ kind ∈ flow.armKinds, c.kind.takes kind = true) :
    w.Along limits Prepared flow.actions := by
  induction h with
  | skip _ | jump _ | noArm _ => trivial
  | @act _ _ action plain h => exact .last (prepared_of_isPlain plain h.ready)
  | seq hfirst _ ih₁ ih₂ =>
    exact (ih₁ hproper.1 Shape.not_arms).append hfirst.run (ih₂ hproper.2 Shape.not_arms)
  | block hopen hbody _ ih =>
    exact .bracket trivial hopen.exec (ih hproper Shape.not_arms) hbody.run (.last trivial)
  | loop hhead hopen hbody _ ihHead ihBody =>
    rw [actions, List.append_assoc]
    exact (ihHead hproper.1 Shape.not_arms).append hhead.run
      (.bracket trivial hopen.exec (ihBody hproper.2 Shape.not_arms) hbody.run (.last trivial))
  | @conditional w w₁ w₂ w₃ w₄ u v w₅ w₆ w₇ w' take head names hasElse span consequence alternative
      hhold hhead hguard hconstruct harm hthen hleave hunguard helse hclose ihHead ihThen ihElse =>
    obtain ⟨hproperHead, hproperThen, hproperElse, hkinds⟩ := hproper
    have hallows :
        ConstructKind.conditional.Allows hasElse (.ifBranch :: alternative.armKinds) := by
      rw [hkinds]
      rfl
    obtain ⟨hopened, hfresh⟩ := exec_openConstruct hconstruct.exec
    have hregistered : w₄.scopes.construct? (w₄.constructs.headD 0) = some
        { kind := .conditional, owner := w₃.scopes.current, hasFallback := hasElse, span } := by
      rw [hopened, List.headD_cons]
      exact hfresh
    have hone := first_branch hconstruct harm hthen hleave hunguard
    have halternative : w₆.Along limits Prepared alternative.actions := by
      refine ihElse hproperElse fun _ c hc kind hkind => ?_
      rw [hone, Option.some.injEq] at hc
      subst hc
      exact hallows.takes (List.mem_cons_of_mem _ hkind)
    have hcomplete : w₇.Prepared .closeConstruct :=
      complete_of_branches hconstruct harm hthen hleave hunguard helse hkinds
    -- the actions in the order in which they run
    simp only [actions, List.append_assoc, List.cons_append]
    refine .cons trivial hhold.exec ((ihHead hproperHead Shape.not_arms).append hhead.run ?_)
    refine .cons trivial hguard.exec (.cons trivial hconstruct.exec ?_)
    refine .cons (prepared_enterArm harm hregistered rfl) harm.exec ?_
    refine (ihThen hproperThen Shape.not_arms).append hthen.run (.cons trivial hleave.exec ?_)
    exact .cons trivial hunguard.exec (halternative.append helse.run (.last hcomplete))
  | @clauses w w₁ w₂ w' kind hasDefault span arms hopen harms hclose ih =>
    obtain ⟨hproperArms, -, hallows⟩ := hproper
    have hread : w₁.Along limits Prepared arms.actions := by
      refine ih hproperArms fun _ c hc arm harm => ?_
      obtain ⟨hopened, hfresh⟩ := exec_openConstruct hopen.exec
      rw [hopened, List.headD_cons, hfresh, Option.some.injEq] at hc
      subst hc
      exact hallows.takes harm
    exact .bracket trivial hopen.exec hread harms.run
      (.last (complete_of_clauses hopen harms hallows))
  | arguments hopen hargs _ ih =>
    exact .bracket trivial hopen.exec (ih hproper Shape.not_arms) hargs.run (.last trivial)
  | @literal _ _ _ _ launch _ hopen hbody _ ih =>
    refine .bracket ?_ hopen.exec (ih hproper Shape.not_arms) hbody.run (.last trivial)
    cases launch <;> trivial
  | @launched _ u _ _ _ _ call finalizes _ hopen hcall hfunc _ ih =>
    have hcalled : u.Along limits Prepared call := .of_forall fun action haction =>
      prepared_of_isFinalize (finalizes action haction)
    simp only [actions, List.append_assoc, List.cons_append]
    exact .cons trivial hopen.exec (hcalled.append hcall
      ((ih hproper Shape.not_arms).append hfunc.run (.last trivial)))
  | @deferral _ u _ _ calls deferred _ hdefer hcalls _ ih =>
    have hcalled : u.Along limits Prepared calls :=
      along_deferCalls deferred hdefer.ready'.wellFormed (exec_addDefer_ne_nil hdefer.exec)
    exact .cons trivial hdefer.exec (hcalled.append hcalls (ih hproper Shape.not_arms))
  | @deferredLiteral _ _ u _ _ _ _ _ hdefer hevaluated hopen hbody _ ih₁ ih₂ =>
    have hfound : u.Prepared (.openBody .deferred) := by
      have hregistered := run_defersOf_ne_nil hevaluated.run (exec_addDefer_ne_nil hdefer.exec)
      rw [← hevaluated.balanced.current] at hregistered
      exact hregistered
    rw [actions, List.append_assoc]
    exact .cons trivial hdefer.exec ((ih₁ hproper.1 Shape.not_arms).append hevaluated.run
      (.bracket hfound hopen.exec (ih₂ hproper.2 Shape.not_arms) hbody.run (.last trivial)))
  | @arm w u v t w' kind _ _ rest hopen hbody hclose _ ihBody ihRest =>
    obtain ⟨id, others, c, hopened, hc, -⟩ := hopen.ready.construct rfl
    have hhead : w.scopes.construct? (w.constructs.headD 0) = some c := by
      rw [hopened, List.headD_cons, hc]
    have htakes := htakes rfl c hhead
    have hfirst := Balanced.of_leave (exec_enterArm hopen.exec) hbody.balanced hclose.exec
    have harmed := hclose.keeps
      (hbody.traverses.keeps (exec_enterArm_construct? hopen.exec hhead) Shape.not_arms)
    rw [← hfirst.opened] at harmed
    have hrest : t.Along limits Prepared rest.actions := by
      refine ihRest hproper.2 fun _ c' hc' other hother => ?_
      rw [harmed, Option.some.injEq] at hc'
      subst hc'
      exact htakes other (List.mem_cons_of_mem _ hother)
    exact .bracket (prepared_enterArm hopen hhead (htakes kind List.mem_cons_self)) hopen.exec
      (ihBody hproper.1 Shape.not_arms) hbody.run (.cons trivial hclose.exec hrest)

end Flow.Walks

namespace FunctionUnit

open Walk

variable {limits : Limits} {names : Recognizers} {unit : FunctionUnit} {w : Walk}

/-- The actions of a function are prepared wherever they run, at least under limits that do not stop
the walk. -/
theorem prepared (limits : Limits) (names : Recognizers) (unit : FunctionUnit) :
    ∃ limits', limits ≤ limits' ∧ ({} : Walk).Along limits' Prepared (unit.actions names) := by
  obtain ⟨limits', w', hle, hwalks⟩ := exists_walks limits names unit
  refine ⟨limits', hle, ?_⟩
  rw [← flow_actions]
  exact hwalks.prepared (unit.proper names) Shape.not_arms

/-- An action of a function is prepared where it runs. -/
theorem prepared_of_run {before rest : List Action} {action : Action}
    (hactions : unit.actions names = before ++ action :: rest)
    (hrun : Walk.run limits {} before = .ok w) : w.Prepared action := by
  obtain ⟨limits', hle, halong⟩ := unit.prepared limits names
  rw [hactions] at halong
  exact halong.at_append (run_mono hle hrun)

/-- What every prepared action keeps holds at every moment of a walk. -/
theorem invariant_of_run {Q : Walk → Prop} {before rest : List Action}
    (hactions : unit.actions names = before ++ rest) (hrun : Walk.run limits {} before = .ok w)
    (hstep : ∀ {limits : Limits} {u v : Walk} {action : Action}, u.WellFormed → v.WellFormed →
      u.Prepared action → u.exec limits action = .ok v → Q u → Q v) (hinit : Q {}) : Q w := by
  obtain ⟨limits', hle, halong⟩ := unit.prepared limits names
  have hsound := unit.sound_actions limits' names
  rw [hactions] at halong hsound
  -- larger limits do not change what has been read so far
  exact halong.preserves hsound (run_mono hle hrun) hstep hinit

end FunctionUnit

end TxLifecycle
