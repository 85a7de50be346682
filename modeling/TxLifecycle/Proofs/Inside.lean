import Mathlib.Data.List.Induction
import TxLifecycle.Proofs.Prepared

/-!
# Inside a piece of code

A piece of code closes all that it opens. So where a property of states only looks at the open
scopes and at the surroundings of the code, and does not mind scopes that open, it holds all the way
through the code once it holds at its beginning.

* `Walk.Nested`: what is asked of such a property;
* `Flow.nested_of_run`: it holds at every state on the way through the code;
* `Walk.Inside`: one such property. The scopes that were open when the code began stay open, and the
  `go` statements around it stay around it.
-/

namespace TxLifecycle

namespace Walk

variable {limits : Limits} {w u v : Walk} {P : Walk → Prop}

/-- The property looks at the open scopes and the surroundings of the code only, and it survives the
opening of scopes and of bodies. -/
structure Nested (limits : Limits) (P : Walk → Prop) : Prop where
  /-- The open scopes and the surroundings stay, less the statement that events point at. -/
  same : ∀ {u v : Walk}, P u → u.WellFormed → u.scopes.Extends v.scopes →
    v.scopes.stack = u.scopes.stack →
    v.context = { u.context with span := v.context.span } → P v
  openGuard : ∀ {u : Walk} (names : List String), P u → P (u.openGuard names)
  opens : ∀ {u v : Walk} {kind : ScopeKind} {arm? : Option ConstructId}, P u → u.WellFormed →
    kind.isClosure = false → u.Opens kind arm? u.context u.outer v → P v
  openBody : ∀ {u v : Walk} {kind : BodyKind}, P u → u.WellFormed →
    u.exec limits (.openBody kind) = .ok v → P v

namespace Nested

variable {actions : List Action} {kind : ScopeKind} {shape : Shape} (hP : Nested limits P)
include hP

theorem traverses (h : P u) (ht : u.Traverses limits shape actions v) : P v :=
  hP.same h ht.ready.wellFormed ht.grows ht.balanced.stack ht.balanced.context

/-- An action has run that opens and closes no scope. -/
theorem step {action : Action} {shape' : Shape} (h : P u)
    (hstep : u.Steps limits shape action shape' v)
    (haction : action.isInner = true ∨ ∃ kind
      hasFallback span, action = .openConstruct kind hasFallback span) : P v := by
  have hwf := hstep.ready.wellFormed
  have hextends := exec_extends hwf.indexed hstep.exec
  rcases haction with hinner | ⟨kind, hasFallback, span, rfl⟩
  · have hedits := hstep.edits hinner
    exact hP.same h hwf hextends hedits.stack hedits.context
  · cases hstep.exec
    exact hP.same h hwf hextends rfl rfl

theorem enterArm {shape' : Shape} (h : P u) (hkind : kind.isArm = true)
    (hstep : u.Steps limits shape (.enterArm kind) shape' v) : P v := by
  refine hP.opens h hstep.ready.wellFormed ?_ (exec_enterArm hstep.exec)
  cases kind <;> first | rfl | cases hkind

/-- The consequence of an error check has been read: all is as before the check. -/
theorem closeGuard {names : List String} {hasElse : Bool} {span : Span} {w₃ w₄ w₅ w₆ : Walk}
    (h : P w) (hguard : w.Steps limits .code (.openGuard names) .code w₃)
    (hconstruct : w₃.Steps limits .code (.openConstruct .conditional hasElse span) .arms w₄)
    (hfirst : w₄.Traverses limits .arms actions w₅)
    (hunguard : w₅.Steps limits .arms .closeGuard .arms w₆) : P w₆ := by
  have hbalanced := hfirst.balanced
  have hextends := hfirst.grows
  cases hguard.exec
  cases hconstruct.exec
  cases hunguard.exec
  refine hP.same h hguard.ready.wellFormed ⟨hextends.length, hextends.parent?, hextends.kind?⟩
    hbalanced.stack ?_
  rw [modifyContext, hbalanced.context]
  rfl

end Nested

/-- The property holds wherever an action of the run is met. -/
theorem Traverses.nested {shape : Shape} {actions : List Action} {w' : Walk}
    (h : w.Traverses limits shape actions w') (hP : Nested limits P) (hw : P w) :
    w.Along limits (fun u _ => P u) actions := by
  induction h with
  | nil _ => trivial
  | step _ _ => exact .last hw
  | append hfirst _ ih₁ ih₂ => exact (ih₁ hw).append hfirst.run (ih₂ (hP.traverses hw hfirst))
  | scope hkind hopen hbody hclose ih =>
    have hu := hP.opens hw hopen.ready.wellFormed hkind (exec_enter hopen.exec)
    exact .bracket hw hopen.exec (ih hu) hbody.run (.last (hP.traverses hu hbody))
  | body hopen hbody hclose ih =>
    have hu := hP.openBody hw hopen.ready.wellFormed hopen.exec
    exact .bracket hw hopen.exec (ih hu) hbody.run (.last (hP.traverses hu hbody))
  | branches hguard hconstruct hfirst hunguard hrest hclose ihFirst ihRest =>
    have h₃ := Except.ok.inj hguard.exec ▸ hP.openGuard _ hw
    have h₄ := hP.step h₃ hconstruct (Or.inr ⟨_, _, _, rfl⟩)
    have h₅ := hP.traverses h₄ hfirst
    have h₆ := hP.closeGuard hw hguard hconstruct hfirst hunguard
    -- the actions in the order in which they run
    simp only [List.append_assoc, List.cons_append]
    refine .cons hw hguard.exec (.cons h₃ hconstruct.exec ((ihFirst h₄).append hfirst.run ?_))
    exact .cons h₅ hunguard.exec ((ihRest h₆).append hrest.run (.last (hP.traverses h₆ hrest)))
  | clauses hopen hclauses hclose ih =>
    have h₁ := hP.step hw hopen (Or.inr ⟨_, _, _, rfl⟩)
    exact .bracket hw hopen.exec (ih h₁) hclauses.run (.last (hP.traverses h₁ hclauses))
  | arm hkind hopen hbody hclose ih =>
    have hu := hP.enterArm hw hkind hopen
    exact .bracket hw hopen.exec (ih hu) hbody.run (.last (hP.traverses hu hbody))

end Walk

namespace Flow

open Walk

variable {limits : Limits} {shape : Shape} {flow : Flow shape} {w w' u : Walk} {P : Walk → Prop}

/-- The property holds at every state on the way through a flow, whether the flow is read to its end
or not. -/
theorem nested_of_run {lead tail : List Action} (hP : ∀ limits, Nested limits P)
    (hready : w.Ready shape) (hactions : flow.actions = lead ++ tail)
    (hrun : w.run limits lead = .ok u) (hw : P w) : P u := by
  -- under larger limits the flow is read to its end
  have hsound : ∀ limits', limits ≤ limits' → w.Sound limits' flow.actions :=
    fun _ _ => flow.sound hready
  obtain ⟨limits', w', hle, hend⟩ := Sound.exists_run hsound
  have hwalks := flow.walks_of_run hready hend
  have hlead := run_mono hle hrun
  cases tail with
  | nil =>
    rw [hactions, List.append_nil, hlead, Except.ok.injEq] at hend
    exact hend ▸ (hP limits').traverses hw hwalks.traverses
  | cons action rest =>
    have halong := hwalks.traverses.nested (hP limits') hw
    rw [hactions] at halong
    exact halong.at_append hlead

/-- What every action keeps that runs where the property holds. -/
theorem keeps_of_run {Q : Walk → Prop} {lead tail : List Action} (hP : ∀ limits, Nested limits P)
    (hready : w.Ready shape) (hactions : flow.actions = lead ++ tail)
    (hrun : w.run limits lead = .ok u) (hw : P w)
    (hstep : ∀ {s t : Walk} {action : Action}, P s → s.WellFormed →
      s.exec limits action = .ok t → Q s → Q t)
    (hQ : Q w) : Q u := by
  induction lead using List.reverseRecOn generalizing tail u with
  | nil =>
    cases hrun
    exact hQ
  | append_singleton lead action ih =>
    rw [List.append_assoc] at hactions
    obtain ⟨v, hlead, hlast⟩ := run_append_eq_ok.mp hrun
    obtain ⟨u, hexec, hnil⟩ := run_cons_eq_ok.mp hlast
    cases hnil
    have hsound : w.Sound limits (lead ++ ([action] ++ tail)) := hactions ▸ flow.sound hready
    exact hstep (nested_of_run hP hready hactions hlead hw) (hsound.drop hlead).wellFormed hexec
      (ih hactions hlead)

end Flow

variable {limits : Limits}

/-- A property of this kind holds at every moment of a walk, if it holds before it. -/
theorem FunctionUnit.nested_of_run {names : Recognizers} {unit : FunctionUnit} {P : Walk → Prop}
    {before rest : List Action} {w : Walk} (hP : ∀ limits, Walk.Nested limits P)
    (hactions : unit.actions names = before ++ rest) (hrun : Walk.run limits {} before = .ok w)
    (hinit : P {}) : P w :=
  Flow.nested_of_run hP .init ((unit.flow_actions names).trans hactions) hrun hinit

namespace Walk

/-- The second state has all that is open in the first one. -/
structure Inside (w u : Walk) : Prop where
  stack : w.scopes.stack <:+ u.scopes.stack
  /-- The `go` statements around the code. -/
  launches : w.context.launches <+: u.context.launches

/-- What is open when a piece of code begins stays open inside it. -/
theorem nested_inside (limits : Limits) (w : Walk) : Nested limits w.Inside where
  same := fun h _ _ hstack hcontext =>
    ⟨hstack ▸ h.stack, by rw [hcontext]; exact h.launches⟩
  openGuard := fun _ h => ⟨h.stack, h.launches⟩
  opens := fun h _ _ hopens => by
    refine ⟨?_, ?_⟩
    · rw [hopens.tree.stack]
      exact h.stack.trans (List.suffix_cons _ _)
    · rw [hopens.context_eq]
      exact h.launches
  openBody := fun {u v kind} h _ hexec => by
    have hopens := exec_openBody hexec
    refine ⟨?_, ?_⟩
    · rw [hopens.tree.stack]
      exact h.stack.trans (List.suffix_cons _ _)
    · rw [hopens.context_eq]
      refine h.launches.trans ?_
      cases kind with
      | closure | deferred => exact List.prefix_rfl
      | goroutine launch => exact List.prefix_append _ _

end Walk

/-- Every state on the way through a flow is inside it. -/
theorem Flow.inside_of_run {shape : Shape} {flow : Flow shape} {w u : Walk}
    {lead tail : List Action} (hready : w.Ready shape) (hactions : flow.actions = lead ++ tail)
    (hrun : w.run limits lead = .ok u) : w.Inside u :=
  nested_of_run (Walk.nested_inside · w) hready hactions hrun ⟨List.suffix_rfl, List.prefix_rfl⟩

end TxLifecycle
