import TxLifecycle.Proofs.Ancestry
import TxLifecycle.Proofs.Limits

/-!
# The arms of branching statements

A construct is registered without arms and gets them one by one while its statement is read. Which
arms it ends up with is a matter of the code alone (`Flow.armKinds`):

* `Flow.Walks.exists_arms`: reading a flow adds exactly those arms, and none to any other construct;
* `Construct.Complete`: the construct has all the arms of its statement, which is so once the
  statement is read (`Flow.Walks.complete_of_branches`, `Flow.Walks.complete_of_clauses`).
-/

namespace TxLifecycle

namespace ConstructKind

/-- The scopes of this kind can be arms of the construct. -/
def takes : ConstructKind → ScopeKind → Bool
  | .conditional, kind => kind == .ifBranch || kind == .elseBranch
  | .switch, kind => kind == .switchCase
  | .select, kind => kind == .selectCase

/-- A construct takes the arms that it has in the end. -/
theorem Allows.takes {kind : ConstructKind} {hasFallback : Bool} {arms : List ScopeKind}
    (h : kind.Allows hasFallback arms) {arm : ScopeKind} (harm : arm ∈ arms) :
    kind.takes arm = true := by
  cases kind with
  | conditional =>
    rw [show arms = _ from h] at harm
    cases hasFallback <;> simp at harm <;> rcases harm with rfl | rfl <;> rfl
  | switch | select => exact beq_iff_eq.mpr (h arm harm)

end ConstructKind

/-- The construct has all the arms of its statement. -/
def Construct.Complete (c : Construct) (tree : ScopeTree) : Prop :=
  ∃ kinds, c.arms.map tree.kind? = kinds.map some ∧ c.kind.Allows c.hasFallback kinds

/-! ## Constructs while code is read -/

namespace Walk

variable {limits : Limits} {w u w' : Walk} {action : Action} {id : ConstructId} {c : Construct}
  {actions : List Action}

/-- An action keeps a construct as it is, unless it opens an arm of it. -/
theorem exec_keeps (hindexed : w.Indexed) (hexec : w.exec limits action = .ok u)
    (harm : ∀ kind, action = .enterArm kind → w.constructs.headD 0 ≠ id)
    (hc : w.scopes.construct? id = some c) : u.scopes.construct? id = some c := by
  cases action with
  | enter kind =>
    rw [(exec_enter hexec).tree.construct?, hc]
    rfl
  | enterArm kind =>
    -- the arm goes to the innermost construct, which is another one
    rw [(exec_enterArm hexec).tree.construct?, hc, Option.map_some,
      if_neg fun heq => harm kind rfl (Option.some.inj heq)]
  | openBody kind =>
    rw [(exec_openBody hexec).tree.construct?, hc]
    rfl
  | leave =>
    rw [ScopeTree.construct?, (closes_of_leave hexec).constructs]
    exact hc
  | closeBody =>
    rw [ScopeTree.construct?, (exec_closeBody hexec).constructs]
    exact hc
  | openConstruct kind hasFallback span =>
    cases hexec
    exact ScopeTree.construct?_openConstruct hc kind hasFallback span
  | closeConstruct | openGuard _ | closeGuard =>
    cases hexec
    exact hc
  | _ => rw [(exec_edits hindexed rfl hexec).construct?, hc]

/-- Opening an arm of the innermost construct. -/
theorem exec_enterArm_construct? {kind : ScopeKind} (hexec : w.exec limits (.enterArm kind) = .ok u)
    (hc : w.scopes.construct? (w.constructs.headD 0) = some c) :
    u.scopes.construct? (w.constructs.headD 0) =
      some { c with arms := c.arms ++ [w.scopes.scopes.length] } := by
  rw [(exec_enterArm hexec).tree.construct?, hc]
  simp

/-- The construct that has just been registered is the innermost one and has no arms. -/
theorem exec_openConstruct {kind : ConstructKind} {hasFallback : Bool} {span : Span}
    (hexec : w.exec limits (.openConstruct kind hasFallback span) = .ok u) :
    u.constructs = w.scopes.constructs.length :: w.constructs ∧
      u.scopes.construct? w.scopes.constructs.length =
        some { kind, owner := w.scopes.current, hasFallback, span } := by
  cases hexec
  exact ⟨rfl, List.getElem?_concat_length⟩

/-- A step that opens no arm keeps all constructs. -/
theorem Steps.keeps {shape shape' : Shape} (h : w.Steps limits shape action shape' u)
    (hc : w.scopes.construct? id = some c) (harm : ∀ kind, action ≠ .enterArm kind := by simp) :
    u.scopes.construct? id = some c :=
  exec_keeps h.ready.wellFormed.indexed h.exec (fun kind hkind => absurd hkind (harm kind)) hc

theorem Sound.grows (h : w.Sound limits actions) (hrun : w.run limits actions = .ok w') :
    w.scopes.Extends w'.scopes :=
  h.preserves (P := fun v => w.scopes.Extends v.scopes) hrun
    (fun _ hwf hexec hextends => hextends.trans (exec_extends hwf.indexed hexec)) (.refl w.scopes)

namespace Traverses

variable {shape : Shape} (h : w.Traverses limits shape actions w')
include h

/-- No scope is removed. -/
theorem grows : w.scopes.Extends w'.scopes := by
  have hgrows : ∀ {u v : Walk} {shape shape' : Shape} {action : Action},
      u.Steps limits shape action shape' v → u.scopes.Extends v.scopes :=
    fun h => exec_extends h.ready.wellFormed.indexed h.exec
  induction h with
  | nil _ => exact .refl _
  | step _ h => exact hgrows h
  | append _ _ ih₁ ih₂ => exact ih₁.trans ih₂
  | scope _ hopen _ hclose ih | body hopen _ hclose ih | clauses hopen _ hclose ih
  | arm _ hopen _ hclose ih => exact ((hgrows hopen).trans ih).trans (hgrows hclose)
  | branches hguard hconstruct _ hunguard _ hclose ihFirst ihRest =>
    have hfirst := ((hgrows hguard).trans (hgrows hconstruct)).trans ihFirst
    exact ((hfirst.trans (hgrows hunguard)).trans ihRest).trans (hgrows hclose)

/-- Code keeps all constructs as they are; arms keep all but the innermost one. -/
theorem keeps (hc : w.scopes.construct? id = some c)
    (hne : shape = .arms → w.constructs.headD 0 ≠ id) : w'.scopes.construct? id = some c := by
  -- only the arms of constructs that are registered meanwhile are opened on the way
  have hnew : ∀ {u v : Walk} {kind : ConstructKind} {hasFallback : Bool} {span : Span},
      u.Steps limits .code (.openConstruct kind hasFallback span) .arms v →
      u.scopes.construct? id = some c → v.constructs.headD 0 ≠ id := by
    intro u v kind hasFallback span hopen hu
    rw [(exec_openConstruct hopen.exec).1, List.headD_cons]
    exact Nat.ne_of_gt (List.getElem?_eq_some_iff.mp hu).1
  induction h with
  | nil _ => exact hc
  | step haction h =>
    refine h.keeps hc fun kind hkind => ?_
    rw [hkind] at haction
    cases haction
  | append hfirst _ ih₁ ih₂ =>
    exact ih₂ (ih₁ hc hne) fun hshape => hfirst.balanced.opened ▸ hne hshape
  | scope _ hopen _ hclose ih | body hopen _ hclose ih =>
    exact hclose.keeps (ih (hopen.keeps hc) Shape.not_arms)
  | branches hguard hconstruct hfirst hunguard _ hclose ihFirst ihRest =>
    have hbefore := hguard.keeps hc
    have hhead := hnew hconstruct hbefore
    have hleft := hunguard.keeps (ihFirst (hconstruct.keeps hbefore) fun _ => hhead)
    refine hclose.keeps (ihRest hleft fun _ => ?_)
    -- the alternative is an arm of the same construct
    have hopened := hfirst.balanced.opened
    cases hunguard.exec
    rw [modifyContext, hopened]
    exact hhead
  | clauses hopen _ hclose ih =>
    exact hclose.keeps (ih (hopen.keeps hc) fun _ => hnew hopen hc)
  | arm _ hopen _ hclose ih =>
    have harmed := exec_keeps hopen.ready.wellFormed.indexed hopen.exec (fun _ _ => hne rfl) hc
    exact hclose.keeps (ih harmed Shape.not_arms)

end Traverses

end Walk

namespace Flow.Walks

open Walk

variable {limits : Limits} {shape : Shape} {flow : Flow shape} {w w' : Walk} {id : ConstructId}
  {c : Construct} {hasElse : Bool} {consequence : Flow .code} {span : Span}

section

variable (h : flow.Walks limits w w')
include h

/-- Reading a flow never removes a scope. -/
theorem grows : w.scopes.Extends w'.scopes := h.traverses.grows

/-- Reading arms adds them to the innermost construct, in the order and of the kinds of the flow. -/
theorem exists_arms (hshape : shape = .arms)
    (hc : w.scopes.construct? (w.constructs.headD 0) = some c) :
    ∃ added, w'.scopes.construct? (w.constructs.headD 0) = some { c with arms := c.arms ++ added } ∧
      added.map w'.scopes.kind? = flow.armKinds.map some := by
  induction h generalizing c with
  | noArm _ => exact ⟨[], by rw [List.append_nil]; exact hc, rfl⟩
  | @arm w u v t w' kind _ _ _ hopen hbody hclose hrest _ ihRest =>
    have hopens := (exec_enterArm hopen.exec).tree
    have hfirst := Balanced.of_leave (exec_enterArm hopen.exec) hbody.balanced hclose.exec
    have harmed := hclose.keeps
      (hbody.traverses.keeps (exec_enterArm_construct? hopen.exec hc) Shape.not_arms)
    rw [← hfirst.opened] at harmed
    obtain ⟨added, hadded, hkinds⟩ := ihRest rfl harmed
    rw [hfirst.opened] at hadded
    refine ⟨w.scopes.scopes.length :: added, by simpa using hadded, ?_⟩
    -- the kind of the arm is known where it is opened
    have hgrows := (hbody.grows.trans (exec_extends hclose.ready.wellFormed.indexed
      hclose.exec)).trans hrest.grows
    have hlt : w.scopes.scopes.length < u.scopes.scopes.length := by
      rw [hopens.length]
      exact Nat.lt_succ_self _
    rw [List.map_cons, hkinds, hgrows.kind? hlt, hopens.kind?_fresh]
    rfl
  | _ => cases hshape

end

/-! ## Branching statements that have been read -/

/-- The construct of an `if` has one arm once its consequence is read. -/
theorem first_branch {w₃ w₄ u v w₅ w₆ : Walk}
    (hopen : w₃.Steps limits .code (.openConstruct .conditional hasElse span) .arms w₄)
    (harm : w₄.Steps limits .arms (.enterArm .ifBranch) .code u)
    (hthen : consequence.Walks limits u v) (hleave : v.Steps limits .code .leave .arms w₅)
    (hunguard : w₅.Steps limits .arms .closeGuard .arms w₆) :
    w₆.scopes.construct? (w₆.constructs.headD 0) = some
      { kind := .conditional, owner := w₃.scopes.current, arms := [w₄.scopes.scopes.length],
        hasFallback := hasElse, span } := by
  have hfirst := Balanced.of_leave (exec_enterArm harm.exec) hthen.balanced hleave.exec
  have hunguarded : w₆.constructs = w₅.constructs := by
    cases hunguard.exec
    rfl
  obtain ⟨hopened, hfresh⟩ := exec_openConstruct hopen.exec
  have hregistered : w₄.scopes.construct? (w₄.constructs.headD 0) =
      some { kind := .conditional, owner := w₃.scopes.current, hasFallback := hasElse, span } := by
    rw [hopened, List.headD_cons]
    exact hfresh
  -- only the first of these steps opens an arm of the construct
  rw [hunguarded, hfirst.opened]
  exact hunguard.keeps (hleave.keeps
    (hthen.traverses.keeps (exec_enterArm_construct? harm.exec hregistered) Shape.not_arms))

/-- The construct of an `if` is complete once both branches are read. -/
theorem complete_of_branches {w₃ w₄ u v w₅ w₆ w₇ : Walk} {alternative : Flow .arms}
    (hopen : w₃.Steps limits .code (.openConstruct .conditional hasElse span) .arms w₄)
    (harm : w₄.Steps limits .arms (.enterArm .ifBranch) .code u)
    (hthen : consequence.Walks limits u v) (hleave : v.Steps limits .code .leave .arms w₅)
    (hunguard : w₅.Steps limits .arms .closeGuard .arms w₆) (helse : alternative.Walks limits w₆ w₇)
    (hkinds : alternative.armKinds = if hasElse then [.elseBranch] else []) (c : Construct)
    (hc : w₇.scopes.construct? (w₇.constructs.headD 0) = some c) : c.Complete w₇.scopes := by
  have hopens := (exec_enterArm harm.exec).tree
  have hone := first_branch hopen harm hthen hleave hunguard
  obtain ⟨added, hadded, haddedKinds⟩ := helse.exists_arms rfl hone
  rw [helse.balanced.opened, hadded, Option.some.injEq] at hc
  subst hc
  -- the kind of the first arm is known where it is opened
  have hgrows := ((hthen.grows.trans (exec_extends hleave.ready.wellFormed.indexed
    hleave.exec)).trans (exec_extends hunguard.ready.wellFormed.indexed hunguard.exec)).trans
    helse.grows
  have hlt : w₄.scopes.scopes.length < u.scopes.scopes.length := by
    rw [hopens.length]
    exact Nat.lt_succ_self _
  refine ⟨.ifBranch :: alternative.armKinds, ?_, by rw [hkinds]; rfl⟩
  simp only [List.nil_append, List.cons_append, List.map_cons]
  rw [haddedKinds, hgrows.kind? hlt, hopens.kind?_fresh]

/-- The construct of a switch or select is complete once its clauses are read. -/
theorem complete_of_clauses {w₁ w₂ : Walk} {kind : ConstructKind} {hasDefault : Bool}
    {arms : Flow .arms}
    (hopen : w.Steps limits .code (.openConstruct kind hasDefault span) .arms w₁)
    (harms : arms.Walks limits w₁ w₂) (hallows : kind.Allows hasDefault arms.armKinds)
    (c : Construct) (hc : w₂.scopes.construct? (w₂.constructs.headD 0) = some c) :
    c.Complete w₂.scopes := by
  obtain ⟨hopened, hfresh⟩ := exec_openConstruct hopen.exec
  have hregistered : w₁.scopes.construct? (w₁.constructs.headD 0) =
      some { kind, owner := w.scopes.current, hasFallback := hasDefault, span } := by
    rw [hopened, List.headD_cons]
    exact hfresh
  obtain ⟨added, hadded, hkinds⟩ := harms.exists_arms rfl hregistered
  rw [harms.balanced.opened, hadded, Option.some.injEq] at hc
  subst hc
  exact ⟨arms.armKinds, hkinds, hallows⟩

end Flow.Walks

end TxLifecycle
