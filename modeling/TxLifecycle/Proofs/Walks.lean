import TxLifecycle.Proofs.Flow
import TxLifecycle.Proofs.States

/-!
# Reading a flow

`Flow.Walks limits w flow w'` says that reading `flow` in the state `w` succeeds and gives `w'`. It
has one rule for every way to build a flow, so that statements about a whole walk are proved by
induction over the structure of the code and no longer over a flat list.

* `Walk.Ready`: what holds where a piece of code, or the next arm of a branching statement, begins;
* `Walk.Balanced`: what reading code puts back as it was;
* `Walk.Traverses`: the flat list that is read, with its brackets in pairs;
* `Flow.walks_of_run`: running the flat list of actions of a flow reads the flow, and every state on
  the way is ready for what is read in it.
-/

namespace TxLifecycle

variable {action : Action}

/-- A plain action opens and closes nothing. -/
theorem Action.isInner_of_isPlain (h : action.isPlain = true) : action.isInner = true := by
  cases action <;> first | rfl | cases h

/-- A commit or rollback opens and closes nothing. -/
theorem Action.isInner_of_isFinalize (h : action.isFinalize = true) : action.isInner = true :=
  isInner_of_isPlain (isPlain_of_isFinalize h)

/-- A deferred call opens and closes nothing. -/
theorem Action.isInner_of_isDeferCall (h : action.isDeferCall = true) : action.isInner = true := by
  cases action <;> first | rfl | cases h

/-- The second construct is the first one with all its arms, and perhaps more. -/
structure Construct.Grows (c c' : Construct) : Prop where
  owner : c'.owner = c.owner
  /-- It has a fallback where the first one has. -/
  hasFallback : c'.hasFallback = c.hasFallback
  arms : ∀ arm ∈ c.arms, arm ∈ c'.arms

namespace Construct.Grows

variable {c c' c'' : Construct}

theorem refl (c : Construct) : c.Grows c :=
  ⟨rfl, rfl, fun _ harm => harm⟩

theorem trans (h : c.Grows c') (h' : c'.Grows c'') : c.Grows c'' :=
  ⟨h'.owner.trans h.owner, h'.hasFallback.trans h.hasFallback,
    fun arm harm => h'.arms arm (h.arms arm harm)⟩

end Construct.Grows

namespace Walk

/-! ## States between which code is read -/

/-- Each of the constructs has an arm that is being read. -/
def Aligned (w : Walk) (ids : List ConstructId) : Prop :=
  ∀ id ∈ ids, ∃ c arm, w.scopes.construct? id = some c ∧ arm ∈ c.arms ∧ arm ∈ w.scopes.stack

/-- The open constructs that have an arm that is being read: where the next arm of the innermost
one begins, all but that one. -/
def branching (w : Walk) : Shape → List ConstructId
  | .code => w.constructs
  | .arms => w.constructs.tail

/-- What holds of a walk that is about to read a piece of code, or the next arm of the innermost
construct. -/
structure Ready (w : Walk) (shape : Shape) : Prop where
  wellFormed : w.WellFormed
  /-- Constructs are open because one of their arms is being read. -/
  aligned : w.Aligned (w.branching shape)
  /-- An arm is opened in the scope in which its construct stands. -/
  construct : shape = .arms → ∃ id rest c, w.constructs = id :: rest ∧
    w.scopes.construct? id = some c ∧ c.owner = w.scopes.current

/-- What reading code puts back as it was, and what it keeps of the constructs. -/
structure Balanced (w w' : Walk) : Prop where
  stack : w'.scopes.stack = w.scopes.stack
  opened : w'.constructs = w.constructs
  /-- The surroundings, less the statement that events point at. -/
  context : w'.context = { w.context with span := w'.context.span }
  /-- The surroundings of the bodies around. -/
  outer : w'.outer = w.outer
  /-- Constructs stay as they are, but they may get more arms. -/
  constructs : ∀ {id : ConstructId} {c : Construct}, w.scopes.construct? id = some c →
    ∃ c', w'.scopes.construct? id = some c' ∧ c.Grows c'

variable {limits : Limits} {w u v t w' : Walk} {shape shape' : Shape} {arm? : Option ConstructId}
  {kind : ScopeKind} {span : Span}

namespace Balanced

theorem refl (w : Walk) : w.Balanced w :=
  ⟨rfl, rfl, rfl, rfl, fun h => ⟨_, h, .refl _⟩⟩

/-- One piece of code after the other. -/
theorem trans (h : w.Balanced u) (h' : u.Balanced w') : w.Balanced w' where
  stack := h'.stack.trans h.stack
  opened := h'.opened.trans h.opened
  context := by rw [h'.context, h.context]
  outer := h'.outer.trans h.outer
  constructs := fun hc => by
    obtain ⟨c', hc', hgrows⟩ := h.constructs hc
    obtain ⟨c'', hc'', hgrows'⟩ := h'.constructs hc'
    exact ⟨c'', hc'', hgrows.trans hgrows'⟩

/-- The current scope is put back. -/
theorem current (h : w.Balanced w') : w'.scopes.current = w.scopes.current := by
  rw [ScopeTree.current, h.stack, ScopeTree.current]

/-- Code stays in the `defer` statement to which it belongs. -/
theorem deferScope (h : w.Balanced w') : w'.context.deferScope = w.context.deferScope := by
  rw [h.context]

theorem of_edits {action : Action} {e : Bool} (h : u.Edits action e w w') : w.Balanced w' where
  stack := h.stack
  opened := h.opened
  context := h.context
  outer := h.outer
  constructs := fun hc => ⟨_, (h.construct? _).trans hc, .refl _⟩

/-- A scope is opened, code is read in it, and the scope is closed again. -/
theorem enclosed {kind : ScopeKind} {arm? : Option ConstructId} {context context' : Context}
    {outer outer' : List Context} (hopens : w.Opens kind arm? context outer u)
    (hbody : u.Balanced v) (hcloses : v.Closes context' outer' w')
    (hcontext : context' = { w.context with span := context'.span }) (houter : outer' = w.outer) :
    w.Balanced w' where
  stack := by
    obtain ⟨id, hstack⟩ := hcloses.stack
    rw [hbody.stack, hopens.tree.stack] at hstack
    exact (List.cons.inj hstack).2.symm
  opened := by rw [hcloses.opened, hbody.opened, hopens.opened]
  context := by rw [hcloses.context_eq, hcontext]
  outer := by rw [hcloses.outer_eq, houter]
  constructs := fun {id c} hc => by
    have hopened : u.scopes.construct? id = some (if arm? = some id then
        { c with arms := c.arms ++ [w.scopes.scopes.length] } else c) := by
      rw [hopens.tree.construct?, hc, Option.map_some]
    obtain ⟨c', hc', hgrows⟩ := hbody.constructs hopened
    refine ⟨c', by rw [ScopeTree.construct?, hcloses.constructs]; exact hc', .trans ?_ hgrows⟩
    split
    · exact ⟨rfl, rfl, fun arm harm => List.mem_append_left _ harm⟩
    · exact .refl c

end Balanced

namespace Ready

/-- Reading code leaves a state that is ready for the same. -/
theorem of_balanced (h : w.Ready shape) (hbalanced : w.Balanced w') (hwf : w'.WellFormed) :
    w'.Ready shape where
  wellFormed := hwf
  aligned := by
    intro id hid
    have hbranching : w'.branching shape = w.branching shape := by
      cases shape <;> simp [branching, hbalanced.opened]
    rw [hbranching] at hid
    obtain ⟨c, arm, hc, harm, hopen⟩ := h.aligned id hid
    obtain ⟨c', hc', hgrows⟩ := hbalanced.constructs hc
    exact ⟨c', arm, hc', hgrows.arms arm harm, hbalanced.stack ▸ hopen⟩
  construct := fun hshape => by
    obtain ⟨id, rest, c, hopened, hc, howner⟩ := h.construct hshape
    obtain ⟨c', hc', hgrows⟩ := hbalanced.constructs hc
    exact ⟨id, rest, c', hbalanced.opened.trans hopened, hc', by
      rw [hgrows.owner, howner, hbalanced.current]⟩

/-- The state in which the walk of a function begins. -/
theorem init : ({} : Walk).Ready .code where
  wellFormed := .init
  aligned := fun id hid => by cases hid
  construct := fun h => by cases h

variable {context : Context} {outer : List Context} {kind : ScopeKind}

/-- A scope opened as no arm is ready for code. -/
theorem opens (h : w.Ready .code) (hopens : w.Opens kind none context outer u)
    (hwf : u.WellFormed) : u.Ready .code where
  wellFormed := hwf
  aligned := fun id hid => by
    rw [branching, hopens.opened] at hid
    obtain ⟨c, arm, hc, harm, hopen⟩ := h.aligned id hid
    refine ⟨c, arm, ?_, harm, ?_⟩
    · rw [hopens.tree.construct?, hc]
      rfl
    · rw [hopens.tree.stack]
      exact List.mem_cons_of_mem _ hopen
  construct := fun h => by cases h

theorem opensArm (h : w.Ready .arms)
    (hopens : w.Opens kind (some (w.constructs.headD 0)) context outer u) (hwf : u.WellFormed) :
    u.Ready .code where
  wellFormed := hwf
  aligned := fun id hid => by
    obtain ⟨k, rest, c, hopened, hc, -⟩ := h.construct rfl
    have haligned := h.aligned
    rw [branching, hopened] at haligned
    rw [branching, hopens.opened, hopened] at hid
    rw [hopened, List.headD_cons] at hopens
    rw [hopens.tree.construct?, hopens.tree.stack]
    rcases List.mem_cons.mp hid with rfl | hid
    · -- the arm of the innermost construct is the scope that has been opened
      refine ⟨_, w.scopes.scopes.length, by rw [hc]; rfl, ?_, by simp⟩
      simp
    · obtain ⟨c', arm, hc', harm, hopen⟩ := haligned id hid
      refine ⟨_, arm, by rw [hc']; rfl, ?_, List.mem_cons_of_mem _ hopen⟩
      split
      · exact List.mem_append_left _ harm
      · exact harm
  construct := fun h => by cases h

end Ready

/-- An action runs in a state that is ready for one thing and leaves one that is ready for
another. -/
structure Steps (limits : Limits) (w : Walk) (shape : Shape) (action : Action) (shape' : Shape)
    (w' : Walk) : Prop where
  ready : w.Ready shape
  exec : w.exec limits action = .ok w'
  ready' : w'.Ready shape'

namespace Steps

variable {action : Action} {kind : ScopeKind}

/-- An action that opens and closes nothing. -/
theorem edits (h : w.Steps limits shape action shape' w') (hinner : action.isInner = true) :
    w.Edits action (w.exits action) w w' :=
  exec_edits h.ready.wellFormed.indexed hinner h.exec

/-- An action that opens and closes nothing leaves a state that is ready for the same. -/
theorem of_inner (hready : w.Ready shape) (hinner : action.isInner = true)
    (hexec : w.exec limits action = .ok w') : w.Steps limits shape action shape w' := by
  have hedits := exec_edits hready.wellFormed.indexed hinner hexec
  exact ⟨hready, hexec, hready.of_balanced (.of_edits hedits) (hready.wellFormed.edits hedits)⟩

theorem of_enter (hready : w.Ready .code) (hexec : w.exec limits (.enter kind) = .ok u) :
    w.Steps limits .code (.enter kind) .code u :=
  ⟨hready, hexec, hready.opens (exec_enter hexec) (hready.wellFormed.exec hexec (by simp))⟩

theorem of_openBody {kind : BodyKind} (hready : w.Ready .code)
    (hexec : w.exec limits (.openBody kind) = .ok u) :
    w.Steps limits .code (.openBody kind) .code u :=
  ⟨hready, hexec, hready.opens (exec_openBody hexec) (hready.wellFormed.exec hexec (by simp))⟩

theorem of_enterArm (hready : w.Ready .arms) (hexec : w.exec limits (.enterArm kind) = .ok u) :
    w.Steps limits .arms (.enterArm kind) .code u := by
  refine ⟨hready, hexec, hready.opensArm (exec_enterArm hexec)
    (hready.wellFormed.exec hexec fun _ _ c hc => ?_)⟩
  obtain ⟨id, rest, c', hopened, hc', howner⟩ := hready.construct rfl
  rw [hopened, List.headD_cons, hc', Option.some.injEq] at hc
  exact hc ▸ howner

/-- The construct that gets an arm is one of those that are being read. -/
theorem head_mem (h : w.Steps limits .arms action shape u) :
    ∀ id ∈ some (w.constructs.headD 0), id ∈ w.constructs := by
  intro id hid
  obtain ⟨k, rest, -, hopened, -⟩ := h.ready.construct rfl
  rw [hopened, List.headD_cons] at hid
  rw [hopened, ← Option.some.inj hid]
  exact List.mem_cons_self

/-- A construct opens: its arms follow. -/
theorem of_openConstruct {kind : ConstructKind} {hasFallback : Bool} {span : Span}
    (hready : w.Ready .code)
    (hexec : w.exec limits (.openConstruct kind hasFallback span) = .ok u) :
    w.Steps limits .code (.openConstruct kind hasFallback span) .arms u := by
  have hwf := hready.wellFormed.exec hexec (by simp)
  cases hexec
  refine ⟨hready, rfl, hwf, fun id hid => ?_,
    fun _ => ⟨_, _, _, rfl, List.getElem?_concat_length, rfl⟩⟩
  obtain ⟨c, arm, hc, harm, hopen⟩ := hready.aligned id hid
  exact ⟨c, arm, ScopeTree.construct?_openConstruct hc kind hasFallback span, harm, hopen⟩

theorem of_closeConstruct (hready : w.Ready .arms) (hexec : w.exec limits .closeConstruct = .ok u) :
    w.Steps limits .arms .closeConstruct .code u := by
  have hwf := hready.wellFormed.exec hexec (by simp)
  cases hexec
  exact ⟨hready, rfl, hwf, hready.aligned, fun h => by cases h⟩

theorem of_guard (hready : w.Ready shape)
    (haction : (∃ names, action = .openGuard names) ∨ action = .closeGuard)
    (hexec : w.exec limits action = .ok u) : w.Steps limits shape action shape u := by
  rcases haction with ⟨names, rfl⟩ | rfl <;>
  · have hwf := hready.wellFormed.exec hexec (by simp)
    cases hexec
    exact ⟨hready, rfl, hwf, hready.aligned, hready.construct⟩

end Steps

/-! ## Brackets around code -/

/-- A scope is left in which code has been read since it was opened. -/
theorem Balanced.of_leave (hopens : w.Opens kind arm? w.context w.outer u) (hbody : u.Balanced v)
    (hexec : v.exec limits .leave = .ok w') : w.Balanced w' := by
  have hcloses := closes_of_leave hexec
  refine .enclosed hopens hbody hcloses ?_ ?_
  · rw [hbody.context, hopens.context_eq]
  · rw [hbody.outer, hopens.outer_eq]

/-- A body is left in which code has been read since it was opened. -/
theorem Balanced.of_closeBody {kind : BodyKind} (hopen : w.exec limits (.openBody kind) = .ok u)
    (hbody : u.Balanced v) (hexec : v.exec limits .closeBody = .ok w') : w.Balanced w' := by
  have hopens := exec_openBody hopen
  have hcloses := exec_closeBody hexec
  rw [hbody.outer, hopens.outer_eq] at hcloses
  exact .enclosed hopens hbody hcloses rfl rfl

/-- Leaving a scope gives a state that is ready for what the state before the scope was ready
for. -/
theorem Steps.of_leave (hready : w.Ready shape) (hopens : w.Opens kind arm? w.context w.outer u)
    (hbody : u.Balanced v) (hv : v.Ready .code) (hexec : v.exec limits .leave = .ok w') :
    v.Steps limits .code .leave shape w' :=
  ⟨hv, hexec,
    hready.of_balanced (.of_leave hopens hbody hexec) (hv.wellFormed.exec hexec (by simp))⟩

theorem Steps.of_closeBody {kind : BodyKind} (hready : w.Ready .code)
    (hopen : w.exec limits (.openBody kind) = .ok u) (hbody : u.Balanced v) (hv : v.Ready .code)
    (hexec : v.exec limits .closeBody = .ok w') : v.Steps limits .code .closeBody .code w' :=
  ⟨hv, hexec, hready.of_balanced (.of_closeBody hopen hbody hexec)
    (hv.wellFormed.exec hexec (by simp))⟩

/-- Opening a construct, reading its arms and closing it. -/
theorem Balanced.of_construct {kind : ConstructKind} {hasFallback : Bool}
    (hopen : w.exec limits (.openConstruct kind hasFallback span) = .ok u) (harms : u.Balanced v)
    (hclose : v.exec limits .closeConstruct = .ok w') : w.Balanced w' := by
  cases hopen
  cases hclose
  exact ⟨harms.stack, congrArg List.tail harms.opened, harms.context, harms.outer,
    fun hc => harms.constructs (ScopeTree.construct?_openConstruct hc kind hasFallback span)⟩

/-- Reading the branches of an `if`: its guard is open for the first arm only. -/
theorem Balanced.of_branches {names : List String} {hasElse : Bool} {w₃ w₄ w₅ w₆ w₇ : Walk}
    (hguard : w.exec limits (.openGuard names) = .ok w₃)
    (hopen : w₃.exec limits (.openConstruct .conditional hasElse span) = .ok w₄)
    (hfirst : w₄.Balanced w₅) (hunguard : w₅.exec limits .closeGuard = .ok w₆)
    (hrest : w₆.Balanced w₇) (hclose : w₇.exec limits .closeConstruct = .ok w') :
    w.Balanced w' := by
  cases hguard
  cases hopen
  cases hunguard
  cases hclose
  refine ⟨hrest.stack.trans hfirst.stack, ?_, ?_, hrest.outer.trans hfirst.outer, ?_⟩
  · exact congrArg List.tail (hrest.opened.trans hfirst.opened)
  · -- the guard that was opened is the one that is closed
    have hrest := hrest.context
    have hfirst := hfirst.context
    simp only [modifyContext] at hrest
    rw [hrest, hfirst]
    rfl
  · intro id c hc
    obtain ⟨c₅, hc₅, hgrows⟩ := hfirst.constructs
      (ScopeTree.construct?_openConstruct hc .conditional hasElse span)
    obtain ⟨c₇, hc₇, hgrows'⟩ := hrest.constructs hc₅
    exact ⟨c₇, hc₇, hgrows.trans hgrows'⟩

/-! ## Runs that close what they open -/

/-- A run that closes all that it opens, taken apart at its brackets. It does not tell which
statements the actions come from. -/
inductive Traverses (limits : Limits) : Shape → Walk → List Action → Walk → Prop where
  | nil {shape : Shape} {w : Walk} : w.Ready shape → Traverses limits shape w [] w
  | step {w w' : Walk} {action : Action} : action.isInner = true →
      w.Steps limits .code action .code w' → Traverses limits .code w [action] w'
  | append {shape : Shape} {w u w' : Walk} {first second : List Action} :
      Traverses limits shape w first u → Traverses limits shape u second w' →
      Traverses limits shape w (first ++ second) w'
  /-- A block or the body of a loop. -/
  | scope {w u v w' : Walk} {kind : ScopeKind} {body : List Action} : kind.isClosure = false →
      w.Steps limits .code (.enter kind) .code u → Traverses limits .code u body v →
      v.Steps limits .code .leave .code w' →
      Traverses limits .code w (.enter kind :: body ++ [.leave]) w'
  /-- The body of a function literal or of a launched call. -/
  | body {w u v w' : Walk} {kind : BodyKind} {body : List Action} :
      w.Steps limits .code (.openBody kind) .code u → Traverses limits .code u body v →
      v.Steps limits .code .closeBody .code w' →
      Traverses limits .code w (.openBody kind :: body ++ [.closeBody]) w'
  /-- The branches of an `if`; its guard is open for the first one only. -/
  | branches {w w₃ w₄ w₅ w₆ w₇ w' : Walk} {names : List String} {hasElse : Bool} {span : Span}
      {first rest : List Action} : w.Steps limits .code (.openGuard names) .code w₃ →
      w₃.Steps limits .code (.openConstruct .conditional hasElse span) .arms w₄ →
      Traverses limits .arms w₄ first w₅ → w₅.Steps limits .arms .closeGuard .arms w₆ →
      Traverses limits .arms w₆ rest w₇ → w₇.Steps limits .arms .closeConstruct .code w' →
      Traverses limits .code w (.openGuard names :: .openConstruct .conditional hasElse span ::
        first ++ .closeGuard :: rest ++ [.closeConstruct]) w'
  | clauses {w u v w' : Walk} {kind : ConstructKind} {hasDefault : Bool} {span : Span}
      {arms : List Action} :
      w.Steps limits .code (.openConstruct kind hasDefault span) .arms u →
      Traverses limits .arms u arms v → v.Steps limits .arms .closeConstruct .code w' →
      Traverses limits .code w (.openConstruct kind hasDefault span :: arms ++ [.closeConstruct]) w'
  /-- One arm of a branching statement. -/
  | arm {w u v w' : Walk} {kind : ScopeKind} {body : List Action} : kind.isArm = true →
      w.Steps limits .arms (.enterArm kind) .code u → Traverses limits .code u body v →
      v.Steps limits .code .leave .arms w' →
      Traverses limits .arms w (.enterArm kind :: body ++ [.leave]) w'

namespace Traverses

variable {actions : List Action}

/-- Actions that open and close nothing. -/
theorem of_run (hinner : ∀ a ∈ actions, a.isInner = true) (hready : w.Ready .code)
    (h : w.run limits actions = .ok w') : w.Traverses limits .code actions w' := by
  induction actions generalizing w with
  | nil =>
    cases h
    exact .nil hready
  | cons action rest ih =>
    obtain ⟨u, hexec, h⟩ := run_cons_eq_ok.mp h
    have haction := hinner action List.mem_cons_self
    have hstep := Steps.of_inner hready haction hexec
    exact .append (.step haction hstep)
      (ih (fun a ha => hinner a (List.mem_cons_of_mem _ ha)) hstep.ready' h)

variable (h : w.Traverses limits shape actions w')
include h

/-- The run begins in a state that is ready for it. -/
theorem ready : w.Ready shape := by
  induction h with
  | nil h => exact h
  | append _ _ ih => exact ih
  | step _ h | scope _ h | body h | branches h | clauses h | arm _ h => exact h.ready

/-- The run ends in a state that is ready for more of the same. -/
theorem ready' : w'.Ready shape := by
  induction h with
  | nil h => exact h
  | append _ _ _ ih => exact ih
  | step _ h | scope _ _ _ h | body _ _ h | branches _ _ _ _ _ h | clauses _ _ h | arm _ _ _ h =>
    exact h.ready'

theorem balanced : w.Balanced w' := by
  induction h with
  | nil _ => exact .refl _
  | step haction h => exact .of_edits (h.edits haction)
  | append _ _ ih₁ ih₂ => exact ih₁.trans ih₂
  | scope _ hopen _ hclose ih => exact .of_leave (exec_enter hopen.exec) ih hclose.exec
  | body hopen _ hclose ih => exact .of_closeBody hopen.exec ih hclose.exec
  | branches hguard hconstruct _ hunguard _ hclose ihFirst ihRest =>
    exact .of_branches hguard.exec hconstruct.exec ihFirst hunguard.exec ihRest hclose.exec
  | clauses hopen _ hclose ih => exact .of_construct hopen.exec ih hclose.exec
  | arm _ hopen _ hclose ih => exact .of_leave (exec_enterArm hopen.exec) ih hclose.exec

theorem run : w.run limits actions = .ok w' := by
  induction h with
  | nil _ => rfl
  | step _ h => exact run_single h.exec
  | append _ _ ih₁ ih₂ => exact run_then ih₁ ih₂
  | scope _ hopen _ hclose ih | body hopen _ hclose ih | clauses hopen _ hclose ih
  | arm _ hopen _ hclose ih => exact run_bracket_eq_ok.mpr ⟨_, _, hopen.exec, ih, hclose.exec⟩
  | branches hguard hconstruct _ hunguard _ hclose ihFirst ihRest =>
    have hfirst := run_cons_eq_ok.mpr
      ⟨_, hguard.exec, run_cons_eq_ok.mpr ⟨_, hconstruct.exec, ihFirst⟩⟩
    have hrest := run_cons_eq_ok.mpr ⟨_, hunguard.exec, ihRest⟩
    exact run_then (run_then hfirst hrest) (run_single hclose.exec)

end Traverses

end Walk

/-! ## Reading a flow -/

namespace Flow

/-- Reading the flow in one state succeeds and gives the other one. -/
inductive Walks (limits : Limits) : {shape : Shape} → Walk → Flow shape → Walk → Prop where
  | skip {w : Walk} : w.Ready .code → Walks limits w .skip w
  | act {w w' : Walk} {action : Action} {plain : action.isPlain = true} :
      w.Steps limits .code action .code w' → Walks limits w (.act action plain) w'
  /-- One piece of code is read after the other. -/
  | seq {w u w' : Walk} {first second : Flow .code} :
      Walks limits w first u → Walks limits u second w' → Walks limits w (.seq first second) w'
  /-- A block is read in a scope of its own. -/
  | block {w u v w' : Walk} {body : Flow .code} :
      w.Steps limits .code (.enter .block) .code u → Walks limits u body v →
      v.Steps limits .code .leave .code w' → Walks limits w (.block body) w'
  /-- A loop is read once, its body in a scope of its own. -/
  | loop {w t u v w' : Walk} {head body : Flow .code} :
      Walks limits w head t → t.Steps limits .code (.enter .loopBody) .code u →
      Walks limits u body v → v.Steps limits .code .leave .code w' →
      Walks limits w (.loop head body) w'
  | conditional {w w₁ w₂ w₃ w₄ u v w₅ w₆ w₇ w' : Walk} {take : Bool} {head : Flow .code}
      {names : List String} {hasElse : Bool} {span : Span} {consequence : Flow .code}
      {alternative : Flow .arms} :
      w.Steps limits .code (.holdGuards take) .code w₁ → Walks limits w₁ head w₂ →
      w₂.Steps limits .code (.openGuard names) .code w₃ →
      w₃.Steps limits .code (.openConstruct .conditional hasElse span) .arms w₄ →
      w₄.Steps limits .arms (.enterArm .ifBranch) .code u → Walks limits u consequence v →
      v.Steps limits .code .leave .arms w₅ → w₅.Steps limits .arms .closeGuard .arms w₆ →
      Walks limits w₆ alternative w₇ → w₇.Steps limits .arms .closeConstruct .code w' →
      Walks limits w (.conditional take head names hasElse span consequence alternative) w'
  | clauses {w w₁ w₂ w' : Walk} {kind : ConstructKind} {hasDefault : Bool} {span : Span}
      {arms : Flow .arms} :
      w.Steps limits .code (.openConstruct kind hasDefault span) .arms w₁ →
      Walks limits w₁ arms w₂ → w₂.Steps limits .arms .closeConstruct .code w' →
      Walks limits w (.clauses kind hasDefault span arms) w'
  | arguments {w u v w' : Walk} {args : Flow .code} :
      w.Steps limits .code .openArgs .code u → Walks limits u args v →
      v.Steps limits .code .closeArgs .code w' → Walks limits w (.arguments args) w'
  /-- A literal is read in a scope of its own. -/
  | literal {w u v w' : Walk} {launch : Option Span} {body : Flow .code} :
      w.Steps limits .code (.openBody (literalKind launch)) .code u → Walks limits u body v →
      v.Steps limits .code .closeBody .code w' → Walks limits w (.literal launch body) w'
  | launched {w u t v w' : Walk} {span : Span} {call : List Action}
      {finalizes : ∀ action ∈ call, action.isFinalize = true} {func : Flow .code} :
      w.Steps limits .code (.openBody (.goroutine span)) .code u → u.run limits call = .ok t →
      Walks limits t func v → v.Steps limits .code .closeBody .code w' →
      Walks limits w (.launched span call finalizes func) w'
  /-- A `defer` statement is registered, with its calls, before what it evaluates. -/
  | deferral {w u v w' : Walk} {calls : List Action}
      {deferred : ∀ action ∈ calls, action.isDeferCall = true} {evaluated : Flow .code} :
      w.Steps limits .code .addDefer .code u → u.run limits calls = .ok v →
      Walks limits v evaluated w' → Walks limits w (.deferral calls deferred evaluated) w'
  /-- A deferred literal is read in a scope of its own. -/
  | deferredLiteral {w t u v x w' : Walk} {evaluated body : Flow .code} :
      w.Steps limits .code .addDefer .code t → Walks limits t evaluated u →
      u.Steps limits .code (.openBody .deferred) .code v → Walks limits v body x →
      x.Steps limits .code .closeBody .code w' →
      Walks limits w (.deferredLiteral evaluated body) w'
  | jump {w : Walk} : w.Ready .code → Walks limits w .jump w
  | noArm {w : Walk} : w.Ready .arms → Walks limits w .noArm w
  /-- An arm is read in a scope of its own, then those after it. -/
  | arm {w u v t w' : Walk} {kind : ScopeKind} {isArm : kind.isArm = true} {body : Flow .code}
      {rest : Flow .arms} :
      w.Steps limits .arms (.enterArm kind) .code u → Walks limits u body v →
      v.Steps limits .code .leave .arms t → Walks limits t rest w' →
      Walks limits w (.arm kind isArm body rest) w'

namespace Walks

variable {limits : Limits} {shape : Shape} {flow : Flow shape} {w w' : Walk}
  (h : flow.Walks limits w w')
include h

open Walk in
/-- Reading a flow runs its flat list of actions and closes all that it opens. -/
theorem traverses : w.Traverses limits shape flow.actions w' := by
  induction h with
  | skip h | jump h | noArm h => exact .nil h
  | @act _ _ _ plain h => exact .step (Action.isInner_of_isPlain plain) h
  | seq _ _ ih₁ ih₂ => exact ih₁.append ih₂
  | block hopen _ hclose ih => exact .scope rfl hopen ih hclose
  | loop _ hopen _ hclose ihHead ihBody =>
    rw [actions, List.append_assoc]
    exact ihHead.append (.scope rfl hopen ihBody hclose)
  | conditional hhold _ hguard hconstruct harm _ hleave hunguard _ hclose ihHead ihThen ihElse =>
    have hbranches := Traverses.branches hguard hconstruct (.arm rfl harm ihThen hleave) hunguard
      ihElse hclose
    simpa [actions] using (Traverses.step rfl hhold).append (ihHead.append hbranches)
  | clauses hopen _ hclose ih => exact .clauses hopen ih hclose
  | arguments hopen _ hclose ih =>
    exact (Traverses.step rfl hopen).append (ih.append (.step rfl hclose))
  | literal hopen _ hclose ih => exact .body hopen ih hclose
  | @launched _ _ _ _ _ _ _ finalizes _ hopen hcall _ hclose ih =>
    have hcalled := Traverses.of_run
      (fun a ha => Action.isInner_of_isFinalize (finalizes a ha)) hopen.ready' hcall
    exact .body hopen (hcalled.append ih) hclose
  | @deferral _ _ _ _ _ deferred _ hdefer hcalls _ ih =>
    have hcalled := Traverses.of_run
      (fun a ha => Action.isInner_of_isDeferCall (deferred a ha)) hdefer.ready' hcalls
    exact (Traverses.step rfl hdefer).append (hcalled.append ih)
  | deferredLiteral hdefer _ hopen _ hclose ih₁ ih₂ =>
    rw [actions, List.append_assoc]
    exact (Traverses.step rfl hdefer).append (ih₁.append (.body hopen ih₂ hclose))
  | @arm _ _ _ _ _ _ isArm _ _ hopen _ hclose _ ihBody ihRest =>
    rw [actions, List.append_cons]
    exact .append (.arm isArm hopen ihBody hclose) ihRest

/-- Reading begins in a state that is ready for it. -/
theorem ready : w.Ready shape := h.traverses.ready

/-- Reading ends in a state that is ready for more of the same. -/
theorem ready' : w'.Ready shape := h.traverses.ready'

theorem balanced : w.Balanced w' := h.traverses.balanced

theorem run : w.run limits flow.actions = .ok w' := h.traverses.run

end Walks

open Walk in
/-- Running the flat list of actions of a flow reads the flow. -/
theorem walks_of_run {limits : Limits} {shape : Shape} (flow : Flow shape) {w w' : Walk}
    (hready : w.Ready shape) (h : w.run limits flow.actions = .ok w') :
    flow.Walks limits w w' := by
  -- each case takes the run apart at the brackets, then collects the states from left to right
  induction flow generalizing w w' with
  | skip =>
    cases h
    exact .skip hready
  | act action plain =>
    obtain ⟨u, hexec, h⟩ := run_cons_eq_ok.mp h
    cases h
    exact .act (.of_inner hready (Action.isInner_of_isPlain plain) hexec)
  | seq first second ihFirst ihSecond =>
    obtain ⟨u, hfirst, hsecond⟩ := run_append_eq_ok.mp h
    have hfirst := ihFirst hready hfirst
    exact .seq hfirst (ihSecond hfirst.ready' hsecond)
  | block body ih =>
    obtain ⟨u, v, hopen, hbody, hclose⟩ := run_bracket_eq_ok.mp h
    have hopen := Steps.of_enter hready hopen
    have hbody := ih hopen.ready' hbody
    exact .block hopen hbody
      (.of_leave hready (exec_enter hopen.exec) hbody.balanced hbody.ready' hclose)
  | loop head body ihHead ihBody =>
    rw [actions, List.append_assoc] at h
    obtain ⟨t, hhead, h⟩ := run_append_eq_ok.mp h
    obtain ⟨u, v, hopen, hbody, hclose⟩ := run_bracket_eq_ok.mp h
    have hhead := ihHead hready hhead
    have hopen := Steps.of_enter hhead.ready' hopen
    have hbody := ihBody hopen.ready' hbody
    exact .loop hhead hopen hbody
      (.of_leave hhead.ready' (exec_enter hopen.exec) hbody.balanced hbody.ready' hclose)
  | conditional take head names hasElse span consequence alternative ihHead ihThen ihElse =>
    simp only [actions, List.append_assoc, List.cons_append] at h
    obtain ⟨w₁, hhold, h⟩ := run_cons_eq_ok.mp h
    obtain ⟨w₂, hhead, h⟩ := run_append_eq_ok.mp h
    obtain ⟨w₃, hguard, h⟩ := run_cons_eq_ok.mp h
    obtain ⟨w₄, hconstruct, h⟩ := run_cons_eq_ok.mp h
    obtain ⟨u, harm, h⟩ := run_cons_eq_ok.mp h
    obtain ⟨v, hthen, h⟩ := run_append_eq_ok.mp h
    obtain ⟨w₅, hleave, h⟩ := run_cons_eq_ok.mp h
    obtain ⟨w₆, hunguard, h⟩ := run_cons_eq_ok.mp h
    obtain ⟨w₇, helse, h⟩ := run_append_eq_ok.mp h
    obtain ⟨w', hclose, h⟩ := run_cons_eq_ok.mp h
    cases h
    have hhold := Steps.of_inner hready rfl hhold
    have hhead := ihHead hhold.ready' hhead
    have hguard := Steps.of_guard hhead.ready' (Or.inl ⟨names, rfl⟩) hguard
    have hconstruct := Steps.of_openConstruct hguard.ready' hconstruct
    have harm := Steps.of_enterArm hconstruct.ready' harm
    have hthen := ihThen harm.ready' hthen
    have hleave := Steps.of_leave hconstruct.ready' (exec_enterArm harm.exec) hthen.balanced
      hthen.ready' hleave
    have hunguard := Steps.of_guard hleave.ready' (Or.inr rfl) hunguard
    have helse := ihElse hunguard.ready' helse
    exact .conditional hhold hhead hguard hconstruct harm hthen hleave hunguard helse
      (.of_closeConstruct helse.ready' hclose)
  | clauses kind hasDefault span arms ih =>
    obtain ⟨w₁, w₂, hopen, harms, hclose⟩ := run_bracket_eq_ok.mp h
    have hopen := Steps.of_openConstruct hready hopen
    have harms := ih hopen.ready' harms
    exact .clauses hopen harms (.of_closeConstruct harms.ready' hclose)
  | arguments args ih =>
    obtain ⟨u, v, hopen, hargs, hclose⟩ := run_bracket_eq_ok.mp h
    have hopen := Steps.of_inner hready rfl hopen
    have hargs := ih hopen.ready' hargs
    exact .arguments hopen hargs (.of_inner hargs.ready' rfl hclose)
  | literal launch body ih =>
    obtain ⟨u, v, hopen, hbody, hclose⟩ := run_bracket_eq_ok.mp h
    have hopen := Steps.of_openBody hready hopen
    have hbody := ih hopen.ready' hbody
    exact .literal hopen hbody
      (.of_closeBody hready hopen.exec hbody.balanced hbody.ready' hclose)
  | launched span call finalizes func ih =>
    simp only [actions, List.append_assoc, List.cons_append] at h
    obtain ⟨u, hopen, h⟩ := run_cons_eq_ok.mp h
    obtain ⟨t, hcall, h⟩ := run_append_eq_ok.mp h
    obtain ⟨v, hfunc, h⟩ := run_append_eq_ok.mp h
    obtain ⟨w', hclose, h⟩ := run_cons_eq_ok.mp h
    cases h
    have hopen := Steps.of_openBody hready hopen
    have hcalled := Traverses.of_run
      (fun a ha => Action.isInner_of_isFinalize (finalizes a ha)) hopen.ready' hcall
    have hfunc := ih hcalled.ready' hfunc
    exact .launched hopen hcall hfunc (.of_closeBody hready hopen.exec
      (hcalled.balanced.trans hfunc.balanced) hfunc.ready' hclose)
  | deferral calls deferred evaluated ih =>
    obtain ⟨u, hdefer, h⟩ := run_cons_eq_ok.mp h
    obtain ⟨v, hcalls, h⟩ := run_append_eq_ok.mp h
    have hdefer := Steps.of_inner hready rfl hdefer
    have hcalled := Traverses.of_run
      (fun a ha => Action.isInner_of_isDeferCall (deferred a ha)) hdefer.ready' hcalls
    exact .deferral hdefer hcalls (ih hcalled.ready' h)
  | deferredLiteral evaluated body ihEvaluated ihBody =>
    rw [actions, List.append_assoc] at h
    obtain ⟨t, hdefer, h⟩ := run_cons_eq_ok.mp h
    obtain ⟨u, hevaluated, h⟩ := run_append_eq_ok.mp h
    obtain ⟨v, x, hopen, hbody, hclose⟩ := run_bracket_eq_ok.mp h
    have hdefer := Steps.of_inner hready rfl hdefer
    have hevaluated := ihEvaluated hdefer.ready' hevaluated
    have hopen := Steps.of_openBody hevaluated.ready' hopen
    have hbody := ihBody hopen.ready' hbody
    exact .deferredLiteral hdefer hevaluated hopen hbody
      (.of_closeBody hevaluated.ready' hopen.exec hbody.balanced hbody.ready' hclose)
  | jump =>
    cases h
    exact .jump hready
  | noArm =>
    cases h
    exact .noArm hready
  | arm kind isArm body rest ihBody ihRest =>
    obtain ⟨u, hopen, h⟩ := run_cons_eq_ok.mp h
    obtain ⟨v, hbody, h⟩ := run_append_eq_ok.mp h
    obtain ⟨t, hclose, h⟩ := run_cons_eq_ok.mp h
    have hopen := Steps.of_enterArm hready hopen
    have hbody := ihBody hopen.ready' hbody
    have hclose := Steps.of_leave hready (exec_enterArm hopen.exec) hbody.balanced
      hbody.ready' hclose
    exact .arm hopen hbody hclose (ihRest hclose.ready' h)

end Flow

end TxLifecycle
