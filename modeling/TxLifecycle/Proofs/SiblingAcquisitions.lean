import TxLifecycle.Proofs.SilentMerges
import TxLifecycle.Proofs.Unaltered

/-!
# Acquisitions on sibling branches

Each branch of a branching statement starts a transaction in the same variable of a scope around the
statement. The acquisition on the second branch is merged with that on the first one, and the handle
then counts as acquired in the scope of the statement. That scope is open while the other branches
are read, so each of them is taken for the loss of the handle.

* `Stmt.Splits`: a statement of that kind, with the number of its branches;
* `Walk.Met`: what is known of the variable after so many branches;
* `Walk.Amid.arm`: what reading one more branch does;
* `FunctionUnit.siblings_merge`: one binding is left, acquired in the scope of the statement, and
  all branches but two are noted as losses.
-/

namespace TxLifecycle

/-- The action opens or closes a scope. -/
def Action.isScoping : Action → Bool
  | .enter _ | .enterArm _ | .leave | .openBody _ | .closeBody => true
  | _ => false

namespace Walk

variable {limits : Limits} {t w u v w' : Walk} {action : Action} {actions : List Action}
  {x : String} {errVar : Option String} {span : Span} {home place owner : ScopeId} {count : Nat}
  {b : Binding} {shape shape' : Shape}

/-! ## An assignment that acquires -/

theorem declareError_assign (w : Walk) (errVar : Option String) :
    w.declareError errVar false = .ok w := by
  cases errVar <;> rfl

theorem scopes_of_assign (hexec : w.exec limits (.acquire x errVar span false) = .ok u) :
    u.scopes = w.scopes := by
  obtain ⟨v, hdeclare, hscopes⟩ := scopes_of_acquire hexec
  rw [declareError_assign, Except.ok.injEq] at hdeclare
  rw [hscopes, hdeclare]

/-- The handle waits for the check of an error variable. -/
theorem Lone.awaitCheck (h : Lone v.bindings x home place count b) (errVar : Option String) :
    ∃ b', Lone (v.awaitCheck b.id errVar).bindings x home place count b' := by
  rcases bindings_awaitCheck v b.id errVar with heq | ⟨name, heq⟩ <;> rw [heq]
  · exact ⟨b, h⟩
  · exact ⟨_, h.modify rfl rfl rfl rfl
      ⟨h.untouched.unfinalized, h.untouched.kept, h.untouched.unstored⟩ h.acquiredIn_eq h.lost⟩

/-- The first handle of a variable is acquired in the current scope. -/
theorem exists_lone_of_unbound (hindexed : w.Indexed) (hunbound : ∀ b ∈ w.bindings, b.name ≠ x)
    (hdeclared : w.scopes.declaringScope x = some home)
    (hexec : w.exec limits (.acquire x errVar span false) = .ok u) :
    ∃ b, Lone u.bindings x home w.scopes.current 0 b := by
  have hresolve := resolve_eq_none_of_unbound hindexed hunbound
  obtain ⟨n, v, hacquisition, rfl⟩ := exists_acquisition_of_acquire hexec
  simp only [acquisition, declareError_assign, hresolve, Option.bind_none, Walk.bind, hdeclared,
    Option.getD_some, Bool.false_eq_true, if_false, addBinding, Except.ok.injEq,
    Prod.mk.injEq] at hacquisition
  obtain ⟨rfl, rfl⟩ := hacquisition
  have hnew : Lone (w.bindings ++ [Binding.new w.bindings.length x home w.scopes.current span]) x
      home w.scopes.current 0 (Binding.new w.bindings.length x home w.scopes.current span) := by
    exact ⟨List.getElem?_concat_length, eq_length_of_first hunbound, rfl, rfl, rfl, rfl, .new ..,
      rfl⟩
  exact Lone.awaitCheck (v := { w with bindings := _ }) hnew errVar

/-- A later handle is noted as the loss of the first one if the scope in which that was acquired is
open, and merged with it otherwise. -/
theorem Acquires.lone {n : BindingId} {table : List Binding} (h : w.Acquires x span false n table)
    (hwf : w.WellFormed) (hlive : w.Live) (hmeets : w.Meets x b)
    (hlone : Lone w.bindings x home place count b) :
    ∃ b', n = b'.id ∧ ((place ∈ w.scopes.stack ∧ Lone table x home place (count + 1) b') ∨
      (place ∉ w.scopes.stack ∧
        Lone table x home (w.scopes.commonAncestor place w.scopes.current) count b')) := by
  have huntouched := hlone.untouched
  have hopen := hlive.not_finished hwf huntouched
  cases h with
  | fresh _ hnone => exact absurd (hnone b hmeets).1 Bool.false_ne_true
  | shadow _ hdeclares => exact absurd hdeclares Bool.false_ne_true
  | replace hold _ hfinished =>
    -- the first handle is not finished here
    rw [hold.unique hmeets, hopen] at hfinished
    cases hfinished
  | @merge old merged hold _ _ hleft hmerged =>
    obtain rfl := hold.unique hmeets
    rw [hlone.acquiredIn_eq] at hleft hmerged
    refine ⟨{ old with acquiredIn := merged }, rfl, Or.inr ⟨?_, ?_⟩⟩
    · simpa [ScopeTree.isOnStack] using hleft
    · exact hlone.modify rfl rfl rfl rfl
        ⟨huntouched.unfinalized, huntouched.kept, huntouched.unstored⟩ hmerged hlone.lost
  | @reassign old event hold _ _ honstack hkind =>
    obtain rfl := hold.unique hmeets
    rw [hlone.acquiredIn_eq] at honstack
    refine ⟨old.record event, rfl, Or.inl ⟨List.contains_iff_mem.mp honstack, ?_⟩⟩
    refine hlone.modify rfl rfl rfl rfl ⟨fun other hother => ?_, huntouched.kept,
      huntouched.unstored⟩ hlone.acquiredIn_eq ?_
    · rcases List.mem_append.mp hother with hother | hother
      · exact huntouched.unfinalized other hother
      · rw [List.mem_singleton.mp hother, hkind]
        exact ⟨rfl, rfl⟩
    · rw [Binding.record, List.countP_append, hlone.lost]
      simp [hkind]

theorem exists_lone_of_assign (hwf : w.WellFormed) (hlive : w.Live)
    (hdeclared : w.scopes.declaringScope x = some home) (h : Lone w.bindings x home place count b)
    (hexec : w.exec limits (.acquire x errVar span false) = .ok u) :
    (place ∈ w.scopes.stack ∧ ∃ b', Lone u.bindings x home place (count + 1) b') ∨
      (place ∉ w.scopes.stack ∧
        ∃ b', Lone u.bindings x home (w.scopes.commonAncestor place w.scopes.current) count
          b') := by
  obtain ⟨n, v, hacquisition, rfl⟩ := exists_acquisition_of_acquire hexec
  obtain ⟨b', rfl, hcases⟩ :=
    (acquires_of_acquisition hwf hacquisition).lone hwf hlive (h.meets hdeclared) h
  rcases hcases with ⟨hmem, hlone⟩ | ⟨hmem, hlone⟩
  · exact Or.inl ⟨hmem, hlone.awaitCheck errVar⟩
  · exact Or.inr ⟨hmem, hlone.awaitCheck errVar⟩

/-! ## The variable after some branches -/

/-- What is known of the variable after so many branches of a statement in the scope `owner`. -/
inductive Met (w : Walk) (x : String) (home owner : ScopeId) : Nat → Prop where
  | none : (∀ b ∈ w.bindings, b.name ≠ x) → Met w x home owner 0
  /-- After one its handle is from a branch that has been left. -/
  | first {branch : ScopeId} {b : Binding} : Lone w.bindings x home branch 0 b → w.Left branch →
      w.scopes.parent? branch = some owner → Met w x home owner 1
  /-- After two the handle is acquired in the scope of the statement, and lost with each further
  branch. -/
  | merged {count : Nat} {b : Binding} : Lone w.bindings x home owner count b →
      Met w x home owner (count + 2)

/-- Code that does not alter the variable keeps that. -/
theorem Met.run (h : w.Met x home owner count) (hsound : w.Sound limits actions)
    (horderly : w.scopes.Orderly w.bindings) (hrun : w.run limits actions = .ok w')
    (hquiet : Quiet x actions) : w'.Met x home owner count := by
  cases h with
  | none hunbound =>
    exact .none (run_unbound hsound hrun
      (fun a ha => Action.acquires_of_alters (hquiet a ha)) hunbound)
  | first hlone hleft hparent =>
    obtain ⟨b', hlone'⟩ := run_lone hsound horderly hrun hquiet hlone
    refine .first hlone' (run_left hsound hrun hleft) ?_
    rw [(hsound.grows hrun).parent? hleft.lt, hparent]
  | merged hlone =>
    obtain ⟨b', hlone'⟩ := run_lone hsound horderly hrun hquiet hlone
    exact .merged hlone'

/-- The nearest scope around a branch that has been left and the current scope. -/
theorem commonAncestor_of_left {branch : ScopeId} (hwf : w.WellFormed)
    (hleft : branch ∉ w.scopes.stack) (hparent : w.scopes.parent? branch = some owner)
    (hopen : owner ∈ w.scopes.stack) :
    w.scopes.commonAncestor branch w.scopes.current = owner := by
  rw [hwf.tree.stack_eq] at hleft hopen
  have hancestors := hwf.tree.ancestors_of_parent hparent
  have howner : owner ∈ w.scopes.ancestors branch := by
    rw [hancestors]
    exact List.mem_cons_of_mem _ (ScopeTree.self_mem_ancestors _ owner)
  obtain ⟨hin, hin', hnearest⟩ := hwf.tree.commonAncestor_spec howner hopen
  rw [hancestors] at hin
  -- it is not the branch itself, so it is around the scope of the statement
  rcases List.mem_cons.mp hin with heq | hin
  · exact absurd (heq ▸ hin') hleft
  · exact Nat.le_antisymm (hwf.tree.le_of_mem_ancestors hin)
      (hwf.tree.le_of_mem_ancestors hnearest)

/-- An assignment on a second or later branch. -/
theorem Met.assign (h : w.Met x home owner (count + 1)) (hwf : w.WellFormed) (hlive : w.Live)
    (hdeclared : w.scopes.declaringScope x = some home) (hopen : owner ∈ w.scopes.stack)
    (hexec : w.exec limits (.acquire x errVar span false) = .ok u) :
    u.Met x home owner (count + 2) := by
  cases h with
  | first hlone hleft hparent =>
    -- the first branch is closed: the handles are merged, in the scope of the statement
    rcases exists_lone_of_assign hwf hlive hdeclared hlone hexec with
      ⟨hmem, -⟩ | ⟨-, b', hlone'⟩
    · exact absurd hmem hleft.closed
    · rw [commonAncestor_of_left hwf hleft.closed hparent hopen] at hlone'
      exact .merged hlone'
  | merged hlone =>
    -- that scope is open on every later branch: the handle is lost
    rcases exists_lone_of_assign hwf hlive hdeclared hlone hexec with
      ⟨-, b', hlone'⟩ | ⟨hmem, -⟩
    · exact .merged hlone'
    · exact absurd hopen hmem

/-! ## One more branch -/

/-- The variable where so many branches have been read of the statement that begins in `t`. -/
structure Amid (t w : Walk) (x : String) (home : ScopeId) (count : Nat) : Prop where
  orderly : w.scopes.Orderly w.bindings
  /-- The variable is declared where it was. -/
  declares : ∀ scope, w.scopes.declares scope x = t.scopes.declares scope x
  /-- The name means the variable of its scope. -/
  declared : w.scopes.declaringScope x = some home
  isOpen : t.scopes.current ∈ w.scopes.stack
  met : w.Met x home t.scopes.current count

namespace Steps

/-- A step is a run of one action. -/
theorem sound (h : w.Steps limits shape action shape' u) : w.Sound limits [action] := by
  refine ⟨h.ready.wellFormed, .of_ok h.exec, fun v hexec => ?_⟩
  obtain rfl : u = v := Except.ok.inj (h.exec.symm.trans hexec)
  exact h.ready'.wellFormed

/-- Most actions neither open nor close a scope. -/
theorem stack_eq (h : w.Steps limits shape action shape' u) (haction : action.isScoping = false) :
    u.scopes.stack = w.scopes.stack := by
  by_cases hinner : action.isInner = true
  · exact (h.edits hinner).stack
  · have hexec := h.exec
    cases action with
    | openConstruct _ _ _ | closeConstruct | openGuard _ | closeGuard =>
      cases hexec
      rfl
    | enter _ | enterArm _ | leave | openBody _ | closeBody => cases haction
    | _ => exact absurd rfl hinner

end Steps

namespace Amid

variable (h : t.Amid w x home count)
include h

/-- Code that does not alter the variable and closes all that it opens. -/
theorem run (hsound : w.Sound limits actions) (hrun : w.run limits actions = .ok w')
    (hquiet : Quiet x actions) (hstack : w'.scopes.stack = w.scopes.stack) :
    t.Amid w' x home count where
  orderly := (hsound.ages hrun h.orderly).1
  declares := fun scope => (run_declares hsound hrun hquiet scope).trans (h.declares scope)
  declared :=
    (declaringScope_of_stack (run_declares hsound hrun hquiet) hstack).trans h.declared
  isOpen := hstack ▸ h.isOpen
  met := h.met.run hsound h.orderly hrun hquiet

theorem walks {flow : Flow shape} (hwalks : flow.Walks limits w w')
    (hquiet : Quiet x flow.actions) :
    t.Amid w' x home count :=
  h.run (flow.sound hwalks.ready) hwalks.run hquiet hwalks.balanced.stack

theorem step (hstep : w.Steps limits shape action shape' u) (hquiet : action.alters x = false)
    (haction : action.isScoping = false) : t.Amid u x home count :=
  h.run hstep.sound (run_single hstep.exec) (by simpa using hquiet) (hstep.stack_eq haction)

theorem enterArm {kind : ScopeKind} (hopen : w.Steps limits .arms (.enterArm kind) .code u) :
    t.Amid u x home count where
  orderly := exec_orderly hopen.ready.wellFormed h.orderly hopen.exec
  declares := fun scope => (exec_declares hopen.exec rfl scope).trans (h.declares scope)
  declared := (declaringScope_of_opens (exec_declares hopen.exec rfl)
    (exec_enterArm hopen.exec).tree).trans h.declared
  isOpen := by
    rw [(exec_enterArm hopen.exec).tree.stack]
    exact List.mem_cons_of_mem _ h.isOpen
  met := h.met.run hopen.sound h.orderly (run_single hopen.exec) (by simp [Action.alters])

end Amid

end Walk

/-- The code acquires into the variable once, by an assignment outside of nested statements, and
does nothing else with it. -/
inductive Flow.StartsOnce (x : String) (flow : Flow .code) : Prop where
  /-- The assignment stands after `lead` and before `tail`. -/
  | intro {lead : Flow .code} {errVar : Option String} {span : Span} {tail : List Action} :
      flow.actions = lead.actions ++ .acquire x errVar span false :: tail →
      Quiet x lead.actions → Quiet x tail → Flow.StartsOnce x flow

namespace Walk

variable {limits : Limits} {t w u v w' : Walk} {x : String} {home : ScopeId} {count count' : Nat}
  {kind : ScopeKind} {body : Flow .code}

theorem Amid.leave (h : t.Amid w x home count)
    (hopen : w.Steps limits .arms (.enterArm kind) .code u) (hbody : body.Walks limits u v)
    (hleave : v.Steps limits .code .leave .arms w') (horderly : w'.scopes.Orderly w'.bindings)
    (hdeclares : ∀ scope, w'.scopes.declares scope x = t.scopes.declares scope x)
    (hmet : w'.Met x home t.scopes.current count') : t.Amid w' x home count' := by
  have hstack : w'.scopes.stack = w.scopes.stack :=
    (Balanced.of_leave (exec_enterArm hopen.exec) hbody.balanced hleave.exec).stack
  refine ⟨horderly, hdeclares, ?_, hstack ▸ h.isOpen, hmet⟩
  rw [← h.declared]
  exact declaringScope_of_stack
    (fun scope => (hdeclares scope).trans (h.declares scope).symm) hstack

/-- After the first branch its handle is from a scope that has been left. -/
theorem Lone.first {b : Binding} (h : Lone w'.bindings x home u.scopes.current 0 b)
    (hopen : w.Steps limits .arms (.enterArm kind) .code u) (hbody : body.Walks limits u v)
    (hleave : v.Steps limits .code .leave .arms w') : w'.Met x home w.scopes.current 1 := by
  have hopens := (exec_enterArm hopen.exec).tree
  have hcurrent : u.scopes.current = w.scopes.scopes.length := by
    rw [ScopeTree.current, hopens.stack]
    rfl
  have hleft := left_of_leave hleave.ready.wellFormed hleave.ready'.wellFormed hleave.exec
  rw [hbody.balanced.current] at hleft
  refine .first h hleft ?_
  have hextends := hbody.grows.trans (exec_extends hleave.ready.wellFormed.indexed hleave.exec)
  rw [hextends.parent? hopen.ready'.wellFormed.tree.current_lt, hcurrent, hopens.parent?_fresh]

/-- One more branch that acquires into the variable has been read. -/
theorem Amid.arm (h : t.Amid w x home count)
    (hcurrent : count = 0 → w.scopes.current = t.scopes.current)
    (hopen : w.Steps limits .arms (.enterArm kind) .code u) (hbody : body.Walks limits u v)
    (hleave : v.Steps limits .code .leave .arms w') (hstarts : body.StartsOnce x)
    (hlive : u.Along limits (AcquiresLive x) body.actions) : t.Amid w' x home (count + 1) := by
  cases hstarts with
  | @intro lead errVar span tail hactions hlead htail =>
    have hrun := hbody.run
    have hsound : u.Sound limits body.actions := body.sound hopen.ready'
    rw [hactions] at hrun hsound hlive
    obtain ⟨s, hbefore, hrest⟩ := run_append_eq_ok.mp hrun
    obtain ⟨s', hexec, hafter⟩ := run_cons_eq_ok.mp hrest
    -- the assignment is met in `s`
    have hwalks := lead.walks_of_run hopen.ready' hbefore
    have hs := (h.enterArm hopen).walks hwalks hlead
    have hwf := hwalks.ready'.wellFormed
    have hlive : s.Live := hlive.at_append hbefore (by simp [Action.acquires])
    have horderly := exec_orderly hwf hs.orderly hexec
    -- nothing is done with the variable from `s'` to the end of the branch
    have hend : s'.run limits (tail ++ [.leave]) = .ok w' :=
      run_append_eq_ok.mpr ⟨v, hafter, run_single hleave.exec⟩
    have hsound' : s'.Sound limits (tail ++ [.leave]) := by
      refine ((hsound.drop hbefore).2.2 s' hexec).append fun z hz => ?_
      obtain rfl : v = z := Except.ok.inj (hafter.symm.trans hz)
      exact hleave.sound
    have hquiet : Quiet x (tail ++ [.leave]) := by simp [htail, Action.alters]
    refine h.leave hopen hbody hleave (hsound'.ages hend horderly).1 (fun scope => ?_) ?_
    · rw [run_declares hsound' hend hquiet, scopes_of_assign hexec, hs.declares]
    · cases count with
      | zero =>
        -- the handle stays in the scope of the branch, which is left
        cases hs.met with
        | none hunbound =>
          obtain ⟨b, hlone⟩ := exists_lone_of_unbound hwf.indexed hunbound hs.declared hexec
          obtain ⟨b', hlone⟩ := run_lone hsound' horderly hend hquiet hlone
          rw [hwalks.balanced.current] at hlone
          exact hcurrent rfl ▸ hlone.first hopen hbody hleave
      | succ count =>
        exact (hs.met.assign hwf hlive hs.declared hs.isOpen hexec).run hsound' horderly hend hquiet

end Walk

/-! ## All branches -/

namespace Flow

/-- Each of so many arms acquires into the variable once. -/
inductive EachStarts (x : String) : Flow .arms → Nat → Prop where
  | noArm : EachStarts x .noArm 0
  | arm {kind : ScopeKind} {isArm : kind.isArm = true} {body : Flow .code} {rest : Flow .arms}
      {n : Nat} : body.StartsOnce x → EachStarts x rest n →
      EachStarts x (.arm kind isArm body rest) (n + 1)

/-- A branching statement, each of whose branches acquires into the variable once, and which does
nothing else with the variable. An alternative that is an `if` statement again counts as the
branches of that statement. -/
inductive Splits (x : String) : Flow .code → Nat → Prop where
  /-- An `if` statement with one or two branches. -/
  | conditional {take : Bool} {head : Flow .code} {names : List String} {hasElse : Bool}
      {span : Span} {consequence : Flow .code} {alternative : Flow .arms} {n : Nat} :
      Quiet x head.actions → consequence.StartsOnce x → alternative.EachStarts x n →
      Splits x (.conditional take head names hasElse span consequence alternative) (n + 1)
  /-- One that goes on with another `if` statement. -/
  | chain {take : Bool} {head : Flow .code} {names : List String} {hasElse : Bool} {span : Span}
      {consequence : Flow .code} {kind : ScopeKind} {isArm : kind.isArm = true} {inner : Flow .code}
      {n : Nat} : Quiet x head.actions → consequence.StartsOnce x → Splits x inner n →
      Splits x
        (.conditional take head names hasElse span consequence (.arm kind isArm inner .noArm))
        (n + 1)
  | clauses {kind : ConstructKind} {hasDefault : Bool} {span : Span} {arms : Flow .arms} {n : Nat} :
      arms.EachStarts x n → Splits x (.clauses kind hasDefault span arms) n
  | after {first second : Flow .code} {n : Nat} : Quiet x first.actions → Splits x second n →
      Splits x (.seq first second) n

open Walk

variable {limits : Limits} {t w w' : Walk} {x : String} {home : ScopeId} {count n : Nat}

/-- Branches that each start a transaction are counted as they are read. -/
theorem EachStarts.amid {arms : Flow .arms} (h : arms.EachStarts x n)
    (hwalks : arms.Walks limits w w') (hlive : w.Along limits (AcquiresLive x) arms.actions)
    (hcurrent : count = 0 → w.scopes.current = t.scopes.current) (hamid : t.Amid w x home count) :
    t.Amid w' x home (count + n) := by
  induction h generalizing w count with
  | noArm =>
    cases hwalks
    exact hamid
  | @arm kind isArm body rest n hstarts _ ih =>
    cases hwalks with
    | arm hopen hbody hleave hrest =>
      rw [actions, List.cons_append] at hlive
      have hlive := hlive.2 _ hopen.exec
      have hlive' := (hlive.drop hbody.run).2 _ hleave.exec
      have hone := hamid.arm hcurrent hopen hbody hleave hstarts hlive.take
      have hall := ih hrest hlive' (fun hcount => by cases hcount) hone
      rwa [Nat.add_assoc, Nat.add_comm 1] at hall

/-- The first branch of an `if` statement has been read. -/
theorem amid_consequence {w₁ w₂ w₃ w₄ u v w₅ w₆ : Walk} {take : Bool} {head : Flow .code}
    {names : List String} {hasElse : Bool} {span : Span} {consequence : Flow .code}
    {rest : List Action} (hhold : w.Steps limits .code (.holdGuards take) .code w₁)
    (hhead : head.Walks limits w₁ w₂) (hguard : w₂.Steps limits .code (.openGuard names) .code w₃)
    (hconstruct : w₃.Steps limits .code (.openConstruct .conditional hasElse span) .arms w₄)
    (hopen : w₄.Steps limits .arms (.enterArm .ifBranch) .code u)
    (hthen : consequence.Walks limits u v) (hleave : v.Steps limits .code .leave .arms w₅)
    (hunguard : w₅.Steps limits .arms .closeGuard .arms w₆) (hquiet : Quiet x head.actions)
    (hstarts : consequence.StartsOnce x)
    (hlive : w.Along limits (AcquiresLive x) (.holdGuards take :: (head.actions ++
      .openGuard names :: .openConstruct .conditional hasElse span :: .enterArm .ifBranch ::
      (consequence.actions ++ .leave :: .closeGuard :: rest))))
    (hcurrent : count = 0 → w.scopes.current = t.scopes.current) (hamid : t.Amid w x home count) :
    t.Amid w₆ x home (count + 1) ∧ w₆.Along limits (AcquiresLive x) rest := by
  have hlive := ((hlive.2 _ hhold.exec).drop hhead.run).2 _ hguard.exec
  have hlive := (hlive.2 _ hconstruct.exec).2 _ hopen.exec
  have hlive' := ((hlive.drop hthen.run).2 _ hleave.exec).2 _ hunguard.exec
  -- no scope is opened before the branch
  have hstack : w₄.scopes.stack = w.scopes.stack :=
    calc w₄.scopes.stack = w₃.scopes.stack := hconstruct.stack_eq rfl
      _ = w₂.scopes.stack := hguard.stack_eq rfl
      _ = w₁.scopes.stack := hhead.balanced.stack
      _ = w.scopes.stack := hhold.stack_eq rfl
  have hcurrent : count = 0 → w₄.scopes.current = t.scopes.current := by
    rw [ScopeTree.current, hstack]
    exact hcurrent
  have hamid := (((hamid.step hhold rfl rfl).walks hhead hquiet).step hguard rfl rfl).step
    hconstruct rfl rfl
  exact ⟨(hamid.arm hcurrent hopen hthen hleave hstarts hlive.take).step hunguard rfl rfl, hlive'⟩

/-- The whole statement has been read. -/
theorem Splits.amid {flow : Flow .code} (h : flow.Splits x n) (hwalks : flow.Walks limits w w')
    (hlive : w.Along limits (AcquiresLive x) flow.actions)
    (hcurrent : count = 0 → w.scopes.current = t.scopes.current) (hamid : t.Amid w x home count) :
    t.Amid w' x home (count + n) := by
  induction h generalizing w w' count with
  | conditional hquiet hstarts heach =>
    cases hwalks with
    | conditional hhold hhead hguard hconstruct hopen hthen hleave hunguard hrest hclose =>
      simp only [actions, List.cons_append, List.append_assoc] at hlive
      obtain ⟨hone, hlive⟩ := amid_consequence hhold hhead hguard hconstruct hopen hthen hleave
        hunguard hquiet hstarts hlive hcurrent hamid
      have hall := heach.amid hrest hlive.take (fun hcount => by cases hcount) hone
      rw [Nat.add_assoc, Nat.add_comm 1] at hall
      exact hall.step hclose rfl rfl
  | chain hquiet hstarts _ ih =>
    cases hwalks with
    | conditional hhold hhead hguard hconstruct hopen hthen hleave hunguard hrest hclose =>
      simp only [actions, List.cons_append, List.append_assoc] at hlive
      obtain ⟨hone, hlive⟩ := amid_consequence hhold hhead hguard hconstruct hopen hthen hleave
        hunguard hquiet hstarts hlive hcurrent hamid
      cases hrest with
      | arm hopen' hinner hleave' hnone =>
        cases hnone
        -- the inner statement is all of the alternative, so leaving it keeps what was reached there
        have hlive := (hlive.2 _ hopen'.exec).take
        have hall := ih hinner hlive (fun hcount => by cases hcount) (hone.enterArm hopen')
        rw [Nat.add_assoc, Nat.add_comm 1] at hall
        refine (hone.leave hopen' hinner hleave' ?_ (fun scope => ?_) ?_).step hclose rfl rfl
        · exact exec_orderly hleave'.ready.wellFormed hall.orderly hleave'.exec
        · exact (exec_declares hleave'.exec rfl scope).trans (hall.declares scope)
        · exact hall.met.run hleave'.sound hall.orderly (run_single hleave'.exec)
            (by simp [Action.alters])
  | clauses heach =>
    cases hwalks with
    | clauses hconstruct harms hclose =>
      rw [actions, List.cons_append] at hlive
      have hlive := (hlive.2 _ hconstruct.exec).take
      refine (heach.amid harms hlive (fun hcount => ?_) (hamid.step hconstruct rfl rfl)).step
        hclose rfl rfl
      rw [ScopeTree.current, hconstruct.stack_eq rfl]
      exact hcurrent hcount
  | after hquiet _ ih =>
    cases hwalks with
    | seq hfirst hsecond =>
      refine ih hsecond (hlive.drop hfirst.run) (fun hcount => ?_) (hamid.walks hfirst hquiet)
      rw [hfirst.balanced.current]
      exact hcurrent hcount

/-- Something that leaves the variable alone stands before the acquisition. -/
theorem StartsOnce.after {first second : Flow .code} (hfirst : Quiet x first.actions)
    (h : second.StartsOnce x) : (Flow.seq first second).StartsOnce x := by
  cases h with
  | @intro lead errVar span tail hactions hlead htail =>
    have hread : (Flow.seq first second).actions = (Flow.seq first lead).actions ++
        .acquire x errVar span false :: tail := by
      rw [actions, actions, hactions, List.append_assoc]
    exact .intro hread (by simp [actions, hfirst, hlead]) htail

end Flow

/-! ## Statements -/

/-- The list acquires into the variable once, by an assignment that stands in it, and does nothing
else with the variable. -/
inductive StartsOnce (names : Recognizers) (x : String) : List Stmt → Prop where
  /-- The assignment stands after `first` and before `rest`. -/
  | intro {first rest : List Stmt} {call : Expr} {targets : List Expr} {span place : Span} :
      (names.acquisition call).isSome = true → Quiet x (stmtsActions names first) →
      Quiet x (call.actions names) → Quiet x (stmtsActions names rest) →
      StartsOnce names x (first ++ .assign (.ident x span :: targets) [call] place :: rest)

/-- The consequence of an `if` statement does that, and what comes before leaves the variable
alone. -/
structure IfStmt.Starts (names : Recognizers) (x : String) (stmt : IfStmt) : Prop where
  init : ∀ s ∈ stmt.init, Quiet x (s.actions names)
  cond : Quiet x (stmt.cond.actions names)
  consequence : StartsOnce names x stmt.consequence.stmts

/-- Each of so many branches of an `if` statement acquires into the variable once, and nothing else
is done with the variable. The branches of a chain of `if` statements are those of all of them. -/
inductive IfStmt.Splits (names : Recognizers) (x : String) : IfStmt → Nat → Prop where
  | alone {stmt : IfStmt} : stmt.Starts names x → stmt.otherwise = none → Splits names x stmt 1
  | block {stmt : IfStmt} {block : Block} : stmt.Starts names x →
      stmt.otherwise = some (.block block) → StartsOnce names x block.stmts →
      Splits names x stmt 2
  | elseIf {stmt inner : IfStmt} {n : Nat} : stmt.Starts names x →
      stmt.otherwise = some (.elseIf inner) → Splits names x inner n →
      Splits names x stmt (n + 1)

/-- A clause acquires into the variable once, and nothing else is done with the variable. -/
structure CaseClause.Starts (names : Recognizers) (x : String) (clause : CaseClause) : Prop where
  values : Quiet x (exprsActions names clause.values)
  /-- The send or receive of a select's clause. -/
  comm : ∀ s ∈ clause.comm, Quiet x (s.actions names)
  body : StartsOnce names x clause.body

/-- Each of so many branches of a branching statement acquires into the variable once, by an
assignment that stands in its list, and nothing else is done with the variable. -/
inductive Stmt.Splits (names : Recognizers) (x : String) : Stmt → Nat → Prop where
  | ifStmt {stmt : IfStmt} {n : Nat} : stmt.Splits names x n → Splits names x (.ifStmt stmt) n
  | switchStmt {init : Option Stmt} {tag : Option Expr} {cases : List CaseClause} {span : Span} :
      (∀ s ∈ init, Quiet x (s.actions names)) → (∀ e ∈ tag, Quiet x (e.actions names)) →
      (∀ clause ∈ cases, clause.Starts names x) →
      Splits names x (.switchStmt init tag cases span) cases.length
  | selectStmt {cases : List CaseClause} {span : Span} :
      (∀ clause ∈ cases, clause.Starts names x) →
      Splits names x (.selectStmt cases span) cases.length

section Reading

variable {names : Recognizers} {x : String} {n : Nat} {lead : Flow .code} {acts : List Action}
  {stmt : Stmt}

/-- An assignment that acquires does so after its right side is read. -/
theorem exists_stmtsActions_assign {call : Expr} (targets : List Expr) (span place : Span)
    (rest : List Stmt) (hx : x ≠ "_") (hcall : (names.acquisition call).isSome = true) :
    ∃ blank errVar, stmtsActions names (.assign (.ident x span :: targets) [call] place :: rest) =
      [.dropGuards, .count, .setSpan place, .beginAssign blank] ++ call.actions names ++
        .endAssign :: .acquire x errVar place false :: stmtsActions names rest := by
  obtain ⟨kind, hkind⟩ := Option.isSome_iff_exists.mp hcall
  have hstores : storeActions (.ident x span :: targets) [call] place.stop = [] := by
    simp [storeActions]
  have hacquires : Recognizers.acquireActions (.ident x span :: targets) kind place false =
      [.acquire x (errorTarget (.ident x span :: targets) kind) place false] := by
    simp [Recognizers.acquireActions, Expr.asIdent, hx]
  obtain ⟨blank, tail, hread, htail⟩ : ∃ blank tail,
      stmtsActions names (.assign (.ident x span :: targets) [call] place :: rest) =
        .dropGuards :: (.count :: .setSpan place :: .beginAssign blank :: exprsActions names [call]
          ++ .endAssign :: storeActions (.ident x span :: targets) [call] place.stop ++ tail)
          ++ stmtsActions names rest ∧
      tail = Recognizers.acquireActions (.ident x span :: targets) kind place false := by
    refine ⟨_, _, rfl, ?_⟩
    rw [Recognizers.acquisitionOf, hkind]
  have hright : exprsActions names [call] = call.actions names := List.append_nil _
  refine ⟨blank, errorTarget (.ident x span :: targets) kind, ?_⟩
  rw [hread, htail, hstores, hacquires, hright]
  simp only [List.cons_append, List.append_assoc, List.nil_append]

theorem StartsOnce.flow {stmts : List Stmt} (h : StartsOnce names x stmts) (hx : x ≠ "_") :
    (stmtsFlow names stmts).StartsOnce x := by
  cases h with
  | @intro first rest call targets span place hcall hfirst hquiet hrest =>
    obtain ⟨blank, errVar, hread⟩ := exists_stmtsActions_assign targets span place rest hx hcall
    obtain ⟨lead, hlead⟩ : ∃ lead : Flow .code, lead.actions = stmtsActions names first ++
        ([.dropGuards, .count, .setSpan place, .beginAssign blank] ++
          (call.actions names ++ [.endAssign])) := by
      refine ⟨.seq (stmtsFlow names first) (.seq (.act .dropGuards rfl) (.seq (.begin place)
        (.seq (.act (.beginAssign blank) rfl) (.seq (call.flow names) (.act .endAssign rfl))))), ?_⟩
      simp only [Flow.actions, stmtsFlow_actions, Flow.actions_begin, call.flow_actions]
      rfl
    have hall : (stmtsFlow names (first ++ .assign (.ident x span :: targets) [call] place ::
        rest)).actions =
          lead.actions ++ .acquire x errVar place false :: stmtsActions names rest := by
      rw [stmtsFlow_actions, stmtsActions_append, hread, hlead]
      simp only [List.append_assoc, List.cons_append, List.nil_append]
    refine .intro hall ?_ hrest
    rw [hlead]
    simp [Action.alters, hfirst, hquiet]

/-- A statement that may be absent leaves the variable alone. -/
theorem quiet_stmtFlow? {stmt? : Option Stmt} (h : ∀ s ∈ stmt?, Quiet x (s.actions names)) :
    Quiet x (stmtFlow? names stmt?).actions := by
  cases stmt? with
  | none => exact Quiet.nil x
  | some s =>
    rw [stmtFlow?, s.flow_actions]
    exact h s rfl

/-- An expression that may be absent leaves the variable alone. -/
theorem quiet_exprFlow? {expr? : Option Expr} (h : ∀ e ∈ expr?, Quiet x (e.actions names)) :
    Quiet x (exprFlow? names expr?).actions := by
  cases expr? with
  | none => exact Quiet.nil x
  | some e =>
    rw [exprFlow?, e.flow_actions]
    exact h e rfl

/-- All that an `if` statement does before its branches leaves the variable alone. -/
theorem IfStmt.Starts.quiet_head {init : Option Stmt} {cond : Expr} {consequence : Block}
    {otherwise : Option Else} {place : Span}
    (h : IfStmt.Starts names x ⟨init, cond, consequence, otherwise, place⟩)
    (hlead : Quiet x lead.actions) :
    Quiet x (Flow.seq lead (.seq
      (.seq (stmtFlow? names init) (if init.isSome then .act .collectGuards rfl else .skip))
      (.seq (.act (.setSpan place) rfl) (cond.flow names)))).actions := by
  have hinit := quiet_stmtFlow? h.init
  have hcond : Quiet x (cond.actions names) := h.cond
  have hcollect : Quiet x
      (if init.isSome then .act .collectGuards rfl else .skip : Flow .code).actions := by
    split <;> simp [Flow.actions, Action.alters]
  simp [Flow.actions, cond.flow_actions, hlead, hinit, hcollect, hcond, Action.alters]

theorem IfStmt.Splits.flow {stmt : IfStmt} (h : stmt.Splits names x n) (hx : x ≠ "_") (take : Bool)
    (hlead : Quiet x lead.actions) : (stmt.flow names take lead).Splits x n := by
  induction h generalizing take lead with
  | @alone stmt hstarts hnone =>
    obtain ⟨init, cond, ⟨stmts, span⟩, otherwise, place⟩ := stmt
    cases hnone
    exact .conditional (hstarts.quiet_head hlead) (hstarts.consequence.flow hx) .noArm
  | @block stmt block hstarts hsome hblock =>
    obtain ⟨init, cond, ⟨stmts, span⟩, otherwise, place⟩ := stmt
    cases hsome
    obtain ⟨alternative, span'⟩ := block
    exact .conditional (hstarts.quiet_head hlead) (hstarts.consequence.flow hx)
      (.arm (hblock.flow hx) .noArm)
  | @elseIf stmt inner n hstarts hsome _ ih =>
    obtain ⟨init, cond, ⟨stmts, span⟩, otherwise, place⟩ := stmt
    cases hsome
    exact .chain (hstarts.quiet_head hlead) (hstarts.consequence.flow hx)
      (.after (by simp [Flow.actions, Action.alters]) (ih false (Quiet.nil x)))

theorem eachStarts_casesFlow (kind : ConstructKind) {cases : List CaseClause}
    (h : ∀ clause ∈ cases, clause.Starts names x) (hx : x ≠ "_") :
    (casesFlow names kind cases).EachStarts x cases.length := by
  induction cases with
  | nil => exact .noArm
  | cons clause rest ih =>
    have hstarts := h clause List.mem_cons_self
    obtain ⟨isDefault, values, comm, body, span⟩ := clause
    have hvalues : Quiet x (exprsFlow names values).actions := by
      rw [exprsFlow_actions]
      exact hstarts.values
    exact .arm (.after (by simp [Flow.actions, Action.alters])
        (.after hvalues (.after (quiet_stmtFlow? hstarts.comm) (hstarts.body.flow hx))))
      (ih fun clause hclause => h clause (List.mem_cons_of_mem _ hclause))

variable (h : stmt.Splits names x n)
include h

theorem Stmt.Splits.flow (hx : x ≠ "_") : (stmt.flow names).Splits x n := by
  have hbegin : ∀ span, Quiet x (Flow.begin span).actions := by
    intro span
    simp [Action.alters]
  cases h with
  | ifStmt h => exact .after (hbegin _) (h.flow hx false (Quiet.nil x))
  | switchStmt hinit htag hcases =>
    exact .after (hbegin _) (.after (quiet_stmtFlow? hinit) (.after (quiet_exprFlow? htag)
      (.clauses (eachStarts_casesFlow .switch hcases hx))))
  | selectStmt hcases =>
    exact .after (hbegin _) (.clauses (eachStarts_casesFlow .select hcases hx))

/-- Reading it begins with an action that opens nothing. -/
theorem Stmt.Splits.exists_first (hreads : stmt.Reads names acts) :
    ∃ first rest, acts = first :: rest ∧ first.isInner = true := by
  cases hreads with
  | listed =>
    cases h with
    | ifStmt _ => exact ⟨.holdGuards true, _, rfl, rfl⟩
    | switchStmt _ _ _ | selectStmt _ => exact ⟨.dropGuards, _, rfl, rfl⟩
  | alone =>
    cases h with
    | ifStmt _ | selectStmt _ => exact ⟨.count, _, rfl, rfl⟩
    | @switchStmt init tag cases span =>
      cases init <;> cases tag <;> exact ⟨.count, _, rfl, rfl⟩
  | elseIf => exact ⟨.count, _, rfl, rfl⟩

/-- Wherever the statement stands, it is read so. -/
theorem Stmt.Splits.exists_flow (hx : x ≠ "_") (hreads : stmt.Reads names acts) :
    ∃ flow : Flow .code, flow.actions = acts ∧ flow.Splits x n := by
  cases hreads with
  | listed =>
    have hother : stmtsActions names [stmt] = .dropGuards :: stmt.actions names ++ [] →
        ∃ flow : Flow .code, flow.actions = stmtsActions names [stmt] ∧ flow.Splits x n := by
      intro heq
      refine ⟨.seq (.act .dropGuards rfl) (stmt.flow names), ?_,
        .after (by simp [Flow.actions, Action.alters]) (h.flow hx)⟩
      rw [heq, Flow.actions, stmt.flow_actions, List.append_nil]
      rfl
    cases h with
    | @ifStmt stmt n h =>
      -- an `if` statement takes the waiting error checks before it is counted
      have hbegin : Quiet x (Flow.begin stmt.span).actions := by simp [Action.alters]
      refine ⟨_, ?_, h.flow hx true hbegin⟩
      exact (stmt.spells names true .begin).actions.trans (List.append_nil _).symm
    | switchStmt _ _ _ => exact hother rfl
    | selectStmt _ => exact hother rfl
  | alone => exact ⟨stmt.flow names, stmt.flow_actions names, h.flow hx⟩
  | elseIf stmt =>
    cases h with
    | ifStmt h =>
      exact ⟨.seq (.act .count rfl) (stmt.flow names false .skip),
        Flow.actions_seq rfl (stmt.spells names false .skip).actions,
        .after (by simp [Flow.actions, Action.alters]) (h.flow hx false (Quiet.nil x))⟩

end Reading

/-! ## One binding for all branches -/

namespace FunctionUnit

open Walk

variable {limits : Limits} {names : Recognizers} {unit : FunctionUnit} {w w' : Walk}
  {before acts after : List Action} {stmt : Stmt} {x : String} {home : ScopeId} {n : Nat}

/-- **Sibling acquisitions.** Let each of the branches of a chain of `if` statements, a switch or a
select start a transaction in a plain local of a scope around the statement, by an assignment in the
branch's own list, and let nothing else be done with the variable up to the end of the statement.
Let control get to all these assignments. Then the statement leaves one binding for the variable,
which is acquired in the scope of the statement. The third branch and every further one is noted as
the loss of the handle, so that nothing is noted just if there are two branches. -/
theorem siblings_merge (hactions : unit.actions names = before ++ (acts ++ after))
    (hbefore : Walk.run limits {} before = .ok w) (hreads : stmt.Reads names acts)
    (hrun : w.run limits acts = .ok w') (hx : x ≠ "_")
    (hdeclared : w.scopes.declaringScope x = some home)
    (hunbound : ∀ action ∈ before, action.acquires x = false) (hsplits : stmt.Splits names x n)
    (hn : 2 ≤ n) (hlive : w.Along limits (AcquiresLive x) acts) :
    ∃ b, w'.bindings.filter (·.name == x) = [b] ∧ b.acquiredIn = w.scopes.current ∧
      b.events.countP (·.kind == .reassignment) = n - 2 ∧
      (b.has .reassignment = false ↔ n = 2) := by
  have hready : w.Ready .code := by
    obtain ⟨first, rest, rfl, hinner⟩ := hsplits.exists_first hreads
    exact poised_of_run hactions hbefore hinner
  obtain ⟨flow, rfl, hflow⟩ := hsplits.exists_flow hx hreads
  have hsound := sound_of_actions limits hactions
  -- no branch has been read where the statement begins, and all have been at its end
  have hamid : w.Amid w x home 0 :=
    { orderly := (hsound.take.ages hbefore orderly_init).1
      declares := fun _ => rfl
      declared := hdeclared
      isOpen := hready.wellFormed.tree.current_mem
      met := .none (run_unbound hsound.take hbefore hunbound (by simp)) }
  have hall := (hflow.amid (flow.walks_of_run hready hrun) hlive (fun _ => rfl) hamid).met
  obtain ⟨k, rfl⟩ : ∃ k, n = k + 2 := ⟨n - 2, by omega⟩
  rw [Nat.zero_add] at hall
  cases hall with
  | @merged _ b hlone =>
    refine ⟨b, hlone.filter_eq, hlone.acquiredIn_eq, hlone.lost, ?_⟩
    rw [Binding.has, List.any_eq_false, ← List.countP_eq_zero, hlone.lost]
    omega

/-- A list that starts a transaction and does nothing else. -/
theorem startsOnce_starting {db : String} {span : Span}
    (hcall : (Recognizers.acquisition {} (.call (.selector (.ident db {}) "Begin" {}) [] {})).isSome
      = true)
    (hquiet : Quiet "tx" ((Expr.call (.selector (.ident db {}) "Begin" {}) [] {}).actions {})) :
    StartsOnce {} "tx" [starting db span] :=
  @StartsOnce.intro _ _ [] [] _ _ _ _ hcall (Quiet.nil _) hquiet (Quiet.nil _)

/-- A chain of `if` statements that starts one of three transactions. -/
def startingInTurn : IfStmt where
  init := none
  cond := .ident "first" {}
  consequence := { stmts := [starting "a" ⟨67, 84⟩], span := {} }
  otherwise := some (.elseIf {
    init := none
    cond := .ident "second" {}
    consequence := { stmts := [starting "b" ⟨106, 123⟩], span := {} }
    otherwise := some (.block { stmts := [starting "c" ⟨136, 153⟩], span := {} })
    span := {} })
  span := {}

/-- A function that does that. -/
def startedInTurn : FunctionUnit where
  name := "Run"
  body := { stmts := [.varDecl ["tx"] [] {}, .ifStmt startingInTurn], span := {} }

/-- The three acquisitions of this function share a binding, and the last one is noted as a loss. -/
theorem siblings_merge_startedInTurn :
    ∃ (w w' : Walk) (b : Binding),
      startedInTurn.actions {} = (startedInTurn.actions {}).take 4 ++
        (stmtsActions {} [.ifStmt startingInTurn] ++ []) ∧
      Walk.run {} {} ((startedInTurn.actions {}).take 4) = .ok w ∧
      w.run {} (stmtsActions {} [.ifStmt startingInTurn]) = .ok w' ∧
      w.scopes.declaringScope "tx" = some 0 ∧ w.scopes.current = 0 ∧
      (Stmt.ifStmt startingInTurn).Splits {} "tx" 3 ∧
      w'.bindings.filter (·.name == "tx") = [b] ∧ b.acquiredIn = 0 ∧
      b.events.countP (·.kind == .reassignment) = 1 := by
  have hactions : startedInTurn.actions {} = (startedInTurn.actions {}).take 4 ++
      (stmtsActions {} [.ifStmt startingInTurn] ++ []) := rfl
  obtain ⟨w, w', hbefore, hrun, hdeclared, hcurrent⟩ : ∃ w w',
      Walk.run {} {} ((startedInTurn.actions {}).take 4) = .ok w ∧
      w.run {} (stmtsActions {} [.ifStmt startingInTurn]) = .ok w' ∧
      w.scopes.declaringScope "tx" = some 0 ∧ w.scopes.current = 0 :=
    ⟨_, _, rfl, rfl, by decide +kernel, rfl⟩
  have hsplits : (Stmt.ifStmt startingInTurn).Splits {} "tx" 3 := by
    refine .ifStmt (.elseIf ⟨by simp [startingInTurn], by decide +kernel, ?_⟩ rfl
      (.block ⟨by simp, by decide +kernel, ?_⟩ rfl ?_))
    all_goals exact startsOnce_starting (by decide +kernel) (by decide +kernel)
  have hlive := startedInTurn.along_live {} {} "tx" (by decide +kernel)
  rw [hactions] at hlive
  obtain ⟨b, honly, hplace, hlost, -⟩ := siblings_merge hactions hbefore (.listed _) hrun
    (by decide) hdeclared (by decide +kernel) hsplits (by decide) (hlive.drop hbefore).take
  exact ⟨w, w', b, hactions, hbefore, hrun, hdeclared, hcurrent, hsplits, honly,
    hplace.trans hcurrent, hlost⟩

/-- A function that starts one of three transactions, and finishes it. -/
def startedByCase : FunctionUnit where
  name := "Run"
  body := {
    stmts := [
      .varDecl ["tx"] [] {},
      .switchStmt none (some (.ident "k" {})) [
        ⟨false, [.literal {}], none, [starting "a" ⟨88, 105⟩], {}⟩,
        ⟨false, [.literal {}], none, [starting "b" ⟨117, 134⟩], {}⟩,
        ⟨true, [], none, [starting "c" ⟨147, 164⟩], {}⟩] {},
      .deferStmt (.call (.selector (.ident "tx" {}) "Rollback" {}) [] {}) ⟨169, 188⟩,
      .exprStmt (.call (.selector (.ident "tx" {}) "Commit" {}) [] {}) ⟨190, 201⟩]
    span := {} }

/-- The clauses of a switch exclude each other, and yet the last one of these is noted as the loss
of a handle, and reported. -/
theorem third_sibling_reported :
    ∃ (tracked : Tracked) (b : Binding), startedByCase.track {} {} = .ok tracked ∧
      (∃ (stmt : Stmt), stmt ∈ startedByCase.body.stmts ∧ stmt.Splits {} "tx" 3) ∧
      tracked.bindings.filter (·.name == "tx") = [b] ∧ b.has .reassignment = true ∧
      b.verdict tracked.scopes = some (.variableReassignment, ⟨88, 105⟩) := by
  refine ⟨_, _, rfl, ⟨_, List.mem_cons_of_mem _ List.mem_cons_self, ?_⟩, rfl, by decide +kernel,
    by decide +kernel⟩
  have hstarts : ∀ {isDefault : Bool} {values : List Expr} {db : String} {span span' : Span},
      Quiet "tx" (exprsActions {} values) → StartsOnce {} "tx" [starting db span] →
      CaseClause.Starts {} "tx" ⟨isDefault, values, none, [starting db span], span'⟩ :=
    fun hvalues hbody => ⟨hvalues, by simp, hbody⟩
  refine .switchStmt (by simp) (by simp; decide +kernel) ?_
  simp only [List.forall_mem_cons, List.not_mem_nil, false_implies, implies_true, and_true]
  refine ⟨hstarts (by decide +kernel) ?_, hstarts (by decide +kernel) ?_,
    hstarts (by decide +kernel) ?_⟩
  all_goals exact startsOnce_starting (by decide +kernel) (by decide +kernel)

end FunctionUnit

end TxLifecycle
