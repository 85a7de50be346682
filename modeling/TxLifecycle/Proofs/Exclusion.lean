import Mathlib.Data.List.Pairwise
import TxLifecycle.Proofs.Arena
import TxLifecycle.Proofs.Branches
import TxLifecycle.Proofs.InitClauses
import TxLifecycle.Proofs.Inside
import TxLifecycle.Proofs.Path

/-!
# Code that no execution runs together

An execution takes one arm of a branching statement. So it never runs code in two of them, unless a
loop brings it back to the statement.

* `Walk.Settles`: what later states keep of the constructs of an earlier one;
* `Flow.loops`: the loops of a flow;
* `Flow.Runs.not_separates`: no construct separates two steps of a path, if no loop is around both.

The main statement is `FunctionUnit.not_separates`.
-/

namespace TxLifecycle

namespace Walk

variable {limits : Limits} {w u v w' : Walk} {action : Action} {actions : List Action}

/-! ## Constructs of later states -/

/-- What the second, later state keeps of the constructs of the first one. -/
structure Settles (u v : Walk) : Prop where
  length : u.scopes.scopes.length ≤ v.scopes.scopes.length
  /-- A scope that was there is an arm only of the construct of which it was one. -/
  old : ∀ {id : ConstructId} {c : Construct} {arm : Nat}, v.scopes.construct? id = some c →
    arm ∈ c.arms → arm < u.scopes.scopes.length →
    ∃ c', u.scopes.construct? id = some c' ∧ arm ∈ c'.arms
  /-- A construct that was closed is still the same, and closed. -/
  closed : ∀ {id : ConstructId} {c : Construct}, u.scopes.construct? id = some c →
    id ∉ u.constructs → v.scopes.construct? id = some c ∧ id ∉ v.constructs
  arms : ∀ {id : ConstructId} {c : Construct}, u.scopes.construct? id = some c →
    ∃ c', v.scopes.construct? id = some c' ∧ c.arms ⊆ c'.arms

namespace Settles

theorem refl (u : Walk) : u.Settles u :=
  ⟨Nat.le_refl _, fun hc harm _ => ⟨_, hc, harm⟩, fun hc hclosed => ⟨hc, hclosed⟩,
    fun hc => ⟨_, hc, fun _ harm => harm⟩⟩

variable (h : u.Settles v)
include h

/-- The constructs stay as they are, and none is opened. -/
theorem of_eq (hlength : v.scopes.scopes.length ≤ w.scopes.scopes.length)
    (hconstructs : w.scopes.constructs = v.scopes.constructs)
    (hopened : ∀ id ∈ w.constructs, id ∈ v.constructs) : u.Settles w := by
  have hsame : ∀ id, w.scopes.construct? id = v.scopes.construct? id := fun id => by
    rw [ScopeTree.construct?, hconstructs, ScopeTree.construct?]
  refine ⟨Nat.le_trans h.length hlength, fun {id c arm} hc => ?_, fun {id c} hc hclosed => ?_,
    fun {id c} hc => ?_⟩
  · exact h.old (hsame id ▸ hc)
  · obtain ⟨hkept, hstill⟩ := h.closed hc hclosed
    exact ⟨(hsame id).trans hkept, fun hmem => hstill (hopened id hmem)⟩
  · rw [hsame id]
    exact h.arms hc

/-- An arm opens for the innermost construct. -/
theorem enterArm {kind : ScopeKind} (hwf : v.WellFormed) (hprepared : v.Prepared (.enterArm kind))
    (hexec : v.exec limits (.enterArm kind) = .ok w) : u.Settles w := by
  have hopens := exec_enterArm hexec
  obtain ⟨first, rest, hfirst⟩ := List.exists_cons_of_ne_nil hprepared.1
  refine ⟨?_, fun {id c arm} hc harm hlt => ?_, fun {id c} hc hclosed => ?_, fun {id c} hc => ?_⟩
  · rw [hopens.tree.length]
    exact Nat.le_succ_of_le h.length
  · obtain ⟨c', hc', -, harms⟩ := ScopeTree.Arena.construct?_opens_cases hopens.tree hc
    rw [harms] at harm
    rcases List.mem_append.mp harm with harm | hnew
    · exact h.old hc' harm hlt
    · -- the new arm was not there
      have hle := h.length
      split at hnew
      · rw [List.mem_singleton.mp hnew] at hlt
        omega
      · cases hnew
  · -- a construct that is closed is not the one that gets the arm
    obtain ⟨hkept, hstill⟩ := h.closed hc hclosed
    refine ⟨exec_keeps hwf.indexed hexec (fun _ _ heq => ?_) hkept, hopens.opened ▸ hstill⟩
    rw [hfirst, List.headD_cons] at heq
    rw [hfirst, heq] at hstill
    exact hstill List.mem_cons_self
  · obtain ⟨c', hc', harms⟩ := h.arms hc
    rw [hopens.tree.construct?, hc', Option.map_some]
    split
    · exact ⟨_, rfl, fun arm harm => List.mem_append_left _ (harms harm)⟩
    · exact ⟨c', rfl, harms⟩

theorem openConstruct {kind : ConstructKind} {hasFallback : Bool} {span : Span} :
    u.Settles (v.openConstruct kind hasFallback span) := by
  refine ⟨h.length, fun {id c arm} hc harm hlt => ?_, fun {id c} hc hclosed => ?_,
    fun {id c} hc => ?_⟩
  · rcases ScopeTree.construct?_openConstruct_cases hc with hc | ⟨-, hnone⟩
    · exact h.old hc harm hlt
    · -- the new construct has no arm yet
      rw [hnone] at harm
      cases harm
  · obtain ⟨hkept, hstill⟩ := h.closed hc hclosed
    refine ⟨ScopeTree.construct?_openConstruct hkept kind hasFallback span, fun hmem => ?_⟩
    rcases List.mem_cons.mp hmem with rfl | hmem
    · exact Nat.lt_irrefl _ (List.getElem?_eq_some_iff.mp hkept).1
    · exact hstill hmem
  · obtain ⟨c', hc', harms⟩ := h.arms hc
    exact ⟨c', ScopeTree.construct?_openConstruct hc' kind hasFallback span, harms⟩

/-- An action runs. -/
theorem exec (hwf : v.WellFormed) (hprepared : v.Prepared action)
    (hexec : v.exec limits action = .ok w) : u.Settles w := by
  have hlength := (exec_extends hwf.indexed hexec).length
  -- most actions change neither the constructs nor which of them are open
  have hsame : w.scopes.constructs = v.scopes.constructs → w.constructs = v.constructs →
      u.Settles w := fun hconstructs hopened =>
    h.of_eq hlength hconstructs fun id hid => hopened ▸ hid
  cases action with
  | enter kind => exact hsame (exec_enter hexec).tree.constructs (exec_enter hexec).opened
  | openBody kind =>
    exact hsame (exec_openBody hexec).tree.constructs (exec_openBody hexec).opened
  | leave => exact hsame (closes_of_leave hexec).constructs (closes_of_leave hexec).opened
  | closeBody => exact hsame (exec_closeBody hexec).constructs (exec_closeBody hexec).opened
  | enterArm kind => exact h.enterArm hwf hprepared hexec
  | openConstruct kind hasFallback span =>
    cases hexec
    exact h.openConstruct
  | closeConstruct =>
    cases hexec
    exact h.of_eq hlength rfl fun id hid => List.mem_of_mem_tail hid
  | openGuard _ | closeGuard =>
    cases hexec
    exact hsame rfl rfl
  | _ =>
    have hedits := exec_edits hwf.indexed rfl hexec
    exact hsame hedits.constructs hedits.opened

end Settles

section

variable (hsound : u.Sound limits actions)
include hsound

/-- A run of actions settles what was there before it. -/
theorem run_settles (halong : u.Along limits Prepared actions)
    (hrun : u.run limits actions = .ok v) : u.Settles v := by
  have hall : actions = actions ++ [] := (List.append_nil _).symm
  rw [hall] at hsound halong
  exact halong.preserves (Q := u.Settles) hsound hrun
    (fun hwf _ hprepared hexec h => h.exec hwf hprepared hexec) (.refl u)

/-- Scopes that are exclusive stay so. -/
theorem exclusive_of_run {a b : Nat} (halong : u.Along limits Prepared actions)
    (hrun : u.run limits actions = .ok v) (ha : a < u.scopes.scopes.length)
    (hb : b < u.scopes.scopes.length) (h : u.scopes.Exclusive a b) : v.scopes.Exclusive a b := by
  obtain ⟨c, hc, arm, harm, arm', harm', hne, hmem, hmem'⟩ := h
  obtain ⟨id, hid⟩ := List.mem_iff_getElem?.mp hc
  obtain ⟨c', hc', harms⟩ := (run_settles hsound halong hrun).arms hid
  have hextends := hsound.grows hrun
  refine ⟨c', List.mem_of_getElem? hc', arm, harms harm, arm', harms harm', hne, ?_, ?_⟩
  · rwa [hextends.ancestors hsound.wellFormed.tree ha]
  · rwa [hextends.ancestors hsound.wellFormed.tree hb]

/-! ## States with code between them -/

/-- A scope that is open was open before, unless it is new. -/
theorem mem_stack_of_run {scope : Nat} (hrun : u.run limits actions = .ok v)
    (hopen : scope ∈ v.scopes.stack) (hlt : scope < u.scopes.scopes.length) :
    scope ∈ u.scopes.stack :=
  Decidable.byContradiction fun hclosed =>
    (run_left hsound hrun ⟨hlt, hclosed⟩).closed hopen

/-- A state keeps its chain of open scopes. -/
theorem ancestors_current_of_run (hrun : u.run limits actions = .ok v) :
    v.scopes.ancestors u.scopes.current = u.scopes.stack := by
  have hwf := hsound.wellFormed.tree
  rw [(hsound.grows hrun).ancestors hwf hwf.current_lt, hwf.stack_eq]

end

/-- Between two states the walk comes to a place where code begins, in a scope that is open in both.
Then no construct separates the two: one whose arm was open in the first state is finished by then,
or the arm is still open. -/
theorem not_separates_of_between {p q z : Walk} {first second third : List Action}
    (hsound : p.Sound limits (first ++ (second ++ third)))
    (halong : p.Along limits Prepared (first ++ (second ++ third)))
    (hp : p.run limits first = .ok u) (hu : u.run limits second = .ok q)
    (hq : q.run limits third = .ok z) (hready : u.Ready .code)
    (hopen : u.scopes.stack <:+ p.scopes.stack) (hopen' : u.scopes.stack <:+ q.scopes.stack)
    {c : Construct} (hc : c ∈ z.scopes.constructs) :
    ¬ c.Separates z.scopes p.scopes.current q.scopes.current := by
  rintro ⟨arm, harm, arm', harm', hne, hmem, hmem'⟩
  have hafter := hsound.drop hp
  have hend := hafter.drop hu
  have huz := run_append_eq_ok.mpr ⟨q, hu, hq⟩
  have hwf : z.scopes.WellFormed := by
    have hall : q.Sound limits (third ++ []) := by rwa [List.append_nil]
    exact (hall.drop hq).wellFormed.tree
  obtain ⟨id, hid⟩ := List.mem_iff_getElem?.mp hc
  rw [ancestors_current_of_run hsound (run_append_eq_ok.mpr ⟨u, hp, huz⟩)] at hmem
  rw [ancestors_current_of_run hend hq] at hmem'
  -- an arm that is open in between is open in both states, and so it is the other one
  have hclosed : arm ∉ u.scopes.stack := by
    intro hstack
    have hboth := hopen'.subset hstack
    rw [← ancestors_current_of_run hend hq] at hboth hmem'
    exact hne (hwf.eq_of_siblings hboth hmem' (hwf.arm hid harm) (hwf.arm hid harm'))
  have hclosed' : arm' ∉ u.scopes.stack := by
    intro hstack
    have hboth := hopen.subset hstack
    rw [← ancestors_current_of_run hsound (run_append_eq_ok.mpr ⟨u, hp, huz⟩)] at hboth hmem
    exact hne (hwf.eq_of_siblings hmem hboth (hwf.arm hid harm) (hwf.arm hid harm'))
  -- so the first arm was opened before that place and the second one after it
  have hlt : arm < u.scopes.scopes.length :=
    Nat.lt_of_lt_of_le (hsound.wellFormed.tree.stack_lt hmem) (hsound.take.grows hp).length
  have hnew : ¬ arm' < u.scopes.scopes.length := fun hlt' =>
    hclosed' (mem_stack_of_run hafter.take hu hmem' hlt')
  have hsettles := run_settles hafter (halong.drop hp) huz
  obtain ⟨c₀, hc₀, harm₀⟩ := hsettles.old hid harm hlt
  by_cases hstill : id ∈ u.constructs
  · -- the construct is open because one of its arms is, and the first arm lies in no other one
    obtain ⟨c₁, arm₁, hc₁, harm₁, hmem₁⟩ := hready.aligned id hstill
    obtain rfl : c₀ = c₁ := Option.some.inj (hc₀.symm.trans hc₁)
    have htree := hready.wellFormed.tree
    have hboth := hopen.subset hmem₁
    rw [← ancestors_current_of_run hsound.take hp] at hboth hmem
    have heq := htree.eq_of_siblings hmem hboth (htree.arm hc₀ harm₀) (htree.arm hc₀ harm₁)
    exact hclosed (heq ▸ hmem₁)
  · -- the construct is finished and gets no arm any more
    obtain ⟨hkept, -⟩ := hsettles.closed hc₀ hstill
    obtain rfl : c₀ = c := Option.some.inj (hkept.symm.trans hid)
    exact hnew (ScopeTree.lt_of_parent? (hready.wellFormed.tree.arm hc₀ harm'))

end Walk

/-! ## Steps of one path -/

/-- A walk reads all these actions and is in this state in the end. -/
structure Walk.ReadsAll (limits : Limits) (all : List Action) (z : Walk) : Prop where
  run : Walk.run limits {} all = .ok z
  sound : ({} : Walk).Sound limits all
  /-- Every action runs where the code puts it. -/
  along : ({} : Walk).Along limits Walk.Prepared all

/-- No construct of the final state separates the scopes in which the two steps are met. -/
def Step.Together (z : Walk) (s t : Step) : Prop :=
  ∀ p q : Walk, Walk.At s.before p → Walk.At t.before q → ∀ c ∈ z.scopes.constructs,
    ¬ c.Separates z.scopes p.scopes.current q.scopes.current

/-- One of the loops, each given by what is read before it and by its own actions, is around both
steps. -/
def Step.LoopAround (loops : List (List Action × List Action)) (s t : Step) : Prop :=
  ∃ loop ∈ loops, s.Within loop.1 loop.2 ∧ t.Within loop.1 loop.2

/-- The loops of a flow that is read after `before`. -/
def Flow.loops : {shape : Shape} → List Action → Flow shape → List (List Action × List Action)
  | _, before, .seq first second => first.loops before ++ second.loops (before ++ first.actions)
  | _, before, .block body => body.loops (before ++ [.enter .block])
  | _, before, .loop head body =>
    (before, (Flow.loop head body).actions)
      :: head.loops before ++ body.loops (before ++ head.actions ++ [.enter .loopBody])
  | _, before, .conditional take head names hasElse span consequence alternative =>
    head.loops (before ++ [.holdGuards take])
      ++ consequence.loops (before ++ toConsequence take head names hasElse span)
      ++ alternative.loops (before ++ toAlternative take head names hasElse span consequence)
  | _, before, .clauses kind hasDefault span arms =>
    arms.loops (before ++ [.openConstruct kind hasDefault span])
  | _, before, .arguments args => args.loops (before ++ [.openArgs])
  | _, before, .literal launch body => body.loops (before ++ [.openBody (literalKind launch)])
  | _, before, .launched span call _ func =>
    func.loops (before ++ .openBody (.goroutine span) :: call)
  | _, before, .deferral calls _ evaluated => evaluated.loops (before ++ .addDefer :: calls)
  | _, before, .deferredLiteral evaluated body =>
    evaluated.loops (before ++ [.addDefer])
      ++ body.loops (before ++ (.addDefer :: evaluated.actions ++ [.openBody .deferred]))
  | _, before, .arm kind _ body rest =>
    body.loops (before ++ [.enterArm kind])
      ++ rest.loops (before ++ (.enterArm kind :: body.actions ++ [.leave]))
  | _, _, .skip | _, _, .act _ _ | _, _, .jump | _, _, .noArm => []

namespace Step

open Walk

variable {limits : Limits} {shape : Shape} {flow : Flow shape} {start actions : List Action}
  {w p : Walk} {s t : Step} {loops loops' : List (List Action × List Action)}

theorem LoopAround.mono (h : s.LoopAround loops t) (hsubset : loops ⊆ loops') :
    s.LoopAround loops' t := by
  obtain ⟨loop, hloop, hboth⟩ := h
  exact ⟨loop, hsubset hloop, hboth⟩

/-- What is read before a step is read before the end of the code around it. -/
theorem Within.prefix_append (h : s.Within start actions) : s.before <+: start ++ actions := by
  obtain ⟨read, hbefore, hread⟩ := h
  rw [hbefore]
  exact List.prefix_append_right_inj start |>.mpr hread

/-- The code around a step begins before it. -/
theorem Within.isPrefix_before (h : s.Within start actions) : start <+: s.before := by
  obtain ⟨read, hbefore, -⟩ := h
  rw [hbefore]
  exact List.prefix_append start read

/-- A step within a flow is met inside it. -/
theorem Within.inside (h : s.Within start flow.actions) (hready : w.Ready shape)
    (hat : At start w) (hp : At s.before p) : w.Inside p := by
  obtain ⟨read, hbefore, rest, hrest⟩ := h
  obtain ⟨limits, hrun⟩ := hp
  rw [hbefore] at hrun
  obtain ⟨w₁, hstart, hread⟩ := run_append_eq_ok.mp hrun
  rw [hat.unique ⟨limits, hstart⟩] at hready ⊢
  exact Flow.inside_of_run hready hrest.symm hread

theorem Together.symm {z : Walk} (h : s.Together z t) : t.Together z s := by
  intro q p hq hp c hc hseparates
  exact h p q hp hq c hc hseparates.symm

end Step

namespace Walk.ReadsAll

variable {limits : Limits} {all : List Action} {z u : Walk} {s t : Step} (h : ReadsAll limits all z)
include h

theorem together_self (s : Step) : s.Together z s := by
  intro p q hp hq c hc hseparates
  rw [hp.unique hq] at hseparates
  have hwf : z.scopes.WellFormed := by
    have hsound : ({} : Walk).Sound limits (all ++ []) := by
      rw [List.append_nil]
      exact h.sound
    exact (hsound.drop h.run).wellFormed.tree
  exact hwf.not_exclusive (z.scopes.self_mem_ancestors _) ⟨c, hc, hseparates⟩

/-- Two steps with a place between them where code begins, in a scope that is open at both. -/
theorem together {middle : List Action} (hu : At middle u) (hready : u.Ready .code)
    (hs : s.before <+: middle) (ht : middle <+: t.before) (hall : t.before <+: all)
    (hopen : ∀ p, At s.before p → u.scopes.stack <:+ p.scopes.stack)
    (hopen' : ∀ q, At t.before q → u.scopes.stack <:+ q.scopes.stack) : s.Together z t := by
  intro p q hp hq c hc
  obtain ⟨first, hfirst⟩ := hs
  obtain ⟨second, hsecond⟩ := ht
  obtain ⟨third, hthird⟩ := hall
  -- the three states lie on the run
  have heq : s.before ++ (first ++ (second ++ third)) = all := by
    rw [← hthird, ← hsecond, ← hfirst]
    simp only [List.append_assoc]
  have hrun := h.run
  have hsound := h.sound
  have halong := h.along
  rw [← heq] at hrun hsound halong
  obtain ⟨p', hp', hrun⟩ := run_append_eq_ok.mp hrun
  obtain ⟨u', hu', hrun⟩ := run_append_eq_ok.mp hrun
  obtain ⟨q', hq', hrun⟩ := run_append_eq_ok.mp hrun
  have hmiddle : At middle u' := ⟨limits, hfirst ▸ run_then hp' hu'⟩
  obtain rfl : p = p' := hp.unique ⟨limits, hp'⟩
  obtain rfl : u = u' := hu.unique hmiddle
  obtain rfl : q = q' := by
    refine hq.unique ⟨limits, ?_⟩
    rw [← hsecond, ← hfirst]
    exact run_then (run_then hp' hu') hq'
  exact not_separates_of_between (hsound.drop hp') (halong.drop hp') hu' hq' hrun hready
    (hopen p hp) (hopen' q hq) hc

/-- Steps in two pieces of code of which the second is read after the first one, in the same scope
or in one inside it. -/
theorem together_of_within {shape : Shape} {first : Flow .code} {second : Flow shape}
    {start start' : List Action} {w x : Walk} (hfirst : first.Walks limits w u)
    (hat : Walk.run limits {} start = .ok w) (hready : x.Ready shape)
    (hat' : Walk.run limits {} start' = .ok x) (hstart : start ++ first.actions <+: start')
    (hopen : u.scopes.stack <:+ x.scopes.stack) (hall : start' ++ second.actions <+: all)
    (hs : s.Within start first.actions) (ht : t.Within start' second.actions) : s.Together z t := by
  refine h.together ⟨limits, run_then hat hfirst.run⟩ hfirst.ready' hs.prefix_append
    (hstart.trans ht.isPrefix_before) (ht.prefix_append.trans hall) (fun p hp => ?_) fun q hq => ?_
  · rw [hfirst.balanced.stack]
    exact (hs.inside hfirst.ready ⟨limits, hat⟩ hp).stack
  · exact hopen.trans (ht.inside hready ⟨limits, hat'⟩ hq).stack

end Walk.ReadsAll

namespace Flow.Runs

open Walk

variable {limits : Limits} {all : List Action} {z : Walk} {shape : Shape} {flow : Flow shape}
  {before : List Action} {trace : List Step} {outcome : Outcome} {w w' : Walk}

section Conditional

variable (before : List Action) (take : Bool) (head : Flow .code) (names : List String)
  (hasElse : Bool) (span : Span) (consequence : Flow .code) (alternative : Flow .arms)

/-- What an `if` evaluates before the choice is read before its consequence. -/
theorem isPrefix_head : before ++ [.holdGuards take] ++ head.actions <+:
    before ++ toConsequence take head names hasElse span :=
  ⟨[.openGuard names, .openConstruct .conditional hasElse span, .enterArm .ifBranch],
    by simp [toConsequence]⟩

/-- What an `if` evaluates before the choice is read before its alternative, too. -/
theorem isPrefix_head' : before ++ [.holdGuards take] ++ head.actions <+:
    before ++ toAlternative take head names hasElse span consequence := by
  refine (isPrefix_head before take head names hasElse span).trans ?_
  exact ⟨consequence.actions ++ [.leave, .closeGuard], by simp [toAlternative]⟩

/-- The consequence is read in the `if`. -/
theorem isPrefix_consequence :
    before ++ toConsequence take head names hasElse span ++ consequence.actions <+:
      before ++ (conditional take head names hasElse span consequence alternative).actions :=
  ⟨.leave :: .closeGuard :: alternative.actions ++ [.closeConstruct],
    by simp [actions, toConsequence]⟩

theorem isPrefix_alternative :
    before ++ toAlternative take head names hasElse span consequence ++ alternative.actions <+:
      before ++ (conditional take head names hasElse span consequence alternative).actions :=
  ⟨[.closeConstruct], by simp [actions, toAlternative, toConsequence]⟩

end Conditional

/-- Any two steps of a path are together, or a loop is around both. -/
theorem pairwise_together (h : flow.Runs before trace outcome) (hall : ReadsAll limits all z)
    (hwalks : flow.Walks limits w w') (hat : Walk.run limits {} before = .ok w)
    (hbegins : before ++ flow.actions <+: all) :
    trace.Pairwise fun s t => s.LoopAround (flow.loops before) t ∨ s.Together z t := by
  -- a part of the code has fewer loops
  have hpart : ∀ {trace : List Step} {loops loops' : List (List Action × List Action)},
      trace.Pairwise (fun s t => s.LoopAround loops t ∨ s.Together z t) → loops ⊆ loops' →
      trace.Pairwise fun s t => s.LoopAround loops' t ∨ s.Together z t :=
    fun h hsubset => h.imp fun h => h.imp_left fun h => h.mono hsubset
  -- a loop is around all steps in it
  have hloop : ∀ {before : List Action} {head body : Flow .code} {trace : List Step}
      {outcome : Outcome}, (Flow.loop head body).Runs before trace outcome →
      trace.Pairwise fun s t =>
        s.LoopAround ((Flow.loop head body).loops before) t ∨ s.Together z t := by
    intro before head body trace outcome h
    refine List.pairwise_of_forall_mem_list fun s hs t ht => Or.inl ?_
    exact ⟨_, List.mem_cons_self, h.within s hs, h.within t ht⟩
  induction h generalizing w w' with
  | skip | literal | noClause => exact .nil
  | act _ | exit _ => exact List.pairwise_singleton _ _
  | @seq before first second trace trace' outcome hruns hruns' ih ih' =>
    cases hwalks with
    | seq hfirst hsecond =>
      have hmiddle := run_then hat hfirst.run
      rw [actions, ← List.append_assoc] at hbegins
      refine List.pairwise_append.mpr
        ⟨hpart (ih hfirst hat (.trans (List.prefix_append _ _) hbegins)) (by simp [loops]),
          hpart (ih' hsecond hmiddle hbegins) (by simp [loops]), fun s hs t ht => Or.inr ?_⟩
      exact hall.together_of_within hfirst hat hsecond.ready hmiddle List.prefix_rfl
        List.suffix_rfl hbegins (hruns.within s hs) (hruns'.within t ht)
  | @seqStop before first second trace _ ih =>
    cases hwalks with
    | seq hfirst _ =>
      exact hpart (ih hfirst hat (.trans ⟨second.actions, by simp [actions]⟩ hbegins))
        (by simp [loops])
  | block _ ih =>
    cases hwalks with
    | block hopen hbody _ =>
      exact hpart (ih hbody (run_then hat (run_single hopen.exec))
        (.trans ⟨[.leave], by simp [actions]⟩ hbegins)) (by simp [loops])
  | loopHead hhead _ => exact hloop (.loopHead hhead)
  | loopDone hhead _ => exact hloop (.loopDone hhead)
  | loopStop hhead hbody _ _ => exact hloop (.loopStop hhead hbody)
  | loopAgain hhead hbody hagain _ _ _ => exact hloop (.loopAgain hhead hbody hagain)
  | @conditionalHead before take head names hasElse span consequence alternative trace _ ih
  | @noBranch before take head names span consequence alternative trace _ ih =>
    cases hwalks with
    | conditional hhold hhead _ _ _ _ _ _ _ _ =>
      have hthen' := (isPrefix_consequence before take head names _ span consequence
        alternative).trans hbegins
      have hhead' := (isPrefix_head before take head names _ span).trans
        ((List.prefix_append _ _).trans hthen')
      exact hpart (ih hhead (run_then hat (run_single hhold.exec)) hhead') (by simp [loops])
  | @consequence before take head names hasElse span consequence alternative trace trace' outcome
      hruns hruns' ih ih' =>
    cases hwalks with
    | conditional hhold hhead hguard hconstruct harm hthen _ _ _ _ =>
      have hlead := run_then hat
        (run_toConsequence hhold.exec hhead hguard.exec hconstruct.exec harm.exec)
      have hheld := run_then hat (run_single hhold.exec)
      have hstart := isPrefix_head before take head names hasElse span
      have hthen' := (isPrefix_consequence before take head names hasElse span consequence
        alternative).trans hbegins
      have hhead' := hstart.trans ((List.prefix_append _ _).trans hthen')
      refine List.pairwise_append.mpr ⟨hpart (ih hhead hheld hhead') (by simp [loops]),
        hpart (ih' hthen hlead hthen') (by simp [loops]), fun s hs t ht => Or.inr ?_⟩
      refine hall.together_of_within hhead hheld hthen.ready hlead hstart ?_ hthen'
        (hruns.within s hs) (hruns'.within t ht)
      rw [(exec_enterArm harm.exec).tree.stack]
      cases hguard.exec
      cases hconstruct.exec
      exact List.suffix_cons _ _
  | @alternative before take head names hasElse span consequence alternative trace trace' outcome
      hruns hruns' ih ih' =>
    cases hwalks with
    | conditional hhold hhead hguard hconstruct harm hthen hleave hunguard helse _ =>
      have hlead := run_then hat (run_toAlternative
        (run_toConsequence hhold.exec hhead hguard.exec hconstruct.exec harm.exec) hthen
        hleave.exec hunguard.exec)
      have hheld := run_then hat (run_single hhold.exec)
      have hstart := isPrefix_head' before take head names hasElse span consequence
      have helse' := (isPrefix_alternative before take head names hasElse span consequence
        alternative).trans hbegins
      have hhead' := hstart.trans ((List.prefix_append _ _).trans helse')
      refine List.pairwise_append.mpr ⟨hpart (ih hhead hheld hhead') (by simp [loops]),
        hpart (ih' helse hlead helse') (by simp [loops]), fun s hs t ht => Or.inr ?_⟩
      refine hall.together_of_within hhead hheld helse.ready hlead hstart ?_ helse'
        (hruns.within s hs) (hruns'.within t ht)
      have hstack := (Balanced.of_leave (exec_enterArm harm.exec) hthen.balanced hleave.exec).stack
      cases hguard.exec
      cases hconstruct.exec
      cases hunguard.exec
      exact hstack ▸ List.suffix_rfl
  | @clauses _ kind hasDefault span _ _ _ _ ih =>
    cases hwalks with
    | clauses hopen harms _ =>
      exact hpart (ih harms (run_then hat (run_single hopen.exec))
        (.trans ⟨[.closeConstruct], by simp [actions]⟩ hbegins)) (by simp [loops])
  | arguments _ ih =>
    cases hwalks with
    | arguments hopen hargs _ =>
      exact hpart (ih hargs (run_then hat (run_single hopen.exec))
        (.trans ⟨[.closeArgs], by simp [actions]⟩ hbegins)) (by simp [loops])
  | launched _ ih =>
    cases hwalks with
    | launched hopen hcall hfunc _ =>
      exact hpart (ih hfunc (run_then hat (run_cons_eq_ok.mpr ⟨_, hopen.exec, hcall⟩))
        (.trans ⟨[.closeBody], by simp [actions]⟩ hbegins)) (by simp [loops])
  | @deferral before calls deferred evaluated trace _ hruns ih =>
    have hready := hwalks.ready
    cases hwalks with
    | deferral hdefer hcalls hevaluated =>
      have hlead := run_then hat (run_cons_eq_ok.mpr ⟨_, hdefer.exec, hcalls⟩)
      have hinner := fun a ha => Action.isInner_of_isDeferCall (deferred a ha)
      have hbalanced := (Balanced.of_edits (hdefer.edits rfl)).trans
        (Traverses.of_run hinner hdefer.ready' hcalls).balanced
      have hbegins' : before ++ .addDefer :: calls ++ evaluated.actions <+: all :=
        .trans ⟨[], by simp [actions]⟩ hbegins
      refine List.pairwise_cons.mpr ⟨fun t ht => Or.inr ?_,
        hpart (ih hevaluated hlead hbegins') (by simp [loops])⟩
      exact hall.together_of_within (.skip hready) hat hevaluated.ready hlead (by simp [actions])
        (hbalanced.stack ▸ List.suffix_rfl) hbegins' (.here _ rfl) (hruns.within t ht)
  | @deferredLiteral before evaluated body trace _ hruns ih =>
    have hready := hwalks.ready
    cases hwalks with
    | deferredLiteral hdefer hevaluated _ _ _ =>
      have hlead := run_then hat (run_single hdefer.exec)
      have hbalanced := Balanced.of_edits (hdefer.edits rfl)
      have hbegins' : before ++ [.addDefer] ++ evaluated.actions <+: all :=
        .trans ⟨.openBody .deferred :: body.actions ++ [.closeBody], by simp [actions]⟩ hbegins
      refine List.pairwise_cons.mpr ⟨fun t ht => Or.inr ?_,
        hpart (ih hevaluated hlead hbegins') (by simp [loops])⟩
      exact hall.together_of_within (.skip hready) hat hevaluated.ready hlead (by simp [actions])
        (hbalanced.stack ▸ List.suffix_rfl) hbegins' (.here _ rfl) (hruns.within t ht)
  | @armHere before kind isArm body rest trace _ _ ih =>
    cases hwalks with
    | arm hopen hbody _ _ =>
      exact hpart (ih hbody (run_then hat (run_single hopen.exec))
        (.trans ⟨.leave :: rest.actions, by simp [actions]⟩ hbegins)) (by simp [loops])
  | @armLater before kind isArm body rest trace _ _ ih =>
    cases hwalks with
    | arm hopen hbody hclose hrest =>
      have hlead := run_append_eq_ok.mpr ⟨_, run_cons_eq_ok.mpr ⟨_, hopen.exec, hbody.run⟩,
        run_single hclose.exec⟩
      exact hpart (ih hrest (run_then hat hlead) (.trans ⟨[], by simp [actions]⟩ hbegins))
        (by simp [loops])

end Flow.Runs

namespace FunctionUnit

open Walk

variable {limits : Limits} {names : Recognizers} {unit : FunctionUnit} {z : Walk}
  (hrun : Walk.run limits {} (unit.actions names) = .ok z)
include hrun

theorem readsAll_of_run : ∃ limits', ReadsAll limits' (unit.actions names) z := by
  obtain ⟨limits', hle, halong⟩ := unit.prepared limits names
  exact ⟨limits', run_mono hle hrun, unit.sound_actions limits' names, halong⟩

/-- An execution of a function never runs code in two arms of one branching statement, unless a loop
is around both. -/
theorem not_separates {trace : List Step} {outcome : Outcome} {s t : Step} {p q : Walk}
    {c : Construct} (hruns : (unit.flow names).Runs [] trace outcome) (hs : s ∈ trace)
    (ht : t ∈ trace) (hloop : ¬ s.LoopAround ((unit.flow names).loops []) t) (hp : At s.before p)
    (hq : At t.before q) (hc : c ∈ z.scopes.constructs) :
    ¬ c.Separates z.scopes p.scopes.current q.scopes.current := by
  obtain ⟨limits', hall⟩ := readsAll_of_run hrun
  have hwalks := (unit.flow names).walks_of_run .init (by rw [flow_actions]; exact hall.run)
  have hpairs := hruns.pairwise_together hall hwalks rfl
    (by rw [flow_actions]; exact List.prefix_rfl)
  let R : Step → Step → Prop := fun s t =>
    s.LoopAround ((unit.flow names).loops []) t ∨ s.Together z t
  have hsymm : Std.Symm R := by
    refine ⟨fun s t h => h.imp (fun h => ?_) fun h => h.symm⟩
    obtain ⟨loop, hmem, hboth, hboth'⟩ := h
    exact ⟨loop, hmem, hboth', hboth⟩
  have hself : ∀ s ∈ trace, R s s := fun s _ => Or.inr (hall.together_self s)
  exact (List.Pairwise.forall_of_forall hself hpairs hs ht).resolve_left hloop p q hp hq c hc

end FunctionUnit

end TxLifecycle
