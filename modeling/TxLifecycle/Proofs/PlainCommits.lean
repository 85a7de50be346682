import TxLifecycle.Proofs.Arena
import TxLifecycle.Proofs.Inside
import TxLifecycle.Proofs.Judgement

/-!
# Commits that stand in plain code

A commit outside function literals and loops stands in blocks and branches only. If each of those
branches is one of a statement whose branches all finalize the transaction, then coverage goes from
the scope of the commit outwards.

* `Walk.SeesLiterals`: the surroundings of the code know whether it stands in a function literal;
* `ScopeTree.Sorted`: a scope that is no branch is a block, a loop body or the body of a literal;
* `Binding.finalizes_of_path`: coverage goes out to a scope that is reached through neither a loop
  nor a literal, nor through a branch of a statement that can be passed without finalizing.
-/

namespace TxLifecycle

namespace Walk

variable {limits : Limits} {w u v w' : Walk} {action : Action}

/-! ## Open function literals -/

/-- The surroundings of the code know of a function literal, counted or deferred, exactly where one
is open. -/
def SeesLiterals (w : Walk) : Prop :=
  w.scopes.inClosure = (decide (0 < w.context.closureDepth) || w.context.deferScope.isSome)

/-- What the code guarantees where an action runs: function literals are seen, and a scope that is
no branch and no body of a literal is a block or the body of a loop. -/
def Charted (w : Walk) (action : Action) : Prop :=
  w.SeesLiterals ∧ ∀ kind, action = .enter kind → kind = .block ∨ kind = .loopBody

namespace SeesLiterals

/-- The same scopes are open in the same surroundings. -/
theorem of_same (h : w.SeesLiterals) (hdepth : u.context.closureDepth = w.context.closureDepth)
    (hdefer : u.context.deferScope = w.context.deferScope)
    (hstack : u.scopes.stack = w.scopes.stack)
    (hkind : ∀ scope ∈ w.scopes.stack, u.scopes.kind? scope = w.scopes.kind? scope) :
    u.SeesLiterals := by
  rw [SeesLiterals, hdepth, hdefer, ← h, ScopeTree.inClosure, hstack]
  exact any_eq_of_mem fun scope hscope => by rw [hkind scope hscope]

/-- A scope that is no body of a literal opens. -/
theorem opens {kind : ScopeKind} {arm? : Option ConstructId} (h : w.SeesLiterals)
    (hwf : w.WellFormed) (hopens : w.Opens kind arm? w.context w.outer u)
    (hkind : kind.isClosure = false) : u.SeesLiterals := by
  rw [SeesLiterals, hopens.context_eq, ← h, ScopeTree.inClosure, hopens.tree.stack, List.any_cons,
    hopens.tree.kind?_fresh, Option.any_some, hkind, Bool.false_or]
  exact any_eq_of_mem fun scope hscope => by
    rw [hopens.tree.kind?_old (hwf.tree.stack_lt hscope)]

/-- In a function literal the surroundings know of it. -/
theorem of_openBody {kind : BodyKind} (hexec : w.exec limits (.openBody kind) = .ok u) :
    u.SeesLiterals := by
  have hopens := exec_openBody hexec
  rw [SeesLiterals, hopens.context_eq, ScopeTree.inClosure, hopens.tree.stack, List.any_cons,
    hopens.tree.kind?_fresh]
  cases kind <;> simp [BodyKind.scopeKind, ScopeKind.isClosure, Context.enterBody]

end SeesLiterals

theorem nested_seesLiterals (limits : Limits) : Nested limits SeesLiterals where
  same := fun h hwf hextends hstack hcontext =>
    h.of_same (by rw [hcontext]) (by rw [hcontext]) hstack fun _ hscope =>
      hextends.kind? (hwf.tree.stack_lt hscope)
  openGuard := fun _ h => h
  opens := fun h hwf hkind hopens => h.opens hwf hopens hkind
  openBody := fun _ _ hexec => .of_openBody hexec

end Walk

/-- Apart from branches and the bodies of literals, code opens blocks and the bodies of loops. -/
theorem Flow.kind_of_enter {shape : Shape} {kind : ScopeKind} (flow : Flow shape)
    (h : .enter kind ∈ flow.actions) : kind = .block ∨ kind = .loopBody := by
  induction flow with
  | act action plain =>
    obtain rfl := List.mem_singleton.mp h
    cases plain
  | launched span call finalizes func ih =>
    have hcall : .enter kind ∉ call := fun hmem => by cases finalizes _ hmem
    simp_all [actions]
  | deferral calls deferred evaluated ih =>
    have hcalls : .enter kind ∉ calls := fun hmem => by cases deferred _ hmem
    simp_all [actions]
  | _ => grind [actions]

/-- Reading code sees every function literal. -/
theorem Flow.Walks.charted {limits : Limits} {shape : Shape} {flow : Flow shape} {w w' : Walk}
    (h : flow.Walks limits w w') (hw : w.SeesLiterals) :
    w.Along limits Walk.Charted flow.actions :=
  (h.traverses.nested (Walk.nested_seesLiterals limits) hw).imp_mem fun hmem hsees =>
    ⟨hsees, fun _ heq => flow.kind_of_enter (heq ▸ hmem)⟩

/-! ## What surrounds a commit -/

/-- A scope other than the function's own one that is no branch is a block, a loop body or the body
of a literal. -/
def ScopeTree.Sorted (tree : ScopeTree) : Prop :=
  ∀ (scope : Nat) (s : Scope), tree.get? scope = some s → scope ≠ ScopeTree.root →
    s.armOf = none → s.kind = .block ∨ s.kind = .loopBody ∨ s.kind.isClosure = true

namespace Walk

variable {limits : Limits} {w u : Walk} {action : Action}

/-- Opening a scope keeps the scopes sorted. -/
theorem sorted_of_opens {kind : ScopeKind} {arm? : Option ConstructId} {tree tree' : ScopeTree}
    (h : tree.Sorted) (hopens : tree.Opens kind arm? tree') (hadds : tree.Adds kind arm? tree')
    (hkind : arm? = none → kind = .block ∨ kind = .loopBody ∨ kind.isClosure = true) :
    tree'.Sorted := by
  intro scope s hget hne hnone
  rcases Nat.lt_trichotomy scope tree.scopes.length with hlt | rfl | hgt
  · -- an old scope is still of the same kind
    rw [hopens.old hlt] at hget
    obtain ⟨t, ht, rfl⟩ := Option.map_eq_some_iff.mp hget
    split at hnone
    · rw [if_pos ‹_›]
      exact h scope t ht hne hnone
    · rw [if_neg ‹_›]
      exact h scope t ht hne hnone
  · obtain ⟨outer, -, hfresh⟩ := hadds
    rw [hfresh, Option.some.injEq] at hget
    subst hget
    exact hkind hnone
  · rw [ScopeTree.get?, List.getElem?_eq_none (hopens.length ▸ hgt)] at hget
    cases hget

/-- Every action keeps the scopes sorted. -/
theorem exec_sorted (h : w.scopes.Sorted) (hindexed : w.Indexed) (hcharted : w.Charted action)
    (hexec : w.exec limits action = .ok u) : u.scopes.Sorted := by
  have hsame : u.scopes.scopes = w.scopes.scopes → u.scopes.Sorted := by
    intro hscopes scope s hget
    rw [ScopeTree.get?, hscopes] at hget
    exact h scope s hget
  cases action with
  | enter kind =>
    refine sorted_of_opens h (exec_enter hexec).tree (exec_enter_adds hexec) fun _ => ?_
    exact (hcharted.2 kind rfl).imp_right Or.inl
  | openBody kind =>
    refine sorted_of_opens h (exec_openBody hexec).tree (exec_openBody_adds hexec) fun _ => ?_
    cases kind <;> exact Or.inr (Or.inr rfl)
  | enterArm kind =>
    exact sorted_of_opens h (exec_enterArm hexec).tree (exec_enterArm_adds hexec) (by simp)
  | leave => exact hsame (closes_of_leave hexec).scopes
  | closeBody => exact hsame (exec_closeBody hexec).scopes
  | closeConstruct | openGuard _ | closeGuard | openConstruct _ _ _ =>
    cases hexec
    exact hsame rfl
  | _ =>
    -- what an action notes in a scope is neither its kind nor the construct of which it is an arm
    intro scope s hget hne hnone
    have hkept := (exec_edits hindexed rfl hexec).map_get? (f := fun s => (s.kind, s.armOf))
      (fun _ _ => rfl) scope
    rw [hget] at hkept
    obtain ⟨t, ht, heq⟩ := Option.map_eq_some_iff.mp hkept.symm
    obtain ⟨hkind, harm⟩ := Prod.mk.inj heq
    rw [← hkind]
    exact h scope t ht hne (harm.trans hnone)

end Walk

namespace FunctionUnit

open Walk

variable {limits : Limits} {names : Recognizers} {unit : FunctionUnit} {w : Walk}

/-- When a function has been read, its scopes are sorted. -/
theorem sorted_of_walk (hwalk : unit.walk limits names = .ok w) : w.scopes.Sorted := by
  have hwalks := walks_of_walk hwalk
  have halong := hwalks.charted rfl
  have hsound := unit.sound_actions limits names
  have hrun := hwalks.run
  rw [flow_actions] at halong hrun
  rw [← List.append_nil (unit.actions names)] at halong hsound
  refine halong.preserves (Q := fun u => u.scopes.Sorted) hsound hrun ?_ ?_
  · intro u v action hwf _ hcharted hexec hsorted
    exact exec_sorted hsorted hwf.indexed hcharted hexec
  · intro scope s hget hne
    exact absurd (Nat.lt_one_iff.mp (List.getElem?_eq_some_iff.mp hget).1) hne

end FunctionUnit

/-! ## Coverage outwards -/

namespace Binding

variable {b : Binding} {tree : ScopeTree} {scope outer : Nat}

/-- Coverage of a block or of an arm of a covered construct is coverage of the scope around it. -/
theorem finalizes_parent (hwf : tree.WellFormed) (harena : tree.Arena) (hsorted : tree.Sorted)
    (hparent : tree.parent? scope = some outer) (hfinalizes : b.finalizes tree scope = true)
    (hkind : ∀ kind, tree.kind? scope = some kind → kind ≠ .loopBody ∧ kind.isClosure = false)
    (hcovered : ∀ id c, (tree.get? scope).bind (·.armOf) = some id → tree.construct? id = some c →
      b.coveredBy tree c = true) : b.finalizes tree outer = true := by
  obtain ⟨s, hs⟩ : ∃ s, tree.get? scope = some s :=
    ⟨_, List.getElem?_eq_getElem (ScopeTree.lt_of_parent? hparent)⟩
  have hlt : outer < tree.scopes.length :=
    Nat.lt_trans (harena.parent hparent) (ScopeTree.lt_of_parent? hparent)
  obtain ⟨t, ht⟩ : ∃ t, tree.get? outer = some t := ⟨_, List.getElem?_eq_getElem hlt⟩
  rw [hwf.ordered.finalizes_eq, ht]
  simp only [Bool.or_eq_true, List.any_eq_true, Bool.and_eq_true]
  right
  cases harm : s.armOf with
  | none =>
    -- the scope is a block
    left
    have hne : scope ≠ ScopeTree.root := by
      rintro rfl
      rw [(harena.root harena.nonempty).mpr rfl] at hparent
      cases hparent
    have hchild := harena.children.mpr hparent
    rw [ScopeTree.childrenOf, ht] at hchild
    have hscope : tree.kind? scope = some s.kind := by rw [ScopeTree.kind?, hs]; rfl
    obtain ⟨hloop, hclosure⟩ := hkind _ hscope
    refine ⟨scope, hchild, ?_, hfinalizes⟩
    rcases hsorted scope s hs hne harm with hblock | hbody | hbody
    · rw [hscope, hblock]
      rfl
    · exact absurd hbody hloop
    · rw [hclosure] at hbody
      cases hbody
  | some id =>
    right
    obtain ⟨c, hc, hmem⟩ := (harena.arm hs).mp harm
    obtain ⟨howner, -⟩ := harena.owner hc hmem
    rw [hparent, Option.some.injEq] at howner
    have hall := hcovered id c (by rw [hs]; exact harm) hc
    rw [coveredBy, Bool.and_eq_true] at hall
    refine ⟨c, List.mem_filter.mpr ⟨List.mem_of_getElem? hc, ?_⟩, ⟨hall.1, ?_⟩, hall.2⟩
    · rw [howner]
      exact beq_self_eq_true _
    · cases harms : c.arms with
      | nil =>
        rw [harms] at hmem
        cases hmem
      | cons _ _ => rfl

/-- Where every construct between a covered scope and one around it is covered, that one is. -/
theorem finalizes_of_path {stop : ScopeId} (hwf : tree.WellFormed) (harena : tree.Arena)
    (hsorted : tree.Sorted) (hstop : stop ∈ tree.ancestors scope)
    (hfinalizes : b.finalizes tree scope = true)
    (hkind : ∀ a ∈ tree.pathBelow scope stop, ∀ kind, tree.kind? a = some kind →
      kind ≠ .loopBody ∧ kind.isClosure = false)
    (hcovered : ∀ a ∈ tree.pathBelow scope stop, ∀ id c,
      (tree.get? a).bind (·.armOf) = some id → tree.construct? id = some c →
      b.coveredBy tree c = true) : b.finalizes tree stop = true := by
  induction scope using Nat.strongRecOn with
  | ind scope ih =>
    by_cases heq : stop = scope
    · rwa [heq]
    cases hparent : tree.parent? scope with
    | none =>
      rw [hwf.ancestors_of_root hparent] at hstop
      exact absurd (List.mem_singleton.mp hstop) heq
    | some outer =>
      rw [hwf.pathBelow_of_parent hparent heq] at hkind hcovered
      rw [hwf.ancestors_of_parent hparent] at hstop
      have houter := finalizes_parent hwf harena hsorted hparent hfinalizes
        (hkind scope List.mem_cons_self) (hcovered scope List.mem_cons_self)
      exact ih outer (harena.parent hparent) ((List.mem_cons.mp hstop).resolve_left heq) houter
        (fun a ha => hkind a (List.mem_cons_of_mem _ ha))
        fun a ha => hcovered a (List.mem_cons_of_mem _ ha)

/-- Where no commit in a loop is reported, one of the commits stands outside such loops. -/
theorem exists_not_crossesLoop (hloop : b.commitInLoop tree = none)
    (hcommits : b.directCommits ≠ []) :
    ∃ event ∈ b.directCommits, b.crossesLoop tree event = false := by
  rw [commitInLoop] at hloop
  split at hloop
  · rename_i hfind
    obtain ⟨event, hevent⟩ := List.exists_mem_of_ne_nil _ hcommits
    exact ⟨event, hevent, by simpa using List.find?_eq_none.mp hfind event hevent⟩
  · dsimp only at hloop
    split at hloop
    · rename_i hafter
      obtain ⟨event, hevent, hboth⟩ := List.any_eq_true.mp hafter
      exact ⟨event, hevent, by simpa using (Bool.and_eq_true_iff.mp hboth).2⟩
    · cases hloop

/-- Where no commit on some arms only is reported, every construct around a commit is covered. -/
theorem coveredBy_of_branchCommit (hbranch : b.branchCommit tree = none)
    (hopen : b.finalizes tree b.acquiredIn = false) {event : Event}
    (hevent : event ∈ b.directCommits)
    {a : ScopeId} (ha : a ∈ tree.pathBelow event.scope b.acquiredIn) {id : ConstructId}
    {c : Construct} (harm : (tree.get? a).bind (·.armOf) = some id)
    (hc : tree.construct? id = some c) : b.coveredBy tree c = true := by
  rw [branchCommit, hopen, if_neg Bool.false_ne_true, List.findSome?_eq_none_iff] at hbranch
  have hnone := Option.map_eq_none_iff.mp (hbranch event hevent)
  rw [uncoveredAround, List.find?_eq_none] at hnone
  have hmem : c ∈ ((tree.pathBelow event.scope b.acquiredIn).filterMap fun id =>
      (tree.get? id).bind (·.armOf)).filterMap tree.construct? :=
    List.mem_filterMap.mpr ⟨id, List.mem_filterMap.mpr ⟨a, ha, harm⟩, hc⟩
  simpa using hnone c hmem

end Binding

namespace FunctionUnit

variable {limits : Limits} {names : Recognizers} {unit : FunctionUnit} {w : Walk} {b : Binding}

/-- The function's own scope is of its own kind. -/
theorem kind?_root (hwalk : unit.walk limits names = .ok w) :
    w.scopes.kind? ScopeTree.root = some .function :=
  (walks_of_walk hwalk).grows.kind? Nat.one_pos

end FunctionUnit

end TxLifecycle
