import TxLifecycle.Proofs.LiteralBodies
import TxLifecycle.Proofs.Reacquisition

/-!
# Commits that no check complains about

Two checks look at the commits of a transaction: one for commits in loops, one for commits on some
branches only. A transaction that is committed, and about which neither of them complains, is
finalized on every path through the scope that has acquired it.

* `Walk.DirectsPlaced`: a commit or rollback that runs where it is written stands inside the scope
  of its variable, and knows how many loops are around it;
* `FunctionUnit.finalizes_home`: where the two checks are silent, coverage goes from a commit out to
  the scope of the variable, if that is the acquiring one;
* `FunctionUnit.AcquiresByDeclaration`: a binding is acquired by a declaration. Its variable then is
  one of the acquiring scope, and remains so.

The main statement is `FunctionUnit.unreported_finalizes`.
-/

namespace TxLifecycle

/-! ## Where commits stand -/

namespace Walk

variable {limits : Limits} {w u : Walk} {action : Action}

/-- A commit or rollback that runs where it is written is recorded with the loop depth of the
current scope. -/
theorem record_of_finalize {name : String} {commit : Bool} {id : BindingId}
    (hresolve : w.resolve name = some id) (hdefer : w.context.deferScope = none)
    (hexec : w.exec limits (.finalize name commit) = .ok u) :
    ∃ (s : Scope) (event : Event), w.scopes.get? w.scopes.current = some s ∧
      event.loopDepth = s.loopDepth ∧ u = w.modifyBinding id (·.record event) := by
  simp only [exec, finalize, hresolve, hdefer, recordAt, ScopeTree.get] at hexec
  cases hs : w.scopes.get? w.scopes.current with
  | none => simp [hs] at hexec
  | some s =>
    simp only [hs, Except.ok.injEq] at hexec
    exact ⟨s, _, rfl, rfl, hexec.symm⟩

/-- A commit or rollback that runs where it is written stands in the scope of its variable or inside
it, and its loop depth counts the loops around it. -/
def DirectsPlaced (w : Walk) : Prop :=
  ∀ {i : Nat} {b : Binding} {event : Event}, w.bindings[i]? = some b → event ∈ b.events →
    event.kind.isDirectFinalization = true →
    b.home ∈ w.scopes.ancestors event.scope ∧
      event.loopDepth =
        (w.scopes.ancestors event.scope).countP (w.scopes.kind? · == some .loopBody)

theorem exec_directsPlaced (h : w.DirectsPlaced) (hwf : w.WellFormed) (harena : w.scopes.Arena)
    (hexec : w.exec limits action = .ok u) : u.DirectsPlaced := by
  intro i b event hget hevent hkind
  have hextends := exec_extends hwf.indexed hexec
  have hrewrites := exec_rewrites hwf.indexed hexec
  -- what is around an event that is there does not change, and neither does its variable
  have hold : ∀ {old : Binding}, w.bindings[i]? = some old → event ∈ old.events →
      b.home ∈ u.scopes.ancestors event.scope ∧ event.loopDepth =
        (u.scopes.ancestors event.scope).countP (u.scopes.kind? · == some .loopBody) := by
    intro old hgetOld heventOld
    obtain ⟨b', hget', hchanges⟩ := hrewrites.old hgetOld
    obtain rfl : b' = b := Option.some.inj (hget'.symm.trans hget)
    have hlt := hwf.events hgetOld heventOld
    have hancestors := hextends.ancestors hwf.tree hlt
    rw [ScopeTree.countP_loopBody hancestors fun a ha =>
      hextends.kind? (Nat.lt_of_le_of_lt (hwf.tree.le_of_mem_ancestors ha) hlt), hancestors,
      hchanges.home_eq]
    exact h hgetOld heventOld hkind
  rcases hrewrites.event_cases hget hevent with ⟨old, hgetOld, heventOld⟩ | hnew
  · exact hold hgetOld heventOld
  · obtain ⟨name, commit, rfl, hresolve, hscope, -, hdefer⟩ := hnew.of_direct hkind
    obtain ⟨old, hgetOld, -, hhome, -⟩ := Indexed.get_of_resolve hwf.indexed hresolve
    obtain ⟨s, recorded, hs, hrecorded, rfl⟩ := record_of_finalize hresolve hdefer hexec
    rw [modifyBinding, List.getElem?_modify_eq, hgetOld] at hget
    obtain rfl := Option.some.inj hget
    rcases List.mem_append.mp hevent with hevent | hevent
    · exact hold hgetOld hevent
    · obtain rfl := List.mem_singleton.mp hevent
      rw [hscope, hrecorded]
      exact ⟨hwf.tree.stack_eq ▸ hhome, harena.loopDepth hs⟩

end Walk

/-! ## Coverage of the acquiring scope -/

namespace FunctionUnit

open Walk

variable {limits : Limits} {names : Recognizers} {unit : FunctionUnit} {w : Walk} {b : Binding}

section

variable (hwalk : unit.walk limits names = .ok w)
include hwalk

/-- When a function has been read, its commits and rollbacks are inside the scopes of their
variables. -/
theorem directsPlaced_of_walk : w.scopes.Arena ∧ w.DirectsPlaced := by
  have hrun := run_of_walk hwalk
  refine invariant_of_run (Q := fun u => u.scopes.Arena ∧ u.DirectsPlaced)
    (List.append_nil _).symm hrun ?_ ⟨.empty, fun hget => by cases hget⟩
  rintro limits u v action hwf hwf' hprepared hexec ⟨harena, hplaced⟩
  exact ⟨exec_arena harena hwf hwf' hprepared hexec, exec_directsPlaced hplaced hwf harena hexec⟩

/-- A transaction that is acquired in the scope of its variable and committed outside function
literals is finalized by that scope, unless the commit stands in a loop or on some branches only. -/
theorem finalizes_home (hb : b ∈ w.bindings) (hhome : b.acquiredIn = b.home)
    (hloop : b.commitInLoop w.scopes = none) (hbranch : b.branchCommit w.scopes = none)
    (hcommits : b.directCommits ≠ []) : b.finalizes w.scopes b.acquiredIn = true := by
  have hwf := wellFormed_of_walk hwalk
  obtain ⟨harena, hplaced⟩ := directsPlaced_of_walk hwalk
  obtain ⟨event, hevent, hcrosses⟩ := Binding.exists_not_crossesLoop hloop hcommits
  obtain ⟨hmem, hdirect⟩ := List.mem_filter.mp hevent
  simp only [Bool.and_eq_true, beq_iff_eq, Bool.not_eq_true'] at hdirect
  obtain ⟨i, hget⟩ := List.mem_iff_getElem?.mp hb
  have hkind : event.kind.isDirectFinalization = true := by rw [hdirect.1]; rfl
  obtain ⟨hinside, hdepth⟩ := hplaced hget hmem hkind
  rw [← hhome] at hinside
  have hsplit := hwf.tree.pathBelow_append hinside
  have hscope : b.finalizes w.scopes event.scope = true := by
    have hin : b.finalizedIn event.scope = true :=
      List.any_eq_true.mpr ⟨event, hmem, by simp [hkind, hdirect.2]⟩
    rw [hwf.tree.ordered.finalizes_eq, hin, Bool.true_or]
  by_contra hopen
  rw [Bool.not_eq_true] at hopen
  -- otherwise the check of branches has looked at every construct around the commit
  refine absurd (Binding.finalizes_of_path hwf.tree harena (sorted_of_walk hwalk) hinside hscope ?_
    fun a ha id c => Binding.coveredBy_of_branchCommit hbranch hopen hevent ha) (by simp [hopen])
  intro a ha kind hscopeKind
  constructor
  · -- a loop between the two scopes would count for the commit and not for the acquiring scope
    rintro rfl
    have hlt := Nat.lt_of_le_of_lt (hwf.tree.le_of_mem_ancestors hinside) (hwf.events hget hmem)
    obtain ⟨s, hs⟩ : ∃ s, w.scopes.get? b.acquiredIn = some s := ⟨_, List.getElem?_eq_getElem hlt⟩
    rw [Binding.crossesLoop, hs, Option.map_some, Option.getD_some, harena.loopDepth hs,
      decide_eq_false_iff_not, hdepth, ← hsplit, List.countP_append] at hcrosses
    have hnone : (w.scopes.pathBelow event.scope b.acquiredIn).countP
        (w.scopes.kind? · == some .loopBody) = 0 := by omega
    simpa [hscopeKind] using List.countP_eq_zero.mp hnone a ha
  · -- around a commit outside function literals there is none
    have haround : a ∈ w.scopes.ancestors event.scope := hsplit ▸ List.mem_append_left _ ha
    have hliteral := (literalsApart_of_walk hwalk).direct ⟨b, hget, hmem⟩ hkind
    rw [hdirect.2] at hliteral
    by_contra hclosure
    refine Bool.false_ne_true (hliteral.mpr ⟨a, haround, ?_⟩)
    rw [hscopeKind]
    cases kind <;> simp_all [ScopeKind.isClosure]

/-- When a function has been read, its table is in order. -/
theorem orderly_of_walk : w.scopes.Orderly w.bindings :=
  ((unit.sound_actions limits names).ages (run_of_walk hwalk) orderly_init).1

/-- A transaction that is acquired in the function's own scope is acquired in the scope of its
variable, since no scope is around that one. -/
theorem finalizes_root (hb : b ∈ w.bindings) (hacquired : b.acquiredIn = ScopeTree.root)
    (hloop : b.commitInLoop w.scopes = none) (hbranch : b.branchCommit w.scopes = none)
    (hcommits : b.directCommits ≠ []) : b.finalizes w.scopes ScopeTree.root = true := by
  have hwf := wellFormed_of_walk hwalk
  obtain ⟨i, hget⟩ := List.mem_iff_getElem?.mp hb
  have hhome := hwf.tree.le_of_mem_ancestors ((orderly_of_walk hwalk).home hget)
  rw [hacquired] at hhome
  rw [← hacquired]
  refine finalizes_home hwalk hb ?_ hloop hbranch hcommits
  rw [hacquired]
  exact (Nat.le_zero.mp hhome).symm

end

/-! ## Declarations -/

/-- The walk of the function gets the binding at this position for a declaration. -/
def AcquiresByDeclaration (limits : Limits) (names : Recognizers) (unit : FunctionUnit)
    (id : BindingId) : Prop :=
  ∃ (w v : Walk) (x : String) (errVar : Option String) (span : Span),
    unit.Reaches limits names w (.acquire x errVar span true) ∧
      w.acquisition x errVar span true = .ok (id, v)

end FunctionUnit

namespace Walk

variable {w : Walk} {x : String} {span : Span} {n : BindingId} {table : List Binding}

/-- A declaration acquires in the scope of the variable. -/
theorem Acquires.acquiredIn_eq (h : w.Acquires x span true n table) (hwf : w.WellFormed)
    (horderly : w.scopes.Orderly w.bindings) :
    ∃ b, table[n]? = some b ∧ b.acquiredIn = b.home := by
  cases h with
  | fresh hhome => exact ⟨_, getElem?_append_new rfl _, (hhome rfl).symm⟩
  | shadow => exact ⟨_, getElem?_append_new (List.length_modify _ _ _) _, rfl⟩
  | replace _ hhome =>
    exact ⟨_, getElem?_append_new (List.length_modify _ _ _) _, (hhome rfl).symm⟩
  | @merge old merged hmeets hhome _ _ hmerged =>
    -- the scope around both is the current one, since the variable is of that scope
    have hinside := horderly.home hmeets.get
    rw [hhome rfl] at hinside
    obtain ⟨-, houter, hinner⟩ :=
      hwf.tree.commonAncestor_spec hinside (w.scopes.self_mem_ancestors w.scopes.current)
    refine ⟨_, by rw [List.getElem?_modify_eq, hmeets.get]; rfl, ?_⟩
    rw [hhome rfl, hmerged]
    exact Nat.le_antisymm (hwf.tree.le_of_mem_ancestors houter)
      (hwf.tree.le_of_mem_ancestors hinner)
  | @reassign old event hmeets hhome _ honstack =>
    have hinside := hwf.tree.le_of_mem_ancestors (horderly.home hmeets.get)
    have houter : old.acquiredIn ∈ w.scopes.stack := by simpa [ScopeTree.isOnStack] using honstack
    rw [hwf.tree.stack_eq] at houter
    refine ⟨_, by rw [List.getElem?_modify_eq, hmeets.get]; rfl, ?_⟩
    refine Nat.le_antisymm ?_ hinside
    exact (hhome rfl).symm ▸ hwf.tree.le_of_mem_ancestors houter

end Walk

/-! ## What is not reported -/

/-- The defects of where commits stand: in a loop, or on some branches only. -/
def ViolationKind.misplacesCommit : ViolationKind → Bool
  | .commitInLoop | .commitInSwitch | .commitInSelect | .conditionalCommit => true
  | _ => false

namespace Binding

variable {b : Binding} {tree : ScopeTree}

/-- Nothing has happened to a binding that would be reported before its commits are looked at. -/
structure Undisturbed (b : Binding) (tree : ScopeTree) : Prop where
  escaped : b.isEscaped = false
  shadowing : b.has .shadowing = false
  reassignment : b.has .reassignment = false
  capture : b.has .goroutineCapture = false
  /-- The function is not aborted while it may be open. -/
  fatalExit : ∀ kind, b.has (.fatalExit kind) = false
  net : b.hasSafetyNet tree = false

/-- A commit on some arms only is such a defect. -/
theorem misplacesCommit_of_branchCommit {found : ViolationKind × Span}
    (h : b.branchCommit tree = some found) : found.1.misplacesCommit = true := by
  rw [branchCommit] at h
  split at h
  · cases h
  · obtain ⟨event, -, hevent⟩ := List.exists_of_findSome?_eq_some h
    obtain ⟨construct, -, rfl⟩ := Option.map_eq_some_iff.mp hevent
    cases construct.kind <;> rfl

/-- Where neither a loop nor a branch is reported, neither check has found anything. -/
theorem Undisturbed.checks_silent (h : b.Undisturbed tree) (hcommit : b.hasCommit = true)
    (hverdict : ∀ kind span, b.verdict tree = some (kind, span) → kind.misplacesCommit = false) :
    b.commitInLoop tree = none ∧ b.branchCommit tree = none := by
  cases hloop : b.commitInLoop tree with
  | some event =>
    have hfound : b.verdict tree = some (.commitInLoop, event.span) := by
      simp [verdict, h.escaped, hcommit, h.shadowing, h.reassignment, h.net, h.capture, h.fatalExit,
        hloop]
    cases hverdict _ _ hfound
  | none =>
    cases hbranch : b.branchCommit tree with
    | none => exact ⟨rfl, rfl⟩
    | some found =>
      have hfound : b.verdict tree = some found := by
        simp [verdict, h.escaped, hcommit, h.shadowing, h.reassignment, h.net, h.capture,
          h.fatalExit, hloop, hbranch]
      have hmisplaced := hverdict _ _ hfound
      rw [misplacesCommit_of_branchCommit hbranch] at hmisplaced
      cases hmisplaced

end Binding

namespace FunctionUnit

open Walk

variable {limits : Limits} {names : Recognizers} {unit : FunctionUnit} {w : Walk} {b : Binding}

/-- A binding that is acquired by a declaration is acquired in the scope of its variable, at the end
of the walk as well. -/
theorem AcquiresByDeclaration.acquiredIn_eq {id : BindingId}
    (h : unit.AcquiresByDeclaration limits names id)
    (hwalk : unit.walk limits names = .ok w) (hget : w.bindings[id]? = some b) :
    b.acquiredIn = b.home := by
  obtain ⟨u, v, x, errVar, span, ⟨before, rest, hactions, hbefore⟩, hacquisition⟩ := h
  have hsound := sound_of_actions limits hactions
  have hrun := run_of_walk hwalk
  rw [hactions] at hrun
  rw [run_append, hbefore] at hrun
  have hafter := hsound.drop hbefore
  have horderly := (hsound.take.ages hbefore orderly_init).1
  obtain ⟨u', hexec, hrest⟩ := run_cons_eq_ok.mp hrun
  -- what the declaration leaves
  obtain ⟨c, hc, hplace⟩ : ∃ c, u'.bindings[id]? = some c ∧ c.acquiredIn = c.home := by
    obtain ⟨n, v', hacquisition', rfl⟩ := exists_acquisition_of_acquire hexec
    rw [hacquisition] at hacquisition'
    cases hacquisition'
    obtain ⟨c, hc, hplace⟩ :=
      (acquires_of_acquisition hafter.wellFormed hacquisition).acquiredIn_eq hafter.wellFormed
        horderly
    rcases bindings_awaitCheck v id errVar with heq | ⟨name, heq⟩
    · exact ⟨c, heq ▸ hc, hplace⟩
    · refine ⟨{ c with errVar := some name }, ?_, hplace⟩
      rw [heq, List.getElem?_modify_eq, hc]
      rfl
  -- from then on the acquiring scope can move outwards only, and it is inside that of the variable
  have hend := hafter.2.2 u' hexec
  have horderly' := exec_orderly hafter.wellFormed horderly hexec
  obtain ⟨b', hget', hages⟩ := (hend.ages hrest horderly').2 hc
  obtain rfl : b' = b := Option.some.inj (hget'.symm.trans hget)
  have houter := hend.wellFormed.tree.le_of_mem_ancestors hages.acquiredIn_mem
  have hinner := (wellFormed_of_walk hwalk).tree.le_of_mem_ancestors
    ((orderly_of_walk hwalk).home hget)
  rw [hplace, ← hages.home_eq] at houter
  exact Nat.le_antisymm houter hinner

/-- **No commit is left uncovered in silence.** A transaction that a declaration has acquired, that
is committed outside function literals and to which nothing has happened that is reported first, is
finalized on every path through its acquiring scope, unless a commit in a loop or on some branches
only is reported. -/
theorem unreported_finalizes (limits : Limits) (names : Recognizers) (unit : FunctionUnit)
    {tracked : Tracked} (htrack : unit.track limits names = .ok tracked) {b : Binding}
    (hb : b ∈ tracked.bindings) (hdeclares : unit.AcquiresByDeclaration limits names b.id)
    (hundisturbed : b.Undisturbed tracked.scopes)
    (hcommit : ∃ event ∈ b.events, event.kind = .directCommit ∧ event.inClosure = false)
    (hverdict : ∀ kind span, b.verdict tracked.scopes = some (kind, span) →
      kind.misplacesCommit = false) : b.finalizes tracked.scopes b.acquiredIn = true := by
  obtain ⟨w, hwalk, rfl⟩ := exists_walk_of_track htrack
  obtain ⟨event, hevent, hkind, hclosure⟩ := hcommit
  obtain ⟨i, hget⟩ := List.mem_iff_getElem?.mp hb
  have hid : b.id = i := (wellFormed_of_walk hwalk).indexed hget
  have hcommitted : b.hasCommit = true := List.any_eq_true.mpr ⟨event, hevent, by rw [hkind]; rfl⟩
  have hdirect : event ∈ b.directCommits := List.mem_filter.mpr ⟨hevent, by simp [hkind, hclosure]⟩
  obtain ⟨hloop, hbranch⟩ := hundisturbed.checks_silent hcommitted hverdict
  exact finalizes_home hwalk hb (hdeclares.acquiredIn_eq hwalk (hid ▸ hget)) hloop hbranch
    (List.ne_nil_of_mem hdirect)

/-- A function that starts a transaction in a loop and finishes it on either branch. -/
def committedEachTime : FunctionUnit where
  name := "Drain"
  body := {
    stmts := [
      .rangeStmt [.ident "job" {}] true (.ident "jobs" {}) {
        stmts := [
          .shortVarDecl [.ident "tx" {}]
            [.call (.selector (.ident "db" {}) "MustBegin" {}) [] {}] {},
          .ifStmt {
            init := none
            cond := .ident "done" {}
            consequence := {
              stmts := [.exprStmt (.call (.selector (.ident "tx" {}) "Commit" {}) [] {}) {}]
              span := {} }
            otherwise := some (.block {
              stmts := [.exprStmt (.call (.selector (.ident "tx" {}) "Rollback" {}) [] {}) {}]
              span := {} })
            span := {} }]
        span := {} } {}]
    span := {} }

/-- The commit of that function stands in the loop and on one branch. Neither is reported, and the
body of the loop finalizes the transaction. -/
theorem unreported_finalizes_committedEachTime :
    ∃ (tracked : Tracked) (b : Binding) (event : Event),
      committedEachTime.track {} {} = .ok tracked ∧ tracked.bindings = [b] ∧
      b.acquiredIn = 1 ∧ event ∈ b.events ∧ event.kind = .directCommit ∧ event.scope = 2 ∧
      b.verdict tracked.scopes = none ∧ b.finalizes tracked.scopes 1 = true := by
  have hwalk : ∃ (tracked : Tracked) (b : Binding) (event : Event),
      committedEachTime.track {} {} = .ok tracked ∧ tracked.bindings = [b] ∧ b.id = 0 ∧
      b.acquiredIn = 1 ∧ b.events.head? = some event ∧ event.kind = .directCommit ∧
      event.inClosure = false ∧ event.scope = 2 ∧ b.verdict tracked.scopes = none ∧
      b.isEscaped = false ∧ b.has .shadowing = false ∧ b.has .reassignment = false ∧
      b.has .goroutineCapture = false ∧ b.has (.fatalExit .fatal) = false ∧
      b.has (.fatalExit .panic) = false ∧ b.hasSafetyNet tracked.scopes = false :=
    ⟨_, _, _, rfl, rfl, rfl, rfl, rfl, rfl, rfl, rfl, rfl, rfl, rfl, rfl, rfl, rfl, rfl, rfl⟩
  have hdeclares : committedEachTime.AcquiresByDeclaration {} {} 0 :=
    ⟨_, _, "tx", none, {}, ⟨(committedEachTime.actions {}).take 12,
      (committedEachTime.actions {}).drop 13, rfl, rfl⟩, rfl⟩
  obtain ⟨tracked, b, event, htrack, hbindings, hid, hacquired, hfirst, hkind, hclosure, hscope,
    hverdict, hescaped, hshadowing, hreassignment, hcapture, hfatal, hpanic, hnet⟩ := hwalk
  have hevent : event ∈ b.events := List.mem_of_mem_head? hfirst
  have hexits : ∀ kind, b.has (.fatalExit kind) = false := by
    intro kind
    cases kind with
    | fatal => exact hfatal
    | panic => exact hpanic
  have hfinalizes := unreported_finalizes {} {} committedEachTime htrack
    (by rw [hbindings]; exact List.mem_singleton.mpr rfl) (hid ▸ hdeclares)
    ⟨hescaped, hshadowing, hreassignment, hcapture, hexits, hnet⟩ ⟨event, hevent, hkind, hclosure⟩
    (fun kind span hfound => by rw [hverdict] at hfound; cases hfound)
  exact ⟨tracked, b, event, htrack, hbindings, hacquired, hevent, hkind, hscope, hverdict,
    hacquired ▸ hfinalizes⟩

end FunctionUnit

end TxLifecycle
