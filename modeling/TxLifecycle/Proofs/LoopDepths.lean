import TxLifecycle.Proofs.CommitCoverage

/-!
# Loops around a commit

A commit runs in a loop that the transaction was not started in if some loop is around it that is
not around the acquisition. What is compared is the number of loops around the two. That is the same
as long as every loop around the acquisition is around the commit; an acquisition in a loop that has
been left makes up for a loop that the commit stands in.

* `Binding.InOtherLoop`: the commit runs in a loop that the transaction was not started in;
* `ScopeTree.loopsBeyond`: the loops around one scope that are not around another;
* `FunctionUnit.crossesLoop_iff_loopsBeyond`: which of them are compared, and when that is right.
-/

namespace TxLifecycle

/-- Lists without repetition compare by the members that they do not share. -/
theorem countP_lt_countP_iff {p : ScopeId → Bool} {a b : List ScopeId} (ha : a.Nodup)
    (hb : b.Nodup) : a.countP p < b.countP p ↔
      (a.filter (!b.contains ·)).countP p < (b.filter (!a.contains ·)).countP p := by
  have hshared : (a.filter (b.contains ·)).Perm (b.filter (a.contains ·)) := by
    refine (List.perm_ext_iff_of_nodup (ha.filter _) (hb.filter _)).mpr fun x => ?_
    simp only [List.mem_filter, List.contains_iff_mem]
    exact And.comm
  rw [List.countP_eq_countP_filter_add a p (b.contains ·),
    List.countP_eq_countP_filter_add b p (a.contains ·), hshared.countP_eq p]
  exact Nat.add_lt_add_iff_left

namespace ScopeTree

variable {tree : ScopeTree} {scope other : ScopeId}

/-- No scope is met twice on the way outwards. -/
theorem WellFormed.nodup_ancestors (h : tree.WellFormed) (scope : Nat) :
    (tree.ancestors scope).Nodup := by
  induction scope using Nat.strong_induction_on with
  | _ scope ih =>
    cases hparent : tree.parent? scope with
    | none => simp [h.ancestors_of_root hparent]
    | some outer =>
      have hlt := h.parent hparent
      rw [h.ancestors_of_parent hparent, List.nodup_cons]
      exact ⟨fun hmem => Nat.not_le_of_lt hlt (h.le_of_mem_ancestors hmem), ih outer hlt⟩

/-- The loop bodies from `scope` outwards that are not around `other`. -/
def loopsBeyond (tree : ScopeTree) (other scope : ScopeId) : List ScopeId :=
  ((tree.ancestors scope).filter (!tree.isAncestor · other)).filter
    (tree.kind? · == some .loopBody)

theorem mem_loopsBeyond {loop : ScopeId} : loop ∈ tree.loopsBeyond other scope ↔
    loop ∈ tree.ancestors scope ∧ tree.kind? loop = some .loopBody ∧
      loop ∉ tree.ancestors other := by
  simp [loopsBeyond, isAncestor, and_comm]

/-- No loop bodies are beyond a scope for the scopes around it and for itself. -/
theorem WellFormed.loopsBeyond_eq_nil (h : tree.WellFormed)
    (hscope : scope ∈ tree.ancestors other) : tree.loopsBeyond other scope = [] := by
  refine List.eq_nil_iff_forall_not_mem.mpr fun loop hloop => ?_
  obtain ⟨hmem, -, hother⟩ := mem_loopsBeyond.mp hloop
  exact hother (h.mem_ancestors_trans hmem hscope)

end ScopeTree

namespace Binding

variable {b : Binding} {tree : ScopeTree} {event : Event}

/-- The event stands in a loop that the transaction was not started in. -/
def InOtherLoop (b : Binding) (tree : ScopeTree) (event : Event) : Prop :=
  ∃ loop ∈ tree.ancestors event.scope, tree.kind? loop = some .loopBody ∧
    loop ∉ tree.ancestors b.acquiredIn

/-- An event stands in a loop that the transaction was not started in if and only if there are loops
around the event that are not around the acquisition. -/
theorem inOtherLoop_iff :
    b.InOtherLoop tree event ↔ tree.loopsBeyond b.acquiredIn event.scope ≠ [] := by
  simp only [InOtherLoop, ← ScopeTree.mem_loopsBeyond]
  exact ⟨fun h => List.ne_nil_of_mem h.choose_spec, List.exists_mem_of_ne_nil _⟩

end Binding

namespace FunctionUnit

open ScopeTree Walk

variable {limits : Limits} {names : Recognizers} {unit : FunctionUnit} {b : Binding}
  {event : Event}

/-- **Commits in loops are told by counting.** A commit outside function literals crosses a loop if
more loops are around the commit only than around the acquisition only. Then it runs in a loop that
the transaction was not started in. The converse holds if no loop is around the acquisition only,
as with a handle that was acquired in the scope of its variable. -/
theorem crossesLoop_iff_loopsBeyond {tracked : Tracked}
    (htrack : unit.track limits names = .ok tracked) (hb : b ∈ tracked.bindings)
    (hevent : event ∈ b.directCommits) :
    (b.crossesLoop tracked.scopes event = true ↔
      (tracked.scopes.loopsBeyond event.scope b.acquiredIn).length <
        (tracked.scopes.loopsBeyond b.acquiredIn event.scope).length) ∧
    (b.crossesLoop tracked.scopes event = true → b.InOtherLoop tracked.scopes event) ∧
    (tracked.scopes.loopsBeyond event.scope b.acquiredIn = [] ∨ b.acquiredIn = b.home →
      (b.crossesLoop tracked.scopes event = true ↔ b.InOtherLoop tracked.scopes event)) := by
  obtain ⟨w, hwalk, rfl⟩ := exists_walk_of_track htrack
  have hwf := (wellFormed_of_walk hwalk).tree
  obtain ⟨harena, hplaced⟩ := directsPlaced_of_walk hwalk
  obtain ⟨i, hget⟩ := List.mem_iff_getElem?.mp hb
  obtain ⟨hmem, hdirect⟩ := List.mem_filter.mp hevent
  simp only [Bool.and_eq_true, beq_iff_eq] at hdirect
  obtain ⟨hhome, hdepth⟩ := hplaced hget hmem (by rw [hdirect.1]; rfl)
  have hcount : b.crossesLoop w.scopes event = true ↔
      (w.scopes.loopsBeyond event.scope b.acquiredIn).length <
        (w.scopes.loopsBeyond b.acquiredIn event.scope).length := by
    obtain ⟨s, hs⟩ : ∃ s, w.scopes.get? b.acquiredIn = some s :=
      ⟨_, List.getElem?_eq_getElem ((orderly_of_walk hwalk).placed hget)⟩
    rw [Binding.crossesLoop, hs, decide_eq_true_iff, Option.map_some, Option.getD_some,
      harena.loopDepth hs, hdepth,
      countP_lt_countP_iff (hwf.nodup_ancestors _) (hwf.nodup_ancestors _),
      List.countP_eq_length_filter, List.countP_eq_length_filter]
    rfl
  have hinLoop : b.crossesLoop w.scopes event = true → b.InOtherLoop w.scopes event := by
    intro hcrosses
    exact Binding.inOtherLoop_iff.mpr (List.ne_nil_of_length_pos (Nat.zero_lt_of_lt
      (hcount.mp hcrosses)))
  refine ⟨hcount, hinLoop, fun hnone => ⟨hinLoop, fun hother => ?_⟩⟩
  have hnone : w.scopes.loopsBeyond event.scope b.acquiredIn = [] := by
    rcases hnone with hnone | hacquired
    · exact hnone
    · exact hwf.loopsBeyond_eq_nil (hacquired ▸ hhome)
  rw [hcount, hnone]
  exact List.length_pos_iff.mpr (Binding.inOtherLoop_iff.mp hother)

/-- A commit of `tx`. -/
def commits : Stmt := .exprStmt (.call (.selector (.ident "tx" {}) "Commit" {}) [] {}) ⟨127, 138⟩

/-- The body of a loop over jobs. -/
def eachJob (stmts : List Stmt) : Stmt := .rangeStmt [] false (.ident "jobs" {}) ⟨stmts, {}⟩ {}

/-- The start of a transaction in `tx`, which is declared before. -/
def restarts : Stmt :=
  .assign [.ident "tx" {}, .ident "_" {}] [.call (.selector (.ident "db" {}) "Begin" {}) [] {}] {}

/-- A function that starts a transaction for every job and commits it several times. -/
def committedInside : FunctionUnit where
  name := "Run"
  body := ⟨[.varDecl ["tx"] [] {}, eachJob [restarts, eachJob [commits]]], {}⟩

/-- The commit in `committedInside` stands in two loops, of which one is around the acquisition,
too. -/
theorem crossesLoop_committedInside :
    ∃ (tracked : Tracked) (b : Binding) (event : Event), committedInside.track {} {} = .ok tracked ∧
      b ∈ tracked.bindings ∧ event ∈ b.directCommits ∧ b.acquiredIn = 1 ∧ b.home = 0 ∧
      event.scope = 2 ∧ tracked.scopes.loopsBeyond event.scope b.acquiredIn = [] ∧
      b.InOtherLoop tracked.scopes event := by
  obtain ⟨tracked, b, event, htrack, hb, hevent, hacquired, hhome, hscope, hleft, hcrosses⟩ :
      ∃ (tracked : Tracked) (b : Binding) (event : Event),
        committedInside.track {} {} = .ok tracked ∧ tracked.bindings.head? = some b ∧
        b.directCommits.head? = some event ∧ b.acquiredIn = 1 ∧ b.home = 0 ∧ event.scope = 2 ∧
        tracked.scopes.loopsBeyond event.scope b.acquiredIn = [] ∧
        b.crossesLoop tracked.scopes event = true :=
    ⟨_, _, _, rfl, rfl, rfl, rfl, rfl, rfl, rfl, rfl⟩
  have hb := List.mem_of_mem_head? hb
  have hevent := List.mem_of_mem_head? hevent
  exact ⟨tracked, b, event, htrack, hb, hevent, hacquired, hhome, hscope, hleft,
    ((crossesLoop_iff_loopsBeyond htrack hb hevent).2.2 (.inl hleft)).mp hcrosses⟩

/-- A function that starts transactions in one loop and commits in another one. -/
def committedInNextLoop : FunctionUnit where
  name := "Run"
  body := ⟨[.varDecl ["tx"] [] {}, eachJob [restarts], eachJob [commits],
    .exprStmt (.call (.selector (.ident "tx" {}) "Rollback" {}) [] {}) {}], {}⟩

/-- The commit in `committedInNextLoop` stands in a loop that the transaction was not started in,
and does not count as such: nothing is reported. -/
theorem exists_inOtherLoop_not_crossesLoop :
    ∃ (tracked : Tracked) (b : Binding) (event : Event),
      committedInNextLoop.track {} {} = .ok tracked ∧ b ∈ tracked.bindings ∧
      event ∈ b.directCommits ∧ b.InOtherLoop tracked.scopes event ∧
      b.crossesLoop tracked.scopes event = false ∧ tracked.violations "Run" = [] := by
  obtain ⟨tracked, b, event, htrack, hb, hevent, hancestors, hkind, hacquired, hcrosses, hnone⟩ :
      ∃ (tracked : Tracked) (b : Binding) (event : Event),
        committedInNextLoop.track {} {} = .ok tracked ∧ tracked.bindings.head? = some b ∧
        b.directCommits.head? = some event ∧ tracked.scopes.ancestors event.scope = [2, 0] ∧
        tracked.scopes.kind? 2 = some .loopBody ∧
        tracked.scopes.ancestors b.acquiredIn = [1, 0] ∧
        b.crossesLoop tracked.scopes event = false ∧ tracked.violations "Run" = [] :=
    ⟨_, _, _, rfl, rfl, rfl, rfl, rfl, rfl, rfl, rfl⟩
  refine ⟨tracked, b, event, htrack, List.mem_of_mem_head? hb, List.mem_of_mem_head? hevent, ?_,
    hcrosses, hnone⟩
  exact ⟨2, by simp [hancestors], hkind, by simp [hacquired]⟩

end FunctionUnit

end TxLifecycle
