import Mathlib.Data.List.Forall2
import TxLifecycle.Proofs.Untouched

/-!
# What a report stands on

Every binding comes from a statement that starts a transaction in a variable, and keeps the name of
the variable and the place of the statement. A report is about one binding: it names the variable
and points at the statement or at a commit that is recorded for the binding.

* `Stmt.Acquires`: a statement starts a transaction in a variable;
* `Part.acquires_of_handling`: only such statements are read as acquisitions;
* `Walk.exec_acquired`: every action keeps that bindings come from acquisitions;
* `Binding.verdict_anchored`: verdicts point at the acquisition or at a commit.

The main statement is `FunctionUnit.violations_grounded`.
-/

namespace TxLifecycle

/-! ## Statements that start a transaction -/

/-- The statement starts a transaction in the variable, declared by it or not: its single right side
is a recognized call, and the variable is its first target. -/
inductive Stmt.Acquires (names : Recognizers) (x : String) : Stmt → Prop where
  | declaration {s : Stmt} : s.Starts names x → Acquires names x s
  | assignment {call : Expr} {targets : List Expr} {span span' : Span} :
      (names.acquisition call).isSome = true →
      Acquires names x (.assign (.ident x span :: targets) [call] span')

namespace Recognizers

variable {names : Recognizers} {x : String} {errVar : Option String} {place span : Span}
  {declares declares' : Bool} {targets right : List Expr} {kind : AcquisitionKind}

/-- Only a single call is an acquisition. -/
theorem exists_call_of_acquisitionOf (h : names.acquisitionOf right = some kind) :
    ∃ call, right = [call] ∧ (names.acquisition call).isSome = true := by
  unfold acquisitionOf at h
  split at h
  · exact ⟨_, rfl, Option.isSome_of_eq_some h⟩
  · cases h

/-- The transaction goes into the first target, which is a name other than the blank one. -/
theorem of_mem_acquireActions
    (h : .acquire x errVar place declares' ∈ acquireActions targets kind span declares) :
    x ≠ "_" ∧ place = span ∧ ∃ here rest, targets = .ident x here :: rest := by
  unfold acquireActions at h
  split at h
  · rename_i name hname
    split at h
    · cases h
    · rename_i hblank
      cases List.mem_singleton.mp h
      obtain ⟨target, hhead, hident⟩ := Option.bind_eq_some_iff.mp hname
      obtain ⟨here, rfl⟩ := Expr.asIdent_eq_some hident
      obtain ⟨rest, rfl⟩ := List.head?_eq_some_iff.mp hhead
      exact ⟨by simpa using hblank, rfl, here, rest, rfl⟩
  · cases h

/-- A declaration that is read as an acquisition. -/
theorem of_mem_declarationActions
    (h : .acquire x errVar place declares ∈ names.declarationActions targets right span) :
    x ≠ "_" ∧ place = span ∧ (∃ here rest, targets = .ident x here :: rest) ∧
      ∃ call, right = [call] ∧ (names.acquisition call).isSome = true := by
  rcases cases_of_mem_declarationActions h with ⟨kind, hkind, h⟩ | ⟨name, hname⟩
  · obtain ⟨hx, hplace, htarget⟩ := of_mem_acquireActions h
    exact ⟨hx, hplace, htarget, exists_call_of_acquisitionOf hkind⟩
  · cases hname

end Recognizers

/-- A part that is read as an acquisition is a statement that starts a transaction. -/
theorem Part.acquires_of_handling {names : Recognizers} {x : String} {errVar : Option String}
    {place : Span} {declares : Bool} {part : Part}
    (h : .acquire x errVar place declares ∈ part.handling names) :
    x ≠ "_" ∧ ∃ s, part = .stmt s ∧ s.Acquires names x ∧ s.span = place := by
  unfold handling at h
  split at h
  · -- a call commits, rolls back or hands over
    exfalso
    rcases List.mem_append.mp h with h | h
    · cases names.finalizeActions_isFinalize _ _ h
    · unfold Recognizers.delegateActions at h
      split at h
      · cases List.mem_singleton.mp h
      · cases h
  · obtain ⟨hx, rfl, ⟨here, rest, rfl⟩, call, rfl, hcall⟩ := Recognizers.of_mem_declarationActions h
    exact ⟨hx, _, rfl, .declaration (.short hcall), rfl⟩
  · obtain ⟨hx, rfl, ⟨here, rest, htargets⟩, call, rfl, hcall⟩ :=
      Recognizers.of_mem_declarationActions h
    obtain ⟨name, names', rfl, hname, -⟩ := List.map_eq_cons_iff.mp htargets
    cases hname
    exact ⟨hx, _, rfl, .declaration (.var hcall), rfl⟩
  · rcases List.mem_append.mp h with h | h
    · exfalso
      obtain ⟨pair, -, hstore⟩ := List.mem_filterMap.mp h
      split at hstore <;> cases hstore
    · split at h
      · rename_i kind hkind
        obtain ⟨hx, rfl, here, rest, rfl⟩ := Recognizers.of_mem_acquireActions h
        obtain ⟨call, rfl, hcall⟩ := Recognizers.exists_call_of_acquisitionOf hkind
        exact ⟨hx, _, rfl, .assignment hcall, rfl⟩
      · cases h
  · cases List.mem_singleton.mp h
  · cases names.deferActions_isDeferCall _ _ h
  · obtain ⟨name, -, hcapture⟩ := List.mem_map.mp h
    cases hcapture
  · cases h

/-! ## Where bindings come from -/

namespace Walk

variable {limits : Limits} {w u : Walk} {action : Action} {actions : List Action}

/-- Every binding comes from an acquisition among the actions. -/
def Acquired (actions : List Action) (w : Walk) : Prop :=
  ∀ b ∈ w.bindings, ∃ errVar declares, .acquire b.name errVar b.acquisition declares ∈ actions

/-- An action keeps the name and the acquisition of a binding, and makes new ones only by an
acquisition. -/
theorem exec_acquired (h : w.Acquired actions) (hindexed : w.Indexed) (haction : action ∈ actions)
    (hexec : w.exec limits action = .ok u) : u.Acquired actions := by
  intro b hb
  obtain ⟨i, hget⟩ := List.mem_iff_getElem?.mp hb
  rcases (exec_rewrites hindexed hexec).cases hget with
    ⟨old, hold, hchanges⟩ | ⟨name, errVar, span, declares, home, acquiredIn, rfl, hchanges⟩
  · rw [hchanges.name_eq, hchanges.acquisition_eq]
    exact h old (List.mem_of_getElem? hold)
  · rw [hchanges.name_eq, hchanges.acquisition_eq]
    exact ⟨errVar, declares, haction⟩

end Walk

/-! ## Where verdicts point -/

namespace Binding

variable {b : Binding} {tree : ScopeTree} {event : Event}

/-- A verdict, where there is one, points at a commit of the binding if its kind says so, and at the
acquisition otherwise. -/
def Anchored (b : Binding) (verdict? : Option (ViolationKind × Span)) : Prop :=
  ∀ kind span, verdict? = some (kind, span) →
    if kind.anchorsOnStatement then
      ∃ event ∈ b.events, event.kind = .directCommit ∧ span = event.span
    else span = b.acquisition

namespace Anchored

/-- Where there is no verdict, nothing is pointed at. -/
theorem none : b.Anchored .none := by
  intro kind span h
  cases h

variable {kind : ViolationKind}

/-- The verdict points at the acquisition. -/
theorem acquisition (hkind : kind.anchorsOnStatement = false) :
    b.Anchored (some (kind, b.acquisition)) := by
  rintro _ _ ⟨⟩
  rw [if_neg (by simp [hkind])]

/-- The verdict points at a commit. -/
theorem commit {event : Event} (hkind : kind.anchorsOnStatement = true) (hevent : event ∈ b.events)
    (hcommit : event.kind = .directCommit) : b.Anchored (some (kind, event.span)) := by
  rintro _ _ ⟨⟩
  rw [if_pos hkind]
  exact ⟨event, hevent, hcommit, rfl⟩

/-- One of two verdicts. -/
theorem ite {p : Prop} [Decidable p] {first second : Option (ViolationKind × Span)}
    (hfirst : b.Anchored first) (hsecond : b.Anchored second) :
    b.Anchored (if p then first else second) := by
  split
  · exact hfirst
  · exact hsecond

end Anchored

/-- Direct commits are events of the binding. -/
theorem of_mem_directCommits (h : event ∈ b.directCommits) :
    event ∈ b.events ∧ event.kind = .directCommit := by
  obtain ⟨hevent, hdirect⟩ := List.mem_filter.mp h
  exact ⟨hevent, eq_of_beq (Bool.and_eq_true_iff.mp hdirect).1⟩

/-- The commit in a loop is one of the direct commits. -/
theorem commitInLoop_mem (h : b.commitInLoop tree = some event) : event ∈ b.directCommits := by
  unfold commitInLoop at h
  split at h
  · cases h
  · rename_i inLoop hfind
    dsimp only at h
    split at h
    · cases h
    · cases h
      exact List.mem_of_find?_eq_some hfind

/-- A commit on some arms only is reported at the commit or at the acquisition. -/
theorem branchCommit_anchored (b : Binding) (tree : ScopeTree) :
    b.Anchored (b.branchCommit tree) := by
  rintro kind span h
  unfold branchCommit at h
  split at h
  · cases h
  · obtain ⟨event, hevent, huncovered⟩ := List.exists_of_findSome?_eq_some h
    obtain ⟨construct, -, hfound⟩ := Option.map_eq_some_iff.mp huncovered
    obtain ⟨rfl, rfl⟩ := Prod.mk.inj hfound
    obtain ⟨hmem, hcommit⟩ := of_mem_directCommits hevent
    split
    · exact ⟨event, hmem, hcommit, rfl⟩
    · rfl

/-- A commit whose error is thrown away is reported where it stands. -/
theorem discardedCommit_anchored (b : Binding) : b.Anchored b.discardedCommit := by
  unfold discardedCommit
  cases hfind : b.events.find? fun event => event.kind == .directCommit && event.errorDiscarded with
  | none => exact .none
  | some event =>
    have hcommit := List.find?_some hfind
    exact .commit rfl (List.mem_of_find?_eq_some hfind)
      (eq_of_beq (Bool.and_eq_true_iff.mp hcommit).1)

/-- Every verdict points at the acquisition or at a commit, as its kind says. -/
theorem verdict_anchored (b : Binding) (tree : ScopeTree) : b.Anchored (b.verdict tree) := by
  unfold verdict
  refine .ite .none (.ite (.acquisition rfl) (.ite (.acquisition rfl) (.ite (.acquisition rfl) ?_)))
  -- with a safety net, and without one
  refine .ite (.ite (.acquisition rfl) b.discardedCommit_anchored) ?_
  refine .ite (.acquisition rfl) (.ite (.acquisition rfl) (.ite (.acquisition rfl) ?_))
  split
  · rename_i event hloop
    obtain ⟨hevent, hcommit⟩ := of_mem_directCommits (commitInLoop_mem hloop)
    exact .commit rfl hevent hcommit
  · split
    · rename_i found hbranch
      exact hbranch ▸ b.branchCommit_anchored tree
    · exact .ite (.acquisition rfl) (.ite (.acquisition rfl)
        (.ite (.acquisition rfl) b.discardedCommit_anchored))

end Binding

/-! ## A whole function -/

/-- The violation stands on the binding: it names the variable, and points at a direct commit that
is recorded for the binding if its kind says so, and at the acquisition otherwise. -/
structure Binding.Grounds (b : Binding) (v : Violation) : Prop where
  /-- The name of the variable is the one of the binding. -/
  name : v.variableName = b.name
  acquisition : v.kind.anchorsOnStatement = false → v.span = b.acquisition
  commit : v.kind.anchorsOnStatement = true →
    ∃ event ∈ b.events, event.kind = .directCommit ∧ v.span = event.span

/-- The reports of a function are about some of its bindings, one report each. -/
theorem Tracked.exists_grounds (function : String) (tracked : Tracked) :
    ∃ reported, reported.Sublist tracked.bindings ∧
      List.Forall₂ Binding.Grounds reported (tracked.violations function) := by
  obtain ⟨tree, table⟩ := tracked
  rw [violations]
  induction table with
  | nil => exact ⟨[], .slnil, .nil⟩
  | cons b rest ih =>
    obtain ⟨reported, hsublist, hgrounds⟩ := ih
    cases hverdict : b.verdict tree with
    | none =>
      rw [List.filterMap_cons_none (by simp [hverdict])]
      exact ⟨reported, hsublist.cons b, hgrounds⟩
    | some found =>
      rw [List.filterMap_cons_some (by simp only [hverdict]; rfl)]
      have hanchored := b.verdict_anchored tree found.1 found.2 hverdict
      refine ⟨b :: reported, hsublist.cons_cons b, .cons ⟨rfl, fun hkind => ?_, fun hkind => ?_⟩
        hgrounds⟩
      · rwa [if_neg (by simpa [Violation.new] using hkind)] at hanchored
      · rwa [if_pos (by simpa [Violation.new] using hkind)] at hanchored

namespace FunctionUnit

variable {limits : Limits} {names : Recognizers} {unit : FunctionUnit} {w : Walk}

/-- Every binding comes from a statement that starts a transaction in its variable. -/
theorem exists_acquires_of_walk (hwalk : unit.walk limits names = .ok w) {b : Binding}
    (hb : b ∈ w.bindings) :
    b.name ≠ "_" ∧
      ∃ s, .stmt s ∈ unit.parts ∧ s.Acquires names b.name ∧ s.span = b.acquisition := by
  have hrun := run_of_walk hwalk
  have hacquired : w.Acquired (unit.actions names) := by
    refine (unit.sound_actions limits names).preserves hrun ?_ ?_
    · intro u v action haction hwf hexec hacquired
      exact Walk.exec_acquired hacquired hwf.indexed haction hexec
    · intro b hb
      cases hb
  obtain ⟨errVar, declares, hmem⟩ := hacquired b hb
  obtain ⟨part, hpart, hhandling⟩ := exists_part hmem rfl
  obtain ⟨hname, s, rfl, hacquires, hspan⟩ := Part.acquires_of_handling hhandling
  exact ⟨hname, s, hpart, hacquires, hspan⟩

/-- Every report stands on an acquisition. Each binding of a function is named by the first target,
other than the blank name, of a statement whose single right side is a recognized call, and keeps
the place of that statement. The reports are about some of the bindings, one each; they name the
variable and point at that statement, or, where their kind says so, at a direct commit that is
recorded for the binding. So a function without such a statement is not reported. -/
theorem violations_grounded (limits : Limits) (names : Recognizers) (unit : FunctionUnit)
    {tracked : Tracked} (htrack : unit.track limits names = .ok tracked) :
    (∀ b ∈ tracked.bindings, b.name ≠ "_" ∧
      ∃ s, .stmt s ∈ unit.parts ∧ s.Acquires names b.name ∧ s.span = b.acquisition) ∧
    (∃ reported, reported.Sublist tracked.bindings ∧
      List.Forall₂ Binding.Grounds reported (tracked.violations unit.name)) ∧
    ((∀ s x, .stmt s ∈ unit.parts → x ≠ "_" → ¬ s.Acquires names x) →
      tracked.violations unit.name = []) := by
  obtain ⟨w, hwalk, rfl⟩ := exists_walk_of_track htrack
  refine ⟨fun b hb => exists_acquires_of_walk hwalk hb, Tracked.exists_grounds _ _, fun hnone => ?_⟩
  have hempty : w.bindings = [] := by
    refine List.eq_nil_iff_forall_not_mem.mpr fun b hb => ?_
    obtain ⟨hname, s, hpart, hacquires, -⟩ := exists_acquires_of_walk hwalk hb
    exact hnone s b.name hpart hname hacquires
  rw [Tracked.violations, hempty]
  rfl

/-- A function that starts a transaction in a function literal and drops it, and commits another one
in a loop. -/
def twoHandles : FunctionUnit where
  name := "Sync"
  body := {
    stmts := [
      .exprStmt (.call (.funcLit [] {
        stmts := [.varDecl ["audit", "_"]
          [.call (.selector (.ident "db" {}) "Begin" {}) [] {}] { start := 10, stop := 30 }]
        span := {} } {}) [] {}) {},
      .assign [.ident "tx" {}, .ident "err" {}]
        [.call (.selector (.ident "db" {}) "Begin" {}) [] {}] { start := 40, stop := 60 },
      .forStmt none none none {
        stmts := [.exprStmt (.call (.selector (.ident "tx" {}) "Commit" {}) [] {})
          { start := 70, stop := 80 }]
        span := {} } {}]
    span := {} }

/-- The first transaction of that function is reported where it starts, the second one at its
commit. -/
theorem violations_grounded_twoHandles :
    ∃ (tracked : Tracked) (audit tx : Binding) (dropped looped : Violation),
      twoHandles.track {} {} = .ok tracked ∧ tracked.bindings = [audit, tx] ∧
      tracked.violations "Sync" = [dropped, looped] ∧
      (∃ s, .stmt s ∈ twoHandles.parts ∧ s.Acquires {} audit.name ∧ s.span = audit.acquisition) ∧
      dropped.kind = .noCommitRollback ∧ audit.Grounds dropped ∧ dropped.span.start = 10 ∧
      (∃ s, .stmt s ∈ twoHandles.parts ∧ s.Acquires {} tx.name ∧ s.span = tx.acquisition) ∧
      looped.kind = .commitInLoop ∧ tx.Grounds looped ∧ looped.span.start = 70 := by
  have hwalk : ∃ (tracked : Tracked) (audit tx : Binding) (dropped looped : Violation),
      twoHandles.track {} {} = .ok tracked ∧ tracked.bindings = [audit, tx] ∧
      tracked.violations "Sync" = [dropped, looped] ∧ dropped.kind = .noCommitRollback ∧
      dropped.span.start = 10 ∧ looped.kind = .commitInLoop ∧ looped.span.start = 70 :=
    ⟨_, _, _, _, _, rfl, rfl, rfl, rfl, rfl, rfl, rfl⟩
  obtain ⟨tracked, audit, tx, dropped, looped, htrack, hbindings, hviolations, hdropped, hstart,
    hlooped, hcommit⟩ := hwalk
  obtain ⟨hacquired, ⟨reported, hsublist, hgrounds⟩, -⟩ :=
    violations_grounded {} {} twoHandles htrack
  -- two reports are about both bindings
  rw [show twoHandles.name = "Sync" from rfl, hviolations] at hgrounds
  rw [hbindings] at hsublist
  obtain rfl : reported = [audit, tx] := hsublist.eq_of_length hgrounds.length_eq
  obtain ⟨hfirst, hsecond⟩ := List.forall₂_cons.mp hgrounds
  have haudit := hacquired audit (by simp [hbindings])
  have htx := hacquired tx (by simp [hbindings])
  exact ⟨tracked, audit, tx, dropped, looped, htrack, hbindings, hviolations, haudit.2, hdropped,
    hfirst, hstart, htx.2, hlooped, (List.forall₂_cons.mp hsecond).1, hcommit⟩

end FunctionUnit

end TxLifecycle
