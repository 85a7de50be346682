import TxLifecycle.Proofs.Prepared
import TxLifecycle.Proofs.Reacquisition

/-!
# Handles from init clauses

The init clause of an `if`, `for` or `switch` statement is read before the statement opens a scope.
So a variable that it declares belongs to the scope in which the statement stands, and is there when
the statement is over.

* `Walk.Poised`: actions that open and close nothing run where statements are read;
* `Walk.Left`: a scope that has been left is never open again;
* `Stmt.Reads`: the ways in which a statement is read;
* `Walk.Declares`: code comes to a declaration in the scope in which it begins;
* `Walk.Retains`: a name still means what a declaration made it mean.

The main statement is `FunctionUnit.init_clause_outlives`.
-/

namespace TxLifecycle

namespace Walk

variable {limits : Limits} {w u v w' : Walk} {action : Action} {scope : Nat}

/-! ## Where actions run that open and close nothing -/

/-- An action that opens and closes nothing stands where statements are read. -/
def Poised (w : Walk) (action : Action) : Prop :=
  action.isInner = true → w.Ready .code

theorem poised_of_outer (h : action.isInner = false) : w.Poised action := by
  intro hinner
  rw [h] at hinner
  cases hinner

/-- Any action that runs where code is read. -/
theorem Steps.poised {shape : Shape} (h : w.Steps limits .code action shape u) : w.Poised action :=
  fun _ => h.ready

/-- Between the arms of a construct there are only actions that open or close something. -/
theorem Traverses.poised {shape : Shape} {actions : List Action}
    (h : w.Traverses limits shape actions w') : w.Along limits Poised actions := by
  induction h with
  | nil _ => trivial
  | step _ h => exact .last h.poised
  | append hfirst _ ih₁ ih₂ => exact ih₁.append hfirst.run ih₂
  | scope _ hopen hbody hclose ih | body hopen hbody hclose ih =>
    exact .bracket hopen.poised hopen.exec ih hbody.run (.last hclose.poised)
  | branches hguard hconstruct hfirst hunguard hrest hclose ihFirst ihRest =>
    simp only [List.append_assoc, List.cons_append]
    refine .cons hguard.poised hguard.exec (.cons hconstruct.poised hconstruct.exec ?_)
    refine ihFirst.append hfirst.run (.cons (poised_of_outer rfl) hunguard.exec ?_)
    exact ihRest.append hrest.run (.last (poised_of_outer rfl))
  | clauses hopen hclauses hclose ih =>
    exact .bracket hopen.poised hopen.exec ih hclauses.run (.last (poised_of_outer rfl))
  | arm _ hopen hbody hclose ih =>
    exact .bracket (poised_of_outer rfl) hopen.exec ih hbody.run (.last hclose.poised)

end Walk

theorem FunctionUnit.poised_of_run {limits : Limits} {names : Recognizers} {unit : FunctionUnit}
    {w : Walk} {before rest : List Action} {action : Action}
    (hactions : unit.actions names = before ++ action :: rest)
    (hrun : Walk.run limits {} before = .ok w) : w.Poised action := by
  obtain ⟨limits', w', hle, hwalks⟩ := exists_walks limits names unit
  have halong := hwalks.traverses.poised
  rw [flow_actions, hactions] at halong
  exact halong.at_append (Walk.run_mono hle hrun)

namespace Walk

variable {limits : Limits} {w u v y w' : Walk} {action : Action} {scope : Nat}

/-! ## Scopes that have been left -/

/-- The scope has been open and is not any more. -/
structure Left (w : Walk) (scope : Nat) : Prop where
  lt : scope < w.scopes.scopes.length
  closed : scope ∉ w.scopes.stack

theorem exec_left (hwf : w.WellFormed) (hexec : w.exec limits action = .ok u)
    (h : w.Left scope) : u.Left scope := by
  refine ⟨Nat.lt_of_lt_of_le h.lt (exec_extends hwf.indexed hexec).length, ?_⟩
  intro hmem
  cases exec_moves hwf.indexed hexec with
  | opens hopens =>
    -- a scope that opens is a new one
    rw [hopens.tree.stack] at hmem
    rcases List.mem_cons.mp hmem with rfl | hmem
    · exact Nat.lt_irrefl _ h.lt
    · exact h.closed hmem
  | closes hcloses =>
    obtain ⟨id, hstack⟩ := hcloses.stack
    exact h.closed (hstack ▸ List.mem_cons_of_mem _ hmem)
  | edits hedits => exact h.closed (hedits.stack ▸ hmem)
  | stays _ hstack _ _ => exact h.closed (hstack ▸ hmem)

theorem run_left {actions : List Action} (hsound : w.Sound limits actions)
    (hrun : w.run limits actions = .ok w') (h : w.Left scope) : w'.Left scope :=
  hsound.preserves (P := fun v => v.Left scope) hrun (fun _ hwf hexec => exec_left hwf hexec) h

theorem left_of_leave (hwf : w.WellFormed) (hwf' : u.WellFormed)
    (hexec : w.exec limits .leave = .ok u) : u.Left w.scopes.current := by
  have hcloses := closes_of_leave hexec
  obtain ⟨id, hstack⟩ := hcloses.stack
  have hcurrent : w.scopes.current = id := by rw [ScopeTree.current, hstack]; rfl
  refine ⟨by rw [hcloses.scopes]; exact hwf.tree.current_lt, fun hmem => ?_⟩
  -- the scopes around a scope are older than it
  obtain ⟨outer, rest, hrest⟩ := List.exists_cons_of_ne_nil hcloses.nonempty
  have hpath := hwf.tree.stack
  rw [hstack, hrest] at hpath
  have holder : outer < id := hwf.tree.parent hpath.1
  have hinner : u.scopes.current = outer := by rw [ScopeTree.current, hrest]; rfl
  rw [hwf'.tree.stack_eq, hinner, hcurrent] at hmem
  exact Nat.not_lt.mpr (hwf'.tree.le_of_mem_ancestors hmem) holder

/-! ## Declarations -/

variable {acts between : List Action} {x : String} {span : Span} {n : BindingId}

/-- The actions, run from `w` on, come to a declaration in the state `u`. It stands in the scope in
which they begin, gets the binding `n` and leaves `v`. -/
structure Declares (limits : Limits) (w : Walk) (acts : List Action) (x : String) (span : Span)
    (u : Walk) (n : BindingId) (v : Walk) : Prop where
  reached : ∃ lead errVar tail, acts = lead ++ .acquire x errVar span true :: tail ∧
    w.run limits lead = .ok u ∧ u.acquisition x errVar span true = .ok (n, v)
  current : u.scopes.current = w.scopes.current

/-- The name means the binding as long as no other one has taken its place, and the declaration of
the name finds a variable of the current scope with a handle in it. -/
structure Retains (w : Walk) (x : String) (n : BindingId) : Prop where
  binding : ∃ b, w.bindings[n]? = some b ∧ (w.resolve x = some n ↔ b.retired = false)
  /-- A declaration finds the handle in the variable. -/
  redeclared : ∃ c, w.Meets x c ∧ c.home = w.scopes.current ∧
    ∀ {errVar : Option String} {span : Span} {n' : BindingId} {v : Walk},
      w.acquisition x errVar span true = .ok (n', v) → w.Redeclares c n' v

/-- What is left of a declaration at any later time: the scope has a variable of that name, and the
binding is for that variable. -/
structure Kept (w : Walk) (x : String) (scope : ScopeId) (n : BindingId) : Prop where
  wellFormed : w.WellFormed
  orderly : w.scopes.Orderly w.bindings
  binding : ∃ b, w.bindings[n]? = some b ∧ b.name = x ∧ b.home = scope
  owned : Owned w.bindings x scope

namespace Kept

/-- In the scope of the variable its name still means it. -/
theorem retains {scope : ScopeId} (h : w.Kept x scope n) (hcurrent : w.scopes.current = scope) :
    w.Retains x n := by
  subst hcurrent
  obtain ⟨b, hget, hname, hhome⟩ := h.binding
  obtain ⟨c, hmeets, hc⟩ := exists_meets_of_owned h.wellFormed h.orderly h.owned
  refine ⟨⟨b, hget, ?_⟩, c, hmeets, hc, redeclares_of_acquisition h.wellFormed hmeets hc⟩
  have hiff := resolve_iff_of_home h.wellFormed h.orderly (List.mem_of_getElem? hget) hhome
  rwa [hname, h.wellFormed.indexed hget] at hiff

/-- The name means the binding only while its scope is open. -/
theorem resolve_ne {scope : ScopeId} (h : w.Kept x scope n) (hleft : w.Left scope) :
    w.resolve x ≠ some n := by
  intro hresolve
  obtain ⟨b, hget, -, hhome⟩ := h.binding
  obtain ⟨-, hopen, -⟩ := Indexed.of_resolve h.wellFormed.indexed hresolve hget
  exact hleft.closed (hhome ▸ hopen)

end Kept

/-- A declaration has its binding at once. -/
theorem exists_binding_of_acquire {errVar : Option String} (hwf : w.WellFormed)
    (hacquisition : w.acquisition x errVar span true = .ok (n, v)) :
    ∃ b, (v.awaitCheck n errVar).bindings[n]? = some b ∧ b.name = x ∧
      b.home = w.scopes.current ∧ b.retired = false := by
  obtain ⟨b, hget, hb⟩ := (acquires_of_acquisition hwf hacquisition).binding hwf
  rcases bindings_awaitCheck v n errVar with heq | ⟨name, heq⟩
  · exact ⟨b, by rw [heq, hget], hb⟩
  · exact ⟨{ b with errVar := some name }, by rw [heq, List.getElem?_modify_eq, hget]; rfl, hb⟩

/-- A declaration keeps its binding, whatever is run after it. -/
theorem Declares.kept (h : w.Declares limits acts x span u n v)
    (horderly : w.scopes.Orderly w.bindings) (hsound : w.Sound limits (acts ++ between))
    (hrun : w.run limits (acts ++ between) = .ok y) : y.Kept x w.scopes.current n := by
  obtain ⟨lead, errVar, tail, rfl, hlead, hacquisition⟩ := h.reached
  rw [List.append_assoc] at hsound hrun
  have hdeclares := hsound.drop hlead
  have horderly := (hsound.take.ages hlead horderly).1
  -- the run goes through the state of the declaration
  obtain ⟨u', hlead', hrun⟩ := run_append_eq_ok.mp hrun
  obtain rfl : u = u' := Except.ok.inj (hlead.symm.trans hlead')
  obtain ⟨t, hexec, hrun⟩ := run_cons_eq_ok.mp hrun
  obtain ⟨n', v', hacquisition', rfl⟩ := exists_acquisition_of_acquire hexec
  obtain ⟨rfl, rfl⟩ : n = n' ∧ v = v' := by
    rw [hacquisition, Except.ok.injEq, Prod.mk.injEq] at hacquisition'
    exact hacquisition'
  obtain ⟨b, hget, hname, hhome, hretired⟩ :=
    exists_binding_of_acquire hdeclares.wellFormed hacquisition
  rw [h.current] at hhome
  have hafter := hdeclares.2.2 _ hexec
  have horderly := exec_orderly hdeclares.wellFormed horderly hexec
  -- from there on the binding ages and the scope keeps its variable
  obtain ⟨horderly', hages⟩ := hafter.ages hrun horderly
  obtain ⟨b', hget', hb'⟩ := hages hget
  refine ⟨?_, horderly', ⟨b', hget', hb'.name_eq.trans hname, hb'.home_eq.trans hhome⟩, ?_⟩
  · have hend : (v.awaitCheck n errVar).Sound limits ((tail ++ between) ++ []) := by
      rwa [List.append_nil]
    exact (hend.drop hrun).wellFormed
  · exact run_owned hafter horderly hrun ⟨n, b, hget, hname, hhome, hretired⟩

end Walk

/-! ## Statements with an init clause -/

/-- The init clause of a statement. -/
def Stmt.initClause : Stmt → Option Stmt
  | .ifStmt stmt => stmt.init
  | .forStmt init _ _ _ _ => init
  | .switchStmt init _ _ _ => init
  | _ => none

/-- The ways in which a statement is read. -/
inductive Stmt.Reads (names : Recognizers) : Stmt → List Action → Prop where
  | listed (stmt : Stmt) : Reads names stmt (stmtsActions names [stmt])
  /-- As a part of another statement, such as a labeled one. -/
  | alone (stmt : Stmt) : Reads names stmt (stmt.actions names)
  /-- As the alternative of an `if` statement. -/
  | elseIf (stmt : IfStmt) :
      Reads names (.ifStmt stmt) (.count :: .holdGuards false :: stmt.actions names)

namespace Stmt.Reads

variable {names : Recognizers} {stmt s : Stmt} {acts : List Action}

/-- What is read closes all that it opens. -/
theorem exists_flow (h : stmt.Reads names acts) : ∃ flow : Flow .code, flow.actions = acts := by
  cases h with
  | listed => exact ⟨stmtsFlow names [stmt], stmtsFlow_actions names [stmt]⟩
  | alone => exact ⟨stmt.flow names, stmt.flow_actions names⟩
  | elseIf stmt =>
    exact ⟨.seq (.act .count rfl) (stmt.flow names false .skip),
      Flow.actions_seq rfl (stmt.spells names false .skip).actions⟩

/-- Wherever a statement stands, nothing opens before it is read itself. -/
theorem exists_core (h : stmt.Reads names acts) :
    ∃ lead, (∀ a ∈ lead, a.isInner = true) ∧ acts = lead ++ stmt.core names := by
  cases h with
  | listed =>
    cases stmt with
    | ifStmt stmt =>
      exact ⟨[.holdGuards true, .count, .setSpan stmt.span], by simp [Action.isInner],
        List.append_nil _⟩
    | _ => exact ⟨[.dropGuards], by simp [Action.isInner], List.append_nil _⟩
  | alone =>
    cases stmt with
    | ifStmt stmt =>
      exact ⟨[.count, .setSpan stmt.span, .holdGuards false], by simp [Action.isInner], rfl⟩
    | _ => exact ⟨[], by simp, rfl⟩
  | elseIf stmt => exact ⟨[.count, .holdGuards false], by simp [Action.isInner], rfl⟩

end Stmt.Reads

/-- Every statement reads its init clause before it opens anything. -/
theorem Stmt.exists_core_of_initClause (names : Recognizers) {stmt s : Stmt}
    (hinit : stmt.initClause = some s) :
    ∃ lead tail, (∀ a ∈ lead, a.isInner = true) ∧
      stmt.core names = lead ++ (s.actions names ++ tail) := by
  cases stmt with
  | ifStmt stmt =>
    obtain ⟨init, cond, ⟨stmts, place⟩, otherwise, span⟩ := stmt
    obtain rfl : init = some s := hinit
    simp only [Stmt.core, IfStmt.actions_mk, Option.elim_some, List.append_assoc]
    exact ⟨[], _, by simp, rfl⟩
  | forStmt init cond post body span =>
    obtain ⟨stmts, place⟩ := body
    obtain rfl : init = some s := hinit
    simp only [Stmt.core, Stmt.actions_forStmt, Option.elim_some, List.append_assoc]
    exact ⟨[.count, .setSpan span], _, by simp [Action.isInner], rfl⟩
  | switchStmt init tag cases span =>
    obtain rfl : init = some s := hinit
    simp only [Stmt.core, Stmt.actions_switchStmt, Option.elim_some, List.append_assoc]
    exact ⟨[.count, .setSpan span], _, by simp [Action.isInner], rfl⟩
  | _ => cases hinit

/-- A statement whose init clause starts a transaction reads the right side of it and then acquires,
before it opens anything. -/
theorem Stmt.Reads.exists_acquire {names : Recognizers} {stmt s : Stmt} {acts : List Action}
    {x : String} (h : stmt.Reads names acts) (hinit : stmt.initClause = some s)
    (hstarts : s.Starts names x) (hx : x ≠ "_") :
    ∃ first lead call errVar tail, (∀ a ∈ first :: lead, a.isInner = true) ∧
      acts = first :: lead ++
        (exprsActions names [call] ++ .acquire x errVar s.span true :: tail) := by
  obtain ⟨outer, houter, rfl⟩ := h.exists_core
  obtain ⟨lead, tail, hlead, hcore⟩ := exists_core_of_initClause names hinit
  obtain ⟨call, errVar, targets, hread⟩ := hstarts.actions_eq hx
  obtain ⟨first, others, hfirst⟩ := List.exists_cons_of_ne_nil
    (show outer ++ (lead ++ [.count, .setSpan s.span]) ≠ [] by simp)
  refine ⟨first, others, call, errVar, declareActions targets ++ tail, ?_, ?_⟩
  · rw [← hfirst]
    intro a ha
    simp only [List.mem_append, List.mem_cons, List.not_mem_nil, or_false] at ha
    rcases ha with ha | ha | rfl | rfl
    · exact houter a ha
    · exact hlead a ha
    · rfl
    · rfl
  · rw [← hfirst, hcore, hread]
    simp

namespace Walk

variable {limits : Limits} {w w' : Walk} {names : Recognizers} {stmt s : Stmt}
  {acts : List Action} {x : String}

/-- Reading such a statement comes to a declaration in the scope in which the statement stands. -/
theorem declares_of_reads (hx : x ≠ "_") (hinit : stmt.initClause = some s)
    (hstarts : s.Starts names x) (hread : stmt.Reads names acts) (hready : w.Ready .code)
    (hrun : w.run limits acts = .ok w') : ∃ u n v, w.Declares limits acts x s.span u n v := by
  obtain ⟨first, lead, call, errVar, tail, hinner, rfl⟩ := hread.exists_acquire hinit hstarts hx
  obtain ⟨t, hlead, hrun⟩ := run_append_eq_ok.mp hrun
  obtain ⟨u, hcall, hrun⟩ := run_append_eq_ok.mp hrun
  obtain ⟨_, hexec, -⟩ := run_cons_eq_ok.mp hrun
  obtain ⟨n, v, hacquisition, -⟩ := exists_acquisition_of_acquire hexec
  -- neither the beginning of the statement nor the right side leaves the scope
  have hbegun := Traverses.of_run hinner hready hlead
  rw [← exprsFlow_actions] at hcall
  have hright := (Flow.walks_of_run _ hbegun.ready' hcall).balanced
  rw [exprsFlow_actions] at hcall
  refine ⟨u, n, v, ⟨first :: lead ++ exprsActions names [call], errVar, tail, ?_, ?_,
    hacquisition⟩, (hbegun.balanced.trans hright).current⟩
  · rw [List.append_assoc]
  · exact run_append_eq_ok.mpr ⟨t, hlead, hcall⟩

end Walk

namespace FunctionUnit

open Walk

variable {limits : Limits} {names : Recognizers} {unit : FunctionUnit} {w w' : Walk}
  {stmt s : Stmt} {before acts after : List Action} {x : String}

/-- A statement with such an init clause is read where statements are read. -/
theorem ready_of_reads (hx : x ≠ "_") (hinit : stmt.initClause = some s)
    (hstarts : s.Starts names x) (hread : stmt.Reads names acts)
    (hactions : unit.actions names = before ++ (acts ++ after))
    (hbefore : Walk.run limits {} before = .ok w) : w.Ready .code := by
  obtain ⟨first, lead, call, errVar, tail, hinner, rfl⟩ := hread.exists_acquire hinit hstarts hx
  exact poised_of_run hactions hbefore (hinner first List.mem_cons_self)

/-- **A handle from an init clause outlives its statement.** Let the init clause of an `if`, `for`
or `switch` statement, wherever that stands, declare a variable with a recognized acquisition. It is
read in the scope in which the statement stands, and the statement ends in that scope.

* At any later time in that scope the name means the binding of the clause, unless a later
  acquisition has taken its place, and a declaration of the name finds a handle in the variable.
* Once the scope is left, the name never means the binding again. An `else if` is the last thing in
  its arm, so there the clause is scoped as it should be.
* Another such statement right after this one gets a binding of its own only if the handle has been
  finished or handed over by then. Otherwise it shares the binding, and the handle is lost. -/
theorem init_clause_outlives (hx : x ≠ "_") (hinit : stmt.initClause = some s)
    (hstarts : s.Starts names x) (hread : stmt.Reads names acts)
    (hactions : unit.actions names = before ++ (acts ++ after))
    (hbefore : Walk.run limits {} before = .ok w) (hrun : w.run limits acts = .ok w') :
    ∃ u n v, w.Declares limits acts x s.span u n v ∧ w'.scopes.current = w.scopes.current ∧
      (∀ between rest y, after = between ++ rest → w'.run limits between = .ok y →
        y.scopes.current = w.scopes.current → y.Retains x n) ∧
      (∀ between rest y, after = .leave :: between ++ rest →
        w'.run limits (.leave :: between) = .ok y → y.resolve x ≠ some n) ∧
      (∀ (stmt' s' : Stmt) (acts' rest : List Action) (w'' : Walk), stmt'.initClause = some s' →
        s'.Starts names x → stmt'.Reads names acts' → after = acts' ++ rest →
        w'.run limits acts' = .ok w'' →
        ∃ u' n' v' c, w'.Declares limits acts' x s'.span u' n' v' ∧ u'.Meets x c ∧
          c.home = w.scopes.current ∧ u'.Redeclares c n' v') := by
  have hready := ready_of_reads hx hinit hstarts hread hactions hbefore
  obtain ⟨u, n, v, hdeclares⟩ := declares_of_reads hx hinit hstarts hread hready hrun
  have hbalanced : w.Balanced w' := by
    obtain ⟨flow, rfl⟩ := hread.exists_flow
    exact (flow.walks_of_run hready hrun).balanced
  have hsound := sound_of_actions limits hactions
  have horderly := (hsound.take.ages hbefore orderly_init).1
  have hsound := hsound.drop hbefore
  -- whatever has been read since, the binding is there
  have hkept : ∀ between rest y, after = between ++ rest → w'.run limits between = .ok y →
      y.Kept x w.scopes.current n := by
    intro between rest y hafter hy
    rw [hafter, ← List.append_assoc] at hsound
    exact hdeclares.kept horderly hsound.take (run_append_eq_ok.mpr ⟨w', hrun, hy⟩)
  refine ⟨u, n, v, hdeclares, hbalanced.current, ?_, ?_, ?_⟩
  · intro between rest y hafter hy hcurrent
    exact (hkept between rest y hafter hy).retains hcurrent
  · intro between rest y hafter hy
    refine (hkept (.leave :: between) rest y hafter hy).resolve_ne ?_
    -- the scope that is left is the one in which the statement ends
    obtain ⟨t, hleave, hy⟩ := run_cons_eq_ok.mp hy
    have hafterwards := hsound.drop hrun
    rw [hafter] at hafterwards
    have hrest := hafterwards.2.2 t hleave
    rw [← hbalanced.current]
    exact run_left hrest.take hy (left_of_leave hafterwards.wellFormed hrest.wellFormed hleave)
  · intro stmt' s' acts' rest w'' hinit' hstarts' hread' hafter hw''
    have hready' : w'.Ready .code := hready.of_balanced hbalanced (hsound.drop hrun).wellFormed
    obtain ⟨u', n', v', hdeclares'⟩ := declares_of_reads hx hinit' hstarts' hread' hready' hw''
    obtain ⟨lead, errVar, tail, rfl, hlead, hacquisition⟩ := hdeclares'.reached
    -- the second declaration stands in the same scope as the first
    have hcurrent : u'.scopes.current = w.scopes.current :=
      hdeclares'.current.trans hbalanced.current
    obtain ⟨-, c, hmeets, hhome, hredeclares⟩ :=
      (hkept lead _ u' (by rw [hafter, List.append_assoc]) hlead).retains hcurrent
    exact ⟨u', n', v', c, hdeclares', hmeets, hhome.trans hcurrent, hredeclares hacquisition⟩

/-- A declaration that starts a transaction. -/
def beginning (span : Span) : Stmt :=
  .shortVarDecl [.ident "tx" {}, .ident "err" {}]
    [.call (.selector (.ident "db" {}) "Begin" {}) [] {}] span

/-- An `if` statement that has it as its init clause. -/
def attempt (span : Span) : Stmt :=
  .ifStmt {
    init := some (beginning span)
    cond := .ident "err" {}
    consequence := {
      stmts := [.exprStmt (.call (.ident "use" {}) [.ident "tx" {}] {}) {}]
      span := {} }
    otherwise := none
    span := {} }

/-- A function with two such statements. -/
def twoAttempts : FunctionUnit where
  name := "Open"
  body := { stmts := [attempt ⟨39, 60⟩, attempt ⟨92, 113⟩], span := {} }

/-- After the first statement the name still means its handle, and the second one takes the variable
over from it. -/
theorem init_clause_outlives_twoAttempts :
    ∃ w' w'' u' v' n n' c, Walk.run {} {} (stmtsActions {} [attempt ⟨39, 60⟩]) = .ok w' ∧
      w'.run {} (stmtsActions {} [attempt ⟨92, 113⟩]) = .ok w'' ∧ w'.Retains "tx" n ∧
      w'.Declares {} (stmtsActions {} [attempt ⟨92, 113⟩]) "tx" ⟨92, 113⟩ u' n' v' ∧
      u'.Meets "tx" c ∧ u'.Redeclares c n' v' := by
  have hactions : twoAttempts.actions {} =
      [] ++ (stmtsActions {} [attempt ⟨39, 60⟩] ++ stmtsActions {} [attempt ⟨92, 113⟩]) := rfl
  obtain ⟨w', w'', hfirst, hsecond⟩ : ∃ w' w'',
      Walk.run {} {} (stmtsActions {} [attempt ⟨39, 60⟩]) = .ok w' ∧
      w'.run {} (stmtsActions {} [attempt ⟨92, 113⟩]) = .ok w'' := ⟨_, _, rfl, rfl⟩
  have hstarts : ∀ span, (beginning span).Starts {} "tx" := fun _ => .short rfl
  obtain ⟨-, n, -, -, hcurrent, hretains, -, hnext⟩ := init_clause_outlives (by decide) rfl
    (hstarts ⟨39, 60⟩) (.listed (attempt ⟨39, 60⟩)) hactions rfl hfirst
  obtain ⟨u', n', v', c, hdeclares, hmeets, -, hredeclares⟩ := hnext (attempt ⟨92, 113⟩)
    (beginning ⟨92, 113⟩) _ [] w'' rfl (hstarts _) (.listed _) (List.append_nil _).symm hsecond
  exact ⟨w', w'', u', v', n, n', c, hfirst, hsecond, hretains [] _ w' rfl rfl hcurrent, hdeclares,
    hmeets, hredeclares⟩

/-- The init clause is not scoped to its statement: after the first statement the name means the
handle from there, and both statements have one binding, with a reassignment. -/
theorem init_clause_not_scoped :
    ∃ w' tracked b, Walk.run {} {} (stmtsActions {} [attempt ⟨39, 60⟩]) = .ok w' ∧
      w'.resolve "tx" = some 0 ∧ twoAttempts.track {} {} = .ok tracked ∧ tracked.bindings = [b] ∧
      b.acquisition = ⟨39, 60⟩ ∧ b.has .reassignment = true :=
  ⟨_, _, _, rfl, by decide +kernel, rfl, rfl, rfl, by decide +kernel⟩

end FunctionUnit

end TxLifecycle
