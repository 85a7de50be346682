import TxLifecycle.Proofs.DeferredRollback
import TxLifecycle.Proofs.ExitEvents
import TxLifecycle.Proofs.Inside

/-!
# Error checks after an acquisition

Where the error of an acquisition is checked at once, an exit in the consequence of the check leaves
no transaction open: there is none. So the acquisition waits for the `if` statement, and while the
consequence is read, exits are not noted on its binding.

* `Flow.Walks.withholds`: what waits for an `if` keeps waiting while other code is read;
* `Walk.Shielded`: exits are not noted on the binding, because it is guarded or because the code is
  in a function literal. This lasts through any code (`Walk.nested_shielded`);
* `Stmt.CheckedBy`: the two ways in which an `if` statement checks an acquisition;
* `FunctionUnit.exits_of_checked`: no exit in the consequence is noted on the binding, and after the
  `if` statement the guards are those from before it.
-/

namespace TxLifecycle

/-- The action changes which `if` statements are waited for. -/
def Action.movesChecks : Action → Bool
  | .holdGuards _ | .openGuard _ => true
  | _ => false

namespace Walk

variable {limits : Limits} {w u v t w' : Walk} {action : Action} {n : BindingId}
  {err : String} {names : List String}

/-! ## Waiting for the condition -/

/-- Whatever waited for the innermost `if` still does, perhaps with more. -/
def Withholds (w w' : Walk) : Prop :=
  ∀ (guards : List Guard) (rest : List (List Guard)), w.held = guards :: rest →
    ∃ more, w'.held = (guards ++ more) :: rest

namespace Withholds

theorem refl (w : Walk) : w.Withholds w :=
  fun _ _ h => ⟨[], by rw [h, List.append_nil]⟩

theorem trans (h : w.Withholds u) (h' : u.Withholds v) : w.Withholds v := by
  intro guards rest hheld
  obtain ⟨first, hu⟩ := h _ _ hheld
  obtain ⟨second, hv⟩ := h' _ _ hu
  exact ⟨first ++ second, by rw [hv, List.append_assoc]⟩

/-- Most actions leave it alone, and the end of an init clause adds to it. -/
theorem of_exec (h : w.exec limits action = .ok u) (haction : action.movesChecks = false) :
    w.Withholds u := by
  intro guards rest hheld
  obtain ⟨pending, hregisters⟩ := exists_pending h
  have hafter : u.held = (w.registers.after action).held := congrArg Registers.held hregisters
  cases action with
  | holdGuards | openGuard => cases haction
  | collectGuards => exact ⟨w.pending, by simp [hafter, Registers.after, registers, hheld]⟩
  | _ => exact ⟨[], by simp [hafter, Registers.after, registers, hheld]⟩

theorem of_run {actions : List Action} (h : w.run limits actions = .ok u)
    (hactions : ∀ a ∈ actions, a.movesChecks = false) : w.Withholds u :=
  run_preserves (P := w.Withholds)
    (fun a ha hexec hheld => hheld.trans (of_exec hexec (hactions a ha))) h (.refl w)

end Withholds

end Walk

open Walk in
/-- Reading code leaves what waits for the `if` around it. -/
theorem Flow.Walks.withholds {limits : Limits} {shape : Shape} {flow : Flow shape} {w w' : Walk}
    (h : flow.Walks limits w w') : w.Withholds w' := by
  induction h with
  | skip _ | jump _ | noArm _ => exact .refl _
  | @act _ _ action plain hstep =>
    refine .of_exec hstep.exec ?_
    cases action <;> first | rfl | cases plain
  | seq _ _ ih₁ ih₂ => exact ih₁.trans ih₂
  | block hopen _ hclose ih | clauses hopen _ hclose ih | arguments hopen _ hclose ih
  | literal hopen _ hclose ih =>
    exact ((Withholds.of_exec hopen.exec rfl).trans ih).trans (.of_exec hclose.exec rfl)
  | loop _ hopen _ hclose ihHead ihBody =>
    exact ((ihHead.trans (.of_exec hopen.exec rfl)).trans ihBody).trans (.of_exec hclose.exec rfl)
  | @conditional w w₁ w₂ w₃ _ _ _ _ _ _ _ take _ _ _ _ _ _ hhold _ hguard hconstruct harm _ hleave
      hunguard _ hclose ihHead ihThen ihElse =>
    intro guards rest hheld
    -- the condition of the inner `if` is waited for on top, and is done with before its branches
    obtain ⟨own, h₁⟩ : ∃ own, w₁.held = own :: guards :: rest := by
      cases hhold.exec
      cases take <;> exact ⟨_, congrArg (_ :: ·) hheld⟩
    obtain ⟨more, h₂⟩ := ihHead _ _ h₁
    have h₃ : w₃.held = guards :: rest := by
      cases hguard.exec
      exact congrArg List.tail h₂
    have hbefore := (Withholds.of_exec hconstruct.exec rfl).trans (.of_exec harm.exec rfl)
    have hbetween := (Withholds.of_exec hleave.exec rfl).trans (.of_exec hunguard.exec rfl)
    exact ((((hbefore.trans ihThen).trans hbetween).trans ihElse).trans
      (.of_exec hclose.exec rfl)) _ _ h₃
  | @launched _ _ _ _ _ _ _ finalizes _ hopen hcall _ hclose ih =>
    refine (((Withholds.of_exec hopen.exec rfl).trans (.of_run hcall fun a ha => ?_)).trans
      ih).trans (.of_exec hclose.exec rfl)
    have := finalizes a ha
    cases a <;> first | rfl | cases this
  | @deferral _ _ _ _ _ deferred _ hdefer hcalls _ ih =>
    refine ((Withholds.of_exec hdefer.exec rfl).trans (.of_run hcalls fun a ha => ?_)).trans ih
    have := deferred a ha
    cases a <;> first | rfl | cases this
  | deferredLiteral hdefer _ hopen _ hclose ih₁ ih₂ =>
    exact ((((Withholds.of_exec hdefer.exec rfl).trans ih₁).trans (.of_exec hopen.exec rfl)).trans
      ih₂).trans (.of_exec hclose.exec rfl)
  | arm hopen _ hclose _ ihBody ihRest =>
    exact (((Withholds.of_exec hopen.exec rfl).trans ihBody).trans
      (.of_exec hclose.exec rfl)).trans ihRest

namespace Walk

variable {limits : Limits} {w u v t w' : Walk} {action : Action} {n : BindingId}
  {err : String} {names : List String}

/-! ## Guarded bindings -/

/-- Exits are not noted on the binding. -/
def Shielded (n : BindingId) (w : Walk) : Prop :=
  (∃ scope ∈ w.scopes.stack, (w.scopes.kind? scope).any (·.isClosure) = true) ∨
    ∃ guards ∈ w.context.guarded, n ∈ guards

/-- Code inside of a guarded piece of code is guarded, and so is that of literals in it. -/
theorem nested_shielded (limits : Limits) (n : BindingId) : Nested limits (Shielded n) where
  same := fun {u v} h hwf hextends hstack hcontext => by
    refine h.imp ?_ ?_
    · rintro ⟨scope, hscope, hkind⟩
      exact ⟨scope, hstack ▸ hscope, by rwa [hextends.kind? (hwf.tree.stack_lt hscope)]⟩
    · rw [hcontext]
      exact id
  openGuard := fun _ h => h.imp id fun hguards =>
    hguards.imp fun _ hmem => ⟨List.mem_cons_of_mem _ hmem.1, hmem.2⟩
  opens := fun h hwf _ hopens => by
    refine h.imp ?_ ?_
    · rintro ⟨scope, hscope, hkind⟩
      refine ⟨scope, ?_, by rwa [hopens.tree.grows.kind? (hwf.tree.stack_lt hscope)]⟩
      rw [hopens.tree.stack]
      exact List.mem_cons_of_mem _ hscope
    · rw [hopens.context_eq]
      exact id
  openBody := fun {u v kind} _ _ hexec => by
    -- the guards are put aside for a literal, but its body is open then
    have hopens := exec_openBody hexec
    refine Or.inl ⟨u.scopes.scopes.length, ?_, ?_⟩
    · rw [hopens.tree.stack]
      exact List.mem_cons_self
    · rw [hopens.tree.kind?_fresh]
      cases kind <;> rfl

/-- A binding is not exposed in code that is guarded. -/
theorem Shielded.not_records {how : Exit} {event : Event} (h : w.Shielded n) :
    ¬ w.Records (.exit how) n event := by
  intro hrecords
  cases hrecords with
  | exit hexposed hclosure =>
    rcases h with ⟨scope, hscope, hkind⟩ | ⟨guards, hguards, hn⟩
    · exact Bool.false_ne_true (hclosure.symm.trans (List.any_eq_true.mpr ⟨scope, hscope, hkind⟩))
    · obtain ⟨b, hb, rfl⟩ := List.mem_map.mp hexposed
      have hfree := (List.mem_filter.mp hb).2
      simp only [Bool.and_eq_true, Bool.not_eq_true', List.any_eq_false] at hfree
      exact hfree.1.2 guards hguards (List.contains_iff_mem.mpr hn)

/-- The exits that are noted on a binding. -/
def exitsOf (w : Walk) (n : BindingId) : List Event :=
  (w.eventsOf n).filter (·.kind.isExit)

theorem exitsOf_of_exec (hwf : w.WellFormed) (h : w.Shielded n)
    (hexec : w.exec limits action = .ok u) : u.exitsOf n = w.exitsOf n := by
  obtain ⟨recorded, hevents, hrecorded⟩ := (exec_rewrites hwf.indexed hexec).eventsOf n
  have hnone : recorded.filter (·.kind.isExit) = [] := by
    refine List.filter_eq_nil_iff.mpr fun event hevent hkind => ?_
    have hrecords := hrecorded event hevent
    obtain ⟨how, rfl, -⟩ := FunctionUnit.exit_of_records hrecords hkind
    exact h.not_records hrecords
  rw [exitsOf, hevents, List.filter_append, hnone, List.append_nil, exitsOf]

/-- No part of a piece of code notes an exit on a binding that is guarded where the code begins. -/
theorem exitsOf_of_run {flow : Flow .code} {part rest : List Action} (hready : w.Ready .code)
    (h : w.Shielded n) (hactions : flow.actions = part ++ rest)
    (hrun : w.run limits part = .ok u) : u.exitsOf n = w.exitsOf n := by
  refine Flow.keeps_of_run (Q := fun s => s.exitsOf n = w.exitsOf n) (nested_shielded · n) hready
    hactions hrun h (fun hs hwf hexec hexits => ?_) rfl
  exact (exitsOf_of_exec hwf hs hexec).trans hexits

/-- The acquisition waits for the `if` statement whose head is being read. -/
def Awaits (w : Walk) (n : BindingId) (err : String) : Prop :=
  ∃ guards rest, w.held = guards :: rest ∧ ⟨n, err⟩ ∈ guards

/-- If the condition mentions the error variable, the consequence is guarded. -/
theorem shielded_of_awaits {head : Flow .code} {hasElse : Bool} {span : Span}
    (hready : w.Ready .code) (h : w.Awaits n err) (herr : err ∈ names)
    (hrun : w.run limits (head.actions ++ [.openGuard names,
      .openConstruct .conditional hasElse span, .enterArm .ifBranch]) = .ok t) :
    t.Ready .code ∧ t.Shielded n := by
  obtain ⟨u, hhead, hrun⟩ := run_append_eq_ok.mp hrun
  obtain ⟨u₁, hguard, hrun⟩ := run_cons_eq_ok.mp hrun
  obtain ⟨u₂, hconstruct, hrun⟩ := run_cons_eq_ok.mp hrun
  obtain ⟨t, harm, hrun⟩ := run_cons_eq_ok.mp hrun
  cases hrun
  have hwalks := head.walks_of_run hready hhead
  have hguard := Steps.of_guard hwalks.ready' (Or.inl ⟨names, rfl⟩) hguard
  have hconstruct := Steps.of_openConstruct hguard.ready' hconstruct
  have harm := Steps.of_enterArm hconstruct.ready' harm
  refine ⟨harm.ready', ?_⟩
  obtain ⟨guards, rest, hheld, hmem⟩ := h
  obtain ⟨more, hu⟩ := hwalks.withholds _ _ hheld
  have hP := nested_shielded limits n
  refine hP.enterArm (hP.step ?_ hconstruct (Or.inr ⟨_, _, _, rfl⟩)) rfl harm
  cases hguard.exec
  refine Or.inr ⟨_, List.mem_cons_self, List.mem_map.mpr ⟨⟨n, err⟩, ?_, rfl⟩⟩
  rw [hu]
  exact List.mem_filter.mpr ⟨List.mem_append_left _ hmem, List.contains_iff_mem.mpr herr⟩

end Walk

/-! ## The statements -/

/-- The statement starts a transaction in the first variable and leaves the error in the second
one. -/
inductive Stmt.YieldsError (names : Recognizers) (x err : String) : Stmt → Prop where
  | short {call : Expr} {kind : AcquisitionKind} {targets : List Expr} {here there span : Span} :
      names.acquisition call = some kind → kind.returnsError = true →
      YieldsError names x err
        (.shortVarDecl (.ident x here :: .ident err there :: targets) [call] span)
  | var {call : Expr} {kind : AcquisitionKind} {targets : List String} {span : Span} :
      names.acquisition call = some kind → kind.returnsError = true →
      YieldsError names x err (.varDecl (x :: err :: targets) [call] span)
  | assignment {call : Expr} {kind : AcquisitionKind} {targets : List Expr}
      {here there span : Span} :
      names.acquisition call = some kind → kind.returnsError = true →
      YieldsError names x err (.assign (.ident x here :: .ident err there :: targets) [call] span)

namespace Stmt.YieldsError

variable {names : Recognizers} {x err : String} {s : Stmt}

/-- After the acquisition such a statement declares locals at most. -/
theorem exists_actions (h : s.YieldsError names x err) (hx : x ≠ "_") (herr : err ≠ "_") :
    ∃ lead declares declared, s.actions names =
      lead ++ .acquire x (some err) s.span declares :: declareActions declared := by
  cases h with
  | @short call kind targets here there span hkind herror =>
    refine ⟨.count :: .setSpan span :: exprsActions names [call], true, .ident err there :: targets,
      congrArg (_ ++ ·) ((declarationActions_eq span hx hkind rfl).trans ?_)⟩
    simp [errorTarget, herror, Expr.asIdent, herr, Stmt.span]
  | @var call kind targets span hkind herror =>
    refine ⟨.count :: .setSpan span :: exprsActions names [call], true,
      (err :: targets).map (.ident · span),
      congrArg (_ ++ ·) ((declarationActions_eq span hx hkind rfl).trans ?_)⟩
    simp [errorTarget, herror, Expr.asIdent, herr, Stmt.span]
  | @assignment call kind targets here there span hkind herror =>
    obtain ⟨blank, tail, hread, htail⟩ : ∃ blank tail,
        (Stmt.assign (.ident x here :: .ident err there :: targets) [call] span).actions names =
          (.count :: .setSpan span :: .beginAssign blank :: exprsActions names [call] ++ .endAssign
            :: storeActions (.ident x here :: .ident err there :: targets) [call] span.stop)
            ++ tail ∧
        tail = Recognizers.acquireActions (.ident x here :: .ident err there :: targets) kind span
          false := by
      refine ⟨_, _, rfl, ?_⟩
      rw [Recognizers.acquisitionOf, hkind]
    refine ⟨_, false, [], hread.trans (congrArg (_ ++ ·) (htail.trans ?_))⟩
    simp [Recognizers.acquireActions, errorTarget, herror, Expr.asIdent, hx, herr, Stmt.span,
      declareActions]

/-- A statement that leaves an error is no `if` statement, so it is read like most others. -/
theorem stmtsActions_eq (h : s.YieldsError names x err) :
    stmtsActions names [s] = .dropGuards :: s.actions names := by
  cases h <;> exact List.append_nil _

end Stmt.YieldsError

/-- The actions of an `if` statement up to its consequence: its init clause and its condition are
read, and the consequence opens. -/
def IfStmt.headActions (names : Recognizers) (stmt : IfStmt) : List Action :=
  stmt.init.elim [] (fun s => s.actions names ++ [.collectGuards]) ++
    (.setSpan stmt.span :: stmt.cond.actions names ++ [.openGuard stmt.cond.mentioned,
      .openConstruct .conditional stmt.otherwise.isSome stmt.span, .enterArm .ifBranch])

theorem IfStmt.exists_actions (names : Recognizers) (stmt : IfStmt) :
    ∃ rest, stmt.actions names =
      stmt.headActions names ++ (stmtsActions names stmt.consequence.stmts ++ rest) := by
  obtain ⟨init, cond, ⟨stmts, place⟩, otherwise, span⟩ := stmt
  refine ⟨.leave :: .closeGuard :: otherwise.elim [] (Else.actions names) ++ [.closeConstruct], ?_⟩
  simp [IfStmt.actions_mk, headActions]

/-- The `if` statement checks the error of the statement, which is read before it or as its init
clause. The first list reads what stands before the `if` statement, the second one reads that; the
third one is read up to the statement, the last one up to the head of the `if` statement. -/
inductive Stmt.CheckedBy (names : Recognizers) (s : Stmt) (stmt : IfStmt) :
    List Action → List Action → List Action → List Action → Prop where
  /-- The `if` statement comes next in the statement list. -/
  | next : CheckedBy names s stmt (stmtsActions names [s]) (stmtsActions names [.ifStmt stmt])
      [.dropGuards] (stmtsActions names [s] ++ [.holdGuards true, .count, .setSpan stmt.span])
  /-- The statement is the init clause of the `if` statement. -/
  | init {opening : List Action} : stmt.init = some s →
      (Stmt.ifStmt stmt).Reads names (opening ++ stmt.actions names) →
      CheckedBy names s stmt [] (opening ++ stmt.actions names) opening opening

/-- The condition is read from the start of the statement on. -/
theorem IfStmt.exists_condition (names : Recognizers) (stmt : IfStmt) :
    ∃ flow : Flow .code, flow.actions = .setSpan stmt.span :: stmt.cond.actions names :=
  ⟨.seq (.act (.setSpan stmt.span) rfl) (stmt.cond.flow names),
    Flow.actions_seq rfl (stmt.cond.flow_actions names)⟩

theorem IfStmt.exists_head (names : Recognizers) (stmt : IfStmt) :
    ∃ flow : Flow .code, flow.actions =
      stmt.init.elim [] (fun s => s.actions names ++ [.collectGuards]) ++
        .setSpan stmt.span :: stmt.cond.actions names := by
  obtain ⟨flow, hflow⟩ := stmt.exists_condition names
  cases stmt.init with
  | none => exact ⟨flow, hflow⟩
  | some s => exact ⟨.seq (.seq (s.flow names) (.act .collectGuards rfl)) flow,
      Flow.actions_seq (Flow.actions_seq (s.flow_actions names) rfl) hflow⟩

namespace Walk

variable {limits : Limits} {w u v : Walk} {n : BindingId} {x err : String} {span : Span}
  {declares : Bool}

/-- Declaring locals leaves what is kept in mind. -/
theorem registers_of_declares {targets : List Expr}
    (h : w.run limits (declareActions targets) = .ok u) : u.registers = w.registers := by
  refine run_preserves (P := fun v => v.registers = w.registers) (fun a ha hexec hsame => ?_) h rfl
  obtain ⟨name, rfl⟩ := eq_declare_of_mem_declareActions ha
  exact (exec_registers hexec rfl).trans hsame

/-- After the statement that acquires, the acquisition waits for the next one. -/
theorem pending_of_acquire {targets : List Expr} (hready : w.Ready .code)
    (h : w.run limits (.acquire x (some err) span declares :: declareActions targets) = .ok u) :
    u.Ready .code ∧ ∃ n v, w.acquisition x (some err) span declares = .ok (n, v) ∧
      ⟨n, err⟩ ∈ u.pending := by
  have hinner : ∀ a ∈ .acquire x (some err) span declares :: declareActions targets,
      a.isInner = true := List.forall_mem_cons.mpr ⟨rfl, fun a ha =>
    Action.isInner_of_isPlain (declareActions_plain targets a ha)⟩
  refine ⟨(Traverses.of_run hinner hready h).ready', ?_⟩
  obtain ⟨t, hexec, h⟩ := run_cons_eq_ok.mp h
  obtain ⟨n, v, hacquisition, hregisters⟩ := registers_of_acquire hexec
  have hpending : u.pending = w.pending ++ [⟨n, err⟩] :=
    congrArg Registers.pending ((registers_of_declares h).trans hregisters)
  refine ⟨n, v, hacquisition, ?_⟩
  rw [hpending]
  exact List.mem_append_right _ List.mem_cons_self

/-- An `if` statement of a list waits with what the statement before it has left. -/
theorem awaits_of_holdGuards (h : w.exec limits (.holdGuards true) = .ok u)
    (hpending : ⟨n, err⟩ ∈ w.pending) : u.Awaits n err := by
  cases h
  exact ⟨_, _, rfl, hpending⟩

/-- An `if` statement also waits with what its init clause has left. -/
theorem awaits_of_collectGuards (h : w.exec limits .collectGuards = .ok u) {guards : List Guard}
    {rest : List (List Guard)} (hheld : w.held = guards :: rest)
    (hpending : ⟨n, err⟩ ∈ w.pending) : u.Awaits n err := by
  refine ⟨guards ++ w.pending, rest, ?_, List.mem_append_right _ hpending⟩
  have hafter : u.held = (w.registers.after .collectGuards).held :=
    congrArg Registers.held (exec_registers h rfl)
  simpa [Registers.after, registers, hheld] using hafter

end Walk

/-- An `if` statement holds back what waits for its condition, in one way or another. -/
theorem Stmt.Reads.exists_hold {names : Recognizers} {stmt : IfStmt} {acts : List Action}
    (h : (Stmt.ifStmt stmt).Reads names acts) :
    ∃ first take second, (∀ a ∈ first, a.isInner = true) ∧ (∀ a ∈ second, a.isInner = true) ∧
      (∀ a ∈ second, a.movesChecks = false) ∧
      acts = first ++ .holdGuards take :: (second ++ stmt.actions names) := by
  cases h with
  | listed =>
    exact ⟨[], true, [.count, .setSpan stmt.span], by simp, by simp [Action.isInner],
      by simp [Action.movesChecks], List.append_nil _⟩
  | alone =>
    exact ⟨[.count, .setSpan stmt.span], false, [], by simp [Action.isInner], by simp, by simp, rfl⟩
  | elseIf => exact ⟨[.count], false, [], by simp [Action.isInner], by simp, by simp, rfl⟩

namespace Walk

variable {limits : Limits} {names : Recognizers} {w t u : Walk} {s : Stmt} {stmt : IfStmt}
  {x err : String} {declares : Bool} {own opening : List Action} {declared : List Expr}

/-- An `if` statement has begun to wait before its init clause is read, and still does after it. -/
theorem exists_held (hreads : (Stmt.ifStmt stmt).Reads names (opening ++ stmt.actions names))
    (hready : w.Ready .code) (hrun : w.run limits (opening ++ s.actions names) = .ok u) :
    ∃ guards others, u.held = guards :: others := by
  obtain ⟨first, take, second, hfirst, hsecond, hstays, hopening⟩ := hreads.exists_hold
  rw [← List.cons_append, ← List.append_assoc] at hopening
  rw [List.append_cancel_right hopening, List.append_assoc] at hrun
  obtain ⟨w₁, hw₁, hrun⟩ := run_append_eq_ok.mp hrun
  obtain ⟨w₂, hhold, hrun⟩ := run_cons_eq_ok.mp hrun
  obtain ⟨w₃, hw₃, hrun⟩ := run_append_eq_ok.mp hrun
  have hstep := Steps.of_inner (Traverses.of_run hfirst hready hw₁).ready' rfl hhold
  have hready₃ := (Traverses.of_run hsecond hstep.ready' hw₃).ready'
  rw [← s.flow_actions] at hrun
  obtain ⟨guards, hguards⟩ : ∃ guards, w₂.held = guards :: w₁.held := by
    cases hhold
    cases take <;> exact ⟨_, rfl⟩
  obtain ⟨more, hmore⟩ := ((Withholds.of_run hw₃ hstays).trans
    ((s.flow names).walks_of_run hready₃ hrun).withholds) _ _ hguards
  exact ⟨_, _, hmore⟩

variable (hread : s.actions names =
    own ++ .acquire x (some err) s.span declares :: declareActions declared)
  (hcond : err ∈ stmt.cond.mentioned)
include hread hcond

/-- The acquisition of a statement is guarded in the consequence of the `if` statement behind it. -/
theorem shielded_of_next (hs : s.YieldsError names x err)
    (hready : ∀ v, w.run limits (.dropGuards :: own) = .ok v → v.Ready .code)
    (hrun : w.run limits (stmtsActions names [s] ++ [.holdGuards true, .count, .setSpan stmt.span]
      ++ stmt.headActions names) = .ok t) :
    ∃ v n z, w.run limits (.dropGuards :: own) = .ok v ∧
      v.acquisition x (some err) s.span declares = .ok (n, z) ∧ t.Ready .code ∧ t.Shielded n := by
  obtain ⟨head, hhead⟩ := stmt.exists_head names
  have hsplit : stmtsActions names [s] ++ [.holdGuards true, .count, .setSpan stmt.span]
      ++ stmt.headActions names = (.dropGuards :: own)
        ++ ((.acquire x (some err) s.span declares :: declareActions declared)
          ++ .holdGuards true :: ((Flow.seq (.begin stmt.span) head).actions
            ++ [.openGuard stmt.cond.mentioned, .openConstruct .conditional stmt.otherwise.isSome
              stmt.span, .enterArm .ifBranch])) := by
    rw [hs.stmtsActions_eq, hread, IfStmt.headActions, Flow.actions, Flow.actions_begin, hhead]
    simp
  rw [hsplit] at hrun
  -- the acquisition, the error that waits, and what is read up to the consequence
  obtain ⟨v, hv, hrun⟩ := run_append_eq_ok.mp hrun
  obtain ⟨u, hu, hrun⟩ := run_append_eq_ok.mp hrun
  obtain ⟨huready, n, z, hacquisition, hpending⟩ := pending_of_acquire (hready v hv) hu
  obtain ⟨y, hhold, hrun⟩ := run_cons_eq_ok.mp hrun
  exact ⟨v, n, z, hv, hacquisition, shielded_of_awaits
    (Steps.of_inner huready rfl hhold).ready' (awaits_of_holdGuards hhold hpending) hcond hrun⟩

/-- The acquisition of an init clause is guarded in the consequence of its `if` statement. -/
theorem shielded_of_init (hinit : stmt.init = some s)
    (hreads : (Stmt.ifStmt stmt).Reads names (opening ++ stmt.actions names))
    (hw : w.Ready .code)
    (hready : ∀ v, w.run limits (opening ++ own) = .ok v → v.Ready .code)
    (hrun : w.run limits (opening ++ stmt.headActions names) = .ok t) :
    ∃ v n z, w.run limits (opening ++ own) = .ok v ∧
      v.acquisition x (some err) s.span declares = .ok (n, z) ∧ t.Ready .code ∧ t.Shielded n := by
  obtain ⟨flow, hflow⟩ := stmt.exists_condition names
  have hsplit : opening ++ stmt.headActions names = (opening ++ own)
      ++ ((.acquire x (some err) s.span declares :: declareActions declared)
        ++ .collectGuards :: (flow.actions ++ [.openGuard stmt.cond.mentioned,
          .openConstruct .conditional stmt.otherwise.isSome stmt.span, .enterArm .ifBranch])) := by
    rw [IfStmt.headActions, hinit, Option.elim_some, hread, hflow]
    simp
  rw [hsplit] at hrun
  obtain ⟨v, hv, hrun⟩ := run_append_eq_ok.mp hrun
  obtain ⟨u, hu, hrun⟩ := run_append_eq_ok.mp hrun
  obtain ⟨huready, n, z, hacquisition, hpending⟩ := pending_of_acquire (hready v hv) hu
  obtain ⟨y, hcollect, hrun⟩ := run_cons_eq_ok.mp hrun
  have hs : w.run limits (opening ++ s.actions names) = .ok u := by
    rw [hread, ← List.append_assoc]
    exact run_append_eq_ok.mpr ⟨v, hv, hu⟩
  obtain ⟨guards, others, hheld⟩ := exists_held hreads hw hs
  exact ⟨v, n, z, hv, hacquisition, shielded_of_awaits (Steps.of_inner huready rfl hcollect).ready'
    (awaits_of_collectGuards hcollect hheld hpending) hcond hrun⟩

end Walk

namespace Stmt.CheckedBy

variable {names : Recognizers} {s : Stmt} {stmt : IfStmt} {start acts toStmt toIf : List Action}

/-- What is read of the `if` statement closes all that it opens. -/
theorem exists_flow (h : s.CheckedBy names stmt start acts toStmt toIf) :
    ∃ flow : Flow .code, flow.actions = acts := by
  cases h with
  | next => exact (Stmt.Reads.listed _).exists_flow
  | init _ hreads => exact hreads.exists_flow

/-- The `if` statement begins with an action that opens nothing. -/
theorem exists_first (h : s.CheckedBy names stmt start acts toStmt toIf) :
    ∃ action rest, action.isInner = true ∧ acts = action :: rest := by
  cases h with
  | next => exact ⟨_, _, rfl, rfl⟩
  | init _ hreads =>
    obtain ⟨first, take, second, hfirst, -, -, hopening⟩ := hreads.exists_hold
    rw [hopening]
    cases first with
    | nil => exact ⟨_, _, rfl, rfl⟩
    | cons action first => exact ⟨_, _, hfirst action List.mem_cons_self, rfl⟩

/-- The consequence is read after the head. -/
theorem exists_consequence (h : s.CheckedBy names stmt start acts toStmt toIf) :
    ∃ rest, start ++ acts = toIf ++ stmt.headActions names ++
      (stmtsActions names stmt.consequence.stmts ++ rest) := by
  obtain ⟨rest, hif⟩ := stmt.exists_actions names
  refine ⟨rest, ?_⟩
  cases h with
  | next =>
    have hlist : stmtsActions names [.ifStmt stmt] =
      .holdGuards true :: .count :: .setSpan stmt.span :: stmt.actions names := List.append_nil _
    rw [hlist, hif]
    simp
  | init => rw [hif, List.nil_append, List.append_assoc]

end Stmt.CheckedBy

namespace FunctionUnit

open Walk

variable {limits : Limits} {names : Recognizers} {unit : FunctionUnit} {w : Walk} {s : Stmt}
  {stmt : IfStmt} {x err : String} {before start acts after toStmt toIf : List Action}

/-- **Error checks cover their consequence.** A statement starts a transaction and leaves the error
in a variable. If the next statement is an `if` whose condition mentions the variable outside of
function literals, or if the statement is the init clause of such an `if`, then nothing in the
consequence notes an exit on the binding of that acquisition. After the `if` statement the guards
are those from before it. -/
theorem exits_of_checked (hactions : unit.actions names = before ++ (start ++ acts ++ after))
    (hbefore : Walk.run limits {} before = .ok w) (hs : s.YieldsError names x err) (hx : x ≠ "_")
    (herr : err ≠ "_") (hchecked : s.CheckedBy names stmt start acts toStmt toIf)
    (hcond : err ∈ stmt.cond.mentioned) :
    (∀ w₀ w', w.run limits start = .ok w₀ → w₀.run limits acts = .ok w' →
      w'.context.guarded = w₀.context.guarded) ∧
    (∃ rest, start ++ acts = toIf ++ stmt.headActions names ++
      (stmtsActions names stmt.consequence.stmts ++ rest)) ∧
    ∃ own declares declared,
      s.actions names = own ++ .acquire x (some err) s.span declares :: declareActions declared ∧
      ∀ t, w.run limits (toIf ++ stmt.headActions names) = .ok t →
        ∃ v n z, w.run limits (toStmt ++ own) = .ok v ∧
          v.acquisition x (some err) s.span declares = .ok (n, z) ∧
          ∀ part other u, stmtsActions names stmt.consequence.stmts = part ++ other →
            t.run limits part = .ok u → u.exitsOf n = t.exitsOf n := by
  -- code is ready wherever an action is next that opens nothing
  have hready : ∀ {lead rest : List Action} {action : Action} {u : Walk},
      start ++ acts = lead ++ action :: rest → w.run limits lead = .ok u →
      action.isInner = true → u.Ready .code := by
    intro lead rest action u hsplit hlead
    have hposition : unit.actions names = (before ++ lead) ++ action :: (rest ++ after) := by
      rw [hactions, hsplit]
      simp
    exact poised_of_run hposition (run_append_eq_ok.mpr ⟨w, hbefore, hlead⟩)
  have hbegins : ∀ w₀, w.run limits start = .ok w₀ → w₀.Ready .code := by
    intro w₀ hstart
    obtain ⟨action, rest, hinner, hfirst⟩ := hchecked.exists_first
    exact hready (congrArg (start ++ ·) hfirst) hstart hinner
  refine ⟨fun w₀ w' hstart hacts => ?_, hchecked.exists_consequence, ?_⟩
  · obtain ⟨flow, hflow⟩ := hchecked.exists_flow
    rw [← hflow] at hacts
    rw [(flow.walks_of_run (hbegins w₀ hstart) hacts).balanced.context]
  obtain ⟨own, declares, declared, hread⟩ := hs.exists_actions hx herr
  refine ⟨own, declares, declared, hread, fun t ht => ?_⟩
  suffices hshielded : ∃ v n z, w.run limits (toStmt ++ own) = .ok v ∧
      v.acquisition x (some err) s.span declares = .ok (n, z) ∧ t.Ready .code ∧ t.Shielded n by
    obtain ⟨v, n, z, hv, hacquisition, htready, hshielded⟩ := hshielded
    exact ⟨v, n, z, hv, hacquisition, fun part other u hpart =>
      exitsOf_of_run htready hshielded ((stmtsFlow_actions names _).trans hpart)⟩
  cases hchecked with
  | next =>
    have hsplit : stmtsActions names [s] ++ stmtsActions names [.ifStmt stmt] =
        (.dropGuards :: own) ++ .acquire x (some err) s.span declares ::
          (declareActions declared ++ stmtsActions names [.ifStmt stmt]) := by
      rw [hs.stmtsActions_eq, hread]
      simp
    exact shielded_of_next hread hcond hs (fun v hv => hready hsplit hv rfl) ht
  | init hinit hreads =>
    obtain ⟨tail, hhead⟩ : ∃ tail, stmt.actions names = s.actions names ++ tail := by
      obtain ⟨rest, hif⟩ := stmt.exists_actions names
      rw [hif, IfStmt.headActions, hinit, Option.elim_some, List.append_assoc, List.append_assoc]
      exact ⟨_, rfl⟩
    have hsplit : [] ++ (toStmt ++ stmt.actions names) =
        (toStmt ++ own) ++ .acquire x (some err) s.span declares ::
          (declareActions declared ++ tail) := by
      rw [hhead, hread]
      simp
    exact shielded_of_init hread hcond hinit hreads (hbegins w rfl)
      (fun v hv => hready hsplit hv rfl) ht

/-- The check of an error, which leaves a loop and the function. -/
def errorCheck : IfStmt where
  init := none
  cond := .ident "err" {}
  consequence := ⟨[.forStmt none none none ⟨[.returnStmt [.ident "err" {}] {}], {}⟩ {}], {}⟩
  otherwise := none
  span := {}

/-- A function that starts a transaction and checks the error at once. -/
def checkedStart : FunctionUnit where
  name := "Open"
  body := ⟨[beginning ⟨39, 60⟩, .ifStmt errorCheck], {}⟩

/-- The exit in the check is not noted. -/
theorem exits_of_checked_checkedStart :
    ∃ own declares t u v n z,
      Walk.run {} {} (stmtsActions {} [beginning ⟨39, 60⟩] ++ [.holdGuards true, .count,
        .setSpan errorCheck.span] ++ errorCheck.headActions {}) = .ok t ∧
      Walk.run {} {} (.dropGuards :: own) = .ok v ∧
      v.acquisition "tx" (some "err") ⟨39, 60⟩ declares = .ok (n, z) ∧
      t.run {} (stmtsActions {} errorCheck.consequence.stmts) = .ok u ∧
      u.exitsOf n = t.exitsOf n := by
  have hactions : checkedStart.actions {} = [] ++
      (stmtsActions {} [beginning ⟨39, 60⟩] ++ stmtsActions {} [.ifStmt errorCheck] ++ []) := rfl
  obtain ⟨-, -, own, declares, declared, -, hcovers⟩ := exits_of_checked hactions
    (rfl : Walk.run {} {} [] = .ok {})
    (.short rfl rfl : (beginning ⟨39, 60⟩).YieldsError {} "tx" "err")
    (by decide) (by decide) .next (by decide)
  obtain ⟨t, u, ht, hu⟩ : ∃ t u, Walk.run {} {} (stmtsActions {} [beginning ⟨39, 60⟩] ++
      [.holdGuards true, .count, .setSpan errorCheck.span] ++ errorCheck.headActions {}) = .ok t ∧
      t.run {} (stmtsActions {} errorCheck.consequence.stmts) = .ok u := ⟨_, _, rfl, rfl⟩
  obtain ⟨v, n, z, hv, hacquisition, hexits⟩ := hcovers t ht
  exact ⟨own, declares, t, u, v, n, z, ht, hv, hacquisition, hu,
    hexits _ [] u (List.append_nil _).symm hu⟩

end FunctionUnit

end TxLifecycle
