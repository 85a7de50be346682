import TxLifecycle.Proofs.SafetyNet
import TxLifecycle.Proofs.Table
import TxLifecycle.Proofs.Untouched

/-!
# The deferred rollback

The usual way to keep a transaction safe is to declare it with `x := db.Begin()` and to say
`defer x.Rollback()` further down the same statement list. This file shows that it is enough: if
nothing else is acquired into the variable, then whatever stands before, between and after the two
statements, at most one thing is reported, a missing commit or a commit whose error is thrown away.

* `Walk.Holds`: the variable has one binding, which still is the handle of one acquisition;
* `Walk.holds_of_acquire` and `Walk.exec_holds`: an acquisition into a new variable brings that
  about, and an action that acquires nothing into the variable keeps it;
* `FunctionUnit.holds_of_actions`: between the two statements the scope stays, so the `defer`
  statement rolls back just this handle, in the scope in which it was acquired;
* `FunctionUnit.deferred_rollback_covers`: what is left to report.
-/

namespace TxLifecycle

namespace Binding.Keeps

variable {b b' b'' : Binding}

theorem refl (b : Binding) : b.Keeps b :=
  ⟨rfl, rfl, rfl, rfl, rfl, rfl, List.prefix_rfl, fun h => h, Nat.le_refl _⟩

theorem trans (h : b.Keeps b') (h' : b'.Keeps b'') : b.Keeps b'' where
  id_eq := h'.id_eq.trans h.id_eq
  name_eq := h'.name_eq.trans h.name_eq
  home_eq := h'.home_eq.trans h.home_eq
  acquiredIn_eq := h'.acquiredIn_eq.trans h.acquiredIn_eq
  acquisition_eq := h'.acquisition_eq.trans h.acquisition_eq
  retired_eq := h'.retired_eq.trans h.retired_eq
  events := h.events.trans h'.events
  escaped := fun hescaped => h'.escaped (h.escaped hescaped)
  lastMention := Nat.le_trans h.lastMention h'.lastMention

end Binding.Keeps

namespace Walk

variable {limits : Limits} {w u w' : Walk} {action : Action} {x : String} {scope : ScopeId}
  {span : Span} {n : BindingId} {b : Binding} {actions : List Action} {table : List Binding}
  {i : Nat} {errVar : Option String}

/-! ## One handle -/

/-- Only an acquisition into its variable does more to a binding than to note something. -/
theorem Amends.keeps {table' : List Binding} (h : w.Amends action table table')
    (hget : table[i]? = some b)
    (hquiet : ∀ name, w.resolve name = some i → action.acquires name = false) :
    ∃ b', table'[i]? = some b' ∧ b.Keeps b' := by
  have hother : ∀ {name : String} {errVar : Option String} {span : Span} {declares : Bool},
      action = .acquire name errVar span declares → w.resolve name ≠ some i := by
    rintro name errVar span declares rfl hresolve
    simpa [Action.acquires] using hquiet name hresolve
  cases h with
  | note id hkeeps => exact exists_getElem?_modify hget (.refl b) fun _ => hkeeps b
  | retire hresolve | merge hresolve hold hmerged hmoved hhome =>
    exact exists_getElem?_modify hget (.refl b) fun heq => absurd (heq ▸ hresolve) (hother rfl)
  | add hhome hfree =>
    refine ⟨b, ?_, .refl b⟩
    rw [List.getElem?_append_left (List.getElem?_eq_some_iff.mp hget).1, hget]

/-- An action that acquires nothing into the variable leaves the handle as it is. -/
theorem exec_keepsHandle (hwf : w.WellFormed) (horderly : w.scopes.Orderly w.bindings)
    (hexec : w.exec limits action = .ok u) (hget : w.bindings[i]? = some b)
    (hquiet : action.acquires b.name = false) : ∃ b', u.bindings[i]? = some b' ∧ b.Keeps b' := by
  -- a name that means the binding is its own name
  have hname : ∀ name, w.resolve name = some i → action.acquires name = false := by
    intro name hresolve
    exact (Indexed.of_resolve hwf.indexed hresolve hget).1 ▸ hquiet
  have htable : ∀ {table : List Binding},
      Relation.ReflTransGen (w.Amends action) w.bindings table →
      ∃ b', table[i]? = some b' ∧ b.Keeps b' := by
    intro table hamends
    induction hamends with
    | refl => exact ⟨b, hget, .refl b⟩
    | tail _ hamend ih =>
      obtain ⟨b', hget', hkeeps⟩ := ih
      obtain ⟨b'', hget'', hkeeps'⟩ := hamend.keeps hget' hname
      exact ⟨b'', hget'', hkeeps.trans hkeeps'⟩
  exact htable (exec_amends hwf horderly hexec)

/-- An event that a variable got another handle comes from an acquisition into it. -/
theorem Records.acquires {event : Event} (h : w.Records action n event)
    (hkind : event.kind = .shadowing ∨ event.kind = .reassignment) :
    ∃ name, action.acquires name = true ∧ w.resolve name = some n := by
  cases h with
  | @acquire name errVar span declares id event hresolve _ _ =>
    exact ⟨name, by simp [Action.acquires], hresolve⟩
  | _ => grind [cases Exit, directKind, deferredKind, Exit.event]

/-- The variable has one binding, at position `n`. It is the handle that was acquired at `span` into
a variable of `scope`, and it has not been replaced. -/
structure Holds (w : Walk) (x : String) (scope : ScopeId) (span : Span) (n : BindingId) : Prop where
  orderly : w.scopes.Orderly w.bindings
  binding : ∃ b, w.bindings[n]? = some b ∧ b.name = x ∧ b.home = scope ∧ b.acquiredIn = scope ∧
    b.acquisition = span ∧ b.retired = false
  only : ∀ {i : Nat} {b : Binding}, w.bindings[i]? = some b → b.name = x → i = n
  /-- The variable has not got another handle. -/
  kept : ∀ event ∈ w.eventsOf n, ¬ (event.kind = .shadowing ∨ event.kind = .reassignment)

/-- Any binding of the variable is the handle. -/
theorem Holds.get_of_mem (h : w.Holds x scope span n) (hb : b ∈ w.bindings) (hname : b.name = x) :
    w.bindings[n]? = some b := by
  obtain ⟨i, hi⟩ := List.mem_iff_getElem?.mp hb
  rwa [← h.only hi hname]

/-- Only an acquisition into a variable adds a binding of it. -/
theorem exists_old_of_exec (hindexed : w.Indexed) (hexec : w.exec limits action = .ok u)
    (hquiet : action.acquires x = false) (hget : u.bindings[i]? = some b) (hname : b.name = x) :
    ∃ old, w.bindings[i]? = some old ∧ old.name = x := by
  rcases (exec_rewrites hindexed hexec).cases hget with
    ⟨old, hold, hchanges⟩ | ⟨name, errVar, span, declares, home, acquiredIn, rfl, hchanges⟩
  · exact ⟨old, hold, hchanges.name_eq.symm.trans hname⟩
  · have hsame : name = x := hchanges.name_eq.symm.trans hname
    simp [Action.acquires, hsame] at hquiet

/-- An action that acquires nothing into the variable leaves it with its handle. -/
theorem exec_holds (hwf : w.WellFormed) (hexec : w.exec limits action = .ok u)
    (hquiet : action.acquires x = false) (h : w.Holds x scope span n) :
    u.Holds x scope span n := by
  obtain ⟨b, hget, hname, hhome, hacquired, hspan, hretired⟩ := h.binding
  refine ⟨exec_orderly hwf h.orderly hexec, ?_, fun {i c} hc hcname => ?_, fun event hevent => ?_⟩
  · obtain ⟨b', hget', hkeeps⟩ := exec_keepsHandle hwf h.orderly hexec hget (hname ▸ hquiet)
    exact ⟨b', hget', hkeeps.name_eq.trans hname, hkeeps.home_eq.trans hhome,
      hkeeps.acquiredIn_eq.trans hacquired, hkeeps.acquisition_eq.trans hspan,
      hkeeps.retired_eq.trans hretired⟩
  · obtain ⟨old, hold, holdname⟩ := exists_old_of_exec hwf.indexed hexec hquiet hc hcname
    exact h.only hold holdname
  · rcases (exec_rewrites hwf.indexed hexec).mem_eventsOf hevent with hevent | hrecords
    · exact h.kept event hevent
    · -- the new events do not come from an acquisition, for that would be one into the variable
      intro hkind
      obtain ⟨name, hacquires, hresolve⟩ := hrecords.acquires hkind
      rw [← (Indexed.of_resolve hwf.indexed hresolve hget).1, hname, hquiet] at hacquires
      cases hacquires

theorem run_holds (hsound : w.Sound limits actions) (hrun : w.run limits actions = .ok w')
    (hquiet : ∀ action ∈ actions, action.acquires x = false) (h : w.Holds x scope span n) :
    w'.Holds x scope span n :=
  hsound.preserves (P := fun v => v.Holds x scope span n) hrun
    (fun haction hwf hexec hv => exec_holds hwf hexec (hquiet _ haction) hv) h

/-- Without an acquisition into it a variable gets no binding. -/
theorem run_unbound (hsound : w.Sound limits actions) (hrun : w.run limits actions = .ok w')
    (hquiet : ∀ action ∈ actions, action.acquires x = false) (h : ∀ b ∈ w.bindings, b.name ≠ x) :
    ∀ b ∈ w'.bindings, b.name ≠ x := by
  refine hsound.preserves (P := fun v => ∀ b ∈ v.bindings, b.name ≠ x) hrun ?_ h
  intro u v action haction hwf hexec hu b hb hname
  obtain ⟨i, hi⟩ := List.mem_iff_getElem?.mp hb
  obtain ⟨old, hold, holdname⟩ := exists_old_of_exec hwf.indexed hexec (hquiet _ haction) hi hname
  exact hu old (List.mem_of_getElem? hold) holdname

/-- Once a deferred rollback is recorded, it stays so. -/
theorem run_rolledBackIn (hsound : w.Sound limits actions) (hrun : w.run limits actions = .ok w')
    (h : w.RolledBackIn n scope) : w'.RolledBackIn n scope :=
  hsound.preserves (P := fun v => v.RolledBackIn n scope) hrun
    (fun _ hwf hexec hv => (exec_rolledBackIn_iff hwf.indexed hexec).mpr (Or.inl hv)) h

/-! ## The two statements -/

/-- A variable without a binding means none. -/
theorem resolve_eq_none_of_unbound (hindexed : w.Indexed)
    (hunbound : ∀ b ∈ w.bindings, b.name ≠ x) : w.resolve x = none := by
  refine Option.eq_none_iff_forall_ne_some.mpr fun id hid => ?_
  obtain ⟨b, hget, hname, -⟩ := Indexed.get_of_resolve hindexed hid
  exact hunbound b (List.mem_of_getElem? hget) hname

/-- The first binding of a variable is its only one. -/
theorem eq_length_of_first {fresh : Binding} (hunbound : ∀ b ∈ table, b.name ≠ x)
    (hget : (table ++ [fresh])[i]? = some b) (hname : b.name = x) : i = table.length := by
  rcases Nat.lt_trichotomy i table.length with hlt | heq | hgt
  · -- the old bindings are those of other variables
    rw [List.getElem?_append_left hlt] at hget
    exact absurd hname (hunbound b (List.mem_of_getElem? hget))
  · exact heq
  · rw [List.getElem?_eq_none (by rw [List.length_append]; exact hgt)] at hget
    cases hget

/-- A declaration that acquires into a new variable adds a binding for it. -/
theorem exists_fresh_of_acquire (hwf : w.WellFormed) (hunbound : ∀ b ∈ w.bindings, b.name ≠ x)
    (hexec : w.exec limits (.acquire x errVar span true) = .ok u) :
    ∃ fresh : Binding, u.bindings = w.bindings ++ [fresh] ∧ fresh.events = [] ∧
      (Binding.new w.bindings.length x w.scopes.current w.scopes.current span).Keeps fresh := by
  rw [exec, acquire_eq, acquisition, resolve_eq_none_of_unbound hwf.indexed hunbound,
    Option.bind_none] at hexec
  cases hdeclare : w.declareError errVar true with
  | error e =>
    rw [hdeclare] at hexec
    cases hexec
  | ok v =>
    rw [hdeclare] at hexec
    cases hexec
    -- to declare the error variable changes neither the table nor the current scope
    have halike := alike_of_declareError hwf hdeclare
    rw [← halike.bindings, ← halike.current]
    cases errVar with
    | none => exact ⟨_, rfl, rfl, .refl _⟩
    | some errVar =>
      refine ⟨{ Binding.new v.bindings.length x v.scopes.current v.scopes.current span with
        errVar := some errVar }, ?_, rfl,
        ⟨rfl, rfl, rfl, rfl, rfl, rfl, List.prefix_rfl, fun h => h, Nat.le_refl _⟩⟩
      simp [awaitCheck, modifyBinding, addBinding, List.modify_eq_take_cons_drop]

/-- After it the variable holds that handle. -/
theorem holds_of_acquire (hwf : w.WellFormed) (horderly : w.scopes.Orderly w.bindings)
    (hunbound : ∀ b ∈ w.bindings, b.name ≠ x)
    (hexec : w.exec limits (.acquire x errVar span true) = .ok u) :
    u.Holds x w.scopes.current span w.bindings.length := by
  obtain ⟨fresh, hbindings, hevents, hkeeps⟩ := exists_fresh_of_acquire hwf hunbound hexec
  have hfresh : u.bindings[w.bindings.length]? = some fresh := by
    rw [hbindings, List.getElem?_concat_length]
  refine ⟨exec_orderly hwf horderly hexec, ⟨fresh, hfresh, hkeeps.name_eq, hkeeps.home_eq,
    hkeeps.acquiredIn_eq, hkeeps.acquisition_eq, hkeeps.retired_eq⟩, fun {i b} hget hname => ?_, ?_⟩
  · rw [hbindings] at hget
    exact eq_length_of_first hunbound hget hname
  · rw [eventsOf_eq hfresh, hevents]
    simp

/-- In the scope of the variable its name means the handle, also after a plain local of that name
was declared there. -/
theorem Holds.resolve_eq (h : w.Holds x w.scopes.current span n) (hwf : w.WellFormed) :
    w.resolve x = some n := by
  obtain ⟨b, hget, hname, hhome, -, -, hretired⟩ := h.binding
  cases hown : w.ownedBy w.scopes.current x with
  | none =>
    rw [retired_of_ownedBy_eq_none hown b (List.mem_of_getElem? hget) hname hhome] at hretired
    cases hretired
  | some c =>
    obtain ⟨hc, hcname, -⟩ := of_ownedBy_eq_some hown
    rw [resolve, hwf.tree.stack_eq, hwf.tree.ancestors_eq, resolveIn, hown]
    exact congrArg some (hwf.indexed (h.get_of_mem hc hcname))

end Walk

/-! ## How the two statements are read -/

/-- Statement lists are read one after the other. -/
theorem stmtsActions_append (names : Recognizers) (first second : List Stmt) :
    stmtsActions names (first ++ second) =
      stmtsActions names first ++ stmtsActions names second := by
  induction first with
  | nil => rfl
  | cons stmt rest ih =>
    -- what a statement adds does not depend on the statements after it
    obtain ⟨own, hown⟩ :
        ∃ own, ∀ rest, stmtsActions names (stmt :: rest) = own ++ stmtsActions names rest := by
      cases stmt <;> exact ⟨_, fun _ => rfl⟩
    rw [List.cons_append, hown, hown, ih, List.append_assoc]

variable {names : Recognizers} {s : Stmt} {x : String}

/-- A declaration that starts a transaction acquires before the statements that follow. -/
theorem Stmt.Starts.exists_actions (h : s.Starts names x) (hx : x ≠ "_") :
    ∃ lead errVar targets, ∀ rest, stmtsActions names (s :: rest) = lead ++
      .acquire x errVar s.span true :: (declareActions targets ++ stmtsActions names rest) := by
  obtain ⟨call, errVar, targets, hread⟩ := h.actions_eq hx
  have hlist : ∀ rest, stmtsActions names (s :: rest) =
      .dropGuards :: s.actions names ++ stmtsActions names rest := by
    cases h <;> exact fun _ => rfl
  refine ⟨.dropGuards :: .count :: .setSpan s.span :: exprsActions names [call], errVar, targets,
    fun rest => ?_⟩
  rw [hlist, hread]
  simp

/-- A `defer` statement that calls a method on a variable is registered before the call, and the
call before what it evaluates. -/
theorem stmtsActions_deferStmt (names : Recognizers) (x method : String) (args : List Expr)
    (span span' span'' place : Span) (rest : List Stmt) :
    stmtsActions names
        (.deferStmt (.call (.selector (.ident x span) method span') args span'') place :: rest) =
      [.dropGuards, .count, .setSpan place] ++ .addDefer ::
        .deferCall x (names.isCommit method) ::
          (Expr.actions names (.selector (.ident x span) method span') ++ exprsActions names args
            ++ stmtsActions names rest) :=
  rfl

/-- A declaration that starts a transaction counts as an acquisition of its statement list. -/
theorem Stmt.Starts.acquisitions_pos (h : s.Starts names x) {list : List Stmt} (hs : s ∈ list) :
    0 < acquisitions names x (stmtsParts list) := by
  induction list with
  | nil => cases hs
  | cons stmt rest ih =>
    rw [stmtsParts, acquisitions_append]
    rcases List.mem_cons.mp hs with rfl | hs
    · refine Nat.add_pos_left ?_ _
      cases h with
      | short hcall =>
        simp [Stmt.parts, Stmt.acquires, Recognizers.acquisitionOf, hcall, Expr.asIdent]
      | var hcall => simp [Stmt.parts, Stmt.acquires, Recognizers.acquisitionOf, hcall]
    · exact Nat.add_pos_right _ (ih hs)

/-- A list that acquires nothing into a variable. -/
theorem acquires_eq_false_of_countP {actions : List Action}
    (h : actions.countP (·.acquires x) = 0) : ∀ action ∈ actions, action.acquires x = false := by
  intro action haction
  simpa using List.countP_eq_zero.mp h action haction

/-- Around the only acquisition into a variable there is no other one. -/
theorem acquires_eq_false_of_once {before rest : List Action} {errVar : Option String} {span : Span}
    {declares : Bool}
    (h : (before ++ .acquire x errVar span declares :: rest).countP (·.acquires x) ≤ 1) :
    (∀ action ∈ before, action.acquires x = false) ∧
      ∀ action ∈ rest, action.acquires x = false := by
  rw [List.countP_append, List.countP_cons_of_pos (by simp [Action.acquires])] at h
  exact ⟨acquires_eq_false_of_countP (by omega), acquires_eq_false_of_countP (by omega)⟩

/-! ## The reports on a variable -/

/-- Where a variable has at most one binding, at most one thing is reported on it. -/
theorem Tracked.violations_cases {tracked : Tracked} {kinds : List ViolationKind}
    (function : String) (hlength : (tracked.bindings.filter (·.name == x)).length ≤ 1)
    (hkinds : ∀ b ∈ tracked.bindings, b.name = x → ∀ {kind : ViolationKind} {span : Span},
      b.verdict tracked.scopes = some (kind, span) → kind ∈ kinds) :
    (tracked.violations function).filter (·.variableName == x) = [] ∨
      ∃ v, (tracked.violations function).filter (·.variableName == x) = [v] ∧ v.kind ∈ kinds := by
  rw [Tracked.violations_filter, Tracked.violations]
  rcases Nat.le_one_iff_eq_zero_or_eq_one.mp hlength with hzero | hone
  · rw [List.length_eq_zero_iff.mp hzero]
    exact Or.inl rfl
  · obtain ⟨b, hfilter⟩ := List.length_eq_one_iff.mp hone
    have hb : b ∈ tracked.bindings.filter (·.name == x) := hfilter ▸ List.mem_singleton.mpr rfl
    obtain ⟨hmem, hname⟩ := List.mem_filter.mp hb
    rw [hfilter]
    cases hverdict : b.verdict tracked.scopes with
    | none => exact Or.inl (by simp [hverdict])
    | some verdict =>
      exact Or.inr ⟨Violation.new function b.name verdict.1 verdict.2, by simp [hverdict],
        hkinds b hmem (eq_of_beq hname) hverdict⟩

/-- A table in which a variable has at most one binding. -/
theorem length_filter_le_one {n : Nat} {table : List Binding}
    (h : ∀ {i : Nat} {b : Binding}, table[i]? = some b → b.name = x → i = n) :
    (table.filter (·.name == x)).length ≤ 1 := by
  induction table generalizing n with
  | nil => simp
  | cons b rest ih =>
    by_cases hname : b.name = x
    · -- the first one is the one
      obtain rfl : 0 = n := h rfl hname
      have hrest : rest.filter (·.name == x) = [] := by
        refine List.filter_eq_nil_iff.mpr fun c hc hcname => ?_
        obtain ⟨i, hi⟩ := List.mem_iff_getElem?.mp hc
        have hzero : i + 1 = 0 := h (b := c) hi (eq_of_beq hcname)
        omega
      simp [hname, hrest]
    · rw [List.filter_cons_of_neg (by simpa using hname)]
      refine ih (n := n - 1) fun {i c} hi hcname => ?_
      have hnext : i + 1 = n := h (b := c) hi hcname
      omega

namespace FunctionUnit

variable {limits : Limits} {names : Recognizers} {unit : FunctionUnit} {x method : String}
  {w : Walk} {tracked : Tracked} {args : List Expr} {place span : Span} {start : Stmt}

/-- Where the code between an acquisition and a `defer` statement puts back the scope, the deferred
rollback is recorded for the scope of the acquisition. -/
theorem holds_of_actions {before after : List Action} {flow : Flow .code} {errVar : Option String}
    (hactions : unit.actions names = before ++ .acquire x errVar span true :: (flow.actions ++
      .addDefer :: .deferCall x false :: after))
    (honce : (unit.actions names).countP (·.acquires x) ≤ 1)
    (hrun : Walk.run limits {} (unit.actions names) = .ok w) :
    ∃ scope n, w.Holds x scope span n ∧ w.RolledBackIn n scope := by
  have hsound := unit.sound_actions limits names
  rw [hactions] at hsound hrun honce
  obtain ⟨hbefore, hrest⟩ := acquires_eq_false_of_once honce
  -- the states before and after the acquisition, the code between, and the `defer` statement
  obtain ⟨u, hu, hrun⟩ := Walk.run_append_eq_ok.mp hrun
  obtain ⟨v, hv, hrun⟩ := Walk.run_cons_eq_ok.mp hrun
  obtain ⟨t, ht, hrun⟩ := Walk.run_append_eq_ok.mp hrun
  obtain ⟨s, hs, hrun⟩ := Walk.run_cons_eq_ok.mp hrun
  obtain ⟨r, hr, hrun⟩ := Walk.run_cons_eq_ok.mp hrun
  have hsoundu := hsound.drop hu
  have hsoundv := hsoundu.2.2 v hv
  have hsoundt := hsoundv.drop ht
  have hsounds := hsoundt.2.2 s hs
  have hsoundr := hsounds.2.2 r hr
  -- up to there the variable is new, and from there on it keeps the handle
  have horderly := (hsound.take.ages hu Walk.orderly_init).1
  have hunbound := Walk.run_unbound hsound.take hu hbefore (x := x) (by simp)
  have hholds := Walk.holds_of_acquire hsoundu.wellFormed horderly hunbound hv
  have hholds := Walk.run_holds hsoundv.take ht (fun a ha => hrest a (by simp [ha])) hholds
  have hholds := Walk.exec_holds hsoundt.wellFormed hs rfl hholds
  -- the `defer` statement is met in the scope of the acquisition
  have hcurrent : s.scopes.current = u.scopes.current := by
    have hready : u.Ready .code := prepared_of_run hactions hu
    have hwalks := Flow.walks_of_run (.seq (.act (.acquire x errVar span true) rfl) flow) hready
      (Walk.run_cons_eq_ok.mpr ⟨v, hv, ht⟩)
    have hedits := Walk.exec_edits hsoundt.wellFormed.indexed rfl hs
    exact hedits.current.trans hwalks.balanced.current
  rw [← hcurrent] at hholds
  have hdefers := Walk.Defers.called (hholds.resolve_eq hsounds.wellFormed)
  have hrolled := (Walk.exec_rolledBackIn_iff hsounds.wellFormed.indexed hr).mpr (Or.inr hdefers)
  have hholds := Walk.exec_holds hsounds.wellFormed hr rfl hholds
  exact ⟨_, _, Walk.run_holds hsoundr hrun (fun a ha => hrest a (by simp [ha])) hholds,
    Walk.run_rolledBackIn hsoundr hrun hrolled⟩

/-- Where a statement list is read in one piece and holds the two statements, the variable ends with
the one handle, which is rolled back in its own scope. -/
theorem holds_of_list {pre mid post : List Stmt} {span' span'' : Span} (hx : x ≠ "_")
    (hstart : start.Starts names x) (hmethod : names.isCommit method = false)
    (honce : (unit.actions names).countP (·.acquires x) ≤ 1)
    (hlist : stmtsActions names (pre ++ start :: mid ++
      .deferStmt (.call (.selector (.ident x span) method span') args span'') place :: post) <:+:
        unit.actions names)
    (hrun : Walk.run limits {} (unit.actions names) = .ok w) :
    ∃ scope n, w.Holds x scope start.span n ∧ w.RolledBackIn n scope := by
  obtain ⟨lead, errVar, targets, hlead⟩ := hstart.exists_actions hx
  obtain ⟨outer, outer', houter⟩ := hlist
  have hplain : ∀ action ∈ [.dropGuards, .count, .setSpan place], Action.isPlain action = true := by
    simp [Action.isPlain]
  let between : Flow .code :=
    .seq (.acts _ (declareActions_plain targets)) (.seq (stmtsFlow names mid) (.acts _ hplain))
  have hbetween : between.actions = declareActions targets ++
      (stmtsActions names mid ++ [.dropGuards, .count, .setSpan place]) :=
    Flow.actions_seq (Flow.actions_acts _ _)
      (Flow.actions_seq (stmtsFlow_actions names mid) (Flow.actions_acts _ hplain))
  -- all that is read before the acquisition, and all that is read after the deferred call
  have hactions : unit.actions names =
      (outer ++ stmtsActions names pre ++ lead) ++ .acquire x errVar start.span true ::
        (between.actions ++ .addDefer :: .deferCall x false ::
          (Expr.actions names (.selector (.ident x span) method span') ++ exprsActions names args
            ++ stmtsActions names post ++ outer')) := by
    rw [← houter, hbetween, List.append_assoc pre, stmtsActions_append, List.cons_append, hlead,
      stmtsActions_append, stmtsActions_deferStmt, hmethod]
    simp only [List.append_assoc, List.cons_append]
  exact holds_of_actions hactions honce hrun

/-- Where any statement list of the function holds the two statements, the variable ends with that
handle, or the list is not read and the variable has no binding at all. -/
theorem unbound_or_holds {list pre mid post : List Stmt} {span' span'' : Span} (hx : x ≠ "_")
    (hlist : list ∈ unit.lists)
    (hshape : list = pre ++ start :: mid ++
      .deferStmt (.call (.selector (.ident x span) method span') args span'') place :: post)
    (hstart : start.Starts names x) (hmethod : names.isCommit method = false)
    (honce : acquisitions names x unit.parts ≤ 1)
    (hrun : Walk.run limits {} (unit.actions names) = .ok w) :
    (∀ b ∈ w.bindings, b.name ≠ x) ∨
      ∃ scope n, w.Holds x scope start.span n ∧ w.RolledBackIn n scope := by
  have hreading := FunctionUnit.reading names x unit
  rcases hreading.piece list hlist with hread | hmissing
  · rw [hshape] at hread
    exact Or.inr (holds_of_list hx hstart hmethod (Nat.le_trans hreading.count honce) hread hrun)
  · -- the declaration is among the acquisitions that are missing, so there is no other one
    have hpos : 0 < acquisitions names x (stmtsParts list) :=
      hstart.acquisitions_pos (by simp [hshape])
    exact Or.inl (Walk.run_unbound (unit.sound_actions limits names) hrun
      (acquires_eq_false_of_countP (by omega)) (by simp))

/-- Under such a rollback, and with no other handle in the variable, two things are left to
report. -/
theorem kind_of_holds (htrack : unit.track limits names = .ok ⟨w.scopes, w.bindings⟩)
    {scope : ScopeId} {n : BindingId} (hholds : w.Holds x scope span n)
    (hrolled : w.RolledBackIn n scope) {b : Binding} (hget : w.bindings[n]? = some b)
    {kind : ViolationKind} (hverdict : b.verdict w.scopes = some (kind, place)) :
    kind ∈ [.noCommit, .commitErrorIgnored] := by
  have hb : b ∈ w.bindings := List.mem_of_getElem? hget
  obtain ⟨c, hc, -, -, hacquired, -⟩ := hholds.binding
  obtain rfl : b = c := Option.some.inj (hget.symm.trans hc)
  have hkept := hholds.kept
  rw [Walk.eventsOf_eq hget] at hkept
  rw [Walk.RolledBackIn, Walk.eventsOf_eq hget] at hrolled
  obtain ⟨event, hevent, hkind, hscope⟩ := hrolled
  -- the rollback belongs to the acquiring scope itself
  have hnet : b.hasSafetyNet w.scopes = true := by
    refine (hasSafetyNet_iff_event htrack hb).mpr ⟨event, hevent, hkind, ?_⟩
    rw [hscope, hacquired]
    exact ScopeTree.self_mem_ancestors _ _
  have hnone : ∀ kind, kind = .shadowing ∨ kind = .reassignment → b.has kind = false := by
    intro kind hlost
    refine List.any_eq_false.mpr fun event hevent heq => hkept event hevent ?_
    rwa [eq_of_beq heq]
  have hrollback := hasRollback_of_hasSafetyNet htrack hb hnet
  rcases Binding.kind_of_hasSafetyNet hnet hrollback hverdict with
    ⟨hshadowing, -⟩ | ⟨hreassigned, -⟩ | rfl | rfl
  · simp [hnone _ (Or.inl rfl)] at hshadowing
  · simp [hnone _ (Or.inr rfl)] at hreassigned
  · simp
  · simp

/-- **A deferred rollback covers its transaction.** Let a statement list of a function, also of one
of its function literals, declare a variable with a recognized acquisition and further down defer a
method of it that is no commit, and let nothing else in the function be acquired into the variable.
Then all that the table says of the variable comes from this acquisition, and whatever else stands
in the list or around it, nothing is reported on the variable or one thing is: that it is not
committed, or that the error of a commit is thrown away. -/
theorem deferred_rollback_covers (htrack : unit.track limits names = .ok tracked) (hx : x ≠ "_")
    {list pre mid post : List Stmt} {start : Stmt} {method : String} {args : List Expr}
    {span span' span'' place : Span} (hlist : list ∈ unit.lists)
    (hshape : list = pre ++ start :: mid ++
      .deferStmt (.call (.selector (.ident x span) method span') args span'') place :: post)
    (hstart : start.Starts names x) (hmethod : names.isCommit method = false)
    (honce : acquisitions names x unit.parts ≤ 1) :
    (tracked.bindings.filter (·.name == x)).length ≤ 1 ∧
    (∀ b ∈ tracked.bindings, b.name = x → b.acquisition = start.span) ∧
    (start ∈ unit.statements ∨ stmtsActions names list <:+: unit.actions names →
      ∃ b ∈ tracked.bindings, b.name = x) ∧
    ((tracked.violations unit.name).filter (·.variableName == x) = [] ∨
      ∃ v, (tracked.violations unit.name).filter (·.variableName == x) = [v] ∧
        v.kind ∈ [.noCommit, .commitErrorIgnored]) := by
  obtain ⟨w, hwalk, rfl⟩ := exists_walk_of_track htrack
  have hrun := run_of_walk hwalk
  have hexists : start ∈ unit.statements ∨ stmtsActions names list <:+: unit.actions names →
      ∃ b ∈ w.bindings, b.name = x := by
    rintro (hs | hread)
    · exact exists_named_of_starts hwalk hx hs hstart
    · have hcount := (FunctionUnit.reading names x unit).count
      rw [hshape] at hread
      obtain ⟨scope, n, hholds, -⟩ :=
        holds_of_list hx hstart hmethod (Nat.le_trans hcount honce) hread hrun
      obtain ⟨b, hget, hname, -⟩ := hholds.binding
      exact ⟨b, List.mem_of_getElem? hget, hname⟩
  rcases unbound_or_holds hx hlist hshape hstart hmethod honce hrun with
    hunbound | ⟨scope, n, hholds, hrolled⟩
  · -- without a binding there is nothing to report
    have hlength := length_filter_le_one (n := 0) fun hi hname =>
      absurd hname (hunbound _ (List.mem_of_getElem? hi))
    exact ⟨hlength, fun b hb hname => absurd hname (hunbound b hb), hexists,
      Tracked.violations_cases unit.name hlength fun b hb hname => absurd hname (hunbound b hb)⟩
  · have hlength := length_filter_le_one hholds.only
    refine ⟨hlength, fun b hb hname => ?_, hexists,
      Tracked.violations_cases unit.name hlength fun b hb hname kind span hverdict =>
        kind_of_holds htrack hholds hrolled (hholds.get_of_mem hb hname) hverdict⟩
    obtain ⟨c, hc, -, -, -, hspan, -⟩ := hholds.binding
    rwa [Option.some.inj ((hholds.get_of_mem hb hname).symm.trans hc)]

/-- The body of a loop that starts a transaction, defers its rollback, shares the handle with a
goroutine, and then panics before it commits with no look at the error. -/
def rollingLoop : List Stmt :=
  [.exprStmt (.call (.ident "wait" {}) [] {}) {}]
    ++ .shortVarDecl [.ident "tx" {}, .ident "err" {}]
        [.call (.selector (.ident "db" {}) "Begin" {}) [] {}] {}
      :: [.ifStmt {
            init := none
            cond := .ident "err" {}
            consequence := { stmts := [.returnStmt [] {}], span := {} }
            otherwise := none
            span := {} }]
    ++ .deferStmt (.call (.selector (.ident "tx" {}) "Rollback" {}) [] {}) {}
      :: [.goStmt (.call (.ident "audit" {}) [.ident "tx" {}] {}) {},
          .exprStmt (.call (.ident "panic" {}) [.ident "err" {}] {}) {},
          .assign [.ident "_" {}] [.call (.selector (.ident "tx" {}) "Commit" {}) [] {}] {},
          .returnStmt [] {}]

/-- A function that runs the loop in a goroutine. -/
def rollingWorker : FunctionUnit where
  name := "Work"
  body := {
    stmts := [
      .goStmt (.call (.funcLit [] {
        stmts := [.forStmt none none none { stmts := rollingLoop, span := {} } {}]
        span := {} } {}) [] {}) {}]
    span := {} }

/-- Of all that, the commit is what is reported. -/
theorem deferred_rollback_covers_rollingWorker :
    ∃ tracked : Tracked, rollingWorker.track {} {} = .ok tracked ∧
      rollingLoop ∈ rollingWorker.lists ∧ acquisitions {} "tx" rollingWorker.parts = 1 ∧
      ∃ v, (tracked.violations "Work").filter (·.variableName == "tx") = [v] ∧
        v.kind ∈ [.noCommit, .commitErrorIgnored] := by
  have hwalk : ∃ tracked : Tracked, rollingWorker.track {} {} = .ok tracked ∧
      (tracked.violations "Work").filter (·.variableName == "tx") ≠ [] :=
    ⟨_, rfl, by decide +kernel⟩
  obtain ⟨tracked, htrack, hreported⟩ := hwalk
  have hlist : rollingLoop ∈ rollingWorker.lists := .tail _ (.tail _ (.head _))
  have honce : acquisitions {} "tx" rollingWorker.parts = 1 := by decide +kernel
  obtain ⟨-, -, -, hnone | hone⟩ := deferred_rollback_covers htrack (x := "tx") (by decide) hlist
    rfl (.short rfl) rfl (Nat.le_of_eq honce)
  · exact absurd hnone hreported
  · exact ⟨tracked, htrack, hlist, honce, hone⟩

end FunctionUnit

end TxLifecycle
