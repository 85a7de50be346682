import TxLifecycle.Proofs.Sites

/-!
# Where events point

An event points at the statement that was read when it was recorded. Each statement makes itself the
one to point at and stays so until the next one begins. Function literals and conditions of `if`
statements put back what was there before. A `for` or `switch` does not: what it reads behind its
init clause is taken for a part of that clause.

* `Phrase.Nests`: the places of phrases nest, as those of the functions of a file do
  (`Concrete.nests_of_mem_functions`);
* `Action.point`, `Walk.Traced`: the statement to point at, told from the actions alone;
* `Pointed`: a place that contains a call, or the exception for what follows an init clause;
* `Composed.hits`: commits and rollbacks point at the places where their calls are read.

The main statement is `FunctionUnit.pointed_of_direct`.
-/

namespace TxLifecycle

/-! ## Phrases that nest -/

namespace Phrase

/-- Every phrase in it lies inside the one that it belongs to. -/
def Nests (root : Phrase) : Prop :=
  ∀ p q : Phrase, p.Within root → q ∈ p.phrases → p.span.contains q.span

variable {root p q : Phrase} {n : Nat}

/-- All phrases in it pass the test, and they have at most so many levels. -/
def all (test : Phrase → Bool) : Nat → Phrase → Bool
  | 0, _ => false
  | n + 1, p => test p && p.phrases.all (all test n)

theorem Within.of_all {test : Phrase → Bool} (hall : root.all test n = true) (h : p.Within root) :
    test p = true := by
  induction n generalizing root with
  | zero => cases hall
  | succ n ih =>
    obtain ⟨htest, hrest⟩ := Bool.and_eq_true_iff.mp hall
    rcases Relation.ReflTransGen.cases_head h with rfl | ⟨q, hq, hp⟩
    · exact htest
    · exact ih (List.all_eq_true.mp hrest q hq) hp

/-- The phrase is a method call in the place. -/
def callsIn (place : Span) : Phrase → Bool
  | .expr e => e.methodCall.isSome && place.contains e.span
  | _ => false

theorem Nests.of_all (h : root.all (fun p => p.phrases.all (p.span.contains ·.span)) n = true) :
    root.Nests :=
  fun _ q hp hq => List.all_eq_true.mp (hp.of_all h) q hq

theorem Nests.of_phrases (h : ∀ q ∈ p.phrases, p.span.contains q.span ∧ q.Nests) : p.Nests := by
  intro q r hq hr
  rcases Relation.ReflTransGen.cases_head hq with rfl | ⟨s, hs, hrest⟩
  · exact (h r hr).1
  · exact (h s hs).2 q r hrest hr

theorem Placed.nests {size : Nat} {func outer : Span} (h : Placed size func outer p) :
    p.Nests := by
  induction h with
  | mk _ _ _ _ _ phrases ih => exact .of_phrases fun q hq => ⟨(phrases q hq).inside, ih q hq⟩

theorem Nests.contains (h : root.Nests) (hp : p.Within root) (hq : q.Within p) :
    p.span.contains q.span := by
  induction hq with
  | refl => exact Span.contains_self _
  | tail hmiddle hlast ih =>
    exact Span.contains_trans ih (h _ _ (Relation.ReflTransGen.trans hp hmiddle) hlast)

end Phrase

/-- The phrases of a function read from a concrete tree nest, if the places of the tree do. -/
theorem Concrete.nests_of_mem_functions {source : Source} {maxDepth : Nat} {root : Node}
    {decl : FuncDecl} {body : Block} (hnested : root.Nested)
    (hsize : root.span.stop ≤ source.bytes.size)
    (hdecl : decl ∈ (fileOf source maxDepth root).functions) (hbody : decl.body = some body) :
    (Phrase.block body).Nests :=
  ((wellPlaced_of_mem_functions hnested hsize hdecl).body body hbody).nests

/-! ## The statement to point at -/

/-- What an action makes of the statement to point at, and of those around the open literals. -/
def Action.point (pointer : Span × List Span) : Action → Span × List Span
  | .setSpan span => (span, pointer.2)
  | .openBody _ => (pointer.1, pointer.1 :: pointer.2)
  | .closeBody => (pointer.2.headD pointer.1, pointer.2.tail)
  | _ => pointer

namespace Walk

variable {limits : Limits} {w u : Walk} {action : Action} {read : List Action}

/-- The statement to point at, and those around the open literals. -/
def pointer (w : Walk) : Span × List Span :=
  (w.context.span, w.outer.map (·.span))

theorem pointer_of_exec (hindexed : w.Indexed) (h : w.exec limits action = .ok u) :
    u.pointer = action.point w.pointer := by
  have hsame : u.context = w.context → u.outer = w.outer → u.pointer = w.pointer := by
    intro hcontext houter
    rw [pointer, hcontext, houter, pointer]
  cases action with
  | setSpan span =>
    cases h
    rfl
  | enter kind => exact hsame (exec_enter h).context_eq (exec_enter h).outer_eq
  | enterArm kind => exact hsame (exec_enterArm h).context_eq (exec_enterArm h).outer_eq
  | leave => exact hsame (closes_of_leave h).context_eq (closes_of_leave h).outer_eq
  | openBody kind =>
    rw [pointer, (exec_openBody h).context_eq, (exec_openBody h).outer_eq]
    cases kind <;> rfl
  | closeBody =>
    rw [pointer, (exec_closeBody h).context_eq, (exec_closeBody h).outer_eq, pointer]
    cases w.outer <;> rfl
  | openConstruct | closeConstruct | openGuard | closeGuard =>
    cases h
    rfl
  | _ =>
    -- the others open and close nothing
    have hedits := exec_edits hindexed rfl h
    rw [pointer, hedits.span rfl, hedits.outer]
    rfl

theorem pointer_of_run {actions : List Action} (hsound : w.Sound limits actions)
    (hrun : w.run limits actions = .ok u) : u.pointer = actions.foldl Action.point w.pointer := by
  induction actions generalizing w with
  | nil =>
    cases hrun
    rfl
  | cons action rest ih =>
    obtain ⟨v, hexec, hrest⟩ := run_cons_eq_ok.mp hrun
    rw [ih (hsound.2.2 v hexec) hrest, pointer_of_exec hsound.1.indexed hexec, List.foldl_cons]

/-- The statement to point at is told from what has been read, and every commit or rollback that is
not deferred points at the one of its call. -/
def Traced (read : List Action) (w : Walk) : Prop :=
  w.pointer = read.foldl Action.point ({}, []) ∧
    ∀ {i : Nat} {b : Binding} {event : Event}, w.bindings[i]? = some b → event ∈ b.events →
      event.kind.isDirectFinalization = true →
      ∃ before commit rest, read = before ++ .finalize b.name commit :: rest ∧
        event.kind = directKind commit ∧
        event.span = (before.foldl Action.point ({}, [])).1

theorem exec_traced (h : Traced read w) (hwf : w.WellFormed)
    (hexec : w.exec limits action = .ok u) : Traced (read ++ [action]) u := by
  refine ⟨?_, fun {i b event} hget hevent hkind => ?_⟩
  · rw [pointer_of_exec hwf.indexed hexec, h.1, List.foldl_append, List.foldl_cons, List.foldl_nil]
  have hrewrites := exec_rewrites hwf.indexed hexec
  -- variables keep their names
  have hold : ∀ {old : Binding}, w.bindings[i]? = some old → event ∈ old.events →
      ∃ before commit rest, read ++ [action] = before ++ .finalize b.name commit :: rest ∧
        event.kind = directKind commit ∧
        event.span = (before.foldl Action.point ({}, [])).1 := by
    intro old hgetOld heventOld
    obtain ⟨b', hget', hchanges⟩ := hrewrites.old hgetOld
    obtain rfl : b' = b := Option.some.inj (hget'.symm.trans hget)
    obtain ⟨before, commit, rest, rfl, hcommit, hspan⟩ := h.2 hgetOld heventOld hkind
    exact ⟨before, commit, rest ++ [action], by simp [hchanges.name_eq], hcommit, hspan⟩
  rcases hrewrites.event_cases hget hevent with ⟨old, hgetOld, heventOld⟩ | hnew
  · exact hold hgetOld heventOld
  · obtain ⟨name, commit, rfl, hresolve, -, -, hdefer⟩ := hnew.of_direct hkind
    obtain ⟨old, hgetOld, hname, -, -⟩ := Indexed.get_of_resolve hwf.indexed hresolve
    obtain ⟨recorded, hcommit, hspan, rfl⟩ := exec_finalize hexec hresolve hdefer
    rw [modifyBinding, List.getElem?_modify_eq, hgetOld] at hget
    obtain rfl := Option.some.inj hget
    rcases List.mem_append.mp hevent with hevent | hevent
    · exact hold hgetOld hevent
    · obtain rfl := List.mem_singleton.mp hevent
      refine ⟨read, commit, [], ?_, hcommit, hspan.trans (congrArg Prod.fst h.1)⟩
      exact congrArg (fun x => read ++ [Action.finalize x commit]) hname.symm

end Walk

/-! ## What calls are pointed at with -/

/-- The place contains the call, or the call is read behind an init clause that contains the
place. -/
def Pointed (root : Phrase) (place : Span) (call : Expr) : Prop :=
  place.contains call.span ∨ ∃ s init e, (Phrase.stmt s).Within root ∧ s.header = some (init, e) ∧
    (Phrase.expr call).Within (.expr e) ∧ init.span.contains place

/-- If places nest, calls are read at such places. -/
theorem Phrase.Nests.discipline {root : Phrase} (h : root.Nests) :
    Discipline root (fun place e => (Phrase.expr e).Within root ∧ Pointed root place e)
      (fun outer place => outer.contains place = true) where
  refl := Span.contains_self
  inside := fun hp hq hplace => Span.contains_trans (h _ _ hp hq) hplace
  fits := fun hp he hd =>
    ⟨Relation.ReflTransGen.trans (hp.part he) hd,
      Or.inl (h.contains hp (Relation.ReflTransGen.head he hd))⟩
  header := fun hs hheader he hplace hd =>
    ⟨Relation.ReflTransGen.trans (hs.part he) hd, Or.inr ⟨_, _, _, hs, hheader, hd, hplace⟩⟩

/-- The commits and rollbacks among the actions point at places that suit them. -/
def Hits (P : Span → Action → Prop) (pointer : Span × List Span) : List Action → Prop
  | [] => True
  | action :: rest =>
    (action.isFinalize = true → P pointer.1 action) ∧ Hits P (action.point pointer) rest

section Hits

variable {P : Span → Action → Prop} {actions : List Action} {pointer : Span × List Span}

theorem hits_append {actions' : List Action} :
    Hits P pointer (actions ++ actions') ↔
      Hits P pointer actions ∧ Hits P (actions.foldl Action.point pointer) actions' := by
  induction actions generalizing pointer with
  | nil => simp [Hits]
  | cons action rest ih => simp [Hits, ih, and_assoc]

/-- Actions none of which moves on. -/
theorem hits_of_forall
    (h : ∀ action ∈ actions, action.aims = false ∨ action.isFinalize = true ∧ P pointer.1 action) :
    Hits P pointer actions ∧ actions.foldl Action.point pointer = pointer := by
  induction actions with
  | nil => exact ⟨trivial, rfl⟩
  | cons action rest ih =>
    have hrest := ih fun a ha => h a (List.mem_cons_of_mem _ ha)
    have hpoint : action.point pointer = pointer := by
      rcases h action List.mem_cons_self with haction | ⟨haction, -⟩ <;>
        cases action <;> first | rfl | cases haction
    rw [List.foldl_cons, Hits, hpoint]
    refine ⟨⟨fun hfinalize => ?_, hrest.1⟩, hrest.2⟩
    rcases h action List.mem_cons_self with haction | ⟨-, hP⟩
    · cases action with
      | finalize => cases haction
      | _ => cases hfinalize
    · exact hP

/-- A bracket around actions, with what it makes of the place. -/
theorem hits_bracket {inner outer : Span × List Span} {first last : Action}
    (hfirst : first.isFinalize = false) (hlast : last.isFinalize = false)
    (hopen : first.point pointer = inner) (hclose : last.point outer = pointer)
    (h : Hits P inner actions ∧ actions.foldl Action.point inner = outer) :
    Hits P pointer (first :: actions ++ [last]) ∧
      (first :: actions ++ [last]).foldl Action.point pointer = pointer := by
  subst hopen
  have hfold : (first :: actions).foldl Action.point pointer = outer := h.2
  refine ⟨hits_append.mpr ⟨⟨fun hfinalize => ?_, h.1⟩, fun hfinalize => ?_, trivial⟩, ?_⟩
  · rw [hfirst] at hfinalize
    cases hfinalize
  · rw [hlast] at hfinalize
    cases hfinalize
  · rw [List.foldl_append, hfold]
    exact hclose

/-- Composed actions point their commits and rollbacks at the places where their calls are read. -/
theorem Composed.hits {names : Recognizers} {F : Span → Expr → Prop} {place last : Span}
    {parts : List Part} {lists : List (List Stmt)}
    (h : Composed names F place parts lists actions last)
    (hP : ∀ place call action, F place call → action ∈ names.finalizeActions call → P place action)
    (outer : List Span) :
    Hits P (place, outer) actions ∧ actions.foldl Action.point (place, outer) = (last, outer) := by
  induction h generalizing outer with
  | nil | unread => exact ⟨trivial, rfl⟩
  | @quiet _ action hquiet =>
    refine hits_of_forall fun a ha => Or.inl ?_
    obtain rfl := List.mem_singleton.mp ha
    cases a <;> first | rfl | cases hquiet
  | set => exact ⟨⟨fun hfinalize => (by cases hfinalize), trivial⟩, rfl⟩
  | @expr place e actions he hsublist =>
    refine hits_of_forall fun a ha => ?_
    cases e with
    | call func args span =>
      rcases List.mem_append.mp (hsublist.subset ha) with h | h
      · exact Or.inr ⟨names.finalizeActions_isFinalize _ a h, hP _ _ _ he h⟩
      · unfold Recognizers.delegateActions at h
        split at h
        · exact Or.inl (List.mem_singleton.mp h ▸ rfl)
        · cases h
    | _ => cases hsublist.subset ha
  | stmt hsublist =>
    refine hits_of_forall fun a ha => Or.inl ?_
    rcases Part.isNote_of_mem_handling (hsublist.subset ha) with hnote | ⟨_, hpart, -⟩
    · cases a <;> first | rfl | cases hnote
    · cases hpart
  | append _ _ ih ih' =>
    obtain ⟨hits, hfold⟩ := ih outer
    rw [hits_append, List.foldl_append, hfold]
    exact ⟨⟨hits, (ih' outer).1⟩, (ih' outer).2⟩
  | perm _ _ _ ih | body _ ih => exact ih outer
  | args _ ih | assign _ _ ih => exact hits_bracket rfl rfl rfl rfl (ih outer)
  | literal _ _ ih => exact hits_bracket rfl rfl rfl rfl (ih (_ :: outer))

end Hits

/-- Expressions leave the statement to point at, also where they hold literals. -/
theorem exprsActions_point (names : Recognizers) (es : List Expr) (pointer : Span × List Span) :
    (exprsActions names es).foldl Action.point pointer = pointer := by
  have hleads : Leads names (fun _ _ => True) pointer.1 _ _ ((Expr.composite es {}).actions names)
      (· = pointer.1) :=
    Expr.leads (.trivial (.expr (.composite es {}))) _ ⟨.refl, fun _ _ => trivial⟩
  obtain ⟨last, hcomposed, rfl⟩ := hleads
  exact (hcomposed.hits (P := fun _ _ => True) (fun _ _ _ _ _ => trivial) pointer.2).2

namespace FunctionUnit

open Walk

variable {limits : Limits} {names : Recognizers} {unit : FunctionUnit} {b : Binding} {event : Event}

/-- **Events point at their calls.** If the places in a function nest, every commit or rollback that
is not deferred points at a statement with a call of a commit or rollback method on the variable in
it. The exception are calls behind the init clause of a `for` or `switch`: there it points into the
clause. -/
theorem pointed_of_direct {tracked : Tracked} (hnests : (Phrase.block unit.body).Nests)
    (htrack : unit.track limits names = .ok tracked) (hb : b ∈ tracked.bindings)
    (hevent : event ∈ b.events) (hkind : event.kind.isDirectFinalization = true) :
    ∃ call here method, (Phrase.expr call).Within (.block unit.body) ∧
      call.methodCall = some (.ident b.name here, method) ∧
      (event.kind = .directCommit ∧ names.isCommit method = true ∨
        event.kind = .directRollback ∧ names.isRollback method = true) ∧
      Pointed (.block unit.body) event.span call := by
  obtain ⟨w, hwalk, rfl⟩ := exists_walk_of_track htrack
  have hrun := run_of_walk hwalk
  have htraced : Traced (unit.actions names) w :=
    history_of_run (List.append_nil _).symm hrun (fun _ hwf _ hexec h => exec_traced h hwf hexec)
      ⟨rfl, fun hget => by cases hget⟩
  obtain ⟨i, hget⟩ := List.mem_iff_getElem?.mp hb
  obtain ⟨before, commit, rest, hsplit, hcommit, hspan⟩ := htraced.2 hget hevent hkind
  -- the action that records the event comes from a call read with the statement's place
  obtain ⟨last, hcomposed⟩ := composed names hnests.discipline
  have hhits := (hcomposed.hits (P := fun place action => ∃ call,
    ((Phrase.expr call).Within (.block unit.body) ∧ Pointed (.block unit.body) place call) ∧
      action ∈ names.finalizeActions call) (fun _ call _ hcall h => ⟨call, hcall, h⟩) []).1
  rw [hsplit, hits_append] at hhits
  obtain ⟨call, ⟨hwithin, hpointed⟩, hcall⟩ := hhits.2.1 rfl
  rw [← hspan] at hpointed
  unfold Recognizers.finalizeActions at hcall
  split at hcall
  · rename_i name here method hmethod
    split at hcall
    · rename_i hname
      cases List.mem_singleton.mp hcall
      exact ⟨call, here, method, hwithin, hmethod, Or.inl ⟨hcommit, hname⟩, hpointed⟩
    · split at hcall
      · rename_i hname
        cases List.mem_singleton.mp hcall
        exact ⟨call, here, method, hwithin, hmethod, Or.inr ⟨hcommit, hname⟩, hpointed⟩
      · cases hcall
  · cases hcall

/-- A call without arguments of a method on a variable with a name of two letters. -/
def callAtPlace (receiver method : String) (start stop : Nat) : Expr :=
  .call (.selector (.ident receiver ⟨start, start + 2⟩) method ⟨start, stop - 2⟩) [] ⟨start, stop⟩

/-- A function that commits in the condition of a loop, behind the init clause. -/
def committedInHeader : FunctionUnit where
  name := "Run"
  body := ⟨[.shortVarDecl [.ident "tx" ⟨50, 52⟩] [callAtPlace "db" "Begin" 59 69] ⟨50, 69⟩,
    .rangeStmt [] false (.ident "jobs" ⟨81, 85⟩) ⟨[.forStmt
      (some (.shortVarDecl [.ident "i" ⟨94, 95⟩] [.literal ⟨99, 100⟩] ⟨94, 100⟩))
      (some (callAtPlace "tx" "Commit" 102 113)) none ⟨[], ⟨126, 131⟩⟩ ⟨90, 131⟩], ⟨86, 134⟩⟩
      ⟨71, 134⟩, .exprStmt (callAtPlace "tx" "Rollback" 136 149) ⟨136, 149⟩], ⟨46, 151⟩⟩

theorem nests_committedInHeader : (Phrase.block committedInHeader.body).Nests :=
  .of_all (n := 7) rfl

/-- The rollback in `committedInHeader` points at the statement that it is. -/
theorem pointed_of_direct_committedInHeader :
    ∃ (tracked : Tracked) (b : Binding) (event : Event),
      committedInHeader.track {} {} = .ok tracked ∧ b ∈ tracked.bindings ∧ event ∈ b.events ∧
      event.kind = .directRollback ∧ event.span = ⟨136, 149⟩ ∧
      ∃ call here method, (Phrase.expr call).Within (.block committedInHeader.body) ∧
        call.methodCall = some (.ident b.name here, method) ∧
        (event.kind = .directCommit ∧ ({} : Recognizers).isCommit method = true ∨
          event.kind = .directRollback ∧ ({} : Recognizers).isRollback method = true) ∧
        Pointed (.block committedInHeader.body) event.span call := by
  obtain ⟨tracked, b, event, htrack, hb, hevent, hkind, hspan⟩ :
      ∃ (tracked : Tracked) (b : Binding) (event : Event),
        committedInHeader.track {} {} = .ok tracked ∧ tracked.bindings.head? = some b ∧
        b.events.getLast? = some event ∧ event.kind = .directRollback ∧ event.span = ⟨136, 149⟩ :=
    ⟨_, _, _, rfl, rfl, rfl, rfl, rfl⟩
  have hb := List.mem_of_mem_head? hb
  have hevent := List.mem_of_mem_getLast? hevent
  exact ⟨tracked, b, event, htrack, hb, hevent, hkind, hspan,
    pointed_of_direct nests_committedInHeader htrack hb hevent (by rw [hkind]; rfl)⟩

/-- The commit in `committedInHeader` points at the init clause, which no call stands in, and is
reported there. -/
theorem exists_direct_apart :
    ∃ (tracked : Tracked) (b : Binding) (event : Event),
      (Phrase.block committedInHeader.body).Nests ∧
      committedInHeader.track {} {} = .ok tracked ∧ b ∈ tracked.bindings ∧ event ∈ b.events ∧
      event.kind = .directCommit ∧
      (tracked.violations "Run").map (·.span) = [event.span] ∧
      ∀ call, (Phrase.expr call).Within (.block committedInHeader.body) →
        call.methodCall.isSome = true → event.span.contains call.span = false := by
  obtain ⟨tracked, b, event, htrack, hb, hevent, hkind, hspan, hviolations⟩ :
      ∃ (tracked : Tracked) (b : Binding) (event : Event),
        committedInHeader.track {} {} = .ok tracked ∧ tracked.bindings.head? = some b ∧
        b.events.head? = some event ∧ event.kind = .directCommit ∧ event.span = ⟨94, 100⟩ ∧
        (tracked.violations "Run").map (·.span) = [⟨94, 100⟩] :=
    ⟨_, _, _, rfl, rfl, rfl, rfl, rfl, rfl⟩
  refine ⟨tracked, b, event, nests_committedInHeader, htrack, List.mem_of_mem_head? hb,
    List.mem_of_mem_head? hevent, hkind, hspan ▸ hviolations, fun call hcall hmethod => ?_⟩
  rw [hspan]
  have hall : (Phrase.block committedInHeader.body).all (!·.callsIn ⟨94, 100⟩) 7 = true := rfl
  simpa [Phrase.callsIn, hmethod] using hcall.of_all hall

end FunctionUnit

end TxLifecycle
