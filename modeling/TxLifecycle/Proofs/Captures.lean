import TxLifecycle.Proofs.Inside
import TxLifecycle.Proofs.InitClauses
import TxLifecycle.Proofs.Lookups

/-!
# Handles shared with goroutines

A `go` statement shares a handle with the call that it launches: it passes the variable as an
argument, or the launched code mentions it. Whatever the number of mentions, the binding has one
event for the statement.

* `Walk.Captures`: running an action in a state shares a binding with a `go` statement;
* `Walk.Tallies`: a count that only the first of several occurrences raises;
* `Walk.run_captures`: after a run, the captures of a binding by a statement are counted so;
* `Walk.Shares`: the ways in which a `go` statement shares a binding.

Code that a `defer` statement puts off shares nothing, although the goroutine runs it. The main
statement is `FunctionUnit.launch_captures`.
-/

namespace TxLifecycle

/-- The event notes that the `go` statement at this place shares the handle. -/
def Event.isCapture (event : Event) (span : Span) : Bool :=
  event.kind == .goroutineCapture && event.span == span

/-- How often it is noted that the `go` statement at this place shares the handle. -/
def Binding.captures (b : Binding) (span : Span) : Nat :=
  b.events.countP (·.isCapture span)

/-- A new event is counted if it is such a note. -/
theorem Binding.captures_record (b : Binding) (event : Event) (span : Span) :
    (b.record event).captures span = b.captures span + if event.isCapture span then 1 else 0 := by
  rw [captures, record, List.countP_append, captures]
  simp [List.countP_cons]

namespace Walk

/-- Running the action in this state shares the binding with the `go` statement at this place. -/
inductive Captures (w : Walk) : Action → BindingId → Span → Prop where
  /-- The variable is an argument of the launched call. -/
  | argument {name : String} {span : Span} {id : BindingId} : w.resolve name = some id →
      w.context.deferScope = none → Captures w (.capture name span) id span
  /-- The variable is mentioned in the launched call and belongs to the code around it. -/
  | mention {name : String} {place : Span} {id : BindingId} {b : Binding} {launch : Launch} :
      w.resolve name = some id → w.context.deferScope = none → w.bindings[id]? = some b →
      launch ∈ w.context.launches → w.scopes.isAncestor launch.scope b.home = false →
      Captures w (.mention name place) id launch.span

/-- How often it is noted that the `go` statement at this place shares the binding. -/
def captures (w : Walk) (id : BindingId) (span : Span) : Nat :=
  (w.bindings[id]?.map (·.captures span)).getD 0

/-! ## Counting -/

/-- A count goes from `n` to `n'` while something may happen that is counted once: the count stays
if it does not happen, and is positive if it does. -/
structure Tallies (happens : Prop) (n n' : Nat) : Prop where
  stays : ¬ happens → n' = n
  /-- The first time is counted, the others are not. -/
  once : happens → n' = max n 1

namespace Tallies

variable {p q : Prop} {k n m : Nat}

theorem of_not (hp : ¬ p) (h : m = n) : Tallies p n m :=
  ⟨fun _ => h, fun hp' => absurd hp' hp⟩

theorem congr (h : Tallies p n m) (hiff : p ↔ q) : Tallies q n m :=
  ⟨fun hq => h.stays fun hp => hq (hiff.mp hp), fun hq => h.once (hiff.mpr hq)⟩

theorem trans (h : Tallies p k n) (h' : Tallies q n m) : Tallies (p ∨ q) k m where
  stays := fun hneither => by
    rw [h'.stays fun hq => hneither (Or.inr hq), h.stays fun hp => hneither (Or.inl hp)]
  once := fun heither => by
    by_cases hp : p
    · -- what has been counted is not counted again
      have hn := h.once hp
      by_cases hq : q
      · have hm := h'.once hq
        omega
      · have hm := h'.stays hq
        omega
    · have hn := h.stays hp
      have hm := h'.once (heither.resolve_left hp)
      omega

/-- A count that was at most one stays so. -/
theorem le_one (h : Tallies p n m) (hn : n ≤ 1) : m ≤ 1 := by
  by_cases hp : p
  · have hm := h.once hp
    omega
  · have hm := h.stays hp
    omega

/-- Counted from zero, it is one if and only if it happened. -/
theorem eq_one_iff (h : Tallies p 0 m) : m = 1 ↔ p := by
  constructor
  · intro hm
    by_contra hp
    have hzero := h.stays hp
    omega
  · intro hp
    have hone := h.once hp
    omega

end Tallies

variable {limits : Limits} {w u v w' : Walk} {action : Action} {id i : BindingId} {span s : Span}
  {b : Binding} {name : String}

/-! ## One action -/

/-- The captures are counted among the events. -/
theorem captures_eq : w.captures id span = (w.eventsOf id).countP (·.isCapture span) := by
  rw [captures, eventsOf]
  cases w.bindings[id]? <;> rfl

theorem captures_of_get (hget : w.bindings[id]? = some b) :
    w.captures id span = b.captures span := by
  rw [captures_eq, eventsOf_eq hget, Binding.captures]

/-- Only a binding of the table has captures. -/
theorem exists_get_of_captures (h : w.captures id span = 1) :
    ∃ b, w.bindings[id]? = some b ∧ b.captures span = 1 := by
  cases hget : w.bindings[id]? with
  | none => simp [captures, hget] at h
  | some b => exact ⟨b, rfl, by rwa [captures_of_get hget] at h⟩

/-- A change of one binding that leaves its events alone. -/
theorem captures_modifyBinding {f : Binding → Binding} (hf : ∀ b, (f b).events = b.events) :
    (w.modifyBinding i f).captures id span = w.captures id span := by
  rw [captures, modifyBinding, captures, List.getElem?_modify]
  by_cases heq : i = id
  · cases w.bindings[id]? <;> simp [heq, Binding.captures, hf]
  · cases w.bindings[id]? <;> simp [heq]

/-- An event that is appended to one binding. -/
theorem captures_record (event : Event) (hlt : i < w.bindings.length) :
    (w.modifyBinding i (·.record event)).captures id span =
      w.captures id span + if i = id ∧ event.isCapture span then 1 else 0 := by
  rw [captures, modifyBinding, captures, List.getElem?_modify]
  by_cases heq : i = id
  · subst heq
    simp [List.getElem?_eq_getElem hlt, Binding.captures_record]
  · cases w.bindings[id]? <;> simp [heq]

/-- A capture is known if it has been counted. -/
theorem any_isCapture_iff (w : Walk) (id : BindingId) (span : Span) :
    (w.bindings[id]?.any fun b => b.events.any (·.isCapture span)) = true ↔
      0 < w.captures id span := by
  rw [captures]
  cases w.bindings[id]? with
  | none => simp
  | some b => simp [Binding.captures, List.countP_pos_iff]

/-- A capture is noted the first time. -/
theorem recordCapture_captures (hlt : i < w.bindings.length) (h : w.recordCapture i s = .ok u)
    (id : BindingId) (span : Span) :
    Tallies (i = id ∧ s = span) (w.captures id span) (u.captures id span) := by
  rw [recordCapture] at h
  change (if (w.bindings[i]?.any fun b => b.events.any (·.isCapture s)) = true then _
    else _) = _ at h
  rw [if_congr (any_isCapture_iff w i s) rfl rfl] at h
  split at h
  · -- the binding has this capture already
    rename_i hknown
    cases h
    refine ⟨fun _ => rfl, ?_⟩
    rintro ⟨rfl, rfl⟩
    omega
  · rename_i hunknown
    unfold recordAt at h
    split at h
    · cases h
    · cases h
      rw [captures_record _ hlt]
      refine ⟨fun hother => ?_, ?_⟩
      · rw [if_neg, Nat.add_zero]
        rintro ⟨hi, hcapture⟩
        exact hother ⟨hi, by simpa [Event.isCapture] using hcapture⟩
      · rintro ⟨rfl, rfl⟩
        simp only [Event.isCapture, beq_self_eq_true, Bool.and_self, and_self, if_true]
        omega

theorem length_of_recordCapture (h : w.recordCapture i s = .ok u) :
    u.bindings.length = w.bindings.length := by
  unfold recordCapture at h
  dsimp only at h
  split at h
  · cases h
    rfl
  · obtain ⟨event, -, -, -, rfl⟩ := of_recordAt h
    exact List.length_modify _ _ _

/-- Captures by several statements are noted the first time each. -/
theorem recordCaptures_captures {launches : List Launch} (hlt : i < w.bindings.length)
    (h : launches.foldlM (fun w launch => w.recordCapture i launch.span) w = .ok u)
    (id : BindingId) (span : Span) :
    Tallies (i = id ∧ ∃ launch ∈ launches, launch.span = span) (w.captures id span)
      (u.captures id span) := by
  induction launches generalizing w with
  | nil =>
    cases h
    exact .of_not (by simp) rfl
  | cons launch rest ih =>
    obtain ⟨v, hfirst, hrest⟩ := bind_eq_ok.mp h
    have hlt' : i < v.bindings.length := by rwa [length_of_recordCapture hfirst]
    refine ((recordCapture_captures hlt hfirst id span).trans (ih hlt' hrest)).congr ?_
    simp only [List.mem_cons, exists_eq_or_imp]
    exact and_or_left.symm

theorem mention_captures {place : Span} (hwf : w.WellFormed) (h : w.mention name place = .ok u)
    (id : BindingId) (span : Span) :
    Tallies (w.Captures (.mention name place) id span) (w.captures id span)
      (u.captures id span) := by
  unfold mention at h
  split at h
  · rename_i hnone
    cases h
    refine .of_not (fun hcaptures => ?_) rfl
    cases hcaptures with
    | mention hresolve => simp [hnone] at hresolve
  · rename_i k hresolve
    obtain ⟨b, hget, -⟩ := Indexed.get_of_resolve hwf.indexed hresolve
    have hmentioned : (w.modifyBinding k (·.mention place.stop)).captures id span =
        w.captures id span := captures_modifyBinding fun _ => rfl
    dsimp only at h
    split at h
    · -- deferred code captures nothing
      rename_i hdefer
      cases h
      refine .of_not (fun hcaptures => ?_) hmentioned
      cases hcaptures with
      | mention _ hnone => simp [modifyBinding, hnone] at hdefer
    · rename_i hdefer
      have hlt : k < (w.modifyBinding k (·.mention place.stop)).bindings.length := by
        simpa [modifyBinding] using (List.getElem?_eq_some_iff.mp hget).1
      have hhome : ((w.modifyBinding k (·.mention place.stop)).bindings[k]?.map (·.home)).getD
          ScopeTree.root = b.home := by
        simp [modifyBinding, hget, Binding.mention]
      rw [hhome] at h
      -- a capture is noted by the statements around the place that are inside the scope of the name
      refine (hmentioned ▸ recordCaptures_captures hlt h id span).congr ⟨?_, fun hcaptures => ?_⟩
      · rintro ⟨rfl, launch, hlaunch, rfl⟩
        obtain ⟨hmem, hcrossed⟩ := List.mem_filter.mp hlaunch
        exact .mention hresolve (by simpa [modifyBinding] using hdefer) hget hmem
          (by simpa [modifyBinding] using hcrossed)
      · cases hcaptures with
        | mention hresolve' _ hget' hmem hcrossed =>
          obtain rfl : k = id := Option.some.inj (hresolve.symm.trans hresolve')
          obtain rfl := Option.some.inj (hget.symm.trans hget')
          exact ⟨rfl, _, List.mem_filter.mpr ⟨hmem, by simp [modifyBinding, hcrossed]⟩, rfl⟩

/-- What an argument of a launched call captures. -/
theorem capture_captures (hwf : w.WellFormed) (h : w.capture name s = .ok u) (id : BindingId)
    (span : Span) :
    Tallies (w.Captures (.capture name s) id span) (w.captures id span) (u.captures id span) := by
  unfold capture at h
  split at h
  · rename_i hdefer
    cases h
    refine .of_not (fun hcaptures => ?_) rfl
    cases hcaptures with
    | argument _ hnone => simp [hnone] at hdefer
  · rename_i hdefer
    split at h
    · rename_i hnone
      cases h
      refine .of_not (fun hcaptures => ?_) rfl
      cases hcaptures with
      | argument hresolve => simp [hnone] at hresolve
    · rename_i k hresolve
      obtain ⟨b, hget, -⟩ := Indexed.get_of_resolve hwf.indexed hresolve
      refine (recordCapture_captures (List.getElem?_eq_some_iff.mp hget).1 h id span).congr
        ⟨?_, fun hcaptures => ?_⟩
      · rintro ⟨rfl, rfl⟩
        exact .argument hresolve (by simpa using hdefer)
      · cases hcaptures with
        | argument hresolve' => exact ⟨Option.some.inj (hresolve.symm.trans hresolve'), rfl⟩

/-- No other action captures anything. -/
theorem Records.kind_ne {event : Event} (h : w.Records action id event)
    (hmention : ∀ name place, action ≠ .mention name place)
    (hcapture : ∀ name place, action ≠ .capture name place) : event.kind ≠ .goroutineCapture := by
  cases h with
  | mention => exact absurd rfl (hmention _ _)
  | capture => exact absurd rfl (hcapture _ _)
  | _ => grind [cases Exit, directKind, deferredKind, Exit.event]

/-- An action that neither mentions nor shares a variable leaves all captures as they are. -/
theorem captures_of_exec (hwf : w.WellFormed) (hexec : w.exec limits action = .ok u)
    (hmention : ∀ name place, action ≠ .mention name place)
    (hcapture : ∀ name place, action ≠ .capture name place) :
    u.captures id span = w.captures id span := by
  obtain ⟨recorded, hevents, hrecorded⟩ := (exec_rewrites hwf.indexed hexec).eventsOf id
  rw [captures_eq, hevents, List.countP_append, ← captures_eq, Nat.add_eq_left, List.countP_eq_zero]
  intro event hevent
  simp [Event.isCapture, (hrecorded event hevent).kind_ne hmention hcapture]

/-- What an action captures is counted once. -/
theorem exec_captures (hwf : w.WellFormed) (hexec : w.exec limits action = .ok u) (id : BindingId)
    (span : Span) :
    Tallies (w.Captures action id span) (w.captures id span) (u.captures id span) := by
  cases action with
  | mention name place => exact mention_captures hwf hexec id span
  | capture name place => exact capture_captures hwf hexec id span
  | _ =>
    refine .of_not (fun hcaptures => ?_) (captures_of_exec hwf hexec ?_ ?_)
    · cases hcaptures
    · intro name place heq
      cases heq
    · intro name place heq
      cases heq

/-! ## Runs -/

/-- Some action of the list, run from `w` on, shares the binding with the `go` statement. -/
def CapturesIn (limits : Limits) (w : Walk) (actions : List Action) (id : BindingId)
    (span : Span) : Prop :=
  ∃ before action rest u, actions = before ++ action :: rest ∧ w.run limits before = .ok u ∧
    u.Captures action id span

/-- The first action does, or one of the others. -/
theorem capturesIn_cons_iff {rest : List Action} (hexec : w.exec limits action = .ok u) :
    w.CapturesIn limits (action :: rest) id span ↔
      w.Captures action id span ∨ u.CapturesIn limits rest id span := by
  constructor
  · rintro ⟨before, a, tail, v, hactions, hrun, hcaptures⟩
    cases before with
    | nil =>
      cases hrun
      obtain ⟨rfl, -⟩ := List.cons.inj hactions
      exact Or.inl hcaptures
    | cons first before =>
      obtain ⟨rfl, hrest⟩ := List.cons.inj hactions
      obtain ⟨u', hexec', hrun⟩ := run_cons_eq_ok.mp hrun
      obtain rfl := Except.ok.inj (hexec.symm.trans hexec')
      exact Or.inr ⟨before, a, tail, v, hrest, hrun, hcaptures⟩
  · rintro (hcaptures | ⟨before, a, tail, v, rfl, hrun, hcaptures⟩)
    · exact ⟨[], action, rest, w, rfl, rfl, hcaptures⟩
    · exact ⟨action :: before, a, tail, v, rfl, run_cons_eq_ok.mpr ⟨u, hexec, hrun⟩, hcaptures⟩

/-- What a run captures is counted once. -/
theorem run_captures {actions : List Action} (hsound : w.Sound limits actions)
    (hrun : w.run limits actions = .ok w') (id : BindingId) (span : Span) :
    Tallies (w.CapturesIn limits actions id span) (w.captures id span) (w'.captures id span) := by
  induction actions generalizing w with
  | nil =>
    cases hrun
    refine .of_not ?_ rfl
    rintro ⟨before, action, rest, u, hactions, -⟩
    simp at hactions
  | cons action rest ih =>
    obtain ⟨u, hexec, hrun⟩ := run_cons_eq_ok.mp hrun
    have hfirst := exec_captures hsound.1 hexec id span
    exact (hfirst.trans (ih (hsound.2.2 u hexec) hrun)).congr (capturesIn_cons_iff hexec).symm

/-- What the beginning of the statement captures, the walk does. -/
theorem CapturesIn.embed {before acts after : List Action} (h : u.CapturesIn limits acts id span)
    (hbefore : w.run limits before = .ok u) :
    w.CapturesIn limits (before ++ (acts ++ after)) id span := by
  obtain ⟨lead, action, tail, v, rfl, hrun, hcaptures⟩ := h
  refine ⟨before ++ lead, action, tail ++ after, v, by simp, ?_, hcaptures⟩
  exact run_then hbefore hrun

end Walk

/-! ## `go` statements -/

/-- What a `go` statement reads where it stands: the arguments of the launched call. -/
def launchLead (names : Recognizers) (args : List Expr) (span : Span) : List Action :=
  .count :: .setSpan span :: captureActions args span ++ exprsActions names args

/-- What a launched call reads in a scope of its own: parameters and body of a function literal, or
else the called expression, which is where the receiver of a method stands. -/
def Expr.launched (names : Recognizers) : Expr → List Action
  | .call (.funcLit params ⟨stmts, _⟩ _) _ _ => paramActions params ++ stmtsActions names stmts
  | .call func args span => names.finalizeActions (.call func args span) ++ func.actions names
  | _ => []

/-- A `go` statement reads one and then the other. -/
theorem Stmt.actions_goStmt (names : Recognizers) (func : Expr) (args : List Expr)
    (place span : Span) :
    (Stmt.goStmt (.call func args place) span).actions names = launchLead names args span ++
      .openBody (.goroutine span) ::
        ((Expr.call func args place).launched names ++ [.closeBody]) := by
  -- the two lists differ in the way in which their parts are grouped
  have hgroup : ∀ first second third fourth : List Action,
      .count :: .setSpan span :: (first ++ second ++ .openBody (.goroutine span) :: third ++ fourth
        ++ [.closeBody]) = (.count :: .setSpan span :: first ++ second) ++
          .openBody (.goroutine span) :: ((third ++ fourth) ++ [.closeBody]) := by
    simp
  cases func with
  | funcLit params body s =>
    obtain ⟨stmts, _⟩ := body
    exact hgroup _ _ _ _
  | _ => exact hgroup _ _ _ _

/-- The launched code closes all that it opens. -/
theorem Expr.exists_launched_flow (names : Recognizers) (func : Expr) (args : List Expr)
    (place : Span) :
    ∃ flow : Flow .code, flow.actions = (Expr.call func args place).launched names := by
  cases func with
  | funcLit params body s =>
    obtain ⟨stmts, _⟩ := body
    exact ⟨.seq (.acts _ (paramActions_plain params)) (stmtsFlow names stmts),
      Flow.actions_seq (Flow.actions_acts _ _) (stmtsFlow_actions names stmts)⟩
  | _ =>
    exact ⟨.seq (.acts _ (names.finalizeActions_plain _)) (Expr.flow names _),
      Flow.actions_seq (Flow.actions_acts _ _) (Expr.flow_actions names _)⟩

namespace Walk

variable {limits : Limits} {names : Recognizers} {w u w' : Walk} {id : BindingId} {x : String}
  {span place s : Span} {func : Expr} {args : List Expr} {shared : List String}

/-- The `go` statement, run in the state `w`, shares the binding with the call that it launches. -/
inductive Shares (limits : Limits) (names : Recognizers) (w : Walk) (call : Expr) (span : Span) :
    BindingId → Prop where
  /-- A variable that holds the handle is an argument. -/
  | argument {x : String} {place : Span} {id : BindingId} : .ident x place ∈ call.callArgs →
      w.resolve x = some id → w.context.deferScope = none → Shares limits names w call span id
  /-- The launched code mentions a variable that holds the handle and that belongs to the code
  around the call. The mention is not put off by a `defer` statement. -/
  | code {lead tail : List Action} {x : String} {place : Span} {u : Walk} {id : BindingId}
      {b : Binding} : call.launched names = lead ++ .mention x place :: tail →
      w.run limits (launchLead names call.callArgs span ++ .openBody (.goroutine span) :: lead)
        = .ok u →
      u.resolve x = some id → u.bindings[id]? = some b → b.home ∈ w.scopes.stack →
      u.context.deferScope = none → Shares limits names w call span id

/-! ### Arguments -/

/-- Sharing a variable changes no name. -/
theorem resolve_of_capture {name : String} (h : w.capture name s = .ok u) (x : String) :
    u.resolve x = w.resolve x := by
  have hnotes := capture_annotates h
  refine resolve_congr (label_of_reflTransGen rfl hnotes.amends) ?_ fun scope => ?_
  · rw [hnotes.rest]
  · rw [hnotes.rest]

/-- The arguments of a launched call mean the same, whichever of them are shared first. -/
theorem resolve_of_captures (h : w.run limits (shared.map (.capture · s)) = .ok u) (x : String) :
    u.resolve x = w.resolve x := by
  refine run_preserves (P := fun v => v.resolve x = w.resolve x) (fun a ha hexec hsame => ?_) h rfl
  obtain ⟨name, -, rfl⟩ := List.mem_map.mp ha
  exact (resolve_of_capture hexec x).trans hsame

/-- The beginning of a `go` statement opens and closes nothing. -/
theorem isInner_of_mem_launch {action : Action}
    (h : action ∈ .count :: .setSpan span :: shared.map (.capture · span)) :
    action.isInner = true := by
  simp only [List.mem_cons, List.mem_map] at h
  obtain rfl | rfl | ⟨name, -, rfl⟩ := h <;> rfl

variable (hready : w.Ready .code)
include hready

theorem capturesIn_of_argument {p : Span}
    (hrun : w.run limits ((Stmt.goStmt (.call func args place) span).actions names) = .ok w')
    (hmem : .ident x p ∈ args) (hresolve : w.resolve x = some id)
    (hdefer : w.context.deferScope = none) :
    w.CapturesIn limits ((Stmt.goStmt (.call func args place) span).actions names) id span := by
  have hx : x ∈ args.filterMap Expr.asIdent := List.mem_filterMap.mpr ⟨_, hmem, rfl⟩
  obtain ⟨first, others, hsplit⟩ := List.append_of_mem hx
  obtain ⟨tail, htail⟩ : ∃ tail, (Stmt.goStmt (.call func args place) span).actions names =
      (.count :: .setSpan span :: first.map (.capture · span)) ++ .capture x span :: tail := by
    rw [Stmt.actions_goStmt, launchLead, captureActions, hsplit, List.map_append, List.map_cons]
    exact ⟨_, by simp only [List.cons_append, List.append_assoc]; rfl⟩
  rw [htail] at hrun ⊢
  obtain ⟨u, hlead, -⟩ := run_append_eq_ok.mp hrun
  refine ⟨_, _, tail, u, rfl, hlead, .argument ?_ ?_⟩
  · -- neither the beginning of the statement nor the arguments before this one change a name
    obtain ⟨v, hcount, hlead⟩ := run_cons_eq_ok.mp hlead
    obtain ⟨t, hspan, hlead⟩ := run_cons_eq_ok.mp hlead
    rw [resolve_of_captures hlead, ← hresolve]
    cases hspan
    obtain ⟨-, rfl⟩ := of_exec_count hcount
    refine resolve_congr ?_ ?_ fun _ => ?_ <;> rfl
  · -- nor do they open deferred code
    have hbegun := (Traverses.of_run (fun _ => isInner_of_mem_launch) hready hlead).balanced
    rw [hbegun.deferScope, hdefer]

/-! ### Launched code -/

/-- Reading the arguments of a launched call closes all that it opens. -/
theorem balanced_of_launchLead (h : w.run limits (launchLead names args span) = .ok u) :
    w.Balanced u ∧ u.Ready .code := by
  obtain ⟨v, hlead, hargs⟩ := run_append_eq_ok.mp h
  have hbegun := Traverses.of_run (fun _ => isInner_of_mem_launch) hready hlead
  rw [← exprsFlow_actions] at hargs
  have hwalks := (exprsFlow names args).walks_of_run hbegun.ready' hargs
  exact ⟨hbegun.balanced.trans hwalks.balanced, hwalks.ready'⟩

/-- A mention in launched code is captured. -/
theorem captures_of_code {p : Span} {lead tail : List Action} {b : Binding}
    (hcode : (Expr.call func args place).launched names = lead ++ .mention x p :: tail)
    (hrun :
      w.run limits (launchLead names args span ++ .openBody (.goroutine span) :: lead) = .ok u)
    (hresolve : u.resolve x = some id) (hget : u.bindings[id]? = some b)
    (hhome : b.home ∈ w.scopes.stack) (hdefer : u.context.deferScope = none) :
    u.Captures (.mention x p) id span := by
  obtain ⟨t, harguments, hrun⟩ := run_append_eq_ok.mp hrun
  obtain ⟨v, hopen, hlead⟩ := run_cons_eq_ok.mp hrun
  obtain ⟨hbalanced, ht⟩ := balanced_of_launchLead hready harguments
  have hstep := Steps.of_openBody ht hopen
  have hopens := exec_openBody hopen
  obtain ⟨flow, hflow⟩ := Expr.exists_launched_flow names func args place
  have hinside := Flow.inside_of_run hstep.ready' (hflow.trans hcode) hlead
  -- the statement is around the code, and its scope is open
  have hlaunch : (⟨t.scopes.scopes.length, span⟩ : Launch) ∈ u.context.launches := by
    refine hinside.launches.subset ?_
    rw [hopens.context_eq]
    exact List.mem_append_right _ (List.mem_singleton.mpr rfl)
  refine .mention hresolve hdefer hget hlaunch ?_
  -- the scope of the call is younger than the scope of the variable
  rw [Bool.eq_false_iff, ne_eq, ScopeTree.isAncestor_iff]
  intro hmem
  have hsound : v.Sound limits flow.actions := flow.sound hstep.ready'
  rw [hflow, hcode] at hsound
  have hwf := (hsound.drop hlead).wellFormed
  have hlt := ht.wellFormed.tree.stack_lt (hbalanced.stack ▸ hhome)
  exact Nat.not_le.mpr hlt (hwf.tree.le_of_mem_ancestors hmem)

/-- What a `go` statement shares is captured. -/
theorem Shares.capturesIn
    (hrun : w.run limits ((Stmt.goStmt (.call func args place) span).actions names) = .ok w')
    (h : w.Shares limits names (.call func args place) span id) :
    w.CapturesIn limits ((Stmt.goStmt (.call func args place) span).actions names) id span := by
  cases h with
  | argument hmem hresolve hdefer =>
    exact capturesIn_of_argument hready hrun hmem hresolve hdefer
  | @code lead tail x p u _ b hcode hlead hresolve hget hhome hdefer =>
    refine ⟨launchLead names args span ++ .openBody (.goroutine span) :: lead, .mention x p,
      tail ++ [.closeBody], u, ?_, hlead,
      captures_of_code hready hcode hlead hresolve hget hhome hdefer⟩
    rw [Stmt.actions_goStmt, hcode]
    simp

end Walk

namespace FunctionUnit

open Walk

variable {limits : Limits} {names : Recognizers} {unit : FunctionUnit} {w w' : Walk}
  {before after : List Action} {func : Expr} {args : List Expr} {place span : Span}

/-- A `go` statement is read where statements are read. -/
theorem ready_of_goStmt
    (hactions : unit.actions names =
      before ++ ((Stmt.goStmt (.call func args place) span).actions names ++ after))
    (hbefore : Walk.run limits {} before = .ok w) : w.Ready .code := by
  rw [Stmt.actions_goStmt] at hactions
  exact poised_of_run hactions hbefore rfl

/-- The captures of a walk are counted once. -/
theorem captures_of_walk (hwalk : unit.walk limits names = .ok w') (id : BindingId) (s : Span) :
    Tallies (({} : Walk).CapturesIn limits (unit.actions names) id s) 0 (w'.captures id s) := by
  have hrun := run_of_walk hwalk
  exact run_captures (unit.sound_actions limits names) hrun id s

/-- **Goroutines capture handles once.** Let a `go` statement launch a call, wherever it stands.
Each binding that it shares with the call, as an argument or because the launched code mentions it,
has exactly one capture by the statement at the end of the walk. No binding ever has two captures by
one statement, and it has one only if something shared it: an argument or a mention that no `defer`
statement puts off. -/
theorem launch_captures
    (hactions : unit.actions names =
      before ++ ((Stmt.goStmt (.call func args place) span).actions names ++ after))
    (hbefore : Walk.run limits {} before = .ok w) (hwalk : unit.walk limits names = .ok w') :
    (∀ id, w.Shares limits names (.call func args place) span id →
      ∃ b, w'.bindings[id]? = some b ∧ b.captures span = 1) ∧
    ∀ id b s, w'.bindings[id]? = some b → b.captures s ≤ 1 ∧
      (b.captures s = 1 ↔
        ∃ u action, unit.Reaches limits names u action ∧ u.Captures action id s) := by
  refine ⟨fun id hshares => ?_, fun id b s hget => ?_⟩
  · have hrun := run_of_walk hwalk
    rw [hactions] at hrun
    -- the statement is read to its end
    obtain ⟨u, hu, hrun⟩ := run_append_eq_ok.mp hrun
    obtain rfl := Except.ok.inj (hbefore.symm.trans hu)
    obtain ⟨v, hstmt, -⟩ := run_append_eq_ok.mp hrun
    have hcaptured : ({} : Walk).CapturesIn limits (unit.actions names) id span := by
      rw [hactions]
      exact (hshares.capturesIn (ready_of_goStmt hactions hbefore) hstmt).embed hbefore
    exact exists_get_of_captures ((captures_of_walk hwalk id span).eq_one_iff.mpr hcaptured)
  · have htallies := captures_of_walk hwalk id s
    rw [captures_of_get hget] at htallies
    refine ⟨htallies.le_one (Nat.zero_le 1), htallies.eq_one_iff.trans ⟨?_, ?_⟩⟩
    · rintro ⟨lead, action, tail, u, hsplit, hlead, hcaptures⟩
      exact ⟨u, action, ⟨lead, tail, hsplit, hlead⟩, hcaptures⟩
    · rintro ⟨u, action, ⟨lead, tail, hsplit, hlead⟩, hcaptures⟩
      exact ⟨lead, action, tail, u, hsplit, hlead, hcaptures⟩

/-- A function that starts a transaction, launches a call and commits. -/
def launching (call : Expr) : FunctionUnit where
  name := "Run"
  body := {
    stmts := [
      .shortVarDecl [.ident "tx" {}, .ident "_" {}]
        [.call (.selector (.ident "db" {}) "Begin" {}) [] {}] ⟨38, 57⟩,
      .goStmt call ⟨60, 120⟩,
      .exprStmt (.call (.selector (.ident "tx" {}) "Commit" {}) [] {}) ⟨122, 133⟩]
    span := {} }

/-- A function literal that is given the handle and mentions it in a literal inside. -/
def givenAndMentioned : Expr :=
  .funcLit [⟨some "handle", "*sql.Tx"⟩] {
    stmts := [.exprStmt (.call (.funcLit [] {
      stmts := [.exprStmt (.call (.selector (.ident "tx" {}) "Exec" {}) [] {}) {}]
      span := {} } {}) [] {}) {}]
    span := {} } {}

/-- A launched function literal that is given the handle, and mentions it in a literal inside,
shares it twice. There is one capture. -/
theorem launch_captures_givenAndMentioned :
    ∃ (w w' : Walk) (b : Binding),
      (launching (.call givenAndMentioned [.ident "tx" {}] {})).walk {} {} = .ok w' ∧
      w.resolve "tx" = some 0 ∧
      w.Shares {} {} (.call givenAndMentioned [.ident "tx" {}] {}) ⟨60, 120⟩ 0 ∧
      w'.bindings[0]? = some b ∧ b.captures ⟨60, 120⟩ = 1 := by
  have hactions : (launching (.call givenAndMentioned [.ident "tx" {}] {})).actions {} =
      ((launching (.call givenAndMentioned [.ident "tx" {}] {})).actions {}).take 8 ++
        ((Stmt.goStmt (.call givenAndMentioned [.ident "tx" {}] {}) ⟨60, 120⟩).actions {} ++
          stmtsActions {} [.exprStmt (.call (.selector (.ident "tx" {}) "Commit" {}) [] {})
            ⟨122, 133⟩]) := rfl
  obtain ⟨w, w', hbefore, hwalk⟩ : ∃ w w', Walk.run {} {}
      (((launching (.call givenAndMentioned [.ident "tx" {}] {})).actions {}).take 8) = .ok w ∧
      (launching (.call givenAndMentioned [.ident "tx" {}] {})).walk {} {} = .ok w' :=
    ⟨_, _, rfl, rfl⟩
  have hresolve : w.resolve "tx" = some 0 ∧ w.context.deferScope = none := by
    obtain rfl := Except.ok.inj hbefore
    exact ⟨by decide +kernel, rfl⟩
  have hshares : w.Shares {} {} (.call givenAndMentioned [.ident "tx" {}] {}) ⟨60, 120⟩ 0 :=
    .argument List.mem_cons_self hresolve.1 hresolve.2
  obtain ⟨b, hget, hone⟩ := (launch_captures hactions hbefore hwalk).1 0 hshares
  exact ⟨w, w', b, hwalk, hresolve.1, hshares, hget, hone⟩

/-- A function literal that mentions the handle in a literal that it defers. -/
def mentionedDeferred : Expr :=
  .call (.funcLit [] {
    stmts := [.deferStmt (.call (.funcLit [] {
      stmts := [.exprStmt (.call (.selector (.ident "tx" {}) "Rollback" {}) [] {}) {}]
      span := {} } {}) [] {}) {}]
    span := {} } {}) [] {}

/-- A mention in deferred code is not captured: the launched code mentions a handle of the function
around it, and there is no capture. -/
theorem deferred_mention_not_captured :
    ∃ (before after lead tail : List Action) (w u w' : Walk) (b : Binding),
      (launching mentionedDeferred).actions {} =
        before ++ ((Stmt.goStmt mentionedDeferred ⟨60, 120⟩).actions {} ++ after) ∧
      Walk.run {} {} before = .ok w ∧ w.context.deferScope = none ∧
      mentionedDeferred.launched {} = lead ++ .mention "tx" {} :: tail ∧
      w.run {} (launchLead {} [] ⟨60, 120⟩ ++ .openBody (.goroutine ⟨60, 120⟩) :: lead) = .ok u ∧
      u.resolve "tx" = some 0 ∧ (launching mentionedDeferred).walk {} {} = .ok w' ∧
      w'.bindings[0]? = some b ∧ b.home ∈ w.scopes.stack ∧ b.captures ⟨60, 120⟩ = 0 :=
  ⟨((launching mentionedDeferred).actions {}).take 8,
    ((launching mentionedDeferred).actions {}).drop 25, (mentionedDeferred.launched {}).take 9,
    (mentionedDeferred.launched {}).drop 10, _, _, _, _, rfl, rfl, rfl, rfl, rfl,
    by decide +kernel, rfl, rfl, by decide +kernel, by decide +kernel⟩

end FunctionUnit

end TxLifecycle
