import Mathlib.Logic.Relation
import TxLifecycle.Proofs.Lists
import TxLifecycle.Proofs.Spans

/-!
# How code is read

Reading code gives actions. They are what the calls and statements of the code do themselves, in the
order of reading, between actions that only mark where one is. This is said once for all syntax
trees; what follows for particular kinds of actions is shown by induction on `Composed`.

* `Phrase.Within`: the phrases of a phrase;
* `Composed`: actions that are made up of what some parts do, with the statement that events point
  at before and after;
* `Discipline`: what is known of the places at which calls are read;
* `FunctionUnit.composed`: functions are read in this way;
* `FunctionUnit.exists_part`, `FunctionUnit.reading`: so every handling of a variable comes from a
  part, and every statement list is read in one piece or not at all.
-/

namespace TxLifecycle

/-! ## Phrases of phrases -/

namespace Phrase

/-- A phrase, or one that it is made of at any depth. -/
def Within (p root : Phrase) : Prop :=
  Relation.ReflTransGen (fun q r => r ∈ q.phrases) root p

variable {root p q : Phrase}

theorem Within.refl : p.Within p :=
  Relation.ReflTransGen.refl

theorem Within.part (h : p.Within root) (hq : q ∈ p.phrases) : q.Within root :=
  Relation.ReflTransGen.tail h hq

end Phrase

/-- The init clause of a `for` or `switch`, and the expression that is read behind it. -/
def Stmt.header : Stmt → Option (Stmt × Expr)
  | .forStmt (some init) (some cond) _ _ _ => some (init, cond)
  | .switchStmt (some init) (some tag) _ _ => some (init, tag)
  | _ => none

/-- What is known of the places that events point at when an expression is read (`F`), and of the
places where the reading of a statement ends (`C`). -/
structure Discipline (root : Phrase) (F : Span → Expr → Prop) (C : Span → Span → Prop) : Prop where
  refl : ∀ place, C place place
  /-- What ends in a phrase ends in the phrase that it belongs to. -/
  inside : ∀ {p q : Phrase} {place : Span}, p.Within root → q ∈ p.phrases → C q.span place →
    C p.span place
  /-- Expressions are read at the phrase that they belong to. -/
  fits : ∀ {p : Phrase} {d e : Expr}, p.Within root → .expr e ∈ p.phrases →
    (Phrase.expr d).Within (.expr e) → F p.span d
  /-- Behind an init clause they are read where the clause ends. -/
  header : ∀ {s i : Stmt} {d e : Expr} {place : Span}, (Phrase.stmt s).Within root →
    s.header = some (i, e) → .expr e ∈ s.phrases → C i.span place →
    (Phrase.expr d).Within (.expr e) → F place d

/-- Nothing needs to be known. -/
theorem Discipline.trivial (root : Phrase) :
    Discipline root (fun _ _ => True) (fun _ _ => True) := by
  constructor <;> intros <;> exact True.intro

/-! ## Composed actions -/

/-- The action changes the statement that events point at, or makes use of it. -/
def Action.aims : Action → Bool
  | .setSpan _ | .openBody _ | .closeBody | .finalize _ _ => true
  | _ => false

/-- The action only marks where one is. -/
def Action.isQuiet (action : Action) : Bool :=
  !(action.isHandling || action.setsDiscard || action.aims)

/-- The actions are made up of what the parts do, call by call and statement by statement, and so
are those of the lists. Events point at the first place before and at the last one after. -/
inductive Composed (names : Recognizers) (F : Span → Expr → Prop) :
    Span → List Part → List (List Stmt) → List Action → Span → Prop where
  | nil {place} : Composed names F place [] [] [] place
  | quiet {place action} : action.isQuiet = true → Composed names F place [] [] [action] place
  | set {place span} : Composed names F place [] [] [.setSpan span] span
  /-- What an expression does itself, or some of it. -/
  | expr {place e actions} : F place e → actions.Sublist ((Part.expr e).handling names) →
      Composed names F place [.expr e] [] actions place
  /-- What a statement does itself, or some of it. -/
  | stmt {place s actions} : actions.Sublist ((Part.stmt s).handling names) →
      Composed names F place [.stmt s] [] actions place
  | append {place middle last parts parts' lists lists' actions actions'} :
      Composed names F place parts lists actions middle →
      Composed names F middle parts' lists' actions' last →
      Composed names F place (parts ++ parts') (lists ++ lists') (actions ++ actions') last
  | unread {place first last parts lists actions} :
      Composed names F first parts lists actions last →
      Composed names F place parts lists [] place
  /-- The order of the parts does not matter. -/
  | perm {place last parts parts' lists lists' actions} :
      Composed names F place parts lists actions last → parts.Perm parts' → lists' ⊆ lists →
      Composed names F place parts' lists' actions last
  | body {place last stmts lists} :
      Composed names F place (stmtsParts stmts) lists (stmtsActions names stmts) last →
      Composed names F place (stmtsParts stmts) (stmts :: lists) (stmtsActions names stmts) last
  | args {place parts lists args} :
      Composed names F place parts lists (exprsActions names args) place →
      Composed names F place parts lists (.openArgs :: exprsActions names args ++ [.closeArgs])
        place
  | assign {place parts lists right} (blank : Bool) :
      Composed names F place parts lists (exprsActions names right) place →
      Composed names F place parts lists
        (.beginAssign blank :: exprsActions names right ++ [.endAssign]) place
  /-- The body of a function literal. The place is put back in the end. -/
  | literal {place last parts lists actions} (kind : BodyKind) :
      Composed names F place parts lists actions last →
      Composed names F place parts lists (.openBody kind :: actions ++ [.closeBody]) place

/-- Reading leads from a place to one of some kind. -/
def Leads (names : Recognizers) (F : Span → Expr → Prop) (place : Span) (parts : List Part)
    (lists : List (List Stmt)) (actions : List Action) (Q : Span → Prop) : Prop :=
  ∃ last, Composed names F place parts lists actions last ∧ Q last

namespace Leads

variable {names : Recognizers} {F : Span → Expr → Prop} {Q R : Span → Prop} {place span : Span}
  {action : Action} {actions actions' : List Action} {parts parts' : List Part}
  {lists lists' : List (List Stmt)} {kind : BodyKind} {right : List Expr}

theorem nil (h : Q place) : Leads names F place [] [] [] Q :=
  ⟨place, .nil, h⟩

/-- An action that handles no variable. -/
theorem cons (haction : action.isQuiet = true) (h : Leads names F place parts lists actions Q) :
    Leads names F place parts lists (action :: actions) Q := by
  obtain ⟨last, hcomposed, hlast⟩ := h
  exact ⟨last, (Composed.quiet haction).append hcomposed, hlast⟩

/-- A statement begins. -/
theorem set (h : Leads names F span parts lists actions Q) :
    Leads names F place parts lists (.setSpan span :: actions) Q := by
  obtain ⟨last, hcomposed, hlast⟩ := h
  exact ⟨last, Composed.set.append hcomposed, hlast⟩

theorem append (h : Leads names F place parts lists actions Q)
    (h' : ∀ last, Q last → Leads names F last parts' lists' actions' R) :
    Leads names F place (parts ++ parts') (lists ++ lists') (actions ++ actions') R := by
  obtain ⟨middle, hfirst, hmiddle⟩ := h
  obtain ⟨last, hsecond, hlast⟩ := h' middle hmiddle
  exact ⟨last, hfirst.append hsecond, hlast⟩

theorem mono (h : Leads names F place parts lists actions Q) (hR : ∀ last, Q last → R last) :
    Leads names F place parts lists actions R := by
  obtain ⟨last, hcomposed, hlast⟩ := h
  exact ⟨last, hcomposed, hR last hlast⟩

/-- Actions after some that end at a certain place. -/
theorem after (h : Leads names F place parts lists actions (· = span))
    (h' : Leads names F span parts' lists' actions' Q) :
    Leads names F place (parts ++ parts') (lists ++ lists') (actions ++ actions') Q :=
  h.append fun _ hlast => hlast ▸ h'

/-- An action behind that handles no variable. -/
theorem concat (haction : action.isQuiet = true)
    (h : Leads names F place parts lists actions Q) :
    Leads names F place parts lists (actions ++ [action]) Q := by
  obtain ⟨last, hcomposed, hlast⟩ := h
  have happend := hcomposed.append (Composed.quiet haction)
  rw [List.append_nil, List.append_nil] at happend
  exact ⟨last, happend, hlast⟩

/-- An expression that does nothing itself. -/
theorem expr {e : Expr} (he : F place e) (h : Leads names F place parts lists actions Q) :
    Leads names F place (.expr e :: parts) lists actions Q := by
  obtain ⟨last, hcomposed, hlast⟩ := h
  exact ⟨last, (Composed.expr he (List.nil_sublist _)).append hcomposed, hlast⟩

/-- A statement that does nothing itself. -/
theorem stmt (s : Stmt) (h : Leads names F place parts lists actions Q) :
    Leads names F place (.stmt s :: parts) lists actions Q := by
  obtain ⟨last, hcomposed, hlast⟩ := h
  exact ⟨last, (Composed.stmt (List.nil_sublist _)).append hcomposed, hlast⟩

/-- What a statement does itself. -/
theorem own (s : Stmt) (h : actions.Sublist ((Part.stmt s).handling names)) :
    Leads names F place [.stmt s] [] actions (· = place) :=
  ⟨place, .stmt h, rfl⟩

theorem unread (h : Leads names F span parts lists actions Q) :
    Leads names F place parts lists [] (· = place) := by
  obtain ⟨last, hcomposed, -⟩ := h
  exact ⟨place, hcomposed.unread, rfl⟩

/-- The order of the parts does not matter. -/
theorem rearrange (h : Leads names F place parts lists actions Q)
    (hparts : ∀ test, parts.countP test = parts'.countP test) (hlists : lists' ⊆ lists) :
    Leads names F place parts' lists' actions Q := by
  classical
  obtain ⟨last, hcomposed, hlast⟩ := h
  exact ⟨last, hcomposed.perm (List.perm_iff_count.mpr fun part => hparts _) hlists, hlast⟩

theorem body {stmts : List Stmt}
    (h : Leads names F place (stmtsParts stmts) lists (stmtsActions names stmts) Q) :
    Leads names F place (stmtsParts stmts) (stmts :: lists) (stmtsActions names stmts) Q := by
  obtain ⟨last, hcomposed, hlast⟩ := h
  exact ⟨last, hcomposed.body, hlast⟩

theorem args (h : Leads names F place parts lists (exprsActions names right) (· = place)) :
    Leads names F place parts lists (.openArgs :: exprsActions names right ++ [.closeArgs])
      (· = place) := by
  obtain ⟨last, hcomposed, rfl⟩ := h
  exact ⟨last, hcomposed.args, rfl⟩

theorem assign (blank : Bool)
    (h : Leads names F place parts lists (exprsActions names right) (· = place)) :
    Leads names F place parts lists
      (.beginAssign blank :: exprsActions names right ++ [.endAssign]) (· = place) := by
  obtain ⟨last, hcomposed, rfl⟩ := h
  exact ⟨last, hcomposed.assign blank, rfl⟩

/-- The body of a function literal. -/
theorem literal (h : Leads names F place parts lists actions Q) :
    Leads names F place parts lists (.openBody kind :: actions ++ [.closeBody]) (· = place) := by
  obtain ⟨last, hcomposed, -⟩ := h
  exact ⟨place, hcomposed.literal kind, rfl⟩

/-- A statement whose own actions come last. -/
theorem last {own : List Action} (h : Leads names F place parts lists actions (· = place))
    (s : Stmt) (hown : own.Sublist ((Part.stmt s).handling names)) :
    Leads names F place (.stmt s :: parts) lists (actions ++ own) (· = place) :=
  (h.after (.own s hown)).rearrange (fun test => by simp [List.countP_cons]) (by simp)

/-- An assignment: the right side, and what comes after it. -/
theorem assignment (blank : Bool)
    (h : Leads names F place parts lists (exprsActions names right) (· = place))
    (h' : Leads names F place parts' lists' actions Q) :
    Leads names F place (parts ++ parts') (lists ++ lists')
      (.beginAssign blank :: exprsActions names right ++ .endAssign :: actions) Q := by
  simpa using (h.assign blank).after h'

/-- An assignment does something itself behind its right side, and an acquisition does not read its
targets. -/
theorem assigned {left : List Expr} {blank : Bool}
    (hright : Leads names F place parts lists (exprsActions names right) (· = place))
    (hleft : Leads names F place parts' lists' (targetsActions names left) (· = place)) :
    Leads names F place (.stmt (.assign left right span) :: (parts' ++ parts)) (lists ++ lists')
      (.beginAssign blank :: exprsActions names right ++ .endAssign
        :: storeActions left right span.stop ++ match names.acquisitionOf right with
          | some kind => Recognizers.acquireActions left kind span false
          | none => targetsActions names left) (· = place) := by
  have hown : ∀ own : List Action, own.Sublist ((Part.stmt (.assign left right span)).handling
      names) → Leads names F place [.stmt (.assign left right span)] [] own (· = place) :=
    fun own hown => .own _ hown
  rw [Part.handling] at hown
  cases hkind : names.acquisitionOf right with
  | none =>
    -- the targets are read behind the right side, but listed before it
    have hstore := hown _ (List.sublist_append_left _ _)
    exact ((hright.assignment blank hstore).after hleft).rearrange
      (fun test => by simp [List.countP_cons]; omega) (by simp)
  | some kind =>
    have hstore := hown _ (List.Sublist.refl _)
    rw [hkind] at hstore
    have hall : Leads names F place (.stmt (.assign left right span) :: (parts' ++ parts))
        (lists ++ lists') _ (· = place) :=
      ((hright.assignment blank hstore).after hleft.unread).rearrange
        (fun test => by simp [List.countP_cons]; omega) (by simp)
    simpa using hall

/-- The body of a function literal that is deferred or launched, after the arguments. -/
theorem launch {first second : List Action} {parts'' : List Part} {lists'' : List (List Stmt)}
    (h : Leads names F place parts lists actions (· = place))
    (hfirst : Leads names F place parts' lists' first (· = place))
    (hsecond : Leads names F place parts'' lists'' second Q) :
    Leads names F place (parts ++ (parts' ++ parts'')) (lists ++ (lists' ++ lists''))
      (actions ++ .openBody kind :: first ++ second ++ [.closeBody]) (· = place) := by
  simpa using h.after (hfirst.after hsecond).literal

/-- An `if` statement. The condition is read at the place of the statement. -/
theorem conditional {C : Span → Span → Prop} {first second third fourth : List Action}
    {parts₁ parts₂ parts₃ parts₄ : List Part} {lists₁ lists₂ lists₃ lists₄ : List (List Stmt)}
    {names' : List String} {hasElse : Bool} {span' : Span}
    (hinit : Leads names F place parts₁ lists₁ first fun _ => True)
    (hcond : Leads names F span parts₂ lists₂ second (· = span))
    (hthen : Leads names F span parts₃ lists₃ third (C span))
    (helse : ∀ last, C span last → Leads names F last parts₄ lists₄ fourth (C span)) :
    Leads names F place (parts₁ ++ parts₂ ++ parts₃ ++ parts₄)
      (lists₁ ++ lists₂ ++ lists₃ ++ lists₄) (first ++ .setSpan span :: second
      ++ .openGuard names' :: .openConstruct .conditional hasElse span'
      :: .enterArm .ifBranch :: third ++ .leave :: .closeGuard :: fourth
      ++ [.closeConstruct]) (C span) :=
  .concat rfl (((hinit.append fun _ _ => .set hcond).after
    (.cons rfl (.cons rfl (.cons rfl hthen)))).append
    fun last hlast => .cons rfl (.cons rfl (helse last hlast)))

/-- Some actions or others, of the same parts. -/
theorem ite {p : Bool} (h : Leads names F place parts lists actions (· = place))
    (h' : Leads names F place parts lists actions' (· = place)) :
    Leads names F place parts lists (if p = true then actions else actions') (· = place) := by
  split
  · exact h
  · exact h'

theorem of_forall (h : ∀ action ∈ actions, action.isQuiet = true) :
    Leads names F place [] [] actions (· = place) := by
  induction actions with
  | nil => exact .nil rfl
  | cons action rest ih =>
    exact .cons (h action List.mem_cons_self) (ih fun a ha => h a (List.mem_cons_of_mem _ ha))

theorem paramActions (params : List Param) :
    Leads names F place [] [] (paramActions params) (· = place) := by
  refine of_forall fun action haction => ?_
  obtain ⟨name, rfl⟩ := eq_declare_of_mem_paramActions haction
  rfl

theorem declareActions (targets : List Expr) :
    Leads names F place [] [] (declareActions targets) (· = place) := by
  refine of_forall fun action haction => ?_
  obtain ⟨name, rfl⟩ := eq_declare_of_mem_declareActions haction
  rfl

/-- A call that aborts handles no variable. -/
theorem abortActions (call : Expr) :
    Leads names F place [] [] (names.abortActions call) (· = place) := by
  unfold Recognizers.abortActions
  split
  · exact .cons rfl (.nil rfl)
  · exact .nil rfl

end Leads

section Syntax

variable {names : Recognizers} {root p : Phrase} {F : Span → Expr → Prop} {C : Span → Span → Prop}
  {place : Span}

/-- The place is right for all that is read with the expression. -/
def Fits (root : Phrase) (F : Span → Expr → Prop) (place : Span) (e : Expr) : Prop :=
  (Phrase.expr e).Within root ∧ ∀ d, (Phrase.expr d).Within (.expr e) → F place d

theorem Fits.self {e : Expr} (h : Fits root F place e) : F place e :=
  h.2 e .refl

theorem Fits.part {d e : Expr} (h : Fits root F place e) (hd : .expr d ∈ e.phrases) :
    Fits root F place d :=
  ⟨h.1.part hd, fun _ hd' => h.2 _ (Relation.ReflTransGen.head hd hd')⟩

/-- The statements are phrases of the function, and places where they end are of a kind. -/
def Stands (root : Phrase) (C : Span → Span → Prop) (Q : Span → Prop) (p : Phrase) : Prop :=
  p.Within root ∧ ∀ last, C p.span last → Q last

/-- In the body of a function literal every kind will do. -/
theorem Fits.body {params : List Param} {b : Block} {span : Span}
    (h : Fits root F place (.funcLit params b span)) :
    ∀ s ∈ b.stmts, Stands root C (fun _ => True) (.stmt s) :=
  fun _ hs => ⟨(h.1.part List.mem_cons_self).part (List.mem_map_of_mem hs), fun _ _ => trivial⟩

namespace Discipline

variable (h : Discipline root F C)
include h

theorem fit (hp : p.Within root) {e : Expr} (he : .expr e ∈ p.phrases) : Fits root F p.span e :=
  ⟨hp.part he, fun _ hd => h.fits hp he hd⟩

theorem stand (hp : p.Within root) {q : Phrase} (hq : q ∈ p.phrases) : Stands root C (C p.span) q :=
  ⟨hp.part hq, fun _ hlast => h.inside hp hq hlast⟩

theorem block (hp : p.Within root) {b : Block} (hb : .block b ∈ p.phrases) :
    ∀ s ∈ b.stmts, Stands root C (C p.span) (.stmt s) := by
  intro s hs
  obtain ⟨hwithin, hinside⟩ := h.stand (hp.part hb) (List.mem_map_of_mem hs)
  exact ⟨hwithin, fun last hlast => h.inside hp hb (hinside last hlast)⟩

/-- An init clause ends in its statement, where the expression behind it can be read. -/
theorem heads {s : Stmt} (init? : Option Stmt) (e? : Option Expr) (hs : (Phrase.stmt s).Within root)
    (hinit : ∀ i, init? = some i → .stmt i ∈ s.phrases)
    (he : ∀ e, e? = some e → .expr e ∈ s.phrases)
    (hheader : ∀ i e, init? = some i → e? = some e → s.header = some (i, e)) :
    (C s.span s.span ∧ ∀ e, e? = some e → Fits root F s.span e) ∧ ∀ i, init? = some i →
      Stands root C (fun last => C s.span last ∧ ∀ e, e? = some e → Fits root F last e)
        (.stmt i) := by
  refine ⟨⟨h.refl _, fun e heq => h.fit hs (he e heq)⟩, fun i hi => ?_⟩
  obtain ⟨hwithin, hinside⟩ := h.stand hs (hinit i hi)
  exact ⟨hwithin, fun last hlast => ⟨hinside last hlast, fun e heq =>
    ⟨hs.part (he e heq), fun _ hd => h.header hs (hheader i e hi heq) (he e heq) hlast hd⟩⟩⟩

/-- A statement that holds no other. -/
theorem simple {place span : Span} {parts : List Part} {lists : List (List Stmt)}
    {actions : List Action} (hactions : Leads names F span parts lists actions (· = span)) :
    Leads names F place parts lists (.count :: .setSpan span :: actions) (C span) :=
  .cons rfl (.set (hactions.mono fun _ hlast => hlast ▸ h.refl span))

end Discipline

mutual

/-- Reading an expression leaves the place as it is. -/
theorem Expr.leads (h : Discipline root F C) : ∀ (e : Expr) {place : Span},
    Fits root F place e → Leads names F place e.parts e.lists (e.actions names) (· = place)
  | .ident _ _, _, he => .expr he.self (.cons rfl (.nil rfl))
  | .call func args span, place, he => by
    have hfunc := func.leads h (he.part List.mem_cons_self)
    have hargs := exprs_lead h args fun e hmem =>
      he.part (List.mem_cons_of_mem _ (List.mem_map_of_mem hmem))
    have hown : Leads names F place [.expr (.call func args span)] []
        (names.finalizeActions (.call func args span)
          ++ names.delegateActions (.call func args span)) (· = place) :=
      ⟨place, .expr he.self (List.Sublist.refl _), rfl⟩
    have hcall := ((hown.after hfunc).after hargs.args).after (.abortActions (.call func args span))
    simpa [Expr.parts, Expr.lists, Expr.actions] using hcall
  | .selector operand _ _, _, he =>
    .expr he.self (operand.leads h (he.part List.mem_cons_self))
  | .funcLit params ⟨stmts, _⟩ _, place, he => by
    have hstmts := (stmts_lead h stmts place he.body trivial).body
    exact .expr he.self ((Leads.paramActions params).after hstmts).literal
  | .composite elements _, _, he =>
    .expr he.self (exprs_lead h elements fun e hmem => he.part (List.mem_map_of_mem hmem))
  | .keyValue key value _, _, he => by
    have hkey := key.leads h (he.part List.mem_cons_self)
    have hvalue := value.leads h (he.part (List.mem_cons_of_mem _ List.mem_cons_self))
    exact .expr he.self ((Leads.ite hkey.unread hkey).after hvalue)
  | .unary _ operand _, _, he => .expr he.self (operand.leads h (he.part List.mem_cons_self))
  | .literal _, _, he => .expr he.self (.nil rfl)
  | .other _ children _, _, he =>
    .expr he.self (exprs_lead h children fun e hmem => he.part (List.mem_map_of_mem hmem))

theorem exprs_lead (h : Discipline root F C) : ∀ (es : List Expr) {place : Span},
    (∀ e ∈ es, Fits root F place e) →
    Leads names F place (exprsParts es) (exprsLists es) (exprsActions names es) (· = place)
  | [], _, _ => .nil rfl
  | e :: es, _, hes =>
    (e.leads h (hes e List.mem_cons_self)).after
      (exprs_lead h es fun d hd => hes d (List.mem_cons_of_mem _ hd))

theorem targets_lead (h : Discipline root F C) : ∀ (es : List Expr) {place : Span},
    (∀ e ∈ es, Fits root F place e) →
    Leads names F place (exprsParts es) (exprsLists es) (targetsActions names es) (· = place)
  | [], _, _ => .nil rfl
  | e :: es, _, hes => by
    have he := e.leads h (hes e List.mem_cons_self)
    exact (Leads.ite he.unread he).after
      (targets_lead h es fun d hd => hes d (List.mem_cons_of_mem _ hd))

theorem expr?_leads (h : Discipline root F C) : ∀ (e? : Option Expr) {place : Span},
    (∀ e, e? = some e → Fits root F place e) →
    Leads names F place (exprParts? e?) (exprLists? e?)
      (e?.elim [] (Expr.actions names)) (· = place)
  | none, _, _ => .nil rfl
  | some e, _, he => e.leads h (he e rfl)

theorem stmt?_leads (h : Discipline root F C) :
    ∀ (s? : Option Stmt) (place : Span) (Q : Span → Prop), (s? = none → Q place) →
    (∀ s, s? = some s → Stands root C Q (.stmt s)) →
    Leads names F place (stmtParts? s?) (stmtLists? s?)
      (s?.elim [] (Stmt.actions names)) Q
  | none, _, _, hnone, _ => .nil (hnone rfl)
  | some s, place, _, _, hsome => (s.leads h place (hsome s rfl).1).mono (hsome s rfl).2

/-- Reading a statement ends at a place of its own. -/
theorem Stmt.leads (h : Discipline root F C) : ∀ (s : Stmt) (place : Span),
    (Phrase.stmt s).Within root →
    Leads names F place s.parts s.lists (s.actions names) (C s.span)
  | .shortVarDecl left right span, _, hs => by
    have hleft := exprs_lead h left fun e hmem =>
      h.fit hs (List.mem_append_left _ (List.mem_map_of_mem hmem))
    have hright := exprs_lead h right fun e hmem =>
      h.fit hs (List.mem_append_right _ (List.mem_map_of_mem hmem))
    exact h.simple ((hleft.unread.after hright).last _ (List.Sublist.refl _))
  | .varDecl declared values span, _, hs => by
    have hvalues := exprs_lead h values fun e hmem => h.fit hs (List.mem_map_of_mem hmem)
    exact h.simple (hvalues.last (.varDecl declared values span) (List.Sublist.refl _))
  | .assign left right span, _, hs => by
    have hleft := targets_lead h left fun e hmem =>
      h.fit hs (List.mem_append_left _ (List.mem_map_of_mem hmem))
    have hright := exprs_lead h right fun e hmem =>
      h.fit hs (List.mem_append_right _ (List.mem_map_of_mem hmem))
    exact h.simple (hright.assigned hleft)
  | .exprStmt e _, _, hs => .stmt _ (h.simple (e.leads h (h.fit hs List.mem_cons_self)))
  | .returnStmt values span, _, hs => by
    have hvalues := exprs_lead h values fun e hmem => h.fit hs (List.mem_map_of_mem hmem)
    exact h.simple (((Leads.own (.returnStmt values span) (List.Sublist.refl _)).after
      hvalues).concat rfl)
  | .deferStmt call span, _, hs => by
    have hfits : Fits root F span call := h.fit hs List.mem_cons_self
    have hcall := call.leads h hfits
    cases call with
    | call func args here =>
      have hfunc := func.leads h (hfits.part List.mem_cons_self)
      have hargs := exprs_lead h args fun e hmem =>
        hfits.part (List.mem_cons_of_mem _ (List.mem_map_of_mem hmem))
      cases func with
      | funcLit params body here =>
        -- the body of the literal is read behind the arguments
        obtain ⟨stmts, here⟩ := body
        have hlit := hfits.part List.mem_cons_self
        have hstmts := (stmts_lead h stmts span hlit.body trivial).body
        exact .stmt _ (.rearrange (h.simple (.expr hfits.self (.cons rfl
          (hargs.launch (.paramActions params) (.expr hlit.self hstmts)))))
          (fun test => by simp [Expr.parts, List.countP_cons]; omega)
          (by simp [Stmt.lists, Expr.lists]))
      | _ =>
        have hown : ∀ call : Expr, Leads names F span [.stmt (.deferStmt call span)] []
            (names.deferActions call) (· = span) := fun call => .own _ (List.Sublist.refl _)
        exact h.simple (.cons rfl (((hown _).after (.expr hfits.self hfunc)).after hargs))
    | _ => exact .stmt _ (h.simple (.cons rfl hcall))
  | .goStmt call span, _, hs => by
    have hfits : Fits root F span call := h.fit hs List.mem_cons_self
    have hcall := call.leads h hfits
    cases call with
    | call func args here =>
      have hfunc := func.leads h (hfits.part List.mem_cons_self)
      have hargs := exprs_lead h args fun e hmem =>
        hfits.part (List.mem_cons_of_mem _ (List.mem_map_of_mem hmem))
      have hlead := (Leads.own (.goStmt (.call func args here) span)
        (List.Sublist.refl _)).after hargs
      cases func with
      | funcLit params body here =>
        obtain ⟨stmts, here⟩ := body
        have hlit := hfits.part List.mem_cons_self
        have hstmts := (stmts_lead h stmts span hlit.body trivial).body
        exact .rearrange (h.simple (.expr hfits.self
          (hlead.launch (.paramActions params) (.expr hlit.self hstmts))))
          (fun test => by simp [Stmt.parts, Expr.parts, List.countP_cons]; omega)
          (by simp [Stmt.lists, Expr.lists])
      | _ =>
        exact .rearrange (h.simple (hlead.launch
          ⟨span, .expr hfits.self (List.sublist_append_left _ _), rfl⟩ hfunc))
          (fun test => by simp [Stmt.parts, Expr.parts, List.countP_cons]; omega)
          (by simp [Stmt.lists, Expr.lists])
    | _ => exact .stmt _ (h.simple hcall)
  | .ifStmt stmt, _, hs => .stmt _ (.cons rfl (.set (.cons rfl (stmt.leads h stmt.span hs))))
  | .forStmt init cond post ⟨stmts, here⟩ span, _, hs => by
    -- the init clause leaves its own place, which the rest is read with
    obtain ⟨hspan, hheads⟩ := h.heads init cond hs (fun i hi => by simp [Stmt.phrases, hi])
      (fun e he => by simp [Stmt.phrases, he]) fun i e hi he => by rw [hi, he, Stmt.header]
    have hinit := stmt?_leads h init span _ (fun _ => hspan) hheads
    have hcond := fun last (hlast : C span last ∧ ∀ e, cond = some e → Fits root F last e) =>
      (expr?_leads h cond hlast.2).mono fun _ heq => heq ▸ hlast.1
    have hstmts := fun last (hlast : C span last) => (stmts_lead h stmts last
      (h.block hs (List.mem_append_right _ List.mem_cons_self)) hlast).body
    have hpost := fun last (hlast : C span last) => stmt?_leads h post last _ (fun _ => hlast)
      fun s hsome => h.stand hs (by simp [Phrase.phrases, Stmt.phrases, hsome])
    rw [Stmt.actions_forStmt]
    exact .stmt _ (.rearrange (.concat rfl ((((Leads.cons rfl (.set hinit)).append hcond).append
      fun last hlast => .cons rfl (hstmts last hlast)).append hpost))
      (fun test => by simp; omega) (by simp [Stmt.lists]))
  | .rangeStmt left declares right ⟨stmts, here⟩ span, _, hs => by
    have hright := right.leads h (h.fit hs (List.mem_append_right _ List.mem_cons_self))
    have hleft := exprs_lead h left fun e hmem =>
      h.fit hs (List.mem_append_left _ (List.mem_map_of_mem hmem))
    have hdeclared : Leads names F span (exprsParts left) (exprsLists left) (declareActions left)
        (· = span) := by
      simpa using hleft.unread.after (.declareActions left)
    have hstmts := stmts_lead h stmts span (h.block hs (List.mem_append_right _
      (List.mem_cons_of_mem _ List.mem_cons_self))) (h.refl span)
    exact .stmt _ (.rearrange (.concat rfl (((Leads.cons rfl (.set hright)).after
      (.cons rfl (.ite hdeclared hleft))).after hstmts.body))
      (fun test => by simp; omega) (by simp [Stmt.lists]))
  | .switchStmt init tag cases span, _, hs => by
    obtain ⟨hspan, hheads⟩ := h.heads init tag hs (fun i hi => by simp [Stmt.phrases, hi])
      (fun e he => by simp [Stmt.phrases, he]) fun i e hi he => by rw [hi, he, Stmt.header]
    have hinit := stmt?_leads h init span _ (fun _ => hspan) hheads
    have htag := fun last (hlast : C span last ∧ ∀ e, tag = some e → Fits root F last e) =>
      (expr?_leads h tag hlast.2).mono fun _ heq => heq ▸ hlast.1
    have hcases := fun last => cases_lead h .switch cases last
      (fun c hc => h.stand hs (List.mem_append_right _ (List.mem_map_of_mem hc)))
    rw [Stmt.actions_switchStmt]
    exact .stmt _ (.concat rfl (((Leads.cons rfl (.set hinit)).append htag).append
      fun last hlast => .cons rfl (hcases last hlast)))
  | .selectStmt cases span, _, hs => by
    have hcases := cases_lead h .select cases span
      (fun c hc => h.stand hs (List.mem_map_of_mem hc)) (h.refl span)
    exact .stmt _ (.concat rfl (.cons rfl (.set (.cons rfl hcases))))
  | .block ⟨stmts, span⟩, _, hs => by
    have hstmts := stmts_lead h stmts span (h.block hs List.mem_cons_self) (h.refl span)
    exact .stmt _ (.concat rfl (.cons rfl (.set (.cons rfl hstmts.body))))
  | .seq stmts span, _, hs => by
    have hstmts := stmts_lead h stmts span (fun s hmem => h.stand hs (List.mem_map_of_mem hmem))
      (h.refl span)
    exact .stmt _ (.cons rfl (.set hstmts.body))
  | .labeled _ stmt span, _, hs => by
    obtain ⟨hwithin, hinside⟩ := h.stand hs List.mem_cons_self
    exact .stmt _ (.cons rfl (.set ((stmt.leads h span hwithin).mono hinside)))
  | .incDec operand _, _, hs =>
    .stmt _ (h.simple (operand.leads h (h.fit hs List.mem_cons_self)))
  | .send channel value _, _, hs =>
    .stmt _ (h.simple ((channel.leads h (h.fit hs List.mem_cons_self)).after
      (value.leads h (h.fit hs (List.mem_cons_of_mem _ List.mem_cons_self)))))
  | .branch _, _, _ => .stmt _ (h.simple (.nil rfl))
  | .empty _, _, _ => .stmt _ (h.simple (.nil rfl))
  | .unsupported _ _, _, _ => .stmt _ (h.simple (.nil rfl))

theorem stmts_lead (h : Discipline root F C) :
    ∀ (stmts : List Stmt) (place : Span) {Q : Span → Prop},
    (∀ s ∈ stmts, Stands root C Q (.stmt s)) → Q place →
    Leads names F place (stmtsParts stmts) (stmtsLists stmts) (stmtsActions names stmts) Q
  | [], _, _, _, hplace => .nil hplace
  | stmt :: rest, place, _, hall, _ => by
    have hrest := fun last hlast => stmts_lead h rest last
      (fun s hs => hall s (List.mem_cons_of_mem _ hs)) hlast
    obtain ⟨hwithin, hinside⟩ := hall stmt List.mem_cons_self
    have hstmt := stmt.leads h place hwithin
    cases stmt with
    | ifStmt stmt =>
      have hif := stmt.leads h stmt.span hwithin
      exact (Leads.cons rfl (.cons rfl (.set (.stmt _ hif)))).append
        fun last hlast => hrest last (hinside last hlast)
    | _ =>
      exact (Leads.cons rfl hstmt).append fun last hlast => hrest last (hinside last hlast)

theorem IfStmt.leads (h : Discipline root F C) : ∀ (stmt : IfStmt) (place : Span),
    (Phrase.stmt (.ifStmt stmt)).Within root →
    Leads names F place stmt.parts stmt.lists (stmt.actions names) (C stmt.span)
  | ⟨init, cond, ⟨stmts, here⟩, otherwise, span⟩, place, hs => by
    have hcond := cond.leads h (h.fit hs (List.mem_append_right _ List.mem_cons_self))
    have hthen := (stmts_lead h stmts span (h.block hs (List.mem_append_right _
      (List.mem_cons_of_mem _ List.mem_cons_self))) (h.refl span)).body
    have helse := fun last => else?_leads h otherwise _ last hs fun alternative halternative =>
      List.mem_append_right _ (List.mem_cons_of_mem _ (List.mem_cons_of_mem _
        (List.mem_map_of_mem (by simp [halternative]))))
    have hinit : Leads names F place (stmtParts? init) (stmtLists? init)
        (init.elim [] fun s => s.actions names ++ [.collectGuards]) fun _ => True := by
      cases init with
      | none => exact .nil trivial
      | some s =>
        exact .concat rfl ((s.leads h place (h.stand hs
          (List.mem_append_left _ List.mem_cons_self)).1).mono fun _ _ => trivial)
    rw [IfStmt.actions_mk]
    exact .conditional hinit hcond hthen helse

theorem else?_leads (h : Discipline root F C) :
    ∀ (otherwise : Option Else) (p : Phrase) (place : Span), p.Within root →
    (∀ alternative, otherwise = some alternative → alternative.phrase ∈ p.phrases) →
    C p.span place → Leads names F place (elseParts? otherwise) (elseLists? otherwise)
      (otherwise.elim [] (Else.actions names))
      (C p.span)
  | none, _, _, _, _, hplace => .nil hplace
  | some (.block ⟨alternative, _⟩), _, place, hp, helse, hplace =>
    .concat rfl (.cons rfl (stmts_lead h alternative place (h.block hp (helse _ rfl)) hplace).body)
  | some (.elseIf stmt), _, place, hp, helse, _ => by
    obtain ⟨hwithin, hinside⟩ := h.stand hp (helse _ rfl)
    exact .concat rfl (.cons rfl (.cons rfl (.cons rfl
      ((stmt.leads h place hwithin).mono hinside))))

theorem cases_lead (h : Discipline root F C) (kind : ConstructKind) :
    ∀ (cases : List CaseClause) (place : Span) {Q : Span → Prop},
    (∀ c ∈ cases, Stands root C Q (.clause c)) → Q place →
    Leads names F place (casesParts cases) (casesLists cases) (casesActions names kind cases) Q
  | [], _, _, _, hplace => .nil hplace
  | ⟨_, values, comm, body, span⟩ :: rest, _, _, hall, _ => by
    obtain ⟨hc, hinside⟩ := hall _ List.mem_cons_self
    have hvalues := exprs_lead h values fun e hmem =>
      h.fit hc (List.mem_append_left _ (List.mem_append_left _ (List.mem_map_of_mem hmem)))
    have hcomm := stmt?_leads h comm span _ (fun _ => h.refl span)
      fun s hsome => h.stand hc (by simp [Phrase.phrases, hsome])
    have hbody := fun last (hlast : C span last) => (stmts_lead h body last (fun s hmem =>
      h.stand hc (List.mem_append_right _ (List.mem_map_of_mem hmem))) hlast).body
    have hrest := fun last hlast => cases_lead h kind rest last
      (fun c hmem => hall c (List.mem_cons_of_mem _ hmem)) hlast
    rw [casesActions_cons]
    exact (((Leads.cons rfl (.set hvalues)).after hcomm).append hbody).append
      fun last hlast => .cons rfl (hrest last (hinside last hlast))

end

end Syntax

/-- Expressions are read in this way. -/
theorem Expr.composed (names : Recognizers) (e : Expr) :
    ∃ last, Composed names (fun _ _ => True) {} e.parts e.lists (e.actions names) last := by
  have hleads : Leads names (fun _ _ => True) {} e.parts e.lists (e.actions names) (· = {}) :=
    e.leads (.trivial (.expr e)) ⟨.refl, fun _ _ => trivial⟩
  obtain ⟨last, hcomposed, -⟩ := hleads
  exact ⟨last, hcomposed⟩

/-- Functions are read in this way. -/
theorem FunctionUnit.composed (names : Recognizers) {unit : FunctionUnit}
    {F : Span → Expr → Prop} {C : Span → Span → Prop} (h : Discipline (.block unit.body) F C) :
    ∃ last, Composed names F {} unit.parts unit.lists (unit.actions names) last := by
  have hstmts : Leads names F {} (stmtsParts unit.body.stmts) (stmtsLists unit.body.stmts)
      (stmtsActions names unit.body.stmts) fun _ => True :=
    stmts_lead h _ _ (fun s hs => ⟨Phrase.Within.refl.part (List.mem_map_of_mem hs),
      fun _ _ => trivial⟩) trivial
  obtain ⟨last, hcomposed, -⟩ := ((Leads.paramActions unit.receiver.toList).after
    (.paramActions unit.params)).after hstmts.body
  exact ⟨last, hcomposed⟩

/-! ## What is told by the parts -/

namespace Composed

variable {names : Recognizers} {F : Span → Expr → Prop} {place last : Span} {parts : List Part}
  {lists : List (List Stmt)} {actions : List Action}
  (h : Composed names F place parts lists actions last)
include h

/-- The parts account for all handling of variables among the actions. -/
theorem exists_part {action : Action} (haction : action ∈ actions)
    (hhandling : action.isHandling = true) : ∃ part ∈ parts, action ∈ part.handling names := by
  induction h with
  | nil | unread => cases haction
  | quiet hquiet =>
    obtain rfl := List.mem_singleton.mp haction
    simp [Action.isQuiet, hhandling] at hquiet
  | set =>
    obtain rfl := List.mem_singleton.mp haction
    cases hhandling
  | expr _ hsublist | stmt hsublist =>
    exact ⟨_, List.mem_singleton.mpr rfl, hsublist.subset haction⟩
  | append _ _ ih ih' =>
    rcases List.mem_append.mp haction with haction | haction
    · obtain ⟨part, hpart, hmem⟩ := ih haction
      exact ⟨part, List.mem_append_left _ hpart, hmem⟩
    · obtain ⟨part, hpart, hmem⟩ := ih' haction
      exact ⟨part, List.mem_append_right _ hpart, hmem⟩
  | perm _ hperm _ ih =>
    obtain ⟨part, hpart, hmem⟩ := ih haction
    exact ⟨part, hperm.mem_iff.mp hpart, hmem⟩
  | body _ ih => exact ih haction
  | args _ ih | assign _ _ ih | literal _ _ ih =>
    -- the brackets handle no variable
    refine ih ?_
    simp only [List.cons_append, List.mem_cons, List.mem_append, List.not_mem_nil] at haction
    rcases haction with rfl | haction <;> grind [Action.isHandling]

theorem reading {x : String} : Reading names x (acquisitions names x parts) lists actions := by
  induction h with
  | nil => exact .nil
  | @quiet _ action hquiet =>
    refine .ofCount (Nat.le_of_eq (countP_eq_zero_of_forall fun a ha => ?_))
    obtain rfl := List.mem_singleton.mp ha
    cases a <;> first | rfl | cases hquiet
  | set => exact .ofCount (Nat.le_refl 0)
  | expr _ hsublist | stmt hsublist =>
    refine .ofCount (Nat.le_trans hsublist.countP_le (Nat.le_trans countP_handling ?_))
    simp [acquisitions, List.countP_cons]
  | append _ _ ih ih' => exact (ih.append ih').of_eq (acquisitions_append _ _).symm
  | unread _ ih => exact ih.unread
  | perm _ hperm hsubset ih =>
    have hcount : acquisitions names x _ = acquisitions names x _ := hperm.countP_eq _
    exact ⟨hcount ▸ ih.count, fun list hlist => hcount ▸ ih.within list (hsubset hlist),
      fun list hlist => hcount ▸ ih.piece list (hsubset hlist)⟩
  | body _ ih => exact ih.body
  | args _ ih | assign _ _ ih | literal _ _ ih => exact ih.bracket rfl rfl

end Composed

namespace FunctionUnit

variable {names : Recognizers} {unit : FunctionUnit}

/-- An action that handles a variable comes from a part of the function. -/
theorem exists_part {action : Action} (h : action ∈ unit.actions names)
    (hhandling : action.isHandling = true) : ∃ part ∈ unit.parts, action ∈ part.handling names := by
  obtain ⟨last, hcomposed⟩ := composed names (.trivial (.block unit.body))
  exact hcomposed.exists_part h hhandling

theorem reading (names : Recognizers) (x : String) (unit : FunctionUnit) :
    Reading names x (acquisitions names x unit.parts) unit.lists (unit.actions names) := by
  obtain ⟨last, hcomposed⟩ := composed names (.trivial (.block unit.body))
  exact hcomposed.reading

end FunctionUnit

end TxLifecycle
