import Mathlib.Logic.Function.Defs
import TxLifecycle.Proofs.Effects
import TxLifecycle.Proofs.ScopeMaps

/-!
# Changes of states that commute with a walk

A walk compares names with one another, looks bindings up by them and appends to what it knows of a
binding. A change of states that does not interfere with this commutes with it: it may rename
variables as long as it keeps them apart, it may leave out the bindings for some variables and move
the others up, and it may leave exits out of the events of bindings. Renaming all variables is such
a change, forgetting about error checks is one, and so is keeping the bindings for one variable.

* `Selection`: bindings that stay, and their new positions;
* `StateMap`: such a change of names, positions, scopes, bindings and states;
* `StateMap.resolve` and its neighbours: lookups in the changed state;
* `StateMap.recordAt`, …, `StateMap.acquire_cases`: what the actions do to the changed state. Exits
  and error checks are left to each change.
-/

namespace TxLifecycle

/-- The event is an exit while the transaction may be open. -/
def EventKind.isExit : EventKind → Bool
  | .earlyReturn | .fatalExit _ => true
  | _ => false

/-- Surroundings without the error checks that are open. -/
def Context.unguarded (context : Context) : Context :=
  { context with guarded := [] }

/-- Replace the bindings. -/
def Walk.setBindings (w : Walk) (bindings : List Binding) : Walk :=
  { w with bindings }

/-- The bindings that stay when others are left out. -/
structure Selection where
  /-- The new position of a binding that stays. -/
  id : BindingId → BindingId
  /-- The variables whose bindings stay. -/
  stays : String → Bool
  /-- The bindings that stay. -/
  keeps : BindingId → Bool
  /-- The states in which these are the bindings for these variables. -/
  Fits : Walk → Prop
  id_injective : ∀ {i j : BindingId}, keeps i = true → keeps j = true → id i = id j → i = j
  /-- Positions and names tell whether a state can be changed. -/
  fits_of_eq : ∀ {w v : Walk}, Fits w → v.bindings = w.bindings → Fits v
  fits_modify : ∀ {w : Walk} {i : BindingId} {g : Binding → Binding}, Fits w →
    (∀ b, (g b).id = b.id) → (∀ b, (g b).name = b.name) → Fits (w.modifyBinding i g)
  fits_of_awaitCheck : ∀ {w : Walk} {i : BindingId} {errVar : Option String},
    Fits (w.awaitCheck i errVar) → Fits w
  /-- What a name means stays if the variable does. -/
  keeps_of_resolve : ∀ {w : Walk} {x : String} {i : BindingId}, Fits w → w.resolve x = some i →
    keeps i = stays x ∧
      ∀ b, w.bindings[i]? = some b → keeps b.id = stays x ∧ stays b.name = stays x

/-- All bindings stay where they are. -/
def Selection.all : Selection where
  id := fun i => i
  stays := fun _ => true
  keeps := fun _ => true
  Fits := fun _ => True
  id_injective := fun _ _ h => h
  fits_of_eq := fun _ _ => trivial
  fits_modify := fun _ _ _ => trivial
  fits_of_awaitCheck := fun _ => trivial
  keeps_of_resolve := fun _ _ => ⟨rfl, fun _ _ => ⟨rfl, rfl⟩⟩

/-- A change of names, positions, scopes, bindings and states that a walk goes on with as before. -/
structure StateMap extends Selection where
  name : String → String
  scope : Scope → Scope
  binding : Binding → Binding
  state : Walk → Walk
  scope_keeps : Scope.Keeps scope
  /-- The new names are declared in the scopes where the old ones were. -/
  scope_declared : ∀ (s : Scope) (x : String),
    (scope s).declared.contains (name x) = s.declared.contains x
  /-- A name may be declared before or after. -/
  scope_declare : ∀ (s : Scope) (x : String), (scope s).declare (name x) = scope (s.declare x)
  /-- A rollback may be noted before or after. -/
  scope_noteRollback : ∀ (s : Scope) {i : BindingId}, keeps i = true →
    (scope s).noteRollback (id i) = scope (s.noteRollback i)
  binding_id : ∀ b : Binding, (binding b).id = id b.id := by intros; rfl
  binding_name : ∀ b : Binding, (binding b).name = name b.name := by intros; rfl
  /-- The variable belongs to the same scope. -/
  binding_home : ∀ b : Binding, (binding b).home = b.home := by intros; rfl
  /-- The handle was acquired in the same scope. -/
  binding_acquiredIn : ∀ b : Binding, (binding b).acquiredIn = b.acquiredIn := by intros; rfl
  binding_isEscaped : ∀ b : Binding, (binding b).isEscaped = b.isEscaped := by intros; rfl
  /-- The open scopes finalize it as before. -/
  binding_finalizedOnPath : ∀ (b : Binding) (tree : ScopeTree),
    (binding b).finalizedOnPath tree = b.finalizedOnPath tree
  binding_any_capture : ∀ (b : Binding) (span : Span),
    ((binding b).events.any fun event => event.kind == .goroutineCapture && event.span == span) =
      b.events.any fun event => event.kind == .goroutineCapture && event.span == span
  /-- An event other than an exit may be recorded before or after. -/
  binding_record : ∀ (b : Binding) (event : Event), event.kind.isExit = false →
    (binding b).record event = binding (b.record event)
  /-- The variable may be mentioned before or after. -/
  binding_mention : ∀ (b : Binding) (offset : Nat),
    (binding b).mention offset = binding (b.mention offset) := by intros; rfl
  /-- The handle may be handed over before or after. -/
  binding_escape : ∀ b : Binding,
    { binding b with escaped := true } = binding { b with escaped := true } := by intros; rfl
  /-- The binding may be replaced before or after. -/
  binding_retire : ∀ b : Binding,
    { binding b with retired := true } = binding { b with retired := true } := by intros; rfl
  /-- Acquisitions on two branches may be merged before or after. -/
  binding_merge : ∀ (b : Binding) (acquiredIn : ScopeId),
    { binding b with acquiredIn } = binding { b with acquiredIn } := by intros; rfl
  /-- The handle may be stored in a field before or after. -/
  binding_store : ∀ (b : Binding) (stop : Nat),
    { binding b with fieldStoreEnd := some stop } =
      binding { b with fieldStoreEnd := some stop } := by intros; rfl
  /-- The variable that receives its error may be noted before or after. -/
  binding_check : ∀ (b : Binding) (x : String),
    { binding b with errVar := some (name x) } = binding { b with errVar := some x } := by
    intros
    rfl
  lifts : Walk.Lifts scope state
  /-- Open error checks apart, the surroundings of the code stay. -/
  state_context : ∀ w : Walk, (state w).context.unguarded = w.context.unguarded := by intros; rfl
  /-- A value that is thrown away still is. -/
  state_discarding : ∀ w : Walk, (state w).discarding = w.discarding := by intros; rfl
  /-- A binding that stays is found at its new position. -/
  get : ∀ {w : Walk} {i : BindingId}, Fits w → keeps i = true →
    (state w).bindings[id i]? = w.bindings[i]?.map binding
  /-- It may be modified there. -/
  modify : ∀ {w : Walk} {i : BindingId} {g g' : Binding → Binding}, Fits w → keeps i = true →
    (∀ b, g' (binding b) = binding (g b)) → (∀ b, (g b).id = b.id) →
    (state w).modifyBinding (id i) g' = state (w.modifyBinding i g)
  /-- Modifying one that goes makes no difference. -/
  drop : ∀ {w : Walk} {i : BindingId} {g : Binding → Binding}, Fits w → keeps i = false →
    (∀ b, (g b).id = b.id) → state (w.modifyBinding i g) = state w := by simp [Selection.all]
  /-- A new binding for a variable that stays comes last. -/
  add : ∀ {w : Walk} {x : String} {home acquiredIn : ScopeId} {span : Span},
    Fits (w.addBinding x home acquiredIn span).2 → stays x = true →
    keeps w.bindings.length = true ∧ (state w).addBinding (name x) home acquiredIn span =
      (id w.bindings.length, state (w.addBinding x home acquiredIn span).2)
  /-- What a scope owns under the new name. -/
  ownedBy : ∀ {w : Walk} {x : String} (scope : ScopeId), Fits w → stays x = true →
    (state w).ownedBy scope (name x) = (w.ownedBy scope x).map binding

namespace StateMap

/-! ## Changes that leave no binding out -/

section Total

variable {name : String → String} {binding : Binding → Binding} {state : Walk → Walk}
  (h : ∀ (w : Walk) (bindings : List Binding),
    state (w.setBindings bindings) = (state w).setBindings (bindings.map binding))
include h

theorem bindings_of_map (w : Walk) : (state w).bindings = w.bindings.map binding :=
  congrArg Walk.bindings (h w w.bindings)

theorem get_of_map (w : Walk) (i : BindingId) :
    (state w).bindings[i]? = w.bindings[i]?.map binding := by
  rw [bindings_of_map h, List.getElem?_map]

theorem modify_of_map {w : Walk} {g g' : Binding → Binding}
    (hg : ∀ b : Binding, g' (binding b) = binding (g b)) (i : BindingId) :
    (state w).modifyBinding i g' = state (w.modifyBinding i g) := by
  have hmodify : (w.bindings.map binding).modify i g' = (w.bindings.modify i g).map binding :=
    modify_map hg
  show (state w).setBindings ((state w).bindings.modify i g') =
    state (w.setBindings (w.bindings.modify i g))
  rw [h, bindings_of_map h, hmodify]

theorem add_of_map {w : Walk} {x y : String} {home acquiredIn : ScopeId} {span : Span}
    (hnew : ∀ i : BindingId,
      binding (.new i x home acquiredIn span) = .new i y home acquiredIn span) :
    (state w).addBinding y home acquiredIn span =
      (w.bindings.length, state (w.addBinding x home acquiredIn span).2) := by
  have hlength : (state w).bindings.length = w.bindings.length := by
    rw [bindings_of_map h, List.length_map]
  show (_, (state w).setBindings _) = (_, state (w.setBindings _))
  rw [h, List.map_append, List.map_singleton, hnew, hlength, bindings_of_map h]

theorem ownedBy_of_map (hname : Function.Injective name)
    (hbinding : ∀ b : Binding, (binding b).name = name b.name ∧ (binding b).home = b.home ∧
      (binding b).retired = b.retired) (w : Walk) (scope : ScopeId) (x : String) :
    (state w).ownedBy scope (name x) = (w.ownedBy scope x).map binding := by
  have hpred : (fun b : Binding => b.name == name x && b.home == scope && !b.retired) ∘ binding =
      fun b => b.name == x && b.home == scope && !b.retired := by
    funext b
    have hsame : (name b.name == name x) = (b.name == x) := by
      rw [Bool.eq_iff_iff, beq_iff_eq, beq_iff_eq, hname.eq_iff]
    rw [Function.comp, (hbinding b).1, (hbinding b).2.1, (hbinding b).2.2, hsame]
  rw [Walk.ownedBy, Walk.ownedBy, bindings_of_map h, ← List.map_reverse, List.find?_map, hpred]

end Total

variable (c : StateMap) (w : Walk) {v : Walk} {kind : EventKind} {x : String} {i : BindingId}

/-! ## Lookups -/

/-- The scopes of the changed state. -/
theorem scopes : (c.state w).scopes = w.scopes.mapScopes c.scope :=
  c.lifts.scopes w

theorem resembles : w.scopes.Resembles (c.state w).scopes :=
  c.scopes w ▸ c.scope_keeps.resembles w.scopes

/-- The same scopes are open. -/
theorem stack : (c.state w).scopes.stack = w.scopes.stack := by
  rw [c.scopes]
  rfl

/-- The same scope is the innermost one. -/
theorem current : (c.state w).scopes.current = w.scopes.current := by
  rw [c.scopes]
  rfl

/-- Events point at the same statement. -/
theorem span : (c.state w).context.span = w.context.span :=
  (congrArg Context.span (c.state_context w) :)

/-- The code stands in as many function literals. -/
theorem closureDepth : (c.state w).context.closureDepth = w.context.closureDepth :=
  (congrArg Context.closureDepth (c.state_context w) :)

/-- The code stands in the same `defer` statement. -/
theorem deferScope : (c.state w).context.deferScope = w.context.deferScope :=
  (congrArg Context.deferScope (c.state_context w) :)

/-- The code stands in the same `go` statements. -/
theorem launches : (c.state w).context.launches = w.context.launches :=
  (congrArg Context.launches (c.state_context w) :)

/-- The code stands in a function literal if it did. -/
theorem inClosure : (c.state w).scopes.inClosure = w.scopes.inClosure :=
  (c.resembles w).inClosure (c.stack w)

/-- A scope declares the new name if it declared the old one. -/
theorem declares (scope : ScopeId) (x : String) :
    (c.state w).scopes.declares scope (c.name x) = w.scopes.declares scope x := by
  rw [ScopeTree.declares, ScopeTree.declares, c.scopes, ScopeTree.get?_mapScopes]
  cases w.scopes.get? scope with
  | none => rfl
  | some s => exact c.scope_declared s x

/-- The innermost scope that declares a name stays the one. -/
theorem declaringScope (x : String) :
    (c.state w).scopes.declaringScope (c.name x) = w.scopes.declaringScope x := by
  rw [ScopeTree.declaringScope, ScopeTree.declaringScope, c.stack]
  exact congrArg (w.scopes.stack.find? ·) (funext fun scope => c.declares w scope x)

theorem updateScopes {g g' : ScopeTree → Except AnalysisError ScopeTree}
    (h : g' (w.scopes.mapScopes c.scope) = (g w.scopes).map (ScopeTree.mapScopes c.scope)) :
    (c.state w).updateScopes g' = (w.updateScopes g).map c.state :=
  c.lifts.updateScopes g g' h

/-- Declaring a name. -/
theorem declare (x : String) :
    (c.state w).updateScopes (·.declare (c.name x)) =
      (w.updateScopes (·.declare x)).map c.state :=
  c.updateScopes w (ScopeTree.modify_mapScopes fun s => c.scope_declare s x)

/-- The error variable of an acquisition is declared as before. -/
theorem declareError (errVar : Option String) (declares : Bool) :
    (c.state w).declareError (errVar.map c.name) declares =
      (w.declareError errVar declares).map c.state := by
  cases errVar with
  | none => rfl
  | some name => exact ite_map_of_commutes (c.declare w name) rfl

/-- The open scopes finalize a binding as before. -/
theorem finalizedOnPath (b : Binding) :
    (c.binding b).finalizedOnPath (c.state w).scopes = b.finalizedOnPath w.scopes := by
  rw [c.binding_finalizedOnPath]
  exact Binding.finalizedOnPath_congr (Binding.Agrees.refl b).resembles (c.resembles w) (c.stack w)

/-- The binding of an acquisition into a variable that stays. -/
theorem keeps_of_bind {w : Walk} {existing : Option Binding} {span : Span}
    {declares : Bool} (hx : c.stays x = true)
    (hexisting : ∀ old ∈ existing, c.keeps old.id = true ∧ c.stays old.name = true)
    (h : w.bind existing x span declares = .ok (i, v)) (hv : c.Fits v) : c.keeps i = true := by
  have hbound := Walk.bound_of_bind h
  generalize hresult : (i, v) = result at hbound
  cases hbound with
  | fresh | hide _ _ _ =>
    cases hresult
    exact (c.add hv hx).1
  | shadow _ _ _ =>
    cases hresult
    exact (c.add hv hx).1
  | @replace old _ _ =>
    cases hresult
    exact (c.add hv (hexisting old rfl).2).1
  | @merge old _ _ _ | @lose old _ _ _ _ _ =>
    cases hresult
    exact (hexisting old rfl).1

section

variable {w} (hw : c.Fits w)
include hw

/-- The new name means the same binding. -/
theorem resolve (hx : c.stays x = true) :
    (c.state w).resolve (c.name x) = (w.resolve x).map c.id := by
  have hin : ∀ scopes : List ScopeId,
      (c.state w).resolveIn (c.name x) scopes = (w.resolveIn x scopes).map c.id := by
    intro scopes
    induction scopes with
    | nil => rfl
    | cons scope rest ih =>
      rw [Walk.resolveIn, Walk.resolveIn, c.ownedBy scope hw hx, ih]
      cases w.ownedBy scope x with
      | some b => exact congrArg some (c.binding_id b)
      | none =>
        -- a scope without a binding of that name may still declare it
        simp only [Option.map_none, c.declares]
        split <;> rfl
  rw [Walk.resolve, Walk.resolve, c.stack]
  exact hin w.scopes.stack

/-- What the names of the variables that stay mean among several. -/
theorem filterMap_resolve (names : List String) :
    ((names.filter c.stays).map c.name).filterMap (c.state w).resolve =
      ((names.filterMap w.resolve).filter c.keeps).map c.id := by
  induction names with
  | nil => rfl
  | cons x names ih =>
    cases hresolve : w.resolve x with
    | none => cases hx : c.stays x <;> simp [hx, hresolve, ih, c.resolve hw]
    | some i =>
      have hkeeps := (c.keeps_of_resolve hw hresolve).1
      cases hx : c.stays x <;> simp [hx, hresolve, ih, c.resolve hw, hkeeps]

/-! ## Parts of actions -/

/-- Recording an event of a kind that may be recorded before or after. -/
theorem recordAt_of (hi : c.keeps i = true)
    (h : ∀ (b : Binding) (event : Event), event.kind = kind →
      (c.binding b).record event = c.binding (b.record event))
    (span : Span) (scope : ScopeId) (discarded : Bool) :
    (c.state w).recordAt (c.id i) kind span scope discarded =
      (w.recordAt i kind span scope discarded).map c.state := by
  rw [Walk.recordAt, Walk.recordAt, c.scopes, ScopeTree.get_mapScopes]
  cases w.scopes.get scope with
  | error e => rfl
  | ok s =>
    simp only [Except.map, c.scope_keeps.loopDepth, c.closureDepth]
    exact congrArg Except.ok (c.modify hw hi (fun b => h b _ rfl) fun _ => rfl)

/-- Recording an event other than an exit. -/
theorem recordAt (hi : c.keeps i = true) (hkind : kind.isExit = false) (span : Span)
    (scope : ScopeId) (discarded : Bool) :
    (c.state w).recordAt (c.id i) kind span scope discarded =
      (w.recordAt i kind span scope discarded).map c.state :=
  c.recordAt_of hw hi (fun b event hevent => c.binding_record b event (hevent ▸ hkind)) span scope
    discarded

/-- Recording an event keeps positions and names. -/
theorem fits_of_recordAt {span : Span} {scope : ScopeId} {discarded : Bool}
    (h : w.recordAt i kind span scope discarded = .ok v) : c.Fits v := by
  rw [Walk.recordAt] at h
  split at h
  · cases h
  · cases h
    exact c.fits_modify hw (fun _ => rfl) fun _ => rfl

/-- Recording an event of the current statement. -/
theorem record (hi : c.keeps i = true) (hkind : kind.isExit = false) :
    (c.state w).record (c.id i) kind = (w.record i kind).map c.state := by
  rw [Walk.record, Walk.record, c.span, c.current]
  exact c.recordAt hw hi hkind _ _ _

theorem recordDeferred (hi : c.keeps i = true) (commit : Bool) (scope : ScopeId) :
    (c.state w).recordDeferred (c.id i) commit scope =
      (w.recordDeferred i commit scope).map c.state := by
  have hnote : (c.state w).scopes.noteDeferredRollback scope (c.id i) =
      (w.scopes.noteDeferredRollback scope i).map (ScopeTree.mapScopes c.scope) := by
    rw [c.scopes]
    exact ScopeTree.modify_mapScopes fun s => c.scope_noteRollback s hi
  rw [Walk.recordDeferred, Walk.recordDeferred, hnote, c.span]
  refine ite_map_of_commutes (c.recordAt hw hi rfl _ scope _) ?_
  -- a rollback is noted first, then recorded
  cases w.scopes.noteDeferredRollback scope i with
  | error e => rfl
  | ok tree =>
    have hset : (c.state w).setScopes (tree.mapScopes c.scope) = c.state (w.setScopes tree) :=
      (c.lifts.setScopes w tree).symm
    have hnoted : c.Fits (w.setScopes tree) := c.fits_of_eq hw rfl
    simp only [Except.map, hset]
    exact c.recordAt hnoted hi rfl _ scope _

theorem recordCapture (hi : c.keeps i = true) (span : Span) :
    (c.state w).recordCapture (c.id i) span = (w.recordCapture i span).map c.state := by
  rw [Walk.recordCapture, Walk.recordCapture, c.get hw hi, Option.any_map, c.current]
  simp only [c.binding_any_capture]
  exact ite_map_of_commutes rfl (c.recordAt hw hi rfl span _ _)

theorem recordCaptures (hi : c.keeps i = true) (launches : List Launch) :
    launches.foldlM (fun (w : Walk) launch => w.recordCapture (c.id i) launch.span) (c.state w) =
      (launches.foldlM (fun (w : Walk) launch => w.recordCapture i launch.span) w).map
        c.state := by
  induction launches generalizing w with
  | nil => rfl
  | cons launch launches ih =>
    rw [List.foldlM_cons, List.foldlM_cons, c.recordCapture hw hi]
    cases hfirst : w.recordCapture i launch.span with
    | error e => rfl
    | ok v =>
      refine ih ?_
      rw [Walk.recordCapture] at hfirst
      split at hfirst
      · cases hfirst
        exact hw
      · exact c.fits_of_recordAt hw hfirst

theorem markEscaped (ids : List BindingId) :
    (c.state w).markEscaped ((ids.filter c.keeps).map c.id) = c.state (w.markEscaped ids) := by
  induction ids generalizing w with
  | nil => rfl
  | cons i ids ih =>
    refine Eq.trans ?_ (ih (c.fits_modify hw (fun _ => rfl) fun _ => rfl))
    rw [List.filter_cons]
    cases hi : c.keeps i with
    | false => exact congrArg (Walk.markEscaped · _) (c.drop hw hi fun _ => by rfl).symm
    | true =>
      exact congrArg (Walk.markEscaped · _) (c.modify hw hi c.binding_escape fun _ => by rfl)

/-- Noting the variable that receives the error of an acquisition. -/
theorem noteCheck (hi : c.keeps i = true) (x : String) :
    (c.state w).modifyBinding (c.id i) (fun b => { b with errVar := some (c.name x) }) =
      c.state (w.modifyBinding i fun b => { b with errVar := some x }) :=
  c.modify hw hi (fun b => c.binding_check b x) fun _ => rfl

/-- Acquiring once more. -/
theorem reacquire {old : Binding} (hold : c.keeps old.id = true) (hname : c.stays old.name = true)
    (span : Span) (hfits : ∀ r, w.reacquire old span = .ok r → c.Fits r.2) :
    (c.state w).reacquire (c.binding old) span =
      (w.reacquire old span).map fun (i, v) => (c.id i, c.state v) := by
  have hcommon : (c.state w).scopes.commonAncestor = w.scopes.commonAncestor := by
    funext a b
    exact (c.resembles w).commonAncestor a b
  have honStack : (c.state w).scopes.isOnStack = w.scopes.isOnStack := by
    funext scope
    rw [ScopeTree.isOnStack, ScopeTree.isOnStack, c.stack]
  rw [Walk.reacquire] at hfits
  rw [Walk.reacquire, Walk.reacquire, c.finalizedOnPath, hcommon, honStack, c.current,
    c.binding_isEscaped, c.binding_id, c.binding_acquiredIn, c.binding_name, c.binding_home,
    c.record hw hold rfl]
  by_cases hdone : (old.finalizedOnPath w.scopes || old.isEscaped) = true
  · -- a handle that is finished or handed over gives way to a new binding
    rw [if_pos hdone] at hfits
    rw [if_pos hdone, if_pos hdone, c.modify hw hold c.binding_retire fun _ => by rfl,
      (c.add (hfits _ rfl) hname).2]
    rfl
  · rw [if_neg hdone, if_neg hdone]
    refine ite_map_of_commutes ?_ ?_
    · exact congrArg (fun v => Except.ok (c.id old.id, v))
        (c.modify hw hold (fun b => c.binding_merge b _) fun _ => rfl)
    · cases w.record old.id .reassignment <;> rfl

/-- Finding or making the binding of an acquisition. -/
theorem bind {existing : Option Binding} (hx : c.stays x = true)
    (hexisting : ∀ old ∈ existing, c.keeps old.id = true ∧ c.stays old.name = true)
    (span : Span) (declares : Bool)
    (hfits : ∀ r, w.bind existing x span declares = .ok r → c.Fits r.2) :
    (c.state w).bind (existing.map c.binding) (c.name x) span declares =
      (w.bind existing x span declares).map fun (i, v) => (c.id i, c.state v) := by
  cases existing with
  | none =>
    rw [Option.map_none, Walk.bind, Walk.bind, c.declaringScope, c.current,
      (c.add (hfits _ rfl) hx).2]
    rfl
  | some old =>
    obtain ⟨hold, hname⟩ := hexisting old rfl
    rw [Walk.bind] at hfits
    rw [Option.map_some, Walk.bind, Walk.bind, c.finalizedOnPath, c.current, c.binding_home,
      c.binding_id, c.record hw hold rfl]
    by_cases hinner : (declares && old.home != w.scopes.current) = true
    · rw [if_pos hinner] at hfits
      rw [if_pos hinner, if_pos hinner]
      by_cases hdone : old.finalizedOnPath w.scopes = true
      · rw [if_pos hdone] at hfits
        rw [if_pos hdone, if_pos hdone, (c.add (hfits _ rfl) hx).2]
        rfl
      · rw [if_neg hdone] at hfits
        rw [if_neg hdone, if_neg hdone]
        cases hrecord : w.record old.id .shadowing with
        | error e => rfl
        | ok v =>
          rw [hrecord] at hfits
          simp only [Except.map, c.current, (c.add (hfits _ rfl) hx).2]
          rfl
    · rw [if_neg hinner] at hfits
      rw [if_neg hinner, if_neg hinner]
      exact c.reacquire hw hold hname span hfits

/-! ## Actions -/

/-- A mention. -/
theorem mention (hx : c.stays x = true) (span : Span) :
    (c.state w).mention (c.name x) span = (w.mention x span).map c.state := by
  rw [Walk.mention, Walk.mention, c.resolve hw hx]
  cases hresolve : w.resolve x with
  | none => rfl
  | some i =>
    have hi := (c.keeps_of_resolve hw hresolve).1.trans hx
    have hfits : c.Fits (w.modifyBinding i (·.mention span.stop)) :=
      c.fits_modify hw (fun _ => rfl) fun _ => rfl
    dsimp only [Option.map_some]
    rw [c.modify hw hi (fun b => c.binding_mention b span.stop) fun _ => by rfl]
    generalize w.modifyBinding i (·.mention span.stop) = v at hfits
    -- the home of the binding and the launched calls around it are the same
    have hhome : ((c.state v).bindings[c.id i]?.map (·.home)).getD ScopeTree.root =
        (v.bindings[i]?.map (·.home)).getD ScopeTree.root := by
      rw [c.get hfits hi, Option.map_map]
      exact congrArg (Option.getD · _) (congrArg (Option.map · _) (funext c.binding_home))
    have hcrossed : ∀ home, (v.context.launches.filter fun launch =>
        !(c.state v).scopes.isAncestor launch.scope home) =
        v.context.launches.filter fun launch => !v.scopes.isAncestor launch.scope home := by
      intro home
      refine List.filter_congr fun launch _ => ?_
      exact congrArg (!·) ((c.resembles v).isAncestor launch.scope home)
    rw [hhome, c.deferScope, c.launches, hcrossed]
    exact ite_map_of_commutes rfl (c.recordCaptures hfits hi _)

/-- A commit or rollback. -/
theorem finalize (hx : c.stays x = true) (commit : Bool) :
    (c.state w).finalize (c.name x) commit = (w.finalize x commit).map c.state := by
  rw [Walk.finalize, Walk.finalize, c.resolve hw hx, c.deferScope, c.span, c.current,
    c.state_discarding]
  cases hresolve : w.resolve x with
  | none => rfl
  | some i =>
    have hi := (c.keeps_of_resolve hw hresolve).1.trans hx
    cases w.context.deferScope with
    | some scope => exact c.recordDeferred hw hi commit scope
    | none => cases commit <;> exact c.recordAt hw hi rfl _ _ _

theorem deferCall (hx : c.stays x = true) (commit : Bool) :
    (c.state w).deferCall (c.name x) commit = (w.deferCall x commit).map c.state := by
  rw [Walk.deferCall, Walk.deferCall, c.resolve hw hx, c.current]
  cases hresolve : w.resolve x with
  | none => rfl
  | some i => exact c.recordDeferred hw ((c.keeps_of_resolve hw hresolve).1.trans hx) commit _

/-- A variable that is passed to a goroutine. -/
theorem capture (hx : c.stays x = true) (span : Span) :
    (c.state w).capture (c.name x) span = (w.capture x span).map c.state := by
  rw [Walk.capture, Walk.capture, c.resolve hw hx, c.deferScope]
  refine ite_map_of_commutes rfl ?_
  cases hresolve : w.resolve x with
  | none => rfl
  | some i => exact c.recordCapture hw ((c.keeps_of_resolve hw hresolve).1.trans hx) span

theorem storeField (hx : c.stays x = true) (stop : Nat) :
    (c.state w).storeField (c.name x) stop = c.state (w.storeField x stop) := by
  rw [Walk.storeField, Walk.storeField, c.resolve hw hx]
  cases hresolve : w.resolve x with
  | none => rfl
  | some i =>
    exact c.modify hw ((c.keeps_of_resolve hw hresolve).1.trans hx)
      (fun b => c.binding_store b stop) fun _ => rfl

/-- Handing bindings over to a helper. One that is given twice is given twice still. -/
theorem delegate (names : List String) :
    (c.state w).delegate ((names.filter c.stays).map c.name) = c.state (w.delegate names) := by
  rw [Walk.delegate, Walk.delegate, c.filterMap_resolve hw, ← c.markEscaped hw, List.filter_map,
    List.filter_filter, List.filter_filter]
  refine congrArg (fun ids => Walk.markEscaped _ (ids.map c.id)) (List.filter_congr fun i _ => ?_)
  cases hi : c.keeps i with
  | false => simp
  | true =>
    have hcount : (((names.filterMap w.resolve).filter c.keeps).map c.id).count (c.id i) =
        (names.filterMap w.resolve).count i := by
      rw [List.count_eq_countP, List.countP_map, List.countP_filter, List.count_eq_countP]
      refine List.countP_congr fun j _ => ?_
      simp only [Function.comp, Bool.and_eq_true, beq_iff_eq]
      exact ⟨fun h => c.id_injective h.2 hi h.1, fun h => by rw [h]; exact ⟨rfl, hi⟩⟩
    simp [hcount]

theorem handOut (names : List String) :
    (c.state w).handOut ((names.filter c.stays).map c.name) = c.state (w.handOut names) := by
  rw [Walk.handOut, Walk.handOut, c.inClosure, c.filterMap_resolve hw]
  split
  · rfl
  · exact c.markEscaped hw _

/-- An acquisition fails in both states alike, or in both of them it begins to wait for the check of
its error. -/
theorem acquire_cases (hx : c.stays x = true) (errVar : Option String) (span : Span)
    (declares : Bool) (hfits : ∀ u, w.acquire x errVar span declares = .ok u → c.Fits u) :
    (∃ e, w.acquire x errVar span declares = .error e ∧
      (c.state w).acquire (c.name x) (errVar.map c.name) span declares = .error e) ∨
    ∃ i v, c.keeps i = true ∧ c.Fits v ∧
      w.acquire x errVar span declares = .ok (v.awaitCheck i errVar) ∧
      (c.state w).acquire (c.name x) (errVar.map c.name) span declares =
        .ok ((c.state v).awaitCheck (c.id i) (errVar.map c.name)) := by
  -- the old handle is looked up before the error variable is declared
  have hold : ∀ old ∈ (w.resolve x).bind (w.bindings[·]?),
      c.keeps old.id = true ∧ c.stays old.name = true := by
    intro old hold
    obtain ⟨i, hresolve, hget⟩ := Option.bind_eq_some_iff.mp hold
    exact hx ▸ (c.keeps_of_resolve hw hresolve).2 old hget
  have hexisting : ((c.state w).resolve (c.name x)).bind ((c.state w).bindings[·]?) =
      ((w.resolve x).bind (w.bindings[·]?)).map c.binding := by
    rw [c.resolve hw hx]
    cases hresolve : w.resolve x with
    | none => rfl
    | some i => exact c.get hw ((c.keeps_of_resolve hw hresolve).1.trans hx)
  rw [Walk.acquire] at hfits
  rw [Walk.acquire, Walk.acquire, hexisting, c.declareError]
  cases hdeclare : w.declareError errVar declares with
  | error e => exact .inl ⟨e, rfl, rfl⟩
  | ok u =>
    have hu : c.Fits u := by
      obtain rfl | ⟨_, _, _, _, _, rfl⟩ := Walk.of_declareError hdeclare
      · exact hw
      · exact c.fits_of_eq hw rfl
    have hfound : ∀ r, u.bind ((w.resolve x).bind (w.bindings[·]?)) x span declares = .ok r →
        c.Fits r.2 := by
      intro r hr
      simp only [hdeclare, hr] at hfits
      exact c.fits_of_awaitCheck (hfits _ rfl)
    simp only [Except.map, c.bind hu hx hold span declares hfound]
    cases hbind : u.bind ((w.resolve x).bind (w.bindings[·]?)) x span declares with
    | error e => exact .inl ⟨e, rfl, rfl⟩
    | ok result =>
      have hv := hfound result hbind
      exact .inr ⟨result.1, result.2, c.keeps_of_bind hx hold hbind hv, hv, rfl, rfl⟩

end

end StateMap

end TxLifecycle
