import TxLifecycle.Walk.Run

/-!
# What actions do

Every change of the binding table is one of a few: an event is appended to a binding, a flag of a
binding is set, a new binding is added at the end. The first part says once which action causes
which of them:

* `Walk.Records w action id event`: running `action` in `w` may append `event` to binding `id`;
* `Walk.HandsOver` and `Walk.Stores`: it may mark the binding as handed over, or note its store
  into a field;
* `Walk.Changes`: all that may happen to one binding, and `Walk.Rewrites`: to the table.

The second part takes apart the actions that open and close nothing. Those that acquire nothing
either make notes on bindings (`Walk.Annotates`) and change at most one scope (`Walk.Marks`); the
main statement about them is `Walk.exec_noted`. An acquisition goes one of the ways that
`Walk.Bound` lists. So each of these actions is an edit, `Walk.Edits`: it rewrites the table and
changes no scope in a way that coverage sees, but for the mark that an exit leaves
(`Walk.exec_edits`). A binding is looked up by name and the table is indexed by position, so this is
about tables in which every binding knows its own position.
-/

namespace TxLifecycle

/-- A chain of computations succeeds when both of its parts do. -/
theorem bind_eq_ok {ε α β : Type} {x : Except ε α} {f : α → Except ε β} {b : β} :
    (x >>= f) = .ok b ↔ ∃ a, x = .ok a ∧ f a = .ok b := by
  cases x with
  | error e => simp [bind, Except.bind]
  | ok a => simp [bind, Except.bind]

/-- What notes on a binding leave alone: it stays the same handle in the same variable. -/
structure Binding.Keeps (b b' : Binding) : Prop where
  id_eq : b'.id = b.id
  name_eq : b'.name = b.name
  home_eq : b'.home = b.home
  acquiredIn_eq : b'.acquiredIn = b.acquiredIn
  /-- The statement of the first acquisition is kept. -/
  acquisition_eq : b'.acquisition = b.acquisition
  retired_eq : b'.retired = b.retired
  events : b.events <+: b'.events
  /-- A handle that is handed over stays so. -/
  escaped : b.escaped = true → b'.escaped = true
  lastMention : b.lastMention ≤ b'.lastMention

namespace Walk

/-- Every binding of the table knows its own position. -/
def Indexed (w : Walk) : Prop :=
  ∀ {i : Nat} {b : Binding}, w.bindings[i]? = some b → b.id = i

/-! ## Names and bindings -/

variable {id : BindingId} {name : String} {w : Walk}

theorem of_ownedBy_eq_some {scope : ScopeId} {b : Binding} (h : w.ownedBy scope name = some b) :
    b ∈ w.bindings ∧ b.name = name ∧ b.home = scope ∧ b.retired = false := by
  have hmem := List.mem_of_find?_eq_some h
  have hprop := List.find?_some h
  simp only [Bool.and_eq_true, beq_iff_eq, Bool.not_eq_true'] at hprop
  exact ⟨List.mem_reverse.mp hmem, hprop.1.1, hprop.1.2, hprop.2⟩

/-- What a name means when it is looked up through scopes. -/
theorem of_resolveIn_eq_some {scopes : List ScopeId} (h : w.resolveIn name scopes = some id) :
    ∃ b ∈ w.bindings, b.id = id ∧ b.name = name ∧ b.home ∈ scopes ∧ b.retired = false := by
  induction scopes with
  | nil => simp [resolveIn] at h
  | cons scope rest ih =>
    rw [resolveIn] at h
    split at h
    · rename_i b howned
      obtain ⟨hmem, hname, hhome, hretired⟩ := of_ownedBy_eq_some howned
      exact ⟨b, hmem, by simpa using h, hname, by simp [hhome], hretired⟩
    · split at h
      · -- a plain local hides what the scopes around it own
        cases h
      · obtain ⟨b, hmem, hid, hname, hhome, hretired⟩ := ih h
        exact ⟨b, hmem, hid, hname, List.mem_cons_of_mem _ hhome, hretired⟩

/-- What a name means is a binding of the table with that name, in one of the open scopes. -/
theorem Indexed.get_of_resolve (hindexed : w.Indexed) (h : w.resolve name = some id) :
    ∃ b, w.bindings[id]? = some b ∧ b.name = name ∧ b.home ∈ w.scopes.stack ∧
      b.retired = false := by
  obtain ⟨b, hmem, rfl, hname, hhome, hretired⟩ := of_resolveIn_eq_some h
  obtain ⟨i, hi⟩ := List.mem_iff_getElem?.mp hmem
  rw [hindexed hi]
  exact ⟨b, hi, hname, hhome, hretired⟩

/-- A binding that a name means has that name, and its scope is open. -/
theorem Indexed.of_resolve {b : Binding} (hindexed : w.Indexed) (h : w.resolve name = some id)
    (hget : w.bindings[id]? = some b) :
    b.name = name ∧ b.home ∈ w.scopes.stack ∧ b.retired = false := by
  obtain ⟨c, hc, hfacts⟩ := hindexed.get_of_resolve h
  rwa [Option.some.inj (hget.symm.trans hc)]

/-- The indices with which an action looks for bindings in the table. -/
def lookups (w : Walk) : Action → List BindingId
  | .mention name _ | .acquire name _ _ _ | .storeField name _ | .finalize name _
  | .deferCall name _ | .capture name _ => (w.resolve name).toList
  | .delegate names | .handOut names => names.filterMap w.resolve
  | .exit _ => w.exposed
  | _ => []

/-! ## Changes of one binding -/

/-- The kind of event that a deferred call leaves. -/
def deferredKind (commit : Bool) : EventKind :=
  if commit then .deferredCommit else .deferredRollback

/-- The kind of event that a call leaves where it is written. -/
def directKind (commit : Bool) : EventKind :=
  if commit then .directCommit else .directRollback

/-- The events that running an action may append to a binding. -/
inductive Records (w : Walk) : Action → BindingId → Event → Prop where
  /-- A commit or rollback that runs where it is written. -/
  | direct {name : String} {commit : Bool} {id : BindingId} {event : Event} :
      w.resolve name = some id → w.context.deferScope = none → event.kind = directKind commit →
      event.scope = w.scopes.current →
      event.inClosure = decide (0 < w.context.closureDepth) →
      event.errorDiscarded = (commit && w.discarding) → Records w (.finalize name commit) id event
  /-- A commit or rollback in a deferred function literal. -/
  | inDeferred {name : String} {commit : Bool} {id : BindingId} {event : Event} :
      w.resolve name = some id → w.context.deferScope = some event.scope →
      event.kind = deferredKind commit → event.errorDiscarded = false →
      Records w (.finalize name commit) id event
  | deferred {name : String} {commit : Bool} {id : BindingId} {event : Event} :
      w.resolve name = some id → event.kind = deferredKind commit →
      event.scope = w.scopes.current → event.errorDiscarded = false →
      Records w (.deferCall name commit) id event
  | exit {how : Exit} {id : BindingId} {event : Event} :
      id ∈ w.exposed → w.scopes.inClosure = false → event.kind = how.event →
      event.scope = w.scopes.current → event.errorDiscarded = false → Records w (.exit how) id event
  | mention {name : String} {span : Span} {id : BindingId} {event : Event} :
      w.resolve name = some id → event.kind = .goroutineCapture →
      event.scope = w.scopes.current → event.errorDiscarded = false →
      Records w (.mention name span) id event
  | capture {name : String} {span : Span} {id : BindingId} {event : Event} :
      w.resolve name = some id → event.kind = .goroutineCapture →
      event.scope = w.scopes.current → event.errorDiscarded = false →
      Records w (.capture name span) id event
  /-- A new acquisition into the variable, or into another one of that name. -/
  | acquire {name : String} {errVar : Option String} {span : Span} {declares : Bool}
      {id : BindingId} {event : Event} :
      w.resolve name = some id → event.kind = .reassignment ∨ event.kind = .shadowing →
      event.scope = w.scopes.current → event.errorDiscarded = false →
      Records w (.acquire name errVar span declares) id event

/-- The binding is one that the action looks up. -/
theorem Records.mem_lookups {action : Action} {event : Event} (h : w.Records action id event) :
    id ∈ w.lookups action := by
  cases h with
  | exit hid _ _ _ => exact hid
  | _ => exact Option.mem_toList.mpr ‹_›

/-- A direct commit or rollback is recorded by such a call only, for the current scope. -/
theorem Records.of_direct {action : Action} {event : Event} (h : w.Records action id event)
    (hkind : event.kind.isDirectFinalization = true) :
    ∃ name commit, action = .finalize name commit ∧ w.resolve name = some id ∧
      event.scope = w.scopes.current ∧
      event.inClosure = decide (0 < w.context.closureDepth) ∧ w.context.deferScope = none := by
  cases h with
  | direct hresolve hdefer _ hscope hclosure =>
    exact ⟨_, _, rfl, hresolve, hscope, hclosure, hdefer⟩
  | _ => grind [cases Exit, deferredKind, Exit.event, EventKind.isDirectFinalization]

/-- A commit is recorded by a call of it only. -/
theorem Records.of_directCommit {action : Action} {event : Event} (h : w.Records action id event)
    (hkind : event.kind = .directCommit) :
    ∃ name, action = .finalize name true ∧ w.resolve name = some id := by
  cases h with
  | @direct name commit _ _ hresolve _ hcommit =>
    cases commit with
    | false => cases hkind.symm.trans hcommit
    | true => exact ⟨name, rfl, hresolve⟩
  | _ => grind [cases Exit, deferredKind, Exit.event]

/-- An event is marked if it is a commit whose value is thrown away. -/
theorem Records.errorDiscarded_iff {action : Action} {event : Event}
    (h : w.Records action id event) :
    event.errorDiscarded = true ↔ event.kind = .directCommit ∧ w.discarding = true := by
  cases h with
  | @direct _ commit _ _ _ _ hkind _ _ hmark =>
    cases commit <;> simp [hkind, hmark, directKind]
  | _ => grind [cases Exit, deferredKind, Exit.event]

/-- A deferred commit or rollback is recorded by a deferred call, for the current scope, or in a
deferred literal, for the scope of its `defer` statement. -/
theorem Records.of_deferred {action : Action} {event : Event} (h : w.Records action id event)
    (hkind : event.kind.isDeferred = true) :
    (event.scope = w.scopes.current ∧ ∃ name commit, action = .deferCall name commit) ∨
      w.context.deferScope = some event.scope := by
  cases h with
  | inDeferred _ hdefer _ => exact Or.inr hdefer
  | deferred _ _ hscope => exact Or.inl ⟨hscope, _, _, rfl⟩
  | _ => grind [cases Exit, directKind, Exit.event, EventKind.isDeferred]

/-- Running the action may mark the binding as handed over. -/
def HandsOver (w : Walk) (action : Action) (id : BindingId) : Prop :=
  ∃ names name, (action = .delegate names ∨ action = .handOut names) ∧ name ∈ names ∧
    w.resolve name = some id

theorem HandsOver.mem_lookups {action : Action} (h : w.HandsOver action id) :
    id ∈ w.lookups action := by
  obtain ⟨names, name, rfl | rfl, hname, hresolve⟩ := h <;>
    exact List.mem_filterMap.mpr ⟨name, hname, hresolve⟩

/-- Running the action may note that the binding was stored into a field. -/
def Stores (w : Walk) (action : Action) (id : BindingId) : Prop :=
  ∃ name stop, action = .storeField name stop ∧ w.resolve name = some id

/-- Running the action mentions the binding. -/
def Mentions (w : Walk) (action : Action) (id : BindingId) : Prop :=
  ∃ name span, action = .mention name span ∧ w.resolve name = some id

/-- What running an action may do to one binding. -/
structure Changes (w : Walk) (action : Action) (id : BindingId) (b b' : Binding) : Prop where
  id_eq : b'.id = b.id
  name_eq : b'.name = b.name
  home_eq : b'.home = b.home
  /-- The statement of the first acquisition is kept. -/
  acquisition_eq : b'.acquisition = b.acquisition
  events : ∃ recorded, b'.events = b.events ++ recorded ∧
    ∀ event ∈ recorded, w.Records action id event
  /-- The binding is handed over only by certain actions. -/
  escaped : b'.escaped = true → b.escaped = true ∨ w.HandsOver action id
  stored : b'.fieldStoreEnd = b.fieldStoreEnd ∨ w.Stores action id
  /-- Its last mention moves with mentions only. -/
  mentioned : b'.lastMention = b.lastMention ∨ w.Mentions action id

namespace Changes

variable {w : Walk} {action : Action} {id : BindingId} {b b' b'' : Binding}

theorem refl (w : Walk) (action : Action) (id : BindingId) (b : Binding) :
    w.Changes action id b b :=
  ⟨rfl, rfl, rfl, rfl, ⟨[], by simp⟩, Or.inl, Or.inl rfl, Or.inl rfl⟩

theorem trans (h : w.Changes action id b b') (h' : w.Changes action id b' b'') :
    w.Changes action id b b'' := by
  obtain ⟨first, hfirst, hrecorded⟩ := h.events
  obtain ⟨second, hsecond, hrecorded'⟩ := h'.events
  refine ⟨h'.id_eq.trans h.id_eq, h'.name_eq.trans h.name_eq, h'.home_eq.trans h.home_eq,
    h'.acquisition_eq.trans h.acquisition_eq, ⟨first ++ second, ?_, ?_⟩, ?_, ?_, ?_⟩
  · rw [hsecond, hfirst, List.append_assoc]
  · intro event hevent
    rcases List.mem_append.mp hevent with hevent | hevent
    · exact hrecorded event hevent
    · exact hrecorded' event hevent
  · intro hescaped
    rcases h'.escaped hescaped with h1 | h1
    · exact h.escaped h1
    · exact Or.inr h1
  · rcases h'.stored with h1 | h1
    · rw [h1]
      exact h.stored
    · exact Or.inr h1
  · rcases h'.mentioned with h1 | h1
    · rw [h1]
      exact h.mentioned
    · exact Or.inr h1

/-- An event is appended. -/
theorem record {event : Event} (h : w.Records action id event) :
    w.Changes action id b (b.record event) :=
  ⟨rfl, rfl, rfl, rfl, ⟨[event], rfl, by simpa using h⟩, Or.inl, Or.inl rfl, Or.inl rfl⟩

end Changes

/-- What running an action may do to the table: bindings change as `Changes` says, and an
acquisition may add one. -/
structure Rewrites (w : Walk) (action : Action) (table table' : List Binding) : Prop where
  /-- Bindings of the table stay, with changes. -/
  old : ∀ {i : Nat} {b : Binding}, table[i]? = some b →
    ∃ b', table'[i]? = some b' ∧ w.Changes action i b b'
  new : ∀ {i : Nat} {b' : Binding}, table.length ≤ i → table'[i]? = some b' →
    ∃ name errVar span declares home acquiredIn,
      action = .acquire name errVar span declares ∧
      w.Changes action i (Binding.new i name home acquiredIn span) b'

namespace Rewrites

variable {w : Walk} {action : Action} {table table' table'' : List Binding}

/-- A binding of the rewritten table is an old one with changes, or it is new. -/
theorem cases (h : w.Rewrites action table table') {i : Nat} {b' : Binding}
    (hget : table'[i]? = some b') :
    (∃ b, table[i]? = some b ∧ w.Changes action i b b') ∨
    ∃ name errVar span declares home acquiredIn,
      action = .acquire name errVar span declares ∧
      w.Changes action i (Binding.new i name home acquiredIn span) b' := by
  cases hold : table[i]? with
  | none => exact Or.inr (h.new (List.getElem?_eq_none_iff.mp hold) hget)
  | some b =>
    obtain ⟨c, hc, hchanges⟩ := h.old hold
    obtain rfl : b' = c := Option.some.inj (hget.symm.trans hc)
    exact Or.inl ⟨b, rfl, hchanges⟩

theorem refl (w : Walk) (action : Action) (table : List Binding) :
    w.Rewrites action table table where
  old := fun h => ⟨_, h, Changes.refl w action _ _⟩
  new := fun hle h => by
    rw [List.getElem?_eq_none hle] at h
    cases h

theorem trans (h : w.Rewrites action table table') (h' : w.Rewrites action table' table'') :
    w.Rewrites action table table'' where
  old := fun hget => by
    obtain ⟨b', hget', hchanges⟩ := h.old hget
    obtain ⟨b'', hget'', hchanges'⟩ := h'.old hget'
    exact ⟨b'', hget'', hchanges.trans hchanges'⟩
  new := fun hle hget => by
    -- a binding that neither table held first was added by one of the two rewritings
    rcases h'.cases hget with ⟨b', hmiddle, hchanges'⟩ | hnew
    · obtain ⟨name, errVar, span, declares, home, acquiredIn, haction, hchanges⟩ :=
        h.new hle hmiddle
      exact ⟨name, errVar, span, declares, home, acquiredIn, haction, hchanges.trans hchanges'⟩
    · exact hnew

/-- One binding of the table is changed. -/
theorem modify {id : BindingId} {f : Binding → Binding}
    (h : ∀ b, w.Changes action id b (f b)) :
    w.Rewrites action table (table.modify id f) where
  old := fun {i b} hget => by
    rw [List.getElem?_modify, hget]
    by_cases heq : id = i
    · subst heq
      exact ⟨f b, by simp, h b⟩
    · exact ⟨b, by simp [heq], Changes.refl w action i b⟩
  new := fun hle hget => by
    rw [List.getElem?_eq_none (by simpa using hle)] at hget
    cases hget

/-- A binding is added for an acquisition. -/
theorem append {name : String} {errVar : Option String} {span : Span} {declares : Bool}
    (haction : action = .acquire name errVar span declares) (home acquiredIn : ScopeId) :
    w.Rewrites action table (table ++ [Binding.new table.length name home acquiredIn span]) where
  old := fun {i b} hget => by
    refine ⟨b, ?_, Changes.refl w action i b⟩
    rw [List.getElem?_append_left (List.getElem?_eq_some_iff.mp hget).1, hget]
  new := fun {i b'} hle hget => by
    rw [List.getElem?_append_right hle, List.getElem?_singleton] at hget
    split at hget
    · rename_i hzero
      obtain rfl : i = table.length := by omega
      rw [Option.some.injEq] at hget
      subst hget
      exact ⟨name, errVar, span, declares, home, acquiredIn, haction, Changes.refl w action _ _⟩
    · cases hget

end Rewrites

end Walk

/-! ## Edits: actions that open and close nothing -/

namespace Scope

/-- What coverage sees of a scope after control may have left the function in it: neither its
locals nor its `defer` statements. -/
def frame (exits : Bool) (scope : Scope) : Scope :=
  { scope with declared := [], defers := [], terminated := scope.terminated || exits }

@[simp]
theorem frame_frame (e e' : Bool) (scope : Scope) :
    (scope.frame e).frame e' = scope.frame (e || e') := by
  simp [frame, Bool.or_assoc]

/-- A declaration is not seen in the frame. -/
theorem frame_declare (e : Bool) (scope : Scope) (name : String) :
    (scope.declare name).frame e = scope.frame e := by
  unfold declare
  split <;> rfl

end Scope

/-- A change of one scope finds that scope and changes nothing else. -/
theorem ScopeTree.of_modify {tree tree' : ScopeTree} {scope : ScopeId} {f : Scope → Scope}
    (h : tree.modify scope f = .ok tree') :
    (∃ s, tree.get? scope = some s) ∧
      tree' = { tree with scopes := tree.scopes.modify scope f } := by
  unfold ScopeTree.modify at h
  split at h
  · rename_i s hget
    exact ⟨⟨s, hget⟩, by simpa using h.symm⟩
  · cases h

/-- The action acquires into a variable. -/
def Action.isAcquire : Action → Bool
  | .acquire _ _ _ _ => true
  | _ => false

/-- What a walk keeps in mind. -/
structure Registers where
  steps : Nat
  /-- Acquisitions that wait for the next statement. -/
  pending : List Guard
  /-- For every `if` whose condition has not been read yet, the acquisitions that wait for it. -/
  held : List (List Guard)
  /-- The value being read is assigned to the blank identifier. -/
  discarding : Bool
  /-- The same for the calls whose arguments are being read, the innermost first. -/
  sheltered : List Bool

/-- What an action makes of it that acquires nothing. -/
def Registers.after (r : Registers) : Action → Registers
  | .count => { r with steps := r.steps + 1 }
  | .dropGuards => { r with pending := [] }
  | .holdGuards true => { r with held := r.pending :: r.held, pending := [] }
  | .holdGuards false => { r with held := [] :: r.held }
  | .collectGuards => { r with held := r.held.modifyHead (· ++ r.pending), pending := [] }
  | .openGuard _ => { r with held := r.held.tail }
  | .beginAssign blank => { r with discarding := blank }
  | .endAssign => { r with discarding := false }
  | .openArgs => { r with sheltered := r.discarding :: r.sheltered, discarding := false }
  | .closeArgs => { r with discarding := r.sheltered.headD false, sheltered := r.sheltered.tail }
  | _ => r

/-- The action sets the statement that events point at. -/
def Action.setsSpan : Action → Bool
  | .setSpan _ => true
  | _ => false

namespace Walk

/-- What the walk keeps in mind. -/
def registers (w : Walk) : Registers :=
  ⟨w.steps, w.pending, w.held, w.discarding, w.sheltered⟩

/-- The action leaves the function: it marks the scope in which it stands as terminated. -/
def exits (w : Walk) : Action → Bool
  | .exit _ => !w.scopes.inClosure
  | _ => false

/-- Part of what running `action` in `w` does, where that neither opens nor closes anything: the
table is rewritten, and of the scopes only locals and `defer` statements change, except that the
current one is marked as terminated where `exits` says so. -/
structure Edits (w : Walk) (action : Action) (exits : Bool) (v v' : Walk) : Prop where
  stack : v'.scopes.stack = v.scopes.stack
  constructs : v'.scopes.constructs = v.scopes.constructs
  frames : ∀ scope, (v'.scopes.get? scope).map (Scope.frame false) =
    (v.scopes.get? scope).map (Scope.frame (exits && scope == v.scopes.current))
  opened : v'.constructs = v.constructs
  /-- The surroundings of the bodies around stay. -/
  outer : v'.outer = v.outer
  /-- The surroundings stay, less the statement that events point at. -/
  context : v'.context = { v.context with span := v'.context.span }
  /-- That statement is set by one action only. -/
  span : action.setsSpan = false → v'.context.span = v.context.span
  table : w.Rewrites action v.bindings v'.bindings

namespace Edits

variable {w v v' v'' : Walk} {action : Action} {e e' : Bool}

section

variable (h : w.Edits action e v v')
include h

/-- The current scope stays. -/
theorem current : v'.scopes.current = v.scopes.current := by
  rw [ScopeTree.current, h.stack, ScopeTree.current]

/-- What is read off the frame of a scope stays. -/
theorem map_get? {α : Type} {f : Scope → α} (hf : ∀ (e : Bool) (s : Scope), f (s.frame e) = f s)
    (scope : ScopeId) : (v'.scopes.get? scope).map f = (v.scopes.get? scope).map f := by
  have hmap : ∀ (e : Bool) (x : Option Scope), x.map f = (x.map (Scope.frame e)).map f := by
    intro e x
    cases x <;> simp [hf]
  rw [hmap false, h.frames, ← hmap]

theorem length : v'.scopes.scopes.length = v.scopes.scopes.length := by
  have hkinds : v'.scopes.scopes.map Scope.kind = v.scopes.scopes.map Scope.kind := by
    refine List.ext_getElem? fun n => ?_
    rw [List.getElem?_map, List.getElem?_map]
    exact h.map_get? (fun _ _ => rfl) n
  simpa using congrArg List.length hkinds

theorem parent? (scope : ScopeId) : v'.scopes.parent? scope = v.scopes.parent? scope := by
  have hmap := h.map_get? (f := Scope.parent) (fun _ _ => rfl) scope
  have hbind : ∀ x : Option Scope, x.bind Scope.parent = (x.map Scope.parent).bind id := by
    intro x
    cases x <;> rfl
  rw [ScopeTree.parent?, ScopeTree.parent?, hbind, hmap, ← hbind]

theorem kind? (scope : ScopeId) : v'.scopes.kind? scope = v.scopes.kind? scope :=
  h.map_get? (fun _ _ => rfl) scope

end

theorem of_scopes (hscopes : v'.scopes = v.scopes) (hopened : v'.constructs = v.constructs)
    (houter : v'.outer = v.outer)
    (hcontext : v'.context = { v.context with span := v'.context.span })
    (hspan : action.setsSpan = false → v'.context.span = v.context.span)
    (htable : w.Rewrites action v.bindings v'.bindings) : w.Edits action false v v' where
  stack := by rw [hscopes]
  constructs := by rw [hscopes]
  frames := fun scope => by rw [hscopes, Bool.false_and]
  opened := hopened
  outer := houter
  context := hcontext
  span := hspan
  table := htable

theorem refl (w : Walk) (action : Action) (v : Walk) : w.Edits action false v v :=
  of_scopes rfl rfl rfl rfl (fun _ => rfl) (Rewrites.refl w action _)

theorem trans (h : w.Edits action e v v') (h' : w.Edits action e' v' v'') :
    w.Edits action (e || e') v v'' where
  stack := h'.stack.trans h.stack
  constructs := h'.constructs.trans h.constructs
  frames := fun scope => by
    have hmap : ∀ x : Option Scope, x.map (Scope.frame (e' && scope == v.scopes.current)) =
        (x.map (Scope.frame false)).map (Scope.frame (e' && scope == v.scopes.current)) := by
      intro x
      cases x <;> simp
    rw [h'.frames, h.current, hmap, h.frames, Option.map_map]
    cases v.scopes.get? scope <;> simp [Bool.and_or_distrib_right]
  opened := h'.opened.trans h.opened
  outer := h'.outer.trans h.outer
  context := by
    rw [h'.context, h.context]
  span := fun haction => (h'.span haction).trans (h.span haction)
  table := h.table.trans h'.table

theorem modifyBinding {id : BindingId} {f : Binding → Binding}
    (h : ∀ b, w.Changes action id b (f b)) : w.Edits action false v (v.modifyBinding id f) :=
  of_scopes rfl rfl rfl rfl (fun _ => rfl) (.modify h)

/-- One scope is changed; where `e` says so, the current one is marked as terminated. -/
theorem setScopes {scope : ScopeId} {f : Scope → Scope} {tree : ScopeTree}
    (hmodify : v.scopes.modify scope f = .ok tree) (hscope : e = true → scope = v.scopes.current)
    (hf : ∀ s, (f s).frame false = s.frame e) : w.Edits action e v (v.setScopes tree) := by
  obtain ⟨-, rfl⟩ := ScopeTree.of_modify hmodify
  refine ⟨rfl, rfl, ?_, rfl, rfl, rfl, fun _ => rfl, Rewrites.refl w action _⟩
  intro t
  simp only [Walk.setScopes, ScopeTree.get?, List.getElem?_modify]
  by_cases ht : scope = t
  · subst ht
    cases v.scopes.scopes[scope]? with
    | none => rfl
    | some s =>
      cases e with
      | false => simp [hf]
      | true => simp [hf, hscope rfl]
  · -- a scope that is not changed is not the one that would be marked
    have hcurrent : (e && t == v.scopes.current) = false := by
      cases e with
      | false => rfl
      | true => simpa [hscope rfl] using Ne.symm (hscope rfl ▸ ht)
    simp [ht, hcurrent]

end Edits

/-! ## Notes on bindings -/

/-- A note on a binding that running an action may make. -/
structure Notes (w : Walk) (action : Action) (id : BindingId) (f : Binding → Binding) : Prop where
  lookup : id ∈ w.lookups action
  keeps : ∀ b : Binding, b.Keeps (f b)
  changes : ∀ b : Binding, w.Changes action id b (f b)

/-- Notes on bindings, one after the other. -/
inductive Annotates (w : Walk) (action : Action) : Walk → Walk → Prop where
  | refl (v : Walk) : Annotates w action v v
  | note {v v' : Walk} {id : BindingId} {f : Binding → Binding} : w.Notes action id f →
      Annotates w action (v.modifyBinding id f) v' → Annotates w action v v'

namespace Annotates

variable {w v v' v'' : Walk} {action : Action} (h : w.Annotates action v v')
include h

theorem trans (h' : w.Annotates action v' v'') : w.Annotates action v v'' := by
  induction h with
  | refl _ => exact h'
  | note hf _ ih => exact .note hf (ih h')

/-- Nothing but the table changes. -/
theorem rest : v' = { v with bindings := v'.bindings } := by
  induction h with
  | refl _ => rfl
  | note _ _ ih => exact ih

theorem edits : w.Edits action false v v' := by
  induction h with
  | refl v => exact .refl w action v
  | note hf _ ih => exact (Edits.modifyBinding hf.changes).trans ih

end Annotates

section Parts

/-! The parts of which actions are made. -/

variable {w v v' : Walk} {action : Action} {id : BindingId} {declares discarded : Bool}
  {kind : EventKind} {ids : List BindingId} {errVar : Option String} {scope : ScopeId} {span : Span}
  {name : String}

/-- Recording an event appends one of that kind to the binding. -/
theorem of_recordAt (h : v.recordAt id kind span scope discarded = .ok v') :
    ∃ event : Event, event.kind = kind ∧ event.scope = scope ∧
      event.inClosure = decide (0 < v.context.closureDepth) ∧
      v' = v.modifyBinding id (·.record event) := by
  unfold recordAt at h
  split at h
  · cases h
  · cases h
    exact ⟨_, rfl, rfl, rfl, rfl⟩

/-- An event is appended. -/
theorem Notes.record {event : Event} (h : w.Records action id event) :
    w.Notes action id (·.record event) where
  lookup := h.mem_lookups
  keeps := fun _ =>
    ⟨rfl, rfl, rfl, rfl, rfl, rfl, List.prefix_append _ _, fun h => h, Nat.le_refl _⟩
  changes := fun _ => .record h

theorem recordAt_annotates (h : v.recordAt id kind span scope discarded = .ok v')
    (hrecords : ∀ event : Event, event.kind = kind → event.scope = scope →
      event.inClosure = decide (0 < v.context.closureDepth) → event.errorDiscarded = discarded →
      w.Records action id event) : w.Annotates action v v' := by
  unfold recordAt at h
  split at h <;> cases h
  exact .note (.record (hrecords _ rfl rfl rfl rfl)) (.refl _)

/-- Events of the current statement are appended to several bindings. -/
theorem recordAll_annotates (h : v.recordAll ids kind = .ok v')
    (hrecords : ∀ id ∈ ids, ∀ event : Event, event.kind = kind → event.scope = v.scopes.current →
      event.errorDiscarded = false → w.Records action id event) : w.Annotates action v v' := by
  induction ids generalizing v with
  | nil =>
    cases h
    exact .refl _
  | cons id ids ih =>
    obtain ⟨u, hfirst, hrest⟩ := bind_eq_ok.mp h
    have hnote : w.Annotates action v u :=
      recordAt_annotates hfirst fun event hkind hscope _ =>
        hrecords id (by simp) event hkind hscope
    refine hnote.trans (ih hrest fun i hi event hkind hscope => ?_)
    rw [hnote.edits.current] at hscope
    exact hrecords i (List.mem_cons_of_mem _ hi) event hkind hscope

/-- The capture by a `go` statement is appended, unless it is there. -/
theorem recordCapture_annotates (h : v.recordCapture id span = .ok v')
    (hrecords : ∀ event : Event, event.kind = .goroutineCapture → event.scope = v.scopes.current →
      event.errorDiscarded = false → w.Records action id event) : w.Annotates action v v' := by
  unfold recordCapture at h
  dsimp only at h
  split at h
  · cases h
    exact .refl v
  · exact recordAt_annotates h fun event hkind hscope _ => hrecords event hkind hscope

/-- Captures by several `go` statements are appended. -/
theorem recordCaptures_annotates {launches : List Launch}
    (h : launches.foldlM (fun w launch => w.recordCapture id launch.span) v = .ok v')
    (hrecords : ∀ event : Event, event.kind = .goroutineCapture → event.scope = v.scopes.current →
      event.errorDiscarded = false → w.Records action id event) : w.Annotates action v v' := by
  induction launches generalizing v with
  | nil =>
    cases h
    exact .refl _
  | cons launch launches ih =>
    obtain ⟨u, hfirst, hrest⟩ := bind_eq_ok.mp h
    have hnote : w.Annotates action v u := recordCapture_annotates hfirst hrecords
    refine hnote.trans (ih hrest fun event hkind hscope => ?_)
    rw [hnote.edits.current] at hscope
    exact hrecords event hkind hscope

/-- Bindings are marked as handed over. -/
theorem markEscaped_annotates (h : ∀ id ∈ ids, w.HandsOver action id) :
    w.Annotates action v (v.markEscaped ids) := by
  induction ids generalizing v with
  | nil => exact .refl v
  | cons id ids ih =>
    have hnote : w.Notes action id fun b => { b with escaped := true } :=
      ⟨(h id (by simp)).mem_lookups,
        fun _ => ⟨rfl, rfl, rfl, rfl, rfl, rfl, List.prefix_rfl, fun _ => rfl, Nat.le_refl _⟩,
        fun _ => ⟨rfl, rfl, rfl, rfl, ⟨[], by simp⟩, fun _ => Or.inr (h id (by simp)), Or.inl rfl,
          Or.inl rfl⟩⟩
    exact .note hnote (ih fun i hi => h i (List.mem_cons_of_mem _ hi))

/-- A change of fields that no statement here is about. -/
theorem Changes.of_eq {b b' : Binding} (hid : b'.id = b.id) (hname : b'.name = b.name)
    (hhome : b'.home = b.home) (hacquisition : b'.acquisition = b.acquisition)
    (hevents : b'.events = b.events) (hescaped : b'.escaped = b.escaped)
    (hstored : b'.fieldStoreEnd = b.fieldStoreEnd)
    (hmentioned : b'.lastMention = b.lastMention ∨ w.Mentions action id) :
    w.Changes action id b b' :=
  ⟨hid, hname, hhome, hacquisition, ⟨[], by simp [hevents]⟩, fun h => Or.inl (hescaped ▸ h),
    Or.inl hstored, hmentioned⟩

/-- A change of the scope tree that succeeds. -/
theorem of_updateScopes {f : ScopeTree → Except AnalysisError ScopeTree}
    (h : v.updateScopes f = .ok v') : ∃ tree, f v.scopes = .ok tree ∧ v' = v.setScopes tree := by
  unfold updateScopes at h
  split at h
  · cases h
  · rename_i tree hf
    cases h
    exact ⟨tree, hf, rfl⟩

/-- A deferred commit is appended to the binding; a deferred rollback is also noted on the latest
`defer` statement of the scope. -/
theorem of_recordDeferred {commit : Bool} (h : v.recordDeferred id commit scope = .ok v') :
    ∃ (tree : ScopeTree) (event : Event), event.kind = deferredKind commit ∧ event.scope = scope ∧
      event.errorDiscarded = false ∧ v' = (v.setScopes tree).modifyBinding id (·.record event) ∧
      if commit then tree = v.scopes else v.scopes.noteDeferredRollback scope id = .ok tree := by
  unfold recordDeferred recordAt at h
  cases commit with
  | true =>
    simp only [if_true] at h
    split at h <;> cases h
    exact ⟨v.scopes, _, rfl, rfl, rfl, rfl, rfl⟩
  | false =>
    simp only [Bool.false_eq_true, if_false] at h ⊢
    split at h
    · cases h
    · rename_i tree hnote
      split at h <;> cases h
      exact ⟨tree, _, rfl, rfl, rfl, rfl, hnote⟩

/-- The error variable of an acquisition is declared in the current scope, if it is to be. -/
theorem of_declareError (h : v.declareError errVar declares = .ok v') :
    v' = v ∨ ∃ name tree, errVar = some name ∧ declares = true ∧
      v.scopes.declare name = .ok tree ∧ v' = v.setScopes tree := by
  unfold declareError at h
  split at h
  · split at h
    · rename_i hdeclares
      obtain ⟨tree, hdeclare, rfl⟩ := of_updateScopes h
      exact Or.inr ⟨_, tree, rfl, hdeclares, hdeclare, rfl⟩
    · cases h
      exact Or.inl rfl
  · cases h
    exact Or.inl rfl

theorem declareError_edits (h : v.declareError errVar declares = .ok v') :
    w.Edits action false v v' := by
  rcases of_declareError h with rfl | ⟨name, tree, -, -, hdeclare, rfl⟩
  · exact .refl w action _
  · exact .setScopes hdeclare (by simp) fun s => s.frame_declare false name

/-- The error variable of an acquisition is noted. -/
theorem awaitCheck_edits (v : Walk) (errVar : Option String) :
    w.Edits action false v (v.awaitCheck id errVar) := by
  unfold awaitCheck
  split
  · exact .refl w action v
  · exact .of_scopes rfl rfl rfl rfl (fun _ => rfl)
      (.modify fun b => .of_eq rfl rfl rfl rfl rfl rfl rfl (Or.inl rfl))

end Parts

/-! ## What actions do that acquire nothing -/

/-- The scopes that an action can leave which opens and closes nothing: at most one scope is
changed, and which one and how depends on the action. -/
inductive Marks (w : Walk) : Action → ScopeTree → Prop where
  | nothing {action : Action} : Marks w action w.scopes
  | local {name : String} {tree : ScopeTree} : w.scopes.declare name = .ok tree →
      Marks w (.declare name) tree
  /-- The error variable of an acquisition is declared. -/
  | error {name errVar : String} {span : Span} {tree : ScopeTree} :
      w.scopes.declare errVar = .ok tree → Marks w (.acquire name (some errVar) span true) tree
  | defer {tree : ScopeTree} : w.scopes.addDefer = .ok tree → Marks w .addDefer tree
  /-- A rollback is noted on the `defer` statement that calls it. -/
  | called {name : String} {id : BindingId} {tree : ScopeTree} : w.resolve name = some id →
      w.scopes.noteDeferredRollback w.scopes.current id = .ok tree →
      Marks w (.deferCall name false) tree
  /-- A rollback is noted on the `defer` statement whose function literal calls it. -/
  | inLiteral {name : String} {id : BindingId} {scope : ScopeId} {tree : ScopeTree} :
      w.resolve name = some id → w.context.deferScope = some scope →
      w.scopes.noteDeferredRollback scope id = .ok tree → Marks w (.finalize name false) tree
  | exit {how : Exit} {tree : ScopeTree} : w.scopes.markTerminated = .ok tree →
      Marks w (.exit how) tree

/-- What an action does that opens, closes and acquires nothing. -/
structure Noted (w : Walk) (action : Action) (u : Walk) : Prop where
  marks : w.Marks action u.scopes
  notes : ∃ v, w.Annotates action w v ∧ u.bindings = v.bindings
  registers : u.registers = w.registers.after action
  opened : u.constructs = w.constructs
  outer : u.outer = w.outer
  context : u.context = { w.context with span := u.context.span }
  span : action.setsSpan = false → u.context.span = w.context.span

section Actions

variable {w u : Walk} {action : Action} {id : BindingId} {commit : Bool} {span : Span}
  {name : String} {how : Exit}

/-- Notes are all that it does. -/
theorem Annotates.noted (h : w.Annotates action w u)
    (hafter : w.registers.after action = w.registers) : w.Noted action u := by
  rw [h.rest]
  exact ⟨.nothing, ⟨u, h, rfl⟩, hafter.symm, rfl, rfl, rfl, fun _ => rfl⟩

theorem mention_annotates (h : w.mention name span = .ok u) :
    w.Annotates (.mention name span) w u := by
  unfold mention at h
  split at h
  · cases h
    exact .refl w
  · rename_i id hresolve
    have hmention : w.Notes (.mention name span) id (·.mention span.stop) :=
      ⟨Option.mem_toList.mpr hresolve,
        fun _ => ⟨rfl, rfl, rfl, rfl, rfl, rfl, List.prefix_rfl, fun h => h, Nat.le_max_left _ _⟩,
        fun _ => .of_eq rfl rfl rfl rfl rfl rfl rfl (Or.inr ⟨name, span, rfl, hresolve⟩)⟩
    dsimp only at h
    split at h
    · cases h
      exact .note hmention (.refl _)
    · exact .note hmention (recordCaptures_annotates h fun event hkind hscope =>
        .mention hresolve hkind hscope)

/-- What sharing a variable with a goroutine does. -/
theorem capture_annotates (h : w.capture name span = .ok u) :
    w.Annotates (.capture name span) w u := by
  unfold capture at h
  split at h
  · cases h
    exact .refl w
  · split at h
    · cases h
      exact .refl w
    · rename_i id hresolve
      exact recordCapture_annotates h fun event hkind hscope => .capture hresolve hkind hscope

theorem storeField_annotates (w : Walk) (name : String) (stop : Nat) :
    w.Annotates (.storeField name stop) w (w.storeField name stop) := by
  unfold storeField
  split
  · exact .refl w
  · rename_i id hresolve
    have hnote : w.Notes (.storeField name stop) id
        fun b => { b with fieldStoreEnd := some stop } :=
      ⟨Option.mem_toList.mpr hresolve,
        fun _ => ⟨rfl, rfl, rfl, rfl, rfl, rfl, List.prefix_rfl, fun h => h, Nat.le_refl _⟩,
        fun _ => ⟨rfl, rfl, rfl, rfl, ⟨[], by simp⟩, Or.inl, Or.inr ⟨name, stop, rfl, hresolve⟩,
          Or.inl rfl⟩⟩
    exact .note hnote (.refl _)

/-- What handing bindings to a helper does. -/
theorem delegate_annotates (w : Walk) (names : List String) :
    w.Annotates (.delegate names) w (w.delegate names) := by
  refine markEscaped_annotates fun id hid => ?_
  obtain ⟨name, hname, hresolve⟩ := List.mem_filterMap.mp (List.mem_filter.mp hid).1
  exact ⟨names, name, Or.inl rfl, hname, hresolve⟩

/-- What handing bindings to the caller does. -/
theorem handOut_annotates (w : Walk) (names : List String) :
    w.Annotates (.handOut names) w (w.handOut names) := by
  unfold handOut
  split
  · exact .refl w
  · refine markEscaped_annotates fun id hid => ?_
    obtain ⟨name, hname, hresolve⟩ := List.mem_filterMap.mp hid
    exact ⟨names, name, Or.inr rfl, hname, hresolve⟩

/-- A commit or rollback on behalf of a `defer` statement. -/
theorem recordDeferred_noted {scope : ScopeId} (h : w.recordDeferred id commit scope = .ok u)
    (hafter : w.registers.after action = w.registers)
    (hrecords : ∀ event : Event, event.kind = deferredKind commit → event.scope = scope →
      event.errorDiscarded = false → w.Records action id event)
    (hmarks : commit = false → ∀ {tree}, w.scopes.noteDeferredRollback scope id = .ok tree →
      w.Marks action tree) : w.Noted action u := by
  obtain ⟨tree, event, hkind, hscope, hmarked, rfl, hnote⟩ := of_recordDeferred h
  have hrecord : w.Notes action id (·.record event) :=
    .record (hrecords event hkind hscope hmarked)
  refine ⟨?_, ⟨_, .note hrecord (.refl _), rfl⟩, hafter.symm, rfl, rfl, rfl, fun _ => rfl⟩
  cases commit with
  | true =>
    obtain rfl : tree = w.scopes := hnote
    exact .nothing
  | false => exact hmarks rfl hnote

theorem finalize_noted (h : w.finalize name commit = .ok u) :
    w.Noted (.finalize name commit) u := by
  unfold finalize at h
  split at h
  · cases h
    exact (Annotates.refl w).noted rfl
  · rename_i id hresolve
    split at h
    · rename_i scope hdefer
      refine recordDeferred_noted h rfl (fun event hkind hscope => ?_) ?_
      · exact .inDeferred hresolve (by rw [hdefer, hscope]) hkind
      · rintro rfl tree hnote
        exact .inLiteral hresolve hdefer hnote
    · rename_i hdefer
      refine (recordAt_annotates h ?_).noted rfl
      exact fun event hkind hscope hclosure => .direct hresolve hdefer hkind hscope hclosure

theorem deferCall_noted (h : w.deferCall name commit = .ok u) :
    w.Noted (.deferCall name commit) u := by
  unfold deferCall at h
  split at h
  · cases h
    exact (Annotates.refl w).noted rfl
  · rename_i id hresolve
    refine recordDeferred_noted h rfl (fun event hkind hscope => .deferred hresolve hkind hscope) ?_
    rintro rfl tree hnote
    exact .called hresolve hnote

variable (h : w.exit how = .ok u)
include h

/-- An exit marks its scope, after it has been recorded; in a function literal it does nothing. -/
theorem of_exit : (w.scopes.inClosure = true ∧ u = w) ∨
    ∃ v tree, w.scopes.inClosure = false ∧ w.Annotates (.exit how) w v ∧
      v.scopes.markTerminated = .ok tree ∧ u = v.setScopes tree := by
  unfold exit at h
  split at h
  · rename_i hclosure
    cases h
    exact Or.inl ⟨hclosure, rfl⟩
  · rename_i hclosure
    rw [Bool.not_eq_true] at hclosure
    split at h
    · cases h
    · rename_i v hrecord
      obtain ⟨tree, hmark, rfl⟩ := of_updateScopes h
      refine Or.inr ⟨v, tree, hclosure, recordAll_annotates hrecord ?_, hmark, rfl⟩
      exact fun id hid event hkind hscope => .exit hid hclosure hkind hscope

theorem exit_noted : w.Noted (.exit how) u := by
  rcases of_exit h with ⟨-, rfl⟩ | ⟨v, tree, -, hnotes, hmark, rfl⟩
  · exact (Annotates.refl _).noted rfl
  · rw [hnotes.rest] at hmark ⊢
    exact ⟨.exit hmark, ⟨v, hnotes, rfl⟩, rfl, rfl, rfl, rfl, fun _ => rfl⟩

theorem exit_edits : w.Edits (.exit how) (w.exits (.exit how)) w u := by
  rcases of_exit h with ⟨hclosure, rfl⟩ | ⟨v, tree, hclosure, hnotes, hmark, rfl⟩
  · rw [exits, hclosure]
    exact .refl u _ u
  · rw [exits, hclosure]
    exact hnotes.edits.trans (.setScopes hmark (fun _ => rfl) fun s => by simp [Scope.frame])

end Actions

end Walk

/-- The action neither opens nor closes anything. -/
def Action.isInner : Action → Bool
  | .enter _ | .enterArm _ | .leave | .openConstruct _ _ _ | .closeConstruct | .openBody _
  | .closeBody | .openGuard _ | .closeGuard => false
  | _ => true

namespace Walk

variable {limits : Limits} {w w' u v : Walk} {action : Action} {id : BindingId} {name : String}
  {errVar : Option String} {span : Span} {declares : Bool} {existing : Option Binding}
  {result : BindingId × Walk}

theorem of_exec_count (h : w.exec limits .count = .ok u) :
    w.steps < limits.maxSteps ∧ u = { w with steps := w.steps + 1 } := by
  rw [exec, countStep] at h
  split at h
  · cases h
  · cases h
    exact ⟨by omega, rfl⟩

/-- What the actions do that open, close and acquire nothing. -/
theorem exec_noted (hinner : action.isInner = true) (hacquire : action.isAcquire = false)
    (h : w.exec limits action = .ok u) : w.Noted action u := by
  -- most actions make no notes
  have hother : u.scopes = w.scopes → u.bindings = w.bindings →
      u.registers = w.registers.after action → u.constructs = w.constructs → u.outer = w.outer →
      u.context = { w.context with span := u.context.span } →
      (action.setsSpan = false → u.context.span = w.context.span) → w.Noted action u := by
    intro hscopes hbindings hregisters hopened houter hcontext hspan
    exact ⟨hscopes ▸ .nothing, ⟨w, .refl w, hbindings⟩, hregisters, hopened, houter, hcontext,
      hspan⟩
  cases action with
  | count =>
    obtain ⟨-, rfl⟩ := of_exec_count h
    exact hother rfl rfl rfl rfl rfl rfl fun _ => rfl
  | declare name =>
    rw [exec] at h
    obtain ⟨tree, hdeclare, rfl⟩ := of_updateScopes h
    exact ⟨.local hdeclare, ⟨w, .refl w, rfl⟩, rfl, rfl, rfl, rfl, fun _ => rfl⟩
  | addDefer =>
    rw [exec] at h
    obtain ⟨tree, hdefer, rfl⟩ := of_updateScopes h
    exact ⟨.defer hdefer, ⟨w, .refl w, rfl⟩, rfl, rfl, rfl, rfl, fun _ => rfl⟩
  | mention name span => exact (mention_annotates h).noted rfl
  | storeField name stop =>
    cases h
    exact (storeField_annotates w name stop).noted rfl
  | finalize name commit => exact finalize_noted h
  | deferCall name commit => exact deferCall_noted h
  | capture name span => exact (capture_annotates h).noted rfl
  | delegate names =>
    cases h
    exact (delegate_annotates w names).noted rfl
  | handOut names =>
    cases h
    exact (handOut_annotates w names).noted rfl
  | exit how => exact exit_noted h
  | holdGuards take =>
    cases h
    cases take <;> exact hother rfl rfl rfl rfl rfl rfl fun _ => rfl
  | collectGuards =>
    cases h
    refine hother ?_ ?_ ?_ ?_ ?_ ?_ fun _ => ?_ <;> rw [collectGuards] <;> cases hheld : w.held <;>
      simp [registers, Registers.after, hheld]
  | setSpan _ =>
    cases h
    exact hother rfl rfl rfl rfl rfl rfl fun hkept => by cases hkept
  | dropGuards | beginAssign _ | endAssign | openArgs | closeArgs =>
    cases h
    exact hother rfl rfl rfl rfl rfl rfl fun _ => rfl
  | acquire _ _ _ _ => cases hacquire
  | enter _ | enterArm _ | leave | openConstruct _ _ _ | closeConstruct | openBody _
  | closeBody | openGuard _ | closeGuard => cases hinner

/-- Marks other than those of exits are not seen by coverage. -/
theorem Marks.edits {tree : ScopeTree} (h : w.Marks action tree)
    (hexit : ∀ how, action ≠ .exit how) : w.Edits action false w (w.setScopes tree) := by
  cases h with
  | nothing => exact .refl w _ w
  | «local» hmark | error hmark => exact .setScopes hmark (by simp) fun s => s.frame_declare false _
  | defer hmark | called _ hmark | inLiteral _ _ hmark =>
    exact .setScopes hmark (by simp) fun _ => rfl
  | exit _ => exact absurd rfl (hexit _)

theorem Noted.edits (h : w.Noted action u) (hexit : ∀ how, action ≠ .exit how) :
    w.Edits action false w u := by
  obtain ⟨v, hnotes, hbindings⟩ := h.notes
  have hmarks := h.marks.edits hexit
  exact ⟨hmarks.stack, hmarks.constructs, hmarks.frames, h.opened, h.outer, h.context, h.span,
    hbindings ▸ hnotes.edits.table⟩

/-! ## Acquisitions -/

/-- Where an acquisition goes into a variable that now means `existing`, and what it makes of the
walk. -/
inductive Bound (u : Walk) (name : String) (span : Span) (declares : Bool) :
    Option Binding → BindingId × Walk → Prop where
  /-- The variable has no binding. -/
  | fresh : Bound u name span declares none (u.addBinding name (if declares then u.scopes.current
      else (u.scopes.declaringScope name).getD u.scopes.current) u.scopes.current span)
  /-- The declaration hides a handle that is finished. -/
  | hide {old : Binding} : declares = true → old.home ≠ u.scopes.current →
      old.finalizedOnPath u.scopes = true →
      Bound u name span declares (some old)
        (u.addBinding name u.scopes.current u.scopes.current span)
  /-- The declaration hides a handle that is open. -/
  | shadow {old : Binding} {v : Walk} : declares = true → old.home ≠ u.scopes.current →
      u.record old.id .shadowing = .ok v →
      Bound u name span declares (some old)
        (v.addBinding name v.scopes.current v.scopes.current span)
  /-- A handle that is finished or handed over gives way to a new one. -/
  | replace {old : Binding} : (declares = true → old.home = u.scopes.current) →
      (old.finalizedOnPath u.scopes || old.isEscaped) = true →
      Bound u name span declares (some old)
        ((u.modifyBinding old.id fun b => { b with retired := true }).addBinding old.name old.home
          u.scopes.current span)
  /-- A handle from a branch that has been left is merged. -/
  | merge {old : Binding} : (declares = true → old.home = u.scopes.current) →
      (old.finalizedOnPath u.scopes || old.isEscaped) = false →
      u.scopes.isOnStack old.acquiredIn = false →
      Bound u name span declares (some old) (old.id, u.modifyBinding old.id fun b =>
        { b with acquiredIn := u.scopes.commonAncestor old.acquiredIn u.scopes.current })
  /-- Any other one is lost. -/
  | lose {old : Binding} {v : Walk} : (declares = true → old.home = u.scopes.current) →
      (old.finalizedOnPath u.scopes || old.isEscaped) = false →
      u.scopes.isOnStack old.acquiredIn = true → u.record old.id .reassignment = .ok v →
      Bound u name span declares (some old) (old.id, v)

theorem bound_of_bind (h : u.bind existing name span declares = .ok result) :
    u.Bound name span declares existing result := by
  unfold Walk.bind reacquire at h
  split at h
  · cases h
    exact .fresh
  · rename_i old
    split at h
    · -- a declaration in an inner scope
      rename_i houter
      simp only [Bool.and_eq_true, bne_iff_ne] at houter
      split at h
      · cases h
        exact .hide houter.1 houter.2 (by assumption)
      · split at h <;> cases h
        exact .shadow houter.1 houter.2 (by assumption)
    · -- the same variable gets another transaction
      rename_i hhere
      have hhome : declares = true → old.home = u.scopes.current := by
        intro hdeclares
        simpa [hdeclares] using hhere
      split at h
      · cases h
        exact .replace hhome (by assumption)
      · rename_i hopen
        rw [Bool.not_eq_true] at hopen
        split at h
        · rename_i hleft
          cases h
          exact .merge hhome hopen (by simpa using hleft)
        · rename_i honstack
          split at h <;> cases h
          exact .lose hhome hopen (by simpa using honstack) (by assumption)

/-- A binding is added for an acquisition. -/
theorem addBinding_edits (home acquiredIn : ScopeId) :
    w.Edits (.acquire name errVar span declares) false v
      (v.addBinding name home acquiredIn span).2 :=
  .of_scopes rfl rfl rfl rfl (fun _ => rfl) (.append rfl home acquiredIn)

theorem Bound.edits (h : u.Bound name span declares existing result)
    (hexisting : ∀ old ∈ existing, old.name = name ∧ w.resolve name = some old.id)
    (hcurrent : u.scopes.current = w.scopes.current) :
    w.Edits (.acquire name errVar span declares) false u result.2 := by
  cases h with
  | fresh | hide _ _ _ => exact addBinding_edits _ _
  | shadow _ _ hrecord =>
    have hnote : w.Annotates (.acquire name errVar span declares) u _ :=
      recordAt_annotates hrecord fun event hkind hscope _ =>
        .acquire (hexisting _ rfl).2 (Or.inr hkind) (hscope.trans hcurrent)
    exact hnote.edits.trans (addBinding_edits _ _)
  | @replace old _ _ =>
    obtain ⟨rfl, -⟩ := hexisting old rfl
    have hretire : w.Edits (.acquire old.name errVar span declares) false u
        (u.modifyBinding old.id fun b => { b with retired := true }) :=
      .modifyBinding fun b => .of_eq rfl rfl rfl rfl rfl rfl rfl (Or.inl rfl)
    exact hretire.trans (addBinding_edits _ _)
  | merge _ _ _ => exact .modifyBinding fun b => .of_eq rfl rfl rfl rfl rfl rfl rfl (Or.inl rfl)
  | lose _ _ _ hrecord =>
    have hnote : w.Annotates (.acquire name errVar span declares) u _ :=
      recordAt_annotates hrecord fun event hkind hscope _ =>
        .acquire (hexisting _ rfl).2 (Or.inl hkind) (hscope.trans hcurrent)
    exact hnote.edits

/-- Where an acquisition goes, and the walk before its error variable is noted. -/
def acquisition (w : Walk) (name : String) (errVar : Option String) (span : Span)
    (declares : Bool) : Except AnalysisError (BindingId × Walk) :=
  match w.declareError errVar declares with
  | .error e => .error e
  | .ok u => u.bind ((w.resolve name).bind (w.bindings[·]?)) name span declares

/-- An acquisition finds its binding and then notes its error variable. -/
theorem acquire_eq (w : Walk) (name : String) (errVar : Option String) (span : Span)
    (declares : Bool) : w.acquire name errVar span declares =
      (w.acquisition name errVar span declares).map fun (id, v) => v.awaitCheck id errVar := by
  unfold acquire acquisition
  dsimp only
  cases w.declareError errVar declares with
  | error e => rfl
  | ok u =>
    dsimp only
    cases u.bind ((w.resolve name).bind (w.bindings[·]?)) name span declares <;> rfl

/-- An action that acquires into a variable is an acquisition followed by a note on its error. -/
theorem exists_acquisition_of_acquire (h : w.acquire name errVar span declares = .ok w') :
    ∃ n v, w.acquisition name errVar span declares = .ok (n, v) ∧ w' = v.awaitCheck n errVar := by
  rw [acquire_eq] at h
  cases hacquisition : w.acquisition name errVar span declares with
  | error e =>
    rw [hacquisition] at h
    cases h
  | ok result =>
    rw [hacquisition] at h
    cases h
    exact ⟨result.1, result.2, rfl, rfl⟩

/-- An acquisition declares its error variable, then it finds or makes its binding. -/
theorem of_acquisition (h : w.acquisition name errVar span declares = .ok result) :
    ∃ u, w.declareError errVar declares = .ok u ∧
      u.Bound name span declares ((w.resolve name).bind (w.bindings[·]?)) result := by
  unfold acquisition at h
  split at h
  · cases h
  · rename_i u hdeclare
    exact ⟨u, hdeclare, bound_of_bind h⟩

theorem acquire_edits (hindexed : w.Indexed) (h : w.acquire name errVar span declares = .ok w') :
    w.Edits (.acquire name errVar span declares) false w w' := by
  -- what the name means is found before the error variable is declared
  have hexisting : ∀ old ∈ (w.resolve name).bind (w.bindings[·]?),
      old.name = name ∧ w.resolve name = some old.id := by
    intro old hold
    obtain ⟨id, hresolve, hget⟩ := Option.bind_eq_some_iff.mp hold
    exact ⟨(hindexed.of_resolve hresolve hget).1, by rw [hresolve, hindexed hget]⟩
  obtain ⟨n, v, hacquisition, rfl⟩ := exists_acquisition_of_acquire h
  obtain ⟨u, hdeclare, hbound⟩ := of_acquisition hacquisition
  have hfirst : w.Edits (.acquire name errVar span declares) false w u :=
    declareError_edits hdeclare
  exact (hfirst.trans (hbound.edits hexisting hfirst.current)).trans (awaitCheck_edits _ errVar)

/-- An action that opens and closes nothing is an edit. -/
theorem exec_edits (hindexed : w.Indexed) (hinner : action.isInner = true)
    (h : w.exec limits action = .ok w') : w.Edits action (w.exits action) w w' := by
  cases action with
  | acquire name errVar span declares => exact acquire_edits hindexed h
  | exit how => exact exit_edits h
  | _ => exact (exec_noted hinner rfl h).edits (by simp)

/-- Recording an event adds no binding. -/
theorem length_of_record {kind : EventKind} (h : u.record id kind = .ok v) :
    v.bindings.length = u.bindings.length := by
  obtain ⟨event, -, -, -, rfl⟩ := of_recordAt h
  exact List.length_modify _ _ _

/-- The binding for an acquisition is a new one at the end of the table, or the existing one where
that is not finished on this path. -/
theorem Bound.cases (h : u.Bound name span declares existing result) :
    (result.1 = u.bindings.length ∧ result.2.bindings.length = u.bindings.length + 1) ∨
    ∃ old ∈ existing, result.1 = old.id ∧ old.finalizedOnPath u.scopes = false ∧
      result.2.bindings.length = u.bindings.length := by
  cases h with
  | fresh | hide _ _ _ | replace _ _ =>
    exact Or.inl ⟨by simp [addBinding, modifyBinding], by simp [addBinding, modifyBinding]⟩
  | shadow _ _ hrecord =>
    exact Or.inl ⟨length_of_record hrecord, by simp [addBinding, length_of_record hrecord]⟩
  | merge _ hopen _ =>
    exact Or.inr ⟨_, rfl, rfl, (Bool.or_eq_false_iff.mp hopen).1, by simp [modifyBinding]⟩
  | lose _ hopen _ hrecord =>
    exact Or.inr ⟨_, rfl, rfl, (Bool.or_eq_false_iff.mp hopen).1, length_of_record hrecord⟩

end Walk

end TxLifecycle
