import TxLifecycle.Proofs.Table

/-!
# What names mean

A name is looked up in the open scopes, among the bindings in use and the plain locals that hide
them. So its meaning can change only where a variable is declared or acquired, or where a scope
opens or closes.

* `Walk.resolve_congr`: what the lookup of a name reads;
* `Action.isSteady`: the actions that change nothing of it;
* `Walk.resolve_of_run`: while such actions run, every name keeps its meaning.
-/

namespace TxLifecycle

/-- The action opens and closes nothing, and makes no variable. -/
def Action.isSteady : Action → Bool
  | .declare _ | .acquire _ _ _ _ => false
  | action => action.isInner

theorem Action.isInner_of_isSteady {action : Action} (h : action.isSteady = true) :
    action.isInner = true := by
  cases action <;> first | exact h | rfl

namespace Walk

variable {limits : Limits} {w u w' : Walk} {action : Action} {table table' : List Binding}

/-- What a lookup by name sees of a binding. -/
def label (b : Binding) : BindingId × String × ScopeId × Bool :=
  (b.id, b.name, b.home, b.retired)

/-- A scope owns the same under a name where the table shows the same to lookups. -/
theorem ownedBy_congr (h : u.bindings.map label = w.bindings.map label) (scope : ScopeId)
    (x : String) : (u.ownedBy scope x).map (·.id) = (w.ownedBy scope x).map (·.id) := by
  have hlabels : ∀ v : Walk, (v.ownedBy scope x).map (·.id) =
      ((v.bindings.map label).reverse.find? fun parts =>
        parts.2.1 == x && parts.2.2.1 == scope && !parts.2.2.2).map (·.1) := by
    intro v
    simp [ownedBy, label, ← List.map_reverse, List.find?_map, Function.comp_def]
  rw [hlabels, hlabels, h]

/-- A name means the same where the same scopes are open, with the same plain locals, and the table
shows the same to lookups. -/
theorem resolve_congr (h : u.bindings.map label = w.bindings.map label)
    (hstack : u.scopes.stack = w.scopes.stack) {x : String}
    (hlocals : ∀ scope, u.scopes.declares scope x = w.scopes.declares scope x) :
    u.resolve x = w.resolve x := by
  rw [resolve, resolve, hstack]
  induction w.scopes.stack with
  | nil => rfl
  | cons scope rest ih =>
    have howned := ownedBy_congr h scope x
    rw [resolveIn, resolveIn, hlocals, ih]
    cases hu : u.ownedBy scope x <;> cases hw : w.ownedBy scope x <;>
      simp [hu, hw] at howned ⊢
    exact howned

/-- Notes on bindings are not seen by lookups. -/
theorem label_of_amends (haction : action.isSteady = true) (h : w.Amends action table table') :
    table'.map label = table.map label := by
  cases h with
  | note i hkeeps =>
    refine List.ext_getElem? fun j => ?_
    simp only [List.getElem?_map, List.getElem?_modify]
    cases table[j]? with
    | none => rfl
    | some b =>
      by_cases heq : i = j
      · simp [heq, label, (hkeeps b).id_eq, (hkeeps b).name_eq, (hkeeps b).home_eq,
          (hkeeps b).retired_eq]
      · simp [heq]
  -- only acquisitions do more than note
  | retire | merge | add => cases haction

theorem label_of_reflTransGen (haction : action.isSteady = true)
    (h : Relation.ReflTransGen (w.Amends action) table table') :
    table'.map label = table.map label := by
  induction h with
  | refl => rfl
  | tail _ hamend ih => exact (label_of_amends haction hamend).trans ih

/-- A change of one scope that leaves its plain locals leaves those of all. -/
theorem declares_of_modify {tree tree' : ScopeTree} {scope : ScopeId} {f : Scope → Scope}
    (h : tree.modify scope f = .ok tree') (hf : ∀ s, (f s).declared = s.declared)
    (other : ScopeId) (x : String) : tree'.declares other x = tree.declares other x := by
  obtain ⟨-, rfl⟩ := ScopeTree.of_modify h
  simp only [ScopeTree.declares, ScopeTree.get?, List.getElem?_modify]
  cases tree.scopes[other]? with
  | none => rfl
  | some s => by_cases heq : scope = other <;> simp [heq, hf]

/-- What such an action leaves of the scopes is the same to lookups. -/
theorem Marks.lookups {tree : ScopeTree} (h : w.Marks action tree)
    (haction : action.isSteady = true) :
    tree.stack = w.scopes.stack ∧
      ∀ scope x, tree.declares scope x = w.scopes.declares scope x := by
  have hmodify : ∀ {tree : ScopeTree} {scope : ScopeId} {f : Scope → Scope},
      w.scopes.modify scope f = .ok tree → (∀ s, (f s).declared = s.declared) →
      tree.stack = w.scopes.stack ∧
        ∀ scope x, tree.declares scope x = w.scopes.declares scope x := by
    intro tree scope f hmodify hf
    refine ⟨?_, declares_of_modify hmodify hf⟩
    obtain ⟨-, rfl⟩ := ScopeTree.of_modify hmodify
    rfl
  cases h with
  | nothing => exact ⟨rfl, fun _ _ => rfl⟩
  | «local» | error => cases haction
  | defer hmark | exit hmark | called _ hmark | inLiteral _ _ hmark =>
    exact hmodify hmark fun _ => rfl

/-- Running such an action changes no name. -/
theorem resolve_of_exec (hwf : w.WellFormed) (horderly : w.scopes.Orderly w.bindings)
    (haction : action.isSteady = true) (hexec : w.exec limits action = .ok u) (x : String) :
    u.resolve x = w.resolve x := by
  have hinner := exec_inner (Action.isInner_of_isSteady haction) hexec
  obtain ⟨hstack, hlocals⟩ := hinner.marks.lookups haction
  exact resolve_congr (label_of_reflTransGen haction (hinner.amends hwf horderly)) hstack
    fun scope => hlocals scope x

/-- Running several such actions changes no name. -/
theorem resolve_of_run {actions : List Action} (hsound : w.Sound limits actions)
    (horderly : w.scopes.Orderly w.bindings) (hactions : ∀ a ∈ actions, a.isSteady = true)
    (hrun : w.run limits actions = .ok w') (x : String) : w'.resolve x = w.resolve x := by
  have hkept := hsound.preserves
    (P := fun v => v.scopes.Orderly v.bindings ∧ v.resolve x = w.resolve x) hrun ?_
    ⟨horderly, rfl⟩
  · exact hkept.2
  · rintro u v action hmem hwf hexec ⟨hu, hresolve⟩
    refine ⟨exec_orderly hwf hu hexec, ?_⟩
    rw [resolve_of_exec hwf hu (hactions action hmem) hexec, hresolve]

/-- The beginning of a statement is counted and placed, and no more. -/
theorem of_run_begin {span : Span} (h : w.run limits [.count, .setSpan span] = .ok u) :
    u.scopes = w.scopes ∧ u.bindings = w.bindings ∧
      u.context.deferScope = w.context.deferScope := by
  obtain ⟨v, hcount, hspan⟩ := run_cons_eq_ok.mp h
  obtain ⟨-, rfl⟩ := of_exec_count hcount
  cases hspan
  exact ⟨rfl, rfl, rfl⟩

end Walk

end TxLifecycle
