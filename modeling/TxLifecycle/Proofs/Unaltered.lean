import TxLifecycle.Proofs.InitClauses
import TxLifecycle.Proofs.Path

/-!
# Code that leaves a variable alone

Some code may mention a variable, but neither declares it, nor acquires into it, nor does anything
with the handle in it. Such code keeps all that is known of the variable.

* `Action.alters`: what is not done to the variable;
* `Walk.run_declares`: the scopes that declare it stay the same, and so does the innermost open one
  if the code closes what it opens;
* `Walk.Lone`: it has one binding, of which this and that is known;
* `Walk.Live`: control gets to the place that is being read. There a lone handle to which nothing
  was done does not count as finished.
-/

namespace TxLifecycle

/-- The action declares the variable, acquires into it or does something with the handle in it. -/
def Action.alters (x : String) : Action → Bool
  | .declare name | .finalize name _ | .deferCall name _ | .storeField name _ => name == x
  | .acquire name errVar _ _ => name == x || errVar == some x
  | .delegate names | .handOut names => names.contains x
  | _ => false

/-- None of the actions does. -/
def Quiet (x : String) (actions : List Action) : Prop :=
  ∀ action ∈ actions, action.alters x = false

instance (x : String) (actions : List Action) : Decidable (Quiet x actions) :=
  inferInstanceAs (Decidable (∀ action ∈ actions, action.alters x = false))

namespace Action

variable {x : String} {action : Action}

/-- An action that leaves the variable alone acquires nothing into it. -/
theorem acquires_of_alters (h : action.alters x = false) : action.acquires x = false := by
  cases action with
  | acquire name errVar span declares => exact (Bool.or_eq_false_iff.mp h).1
  | _ => rfl

theorem not_touches_of_alters (h : action.alters x = false) : ¬ action.Touches x := by
  intro htouches
  cases action <;> simp_all [alters, Touches]

end Action

namespace Quiet

variable {x : String} {first second : List Action}

@[simp]
theorem append_iff : Quiet x (first ++ second) ↔ Quiet x first ∧ Quiet x second :=
  List.forall_mem_append

@[simp]
theorem cons_iff {action : Action} :
    Quiet x (action :: second) ↔ action.alters x = false ∧ Quiet x second :=
  List.forall_mem_cons

/-- Nothing. -/
@[simp]
theorem nil (x : String) : Quiet x [] :=
  List.forall_mem_nil _

end Quiet

/-! ## Declared names -/

namespace ScopeTree

variable {tree tree' : ScopeTree} {x : String} {scope id : ScopeId}

/-- A change of a scope that does not concern the name. -/
theorem declares_of_modify {f : Scope → Scope}
    (h : tree.modify id f = .ok tree')
    (hf : ∀ s, (f s).declared.contains x = s.declared.contains x) :
    tree'.declares scope x = tree.declares scope x := by
  obtain ⟨-, rfl⟩ := of_modify h
  rw [declares, declares, get?, get?, List.getElem?_modify]
  cases tree.scopes[scope]? with
  | none => rfl
  | some s =>
    by_cases heq : id = scope
    · simpa [heq] using hf s
    · simp [heq]

theorem declares_of_declare {name : String} (hname : name ≠ x) (h : tree.declare name = .ok tree') :
    tree'.declares scope x = tree.declares scope x := by
  refine declares_of_modify h fun s => ?_
  rw [Scope.declare]
  split
  · rfl
  · simp [Ne.symm hname]

theorem declares_eq_getD (tree : ScopeTree) (scope : ScopeId) (x : String) :
    tree.declares scope x = ((tree.get? scope).map (·.declared.contains x)).getD false := by
  rw [declares]
  cases tree.get? scope <;> rfl

/-- A scope that is not there declares nothing. -/
theorem declares_of_length_le (h : tree.scopes.length ≤ scope) : tree.declares scope x = false := by
  rw [declares, get?, List.getElem?_eq_none h]

end ScopeTree

namespace Walk

variable {limits : Limits} {w u w' : Walk} {action : Action} {x : String}
  {home place scope : ScopeId} {count : Nat} {b : Binding} {actions : List Action}

/-- An action that opens and closes nothing and does not declare the variable. -/
theorem Marks.declares {tree : ScopeTree} (h : w.Marks action tree)
    (hquiet : action.alters x = false) (scope : ScopeId) :
    tree.declares scope x = w.scopes.declares scope x := by
  cases h with
  | nothing => rfl
  | «local» hdeclare =>
    exact ScopeTree.declares_of_declare (by simpa [Action.alters] using hquiet) hdeclare
  | error hdeclare =>
    refine ScopeTree.declares_of_declare ?_ hdeclare
    simpa using (Bool.or_eq_false_iff.mp hquiet).2
  | defer hmark | called _ hmark | inLiteral _ _ hmark | exit hmark =>
    exact ScopeTree.declares_of_modify hmark fun _ => rfl

/-- An action that does not alter the variable leaves the scopes that declare it. -/
theorem exec_declares (hexec : w.exec limits action = .ok u) (hquiet : action.alters x = false)
    (scope : ScopeId) : u.scopes.declares scope x = w.scopes.declares scope x := by
  by_cases hinner : action.isInner = true
  · exact (exec_inner hinner hexec).marks.declares hquiet scope
  · rw [ScopeTree.declares_eq_getD, ScopeTree.declares_eq_getD]
    exact map_get?_exec hexec (by simpa using hinner) (fun _ _ => rfl) fun _ _ _ _ => by simp

theorem run_declares (hsound : w.Sound limits actions) (hrun : w.run limits actions = .ok w')
    (hquiet : Quiet x actions) (scope : ScopeId) :
    w'.scopes.declares scope x = w.scopes.declares scope x :=
  hsound.preserves (P := fun v => v.scopes.declares scope x = w.scopes.declares scope x) hrun
    (fun haction _ hexec hv => (exec_declares hexec (hquiet _ haction) scope).trans hv) rfl

section

variable (hdeclares : ∀ scope, u.scopes.declares scope x = w.scopes.declares scope x)
include hdeclares

/-- The variable is the one of the same scope if the open scopes are the same. -/
theorem declaringScope_of_stack (hstack : u.scopes.stack = w.scopes.stack) :
    u.scopes.declaringScope x = w.scopes.declaringScope x := by
  rw [ScopeTree.declaringScope, ScopeTree.declaringScope, hstack]
  exact congrArg (w.scopes.stack.find? ·) (funext hdeclares)

/-- The variable is the one of the same scope if a new scope opens. -/
theorem declaringScope_of_opens {kind : ScopeKind} {arm? : Option ConstructId}
    (hopens : w.scopes.Opens kind arm? u.scopes) :
    u.scopes.declaringScope x = w.scopes.declaringScope x := by
  rw [ScopeTree.declaringScope, ScopeTree.declaringScope, hopens.stack, List.find?_cons,
    hdeclares, ScopeTree.declares_of_length_le (Nat.le_refl _)]
  exact congrArg (w.scopes.stack.find? ·) (funext hdeclares)

end

/-! ## One handle -/

/-- The variable, which is one of the scope `home`, has one binding. Its handle was acquired in
`place`, nothing was done with it, and it was lost to later acquisitions `count` times. -/
structure Lone (table : List Binding) (x : String) (home place : ScopeId) (count : Nat)
    (b : Binding) : Prop where
  get : table[b.id]? = some b
  only : ∀ {i : Nat} {c : Binding}, table[i]? = some c → c.name = x → i = b.id
  name_eq : b.name = x
  home_eq : b.home = home
  acquiredIn_eq : b.acquiredIn = place
  /-- No other handle has taken its place. -/
  unretired : b.retired = false
  untouched : b.Untouched
  lost : b.events.countP (·.kind == .reassignment) = count

namespace Lone

variable {table : List Binding}

section

variable (h : Lone table x home place count b)
include h

/-- Any binding of the variable is that one. -/
theorem eq_of_mem {c : Binding} (hc : c ∈ table) (hname : c.name = x) : c = b := by
  obtain ⟨i, hi⟩ := List.mem_iff_getElem?.mp hc
  rw [h.only hi hname, h.get] at hi
  exact (Option.some.inj hi).symm

/-- The one binding is all that the table holds for the variable. -/
theorem filter_eq : table.filter (·.name == x) = [b] := by
  obtain ⟨hlt, hget⟩ := List.getElem?_eq_some_iff.mp h.get
  have hsplit := List.take_append_drop b.id table
  rw [List.drop_eq_getElem_cons hlt, hget] at hsplit
  -- the bindings before and after it are for other variables
  have hbefore : (table.take b.id).filter (·.name == x) = [] := by
    refine List.filter_eq_nil_iff.mpr fun c hc hname => ?_
    obtain ⟨i, hi⟩ := List.mem_iff_getElem?.mp hc
    rw [List.getElem?_take] at hi
    split at hi
    · exact absurd (h.only hi (eq_of_beq hname)) (by omega)
    · cases hi
  have hafter : (table.drop (b.id + 1)).filter (·.name == x) = [] := by
    refine List.filter_eq_nil_iff.mpr fun c hc hname => ?_
    obtain ⟨i, hi⟩ := List.mem_iff_getElem?.mp hc
    rw [List.getElem?_drop] at hi
    exact absurd (h.only hi (eq_of_beq hname)) (by omega)
  rw [← hsplit, List.filter_append, hbefore, List.filter_cons, hafter, h.name_eq]
  simp

/-- The binding changes, but it stays one to which nothing was done. -/
theorem modify {f : Binding → Binding} {place' : ScopeId} {count' : Nat} (hid : (f b).id = b.id)
    (hname : (f b).name = b.name) (hhome : (f b).home = b.home)
    (hretired : (f b).retired = b.retired) (huntouched : (f b).Untouched)
    (hplace : (f b).acquiredIn = place')
    (hlost : (f b).events.countP (·.kind == .reassignment) = count') :
    Lone (table.modify b.id f) x home place' count' (f b) where
  get := by rw [hid, List.getElem?_modify_eq, h.get]; rfl
  only := fun {i c} hc hcname => by
    rw [hid]
    by_cases hi : b.id = i
    · exact hi.symm
    · rw [List.getElem?_modify_ne _ _ hi] at hc
      exact h.only hc hcname
  name_eq := hname.trans h.name_eq
  home_eq := hhome.trans h.home_eq
  acquiredIn_eq := hplace
  unretired := hretired.trans h.unretired
  untouched := huntouched
  lost := hlost

end

/-- The name means it wherever the variable is the innermost one of that name. -/
theorem meets (h : Lone w.bindings x home place count b)
    (hdeclared : w.scopes.declaringScope x = some home) : w.Meets x b := by
  refine ⟨?_, h.get⟩
  obtain ⟨hhome, inner, outer, hstack, hinner⟩ := List.find?_eq_some_iff_append.mp hdeclared
  have howned : ∀ {scope : ScopeId} {c : Binding}, w.ownedBy scope x = some c →
      c = b ∧ scope = home := by
    intro scope c hc
    obtain ⟨hmem, hname, hscope, -⟩ := of_ownedBy_eq_some hc
    obtain rfl := h.eq_of_mem hmem hname
    exact ⟨rfl, hscope.symm.trans h.home_eq⟩
  have hfound : w.resolveIn x (home :: outer) = some b.id := by
    rw [resolveIn]
    cases hown : w.ownedBy home x with
    | none =>
      have hretired := retired_of_ownedBy_eq_none hown b (List.mem_of_getElem? h.get) h.name_eq
        h.home_eq
      rw [h.unretired] at hretired
      cases hretired
    | some c => rw [(howned hown).1]
  -- the scopes inside that of the variable neither declare it nor own a binding for it
  rw [resolve, hstack]
  clear hstack
  induction inner with
  | nil => exact hfound
  | cons scope inner ih =>
    have hscope : w.scopes.declares scope x = false := by
      simpa using hinner scope List.mem_cons_self
    rw [List.cons_append, resolveIn]
    cases hown : w.ownedBy scope x with
    | none =>
      simp only [hscope, Bool.false_eq_true, if_false]
      exact ih fun s hs => hinner s (List.mem_cons_of_mem _ hs)
    | some c =>
      rw [(howned hown).2, hhome] at hscope
      cases hscope

end Lone

/-- An action that does not alter the variable keeps all this. -/
theorem exec_lone (hwf : w.WellFormed) (horderly : w.scopes.Orderly w.bindings)
    (hexec : w.exec limits action = .ok u) (hquiet : action.alters x = false)
    (h : Lone w.bindings x home place count b) : ∃ b', Lone u.bindings x home place count b' := by
  have hacquires := Action.acquires_of_alters hquiet
  obtain ⟨b', hget, hkeeps⟩ :=
    exec_keepsHandle hwf horderly hexec h.get (h.name_eq.symm ▸ hacquires)
  have hname : b'.name = x := hkeeps.name_eq.trans h.name_eq
  refine ⟨b', by rw [hkeeps.id_eq, hget], fun {i c} hc hcname => ?_, hname,
    hkeeps.home_eq.trans h.home_eq, hkeeps.acquiredIn_eq.trans h.acquiredIn_eq,
    hkeeps.retired_eq.trans h.unretired, ?_, ?_⟩
  · obtain ⟨old, hold, holdname⟩ := exists_old_of_exec hwf.indexed hexec hacquires hc hcname
    exact (h.only hold holdname).trans hkeeps.id_eq.symm
  · exact untouched_of_exec hwf hexec (Action.not_touches_of_alters hquiet)
      (fun c hc hcname => h.eq_of_mem hc hcname ▸ h.untouched) b' (List.mem_of_getElem? hget) hname
  · obtain ⟨recorded, heq, hrecorded⟩ := (exec_rewrites hwf.indexed hexec).eventsOf b.id
    rw [eventsOf_eq hget, eventsOf_eq h.get] at heq
    -- a loss would be recorded by an acquisition into the variable
    have hnone : recorded.countP (·.kind == .reassignment) = 0 := by
      refine List.countP_eq_zero.mpr fun event hevent hkind => ?_
      obtain ⟨name, hname', hresolve⟩ :=
        (hrecorded event hevent).acquires (Or.inr (eq_of_beq hkind))
      obtain ⟨c, hc, hcname, -⟩ := Indexed.get_of_resolve hwf.indexed hresolve
      obtain rfl : b = c := Option.some.inj (h.get.symm.trans hc)
      rw [← hcname, h.name_eq, hacquires] at hname'
      cases hname'
    rw [heq, List.countP_append, hnone, h.lost, Nat.add_zero]

theorem run_lone (hsound : w.Sound limits actions) (horderly : w.scopes.Orderly w.bindings)
    (hrun : w.run limits actions = .ok w') (hquiet : Quiet x actions)
    (h : Lone w.bindings x home place count b) : ∃ b', Lone w'.bindings x home place count b' := by
  have hkept := hsound.preserves
    (P := fun v => v.scopes.Orderly v.bindings ∧ ∃ b', Lone v.bindings x home place count b') hrun
    ?_ ⟨horderly, b, h⟩
  · exact hkept.2
  · rintro u v action haction hwf hexec ⟨horderly, b, h⟩
    exact ⟨exec_orderly hwf horderly hexec, exec_lone hwf horderly hexec (hquiet _ haction) h⟩

/-! ## Code that control gets to -/

/-- Control gets to the place that is being read: no open scope holds a block or a construct out of
which no path falls. -/
def Live (w : Walk) : Prop :=
  ∀ scope ∈ w.scopes.stack, ¬ w.scopes.Covered [] (fun _ => False) scope

/-- Where control gets to, a handle is not finished without a commit or rollback that counts. -/
theorem Live.not_finalizedOnPath (hlive : w.Live) (hwf : w.WellFormed)
    (h : ∀ scope, b.finalizedIn scope = false) : b.finalizedOnPath w.scopes = false := by
  refine List.any_eq_false.mpr fun scope hscope hfinalizes => ?_
  -- only exits are left to finish it
  have hdirect : (b.finalizedIn · = true) = fun _ => False :=
    funext fun scope => eq_false (Bool.eq_false_iff.mp (h scope))
  have hcovered := (Binding.finalizes_iff_covered hwf.tree.ordered).mp hfinalizes
  rw [hdirect] at hcovered
  exact hlive scope hscope hcovered

/-- Where control gets to, a handle with which nothing was done is neither finished nor handed over.
-/
theorem Live.not_finished (hlive : w.Live) (hwf : w.WellFormed) (h : b.Untouched) :
    (b.finalizedOnPath w.scopes || b.isEscaped) = false := by
  refine Bool.or_eq_false_iff.mpr ⟨hlive.not_finalizedOnPath hwf fun scope => ?_, ?_⟩
  · refine Bool.eq_false_iff.mpr fun hfinalized => ?_
    obtain ⟨event, hevent, hkind⟩ := List.any_eq_true.mp hfinalized
    obtain ⟨hcommit, hrollback⟩ := h.unfinalized event hevent
    cases hk : event.kind <;> simp_all [EventKind.isCommit, EventKind.isRollback,
      EventKind.isDirectFinalization]
  · rw [Binding.isEscaped, h.kept, h.unstored]
    rfl

/-- Where no scope is terminated, paths fall out of everything. -/
theorem live_of_not_terminated (h : ∀ scope, ¬ w.scopes.Terminated scope) : w.Live := by
  intro scope hscope hcovered
  -- a covered construct has arms that are terminated, whatever scope it stands in
  clear hscope
  induction hcovered with
  | direct hdirect => exact hdirect
  | block _ _ _ ih => exact ih
  | branch _ _ harms _ ih =>
    obtain ⟨arm, harm⟩ := List.exists_mem_of_ne_nil _ harms
    exact ih arm harm (h arm)

theorem exec_not_terminated (hwf : w.WellFormed) (hexec : w.exec limits action = .ok u)
    (hexit : action.isExit = false) (h : ∀ scope, ¬ w.scopes.Terminated scope) (scope : ScopeId) :
    ¬ u.scopes.Terminated scope := by
  intro hterminated
  rcases exec_terminated hwf.indexed hexec hterminated with hold | ⟨hexits, -⟩
  · exact h scope hold
  · cases action <;> first | cases hexits | cases hexit

/-- An acquisition into the variable stands where control gets to. -/
def AcquiresLive (x : String) (w : Walk) (action : Action) : Prop :=
  action.acquires x = true → w.Live

/-- Without exits control gets everywhere. -/
theorem along_live (hsound : w.Sound limits actions)
    (hexits : ∀ action ∈ actions, action.isExit = false)
    (h : ∀ scope, ¬ w.scopes.Terminated scope) : w.Along limits (AcquiresLive x) actions := by
  induction actions generalizing w with
  | nil => trivial
  | cons action rest ih =>
    refine ⟨fun _ => live_of_not_terminated h, fun u hexec => ih (hsound.2.2 u hexec)
      (fun a ha => hexits a (List.mem_cons_of_mem _ ha)) ?_⟩
    exact exec_not_terminated hsound.1 hexec (hexits action List.mem_cons_self) h

end Walk

theorem FunctionUnit.along_live (unit : FunctionUnit) (limits : Limits) (names : Recognizers)
    (x : String) (hexits : ∀ action ∈ unit.actions names, action.isExit = false) :
    ({} : Walk).Along limits (Walk.AcquiresLive x) (unit.actions names) := by
  refine Walk.along_live (unit.sound_actions limits names) hexits fun scope hterminated => ?_
  cases scope <;> cases hterminated

end TxLifecycle
