import TxLifecycle.Proofs.DeferredRollback
import TxLifecycle.Proofs.Judgement

/-!
# Acquisitions into a variable that holds a handle

A declaration is meant to make a variable, and in a scope that already has one of that name it finds
that one. This file says what becomes of the handle in it.

* `Walk.Acquires`: what an acquisition can do to the table, each way with all that is known where it
  happens;
* `Walk.Owned`: a scope has a variable of some name with a handle in it. Once it has one, it always
  has one, and in the scope the name means it;
* `Walk.Redeclares`: a declaration there gets a binding of its own only where the handle is finished
  or handed over.
-/

namespace TxLifecycle

namespace Walk

variable {limits : Limits} {w u v w' : Walk} {x : String} {errVar : Option String} {span : Span}
  {declares : Bool} {n : BindingId} {scope : ScopeId} {table : List Binding}

/-! ## What an acquisition does -/

/-- The variable holds a handle in a binding. -/
structure Meets (w : Walk) (x : String) (old : Binding) : Prop where
  resolve : w.resolve x = some old.id
  get : w.bindings[old.id]? = some old

theorem Meets.unique {old other : Binding} (h : w.Meets x old) (h' : w.Meets x other) :
    old = other := by
  have hid : old.id = other.id := Option.some.inj (h.resolve.symm.trans h'.resolve)
  exact Option.some.inj (h.get.symm.trans (hid ▸ h'.get))

/-- An acquisition into a variable gets the binding `n` and leaves this table. -/
inductive Acquires (w : Walk) (x : String) (span : Span) (declares : Bool) :
    BindingId → List Binding → Prop where
  | fresh {home : ScopeId} : (declares = true → home = w.scopes.current) →
      (∀ old, w.Meets x old → declares = true ∧ old.home ≠ w.scopes.current) →
      Acquires w x span declares w.bindings.length
        (w.bindings ++ [Binding.new w.bindings.length x home w.scopes.current span])
  /-- A new variable hides another one with a handle that may be open. -/
  | shadow {old : Binding} {event : Event} : w.Meets x old → declares = true →
      old.home ≠ w.scopes.current → event.kind = .shadowing →
      Acquires w x span declares w.bindings.length
        (w.bindings.modify old.id (·.record event) ++
          [Binding.new w.bindings.length x w.scopes.current w.scopes.current span])
  /-- The handle is finished or handed over, and gives way to a new one. -/
  | replace {old : Binding} : w.Meets x old → (declares = true → old.home = w.scopes.current) →
      (old.finalizedOnPath w.scopes || old.isEscaped) = true →
      Acquires w x span declares w.bindings.length
        (w.bindings.modify old.id (fun b => { b with retired := true }) ++
          [Binding.new w.bindings.length x old.home w.scopes.current span])
  /-- The handle is from a branch that has been left. -/
  | merge {old : Binding} {merged : ScopeId} : w.Meets x old →
      (declares = true → old.home = w.scopes.current) →
      (old.finalizedOnPath w.scopes || old.isEscaped) = false →
      w.scopes.isOnStack old.acquiredIn = false →
      merged = w.scopes.commonAncestor old.acquiredIn w.scopes.current →
      Acquires w x span declares old.id
        (w.bindings.modify old.id fun b => { b with acquiredIn := merged })
  | reassign {old : Binding} {event : Event} : w.Meets x old →
      (declares = true → old.home = w.scopes.current) →
      (old.finalizedOnPath w.scopes || old.isEscaped) = false →
      w.scopes.isOnStack old.acquiredIn = true → event.kind = .reassignment →
      Acquires w x span declares old.id (w.bindings.modify old.id (·.record event))

/-- The declaration of an error variable changes nothing that matters here. -/
theorem agrees_of_declareError (h : w.declareError errVar declares = .ok u) :
    w.scopes.Agrees u.scopes ∧ u.bindings = w.bindings ∧ u.scopes.stack = w.scopes.stack := by
  have hrefl : w.scopes.Agrees w.scopes := ⟨rfl, rfl, fun _ _ _ _ => rfl⟩
  rcases of_declareError h with rfl | ⟨name, tree, -, -, htree, rfl⟩
  · exact ⟨hrefl, rfl, rfl⟩
  · have hkept : ∀ s : Scope, (s.declare name).outline = s.outline ∧
        (s.declare name).terminated = s.terminated := by
      intro s
      rw [Scope.declare]
      split <;> exact ⟨rfl, rfl⟩
    refine ⟨.of_modify (fun s => (hkept s).1) (Or.inl fun s => (hkept s).2) htree, rfl, ?_⟩
    obtain ⟨-, rfl⟩ := ScopeTree.of_modify htree
    rfl

/-- Every acquisition does one of these things. -/
theorem acquires_of_acquisition (hwf : w.WellFormed)
    (h : w.acquisition x errVar span declares = .ok (n, v)) :
    w.Acquires x span declares n v.bindings := by
  obtain ⟨u, hdeclared, hbound⟩ := of_acquisition h
  obtain ⟨hagrees, hbindings, hstack⟩ := agrees_of_declareError hdeclared
  have hcurrent : u.scopes.current = w.scopes.current := by
    rw [ScopeTree.current, hstack, ScopeTree.current]
  have hmeets : ∀ old, (w.resolve x).bind (w.bindings[·]?) = some old →
      w.Meets x old ∧ old.name = x := by
    intro old hold
    obtain ⟨id, hresolve, hget⟩ := Option.bind_eq_some_iff.mp hold
    obtain ⟨b, hb, hname, -, -⟩ := Indexed.get_of_resolve hwf.indexed hresolve
    obtain rfl : b = old := Option.some.inj (hb.symm.trans hget)
    obtain rfl := hwf.indexed hget
    exact ⟨⟨hresolve, hget⟩, hname⟩
  -- a name that was declared meanwhile makes no difference to what is finished
  have hpath : ∀ old : Binding, old.finalizedOnPath u.scopes = old.finalizedOnPath w.scopes :=
    fun old => Binding.finalizedOnPath_congr (Binding.Agrees.refl old).resembles
      hagrees.resembles hstack
  generalize hexisting : (w.resolve x).bind (w.bindings[·]?) = existing at hbound
  suffices hresult : w.Acquires x span declares (n, v).1 (n, v).2.bindings from hresult
  generalize (n, v) = result at hbound ⊢
  cases hbound with
  | fresh =>
    simp only [addBinding, hbindings, hcurrent]
    refine .fresh (fun hdeclares => by simp [hdeclares]) fun old hother => ?_
    rw [hother.resolve, Option.bind_some, hother.get] at hexisting
    cases hexisting
  | hide hdeclares houter =>
    simp only [addBinding, hbindings, hcurrent]
    rw [hcurrent] at houter
    refine .fresh (fun _ => rfl) fun other hother => ?_
    exact ⟨hdeclares, hother.unique (hmeets _ hexisting).1 ▸ houter⟩
  | shadow hdeclares houter hrecord =>
    obtain ⟨event, hkind, -, -, rfl⟩ := of_recordAt hrecord
    rw [hcurrent] at houter
    simp only [addBinding, modifyBinding, List.length_modify, hbindings, hcurrent]
    exact .shadow (hmeets _ hexisting).1 hdeclares houter hkind
  | replace hhome hfinished =>
    obtain ⟨hmet, rfl⟩ := hmeets _ hexisting
    rw [hpath] at hfinished
    simp only [addBinding, modifyBinding, List.length_modify, hbindings, hcurrent]
    exact .replace hmet (hcurrent ▸ hhome) hfinished
  | merge hhome hopen hleft =>
    rw [hpath] at hopen
    rw [ScopeTree.isOnStack, hstack] at hleft
    simp only [modifyBinding, hbindings]
    refine .merge (hmeets _ hexisting).1 (hcurrent ▸ hhome) hopen hleft ?_
    simp only [ScopeTree.commonAncestor, ScopeTree.isAncestor, hagrees.resembles.ancestors,
      hcurrent]
  | lose hhome hopen honstack hrecord =>
    obtain ⟨event, hkind, -, -, rfl⟩ := of_recordAt hrecord
    rw [hpath] at hopen
    rw [ScopeTree.isOnStack, hstack] at honstack
    simp only [modifyBinding, hbindings]
    exact .reassign (hmeets _ hexisting).1 (hcurrent ▸ hhome) hopen honstack hkind

/-! ## Variables of a scope -/

/-- The table has a binding for a variable of the scope, and no other one has taken its place. -/
def Owned (table : List Binding) (x : String) (scope : ScopeId) : Prop :=
  ∃ (i : Nat) (b : Binding), table[i]? = some b ∧ b.name = x ∧ b.home = scope ∧ b.retired = false

/-- A binding changes, but not as a variable. -/
theorem Owned.modify (h : Owned table x scope) {id : BindingId} {f : Binding → Binding}
    (hname : ∀ b, (f b).name = b.name) (hhome : ∀ b, (f b).home = b.home)
    (hretired : ∀ b, (f b).retired = b.retired) : Owned (table.modify id f) x scope := by
  obtain ⟨i, b, hget, hb⟩ := h
  obtain ⟨b', hget', hname', hhome', hretired'⟩ : ∃ b', (table.modify id f)[i]? = some b' ∧
      b'.name = b.name ∧ b'.home = b.home ∧ b'.retired = b.retired :=
    exists_getElem?_modify
      (R := fun b b' => b'.name = b.name ∧ b'.home = b.home ∧ b'.retired = b.retired) hget
      ⟨rfl, rfl, rfl⟩ fun _ => ⟨hname b, hhome b, hretired b⟩
  exact ⟨i, b', hget', hname'.trans hb.1, hhome'.trans hb.2.1, hretired'.trans hb.2.2⟩

theorem Owned.append (h : Owned table x scope) (fresh : Binding) :
    Owned (table ++ [fresh]) x scope := by
  obtain ⟨i, b, hget, hb⟩ := h
  exact ⟨i, b, by rw [List.getElem?_append_left (List.getElem?_eq_some_iff.mp hget).1, hget], hb⟩

theorem getElem?_append_new {k : Nat} (hlength : table.length = k) (fresh : Binding) :
    (table ++ [fresh])[k]? = some fresh := by
  rw [← hlength]
  exact List.getElem?_concat_length

/-- An acquisition leaves a scope with its variable. Where the binding of that variable is replaced,
the new one is for the same variable. -/
theorem Acquires.owned (h : w.Acquires x span declares n table)
    (howned : Owned w.bindings x scope) : Owned table x scope := by
  cases h with
  | fresh => exact howned.append _
  | shadow =>
    apply Owned.append
    exact howned.modify (fun _ => rfl) (fun _ => rfl) fun _ => rfl
  | merge | reassign => exact howned.modify (fun _ => rfl) (fun _ => rfl) fun _ => rfl
  | @replace old hmeets =>
    obtain ⟨i, b, hget, hname, hhome, hretired⟩ := howned
    -- where the binding of the variable is the one that is retired, the new one stands for it
    by_cases heq : i = old.id
    · subst heq
      obtain rfl : b = old := Option.some.inj (hget.symm.trans hmeets.get)
      exact ⟨_, _, getElem?_append_new (List.length_modify _ _ _) _, rfl, hhome, rfl⟩
    · refine Owned.append ⟨i, b, ?_, hname, hhome, hretired⟩ _
      rw [List.getElem?_modify_ne _ _ (Ne.symm heq), hget]

/-- A declaration gets a binding for a variable of the current scope. -/
theorem Acquires.binding (h : w.Acquires x span true n table) (hwf : w.WellFormed) :
    ∃ b, table[n]? = some b ∧ b.name = x ∧ b.home = w.scopes.current ∧ b.retired = false := by
  -- a binding that is kept is one that the name means
  have hkept : ∀ {old : Binding} {f : Binding → Binding}, w.Meets x old →
      old.home = w.scopes.current → (∀ b, (f b).name = b.name ∧ (f b).home = b.home ∧
        (f b).retired = b.retired) →
      ∃ b, (w.bindings.modify old.id f)[old.id]? = some b ∧ b.name = x ∧
        b.home = w.scopes.current ∧ b.retired = false := by
    intro old f hmeets hhome hf
    obtain ⟨c, hc, hname, -, hretired⟩ := Indexed.get_of_resolve hwf.indexed hmeets.resolve
    obtain rfl : old = c := Option.some.inj (hmeets.get.symm.trans hc)
    obtain ⟨hname', hhome', hretired'⟩ := hf old
    refine ⟨f old, ?_, hname'.trans hname, hhome'.trans hhome, hretired'.trans hretired⟩
    rw [List.getElem?_modify_eq, hmeets.get]
    rfl
  cases h with
  | fresh hhome => exact ⟨_, getElem?_append_new rfl _, rfl, hhome rfl, rfl⟩
  | shadow => exact ⟨_, getElem?_append_new (List.length_modify _ _ _) _, rfl, rfl, rfl⟩
  | replace _ hhome =>
    exact ⟨_, getElem?_append_new (List.length_modify _ _ _) _, rfl, hhome rfl, rfl⟩
  | merge hmeets hhome | reassign hmeets hhome =>
    exact hkept hmeets (hhome rfl) fun _ => ⟨rfl, rfl, rfl⟩

/-- Waiting for the check of an error variable changes a binding, but not as a variable. -/
theorem bindings_awaitCheck (v : Walk) (n : BindingId) (errVar : Option String) :
    (v.awaitCheck n errVar).bindings = v.bindings ∨
      ∃ name, (v.awaitCheck n errVar).bindings =
        v.bindings.modify n fun b => { b with errVar := some name } := by
  cases errVar with
  | none => exact Or.inl rfl
  | some name => exact Or.inr ⟨name, rfl⟩

/-- A scope that has a variable keeps it, whatever runs. -/
theorem exec_owned {action : Action} (hwf : w.WellFormed) (horderly : w.scopes.Orderly w.bindings)
    (hexec : w.exec limits action = .ok u) (h : Owned w.bindings x scope) :
    Owned u.bindings x scope := by
  cases hacquires : action.acquires x with
  | false =>
    -- only an acquisition into the variable can retire its binding
    obtain ⟨i, b, hget, hname, hhome, hretired⟩ := h
    obtain ⟨b', hget', hkeeps⟩ := exec_keepsHandle hwf horderly hexec hget (hname ▸ hacquires)
    exact ⟨i, b', hget', hkeeps.name_eq.trans hname, hkeeps.home_eq.trans hhome,
      hkeeps.retired_eq.trans hretired⟩
  | true =>
    obtain ⟨errVar, span, declares, rfl⟩ :
        ∃ errVar span declares, action = .acquire x errVar span declares := by
      cases action with
      | acquire name errVar span declares =>
        exact ⟨errVar, span, declares, by rw [eq_of_beq hacquires]⟩
      | _ => cases hacquires
    obtain ⟨n, v, hacquisition, rfl⟩ := exists_acquisition_of_acquire hexec
    have howned := (acquires_of_acquisition hwf hacquisition).owned h
    rcases bindings_awaitCheck v n errVar with heq | ⟨name, heq⟩
    · rwa [heq]
    · rw [heq]
      exact howned.modify (fun _ => rfl) (fun _ => rfl) fun _ => rfl

theorem run_owned {actions : List Action} (hsound : w.Sound limits actions)
    (horderly : w.scopes.Orderly w.bindings) (hrun : w.run limits actions = .ok w')
    (h : Owned w.bindings x scope) : Owned w'.bindings x scope := by
  have hkept := hsound.preserves
    (P := fun v => v.scopes.Orderly v.bindings ∧ Owned v.bindings x scope) hrun ?_ ⟨horderly, h⟩
  · exact hkept.2
  · rintro u v action - hwf hexec ⟨hu, howned⟩
    exact ⟨exec_orderly hwf hu hexec, exec_owned hwf hu hexec howned⟩

/-- In a scope that has a variable its name means a binding of it. -/
theorem exists_meets_of_owned (hwf : w.WellFormed) (horderly : w.scopes.Orderly w.bindings)
    (h : Owned w.bindings x w.scopes.current) :
    ∃ c, w.Meets x c ∧ c.home = w.scopes.current := by
  obtain ⟨i, b, hget, rfl, hhome, hretired⟩ := h
  obtain rfl := hwf.indexed hget
  have hresolve := resolve_iff_of_home hwf horderly (List.mem_of_getElem? hget) hhome
  exact ⟨b, ⟨hresolve.mpr hretired, hget⟩, hhome⟩

/-! ## Declarations in the scope of a variable -/

/-- The declaration of a variable that holds a handle gets the binding `n` and leaves `v`. Where the
handle is finished or handed over, the binding is a new one. Otherwise it is the binding of the old
handle, and that handle is lost, unless it is from a branch that has been left. -/
def Redeclares (w : Walk) (old : Binding) (n : BindingId) (v : Walk) : Prop :=
  if old.finalizedOnPath w.scopes || old.isEscaped then
    n = w.bindings.length ∧ v.bindings[old.id]? = some { old with retired := true }
  else n = old.id ∧ (w.scopes.isOnStack old.acquiredIn = true →
    ∃ event : Event, event.kind = .reassignment ∧ v.bindings[old.id]? = some (old.record event))

/-- A declaration in the scope of a variable that holds a handle redeclares it. -/
theorem redeclares_of_acquisition (hwf : w.WellFormed) {c : Binding} (hmeets : w.Meets x c)
    (hhome : c.home = w.scopes.current) (h : w.acquisition x errVar span true = .ok (n, v)) :
    w.Redeclares c n v := by
  have hlt : c.id < w.bindings.length := (List.getElem?_eq_some_iff.mp hmeets.get).1
  have hacquires := acquires_of_acquisition hwf h
  unfold Redeclares
  generalize v.bindings = table at hacquires ⊢
  cases hacquires with
  -- the first two are for variables of other scopes
  | fresh _ hnone => exact absurd hhome (hnone c hmeets).2
  | shadow hother _ hinner => exact absurd (hother.unique hmeets ▸ hhome) hinner
  | replace hother _ hfinished =>
    obtain rfl := hother.unique hmeets
    rw [if_pos hfinished]
    refine ⟨rfl, ?_⟩
    rw [List.getElem?_append_left (by simpa using hlt), List.getElem?_modify_eq, hmeets.get]
    rfl
  | merge hother _ hopen hleft _ =>
    obtain rfl := hother.unique hmeets
    rw [if_neg (by rw [hopen]; exact Bool.false_ne_true)]
    exact ⟨rfl, fun honstack => by rw [hleft] at honstack; cases honstack⟩
  | reassign hother _ hopen _ hkind =>
    obtain rfl := hother.unique hmeets
    rw [if_neg (by rw [hopen]; exact Bool.false_ne_true)]
    refine ⟨rfl, fun _ => ⟨_, hkind, ?_⟩⟩
    rw [List.getElem?_modify_eq, hmeets.get]
    rfl

end Walk

end TxLifecycle
