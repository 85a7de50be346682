import Mathlib.Logic.Relation
import TxLifecycle.Proofs.Ancestry

/-!
# The changes of which actions are made

Running an action changes the table of bindings and the scopes in small ways, a few of them one
after the other. This file lists those ways, each with all that is known where it happens:

* `Walk.Amends w action table table'`: one change of the table on behalf of running `action` in `w`;
* `Walk.Inner w action u`: what running an action that opens and closes nothing does to both.

The main statements are `Walk.exec_inner` and `Walk.exec_amends`. What is known of a new binding,
and of a binding whose acquisitions are merged, rests on the table being in order,
`ScopeTree.Orderly`.
-/

namespace TxLifecycle

/-- A table is in order: a variable holds one handle at a time, and each handle was acquired in the
scope of its variable or inside it. -/
structure ScopeTree.Orderly (tree : ScopeTree) (table : List Binding) : Prop where
  /-- A scope has at most one binding under a name that is not retired. -/
  unique : ∀ {i j : Nat} {b b' : Binding}, table[i]? = some b → table[j]? = some b' →
    b.name = b'.name → b.home = b'.home → b.retired = false → b'.retired = false → i = j
  /-- The scope of the variable is the acquiring scope or one around it. -/
  home : ∀ {i : Nat} {b : Binding}, table[i]? = some b → b.home ∈ tree.ancestors b.acquiredIn
  placed : ∀ {i : Nat} {b : Binding}, table[i]? = some b → b.acquiredIn < tree.scopes.length

namespace Walk

/-- One change of the table on behalf of running `action` in `w`. -/
inductive Amends (w : Walk) : Action → List Binding → List Binding → Prop where
  | note {action : Action} {table : List Binding} (id : BindingId) {f : Binding → Binding} :
      (∀ b : Binding, b.Keeps (f b)) → Amends w action table (table.modify id f)
  /-- An acquisition replaces the binding that the variable has meant. -/
  | retire {name : String} {errVar : Option String} {span : Span} {declares : Bool}
      {table : List Binding} {id : BindingId} : w.resolve name = some id →
      Amends w (.acquire name errVar span declares) table
        (table.modify id fun b => { b with retired := true })
  /-- An acquisition is merged with those on branches that have been left. -/
  | merge {name : String} {errVar : Option String} {span : Span} {declares : Bool}
      {table : List Binding} {id : BindingId} {b : Binding} {merged : ScopeId} :
      w.resolve name = some id → table[id]? = some b →
      merged ∈ w.scopes.ancestors b.acquiredIn → merged ≠ b.acquiredIn →
      b.home ∈ w.scopes.ancestors merged →
      Amends w (.acquire name errVar span declares) table
        (table.modify id fun b => { b with acquiredIn := merged })
  /-- An acquisition gets a binding of its own, in an open scope that has no other one under the
  name. -/
  | add {name : String} {errVar : Option String} {span : Span} {declares : Bool}
      {table : List Binding} {home : ScopeId} : home ∈ w.scopes.stack →
      (∀ b ∈ table, b.name = name → b.home = home → b.retired = true) →
      Amends w (.acquire name errVar span declares) table
        (table ++ [Binding.new table.length name home w.scopes.current span])

/-- Part of what running `action` in `w` does, where that leaves the scopes alone. -/
structure Reworks (w : Walk) (action : Action) (v v' : Walk) : Prop where
  scopes : v'.scopes = v.scopes
  table : Relation.ReflTransGen (w.Amends action) v.bindings v'.bindings

namespace Reworks

variable {w v v' v'' : Walk} {action : Action}

theorem refl (w : Walk) (action : Action) (v : Walk) : w.Reworks action v v :=
  ⟨rfl, .refl⟩

theorem trans (h : w.Reworks action v v') (h' : w.Reworks action v' v'') :
    w.Reworks action v v'' :=
  ⟨h'.scopes.trans h.scopes, h.table.trans h'.table⟩

/-- One change of the table. -/
theorem amend (hscopes : v'.scopes = v.scopes) (h : w.Amends action v.bindings v'.bindings) :
    w.Reworks action v v' :=
  ⟨hscopes, .single h⟩

end Reworks

/-! ## The parts of actions -/

section Parts

variable {w v v' : Walk} {action : Action}

theorem record_reworks {id : BindingId} {kind : EventKind} (h : v.record id kind = .ok v') :
    w.Reworks action v v' := by
  obtain ⟨event, -, -, -, rfl⟩ := of_recordAt h
  exact .amend rfl (.note id fun b =>
    ⟨rfl, rfl, rfl, rfl, rfl, rfl, List.prefix_append _ _, fun h => h, Nat.le_refl _⟩)

/-- Notes change the table step by step. -/
theorem Annotates.amends (h : w.Annotates action v v') :
    Relation.ReflTransGen (w.Amends action) v.bindings v'.bindings := by
  induction h with
  | refl _ => exact .refl
  | note hf _ ih => exact .head (.note _ hf.keeps) ih

/-- The error variable of an acquisition is noted. -/
theorem awaitCheck_reworks (v : Walk) (id : BindingId) (errVar : Option String) :
    w.Reworks action v (v.awaitCheck id errVar) := by
  cases errVar with
  | none => exact .refl w action v
  | some name =>
    exact .amend rfl (.note id fun b =>
      ⟨rfl, rfl, rfl, rfl, rfl, rfl, List.prefix_rfl, fun h => h, Nat.le_refl _⟩)

end Parts

/-! ## Acquisitions -/

section Acquisitions

variable {w v : Walk} {name : String} {errVar : Option String} {span : Span} {declares : Bool}
  {old : Binding} {result : BindingId × Walk}

/-- A scope that owns nothing under a name has retired all that it had. -/
theorem retired_of_ownedBy_eq_none {scope : ScopeId} (h : w.ownedBy scope name = none) :
    ∀ b ∈ w.bindings, b.name = name → b.home = scope → b.retired = true := by
  intro b hb hname hhome
  have hnone := List.find?_eq_none.mp h b (List.mem_reverse.mpr hb)
  simpa [hname, hhome] using hnone

/-- Where a name means no binding, the scope that declares it as a plain local owns none, and
without such a scope none of the scopes does. -/
theorem ownedBy_eq_none_of_resolveIn {scopes : List ScopeId}
    (h : w.resolveIn name scopes = none) :
    match scopes.find? (w.scopes.declares · name) with
    | some scope => w.ownedBy scope name = none
    | none => ∀ scope ∈ scopes, w.ownedBy scope name = none := by
  -- the lookup stops at the first scope that owns or declares the name, as `find?` does
  induction scopes with
  | nil => simp
  | cons scope rest ih =>
    rw [resolveIn] at h
    split at h
    · cases h
    · rename_i howned
      by_cases hdeclares : w.scopes.declares scope name = true
      · rw [List.find?_cons_of_pos (p := (w.scopes.declares · name)) hdeclares]
        exact howned
      · rw [if_neg hdeclares] at h
        rw [List.find?_cons_of_neg (p := (w.scopes.declares · name)) hdeclares]
        have hrest := ih h
        split
        · rename_i found hfound
          rw [hfound] at hrest
          exact hrest
        · rename_i hfound
          rw [hfound] at hrest
          intro t ht
          rcases List.mem_cons.mp ht with rfl | ht
          · exact howned
          · exact hrest t ht

/-- A name that means a binding of another scope means none of the current scope. -/
theorem ownedBy_current_eq_none (hwf : w.WellFormed) {id : BindingId}
    (hresolve : w.resolve name = some id) (hget : w.bindings[id]? = some old)
    (hhome : old.home ≠ w.scopes.current) : w.ownedBy w.scopes.current name = none := by
  have hstack := hwf.tree.stack_eq
  rw [hwf.tree.ancestors_eq] at hstack
  rw [resolve, hstack, resolveIn] at hresolve
  split at hresolve
  · rename_i b howned
    obtain ⟨hmem, -, hcurrent, -⟩ := of_ownedBy_eq_some howned
    obtain ⟨i, hi⟩ := List.mem_iff_getElem?.mp hmem
    obtain rfl : i = id := by rw [← hwf.indexed hi]; simpa using hresolve
    rw [hget, Option.some.injEq] at hi
    exact absurd (hi ▸ hcurrent) hhome
  · assumption

/-- In the scope of a variable its name means the handle, as long as no other one takes its
place. -/
theorem resolve_iff_of_home (hwf : w.WellFormed) (horderly : w.scopes.Orderly w.bindings)
    {b : Binding} (hb : b ∈ w.bindings) (hhome : b.home = w.scopes.current) :
    w.resolve b.name = some b.id ↔ b.retired = false := by
  obtain ⟨i, hget⟩ := List.mem_iff_getElem?.mp hb
  have hid := hwf.indexed hget
  constructor
  · intro hresolve
    exact (Indexed.of_resolve hwf.indexed hresolve (hid ▸ hget)).2.2
  · intro hretired
    rw [resolve, hwf.tree.stack_eq, hwf.tree.ancestors_eq, resolveIn]
    cases hown : w.ownedBy w.scopes.current b.name with
    | none =>
      rw [retired_of_ownedBy_eq_none hown b hb rfl hhome] at hretired
      cases hretired
    | some c =>
      -- no second binding of that variable is left
      obtain ⟨hc, hname, hchome, hcretired⟩ := of_ownedBy_eq_some hown
      obtain ⟨j, hj⟩ := List.mem_iff_getElem?.mp hc
      have heq : j = i :=
        horderly.unique hj hget hname (hchome.trans hhome.symm) hcretired hretired
      rw [hid, ← heq]
      exact congrArg some (hwf.indexed hj)

/-- What the declaration of an error variable leaves alone. -/
structure Alike (w v : Walk) : Prop where
  bindings : v.bindings = w.bindings
  stack : v.scopes.stack = w.scopes.stack
  ancestors : ∀ scope, v.scopes.ancestors scope = w.scopes.ancestors scope

theorem Alike.current (h : w.Alike v) : v.scopes.current = w.scopes.current := by
  rw [ScopeTree.current, h.stack, ScopeTree.current]

/-- The nearest scope around two scopes stays. -/
theorem Alike.commonAncestor (h : w.Alike v) (a b : ScopeId) :
    v.scopes.commonAncestor a b = w.scopes.commonAncestor a b := by
  simp only [ScopeTree.commonAncestor, ScopeTree.isAncestor, h.ancestors]

/-- Declaring an error variable changes locals only. -/
theorem alike_of_declareError (hwf : w.WellFormed) (h : w.declareError errVar declares = .ok v) :
    w.Alike v := by
  have hedits : w.Edits .addDefer false w v := declareError_edits h
  refine ⟨?_, hedits.stack, hedits.ancestors hwf.tree⟩
  rcases of_declareError h with rfl | ⟨_, _, -, -, -, rfl⟩ <;> rfl

/-- A new binding in an open scope that owns none under the name. -/
theorem addBinding_reworks {u : Walk} {home : ScopeId} (hhome : home ∈ w.scopes.stack)
    (hcurrent : u.scopes.current = w.scopes.current)
    (hfree : ∀ b ∈ u.bindings, b.name = name → b.home = home → b.retired = true) :
    w.Reworks (.acquire name errVar span declares) u
      (u.addBinding name home u.scopes.current span).2 := by
  rw [hcurrent]
  exact .amend rfl (.add hhome hfree)

/-- The binding of a variable is retired: after that its scope owns nothing under the name. -/
theorem retired_of_retire (hwf : w.WellFormed) (horderly : w.scopes.Orderly w.bindings)
    (hresolve : w.resolve name = some old.id) (hget : w.bindings[old.id]? = some old) :
    ∀ b ∈ w.bindings.modify old.id fun b => { b with retired := true }, b.name = name →
      b.home = old.home → b.retired = true := by
  intro b hmem hbname hbhome
  obtain ⟨hname, -, hactive⟩ := Indexed.of_resolve hwf.indexed hresolve hget
  obtain ⟨i, hi⟩ := List.mem_iff_getElem?.mp hmem
  rw [List.getElem?_modify] at hi
  obtain ⟨d, hd, rfl⟩ := Option.map_eq_some_iff.mp hi
  by_cases heq : old.id = i
  · simp [heq]
  · simp only [heq, if_false] at hbname hbhome ⊢
    apply Classical.byContradiction
    intro hne
    exact heq (horderly.unique hget hd (hname.trans hbname.symm) hbhome.symm hactive
      (by simpa using hne))

/-- The scope that becomes the home of a variable without a binding owns none under the name. -/
theorem exists_home (hwf : w.WellFormed) (halike : w.Alike v) (hsame : declares = false → v = w)
    (hresolve : w.resolve name = none) :
    ∃ home ∈ w.scopes.stack, (if declares then v.scopes.current
        else (v.scopes.declaringScope name).getD v.scopes.current) = home ∧
      w.ownedBy home name = none := by
  have hcurrent := hwf.tree.current_mem
  cases declares with
  | true =>
    refine ⟨_, hcurrent, halike.current, ?_⟩
    rw [resolve, hwf.tree.stack_eq, hwf.tree.ancestors_eq, resolveIn] at hresolve
    split at hresolve
    · cases hresolve
    · assumption
  | false =>
    -- an assignment looks for the scope that declares the variable
    have howned := ownedBy_eq_none_of_resolveIn hresolve
    rw [hsame rfl, ScopeTree.declaringScope]
    split at howned
    · rename_i scope hfind
      exact ⟨scope, List.mem_of_find?_eq_some hfind, by simp [hfind], howned⟩
    · rename_i hfind
      exact ⟨_, hcurrent, by simp [hfind], howned _ hcurrent⟩

/-- The binding of an acquisition is found or made. -/
theorem Bound.reworks (hwf : w.WellFormed) (horderly : w.scopes.Orderly w.bindings)
    (halike : w.Alike v) (hsame : declares = false → v = w)
    (h : v.Bound name span declares ((w.resolve name).bind (w.bindings[·]?)) result) :
    w.Reworks (.acquire name errVar span declares) v result.2 := by
  have hcurrent := halike.current
  have hmem : v.scopes.current ∈ w.scopes.stack := hcurrent ▸ hwf.tree.current_mem
  cases hresolve : w.resolve name with
  | none =>
    rw [hresolve, Option.bind_none] at h
    cases h
    obtain ⟨home, hhome, heq, howned⟩ := exists_home hwf halike hsame hresolve
    rw [heq]
    exact addBinding_reworks hhome hcurrent (halike.bindings ▸ retired_of_ownedBy_eq_none howned)
  | some id =>
    obtain ⟨old, hget, hname, hhome, -⟩ := Indexed.get_of_resolve hwf.indexed hresolve
    obtain rfl := hwf.indexed hget
    rw [hresolve, Option.bind_some, hget] at h
    have hfree : old.home ≠ v.scopes.current → ∀ b ∈ v.bindings, b.name = name →
        b.home = v.scopes.current → b.retired = true := by
      rw [hcurrent, halike.bindings]
      exact fun hne =>
        retired_of_ownedBy_eq_none (ownedBy_current_eq_none hwf hresolve hget hne)
    cases h with
    | hide _ hne _ => exact addBinding_reworks hmem hcurrent (hfree hne)
    | shadow _ hne hrecord =>
      obtain ⟨event, -, -, -, rfl⟩ := of_recordAt hrecord
      refine (record_reworks hrecord).trans (addBinding_reworks hmem hcurrent ?_)
      -- the event changes neither names nor scopes
      intro b hb hbname hbhome
      obtain ⟨i, hi⟩ := List.mem_iff_getElem?.mp hb
      rw [modifyBinding, List.getElem?_modify] at hi
      obtain ⟨d, hd, rfl⟩ := Option.map_eq_some_iff.mp hi
      have hretired := hfree hne d (List.mem_of_getElem? hd)
      by_cases heq : old.id = i
      · simp only [heq, if_true] at hbname hbhome ⊢
        exact hretired hbname hbhome
      · simp only [heq, if_false] at hbname hbhome ⊢
        exact hretired hbname hbhome
    | replace _ _ =>
      have hretire : w.Reworks (.acquire name errVar span declares) v
          (v.modifyBinding old.id fun b => { b with retired := true }) :=
        .amend rfl (.retire hresolve)
      rw [hname]
      refine hretire.trans (addBinding_reworks hhome hcurrent ?_)
      rw [modifyBinding, halike.bindings]
      exact retired_of_retire hwf horderly hresolve hget
    | merge _ _ hleft =>
      -- the branches meet inside the scope of the variable
      have hout : old.acquiredIn ∉ w.scopes.stack := by
        simpa [ScopeTree.isOnStack, halike.stack] using hleft
      rw [hwf.tree.stack_eq] at hhome hout
      obtain ⟨hmerged, hbelow, hinside⟩ := hwf.tree.commonAncestor_spec (horderly.home hget) hhome
      rw [← halike.bindings] at hget
      have hmoved : w.scopes.commonAncestor old.acquiredIn w.scopes.current ≠ old.acquiredIn :=
        fun heq => hout (heq ▸ hbelow)
      rw [← halike.commonAncestor, ← hcurrent] at hmerged hinside hmoved
      exact .amend rfl (.merge hresolve hget hmerged hmoved hinside)
    | lose _ _ _ hrecord => exact record_reworks hrecord

end Acquisitions

/-! ## What actions do -/

section Actions

variable {w u v : Walk} {limits : Limits} {action : Action} {declares : Bool}
  {errVar : Option String} {span : Span} {name : String}

/-- Finding or making a binding leaves the scopes alone. -/
theorem Bound.scopes {existing : Option Binding} {result : BindingId × Walk}
    (h : v.Bound name span declares existing result) : result.2.scopes = v.scopes := by
  cases h with
  | shadow _ _ hrecord | lose _ _ _ hrecord =>
    obtain ⟨event, -, -, -, rfl⟩ := of_recordAt hrecord
    rfl
  | _ => rfl

/-- Where an acquisition declares an error variable, the current scope changes. -/
theorem scopes_of_acquire (h : w.acquire name errVar span declares = .ok u) :
    ∃ v, w.declareError errVar declares = .ok v ∧ u.scopes = v.scopes := by
  obtain ⟨n, v', hacquisition, rfl⟩ := exists_acquisition_of_acquire h
  obtain ⟨v, hdeclare, hbound⟩ := of_acquisition hacquisition
  refine ⟨v, hdeclare, ?_⟩
  rw [← hbound.scopes]
  cases errVar <;> rfl

/-- An acquisition changes the table step by step. -/
theorem acquire_amends (hwf : w.WellFormed) (horderly : w.scopes.Orderly w.bindings)
    (h : w.acquire name errVar span declares = .ok u) :
    Relation.ReflTransGen (w.Amends (.acquire name errVar span declares)) w.bindings
      u.bindings := by
  obtain ⟨n, v', hacquisition, rfl⟩ := exists_acquisition_of_acquire h
  obtain ⟨v, hdeclare, hbound⟩ := of_acquisition hacquisition
  have halike := alike_of_declareError hwf hdeclare
  -- an assignment declares nothing, so it looks for its home in the scopes of before
  have hsame : declares = false → v = w := by
    rintro rfl
    rcases of_declareError hdeclare with heq | ⟨_, _, _, hdeclares, -⟩
    · exact heq
    · cases hdeclares
  have hbind : w.Reworks (.acquire name errVar span declares) v v' :=
    hbound.reworks hwf horderly halike hsame
  exact halike.bindings ▸ (hbind.trans (awaitCheck_reworks _ _ errVar)).table

/-- What an action does that opens and closes nothing. -/
structure Inner (w : Walk) (action : Action) (u : Walk) : Prop where
  marks : w.Marks action u.scopes
  /-- A table that is in order is changed step by step. -/
  amends : w.WellFormed → w.scopes.Orderly w.bindings →
    Relation.ReflTransGen (w.Amends action) w.bindings u.bindings

theorem acquire_inner (h : w.acquire name errVar span declares = .ok u) :
    w.Inner (.acquire name errVar span declares) u := by
  refine ⟨?_, fun hwf horderly => acquire_amends hwf horderly h⟩
  obtain ⟨v, hdeclare, hscopes⟩ := scopes_of_acquire h
  rw [hscopes]
  rcases of_declareError hdeclare with rfl | ⟨x, tree, rfl, rfl, hmark, rfl⟩
  · exact .nothing
  · exact .error hmark

/-- What the actions do that open and close nothing. -/
theorem exec_inner (hinner : action.isInner = true) (h : w.exec limits action = .ok u) :
    w.Inner action u := by
  have hnoted : action.isAcquire = false → w.Inner action u := by
    intro hacquire
    obtain ⟨hmarks, ⟨v, hnotes, hbindings⟩, -⟩ := exec_noted hinner hacquire h
    exact ⟨hmarks, fun _ _ => hbindings ▸ hnotes.amends⟩
  cases action with
  | acquire name errVar span declares => exact acquire_inner h
  | _ => exact hnoted rfl

/-- Running an action changes the table step by step. -/
theorem exec_amends (hwf : w.WellFormed) (horderly : w.scopes.Orderly w.bindings)
    (h : w.exec limits action = .ok u) :
    Relation.ReflTransGen (w.Amends action) w.bindings u.bindings := by
  have hsame : u.bindings = w.bindings →
      Relation.ReflTransGen (w.Amends action) w.bindings u.bindings := by
    intro heq
    rw [heq]
  -- what opens or closes something leaves the table alone
  cases action with
  | enter kind => exact hsame (exec_enter h).bindings
  | enterArm kind => exact hsame (exec_enterArm h).bindings
  | openBody kind => exact hsame (exec_openBody h).bindings
  | leave => exact hsame (closes_of_leave h).bindings
  | closeBody => exact hsame (exec_closeBody h).bindings
  | openConstruct _ _ _ | closeConstruct | openGuard _ | closeGuard =>
    cases h
    exact .refl
  | _ => exact (exec_inner rfl h).amends hwf horderly

end Actions

end Walk

end TxLifecycle
