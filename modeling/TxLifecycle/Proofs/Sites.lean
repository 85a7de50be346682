import TxLifecycle.Proofs.Exclusion
import TxLifecycle.Proofs.Reacquisition
import TxLifecycle.Proofs.Registers

/-!
# Where handles and events come from

The table that a walk leaves does not tell which statements made its entries. This file ties every
binding to the acquisitions for it, and every event to the action that recorded it.

* `Walk.Site`: an acquisition for a binding is among the actions read so far;
* `Walk.Sited`: every binding has one, and what is known of all of them;
* `Walk.Recorded`: an event was added by one of the actions read so far;
* `Walk.Accounted`: every event was.

The last two hold at every moment of a walk: `FunctionUnit.sited_of_run` and
`FunctionUnit.accounted_of_run`.
-/

namespace TxLifecycle

namespace Walk

variable {limits : Limits} {w u v w' : Walk} {action : Action} {x : String}
  {errVar : Option String} {span : Span} {declares : Bool} {n : BindingId} {read : List Action}
  {scope : ScopeId} {step : Step} {table : List Binding}

/-- The state in which the walk is on its way. -/
theorem At.run_of_append {z : Walk} {before rest : List Action} (hat : At before u)
    (hrun : Walk.run limits {} (before ++ rest) = .ok z) :
    Walk.run limits {} before = .ok u ∧ u.run limits rest = .ok z := by
  obtain ⟨u', hbefore, hrest⟩ := run_append_eq_ok.mp hrun
  rw [hat.unique ⟨limits, hbefore⟩]
  exact ⟨hbefore, hrest⟩

/-- What every action keeps, told by all that has been read, is kept by a run. -/
theorem Sound.history {Q : List Action → Walk → Prop} {actions : List Action}
    (hsound : w.Sound limits actions) (horderly : w.scopes.Orderly w.bindings)
    (hread : Walk.run limits {} read = .ok w) (hrun : w.run limits actions = .ok w')
    (hstep : ∀ {read : List Action} {u v : Walk} {action : Action},
      Walk.run limits {} read = .ok u → u.WellFormed → u.scopes.Orderly u.bindings →
      u.exec limits action = .ok v → Q read u → Q (read ++ [action]) v) (hw : Q read w) :
    Q (read ++ actions) w' := by
  induction actions generalizing w read with
  | nil =>
    cases hrun
    rwa [List.append_nil]
  | cons action actions ih =>
    obtain ⟨u, hexec, hrun⟩ := run_cons_eq_ok.mp hrun
    rw [List.append_cons]
    exact ih (hsound.2.2 u hexec) (exec_orderly hsound.1 horderly hexec)
      (run_then hread (run_single hexec)) hrun (hstep hread hsound.1 horderly hexec hw)

/-! ## Acquisitions -/

/-- Among the actions read so far there is an acquisition for the binding: a step of the function
that runs in the scope. The last argument tells whether it declares the variable. -/
inductive Site (read : List Action) (n : BindingId) : Step → ScopeId → Bool → Prop where
  /-- The acquisition, with the state in which it is met. -/
  | intro {before rest : List Action} {x : String} {errVar : Option String} {span : Span}
      {declares : Bool} {u v : Walk} : read = before ++ .acquire x errVar span declares :: rest →
      At before u → u.acquisition x errVar span declares = .ok (n, v) →
      Site read n (.did before (.acquire x errVar span declares)) u.scopes.current declares

section

variable (h : Site read n step scope declares)
include h

theorem Site.at_scope : ∃ u, At step.before u ∧ u.scopes.current = scope := by
  cases h with
  | intro _ hat _ => exact ⟨_, hat, rfl⟩

/-- The acquisitions are found by going through the actions. -/
theorem Site.exists_index :
    ∃ k < read.length, read[k]?.any Action.isAcquire = true ∧
      ∃ u, At (read.take k) u ∧ u.scopes.current = scope := by
  cases h with
  | @intro before rest x errVar span declares u v hread hat hacquisition =>
    refine ⟨before.length, ?_, ?_, u, ?_, rfl⟩
    · simp [hread]
    · simp [hread, Action.isAcquire]
    · simpa [hread] using hat

theorem Site.append (rest : List Action) : Site (read ++ rest) n step scope declares := by
  cases h with
  | @intro before after x errVar span declares u v hread hat hacquisition =>
    have hread' : read ++ rest = before ++ .acquire x errVar span declares :: (after ++ rest) := by
      rw [hread, List.append_assoc, List.cons_append]
    exact .intro hread' hat hacquisition

end

/-- Once one more action has been read, an acquisition is an earlier one or that action. -/
theorem Site.concat_cases (hat : At read w)
    (h : Site (read ++ [action]) n step scope declares) :
    Site read n step scope declares ∨ scope = w.scopes.current ∧
      ∃ x errVar span v, action = .acquire x errVar span declares ∧
        w.acquisition x errVar span declares = .ok (n, v) := by
  cases h with
  | @intro before rest x errVar span declares u v hread hu hacquisition =>
    rcases List.eq_nil_or_concat rest with rfl | ⟨rest, last, rfl⟩
    · obtain ⟨rfl, haction⟩ := List.append_inj' hread rfl
      obtain rfl := hu.unique hat
      exact Or.inr ⟨rfl, x, errVar, span, v, by simpa using haction, hacquisition⟩
    · rw [List.concat_eq_append, ← List.cons_append, ← List.append_assoc] at hread
      exact Or.inl (.intro (List.append_inj' hread rfl).1 hu hacquisition)

/-- A binding that an acquisition adds is the one that it gets. -/
theorem Acquires.eq_of_new (h : w.Acquires x span declares n table) {i : Nat} {b : Binding}
    (hget : table[i]? = some b) (hnew : w.bindings.length ≤ i) : i = n := by
  have hlt := (List.getElem?_eq_some_iff.mp hget).1
  cases h with
  | fresh | shadow | replace =>
    simp only [List.length_append, List.length_modify, List.length_cons, List.length_nil] at hlt
    omega
  | merge | reassign =>
    rw [List.length_modify] at hlt
    exact absurd hlt (Nat.not_lt.mpr hnew)

/-- An acquisition leaves its binding acquired in a scope that is open, and a declaration leaves it
in a variable of the current scope. -/
theorem Acquires.placed (h : w.Acquires x span declares n table) (hwf : w.WellFormed)
    (horderly : w.scopes.Orderly w.bindings) :
    ∃ b, table[n]? = some b ∧ b.acquiredIn ∈ w.scopes.stack ∧
      (declares = true → b.home = w.scopes.current) := by
  have hcurrent := hwf.tree.current_mem
  cases h with
  | fresh hhome => exact ⟨_, getElem?_append_new rfl _, hcurrent, hhome⟩
  | shadow =>
    exact ⟨_, getElem?_append_new (List.length_modify _ _ _) _, hcurrent, fun _ => rfl⟩
  | replace _ hhome =>
    exact ⟨_, getElem?_append_new (List.length_modify _ _ _) _, hcurrent, hhome⟩
  | @merge old merged hmeets hhome _ _ hmerged =>
    refine ⟨{ old with acquiredIn := merged }, ?_, ?_, hhome⟩
    · rw [List.getElem?_modify_eq, hmeets.get]
      rfl
    · -- the scope of the variable is around both acquisitions
      obtain ⟨c, hc, -, hopen, -⟩ := Indexed.get_of_resolve hwf.indexed hmeets.resolve
      obtain rfl : old = c := Option.some.inj (hmeets.get.symm.trans hc)
      rw [hwf.tree.stack_eq] at hopen ⊢
      exact hmerged ▸ (hwf.tree.commonAncestor_spec (horderly.home hmeets.get) hopen).2.1
  | @reassign old event hmeets hhome _ honstack =>
    refine ⟨old.record event, ?_, List.contains_iff_mem.mp honstack, hhome⟩
    rw [List.getElem?_modify_eq, hmeets.get]
    rfl

/-- What is known of the acquisitions among the actions read so far. -/
structure Sited (read : List Action) (w : Walk) : Prop where
  acquired : ∀ {n : BindingId} {b : Binding}, w.bindings[n]? = some b →
    ∃ step scope declares, Site read n step scope declares
  /-- Each runs in the acquiring scope of its binding or inside it, and if it is a declaration, then
  in the scope of the variable. -/
  placed : ∀ {n step scope declares}, Site read n step scope declares →
    ∃ b, w.bindings[n]? = some b ∧ scope < w.scopes.scopes.length ∧
      b.acquiredIn ∈ w.scopes.ancestors scope ∧ (declares = true → b.home = scope)

/-- An acquisition in the action that is read next. -/
theorem exists_placed_of_acquire (hwf : w.WellFormed) (horderly : w.scopes.Orderly w.bindings)
    (hexec : w.exec limits (.acquire x errVar span declares) = .ok u)
    (hacquisition : w.acquisition x errVar span declares = .ok (n, v)) :
    ∃ b, u.bindings[n]? = some b ∧ b.acquiredIn ∈ w.scopes.stack ∧
      (declares = true → b.home = w.scopes.current) := by
  obtain ⟨n', v', hacquisition', rfl⟩ := exists_acquisition_of_acquire hexec
  obtain ⟨rfl, rfl⟩ : n = n' ∧ v = v' := by
    simpa using hacquisition.symm.trans hacquisition'
  obtain ⟨c, hc, hopen, hhome⟩ :=
    (acquires_of_acquisition hwf hacquisition).placed hwf horderly
  rcases bindings_awaitCheck v n errVar with heq | ⟨name, heq⟩
  · exact ⟨c, by rw [heq, hc], hopen, hhome⟩
  · exact ⟨{ c with errVar := some name }, by rw [heq, List.getElem?_modify_eq, hc]; rfl, hopen,
      hhome⟩

/-- A binding that an action adds is the one that its acquisition gets. -/
theorem exists_acquisition_of_new {b : Binding} (hwf : w.WellFormed)
    (hexec : w.exec limits action = .ok u) (hget : u.bindings[n]? = some b)
    (hnew : w.bindings[n]? = none) :
    ∃ x errVar span declares v, action = .acquire x errVar span declares ∧
      w.acquisition x errVar span declares = .ok (n, v) := by
  have hle := List.getElem?_eq_none_iff.mp hnew
  obtain ⟨x, errVar, span, declares, -, -, rfl, -⟩ :=
    (exec_rewrites hwf.indexed hexec).new hle hget
  obtain ⟨k, v, hacquisition, rfl⟩ := exists_acquisition_of_acquire hexec
  refine ⟨x, errVar, span, declares, v, rfl, ?_⟩
  -- the note on the error adds nothing
  obtain ⟨c, hc⟩ : ∃ c, v.bindings[n]? = some c := by
    have hlt := (List.getElem?_eq_some_iff.mp hget).1
    refine ⟨_, List.getElem?_eq_getElem ?_⟩
    rcases bindings_awaitCheck v k errVar with heq | ⟨name, heq⟩
    · rwa [heq] at hlt
    · rwa [heq, List.length_modify] at hlt
  rw [(acquires_of_acquisition hwf hacquisition).eq_of_new hc hle]
  exact hacquisition

/-- Running an action keeps the acquisitions in their places. -/
theorem exec_sited (h : Sited read w) (hread : Walk.run limits {} read = .ok w)
    (hwf : w.WellFormed) (horderly : w.scopes.Orderly w.bindings)
    (hexec : w.exec limits action = .ok u) : Sited (read ++ [action]) u := by
  have hat : At read w := ⟨limits, hread⟩
  have hextends := exec_extends hwf.indexed hexec
  refine ⟨fun {n b} hget => ?_, fun {n step scope declares} hsite => ?_⟩
  · cases hold : w.bindings[n]? with
    | none =>
      -- only an acquisition makes a binding
      obtain ⟨x, errVar, span, declares, v, rfl, hacquisition⟩ :=
        exists_acquisition_of_new hwf hexec hget hold
      have hread : read ++ [.acquire x errVar span declares] =
        read ++ .acquire x errVar span declares :: [] := rfl
      exact ⟨_, _, _, .intro hread hat hacquisition⟩
    | some old =>
      obtain ⟨step, scope, declares, hsite⟩ := h.acquired hold
      exact ⟨step, scope, declares, hsite.append _⟩
  · rcases hsite.concat_cases hat with hsite | ⟨rfl, x, errVar, span, v, rfl, hacquisition⟩
    · -- the acquiring scope moves outwards if at all
      obtain ⟨b, hget, hlt, hinside, hhome⟩ := h.placed hsite
      obtain ⟨b', hget', hages⟩ := exec_ages hwf horderly hexec hget
      refine ⟨b', hget', Nat.lt_of_lt_of_le hlt hextends.length, ?_, fun hdeclares => ?_⟩
      · rw [hextends.ancestors hwf.tree hlt]
        exact hwf.tree.mem_ancestors_trans hages.acquiredIn_mem hinside
      · rw [hages.home_eq]
        exact hhome hdeclares
    · -- the acquisition of this action, which runs in the current scope
      obtain ⟨b, hget, hopen, hhome⟩ := exists_placed_of_acquire hwf horderly hexec hacquisition
      have hlt := hwf.tree.current_lt
      refine ⟨b, hget, Nat.lt_of_lt_of_le hlt hextends.length, ?_, hhome⟩
      rw [hextends.ancestors hwf.tree hlt, ← hwf.tree.stack_eq]
      exact hopen

/-! ## Events -/

/-- Running the action adds the event to those of the binding. -/
structure Adds (w : Walk) (action : Action) (n : BindingId) (event : Event) : Prop where
  records : w.Records action n event
  added : ∃ limits v new, w.exec limits action = .ok v ∧ v.eventsOf n = w.eventsOf n ++ new ∧
    event ∈ new

/-- The event was added to those of the binding by one of the actions read so far. -/
def Recorded (read : List Action) (n : BindingId) (event : Event) : Prop :=
  ∃ before action rest u, read = before ++ action :: rest ∧ At before u ∧ u.Adds action n event

/-- Every event of every binding was recorded. -/
def Accounted (read : List Action) (w : Walk) : Prop :=
  ∀ {n : BindingId} {event : Event}, event ∈ w.eventsOf n → Recorded read n event

/-- Running an action adds only what it records. -/
theorem exec_accounted (h : Accounted read w) (hread : Walk.run limits {} read = .ok w)
    (hwf : w.WellFormed) (hexec : w.exec limits action = .ok u) :
    Accounted (read ++ [action]) u := by
  intro n event hevent
  obtain ⟨new, hevents, hrecords⟩ := (exec_rewrites hwf.indexed hexec).eventsOf n
  rw [hevents, List.mem_append] at hevent
  rcases hevent with hold | hnew
  · obtain ⟨before, action', rest, v, hsplit, hat, hadds⟩ := h hold
    refine ⟨before, action', rest ++ [action], v, ?_, hat, hadds⟩
    rw [hsplit, List.append_assoc, List.cons_append]
  · exact ⟨read, action, [], w, rfl, ⟨limits, hread⟩, hrecords event hnew,
      limits, u, new, hexec, hevents, hnew⟩

end Walk

namespace FunctionUnit

open Walk

variable {limits : Limits} {names : Recognizers} {unit : FunctionUnit} {w : Walk}
  {before rest : List Action} (hactions : unit.actions names = before ++ rest)
  (hrun : Walk.run limits {} before = .ok w)
include hactions hrun

/-- What every action keeps, told by all that has been read, holds at every moment of a walk. -/
theorem history_of_run {Q : List Action → Walk → Prop}
    (hstep : ∀ {read : List Action} {u v : Walk} {action : Action},
      Walk.run limits {} read = .ok u → u.WellFormed → u.scopes.Orderly u.bindings →
      u.exec limits action = .ok v → Q read u → Q (read ++ [action]) v) (hinit : Q [] {}) :
    Q before w := by
  have hsound := sound_of_actions limits hactions
  have hstart : Walk.run limits {} [] = .ok {} := rfl
  exact hsound.take.history orderly_init hstart hrun hstep hinit

/-- At every moment of a walk the acquisitions are known. -/
theorem sited_of_run : Sited before w := by
  refine history_of_run hactions hrun
    (fun hread hwf horderly hexec h => exec_sited h hread hwf horderly hexec)
    ⟨fun hget => ?_, fun hsite => ?_⟩
  · cases hget
  · cases hsite with
    | intro hread _ _ => simp at hread

theorem accounted_of_run : Accounted before w := by
  refine history_of_run (Q := Accounted) hactions hrun
    (fun hread hwf _ hexec h => exec_accounted h hread hwf hexec) fun hevent => ?_
  cases hevent

end FunctionUnit

end TxLifecycle
