import TxLifecycle.Proofs.Amendments

/-!
# What a walk keeps in mind

Besides its scopes, its bindings and the surroundings of the code, a walk keeps a few things in
mind: how many statements were counted, which acquisitions wait for an error check, and whether the
value being read is thrown away. Only few actions look at these or change them.

What becomes of these (`Walk.registers`) can be told from the action (`Registers.after`), unless it
is an acquisition, which in addition waits for its check: `Walk.exec_registers` and
`Walk.exists_pending`.
-/

namespace TxLifecycle

namespace Walk

variable {limits : Limits} {w u v : Walk} {action : Action} {n : BindingId} {commit declares : Bool}
  {errVar : Option String} {span : Span} {name : String}

theorem registers_of_leave (h : w.leave = .ok u) : u.registers = w.registers := by
  unfold leave at h
  split at h <;> cases h
  rfl

/-- Finding or making the binding of an acquisition changes none of it. -/
theorem Bound.registers {existing : Option Binding} {result : BindingId × Walk}
    (h : v.Bound name span declares existing result) : result.2.registers = v.registers := by
  cases h with
  | fresh | hide | replace | merge => rfl
  | shadow _ _ hrecord | lose _ _ _ hrecord =>
    obtain ⟨event, -, -, -, rfl⟩ := of_recordAt hrecord
    rfl

/-- An acquisition waits for the check of its error, if it has an error variable. -/
theorem registers_of_acquire (h : w.acquire name errVar span declares = .ok u) :
    ∃ n v, w.acquisition name errVar span declares = .ok (n, v) ∧ u.registers =
      { w.registers with pending := w.pending ++ (errVar.map (Guard.mk n ·)).toList } := by
  obtain ⟨n, v, hacquisition, rfl⟩ := exists_acquisition_of_acquire h
  obtain ⟨x, hdeclare, hbound⟩ := of_acquisition hacquisition
  have hdeclared : x.registers = w.registers := by
    rcases of_declareError hdeclare with rfl | ⟨_, _, -, -, -, rfl⟩ <;> rfl
  have hregisters := hbound.registers.trans hdeclared
  have hpending : v.pending = w.pending := congrArg Registers.pending hregisters
  refine ⟨n, v, hacquisition, ?_⟩
  cases errVar with
  | none => simpa [awaitCheck, registers] using hregisters
  | some name => simpa [awaitCheck, registers, modifyBinding, hpending] using hregisters

section

variable (h : w.exec limits action = .ok u)
include h

/-- What an action does to it that acquires nothing. -/
theorem exec_registers (hacquire : action.isAcquire = false) :
    u.registers = w.registers.after action := by
  cases action with
  | enter kind =>
    obtain ⟨_, _, -, rfl⟩ := of_exec_enter h
    rfl
  | enterArm kind =>
    obtain ⟨_, _, -, rfl⟩ := of_exec_enterArm h
    rfl
  | openBody kind =>
    obtain ⟨_, _, -, rfl⟩ := of_exec_openBody h
    rfl
  | leave | closeBody =>
    have hleave := registers_of_leave h
    exact hleave
  | openConstruct _ _ _ | closeConstruct | openGuard _ | closeGuard =>
    cases h
    rfl
  | _ => exact (exec_noted rfl hacquire h).registers

/-- An acquisition only adds to the checks that wait. -/
theorem exists_pending : ∃ pending, u.registers = { w.registers.after action with pending } := by
  cases hacquire : action.isAcquire with
  | true =>
    cases action with
    | acquire name errVar span declares =>
      obtain ⟨n, v, -, hregisters⟩ := registers_of_acquire h
      exact ⟨_, hregisters⟩
    | _ => cases hacquire
  | false => exact ⟨_, exec_registers h hacquire⟩

/-- Only counting a statement changes how many there are. -/
theorem exec_steps : u.steps = w.steps + if action == .count then 1 else 0 := by
  obtain ⟨pending, hregisters⟩ := exists_pending h
  refine (congrArg Registers.steps hregisters).trans ?_
  cases action with
  | holdGuards take => cases take <;> rfl
  | _ => rfl

end

/-- A commit or rollback that runs where it is written leaves an event that points at the current
statement. -/
theorem exec_finalize (h : w.exec limits (.finalize name commit) = .ok u)
    (hresolve : w.resolve name = some n) (hdefer : w.context.deferScope = none) :
    ∃ event : Event, event.kind = directKind commit ∧ event.span = w.context.span ∧
      u = w.modifyBinding n (·.record event) := by
  simp only [exec, finalize, hresolve, hdefer, recordAt] at h
  split at h <;> cases h
  exact ⟨_, rfl, rfl, rfl⟩

end Walk

end TxLifecycle
