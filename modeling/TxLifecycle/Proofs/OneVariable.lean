import Mathlib.Data.List.Basic
import TxLifecycle.Proofs.DeferredRollback
import TxLifecycle.Proofs.Demand
import TxLifecycle.Proofs.Limits
import TxLifecycle.Proofs.Projection

/-!
# Each variable is analysed on its own

What a walk finds out about a variable depends on what is left of its actions when only this
variable matters. Every action goes through the cut: what is left of it does on what is left of the
state what it did. So the bindings for the variable and their verdicts can be read off the run of
what is left.

* `Walk.exec_only`, `Walk.run_only`: one action, and actions one after the other;
* `Walk.verdict_only`: a binding is judged alike among what is left;
* `FunctionUnit.walk_only`: the walk of a function, cut down to a variable;
* `FunctionUnit.demand_eq_of_trace_eq`: what is left of the actions asks for the same limits.
-/

namespace TxLifecycle

namespace Walk

variable {roster : List String} {x : String} {w u v : Walk} {commit discarded declares : Bool}
  {kind : EventKind} {scope home acquiredIn : ScopeId} {name : String} {span : Span}
  {errVar : Option String} {i k : BindingId} {ids : List BindingId} {limits : Limits}
  {action : Action}

/-! ## Parts of actions

A part that concerns a binding of the variable is done at its new position; one that concerns
another binding leaves nothing. -/

section

variable (h : w.ListedIn roster)
include h

/-- Recording an event keeps the roster. -/
theorem ListedIn.of_recordAt (hrecord : w.recordAt i kind span scope discarded = .ok u) :
    u.ListedIn roster := by
  obtain ⟨event, -, -, -, rfl⟩ := Walk.of_recordAt hrecord
  exact h.modifyBinding (fun _ => rfl) fun _ => rfl

theorem only_of_recordAt (hi : rank roster x i = none)
    (hrecord : w.recordAt i kind span scope discarded = .ok u) :
    u.only roster x = w.only roster x := by
  obtain ⟨event, -, -, -, rfl⟩ := of_recordAt hrecord
  exact h.only_modify hi fun _ => rfl

theorem recordAll_only (hrecord : w.recordAll ids kind = .ok u) :
    (w.only roster x).recordAll (ids.filterMap (rank roster x)) kind = .ok (u.only roster x) := by
  induction ids generalizing w with
  | nil =>
    cases hrecord
    rfl
  | cons i ids ih =>
    obtain ⟨v, hv, hrest⟩ := bind_eq_ok.mp hrecord
    have hrest := ih (h.of_recordAt hv) hrest
    rw [List.filterMap_cons]
    cases hk : rank roster x i with
    | none => rwa [only_of_recordAt h hk hv] at hrest
    | some k =>
      have hi : (rank roster x i).isSome = true := hk ▸ rfl
      obtain rfl := Option.some.inj (hk.symm.trans (rank_of_isSome hi))
      refine bind_eq_ok.mpr ⟨_, ?_, hrest⟩
      refine ((StateMap.only roster x).recordAt_of h hi (fun _ _ _ => rfl) _ _ _).trans ?_
      exact congrArg (Except.map (Walk.only roster x)) hv

end

/-- What another name means goes, and so do notes on it. -/
theorem only_of_annotates (h : v.ListedIn roster) (hnotes : w.Annotates action v u)
    (hout : ∀ id ∈ w.lookups action, rank roster x id = none) :
    u.only roster x = v.only roster x := by
  induction hnotes with
  | refl _ => rfl
  | note hnote _ ih =>
    rw [ih (h.modifyBinding (fun b => (hnote.keeps b).id_eq) fun b => (hnote.keeps b).name_eq)]
    exact h.only_modify (hout _ hnote.lookup) fun b => (hnote.keeps b).id_eq

/-- Nothing is left of what an action does to another variable, except by an acquisition. -/
theorem only_of_only_eq_nil (h : w.ListedIn roster) (hacquire : action.isAcquire = false)
    (hnone : action.only x = []) (hexec : w.exec limits action = .ok u) :
    u.only roster x = w.only roster x := by
  obtain ⟨name, hname, hlookups, hinner, hspan, hafter⟩ : ∃ name, name ≠ x ∧
      w.lookups action = (w.resolve name).toList ∧ action.isInner = true ∧
      action.setsSpan = false ∧ w.registers.after action = w.registers := by
    cases action with
    | mention name _ | storeField name _ | finalize name _ | deferCall name _ | capture name _ =>
      refine ⟨name, ?_, rfl, rfl, rfl, rfl⟩
      rintro rfl
      simp [Action.only] at hnone
    | acquire _ _ _ _ => cases hacquire
    | _ => cases hnone
  have hout : ∀ id ∈ w.lookups action, rank roster x id = none := by
    intro id hid
    rw [hlookups, Option.mem_toList] at hid
    exact (h.rank_of_resolve hid).trans (if_neg hname)
  have hnoted := exec_noted hinner hacquire hexec
  have hscopes : u.scopes.mapScopes (Scope.only (rank roster x)) =
      w.scopes.mapScopes (Scope.only (rank roster x)) := by
    have hmarks := hnoted.marks
    generalize u.scopes = tree at hmarks
    cases hmarks with
    | nothing => rfl
    | called hresolve hnote | inLiteral hresolve _ hnote =>
      exact ScopeTree.only_noteDeferredRollback (hout _ (Option.mem_toList.mpr hresolve)) hnote
    | error _ => cases hacquire
    | _ => cases hnone
  have hbindings : (u.only roster x).bindings = (w.only roster x).bindings := by
    obtain ⟨v, hnotes, hbindings⟩ := hnoted.notes
    rw [← only_of_annotates h hnotes hout, only, hbindings, only]
  have hregisters := hnoted.registers.trans hafter
  simp only [registers, Registers.mk.injEq] at hregisters
  obtain ⟨hsteps, hpending, hheld, hdiscarding, hsheltered⟩ := hregisters
  simp only [only] at hbindings ⊢
  rw [hscopes, hbindings, hnoted.context, hnoted.span hspan, hnoted.outer, hnoted.opened, hsteps,
    hpending, hheld, hdiscarding, hsheltered]

/-! ## Acquisitions -/

section

variable (h : w.ListedIn roster)
include h

/-- The binding for an acquisition into another variable goes, with all that becomes of it. -/
theorem Bound.only_other (hu : u.ListedIn roster) (hname : name ≠ x) {existing : Option Binding}
    (hexisting : ∀ old ∈ existing, old ∈ w.bindings ∧ old.name = name)
    (hbound : w.Bound name span declares existing (i, u)) :
    rank roster x i = none ∧ u.only roster x = w.only roster x := by
  have hold : ∀ old ∈ existing, rank roster x old.id = none := by
    intro old hold
    obtain ⟨hmem, rfl⟩ := hexisting old hold
    exact (h.rank_eq hmem).trans (if_neg hname)
  have hadd : ∀ {v : Walk} {home acquiredIn : ScopeId},
      v.addBinding name home acquiredIn span = (i, u) →
        rank roster x i = none ∧ u.only roster x = v.only roster x := by
    rintro v home acquiredIn ⟨⟩
    exact ⟨(rank_of_addBinding hu).trans (if_neg hname), (addBinding_only hu).trans (if_neg hname)⟩
  generalize hresult : (i, u) = result at hbound
  cases hbound with
  | fresh | hide _ _ _ => exact hadd hresult.symm
  | shadow _ _ hrecord =>
    rw [← only_of_recordAt h (hold _ rfl) hrecord]
    exact hadd hresult.symm
  | @replace old _ _ =>
    obtain ⟨-, rfl⟩ := hexisting old rfl
    rw [← h.only_modify (g := ({ · with retired := true })) (hold old rfl) fun _ => rfl]
    exact hadd hresult.symm
  | @merge old _ _ _ =>
    cases hresult
    exact ⟨hold old rfl, h.only_modify (hold old rfl) fun _ => rfl⟩
  | @lose old _ _ _ _ hrecord =>
    cases hresult
    exact ⟨hold old rfl, only_of_recordAt h (hold old rfl) hrecord⟩

/-- Waiting for the check of an error. -/
theorem awaitCheck_only (errVar : Option String) : (w.awaitCheck i errVar).only roster x =
    if (rank roster x i).isSome then (w.only roster x).awaitCheck ((roster.take i).count x) errVar
      else w.only roster x := by
  cases errVar with
  | none => exact (ite_self _).symm
  | some errName =>
    have hpending : (w.pending ++ [(⟨i, errName⟩ : Guard)]).filterMap (Guard.only (rank roster x)) =
        (w.only roster x).pending ++ ((rank roster x i).map (Guard.mk · errName)).toList := by
      rw [List.filterMap_append, List.filterMap_cons, Guard.only]
      cases rank roster x i <;> rfl
    have hcut : (w.awaitCheck i (some errName)).only roster x =
        { (w.modifyBinding i ({ · with errVar := some errName })).only roster x with
          pending := (w.only roster x).pending ++
            ((rank roster x i).map (Guard.mk · errName)).toList } := by
      rw [← hpending]
      rfl
    cases hi : (rank roster x i).isSome with
    | false =>
      have hnone := Option.isNone_iff_eq_none.mp (Option.isSome_eq_false_iff.mp hi)
      rw [hcut, hnone, h.only_modify hnone fun _ => by rfl]
      simp
    | true =>
      have hnoted : (w.only roster x).modifyBinding _ ({ · with errVar := some errName }) =
          (w.modifyBinding i ({ · with errVar := some errName })).only roster x :=
        h.modify_only hi (fun _ => rfl) fun _ => rfl
      rw [hcut, rank_of_isSome hi, if_pos rfl, awaitCheck, hnoted]
      rfl

/-- An acquisition into the variable is one into its bindings; of an acquisition into another
variable, the declaration of the error variable is left. -/
theorem acquire_only (hu : u.ListedIn roster)
    (hacquire : w.acquire name errVar span declares = .ok u) :
    (if name = x then (w.only roster x).acquire name errVar span declares
      else (w.only roster x).declareError errVar declares) = .ok (u.only roster x) := by
  split
  · rename_i hname
    have hcases := (StateMap.only roster x).acquire_cases h (beq_iff_eq.mpr hname) errVar span
      declares fun _ hv => Except.ok.inj (hacquire.symm.trans hv) ▸ hu
    rw [hacquire, show errVar.map (StateMap.only roster x).name = errVar from Option.map_id']
      at hcases
    obtain ⟨e, he, -⟩ | ⟨i, v, hi, hv, hsome, hacquired⟩ := hcases
    · cases he
    · cases hsome
      exact hacquired.trans
        (congrArg Except.ok ((awaitCheck_only hv errVar).trans (if_pos hi)).symm)
  · rename_i hname
    obtain ⟨i, z, hfound, rfl⟩ := exists_acquisition_of_acquire hacquire
    rw [ListedIn.awaitCheck_iff] at hu
    obtain ⟨v, hdeclare, hbound⟩ := of_acquisition hfound
    have hbindings : v.bindings = w.bindings := by
      obtain rfl | ⟨_, _, _, _, _, rfl⟩ := of_declareError hdeclare <;> rfl
    have hexisting : ∀ old ∈ (w.resolve name).bind (w.bindings[·]?),
        old ∈ v.bindings ∧ old.name = name := by
      intro old hold
      obtain ⟨j, hj, hget⟩ := Option.bind_eq_some_iff.mp hold
      exact ⟨hbindings ▸ List.mem_of_getElem? hget, (Indexed.of_resolve h.indexed hj hget).1⟩
    have hdeclared := (StateMap.only roster x).declareError w errVar declares
    rw [show errVar.map (StateMap.only roster x).name = errVar from Option.map_id', hdeclare]
      at hdeclared
    obtain ⟨hi, hsame⟩ := hbound.only_other (h.of_eq hbindings) hu hname hexisting
    rw [awaitCheck_only hu, hi, if_neg (by simp), hsame]
    exact hdeclared

/-! ## Other actions -/

theorem exit_only {how : Exit} (hu : w.exit how = .ok u) :
    (w.only roster x).exit how = .ok (u.only roster x) := by
  rw [exit, (resembles_only roster x w).inClosure rfl]
  rw [exit] at hu
  split at hu
  · rename_i hinside
    cases hu
    exact if_pos hinside
  · rename_i hdirect
    rw [if_neg hdirect, exposed_only h]
    split at hu
    · cases hu
    · rename_i v hrecord
      rw [recordAll_only h hrecord]
      have hterminated := (lifts_only roster x).updateScopes (w := v) (·.markTerminated)
        (·.markTerminated) ((Scope.keeps_only _).markTerminated v.scopes)
      rw [hu] at hterminated
      exact hterminated

end

/-- Guarding what the condition of an `if` mentions. -/
theorem openGuard_only (roster : List String) (x : String) (w : Walk) (names : List String) :
    (w.only roster x).openGuard names = (w.openGuard names).only roster x := by
  have hheld : (w.only roster x).held.headD [] =
      (w.held.headD []).filterMap (Guard.only (rank roster x)) := by
    show (w.held.map _).headD _ = _
    cases w.held <;> rfl
  have hguards : (((w.held.headD []).filterMap (Guard.only (rank roster x))).filter
      (names.contains ·.errVar)).map (·.binding) =
      (((w.held.headD []).filter (names.contains ·.errVar)).map (·.binding)).filterMap
        (rank roster x) := by
    rw [List.filter_filterMap, List.map_filterMap, List.filterMap_map, List.filterMap_filter]
    refine List.filterMap_congr fun guard _ => ?_
    rw [Guard.only, Function.comp]
    cases rank roster x guard.binding with
    | none => simp
    | some k =>
      rw [Option.map_some, Option.filter_some]
      split <;> rfl
  have htail : (w.only roster x).held.tail =
      w.held.tail.map (List.filterMap (Guard.only (rank roster x))) := List.map_tail.symm
  rw [openGuard, openGuard, hheld, hguards, htail]
  rfl

/-- Coming back from a function literal. -/
theorem closeBody_only (roster : List String) (x : String) (w : Walk) :
    (w.only roster x).closeBody = w.closeBody.map (Walk.only roster x) := by
  have hcontext : (w.only roster x).outer.headD (w.only roster x).context =
      (w.outer.headD w.context).only (rank roster x) := by
    show (w.outer.map _).headD _ = _
    cases w.outer <;> rfl
  have htail : (w.only roster x).outer.tail =
      w.outer.tail.map (Context.only (rank roster x)) := List.map_tail.symm
  rw [closeBody, hcontext, htail]
  exact (lifts_only roster x).leave
    { w with context := w.outer.headD w.context, outer := w.outer.tail }

/-- Collecting the guards of an initial statement. -/
theorem collectGuards_only (roster : List String) (x : String) (w : Walk) :
    (w.only roster x).collectGuards = w.collectGuards.only roster x := by
  obtain ⟨scopes, bindings, steps, context, outer, constructs, pending, held, _, _⟩ := w
  cases held with
  | nil => rfl
  | cons guards rest => simp [collectGuards, only]

/-- An action that concerns no variable is run as it is. -/
theorem run_of_commutes
    (h : (w.only roster x).exec limits action = (w.exec limits action).map (Walk.only roster x))
    (hexec : w.exec limits action = .ok u) :
    (w.only roster x).run limits [action] = .ok (u.only roster x) := by
  refine run_single ?_
  rw [h, hexec]
  rfl

/-- An action on one name is run if that is the name of the variable. -/
theorem run_ite_only
    (hself : name = x →
      (w.only roster x).exec limits action = (w.exec limits action).map (Walk.only roster x))
    (hother : name ≠ x → u.only roster x = w.only roster x)
    (hexec : w.exec limits action = .ok u) :
    (w.only roster x).run limits (if name = x then [action] else []) = .ok (u.only roster x) := by
  split
  · exact run_of_commutes (hself ‹_›) hexec
  · exact congrArg Except.ok (hother ‹_›).symm

/-- The declaration of an error variable as an action. -/
theorem run_declareError (limits : Limits) (w : Walk) (errVar : Option String) (declares : Bool) :
    w.run limits (if declares then errVar.toList.map .declare else []) =
      w.declareError errVar declares := by
  cases errVar with
  | none => cases declares <;> rfl
  | some errName =>
    cases declares with
    | false => rfl
    | true =>
      cases hdeclare : w.updateScopes (·.declare errName) <;>
        simp [run, exec, declareError, hdeclare]

/-- Where bindings keep their names, the names stood in the roster before. -/
theorem ListedIn.of_keepsNames (hindexed : w.Indexed) (hu : u.ListedIn roster)
    (hkeeps : w.KeepsNames u) : w.ListedIn roster where
  indexed := hindexed
  name := by
    intro i b hget
    obtain ⟨b', hget', hname⟩ := hkeeps i b hget
    rw [← hname]
    exact hu.name hget'

/-- **One action.** What is left of it does on what is left of the state what it did. -/
theorem exec_only (hindexed : w.Indexed) (hu : u.ListedIn roster)
    (hexec : w.exec limits action = .ok u) :
    (w.only roster x).run limits (action.only x) = .ok (u.only roster x) := by
  have h : w.ListedIn roster :=
    .of_keepsNames hindexed hu (.of_rewrites (exec_rewrites hindexed hexec))
  have hother : action.isAcquire = false → action.only x = [] → u.only roster x = w.only roster x :=
    fun hacquire hnone => only_of_only_eq_nil h hacquire hnone hexec
  let c := StateMap.only roster x
  cases action with
  | mention name span =>
    exact run_ite_only (fun hname => c.mention h (beq_iff_eq.mpr hname) span)
      (fun hname => hother rfl (if_neg hname)) hexec
  | finalize name commit =>
    exact run_ite_only (fun hname => c.finalize h (beq_iff_eq.mpr hname) commit)
      (fun hname => hother rfl (if_neg hname)) hexec
  | deferCall name commit =>
    exact run_ite_only (fun hname => c.deferCall h (beq_iff_eq.mpr hname) commit)
      (fun hname => hother rfl (if_neg hname)) hexec
  | storeField name stop =>
    exact run_ite_only
      (fun hname => congrArg Except.ok (c.storeField h (beq_iff_eq.mpr hname) stop))
      (fun hname => hother rfl (if_neg hname)) hexec
  | capture name span =>
    exact run_ite_only (fun hname => c.capture h (beq_iff_eq.mpr hname) span)
      (fun hname => hother rfl (if_neg hname)) hexec
  | acquire name errVar span declares =>
    have hacquire := acquire_only (x := x) h hu hexec
    rw [Action.only]
    by_cases hname : name = x
    · rw [if_pos hname] at hacquire ⊢
      exact run_single hacquire
    · rw [if_neg hname] at hacquire ⊢
      rwa [run_declareError]
  | delegate names =>
    cases hexec
    exact run_single
      (congrArg Except.ok (Eq.trans (by simp [c, StateMap.only]) (c.delegate h names)))
  | handOut names =>
    cases hexec
    exact run_single
      (congrArg Except.ok (Eq.trans (by simp [c, StateMap.only]) (c.handOut h names)))
  | exit how => exact run_single (exit_only h hexec)
  | count => exact run_of_commutes (ite_map_of_commutes rfl rfl) hexec
  | enter kind =>
    refine run_of_commutes ?_ hexec
    show ((w.only roster x).enter limits kind).map (·.2) = ((w.enter limits kind).map (·.2)).map _
    rw [(lifts_only roster x).enter (Scope.keeps_only _)]
    cases w.enter limits kind <;> rfl
  | enterArm kind =>
    exact run_of_commutes ((lifts_only roster x).enterArm (Scope.keeps_only _) limits w kind) hexec
  | leave => exact run_of_commutes ((lifts_only roster x).leave w) hexec
  | openBody kind =>
    refine run_of_commutes ?_ hexec
    show (w.only roster x).openBody limits kind = (w.openBody limits kind).map _
    rw [openBody, openBody, (lifts_only roster x).enter (Scope.keeps_only _)]
    cases w.enter limits kind.scopeKind with
    | error e => rfl
    | ok opened => cases kind <;> rfl
  | closeBody => exact run_of_commutes (closeBody_only roster x w) hexec
  | declare name => exact run_of_commutes (c.declare w name) hexec
  | addDefer =>
    refine run_of_commutes ((lifts_only roster x).updateScopes (·.addDefer) (·.addDefer) ?_) hexec
    refine ScopeTree.modify_mapScopes fun s => ?_
    simp [Scope.only, DeferRecord.only]
  | holdGuards take => exact run_of_commutes (by cases take <;> rfl) hexec
  | collectGuards =>
    exact run_of_commutes (congrArg Except.ok (collectGuards_only roster x w)) hexec
  | openGuard names =>
    exact run_of_commutes (congrArg Except.ok (openGuard_only roster x w names)) hexec
  | closeGuard =>
    refine run_of_commutes (congrArg Except.ok ?_) hexec
    simp [modifyContext, only, Context.only]
  | _ => exact run_of_commutes rfl hexec

/-- **Actions one after the other.** What is left of them does on what is left of the state what
they did. -/
theorem run_only {actions : List Action} (hsound : w.Sound limits actions) (hu : u.ListedIn roster)
    (hrun : w.run limits actions = .ok u) :
    (w.only roster x).run limits (trace x actions) = .ok (u.only roster x) := by
  induction actions generalizing w with
  | nil =>
    cases hrun
    rfl
  | cons action rest ih =>
    obtain ⟨v, hexec, hrest⟩ := run_cons_eq_ok.mp hrun
    have hsound' := hsound.2.2 v hexec
    have hv : v.ListedIn roster :=
      .of_keepsNames hsound'.wellFormed.indexed hu (hsound'.keepsNames hrest)
    rw [trace_cons, run_append_eq_ok]
    exact ⟨_, exec_only hsound.wellFormed.indexed hv hexec, ih hsound' hrest⟩

/-! ## Verdicts -/

/-- A binding that stays is judged alike among what is left. -/
theorem verdict_only (roster : List String) (w : Walk) {b : Binding} {k : BindingId}
    (hk : rank roster x b.id = some k) :
    Binding.verdict { b with id := k } (w.only roster x).scopes = b.verdict w.scopes := by
  have hlike := resembles_only roster x w
  refine Binding.verdict_eq_of_resembles ⟨rfl, rfl, rfl, rfl⟩ hlike rfl ?_
  -- the rollbacks are noted at the new position
  rw [Binding.hasSafetyNet, Binding.hasSafetyNet, hlike.ancestors]
  refine List.any_congr rfl fun scope => ?_
  rw [(lifts_only roster x).scopes, ScopeTree.get?_mapScopes, Option.any_map]
  cases w.scopes.get? scope with
  | none => rfl
  | some s => exact s.rollsBack_only rank_injective hk

/-- The reports on what is left are those on the variable. -/
theorem violations_only (h : w.ListedIn roster) (function : String) :
    Tracked.violations function ⟨(w.only roster x).scopes, (w.only roster x).bindings⟩ =
      (Tracked.violations function ⟨w.scopes, w.bindings⟩).filter (·.variableName == x) := by
  rw [Tracked.violations_filter, Tracked.violations, Tracked.violations, List.filterMap_filter]
  show (w.bindings.filterMap _).filterMap _ = _
  rw [List.filterMap_filterMap]
  refine List.filterMap_congr fun b hb => ?_
  have hrank := h.rank_eq (x := x) hb
  by_cases hname : b.name = x
  · rw [if_pos hname] at hrank
    rw [Binding.only, hrank, Option.map_some, Option.bind_some, verdict_only roster w hrank]
    simp [hname]
  · rw [if_neg hname] at hrank
    rw [Binding.only, hrank]
    simp [hname]

end Walk

/-- A binding without its position in the table. -/
def Binding.unplaced (b : Binding) : Binding :=
  { b with id := 0 }

/-- The bindings for the variable are what is left, at other positions. -/
theorem Walk.unplaced_only {roster : List String} {x : String} {w : Walk} (h : w.ListedIn roster) :
    (w.only roster x).bindings.map Binding.unplaced =
      (w.bindings.filter (·.name == x)).map Binding.unplaced := by
  show (w.bindings.filterMap _).map _ = _
  rw [List.map_filterMap, ← List.filterMap_eq_map, List.filterMap_filter]
  refine List.filterMap_congr fun b hb => ?_
  have hrank := h.rank_eq (x := x) hb
  rw [Binding.only, hrank]
  by_cases hname : b.name = x <;> simp [hname, Binding.unplaced]

/-! ## Functions -/

/-- What is left of an action opens and closes the same scopes. -/
theorem peakDepth_append_only (x : String) (depth : Nat) (action : Action) (rest : List Action) :
    peakDepth depth (action.only x ++ rest) = peakDepth depth (action :: rest) := by
  have hquiet : ∀ {p : Prop} [Decidable p] {action : Action}, action.opens = false →
      action.depthAfter depth = depth →
      peakDepth depth ((if p then [action] else []) ++ rest) =
        peakDepth depth (action :: rest) := by
    intro p _ action hopens hdepth
    split <;> simp [peakDepth, hopens, hdepth]
  cases action with
  | mention _ _ | storeField _ _ | finalize _ _ | deferCall _ _ | capture _ _ =>
    exact hquiet rfl rfl
  | acquire name errVar span declares =>
    rw [Action.only]
    split
    · rfl
    · cases errVar <;> cases declares <;> simp [peakDepth, Action.opens, Action.depthAfter]
  | delegate _ | handOut _ => rfl
  | _ => rfl

/-- What is left of several actions opens scopes as deep as they do. -/
theorem peakDepth_only (x : String) (depth : Nat) (actions : List Action) :
    peakDepth depth (trace x actions) = peakDepth depth actions := by
  induction actions generalizing depth with
  | nil => rfl
  | cons action rest ih =>
    rw [trace_cons, peakDepth_append_only, peakDepth, peakDepth, ih]

/-- What is left of actions counts the same statements. -/
theorem count_only (x : String) (actions : List Action) :
    (trace x actions).count .count = actions.count .count := by
  induction actions with
  | nil => rfl
  | cons action rest ih =>
    have hquiet : ∀ {p : Prop} [Decidable p] {action : Action}, action ≠ .count →
        (if p then [action] else []).count Action.count = 0 := by
      intro p _ action hne
      split <;> simp [hne]
    have hfirst : (action.only x).count .count = [action].count .count := by
      cases action with
      | mention _ _ | storeField _ _ | finalize _ _ | deferCall _ _ | capture _ _ =>
        exact hquiet (by simp)
      | acquire name errVar span declares =>
        rw [Action.only]
        split
        · rfl
        · cases errVar <;> cases declares <;> simp
      | _ => rfl
    rw [trace_cons, List.count_append, hfirst, ih, ← List.count_append]
    rfl

namespace FunctionUnit

variable {limits : Limits} {names : Recognizers} {unit unit' : FunctionUnit} {x : String} {w : Walk}

/-- A function whose walk succeeds was read whole. -/
theorem nestingExceeded_of_walk (h : unit.walk limits names = .ok w) :
    unit.nestingExceeded = false := by
  rw [walk] at h
  split at h
  · cases h
  · exact Bool.eq_false_iff.mpr ‹_›

/-- The names of the bindings at the end of a walk are a roster for it. -/
theorem listed_of_walk (h : unit.walk limits names = .ok w) :
    w.ListedIn (w.bindings.map (·.name)) where
  indexed := (wellFormed_of_walk h).indexed
  name := by
    intro i b hget
    rw [List.getElem?_map, hget, Option.map_some]

/-- **Each variable is analysed on its own.** What is left of the actions of a function for a
variable leads to what is left of the end of its walk. -/
theorem walk_only (x : String) (h : unit.walk limits names = .ok w) :
    Walk.run limits {} (trace x (unit.actions names)) =
      .ok (w.only (w.bindings.map (·.name)) x) :=
  Walk.run_only (unit.sound_actions limits names) (listed_of_walk h) (run_of_walk h)

/-- Functions of whose actions the same is left ask for the same limits. -/
theorem demand_eq_of_trace_eq
    (h : trace x (unit'.actions names) = trace x (unit.actions names)) :
    unit'.demand names = unit.demand names := by
  rw [demand, demand, ← count_only x, ← count_only x (unit.actions names), ← peakDepth_only x,
    ← peakDepth_only x _ (unit.actions names), h]

end FunctionUnit

end TxLifecycle
