import Mathlib.Data.List.Basic
import Mathlib.Data.List.Find
import TxLifecycle.Proofs.StateMaps

/-!
# States and actions cut down to one variable

What is left of an action and of a state when only one variable matters: the actions on other
variables are left out, and so are their bindings. The bindings for the variable move up, so each of
them gets a new position, the number of those before it, and every mention of a binding by its
position is adapted.

* `rank`: the new position of a binding, if it has one;
* `Action.only`: what is left of an action, `trace`: of a list of actions, `Walk.only`: of a state;
* `Walk.ListedIn`: the bindings of a state have the names that the new positions are counted by;
* `StateMap.only`: this change of states commutes with a walk as far as the variable goes;
* `Walk.exposed_only`: what leaving the function would leak of what is left.
-/

namespace TxLifecycle

/-! ## Positions -/

/-- The position of a binding among the bindings for `x`, in a table whose bindings have the names
of the roster. A binding for another variable has none. -/
def rank (roster : List String) (x : String) (i : BindingId) : Option BindingId :=
  if roster[i]? = some x then some ((roster.take i).count x) else none

variable {roster : List String} {i : Nat} {x : String}

/-- Further on in the roster, the name has been met more often. -/
theorem count_take_lt {j : Nat} (h : roster[i]? = some x) (hlt : i < j) :
    (roster.take i).count x < (roster.take j).count x := by
  calc (roster.take i).count x < (roster.take (i + 1)).count x := by
        simp [List.take_add_one, h]
    _ ≤ (roster.take j).count x := (List.take_prefix_take_left hlt).sublist.count_le x

/-- A position says how often the name has been met before. -/
theorem rank_of_isSome (h : (rank roster x i).isSome = true) :
    rank roster x i = some ((roster.take i).count x) := by
  rw [rank] at h ⊢
  split at h
  · exact if_pos ‹_›
  · cases h

/-- A position is taken by one binding only. -/
theorem rank_injective {j k : Nat} (hi : rank roster x i = some k) (hj : rank roster x j = some k) :
    i = j := by
  simp only [rank, Option.ite_none_right_eq_some, Option.some.injEq] at hi hj
  rcases Nat.lt_trichotomy i j with hlt | heq | hlt
  · exact absurd (hi.2.trans hj.2.symm) (count_take_lt hi.1 hlt).ne
  · exact heq
  · exact absurd (hj.2.trans hi.2.symm) (count_take_lt hj.1 hlt).ne

section Lists

variable {f : Nat → Option Nat} (hf : ∀ {i j k : Nat}, f i = some k → f j = some k → i = j)
include hf

/-- A new position occurs among the new positions as often as the old one among the old. -/
theorem count_filterMap_of_injective {i k : Nat} (hk : f i = some k) (l : List Nat) :
    (l.filterMap f).count k = l.count i := by
  rw [List.count_filterMap, List.count_eq_countP]
  refine List.countP_congr fun j _ => ?_
  simp only [beq_iff_eq]
  exact ⟨fun hj => hf hj hk, fun hj => hj ▸ hk⟩

/-- In particular it occurs there if the old one occurs. -/
theorem contains_filterMap_of_injective {i k : Nat} (hk : f i = some k) (l : List Nat) :
    (l.filterMap f).contains k = l.contains i := by
  rw [Bool.eq_iff_iff, List.contains_iff_mem, List.contains_iff_mem, ← List.count_pos_iff,
    ← List.count_pos_iff, count_filterMap_of_injective hf hk]

end Lists

/-- A member that is left out may change as it likes, as long as it is left out. -/
theorem filterMap_modify_of_none {α β : Type} {p : α → Option β} {g : α → α} {l : List α}
    (h : ∀ a, l[i]? = some a → p a = none ∧ p (g a) = none) :
    (l.modify i g).filterMap p = l.filterMap p := by
  induction l generalizing i with
  | nil => simp
  | cons a l ih =>
    cases i with
    | zero =>
      obtain ⟨hold, hnew⟩ := h a rfl
      simp [hold, hnew]
    | succ i => simp [List.filterMap_cons, ih fun b hb => h b hb]

/-- The change of a member that stays is a change at its new position. -/
theorem filterMap_modify {α β : Type} {p : α → Option β} {g : α → α} {g' : β → β} {l : List α}
    (h : ∀ a, l[i]? = some a → ∃ b, p a = some b ∧ p (g a) = some (g' b)) :
    (l.modify i g).filterMap p = (l.filterMap p).modify ((l.take i).filterMap p).length g' := by
  induction l generalizing i with
  | nil => simp
  | cons a l ih =>
    cases i with
    | zero =>
      obtain ⟨b, hold, hnew⟩ := h a rfl
      simp [hold, hnew]
    | succ i =>
      rw [List.modify_succ_cons, List.take_succ_cons, List.filterMap_cons, List.filterMap_cons,
        List.filterMap_cons, ih fun b hb => h b hb]
      cases p a <;> simp

/-! ## What is left of a state -/

/-- What is left of a `defer` statement: the rollbacks of bindings that stay. -/
def DeferRecord.only (f : BindingId → Option BindingId) (record : DeferRecord) : DeferRecord where
  rollbacks := record.rollbacks.filterMap f

/-- What is left of a scope. -/
def Scope.only (f : BindingId → Option BindingId) (scope : Scope) : Scope :=
  { scope with defers := scope.defers.map (DeferRecord.only f) }

/-- What is left of a binding: all of it at its new position, or nothing. -/
def Binding.only (f : BindingId → Option BindingId) (b : Binding) : Option Binding :=
  (f b.id).map fun id => { b with id }

/-- A binding for the variable at its new position. -/
def Binding.moved (roster : List String) (x : String) (b : Binding) : Binding :=
  { b with id := (roster.take b.id).count x }

/-- What is left of a waiting acquisition. -/
def Guard.only (f : BindingId → Option BindingId) (guard : Guard) : Option Guard :=
  (f guard.binding).map fun binding => { guard with binding }

/-- What is left of the surroundings of the code: the guards of bindings that stay. -/
def Context.only (f : BindingId → Option BindingId) (context : Context) : Context :=
  { context with guarded := context.guarded.map (List.filterMap f) }

/-- What is left of a state for the variable `x`, if its bindings have the names of the roster. -/
def Walk.only (roster : List String) (x : String) (w : Walk) : Walk :=
  { w with
    scopes := w.scopes.mapScopes (Scope.only (rank roster x))
    bindings := w.bindings.filterMap (Binding.only (rank roster x))
    context := w.context.only (rank roster x)
    outer := w.outer.map (Context.only (rank roster x))
    pending := w.pending.filterMap (Guard.only (rank roster x))
    held := w.held.map (List.filterMap (Guard.only (rank roster x))) }

/-- What is left of an action for the variable `x`. An acquisition into another variable still
declares the variable that receives its error. -/
def Action.only (x : String) (action : Action) : List Action :=
  match action with
  | .mention name _ | .storeField name _ | .finalize name _ | .deferCall name _
  | .capture name _ => if name = x then [action] else []
  | .acquire name errVar _ declares =>
    if name = x then [action] else if declares then errVar.toList.map .declare else []
  | .delegate names => [.delegate (names.filter (· == x))]
  | .handOut names => [.handOut (names.filter (· == x))]
  | _ => [action]

/-- What is left of actions one after the other. -/
def trace (x : String) (actions : List Action) : List Action :=
  actions.flatMap (Action.only x)

/-- What is left of some actions and then others. -/
theorem trace_append (x : String) (a b : List Action) : trace x (a ++ b) = trace x a ++ trace x b :=
  List.flatMap_append

/-- What is left of an action and then others. -/
theorem trace_cons (x : String) (action : Action) (rest : List Action) :
    trace x (action :: rest) = action.only x ++ trace x rest :=
  List.flatMap_cons

/-! ## Scopes -/

theorem Scope.keeps_only (f : BindingId → Option BindingId) : Scope.Keeps (Scope.only f) where
  shape := fun _ => rfl
  terminated := fun _ => rfl
  children := fun _ _ => rfl
  armOf := fun _ _ => rfl
  terminate := fun _ => rfl
  fresh := fun _ _ _ => rfl

section Deferred

variable {f : BindingId → Option BindingId}
  (hf : ∀ {i j k : BindingId}, f i = some k → f j = some k → i = j) {i : BindingId}
include hf

/-- A deferred call rolls a binding back at its new position if it did. -/
theorem DeferRecord.rollsBack_only {k : BindingId} (hk : f i = some k) (record : DeferRecord) :
    (record.only f).rollsBack k = record.rollsBack i :=
  contains_filterMap_of_injective hf hk record.rollbacks

theorem Scope.rollsBack_only {k : BindingId} (hk : f i = some k) (scope : Scope) :
    (scope.only f).rollsBack k = scope.rollsBack i := by
  rw [rollsBack, rollsBack, only, List.any_map]
  exact List.any_congr rfl fun record => record.rollsBack_only hf hk

/-- Noting a rollback on a `defer` statement. -/
theorem DeferRecord.note_only {k : BindingId} (hk : f i = some k) (record : DeferRecord) :
    (record.only f).note k = (record.note i).only f := by
  rw [note, note, record.rollsBack_only hf hk]
  split
  · rfl
  · simp [only, hk]

/-- Noting it on the latest one of a scope. -/
theorem Scope.noteRollback_only {k : BindingId} (hk : f i = some k) (scope : Scope) :
    (scope.only f).noteRollback k = (scope.noteRollback i).only f := by
  have hmodify : (scope.defers.map (DeferRecord.only f)).modify (scope.defers.length - 1)
      (·.note k) = _ := modify_map fun record => record.note_only hf hk
  simp [noteRollback, only, ← hmodify]

omit hf in
/-- A rollback of a binding that goes leaves nothing. -/
theorem ScopeTree.only_noteDeferredRollback {tree tree' : ScopeTree} {scope : ScopeId}
    (hi : f i = none) (h : tree.noteDeferredRollback scope i = .ok tree') :
    tree'.mapScopes (Scope.only f) = tree.mapScopes (Scope.only f) := by
  have hscope : ∀ s : Scope, s.only f = (s.noteRollback i).only f := by
    intro s
    have hmodify : (s.defers.map (DeferRecord.only f)).modify (s.defers.length - 1) id = _ :=
      modify_map fun record => show record.only f = (record.note i).only f by
        rw [DeferRecord.note]
        split
        · rfl
        · simp [DeferRecord.only, hi]
    rw [List.modify_id] at hmodify
    simp [Scope.noteRollback, Scope.only, hmodify]
  have hmodify : (tree.mapScopes (Scope.only f)).modify scope id =
      (tree.noteDeferredRollback scope i).map (mapScopes (Scope.only f)) :=
    modify_mapScopes hscope
  rw [h] at hmodify
  obtain ⟨-, htree⟩ := of_modify hmodify
  rw [htree, List.modify_id]

end Deferred

namespace Walk

variable {roster : List String} {x : String} {w u : Walk}

/-- The bindings of the state know their positions, and their names stand in the roster there. -/
structure ListedIn (w : Walk) (roster : List String) : Prop where
  indexed : w.Indexed
  name : ∀ {i : Nat} {b : Binding}, w.bindings[i]? = some b → roster[i]? = some b.name

namespace ListedIn

theorem of_eq (h : w.ListedIn roster) (hbindings : u.bindings = w.bindings) :
    u.ListedIn roster where
  indexed := fun hget => h.indexed (hbindings ▸ hget)
  name := fun hget => h.name (hbindings ▸ hget)

variable {b : Binding} {g : Binding → Binding} {i : BindingId}

/-- A change of one binding that keeps its position and its name makes no difference. -/
theorem modifyBinding_iff (hid : ∀ b : Binding, (g b).id = b.id)
    (hname : ∀ b : Binding, (g b).name = b.name) :
    (w.modifyBinding i g).ListedIn roster ↔ w.ListedIn roster := by
  have hget : ∀ j : Nat, (w.modifyBinding i g).bindings[j]? =
      w.bindings[j]?.map fun b => if i = j then g b else b := fun j => List.getElem?_modify g i _ j
  have hkept : ∀ (j : Nat) (b : Binding), (if i = j then g b else b).id = b.id ∧
      (if i = j then g b else b).name = b.name := by
    intro j b
    split
    · exact ⟨hid b, hname b⟩
    · exact ⟨rfl, rfl⟩
  constructor
  · intro h
    have hnew : ∀ {j : Nat} {b : Binding}, w.bindings[j]? = some b →
        (w.modifyBinding i g).bindings[j]? = some (if i = j then g b else b) := by
      intro j b hb
      rw [hget, hb, Option.map_some]
    exact ⟨fun hb => (hkept _ _).1 ▸ h.indexed (hnew hb),
      fun hb => (hkept _ _).2 ▸ h.name (hnew hb)⟩
  · intro h
    constructor
    · intro j b' hb'
      obtain ⟨b, hb, rfl⟩ := Option.map_eq_some_iff.mp ((hget j).symm.trans hb')
      rw [(hkept j b).1, h.indexed hb]
    · intro j b' hb'
      obtain ⟨b, hb, rfl⟩ := Option.map_eq_some_iff.mp ((hget j).symm.trans hb')
      rw [(hkept j b).2, h.name hb]

variable (h : w.ListedIn roster)
include h

/-- A change of one binding that keeps its position and its name keeps the roster. -/
theorem modifyBinding (hid : ∀ b : Binding, (g b).id = b.id)
    (hname : ∀ b : Binding, (g b).name = b.name) : (w.modifyBinding i g).ListedIn roster :=
  (modifyBinding_iff hid hname).mpr h

/-- A binding has a new position if it is for the variable. -/
theorem rank_eq (hb : b ∈ w.bindings) :
    rank roster x b.id = if b.name = x then some ((roster.take b.id).count x) else none := by
  obtain ⟨i, hi⟩ := List.mem_iff_getElem?.mp hb
  rw [h.indexed hi, rank, h.name hi]
  simp only [Option.some.injEq]

/-- Something is left of a binding just if it is for the variable. -/
theorem isSome_only (hb : b ∈ w.bindings) : (b.only (rank roster x)).isSome = (b.name == x) := by
  rw [Binding.only, Option.isSome_map, h.rank_eq hb]
  by_cases hname : b.name = x <;> simp [hname]

/-- There are as many bindings left of the first ones as the roster tells. -/
theorem length_take {i : Nat} (hi : i ≤ w.bindings.length) :
    ((w.bindings.take i).filterMap (Binding.only (rank roster x))).length =
      (roster.take i).count x := by
  have hnames : roster.take i = (w.bindings.take i).map (·.name) := by
    refine List.ext_getElem? fun j => ?_
    rw [List.getElem?_map, List.getElem?_take, List.getElem?_take]
    split
    · rename_i hj
      obtain ⟨b, hb⟩ : ∃ b, w.bindings[j]? = some b :=
        ⟨_, List.getElem?_eq_getElem (Nat.lt_of_lt_of_le hj hi)⟩
      rw [hb, h.name hb, Option.map_some]
    · rfl
  rw [List.length_filterMap_eq_countP, hnames, List.count_eq_countP, List.countP_map]
  refine List.countP_congr fun b hb => ?_
  rw [h.isSome_only (List.mem_of_mem_take hb)]
  rfl

/-- The positions are in use as far as the table goes. -/
theorem length_only_le {i : Nat} (hle : w.bindings.length ≤ i) :
    (w.only roster x).bindings.length ≤ (roster.take i).count x := by
  have hlen := h.length_take (x := x) (Nat.le_refl w.bindings.length)
  rw [List.take_length] at hlen
  rw [show (w.only roster x).bindings.length = _ from hlen]
  exact (List.take_prefix_take_left hle).sublist.count_le x

/-- What is left of a binding for the variable is the binding at its new position. -/
theorem only_of_isSome {i : Nat} (hi : (rank roster x i).isSome = true)
    (hget : w.bindings[i]? = some b) : b.only (rank roster x) = some (b.moved roster x) := by
  rw [← h.indexed hget] at hi
  rw [Binding.only, rank_of_isSome hi]
  rfl

/-- A binding that stays is found at its new position. -/
theorem get_only {i : Nat} (hi : (rank roster x i).isSome = true) :
    (w.only roster x).bindings[(roster.take i).count x]? =
      w.bindings[i]?.map (Binding.moved roster x) := by
  cases hget : w.bindings[i]? with
  | none =>
    rw [Option.map_none, List.getElem?_eq_none_iff]
    exact h.length_only_le (List.getElem?_eq_none_iff.mp hget)
  | some b =>
    obtain ⟨hlt, hb⟩ := List.getElem?_eq_some_iff.mp hget
    -- the bindings before it fill the positions before the new one
    have hlen := h.length_take (x := x) hlt.le
    have hsplit : w.bindings = w.bindings.take i ++ b :: w.bindings.drop (i + 1) := by
      rw [← hb, ← List.drop_eq_getElem_cons hlt, List.take_append_drop]
    show (w.bindings.filterMap _)[_]? = _
    rw [hsplit, List.filterMap_append, List.getElem?_append_right hlen.le, hlen, Nat.sub_self,
      List.filterMap_cons, h.only_of_isSome hi hget]
    rfl

/-- A binding that stays may be modified at its new position. -/
theorem modify_only {g' : Binding → Binding} (hi : (rank roster x i).isSome = true)
    (hg : ∀ b : Binding, g' (b.moved roster x) = (g b).moved roster x)
    (hid : ∀ b : Binding, (g b).id = b.id) :
    (w.only roster x).modifyBinding ((roster.take i).count x) g' =
      (w.modifyBinding i g).only roster x := by
  have htable : (w.bindings.modify i g).filterMap (Binding.only (rank roster x)) =
      (w.bindings.filterMap (Binding.only (rank roster x))).modify ((roster.take i).count x)
        g' := by
    by_cases hlt : i < w.bindings.length
    · have hmember : ∀ b, w.bindings[i]? = some b →
          ∃ c, b.only (rank roster x) = some c ∧ (g b).only (rank roster x) = some (g' c) := by
        intro b hget
        refine ⟨_, h.only_of_isSome hi hget, ?_⟩
        rw [Binding.only, hid, h.indexed hget, rank_of_isSome hi, hg, Binding.moved, hid,
          h.indexed hget]
        rfl
      rw [filterMap_modify hmember, h.length_take hlt.le]
    · -- there is no such binding, so nothing changes
      rw [List.modify_eq_self (not_lt.mp hlt)]
      exact (List.modify_eq_self (h.length_only_le (not_lt.mp hlt))).symm
  exact congrArg (fun bindings => ({ w.only roster x with bindings } : Walk)) htable.symm

/-- Modifying one that goes makes no difference. -/
theorem only_modify (hi : rank roster x i = none) (hid : ∀ b : Binding, (g b).id = b.id) :
    (w.modifyBinding i g).only roster x = w.only roster x := by
  have htable : (w.bindings.modify i g).filterMap (Binding.only (rank roster x)) =
      w.bindings.filterMap (Binding.only (rank roster x)) := by
    refine filterMap_modify_of_none fun b hget => ?_
    simp [Binding.only, hid, h.indexed hget, hi]
  exact congrArg (fun bindings => ({ w.only roster x with bindings } : Walk)) htable

theorem ownedBy_only (scope : ScopeId) :
    (w.only roster x).ownedBy scope x = (w.ownedBy scope x).map (Binding.moved roster x) := by
  show ((w.bindings.filterMap _).reverse.find? _) = _
  have hfind : (w.bindings.reverse.find? fun b => (b.only (rank roster x)).any fun b =>
      b.name == x && b.home == scope && !b.retired) = w.ownedBy scope x := by
    refine List.find?_congr fun b hb => ?_
    have hrank := h.rank_eq (x := x) (List.mem_reverse.mp hb)
    by_cases hname : b.name = x <;> simp [Binding.only, hrank, hname]
  rw [← List.filterMap_reverse, List.find?_filterMap]
  refine (congrArg (Option.bind · _) hfind).trans ?_
  cases howned : w.ownedBy scope x with
  | none => rfl
  | some b =>
    obtain ⟨hmem, hname, -⟩ := of_ownedBy_eq_some howned
    rw [Option.bind_some, Binding.only, h.rank_eq hmem, if_pos hname]
    rfl

/-- What the name of the variable means stays, and what another name means goes. -/
theorem rank_of_resolve {name : String} {i : BindingId} (hresolve : w.resolve name = some i) :
    rank roster x i = if name = x then some ((roster.take i).count x) else none := by
  obtain ⟨b, hget, rfl, -⟩ := Indexed.get_of_resolve h.indexed hresolve
  have hrank := h.rank_eq (x := x) (List.mem_of_getElem? hget)
  rwa [h.indexed hget] at hrank

omit h in
/-- Waiting for the check of an error keeps the roster. -/
theorem awaitCheck_iff (i : BindingId) (errVar : Option String) :
    (w.awaitCheck i errVar).ListedIn roster ↔ w.ListedIn roster := by
  cases errVar with
  | none => rfl
  | some errName =>
    have hmodify : (w.modifyBinding i fun b => { b with errVar := some errName }).ListedIn roster ↔
        w.ListedIn roster := modifyBinding_iff (fun _ => rfl) fun _ => rfl
    exact ⟨fun h => hmodify.mp (h.of_eq rfl), fun h => (hmodify.mpr h).of_eq rfl⟩

end ListedIn

section

variable {name : String} {home acquiredIn : ScopeId} {span : Span}
  (hu : (w.addBinding name home acquiredIn span).2.ListedIn roster)
include hu

/-- A new binding has a new position if it is for the variable. -/
theorem rank_of_addBinding :
    rank roster x w.bindings.length =
      if name = x then some ((roster.take w.bindings.length).count x) else none :=
  hu.rank_eq (b := .new w.bindings.length name home acquiredIn span)
    (List.mem_append_right _ (List.mem_singleton.mpr rfl))

/-- The names of the others stood in the roster before. -/
theorem ListedIn.of_addBinding : w.ListedIn roster := by
  have hold : ∀ {i : Nat} {b : Binding}, w.bindings[i]? = some b →
      (w.addBinding name home acquiredIn span).2.bindings[i]? = some b := by
    intro i b hget
    exact (List.getElem?_append_left (List.getElem?_eq_some_iff.mp hget).1).trans hget
  exact ⟨fun hget => hu.indexed (hold hget), fun hget => hu.name (hold hget)⟩

/-- A new binding for the variable comes last among those that stay, and one for another variable
goes. -/
theorem addBinding_only : (w.addBinding name home acquiredIn span).2.only roster x =
    if name = x then ((w.only roster x).addBinding name home acquiredIn span).2
      else w.only roster x := by
  have hlen := hu.of_addBinding.length_take (x := x) (Nat.le_refl w.bindings.length)
  rw [List.take_length] at hlen
  have htable : (w.bindings ++ [Binding.new w.bindings.length name home acquiredIn span]).filterMap
      (Binding.only (rank roster x)) = (w.only roster x).bindings ++ if name = x then
        [Binding.new (w.only roster x).bindings.length name home acquiredIn span] else [] := by
    rw [List.filterMap_append, List.filterMap_cons, Binding.only]
    by_cases hname : name = x <;> simp [Binding.new, rank_of_addBinding hu, hname, ← hlen, only]
  refine (congrArg (fun bindings => ({ w.only roster x with bindings } : Walk)) htable).trans ?_
  split
  · rfl
  · rw [List.append_nil]

end

theorem lifts_only (roster : List String) (x : String) :
    Lifts (Scope.only (rank roster x)) (Walk.only roster x) where
  scopes := fun _ => rfl
  setScopes := fun _ _ => rfl
  constructs := fun _ => rfl

/-- The scopes that are left resemble those of the state. -/
theorem resembles_only (roster : List String) (x : String) (w : Walk) :
    w.scopes.Resembles (w.only roster x).scopes :=
  (Scope.keeps_only _).resembles w.scopes

end Walk

/-- Keeping the bindings for one variable. -/
def StateMap.only (roster : List String) (x : String) : StateMap where
  name := fun y => y
  id := fun i => (roster.take i).count x
  scope := Scope.only (rank roster x)
  binding := Binding.moved roster x
  state := Walk.only roster x
  stays := (· == x)
  keeps := fun i => (rank roster x i).isSome
  Fits := (·.ListedIn roster)
  id_injective := fun hi hj heq =>
    rank_injective (rank_of_isSome hi) (heq ▸ rank_of_isSome hj)
  scope_keeps := Scope.keeps_only _
  scope_declared := fun _ _ => rfl
  scope_declare := fun s y => by
    rw [Scope.declare, Scope.declare, apply_ite (Scope.only _)]
    rfl
  scope_noteRollback := fun s _ hi => s.noteRollback_only rank_injective (rank_of_isSome hi)
  binding_finalizedOnPath := fun _ _ =>
    Binding.finalizedOnPath_congr ⟨rfl, rfl, rfl, rfl⟩ ⟨rfl, rfl, fun _ _ _ _ => rfl⟩ rfl
  binding_any_capture := fun _ _ => rfl
  binding_record := fun _ _ _ => rfl
  lifts := Walk.lifts_only roster x
  fits_of_eq := Walk.ListedIn.of_eq
  fits_modify := Walk.ListedIn.modifyBinding
  fits_of_awaitCheck := (Walk.ListedIn.awaitCheck_iff _ _).mp
  get := fun hw => hw.get_only
  modify := fun hw => hw.modify_only
  drop := fun hw hi =>
    hw.only_modify (Option.isNone_iff_eq_none.mp (Option.isSome_eq_false_iff.mp hi))
  add := fun {w y} _ _ _ hu hname => by
    obtain rfl : y = x := eq_of_beq hname
    have hrank := (Walk.rank_of_addBinding hu).trans (if_pos rfl)
    have hlen := hu.of_addBinding.length_take (x := y) (Nat.le_refl w.bindings.length)
    rw [List.take_length] at hlen
    exact ⟨hrank ▸ rfl, Prod.ext hlen ((Walk.addBinding_only hu).trans (if_pos rfl)).symm⟩
  ownedBy := fun scope hw hname => by
    obtain rfl := eq_of_beq hname
    exact hw.ownedBy_only scope
  keeps_of_resolve := fun {w y i} hw hresolve => by
    have hrank : (rank roster x i).isSome = (y == x) := by
      rw [hw.rank_of_resolve hresolve]
      by_cases hname : y = x <;> simp [hname]
    refine ⟨hrank, fun b hget => ?_⟩
    obtain ⟨rfl, -⟩ := Walk.Indexed.of_resolve hw.indexed hresolve hget
    exact ⟨hw.indexed hget ▸ hrank, rfl⟩

namespace Walk

variable {roster : List String} {x : String} {w : Walk} (h : w.ListedIn roster)
include h

/-- The bindings that leaving the function would leak. -/
theorem exposed_only : (w.only roster x).exposed = w.exposed.filterMap (rank roster x) := by
  show ((w.bindings.filterMap _).filter _).map _ = _
  rw [exposed, List.filter_filterMap, List.map_filterMap, List.filterMap_map,
    List.filterMap_filter]
  refine List.filterMap_congr fun b hb => ?_
  rw [Binding.only, Function.comp]
  cases hk : rank roster x b.id with
  | none => simp
  | some k =>
    obtain rfl : b.name = x := by
      by_contra hname
      rw [h.rank_eq hb, if_neg hname] at hk
      cases hk
    have hresolve : ((w.only roster b.name).resolve b.name == some k) =
        (w.resolve b.name == some b.id) := by
      have hsame := (StateMap.only roster b.name).resolve (w := w) h (beq_self_eq_true b.name)
      rw [show (w.only roster b.name).resolve b.name = _ from hsame]
      cases hi : w.resolve b.name with
      | none => rfl
      | some i =>
        have hrank := (h.rank_of_resolve hi).trans (if_pos rfl)
        rw [Bool.eq_iff_iff, beq_iff_eq, beq_iff_eq, Option.map_some, ← hk, Option.some_inj]
        exact ⟨fun heq => rank_injective (hrank.trans (heq.trans hk)) hk,
          fun heq => heq ▸ hrank.symm⟩
    have hguarded : ((w.only roster b.name).context.guarded.any (·.contains k)) =
        w.context.guarded.any (·.contains b.id) := by
      show (w.context.guarded.map _).any _ = _
      rw [List.any_map]
      exact List.any_congr rfl fun ids => contains_filterMap_of_injective rank_injective hk ids
    have hpath : Binding.guardedOnPath { b with id := k } (w.only roster b.name).scopes =
        b.guardedOnPath w.scopes :=
      Binding.guardedOnPath_congr ⟨rfl, rfl, rfl, rfl⟩ (resembles_only roster b.name w) rfl
    have hescaped : Binding.isEscaped { b with id := k } = b.isEscaped := rfl
    simp only [Option.map_some, Option.filter_some, hescaped, hresolve, hguarded, hpath]
    split <;> rfl

end Walk

end TxLifecycle
