import TxLifecycle.Proofs.Amendments
import TxLifecycle.Proofs.Limits

/-!
# The table of bindings

What holds of the table at every moment of a walk, and what becomes of a binding while the walk
goes on:

* `ScopeTree.Orderly`: a variable holds one handle at a time, and was declared in the scope of its
  acquisition or around it;
* `Binding.Ages`: a binding keeps what it is called and where it comes from, its events are never
  taken back, and its acquiring scope moves outwards only.

Both are shown for one change of the table (`Walk.Amends`), then for one action, and then for any
stretch of the walk of a function. The main statement is `FunctionUnit.table_ages`.
-/

namespace TxLifecycle

/-- What may become of a binding, told by the scopes around the one in which it was acquired. -/
structure Binding.Ages (tree : ScopeTree) (b b' : Binding) : Prop where
  id_eq : b'.id = b.id
  name_eq : b'.name = b.name
  home_eq : b'.home = b.home
  /-- The statement of the first acquisition is kept. -/
  acquisition_eq : b'.acquisition = b.acquisition
  events : b.events <+: b'.events
  /-- A handle that is handed over stays so. -/
  escaped : b.escaped = true → b'.escaped = true
  /-- So does one that a later acquisition has replaced. -/
  retired : b.retired = true → b'.retired = true
  lastMention : b.lastMention ≤ b'.lastMention
  /-- The acquiring scope is kept, or it gives way to a scope around it. -/
  acquiredIn : b'.acquiredIn = b.acquiredIn ∨
    tree.isAncestor b'.acquiredIn b.acquiredIn = true ∧ b'.acquiredIn ≠ b.acquiredIn

namespace Binding.Ages

variable {tree tree' : ScopeTree} {b b' b'' : Binding}

theorem refl (tree : ScopeTree) (b : Binding) : b.Ages tree b :=
  ⟨rfl, rfl, rfl, rfl, List.prefix_rfl, fun h => h, fun h => h, Nat.le_refl _, Or.inl rfl⟩

theorem of_keeps (h : b.Keeps b') : b.Ages tree b' :=
  ⟨h.id_eq, h.name_eq, h.home_eq, h.acquisition_eq, h.events, h.escaped,
    fun hretired => h.retired_eq.trans hretired, h.lastMention, Or.inl h.acquiredIn_eq⟩

/-- The acquiring scope is one of the scopes around the old one. -/
theorem acquiredIn_mem (h : b.Ages tree b') :
    b'.acquiredIn ∈ tree.ancestors b.acquiredIn := by
  rcases h.acquiredIn with heq | ⟨hmem, -⟩
  · rw [heq]
    exact tree.self_mem_ancestors b.acquiredIn
  · exact ScopeTree.isAncestor_iff.mp hmem

theorem trans (hwf : tree.WellFormed) (h : b.Ages tree b') (h' : b'.Ages tree b'') :
    b.Ages tree b'' := by
  refine ⟨h'.id_eq.trans h.id_eq, h'.name_eq.trans h.name_eq, h'.home_eq.trans h.home_eq,
    h'.acquisition_eq.trans h.acquisition_eq, h.events.trans h'.events,
    fun he => h'.escaped (h.escaped he), fun hr => h'.retired (h.retired hr),
    Nat.le_trans h.lastMention h'.lastMention, ?_⟩
  have hmem := hwf.mem_ancestors_trans h'.acquiredIn_mem h.acquiredIn_mem
  by_cases heq : b''.acquiredIn = b.acquiredIn
  · exact Or.inl heq
  · exact Or.inr ⟨ScopeTree.isAncestor_iff.mpr hmem, heq⟩

/-- The scopes around a scope are the same in a tree that has grown. -/
theorem of_extends (hextends : tree.Extends tree') (hwf : tree.WellFormed)
    (hlt : b.acquiredIn < tree.scopes.length) (h : b.Ages tree' b') : b.Ages tree b' := by
  refine ⟨h.id_eq, h.name_eq, h.home_eq, h.acquisition_eq, h.events, h.escaped, h.retired,
    h.lastMention, ?_⟩
  rw [ScopeTree.isAncestor, ← hextends.ancestors hwf hlt]
  exact h.acquiredIn

end Binding.Ages

/-! ## One change -/

variable {f : Binding → Binding} {table : List Binding}

/-- A binding of a table in which one was changed. -/
theorem getElem?_modify_cases {id i : Nat} {b' : Binding} (h : (table.modify id f)[i]? = some b') :
    ∃ b, table[i]? = some b ∧ (b' = b ∨ i = id ∧ b' = f b) := by
  rw [List.getElem?_modify] at h
  obtain ⟨b, hb, rfl⟩ := Option.map_eq_some_iff.mp h
  refine ⟨b, hb, ?_⟩
  by_cases heq : id = i
  · exact Or.inr ⟨heq.symm, by simp [heq]⟩
  · exact Or.inl (by simp [heq])

/-- A binding in a table in which one is changed: it stays, or the change is made to it. -/
theorem exists_getElem?_modify {id i : Nat} {b : Binding} {R : Binding → Binding → Prop}
    (hget : table[i]? = some b) (hsame : R b b) (hchange : i = id → R b (f b)) :
    ∃ b', (table.modify id f)[i]? = some b' ∧ R b b' := by
  rw [List.getElem?_modify, hget]
  by_cases heq : id = i
  · exact ⟨f b, by simp [heq], hchange heq.symm⟩
  · exact ⟨b, by simp [heq], hsame⟩

namespace ScopeTree.Orderly

variable {tree tree' : ScopeTree} {table : List Binding} (h : tree.Orderly table)
include h

/-- One binding changes, and neither becomes another variable nor comes back into use. -/
theorem modify {id : BindingId} {f : Binding → Binding} (hname : ∀ b, (f b).name = b.name)
    (hhome : ∀ b, (f b).home = b.home) (hretired : ∀ b, (f b).retired = false → b.retired = false)
    (hplace : ∀ b, table[id]? = some b →
      b.home ∈ tree.ancestors (f b).acquiredIn ∧ (f b).acquiredIn < tree.scopes.length) :
    tree.Orderly (table.modify id f) where
  unique := by
    intro i j b b' hi hj hn hh hb hb'
    obtain ⟨c, hc, hchange⟩ := getElem?_modify_cases hi
    obtain ⟨c', hc', hchange'⟩ := getElem?_modify_cases hj
    -- what they were before the change stood under the same name and was in use as well
    have hsame : c.name = b.name ∧ c.home = b.home ∧ c.retired = false := by
      rcases hchange with rfl | ⟨-, rfl⟩
      · exact ⟨rfl, rfl, hb⟩
      · exact ⟨(hname c).symm, (hhome c).symm, hretired c hb⟩
    have hsame' : c'.name = b'.name ∧ c'.home = b'.home ∧ c'.retired = false := by
      rcases hchange' with rfl | ⟨-, rfl⟩
      · exact ⟨rfl, rfl, hb'⟩
      · exact ⟨(hname c').symm, (hhome c').symm, hretired c' hb'⟩
    exact h.unique hc hc' (by rw [hsame.1, hsame'.1, hn]) (by rw [hsame.2.1, hsame'.2.1, hh])
      hsame.2.2 hsame'.2.2
  home := by
    intro i b hi
    obtain ⟨c, hc, rfl | ⟨rfl, rfl⟩⟩ := getElem?_modify_cases hi
    · exact h.home hc
    · rw [hhome]
      exact (hplace c hc).1
  placed := by
    intro i b hi
    obtain ⟨c, hc, rfl | ⟨rfl, rfl⟩⟩ := getElem?_modify_cases hi
    · exact h.placed hc
    · exact (hplace c hc).2

/-- A binding is added for a variable that holds none. -/
theorem append {fresh : Binding}
    (hfree : ∀ b ∈ table, b.name = fresh.name → b.home = fresh.home → b.retired = true)
    (hhome : fresh.home ∈ tree.ancestors fresh.acquiredIn)
    (hplaced : fresh.acquiredIn < tree.scopes.length) : tree.Orderly (table ++ [fresh]) := by
  have hcases : ∀ {i : Nat} {b : Binding}, (table ++ [fresh])[i]? = some b →
      table[i]? = some b ∨ i = table.length ∧ b = fresh := by
    intro i b hget
    rw [List.getElem?_append] at hget
    split at hget
    · exact Or.inl hget
    · rw [List.getElem?_singleton] at hget
      split at hget
      · exact Or.inr ⟨by omega, (Option.some.inj hget).symm⟩
      · cases hget
  refine ⟨?_, ?_, ?_⟩
  · -- an old binding of the same variable is retired, so it is not one of the two
    intro i j b b' hi hj hn hh hb hb'
    rcases hcases hi with hold | ⟨rfl, rfl⟩
    · rcases hcases hj with hold' | ⟨rfl, rfl⟩
      · exact h.unique hold hold' hn hh hb hb'
      · have hretired := hfree b (List.mem_of_getElem? hold) hn hh
        rw [hb] at hretired
        cases hretired
    · rcases hcases hj with hold' | ⟨rfl, -⟩
      · have hretired := hfree b' (List.mem_of_getElem? hold') hn.symm hh.symm
        rw [hb'] at hretired
        cases hretired
      · rfl
  · intro i b hi
    rcases hcases hi with hi | ⟨-, rfl⟩
    · exact h.home hi
    · exact hhome
  · intro i b hi
    rcases hcases hi with hi | ⟨-, rfl⟩
    · exact h.placed hi
    · exact hplaced

theorem of_extends (hextends : tree.Extends tree') (hwf : tree.WellFormed) :
    tree'.Orderly table where
  unique := h.unique
  home := fun hget => by
    rw [hextends.ancestors hwf (h.placed hget)]
    exact h.home hget
  placed := fun hget => Nat.lt_of_lt_of_le (h.placed hget) hextends.length

end ScopeTree.Orderly

namespace Walk

variable {limits : Limits} {w w' u : Walk} {action : Action} {table table' : List Binding}
  {b : Binding} {i : Nat}

/-- A change of the table leaves it in order. -/
theorem Amends.orderly (hwf : w.WellFormed) (h : w.Amends action table table')
    (horderly : w.scopes.Orderly table) : w.scopes.Orderly table' := by
  cases h with
  | note id hkeeps =>
    refine horderly.modify (fun b => (hkeeps b).name_eq) (fun b => (hkeeps b).home_eq)
      (fun b hb => (hkeeps b).retired_eq ▸ hb) fun b hb => ?_
    rw [(hkeeps b).acquiredIn_eq]
    exact ⟨horderly.home hb, horderly.placed hb⟩
  | retire hresolve =>
    refine horderly.modify (fun _ => rfl) (fun _ => rfl) (fun b hb => by cases hb) fun b hb => ?_
    have hhome := horderly.home hb
    have hplaced := horderly.placed hb
    exact ⟨hhome, hplaced⟩
  | @merge name errVar span declares table id b merged hresolve hget hmerged hmoved hhome =>
    refine horderly.modify (fun _ => rfl) (fun _ => rfl) (fun b hb => hb) fun c hc => ?_
    rw [hget, Option.some.injEq] at hc
    subst hc
    exact ⟨hhome, Nat.lt_of_le_of_lt (hwf.tree.le_of_mem_ancestors hmerged) (horderly.placed hget)⟩
  | add hhome hfree =>
    exact horderly.append hfree (hwf.tree.stack_eq ▸ hhome) hwf.tree.current_lt

/-- A change of the table lets its bindings age. -/
theorem Amends.ages (h : w.Amends action table table') (hget : table[i]? = some b) :
    ∃ b', table'[i]? = some b' ∧ b.Ages w.scopes b' := by
  cases h with
  | note id hkeeps =>
    exact exists_getElem?_modify hget (.refl w.scopes b) fun _ => .of_keeps (hkeeps b)
  | retire hresolve =>
    exact exists_getElem?_modify hget (.refl w.scopes b) fun _ =>
      ⟨rfl, rfl, rfl, rfl, List.prefix_rfl, fun h => h, fun _ => rfl, Nat.le_refl _, Or.inl rfl⟩
  | merge hresolve hold hmerged hmoved hhome =>
    refine exists_getElem?_modify hget (.refl w.scopes b) fun heq => ?_
    rw [← heq, hget, Option.some.injEq] at hold
    subst hold
    exact ⟨rfl, rfl, rfl, rfl, List.prefix_rfl, fun h => h, fun h => h, Nat.le_refl _,
      Or.inr ⟨ScopeTree.isAncestor_iff.mpr hmerged, hmoved⟩⟩
  | add hhome hfree =>
    refine ⟨b, ?_, .refl w.scopes b⟩
    rw [List.getElem?_append_left (List.getElem?_eq_some_iff.mp hget).1, hget]

/-! ## One action -/

/-- Running an action leaves the table in order. -/
theorem exec_orderly (hwf : w.WellFormed) (horderly : w.scopes.Orderly w.bindings)
    (h : w.exec limits action = .ok u) : u.scopes.Orderly u.bindings := by
  have htable : ∀ {table : List Binding},
      Relation.ReflTransGen (w.Amends action) w.bindings table → w.scopes.Orderly table := by
    intro table hamends
    induction hamends with
    | refl => exact horderly
    | tail _ hamend ih => exact hamend.orderly hwf ih
  exact (htable (exec_amends hwf horderly h)).of_extends (exec_extends hwf.indexed h) hwf.tree

/-- Running an action lets the bindings of the table age. -/
theorem exec_ages (hwf : w.WellFormed) (horderly : w.scopes.Orderly w.bindings)
    (h : w.exec limits action = .ok u) (hget : w.bindings[i]? = some b) :
    ∃ b', u.bindings[i]? = some b' ∧ b.Ages w.scopes b' := by
  have htable : ∀ {table : List Binding},
      Relation.ReflTransGen (w.Amends action) w.bindings table →
      ∃ b', table[i]? = some b' ∧ b.Ages w.scopes b' := by
    intro table hamends
    induction hamends with
    | refl => exact ⟨b, hget, .refl w.scopes b⟩
    | tail _ hamend ih =>
      obtain ⟨b', hget', hages⟩ := ih
      obtain ⟨b'', hget'', hages'⟩ := hamend.ages hget'
      exact ⟨b'', hget'', hages.trans hwf.tree hages'⟩
  exact htable (exec_amends hwf horderly h)

/-! ## Runs -/

theorem orderly_init : ({} : Walk).scopes.Orderly ({} : Walk).bindings where
  unique := fun hi _ => by cases hi
  home := fun hi => by cases hi
  placed := fun hi => by cases hi

/-- A run leaves the table in order, and its bindings age. -/
theorem Sound.ages {actions : List Action} (h : w.Sound limits actions)
    (hrun : w.run limits actions = .ok w') (horderly : w.scopes.Orderly w.bindings) :
    w'.scopes.Orderly w'.bindings ∧ ∀ {i : Nat} {b : Binding}, w.bindings[i]? = some b →
      ∃ b', w'.bindings[i]? = some b' ∧ b.Ages w.scopes b' := by
  have hwf := h.wellFormed
  have hkept := h.preserves (P := fun v => w.scopes.Extends v.scopes ∧
      v.scopes.Orderly v.bindings ∧ ∀ {i : Nat} {b : Binding}, w.bindings[i]? = some b →
        ∃ b', v.bindings[i]? = some b' ∧ b.Ages w.scopes b') hrun ?_
    ⟨.refl w.scopes, horderly, fun hget => ⟨_, hget, .refl w.scopes _⟩⟩
  · exact hkept.2
  · rintro u v action - huwf hexec ⟨hextends, huorderly, hages⟩
    refine ⟨hextends.trans (exec_extends huwf.indexed hexec),
      exec_orderly huwf huorderly hexec, fun {i b} hget => ?_⟩
    obtain ⟨b', hget', hfirst⟩ := hages hget
    obtain ⟨b'', hget'', hsecond⟩ := exec_ages huwf huorderly hexec hget'
    -- the acquiring scope is old, so the scopes around it are those of the first tree
    have hlt : b'.acquiredIn < w.scopes.scopes.length :=
      Nat.lt_of_le_of_lt (hwf.tree.le_of_mem_ancestors hfirst.acquiredIn_mem)
        (horderly.placed hget)
    exact ⟨b'', hget'', hfirst.trans hwf.tree (hsecond.of_extends hextends hwf.tree hlt)⟩

end Walk

namespace FunctionUnit

variable (limits : Limits) (names : Recognizers) (unit : FunctionUnit)

/-- At every moment of a walk each binding stands at the position that it knows, no variable holds
two handles, and the scope of each variable lies around the scope of its acquisition. While the walk
goes on, bindings are added at the end only; those that are there keep their place, their variable
and their first acquisition, their events are never taken back, and their acquiring scope moves
outwards if at all. -/
theorem table_ages {w w' : Walk} (h : unit.Visits limits names w w') :
    w.Indexed ∧ w.scopes.Orderly w.bindings ∧
    ∀ {i : Nat} {b : Binding}, w.bindings[i]? = some b →
      ∃ b', w'.bindings[i]? = some b' ∧ b.Ages w.scopes b' := by
  obtain ⟨before, between, rest, hactions, hrun, hrun'⟩ := h
  have hsound := sound_of_actions limits hactions
  have horderly := (hsound.take.ages hrun Walk.orderly_init).1
  have hrest := hsound.drop hrun
  exact ⟨hrest.wellFormed.indexed, horderly, (hrest.take.ages hrun' horderly).2⟩

/-- A function whose variable receives a handle on one of two branches, and another handle once that
is rolled back. -/
def reopened : FunctionUnit where
  name := "Reopen"
  body := {
    stmts := [
      .varDecl ["tx"] [] {},
      .ifStmt {
        init := none
        cond := .ident "primary" {}
        consequence := {
          stmts := [.assign [.ident "tx" {}]
            [.call (.selector (.ident "db" {}) "MustBegin" {}) [] {}] {}]
          span := {} }
        otherwise := some (.block {
          stmts := [.assign [.ident "tx" {}]
            [.call (.selector (.ident "replica" {}) "MustBegin" {}) [] {}] {}]
          span := {} })
        span := {} },
      .exprStmt (.call (.selector (.ident "tx" {}) "Rollback" {}) [] {}) {},
      .assign [.ident "tx" {}] [.call (.selector (.ident "db" {}) "MustBegin" {}) [] {}] {}]
    span := {} }

/-- From its acquisition on the first branch to the end of the function, the first binding of that
function moves from the branch into the function's own scope, is rolled back and is replaced. -/
theorem table_ages_reopened :
    ∃ (w w' : Walk) (b b' : Binding), reopened.Visits {} {} w w' ∧ w.bindings = [b] ∧
      w'.bindings[0]? = some b' ∧ w'.bindings.length = 2 ∧
      b.acquiredIn = 1 ∧ b'.acquiredIn = 0 ∧ b.retired = false ∧ b'.retired = true ∧
      b.id = 0 ∧ b.Ages w.scopes b' := by
  have hwalk : ∃ (w w' : Walk) (b b' : Binding), reopened.Visits {} {} w w' ∧ w.bindings = [b] ∧
      w'.bindings[0]? = some b' ∧ w'.bindings.length = 2 ∧
      b.acquiredIn = 1 ∧ b'.acquiredIn = 0 ∧ b.retired = false ∧ b'.retired = true :=
    ⟨_, _, _, _, ⟨(reopened.actions {}).take 21, (reopened.actions {}).drop 21, [], rfl, rfl, rfl⟩,
      rfl, rfl, rfl, rfl, rfl, rfl, rfl⟩
  obtain ⟨w, w', b, b', hvisits, hbindings, hb', hlength, hin, hin', hretired, hretired'⟩ := hwalk
  obtain ⟨hindexed, -, hages⟩ := table_ages {} {} reopened hvisits
  have hb : w.bindings[0]? = some b := by rw [hbindings]; rfl
  obtain ⟨c, hc, hage⟩ := hages hb
  obtain rfl : c = b' := Option.some.inj (hc.symm.trans hb')
  exact ⟨w, w', b, c, hvisits, hbindings, hb', hlength, hin, hin', hretired, hretired',
    hindexed hb, hage⟩

end FunctionUnit

end TxLifecycle
