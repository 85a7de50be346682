import Mathlib.Data.List.Basic
import Mathlib.Data.String.Basic
import Mathlib.Order.Compare
import TxLifecycle.Report.Basic

/-!
# The order of reports

Reports are sorted by a merge sort, which is stable: entries that the order does not tell apart stay
as they were. So the sorted list is known from how each class of such entries is ordered before.

* `Ranks.mergeSort_eq`: lists that agree on each class of ties are sorted alike;
* `Path.compare_eq_iff`: paths tie exactly if they name the same place;
* `Diagnostic.Le`: the order of diagnostics, by file, then by position, then by name.
-/

namespace TxLifecycle

/-! ## Stable sorting -/

/-- The comparison ranks entries, with ties: it is transitive and total. -/
structure Ranks {α : Type} (le : α → α → Bool) : Prop where
  trans : ∀ a b c, le a b → le b c → le a c
  total : ∀ a b, le a b || le b a

/-- The comparison does not tell the entries apart. -/
def ties {α : Type} (le : α → α → Bool) (a b : α) : Bool :=
  le a b && le b a

/-- Entries tie if an order says that they are equal. -/
theorem ties_cmp_iff {α : Type} {cmp : α → α → Ordering} [Std.OrientedCmp cmp] {a b : α} :
    ties (fun a b => cmp a b != .gt) a b = true ↔ cmp a b = .eq := by
  have hswap : cmp b a = (cmp a b).swap := Std.OrientedCmp.eq_swap
  rw [ties, hswap]
  cases cmp a b <;> simp

namespace Ranks

variable {α : Type} {le : α → α → Bool} {l₁ l₂ : List α}

theorem of_cmp {cmp : α → α → Ordering} [Std.TransCmp cmp] :
    Ranks fun a b => cmp a b != .gt where
  trans := by
    intro a b c hab hbc
    simp only [bne_iff_ne, Ordering.isLE_iff_ne_gt.symm] at *
    exact Std.TransCmp.isLE_trans hab hbc
  total := by
    intro a b
    have hswap : cmp b a = (cmp a b).swap := Std.OrientedCmp.eq_swap
    rw [hswap]
    cases cmp a b <;> rfl

variable (h : Ranks le)
include h

theorem ties_self (a : α) : ties le a a = true := by
  simpa [ties] using h.total a a

/-- Entries that tie with one entry tie with each other. -/
theorem le_of_ties {a b c : α} (hb : ties le a b = true) (hc : ties le a c = true) :
    le b c = true := by
  rw [ties, Bool.and_eq_true] at hb hc
  exact h.trans b a c hb.2 hc.1

/-- Sorting keeps the order of entries that tie. -/
theorem filter_mergeSort {p : α → Bool} (hp : ∀ a b, p a = true → p b = true → le a b = true)
    (l : List α) : (l.mergeSort le).filter p = l.filter p := by
  have hties : (l.filter p).Pairwise fun a b => le a b = true := by
    refine List.Pairwise.imp_of_mem (fun {a b} ha hb _ => ?_)
      (List.pairwise_of_forall (R := fun _ _ => True) fun _ _ => trivial)
    exact hp a b (List.mem_filter.mp ha).2 (List.mem_filter.mp hb).2
  have hsublist : (l.filter p).Sublist ((l.mergeSort le).filter p) := by
    have hkept := (List.sublist_mergeSort h.trans h.total hties List.filter_sublist).filter p
    simpa only [List.filter_filter, Bool.and_self] using hkept
  -- nothing is lost, so the two are equal
  exact (hsublist.eq_of_length ((l.mergeSort_perm le).filter p).length_eq.symm).symm

/-- Lists that agree on each class of ties have the same entries. -/
theorem mem_iff (hclass : ∀ a, l₁.filter (ties le a) = l₂.filter (ties le a)) (a : α) :
    a ∈ l₁ ↔ a ∈ l₂ := by
  have hmem : a ∈ l₁.filter (ties le a) ↔ a ∈ l₂.filter (ties le a) := by rw [hclass]
  simpa [h.ties_self] using hmem

/-- The first entry of an ordered list is at most any other one. -/
theorem le_of_mem {a b : α} {l : List α} (hsorted : (a :: l).Pairwise fun a b => le a b = true)
    (hb : b ∈ a :: l) : le a b = true := by
  rcases List.mem_cons.mp hb with rfl | hb
  · simpa using h.total b b
  · exact List.rel_of_pairwise_cons hsorted hb

/-- Ordered lists that agree on each class of ties are equal. -/
theorem eq_of_filter_eq (h₁ : l₁.Pairwise fun a b => le a b = true)
    (h₂ : l₂.Pairwise fun a b => le a b = true)
    (hclass : ∀ a, l₁.filter (ties le a) = l₂.filter (ties le a)) : l₁ = l₂ := by
  induction l₁ generalizing l₂ with
  | nil =>
    refine (List.eq_nil_iff_forall_not_mem.mpr fun a ha => ?_).symm
    simpa using (h.mem_iff hclass a).mpr ha
  | cons a l₁ ih =>
    cases l₂ with
    | nil => simpa using (h.mem_iff hclass a).mp List.mem_cons_self
    | cons b l₂ =>
      -- the first entries tie, so they are the first ones of their class on both sides
      have htie : ties le a b = true := by
        rw [ties, h.le_of_mem h₁ ((h.mem_iff hclass b).mpr List.mem_cons_self),
          h.le_of_mem h₂ ((h.mem_iff hclass a).mp List.mem_cons_self)]
        rfl
      have hfirst := hclass a
      rw [List.filter_cons_of_pos (h.ties_self a), List.filter_cons_of_pos htie] at hfirst
      obtain ⟨rfl, -⟩ := List.cons.inj hfirst
      refine congrArg (a :: ·) (ih h₁.of_cons h₂.of_cons fun c => ?_)
      have hrest := hclass c
      by_cases hc : ties le c a = true
      · rw [List.filter_cons_of_pos hc, List.filter_cons_of_pos hc] at hrest
        exact (List.cons.inj hrest).2
      · rwa [List.filter_cons_of_neg hc, List.filter_cons_of_neg hc] at hrest

/-- Lists that agree on each class of ties are sorted alike. -/
theorem mergeSort_eq (hclass : ∀ a, l₁.filter (ties le a) = l₂.filter (ties le a)) :
    l₁.mergeSort le = l₂.mergeSort le := by
  refine h.eq_of_filter_eq (List.pairwise_mergeSort h.trans h.total _)
    (List.pairwise_mergeSort h.trans h.total _) fun a => ?_
  have hties : ∀ b c, ties le a b = true → ties le a c = true → le b c = true :=
    fun _ _ => h.le_of_ties
  rw [h.filter_mergeSort hties, h.filter_mergeSort hties, hclass]

end Ranks

/-- Entries are ordered as what is read off them. -/
theorem transCmp_on {α β : Type} {cmp : β → β → Ordering} [Std.TransCmp cmp] {f : α → β} :
    Std.TransCmp fun a b => cmp (f a) (f b) where
  eq_swap := fun {a b} => @Std.OrientedCmp.eq_swap β cmp _ (f a) (f b)
  isLE_trans := fun {a b c} => @Std.TransCmp.isLE_trans β cmp _ (f a) (f b) (f c)

/-! ## Paths -/

namespace Path

/-- The position of the kind of a component. -/
def Component.rank : Component → Nat
  | .root => 0
  | .here => 1
  | .parent => 2
  | .name _ => 3

/-- The text of a component that is a name. -/
def Component.text : Component → String
  | .name text => text
  | _ => ""

/-- The kind of a component and its text make it up. -/
theorem Component.ext {a b : Component} (hrank : a.rank = b.rank) (htext : a.text = b.text) :
    a = b := by
  cases a <;> cases b <;> first | rfl | cases hrank
  exact congrArg Component.name htext

/-- Components are compared by their kinds, then by their texts. -/
theorem Component.compare_eq :
    Component.compare = compareLex (compareOn Component.rank) (compareOn Component.text) := by
  funext a b
  cases a <;> cases b <;> rfl

instance : Std.TransCmp Component.compare :=
  Component.compare_eq ▸ inferInstance

instance : Std.LawfulEqCmp Component.compare where
  eq_of_compare := by
    intro a b h
    rw [Component.compare_eq, compareLex, Ordering.then_eq_eq] at h
    exact Component.ext (Std.LawfulEqOrd.eq_of_compare h.1) (Std.LawfulEqOrd.eq_of_compare h.2)

/-- Lists of components are compared by the first difference. -/
theorem compareComponents_eq : compareComponents = List.compareLex Component.compare := by
  funext as bs
  induction as generalizing bs with
  | nil => cases bs <;> rfl
  | cons a as ih =>
    cases bs with
    | nil => rfl
    | cons b bs => rw [compareComponents, ih, List.compareLex_cons_cons]

instance : Std.TransCmp compareComponents :=
  compareComponents_eq ▸ inferInstance

instance : Std.TransCmp Path.compare :=
  transCmp_on (f := components)

/-- Paths tie exactly if they name the same place. -/
theorem compare_eq_iff {a b : String} : Path.compare a b = .eq ↔ Path.same a b = true := by
  rw [Path.compare, compareComponents_eq, Std.LawfulEqCmp.compare_eq_iff_eq, same, beq_iff_eq]

end Path

/-! ## Diagnostics and failures -/

namespace Diagnostic

/-- The order of diagnostics: by file, then by position, then by name of the variable. -/
def Le (a b : Diagnostic) : Prop :=
  Path.compare a.file b.file = .lt ∨
    Path.same a.file b.file = true ∧
      (a.violation.span.start < b.violation.span.start ∨
        a.violation.span.start = b.violation.span.start ∧
          a.violation.variableName ≤ b.violation.variableName)

instance : Std.TransCmp Diagnostic.compare := by
  have hfile : Std.TransCmp fun a b : Diagnostic => Path.compare a.file b.file := transCmp_on
  exact inferInstanceAs (Std.TransCmp (compareLex
    (compareLex (fun a b : Diagnostic => Path.compare a.file b.file)
      (compareOn (·.violation.span.start))) (compareOn (·.violation.variableName))))

/-- Sorting compares diagnostics by that order. -/
theorem compare_ne_gt_iff {a b : Diagnostic} : a.compare b ≠ .gt ↔ a.Le b := by
  rw [Diagnostic.compare, Le, ← Path.compare_eq_iff]
  cases hfile : Path.compare a.file b.file with
  | lt => simp
  | gt => simp
  | eq =>
    cases hpos : Ord.compare a.violation.span.start b.violation.span.start with
    | lt => simp [compare_lt_iff_lt.mp hpos]
    | gt =>
      have hgt := compare_gt_iff_gt.mp hpos
      have hother : ¬ a.violation.span.start < b.violation.span.start ∧
          a.violation.span.start ≠ b.violation.span.start := by omega
      simp [hother]
    | eq => simp [compare_eq_iff_eq.mp hpos, compare_le_iff_le]

/-- Diagnostics tie if they are at one position of one file and about one name. -/
theorem compare_eq_iff {a b : Diagnostic} :
    a.compare b = .eq ↔ Path.same a.file b.file = true ∧
      a.violation.span.start = b.violation.span.start ∧
        a.violation.variableName = b.violation.variableName := by
  rw [Diagnostic.compare, Ordering.then_eq_eq, Ordering.then_eq_eq, Path.compare_eq_iff,
    Std.LawfulEqOrd.compare_eq_iff_eq, Std.LawfulEqOrd.compare_eq_iff_eq, and_assoc]

end Diagnostic

end TxLifecycle
