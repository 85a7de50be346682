import Mathlib.Algebra.BigOperators.Group.List.Basic
import Mathlib.Algebra.GroupWithZero.Nat
import TxLifecycle.Project
import TxLifecycle.Proofs.Limits
import TxLifecycle.Proofs.Sorting

/-!
# Files checked in any order

The files of a run are checked by several workers, which deliver what they have found in the order
in which they finish. The report is the same for every such order: each file is checked once, its
diagnostics are delivered together, and sorting is stable.

* `Batch`: what is delivered for one file;
* `Host.Findings.collect_eq`: what batches leave when they are taken in one after the other;
* `Batch.filter_flatMap_perm`: entries that are told apart by their files keep their order whatever
  the order of the batches;
* `Host.checkPaths_eq_of_perm`: the report of a run is the one of every order of its files.

The main statement is `Host.Findings.collect_scheduled`.
-/

namespace TxLifecycle

/-! ## Batches -/

/-- What a worker delivers for one file: diagnostics that are all in the file, or a failure that
does not end the run. -/
structure Batch where
  path : String
  outcome : Except CheckError FileFindings
  placed : ∀ checked, outcome = .ok checked →
    ∀ d ∈ checked.diagnostics, Path.same d.file path = true
  /-- A failure is not one of the analysis. -/
  contained : ∀ file function cause, outcome ≠ .error (.analysis file function cause)

namespace Batch

/-- Number of functions that were looked at. -/
def functions (batch : Batch) : Nat :=
  match batch.outcome with
  | .ok checked => checked.functions
  | .error _ => 0

/-- The diagnostics, in the order in which checking gives them. -/
def diagnostics (batch : Batch) : List Diagnostic :=
  match batch.outcome with
  | .ok checked => checked.diagnostics
  | .error _ => []

/-- The failure, if there is one. -/
def failures (batch : Batch) : List FileFailure :=
  match batch.outcome with
  | .ok _ => []
  | .error e => [FileFailure.ofError batch.path e]

theorem same_of_mem_diagnostics (batch : Batch) {d : Diagnostic} (h : d ∈ batch.diagnostics) :
    Path.same d.file batch.path = true := by
  unfold diagnostics at h
  split at h
  · exact batch.placed _ ‹_› d h
  · cases h

theorem same_of_mem_failures (batch : Batch) {failure : FileFailure}
    (h : failure ∈ batch.failures) : Path.same failure.file batch.path = true := by
  unfold failures at h
  split at h
  · cases h
  · obtain rfl := List.mem_singleton.mp h
    simp [Path.same, FileFailure.ofError]

/-- No two batches are of the same file. -/
def Distinct (batches : List Batch) : Prop :=
  batches.Pairwise fun a b => Path.same a.path b.path = false

theorem Distinct.perm {batches order : List Batch} (h : Distinct batches)
    (horder : order.Perm batches) : Distinct order := by
  refine (horder.pairwise_iff fun {a b} hother => ?_).mpr h
  rwa [Path.same, Bool.beq_comm]

/-- A list is put together from parts in any order, if no two parts have anything to give. -/
theorem flatMap_perm {α β : Type} {f : α → List β} {l₁ l₂ : List α} (hperm : l₁.Perm l₂)
    (hone : l₁.Pairwise fun a b => f a = [] ∨ f b = []) : l₁.flatMap f = l₂.flatMap f := by
  induction hperm with
  | nil => rfl
  | cons a _ ih => rw [List.flatMap_cons, List.flatMap_cons, ih hone.of_cons]
  | swap a b l =>
    have hfirst := List.rel_of_pairwise_cons hone List.mem_cons_self
    simp only [List.flatMap_cons]
    rcases hfirst with hnil | hnil <;> simp [hnil]
  | trans hfirst _ ih₁ ih₂ =>
    rw [ih₁ hone, ih₂ ((hfirst.pairwise_iff fun h => Or.symm h).mp hone)]

section Entries

variable {ε : Type} {entries : Batch → List ε} (file : ε → String) {p : ε → Bool}
  {batches order : List Batch}

/-- Entries of one file keep their order whatever the order of the batches. -/
theorem filter_flatMap_perm
    (hfile : ∀ batch, ∀ e ∈ entries batch, Path.same (file e) batch.path = true)
    (hp : ∀ a b, p a = true → p b = true → Path.same (file a) (file b) = true)
    (hdistinct : Distinct batches) (horder : order.Perm batches) :
    (order.flatMap entries).filter p = (batches.flatMap entries).filter p := by
  rw [List.filter_flatMap, List.filter_flatMap]
  refine (flatMap_perm horder.symm (hdistinct.imp fun {a b} hother => ?_)).symm
  -- two batches with such entries would be of the same file
  by_contra hboth
  rw [not_or] at hboth
  obtain ⟨e, he⟩ := List.exists_mem_of_ne_nil _ hboth.1
  obtain ⟨e', he'⟩ := List.exists_mem_of_ne_nil _ hboth.2
  obtain ⟨he, hpe⟩ := List.mem_filter.mp he
  obtain ⟨he', hpe'⟩ := List.mem_filter.mp he'
  have ha := hfile a e he
  have hb := hfile b e' he'
  have hsame := hp e e' hpe hpe'
  simp only [Path.same, beq_iff_eq, beq_eq_false_iff_ne] at *
  exact hother (ha.symm.trans (hsame.trans hb))

/-- Entries of the file of a batch come from the batch. -/
theorem filter_flatMap_of_mem
    (hfile : ∀ batch, ∀ e ∈ entries batch, Path.same (file e) batch.path = true)
    (hdistinct : Distinct batches) {batch : Batch} (hbatch : batch ∈ batches)
    (hp : ∀ e, p e = true → Path.same (file e) batch.path = true) :
    (batches.flatMap entries).filter p = (entries batch).filter p := by
  obtain ⟨before, after, rfl⟩ := List.append_of_mem hbatch
  have hone : ∀ a b, p a = true → p b = true → Path.same (file a) (file b) = true := by
    intro a b ha hb
    have hsame := hp a ha
    have hsame' := hp b hb
    simp only [Path.same, beq_iff_eq] at *
    exact hsame.trans hsame'.symm
  -- with the batch in front, the others have nothing to give
  have hrest : ((before ++ after).flatMap entries).filter p = [] := by
    refine List.filter_eq_nil_iff.mpr fun e he hpe => ?_
    obtain ⟨other, hother, he⟩ := List.mem_flatMap.mp he
    have hne := List.rel_of_pairwise_cons (hdistinct.perm List.perm_middle.symm) hother
    have hsame := hp e hpe
    have hsame' := hfile other e he
    simp only [Path.same, beq_iff_eq, beq_eq_false_iff_ne] at *
    exact hne (hsame.symm.trans hsame')
  rw [← filter_flatMap_perm file hfile hone hdistinct List.perm_middle.symm, List.flatMap_cons,
    List.filter_append, hrest, List.append_nil]

/-- Entries that are told apart by their files are sorted alike whatever the order of the
batches. -/
theorem mergeSort_flatMap_perm {cmp : ε → ε → Ordering} [Std.TransCmp cmp]
    (hfile : ∀ batch, ∀ e ∈ entries batch, Path.same (file e) batch.path = true)
    (hcmp : ∀ {a b}, cmp a b = .eq → Path.same (file a) (file b) = true)
    (hdistinct : Distinct batches) (horder : order.Perm batches) :
    ((order.flatMap entries).mergeSort fun a b => cmp a b != .gt) =
      (batches.flatMap entries).mergeSort fun a b => cmp a b != .gt := by
  refine Ranks.of_cmp.mergeSort_eq fun a => filter_flatMap_perm file hfile ?_ hdistinct horder
  intro b c hb hc
  have hsame := hcmp (ties_cmp_iff.mp hb)
  have hsame' := hcmp (ties_cmp_iff.mp hc)
  simp only [Path.same, beq_iff_eq] at *
  exact hsame.symm.trans hsame'

end Entries

end Batch

/-! ## Taking batches in -/

namespace Host.Findings

variable {batches order : List Batch}

/-- Take batches in, one after the other. -/
def collect (batches : List Batch) : Except CheckError Findings :=
  batches.foldlM (fun findings batch => findings.add batch.path batch.outcome) {}

theorem add_batch (findings : Findings) (batch : Batch) :
    findings.add batch.path batch.outcome = .ok
      { functions := findings.functions + batch.functions
        sink := {
          diagnostics := findings.sink.diagnostics ++ batch.diagnostics
          failures := findings.sink.failures ++ batch.failures } } := by
  rw [Batch.functions, Batch.diagnostics, Batch.failures]
  cases houtcome : batch.outcome with
  | ok checked => simp [add, Sink.extend]
  | error e =>
    cases e with
    | analysis file function cause => exact absurd houtcome (batch.contained file function cause)
    | _ => simp [add, Sink.fail]

theorem collect_eq (batches : List Batch) :
    collect batches = .ok
      { functions := (batches.map Batch.functions).sum
        sink := {
          diagnostics := batches.flatMap Batch.diagnostics
          failures := batches.flatMap Batch.failures } } := by
  have hfold : ∀ findings : Findings,
      batches.foldlM (fun findings batch => findings.add batch.path batch.outcome) findings = .ok
        { functions := findings.functions + (batches.map Batch.functions).sum
          sink := {
            diagnostics := findings.sink.diagnostics ++ batches.flatMap Batch.diagnostics
            failures := findings.sink.failures ++ batches.flatMap Batch.failures } } := by
    induction batches with
    | nil => simp [pure, Except.pure]
    | cons batch batches ih =>
      intro findings
      rw [List.foldlM_cons, add_batch]
      refine (ih _).trans ?_
      simp [Nat.add_assoc]
  rw [collect, hfold]
  simp

/-- What is reported on distinct files does not depend on the order in which they are taken in. -/
theorem sorted_eq_of_perm (hdistinct : Batch.Distinct batches) (horder : order.Perm batches) :
    ∃ findings findings' : Findings, collect batches = .ok findings ∧
      collect order = .ok findings' ∧ findings'.functions = findings.functions ∧
      findings'.sink.sortedDiagnostics = findings.sink.sortedDiagnostics ∧
      findings'.sink.sortedFailures = findings.sink.sortedFailures := by
  refine ⟨_, _, collect_eq batches, collect_eq order, (horder.map Batch.functions).sum_eq, ?_, ?_⟩
  · refine Batch.mergeSort_flatMap_perm Diagnostic.file
      (fun batch d => batch.same_of_mem_diagnostics) (fun heq => ?_) hdistinct horder
    exact (Diagnostic.compare_eq_iff.mp heq).1
  · have hcmp : Std.TransCmp fun a b : FileFailure => Path.compare a.file b.file := transCmp_on
    exact Batch.mergeSort_flatMap_perm FileFailure.file
      (fun batch failure => batch.same_of_mem_failures) Path.compare_eq_iff.mp hdistinct horder

end Host.Findings

/-! ## A whole run -/

namespace Host

variable {host : Host} {config : AnalysisConfig} {settings : Settings} {paths order : List String}

/-- What a worker delivers for a file of the host. -/
def batch (host : Host) (config : AnalysisConfig) (path : String) : Batch where
  path
  outcome := host.checkFile config path
  placed := by
    intro checked hchecked d hd
    unfold checkFile AnalysisConfig.checkContent at hchecked
    repeat' split at hchecked
    all_goals cases hchecked
    obtain ⟨v, -, rfl⟩ := List.mem_map.mp hd
    simp [Path.same]
  contained := by
    intro file function cause hfailed
    unfold checkFile AnalysisConfig.checkContent at hfailed
    repeat' split at hfailed
    all_goals cases hfailed
    -- the functions of a file are checked without failures
    rename_i hcheck
    rw [AnalysisConfig.checkFile, config.foldlM_add] at hcheck
    cases hcheck

/-- Dropping repetitions leaves some of the paths. -/
theorem withoutRepeats_subset (paths : List String) : withoutRepeats paths ⊆ paths := by
  fun_induction withoutRepeats paths with
  | case1 | case2 => simp
  | case3 a b rest _ ih =>
    intro path hpath
    rcases List.mem_cons.mp (ih hpath) with rfl | hpath
    · simp
    · simp [hpath]
  | case4 a b rest _ ih =>
    intro path hpath
    rcases List.mem_cons.mp hpath with rfl | hpath
    · simp
    · exact List.mem_cons_of_mem _ (ih hpath)

/-- Ordered paths are distinct once repetitions are dropped. -/
theorem pairwise_withoutRepeats (h : paths.Pairwise fun a b => (Path.compare a b).isLE = true) :
    (withoutRepeats paths).Pairwise fun a b => Path.compare a b = .lt := by
  fun_induction withoutRepeats paths with
  | case1 | case2 => simp
  | case3 a b rest _ ih => exact ih (h.sublist (List.sublist_cons_self b rest |>.cons_cons a))
  | case4 a b rest hother ih =>
    refine List.pairwise_cons.mpr ⟨fun path hpath => ?_, ih h.of_cons⟩
    have hless : Path.compare a b = .lt := by
      have hle := List.rel_of_pairwise_cons h List.mem_cons_self
      have hne : Path.compare a b ≠ .eq := fun heq => hother (Path.compare_eq_iff.mp heq)
      cases hcompare : Path.compare a b <;> simp_all
    rcases List.mem_cons.mp (withoutRepeats_subset _ hpath) with rfl | hrest
    · exact hless
    · exact Std.TransCmp.lt_of_lt_of_isLE hless (List.rel_of_pairwise_cons h.of_cons hrest)

/-- The sources of a run are distinct. -/
theorem distinct_sourceFiles (host : Host) (settings : Settings) (paths : List String) :
    Batch.Distinct ((host.sourceFiles settings paths).map (host.batch config)) := by
  have hranks : Ranks fun a b => Path.compare a b != .gt := .of_cmp
  have hsorted := List.pairwise_mergeSort hranks.trans hranks.total
  refine List.pairwise_map.mpr ((pairwise_withoutRepeats ((hsorted _).imp fun hle => ?_)).imp ?_)
  · simpa [Ordering.isLE_iff_ne_gt] using hle
  · intro a b hless
    change Path.same a b = false
    rw [Bool.eq_false_iff, ne_eq, ← Path.compare_eq_iff, hless]
    decide

/-- The report of a run is the one of every order of its files. -/
theorem checkPaths_eq_of_perm (hexists : ∀ path ∈ paths, host.pathExists path = true)
    (horder : order.Perm (host.sourceFiles settings paths)) :
    ∃ findings, Findings.collect (order.map (host.batch settings.analysis)) = .ok findings ∧
      host.checkPaths settings paths = .ok {
        filesChecked := order.length
        functionsChecked := findings.functions
        diagnostics := findings.sink.sortedDiagnostics
        failures := findings.sink.sortedFailures } := by
  obtain ⟨findings, findings', hcollect, hcollect', hfunctions, hdiagnostics, hfailures⟩ :=
    Findings.sorted_eq_of_perm (host.distinct_sourceFiles settings paths)
      (horder.map (host.batch settings.analysis))
  refine ⟨findings', hcollect', ?_⟩
  have hfound : paths.find? (!host.pathExists ·) = none :=
    List.find?_eq_none.mpr fun path hpath => by simp [hexists path hpath]
  rw [Findings.collect, List.foldlM_map] at hcollect
  rw [hfunctions, hdiagnostics, hfailures, horder.length_eq, checkPaths, hfound]
  exact congrArg (· >>= _) hcollect

end Host

/-! ## Every order of delivery -/

namespace Host.Findings

variable {batches order : List Batch}

/-- The report does not depend on scheduling. Whatever the order in which the batches of distinct
files are delivered, the sorted diagnostics and failures are the same; no diagnostic is lost or
duplicated; they are ordered by file, position and name; those of one file that tie stay in the
order of their batch; and the functions add up to the same number. -/
theorem collect_scheduled (hdistinct : Batch.Distinct batches) (horder : order.Perm batches) :
    ∃ findings findings' : Findings, collect batches = .ok findings ∧
      collect order = .ok findings' ∧
      findings'.sink.sortedDiagnostics = findings.sink.sortedDiagnostics ∧
      findings'.sink.sortedFailures = findings.sink.sortedFailures ∧
      findings'.sink.sortedDiagnostics.Perm (order.flatMap Batch.diagnostics) ∧
      findings'.sink.sortedFailures.Perm (order.flatMap Batch.failures) ∧
      findings'.sink.sortedDiagnostics.Pairwise Diagnostic.Le ∧
      (∀ batch ∈ batches, ∀ (pos : Nat) (name : String),
        (findings'.sink.sortedDiagnostics.filter fun d => Path.same d.file batch.path &&
          (d.violation.span.start == pos && d.violation.variableName == name)) =
        batch.diagnostics.filter fun d =>
          d.violation.span.start == pos && d.violation.variableName == name) ∧
      findings.functions = (batches.map Batch.functions).sum ∧
      findings'.functions = findings.functions := by
  obtain ⟨findings, findings', hcollect, hcollect', hfunctions, hdiagnostics, hfailures⟩ :=
    sorted_eq_of_perm hdistinct horder
  refine ⟨findings, findings', hcollect, hcollect', hdiagnostics, hfailures, ?_⟩
  cases (collect_eq batches).symm.trans hcollect
  cases (collect_eq order).symm.trans hcollect'
  have hranks : Ranks fun a b : Diagnostic => a.compare b != .gt := .of_cmp
  refine ⟨List.mergeSort_perm _ _, List.mergeSort_perm _ _, ?_, ?_, rfl, hfunctions⟩
  · refine (List.pairwise_mergeSort hranks.trans hranks.total _).imp fun hle => ?_
    exact Diagnostic.compare_ne_gt_iff.mp (bne_iff_ne.mp hle)
  · intro batch hbatch pos name
    -- such diagnostics tie, so sorting keeps their order, and they all come from the batch
    rw [Sink.sortedDiagnostics, hranks.filter_mergeSort fun a b ha hb => ?_,
      Batch.filter_flatMap_of_mem Diagnostic.file (fun batch d => batch.same_of_mem_diagnostics)
        (hdistinct.perm horder) (horder.mem_iff.mpr hbatch) fun d hd => ?_]
    · refine List.filter_congr fun d hd => ?_
      rw [batch.same_of_mem_diagnostics hd, Bool.true_and]
    · exact (Bool.and_eq_true_iff.mp hd).1
    · simp only [Bool.and_eq_true, Path.same, beq_iff_eq] at ha hb
      have htie : a.compare b = .eq := by
        rw [Diagnostic.compare_eq_iff, Path.same, beq_iff_eq]
        exact ⟨ha.1.trans hb.1.symm, ha.2.1.trans hb.2.1.symm, ha.2.2.trans hb.2.2.symm⟩
      rw [htie]
      rfl

/-- A diagnostic on `tx` at offset 40 of a file. -/
def diagnosticAt40 (file : String) (kind : ViolationKind) : Diagnostic where
  file
  range := {}
  violation := Violation.new "Save" "tx" kind { start := 40, stop := 60 }

/-- A file with two diagnostics that tie. -/
def tiedBatch : Batch where
  path := "b"
  outcome := .ok {
    functions := 2
    diagnostics := [diagnosticAt40 "b" .noRollback, diagnosticAt40 "b" .earlyReturn] }
  placed := by
    rintro _ ⟨⟩ d hd
    rcases List.mem_pair.mp hd with rfl | rfl <;> simp [Path.same, diagnosticAt40]
  contained := by simp

/-- A file that cannot be read. -/
def unreadBatch : Batch where
  path := "c"
  outcome := .error (.fileRead "c" "permission denied")
  placed := by simp
  contained := by simp

/-- A file with one diagnostic, at the same position. -/
def singleBatch : Batch where
  path := "a"
  outcome := .ok { functions := 3, diagnostics := [diagnosticAt40 "a" .noCommit] }
  placed := by
    rintro _ ⟨⟩ d hd
    obtain rfl := List.mem_singleton.mp hd
    simp [Path.same, diagnosticAt40]
  contained := by simp

/-- Delivered in the reverse order, the three files give the same report; the two diagnostics that
tie stay in the order of their file. -/
theorem collect_scheduled_reversed :
    ∃ findings findings' : Findings,
      collect [tiedBatch, unreadBatch, singleBatch] = .ok findings ∧
      collect [singleBatch, unreadBatch, tiedBatch] = .ok findings' ∧
      findings'.sink.diagnostics ≠ findings.sink.diagnostics ∧
      findings'.sink.sortedDiagnostics = findings.sink.sortedDiagnostics ∧
      findings'.sink.sortedFailures = findings.sink.sortedFailures ∧
      findings'.sink.sortedDiagnostics.length = 3 ∧
      (findings'.sink.sortedDiagnostics.filter fun d => Path.same d.file "b" &&
        (d.violation.span.start == 40 && d.violation.variableName == "tx")) =
        [diagnosticAt40 "b" .noRollback, diagnosticAt40 "b" .earlyReturn] ∧
      findings'.functions = 5 := by
  have hdistinct : Batch.Distinct [tiedBatch, unreadBatch, singleBatch] := by
    have hsplit : ∀ path ∈ ["a", "b", "c"], Path.split path = [path] := by
      intro path hpath
      simp only [List.mem_cons, List.not_mem_nil, or_false] at hpath
      rcases hpath with rfl | rfl | rfl <;>
      · rw [Path.split, String.splitOn, if_neg (by decide), String.splitOnAux, if_neg (by decide),
          if_neg (by decide), String.splitOnAux, if_pos (by decide)]
        decide
    have hcomponents : ∀ path ∈ ["a", "b", "c"], Path.components path = [.name path] := by
      intro path hpath
      rw [Path.components, hsplit path hpath]
      revert path
      decide
    simp [Batch.Distinct, tiedBatch, unreadBatch, singleBatch, Path.same, hcomponents]
  obtain ⟨findings, findings', hcollect, hcollect', hdiagnostics, hfailures, hperm, -, -, hties,
    hsum, hfunctions⟩ := collect_scheduled hdistinct (List.reverse_perm [_, _, _])
  refine ⟨findings, findings', hcollect, hcollect', ?_, hdiagnostics, hfailures, hperm.length_eq,
    hties tiedBatch List.mem_cons_self 40 "tx", hfunctions.trans hsum⟩
  cases hcollect
  cases hcollect'
  decide

end Host.Findings

end TxLifecycle
