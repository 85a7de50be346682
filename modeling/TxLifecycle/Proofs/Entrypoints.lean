import TxLifecycle.Syntax.Entrypoint

/-!
# The functions that are analysed

`SourceFile.scan_exact` says which declarations of a file are analysed: those that have a body and
are not called by the test runner. `FuncDecl.FollowsRule` is the runner's rule, over names and the
types of parameters. `FuncDecl.isTestEntrypoint` follows it but for one declaration: a `TestMain`
that takes a `*testing.T` is a test by the rule, and is analysed all the same.
-/

namespace TxLifecycle

/-- The types of some parameters, without their blanks. -/
def typesOf (params : List Param) : List String :=
  params.map fun param => Text.withoutBlanks param.type

/-- The name is the stem, followed by nothing or by a character that is not lowercase. -/
def Continues (stem name : String) : Prop :=
  ∃ rest : List Char, name.toList = stem.toList ++ rest ∧
    ∀ c ∈ rest.head?, Text.isLowercase c = false

/-- Which declarations the test runner calls. -/
def FuncDecl.FollowsRule (decl : FuncDecl) : Prop :=
  decl.receiver = none ∧
    ((decl.name = "TestMain" ∧ typesOf decl.params = ["*testing.M"]) ∨
      ∃ form ∈ [("Test", ["*testing.T"]), ("Benchmark", ["*testing.B"]), ("Fuzz", ["*testing.F"]),
        ("Example", [])], Continues form.1 decl.name ∧ typesOf decl.params = form.2)

/-- The declaration from which a unit is made. -/
def FunctionUnit.decl (unit : FunctionUnit) : FuncDecl :=
  { name := unit.name, receiver := unit.receiver, params := unit.params, body := some unit.body,
    span := unit.span, nestingExceeded := unit.nestingExceeded }

namespace EntrypointForm

theorem afterStem_eq_some {stem name rest : List Char} :
    afterStem stem name = some rest ↔ name = stem ++ rest := by
  induction stem generalizing name with
  | nil => simp [afterStem]
  | cons c stem ih =>
    cases name with
    | nil => simp [afterStem]
    | cons d name =>
      rw [afterStem]
      split
      · rename_i heq
        simp [heq, ih]
      · rename_i hne
        simp [Ne.symm hne]

theorem matchesName_iff {form : EntrypointForm} {name : String} :
    form.matchesName name = true ↔ Continues form.stem name := by
  rw [matchesName, Continues]
  simp only [← afterStem_eq_some]
  split
  · rename_i hnone
    simp [hnone]
  · rename_i hsome
    simp [hsome]
  · rename_i c rest hsome
    simp [hsome]

end EntrypointForm

theorem singleParamOf_iff {params : List Param} {type : String} :
    singleParamOf params type = true ↔ typesOf params = [type] := by
  rcases params with _ | ⟨param, _ | ⟨second, rest⟩⟩ <;> simp [singleParamOf, typesOf]

theorem EntrypointForm.matchesParams_iff {form : EntrypointForm} {params : List Param} :
    form.matchesParams params = true ↔ typesOf params = form.param.toList := by
  rw [matchesParams]
  split
  · rename_i type hparam
    rw [hparam, singleParamOf_iff]
    rfl
  · rename_i hparam
    simp [hparam, typesOf]

instance (stem name : String) : Decidable (Continues stem name) :=
  decidable_of_iff _ (@EntrypointForm.matchesName_iff ⟨stem, none⟩ name)

namespace FuncDecl

instance : DecidablePred FollowsRule :=
  fun decl => inferInstanceAs (Decidable (decl.receiver = none ∧ (_ ∨ _)))

/-- The name of the runner's own entry point has the form of a test, and of nothing else. -/
theorem followsRule_of_testMain {decl : FuncDecl} (hname : decl.name = "TestMain") :
    decl.FollowsRule ↔ decl.receiver = none ∧
      (typesOf decl.params = ["*testing.M"] ∨ typesOf decl.params = ["*testing.T"]) := by
  have hforms : Continues "Test" "TestMain" ∧ ¬ Continues "Benchmark" "TestMain" ∧
      ¬ Continues "Fuzz" "TestMain" ∧ ¬ Continues "Example" "TestMain" := by decide
  simp [FollowsRule, hname, hforms]

/-- The test for entry points follows the rule but for tests that are called `TestMain`. -/
theorem isTestEntrypoint_iff {decl : FuncDecl} : decl.isTestEntrypoint = true ↔
    decl.FollowsRule ∧ ¬ (decl.name = "TestMain" ∧ typesOf decl.params = ["*testing.T"]) := by
  rw [isTestEntrypoint, isMethod]
  by_cases hname : decl.name = "TestMain"
  · rw [followsRule_of_testMain hname]
    cases decl.receiver with
    | some receiver => simp
    | none =>
      rw [if_neg (by simp), if_pos (beq_iff_eq.mpr hname), singleParamOf_iff]
      constructor
      · exact fun hmain => ⟨⟨rfl, .inl hmain⟩, fun htest => by simp [hmain] at htest⟩
      · rintro ⟨⟨-, hmain | htest⟩, hnot⟩
        · exact hmain
        · exact absurd ⟨hname, htest⟩ hnot
  · cases hreceiver : decl.receiver with
    | some receiver => simp [FollowsRule, hreceiver]
    | none =>
      simp [FollowsRule, hreceiver, hname, EntrypointForm.all, EntrypointForm.matchesName_iff,
        EntrypointForm.matchesParams_iff]

end FuncDecl

/-- **What a file has analysed.** The analysed functions are, in order, the declarations with a body
that the test runner does not call, and tests called `TestMain`. -/
theorem SourceFile.scan_exact (file : SourceFile) :
    file.scan.map FunctionUnit.decl = file.functions.filter fun decl =>
      decl.body.isSome ∧ ¬ (decl.FollowsRule ∧
        ¬ (decl.name = "TestMain" ∧ typesOf decl.params = ["*testing.T"])) := by
  simp only [← FuncDecl.isTestEntrypoint_iff]
  rw [scan, List.filterMap_filter, List.map_filterMap, ← List.filterMap_eq_filter]
  congr 1
  funext decl
  obtain ⟨name, receiver, params, body, span, nestingExceeded⟩ := decl
  cases body <;> simp [FuncDecl.toUnit?, FunctionUnit.decl, Option.guard]

/-- A test called `TestMain` is called by the runner and is analysed. -/
theorem SourceFile.exists_followsRule_scan :
    ∃ decl : FuncDecl, decl.FollowsRule ∧
      (SourceFile.scan { functions := [decl] }).map FunctionUnit.decl = [decl] :=
  ⟨{ name := "TestMain", params := [⟨some "t", "*testing.T"⟩], body := some ⟨[], {}⟩ }, by decide,
    rfl⟩

end TxLifecycle
