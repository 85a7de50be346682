import TxLifecycle.Syntax.Basic
import TxLifecycle.Text.Blank
import TxLifecycle.Text.Lowercase

/-!
# Functions to analyse

Go's test runner calls functions by name and signature. Those entry points are left out of the
analysis, and so are declarations without a body. What remains of a file is its list of
`FunctionUnit`s.
-/

namespace TxLifecycle

/-- A shape of name and parameters by which the test runner finds a function. -/
structure EntrypointForm where
  stem : String
  /-- Type of the only parameter; `none` when there are no parameters. -/
  param : Option String

namespace EntrypointForm

/-- The forms of tests, benchmarks, fuzz targets and examples. -/
def all : List EntrypointForm :=
  [⟨"Test", some "*testing.T"⟩, ⟨"Benchmark", some "*testing.B"⟩,
   ⟨"Fuzz", some "*testing.F"⟩, ⟨"Example", none⟩]

/-- The characters of `name` after `stem`, if it starts so. -/
def afterStem : List Char → List Char → Option (List Char)
  | [], name => some name
  | _ :: _, [] => none
  | c :: stem, d :: name => if c = d then afterStem stem name else none

/-- The name is the stem alone, or the stem followed by a character that is not lowercase. -/
def matchesName (form : EntrypointForm) (name : String) : Bool :=
  match afterStem form.stem.toList name.toList with
  | none => false
  | some [] => true
  | some (c :: _) => !Text.isLowercase c

end EntrypointForm

/-- There is exactly one parameter, and its type without blanks is `type`. -/
def singleParamOf (params : List Param) (type : String) : Bool :=
  match params with
  | [param] => Text.withoutBlanks param.type == type
  | _ => false

/-- The parameters are those of the form. -/
def EntrypointForm.matchesParams (form : EntrypointForm) (params : List Param) : Bool :=
  match form.param with
  | some type => singleParamOf params type
  | none => params.isEmpty

/-- The declaration is called by the test runner: it has no receiver, and it is `TestMain` with
its own signature or has one of the `EntrypointForm`s. -/
def FuncDecl.isTestEntrypoint (decl : FuncDecl) : Bool :=
  if decl.isMethod then false
  else if decl.name == "TestMain" then singleParamOf decl.params "*testing.M"
  else EntrypointForm.all.any fun form =>
    form.matchesName decl.name && form.matchesParams decl.params

/-- One function or method with a body. -/
structure FunctionUnit where
  name : String
  receiver : Option Param := none
  params : List Param := []
  body : Block
  span : Span := {}
  /-- The body holds a place nested too deeply to be read. -/
  nestingExceeded : Bool := false
deriving Inhabited

/-- The unit of a declaration that has a body. -/
def FuncDecl.toUnit? (decl : FuncDecl) : Option FunctionUnit :=
  decl.body.map fun body =>
    { name := decl.name, receiver := decl.receiver, params := decl.params, body,
      span := decl.span, nestingExceeded := decl.nestingExceeded }

/-- The functions of a file that are analysed, in declaration order. -/
def SourceFile.scan (file : SourceFile) : List FunctionUnit :=
  (file.functions.filter (!·.isTestEntrypoint)).filterMap FuncDecl.toUnit?

end TxLifecycle
