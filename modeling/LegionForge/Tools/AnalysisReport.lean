import LegionForge.Agent.Crystallization
import LegionForge.Lib.JsonText
import LegionForge.Tools.Analyzer

/-!
# The analysis report

`analyze_package` brings together what its passes have found: the syntax tree, the tests,
the examples of the observer and a scan of the text. The decision is the one of
`Agent.analyzePackage`; the rest of the report is for the reviewer.

The risk flags of the static analysis are the one finding that gets lost, so the report
has everything exactly where there are none (`findings_kept_iff`).
-/

namespace LegionForge.Tools

open Agent JsonText

/-! ## What is analysed -/

structure TestCase where
  input : Json
  expectedOutput : Json

/-- A row of `crystallization_packages` with the examples of its candidate. -/
structure PackageSource where
  packageId : String
  functionCode : String
  declaredSideEffects : List String
  testCases : List TestCase
  adversarialCases : List Json
  /-- `example_inputs` and `example_outputs`, empty without a candidate. -/
  exampleInputs : List Json
  exampleOutputs : List Json

/-- What `_run_test_in_subprocess` returns. -/
structure TestOutcome where
  success : Bool
  output : Json
  error : Option String

structure AnalyzerEnv where
  /-- `ast.parse`, or the text of its `SyntaxError`. -/
  parse : String → Except String Node
  runTest : String → String → Json → TestOutcome
  /-- `str` of a value -/
  str : Json → String
  /-- `create_analysis` goes through. -/
  stores : Bool

/-! ## The static passes -/

def isLineBreak (c : Char) : Bool :=
  "\n\r\x0b\x0c\x1c\x1d\x1e\u0085\u2028\u2029".toList.contains c

/-- `len(text.splitlines())`; `open` says that a line has begun. -/
def countLines (begun : Bool) : List Char → Nat
  | [] => if begun then 1 else 0
  | '\r' :: '\n' :: rest => 1 + countLines false rest
  | c :: rest => if isLineBreak c then 1 + countLines false rest else countLines true rest

/-- `_ast_analyze` -/
def astAnalyze (env : AnalyzerEnv) (functionCode : String) : StaticAnalysis :=
  let linesOfCode := countLines false functionCode.toList
  match env.parse functionCode with
  | .ok t => analyzeTree linesOfCode t
  | .error e =>
    { forbiddenConstructs := [s!"SyntaxError: {e}"]
      undeclaredDependencies := []
      undeclaredSideEffects := []
      cyclomaticComplexity := 1
      linesOfCode
      parseError := some e
      riskFlags := [] }

def hasText (pattern text : String) : Bool :=
  text.toList.tails.any (pattern.toList.isPrefixOf ·)

/-- The `hard_patterns` of `_security_scan`. -/
def hardPatterns : List (String × String) :=
  [("exec(", "Dynamic code execution (exec)"), ("eval(", "Dynamic code evaluation (eval)"),
    ("__import__", "Dynamic import (__import__)"),
    ("os.system", "Shell command execution (os.system)"),
    ("subprocess.", "Subprocess spawning"), ("socket.", "Network socket access"),
    (".write(", "File write operation"), ("open(", "File open")]

/-- `_security_scan` -/
def securityScan (functionCode : String) (declaredSideEffects : List String) : List String :=
  let hard := hardPatterns.filterMap fun (pattern, description) =>
    if hasText pattern functionCode then some s!"{description}: found '{pattern}' in code"
    else none
  let impure := ["import", "global", "nonlocal"].filterMap fun word =>
    if hasText (word ++ " ") functionCode then
      some s!"Purity violation claim: '{word}' found in code but declared_side_effects=['pure']"
    else none
  hard ++ if declaredSideEffects = ["pure"] then impure else []

/-- `_extract_function_name` -/
def extractFunctionName (env : AnalyzerEnv) (functionCode : String) : Option String :=
  match env.parse functionCode with
  | .ok t => t.walk.findSome? fun
    | .functionDef name _ => some name
    | _ => none
  | .error _ => none

/-! ## The tests -/

/-- `err and "Timeout" not in err` -/
def TestOutcome.exception (o : TestOutcome) : Bool :=
  o.error.any fun e => e ≠ "" && !hasText "Timeout" e

/-- The inputs every function is tried on. -/
def standardAdversarial : List Json := [.obj [], .obj [("__proto__", .str "exploit")]]

structure TestRuns where
  passed : Nat
  failedDiffs : List (TestCase × TestOutcome)
  adversarialExceptions : List (Json × TestOutcome)
  equivalenceMatches : Nat
  equivalenceTotal : Nat

/-- All that `analyze_package` executes. -/
def runTests (env : AnalyzerEnv) (p : PackageSource) : TestRuns :=
  let name := (extractFunctionName env p.functionCode).getD "unknown_function"
  let run := env.runTest p.functionCode name
  let agrees (o : TestOutcome) (expected : Json) := o.success && env.str o.output = env.str expected
  let (passed, failed) := p.testCases.partition fun t => agrees (run t.input) t.expectedOutput
  let declared := p.adversarialCases.filter fun input => (run input).exception
  let standard := standardAdversarial.filter fun input =>
    (run input).exception && !(run input).error.any (hasText "unexpected keyword")
  let examples := ((p.exampleInputs.take 5).zip (p.exampleOutputs.take 5)).filter fun
    | (.obj _, _) => true
    | _ => false
  { passed := passed.length
    failedDiffs := failed.map fun t => (t, run t.input)
    adversarialExceptions := (declared ++ standard).map fun input => (input, run input)
    equivalenceMatches := (examples.filter fun (input, out) => agrees (run input) out).length
    equivalenceTotal := examples.length }

/-! ## `analyze_package` -/

/-- The report, without its texts for the reviewer and the estimate of the savings. -/
structure FullReport where
  decision : AnalysisReport
  undeclaredSideEffects : List String
  cyclomaticComplexity : Nat
  linesOfCode : Nat
  tests : TestRuns
  securityClean : Bool
  riskFlags : List String

/-- A rate in percent; there are at most five examples, so none lies half way. -/
def percent (part total : Nat) : Nat := (200 * part + total) / (2 * total)

/-- The risk flags for the reviewer. -/
def reportRiskFlags (cyclomaticComplexity linesOfCode : Nat) (t : TestRuns) : List String :=
  (if 10 < cyclomaticComplexity then [s!"High cyclomatic complexity: {cyclomaticComplexity}"]
    else []) ++
  (if 50 < linesOfCode then [s!"Function is longer than recommended: {linesOfCode} lines"]
    else []) ++
  (if 0 < t.equivalenceTotal ∧ 10 * t.equivalenceMatches < 7 * t.equivalenceTotal then
    ["Low AI equivalence rate: " ++
      s!"{percent t.equivalenceMatches t.equivalenceTotal}% — " ++
      "function may not match observed behavior"]
    else []) ++
  (if t.adversarialExceptions ≠ [] then
    [s!"{t.adversarialExceptions.length} adversarial input(s) caused exceptions"] else [])

/-- `analyze_package` on a package that is found: the report it returns. -/
def fullReport (env : AnalyzerEnv) (p : PackageSource) : FullReport :=
  let found := astAnalyze env p.functionCode
  let sideEffects := if p.declaredSideEffects = [] then ["pure"] else p.declaredSideEffects
  let tests := runTests env p
  let securityFindings := securityScan p.functionCode sideEffects
  { decision := analyzePackage p.packageId
      { forbiddenConstructs := found.forbiddenConstructs
        undeclaredDependencies := found.undeclaredDependencies
        securityFindings
        testCasesPassed := tests.passed
        testCasesFailed := tests.failedDiffs.length }
    undeclaredSideEffects := []
    cyclomaticComplexity := found.cyclomaticComplexity
    linesOfCode := found.linesOfCode
    tests
    securityClean := securityFindings.isEmpty
    riskFlags := reportRiskFlags found.cyclomaticComplexity found.linesOfCode tests }

/-- The report that `analyze_package` stores. -/
def storedReport (env : AnalyzerEnv) (p : PackageSource) : Option FullReport :=
  if env.stores then some (fullReport env p) else none

/-! ## What is to be kept -/

/-- Everything that the static passes have found of the source is in the report, and a report
that is ready for review has nothing forbidden. -/
structure KeepsFindings (env : AnalyzerEnv) (p : PackageSource) (r : FullReport) : Prop where
  forbidden : ∀ f ∈ (astAnalyze env p.functionCode).forbiddenConstructs,
    f ∈ r.decision.checks.forbiddenConstructs
  risks : ∀ f ∈ (astAnalyze env p.functionCode).riskFlags, f ∈ r.riskFlags
  ready : r.decision.status = .readyForReview → r.decision.checks.forbiddenConstructs = []

/-- A call of `getattr` whose second argument is no string literal. -/
def Node.dynamicGetattr : Node → Bool
  | .call _ (.name "getattr" _) (_ :: .constant (.str _) :: _) _ => false
  | .call _ (.name "getattr" _) (_ :: _ :: _) _ => true
  | _ => false

/-- The source parses, and there is such a call in it. -/
def HasDynamicGetattr (env : AnalyzerEnv) (functionCode : String) : Prop :=
  ∃ t, env.parse functionCode = .ok t ∧ ∃ n : Node, n.In t ∧ n.dynamicGetattr = true

section
variable {env : AnalyzerEnv} {p : PackageSource}

theorem analyzePackage_checks (packageId : String) (checks : PackageChecks) :
    (analyzePackage packageId checks).checks = checks := by
  unfold analyzePackage
  split <;> rfl

theorem forbidden_of_ready {packageId : String} {checks : PackageChecks}
    (ready : (analyzePackage packageId checks).status = .readyForReview) :
    checks.forbiddenConstructs = [] := by
  unfold analyzePackage at ready
  split at ready
  · cases ready
  · next fine => exact not_not.mp (not_or.mp fine).1

theorem not_dynamic_of_name {lineno : Nat} {id : String} {ctx : ExprContext}
    {args keywords : List Node} (other : id ≠ "getattr") :
    (Node.call lineno (.name id ctx) args keywords).dynamicGetattr = false := by
  unfold Node.dynamicGetattr
  split
  · rfl
  · next eq => cases eq; exact absurd rfl other
  · rfl

theorem head_append {a b : String} {c : Char} (first : a.toList.head? = some c) :
    (a ++ b).toList.head? = some c := by
  rw [String.toList_append, List.head?_append, first, Option.some_or]

theorem dynamic_flag_head (lineno : Nat) :
    ("Dynamic getattr: second argument is not a string literal " ++
      s!"at line {lineno} — cannot statically verify attribute").toList.head? = some 'D' :=
  head_append (by decide)

/-- The risk flags of a call of `getattr`. -/
theorem getattr_risks (lineno : Nat) (ctx : ExprContext) (args keywords : List Node) :
    let n := Node.call lineno (.name "getattr" ctx) args keywords
    (n.dynamicGetattr = true ∧ ∃ f, (getattrFindings lineno args).risks = [f] ∧
        f.toList.head? = some 'D') ∨
      (n.dynamicGetattr = false ∧ (getattrFindings lineno args).risks = []) := by
  cases args with
  | nil => exact .inr ⟨rfl, rfl⟩
  | cons a args =>
    cases args with
    | nil => exact .inr ⟨rfl, rfl⟩
    | cons b args =>
      cases b with
      | constant value =>
        cases value with
        | str value =>
          refine .inr ⟨rfl, ?_⟩
          simp only [getattrFindings]
          split <;> rfl
        | other => exact .inl ⟨rfl, _, rfl, dynamic_flag_head lineno⟩
      | _ => exact .inl ⟨rfl, _, rfl, dynamic_flag_head lineno⟩

theorem subscript_risks (lineno : Nat) (value slice : Node) :
    (Node.subscript lineno value slice).findings.risks = [] := by
  cases value with
  | name id ctx =>
    simp only [Node.findings]
    split <;> rfl
  | attrOf value attr ctx =>
    simp only [Node.findings]
    split <;> rfl
  | call l func args keywords =>
    cases func with
    | name id ctx =>
      simp only [Node.findings]
      split <;> rfl
    | _ => rfl
  | _ => rfl

theorem module_risks (name : String) : (moduleFindings name).risks = [] := by
  unfold moduleFindings
  split
  · rfl
  · split <;> rfl

/-- The risk flags of a node, and how they begin. -/
theorem risks_cases (n : Node) :
    (n.dynamicGetattr = true ∧ ∃ f, n.findings.risks = [f] ∧ f.toList.head? = some 'D') ∨
      (n.dynamicGetattr = false ∧ n.findings.risks = []) := by
  cases n with
  | call lineno func args keywords =>
    cases func with
    | name id ctx =>
      by_cases isGetattr : id = "getattr"
      · subst isGetattr
        exact getattr_risks lineno ctx args keywords
      · refine .inr ⟨not_dynamic_of_name isGetattr, ?_⟩
        simp only [Node.findings, isGetattr, if_false]
        split <;> rfl
    | attrOf value attr ctx =>
      refine .inr ⟨rfl, ?_⟩
      simp only [Node.findings]
      split <;> rfl
    | _ => exact .inr ⟨rfl, rfl⟩
  | subscript lineno value slice => exact .inr ⟨rfl, subscript_risks lineno value slice⟩
  | importFrom module names =>
    refine .inr ⟨rfl, ?_⟩
    cases module with
    | none => rfl
    | some module =>
      simp only [Node.findings]
      split
      · rfl
      · exact module_risks module
  | _ => exact .inr ⟨rfl, rfl⟩

/-- None of the report's own flags begins as those of the static analysis do. -/
theorem reportRiskFlags_head {cyclomaticComplexity linesOfCode : Nat} {t : TestRuns} {f : String}
    (mem : f ∈ reportRiskFlags cyclomaticComplexity linesOfCode t) :
    f.toList.head? ≠ some 'D' := by
  simp only [reportRiskFlags, List.mem_append] at mem
  rcases mem with ((complex | long) | low) | raised
  · split at complex
    · rw [List.mem_singleton.mp complex, head_append (c := 'H') (by decide)]
      decide
    · cases complex
  · split at long
    · rw [List.mem_singleton.mp long, head_append (c := 'F') (head_append (by decide))]
      decide
    · cases long
  · split at low
    · rw [List.mem_singleton.mp low, head_append (c := 'L') (head_append (by decide))]
      decide
    · cases low
  · split at raised
    · rw [List.mem_singleton.mp raised]
      intro begins
      have digits : (toString t.adversarialExceptions.length).toList.head? = some 'D' := by
        simpa [String.toList_append, List.head?_append, Option.or_eq_some_iff] using begins
      have mem := List.mem_of_head? digits
      rw [Nat.toString_eq_repr, Nat.toList_repr] at mem
      exact absurd (Nat.isDigit_of_mem_toDigits (by decide) (by decide) mem) (by decide)
    · cases raised

/-- The static analysis has a risk flag exactly where it has seen a dynamic `getattr`. -/
theorem risk_flag_iff :
    (astAnalyze env p.functionCode).riskFlags ≠ [] ↔ HasDynamicGetattr env p.functionCode := by
  unfold astAnalyze HasDynamicGetattr
  cases parsed : env.parse p.functionCode with
  | error e => simp
  | ok t =>
    simp only [analyzeTree, ne_eq, List.flatMap_eq_nil_iff, mem_walk, Except.ok.injEq,
      exists_eq_left']
    push Not
    refine exists_congr fun n => and_congr_right fun _ => ?_
    rcases risks_cases n with ⟨dynamic, f, one, -⟩ | ⟨static, none⟩
    · simp [dynamic, one]
    · simp [static, none]

theorem risk_flag_head {f : String} (mem : f ∈ (astAnalyze env p.functionCode).riskFlags) :
    f.toList.head? = some 'D' := by
  unfold astAnalyze at mem
  cases parsed : env.parse p.functionCode with
  | error e =>
    rw [parsed] at mem
    cases mem
  | ok t =>
    rw [parsed] at mem
    obtain ⟨n, -, at_node⟩ := List.mem_flatMap.mp mem
    rcases risks_cases n with ⟨-, g, one, begins⟩ | ⟨-, none⟩
    · rw [one] at at_node
      rw [List.mem_singleton.mp at_node]
      exact begins
    · rw [none] at at_node
      cases at_node

/-- Nothing found is lost exactly where the source has no dynamic `getattr`. -/
theorem findings_kept_iff (env : AnalyzerEnv) (p : PackageSource) :
    (∀ r, storedReport env p = some r → KeepsFindings env p r) ↔
      (env.stores = true → ¬ HasDynamicGetattr env p.functionCode) := by
  constructor
  · intro kept stores dynamic
    have stored : storedReport env p = some (fullReport env p) := by
      rw [storedReport, stores, if_pos rfl]
    obtain ⟨f, mem⟩ := List.exists_mem_of_ne_nil _ (risk_flag_iff.mpr dynamic)
    exact reportRiskFlags_head ((kept _ stored).risks f mem) (risk_flag_head mem)
  · intro static r stored
    have stores : env.stores = true := by
      by_contra fails
      rw [storedReport, if_neg fails] at stored
      cases stored
    rw [storedReport, stores, if_pos rfl] at stored
    cases stored
    refine ⟨fun f mem => ?_, fun f mem => ?_, fun ready => ?_⟩
    · rwa [fullReport, analyzePackage_checks]
    · have none := not_not.mp (mt risk_flag_iff.mp (static stores))
      rw [none] at mem
      cases mem
    · have shown : (fullReport env p).decision.checks.forbiddenConstructs =
          (astAnalyze env p.functionCode).forbiddenConstructs := by
        rw [fullReport, analyzePackage_checks]
      rw [shown]
      exact forbidden_of_ready ready

end

/-- A function that reads an attribute by a computed name is ready for review, and no risk
flag tells of it. -/
def computedAttribute : PackageSource where
  packageId := "pkg-1"
  functionCode := "def f(x, y):\n    return getattr(x, y)\n"
  declaredSideEffects := ["pure"]
  testCases := []
  adversarialCases := []
  exampleInputs := []
  exampleOutputs := []

def computedAttributeEnv : AnalyzerEnv where
  parse _ := .ok (.other .module [.functionDef "f"
    [.other .arguments [.other .arg [], .other .arg []],
      .other .returnStmt [.call 2 (.name "getattr" .load)
        [.name "x" .load, .name "y" .load] []]]])
  runTest _ _
    | .obj [] =>
      { success := false, output := .null
        error := some "f() missing 2 required positional arguments: 'x' and 'y'" }
    | _ =>
      { success := false, output := .null
        error := some "f() got an unexpected keyword argument '__proto__'" }
  str _ := ""
  stores := true

theorem dynamic_getattr_lost :
    ¬ ∀ r, storedReport computedAttributeEnv computedAttribute = some r →
      KeepsFindings computedAttributeEnv computedAttribute r := by
  intro kept
  have risks := (kept _ rfl).risks
  have flag : ("Dynamic getattr: second argument is not a string literal " ++
      s!"at line {2} — cannot statically verify attribute") ∈
        (astAnalyze computedAttributeEnv computedAttribute.functionCode).riskFlags := by
    decide
  exact reportRiskFlags_head (risks _ flag) (dynamic_flag_head 2)

end LegionForge.Tools
