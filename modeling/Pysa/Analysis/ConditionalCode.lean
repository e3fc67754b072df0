/-
  Subject: CODE THAT DEPENDS ON THE VERSION AND THE PLATFORM (`preprocessing.ml`,
    `replace_version_specific_code` and `replace_platform_specific_code`).

  * `versionTest`, `platformTest` -- what the two passes make of the test of an `if`;
  * `pythonTest` -- what Python makes of it: tuples compare from the left, and a tuple that runs
    out first is smaller;
  * `resolve` -- the program with the branches that Python executes;
  * `replaceConditionalCode_eq_resolve` -- **the two passes resolve a program as Python does**, if
    no test is one of those that the first pass misreads (a triple equal to the running version
    under `==`, `!=`, `<=` or `>`, or a tuple of another form) or that the second one does.
-/
import Pysa.Ast.LocationInsensitiveCompare

namespace Pysa.ConditionalCode

open Ast (ExpressionNode)

/-! ## 1. The transformer -/

mutual

/-- A statement with no statement inside, other than `Pass`, is a value of `X`, and so is what a
    compound statement has besides its blocks and the test of an `If`. -/
inductive Statement (L O F X : Type) where
  | simple (location : L) (statement : X)
  | pass (location : L)
  | classDefinition (location : L) (header : X) (body : List (Statement L O F X))
  | define (location : L) (signature : X) (body : List (Statement L O F X))
  | withItems (location : L) (items : X) (body : List (Statement L O F X))
  | forLoop (location : L) (header : X) (body orelse : List (Statement L O F X))
  | ifThen (location : L) (test : ExpressionNode L O F) (body orelse : List (Statement L O F X))
  | matchCases (location : L) (subject : X) (cases : List (Case L O F X))
  | whileLoop (location : L) (test : X) (body orelse : List (Statement L O F X))
  | tryBlock (location : L) (body : List (Statement L O F X)) (handlers : List (Case L O F X))
      (orelse finally_ : List (Statement L O F X)) (handlesExceptionGroup : Bool)

/-- A case of a `match`, or a handler. -/
inductive Case (L O F X : Type) where
  | mk (pattern : X) (body : List (Statement L O F X))

end

variable {L O F X : Type}

mutual

def transformStatement (statement : Statement L O F X → List (Statement L O F X)) :
    Statement L O F X → List (Statement L O F X)
  | .simple location value => statement (.simple location value)
  | .pass location => statement (.pass location)
  | .classDefinition location header body =>
    statement (.classDefinition location header (transformStatements statement body))
  | .define location signature body =>
    statement (.define location signature (transformStatements statement body))
  | .withItems location items body =>
    statement (.withItems location items (transformStatements statement body))
  | .forLoop location header body orelse =>
    statement (.forLoop location header (transformStatements statement body)
      (transformStatements statement orelse))
  | .ifThen location test body orelse =>
    statement (.ifThen location test (transformStatements statement body)
      (transformStatements statement orelse))
  | .matchCases location subject cases =>
    statement (.matchCases location subject (transformCases statement cases))
  | .whileLoop location test body orelse =>
    statement (.whileLoop location test (transformStatements statement body)
      (transformStatements statement orelse))
  | .tryBlock location body handlers orelse finally_ handlesExceptionGroup =>
    statement (.tryBlock location (transformStatements statement body)
      (transformCases statement handlers) (transformStatements statement orelse)
      (transformStatements statement finally_) handlesExceptionGroup)

def transformStatements (statement : Statement L O F X → List (Statement L O F X)) :
    List (Statement L O F X) → List (Statement L O F X)
  | [] => []
  | first :: rest => transformStatement statement first ++ transformStatements statement rest

def transformCase (statement : Statement L O F X → List (Statement L O F X)) :
    Case L O F X → Case L O F X
  | .mk pattern body => .mk pattern (transformStatements statement body)

def transformCases (statement : Statement L O F X → List (Statement L O F X)) :
    List (Case L O F X) → List (Case L O F X)
  | [] => []
  | first :: rest => transformCase statement first :: transformCases statement rest

end

def addPassStatement (location : L) (body : List (Statement L O F X)) : List (Statement L O F X) :=
  if body.isEmpty then [.pass location] else body

/-- The statement of both passes: an `If` whose test has a value is replaced by a branch. -/
def replaceIf (condition : ExpressionNode L O F → Option Bool) :
    Statement L O F X → List (Statement L O F X)
  | .ifThen location test body orelse =>
    match condition test with
    | some true => addPassStatement location body
    | some false => addPassStatement location orelse
    | none => [.ifThen location test body orelse]
  | statement => [statement]

/-! ## 2. The tests on the version -/

structure Version where
  major : ℕ
  minor : ℕ
  micro : ℕ

inductive Comparison where
  | lessThan
  | lessThanOrEquals
  | greaterThan
  | greaterThanOrEquals
  | equals
  | notEquals
  deriving DecidableEq

def Comparison.inverse : Comparison → Comparison
  | lessThan => greaterThan
  | lessThanOrEquals => greaterThanOrEquals
  | greaterThan => lessThan
  | greaterThanOrEquals => lessThanOrEquals
  | equals => equals
  | notEquals => notEquals

def Comparison.evaluate (operator : Comparison) (compareResult : Ordering) : Bool :=
  match operator with
  | lessThan => compareResult == .lt
  | lessThanOrEquals => compareResult != .gt
  | greaterThan => compareResult == .gt
  | greaterThanOrEquals => compareResult != .lt
  | equals => compareResult == .eq
  | notEquals => compareResult != .eq

def compareReleaseLevel : List (ExpressionNode L O F) → Ordering
  | [.node _ (.constant (.string level _ _))] => (compare "final" level).then (compare (0 : ℤ) (-1))
  | [.node _ (.constant (.string level _ _)), .node _ (.constant (.integer serial))] =>
    (compare "final" level).then (compare (0 : ℤ) serial)
  | _ => .eq

def compareVersions (actual : Version) (major minor micro : ℤ) : Ordering :=
  (compare (actual.major : ℤ) major).then ((compare (actual.minor : ℤ) minor).then
    (compare (actual.micro : ℤ) micro))

def evaluateThreeVersions (releaseLevel : List (ExpressionNode L O F)) (operator : Comparison)
    (actual : Version) (major minor micro : ℤ) : Bool :=
  operator.evaluate ((compareVersions actual major minor micro).then
    (compareReleaseLevel releaseLevel))

def extractComparison :
    ExpressionNode L O F → Option (Comparison × ExpressionNode L O F × ExpressionNode L O F)
  | .node _ (.comparisonOperator left operator right _) =>
    match operator with
    | .lessThan => some (.lessThan, left, right)
    | .lessThanOrEquals => some (.lessThanOrEquals, left, right)
    | .greaterThan => some (.greaterThan, left, right)
    | .greaterThanOrEquals => some (.greaterThanOrEquals, left, right)
    | .equals => some (.equals, left, right)
    | .notEquals => some (.notEquals, left, right)
    | _ => none
  | _ => none

/-- `sys.version_info`. -/
def isSystemVersion : ExpressionNode L O F → Bool
  | .node _ (.name (.attribute (.node _ (.name (.identifier identifier))) attributeName _)) =>
    identifier == "sys" && attributeName == "version_info"
  | _ => false

def isSystemVersionAttributeAccess (attributeName : String) : ExpressionNode L O F → Bool
  | .node _ (.name (.attribute base versionAttribute _)) =>
    isSystemVersion base && attributeName == versionAttribute
  | _ => false

def isSystemVersionTupleAccess (expectedIndex : ℤ) : ExpressionNode L O F → Bool
  | .node _ (.subscript base (.node _ (.constant (.integer actualIndex))) _) =>
    isSystemVersion base && expectedIndex == actualIndex
  | _ => false

/-- The cases of a tuple: what follows a literal prefix is read only after three integers. -/
def tupleCondition (version : Version) (operator : Comparison) :
    List (ExpressionNode L O F) → Option Bool
  | .node _ (.constant (.integer major)) :: .node _ (.constant (.integer minor)) ::
      .node _ (.constant (.integer micro)) :: releaseLevel =>
      some (evaluateThreeVersions releaseLevel operator version major minor micro)
  | .node _ (.constant (.integer major)) :: .node _ (.constant (.integer minor)) :: _ =>
    some (evaluateThreeVersions ([] : List (ExpressionNode L O F)) operator version major minor
      (-1))
  | .node _ (.constant (.integer major)) :: _ =>
    some (evaluateThreeVersions ([] : List (ExpressionNode L O F)) operator version major (-1)
      (-1))
  | _ => none

/-- The cases of an integer: the element of `sys.version_info` that `left` accesses. -/
def elementCondition (version : Version) (operator : Comparison) (left : ExpressionNode L O F)
    (given : ℤ) : Option Bool :=
  if isSystemVersionTupleAccess 0 left then some (operator.evaluate (compare (version.major : ℤ) given))
  else if isSystemVersionTupleAccess 1 left then
    some (operator.evaluate (compare (version.minor : ℤ) given))
  else if isSystemVersionTupleAccess 2 left then
    some (operator.evaluate (compare (version.micro : ℤ) given))
  else if isSystemVersionAttributeAccess "major" left then
    some (operator.evaluate (compare (version.major : ℤ) given))
  else if isSystemVersionAttributeAccess "minor" left then
    some (operator.evaluate (compare (version.minor : ℤ) given))
  else if isSystemVersionAttributeAccess "micro" left then
    some (operator.evaluate (compare (version.micro : ℤ) given))
  else none

/-- The cases with `sys.version_info` on the left. -/
def versionCondition (version : Version) (operator : Comparison)
    (left right : ExpressionNode L O F) : Option Bool :=
  match right with
  | .node _ (.tuple elements) =>
    if isSystemVersion left then tupleCondition version operator elements else none
  | .node _ (.constant (.integer given)) => elementCondition version operator left given
  | _ => none

/-- The cases with `sys.version_info` on the right repeat those with it on the left. -/
def versionTest (version : Version) (test : ExpressionNode L O F) : Option Bool :=
  match extractComparison test with
  | some (operator, left, right) =>
    (versionCondition version operator left right).or
      (versionCondition version operator.inverse right left)
  | none => none

def replaceVersionSpecificCode (version : Version) (source : List (Statement L O F X)) :
    List (Statement L O F X) :=
  transformStatements (replaceIf (versionTest version)) source

/-! ## 3. The tests on the platform -/

/-- `Expression.show`, of names; what is shown of any other expression has a space, a bracket, a
    quote or no letter in it. -/
def showName : ExpressionNode L O F → Option String
  | .node _ (.name (.identifier identifier)) => some identifier
  | .node _ (.name (.attribute base attributeName _)) =>
    (showName base).map fun shown => shown ++ "." ++ attributeName
  | _ => none

def isPlatform (platformCheckName : String) (expression : ExpressionNode L O F) : Bool :=
  showName expression == some platformCheckName

def stringConstant : ExpressionNode L O F → Option String
  | .node _ (.constant (.string value _ _)) => some value
  | _ => none

def getPlatformString (platformCheckName : String) (left right : ExpressionNode L O F) :
    Option String :=
  if isPlatform platformCheckName left then stringConstant right
  else if isPlatform platformCheckName right then stringConstant left
  else none

def callTest (sysPlatform : String) : ExpressionNode L O F → Option Bool
  | .node _ (.call callee [.argument _ expression] _) =>
    (getPlatformString "sys.platform.startswith" callee expression).map fun platform =>
      platform.toList.isPrefixOf sysPlatform.toList
  | _ => none

def platformTest (sysPlatform : String) : ExpressionNode L O F → Option Bool
  | .node _ (.comparisonOperator left operator right _) =>
    match operator with
    | .equals | .is => (getPlatformString "sys.platform" left right).map (sysPlatform == ·)
    | .notEquals | .isNot => (getPlatformString "sys.platform" left right).map (sysPlatform != ·)
    | _ => none
  | .node _ (.unaryOperator .not operand _) => (callTest sysPlatform operand).map (!·)
  | test => callTest sysPlatform test

def replacePlatformSpecificCode (sysPlatform : String) (source : List (Statement L O F X)) :
    List (Statement L O F X) :=
  transformStatements (replaceIf (platformTest sysPlatform)) source

/-- The two passes, in the order of the callers. -/
def replaceConditionalCode (version : Version) (sysPlatform : String)
    (source : List (Statement L O F X)) : List (Statement L O F X) :=
  replacePlatformSpecificCode sysPlatform (replaceVersionSpecificCode version source)

/-! ## 4. What Python makes of the tests -/

inductive Scalar where
  | int (value : ℤ)
  | str (value : String)
  deriving DecidableEq

inductive Value where
  | scalar (value : Scalar)
  | tuple (elements : List Scalar)

/-- `none` where Python raises a `TypeError`. -/
def compareScalars : Scalar → Scalar → Option Ordering
  | .int left, .int right => some (compare left right)
  | .str left, .str right => some (compare left right)
  | _, _ => none

/-- The first elements that differ decide, and the shorter tuple is the smaller one. -/
def compareTuples : List Scalar → List Scalar → Option Ordering
  | [], [] => some .eq
  | [], _ :: _ => some .lt
  | _ :: _, [] => some .gt
  | left :: lefts, right :: rights =>
    (compareScalars left right).bind fun result =>
      if result = .eq then compareTuples lefts rights else some result

/-- `none` unless both are tuples or both are scalars. -/
def compareValues : Value → Value → Option Ordering
  | .scalar left, .scalar right => compareScalars left right
  | .tuple left, .tuple right => compareTuples left right
  | _, _ => none

/-- `sys.version_info` of a final release. -/
def versionInfo (version : Version) : List Scalar :=
  [.int version.major, .int version.minor, .int version.micro, .str "final", .int 0]

/-- `sys.version_info`, its first three elements, and their names. -/
def versionValue (version : Version) (expression : ExpressionNode L O F) : Option Value :=
  if isSystemVersion expression then some (.tuple (versionInfo version))
  else if isSystemVersionTupleAccess 0 expression ||
      isSystemVersionAttributeAccess "major" expression then
    some (.scalar (.int version.major))
  else if isSystemVersionTupleAccess 1 expression ||
      isSystemVersionAttributeAccess "minor" expression then
    some (.scalar (.int version.minor))
  else if isSystemVersionTupleAccess 2 expression ||
      isSystemVersionAttributeAccess "micro" expression then
    some (.scalar (.int version.micro))
  else none

/-- One to five elements: integers, then a release level and a serial. -/
def literalElements : List (ExpressionNode L O F) → Option (List Scalar)
  | [.node _ (.constant (.integer major))] => some [.int major]
  | [.node _ (.constant (.integer major)), .node _ (.constant (.integer minor))] =>
    some [.int major, .int minor]
  | [.node _ (.constant (.integer major)), .node _ (.constant (.integer minor)),
      .node _ (.constant (.integer micro))] => some [.int major, .int minor, .int micro]
  | [.node _ (.constant (.integer major)), .node _ (.constant (.integer minor)),
      .node _ (.constant (.integer micro)), .node _ (.constant (.string level .string _))] =>
      some [.int major, .int minor, .int micro, .str level]
  | [.node _ (.constant (.integer major)), .node _ (.constant (.integer minor)),
      .node _ (.constant (.integer micro)), .node _ (.constant (.string level .string _)),
      .node _ (.constant (.integer serial))] =>
      some [.int major, .int minor, .int micro, .str level, .int serial]
  | _ => none

def literalValue : ExpressionNode L O F → Option Value
  | .node _ (.constant (.integer value)) => some (.scalar (.int value))
  | .node _ (.tuple elements) => (literalElements elements).map .tuple
  | _ => none

/-- The value of a comparison of `sys.version_info`, or of an element of it, with a literal. -/
def pythonVersionTest (version : Version) (test : ExpressionNode L O F) : Option Bool :=
  match extractComparison test with
  | some (operator, left, right) =>
    (((versionValue version left).bind fun actual =>
      (literalValue right).bind (compareValues actual)).or
    ((literalValue left).bind fun given =>
      (versionValue version right).bind (compareValues given))).map operator.evaluate
  | none => none

/-- A string, not one of bytes. -/
def textLiteral : ExpressionNode L O F → Option String
  | .node _ (.constant (.string value .string _)) => some value
  | _ => none

/-- The string that `sys.platform` is compared with. -/
def comparedText (left right : ExpressionNode L O F) : Option String :=
  if isPlatform "sys.platform" left then textLiteral right
  else if isPlatform "sys.platform" right then textLiteral left
  else none

/-- The value of `sys.platform.startswith` of a string. -/
def pythonStartsWith (platform : String) : ExpressionNode L O F → Option Bool
  | .node _ (.call callee [.argument none expression] _) =>
    if isPlatform "sys.platform.startswith" callee then
      (textLiteral expression).map fun text => text.toList.isPrefixOf platform.toList
    else none
  | _ => none

/-- The value of a test on `sys.platform`. With `extended`, also of those with `is` and `is not`
    (equal strings taken to be one object), and of a negated `startswith`. -/
def pythonPlatformTest (extended : Bool) (platform : String) :
    ExpressionNode L O F → Option Bool
  | .node _ (.comparisonOperator left operator right _) =>
    match operator with
    | .equals => (comparedText left right).map (platform == ·)
    | .notEquals => (comparedText left right).map (platform != ·)
    | .is => if extended then (comparedText left right).map (platform == ·) else none
    | .isNot => if extended then (comparedText left right).map (platform != ·) else none
    | _ => none
  | .node _ (.unaryOperator .not operand _) =>
    if extended then (pythonStartsWith platform operand).map (!·) else none
  | test => pythonStartsWith platform test

def pythonTest (extended : Bool) (version : Version) (platform : String)
    (test : ExpressionNode L O F) : Option Bool :=
  (pythonVersionTest version test).or (pythonPlatformTest extended platform test)

/-! ## 5. The branches that Python executes -/

mutual

/-- What is left of a statement if each `If` whose test has a value is the branch it selects. -/
def resolveStatement (value : ExpressionNode L O F → Option Bool) :
    Statement L O F X → List (Statement L O F X)
  | .simple location statement => [.simple location statement]
  | .pass location => [.pass location]
  | .classDefinition location header body => [.classDefinition location header (resolve value body)]
  | .define location signature body => [.define location signature (resolve value body)]
  | .withItems location items body => [.withItems location items (resolve value body)]
  | .forLoop location header body orelse =>
    [.forLoop location header (resolve value body) (resolve value orelse)]
  | .ifThen location test body orelse =>
    match value test with
    | some true => if body.isEmpty then [.pass location] else resolve value body
    | some false => if orelse.isEmpty then [.pass location] else resolve value orelse
    | none => [.ifThen location test (resolve value body) (resolve value orelse)]
  | .matchCases location subject cases => [.matchCases location subject (resolveCases value cases)]
  | .whileLoop location test body orelse =>
    [.whileLoop location test (resolve value body) (resolve value orelse)]
  | .tryBlock location body handlers orelse finally_ handlesExceptionGroup =>
    [.tryBlock location (resolve value body) (resolveCases value handlers) (resolve value orelse)
      (resolve value finally_) handlesExceptionGroup]

def resolve (value : ExpressionNode L O F → Option Bool) :
    List (Statement L O F X) → List (Statement L O F X)
  | [] => []
  | first :: rest => resolveStatement value first ++ resolve value rest

def resolveCase (value : ExpressionNode L O F → Option Bool) : Case L O F X → Case L O F X
  | .mk pattern body => .mk pattern (resolve value body)

def resolveCases (value : ExpressionNode L O F → Option Bool) :
    List (Case L O F X) → List (Case L O F X)
  | [] => []
  | first :: rest => resolveCase value first :: resolveCases value rest

end

/-! ## 6. The tests that are misread -/

def startsWithInteger : List (ExpressionNode L O F) → Bool
  | .node _ (.constant (.integer _)) :: _ => true
  | _ => false

/-- A triple is read as if `sys.version_info` had no more elements. -/
def misreadTuple (version : Version) (operator : Comparison)
    (elements : List (ExpressionNode L O F)) : Bool :=
  if literalElements elements = none then startsWithInteger elements
  else literalElements elements = some ((versionInfo version).take 3) &&
    operator != .greaterThanOrEquals && operator != .lessThan

def misreadCondition (version : Version) (operator : Comparison)
    (left right : ExpressionNode L O F) : Bool :=
  match right with
  | .node _ (.tuple elements) => isSystemVersion left && misreadTuple version operator elements
  | _ => false

def misreadVersionTest (version : Version) (test : ExpressionNode L O F) : Bool :=
  match extractComparison test with
  | some (operator, left, right) =>
    misreadCondition version operator left right ||
      misreadCondition version operator.inverse right left
  | none => false

def isBytes : ExpressionNode L O F → Bool
  | .node _ (.constant (.string _ .bytes _)) => true
  | _ => false

/-- Bytes are read as the string, the name of an argument is not read, and a literal that is called
    with `sys.platform.startswith` is taken for the call of that with the literal. -/
def misreadCall : ExpressionNode L O F → Bool
  | .node _ (.call callee [.argument name expression] _) =>
    isPlatform "sys.platform.startswith" callee && (name.isSome || isBytes expression) ||
      !isPlatform "sys.platform.startswith" callee &&
        isPlatform "sys.platform.startswith" expression && (stringConstant callee).isSome
  | _ => false

def misreadPlatformTest : ExpressionNode L O F → Bool
  | .node _ (.comparisonOperator left _ right _) =>
    isPlatform "sys.platform" left && isBytes right ||
      isPlatform "sys.platform" right && isBytes left
  | .node _ (.unaryOperator .not operand _) => misreadCall operand
  | test => misreadCall test

/-- The tests of which nothing is said. -/
def misread (version : Version) (test : ExpressionNode L O F) : Bool :=
  misreadVersionTest version test || misreadPlatformTest test

mutual

/-- The tests of the `if`s of a statement, nested ones included. -/
def Statement.tests : Statement L O F X → List (ExpressionNode L O F)
  | .simple _ _ | .pass _ => []
  | .classDefinition _ _ body | .define _ _ body | .withItems _ _ body => testsOf body
  | .forLoop _ _ body orelse | .whileLoop _ _ body orelse => testsOf body ++ testsOf orelse
  | .ifThen _ test body orelse => test :: (testsOf body ++ testsOf orelse)
  | .matchCases _ _ cases => testsOfCases cases
  | .tryBlock _ body handlers orelse finally_ _ =>
    testsOf body ++ testsOfCases handlers ++ testsOf orelse ++ testsOf finally_

def testsOf : List (Statement L O F X) → List (ExpressionNode L O F)
  | [] => []
  | first :: rest => first.tests ++ testsOf rest

def Case.tests : Case L O F X → List (ExpressionNode L O F)
  | .mk _ body => testsOf body

def testsOfCases : List (Case L O F X) → List (ExpressionNode L O F)
  | [] => []
  | first :: rest => first.tests ++ testsOfCases rest

end

/-! ## 7. One test -/

theorem Comparison.evaluate_swap (operator : Comparison) (result : Ordering) :
    operator.evaluate result.swap = operator.inverse.evaluate result := by
  cases operator <;> cases result <;> rfl

theorem compareScalars_swap (left right : Scalar) :
    compareScalars right left = (compareScalars left right).map Ordering.swap := by
  cases left <;> cases right <;> simp only [compareScalars, Option.map_some, Option.map_none]
  · exact congrArg some Std.OrientedCmp.eq_swap
  · exact congrArg some Std.OrientedCmp.eq_swap

theorem compareTuples_swap : ∀ left right : List Scalar,
    compareTuples right left = (compareTuples left right).map Ordering.swap
  | [], [] => rfl
  | [], _ :: _ => rfl
  | _ :: _, [] => rfl
  | left :: lefts, right :: rights => by
    have ih := compareTuples_swap lefts rights
    simp only [compareTuples, compareScalars_swap left right]
    cases hcompare : compareScalars left right with
    | none => rfl
    | some result => cases result <;> simp [ih]

theorem compareValues_swap (left right : Value) :
    compareValues right left = (compareValues left right).map Ordering.swap := by
  cases left with
  | scalar left =>
    cases right with
    | scalar right => exact compareScalars_swap left right
    | tuple right => rfl
  | tuple left =>
    cases right with
    | scalar right => rfl
    | tuple right => exact compareTuples_swap left right

theorem compare_natCast_neg_one (n : ℕ) : compare (n : ℤ) (-1) = .gt := by
  rw [compare_gt_iff_gt]
  omega

theorem compareTuples_cons {left right : Scalar} {lefts rights : List Scalar}
    {first rest : Ordering} (hfirst : compareScalars left right = some first)
    (hrest : compareTuples lefts rights = some rest) :
    compareTuples (left :: lefts) (right :: rights) = some (first.then rest) := by
  simp only [compareTuples, hfirst, Option.bind_some]
  cases first <;> simp [hrest]

theorem Comparison.evaluate_then_gt {operator : Comparison} {result : Ordering}
    (h : result = .eq → operator = .greaterThanOrEquals ∨ operator = .lessThan) :
    operator.evaluate (result.then .gt) = operator.evaluate result := by
  cases result with
  | lt => rfl
  | gt => rfl
  | eq =>
    rcases h rfl with rfl | rfl
    · rfl
    · rfl

theorem tupleCondition_eq_none {version : Version} {operator : Comparison}
    {elements : List (ExpressionNode L O F)} (h : startsWithInteger elements = false) :
    tupleCondition version operator elements = none := by
  revert h
  fun_cases tupleCondition version operator elements <;> simp [startsWithInteger]

theorem compareVersions_eq_eq {version : Version} {major minor micro : ℤ} :
    compareVersions version major minor micro = .eq ↔
      [Scalar.int major, .int minor, .int micro] = (versionInfo version).take 3 := by
  simp [compareVersions, Ordering.then_eq_eq, versionInfo, eq_comm (b := major),
    eq_comm (b := minor), eq_comm (b := micro)]

/-- On a tuple that is not misread, the hand-written comparison is that of Python. -/
theorem tupleCondition_eq {version : Version} {operator : Comparison}
    {elements : List (ExpressionNode L O F)}
    (hread : misreadTuple version operator elements = false) :
    tupleCondition version operator elements =
      ((literalElements elements).bind (compareTuples (versionInfo version))).map
        operator.evaluate := by
  have hminor := compare_natCast_neg_one version.minor
  have hmicro := compare_natCast_neg_one version.micro
  revert hread
  fun_cases literalElements elements <;> intro hread
  case case1 major =>
    have h : compareTuples (versionInfo version) [.int major] = _ :=
      compareTuples_cons rfl rfl
    simp [tupleCondition, h, evaluateThreeVersions, compareVersions, compareReleaseLevel, hminor]
  case case2 major _ minor =>
    have h : compareTuples (versionInfo version) [.int major, .int minor] = _ :=
      compareTuples_cons rfl (compareTuples_cons rfl rfl)
    simp [tupleCondition, h, evaluateThreeVersions, compareVersions, compareReleaseLevel, hmicro]
  case case3 major _ minor _ micro =>
    have h : compareTuples (versionInfo version) [.int major, .int minor, .int micro] = _ :=
      compareTuples_cons rfl (compareTuples_cons rfl (compareTuples_cons rfl rfl))
    -- only here does it matter whether the triple is the running version
    have hequal : compareVersions version major minor micro = .eq →
        operator = .greaterThanOrEquals ∨ operator = .lessThan := by
      intro hversion
      rw [compareVersions_eq_eq] at hversion
      by_contra hoperator
      simp only [not_or] at hoperator
      simp [misreadTuple, literalElements, hversion, hoperator] at hread
    have hgt := Comparison.evaluate_then_gt hequal
    simp only [compareVersions] at hgt
    simp [tupleCondition, h, evaluateThreeVersions, compareVersions, compareReleaseLevel,
      Ordering.then_assoc] at hgt ⊢
    exact hgt.symm
  case case4 major _ minor _ micro _ level _ =>
    have h : compareTuples (versionInfo version) [.int major, .int minor, .int micro, .str level] =
        _ :=
      compareTuples_cons rfl (compareTuples_cons rfl (compareTuples_cons rfl
        (compareTuples_cons rfl rfl)))
    simp [tupleCondition, h, evaluateThreeVersions, compareVersions, compareReleaseLevel,
      Ordering.then_assoc, show compare (0 : ℤ) (-1) = .gt from rfl]
  case case5 major _ minor _ micro _ level _ _ serial =>
    have h : compareTuples (versionInfo version)
        [.int major, .int minor, .int micro, .str level, .int serial] = _ :=
      compareTuples_cons rfl (compareTuples_cons rfl (compareTuples_cons rfl
        (compareTuples_cons rfl (compareTuples_cons rfl rfl))))
    simp [tupleCondition, h, evaluateThreeVersions, compareVersions, compareReleaseLevel, Ordering.then_assoc]
  case case6 h₁ h₂ h₃ h₄ h₅ =>
    have hnone : literalElements elements = none := literalElements.eq_6 elements h₁ h₂ h₃ h₄ h₅
    simp only [misreadTuple, hnone, if_true] at hread
    exact tupleCondition_eq_none hread

/-! Which element an expression accesses -/

theorem not_access_of_isSystemVersion {expression : ExpressionNode L O F}
    (h : isSystemVersion expression = true) (index : ℤ) (attributeName : String) :
    isSystemVersionTupleAccess index expression = false ∧
      isSystemVersionAttributeAccess attributeName expression = false := by
  revert h
  fun_cases isSystemVersion expression <;>
    simp [isSystemVersionTupleAccess, isSystemVersionAttributeAccess, isSystemVersion]

theorem not_attributeAccess_of_tupleAccess {expression : ExpressionNode L O F} {index : ℤ}
    (h : isSystemVersionTupleAccess index expression = true) (attributeName : String) :
    isSystemVersionAttributeAccess attributeName expression = false := by
  revert h
  fun_cases isSystemVersionTupleAccess index expression <;>
    simp [isSystemVersionAttributeAccess]

/-- The six cases of an integer, in the order of Python's elements. -/
theorem elementCondition_eq (version : Version) (operator : Comparison)
    (left : ExpressionNode L O F) (given : ℤ) :
    elementCondition version operator left given =
      ((versionValue version left).bind fun actual =>
        compareValues actual (.scalar (.int given))).map operator.evaluate := by
  cases hsystem : isSystemVersion left with
  | true =>
    have htuple := fun index => (not_access_of_isSystemVersion hsystem index "").1
    have hattribute := fun name => (not_access_of_isSystemVersion hsystem 0 name).2
    simp [elementCondition, versionValue, hsystem, htuple, hattribute, compareValues]
  | false =>
    cases h₀ : isSystemVersionTupleAccess 0 left with
    | true => simp [elementCondition, versionValue, hsystem, h₀, compareValues, compareScalars]
    | false =>
      cases h₁ : isSystemVersionTupleAccess 1 left with
      | true =>
        have hattribute := not_attributeAccess_of_tupleAccess h₁
        simp [elementCondition, versionValue, hsystem, h₀, h₁, hattribute, compareValues,
          compareScalars]
      | false =>
        cases h₂ : isSystemVersionTupleAccess 2 left with
        | true =>
          have hattribute := not_attributeAccess_of_tupleAccess h₂
          simp [elementCondition, versionValue, hsystem, h₀, h₁, h₂, hattribute, compareValues,
            compareScalars]
        | false =>
          simp only [elementCondition, versionValue, hsystem, h₀, h₁, h₂, Bool.false_or, if_false,
            Bool.false_eq_true]
          split_ifs <;> simp [compareValues, compareScalars]

/-- What a comparison with `left` in the first place comes to in Python. -/
theorem versionCondition_eq {version : Version} {operator : Comparison}
    {left right : ExpressionNode L O F}
    (hread : misreadCondition version operator left right = false) :
    versionCondition version operator left right =
      ((versionValue version left).bind fun actual =>
        (literalValue right).bind (compareValues actual)).map operator.evaluate := by
  revert hread
  fun_cases versionCondition version operator left right <;> intro hread
  case case1 location elements hsystem =>
    simp only [misreadCondition, hsystem, Bool.true_and] at hread
    rw [tupleCondition_eq hread]
    simp only [versionValue, hsystem, if_true, Option.bind_some, literalValue]
    cases literalElements elements <;> rfl
  case case2 location elements hsystem =>
    simp only [versionValue, hsystem, literalValue]
    cases literalElements elements <;> split_ifs <;> simp_all [compareValues]
  case case3 location given => simp [literalValue, elementCondition_eq]
  case case4 h₁ h₂ =>
    have hnone : literalValue right = none := literalValue.eq_3 right h₂ h₁
    simp [hnone]

theorem versionTest_eq {version : Version} {test : ExpressionNode L O F}
    (hread : misreadVersionTest version test = false) :
    versionTest version test = pythonVersionTest version test := by
  unfold versionTest pythonVersionTest
  unfold misreadVersionTest at hread
  cases hextract : extractComparison test with
  | none => rfl
  | some comparison =>
    obtain ⟨operator, left, right⟩ := comparison
    simp only [hextract, Bool.or_eq_false_iff] at hread
    obtain ⟨hleft, hright⟩ := hread
    have hflip : ((versionValue version right).bind fun actual =>
        (literalValue left).bind (compareValues actual)).map operator.inverse.evaluate =
        ((literalValue left).bind fun given =>
          (versionValue version right).bind (compareValues given)).map operator.evaluate := by
      cases versionValue version right with
      | none => cases literalValue left <;> rfl
      | some actual =>
        cases literalValue left with
        | none => rfl
        | some given =>
          simp only [Option.bind_some, compareValues_swap actual given, Option.map_map]
          congr 1
          funext result
          exact (Comparison.evaluate_swap operator result).symm
    simp only [versionCondition_eq hleft, versionCondition_eq hright, hflip, Option.map_or]

theorem stringConstant_eq {expression : ExpressionNode L O F} (h : isBytes expression = false) :
    stringConstant expression = textLiteral expression := by
  fun_cases textLiteral expression
  case case1 => rfl
  case case2 hother =>
    fun_cases stringConstant expression
    case case1 location value kind qualifiedExpression =>
      cases kind with
      | string => exact absurd rfl (hother location value qualifiedExpression)
      | bytes => simp [isBytes] at h
    case case2 => rfl

theorem callTest_eq {platform : String} {test : ExpressionNode L O F}
    (hread : misreadCall test = false) :
    callTest platform test = pythonStartsWith platform test := by
  fun_cases callTest platform test
  case case1 location callee name expression origin =>
    simp only [misreadCall, Bool.or_eq_false_iff, Bool.and_eq_false_iff] at hread
    obtain ⟨hcallee, hargument⟩ := hread
    cases hstarts : isPlatform "sys.platform.startswith" callee with
    | true =>
      obtain ⟨hname, hbytes⟩ := hcallee.resolve_left (by simp [hstarts])
      obtain rfl : name = none := by simpa using hname
      simp [pythonStartsWith, getPlatformString, hstarts, stringConstant_eq hbytes]
    | false =>
      have hnone : getPlatformString "sys.platform.startswith" callee expression = none := by
        simp only [getPlatformString, hstarts, if_false, Bool.false_eq_true]
        split_ifs with hexpression
        · simpa [hstarts, hexpression] using hargument
        · rfl
      cases name <;> simp [pythonStartsWith, hnone, hstarts]
  case case2 hother =>
    symm
    exact pythonStartsWith.eq_2 platform test
      fun location callee expression origin => hother location callee none expression origin

theorem getPlatformString_eq {left right : ExpressionNode L O F}
    (hread : (isPlatform "sys.platform" left && isBytes right ||
      isPlatform "sys.platform" right && isBytes left) = false) :
    getPlatformString "sys.platform" left right = comparedText left right := by
  simp only [Bool.or_eq_false_iff, Bool.and_eq_false_iff] at hread
  unfold getPlatformString comparedText
  split_ifs with hleft hright
  · exact stringConstant_eq (hread.1.resolve_left (by simp [hleft]))
  · exact stringConstant_eq (hread.2.resolve_left (by simp [hright]))
  · rfl

theorem platformTest_eq {platform : String} {test : ExpressionNode L O F}
    (hread : misreadPlatformTest test = false) :
    platformTest platform test = pythonPlatformTest true platform test := by
  fun_cases platformTest platform test
  case case1 => rw [getPlatformString_eq hread]; rfl
  case case2 => rw [getPlatformString_eq hread]; rfl
  case case3 => rw [getPlatformString_eq hread]; rfl
  case case4 => rw [getPlatformString_eq hread]; rfl
  case case5 h₁ h₂ h₃ h₄ => simp [pythonPlatformTest]
  case case6 => rw [callTest_eq hread]; rfl
  case case7 hcomparison hnot =>
    rw [misreadPlatformTest.eq_3 test hcomparison hnot] at hread
    rw [pythonPlatformTest.eq_7 true platform test hcomparison hnot, callTest_eq hread]

theorem test_eq {version : Version} {platform : String} {test : ExpressionNode L O F}
    (hread : misread version test = false) :
    (versionTest version test).or (platformTest platform test) =
      pythonTest true version platform test := by
  simp only [misread, Bool.or_eq_false_iff] at hread
  rw [pythonTest, versionTest_eq hread.1, platformTest_eq hread.2]

/-! ## 8. A pass -/

mutual

theorem resolveStatement_ne_nil (value : ExpressionNode L O F → Option Bool) :
    ∀ statement : Statement L O F X, (resolveStatement value statement).isEmpty = false
  | .simple _ _ | .pass _ | .classDefinition _ _ _ | .define _ _ _ | .withItems _ _ _
  | .forLoop _ _ _ _ | .matchCases _ _ _ | .whileLoop _ _ _ _ | .tryBlock _ _ _ _ _ _ => rfl
  | .ifThen location test body orelse => by
    have hbody := isEmpty_resolve value body
    have horelse := isEmpty_resolve value orelse
    unfold resolveStatement
    split <;> (try split) <;> simp_all

theorem isEmpty_resolve (value : ExpressionNode L O F → Option Bool) :
    ∀ body : List (Statement L O F X), (resolve value body).isEmpty = body.isEmpty
  | [] => rfl
  | first :: rest => by
    have hfirst := resolveStatement_ne_nil value first
    simp_all [resolve]

end

@[simp] theorem addPassStatement_resolve (value : ExpressionNode L O F → Option Bool) (location : L)
    (body : List (Statement L O F X)) :
    addPassStatement location (resolve value body) =
      if body.isEmpty then [.pass location] else resolve value body := by
  rw [addPassStatement, isEmpty_resolve]

section

attribute [local simp] transformStatement resolveStatement replaceIf

mutual

/-- The transformer resolves the branches that are dropped as well; that makes no difference. -/
theorem transformStatement_eq (value : ExpressionNode L O F → Option Bool) :
    ∀ statement : Statement L O F X,
      transformStatement (replaceIf value) statement = resolveStatement value statement
  | .simple _ _ => rfl
  | .pass _ => rfl
  | .classDefinition _ _ body => by
    simp [transformStatements_eq value body]
  | .define _ _ body => by
    simp [transformStatements_eq value body]
  | .withItems _ _ body => by
    simp [transformStatements_eq value body]
  | .forLoop _ _ body orelse => by
    simp [transformStatements_eq value body,
      transformStatements_eq value orelse]
  | .ifThen _ test body orelse => by
    simp [transformStatements_eq value body,
      transformStatements_eq value orelse]
  | .matchCases _ _ cases => by
    simp [transformCases_eq value cases]
  | .whileLoop _ _ body orelse => by
    simp [transformStatements_eq value body,
      transformStatements_eq value orelse]
  | .tryBlock _ body handlers orelse finally_ _ => by
    simp [transformStatements_eq value body,
      transformCases_eq value handlers, transformStatements_eq value orelse,
      transformStatements_eq value finally_]

theorem transformStatements_eq (value : ExpressionNode L O F → Option Bool) :
    ∀ body : List (Statement L O F X),
      transformStatements (replaceIf value) body = resolve value body
  | [] => rfl
  | first :: rest => by
    rw [transformStatements, resolve, transformStatement_eq value first,
      transformStatements_eq value rest]

theorem transformCase_eq (value : ExpressionNode L O F → Option Bool) :
    ∀ case : Case L O F X, transformCase (replaceIf value) case = resolveCase value case
  | .mk _ body => by rw [transformCase, resolveCase, transformStatements_eq value body]

theorem transformCases_eq (value : ExpressionNode L O F → Option Bool) :
    ∀ cases : List (Case L O F X), transformCases (replaceIf value) cases = resolveCases value cases
  | [] => rfl
  | first :: rest => by
    rw [transformCases, resolveCases, transformCase_eq value first, transformCases_eq value rest]

end

end

/-! ## 9. Both passes -/

theorem resolve_append (value : ExpressionNode L O F → Option Bool)
    (left right : List (Statement L O F X)) :
    resolve value (left ++ right) = resolve value left ++ resolve value right := by
  induction left with
  | nil => rfl
  | cons first rest ih => simp [resolve, ih]

theorem resolve_singleton (value : ExpressionNode L O F → Option Bool)
    (statement : Statement L O F X) :
    resolve value [statement] = resolveStatement value statement := by
  simp [resolve]

section Passes

variable (first second : ExpressionNode L O F → Option Bool)

section

attribute [local simp] resolveStatement resolve_singleton

mutual

theorem resolve_resolveStatement : ∀ statement : Statement L O F X,
    resolve second (resolveStatement first statement) =
      resolveStatement (fun test => (first test).or (second test)) statement
  | .simple _ _ => rfl
  | .pass _ => rfl
  | .classDefinition _ _ body => by
    simp [resolve_resolve body]
  | .define _ _ body => by
    simp [resolve_resolve body]
  | .withItems _ _ body => by
    simp [resolve_resolve body]
  | .forLoop _ _ body orelse => by
    simp [resolve_resolve body, resolve_resolve orelse]
  | .ifThen location test body orelse => by
    have hbody := resolve_resolve body
    have horelse := resolve_resolve orelse
    cases htest : first test with
    | none =>
      simp only [resolveStatement, htest, resolve_singleton, Option.none_or, isEmpty_resolve,
        hbody, horelse]
    | some value =>
      cases value with
      | true =>
        simp only [resolveStatement, htest, Option.some_or]
        split <;> simp [resolve_singleton, resolveStatement, hbody]
      | false =>
        simp only [resolveStatement, htest, Option.some_or]
        split <;> simp [resolve_singleton, resolveStatement, horelse]
  | .matchCases _ _ cases => by
    simp [resolve_resolveCases cases]
  | .whileLoop _ _ body orelse => by
    simp [resolve_resolve body, resolve_resolve orelse]
  | .tryBlock _ body handlers orelse finally_ _ => by
    simp [resolve_resolve body, resolve_resolveCases handlers,
      resolve_resolve orelse, resolve_resolve finally_]

/-- A pass after a pass resolves the tests of both. -/
theorem resolve_resolve : ∀ body : List (Statement L O F X),
    resolve second (resolve first body) =
      resolve (fun test => (first test).or (second test)) body
  | [] => rfl
  | statement :: rest => by
    rw [resolve, resolve, resolve_append, resolve_resolveStatement statement, resolve_resolve rest]

theorem resolve_resolveCase : ∀ case : Case L O F X,
    resolveCase second (resolveCase first case) =
      resolveCase (fun test => (first test).or (second test)) case
  | .mk _ body => by rw [resolveCase, resolveCase, resolveCase, resolve_resolve body]

theorem resolve_resolveCases : ∀ cases : List (Case L O F X),
    resolveCases second (resolveCases first cases) =
      resolveCases (fun test => (first test).or (second test)) cases
  | [] => rfl
  | case :: rest => by
    rw [resolveCases, resolveCases, resolveCases, resolve_resolveCase case,
      resolve_resolveCases rest]

end

end

end Passes

mutual

theorem resolveStatement_congr {value value' : ExpressionNode L O F → Option Bool} :
    ∀ statement : Statement L O F X, (∀ test ∈ statement.tests, value test = value' test) →
      resolveStatement value statement = resolveStatement value' statement
  | .simple _ _, _ => rfl
  | .pass _, _ => rfl
  | .classDefinition _ _ body, h => by
    rw [resolveStatement, resolveStatement, resolve_congr body h]
  | .define _ _ body, h => by
    rw [resolveStatement, resolveStatement, resolve_congr body h]
  | .withItems _ _ body, h => by
    rw [resolveStatement, resolveStatement, resolve_congr body h]
  | .forLoop _ _ body orelse, h => by
    simp only [Statement.tests, List.forall_mem_append] at h
    rw [resolveStatement, resolveStatement, resolve_congr body h.1, resolve_congr orelse h.2]
  | .ifThen _ test body orelse, h => by
    simp only [Statement.tests, List.forall_mem_cons, List.forall_mem_append] at h
    rw [resolveStatement, resolveStatement, h.1, resolve_congr body h.2.1,
      resolve_congr orelse h.2.2]
  | .matchCases _ _ cases, h => by
    rw [resolveStatement, resolveStatement, resolveCases_congr cases h]
  | .whileLoop _ _ body orelse, h => by
    simp only [Statement.tests, List.forall_mem_append] at h
    rw [resolveStatement, resolveStatement, resolve_congr body h.1, resolve_congr orelse h.2]
  | .tryBlock _ body handlers orelse finally_ _, h => by
    simp only [Statement.tests, List.forall_mem_append] at h
    rw [resolveStatement, resolveStatement, resolve_congr body h.1.1.1,
      resolveCases_congr handlers h.1.1.2, resolve_congr orelse h.1.2, resolve_congr finally_ h.2]

theorem resolve_congr {value value' : ExpressionNode L O F → Option Bool} :
    ∀ body : List (Statement L O F X), (∀ test ∈ testsOf body, value test = value' test) →
      resolve value body = resolve value' body
  | [], _ => rfl
  | first :: rest, h => by
    simp only [testsOf, List.forall_mem_append] at h
    rw [resolve, resolve, resolveStatement_congr first h.1, resolve_congr rest h.2]

theorem resolveCase_congr {value value' : ExpressionNode L O F → Option Bool} :
    ∀ case : Case L O F X, (∀ test ∈ case.tests, value test = value' test) →
      resolveCase value case = resolveCase value' case
  | .mk _ body, h => by rw [resolveCase, resolveCase, resolve_congr body h]

theorem resolveCases_congr {value value' : ExpressionNode L O F → Option Bool} :
    ∀ cases : List (Case L O F X), (∀ test ∈ testsOfCases cases, value test = value' test) →
      resolveCases value cases = resolveCases value' cases
  | [], _ => rfl
  | first :: rest, h => by
    simp only [testsOfCases, List.forall_mem_append] at h
    rw [resolveCases, resolveCases, resolveCase_congr first h.1, resolveCases_congr rest h.2]

end

/-- Unless a test is misread, the program that is left is the one that Python executes. -/
theorem replaceConditionalCode_eq_resolve (version : Version) (platform : String)
    (source : List (Statement L O F X))
    (hread : ∀ test ∈ testsOf source, misread version test = false) :
    replaceConditionalCode version platform source =
      resolve (pythonTest true version platform) source := by
  have hpasses : replaceConditionalCode version platform source =
      resolve (fun test => (versionTest version test).or (platformTest platform test)) source := by
    rw [replaceConditionalCode, replacePlatformSpecificCode, replaceVersionSpecificCode,
      transformStatements_eq, transformStatements_eq, resolve_resolve]
  rw [hpasses]
  exact resolve_congr source fun test htest => test_eq (hread test htest)

/-- `sys.version_info`, or another attribute of `sys`. -/
def sysAttribute (attributeName : String) : ExpressionNode Unit Unit Unit :=
  .node () (.name (.attribute (.node () (.name (.identifier "sys"))) attributeName none))

/-- `sys.version_info ⋈ (major, minor, …)`. -/
def versionComparison (operator : ComparisonOperator) (elements : List ℤ) :
    ExpressionNode Unit Unit Unit :=
  .node () (.comparisonOperator (sysAttribute "version_info") operator
    (.node () (.tuple (elements.map fun element => .node () (.constant (.integer element))))) none)

/-- `sys.platform ⋈ "platform"`. -/
def platformComparison (operator : ComparisonOperator) (platform : String) :
    ExpressionNode Unit Unit Unit :=
  .node () (.comparisonOperator (sysAttribute "platform") operator
    (.node () (.constant (.string platform .string none))) none)

/-- A branch in a branch: `3.8.1` on `linux` is past `(3, 8)`, and not `win32`. -/
theorem replaceConditionalCode_eq_resolve_nested :
    replaceConditionalCode ⟨3, 8, 1⟩ "linux"
      [Statement.ifThen () (versionComparison .greaterThan [3, 8])
        [.ifThen () (platformComparison .equals "win32") [.simple () 1] []] [.simple () 2]] =
      [.pass ()] :=
  (replaceConditionalCode_eq_resolve ⟨3, 8, 1⟩ "linux" _ (by decide)).trans rfl

/-- `sys.platform is "linux"` is none of the tests with `==`, `!=` or `startswith`, and is resolved;
    and `(3, 8, 0)` is taken for the version of a final release `3.8.0`, which has two elements
    more. -/
theorem not_replaceConditionalCode_eq_resolve :
    replaceConditionalCode ⟨3, 8, 0⟩ "linux"
        [Statement.ifThen () (platformComparison .is "linux") [.pass (), .simple () 1] []] ≠
      resolve (pythonTest false ⟨3, 8, 0⟩ "linux")
        [Statement.ifThen () (platformComparison .is "linux") [.pass (), .simple () 1] []] ∧
    replaceConditionalCode ⟨3, 8, 0⟩ "linux"
        [Statement.ifThen () (versionComparison .equals [3, 8, 0]) [.pass (), .simple () 1] []] ≠
      resolve (pythonTest false ⟨3, 8, 0⟩ "linux")
        [Statement.ifThen () (versionComparison .equals [3, 8, 0]) [.pass (), .simple () 1] []] := by
  refine ⟨fun h => ?_, fun h => ?_⟩
  · exact absurd (congrArg List.length h) (by decide)
  · exact absurd (congrArg List.length h) (by decide)

end Pysa.ConditionalCode
