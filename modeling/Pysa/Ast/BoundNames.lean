/-
  Subject: THE NAMES THAT PYTHON BINDS IN A BLOCK.

  What a collector of names is compared with; nothing here is from the source.

  * `walrusNames` -- the targets of the assignment expressions of an expression. They belong to the
    block even inside a comprehension; a lambda is a block of its own, but its defaults are not;
  * `boundNames` -- what a statement binds. The body of a class or a function is a block of its own;
    its decorators, bases, defaults and annotations belong to the block it is in. What the body of a
    class declares global is not counted;
  * `Part` -- all of these names; or without the assignment expressions in some places (`skipped`):
    the defaults of a lambda, the target of a generator, the base of an attribute target,
    annotations, the targets of a deletion and the type of a handler; or without those inside
    comprehensions (`nested`);
  * `plainNames`, `otherNames` -- the same in two parts: names, tuples of names, imports, classes,
    functions and type aliases, at the top or in if, try and with statements; and all the rest;
  * `mem_boundNames_iff` -- nothing is in neither of them; `boundNames_subset` -- the seen names are
    among all.
-/
import Pysa.Ast.Program

namespace Pysa.Ast

open ModuleQualifiers (Reference showReference)

variable {L O F : Type}

/-! ## 1. Expressions and targets -/

/-- Which names are read off: those that the collectors see, all, or those of the block itself. -/
inductive Part where
  | seen
  | all
  | own

/-- The names in a place that the collectors do not look at. -/
def skipped : Part → List String → List String
  | .seen, _ => []
  | _, names => names

def keptIf (keep : Bool) (names : List String) : List String := bif keep then names else []

/-- The names inside a comprehension. -/
def nested : Part → List String → List String
  | .own, _ => []
  | _, names => names

mutual

def walrusNames (part : Part) : ExpressionNode L O F → List String
  | .node _ expression => expressionNames part expression

def expressionNames (part : Part) : Expression L O F → List String
  | .await operand _ => walrusNames part operand
  | .binaryOperator left _ right _ => walrusNames part left ++ walrusNames part right
  | .booleanOperator left _ right _ => walrusNames part left ++ walrusNames part right
  | .call callee arguments _ => argumentNames part arguments ++ walrusNames part callee
  | .comparisonOperator left _ right _ => walrusNames part left ++ walrusNames part right
  | .constant _ => []
  | .dictionary entries => entryNames part entries
  | .dictionaryComprehension element generators =>
    nested part (generatorNames part generators ++ keyValueNames part element)
  | .generator element generators =>
    nested part (generatorNames part generators ++ walrusNames part element)
  | .formatString substrings => substringNames part substrings
  | .lambda parameters _ => skipped part (parameterNames part parameters)
  | .list elements => walrusNamesList part elements
  | .listComprehension element generators =>
    nested part (generatorNames part generators ++ walrusNames part element)
  | .name name => nameNames part name
  | .set elements => walrusNamesList part elements
  | .setComprehension element generators =>
    nested part (generatorNames part generators ++ walrusNames part element)
  | .slice start stop step _ =>
    optionalNames part start ++ optionalNames part stop ++ optionalNames part step
  | .starred value => starredNames part value
  | .subscript base index _ => walrusNames part base ++ walrusNames part index
  | .ternary target test alternative =>
    walrusNames part target ++ walrusNames part test ++ walrusNames part alternative
  | .tuple elements => walrusNamesList part elements
  | .unaryOperator _ operand _ => walrusNames part operand
  | .walrusOperator target value _ => walrusNames part value ++ targetNames part target
  | .yield value => optionalNames part value
  | .yieldFrom value => walrusNames part value

def targetNames (part : Part) : ExpressionNode L O F → List String
  | .node _ target => targetExpressionNames part target

def targetExpressionNames (part : Part) : Expression L O F → List String
  | .name (.identifier name) => [name]
  | .name (.attribute base _ _) => skipped part (walrusNames part base)
  | .starred value => starredTargetNames part value
  | .subscript base index _ => walrusNames part base ++ walrusNames part index
  | .tuple elements => targetNamesList part elements
  | .list elements => targetNamesList part elements
  | _ => []

def starredTargetNames (part : Part) : Starred L O F → List String
  | .once value => targetNames part value
  | .twice value => targetNames part value

def targetNamesList (part : Part) : List (ExpressionNode L O F) → List String
  | [] => []
  | head :: tail => targetNames part head ++ targetNamesList part tail

def nameNames (part : Part) : Name L O F → List String
  | .attribute base _ _ => walrusNames part base
  | .identifier _ => []

def starredNames (part : Part) : Starred L O F → List String
  | .once value => walrusNames part value
  | .twice value => walrusNames part value

def walrusNamesList (part : Part) : List (ExpressionNode L O F) → List String
  | [] => []
  | head :: tail => walrusNames part head ++ walrusNamesList part tail

def optionalNames (part : Part) : Option (ExpressionNode L O F) → List String
  | none => []
  | some expression => walrusNames part expression

def argumentNames (part : Part) : List (Argument L O F) → List String
  | [] => []
  | .argument _ value :: tail => walrusNames part value ++ argumentNames part tail

def keyValueNames (part : Part) : KeyValue L O F → List String
  | .keyValue key value => walrusNames part key ++ walrusNames part value

def entryName (part : Part) : Entry L O F → List String
  | .keyValue keyValue => keyValueNames part keyValue
  | .splat value => walrusNames part value

def entryNames (part : Part) : List (Entry L O F) → List String
  | [] => []
  | head :: tail => entryName part head ++ entryNames part tail

/-- An assignment expression must not stand in what a comprehension iterates over. -/
def generatorNames (part : Part) : List (Generator L O F) → List String
  | [] => []
  | .generator target _ conditions _ :: tail =>
    skipped part (walrusNames part target) ++ walrusNamesList part conditions ++
      generatorNames part tail

/-- The defaults of parameters. -/
def parameterNames (part : Part) : List (Parameter L O F) → List String
  | [] => []
  | .parameter _ _ value _ :: tail => optionalNames part value ++ parameterNames part tail

def substringNames (part : Part) : List (Substring L O F) → List String
  | [] => []
  | .literal _ :: tail => substringNames part tail
  | .format value formatSpec :: tail =>
    walrusNames part value ++ optionalNames part formatSpec ++ substringNames part tail

end

mutual

/-- The names in a target that are assigned to themselves, without its assignment expressions. -/
def bareNames : ExpressionNode L O F → List String
  | .node _ target => bareExpressionNames target

def bareExpressionNames : Expression L O F → List String
  | .name (.identifier name) => [name]
  | .starred value => bareStarredNames value
  | .tuple elements => bareNamesList elements
  | .list elements => bareNamesList elements
  | _ => []

def bareStarredNames : Starred L O F → List String
  | .once value => bareNames value
  | .twice value => bareNames value

def bareNamesList : List (ExpressionNode L O F) → List String
  | [] => []
  | head :: tail => bareNames head ++ bareNamesList tail

end

/-- The annotations of parameters. -/
def parameterAnnotationNames (part : Part) : List (Parameter L O F) → List String
  | [] => []
  | .parameter _ _ _ annotation :: tail =>
    optionalNames part annotation ++ parameterAnnotationNames part tail

def signatureAnnotationNames (part : Part) (signature : Signature L O F) : List String :=
  parameterAnnotationNames part signature.parameters ++ optionalNames part signature.returns

/-! ## 2. Statements -/

mutual

/-- The captures of a pattern. -/
def patternNames (part : Part) : PatternNode L O F → List String
  | .node _ pattern => patternValueNames part pattern

def patternValueNames (part : Part) : Pattern L O F → List String
  | .matchAs pattern name => name :: optionalPatternNames part pattern
  | .matchClass _ patterns _ keywordPatterns => patternNamesList part patterns ++
      patternNamesList part keywordPatterns
  | .matchMapping _ patterns rest => patternNamesList part patterns ++ rest.toList
  | .matchOr patterns => patternNamesList part patterns
  | .matchSequence patterns => patternNamesList part patterns
  | .matchSingleton _ => []
  | .matchStar name => name.toList
  | .matchValue value => walrusNames part value
  | .matchWildcard => []

def optionalPatternNames (part : Part) : Option (PatternNode L O F) → List String
  | none => []
  | some pattern => patternNames part pattern

def patternNamesList (part : Part) : List (PatternNode L O F) → List String
  | [] => []
  | head :: tail => patternNames part head ++ patternNamesList part tail

end

/-- The name that an import binds: `import a.b` binds `a`. -/
def importedName (source : Option (Node L Reference)) (item : ImportItem) : String :=
  item.alias_.getD (if source.isSome then showReference item.name.reference else item.name.head)

def itemNames (part : Part) :
    List (ExpressionNode L O F × Option (ExpressionNode L O F)) → List String
  | [] => []
  | (expression, target) :: tail =>
    walrusNames part expression ++ target.elim [] (targetNames part) ++ itemNames part tail

mutual

def boundNames (part : Part) : StatementNode L O F → List String
  | .node _ statement => statementNames part statement

def statementNames (part : Part) : Statement L O F → List String
  | .assign target annotation value =>
    skipped part (optionalNames part annotation) ++
      (optionalNames part value ++ targetNames part target)
  | .assert test message => walrusNames part test ++ optionalNames part message
  | .augmentedAssign target value => walrusNames part value ++ targetNames part target
  | .breakLoop => []
  | .classDefinition name baseArguments decorators _ =>
    showReference name :: (walrusNamesList part decorators ++ argumentNames part baseArguments)
  | .continueLoop => []
  | .define signature _ =>
    showReference signature.name :: (skipped part (signatureAnnotationNames part signature) ++
      walrusNamesList part signature.decorators ++ parameterNames part signature.parameters)
  | .delete targets => skipped part (walrusNamesList part targets)
  | .expression value => walrusNames part value
  | .forLoop target iterator body orelse =>
    targetNames part target ++ walrusNames part iterator ++ boundNamesList part body ++
      boundNamesList part orelse
  | .global _ => []
  | .ifThen test body orelse =>
    walrusNames part test ++ boundNamesList part body ++ boundNamesList part orelse
  | .importNames source imports => imports.map fun item => importedName source item.value
  | .matchCases subject cases => walrusNames part subject ++ caseNames part cases
  | .nonlocal _ => []
  | .pass => []
  | .raise expression source => optionalNames part expression ++ optionalNames part source
  | .returnValue expression => optionalNames part expression
  | .tryBlock body handlers orelse finally_ =>
    boundNamesList part body ++ handlerNames part handlers ++ boundNamesList part orelse ++
      boundNamesList part finally_
  | .typeAlias name _ value => walrusNames part value ++ targetNames part name
  | .withBlock items body => itemNames part items ++ boundNamesList part body
  | .whileLoop test body orelse =>
    walrusNames part test ++ boundNamesList part body ++ boundNamesList part orelse

def boundNamesList (part : Part) : List (StatementNode L O F) → List String
  | [] => []
  | head :: tail => boundNames part head ++ boundNamesList part tail

def caseNames (part : Part) : List (Case L O F) → List String
  | [] => []
  | .case pattern guard body :: tail =>
    patternNames part pattern ++ optionalNames part guard ++ boundNamesList part body ++
      caseNames part tail

def handlerNames (part : Part) : List (TryHandler L O F) → List String
  | [] => []
  | .handler kind name body :: tail =>
    skipped part (optionalNames part kind) ++ ((name.map Node.value).toList ++
      boundNamesList part body ++
      handlerNames part tail)

end

/-! ## 3. Plain names and the others -/

def plainElement : ExpressionNode L O F → Option String
  | .node _ (.name (.identifier name)) => some name
  | _ => none

/-- The names of a target that is a name or a tuple of names. -/
def plainTarget : ExpressionNode L O F → Option (List String)
  | .node _ (.name (.identifier name)) => some [name]
  | .node _ (.tuple elements) => elements.mapM plainElement
  | _ => none

/-- What a target binds, if it is neither a name nor a tuple of names. -/
def otherTargetNames (part : Part) (target : ExpressionNode L O F) : List String :=
  if (plainTarget target).isSome then [] else targetNames part target

mutual

def plainNames : StatementNode L O F → List String
  | .node _ statement => plainStatementNames statement

def plainStatementNames : Statement L O F → List String
  | .assign target _ _ => (plainTarget target).getD []
  | .classDefinition name _ _ _ => [showReference name]
  | .define signature _ => [showReference signature.name]
  | .ifThen _ body orelse => plainNamesList body ++ plainNamesList orelse
  | .importNames source imports => imports.map fun item => importedName source item.value
  | .tryBlock body handlers orelse finally_ =>
    plainNamesList body ++ plainHandlerNames handlers ++ plainNamesList orelse ++
      plainNamesList finally_
  | .typeAlias name _ _ => (plainElement name).toList
  | .withBlock _ body => plainNamesList body
  | _ => []

def plainNamesList : List (StatementNode L O F) → List String
  | [] => []
  | head :: tail => plainNames head ++ plainNamesList tail

def plainHandlerNames : List (TryHandler L O F) → List String
  | [] => []
  | .handler _ _ body :: tail => plainNamesList body ++ plainHandlerNames tail

end

mutual

def otherNames (part : Part) : StatementNode L O F → List String
  | .node _ statement => otherStatementNames part statement

def otherStatementNames (part : Part) : Statement L O F → List String
  | .assign target annotation value =>
    skipped part (optionalNames part annotation) ++
      (optionalNames part value ++ otherTargetNames part target)
  | .classDefinition _ baseArguments decorators _ =>
    walrusNamesList part decorators ++ argumentNames part baseArguments
  | .define signature _ =>
    skipped part (signatureAnnotationNames part signature) ++
      walrusNamesList part signature.decorators ++ parameterNames part signature.parameters
  | .ifThen test body orelse =>
    walrusNames part test ++ otherNamesList part body ++ otherNamesList part orelse
  | .importNames _ _ => []
  | .tryBlock body handlers orelse finally_ =>
    otherNamesList part body ++ otherHandlerNames part handlers ++ otherNamesList part orelse ++
      otherNamesList part finally_
  | .typeAlias name _ value =>
    walrusNames part value ++ if (plainElement name).isSome then [] else targetNames part name
  | .withBlock items body => itemNames part items ++ otherNamesList part body
  | statement => statementNames part statement

def otherNamesList (part : Part) : List (StatementNode L O F) → List String
  | [] => []
  | head :: tail => otherNames part head ++ otherNamesList part tail

def otherHandlerNames (part : Part) : List (TryHandler L O F) → List String
  | [] => []
  | .handler kind name body :: tail =>
    skipped part (optionalNames part kind) ++ ((name.map Node.value).toList ++
      otherNamesList part body ++
      otherHandlerNames part tail)

end

/-! ## 4. The two parts -/

theorem targetNames_of_plainElement {part : Part} {target : ExpressionNode L O F} {name : String}
    (h : plainElement target = some name) : targetNames part target = [name] := by
  cases target with
  | node location value =>
    cases value with
    | name value =>
      cases value with
      | «attribute» base attributeName origin => exact absurd h (by simp [plainElement])
      | identifier identifier =>
        have hname : identifier = name := Option.some.inj h
        rw [hname]
        rfl
    | _ => exact absurd h (by simp [plainElement])

theorem targetNamesList_of_plain {part : Part} {elements : List (ExpressionNode L O F)}
    {names : List String}
    (h : elements.mapM plainElement = some names) : targetNamesList part elements = names := by
  induction elements generalizing names with
  | nil => exact Option.some.inj h
  | cons head tail ih =>
    rw [List.mapM_cons] at h
    obtain ⟨name, hname, h⟩ := Option.bind_eq_some_iff.mp h
    obtain ⟨rest, hrest, h⟩ := Option.bind_eq_some_iff.mp h
    have hnames : name :: rest = names := Option.some.inj h
    rw [targetNamesList, targetNames_of_plainElement hname, ih hrest, ← hnames]
    rfl

/-- A plain target binds its names. -/
theorem targetNames_of_plainTarget {part : Part} {target : ExpressionNode L O F}
    {names : List String}
    (h : plainTarget target = some names) : targetNames part target = names := by
  cases target with
  | node location value =>
    cases value with
    | name value =>
      cases value with
      | «attribute» base attributeName origin => exact absurd h (by simp [plainTarget])
      | identifier identifier => exact Option.some.inj h
    | tuple elements => exact targetNamesList_of_plain h
    | _ => exact absurd h (by simp [plainTarget])

theorem mem_targetNames_iff {part : Part} {target : ExpressionNode L O F} {x : String} :
    x ∈ targetNames part target ↔
      x ∈ (plainTarget target).getD [] ∨ x ∈ otherTargetNames part target := by
  rw [otherTargetNames]
  cases h : plainTarget target with
  | none => simp
  | some names =>
    rw [targetNames_of_plainTarget h]
    simp

theorem mem_aliasNames_iff {part : Part} {name : ExpressionNode L O F} {x : String} :
    x ∈ targetNames part name ↔ x ∈ (plainElement name).toList ∨
      x ∈ if (plainElement name).isSome then [] else targetNames part name := by
  cases h : plainElement name with
  | none => simp
  | some identifier =>
    rw [targetNames_of_plainElement h]
    simp

mutual

/-- What a statement binds is plain or one of the others. -/
theorem mem_boundNames_iff {part : Part} {x : String} (statement : StatementNode L O F) :
    x ∈ boundNames part statement ↔ x ∈ plainNames statement ∨ x ∈ otherNames part statement := by
  cases statement with
  | node location value => exact mem_statementNames_iff value

theorem mem_statementNames_iff {part : Part} {x : String} (statement : Statement L O F) :
    x ∈ statementNames part statement ↔
      x ∈ plainStatementNames statement ∨ x ∈ otherStatementNames part statement := by
  cases statement with
  | assign target annotation value =>
    simp only [statementNames, plainStatementNames, otherStatementNames, List.mem_append,
      mem_targetNames_iff]
    tauto
  | classDefinition name baseArguments decorators body =>
    simp only [statementNames, plainStatementNames, otherStatementNames, List.mem_cons,
      List.not_mem_nil, or_false]
  | define signature body =>
    simp only [statementNames, plainStatementNames, otherStatementNames, List.mem_cons,
      List.not_mem_nil, or_false]
  | ifThen test body orelse =>
    simp only [statementNames, plainStatementNames, otherStatementNames, List.mem_append,
      mem_boundNamesList_iff body, mem_boundNamesList_iff orelse]
    tauto
  | importNames source imports =>
    simp only [statementNames, plainStatementNames, otherStatementNames, List.not_mem_nil,
      or_false]
  | tryBlock body handlers orelse finally_ =>
    simp only [statementNames, plainStatementNames, otherStatementNames, List.mem_append,
      mem_boundNamesList_iff body, mem_handlerNames_iff handlers, mem_boundNamesList_iff orelse,
      mem_boundNamesList_iff finally_]
    tauto
  | typeAlias name typeParams value =>
    simp only [statementNames, plainStatementNames, otherStatementNames, List.mem_append,
      mem_aliasNames_iff]
    tauto
  | withBlock items body =>
    simp only [statementNames, plainStatementNames, otherStatementNames, List.mem_append,
      mem_boundNamesList_iff body]
    tauto
  | _ => simp only [plainStatementNames, otherStatementNames, List.not_mem_nil, false_or]

theorem mem_boundNamesList_iff {part : Part} {x : String} (statements : List (StatementNode L O F)) :
    x ∈ boundNamesList part statements ↔
      x ∈ plainNamesList statements ∨ x ∈ otherNamesList part statements := by
  cases statements with
  | nil => simp [boundNamesList, plainNamesList, otherNamesList]
  | cons head tail =>
    simp only [boundNamesList, plainNamesList, otherNamesList, List.mem_append,
      mem_boundNames_iff head, mem_boundNamesList_iff tail]
    tauto

theorem mem_handlerNames_iff {part : Part} {x : String} (handlers : List (TryHandler L O F)) :
    x ∈ handlerNames part handlers ↔
      x ∈ plainHandlerNames handlers ∨ x ∈ otherHandlerNames part handlers := by
  cases handlers with
  | nil => simp [handlerNames, plainHandlerNames, otherHandlerNames]
  | cons head tail =>
    cases head with
    | handler kind name body =>
      simp only [handlerNames, plainHandlerNames, otherHandlerNames, List.mem_append,
        mem_boundNamesList_iff body, mem_handlerNames_iff tail]
      tauto

end

/-! ## 5. The seen names -/

theorem append_subset_append {a a' b b' : List String} (ha : a ⊆ a') (hb : b ⊆ b') :
    a ++ b ⊆ a' ++ b' :=
  List.append_subset.mpr
    ⟨List.subset_append_of_subset_left b' ha, List.subset_append_of_subset_right a' hb⟩

mutual

theorem walrusNames_subset (expression : ExpressionNode L O F) :
    walrusNames .seen expression ⊆ walrusNames .all expression := by
  cases expression with
  | node location value => exact expressionNames_subset value

theorem expressionNames_subset (expression : Expression L O F) :
    expressionNames .seen expression ⊆ expressionNames .all expression := by
  cases expression with
  | await operand origin => exact walrusNames_subset operand
  | binaryOperator left operator right origin =>
    exact append_subset_append (walrusNames_subset left) (walrusNames_subset right)
  | booleanOperator left operator right origin =>
    exact append_subset_append (walrusNames_subset left) (walrusNames_subset right)
  | call callee arguments origin =>
    exact append_subset_append (argumentNames_subset arguments) (walrusNames_subset callee)
  | comparisonOperator left operator right origin =>
    exact append_subset_append (walrusNames_subset left) (walrusNames_subset right)
  | constant value => exact List.nil_subset _
  | dictionary entries => exact entryNames_subset entries
  | dictionaryComprehension element generators =>
    exact append_subset_append (generatorNames_subset generators) (keyValueNames_subset element)
  | generator element generators =>
    exact append_subset_append (generatorNames_subset generators) (walrusNames_subset element)
  | formatString substrings => exact substringNames_subset substrings
  | lambda parameters body => exact List.nil_subset _
  | list elements => exact walrusNamesList_subset elements
  | listComprehension element generators =>
    exact append_subset_append (generatorNames_subset generators) (walrusNames_subset element)
  | name value => exact nameNames_subset value
  | set elements => exact walrusNamesList_subset elements
  | setComprehension element generators =>
    exact append_subset_append (generatorNames_subset generators) (walrusNames_subset element)
  | slice start stop step origin =>
    exact append_subset_append (append_subset_append (optionalNames_subset start)
      (optionalNames_subset stop)) (optionalNames_subset step)
  | starred value => exact starredNames_subset value
  | subscript base index origin =>
    exact append_subset_append (walrusNames_subset base) (walrusNames_subset index)
  | ternary target test alternative =>
    exact append_subset_append (append_subset_append (walrusNames_subset target)
      (walrusNames_subset test)) (walrusNames_subset alternative)
  | tuple elements => exact walrusNamesList_subset elements
  | unaryOperator operator operand origin => exact walrusNames_subset operand
  | walrusOperator target value origin =>
    exact append_subset_append (walrusNames_subset value) (targetNames_subset target)
  | yield value => exact optionalNames_subset value
  | yieldFrom value => exact walrusNames_subset value

theorem targetNames_subset (target : ExpressionNode L O F) :
    targetNames .seen target ⊆ targetNames .all target := by
  cases target with
  | node location value => exact targetExpressionNames_subset value

theorem targetExpressionNames_subset (target : Expression L O F) :
    targetExpressionNames .seen target ⊆ targetExpressionNames .all target := by
  cases target with
  | name value =>
    cases value with
    | «attribute» base attributeName origin => exact List.nil_subset _
    | identifier identifier => exact List.Subset.refl _
  | starred value => exact starredTargetNames_subset value
  | subscript base index origin =>
    exact append_subset_append (walrusNames_subset base) (walrusNames_subset index)
  | tuple elements => exact targetNamesList_subset elements
  | list elements => exact targetNamesList_subset elements
  | _ => exact List.nil_subset _

theorem starredTargetNames_subset (target : Starred L O F) :
    starredTargetNames .seen target ⊆ starredTargetNames .all target := by
  cases target with
  | once value => exact targetNames_subset value
  | twice value => exact targetNames_subset value

theorem targetNamesList_subset (targets : List (ExpressionNode L O F)) :
    targetNamesList .seen targets ⊆ targetNamesList .all targets := by
  cases targets with
  | nil => exact List.nil_subset _
  | cons head tail =>
    exact append_subset_append (targetNames_subset head) (targetNamesList_subset tail)

theorem nameNames_subset (name : Name L O F) : nameNames .seen name ⊆ nameNames .all name := by
  cases name with
  | «attribute» base attributeName origin => exact walrusNames_subset base
  | identifier identifier => exact List.nil_subset _

theorem starredNames_subset (value : Starred L O F) :
    starredNames .seen value ⊆ starredNames .all value := by
  cases value with
  | once value => exact walrusNames_subset value
  | twice value => exact walrusNames_subset value

theorem walrusNamesList_subset (expressions : List (ExpressionNode L O F)) :
    walrusNamesList .seen expressions ⊆ walrusNamesList .all expressions := by
  cases expressions with
  | nil => exact List.nil_subset _
  | cons head tail =>
    exact append_subset_append (walrusNames_subset head) (walrusNamesList_subset tail)

theorem optionalNames_subset (expression : Option (ExpressionNode L O F)) :
    optionalNames .seen expression ⊆ optionalNames .all expression := by
  cases expression with
  | none => exact List.nil_subset _
  | some expression => exact walrusNames_subset expression

theorem argumentNames_subset (arguments : List (Argument L O F)) :
    argumentNames .seen arguments ⊆ argumentNames .all arguments := by
  cases arguments with
  | nil => exact List.nil_subset _
  | cons head tail =>
    cases head with
    | argument name value =>
      exact append_subset_append (walrusNames_subset value) (argumentNames_subset tail)

theorem keyValueNames_subset (keyValue : KeyValue L O F) :
    keyValueNames .seen keyValue ⊆ keyValueNames .all keyValue := by
  cases keyValue with
  | keyValue key value =>
    exact append_subset_append (walrusNames_subset key) (walrusNames_subset value)

theorem entryName_subset (entry : Entry L O F) : entryName .seen entry ⊆ entryName .all entry := by
  cases entry with
  | keyValue keyValue => exact keyValueNames_subset keyValue
  | splat value => exact walrusNames_subset value

theorem entryNames_subset (entries : List (Entry L O F)) :
    entryNames .seen entries ⊆ entryNames .all entries := by
  cases entries with
  | nil => exact List.nil_subset _
  | cons head tail => exact append_subset_append (entryName_subset head) (entryNames_subset tail)

theorem generatorNames_subset (generators : List (Generator L O F)) :
    generatorNames .seen generators ⊆ generatorNames .all generators := by
  cases generators with
  | nil => exact List.nil_subset _
  | cons head tail =>
    cases head with
    | generator target iterator conditions async =>
      exact append_subset_append (append_subset_append (List.nil_subset _)
        (walrusNamesList_subset conditions)) (generatorNames_subset tail)

theorem substringNames_subset (substrings : List (Substring L O F)) :
    substringNames .seen substrings ⊆ substringNames .all substrings := by
  cases substrings with
  | nil => exact List.nil_subset _
  | cons head tail =>
    cases head with
    | literal value => exact substringNames_subset tail
    | format value formatSpec =>
      exact append_subset_append (append_subset_append (walrusNames_subset value)
        (optionalNames_subset formatSpec)) (substringNames_subset tail)

end

theorem parameterNames_subset (parameters : List (Parameter L O F)) :
    parameterNames .seen parameters ⊆ parameterNames .all parameters := by
  induction parameters with
  | nil => exact List.nil_subset _
  | cons head tail ih =>
    cases head with
    | parameter location name value annotation =>
      exact append_subset_append (optionalNames_subset value) ih

mutual

theorem patternNames_subset (pattern : PatternNode L O F) :
    patternNames .seen pattern ⊆ patternNames .all pattern := by
  cases pattern with
  | node location value => exact patternValueNames_subset value

theorem patternValueNames_subset (pattern : Pattern L O F) :
    patternValueNames .seen pattern ⊆ patternValueNames .all pattern := by
  cases pattern with
  | matchAs pattern name => exact List.cons_subset_cons name (optionalPatternNames_subset pattern)
  | matchClass className patterns keywordAttributes keywordPatterns =>
    exact append_subset_append (patternNamesList_subset patterns)
      (patternNamesList_subset keywordPatterns)
  | matchMapping keys patterns rest =>
    exact append_subset_append (patternNamesList_subset patterns) (List.Subset.refl _)
  | matchOr patterns => exact patternNamesList_subset patterns
  | matchSequence patterns => exact patternNamesList_subset patterns
  | matchValue value => exact walrusNames_subset value
  | _ => exact List.Subset.refl _

theorem optionalPatternNames_subset (pattern : Option (PatternNode L O F)) :
    optionalPatternNames .seen pattern ⊆ optionalPatternNames .all pattern := by
  cases pattern with
  | none => exact List.nil_subset _
  | some pattern => exact patternNames_subset pattern

theorem patternNamesList_subset (patterns : List (PatternNode L O F)) :
    patternNamesList .seen patterns ⊆ patternNamesList .all patterns := by
  cases patterns with
  | nil => exact List.nil_subset _
  | cons head tail =>
    exact append_subset_append (patternNames_subset head) (patternNamesList_subset tail)

end

theorem itemNames_subset
    (items : List (ExpressionNode L O F × Option (ExpressionNode L O F))) :
    itemNames .seen items ⊆ itemNames .all items := by
  induction items with
  | nil => exact List.nil_subset _
  | cons head tail ih =>
    obtain ⟨expression, target⟩ := head
    have htarget : target.elim [] (targetNames .seen) ⊆ target.elim [] (targetNames .all) := by
      cases target with
      | none => exact List.nil_subset _
      | some target => exact targetNames_subset target
    exact append_subset_append (append_subset_append (walrusNames_subset expression) htarget) ih

mutual

/-- The seen names are among all. -/
theorem boundNames_subset (statement : StatementNode L O F) :
    boundNames .seen statement ⊆ boundNames .all statement := by
  cases statement with
  | node location value => exact statementNames_subset value

theorem statementNames_subset (statement : Statement L O F) :
    statementNames .seen statement ⊆ statementNames .all statement := by
  cases statement with
  | assign target annotation value =>
    exact append_subset_append (List.nil_subset _)
      (append_subset_append (optionalNames_subset value) (targetNames_subset target))
  | assert test message =>
    exact append_subset_append (walrusNames_subset test) (optionalNames_subset message)
  | augmentedAssign target value =>
    exact append_subset_append (walrusNames_subset value) (targetNames_subset target)
  | classDefinition name baseArguments decorators body =>
    exact List.cons_subset_cons _ (append_subset_append (walrusNamesList_subset decorators)
      (argumentNames_subset baseArguments))
  | define signature body =>
    exact List.cons_subset_cons _ (append_subset_append (append_subset_append
      (List.nil_subset _) (walrusNamesList_subset signature.decorators))
      (parameterNames_subset signature.parameters))
  | delete targets => exact List.nil_subset _
  | expression value => exact walrusNames_subset value
  | forLoop target iterator body orelse =>
    exact append_subset_append (append_subset_append (append_subset_append
      (targetNames_subset target) (walrusNames_subset iterator)) (boundNamesList_subset body))
      (boundNamesList_subset orelse)
  | ifThen test body orelse =>
    exact append_subset_append (append_subset_append (walrusNames_subset test)
      (boundNamesList_subset body)) (boundNamesList_subset orelse)
  | matchCases subject cases =>
    exact append_subset_append (walrusNames_subset subject) (caseNames_subset cases)
  | raise expression source =>
    exact append_subset_append (optionalNames_subset expression) (optionalNames_subset source)
  | returnValue expression => exact optionalNames_subset expression
  | tryBlock body handlers orelse finally_ =>
    exact append_subset_append (append_subset_append (append_subset_append
      (boundNamesList_subset body) (handlerNames_subset handlers))
      (boundNamesList_subset orelse)) (boundNamesList_subset finally_)
  | typeAlias name typeParams value =>
    exact append_subset_append (walrusNames_subset value) (targetNames_subset name)
  | withBlock items body =>
    exact append_subset_append (itemNames_subset items) (boundNamesList_subset body)
  | whileLoop test body orelse =>
    exact append_subset_append (append_subset_append (walrusNames_subset test)
      (boundNamesList_subset body)) (boundNamesList_subset orelse)
  | _ => exact List.Subset.refl _

theorem boundNamesList_subset (statements : List (StatementNode L O F)) :
    boundNamesList .seen statements ⊆ boundNamesList .all statements := by
  cases statements with
  | nil => exact List.nil_subset _
  | cons head tail =>
    exact append_subset_append (boundNames_subset head) (boundNamesList_subset tail)

theorem caseNames_subset (cases_ : List (Case L O F)) :
    caseNames .seen cases_ ⊆ caseNames .all cases_ := by
  cases cases_ with
  | nil => exact List.nil_subset _
  | cons head tail =>
    cases head with
    | case pattern guard body =>
      exact append_subset_append (append_subset_append (append_subset_append
        (patternNames_subset pattern) (optionalNames_subset guard))
        (boundNamesList_subset body)) (caseNames_subset tail)

theorem handlerNames_subset (handlers : List (TryHandler L O F)) :
    handlerNames .seen handlers ⊆ handlerNames .all handlers := by
  cases handlers with
  | nil => exact List.nil_subset _
  | cons head tail =>
    cases head with
    | handler kind name body =>
      exact append_subset_append (List.nil_subset _) (append_subset_append
        (append_subset_append (List.Subset.refl _) (boundNamesList_subset body))
        (handlerNames_subset tail))

end

end Pysa.Ast
