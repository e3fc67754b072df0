/-
  Subject: COLLECTING THE BINDINGS OF A SCOPE (`scope.ml`, `Binding` and `Scope.of_source`).

  * `Adds`, `Collects` -- a collector puts bindings of given names in front of those so far;
  * `Scope.createMap`, `Scope.ofSource` -- the scope of a module;
  * `Scope.mem_ofSource_iff` -- **the names of the scope are those that Python binds, without the
    places that the collectors do not look at**.
-/
import Pysa.Ast.BoundNames
import Pysa.Lib.AssocMap

namespace Pysa.Ast

open ModuleQualifiers (Reference showReference)

/-! ## 1. Bindings -/

inductive BindingStar where
  | once
  | twice
  deriving DecidableEq

/-- `Binding.Kind.Import.t`. -/
inductive BindingImport where
  | name (moduleName : Reference) (originalName : Option String)
  | module (originalName : Option Reference)
  deriving DecidableEq

/-- `Binding.Kind.t`. -/
inductive BindingKind (L O F : Type) where
  | assignTarget (annotationExpression : Option (ExpressionNode L O F))
  | className
  | comprehensionTarget
  | defineName (signature : Signature L O F)
  | exceptTarget (kind : Option (ExpressionNode L O F))
  | forTarget
  | importName (source : BindingImport)
  | matchTarget
  | parameterName (index : ℕ) (annotationExpression : Option (ExpressionNode L O F))
      (star : Option BindingStar)
  | walrusTarget
  | withTarget

structure Binding (L O F : Type) where
  kind : BindingKind L O F
  name : String
  location : L

namespace Binding

variable {L O F : Type}

/-! ## 2. Expressions -/

mutual

def ofUnannotatedTarget (kind : BindingKind L O F) (sofar : List (Binding L O F)) :
    ExpressionNode L O F → List (Binding L O F)
  | .node location target => ofTarget kind sofar location target

def ofTarget (kind : BindingKind L O F) (sofar : List (Binding L O F)) (location : L) :
    Expression L O F → List (Binding L O F)
  | .name (.identifier name) => ⟨kind, name, location⟩ :: sofar
  | .starred value => ofStarredTarget kind sofar value
  | .subscript base index _ => ofExpression (ofExpression sofar base) index
  | .tuple elements => ofTargets kind sofar elements
  | .list elements => ofTargets kind sofar elements
  | _ => sofar

def ofStarredTarget (kind : BindingKind L O F) (sofar : List (Binding L O F)) :
    Starred L O F → List (Binding L O F)
  | .once element => ofUnannotatedTarget kind sofar element
  | .twice element => ofUnannotatedTarget kind sofar element

def ofTargets (kind : BindingKind L O F) (sofar : List (Binding L O F)) :
    List (ExpressionNode L O F) → List (Binding L O F)
  | [] => sofar
  | head :: tail => ofTargets kind (ofUnannotatedTarget kind sofar head) tail

def ofExpression (sofar : List (Binding L O F)) : ExpressionNode L O F → List (Binding L O F)
  | .node _ expression => ofExpressionValue sofar expression

def ofExpressionValue (sofar : List (Binding L O F)) : Expression L O F → List (Binding L O F)
  | .walrusOperator target value _ =>
    ofUnannotatedTarget .walrusTarget (ofExpression sofar value) target
  | .await operand _ => ofExpression sofar operand
  | .name name => ofName sofar name
  | .unaryOperator _ operand _ => ofExpression sofar operand
  | .starred value => ofStarred sofar value
  | .yield value => ofOptionalExpression sofar value
  | .yieldFrom value => ofExpression sofar value
  | .binaryOperator left _ right _ => ofExpression (ofExpression sofar left) right
  | .booleanOperator left _ right _ => ofExpression (ofExpression sofar left) right
  | .comparisonOperator left _ right _ => ofExpression (ofExpression sofar left) right
  | .slice start stop step _ =>
    ofOptionalExpression (ofOptionalExpression (ofOptionalExpression sofar start) stop) step
  | .subscript base index _ => ofExpression (ofExpression sofar base) index
  | .call callee arguments _ => ofExpression (ofArguments sofar arguments) callee
  | .dictionary entries => ofDictionaryEntries sofar entries
  | .dictionaryComprehension element generators =>
    ofKeyvalue (ofGeneratorConditions sofar generators) element
  | .generator element generators => ofExpression (ofGeneratorConditions sofar generators) element
  | .listComprehension element generators =>
    ofExpression (ofGeneratorConditions sofar generators) element
  | .setComprehension element generators =>
    ofExpression (ofGeneratorConditions sofar generators) element
  | .list elements => ofExpressions sofar elements
  | .set elements => ofExpressions sofar elements
  | .tuple elements => ofExpressions sofar elements
  | .ternary target test alternative =>
    ofExpression (ofExpression (ofExpression sofar target) test) alternative
  | .formatString substrings => ofSubstrings sofar substrings
  | .constant _ => sofar
  | .lambda _ _ => sofar

def ofName (sofar : List (Binding L O F)) : Name L O F → List (Binding L O F)
  | .attribute base _ _ => ofExpression sofar base
  | .identifier _ => sofar

def ofStarred (sofar : List (Binding L O F)) : Starred L O F → List (Binding L O F)
  | .once expression => ofExpression sofar expression
  | .twice expression => ofExpression sofar expression

def ofOptionalExpression (sofar : List (Binding L O F)) :
    Option (ExpressionNode L O F) → List (Binding L O F)
  | none => sofar
  | some expression => ofExpression sofar expression

def ofExpressions (sofar : List (Binding L O F)) :
    List (ExpressionNode L O F) → List (Binding L O F)
  | [] => sofar
  | head :: tail => ofExpressions (ofExpression sofar head) tail

def ofArguments (sofar : List (Binding L O F)) : List (Argument L O F) → List (Binding L O F)
  | [] => sofar
  | .argument _ value :: tail => ofArguments (ofExpression sofar value) tail

def ofKeyvalue (sofar : List (Binding L O F)) : KeyValue L O F → List (Binding L O F)
  | .keyValue key value => ofExpression (ofExpression sofar key) value

def ofDictionaryEntry (sofar : List (Binding L O F)) : Entry L O F → List (Binding L O F)
  | .keyValue keyValue => ofKeyvalue sofar keyValue
  | .splat value => ofExpression sofar value

def ofDictionaryEntries (sofar : List (Binding L O F)) : List (Entry L O F) → List (Binding L O F)
  | [] => sofar
  | head :: tail => ofDictionaryEntries (ofDictionaryEntry sofar head) tail

/-- `of_generator` of `of_comprehension`: only the conditions. -/
def ofGeneratorConditions (sofar : List (Binding L O F)) :
    List (Generator L O F) → List (Binding L O F)
  | [] => sofar
  | .generator _ _ conditions _ :: tail =>
    ofGeneratorConditions (ofExpressions sofar conditions) tail

def ofSubstrings (sofar : List (Binding L O F)) : List (Substring L O F) → List (Binding L O F)
  | [] => sofar
  | .literal _ :: tail => ofSubstrings sofar tail
  | .format value formatSpec :: tail =>
    ofSubstrings (ofOptionalExpression (ofExpression sofar value) formatSpec) tail

end

/-! ## 3. Statements -/

def ofDefaults (sofar : List (Binding L O F)) : List (Parameter L O F) → List (Binding L O F)
  | [] => sofar
  | .parameter _ _ value _ :: tail => ofDefaults (ofOptionalExpression sofar value) tail

/-- `binding_of_import`. -/
def ofImport (source : Option (Node L Reference)) (item : Node L ImportItem) : Binding L O F :=
  match source, item.value.alias_ with
  | none, none => ⟨.importName (.module none), item.value.name.head, item.location⟩
  | none, some alias_ =>
    ⟨.importName (.module (some item.value.name.reference)), alias_, item.location⟩
  | some source, none =>
    ⟨.importName (.name source.value none), showReference item.value.name.reference,
      item.location⟩
  | some source, some alias_ =>
    ⟨.importName (.name source.value (some (showReference item.value.name.reference))), alias_,
      item.location⟩

def ofMatchTarget (sofar : List (Binding L O F)) (location : L) (name : String) :
    List (Binding L O F) :=
  ⟨.matchTarget, name, location⟩ :: sofar

mutual

def ofPattern (sofar : List (Binding L O F)) : PatternNode L O F → List (Binding L O F)
  | .node location pattern => ofPatternValue sofar location pattern

def ofPatternValue (sofar : List (Binding L O F)) (location : L) :
    Pattern L O F → List (Binding L O F)
  | .matchAs pattern name => ofMatchTarget (ofOptionalPattern sofar pattern) location name
  | .matchClass _ patterns _ keywordPatterns =>
    ofPatterns (ofPatterns sofar patterns) keywordPatterns
  | .matchMapping _ patterns rest =>
    rest.elim (ofPatterns sofar patterns) (ofMatchTarget (ofPatterns sofar patterns) location)
  | .matchOr patterns => ofPatterns sofar patterns
  | .matchSequence patterns => ofPatterns sofar patterns
  | .matchStar name => name.elim sofar (ofMatchTarget sofar location)
  | .matchValue value => ofExpression sofar value
  | .matchSingleton _ => sofar
  | .matchWildcard => sofar

def ofOptionalPattern (sofar : List (Binding L O F)) :
    Option (PatternNode L O F) → List (Binding L O F)
  | none => sofar
  | some pattern => ofPattern sofar pattern

def ofPatterns (sofar : List (Binding L O F)) : List (PatternNode L O F) → List (Binding L O F)
  | [] => sofar
  | head :: tail => ofPatterns (ofPattern sofar head) tail

end

/-- `bindings_of_item`, over the items. -/
def ofItems (sofar : List (Binding L O F)) :
    List (ExpressionNode L O F × Option (ExpressionNode L O F)) → List (Binding L O F)
  | [] => sofar
  | (expression, target) :: tail =>
    ofItems (target.elim (ofExpression sofar expression)
      (ofUnannotatedTarget .withTarget (ofExpression sofar expression))) tail

mutual

def ofStatement (sofar : List (Binding L O F)) : StatementNode L O F → List (Binding L O F)
  | .node location statement => ofStatementValue sofar location statement

def ofStatementValue (sofar : List (Binding L O F)) (location : L) :
    Statement L O F → List (Binding L O F)
  | .assert test message => ofOptionalExpression (ofExpression sofar test) message
  | .assign (.node location (.name (.identifier name))) (some annotation) value =>
    ⟨.assignTarget (some annotation), name, location⟩ :: ofOptionalExpression sofar value
  | .assign target _ value =>
    ofUnannotatedTarget (.assignTarget none) (ofOptionalExpression sofar value) target
  | .augmentedAssign target value =>
    ofUnannotatedTarget (.assignTarget none) (ofExpression sofar value) target
  | .classDefinition name baseArguments decorators _ =>
    ⟨.className, showReference name, location⟩ ::
      ofArguments (ofExpressions sofar decorators) baseArguments
  | .define signature _ =>
    ⟨.defineName signature, showReference signature.name, location⟩ ::
      ofDefaults (ofExpressions sofar signature.decorators) signature.parameters
  | .expression value => ofExpression sofar value
  | .forLoop target iterator body orelse =>
    ofStatements (ofStatements (ofExpression (ofUnannotatedTarget .forTarget sofar target)
      iterator) body) orelse
  | .ifThen test body orelse => ofStatements (ofStatements (ofExpression sofar test) body) orelse
  | .importNames source imports =>
    imports.foldl (fun sofar item => ofImport source item :: sofar) sofar
  | .matchCases subject cases => ofCases (ofExpression sofar subject) cases
  | .raise expression source => ofOptionalExpression (ofOptionalExpression sofar expression) source
  | .returnValue expression => ofOptionalExpression sofar expression
  | .tryBlock body handlers orelse finally_ =>
    ofStatements (ofStatements (ofHandlers (ofStatements sofar body) handlers) orelse) finally_
  | .whileLoop test body orelse => ofStatements (ofStatements (ofExpression sofar test) body) orelse
  | .withBlock items body => ofStatements (ofItems sofar items) body
  | .typeAlias name _ value =>
    ofUnannotatedTarget (.assignTarget none) (ofExpression sofar value) name
  | .breakLoop => sofar
  | .continueLoop => sofar
  | .delete _ => sofar
  | .global _ => sofar
  | .nonlocal _ => sofar
  | .pass => sofar

def ofStatements (sofar : List (Binding L O F)) :
    List (StatementNode L O F) → List (Binding L O F)
  | [] => sofar
  | head :: tail => ofStatements (ofStatement sofar head) tail

/-- `of_case`, over the cases. -/
def ofCases (sofar : List (Binding L O F)) : List (Case L O F) → List (Binding L O F)
  | [] => sofar
  | .case pattern guard body :: tail =>
    ofCases (ofStatements (ofOptionalExpression (ofPattern sofar pattern) guard) body) tail

/-- `bindings_of_handler`, over the handlers. -/
def ofHandlers (sofar : List (Binding L O F)) : List (TryHandler L O F) → List (Binding L O F)
  | [] => sofar
  | .handler kind name body :: tail =>
    ofHandlers (ofStatements (name.elim sofar fun name =>
      ⟨.exceptTarget kind, name.value, name.location⟩ :: sofar) body) tail

end

/-! ## 4. What the collectors add -/

def isNotWalrusKind : BindingKind L O F → Bool
  | .walrusTarget => false
  | _ => true

def isNotWalrusBinding (binding : Binding L O F) : Bool := isNotWalrusKind binding.kind

/-- The collector puts bindings of `names` in front of those collected so far; the bindings of
    `bare` are those of them that are not the target of an assignment expression. -/
def Adds (collect : List (Binding L O F) → List (Binding L O F)) (names bare : List String) :
    Prop :=
  ∃ added : List (Binding L O F), (∀ sofar, collect sofar = added ++ sofar) ∧
    (∀ x, x ∈ added.map name ↔ x ∈ names) ∧
    ∀ x, x ∈ (added.filter isNotWalrusBinding).map name ↔ x ∈ bare

namespace Adds

variable {f g : List (Binding L O F) → List (Binding L O F)} {a a' b b' : List String}

theorem refl : Adds (fun sofar : List (Binding L O F) => sofar) [] [] :=
  ⟨[], fun _ => rfl, fun _ => Iff.rfl, fun _ => Iff.rfl⟩

theorem comp (hf : Adds f a a') (hg : Adds g b b') :
    Adds (fun sofar => g (f sofar)) (a ++ b) (a' ++ b') := by
  obtain ⟨first, hfirst, hnames, hbare⟩ := hf
  obtain ⟨second, hsecond, hnames', hbare'⟩ := hg
  refine ⟨second ++ first, fun sofar => ?_, fun x => ?_, fun x => ?_⟩
  · show g (f sofar) = _
    rw [hfirst, hsecond, List.append_assoc]
  · rw [List.map_append, List.mem_append, List.mem_append, hnames, hnames', or_comm]
  · rw [List.filter_append, List.map_append, List.mem_append, List.mem_append, hbare, hbare',
      or_comm]

theorem push (kind : BindingKind L O F) (identifier : String) (location : L) (hf : Adds f a a') :
    Adds (fun sofar => ⟨kind, identifier, location⟩ :: f sofar) (identifier :: a)
      (keptIf (isNotWalrusKind kind) [identifier] ++ a') := by
  obtain ⟨added, hadded, hnames, hbare⟩ := hf
  refine ⟨⟨kind, identifier, location⟩ :: added, fun sofar => ?_, fun x => ?_, fun x => ?_⟩
  · exact congrArg (List.cons _) (hadded sofar)
  · rw [List.map_cons, List.mem_cons, List.mem_cons, hnames]
  · rw [List.filter_cons, isNotWalrusBinding, List.mem_append, ← hbare]
    cases isNotWalrusKind kind <;> simp [keptIf]

theorem single (kind : BindingKind L O F) (identifier : String) (location : L) :
    Adds (fun sofar => ⟨kind, identifier, location⟩ :: sofar) [identifier]
      (keptIf (isNotWalrusKind kind) [identifier]) := by
  have h := (refl (L := L) (O := O) (F := F)).push kind identifier location
  rwa [List.append_nil] at h

theorem congr (hf : Adds f a a') (hab : ∀ x, x ∈ a ↔ x ∈ b) : Adds f b a' := by
  obtain ⟨added, hadded, hnames, hbare⟩ := hf
  exact ⟨added, hadded, fun x => (hnames x).trans (hab x), hbare⟩

/-- A target without bare names. -/
theorem noBare (keep : Bool) (hf : Adds f a []) : Adds f a (keptIf keep []) := by
  cases keep <;> exact hf

theorem append_bare {keep : Bool} (hf : Adds f a (keptIf keep a' ++ keptIf keep b')) :
    Adds f a (keptIf keep (a' ++ b')) := by
  cases keep <;> exact hf

/-- What is in front of the bindings collected so far has the given names. -/
theorem mem_iff (hf : Adds f a a') {sofar : List (Binding L O F)} {x : String} :
    x ∈ (f sofar).map name ↔ x ∈ a ∨ x ∈ sofar.map name := by
  obtain ⟨added, hadded, hnames, -⟩ := hf
  rw [hadded, List.map_append, List.mem_append, hnames]

theorem mem_filter_iff (hf : Adds f a a') {sofar : List (Binding L O F)} {x : String} :
    x ∈ ((f sofar).filter isNotWalrusBinding).map name ↔
      x ∈ a' ∨ x ∈ (sofar.filter isNotWalrusBinding).map name := by
  obtain ⟨added, hadded, -, hbare⟩ := hf
  rw [hadded, List.filter_append, List.map_append, List.mem_append, hbare]

end Adds

/-- The same, whatever the assignment expressions among the bindings are. -/
def Collects (collect : List (Binding L O F) → List (Binding L O F)) (names : List String) : Prop :=
  ∃ bare, Adds collect names bare

theorem Adds.collects {f : List (Binding L O F) → List (Binding L O F)} {a a' : List String}
    (hf : Adds f a a') : Collects f a :=
  ⟨a', hf⟩

namespace Collects

variable {f g : List (Binding L O F) → List (Binding L O F)} {a b : List String}

theorem refl : Collects (fun sofar : List (Binding L O F) => sofar) [] := Adds.refl.collects

theorem comp (hf : Collects f a) (hg : Collects g b) :
    Collects (fun sofar => g (f sofar)) (a ++ b) :=
  ⟨_, hf.choose_spec.comp hg.choose_spec⟩

theorem push (kind : BindingKind L O F) (identifier : String) (location : L)
    (hf : Collects f a) :
    Collects (fun sofar => ⟨kind, identifier, location⟩ :: f sofar) (identifier :: a) :=
  ⟨_, hf.choose_spec.push kind identifier location⟩

theorem congr (hf : Collects f a) (hab : ∀ x, x ∈ a ↔ x ∈ b) : Collects f b :=
  ⟨_, hf.choose_spec.congr hab⟩

theorem mem_iff (hf : Collects f a) {sofar : List (Binding L O F)} {x : String} :
    x ∈ (f sofar).map name ↔ x ∈ a ∨ x ∈ sofar.map name :=
  hf.choose_spec.mem_iff

end Collects

mutual

theorem adds_ofUnannotatedTarget (kind : BindingKind L O F) (target : ExpressionNode L O F) :
    Adds (fun sofar => ofUnannotatedTarget kind sofar target) (targetNames .seen target)
      (keptIf (isNotWalrusKind kind) (bareNames target)) := by
  cases target with
  | node location value => exact adds_ofTarget kind location value

theorem adds_ofTarget (kind : BindingKind L O F) (location : L) (target : Expression L O F) :
    Adds (fun sofar => ofTarget kind sofar location target)
      (targetExpressionNames .seen target)
      (keptIf (isNotWalrusKind kind) (bareExpressionNames target)) := by
  cases target with
  | name value =>
    cases value with
    | «attribute» base attributeName origin => exact Adds.refl.noBare _
    | identifier identifier => exact .single kind identifier location
  | starred value => exact adds_ofStarredTarget kind value
  | subscript base index origin =>
    exact ((adds_ofExpression base).comp (adds_ofExpression index)).noBare _
  | tuple elements => exact adds_ofTargets kind elements
  | list elements => exact adds_ofTargets kind elements
  | _ => exact Adds.refl.noBare _

theorem adds_ofStarredTarget (kind : BindingKind L O F) (target : Starred L O F) :
    Adds (fun sofar => ofStarredTarget kind sofar target) (starredTargetNames .seen target)
      (keptIf (isNotWalrusKind kind) (bareStarredNames target)) := by
  cases target with
  | once element => exact adds_ofUnannotatedTarget kind element
  | twice element => exact adds_ofUnannotatedTarget kind element

theorem adds_ofTargets (kind : BindingKind L O F) (targets : List (ExpressionNode L O F)) :
    Adds (fun sofar => ofTargets kind sofar targets) (targetNamesList .seen targets)
      (keptIf (isNotWalrusKind kind) (bareNamesList targets)) := by
  cases targets with
  | nil => exact Adds.refl.noBare _
  | cons head tail =>
    exact ((adds_ofUnannotatedTarget kind head).comp (adds_ofTargets kind tail)).append_bare

theorem adds_ofExpression (expression : ExpressionNode L O F) :
    Adds (fun sofar => ofExpression sofar expression) (walrusNames .seen expression) [] := by
  cases expression with
  | node location value => exact adds_ofExpressionValue value

theorem adds_ofExpressionValue (expression : Expression L O F) :
    Adds (fun sofar => ofExpressionValue sofar expression)
      (expressionNames .seen expression) [] := by
  cases expression with
  | await operand origin => exact adds_ofExpression operand
  | binaryOperator left operator right origin =>
    exact (adds_ofExpression left).comp (adds_ofExpression right)
  | booleanOperator left operator right origin =>
    exact (adds_ofExpression left).comp (adds_ofExpression right)
  | call callee arguments origin =>
    exact (adds_ofArguments arguments).comp (adds_ofExpression callee)
  | comparisonOperator left operator right origin =>
    exact (adds_ofExpression left).comp (adds_ofExpression right)
  | constant value => exact .refl
  | dictionary entries => exact adds_ofDictionaryEntries entries
  | dictionaryComprehension element generators =>
    exact (adds_ofGeneratorConditions generators).comp (adds_ofKeyvalue element)
  | generator element generators =>
    exact (adds_ofGeneratorConditions generators).comp (adds_ofExpression element)
  | formatString substrings => exact adds_ofSubstrings substrings
  | lambda parameters body => exact .refl
  | list elements => exact adds_ofExpressions elements
  | listComprehension element generators =>
    exact (adds_ofGeneratorConditions generators).comp (adds_ofExpression element)
  | name value => exact adds_ofName value
  | set elements => exact adds_ofExpressions elements
  | setComprehension element generators =>
    exact (adds_ofGeneratorConditions generators).comp (adds_ofExpression element)
  | slice start stop step origin =>
    exact ((adds_ofOptionalExpression start).comp (adds_ofOptionalExpression stop)).comp
      (adds_ofOptionalExpression step)
  | starred value => exact adds_ofStarred value
  | subscript base index origin => exact (adds_ofExpression base).comp (adds_ofExpression index)
  | ternary target test alternative =>
    exact ((adds_ofExpression target).comp (adds_ofExpression test)).comp
      (adds_ofExpression alternative)
  | tuple elements => exact adds_ofExpressions elements
  | unaryOperator operator operand origin => exact adds_ofExpression operand
  | walrusOperator target value origin =>
    exact (adds_ofExpression value).comp (adds_ofUnannotatedTarget .walrusTarget target)
  | yield value => exact adds_ofOptionalExpression value
  | yieldFrom value => exact adds_ofExpression value

theorem adds_ofName (name : Name L O F) :
    Adds (fun sofar => ofName sofar name) (nameNames .seen name) [] := by
  cases name with
  | «attribute» base attributeName origin => exact adds_ofExpression base
  | identifier identifier => exact .refl

theorem adds_ofStarred (starred : Starred L O F) :
    Adds (fun sofar => ofStarred sofar starred) (starredNames .seen starred) [] := by
  cases starred with
  | once expression => exact adds_ofExpression expression
  | twice expression => exact adds_ofExpression expression

theorem adds_ofOptionalExpression (expression : Option (ExpressionNode L O F)) :
    Adds (fun sofar => ofOptionalExpression sofar expression)
      (optionalNames .seen expression) [] := by
  cases expression with
  | none => exact .refl
  | some expression => exact adds_ofExpression expression

theorem adds_ofExpressions (expressions : List (ExpressionNode L O F)) :
    Adds (fun sofar => ofExpressions sofar expressions) (walrusNamesList .seen expressions) [] := by
  cases expressions with
  | nil => exact .refl
  | cons head tail => exact (adds_ofExpression head).comp (adds_ofExpressions tail)

theorem adds_ofArguments (arguments : List (Argument L O F)) :
    Adds (fun sofar => ofArguments sofar arguments) (argumentNames .seen arguments) [] := by
  cases arguments with
  | nil => exact .refl
  | cons head tail =>
    cases head with
    | argument name value => exact (adds_ofExpression value).comp (adds_ofArguments tail)

theorem adds_ofKeyvalue (keyValue : KeyValue L O F) :
    Adds (fun sofar => ofKeyvalue sofar keyValue) (keyValueNames .seen keyValue) [] := by
  cases keyValue with
  | keyValue key value => exact (adds_ofExpression key).comp (adds_ofExpression value)

theorem adds_ofDictionaryEntry (entry : Entry L O F) :
    Adds (fun sofar => ofDictionaryEntry sofar entry) (entryName .seen entry) [] := by
  cases entry with
  | keyValue keyValue => exact adds_ofKeyvalue keyValue
  | splat value => exact adds_ofExpression value

theorem adds_ofDictionaryEntries (entries : List (Entry L O F)) :
    Adds (fun sofar => ofDictionaryEntries sofar entries) (entryNames .seen entries) [] := by
  cases entries with
  | nil => exact .refl
  | cons head tail => exact (adds_ofDictionaryEntry head).comp (adds_ofDictionaryEntries tail)

theorem adds_ofGeneratorConditions (generators : List (Generator L O F)) :
    Adds (fun sofar => ofGeneratorConditions sofar generators)
      (generatorNames .seen generators) [] := by
  cases generators with
  | nil => exact .refl
  | cons head tail =>
    cases head with
    | generator target iterator conditions async =>
      -- the collector does not look at the target of a generator
      exact (adds_ofExpressions conditions).comp (adds_ofGeneratorConditions tail)

theorem adds_ofSubstrings (substrings : List (Substring L O F)) :
    Adds (fun sofar => ofSubstrings sofar substrings) (substringNames .seen substrings) [] := by
  cases substrings with
  | nil => exact .refl
  | cons head tail =>
    cases head with
    | literal value => exact adds_ofSubstrings tail
    | format value formatSpec =>
      exact ((adds_ofExpression value).comp
        (adds_ofOptionalExpression formatSpec)).comp (adds_ofSubstrings tail)

end

theorem collects_ofExpression (expression : ExpressionNode L O F) :
    Collects (fun sofar => ofExpression sofar expression) (walrusNames .seen expression) :=
  (adds_ofExpression expression).collects

theorem collects_ofOptionalExpression (expression : Option (ExpressionNode L O F)) :
    Collects (fun sofar => ofOptionalExpression sofar expression)
      (optionalNames .seen expression) :=
  (adds_ofOptionalExpression expression).collects

theorem collects_ofExpressions (expressions : List (ExpressionNode L O F)) :
    Collects (fun sofar => ofExpressions sofar expressions)
      (walrusNamesList .seen expressions) :=
  (adds_ofExpressions expressions).collects

theorem collects_ofArguments (arguments : List (Argument L O F)) :
    Collects (fun sofar => ofArguments sofar arguments) (argumentNames .seen arguments) :=
  (adds_ofArguments arguments).collects

theorem collects_ofUnannotatedTarget (kind : BindingKind L O F) (target : ExpressionNode L O F) :
    Collects (fun sofar => ofUnannotatedTarget kind sofar target) (targetNames .seen target) :=
  (adds_ofUnannotatedTarget kind target).collects

theorem collects_ofDefaults (parameters : List (Parameter L O F)) :
    Collects (fun sofar => ofDefaults sofar parameters) (parameterNames .seen parameters) := by
  induction parameters with
  | nil => exact .refl
  | cons head tail ih =>
    cases head with
    | parameter location name value annotation =>
      exact (collects_ofOptionalExpression value).comp ih

theorem name_ofImport (source : Option (Node L Reference)) (item : Node L ImportItem) :
    (ofImport (O := O) (F := F) source item).name = importedName source item.value := by
  cases source <;> cases h : item.value.alias_ <;> simp [ofImport, importedName, h]

theorem collects_ofImports (source : Option (Node L Reference))
    (imports : List (Node L ImportItem)) :
    Collects (fun sofar : List (Binding L O F) =>
        imports.foldl (fun sofar item => ofImport source item :: sofar) sofar)
      (imports.map fun item => importedName source item.value) := by
  refine ⟨_, (imports.map (ofImport source)).reverse,
    fun sofar => List.foldl_flip_cons_eq_append, fun x => ?_, fun x => Iff.rfl⟩
  have hnames : (imports.map (ofImport (O := O) (F := F) source)).map name =
      imports.map fun item => importedName source item.value := by
    rw [List.map_map]
    exact List.map_congr_left fun item _ => name_ofImport source item
  rw [List.map_reverse, List.mem_reverse, hnames]

mutual

theorem collects_ofPattern (pattern : PatternNode L O F) :
    Collects (fun sofar => ofPattern sofar pattern) (patternNames .seen pattern) := by
  cases pattern with
  | node location value => exact collects_ofPatternValue location value

theorem collects_ofPatternValue (location : L) (pattern : Pattern L O F) :
    Collects (fun sofar => ofPatternValue sofar location pattern)
      (patternValueNames .seen pattern) := by
  cases pattern with
  | matchAs pattern name =>
    exact (collects_ofOptionalPattern pattern).push .matchTarget name location
  | matchClass className patterns keywordAttributes keywordPatterns =>
    exact (collects_ofPatterns patterns).comp (collects_ofPatterns keywordPatterns)
  | matchMapping keys patterns rest =>
    cases rest with
    | none => exact (collects_ofPatterns patterns).comp .refl
    | some name =>
      exact (collects_ofPatterns patterns).comp
        (Collects.refl.push .matchTarget name location)
  | matchOr patterns => exact collects_ofPatterns patterns
  | matchSequence patterns => exact collects_ofPatterns patterns
  | matchSingleton value => exact .refl
  | matchStar name =>
    cases name with
    | none => exact .refl
    | some name => exact Collects.refl.push .matchTarget name location
  | matchValue value => exact collects_ofExpression value
  | matchWildcard => exact .refl

theorem collects_ofOptionalPattern (pattern : Option (PatternNode L O F)) :
    Collects (fun sofar => ofOptionalPattern sofar pattern)
      (optionalPatternNames .seen pattern) := by
  cases pattern with
  | none => exact .refl
  | some pattern => exact collects_ofPattern pattern

theorem collects_ofPatterns (patterns : List (PatternNode L O F)) :
    Collects (fun sofar => ofPatterns sofar patterns) (patternNamesList .seen patterns) := by
  cases patterns with
  | nil => exact .refl
  | cons head tail => exact (collects_ofPattern head).comp (collects_ofPatterns tail)

end

theorem collects_ofItems (items : List (ExpressionNode L O F × Option (ExpressionNode L O F))) :
    Collects (fun sofar => ofItems sofar items) (itemNames .seen items) := by
  induction items with
  | nil => exact .refl
  | cons head tail ih =>
    obtain ⟨expression, target⟩ := head
    cases target with
    | none => exact ((collects_ofExpression expression).comp .refl).comp ih
    | some target =>
      exact ((collects_ofExpression expression).comp
        (collects_ofUnannotatedTarget .withTarget target)).comp ih

/-- The annotation of a name is kept with its binding. -/
theorem collects_ofAssign (location : L) (target : ExpressionNode L O F)
    (annotationExpression value : Option (ExpressionNode L O F)) :
    Collects (fun sofar => ofStatementValue sofar location (.assign target annotationExpression value))
      (optionalNames .seen value ++ targetNames .seen target) := by
  have hunannotated := (collects_ofOptionalExpression value).comp
    (collects_ofUnannotatedTarget (.assignTarget none) target)
  cases target with
  | node targetLocation target =>
    cases target with
    | name target =>
      cases target with
      | «attribute» base attributeName origin => exact hunannotated
      | identifier identifier =>
        cases annotationExpression with
        | none => exact hunannotated
        | some annotationExpression =>
          refine ((collects_ofOptionalExpression value).push
            (.assignTarget (some annotationExpression)) identifier targetLocation).congr fun x => ?_
          rw [List.mem_cons, List.mem_append, or_comm]
          exact or_congr_right List.mem_singleton.symm
    | _ => exact hunannotated

mutual

theorem collects_ofStatement (statement : StatementNode L O F) :
    Collects (fun sofar => ofStatement sofar statement) (boundNames .seen statement) := by
  cases statement with
  | node location value => exact collects_ofStatementValue location value

theorem collects_ofStatementValue (location : L) (statement : Statement L O F) :
    Collects (fun sofar => ofStatementValue sofar location statement)
      (statementNames .seen statement) := by
  cases statement with
  | assign target annotation value => exact collects_ofAssign location target annotation value
  | assert test message =>
    exact (collects_ofExpression test).comp (collects_ofOptionalExpression message)
  | augmentedAssign target value =>
    exact (collects_ofExpression value).comp
      (collects_ofUnannotatedTarget (.assignTarget none) target)
  | breakLoop => exact .refl
  | classDefinition name baseArguments decorators body =>
    exact ((collects_ofExpressions decorators).comp (collects_ofArguments baseArguments)).push
      .className (showReference name) location
  | continueLoop => exact .refl
  | define signature body =>
    exact ((collects_ofExpressions signature.decorators).comp
      (collects_ofDefaults signature.parameters)).push (.defineName signature)
        (showReference signature.name) location
  | delete targets => exact .refl
  | expression value => exact collects_ofExpression value
  | forLoop target iterator body orelse =>
    exact (((collects_ofUnannotatedTarget .forTarget target).comp
      (collects_ofExpression iterator)).comp (collects_ofStatements body)).comp
        (collects_ofStatements orelse)
  | global names => exact .refl
  | ifThen test body orelse =>
    exact ((collects_ofExpression test).comp (collects_ofStatements body)).comp
      (collects_ofStatements orelse)
  | importNames source imports => exact collects_ofImports source imports
  | matchCases subject cases => exact (collects_ofExpression subject).comp (collects_ofCases cases)
  | nonlocal names => exact .refl
  | pass => exact .refl
  | raise expression source =>
    exact (collects_ofOptionalExpression expression).comp (collects_ofOptionalExpression source)
  | returnValue expression => exact collects_ofOptionalExpression expression
  | tryBlock body handlers orelse finally_ =>
    exact (((collects_ofStatements body).comp (collects_ofHandlers handlers)).comp
      (collects_ofStatements orelse)).comp (collects_ofStatements finally_)
  | typeAlias name typeParams value =>
    exact (collects_ofExpression value).comp
      (collects_ofUnannotatedTarget (.assignTarget none) name)
  | withBlock items body => exact (collects_ofItems items).comp (collects_ofStatements body)
  | whileLoop test body orelse =>
    exact ((collects_ofExpression test).comp (collects_ofStatements body)).comp
      (collects_ofStatements orelse)

theorem collects_ofStatements (statements : List (StatementNode L O F)) :
    Collects (fun sofar => ofStatements sofar statements) (boundNamesList .seen statements) := by
  cases statements with
  | nil => exact .refl
  | cons head tail => exact (collects_ofStatement head).comp (collects_ofStatements tail)

theorem collects_ofCases (cases_ : List (Case L O F)) :
    Collects (fun sofar => ofCases sofar cases_) (caseNames .seen cases_) := by
  cases cases_ with
  | nil => exact .refl
  | cons head tail =>
    cases head with
    | case pattern guard body =>
      exact (((collects_ofPattern pattern).comp (collects_ofOptionalExpression guard)).comp
        (collects_ofStatements body)).comp (collects_ofCases tail)

theorem collects_ofHandlers (handlers : List (TryHandler L O F)) :
    Collects (fun sofar => ofHandlers sofar handlers) (handlerNames .seen handlers) := by
  cases handlers with
  | nil => exact .refl
  | cons head tail =>
    cases head with
    | handler kind name body =>
      -- the collector does not look at the type of the exception
      cases name with
      | none =>
        exact (Collects.refl.comp (collects_ofStatements body)).comp
          (collects_ofHandlers tail)
      | some name =>
        exact ((Collects.refl.push (.exceptTarget kind) name.value name.location).comp
          (collects_ofStatements body)).comp (collects_ofHandlers tail)

end

end Binding

/-! ## 5. The scope of a module -/

variable {L O F : Type}

/-- `Scope.Kind.t`. -/
inductive ScopeKind (L O F : Type) where
  | module
  | define (signature : Signature L O F)
  | lambda
  | comprehension

structure Scope (L O F : Type) where
  kind : ScopeKind L O F
  globals : Finset String
  nonlocals : Finset String
  bindings : AssocMap String (Binding L O F)

namespace Scope

def createMap (globals nonlocals : Finset String) (bindings : List (Binding L O F)) :
    AssocMap String (Binding L O F) :=
  bindings.foldl (fun sofar binding =>
    -- global and nonlocal declarations take priority
    if binding.name ∈ globals ∨ binding.name ∈ nonlocals then sofar
    else sofar.insert binding.name binding) ∅

theorem mem_foldl_createMap {globals nonlocals : Finset String} {bindings : List (Binding L O F)}
    {sofar : AssocMap String (Binding L O F)} {x : String} :
    x ∈ bindings.foldl (fun sofar binding =>
        if binding.name ∈ globals ∨ binding.name ∈ nonlocals then sofar
        else sofar.insert binding.name binding) sofar ↔
      (x ∈ bindings.map Binding.name ∧ x ∉ globals ∧ x ∉ nonlocals) ∨ x ∈ sofar := by
  induction bindings generalizing sofar with
  | nil => simp
  | cons head tail ih =>
    rw [List.foldl_cons, ih, List.map_cons, List.mem_cons]
    by_cases hdeclared : head.name ∈ globals ∨ head.name ∈ nonlocals
    · rw [if_pos hdeclared]
      have hne : x ∉ globals ∧ x ∉ nonlocals → x ≠ head.name := by
        intro h hx
        rw [hx] at h
        exact hdeclared.elim h.1 h.2
      tauto
    · rw [if_neg hdeclared, AList.mem_insert]
      have hfree : x = head.name → x ∉ globals ∧ x ∉ nonlocals := by
        intro hx
        rw [hx]
        exact not_or.mp hdeclared
      tauto

/-- The names of the map: those of the bindings that are not declared global or nonlocal. -/
theorem mem_createMap {globals nonlocals : Finset String} {bindings : List (Binding L O F)}
    {x : String} :
    x ∈ createMap globals nonlocals bindings ↔
      x ∈ bindings.map Binding.name ∧ x ∉ globals ∧ x ∉ nonlocals := by
  rw [createMap, mem_foldl_createMap]
  exact or_iff_left (AList.notMem_empty x)

/-- `Scope.of_source`: global and nonlocal statements have no effect at the level of a module. -/
def ofSource (source : Source L O F) : Scope L O F where
  kind := .module
  globals := ∅
  nonlocals := ∅
  bindings := createMap ∅ ∅ (Binding.ofStatements [] source.statements)

theorem mem_ofSource {source : Source L O F} {x : String} :
    x ∈ (ofSource source).bindings ↔
      x ∈ (Binding.ofStatements [] source.statements).map Binding.name := by
  rw [ofSource, mem_createMap]
  simp

/-- **The names of a module's scope are those that Python binds, without the skipped places.** -/
theorem mem_ofSource_iff {source : Source L O F} {x : String} :
    x ∈ (ofSource source).bindings ↔ x ∈ boundNamesList .seen source.statements := by
  rw [mem_ofSource, (Binding.collects_ofStatements source.statements).mem_iff]
  exact or_iff_left List.not_mem_nil

end Scope

end Pysa.Ast
