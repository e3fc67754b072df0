/-
  Subject: COMPARING EXPRESSIONS WITHOUT THEIR LOCATIONS (`expression.ml`).

  * `Expression` -- the expressions, with the locations and origins of their nodes;
  * `locationInsensitiveCompare` -- one comparison for each kind of node: different constructors
    fall through, by hand, to a constant;
  * `erase` -- an expression without its locations and origins;
  * `tokensNode` -- what the comparison reads, in its order; `lex` -- the lexicographic comparison
    of it.
-/
import Mathlib.Order.Compare
import Mathlib.Algebra.Order.Ring.Int
import Mathlib.Data.String.Basic
import Pysa.Ast.Expression

namespace Pysa.Ast

/-! ## 1. Expressions -/

inductive BinaryOperation where
  | add
  | sub
  | mult
  | matMult
  | div
  | mod
  | pow
  | lShift
  | rShift
  | bitOr
  | bitXor
  | bitAnd
  | floorDiv
  deriving DecidableEq

inductive UnaryOperation where
  | invert
  | negative
  | not
  | positive
  deriving DecidableEq

inductive StringKind where
  | string
  | bytes
  deriving DecidableEq

/-- `Node.t`. -/
structure Node (L A : Type) where
  location : L
  value : A

mutual

/-- Locations are of the type `L`, origins of the type `O`, and floats of the type `F`. -/
inductive Expression (L O F : Type) where
  | await (operand : ExpressionNode L O F) (origin : Option O)
  | binaryOperator (left : ExpressionNode L O F) (operator : BinaryOperation)
      (right : ExpressionNode L O F) (origin : Option O)
  | booleanOperator (left : ExpressionNode L O F) (operator : BooleanOperator)
      (right : ExpressionNode L O F) (origin : Option O)
  | call (callee : ExpressionNode L O F) (arguments : List (Argument L O F)) (origin : Option O)
  | comparisonOperator (left : ExpressionNode L O F) (operator : ComparisonOperator)
      (right : ExpressionNode L O F) (origin : Option O)
  | constant (value : Constant L O F)
  | dictionary (entries : List (Entry L O F))
  | dictionaryComprehension (element : KeyValue L O F) (generators : List (Generator L O F))
  | generator (element : ExpressionNode L O F) (generators : List (Generator L O F))
  | formatString (substrings : List (Substring L O F))
  | lambda (parameters : List (Parameter L O F)) (body : ExpressionNode L O F)
  | list (elements : List (ExpressionNode L O F))
  | listComprehension (element : ExpressionNode L O F) (generators : List (Generator L O F))
  | name (value : Name L O F)
  | set (elements : List (ExpressionNode L O F))
  | setComprehension (element : ExpressionNode L O F) (generators : List (Generator L O F))
  | slice (start stop step : Option (ExpressionNode L O F)) (origin : Option O)
  | starred (value : Starred L O F)
  | subscript (base index : ExpressionNode L O F) (origin : Option O)
  | ternary (target test alternative : ExpressionNode L O F)
  | tuple (elements : List (ExpressionNode L O F))
  | unaryOperator (operator : UnaryOperation) (operand : ExpressionNode L O F) (origin : Option O)
  | walrusOperator (target value : ExpressionNode L O F) (origin : Option O)
  | yield (value : Option (ExpressionNode L O F))
  | yieldFrom (value : ExpressionNode L O F)

/-- `Expression.t`. -/
inductive ExpressionNode (L O F : Type) where
  | node (location : L) (value : Expression L O F)

inductive Constant (L O F : Type) where
  | noneLiteral
  | ellipsis
  | false
  | true
  | integer (value : ℤ)
  | bigInteger (value : String)
  | float (value : F)
  | complex (value : F)
  | string (value : String) (kind : StringKind)
      (qualifiedExpression : Option (ExpressionNode L O F))

inductive Argument (L O F : Type) where
  | argument (name : Option (Node L String)) (value : ExpressionNode L O F)

inductive Generator (L O F : Type) where
  | generator (target iterator : ExpressionNode L O F) (conditions : List (ExpressionNode L O F))
      (async : Bool)

inductive KeyValue (L O F : Type) where
  | keyValue (key value : ExpressionNode L O F)

inductive Entry (L O F : Type) where
  | keyValue (keyValue : KeyValue L O F)
  | splat (value : ExpressionNode L O F)

inductive Name (L O F : Type) where
  | attribute (base : ExpressionNode L O F) (attributeName : String) (origin : Option O)
  | identifier (identifier : String)

inductive Parameter (L O F : Type) where
  | parameter (location : L) (name : String) (value annotation : Option (ExpressionNode L O F))

inductive Starred (L O F : Type) where
  | once (value : ExpressionNode L O F)
  | twice (value : ExpressionNode L O F)

inductive Substring (L O F : Type) where
  | literal (value : Node L String)
  | format (value : ExpressionNode L O F) (formatSpec : Option (ExpressionNode L O F))

end

variable {L O F : Type} [LinearOrder F]

/-! ## 2. The comparisons -/

def compareKind : StringKind → StringKind → Ordering
  | .string, .string => .eq
  | .bytes, .bytes => .eq
  | .string, _ => .lt
  | .bytes, _ => .gt

def compareName? : Option (Node L String) → Option (Node L String) → Ordering
  | none, none => .eq
  | none, some _ => .lt
  | some _, none => .gt
  | some left, some right => compare left.value right.value

mutual

def compareExpression : Expression L O F → Expression L O F → Ordering
  | .await left _, other =>
    match other with
    | .await right _ => compareNode left right
    | _ => .lt
  | .binaryOperator left₁ operator₁ right₁ _, other =>
    match other with
    | .binaryOperator left₂ operator₂ right₂ _ =>
      (compareNode left₁ left₂).then ((compare operator₁.ctorIdx operator₂.ctorIdx).then
        (compareNode right₁ right₂))
    | _ => .lt
  | .booleanOperator left₁ operator₁ right₁ _, other =>
    match other with
    | .booleanOperator left₂ operator₂ right₂ _ =>
      (compareNode left₁ left₂).then ((compare operator₁.ctorIdx operator₂.ctorIdx).then
        (compareNode right₁ right₂))
    | _ => .lt
  | .call callee₁ arguments₁ _, other =>
    match other with
    | .call callee₂ arguments₂ _ =>
      (compareNode callee₁ callee₂).then (compareArguments arguments₁ arguments₂)
    | _ => .lt
  | .comparisonOperator left₁ operator₁ right₁ _, other =>
    match other with
    | .comparisonOperator left₂ operator₂ right₂ _ =>
      (compareNode left₁ left₂).then ((compare operator₁.ctorIdx operator₂.ctorIdx).then
        (compareNode right₁ right₂))
    | _ => .lt
  | .constant left, other =>
    match other with
    | .constant right => compareConstant left right
    | _ => .lt
  | .dictionary left, other =>
    match other with
    | .dictionary right => compareEntries left right
    | _ => .lt
  | .dictionaryComprehension element₁ generators₁, other =>
    match other with
    | .dictionaryComprehension element₂ generators₂ =>
      (compareKeyValue element₁ element₂).then (compareGenerators generators₁ generators₂)
    | _ => .lt
  | .generator element₁ generators₁, other =>
    match other with
    | .generator element₂ generators₂ =>
      (compareNode element₁ element₂).then (compareGenerators generators₁ generators₂)
    | _ => .lt
  | .formatString left, other =>
    match other with
    | .formatString right => compareSubstrings left right
    | _ => .lt
  | .lambda parameters₁ body₁, other =>
    match other with
    | .lambda parameters₂ body₂ =>
      (compareParameters parameters₁ parameters₂).then (compareNode body₁ body₂)
    | _ => .lt
  | .list left, other =>
    match other with
    | .list right => compareList left right
    | _ => .lt
  | .listComprehension element₁ generators₁, other =>
    match other with
    | .listComprehension element₂ generators₂ =>
      (compareNode element₁ element₂).then (compareGenerators generators₁ generators₂)
    | _ => .lt
  | .name left, other =>
    match other with
    | .name right => compareName left right
    | _ => .lt
  | .set left, other =>
    match other with
    | .set right => compareList left right
    | _ => .lt
  | .setComprehension element₁ generators₁, other =>
    match other with
    | .setComprehension element₂ generators₂ =>
      (compareNode element₁ element₂).then (compareGenerators generators₁ generators₂)
    | _ => .lt
  | .slice start₁ stop₁ step₁ _, other =>
    match other with
    | .slice start₂ stop₂ step₂ _ =>
      (compareOption start₁ start₂).then ((compareOption stop₁ stop₂).then
        (compareOption step₁ step₂))
    | _ => .lt
  | .starred left, other =>
    match other with
    | .starred right => compareStarred left right
    | _ => .lt
  | .subscript base₁ index₁ _, other =>
    match other with
    | .subscript base₂ index₂ _ => (compareNode base₁ base₂).then (compareNode index₁ index₂)
    | _ => .lt
  | .ternary target₁ test₁ alternative₁, other =>
    match other with
    | .ternary target₂ test₂ alternative₂ =>
      (compareNode target₁ target₂).then ((compareNode test₁ test₂).then
        (compareNode alternative₁ alternative₂))
    | _ => .lt
  | .tuple left, other =>
    match other with
    | .tuple right => compareList left right
    | _ => .lt
  | .unaryOperator operator₁ operand₁ _, other =>
    match other with
    | .unaryOperator operator₂ operand₂ _ =>
      (compare operator₁.ctorIdx operator₂.ctorIdx).then (compareNode operand₁ operand₂)
    | _ => .lt
  | .walrusOperator target₁ value₁ _, other =>
    match other with
    | .walrusOperator target₂ value₂ _ =>
      (compareNode target₁ target₂).then (compareNode value₁ value₂)
    | _ => .lt
  | .yield left, other =>
    match other with
    | .yield right => compareOption left right
    | _ => .gt
  | .yieldFrom left, other =>
    match other with
    | .yieldFrom right => compareNode left right
    | _ => .gt

def compareNode : ExpressionNode L O F → ExpressionNode L O F → Ordering
  | .node _ left, .node _ right => compareExpression left right

def compareConstant : Constant L O F → Constant L O F → Ordering
  | .noneLiteral, other =>
    match other with
    | .noneLiteral => .eq
    | _ => .lt
  | .ellipsis, other =>
    match other with
    | .ellipsis => .eq
    | _ => .lt
  | .false, other =>
    match other with
    | .false => .eq
    | _ => .lt
  | .true, other =>
    match other with
    | .true => .eq
    | _ => .lt
  | .integer left, other =>
    match other with
    | .integer right => compare left right
    | _ => .lt
  | .bigInteger left, other =>
    match other with
    | .bigInteger right => compare left right
    | _ => .gt
  | .float left, other =>
    match other with
    | .float right => compare left right
    | _ => .lt
  | .complex left, other =>
    match other with
    | .complex right => compare left right
    | _ => .lt
  | .string value₁ kind₁ _, other =>
    match other with
    | .string value₂ kind₂ _ => (compare value₁ value₂).then (compareKind kind₁ kind₂)
    | _ => .gt

def compareArgument : Argument L O F → Argument L O F → Ordering
  | .argument name₁ value₁, .argument name₂ value₂ =>
    (compareName? name₁ name₂).then (compareNode value₁ value₂)

def compareGenerator : Generator L O F → Generator L O F → Ordering
  | .generator target₁ iterator₁ conditions₁ async₁, .generator target₂ iterator₂ conditions₂
    async₂ =>
      (compareNode target₁ target₂).then ((compareNode iterator₁ iterator₂).then
        ((compareList conditions₁ conditions₂).then (compare async₁.toNat async₂.toNat)))

def compareKeyValue : KeyValue L O F → KeyValue L O F → Ordering
  | .keyValue key₁ value₁, .keyValue key₂ value₂ =>
    (compareNode key₁ key₂).then (compareNode value₁ value₂)

def compareEntry : Entry L O F → Entry L O F → Ordering
  | .keyValue left, other =>
    match other with
    | .keyValue right => compareKeyValue left right
    | _ => .lt
  | .splat left, other =>
    match other with
    | .splat right => compareNode left right
    | _ => .gt

def compareName : Name L O F → Name L O F → Ordering
  | .attribute base₁ attributeName₁ _, other =>
    match other with
    | .attribute base₂ attributeName₂ _ =>
      (compareNode base₁ base₂).then (compare attributeName₁ attributeName₂)
    | _ => .lt
  | .identifier left, other =>
    match other with
    | .identifier right => compare left right
    | _ => .gt

def compareParameter : Parameter L O F → Parameter L O F → Ordering
  | .parameter _ name₁ value₁ annotation₁, .parameter _ name₂ value₂ annotation₂ =>
    (compare name₁ name₂).then ((compareOption value₁ value₂).then
      (compareOption annotation₁ annotation₂))

def compareStarred : Starred L O F → Starred L O F → Ordering
  | .once left, other =>
    match other with
    | .once right => compareNode left right
    | _ => .lt
  | .twice left, other =>
    match other with
    | .twice right => compareNode left right
    | _ => .gt

def compareSubstring : Substring L O F → Substring L O F → Ordering
  | .literal left, other =>
    match other with
    | .literal right => compare left.value right.value
    | _ => .lt
  | .format value₁ formatSpec₁, other =>
    match other with
    | .format value₂ formatSpec₂ =>
      (compareNode value₁ value₂).then (compareOption formatSpec₁ formatSpec₂)
    | _ => .gt

def compareOption : Option (ExpressionNode L O F) → Option (ExpressionNode L O F) → Ordering
  | none, none => .eq
  | none, some _ => .lt
  | some _, none => .gt
  | some left, some right => compareNode left right

def compareList : List (ExpressionNode L O F) → List (ExpressionNode L O F) → Ordering
  | [], [] => .eq
  | [], _ :: _ => .lt
  | _ :: _, [] => .gt
  | left :: lefts, right :: rights => (compareNode left right).then (compareList lefts rights)

def compareArguments : List (Argument L O F) → List (Argument L O F) → Ordering
  | [], [] => .eq
  | [], _ :: _ => .lt
  | _ :: _, [] => .gt
  | left :: lefts, right :: rights =>
    (compareArgument left right).then (compareArguments lefts rights)

def compareEntries : List (Entry L O F) → List (Entry L O F) → Ordering
  | [], [] => .eq
  | [], _ :: _ => .lt
  | _ :: _, [] => .gt
  | left :: lefts, right :: rights => (compareEntry left right).then (compareEntries lefts rights)

def compareGenerators : List (Generator L O F) → List (Generator L O F) → Ordering
  | [], [] => .eq
  | [], _ :: _ => .lt
  | _ :: _, [] => .gt
  | left :: lefts, right :: rights =>
    (compareGenerator left right).then (compareGenerators lefts rights)

def compareParameters : List (Parameter L O F) → List (Parameter L O F) → Ordering
  | [], [] => .eq
  | [], _ :: _ => .lt
  | _ :: _, [] => .gt
  | left :: lefts, right :: rights =>
    (compareParameter left right).then (compareParameters lefts rights)

def compareSubstrings : List (Substring L O F) → List (Substring L O F) → Ordering
  | [], [] => .eq
  | [], _ :: _ => .lt
  | _ :: _, [] => .gt
  | left :: lefts, right :: rights =>
    (compareSubstring left right).then (compareSubstrings lefts rights)

end

/-- Below zero, zero or above zero. -/
def locationInsensitiveCompare (left right : ExpressionNode L O F) : Ordering :=
  compareNode left right

/-! ## 3. Erasing locations and origins -/

def eraseName? : Option (Node L String) → Option (Node Unit String)
  | none => none
  | some name => some ⟨(), name.value⟩

mutual

def eraseExpression (keepQualified : Bool) : Expression L O F → Expression Unit Unit F
  | .await operand _ => .await (eraseNode keepQualified operand) none
  | .binaryOperator left operator right _ =>
    .binaryOperator (eraseNode keepQualified left) operator (eraseNode keepQualified right) none
  | .booleanOperator left operator right _ =>
    .booleanOperator (eraseNode keepQualified left) operator (eraseNode keepQualified right) none
  | .call callee arguments _ =>
    .call (eraseNode keepQualified callee) (eraseArguments keepQualified arguments) none
  | .comparisonOperator left operator right _ =>
    .comparisonOperator (eraseNode keepQualified left) operator (eraseNode keepQualified right)
      none
  | .constant value => .constant (eraseConstant keepQualified value)
  | .dictionary entries => .dictionary (eraseEntries keepQualified entries)
  | .dictionaryComprehension element generators =>
    .dictionaryComprehension (eraseKeyValue keepQualified element) (eraseGenerators keepQualified
      generators)
  | .generator element generators =>
    .generator (eraseNode keepQualified element) (eraseGenerators keepQualified generators)
  | .formatString substrings => .formatString (eraseSubstrings keepQualified substrings)
  | .lambda parameters body =>
    .lambda (eraseParameters keepQualified parameters) (eraseNode keepQualified body)
  | .list elements => .list (eraseList keepQualified elements)
  | .listComprehension element generators =>
    .listComprehension (eraseNode keepQualified element) (eraseGenerators keepQualified
      generators)
  | .name value => .name (eraseName keepQualified value)
  | .set elements => .set (eraseList keepQualified elements)
  | .setComprehension element generators =>
    .setComprehension (eraseNode keepQualified element) (eraseGenerators keepQualified generators)
  | .slice start stop step _ =>
    .slice (eraseOption keepQualified start) (eraseOption keepQualified stop) (eraseOption
      keepQualified step) none
  | .starred value => .starred (eraseStarred keepQualified value)
  | .subscript base index _ =>
    .subscript (eraseNode keepQualified base) (eraseNode keepQualified index) none
  | .ternary target test alternative =>
    .ternary (eraseNode keepQualified target) (eraseNode keepQualified test) (eraseNode
      keepQualified alternative)
  | .tuple elements => .tuple (eraseList keepQualified elements)
  | .unaryOperator operator operand _ =>
    .unaryOperator operator (eraseNode keepQualified operand) none
  | .walrusOperator target value _ =>
    .walrusOperator (eraseNode keepQualified target) (eraseNode keepQualified value) none
  | .yield value => .yield (eraseOption keepQualified value)
  | .yieldFrom value => .yieldFrom (eraseNode keepQualified value)

def eraseNode (keepQualified : Bool) : ExpressionNode L O F → ExpressionNode Unit Unit F
  | .node _ value => .node () (eraseExpression keepQualified value)

def eraseConstant (keepQualified : Bool) : Constant L O F → Constant Unit Unit F
  | .noneLiteral => .noneLiteral
  | .ellipsis => .ellipsis
  | .false => .false
  | .true => .true
  | .integer value => .integer value
  | .bigInteger value => .bigInteger value
  | .float value => .float value
  | .complex value => .complex value
  | .string value kind qualifiedExpression =>
    .string value kind (if keepQualified then eraseOption keepQualified qualifiedExpression else
      none)

def eraseArgument (keepQualified : Bool) : Argument L O F → Argument Unit Unit F
  | .argument name value => .argument (eraseName? name) (eraseNode keepQualified value)

def eraseGenerator (keepQualified : Bool) : Generator L O F → Generator Unit Unit F
  | .generator target iterator conditions async =>
    .generator (eraseNode keepQualified target) (eraseNode keepQualified iterator) (eraseList
      keepQualified conditions) async

def eraseKeyValue (keepQualified : Bool) : KeyValue L O F → KeyValue Unit Unit F
  | .keyValue key value => .keyValue (eraseNode keepQualified key) (eraseNode keepQualified value)

def eraseEntry (keepQualified : Bool) : Entry L O F → Entry Unit Unit F
  | .keyValue keyValue => .keyValue (eraseKeyValue keepQualified keyValue)
  | .splat value => .splat (eraseNode keepQualified value)

def eraseName (keepQualified : Bool) : Name L O F → Name Unit Unit F
  | .attribute base attributeName _ => .attribute (eraseNode keepQualified base) attributeName none
  | .identifier identifier => .identifier identifier

def eraseParameter (keepQualified : Bool) : Parameter L O F → Parameter Unit Unit F
  | .parameter _ name value annotation =>
    .parameter () name (eraseOption keepQualified value) (eraseOption keepQualified annotation)

def eraseStarred (keepQualified : Bool) : Starred L O F → Starred Unit Unit F
  | .once value => .once (eraseNode keepQualified value)
  | .twice value => .twice (eraseNode keepQualified value)

def eraseSubstring (keepQualified : Bool) : Substring L O F → Substring Unit Unit F
  | .literal value => .literal ⟨(), value.value⟩
  | .format value formatSpec =>
    .format (eraseNode keepQualified value) (eraseOption keepQualified formatSpec)

def eraseOption (keepQualified : Bool) : Option (ExpressionNode L O F) → Option (ExpressionNode
  Unit Unit F)
  | none => none
  | some expression => some (eraseNode keepQualified expression)

def eraseList (keepQualified : Bool) : List (ExpressionNode L O F) → List (ExpressionNode Unit Unit
  F)
  | [] => []
  | head :: tail => eraseNode keepQualified head :: eraseList keepQualified tail

def eraseArguments (keepQualified : Bool) : List (Argument L O F) → List (Argument Unit Unit F)
  | [] => []
  | head :: tail => eraseArgument keepQualified head :: eraseArguments keepQualified tail

def eraseEntries (keepQualified : Bool) : List (Entry L O F) → List (Entry Unit Unit F)
  | [] => []
  | head :: tail => eraseEntry keepQualified head :: eraseEntries keepQualified tail

def eraseGenerators (keepQualified : Bool) : List (Generator L O F) → List (Generator Unit Unit F)
  | [] => []
  | head :: tail => eraseGenerator keepQualified head :: eraseGenerators keepQualified tail

def eraseParameters (keepQualified : Bool) : List (Parameter L O F) → List (Parameter Unit Unit F)
  | [] => []
  | head :: tail => eraseParameter keepQualified head :: eraseParameters keepQualified tail

def eraseSubstrings (keepQualified : Bool) : List (Substring L O F) → List (Substring Unit Unit F)
  | [] => []
  | head :: tail => eraseSubstring keepQualified head :: eraseSubstrings keepQualified tail

end

/-- The expression without its locations and origins. -/
def erase (expression : ExpressionNode L O F) : ExpressionNode Unit Unit F :=
  eraseNode true expression

/-! ## 4. What the comparison reads -/

inductive Token (F : Type) where
  /-- With `below`, the constructor falls through to `-1`, else to `1`. -/
  | constructor (below : Bool) (tag : ℕ)
  | index (value : ℕ)
  | integer (value : ℤ)
  | text (value : String)
  | float (value : F)

namespace Token

/-- Tokens of different kinds are never compared. -/
def kind : Token F → ℕ
  | constructor _ _ => 0
  | index _ => 1
  | integer _ => 2
  | text _ => 3
  | float _ => 4

protected def compare : Token F → Token F → Ordering
  | constructor below tag, constructor below' tag' =>
    if below = below' ∧ tag = tag' then .eq else if below then .lt else .gt
  | index left, index right => compare left right
  | integer left, integer right => compare left right
  | text left, text right => compare left right
  | float left, float right => compare left right
  | left, right => compare left.kind right.kind

end Token

/-- The lexicographic comparison. -/
def lex : List (Token F) → List (Token F) → Ordering
  | [], [] => .eq
  | [], _ :: _ => .lt
  | _ :: _, [] => .gt
  | left :: lefts, right :: rights => (left.compare right).then (lex lefts rights)

def tokensKind : StringKind → List (Token F)
  | .string => [.constructor true 0]
  | .bytes => [.constructor false 1]

def tokensName? : Option (Node L String) → List (Token F)
  | none => [.constructor true 0]
  | some name => [.constructor false 1, .text name.value]

mutual

def tokensExpression : Expression L O F → List (Token F)
  | .await operand _ => .constructor true 0 :: tokensNode operand
  | .binaryOperator left operator right _ =>
    .constructor true 1 :: (tokensNode left ++ [.index operator.ctorIdx] ++ tokensNode right)
  | .booleanOperator left operator right _ =>
    .constructor true 2 :: (tokensNode left ++ [.index operator.ctorIdx] ++ tokensNode right)
  | .call callee arguments _ =>
    .constructor true 3 :: (tokensNode callee ++ tokensArguments arguments)
  | .comparisonOperator left operator right _ =>
    .constructor true 4 :: (tokensNode left ++ [.index operator.ctorIdx] ++ tokensNode right)
  | .constant value => .constructor true 5 :: tokensConstant value
  | .dictionary entries => .constructor true 6 :: tokensEntries entries
  | .dictionaryComprehension element generators =>
    .constructor true 7 :: (tokensKeyValue element ++ tokensGenerators generators)
  | .generator element generators =>
    .constructor true 8 :: (tokensNode element ++ tokensGenerators generators)
  | .formatString substrings => .constructor true 9 :: tokensSubstrings substrings
  | .lambda parameters body =>
    .constructor true 10 :: (tokensParameters parameters ++ tokensNode body)
  | .list elements => .constructor true 11 :: tokensList elements
  | .listComprehension element generators =>
    .constructor true 12 :: (tokensNode element ++ tokensGenerators generators)
  | .name value => .constructor true 13 :: tokensName value
  | .set elements => .constructor true 14 :: tokensList elements
  | .setComprehension element generators =>
    .constructor true 15 :: (tokensNode element ++ tokensGenerators generators)
  | .slice start stop step _ =>
    .constructor true 16 :: (tokensOption start ++ tokensOption stop ++ tokensOption step)
  | .starred value => .constructor true 17 :: tokensStarred value
  | .subscript base index _ => .constructor true 18 :: (tokensNode base ++ tokensNode index)
  | .ternary target test alternative =>
    .constructor true 19 :: (tokensNode target ++ tokensNode test ++ tokensNode alternative)
  | .tuple elements => .constructor true 20 :: tokensList elements
  | .unaryOperator operator operand _ =>
    .constructor true 21 :: ([.index operator.ctorIdx] ++ tokensNode operand)
  | .walrusOperator target value _ =>
    .constructor true 22 :: (tokensNode target ++ tokensNode value)
  | .yield value => .constructor false 23 :: tokensOption value
  | .yieldFrom value => .constructor false 24 :: tokensNode value

def tokensNode : ExpressionNode L O F → List (Token F)
  | .node _ value => tokensExpression value

def tokensConstant : Constant L O F → List (Token F)
  | .noneLiteral => .constructor true 0 :: []
  | .ellipsis => .constructor true 1 :: []
  | .false => .constructor true 2 :: []
  | .true => .constructor true 3 :: []
  | .integer value => .constructor true 4 :: [.integer value]
  | .bigInteger value => .constructor false 5 :: [.text value]
  | .float value => .constructor true 6 :: [.float value]
  | .complex value => .constructor true 7 :: [.float value]
  | .string value kind _ => .constructor false 8 :: ([.text value] ++ tokensKind kind)

def tokensArgument : Argument L O F → List (Token F)
  | .argument name value => tokensName? name ++ tokensNode value

def tokensGenerator : Generator L O F → List (Token F)
  | .generator target iterator conditions async =>
    tokensNode target ++ tokensNode iterator ++ tokensList conditions ++ [.index async.toNat]

def tokensKeyValue : KeyValue L O F → List (Token F)
  | .keyValue key value => tokensNode key ++ tokensNode value

def tokensEntry : Entry L O F → List (Token F)
  | .keyValue keyValue => .constructor true 0 :: tokensKeyValue keyValue
  | .splat value => .constructor false 1 :: tokensNode value

def tokensName : Name L O F → List (Token F)
  | .attribute base attributeName _ =>
    .constructor true 0 :: (tokensNode base ++ [.text attributeName])
  | .identifier identifier => .constructor false 1 :: [.text identifier]

def tokensParameter : Parameter L O F → List (Token F)
  | .parameter _ name value annotation =>
    [.text name] ++ tokensOption value ++ tokensOption annotation

def tokensStarred : Starred L O F → List (Token F)
  | .once value => .constructor true 0 :: tokensNode value
  | .twice value => .constructor false 1 :: tokensNode value

def tokensSubstring : Substring L O F → List (Token F)
  | .literal value => .constructor true 0 :: [.text value.value]
  | .format value formatSpec =>
    .constructor false 1 :: (tokensNode value ++ tokensOption formatSpec)

def tokensOption : Option (ExpressionNode L O F) → List (Token F)
  | none => [.constructor true 0]
  | some expression => .constructor false 1 :: tokensNode expression

def tokensList : List (ExpressionNode L O F) → List (Token F)
  | [] => [.constructor true 0]
  | head :: tail => .constructor false 1 :: (tokensNode head ++ tokensList tail)

def tokensArguments : List (Argument L O F) → List (Token F)
  | [] => [.constructor true 0]
  | head :: tail => .constructor false 1 :: (tokensArgument head ++ tokensArguments tail)

def tokensEntries : List (Entry L O F) → List (Token F)
  | [] => [.constructor true 0]
  | head :: tail => .constructor false 1 :: (tokensEntry head ++ tokensEntries tail)

def tokensGenerators : List (Generator L O F) → List (Token F)
  | [] => [.constructor true 0]
  | head :: tail => .constructor false 1 :: (tokensGenerator head ++ tokensGenerators tail)

def tokensParameters : List (Parameter L O F) → List (Token F)
  | [] => [.constructor true 0]
  | head :: tail => .constructor false 1 :: (tokensParameter head ++ tokensParameters tail)

def tokensSubstrings : List (Substring L O F) → List (Token F)
  | [] => [.constructor true 0]
  | head :: tail => .constructor false 1 :: (tokensSubstring head ++ tokensSubstrings tail)

end

end Pysa.Ast
