/-
  Subject: WHEN THE COMPARISON OF EXPRESSIONS IS AN ORDER (`expression.ml`).

  * `lex_tokensNode` -- `locationInsensitiveCompare` is the lexicographic comparison of what it
    reads; `compareNode_eq_iff` -- it is equality up to locations, origins and the qualified
    expressions of strings;
  * `lex_swap_iff`, `lex_trans` -- the laws of the lexicographic comparison;
  * `IsOrder` -- the laws for three expressions; `isOrder_iff` -- **they hold exactly if no two of
    the three first differ in constructors that fall through alike, nor only in the qualified
    expressions of their strings.**
-/
import Pysa.Ast.LocationInsensitiveCompare

namespace Pysa.Ast

variable {L O F : Type} [LinearOrder F]

/-! ## 1. The comparison is lexicographic -/

@[simp] theorem eq_then (o : Ordering) : Ordering.eq.then o = o := rfl

@[simp] theorem lex_cons (x y : Token F) (xs ys : List (Token F)) :
    lex (x :: xs) (y :: ys) = (x.compare y).then (lex xs ys) := rfl

theorem lex_tokensKind (a b : StringKind) (r r' : List (Token F)) :
    lex (tokensKind a ++ r) (tokensKind b ++ r') = (compareKind a b).then (lex r r') := by
  cases a <;> cases b <;> simp [tokensKind, compareKind, Token.compare]

theorem lex_tokensName? (a b : Option (Node L String)) (r r' : List (Token F)) :
    lex (tokensName? a ++ r) (tokensName? b ++ r') = (compareName? a b).then (lex r r') := by
  cases a <;> cases b <;> simp [tokensName?, compareName?, Token.compare]

/-- Whether another constructor falls through to `-1`. -/
def Expression.fallsBelow : Expression L O F → Bool
  | .yield _ => false
  | .yieldFrom _ => false
  | _ => true

omit [LinearOrder F] in
theorem tokensExpression_eq_cons (a : Expression L O F) :
    ∃ tokens, tokensExpression a = .constructor a.fallsBelow a.ctorIdx :: tokens := by
  cases a <;> exact ⟨_, rfl⟩

theorem compareExpression_of_ne {a b : Expression L O F} (h : a.ctorIdx ≠ b.ctorIdx) :
    compareExpression a b = if a.fallsBelow then .lt else .gt := by
  cases a <;> rw [compareExpression]
  any_goals rfl
  all_goals
    intros
    rename_i hother
    exact h (congrArg Expression.ctorIdx hother).symm

/-- Different constructors: the first token decides. -/
theorem lex_of_ne {a b : Expression L O F} (h : a.ctorIdx ≠ b.ctorIdx) (r r' : List (Token F)) :
    lex (tokensExpression a ++ r) (tokensExpression b ++ r') = (compareExpression a b).then
      (lex r r') := by
  obtain ⟨tokens, ha⟩ := tokensExpression_eq_cons a
  obtain ⟨tokens', hb⟩ := tokensExpression_eq_cons b
  rw [compareExpression_of_ne h, ha, hb, List.cons_append, List.cons_append, lex_cons,
    Token.compare, if_neg fun heq => h heq.2]
  cases a.fallsBelow <;> rfl

section

attribute [local simp] tokensExpression compareExpression Token.compare Ordering.then_assoc
  tokensNode compareNode tokensArgument compareArgument tokensGenerator compareGenerator
  tokensKeyValue compareKeyValue tokensEntry compareEntry tokensName compareName tokensParameter
  compareParameter tokensStarred compareStarred tokensSubstring compareSubstring tokensOption
  compareOption tokensList compareList tokensArguments compareArguments tokensEntries compareEntries
  tokensGenerators compareGenerators tokensParameters compareParameters tokensSubstrings
  compareSubstrings

mutual

theorem lex_tokensExpression (a b : Expression L O F) (r r' : List (Token F)) :
    lex (tokensExpression a ++ r) (tokensExpression b ++ r') = (compareExpression a b).then
      (lex r r') := by
  by_cases h : a.ctorIdx = b.ctorIdx
  case neg => exact lex_of_ne h r r'
  cases a with
  | await operand origin =>
    cases b with
    | await => simp [lex_tokensNode operand]
    | _ => exact absurd h (Nat.ne_of_beq_eq_false rfl)
  | binaryOperator left operator right origin =>
    cases b with
    | binaryOperator => simp [lex_tokensNode left, lex_tokensNode right]
    | _ => exact absurd h (Nat.ne_of_beq_eq_false rfl)
  | booleanOperator left operator right origin =>
    cases b with
    | booleanOperator => simp [lex_tokensNode left, lex_tokensNode right]
    | _ => exact absurd h (Nat.ne_of_beq_eq_false rfl)
  | call callee arguments origin =>
    cases b with
    | call => simp [lex_tokensNode callee, lex_tokensArguments arguments]
    | _ => exact absurd h (Nat.ne_of_beq_eq_false rfl)
  | comparisonOperator left operator right origin =>
    cases b with
    | comparisonOperator => simp [lex_tokensNode left, lex_tokensNode right]
    | _ => exact absurd h (Nat.ne_of_beq_eq_false rfl)
  | constant value =>
    cases b with
    | constant => simp [lex_tokensConstant value]
    | _ => exact absurd h (Nat.ne_of_beq_eq_false rfl)
  | dictionary entries =>
    cases b with
    | dictionary => simp [lex_tokensEntries entries]
    | _ => exact absurd h (Nat.ne_of_beq_eq_false rfl)
  | dictionaryComprehension element generators =>
    cases b with
    | dictionaryComprehension => simp [lex_tokensKeyValue element, lex_tokensGenerators generators]
    | _ => exact absurd h (Nat.ne_of_beq_eq_false rfl)
  | generator element generators =>
    cases b with
    | generator => simp [lex_tokensNode element, lex_tokensGenerators generators]
    | _ => exact absurd h (Nat.ne_of_beq_eq_false rfl)
  | formatString substrings =>
    cases b with
    | formatString => simp [lex_tokensSubstrings substrings]
    | _ => exact absurd h (Nat.ne_of_beq_eq_false rfl)
  | lambda parameters body =>
    cases b with
    | lambda => simp [lex_tokensParameters parameters, lex_tokensNode body]
    | _ => exact absurd h (Nat.ne_of_beq_eq_false rfl)
  | list elements =>
    cases b with
    | list => simp [lex_tokensList elements]
    | _ => exact absurd h (Nat.ne_of_beq_eq_false rfl)
  | listComprehension element generators =>
    cases b with
    | listComprehension => simp [lex_tokensNode element, lex_tokensGenerators generators]
    | _ => exact absurd h (Nat.ne_of_beq_eq_false rfl)
  | name value =>
    cases b with
    | name => simp [lex_tokensName value]
    | _ => exact absurd h (Nat.ne_of_beq_eq_false rfl)
  | set elements =>
    cases b with
    | set => simp [lex_tokensList elements]
    | _ => exact absurd h (Nat.ne_of_beq_eq_false rfl)
  | setComprehension element generators =>
    cases b with
    | setComprehension => simp [lex_tokensNode element, lex_tokensGenerators generators]
    | _ => exact absurd h (Nat.ne_of_beq_eq_false rfl)
  | slice start stop step origin =>
    cases b with
    | slice => simp [lex_tokensOption start, lex_tokensOption stop, lex_tokensOption step]
    | _ => exact absurd h (Nat.ne_of_beq_eq_false rfl)
  | starred value =>
    cases b with
    | starred => simp [lex_tokensStarred value]
    | _ => exact absurd h (Nat.ne_of_beq_eq_false rfl)
  | subscript base index origin =>
    cases b with
    | subscript => simp [lex_tokensNode base, lex_tokensNode index]
    | _ => exact absurd h (Nat.ne_of_beq_eq_false rfl)
  | ternary target test alternative =>
    cases b with
    | ternary => simp [lex_tokensNode target, lex_tokensNode test, lex_tokensNode alternative]
    | _ => exact absurd h (Nat.ne_of_beq_eq_false rfl)
  | tuple elements =>
    cases b with
    | tuple => simp [lex_tokensList elements]
    | _ => exact absurd h (Nat.ne_of_beq_eq_false rfl)
  | unaryOperator operator operand origin =>
    cases b with
    | unaryOperator => simp [lex_tokensNode operand]
    | _ => exact absurd h (Nat.ne_of_beq_eq_false rfl)
  | walrusOperator target value origin =>
    cases b with
    | walrusOperator => simp [lex_tokensNode target, lex_tokensNode value]
    | _ => exact absurd h (Nat.ne_of_beq_eq_false rfl)
  | yield value =>
    cases b with
    | yield => simp [lex_tokensOption value]
    | _ => exact absurd h (Nat.ne_of_beq_eq_false rfl)
  | yieldFrom value =>
    cases b with
    | yieldFrom => simp [lex_tokensNode value]
    | _ => exact absurd h (Nat.ne_of_beq_eq_false rfl)
  termination_by structural a

theorem lex_tokensNode (a b : ExpressionNode L O F) (r r' : List (Token F)) :
    lex (tokensNode a ++ r) (tokensNode b ++ r') = (compareNode a b).then (lex r r') := by
  cases a with
  | node location value =>
    cases b
    simp [lex_tokensExpression value]
  termination_by structural a

theorem lex_tokensConstant (a b : Constant L O F) (r r' : List (Token F)) :
    lex (tokensConstant a ++ r) (tokensConstant b ++ r') = (compareConstant a b).then
      (lex r r') := by
  cases a with
  | string => cases b <;> simp [tokensConstant, compareConstant, lex_tokensKind]
  | _ => cases b <;> simp [tokensConstant, compareConstant]

theorem lex_tokensArgument (a b : Argument L O F) (r r' : List (Token F)) :
    lex (tokensArgument a ++ r) (tokensArgument b ++ r') = (compareArgument a b).then
      (lex r r') := by
  cases a with
  | argument name value =>
    cases b
    simp [lex_tokensName?, lex_tokensNode value]
  termination_by structural a

theorem lex_tokensGenerator (a b : Generator L O F) (r r' : List (Token F)) :
    lex (tokensGenerator a ++ r) (tokensGenerator b ++ r') = (compareGenerator a b).then
      (lex r r') := by
  cases a with
  | generator target iterator conditions async =>
    cases b
    simp [lex_tokensNode target, lex_tokensNode iterator, lex_tokensList conditions]
  termination_by structural a

theorem lex_tokensKeyValue (a b : KeyValue L O F) (r r' : List (Token F)) :
    lex (tokensKeyValue a ++ r) (tokensKeyValue b ++ r') = (compareKeyValue a b).then
      (lex r r') := by
  cases a with
  | keyValue key value =>
    cases b
    simp [lex_tokensNode key, lex_tokensNode value]
  termination_by structural a

theorem lex_tokensEntry (a b : Entry L O F) (r r' : List (Token F)) :
    lex (tokensEntry a ++ r) (tokensEntry b ++ r') = (compareEntry a b).then (lex r r') := by
  cases a with
  | keyValue keyValue => cases b <;> simp [lex_tokensKeyValue keyValue]
  | splat value => cases b <;> simp [lex_tokensNode value]
  termination_by structural a

theorem lex_tokensName (a b : Name L O F) (r r' : List (Token F)) :
    lex (tokensName a ++ r) (tokensName b ++ r') = (compareName a b).then (lex r r') := by
  cases a with
  | «attribute» base attributeName origin => cases b <;> simp [lex_tokensNode base]
  | identifier identifier => cases b <;> simp
  termination_by structural a

theorem lex_tokensParameter (a b : Parameter L O F) (r r' : List (Token F)) :
    lex (tokensParameter a ++ r) (tokensParameter b ++ r') = (compareParameter a b).then
      (lex r r') := by
  cases a with
  | parameter location name value annotation =>
    cases b
    simp [lex_tokensOption value, lex_tokensOption annotation]
  termination_by structural a

theorem lex_tokensStarred (a b : Starred L O F) (r r' : List (Token F)) :
    lex (tokensStarred a ++ r) (tokensStarred b ++ r') = (compareStarred a b).then (lex r r') := by
  cases a with
  | once value => cases b <;> simp [lex_tokensNode value]
  | twice value => cases b <;> simp [lex_tokensNode value]
  termination_by structural a

theorem lex_tokensSubstring (a b : Substring L O F) (r r' : List (Token F)) :
    lex (tokensSubstring a ++ r) (tokensSubstring b ++ r') = (compareSubstring a b).then
      (lex r r') := by
  cases a with
  | literal value => cases b <;> simp
  | format value formatSpec => cases b <;> simp [lex_tokensNode value, lex_tokensOption formatSpec]
  termination_by structural a

theorem lex_tokensOption (a b : Option (ExpressionNode L O F)) (r r' : List (Token F)) :
    lex (tokensOption a ++ r) (tokensOption b ++ r') = (compareOption a b).then (lex r r') := by
  cases a with
  | none => cases b <;> simp
  | some value => cases b <;> simp [lex_tokensNode value]
  termination_by structural a

theorem lex_tokensList (a b : List (ExpressionNode L O F)) (r r' : List (Token F)) :
    lex (tokensList a ++ r) (tokensList b ++ r') = (compareList a b).then (lex r r') := by
  cases a with
  | nil => cases b <;> simp
  | cons head tail => cases b <;> simp [lex_tokensNode head, lex_tokensList tail]
  termination_by structural a

theorem lex_tokensArguments (a b : List (Argument L O F)) (r r' : List (Token F)) :
    lex (tokensArguments a ++ r) (tokensArguments b ++ r') = (compareArguments a b).then
      (lex r r') := by
  cases a with
  | nil => cases b <;> simp
  | cons head tail => cases b <;> simp [lex_tokensArgument head, lex_tokensArguments tail]
  termination_by structural a

theorem lex_tokensEntries (a b : List (Entry L O F)) (r r' : List (Token F)) :
    lex (tokensEntries a ++ r) (tokensEntries b ++ r') = (compareEntries a b).then (lex r r') := by
  cases a with
  | nil => cases b <;> simp
  | cons head tail => cases b <;> simp [lex_tokensEntry head, lex_tokensEntries tail]
  termination_by structural a

theorem lex_tokensGenerators (a b : List (Generator L O F)) (r r' : List (Token F)) :
    lex (tokensGenerators a ++ r) (tokensGenerators b ++ r') = (compareGenerators a b).then
      (lex r r') := by
  cases a with
  | nil => cases b <;> simp
  | cons head tail => cases b <;> simp [lex_tokensGenerator head, lex_tokensGenerators tail]
  termination_by structural a

theorem lex_tokensParameters (a b : List (Parameter L O F)) (r r' : List (Token F)) :
    lex (tokensParameters a ++ r) (tokensParameters b ++ r') = (compareParameters a b).then
      (lex r r') := by
  cases a with
  | nil => cases b <;> simp
  | cons head tail => cases b <;> simp [lex_tokensParameter head, lex_tokensParameters tail]
  termination_by structural a

theorem lex_tokensSubstrings (a b : List (Substring L O F)) (r r' : List (Token F)) :
    lex (tokensSubstrings a ++ r) (tokensSubstrings b ++ r') = (compareSubstrings a b).then
      (lex r r') := by
  cases a with
  | nil => cases b <;> simp
  | cons head tail => cases b <;> simp [lex_tokensSubstring head, lex_tokensSubstrings tail]
  termination_by structural a

end

end

/-! ## 2. The comparison is equality -/

theorem ctorIdx_inj_binary {a b : BinaryOperation} : a.ctorIdx = b.ctorIdx ↔ a = b := by
  cases a <;> cases b <;> decide

theorem ctorIdx_inj_unary {a b : UnaryOperation} : a.ctorIdx = b.ctorIdx ↔ a = b := by
  cases a <;> cases b <;> decide

theorem ctorIdx_inj_boolean {a b : BooleanOperator} : a.ctorIdx = b.ctorIdx ↔ a = b := by
  cases a <;> cases b <;> decide

theorem ctorIdx_inj_comparison {a b : ComparisonOperator} : a.ctorIdx = b.ctorIdx ↔ a = b := by
  cases a <;> cases b <;> decide

theorem toNat_inj {a b : Bool} : a.toNat = b.toNat ↔ a = b := by cases a <;> cases b <;> decide

theorem compareKind_eq_iff (a b : StringKind) : compareKind a b = .eq ↔ a = b := by
  cases a <;> cases b <;> decide

theorem compareName?_eq_iff (a b : Option (Node L String)) :
    compareName? a b = .eq ↔ eraseName? (eraseName? a) = eraseName? (eraseName? b) := by
  cases a <;> cases b <;> simp [compareName?, eraseName?]

omit [LinearOrder F] in
theorem ctorIdx_eraseExpression (keepQualified : Bool) (a : Expression L O F) :
    (eraseExpression keepQualified a).ctorIdx = a.ctorIdx := by
  cases a <;> rfl

/-- Different constructors are neither compared as equal nor erased to equal expressions. -/
theorem compareExpression_eq_iff_of_ne {a b : Expression L O F} (h : a.ctorIdx ≠ b.ctorIdx) :
    compareExpression a b = .eq ↔
      eraseExpression false (eraseExpression true a) = eraseExpression false (eraseExpression true
        b) := by
  refine iff_of_false ?_ fun heq => h ?_
  · rw [compareExpression_of_ne h]
    cases a.fallsBelow <;> exact Ordering.noConfusion
  · rw [← ctorIdx_eraseExpression true a, ← ctorIdx_eraseExpression false, heq,
      ctorIdx_eraseExpression, ctorIdx_eraseExpression]

section

attribute [local simp] eraseExpression compareExpression Ordering.then_eq_eq eraseNode compareNode
  eraseArgument compareArgument eraseGenerator compareGenerator eraseKeyValue compareKeyValue
  eraseEntry compareEntry eraseName compareName eraseParameter compareParameter eraseStarred
  compareStarred eraseSubstring compareSubstring eraseOption compareOption eraseList compareList
  eraseArguments compareArguments eraseEntries compareEntries eraseGenerators compareGenerators
  eraseParameters compareParameters eraseSubstrings compareSubstrings

mutual

theorem compareExpression_eq_iff (a b : Expression L O F) :
    compareExpression a b = .eq ↔
      eraseExpression false (eraseExpression true a) = eraseExpression false (eraseExpression true
        b) := by
  by_cases h : a.ctorIdx = b.ctorIdx
  case neg => exact compareExpression_eq_iff_of_ne h
  cases a with
  | await operand origin =>
    cases b with
    | await => simp [compareNode_eq_iff operand]
    | _ => exact absurd h (Nat.ne_of_beq_eq_false rfl)
  | binaryOperator left operator right origin =>
    cases b with
    | binaryOperator => simp [ctorIdx_inj_binary, compareNode_eq_iff left, compareNode_eq_iff right]
    | _ => exact absurd h (Nat.ne_of_beq_eq_false rfl)
  | booleanOperator left operator right origin =>
    cases b with
    | booleanOperator =>
      simp [ctorIdx_inj_boolean, compareNode_eq_iff left, compareNode_eq_iff right]
    | _ => exact absurd h (Nat.ne_of_beq_eq_false rfl)
  | call callee arguments origin =>
    cases b with
    | call => simp [compareNode_eq_iff callee, compareArguments_eq_iff arguments]
    | _ => exact absurd h (Nat.ne_of_beq_eq_false rfl)
  | comparisonOperator left operator right origin =>
    cases b with
    | comparisonOperator =>
      simp [ctorIdx_inj_comparison, compareNode_eq_iff left, compareNode_eq_iff right]
    | _ => exact absurd h (Nat.ne_of_beq_eq_false rfl)
  | constant value =>
    cases b with
    | constant => simp [compareConstant_eq_iff value]
    | _ => exact absurd h (Nat.ne_of_beq_eq_false rfl)
  | dictionary entries =>
    cases b with
    | dictionary => simp [compareEntries_eq_iff entries]
    | _ => exact absurd h (Nat.ne_of_beq_eq_false rfl)
  | dictionaryComprehension element generators =>
    cases b with
    | dictionaryComprehension =>
      simp [compareKeyValue_eq_iff element, compareGenerators_eq_iff generators]
    | _ => exact absurd h (Nat.ne_of_beq_eq_false rfl)
  | generator element generators =>
    cases b with
    | generator => simp [compareNode_eq_iff element, compareGenerators_eq_iff generators]
    | _ => exact absurd h (Nat.ne_of_beq_eq_false rfl)
  | formatString substrings =>
    cases b with
    | formatString => simp [compareSubstrings_eq_iff substrings]
    | _ => exact absurd h (Nat.ne_of_beq_eq_false rfl)
  | lambda parameters body =>
    cases b with
    | lambda => simp [compareParameters_eq_iff parameters, compareNode_eq_iff body]
    | _ => exact absurd h (Nat.ne_of_beq_eq_false rfl)
  | list elements =>
    cases b with
    | list => simp [compareList_eq_iff elements]
    | _ => exact absurd h (Nat.ne_of_beq_eq_false rfl)
  | listComprehension element generators =>
    cases b with
    | listComprehension => simp [compareNode_eq_iff element, compareGenerators_eq_iff generators]
    | _ => exact absurd h (Nat.ne_of_beq_eq_false rfl)
  | name value =>
    cases b with
    | name => simp [compareName_eq_iff value]
    | _ => exact absurd h (Nat.ne_of_beq_eq_false rfl)
  | set elements =>
    cases b with
    | set => simp [compareList_eq_iff elements]
    | _ => exact absurd h (Nat.ne_of_beq_eq_false rfl)
  | setComprehension element generators =>
    cases b with
    | setComprehension => simp [compareNode_eq_iff element, compareGenerators_eq_iff generators]
    | _ => exact absurd h (Nat.ne_of_beq_eq_false rfl)
  | slice start stop step origin =>
    cases b with
    | slice =>
      simp [compareOption_eq_iff start, compareOption_eq_iff stop, compareOption_eq_iff step]
    | _ => exact absurd h (Nat.ne_of_beq_eq_false rfl)
  | starred value =>
    cases b with
    | starred => simp [compareStarred_eq_iff value]
    | _ => exact absurd h (Nat.ne_of_beq_eq_false rfl)
  | subscript base index origin =>
    cases b with
    | subscript => simp [compareNode_eq_iff base, compareNode_eq_iff index]
    | _ => exact absurd h (Nat.ne_of_beq_eq_false rfl)
  | ternary target test alternative =>
    cases b with
    | ternary =>
      simp [compareNode_eq_iff target, compareNode_eq_iff test, compareNode_eq_iff alternative]
    | _ => exact absurd h (Nat.ne_of_beq_eq_false rfl)
  | tuple elements =>
    cases b with
    | tuple => simp [compareList_eq_iff elements]
    | _ => exact absurd h (Nat.ne_of_beq_eq_false rfl)
  | unaryOperator operator operand origin =>
    cases b with
    | unaryOperator => simp [ctorIdx_inj_unary, compareNode_eq_iff operand]
    | _ => exact absurd h (Nat.ne_of_beq_eq_false rfl)
  | walrusOperator target value origin =>
    cases b with
    | walrusOperator => simp [compareNode_eq_iff target, compareNode_eq_iff value]
    | _ => exact absurd h (Nat.ne_of_beq_eq_false rfl)
  | yield value =>
    cases b with
    | yield => simp [compareOption_eq_iff value]
    | _ => exact absurd h (Nat.ne_of_beq_eq_false rfl)
  | yieldFrom value =>
    cases b with
    | yieldFrom => simp [compareNode_eq_iff value]
    | _ => exact absurd h (Nat.ne_of_beq_eq_false rfl)
  termination_by structural a

theorem compareNode_eq_iff (a b : ExpressionNode L O F) :
    compareNode a b = .eq ↔
      eraseNode false (eraseNode true a) = eraseNode false (eraseNode true b) := by
  cases a with
  | node location value =>
    cases b
    simp [compareExpression_eq_iff value]
  termination_by structural a

theorem compareConstant_eq_iff (a b : Constant L O F) :
    compareConstant a b = .eq ↔
      eraseConstant false (eraseConstant true a) = eraseConstant false (eraseConstant true b) := by
  cases a with
  | string => cases b <;> simp [eraseConstant, compareConstant, compareKind_eq_iff]
  | _ => cases b <;> simp [eraseConstant, compareConstant]

theorem compareArgument_eq_iff (a b : Argument L O F) :
    compareArgument a b = .eq ↔
      eraseArgument false (eraseArgument true a) = eraseArgument false (eraseArgument true b) := by
  cases a with
  | argument name value =>
    cases b
    simp [compareName?_eq_iff, compareNode_eq_iff value]
  termination_by structural a

theorem compareGenerator_eq_iff (a b : Generator L O F) :
    compareGenerator a b = .eq ↔
      eraseGenerator false (eraseGenerator true a) = eraseGenerator false (eraseGenerator true b)
        := by
  cases a with
  | generator target iterator conditions async =>
    cases b
    simp [toNat_inj, compareNode_eq_iff target, compareNode_eq_iff iterator, compareList_eq_iff conditions]
  termination_by structural a

theorem compareKeyValue_eq_iff (a b : KeyValue L O F) :
    compareKeyValue a b = .eq ↔
      eraseKeyValue false (eraseKeyValue true a) = eraseKeyValue false (eraseKeyValue true b) := by
  cases a with
  | keyValue key value =>
    cases b
    simp [compareNode_eq_iff key, compareNode_eq_iff value]
  termination_by structural a

theorem compareEntry_eq_iff (a b : Entry L O F) :
    compareEntry a b = .eq ↔
      eraseEntry false (eraseEntry true a) = eraseEntry false (eraseEntry true b) := by
  cases a with
  | keyValue keyValue => cases b <;> simp [compareKeyValue_eq_iff keyValue]
  | splat value => cases b <;> simp [compareNode_eq_iff value]
  termination_by structural a

theorem compareName_eq_iff (a b : Name L O F) :
    compareName a b = .eq ↔
      eraseName false (eraseName true a) = eraseName false (eraseName true b) := by
  cases a with
  | «attribute» base attributeName origin => cases b <;> simp [compareNode_eq_iff base]
  | identifier identifier => cases b <;> simp
  termination_by structural a

theorem compareParameter_eq_iff (a b : Parameter L O F) :
    compareParameter a b = .eq ↔
      eraseParameter false (eraseParameter true a) = eraseParameter false (eraseParameter true b)
        := by
  cases a with
  | parameter location name value annotation =>
    cases b
    simp [compareOption_eq_iff value, compareOption_eq_iff annotation]
  termination_by structural a

theorem compareStarred_eq_iff (a b : Starred L O F) :
    compareStarred a b = .eq ↔
      eraseStarred false (eraseStarred true a) = eraseStarred false (eraseStarred true b) := by
  cases a with
  | once value => cases b <;> simp [compareNode_eq_iff value]
  | twice value => cases b <;> simp [compareNode_eq_iff value]
  termination_by structural a

theorem compareSubstring_eq_iff (a b : Substring L O F) :
    compareSubstring a b = .eq ↔
      eraseSubstring false (eraseSubstring true a) = eraseSubstring false (eraseSubstring true b)
        := by
  cases a with
  | literal value => cases b <;> simp
  | format value formatSpec =>
    cases b <;> simp [compareNode_eq_iff value, compareOption_eq_iff formatSpec]
  termination_by structural a

theorem compareOption_eq_iff (a b : Option (ExpressionNode L O F)) :
    compareOption a b = .eq ↔
      eraseOption false (eraseOption true a) = eraseOption false (eraseOption true b) := by
  cases a with
  | none => cases b <;> simp
  | some value => cases b <;> simp [compareNode_eq_iff value]
  termination_by structural a

theorem compareList_eq_iff (a b : List (ExpressionNode L O F)) :
    compareList a b = .eq ↔
      eraseList false (eraseList true a) = eraseList false (eraseList true b) := by
  cases a with
  | nil => cases b <;> simp
  | cons head tail => cases b <;> simp [compareNode_eq_iff head, compareList_eq_iff tail]
  termination_by structural a

theorem compareArguments_eq_iff (a b : List (Argument L O F)) :
    compareArguments a b = .eq ↔
      eraseArguments false (eraseArguments true a) = eraseArguments false (eraseArguments true b)
        := by
  cases a with
  | nil => cases b <;> simp
  | cons head tail => cases b <;> simp [compareArgument_eq_iff head, compareArguments_eq_iff tail]
  termination_by structural a

theorem compareEntries_eq_iff (a b : List (Entry L O F)) :
    compareEntries a b = .eq ↔
      eraseEntries false (eraseEntries true a) = eraseEntries false (eraseEntries true b) := by
  cases a with
  | nil => cases b <;> simp
  | cons head tail => cases b <;> simp [compareEntry_eq_iff head, compareEntries_eq_iff tail]
  termination_by structural a

theorem compareGenerators_eq_iff (a b : List (Generator L O F)) :
    compareGenerators a b = .eq ↔
      eraseGenerators false (eraseGenerators true a) = eraseGenerators false (eraseGenerators true
        b) := by
  cases a with
  | nil => cases b <;> simp
  | cons head tail => cases b <;> simp [compareGenerator_eq_iff head, compareGenerators_eq_iff tail]
  termination_by structural a

theorem compareParameters_eq_iff (a b : List (Parameter L O F)) :
    compareParameters a b = .eq ↔
      eraseParameters false (eraseParameters true a) = eraseParameters false (eraseParameters true
        b) := by
  cases a with
  | nil => cases b <;> simp
  | cons head tail => cases b <;> simp [compareParameter_eq_iff head, compareParameters_eq_iff tail]
  termination_by structural a

theorem compareSubstrings_eq_iff (a b : List (Substring L O F)) :
    compareSubstrings a b = .eq ↔
      eraseSubstrings false (eraseSubstrings true a) = eraseSubstrings false (eraseSubstrings true
        b) := by
  cases a with
  | nil => cases b <;> simp
  | cons head tail => cases b <;> simp [compareSubstring_eq_iff head, compareSubstrings_eq_iff tail]
  termination_by structural a

end

end

/-! ## 3. The lexicographic comparison -/

namespace Token

variable {x y z : Token F}

/-- Two constructors that fall through to the same constant. -/
def FallAlike : Token F → Token F → Prop
  | constructor below _, constructor below' _ => below = below'
  | _, _ => False

theorem compare_eq_iff : x.compare y = .eq ↔ x = y := by
  cases x with
  | constructor below tag =>
    cases y with
    | constructor below' tag' =>
      rw [Token.compare, constructor.injEq]
      split
      · rename_i h
        exact iff_of_true rfl h
      · rename_i h
        cases below <;> simp_all
    | _ => simp [Token.compare, kind]
  | _ => cases y <;> simp [Token.compare, kind]

theorem compare_swap_iff (h : x ≠ y) : y.compare x = (x.compare y).swap ↔ ¬ FallAlike x y := by
  cases x with
  | constructor below tag =>
    cases y with
    | constructor below' tag' =>
      simp only [Token.compare, FallAlike]
      cases below <;> cases below' <;> simp_all [eq_comm]
    | _ => exact iff_of_true rfl id
  | _ =>
    cases y <;> first
      | exact iff_of_true rfl id
      | exact iff_of_true (@Std.OrientedCmp.eq_swap _ compare _ _ _) id

theorem compare_trans (hxy : ¬ FallAlike x y) (hyz : ¬ FallAlike y z) (hxz : ¬ FallAlike x z)
    (h₁ : x.compare y = .lt) (h₂ : y.compare z = .lt) : x.compare z = .lt := by
  cases x <;> cases y <;> cases z <;> first
    | exact compare_lt_iff_lt.mpr (lt_trans (compare_lt_iff_lt.mp h₁) (compare_lt_iff_lt.mp h₂))
    | simp_all [Token.compare, kind, FallAlike]
  all_goals first
    | exact absurd h₁ (by decide)
    | exact absurd h₂ (by decide)

end Token

/-- The first tokens at which the two differ do not fall through alike. -/
def Fair : List (Token F) → List (Token F) → Prop
  | x :: xs, y :: ys => (x = y ∧ Fair xs ys) ∨ (x ≠ y ∧ ¬ Token.FallAlike x y)
  | _, _ => True

omit [LinearOrder F] in
theorem fair_cons {x y : Token F} {xs ys : List (Token F)} :
    Fair (x :: xs) (y :: ys) ↔ (x = y ∧ Fair xs ys) ∨ (x ≠ y ∧ ¬ Token.FallAlike x y) := Iff.rfl

theorem then_of_ne_eq {o₁ o₂ : Ordering} (h : o₁ ≠ .eq) : o₁.then o₂ = o₁ := by
  cases o₁ with
  | eq => exact absurd rfl h
  | lt => rfl
  | gt => rfl

theorem lex_cons_self (x : Token F) (xs ys : List (Token F)) :
    lex (x :: xs) (x :: ys) = lex xs ys := by
  rw [lex_cons, Token.compare_eq_iff.mpr rfl, eq_then]

theorem lex_cons_of_ne {x y : Token F} (h : x ≠ y) (xs ys : List (Token F)) :
    lex (x :: xs) (y :: ys) = x.compare y :=
  (lex_cons x y xs ys).trans (then_of_ne_eq fun heq => h (Token.compare_eq_iff.mp heq))

theorem lex_swap_iff (xs ys : List (Token F)) : lex ys xs = (lex xs ys).swap ↔ Fair xs ys := by
  induction xs generalizing ys with
  | nil => cases ys <;> exact iff_of_true rfl trivial
  | cons x xs ih =>
    cases ys with
    | nil => exact iff_of_true rfl trivial
    | cons y ys =>
      rw [fair_cons]
      by_cases h : x = y
      · subst h
        rw [lex_cons_self, lex_cons_self, ih]
        simp
      · rw [lex_cons_of_ne h, lex_cons_of_ne (Ne.symm h), Token.compare_swap_iff h]
        simp [h]

theorem Token.compare_lt_of_ne_gt {x y : Token F} (hne : x ≠ y) (h : x.compare y ≠ .gt) :
    x.compare y = .lt := by
  cases hxy : x.compare y with
  | lt => rfl
  | eq => exact absurd (compare_eq_iff.mp hxy) hne
  | gt => exact absurd hxy h

/-- At the first place where the three are not the same, either two of them are, or none falls
    through like another. -/
theorem lex_trans {xs ys zs : List (Token F)} (hxy : Fair xs ys) (hyz : Fair ys zs)
    (hxz : Fair xs zs) (h₁ : lex xs ys ≠ .gt) (h₂ : lex ys zs ≠ .gt) : lex xs zs ≠ .gt := by
  induction xs generalizing ys zs with
  | nil => cases zs <;> exact Ordering.noConfusion
  | cons x xs ih =>
    cases ys with
    | nil => exact absurd rfl h₁
    | cons y ys =>
      cases zs with
      | nil => exact absurd rfl h₂
      | cons z zs =>
        by_cases hxy' : x = y
        · subst hxy'
          by_cases hxz' : x = z
          · subst hxz'
            rw [lex_cons_self] at h₁ h₂ ⊢
            simp only [fair_cons, true_and, ne_eq, not_true_eq_false, false_and, or_false]
              at hxy hyz hxz
            exact ih hxy hyz hxz h₁ h₂
          · rw [lex_cons_of_ne hxz'] at h₂ ⊢
            exact h₂
        · rw [lex_cons_of_ne hxy'] at h₁
          by_cases hyz' : y = z
          · subst hyz'
            rw [lex_cons_of_ne hxy']
            exact h₁
          · rw [lex_cons_of_ne hyz'] at h₂
            have hlt₁ := Token.compare_lt_of_ne_gt hxy' h₁
            have hlt₂ := Token.compare_lt_of_ne_gt hyz' h₂
            have halike₁ := (hxy.resolve_left fun h => hxy' h.1).2
            by_cases hxz' : x = z
            · subst hxz'
              rw [(Token.compare_swap_iff hxy').mpr halike₁, hlt₁] at hlt₂
              cases hlt₂
            · have halike₂ := (hyz.resolve_left fun h => hyz' h.1).2
              have halike₃ := (hxz.resolve_left fun h => hxz' h.1).2
              rw [lex_cons_of_ne hxz', Token.compare_trans halike₁ halike₂ halike₃ hlt₁ hlt₂]
              exact Ordering.noConfusion

/-! ## 4. The laws -/

theorem compare_eq_lex (a b : ExpressionNode L O F) :
    locationInsensitiveCompare a b = lex (tokensNode a) (tokensNode b) := by
  have h := lex_tokensNode a b [] []
  rw [List.append_nil, List.append_nil] at h
  rw [h, locationInsensitiveCompare]
  cases compareNode a b <;> rfl

/-- The laws for two expressions. -/
structure LawfulPair (a b : ExpressionNode L O F) : Prop where
  antisymmetric : locationInsensitiveCompare b a = (locationInsensitiveCompare a b).swap
  zero : locationInsensitiveCompare a b = .eq ↔ erase a = erase b

/-- The laws for three expressions. -/
structure IsOrder (a b c : ExpressionNode L O F) : Prop where
  left : LawfulPair a b
  right : LawfulPair b c
  outer : LawfulPair a c
  transitive : locationInsensitiveCompare a b ≠ .gt → locationInsensitiveCompare b c ≠ .gt →
    locationInsensitiveCompare a c ≠ .gt

/-- The two first differ otherwise than in constructors that fall through to the same constant, and
    otherwise than in the qualified expressions of their strings. -/
structure Comparable (a b : ExpressionNode L O F) : Prop where
  fair : Fair (tokensNode a) (tokensNode b)
  strings : eraseNode false (erase a) = eraseNode false (erase b) → erase a = erase b

variable {a b c : ExpressionNode L O F}

theorem lawfulPair_iff : LawfulPair a b ↔ Comparable a b := by
  constructor
  · intro h
    refine ⟨(lex_swap_iff _ _).mp ?_, fun heq => h.zero.mp ((compareNode_eq_iff a b).mpr heq)⟩
    rw [← compare_eq_lex, ← compare_eq_lex]
    exact h.antisymmetric
  · intro h
    refine ⟨?_, fun heq => h.strings ((compareNode_eq_iff a b).mp heq), fun heq => ?_⟩
    · rw [compare_eq_lex, compare_eq_lex]
      exact (lex_swap_iff _ _).mpr h.fair
    · exact (compareNode_eq_iff a b).mpr (congrArg (eraseNode false) heq)

/-- **The comparison is an order on three expressions exactly if every two of them are
    comparable.** -/
theorem isOrder_iff (a b c : ExpressionNode L O F) :
    IsOrder a b c ↔ Comparable a b ∧ Comparable b c ∧ Comparable a c := by
  constructor
  · intro h
    exact ⟨lawfulPair_iff.mp h.left, lawfulPair_iff.mp h.right, lawfulPair_iff.mp h.outer⟩
  · rintro ⟨hleft, hright, houter⟩
    refine ⟨lawfulPair_iff.mpr hleft, lawfulPair_iff.mpr hright, lawfulPair_iff.mpr houter, ?_⟩
    rw [compare_eq_lex, compare_eq_lex, compare_eq_lex]
    exact lex_trans hleft.fair hright.fair houter.fair

/-- `None` is below `...`, and `...` is below `None`. -/
theorem not_isOrder :
    ¬ IsOrder (.node () (.constant .noneLiteral) : ExpressionNode Unit Unit ℕ)
      (.node () (.constant .ellipsis)) (.node () (.constant .ellipsis)) := by
  intro h
  have hswap := h.left.antisymmetric
  simp [locationInsensitiveCompare, compareNode, compareExpression, compareConstant] at hswap

end Pysa.Ast
