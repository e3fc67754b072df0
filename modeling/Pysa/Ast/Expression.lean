/-
  Subject: TESTS (`expression.ml`).

  Only the forms that negation and normalization look into are told apart; any other expression is
  a leaf of the type `X`. Locations and origins are left out.

  * `negate`, `normalize` -- the second one to negation normal form;
  * `isFalse` -- the constant `False`.
-/

namespace Pysa

inductive BooleanOperator where
  | and
  | or
  deriving DecidableEq

def BooleanOperator.inverse : BooleanOperator → BooleanOperator
  | and => or
  | or => and

inductive ComparisonOperator where
  | equals
  | greaterThan
  | greaterThanOrEquals
  | isIn
  | is
  | isNot
  | lessThan
  | lessThanOrEquals
  | notEquals
  | notIn
  deriving DecidableEq

def ComparisonOperator.inverse : ComparisonOperator → ComparisonOperator
  | equals => notEquals
  | greaterThan => lessThanOrEquals
  | greaterThanOrEquals => lessThan
  | isIn => notIn
  | is => isNot
  | isNot => is
  | lessThan => greaterThanOrEquals
  | lessThanOrEquals => greaterThan
  | notEquals => equals
  | notIn => isIn

inductive Expression (X : Type) where
  | constantFalse
  | constantTrue
  | booleanOperator (left : Expression X) (operator : BooleanOperator) (right : Expression X)
  | comparisonOperator (left : Expression X) (operator : ComparisonOperator)
      (right : Expression X)
  | not (operand : Expression X)
  | other (expression : X)
  deriving DecidableEq

namespace Expression

variable {X : Type}

/-- With `normalized`, `is` and `is not` are exchanged. -/
def negate (normalized : Bool) : Expression X → Expression X
  | not operand => operand
  | comparisonOperator left .isNot right =>
    if normalized then comparisonOperator left .is right
    else not (comparisonOperator left .isNot right)
  | comparisonOperator left .is right =>
    if normalized then comparisonOperator left .isNot right
    else not (comparisonOperator left .is right)
  | expression => not expression

theorem sizeOf_negate_le (normalized : Bool) (expression : Expression X) :
    sizeOf (negate normalized expression) ≤ 1 + sizeOf expression := by
  unfold negate
  split
  · simp
    omega
  · split <;> simp
  · split <;> simp
  · simp

/-- Changes boolean expressions to negation normal form. -/
def normalize : Expression X → Expression X
  | booleanOperator left operator right =>
    booleanOperator (normalize left) operator (normalize right)
  | not (comparisonOperator left operator right) => comparisonOperator left operator.inverse right
  | not constantFalse => constantTrue
  | not constantTrue => constantFalse
  | not (not expression) => expression
  | not (booleanOperator left operator right) =>
    booleanOperator (normalize (negate true left)) operator.inverse
      (normalize (negate true right))
  | expression => expression
termination_by expression => sizeOf expression
decreasing_by
  · simp only [booleanOperator.sizeOf_spec]
    omega
  · simp only [booleanOperator.sizeOf_spec]
    omega
  · have := sizeOf_negate_le true left
    simp only [not.sizeOf_spec, booleanOperator.sizeOf_spec]
    omega
  · have := sizeOf_negate_le true right
    simp only [not.sizeOf_spec, booleanOperator.sizeOf_spec]
    omega

def isFalse : Expression X → Bool
  | constantFalse => true
  | _ => false

end Expression

end Pysa
