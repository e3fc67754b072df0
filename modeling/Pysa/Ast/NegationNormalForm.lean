/-
  Subject: NEGATION NORMAL FORM (`negate`, `normalize` of `expression.ml`).

  * `Assignment.value` -- the truth value of a test; a comparison and a leaf are atoms;
  * `value_negate`, `value_normalize` -- both keep the meaning;
  * `NormalForm` -- every `not` stands at an atom that is no comparison;
  * `Settled` -- the double negations whose operand `normalize` returns as it is;
  * `normalize_iff` -- **the result is in normal form, and stays as it is, exactly for the settled
    tests.**
-/
import Pysa.Ast.Expression

namespace Pysa.Expression

variable {X : Type}

/-! ## 1. Truth values -/

/-- The truth values of the atoms. -/
structure Assignment (X : Type) where
  comparison (left : Expression X) (operator : ComparisonOperator) (right : Expression X) : Bool
  other : X → Bool

namespace Assignment

/-- A comparison with the inverse operator is the negation of the comparison. -/
def Inverse (A : Assignment X) : Prop := ∀ left operator right,
  A.comparison left operator.inverse right = !A.comparison left operator right

def value (A : Assignment X) : Expression X → Bool
  | constantFalse => false
  | constantTrue => true
  | booleanOperator left .and right => A.value left && A.value right
  | booleanOperator left .or right => A.value left || A.value right
  | comparisonOperator left operator right => A.comparison left operator right
  | not operand => !A.value operand
  | .other expression => A.other expression

variable {A : Assignment X}

theorem value_negate (hA : A.Inverse) (normalized : Bool) (expression : Expression X) :
    A.value (negate normalized expression) = !A.value expression := by
  unfold negate
  split
  · exact (Bool.not_not _).symm
  · rename_i left right
    split
    · exact hA left .isNot right
    · rfl
  · rename_i left right
    split
    · exact hA left .is right
    · rfl
  · rfl

/-- The inverse operator over the negated operands. -/
theorem value_inverse (left right : Expression X) (operator : BooleanOperator)
    {left' right' : Expression X} (hleft : A.value left' = !A.value left)
    (hright : A.value right' = !A.value right) :
    A.value (booleanOperator left' operator.inverse right') =
      !A.value (booleanOperator left operator right) := by
  cases operator with
  | and =>
    show (A.value left' || A.value right') = !(A.value left && A.value right)
    rw [hleft, hright, Bool.not_and]
  | or =>
    show (A.value left' && A.value right') = !(A.value left || A.value right)
    rw [hleft, hright, Bool.not_or]

theorem value_normalize (hA : A.Inverse) (expression : Expression X) :
    A.value (normalize expression) = A.value expression := by
  induction expression using normalize.induct with
  | case1 left operator right ihl ihr =>
    rw [normalize]
    cases operator with
    | and => rw [value, value, ihl, ihr]
    | or => rw [value, value, ihl, ihr]
  | case2 left operator right =>
    rw [normalize]
    exact hA left operator right
  | case3 => rw [normalize]; rfl
  | case4 => rw [normalize]; rfl
  | case5 expression =>
    rw [normalize]
    exact (Bool.not_not _).symm
  | case6 left operator right ihl ihr =>
    rw [normalize]
    exact value_inverse left right operator (ihl.trans (value_negate hA true left))
      (ihr.trans (value_negate hA true right))
  | case7 expression h₁ h₂ h₃ h₄ h₅ h₆ => rw [normalize.eq_7 expression h₁ h₂ h₃ h₄ h₅ h₆]

end Assignment

/-! ## 2. The normal form -/

/-- No `not` below `and` and `or` is applied to an operator, a comparison, a constant or a `not`. -/
def NormalForm : Expression X → Prop
  | booleanOperator left _ right => left.NormalForm ∧ right.NormalForm
  | not (other _) => True
  | not _ => False
  | _ => True

/-- Where `normalize` meets an expression. -/
inductive Position where
  | plain
  /-- The operand of a `not`. -/
  | negated
  /-- The operand of a boolean operator below a `not`, to which `negate` is applied. -/
  | operand

/-- Every double negation that `normalize` takes off has an operand in normal form. -/
def Settled : Position → Expression X → Prop
  | .plain, booleanOperator left _ right => Settled .plain left ∧ Settled .plain right
  | .plain, not expression => Settled .negated expression
  | .negated, booleanOperator left _ right => Settled .operand left ∧ Settled .operand right
  | .negated, not expression => expression.NormalForm
  | .operand, booleanOperator left _ right => Settled .operand left ∧ Settled .operand right
  | .operand, not expression => Settled .plain expression
  | _, _ => True

theorem settled_negate (expression : Expression X) :
    Settled .plain (negate true expression) ↔ Settled .operand expression := by
  cases expression with
  | comparisonOperator left operator right => cases operator <;> exact Iff.rfl
  | constantFalse => exact Iff.rfl
  | constantTrue => exact Iff.rfl
  | booleanOperator left operator right => exact Iff.rfl
  | not expression => exact Iff.rfl
  | other expression => exact Iff.rfl

theorem normalForm_normalize_iff (expression : Expression X) :
    (normalize expression).NormalForm ↔ Settled .plain expression := by
  induction expression using normalize.induct with
  | case1 left operator right ihl ihr =>
    rw [normalize]
    exact and_congr ihl ihr
  | case2 left operator right => rw [normalize]; exact Iff.rfl
  | case3 => rw [normalize]; exact Iff.rfl
  | case4 => rw [normalize]; exact Iff.rfl
  | case5 expression => rw [normalize]; exact Iff.rfl
  | case6 left operator right ihl ihr =>
    rw [normalize]
    exact and_congr (ihl.trans (settled_negate left)) (ihr.trans (settled_negate right))
  | case7 expression h₁ h₂ h₃ h₄ h₅ h₆ =>
    rw [normalize.eq_7 expression h₁ h₂ h₃ h₄ h₅ h₆]
    -- an atom, or a `not` at a leaf
    cases expression with
    | constantFalse => exact Iff.rfl
    | constantTrue => exact Iff.rfl
    | comparisonOperator left operator right => exact Iff.rfl
    | other expression => exact Iff.rfl
    | booleanOperator left operator right => exact (h₁ left operator right rfl).elim
    | not operand =>
      cases operand with
      | constantFalse => exact (h₃ rfl).elim
      | constantTrue => exact (h₄ rfl).elim
      | comparisonOperator left operator right => exact (h₂ left operator right rfl).elim
      | other expression => exact Iff.rfl
      | booleanOperator left operator right => exact (h₆ left operator right rfl).elim
      | not expression => exact (h₅ expression rfl).elim

/-- An expression in normal form is left as it is. -/
theorem normalize_eq_self (expression : Expression X) (h : expression.NormalForm) :
    normalize expression = expression := by
  induction expression with
  | constantFalse => rw [normalize] <;> simp
  | constantTrue => rw [normalize] <;> simp
  | comparisonOperator left operator right => rw [normalize] <;> simp
  | other expression => rw [normalize] <;> simp
  | booleanOperator left operator right ihl ihr => rw [normalize, ihl h.1, ihr h.2]
  | not operand =>
    cases operand with
    | other expression => rw [normalize] <;> simp
    | constantFalse => exact h.elim
    | constantTrue => exact h.elim
    | comparisonOperator left operator right => exact h.elim
    | booleanOperator left operator right => exact h.elim
    | not expression => exact h.elim

/-- **`negate` and `normalize` keep the meaning, and the result of `normalize` is in normal form
    and stays as it is, exactly for the tests whose double negations are settled.** -/
theorem normalize_iff (expression : Expression X) :
    ((∀ A : Assignment X, A.Inverse →
        A.value (normalize expression) = A.value expression ∧
        ∀ normalized, A.value (negate normalized expression) = !A.value expression) ∧
      (normalize expression).NormalForm ∧
      normalize (normalize expression) = normalize expression) ↔ Settled .plain expression := by
  constructor
  · rintro ⟨-, hnormal, -⟩
    exact (normalForm_normalize_iff expression).mp hnormal
  · intro hsettled
    have hnormal := (normalForm_normalize_iff expression).mpr hsettled
    exact ⟨fun A hA => ⟨A.value_normalize hA expression,
      fun normalized => A.value_negate hA normalized expression⟩, hnormal,
      normalize_eq_self _ hnormal⟩

/-- `not not not (a and b)` is taken for `not (a and b)`, which is not in normal form, and which
    the next call turns into `not a or not b`. -/
theorem not_normalForm_normalize :
    let test : Expression Nat := not (not (not (booleanOperator (other 0) .and (other 1))))
    ¬ (normalize test).NormalForm ∧ normalize (normalize test) ≠ normalize test := by
  intro test
  have heq : normalize test = not (booleanOperator (other 0) .and (other 1)) := by rw [normalize]
  rw [heq]
  refine ⟨id, ?_⟩
  rw [normalize]
  simp

end Pysa.Expression
