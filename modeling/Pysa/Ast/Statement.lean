/-
  Subject: STATEMENTS (`statement.ml`), as far as control flow reads them.

  A statement without control flow is a value of `X`. The statements that a for, a with and a
  handler put in front of their bodies (`For.synthetic_preamble`, `With.preamble`, `Try.preamble`)
  are such values and stand in place of what they are computed from; the same holds for the test
  and the refutability of a match case (`MatchTranslate.to_condition`, `Case.is_refutable`).
-/
import Pysa.Ast.Expression

namespace Pysa

/-- `Assert.Origin.t`: what an assumption of the control-flow graph comes from. That of an exception
    handler is in its preamble. -/
inductive AssertOrigin where
  | ifThen (trueBranch : Bool)
  | whileLoop (trueBranch : Bool)
  | matchCase (trueBranch : Bool)
  deriving DecidableEq

mutual

inductive Statement (X : Type) where
  | simple (statement : X)
  | assert (test : Expression X) (origin : Option AssertOrigin)
  | breakLoop
  | continueLoop
  | raise (expression : X)
  | returnValue (expression : X)
  | forLoop (preamble : X) (body orelse : List (Statement X))
  | ifThen (test : Expression X) (body orelse : List (Statement X))
  | matchCases (cases : List (MatchCase X))
  | tryBlock (body orelse finally_ : List (Statement X)) (handlers : List (Handler X))
  | withBlock (preamble : List X) (body : List (Statement X))
  | whileLoop (test : Expression X) (body orelse : List (Statement X))

inductive MatchCase (X : Type) where
  | mk (test : Expression X) (refutable : Bool) (body : List (Statement X))

inductive Handler (X : Type) where
  | mk (preamble : List X) (body : List (Statement X))

end

namespace Statement

variable {X : Type}

/-- `Statement.assume`. -/
def assume (origin : AssertOrigin) (test : Expression X) : Statement X := .assert test (some origin)

end Statement

def MatchCase.refutable {X : Type} : MatchCase X → Bool
  | .mk _ refutable _ => refutable

end Pysa
