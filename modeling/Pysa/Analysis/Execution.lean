/-
  Subject: WHAT A FUNCTION BODY CAN EXECUTE.

  A behavior relates the statements without control flow that are executed, with the assumptions
  and the preambles on the way, to how the execution leaves. Branches and handlers are chosen
  freely; exceptions come from `raise` alone.

  * `Flow` -- how a statement is left;
  * `Behavior` -- and the ways to combine behaviors;
  * `behavior`, `behaviors` -- of statements, by recursion on them.

  `constant` tells the tests that are known to be false: an assertion of one raises, and a loop does
  not branch on one. With `fun _ => false` every branch can be taken.
-/
import Pysa.Analysis.CfgCreate

namespace Pysa

variable {X : Type}

inductive Flow where
  | next
  | breakLoop
  | continueLoop
  | raise
  | returnValue
  deriving DecidableEq

abbrev Behavior (X : Type) := List (Statement X) → Flow → Prop

namespace Behavior

def skip : Behavior X := fun trace flow => trace = [] ∧ flow = .next

def jump (statement : Statement X) (leaves : Flow) : Behavior X :=
  fun trace flow => trace = [statement] ∧ flow = leaves

def seq (first second : Behavior X) : Behavior X := fun trace flow =>
  (∃ before after, trace = before ++ after ∧ first before .next ∧ second after flow) ∨
    (flow ≠ .next ∧ first trace flow)

def either (left right : Behavior X) : Behavior X := fun trace flow =>
  left trace flow ∨ right trace flow

/-- Rounds of a loop, and how it is left: after a round, by a break, or by another jump. -/
inductive Loop (round leave : Behavior X) : Behavior X where
  | leave {trace flow} : leave trace flow → Loop round leave trace flow
  | again {before after flow flow'} : round before flow' → flow' = .next ∨ flow' = .continueLoop →
      Loop round leave after flow → Loop round leave (before ++ after) flow
  | broken {trace} : round trace .breakLoop → Loop round leave trace .next
  | jumped {trace flow} : round trace flow → flow = .raise ∨ flow = .returnValue →
      Loop round leave trace flow

/-- An exception of `body` may be caught by a handler. -/
def handled (body handlers : Behavior X) : Behavior X := fun trace flow =>
  ∃ before after, trace = before ++ after ∧ body before .raise ∧ handlers after flow

/-- `last` is executed however `first` is left, and that is how the whole is left, unless `last`
    itself jumps. -/
def finally_ (first last : Behavior X) : Behavior X := fun trace flow =>
  ∃ before after flow₁ flow₂, trace = before ++ after ∧ first before flow₁ ∧ last after flow₂ ∧
    flow = if flow₂ = .next then flow₁ else flow₂

/-- A preamble. -/
def preamble : List X → Behavior X
  | [] => skip
  | statement :: statements => seq (jump (.simple statement) .next) (preamble statements)

end Behavior

open Behavior

section Behaviors

variable (constant : Expression X → Bool) (normalizeAsserts : Bool)

def assertBehavior (test : Expression X) (origin : Option AssertOrigin) : Behavior X :=
  match origin with
  | none => jump (.assert test none) (if constant test then .raise else .next)
  | some (.whileLoop branch) => fun trace flow =>
    constant test = false ∧ jump (.assert test (some (.whileLoop branch))) .next trace flow
  | some origin => jump (.assert test (some origin)) .next

/-- The assumption that a branch was taken. -/
def taken (origin : Bool → AssertOrigin) (test : Expression X) : Behavior X :=
  assertBehavior constant (positiveTest normalizeAsserts test) (some (origin true))

def notTaken (origin : Bool → AssertOrigin) (test : Expression X) : Behavior X :=
  assertBehavior constant (negativeTest normalizeAsserts test) (some (origin false))

/-- No case of a match was taken. -/
def skipCases : List (MatchCase X) → Behavior X
  | [] => skip
  | .mk test _ _ :: cases => seq (notTaken constant normalizeAsserts .matchCase test)
      (skipCases cases)

mutual

def behavior : Statement X → Behavior X
  | .simple statement => jump (.simple statement) .next
  | .assert test origin => assertBehavior constant test origin
  | .breakLoop => jump .breakLoop .breakLoop
  | .continueLoop => jump .continueLoop .continueLoop
  | .raise expression => jump (.raise expression) .raise
  | .returnValue expression => jump (.returnValue expression) .returnValue
  | .forLoop first body orelse =>
    Loop (seq (jump (.simple first) .next) (behaviors body)) (behaviors orelse)
  | .ifThen test body orelse =>
    either (seq (taken constant normalizeAsserts .ifThen test) (behaviors body))
      (seq (notTaken constant normalizeAsserts .ifThen test) (behaviors orelse))
  | .matchCases cases =>
    either (caseBehaviors cases) fun trace flow =>
      matchCasesRefutable cases = true ∧ skipCases constant normalizeAsserts cases trace flow
  | .tryBlock body orelse last handlers =>
    finally_
      (either (seq (behaviors body) (behaviors orelse))
        (handled (behaviors body) (handlerBehaviors handlers)))
      (behaviors last)
  | .withBlock first body => seq (preamble first) (behaviors body)
  | .whileLoop test body orelse =>
    Loop (seq (taken constant normalizeAsserts .whileLoop test) (behaviors body))
      (seq (notTaken constant normalizeAsserts .whileLoop test) (behaviors orelse))

def behaviors : List (Statement X) → Behavior X
  | [] => skip
  | statement :: statements => seq (behavior statement) (behaviors statements)

/-- Some case of a match was taken. -/
def caseBehaviors : List (MatchCase X) → Behavior X
  | [] => fun _ _ => False
  | .mk test _ body :: cases =>
    either (seq (taken constant normalizeAsserts .matchCase test) (behaviors body))
      (seq (notTaken constant normalizeAsserts .matchCase test) (caseBehaviors cases))

def handlerBehaviors : List (Handler X) → Behavior X
  | [] => fun _ _ => False
  | .mk first body :: handlers =>
    either (seq (preamble first) (behaviors body)) (handlerBehaviors handlers)

end

end Behaviors

end Pysa
