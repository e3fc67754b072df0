/-
  Subject: THE FIXPOINT ITERATION over a control-flow graph (`fixpoint.ml`).

  The components of a weak topological order are analyzed in turn; a cycle is repeated until the
  precondition of its head is stable, and is widened at the head alone.

  * `State` -- what a state domain offers;
  * `Fixpoint` -- the two tables;
  * `computeFixpoint`, `forward`, `backward`.

  Repetition takes fuel; `none` stands for a run that does not return.
-/
import Pysa.Analysis.WeakTopologicalOrder

namespace Pysa

/-- `module type State`, over states `A` and statements `S`. -/
structure State (A S : Type) where
  bottom : A
  lessOrEqual : A → A → Bool
  join : A → A → A
  /-- `widen previous next iteration` -/
  widen : A → A → ℕ → A
  /-- `forward statementKey state statement` -/
  forward : ℕ → A → S → A
  /-- `backward statementKey state statement` -/
  backward : ℕ → A → S → A

structure Fixpoint (A : Type) where
  preconditions : SortedMap ℕ A
  postconditions : SortedMap ℕ A

namespace Fixpoint

variable {A S : Type}

def empty : Fixpoint A := ⟨.empty, .empty⟩

def setPrecondition (fixpoint : Fixpoint A) (id : ℕ) (state : A) : Fixpoint A :=
  { fixpoint with preconditions := fixpoint.preconditions.add id state }

def setPostcondition (fixpoint : Fixpoint A) (id : ℕ) (state : A) : Fixpoint A :=
  { fixpoint with postconditions := fixpoint.postconditions.add id state }

/-- What `compute_fixpoint` is given. -/
structure Problem (A S : Type) where
  domain : State A S
  cfg : Cfg S
  initialIndex : ℕ
  initial : A
  predecessors : CfgNode S → SortedSet ℕ
  successors : CfgNode S → SortedSet ℕ
  transition : ℕ → A → List S → A

variable (problem : Problem A S)

def joinWithPredecessorsPostconditions (postconditions : SortedMap ℕ A) (node : CfgNode S)
    (state : A) : A :=
  if node.id = problem.initialIndex then problem.domain.join state problem.initial
  else
    (problem.predecessors node).elements.foldl (fun sofar predecessorIndex =>
      problem.domain.join sofar
        ((postconditions.find? predecessorIndex).getD problem.domain.bottom)) state

def analyzeNode (node : CfgNode S) (fixpoint : Fixpoint A) : Fixpoint A :=
  let precondition := joinWithPredecessorsPostconditions problem fixpoint.postconditions node
    ((fixpoint.preconditions.find? node.id).getD problem.domain.bottom)
  let fixpoint := fixpoint.setPrecondition node.id precondition
  let postcondition := problem.transition node.id precondition node.statements
  fixpoint.setPostcondition node.id postcondition

/-- `iterate`, where `analyzeBody` analyzes the head and the components of the cycle. -/
def iterate (analyzeBody : Fixpoint A → Option (Fixpoint A)) (head : CfgNode S) :
    ℕ → ℕ → Fixpoint A → Option (Fixpoint A)
  | 0, _, _ => none
  | fuel + 1, localIteration, fixpoint => do
    let fixpoint ← analyzeBody fixpoint
    let currentHeadPrecondition ← fixpoint.preconditions.find? head.id
    let newHeadPrecondition :=
      joinWithPredecessorsPostconditions problem fixpoint.postconditions head
        currentHeadPrecondition
    if problem.domain.lessOrEqual newHeadPrecondition currentHeadPrecondition then
      -- the new precondition might be more precise
      some (fixpoint.setPrecondition head.id newHeadPrecondition)
    else
      iterate analyzeBody head fuel (localIteration + 1)
        (fixpoint.setPrecondition head.id
          (problem.domain.widen currentHeadPrecondition newHeadPrecondition localIteration))

mutual

def analyzeComponent (fuel : ℕ) : Component S → Fixpoint A → Option (Fixpoint A)
  | .node _ node, fixpoint => some (analyzeNode problem node fixpoint)
  | .cycle _ head components, fixpoint =>
    iterate problem
      (fun fixpoint => analyzeComponents fuel components (analyzeNode problem head fixpoint))
      head fuel 0 fixpoint

def analyzeComponents (fuel : ℕ) : List (Component S) → Fixpoint A → Option (Fixpoint A)
  | [], fixpoint => some fixpoint
  | component :: components, fixpoint => do
    let fixpoint ← analyzeComponent fuel component fixpoint
    analyzeComponents fuel components fixpoint

end

def computeFixpoint (fuel : ℕ) : Option (Fixpoint A) := do
  let components ←
    WeakTopologicalOrder.create problem.cfg problem.initialIndex problem.successors fuel
  analyzeComponents problem fuel components empty

section Directions

variable (domain : State A S) (hash : ℕ × ℕ → ℕ) (cfg : Cfg S) (initial : A)

/-- The transition of a block, first statement first. `hash` gives the statement keys. -/
def forwardTransition (nodeId : ℕ) (init : A) (statements : List S) : A :=
  statements.zipIdx.foldl (fun before (statement, statementIndex) =>
    domain.forward (hash (nodeId, statementIndex)) before statement) init

/-- Last statement first; the index counts down from the length. -/
def backwardTransition (nodeId : ℕ) (init : A) (statements : List S) : A :=
  statements.zipIdx.foldr (fun (statement, statementIndex) state =>
    domain.backward (hash (nodeId, statementIndex)) state statement) init

def forwardProblem : Problem A S where
  domain := domain
  cfg := cfg
  initialIndex := Cfg.entryIndex
  initial := initial
  predecessors := CfgNode.predecessors
  successors := CfgNode.successors
  transition := forwardTransition domain hash

def backwardProblem : Problem A S where
  domain := domain
  cfg := cfg
  initialIndex := Cfg.exitIndex
  initial := initial
  predecessors := CfgNode.successors
  successors := CfgNode.predecessors
  transition := backwardTransition domain hash

def forward (fuel : ℕ) : Option (Fixpoint A) :=
  computeFixpoint (forwardProblem domain hash cfg initial) fuel

def backward (fuel : ℕ) : Option (Fixpoint A) :=
  computeFixpoint (backwardProblem domain hash cfg initial) fuel

end Directions

end Fixpoint

end Pysa
