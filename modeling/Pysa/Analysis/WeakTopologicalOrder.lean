/-
  Subject: WEAK TOPOLOGICAL ORDERS (`weakTopologicalOrder.ml`).

  Nodes are numbered depth first. When a node is left whose number is the least that can be
  reached from it, a component is complete: the node alone, or a cycle with the node as its head.
  The rest of a cycle is forgotten and numbered again, without the head.

  * `visit` -- with the components found so far in front; it returns the least number too;
  * `create` -- from the entry.

  Recursion takes fuel; `none` stands for a run that does not return.
-/
import Pysa.Analysis.CfgNode

namespace Pysa

inductive Component (S : Type) where
  | node (id : ℕ) (node : CfgNode S)
  | cycle (id : ℕ) (head : CfgNode S) (components : List (Component S))

namespace WeakTopologicalOrder

/-- The tables of the construction. The number `⊤` is that of a node whose component is complete. -/
structure Tables where
  depthFirstNumbers : SortedMap ℕ ℕ∞
  stack : List ℕ
  currentDepthFirstNumber : ℕ
  currentComponentId : ℕ

namespace Tables

def initial : Tables := ⟨.empty, [], 0, 0⟩

def getDepthFirstNumber (tables : Tables) (nodeIndex : ℕ) : ℕ∞ :=
  (tables.depthFirstNumbers.find? nodeIndex).getD 0

def setDepthFirstNumber (tables : Tables) (nodeIndex : ℕ) (number : ℕ∞) : Tables :=
  { tables with depthFirstNumbers := tables.depthFirstNumbers.add nodeIndex number }

/-- Push `nodeIndex` and give it the next number. -/
def enter (tables : Tables) (nodeIndex : ℕ) : Tables :=
  { tables with
    stack := nodeIndex :: tables.stack
    currentDepthFirstNumber := tables.currentDepthFirstNumber + 1
    depthFirstNumbers :=
      tables.depthFirstNumbers.add nodeIndex ((tables.currentDepthFirstNumber + 1 : ℕ) : ℕ∞) }

/-- `Stack.pop_exn`. -/
def pop (tables : Tables) : Option (ℕ × Tables) :=
  match tables.stack with
  | [] => none
  | element :: stack => some (element, { tables with stack := stack })

def makeComponentId (tables : Tables) : ℕ × Tables :=
  (tables.currentComponentId,
    { tables with currentComponentId := tables.currentComponentId + 1 })

end Tables

variable {S : Type}

/-- `reset_dfn`: forget the numbers of the popped elements, down to `nodeIndex`. -/
def resetDfn (nodeIndex : ℕ) : ℕ → List ℕ → SortedMap ℕ ℕ∞ → Option (List ℕ × SortedMap ℕ ℕ∞)
  | element, stack, numbers =>
    if element = nodeIndex then some (stack, numbers)
    else
      match stack with
      | [] => none
      | next :: stack => resetDfn nodeIndex next stack (numbers.add element 0)

/-- What a visit takes and returns. -/
abbrev Visit (S : Type) :=
  List (Component S) → ℕ → Tables → Option (List (Component S) × ℕ∞ × Tables)

/-- The accumulator of the walk over the successors of a node. -/
structure Walked (S : Type) where
  components : List (Component S)
  minimumDfn : ℕ∞
  loop : Bool
  tables : Tables

/-- The first `visit_successors`. -/
def visitSuccessor (visit : Visit S) (walked : Walked S) (successor : ℕ) : Option (Walked S) := do
  let (components, successorDfn, tables) ←
    if walked.tables.getDepthFirstNumber successor = 0 then
      visit walked.components successor walked.tables
    else some (walked.components, walked.tables.getDepthFirstNumber successor, walked.tables)
  if successorDfn ≤ walked.minimumDfn then some ⟨components, successorDfn, true, tables⟩
  else some ⟨components, walked.minimumDfn, walked.loop, tables⟩

/-- The second `visit_successors`, on the rest of a cycle. -/
def revisitSuccessor (visit : Visit S) (walked : List (Component S) × Tables) (successor : ℕ) :
    Option (List (Component S) × Tables) :=
  if walked.2.getDepthFirstNumber successor = 0 then do
    let (components, _, tables) ← visit walked.1 successor walked.2
    some (components, tables)
  else some walked

/-- A new component with `node` in front of the others. -/
def closeComponent (visit : Visit S) (successors : CfgNode S → SortedSet ℕ) (nodeIndex : ℕ)
    (node : CfgNode S) (walked : Walked S) : Option (List (Component S) × Tables) := do
  let tables := walked.tables.setDepthFirstNumber nodeIndex ⊤
  let (element, tables) ← tables.pop
  if walked.loop then do
    -- a new cycle
    let (stack, numbers) ← resetDfn nodeIndex element tables.stack tables.depthFirstNumbers
    let tables := { tables with stack := stack, depthFirstNumbers := numbers }
    let (components, tables) ←
      (successors node).elements.foldlM (revisitSuccessor visit) ([], tables)
    let (id, tables) := tables.makeComponentId
    some (.cycle id node components :: walked.components, tables)
  else
    -- a single node
    let (id, tables) := tables.makeComponentId
    some (.node id node :: walked.components, tables)

def visit (cfg : Cfg S) (successors : CfgNode S → SortedSet ℕ) : ℕ → Visit S
  | 0, _, _, _ => none
  | fuel + 1, components, nodeIndex, tables => do
    let tables := tables.enter nodeIndex
    let headDfn := tables.getDepthFirstNumber nodeIndex
    let node ← cfg.node nodeIndex
    let walked ← (successors node).elements.foldlM (visitSuccessor (visit cfg successors fuel))
      ⟨components, headDfn, false, tables⟩
    if walked.minimumDfn = walked.tables.getDepthFirstNumber nodeIndex then do
      let (components, tables) ←
        closeComponent (visit cfg successors fuel) successors nodeIndex node walked
      some (components, walked.minimumDfn, tables)
    else some (walked.components, walked.minimumDfn, walked.tables)

def create (cfg : Cfg S) (entryIndex : ℕ) (successors : CfgNode S → SortedSet ℕ) (fuel : ℕ) :
    Option (List (Component S)) := do
  let (components, _, _) ← visit cfg successors fuel [] entryIndex .initial
  some components

end WeakTopologicalOrder

end Pysa
