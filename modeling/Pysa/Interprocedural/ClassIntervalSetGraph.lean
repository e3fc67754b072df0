/-
  Subject: THE INTERVAL SETS OF A CLASS HIERARCHY (`classIntervalSetGraph.ml`).

  * `depthFirstSearch` -- numbers a class when it is entered and when it is left. A child that was
    left before is a cross edge, and a class inherits the cross edges of its children;
  * `fromClassHierarchy` -- walks from every root, then joins the interval of each class with the
    intervals of its cross edges.

  The walk goes no deeper than there are classes, so their number is the fuel; running out of it
  is a failure of its own.
-/
import Pysa.Interprocedural.ClassHierarchyGraph
import Pysa.Interprocedural.ClassIntervalSet

namespace Pysa.ClassIntervalSetGraph

inductive DfsState where
  | grey
  | black
  deriving DecidableEq

/-- The accumulator of the walk. -/
structure Walk where
  intervals : ClassIdMap ClassInterval
  states : ClassIdMap DfsState
  crossEdges : ClassIdMap ClassIdSet
  time : Int

inductive Failure where
  | failwith (message : String)
  | outOfFuel
  deriving DecidableEq

def Failure.lift {α : Type} : Except String α → Except Failure α := Except.mapError .failwith

/-! ## 1. Cross edges -/

def addDirectCrossEdge (source target : ClassId) (crossEdges : ClassIdMap ClassIdSet) :
    ClassIdMap ClassIdSet :=
  crossEdges.update source fun
    | some nodes => some (nodes.add target)
    | none => some (.singleton target)

def addIndirectCrossEdge (source target : ClassId) (crossEdges : ClassIdMap ClassIdSet) :
    ClassIdMap ClassIdSet :=
  match crossEdges.find? target with
  | none => crossEdges
  | some nodes =>
    crossEdges.update source fun
      | some originalNodes => some (nodes.union originalNodes)
      | none => some nodes

/-! ## 2. The walk -/

def backEdge (node child : ClassId) : Failure :=
  .failwith ("Found a back edge from " ++ node.pp ++ " to " ++ child.pp ++
    " in the class hierarchy")

/-- `visit_child` at `node`, where `search` is the walk from a child. -/
def visitChild (search : ClassId → Walk → Except Failure Walk) (node : ClassId) (walk : Walk)
    (child : ClassId) : Except Failure Walk :=
  match walk.states.find? child with
  | none => do
    let walk ← search child walk
    -- now the child is black
    .ok { walk with crossEdges := addIndirectCrossEdge node child walk.crossEdges }
  | some .grey => .error (backEdge node child)
  | some .black =>
    -- all cross edges of a black node are indirect cross edges
    .ok { walk with
      crossEdges :=
        addIndirectCrossEdge node child (addDirectCrossEdge node child walk.crossEdges) }

/-- Enter `node`: it is grey from the next time on. -/
def Walk.enter (walk : Walk) (node : ClassId) : Walk :=
  { walk with states := walk.states.add node .grey, time := walk.time + 1 }

/-- Leave `node`, which was entered at `start`. -/
def Walk.leave (walk : Walk) (node : ClassId) (start : Int) : Walk :=
  let finish := walk.time + 1
  { walk with
    intervals := walk.intervals.add node (.create start finish)
    states := walk.states.add node .black
    time := finish }

def depthFirstSearch (graph : ClassHierarchyGraph) :
    ℕ → ClassId → Walk → Except Failure Walk
  | 0, _, _ => .error .outOfFuel
  | fuel + 1, node, walk => do
    let walk := walk.enter node
    let start := walk.time
    let walk ← (graph.children node).elements.foldlM
      (visitChild (depthFirstSearch graph fuel) node) walk
    .ok (walk.leave node start)

def Walk.initial : Walk := ⟨.empty, .empty, .empty, 0⟩

/-! ## 3. The interval sets -/

/-- The step of the fold in `join_intervals_from`. -/
def consInterval (intervals : ClassIdMap ClassInterval) (accumulator : List ClassInterval)
    (node : ClassId) : Except Failure (List ClassInterval) :=
  match intervals.find? node with
  | none => .error (.failwith ("Node " ++ node.pp ++ " should have an interval"))
  | some childInterval => .ok (childInterval :: accumulator)

def joinIntervalsFrom (intervals : ClassIdMap ClassInterval) (nodes : ClassIdSet)
    (interval : ClassInterval) : Except Failure ClassIntervalSet := do
  let list ← nodes.elements.foldlM (consInterval intervals) [interval]
  Failure.lift (ClassIntervalSet.ofList list)

/-- The set of `node`: its interval, joined with those of its cross edges if it has any. -/
def intervalWithCrossEdges (walk : Walk) (node : ClassId) (interval : ClassInterval) :
    Except Failure ClassIntervalSet :=
  match walk.crossEdges.find? node with
  | none => Failure.lift (ClassIntervalSet.ofList [interval])
  | some nodes => joinIntervalsFrom walk.intervals nodes interval

def addIntervalWithCrossEdges (walk : Walk) (node : ClassId) (interval : ClassInterval)
    (accumulator : ClassIdMap ClassIntervalSet) : Except Failure (ClassIdMap ClassIntervalSet) := do
  let interval ← intervalWithCrossEdges walk node interval
  .ok (accumulator.add node interval)

def fromClassHierarchy (graph : ClassHierarchyGraph) :
    Except Failure (ClassIdMap ClassIntervalSet) := do
  let fuel := graph.nodes.elements.length
  let walk ← graph.roots.elements.foldlM
    (fun walk root => depthFirstSearch graph fuel root walk) Walk.initial
  walk.intervals.foldM (addIntervalWithCrossEdges walk) .empty

/-- Resolve a class id to its interval, or `top` if the class has no recorded interval. -/
def ofClass (sets : ClassIdMap ClassIntervalSet) (classId : ClassId) : ClassIntervalSet :=
  (sets.find? classId).getD ClassIntervalSet.top

end Pysa.ClassIntervalSetGraph
