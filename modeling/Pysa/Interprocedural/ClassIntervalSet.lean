/-
  Subject: SETS OF DISCOVERY TIMES AS LISTS OF INTERVALS (`classIntervalSet.ml`).

  A set is a list of intervals sorted by lower bound, with a gap between any two of them.

  * `ofList` -- drops the empty intervals, sorts, merges what overlaps, then removes the gaps of
    width zero;
  * `meet`, `join` -- one walk over both lists, with the result in reverse;
  * `lessOrEqual` -- structural: the meet is the left argument.

  Every function that asks an interval for a bound fails on an empty interval. The increment in
  `removeGaps` is that of unbounded integers: the native one wraps only at the largest integer,
  and no later interval begins at the smallest one.
-/
import Pysa.Interprocedural.ClassInterval

namespace Pysa

abbrev ClassIntervalSet := List ClassInterval

namespace ClassIntervalSet

open ClassInterval

def empty : ClassIntervalSet := []

def top : ClassIntervalSet := [ClassInterval.top]

def isEmpty (intervals : ClassIntervalSet) : Bool := List.isEmpty intervals

/-! ## 1. Building a set -/

/-- `remove_gaps` at a list that begins with `first`. For example (1,2);(3,4) becomes (1,4). -/
def removeGaps (first : ClassInterval) (list result : ClassIntervalSet) :
    Except String ClassIntervalSet :=
  match list with
  | second :: tail => do
    let firstLower ← lowerBoundExn first
    let firstUpper ← upperBoundExn first
    let secondLower ← lowerBoundExn second
    let secondUpper ← upperBoundExn second
    if firstUpper + 1 = secondLower then removeGaps (create firstLower secondUpper) tail result
    else removeGaps second tail (first :: result)
  | [] => .ok (first :: result)

def removeGapsBetweenNonoverlappingIntervals (list : ClassIntervalSet) :
    Except String ClassIntervalSet :=
  match list with
  | first :: tail => List.reverse <$> removeGaps first tail []
  | [] => .ok []

/-- `merge_overlapping_intervals` at a list that begins with `first`. -/
def mergeOverlapping (first : ClassInterval) (list result : ClassIntervalSet) :
    Except String ClassIntervalSet :=
  match list with
  | second :: tail => do
    let firstLower ← lowerBoundExn first
    let firstUpper ← upperBoundExn first
    let secondLower ← lowerBoundExn second
    let secondUpper ← upperBoundExn second
    if secondLower > firstUpper then mergeOverlapping second tail (first :: result)
    else if secondUpper ≤ firstUpper then mergeOverlapping first tail result
    else mergeOverlapping (create firstLower secondUpper) tail result
  | [] => .ok (first :: result)

def mergeOverlappingIntervals (list : ClassIntervalSet) : Except String ClassIntervalSet :=
  match list with
  | first :: tail => mergeOverlapping first tail []
  | [] => .ok []

/-- The order of the sort. No interval is empty where it is used, so no bound fails there. -/
def lowerBoundLe (left right : ClassInterval) : Prop :=
  match left, right with
  | .empty, _ => True
  | _, .empty => False
  | .interval leftLower _ _, .interval rightLower _ _ => leftLower ≤ rightLower

instance : DecidableRel lowerBoundLe := fun left right => by
  cases left <;> cases right <;> unfold lowerBoundLe <;> infer_instance

/-- `of_list`. -/
def ofList (list : List ClassInterval) : Except String ClassIntervalSet := do
  let list := list.filter fun interval => !interval.isEmpty
  let list := list.insertionSort lowerBoundLe
  let result ← mergeOverlappingIntervals list
  removeGapsBetweenNonoverlappingIntervals result.reverse

/-! ## 2. Meet, join and order -/

def equal (left right : ClassIntervalSet) : Bool :=
  match left, right with
  | [], [] => true
  | leftHead :: leftTail, rightHead :: rightTail =>
    ClassInterval.equal leftHead rightHead && equal leftTail rightTail
  | _, _ => false

def intersectIntervalLists (left right result : ClassIntervalSet) :
    Except String ClassIntervalSet :=
  match left, right with
  | leftHead :: leftTail, rightHead :: rightTail => do
    let leftLower ← lowerBoundExn leftHead
    let leftUpper ← upperBoundExn leftHead
    let rightLower ← lowerBoundExn rightHead
    let rightUpper ← upperBoundExn rightHead
    if leftLower ≤ rightLower then
      if leftUpper ≥ rightUpper then
        intersectIntervalLists (leftHead :: leftTail) rightTail (rightHead :: result)
      else if leftUpper < rightLower then
        intersectIntervalLists leftTail (rightHead :: rightTail) result
      else
        intersectIntervalLists leftTail (rightHead :: rightTail)
          (ClassInterval.meet leftHead rightHead :: result)
    else if leftUpper ≤ rightUpper then
      intersectIntervalLists leftTail (rightHead :: rightTail) (leftHead :: result)
    else if rightUpper < leftLower then
      intersectIntervalLists (leftHead :: leftTail) rightTail result
    else
      intersectIntervalLists (leftHead :: leftTail) rightTail
        (ClassInterval.meet leftHead rightHead :: result)
  | _, _ => .ok result
termination_by left.length + right.length

def meet (left right : ClassIntervalSet) : Except String ClassIntervalSet :=
  List.reverse <$> intersectIntervalLists left right []

def lessOrEqual (left right : ClassIntervalSet) : Except String Bool :=
  (fun intersection => equal intersection left) <$> meet left right

def mergeIntervalLists (left right result : ClassIntervalSet) : Except String ClassIntervalSet :=
  match left, right with
  | leftHead :: leftTail, rightHead :: rightTail => do
    let leftLower ← lowerBoundExn leftHead
    let leftUpper ← upperBoundExn leftHead
    let rightLower ← lowerBoundExn rightHead
    let rightUpper ← upperBoundExn rightHead
    if leftLower ≤ rightLower then
      if leftUpper ≥ rightUpper then
        mergeIntervalLists (leftHead :: leftTail) rightTail result
      else if leftUpper < rightLower then
        mergeIntervalLists leftTail (rightHead :: rightTail) (leftHead :: result)
      else
        mergeIntervalLists leftTail (create leftLower rightUpper :: rightTail) result
    else if leftUpper ≤ rightUpper then
      mergeIntervalLists leftTail (rightHead :: rightTail) result
    else if rightUpper < leftLower then
      mergeIntervalLists (leftHead :: leftTail) rightTail (rightHead :: result)
    else
      mergeIntervalLists (create rightLower leftUpper :: leftTail) rightTail result
  | [], remaining => .ok (result.reverse ++ remaining)
  | remaining, [] => .ok (result.reverse ++ remaining)
termination_by left.length + right.length

def join (left right : ClassIntervalSet) : Except String ClassIntervalSet := do
  removeGapsBetweenNonoverlappingIntervals (← mergeIntervalLists left right [])

end ClassIntervalSet

end Pysa
