/-
  Subject: INTERVALS OF DISCOVERY TIMES (`classInterval.ml`).

  A class stands for its non-strict subclasses by the times at which a depth-first walk of the
  hierarchy enters and leaves it.

  * `denote` -- the integers of an interval.

  Bounds are unbounded integers. The source computes with native ones, and no operation here
  leaves the range of its arguments.
-/
import Mathlib
import Pysa.Lib.Basic

namespace Pysa

/-- An interval has its bounds in order: the type is abstract and `create` builds no other. -/
inductive ClassInterval where
  | empty
  | interval (lowerBound upperBound : Int) (ordered : lowerBound ≤ upperBound)
  deriving DecidableEq

namespace ClassInterval

/-! ## 1. Operations -/

def create (lowerBound upperBound : Int) : ClassInterval :=
  if h : lowerBound > upperBound then .empty
  else .interval lowerBound upperBound (not_lt.mp h)

def lowerBoundExn : ClassInterval → Except String Int
  | .empty => .error "lower_bound_exn: Empty"
  | .interval lowerBound _ _ => .ok lowerBound

def upperBoundExn : ClassInterval → Except String Int
  | .empty => .error "upper_bound_exn: Empty"
  | .interval _ upperBound _ => .ok upperBound

def meet (left right : ClassInterval) : ClassInterval :=
  match left, right with
  | .interval leftLower leftUpper _, .interval rightLower rightUpper _ =>
    create (max leftLower rightLower) (min leftUpper rightUpper)
  | _, _ => .empty

def equal (left right : ClassInterval) : Bool :=
  match left, right with
  | .empty, .empty => true
  | .interval leftLower leftUpper _, .interval rightLower rightUpper _ =>
    leftLower == rightLower && leftUpper == rightUpper
  | _, _ => false

def isEmpty : ClassInterval → Bool
  | .empty => true
  | _ => false

/-- Between the smallest and the largest native integer. -/
def top : ClassInterval := create (-2 ^ 62) (2 ^ 62 - 1)

theorem create_of_le {lower upper : Int} (h : lower ≤ upper) :
    create lower upper = .interval lower upper h := dif_neg (by omega)

@[simp] theorem equal_iff {left right : ClassInterval} : equal left right = true ↔ left = right := by
  cases left <;> cases right <;> simp [equal]

/-! ## 2. The integers of an interval -/

def denote : ClassInterval → Set Int
  | .empty => ∅
  | .interval lower upper _ => Set.Icc lower upper

end ClassInterval

end Pysa
