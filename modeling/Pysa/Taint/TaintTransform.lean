/-
  Subject: TAINT TRANSFORMS (`sanitizeTransform.ml`, `sanitizeTransformSet.ml`,
    `taintTransform.ml`, `taintTransforms.ml`).

  A transform changes the kind of a taint: a named transform is part of the rules, a sanitize
  transform records which sources and sinks the taint can no longer match.

  * `SanitizeSet`, `SanitizeTransformSet` -- sets of sanitizers, with a set that holds everything;
  * `TaintTransform`, `TaintTransforms` -- one transform, and the transforms of a kind;
  * `namedTransforms_append` -- the named transforms of local and global part together.

  The shortcuts on physical equality in the operations on sets return what the operations compute,
  so they are left out here.
-/
import Mathlib.Data.Finset.Basic

namespace Pysa.Taint

universe u

/-! ## 1. Sanitizers -/

namespace SanitizeTransform

inductive Source where
  | named (name : String)
  deriving DecidableEq

inductive Sink where
  | named (name : String)
  deriving DecidableEq

end SanitizeTransform

inductive SanitizeTransform where
  | source (source : SanitizeTransform.Source)
  | sink (sink : SanitizeTransform.Sink)
  deriving DecidableEq

/-- `MakeSet`: the kinds to sanitize, all of them or some. -/
inductive SanitizeSet (K : Type u) where
  | all
  | specific (set : Finset K)
  deriving DecidableEq

namespace SanitizeSet

variable {K : Type u}

def empty : SanitizeSet K := specific ∅

def isAll : SanitizeSet K → Bool
  | all => true
  | specific _ => false

variable [DecidableEq K]

def lessOrEqual : SanitizeSet K → SanitizeSet K → Bool
  | all, all => true
  | all, specific _ => false
  | specific _, all => true
  | specific left, specific right => decide (left ⊆ right)

def join : SanitizeSet K → SanitizeSet K → SanitizeSet K
  | all, _ => all
  | _, all => all
  | specific left, specific right => specific (left ∪ right)

def meet : SanitizeSet K → SanitizeSet K → SanitizeSet K
  | all, all => all
  | all, specific right => specific right
  | specific left, all => specific left
  | specific left, specific right => specific (left ∩ right)

def add (element : K) : SanitizeSet K → SanitizeSet K
  | all => all
  | specific set => specific (insert element set)

def mem (element : K) : SanitizeSet K → Bool
  | all => true
  | specific set => decide (element ∈ set)

def diff : SanitizeSet K → SanitizeSet K → SanitizeSet K
  | all, specific _ => all  -- an over-approximation
  | all, all => empty
  | specific _, all => empty
  | specific left, specific right => specific (left \ right)

end SanitizeSet

structure SanitizeTransformSet where
  sources : SanitizeSet SanitizeTransform.Source
  sinks : SanitizeSet SanitizeTransform.Sink
  deriving DecidableEq

namespace SanitizeTransformSet

def empty : SanitizeTransformSet := ⟨.empty, .empty⟩

def lessOrEqual (left right : SanitizeTransformSet) : Bool :=
  left.sources.lessOrEqual right.sources && left.sinks.lessOrEqual right.sinks

def isEmpty (set : SanitizeTransformSet) : Bool := decide (set = empty)

def join (left right : SanitizeTransformSet) : SanitizeTransformSet :=
  ⟨left.sources.join right.sources, left.sinks.join right.sinks⟩

def meet (left right : SanitizeTransformSet) : SanitizeTransformSet :=
  ⟨left.sources.meet right.sources, left.sinks.meet right.sinks⟩

def diff (left right : SanitizeTransformSet) : SanitizeTransformSet :=
  ⟨left.sources.diff right.sources, left.sinks.diff right.sinks⟩

def addSource (source : SanitizeTransform.Source) (set : SanitizeTransformSet) :
    SanitizeTransformSet :=
  { set with sources := set.sources.add source }

def addSink (sink : SanitizeTransform.Sink) (set : SanitizeTransformSet) : SanitizeTransformSet :=
  { set with sinks := set.sinks.add sink }

def mem (set : SanitizeTransformSet) : SanitizeTransform → Bool
  | .source source => set.sources.mem source
  | .sink sink => set.sinks.mem sink

end SanitizeTransformSet

/-! ## 2. Transforms -/

inductive TaintTransform where
  | named (name : String)
  | sanitize (transforms : SanitizeTransformSet)
  | triggeredPartialSink (triggeringSource : String)
  deriving DecidableEq

namespace TaintTransform

def isNamedTransform : TaintTransform → Bool
  | named _ => true
  | sanitize _ | triggeredPartialSink _ => false

def isNonSanitizeTransform : TaintTransform → Bool
  | named _ | triggeredPartialSink _ => true
  | sanitize _ => false

end TaintTransform

abbrev TaintTransforms := List TaintTransform

namespace TaintTransforms

instance : LawfulBEq TaintTransforms := inferInstance

inductive Order where
  /-- `A:B:C` are the transforms of `x` in `x = A(B(C(taint)))`. -/
  | forward
  /-- `A:B:C` are the transforms of `x` in `taint = C(B(A(x)))`. -/
  | backward
  deriving DecidableEq

def Order.show : Order → String
  | .forward => "TaintTransforms.Order.Forward"
  | .backward => "TaintTransforms.Order.Backward"

def merge (localPart globalPart : TaintTransforms) : TaintTransforms := localPart ++ globalPart

def getNamedTransforms (transforms : TaintTransforms) : TaintTransforms :=
  transforms.filter TaintTransform.isNamedTransform

def getNonSanitizeTransforms (transforms : TaintTransforms) : TaintTransforms :=
  transforms.filter TaintTransform.isNonSanitizeTransform

/-- The sanitizers at the front, joined, and the rest. -/
def splitSanitizersFrom (sofar : SanitizeTransformSet) :
    TaintTransforms → SanitizeTransformSet × TaintTransforms
  | .sanitize sanitizers :: tail => splitSanitizersFrom (sofar.join sanitizers) tail
  | transforms => (sofar, transforms)

def splitSanitizers (transforms : TaintTransforms) : SanitizeTransformSet × TaintTransforms :=
  splitSanitizersFrom .empty transforms

/-- The sanitizers that are still valid: those before a transform of another form. -/
def getSanitizeTransforms (transforms : TaintTransforms) : SanitizeTransformSet :=
  (splitSanitizers transforms).1

/-- All sanitizers go, and with them every transform that is not named. -/
def discardSanitizeTransforms (transforms : TaintTransforms) : TaintTransforms :=
  transforms.filter TaintTransform.isNamedTransform

@[simp] theorem getNamedTransforms_nil : getNamedTransforms [] = [] := rfl

@[simp] theorem getNamedTransforms_named (name : String) (transforms : TaintTransforms) :
    getNamedTransforms (.named name :: transforms) =
      .named name :: getNamedTransforms transforms := rfl

@[simp] theorem getNamedTransforms_sanitize (sanitizers : SanitizeTransformSet)
    (transforms : TaintTransforms) :
    getNamedTransforms (.sanitize sanitizers :: transforms) = getNamedTransforms transforms := rfl

@[simp] theorem getNamedTransforms_triggeredPartialSink (triggeringSource : String)
    (transforms : TaintTransforms) :
    getNamedTransforms (.triggeredPartialSink triggeringSource :: transforms) =
      getNamedTransforms transforms := rfl

@[simp] theorem getNamedTransforms_append (left right : TaintTransforms) :
    getNamedTransforms (left ++ right) = getNamedTransforms left ++ getNamedTransforms right :=
  List.filter_append ..

@[simp] theorem getNamedTransforms_reverse (transforms : TaintTransforms) :
    getNamedTransforms transforms.reverse = (getNamedTransforms transforms).reverse :=
  List.filter_reverse ..

/-- Sanitizers at the front are not named transforms. -/
@[simp] theorem getNamedTransforms_splitSanitizers (transforms : TaintTransforms) :
    getNamedTransforms (splitSanitizers transforms).2 = getNamedTransforms transforms := by
  unfold splitSanitizers
  generalize SanitizeTransformSet.empty = sofar
  induction transforms generalizing sofar with
  | nil => rfl
  | cons transform tail ih =>
    cases transform with
    | named _ => rfl
    | triggeredPartialSink _ => rfl
    | sanitize sanitizers => exact ih _

end TaintTransforms

end Pysa.Taint
