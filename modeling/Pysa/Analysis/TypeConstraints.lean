/-
  Subject: TYPE CONSTRAINTS AND THEIR SOLUTION (typeConstraints.ml): bounds are added to one
    interval for each variable, and `solve` eliminates the variables that depend on none
    that remains, until none remains.

  * `Solution` -- `instantiate`, `set`;
  * `OrderedConstraints` -- `addLowerBound`, `addUpperBound`, `addFallbackToAny`, `solve`.
-/
import Pysa.Analysis.TypeVariables
import Pysa.Lib.SortedMap

namespace Pysa

/-! ## 1. Partitions of a map -/

namespace SortedMap

variable {K V W : Type} [LinearOrder K]

/-- The bindings whose value passes the test, and the others. -/
def partition (p : V → Bool) (m : SortedMap K V) : SortedMap K V × SortedMap K V :=
  (m.filterMap fun v => if p v then some v else none,
    m.filterMap fun v => if p v then none else some v)

theorem find?_partition_fst {p : V → Bool} {m : SortedMap K V} {k : K} {v : V} :
    (m.partition p).1.find? k = some v ↔ m.find? k = some v ∧ p v = true := by
  unfold partition
  rw [find?_filterMap]
  cases hk : m.find? k with
  | none => simp
  | some w =>
    rw [Option.bind_some, Option.some.injEq]
    constructor
    · intro h
      split at h
      · rename_i hp
        cases h
        exact ⟨rfl, hp⟩
      · cases h
    · rintro ⟨rfl, hp⟩
      rw [if_pos hp]

theorem find?_partition_snd {p : V → Bool} {m : SortedMap K V} {k : K} {v : V} :
    (m.partition p).2.find? k = some v ↔ m.find? k = some v ∧ p v = false := by
  unfold partition
  rw [find?_filterMap]
  cases hk : m.find? k with
  | none => simp
  | some w =>
    rw [Option.bind_some, Option.some.injEq]
    constructor
    · intro h
      split at h
      · cases h
      · rename_i hp
        cases h
        exact ⟨rfl, Bool.not_eq_true _ ▸ hp⟩
    · rintro ⟨rfl, hp⟩
      rw [if_neg (by rw [hp]; decide)]

theorem length_keys_filterMapi_le (f : K → V → Option W) (m : SortedMap K V) :
    (m.filterMapi f).keys.length ≤ m.keys.length := List.length_filter_le _ _

theorem length_keys_partition (p : V → Bool) (m : SortedMap K V) :
    (m.partition p).1.keys.length + (m.partition p).2.keys.length = m.keys.length := by
  have hfst : (m.partition p).1.keys = m.keys.filter fun k => ((m.find? k).map p).getD false := by
    refine List.filter_congr fun k hk => ?_
    rw [find?_of_mem hk]
    cases hp : p (m.get ⟨k, hk⟩) <;> simp [hp]
  have hsnd : (m.partition p).2.keys = m.keys.filter fun k => !((m.find? k).map p).getD false := by
    refine List.filter_congr fun k hk => ?_
    rw [find?_of_mem hk]
    cases hp : p (m.get ⟨k, hk⟩) <;> simp [hp]
  rw [hfst, hsnd]
  exact (List.length_eq_length_filter_add _).symm

end SortedMap

namespace TypeConstraints

open TypeLanguage

variable {L : TypeLanguage}

/-- A variable of some kind, and a value of its kind: `Type.Variable.pair`. -/
structure Pair (L : TypeLanguage) where
  kind : VariableKind
  key : L.Variable kind
  value : L.Domain kind

/-! ## 2. Solutions -/

structure Solution (L : TypeLanguage) where
  typeVars : SortedMap (L.Variable .typeVar) (L.Domain .typeVar)
  paramSpecs : SortedMap (L.Variable .paramSpec) (L.Domain .paramSpec)
  typeVarTuples : SortedMap (L.Variable .typeVarTuple) (L.Domain .typeVarTuple)

namespace Solution

def empty : Solution L := ⟨.empty, .empty, .empty⟩

/-- The values that the solution gives to the variables of one kind. -/
def ofKind (solution : Solution L) :
    (kind : VariableKind) → SortedMap (L.Variable kind) (L.Domain kind)
  | .typeVar => solution.typeVars
  | .paramSpec => solution.paramSpecs
  | .typeVarTuple => solution.typeVarTuples

def find (solution : Solution L) : L.Assignment := fun kind v => (solution.ofKind kind).find? v

def instantiate (solution : Solution L) (ty : L.Ty) : L.Ty :=
  let ty :=
    if solution.typeVars.isEmpty then ty
    else L.replaceAll .typeVar (fun v => solution.typeVars.find? v) ty
  let ty :=
    if solution.paramSpecs.isEmpty then ty
    else L.replaceAll .paramSpec (fun v => solution.paramSpecs.find? v) ty
  if solution.typeVarTuples.isEmpty then ty
  else L.replaceAll .typeVarTuple (fun v => solution.typeVarTuples.find? v) ty

def set (solution : Solution L) : (kind : VariableKind) → L.Variable kind → L.Domain kind →
    Solution L
  | .typeVar, key, data => { solution with typeVars := solution.typeVars.add key data }
  | .paramSpec, key, data => { solution with paramSpecs := solution.paramSpecs.add key data }
  | .typeVarTuple, key, data =>
    { solution with typeVarTuples := solution.typeVarTuples.add key data }

end Solution

/-! ## 3. Intervals -/

/-- The functor argument of `IntervalContainer.Make`, for the variables of one kind. -/
structure Interval (L : TypeLanguage) (kind : VariableKind) where
  T : Type
  /-- From an upper and a lower bound, each of them optional. -/
  create : Option (L.Domain kind) → Option (L.Domain kind) → T
  intersection : TypeOrder L → T → T → Option T
  narrowestValidValue : TypeOrder L → T → L.Variable kind → Option (L.Domain kind)
  mergeSolutionIn : T → L.Variable kind → Solution L → T
  isTrivial : T → L.Variable kind → Bool
  freeVariables : T → List L.AnyVariable

structure TypeVarInterval (L : TypeLanguage) where
  upperBound : L.Ty
  lowerBound : L.Ty

namespace TypeVarInterval

def create (upperBound lowerBound : Option L.Ty) : TypeVarInterval L :=
  ⟨upperBound.getD L.top, lowerBound.getD L.bottom⟩

def intersection (order : TypeOrder L) (left right : TypeVarInterval L) :
    Option (TypeVarInterval L) :=
  some ⟨order.meet left.upperBound right.upperBound, order.join left.lowerBound right.lowerBound⟩

def lowestNonBottomMember (order : TypeOrder L) (interval : TypeVarInterval L) : Option L.Ty :=
  if order.alwaysLessOrEqual interval.lowerBound interval.upperBound then
    if interval.lowerBound = L.bottom then some interval.upperBound else some interval.lowerBound
  else none

/-- `collect` of `narrowest_valid_value`: the variables of a type that an explicit type variable may
    stand for, those declared with a subset of its types. -/
def collect (explicits : List L.Ty) (ty : L.Ty) (sofar : List L.Ty) : List L.Ty :=
  (L.collectAll .typeVar ty).foldl (fun sofar candidate =>
    match L.constraints candidate with
    | .explicit leftConstraints =>
      if leftConstraints.all fun left => explicits.contains left
      then L.ofVariable candidate :: sofar else sofar
    | _ => sofar) sofar

def contains (order : TypeOrder L) (interval : TypeVarInterval L) (candidate : L.Ty) : Bool :=
  order.alwaysLessOrEqual candidate interval.upperBound &&
    order.alwaysLessOrEqual interval.lowerBound candidate

def isLiteralInteger (ty : L.Ty) : Bool :=
  L.isIntegerLiteral ty ||
    match L.asVariable ty with
    | some v =>
      match L.constraints v with
      | .literalIntegers => true
      | _ => false
    | none => false

def narrowestValidValue (order : TypeOrder L) (interval : TypeVarInterval L)
    (v : L.Variable .typeVar) : Option L.Ty :=
  match L.constraints v with
  | .explicit explicits =>
    (collect explicits interval.upperBound (collect explicits interval.lowerBound explicits)).find?
      (contains order interval)
  | .bound exogenousBound =>
    (intersection order interval (create (some exogenousBound) none)).bind
      (lowestNonBottomMember order)
  | .unconstrained => lowestNonBottomMember order interval
  | .literalIntegers =>
    match lowestNonBottomMember order interval with
    | some found =>
      if isLiteralInteger found then some found
      else
        match L.asUnion found with
        | some union => if union.all isLiteralInteger then some found else none
        | none => none
    | none => none

/-- A bound that becomes the variable itself is no bound. -/
def smartInstantiate (v : L.Variable .typeVar) (solution : Solution L) (ty : L.Ty) :
    Option L.Ty :=
  let instantiated := solution.instantiate ty
  if instantiated = L.ofVariable v then none else some instantiated

def mergeSolutionIn (interval : TypeVarInterval L) (v : L.Variable .typeVar)
    (solution : Solution L) : TypeVarInterval L :=
  create (smartInstantiate v solution interval.upperBound)
    (smartInstantiate v solution interval.lowerBound)

def isTrivial (interval : TypeVarInterval L) (_ : L.Variable .typeVar) : Bool :=
  decide (interval.upperBound = L.top ∧ interval.lowerBound = L.bottom)

def freeVariables (interval : TypeVarInterval L) : List L.AnyVariable :=
  L.allFreeVariables interval.upperBound ++ L.allFreeVariables interval.lowerBound

end TypeVarInterval

inductive ParamSpecInterval (L : TypeLanguage) where
  | top
  | singleton (parameters : L.Parameters)
  | bottom

namespace ParamSpecInterval

def create : Option L.Parameters → Option L.Parameters → ParamSpecInterval L
  | none, none => .bottom
  | some only, none => .singleton only
  | none, some only => .singleton only
  | some left, some right => if left = right then .singleton left else .top

def narrowestValidValue (_ : TypeOrder L) (interval : ParamSpecInterval L)
    (_ : L.Variable .paramSpec) : Option L.Parameters :=
  match interval with
  | .top => none
  | .bottom => none
  | .singleton parameters => some parameters

def intersection (_ : TypeOrder L) :
    ParamSpecInterval L → ParamSpecInterval L → Option (ParamSpecInterval L)
  | .top, _ => some .top
  | _, .top => some .top
  | other, .bottom => some other
  | .bottom, other => some other
  | .singleton left, .singleton right => if left = right then some (.singleton left) else some .top

/-- Instantiating a callable gives a callable (`TypeLanguage.Lawful`), so the last branch, a failure
    in the source, is never taken. -/
def mergeSolutionIn (target : ParamSpecInterval L) (_ : L.Variable .paramSpec)
    (solution : Solution L) : ParamSpecInterval L :=
  match target with
  | .singleton parameters =>
    match L.asCallable (solution.instantiate (L.callable parameters)) with
    | some instantiatedParameters => .singleton instantiatedParameters
    | none => .top
  | target => target

def isTrivial (target : ParamSpecInterval L) (v : L.Variable .paramSpec) : Bool :=
  match target with
  | .singleton parameters => decide (parameters = L.fromParamSpec v)
  | _ => false

def freeVariables : ParamSpecInterval L → List L.AnyVariable
  | .singleton parameters => L.allFreeVariables (L.callable parameters)
  | _ => []

end ParamSpecInterval

inductive TypeVarTupleInterval (L : TypeLanguage) where
  | topTuple
  | bottomTuple
  | singletonTuple (orderedTypes : L.OrderedTypes)

namespace TypeVarTupleInterval

def create : Option L.OrderedTypes → Option L.OrderedTypes → TypeVarTupleInterval L
  | none, none => .bottomTuple
  | some only, none => .singletonTuple only
  | none, some only => .singletonTuple only
  | some right, some left => if left = right then .singletonTuple left else .topTuple

/-- Of two tuples, the greater one: `order` compares them whatever side each of them bounds. -/
def intersection (order : TypeOrder L) :
    TypeVarTupleInterval L → TypeVarTupleInterval L → Option (TypeVarTupleInterval L)
  | .topTuple, _ => some .topTuple
  | _, .topTuple => some .topTuple
  | other, .bottomTuple => some other
  | .bottomTuple, other => some other
  | .singletonTuple left, .singletonTuple right =>
    if order.alwaysLessOrEqual (L.tuple left) (L.tuple right) then some (.singletonTuple right)
    else if order.alwaysLessOrEqual (L.tuple right) (L.tuple left) then
      some (.singletonTuple left)
    else none

def narrowestValidValue (_ : TypeOrder L) (interval : TypeVarTupleInterval L)
    (_ : L.Variable .typeVarTuple) : Option L.OrderedTypes :=
  match interval with
  | .topTuple => none
  | .bottomTuple => none
  | .singletonTuple orderedTypes => some orderedTypes

/-- As for parameter specifications, the last branch is never taken. -/
def mergeSolutionIn (target : TypeVarTupleInterval L) (_ : L.Variable .typeVarTuple)
    (solution : Solution L) : TypeVarTupleInterval L :=
  match target with
  | .singletonTuple orderedTypes =>
    match L.asTuple (solution.instantiate (L.tuple orderedTypes)) with
    | some instantiatedOrderedTypes => .singletonTuple instantiatedOrderedTypes
    | none => .topTuple
  | target => target

def isTrivial (target : TypeVarTupleInterval L) (v : L.Variable .typeVarTuple) : Bool :=
  match target with
  | .singletonTuple orderedTypes => decide (orderedTypes = L.soleVariadic v)
  | _ => false

def freeVariables : TypeVarTupleInterval L → List L.AnyVariable
  | .singletonTuple orderedTypes => L.allFreeVariables (L.tuple orderedTypes)
  | _ => []

end TypeVarTupleInterval

def typeVarInterval : Interval L .typeVar where
  T := TypeVarInterval L
  create := TypeVarInterval.create
  intersection := TypeVarInterval.intersection
  narrowestValidValue := TypeVarInterval.narrowestValidValue
  mergeSolutionIn := TypeVarInterval.mergeSolutionIn
  isTrivial := TypeVarInterval.isTrivial
  freeVariables := TypeVarInterval.freeVariables

def paramSpecInterval : Interval L .paramSpec where
  T := ParamSpecInterval L
  create := ParamSpecInterval.create
  intersection := ParamSpecInterval.intersection
  narrowestValidValue := ParamSpecInterval.narrowestValidValue
  mergeSolutionIn := ParamSpecInterval.mergeSolutionIn
  isTrivial := ParamSpecInterval.isTrivial
  freeVariables := ParamSpecInterval.freeVariables

def typeVarTupleInterval : Interval L .typeVarTuple where
  T := TypeVarTupleInterval L
  create := TypeVarTupleInterval.create
  intersection := TypeVarTupleInterval.intersection
  narrowestValidValue := TypeVarTupleInterval.narrowestValidValue
  mergeSolutionIn := TypeVarTupleInterval.mergeSolutionIn
  isTrivial := TypeVarTupleInterval.isTrivial
  freeVariables := TypeVarTupleInterval.freeVariables

/-- The interval module of each kind. -/
def intervalOf : (kind : VariableKind) → Interval L kind
  | .typeVar => typeVarInterval
  | .paramSpec => paramSpecInterval
  | .typeVarTuple => typeVarTupleInterval

/-! ## 4. Containers of intervals -/

/-- One interval for each variable of a kind that has one. -/
abbrev IntervalContainer {kind : VariableKind} (I : Interval L kind) : Type :=
  SortedMap (L.Variable kind) I.T

/-- The constraints on all three kinds of variables: `TypeConstraints.t`. -/
structure OrderedConstraints (L : TypeLanguage) where
  typeVars : IntervalContainer (typeVarInterval (L := L))
  paramSpecs : IntervalContainer (paramSpecInterval (L := L))
  typeVarTuples : IntervalContainer (typeVarTupleInterval (L := L))
  /-- A set, without repetitions. -/
  haveFallbacks : List L.AnyVariable

namespace OrderedConstraints

/-- The container of each kind. -/
def ofKind (constraints : OrderedConstraints L) :
    (kind : VariableKind) → IntervalContainer (intervalOf (L := L) kind)
  | .typeVar => constraints.typeVars
  | .paramSpec => constraints.paramSpecs
  | .typeVarTuple => constraints.typeVarTuples

/-- `contains_key`. -/
def containsKey (constraints : OrderedConstraints L) (key : L.AnyVariable) : Bool :=
  let hasConstraints := ((constraints.ofKind key.1).find? key.2).isSome
  hasConstraints || decide (key ∈ constraints.haveFallbacks)

end OrderedConstraints

namespace IntervalContainer

variable {kind : VariableKind} (I : Interval L kind)

def addBound (container : IntervalContainer I) (order : TypeOrder L) (v : L.Variable kind)
    (bound : L.Domain kind) (isLowerBound : Bool) : Option (IntervalContainer I) :=
  if bound = L.selfReference kind v then some container
  else
    let newConstraint :=
      if isLowerBound then I.create none (some bound) else I.create (some bound) none
    let existing := (container.find? v).getD (I.create none none)
    (I.intersection order existing newConstraint).bind fun intersection =>
      (I.narrowestValidValue order intersection v).map fun _ => container.add v intersection

def mergeSolution (container : IntervalContainer I) (solution : Solution L) :
    IntervalContainer I :=
  container.filterMapi fun key data =>
    let merged := I.mergeSolutionIn data key solution
    if I.isTrivial merged key then none else some merged

def partitionIndependentDependent (container : IntervalContainer I)
    (withRegardsTo : OrderedConstraints L) : IntervalContainer I × IntervalContainer I :=
  let isIndependent (target : I.T) : Bool :=
    !(I.freeVariables target).any withRegardsTo.containsKey
  container.partition isIndependent

def addSolution (container : IntervalContainer I) (order : TypeOrder L)
    (partialSolution : Solution L) : Option (Solution L) :=
  container.fold (fun v target partialSolution =>
    partialSolution.bind fun partialSolution =>
      (I.narrowestValidValue order target v).map fun value => partialSolution.set kind v value)
    (some partialSolution)

end IntervalContainer

/-! ## 5. Adding bounds and solving -/

namespace OrderedConstraints

def empty : OrderedConstraints L := ⟨.empty, .empty, .empty, []⟩

def addBound (constraints : OrderedConstraints L) (order : TypeOrder L) (pair : Pair L)
    (isLowerBound : Bool) : Option (OrderedConstraints L) :=
  match pair with
  | ⟨.typeVar, v, bound⟩ =>
    (IntervalContainer.addBound _ constraints.typeVars order v bound isLowerBound).map
      fun typeVars => { constraints with typeVars }
  | ⟨.paramSpec, v, bound⟩ =>
    (IntervalContainer.addBound _ constraints.paramSpecs order v bound isLowerBound).map
      fun paramSpecs => { constraints with paramSpecs }
  | ⟨.typeVarTuple, v, bound⟩ =>
    (IntervalContainer.addBound _ constraints.typeVarTuples order v bound isLowerBound).map
      fun typeVarTuples => { constraints with typeVarTuples }

def addLowerBound (constraints : OrderedConstraints L) (order : TypeOrder L) (pair : Pair L) :
    Option (OrderedConstraints L) := constraints.addBound order pair true

def addUpperBound (constraints : OrderedConstraints L) (order : TypeOrder L) (pair : Pair L) :
    Option (OrderedConstraints L) := constraints.addBound order pair false

def addFallbackToAny (constraints : OrderedConstraints L) (addition : L.AnyVariable) :
    OrderedConstraints L :=
  { constraints with haveFallbacks := constraints.haveFallbacks.insert addition }

def mergeSolution (constraints : OrderedConstraints L) (solution : Solution L) :
    OrderedConstraints L where
  typeVars := IntervalContainer.mergeSolution _ constraints.typeVars solution
  paramSpecs := IntervalContainer.mergeSolution _ constraints.paramSpecs solution
  typeVarTuples := IntervalContainer.mergeSolution _ constraints.typeVarTuples solution
  haveFallbacks := constraints.haveFallbacks

/-- `optional_add` of the `any` of the variable's kind. -/
def addFallback (solution : Solution L) (v : L.AnyVariable) : Solution L :=
  match solution.find v.1 v.2 with
  | some _ => solution
  | none => solution.set v.1 v.2 (L.anyOf v.1)

def applyFallbacks (solution : Solution L) (haveFallbacks : List L.AnyVariable) : Solution L :=
  haveFallbacks.foldl addFallback solution

def isEmpty (constraints : OrderedConstraints L) : Bool :=
  constraints.typeVars.isEmpty && constraints.paramSpecs.isEmpty &&
    constraints.typeVarTuples.isEmpty && constraints.haveFallbacks.isEmpty

/-- `matches`: the variable has no interval among the dependent ones. -/
def isIndependentFallback (dependent : OrderedConstraints L) (key : L.AnyVariable) : Bool :=
  ((dependent.ofKind key.1).find? key.2).isNone

/-- The independent constraints and the dependent ones. -/
def partition (remaining : OrderedConstraints L) : OrderedConstraints L × OrderedConstraints L :=
  let typeVars := IntervalContainer.partitionIndependentDependent _ remaining.typeVars remaining
  let typeVarTuples :=
    IntervalContainer.partitionIndependentDependent _ remaining.typeVarTuples remaining
  let paramSpecs := IntervalContainer.partitionIndependentDependent _ remaining.paramSpecs remaining
  let dependent : OrderedConstraints L :=
    ⟨typeVars.2, paramSpecs.2, typeVarTuples.2, remaining.haveFallbacks⟩
  (⟨typeVars.1, paramSpecs.1, typeVarTuples.1,
      remaining.haveFallbacks.filter dependent.isIndependentFallback⟩,
    { dependent with
      haveFallbacks := remaining.haveFallbacks.filter fun key =>
        !dependent.isIndependentFallback key })

/-- The values of the independent constraints and of the independent fallbacks added. -/
def addIndependent (independent : OrderedConstraints L) (order : TypeOrder L)
    (partialSolution : Solution L) : Option (Solution L) :=
  (((IntervalContainer.addSolution _ independent.typeVars order partialSolution).bind
    (IntervalContainer.addSolution _ independent.paramSpecs order)).bind
    (IntervalContainer.addSolution _ independent.typeVarTuples order)).map
    fun solution => applyFallbacks solution independent.haveFallbacks

/-- The number of intervals and fallbacks. -/
def count (constraints : OrderedConstraints L) : ℕ :=
  constraints.typeVars.keys.length + constraints.paramSpecs.keys.length +
    constraints.typeVarTuples.keys.length + constraints.haveFallbacks.length

theorem count_partition (remaining : OrderedConstraints L) :
    remaining.partition.1.count + remaining.partition.2.count = remaining.count := by
  have htypeVars : remaining.partition.1.typeVars.keys.length +
      remaining.partition.2.typeVars.keys.length = remaining.typeVars.keys.length :=
    SortedMap.length_keys_partition _ _
  have hparamSpecs : remaining.partition.1.paramSpecs.keys.length +
      remaining.partition.2.paramSpecs.keys.length = remaining.paramSpecs.keys.length :=
    SortedMap.length_keys_partition _ _
  have htuples : remaining.partition.1.typeVarTuples.keys.length +
      remaining.partition.2.typeVarTuples.keys.length = remaining.typeVarTuples.keys.length :=
    SortedMap.length_keys_partition _ _
  have hfallbacks : remaining.haveFallbacks.length = remaining.partition.1.haveFallbacks.length +
      remaining.partition.2.haveFallbacks.length := List.length_eq_length_filter_add _
  unfold count
  omega

theorem count_mergeSolution_le (constraints : OrderedConstraints L) (solution : Solution L) :
    (constraints.mergeSolution solution).count ≤ constraints.count :=
  Nat.add_le_add (Nat.add_le_add (Nat.add_le_add (SortedMap.length_keys_filterMapi_le _ _)
    (SortedMap.length_keys_filterMapi_le _ _)) (SortedMap.length_keys_filterMapi_le _ _)) le_rfl

theorem count_pos {constraints : OrderedConstraints L} (h : constraints.isEmpty ≠ true) :
    0 < constraints.count := by
  by_contra hzero
  apply h
  unfold count at hzero
  have hkeys : ∀ {K V : Type} [LinearOrder K] (m : SortedMap K V), m.keys.length = 0 →
      m.isEmpty = true := fun m hm => List.isEmpty_iff.mpr (List.length_eq_zero_iff.mp hm)
  unfold isEmpty
  rw [hkeys constraints.typeVars (by omega), hkeys constraints.paramSpecs (by omega),
    hkeys constraints.typeVarTuples (by omega),
    List.isEmpty_iff.mpr (List.length_eq_zero_iff.mp (by omega))]
  rfl

/-- A round of elimination: the independent constraints are solved, then their values are merged
    into the dependent ones. A round without independent constraints fails, so each round that
    goes on leaves fewer of them. -/
def buildSolution (order : TypeOrder L) (remaining : OrderedConstraints L)
    (partialSolution : Solution L) : Option (Solution L) :=
  match remaining.partition.1.addIndependent order partialSolution with
  | none => none
  | some solution =>
    if remaining.partition.2.isEmpty then some solution
    else if _ : remaining.partition.1.isEmpty then none
    else buildSolution order (remaining.partition.2.mergeSolution solution) solution
termination_by remaining.count
decreasing_by
  have hindependent := count_pos ‹¬ remaining.partition.1.isEmpty = true›
  have hmerge := count_mergeSolution_le remaining.partition.2 solution
  have hpartition := count_partition remaining
  omega

def solve (constraints : OrderedConstraints L) (order : TypeOrder L) : Option (Solution L) :=
  buildSolution order constraints .empty

end OrderedConstraints
end TypeConstraints
end Pysa
