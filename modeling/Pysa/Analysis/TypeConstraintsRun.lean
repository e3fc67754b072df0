/-
  Subject: SOLVING AFTER ANY SEQUENCE OF ADDITIONS: a solution respects the bounds that were added,
    those of type-variable tuples as far as the upper ones are above the others.

  * `Operation`, `run` -- bounds and fallbacks added to the empty constraints;
  * `solve_respects` -- a solution respects every bound that the intervals guarantee;
  * `solve_sound` -- **every bound is respected** if each upper bound of a tuple is above the other
    bounds of it, and only then where these are closed.
-/
import Pysa.Analysis.TypeConstraintsSolve

namespace Pysa
namespace TypeConstraints

open TypeLanguage OrderedConstraints

variable {L : TypeLanguage}

/-! ## 1. Runs -/

inductive Operation (L : TypeLanguage) where
  | addLowerBound (pair : Pair L)
  | addUpperBound (pair : Pair L)
  | addFallbackToAny (addition : L.AnyVariable)

namespace Operation

def apply (order : TypeOrder L) (constraints : OrderedConstraints L) :
    Operation L → Option (OrderedConstraints L)
  | .addLowerBound pair => constraints.addLowerBound order pair
  | .addUpperBound pair => constraints.addUpperBound order pair
  | .addFallbackToAny addition => some (constraints.addFallbackToAny addition)

def addedBound : Operation L → Option (AddedBound L)
  | .addLowerBound pair => some ⟨pair, true⟩
  | .addUpperBound pair => some ⟨pair, false⟩
  | .addFallbackToAny _ => none

def fallback : Operation L → Option L.AnyVariable
  | .addFallbackToAny addition => some addition
  | _ => none

end Operation

/-- The constraints after the operations, if they all succeed. -/
def run (order : TypeOrder L) (operations : List (Operation L)) : Option (OrderedConstraints L) :=
  operations.foldlM (fun constraints operation => operation.apply order constraints) .empty

def addedBounds (operations : List (Operation L)) : List (AddedBound L) :=
  operations.filterMap Operation.addedBound

def fallbacks (operations : List (Operation L)) : List L.AnyVariable :=
  operations.filterMap Operation.fallback

/-- A bound that was added for the variable, other than the variable itself. -/
def IsBound (operations : List (Operation L)) (kind : VariableKind) (v : L.Variable kind)
    (bound : L.Domain kind) (isLowerBound : Bool) : Prop :=
  ⟨⟨kind, v, bound⟩, isLowerBound⟩ ∈ addedBounds operations ∧ bound ≠ L.selfReference kind v

/-! ## 2. What an interval keeps of the bounds -/

section Accumulation

/-- What an interval tells of the bounds it was made from: the interval of a type variable holds
    them, that of a parameter specification is each of them, and that of a tuple is the greatest. -/
def Accumulates (O : TypeOrder L) (kind : VariableKind) (IsBound : L.Domain kind → Bool → Prop)
    (target : (intervalOf (L := L) kind).T) : Prop :=
  match kind with
  | .typeVar => ∀ bound isLowerBound, IsBound bound isLowerBound →
      TypeVarInterval.Guarantees O target isLowerBound bound
  | .paramSpec => ∃ parameters, target = ParamSpecInterval.singleton parameters ∧
      ∀ bound isLowerBound, IsBound bound isLowerBound → bound = parameters
  | .typeVarTuple => ∃ orderedTypes, target = TypeVarTupleInterval.singletonTuple orderedTypes ∧
      (∃ isLowerBound, IsBound orderedTypes isLowerBound) ∧
      ∀ bound isLowerBound, IsBound bound isLowerBound →
        O.alwaysLessOrEqual (L.tuple bound) (L.tuple orderedTypes) = true

variable {O : TypeOrder L}

/-- The bounds of a variable after one more was added. -/
def AddBound {D : Type} (IsBound : D → Bool → Prop) (bound : D) (isLowerBound : Bool) :
    D → Bool → Prop :=
  fun bound' isLowerBound' => IsBound bound' isLowerBound' ∨
    (bound' = bound ∧ isLowerBound' = isLowerBound)

theorem accumulates_typeVar (hO : O.Lawful) {IsBound : L.Ty → Bool → Prop}
    {existing : Option (TypeVarInterval L)}
    (hnone : existing = none → ∀ bound isLowerBound, ¬ IsBound bound isLowerBound)
    (hsome : ∀ target, existing = some target → Accumulates O .typeVar IsBound target)
    {bound : L.Ty} {isLowerBound : Bool} {target : TypeVarInterval L}
    (h : TypeVarInterval.intersection O (existing.getD (TypeVarInterval.create none none))
      (if isLowerBound then TypeVarInterval.create none (some bound)
        else TypeVarInterval.create (some bound) none) = some target) :
    Accumulates O .typeVar (AddBound IsBound bound isLowerBound) target := by
  cases h
  rintro bound' isLowerBound' (hold | ⟨rfl, rfl⟩)
  · cases existing with
    | none => exact absurd hold (hnone rfl _ _)
    | some old =>
      have hguarantee := hsome old rfl bound' isLowerBound' hold
      cases isLowerBound' with
      | true => exact hO.trans _ _ _ hguarantee (hO.le_join_left _ _)
      | false => exact hO.trans _ _ _ (hO.meet_le_left _ _) hguarantee
  · cases isLowerBound' with
    | true => exact hO.le_join_right _ _
    | false => exact hO.meet_le_right _ _

theorem accumulates_paramSpec {IsBound : L.Parameters → Bool → Prop}
    {existing : Option (ParamSpecInterval L)}
    (hnone : existing = none → ∀ bound isLowerBound, ¬ IsBound bound isLowerBound)
    (hsome : ∀ target, existing = some target → Accumulates O .paramSpec IsBound target)
    {bound : L.Parameters} {isLowerBound : Bool} {target : ParamSpecInterval L}
    (h : ParamSpecInterval.intersection O (existing.getD (ParamSpecInterval.create none none))
      (if isLowerBound then ParamSpecInterval.create none (some bound)
        else ParamSpecInterval.create (some bound) none) = some target)
    {v : L.Variable .paramSpec} {value : L.Parameters}
    (hvalue : ParamSpecInterval.narrowestValidValue O target v = some value) :
    Accumulates O .paramSpec (AddBound IsBound bound isLowerBound) target := by
  have hnew : (if isLowerBound then ParamSpecInterval.create none (some bound)
      else ParamSpecInterval.create (some bound) none : ParamSpecInterval L) = .singleton bound := by
    cases isLowerBound <;> rfl
  rw [hnew] at h
  cases existing with
  | none =>
    cases h
    refine ⟨bound, rfl, ?_⟩
    rintro bound' isLowerBound' (hold | ⟨rfl, -⟩)
    · exact absurd hold (hnone rfl _ _)
    · rfl
  | some old =>
    obtain ⟨parameters, rfl, hall⟩ := hsome old rfl
    rw [Option.getD_some, ParamSpecInterval.intersection] at h
    split at h
    · rename_i heq
      cases h
      refine ⟨parameters, rfl, ?_⟩
      rintro bound' isLowerBound' (hold | ⟨rfl, -⟩)
      · exact hall bound' isLowerBound' hold
      · exact heq.symm
    · cases h
      cases hvalue

theorem accumulates_typeVarTuple (hO : O.Lawful) {IsBound : L.OrderedTypes → Bool → Prop}
    {existing : Option (TypeVarTupleInterval L)}
    (hnone : existing = none → ∀ bound isLowerBound, ¬ IsBound bound isLowerBound)
    (hsome : ∀ target, existing = some target → Accumulates O .typeVarTuple IsBound target)
    {bound : L.OrderedTypes} {isLowerBound : Bool} {target : TypeVarTupleInterval L}
    (h : TypeVarTupleInterval.intersection O
      (existing.getD (TypeVarTupleInterval.create none none))
      (if isLowerBound then TypeVarTupleInterval.create none (some bound)
        else TypeVarTupleInterval.create (some bound) none) = some target) :
    Accumulates O .typeVarTuple (AddBound IsBound bound isLowerBound) target := by
  have hnew : (if isLowerBound then TypeVarTupleInterval.create none (some bound)
      else TypeVarTupleInterval.create (some bound) none : TypeVarTupleInterval L) =
        .singletonTuple bound := by
    cases isLowerBound <;> rfl
  rw [hnew] at h
  cases existing with
  | none =>
    cases h
    refine ⟨bound, rfl, ⟨isLowerBound, Or.inr ⟨rfl, rfl⟩⟩, ?_⟩
    rintro bound' isLowerBound' (hold | ⟨rfl, -⟩)
    · exact absurd hold (hnone rfl _ _)
    · exact hO.refl _
  | some old =>
    obtain ⟨orderedTypes, rfl, ⟨isLowerBound', hbound⟩, hall⟩ := hsome old rfl
    rw [Option.getD_some, TypeVarTupleInterval.intersection] at h
    -- the new tuple replaces the old one when it is greater, else the old one stays
    split at h
    · rename_i hle
      cases h
      refine ⟨bound, rfl, ⟨isLowerBound, Or.inr ⟨rfl, rfl⟩⟩, ?_⟩
      rintro bound' isLowerBound' (hold | ⟨rfl, -⟩)
      · exact hO.trans _ _ _ (hall bound' isLowerBound' hold) hle
      · exact hO.refl _
    · split at h
      · rename_i hle
        cases h
        refine ⟨orderedTypes, rfl, ⟨isLowerBound', Or.inl hbound⟩, ?_⟩
        rintro bound' isLowerBound' (hold | ⟨rfl, -⟩)
        · exact hall bound' isLowerBound' hold
        · exact hle
      · cases h

theorem accumulates_addBound (hO : O.Lawful) {kind : VariableKind}
    {IsBound : L.Domain kind → Bool → Prop} {existing : Option (intervalOf (L := L) kind).T}
    (hnone : existing = none → ∀ bound isLowerBound, ¬ IsBound bound isLowerBound)
    (hsome : ∀ target, existing = some target → Accumulates O kind IsBound target)
    {bound : L.Domain kind} {isLowerBound : Bool} {target : (intervalOf (L := L) kind).T}
    (h : (intervalOf kind).intersection O (existing.getD ((intervalOf kind).create none none))
      (if isLowerBound then (intervalOf kind).create none (some bound)
        else (intervalOf kind).create (some bound) none) = some target)
    {v : L.Variable kind} {value : L.Domain kind}
    (hvalue : (intervalOf kind).narrowestValidValue O target v = some value) :
    Accumulates O kind (AddBound IsBound bound isLowerBound) target := by
  cases kind with
  | typeVar => exact accumulates_typeVar hO hnone hsome h
  | paramSpec => exact accumulates_paramSpec (v := v) hnone hsome h hvalue
  | typeVarTuple => exact accumulates_typeVarTuple hO hnone hsome h

end Accumulation

/-! ## 3. What the constraints keep of a run -/

section Run

variable {O : TypeOrder L}

/-- Adding a bound changes the interval of its variable only, and not at all if the bound is the
    variable itself. -/
theorem addBound_cases {constraints result : OrderedConstraints L} {kind : VariableKind}
    {v : L.Variable kind} {bound : L.Domain kind} {isLowerBound : Bool}
    (h : constraints.addBound O ⟨kind, v, bound⟩ isLowerBound = some result) :
    result.haveFallbacks = constraints.haveFallbacks ∧
      (∀ kind' w, (kind' ≠ kind ∨ ¬ HEq w v) →
        (result.ofKind kind').find? w = (constraints.ofKind kind').find? w) ∧
      (bound = L.selfReference kind v ∧
          (result.ofKind kind).find? v = (constraints.ofKind kind).find? v ∨
        bound ≠ L.selfReference kind v ∧ ∃ target value,
          (result.ofKind kind).find? v = some target ∧
          (intervalOf kind).narrowestValidValue O target v = some value ∧
          (intervalOf kind).intersection O
            (((constraints.ofKind kind).find? v).getD ((intervalOf kind).create none none))
            (if isLowerBound then (intervalOf kind).create none (some bound)
              else (intervalOf kind).create (some bound) none) = some target) := by
  have hcontainer : ∃ container,
      IntervalContainer.addBound (intervalOf kind) (constraints.ofKind kind) O v bound isLowerBound =
        some container ∧ result.ofKind kind = container ∧
      (∀ kind', kind' ≠ kind → result.ofKind kind' = constraints.ofKind kind') ∧
      result.haveFallbacks = constraints.haveFallbacks := by
    cases kind <;>
    · obtain ⟨container, hcontainer, rfl⟩ := Option.map_eq_some_iff.mp h
      refine ⟨container, hcontainer, rfl, fun kind' hne => ?_, rfl⟩
      cases kind' <;> first | rfl | exact absurd rfl hne
  obtain ⟨container, hadd, hkind, hother, hfallbacks⟩ := hcontainer
  unfold IntervalContainer.addBound at hadd
  refine ⟨hfallbacks, ?_, ?_⟩
  · intro kind' w hne
    by_cases hkind' : kind' = kind
    · subst hkind'
      have hwv : w ≠ v := fun e => (hne.resolve_left fun hn => hn rfl) (heq_of_eq e)
      rw [hkind]
      split at hadd
      · cases hadd
        rfl
      · obtain ⟨target, -, hadd⟩ := Option.bind_eq_some_iff.mp hadd
        obtain ⟨value, -, rfl⟩ := Option.map_eq_some_iff.mp hadd
        rw [SortedMap.find?_add, if_neg hwv]
    · rw [hother kind' hkind']
  · split at hadd
    · rename_i hself
      cases hadd
      exact Or.inl ⟨hself, by rw [hkind]⟩
    · rename_i hself
      obtain ⟨target, hintersection, hadd⟩ := Option.bind_eq_some_iff.mp hadd
      obtain ⟨value, hvalue, rfl⟩ := Option.map_eq_some_iff.mp hadd
      refine Or.inr ⟨hself, target, value, ?_, hvalue, hintersection⟩
      rw [hkind, SortedMap.find?_add, if_pos rfl]

/-- What the constraints tell of the operations that they were made by. -/
structure Accumulated (O : TypeOrder L) (operations : List (Operation L))
    (constraints : OrderedConstraints L) : Prop where
  interval : ∀ kind v target, (constraints.ofKind kind).find? v = some target →
    Accumulates O kind (IsBound operations kind v) target
  no_interval : ∀ kind v, (constraints.ofKind kind).find? v = none →
    ∀ bound isLowerBound, ¬ IsBound operations kind v bound isLowerBound
  key : ∀ kind v target, (constraints.ofKind kind).find? v = some target →
    ∃ added ∈ addedBounds operations, (⟨added.pair.kind, added.pair.key⟩ : L.AnyVariable) = ⟨kind, v⟩
  haveFallbacks : ∀ w, w ∈ constraints.haveFallbacks ↔ w ∈ fallbacks operations

theorem isBound_of_ne {operations operations' : List (Operation L)} {added : AddedBound L}
    (hoperations : addedBounds operations' = addedBounds operations ++ [added])
    {kind : VariableKind} {v : L.Variable kind}
    (hne : (⟨added.pair.kind, added.pair.key⟩ : L.AnyVariable) ≠ ⟨kind, v⟩) :
    IsBound operations' kind v = IsBound operations kind v := by
  funext bound isLowerBound
  refine propext (and_congr_left fun _ => ?_)
  rw [hoperations, List.mem_append, List.mem_singleton]
  refine or_iff_left fun h => hne ?_
  rw [← h]

theorem isBound_self {operations operations' : List (Operation L)} {kind : VariableKind}
    {v : L.Variable kind} {bound : L.Domain kind} {isLowerBound : Bool}
    (hoperations : addedBounds operations' =
      addedBounds operations ++ [⟨⟨kind, v, bound⟩, isLowerBound⟩])
    (bound' : L.Domain kind) (isLowerBound' : Bool) :
    IsBound operations' kind v bound' isLowerBound' ↔
      IsBound operations kind v bound' isLowerBound' ∨
        (bound' = bound ∧ isLowerBound' = isLowerBound ∧ bound ≠ L.selfReference kind v) := by
  unfold IsBound
  rw [hoperations, List.mem_append, List.mem_singleton]
  constructor
  · rintro ⟨h | h, hne⟩
    · exact Or.inl ⟨h, hne⟩
    · cases h
      exact Or.inr ⟨rfl, rfl, hne⟩
  · rintro (⟨h, hne⟩ | ⟨rfl, rfl, hne⟩)
    · exact ⟨Or.inl h, hne⟩
    · exact ⟨Or.inr rfl, hne⟩

/-- **One more bound.** -/
theorem Accumulated.addBound (hO : O.Lawful) {operations operations' : List (Operation L)}
    {constraints result : OrderedConstraints L} (h : Accumulated O operations constraints)
    {pair : Pair L} {isLowerBound : Bool}
    (hadd : constraints.addBound O pair isLowerBound = some result)
    (hoperations : addedBounds operations' = addedBounds operations ++ [⟨pair, isLowerBound⟩])
    (hfallbacks : fallbacks operations' = fallbacks operations) :
    Accumulated O operations' result := by
  obtain ⟨kind, v, bound⟩ := pair
  obtain ⟨hhave, hother, hself⟩ := addBound_cases hadd
  have hfind : ∀ {kind'} {w : L.Variable kind'}, (⟨kind, v⟩ : L.AnyVariable) ≠ ⟨kind', w⟩ →
      (result.ofKind kind').find? w = (constraints.ofKind kind').find? w := by
    intro kind' w hne
    refine hother kind' w ?_
    by_contra hboth
    rw [not_or, not_not, not_not] at hboth
    obtain ⟨rfl, hheq⟩ := hboth
    exact hne (by rw [eq_of_heq hheq])
  constructor
  · intro kind' w target htarget
    by_cases hkey : (⟨kind, v⟩ : L.AnyVariable) = ⟨kind', w⟩
    · cases hkey
      rcases hself with ⟨hbound, hsame⟩ | ⟨hbound, target', value, hfind', hvalue, hintersection⟩
      · have hisBound : IsBound operations' kind v = IsBound operations kind v := by
          funext bound' isLowerBound'
          refine propext ((isBound_self hoperations bound' isLowerBound').trans ?_)
          exact or_iff_left fun hnew => hnew.2.2 hbound
        rw [hisBound]
        exact h.interval kind v target (hsame ▸ htarget)
      · have hisBound : IsBound operations' kind v =
            AddBound (IsBound operations kind v) bound isLowerBound := by
          funext bound' isLowerBound'
          refine propext ((isBound_self hoperations bound' isLowerBound').trans ?_)
          exact or_congr_right ⟨fun hnew => ⟨hnew.1, hnew.2.1⟩, fun hnew => ⟨hnew.1, hnew.2, hbound⟩⟩
        rw [hfind', Option.some.injEq] at htarget
        subst htarget
        rw [hisBound]
        exact accumulates_addBound hO (h.no_interval kind v) (h.interval kind v) hintersection hvalue
    · rw [isBound_of_ne hoperations hkey]
      exact h.interval kind' w target (hfind hkey ▸ htarget)
  · intro kind' w hnone bound' isLowerBound' hbound'
    by_cases hkey : (⟨kind, v⟩ : L.AnyVariable) = ⟨kind', w⟩
    · cases hkey
      rcases hself with ⟨hbound, hsame⟩ | ⟨-, target', value, hfind', -⟩
      · rcases (isBound_self hoperations bound' isLowerBound').mp hbound' with hold | hnew
        · exact h.no_interval kind v (hsame ▸ hnone) bound' isLowerBound' hold
        · exact hnew.2.2 hbound
      · rw [hfind'] at hnone
        cases hnone
    · rw [isBound_of_ne hoperations hkey] at hbound'
      exact h.no_interval kind' w (hfind hkey ▸ hnone) bound' isLowerBound' hbound'
  · intro kind' w target htarget
    rw [hoperations]
    by_cases hkey : (⟨kind, v⟩ : L.AnyVariable) = ⟨kind', w⟩
    · exact ⟨_, List.mem_append_right _ (List.mem_singleton_self _), hkey⟩
    · obtain ⟨added, hadded, heq⟩ := h.key kind' w target (hfind hkey ▸ htarget)
      exact ⟨added, List.mem_append_left _ hadded, heq⟩
  · intro w
    rw [hhave, hfallbacks]
    exact h.haveFallbacks w

theorem run_append (O : TypeOrder L) (operations : List (Operation L)) (operation : Operation L) :
    run O (operations ++ [operation]) =
      (run O operations).bind fun constraints => operation.apply O constraints := by
  unfold run
  rw [List.foldlM_append]
  cases operations.foldlM (fun constraints operation => operation.apply O constraints) empty with
  | none => rfl
  | some constraints => exact bind_pure (operation.apply O constraints)

/-- **A run**: the constraints tell of all its operations. -/
theorem run_accumulated (hO : O.Lawful) {operations : List (Operation L)}
    {constraints : OrderedConstraints L} (h : run O operations = some constraints) :
    Accumulated O operations constraints := by
  induction operations using List.reverseRecOn generalizing constraints with
  | nil =>
    cases h
    have hempty : ∀ kind (v : L.Variable kind),
        ((empty : OrderedConstraints L).ofKind kind).find? v = none := by
      intro kind v
      cases kind <;> exact SortedMap.find?_empty v
    constructor
    · intro kind v target htarget
      rw [hempty] at htarget
      cases htarget
    · rintro kind v - bound isLowerBound ⟨hmem, -⟩
      cases hmem
    · intro kind v target htarget
      rw [hempty] at htarget
      cases htarget
    · exact fun w => Iff.rfl
  | append_singleton operations operation ih =>
    rw [run_append] at h
    obtain ⟨before, hbefore, happly⟩ := Option.bind_eq_some_iff.mp h
    have hbounds : addedBounds (operations ++ [operation]) =
        addedBounds operations ++ [operation].filterMap Operation.addedBound :=
      List.filterMap_append
    have hfallbacks : fallbacks (operations ++ [operation]) =
        fallbacks operations ++ [operation].filterMap Operation.fallback :=
      List.filterMap_append
    cases operation with
    | addLowerBound pair =>
      exact (ih hbefore).addBound hO happly hbounds (hfallbacks.trans (List.append_nil _))
    | addUpperBound pair =>
      exact (ih hbefore).addBound hO happly hbounds (hfallbacks.trans (List.append_nil _))
    | addFallbackToAny addition =>
      cases happly
      have hsame : addedBounds (operations ++ [.addFallbackToAny addition]) =
          addedBounds operations := hbounds.trans (List.append_nil _)
      have hisBound : ∀ kind (v : L.Variable kind),
          IsBound (operations ++ [.addFallbackToAny addition]) kind v =
            IsBound operations kind v := by
        intro kind v
        unfold IsBound
        rw [hsame]
      constructor
      · intro kind v target htarget
        rw [hisBound]
        exact (ih hbefore).interval kind v target htarget
      · intro kind v hnone
        rw [hisBound]
        exact (ih hbefore).no_interval kind v hnone
      · rw [hsame]
        exact (ih hbefore).key
      · intro w
        refine (List.mem_insert_iff).trans ?_
        rw [hfallbacks, List.mem_append, (ih hbefore).haveFallbacks w, or_comm]
        exact or_congr_right List.mem_singleton.symm

end Run

/-! ## 4. Solutions of a run -/

section Solve

variable {O : TypeOrder L}

/-- Bounds and fallbacks are added for free variables only. -/
structure OnFreeVariables (operations : List (Operation L)) : Prop where
  bounds : ∀ added ∈ addedBounds operations, L.isFree added.pair.kind added.pair.key = true
  fallbacks : ∀ w ∈ fallbacks operations, L.isFree w.1 w.2 = true

/-- A solution respects every bound that the intervals of the run guarantee. -/
theorem solve_respects (hL : L.Lawful) (hO : O.Lawful) {operations : List (Operation L)}
    {constraints : OrderedConstraints L} (hrun : run O operations = some constraints)
    (hfree : OnFreeVariables operations) {bounds : List (AddedBound L)}
    (hbounds : ∀ added ∈ bounds,
      added.pair.value = L.selfReference added.pair.kind added.pair.key ∨
        ∃ target, (constraints.ofKind added.pair.kind).find? added.pair.key = some target ∧
          Guarantees O added.pair.kind target added.isLowerBound
            (L.toType added.pair.kind added.pair.value))
    {solution : Solution L} (hsolve : constraints.solve O = some solution) :
    (∀ added ∈ bounds, solution.Respects O added) ∧
      ∀ w ∈ fallbacks operations, (solution.find w.1 w.2).isSome := by
  have haccumulated := run_accumulated hO hrun
  refine Elimination.buildSolution_respects hL hO (Elimination.mk ?_ ?_ ?_ ?_ ?_ ?_ ?_) hsolve
  · intro added hmem
    rcases hbounds added hmem with hself | hguarantee
    · refine Or.inl ?_
      unfold Solution.Respects selfType
      rw [hself]
      exact Related.refl hO _ _ _
    · exact Or.inr hguarantee
  · exact fun w hw => Or.inl ((haccumulated.haveFallbacks w).mpr hw)
  · rintro ⟨kind, v⟩ hkey
    rcases containsKey_iff.mp hkey with ⟨target, hfind⟩ | hmem
    · obtain ⟨added, hadded, heq⟩ := haccumulated.key kind v target hfind
      have hadded' := hfree.bounds added hadded
      cases heq
      exact hadded'
    · exact hfree.fallbacks _ ((haccumulated.haveFallbacks _).mp hmem)
  · intro kind v value hvalue
    rw [Solution.find_empty] at hvalue
    cases hvalue
  · exact fun w _ => Solution.find_empty _ _
  · exact fun _ _ _ _ w _ => Solution.find_empty _ _
  · intro kind v value hvalue
    rw [Solution.find_empty] at hvalue
    cases hvalue

/-- What the run tells of a bound, but for an upper bound of a tuple, which must be above the tuple
    that is kept. -/
theorem guarantees_of_isBound {operations : List (Operation L)} {constraints : OrderedConstraints L}
    (h : Accumulated O operations constraints) {kind : VariableKind} {v : L.Variable kind}
    {bound : L.Domain kind} {isLowerBound : Bool}
    (hbound : IsBound operations kind v bound isLowerBound) :
    ∃ target, (constraints.ofKind kind).find? v = some target ∧
      Accumulates O kind (IsBound operations kind v) target := by
  cases hfind : (constraints.ofKind kind).find? v with
  | none => exact absurd hbound (h.no_interval kind v hfind bound isLowerBound)
  | some target => exact ⟨target, rfl, h.interval kind v target hfind⟩

/-- Each upper bound of a type-variable tuple is above every other bound of it. -/
def UpperBoundsAbove (O : TypeOrder L) (operations : List (Operation L)) : Prop :=
  ∀ v upper, IsBound operations .typeVarTuple v upper false →
    ∀ bound isLowerBound, IsBound operations .typeVarTuple v bound isLowerBound →
      O.alwaysLessOrEqual (L.tuple bound) (L.tuple upper) = true

/-- The bounds of type-variable tuples mention no variables. -/
def TupleBoundsClosed (operations : List (Operation L)) : Prop :=
  ∀ v bound isLowerBound, IsBound operations .typeVarTuple v bound isLowerBound →
    ∀ kind, L.collectAll kind (L.tuple bound) = []

/-- The solution respects every bound and gives every fallback a value. -/
def Solves (O : TypeOrder L) (operations : List (Operation L)) (solution : Solution L) : Prop :=
  (∀ added ∈ addedBounds operations, solution.Respects O added) ∧
    ∀ w ∈ fallbacks operations, (solution.find w.1 w.2).isSome

theorem solves_of_upperBoundsAbove (hL : L.Lawful) (hO : O.Lawful) {operations : List (Operation L)}
    {constraints : OrderedConstraints L} (hrun : run O operations = some constraints)
    (hfree : OnFreeVariables operations) (habove : UpperBoundsAbove O operations)
    {solution : Solution L} (hsolve : constraints.solve O = some solution) :
    Solves O operations solution := by
  refine solve_respects hL hO hrun hfree ?_ hsolve
  rintro ⟨⟨kind, v, bound⟩, isLowerBound⟩ hmem
  by_cases hself : bound = L.selfReference kind v
  · exact Or.inl hself
  · have hbound : IsBound operations kind v bound isLowerBound := ⟨hmem, hself⟩
    obtain ⟨target, hfind, haccumulates⟩ := guarantees_of_isBound (run_accumulated hO hrun) hbound
    refine Or.inr ⟨target, hfind, ?_⟩
    cases kind with
    | typeVar => exact haccumulates bound isLowerBound hbound
    | paramSpec =>
      obtain ⟨parameters, rfl, hall⟩ := haccumulates
      exact ⟨parameters, rfl, congrArg L.callable (hall bound isLowerBound hbound)⟩
    | typeVarTuple =>
      obtain ⟨orderedTypes, rfl, ⟨isLowerBound', hkept⟩, hall⟩ := haccumulates
      refine ⟨orderedTypes, rfl, ?_⟩
      cases isLowerBound with
      | true => exact hall bound true hbound
      | false => exact habove v bound hbound orderedTypes isLowerBound' hkept

/-- Every bound of a tuple is below its value, also an upper one: the greatest was kept. -/
theorem tuple_bound_le (hL : L.Lawful) (hO : O.Lawful) {operations : List (Operation L)}
    {constraints : OrderedConstraints L} (hrun : run O operations = some constraints)
    (hfree : OnFreeVariables operations) {solution : Solution L}
    (hsolve : constraints.solve O = some solution) {v : L.Variable .typeVarTuple}
    {bound : L.OrderedTypes} {isLowerBound : Bool}
    (hbound : IsBound operations .typeVarTuple v bound isLowerBound) :
    solution.Respects O ⟨⟨.typeVarTuple, v, bound⟩, true⟩ := by
  have hguarantee : ∀ added ∈ [(⟨⟨.typeVarTuple, v, bound⟩, true⟩ : AddedBound L)],
      added.pair.value = L.selfReference added.pair.kind added.pair.key ∨
        ∃ target, (constraints.ofKind added.pair.kind).find? added.pair.key = some target ∧
          Guarantees O added.pair.kind target added.isLowerBound
            (L.toType added.pair.kind added.pair.value) := by
    intro added hadded
    rw [List.mem_singleton] at hadded
    subst hadded
    obtain ⟨target, hfind, haccumulates⟩ := guarantees_of_isBound (run_accumulated hO hrun) hbound
    obtain ⟨orderedTypes, rfl, -, hall⟩ := haccumulates
    exact Or.inr ⟨_, hfind, orderedTypes, rfl, hall bound isLowerBound hbound⟩
  exact (solve_respects hL hO hrun hfree hguarantee hsolve).1 _ (List.mem_singleton_self _)

/-- Where the bounds of tuples are closed, only such runs have a solution that respects them. -/
theorem upperBoundsAbove_of_solves (hL : L.Lawful) (hO : O.Lawful)
    {operations : List (Operation L)} {constraints : OrderedConstraints L}
    (hrun : run O operations = some constraints) (hfree : OnFreeVariables operations)
    {solution : Solution L} (hsolve : constraints.solve O = some solution)
    (hclosed : TupleBoundsClosed operations) (hsolves : Solves O operations solution) :
    UpperBoundsAbove O operations := by
  intro v upper hupper bound isLowerBound hbound
  have hinstantiate : ∀ {bound isLowerBound},
      IsBound operations .typeVarTuple v bound isLowerBound →
        solution.instantiate (L.tuple bound) = L.tuple bound := by
    intro bound isLowerBound h
    rw [solution.instantiate_eq hL]
    refine substitute_of_not_mem hL fun kind u hu => ?_
    rw [hclosed v bound isLowerBound h kind] at hu
    cases hu
  have hle : O.alwaysLessOrEqual (solution.instantiate (L.tuple bound))
      (solution.instantiate (L.selfType .typeVarTuple v)) = true :=
    tuple_bound_le hL hO hrun hfree hsolve hbound
  have hge : O.alwaysLessOrEqual (solution.instantiate (L.selfType .typeVarTuple v))
      (solution.instantiate (L.tuple upper)) = true := hsolves.1 _ hupper.1
  rw [hinstantiate hbound] at hle
  rw [hinstantiate hupper] at hge
  exact hO.trans _ _ _ hle hge

end Solve

/-! ## 5. A small language -/

namespace Sample

/-- A variable, or elements without variables. -/
abbrev Value : Type := ℕ ⊕ List ℕ

/-- The types over values of each kind: a type, a callable with parameters, a tuple. -/
inductive Ty where
  | top
  | bottom
  | any
  | value (kind : VariableKind) (value : Value)
  | list (element : Ty)
  deriving DecidableEq

abbrev Domain : VariableKind → Type := DomainOf Ty Value Value

def toType : (kind : VariableKind) → Domain kind → Ty
  | .typeVar, ty => ty
  | .paramSpec, parameters => .value .paramSpec parameters
  | .typeVarTuple, orderedTypes => .value .typeVarTuple orderedTypes

def collectAll (kind : VariableKind) : Ty → List ℕ
  | .list element => collectAll kind element
  | .value kind' (.inl v) => if kind' = kind then [v] else []
  | _ => []

def replaceAll (kind : VariableKind) (σ : ℕ → Option (Domain kind)) : Ty → Ty
  | .list element => .list (replaceAll kind σ element)
  | .value kind' (.inl v) =>
    if kind' = kind then ((σ v).map (toType kind)).getD (.value kind' (.inl v))
    else .value kind' (.inl v)
  | ty => ty

def language : TypeLanguage where
  Ty := Ty
  Parameters := Value
  OrderedTypes := Value
  Variable := fun _ => ℕ
  top := .top
  bottom := .bottom
  any := .any
  ofVariable := fun v => .value .typeVar (.inl v)
  asVariable := fun ty =>
    match ty with
    | .value .typeVar (.inl v) => some v
    | _ => none
  isIntegerLiteral := fun _ => false
  asUnion := fun _ => none
  callable := .value .paramSpec
  asCallable := fun ty =>
    match ty with
    | .value .paramSpec parameters => some parameters
    | _ => none
  tuple := .value .typeVarTuple
  asTuple := fun ty =>
    match ty with
    | .value .typeVarTuple orderedTypes => some orderedTypes
    | _ => none
  undefined := .inr []
  fromParamSpec := .inl
  unboundedAny := .inr []
  soleVariadic := .inl
  isFree := fun _ _ => true
  constraints := fun _ => .unconstrained
  collectAll := collectAll
  replaceAll := replaceAll

theorem toType_eq (kind : VariableKind) (value : Domain kind) :
    language.toType kind value = toType kind value := by
  cases kind <;> rfl

theorem selfType_eq (kind : VariableKind) (v : language.Variable kind) :
    language.selfType kind v = Ty.value kind (.inl v) := by
  cases kind <;> rfl

section Laws

variable {kind kind' : VariableKind} {σ τ : ℕ → Option (Domain kind)}

theorem replaceAll_variable (kind : VariableKind) (σ : ℕ → Option (Domain kind)) (v : ℕ) :
    replaceAll kind σ (.value kind (.inl v)) =
      ((σ v).map (toType kind)).getD (.value kind (.inl v)) := by
  rw [replaceAll, if_pos rfl]

theorem replaceAll_variable_of_ne (hne : kind' ≠ kind) (σ : ℕ → Option (Domain kind)) (v : ℕ) :
    replaceAll kind σ (.value kind' (.inl v)) = .value kind' (.inl v) := by
  rw [replaceAll, if_neg hne]

theorem collectAll_variable (kind : VariableKind) (v : ℕ) :
    collectAll kind (.value kind (.inl v)) = [v] := by
  rw [collectAll, if_pos rfl]

theorem collectAll_variable_of_ne (hne : kind' ≠ kind) (v : ℕ) :
    collectAll kind (.value kind' (.inl v)) = [] := by
  rw [collectAll, if_neg hne]

theorem replaceAll_congr (ty : Ty) (h : ∀ v ∈ collectAll kind ty, σ v = τ v) :
    replaceAll kind σ ty = replaceAll kind τ ty := by
  induction ty with
  | list element ih => exact congrArg Ty.list (ih h)
  | value kind' value =>
    cases value with
    | inr elements => rfl
    | inl v =>
      by_cases hkind : kind' = kind
      · subst hkind
        rw [collectAll_variable] at h
        rw [replaceAll_variable, replaceAll_variable, h v (List.mem_singleton_self v)]
      · rw [replaceAll_variable_of_ne hkind, replaceAll_variable_of_ne hkind]
  | _ => rfl

theorem replaceAll_none (kind : VariableKind) (ty : Ty) :
    replaceAll kind (fun _ => none) ty = ty := by
  induction ty with
  | list element ih => exact congrArg Ty.list ih
  | value kind' value =>
    cases value with
    | inr elements => rfl
    | inl v => rw [replaceAll, Option.map_none, Option.getD_none, ite_self]
  | _ => rfl

theorem replaceAll_of_not_mem {ty : Ty} (h : ∀ v ∈ collectAll kind ty, σ v = none) :
    replaceAll kind σ ty = ty :=
  (replaceAll_congr ty h).trans (replaceAll_none kind ty)

theorem replaceAll_replaceAll (ty : Ty)
    (h : ∀ v value, σ v = some value → ∀ u ∈ collectAll kind (toType kind value), τ u = none) :
    replaceAll kind τ (replaceAll kind σ ty) =
      replaceAll kind (fun v => (σ v).or (τ v)) ty := by
  induction ty with
  | list element ih => exact congrArg Ty.list ih
  | value kind' value =>
    cases value with
    | inr elements => rfl
    | inl v =>
      by_cases hkind : kind' = kind
      · subst hkind
        rw [replaceAll_variable, replaceAll_variable]
        cases hv : σ v with
        | none => rw [Option.map_none, Option.getD_none, replaceAll_variable, Option.none_or]
        | some value =>
          rw [Option.map_some, Option.getD_some, Option.some_or, Option.map_some,
            Option.getD_some]
          exact replaceAll_of_not_mem (h v value hv)
      · rw [replaceAll_variable_of_ne hkind, replaceAll_variable_of_ne hkind,
          replaceAll_variable_of_ne hkind]
  | _ => rfl

theorem replaceAll_comm (hne : kind ≠ kind') {τ : ℕ → Option (Domain kind')} (ty : Ty)
    (hσ : ∀ v value, σ v = some value → ∀ u ∈ collectAll kind' (toType kind value), τ u = none)
    (hτ : ∀ v value, τ v = some value → ∀ u ∈ collectAll kind (toType kind' value), σ u = none) :
    replaceAll kind' τ (replaceAll kind σ ty) =
      replaceAll kind σ (replaceAll kind' τ ty) := by
  induction ty with
  | list element ih => exact congrArg Ty.list ih
  | value kind'' value =>
    cases value with
    | inr elements => rfl
    | inl v =>
      by_cases hkind : kind'' = kind
      · subst hkind
        rw [replaceAll_variable_of_ne hne, replaceAll_variable]
        cases hv : σ v with
        | none => exact replaceAll_variable_of_ne hne τ v
        | some value => exact replaceAll_of_not_mem (hσ v value hv)
      · rw [replaceAll_variable_of_ne hkind]
        by_cases hkind' : kind'' = kind'
        · subst hkind'
          rw [replaceAll_variable]
          cases hv : τ v with
          | none => exact (replaceAll_variable_of_ne hkind σ v).symm
          | some value => exact (replaceAll_of_not_mem (hτ v value hv)).symm
        · rw [replaceAll_variable_of_ne hkind', replaceAll_variable_of_ne hkind]
  | _ => rfl

theorem collectAll_replaceAll {ty : Ty} {u : ℕ}
    (h : u ∈ collectAll kind' (replaceAll kind σ ty)) :
    u ∈ collectAll kind' ty ∨
      ∃ v value, σ v = some value ∧ u ∈ collectAll kind' (toType kind value) := by
  induction ty with
  | list element ih => exact ih h
  | value kind'' value =>
    cases value with
    | inr elements => exact Or.inl h
    | inl v =>
      by_cases hkind : kind'' = kind
      · subst hkind
        rw [replaceAll_variable] at h
        cases hv : σ v with
        | none =>
          rw [hv] at h
          exact Or.inl h
        | some value =>
          rw [hv] at h
          exact Or.inr ⟨v, value, hv, h⟩
      · rw [replaceAll_variable_of_ne hkind] at h
        exact Or.inl h
  | _ => exact Or.inl h

theorem collectAll_replaceAll_self {ty : Ty} {u : ℕ}
    (h : u ∈ collectAll kind (replaceAll kind σ ty)) :
    σ u = none ∨ ∃ v value, σ v = some value ∧ u ∈ collectAll kind (toType kind value) := by
  induction ty with
  | list element ih => exact ih h
  | value kind' value =>
    cases value with
    | inr elements => cases h
    | inl v =>
      by_cases hkind : kind' = kind
      · subst hkind
        rw [replaceAll_variable] at h
        cases hv : σ v with
        | none =>
          rw [hv, Option.map_none, Option.getD_none, collectAll_variable,
            List.mem_singleton] at h
          exact Or.inl (h ▸ hv)
        | some value =>
          rw [hv] at h
          exact Or.inr ⟨v, value, hv, h⟩
      · rw [replaceAll_variable_of_ne hkind, collectAll_variable_of_ne hkind] at h
        cases h
  | _ => cases h

end Laws

theorem replaceAll_value (kind : VariableKind) (σ : ℕ → Option (Domain kind))
    {kind' : VariableKind} (hkind' : kind' ≠ .typeVar) (value : Value) :
    ∃ value', replaceAll kind σ (.value kind' value) = .value kind' value' := by
  cases value with
  | inr elements => exact ⟨_, rfl⟩
  | inl v =>
    by_cases hkind : kind' = kind
    · subst hkind
      rw [replaceAll_variable]
      cases σ v with
      | none => exact ⟨_, rfl⟩
      | some value =>
        cases kind' with
        | typeVar => exact absurd rfl hkind'
        | paramSpec => exact ⟨value, rfl⟩
        | typeVarTuple => exact ⟨value, rfl⟩
    · exact ⟨_, replaceAll_variable_of_ne hkind σ v⟩

theorem language_lawful : language.Lawful where
  asCallable_callable := fun _ => rfl
  asTuple_tuple := fun _ => rfl
  replaceAll_congr := fun _ _ _ ty h => replaceAll_congr ty h
  replaceAll_none := replaceAll_none
  replaceAll_replaceAll := fun kind _ _ ty h =>
    replaceAll_replaceAll ty fun v value hv => toType_eq kind value ▸ h v value hv
  replaceAll_comm := fun kind kind' _ _ ty hne hσ hτ =>
    replaceAll_comm hne ty (fun v value hv => toType_eq kind value ▸ hσ v value hv)
      (fun v value hv => toType_eq kind' value ▸ hτ v value hv)
  collectAll_replaceAll := by
    intro kind kind' σ ty u hu
    refine (collectAll_replaceAll hu).imp_right ?_
    rintro ⟨v, value, hv, hmem⟩
    exact ⟨v, value, hv, by rw [toType_eq]; exact hmem⟩
  collectAll_replaceAll_self := by
    intro kind σ ty u hu
    refine (collectAll_replaceAll_self hu).imp_right ?_
    rintro ⟨v, value, hv, hmem⟩
    exact ⟨v, value, hv, by rw [toType_eq]; exact hmem⟩
  replaceAll_callable := fun kind σ parameters => replaceAll_value kind σ (by decide) parameters
  replaceAll_tuple := fun kind σ orderedTypes => replaceAll_value kind σ (by decide) orderedTypes
  replaceAll_selfType := by
    intro kind σ v value hv
    rw [selfType_eq]
    refine (replaceAll_variable kind σ v).trans ?_
    rw [show σ v = some value from hv]
    exact (toType_eq kind value).symm
  collectAll_selfType := by
    intro kind v
    rw [selfType_eq]
    exact collectAll_variable kind v
  collectAll_selfType_of_ne := by
    intro kind kind' v hne
    rw [selfType_eq]
    exact collectAll_variable_of_ne hne v
  collectAll_any := by
    intro kind kind'
    cases kind <;> rfl
  collectAll_top := fun _ => rfl
  collectAll_bottom := fun _ => rfl
  collectAll_bound := by
    intro v ty h
    cases h
  collectAll_explicit := by
    intro v types h
    cases h

/-- The tuple of a class and that of its base. -/
def child : Ty := .value .typeVarTuple (.inr [0])

def base : Ty := .value .typeVarTuple (.inr [1])

/-- Two types are unrelated but for `Bottom`, `Top` and the two tuples. -/
def lessOrEqual (left right : Ty) : Bool :=
  decide (left = .bottom ∨ right = .top ∨ left = right ∨ (left = child ∧ right = base))

theorem lessOrEqual_iff {left right : Ty} : lessOrEqual left right = true ↔
    left = .bottom ∨ right = .top ∨ left = right ∨ (left = child ∧ right = base) :=
  decide_eq_true_iff

def meet (left right : Ty) : Ty :=
  if lessOrEqual left right then left else if lessOrEqual right left then right else .bottom

def join (left right : Ty) : Ty :=
  if lessOrEqual left right then right else if lessOrEqual right left then left else .top

theorem lessOrEqual_trans {a b c : Ty} (hab : lessOrEqual a b = true) (hbc : lessOrEqual b c = true) :
    lessOrEqual a c = true := by
  rw [lessOrEqual_iff] at hab hbc ⊢
  rcases hab with rfl | rfl | rfl | ⟨rfl, rfl⟩
  · exact Or.inl rfl
  · rcases hbc with h | h | h | ⟨h, -⟩
    · cases h
    · exact Or.inr (Or.inl h)
    · exact Or.inr (Or.inl h.symm)
    · cases h
  · exact hbc
  · rcases hbc with h | h | h | ⟨h, -⟩
    · cases h
    · exact Or.inr (Or.inl h)
    · exact Or.inr (Or.inr (Or.inr ⟨rfl, h.symm⟩))
    · cases h

/-- Types below two unrelated ones are `Bottom`, those above them are `Top`. -/
theorem comparable_of_le {a b c : Ty} (hac : lessOrEqual a c = true) (hbc : lessOrEqual b c = true) :
    c = .top ∨ lessOrEqual a b = true ∨ lessOrEqual b a = true := by
  rw [lessOrEqual_iff] at hac hbc
  rcases hac with rfl | rfl | rfl | ⟨rfl, rfl⟩
  · exact Or.inr (Or.inl rfl)
  · exact Or.inl rfl
  · exact Or.inr (Or.inr (lessOrEqual_iff.mpr hbc))
  · rcases hbc with rfl | h | rfl | ⟨rfl, -⟩
    · exact Or.inr (Or.inr rfl)
    · cases h
    · exact Or.inr (Or.inl rfl)
    · exact Or.inr (Or.inl rfl)

theorem comparable_of_ge {a b c : Ty} (hca : lessOrEqual c a = true) (hcb : lessOrEqual c b = true) :
    c = .bottom ∨ lessOrEqual a b = true ∨ lessOrEqual b a = true := by
  rw [lessOrEqual_iff] at hca hcb
  rcases hca with rfl | rfl | rfl | ⟨rfl, rfl⟩
  · exact Or.inl rfl
  · exact Or.inr (Or.inr (lessOrEqual_iff.mpr (Or.inr (Or.inl rfl))))
  · exact Or.inr (Or.inl (lessOrEqual_iff.mpr hcb))
  · rcases hcb with h | rfl | rfl | ⟨-, rfl⟩
    · cases h
    · exact Or.inr (Or.inl rfl)
    · exact Or.inr (Or.inr rfl)
    · exact Or.inr (Or.inl rfl)

theorem lessOrEqual_refl (a : Ty) : lessOrEqual a a = true :=
  lessOrEqual_iff.mpr (Or.inr (Or.inr (Or.inl rfl)))

theorem lessOrEqual_top (a : Ty) : lessOrEqual a .top = true :=
  lessOrEqual_iff.mpr (Or.inr (Or.inl rfl))

theorem bottom_lessOrEqual (a : Ty) : lessOrEqual .bottom a = true :=
  lessOrEqual_iff.mpr (Or.inl rfl)

theorem le_join_left (a b : Ty) : lessOrEqual a (join a b) = true := by
  unfold join
  split
  · assumption
  · split
    · exact lessOrEqual_refl a
    · exact lessOrEqual_top a

theorem le_join_right (a b : Ty) : lessOrEqual b (join a b) = true := by
  unfold join
  split
  · exact lessOrEqual_refl b
  · split
    · assumption
    · exact lessOrEqual_top b

theorem join_le {a b c : Ty} (hac : lessOrEqual a c = true) (hbc : lessOrEqual b c = true) :
    lessOrEqual (join a b) c = true := by
  unfold join
  split
  · exact hbc
  · rename_i hab
    split
    · exact hac
    · rename_i hba
      rcases comparable_of_le hac hbc with rfl | h | h
      · rfl
      · exact absurd h hab
      · exact absurd h hba

theorem meet_le_left (a b : Ty) : lessOrEqual (meet a b) a = true := by
  unfold meet
  split
  · exact lessOrEqual_refl a
  · split
    · assumption
    · exact bottom_lessOrEqual a

theorem meet_le_right (a b : Ty) : lessOrEqual (meet a b) b = true := by
  unfold meet
  split
  · assumption
  · split
    · exact lessOrEqual_refl b
    · exact bottom_lessOrEqual b

theorem le_meet {a b c : Ty} (hca : lessOrEqual c a = true) (hcb : lessOrEqual c b = true) :
    lessOrEqual c (meet a b) = true := by
  unfold meet
  split
  · exact hca
  · rename_i hab
    split
    · exact hcb
    · rename_i hba
      rcases comparable_of_ge hca hcb with rfl | h | h
      · rfl
      · exact absurd h hab
      · exact absurd h hba

theorem collectAll_join {kind : VariableKind} {a b : Ty} {u : ℕ} (hu : u ∈ collectAll kind (join a b)) :
    u ∈ collectAll kind a ∨ u ∈ collectAll kind b := by
  unfold join at hu
  split at hu
  · exact Or.inr hu
  · split at hu
    · exact Or.inl hu
    · cases hu

theorem collectAll_meet {kind : VariableKind} {a b : Ty} {u : ℕ} (hu : u ∈ collectAll kind (meet a b)) :
    u ∈ collectAll kind a ∨ u ∈ collectAll kind b := by
  unfold meet at hu
  split at hu
  · exact Or.inl hu
  · split at hu
    · exact Or.inr hu
    · cases hu

def order : TypeOrder language where
  alwaysLessOrEqual := lessOrEqual
  meet := meet
  join := join

theorem order_lawful : order.Lawful where
  refl := lessOrEqual_refl
  trans := fun _ _ _ => lessOrEqual_trans
  replaceAll := by
    intro kind σ a b h
    refine lessOrEqual_iff.mpr ?_
    rcases lessOrEqual_iff.mp h with rfl | rfl | rfl | ⟨rfl, rfl⟩
    · exact Or.inl rfl
    · exact Or.inr (Or.inl rfl)
    · exact Or.inr (Or.inr (Or.inl rfl))
    · exact Or.inr (Or.inr (Or.inr ⟨rfl, rfl⟩))
  bottom_le := bottom_lessOrEqual
  le_top := lessOrEqual_top
  le_join_left := le_join_left
  le_join_right := le_join_right
  join_le := fun _ _ _ => join_le
  meet_le_left := meet_le_left
  meet_le_right := meet_le_right
  le_meet := fun _ _ _ => le_meet
  collectAll_join := fun _ _ _ _ => collectAll_join
  collectAll_meet := fun _ _ _ _ => collectAll_meet

/-- A child as an upper bound of a tuple, then its base as a lower one: both succeed. -/
def childThenBase : List (Operation language) :=
  [.addUpperBound ⟨.typeVarTuple, (0 : ℕ), (.inr [0] : Value)⟩,
    .addLowerBound ⟨.typeVarTuple, (0 : ℕ), (.inr [1] : Value)⟩]

/-- Bounds of all three kinds, one of them on a variable that is solved first. -/
def threeKinds : List (Operation language) :=
  [.addLowerBound ⟨.typeVar, (0 : ℕ), Ty.list (.value .typeVar (.inl 1))⟩,
    .addLowerBound ⟨.typeVar, (1 : ℕ), Ty.value .typeVar (.inr [5])⟩,
    .addUpperBound ⟨.paramSpec, (2 : ℕ), (.inr [6] : Value)⟩,
    .addLowerBound ⟨.typeVarTuple, (3 : ℕ), (.inr [0] : Value)⟩,
    .addUpperBound ⟨.typeVarTuple, (3 : ℕ), (.inr [1] : Value)⟩,
    .addFallbackToAny ⟨.typeVar, (4 : ℕ)⟩]

theorem solve_childThenBase : ∃ constraints solution,
    run order childThenBase = some constraints ∧ constraints.solve order = some solution := by
  refine ⟨_, ⟨.empty, .empty, .singleton (0 : ℕ) (.inr [1] : Value)⟩, rfl, ?_⟩
  rw [solve, buildSolution]
  rfl

/-- The solution of `threeKinds`, in the order in which its values are found. -/
def threeKindsSolution : Solution language :=
  (((((Solution.empty : Solution language).set .typeVar (1 : ℕ) (Ty.value .typeVar (.inr [5]))).set
    .paramSpec (2 : ℕ) (.inr [6] : Value)).set
    .typeVarTuple (3 : ℕ) (.inr [1] : Value)).set
    .typeVar (4 : ℕ) Ty.any).set
    .typeVar (0 : ℕ) (Ty.list (.value .typeVar (.inr [5])))

theorem solve_threeKinds : ∃ constraints,
    run order threeKinds = some constraints ∧ constraints.solve order = some threeKindsSolution := by
  refine ⟨_, rfl, ?_⟩
  -- the second round is for the variable with the bound that mentions another one
  rw [solve, buildSolution]
  refine (?_ : buildSolution order _ _ = _)
  rw [buildSolution]
  rfl

end Sample

/-! ## 6. Soundness -/

/-- **Solving is sound** when each upper bound of a tuple is above its other bounds, and for closed
    bounds of tuples only then. -/
theorem solve_sound {O : TypeOrder L} (hL : L.Lawful) (hO : O.Lawful) {operations : List (Operation L)}
    {constraints : OrderedConstraints L} (hrun : run O operations = some constraints)
    (hfree : OnFreeVariables operations) {solution : Solution L}
    (hsolve : constraints.solve O = some solution) :
    (UpperBoundsAbove O operations → Solves O operations solution) ∧
      (TupleBoundsClosed operations → Solves O operations solution →
        UpperBoundsAbove O operations) :=
  ⟨fun habove => solves_of_upperBoundsAbove hL hO hrun hfree habove hsolve,
    fun hclosed hsolves => upperBoundsAbove_of_solves hL hO hrun hfree hsolve hclosed hsolves⟩

namespace Sample

/-- A solution for bounds of all three kinds. -/
theorem solve_sound_threeKinds : ∃ constraints, run order threeKinds = some constraints ∧
    constraints.solve order = some threeKindsSolution ∧
    Solves order threeKinds threeKindsSolution := by
  obtain ⟨constraints, hrun, hsolve⟩ := solve_threeKinds
  refine ⟨constraints, hrun, hsolve,
    (solve_sound language_lawful order_lawful hrun ⟨fun _ _ => rfl, fun _ _ => rfl⟩ hsolve).1 ?_⟩
  rintro v upper ⟨hupper, -⟩ bound isLowerBound ⟨hbound, -⟩
  simp only [addedBounds, threeKinds, Operation.addedBound, List.filterMap, List.mem_cons,
    AddedBound.mk.injEq, List.not_mem_nil, or_false] at hupper hbound
  rcases hupper with ⟨h, hside⟩ | ⟨h, hside⟩ | ⟨h, hside⟩ | ⟨h, hside⟩ | ⟨h, hside⟩ <;>
    cases h <;> cases hside
  rcases hbound with ⟨h, -⟩ | ⟨h, -⟩ | ⟨h, -⟩ | ⟨h, -⟩ | ⟨h, -⟩ <;> cases h <;> rfl

/-- **An upper bound of a tuple is lost**: the base is the solution, above the child. -/
theorem solve_childThenBase_not_below : language.Lawful ∧ order.Lawful ∧
    OnFreeVariables childThenBase ∧ ∃ constraints solution,
      run order childThenBase = some constraints ∧ constraints.solve order = some solution ∧
      ¬ Solves order childThenBase solution := by
  obtain ⟨constraints, solution, hrun, hsolve⟩ := solve_childThenBase
  have hfree : OnFreeVariables childThenBase := ⟨fun _ _ => rfl, fun _ _ => rfl⟩
  refine ⟨language_lawful, order_lawful, hfree, constraints, solution, hrun, hsolve, fun hsolves => ?_⟩
  have hclosed : TupleBoundsClosed childThenBase := by
    rintro v bound isLowerBound ⟨hbound, -⟩ kind
    simp only [addedBounds, childThenBase, Operation.addedBound, List.filterMap, List.mem_cons,
      AddedBound.mk.injEq, List.not_mem_nil, or_false] at hbound
    rcases hbound with ⟨h, -⟩ | ⟨h, -⟩ <;> cases h <;> rfl
  have habove := upperBoundsAbove_of_solves language_lawful order_lawful hrun hfree hsolve hclosed
    hsolves
  have hle := habove (0 : ℕ) (.inr [0] : Value) ⟨List.Mem.head _, Sum.inr_ne_inl⟩ (.inr [1] : Value) true
    ⟨List.Mem.tail _ (List.Mem.head _), Sum.inr_ne_inl⟩
  exact absurd hle (by decide)

end Sample

end TypeConstraints
end Pysa
