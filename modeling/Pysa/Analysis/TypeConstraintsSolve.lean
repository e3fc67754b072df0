/-
  Subject: ELIMINATION RESPECTS EVERY BOUND that the intervals guarantee.

  * `Elimination` -- the invariant of a round: every bound is respected by the solution so far or
    guaranteed by an interval that remains, and no value mentions a variable that is solved or
    remains;
  * `Elimination.round` -- a round keeps it; `buildSolution_respects` -- the result respects every
    bound and gives every fallback a value.
-/
import Pysa.Analysis.TypeConstraintsIntervals

namespace Pysa
namespace TypeConstraints

open TypeLanguage

variable {L : TypeLanguage}

/-! ## 1. The operations of a round -/

namespace IntervalContainer

variable {kind : VariableKind} {I : Interval L kind} {order : TypeOrder L}

theorem addSolution_step {partialSolution : Option (Solution L)} {result : Solution L}
    {v : L.Variable kind} {target : I.T}
    (h : (partialSolution.bind fun partialSolution =>
      (I.narrowestValidValue order target v).map fun value =>
        partialSolution.set kind v value) = some result) :
    ∃ before value, partialSolution = some before ∧
      I.narrowestValidValue order target v = some value ∧ result = before.set kind v value := by
  obtain ⟨before, hbefore, h⟩ := Option.bind_eq_some_iff.mp h
  obtain ⟨value, hvalue, rfl⟩ := Option.map_eq_some_iff.mp h
  exact ⟨before, value, hbefore, hvalue, rfl⟩

/-- Each interval of the container gives its variable its narrowest value. -/
theorem find_addSolution {container : IntervalContainer I} {solution result : Solution L}
    (h : addSolution I container order solution = some result) {v : L.Variable kind} {target : I.T}
    (hv : container.find? v = some target) :
    ∃ value, I.narrowestValidValue order target v = some value ∧
      result.find kind v = some value := by
  unfold addSolution at h
  refine SortedMap.fold_once (fun _ => True)
    (fun acc => ∀ result, acc = some result → ∃ value,
      I.narrowestValidValue order target v = some value ∧ result.find kind v = some value)
    hv trivial (fun _ _ _ _ _ _ => trivial) ?_ ?_ result h
  · intro acc _ result hresult
    obtain ⟨before, value, -, hvalue, rfl⟩ := addSolution_step hresult
    exact ⟨value, hvalue, by rw [Solution.find_set, if_pos rfl]⟩
  · intro w target' acc hne _ hacc result hresult
    obtain ⟨before, value, hbefore, -, rfl⟩ := addSolution_step hresult
    obtain ⟨value', hvalue', hfind⟩ := hacc before hbefore
    exact ⟨value', hvalue', by rw [Solution.find_set, if_neg (Ne.symm hne), hfind]⟩

theorem find_addSolution_of_none {container : IntervalContainer I} {solution result : Solution L}
    (h : addSolution I container order solution = some result) {v : L.Variable kind}
    (hv : container.find? v = none) : result.find kind v = solution.find kind v := by
  unfold addSolution at h
  refine SortedMap.fold_induction
    (fun acc => ∀ result, acc = some result → result.find kind v = solution.find kind v)
    ?_ ?_ result h
  · intro result hresult
    cases hresult
    rfl
  · intro w target acc hw hacc result hresult
    obtain ⟨before, value, hbefore, -, rfl⟩ := addSolution_step hresult
    have hne : v ≠ w := by
      rintro rfl
      rw [hv] at hw
      cases hw
    rw [Solution.find_set, if_neg hne, hacc before hbefore]

theorem find_addSolution_of_ne {container : IntervalContainer I} {solution result : Solution L}
    (h : addSolution I container order solution = some result) {kind' : VariableKind}
    (hne : kind' ≠ kind) (v : L.Variable kind') :
    result.find kind' v = solution.find kind' v := by
  unfold addSolution at h
  refine SortedMap.fold_induction
    (fun acc => ∀ result, acc = some result → result.find kind' v = solution.find kind' v)
    ?_ ?_ result h
  · intro result hresult
    cases hresult
    rfl
  · intro w target acc hw hacc result hresult
    obtain ⟨before, value, hbefore, -, rfl⟩ := addSolution_step hresult
    rw [Solution.find_set_of_ne _ hne, hacc before hbefore]

theorem find?_mergeSolution (container : IntervalContainer I) (solution : Solution L)
    (v : L.Variable kind) :
    (mergeSolution I container solution).find? v = (container.find? v).bind fun target =>
      if I.isTrivial (I.mergeSolutionIn target v solution) v then none
      else some (I.mergeSolutionIn target v solution) :=
  SortedMap.find?_filterMapi _ _ _

end IntervalContainer

namespace OrderedConstraints

variable {order : TypeOrder L}

theorem find_addFallback (solution : Solution L) (w : L.AnyVariable) (kind : VariableKind)
    (v : L.Variable kind) :
    (addFallback solution w).find kind v = (solution.find kind v).or
      (if (⟨kind, v⟩ : L.AnyVariable) = w then some (L.anyOf kind) else none) := by
  obtain ⟨kind', w⟩ := w
  unfold addFallback
  by_cases hkind : kind = kind'
  · subst hkind
    by_cases hv : v = w
    · subst hv
      rw [if_pos rfl]
      cases hfind : solution.find kind v with
      | some value => simp only [hfind, Option.some_or]
      | none => simp only [Option.none_or, Solution.find_set, if_true]
    · have hne : (⟨kind, v⟩ : L.AnyVariable) ≠ ⟨kind, w⟩ := fun h => hv (eq_of_heq (Sigma.mk.inj h).2)
      rw [if_neg hne, Option.or_none]
      cases solution.find kind w with
      | some value => rfl
      | none => exact (solution.find_set kind w v _).trans (if_neg hv)
  · have hne : (⟨kind, v⟩ : L.AnyVariable) ≠ ⟨kind', w⟩ := fun h => hkind (Sigma.mk.inj h).1
    rw [if_neg hne, Option.or_none]
    cases solution.find kind' w with
    | some value => rfl
    | none => exact solution.find_set_of_ne hkind w _ v

theorem find_applyFallbacks (solution : Solution L) (haveFallbacks : List L.AnyVariable)
    (kind : VariableKind) (v : L.Variable kind) :
    (applyFallbacks solution haveFallbacks).find kind v = (solution.find kind v).or
      (if (⟨kind, v⟩ : L.AnyVariable) ∈ haveFallbacks then some (L.anyOf kind) else none) := by
  unfold applyFallbacks
  induction haveFallbacks generalizing solution with
  | nil => rw [List.foldl_nil, if_neg List.not_mem_nil, Option.or_none]
  | cons w rest ih =>
    rw [List.foldl_cons, ih, find_addFallback, Option.or_assoc]
    congr 1
    by_cases hw : (⟨kind, v⟩ : L.AnyVariable) = w
    · rw [if_pos hw, if_pos (List.mem_cons.mpr (Or.inl hw)), Option.some_or]
    · rw [if_neg hw, Option.none_or]
      refine if_congr ?_ rfl rfl
      rw [List.mem_cons, or_iff_right hw]

/-- The variables that a round gives a value to: those of the independent intervals, and those of
    the independent fallbacks that have none yet. -/
theorem addIndependent_find {independent : OrderedConstraints L} {solution result : Solution L}
    (h : independent.addIndependent order solution = some result) (kind : VariableKind)
    (v : L.Variable kind) :
    (∀ target, (independent.ofKind kind).find? v = some target → ∃ value,
      (intervalOf kind).narrowestValidValue order target v = some value ∧
        result.find kind v = some value) ∧
    ((independent.ofKind kind).find? v = none →
      result.find kind v = (solution.find kind v).or
        (if (⟨kind, v⟩ : L.AnyVariable) ∈ independent.haveFallbacks
          then some (L.anyOf kind) else none)) := by
  unfold addIndependent at h
  obtain ⟨third, hthird, rfl⟩ := Option.map_eq_some_iff.mp h
  obtain ⟨second, hsecond, hthird⟩ := Option.bind_eq_some_iff.mp hthird
  obtain ⟨first, hfirst, hsecond⟩ := Option.bind_eq_some_iff.mp hsecond
  rw [find_applyFallbacks]
  -- the folds over the other kinds leave the variables of this one alone
  cases kind with
  | typeVar =>
    rw [IntervalContainer.find_addSolution_of_ne hthird (by decide),
      IntervalContainer.find_addSolution_of_ne hsecond (by decide)]
    refine ⟨fun target htarget => ?_, fun hnone => ?_⟩
    · obtain ⟨value, hvalue, hfind⟩ := IntervalContainer.find_addSolution hfirst htarget
      exact ⟨value, hvalue, by rw [hfind, Option.some_or]⟩
    · rw [IntervalContainer.find_addSolution_of_none hfirst hnone]
  | paramSpec =>
    rw [IntervalContainer.find_addSolution_of_ne hthird (by decide)]
    refine ⟨fun target htarget => ?_, fun hnone => ?_⟩
    · obtain ⟨value, hvalue, hfind⟩ := IntervalContainer.find_addSolution hsecond htarget
      exact ⟨value, hvalue, by rw [hfind, Option.some_or]⟩
    · rw [IntervalContainer.find_addSolution_of_none hsecond hnone,
        IntervalContainer.find_addSolution_of_ne hfirst (by decide)]
  | typeVarTuple =>
    refine ⟨fun target htarget => ?_, fun hnone => ?_⟩
    · obtain ⟨value, hvalue, hfind⟩ := IntervalContainer.find_addSolution hthird htarget
      exact ⟨value, hvalue, by rw [hfind, Option.some_or]⟩
    · rw [IntervalContainer.find_addSolution_of_none hthird hnone,
        IntervalContainer.find_addSolution_of_ne hsecond (by decide),
        IntervalContainer.find_addSolution_of_ne hfirst (by decide)]

/-- The interval depends on none of the variables that remain. -/
def IsIndependent (remaining : OrderedConstraints L) {kind : VariableKind}
    (target : (intervalOf (L := L) kind).T) : Prop :=
  ∀ w ∈ (intervalOf kind).freeVariables target, remaining.containsKey w = false

theorem not_any_iff {remaining : OrderedConstraints L} {kind : VariableKind}
    {target : (intervalOf (L := L) kind).T} :
    (!((intervalOf kind).freeVariables target).any remaining.containsKey) = true ↔
      remaining.IsIndependent target := by
  rw [Bool.not_eq_true', List.any_eq_false]
  exact forall₂_congr fun w _ => by rw [Bool.not_eq_true]

theorem find?_independent {remaining : OrderedConstraints L} {kind : VariableKind}
    {v : L.Variable kind} {target : (intervalOf (L := L) kind).T} :
    (remaining.partition.1.ofKind kind).find? v = some target ↔
      (remaining.ofKind kind).find? v = some target ∧ remaining.IsIndependent target := by
  rw [← not_any_iff]
  cases kind <;> exact SortedMap.find?_partition_fst

theorem find?_dependent {remaining : OrderedConstraints L} {kind : VariableKind}
    {v : L.Variable kind} {target : (intervalOf (L := L) kind).T} :
    (remaining.partition.2.ofKind kind).find? v = some target ↔
      (remaining.ofKind kind).find? v = some target ∧ ¬ remaining.IsIndependent target := by
  rw [← not_any_iff, Bool.not_eq_true]
  cases kind <;> exact SortedMap.find?_partition_snd

theorem mem_independent_haveFallbacks {remaining : OrderedConstraints L} {w : L.AnyVariable} :
    w ∈ remaining.partition.1.haveFallbacks ↔ w ∈ remaining.haveFallbacks ∧
      (remaining.partition.2.ofKind w.1).find? w.2 = none := by
  obtain ⟨kind, v⟩ := w
  refine List.mem_filter.trans (and_congr_right fun _ => ?_)
  cases kind <;> exact Option.isNone_iff_eq_none

theorem mem_dependent_haveFallbacks {remaining : OrderedConstraints L} {w : L.AnyVariable} :
    w ∈ remaining.partition.2.haveFallbacks ↔ w ∈ remaining.haveFallbacks ∧
      ∃ target, (remaining.partition.2.ofKind w.1).find? w.2 = some target := by
  obtain ⟨kind, v⟩ := w
  refine List.mem_filter.trans (and_congr_right fun _ => ?_)
  rw [Bool.not_eq_true', ← Option.isSome_iff_exists, ← Option.not_isNone, Bool.not_eq_true']
  cases kind <;> exact Iff.rfl

theorem find?_mergeSolution (constraints : OrderedConstraints L) (solution : Solution L)
    (kind : VariableKind) (v : L.Variable kind) :
    ((constraints.mergeSolution solution).ofKind kind).find? v =
      ((constraints.ofKind kind).find? v).bind fun target =>
        if (intervalOf kind).isTrivial ((intervalOf kind).mergeSolutionIn target v solution) v
        then none else some ((intervalOf kind).mergeSolutionIn target v solution) := by
  cases kind <;> exact IntervalContainer.find?_mergeSolution _ _ _

theorem containsKey_iff {constraints : OrderedConstraints L} {w : L.AnyVariable} :
    constraints.containsKey w = true ↔
      (∃ target, (constraints.ofKind w.1).find? w.2 = some target) ∨
        w ∈ constraints.haveFallbacks := by
  unfold containsKey
  rw [Bool.or_eq_true, Option.isSome_iff_exists, decide_eq_true_iff]

theorem isEmpty_iff {constraints : OrderedConstraints L} :
    constraints.isEmpty = true ↔
      (∀ kind v, (constraints.ofKind kind).find? v = none) ∧ constraints.haveFallbacks = [] := by
  unfold isEmpty
  rw [Bool.and_eq_true, Bool.and_eq_true, Bool.and_eq_true, SortedMap.isEmpty_iff,
    SortedMap.isEmpty_iff, SortedMap.isEmpty_iff, List.isEmpty_iff]
  constructor
  · rintro ⟨⟨⟨htypeVars, hparamSpecs⟩, htuples⟩, hfallbacks⟩
    refine ⟨fun kind => ?_, hfallbacks⟩
    cases kind with
    | typeVar => exact htypeVars
    | paramSpec => exact hparamSpecs
    | typeVarTuple => exact htuples
  · rintro ⟨h, hfallbacks⟩
    exact ⟨⟨⟨h .typeVar, h .paramSpec⟩, h .typeVarTuple⟩, hfallbacks⟩

theorem containsKey_of_dependent {remaining : OrderedConstraints L} {w : L.AnyVariable}
    (hw : remaining.partition.2.containsKey w = true) : remaining.containsKey w = true := by
  rcases containsKey_iff.mp hw with ⟨target, hfind⟩ | hmem
  · exact containsKey_iff.mpr (Or.inl ⟨target, (find?_dependent.mp hfind).1⟩)
  · exact containsKey_iff.mpr (Or.inr (mem_dependent_haveFallbacks.mp hmem).1)

theorem containsKey_of_merged {constraints : OrderedConstraints L} {solution : Solution L}
    {w : L.AnyVariable} (hw : (constraints.mergeSolution solution).containsKey w = true) :
    constraints.containsKey w = true := by
  rcases containsKey_iff.mp hw with ⟨target, hfind⟩ | hmem
  · rw [find?_mergeSolution] at hfind
    obtain ⟨target', hfind', -⟩ := Option.bind_eq_some_iff.mp hfind
    exact containsKey_iff.mpr (Or.inl ⟨target', hfind'⟩)
  · exact containsKey_iff.mpr (Or.inr hmem)

end OrderedConstraints

/-! ## 2. The invariant of elimination -/

/-- A bound that was added: below the variable or above it. -/
structure AddedBound (L : TypeLanguage) where
  pair : Pair L
  isLowerBound : Bool

/-- The solution respects the bound. -/
def Solution.Respects (O : TypeOrder L) (solution : Solution L) (added : AddedBound L) : Prop :=
  Related O added.pair.kind added.isLowerBound
    (solution.instantiate (L.toType added.pair.kind added.pair.value))
    (solution.instantiate (L.selfType added.pair.kind added.pair.key))

/-- What holds before each round of `buildSolution`. -/
structure Elimination (O : TypeOrder L) (bounds : List (AddedBound L))
    (fallbacks : List L.AnyVariable) (remaining : OrderedConstraints L) (solution : Solution L) :
    Prop where
  respected : ∀ added ∈ bounds, solution.Respects O added ∨
    ∃ target, (remaining.ofKind added.pair.kind).find? added.pair.key = some target ∧
      Guarantees O added.pair.kind target added.isLowerBound
        (solution.instantiate (L.toType added.pair.kind added.pair.value))
  fallback : ∀ w ∈ fallbacks, w ∈ remaining.haveFallbacks ∨ (solution.find w.1 w.2).isSome
  remaining_free : ∀ w, remaining.containsKey w = true → L.isFree w.1 w.2 = true
  solved_free : ∀ kind v value, solution.find kind v = some value → L.isFree kind v = true
  unsolved : ∀ w, remaining.containsKey w = true → solution.find w.1 w.2 = none
  interval_unsolved : ∀ kind v target, (remaining.ofKind kind).find? v = some target →
    ∀ w ∈ (intervalOf kind).freeVariables target, solution.find w.1 w.2 = none
  values : ∀ kind v value, solution.find kind v = some value →
    ∀ kind' u, u ∈ L.collectAll kind' (L.toType kind value) →
      solution.find kind' u = none ∧ remaining.containsKey ⟨kind', u⟩ = false

namespace Elimination

open OrderedConstraints

variable {O : TypeOrder L} {bounds : List (AddedBound L)} {fallbacks : List L.AnyVariable}
  {remaining : OrderedConstraints L} {solution result : Solution L}

section Round

variable (h : Elimination O bounds fallbacks remaining solution)
  (hadd : remaining.partition.1.addIndependent O solution = some result)
include h hadd

omit h in
/-- A value of the next solution is an old one, the narrowest of an independent interval, or the
    `any` of a fallback. -/
theorem round_value {kind : VariableKind} {v : L.Variable kind} {value : L.Domain kind}
    (hvalue : result.find kind v = some value) :
    solution.find kind v = some value ∨ remaining.containsKey ⟨kind, v⟩ = true ∧
      ((∃ target, remaining.IsIndependent target ∧ (remaining.ofKind kind).find? v = some target ∧
        (intervalOf kind).narrowestValidValue O target v = some value) ∨ value = L.anyOf kind) := by
  obtain ⟨hinterval, hrest⟩ := addIndependent_find hadd kind v
  cases hfind : (remaining.partition.1.ofKind kind).find? v with
  | some target =>
    obtain ⟨value', hnarrowest, hvalue'⟩ := hinterval target hfind
    obtain ⟨hremaining, hindependent⟩ := find?_independent.mp hfind
    rw [hvalue] at hvalue'
    cases hvalue'
    exact Or.inr ⟨containsKey_iff.mpr (Or.inl ⟨target, hremaining⟩),
      Or.inl ⟨target, hindependent, hremaining, hnarrowest⟩⟩
  | none =>
    have hor := hrest hfind
    rw [hvalue] at hor
    cases hold : solution.find kind v with
    | some old =>
      rw [hold, Option.some_or] at hor
      exact Or.inl hor.symm
    | none =>
      rw [hold, Option.none_or] at hor
      split at hor
      · rename_i hmem
        cases hor
        exact Or.inr ⟨containsKey_iff.mpr (Or.inr (mem_independent_haveFallbacks.mp hmem).1),
          Or.inr rfl⟩
      · cases hor

theorem round_extends : Extends solution.find result.find := by
  intro kind v value hvalue
  obtain ⟨-, hrest⟩ := addIndependent_find hadd kind v
  have hnone : (remaining.partition.1.ofKind kind).find? v = none := by
    cases hfind : (remaining.partition.1.ofKind kind).find? v with
    | none => rfl
    | some target =>
      have hunsolved := h.unsolved ⟨kind, v⟩
        (containsKey_iff.mpr (Or.inl ⟨target, (find?_independent.mp hfind).1⟩))
      rw [show solution.find kind v = none from hunsolved] at hvalue
      cases hvalue
  rw [hrest hnone, hvalue, Option.some_or]

omit h in
/-- What is neither solved nor in the constraints is not solved by the round. -/
theorem round_unsolved {kind : VariableKind} {v : L.Variable kind}
    (hsolution : solution.find kind v = none) (hremaining : remaining.containsKey ⟨kind, v⟩ = false) :
    result.find kind v = none := by
  cases hvalue : result.find kind v with
  | none => rfl
  | some value =>
    rcases round_value hadd hvalue with hold | ⟨hkey, -⟩
    · rw [hsolution] at hold
      cases hold
    · rw [hremaining] at hkey
      cases hkey

theorem dependent_interval_unsolved {kind : VariableKind} {v : L.Variable kind}
    {target : (intervalOf (L := L) kind).T}
    (hfind : (remaining.partition.2.ofKind kind).find? v = some target) :
    result.find kind v = none := by
  obtain ⟨hremaining, hdependent⟩ := find?_dependent.mp hfind
  obtain ⟨-, hrest⟩ := addIndependent_find hadd kind v
  have hnone : (remaining.partition.1.ofKind kind).find? v = none := by
    cases hfind' : (remaining.partition.1.ofKind kind).find? v with
    | none => rfl
    | some target' =>
      obtain ⟨hremaining', hindependent⟩ := find?_independent.mp hfind'
      rw [hremaining] at hremaining'
      cases hremaining'
      exact absurd hindependent hdependent
  have hfallback : (⟨kind, v⟩ : L.AnyVariable) ∉ remaining.partition.1.haveFallbacks := by
    intro hmem
    rw [show (remaining.partition.2.ofKind kind).find? v = none from
      (mem_independent_haveFallbacks.mp hmem).2] at hfind
    cases hfind
  have hunsolved : solution.find kind v = none :=
    h.unsolved ⟨kind, v⟩ (containsKey_iff.mpr (Or.inl ⟨target, hremaining⟩))
  rw [hrest hnone, hunsolved, if_neg hfallback, Option.none_or]

/-- The variables of the dependent constraints are left unsolved. -/
theorem dependent_unsolved {w : L.AnyVariable}
    (hw : remaining.partition.2.containsKey w = true) : result.find w.1 w.2 = none := by
  rcases containsKey_iff.mp hw with ⟨target, hfind⟩ | hmem
  · exact dependent_interval_unsolved h hadd hfind
  · obtain ⟨-, target, hfind⟩ := mem_dependent_haveFallbacks.mp hmem
    exact dependent_interval_unsolved h hadd hfind

/-- No value mentions a variable that was in the constraints or is solved. -/
theorem round_values (hL : L.Lawful) (hO : O.Lawful) {kind : VariableKind} {v : L.Variable kind}
    {value : L.Domain kind} (hvalue : result.find kind v = some value) {kind' : VariableKind}
    {u : L.Variable kind'} (hu : u ∈ L.collectAll kind' (L.toType kind value)) :
    result.find kind' u = none ∧ remaining.containsKey ⟨kind', u⟩ = false := by
  suffices hboth : solution.find kind' u = none ∧ remaining.containsKey ⟨kind', u⟩ = false from
    ⟨round_unsolved hadd hboth.1 hboth.2, hboth.2⟩
  rcases round_value hadd hvalue with hold | ⟨-, ⟨target, hindependent, hfind, hnarrowest⟩ | rfl⟩
  · exact h.values kind v value hold kind' u hu
  · by_cases hfree : L.isFree kind' u = true
    · have hmem := (intervalOf_sound hL hO kind).narrowest_variables target v value hnarrowest
        kind' u hu hfree
      exact ⟨h.interval_unsolved kind v target hfind _ hmem, hindependent _ hmem⟩
    · -- only free variables are solved or have constraints
      constructor
      · cases hsolved : solution.find kind' u with
        | none => rfl
        | some old => exact absurd (h.solved_free kind' u old hsolved) hfree
      · cases hkey : remaining.containsKey ⟨kind', u⟩ with
        | false => rfl
        | true => exact absurd (h.remaining_free _ hkey) hfree
  · rw [hL.collectAll_any] at hu
    cases hu

theorem round_avoids (hL : L.Lawful) (hO : O.Lawful) : Avoids result.find result.find :=
  fun _ _ _ hvalue _ _ hu => (round_values h hadd hL hO hvalue hu).1

/-- Instantiating with the next solution what the last one instantiated. -/
theorem instantiate_instantiate (hL : L.Lawful) (hO : O.Lawful) (ty : L.Ty) :
    result.instantiate (solution.instantiate ty) = result.instantiate ty := by
  rw [result.instantiate_eq hL, result.instantiate_eq hL, solution.instantiate_eq hL]
  exact substitute_substitute hL (round_extends h hadd) (round_avoids h hadd hL hO) ty

theorem related_instantiate (hL : L.Lawful) (hO : O.Lawful) {kind : VariableKind}
    {isLowerBound : Bool} {bound value : L.Ty}
    (hrelated : Related O kind isLowerBound (solution.instantiate bound) value) :
    Related O kind isLowerBound (result.instantiate bound) (result.instantiate value) := by
  rw [← instantiate_instantiate h hadd hL hO bound, result.instantiate_eq hL value,
    result.instantiate_eq hL (solution.instantiate bound)]
  exact hrelated.substitute hO _

/-- A bound is respected after the round, or guaranteed by an interval that is left. -/
theorem round_respected (hL : L.Lawful) (hO : O.Lawful) {added : AddedBound L}
    (hmem : added ∈ bounds) : result.Respects O added ∨
      ∃ target, ((remaining.partition.2.mergeSolution result).ofKind added.pair.kind).find?
        added.pair.key = some target ∧ Guarantees O added.pair.kind target added.isLowerBound
          (result.instantiate (L.toType added.pair.kind added.pair.value)) := by
  obtain ⟨⟨kind, v, bound⟩, isLowerBound⟩ := added
  rcases h.respected _ hmem with hrespected | ⟨target, hfind, hguarantee⟩
  · have hrelated := related_instantiate h hadd hL hO hrespected
    rw [instantiate_instantiate h hadd hL hO] at hrelated
    exact Or.inl hrelated
  · by_cases hindependent : remaining.IsIndependent target
    · -- the variable is solved in this round, by the narrowest value
      obtain ⟨value, hnarrowest, hvalue⟩ := (addIndependent_find hadd kind v).1 target
        (find?_independent.mpr ⟨hfind, hindependent⟩)
      have hrelated := related_instantiate h hadd hL hO
        ((intervalOf_sound hL hO kind).narrowest target v value isLowerBound _ hguarantee hnarrowest)
      have hself : result.instantiate (L.toType kind value) =
          result.instantiate (L.selfType kind v) := by
        rw [result.instantiate_eq hL, result.instantiate_eq hL,
          substitute_selfType hL (round_avoids h hadd hL hO) hvalue]
        exact substitute_of_not_mem hL fun kind' u hu => (round_values h hadd hL hO hvalue hu).1
      rw [hself] at hrelated
      exact Or.inl hrelated
    · -- the variable stays, with the merged interval unless that is trivial
      have hdependent := find?_dependent.mpr ⟨hfind, hindependent⟩
      have hself : result.instantiate (L.selfType kind v) = L.selfType kind v := by
        rw [result.instantiate_eq hL]
        exact substitute_selfType_of_none hL (dependent_interval_unsolved h hadd hdependent)
      have hmerge := (intervalOf_sound hL hO kind).merge target v result isLowerBound _ hguarantee
      rw [instantiate_instantiate h hadd hL hO] at hmerge
      have hrespects : Related O kind isLowerBound (result.instantiate (L.toType kind bound))
          (L.selfType kind v) → result.Respects O ⟨⟨kind, v, bound⟩, isLowerBound⟩ := by
        intro hrelated
        unfold Solution.Respects
        rw [hself]
        exact hrelated
      rcases hmerge with hmerged | hrelated
      · by_cases htrivial : (intervalOf kind).isTrivial
            ((intervalOf kind).mergeSolutionIn target v result) v = true
        · exact Or.inl (hrespects ((intervalOf_sound hL hO kind).trivial _ v isLowerBound _ hmerged
            htrivial))
        · refine Or.inr ⟨(intervalOf kind).mergeSolutionIn target v result, ?_, hmerged⟩
          rw [find?_mergeSolution, hdependent, Option.bind_some, if_neg htrivial]
      · exact Or.inl (hrespects hrelated)

/-- **A round keeps the invariant.** -/
theorem round (hL : L.Lawful) (hO : O.Lawful) :
    Elimination O bounds fallbacks (remaining.partition.2.mergeSolution result) result where
  respected := fun _ hmem => round_respected h hadd hL hO hmem
  fallback := by
    intro w hw
    rcases h.fallback w hw with hmem | hsome
    · cases hfind : (remaining.partition.2.ofKind w.1).find? w.2 with
      | some target => exact Or.inl (mem_dependent_haveFallbacks.mpr ⟨hmem, target, hfind⟩)
      | none =>
        have hindependent := mem_independent_haveFallbacks.mpr ⟨hmem, hfind⟩
        obtain ⟨hinterval, hrest⟩ := addIndependent_find hadd w.1 w.2
        refine Or.inr ?_
        cases hfind' : (remaining.partition.1.ofKind w.1).find? w.2 with
        | some target =>
          obtain ⟨value, -, hvalue⟩ := hinterval target hfind'
          rw [hvalue]
          rfl
        | none =>
          rw [hrest hfind', if_pos hindependent]
          cases solution.find w.1 w.2 <;> rfl
    · obtain ⟨value, hvalue⟩ := Option.isSome_iff_exists.mp hsome
      rw [round_extends h hadd w.1 w.2 value hvalue]
      exact Or.inr rfl
  remaining_free := fun w hw =>
    h.remaining_free w (containsKey_of_dependent (containsKey_of_merged hw))
  solved_free := by
    intro kind v value hvalue
    rcases round_value hadd hvalue with hold | ⟨hkey, -⟩
    · exact h.solved_free kind v value hold
    · exact h.remaining_free _ hkey
  unsolved := fun w hw => dependent_unsolved h hadd (containsKey_of_merged hw)
  interval_unsolved := by
    rintro kind v target hfind ⟨kind', u⟩ hu
    rw [find?_mergeSolution] at hfind
    obtain ⟨target', -, hfind'⟩ := Option.bind_eq_some_iff.mp hfind
    split at hfind'
    · cases hfind'
    · cases hfind'
      obtain ⟨ty, -, hmem, -⟩ :=
        (intervalOf_sound hL hO kind).merge_variables target' v result kind' u hu
      rw [result.instantiate_eq hL] at hmem
      exact collectAll_substitute_none hL (round_avoids h hadd hL hO) hmem
  values := by
    intro kind v value hvalue kind' u hu
    obtain ⟨hunsolved, hkey⟩ := round_values h hadd hL hO hvalue hu
    refine ⟨hunsolved, ?_⟩
    cases hmerged : (remaining.partition.2.mergeSolution result).containsKey ⟨kind', u⟩ with
    | false => rfl
    | true =>
      rw [containsKey_of_dependent (containsKey_of_merged hmerged)] at hkey
      cases hkey

end Round

/-- **The result of elimination** respects every bound and gives every fallback a value. -/
theorem buildSolution_respects (hL : L.Lawful) (hO : O.Lawful)
    (h : Elimination O bounds fallbacks remaining solution)
    (hsolve : buildSolution O remaining solution = some result) :
    (∀ added ∈ bounds, result.Respects O added) ∧
      ∀ w ∈ fallbacks, (result.find w.1 w.2).isSome := by
  induction remaining, solution using buildSolution.induct O with
  | case1 remaining solution hadd =>
    rw [buildSolution, hadd] at hsolve
    cases hsolve
  | case2 remaining solution next hadd hempty =>
    rw [buildSolution, hadd] at hsolve
    simp only [hempty, if_true, Option.some.injEq] at hsolve
    subst hsolve
    obtain ⟨hintervals, hfallbacks⟩ := isEmpty_iff.mp hempty
    have hround := h.round hadd hL hO
    constructor
    · intro added hmem
      refine (hround.respected added hmem).resolve_right ?_
      rintro ⟨target, hfind, -⟩
      rw [find?_mergeSolution, hintervals] at hfind
      cases hfind
    · intro w hw
      refine (hround.fallback w hw).resolve_left fun hmem => ?_
      have hdependent : w ∈ remaining.partition.2.haveFallbacks := hmem
      rw [hfallbacks] at hdependent
      cases hdependent
  | case3 remaining solution next hadd hempty hindependent =>
    rw [buildSolution, hadd] at hsolve
    simp only [hempty, hindependent, dif_pos] at hsolve
    cases hsolve
  | case4 remaining solution next hadd hempty hindependent ih =>
    rw [buildSolution, hadd] at hsolve
    simp only [hempty, hindependent] at hsolve
    exact ih (h.round hadd hL hO) hsolve

end Elimination
end TypeConstraints
end Pysa
