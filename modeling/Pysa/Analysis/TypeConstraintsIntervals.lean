/-
  Subject: WHAT AN INTERVAL GUARANTEES about the bounds that it was made from.

  * `Solution.instantiate_eq` -- instantiating is the substitution of the three kinds in turn;
  * `Related` -- when a value respects a bound; `Related.substitute`;
  * `Interval.Sound` -- the narrowest value respects every guaranteed bound and mentions no variable
    that the interval does not, and a guarantee survives a merge;
  * `typeVarInterval_sound`, `paramSpecInterval_sound`, `typeVarTupleInterval_sound`,
    `intervalOf_sound` -- the three modules are.
-/
import Pysa.Analysis.TypeConstraints

namespace Pysa
namespace TypeConstraints

open TypeLanguage

variable {L : TypeLanguage}

/-! ## 1. Solutions as assignments -/

namespace Solution

@[simp] theorem find_empty (kind : VariableKind) (v : L.Variable kind) :
    (empty : Solution L).find kind v = none := by
  cases kind <;> exact SortedMap.find?_empty v

theorem find_set (solution : Solution L) (kind : VariableKind) (v w : L.Variable kind)
    (value : L.Domain kind) :
    (solution.set kind v value).find kind w = if w = v then some value else solution.find kind w := by
  cases kind <;> exact SortedMap.find?_add v w value _

theorem find_set_of_ne (solution : Solution L) {kind kind' : VariableKind} (hne : kind' ≠ kind)
    (v : L.Variable kind) (value : L.Domain kind) (w : L.Variable kind') :
    (solution.set kind v value).find kind' w = solution.find kind' w := by
  cases kind <;> cases kind' <;> first | rfl | exact absurd rfl hne

/-- Leaving out a kind without values is replacing nothing of it. -/
theorem replaceAll_of_isEmpty (hL : L.Lawful) {kind : VariableKind}
    {map : SortedMap (L.Variable kind) (L.Domain kind)} (ty : L.Ty) :
    (if map.isEmpty then ty else L.replaceAll kind (fun v => map.find? v) ty) =
      L.replaceAll kind (fun v => map.find? v) ty := by
  split
  · rename_i h
    refine (replaceAll_of_not_mem hL fun v _ => ?_).symm
    exact SortedMap.isEmpty_iff.mp h v
  · rfl

theorem instantiate_eq (hL : L.Lawful) (solution : Solution L) (ty : L.Ty) :
    solution.instantiate ty = substitute solution.find ty := by
  unfold instantiate
  simp only [replaceAll_of_isEmpty hL]
  rfl

end Solution

/-! ## 2. Respecting a bound -/

/-- A type on the side of a bound: above a lower one, below an upper one. A parameter specification
    has no order, so its bounds are equalities. -/
def Related (O : TypeOrder L) (kind : VariableKind) (isLowerBound : Bool) (bound value : L.Ty) :
    Prop :=
  match kind with
  | .paramSpec => bound = value
  | _ =>
    if isLowerBound then O.alwaysLessOrEqual bound value = true
    else O.alwaysLessOrEqual value bound = true

namespace Related

variable {O : TypeOrder L} {kind : VariableKind} {isLowerBound : Bool} {bound value : L.Ty}

theorem refl (hO : O.Lawful) (kind : VariableKind) (isLowerBound : Bool) (ty : L.Ty) :
    Related O kind isLowerBound ty ty := by
  cases kind <;> cases isLowerBound <;> first | rfl | exact hO.refl ty

theorem substitute (hO : O.Lawful) (σ : L.Assignment)
    (h : Related O kind isLowerBound bound value) :
    Related O kind isLowerBound (TypeLanguage.substitute σ bound)
      (TypeLanguage.substitute σ value) := by
  cases kind with
  | paramSpec => exact congrArg _ h
  | typeVar => cases isLowerBound <;> exact hO.substitute σ h
  | typeVarTuple => cases isLowerBound <;> exact hO.substitute σ h

end Related

/-! ## 3. What an interval module owes -/

/-- The interval module keeps a guarantee about bounds: a bound that it guarantees is respected by the
    narrowest value, and still guaranteed after a merge unless the variable itself respects it. -/
structure Interval.Sound {kind : VariableKind} (I : Interval L kind) (O : TypeOrder L)
    (Guarantees : I.T → Bool → L.Ty → Prop) : Prop where
  narrowest : ∀ target v value isLowerBound bound, Guarantees target isLowerBound bound →
    I.narrowestValidValue O target v = some value →
    Related O kind isLowerBound bound (L.toType kind value)
  narrowest_variables : ∀ target v value, I.narrowestValidValue O target v = some value →
    ∀ kind' u, u ∈ L.collectAll kind' (L.toType kind value) → L.isFree kind' u = true →
    (⟨kind', u⟩ : L.AnyVariable) ∈ I.freeVariables target
  merge : ∀ target v solution isLowerBound bound, Guarantees target isLowerBound bound →
    Guarantees (I.mergeSolutionIn target v solution) isLowerBound (solution.instantiate bound) ∨
      Related O kind isLowerBound (solution.instantiate bound) (L.selfType kind v)
  merge_variables : ∀ target v solution kind' u,
    (⟨kind', u⟩ : L.AnyVariable) ∈ I.freeVariables (I.mergeSolutionIn target v solution) →
    ∃ ty, (∀ w ∈ L.allFreeVariables ty, w ∈ I.freeVariables target) ∧
      u ∈ L.collectAll kind' (solution.instantiate ty) ∧ L.isFree kind' u = true
  trivial : ∀ target v isLowerBound bound, Guarantees target isLowerBound bound →
    I.isTrivial target v = true → Related O kind isLowerBound bound (L.selfType kind v)

/-! ## 4. Type variables -/

namespace TypeVarInterval

variable {O : TypeOrder L}

def Guarantees (O : TypeOrder L) (interval : TypeVarInterval L) (isLowerBound : Bool)
    (bound : L.Ty) : Prop :=
  if isLowerBound then O.alwaysLessOrEqual bound interval.lowerBound = true
  else O.alwaysLessOrEqual interval.upperBound bound = true

theorem lowestNonBottomMember_cases (hO : O.Lawful) {interval : TypeVarInterval L} {value : L.Ty}
    (h : lowestNonBottomMember O interval = some value) :
    O.alwaysLessOrEqual interval.lowerBound value = true ∧
      O.alwaysLessOrEqual value interval.upperBound = true ∧
      (value = interval.lowerBound ∨ value = interval.upperBound) := by
  unfold lowestNonBottomMember at h
  split at h
  · rename_i hle
    split at h
    · cases h
      exact ⟨hle, hO.refl _, Or.inr rfl⟩
    · cases h
      exact ⟨hO.refl _, hle, Or.inl rfl⟩
  · cases h

theorem mem_collect {explicits sofar : List L.Ty} {ty candidate : L.Ty}
    (h : candidate ∈ collect explicits ty sofar) :
    candidate ∈ sofar ∨ ∃ v ∈ L.collectAll .typeVar ty, candidate = L.ofVariable v := by
  unfold collect at h
  generalize L.collectAll .typeVar ty = candidates at h ⊢
  induction candidates generalizing sofar with
  | nil => exact Or.inl h
  | cons v rest ih =>
    rw [List.foldl_cons] at h
    rcases ih h with h | ⟨w, hw, hcandidate⟩
    · split at h
      · split at h
        · rcases List.mem_cons.mp h with h | h
          · exact Or.inr ⟨v, List.mem_cons_self, h⟩
          · exact Or.inl h
        · exact Or.inl h
      · exact Or.inl h
    · exact Or.inr ⟨w, List.mem_cons_of_mem v hw, hcandidate⟩

/-- The narrowest value lies in the interval and mentions no variable but those of its bounds. -/
theorem narrowestValidValue_cases (hL : L.Lawful) (hO : O.Lawful) {interval : TypeVarInterval L}
    {v : L.Variable .typeVar} {value : L.Ty} (h : narrowestValidValue O interval v = some value) :
    O.alwaysLessOrEqual interval.lowerBound value = true ∧
      O.alwaysLessOrEqual value interval.upperBound = true ∧
      ∀ kind, ∀ u ∈ L.collectAll kind value,
        u ∈ L.collectAll kind interval.lowerBound ∨ u ∈ L.collectAll kind interval.upperBound := by
  have hmember : lowestNonBottomMember O interval = some value →
      O.alwaysLessOrEqual interval.lowerBound value = true ∧
      O.alwaysLessOrEqual value interval.upperBound = true ∧
      ∀ kind, ∀ u ∈ L.collectAll kind value,
        u ∈ L.collectAll kind interval.lowerBound ∨
          u ∈ L.collectAll kind interval.upperBound := by
    intro h
    obtain ⟨hlower, hupper, rfl | rfl⟩ := lowestNonBottomMember_cases hO h
    · exact ⟨hlower, hupper, fun _ _ hu => Or.inl hu⟩
    · exact ⟨hlower, hupper, fun _ _ hu => Or.inr hu⟩
  unfold narrowestValidValue at h
  split at h
  · rename_i explicits hconstraints
    have hcontains := List.find?_some h
    unfold contains at hcontains
    rw [Bool.and_eq_true] at hcontains
    refine ⟨hcontains.2, hcontains.1, fun kind u hu => ?_⟩
    -- a candidate is an explicit type, which is closed, or a variable of one of the bounds
    have hvariable : ∀ ty, (∃ w ∈ L.collectAll .typeVar ty,
        value = L.ofVariable w) → u ∈ L.collectAll kind ty := by
      rintro ty ⟨w, hw, rfl⟩
      by_cases hkind : VariableKind.typeVar = kind
      · subst hkind
        have hself : L.collectAll .typeVar (L.ofVariable w) = [w] := hL.collectAll_selfType .typeVar w
        rw [hself, List.mem_singleton] at hu
        rw [hu]
        exact hw
      · have hself : L.collectAll kind (L.ofVariable w) = [] :=
          hL.collectAll_selfType_of_ne .typeVar kind w hkind
        rw [hself] at hu
        cases hu
    rcases mem_collect (List.mem_of_find?_eq_some h) with hmem | hmem
    · rcases mem_collect hmem with hmem | hmem
      · rw [hL.collectAll_explicit v explicits hconstraints value hmem kind] at hu
        cases hu
      · exact Or.inl (hvariable _ hmem)
    · exact Or.inr (hvariable _ hmem)
  · rename_i exogenousBound hconstraints
    obtain ⟨hlower, hupper, hvalue⟩ := lowestNonBottomMember_cases hO
      (show lowestNonBottomMember O ⟨O.meet interval.upperBound exogenousBound,
        O.join interval.lowerBound L.bottom⟩ = some value from h)
    refine ⟨hO.trans _ _ _ (hO.le_join_left _ _) hlower,
      hO.trans _ _ _ hupper (hO.meet_le_left _ _), fun kind u hu => ?_⟩
    rcases hvalue with rfl | rfl
    · refine Or.inl ((hO.collectAll_join kind _ _ u hu).resolve_right fun hbottom => ?_)
      rw [hL.collectAll_bottom] at hbottom
      cases hbottom
    · refine Or.inr ((hO.collectAll_meet kind _ _ u hu).resolve_right fun hbound => ?_)
      rw [hL.collectAll_bound v exogenousBound hconstraints kind] at hbound
      cases hbound
  · exact hmember h
  · split at h
    · rename_i found hfound
      split at h
      · cases h
        exact hmember hfound
      · split at h
        · split at h
          · cases h
            exact hmember hfound
          · cases h
        · cases h
    · cases h

/-- The type that a bound becomes: what it is instantiated to, or the trivial one. -/
theorem mergeSolutionIn_cases (interval : TypeVarInterval L) (v : L.Variable .typeVar)
    (solution : Solution L) :
    ((mergeSolutionIn interval v solution).upperBound = solution.instantiate interval.upperBound ∨
        solution.instantiate interval.upperBound = L.ofVariable v ∧
          (mergeSolutionIn interval v solution).upperBound = L.top) ∧
      ((mergeSolutionIn interval v solution).lowerBound = solution.instantiate interval.lowerBound ∨
        solution.instantiate interval.lowerBound = L.ofVariable v ∧
          (mergeSolutionIn interval v solution).lowerBound = L.bottom) := by
  have hcases : ∀ ty default, (smartInstantiate v solution ty).getD default =
        solution.instantiate ty ∨ solution.instantiate ty = L.ofVariable v ∧
        (smartInstantiate v solution ty).getD default = default := by
    intro ty default
    unfold smartInstantiate
    by_cases h : solution.instantiate ty = L.ofVariable v
    · exact Or.inr ⟨h, by simp only [h, if_true, Option.getD_none]⟩
    · exact Or.inl (by simp only [h, if_false, Option.getD_some])
  exact ⟨hcases _ _, hcases _ _⟩

end TypeVarInterval

theorem typeVarInterval_sound {O : TypeOrder L} (hL : L.Lawful) (hO : O.Lawful) :
    Interval.Sound (typeVarInterval (L := L)) O (TypeVarInterval.Guarantees O) where
  narrowest := by
    intro target v value isLowerBound bound h hvalue
    obtain ⟨hlower, hupper, -⟩ := TypeVarInterval.narrowestValidValue_cases hL hO hvalue
    cases isLowerBound with
    | true => exact hO.trans _ _ _ h hlower
    | false => exact hO.trans _ _ _ hupper h
  narrowest_variables := by
    intro target v value hvalue kind' u hu hfree
    obtain ⟨-, -, hvariables⟩ := TypeVarInterval.narrowestValidValue_cases hL hO hvalue
    refine List.mem_append.mpr ?_
    rcases hvariables kind' u hu with h | h
    · exact Or.inr ((L.mem_allFreeVariables).mpr ⟨h, hfree⟩)
    · exact Or.inl ((L.mem_allFreeVariables).mpr ⟨h, hfree⟩)
  merge := by
    intro target v solution isLowerBound bound h
    obtain ⟨hupper, hlower⟩ := TypeVarInterval.mergeSolutionIn_cases target v solution
    have hsubstitute : ∀ {a b}, O.alwaysLessOrEqual a b = true →
        O.alwaysLessOrEqual (solution.instantiate a) (solution.instantiate b) = true := by
      intro a b hab
      rw [solution.instantiate_eq hL, solution.instantiate_eq hL]
      exact hO.substitute _ hab
    cases isLowerBound with
    | true =>
      have hle := hsubstitute (show O.alwaysLessOrEqual bound target.lowerBound = true from h)
      rcases hlower with hlower | ⟨hself, -⟩
      · rw [← hlower] at hle
        exact Or.inl hle
      · rw [hself] at hle
        exact Or.inr hle
    | false =>
      have hle := hsubstitute (show O.alwaysLessOrEqual target.upperBound bound = true from h)
      rcases hupper with hupper | ⟨hself, -⟩
      · rw [← hupper] at hle
        exact Or.inl hle
      · rw [hself] at hle
        exact Or.inr hle
  merge_variables := by
    intro target v solution kind' u hu
    obtain ⟨hupper, hlower⟩ := TypeVarInterval.mergeSolutionIn_cases target v solution
    have hfreeVariables : (⟨kind', u⟩ : L.AnyVariable) ∈ TypeVarInterval.freeVariables
        (TypeVarInterval.mergeSolutionIn target v solution) := hu
    rcases List.mem_append.mp hfreeVariables with h | h
    · obtain ⟨hmem, hfree⟩ := (L.mem_allFreeVariables).mp h
      rcases hupper with hupper | ⟨-, htop⟩
      · exact ⟨target.upperBound, fun w hw => List.mem_append.mpr (Or.inl hw), hupper ▸ hmem, hfree⟩
      · rw [htop, hL.collectAll_top] at hmem
        cases hmem
    · obtain ⟨hmem, hfree⟩ := (L.mem_allFreeVariables).mp h
      rcases hlower with hlower | ⟨-, hbottom⟩
      · exact ⟨target.lowerBound, fun w hw => List.mem_append.mpr (Or.inr hw), hlower ▸ hmem, hfree⟩
      · rw [hbottom, hL.collectAll_bottom] at hmem
        cases hmem
  trivial := by
    intro target v isLowerBound bound h htrivial
    obtain ⟨hupper, hlower⟩ := of_decide_eq_true htrivial
    cases isLowerBound with
    | true =>
      have hle : O.alwaysLessOrEqual bound target.lowerBound = true := h
      rw [hlower] at hle
      exact hO.trans _ _ _ hle (hO.bottom_le _)
    | false =>
      have hle : O.alwaysLessOrEqual target.upperBound bound = true := h
      rw [hupper] at hle
      exact hO.trans _ _ _ (hO.le_top _) hle

/-! ## 5. Parameter specifications -/

namespace ParamSpecInterval

def Guarantees (target : ParamSpecInterval L) (_ : Bool) (bound : L.Ty) : Prop :=
  ∃ parameters, target = .singleton parameters ∧ bound = L.callable parameters

theorem mergeSolutionIn_singleton (hL : L.Lawful) (parameters : L.Parameters)
    (v : L.Variable .paramSpec) (solution : Solution L) :
    ∃ instantiated, solution.instantiate (L.callable parameters) = L.callable instantiated ∧
      mergeSolutionIn (.singleton parameters) v solution = .singleton instantiated := by
  obtain ⟨instantiated, h⟩ := substitute_callable hL solution.find parameters
  rw [← solution.instantiate_eq hL] at h
  refine ⟨instantiated, h, ?_⟩
  unfold mergeSolutionIn
  simp only [h, hL.asCallable_callable]

end ParamSpecInterval

theorem paramSpecInterval_sound {O : TypeOrder L} (hL : L.Lawful) :
    Interval.Sound (paramSpecInterval (L := L)) O ParamSpecInterval.Guarantees where
  narrowest := by
    rintro target v value isLowerBound bound ⟨parameters, rfl, rfl⟩ hvalue
    cases hvalue
    rfl
  narrowest_variables := by
    intro target v value hvalue kind' u hu hfree
    cases target with
    | singleton parameters =>
      cases hvalue
      exact (L.mem_allFreeVariables).mpr ⟨hu, hfree⟩
    | top => cases hvalue
    | bottom => cases hvalue
  merge := by
    rintro target v solution isLowerBound bound ⟨parameters, rfl, rfl⟩
    obtain ⟨instantiated, h, hmerge⟩ :=
      ParamSpecInterval.mergeSolutionIn_singleton hL parameters v solution
    exact Or.inl ⟨instantiated, hmerge, h⟩
  merge_variables := by
    intro target v solution kind' u hu
    cases target with
    | singleton parameters =>
      obtain ⟨instantiated, h, hmerge⟩ :=
        ParamSpecInterval.mergeSolutionIn_singleton hL parameters v solution
      have hmem : (⟨kind', u⟩ : L.AnyVariable) ∈ L.allFreeVariables (L.callable instantiated) := by
        have hfreeVariables : (⟨kind', u⟩ : L.AnyVariable) ∈ ParamSpecInterval.freeVariables
            (ParamSpecInterval.mergeSolutionIn (.singleton parameters) v solution) := hu
        rwa [hmerge] at hfreeVariables
      rw [← h, mem_allFreeVariables] at hmem
      exact ⟨L.callable parameters, fun w hw => hw, hmem⟩
    | top => cases hu
    | bottom => cases hu
  trivial := by
    rintro target v isLowerBound bound ⟨parameters, rfl, rfl⟩ htrivial
    have hself : parameters = L.fromParamSpec v := of_decide_eq_true htrivial
    rw [hself]
    rfl

/-! ## 6. Type-variable tuples -/

namespace TypeVarTupleInterval

def Guarantees (O : TypeOrder L) (target : TypeVarTupleInterval L) (isLowerBound : Bool)
    (bound : L.Ty) : Prop :=
  ∃ orderedTypes, target = .singletonTuple orderedTypes ∧
    Related O .typeVarTuple isLowerBound bound (L.tuple orderedTypes)

theorem mergeSolutionIn_singletonTuple (hL : L.Lawful) (orderedTypes : L.OrderedTypes)
    (v : L.Variable .typeVarTuple) (solution : Solution L) :
    ∃ instantiated, solution.instantiate (L.tuple orderedTypes) = L.tuple instantiated ∧
      mergeSolutionIn (.singletonTuple orderedTypes) v solution = .singletonTuple instantiated := by
  obtain ⟨instantiated, h⟩ := substitute_tuple hL solution.find orderedTypes
  rw [← solution.instantiate_eq hL] at h
  refine ⟨instantiated, h, ?_⟩
  unfold mergeSolutionIn
  simp only [h, hL.asTuple_tuple]

end TypeVarTupleInterval

theorem typeVarTupleInterval_sound {O : TypeOrder L} (hL : L.Lawful) (hO : O.Lawful) :
    Interval.Sound (typeVarTupleInterval (L := L)) O (TypeVarTupleInterval.Guarantees O) where
  narrowest := by
    rintro target v value isLowerBound bound ⟨orderedTypes, rfl, h⟩ hvalue
    cases hvalue
    exact h
  narrowest_variables := by
    intro target v value hvalue kind' u hu hfree
    cases target with
    | singletonTuple orderedTypes =>
      cases hvalue
      exact (L.mem_allFreeVariables).mpr ⟨hu, hfree⟩
    | topTuple => cases hvalue
    | bottomTuple => cases hvalue
  merge := by
    rintro target v solution isLowerBound bound ⟨orderedTypes, rfl, h⟩
    obtain ⟨instantiated, hinstantiated, hmerge⟩ :=
      TypeVarTupleInterval.mergeSolutionIn_singletonTuple hL orderedTypes v solution
    refine Or.inl ⟨instantiated, hmerge, ?_⟩
    rw [← hinstantiated, solution.instantiate_eq hL, solution.instantiate_eq hL]
    exact h.substitute hO _
  merge_variables := by
    intro target v solution kind' u hu
    cases target with
    | singletonTuple orderedTypes =>
      obtain ⟨instantiated, h, hmerge⟩ :=
        TypeVarTupleInterval.mergeSolutionIn_singletonTuple hL orderedTypes v solution
      have hmem : (⟨kind', u⟩ : L.AnyVariable) ∈ L.allFreeVariables (L.tuple instantiated) := by
        have hfreeVariables : (⟨kind', u⟩ : L.AnyVariable) ∈ TypeVarTupleInterval.freeVariables
            (TypeVarTupleInterval.mergeSolutionIn (.singletonTuple orderedTypes) v solution) := hu
        rwa [hmerge] at hfreeVariables
      rw [← h, mem_allFreeVariables] at hmem
      exact ⟨L.tuple orderedTypes, fun w hw => hw, hmem⟩
    | topTuple => cases hu
    | bottomTuple => cases hu
  trivial := by
    rintro target v isLowerBound bound ⟨orderedTypes, rfl, h⟩ htrivial
    have hself : orderedTypes = L.soleVariadic v := of_decide_eq_true htrivial
    rw [hself] at h
    exact h

/-! ## 7. The three kinds together -/

/-- What the interval of each kind guarantees. -/
def Guarantees (O : TypeOrder L) :
    (kind : VariableKind) → (intervalOf (L := L) kind).T → Bool → L.Ty → Prop
  | .typeVar => TypeVarInterval.Guarantees O
  | .paramSpec => ParamSpecInterval.Guarantees
  | .typeVarTuple => TypeVarTupleInterval.Guarantees O

theorem intervalOf_sound {O : TypeOrder L} (hL : L.Lawful) (hO : O.Lawful) (kind : VariableKind) :
    Interval.Sound (intervalOf (L := L) kind) O (Guarantees O kind) := by
  cases kind with
  | typeVar => exact typeVarInterval_sound hL hO
  | paramSpec => exact paramSpecInterval_sound hL
  | typeVarTuple => exact typeVarTupleInterval_sound hL hO

end TypeConstraints
end Pysa
