/-
  Subject: THE TYPES BEHIND TYPE CONSTRAINTS, as far as solving looks at them (type.ml).

  * `TypeLanguage` -- the three kinds of variables, what each kind ranges over, and the operations
    of type.ml that the solver calls: `replaceAll` and `collectAll` of one kind, the self reference
    and the `any` of a kind, parameters as a callable, ordered types as a tuple;
  * `TypeLanguage.Lawful` -- what these operations are to each other;
  * `TypeOrder`, `TypeOrder.Lawful` -- the order that the solver is a functor over.
-/
import Mathlib.Order.Basic

namespace Pysa
namespace TypeConstraints

inductive VariableKind where
  | typeVar
  | paramSpec
  | typeVarTuple
  deriving DecidableEq, Repr

/-- The constraints that a type variable is declared with. -/
inductive TypeVarConstraints (Ty : Type) where
  | bound (ty : Ty)
  | explicit (types : List Ty)
  | unconstrained
  | literalIntegers

/-- What a variable of each kind stands for: a type, callable parameters, ordered types. -/
def DomainOf (Ty Parameters OrderedTypes : Type) : VariableKind → Type
  | .typeVar => Ty
  | .paramSpec => Parameters
  | .typeVarTuple => OrderedTypes

/-- The types, and the operations on them that the solver uses. -/
structure TypeLanguage where
  Ty : Type
  Parameters : Type
  OrderedTypes : Type
  Variable : VariableKind → Type
  [decidableTy : DecidableEq Ty]
  [decidableParameters : DecidableEq Parameters]
  [decidableOrderedTypes : DecidableEq OrderedTypes]
  [orderVariable : ∀ kind, LinearOrder (Variable kind)]
  top : Ty
  bottom : Ty
  any : Ty
  /-- `Type.Variable`. -/
  ofVariable : Variable .typeVar → Ty
  asVariable : Ty → Option (Variable .typeVar)
  /-- Is it `Type.Literal (Type.Integer _)`? -/
  isIntegerLiteral : Ty → Bool
  /-- The members of a `Type.Union`. -/
  asUnion : Ty → Option (List Ty)
  /-- `Type.Callable.create ~parameters ~annotation:Type.Any ()`. -/
  callable : Parameters → Ty
  /-- The parameters of the implementation of a `Type.Callable`. -/
  asCallable : Ty → Option Parameters
  /-- `Type.Tuple`. -/
  tuple : OrderedTypes → Ty
  asTuple : Ty → Option OrderedTypes
  undefined : Parameters
  /-- `FromParamSpec { head = []; variable }`. -/
  fromParamSpec : Variable .paramSpec → Parameters
  /-- The unbounded concatenation of `Any`. -/
  unboundedAny : OrderedTypes
  /-- The concatenation of a variadic with nothing before and nothing after it. -/
  soleVariadic : Variable .typeVarTuple → OrderedTypes
  isFree : (kind : VariableKind) → Variable kind → Bool
  constraints : Variable .typeVar → TypeVarConstraints Ty
  /-- The variables of one kind that occur in a type. -/
  collectAll : (kind : VariableKind) → Ty → List (Variable kind)
  /-- The type with the variables of one kind replaced where the function has a value. -/
  replaceAll : (kind : VariableKind) →
    (Variable kind → Option (DomainOf Ty Parameters OrderedTypes kind)) → Ty → Ty

attribute [instance] TypeLanguage.decidableTy TypeLanguage.decidableParameters
  TypeLanguage.decidableOrderedTypes TypeLanguage.orderVariable

namespace TypeLanguage

/-! ## 1. The three kinds of variables -/

section Kinds

variable (L : TypeLanguage)

abbrev Domain (kind : VariableKind) : Type := DomainOf L.Ty L.Parameters L.OrderedTypes kind

instance : ∀ kind, DecidableEq (L.Domain kind)
  | .typeVar => L.decidableTy
  | .paramSpec => L.decidableParameters
  | .typeVarTuple => L.decidableOrderedTypes

/-- `Type.Variable.t`: a variable of any kind. -/
abbrev AnyVariable : Type := Σ kind, L.Variable kind

/-- A value of a kind as a type: parameters stand in a callable, ordered types in a tuple. -/
def toType : (kind : VariableKind) → L.Domain kind → L.Ty
  | .typeVar, ty => ty
  | .paramSpec, parameters => L.callable parameters
  | .typeVarTuple, orderedTypes => L.tuple orderedTypes

def selfReference : (kind : VariableKind) → L.Variable kind → L.Domain kind
  | .typeVar, v => L.ofVariable v
  | .paramSpec, v => L.fromParamSpec v
  | .typeVarTuple, v => L.soleVariadic v

def anyOf : (kind : VariableKind) → L.Domain kind
  | .typeVar => L.any
  | .paramSpec => L.undefined
  | .typeVarTuple => L.unboundedAny

/-- The variable itself, as a type. -/
def selfType (kind : VariableKind) (v : L.Variable kind) : L.Ty :=
  L.toType kind (L.selfReference kind v)

def freeOfKind (kind : VariableKind) (ty : L.Ty) : List L.AnyVariable :=
  ((L.collectAll kind ty).filter (L.isFree kind)).map fun v => ⟨kind, v⟩

def allFreeVariables (ty : L.Ty) : List L.AnyVariable :=
  L.freeOfKind .typeVar ty ++ L.freeOfKind .paramSpec ty ++
    L.freeOfKind .typeVarTuple ty

theorem mem_freeOfKind {kind kind' : VariableKind} {v : L.Variable kind} {ty : L.Ty} :
    (⟨kind, v⟩ : L.AnyVariable) ∈ L.freeOfKind kind' ty ↔
      kind = kind' ∧ v ∈ L.collectAll kind ty ∧ L.isFree kind v = true := by
  unfold freeOfKind
  rw [List.mem_map]
  constructor
  · rintro ⟨w, hw, hvw⟩
    rw [List.mem_filter] at hw
    cases hvw
    exact ⟨rfl, hw⟩
  · rintro ⟨rfl, hv⟩
    exact ⟨v, List.mem_filter.mpr hv, rfl⟩

theorem mem_allFreeVariables {kind : VariableKind} {v : L.Variable kind} {ty : L.Ty} :
    (⟨kind, v⟩ : L.AnyVariable) ∈ L.allFreeVariables ty ↔
      v ∈ L.collectAll kind ty ∧ L.isFree kind v = true := by
  unfold allFreeVariables
  rw [List.mem_append, List.mem_append, mem_freeOfKind, mem_freeOfKind, mem_freeOfKind]
  cases kind <;> simp

end Kinds

/-! ## 2. What the operations are to each other -/

/-- An assignment of values to some of the variables. -/
abbrev Assignment (L : TypeLanguage) : Type :=
  (kind : VariableKind) → L.Variable kind → Option (L.Domain kind)

/-- The laws of replacing and collecting. The declared constraints of a variable are closed: a bound
    or an explicit type that mentions variables is reported where the variable is declared. -/
structure Lawful (L : TypeLanguage) : Prop where
  asCallable_callable : ∀ parameters, L.asCallable (L.callable parameters) = some parameters
  asTuple_tuple : ∀ orderedTypes, L.asTuple (L.tuple orderedTypes) = some orderedTypes
  replaceAll_congr : ∀ kind σ τ ty, (∀ v ∈ L.collectAll kind ty, σ v = τ v) →
    L.replaceAll kind σ ty = L.replaceAll kind τ ty
  replaceAll_none : ∀ kind ty, L.replaceAll kind (fun _ => none) ty = ty
  replaceAll_replaceAll : ∀ kind σ τ ty,
    (∀ v value, σ v = some value → ∀ u ∈ L.collectAll kind (L.toType kind value), τ u = none) →
    L.replaceAll kind τ (L.replaceAll kind σ ty) =
      L.replaceAll kind (fun v => (σ v).or (τ v)) ty
  replaceAll_comm : ∀ kind kind' σ τ ty, kind ≠ kind' →
    (∀ v value, σ v = some value → ∀ u ∈ L.collectAll kind' (L.toType kind value), τ u = none) →
    (∀ v value, τ v = some value → ∀ u ∈ L.collectAll kind (L.toType kind' value), σ u = none) →
    L.replaceAll kind' τ (L.replaceAll kind σ ty) =
      L.replaceAll kind σ (L.replaceAll kind' τ ty)
  collectAll_replaceAll : ∀ kind kind' σ ty u,
    u ∈ L.collectAll kind' (L.replaceAll kind σ ty) → u ∈ L.collectAll kind' ty ∨
      ∃ v value, σ v = some value ∧ u ∈ L.collectAll kind' (L.toType kind value)
  collectAll_replaceAll_self : ∀ kind σ ty u,
    u ∈ L.collectAll kind (L.replaceAll kind σ ty) → σ u = none ∨
      ∃ v value, σ v = some value ∧ u ∈ L.collectAll kind (L.toType kind value)
  replaceAll_callable : ∀ kind σ parameters, ∃ parameters',
    L.replaceAll kind σ (L.callable parameters) = L.callable parameters'
  replaceAll_tuple : ∀ kind σ orderedTypes, ∃ orderedTypes',
    L.replaceAll kind σ (L.tuple orderedTypes) = L.tuple orderedTypes'
  replaceAll_selfType : ∀ kind σ v value, σ v = some value →
    L.replaceAll kind σ (L.selfType kind v) = L.toType kind value
  collectAll_selfType : ∀ kind v, L.collectAll kind (L.selfType kind v) = [v]
  collectAll_selfType_of_ne : ∀ kind kind' v, kind ≠ kind' →
    L.collectAll kind' (L.selfType kind v) = []
  collectAll_any : ∀ kind kind', L.collectAll kind' (L.toType kind (L.anyOf kind)) = []
  collectAll_top : ∀ kind, L.collectAll kind L.top = []
  collectAll_bottom : ∀ kind, L.collectAll kind L.bottom = []
  collectAll_bound : ∀ v ty, L.constraints v = .bound ty →
    ∀ kind, L.collectAll kind ty = []
  collectAll_explicit : ∀ v types, L.constraints v = .explicit types →
    ∀ ty ∈ types, ∀ kind, L.collectAll kind ty = []

/-! ## 3. Substitution -/

section Substitution

variable {L : TypeLanguage}

/-- The type variables replaced first, then the parameter specifications, then the tuples. -/
def substitute (σ : L.Assignment) (ty : L.Ty) : L.Ty :=
  L.replaceAll .typeVarTuple (σ .typeVarTuple)
    (L.replaceAll .paramSpec (σ .paramSpec) (L.replaceAll .typeVar (σ .typeVar) ty))

/-- No value of `σ` mentions a variable that `τ` replaces. -/
def Avoids (σ τ : L.Assignment) : Prop :=
  ∀ kind v value, σ kind v = some value →
    ∀ kind' u, u ∈ L.collectAll kind' (L.toType kind value) → τ kind' u = none

/-- `τ` has every value of `σ`. -/
def Extends (σ τ : L.Assignment) : Prop :=
  ∀ kind v value, σ kind v = some value → τ kind v = some value

theorem Extends.none_of_none {σ τ : L.Assignment} (h : Extends σ τ) {kind : VariableKind}
    {v : L.Variable kind} (hv : τ kind v = none) : σ kind v = none := by
  cases hσ : σ kind v with
  | none => rfl
  | some value =>
    rw [h kind v value hσ] at hv
    cases hv

theorem Extends.or_eq {σ τ : L.Assignment} (h : Extends σ τ) (kind : VariableKind) :
    (fun v => (σ kind v).or (τ kind v)) = τ kind := by
  funext v
  cases hσ : σ kind v with
  | none => rfl
  | some value =>
    rw [h kind v value hσ]
    rfl

variable (hL : L.Lawful)
include hL

theorem replaceAll_of_not_mem {kind : VariableKind} {σ : L.Variable kind → Option (L.Domain kind)}
    {ty : L.Ty} (h : ∀ v ∈ L.collectAll kind ty, σ v = none) :
    L.replaceAll kind σ ty = ty := by
  rw [hL.replaceAll_congr kind σ (fun _ => none) ty h]
  exact hL.replaceAll_none kind ty

/-- Variables that the assignment does not replace are left alone. -/
theorem substitute_of_not_mem {σ : L.Assignment} {ty : L.Ty}
    (h : ∀ kind, ∀ v ∈ L.collectAll kind ty, σ kind v = none) :
    substitute σ ty = ty := by
  unfold substitute
  rw [replaceAll_of_not_mem hL (h .typeVar), replaceAll_of_not_mem hL (h .paramSpec),
    replaceAll_of_not_mem hL (h .typeVarTuple)]

/-- **One substitution after another**: what an extension replaces later it may replace at once,
    as long as no value mentions a replaced variable. -/
theorem substitute_substitute {σ τ : L.Assignment} (hext : Extends σ τ) (havoid : Avoids τ τ)
    (ty : L.Ty) : substitute τ (substitute σ ty) = substitute τ ty := by
  have havoidσ : Avoids σ τ := fun kind v value h => havoid kind v value (hext kind v value h)
  have havoidτ : Avoids τ σ := fun kind v value h kind' u hu =>
    hext.none_of_none (havoid kind v value h kind' u hu)
  -- the replacements of `τ` move inwards past those of `σ` of the other kinds
  have hswap : ∀ kind kind' ty, kind ≠ kind' →
      L.replaceAll kind' (τ kind') (L.replaceAll kind (σ kind) ty) =
        L.replaceAll kind (σ kind) (L.replaceAll kind' (τ kind') ty) :=
    fun kind kind' ty hne => hL.replaceAll_comm kind kind' _ _ ty hne
      (fun v value h => havoidσ kind v value h kind')
      (fun v value h => havoidτ kind' v value h kind)
  have hmerge : ∀ kind ty, L.replaceAll kind (τ kind)
      (L.replaceAll kind (σ kind) ty) = L.replaceAll kind (τ kind) ty := by
    intro kind ty
    rw [hL.replaceAll_replaceAll kind _ _ ty
      (fun v value h => havoidσ kind v value h kind), hext.or_eq kind]
  unfold substitute
  rw [hswap .typeVarTuple .typeVar _ (by decide), hswap .paramSpec .typeVar _ (by decide),
    hmerge .typeVar, hswap .typeVarTuple .paramSpec _ (by decide), hmerge .paramSpec,
    hmerge .typeVarTuple]

/-- No variable of the result is one that the assignment replaces. -/
theorem collectAll_substitute_none {σ : L.Assignment} (havoid : Avoids σ σ) {ty : L.Ty}
    {kind : VariableKind} {u : L.Variable kind}
    (hu : u ∈ L.collectAll kind (substitute σ ty)) : σ kind u = none := by
  have hvalue : ∀ kind' (v : L.Variable kind') value, σ kind' v = some value →
      u ∈ L.collectAll kind (L.toType kind' value) → σ kind u = none :=
    fun kind' v value h hmem => havoid kind' v value h kind u hmem
  have hself : ∀ ty, u ∈ L.collectAll kind (L.replaceAll kind (σ kind) ty) →
      σ kind u = none := by
    intro ty h
    rcases hL.collectAll_replaceAll_self _ _ _ _ h with h | ⟨v, value, hv, hmem⟩
    · exact h
    · exact hvalue kind v value hv hmem
  unfold substitute at hu
  cases kind with
  | typeVarTuple => exact hself _ hu
  | paramSpec =>
    rcases hL.collectAll_replaceAll _ _ _ _ _ hu with hu | ⟨v, value, hv, hmem⟩
    · exact hself _ hu
    · exact hvalue _ v value hv hmem
  | typeVar =>
    rcases hL.collectAll_replaceAll _ _ _ _ _ hu with hu | ⟨v, value, hv, hmem⟩
    · rcases hL.collectAll_replaceAll _ _ _ _ _ hu with hu | ⟨v, value, hv, hmem⟩
      · exact hself _ hu
      · exact hvalue _ v value hv hmem
    · exact hvalue _ v value hv hmem

theorem substitute_callable (σ : L.Assignment) (parameters : L.Parameters) :
    ∃ parameters', substitute σ (L.callable parameters) = L.callable parameters' := by
  unfold substitute
  obtain ⟨first, hfirst⟩ := hL.replaceAll_callable .typeVar (σ .typeVar) parameters
  obtain ⟨second, hsecond⟩ := hL.replaceAll_callable .paramSpec (σ .paramSpec) first
  rw [hfirst, hsecond]
  exact hL.replaceAll_callable .typeVarTuple (σ .typeVarTuple) second

theorem substitute_tuple (σ : L.Assignment) (orderedTypes : L.OrderedTypes) :
    ∃ orderedTypes', substitute σ (L.tuple orderedTypes) = L.tuple orderedTypes' := by
  unfold substitute
  obtain ⟨first, hfirst⟩ := hL.replaceAll_tuple .typeVar (σ .typeVar) orderedTypes
  obtain ⟨second, hsecond⟩ := hL.replaceAll_tuple .paramSpec (σ .paramSpec) first
  rw [hfirst, hsecond]
  exact hL.replaceAll_tuple .typeVarTuple (σ .typeVarTuple) second

/-- A variable with a value becomes that value. -/
theorem substitute_selfType {σ : L.Assignment} (havoid : Avoids σ σ) {kind : VariableKind}
    {v : L.Variable kind} {value : L.Domain kind} (hv : σ kind v = some value) :
    substitute σ (L.selfType kind v) = L.toType kind value := by
  have hother : ∀ kind', kind ≠ kind' →
      L.replaceAll kind' (σ kind') (L.selfType kind v) = L.selfType kind v := by
    intro kind' hne
    refine replaceAll_of_not_mem hL fun u hu => ?_
    rw [hL.collectAll_selfType_of_ne kind kind' v hne] at hu
    cases hu
  have hvalue : ∀ kind', L.replaceAll kind' (σ kind') (L.toType kind value) =
      L.toType kind value :=
    fun kind' => replaceAll_of_not_mem hL fun u hu => havoid kind v value hv kind' u hu
  have hself : L.replaceAll kind (σ kind) (L.selfType kind v) = L.toType kind value :=
    hL.replaceAll_selfType kind (σ kind) v value hv
  unfold substitute
  cases kind with
  | typeVar => rw [hself, hvalue, hvalue]
  | paramSpec => rw [hother .typeVar (by decide), hself, hvalue]
  | typeVarTuple => rw [hother .typeVar (by decide), hother .paramSpec (by decide), hself]

/-- A variable without a value stays. -/
theorem substitute_selfType_of_none {σ : L.Assignment} {kind : VariableKind} {v : L.Variable kind}
    (hv : σ kind v = none) : substitute σ (L.selfType kind v) = L.selfType kind v := by
  refine substitute_of_not_mem hL fun kind' u hu => ?_
  by_cases hkind : kind = kind'
  · subst hkind
    rw [hL.collectAll_selfType, List.mem_singleton] at hu
    rw [hu, hv]
  · rw [hL.collectAll_selfType_of_ne kind kind' v hkind] at hu
    cases hu

end Substitution

end TypeLanguage

/-! ## 4. The order -/

/-- The order that the solver takes. -/
structure TypeOrder (L : TypeLanguage) where
  alwaysLessOrEqual : L.Ty → L.Ty → Bool
  meet : L.Ty → L.Ty → L.Ty
  join : L.Ty → L.Ty → L.Ty

namespace TypeOrder

variable {L : TypeLanguage}

/-- A preorder stable under substitution, with joins, meets, a least and a greatest type. A join and
    a meet mention no variable of their own. -/
structure Lawful (O : TypeOrder L) : Prop where
  refl : ∀ a, O.alwaysLessOrEqual a a = true
  trans : ∀ a b c, O.alwaysLessOrEqual a b = true → O.alwaysLessOrEqual b c = true →
    O.alwaysLessOrEqual a c = true
  replaceAll : ∀ kind σ a b, O.alwaysLessOrEqual a b = true →
    O.alwaysLessOrEqual (L.replaceAll kind σ a) (L.replaceAll kind σ b) = true
  bottom_le : ∀ a, O.alwaysLessOrEqual L.bottom a = true
  le_top : ∀ a, O.alwaysLessOrEqual a L.top = true
  le_join_left : ∀ a b, O.alwaysLessOrEqual a (O.join a b) = true
  le_join_right : ∀ a b, O.alwaysLessOrEqual b (O.join a b) = true
  join_le : ∀ a b c, O.alwaysLessOrEqual a c = true → O.alwaysLessOrEqual b c = true →
    O.alwaysLessOrEqual (O.join a b) c = true
  meet_le_left : ∀ a b, O.alwaysLessOrEqual (O.meet a b) a = true
  meet_le_right : ∀ a b, O.alwaysLessOrEqual (O.meet a b) b = true
  le_meet : ∀ a b c, O.alwaysLessOrEqual c a = true → O.alwaysLessOrEqual c b = true →
    O.alwaysLessOrEqual c (O.meet a b) = true
  collectAll_join : ∀ kind a b, ∀ u ∈ L.collectAll kind (O.join a b),
    u ∈ L.collectAll kind a ∨ u ∈ L.collectAll kind b
  collectAll_meet : ∀ kind a b, ∀ u ∈ L.collectAll kind (O.meet a b),
    u ∈ L.collectAll kind a ∨ u ∈ L.collectAll kind b

theorem Lawful.substitute {O : TypeOrder L} (hO : O.Lawful) (σ : L.Assignment) {a b : L.Ty}
    (h : O.alwaysLessOrEqual a b = true) :
    O.alwaysLessOrEqual (TypeLanguage.substitute σ a) (TypeLanguage.substitute σ b) = true :=
  hO.replaceAll _ _ _ _ (hO.replaceAll _ _ _ _ (hO.replaceAll _ _ _ _ h))

end TypeOrder

end TypeConstraints
end Pysa
