/-
  Subject: WHAT PYTHON DOES WITH THE ARGUMENTS OF A CALL. This is the reference that the matching
    of the analysis is compared with; it is not translated from the analyser.

  * `Signature` -- the parameters of a function in their legal order, with distinct names;
  * `Actual` -- the arguments of a call;
  * `Expansion` -- how many elements the starred arguments have at run time, and which keys the
    double-starred ones;
  * `bindArguments` -- the binding of values to parameters; it fails where Python raises `TypeError`;
  * `storeArguments` -- the same binding, with the place where the callee finds each value.
-/
import Pysa.Interprocedural.AccessPath

namespace Pysa

universe u

namespace Python

/-! ## 1. Signatures -/

structure Param (E : Type u) where
  name : Identifier.Name
  default : Option E

/-- `def f(positionalOnly, /, positional, *varargs, keywordOnly, **kwargs)`. -/
structure Signature (E : Type u) where
  positionalOnly : List (Param E)
  positional : List (Param E)
  varargs : Option Identifier.Name
  keywordOnly : List (Param E)
  kwargs : Option Identifier.Name
  nodup : (((positionalOnly ++ positional ++ keywordOnly).map (·.name)) ++ varargs.toList ++
    kwargs.toList).Nodup

namespace Signature

variable {E : Type u} (signature : Signature E)

/-- The parameters that values are bound to by position. -/
def byPosition : List (Param E) := signature.positionalOnly ++ signature.positional

/-- The parameters that values are bound to by name. -/
def byName : List (Param E) := signature.positional ++ signature.keywordOnly

/-- The parameters without stars. -/
def params : List (Param E) := signature.byPosition ++ signature.keywordOnly

/-- A name as it stands in the syntax tree: qualification marks the names of parameters. -/
def nameInTree (qualified : Bool) (name : Identifier.Name) : Identifier :=
  if qualified then Root.prependParameterPrefix name.text else name.text

def toParameter (qualified : Bool) (param : Param E) : Parameter E :=
  ⟨nameInTree qualified param.name, param.default⟩

/-- The parameters of the syntax tree. A bare star stands before keyword-only parameters when no
    other star does. -/
def toParameters (qualified : Bool) : List (Parameter E) :=
  signature.positionalOnly.map (toParameter qualified) ++
    (if signature.positionalOnly.isEmpty then [] else [⟨"/", none⟩]) ++
    signature.positional.map (toParameter qualified) ++
    (match signature.varargs with
      | some name => [⟨"*" ++ nameInTree qualified name, none⟩]
      | none => if signature.keywordOnly.isEmpty then [] else [⟨"*", none⟩]) ++
    signature.keywordOnly.map (toParameter qualified) ++
    (match signature.kwargs with
      | some name => [⟨"**" ++ nameInTree qualified name, none⟩]
      | none => [])

end Signature

/-! ## 2. Calls -/

inductive Actual (E : Type u) where
  | positional (value : E)
  | keyword (name : Identifier.Name) (value : E)
  | starred (value : E)
  | doubleStarred (value : E)

def Actual.toArgument {E : Type u} (qualified : Bool) : Actual E → Argument E
  | positional value => ⟨none, .other value⟩
  | keyword name value => ⟨some (Signature.nameInTree qualified name), .other value⟩
  | starred value => ⟨none, .starred (.once value)⟩
  | doubleStarred value => ⟨none, .starred (.twice value)⟩

/-- What the `i`-th argument turns out to be: the number of its elements if it is starred, its keys
    if it is double-starred. -/
structure Expansion where
  count : Nat → Nat
  keys : Nat → List Identifier

variable {E : Type u}

/-- The values that are passed by position, each as the index of the argument it comes from. -/
def positionalValues (expansion : Expansion) : Nat → List (Actual E) → List Nat
  | _, [] => []
  | i, .positional _ :: rest => i :: positionalValues expansion (i + 1) rest
  | i, .starred _ :: rest =>
    List.replicate (expansion.count i) i ++ positionalValues expansion (i + 1) rest
  | i, _ :: rest => positionalValues expansion (i + 1) rest

/-- The values that are passed by name. -/
def namedValues (expansion : Expansion) : Nat → List (Actual E) → List (Identifier × Nat)
  | _, [] => []
  | i, .keyword name _ :: rest => (name.text, i) :: namedValues expansion (i + 1) rest
  | i, .doubleStarred _ :: rest =>
    (expansion.keys i).map (·, i) ++ namedValues expansion (i + 1) rest
  | i, _ :: rest => namedValues expansion (i + 1) rest

/-! ## 3. Binding -/

section Bind

variable {V : Type} (signature : Signature E)

/-- The values behind the last parameter that is bound by position. -/
def bindExtra (extra : List V) : Option (List (Identifier × V)) :=
  match signature.varargs with
  | some varargs => some (extra.map (varargs.text, ·))
  | none => if extra.isEmpty then some [] else none

/-- Where a value that is passed by name goes. -/
def bindNamed (bound : List (Identifier × V)) (named : Identifier × V) :
    Option (Identifier × V) :=
  if named.1 ∈ signature.byName.map (·.name.text) then
    -- the parameter got its value by position already
    if named.1 ∈ bound.map Prod.fst then none else some named
  else signature.kwargs.map fun kwargs => (kwargs.text, named.2)

/-- The values of the parameters; the starred ones have any number of values. -/
def bindArguments (positional : List V) (named : List (Identifier × V)) :
    Option (List (Identifier × V)) := do
  let bound := (signature.byPosition.map (·.name.text)).zip positional
  let rest ← bindExtra signature (positional.drop signature.byPosition.length)
  guard (named.map Prod.fst).Nodup
  let byName ← named.mapM (bindNamed signature bound)
  let bindings := bound ++ rest ++ byName
  guard (∀ param ∈ signature.params,
    param.default.isSome ∨ param.name.text ∈ bindings.map Prod.fst)
  return bindings

end Bind

/-- The values that a call binds, from the arguments they come from. -/
def call (signature : Signature E) (actuals : List (Actual E)) (expansion : Expansion) :
    Option (List (Identifier × Nat)) :=
  bindArguments signature (positionalValues expansion 0 actuals) (namedValues expansion 0 actuals)

/-! ## 4. Storing -/

/-- Where a value is in the callee: it is the parameter, an element of the tuple `*args`, or an
    entry of the dictionary `**kwargs`. -/
inductive Slot where
  | whole
  | element (index : Nat)
  | entry (key : Identifier)
  deriving DecidableEq

/-- The slot as a path inside the parameter. -/
def Slot.path : Slot → List Label
  | whole => []
  | element index => [.index (toString index)]
  | entry key => [.index key]

structure Binding (V : Type) where
  formal : Identifier
  slot : Slot
  value : V
  deriving DecidableEq

def Binding.forget {V : Type} (binding : Binding V) : Identifier × V :=
  (binding.formal, binding.value)

section Store

variable {V : Type} (signature : Signature E)

/-- The first values, one for each parameter that is bound by position. -/
def storeFirst (positional : List V) : List (Binding V) :=
  ((signature.byPosition.map (·.name.text)).zip positional).map fun (formal, value) =>
    ⟨formal, .whole, value⟩

def storeExtra (extra : List V) : Option (List (Binding V)) :=
  match signature.varargs with
  | some varargs =>
    some (extra.zipIdx.map fun (value, index) => ⟨varargs.text, .element index, value⟩)
  | none => if extra.isEmpty then some [] else none

def storeNamed (bound : List (Binding V)) (named : Identifier × V) : Option (Binding V) :=
  if named.1 ∈ signature.byName.map (·.name.text) then
    if named.1 ∈ bound.map Binding.formal then none else some ⟨named.1, .whole, named.2⟩
  else signature.kwargs.map fun kwargs => ⟨kwargs.text, .entry named.1, named.2⟩

def storeArguments (positional : List V) (named : List (Identifier × V)) :
    Option (List (Binding V)) := do
  let bound := storeFirst signature positional
  let rest ← storeExtra signature (positional.drop signature.byPosition.length)
  guard (named.map Prod.fst).Nodup
  let byName ← named.mapM (storeNamed signature bound)
  let bindings := bound ++ rest ++ byName
  guard (∀ param ∈ signature.params,
    param.default.isSome ∨ param.name.text ∈ bindings.map Binding.formal)
  return bindings

variable {signature}

theorem storeFirst_forget (positional : List V) :
    (storeFirst signature positional).map Binding.forget =
      (signature.byPosition.map (·.name.text)).zip positional := by
  rw [storeFirst, List.map_map]
  exact List.map_id _

theorem storeExtra_forget (extra : List V) :
    (storeExtra signature extra).map (·.map Binding.forget) = bindExtra signature extra := by
  unfold storeExtra bindExtra
  cases signature.varargs with
  | none =>
    dsimp only
    split <;> rfl
  | some varargs =>
    refine congrArg some (List.map_map.trans ?_)
    calc extra.zipIdx.map (fun entry => (varargs.text, entry.1))
        = (extra.zipIdx.map Prod.fst).map (varargs.text, ·) := by rw [List.map_map]; rfl
      _ = extra.map (varargs.text, ·) := by rw [List.zipIdx_map_fst]

theorem map_formal (bindings : List (Binding V)) :
    (bindings.map Binding.forget).map Prod.fst = bindings.map Binding.formal := List.map_map

theorem storeNamed_forget (bound : List (Binding V)) (named : Identifier × V) :
    (storeNamed signature bound named).map Binding.forget =
      bindNamed signature (bound.map Binding.forget) named := by
  unfold storeNamed bindNamed
  rw [map_formal]
  split
  · split <;> rfl
  · rw [Option.map_map]
    rfl

theorem mapM_storeNamed_forget (bound : List (Binding V)) (named : List (Identifier × V)) :
    (named.mapM (storeNamed signature bound)).map (·.map Binding.forget) =
      named.mapM (bindNamed signature (bound.map Binding.forget)) := by
  induction named with
  | nil => rfl
  | cons first rest ih =>
    rw [List.mapM_cons, List.mapM_cons, ← ih, ← storeNamed_forget]
    cases storeNamed signature bound first with
    | none => rfl
    | some binding => cases rest.mapM (storeNamed signature bound) <;> rfl

/-- Storing is binding, with the slots. -/
theorem storeArguments_forget (positional : List V) (named : List (Identifier × V)) :
    (storeArguments signature positional named).map (·.map Binding.forget) =
      bindArguments signature positional named := by
  unfold storeArguments bindArguments
  dsimp only
  rw [← storeExtra_forget, ← storeFirst_forget, ← mapM_storeNamed_forget]
  cases storeExtra signature (positional.drop signature.byPosition.length) with
  | none => rfl
  | some rest =>
    by_cases hnodup : (named.map Prod.fst).Nodup
    · cases hnamed : named.mapM (storeNamed signature (storeFirst signature positional)) with
      | none => simp [hnodup, guard]
      | some byName =>
        have hformal : (storeFirst signature positional).map Binding.forget ++
            rest.map Binding.forget ++ byName.map Binding.forget =
            (storeFirst signature positional ++ rest ++ byName).map Binding.forget := by
          rw [List.map_append, List.map_append]
        simp only [hnodup, guard, Option.map_some, Option.bind_eq_bind,
          Option.bind_some, if_true, Option.pure_def, hformal, map_formal]
        split <;> rfl
    · simp [hnodup, guard]

end Store

/-- What a call stores, from the arguments the values come from. -/
def store (signature : Signature E) (actuals : List (Actual E)) (expansion : Expansion) :
    Option (List (Binding Nat)) :=
  storeArguments signature (positionalValues expansion 0 actuals) (namedValues expansion 0 actuals)

end Python

end Pysa
