/-
  Subject: ADDING TRANSFORMS TO A KIND (`taintTransformOperation.ml`).

  The operations are those of the functor `Make`; its argument is the structure `KindArg`, with the
  instances `source` and `sink`. A result `none` means that the taint is dropped, an error is a
  `failwith`.

  * `prependNameTransform` -- a named transform, kept only if a rule can still match;
  * `prependSanitizeTransforms` -- sanitizers, dropped where they change nothing;
  * `addTransforms` -- a list of transforms, in the order of the kind;
  * `applyTransforms`, `applySanitizeTransforms` -- the same on a kind.
-/
import Pysa.Taint.SourceSinkFilter

namespace Pysa.Taint

inductive InsertLocation where
  | front
  | back
  deriving DecidableEq

inductive KindTransforms (T : Type) where
  | nonTransformable (kind : T)
  | base (base : T)
  | transformed (localPart globalPart : TaintTransforms) (base : T)

/-- What the operations need of a kind. -/
structure KindArg (T : Type) where
  deconstruct : T → KindTransforms T
  order : TaintTransforms.Order
  preserveSanitizeSources : T → Bool
  preserveSanitizeSinks : T → Bool
  isTito : T → Bool
  baseAsSanitizer : T → Option SanitizeTransform
  makeTransform : TaintTransforms → TaintTransforms → T → T
  matchingSanitizeTransforms :
    SourceSinkFilter → TaintTransforms → T → Option MatchingSanitizeTransforms

namespace KindArg

variable {T : Type} (K : KindArg T) (filter : SourceSinkFilter) (base : T)

/-! ## 1. Named transforms -/

def prependNameTransform (namedTransforms transforms : TaintTransforms)
    (namedTransform : TaintTransform) : Option TaintTransforms :=
  let namedTransforms := namedTransform :: namedTransforms
  let shouldKeep :=
    if K.isTito base then decide (namedTransforms ∈ filter.possibleTitoTransforms)
    else (K.matchingSanitizeTransforms filter namedTransforms base).isSome
  if !shouldKeep then none
  else
    -- sanitizers in front of a named transform are no longer valid, except on tito
    let transforms :=
      if !K.isTito base then transforms.splitSanitizers.2 else transforms
    some (namedTransform :: transforms)

/-! ## 2. Sanitizers -/

def preserveSanitizers (sanitizers : SanitizeTransformSet) : SanitizeTransformSet :=
  let sanitizers :=
    if !K.preserveSanitizeSources base then { sanitizers with sources := .empty } else sanitizers
  if !K.preserveSanitizeSinks base then { sanitizers with sinks := .empty } else sanitizers

/-- Whether the kind can still match a rule with the new sanitizers. -/
def shouldKeepSanitized (matchingKinds : Option MatchingSanitizeTransforms)
    (sanitizers globalSanitizers : SanitizeTransformSet) : Bool :=
  if K.isTito base then true
  else
    match matchingKinds with
    | none => false
    | some ⟨_, false⟩ => true
    | some ⟨matchingTransforms, true⟩ =>
      !matchingTransforms.lessOrEqual (sanitizers.join globalSanitizers)

def prependSanitizeTransforms (namedTransforms : TaintTransforms)
    (globalSanitizers : SanitizeTransformSet) (transforms : TaintTransforms)
    (sanitizers : SanitizeTransformSet) : Option TaintTransforms :=
  if sanitizers.sources.isAll then none
  else if sanitizers.sinks.isAll then none
  else if namedTransforms.isEmpty && (K.baseAsSanitizer base).any sanitizers.mem then none
  else
    let sanitizers := K.preserveSanitizers base sanitizers
    -- the sanitizers of the global part need not be repeated
    let sanitizers := sanitizers.diff globalSanitizers
    if sanitizers.isEmpty then some transforms
    else
      let matchingKinds :=
        if !K.isTito base then K.matchingSanitizeTransforms filter namedTransforms base else none
      let sanitizers :=
        match matchingKinds with
        | some matching => matching.transforms.meet sanitizers
        | none => sanitizers
      if sanitizers.isEmpty then some transforms
      else
        let (existingSanitizers, rest) := transforms.splitSanitizers
        let sanitizers := sanitizers.join existingSanitizers
        if K.shouldKeepSanitized base matchingKinds sanitizers globalSanitizers then
          some (.sanitize sanitizers :: rest)
        else none

def addSanitizeTransformsInternal (namedTransforms : TaintTransforms)
    (globalSanitizers : SanitizeTransformSet) (insertLocation : InsertLocation)
    (transforms : TaintTransforms) (sanitizers : SanitizeTransformSet) :
    Except String (Option TaintTransforms) :=
  match insertLocation with
  | .front =>
    .ok (K.prependSanitizeTransforms filter base namedTransforms globalSanitizers transforms
      sanitizers)
  | .back =>
    if globalSanitizers.isEmpty then
      .ok ((K.prependSanitizeTransforms filter base namedTransforms globalSanitizers
        transforms.reverse sanitizers).map List.reverse)
    else .error "Unable to insert sanitizers in the back when there exist global sanitizers"

def getGlobalSanitizers (localPart globalPart : TaintTransforms) : SanitizeTransformSet :=
  if localPart.any TaintTransform.isNamedTransform then .empty
  else globalPart.splitSanitizers.1

def getNamedTransforms (localPart globalPart : TaintTransforms) : TaintTransforms :=
  localPart.getNamedTransforms ++ globalPart.getNamedTransforms

/-! ## 3. Lists of transforms -/

structure AddTransformResult where
  /-- `none` is a sanitized taint. -/
  transforms : Option TaintTransforms
  namedTransforms : TaintTransforms
  globalSanitizers : SanitizeTransformSet

def addTransform (namedTransforms : TaintTransforms) (globalSanitizers : SanitizeTransformSet)
    (insertLocation : InsertLocation) (transforms : TaintTransforms) :
    TaintTransform → Except String AddTransformResult
  | .named name =>
    .ok {
      transforms := K.prependNameTransform filter base namedTransforms transforms (.named name)
      namedTransforms := .named name :: namedTransforms
      globalSanitizers := .empty }
  | .sanitize sanitizers => do
    let transforms ← K.addSanitizeTransformsInternal filter base namedTransforms globalSanitizers
      insertLocation transforms sanitizers
    return { transforms, namedTransforms, globalSanitizers }
  | .triggeredPartialSink triggeringSource =>
    .error ("Triggered[" ++ triggeringSource ++
      "] can only be added when creating triggered partial sinks")

/-- From the left: the first transform to add is applied first. -/
def addFromLeft (insertLocation : InsertLocation) (sofar : AddTransformResult) :
    TaintTransforms → Except String AddTransformResult
  | [] => .ok sofar
  | head :: tail =>
    match sofar.transforms with
    | none => .ok sofar
    | some transforms => do
      let sofar ← K.addTransform filter base sofar.namedTransforms sofar.globalSanitizers
        insertLocation transforms head
      addFromLeft insertLocation sofar tail

/-- From the right: the last transform to add is applied first. -/
def addFromRight (insertLocation : InsertLocation) (sofar : AddTransformResult) :
    TaintTransforms → Except String AddTransformResult
  | [] => .ok sofar
  | head :: tail => do
    let sofar ← addFromRight insertLocation sofar tail
    match sofar.transforms with
    | none => return sofar
    | some transforms =>
      K.addTransform filter base sofar.namedTransforms sofar.globalSanitizers insertLocation
        transforms head

def addBackwardIntoForwardTransforms (localPart globalPart : TaintTransforms)
    (insertLocation : InsertLocation) (toAdd : TaintTransforms) :
    Except String (Option TaintTransforms) := do
  let result ← K.addFromLeft filter base insertLocation
    ⟨some localPart, getNamedTransforms localPart globalPart,
      getGlobalSanitizers localPart globalPart⟩ toAdd
  return result.transforms

def addBackwardIntoBackwardTransforms (localPart globalPart : TaintTransforms)
    (insertLocation : InsertLocation) (toAdd : TaintTransforms) :
    Except String (Option TaintTransforms) := do
  let result ← K.addFromRight filter base insertLocation
    ⟨some localPart, getNamedTransforms localPart globalPart,
      getGlobalSanitizers localPart globalPart⟩ toAdd
  return result.transforms

def addTransforms (localPart globalPart : TaintTransforms) (order : TaintTransforms.Order)
    (insertLocation : InsertLocation) (toAdd : TaintTransforms)
    (toAddOrder : TaintTransforms.Order) : Except String (Option TaintTransforms) :=
  match order, toAddOrder with
  | .forward, .backward =>
    K.addBackwardIntoForwardTransforms filter base localPart globalPart insertLocation toAdd
  | .backward, .backward =>
    K.addBackwardIntoBackwardTransforms filter base localPart globalPart insertLocation toAdd
  | _, _ =>
    .error ("unsupported: add_transforms ~order:" ++ order.show ++ " ~to_add_order:" ++
      toAddOrder.show)

def addSanitizeTransforms (localPart globalPart : TaintTransforms)
    (insertLocation : InsertLocation) (sanitizers : SanitizeTransformSet) :
    Except String (Option TaintTransforms) :=
  K.addSanitizeTransformsInternal filter base (getNamedTransforms localPart globalPart)
    (getGlobalSanitizers localPart globalPart) insertLocation localPart sanitizers

def ofSanitizeTransforms (sanitizers : SanitizeTransformSet) : Option TaintTransforms :=
  K.prependSanitizeTransforms filter base [] .empty [] sanitizers

/-! ## 4. Kinds -/

def applySanitizeTransforms (transforms : SanitizeTransformSet) (insertLocation : InsertLocation)
    (kind : T) : Except String (Option T) :=
  match K.deconstruct kind with
  | .nonTransformable kind => .ok (some kind)
  | .base base =>
    .ok ((K.ofSanitizeTransforms filter base transforms).map fun localPart =>
      K.makeTransform localPart [] base)
  | .transformed localPart globalPart base => do
    let result ← K.addSanitizeTransforms filter base localPart globalPart insertLocation transforms
    return result.map fun localPart => K.makeTransform localPart globalPart base

def applyTransforms (transforms : TaintTransforms) (insertLocation : InsertLocation)
    (order : TaintTransforms.Order) (kind : T) : Except String (Option T) :=
  match K.deconstruct kind with
  | .nonTransformable kind => .ok (some kind)
  | .base base => do
    let result ← K.addTransforms filter base [] [] K.order insertLocation transforms order
    return result.map fun localPart => K.makeTransform localPart [] base
  | .transformed localPart globalPart base => do
    let result ← K.addTransforms filter base localPart globalPart K.order insertLocation
      transforms order
    return result.map fun localPart => K.makeTransform localPart globalPart base

end KindArg

/-! ## 5. Sources and sinks -/

namespace Source

def baseAsSanitizer : Source → Option SanitizeTransform
  | namedSource name | parametricSource name _ => some (.source (.named name))
  | transform _ _ base => baseAsSanitizer base
  | attach => none

def kindArg : KindArg Source where
  deconstruct
    | attach => .nonTransformable attach
    | namedSource name => .base (namedSource name)
    | parametricSource sourceName subkind => .base (parametricSource sourceName subkind)
    | transform localPart globalPart base => .transformed localPart globalPart base
  order := .forward
  preserveSanitizeSources _ := false
  preserveSanitizeSinks _ := true
  isTito _ := false
  baseAsSanitizer := baseAsSanitizer
  makeTransform := makeTransform
  matchingSanitizeTransforms := SourceSinkFilter.findMatchingSinkSanitizeTransforms

end Source

namespace Sink

def isTito : Sink → Bool
  | localReturn | parameterUpdate _ => true
  | transform _ _ base => isTito base
  | _ => false

def baseAsSanitizer : Sink → Option SanitizeTransform
  | namedSink name | parametricSink name _ => some (.sink (.named name))
  | transform _ _ base => baseAsSanitizer base
  | _ => none

def kindArg : KindArg Sink where
  deconstruct
    | attach => .nonTransformable attach
    | addFeatureToArgument => .nonTransformable addFeatureToArgument
    | transform localPart globalPart base => .transformed localPart globalPart base
    | sink => .base sink
  order := .backward
  preserveSanitizeSources _ := true
  preserveSanitizeSinks := isTito
  isTito := isTito
  baseAsSanitizer := baseAsSanitizer
  makeTransform := makeTransform
  matchingSanitizeTransforms := SourceSinkFilter.findMatchingSourceSanitizeTransforms

end Sink

end Pysa.Taint
