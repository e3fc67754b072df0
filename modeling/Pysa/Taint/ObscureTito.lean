/-
  Subject: THE TAINT THAT AN OBSCURE CALL PASSES ON (`callModel.ml`,
    `taint_in_taint_out_mapping_for_argument`).

  * `titoSanitizeOfArgument` -- the sanitizers of the four places that apply to an argument, joined;
  * `taintInTaintOutMapping` -- the tito of an argument by kind; an error is an exception;
  * `applySanitizeTransforms_tito` -- sanitizing a tito kind gives a kind, unless all sources or all
    sinks are sanitized;
  * `taintInTaintOutMapping_ok_iff` -- **an obscure call returns exactly if its sanitizers sanitize
    all sources and all sinks, or neither**: the case of one of them is not told apart.
-/
import Pysa.Taint.SanitizeOrder

namespace Pysa.Taint

/-! ## 1. Sanitizers in models -/

def SanitizeTransformSet.isAll (set : SanitizeTransformSet) : Bool :=
  set.sources.isAll && set.sinks.isAll

structure Sanitize where
  sources : SanitizeSet SanitizeTransform.Source
  sinks : SanitizeSet SanitizeTransform.Sink
  tito : SanitizeTransformSet

namespace Sanitize

def empty : Sanitize := ⟨.empty, .empty, .empty⟩

def toTitoSanitize (sanitize : Sanitize) : SanitizeTransformSet :=
  sanitize.tito.join ⟨sanitize.sources, sanitize.sinks⟩

/-- All sources are sanitized, on the way in or on the way through. -/
def allSources (sanitize : Sanitize) : Bool :=
  sanitize.sources.isAll || sanitize.tito.sources.isAll

def allSinks (sanitize : Sanitize) : Bool := sanitize.sinks.isAll || sanitize.tito.sinks.isAll

end Sanitize

inductive Mode where
  | obscure
  | skipObscure
  | skipAnalysis
  | skipOverrides
  | analyzeAllOverrides
  | entrypoint
  | ignoreDecorator
  | skipModelBroadening
  | inferSelfTito
  | inferArgumentTito
  | calledWhenParameter
  | skipInliningHigherOrderFunctions
  | skipCallHigherOrderFunctions
  deriving DecidableEq

structure Sanitizers where
  global : Sanitize
  parameters : Sanitize
  /-- `Sanitize.RootMap.get`: a root without sanitizers has the empty ones. -/
  roots : Root → Sanitize

section Mapping

variable {Tree Breadcrumbs : Type}

/-- The operations of `BackwardState.Tree` that are used; the trees themselves are not looked at. -/
structure TreeOperations (Tree Breadcrumbs : Type) where
  prepend : List Label → Tree → Tree
  /-- `partition` by kind. -/
  partition : Tree → Sink → Option Tree
  join : Tree → Tree → Tree
  limitTo : ℕ → Tree → Tree
  joinedBreadcrumbs : Tree → Breadcrumbs
  emptyBreadcrumbs : Breadcrumbs
  /-- With `Features.obscure_model`. -/
  addObscureModel : Breadcrumbs → Breadcrumbs
  createTitoTree : Breadcrumbs → Sink → Tree

structure ObscureModel (Tree : Type) where
  sanitizers : Sanitizers
  modes : Finset Mode
  /-- `BackwardState.read` of `backward.taint_in_taint_out`. -/
  readTito : Root → List Label → Tree

structure Callable where
  isMethodOrOverride : Bool
  methodName : String
  isDecorated : Bool
  isPropertySetter : Bool

def treatTitoReturnAsSelfUpdate (callable : Callable) : Bool :=
  callable.isMethodOrOverride &&
    (callable.methodName == "__init__" || callable.methodName == "__setitem__" ||
      !callable.isDecorated && callable.isPropertySetter)

/-! ## 2. The mapping -/

structure TreeRootsPair (Tree : Type) where
  tree : Tree
  roots : Finset Root

abbrev TaintInTaintOutMap (Tree : Type) := Sink → Option (TreeRootsPair Tree)

namespace TaintInTaintOutMap

def empty : TaintInTaintOutMap Tree := fun _ => none

def join (operations : TreeOperations Tree Breadcrumbs) (left right : TaintInTaintOutMap Tree) :
    TaintInTaintOutMap Tree := fun kind =>
  match left kind, right kind with
  | some left, some right => some ⟨operations.join left.tree right.tree, left.roots ∪ right.roots⟩
  | some left, none => some left
  | none, right => right

def getTree (map : TaintInTaintOutMap Tree) (kind : Sink) : Option Tree :=
  (map kind).map (·.tree)

def setTree (map : TaintInTaintOutMap Tree) (kind : Sink) (titoTree : Tree) :
    TaintInTaintOutMap Tree :=
  let titoInformation :=
    match map kind with
    | some pair => { pair with tree := titoTree }
    | none => ⟨titoTree, ∅⟩
  Function.update map kind (some titoInformation)

def remove (map : TaintInTaintOutMap Tree) (kind : Sink) : TaintInTaintOutMap Tree :=
  Function.update map kind none

end TaintInTaintOutMap

def isLocalReturn : Sink → Bool
  | .localReturn | .transform _ _ .localReturn => true
  | _ => false

def combineTito (operations : TreeOperations Tree Breadcrumbs) (ignoreLocalReturn : Bool)
    (model : ObscureModel Tree) (sofar : TaintInTaintOutMap Tree)
    (argument : ArgumentMatch) : TaintInTaintOutMap Tree :=
  let tree := operations.prepend argument.actualPath
    (model.readTito argument.root argument.formalPath)
  let mappingForPath : TaintInTaintOutMap Tree := fun kind =>
    if kind = .attach || ignoreLocalReturn && isLocalReturn kind then none
    else (operations.partition tree kind).map fun tree => ⟨tree, {argument.root}⟩
  TaintInTaintOutMap.join operations sofar mappingForPath

def titoSanitizeOfArgument (sanitizers : Sanitizers) (sanitizeMatches : List (ArgumentMatch)) :
    SanitizeTransformSet :=
  let sanitize := (sanitizeMatches.map fun argument =>
    (sanitizers.roots argument.root).toTitoSanitize).foldl SanitizeTransformSet.join .empty
  let sanitize := sanitize.join (sanitizers.roots .localResult).toTitoSanitize
  let sanitize := sanitize.join sanitizers.global.toTitoSanitize
  sanitize.join sanitizers.parameters.toTitoSanitize

/-- `Option.value_exn`. -/
def valueExn {X : Type} : Option X → Except String X
  | some value => .ok value
  | none => .error "Option.value_exn None"

/-- The mapping with the tito of an obscure model. -/
def obscureMapping (operations : TreeOperations Tree Breadcrumbs) (filter : SourceSinkFilter)
    (obscureSanitize : SanitizeTransformSet) (outputKind : Sink)
    (mapping : TaintInTaintOutMap Tree) : Except String (TaintInTaintOutMap Tree) :=
  let obscureBreadcrumbs := operations.addObscureModel
    (((mapping.getTree outputKind).map operations.joinedBreadcrumbs).getD
      operations.emptyBreadcrumbs)
  let mapping := mapping.remove outputKind
  if obscureSanitize.isAll then .ok mapping
  else if obscureSanitize.isEmpty then
    .ok (mapping.setTree outputKind (operations.createTitoTree obscureBreadcrumbs outputKind))
  else do
    let sanitized ← Sink.kindArg.applySanitizeTransforms filter obscureSanitize .front outputKind
    let outputKind ← valueExn sanitized
    return mapping.setTree outputKind (operations.createTitoTree obscureBreadcrumbs outputKind)

def taintInTaintOutMapping (operations : TreeOperations Tree Breadcrumbs)
    (filter : SourceSinkFilter) (maximumTitoTreeWidth : ℕ) (ignoreLocalReturn : Bool)
    (model : ObscureModel Tree) (callable : Callable)
    (titoMatches sanitizeMatches : List (ArgumentMatch)) :
    Except String (TaintInTaintOutMap Tree) :=
  let mapping := titoMatches.foldl (combineTito operations ignoreLocalReturn model)
    TaintInTaintOutMap.empty
  let mapping : TaintInTaintOutMap Tree := fun kind => (mapping kind).map fun pair =>
    { pair with tree := operations.limitTo maximumTitoTreeWidth pair.tree }
  let treatObscureAsSelfUpdate := treatTitoReturnAsSelfUpdate callable
  if .obscure ∈ model.modes ∧ (treatObscureAsSelfUpdate || !ignoreLocalReturn) then
    let outputKind : Sink :=
      if treatObscureAsSelfUpdate then .parameterUpdate (.positionalParameter 0 "self" false)
      else .localReturn
    obscureMapping operations filter (titoSanitizeOfArgument model.sanitizers sanitizeMatches)
      outputKind mapping
  else .ok mapping

/-! ## 3. Sanitizing a tito kind -/

theorem SanitizeTransformSet.diff_empty (sanitizers : SanitizeTransformSet) :
    sanitizers.diff .empty = sanitizers := by
  obtain ⟨sources, sinks⟩ := sanitizers
  cases sources <;> cases sinks <;> simp [SanitizeTransformSet.diff, SanitizeTransformSet.empty,
    SanitizeSet.empty, SanitizeSet.diff]

/-- No filter and no base drops the kind: only a set of everything does. -/
theorem prependSanitizeTransforms_tito (filter : SourceSinkFilter) {base : Sink}
    (htito : base.isTito = true) (hbase : base.baseAsSanitizer = none)
    (sanitizers : SanitizeTransformSet) :
    (Sink.kindArg.ofSanitizeTransforms filter base sanitizers).isSome = true ↔
      sanitizers.sources.isAll = false ∧ sanitizers.sinks.isAll = false := by
  have htito' : Sink.kindArg.isTito base = true := htito
  have hpreserve : Sink.kindArg.preserveSanitizers base sanitizers = sanitizers := by
    simp [KindArg.preserveSanitizers, Sink.kindArg, htito]
  have hnone : Sink.kindArg.baseAsSanitizer base = none := hbase
  simp only [KindArg.ofSanitizeTransforms, KindArg.prependSanitizeTransforms, hpreserve, hnone,
    SanitizeTransformSet.diff_empty]
  cases hsources : sanitizers.sources.isAll with
  | true => simp
  | false =>
    cases hsinks : sanitizers.sinks.isAll with
    | true => simp
    | false =>
      simp only [Bool.false_eq_true, if_false, htito', Bool.not_true, Option.any_none,
        Bool.and_false, KindArg.shouldKeepSanitized, if_true, and_self, iff_true]
      split <;> rfl

theorem applySanitizeTransforms_tito (filter : SourceSinkFilter) (sanitizers : SanitizeTransformSet)
    {kind : Sink} (hkind : kind = .localReturn ∨ ∃ root, kind = .parameterUpdate root) :
    (∃ sanitized, Sink.kindArg.applySanitizeTransforms filter sanitizers .front kind =
        .ok (some sanitized)) ↔
      sanitizers.sources.isAll = false ∧ sanitizers.sinks.isAll = false := by
  have hbase : Sink.kindArg.deconstruct kind = .base kind ∧ kind.isTito = true ∧
      kind.baseAsSanitizer = none := by
    rcases hkind with rfl | ⟨root, rfl⟩
    · exact ⟨rfl, rfl, rfl⟩
    · exact ⟨rfl, rfl, rfl⟩
  obtain ⟨hdeconstruct, htito, hnone⟩ := hbase
  rw [← prependSanitizeTransforms_tito filter htito hnone sanitizers]
  simp only [KindArg.applySanitizeTransforms, hdeconstruct, Except.ok.injEq, Option.map_eq_some_iff,
    Option.isSome_iff_exists]
  constructor
  · rintro ⟨_, transforms, htransforms, _⟩
    exact ⟨transforms, htransforms⟩
  · rintro ⟨transforms, htransforms⟩
    exact ⟨_, transforms, htransforms, rfl⟩

/-! ## 4. Which calls return -/

/-- The sanitizers that apply to an argument with these matches. -/
def sanitizePlaces (sanitizers : Sanitizers) (sanitizeMatches : List (ArgumentMatch)) :
    List Sanitize :=
  sanitizeMatches.map (fun argument => sanitizers.roots argument.root) ++
    [sanitizers.roots .localResult, sanitizers.global, sanitizers.parameters]

theorem foldl_join_of_or {side : SanitizeTransformSet → Bool}
    (hjoin : ∀ left right, side (left.join right) = (side left || side right))
    (sanitizers : List SanitizeTransformSet) (sofar : SanitizeTransformSet) :
    side (sanitizers.foldl SanitizeTransformSet.join sofar) =
      (side sofar || sanitizers.any side) := by
  induction sanitizers generalizing sofar with
  | nil => simp
  | cons first rest ih => rw [List.foldl_cons, ih, hjoin, List.any_cons, Bool.or_assoc]

theorem titoSanitize_eq_foldl (sanitizers : Sanitizers)
    (sanitizeMatches : List (ArgumentMatch)) :
    titoSanitizeOfArgument sanitizers sanitizeMatches =
      ((sanitizePlaces sanitizers sanitizeMatches).map Sanitize.toTitoSanitize).foldl
        SanitizeTransformSet.join .empty := by
  simp [titoSanitizeOfArgument, sanitizePlaces, List.foldl_append, List.map_map,
    Function.comp_def]

/-- What a join has if one of its sides has it, an argument has if one of its places has it. -/
theorem titoSanitize_any (side : SanitizeTransformSet → Bool)
    (hjoin : ∀ left right, side (left.join right) = (side left || side right))
    (hempty : side .empty = false) (sanitizers : Sanitizers)
    (sanitizeMatches : List (ArgumentMatch)) :
    side (titoSanitizeOfArgument sanitizers sanitizeMatches) =
      (sanitizePlaces sanitizers sanitizeMatches).any fun sanitize =>
        side sanitize.toTitoSanitize := by
  rw [titoSanitize_eq_foldl, foldl_join_of_or hjoin, hempty, Bool.false_or, List.any_map]
  rfl

theorem isAll_sources_titoSanitize (sanitizers : Sanitizers)
    (sanitizeMatches : List (ArgumentMatch)) :
    (titoSanitizeOfArgument sanitizers sanitizeMatches).sources.isAll =
      (sanitizePlaces sanitizers sanitizeMatches).any Sanitize.allSources := by
  have hplace : (fun sanitize : Sanitize => sanitize.toTitoSanitize.sources.isAll) =
      Sanitize.allSources := by
    funext sanitize
    simp [Sanitize.toTitoSanitize, SanitizeTransformSet.join, SanitizeSet.isAll_join,
      Sanitize.allSources, Bool.or_comm]
  rw [← hplace]
  exact titoSanitize_any (fun set => set.sources.isAll)
    (fun left right => SanitizeSet.isAll_join left.sources right.sources) rfl _ _

theorem isAll_sinks_titoSanitize (sanitizers : Sanitizers)
    (sanitizeMatches : List (ArgumentMatch)) :
    (titoSanitizeOfArgument sanitizers sanitizeMatches).sinks.isAll =
      (sanitizePlaces sanitizers sanitizeMatches).any Sanitize.allSinks := by
  have hplace : (fun sanitize : Sanitize => sanitize.toTitoSanitize.sinks.isAll) =
      Sanitize.allSinks := by
    funext sanitize
    simp [Sanitize.toTitoSanitize, SanitizeTransformSet.join, SanitizeSet.isAll_join,
      Sanitize.allSinks, Bool.or_comm]
  rw [← hplace]
  exact titoSanitize_any (fun set => set.sinks.isAll)
    (fun left right => SanitizeSet.isAll_join left.sinks right.sinks) rfl _ _

theorem obscureMapping_ok_iff (operations : TreeOperations Tree Breadcrumbs)
    (filter : SourceSinkFilter) (sanitizers : SanitizeTransformSet) {kind : Sink}
    (hkind : kind = .localReturn ∨ ∃ root, kind = .parameterUpdate root)
    (mapping : TaintInTaintOutMap Tree) :
    (∃ result, obscureMapping operations filter sanitizers kind mapping = .ok result) ↔
      sanitizers.sources.isAll = sanitizers.sinks.isAll := by
  have happly := applySanitizeTransforms_tito filter sanitizers hkind
  unfold obscureMapping
  cases hall : sanitizers.isAll with
  | true =>
    simp only [SanitizeTransformSet.isAll, Bool.and_eq_true] at hall
    simp [hall]
  | false =>
    cases hempty : sanitizers.isEmpty with
    | true =>
      obtain rfl : sanitizers = .empty := by simpa [SanitizeTransformSet.isEmpty] using hempty
      simp [SanitizeTransformSet.empty, SanitizeSet.empty, SanitizeSet.isAll]
    | false =>
      -- neither or one of the two holds everything: the kind is there, or it is not
      have hone : sanitizers.sources.isAll = sanitizers.sinks.isAll ↔
          sanitizers.sources.isAll = false ∧ sanitizers.sinks.isAll = false := by
        revert hall
        simp only [SanitizeTransformSet.isAll]
        cases sanitizers.sources.isAll <;> cases sanitizers.sinks.isAll <;> simp
      rw [hone, ← happly]
      simp only [Bool.false_eq_true, if_false]
      cases hresult : Sink.kindArg.applySanitizeTransforms filter sanitizers .front kind with
      | error message => simp [bind, Except.bind]
      | ok sanitized =>
        cases sanitized with
        | none => simp [bind, Except.bind, valueExn]
        | some sanitized => simp [bind, Except.bind, valueExn, pure, Except.pure]

/-- An obscure model returns exactly if its sanitizers cover all sources and all sinks, or neither;
    where the tito of the obscure call is ignored, they are not looked at. -/
theorem taintInTaintOutMapping_ok_iff (operations : TreeOperations Tree Breadcrumbs)
    (filter : SourceSinkFilter) (maximumTitoTreeWidth : ℕ) (ignoreLocalReturn : Bool)
    (model : ObscureModel Tree) (callable : Callable)
    (titoMatches sanitizeMatches : List (ArgumentMatch)) :
    (∃ mapping, taintInTaintOutMapping operations filter maximumTitoTreeWidth ignoreLocalReturn
        model callable titoMatches sanitizeMatches = .ok mapping) ↔
      (.obscure ∈ model.modes →
        (treatTitoReturnAsSelfUpdate callable = true ∨ ignoreLocalReturn = false) →
        ((∃ sanitize ∈ sanitizePlaces model.sanitizers sanitizeMatches,
            sanitize.allSources = true) ↔
          ∃ sanitize ∈ sanitizePlaces model.sanitizers sanitizeMatches,
            sanitize.allSinks = true)) := by
  have hcover : ((∃ sanitize ∈ sanitizePlaces model.sanitizers sanitizeMatches,
      sanitize.allSources = true) ↔
      ∃ sanitize ∈ sanitizePlaces model.sanitizers sanitizeMatches, sanitize.allSinks = true) ↔
      (titoSanitizeOfArgument model.sanitizers sanitizeMatches).sources.isAll =
        (titoSanitizeOfArgument model.sanitizers sanitizeMatches).sinks.isAll := by
    rw [isAll_sources_titoSanitize, isAll_sinks_titoSanitize, Bool.eq_iff_iff, List.any_eq_true,
      List.any_eq_true]
  rw [hcover]
  unfold taintInTaintOutMapping
  by_cases hobscure : .obscure ∈ model.modes ∧
      (treatTitoReturnAsSelfUpdate callable || !ignoreLocalReturn) = true
  · have hcall : treatTitoReturnAsSelfUpdate callable = true ∨ ignoreLocalReturn = false := by
      simpa using hobscure.2
    simp only [hobscure, hcall, if_true, forall_const, and_self]
    refine obscureMapping_ok_iff operations filter _ ?_ _
    split
    · exact Or.inr ⟨_, rfl⟩
    · exact Or.inl rfl
  · have hskip : ¬(.obscure ∈ model.modes ∧
        (treatTitoReturnAsSelfUpdate callable = true ∨ ignoreLocalReturn = false)) := by
      simpa using hobscure
    simp only [if_neg hobscure, Except.ok.injEq, exists_eq', true_iff]
    intro hmode hcall
    exact absurd ⟨hmode, hcall⟩ hskip

end Mapping

/-- `@SanitizeSingleTrace(TaintSource)`: all sources are sanitized, and no sink is. -/
def sanitizeAllSources : Sanitize := { Sanitize.empty with sources := .all }

/-- Such a model of an obscure function raises on an argument without any match. -/
theorem not_taintInTaintOutMapping_ok :
    ¬ ∃ mapping, taintInTaintOutMapping
      (⟨fun _ _ => (), fun _ _ => none, fun _ _ => (), fun _ _ => (), fun _ => (), (), id,
        fun _ _ => ()⟩ : TreeOperations Unit Unit)
      ⟨∅, ∅, [], ∅, ∅⟩ 1 false
      ⟨⟨sanitizeAllSources, .empty, fun _ => .empty⟩, {.obscure}, fun _ _ => ()⟩
      ⟨false, "", false, false⟩ [] [] = .ok mapping := by
  rintro ⟨mapping, hmapping⟩
  cases hmapping

end Pysa.Taint
