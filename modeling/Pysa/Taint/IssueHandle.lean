/-
  Subject: THE HANDLES OF ISSUES (`issueHandle.ml`, `target.ml`).

  * `Target` -- a callable, with the callables that are passed to it;
  * `Sink`, `Handle` -- over what stands for a callee: a target, a target without parameters, or
    only its name;
  * `canonicalHandle` -- without parameters and without the path prefixes of the names.
-/
import Pysa.Interprocedural.AccessPath
import Pysa.Lib.Replace

namespace Pysa.IssueHandle

open Pysa.Text

/-! ## 1. Targets -/

abbrev Reference := List String

def showReference (reference : Reference) : String := ".".intercalate reference

/-- Names for identifiers. -/
structure DisplayApi (CallableId ModuleId ClassId : Type) where
  callableExternalName : CallableId → Reference
  callableDefineName : CallableId → Reference
  moduleName : ModuleId → Reference
  className : ClassId → Reference

inductive ArtificialKind where
  | formatString
  | strAdd
  | strMod
  | strFormat
  | strLiteral
  | condition
deriving DecidableEq

def ArtificialKind.name : ArtificialKind → String
  | formatString => "<format-string>"
  | strAdd => "<str.__add__>"
  | strMod => "<str.__mod__>"
  | strFormat => "<str.format>"
  | strLiteral => "<literal-string>"
  | condition => "<condition>"

inductive Regular (CallableId ModuleId ClassId : Type) where
  | function (callableId : CallableId)
  | method (callableId : CallableId)
  | override (callableId : CallableId)
  | globalVariable (moduleId : ModuleId) (name : String)
  | classInstanceAttribute (classId : ClassId) (name : String)
  | classTypeAttribute (classId : ClassId) (name : String)
  | artificial (kind : ArtificialKind)
  | unknownCallee (name : String)
deriving DecidableEq

mutual

inductive Target (CallableId ModuleId ClassId : Type) where
  | regular (base : Regular CallableId ModuleId ClassId)
  | parameterized (base : Regular CallableId ModuleId ClassId)
      (parameters : Parameters CallableId ModuleId ClassId)

/-- `Target.ParameterMap`, the values with whether the receiver is implicit. -/
inductive Parameters (CallableId ModuleId ClassId : Type) where
  | empty
  | cons (root : Root) (target : Target CallableId ModuleId ClassId) (implicitReceiver : Bool)
      (rest : Parameters CallableId ModuleId ClassId)

end

deriving instance DecidableEq for Target, Parameters

section Api

variable {CallableId ModuleId ClassId : Type}

def Target.getRegular : Target CallableId ModuleId ClassId → Regular CallableId ModuleId ClassId
  | .regular base => base
  | .parameterized base _ => base

def Target.isParameterized : Target CallableId ModuleId ClassId → Bool
  | .regular _ => false
  | .parameterized _ _ => true

def Target.stripParameters (target : Target CallableId ModuleId ClassId) :
    Target CallableId ModuleId ClassId :=
  .regular target.getRegular

mutual

/-- `fold` of `collect_nested_regular_targets`. -/
def Target.foldRegular (sofar : List (Regular CallableId ModuleId ClassId)) :
    Target CallableId ModuleId ClassId → List (Regular CallableId ModuleId ClassId)
  | .regular base => base :: sofar
  | .parameterized base parameters => parameters.foldRegular (base :: sofar)

def Parameters.foldRegular (sofar : List (Regular CallableId ModuleId ClassId)) :
    Parameters CallableId ModuleId ClassId → List (Regular CallableId ModuleId ClassId)
  | .empty => sofar
  | .cons _ target _ rest => rest.foldRegular (target.foldRegular sofar)

end

def Target.collectNestedRegularTargets (target : Target CallableId ModuleId ClassId) :
    List (Regular CallableId ModuleId ClassId) :=
  target.foldRegular []

variable (displayApi : DisplayApi CallableId ModuleId ClassId)

/-- `Regular.pp_external`; what `transform` rewrites is the name without what is around it. -/
def Regular.externalName (transform : String → String) :
    Regular CallableId ModuleId ClassId → String
  | .function callableId => transform (showReference (displayApi.callableExternalName callableId))
  | .method callableId => transform (showReference (displayApi.callableExternalName callableId))
  | .override callableId =>
    "Overrides\x7b" ++ transform (showReference (displayApi.callableExternalName callableId)) ++ "\x7d"
  | .globalVariable moduleId name =>
    "Obj\x7b" ++ transform (showReference (displayApi.moduleName moduleId)) ++ "." ++ name ++ "\x7d"
  | .classInstanceAttribute classId name =>
    "Obj\x7b" ++ transform (showReference (displayApi.className classId)) ++ "." ++ name ++ "\x7d"
  | .classTypeAttribute classId name =>
    "Obj\x7b" ++ transform (showReference (displayApi.className classId)) ++ ".__class__." ++ name ++
      "\x7d"
  | .artificial kind => "Obj\x7b" ++ transform kind.name ++ "\x7d"
  | .unknownCallee name => "Obj\x7bunknown-callee:" ++ name ++ "\x7d"

/-- Whether the attribute or name at the call is that of the target. -/
def Regular.matchesSuffix (calleeSuffix : String) : Regular CallableId ModuleId ClassId → Bool
  | .globalVariable _ name => calleeSuffix = name
  | .classInstanceAttribute _ name => calleeSuffix = name
  | .classTypeAttribute _ name => calleeSuffix = name
  | .function callableId =>
    calleeSuffix = afterLast '.' (showReference (displayApi.callableDefineName callableId))
  | .method callableId => calleeSuffix = (displayApi.callableDefineName callableId).getLast?.getD ""
  | .override callableId =>
    calleeSuffix = (displayApi.callableDefineName callableId).getLast?.getD ""
  | .artificial _ => false
  | .unknownCallee _ => false

/-- `PyreflyApi.strip_path_prefix`: what follows the last colon. -/
def stripPathPrefix (name : String) : String := afterLast ':' name

/-! ## 2. Handles -/

/-- `SinkKind` is that of `Sinks.t`. -/
inductive Sink (Callee SinkKind : Type) where
  | call (callee : Callee) (calleeSuffix : Option String) (index : ℤ) (parameter : Root)
  | global (callee : Callee) (index : ℤ)
  | return
  | literalStringSink (sink : SinkKind)
  | conditionalTestSink (sink : SinkKind)
  | stringFormat (callee : Callee) (index parameterIndex : ℤ)
deriving DecidableEq

/-- A handle of the analysis has targets, a canonical one names. -/
structure Handle (Callee SinkKind : Type) where
  code : ℤ
  callable : Callee
  sink : Sink Callee SinkKind
deriving DecidableEq

variable {SinkKind : Type}

/-- The one nested target with the name at the call, and the target itself otherwise. -/
def calleeOfSuffix (callee : Target CallableId ModuleId ClassId) (calleeSuffix : String) :
    Regular CallableId ModuleId ClassId :=
  match callee.collectNestedRegularTargets.filter (·.matchesSuffix displayApi calleeSuffix) with
  | [regularTarget] => regularTarget
  | _ => callee.getRegular

/-- The callee suffix is no part of a handle. -/
def Sink.stripCalleeParameters : Sink (Target CallableId ModuleId ClassId) SinkKind →
    Sink (Regular CallableId ModuleId ClassId) SinkKind
  | .call callee (some calleeSuffix) index parameter =>
    .call (calleeOfSuffix displayApi callee calleeSuffix) none index parameter
  | .call callee none index parameter => .call callee.getRegular none index parameter
  | .global callee index => .global callee.getRegular index
  | .stringFormat callee index parameterIndex =>
    .stringFormat callee.getRegular index parameterIndex
  | .return => .return
  | .literalStringSink sink => .literalStringSink sink
  | .conditionalTestSink sink => .conditionalTestSink sink

def Sink.stripCalleePathPrefix : Sink (Regular CallableId ModuleId ClassId) SinkKind →
    Sink String SinkKind
  | .call callee calleeSuffix index parameter =>
    .call (callee.externalName displayApi stripPathPrefix) calleeSuffix index parameter
  | .global callee index => .global (callee.externalName displayApi stripPathPrefix) index
  | .stringFormat callee index parameterIndex =>
    .stringFormat (callee.externalName displayApi stripPathPrefix) index parameterIndex
  | .return => .return
  | .literalStringSink sink => .literalStringSink sink
  | .conditionalTestSink sink => .conditionalTestSink sink

def stripAllCallableParameters (handle : Handle (Target CallableId ModuleId ClassId) SinkKind) :
    Handle (Regular CallableId ModuleId ClassId) SinkKind :=
  ⟨handle.code, handle.callable.getRegular, handle.sink.stripCalleeParameters displayApi⟩

def stripCallablePathPrefix (handle : Handle (Regular CallableId ModuleId ClassId) SinkKind) :
    Handle String SinkKind :=
  ⟨handle.code, handle.callable.externalName displayApi stripPathPrefix,
    handle.sink.stripCalleePathPrefix displayApi⟩

def canonicalHandle (handle : Handle (Target CallableId ModuleId ClassId) SinkKind) :
    Handle String SinkKind :=
  stripCallablePathPrefix displayApi (stripAllCallableParameters displayApi handle)

end Api

end Pysa.IssueHandle
