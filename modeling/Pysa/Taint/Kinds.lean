/-
  Subject: KINDS OF TAINT: sources and sinks (`sources.ml`, `sinks.ml`).

  A kind is a base with the transforms that were applied to it: those of the current callable in the
  local part, those of its callees in the global part.
-/
import Pysa.Interprocedural.AccessPath
import Pysa.Taint.TaintTransform

namespace Pysa.Taint

/-! ## 1. Sources -/

inductive Source where
  | attach
  | namedSource (name : String)
  | parametricSource (sourceName subkind : String)
  | transform (localPart globalPart : TaintTransforms) (base : Source)
  deriving DecidableEq

namespace Source

def makeTransform (localPart globalPart : TaintTransforms) (base : Source) : Source :=
  match localPart, globalPart with
  | [], [] => base
  | _, _ => transform localPart globalPart base

/-- The kind at a call: every transform becomes global. -/
def applyCall : Source → Source
  | transform localPart globalPart base =>
    transform [] (TaintTransforms.merge localPart globalPart) base
  | source => source

def discardSubkind : Source → Source
  | parametricSource sourceName _ => namedSource sourceName
  | source => source

def discardTransforms : Source → Source
  | transform _ _ base => base
  | source => source

def getNamedTransforms : Source → TaintTransforms
  | transform localPart globalPart _ =>
    (TaintTransforms.merge localPart globalPart).getNamedTransforms
  | _ => []

def discardSanitizeTransforms : Source → Source
  | transform localPart globalPart base =>
    makeTransform localPart.discardSanitizeTransforms globalPart.discardSanitizeTransforms base
  | source => source

def extractSanitizeTransforms : Source → SanitizeTransformSet
  | transform localPart globalPart _ =>
    (TaintTransforms.merge localPart globalPart).getSanitizeTransforms
  | _ => .empty

def containsSanitizeTransforms (source : Source) (sanitizeTransforms : SanitizeTransformSet) :
    Bool :=
  sanitizeTransforms.lessOrEqual source.extractSanitizeTransforms

end Source

/-! ## 2. Sinks -/

inductive Sink where
  | attach
  | partialSink (partialSink : String)
  | localReturn
  | namedSink (name : String)
  | parametricSink (sinkName subkind : String)
  | parameterUpdate (root : Root)
  | addFeatureToArgument
  | extraTraceSink
  | transform (localPart globalPart : TaintTransforms) (base : Sink)
  deriving DecidableEq

namespace Sink

def makeTransform (localPart globalPart : TaintTransforms) (base : Sink) : Sink :=
  match localPart, globalPart with
  | [], [] => base
  | _, _ => transform localPart globalPart base

def applyCall : Sink → Sink
  | transform localPart globalPart base =>
    transform [] (TaintTransforms.merge localPart globalPart) base
  | sink => sink

def discardSubkind : Sink → Sink
  | parametricSink sinkName _ => namedSink sinkName
  | sink => sink

def discardTransforms : Sink → Sink
  | transform _ _ base => base
  | sink => sink

def getNamedTransforms : Sink → TaintTransforms
  | transform localPart globalPart _ =>
    (TaintTransforms.merge localPart globalPart).getNamedTransforms
  | _ => []

def discardSanitizeTransforms : Sink → Sink
  | transform localPart globalPart base =>
    makeTransform localPart.discardSanitizeTransforms globalPart.discardSanitizeTransforms base
  | sink => sink

def extractSanitizeTransforms : Sink → SanitizeTransformSet
  | transform localPart globalPart _ =>
    (TaintTransforms.merge localPart globalPart).getSanitizeTransforms
  | _ => .empty

def containsSanitizeTransforms (sink : Sink) (sanitizeTransforms : SanitizeTransformSet) :
    Bool :=
  sanitizeTransforms.lessOrEqual sink.extractSanitizeTransforms

end Sink

end Pysa.Taint
