/-
  Subject: CLASS INTERVALS OF A TRACE FRAME (`domains.ml`).

  A frame carries the interval of the class that literally contains its call site. A call keeps a
  frame only when the frame's interval is compatible with that of the receiver.

  * `applyClassInterval` -- the filter at one call;
  * `CallInfo`, `applyCall` -- what a call does to the call info of a frame;
  * `Hop`, `applyChain` -- a chain of method calls.
-/
import Pysa.Interprocedural.ClassIntervalSetGraph

namespace Pysa.Taint

/-! ## 1. One call -/

structure ClassIntervals where
  /-- the interval of the class that literally contains this call site -/
  callerInterval : ClassIntervalSet
  /-- the interval of the receiver object for this call site -/
  receiverInterval : ClassIntervalSet
  isSelfCall : Bool
  isClsCall : Bool

/-- If we are not sure that a call is on `self` or `cls`, it counts as a call on neither. -/
def ClassIntervals.top : ClassIntervals := ⟨.top, .top, false, false⟩

/-- The intersection, and whether it is one of the two sets and not empty. -/
def intersect (left right : ClassIntervalSet) : Except String (ClassIntervalSet × Bool) := do
  let newInterval ← ClassIntervalSet.meet left right
  let shouldPropagate := !newInterval.isEmpty &&
    (ClassIntervalSet.equal left newInterval || ClassIntervalSet.equal right newInterval)
  .ok (newInterval, shouldPropagate)

def applyClassInterval (calleeClassInterval : ClassIntervalSet)
    (isStaticMethod isClassMethod : Bool) (callInfoIntervals : ClassIntervals) :
    Except String (Option ClassIntervals) :=
  if isStaticMethod then .ok (some callInfoIntervals)
  else do
    let (newInterval, shouldPropagate) ←
      intersect calleeClassInterval callInfoIntervals.receiverInterval
    if !shouldPropagate then .ok none
    else if callInfoIntervals.isSelfCall || (callInfoIntervals.isClsCall && isClassMethod) then do
      -- the call chain is still on the same object
      let (newInterval, shouldPropagate) ← intersect newInterval callInfoIntervals.callerInterval
      if !shouldPropagate then .ok none
      else .ok (some { callInfoIntervals with callerInterval := newInterval })
    else .ok (some callInfoIntervals)

/-- The call info of a frame, with its class intervals. -/
inductive CallInfo where
  | declaration
  | tito (classIntervals : ClassIntervals)
  | origin (classIntervals : ClassIntervals)
  | callSite (classIntervals : ClassIntervals)
  | overrideCall (classIntervals : ClassIntervals)

def CallInfo.classIntervals : CallInfo → ClassIntervals
  | .origin classIntervals => classIntervals
  | .callSite classIntervals => classIntervals
  | .tito classIntervals => classIntervals
  | .overrideCall classIntervals => classIntervals
  | .declaration => .top

/-- The kinds of callee (`Target.Regular`). -/
inductive RegularTarget where
  | function | method | override | globalVariable | classInstanceAttribute | classTypeAttribute
  | artificial | unknownCallee

/-- The class intervals of a frame after a call: only methods filter. -/
def callClassIntervals (callee : RegularTarget) (isClassMethod isStaticMethod : Bool)
    (callInfoIntervals : ClassIntervals) (callInfo : CallInfo) :
    Except String (Option ClassIntervals) :=
  match callee with
  | .globalVariable | .classInstanceAttribute | .classTypeAttribute | .artificial
  | .unknownCallee | .function => .ok (some callInfoIntervals)
  | .method | .override =>
    applyClassInterval callInfo.classIntervals.callerInterval isStaticMethod isClassMethod
      callInfoIntervals

/-- What becomes of the call info of a frame at a call, or `none` when the frame goes. -/
def applyCall (callee : RegularTarget) (isClassMethod isStaticMethod : Bool)
    (callInfoIntervals : ClassIntervals) (callInfo : CallInfo) :
    Except String (Option CallInfo) := do
  match ← callClassIntervals callee isClassMethod isStaticMethod callInfoIntervals callInfo with
  | none => .ok none
  | some classIntervals =>
    match callInfo with
    | .origin _ | .callSite _ | .overrideCall _ => .ok (some (.callSite classIntervals))
    | .declaration => .ok (some (.origin classIntervals))
    | .tito _ => .error "cannot apply call on tito taint"

/-! ## 2. A chain of method calls -/

/-- A call of a non-static method: the class that contains the call site, the static class of the
    receiver, and how the receiver is written. -/
structure Hop where
  callee : RegularTarget
  isMethod : callee = .method ∨ callee = .override
  isClassMethod : Bool
  caller : ClassId
  receiver : ClassId
  isSelfCall : Bool
  isClsCall : Bool

/-- A call on `self`, or a call of a class method on `cls`: it stays on the same object. -/
def Hop.onSelf (hop : Hop) : Bool := hop.isSelfCall || (hop.isClsCall && hop.isClassMethod)

def Hop.callInfoIntervals (sets : ClassIdMap ClassIntervalSet) (hop : Hop) : ClassIntervals where
  callerInterval := ClassIntervalSetGraph.ofClass sets hop.caller
  receiverInterval := ClassIntervalSetGraph.ofClass sets hop.receiver
  isSelfCall := hop.isSelfCall
  isClsCall := hop.isClsCall

def applyChain (sets : ClassIdMap ClassIntervalSet) : List Hop → CallInfo →
    Except String (Option CallInfo)
  | [], callInfo => .ok (some callInfo)
  | hop :: rest, callInfo => do
    match ← applyCall hop.callee hop.isClassMethod false (hop.callInfoIntervals sets) callInfo with
    | none => .ok none
    | some callInfo => applyChain sets rest callInfo

end Pysa.Taint
