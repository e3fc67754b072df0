/-
  Subject: LAYERS OF LAZY TABLES (`environment.ml`).

  The layers of an environment are one table, whose keys know their layer. Triggers and keys are
  the same; that two values are equal is decided by equality. Dependencies are tracked.

  * `Upstream` -- the keys that the environment does not own, and how they are read: the source
    code, and for an overlay all that belongs to its parent;
  * `Environment.get` -- a look-up that produces what is missing;
  * `updateOnlyThisEnvironment`, `updateLayers` -- an update of one layer, and of all layers.
-/
import Pysa.Environment.DependencyTrackedMemory
import Pysa.Lib.Query

namespace Pysa.Incremental

structure Stack (Key V : Type) where
  layer : Key → ℕ
  height : ℕ
  layer_le : ∀ key, layer key ≤ height
  produceValue : (key : Key) → Query {upstream : Key // layer upstream < layer key} V V
  lazyIncremental : ℕ → Bool
  encoding : Encoding Key

/-- The keys of the environment's own tables, and the reads of all other keys. -/
structure Upstream (Key V S : Type) where
  owns : S → Key → Bool
  get : Key → Option Key → Dependencies Key × S → V × Dependencies Key × S

structure Environment (Key V S : Type) where
  dependencies : Dependencies Key
  upstream : S
  table : Key → Option V

namespace Environment

variable {Key V S : Type} [DecidableEq Key] (stack : Stack Key V) (up : Upstream Key V S)

/-! ## 1. Look-ups -/

/-- The first value that is added at a key stays. -/
def add (key : Key) (value : V) (e : Environment Key V S) : Environment Key V S :=
  match e.table key with
  | some _ => e
  | none => { e with table := fun key' => if key' = key then some value else e.table key' }

def addDependency (key : Key) (dependency : Option Key) (e : Environment Key V S) :
    Environment Key V S :=
  { e with dependencies := e.dependencies.addDependency stack.encoding key dependency }

def register (key : Key) (e : Environment Key V S) : Environment Key V S :=
  { e with dependencies := e.dependencies.register stack.encoding key }

def get (key : Key) (dependency : Option Key) (e : Environment Key V S) :
    V × Environment Key V S :=
  if up.owns e.upstream key then
    match e.table key with
    | some hit => (hit, e.addDependency stack key dependency)
    | none =>
      let start := (e.addDependency stack key dependency).register stack key
      let produced := (stack.produceValue key).run
        (fun upstream e => get upstream.1 (some key) e) start
      (produced.1, produced.2.add key produced.1)
  else
    let read := up.get key dependency (e.dependencies, e.upstream)
    (read.1, { e with dependencies := read.2.1, upstream := read.2.2 })
termination_by stack.layer key
decreasing_by exact upstream.2

/-- `produce_value`, whose reads all have the dependency of the key. -/
def produceValue (key : Key) (e : Environment Key V S) : V × Environment Key V S :=
  (stack.produceValue key).run (fun upstream e => e.get stack up upstream.1 (some key)) e

/-! ## 2. Updates -/

def getDependents (key : Key) (e : Environment Key V S) : List Key :=
  e.dependencies.getDependents stack.encoding key

/-- Work done in workers, or else in the master. -/
def collectedMapReduce (parallel : Bool) (f : Environment Key V S → Environment Key V S)
    (e : Environment Key V S) : Environment Key V S :=
  if parallel then
    let worked := f { e with dependencies := { e.dependencies with worker := some [] } }
    { worked with dependencies := worked.dependencies.merge stack.encoding }
  else f e

/-- The keys are no longer in the table. -/
def remove (keys : List Key) (e : Environment Key V S) : Environment Key V S :=
  { e with table := fun key => if key ∈ keys then none else e.table key }

/-- The keys of a layer that the triggered dependencies name. -/
def triggerMap (layer : ℕ) (triggered : List Key) (e : Environment Key V S) : List Key :=
  (triggered.filter fun key =>
    decide (stack.layer key = layer) && up.owns e.upstream key).dedup

variable [DecidableEq V]

/-- The triggered dependencies, and the next state. A lazy layer drops the keys and triggers all
    that has read them; the other ones produce the values again, and trigger what has read a value
    that changed. -/
def updateOnlyThisEnvironment (parallel : Bool) (layer : ℕ) (triggers : List Key)
    (e : Environment Key V S) : List Key × Environment Key V S :=
  let deprecated := e.remove triggers
  if stack.lazyIncremental layer then
    (triggers.flatMap fun key => deprecated.getDependents stack key, deprecated)
  else
    let updated := deprecated.collectedMapReduce stack parallel fun e =>
      triggers.foldl (fun e key =>
        let produced := e.produceValue stack up key
        produced.2.add key produced.1) e
    (triggers.flatMap fun key =>
      if e.table key = updated.table key then [] else updated.getDependents stack key, updated)

/-- The update of all layers above the source code, from the lowest one. The triggered dependencies
    of each layer are listed with the highest layer first; those of a parent come before the own
    ones (`propagate_parent_update`), and without a parent there are none
    (`update_this_and_all_preceding_environments`). -/
def updateLayers (parallel : Bool) (bottom : List Key) :
    List (List Key) → Environment Key V S → List (List Key) × Environment Key V S
  | [], e => ([bottom], e)
  | parent :: rest, e =>
    let below := updateLayers parallel bottom rest e
    let triggers := below.2.triggerMap stack up (rest.length + 1) below.1.flatten
    let updated := below.2.updateOnlyThisEnvironment stack up parallel (rest.length + 1) triggers
    ((parent ++ updated.1) :: below.1, updated.2)

end Environment

end Pysa.Incremental
