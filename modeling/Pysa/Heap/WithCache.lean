/-
  Subject: TABLES WITH A CACHE OF THE PROCESS (`WithCache`, `sharedMemory.ml`).

  * `WithCache` -- each operation on the heap, and on the cache in front of it;
  * `Operation`, `WithCache.step`, `NoCache.step` -- the operations of a process, as both tables
    answer them.
-/
import Pysa.Heap.LocalCache
import Pysa.Heap.SharedMemory
import Pysa.Lib.Machine

namespace Pysa.SharedMemory

variable {K D V : Type} [DecidableEq K] [DecidableEq D]

structure WithCache (K D V : Type) where
  direct : Heap D V
  cache : LocalCache K V

namespace WithCache

variable (key : KeyFunctor K D) (iteration : IterationOrder (Sigma fun _ : K => ℕ × V))

def empty : WithCache K D V := ⟨∅, .empty⟩

def add (x : K) (y : V) (table : WithCache K D V) : Except String (WithCache K D V) := do
  let cache ← table.cache.add iteration x y
  return ⟨NoCache.add key x y table.direct, cache⟩

def addOld (x : K) (y : V) (table : WithCache K D V) : WithCache K D V :=
  { table with direct := NoCache.addOld key x y table.direct }

def writeAround (x : K) (y : V) (table : WithCache K D V) : WithCache K D V :=
  { table with direct := NoCache.add key x y table.direct }

def get (x : K) (table : WithCache K D V) : Except String (Option V × WithCache K D V) := do
  match ← table.cache.get iteration x with
  | (some v, cache) => return (some v, { table with cache })
  | (none, cache) =>
    match NoCache.get key x table.direct with
    | none => return (none, { table with cache })
    | some v =>
      let cache ← cache.add iteration x v
      return (some v, { table with cache })

/-- Does not load the value. -/
def mem (x : K) (table : WithCache K D V) : Except String (Bool × WithCache K D V) := do
  match ← table.cache.get iteration x with
  | (some _, cache) => return (true, { table with cache })
  | (none, cache) => return (NoCache.mem key x table.direct, { table with cache })

/-- The binding of one key of a batch. -/
def getBinding : Machine K (K × Option V) (WithCache K D V) := fun x table => do
  let (value, table) ← get key iteration x table
  return ((x, value), table)

def getBatch (xs : List K) (table : WithCache K D V) :
    Except String (List (K × Option V) × WithCache K D V) :=
  Machine.run (getBinding key iteration) xs table

/-- The heap, then the cache without the keys. -/
def removing (xs : List K) (direct : Heap D V) (table : WithCache K D V) : WithCache K D V :=
  ⟨direct, xs.foldl (fun cache x => cache.remove x) table.cache⟩

def oldifyBatch (xs : List K) (table : WithCache K D V) : Except String (WithCache K D V) := do
  let direct ← NoCache.oldifyBatch key xs table.direct
  return removing xs direct table

def reviveBatch (xs : List K) (table : WithCache K D V) : Except String (WithCache K D V) := do
  let direct ← NoCache.reviveBatch key xs table.direct
  return removing xs direct table

def remove (x : K) (table : WithCache K D V) : Except String (WithCache K D V) := do
  let direct ← NoCache.remove key x table.direct
  return ⟨direct, table.cache.remove x⟩

def removeBatch (xs : List K) (table : WithCache K D V) : Except String (WithCache K D V) := do
  let direct ← NoCache.removeBatch key xs table.direct
  return removing xs direct table

def removeOldBatch (xs : List K) (table : WithCache K D V) : Except String (WithCache K D V) := do
  let direct ← NoCache.removeOldBatch key xs table.direct
  return { table with direct }

end WithCache

/-! ## The operations of a process -/

/-- A batch lists its keys in the order in which the set is visited. -/
inductive Operation (K V : Type) where
  | add (x : K) (y : V)
  | writeAround (x : K) (y : V)
  | addOld (x : K) (y : V)
  | get (x : K)
  | mem (x : K)
  | getBatch (xs : List K)
  | remove (x : K)
  | removeBatch (xs : List K)
  | oldifyBatch (xs : List K)
  | reviveBatch (xs : List K)
  | removeOldBatch (xs : List K)

inductive Answer (K V : Type) where
  | unit
  | value (value : Option V)
  | bool (found : Bool)
  | batch (bindings : List (K × Option V))
  deriving DecidableEq

/-- An operation without an answer. -/
def Answer.ofState {S : Type} (result : Except String S) : Except String (Answer K V × S) :=
  result.map fun state => (.unit, state)

variable (key : KeyFunctor K D)

def WithCache.step (iteration : IterationOrder (Sigma fun _ : K => ℕ × V)) :
    Machine (Operation K V) (Answer K V) (WithCache K D V)
  | .add x y, table => Answer.ofState (table.add key iteration x y)
  | .writeAround x y, table => Answer.ofState (.ok (table.writeAround key x y))
  | .addOld x y, table => Answer.ofState (.ok (table.addOld key x y))
  | .get x, table => (table.get key iteration x).map fun (value, table) => (.value value, table)
  | .mem x, table => (table.mem key iteration x).map fun (found, table) => (.bool found, table)
  | .getBatch xs, table =>
    (table.getBatch key iteration xs).map fun (bindings, table) => (.batch bindings, table)
  | .remove x, table => Answer.ofState (table.remove key x)
  | .removeBatch xs, table => Answer.ofState (table.removeBatch key xs)
  | .oldifyBatch xs, table => Answer.ofState (table.oldifyBatch key xs)
  | .reviveBatch xs, table => Answer.ofState (table.reviveBatch key xs)
  | .removeOldBatch xs, table => Answer.ofState (table.removeOldBatch key xs)

/-- The same operations without a cache, where `writeAround` is `add`. -/
def NoCache.step : Machine (Operation K V) (Answer K V) (Heap D V)
  | .add x y, heap => Answer.ofState (.ok (NoCache.add key x y heap))
  | .writeAround x y, heap => Answer.ofState (.ok (NoCache.add key x y heap))
  | .addOld x y, heap => Answer.ofState (.ok (NoCache.addOld key x y heap))
  | .get x, heap => .ok (.value (NoCache.get key x heap), heap)
  | .mem x, heap => .ok (.bool (NoCache.mem key x heap), heap)
  | .getBatch xs, heap => .ok (.batch (NoCache.getBatch key xs heap), heap)
  | .remove x, heap => Answer.ofState (NoCache.remove key x heap)
  | .removeBatch xs, heap => Answer.ofState (NoCache.removeBatch key xs heap)
  | .oldifyBatch xs, heap => Answer.ofState (NoCache.oldifyBatch key xs heap)
  | .reviveBatch xs, heap => Answer.ofState (NoCache.reviveBatch key xs heap)
  | .removeOldBatch xs, heap => Answer.ofState (NoCache.removeOldBatch key xs heap)

end Pysa.SharedMemory
