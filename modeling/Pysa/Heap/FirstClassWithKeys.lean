/-
  Subject: TABLES THAT KNOW THEIR KEYS (`FirstClassWithKeys`, `sharedMemory.ml`).

  All tables are in one table with a cache, under keys with the identity of the table. A handle has
  the identity and the keys; the order in which a set of keys is visited is left open.

  * `AddOnly`, `PreserveKeyOnly` -- those of the workers;
  * `Operation`, `step` -- the operations on all tables, as one machine.
-/
import Pysa.Heap.WithCache

namespace Pysa.SharedMemory

variable {K D V : Type} [DecidableEq K] [DecidableEq D]

/-- The old value, which is not cached. -/
def NoCache.getOld (key : KeyFunctor K D) (x : K) (heap : Heap D V) : Option V :=
  if hhMem (key.md5 (key.makeOld x)) heap then
    hhGetAndDeserialize (key.md5 (key.makeOld x)) heap
  else none

namespace FirstClassWithKeys

/-- `FirstClass.TupleKey`. -/
abbrev TupleKey (K : Type) := ℕ × K

/-- The table behind all tables. -/
abbrev Global (K D V : Type) := WithCache (TupleKey K) D V

structure Handle (K : Type) where
  firstClassHandle : ℕ
  keys : List K

variable (key : KeyFunctor (TupleKey K) D)
  (iteration : IterationOrder (Sigma fun _ : TupleKey K => ℕ × V))

/-! ## 1. Whole tables -/

/-- `KeySet.of_list`. -/
def keySet (keys : List K) : List K := keys.dedup

def hasDuplicates (keys : List K) : Bool := (keySet keys).length ≠ keys.length

def withId (id : ℕ) (keys : List K) : List (TupleKey K) := keys.map fun x => (id, x)

def writeAll (id : ℕ) (alist : List (K × V)) (global : Global K D V) : Global K D V :=
  alist.foldl (fun global entry => global.writeAround key (id, entry.1) entry.2) global

/-- `id` is the next identity. -/
def ofAlistSequential (id : ℕ) (list : List (K × V)) (global : Global K D V) :
    Except String (Handle K × Global K D V) :=
  let global := writeAll key id list global
  let keys := list.map Prod.fst
  if hasDuplicates keys then .error "of_alist_sequential: duplicate key"
  else .ok (⟨id, keys⟩, global)

/-- The workers write the chunks of the list. -/
def ofAlistParallel (id : ℕ) (chunks : List (List (K × V))) (list : List (K × V))
    (global : Global K D V) : Except String (Handle K × Global K D V) :=
  let global := chunks.foldl (fun global chunk => writeAll key id chunk global) global
  let keys := list.map Prod.fst
  if hasDuplicates keys then .error "of_alist_sequential: duplicate key"
  else .ok (⟨id, keys⟩, global)

def toAlist (handle : Handle K) (global : Global K D V) :
    Except String (List (K × V) × Global K D V) := do
  let (bindings, global) ←
    global.getBatch key iteration (withId handle.firstClassHandle (keySet handle.keys))
  pure (bindings.filterMap fun binding => binding.2.map fun value => (binding.1.2, value), global)

def mergeEntry (f : V → V → V) (id : ℕ) (global : Global K D V) (entry : K × V) :
    Except String (Global K D V) :=
  match NoCache.get key (id, entry.1) global.direct with
  | some existingValue => do
    let global ← global.remove key (id, entry.1)
    pure (global.writeAround key (id, entry.1) (f existingValue entry.2))
  | none => pure (global.writeAround key (id, entry.1) entry.2)

def mergeWithAlistSequential (handle : Handle K) (f : V → V → V) (list : List (K × V))
    (global : Global K D V) : Except String (Handle K × Global K D V) := do
  let global ← list.foldlM (mergeEntry key f handle.firstClassHandle) global
  let newKeys := keySet (list.map Prod.fst)
  if newKeys.length ≠ list.length then .error "merge_with_alist_sequential: duplicate key"
  else pure (⟨handle.firstClassHandle, keySet (handle.keys ++ newKeys)⟩, global)

def foldSequential {A : Type} (handle : Handle K) (init : A) (f : K → V → A → A)
    (global : Global K D V) : A :=
  handle.keys.foldl (fun accumulator x =>
    match NoCache.get key (handle.firstClassHandle, x) global.direct with
    | some value => f x value accumulator
    | none => accumulator) init

/-- A worker of `map_parallel_keys`; the applications of `f` stand beside the written keys. -/
def addOldAndAccumulateWrittenKeys (f : K → V → V) (id : ℕ)
    (sofar : List (K × V) × Global K D V) (x : K) : List (K × V) × Global K D V :=
  match NoCache.get key (id, x) sofar.2.direct with
  | some value => ((x, value) :: sofar.1, sofar.2.addOld key (id, x) (f x value))
  | none => sofar

/-- The chunks one after the other, the written keys of each reversed in front. -/
def mapChunks (f : K → V → V) (id : ℕ) (chunks : List (List K)) (global : Global K D V) :
    List (K × V) × Global K D V :=
  chunks.foldl (fun sofar chunk =>
    let (written, global) := chunk.foldl (addOldAndAccumulateWrittenKeys key f id) ([], sofar.2)
    (written.reverse ++ sofar.1, global)) ([], global)

/-- Answers what `f` has been applied to. -/
def mapParallelKeys (handle : Handle K) (f : K → V → V) (chunks : List (List K))
    (global : Global K D V) : Except String (List (K × V) × Global K D V) := do
  let (written, global) := mapChunks key f handle.firstClassHandle chunks global
  let global ← global.reviveBatch key
    (withId handle.firstClassHandle (keySet (written.map Prod.fst)))
  pure (written, global)

def oldifyBatch (handle : Handle K) (batch : List K) (global : Global K D V) :
    Except String (Global K D V) :=
  global.oldifyBatch key (withId handle.firstClassHandle (keySet batch))

def removeOldBatch (handle : Handle K) (batch : List K) (global : Global K D V) :
    Except String (Global K D V) :=
  global.removeOldBatch key (withId handle.firstClassHandle (keySet batch))

def ReadOnly.get (handle : Handle K) (cache : Bool) (x : K) (global : Global K D V) :
    Except String (Option V × Global K D V) :=
  if cache then global.get key iteration (handle.firstClassHandle, x)
  else .ok (NoCache.get key (handle.firstClassHandle, x) global.direct, global)

def ReadOnly.getOld (handle : Handle K) (x : K) (global : Global K D V) : Option V :=
  NoCache.getOld key (handle.firstClassHandle, x) global.direct

/-! ## 2. The handles of the workers -/

def AddOnly.add (handle : Handle K) (x : K) (y : V) (global : Global K D V) :
    Handle K × Global K D V :=
  (⟨handle.firstClassHandle, x :: handle.keys⟩,
    global.writeAround key (handle.firstClassHandle, x) y)

def AddOnly.addAll (handle : Handle K) (alist : List (K × V)) (global : Global K D V) :
    Handle K × Global K D V :=
  alist.foldl (fun state entry => AddOnly.add key state.1 entry.1 entry.2 state.2) (handle, global)

def AddOnly.mergeSameHandleDisjointKeys (smaller larger : Handle K) :
    Except String (Handle K) :=
  if smaller.firstClassHandle ≠ larger.firstClassHandle then
    .error "Cannot merge shared memory tables with different handles"
  else .ok ⟨smaller.firstClassHandle, smaller.keys ++ larger.keys⟩

def AddOnly.createEmpty (handle : Handle K) : Handle K := ⟨handle.firstClassHandle, []⟩

def fromAddOnly (handle : Handle K) : Except String (Handle K) :=
  if hasDuplicates handle.keys then .error "invariant error: duplicate keys" else .ok handle

def addAlistSequential (handle : Handle K) (alist : List (K × V)) (global : Global K D V) :
    Except String (Handle K × Global K D V) := do
  let (handle, global) := AddOnly.addAll key handle alist global
  pure (← fromAddOnly handle, global)

/-- How the tables of workers are merged: the table itself, a table that a worker adds to, or two
    merged ones. -/
inductive Merge (K V : Type) where
  | table
  | worker (alist : List (K × V))
  | merge (smaller larger : Merge K V)

def Merge.run (handle : Handle K) : Merge K V → Global K D V →
    Except String (Handle K × Global K D V)
  | .table, global => .ok (handle, global)
  | .worker alist, global => .ok (AddOnly.addAll key (AddOnly.createEmpty handle) alist global)
  | .merge smaller larger, global => do
    let (smaller, global) ← smaller.run handle global
    let (larger, global) ← larger.run handle global
    pure (← AddOnly.mergeSameHandleDisjointKeys smaller larger, global)

def addParallel (handle : Handle K) (merge : Merge K V) (global : Global K D V) :
    Except String (Handle K × Global K D V) := do
  let (handle, global) ← merge.run key handle global
  pure (← fromAddOnly handle, global)

def PreserveKeyOnly.setNew (handle : Handle K) (cache : Bool) (x : K) (y : V)
    (global : Global K D V) : Except String (Global K D V) :=
  if cache then global.add key iteration (handle.firstClassHandle, x) y
  else .ok (global.writeAround key (handle.firstClassHandle, x) y)

/-! ## 3. All tables -/

/-- The tables by their identities, each with the keys of its last handle. -/
structure Tables (K D V : Type) where
  global : Global K D V
  nextTableId : ℕ
  keys : ℕ → List K

def Tables.handle (tables : Tables K D V) (id : ℕ) : Handle K := ⟨id, tables.keys id⟩

def Tables.empty : Tables K D V := ⟨.empty, 0, fun _ => []⟩

/-- A table that has been created. -/
def Tables.created (tables : Tables K D V) (result : Handle K × Global K D V) : Tables K D V :=
  ⟨result.2, tables.nextTableId + 1,
    Function.update tables.keys result.1.firstClassHandle result.1.keys⟩

/-- A table with a new handle. -/
def Tables.changed (tables : Tables K D V) (result : Handle K × Global K D V) : Tables K D V :=
  ⟨result.2, tables.nextTableId,
    Function.update tables.keys result.1.firstClassHandle result.1.keys⟩

inductive Operation (K V : Type) where
  | ofAlistSequential (list : List (K × V))
  | ofAlistParallel (chunks : List (List (K × V))) (list : List (K × V))
  | mergeWithAlistSequential (id : ℕ) (f : V → V → V) (list : List (K × V))
  | addAlistSequential (id : ℕ) (alist : List (K × V))
  | addParallel (id : ℕ) (merge : Merge K V)
  | mapParallelKeys (id : ℕ) (f : K → V → V) (chunks : List (List K))
  | oldifyBatch (id : ℕ) (batch : List K)
  | setNew (id : ℕ) (cache : Bool) (x : K) (y : V)
  | removeOldBatch (id : ℕ) (batch : List K)
  | keys (id : ℕ)
  | toAlist (id : ℕ)
  | foldSequential (id : ℕ)
  | get (id : ℕ) (cache : Bool) (x : K)
  | getOld (id : ℕ) (x : K)

inductive Answer (K V : Type) where
  | unit
  | keys (keys : List K)
  | bindings (bindings : List (K × V))
  | value (value : Option V)

/-- `mapParallelKeys` answers what the function has been applied to, `foldSequential` what it
    visits, in this order. -/
def step : Machine (Operation K V) (Answer K V) (Tables K D V)
  | .ofAlistSequential list, tables => do
    let result ← ofAlistSequential key tables.nextTableId list tables.global
    pure (.unit, tables.created result)
  | .ofAlistParallel chunks list, tables => do
    let result ← ofAlistParallel key tables.nextTableId chunks list tables.global
    pure (.unit, tables.created result)
  | .mergeWithAlistSequential id f list, tables => do
    let result ← mergeWithAlistSequential key (tables.handle id) f list tables.global
    pure (.unit, tables.changed result)
  | .addAlistSequential id alist, tables => do
    let result ← addAlistSequential key (tables.handle id) alist tables.global
    pure (.unit, tables.changed result)
  | .addParallel id merge, tables => do
    let result ← addParallel key (tables.handle id) merge tables.global
    pure (.unit, tables.changed result)
  | .mapParallelKeys id f chunks, tables => do
    let (applied, global) ← mapParallelKeys key (tables.handle id) f chunks tables.global
    pure (.bindings applied, { tables with global })
  | .oldifyBatch id batch, tables => do
    let global ← oldifyBatch key (tables.handle id) batch tables.global
    pure (.unit, { tables with global })
  | .setNew id cache x y, tables => do
    let global ← PreserveKeyOnly.setNew key iteration (tables.handle id) cache x y tables.global
    pure (.unit, { tables with global })
  | .removeOldBatch id batch, tables => do
    let global ← removeOldBatch key (tables.handle id) batch tables.global
    pure (.unit, { tables with global })
  | .keys id, tables => .ok (.keys (tables.keys id), tables)
  | .toAlist id, tables => do
    let (bindings, global) ← toAlist key iteration (tables.handle id) tables.global
    pure (.bindings bindings, { tables with global })
  | .foldSequential id, tables =>
    .ok (.bindings (foldSequential key (tables.handle id) []
      (fun x value visited => visited ++ [(x, value)]) tables.global), tables)
  | .get id cache x, tables => do
    let (value, global) ← ReadOnly.get key iteration (tables.handle id) cache x tables.global
    pure (.value value, { tables with global })
  | .getOld id x, tables =>
    .ok (.value (ReadOnly.getOld key (tables.handle id) x tables.global), tables)

end FirstClassWithKeys

end Pysa.SharedMemory
