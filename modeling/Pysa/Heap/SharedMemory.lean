/-
  Subject: TABLES IN SHARED MEMORY (`sharedMemory.ml`, `hh_shared.c`).

  One process, which is the master and may remove. A value is what its key's digest is bound to;
  that the table is full is not modelled, nor are the statistics.

  * `KeyFunctor` -- the strings of new and old keys, and their digests, which are distinct;
  * `NoCache` -- the table that always reads the heap.
-/
import Mathlib.Data.List.Basic
import Mathlib.Logic.Function.Basic
import Pysa.Lib.AssocMap

namespace Pysa.SharedMemory

/-! ## 1. Keys -/

/-- The prefix of old keys. -/
def oldPrefix : String := "old_"

/-- The strings of the keys of a table with their digests; distinct keys have distinct digests. -/
structure KeyFunctor (K D : Type) where
  make : K → String
  md5 : String → D
  new_injective : Function.Injective fun x => md5 (make x)
  old_injective : Function.Injective fun x => md5 (oldPrefix ++ make x)
  new_ne_old : ∀ x y, md5 (make x) ≠ md5 (oldPrefix ++ make y)

namespace KeyFunctor

variable {K D : Type} (key : KeyFunctor K D)

def makeOld (x : K) : String := oldPrefix ++ key.make x

def toOld (x : String) : String := oldPrefix ++ x

def newFromOld (x : String) : String := String.ofList (x.toList.drop oldPrefix.length)

theorem newFromOld_makeOld (x : K) : newFromOld (key.makeOld x) = key.make x := by
  unfold newFromOld makeOld
  rw [String.toList_append, ← String.length_toList, List.drop_left, String.ofList_toList]

end KeyFunctor

/-! ## 2. The heap (`hh_shared.c`) -/

/-- The values that the digests are bound to. -/
abbrev Heap (D V : Type) := AssocMap D V

variable {K D V : Type} [DecidableEq D]

/-- The first write to a key wins. -/
def hhAdd (md5 : D) (value : V) (heap : Heap D V) : Heap D V :=
  match heap.lookup md5 with
  | some _ => heap
  | none => heap.insert md5 value

def hhMem (md5 : D) (heap : Heap D V) : Bool := (heap.lookup md5).isSome

def hhGetAndDeserialize (md5 : D) (heap : Heap D V) : Option V := heap.lookup md5

def hhRemove (md5 : D) (heap : Heap D V) : Except String (Heap D V) :=
  match heap.lookup md5 with
  | none => .error "hh_remove"
  | some _ => .ok (heap.erase md5)

/-- The first key must be present, the second one free. -/
def hhMove (md5 md5' : D) (heap : Heap D V) : Except String (Heap D V) :=
  match heap.lookup md5, heap.lookup md5' with
  | some value, none => .ok ((heap.insert md5' value).erase md5)
  | _, _ => .error "hh_move"

/-! ## 3. New and old values -/

section NewOld

variable (key : KeyFunctor K D)

def New.add (x : String) (value : V) (heap : Heap D V) : Heap D V := hhAdd (key.md5 x) value heap

def New.mem (x : String) (heap : Heap D V) : Bool := hhMem (key.md5 x) heap

def New.get (x : String) (heap : Heap D V) : Option V :=
  if hhMem (key.md5 x) heap then hhGetAndDeserialize (key.md5 x) heap else none

def New.remove (x : String) (heap : Heap D V) : Except String (Heap D V) :=
  if hhMem (key.md5 x) heap then hhRemove (key.md5 x) heap else .ok heap

def New.oldify (x : String) (heap : Heap D V) : Except String (Heap D V) :=
  if New.mem key x heap then hhMove (key.md5 x) (key.md5 (KeyFunctor.toOld x)) heap
  else .ok heap

def Old.add (x : String) (value : V) (heap : Heap D V) : Heap D V := hhAdd (key.md5 x) value heap

def Old.mem (x : String) (heap : Heap D V) : Bool := hhMem (key.md5 x) heap

def Old.remove (x : String) (heap : Heap D V) : Except String (Heap D V) :=
  if Old.mem key x heap then hhRemove (key.md5 x) heap else .ok heap

def Old.revive (x : String) (heap : Heap D V) : Except String (Heap D V) :=
  if Old.mem key x heap then do
    let newKey := key.md5 (KeyFunctor.newFromOld x)
    let heap ← if hhMem newKey heap then hhRemove newKey heap else .ok heap
    hhMove (key.md5 x) newKey heap
  else .ok heap

end NewOld

/-! ## 4. The table without a cache -/

namespace NoCache

variable (key : KeyFunctor K D)

def add (x : K) (y : V) (heap : Heap D V) : Heap D V := New.add key (key.make x) y heap

def addOld (x : K) (y : V) (heap : Heap D V) : Heap D V := Old.add key (key.makeOld x) y heap

def get (x : K) (heap : Heap D V) : Option V := New.get key (key.make x) heap

def mem (x : K) (heap : Heap D V) : Bool := New.mem key (key.make x) heap

def memOld (x : K) (heap : Heap D V) : Bool := Old.mem key (key.makeOld x) heap

/-- The bindings of the result, in the order in which the keys are visited. -/
def getBatch (xs : List K) (heap : Heap D V) : List (K × Option V) :=
  xs.map fun x => (x, get key x heap)

def remove (x : K) (heap : Heap D V) : Except String (Heap D V) :=
  New.remove key (key.make x) heap

def removeBatch (xs : List K) (heap : Heap D V) : Except String (Heap D V) :=
  xs.foldlM (fun heap x => remove key x heap) heap

def oldifyBatch (xs : List K) (heap : Heap D V) : Except String (Heap D V) :=
  xs.foldlM (fun heap x =>
    if New.mem key (key.make x) heap then New.oldify key (key.make x) heap
    else Old.remove key (key.makeOld x) heap) heap

def reviveBatch (xs : List K) (heap : Heap D V) : Except String (Heap D V) :=
  xs.foldlM (fun heap x =>
    if Old.mem key (key.makeOld x) heap then Old.revive key (key.makeOld x) heap
    else New.remove key (key.make x) heap) heap

def removeOldBatch (xs : List K) (heap : Heap D V) : Except String (Heap D V) :=
  xs.foldlM (fun heap x => Old.remove key (key.makeOld x) heap) heap

end NoCache

end Pysa.SharedMemory
