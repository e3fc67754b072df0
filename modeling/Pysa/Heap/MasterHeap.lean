/-
  Subject: THE HASH TABLE AND ITS HEAP WHEN ONLY THE MASTER WORKS ON THEM (`hh_shared.c`).

  There are no workers, so that values may be removed and moved and the heap may be compacted, and
  a compare-and-swap is an assignment. The heap is bytes; an entry of it is found by its address.

  * `Layout`, `State` -- where the table and the heap lie, and what is in them;
  * `findSlot`, `hhAdd`, `hhMem`, `hhGetAndDeserialize`, `hhMove`, `hhRemove`;
  * `markSlot`, `slide`, `hhCollect` -- the compaction of the heap;
  * `step` -- one operation. An assertion that fails, an exception and a pointer that is `NULL` are
    errors.
-/
import Pysa.Heap.HashTable
import Pysa.Heap.HeapEntry
import Pysa.Lib.Machine

namespace Pysa.MasterHeap

open SharedHeap (Config Digest Cell null writeInProgress slotSize)

/-! ## 1. The state -/

/-- `define_globals`: the heap lies behind the table, whose cells are of sixteen bytes. -/
structure Layout extends Config where
  hashtbl : ℕ
  hashtbl_aligned : hashtbl % 8 = 0
  heapInit_eq : heapInit = hashtbl + 16 * (1 <<< pow)
  heapInit_le : heapInit ≤ ByteMemory.limit 8

namespace Layout

variable (layout : Layout)

/-- `&hashtbl[slot].addr` -/
def addrField (slot : ℕ) : ℕ := layout.hashtbl + 16 * slot + 8

/-- The slot of a pointer to the `addr` of a cell. -/
def slotOf (pointer : ℕ) : ℕ := (pointer - layout.hashtbl - 8) / 16

end Layout

structure State where
  hashtbl : ℕ → Cell
  hcounter : ℕ
  /-- The top of the heap. -/
  heap : ℕ
  memory : ByteMemory
  wastedHeapSize : ℕ
  removedCount : ℕ

namespace State

variable (state : State)

def setHash (slot hash : ℕ) : State :=
  { state with hashtbl := Function.update state.hashtbl slot ⟨hash, (state.hashtbl slot).addr⟩ }

def setAddr (slot addr : ℕ) : State :=
  { state with hashtbl := Function.update state.hashtbl slot ⟨(state.hashtbl slot).hash, addr⟩ }

/-- `init_shared_globals` -/
def initial (layout : Layout) (memory : ByteMemory) : State where
  hashtbl := fun _ => ⟨0, null⟩
  hcounter := 0
  heap := layout.heapInit
  memory := memory
  wastedHeapSize := 0
  removedCount := 0

end State

/-! ## 2. The table -/

section Table

variable (layout : Layout)

/-- `find_slot` from some slot on. It is back at its first slot after as many as there are. -/
def findSlotFrom (hashtbl : ℕ → Cell) (hash : ℕ) : ℕ → ℕ → Except String ℕ
  | 0, _ => .error "hash_table_full"
  | fuel + 1, slot =>
    if (hashtbl slot).hash = hash then .ok slot
    else if (hashtbl slot).hash = 0 then .ok slot
    else if layout.next slot = layout.home hash then .error "hash_table_full"
    else findSlotFrom hashtbl hash fuel (layout.next slot)

def findSlot (key : Digest) (state : State) : Except String ℕ :=
  findSlotFrom layout state.hashtbl key.word layout.hashtblSize (layout.home key.word)

variable {O : Type} (codec : Codec O)

/-- `hh_alloc`, and the copy of the data behind the header. -/
def hhAlloc (header : ℕ) (data : List UInt8) (state : State) : Except String (ℕ × State) :=
  let chunk := state.heap
  let size := slotSize (entrySize header)
  if chunk + size > layout.heapMax then .error "heap_full"
  else .ok (chunk, { state with
    heap := chunk + size
    memory := writeEntry state.memory chunk header data })

/-- `write_at`: the sizes of the value, compressed and not, or nothing. -/
def writeAt (slot : ℕ) (data : Value O) (state : State) :
    Except String (Option (ℕ × ℕ) × State) :=
  if (state.hashtbl slot).addr = null then do
    let stored ← hhStoreOcaml codec data
    let chunk ← hhAlloc layout stored.1 stored.2 (state.setAddr slot writeInProgress)
    .ok (some (stored.2.length, origSize codec data), chunk.2.setAddr slot chunk.1)
  else .ok (none, state)

/-- The loop of `hh_add`. -/
def hhAddFrom (key : Digest) (data : Value O) :
    ℕ → ℕ → State → Except String (Option (ℕ × ℕ) × State)
  | 0, _, _ => .error "hash_table_full"
  | fuel + 1, slot, state =>
    let slotHash := (state.hashtbl slot).hash
    if slotHash = key.word then writeAt layout codec slot data state
    -- never going to find a spot, even if the key is in the table
    else if state.hcounter ≥ layout.hashtblSize then .error "hash_table_full"
    else if slotHash = 0 then
      writeAt layout codec slot data
        { state.setHash slot key.word with hcounter := state.hcounter + 1 }
    else if layout.next slot = layout.home key.word then .error "hash_table_full"
    else hhAddFrom key data fuel (layout.next slot) state

def hhAdd (key : Digest) (data : Value O) (state : State) :
    Except String (Option (ℕ × ℕ) × State) :=
  hhAddFrom layout codec key data layout.hashtblSize (layout.home key.word) state

/-- `hh_mem`, of which `hh_mem_inner` finds the slot. -/
def hhMem (key : Digest) (state : State) : Except String Bool := do
  let slot ← findSlot layout key state
  let goodHash : Bool := (state.hashtbl slot).hash = key.word
  if goodHash && (state.hashtbl slot).addr ≠ null then
    if (state.hashtbl slot).addr = writeInProgress then
      .error "hh_mem busy-wait loop stuck for 60s"
    else .ok true
  else .ok false

def hhGetAndDeserialize (key : Digest) (state : State) : Except String (Value O) := do
  let slot ← findSlot layout key state
  if (state.hashtbl slot).hash = key.word then
    if (state.hashtbl slot).addr = null then .error "NULL"
    else hhDeserialize codec state.memory (state.hashtbl slot).addr
  else .error "hashtbl[slot].hash == get_hash(key)"

def hhMove (key1 key2 : Digest) (state : State) : Except String State := do
  let slot1 ← findSlot layout key1 state
  let slot2 ← findSlot layout key2 state
  if (state.hashtbl slot1).hash = key1.word then
    if (state.hashtbl slot2).addr = null then
      let counted :=
        if (state.hashtbl slot2).hash = 0 then { state with hcounter := state.hcounter + 1 }
        else state
      let named := counted.setHash slot2 key2.word
      let bound := named.setAddr slot2 (named.hashtbl slot1).addr
      .ok (bound.setAddr slot1 null)
    else .error "hashtbl[slot2].addr == NULL"
  else .error "hashtbl[slot1].hash == get_hash(key1)"

def hhRemove (key : Digest) (state : State) : Except String State := do
  let slot ← findSlot layout key state
  if (state.hashtbl slot).hash = key.word then
    if (state.hashtbl slot).addr = null then .error "NULL"
    else
      let size := slotSize (entrySize (state.memory.read (state.hashtbl slot).addr 8))
      let wasted := { state with wastedHeapSize := state.wastedHeapSize + size }
      let unbound := wasted.setAddr slot null
      .ok { unbound with removedCount := state.removedCount + 1 }
  else .error "hashtbl[slot].hash == get_hash(key)"

/-! ## 3. Compaction -/

/-- Step 1 of `hh_collect` at one slot: the header goes to the cell, and a pointer to the cell to
    where the header was. -/
def markSlot (state : State) (slot : ℕ) : Except String State :=
  if (state.hashtbl slot).addr = null then .ok state
  else if (state.hashtbl slot).addr = writeInProgress then
    .error "hashtbl[i].addr != HASHTBL_WRITE_IN_PROGRESS"
  else
    let heapAddr := (state.hashtbl slot).addr
    let header := state.memory.read heapAddr 8
    .ok { state.setAddr slot header with
      memory := state.memory.write heapAddr 8 (layout.addrField slot) }

/-- Step 2: the entries from `src` to the top of the heap. Each one has a size, so that no more
    steps are needed than there are bytes; `none` if there were. -/
def slide : ℕ → ℕ → ℕ → State → Option (ℕ × State)
  | 0, dest, src, state => if src < state.heap then none else some (dest, state)
  | fuel + 1, dest, src, state =>
    if src < state.heap then
      if state.memory.read src 8 &&& 1 ≠ 0 then
        -- a header: the entry was not marked
        let header := state.memory.read src 8
        let alignedSize := slotSize (entrySize header)
        slide fuel dest (src + alignedSize) state
      else
        let slot := layout.slotOf (state.memory.read src 8)
        let header := (state.hashtbl slot).addr
        let alignedSize := slotSize (entrySize header)
        let moved := { state.setAddr slot dest with
          memory := (state.memory.write src 8 header).move dest src alignedSize }
        slide fuel (dest + alignedSize) (src + alignedSize) moved
    else some (dest, state)

def hhCollect (state : State) : Except String State := do
  let marked ← (List.range layout.hashtblSize).foldlM (markSlot layout) state
  match slide layout (marked.heap - layout.heapInit) layout.heapInit layout.heapInit marked with
  | some (dest, slid) => .ok { slid with heap := dest, wastedHeapSize := 0 }
  | none => .error "out of fuel"

/-! ## 4. Operations -/

inductive Op (O : Type) where
  | add (key : Digest) (data : Value O)
  | mem (key : Digest)
  | get (key : Digest)
  | move (key1 key2 : Digest)
  | remove (key : Digest)
  | collect

inductive Answer (O : Type) where
  | added (sizes : Option (ℕ × ℕ))
  | mem (present : Bool)
  | value (data : Value O)
  | unit

def step : Machine (Op O) (Answer O) State
  | .add key data, state => do
    let result ← hhAdd layout codec key data state
    .ok (.added result.1, result.2)
  | .mem key, state => do
    let present ← hhMem layout key state
    .ok (.mem present, state)
  | .get key, state => do
    let data ← hhGetAndDeserialize layout codec key state
    .ok (.value data, state)
  | .move key1 key2, state => do
    let next ← hhMove layout key1 key2 state
    .ok (.unit, next)
  | .remove key, state => do
    let next ← hhRemove layout key state
    .ok (.unit, next)
  | .collect, state => do
    let next ← hhCollect layout state
    .ok (.unit, next)

end Table

end Pysa.MasterHeap
