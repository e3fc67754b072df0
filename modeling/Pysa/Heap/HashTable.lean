/-
  Subject: THE HASH TABLE IN SHARED MEMORY (`hh_shared.c`), as its workers fill and read it.

  Each access to the shared memory is a step of its own, and the steps of the workers are interleaved
  in any way. A key is the first word of its digest. No worker removes a key, as the code requires
  of a phase in which several of them run.

  * `Config`, `Shared` -- the sizes, the table, the counter of its slots, and the heap;
  * `Pc` -- where a worker is in `hh_add`, `hh_mem` or `hh_get_and_deserialize`;
  * `advance` -- the next access of a worker;
  * `Step`, `Run` -- the runs of all workers, with the calls and the answers on their way;
  * `schedule` -- the run of given workers in a given order.
-/
import Mathlib.Data.Finset.Card
import Mathlib.Data.Finset.Range
import Mathlib.Data.Nat.Bitwise
import Pysa.Lib.LinearProbing

namespace Pysa.SharedHeap

/-! ## 1. The shared memory -/

/-- `hh_shared_init`: a table of `1 << pow` slots, and the heap between two addresses. -/
structure Config where
  pow : ℕ
  heapInit : ℕ
  heapMax : ℕ
  heapInit_gt : 1 < heapInit

namespace Config

variable (config : Config)

def hashtblSize : ℕ := 1 <<< config.pow

/-- The slot where a search starts. -/
def home (hash : ℕ) : ℕ := hash &&& (config.hashtblSize - 1)

def next (slot : ℕ) : ℕ := (slot + 1) &&& (config.hashtblSize - 1)

end Config

/-- The key of a value, which is the start of its digest. The table takes zero for a free slot. -/
structure Digest where
  word : ℕ
  ne_zero : word ≠ 0

theorem Digest.ext {key key' : Digest} (h : key.word = key'.word) : key = key' := by
  cases key
  cases key'
  cases h
  rfl

/-- `helt_t`. -/
structure Cell where
  hash : ℕ
  addr : ℕ

/-- `NULL`. -/
def null : ℕ := 0

/-- `HASHTBL_WRITE_IN_PROGRESS`. -/
def writeInProgress : ℕ := 1

/-- `ALIGNED`: up to the next multiple of a cache line. -/
def aligned (x : ℕ) : ℕ := (x + 63) / 64 * 64

/-- What is stored of a value of `size` bytes: a header of eight bytes is in front of it. -/
def slotSize (size : ℕ) : ℕ := aligned (8 + size)

structure Shared (V : Type) where
  hashtbl : ℕ → Cell
  /-- `hcounter`, the number of slots taken in the table. -/
  hcounter : ℕ
  /-- The top of the heap. -/
  heap : ℕ
  /-- What is at an address where something was stored. -/
  memory : ℕ → Option V

namespace Shared

variable {V : Type}

def setHash (slot hash : ℕ) (shared : Shared V) : Shared V :=
  { shared with hashtbl := Function.update shared.hashtbl slot ⟨hash, (shared.hashtbl slot).addr⟩ }

def setAddr (slot addr : ℕ) (shared : Shared V) : Shared V :=
  { shared with hashtbl := Function.update shared.hashtbl slot ⟨(shared.hashtbl slot).hash, addr⟩ }

def initial (config : Config) : Shared V where
  hashtbl := fun _ => ⟨0, null⟩
  hcounter := 0
  heap := config.heapInit
  memory := fun _ => none

end Shared

/-- The slots in use, as `get_slots_stats` counts them. -/
def nonemptySlots {V : Type} (config : Config) (shared : Shared V) : ℕ :=
  ((Finset.range config.hashtblSize).filter fun i => (shared.hashtbl i).hash ≠ 0).card

/-! ## 2. Workers -/

inductive Op (V : Type) where
  | add (key : Digest) (data : V)
  | mem (key : Digest)
  | get (key : Digest)

inductive Answer (V : Type) where
  /-- Whether this call has written the value. -/
  | added (key : Digest) (wrote : Bool)
  /-- 1: there; -1: not in the table; -2: in the table, without a value. -/
  | mem (key : Digest) (status : ℤ)
  | value (key : Digest) (data : V)

/-- What a search for a slot is for. -/
inductive Look where
  | mem
  | get

/-- The next access of a worker, with the variables of its call. -/
inductive Pc (V : Type) where
  | idle
  /-- `slot_hash = hashtbl[slot].hash` -/
  | addLoad (key : Digest) (data : V) (slot : ℕ)
  /-- `*hcounter >= hashtbl_size` -/
  | addCheck (key : Digest) (data : V) (slot slotHash : ℕ)
  /-- `__sync_bool_compare_and_swap(&(hashtbl[slot].hash), 0, hash)` -/
  | addGrab (key : Digest) (data : V) (slot : ℕ)
  /-- `__sync_fetch_and_add(hcounter, 1)` -/
  | addIncrement (key : Digest) (data : V) (slot : ℕ)
  /-- `hashtbl[slot].hash == hash`, after the slot was not grabbed -/
  | addReload (key : Digest) (data : V) (slot : ℕ)
  /-- `__sync_bool_compare_and_swap(&(hashtbl[slot].addr), NULL, HASHTBL_WRITE_IN_PROGRESS)` -/
  | writeAt (key : Digest) (data : V) (slot : ℕ)
  /-- `hh_store_ocaml` -/
  | store (key : Digest) (data : V) (slot : ℕ)
  /-- `hashtbl[slot].addr = ...` -/
  | publish (key : Digest) (data : V) (slot chunk : ℕ)
  /-- `hashtbl[slot].hash == hash` in `find_slot` -/
  | find (look : Look) (key : Digest) (slot : ℕ)
  /-- `hashtbl[slot].hash == 0` in `find_slot` -/
  | findFree (look : Look) (key : Digest) (slot : ℕ)
  /-- `hashtbl[slot].hash == get_hash(key)`, behind `find_slot` -/
  | found (look : Look) (key : Digest) (slot : ℕ)
  /-- `hashtbl[slot].addr != NULL` -/
  | memAddr (key : Digest) (slot : ℕ) (goodHash : Bool)
  /-- `while (hashtbl[slot].addr == HASHTBL_WRITE_IN_PROGRESS)` -/
  | memWait (key : Digest) (slot : ℕ)
  /-- `hh_deserialize(hashtbl[slot].addr)` -/
  | getAddr (key : Digest) (slot : ℕ)
  | answer (answer : Answer V)
  | stopped

/-- The call of an operation, what it answers, an exception, and an assertion that fails (the last
    one is that there is a value at the address). -/
inductive Event (V : Type) where
  | call (op : Op V)
  | internal
  | returned (answer : Answer V)
  | raised
  | crashed (assertion : String)

variable {V : Type}

def Op.start (config : Config) : Op V → Pc V
  | .add key data => .addLoad key data (config.home key.word)
  | .mem key => .find .mem key (config.home key.word)
  | .get key => .find .get key (config.home key.word)

/-- The next slot of a search that starts at the home slot of its key; the table is full if this is
    where it has started. -/
def nextSlot (config : Config) (key : Digest) (slot : ℕ) (shared : Shared V) (go : ℕ → Pc V) :
    Event V × Shared V × Pc V :=
  if config.next slot = config.home key.word then (.raised, shared, .idle)
  else (.internal, shared, go (config.next slot))

/-- The next access of a worker. -/
def advance (config : Config) (size : V → ℕ) (shared : Shared V) :
    Pc V → Event V × Shared V × Pc V
  | .idle => (.internal, shared, .idle)
  | .addLoad key data slot =>
    let slotHash := (shared.hashtbl slot).hash
    if slotHash = key.word then (.internal, shared, .writeAt key data slot)
    else (.internal, shared, .addCheck key data slot slotHash)
  | .addCheck key data slot slotHash =>
    -- never going to find a spot
    if shared.hcounter ≥ config.hashtblSize then (.raised, shared, .idle)
    else if slotHash = 0 then (.internal, shared, .addGrab key data slot)
    else nextSlot config key slot shared (.addLoad key data)
  | .addGrab key data slot =>
    if (shared.hashtbl slot).hash = 0 then
      (.internal, shared.setHash slot key.word, .addIncrement key data slot)
    else (.internal, shared, .addReload key data slot)
  | .addIncrement key data slot =>
    let incremented := { shared with hcounter := shared.hcounter + 1 }
    if shared.hcounter < config.hashtblSize then (.internal, incremented, .writeAt key data slot)
    else (.crashed "size < hashtbl_size", incremented, .stopped)
  | .addReload key data slot =>
    if (shared.hashtbl slot).hash = key.word then (.internal, shared, .writeAt key data slot)
    else nextSlot config key slot shared (.addLoad key data)
  | .writeAt key data slot =>
    if (shared.hashtbl slot).addr = null then
      (.internal, shared.setAddr slot writeInProgress, .store key data slot)
    else (.internal, shared, .answer (.added key false))
  | .store key data slot =>
    let chunk := shared.heap
    let allocated := { shared with heap := chunk + slotSize (size data) }
    -- a slot stays in progress when the heap is full; assert(size < 0x80000000) is left out
    if chunk + slotSize (size data) > config.heapMax then (.raised, allocated, .idle)
    else (.internal, { allocated with memory := Function.update shared.memory chunk (some data) },
      .publish key data slot chunk)
  | .publish key _ slot chunk => (.internal, shared.setAddr slot chunk, .answer (.added key true))
  | .find look key slot =>
    if (shared.hashtbl slot).hash = key.word then (.internal, shared, .found look key slot)
    else (.internal, shared, .findFree look key slot)
  | .findFree look key slot =>
    if (shared.hashtbl slot).hash = 0 then (.internal, shared, .found look key slot)
    else nextSlot config key slot shared (.find look key)
  | .found .mem key slot =>
    (.internal, shared, .memAddr key slot ((shared.hashtbl slot).hash = key.word))
  | .found .get key slot =>
    if (shared.hashtbl slot).hash = key.word then (.internal, shared, .getAddr key slot)
    else (.crashed "hashtbl[slot].hash == get_hash(key)", shared, .stopped)
  | .memAddr key slot goodHash =>
    if goodHash then
      if (shared.hashtbl slot).addr ≠ null then (.internal, shared, .memWait key slot)
      else (.internal, shared, .answer (.mem key (-2)))
    else (.internal, shared, .answer (.mem key (-1)))
  | .memWait key slot =>
    if (shared.hashtbl slot).addr = writeInProgress then (.internal, shared, .memWait key slot)
    else (.internal, shared, .answer (.mem key 1))
  | .getAddr key slot =>
    match shared.memory (shared.hashtbl slot).addr with
    | some data => (.internal, shared, .answer (.value key data))
    | none => (.crashed "hh_deserialize", shared, .stopped)
  | .answer answer => (.returned answer, shared, .idle)
  | .stopped => (.internal, shared, .stopped)

/-! ## 3. Runs -/

structure State (W V : Type) where
  shared : Shared V
  pc : W → Pc V

variable {W : Type} [DecidableEq W]

def State.initial (config : Config) : State W V := ⟨.initial config, fun _ => .idle⟩

/-- One step of one worker. -/
inductive Step (config : Config) (size : V → ℕ) :
    State W V → W × Event V → State W V → Prop where
  | call {state : State W V} {w : W} {op : Op V} (hidle : state.pc w = .idle) :
      Step config size state (w, .call op)
        { state with pc := Function.update state.pc w (op.start config) }
  | access {state : State W V} {w : W} (hbusy : state.pc w ≠ .idle) :
      Step config size state (w, (advance config size state.shared (state.pc w)).1)
        { shared := (advance config size state.shared (state.pc w)).2.1
          pc := Function.update state.pc w (advance config size state.shared (state.pc w)).2.2 }
  /-- `hh_mem busy-wait loop stuck for 60s` -/
  | timeout {state : State W V} {w : W} {key : Digest} {slot : ℕ}
      (hwait : state.pc w = .memWait key slot) :
      Step config size state (w, .raised) { state with pc := Function.update state.pc w .idle }

/-- A run from one state to another, with its events. -/
inductive Run (config : Config) (size : V → ℕ) (start : State W V) :
    List (W × Event V) → State W V → Prop where
  | nil : Run config size start [] start
  | snoc {trace : List (W × Event V)} {state state' : State W V} {event : W × Event V}
      (h : Run config size start trace state) (hstep : Step config size state event state') :
      Run config size start (trace ++ [event]) state'

def Pc.isIdle : Pc V → Bool
  | .idle => true
  | _ => false

/-- The workers that make the next steps; those that are idle make the calls. -/
def schedule (config : Config) (size : V → ℕ) :
    List (W × Option (Op V)) → State W V → Option (List (W × Event V) × State W V)
  | [], state => some ([], state)
  | (w, some op) :: rest, state =>
    if (state.pc w).isIdle then
      (schedule config size rest
        { state with pc := Function.update state.pc w (op.start config) }).map fun result =>
          ((w, .call op) :: result.1, result.2)
    else none
  | (w, none) :: rest, state =>
    if (state.pc w).isIdle then none
    else
      (schedule config size rest
        { shared := (advance config size state.shared (state.pc w)).2.1
          pc := Function.update state.pc w
            (advance config size state.shared (state.pc w)).2.2 }).map fun result =>
          ((w, (advance config size state.shared (state.pc w)).1) :: result.1, result.2)

end Pysa.SharedHeap
