/-
  Subject: THE CACHES OF A PROCESS (`sharedMemory.ml`).

  A hash table only ever has one binding of a key, as the caches write with `replace`. In which
  order `Hashtbl.iter` visits the bindings is a parameter.

  * `FreqCache` -- the values most frequently used;
  * `OrderedCache` -- the values most recently used; an empty queue is an error;
  * `LocalCache` -- the second one in front of the first one.
-/
import Mathlib.Data.List.Sort
import Pysa.Lib.AssocMap

namespace Pysa.SharedMemory

/-- The order in which the bindings of a hash table are visited. -/
structure IterationOrder (A : Type) where
  order : List A → List A
  perm : ∀ bindings, (order bindings).Perm bindings

variable {K V : Type} [DecidableEq K]

/-! ## 1. The most frequently used values -/

structure FreqCache (K V : Type) where
  /-- how often a value was used, and the value -/
  cache : AssocMap K (ℕ × V)
  size : Int

namespace FreqCache

variable (capacity : ℕ) (iteration : IterationOrder (Sigma fun _ : K => ℕ × V))

def empty : FreqCache K V := ⟨∅, 0⟩

/-- The loop that writes the first bindings of the list, at most `capacity` of them. -/
def keepFirst : ℕ → List (Sigma fun _ : K => ℕ × V) → AssocMap K (ℕ × V) → AssocMap K (ℕ × V)
  | 0, _, cache => cache
  | _, [], cache => cache
  | left + 1, ⟨k, (_, v)⟩ :: rest, cache => keepFirst left rest (cache.insert k (0, v))

def collect (c : FreqCache K V) : FreqCache K V :=
  if c.size < 2 * capacity then c
  else
    let bindings := (iteration.order c.cache.entries).reverse
    let sorted := bindings.mergeSort fun a b => decide (b.2.1 ≤ a.2.1)
    ⟨keepFirst capacity sorted ∅, capacity⟩

def add (x : K) (y : V) (c : FreqCache K V) : FreqCache K V :=
  let c := collect capacity iteration c
  match c.cache.lookup x with
  | some (freq, _) => { c with cache := c.cache.insert x (freq + 1, y) }
  | none => ⟨c.cache.insert x (0, y), c.size + 1⟩

/-- The value, whose count goes up. -/
def get (x : K) (c : FreqCache K V) : Option V × FreqCache K V :=
  match c.cache.lookup x with
  | some (freq, value) => (some value, { c with cache := c.cache.insert x (freq + 1, value) })
  | none => (none, c)

def remove (x : K) (c : FreqCache K V) : FreqCache K V :=
  let size := if (c.cache.lookup x).isSome then c.size - 1 else c.size
  ⟨c.cache.erase x, size⟩

end FreqCache

/-! ## 2. The most recently used values -/

structure OrderedCache (K V : Type) where
  cache : AssocMap K V
  queue : List K
  size : Int

namespace OrderedCache

variable (capacity : ℕ)

def empty : OrderedCache K V := ⟨∅, [], 0⟩

/-- Removes the oldest key of the queue, which may no longer be in the cache. -/
def evict (c : OrderedCache K V) : Except String (OrderedCache K V) :=
  match c.queue with
  | [] => .error "Queue.Empty"
  | elt :: queue =>
    if (c.cache.lookup elt).isSome then .ok ⟨c.cache.erase elt, queue, c.size - 1⟩
    else .ok { c with queue }

def add (x : K) (y : V) (c : OrderedCache K V) : Except String (OrderedCache K V) := do
  let c ← if c.size ≥ capacity then evict c else .ok c
  let size := if (c.cache.lookup x).isSome then c.size else c.size + 1
  return ⟨c.cache.insert x y, c.queue ++ [x], size⟩

def get (x : K) (c : OrderedCache K V) : Option V := c.cache.lookup x

/-- The queue keeps the key. -/
def remove (x : K) (c : OrderedCache K V) : OrderedCache K V :=
  let size := if (c.cache.lookup x).isSome then c.size - 1 else c.size
  ⟨c.cache.erase x, c.queue, size⟩

end OrderedCache

/-! ## 3. The cache of a table -/

/-- `ConfValue.capacity`, of both caches. -/
def capacity : ℕ := 1000

structure LocalCache (K V : Type) where
  l1 : OrderedCache K V
  l2 : FreqCache K V

namespace LocalCache

variable (iteration : IterationOrder (Sigma fun _ : K => ℕ × V))

def empty : LocalCache K V := ⟨.empty, .empty⟩

def add (x : K) (y : V) (c : LocalCache K V) : Except String (LocalCache K V) := do
  let l1 ← c.l1.add capacity x y
  return ⟨l1, c.l2.add capacity iteration x y⟩

def get (x : K) (c : LocalCache K V) : Except String (Option V × LocalCache K V) :=
  match c.l1.get x with
  | none =>
    match c.l2.get x with
    | (none, l2) => .ok (none, { c with l2 })
    | (some v, l2) => do
      let l1 ← c.l1.add capacity x v
      return (some v, ⟨l1, l2⟩)
  | some v => .ok (some v, { c with l2 := c.l2.add capacity iteration x v })

def remove (x : K) (c : LocalCache K V) : LocalCache K V := ⟨c.l1.remove x, c.l2.remove x⟩

end LocalCache

end Pysa.SharedMemory
