/-
  Subject: SETS OF INTEGERS AS A BIT MASK AND A PATRICIA TREE (`bitSetPatriciaTreeIntSet.ml`).

  The first 63 of the common integers, sorted, have a bit each in one native integer; all other
  integers are in a Patricia tree.

  * `foldBitset` -- the walk over the bits; an access to `bitToInteger` beyond its end fails.
-/
import Mathlib.Data.List.Sort
import Pysa.Lib.AssocMap
import Pysa.DataStructures.PatriciaTreeSet

namespace Pysa

structure BitSetPatriciaTreeIntSet where
  bitset : Int63
  tree : PatriciaSet Int63

namespace BitSetPatriciaTreeIntSet

/-! ## 1. The mapping -/

section Mapping

-- `Config.common_integers`
variable (commonIntegers : Array Int63)

/-- `bit_to_integer.(bit) = value` means that `value` is stored at the position `bit`. -/
def bitToInteger : Array Int63 :=
  let mapping := commonIntegers.extract 0 (min 63 commonIntegers.size)
  (mapping.toList.insertionSort fun left right => left.toInt ≤ right.toInt).toArray

/-- `Hashtbl.add` keeps the data that a key already has. -/
def hashtblAdd (table : AssocMap Int63 Nat) (key : Int63) (data : Nat) : AssocMap Int63 Nat :=
  if key ∈ table then table else table.insert key data

def integerToBit : AssocMap Int63 Nat :=
  (bitToInteger commonIntegers).toList.zipIdx.foldl
    (fun table entry => hashtblAdd table entry.1 entry.2) ∅

def getIntegerBit (integer : Int63) : Option Nat := (integerToBit commonIntegers).lookup integer

/-- `bit_to_integer.(index)`. -/
def integerAt (index : Nat) : Except String Int63 :=
  match (bitToInteger commonIntegers)[index]? with
  | some integer => .ok integer
  | none => .error "index out of bounds"

end Mapping

/-! ## 2. Sets -/

variable (commonIntegers : Array Int63) (phys : PhysEq (PatriciaTree Int63))

def empty : BitSetPatriciaTreeIntSet := ⟨0#63, PatriciaSet.empty⟩

def isEmpty (set : BitSetPatriciaTreeIntSet) : Bool :=
  decide (set.bitset = 0#63) && set.tree.isEmpty

def add (element : Int63) (set : BitSetPatriciaTreeIntSet) : BitSetPatriciaTreeIntSet :=
  match getIntegerBit commonIntegers element with
  | some bit => { set with bitset := set.bitset ||| 1#63 <<< bit }
  | none => { set with tree := set.tree.add int63 phys element }

def mem (element : Int63) (set : BitSetPatriciaTreeIntSet) : Bool :=
  match getIntegerBit commonIntegers element with
  | some bit =>
    let pattern := 1#63 <<< bit
    decide (set.bitset &&& pattern = pattern)
  | none => set.tree.mem int63 element

def singleton (element : Int63) : BitSetPatriciaTreeIntSet := add commonIntegers phys element empty

def remove (element : Int63) (set : BitSetPatriciaTreeIntSet) : BitSetPatriciaTreeIntSet :=
  match getIntegerBit commonIntegers element with
  | some bit => { set with bitset := set.bitset &&& ~~~(1#63 <<< bit) }
  | none => { set with tree := set.tree.remove int63 phys element }

def union (left right : BitSetPatriciaTreeIntSet) : BitSetPatriciaTreeIntSet :=
  ⟨left.bitset ||| right.bitset, left.tree.union int63 phys right.tree⟩

def inter (left right : BitSetPatriciaTreeIntSet) : BitSetPatriciaTreeIntSet :=
  ⟨left.bitset &&& right.bitset, left.tree.inter int63 phys right.tree⟩

def diff (left right : BitSetPatriciaTreeIntSet) : BitSetPatriciaTreeIntSet :=
  ⟨left.bitset &&& ~~~right.bitset, left.tree.diff int63 phys right.tree⟩

def equal (left right : BitSetPatriciaTreeIntSet) : Bool :=
  decide (left.bitset = right.bitset) && left.tree.equal int63 phys right.tree

def subset (left right : BitSetPatriciaTreeIntSet) : Bool :=
  decide (left.bitset &&& right.bitset = left.bitset) && left.tree.subset int63 phys right.tree

theorem ushiftRight_lt {bitset : Int63} (h : bitset ≠ 0#63) :
    (bitset >>> 1).toNat < bitset.toNat := by
  have hpos : bitset.toNat ≠ 0 := fun hzero => h (BitVec.eq_of_toNat_eq hzero)
  rw [BitVec.toNat_ushiftRight, Nat.shiftRight_eq_div_pow]
  omega

/-- `fold_bitset`, from a position on. The function may read `bit_to_integer` and fail. -/
def foldBitset {A : Type} (f : Nat → A → Except String A) (bitset : Int63) (index : Nat)
    (accumulator : A) : Except String A :=
  if bitset = 0#63 then .ok accumulator
  else do
    let accumulator ← if bitset &&& 1#63 = 1#63 then f index accumulator else .ok accumulator
    foldBitset f (bitset >>> 1) (index + 1) accumulator
termination_by bitset.toNat
decreasing_by exact ushiftRight_lt ‹_›

def fold {A : Type} (f : Int63 → A → A) (set : BitSetPatriciaTreeIntSet) (init : A) :
    Except String A := do
  let accumulator ← foldBitset (fun index accumulator => do
    return f (← integerAt commonIntegers index) accumulator) set.bitset 0 init
  return set.tree.fold f accumulator

def elements (set : BitSetPatriciaTreeIntSet) : Except String (List Int63) :=
  fold commonIntegers (fun element results => element :: results) set []

def map (f : Int63 → Int63) (set : BitSetPatriciaTreeIntSet) :
    Except String BitSetPatriciaTreeIntSet :=
  fold commonIntegers (fun element set => add commonIntegers phys (f element) set) set empty

def filter (predicate : Int63 → Bool) (set : BitSetPatriciaTreeIntSet) :
    Except String BitSetPatriciaTreeIntSet := do
  let bitset ← foldBitset (fun index accumulator => do
    if predicate (← integerAt commonIntegers index) then return accumulator ||| 1#63 <<< index
    else return accumulator) set.bitset 0 0#63
  return ⟨bitset, set.tree.filter phys predicate⟩

def cardinal (set : BitSetPatriciaTreeIntSet) : Except String Nat :=
  fold commonIntegers (fun _ count => count + 1) set 0

def ofList (elements : List Int63) : BitSetPatriciaTreeIntSet :=
  elements.foldl (fun accumulator element => add commonIntegers phys element accumulator) empty

end BitSetPatriciaTreeIntSet

end Pysa
