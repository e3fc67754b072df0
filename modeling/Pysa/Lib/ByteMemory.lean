/-
  Subject: BYTE-ADDRESSED MEMORY. Nothing here names the analyser.

  * `read`, `write` -- numbers of several bytes, the lowest byte first; `read_write`;
  * `bytes`, `store` -- runs of bytes; `bytes_store`;
  * `move` -- one range copied onto another one, which may overlap it; `read_move`, `bytes_move`;
  * `read_congr`, `bytes_congr` -- what is read depends on the bytes of its range only.
-/
import Mathlib.Data.Nat.Notation
import Mathlib.Tactic.Common

namespace Pysa

/-- What is at each address. -/
abbrev ByteMemory := ℕ → UInt8

namespace ByteMemory

variable {memory memory' : ByteMemory} {a n : ℕ}

/-! ## 1. Numbers -/

/-- The numbers of `n` bytes are below it. -/
def limit (n : ℕ) : ℕ := 1 <<< (8 * n)

theorem limit_succ (n : ℕ) : limit (n + 1) = 256 * limit n := by
  rw [limit, limit, Nat.mul_succ, Nat.shiftLeft_add, Nat.shiftLeft_eq _ 8, Nat.mul_comm]

/-- The number in the `n` bytes from an address on. -/
def read (memory : ByteMemory) (a : ℕ) : ℕ → ℕ
  | 0 => 0
  | n + 1 => (memory a).toNat + 256 * memory.read (a + 1) n

def write (memory : ByteMemory) (a n value : ℕ) : ByteMemory := fun b =>
  if a ≤ b ∧ b < a + n then UInt8.ofNat (value >>> (8 * (b - a))) else memory b

theorem write_of_lt {b value : ℕ} (h : b < a) : memory.write a n value b = memory b := by
  rw [write, if_neg (by omega)]

theorem write_of_le {b value : ℕ} (h : a + n ≤ b) : memory.write a n value b = memory b := by
  rw [write, if_neg (by omega)]

theorem read_congr (h : ∀ i < n, memory (a + i) = memory' (a + i)) :
    memory.read a n = memory'.read a n := by
  induction n generalizing a with
  | zero => rfl
  | succ n ih =>
    have hfirst : memory a = memory' a := h 0 (by omega)
    have hrest : memory.read (a + 1) n = memory'.read (a + 1) n := by
      refine ih fun i hi => ?_
      have hi' := h (i + 1) (by omega)
      rw [show a + 1 + i = a + (i + 1) by omega]
      exact hi'
    rw [read, read, hfirst, hrest]

theorem read_of_digits {value : ℕ}
    (h : ∀ i < n, (memory (a + i)).toNat = value >>> (8 * i) % 256) :
    memory.read a n = value % limit n := by
  induction n generalizing a value with
  | zero =>
    show 0 = value % 1
    rw [Nat.mod_one]
  | succ n ih =>
    have hfirst : (memory a).toNat = value % 256 := by
      have h0 := h 0 (by omega)
      rwa [Nat.add_zero, Nat.mul_zero, Nat.shiftRight_zero] at h0
    have hrest : memory.read (a + 1) n = value / 256 % limit n := by
      have hbyte : value / 256 = value >>> 8 := (Nat.shiftRight_eq_div_pow value 8).symm
      rw [hbyte]
      refine ih fun i hi => ?_
      have hi' := h (i + 1) (by omega)
      rw [show a + 1 + i = a + (i + 1) by omega, hi', ← Nat.shiftRight_add,
        show 8 * (i + 1) = 8 + 8 * i by omega]
    rw [read, hfirst, hrest, limit_succ, Nat.mod_mul]

/-- A number that fits is read as it was written. -/
theorem read_write (memory : ByteMemory) (a : ℕ) {n value : ℕ} (h : value < limit n) :
    (memory.write a n value).read a n = value := by
  have hdigits : ∀ i < n,
      (memory.write a n value (a + i)).toNat = value >>> (8 * i) % 256 := by
    intro i hi
    rw [write, if_pos (by omega), Nat.add_sub_cancel_left, UInt8.toNat_ofNat']
  rw [read_of_digits hdigits, Nat.mod_eq_of_lt h]

/-! ## 2. Runs of bytes -/

def bytes (memory : ByteMemory) (a n : ℕ) : List UInt8 :=
  (List.range n).map fun i => memory (a + i)

def store (memory : ByteMemory) (a : ℕ) (data : List UInt8) : ByteMemory := fun b =>
  if a ≤ b then data.getD (b - a) (memory b) else memory b

theorem length_bytes : (memory.bytes a n).length = n := by
  rw [bytes, List.length_map, List.length_range]

theorem bytes_congr (h : ∀ i < n, memory (a + i) = memory' (a + i)) :
    memory.bytes a n = memory'.bytes a n :=
  List.map_congr_left fun i hi => h i (List.mem_range.mp hi)

theorem store_of_lt {b : ℕ} {data : List UInt8} (h : b < a) : memory.store a data b = memory b := by
  rw [store, if_neg (by omega)]

/-- Bytes are read as they were stored. -/
theorem bytes_store (memory : ByteMemory) (a : ℕ) (data : List UInt8) :
    (memory.store a data).bytes a data.length = data := by
  refine List.ext_getElem length_bytes fun i hi hi' => ?_
  simp only [bytes, List.getElem_map, List.getElem_range]
  rw [store, if_pos (by omega), Nat.add_sub_cancel_left, List.getD_eq_getElem?_getD,
    List.getElem?_eq_getElem hi', Option.getD_some]

/-! ## 3. Ranges -/

/-- `memmove`. -/
def move (memory : ByteMemory) (dest src n : ℕ) : ByteMemory := fun b =>
  if dest ≤ b ∧ b < dest + n then memory (src + (b - dest)) else memory b

theorem move_of_lt {dest src b : ℕ} (h : b < dest) : memory.move dest src n b = memory b := by
  rw [move, if_neg (by omega)]

theorem move_of_le {dest src b : ℕ} (h : dest + n ≤ b) : memory.move dest src n b = memory b := by
  rw [move, if_neg (by omega)]

theorem move_add {dest src i : ℕ} (h : i < n) :
    memory.move dest src n (dest + i) = memory (src + i) := by
  rw [move, if_pos (by omega), Nat.add_sub_cancel_left]

theorem read_move {dest src i k : ℕ} (h : i + k ≤ n) :
    (memory.move dest src n).read (dest + i) k = memory.read (src + i) k := by
  induction k generalizing i with
  | zero => rfl
  | succ k ih => rw [read, read, move_add (by omega), Nat.add_assoc, Nat.add_assoc, ih (by omega)]

theorem bytes_move {dest src i k : ℕ} (h : i + k ≤ n) :
    (memory.move dest src n).bytes (dest + i) k = memory.bytes (src + i) k := by
  refine List.map_congr_left fun j hj => ?_
  have hj' := List.mem_range.mp hj
  rw [Nat.add_assoc, move_add (by omega), Nat.add_assoc]

end ByteMemory

end Pysa
