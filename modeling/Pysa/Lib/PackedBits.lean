/-
  Subject: FIELDS PACKED INTO A WORD. Nothing here names the analyser.

  A field is put in place by a shift and an `or`, and taken out by a shift and a mask. As numbers
  these are a product and a sum, a quotient and a remainder, as long as no field is too wide.
-/
import Mathlib.Algebra.Order.Ring.Int

namespace Pysa.PackedBits

variable {w : ℕ}

/-- The lowest `bits` bits: `(1 lsl bits) - 1`. -/
def mask (bits : ℕ) : BitVec w := (1#w <<< bits) - 1#w

theorem toNat_mask {bits : ℕ} (h : bits < w) : (mask bits : BitVec w).toNat = 2 ^ bits - 1 := by
  have hone : 1 < 2 ^ w := Nat.one_lt_two_pow (by omega)
  have hlt : 2 ^ bits < 2 ^ w := Nat.pow_lt_pow_right (by decide) h
  have hpos : 0 < 2 ^ bits := Nat.two_pow_pos bits
  unfold mask
  rw [BitVec.toNat_sub, BitVec.toNat_shiftLeft, BitVec.toNat_ofNat, Nat.mod_eq_of_lt hone,
    Nat.shiftLeft_eq, Nat.one_mul, Nat.mod_eq_of_lt hlt,
    show 2 ^ w - 1 + 2 ^ bits = 2 ^ bits - 1 + 2 ^ w by omega, Nat.add_mod_right,
    Nat.mod_eq_of_lt (by omega)]

/-- A mask takes a remainder. -/
theorem toNat_and_mask {bits : ℕ} (h : bits < w) (x : BitVec w) :
    (x &&& mask bits).toNat = x.toNat % 2 ^ bits := by
  rw [BitVec.toNat_and, toNat_mask h, Nat.and_two_pow_sub_one_eq_mod]

/-- A shift to the right takes a quotient. -/
theorem toNat_shiftRight (x : BitVec w) (shift : ℕ) : (x >>> shift).toNat = x.toNat / 2 ^ shift := by
  rw [BitVec.toNat_ushiftRight, Nat.shiftRight_eq_div_pow]

/-- A field above a narrower one. -/
theorem toNat_pack {shift : ℕ} {high low : BitVec w} (hlow : low.toNat < 2 ^ shift)
    (hhigh : high.toNat * 2 ^ shift < 2 ^ w) :
    (high <<< shift ||| low).toNat = high.toNat * 2 ^ shift + low.toNat := by
  rw [BitVec.toNat_or, BitVec.toNat_shiftLeft, Nat.shiftLeft_eq, Nat.mod_eq_of_lt hhigh,
    ← Nat.shiftLeft_eq, ← Nat.shiftLeft_add_eq_or_of_lt hlow]

/-- `0 <= x && x <= mask bits`, on signed words. -/
def fits (x : BitVec w) (bits : ℕ) : Bool := BitVec.sle 0#w x && BitVec.sle x (mask bits)

theorem fits_iff {x : BitVec w} {bits : ℕ} (h : bits + 1 < w) :
    fits x bits = true ↔ x.toNat < 2 ^ bits := by
  have hpow : 2 * 2 ^ bits < 2 ^ w := by
    rw [← Nat.pow_succ']
    exact Nat.pow_lt_pow_right (by decide) h
  have hpos : 0 < 2 ^ bits := Nat.two_pow_pos bits
  have hmask : (mask bits : BitVec w).toInt = (2 ^ bits - 1 : ℕ) := by
    rw [BitVec.toInt_eq_toNat_of_lt (by rw [toNat_mask (by omega)]; omega), toNat_mask (by omega)]
  have hzero : (0#w).toInt = 0 := BitVec.toInt_zero
  unfold fits
  rw [Bool.and_eq_true, BitVec.sle_eq_decide, BitVec.sle_eq_decide, decide_eq_true_iff,
    decide_eq_true_iff, hzero, hmask, BitVec.toInt_eq_toNat_cond]
  have hlt := x.isLt
  split <;> omega

end Pysa.PackedBits
