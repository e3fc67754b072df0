/-
  Subject: LOW BITS OF BIT VECTORS. Nothing here names the analyser.

  What a little-endian binary trie computes with: words that agree below a bit, the bits below a
  bit, the lowest set bit, and the signed order of the powers of two.

  * `lowBits`, `lowBits_eq_iff` -- equal low bits mean agreement;
  * `lowestBit_eq` -- `x &&& (~~~x + 1)` is the lowest set bit;
  * `toInt_twoPow_lt_iff` -- the signed order puts the sign bit below every other power;
  * `bitPositions` -- the positions of the set bits, and what a shift does to them.
-/
import Mathlib.Data.Int.Notation
import Mathlib.Order.Defs.LinearOrder
import Mathlib.Algebra.Order.Ring.Int
import Mathlib.Data.List.Range

namespace Pysa

/-- The native integers of OCaml: 63 bits, wrapping, compared as signed numbers. -/
abbrev Int63 := BitVec 63

variable {w : Nat}

/-! ## 1. Agreement -/

/-- The words agree below bit `k`. -/
def Agree (k : Nat) (a b : BitVec w) : Prop := ∀ j < k, a.getLsbD j = b.getLsbD j

namespace Agree

variable {k k' : Nat} {a b c : BitVec w}

@[refl] theorem refl (k : Nat) (a : BitVec w) : Agree k a a := fun _ _ => rfl

theorem symm (h : Agree k a b) : Agree k b a := fun j hj => (h j hj).symm

theorem trans (h₁ : Agree k a b) (h₂ : Agree k b c) : Agree k a c :=
  fun j hj => (h₁ j hj).trans (h₂ j hj)

theorem mono (h : Agree k a b) (hk : k' ≤ k) : Agree k' a b :=
  fun j hj => h j (lt_of_lt_of_le hj hk)

theorem succ (h : Agree k a b) (hk : a.getLsbD k = b.getLsbD k) : Agree (k + 1) a b :=
  fun j hj => (Nat.lt_succ_iff_lt_or_eq.mp hj).elim (h j) (fun e => e ▸ hk)

theorem eq (h : Agree w a b) : a = b := BitVec.eq_of_getLsbD_eq h

end Agree

/-- Two words are equal, or there is a first bit at which they differ. -/
theorem exists_firstDiff {a b : BitVec w} {k : Nat} (h : ¬ Agree k a b) :
    ∃ d < k, d < w ∧ Agree d a b ∧ a.getLsbD d ≠ b.getLsbD d := by
  induction k with
  | zero => exact absurd (fun j hj => absurd hj (Nat.not_lt_zero j)) h
  | succ k ih =>
    by_cases hk : Agree k a b
    · have hne : a.getLsbD k ≠ b.getLsbD k := fun e => h (hk.succ e)
      refine ⟨k, Nat.lt_succ_self k, ?_, hk, hne⟩
      by_contra hw
      rw [BitVec.getLsbD_of_ge a k (not_lt.mp hw), BitVec.getLsbD_of_ge b k (not_lt.mp hw)] at hne
      exact hne rfl
    · obtain ⟨d, hd, rest⟩ := ih hk
      exact ⟨d, Nat.lt_succ_of_lt hd, rest⟩

/-! ## 2. The bits below a bit -/

/-- The bits of `a` below bit `k`. -/
def lowBits (a : BitVec w) (k : Nat) : BitVec w := a &&& (BitVec.twoPow w k - 1#w)

theorem getLsbD_twoPow_sub_one {k : Nat} (hk : k < w) (j : Nat) :
    (BitVec.twoPow w k - 1#w).getLsbD j = decide (j < k) := by
  have h1 : (1#w).toNat = 1 := by
    rw [BitVec.toNat_ofNat]
    exact Nat.mod_eq_of_lt (Nat.one_lt_two_pow (by omega))
  have hle : 1#w ≤ BitVec.twoPow w k := by
    rw [BitVec.le_def, h1, BitVec.toNat_twoPow_of_lt hk]
    exact Nat.one_le_two_pow
  rw [BitVec.getLsbD, BitVec.toNat_sub_of_le hle, h1, BitVec.toNat_twoPow_of_lt hk,
    Nat.testBit_two_pow_sub_one]

theorem getLsbD_lowBits {k : Nat} (hk : k < w) (a : BitVec w) (j : Nat) :
    (lowBits a k).getLsbD j = (a.getLsbD j && decide (j < k)) := by
  rw [lowBits, BitVec.getLsbD_and, getLsbD_twoPow_sub_one hk]

/-- **Equal low bits mean agreement.** -/
theorem lowBits_eq_iff {k : Nat} (hk : k < w) (a b : BitVec w) :
    lowBits a k = lowBits b k ↔ Agree k a b := by
  constructor
  · intro h j hj
    have := congrArg (BitVec.getLsbD · j) h
    simpa only [getLsbD_lowBits hk, hj, decide_true, Bool.and_true] using this
  · intro h
    refine BitVec.eq_of_getLsbD_eq fun j _ => ?_
    rw [getLsbD_lowBits hk, getLsbD_lowBits hk]
    by_cases hj : j < k
    · rw [h j hj]
    · simp [hj]

theorem agree_lowBits {k : Nat} (hk : k < w) (a : BitVec w) : Agree k (lowBits a k) a := by
  intro j hj
  rw [getLsbD_lowBits hk]
  simp [hj]

/-! ## 3. The lowest set bit -/

/-- **The lowest set bit** of a word whose bit `d` is its first. -/
theorem lowestBit_eq {x : BitVec w} {d : Nat} (hd : d < w) (hset : x.getLsbD d = true)
    (hlow : ∀ j < d, x.getLsbD j = false) : x &&& (~~~x + 1#w) = BitVec.twoPow w d := by
  refine BitVec.eq_of_getLsbD_eq fun j hj => ?_
  rw [← BitVec.neg_eq_not_add, BitVec.getLsbD_and, BitVec.getLsbD_neg, BitVec.getLsbD_twoPow]
  rcases lt_trichotomy j d with h | h | h
  · simp [hlow j h, Nat.ne_of_gt h]
  · subst h
    have : ¬ ∃ i < j, x.getLsbD i = true := fun ⟨i, hi, hx⟩ => by rw [hlow i hi] at hx; cases hx
    simp [hset, hd, this]
  · have : ∃ i < j, x.getLsbD i = true := ⟨d, h, hset⟩
    simp [hj, this, Nat.ne_of_lt h]

/-- The lowest set bit of the difference of two words is the first bit at which they differ. -/
theorem lowestBit_xor {a b : BitVec w} {d : Nat} (hd : d < w) (hagree : Agree d a b)
    (hdiff : a.getLsbD d ≠ b.getLsbD d) :
    (a ^^^ b) &&& (~~~(a ^^^ b) + 1#w) = BitVec.twoPow w d := by
  refine lowestBit_eq hd ?_ fun j hj => ?_
  · rw [BitVec.getLsbD_xor]
    revert hdiff
    cases a.getLsbD d <;> cases b.getLsbD d <;> simp
  · rw [BitVec.getLsbD_xor, hagree j hj, Bool.xor_self]

/-! ## 4. Powers of two -/

theorem twoPow_inj {i j : Nat} (hi : i < w) :
    BitVec.twoPow w i = BitVec.twoPow w j ↔ i = j := by
  refine ⟨fun h => ?_, fun h => by rw [h]⟩
  have := congrArg (BitVec.getLsbD · i) h
  simpa [BitVec.getLsbD_twoPow, hi, eq_comm] using this

/-- **The signed order of the powers of two**: the sign bit is below all others. -/
theorem toInt_twoPow_lt_iff {i j : Nat} (hi : i < w) (hj : j < w) :
    (BitVec.twoPow w i).toInt < (BitVec.twoPow w j).toInt ↔
      j + 1 ≠ w ∧ (i < j ∨ i + 1 = w) := by
  have hpos : ∀ n : Nat, (0 : ℤ) < ((2 ^ n : Nat) : ℤ) := fun n =>
    Int.ofNat_lt.mpr (Nat.two_pow_pos n)
  have hmono : ((2 ^ i : Nat) : ℤ) < ((2 ^ j : Nat) : ℤ) ↔ i < j := by
    rw [Int.ofNat_lt]
    exact Nat.pow_lt_pow_iff_right (by omega)
  have hcast : ∀ n : Nat, (2 : ℤ) ^ n = ((2 ^ n : Nat) : ℤ) := fun n => by simp
  rw [BitVec.toInt_twoPow, BitVec.toInt_twoPow, if_neg (not_le.mpr hi), if_neg (not_le.mpr hj),
    hcast, hcast]
  have h1 := hpos i
  have h2 := hpos j
  by_cases hiw : i + 1 = w <;> by_cases hjw : j + 1 = w
  · have hij : i = j := by omega
    simp [hjw, hij]
  · simp only [hiw, hjw, if_true, if_false]
    constructor
    · exact fun _ => ⟨hjw, Or.inr trivial⟩
    · intro _
      omega
  · simp only [hiw, hjw, if_true, if_false]
    constructor
    · intro h
      omega
    · exact fun h => absurd rfl h.1
  · simp only [hiw, hjw, if_false, hmono, or_false, ne_eq, not_false_eq_true, true_and]

/-! ## 5. Positions of the set bits -/

/-- The positions of the set bits, from the lowest on. -/
def bitPositions (x : BitVec w) : List Nat := (List.range w).filter fun i => x.getLsbD i

theorem mem_bitPositions {x : BitVec w} {i : Nat} : i ∈ bitPositions x ↔ x.getLsbD i = true := by
  rw [bitPositions, List.mem_filter, List.mem_range]
  exact and_iff_right_of_imp BitVec.lt_of_getLsbD

theorem bitPositions_nodup (x : BitVec w) : (bitPositions x).Nodup :=
  List.nodup_range.filter _

@[simp] theorem bitPositions_zero : bitPositions (0#w) = [] := by simp [bitPositions]

/-- The lowest bit, and the other ones after a shift. -/
theorem bitPositions_ushiftRight (x : BitVec w) :
    bitPositions x =
      (if x.getLsbD 0 = true then [0] else []) ++ (bitPositions (x >>> 1)).map (· + 1) := by
  cases w with
  | zero => simp [bitPositions]
  | succ w =>
    have hlast : (x >>> 1).getLsbD w = false := by
      rw [BitVec.getLsbD_ushiftRight]
      exact BitVec.getLsbD_of_ge x (1 + w) (by omega)
    have htail : bitPositions (x >>> 1) = (List.range w).filter fun i => x.getLsbD (i + 1) := by
      rw [bitPositions, List.range_succ, List.filter_append,
        List.filter_cons_of_neg (by rw [hlast]; exact Bool.false_ne_true)]
      simp [Nat.add_comm]
    rw [htail, bitPositions, List.range_succ_eq_map, List.filter_cons, List.filter_map]
    split <;> simp [*, Function.comp_def]

end Pysa
