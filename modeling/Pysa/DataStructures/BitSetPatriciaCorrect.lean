/-
  Subject: WHERE AN ELEMENT LIVES IS NOT OBSERVABLE (`bitSetPatriciaTreeIntSet.ml`).

  * `bitToInteger_of_getIntegerBit` -- a position belongs to one integer;
  * `Represents` -- bit `i` is set when the integer of position `i` is in the set, and the tree
    holds the other integers of the set;
  * `foldBitset_eq` -- the walk over the bits visits the positions of the set bits in order;
  * `add_represents`, ..., `filter_represents` -- each function is that on finite sets;
  * `SetExpr.bitSet_agrees` -- **every run whose trees do not clash agrees with the mathematical
    sets, and no access to `bitToInteger` fails**.
-/
import Pysa.DataStructures.BitSetPatriciaTreeIntSet
import Pysa.DataStructures.PatriciaCanonical

namespace Pysa

open BitVec (twoPow)
open PatriciaTree (Clash SubsetClash)

namespace BitSetPatriciaTreeIntSet

variable (commonIntegers : Array Int63)

/-! ## 1. The mapping -/

theorem mem_bitToInteger {x : Int63} :
    x ∈ bitToInteger commonIntegers ↔ x ∈ commonIntegers.toList.take 63 := by
  rw [bitToInteger, ← Array.mem_toList_iff, List.mem_insertionSort, Array.toList_extract,
    List.extract_eq_take_drop, List.drop_zero, Nat.sub_zero, ← Array.length_toList,
    ← List.take_take, List.take_length]

theorem size_bitToInteger_le : (bitToInteger commonIntegers).size ≤ 63 := by
  rw [bitToInteger, List.size_toArray, List.length_insertionSort]
  simp

/-- The table after some entries: a key is there when it has a position, ... -/
theorem mem_foldl_hashtblAdd {entries : List (Int63 × Nat)} {table : AssocMap Int63 Nat}
    {x : Int63} :
    x ∈ entries.foldl (fun table entry => hashtblAdd table entry.1 entry.2) table ↔
      x ∈ entries.map Prod.fst ∨ x ∈ table := by
  induction entries generalizing table with
  | nil => simp
  | cons entry rest ih =>
    have hadd : x ∈ hashtblAdd table entry.1 entry.2 ↔ x = entry.1 ∨ x ∈ table := by
      rw [hashtblAdd]
      split
      · rename_i hmem
        exact ⟨Or.inr, fun h => h.elim (fun heq => heq ▸ hmem) id⟩
      · exact AList.mem_insert _
    rw [List.foldl_cons, ih, hadd, List.map_cons, List.mem_cons]
    tauto

/-- ... and its position is one of its own. -/
theorem of_lookup_foldl_hashtblAdd {entries : List (Int63 × Nat)} {table : AssocMap Int63 Nat}
    {x : Int63} {bit : Nat}
    (h : (entries.foldl (fun table entry => hashtblAdd table entry.1 entry.2) table).lookup x =
      some bit) :
    (x, bit) ∈ entries ∨ table.lookup x = some bit := by
  induction entries generalizing table with
  | nil => exact Or.inr h
  | cons entry rest ih =>
    rcases ih h with hrest | htable
    · exact Or.inl (List.mem_cons_of_mem _ hrest)
    · change (hashtblAdd table entry.1 entry.2).lookup x = some bit at htable
      unfold hashtblAdd at htable
      split at htable
      · exact Or.inr htable
      · by_cases hx : x = entry.1
        · subst hx
          rw [AList.lookup_insert] at htable
          obtain rfl := Option.some.inj htable
          exact Or.inl List.mem_cons_self
        · rw [AList.lookup_insert_ne hx] at htable
          exact Or.inr htable

theorem getIntegerBit_eq_none_iff {x : Int63} :
    getIntegerBit commonIntegers x = none ↔ x ∉ commonIntegers.toList.take 63 := by
  rw [getIntegerBit, AList.lookup_eq_none, integerToBit, mem_foldl_hashtblAdd,
    ← mem_bitToInteger, ← Array.mem_toList_iff, List.zipIdx_map_fst]
  simp [AList.notMem_empty]

/-- **A position belongs to one integer.** -/
theorem bitToInteger_of_getIntegerBit {x : Int63} {bit : Nat}
    (h : getIntegerBit commonIntegers x = some bit) :
    (bitToInteger commonIntegers)[bit]? = some x := by
  rcases of_lookup_foldl_hashtblAdd h with hmem | hempty
  · rw [← Array.getElem?_toList]
    exact List.mem_zipIdx_iff_getElem?.mp hmem
  · rw [AList.lookup_empty] at hempty
    cases hempty

variable {commonIntegers}

theorem bit_lt {x : Int63} {bit : Nat} (h : getIntegerBit commonIntegers x = some bit) :
    bit < 63 := by
  have hat := bitToInteger_of_getIntegerBit commonIntegers h
  have hsize := size_bitToInteger_le commonIntegers
  by_contra hge
  rw [Array.getElem?_eq_none (by omega)] at hat
  cases hat

theorem getIntegerBit_inj {x y : Int63} {bit : Nat} (hx : getIntegerBit commonIntegers x = some bit)
    (hy : getIntegerBit commonIntegers y = some bit) : x = y :=
  Option.some.inj ((bitToInteger_of_getIntegerBit commonIntegers hx).symm.trans
    (bitToInteger_of_getIntegerBit commonIntegers hy))

/-! ## 2. Representation -/

variable (commonIntegers) in
/-- The elements without a bit. -/
def uncommon (s : Finset Int63) : Finset Int63 :=
  s.filter (· ∉ commonIntegers.toList.take 63)

theorem mem_uncommon {s : Finset Int63} {x : Int63} :
    x ∈ uncommon commonIntegers s ↔ x ∈ s ∧ getIntegerBit commonIntegers x = none := by
  rw [uncommon, Finset.mem_filter, getIntegerBit_eq_none_iff]

variable (commonIntegers) in
/-- The set is split between the bits and the tree. -/
structure Represents (t : BitSetPatriciaTreeIntSet) (s : Finset Int63) : Prop where
  bits : ∀ bit, t.bitset.getLsbD bit = true ↔ ∃ x ∈ s, getIntegerBit commonIntegers x = some bit
  tree : PatriciaTree.Represents t.tree (uncommon commonIntegers s)

section Elements

variable {s t : Finset Int63} {x : Int63} {bit : Nat}

theorem uncommon_insert_common (h : getIntegerBit commonIntegers x = some bit) :
    uncommon commonIntegers (insert x s) = uncommon commonIntegers s := by
  ext y
  rw [mem_uncommon, mem_uncommon, Finset.mem_insert]
  refine and_congr_left fun hy => or_iff_right fun heq => ?_
  rw [heq, h] at hy
  cases hy

theorem uncommon_insert (h : getIntegerBit commonIntegers x = none) :
    uncommon commonIntegers (insert x s) = insert x (uncommon commonIntegers s) := by
  ext y
  rw [mem_uncommon, Finset.mem_insert, Finset.mem_insert, mem_uncommon, or_and_right]
  exact or_congr_left (and_iff_left_of_imp fun heq => heq ▸ h)

theorem uncommon_erase_common (h : getIntegerBit commonIntegers x = some bit) :
    uncommon commonIntegers (s.erase x) = uncommon commonIntegers s := by
  ext y
  rw [mem_uncommon, mem_uncommon, Finset.mem_erase]
  refine and_congr_left fun hy => and_iff_right fun heq => ?_
  rw [heq, h] at hy
  cases hy

theorem uncommon_erase : uncommon commonIntegers (s.erase x) = (uncommon commonIntegers s).erase x :=
  Finset.filter_erase _ _ _

theorem uncommon_union :
    uncommon commonIntegers (s ∪ t) = uncommon commonIntegers s ∪ uncommon commonIntegers t :=
  Finset.filter_union _ _ _

theorem uncommon_inter :
    uncommon commonIntegers (s ∩ t) = uncommon commonIntegers s ∩ uncommon commonIntegers t := by
  ext y
  simp only [mem_uncommon, Finset.mem_inter]
  tauto

theorem uncommon_sdiff :
    uncommon commonIntegers (s \ t) = uncommon commonIntegers s \ uncommon commonIntegers t := by
  ext y
  simp only [mem_uncommon, Finset.mem_sdiff]
  tauto

theorem uncommon_filter (predicate : Int63 → Bool) :
    uncommon commonIntegers (s.filter (predicate · = true)) =
      (uncommon commonIntegers s).filter (predicate · = true) := by
  rw [uncommon, uncommon, Finset.filter_comm]

end Elements

/-- A common element has its bit, and the bit no other element. -/
theorem Represents.bit_iff {a : BitSetPatriciaTreeIntSet} {s : Finset Int63} {x : Int63} {bit : Nat}
    (ha : Represents commonIntegers a s) (h : getIntegerBit commonIntegers x = some bit) :
    a.bitset.getLsbD bit = true ↔ x ∈ s := by
  rw [ha.bits bit]
  constructor
  · rintro ⟨y, hy, hbit⟩
    rw [getIntegerBit_inj h hbit]
    exact hy
  · intro hx
    exact ⟨x, hx, h⟩

/-! ## 3. The walk over the bits -/

theorem and_twoPow_eq_iff {bit : Nat} (hbit : bit < 63) (bitset : Int63) :
    bitset &&& twoPow 63 bit = twoPow 63 bit ↔ bitset.getLsbD bit = true := by
  rw [BitVec.and_twoPow]
  split
  · rename_i hset
    exact iff_of_true rfl hset
  · rename_i hclear
    refine iff_of_false (fun hzero => ?_) hclear
    have hget := congrArg (BitVec.getLsbD · bit) hzero
    simp [hbit] at hget

/-- **The walk visits the positions of the set bits in order.** -/
theorem foldBitset_eq {A : Type} (f : Nat → A → Except String A) (bitset : Int63) (index : Nat)
    (init : A) :
    foldBitset f bitset index init =
      ((bitPositions bitset).map (· + index)).foldlM (fun accumulator i => f i accumulator) init := by
  induction hsize : bitset.toNat using Nat.strong_induction_on generalizing bitset index init with
  | _ size ih =>
    rw [foldBitset]
    split
    · rename_i hzero
      rw [hzero, bitPositions_zero]
      rfl
    · rename_i hne
      have hrest := ih _ (hsize ▸ ushiftRight_lt hne) (bitset >>> 1) (index + 1)
      have hmap : ((bitPositions (bitset >>> 1)).map (· + 1)).map (· + index) =
          (bitPositions (bitset >>> 1)).map (· + (index + 1)) := by
        rw [List.map_map]
        refine List.map_congr_left fun i _ => ?_
        simp only [Function.comp_apply]
        omega
      have hlowest : bitset &&& 1#63 = 1#63 ↔ bitset.getLsbD 0 = true :=
        and_twoPow_eq_iff (show 0 < 63 by omega) bitset
      rw [bitPositions_ushiftRight bitset, List.map_append, hmap]
      simp only [hlowest]
      split
      · rw [List.foldlM_append]
        simp only [List.map_cons, List.map_nil, Nat.zero_add, List.foldlM_cons, List.foldlM_nil]
        rw [bind_pure]
        exact bind_congr fun accumulator => hrest accumulator rfl
      · exact hrest init rfl

/-- A walk no step of which fails. -/
theorem foldlM_ok {A : Type} {f : A → Nat → Except String A} {g : A → Nat → A}
    {positions : List Nat} (h : ∀ i ∈ positions, ∀ accumulator, f accumulator i = .ok (g accumulator i))
    (init : A) : positions.foldlM f init = .ok (positions.foldl g init) := by
  induction positions generalizing init with
  | nil => rfl
  | cons i rest ih =>
    rw [List.foldlM_cons, h i List.mem_cons_self]
    exact ih (fun j hj => h j (List.mem_cons_of_mem _ hj)) (g init i)

variable (commonIntegers) in
/-- The integer of a position. -/
def integer (bit : Nat) : Int63 := (bitToInteger commonIntegers)[bit]?.getD 0#63

theorem integer_eq {x : Int63} {bit : Nat} (h : getIntegerBit commonIntegers x = some bit) :
    integer commonIntegers bit = x := by
  rw [integer, bitToInteger_of_getIntegerBit commonIntegers h]
  rfl

theorem integerAt_eq {x : Int63} {bit : Nat} (h : getIntegerBit commonIntegers x = some bit) :
    integerAt commonIntegers bit = .ok (integer commonIntegers bit) := by
  rw [integer_eq h, integerAt, bitToInteger_of_getIntegerBit commonIntegers h]

section Walk

variable {a : BitSetPatriciaTreeIntSet} {s : Finset Int63}

/-- The position of a set bit belongs to an element. -/
theorem Represents.exists_of_position (ha : Represents commonIntegers a s) {i : Nat}
    (hi : i ∈ bitPositions a.bitset) :
    integer commonIntegers i ∈ s ∧
      getIntegerBit commonIntegers (integer commonIntegers i) = some i := by
  obtain ⟨x, hx, hbit⟩ := (ha.bits i).mp (mem_bitPositions.mp hi)
  rw [integer_eq hbit]
  exact ⟨hx, hbit⟩

/-- A walk whose steps read the integer of the position fails nowhere. -/
theorem Represents.foldBitset_ok (ha : Represents commonIntegers a s) {A : Type}
    {f : Nat → A → Except String A} {g : Int63 → Nat → A → A}
    (h : ∀ i accumulator, integerAt commonIntegers i = .ok (integer commonIntegers i) →
      f i accumulator = .ok (g (integer commonIntegers i) i accumulator)) (init : A) :
    foldBitset f a.bitset 0 init = .ok ((bitPositions a.bitset).foldl
      (fun accumulator i => g (integer commonIntegers i) i accumulator) init) := by
  rw [foldBitset_eq, show ((· + 0) : Nat → Nat) = id from rfl, List.map_id]
  refine foldlM_ok (fun i hi accumulator => h i accumulator ?_) init
  exact integerAt_eq (ha.exists_of_position hi).2

variable (commonIntegers) in
/-- The elements in the order of a fold: first those with a bit. -/
def enumeration (a : BitSetPatriciaTreeIntSet) : List Int63 :=
  (bitPositions a.bitset).map (integer commonIntegers) ++ a.tree.enumeration

theorem Represents.fold_eq (ha : Represents commonIntegers a s) {A : Type} (f : Int63 → A → A)
    (init : A) :
    fold commonIntegers f a init =
      .ok ((enumeration commonIntegers a).foldl (fun accumulator x => f x accumulator) init) := by
  have hwalk := ha.foldBitset_ok (A := A)
    (f := fun i accumulator => do return f (← integerAt commonIntegers i) accumulator)
    (g := fun x _ accumulator => f x accumulator) (fun i accumulator h => by rw [h]; rfl) init
  rw [fold, hwalk, enumeration, List.foldl_append, List.foldl_map]
  exact congrArg Except.ok (PatriciaSet.fold_eq_foldl f a.tree _)

theorem Represents.mem_positions (ha : Represents commonIntegers a s) {x : Int63} :
    x ∈ (bitPositions a.bitset).map (integer commonIntegers) ↔
      x ∈ s ∧ getIntegerBit commonIntegers x ≠ none := by
  rw [List.mem_map]
  constructor
  · rintro ⟨i, hi, rfl⟩
    obtain ⟨hx, hbit⟩ := ha.exists_of_position hi
    exact ⟨hx, by rw [hbit]; exact Option.some_ne_none i⟩
  · rintro ⟨hx, hbit⟩
    obtain ⟨i, hi⟩ := Option.ne_none_iff_exists'.mp hbit
    exact ⟨i, mem_bitPositions.mpr ((ha.bit_iff hi).mpr hx), integer_eq hi⟩

theorem Represents.mem_enumeration (ha : Represents commonIntegers a s) {x : Int63} :
    x ∈ enumeration commonIntegers a ↔ x ∈ s := by
  rw [enumeration, List.mem_append, ha.mem_positions, ← List.mem_toFinset,
    ha.tree.enumeration_toFinset, mem_uncommon, ← and_or_left]
  exact and_iff_left (ne_or_eq _ _)

theorem Represents.enumeration_toFinset (ha : Represents commonIntegers a s) :
    (enumeration commonIntegers a).toFinset = s := by
  ext x
  rw [List.mem_toFinset, ha.mem_enumeration]

theorem Represents.enumeration_nodup (ha : Represents commonIntegers a s) :
    (enumeration commonIntegers a).Nodup := by
  rw [enumeration, List.nodup_append']
  refine ⟨?_, ha.tree.enumeration_nodup, fun x hx hx' => ?_⟩
  · refine (List.nodup_map_iff_inj_on (bitPositions_nodup a.bitset)).mpr fun i hi j hj heq => ?_
    have hbit := (ha.exists_of_position hi).2
    rw [heq, (ha.exists_of_position hj).2] at hbit
    exact (Option.some.inj hbit).symm
  · rw [← List.mem_toFinset, ha.tree.enumeration_toFinset, mem_uncommon] at hx'
    exact (ha.mem_positions.mp hx).2 hx'.2

end Walk

/-! ## 4. The functions on sets -/

section Operations

variable (phys : PhysEq (PatriciaTree Int63)) {a b : BitSetPatriciaTreeIntSet}
  {s t : Finset Int63} (x : Int63)

theorem getLsbD_or_shift {bitset : Int63} {bit i : Nat} (hbit : bit < 63) :
    (bitset ||| 1#63 <<< bit).getLsbD i = true ↔ bitset.getLsbD i = true ∨ i = bit := by
  have hshift : (1#63 : Int63) <<< bit = twoPow 63 bit := rfl
  rw [hshift, BitVec.getLsbD_or, BitVec.getLsbD_twoPow, Bool.or_eq_true, Bool.and_eq_true,
    decide_eq_true_iff, decide_eq_true_iff, and_iff_right hbit]
  exact or_congr_right eq_comm

theorem empty_represents : Represents commonIntegers empty ∅ :=
  ⟨fun bit => by simp [empty], rfl⟩

theorem add_represents (ha : Represents commonIntegers a s) :
    Represents commonIntegers (add commonIntegers phys x a) (insert x s) := by
  unfold add
  split
  · rename_i bit hbit
    refine ⟨fun i => ?_, (uncommon_insert_common (s := s) hbit) ▸ ha.tree⟩
    rw [getLsbD_or_shift (bit_lt hbit), ha.bits i, Finset.exists_mem_insert, hbit, Option.some_inj,
      or_comm, eq_comm]
  · rename_i hbit
    refine ⟨fun i => ?_, ?_⟩
    · rw [ha.bits i, Finset.exists_mem_insert, hbit]
      simp
    · rw [uncommon_insert hbit]
      exact PatriciaSet.add_represents phys x ha.tree

theorem foldl_add_represents (xs : List Int63) (ha : Represents commonIntegers a s) :
    Represents commonIntegers (xs.foldl (fun set x => add commonIntegers phys x set) a)
      (xs.toFinset ∪ s) := by
  induction xs generalizing a s with
  | nil => simpa using ha
  | cons x xs ih =>
    have := ih (add_represents phys x ha)
    rwa [Finset.union_insert, ← Finset.insert_union, ← List.toFinset_cons] at this

theorem remove_represents (ha : Represents commonIntegers a s) :
    Represents commonIntegers (remove commonIntegers phys x a) (s.erase x) := by
  unfold remove
  split
  · rename_i bit hbit
    refine ⟨fun i => ?_, (uncommon_erase_common (s := s) hbit) ▸ ha.tree⟩
    have hshift : (1#63 : Int63) <<< bit = twoPow 63 bit := rfl
    have hget : (a.bitset &&& ~~~(1#63 <<< bit)).getLsbD i = true ↔
        a.bitset.getLsbD i = true ∧ i ≠ bit := by
      rw [hshift, BitVec.getLsbD_and, BitVec.getLsbD_not, BitVec.getLsbD_twoPow,
        Bool.and_eq_true]
      refine and_congr_right fun hi => ?_
      have hdecide : decide (bit = i) = false ↔ i ≠ bit := by
        rw [decide_eq_false_iff_not]
        exact not_congr eq_comm
      rw [← hdecide]
      simp [BitVec.lt_of_getLsbD hi, bit_lt hbit]
    rw [hget, ha.bits i]
    constructor
    · rintro ⟨⟨y, hy, hybit⟩, hne⟩
      refine ⟨y, Finset.mem_erase.mpr ⟨fun heq => hne ?_, hy⟩, hybit⟩
      rw [heq, hbit] at hybit
      exact (Option.some.inj hybit).symm
    · rintro ⟨y, hy, hybit⟩
      obtain ⟨hne, hy⟩ := Finset.mem_erase.mp hy
      refine ⟨⟨y, hy, hybit⟩, fun heq => hne ?_⟩
      exact getIntegerBit_inj hybit (heq ▸ hbit)
  · rename_i hbit
    refine ⟨fun i => ?_, ?_⟩
    · rw [ha.bits i]
      constructor
      · rintro ⟨y, hy, hybit⟩
        refine ⟨y, Finset.mem_erase.mpr ⟨fun heq => ?_, hy⟩, hybit⟩
        rw [heq, hbit] at hybit
        cases hybit
      · rintro ⟨y, hy, hybit⟩
        exact ⟨y, Finset.mem_of_mem_erase hy, hybit⟩
    · rw [uncommon_erase]
      exact PatriciaSet.remove_represents phys x ha.tree

theorem mem_iff (ha : Represents commonIntegers a s) :
    mem commonIntegers x a = true ↔ x ∈ s := by
  unfold mem
  split
  · rename_i bit hbit
    rw [decide_eq_true_iff, ← ha.bit_iff hbit]
    exact and_twoPow_eq_iff (bit_lt hbit) a.bitset
  · rename_i hbit
    rw [ha.tree.mem_iff, mem_uncommon]
    exact and_iff_left hbit

theorem isEmpty_iff (ha : Represents commonIntegers a s) : isEmpty a = true ↔ s = ∅ := by
  unfold isEmpty
  rw [Bool.and_eq_true, decide_eq_true_iff, ha.tree.isEmpty_iff]
  constructor
  · rintro ⟨hbits, htree⟩
    refine Finset.eq_empty_of_forall_notMem fun x hx => ?_
    cases hbit : getIntegerBit commonIntegers x with
    | none =>
      have hmem : x ∈ uncommon commonIntegers s := mem_uncommon.mpr ⟨hx, hbit⟩
      rw [htree] at hmem
      exact Finset.notMem_empty x hmem
    | some bit =>
      have hset := (ha.bit_iff hbit).mpr hx
      rw [hbits, BitVec.getLsbD_zero] at hset
      cases hset
  · rintro rfl
    refine ⟨BitVec.eq_of_getLsbD_eq fun i _ => ?_, rfl⟩
    rw [BitVec.getLsbD_zero, ← Bool.not_eq_true, ha.bits i]
    simp

variable (ha : Represents commonIntegers a s) (hb : Represents commonIntegers b t)

include ha hb

theorem union_represents (hc : ¬ Clash (uncommon commonIntegers s) (uncommon commonIntegers t))
    (hc' : ¬ Clash (uncommon commonIntegers t) (uncommon commonIntegers s)) :
    Represents commonIntegers (union phys a b) (s ∪ t) := by
  refine ⟨fun i => ?_, ?_⟩
  · have hget : (union phys a b).bitset.getLsbD i = true ↔
        a.bitset.getLsbD i = true ∨ b.bitset.getLsbD i = true := by
      rw [union, BitVec.getLsbD_or, Bool.or_eq_true]
    rw [hget, ha.bits i, hb.bits i]
    constructor
    · rintro (⟨x, hx, hbit⟩ | ⟨x, hx, hbit⟩)
      · exact ⟨x, Finset.mem_union_left _ hx, hbit⟩
      · exact ⟨x, Finset.mem_union_right _ hx, hbit⟩
    · rintro ⟨x, hx, hbit⟩
      rcases Finset.mem_union.mp hx with hx | hx
      · exact Or.inl ⟨x, hx, hbit⟩
      · exact Or.inr ⟨x, hx, hbit⟩
  · rw [uncommon_union]
    exact PatriciaSet.union_represents phys ha.tree hb.tree hc hc'

theorem inter_represents (hc : ¬ Clash (uncommon commonIntegers s) (uncommon commonIntegers t))
    (hc' : ¬ Clash (uncommon commonIntegers t) (uncommon commonIntegers s)) :
    Represents commonIntegers (inter phys a b) (s ∩ t) := by
  refine ⟨fun i => ?_, ?_⟩
  · have hget : (inter phys a b).bitset.getLsbD i = true ↔
        a.bitset.getLsbD i = true ∧ b.bitset.getLsbD i = true := by
      rw [inter, BitVec.getLsbD_and, Bool.and_eq_true]
    rw [hget, ha.bits i]
    constructor
    · rintro ⟨⟨x, hx, hbit⟩, hright⟩
      exact ⟨x, Finset.mem_inter.mpr ⟨hx, (hb.bit_iff hbit).mp hright⟩, hbit⟩
    · rintro ⟨x, hx, hbit⟩
      obtain ⟨hx, hx'⟩ := Finset.mem_inter.mp hx
      exact ⟨⟨x, hx, hbit⟩, (hb.bit_iff hbit).mpr hx'⟩
  · rw [uncommon_inter]
    exact PatriciaSet.inter_represents phys ha.tree hb.tree hc hc'

theorem diff_represents (hc : ¬ Clash (uncommon commonIntegers s) (uncommon commonIntegers t))
    (hc' : ¬ Clash (uncommon commonIntegers t) (uncommon commonIntegers s)) :
    Represents commonIntegers (diff phys a b) (s \ t) := by
  refine ⟨fun i => ?_, ?_⟩
  · have hget : (diff phys a b).bitset.getLsbD i = true ↔
        a.bitset.getLsbD i = true ∧ ¬ b.bitset.getLsbD i = true := by
      rw [diff, BitVec.getLsbD_and, BitVec.getLsbD_not, Bool.and_eq_true]
      refine and_congr_right fun hi => ?_
      simp [BitVec.lt_of_getLsbD hi]
    rw [hget, ha.bits i]
    constructor
    · rintro ⟨⟨x, hx, hbit⟩, hright⟩
      refine ⟨x, Finset.mem_sdiff.mpr ⟨hx, fun hx' => hright ?_⟩, hbit⟩
      exact (hb.bit_iff hbit).mpr hx'
    · rintro ⟨x, hx, hbit⟩
      obtain ⟨hx, hx'⟩ := Finset.mem_sdiff.mp hx
      exact ⟨⟨x, hx, hbit⟩, fun hright => hx' ((hb.bit_iff hbit).mp hright)⟩
  · rw [uncommon_sdiff]
    exact PatriciaSet.diff_represents phys ha.tree hb.tree hc hc'

theorem equal_iff : equal phys a b = true ↔ s = t := by
  unfold equal
  rw [Bool.and_eq_true, decide_eq_true_iff, PatriciaSet.equal_iff]
  constructor
  · rintro ⟨hbits, htree⟩
    ext x
    rw [← mem_iff x ha, ← mem_iff x hb, show a = b from congr (congrArg mk hbits) htree]
  · rintro rfl
    refine ⟨BitVec.eq_of_getLsbD_eq fun i _ => ?_, ha.tree.ext hb.tree⟩
    rw [Bool.eq_iff_iff, ha.bits i, hb.bits i]

theorem subset_iff
    (hc : s ⊆ t → ¬ SubsetClash (uncommon commonIntegers s) (uncommon commonIntegers t)) :
    subset phys a b = true ↔ s ⊆ t := by
  unfold subset
  rw [Bool.and_eq_true, decide_eq_true_iff]
  have hbits : a.bitset &&& b.bitset = a.bitset ↔
      ∀ i, a.bitset.getLsbD i = true → b.bitset.getLsbD i = true := by
    constructor
    · intro heq i hi
      rw [← heq, BitVec.getLsbD_and, Bool.and_eq_true] at hi
      exact hi.2
    · intro h
      refine BitVec.eq_of_getLsbD_eq fun i _ => ?_
      rw [BitVec.getLsbD_and, Bool.and_eq_left_iff_imp]
      exact h i
  rw [hbits]
  constructor
  · rintro ⟨hcommon, htree⟩ x hx
    have huncommon := PatriciaSet.subset_sound phys ha.tree hb.tree htree
    cases hbit : getIntegerBit commonIntegers x with
    | none => exact (mem_uncommon.mp (huncommon (mem_uncommon.mpr ⟨hx, hbit⟩))).1
    | some bit => exact (hb.bit_iff hbit).mp (hcommon bit ((ha.bit_iff hbit).mpr hx))
  · intro hsub
    refine ⟨fun i hi => ?_, (PatriciaSet.subset_iff phys ha.tree hb.tree fun _ => hc hsub).mpr
      (Finset.filter_subset_filter _ hsub)⟩
    obtain ⟨x, hx, hbit⟩ := (ha.bits i).mp hi
    exact (hb.bit_iff hbit).mpr (hsub hx)

end Operations

section Walks

variable (phys : PhysEq (PatriciaTree Int63)) {a : BitSetPatriciaTreeIntSet} {s : Finset Int63}
  (ha : Represents commonIntegers a s)

/-- The bits that a walk sets. -/
theorem getLsbD_foldl_or {q : Nat → Bool} {positions : List Nat} (hlt : ∀ i ∈ positions, i < 63)
    (init : Int63) {j : Nat} :
    (positions.foldl (fun accumulator i =>
      if q i = true then accumulator ||| 1#63 <<< i else accumulator) init).getLsbD j = true ↔
      init.getLsbD j = true ∨ j ∈ positions ∧ q j = true := by
  induction positions generalizing init with
  | nil => simp
  | cons i rest ih =>
    rw [List.foldl_cons, ih fun k hk => hlt k (List.mem_cons_of_mem _ hk)]
    by_cases hq : q i = true
    · rw [if_pos hq, getLsbD_or_shift (hlt i List.mem_cons_self), or_assoc]
      refine or_congr_right ?_
      constructor
      · rintro (rfl | ⟨hj, hqj⟩)
        · exact ⟨List.mem_cons_self, hq⟩
        · exact ⟨List.mem_cons_of_mem _ hj, hqj⟩
      · rintro ⟨hj, hqj⟩
        exact (List.mem_cons.mp hj).imp id fun hj => ⟨hj, hqj⟩
    · rw [if_neg hq]
      refine or_congr_right (and_congr_left fun hqj => ?_)
      rw [List.mem_cons]
      refine (or_iff_right fun heq => ?_).symm
      exact hq (heq ▸ hqj)

include ha

theorem filter_represents (predicate : Int63 → Bool) :
    ∃ out, filter commonIntegers phys predicate a = .ok out ∧
      Represents commonIntegers out (s.filter (predicate · = true)) := by
  have hwalk := ha.foldBitset_ok
    (f := fun index accumulator => do
      if predicate (← integerAt commonIntegers index) then return accumulator ||| 1#63 <<< index
      else return accumulator)
    (g := fun x index accumulator =>
      if predicate x = true then accumulator ||| 1#63 <<< index else accumulator)
    (fun i accumulator h => by rw [h]; exact (apply_ite Except.ok _ _ _).symm) 0#63
  refine ⟨_, by rw [filter, hwalk]; rfl, ⟨fun j => ?_, ?_⟩⟩
  · have hlt : ∀ i ∈ bitPositions a.bitset, i < 63 := fun i hi =>
      BitVec.lt_of_getLsbD (mem_bitPositions.mp hi)
    refine (getLsbD_foldl_or (q := fun i => predicate (integer commonIntegers i)) hlt 0#63).trans ?_
    rw [BitVec.getLsbD_zero, mem_bitPositions, or_iff_right Bool.false_ne_true, ha.bits j]
    constructor
    · rintro ⟨⟨x, hx, hbit⟩, hpredicate⟩
      rw [integer_eq hbit] at hpredicate
      exact ⟨x, Finset.mem_filter.mpr ⟨hx, hpredicate⟩, hbit⟩
    · rintro ⟨x, hx, hbit⟩
      obtain ⟨hx, hpredicate⟩ := Finset.mem_filter.mp hx
      exact ⟨⟨x, hx, hbit⟩, (integer_eq hbit).symm ▸ hpredicate⟩
  · rw [uncommon_filter]
    exact PatriciaSet.filter_represents phys predicate ha.tree

theorem map_represents (f : Int63 → Int63) :
    ∃ out, map commonIntegers phys f a = .ok out ∧ Represents commonIntegers out (s.image f) := by
  refine ⟨_, ha.fold_eq _ empty, ?_⟩
  have hempty : Represents commonIntegers empty ∅ := empty_represents
  have hfold := foldl_add_represents phys ((enumeration commonIntegers a).map f) hempty
  have himage : ((enumeration commonIntegers a).map f).toFinset = s.image f := by
    ext y
    simp [ha.mem_enumeration]
  rw [Finset.union_empty, himage, List.foldl_map] at hfold
  exact hfold

end Walks

end BitSetPatriciaTreeIntSet

/-! ## 5. Runs -/

open PatriciaTree BitSetPatriciaTreeIntSet

namespace SetExpr

variable (commonIntegers : Array Int63) (phys : PhysEq (PatriciaTree Int63))

/-- What the code computes. -/
def evalBitSet : SetExpr → Except String BitSetPatriciaTreeIntSet
  | empty => .ok BitSetPatriciaTreeIntSet.empty
  | singleton x => .ok (.singleton commonIntegers phys x)
  | add x s => BitSetPatriciaTreeIntSet.add commonIntegers phys x <$> evalBitSet s
  | remove x s => BitSetPatriciaTreeIntSet.remove commonIntegers phys x <$> evalBitSet s
  | union s t => do return .union phys (← evalBitSet s) (← evalBitSet t)
  | inter s t => do return .inter phys (← evalBitSet s) (← evalBitSet t)
  | diff s t => do return .diff phys (← evalBitSet s) (← evalBitSet t)
  | filter p s => do BitSetPatriciaTreeIntSet.filter commonIntegers phys p (← evalBitSet s)
  | map f s => do BitSetPatriciaTreeIntSet.map commonIntegers phys f (← evalBitSet s)
  | ofList xs => .ok (.ofList commonIntegers phys xs)

/-- The trees of the operands of no union, intersection or difference of the run clash. -/
def NoTreeClash : SetExpr → Prop
  | empty => True
  | singleton _ => True
  | add _ s => NoTreeClash s
  | remove _ s => NoTreeClash s
  | union s t => NoTreeClash s ∧ NoTreeClash t ∧
      ¬ Clash (uncommon commonIntegers (denote s)) (uncommon commonIntegers (denote t)) ∧
      ¬ Clash (uncommon commonIntegers (denote t)) (uncommon commonIntegers (denote s))
  | inter s t => NoTreeClash s ∧ NoTreeClash t ∧
      ¬ Clash (uncommon commonIntegers (denote s)) (uncommon commonIntegers (denote t)) ∧
      ¬ Clash (uncommon commonIntegers (denote t)) (uncommon commonIntegers (denote s))
  | diff s t => NoTreeClash s ∧ NoTreeClash t ∧
      ¬ Clash (uncommon commonIntegers (denote s)) (uncommon commonIntegers (denote t)) ∧
      ¬ Clash (uncommon commonIntegers (denote t)) (uncommon commonIntegers (denote s))
  | filter _ s => NoTreeClash s
  | map _ s => NoTreeClash s
  | ofList _ => True

variable {commonIntegers}

/-- **The run lemma**: without clashes no step fails, and every set of the run is represented. -/
theorem bitSet_represents {e : SetExpr} (he : NoTreeClash commonIntegers e) :
    ∃ a, evalBitSet commonIntegers phys e = .ok a ∧
      BitSetPatriciaTreeIntSet.Represents commonIntegers a (denote e) := by
  induction e with
  | empty => exact ⟨_, rfl, BitSetPatriciaTreeIntSet.empty_represents⟩
  | singleton x =>
    exact ⟨_, rfl, BitSetPatriciaTreeIntSet.add_represents phys x
      BitSetPatriciaTreeIntSet.empty_represents⟩
  | add x s ih =>
    obtain ⟨a, heval, ha⟩ := ih he
    exact ⟨_, by rw [evalBitSet, heval]; rfl, BitSetPatriciaTreeIntSet.add_represents phys x ha⟩
  | remove x s ih =>
    obtain ⟨a, heval, ha⟩ := ih he
    exact ⟨_, by rw [evalBitSet, heval]; rfl,
      BitSetPatriciaTreeIntSet.remove_represents phys x ha⟩
  | union s t ihs iht =>
    obtain ⟨hs, ht, hc, hc'⟩ := he
    obtain ⟨a, hevala, ha⟩ := ihs hs
    obtain ⟨b, hevalb, hb⟩ := iht ht
    exact ⟨_, by rw [evalBitSet, hevala, hevalb]; rfl,
      BitSetPatriciaTreeIntSet.union_represents phys ha hb hc hc'⟩
  | inter s t ihs iht =>
    obtain ⟨hs, ht, hc, hc'⟩ := he
    obtain ⟨a, hevala, ha⟩ := ihs hs
    obtain ⟨b, hevalb, hb⟩ := iht ht
    exact ⟨_, by rw [evalBitSet, hevala, hevalb]; rfl,
      BitSetPatriciaTreeIntSet.inter_represents phys ha hb hc hc'⟩
  | diff s t ihs iht =>
    obtain ⟨hs, ht, hc, hc'⟩ := he
    obtain ⟨a, hevala, ha⟩ := ihs hs
    obtain ⟨b, hevalb, hb⟩ := iht ht
    exact ⟨_, by rw [evalBitSet, hevala, hevalb]; rfl,
      BitSetPatriciaTreeIntSet.diff_represents phys ha hb hc hc'⟩
  | filter p s ih =>
    obtain ⟨a, heval, ha⟩ := ih he
    obtain ⟨out, hout, hrep⟩ := BitSetPatriciaTreeIntSet.filter_represents phys ha p
    exact ⟨out, by rw [evalBitSet, heval]; exact hout, hrep⟩
  | map f s ih =>
    obtain ⟨a, heval, ha⟩ := ih he
    obtain ⟨out, hout, hrep⟩ := BitSetPatriciaTreeIntSet.map_represents phys ha f
    exact ⟨out, by rw [evalBitSet, heval]; exact hout, hrep⟩
  | ofList xs =>
    have hempty : BitSetPatriciaTreeIntSet.Represents commonIntegers .empty ∅ :=
      BitSetPatriciaTreeIntSet.empty_represents
    have hrep := BitSetPatriciaTreeIntSet.foldl_add_represents phys xs hempty
    rw [Finset.union_empty] at hrep
    exact ⟨_, rfl, hrep⟩

variable (commonIntegers)

/-- **Every run whose trees do not clash agrees with the mathematical sets.** No step fails; the
    fold visits every element once, whether it lives in a bit or in the tree; `mem`, `cardinal`,
    `elements`, `isEmpty`, `equal` and, where it does not meet the wrong comparison on a subset,
    `subset` answer as the sets do. -/
theorem bitSet_agrees (e : SetExpr) (he : NoTreeClash commonIntegers e) :
    ∃ a, evalBitSet commonIntegers phys e = .ok a ∧
      (∀ x, a.mem commonIntegers x = true ↔ x ∈ denote e) ∧
      a.cardinal commonIntegers = .ok (denote e).card ∧
      (∃ list : List Int63, list.Nodup ∧ list.toFinset = denote e ∧
        a.elements commonIntegers = .ok list.reverse ∧
        ∀ (A : Type) (f : Int63 → A → A) (init : A), a.fold commonIntegers f init =
          .ok (list.foldl (fun accumulator x => f x accumulator) init)) ∧
      (a.isEmpty = true ↔ denote e = ∅) ∧
      ∀ e', NoTreeClash commonIntegers e' →
        ∃ b, evalBitSet commonIntegers phys e' = .ok b ∧
          (BitSetPatriciaTreeIntSet.equal phys a b = true ↔ denote e = denote e') ∧
          ((denote e ⊆ denote e' → ¬ SubsetClash (uncommon commonIntegers (denote e))
              (uncommon commonIntegers (denote e'))) →
            (BitSetPatriciaTreeIntSet.subset phys a b = true ↔ denote e ⊆ denote e')) := by
  obtain ⟨a, heval, ha⟩ := bitSet_represents phys he
  refine ⟨a, heval, fun x => BitSetPatriciaTreeIntSet.mem_iff x ha, ?_, ?_,
    BitSetPatriciaTreeIntSet.isEmpty_iff ha, fun e' he' => ?_⟩
  · rw [BitSetPatriciaTreeIntSet.cardinal, ha.fold_eq, List.foldl_add_const, ← ha.enumeration_toFinset,
      List.toFinset_card_of_nodup ha.enumeration_nodup, Nat.zero_add, Nat.one_mul]
  · refine ⟨_, ha.enumeration_nodup, ha.enumeration_toFinset, ?_,
      fun A f init => ha.fold_eq f init⟩
    rw [BitSetPatriciaTreeIntSet.elements, ha.fold_eq, List.foldl_flip_cons_eq_append,
      List.map_id', List.append_nil]
  · obtain ⟨b, heval', hb⟩ := bitSet_represents phys he'
    exact ⟨b, heval', BitSetPatriciaTreeIntSet.equal_iff phys ha hb,
      BitSetPatriciaTreeIntSet.subset_iff phys ha hb⟩

/-- `{1, 2} ∪ {2, 3}` where 2 has a bit. -/
theorem bitSet_agrees_union :
    ∃ a, evalBitSet #[2#63, 4#63] (.never _) (union (ofList [1#63, 2#63]) (ofList [2#63, 3#63])) =
      .ok a ∧ a.cardinal #[2#63, 4#63] = .ok 3 := by
  have hclash : ∀ l r : SetExpr, (∀ x ∈ denote l, x.getLsbD 62 = false) →
      ¬ Clash (uncommon #[2#63, 4#63] (denote l)) (uncommon #[2#63, 4#63] (denote r)) :=
    fun l r h => not_clash_of_sign _ fun x hx => h x (Finset.mem_of_mem_filter x hx)
  obtain ⟨a, heval, -, hcard, -⟩ := bitSet_agrees #[2#63, 4#63] (.never _)
    (union (ofList [1#63, 2#63]) (ofList [2#63, 3#63]))
    ⟨trivial, trivial, hclash _ _ (by simp [denote]), hclash _ _ (by simp [denote])⟩
  exact ⟨a, heval, hcard⟩

/-- The union of `{0, min_int}` and `{0, min_int + 1}`, none of them common, loses
    `min_int + 1`. -/
theorem bitSet_union_loses_element :
    ∃ a, evalBitSet #[2#63, 4#63] (.never _) (union (ofList [0#63, twoPow 63 62])
        (ofList [0#63, twoPow 63 62 ||| 1#63])) = .ok a ∧
      twoPow 63 62 ||| 1#63 ∈ denote (union (ofList [0#63, twoPow 63 62])
        (ofList [0#63, twoPow 63 62 ||| 1#63])) ∧
      a.mem #[2#63, 4#63] (twoPow 63 62 ||| 1#63) = false :=
  ⟨_, rfl, by decide +kernel⟩

end SetExpr

end Pysa
