/-
  Subject: WHAT THE PATRICIA TREES OF 63-BIT INTEGERS COMPUTE (`patriciaTreeSet.ml`).

  The binary functions compare branching bits as signed integers, which puts the sign bit below
  every other bit although it is the highest one.

  * `elems`, `Wf` -- the elements of a tree, and the well-formed trees;
  * `Clash` -- the operands at which a binary function meets the wrong comparison: one of them has
    two elements that differ in the sign bit only, the other one branches above them;
  * `nodeCases` -- what the tests of the binary functions find when the operands do not clash;
    `union_spec`, `inter_spec`, `diff_spec`, `subset_complete` are inductions over it;
  * `SetExpr.agrees` -- **every run without clashes agrees with the mathematical sets**.
-/
import Mathlib.Data.Finset.Card
import Mathlib.Data.Finset.Image
import Pysa.DataStructures.PatriciaTreeSet

namespace Pysa

open BitVec (twoPow)

namespace PatriciaTree

/-! ## 1. Well-formed trees -/

def elems : PatriciaTree Int63 → Finset Int63
  | leaf e => {e}
  | node _ _ left right => elems left ∪ elems right

@[simp] theorem elems_leaf (e : Int63) : elems (leaf e) = {e} := rfl

@[simp] theorem elems_node (p m : Int63) (l r : PatriciaTree Int63) :
    elems (node p m l r) = elems l ∪ elems r := rfl

theorem elems_nonempty (t : PatriciaTree Int63) : (elems t).Nonempty := by
  induction t with
  | leaf e => exact ⟨e, Finset.mem_singleton_self e⟩
  | node p m l r ihl ihr => exact ihl.mono Finset.subset_union_left

/-- A node branches on a bit: its elements share the bits below, its subtrees have the bit clear
    and set. -/
inductive Wf : PatriciaTree Int63 → Prop
  | leaf (e) : Wf (leaf e)
  | node {p l r} {i : Nat} (hi : i < 63) (hl : Wf l) (hr : Wf r)
      (hlow : ∀ x ∈ elems l ∪ elems r, lowBits x i = p)
      (hzero : ∀ x ∈ elems l, x.getLsbD i = false) (hone : ∀ x ∈ elems r, x.getLsbD i = true) :
      Wf (node p (twoPow 63 i) l r)

/-! ## 2. The bit tests -/

section Bits

variable {i : Nat} (hi : i < 63)

include hi in
theorem isZeroBit_iff (k : Int63) :
    isZeroBit int63 k (twoPow 63 i) = true ↔ k.getLsbD i = false := by
  have hne : twoPow 63 i ≠ 0#63 := fun h => by
    have := congrArg (BitVec.getLsbD · i) h
    simp [hi] at this
  simp only [isZeroBit, int63, decide_eq_true_eq, BitVec.and_twoPow]
  cases k.getLsbD i <;> simp [hne]

theorem matchPrefix_iff (k p : Int63) :
    matchPrefix int63 k p (twoPow 63 i) = true ↔ lowBits k i = p := by
  simp [matchPrefix, mask, int63, lowBits]

theorem mask_eq (k : Int63) : mask int63 k (twoPow 63 i) = lowBits k i := rfl

theorem branchingBit_eq {a b : Int63} (hd : i < 63) (hagree : Agree i a b)
    (hdiff : a.getLsbD i ≠ b.getLsbD i) : branchingBit int63 a b = twoPow 63 i :=
  lowestBit_xor hd hagree hdiff

include hi in
/-- **The signed comparison of branching bits.** -/
theorem compare_eq_lt_iff {j : Nat} (hj : j < 63) :
    int63.compare (twoPow 63 i) (twoPow 63 j) = .lt ↔ j ≠ 62 ∧ (i < j ∨ i = 62) := by
  simp only [int63, compare_lt_iff_lt]
  rw [toInt_twoPow_lt_iff hi hj]
  omega

include hi in
theorem compare_eq_gt_iff {j : Nat} (hj : j < 63) :
    int63.compare (twoPow 63 i) (twoPow 63 j) = .gt ↔ i ≠ 62 ∧ (j < i ∨ j = 62) := by
  simp only [int63, compare_gt_iff_gt]
  rw [toInt_twoPow_lt_iff hj hi]
  omega

end Bits

/-- Two trees whose prefixes first differ at bit `d`, each agreeing with its prefix up to there,
    are joined under a node for that bit. -/
theorem joinDisjoint_spec {lp rp : Int63} {l r : PatriciaTree Int63} {d : Nat} (hl : Wf l)
    (hr : Wf r) (hd : d < 63) (hagree : Agree d lp rp) (hdiff : lp.getLsbD d ≠ rp.getLsbD d)
    (hlp : ∀ x ∈ elems l, Agree (d + 1) lp x) (hrp : ∀ x ∈ elems r, Agree (d + 1) rp x) :
    Wf (joinDisjoint int63 lp l rp r) ∧
      elems (joinDisjoint int63 lp l rp r) = elems l ∪ elems r := by
  have hlow : ∀ x ∈ elems l ∪ elems r, lowBits x d = lowBits lp d := by
    intro x hx
    rw [lowBits_eq_iff hd]
    rcases Finset.mem_union.mp hx with hx | hx
    · exact ((hlp x hx).mono (Nat.le_succ d)).symm
    · exact (hagree.trans ((hrp x hx).mono (Nat.le_succ d))).symm
  have hbitl : ∀ x ∈ elems l, x.getLsbD d = lp.getLsbD d := fun x hx =>
    (hlp x hx d (Nat.lt_succ_self d)).symm
  have hbitr : ∀ x ∈ elems r, x.getLsbD d = rp.getLsbD d := fun x hx =>
    (hrp x hx d (Nat.lt_succ_self d)).symm
  rw [joinDisjoint, branchingBit_eq hd hagree hdiff]
  simp only [isZeroBit_iff hd, mask_eq]
  cases hb : lp.getLsbD d with
  | false =>
    rw [if_pos rfl]
    rw [hb] at hbitl hdiff
    exact ⟨.node hd hl hr hlow hbitl fun x hx => by
      rw [hbitr x hx]
      exact (Bool.eq_true_of_not_eq_false hdiff.symm), rfl⟩
  | true =>
    rw [if_neg (by simp)]
    rw [hb] at hbitl hdiff
    refine ⟨.node hd hr hl (fun x hx => ?_) (fun x hx => ?_) hbitl, Finset.union_comm _ _⟩
    · rw [Finset.union_comm] at hx
      exact hlow x hx
    rw [hbitr x hx]
    exact Bool.eq_false_of_not_eq_true hdiff.symm

/-! ## 3. Functions that compare no bits -/

theorem mem_iff {t : PatriciaTree Int63} (ht : Wf t) (x : Int63) :
    mem int63 x t = true ↔ x ∈ elems t := by
  induction ht with
  | leaf e => simp [mem, int63]
  | @node p l r i hi hl hr hlow hzero hone ihl ihr =>
    rw [mem, elems_node, Finset.mem_union]
    cases hx : x.getLsbD i with
    | false =>
      rw [if_pos ((isZeroBit_iff hi x).mpr hx), ihl]
      exact ⟨Or.inl, fun h => h.resolve_right fun hr => by rw [hone x hr] at hx; cases hx⟩
    | true =>
      rw [if_neg (by rw [isZeroBit_iff hi, hx]; simp), ihr]
      exact ⟨Or.inr, fun h => h.resolve_left fun hl => by rw [hzero x hl] at hx; cases hx⟩

theorem disjoint_of_bit {i : Nat} {s t : Finset Int63} (hs : ∀ x ∈ s, x.getLsbD i = false)
    (ht : ∀ x ∈ t, x.getLsbD i = true) : Disjoint s t :=
  Finset.disjoint_left.mpr fun x hxs hxt => by
    have := hs x hxs
    rw [ht x hxt] at this
    cases this

theorem cardinal_eq {t : PatriciaTree Int63} (ht : Wf t) : cardinal t = (elems t).card := by
  induction ht with
  | leaf e => rfl
  | node hi hl hr hlow hzero hone ihl ihr =>
    rw [cardinal, ihl, ihr, elems_node,
      Finset.card_union_of_disjoint (disjoint_of_bit hzero hone)]

/-- The elements in the order of a fold. -/
def leaves {E : Type} : PatriciaTree E → List E
  | leaf e => [e]
  | node _ _ left right => leaves left ++ leaves right

theorem fold_eq_foldl {E : Type} {A : Type} (f : E → A → A) (t : PatriciaTree E) (init : A) :
    fold f t init = (leaves t).foldl (fun acc e => f e acc) init := by
  induction t generalizing init with
  | leaf e => rfl
  | node p m l r ihl ihr => rw [fold, ihl, ihr, leaves, List.foldl_append]

theorem leaves_toFinset (t : PatriciaTree Int63) : (leaves t).toFinset = elems t := by
  induction t with
  | leaf e => rfl
  | node p m l r ihl ihr => rw [leaves, List.toFinset_append, ihl, ihr, elems_node]

theorem leaves_nodup {t : PatriciaTree Int63} (ht : Wf t) : (leaves t).Nodup := by
  induction ht with
  | leaf e => simp [leaves]
  | @node p l r i hi hl hr hlow hzero hone ihl ihr =>
    rw [leaves, List.nodup_append']
    refine ⟨ihl, ihr, fun x hxl hxr => ?_⟩
    rw [← List.mem_toFinset, leaves_toFinset] at hxl hxr
    exact Finset.disjoint_left.mp (disjoint_of_bit hzero hone) hxl hxr

variable (phys : PhysEq (PatriciaTree Int63))

theorem add_spec (x : Int63) {t : PatriciaTree Int63} (ht : Wf t) :
    Wf (add int63 phys x t) ∧ elems (add int63 phys x t) = insert x (elems t) := by
  induction ht with
  | leaf e =>
    rw [add]
    by_cases hx : x = e
    · subst hx
      simp [int63, Wf.leaf]
    · rw [if_neg (by simpa [int63] using hx)]
      obtain ⟨d, hd, -, hagree, hdiff⟩ := exists_firstDiff (k := 63) fun h => hx (Agree.eq h)
      have hself : ∀ a : Int63, ∀ y ∈ elems (leaf a), Agree (d + 1) a y := fun a y hy => by
        rw [elems_leaf, Finset.mem_singleton] at hy
        rw [hy]
      exact joinDisjoint_spec (.leaf x) (.leaf e) hd hagree hdiff (hself x) (hself e)
  | @node p l r i hi hl hr hlow hzero hone ihl ihr =>
    rw [add]
    by_cases hm : lowBits x i = p
    · rw [if_pos ((matchPrefix_iff x p).mpr hm)]
      cases hx : x.getLsbD i with
      | false =>
        rw [if_pos ((isZeroBit_iff hi x).mpr hx)]
        dsimp only
        rw [phys.ite_eq fun l => node p (twoPow 63 i) l r]
        have hunion : elems (add int63 phys x l) ∪ elems r =
            insert x (elems l ∪ elems r) := by rw [ihl.2, Finset.insert_union]
        refine ⟨.node hi ihl.1 hr ?_ ?_ hone, hunion⟩
        · rw [hunion]
          exact fun y hy => (Finset.mem_insert.mp hy).elim (fun e => e ▸ hm) (hlow y)
        · rw [ihl.2]
          exact fun y hy => (Finset.mem_insert.mp hy).elim (fun e => e ▸ hx) (hzero y)
      | true =>
        rw [if_neg (by rw [isZeroBit_iff hi, hx]; simp)]
        dsimp only
        rw [phys.ite_eq fun r => node p (twoPow 63 i) l r]
        have hunion : elems l ∪ elems (add int63 phys x r) =
            insert x (elems l ∪ elems r) := by rw [ihr.2, Finset.union_insert]
        refine ⟨.node hi hl ihr.1 ?_ hzero ?_, hunion⟩
        · rw [hunion]
          exact fun y hy => (Finset.mem_insert.mp hy).elim (fun e => e ▸ hm) (hlow y)
        · rw [ihr.2]
          exact fun y hy => (Finset.mem_insert.mp hy).elim (fun e => e ▸ hx) (hone y)
    · rw [if_neg (by rw [matchPrefix_iff]; exact hm)]
      have ht : Wf (node p (twoPow 63 i) l r) := .node hi hl hr hlow hzero hone
      obtain ⟨y, hy⟩ := elems_nonempty (node p (twoPow 63 i) l r)
      have hpy : lowBits y i = p := hlow y hy
      have hp : ∀ z ∈ elems (node p (twoPow 63 i) l r), Agree i p z := fun z hz =>
        hlow z hz ▸ agree_lowBits hi z
      have hne : ¬ Agree i x p := fun h =>
        hm (hpy ▸ (lowBits_eq_iff hi x y).mpr (h.trans (hp y hy)))
      obtain ⟨d, hd, hd63, hagree, hdiff⟩ := exists_firstDiff hne
      refine joinDisjoint_spec (.leaf x) ht hd63 hagree hdiff (fun z hz => ?_)
        fun z hz => (hp z hz).mono hd
      rw [elems_leaf, Finset.mem_singleton] at hz
      rw [hz]

/-! ## 4. Clashes -/

/-- The operands meet the wrong comparison: `x` and its copy with the other sign bit are in `s`, and
    `t` branches at a bit `i` on the path of `x`, while `s` has nothing else from bit `i` on. -/
def Clash (s t : Finset Int63) : Prop :=
  ∃ x ∈ s, x ^^^ twoPow 63 62 ∈ s ∧ ∃ i < 62,
    (∃ y ∈ t, ∃ z ∈ t, Agree i x y ∧ Agree i x z ∧ y.getLsbD i ≠ z.getLsbD i) ∧
    ∀ u ∈ s, Agree i x u → u = x ∨ u = x ^^^ twoPow 63 62

/-- Words that agree below the sign bit are equal or differ in the sign bit. -/
theorem eq_or_eq_xor {x u : Int63} (h : Agree 62 x u) : u = x ∨ u = x ^^^ twoPow 63 62 := by
  by_cases hbit : x.getLsbD 62 = u.getLsbD 62
  · exact Or.inl (Agree.eq (h.succ hbit)).symm
  · refine Or.inr (BitVec.eq_of_getLsbD_eq fun j hj => ?_)
    rw [BitVec.getLsbD_xor, BitVec.getLsbD_twoPow]
    by_cases hj62 : j = 62
    · subst hj62
      revert hbit
      cases x.getLsbD 62 <;> cases u.getLsbD 62 <;> simp
    · rw [← h j (by omega)]
      simp [Ne.symm hj62]

/-- Elements of one sign do not clash. -/
theorem not_clash_of_sign {s : Finset Int63} (t : Finset Int63) {b : Bool}
    (hs : ∀ x ∈ s, x.getLsbD 62 = b) : ¬ Clash s t := by
  rintro ⟨x, hx, hx', -⟩
  have hsame := (hs _ hx').trans (hs x hx).symm
  rw [BitVec.getLsbD_xor] at hsame
  cases h : x.getLsbD 62 <;> rw [h] at hsame <;> exact absurd hsame (by decide)

/-- Parts of the operands clash no more than the operands, when the part of `t` agrees up to a bit
    that decides membership in the part of `s`. -/
theorem Clash.mono {s s' t t' : Finset Int63} {c : Nat} (h : Clash s' t') (hs : s' ⊆ s)
    (ht : t' ⊆ t) (hagree : ∀ u ∈ t', ∀ v ∈ t', Agree c u v)
    (hpart : ∀ x ∈ s', ∀ u ∈ s, Agree c x u → u ∈ s') : Clash s t := by
  obtain ⟨x, hx, hx', i, hi, ⟨y, hy, z, hz, hxy, hxz, hne⟩, honly⟩ := h
  have hci : c ≤ i := by
    by_contra hlt
    exact hne (hagree y hy z hz i (not_le.mp hlt))
  exact ⟨x, hs hx, hs hx', i, hi, ⟨y, ht hy, z, ht hz, hxy, hxz, hne⟩, fun u hu hxu =>
    honly u (hpart x hx u hu (hxu.mono hci)) hxu⟩

/-! ## 5. Two nodes -/

/-- What a well-formed node knows of its elements. -/
structure NodeFacts (p : Int63) (i : Nat) (l r : PatriciaTree Int63) : Prop where
  bit_lt : i < 63
  wf_left : Wf l
  wf_right : Wf r
  low : ∀ x ∈ elems l ∪ elems r, lowBits x i = p
  zero : ∀ x ∈ elems l, x.getLsbD i = false
  one : ∀ x ∈ elems r, x.getLsbD i = true

theorem Wf.facts {p m : Int63} {l r : PatriciaTree Int63} (h : Wf (PatriciaTree.node p m l r)) :
    ∃ i, m = twoPow 63 i ∧ NodeFacts p i l r := by
  cases h with
  | @node _ _ _ i hi hl hr hlow hzero hone => exact ⟨i, rfl, hi, hl, hr, hlow, hzero, hone⟩

namespace NodeFacts

variable {p q : Int63} {i j : Nat} {l r l' r' : PatriciaTree Int63}

theorem wf (h : NodeFacts p i l r) : Wf (node p (twoPow 63 i) l r) :=
  .node h.bit_lt h.wf_left h.wf_right h.low h.zero h.one

theorem agree (h : NodeFacts p i l r) {x : Int63} (hx : x ∈ elems l ∪ elems r) : Agree i p x :=
  h.low x hx ▸ agree_lowBits h.bit_lt x

theorem agree_elems (h : NodeFacts p i l r) {x y : Int63} (hx : x ∈ elems l ∪ elems r)
    (hy : y ∈ elems l ∪ elems r) : Agree i x y := (h.agree hx).symm.trans (h.agree hy)

theorem lowBits_prefix (h : NodeFacts p i l r) : lowBits p i = p := by
  obtain ⟨x, hx⟩ := (elems_nonempty l).mono
    (Finset.subset_union_left : elems l ⊆ elems l ∪ elems r)
  rw [← h.low x hx, lowBits_eq_iff h.bit_lt, h.low x hx]
  exact h.agree hx

/-- Two elements of one half agree up to and with the branching bit. -/
theorem agree_left (h : NodeFacts p i l r) {x y : Int63} (hx : x ∈ elems l) (hy : y ∈ elems l) :
    Agree (i + 1) x y :=
  (h.agree_elems (Finset.mem_union_left _ hx) (Finset.mem_union_left _ hy)).succ
    (by rw [h.zero x hx, h.zero y hy])

theorem agree_right (h : NodeFacts p i l r) {x y : Int63} (hx : x ∈ elems r) (hy : y ∈ elems r) :
    Agree (i + 1) x y :=
  (h.agree_elems (Finset.mem_union_right _ hx) (Finset.mem_union_right _ hy)).succ
    (by rw [h.one x hx, h.one y hy])

theorem mem_left_iff (h : NodeFacts p i l r) {x : Int63} (hx : x ∈ elems l ∪ elems r) :
    x ∈ elems l ↔ x.getLsbD i = false :=
  ⟨h.zero x, fun hb => (Finset.mem_union.mp hx).resolve_right fun hr => by
    rw [h.one x hr] at hb
    cases hb⟩

theorem mem_right_iff (h : NodeFacts p i l r) {x : Int63} (hx : x ∈ elems l ∪ elems r) :
    x ∈ elems r ↔ x.getLsbD i = true :=
  ⟨h.one x, fun hb => (Finset.mem_union.mp hx).resolve_left fun hl => by
    rw [h.zero x hl] at hb
    cases hb⟩

/-- The half is decided by agreement with one of its elements. -/
theorem mem_left_of_agree (h : NodeFacts p i l r) {x u : Int63} (hx : x ∈ elems l)
    (hu : u ∈ elems l ∪ elems r) (hxu : Agree (i + 1) x u) : u ∈ elems l :=
  (h.mem_left_iff hu).mpr ((hxu i (Nat.lt_succ_self i)).symm.trans (h.zero x hx))

theorem mem_right_of_agree (h : NodeFacts p i l r) {x u : Int63} (hx : x ∈ elems r)
    (hu : u ∈ elems l ∪ elems r) (hxu : Agree (i + 1) x u) : u ∈ elems r :=
  (h.mem_right_iff hu).mpr ((hxu i (Nat.lt_succ_self i)).symm.trans (h.one x hx))

/-- A half may be replaced by a tree of words that fit in. -/
theorem replace_left (h : NodeFacts p i l r) {t : PatriciaTree Int63} (ht : Wf t)
    (hlow : ∀ x ∈ elems t, lowBits x i = p) (hzero : ∀ x ∈ elems t, x.getLsbD i = false) :
    NodeFacts p i t r :=
  ⟨h.bit_lt, ht, h.wf_right, fun x hx => (Finset.mem_union.mp hx).elim (hlow x) fun hr =>
    h.low x (Finset.mem_union_right _ hr), hzero, h.one⟩

theorem replace_right (h : NodeFacts p i l r) {t : PatriciaTree Int63} (ht : Wf t)
    (hlow : ∀ x ∈ elems t, lowBits x i = p) (hone : ∀ x ∈ elems t, x.getLsbD i = true) :
    NodeFacts p i l t :=
  ⟨h.bit_lt, h.wf_left, ht, fun x hx => (Finset.mem_union.mp hx).elim (fun hl =>
    h.low x (Finset.mem_union_left _ hl)) (hlow x), h.zero, hone⟩

/-- The elements of a node that lies in a half of another one: they have its prefix, they are on
    the side that their own prefix tells, and they agree on it. -/
theorem nested (h : NodeFacts p i l r) (h' : NodeFacts q j l' r') (hji : j < i)
    (hpq : Agree j q p) :
    (∀ x ∈ elems l ∪ elems r, lowBits x j = q ∧ x.getLsbD j = p.getLsbD j) ∧
      ∀ x ∈ elems l ∪ elems r, ∀ y ∈ elems l ∪ elems r, Agree (j + 1) x y := by
  refine ⟨fun x hx => ⟨?_, (h.agree hx j hji).symm⟩, fun x hx y hy =>
    (h.agree_elems hx hy).mono hji⟩
  rw [← h'.lowBits_prefix, lowBits_eq_iff h'.bit_lt]
  exact ((h.agree hx).symm.mono hji.le).trans hpq.symm

/-- A node on the sign bit clashes with a node above it on its path. -/
theorem clash (h : NodeFacts p 62 l r) (h' : NodeFacts q j l' r') (hj : j < 62)
    (hpq : Agree j p q) : Clash (elems l ∪ elems r) (elems l' ∪ elems r') := by
  obtain ⟨x, hx⟩ := elems_nonempty l
  obtain ⟨u, hu⟩ := elems_nonempty r
  obtain ⟨y, hy⟩ := elems_nonempty l'
  obtain ⟨z, hz⟩ := elems_nonempty r'
  have hxm := Finset.mem_union_left (elems r) hx
  have hum := Finset.mem_union_right (elems l) hu
  have hxu : u = x ^^^ twoPow 63 62 := (eq_or_eq_xor (h.agree_elems hxm hum)).resolve_left
    fun e => by
      have := h.zero x hx
      rw [← e, h.one u hu] at this
      cases this
  have hagree : ∀ v ∈ elems l' ∪ elems r', Agree j x v := fun v hv =>
    ((h.agree hxm).mono hj.le).symm.trans (hpq.trans (h'.agree hv))
  have hym := Finset.mem_union_left (elems r') hy
  have hzm := Finset.mem_union_right (elems l') hz
  refine ⟨x, hxm, hxu ▸ hum, j, hj, ⟨y, hym, z, hzm, hagree y hym, hagree z hzm, ?_⟩,
    fun v hv _ => eq_or_eq_xor (h.agree_elems hxm hv)⟩
  rw [h'.zero y hy, h'.one z hz]
  exact Bool.false_ne_true

end NodeFacts

section Tests

variable {lp rp : Int63} {i j : Nat} {ll lr rl rr : PatriciaTree Int63}
  (hl : NodeFacts lp i ll lr) (hr : NodeFacts rp j rl rr)

include hl in
theorem samePrefix_iff :
    samePrefix int63 lp (twoPow 63 i) rp (twoPow 63 j) = true ↔ lp = rp ∧ i = j := by
  simp only [samePrefix, int63, Bool.and_eq_true, decide_eq_true_eq, twoPow_inj hl.bit_lt]

include hl hr in
theorem rightInLeft_iff : rightInLeft int63 lp (twoPow 63 i) rp (twoPow 63 j) = true ↔
    (j ≠ 62 ∧ (i < j ∨ i = 62)) ∧ lowBits rp i = lp := by
  rw [rightInLeft, Bool.and_eq_true, beq_iff_eq, compare_eq_lt_iff hl.bit_lt hr.bit_lt,
    matchPrefix_iff]

include hl hr in
theorem leftInRight_iff : leftInRight int63 lp (twoPow 63 i) rp (twoPow 63 j) = true ↔
    (i ≠ 62 ∧ (j < i ∨ j = 62)) ∧ lowBits lp j = rp := by
  rw [leftInRight, Bool.and_eq_true, beq_iff_eq, compare_eq_gt_iff hl.bit_lt hr.bit_lt,
    matchPrefix_iff]

/-- How two well-formed nodes lie to each other. -/
inductive NodeCase (lp : Int63) (i : Nat) (rp : Int63) (j : Nat) : Prop
  | same (h : samePrefix int63 lp (twoPow 63 i) rp (twoPow 63 j) = true) (hp : lp = rp)
      (hij : i = j)
  | right (h1 : ¬ samePrefix int63 lp (twoPow 63 i) rp (twoPow 63 j) = true)
      (h2 : rightInLeft int63 lp (twoPow 63 i) rp (twoPow 63 j) = true) (hij : i < j)
      (hp : Agree i lp rp)
  | left (h1 : ¬ samePrefix int63 lp (twoPow 63 i) rp (twoPow 63 j) = true)
      (h2 : ¬ rightInLeft int63 lp (twoPow 63 i) rp (twoPow 63 j) = true)
      (h3 : leftInRight int63 lp (twoPow 63 i) rp (twoPow 63 j) = true) (hij : j < i)
      (hp : Agree j lp rp)
  | disjoint (h1 : ¬ samePrefix int63 lp (twoPow 63 i) rp (twoPow 63 j) = true)
      (h2 : ¬ rightInLeft int63 lp (twoPow 63 i) rp (twoPow 63 j) = true)
      (h3 : ¬ leftInRight int63 lp (twoPow 63 i) rp (twoPow 63 j) = true) {d : Nat} (hdi : d < i)
      (hdj : d < j) (hagree : Agree d lp rp) (hdiff : lp.getLsbD d ≠ rp.getLsbD d)

include hl hr in
/-- **The tests find how the nodes lie**, unless the operands clash. -/
theorem nodeCases (hc : ¬ Clash (elems ll ∪ elems lr) (elems rl ∪ elems rr))
    (hc' : ¬ Clash (elems rl ∪ elems rr) (elems ll ∪ elems lr)) : NodeCase lp i rp j := by
  have hsame : samePrefix int63 lp (twoPow 63 i) rp (twoPow 63 j) = true ↔ lp = rp ∧ i = j :=
    samePrefix_iff hl
  have hright := rightInLeft_iff hl hr
  have hleft := leftInRight_iff hl hr
  have hi := hl.bit_lt
  have hj := hr.bit_lt
  -- a prefix test is agreement below the smaller bit
  have hrl : lowBits rp i = lp ↔ Agree i lp rp := by
    conv_lhs => rw [← hl.lowBits_prefix]
    rw [lowBits_eq_iff hi]
    exact ⟨Agree.symm, Agree.symm⟩
  have hlr : lowBits lp j = rp ↔ Agree j lp rp := by
    conv_lhs => rw [← hr.lowBits_prefix]
    rw [lowBits_eq_iff hj]
  rw [hrl] at hright
  rw [hlr] at hleft
  rcases lt_trichotomy i j with hij | hij | hij
  · have h1 : ¬ samePrefix int63 lp (twoPow 63 i) rp (twoPow 63 j) = true := by
      rw [hsame]
      omega
    by_cases hp : Agree i lp rp
    · have hj62 : j ≠ 62 := fun e => hc' (by subst e; exact hr.clash hl hij hp.symm)
      exact .right h1 (hright.mpr ⟨⟨hj62, Or.inl hij⟩, hp⟩) hij hp
    · obtain ⟨d, hd, -, hagree, hdiff⟩ := exists_firstDiff hp
      exact .disjoint h1 (fun h => hp (hright.mp h).2)
        (fun h => hp ((hleft.mp h).2.mono hij.le)) hd (hd.trans hij) hagree hdiff
  · subst hij
    by_cases hp : lp = rp
    · exact .same (hsame.mpr ⟨hp, rfl⟩) hp rfl
    · have hna : ¬ Agree i lp rp := fun h => hp (by
        rw [← hl.lowBits_prefix, ← hr.lowBits_prefix, lowBits_eq_iff hi]
        exact h)
      obtain ⟨d, hd, -, hagree, hdiff⟩ := exists_firstDiff hna
      exact .disjoint (fun h => hp (hsame.mp h).1) (fun h => hna (hright.mp h).2)
        (fun h => hna (hleft.mp h).2) hd hd hagree hdiff
  · have h1 : ¬ samePrefix int63 lp (twoPow 63 i) rp (twoPow 63 j) = true := by
      rw [hsame]
      omega
    by_cases hp : Agree j lp rp
    · have hi62 : i ≠ 62 := fun e => hc (by subst e; exact hl.clash hr hij hp)
      have h2 : ¬ rightInLeft int63 lp (twoPow 63 i) rp (twoPow 63 j) = true := fun h => by
        have := (hright.mp h).1
        omega
      exact .left h1 h2 (hleft.mpr ⟨⟨hi62, Or.inl hij⟩, hp⟩) hij hp
    · obtain ⟨d, hd, -, hagree, hdiff⟩ := exists_firstDiff hp
      exact .disjoint h1 (fun h => hp ((hright.mp h).2.mono hij.le))
        (fun h => hp (hleft.mp h).2) (hd.trans hij) hd hagree hdiff

end Tests

/-! ## 6. Induction over two trees -/

section Parts

variable {lp rp : Int63} {i j : Nat} {ll lr rl rr : PatriciaTree Int63}
  (hl : NodeFacts lp i ll lr)

include hl in
/-- A half clashes with words that agree on the branching bit no more than the node. -/
theorem not_clash_left {t t' : Finset Int63} (hc : ¬ Clash (elems ll ∪ elems lr) t) (ht : t' ⊆ t)
    (hagree : ∀ u ∈ t', ∀ v ∈ t', Agree (i + 1) u v) : ¬ Clash (elems ll) t' := fun h =>
  hc (h.mono Finset.subset_union_left ht hagree fun _ hx _ hu hxu =>
    hl.mem_left_of_agree hx hu hxu)

include hl in
theorem not_clash_right {t t' : Finset Int63} (hc : ¬ Clash (elems ll ∪ elems lr) t) (ht : t' ⊆ t)
    (hagree : ∀ u ∈ t', ∀ v ∈ t', Agree (i + 1) u v) : ¬ Clash (elems lr) t' := fun h =>
  hc (h.mono Finset.subset_union_right ht hagree fun _ hx _ hu hxu =>
    hl.mem_right_of_agree hx hu hxu)

/-- A whole operand clashes with a part of the other one no more than with all of it. -/
theorem not_clash_part {s t t' : Finset Int63} (hc : ¬ Clash s t) (ht : t' ⊆ t) : ¬ Clash s t' :=
  fun h => hc (h.mono (c := 0) (Finset.Subset.refl s) ht
    (fun _ _ _ _ k hk => absurd hk (Nat.not_lt_zero k)) fun _ _ _ hu _ => hu)

/-- Words that a bit separates do not clash. -/
theorem not_clash_of_separated {s t : Finset Int63} {b : Bool}
    (hs : ∀ x ∈ s, lowBits x i = lp ∧ x.getLsbD i = b)
    (ht : ∀ y ∈ t, lowBits y i = lp ∧ y.getLsbD i = !b) (hi : i < 63) : ¬ Clash s t := by
  rintro ⟨x, hx, -, k, hk, ⟨y, hy, z, hz, hxy, -, hne⟩, -⟩
  have hyz : Agree (i + 1) y z :=
    ((lowBits_eq_iff hi y z).mp ((ht y hy).1.trans (ht z hz).1.symm)).succ
      ((ht y hy).2.trans (ht z hz).2.symm)
  have hki : i < k := by
    by_contra hlt
    exact hne (hyz k (by omega))
  have := hxy i hki
  rw [(hs x hx).2, (ht y hy).2] at this
  cases b <;> cases this

end Parts

/-- **Induction over the pairs that a binary function descends to**, for operands that do not
    clash: two trees at one address, a leaf on one side, or two nodes as their tests find them. A
    nested tree lies on the side of the branching bit that its prefix tells. -/
theorem pairInduction {P : PatriciaTree Int63 → PatriciaTree Int63 → Prop}
    (shortcut : ∀ t, Wf t → phys.test t t = true → P t t)
    (leafLeft : ∀ e r, Wf r → ¬ phys.test (leaf e) r = true → P (leaf e) r)
    (leafRight : ∀ l e, Wf l → ¬ phys.test l (leaf e) = true → P l (leaf e))
    (same : ∀ {p i ll lr rl rr}, NodeFacts p i ll lr → NodeFacts p i rl rr →
      ¬ phys.test (node p (twoPow 63 i) ll lr) (node p (twoPow 63 i) rl rr) = true →
      samePrefix int63 p (twoPow 63 i) p (twoPow 63 i) = true → P ll rl → P lr rr →
      P (node p (twoPow 63 i) ll lr) (node p (twoPow 63 i) rl rr))
    (right : ∀ {lp rp i j ll lr rl rr}, NodeFacts lp i ll lr → NodeFacts rp j rl rr →
      ¬ phys.test (node lp (twoPow 63 i) ll lr) (node rp (twoPow 63 j) rl rr) = true →
      ¬ samePrefix int63 lp (twoPow 63 i) rp (twoPow 63 j) = true →
      rightInLeft int63 lp (twoPow 63 i) rp (twoPow 63 j) = true →
      (∀ x ∈ elems (node rp (twoPow 63 j) rl rr),
        lowBits x i = lp ∧ x.getLsbD i = rp.getLsbD i) →
      (rp.getLsbD i = false → P ll (node rp (twoPow 63 j) rl rr)) →
      (rp.getLsbD i = true → P lr (node rp (twoPow 63 j) rl rr)) →
      P (node lp (twoPow 63 i) ll lr) (node rp (twoPow 63 j) rl rr))
    (left : ∀ {lp rp i j ll lr rl rr}, NodeFacts lp i ll lr → NodeFacts rp j rl rr →
      ¬ phys.test (node lp (twoPow 63 i) ll lr) (node rp (twoPow 63 j) rl rr) = true →
      ¬ samePrefix int63 lp (twoPow 63 i) rp (twoPow 63 j) = true →
      ¬ rightInLeft int63 lp (twoPow 63 i) rp (twoPow 63 j) = true →
      leftInRight int63 lp (twoPow 63 i) rp (twoPow 63 j) = true →
      (∀ x ∈ elems (node lp (twoPow 63 i) ll lr),
        lowBits x j = rp ∧ x.getLsbD j = lp.getLsbD j) →
      (lp.getLsbD j = false → P (node lp (twoPow 63 i) ll lr) rl) →
      (lp.getLsbD j = true → P (node lp (twoPow 63 i) ll lr) rr) →
      P (node lp (twoPow 63 i) ll lr) (node rp (twoPow 63 j) rl rr))
    (disjoint : ∀ {lp rp i j d ll lr rl rr}, NodeFacts lp i ll lr → NodeFacts rp j rl rr →
      ¬ phys.test (node lp (twoPow 63 i) ll lr) (node rp (twoPow 63 j) rl rr) = true →
      ¬ samePrefix int63 lp (twoPow 63 i) rp (twoPow 63 j) = true →
      ¬ rightInLeft int63 lp (twoPow 63 i) rp (twoPow 63 j) = true →
      ¬ leftInRight int63 lp (twoPow 63 i) rp (twoPow 63 j) = true → d < i → d < j →
      Agree d lp rp → lp.getLsbD d ≠ rp.getLsbD d →
      P (node lp (twoPow 63 i) ll lr) (node rp (twoPow 63 j) rl rr))
    {l r : PatriciaTree Int63} (hl : Wf l) (hr : Wf r) (hc : ¬ Clash (elems l) (elems r))
    (hc' : ¬ Clash (elems r) (elems l)) : P l r := by
  have hshortcut : ∀ {l r}, Wf l → phys.test l r = true → P l r := fun {l r} hl h => by
    have heq := phys.sound h
    subst heq
    exact shortcut l hl h
  induction l generalizing r with
  | leaf e =>
    by_cases hphys : phys.test (leaf e) r = true
    · exact hshortcut hl hphys
    · exact leafLeft e r hr hphys
  | node lp lm ll lr ihl ihr =>
    induction r with
    | leaf e =>
      by_cases hphys : phys.test (node lp lm ll lr) (leaf e) = true
      · exact hshortcut hl hphys
      · exact leafRight _ e hl hphys
    | node rp rm rl rr ihrl ihrr =>
      by_cases hphys : phys.test (node lp lm ll lr) (node rp rm rl rr) = true
      · exact hshortcut hl hphys
      obtain ⟨i, rfl, hlf⟩ := hl.facts
      obtain ⟨j, rfl, hrf⟩ := hr.facts
      have hll : elems ll ⊆ elems ll ∪ elems lr := Finset.subset_union_left
      have hlr : elems lr ⊆ elems ll ∪ elems lr := Finset.subset_union_right
      have hrl : elems rl ⊆ elems rl ∪ elems rr := Finset.subset_union_left
      have hrr : elems rr ⊆ elems rl ∪ elems rr := Finset.subset_union_right
      cases nodeCases hlf hrf hc hc' with
      | same h hp hij =>
        subst hp hij
        exact same hlf hrf hphys h
          (ihl hlf.wf_left hrf.wf_left
            (not_clash_left hlf hc hrl fun u hu v hv => hrf.agree_left hu hv)
            (not_clash_left hrf hc' hll fun u hu v hv => hlf.agree_left hu hv))
          (ihr hlf.wf_right hrf.wf_right
            (not_clash_right hlf hc hrr fun u hu v hv => hrf.agree_right hu hv)
            (not_clash_right hrf hc' hlr fun u hu v hv => hlf.agree_right hu hv))
      | right h1 h2 hij hp =>
        obtain ⟨hside, hagr⟩ := hrf.nested hlf hij hp
        exact right hlf hrf hphys h1 h2 hside
          (fun _ => ihl hlf.wf_left hr
            (not_clash_left hlf hc (Finset.Subset.refl _) hagr) (not_clash_part hc' hll))
          (fun _ => ihr hlf.wf_right hr
            (not_clash_right hlf hc (Finset.Subset.refl _) hagr) (not_clash_part hc' hlr))
      | left h1 h2 h3 hij hp =>
        obtain ⟨hside, hagr⟩ := hlf.nested hrf hij hp.symm
        exact left hlf hrf hphys h1 h2 h3 hside
          (fun _ => ihrl hrf.wf_left (not_clash_part hc hrl)
            (not_clash_left hrf hc' (Finset.Subset.refl _) hagr))
          (fun _ => ihrr hrf.wf_right (not_clash_part hc hrr)
            (not_clash_right hrf hc' (Finset.Subset.refl _) hagr))
      | disjoint h1 h2 h3 hdi hdj hagree hdiff =>
        exact disjoint hlf hrf hphys h1 h2 h3 hdi hdj hagree hdiff

/-! ## 7. Union -/

/-- **Union**, unless the operands clash. -/
theorem union_spec {l r : PatriciaTree Int63} (hl : Wf l) (hr : Wf r)
    (hc : ¬ Clash (elems l) (elems r)) (hc' : ¬ Clash (elems r) (elems l)) :
    Wf (union int63 phys l r) ∧ elems (union int63 phys l r) = elems l ∪ elems r := by
  refine pairInduction phys (P := fun l r => Wf (union int63 phys l r) ∧
      elems (union int63 phys l r) = elems l ∪ elems r)
    ?shortcut ?leafLeft ?leafRight ?same ?right ?left ?disjoint hl hr hc hc'
  case shortcut =>
    intro t ht hphys
    unfold union
    rw [if_pos hphys, Finset.union_self]
    exact ⟨ht, rfl⟩
  case leafLeft =>
    intro e r hr hphys
    unfold union
    rw [if_neg hphys, elems_leaf, Finset.singleton_union]
    cases r <;> exact add_spec phys e hr
  case leafRight =>
    intro l e hl hphys
    unfold union
    rw [if_neg hphys, elems_leaf, Finset.union_comm, Finset.singleton_union]
    cases l with
    | leaf e' =>
      rw [elems_leaf, Finset.pair_comm]
      exact add_spec phys e' (.leaf e)
    | node p m l r => exact add_spec phys e hl
  case same =>
    intro p i ll lr rl rr hl hr hphys h ihl ihr
    obtain ⟨hwl, hel⟩ := ihl
    obtain ⟨hwr, her⟩ := ihr
    rw [union, if_neg hphys, if_pos h]
    rw [phys.ite_and_eq (fun l r => node p (twoPow 63 i) l r) _ _ _ _
      (phys.ite_and_eq (fun l r => node p (twoPow 63 i) l r) _ _ _ _ rfl)]
    have hnew := (hl.replace_left hwl (fun x hx => ?_) fun x hx => ?_).replace_right hwr
      (fun x hx => ?_) fun x hx => ?_
    · refine ⟨hnew.wf, ?_⟩
      rw [elems_node, hel, her, elems_node, elems_node, Finset.union_union_union_comm]
    · rw [hel] at hx
      exact (Finset.mem_union.mp hx).elim (fun h => hl.low x (Finset.mem_union_left _ h))
        fun h => hr.low x (Finset.mem_union_left _ h)
    · rw [hel] at hx
      exact (Finset.mem_union.mp hx).elim (hl.zero x) (hr.zero x)
    · rw [her] at hx
      exact (Finset.mem_union.mp hx).elim (fun h => hl.low x (Finset.mem_union_right _ h))
        fun h => hr.low x (Finset.mem_union_right _ h)
    · rw [her] at hx
      exact (Finset.mem_union.mp hx).elim (hl.one x) (hr.one x)
  case right =>
    intro lp rp i j ll lr rl rr hl hr hphys h1 h2 hside ihl ihr
    rw [union, if_neg hphys, if_neg h1, if_pos h2]
    cases hb : rp.getLsbD i with
    | false =>
      obtain ⟨hw, he⟩ := ihl hb
      rw [if_pos ((isZeroBit_iff hl.bit_lt rp).mpr hb),
        phys.ite_eq_of_right (fun l => node lp (twoPow 63 i) l lr)]
      have hnew := hl.replace_left hw (fun x hx => ?_) fun x hx => ?_
      · refine ⟨hnew.wf, ?_⟩
        rw [elems_node, he, elems_node lp, Finset.union_right_comm]
      · rw [he] at hx
        exact (Finset.mem_union.mp hx).elim (fun h => hl.low x (Finset.mem_union_left _ h))
          fun h => (hside x h).1
      · rw [he] at hx
        exact (Finset.mem_union.mp hx).elim (hl.zero x) fun h => (hside x h).2.trans hb
    | true =>
      obtain ⟨hw, he⟩ := ihr hb
      rw [if_neg (by rw [isZeroBit_iff hl.bit_lt, hb]; simp),
        phys.ite_eq_of_right (fun r => node lp (twoPow 63 i) ll r)]
      have hnew := hl.replace_right hw (fun x hx => ?_) fun x hx => ?_
      · refine ⟨hnew.wf, ?_⟩
        rw [elems_node, he, elems_node lp, Finset.union_assoc]
      · rw [he] at hx
        exact (Finset.mem_union.mp hx).elim (fun h => hl.low x (Finset.mem_union_right _ h))
          fun h => (hside x h).1
      · rw [he] at hx
        exact (Finset.mem_union.mp hx).elim (hl.one x) fun h => (hside x h).2.trans hb
  case left =>
    intro lp rp i j ll lr rl rr hl hr hphys h1 h2 h3 hside ihl ihr
    rw [union, if_neg hphys, if_neg h1, if_neg h2, if_pos h3]
    cases hb : lp.getLsbD j with
    | false =>
      obtain ⟨hw, he⟩ := ihl hb
      rw [if_pos ((isZeroBit_iff hr.bit_lt lp).mpr hb),
        phys.ite_eq_of_right (fun l => node rp (twoPow 63 j) l rr)]
      have hnew := hr.replace_left hw (fun x hx => ?_) fun x hx => ?_
      · refine ⟨hnew.wf, ?_⟩
        rw [elems_node, he, elems_node rp, Finset.union_assoc]
      · rw [he] at hx
        exact (Finset.mem_union.mp hx).elim (fun h => (hside x h).1)
          fun h => hr.low x (Finset.mem_union_left _ h)
      · rw [he] at hx
        exact (Finset.mem_union.mp hx).elim (fun h => (hside x h).2.trans hb) (hr.zero x)
    | true =>
      obtain ⟨hw, he⟩ := ihr hb
      rw [if_neg (by rw [isZeroBit_iff hr.bit_lt, hb]; simp),
        phys.ite_eq_of_right (fun r => node rp (twoPow 63 j) rl r)]
      have hnew := hr.replace_right hw (fun x hx => ?_) fun x hx => ?_
      · refine ⟨hnew.wf, ?_⟩
        rw [elems_node, he, elems_node rp, Finset.union_left_comm]
      · rw [he] at hx
        exact (Finset.mem_union.mp hx).elim (fun h => (hside x h).1)
          fun h => hr.low x (Finset.mem_union_right _ h)
      · rw [he] at hx
        exact (Finset.mem_union.mp hx).elim (fun h => (hside x h).2.trans hb) (hr.one x)
  case disjoint =>
    intro lp rp i j d ll lr rl rr hl hr hphys h1 h2 h3 hdi hdj hagree hdiff
    rw [union, if_neg hphys, if_neg h1, if_neg h2, if_neg h3]
    exact joinDisjoint_spec hl.wf hr.wf (hdi.trans hl.bit_lt) hagree hdiff
      (fun x hx => (hl.agree hx).mono hdi) fun x hx => (hr.agree hx).mono hdj

/-! ## 8. Removal, filtering, intersection and difference -/

/-- The optional tree is that of the set: no tree for the empty set. -/
def Represents (t : Option (PatriciaTree Int63)) (s : Finset Int63) : Prop :=
  match t with
  | none => s = ∅
  | some t => Wf t ∧ elems t = s

theorem represents_some {t : PatriciaTree Int63} (ht : Wf t) : Represents (some t) (elems t) :=
  ⟨ht, rfl⟩

theorem remove_spec (x : Int63) {t : PatriciaTree Int63} (ht : Wf t) :
    Represents (remove int63 phys x t) ((elems t).erase x) := by
  induction ht with
  | leaf e =>
    rw [remove]
    by_cases hx : x = e
    · rw [if_pos (by simpa [int63] using hx), hx]
      exact Finset.erase_singleton e
    · rw [if_neg (by simpa [int63] using hx), elems_leaf,
        Finset.erase_eq_of_notMem (by simpa using hx)]
      exact represents_some (.leaf e)
  | @node p l r i hi hl hr hlow hzero hone ihl ihr =>
    have hn : NodeFacts p i l r := ⟨hi, hl, hr, hlow, hzero, hone⟩
    rw [remove]
    by_cases hm : lowBits x i = p
    · rw [if_pos ((matchPrefix_iff x p).mpr hm)]
      cases hx : x.getLsbD i with
      | false =>
        rw [if_pos ((isZeroBit_iff hi x).mpr hx)]
        have hxr : x ∉ elems r := fun h => by rw [hone x h] at hx; cases hx
        have hset : (elems l ∪ elems r).erase x = (elems l).erase x ∪ elems r := by
          rw [Finset.erase_union_distrib, Finset.erase_eq_of_notMem hxr]
        rw [elems_node, hset]
        cases hrem : remove int63 phys x l with
        | none =>
          rw [hrem] at ihl
          rw [show (elems l).erase x = ∅ from ihl, Finset.empty_union]
          exact represents_some hr
        | some l' =>
          rw [hrem] at ihl
          obtain ⟨hw, he⟩ := ihl
          dsimp only
          rw [phys.ite_eq fun l => some (node p (twoPow 63 i) l r), ← he]
          refine represents_some (hn.replace_left hw (fun y hy => ?_) fun y hy => ?_).wf
          · rw [he] at hy
            exact hlow y (Finset.mem_union_left _ (Finset.mem_of_mem_erase hy))
          · rw [he] at hy
            exact hzero y (Finset.mem_of_mem_erase hy)
      | true =>
        rw [if_neg (by rw [isZeroBit_iff hi, hx]; simp)]
        have hxl : x ∉ elems l := fun h => by rw [hzero x h] at hx; cases hx
        have hset : (elems l ∪ elems r).erase x = elems l ∪ (elems r).erase x := by
          rw [Finset.erase_union_distrib, Finset.erase_eq_of_notMem hxl]
        rw [elems_node, hset]
        cases hrem : remove int63 phys x r with
        | none =>
          rw [hrem] at ihr
          rw [show (elems r).erase x = ∅ from ihr, Finset.union_empty]
          exact represents_some hl
        | some r' =>
          rw [hrem] at ihr
          obtain ⟨hw, he⟩ := ihr
          dsimp only
          rw [phys.ite_eq fun r => some (node p (twoPow 63 i) l r), ← he]
          refine represents_some (hn.replace_right hw (fun y hy => ?_) fun y hy => ?_).wf
          · rw [he] at hy
            exact hlow y (Finset.mem_union_right _ (Finset.mem_of_mem_erase hy))
          · rw [he] at hy
            exact hone y (Finset.mem_of_mem_erase hy)
    · rw [if_neg (by rw [matchPrefix_iff]; exact hm), elems_node,
        Finset.erase_eq_of_notMem fun h => hm (hlow x h)]
      exact represents_some hn.wf

theorem filter_spec (predicate : Int63 → Bool) {t : PatriciaTree Int63} (ht : Wf t) :
    Represents (filter phys predicate t) ((elems t).filter (predicate · = true)) := by
  induction ht with
  | leaf e =>
    rw [filter]
    cases hp : predicate e with
    | true =>
      rw [if_pos rfl, elems_leaf, Finset.filter_singleton, if_pos hp]
      exact represents_some (.leaf e)
    | false =>
      rw [if_neg (by simp), elems_leaf, Finset.filter_singleton, if_neg (by simp [hp])]
      rfl
  | @node p l r i hi hl hr hlow hzero hone ihl ihr =>
    have hn : NodeFacts p i l r := ⟨hi, hl, hr, hlow, hzero, hone⟩
    rw [filter, elems_node, Finset.filter_union]
    cases hfl : filter phys predicate l with
    | none =>
      rw [hfl] at ihl
      rw [show (elems l).filter _ = ∅ from ihl, Finset.empty_union]
      cases hfr : filter phys predicate r <;> rw [hfr] at ihr <;> exact ihr
    | some l' =>
      rw [hfl] at ihl
      obtain ⟨hwl, hel⟩ := ihl
      cases hfr : filter phys predicate r with
      | none =>
        rw [hfr] at ihr
        rw [show (elems r).filter _ = ∅ from ihr, Finset.union_empty]
        exact ⟨hwl, hel⟩
      | some r' =>
        rw [hfr] at ihr
        obtain ⟨hwr, her⟩ := ihr
        have hsubl : elems l' ⊆ elems l := hel ▸ Finset.filter_subset _ _
        have hsubr : elems r' ⊆ elems r := her ▸ Finset.filter_subset _ _
        dsimp only
        rw [phys.ite_and_eq (fun l r => some (node p (twoPow 63 i) l r)) _ _ _ _ rfl, ← hel,
          ← her]
        exact represents_some ((hn.replace_left hwl
          (fun y hy => hlow y (Finset.mem_union_left _ (hsubl hy)))
          fun y hy => hzero y (hsubl hy)).replace_right hwr
          (fun y hy => hlow y (Finset.mem_union_right _ (hsubr hy)))
          fun y hy => hone y (hsubr hy)).wf

/-- The recombination of two halves by `inter` and `diff`. -/
def recombine (left right : Option (PatriciaTree Int63)) : Option (PatriciaTree Int63) :=
  match left, right with
  | some newLeft, some newRight => some (union int63 phys newLeft newRight)
  | newLeft, none => newLeft
  | none, newRight => newRight

theorem represents_recombine {l r : Option (PatriciaTree Int63)} {s t : Finset Int63}
    (hl : Represents l s) (hr : Represents r t) (hc : ¬ Clash s t) (hc' : ¬ Clash t s) :
    Represents (recombine phys l r) (s ∪ t) := by
  cases l with
  | none =>
    rw [show s = ∅ from hl, Finset.empty_union]
    cases r <;> exact hr
  | some l =>
    cases r with
    | none =>
      rw [show t = ∅ from hr, Finset.union_empty]
      exact hl
    | some r =>
      obtain ⟨hwl, rfl⟩ := hl
      obtain ⟨hwr, rfl⟩ := hr
      exact union_spec phys hwl hwr hc hc'

namespace NodeFacts

variable {p : Int63} {i : Nat} {l r : PatriciaTree Int63}

/-- Parts of the two halves do not clash. -/
theorem not_clash_halves (h : NodeFacts p i l r) {s t : Finset Int63} (hs : s ⊆ elems l)
    (ht : t ⊆ elems r) : ¬ Clash s t ∧ ¬ Clash t s :=
  ⟨not_clash_of_separated (b := false)
    (fun x hx => ⟨h.low x (Finset.mem_union_left _ (hs hx)), h.zero x (hs hx)⟩)
    (fun x hx => ⟨h.low x (Finset.mem_union_right _ (ht hx)), h.one x (ht hx)⟩) h.bit_lt,
  not_clash_of_separated (b := true)
    (fun x hx => ⟨h.low x (Finset.mem_union_right _ (ht hx)), h.one x (ht hx)⟩)
    (fun x hx => ⟨h.low x (Finset.mem_union_left _ (hs hx)), h.zero x (hs hx)⟩) h.bit_lt⟩

end NodeFacts

/-- Trees whose prefixes differ below both branching bits share no element. -/
theorem disjoint_of_nodes {lp rp : Int63} {i j d : Nat} {ll lr rl rr : PatriciaTree Int63}
    (hl : NodeFacts lp i ll lr) (hr : NodeFacts rp j rl rr) (hdi : d < i) (hdj : d < j)
    (hdiff : lp.getLsbD d ≠ rp.getLsbD d) :
    Disjoint (elems ll ∪ elems lr) (elems rl ∪ elems rr) :=
  Finset.disjoint_left.mpr fun _ hxl hxr =>
    hdiff ((hl.agree hxl d hdi).trans (hr.agree hxr d hdj).symm)

theorem inter_of_halves {a b c d : Finset Int63} (had : Disjoint a d) (hbc : Disjoint b c) :
    (a ∪ b) ∩ (c ∪ d) = a ∩ c ∪ b ∩ d := by
  rw [Finset.disjoint_left] at had hbc
  ext x
  have h1 := @had x
  have h2 := @hbc x
  simp only [Finset.mem_inter, Finset.mem_union]
  tauto

theorem sdiff_of_halves {a b c d : Finset Int63} (had : Disjoint a d) (hbc : Disjoint b c) :
    (a ∪ b) \ (c ∪ d) = a \ c ∪ b \ d := by
  rw [Finset.disjoint_left] at had hbc
  ext x
  have h1 := @had x
  have h2 := @hbc x
  simp only [Finset.mem_sdiff, Finset.mem_union]
  tauto

/-- **Intersection**, unless the operands clash. -/
theorem inter_spec {l r : PatriciaTree Int63} (hl : Wf l) (hr : Wf r)
    (hc : ¬ Clash (elems l) (elems r)) (hc' : ¬ Clash (elems r) (elems l)) :
    Represents (inter int63 phys l r) (elems l ∩ elems r) := by
  refine pairInduction phys (P := fun l r =>
      Represents (inter int63 phys l r) (elems l ∩ elems r))
    ?shortcut ?leafLeft ?leafRight ?same ?right ?left ?disjoint hl hr hc hc'
  case shortcut =>
    intro t ht hphys
    unfold inter
    rw [if_pos hphys, Finset.inter_self]
    exact represents_some ht
  case leafLeft =>
    intro e r hr hphys
    have hmem := mem_iff hr e
    unfold inter
    rw [if_neg hphys, elems_leaf]
    by_cases he : e ∈ elems r
    · rw [Finset.singleton_inter_of_mem he]
      cases r <;> simp only [hmem.mpr he, if_true] <;> exact represents_some (.leaf e)
    · rw [Finset.singleton_inter_of_notMem he]
      cases r <;> dsimp only <;> rw [if_neg fun h => he (hmem.mp h)] <;> rfl
  case leafRight =>
    intro l e hl hphys
    have hmem := mem_iff hl e
    unfold inter
    rw [if_neg hphys, elems_leaf]
    cases l with
    | leaf e' =>
      by_cases he : e' = e
      · subst he
        simp [mem, int63, Represents, Wf.leaf]
      · rw [elems_leaf, Finset.singleton_inter_of_notMem (by simpa using he)]
        simp [mem, int63, he, Represents]
    | node p m l r =>
      by_cases he : e ∈ elems (node p m l r)
      · rw [Finset.inter_singleton_of_mem he]
        simp only [hmem.mpr he, if_true]
        exact represents_some (.leaf e)
      · rw [Finset.inter_singleton_of_notMem he]
        dsimp only
        rw [if_neg fun h => he (hmem.mp h)]
        rfl
  case same =>
    intro p i ll lr rl rr hl hr hphys h ihl ihr
    have hsep := hl.not_clash_halves
      (Finset.inter_subset_left : elems ll ∩ elems rl ⊆ elems ll)
      (Finset.inter_subset_left : elems lr ∩ elems rr ⊆ elems lr)
    have := represents_recombine phys ihl ihr hsep.1 hsep.2
    rw [inter, if_neg hphys, if_pos h, elems_node, elems_node, inter_of_halves
      (disjoint_of_bit hl.zero hr.one) (disjoint_of_bit hr.zero hl.one).symm]
    cases hll : inter int63 phys ll rl <;> cases hlr : inter int63 phys lr rr <;>
      rw [hll, hlr] at this <;> exact this
  case right =>
    intro lp rp i j ll lr rl rr hl hr hphys h1 h2 hside ihl ihr
    rw [inter, if_neg hphys, if_neg h1, if_pos h2, elems_node lp,
      Finset.union_inter_distrib_right]
    cases hb : rp.getLsbD i with
    | false =>
      have hdisj := disjoint_of_bit (fun x hx => (hside x hx).2.trans hb) hl.one
      rw [if_pos ((isZeroBit_iff hl.bit_lt rp).mpr hb),
        Finset.disjoint_iff_inter_eq_empty.mp hdisj.symm, Finset.union_empty]
      exact ihl hb
    | true =>
      have hdisj := disjoint_of_bit hl.zero fun x hx => (hside x hx).2.trans hb
      rw [if_neg (by rw [isZeroBit_iff hl.bit_lt, hb]; simp),
        Finset.disjoint_iff_inter_eq_empty.mp hdisj, Finset.empty_union]
      exact ihr hb
  case left =>
    intro lp rp i j ll lr rl rr hl hr hphys h1 h2 h3 hside ihl ihr
    rw [inter, if_neg hphys, if_neg h1, if_neg h2, if_pos h3, elems_node rp,
      Finset.inter_union_distrib_left]
    cases hb : lp.getLsbD j with
    | false =>
      have hdisj := disjoint_of_bit (fun x hx => (hside x hx).2.trans hb) hr.one
      rw [if_pos ((isZeroBit_iff hr.bit_lt lp).mpr hb),
        Finset.disjoint_iff_inter_eq_empty.mp hdisj, Finset.union_empty]
      exact ihl hb
    | true =>
      have hdisj := disjoint_of_bit hr.zero fun x hx => (hside x hx).2.trans hb
      rw [if_neg (by rw [isZeroBit_iff hr.bit_lt, hb]; simp),
        Finset.disjoint_iff_inter_eq_empty.mp hdisj.symm, Finset.empty_union]
      exact ihr hb
  case disjoint =>
    intro lp rp i j d ll lr rl rr hl hr hphys h1 h2 h3 hdi hdj _ hdiff
    rw [inter, if_neg hphys, if_neg h1, if_neg h2, if_neg h3]
    exact Finset.disjoint_iff_inter_eq_empty.mp (disjoint_of_nodes hl hr hdi hdj hdiff)

/-- **Difference**, unless the operands clash. -/
theorem diff_spec {l r : PatriciaTree Int63} (hl : Wf l) (hr : Wf r)
    (hc : ¬ Clash (elems l) (elems r)) (hc' : ¬ Clash (elems r) (elems l)) :
    Represents (diff int63 phys l r) (elems l \ elems r) := by
  refine pairInduction phys (P := fun l r =>
      Represents (diff int63 phys l r) (elems l \ elems r))
    ?shortcut ?leafLeft ?leafRight ?same ?right ?left ?disjoint hl hr hc hc'
  case shortcut =>
    intro t ht hphys
    unfold diff
    rw [if_pos hphys, Finset.sdiff_self]
    rfl
  case leafLeft =>
    intro e r hr hphys
    have hmem := mem_iff hr e
    unfold diff
    rw [if_neg hphys, elems_leaf]
    by_cases he : e ∈ elems r
    · rw [Finset.sdiff_eq_empty_iff_subset.mpr (by simpa using he)]
      cases r <;> simp only [hmem.mpr he, if_true] <;> rfl
    · rw [Finset.sdiff_eq_self_of_disjoint (by simpa using he)]
      cases r <;> dsimp only <;> rw [if_neg fun h => he (hmem.mp h)] <;>
        exact represents_some (.leaf e)
  case leafRight =>
    intro l e hl hphys
    unfold diff
    rw [if_neg hphys, elems_leaf, Finset.sdiff_singleton_eq_erase]
    cases l with
    | leaf e' =>
      by_cases he : e' = e
      · subst he
        simp [mem, int63, Represents]
      · rw [elems_leaf, Finset.erase_eq_of_notMem (by simpa using Ne.symm he)]
        simp [mem, int63, he, Represents, Wf.leaf]
    | node p m l r => exact remove_spec phys e hl
  case same =>
    intro p i ll lr rl rr hl hr hphys h ihl ihr
    have hsep := hl.not_clash_halves (Finset.sdiff_subset (t := elems rl))
      (Finset.sdiff_subset (t := elems rr))
    have := represents_recombine phys ihl ihr hsep.1 hsep.2
    rw [diff, if_neg hphys, if_pos h, elems_node, elems_node, sdiff_of_halves
      (disjoint_of_bit hl.zero hr.one) (disjoint_of_bit hr.zero hl.one).symm]
    cases hll : diff int63 phys ll rl <;> cases hlr : diff int63 phys lr rr <;>
      rw [hll, hlr] at this <;> exact this
  case right =>
    intro lp rp i j ll lr rl rr hl hr hphys h1 h2 hside ihl ihr
    rw [diff, if_neg hphys, if_neg h1, if_pos h2, elems_node lp, Finset.union_sdiff_distrib]
    cases hb : rp.getLsbD i with
    | false =>
      have hdisj := disjoint_of_bit (fun x hx => (hside x hx).2.trans hb) hl.one
      have hsep := hl.not_clash_halves (Finset.sdiff_subset
        (t := elems (node rp (twoPow 63 j) rl rr))) (Finset.Subset.refl _)
      have := represents_recombine phys (ihl hb) (represents_some hl.wf_right) hsep.1 hsep.2
      rw [if_pos ((isZeroBit_iff hl.bit_lt rp).mpr hb),
        Finset.sdiff_eq_self_of_disjoint (s := elems lr) hdisj.symm]
      cases hd : diff int63 phys ll (node rp (twoPow 63 j) rl rr) <;> rw [hd] at this <;>
        exact this
    | true =>
      have hdisj := disjoint_of_bit hl.zero fun x hx => (hside x hx).2.trans hb
      have hsep := hl.not_clash_halves (Finset.Subset.refl _) (Finset.sdiff_subset
        (t := elems (node rp (twoPow 63 j) rl rr)))
      have := represents_recombine phys (represents_some hl.wf_left) (ihr hb) hsep.1 hsep.2
      rw [if_neg (by rw [isZeroBit_iff hl.bit_lt, hb]; simp),
        Finset.sdiff_eq_self_of_disjoint (s := elems ll) hdisj]
      cases hd : diff int63 phys lr (node rp (twoPow 63 j) rl rr) <;> rw [hd] at this <;>
        exact this
  case left =>
    intro lp rp i j ll lr rl rr hl hr hphys h1 h2 h3 hside ihl ihr
    rw [diff, if_neg hphys, if_neg h1, if_neg h2, if_pos h3, elems_node rp]
    cases hb : lp.getLsbD j with
    | false =>
      have hdisj := disjoint_of_bit (fun x hx => (hside x hx).2.trans hb) hr.one
      rw [if_pos ((isZeroBit_iff hr.bit_lt lp).mpr hb), Finset.sdiff_union_distrib,
        Finset.sdiff_eq_self_of_disjoint hdisj, Finset.inter_eq_left.mpr Finset.sdiff_subset]
      exact ihl hb
    | true =>
      have hdisj := disjoint_of_bit hr.zero fun x hx => (hside x hx).2.trans hb
      rw [if_neg (by rw [isZeroBit_iff hr.bit_lt, hb]; simp), Finset.sdiff_union_distrib,
        Finset.sdiff_eq_self_of_disjoint hdisj.symm,
        Finset.inter_eq_right.mpr Finset.sdiff_subset]
      exact ihr hb
  case disjoint =>
    intro lp rp i j d ll lr rl rr hl hr hphys h1 h2 h3 hdi hdj _ hdiff
    rw [diff, if_neg hphys, if_neg h1, if_neg h2, if_neg h3, elems_node, elems_node,
      Finset.sdiff_eq_self_of_disjoint (disjoint_of_nodes hl hr hdi hdj hdiff)]
    exact represents_some hl.wf

/-! ## 9. Subset -/

/-- The wrong comparison of `subset`: `x` and its copy with the other sign bit are in `s`, and `t`
    leaves the path of `x` at a bit where no element of `s` does. -/
def SubsetClash (s t : Finset Int63) : Prop :=
  ∃ x ∈ s, x ^^^ twoPow 63 62 ∈ s ∧ ∃ k < 62,
    (∃ y ∈ t, Agree k x y ∧ y.getLsbD k ≠ x.getLsbD k) ∧
    ∀ u ∈ s, Agree k x u → u.getLsbD k = x.getLsbD k

theorem subset_sound {l r : PatriciaTree Int63} (hr : Wf r)
    (h : subset int63 phys l r = true) : elems l ⊆ elems r := by
  induction l generalizing r with
  | leaf e =>
    unfold subset at h
    split at h
    · rename_i hphys
      rw [phys.sound hphys]
    · have hmem := mem_iff hr e
      rw [elems_leaf, Finset.singleton_subset_iff, ← hmem]
      cases r <;> exact h
  | node lp lm ll lr ihl ihr =>
    unfold subset at h
    split at h
    · rename_i hphys
      rw [phys.sound hphys]
    cases r with
    | leaf e => cases h
    | node rp rm rl rr =>
      obtain ⟨j, rfl, hrf⟩ := hr.facts
      have hboth : ∀ {a b : PatriciaTree Int63}, Wf a → Wf b →
          elems a ⊆ elems rl ∪ elems rr → elems b ⊆ elems rl ∪ elems rr →
          (subset int63 phys ll a && subset int63 phys lr b) = true →
          elems ll ∪ elems lr ⊆ elems rl ∪ elems rr := fun ha hb has hbs hsub => by
        rw [Bool.and_eq_true] at hsub
        exact Finset.union_subset ((ihl ha hsub.1).trans has) ((ihr hb hsub.2).trans hbs)
      have hl : elems rl ⊆ elems rl ∪ elems rr := Finset.subset_union_left
      have hr : elems rr ⊆ elems rl ∪ elems rr := Finset.subset_union_right
      dsimp only at h
      split at h
      · exact hboth hrf.wf_left hrf.wf_right hl hr h
      split at h
      · split at h
        · exact hboth hrf.wf_left hrf.wf_left hl hl h
        · exact hboth hrf.wf_right hrf.wf_right hr hr h
      · cases h

/-- **Subset**, unless it meets the wrong comparison: every bit at which the left tree branches is
    one of the right tree, so a node of the left tree is never met above its bit. -/
theorem subset_complete {l r : PatriciaTree Int63} (hl : Wf l) (hr : Wf r)
    (hc : ¬ SubsetClash (elems l) (elems r)) (hsub : elems l ⊆ elems r) :
    subset int63 phys l r = true := by
  induction l generalizing r with
  | leaf e =>
    have hmem := (mem_iff hr e).mpr (hsub (Finset.mem_singleton_self e))
    unfold subset
    split
    · rfl
    · cases r <;> exact hmem
  | node lp lm ll lr ihl ihr =>
    obtain ⟨i, rfl, hlf⟩ := hl.facts
    obtain ⟨x, hx⟩ := elems_nonempty ll
    obtain ⟨y, hy⟩ := elems_nonempty lr
    have hxm := Finset.mem_union_left (elems lr) hx
    have hym := Finset.mem_union_right (elems ll) hy
    have hne : x.getLsbD i ≠ y.getLsbD i := by
      rw [hlf.zero x hx, hlf.one y hy]
      exact Bool.false_ne_true
    unfold subset
    split
    · rfl
    cases r with
    | leaf e =>
      have hxe := Finset.mem_singleton.mp (hsub hxm)
      have hye := Finset.mem_singleton.mp (hsub hym)
      exact absurd (by rw [hxe, hye]) hne
    | node rp rm rl rr =>
      obtain ⟨j, rfl, hrf⟩ := hr.facts
      have hsub : elems ll ∪ elems lr ⊆ elems rl ∪ elems rr := hsub
      have hji : j ≤ i := by
        by_contra hlt
        exact hne (hrf.agree_elems (hsub hxm) (hsub hym) i (not_le.mp hlt))
      have hp : Agree j lp rp :=
        ((hlf.agree hxm).mono hji).trans (hrf.agree (hsub hxm)).symm
      dsimp only
      rcases Nat.lt_or_eq_of_le hji with hlt | heq
      · -- the left tree lies in a half, so it has no two elements that differ in the sign bit
        obtain ⟨hside, -⟩ := hlf.nested hrf hlt hp.symm
        have hnopair : ∀ u ∈ elems ll ∪ elems lr, u ^^^ twoPow 63 62 ∉ elems ll ∪ elems lr := by
          intro u hu hu'
          refine hc ⟨u, hu, hu', j, by have := hlf.bit_lt; omega, ?_, fun v hv _ =>
            (hside v hv).2.trans (hside u hu).2.symm⟩
          cases hb : lp.getLsbD j with
          | false =>
            obtain ⟨z, hz⟩ := elems_nonempty rr
            refine ⟨z, Finset.mem_union_right _ hz, hrf.agree_elems (hsub hu)
              (Finset.mem_union_right _ hz), ?_⟩
            rw [hrf.one z hz, (hside u hu).2, hb]
            exact Bool.false_ne_true.symm
          | true =>
            obtain ⟨z, hz⟩ := elems_nonempty rl
            refine ⟨z, Finset.mem_union_left _ hz, hrf.agree_elems (hsub hu)
              (Finset.mem_union_left _ hz), ?_⟩
            rw [hrf.zero z hz, (hside u hu).2, hb]
            exact Bool.false_ne_true
        have hi62 : i ≠ 62 := fun e => by
          subst e
          refine hnopair x hxm ?_
          rcases eq_or_eq_xor (hlf.agree_elems hxm hym) with h | h
          · exact absurd (by rw [h]) hne
          · exact h ▸ hym
        have h1 : ¬ samePrefix int63 lp (twoPow 63 i) rp (twoPow 63 j) = true := by
          rw [samePrefix_iff hlf]
          omega
        have h3 : leftInRight int63 lp (twoPow 63 i) rp (twoPow 63 j) = true := by
          rw [leftInRight_iff hlf hrf, ← hrf.lowBits_prefix, lowBits_eq_iff hrf.bit_lt]
          exact ⟨⟨hi62, Or.inl hlt⟩, hp⟩
        have hcl : ∀ t, ¬ SubsetClash (elems ll) t := fun t ⟨u, hu, hu', _⟩ =>
          hnopair u (Finset.mem_union_left _ hu) (Finset.mem_union_left _ hu')
        have hcr : ∀ t, ¬ SubsetClash (elems lr) t := fun t ⟨u, hu, hu', _⟩ =>
          hnopair u (Finset.mem_union_right _ hu) (Finset.mem_union_right _ hu')
        rw [if_neg h1, if_pos h3]
        cases hb : lp.getLsbD j with
        | false =>
          have hhalf : elems ll ∪ elems lr ⊆ elems rl := fun u hu =>
            (hrf.mem_left_iff (hsub hu)).mpr ((hside u hu).2.trans hb)
          rw [if_pos ((isZeroBit_iff hrf.bit_lt lp).mpr hb), Bool.and_eq_true]
          exact ⟨ihl hlf.wf_left hrf.wf_left (hcl _) (Finset.union_subset_left hhalf),
            ihr hlf.wf_right hrf.wf_left (hcr _) (Finset.union_subset_right hhalf)⟩
        | true =>
          have hhalf : elems ll ∪ elems lr ⊆ elems rr := fun u hu =>
            (hrf.mem_right_iff (hsub hu)).mpr ((hside u hu).2.trans hb)
          rw [if_neg (by rw [isZeroBit_iff hrf.bit_lt, hb]; simp), Bool.and_eq_true]
          exact ⟨ihl hlf.wf_left hrf.wf_right (hcl _) (Finset.union_subset_left hhalf),
            ihr hlf.wf_right hrf.wf_right (hcr _) (Finset.union_subset_right hhalf)⟩
      · -- the same bit: each half lies in its half
        subst heq
        have hpq : lp = rp := by
          rw [← hlf.lowBits_prefix, ← hrf.lowBits_prefix, lowBits_eq_iff hlf.bit_lt]
          exact hp
        have hleft : elems ll ⊆ elems rl := fun u hu =>
          (hrf.mem_left_iff (hsub (Finset.mem_union_left _ hu))).mpr (hlf.zero u hu)
        have hright : elems lr ⊆ elems rr := fun u hu =>
          (hrf.mem_right_iff (hsub (Finset.mem_union_right _ hu))).mpr (hlf.one u hu)
        have hdeep : ∀ {u z : Int63} {k : Nat}, Agree (j + 1) u z →
            z.getLsbD k ≠ u.getLsbD k → j < k := fun huz hne => by
          by_contra hle
          exact hne (huz _ (by omega)).symm
        rw [if_pos ((samePrefix_iff hlf).mpr ⟨hpq, rfl⟩), Bool.and_eq_true]
        refine ⟨ihl hlf.wf_left hrf.wf_left ?_ hleft, ihr hlf.wf_right hrf.wf_right ?_ hright⟩
        · rintro ⟨u, hu, hu', k, hk, ⟨z, hz, huz, hzu⟩, honly⟩
          have hjk := hdeep (hrf.agree_left (hleft hu) hz) hzu
          exact hc ⟨u, Finset.mem_union_left _ hu, Finset.mem_union_left _ hu', k, hk,
            ⟨z, Finset.mem_union_left _ hz, huz, hzu⟩, fun v hv huv =>
            honly v (hlf.mem_left_of_agree hu hv (huv.mono hjk)) huv⟩
        · rintro ⟨u, hu, hu', k, hk, ⟨z, hz, huz, hzu⟩, honly⟩
          have hjk := hdeep (hrf.agree_right (hright hu) hz) hzu
          exact hc ⟨u, Finset.mem_union_right _ hu, Finset.mem_union_right _ hu', k, hk,
            ⟨z, Finset.mem_union_right _ hz, huz, hzu⟩, fun v hv huv =>
            honly v (hlf.mem_right_of_agree hu hv (huv.mono hjk)) huv⟩

end PatriciaTree

/-! ## 10. Runs -/

open PatriciaTree

namespace PatriciaSet

variable (phys : PhysEq (PatriciaTree Int63))

theorem add_represents (x : Int63) {t : PatriciaSet Int63} {s : Finset Int63}
    (ht : Represents t s) : Represents (add int63 phys x t) (insert x s) := by
  cases t with
  | none =>
    rw [show s = ∅ from ht]
    exact represents_some (.leaf x)
  | some t =>
    obtain ⟨hw, rfl⟩ := ht
    exact PatriciaTree.add_spec phys x hw

/-- Adding a list of elements one by one. -/
theorem foldl_add_represents (xs : List Int63) {t : PatriciaSet Int63} {s : Finset Int63}
    (ht : Represents t s) :
    Represents (xs.foldl (fun result x => add int63 phys x result) t) (xs.toFinset ∪ s) := by
  induction xs generalizing t s with
  | nil => simpa using ht
  | cons x xs ih =>
    have := ih (add_represents phys x ht)
    rwa [Finset.union_insert, ← Finset.insert_union, ← List.toFinset_cons] at this

theorem map_represents (f : Int63 → Int63) {t : PatriciaSet Int63} {s : Finset Int63}
    (ht : Represents t s) : Represents (map int63 phys f t) (s.image f) := by
  cases t with
  | none =>
    rw [show s = ∅ from ht]
    rfl
  | some t =>
    obtain ⟨-, rfl⟩ := ht
    have hmap : map int63 phys f (some t) =
        PatriciaTree.fold (fun element result => add int63 phys (f element) result) t none := by
      rw [map, PatriciaTree.map]
      congr
      funext element result
      cases result <;> rfl
    have := foldl_add_represents phys ((leaves t).map f) (t := none) (s := ∅) rfl
    have himage : ((leaves t).map f).toFinset = (leaves t).toFinset.image f := by
      ext y
      simp
    rw [Finset.union_empty, List.foldl_map, himage, leaves_toFinset] at this
    rw [hmap, fold_eq_foldl]
    exact this

theorem remove_represents (x : Int63) {t : PatriciaSet Int63} {s : Finset Int63}
    (ht : Represents t s) : Represents (remove int63 phys x t) (s.erase x) := by
  cases t with
  | none =>
    rw [show s = ∅ from ht]
    rfl
  | some t =>
    obtain ⟨hw, rfl⟩ := ht
    exact remove_spec phys x hw

theorem filter_represents (predicate : Int63 → Bool) {t : PatriciaSet Int63} {s : Finset Int63}
    (ht : Represents t s) :
    Represents (filter phys predicate t) (s.filter (predicate · = true)) := by
  cases t with
  | none =>
    rw [show s = ∅ from ht]
    rfl
  | some t =>
    obtain ⟨hw, rfl⟩ := ht
    exact filter_spec phys predicate hw

section Binary

variable {a b : PatriciaSet Int63} {s t : Finset Int63} (ha : Represents a s)
  (hb : Represents b t)

include ha hb

theorem union_represents (hc : ¬ Clash s t) (hc' : ¬ Clash t s) :
    Represents (union int63 phys a b) (s ∪ t) := by
  cases a with
  | none =>
    rw [show s = ∅ from ha, Finset.empty_union]
    cases b <;> exact hb
  | some a =>
    cases b with
    | none =>
      rw [show t = ∅ from hb, Finset.union_empty]
      exact ha
    | some b =>
      obtain ⟨hwa, rfl⟩ := ha
      obtain ⟨hwb, rfl⟩ := hb
      exact union_spec phys hwa hwb hc hc'

theorem inter_represents (hc : ¬ Clash s t) (hc' : ¬ Clash t s) :
    Represents (inter int63 phys a b) (s ∩ t) := by
  cases a with
  | none =>
    rw [show s = ∅ from ha, Finset.empty_inter]
    rfl
  | some a =>
    cases b with
    | none =>
      rw [show t = ∅ from hb, Finset.inter_empty]
      rfl
    | some b =>
      obtain ⟨hwa, rfl⟩ := ha
      obtain ⟨hwb, rfl⟩ := hb
      exact inter_spec phys hwa hwb hc hc'

theorem diff_represents (hc : ¬ Clash s t) (hc' : ¬ Clash t s) :
    Represents (diff int63 phys a b) (s \ t) := by
  cases a with
  | none =>
    rw [show s = ∅ from ha, Finset.empty_sdiff]
    cases b <;> rfl
  | some a =>
    cases b with
    | none =>
      rw [show t = ∅ from hb, Finset.sdiff_empty]
      exact ha
    | some b =>
      obtain ⟨hwa, rfl⟩ := ha
      obtain ⟨hwb, rfl⟩ := hb
      exact diff_spec phys hwa hwb hc hc'

theorem subset_sound (h : subset int63 phys a b = true) : s ⊆ t := by
  cases a with
  | none =>
    rw [show s = ∅ from ha]
    exact Finset.empty_subset t
  | some a =>
    obtain ⟨-, rfl⟩ := ha
    cases b with
    | none => cases h
    | some b =>
      obtain ⟨hwb, rfl⟩ := hb
      exact PatriciaTree.subset_sound phys hwb h

theorem subset_iff (hc : s ⊆ t → ¬ SubsetClash s t) : subset int63 phys a b = true ↔ s ⊆ t := by
  refine ⟨subset_sound phys ha hb, fun hsub => ?_⟩
  cases a with
  | none => rfl
  | some a =>
    obtain ⟨hwa, rfl⟩ := ha
    cases b with
    | none =>
      rw [show t = ∅ from hb] at hsub
      exact absurd (Finset.subset_empty.mp hsub) (elems_nonempty a).ne_empty
    | some b =>
      obtain ⟨hwb, rfl⟩ := hb
      exact subset_complete phys hwa hwb (hc hsub) hsub

end Binary

/-- The elements in the order in which `fold` meets them. -/
def enumeration : PatriciaSet Int63 → List Int63
  | some tree => leaves tree
  | none => []

theorem fold_eq_foldl {A : Type} (f : Int63 → A → A) (set : PatriciaSet Int63) (init : A) :
    fold f set init = (enumeration set).foldl (fun accumulator x => f x accumulator) init := by
  cases set with
  | none => rfl
  | some tree => exact PatriciaTree.fold_eq_foldl f tree init

theorem elements_eq (set : PatriciaSet Int63) : elements set = (enumeration set).reverse := by
  rw [elements, fold_eq_foldl, List.foldl_flip_cons_eq_append]
  simp

end PatriciaSet

namespace PatriciaTree.Represents

open PatriciaSet

variable {a : PatriciaSet Int63} {s : Finset Int63} (ha : Represents a s)

include ha

theorem mem_iff (x : Int63) : PatriciaSet.mem int63 x a = true ↔ x ∈ s := by
  cases a with
  | none =>
    rw [show s = ∅ from ha]
    simp [PatriciaSet.mem]
  | some a =>
    obtain ⟨hw, rfl⟩ := ha
    exact PatriciaTree.mem_iff hw x

theorem cardinal_eq : PatriciaSet.cardinal a = s.card := by
  cases a with
  | none =>
    rw [show s = ∅ from ha]
    rfl
  | some a =>
    obtain ⟨hw, rfl⟩ := ha
    exact PatriciaTree.cardinal_eq hw

theorem enumeration_nodup : (enumeration a).Nodup := by
  cases a with
  | none => exact List.nodup_nil
  | some a => exact leaves_nodup ha.1

theorem enumeration_toFinset : (enumeration a).toFinset = s := by
  cases a with
  | none => exact (show s = ∅ from ha).symm
  | some a => exact (leaves_toFinset a).trans ha.2

theorem isEmpty_iff : PatriciaSet.isEmpty a = true ↔ s = ∅ := by
  cases a with
  | none => exact iff_of_true rfl ha
  | some a =>
    obtain ⟨-, rfl⟩ := ha
    exact iff_of_false Bool.false_ne_true (elems_nonempty a).ne_empty

end PatriciaTree.Represents

/-- The sets that a run builds from the empty set and lists by the operations on sets. -/
inductive SetExpr where
  | empty
  | singleton (element : Int63)
  | add (element : Int63) (set : SetExpr)
  | remove (element : Int63) (set : SetExpr)
  | union (left right : SetExpr)
  | inter (left right : SetExpr)
  | diff (set toRemove : SetExpr)
  | filter (predicate : Int63 → Bool) (set : SetExpr)
  | map (f : Int63 → Int63) (set : SetExpr)
  | ofList (elements : List Int63)

namespace SetExpr

/-- What the code computes. -/
def eval (phys : PhysEq (PatriciaTree Int63)) : SetExpr → PatriciaSet Int63
  | empty => PatriciaSet.empty
  | singleton x => PatriciaSet.singleton x
  | add x s => PatriciaSet.add int63 phys x (eval phys s)
  | remove x s => PatriciaSet.remove int63 phys x (eval phys s)
  | union s t => PatriciaSet.union int63 phys (eval phys s) (eval phys t)
  | inter s t => PatriciaSet.inter int63 phys (eval phys s) (eval phys t)
  | diff s t => PatriciaSet.diff int63 phys (eval phys s) (eval phys t)
  | filter p s => PatriciaSet.filter phys p (eval phys s)
  | map f s => PatriciaSet.map int63 phys f (eval phys s)
  | ofList xs => PatriciaSet.ofList int63 phys xs

/-- The mathematical set. -/
def denote : SetExpr → Finset Int63
  | empty => ∅
  | singleton x => {x}
  | add x s => insert x (denote s)
  | remove x s => (denote s).erase x
  | union s t => denote s ∪ denote t
  | inter s t => denote s ∩ denote t
  | diff s t => denote s \ denote t
  | filter p s => (denote s).filter (p · = true)
  | map f s => (denote s).image f
  | ofList xs => xs.toFinset

/-- The operands of no union, intersection or difference of the run clash. -/
def NoClash : SetExpr → Prop
  | empty => True
  | singleton _ => True
  | add _ s => NoClash s
  | remove _ s => NoClash s
  | union s t => NoClash s ∧ NoClash t ∧ ¬ Clash (denote s) (denote t) ∧
      ¬ Clash (denote t) (denote s)
  | inter s t => NoClash s ∧ NoClash t ∧ ¬ Clash (denote s) (denote t) ∧
      ¬ Clash (denote t) (denote s)
  | diff s t => NoClash s ∧ NoClash t ∧ ¬ Clash (denote s) (denote t) ∧
      ¬ Clash (denote t) (denote s)
  | filter _ s => NoClash s
  | map _ s => NoClash s
  | ofList _ => True

/-- **The run lemma**: without clashes every set of the run is represented. -/
theorem represents (phys : PhysEq (PatriciaTree Int63)) {e : SetExpr} (he : NoClash e) :
    Represents (eval phys e) (denote e) := by
  induction e with
  | empty => rfl
  | singleton x => exact represents_some (.leaf x)
  | add x s ih => exact PatriciaSet.add_represents phys x (ih he)
  | remove x s ih => exact PatriciaSet.remove_represents phys x (ih he)
  | filter p s ih => exact PatriciaSet.filter_represents phys p (ih he)
  | map f s ih => exact PatriciaSet.map_represents phys f (ih he)
  | ofList xs =>
    have := PatriciaSet.foldl_add_represents phys xs (t := none) (s := ∅) rfl
    rwa [Finset.union_empty] at this
  | union s t ihs iht =>
    obtain ⟨hs, ht, hc, hc'⟩ := he
    exact PatriciaSet.union_represents phys (ihs hs) (iht ht) hc hc'
  | inter s t ihs iht =>
    obtain ⟨hs, ht, hc, hc'⟩ := he
    exact PatriciaSet.inter_represents phys (ihs hs) (iht ht) hc hc'
  | diff s t ihs iht =>
    obtain ⟨hs, ht, hc, hc'⟩ := he
    exact PatriciaSet.diff_represents phys (ihs hs) (iht ht) hc hc'

/-- **Every run without clashes agrees with the mathematical sets**: its sets have the same
    members, size, elements and emptiness, and the same subset relation where `subset` does not
    meet the wrong comparison on a subset either. -/
theorem agrees (phys : PhysEq (PatriciaTree Int63)) (e : SetExpr) (he : NoClash e) :
    (∀ x, PatriciaSet.mem int63 x (eval phys e) = true ↔ x ∈ denote e) ∧
    PatriciaSet.cardinal (eval phys e) = (denote e).card ∧
    (PatriciaSet.elements (eval phys e)).Nodup ∧
    (PatriciaSet.elements (eval phys e)).toFinset = denote e ∧
    (PatriciaSet.isEmpty (eval phys e) = true ↔ denote e = ∅) ∧
    ∀ e', NoClash e' → (denote e ⊆ denote e' → ¬ SubsetClash (denote e) (denote e')) →
      (PatriciaSet.subset int63 phys (eval phys e) (eval phys e') = true ↔
        denote e ⊆ denote e') := by
  have hrep := represents phys he
  refine ⟨hrep.mem_iff, hrep.cardinal_eq, ?_, ?_, hrep.isEmpty_iff, fun e' he' hc => ?_⟩
  · rw [PatriciaSet.elements_eq, List.nodup_reverse]
    exact hrep.enumeration_nodup
  · rw [PatriciaSet.elements_eq, List.toFinset_reverse]
    exact hrep.enumeration_toFinset
  · exact PatriciaSet.subset_iff phys hrep (represents phys he') hc

theorem agrees_union :
    PatriciaSet.cardinal (eval (.never _) (union (ofList [1#63, 2#63]) (ofList [2#63, 3#63]))) =
      (denote (union (ofList [1#63, 2#63]) (ofList [2#63, 3#63]))).card := by
  have hl : ∀ x ∈ denote (ofList [1#63, 2#63]), x.getLsbD 62 = false := by simp [denote]
  have hr : ∀ x ∈ denote (ofList [2#63, 3#63]), x.getLsbD 62 = false := by simp [denote]
  exact (agrees (.never _) (union (ofList [1#63, 2#63]) (ofList [2#63, 3#63]))
    ⟨trivial, trivial, not_clash_of_sign _ hl, not_clash_of_sign _ hr⟩).2.1

/-- The union of `{0, min_int}` and `{0, min_int + 1}` loses `min_int + 1`; the test that
    `{0, min_int}` is a subset of `{0, 1, min_int}` says no. -/
theorem union_loses_element :
    ∃ e x y z : SetExpr, ∃ a : Int63, x = union (ofList [0#63, twoPow 63 62]) e ∧
      a ∈ denote x ∧ PatriciaSet.mem int63 a (eval (.never _) x) = false ∧
      denote y ⊆ denote z ∧
      PatriciaSet.subset int63 (.never _) (eval (.never _) y) (eval (.never _) z) = false :=
  ⟨ofList [0#63, twoPow 63 62 ||| 1#63], _, ofList [0#63, twoPow 63 62],
    ofList [0#63, 1#63, twoPow 63 62], twoPow 63 62 ||| 1#63, rfl, by decide +kernel⟩

end SetExpr

end Pysa
