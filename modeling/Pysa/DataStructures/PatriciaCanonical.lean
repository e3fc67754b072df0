/-
  Subject: ONE TREE FOR A SET (`patriciaTreeSet.ml`).

  * `Wf.ext` -- two well-formed trees with the same elements are one tree: the branching bit is
    the first bit at which the elements differ, the prefix what they share below it;
  * `equal_iff`, `compare_eq_iff` -- `equal`, and the structural comparison of the language, decide
    whether two trees are one;
  * `SetExpr.canonical` -- **runs without clashes that compute the same set compute the same
    tree**;
  * `SetExpr.canonical_nesting` -- a clash nests the bits in the wrong order: the same members,
    another tree.
-/
import Pysa.DataStructures.PatriciaCorrect

namespace Pysa

open BitVec (twoPow)

namespace PatriciaTree

/-! ## 1. Well-formed trees are canonical -/

section Nodes

variable {lp rp : Int63} {i j : Nat} {ll lr rl rr : PatriciaTree Int63}

/-- A node has two elements that differ at its branching bit. -/
theorem NodeFacts.bit_le (hleft : NodeFacts lp i ll lr) (hright : NodeFacts rp j rl rr)
    (hsub : elems ll ∪ elems lr ⊆ elems rl ∪ elems rr) : j ≤ i := by
  obtain ⟨x, hx⟩ := elems_nonempty ll
  obtain ⟨y, hy⟩ := elems_nonempty lr
  by_contra hlt
  have hagree : Agree j x y := hright.agree_elems (hsub (Finset.mem_union_left _ hx))
    (hsub (Finset.mem_union_right _ hy))
  have hbit := hagree i (by omega)
  rw [hleft.zero x hx, hleft.one y hy] at hbit
  cases hbit

/-- The branching bit splits the elements in one way. -/
theorem NodeFacts.halves (hleft : NodeFacts lp i ll lr) (hright : NodeFacts rp i rl rr)
    (heq : elems ll ∪ elems lr = elems rl ∪ elems rr) :
    elems ll = elems rl ∧ elems lr = elems rr := by
  constructor
  · ext x
    constructor
    · intro hx
      exact (hright.mem_left_iff (heq ▸ Finset.mem_union_left _ hx)).mpr (hleft.zero x hx)
    · intro hx
      exact (hleft.mem_left_iff (heq ▸ Finset.mem_union_left _ hx)).mpr (hright.zero x hx)
  · ext x
    constructor
    · intro hx
      exact (hright.mem_right_iff (heq ▸ Finset.mem_union_right _ hx)).mpr (hleft.one x hx)
    · intro hx
      exact (hleft.mem_right_iff (heq ▸ Finset.mem_union_right _ hx)).mpr (hright.one x hx)

/-- A node has more than one element. -/
theorem NodeFacts.ne_singleton (h : NodeFacts lp i ll lr) (e : Int63) :
    elems ll ∪ elems lr ≠ {e} := by
  intro heq
  obtain ⟨x, hx⟩ := elems_nonempty ll
  obtain ⟨y, hy⟩ := elems_nonempty lr
  have hxe : x = e := Finset.mem_singleton.mp (heq ▸ Finset.mem_union_left _ hx)
  have hye : y = e := Finset.mem_singleton.mp (heq ▸ Finset.mem_union_right _ hy)
  have hbit := h.zero x hx
  rw [hxe, ← hye, h.one y hy] at hbit
  cases hbit

end Nodes

/-- **A set has one well-formed tree.** -/
theorem Wf.ext {t t' : PatriciaTree Int63} (ht : Wf t) (ht' : Wf t') (heq : elems t = elems t') :
    t = t' := by
  induction t generalizing t' with
  | leaf e =>
    cases t' with
    | leaf e' => rw [Finset.singleton_inj.mp heq]
    | node p' m' l' r' =>
      obtain ⟨j, rfl, hright⟩ := ht'.facts
      exact absurd heq.symm (hright.ne_singleton e)
  | node p m l r ihl ihr =>
    obtain ⟨i, rfl, hleft⟩ := ht.facts
    cases t' with
    | leaf e' => exact absurd heq (hleft.ne_singleton e')
    | node p' m' l' r' =>
      obtain ⟨j, rfl, hright⟩ := ht'.facts
      obtain rfl : i = j := le_antisymm (hright.bit_le hleft heq.symm.subset)
        (hleft.bit_le hright heq.subset)
      obtain ⟨hl, hr⟩ := hleft.halves hright heq
      obtain ⟨x, hx⟩ := elems_nonempty l
      have hx' : x ∈ elems l' ∪ elems r' := Finset.mem_union_left _ (hl ▸ hx)
      have hp : p = p' :=
        (hleft.low x (Finset.mem_union_left _ hx)).symm.trans (hright.low x hx')
      rw [hp, ihl hleft.wf_left hright.wf_left hl, ihr hleft.wf_right hright.wf_right hr]

/-! ## 2. Equality and comparison of trees -/

/-- The shortcut answers as the comparison does. -/
theorem ite_test_iff (phys : PhysEq (PatriciaTree Int63)) {left right : PatriciaTree Int63}
    {b : Bool} (h : b = true ↔ left = right) :
    (if phys.test left right = true then true else b) = true ↔ left = right := by
  split
  · rename_i htest
    exact iff_of_true rfl (phys.sound htest)
  · exact h

theorem equal_iff (phys : PhysEq (PatriciaTree Int63)) {left right : PatriciaTree Int63} :
    equal int63 phys left right = true ↔ left = right := by
  induction left generalizing right with
  | leaf e =>
    cases right with
    | leaf e' =>
      refine ite_test_iff phys ?_
      simp [int63]
    | node p' m' l' r' =>
      refine ite_test_iff phys ?_
      simp
  | node p m l r ihl ihr =>
    cases right with
    | leaf e' =>
      refine ite_test_iff phys ?_
      simp
    | node p' m' l' r' =>
      refine ite_test_iff phys ?_
      rw [Bool.and_eq_true, Bool.and_eq_true, Bool.and_eq_true, ihl, ihr]
      simp [int63, and_assoc]

/-- The structural comparison of the language at trees: constructors in order of declaration,
    then the fields from left to right. -/
def compare {E : Type} (D : PatriciaElement E) : PatriciaTree E → PatriciaTree E → Ordering
  | leaf e, leaf e' => D.compare e e'
  | leaf _, node _ _ _ _ => .lt
  | node _ _ _ _, leaf _ => .gt
  | node lp lb ll lr, node rp rb rl rr =>
    (D.compare lp rp).then ((D.compare lb rb).then ((compare D ll rl).then (compare D lr rr)))

theorem int63_compare_eq_iff {a b : Int63} : int63.compare a b = .eq ↔ a = b := by
  refine Iff.trans (compare_eq_iff_eq (a := a.toInt) (b := b.toInt)) ?_
  exact BitVec.toInt_inj

theorem compare_eq_iff {left right : PatriciaTree Int63} :
    compare int63 left right = .eq ↔ left = right := by
  induction left generalizing right with
  | leaf e =>
    cases right with
    | leaf e' => simp [compare, int63_compare_eq_iff]
    | node p' m' l' r' => simp [compare]
  | node p m l r ihl ihr =>
    cases right with
    | leaf e' => simp [compare]
    | node p' m' l' r' => simp [compare, Ordering.then_eq_eq, int63_compare_eq_iff, ihl, ihr]

/-- What `mem` finds is an element, whatever the shape of the tree. -/
theorem mem_elems_of_mem {x : Int63} {t : PatriciaTree Int63} (h : mem int63 x t = true) :
    x ∈ elems t := by
  induction t with
  | leaf e =>
    have hx : x = e := of_decide_eq_true h
    rw [hx]
    exact Finset.mem_singleton_self e
  | node p m l r ihl ihr =>
    rw [mem] at h
    split at h
    · exact Finset.mem_union_left _ (ihl h)
    · exact Finset.mem_union_right _ (ihr h)

end PatriciaTree

/-! ## 3. Runs -/

open PatriciaTree

namespace PatriciaSet

/-- The structural comparison at sets: the empty set is below every tree. -/
def compare {E : Type} (D : PatriciaElement E) (left right : PatriciaSet E) : Ordering :=
  match left, right with
  | none, none => .eq
  | none, some _ => .lt
  | some _, none => .gt
  | some leftTree, some rightTree => leftTree.compare D rightTree

theorem equal_iff (phys : PhysEq (PatriciaTree Int63)) {left right : PatriciaSet Int63} :
    equal int63 phys left right = true ↔ left = right := by
  cases left <;> cases right <;> simp [equal, PatriciaTree.equal_iff]

theorem compare_eq_iff {left right : PatriciaSet Int63} :
    compare int63 left right = .eq ↔ left = right := by
  cases left <;> cases right <;> simp [compare, PatriciaTree.compare_eq_iff]

end PatriciaSet

/-- **A finite set has one representation.** -/
theorem PatriciaTree.Represents.ext {t t' : PatriciaSet Int63} {s : Finset Int63} (ht : Represents t s)
    (ht' : Represents t' s) : t = t' := by
  cases t with
  | none =>
    cases t' with
    | none => rfl
    | some b => exact absurd (ht'.2.trans ht) (elems_nonempty b).ne_empty
  | some a =>
    cases t' with
    | none => exact absurd (ht.2.trans ht') (elems_nonempty a).ne_empty
    | some b => rw [ht.1.ext ht'.1 (ht.2.trans ht'.2.symm)]

namespace SetExpr

open PatriciaSet

/-- **Canonical form.** Whatever shortcuts two runs without clashes take, their results are one
    tree when they have the same members; `equal` and the structural comparison decide whether
    they have. -/
theorem canonical (phys phys' : PhysEq (PatriciaTree Int63)) (e e' : SetExpr) (he : NoClash e)
    (he' : NoClash e') :
    ((∀ x, mem int63 x (eval phys e) = mem int63 x (eval phys' e')) →
      eval phys e = eval phys' e') ∧
    (PatriciaSet.equal int63 phys (eval phys e) (eval phys' e') = true ↔
      denote e = denote e') ∧
    (PatriciaSet.compare int63 (eval phys e) (eval phys' e') = .eq ↔ denote e = denote e') := by
  have hrep := represents phys he
  have hrep' := represents phys' he'
  have heq : eval phys e = eval phys' e' ↔ denote e = denote e' := by
    constructor
    · intro h
      ext x
      rw [← hrep.mem_iff x, ← hrep'.mem_iff x, h]
    · intro h
      exact hrep.ext (h ▸ hrep')
  refine ⟨fun hmem => ?_, PatriciaSet.equal_iff phys |>.trans heq,
    PatriciaSet.compare_eq_iff.trans heq⟩
  refine heq.mpr (Finset.ext fun x => ?_)
  rw [← hrep.mem_iff x, ← hrep'.mem_iff x, hmem x]

/-- Two orders of building `{1, 2, 3}`. -/
theorem canonical_orders :
    PatriciaSet.equal int63 (.never _)
        (eval (.never _) (union (ofList [1#63, 2#63]) (ofList [2#63, 3#63])))
        (eval (.never _) (ofList [3#63, 2#63, 1#63])) = true := by
  have hl : ∀ x ∈ denote (ofList [1#63, 2#63]), x.getLsbD 62 = false := by simp [denote]
  have hr : ∀ x ∈ denote (ofList [2#63, 3#63]), x.getLsbD 62 = false := by simp [denote]
  refine (canonical (.never _) (.never _) (union (ofList [1#63, 2#63]) (ofList [2#63, 3#63]))
    (ofList [3#63, 2#63, 1#63])
    ⟨trivial, trivial, not_clash_of_sign _ hl, not_clash_of_sign _ hr⟩ trivial).2.1.mpr ?_
  decide

/-- `{0, min_int} ∪ {0, 1}` branches on the sign before it branches on the lowest bit. It has the
    members of `{0, 1, min_int}`, and its tree is another one. -/
theorem canonical_nesting :
    ∃ e e' : SetExpr,
      (∀ x, mem int63 x (eval (.never _) e) = mem int63 x (eval (.never _) e')) ∧
      eval (.never _) e ≠ eval (.never _) e' ∧
      PatriciaSet.equal int63 (.never _) (eval (.never _) e) (eval (.never _) e') = false ∧
      PatriciaSet.compare int63 (eval (.never _) e) (eval (.never _) e') ≠ .eq := by
  refine ⟨union (ofList [0#63, twoPow 63 62]) (ofList [0#63, 1#63]),
    ofList [0#63, 1#63, twoPow 63 62], fun x => ?_, by decide +kernel⟩
  have hleft : eval (.never _) (union (ofList [0#63, twoPow 63 62]) (ofList [0#63, 1#63])) =
      some (.node 0#63 (twoPow 63 62) (.node 0#63 1#63 (.leaf 0#63) (.leaf 1#63))
        (.leaf (twoPow 63 62))) := by decide +kernel
  have hright : eval (.never _) (ofList [0#63, 1#63, twoPow 63 62]) =
      some (.node 0#63 1#63 (.node 0#63 (twoPow 63 62) (.leaf 0#63) (.leaf (twoPow 63 62)))
        (.leaf 1#63)) := by decide +kernel
  rw [hleft, hright]
  by_cases hx : x ∈ ({0#63, 1#63, twoPow 63 62} : Finset Int63)
  · simp only [Finset.mem_insert, Finset.mem_singleton] at hx
    rcases hx with rfl | rfl | rfl <;> decide +kernel
  · have hnone : ∀ t : PatriciaTree Int63, elems t = {0#63, 1#63, twoPow 63 62} →
        mem int63 x (some t) = false := by
      intro t ht
      rw [← Bool.not_eq_true]
      intro hmem
      exact hx (ht ▸ mem_elems_of_mem hmem)
    rw [hnone _ (by decide +kernel), hnone _ (by decide +kernel)]

end SetExpr

end Pysa
