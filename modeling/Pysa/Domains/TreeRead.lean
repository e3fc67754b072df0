/-
  Subject: READING A TREE, AND WHAT THE ORDER DECIDES
    (`abstractTreeDomain.ml`, `read_raw_refined` to `read`).

  * `readRawRefined`, `readRefined`, `read` -- the reads as the code computes them;
  * `taintAt` -- the meaning of a tree of sets: the union of the elements along a path, where an
    index without a child of its own follows `[*]`;
  * `element_read` -- the root of a read of a concrete path is that union;
  * `lessOrEqualTree_iff_taintAt`, `lessOrEqual_iff_read` -- **the order decides the pointwise
    order of the reads**; a `[*]` is met by reading an index that neither tree names.
-/
import Mathlib.Data.Finset.Preimage
import Pysa.Domains.TreeOrder

namespace Pysa

open Pysa.Tree

universe u

/-! ## 1. Reads -/

section Read

variable {E : Type u} (D : Element E)

/-- `read_raw_refined`: the ancestors met on the way, and the subtree at the path. -/
def readRawRefined (transformNonLeaves : List Label → E → E) (usePreciseLabels : Bool) :
    (ancestors : E) → (path : List Label.Refined) → Tree E → E × Option (Tree E)
  | ancestors, [], tree => (ancestors, createNodeOption D tree.element tree.children)
  | ancestors, labelElement :: rest, tree =>
    let ancestors :=
      if !D.isBottom tree.element then
        D.transformOnSink (D.join ancestors
          (transformNonLeaves (Label.Refined.fromRefinedPath (labelElement :: rest))
            tree.element))
      else ancestors
    match labelElement with
    | .anyIndex excluded =>
      if !usePreciseLabels then
        -- look up all indices and join the results
        let findIndexAndJoin (key : Label) (subtree : Tree E)
            (accumulator : E × Option (Tree E)) : E × Option (Tree E) :=
          let step :=
            let result := readRawRefined transformNonLeaves usePreciseLabels ancestors rest
              subtree
            (D.join result.1 accumulator.1,
              joinOptionTrees D id D.bottom none accumulator.2 result.2)
          match key with
          | .index i => if i ∈ excluded then accumulator else step
          | .field _ => accumulator
          | .anyIndex => step
        tree.children.fold findIndexAndJoin (ancestors, none)
      else
        match tree.children.find? .anyIndex with
        | none => (ancestors, none)
        | some subtree => readRawRefined transformNonLeaves usePreciseLabels ancestors rest
            subtree
    | .index i =>
      match tree.children.find? (.index i) with
      | some subtree => readRawRefined transformNonLeaves usePreciseLabels ancestors rest
          subtree
      | none =>
        if !usePreciseLabels then
          match tree.children.find? .anyIndex with
          | some subtree => readRawRefined transformNonLeaves usePreciseLabels ancestors
              rest subtree
          | none => (ancestors, none)
        else (ancestors, none)
    | .field f =>
      match tree.children.find? (.field f) with
      | none => (ancestors, none)
      | some subtree => readRawRefined transformNonLeaves usePreciseLabels ancestors rest
          subtree

def readTreeRawRefined (transformNonLeaves : List Label → E → E) (usePreciseLabels : Bool)
    (path : List Label.Refined) (tree : Tree E) : E × Tree E :=
  let result := readRawRefined D transformNonLeaves usePreciseLabels D.bottom path tree
  (result.1, optionNodeTree D result.2)

/-- `read_tree_raw`, exported as `read_raw`. -/
def readTreeRaw (transformNonLeaves : List Label → E → E) (usePreciseLabels : Bool)
    (path : List Label) (tree : Tree E) : E × Tree E :=
  readTreeRawRefined D transformNonLeaves usePreciseLabels (Label.Refined.toRefinedPath path) tree

def readRefined (transformNonLeaves : List Label → E → E) (path : List Label.Refined)
    (tree : Tree E) : Tree E :=
  let raw := readTreeRawRefined D transformNonLeaves false path tree
  optionNodeTree D (joinTrees D id D.bottom none (createLeaf raw.1) raw.2)

/-- `read`, with the default `transform_non_leaves` written `fun _ e => e`. -/
def read (transformNonLeaves : List Label → E → E) (path : List Label) (tree : Tree E) : Tree E :=
  readRefined D transformNonLeaves (Label.Refined.toRefinedPath path) tree

end Read

/-! ## 2. The meaning of a tree of sets -/

section Sets

variable {α : Type u} [DecidableEq α]

/-- The union of the elements from the root along the path. -/
def taintAt : List Label → Tree (Finset α) → Finset α
  | [], tree => tree.element
  | k :: rest, tree => tree.element ∪ ((lookup tree.children k).map (taintAt rest)).getD ∅

variable (w : Finset α → Finset α)

/-- The set domain of the statements about reads: identity on sink and on hoist. -/
abbrev plainSet : Element (Finset α) := setElement w .identity id

theorem taintAt_nil (t : Tree (Finset α)) : taintAt [] t = t.element := rfl

theorem taintAt_emptyTree (p : List Label) : taintAt p (emptyTree (plainSet w))
    = (∅ : Finset α) := by
  cases p with
  | nil => rfl
  | cons k rest => simp [taintAt, lookup_empty]

theorem taintAt_cons (k : Label) (rest : List Label) (t : Tree (Finset α)) :
    taintAt (k :: rest) t =
      t.element ∪ taintAt rest (lookupTree (plainSet w) t.children k) := by
  rw [taintAt, lookupTree]
  cases lookup t.children k with
  | none => rw [optionNodeTree, taintAt_emptyTree, Option.map_none, Option.getD_none]
  | some s => rfl

theorem element_subset_taintAt (p : List Label) (t : Tree (Finset α)) :
    t.element ⊆ taintAt p t := by
  cases p with
  | nil => exact Finset.Subset.refl _
  | cons k rest => exact Finset.subset_union_left

/-- The ancestors that a read has met below `t`. -/
theorem ancestors_eq_union (a e : Finset α) :
    (if (!(plainSet w).isBottom e) = true then (plainSet w).transformOnSink ((plainSet w).join a e)
      else a) = a ∪ e := by
  by_cases he : e = ∅
  · simp [he]
  · simp [he]

/-- A raw read at a concrete label goes on in the child that the label finds. -/
theorem readRawRefined_concrete_cons {k : Label} (hk : k.Concrete) (path : List Label.Refined)
    (a : Finset α) (t : Tree (Finset α)) :
    readRawRefined (plainSet w) (fun _ e => e) false a (Label.Refined.toRefined k :: path) t =
      (lookup t.children k).elim (a ∪ t.element, none)
        (readRawRefined (plainSet w) (fun _ e => e) false (a ∪ t.element) path) := by
  cases k with
  | anyIndex => exact hk.elim
  | index i =>
    rw [Label.Refined.toRefined, readRawRefined]
    simp only [ancestors_eq_union, Bool.not_false, if_true]
    cases hi : t.children.find? (.index i) with
    | some s =>
      rw [lookup_of_find? hi]
      rfl
    | none =>
      rw [lookup_index_of_none hi]
      cases t.children.find? .anyIndex <;> rfl
  | field f =>
    rw [Label.Refined.toRefined, readRawRefined, lookup_field]
    simp only [ancestors_eq_union]
    cases t.children.find? (.field f) <;> rfl

/-- A raw read of a concrete path: ancestors and root together are the union along the path. -/
theorem readRawRefined_taintAt {p : List Label} (hp : ∀ k ∈ p, k.Concrete) (a : Finset α)
    (t : Tree (Finset α)) :
    let raw := readRawRefined (plainSet w) (fun _ e => e) false a
      (Label.Refined.toRefinedPath p) t
    raw.1 ∪ (optionNodeTree (plainSet w) raw.2).element = a ∪ taintAt p t := by
  induction p generalizing a t with
  | nil =>
    simp only [Label.Refined.toRefinedPath, List.map_nil, readRawRefined, taintAt_nil]
    obtain ⟨h, -, he⟩ | ⟨h, -⟩ :=
      createNodeOption_cases (plainSet w) t.element t.children <;> rw [h]
    · rw [setElement_isBottom, decide_eq_true_eq] at he
      rw [he]
      rfl
    · rfl
  | cons k rest ih =>
    obtain ⟨hk, hrest⟩ := List.forall_mem_cons.mp hp
    rw [taintAt, ← Finset.union_assoc]
    simp only [Label.Refined.toRefinedPath, List.map_cons, readRawRefined_concrete_cons w hk]
    cases lookup t.children k with
    | none => rfl
    | some s => exact ih hrest _ s

/-- The root that a join of two trees gets, under no ancestors. -/
theorem element_optionNodeTree_joinTrees (l r : Tree (Finset α)) :
    (optionNodeTree (plainSet w)
      (joinTrees (plainSet w) id (plainSet w).bottom none
        l r)).element = l.element ∪ r.element := by
  rw [joinTrees]
  simp only [mustWidenDepth, elementJoin, mustWidenElement, Option.isSome_none,
    Bool.false_eq_true, if_false]
  simp only [filterByAncestors_newElement, setElement_bottom, setElement_join, Finset.sdiff_empty]
  generalize joinChildren _ _ _ _ l.children r.children = c
  obtain ⟨h, -, he⟩ | ⟨h, -⟩ :=
    createNodeOption_cases (plainSet w) (l.element ∪ r.element) c <;> rw [h]
  · rw [setElement_isBottom, decide_eq_true_eq] at he
    exact he.symm
  · rfl

/-- **The root of a read** of a concrete path is the union of the elements along the path. -/
theorem element_read {p : List Label} (hp : ∀ k ∈ p, k.Concrete) (t : Tree (Finset α)) :
    (read (plainSet w) (fun _ e => e) p t).element = taintAt p t := by
  have h := readRawRefined_taintAt w hp ∅ t
  simp only [Finset.empty_union] at h
  rw [read, readRefined, element_optionNodeTree_joinTrees]
  exact h

/-! ## 3. The order decides the pointwise order of reads -/

/-- An index that two maps both leave to `[*]`. -/
theorem exists_fresh_index {E : Type u} (lc rc : LabelMap E) :
    ∃ i, lc.find? (.index i) = none ∧ rc.find? (.index i) = none := by
  have hinj : Function.Injective Label.index := fun _ _ h => Label.index.inj h
  obtain ⟨i, hi⟩ := Infinite.exists_notMem_finset
    ((lc.keys ++ rc.keys).toFinset.preimage Label.index hinj.injOn)
  rw [Finset.mem_preimage, List.mem_toFinset, List.mem_append, not_or] at hi
  exact ⟨i, SortedMap.find?_eq_none.mpr hi.1, SortedMap.find?_eq_none.mpr hi.2⟩

/-- A label may be taken to be concrete: an index that no side names reads like `[*]`. -/
theorem exists_concrete_label {E : Type u} (lc rc : LabelMap E) (k : Label) :
    ∃ k', k'.Concrete ∧ lookup lc k' = lookup lc k ∧ lookup rc k' = lookup rc k := by
  cases k with
  | anyIndex =>
    obtain ⟨i, hl, hr⟩ := exists_fresh_index lc rc
    exact ⟨.index i, trivial, lookup_index_of_none hl, lookup_index_of_none hr⟩
  | index i => exact ⟨.index i, trivial, rfl, rfl⟩
  | field f => exact ⟨.field f, trivial, rfl, rfl⟩

/-- The order under right ancestors, as an inclusion of the unions along every concrete path. -/
theorem lessOrEqualTree_iff_taintAt (l r : Tree (Finset α)) (ra : Finset α) :
    lessOrEqualTree (plainSet w) l ra r ↔
      ∀ p : List Label, (∀ k ∈ p, k.Concrete) → taintAt p l ⊆ ra ∪ taintAt p r := by
  induction l using Tree.induct generalizing r ra with
  | node e c ih =>
    rw [lessOrEqualTree_iff_lookup]
    simp only [setElement_lessOrEqual, setElement_join, setElement_transformOnSink,
      Sink.apply_identity, decide_eq_true_eq, element_node, children_node]
    constructor
    · rintro ⟨he, hchildren⟩ p hp
      cases p with
      | nil => exact he
      | cons k rest =>
        rw [taintAt_cons w k rest r, ← Finset.union_assoc, taintAt,
          element_node, children_node]
        refine Finset.union_subset (he.trans Finset.subset_union_left) ?_
        cases hl : lookup c k with
        | none => exact Finset.empty_subset _
        | some l' =>
          obtain ⟨k', hk'⟩ := exists_find?_of_lookup hl
          exact (ih k' l' hk' _ _).mp (hchildren k l' hl) rest
            fun x hx => hp x (List.mem_cons_of_mem _ hx)
    · intro h
      refine ⟨h [] (by simp), fun k l' hl => ?_⟩
      obtain ⟨k', hk'⟩ := exists_find?_of_lookup hl
      refine (ih k' l' hk' _ _).mpr fun p hp => ?_
      obtain ⟨i, hi, hli, hri⟩ := exists_concrete_label c r.children k
      have := h (i :: p) (List.forall_mem_cons.mpr ⟨hi, hp⟩)
      rw [taintAt_cons w i p r, ← Finset.union_assoc, taintAt, children_node,
        hli, hl] at this
      rw [lookupTree, ← hri]
      exact Finset.union_subset_right this

/-- **The order decides the pointwise order of the reads**: one tree is below another if and only
    if every concrete path reads less in it. -/
theorem lessOrEqual_iff_read (l r : Tree (Finset α)) :
    lessOrEqual (plainSet w) l r ↔
      ∀ p : List Label, (∀ k ∈ p, k.Concrete) →
        (read (plainSet w) (fun _ e => e) p l).element ⊆
          (read (plainSet w) (fun _ e => e) p r).element := by
  rw [lessOrEqual, lessOrEqualTree_iff_taintAt]
  refine forall_congr' fun p => forall_congr' fun hp => ?_
  rw [element_read w hp, element_read w hp]
  rw [setElement_bottom, Finset.empty_union]

end Sets

end Pysa
