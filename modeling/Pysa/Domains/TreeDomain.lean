/-
  Subject: THE ABSTRACT TREE DOMAIN: labels, element domains, trees, pruning and join
    (`abstractTreeDomain.ml`, up to `join_children`).

  A tree maps access paths to elements of a domain. A node contributes its element to everything
  below it; the label `[*]` stands for every index that has no child of its own.

  * `filterByAncestors`, `pruneTree` -- the removal of what the ancestors already say.

  Run-time invariant checks are off (`WithoutChecks`): a witness is a Boolean, `check` does
  nothing.
-/
import Mathlib.Data.Prod.Lex
import Mathlib.Data.String.Basic
import Pysa.Lib.SortedMap

namespace Pysa

universe u

/-! ## 1. Labels -/

/-- One step of an access path. -/
inductive Label where
  | anyIndex
  | index (name : String)
  | field (name : String)
  deriving DecidableEq, Repr

namespace Label

/-- The derived `compare`: constructors in the order of their declaration, then the names. -/
def key : Label → ℕ ×ₗ String
  | .anyIndex => toLex (0, "")
  | .index name => toLex (1, name)
  | .field name => toLex (2, name)

theorem key_injective : Function.Injective key := by
  intro a b h
  cases a <;> cases b <;> simp_all [key]

instance : LinearOrder Label := LinearOrder.lift' key key_injective

/-- `[*]` is the least label. -/
theorem anyIndex_le (k : Label) : anyIndex ≤ k := by
  refine (Prod.Lex.toLex_le_toLex).mpr ?_
  cases k with
  | anyIndex => exact .inr ⟨rfl, le_rfl⟩
  | index i => exact .inl Nat.zero_lt_one
  | field f => exact .inl Nat.zero_lt_two

/-- A label that a program can evaluate: an index or a field, not `[*]`. -/
def Concrete : Label → Prop
  | .anyIndex => False
  | .index _ => True
  | .field _ => True

instance : DecidablePred Concrete := fun l => by cases l <;> unfold Concrete <;> infer_instance

/-- A label that remembers which indices its `[*]` does not cover. -/
inductive Refined where
  | anyIndex (excluded : Finset String)
  | index (name : String)
  | field (name : String)
  deriving DecidableEq

namespace Refined

def toRefined : Label → Refined
  | .anyIndex => .anyIndex ∅
  | .index i => .index i
  | .field f => .field f

def fromRefined : Refined → Label
  | .anyIndex _ => .anyIndex
  | .index i => .index i
  | .field f => .field f

def toRefinedPath (path : List Label) : List Refined := path.map toRefined

def fromRefinedPath (path : List Refined) : List Label := path.map fromRefined

end Refined

end Label

/-! ## 2. Element domains -/

/-- The operations of an element domain (`ELEMENT`) that the tree domain uses. -/
structure Element (E : Type u) where
  bottom : E
  isBottom : E → Bool
  join : E → E → E
  /-- `widen iteration prev next` -/
  widen : Nat → E → E → E
  /-- `lessOrEqual left right` -/
  lessOrEqual : E → E → Bool
  /-- `subtract toRemove from` -/
  subtract : E → E → E
  transformOnWideningCollapse : E → E
  transformOnSink : E → E
  transformOnHoist : E → E

/-- An element domain is a join-semilattice with bottom, up to the equivalence of its preorder;
    `subtract` removes only what the join with the removed part gives back. -/
structure Element.Lawful {E : Type u} (D : Element E) : Prop where
  refl : ∀ a, D.lessOrEqual a a
  trans : ∀ {a b c}, D.lessOrEqual a b → D.lessOrEqual b c → D.lessOrEqual a c
  bottom_le : ∀ a, D.lessOrEqual D.bottom a
  isBottom_iff : ∀ a, D.isBottom a ↔ D.lessOrEqual a D.bottom
  le_join_left : ∀ a b, D.lessOrEqual a (D.join a b)
  le_join_right : ∀ a b, D.lessOrEqual b (D.join a b)
  join_le : ∀ {a b c}, D.lessOrEqual a c → D.lessOrEqual b c → D.lessOrEqual (D.join a b) c
  subtract_le : ∀ a b, D.lessOrEqual (D.subtract b a) a
  le_subtract_join : ∀ a b, D.lessOrEqual a (D.join (D.subtract b a) b)

/-- `transform_on_sink` is a monotone, reductive, idempotent join homomorphism. -/
structure Element.LawfulSink {E : Type u} (D : Element E) : Prop where
  mono : ∀ {a b}, D.lessOrEqual a b → D.lessOrEqual (D.transformOnSink a) (D.transformOnSink b)
  reductive : ∀ a, D.lessOrEqual (D.transformOnSink a) a
  idempotent : ∀ a, D.lessOrEqual (D.transformOnSink a) (D.transformOnSink (D.transformOnSink a))
  join : ∀ a b, D.lessOrEqual (D.transformOnSink (D.join a b))
    (D.join (D.transformOnSink a) (D.transformOnSink b))

/-! ## 3. Trees -/

/-- A node: the contribution of its element (not the join from the root) and its children. -/
inductive Tree (E : Type u) : Type u where
  | node (element : E) (children : SortedMap Label (Tree E))

/-- The children of a node. -/
abbrev LabelMap (E : Type u) := SortedMap Label (Tree E)

namespace Tree

variable {E : Type u}

def element : Tree E → E
  | .node element _ => element

def children : Tree E → LabelMap E
  | .node _ children => children

@[simp] theorem element_node (e : E) (c : LabelMap E) : (node e c).element = e := rfl

@[simp] theorem children_node (e : E) (c : LabelMap E) : (node e c).children = c := rfl

/-- **Induction on trees**: a property holds of a node once it holds of its children. -/
@[elab_as_elim]
theorem induct {motive : Tree E → Prop}
    (node : ∀ e c, (∀ k t, c.find? k = some t → motive t) → motive (node e c)) :
    ∀ t, motive t
  | .node e ⟨keys, sorted, get⟩ => node e _ fun k t h => by
      rw [← SortedMap.get_of_find? h]
      exact induct node (get ⟨k, SortedMap.mem_of_find? h⟩)

/-- The length of the longest path. -/
def maxDepth : Tree E → Nat
  | .node _ ⟨keys, _, get⟩ => keys.attach.foldl (fun accumulator k =>
    max (1 + maxDepth (get k)) accumulator) 0

/-- The depth that children `c` give to their node. -/
def childrenDepth (c : LabelMap E) : Nat :=
  c.fold (fun _ tree accumulator => max (1 + tree.maxDepth) accumulator) 0

@[simp] theorem maxDepth_node (e : E) (c : LabelMap E) : (node e c).maxDepth = childrenDepth c := by
  cases c
  rfl

theorem maxDepth_eq (t : Tree E) : t.maxDepth = childrenDepth t.children := by
  cases t
  rw [maxDepth_node]
  rfl

theorem lt_childrenDepth {c : LabelMap E} {k : Label} {t : Tree E} (h : c.find? k = some t) :
    t.maxDepth < childrenDepth c := by
  have h1 : 1 + t.maxDepth ≤ childrenDepth c :=
    SortedMap.fold_establishes (1 + t.maxDepth ≤ ·) h (fun _ => le_max_left _ _)
      (fun _ _ _ _ hacc => le_trans hacc (le_max_right _ _))
  omega

theorem childrenDepth_le {c : LabelMap E} {n : Nat} (h : ∀ k t, c.find? k = some t →
    t.maxDepth < n) : childrenDepth c ≤ n := by
  refine SortedMap.fold_induction (· ≤ n) (Nat.zero_le n) fun k t acc hk hacc => ?_
  have := h k t hk
  exact max_le (by omega) hacc

/-- The depth of an optional subtree, counted from its parent. -/
def optionDepth : Option (Tree E) → Nat
  | none => 0
  | some t => t.maxDepth + 1

theorem optionDepth_find?_le (c : LabelMap E) (k : Label) :
    optionDepth (c.find? k) ≤ childrenDepth c := by
  cases h : c.find? k with
  | none => exact Nat.zero_le _
  | some t => exact lt_childrenDepth h

theorem optionDepth_le_of_mem {c : LabelMap E} {t : Tree E} (h : ∃ k, c.find? k = some t) :
    optionDepth (some t) ≤ childrenDepth c := by
  obtain ⟨k, hk⟩ := h
  exact lt_childrenDepth hk

end Tree

open Pysa.Tree

section Operations

variable {E : Type u} (D : Element E)

def createLeaf (element : E) : Tree E := .node element .empty

def emptyTree : Tree E := createLeaf D.bottom

def isEmptyInfo (children : LabelMap E) (element : E) : Bool :=
  children.isEmpty && D.isBottom element

def isEmptyTree (tree : Tree E) : Bool := isEmptyInfo D tree.children tree.element

/-- `is_bottom` of the tree domain. -/
def isBottom (tree : Tree E) : Bool := isEmptyTree D tree

/-- `create_tree_option`: `tree` hung below `path`, nothing when it is empty. -/
def createTreeOption (path : List Label) (tree : Tree E) : Option (Tree E) :=
  if isEmptyTree D tree then none else some (createTreeInternal path tree)
where
  createTreeInternal : List Label → Tree E → Tree E
    | [], tree => tree
    | labelElement :: rest, tree =>
      .node D.bottom (.singleton labelElement (createTreeInternal rest tree))

variable {D} in
theorem createTreeOption_of_not_empty {t : Tree E}
    (ht : isEmptyTree D t = false) (path : List Label) :
    createTreeOption D path t = some (createTreeOption.createTreeInternal D path t) := by
  rw [createTreeOption, ht]
  rfl

def createNodeOption (element : E) (children : LabelMap E) : Option (Tree E) :=
  if isEmptyInfo D children element then none else some (.node element children)

/-- The tree of an optional node. -/
def optionNodeTree : Option (Tree E) → Tree E
  | none => emptyTree D
  | some tree => tree

/-! ## 4. Minimality -/

/-- `find_false_witness`: does every binding pass the test? -/
def findFalseWitness {V : Type u} (f : Label → V → Bool) (map : SortedMap Label V) : Bool :=
  map.all f

/-- No empty subtree, and no node whose element its ancestors already cover. -/
def isMinimal (ancestors : E) (tree : Tree E) : Bool :=
  if isEmptyTree D tree then false
  else if !D.isBottom tree.element && D.lessOrEqual tree.element ancestors then false
  else
    let ancestors := D.transformOnSink (D.join ancestors tree.element)
    findFalseWitness (fun _ subtree => isMinimal ancestors subtree.1) tree.children.attach
termination_by tree.maxDepth
decreasing_by
  obtain ⟨k, hk⟩ := subtree.2
  rw [maxDepth_eq tree]
  exact lt_childrenDepth hk

/-! ## 5. Pruning -/

def mustWidenDepth : Option Nat → Bool
  | none => false
  | some i => i == 0

def mustWidenElement (widenDepth : Option Nat) : Bool := widenDepth.isSome

/-- The depth left one level down. At depth 0 the join has collapsed its arguments instead of
    asking for it. -/
def decrementWiden : Option Nat → Option Nat
  | none => none
  | some i => some (i - 1)

def elementJoin (widenDepth : Option Nat) (w1 w2 : E) : E :=
  if mustWidenElement widenDepth then D.widen 2 w1 w2 else D.join w1 w2

/-- The join of all elements of a tree; the root element is not transformed. -/
def collapse (transform : E → E) (widenDepth : Option Nat) (tree : Tree E) : E :=
  collapseTree (.node D.bottom tree.children) tree.element
where
  transformNonBottom (e : E) : E := if D.isBottom e then e else transform e
  collapseTree (tree : Tree E) (elementAccumulator : E) : E :=
    let elementAccumulator := elementJoin D widenDepth elementAccumulator
      (transformNonBottom (D.transformOnHoist tree.element))
    tree.children.attach.fold (fun _ subtree accumulator => collapseTree subtree.1 accumulator)
      elementAccumulator
  termination_by tree.maxDepth
  decreasing_by
    obtain ⟨k, hk⟩ := subtree.2
    rw [maxDepth_eq tree]
    exact lt_childrenDepth hk

def createLeafOption (ancestors element : E) : Option (Tree E) :=
  let difference := D.subtract ancestors element
  if D.lessOrEqual difference ancestors then none else some (createLeaf difference)

/-- What is left of an element below its ancestors, and the ancestors of the level below. -/
structure FilteredElement (E : Type u) where
  newElement : E
  ancestors : E

def filterByAncestors (ancestors element : E) : FilteredElement E :=
  let difference := D.subtract ancestors element
  if D.lessOrEqual difference ancestors then { newElement := D.bottom, ancestors }
  else
    { newElement := difference,
      ancestors := D.transformOnSink (D.join ancestors element) }

def pruneTree (ancestors : E) (tree : Tree E) : Option (Tree E) :=
  let filtered := filterByAncestors D ancestors tree.element
  let children := tree.children.attach.filterMap fun subtree =>
    pruneTree filtered.ancestors subtree.1
  createNodeOption D filtered.newElement children
termination_by tree.maxDepth
decreasing_by
  obtain ⟨k, hk⟩ := subtree.2
  rw [maxDepth_eq tree]
  exact lt_childrenDepth hk

/-! ## 6. Join and widening -/

mutual

/-- `join_trees`. Widening differs from join in that the elements are widened and that the trees
    are collapsed once `widenDepth` levels were passed. -/
def joinTrees (transformOnCollapse : E → E) (ancestors : E) (widenDepth : Option Nat)
    (left right : Tree E) : Option (Tree E) :=
  if mustWidenDepth widenDepth then
    let collapsedLeftElement := collapse D transformOnCollapse widenDepth left
    let collapsedRightElement := collapse D transformOnCollapse widenDepth right
    createLeafOption D ancestors
      (elementJoin D widenDepth collapsedLeftElement collapsedRightElement)
  else
    let joinedElement := elementJoin D widenDepth left.element right.element
    let filtered := filterByAncestors D ancestors joinedElement
    let children := joinChildren transformOnCollapse filtered.ancestors
      (decrementWiden widenDepth) left.children right.children
    createNodeOption D filtered.newElement children
termination_by 3 * (left.maxDepth + right.maxDepth) + 2
decreasing_by
  rw [maxDepth_eq left, maxDepth_eq right]
  omega

def joinOptionTrees (transformOnCollapse : E → E) (ancestors : E) (widenDepth : Option Nat)
    (left right : Option (Tree E)) : Option (Tree E) :=
  match left, right with
  | none, none => none
  | some left, none => pruneTree D ancestors left
  | none, some right =>
    if widenDepth = none then pruneTree D ancestors right
    else joinTrees transformOnCollapse ancestors widenDepth (emptyTree D) right
  | some left, some right => joinTrees transformOnCollapse ancestors widenDepth left right
termination_by 3 * (optionDepth left + optionDepth right)
decreasing_by
  · have : (emptyTree D).maxDepth = 0 := maxDepth_node _ _
    simp only [optionDepth, this]
    omega
  · simp only [optionDepth]
    omega

/-- `join_children`. With `L` and `R` the indices of one side only and `C` the common ones: the
    `[*]` of both sides are merged, an index of `C` with its namesake, an index of `L` with the
    right `[*]`, an index of `R` with the left `[*]`, and a field with its namesake. -/
def joinChildren (transformOnCollapse : E → E) (ancestors : E) (widenDepth : Option Nat)
    (leftTree rightTree : LabelMap E) : LabelMap E :=
  let leftStar := leftTree.find? .anyIndex
  let rightStar := rightTree.find? .anyIndex
  -- takes care of C and L, of the fields of the left and of the left `[*]`
  let mergeLeft (label : Label) (leftSubtree : {t // ∃ k, leftTree.find? k = some t})
      (accumulator : LabelMap E) : LabelMap E :=
    match label with
    | .anyIndex =>
      accumulator.setOrRemove label
        (joinOptionTrees transformOnCollapse ancestors widenDepth (some leftSubtree.1) rightStar)
    | .index _ =>
      match _h : rightTree.find? label with
      | some rightSubtree =>
        accumulator.setOrRemove label
          (joinTrees transformOnCollapse ancestors widenDepth leftSubtree.1 rightSubtree)
      | none =>
        accumulator.setOrRemove label
          (joinOptionTrees transformOnCollapse ancestors widenDepth (some leftSubtree.1)
            rightStar)
    | .field _ =>
      match _h : rightTree.find? label with
      | some rightSubtree =>
        accumulator.setOrRemove label
          (joinTrees transformOnCollapse ancestors widenDepth leftSubtree.1 rightSubtree)
      | none =>
        accumulator.setOrRemove label
          (joinOptionTrees transformOnCollapse ancestors widenDepth (some leftSubtree.1) none)
  -- takes care of R
  let mergeRight (label : Label) (rightSubtree : {t // ∃ k, rightTree.find? k = some t})
      (accumulator : LabelMap E) : LabelMap E :=
    match leftTree.find? label with
    | some _ => accumulator
    | none =>
      match label with
      | .index _ =>
        accumulator.setOrRemove label
          (joinOptionTrees transformOnCollapse ancestors widenDepth leftStar
            (some rightSubtree.1))
      | _ =>
        accumulator.setOrRemove label
          (joinOptionTrees transformOnCollapse ancestors widenDepth none
            (some rightSubtree.1))
  let leftDone := leftTree.attach.fold mergeLeft .empty
  rightTree.attach.fold mergeRight leftDone
termination_by 3 * (childrenDepth leftTree + childrenDepth rightTree) + 1
decreasing_by
  · have h1 := optionDepth_le_of_mem leftSubtree.2
    have h2 := optionDepth_find?_le rightTree .anyIndex
    omega
  · have h1 := optionDepth_le_of_mem leftSubtree.2
    have h2 := lt_childrenDepth _h
    simp only [optionDepth] at h1
    omega
  · have h1 := optionDepth_le_of_mem leftSubtree.2
    have h2 := optionDepth_find?_le rightTree .anyIndex
    omega
  · have h1 := optionDepth_le_of_mem leftSubtree.2
    have h2 := lt_childrenDepth _h
    simp only [optionDepth] at h1
    omega
  · have h1 := optionDepth_le_of_mem leftSubtree.2
    simp only [optionDepth] at h1 ⊢
    omega
  · have h1 := optionDepth_le_of_mem rightSubtree.2
    have h2 := optionDepth_find?_le leftTree .anyIndex
    omega
  · have h1 := optionDepth_le_of_mem rightSubtree.2
    simp only [optionDepth] at h1 ⊢
    omega

end

/-! ## 7. The entries of what pruning and join build -/

theorem createNodeOption_cases (element : E) (children : LabelMap E) :
    (createNodeOption D element children = none ∧ children = .empty ∧ D.isBottom element) ∨
    (createNodeOption D element children = some (.node element children) ∧
      ¬ (children = .empty ∧ D.isBottom element)) := by
  unfold createNodeOption isEmptyInfo
  rw [← SortedMap.isEmpty_iff_eq]
  cases children.isEmpty <;> cases D.isBottom element <;> simp

theorem pruneTree_eq (ancestors : E) (tree : Tree E) :
    pruneTree D ancestors tree =
      createNodeOption D (filterByAncestors D ancestors tree.element).newElement
        (tree.children.filterMap
          (pruneTree D (filterByAncestors D ancestors tree.element).ancestors)) := by
  rw [pruneTree, SortedMap.attach_filterMap]

theorem pruneTree_createLeaf (ancestors element : E) :
    pruneTree D ancestors (createLeaf element) =
      createNodeOption D (filterByAncestors D ancestors element).newElement .empty := by
  have hleaves : (SortedMap.empty : LabelMap E).filterMap
      (pruneTree D (filterByAncestors D ancestors element).ancestors) = .empty :=
    SortedMap.ext_find? fun k => by
      rw [SortedMap.find?_filterMap, SortedMap.find?_empty]
      rfl
  rw [pruneTree_eq]
  exact congrArg _ hleaves

theorem isMinimal_eq (ancestors : E) (tree : Tree E) :
    isMinimal D ancestors tree =
      (!isEmptyTree D tree &&
        !(!D.isBottom tree.element && D.lessOrEqual tree.element ancestors) &&
        tree.children.all fun _ subtree =>
          isMinimal D (D.transformOnSink (D.join ancestors tree.element)) subtree) := by
  rw [isMinimal, findFalseWitness]
  cases isEmptyTree D tree <;>
    cases (!D.isBottom tree.element && D.lessOrEqual tree.element ancestors) <;> rfl

/-- What a read of the label finds below a node: the child of that name; an index without a
    child of its own finds `[*]`. -/
def lookup (children : LabelMap E) : Label → Option (Tree E)
  | .index i => (children.find? (.index i)).or (children.find? .anyIndex)
  | k => children.find? k

@[simp] theorem lookup_anyIndex (c : LabelMap E) : lookup c .anyIndex = c.find? .anyIndex := rfl

@[simp] theorem lookup_field (c : LabelMap E) (f : String) :
    lookup c (.field f) = c.find? (.field f) := rfl

theorem lookup_of_find? {c : LabelMap E} {k : Label} {t : Tree E} (h : c.find? k = some t) :
    lookup c k = some t := by
  cases k with
  | index i => rw [lookup, h, Option.some_or]
  | anyIndex => exact h
  | field f => exact h

theorem lookup_index_of_none {c : LabelMap E} {i : String} (h : c.find? (.index i) = none) :
    lookup c (.index i) = c.find? .anyIndex := by rw [lookup, h, Option.none_or]

/-- What a lookup finds is the child of some label. -/
theorem exists_find?_of_lookup {c : LabelMap E} {k : Label} {t : Tree E}
    (h : lookup c k = some t) : ∃ k', c.find? k' = some t := by
  cases k with
  | index i =>
    cases hi : c.find? (.index i) with
    | some s => exact ⟨.index i, by rw [hi, ← lookup_of_find? hi, h]⟩
    | none => exact ⟨.anyIndex, by rw [← lookup_index_of_none hi, h]⟩
  | anyIndex => exact ⟨_, h⟩
  | field f => exact ⟨_, h⟩

/-- **The entries of merged children**: a label that one side binds gets the merge of what the
    two sides find for it; no other label is bound. -/
theorem joinChildren_find? (transformOnCollapse : E → E) (ancestors : E)
    (widenDepth : Option Nat) (lc rc : LabelMap E) (k : Label) :
    (joinChildren D transformOnCollapse ancestors widenDepth lc rc).find? k =
      if lc.find? k = none ∧ rc.find? k = none then none
      else joinOptionTrees D transformOnCollapse ancestors widenDepth (lookup lc k)
        (lookup rc k) := by
  have hjoin : ∀ l r, joinTrees D transformOnCollapse ancestors widenDepth l r =
      joinOptionTrees D transformOnCollapse ancestors widenDepth (some l) (some r) := fun l r => by
    rw [joinOptionTrees]
  rw [joinChildren,
    SortedMap.find?_fold (fun label rightSubtree old =>
      if (lc.find? label).isSome then old
      else joinOptionTrees D transformOnCollapse ancestors widenDepth (lookup lc label)
        (some rightSubtree.1)),
    SortedMap.find?_fold (fun label leftSubtree _ =>
      joinOptionTrees D transformOnCollapse ancestors widenDepth (some leftSubtree.1)
        (lookup rc label))]
  · have hl := SortedMap.find?_attach lc k
    have hr := SortedMap.find?_attach rc k
    cases hlk : lc.attach.find? k <;> cases hrk : rc.attach.find? k <;>
      rw [hlk] at hl <;> rw [hrk] at hr <;> simp only [Option.map_none, Option.map_some] at hl hr
    · simp [← hl, ← hr]
    · simp [← hl, ← hr, lookup_of_find? hr.symm]
    · simp [← hl, ← hr, lookup_of_find? hl.symm]
    · simp [← hl, ← hr, lookup_of_find? hl.symm, lookup_of_find? hr.symm]
  · intro label v acc x hx
    cases label <;> simp only <;> try split
    all_goals rw [SortedMap.find?_setOrRemove, if_neg hx]
  · intro label v acc
    cases label with
    | anyIndex => simp only [SortedMap.find?_setOrRemove, if_true, lookup_anyIndex]
    | index i =>
      simp only
      split
      · rename_i h
        rw [SortedMap.find?_setOrRemove, if_pos rfl, hjoin, lookup_of_find? h]
      · rename_i h
        rw [SortedMap.find?_setOrRemove, if_pos rfl, lookup_index_of_none h]
    | field f =>
      simp only
      split
      · rename_i h
        rw [SortedMap.find?_setOrRemove, if_pos rfl, hjoin, lookup_of_find? h]
      · rename_i h
        rw [SortedMap.find?_setOrRemove, if_pos rfl, lookup_field, h]
  · intro label v acc x hx
    cases hl : lc.find? label with
    | some _ => rfl
    | none => cases label <;> simp only <;> rw [SortedMap.find?_setOrRemove, if_neg hx]
  · intro label v acc
    cases hl : lc.find? label with
    | some _ => simp
    | none =>
      cases label with
      | index i => simp [SortedMap.find?_setOrRemove, lookup_index_of_none hl]
      | anyIndex => simp [SortedMap.find?_setOrRemove, hl]
      | field f => simp [SortedMap.find?_setOrRemove, hl]

end Operations

end Pysa
