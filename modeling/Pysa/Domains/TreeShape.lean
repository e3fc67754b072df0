/-
  Subject: WIDENING, COLLAPSING AND SHAPING (`abstractTreeDomain.ml`, `collapse_to`, `limit_to`,
    `shape_tree` to `shape`, and `widen`).

  * `shapeTree` -- a tree cut down to the branches of a mold: dead branches are lifted into their
    node, and an index that the mold has under `[*]` only is merged there; `shapeTree_eq` is one
    level of it.
-/
import Pysa.Domains.TreeOrder

namespace Pysa

open Pysa.Tree

universe u

variable {E : Type u} (D : Element E)

/-! ## 1. Stopping at a depth -/

/-- `collapse_to`. At a negative depth `decrement_widen` raises before any child is joined. -/
def collapseTo (transform : E → E) (depth : ℤ) (tree : Tree E) : Except String (Tree E) :=
  if depth < 0 then .error "Decrementing widen depth below 0"
  else .ok (optionNodeTree D (joinTrees D transform D.bottom (some depth.toNat) tree tree))

/-- `widen`, at the depth that the configuration sets. -/
def widen (maxTreeDepthAfterWidening : Nat) (prev next : Tree E) : Tree E :=
  optionNodeTree D (joinTrees D D.transformOnWideningCollapse D.bottom
    (some maxTreeDepthAfterWidening) prev next)

/-- The leaves among the roots, and the children of the others. -/
def splitLeaves (roots : List (Tree E)) : ℤ × List (Tree E) :=
  roots.foldl (fun accumulator tree =>
    if tree.children.isEmpty then (accumulator.1 + 1, accumulator.2)
    else (accumulator.1, tree.children.fold (fun _ data roots => data :: roots) accumulator.2))
    (0, [])

/-- The depth of a forest; 0 only for no tree at all. -/
def rootsDepth (roots : List (Tree E)) : Nat :=
  roots.foldr (fun tree depth => max (tree.maxDepth + 1) depth) 0

theorem rootsDepth_le {roots : List (Tree E)} {n : Nat} (h : ∀ t ∈ roots, t.maxDepth < n) :
    rootsDepth roots ≤ n := by
  induction roots with
  | nil => exact Nat.zero_le n
  | cons t ts ih =>
    exact max_le (h t List.mem_cons_self) (ih fun t' ht' => h t' (List.mem_cons_of_mem _ ht'))

theorem lt_rootsDepth {roots : List (Tree E)} {t : Tree E} (h : t ∈ roots) :
    t.maxDepth < rootsDepth roots := by
  induction roots with
  | nil => exact nomatch h
  | cons t' ts ih =>
    rcases List.mem_cons.mp h with rfl | h
    · exact lt_of_lt_of_le (Nat.lt_succ_self _) (le_max_left _ _)
    · exact lt_of_lt_of_le (ih h) (le_max_right _ _)

/-- Every root of the next level is a child of a root of this one. -/
theorem mem_splitLeaves {roots : List (Tree E)} {t : Tree E} (h : t ∈ (splitLeaves roots).2) :
    ∃ r ∈ roots, ∃ k, r.children.find? k = some t := by
  have key : ∀ (roots : List (Tree E)) (acc : ℤ × List (Tree E)),
      t ∈ (roots.foldl (fun accumulator tree =>
        if tree.children.isEmpty then (accumulator.1 + 1, accumulator.2)
        else (accumulator.1, tree.children.fold (fun _ data roots => data :: roots)
          accumulator.2)) acc).2 →
      t ∈ acc.2 ∨ ∃ r ∈ roots, ∃ k, r.children.find? k = some t := by
    intro roots
    induction roots with
    | nil => exact fun _ h => Or.inl h
    | cons r rs ih =>
      intro acc h
      rcases ih _ h with hacc | ⟨r', hr', hk⟩
      · dsimp only at hacc
        split at hacc
        · exact Or.inl hacc
        · have hfold : ∀ t ∈ r.children.fold (fun _ data roots => data :: roots) acc.2,
              t ∈ acc.2 ∨ ∃ k, r.children.find? k = some t := by
            refine SortedMap.fold_induction
              (fun l => ∀ t ∈ l, t ∈ acc.2 ∨ ∃ k, r.children.find? k = some t)
              (fun t ht => Or.inl ht) fun k v l hk ih t ht => ?_
            rcases List.mem_cons.mp ht with rfl | ht
            · exact Or.inr ⟨k, hk⟩
            · exact ih t ht
          exact (hfold t hacc).imp_right fun hk => ⟨r, List.mem_cons_self, hk⟩
      · exact Or.inr ⟨r', List.mem_cons_of_mem _ hr', hk⟩
  exact (key roots (0, []) h).resolve_left (by simp)

theorem rootsDepth_splitLeaves {roots : List (Tree E)} (h : roots ≠ []) :
    rootsDepth (splitLeaves roots).2 < rootsDepth roots := by
  obtain ⟨t, ts, rfl⟩ := List.exists_cons_of_ne_nil h
  have hpos : t.maxDepth < rootsDepth (t :: ts) := lt_rootsDepth List.mem_cons_self
  have : rootsDepth (splitLeaves (t :: ts)).2 ≤ rootsDepth (t :: ts) - 1 :=
    rootsDepth_le fun s hs => by
      obtain ⟨r, hr, k, hk⟩ := mem_splitLeaves hs
      have h1 := lt_childrenDepth hk
      rw [← maxDepth_eq] at h1
      have h2 := lt_rootsDepth hr
      omega
  omega

/-- `compute_max_depth`; `none` is the exception for a tree within the limit. -/
def computeMaxDepth (depth leavesLeft : ℤ) (roots : List (Tree E)) : Option ℤ :=
  if _h : roots = [] then none
  else if leavesLeft < roots.length then some (depth - 1)
  else
    let split := splitLeaves roots
    computeMaxDepth (depth + 1) (leavesLeft - split.1) split.2
termination_by rootsDepth roots
decreasing_by exact rootsDepth_splitLeaves _h

/-- `limit_to`: collapse whole levels, lowest first, until at most `width` leaves are left. -/
def limitTo (transform : E → E) (width : ℤ) (tree : Tree E) : Except String (Tree E) :=
  match computeMaxDepth 0 width [tree] with
  | none => .ok tree
  | some depth => collapseTo D transform depth tree

/-! ## 2. Shaping -/

/-- `lift_dead_branches`: the branches the mold lacks are collapsed into the element; indices stay
    when the mold has `[*]`. -/
def liftDeadBranches (transform : E → E) (hasAnyIndexOnMold : Bool) {M : Type u} (key : Label)
    (data : SortedMap.Side (Tree E) M) (accumulator : E × LabelMap E) : E × LabelMap E :=
  match key, data with
  | _, .both left _ => (accumulator.1, accumulator.2.add key left)
  | .index _, .left left =>
    if hasAnyIndexOnMold then (accumulator.1, accumulator.2.add key left)
    else (D.join accumulator.1 (transform (collapse D id none left)), accumulator.2)
  | _, .left left => (D.join accumulator.1 (transform (collapse D id none left)), accumulator.2)
  | _, .right _ => accumulator

/-- Merge the shape of a child into the entry `key`. -/
def updateShaped (phys : PhysEq (Tree E)) (key : Label) (shaped : Option (Tree E))
    (result : LabelMap E) : LabelMap E :=
  match shaped with
  | none => result
  | some data => result.update key fun existing =>
    match existing with
    | some existing => some (join D phys data existing)
    | none => some data

/-- `shape_tree`, with `shape_children` as its fold. -/
def shapeTree (phys : PhysEq (Tree E)) (transform : E → E) (ancestors : E) (left mold : Tree E) :
    Except String (Option (Tree E)) :=
  let moldChildren := mold.children.attach
  let hasAnyIndexOnMold := (mold.children.find? .anyIndex).isSome
  let lifted := (left.children.merge moldChildren).fold
    (liftDeadBranches D transform hasAnyIndexOnMold) (left.element, .empty)
  let filtered := filterByAncestors D ancestors lifted.1
  let moldBranch (key : Label)
      (data : SortedMap.Side (Tree E) {t // ∃ k, mold.children.find? k = some t})
      (result : Except String (LabelMap E)) : Except String (LabelMap E) :=
    match result with
    | .error message => .error message
    | .ok result =>
      match key, data with
      | _, .both leftTree moldTree =>
        (shapeTree phys transform filtered.ancestors leftTree moldTree.1).map
          (updateShaped D phys key · result)
      | .index _, .left leftTree =>
        match _h : mold.children.find? .anyIndex with
        | some moldTree =>
          (shapeTree phys transform filtered.ancestors leftTree moldTree).map
            (updateShaped D phys .anyIndex · result)
        | none => .error "Invariant broken. Left branch should have been lifted"
      | .anyIndex, .right _ => .ok result
      | _, .right _ => .error "Invariant broken. Mold should not have more branches"
      | _, .left _ => .error "Invariant broken. Left branch should have been lifted"
  let children := (lifted.2.merge moldChildren).fold moldBranch (.ok .empty)
  children.map (createNodeOption D filtered.newElement ·)
termination_by mold.maxDepth
decreasing_by
  · obtain ⟨k, hk⟩ := moldTree.2
    rw [maxDepth_eq mold]
    exact lt_childrenDepth hk
  · rw [maxDepth_eq mold]
    exact lt_childrenDepth _h

/-- `mold_branch`, on the children themselves. -/
def moldBranch (phys : PhysEq (Tree E)) (transform : E → E) (ancestors : E) (mold : LabelMap E)
    (key : Label) (data : SortedMap.Side (Tree E) (Tree E)) (result : Except String (LabelMap E)) :
    Except String (LabelMap E) :=
  match result with
  | .error message => .error message
  | .ok result =>
    match key, data with
    | _, .both leftTree moldTree =>
      (shapeTree D phys transform ancestors leftTree moldTree).map
        (updateShaped D phys key · result)
    | .index _, .left leftTree =>
      match mold.find? .anyIndex with
      | some moldTree =>
        (shapeTree D phys transform ancestors leftTree moldTree).map
          (updateShaped D phys .anyIndex · result)
      | none => .error "Invariant broken. Left branch should have been lifted"
    | .anyIndex, .right _ => .ok result
    | _, .right _ => .error "Invariant broken. Mold should not have more branches"
    | _, .left _ => .error "Invariant broken. Left branch should have been lifted"

/-- `shape_children`. -/
def shapeChildren (phys : PhysEq (Tree E)) (transform : E → E) (ancestors : E)
    (leftChildren mold : LabelMap E) : Except String (LabelMap E) :=
  (leftChildren.merge mold).fold (moldBranch D phys transform ancestors mold) (.ok .empty)

/-- The element with what was lifted into it, and the children that stay. -/
def lifted (transform : E → E) (left mold : Tree E) : E × LabelMap E :=
  (left.children.merge mold.children).fold
    (liftDeadBranches D transform (mold.children.find? .anyIndex).isSome) (left.element, .empty)

theorem find?_merge_attach (left : LabelMap E) (mold : LabelMap E) (k : Label) :
    (left.merge mold).find? k = ((left.merge mold.attach).find? k).map fun
      | .left tree => .left tree
      | .right moldTree => .right moldTree.1
      | .both tree moldTree => .both tree moldTree.1 := by
  rw [SortedMap.find?_merge, SortedMap.find?_merge, ← SortedMap.find?_attach mold]
  cases left.find? k <;> cases mold.attach.find? k <;> rfl

/-- One level of shaping. -/
theorem shapeTree_eq (phys : PhysEq (Tree E)) (transform : E → E) (ancestors : E)
    (left mold : Tree E) :
    shapeTree D phys transform ancestors left mold =
      (shapeChildren D phys transform
        (filterByAncestors D ancestors (lifted D transform left mold).1).ancestors
        (lifted D transform left mold).2 mold.children).map
      (createNodeOption D (filterByAncestors D ancestors (lifted D transform left mold).1).newElement
        ·) := by
  have hlifted : lifted D transform left mold = (left.children.merge mold.children.attach).fold
      (liftDeadBranches D transform (mold.children.find? .anyIndex).isSome)
      (left.element, .empty) := by
    rw [lifted, SortedMap.fold_map (find?_merge_attach left.children mold.children)]
    congr 1
    funext key data acc
    cases data with
    | left tree => cases key <;> rfl
    | right moldTree => cases key <;> rfl
    | both tree moldTree => cases key <;> rfl
  rw [shapeTree, ← hlifted, shapeChildren]
  congr 1
  rw [SortedMap.fold_map (find?_merge_attach (lifted D transform left mold).2 mold.children)]
  congr 1
  funext key data acc
  cases acc with
  | error message => rfl
  | ok acc =>
    cases data with
    | right moldTree => cases key <;> rfl
    | both tree moldTree => cases key <;> rfl
    | left tree =>
      cases key with
      | anyIndex => rfl
      | field f => rfl
      | index i =>
        dsimp only [moldBranch]
        split
        · rename_i hstar
          rw [hstar]
        · rename_i hstar
          rw [hstar]

def shape (phys : PhysEq (Tree E)) (transform : E → E) (tree mold : Tree E) :
    Except String (Tree E) :=
  (shapeTree D phys transform D.bottom tree mold).map (optionNodeTree D ·)

end Pysa
