/-
  Subject: BUILDING AND REBUILDING TREES
    (`abstractTreeDomain.ml`, `fold_tree_paths`, `assign_or_join_path` to `assign`,
    `filter_map_tree_paths` to `create_tree`, and `create`).

  * `assignOrJoinPath` -- strong and weak assignment below a path; the label `[*]` of the path
    also reaches every index that has a child of its own;
  * `createTree`, `create` -- trees from paths and elements.
-/
import Mathlib.Data.Finset.Image
import Pysa.Domains.TreeDomain

namespace Pysa

open Pysa.Tree

universe u v

variable {E : Type u} (D : Element E)

/-! ## 1. Assignment -/

def lookupTreeWithDefault (tree : Tree E) (element : Label) : Tree E :=
  match tree.children.find? element with
  | none => emptyTree D
  | some subtree => subtree

/-- `assign_or_join_path`. Inside `join_each_index` the assignment is always a join. -/
def assignOrJoinPath (subtree : Tree E) :
    (path : List Label) → (doJoin : Bool) → (ancestors : E) → (tree : Tree E) → Option (Tree E)
  | [], doJoin, ancestors, tree =>
    if isEmptyTree D tree then (pruneTree D ancestors subtree).bind (createTreeOption D [])
    else if doJoin then joinTrees D id ancestors none tree subtree
    else pruneTree D ancestors subtree
  | labelElement :: rest, doJoin, ancestors, tree =>
    if isEmptyTree D tree then
      (pruneTree D ancestors subtree).bind (createTreeOption D (labelElement :: rest))
    else
      let ancestors := D.transformOnSink (D.join ancestors tree.element)
      let existing := lookupTreeWithDefault D tree labelElement
      match labelElement with
      | .anyIndex =>
        let augmented := tree.children.add .anyIndex existing
        let joinEachIndex (element : Label) (tree : Tree E) : Option (Tree E) :=
          match element with
          | .field _ => some tree
          | _ => assignOrJoinPath subtree rest true ancestors tree
        createNodeOption D tree.element (augmented.filterMapi joinEachIndex)
      | _ =>
        createNodeOption D tree.element (tree.children.setOrRemove labelElement
          (assignOrJoinPath subtree rest doJoin ancestors existing))

variable {D} in
theorem assignOrJoinPath_empty {t : Tree E}
    (ht : isEmptyTree D t = true) (subtree : Tree E) (path : List Label) (doJoin : Bool) (a : E) :
    assignOrJoinPath D subtree path doJoin a t =
      (pruneTree D a subtree).bind (createTreeOption D path) := by
  cases path <;> rw [assignOrJoinPath, if_pos ht]

def assignTreePath (tree : Tree E) (path : List Label) (subtree : Tree E) : Tree E :=
  optionNodeTree D (assignOrJoinPath D subtree path false D.bottom tree)

def joinTreePath (tree : Tree E) (path : List Label) (subtree : Tree E) : Tree E :=
  if isBottom D subtree then tree
  else optionNodeTree D (assignOrJoinPath D subtree path true D.bottom tree)

def assign (weak : Bool) (tree : Tree E) (path : List Label) (subtree : Tree E) : Tree E :=
  if weak then joinTreePath D tree path subtree else assignTreePath D tree path subtree

/-! ## 2. Folding over the paths -/

/-- `fold_tree_paths`: `f path ancestors element accumulator` at each node with an element. -/
def foldTreePaths {A : Type v} (withAncestors : Bool) (init : A)
    (f : List Label → E → E → A → A) (tree : Tree E) : A :=
  walkChildren D.bottom [] tree init
where
  walkChildren (ancestors : E) (path : List Label) (tree : Tree E) (firstAccumulator : A) : A :=
    let secondAccumulator :=
      if D.isBottom tree.element then firstAccumulator
      else f path ancestors tree.element firstAccumulator
    if tree.children.isEmpty then secondAccumulator
    else
      let ancestors :=
        if withAncestors then D.transformOnSink (D.join ancestors tree.element) else ancestors
      tree.children.attach.fold (fun labelElement subtree accumulator =>
        walkChildren ancestors (path ++ [labelElement]) subtree.1 accumulator) secondAccumulator
  termination_by tree.maxDepth
  decreasing_by
    obtain ⟨k, hk⟩ := subtree.2
    rw [maxDepth_eq tree]
    exact lt_childrenDepth hk

/-- `filter_map_tree_paths`: `f path ancestors element` gives the new path and element. -/
def filterMapTreePaths (withAncestors : Bool) (f : List Label → E → E → List Label × E)
    (tree : Tree E) : Tree E :=
  let build (path : List Label) (ancestors element : E) (accessPathTree : Tree E) : Tree E :=
    let result := f path ancestors element
    if D.isBottom result.2 then accessPathTree
    else assignTreePath D accessPathTree result.1 (createLeaf result.2)
  foldTreePaths D withAncestors (emptyTree D) build tree

def cutTreeAfter (depth : ℤ) (tree : Tree E) : Tree E :=
  filterMapTreePaths D false (fun path _ element =>
    if (path.length : ℤ) > depth then (path, D.bottom) else (path, element)) tree

/-! ## 3. Creating trees -/

/-- `create_tree`, exported as `prepend`. -/
def createTree (path : List Label) (tree : Tree E) : Tree E :=
  optionNodeTree D (createTreeOption D path tree)

/-- The parts a tree is created from. Any other part goes to the element domain, which makes
    `element` of it. -/
inductive CreatePart (E : Type u) where
  | path (path : List Label) (tip : E)
  | self (info : Tree E)
  | other (element : E)

/-- `any_index_first` on labels, as the order of `create`. -/
def anyIndexFirst : Label → Label → Ordering
  | .anyIndex, .anyIndex => .eq
  | .anyIndex, _ => .lt
  | _, .anyIndex => .gt
  | _, _ => .eq

/-- `Label.compare_path`. -/
def comparePath (cmp : Label → Label → Ordering) : List Label → List Label → Ordering
  | left :: leftRest, right :: rightRest =>
    match cmp left right with
    | .eq => comparePath cmp leftRest rightRest
    | n => n
  | [], [] => .eq
  | [], _ => .lt
  | _, [] => .gt

/-- The order in which `create` assigns its parts. -/
def CreatePart.cmp : CreatePart E → CreatePart E → Ordering
  | .path p₁ _, .path p₂ _ => comparePath anyIndexFirst p₁ p₂
  | .path _ _, _ => .lt
  | _, .path _ _ => .gt
  | _, _ => .eq

def createPath (result : Tree E) : CreatePart E → Tree E
  | .path path tip => assign D true result path (createLeaf tip)
  | .self info => assign D true result [] info
  | .other element => assign D true result [] (createLeaf element)

def create (parts : List (CreatePart E)) : Tree E :=
  (parts.mergeSort fun x y => (CreatePart.cmp x y).isLE).foldl (createPath D) (emptyTree D)

/-! ## 4. Transformations of the elements -/

/-- The operations of a set domain on its members. -/
inductive SetTransform (α : Type u) where
  | map (f : α → α)
  | add (x : α)
  | filter (p : α → Bool)

namespace SetTransform

variable {α : Type u} [DecidableEq α]

def apply : SetTransform α → Finset α → Finset α
  | map f, s => s.image f
  | add x, s => insert x s
  | filter p, s => s.filter (p · = true)

end SetTransform

/-- `transform` at a part of the element: every element where it stands. -/
def transformElement {α : Type u} [DecidableEq α] (D : Element (Finset α)) (op : SetTransform α)
    (tree : Tree (Finset α)) : Tree (Finset α) :=
  filterMapTreePaths D false (fun path _ element => (path, op.apply element)) tree

end Pysa
