/-
  Subject: THE REFINED PATHS OF A TREE, AND WHAT ITS NODES COVER (`abstractTreeDomain.ml`,
    `fold_refined_tree_paths`).

  * `foldRefinedTreePaths` -- the traversal; its `[*]` carries the indices beside it;
  * `Covers` -- the concrete paths that a node covers;
  * `mem_refinedNodes` -- **the instances of the paths handed out are the paths covered**;
  * `mem_taintAt_iff` -- a path reads the nodes that cover its prefixes.
-/
import Pysa.Domains.TreeReadRefined

namespace Pysa

open Pysa.Tree

universe u v

/-! ## 1. The traversal -/

section Traversal

variable {E : Type u} (D : Element E)

def getIndices (map : LabelMap E) : List String :=
  map.fold (fun key _ acc =>
    match key with
    | .index i => i :: acc
    | _ => acc) []

/-- The label of a child, with the indices that its `[*]` does not cover. -/
def refinedLabel (children : LabelMap E) : Label → Label.Refined
  | .anyIndex => .anyIndex (getIndices children).toFinset
  | .index i => .index i
  | .field f => .field f

/-- `fold_refined_tree_paths`: `f path element accumulator` at each node with an element. -/
def foldRefinedTreePaths {A : Type v} (init : A) (f : List Label.Refined → E → A → A)
    (tree : Tree E) : A :=
  walkChildren [] tree init
where
  walkChildren (path : List Label.Refined) (tree : Tree E) (firstAccumulator : A) : A :=
    let secondAccumulator :=
      if D.isBottom tree.element then firstAccumulator else f path tree.element firstAccumulator
    if tree.children.isEmpty then secondAccumulator
    else
      tree.children.attach.fold (fun key subtree accumulator =>
        walkChildren (path ++ [refinedLabel tree.children key]) subtree.1 accumulator)
        secondAccumulator
  termination_by tree.maxDepth
  decreasing_by
    obtain ⟨k, hk⟩ := subtree.2
    rw [maxDepth_eq tree]
    exact lt_childrenDepth hk

/-- The nodes with an element and their refined paths, in the order of the traversal. -/
def refinedNodesFrom : (path : List Label.Refined) → Tree E → List (List Label.Refined × E)
  | path, .node element ⟨keys, sorted, get⟩ =>
    (if D.isBottom element then [] else [(path, element)]) ++
      keys.attach.flatMap fun k =>
        refinedNodesFrom (path ++ [refinedLabel ⟨keys, sorted, get⟩ k.1]) (get k)

theorem refinedNodesFrom_eq (path : List Label.Refined) (t : Tree E) :
    refinedNodesFrom D path t =
      (if D.isBottom t.element then [] else [(path, t.element)]) ++
        t.children.bindings.flatMap fun binding =>
          refinedNodesFrom D (path ++ [refinedLabel t.children binding.1]) binding.2 := by
  obtain ⟨e, ⟨keys, sorted, get⟩⟩ := t
  rw [refinedNodesFrom, SortedMap.bindings, List.flatMap_map]
  rfl

theorem walkRefinedChildren_eq {A : Type v} (f : List Label.Refined → E → A → A) (t : Tree E)
    (path : List Label.Refined) (acc : A) :
    foldRefinedTreePaths.walkChildren D f path t acc =
      (refinedNodesFrom D path t).foldl (fun acc n => f n.1 n.2 acc) acc := by
  induction t using Tree.induct generalizing path acc with
  | node e c ih =>
    have hhead : (if D.isBottom e then acc else f path e acc) =
        (if D.isBottom e then [] else [(path, e)]).foldl (fun acc n => f n.1 n.2 acc) acc := by
      split <;> rfl
    rw [foldRefinedTreePaths.walkChildren, refinedNodesFrom_eq, List.foldl_append, element_node,
      children_node, ← hhead, List.foldl_flatMap]
    split
    · rename_i hempty
      rw [SortedMap.isEmpty_iff_eq] at hempty
      subst hempty
      rfl
    · refine (SortedMap.attach_fold (fun k s acc => foldRefinedTreePaths.walkChildren D f
        (path ++ [refinedLabel c k]) s acc) _ c).trans ?_
      rw [SortedMap.fold_eq_foldl]
      refine List.foldl_ext _ _ _ fun acc' binding hbinding => ?_
      exact ih binding.1 binding.2 (SortedMap.mem_bindings.mp hbinding) _ acc'

/-- A fold over the refined paths of a tree is a fold over the list of its nodes. -/
theorem foldRefinedTreePaths_eq {A : Type v} (init : A) (f : List Label.Refined → E → A → A)
    (t : Tree E) :
    foldRefinedTreePaths D init f t =
      (refinedNodesFrom D [] t).foldl (fun acc n => f n.1 n.2 acc) init :=
  walkRefinedChildren_eq D f t [] init

/-- A traversal from a path visits what it visits from the root, below the path. -/
theorem refinedNodesFrom_path (path : List Label.Refined) (t : Tree E) :
    refinedNodesFrom D path t =
      (refinedNodesFrom D [] t).map fun n => (path ++ n.1, n.2) := by
  induction t using Tree.induct generalizing path with
  | node e c ih =>
    rw [refinedNodesFrom_eq, refinedNodesFrom_eq, List.map_append, List.map_flatMap, element_node,
      children_node]
    congr 1
    · split
      · rfl
      · rw [List.map_singleton, List.append_nil]
    · refine List.flatMap_congr fun binding hbinding => ?_
      have hk := SortedMap.mem_bindings.mp hbinding
      rw [ih binding.1 binding.2 hk, ih binding.1 binding.2 hk ([] ++ _), List.map_map]
      refine List.map_congr_left fun n _ => ?_
      simp

theorem mem_getIndices {map : LabelMap E} {i : String} :
    i ∈ getIndices map ↔ map.find? (.index i) ≠ none := by
  rw [getIndices, SortedMap.fold_eq_foldl]
  refine (foldl_seen_iff (i ∈ ·) (P := fun binding => binding.1 = .index i)
    (fun acc binding => ?_) _ _).trans ?_
  · obtain ⟨k, s⟩ := binding
    cases k with
    | anyIndex => simp
    | field f => simp
    | index j => simp [or_comm, eq_comm]
  · rw [or_iff_right List.not_mem_nil]
    constructor
    · intro h
      obtain ⟨⟨k, s⟩, hmem, rfl⟩ := h
      rw [SortedMap.mem_bindings.mp hmem]
      exact Option.some_ne_none s
    · intro h
      obtain ⟨s, hs⟩ := Option.ne_none_iff_exists'.mp h
      exact ⟨(.index i, s), SortedMap.mem_bindings.mpr hs, rfl⟩

end Traversal

/-! ## 2. What a node covers -/

section Covers

variable {E : Type u}

/-- The concrete labels that a child covers: `[*]` the indices that have no child of their own. -/
inductive CoversLabel (children : LabelMap E) : Label → Label → Prop
  | anyIndex {i : String} (hi : children.find? (.index i) = none) :
      CoversLabel children .anyIndex (.index i)
  | index (i : String) : CoversLabel children (.index i) (.index i)
  | field (f : String) : CoversLabel children (.field f) (.field f)

/-- `Covers t path p`: the node of the tree at `path` covers the concrete path `p`. -/
inductive Covers : Tree E → List Label → List Label → Prop
  | nil (t) : Covers t [] []
  | cons {t s k l path p} (hk : t.children.find? k = some s) (hl : CoversLabel t.children k l)
      (h : Covers s path p) : Covers t (k :: path) (l :: p)

theorem refinedLabel_matches_iff {children : LabelMap E} {k l : Label} :
    (refinedLabel children k).Matches l ↔ CoversLabel children k l := by
  constructor
  · intro h
    cases k with
    | anyIndex =>
      cases h with
      | anyIndex hi =>
        rw [List.mem_toFinset, mem_getIndices, not_not] at hi
        exact .anyIndex hi
    | index i => cases h; exact .index i
    | field f => cases h; exact .field f
  · intro h
    cases h with
    | anyIndex hi => exact .anyIndex (by rw [List.mem_toFinset, mem_getIndices, not_not]; exact hi)
    | index i => exact .index i
    | field f => exact .field f

/-- A concrete label finds the child that covers it. -/
theorem lookup_eq_some_iff {children : LabelMap E} {l : Label} (hl : l.Concrete) {s : Tree E} :
    lookup children l = some s ↔ ∃ k, children.find? k = some s ∧ CoversLabel children k l := by
  constructor
  · intro h
    cases l with
    | anyIndex => exact hl.elim
    | field f => exact ⟨.field f, h, .field f⟩
    | index i =>
      cases hi : children.find? (.index i) with
      | some s' =>
        rw [lookup_of_find? hi] at h
        exact ⟨.index i, hi.trans h, .index i⟩
      | none =>
        rw [lookup_index_of_none hi] at h
        exact ⟨.anyIndex, h, .anyIndex hi⟩
  · intro h
    obtain ⟨k, hk, hcovers⟩ := h
    cases hcovers with
    | anyIndex hi => rw [lookup_index_of_none hi, hk]
    | index i => exact lookup_of_find? hk
    | field f => exact hk

/-- **The instances of the paths handed out are the paths that the nodes cover.** -/
theorem exists_refinedNode_iff (D : Element E) (P : E → Prop) (t : Tree E) (p : List Label) :
    (∃ n ∈ refinedNodesFrom D [] t, Instance n.1 p ∧ P n.2) ↔
      ∃ path s, Covers t path p ∧ subtreeAt t path = some s ∧ D.isBottom s.element = false ∧
        P s.element := by
  induction t using Tree.induct generalizing p with
  | node e c ih =>
    rw [refinedNodesFrom_eq, element_node, children_node]
    constructor
    · intro h
      obtain ⟨n, hn, hinstance, hP⟩ := h
      rcases List.mem_append.mp hn with hn | hn
      · split at hn
        · cases hn
        · rename_i hbottom
          rw [List.mem_singleton] at hn
          subst hn
          cases hinstance
          exact ⟨[], .node e c, .nil _, rfl, by simpa using hbottom, hP⟩
      · obtain ⟨⟨k, s⟩, hmem, hn⟩ := List.mem_flatMap.mp hn
        have hk := SortedMap.mem_bindings.mp hmem
        rw [refinedNodesFrom_path] at hn
        obtain ⟨n', hn', rfl⟩ := List.mem_map.mp hn
        obtain ⟨l, p', hl, hp', rfl⟩ := List.forall₂_cons_left_iff.mp hinstance
        obtain ⟨path, s', hcovers, hs', hrest⟩ := (ih k s hk p').mp ⟨n', hn', hp', hP⟩
        refine ⟨k :: path, s', .cons hk (refinedLabel_matches_iff.mp hl) hcovers, ?_, hrest⟩
        rw [subtreeAt_cons, children_node, hk]
        exact hs'
    · intro h
      obtain ⟨path, s', hcovers, hs', hbottom, hP⟩ := h
      cases hcovers with
      | nil =>
        cases hs'
        rw [element_node] at hbottom hP
        refine ⟨([], e), List.mem_append_left _ ?_, .nil, hP⟩
        rw [hbottom]
        exact List.mem_singleton_self _
      | @cons _ s k l path p hk hl hcovers =>
        rw [subtreeAt_cons, hk] at hs'
        obtain ⟨n, hn, hp, hP⟩ := (ih k s hk p).mpr ⟨path, s', hcovers, hs', hbottom, hP⟩
        refine ⟨(refinedLabel c k :: n.1, n.2), List.mem_append_right _ ?_,
          .cons (refinedLabel_matches_iff.mpr hl) hp, hP⟩
        refine List.mem_flatMap.mpr ⟨(k, s), SortedMap.mem_bindings.mpr hk, ?_⟩
        rw [refinedNodesFrom_path]
        exact List.mem_map.mpr ⟨n, hn, rfl⟩

end Covers

/-! ## 3. Trees of sets -/

section Sets

variable {α : Type u} [DecidableEq α] {w : Finset α → Finset α}

/-- The node at `path` holds `x`. -/
def NodeHolds (t : Tree (Finset α)) (path : List Label) (x : α) : Prop :=
  ∃ s, subtreeAt t path = some s ∧ x ∈ s.element

/-- **A concrete path reads what the nodes hold that cover its prefixes.** -/
theorem mem_taintAt_iff {p : List Label} (hp : ∀ k ∈ p, k.Concrete) (t : Tree (Finset α)) (x : α) :
    x ∈ taintAt p t ↔ ∃ p₁ path, p₁ <+: p ∧ Covers t path p₁ ∧ NodeHolds t path x := by
  induction p generalizing t with
  | nil =>
    rw [taintAt_nil]
    constructor
    · exact fun hx => ⟨[], [], List.prefix_rfl, .nil t, t, rfl, hx⟩
    · intro h
      obtain ⟨p₁, path, hp₁, hcovers, s, hs, hx⟩ := h
      rw [List.prefix_nil] at hp₁
      subst hp₁
      cases hcovers
      cases hs
      exact hx
  | cons l rest ih =>
    rw [List.forall_mem_cons] at hp
    rw [taintAt, Finset.mem_union]
    constructor
    · intro h
      rcases h with hx | hx
      · exact ⟨[], [], List.nil_prefix, .nil t, t, rfl, hx⟩
      · cases hs : lookup t.children l with
        | none =>
          rw [hs] at hx
          exact absurd hx (Finset.notMem_empty x)
        | some s =>
          rw [hs] at hx
          obtain ⟨k, hk, hl⟩ := (lookup_eq_some_iff hp.1).mp hs
          obtain ⟨p₁, path, hp₁, hcovers, s', hs', hx⟩ := (ih hp.2 s).mp hx
          refine ⟨l :: p₁, k :: path, List.cons_prefix_cons.mpr ⟨rfl, hp₁⟩, .cons hk hl hcovers,
            s', ?_, hx⟩
          rw [subtreeAt_cons, hk]
          exact hs'
    · intro h
      obtain ⟨p₁, path, hp₁, hcovers, s', hs', hx⟩ := h
      cases hcovers with
      | nil =>
        cases hs'
        exact Or.inl hx
      | @cons _ s k l' path p₁ hk hl hcovers =>
        rw [List.cons_prefix_cons] at hp₁
        obtain ⟨rfl, hp₁⟩ := hp₁
        rw [subtreeAt_cons, hk] at hs'
        rw [(lookup_eq_some_iff hp.1).mpr ⟨k, hk, hl⟩]
        exact Or.inr ((ih hp.2 s).mpr ⟨p₁, path, hp₁, hcovers, s', hs', hx⟩)

theorem notMem_collapseTree {x : α} {t : Tree (Finset α)} (ht : DisjointFrom {x} t)
    {acc : Finset α} (hacc : x ∉ acc) :
    x ∉ collapse.collapseTree (plainSet w) id none t acc := by
  induction ht generalizing acc with
  | @node e c he _ ih =>
    rw [collapseTree_eq, elementJoin_plain, element_node, children_node]
    refine SortedMap.fold_induction (x ∉ ·) ?_ fun k s acc' hk hacc' => ih k s hk hacc'
    rw [Finset.mem_union, not_or]
    refine ⟨hacc, ?_⟩
    unfold collapse.transformNonBottom
    split <;> exact Finset.disjoint_singleton_right.mp he

/-- Collapsing a tree finds all that it holds and nothing else. -/
theorem mem_collapse_iff (t : Tree (Finset α)) (x : α) :
    x ∈ collapse (plainSet w) id none t ↔ x ∈ Held t := by
  constructor
  · intro hx
    by_contra hheld
    have ht := (disjointFrom_singleton_iff t).mpr hheld
    refine notMem_collapseTree (.node ?_ fun k s hk => ht.child hk) ?_ hx
    · exact Finset.disjoint_empty_left _
    · exact Finset.disjoint_singleton_right.mp ht.element
  · intro hx
    obtain ⟨p, -, hx⟩ := hx
    exact subset_collapse (fun _ => Finset.Subset.refl _) none t p hx

theorem Covers.concrete {E : Type u} {t : Tree E} {path p : List Label} (h : Covers t path p) :
    ∀ k ∈ p, k.Concrete := by
  induction h with
  | nil => exact fun _ hk => absurd hk List.not_mem_nil
  | cons _ hl _ ih =>
    refine List.forall_mem_cons.mpr ⟨?_, ih⟩
    cases hl <;> trivial

/-- What a path observes and what is held below it: what its extensions read. -/
theorem mem_along_held_iff (p : List Label) (t : Tree (Finset α)) (x : α) :
    x ∈ along Held p t ↔ ∃ r : List Label, (∀ k ∈ r, k.Concrete) ∧ x ∈ taintAt (p ++ r) t := by
  induction p generalizing t with
  | nil => exact Iff.rfl
  | cons k rest ih =>
    rw [along, Set.mem_union, ih, Finset.mem_coe]
    simp only [List.cons_append, taintAt_childAt, Finset.mem_union]
    constructor
    · intro h
      rcases h with hx | ⟨r, hr, hx⟩
      · exact ⟨[], by simp, Or.inl hx⟩
      · exact ⟨r, hr, Or.inr hx⟩
    · intro h
      obtain ⟨r, hr, hx⟩ := h
      exact hx.imp_right fun hx => ⟨r, hr, hx⟩

end Sets

end Pysa
