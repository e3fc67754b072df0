/-
  Subject: FILTERING THE ELEMENTS OF A TREE (`abstractTreeDomain.ml`, `filter_map_tree_paths` and
    `transform` on a part of the element).

  * `PruneRedirect`, `taintAt_pruneTree` -- what a path reads in a pruned tree: an index that pruning
    drops reads `[*]`;
  * `assignOrJoinPath_cons` -- one level of an assignment;
  * `filterMapTreePaths_eq` -- **rebuilding a tree node by node prunes the tree of the new elements**;
  * `read_filter` -- **what a path reads in a filtered tree**.
-/
import Pysa.Domains.TreeJoinRead
import Pysa.Domains.TreeMinimal
import Pysa.Domains.TreePaths
import Pysa.Domains.TreeWiden

namespace Pysa

open Pysa.Tree

universe u

variable {α : Type u} [DecidableEq α]

/-! ## 1. Reading a pruned tree -/

/-- An index that is not kept under ancestors that cover all it holds. -/
def Vanishes (ancestors : Finset α) (children : LabelMap (Finset α)) (i : String) : Prop :=
  ∃ s, children.find? (.index i) = some s ∧ Covered ancestors s

/-- The subtree that a label finds, a leaf without an element where it finds none. -/
def childAt (children : LabelMap (Finset α)) (k : Label) : Tree (Finset α) :=
  (lookup children k).getD (createLeaf ∅)

/-- `PruneRedirect ancestors t p p'`: what `p` reads in the tree `t`, pruned under the ancestors, is
    what `p'` reads in `t`. Where an index vanishes, `p'` has one that the node does not name. -/
inductive PruneRedirect : Finset α → Tree (Finset α) → List Label → List Label → Prop
  | nil (a t) : PruneRedirect a t [] []
  | keep {a t k p p'} (hk : ∀ i, k = .index i → ¬ Vanishes (a ∪ t.element) t.children i)
      (h : PruneRedirect (a ∪ t.element) (childAt t.children k) p p') :
      PruneRedirect a t (k :: p) (k :: p')
  | drop {a t i j p p'} (hi : Vanishes (a ∪ t.element) t.children i)
      (hj : t.children.find? (.index j) = none)
      (h : PruneRedirect (a ∪ t.element) (childAt t.children .anyIndex) p p') :
      PruneRedirect a t (.index i :: p) (.index j :: p')

theorem PruneRedirect.concrete {a : Finset α} {t : Tree (Finset α)} {p p' : List Label}
    (h : PruneRedirect a t p p') (hp : ∀ k ∈ p, k.Concrete) : ∀ k ∈ p', k.Concrete := by
  induction h with
  | nil => exact hp
  | keep _ _ ih =>
    rw [List.forall_mem_cons] at hp ⊢
    exact ⟨hp.1, ih hp.2⟩
  | drop _ _ _ ih =>
    rw [List.forall_mem_cons] at hp ⊢
    exact ⟨trivial, ih hp.2⟩

/-- Every path is redirected somewhere. -/
theorem PruneRedirect.exists (a : Finset α) (t : Tree (Finset α)) (p : List Label) :
    ∃ p', PruneRedirect a t p p' := by
  induction p generalizing a t with
  | nil => exact ⟨[], .nil a t⟩
  | cons k p ih =>
    by_cases hk : ∃ i, k = .index i ∧ Vanishes (a ∪ t.element) t.children i
    · obtain ⟨i, rfl, hi⟩ := hk
      obtain ⟨j, hj, -⟩ := exists_fresh_index t.children t.children
      obtain ⟨p', h⟩ := ih (a ∪ t.element) (childAt t.children .anyIndex)
      exact ⟨.index j :: p', .drop hi hj h⟩
    · obtain ⟨p', h⟩ := ih (a ∪ t.element) (childAt t.children k)
      exact ⟨k :: p', .keep (fun i hi hvanishes => hk ⟨i, hi, hvanishes⟩) h⟩

variable {w : Finset α → Finset α}

theorem taintAt_createNodeOption (p : List Label) (e : Finset α) (c : LabelMap (Finset α)) :
    taintAt p (optionNodeTree (plainSet w) (createNodeOption (plainSet w) e c)) =
      taintAt p (.node e c) := by
  obtain ⟨h, hc, he⟩ | ⟨h, -⟩ := createNodeOption_cases (plainSet w) e c
  · rw [setElement_isBottom, decide_eq_true_eq] at he
    rw [h, hc, he]
    rfl
  · rw [h]
    rfl

theorem pruneTree_eq_none_iff (a : Finset α) (t : Tree (Finset α)) :
    pruneTree (plainSet w) a t = none ↔ Covered a t := by
  rw [← joinTrees_emptyTree_right, joinTrees_eq_none_iff]
  exact ⟨And.left, fun h => ⟨h, covered_emptyTree a⟩⟩

theorem optionNodeTree_eq (t : Option (Tree (Finset α))) :
    optionNodeTree (plainSet w) t = t.getD (createLeaf ∅) := by
  cases t <;> rfl

theorem taintAt_childAt (k : Label) (p : List Label) (t : Tree (Finset α)) :
    taintAt (k :: p) t = t.element ∪ taintAt p (childAt t.children k) := by
  rw [taintAt_cons id, lookupTree, optionNodeTree_eq]
  rfl

theorem pruneTree_childAt (a : Finset α) (c : LabelMap (Finset α)) (k : Label) :
    (pruneTree (plainSet w) a (childAt c k)) = (lookup c k).bind (pruneTree (plainSet w) a) := by
  unfold childAt
  cases lookup c k with
  | none => exact (pruneTree_eq_none_iff a _).mpr (covered_emptyTree (w := w) a)
  | some s => rfl

/-- A label that is kept finds in the pruned children what it found before, pruned. -/
theorem lookup_prune_of_kept {a : Finset α} {c : LabelMap (Finset α)} {k : Label}
    (h : ∀ i, k = .index i → ¬ Vanishes a c i) :
    lookup (c.filterMap (pruneTree (plainSet w) a)) k = pruneTree (plainSet w) a (childAt c k) := by
  rw [pruneTree_childAt]
  cases k with
  | anyIndex => exact SortedMap.find?_filterMap _ _ _
  | field f => exact SortedMap.find?_filterMap _ _ _
  | index i =>
    cases hs : c.find? (.index i) with
    | none =>
      rw [lookup_index_of_none hs, lookup_index_of_none, SortedMap.find?_filterMap]
      rw [SortedMap.find?_filterMap, hs]
      rfl
    | some s =>
      have hpruned : pruneTree (plainSet w) a s ≠ none := fun hnone =>
        h i rfl ⟨s, hs, (pruneTree_eq_none_iff a s).mp hnone⟩
      obtain ⟨s', hs'⟩ := Option.ne_none_iff_exists'.mp hpruned
      rw [lookup_of_find? hs, Option.bind_some, hs']
      refine lookup_of_find? ?_
      rw [SortedMap.find?_filterMap, hs]
      exact hs'

/-- An index that vanishes finds what `[*]` finds. -/
theorem lookup_prune_of_vanishes {a : Finset α} {c : LabelMap (Finset α)} {i : String}
    (h : Vanishes a c i) :
    lookup (c.filterMap (pruneTree (plainSet w) a)) (.index i) =
      pruneTree (plainSet w) a (childAt c .anyIndex) := by
  obtain ⟨s, hs, hcovered⟩ := h
  rw [pruneTree_childAt, lookup_index_of_none, SortedMap.find?_filterMap]
  · rfl
  · rw [SortedMap.find?_filterMap, hs, Option.bind_some, pruneTree_eq_none_iff]
    exact hcovered

/-- **What a path reads in a pruned tree**, together with the ancestors. -/
theorem taintAt_pruneTree {a : Finset α} {t : Tree (Finset α)} {p p' : List Label}
    (h : PruneRedirect a t p p') :
    a ∪ taintAt p (optionNodeTree (plainSet w) (pruneTree (plainSet w) a t)) = a ∪ taintAt p' t := by
  have hnode : ∀ (a : Finset α) (t : Tree (Finset α)) (k : Label) (p : List Label),
      a ∪ taintAt (k :: p) (optionNodeTree (plainSet w) (pruneTree (plainSet w) a t)) =
        (a ∪ t.element) ∪ taintAt p (optionNodeTree (plainSet w)
          (lookup (t.children.filterMap (pruneTree (plainSet w) (a ∪ t.element))) k)) := by
    intro a t k p
    rw [pruneTree_plain, taintAt_createNodeOption, taintAt_cons w, lookupTree, element_node,
      children_node, ← Finset.union_assoc, Finset.union_sdiff_self_eq_union]
  induction h with
  | nil a t =>
    rw [pruneTree_plain, taintAt_createNodeOption]
    exact Finset.union_sdiff_self_eq_union
  | keep hk _ ih => rw [hnode, lookup_prune_of_kept hk, ih, taintAt_childAt, Finset.union_assoc]
  | drop hi hj _ ih =>
    rw [hnode, lookup_prune_of_vanishes hi, ih, taintAt_childAt, Finset.union_assoc, childAt,
      childAt, lookup_index_of_none hj, lookup_anyIndex]

theorem MinimalUnder.not_covered {a : Finset α} {t : Tree (Finset α)}
    (hm : MinimalUnder (plainSet w) a t) : ¬ Covered a t := by
  induction t using Tree.induct generalizing a with
  | node e c ih =>
    intro h
    obtain ⟨hempty, he, hc⟩ := (minimalUnder_iff a _).mp hm
    have hbottom : e = ∅ := he.resolve_right fun hnot => hnot (h [] (by simp))
    have hne : ¬ c.isEmpty = true := fun hc => hempty ⟨SortedMap.isEmpty_iff_eq.mp hc, hbottom⟩
    obtain ⟨k, s, hk⟩ := SortedMap.exists_of_not_isEmpty hne
    have hs := hc k s hk
    rw [element_node, hbottom, Finset.union_empty, Sink.apply_identity] at hs
    exact ih k s hk hs (covered_of_find? h hk)

/-- Nothing vanishes from a minimal tree. -/
theorem PruneRedirect.of_minimal {a : Finset α} {t : Tree (Finset α)}
    (ht : BottomOrMinimal (plainSet w) a t) (p : List Label) : PruneRedirect a t p p := by
  induction p generalizing a t with
  | nil => exact .nil a t
  | cons k p ih =>
    have hchild : ∀ l s, t.children.find? l = some s → MinimalUnder (plainSet w) (a ∪ t.element) s :=
      fun l s hs => ht.child hs
    refine .keep (fun i _ hi => ?_) (ih ?_)
    · obtain ⟨s, hs, hcovered⟩ := hi
      exact (hchild _ s hs).not_covered hcovered
    · rw [childAt]
      cases hlookup : lookup t.children k with
      | none => exact bottomOrMinimal_emptyTree _
      | some s =>
        obtain ⟨l, hl⟩ := exists_find?_of_lookup hlookup
        exact .inr (hchild l s hl)

/-! ## 2. One level of an assignment -/

theorem isEmptyTree_of_pruneTree {a : Finset α} {t s : Tree (Finset α)}
    (hs : pruneTree (plainSet w) a t = some s) : isEmptyTree (plainSet w) s = false := by
  rw [← Bool.not_eq_true, isEmptyTree_iff]
  exact ((minimalUnder_iff a s).mp (pruneTree_minimal a t s hs)).1

/-- An assignment at the root is the subtree without what the ancestors say. -/
theorem bind_createTreeOption_nil (a : Finset α) (t : Tree (Finset α)) :
    (pruneTree (plainSet w) a t).bind (createTreeOption (plainSet w) []) =
      pruneTree (plainSet w) a t := by
  cases hs : pruneTree (plainSet w) a t with
  | none => rfl
  | some s => exact createTreeOption_of_not_empty (isEmptyTree_of_pruneTree hs) []

/-- **One level of an assignment**: the child of the label is assigned to, also when nothing stands
    at the node yet. A `[*]` reaches no other child when no index is named. -/
theorem assignOrJoinPath_cons {k : Label} {e a : Finset α} {c : LabelMap (Finset α)}
    (hk : k = .anyIndex → ∀ i, c.find? (.index i) = none) (subtree : Tree (Finset α))
    (rest : List Label) (doJoin : Bool) :
    assignOrJoinPath (plainSet w) subtree (k :: rest) doJoin a
        (optionNodeTree (plainSet w) (createNodeOption (plainSet w) e c)) =
      createNodeOption (plainSet w) e (c.setOrRemove k
        (assignOrJoinPath (plainSet w) subtree rest (doJoin || decide (k = .anyIndex)) (a ∪ e)
          (optionNodeTree (plainSet w) (c.find? k)))) := by
  obtain ⟨hnone, hc, he⟩ | ⟨hsome, hne⟩ := createNodeOption_cases (plainSet w) e c
  · -- nothing stands at the node: the subtree is hung below the path
    rw [setElement_isBottom, decide_eq_true_eq] at he
    have hempty : isEmptyTree (plainSet w) (emptyTree (plainSet w)) = true :=
      (isEmptyTree_iff _).mpr ⟨rfl, rfl⟩
    rw [hnone, optionNodeTree, assignOrJoinPath_empty hempty, hc, he, Finset.union_empty,
      SortedMap.find?_empty, optionNodeTree, assignOrJoinPath_empty hempty]
    cases hs : pruneTree (plainSet w) a subtree with
    | none => rfl
    | some s =>
      have hs' := isEmptyTree_of_pruneTree hs
      rw [Option.bind_some, Option.bind_some, createTreeOption_of_not_empty hs',
        createTreeOption_of_not_empty hs', createTreeOption.createTreeInternal]
      rfl
  · have hempty : isEmptyTree (plainSet w) (.node e c) ≠ true := by
      rw [ne_eq, isEmptyTree_iff]
      intro h
      refine hne ⟨h.1, ?_⟩
      rw [setElement_isBottom, decide_eq_true_eq]
      exact h.2
    have hdefault : lookupTreeWithDefault (plainSet w) (.node e c) k =
        optionNodeTree (plainSet w) (c.find? k) := by
      rw [lookupTreeWithDefault, children_node]
      cases c.find? k <;> rfl
    rw [hsome, optionNodeTree, assignOrJoinPath, if_neg hempty, hdefault]
    cases k with
    | index i => simp
    | field f => simp
    | anyIndex =>
      dsimp only
      congr 1
      refine SortedMap.ext_find? fun k => ?_
      rw [SortedMap.find?_filterMapi, SortedMap.find?_add, SortedMap.find?_setOrRemove]
      cases k with
      | anyIndex =>
        rw [if_pos rfl, if_pos rfl, Option.bind_some]
        simp
      | index i =>
        rw [if_neg (by simp), if_neg (by simp), children_node, hk rfl i]
        rfl
      | field f =>
        rw [if_neg (by simp), if_neg (by simp), children_node]
        cases c.find? (.field f) <;> rfl

/-! ## 3. Rebuilding a tree -/

/-- The tree of the new elements. -/
def mapElements {E : Type u} (f : E → E) : Tree E → Tree E
  | .node e ⟨keys, sorted, get⟩ => .node (f e) ⟨keys, sorted, fun k => mapElements f (get k)⟩

/-- The same for new elements that also depend on the path. -/
def mapPathElements {E : Type u} (f : List Label → E → E) : Tree E → Tree E
  | .node e ⟨keys, sorted, get⟩ => .node (f [] e) ⟨keys, sorted, fun k =>
    mapPathElements (fun path => f (k :: path)) (get k)⟩

@[simp] theorem element_mapPathElements {E : Type u} (f : List Label → E → E) (t : Tree E) :
    (mapPathElements f t).element = f [] t.element := by
  obtain ⟨e, ⟨keys, sorted, get⟩⟩ := t
  rw [mapPathElements]
  rfl

theorem find?_mapPathElements {E : Type u} (f : List Label → E → E) (t : Tree E) (k : Label) :
    (mapPathElements f t).children.find? k =
      (t.children.find? k).map (mapPathElements fun path => f (k :: path)) := by
  obtain ⟨e, ⟨keys, sorted, get⟩⟩ := t
  rw [mapPathElements]
  by_cases hk : k ∈ keys
  · rw [children_node, children_node, SortedMap.find?_of_mem hk, SortedMap.find?_of_mem hk]
    rfl
  · rw [children_node, children_node, SortedMap.find?_eq_none.mpr hk, SortedMap.find?_eq_none.mpr hk]
    rfl

theorem mapPathElements_const {E : Type u} (f : E → E) :
    ∀ t : Tree E, mapPathElements (fun _ => f) t = mapElements f t
  | .node e ⟨keys, sorted, get⟩ => by
      rw [mapPathElements, mapElements]
      congr 2
      funext k
      exact mapPathElements_const f (get k)

@[simp] theorem element_mapElements {E : Type u} (f : E → E) (t : Tree E) :
    (mapElements f t).element = f t.element := by
  rw [← mapPathElements_const, element_mapPathElements]

theorem find?_mapElements {E : Type u} (f : E → E) (t : Tree E) (k : Label) :
    (mapElements f t).children.find? k = (t.children.find? k).map (mapElements f) := by
  rw [← mapPathElements_const, find?_mapPathElements]
  congr 1
  funext t
  exact mapPathElements_const f t

theorem mapElements_createLeaf {E : Type u} (f : E → E) (e : E) :
    mapElements f (createLeaf e) = createLeaf (f e) := by
  unfold createLeaf SortedMap.empty
  rw [mapElements]
  congr 2
  funext k
  exact absurd k.2 List.not_mem_nil

/-- One step of the rebuilding, below some ancestors. -/
def writeLeaf (w : Finset α → Finset α) (a : Finset α) (doJoin : Bool)
    (t : Option (Tree (Finset α))) (path : List Label) (e : Finset α) : Option (Tree (Finset α)) :=
  if e = ∅ then t
  else assignOrJoinPath (plainSet w) (createLeaf e) path doJoin a (optionNodeTree (plainSet w) t)

/-- A run of steps below one label changes the child of this label. -/
theorem foldl_writeLeaf_cons {A : Type u} {k : Label} {e a : Finset α} (doJoin : Bool)
    (path : A → List Label) (element : A → Finset α) (writes : List A) {c : LabelMap (Finset α)}
    (hk : k = .anyIndex → ∀ i, c.find? (.index i) = none) :
    writes.foldl (fun t x => writeLeaf w a doJoin t (k :: path x) (element x))
        (createNodeOption (plainSet w) e c) =
      createNodeOption (plainSet w) e (c.setOrRemove k
        (writes.foldl (fun t x => writeLeaf w (a ∪ e) (doJoin || decide (k = .anyIndex)) t (path x)
          (element x)) (c.find? k))) := by
  induction writes generalizing c with
  | nil =>
    have hsame : c.setOrRemove k (c.find? k) = c := by
      refine SortedMap.ext_find? fun k' => ?_
      rw [SortedMap.find?_setOrRemove]
      split
      · rename_i h
        rw [h]
      · rfl
    rw [List.foldl_nil, List.foldl_nil, hsame]
  | cons x rest ih =>
    rw [List.foldl_cons, List.foldl_cons]
    by_cases hx : element x = ∅
    · have hskip : ∀ a doJoin t path, writeLeaf w a doJoin t path (element x) = t :=
        fun _ _ _ _ => if_pos hx
      rw [hskip, hskip]
      exact ih hk
    · have hwrite : ∀ a doJoin t path, writeLeaf w a doJoin t path (element x) =
          assignOrJoinPath (plainSet w) (createLeaf (element x)) path doJoin a
            (optionNodeTree (plainSet w) t) := fun _ _ _ _ => if_neg hx
      rw [hwrite, hwrite, assignOrJoinPath_cons hk, ih]
      · rw [SortedMap.find?_setOrRemove, if_pos rfl]
        congr 1
        refine SortedMap.ext_find? fun k' => ?_
        rw [SortedMap.find?_setOrRemove, SortedMap.find?_setOrRemove, SortedMap.find?_setOrRemove]
        split <;> rfl
      · intro hany i
        rw [SortedMap.find?_setOrRemove, hany, if_neg (by simp)]
        exact hk hany i

/-- The element at the root is written first, where nothing stands. -/
theorem foldl_writeLeaf_root {f : List Label → Finset α → Finset α} (hf : f [] ∅ = ∅)
    (a e : Finset α) (doJoin : Bool) :
    (if (plainSet w).isBottom e then [] else
      [(⟨[], ∅, e⟩ : PathWithAncestors (Finset α))]).foldl
        (fun t n => writeLeaf w a doJoin t n.path (f n.path n.element)) none =
      createNodeOption (plainSet w) (f [] e \ a) .empty := by
  have hempty : isEmptyTree (plainSet w) (optionNodeTree (plainSet w) none) = true :=
    (isEmptyTree_iff _).mpr ⟨rfl, rfl⟩
  have hnone : createNodeOption (plainSet w) ∅ (.empty : LabelMap (Finset α)) = none := rfl
  by_cases he : e = ∅
  · rw [setElement_isBottom, if_pos (decide_eq_true he), he, hf, Finset.empty_sdiff, hnone]
    rfl
  · rw [setElement_isBottom, if_neg (by simpa using he), List.foldl_cons, List.foldl_nil,
      writeLeaf]
    split
    · rename_i hfe
      rw [hfe, Finset.empty_sdiff, hnone]
    · rw [assignOrJoinPath_empty hempty, bind_createTreeOption_nil, pruneTree_createLeaf,
        filterByAncestors_newElement]

/-- Then the children, one label after the other. No index stands when `[*]` is written: `[*]` is
    the least label. -/
theorem foldl_writeLeaf_children {f : List Label → Finset α → Finset α} {a e : Finset α}
    {doJoin : Bool} (bindings : List (Label × Tree (Finset α))) (c : LabelMap (Finset α))
    (hbelow : ∀ binding ∈ bindings, ∀ a doJoin,
      (nodesFrom (plainSet w) false ∅ [] binding.2).foldl
          (fun t n => writeLeaf w a doJoin t n.path (f (binding.1 :: n.path) n.element)) none =
        pruneTree (plainSet w) a (mapPathElements (fun path => f (binding.1 :: path)) binding.2))
    (hsorted : bindings.Pairwise (·.1 < ·.1))
    (hfresh : ∀ binding ∈ bindings, c.find? binding.1 = none ∧
      (binding.1 = .anyIndex → ∀ i, c.find? (.index i) = none)) :
    (bindings.flatMap fun binding =>
      nodesFrom (plainSet w) false ∅ [binding.1] binding.2).foldl
        (fun t n => writeLeaf w a doJoin t n.path (f n.path n.element))
        (createNodeOption (plainSet w) (f [] e \ a) c) =
      createNodeOption (plainSet w) (f [] e \ a)
        (bindings.foldl (fun c binding => c.setOrRemove binding.1 (pruneTree (plainSet w)
          (a ∪ f [] e) (mapPathElements (fun path => f (binding.1 :: path)) binding.2))) c) := by
  induction bindings generalizing c with
  | nil => rfl
  | cons binding rest ih =>
    rw [List.forall_mem_cons] at hbelow hfresh
    rw [List.pairwise_cons] at hsorted
    obtain ⟨⟨hnone, hany⟩, hfresh⟩ := hfresh
    have hstep : (nodesFrom (plainSet w) false ∅ [binding.1] binding.2).foldl
        (fun t n => writeLeaf w a doJoin t n.path (f n.path n.element))
        (createNodeOption (plainSet w) (f [] e \ a) c) =
      createNodeOption (plainSet w) (f [] e \ a) (c.setOrRemove binding.1 (pruneTree (plainSet w)
        (a ∪ f [] e) (mapPathElements (fun path => f (binding.1 :: path)) binding.2))) := by
      rw [nodesFrom_path, List.foldl_map, ← hbelow.1, ← hnone,
        ← Finset.union_sdiff_self_eq_union]
      exact foldl_writeLeaf_cons doJoin (fun n : PathWithAncestors (Finset α) => n.path)
        (fun n => f (binding.1 :: n.path) n.element) _ hany
    rw [List.flatMap_cons, List.foldl_append, List.foldl_cons, hstep]
    refine ih _ hbelow.2 hsorted.2 fun next hnext => ?_
    have hlt := hsorted.1 next hnext
    refine ⟨?_, fun hanyNext => ?_⟩
    · rw [SortedMap.find?_setOrRemove, if_neg (ne_of_gt hlt)]
      exact (hfresh next hnext).1
    · rw [hanyNext] at hlt
      exact absurd hlt (not_lt_of_ge (Label.anyIndex_le _))

/-- **Rebuilding below ancestors prunes the tree of the new elements.** By induction on the tree;
    the children come in the order of their labels. -/
theorem foldl_writeLeaf_nodes {f : List Label → Finset α → Finset α} (hf : ∀ path, f path ∅ = ∅)
    (t : Tree (Finset α)) (a : Finset α) (doJoin : Bool) :
    (nodesFrom (plainSet w) false ∅ [] t).foldl
        (fun t n => writeLeaf w a doJoin t n.path (f n.path n.element)) none =
      pruneTree (plainSet w) a (mapPathElements f t) := by
  induction t using Tree.induct generalizing f a doJoin with
  | node e c ih =>
    rw [nodesFrom_eq, List.foldl_append, element_node, children_node,
      foldl_writeLeaf_root (hf [])]
    refine (foldl_writeLeaf_children c.bindings .empty
      (fun binding h => ih binding.1 binding.2 (SortedMap.mem_bindings.mp h) fun _ => hf _)
      (SortedMap.sorted_bindings c) fun binding _ => ⟨SortedMap.find?_empty _, fun _ i =>
        SortedMap.find?_empty _⟩).trans ?_
    rw [pruneTree_plain, element_mapPathElements, element_node]
    congr 1
    refine SortedMap.ext_find? fun k => ?_
    have hfold := SortedMap.fold_eq_foldl (fun k s (c' : LabelMap (Finset α)) => c'.setOrRemove k
      (pruneTree (plainSet w) (a ∪ f [] e) (mapPathElements (fun path => f (k :: path)) s)))
      .empty c
    rw [← hfold, SortedMap.find?_fold_setOrRemove, SortedMap.find?_filterMap,
      find?_mapPathElements, children_node]
    cases c.find? k <;> simp

/-- **Writing new elements at their old paths prunes the tree of the new elements.** -/
theorem filterMapTreePaths_path_eq {f : List Label → Finset α → Finset α}
    (hf : ∀ path, f path ∅ = ∅) (t : Tree (Finset α)) :
    filterMapTreePaths (plainSet w) false (fun path _ element => (path, f path element)) t =
      optionNodeTree (plainSet w) (pruneTree (plainSet w) ∅ (mapPathElements f t)) := by
  rw [filterMapTreePaths, foldTreePaths_eq, ← foldl_writeLeaf_nodes hf t ∅ false]
  have hstart : emptyTree (plainSet w) = optionNodeTree (plainSet w) none := rfl
  rw [hstart]
  refine List.foldl_hom (optionNodeTree (plainSet w)) fun written n => ?_
  dsimp only
  rw [writeLeaf, setElement_isBottom]
  by_cases hn : f n.path n.element = ∅
  · rw [if_pos hn, if_pos (decide_eq_true hn)]
  · rw [if_neg hn, if_neg (by simpa using hn)]
    rfl

/-- **Writing the new elements at their old paths prunes the tree of the new elements.** -/
theorem filterMapTreePaths_eq {f : Finset α → Finset α} (hf : f ∅ = ∅) (t : Tree (Finset α)) :
    filterMapTreePaths (plainSet w) false (fun path _ element => (path, f element)) t =
      optionNodeTree (plainSet w) (pruneTree (plainSet w) ∅ (mapElements f t)) := by
  rw [filterMapTreePaths_path_eq (f := fun _ => f) fun _ => hf, mapPathElements_const]

/-! ## 4. Filtering -/

/-- What a path reads is filtered with the elements. -/
theorem taintAt_mapElements_filter (keep : α → Bool) (p : List Label) (t : Tree (Finset α)) :
    taintAt p (mapElements (fun e => e.filter (keep · = true)) t) =
      (taintAt p t).filter (keep · = true) := by
  induction p generalizing t with
  | nil => exact element_mapElements _ t
  | cons k rest ih =>
    have hchild : childAt (mapElements (fun e => e.filter (keep · = true)) t).children k =
        mapElements (fun e => e.filter (keep · = true)) (childAt t.children k) := by
      have hlookup : lookup (mapElements (fun e => e.filter (keep · = true)) t).children k =
          (lookup t.children k).map (mapElements fun e => e.filter (keep · = true)) := by
        cases k with
        | anyIndex => exact find?_mapElements _ _ _
        | field f => exact find?_mapElements _ _ _
        | index i =>
          rw [lookup, lookup, find?_mapElements, find?_mapElements]
          cases t.children.find? (.index i) <;> rfl
      rw [childAt, childAt, hlookup]
      cases lookup t.children k with
      | none => exact (mapElements_createLeaf (fun e : Finset α => e.filter (keep · = true)) ∅).symm
      | some s => rfl
    rw [taintAt_childAt, taintAt_childAt, element_mapElements, hchild, ih, Finset.filter_union]

/-- **A concrete path reads in a filtered tree the members that its redirection reads**: the path
    itself where no index of it vanishes, and then no more than before. -/
theorem read_filter (w : Finset α → Finset α) (keep : α → Bool) (t : Tree (Finset α))
    (p : List Label) (hp : ∀ k ∈ p, k.Concrete) :
    (∃ p', PruneRedirect ∅ (mapElements (SetTransform.filter keep).apply t) p p') ∧
    (∀ p', PruneRedirect ∅ (mapElements (SetTransform.filter keep).apply t) p p' →
      readRoot w p (transformElement (plainSet w) (.filter keep) t) =
        (SetTransform.filter keep).apply (readRoot w p' t)) ∧
    (PruneRedirect ∅ (mapElements (SetTransform.filter keep).apply t) p p →
      readRoot w p (transformElement (plainSet w) (.filter keep) t) ⊆ readRoot w p t) := by
  have hread : ∀ p', PruneRedirect ∅ (mapElements (SetTransform.filter keep).apply t) p p' →
      readRoot w p (transformElement (plainSet w) (.filter keep) t) =
        (SetTransform.filter keep).apply (readRoot w p' t) := by
    intro p' hp'
    have hpruned := taintAt_pruneTree (w := w) hp'
    rw [Finset.empty_union, Finset.empty_union] at hpruned
    rw [readRoot_eq hp, readRoot_eq (hp'.concrete hp), transformElement, filterMapTreePaths_eq rfl,
      hpruned]
    exact taintAt_mapElements_filter keep p' t
  refine ⟨PruneRedirect.exists _ _ _, hread, fun h => ?_⟩
  rw [hread p h]
  exact Finset.filter_subset _ _

/-- The rule at a path without indices, where nothing vanishes. -/
theorem read_filter_field :
    let t : Tree (Finset ℕ) := createTree (plainSet id) [.field "f"] (createLeaf {0, 1})
    (∃ p', PruneRedirect ∅ (mapElements (SetTransform.filter (· == 0)).apply t) [.field "f"] p') ∧
    (∀ p', PruneRedirect ∅ (mapElements (SetTransform.filter (· == 0)).apply t) [.field "f"] p' →
      readRoot id [.field "f"] (transformElement (plainSet id) (.filter (· == 0)) t) =
        (SetTransform.filter (· == 0)).apply (readRoot id p' t)) ∧
    (PruneRedirect ∅ (mapElements (SetTransform.filter (· == 0)).apply t) [.field "f"] [.field "f"] →
      readRoot id [.field "f"] (transformElement (plainSet id) (.filter (· == 0)) t) ⊆
        readRoot id [.field "f"] t) :=
  read_filter id (· == 0) _ _ (by decide)

/-- Filtering adds taint to an index whose own taint it removes beside `[*]`. -/
theorem read_filter_adds :
    let t : Tree (Finset ℕ) := .node ∅
      ((SortedMap.singleton .anyIndex (createLeaf {0})).add (.index "i") (createLeaf {1}))
    isMinimal (plainSet id) ∅ t = true ∧
    readRoot id [.index "i"] t = {1} ∧
    readRoot id [.index "i"] (transformElement (plainSet id) (.filter (· == 0)) t) = {0} := by
  decide +kernel

end Pysa
