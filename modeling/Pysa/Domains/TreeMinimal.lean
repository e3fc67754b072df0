/-
  Subject: EVERY OPERATION KEEPS TREES MINIMAL (`abstractTreeDomain.ml`, `is_minimal` against the
    operations of `TreeAssign`, `TreeRead` and `TreeShape`), for elements that are sets.

  * `pruneTree_minimal`, `joinTrees_minimal` -- pruning and joining make any trees minimal;
  * `assignOrJoinPath_minimal`, `readRawRefined_minimal`, `shapeTree_minimal` -- one lemma for each
    operation; a shape is also disjoint from its ancestors (`DisjointFrom`), which is why shapes
    may be joined without them;
  * `produced_minimal` -- **every tree that a run of the operations produces is bottom or
    minimal**.
-/
import Pysa.Domains.TreeAssign
import Pysa.Domains.TreeRead
import Pysa.Domains.TreeShapeSteps

namespace Pysa

open Pysa.Tree

universe u

variable {α : Type u} [DecidableEq α] {w h : Finset α → Finset α} {sink : Sink α}

/-! ## 1. Minimality below ancestors -/

/-- `is_minimal` below the ancestors. -/
def MinimalUnder (D : Element (Finset α)) (a : Finset α) (t : Tree (Finset α)) : Prop :=
  isMinimal D a t = true

/-- Nothing, or a minimal tree. -/
def OptionMinimal (D : Element (Finset α)) (a : Finset α) (t : Option (Tree (Finset α))) : Prop :=
  ∀ s, t = some s → MinimalUnder D a s

omit [DecidableEq α] in
theorem optionMinimal_none (D : Element (Finset α)) (a : Finset α) : OptionMinimal D a none :=
  fun _ h => nomatch h

omit [DecidableEq α] in
theorem optionMinimal_some {D : Element (Finset α)} {a : Finset α} {t : Tree (Finset α)} :
    OptionMinimal D a (some t) ↔ MinimalUnder D a t := by
  simp [OptionMinimal]

theorem isEmptyTree_iff (t : Tree (Finset α)) :
    isEmptyTree (setElement w sink h) t ↔ t.children = .empty ∧ t.element = ∅ := by
  rw [isEmptyTree, isEmptyInfo, Bool.and_eq_true, SortedMap.isEmpty_iff_eq, setElement_isBottom,
    decide_eq_true_eq]

theorem minimalUnder_iff (a : Finset α) (t : Tree (Finset α)) :
    MinimalUnder (setElement w sink h) a t ↔
      ¬ (t.children = .empty ∧ t.element = ∅) ∧ (t.element = ∅ ∨ ¬ t.element ⊆ a) ∧
      ∀ k s, t.children.find? k = some s →
        MinimalUnder (setElement w sink h) (sink.apply (a ∪ t.element)) s := by
  rw [MinimalUnder, isMinimal_eq, Bool.and_eq_true, Bool.and_eq_true, SortedMap.all_iff,
    and_assoc, Bool.not_eq_true', ← Bool.not_eq_true, isEmptyTree_iff]
  simp only [setElement_isBottom, setElement_lessOrEqual, setElement_transformOnSink,
    setElement_join, Bool.not_eq_true', Bool.and_eq_false_imp, decide_eq_false_iff_not,
    MinimalUnder]
  refine and_congr_right fun _ => and_congr_left fun _ => ?_
  rw [or_iff_not_imp_left]

theorem Sink.apply_mono (sink : Sink α) {a b : Finset α} (hab : a ⊆ b) :
    sink.apply a ⊆ sink.apply b := fun x hx => by
  rw [Sink.mem_apply] at hx ⊢
  exact ⟨hab hx.1, hx.2⟩

theorem Sink.apply_subset (sink : Sink α) (a : Finset α) : sink.apply a ⊆ a := fun x hx =>
  ((Sink.mem_apply sink a x).mp hx).1

/-- Fewer ancestors keep a tree minimal. -/
theorem MinimalUnder.anti {a a' : Finset α} {t : Tree (Finset α)}
    (hm : MinimalUnder (setElement w sink h) a t) (ha : a' ⊆ a) :
    MinimalUnder (setElement w sink h) a' t := by
  induction t using Tree.induct generalizing a a' with
  | node e c ih =>
    rw [minimalUnder_iff] at hm ⊢
    exact ⟨hm.1, hm.2.1.imp_right fun hn hs => hn (hs.trans ha), fun k s hk =>
      ih k s hk (hm.2.2 k s hk) (sink.apply_mono (Finset.union_subset_union_left ha))⟩

/-- A node over minimal children, whose element the ancestors do not cover. -/
theorem createNodeOption_minimal {a e : Finset α} {c : LabelMap (Finset α)}
    (he : e = ∅ ∨ ¬ e ⊆ a)
    (hc : ∀ k, OptionMinimal (setElement w sink h) (sink.apply (a ∪ e)) (c.find? k)) :
    OptionMinimal (setElement w sink h) a (createNodeOption (setElement w sink h) e c) := by
  obtain ⟨hn, -⟩ | ⟨hn, hne⟩ := createNodeOption_cases (setElement w sink h) e c
  · rw [hn]
    exact optionMinimal_none _ _
  · rw [hn, optionMinimal_some, minimalUnder_iff]
    refine ⟨fun hempty => hne ⟨hempty.1, ?_⟩, he, fun k s hk => hc k s hk⟩
    rw [setElement_isBottom, decide_eq_true_eq]
    exact hempty.2

/-- What filtering leaves of an element is a good node over children that are minimal below the
    filtered ancestors. -/
theorem createNodeOption_filter_minimal {a e : Finset α} {c : LabelMap (Finset α)}
    (hc : ∀ k, OptionMinimal (setElement w sink h)
      (filterByAncestors (setElement w sink h) a e).ancestors (c.find? k)) :
    OptionMinimal (setElement w sink h) a (createNodeOption (setElement w sink h)
      (filterByAncestors (setElement w sink h) a e).newElement c) := by
  rw [filterByAncestors_newElement]
  refine createNodeOption_minimal ?_ fun k s hs => (hc k s hs).anti ?_
  · rw [or_iff_not_imp_left]
    intro hne hsub
    obtain ⟨x, hx⟩ := Finset.nonempty_iff_ne_empty.mpr hne
    exact (Finset.mem_sdiff.mp hx).2 (hsub hx)
  · rw [Finset.union_sdiff_self_eq_union, filterByAncestors_ancestors]
    split
    · rename_i hea
      rw [Finset.union_eq_left.mpr hea]
      exact sink.apply_subset a
    · exact Finset.Subset.refl _

/-! ## 2. Pruning and joining -/

/-- **Pruning makes any tree minimal.** -/
theorem pruneTree_minimal (a : Finset α) (t : Tree (Finset α)) :
    OptionMinimal (setElement w sink h) a (pruneTree (setElement w sink h) a t) := by
  induction t using Tree.induct generalizing a with
  | node e c ih =>
    rw [pruneTree_eq]
    refine createNodeOption_filter_minimal fun k => ?_
    rw [children_node, SortedMap.find?_filterMap]
    cases hk : c.find? k with
    | none => exact optionMinimal_none _ _
    | some s => exact ih k s hk _

theorem createLeafOption_minimal (a e : Finset α) :
    OptionMinimal (setElement w sink h) a (createLeafOption (setElement w sink h) a e) := by
  intro s hs
  simp only [createLeafOption, setElement_subtract, setElement_lessOrEqual,
    decide_eq_true_eq] at hs
  split at hs
  · cases hs
  · rename_i hne
    rw [← Option.some.inj hs, minimalUnder_iff]
    exact ⟨fun hempty => hne (hempty.2.subset.trans (Finset.empty_subset a)), Or.inr hne,
      fun k s hk => by simp [createLeaf] at hk⟩

/-- **Joining and widening make any two trees minimal**, by induction on the two depths: an absent
    left child counts as an empty one. -/
theorem joinTrees_minimal (transformOnCollapse : Finset α → Finset α) (a : Finset α)
    (widenDepth : Option Nat) (l r : Tree (Finset α)) :
    OptionMinimal (setElement w sink h) a
      (joinTrees (setElement w sink h) transformOnCollapse a widenDepth l r) := by
  obtain ⟨n, hn⟩ : ∃ n, l.maxDepth + r.maxDepth ≤ n := ⟨_, le_refl _⟩
  induction n using Nat.strong_induction_on generalizing a widenDepth l r with
  | _ n ih =>
    rw [joinTrees]
    split
    · exact createLeafOption_minimal a _
    · refine createNodeOption_filter_minimal fun k => ?_
      generalize (filterByAncestors _ a _).ancestors = a'
      rw [joinChildren_find?]
      have hbound : ∀ {t s : Tree (Finset α)}, lookup t.children k = some s →
          s.maxDepth < t.maxDepth := fun {t s} hs => by
        obtain ⟨k', hk'⟩ := exists_find?_of_lookup hs
        rw [maxDepth_eq t]
        exact lt_childrenDepth hk'
      have hempty : (emptyTree (setElement w sink h)).maxDepth = 0 := maxDepth_node _ _
      split
      · exact optionMinimal_none _ _
      · cases hl : lookup l.children k with
        | none =>
          cases hr : lookup r.children k with
          | none =>
            rw [joinOptionTrees]
            exact optionMinimal_none _ _
          | some r' =>
            have := hbound hr
            rw [joinOptionTrees]
            split
            · exact pruneTree_minimal _ _
            · exact ih (l.maxDepth + r'.maxDepth) (by omega) _ _ _ _ (by omega)
        | some l' =>
          have := hbound hl
          cases hr : lookup r.children k with
          | none =>
            rw [joinOptionTrees]
            exact pruneTree_minimal _ _
          | some r' =>
            have := hbound hr
            rw [joinOptionTrees]
            exact ih (l'.maxDepth + r'.maxDepth) (by omega) _ _ _ _ (le_refl _)

theorem joinOptionTrees_minimal (transformOnCollapse : Finset α → Finset α) (a : Finset α)
    (widenDepth : Option Nat) (l r : Option (Tree (Finset α))) :
    OptionMinimal (setElement w sink h) a
      (joinOptionTrees (setElement w sink h) transformOnCollapse a widenDepth l r) := by
  cases l with
  | none =>
    cases r with
    | none =>
      rw [joinOptionTrees]
      exact optionMinimal_none _ _
    | some r =>
      rw [joinOptionTrees]
      split
      · exact pruneTree_minimal _ _
      · exact joinTrees_minimal _ _ _ _ _
  | some l =>
    cases r with
    | none =>
      rw [joinOptionTrees]
      exact pruneTree_minimal _ _
    | some r =>
      rw [joinOptionTrees]
      exact joinTrees_minimal _ _ _ _ _

/-! ## 3. Assignment -/

/-- Bottom, or minimal below the ancestors. -/
def BottomOrMinimal (D : Element (Finset α)) (a : Finset α) (t : Tree (Finset α)) : Prop :=
  isBottom D t = true ∨ MinimalUnder D a t

theorem bottomOrMinimal_emptyTree (a : Finset α) :
    BottomOrMinimal (setElement w sink h) a (emptyTree (setElement w sink h)) :=
  Or.inl ((isEmptyTree_iff _).mpr ⟨rfl, rfl⟩)

theorem bottomOrMinimal_optionNodeTree {a : Finset α} {t : Option (Tree (Finset α))}
    (ht : OptionMinimal (setElement w sink h) a t) :
    BottomOrMinimal (setElement w sink h) a (optionNodeTree (setElement w sink h) t) := by
  cases t with
  | none => exact bottomOrMinimal_emptyTree a
  | some t => exact Or.inr (ht t rfl)

/-- The children of a minimal tree are minimal below its element. -/
theorem BottomOrMinimal.child {a : Finset α} {t s : Tree (Finset α)} {k : Label}
    (ht : BottomOrMinimal (setElement w sink h) a t) (hk : t.children.find? k = some s) :
    MinimalUnder (setElement w sink h) (sink.apply (a ∪ t.element)) s := by
  rcases ht with ht | ht
  · rw [((isEmptyTree_iff t).mp ht).1, SortedMap.find?_empty] at hk
    cases hk
  · exact ((minimalUnder_iff a t).mp ht).2.2 k s hk

theorem createTreeOption_minimal {a : Finset α} {t : Tree (Finset α)} (path : List Label)
    (ht : MinimalUnder (setElement w sink h) a t) :
    OptionMinimal (setElement w sink h) a (createTreeOption (setElement w sink h) path t) := by
  have hinternal : ∀ (path : List Label) (a : Finset α), MinimalUnder (setElement w sink h) a t →
      MinimalUnder (setElement w sink h) a
        (createTreeOption.createTreeInternal (setElement w sink h) path t) := by
    intro path
    induction path with
    | nil => exact fun _ ha => ha
    | cons k rest ih =>
      intro a ha
      have hrest := ih (sink.apply (a ∪ ∅)) (ha.anti (by
        rw [Finset.union_empty]
        exact sink.apply_subset a))
      rw [createTreeOption.createTreeInternal, minimalUnder_iff]
      refine ⟨fun hempty => ?_, Or.inl rfl, fun k' s hk' => ?_⟩
      · have := congrArg (SortedMap.find? k) hempty.1
        rw [children_node, SortedMap.find?_singleton, if_pos rfl, SortedMap.find?_empty] at this
        cases this
      · rw [children_node, SortedMap.find?_singleton] at hk'
        split at hk'
        · exact Option.some.inj hk' ▸ hrest
        · cases hk'
  unfold createTreeOption
  split
  · exact optionMinimal_none _ _
  · exact optionMinimal_some.mpr (hinternal path a ht)

/-- **Assignment keeps a tree minimal**, whatever tree is assigned: the children keep their
    ancestors, and the assigned tree is pruned below them. -/
theorem assignOrJoinPath_minimal (subtree : Tree (Finset α)) (path : List Label) (doJoin : Bool)
    (a : Finset α) (tree : Tree (Finset α)) (ht : BottomOrMinimal (setElement w sink h) a tree) :
    OptionMinimal (setElement w sink h) a
      (assignOrJoinPath (setElement w sink h) subtree path doJoin a tree) := by
  have hnew : ∀ (path : List Label) (a : Finset α), OptionMinimal (setElement w sink h) a
      ((pruneTree (setElement w sink h) a subtree).bind
        (createTreeOption (setElement w sink h) path)) := by
    intro path a
    cases hp : pruneTree (setElement w sink h) a subtree with
    | none => exact optionMinimal_none _ _
    | some s => exact createTreeOption_minimal path (pruneTree_minimal a subtree s hp)
  induction path generalizing doJoin a tree with
  | nil =>
    rw [assignOrJoinPath]
    split
    · exact hnew [] a
    split
    · exact joinTrees_minimal _ _ _ _ _
    · exact pruneTree_minimal _ _
  | cons k rest ih =>
    rw [assignOrJoinPath]
    split
    · exact hnew (k :: rest) a
    rename_i hne
    have hmin := ht.resolve_left hne
    have hexisting : BottomOrMinimal (setElement w sink h) (sink.apply (a ∪ tree.element))
        (lookupTreeWithDefault (setElement w sink h) tree k) := by
      unfold lookupTreeWithDefault
      cases hk : tree.children.find? k with
      | none => exact bottomOrMinimal_emptyTree _
      | some s => exact Or.inr (ht.child hk)
    have hroot := ((minimalUnder_iff a tree).mp hmin).2.1
    have hset : OptionMinimal (setElement w sink h) a
        (createNodeOption (setElement w sink h) tree.element (tree.children.setOrRemove k
          (assignOrJoinPath (setElement w sink h) subtree rest doJoin
            (sink.apply (a ∪ tree.element))
            (lookupTreeWithDefault (setElement w sink h) tree k)))) := by
      refine createNodeOption_minimal hroot fun k' => ?_
      rw [SortedMap.find?_setOrRemove]
      split
      · exact ih _ _ _ hexisting
      · exact fun s hs => ht.child hs
    cases k with
    | anyIndex =>
      refine createNodeOption_minimal hroot fun k' => ?_
      rw [SortedMap.find?_filterMapi, SortedMap.find?_add]
      split
      · rename_i hk'
        rw [hk', Option.bind_some]
        exact ih _ _ _ hexisting
      · cases hk' : tree.children.find? k' with
        | none => exact optionMinimal_none _ _
        | some s =>
          rw [Option.bind_some]
          cases k' with
          | field f => exact optionMinimal_some.mpr (ht.child hk')
          | anyIndex => exact ih _ _ _ (Or.inr (ht.child hk'))
          | index i => exact ih _ _ _ (Or.inr (ht.child hk'))
    | index i => exact hset
    | field f => exact hset

theorem assignTreePath_minimal {tree : Tree (Finset α)} (path : List Label)
    (subtree : Tree (Finset α)) (ht : BottomOrMinimal (setElement w sink h) ∅ tree) :
    BottomOrMinimal (setElement w sink h) ∅
      (assignTreePath (setElement w sink h) tree path subtree) :=
  bottomOrMinimal_optionNodeTree (assignOrJoinPath_minimal subtree path false ∅ tree ht)

theorem assign_minimal (weak : Bool) {tree : Tree (Finset α)} (path : List Label)
    (subtree : Tree (Finset α)) (ht : BottomOrMinimal (setElement w sink h) ∅ tree) :
    BottomOrMinimal (setElement w sink h) ∅
      (assign (setElement w sink h) weak tree path subtree) := by
  unfold assign joinTreePath
  split
  · split
    · exact ht
    · exact bottomOrMinimal_optionNodeTree (assignOrJoinPath_minimal subtree path true ∅ tree ht)
  · exact assignTreePath_minimal path subtree ht

/-! ## 4. Folds, reads and creation -/

/-- **Induction along a fold over paths.** -/
theorem foldTreePaths_induction {E A : Type u} {D : Element E} {withAncestors : Bool} {init : A}
    {f : List Label → E → E → A → A} (P : A → Prop) (h0 : P init)
    (hs : ∀ path ancestors element acc, P acc → P (f path ancestors element acc)) (t : Tree E) :
    P (foldTreePaths D withAncestors init f t) := by
  have hwalk : ∀ (t : Tree E) (ancestors : E) (path : List Label) (acc : A), P acc →
      P (foldTreePaths.walkChildren D withAncestors f ancestors path t acc) := by
    intro t
    induction t using Tree.induct with
    | node e c ih =>
      intro ancestors path acc hacc
      have hsecond : P (if D.isBottom (Tree.node e c).element then acc
          else f path ancestors (Tree.node e c).element acc) := by
        split
        · exact hacc
        · exact hs _ _ _ _ hacc
      rw [foldTreePaths.walkChildren]
      dsimp only
      by_cases hc : (Tree.node e c).children.isEmpty = true
      · rw [if_pos hc]
        exact hsecond
      · rw [if_neg hc]
        refine SortedMap.fold_induction P hsecond fun k s acc hk hacc => ?_
        exact ih k s.1 (SortedMap.find?_of_attach hk) _ _ _ hacc
  exact hwalk t _ _ _ h0

theorem filterMapTreePaths_minimal (withAncestors : Bool)
    (f : List Label → Finset α → Finset α → List Label × Finset α) (tree : Tree (Finset α)) :
    BottomOrMinimal (setElement w sink h) ∅
      (filterMapTreePaths (setElement w sink h) withAncestors f tree) := by
  refine foldTreePaths_induction _ (bottomOrMinimal_emptyTree ∅) (fun path a e acc hacc => ?_) tree
  dsimp only
  split
  · exact hacc
  · exact assignTreePath_minimal _ _ hacc

theorem createTree_minimal {tree : Tree (Finset α)} (path : List Label)
    (ht : BottomOrMinimal (setElement w sink h) ∅ tree) :
    BottomOrMinimal (setElement w sink h) ∅ (createTree (setElement w sink h) path tree) := by
  rcases ht with ht | ht
  · rw [isBottom] at ht
    rw [createTree, createTreeOption, if_pos ht]
    exact bottomOrMinimal_emptyTree ∅
  · exact bottomOrMinimal_optionNodeTree (createTreeOption_minimal path ht)

theorem create_minimal (parts : List (CreatePart (Finset α))) :
    BottomOrMinimal (setElement w sink h) ∅ (create (setElement w sink h) parts) := by
  have key : ∀ (parts : List (CreatePart (Finset α))) (acc : Tree (Finset α)),
      BottomOrMinimal (setElement w sink h) ∅ acc → BottomOrMinimal (setElement w sink h) ∅
        (parts.foldl (createPath (setElement w sink h)) acc) := by
    intro parts
    induction parts with
    | nil => exact fun _ hacc => hacc
    | cons part parts ih =>
      intro acc hacc
      refine ih _ ?_
      cases part <;> exact assign_minimal true _ _ hacc
  exact key _ _ (bottomOrMinimal_emptyTree ∅)

/-- **A raw read of a minimal tree is minimal** without its ancestors. -/
theorem readRawRefined_minimal (transformNonLeaves : List Label → Finset α → Finset α)
    (usePreciseLabels : Bool) (path : List Label.Refined) (a : Finset α) (tree : Tree (Finset α))
    (ht : BottomOrMinimal (setElement w sink h) ∅ tree) :
    OptionMinimal (setElement w sink h) ∅ (readRawRefined (setElement w sink h)
      transformNonLeaves usePreciseLabels a path tree).2 := by
  induction path generalizing a tree with
  | nil =>
    rw [readRawRefined]
    rcases ht with ht | ht
    · rw [isBottom, isEmptyTree] at ht
      rw [createNodeOption, if_pos ht]
      exact optionMinimal_none _ _
    · exact createNodeOption_minimal ((minimalUnder_iff ∅ tree).mp ht).2.1
        fun k s hk => ((minimalUnder_iff ∅ tree).mp ht).2.2 k s hk
  | cons k rest ih =>
    unfold readRawRefined
    dsimp only
    generalize (if (!(setElement w sink h).isBottom tree.element) = true then _ else a) = a'
    have hchild : ∀ {k s}, tree.children.find? k = some s →
        BottomOrMinimal (setElement w sink h) ∅ s := fun hk =>
      Or.inr ((ht.child hk).anti (Finset.empty_subset _))
    cases k with
    | anyIndex excluded =>
      dsimp only
      split
      · refine SortedMap.fold_induction (fun acc : Finset α × Option (Tree (Finset α)) =>
          OptionMinimal (setElement w sink h) ∅ acc.2) (optionMinimal_none _ _)
          fun k s acc hk hacc => ?_
        cases k with
        | anyIndex => exact joinOptionTrees_minimal _ _ _ _ _
        | index i =>
          dsimp only
          split
          · exact hacc
          · exact joinOptionTrees_minimal _ _ _ _ _
        | field f => exact hacc
      · cases hk : tree.children.find? .anyIndex with
        | none => exact optionMinimal_none _ _
        | some s => exact ih _ s (hchild hk)
    | index i =>
      dsimp only
      cases hk : tree.children.find? (.index i) with
      | some s => exact ih _ s (hchild hk)
      | none =>
        dsimp only
        split
        · cases hs : tree.children.find? .anyIndex with
          | none => exact optionMinimal_none _ _
          | some s => exact ih _ s (hchild hs)
        · exact optionMinimal_none _ _
    | field f =>
      dsimp only
      cases hk : tree.children.find? (.field f) with
      | none => exact optionMinimal_none _ _
      | some s => exact ih _ s (hchild hk)

/-! ## 5. Shaping -/

/-- No element of the tree meets the set. -/
inductive DisjointFrom (b : Finset α) : Tree (Finset α) → Prop
  | node {e : Finset α} {c : LabelMap (Finset α)} (he : Disjoint e b)
      (hc : ∀ k s, c.find? k = some s → DisjointFrom b s) : DisjointFrom b (.node e c)

namespace DisjointFrom

variable {a b : Finset α} {t : Tree (Finset α)}

omit [DecidableEq α] in
theorem element (ht : DisjointFrom b t) : Disjoint t.element b := by
  cases ht with
  | node he _ => exact he

omit [DecidableEq α] in
theorem child (ht : DisjointFrom b t) {k : Label} {s : Tree (Finset α)}
    (hk : t.children.find? k = some s) : DisjointFrom b s := by
  cases ht with
  | node _ hc => exact hc k s hk

omit [DecidableEq α] in
theorem anti (ht : DisjointFrom b t) (hab : a ⊆ b) : DisjointFrom a t := by
  induction ht with
  | node he _ ih => exact .node (he.mono_right hab) ih

theorem createNodeOption {e : Finset α} {c : LabelMap (Finset α)} {s : Tree (Finset α)}
    (he : Disjoint e b) (hc : ∀ k s, c.find? k = some s → DisjointFrom b s)
    (hs : createNodeOption (setElement w sink h) e c = some s) : DisjointFrom b s := by
  obtain ⟨hn, -⟩ | ⟨hn, -⟩ := createNodeOption_cases (setElement w sink h) e c
  · rw [hn] at hs
    cases hs
  · rw [hn, Option.some.injEq] at hs
    exact hs ▸ .node he hc

theorem pruneTree (ht : DisjointFrom b t) {s : Tree (Finset α)}
    (hs : pruneTree (setElement w sink h) a t = some s) : DisjointFrom b s := by
  induction ht generalizing a s with
  | @node e c he _ ih =>
    rw [pruneTree_eq, filterByAncestors_newElement] at hs
    refine createNodeOption (he.mono_left Finset.sdiff_subset) (fun k s hk => ?_) hs
    rw [SortedMap.find?_filterMap] at hk
    obtain ⟨s', hs', hp⟩ := Option.bind_eq_some_iff.mp hk
    exact ih k s' hs' hp

theorem joinTrees {l r s : Tree (Finset α)} (hl : DisjointFrom b l) (hr : DisjointFrom b r)
    (hs : joinTrees (setElement w sink h) id a none l r = some s) : DisjointFrom b s := by
  induction hl generalizing a r s with
  | @node e c he hc ih =>
    rw [Pysa.joinTrees] at hs
    simp only [mustWidenDepth, elementJoin, mustWidenElement, Option.isSome_none,
      Bool.false_eq_true, if_false, decrementWiden, element_node, children_node,
      setElement_join, filterByAncestors_newElement] at hs
    refine createNodeOption (Disjoint.mono_left Finset.sdiff_subset
      (Finset.disjoint_union_left.mpr ⟨he, hr.element⟩)) (fun k s hk => ?_) hs
    rw [joinChildren_find?] at hk
    split at hk
    · cases hk
    have hright : ∀ {r'}, lookup r.children k = some r' → DisjointFrom b r' := fun h => by
      obtain ⟨k', hk'⟩ := exists_find?_of_lookup h
      exact hr.child hk'
    cases hlk : lookup c k with
    | none =>
      cases hrk : lookup r.children k with
      | none =>
        rw [hlk, hrk, joinOptionTrees] at hk
        cases hk
      | some r' =>
        rw [hlk, hrk, joinOptionTrees, if_pos rfl] at hk
        exact (hright hrk).pruneTree hk
    | some l' =>
      obtain ⟨k', hk'⟩ := exists_find?_of_lookup hlk
      cases hrk : lookup r.children k with
      | none =>
        rw [hlk, hrk, joinOptionTrees] at hk
        exact (hc k' l' hk').pruneTree hk
      | some r' =>
        rw [hlk, hrk, joinOptionTrees] at hk
        exact ih k' l' hk' (hright hrk) hk

end DisjointFrom

/-- Ancestors that the tree does not meet may be added. -/
theorem MinimalUnder.add {a b : Finset α} {t : Tree (Finset α)}
    (hm : MinimalUnder (setElement w sink h) b t) (hd : DisjointFrom a t) :
    MinimalUnder (setElement w sink h) (a ∪ b) t := by
  induction hd generalizing b with
  | @node e c he _ ih =>
    rw [minimalUnder_iff] at hm ⊢
    refine ⟨hm.1, hm.2.1.imp_right ?_, ?_⟩
    · intro hn hs
      refine hn fun x hx => ?_
      exact (Finset.mem_union.mp (hs hx)).resolve_left fun hxa =>
        Finset.disjoint_left.mp he hx hxa
    · intro k s hk
      refine (ih k s hk (hm.2.2 k s hk)).anti fun x hx => ?_
      simp only [element_node, Sink.mem_apply, Finset.mem_union] at hx ⊢
      tauto

/-- A minimal tree is not below the empty one. -/
theorem MinimalUnder.not_le_emptyTree {a : Finset α} {t : Tree (Finset α)}
    (hm : MinimalUnder (setElement w sink h) a t) :
    ¬ lessOrEqualTree (setElement w sink h) t ∅ (emptyTree (setElement w sink h)) := by
  induction t using Tree.induct generalizing a with
  | node e c ih =>
    intro hle
    rw [lessOrEqualTree_iff_lookup] at hle
    obtain ⟨he, hc⟩ := hle
    have hbottom : (emptyTree (setElement w sink h)).element = (∅ : Finset α) := rfl
    have hsink : sink.apply (∅ : Finset α) = ∅ := Finset.subset_empty.mp (sink.apply_subset ∅)
    rw [hbottom] at he hc
    simp only [setElement_join, Finset.union_empty, setElement_lessOrEqual, decide_eq_true_eq,
      Finset.subset_empty, setElement_transformOnSink, hsink, element_node, children_node,
      children_emptyTree, lookupTree_empty] at he hc
    rw [minimalUnder_iff] at hm
    have hne : ¬ c.isEmpty = true := fun hempty =>
      hm.1 ⟨SortedMap.isEmpty_iff_eq.mp hempty, he⟩
    obtain ⟨k, s, hk⟩ := SortedMap.exists_of_not_isEmpty hne
    exact ih k s hk (hm.2.2 k s hk) (hc k s (lookup_of_find? hk))

/-- What a shape is: minimal below its ancestors, and disjoint from them. -/
def Shaped (D : Element (Finset α)) (a : Finset α) (t : Tree (Finset α)) : Prop :=
  MinimalUnder D a t ∧ DisjointFrom a t

/-- Two shapes under the same ancestors may be joined without the ancestors. -/
theorem Shaped.join {a : Finset α} {l r : Tree (Finset α)} (phys : PhysEq (Tree (Finset α)))
    (hl : Shaped (setElement w sink h) a l) (hr : Shaped (setElement w sink h) a r) :
    Shaped (setElement w sink h) a (join (setElement w sink h) phys l r) := by
  unfold Pysa.join
  split
  · exact hl
  split
  · exact hr
  cases hj : joinTrees (setElement w sink h) id (setElement w sink h).bottom none l r with
  | none =>
    have hle := (joinTrees_le (setElement_lawful w sink h) (setElement_lawfulSink w sink h) l r
      (sinkClosed_bottom (setElement_lawful w sink h)) ((setElement_lawful w sink h).refl _)).1
    rw [hj] at hle
    exact absurd hle hl.1.not_le_emptyTree
  | some s =>
    have hd : DisjointFrom a s := hl.2.joinTrees hr.2 hj
    have hm := (joinTrees_minimal id ∅ none l r s hj).add hd
    rw [Finset.union_empty] at hm
    exact ⟨hm, hd⟩

/-- The ancestors that a sink transformation keeps whole. -/
def SinkKept (sink : Sink α) (a : Finset α) : Prop := ∀ x ∈ a, sink.Keeps x

theorem sinkKept_filterByAncestors {a : Finset α} (ha : SinkKept sink a) (e : Finset α) :
    SinkKept sink (filterByAncestors (setElement w sink h) a e).ancestors ∧
      a ⊆ (filterByAncestors (setElement w sink h) a e).ancestors := by
  rw [filterByAncestors_ancestors]
  split
  · exact ⟨ha, Finset.Subset.refl a⟩
  · refine ⟨fun x hx => ((Sink.mem_apply sink _ x).mp hx).2, fun x hx => ?_⟩
    rw [Sink.mem_apply, Finset.mem_union]
    exact ⟨Or.inl hx, ha x hx⟩

/-- The entries of a label map are shapes under the ancestors. -/
def ShapedMap (D : Element (Finset α)) (a : Finset α) (c : LabelMap (Finset α)) : Prop :=
  ∀ k s, c.find? k = some s → Shaped D a s

theorem updateShaped_shaped {a : Finset α} (phys : PhysEq (Tree (Finset α))) (key : Label)
    {shaped : Option (Tree (Finset α))} {c : LabelMap (Finset α)}
    (hs : ∀ s, shaped = some s → Shaped (setElement w sink h) a s)
    (hc : ShapedMap (setElement w sink h) a c) :
    ShapedMap (setElement w sink h) a (updateShaped (setElement w sink h) phys key shaped c) := by
  cases shaped with
  | none => exact hc
  | some data =>
    intro k s hk
    rw [updateShaped, SortedMap.find?_update] at hk
    split at hk
    · cases hkey : c.find? key with
      | none =>
        rw [hkey] at hk
        exact Option.some.inj hk ▸ hs data rfl
      | some existing =>
        rw [hkey] at hk
        exact Option.some.inj hk ▸ (hs data rfl).join phys (hc key existing hkey)
    · exact hc k s hk

/-- **A shape is minimal and disjoint from its ancestors**, whatever tree is shaped. -/
theorem shapeTree_shaped (phys : PhysEq (Tree (Finset α))) (transform : Finset α → Finset α)
    (mold left : Tree (Finset α)) {a : Finset α} (ha : SinkKept sink a)
    {result : Option (Tree (Finset α))}
    (hr : shapeTree (setElement w sink h) phys transform a left mold = .ok result) :
    ∀ s, result = some s → Shaped (setElement w sink h) a s := by
  induction mold using Tree.induct generalizing left a result with
  | node e m ih =>
    rw [shapeTree_eq] at hr
    obtain ⟨ha', haa'⟩ := sinkKept_filterByAncestors (w := w) (h := h) ha
      (lifted (setElement w sink h) transform left (.node e m)).1
    have hnode : ∀ c : LabelMap (Finset α), (∀ k, OptionMinimal (setElement w sink h)
          (filterByAncestors (setElement w sink h) a
            (lifted (setElement w sink h) transform left (.node e m)).1).ancestors (c.find? k)) →
        OptionMinimal (setElement w sink h) a (createNodeOption (setElement w sink h)
          (filterByAncestors (setElement w sink h) a
            (lifted (setElement w sink h) transform left (.node e m)).1).newElement c) :=
      fun _ hc => createNodeOption_filter_minimal hc
    have hnew : Disjoint (filterByAncestors (setElement w sink h) a
        (lifted (setElement w sink h) transform left (.node e m)).1).newElement a := by
      rw [filterByAncestors_newElement]
      exact Finset.sdiff_disjoint
    generalize filterByAncestors (setElement w sink h) a
      (lifted (setElement w sink h) transform left (.node e m)).1 = f at hr ha' haa' hnode hnew
    obtain ⟨c, hchildren, hnodeEq⟩ := map_eq_ok_iff.mp hr
    have hc : ShapedMap (setElement w sink h) f.ancestors c := by
      refine shapeChildren_induction (ShapedMap (setElement w sink h) f.ancestors) (fun k s hk => ?_)
        (fun k leftTree moldTree shaped acc _ hmold hshape hacc => ?_) hchildren
      · rw [SortedMap.find?_empty] at hk
        cases hk
      · obtain ⟨k', hk'⟩ := exists_find?_of_lookup hmold
        exact updateShaped_shaped phys _ (ih k' moldTree hk' leftTree ha' hshape) hacc
    intro s hs
    rw [← hnodeEq] at hs
    exact ⟨hnode c (fun k s hk => (hc k s hk).1) s hs,
      .createNodeOption hnew (fun k s hk => (hc k s hk).2.anti haa') hs⟩

/-! ## 6. Runs of operations -/

/-- The trees that public operations produce, starting from bottom and leaves. -/
inductive Produced (D : Element (Finset α)) : Tree (Finset α) → Prop
  | bottom : Produced D (emptyTree D)
  | createLeaf (element : Finset α) : Produced D (createLeaf element)
  | join (phys) {left right} (hl : Produced D left) (hr : Produced D right) :
      Produced D (join D phys left right)
  | widen (maxTreeDepthAfterWidening : Nat) {prev next} (hp : Produced D prev)
      (hn : Produced D next) : Produced D (widen D maxTreeDepthAfterWidening prev next)
  | assign (weak : Bool) {tree subtree} (path : List Label) (ht : Produced D tree)
      (hs : Produced D subtree) : Produced D (assign D weak tree path subtree)
  | read (transformNonLeaves) (path : List Label) {tree} (ht : Produced D tree) :
      Produced D (read D transformNonLeaves path tree)
  | readRefined (transformNonLeaves) (path : List Label.Refined) {tree} (ht : Produced D tree) :
      Produced D (readRefined D transformNonLeaves path tree)
  | readRaw (transformNonLeaves) (usePreciseLabels : Bool) (path : List Label) {tree}
      (ht : Produced D tree) :
      Produced D (readTreeRaw D transformNonLeaves usePreciseLabels path tree).2
  | readRawRefined (transformNonLeaves) (usePreciseLabels : Bool) (path : List Label.Refined)
      {tree} (ht : Produced D tree) :
      Produced D (readTreeRawRefined D transformNonLeaves usePreciseLabels path tree).2
  | collapseTo (transform) (depth : ℤ) {tree result} (ht : Produced D tree)
      (hr : collapseTo D transform depth tree = .ok result) : Produced D result
  | limitTo (transform) {width : ℤ} (hw : 1 ≤ width) {tree result} (ht : Produced D tree)
      (hr : limitTo D transform width tree = .ok result) : Produced D result
  | shape (phys transform) {tree mold result} (ht : Produced D tree) (hm : Produced D mold)
      (hr : shape D phys transform tree mold = .ok result) : Produced D result
  | cutTreeAfter (depth : ℤ) {tree} (ht : Produced D tree) : Produced D (cutTreeAfter D depth tree)
  | prepend (path : List Label) {tree} (ht : Produced D tree) : Produced D (createTree D path tree)
  | create (parts) (hp : ∀ info, .self info ∈ parts → Produced D info) :
      Produced D (create D parts)
  | transformElement (op : SetTransform α) {tree} (ht : Produced D tree) :
      Produced D (transformElement D op tree)
  | transformPath (withAncestors : Bool) (f) {tree} (ht : Produced D tree) :
      Produced D (filterMapTreePaths D withAncestors f tree)

/-- **Minimality is an invariant**: every tree that a run of the operations produces is bottom or
    minimal. -/
theorem produced_minimal {t : Tree (Finset α)} (ht : Produced (setElement w sink h) t) :
    isBottom (setElement w sink h) t ∨ isMinimal (setElement w sink h) ∅ t := by
  have hcollapse : ∀ {transform depth} {tree result : Tree (Finset α)},
      collapseTo (setElement w sink h) transform depth tree = .ok result →
      BottomOrMinimal (setElement w sink h) ∅ result := by
    intro transform depth tree result hr
    unfold collapseTo at hr
    split at hr
    · cases hr
    · rw [← Except.ok.inj hr]
      exact bottomOrMinimal_optionNodeTree (joinTrees_minimal _ _ _ _ _)
  change BottomOrMinimal (setElement w sink h) ∅ t
  induction ht with
  | bottom => exact bottomOrMinimal_emptyTree ∅
  | createLeaf e =>
    by_cases he : e = ∅
    · rw [he]
      exact bottomOrMinimal_emptyTree ∅
    · refine Or.inr ((minimalUnder_iff ∅ _).mpr ⟨fun hempty => he hempty.2, Or.inr fun hs => ?_,
        fun k s hk => by simp [createLeaf] at hk⟩)
      exact he (Finset.subset_empty.mp hs)
  | join phys _ _ ihl ihr =>
    unfold Pysa.join
    split
    · exact ihl
    split
    · exact ihr
    exact bottomOrMinimal_optionNodeTree (joinTrees_minimal _ _ _ _ _)
  | widen depth _ _ _ _ => exact bottomOrMinimal_optionNodeTree (joinTrees_minimal _ _ _ _ _)
  | assign weak path _ _ iht _ => exact assign_minimal weak path _ iht
  | read tr path _ _ => exact bottomOrMinimal_optionNodeTree (joinTrees_minimal _ _ _ _ _)
  | readRefined tr path _ _ => exact bottomOrMinimal_optionNodeTree (joinTrees_minimal _ _ _ _ _)
  | readRaw tr precise path _ iht =>
    exact bottomOrMinimal_optionNodeTree (readRawRefined_minimal tr precise _ _ _ iht)
  | readRawRefined tr precise path _ iht =>
    exact bottomOrMinimal_optionNodeTree (readRawRefined_minimal tr precise _ _ _ iht)
  | collapseTo tr depth _ hr _ => exact hcollapse hr
  | limitTo tr hw _ hr iht =>
    unfold limitTo at hr
    split at hr
    · exact Except.ok.inj hr ▸ iht
    · exact hcollapse hr
  | @shape phys tr tree mold result _ _ hr _ _ =>
    unfold Pysa.shape at hr
    cases hshape : shapeTree (setElement w sink h) phys tr ∅ tree mold with
    | error message =>
      rw [setElement_bottom, hshape] at hr
      cases hr
    | ok shaped =>
      rw [setElement_bottom, hshape] at hr
      rw [← Except.ok.inj hr]
      refine bottomOrMinimal_optionNodeTree fun s hs => ?_
      exact (shapeTree_shaped phys tr mold tree (fun x hx => absurd hx (Finset.notMem_empty x)) hshape
        s hs).1
  | cutTreeAfter depth _ _ => exact filterMapTreePaths_minimal _ _ _
  | prepend path _ iht => exact createTree_minimal path iht
  | create parts _ _ => exact create_minimal parts
  | transformElement op _ _ => exact filterMapTreePaths_minimal _ _ _
  | transformPath withAncestors f _ _ => exact filterMapTreePaths_minimal _ _ _

theorem produced_minimal_widen :
    let D : Element (Finset ℕ) := setElement id (.inter {1}) id
    let t := widen D 4 (createTree D [.anyIndex, .field "f"] (createLeaf {1, 2})) (createLeaf {1})
    isBottom D t ∨ isMinimal D ∅ t :=
  produced_minimal (.widen 4 (.prepend _ (.createLeaf _)) (.createLeaf _))

end Pysa
