/-
  Subject: WIDENING AND LIMITING LOSE NOTHING AND STAY SMALL
    (`abstractTreeDomain.ml`, `collapse_to`, `limit_to` and `widen`).

  * `joinTrees_ge` -- the join that stops at a depth is above both sides, when the transformation
    of the collapsed elements is extensive;
  * `joinTrees_maxDepth` -- **it is no deeper than the left side or the limit**: what the left side
    holds alone is only pruned, everything else is cut at the limit;
  * `widen_bounded` -- widening, once and again and again;
  * `cutLeaves`, `computeMaxDepth_spec` -- the leaves of a tree that is cut at a depth, and the depth
    that `limit_to` finds;
  * `collapseTo_limitTo` -- **`collapse_to` and `limit_to` keep their bounds**.
-/
import Pysa.Domains.TreeAssign
import Pysa.Domains.TreeRead
import Pysa.Domains.TreeShape

namespace Pysa

open Pysa.Tree

universe u

variable {α : Type u} [DecidableEq α] {w : Finset α → Finset α}

/-! ## 1. Two trees that are merged -/

theorem maxDepth_lt_of_lookup {E : Type u} {t s : Tree E} {k : Label}
    (h : lookup t.children k = some s) : s.maxDepth < t.maxDepth := by
  obtain ⟨k', hk'⟩ := exists_find?_of_lookup h
  rw [maxDepth_eq t]
  exact lt_childrenDepth hk'

/-- **Induction on two trees that are merged**: a property holds of two trees once it holds of what
    a label finds in both of them, and of the empty tree and what a label finds on the right alone. -/
theorem mergeInduct {E : Type u} (D : Element E) {motive : Tree E → Tree E → Prop}
    (node : ∀ l r,
      (∀ k l' r', lookup l.children k = some l' → lookup r.children k = some r' → motive l' r') →
      (∀ k r', lookup r.children k = some r' → motive (emptyTree D) r') → motive l r)
    (l r : Tree E) : motive l r := by
  obtain ⟨n, hn⟩ : ∃ n, l.maxDepth + r.maxDepth ≤ n := ⟨_, le_refl _⟩
  induction n using Nat.strong_induction_on generalizing l r with
  | _ n ih =>
    have hempty : (emptyTree D).maxDepth = 0 := maxDepth_node _ _
    refine node l r (fun k l' r' hl hr => ?_) fun k r' hr => ?_
    · have hl' := maxDepth_lt_of_lookup hl
      have hr' := maxDepth_lt_of_lookup hr
      exact ih (l'.maxDepth + r'.maxDepth) (by omega) l' r' (le_refl _)
    · have hr' := maxDepth_lt_of_lookup hr
      exact ih r'.maxDepth (by omega) (emptyTree D) r' (by omega)

/-- A join above the depth at which it stops. -/
theorem joinTrees_of_not_must {E : Type u} (D : Element E) (f : E → E) (a : E)
    {widenDepth : Option Nat} (hmust : mustWidenDepth widenDepth = false) (l r : Tree E) :
    joinTrees D f a widenDepth l r = createNodeOption D
      (filterByAncestors D a (elementJoin D widenDepth l.element r.element)).newElement
      (joinChildren D f
        (filterByAncestors D a (elementJoin D widenDepth l.element r.element)).ancestors
        (decrementWiden widenDepth) l.children r.children) := by
  rw [joinTrees, hmust]
  rfl

/-- A join at the depth at which it stops. -/
theorem joinTrees_of_must {E : Type u} (D : Element E) (f : E → E) (a : E)
    {widenDepth : Option Nat} (hmust : mustWidenDepth widenDepth = true) (l r : Tree E) :
    joinTrees D f a widenDepth l r = createLeafOption D a
      (elementJoin D widenDepth (collapse D f widenDepth l) (collapse D f widenDepth r)) := by
  rw [joinTrees, hmust]
  rfl

/-! ## 2. Collapsing -/

theorem collapseTree_eq {E : Type u} (D : Element E) (f : E → E) (widenDepth : Option Nat)
    (t : Tree E) (acc : E) :
    collapse.collapseTree D f widenDepth t acc =
      t.children.fold (fun _ subtree accumulator =>
          collapse.collapseTree D f widenDepth subtree accumulator)
        (elementJoin D widenDepth acc
          (collapse.transformNonBottom D f (D.transformOnHoist t.element))) := by
  rw [collapse.collapseTree]
  exact SortedMap.attach_fold _ _ _

theorem elementJoin_plain (widenDepth : Option Nat) (a b : Finset α) :
    elementJoin (plainSet w) widenDepth a b = a ∪ b := by
  unfold elementJoin
  split <;> rfl

/-- A transformation that only adds. -/
def Extensive (f : Finset α → Finset α) : Prop := ∀ e, e ⊆ f e

theorem Extensive.nonBottom {f : Finset α → Finset α} (hf : Extensive f) (e : Finset α) :
    e ⊆ collapse.transformNonBottom (plainSet w) f e := by
  unfold collapse.transformNonBottom
  split
  · exact Finset.Subset.refl e
  · exact hf e

/-- Collapsing a tree loses nothing of it. -/
theorem subset_collapseTree {f : Finset α → Finset α} (hf : Extensive f) (widenDepth : Option Nat)
    (t : Tree (Finset α)) (acc : Finset α) :
    acc ⊆ collapse.collapseTree (plainSet w) f widenDepth t acc ∧
      ∀ p, taintAt p t ⊆ collapse.collapseTree (plainSet w) f widenDepth t acc := by
  induction t using Tree.induct generalizing acc with
  | node e c ih =>
    rw [collapseTree_eq, elementJoin_plain, element_node, children_node]
    have hkeep : ∀ {s : Finset α}, s ⊆ acc ∪ collapse.transformNonBottom (plainSet w) f e →
        s ⊆ c.fold (fun _ subtree accumulator =>
            collapse.collapseTree (plainSet w) f widenDepth subtree accumulator)
          (acc ∪ collapse.transformNonBottom (plainSet w) f e) := fun {s} hs =>
      SortedMap.fold_induction (s ⊆ ·) hs fun k t' acc' hk hacc => hacc.trans (ih k t' hk acc').1
    have helement : e ⊆ acc ∪ collapse.transformNonBottom (plainSet w) f e :=
      (hf.nonBottom e).trans Finset.subset_union_right
    refine ⟨hkeep Finset.subset_union_left, fun p => ?_⟩
    cases p with
    | nil => exact hkeep helement
    | cons k rest =>
      refine Finset.union_subset (hkeep helement) ?_
      rw [children_node]
      cases hk : lookup c k with
      | none => exact Finset.empty_subset _
      | some t' =>
        obtain ⟨k', hk'⟩ := exists_find?_of_lookup hk
        exact SortedMap.fold_establishes (taintAt rest t' ⊆ ·) hk'
          (fun acc' => (ih k' t' hk' acc').2 rest)
          fun k t'' acc' hk hacc => hacc.trans (ih k t'' hk acc').1

theorem subset_collapse {f : Finset α → Finset α} (hf : Extensive f) (widenDepth : Option Nat)
    (t : Tree (Finset α)) (p : List Label) :
    taintAt p t ⊆ collapse (plainSet w) f widenDepth t := by
  have hcollapse := subset_collapseTree (w := w) hf widenDepth
    (.node (plainSet w).bottom t.children) t.element
  cases p with
  | nil => exact hcollapse.1
  | cons k rest =>
    refine Finset.union_subset hcollapse.1 ?_
    refine Finset.Subset.trans ?_ (hcollapse.2 (k :: rest))
    exact Finset.subset_union_right

/-- The leaf that a collapse leaves is above all that the ancestors do not hold. -/
theorem le_createLeafOption {a ra e : Finset α} (hra : a ⊆ ra) {t : Tree (Finset α)}
    (ht : ∀ p, taintAt p t ⊆ e) :
    lessOrEqualTree (plainSet w) t ra
      (optionNodeTree (plainSet w) (createLeafOption (plainSet w) a e)) := by
  rw [lessOrEqualTree_iff_taintAt]
  intro p _
  refine (ht p).trans fun x hx => ?_
  unfold createLeafOption
  simp only [setElement_subtract, setElement_lessOrEqual, decide_eq_true_eq]
  by_cases hxa : x ∈ a
  · exact Finset.mem_union_left _ (hra hxa)
  · have hdiff : x ∈ e \ a := Finset.mem_sdiff.mpr ⟨hx, hxa⟩
    rw [if_neg fun h => hxa (h hdiff)]
    exact Finset.mem_union_right _ (element_subset_taintAt p _ hdiff)

/-! ## 3. The join that stops at a depth is above both sides -/

theorem joinTrees_ge {f : Finset α → Finset α} (hf : Extensive f) (l r : Tree (Finset α))
    (widenDepth : Option Nat) {a ra : Finset α} (hra : a ⊆ ra) :
    lessOrEqualTree (plainSet w) l ra
        (optionNodeTree (plainSet w) (joinTrees (plainSet w) f a widenDepth l r)) ∧
      lessOrEqualTree (plainSet w) r ra
        (optionNodeTree (plainSet w) (joinTrees (plainSet w) f a widenDepth l r)) := by
  have L := setElement_lawful w .identity id
  have S := setElement_lawfulSink w .identity id
  induction l, r using mergeInduct (plainSet w) generalizing widenDepth a ra with
  | node l r ihboth ihright =>
    cases hmust : mustWidenDepth widenDepth with
    | true =>
      rw [joinTrees_of_must _ _ _ hmust, elementJoin_plain]
      exact ⟨le_createLeafOption hra fun p =>
          (subset_collapse hf widenDepth l p).trans Finset.subset_union_left,
        le_createLeafOption hra fun p =>
          (subset_collapse hf widenDepth r p).trans Finset.subset_union_right⟩
    | false =>
      have hclosed : SinkClosed (plainSet w) a := L.refl a
      have hle : (plainSet w).lessOrEqual a ra = true := decide_eq_true hra
      obtain ⟨he, -, hanc⟩ := filterByAncestors_spec L S hclosed hle
        (elementJoin (plainSet w) widenDepth l.element r.element)
      rw [joinTrees_of_not_must _ _ _ hmust]
      generalize filterByAncestors (plainSet w) a
        (elementJoin (plainSet w) widenDepth l.element r.element) = filtered at he hanc ⊢
      rw [elementJoin_plain] at he
      have hanc' := of_decide_eq_true hanc
      have hchild : ∀ k t, (lookup l.children k = some t ∨ lookup r.children k = some t) →
          lessOrEqualTree (plainSet w) t (ra ∪ filtered.newElement)
            (optionNodeTree (plainSet w) (joinOptionTrees (plainSet w) f filtered.ancestors
              (decrementWiden widenDepth) (lookup l.children k) (lookup r.children k))) := by
        intro k t
        exact le_joinOptionTrees (fun t => prune_le L S t (L.refl _) hanc)
          (fun l' r' hl hr => ihboth k l' r' hl hr (decrementWiden widenDepth) hanc')
          fun r' _ hr => (ihright k r' hr (decrementWiden widenDepth) hanc').2
      constructor
      · refine lessOrEqualTree_createNodeOption L S ((lessOrEqualTree_iff_lookup _ _ _ _).mpr
          ⟨L.trans (L.le_join_left _ _) he, fun k t ht => ?_⟩)
        exact lookupTree_joinChildren L S (hchild k t (Or.inl ht))
      · refine lessOrEqualTree_createNodeOption L S ((lessOrEqualTree_iff_lookup _ _ _ _).mpr
          ⟨L.trans (L.le_join_right _ _) he, fun k t ht => ?_⟩)
        exact lookupTree_joinChildren L S (hchild k t (Or.inr ht))

/-! ## 4. The depth -/

section Depth

variable {E : Type u} {D : Element E}

/-- What is created over children that stay below a depth stays below it. -/
theorem optionDepth_createNodeOption {e : E} {c : LabelMap E} {n : ℕ}
    (hc : ∀ k t, c.find? k = some t → t.maxDepth < n) :
    optionDepth (createNodeOption D e c) ≤ n + 1 := by
  obtain ⟨h, -⟩ | ⟨h, -⟩ := createNodeOption_cases D e c <;> rw [h]
  · exact Nat.zero_le _
  · rw [optionDepth, maxDepth_node]
    exact Nat.succ_le_succ (childrenDepth_le hc)

theorem optionDepth_createLeafOption (a e : E) (n : ℕ) :
    optionDepth (createLeafOption D a e) ≤ n + 1 := by
  unfold createLeafOption
  dsimp only
  split
  · exact Nat.zero_le _
  · have hleaf : (createLeaf (D.subtract a e)).maxDepth = 0 := maxDepth_node _ _
    rw [optionDepth, hleaf]
    exact Nat.succ_le_succ (Nat.zero_le n)

theorem optionDepth_pruneTree (a : E) (t : Tree E) :
    optionDepth (pruneTree D a t) ≤ t.maxDepth + 1 := by
  induction t using Tree.induct generalizing a with
  | node e c ih =>
    rw [pruneTree_eq]
    refine optionDepth_createNodeOption fun k t hk => ?_
    rw [SortedMap.find?_filterMap] at hk
    obtain ⟨t', ht', hprune⟩ := Option.bind_eq_some_iff.mp hk
    have hdepth := ih k t' ht' (filterByAncestors D a e).ancestors
    rw [element_node] at hprune
    rw [hprune, optionDepth] at hdepth
    have hlt := lt_childrenDepth (c := c) ht'
    rw [maxDepth_node]
    omega

/-- A bound on the entries of merged children. -/
theorem maxDepth_of_joinChildren {f : E → E} {a : E} {widenDepth : Option ℕ} {lc rc : LabelMap E}
    {n : ℕ} (h : ∀ k, optionDepth
      (joinOptionTrees D f a widenDepth (lookup lc k) (lookup rc k)) ≤ n) {k : Label} {t : Tree E}
    (hk : (joinChildren D f a widenDepth lc rc).find? k = some t) : t.maxDepth < n := by
  rw [joinChildren_find?] at hk
  split at hk
  · cases hk
  · have hdepth := h k
    rw [hk] at hdepth
    exact hdepth

/-- **A join that stops at a depth is no deeper than the left side or this depth.** -/
theorem joinTrees_maxDepth (f : E → E) (l r : Tree E) (a : E) (depth : ℕ) :
    optionDepth (joinTrees D f a (some depth) l r) ≤ max l.maxDepth depth + 1 := by
  induction l, r using mergeInduct D generalizing a depth with
  | node l r ihboth ihright =>
    cases depth with
    | zero =>
      rw [joinTrees_of_must _ _ _ rfl]
      exact optionDepth_createLeafOption _ _ _
    | succ depth =>
      rw [joinTrees_of_not_must _ _ _ rfl]
      refine optionDepth_createNodeOption fun k t hk => maxDepth_of_joinChildren ?_ hk
      intro k
      cases hl : lookup l.children k with
      | some l' =>
        have hlt := maxDepth_lt_of_lookup hl
        cases hr : lookup r.children k with
        | some r' =>
          have hboth := ihboth k l' r' hl hr
            (filterByAncestors D a
              (elementJoin D (some (depth + 1)) l.element r.element)).ancestors depth
          rw [joinOptionTrees]
          exact hboth.trans (by omega)
        | none =>
          rw [joinOptionTrees]
          exact (optionDepth_pruneTree _ l').trans (by omega)
      | none =>
        cases hr : lookup r.children k with
        | some r' =>
          have hempty : (emptyTree D).maxDepth = 0 := maxDepth_node _ _
          have hright := ihright k r' hr
            (filterByAncestors D a
              (elementJoin D (some (depth + 1)) l.element r.element)).ancestors depth
          rw [joinOptionTrees, if_neg (by simp [decrementWiden])]
          exact hright.trans (by omega)
        | none =>
          rw [joinOptionTrees]
          exact Nat.zero_le _

end Depth

/-! ## 5. Widening -/

/-- `widen` of the domain, which does not look at the iteration. -/
def Domain.widen {E : Type u} (D : Element E) (maxTreeDepthAfterWidening : ℕ) (_iteration : ℕ)
    (prev next : Tree E) : Tree E :=
  Pysa.widen D maxTreeDepthAfterWidening prev next

theorem maxDepth_optionNodeTree {E : Type u} {D : Element E} {t : Option (Tree E)} {n : ℕ}
    (h : optionDepth t ≤ n + 1) : (optionNodeTree D t).maxDepth ≤ n := by
  cases t with
  | none =>
    have hempty : (emptyTree D).maxDepth = 0 := maxDepth_node _ _
    rw [optionNodeTree, hempty]
    exact Nat.zero_le n
  | some t => exact Nat.le_of_succ_le_succ h

theorem widen_maxDepth {E : Type u} (D : Element E) (maxDepth iteration : ℕ) (prev next : Tree E) :
    (Domain.widen D maxDepth iteration prev next).maxDepth ≤ max prev.maxDepth maxDepth :=
  maxDepth_optionNodeTree (joinTrees_maxDepth _ prev next _ maxDepth)

/-- **Widening bounds the growth of trees**: it is above both trees, no deeper than the previous
    one or the configured depth, and so is every sequence of widenings. -/
theorem widen_bounded (hw : Extensive w) (maxDepth : ℕ) :
    (∀ (iteration : ℕ) (prev next : Tree (Finset α)),
      lessOrEqual (plainSet w) prev (Domain.widen (plainSet w) maxDepth iteration prev next) ∧
      lessOrEqual (plainSet w) next (Domain.widen (plainSet w) maxDepth iteration prev next) ∧
      (Domain.widen (plainSet w) maxDepth iteration prev next).maxDepth ≤
        max prev.maxDepth maxDepth) ∧
    ∀ (start : Tree (Finset α)) (nexts : List (ℕ × Tree (Finset α))),
      (nexts.foldl (fun prev next => Domain.widen (plainSet w) maxDepth next.1 prev next.2)
        start).maxDepth ≤ max start.maxDepth maxDepth := by
  refine ⟨fun iteration prev next => ?_, fun start nexts => ?_⟩
  · obtain ⟨hprev, hnext⟩ := joinTrees_ge (w := w) hw prev next (some maxDepth)
      (Finset.Subset.refl ∅)
    exact ⟨hprev, hnext, widen_maxDepth _ maxDepth iteration prev next⟩
  · induction nexts generalizing start with
    | nil => exact le_max_left _ _
    | cons next rest ih =>
      have hstep := widen_maxDepth (plainSet w) maxDepth next.1 start next.2
      exact (ih _).trans (max_le hstep (le_max_right _ _))

theorem widen_bounded_addsBreadcrumb :
    let D := plainSet (insert (0 : ℕ))
    let prev := createTree D [.anyIndex, .field "f"] (createLeaf {1})
    let next := createTree D [.index "i", .field "f", .field "g"] (createLeaf {2})
    (lessOrEqual D prev (Domain.widen D 2 1 prev next) ∧
      lessOrEqual D next (Domain.widen D 2 1 prev next) ∧
      (Domain.widen D 2 1 prev next).maxDepth ≤ max prev.maxDepth 2) ∧
    ([(1, next), (2, prev)].foldl (fun prev next => Domain.widen D 2 next.1 prev next.2)
      prev).maxDepth ≤ max prev.maxDepth 2 :=
  ⟨(widen_bounded (fun e => Finset.subset_insert 0 e) 2).1 _ _ _,
    (widen_bounded (fun e => Finset.subset_insert 0 e) 2).2 _ _⟩

/-! ## 6. The leaves -/

section Leaves

variable {E : Type u} {D : Element E}

/-- The number of nodes without a child. -/
def leaves : Tree E → ℕ
  | .node _ ⟨keys, _, get⟩ =>
    if keys.isEmpty then 1 else keys.attach.foldl (fun total k => leaves (get k) + total) 0

theorem leaves_eq (t : Tree E) :
    leaves t = if t.children.isEmpty then 1 else t.children.sum leaves := by
  obtain ⟨e, ⟨keys, sorted, get⟩⟩ := t
  rw [leaves]
  rfl

/-- The number of leaves of the tree that is cut at a depth. -/
def cutLeaves : ℕ → Tree E → ℕ
  | 0, _ => 1
  | depth + 1, t => if t.children.isEmpty then 1 else t.children.sum (cutLeaves depth)

theorem leaves_pos (t : Tree E) : 0 < leaves t := by
  induction t using Tree.induct with
  | node e c ih =>
    rw [leaves_eq]
    split
    · exact Nat.one_pos
    · rename_i hc
      obtain ⟨k, t', hk⟩ := SortedMap.exists_of_not_isEmpty hc
      exact lt_of_lt_of_le (ih k t' hk) (SortedMap.le_sum hk leaves)

theorem cutLeaves_pos (depth : ℕ) (t : Tree E) : 0 < cutLeaves depth t := by
  induction depth generalizing t with
  | zero => exact Nat.one_pos
  | succ depth ih =>
    rw [cutLeaves]
    split
    · exact Nat.one_pos
    · rename_i hc
      obtain ⟨k, t', hk⟩ := SortedMap.exists_of_not_isEmpty hc
      exact lt_of_lt_of_le (ih t') (SortedMap.le_sum hk _)

/-- Children under fewer labels, each with fewer leaves, and the node itself. -/
theorem leaves_node_le {e : E} {c c' : LabelMap E} {f : Tree E → ℕ}
    (hpos : ∀ t, 0 < f t)
    (h : ∀ k t, c.find? k = some t → ∃ t', c'.find? k = some t' ∧ leaves t ≤ f t') :
    leaves (.node e c) ≤ if c'.isEmpty then 1 else c'.sum f := by
  rw [leaves_eq, children_node]
  split
  · split
    · exact le_refl 1
    · rename_i hc'
      obtain ⟨k, t', hk⟩ := SortedMap.exists_of_not_isEmpty hc'
      exact (hpos t').trans_le (SortedMap.le_sum hk f)
  · rename_i hc
    obtain ⟨k, t, hk⟩ := SortedMap.exists_of_not_isEmpty hc
    obtain ⟨t', ht', -⟩ := h k t hk
    have hc' : ¬ c'.isEmpty = true := fun hempty => by
      rw [SortedMap.isEmpty_iff.mp hempty k] at ht'
      cases ht'
    rw [if_neg hc']
    exact SortedMap.sum_le_sum h

/-- A tree that is joined with itself up to a depth has no more leaves, and is no deeper, than the
    tree that is cut there. -/
theorem joinTrees_self (f : E → E) (depth : ℕ) (t : Tree E) (a : E) {s : Tree E}
    (hs : joinTrees D f a (some depth) t t = some s) :
    leaves s ≤ cutLeaves depth t ∧ s.maxDepth ≤ depth := by
  induction depth generalizing t a s with
  | zero =>
    rw [joinTrees_of_must _ _ _ rfl, createLeafOption] at hs
    split at hs
    · cases hs
    · rw [← Option.some.inj hs, leaves_eq, maxDepth_eq]
      exact ⟨le_refl 1, le_refl 0⟩
  | succ depth ih =>
    rw [joinTrees_of_not_must _ _ _ rfl] at hs
    obtain ⟨hnone, -⟩ | ⟨hsome, -⟩ := createNodeOption_cases D
      (filterByAncestors D a (elementJoin D (some (depth + 1)) t.element t.element)).newElement
      (joinChildren D f
        (filterByAncestors D a (elementJoin D (some (depth + 1)) t.element t.element)).ancestors
        (decrementWiden (some (depth + 1))) t.children t.children)
    · rw [hnone] at hs
      cases hs
    · rw [hsome, Option.some.injEq] at hs
      subst hs
      have hchild : ∀ k s, (joinChildren D f
          (filterByAncestors D a (elementJoin D (some (depth + 1)) t.element t.element)).ancestors
          (decrementWiden (some (depth + 1))) t.children t.children).find? k = some s →
          ∃ t', t.children.find? k = some t' ∧ leaves s ≤ cutLeaves depth t' ∧
            s.maxDepth ≤ depth := by
        intro k s hk
        rw [joinChildren_find?] at hk
        split at hk
        · cases hk
        · rename_i hne
          obtain ⟨t', ht'⟩ := Option.ne_none_iff_exists'.mp fun h => hne ⟨h, h⟩
          rw [lookup_of_find? ht', joinOptionTrees] at hk
          exact ⟨t', ht', ih t' _ hk⟩
      refine ⟨leaves_node_le (cutLeaves_pos depth) fun k s hk => ?_, ?_⟩
      · obtain ⟨t', ht', hle, -⟩ := hchild k s hk
        exact ⟨t', ht', hle⟩
      · rw [maxDepth_node]
        refine childrenDepth_le fun k s hk => ?_
        obtain ⟨t', -, -, hdepth⟩ := hchild k s hk
        exact Nat.lt_succ_of_le hdepth

end Leaves

/-! ## 7. The depth that `limit_to` finds -/

section Limit

variable {E : Type u}

/-- A number of a forest. -/
def rootsSum (f : Tree E → ℕ) (roots : List (Tree E)) : ℕ :=
  roots.foldr (fun t total => f t + total) 0

theorem rootsSum_nil (f : Tree E → ℕ) : rootsSum f [] = 0 := rfl

theorem rootsSum_cons (f : Tree E → ℕ) (t : Tree E) (rest : List (Tree E)) :
    rootsSum f (t :: rest) = f t + rootsSum f rest := rfl

theorem length_le_rootsSum {f : Tree E → ℕ} (hpos : ∀ t, 0 < f t) (roots : List (Tree E)) :
    roots.length ≤ rootsSum f roots := by
  induction roots with
  | nil => exact le_refl 0
  | cons t rest ih =>
    have ht := hpos t
    rw [rootsSum_cons, List.length_cons]
    omega

theorem rootsSum_cutLeaves_zero (roots : List (Tree E)) :
    rootsSum (cutLeaves 0) roots = roots.length := by
  induction roots with
  | nil => rfl
  | cons t rest ih =>
    rw [rootsSum_cons, List.length_cons, ← ih, cutLeaves]
    omega

/-- The leaves among the roots and the children of the others: a number that counts a leaf as one
    and adds up the children of any other tree is counted on. -/
theorem splitLeaves_sum (f g : Tree E → ℕ)
    (hf : ∀ t : Tree E, f t = if t.children.isEmpty then 1 else t.children.sum g)
    (roots : List (Tree E)) :
    (rootsSum f roots : ℤ) = (splitLeaves roots).1 + rootsSum g (splitLeaves roots).2 := by
  have hcons : ∀ (c : LabelMap E) (acc : List (Tree E)),
      rootsSum g (c.fold (fun _ data roots => data :: roots) acc) = c.sum g + rootsSum g acc := by
    intro c acc
    unfold SortedMap.sum SortedMap.fold
    have hlist : ∀ (keys : List {k // k ∈ c.keys}) (acc : List (Tree E)) (total : ℕ),
        rootsSum g (keys.foldl (fun roots k => c.get k :: roots) acc) + total =
          keys.foldl (fun total k => g (c.get k) + total) total + rootsSum g acc := by
      intro keys
      induction keys with
      | nil => exact fun acc total => Nat.add_comm _ _
      | cons k keys ih =>
        intro acc total
        rw [List.foldl_cons, List.foldl_cons]
        have hstep := ih (c.get k :: acc) total
        have htotal := ih (c.get k :: acc) (g (c.get k) + total)
        rw [rootsSum_cons] at hstep htotal
        omega
    exact hlist c.keys.attach acc 0
  have hroots : ∀ (roots : List (Tree E)) (acc : ℤ × List (Tree E)),
      ((roots.foldl (fun accumulator tree =>
        if tree.children.isEmpty then (accumulator.1 + 1, accumulator.2)
        else (accumulator.1, tree.children.fold (fun _ data roots => data :: roots)
          accumulator.2)) acc).1 +
        rootsSum g (roots.foldl (fun accumulator tree =>
          if tree.children.isEmpty then (accumulator.1 + 1, accumulator.2)
          else (accumulator.1, tree.children.fold (fun _ data roots => data :: roots)
            accumulator.2)) acc).2 : ℤ) = rootsSum f roots + (acc.1 + rootsSum g acc.2) := by
    intro roots
    induction roots with
    | nil =>
      intro acc
      rw [List.foldl_nil, rootsSum_nil]
      omega
    | cons t rest ih =>
      intro acc
      rw [List.foldl_cons, ih, rootsSum_cons, hf t]
      split
      · push_cast
        omega
      · dsimp only
        rw [hcons]
        push_cast
        omega
  have hall := hroots roots (0, [])
  rw [rootsSum_nil] at hall
  unfold splitLeaves
  omega

theorem splitLeaves_fst_le (roots : List (Tree E)) : (splitLeaves roots).1 ≤ roots.length := by
  have hroots : ∀ (roots : List (Tree E)) (acc : ℤ × List (Tree E)),
      (roots.foldl (fun accumulator tree =>
        if tree.children.isEmpty then (accumulator.1 + 1, accumulator.2)
        else (accumulator.1, tree.children.fold (fun _ data roots => data :: roots)
          accumulator.2)) acc).1 ≤ roots.length + acc.1 := by
    intro roots
    induction roots with
    | nil => exact fun acc => by simp
    | cons t rest ih =>
      intro acc
      rw [List.foldl_cons, List.length_cons]
      refine (ih _).trans ?_
      split
      · push_cast
        omega
      · push_cast
        omega
  have hall := hroots roots (0, [])
  rw [add_zero] at hall
  exact hall

/-- A forest within the limit is left as it is; else the found depth is one above the first level
    that does not fit, and the forest that is cut there is within the limit. -/
theorem computeMaxDepth_spec (depth leavesLeft : ℤ) (roots : List (Tree E))
    (hleft : 0 ≤ leavesLeft) :
    ((rootsSum leaves roots : ℤ) ≤ leavesLeft ↔
      computeMaxDepth depth leavesLeft roots = none) ∧
    ∀ found, computeMaxDepth depth leavesLeft roots = some found →
      (found = depth - 1 ∧ leavesLeft < roots.length) ∨
        ∃ n : ℕ, found = depth + n ∧ (rootsSum (cutLeaves n) roots : ℤ) ≤ leavesLeft := by
  induction depth, leavesLeft, roots using computeMaxDepth.induct with
  | case1 depth leavesLeft =>
    rw [computeMaxDepth, dif_pos rfl]
    exact ⟨⟨fun _ => rfl, fun _ => hleft⟩, fun found h => by cases h⟩
  | case2 depth leavesLeft roots hroots hlt =>
    rw [computeMaxDepth, dif_neg hroots, if_pos hlt]
    have hlength := length_le_rootsSum leaves_pos roots
    refine ⟨⟨fun h => absurd hlt (by omega), fun h => by cases h⟩, fun found h => ?_⟩
    exact Or.inl ⟨(Option.some.inj h).symm, hlt⟩
  | case3 depth leavesLeft roots hroots hlt parts ih =>
    have hleaves := splitLeaves_sum leaves leaves leaves_eq roots
    have hcut := fun n => splitLeaves_sum (cutLeaves (n + 1)) (cutLeaves n)
      (fun t => by rw [cutLeaves]) roots
    have hfst := splitLeaves_fst_le roots
    rw [computeMaxDepth, dif_neg hroots, if_neg hlt]
    have hnext : 0 ≤ leavesLeft - (splitLeaves roots).1 := by omega
    obtain ⟨hnone, hsome⟩ := ih hnext
    refine ⟨Iff.trans ?_ hnone, fun found h => Or.inr ?_⟩
    · rw [hleaves]
      exact le_sub_iff_add_le'.symm
    · rcases hsome found h with ⟨hfound, -⟩ | ⟨n, hfound, hle⟩
      · refine ⟨0, by omega, ?_⟩
        rw [rootsSum_cutLeaves_zero]
        omega
      · refine ⟨n + 1, by push_cast; omega, ?_⟩
        rw [hcut n]
        exact le_sub_iff_add_le'.mp hle

end Limit

/-! ## 8. Collapsing and limiting -/

theorem collapseTo_spec {f : Finset α → Finset α} (hf : Extensive f) (depth : ℕ)
    (t : Tree (Finset α)) : ∃ s, collapseTo (plainSet w) f depth t = .ok s ∧
      lessOrEqual (plainSet w) t s ∧ s.maxDepth ≤ depth ∧ leaves s ≤ cutLeaves depth t := by
  refine ⟨_, if_neg (by omega), ?_⟩
  rw [Int.toNat_natCast]
  refine ⟨(joinTrees_ge hf t t (some depth) (Finset.Subset.refl ∅)).1, ?_⟩
  cases hs : joinTrees (plainSet w) f (plainSet w).bottom (some depth) t t with
  | none =>
    rw [optionNodeTree, leaves_eq, maxDepth_eq]
    exact ⟨Nat.zero_le depth, cutLeaves_pos depth t⟩
  | some s =>
    obtain ⟨hleaves, hdepth⟩ := joinTrees_self f depth t _ hs
    exact ⟨hdepth, hleaves⟩

/-- **Limiting the depth and the width is sound and effective**: nothing is lost, the bounds are
    kept, a tree within the width stays as it is, and no negative depth is ever asked for. -/
theorem collapseTo_limitTo {f : Finset α → Finset α} (hf : Extensive f) (t : Tree (Finset α)) :
    (∀ depth : ℤ, 0 ≤ depth → ∃ s, collapseTo (plainSet w) f depth t = .ok s ∧
      (s.maxDepth : ℤ) ≤ depth ∧ lessOrEqual (plainSet w) t s) ∧
    ∀ width : ℤ, 1 ≤ width → ∃ s, limitTo (plainSet w) f width t = .ok s ∧
      (leaves s : ℤ) ≤ width ∧ lessOrEqual (plainSet w) t s ∧
      ((leaves t : ℤ) ≤ width → s = t) := by
  refine ⟨fun depth hdepth => ?_, fun width hwidth => ?_⟩
  · obtain ⟨n, rfl⟩ := Int.eq_ofNat_of_zero_le hdepth
    obtain ⟨s, hs, hle, hmax, -⟩ := collapseTo_spec (w := w) hf n t
    exact ⟨s, hs, Int.ofNat_le.mpr hmax, hle⟩
  · have hroot : ∀ g : Tree (Finset α) → ℕ, rootsSum g [t] = g t := fun g => Nat.add_zero _
    obtain ⟨hfits, hfound⟩ := computeMaxDepth_spec 0 width [t] (by omega)
    rw [hroot] at hfits
    unfold limitTo
    cases hcompute : computeMaxDepth 0 width [t] with
    | none =>
      exact ⟨t, rfl, hfits.mpr hcompute, lessOrEqualTree_refl (setElement_lawful _ _ _) t _,
        fun _ => rfl⟩
    | some depth =>
      rcases hfound depth hcompute with ⟨-, hlt⟩ | ⟨n, hdepth, hcut⟩
      · rw [List.length_singleton] at hlt
        omega
      · rw [zero_add] at hdepth
        subst hdepth
        obtain ⟨s, hs, hle, -, hleaves⟩ := collapseTo_spec (w := w) hf n t
        rw [hroot] at hcut
        refine ⟨s, hs, by omega, hle, fun hsmall => ?_⟩
        cases (hfits.mp hsmall).symm.trans hcompute

theorem collapseTo_limitTo_addsBreadcrumb :
    let D := plainSet (id : Finset ℕ → Finset ℕ)
    let t := createTree D [.anyIndex, .field "f"] (createLeaf {1})
    (∃ s, collapseTo D (insert 0) 1 t = .ok s ∧ (s.maxDepth : ℤ) ≤ 1 ∧ lessOrEqual D t s) ∧
    ∃ s, limitTo D (insert 0) 3 t = .ok s ∧ (leaves s : ℤ) ≤ 3 ∧ lessOrEqual D t s ∧
      ((leaves t : ℤ) ≤ 3 → s = t) :=
  ⟨(collapseTo_limitTo (fun e => Finset.subset_insert 0 e) _).1 1 (by decide),
    (collapseTo_limitTo (fun e => Finset.subset_insert 0 e) _).2 3 (by decide)⟩

end Pysa
