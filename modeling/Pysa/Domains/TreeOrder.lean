/-
  Subject: THE ORDER OF THE TREE DOMAIN, AND JOIN AS AN UPPER BOUND
    (`abstractTreeDomain.ml`, `less_or_equal_tree` to `join`).

  * `prune_le`, `joinTrees_le` -- pruning and joining lose nothing: the invariant is that the
    ancestors that were pruned against stay below the ancestors of the comparison;
  * `join_upper_bound` -- **join is an upper bound**, for every lawful element domain.
-/
import Pysa.Lib.Basic
import Pysa.Domains.SetElement

namespace Pysa

open Pysa.Tree

universe u

variable {E : Type u} (D : Element E)

/-! ## 1. The order -/

mutual

/-- `less_or_equal_tree`. `rightAncestors` is the join of the elements along the spine of the
    right tree down to this node, transformed on sink. -/
def lessOrEqualTree (left : Tree E) (rightAncestors : E) (right : Tree E) : Bool :=
  let rightAncestors := D.join rightAncestors right.element
  if !D.lessOrEqual left.element rightAncestors then false
  else lessOrEqualChildren left.children (D.transformOnSink rightAncestors) right.children
termination_by 3 * left.maxDepth + 2
decreasing_by
  rw [maxDepth_eq left]
  omega

def lessOrEqualOptionTree (leftOptionTree : Option (Tree E)) (rightAncestors : E)
    (rightOptionTree : Option (Tree E)) : Bool :=
  match leftOptionTree, rightOptionTree with
  | none, _ => true
  | some leftTree, none => lessOrEqualTree leftTree rightAncestors (emptyTree D)
  | some leftTree, some rightTree => lessOrEqualTree leftTree rightAncestors rightTree
termination_by 3 * optionDepth leftOptionTree
decreasing_by
  · simp only [optionDepth]
    omega
  · simp only [optionDepth]
    omega

/-- Every subtree on the left is below the right ancestors. -/
def lessOrEqualAll (leftLabelMap : LabelMap E) (rightAncestors : E) : Bool :=
  findFalseWitness (fun _ leftSubtree =>
    lessOrEqualTree leftSubtree.1 rightAncestors (emptyTree D)) leftLabelMap.attach
termination_by 3 * childrenDepth leftLabelMap
decreasing_by
  have := optionDepth_le_of_mem leftSubtree.2
  simp only [optionDepth] at this
  omega

/-- `less_or_equal_children`: pointwise, where an index that one side lacks stands for the `[*]`
    of that side. -/
def lessOrEqualChildren (leftLabelMap : LabelMap E) (rightAncestors : E)
    (rightLabelMap : LabelMap E) : Bool :=
  if leftLabelMap.isEmpty then true
  else if rightLabelMap.isEmpty then lessOrEqualAll leftLabelMap rightAncestors
  else
    let leftStar := leftLabelMap.find? .anyIndex
    let rightStar := rightLabelMap.find? .anyIndex
    let checkLessOrEqual (labelElement : Label)
        (leftSubtree : {t // ∃ k, leftLabelMap.find? k = some t}) : Bool :=
      match labelElement with
      | .anyIndex => lessOrEqualOptionTree leftStar rightAncestors rightStar
      | .index _ =>
        match rightLabelMap.find? labelElement with
        | none => lessOrEqualOptionTree (some leftSubtree.1) rightAncestors rightStar
        | some rightSubtree => lessOrEqualTree leftSubtree.1 rightAncestors rightSubtree
      | .field _ =>
        match rightLabelMap.find? labelElement with
        | some rightSubtree => lessOrEqualTree leftSubtree.1 rightAncestors rightSubtree
        | none => lessOrEqualOptionTree (some leftSubtree.1) rightAncestors none
    -- every index of the right alone must be above the left `[*]`
    let checkStarLeft (labelElement : Label) (rightSubtree : Tree E) : Bool :=
      match labelElement with
      | .index _ =>
        if !(leftLabelMap.find? labelElement).isSome then
          lessOrEqualOptionTree leftStar rightAncestors (some rightSubtree)
        else true
      | _ => true
    let result := findFalseWitness checkLessOrEqual leftLabelMap.attach
    if result && leftStar.isSome then findFalseWitness checkStarLeft rightLabelMap
    else result
termination_by 3 * childrenDepth leftLabelMap + 1
decreasing_by
  all_goals
    first
    | have := optionDepth_find?_le leftLabelMap .anyIndex
      omega
    | have := optionDepth_le_of_mem leftSubtree.2
      omega
    | have := optionDepth_le_of_mem leftSubtree.2
      simp only [optionDepth] at this
      omega

end

/-- `less_or_equal` of the tree domain. -/
def lessOrEqual (left right : Tree E) : Bool := lessOrEqualTree D left D.bottom right

/-- `join`. The test `left == right` is physical equality. -/
def join (phys : PhysEq (Tree E)) (left right : Tree E) : Tree E :=
  if phys.test left right || isBottom D right then left
  else if isBottom D left then right
  else optionNodeTree D (joinTrees D id D.bottom none left right)

/-! ## 2. What the order checks -/

/-- The subtree a label finds, the empty tree where it finds none. -/
def lookupTree (children : LabelMap E) (k : Label) : Tree E :=
  optionNodeTree D (lookup children k)

@[simp] theorem children_emptyTree : (emptyTree D).children = .empty := rfl

@[simp] theorem element_emptyTree : (emptyTree D).element = D.bottom := rfl

theorem lookup_empty (k : Label) : lookup (.empty : LabelMap E) k = none := by
  cases k <;> simp [lookup]

@[simp] theorem lookupTree_empty (k : Label) : lookupTree D .empty k = emptyTree D := by
  rw [lookupTree, lookup_empty]
  rfl

theorem lessOrEqualTree_iff (l : Tree E) (ra : E) (r : Tree E) :
    lessOrEqualTree D l ra r ↔ D.lessOrEqual l.element (D.join ra r.element) ∧
      lessOrEqualChildren D l.children (D.transformOnSink (D.join ra r.element)) r.children := by
  rw [lessOrEqualTree]
  cases D.lessOrEqual l.element (D.join ra r.element) <;> simp

theorem lessOrEqualOptionTree_some (l : Tree E) (ra : E) (r : Option (Tree E)) :
    lessOrEqualOptionTree D (some l) ra r = lessOrEqualTree D l ra (optionNodeTree D r) := by
  cases r <;> rw [lessOrEqualOptionTree] <;> rfl

/-- The two passes over the children, as statements about bindings. -/
theorem lessOrEqualChildren_iff_find? (lc : LabelMap E) (ra : E) (rc : LabelMap E) :
    lessOrEqualChildren D lc ra rc ↔
      (∀ k l, lc.find? k = some l → lessOrEqualTree D l ra (lookupTree D rc k)) ∧
      ∀ i l r, lc.find? (.index i) = none → rc.find? (.index i) = some r →
        lc.find? .anyIndex = some l → lessOrEqualTree D l ra r := by
  rw [lessOrEqualChildren]
  split
  · rename_i h
    rw [SortedMap.isEmpty_iff] at h
    simp [h]
  split
  · rename_i h
    rw [SortedMap.isEmpty_iff_eq] at h
    subst h
    rw [lessOrEqualAll, findFalseWitness, SortedMap.attach_all_iff]
    simp
  simp only
  generalize hresult : findFalseWitness _ lc.attach = result
  generalize hstarLeft : findFalseWitness _ rc = starLeft
  have hleft : result = true ↔
      ∀ k l, lc.find? k = some l → lessOrEqualTree D l ra (lookupTree D rc k) := by
    rw [← hresult, findFalseWitness, SortedMap.attach_all_iff]
    refine forall_congr' fun k => forall_congr' fun l => forall_congr' fun h => ?_
    cases k with
    | anyIndex => simp only [h, lessOrEqualOptionTree_some, lookupTree, lookup_anyIndex]
    | index i =>
      cases hr : rc.find? (.index i) with
      | none => simp only [lessOrEqualOptionTree_some, lookupTree, lookup_index_of_none hr]
      | some r => simp only [lookupTree, lookup_of_find? hr, optionNodeTree]
    | field f =>
      cases hr : rc.find? (.field f) with
      | none => simp only [hr, lessOrEqualOptionTree_some, lookupTree, lookup_field]
      | some r => simp only [lookupTree, lookup_of_find? hr, optionNodeTree]
  have hright : ∀ star, lc.find? .anyIndex = some star → (starLeft = true ↔
      ∀ i l r, lc.find? (.index i) = none → rc.find? (.index i) = some r →
        lc.find? .anyIndex = some l → lessOrEqualTree D l ra r) := by
    intro star hs
    rw [← hstarLeft, findFalseWitness, SortedMap.all_iff]
    constructor
    · intro h i l r hi hr hl
      have := h (.index i) r hr
      simpa only [hi, hl, Option.isSome_none, Bool.not_false, if_true,
        lessOrEqualOptionTree_some, optionNodeTree] using this
    · intro h k r hr
      cases k with
      | anyIndex => rfl
      | field f => rfl
      | index i =>
        cases hi : lc.find? (.index i) with
        | some l => simp
        | none =>
          simpa only [hi, hs, Option.isSome_none, Bool.not_false, if_true,
            lessOrEqualOptionTree_some, optionNodeTree] using h i star r hi hr hs
  cases hs : lc.find? .anyIndex with
  | none => simp [hleft]
  | some star =>
    rw [hs] at hright
    rw [← hleft, ← hright star rfl]
    cases result <;> simp

/-- **The order on children**: what a label finds on the left is below what it finds on the
    right. -/
theorem lessOrEqualChildren_iff (lc : LabelMap E) (ra : E) (rc : LabelMap E) :
    lessOrEqualChildren D lc ra rc ↔
      ∀ k l, lookup lc k = some l → lessOrEqualTree D l ra (lookupTree D rc k) := by
  rw [lessOrEqualChildren_iff_find?]
  constructor
  · rintro ⟨hbound, hstar⟩ k l hl
    cases k with
    | anyIndex => exact hbound _ l hl
    | field f => exact hbound _ l hl
    | index i =>
      cases hi : lc.find? (.index i) with
      | some l' =>
        rw [lookup_of_find? hi, Option.some.injEq] at hl
        exact hl ▸ hbound _ l' hi
      | none =>
        rw [lookup_index_of_none hi] at hl
        cases hr : rc.find? (.index i) with
        | some r =>
          rw [lookupTree, lookup_of_find? hr]
          exact hstar i l r hi hr hl
        | none =>
          rw [lookupTree, lookup_index_of_none hr]
          exact hbound .anyIndex l hl
  · intro h
    refine ⟨fun k l hl => h k l (lookup_of_find? hl), fun i l r hi hr hl => ?_⟩
    have := h (.index i) l (by rw [lookup_index_of_none hi, hl])
    rwa [lookupTree, lookup_of_find? hr] at this

theorem lessOrEqualTree_iff_lookup (l : Tree E) (ra : E) (r : Tree E) :
    lessOrEqualTree D l ra r ↔ D.lessOrEqual l.element (D.join ra r.element) ∧
      ∀ k l', lookup l.children k = some l' →
        lessOrEqualTree D l' (D.transformOnSink (D.join ra r.element))
          (lookupTree D r.children k) := by
  rw [lessOrEqualTree_iff, lessOrEqualChildren_iff]

/-! ## 3. The ancestors -/

section Ancestors

variable {D}

theorem Element.Lawful.join_mono (L : D.Lawful) {a a' b b' : E} (ha : D.lessOrEqual a a')
    (hb : D.lessOrEqual b b') : D.lessOrEqual (D.join a b) (D.join a' b') :=
  L.join_le (L.trans ha (L.le_join_left a' b')) (L.trans hb (L.le_join_right a' b'))

/-- The ancestors that pruning works with: a sink transformation gives nothing up of them. -/
def SinkClosed (D : Element E) (ancestors : E) : Prop :=
  D.lessOrEqual ancestors (D.transformOnSink ancestors)

theorem sinkClosed_bottom (L : D.Lawful) : SinkClosed D D.bottom := L.bottom_le _

/-- **What filtering keeps**: an element below its rest and any ancestors above the given ones,
    and the invariant of the ancestors one level down. -/
theorem filterByAncestors_spec (L : D.Lawful) (S : D.LawfulSink) {a ra : E}
    (ha : SinkClosed D a) (hra : D.lessOrEqual a ra) (e : E) :
    D.lessOrEqual e (D.join ra (filterByAncestors D a e).newElement) ∧
      SinkClosed D (filterByAncestors D a e).ancestors ∧
      D.lessOrEqual (filterByAncestors D a e).ancestors
        (D.transformOnSink (D.join ra (filterByAncestors D a e).newElement)) := by
  have hsub := L.le_subtract_join e a
  unfold filterByAncestors
  by_cases h : D.lessOrEqual (D.subtract a e) a
  · simp only [h, if_true]
    have hle : D.lessOrEqual ra (D.join ra D.bottom) := L.le_join_left _ _
    refine ⟨?_, ha, L.trans ha (S.mono (L.trans hra hle))⟩
    exact L.trans hsub (L.trans (L.join_le h (L.refl a)) (L.trans hra hle))
  · simp only [h, Bool.false_eq_true, if_false]
    have he : D.lessOrEqual e (D.join ra (D.subtract a e)) :=
      L.trans hsub (L.join_le (L.le_join_right _ _) (L.trans hra (L.le_join_left _ _)))
    exact ⟨he, S.idempotent _, S.mono (L.join_le (L.trans hra (L.le_join_left _ _)) he)⟩

/-- A tree that ancestors alone cover is below any tree under larger ancestors. -/
theorem lessOrEqualTree_empty (L : D.Lawful) (S : D.LawfulSink) {l : Tree E} {ra ra' : E}
    (h : lessOrEqualTree D l ra (emptyTree D)) (hra : D.lessOrEqual ra ra') (r : Tree E) :
    lessOrEqualTree D l ra' r := by
  induction l using Tree.induct generalizing ra ra' r with
  | node e c ih =>
    rw [lessOrEqualTree_iff_lookup] at h ⊢
    have hup : D.lessOrEqual (D.join ra (emptyTree D).element) (D.join ra' r.element) :=
      L.join_mono hra (L.bottom_le _)
    refine ⟨L.trans h.1 hup, fun k l hl => ?_⟩
    obtain ⟨k', hk'⟩ := exists_find?_of_lookup hl
    have hchild := h.2 k l hl
    rw [children_emptyTree, lookupTree_empty] at hchild
    exact ih k' l hk' hchild (S.mono hup) _

end Ancestors

/-! ## 4. Pruning and joining lose nothing -/

section UpperBound

variable {D}

/-- The tree of an optional node is the node it was made of, up to the empty one. -/
theorem lessOrEqualTree_createNodeOption (L : D.Lawful) (S : D.LawfulSink) {l : Tree E}
    {ra e : E} {c : LabelMap E} (h : lessOrEqualTree D l ra (.node e c)) :
    lessOrEqualTree D l ra (optionNodeTree D (createNodeOption D e c)) := by
  obtain ⟨hn, hc, he⟩ | ⟨hn, -⟩ := createNodeOption_cases D e c
  · subst hc
    rw [hn, lessOrEqualTree_iff_lookup]
    rw [lessOrEqualTree_iff_lookup] at h
    have hup : D.lessOrEqual (D.join ra e) (D.join ra (emptyTree D).element) :=
      L.join_mono (L.refl ra) ((L.isBottom_iff e).mp he)
    refine ⟨L.trans h.1 hup, fun k l' hl => ?_⟩
    have hchild := h.2 k l' hl
    rw [children_node, lookupTree_empty] at hchild
    exact lessOrEqualTree_empty L S hchild (S.mono hup) _
  · rwa [hn]

/-- A tree below what is left of a child is below what its label finds in the pruned map. -/
theorem lookupTree_filterMap_prune (L : D.Lawful) (S : D.LawfulSink) {l : Tree E} {ra a : E}
    {c : LabelMap E} {k : Label}
    (h : lessOrEqualTree D l ra (optionNodeTree D ((lookup c k).bind (pruneTree D a)))) :
    lessOrEqualTree D l ra (lookupTree D (c.filterMap (pruneTree D a)) k) := by
  cases hp : (c.filterMap (pruneTree D a)).find? k with
  | some t =>
    rw [lookupTree, lookup_of_find? hp]
    rw [SortedMap.find?_filterMap] at hp
    obtain ⟨t', ht', hpt⟩ := Option.bind_eq_some_iff.mp hp
    rwa [lookup_of_find? ht', Option.bind_some, hpt] at h
  | none =>
    rw [SortedMap.find?_filterMap] at hp
    cases hc : c.find? k with
    | some t' =>
      rw [hc] at hp
      rw [lookup_of_find? hc, hp] at h
      exact lessOrEqualTree_empty L S h (L.refl ra) _
    | none =>
      cases k with
      | index i =>
        have hi : (c.filterMap (pruneTree D a)).find? (.index i) = none := by
          rw [SortedMap.find?_filterMap, hc]
          rfl
        rw [lookup_index_of_none hc] at h
        rwa [lookupTree, lookup_index_of_none hi, SortedMap.find?_filterMap]
      | anyIndex => rwa [lookupTree, lookup_anyIndex, SortedMap.find?_filterMap]
      | field f => rwa [lookupTree, lookup_field, SortedMap.find?_filterMap]

/-- A tree below the merge of two lookups is below what the label finds in the merged map. -/
theorem lookupTree_joinChildren (L : D.Lawful) (S : D.LawfulSink) {l : Tree E} {ra a : E}
    {widenDepth : Option Nat} {transformOnCollapse : E → E} {lc rc : LabelMap E} {k : Label}
    (h : lessOrEqualTree D l ra (optionNodeTree D
      (joinOptionTrees D transformOnCollapse a widenDepth (lookup lc k) (lookup rc k)))) :
    lessOrEqualTree D l ra
      (lookupTree D (joinChildren D transformOnCollapse a widenDepth lc rc) k) := by
  have hnone : joinOptionTrees D transformOnCollapse a widenDepth none none = none := by
    rw [joinOptionTrees]
  have hfind : ∀ k, (lookup lc k = lc.find? k ∧ lookup rc k = rc.find? k) →
      (joinChildren D transformOnCollapse a widenDepth lc rc).find? k =
        joinOptionTrees D transformOnCollapse a widenDepth (lookup lc k) (lookup rc k) := by
    rintro k ⟨hlk, hrk⟩
    rw [joinChildren_find?]
    split
    · rename_i hboth
      rw [hlk, hrk, hboth.1, hboth.2, hnone]
    · rfl
  have hother : ∀ {k}, (joinChildren D transformOnCollapse a widenDepth lc rc).find? k =
      joinOptionTrees D transformOnCollapse a widenDepth (lookup lc k) (lookup rc k) →
      lessOrEqualTree D l ra (optionNodeTree D
        (joinOptionTrees D transformOnCollapse a widenDepth (lookup lc k) (lookup rc k))) →
      lessOrEqualTree D l ra
        (lookupTree D (joinChildren D transformOnCollapse a widenDepth lc rc) k) := by
    intro k hk h
    rw [← hk] at h
    cases hj : (joinChildren D transformOnCollapse a widenDepth lc rc).find? k with
    | some t =>
      rw [hj] at h
      rwa [lookupTree, lookup_of_find? hj]
    | none =>
      rw [hj] at h
      exact lessOrEqualTree_empty L S h (L.refl ra) _
  cases k with
  | anyIndex => exact hother (hfind _ ⟨rfl, rfl⟩) h
  | field f => exact hother (hfind _ ⟨rfl, rfl⟩) h
  | index i =>
    by_cases hboth : lc.find? (.index i) = none ∧ rc.find? (.index i) = none
    · -- no side binds the index, so both sides and the merge read their `[*]`
      have hj : (joinChildren D transformOnCollapse a widenDepth lc rc).find? (.index i) =
          none := by rw [joinChildren_find?, if_pos hboth]
      rw [lookup_index_of_none hboth.1, lookup_index_of_none hboth.2] at h
      rw [lookupTree, lookup_index_of_none hj]
      exact hother (k := .anyIndex) (hfind _ ⟨rfl, rfl⟩) h
    · exact hother (by rw [joinChildren_find?, if_neg hboth]) h

/-- **Pruning loses nothing** under ancestors above those it pruned against. -/
theorem prune_le (L : D.Lawful) (S : D.LawfulSink) (t : Tree E) {a ra : E}
    (ha : SinkClosed D a) (hra : D.lessOrEqual a ra) :
    lessOrEqualTree D t ra (optionNodeTree D (pruneTree D a t)) := by
  induction t using Tree.induct generalizing a ra with
  | node e c ih =>
    obtain ⟨he, hclosed, hanc⟩ := filterByAncestors_spec L S ha hra e
    rw [pruneTree_eq]
    refine lessOrEqualTree_createNodeOption L S ?_
    rw [lessOrEqualTree_iff_lookup]
    refine ⟨he, fun k l' hl => ?_⟩
    obtain ⟨k', hk'⟩ := exists_find?_of_lookup hl
    refine lookupTree_filterMap_prune L S ?_
    rw [children_node] at hl
    rw [children_node, hl, Option.bind_some]
    exact ih k' l' hk' hclosed hanc

/-- A child is below what it is joined to, with another child or with none. -/
theorem le_joinOptionTrees {f : E → E} {a ra : E} {widenDepth : Option Nat}
    {l r : Option (Tree E)}
    (hprune : ∀ t, lessOrEqualTree D t ra (optionNodeTree D (pruneTree D a t)))
    (hboth : ∀ l' r', l = some l' → r = some r' →
      lessOrEqualTree D l' ra (optionNodeTree D (joinTrees D f a widenDepth l' r')) ∧
        lessOrEqualTree D r' ra (optionNodeTree D (joinTrees D f a widenDepth l' r')))
    (hright : ∀ r', widenDepth ≠ none → r = some r' → lessOrEqualTree D r' ra
      (optionNodeTree D (joinTrees D f a widenDepth (emptyTree D) r')))
    {t : Tree E} (ht : l = some t ∨ r = some t) :
    lessOrEqualTree D t ra (optionNodeTree D (joinOptionTrees D f a widenDepth l r)) := by
  cases l with
  | some l' =>
    cases r with
    | some r' =>
      rw [joinOptionTrees]
      rcases ht with ht | ht
      · exact Option.some.inj ht ▸ (hboth l' r' rfl rfl).1
      · exact Option.some.inj ht ▸ (hboth l' r' rfl rfl).2
    | none =>
      obtain rfl := Option.some.inj (ht.resolve_right (Option.some_ne_none t).symm)
      rw [joinOptionTrees]
      exact hprune l'
  | none =>
    obtain rfl := ht.resolve_left (Option.some_ne_none t).symm
    rw [joinOptionTrees]
    split
    · exact hprune t
    · rename_i hwiden
      exact hright t hwiden rfl

/-- **Joining loses nothing**: both sides are below the join, under ancestors above those the
    join pruned against. -/
theorem joinTrees_le (L : D.Lawful) (S : D.LawfulSink) (l r : Tree E) {a ra : E}
    (ha : SinkClosed D a) (hra : D.lessOrEqual a ra) :
    lessOrEqualTree D l ra (optionNodeTree D (joinTrees D id a none l r)) ∧
      lessOrEqualTree D r ra (optionNodeTree D (joinTrees D id a none l r)) := by
  induction l using Tree.induct generalizing r a ra with
  | node e c ih =>
    obtain ⟨he, hclosed, hanc⟩ := filterByAncestors_spec L S ha hra (D.join e r.element)
    generalize hf : filterByAncestors D a (D.join e r.element) = f at he hclosed hanc
    have hchild : ∀ k t, (lookup c k = some t ∨ lookup r.children k = some t) →
        lessOrEqualTree D t (D.transformOnSink (D.join ra f.newElement)) (optionNodeTree D
          (joinOptionTrees D id f.ancestors none (lookup c k) (lookup r.children k))) := by
      intro k t
      refine le_joinOptionTrees (fun t => prune_le L S t hclosed hanc) (fun l' r' hl _ => ?_)
        fun r' h => absurd rfl h
      obtain ⟨k', hk'⟩ := exists_find?_of_lookup hl
      exact ih k' l' hk' r' hclosed hanc
    rw [joinTrees]
    simp only [mustWidenDepth, elementJoin, mustWidenElement, Option.isSome_none,
      Bool.false_eq_true, if_false, decrementWiden, element_node, children_node, hf]
    constructor
    · refine lessOrEqualTree_createNodeOption L S ?_
      rw [lessOrEqualTree_iff_lookup]
      exact ⟨L.trans (L.le_join_left _ _) he, fun k t ht =>
        lookupTree_joinChildren L S (hchild k t (Or.inl ht))⟩
    · refine lessOrEqualTree_createNodeOption L S ?_
      rw [lessOrEqualTree_iff_lookup]
      exact ⟨L.trans (L.le_join_right _ _) he, fun k t ht =>
        lookupTree_joinChildren L S (hchild k t (Or.inr ht))⟩

/-! ## 5. Join is an upper bound -/

theorem lessOrEqualTree_refl (L : D.Lawful) (t : Tree E) (ra : E) :
    lessOrEqualTree D t ra t := by
  induction t using Tree.induct generalizing ra with
  | node e c ih =>
    rw [lessOrEqualTree_iff_lookup]
    refine ⟨L.le_join_right _ _, fun k l' hl => ?_⟩
    obtain ⟨k', hk'⟩ := exists_find?_of_lookup hl
    rw [lookupTree, hl]
    exact ih k' l' hk' _

theorem lessOrEqualTree_trans (L : D.Lawful) (S : D.LawfulSink) {l m r : Tree E} {ra ra' : E}
    (hlm : lessOrEqualTree D l ra m) (hmr : lessOrEqualTree D m ra' r)
    (hra : D.lessOrEqual ra ra') : lessOrEqualTree D l ra' r := by
  induction l using Tree.induct generalizing m r ra ra' with
  | node e c ih =>
    rw [lessOrEqualTree_iff_lookup] at hlm hmr ⊢
    have hup : D.lessOrEqual (D.join ra m.element) (D.join ra' r.element) :=
      L.join_le (L.trans hra (L.le_join_left _ _)) hmr.1
    refine ⟨L.trans hlm.1 hup, fun k l' hl => ?_⟩
    obtain ⟨k', hk'⟩ := exists_find?_of_lookup hl
    have hchild := hlm.2 k l' hl
    cases hm : lookup m.children k with
    | some m' =>
      rw [lookupTree, hm] at hchild
      exact ih k' l' hk' hchild (hmr.2 k m' hm) (S.mono hup)
    | none =>
      rw [lookupTree, hm] at hchild
      exact lessOrEqualTree_empty L S hchild (S.mono hup) _

/-- The empty tree is below every tree. -/
theorem lessOrEqual_of_isBottom (L : D.Lawful) {l : Tree E} (h : isBottom D l) (r : Tree E) :
    lessOrEqual D l r := by
  obtain ⟨e, c⟩ := l
  rw [isBottom, isEmptyTree, isEmptyInfo, Bool.and_eq_true, SortedMap.isEmpty_iff_eq] at h
  obtain ⟨hc, he⟩ := h
  rw [children_node] at hc
  subst hc
  rw [lessOrEqual, lessOrEqualTree_iff_lookup]
  refine ⟨L.trans ((L.isBottom_iff e).mp he) (L.bottom_le _), fun k l' hl => ?_⟩
  rw [children_node, lookup_empty] at hl
  exact nomatch hl

/-- **Join is an upper bound**, for every two trees over a lawful element domain. -/
theorem join_upper_bound (L : D.Lawful) (S : D.LawfulSink) (phys : PhysEq (Tree E))
    (l r : Tree E) :
    lessOrEqual D l (join D phys l r) ∧ lessOrEqual D r (join D phys l r) := by
  unfold join
  by_cases hlr : (phys.test l r || isBottom D r) = true
  · rw [if_pos hlr]
    refine ⟨lessOrEqualTree_refl L l _, ?_⟩
    rcases Bool.or_eq_true _ _ ▸ hlr with h | h
    · rw [phys.sound h]
      exact lessOrEqualTree_refl L r _
    · exact lessOrEqual_of_isBottom L h l
  rw [if_neg hlr]
  by_cases hl : isBottom D l = true
  · rw [if_pos hl]
    exact ⟨lessOrEqual_of_isBottom L hl r, lessOrEqualTree_refl L r _⟩
  rw [if_neg hl]
  exact joinTrees_le L S l r (sinkClosed_bottom L) (L.refl _)

theorem join_upper_bound_set :
    let D : Element (Finset ℕ) := setElement id (.inter {1}) id
    let l : Tree (Finset ℕ) := .node {2} (.singleton (.index "i") (createLeaf {1, 2}))
    let r : Tree (Finset ℕ) := createLeaf {1}
    lessOrEqual D l (join D (.never _) l r) ∧ lessOrEqual D r (join D (.never _) l r) :=
  join_upper_bound (setElement_lawful _ _ _) (setElement_lawfulSink _ _ _) _ _ _

end UpperBound

end Pysa
