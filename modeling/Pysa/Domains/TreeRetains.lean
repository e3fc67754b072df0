/-
  Subject: TREES THAT RETAIN ANOTHER TREE (`abstractTreeDomain.ml`, pruning, joining, reading and
    `assign_or_join_path`).

  A sequence of writes is compared with the tree before all of them. That no read gets less is not
  enough for this: a later write may give an index a child of its own, which hides what its `[*]`
  held for the index after an earlier one.

  * `Retains` -- each child of the first tree is held by the child at its label, or by the elements
    above it; where the first tree reads `[*]`, so does the second, or its own child holds it;
  * `Retains.reads` -- then no read gets less;
  * `Retains.prune`, `Retains.join`, `Retains.read` -- it goes through pruning, joining and reading;
  * `CreatesNoIndex` -- a write names no index that only `[*]` stands for;
  * `Retains.assign` -- **such a write keeps the first tree retained**, if what a strong one puts at
    its own path retains what was there.
-/
import Pysa.Domains.TreeKeeps

namespace Pysa

open Pysa.Tree

universe u

variable {α : Type u} [DecidableEq α] {w : Finset α → Finset α} {a b : Finset α}
  {s t u l r : Tree (Finset α)}

/-! ## 1. The relation -/

/-- `t`, under the ancestors `a`, holds what `s` holds. -/
inductive Retains : Finset α → Tree (Finset α) → Tree (Finset α) → Prop
  | node {a : Finset α} {s t : Tree (Finset α)} (helement : s.element ⊆ a ∪ t.element)
      (hchild : ∀ k s', s.children.find? k = some s' → Retains (a ∪ t.element) s' (ownChild t k))
      (hstar : ∀ i s' t', s.children.find? (.index i) = none →
        s.children.find? .anyIndex = some s' → t.children.find? (.index i) = some t' →
        Retains (a ∪ t.element) s' t') : Retains a s t

/-- A tree whose children are those that writes, joins and prunings make. -/
theorem node_eq (e : Finset α) (c : LabelMap (Finset α)) :
    optionNodeTree (plainSet w) (createNodeOption (plainSet w) e c) = .node e c :=
  optionNodeTree_createNodeOption (.node e c)

theorem eq_createLeaf_of_isEmptyTree (h : isEmptyTree (plainSet w) t = true) :
    t = createLeaf ∅ := by
  obtain ⟨hc, he⟩ := (isEmptyTree_iff t).mp h
  cases t
  rw [children_node] at hc
  rw [element_node] at he
  rw [hc, he]
  rfl

namespace Retains

theorem refl (a : Finset α) (t : Tree (Finset α)) : Retains a t t := by
  induction t using Tree.induct generalizing a with
  | node e c ih =>
    refine .node Finset.subset_union_right (fun k s' hs => ?_) fun i s' t' hnone _ hsome => ?_
    · rw [ownChild_of_find? hs]
      exact ih k s' hs _
    · rw [hnone] at hsome
      cases hsome

theorem mono (h : Retains a s t) (hab : a ⊆ b) : Retains b s t := by
  induction h generalizing b with
  | node helement _ _ ihchild ihstar =>
    have hnext := fun t : Tree (Finset α) => Finset.union_subset_union_left (t := t.element) hab
    exact .node (helement.trans (hnext _)) (fun k s' hs => ihchild k s' hs (hnext _))
      fun i s' t' hi hs ht => ihstar i s' t' hi hs ht (hnext _)

/-- What the ancestors hold, any tree below them holds. -/
theorem of_leaf (h : Retains a s (createLeaf ∅)) (t : Tree (Finset α)) : Retains a s t := by
  induction s using Tree.induct generalizing a t with
  | node e c ih =>
    obtain ⟨helement, hchild, -⟩ := h
    have hbelow : ∀ k s', c.find? k = some s' → ∀ t', Retains (a ∪ t.element) s' t' := by
      intro k s' hs t'
      have hleaf := hchild k s' hs
      rw [ownChild_of_none (SortedMap.find?_empty k), createLeaf, element_node,
        Finset.union_empty] at hleaf
      exact (ih k s' hs hleaf t').mono Finset.subset_union_left
    refine .node ?_ (fun k s' hs => hbelow k s' hs _) fun i s' t' _ hs _ => hbelow _ s' hs t'
    rw [createLeaf, element_node, element_node, Finset.union_empty] at helement
    exact helement.trans Finset.subset_union_left

theorem find (h : Retains a s t) {k : Label} {s' : Tree (Finset α)}
    (hs : s.children.find? k = some s') : Retains (a ∪ t.element) s' (ownChild t k) := by
  obtain ⟨-, hchild, -⟩ := h
  exact hchild k s' hs

theorem star (h : Retains a s t) {i : String} {s' t' : Tree (Finset α)}
    (hi : s.children.find? (.index i) = none) (hs : s.children.find? .anyIndex = some s')
    (ht : t.children.find? (.index i) = some t') : Retains (a ∪ t.element) s' t' := by
  obtain ⟨-, -, hstar⟩ := h
  exact hstar i s' t' hi hs ht

theorem element (h : Retains a s t) : s.element ⊆ a ∪ t.element := by
  obtain ⟨helement, -, -⟩ := h
  exact helement

/-- What a label finds is held by what it finds. -/
theorem childAt (h : Retains a s t) {k : Label} {s' : Tree (Finset α)}
    (hs : lookup s.children k = some s') :
    Retains (a ∪ t.element) s' (Pysa.childAt t.children k) := by
  have hown : s.children.find? k = some s' →
      Retains (a ∪ t.element) s' (Pysa.childAt t.children k) := by
    intro hk
    have hchild := h.find hk
    cases ht : t.children.find? k with
    | some t' =>
      rw [childAt_of_find? ht]
      rwa [ownChild_of_find? ht] at hchild
    | none =>
      rw [ownChild_of_none ht] at hchild
      exact hchild.of_leaf _
  cases k with
  | field f => exact hown hs
  | anyIndex => exact hown hs
  | index i =>
    cases hi : s.children.find? (.index i) with
    | some s'' =>
      rw [lookup_of_find? hi] at hs
      exact hown (hi.trans hs)
    | none =>
      rw [lookup_index_of_none hi] at hs
      cases ht : t.children.find? (.index i) with
      | some t' =>
        rw [childAt_of_find? ht]
        exact h.star hi hs ht
      | none =>
        rw [Pysa.childAt, lookup_index_of_none ht]
        exact h.find hs

/-- **No read gets less.** -/
theorem reads (h : Retains a s t) (q : List Label) : taintAt q s ⊆ a ∪ taintAt q t := by
  induction q generalizing a s t with
  | nil => exact h.element
  | cons k q ih =>
    rw [taintAt_childAt k q t, taintAt, ← Finset.union_assoc]
    refine Finset.union_subset (h.element.trans Finset.subset_union_left) ?_
    cases hs : lookup s.children k with
    | none => exact Finset.empty_subset _
    | some s' => exact ih (h.childAt hs)

/-! ## 2. Pruning and joining -/

theorem prune (h : Retains a s t) :
    Retains a s (optionNodeTree (plainSet w) (pruneTree (plainSet w) a t)) := by
  induction h with
  | @node a s t helement hchild hstar ihchild ihstar =>
    have hancestors : a ∪ (t.element \ a) = a ∪ t.element := Finset.union_sdiff_self_eq_union
    rw [pruneTree_plain, node_eq]
    refine .node ?_ (fun k s' hs => ?_) fun i s' t' hi hs ht => ?_
    · rwa [element_node, hancestors]
    · have hpruned : ownChild (.node (t.element \ a) (t.children.filterMap
          (pruneTree (plainSet w) (a ∪ t.element)))) k =
          optionNodeTree (plainSet w) (pruneTree (plainSet w) (a ∪ t.element) (ownChild t k)) := by
        rw [ownChild, children_node, SortedMap.find?_filterMap, optionNodeTree_eq]
        cases hk : t.children.find? k with
        | none =>
          have hempty : pruneTree (plainSet w) (a ∪ t.element) (createLeaf ∅) = none :=
            pruneTree_eq_none (covered_emptyTree (w := w) _)
          rw [ownChild_of_none hk, hempty]
          rfl
        | some t' =>
          rw [ownChild_of_find? hk]
          rfl
      rw [element_node, hancestors, hpruned]
      exact ihchild k s' hs
    · rw [children_node, SortedMap.find?_filterMap] at ht
      obtain ⟨t'', ht'', hprune⟩ := Option.bind_eq_some_iff.mp ht
      have hkept := ihstar i s' t'' hi hs ht''
      rw [hprune] at hkept
      rw [element_node, hancestors]
      exact hkept

/-- A join holds what one of its sides holds. -/
theorem joinTrees (hb : b ⊆ a ∪ (l.element ∪ r.element)) (h : Retains b s l ∨ Retains b s r) :
    Retains a s (optionNodeTree (plainSet w) (Pysa.joinTrees (plainSet w) id a none l r)) := by
  induction s using Tree.induct generalizing a b l r with
  | node e c ih =>
    have hancestors : a ∪ ((l.element ∪ r.element) \ a) = a ∪ (l.element ∪ r.element) :=
      Finset.union_sdiff_self_eq_union
    have hleft : b ∪ l.element ⊆ a ∪ (l.element ∪ r.element) :=
      Finset.union_subset hb (Finset.subset_union_left.trans Finset.subset_union_right)
    have hright : b ∪ r.element ⊆ a ∪ (l.element ∪ r.element) :=
      Finset.union_subset hb (Finset.subset_union_right.trans Finset.subset_union_right)
    -- what the two sides find under a label is joined
    have hjoined : ∀ k m s', c.find? m = some s' → lookup (Tree.node e c).children k = some s' →
        Retains (a ∪ (l.element ∪ r.element)) s' (optionNodeTree (plainSet w)
          (joinOptionTrees (plainSet w) id (a ∪ (l.element ∪ r.element)) none
            (lookup l.children k) (lookup r.children k))) := by
      intro k m s' hm hs
      have hside : Retains (a ∪ (l.element ∪ r.element)) s' (Pysa.childAt l.children k) ∨
          Retains (a ∪ (l.element ∪ r.element)) s' (Pysa.childAt r.children k) :=
        h.imp (fun h => (h.childAt hs).mono hleft) fun h => (h.childAt hs).mono hright
      rw [Pysa.childAt, Pysa.childAt] at hside
      cases hl : lookup l.children k with
      | none =>
        rw [hl] at hside
        cases hr : lookup r.children k with
        | none =>
          rw [hr] at hside
          rw [joinOptionTrees]
          exact hside.elim id id
        | some r' =>
          rw [hr] at hside
          rw [joinOptionTrees]
          exact (hside.elim (fun h => h.of_leaf r') id).prune
      | some l' =>
        rw [hl] at hside
        cases hr : lookup r.children k with
        | none =>
          rw [hr] at hside
          rw [joinOptionTrees]
          exact (hside.elim id fun h => h.of_leaf l').prune
        | some r' =>
          rw [hr] at hside
          rw [joinOptionTrees]
          exact ih m s' hm Finset.subset_union_left hside
    have helement : e ⊆ a ∪ (l.element ∪ r.element) :=
      h.elim (fun h => h.element.trans hleft) fun h => h.element.trans hright
    rw [joinTrees_plain, node_eq]
    refine .node ?_ (fun k s' hs => ?_) fun i s' t' hi hs ht => ?_
    · rwa [element_node, element_node, hancestors]
    · have hfound := hjoined k k s' hs (lookup_of_find? hs)
      rw [element_node, hancestors, ownChild, children_node, joinChildren_find?]
      split
      · rename_i hnone
        have hside := h.imp (fun h => (h.find hs).mono hleft) fun h => (h.find hs).mono hright
        rw [ownChild_of_none hnone.1, ownChild_of_none hnone.2] at hside
        exact hside.elim id id
      · rwa [optionNodeTree_eq] at hfound
    · have hfound := hjoined (.index i) .anyIndex s' hs ((lookup_index_of_none hi).trans hs)
      rw [children_node, joinChildren_find?] at ht
      split at ht
      · cases ht
      · rw [ht] at hfound
        rw [element_node, hancestors]
        exact hfound

theorem join (phys : PhysEq (Tree (Finset α))) (h : Retains ∅ s l ∨ Retains ∅ s r) :
    Retains ∅ s (Pysa.join (plainSet w) phys l r) := by
  rw [Pysa.join]
  by_cases hsame : (phys.test l r || isBottom (plainSet w) r) = true
  · rw [if_pos hsame]
    rcases Bool.or_eq_true _ _ ▸ hsame with hphys | hr
    · rw [← phys.sound hphys] at h
      exact h.elim id id
    · rw [eq_createLeaf_of_isEmptyTree hr] at h
      exact h.elim id fun h => h.of_leaf l
  rw [if_neg hsame]
  by_cases hl : isBottom (plainSet w) l = true
  · rw [if_pos hl]
    rw [eq_createLeaf_of_isEmptyTree hl] at h
    exact h.elim (fun h => h.of_leaf r) id
  rw [if_neg hl]
  exact joinTrees (Finset.empty_subset _) h

/-! ## 3. Reading -/

/-- What a path finds; an index may find the child at `[*]`. -/
def lookupPath : List Label → Tree (Finset α) → Option (Tree (Finset α))
  | [], t => some t
  | k :: rest, t => (lookup t.children k).bind (lookupPath rest)

/-- What the ancestors hold, they hold below every path. -/
theorem lookupPath_leaf {path : List Label} {s' : Tree (Finset α)}
    (hs : lookupPath path s = some s') (h : Retains a s (createLeaf ∅)) :
    Retains a s' (createLeaf ∅) := by
  induction path generalizing s with
  | nil =>
    cases hs
    exact h
  | cons k rest ih =>
    obtain ⟨s₁, hk, hrest⟩ := Option.bind_eq_some_iff.mp hs
    have hchild := h.childAt hk
    rw [Pysa.childAt, createLeaf, children_node, lookup_empty, element_node,
      Finset.union_empty] at hchild
    exact ih hrest hchild

/-- A raw read holds, with the elements it has met, what the path finds. -/
theorem readRaw {path : List Label} (hpath : ∀ k ∈ path, k.Concrete) {s' : Tree (Finset α)}
    (hs : lookupPath path s = some s') (h : Retains a s t) :
    Retains (readRawRefined (plainSet w) (fun _ e => e) false a
        (Label.Refined.toRefinedPath path) t).1 s'
      (optionNodeTree (plainSet w) (readRawRefined (plainSet w) (fun _ e => e) false a
        (Label.Refined.toRefinedPath path) t).2) := by
  induction path generalizing a s t with
  | nil =>
    cases hs
    rw [Label.Refined.toRefinedPath, List.map_nil, readRawRefined, optionNodeTree_createNodeOption]
    exact h
  | cons k rest ih =>
    obtain ⟨hk, hrest⟩ := List.forall_mem_cons.mp hpath
    obtain ⟨s₁, hfind, hs⟩ := Option.bind_eq_some_iff.mp hs
    have hchild := h.childAt hfind
    rw [Label.Refined.toRefinedPath, List.map_cons, readRawRefined_concrete_cons w hk]
    cases ht : lookup t.children k with
    | none =>
      rw [Pysa.childAt, ht] at hchild
      exact lookupPath_leaf hs hchild
    | some t' =>
      rw [Pysa.childAt, ht] at hchild
      exact ih hrest hs hchild

/-- **A read holds what its path finds.** -/
theorem read {path : List Label} (hpath : ∀ k ∈ path, k.Concrete) {s' : Tree (Finset α)}
    (hs : lookupPath path s = some s') (h : Retains ∅ s t) :
    Retains ∅ s' (Pysa.read (plainSet w) (fun _ e => e) path t) := by
  rw [Pysa.read, readRefined]
  refine joinTrees ?_ (.inr (h.readRaw hpath hs))
  rw [createLeaf, element_node, Finset.empty_union]
  exact Finset.subset_union_left

end Retains

/-! ## 4. Writing -/

/-- A write to the path names no index that only `[*]` stands for. A strong write may do so with its
    last label. -/
def CreatesNoIndex : (strong : Bool) → List Label → Tree (Finset α) → Prop
  | _, [], _ => True
  | strong, k :: rest, t =>
    (∀ i, k = .index i → t.children.find? (.index i) = none →
      t.children.find? .anyIndex = none ∨ strong = true ∧ rest = []) ∧
    ∀ l s, WrittenAt t.children k l → t.children.find? l = some s →
      CreatesNoIndex (strong && decide (k ≠ .anyIndex)) rest s

/-- **A write that names no index which only `[*]` stands for in the first tree keeps that tree**, if
    what a strong one puts at its path holds what the path finds there. By induction on the path. -/
theorem Retains.assign (subtree : Tree (Finset α)) (path : List Label) {doJoin : Bool}
    (hcreates : CreatesNoIndex (!doJoin) path s)
    (hsubtree : doJoin = false → (∀ k ∈ path, k.Concrete) →
      ∀ s', lookupPath path s = some s' → Retains ∅ s' subtree) (h : Retains a s t) :
    Retains a s (optionNodeTree (plainSet w)
      (assignOrJoinPath (plainSet w) subtree path doJoin a t)) := by
  induction path generalizing doJoin a s t with
  | nil =>
    by_cases ht : isEmptyTree (plainSet w) t = true
    · rw [eq_createLeaf_of_isEmptyTree ht] at h
      exact h.of_leaf _
    rw [assignOrJoinPath, if_neg ht]
    cases doJoin with
    | true => exact .joinTrees Finset.subset_union_left (.inl h)
    | false => exact ((hsubtree rfl (by simp) s rfl).mono (Finset.empty_subset a)).prune
  | cons k rest ih =>
    by_cases ht : isEmptyTree (plainSet w) t = true
    · rw [eq_createLeaf_of_isEmptyTree ht] at h
      exact h.of_leaf _
    obtain ⟨c, hassign, hwritten, hother⟩ :=
      assignOrJoinPath_level (D := plainSet w) ht subtree k rest doJoin a
    -- what a strong write puts below a label of its path holds what was found there
    have hbelow : (doJoin || decide (k = .anyIndex)) = false →
        (∀ k ∈ rest, k.Concrete) → ∀ s₁, lookup s.children k = some s₁ →
        ∀ s', lookupPath rest s₁ = some s' → Retains ∅ s' subtree := by
      intro hstrong hrest s₁ hfind s' hs
      rw [Bool.or_eq_false_iff, decide_eq_false_iff_not] at hstrong
      refine hsubtree hstrong.1 (List.forall_mem_cons.mpr ⟨?_, hrest⟩) s' ?_
      · cases k with
        | anyIndex => exact absurd rfl hstrong.2
        | index i => trivial
        | field f => trivial
      · rw [lookupPath, hfind]
        exact hs
    -- a child that the write reaches
    have hreached : ∀ l s₁, WrittenAt s.children k l → s.children.find? l = some s₁ → ∀ t₁,
        Retains (a ∪ t.element) s₁ t₁ → Retains (a ∪ t.element) s₁ (optionNodeTree (plainSet w)
          (assignOrJoinPath (plainSet w) subtree rest (doJoin || decide (k = .anyIndex))
            (a ∪ t.element) t₁)) := by
      intro l s₁ hl hs t₁ ht₁
      refine ih ?_ (fun hstrong hrest => hbelow hstrong hrest s₁ ?_) ht₁
      · have := hcreates.2 l s₁ hl hs
        simpa using this
      · cases hl with
        | own => exact lookup_of_find? hs
        | named hi => simp at hstrong
    rw [hassign, node_eq]
    refine .node h.element (fun l s₁ hs => ?_) fun i s₁ t₁ hi hs ht₁ => ?_
    · have hown := h.find hs
      rw [element_node, ownChild, children_node]
      rw [ownChild] at hown
      by_cases hl : WrittenAt t.children k l
      · have hkept : WrittenAt s.children k l := by
          cases hl with
          | own => exact .own k
          | named hi => exact .named (by rw [hs]; exact Option.some_ne_none s₁)
        have hkeep := hreached l s₁ hkept hs _ hown
        rw [optionNodeTree_eq] at hkeep
        rw [hwritten l hl, lookupTreeWithDefault_eq, optionNodeTree_eq]
        exact hkeep
      · rwa [hother l hl]
    · rw [children_node] at ht₁
      rw [element_node]
      by_cases hl : WrittenAt t.children k (.index i)
      · have hwrite := hwritten _ hl
        rw [ht₁, lookupTreeWithDefault_eq] at hwrite
        cases hl with
        | own =>
          -- the index is new in the first tree: only a strong write may name it, at its own path
          obtain ⟨hstrong, rfl⟩ := (hcreates.1 i rfl hi).resolve_left
            (by rw [hs]; exact Option.some_ne_none s₁)
          rw [Bool.not_eq_true'] at hstrong
          have hfound := hbelow (by simpa using hstrong) (by simp) s₁
            ((lookup_index_of_none hi).trans hs) s₁ rfl
          have hprune := (hfound.mono (Finset.empty_subset (a ∪ t.element))).prune (w := w)
          rw [hstrong] at hwrite
          have hnil := assignAt_nil (w := w) subtree (a ∪ t.element)
            (optionNodeTree (plainSet w) (t.children.find? (.index i)))
          rw [assignAt] at hnil
          have hsubtree : pruneTree (plainSet w) (a ∪ t.element) subtree = some t₁ :=
            hnil.symm.trans hwrite.symm
          rwa [hsubtree] at hprune
        | named hnamed =>
          obtain ⟨t₂, ht₂⟩ := Option.ne_none_iff_exists'.mp hnamed
          rw [ht₂] at hwrite
          have hkept := hreached .anyIndex s₁ (.own _) hs t₂ (h.star hi hs ht₂)
          have hresult : some t₁ = assignOrJoinPath (plainSet w) subtree rest
            (doJoin || decide (Label.anyIndex = .anyIndex)) (a ∪ t.element) t₂ := hwrite
          rwa [← hresult] at hkept
      · rw [hother _ hl] at ht₁
        exact h.star hi hs ht₁

end Pysa
