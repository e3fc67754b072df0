/-
  Subject: WHAT A JOIN OF TREES READS (`abstractTreeDomain.ml`, `join_children` against `read`).

  An index with a child of its own is an exception to `[*]`. The join prunes a child once the
  joined ancestors cover all of it, and with the child the exception goes: from then on the index
  reads `[*]`. A tree without empty subtrees cannot say anything else.

  * `Covered`, `Dropped` -- when the join drops an index;
  * `Redirect` -- the path that a path of the join reads in the two sides: each dropped index is
    replaced by an index that neither side names;
  * `lookupTree_joinChildren_eq` -- one level of the join;
  * `taintAt_joinTrees` -- a whole path, by induction on the redirection;
  * `read_join` -- **reads of a join**, and which upper bounds are above it.
-/
import Pysa.Domains.TreeRead

namespace Pysa

open Pysa.Tree

universe u

variable {α : Type u} [DecidableEq α]

/-! ## 1. Dropped indices -/

/-- All that the tree holds is contained in the ancestors. -/
def Covered (ancestors : Finset α) (t : Tree (Finset α)) : Prop :=
  ∀ p : List Label, (∀ k ∈ p, k.Concrete) → taintAt p t ⊆ ancestors

section Join

variable (w : Finset α → Finset α)

/-- The joined ancestors cover what both sides hold under the label. -/
def BothCovered (ancestors : Finset α) (lc rc : LabelMap (Finset α)) (k : Label) : Prop :=
  Covered ancestors (lookupTree (plainSet w) lc k) ∧
    Covered ancestors (lookupTree (plainSet w) rc k)

/-- An index of one of the sides that the join does not keep. -/
def Dropped (ancestors : Finset α) (lc rc : LabelMap (Finset α)) (i : String) : Prop :=
  ¬ (lc.find? (.index i) = none ∧ rc.find? (.index i) = none) ∧
    BothCovered w ancestors lc rc (.index i)

/-- `Redirect ancestors l r p p'`: what `p` reads in the join of `l` and `r` is what `p'` reads in
    the two sides. The paths differ where an index is dropped; there `p'` has an index that
    neither side names. -/
inductive Redirect : Finset α → Tree (Finset α) → Tree (Finset α) → List Label → List Label → Prop
  | nil (a l r) : Redirect a l r [] []
  | keep {a l r k p p'}
      (hk : ∀ i, k = .index i → ¬ Dropped w (a ∪ (l.element ∪ r.element))
        l.children r.children i)
      (h : Redirect (a ∪ (l.element ∪ r.element))
        (lookupTree (plainSet w) l.children k)
        (lookupTree (plainSet w) r.children k) p p') :
      Redirect a l r (k :: p) (k :: p')
  | drop {a l r i j p p'}
      (hi : Dropped w (a ∪ (l.element ∪ r.element)) l.children r.children i)
      (hj : l.children.find? (.index j) = none ∧ r.children.find? (.index j) = none)
      (h : Redirect (a ∪ (l.element ∪ r.element))
        (lookupTree (plainSet w) l.children .anyIndex)
        (lookupTree (plainSet w) r.children .anyIndex) p p') :
      Redirect a l r (.index i :: p) (.index j :: p')

variable {w}

theorem Redirect.concrete {a : Finset α} {l r : Tree (Finset α)} {p p' : List Label}
    (h : Redirect w a l r p p') (hp : ∀ k ∈ p, k.Concrete) :
    ∀ k ∈ p', k.Concrete := by
  induction h with
  | nil => exact hp
  | keep _ _ ih =>
    rw [List.forall_mem_cons] at hp ⊢
    exact ⟨hp.1, ih hp.2⟩
  | drop _ _ _ ih =>
    rw [List.forall_mem_cons] at hp ⊢
    exact ⟨trivial, ih hp.2⟩

/-- Every path is redirected somewhere. -/
theorem Redirect.exists (a : Finset α) (l r : Tree (Finset α)) (p : List Label) :
    ∃ p', Redirect w a l r p p' := by
  induction p generalizing a l r with
  | nil => exact ⟨[], .nil a l r⟩
  | cons k p ih =>
    by_cases hk : ∃ i, k = .index i ∧ Dropped w
        (a ∪ (l.element ∪ r.element)) l.children r.children i
    · obtain ⟨i, rfl, hi⟩ := hk
      obtain ⟨j, hj⟩ := exists_fresh_index l.children r.children
      obtain ⟨p', h⟩ := ih (a ∪ (l.element ∪ r.element))
        (lookupTree (plainSet w) l.children .anyIndex)
        (lookupTree (plainSet w) r.children .anyIndex)
      exact ⟨.index j :: p', .drop hi hj h⟩
    · obtain ⟨p', h⟩ := ih (a ∪ (l.element ∪ r.element))
        (lookupTree (plainSet w) l.children k)
        (lookupTree (plainSet w) r.children k)
      exact ⟨k :: p', .keep (fun i hi hd => hk ⟨i, hi, hd⟩) h⟩

/-! ## 2. When nothing is left -/

theorem covered_lookupTree {a : Finset α} {t : Tree (Finset α)} (h : Covered a t) (k : Label) :
    Covered a (lookupTree (plainSet w) t.children k) := by
  intro p hp
  obtain ⟨i, hi, hli, -⟩ := exists_concrete_label t.children t.children k
  have := h (i :: p) (List.forall_mem_cons.mpr ⟨hi, hp⟩)
  rw [taintAt_cons w, lookupTree, hli] at this
  exact Finset.union_subset_right this

theorem covered_of_find? {a : Finset α} {t s : Tree (Finset α)} {k : Label}
    (h : Covered a t) (hk : t.children.find? k = some s) : Covered a s := by
  have := covered_lookupTree (w := id) h k
  rwa [lookupTree, lookup_of_find? hk] at this

/-- Nothing is left of a covered tree. -/
theorem pruneTree_eq_none {a : Finset α} {t : Tree (Finset α)} (h : Covered a t) :
    pruneTree (plainSet w) a t = none := by
  induction t using Tree.induct with
  | node e c ih =>
    have he : e ⊆ a := h [] (by simp)
    have hc : c.filterMap (pruneTree (plainSet w) a) = .empty := by
      rw [← SortedMap.isEmpty_iff_eq, SortedMap.isEmpty_iff]
      intro k
      rw [SortedMap.find?_filterMap]
      cases hk : c.find? k with
      | none => rfl
      | some s => exact ih k s hk (covered_of_find? h hk)
    rw [pruneTree_eq, filterByAncestors_newElement, filterByAncestors_ancestors, element_node,
      if_pos he, children_node, hc, Finset.sdiff_eq_empty_iff_subset.mpr he]
    rfl

/-- Without a sink transformation the ancestors one level down hold the node's element. -/
theorem filterByAncestors_ancestors_plain (a e : Finset α) :
    (filterByAncestors (plainSet w) a e).ancestors = a ∪ e := by
  rw [filterByAncestors_ancestors]
  split
  · rename_i h
    exact (Finset.union_eq_left.mpr h).symm
  · rfl

theorem joinTrees_plain (a : Finset α) (l r : Tree (Finset α)) :
    joinTrees (plainSet w) id a none l r =
      createNodeOption (plainSet w) ((l.element ∪ r.element) \ a)
        (joinChildren (plainSet w) id (a ∪ (l.element ∪ r.element)) none
          l.children r.children) := by
  rw [joinTrees]
  simp only [mustWidenDepth, elementJoin, mustWidenElement, Option.isSome_none,
    Bool.false_eq_true, if_false, decrementWiden, filterByAncestors_newElement,
    filterByAncestors_ancestors_plain, setElement_join]

theorem pruneTree_plain (a : Finset α) (t : Tree (Finset α)) :
    pruneTree (plainSet w) a t =
      createNodeOption (plainSet w) (t.element \ a)
        (t.children.filterMap (pruneTree (plainSet w) (a ∪ t.element))) := by
  rw [pruneTree_eq, filterByAncestors_newElement, filterByAncestors_ancestors_plain]

theorem joinTrees_emptyTree_right (a : Finset α) (t : Tree (Finset α)) :
    joinTrees (plainSet w) id a none t (emptyTree (plainSet w))
      = pruneTree (plainSet w) a t := by
  rw [joinTrees_plain, pruneTree_plain, element_emptyTree, setElement_bottom, Finset.union_empty,
    children_emptyTree]
  congr 1
  refine SortedMap.ext_find? fun k => ?_
  rw [joinChildren_find?, SortedMap.find?_filterMap, lookup_empty]
  cases hk : t.children.find? k with
  | none => simp
  | some s => simp [lookup_of_find? hk, joinOptionTrees]

theorem joinTrees_emptyTree_left (a : Finset α) (t : Tree (Finset α)) :
    joinTrees (plainSet w) id a none (emptyTree (plainSet w)) t
      = pruneTree (plainSet w) a t := by
  rw [joinTrees_plain, pruneTree_plain, element_emptyTree, setElement_bottom, Finset.empty_union,
    children_emptyTree]
  congr 1
  refine SortedMap.ext_find? fun k => ?_
  rw [joinChildren_find?, SortedMap.find?_filterMap, lookup_empty]
  cases hk : t.children.find? k with
  | none => simp
  | some s => simp [lookup_of_find? hk, joinOptionTrees]

theorem covered_emptyTree (a : Finset α) :
    Covered a (emptyTree (plainSet w)) := fun p _ => by
  rw [taintAt_emptyTree]
  exact Finset.empty_subset a

/-- Joining without widening: an absent subtree is an empty one. -/
theorem joinOptionTrees_eq (a : Finset α) (l r : Option (Tree (Finset α))) :
    joinOptionTrees (plainSet w) id a none l r =
      joinTrees (plainSet w) id a none
        (optionNodeTree (plainSet w) l)
        (optionNodeTree (plainSet w) r) := by
  cases l with
  | none =>
    cases r with
    | none =>
      rw [joinOptionTrees, optionNodeTree, joinTrees_emptyTree_left,
        pruneTree_eq_none (covered_emptyTree a)]
    | some r =>
      rw [joinOptionTrees, if_pos rfl, optionNodeTree, optionNodeTree,
        joinTrees_emptyTree_left]
  | some l =>
    cases r with
    | none => rw [joinOptionTrees, optionNodeTree, optionNodeTree, joinTrees_emptyTree_right]
    | some r => rw [joinOptionTrees, optionNodeTree, optionNodeTree]

/-- **The join leaves nothing** exactly of two covered trees. -/
theorem joinTrees_eq_none_iff (a : Finset α) (l r : Tree (Finset α)) :
    joinTrees (plainSet w) id a none l r = none ↔ Covered a l ∧ Covered a r := by
  constructor
  · intro h
    have hle := joinTrees_le (setElement_lawful w .identity id)
      (setElement_lawfulSink w .identity id) l r
      (show SinkClosed _ a by simp [SinkClosed]) (show _ = true from (setElement_lawful w .identity id).refl a)
    rw [h, lessOrEqualTree_iff_taintAt, lessOrEqualTree_iff_taintAt] at hle
    have hcov : ∀ {t : Tree (Finset α)}, (∀ p : List Label, (∀ k ∈ p, k.Concrete) →
        taintAt p t ⊆ a ∪ taintAt p (optionNodeTree (plainSet w) none)) →
        Covered a t := fun ht p hp => by
      have := ht p hp
      rwa [optionNodeTree, taintAt_emptyTree, Finset.union_empty] at this
    exact ⟨hcov hle.1, hcov hle.2⟩
  · rintro ⟨hl, hr⟩
    induction l using Tree.induct generalizing r with
    | node e c ih =>
      have he : e ∪ r.element ⊆ a :=
        Finset.union_subset (hl [] (by simp)) (hr [] (by simp))
      have hc : joinChildren (plainSet w) id a none c r.children = .empty := by
        rw [← SortedMap.isEmpty_iff_eq, SortedMap.isEmpty_iff]
        intro k
        rw [joinChildren_find?, joinOptionTrees_eq]
        split
        · rfl
        · have hrk := covered_lookupTree (w := w) hr k
          cases hk : lookup c k with
          | some s =>
            obtain ⟨k', hk'⟩ := exists_find?_of_lookup hk
            exact ih k' s hk' _ (covered_of_find? hl hk') hrk
          | none =>
            rw [optionNodeTree, joinTrees_emptyTree_left]
            exact pruneTree_eq_none hrk
      rw [joinTrees_plain, element_node, children_node, Finset.union_eq_left.mpr he, hc,
        Finset.sdiff_eq_empty_iff_subset.mpr he]
      rfl

/-! ## 3. One level, one path -/

section OneLevel

variable (a : Finset α) (lc rc : LabelMap (Finset α))

/-- The join of what a label finds in the two sides. -/
def joinLookups (w : Finset α → Finset α) (a : Finset α)
    (lc rc : LabelMap (Finset α)) (k : Label) : Option (Tree (Finset α)) :=
  joinTrees (plainSet w) id a none
    (lookupTree (plainSet w) lc k)
    (lookupTree (plainSet w) rc k)

theorem joinLookups_eq_none_iff (k : Label) :
    joinLookups w a lc rc k = none ↔
      BothCovered w a lc rc k := joinTrees_eq_none_iff a _ _

theorem find?_joinChildren (k : Label) :
    (joinChildren (plainSet w) id a none lc rc).find? k =
      if lc.find? k = none ∧ rc.find? k = none then none
      else joinLookups w a lc rc k := by
  rw [joinChildren_find?, joinOptionTrees_eq]
  rfl

/-- A label that reads no other one finds the join of what it finds in the sides. -/
theorem lookupTree_joinChildren_own {k : Label} (hk : ∀ i, k ≠ .index i) :
    lookupTree (plainSet w)
        (joinChildren (plainSet w) id a none lc rc) k =
      optionNodeTree (plainSet w) (joinLookups w a lc rc k) := by
  have hown : ∀ c : LabelMap (Finset α), lookup c k = c.find? k := fun c => by
    cases k with
    | anyIndex => rfl
    | index i => exact absurd rfl (hk i)
    | field f => rfl
  rw [lookupTree, hown, find?_joinChildren]
  split
  · rename_i hboth
    have : BothCovered w a lc rc k := by
      rw [BothCovered, lookupTree, lookupTree, hown, hown, hboth.1, hboth.2]
      exact ⟨covered_emptyTree a, covered_emptyTree a⟩
    rw [(joinLookups_eq_none_iff a lc rc k).mpr this]
  · rfl

/-- A dropped index finds the join of the `[*]`s. -/
theorem lookupTree_joinChildren_dropped {i : String}
    (hi : Dropped w a lc rc i) :
    lookupTree (plainSet w)
        (joinChildren (plainSet w) id a none lc rc) (.index i) =
      optionNodeTree (plainSet w)
        (joinLookups w a lc rc .anyIndex) := by
  have hnone : (joinChildren (plainSet w) id a none lc rc).find? (.index i)
      = none := by
    rw [find?_joinChildren, if_neg hi.1, joinLookups_eq_none_iff]
    exact hi.2
  rw [← lookupTree_joinChildren_own a lc rc (k := .anyIndex) (by simp), lookupTree, lookupTree,
    lookup_index_of_none hnone, lookup_anyIndex]

/-- An index that is not dropped finds the join of what it finds in the sides. -/
theorem lookupTree_joinChildren_kept {i : String}
    (hi : ¬ Dropped w a lc rc i) :
    lookupTree (plainSet w)
        (joinChildren (plainSet w) id a none lc rc) (.index i) =
      optionNodeTree (plainSet w)
        (joinLookups w a lc rc (.index i)) := by
  have hfind := find?_joinChildren (w := w) a lc rc (.index i)
  split at hfind
  · -- no side names the index: it reads `[*]` on both sides and in the join
    rename_i hboth
    have hstar := lookupTree_joinChildren_own (w := w) a lc rc
      (k := .anyIndex) (by simp)
    rw [joinLookups, lookupTree, lookupTree, lookupTree] at hstar ⊢
    rw [lookup_index_of_none hfind, lookup_index_of_none hboth.1, lookup_index_of_none hboth.2]
    exact hstar
  · rename_i hbound
    cases hJ : joinLookups w a lc rc (.index i) with
    | none => exact absurd ⟨hbound, (joinLookups_eq_none_iff a lc rc _).mp hJ⟩ hi
    | some t =>
      rw [hJ] at hfind
      rw [lookupTree, lookup_of_find? hfind]

end OneLevel

/-- **A path in the join of two trees** reads what the redirected path reads in the trees, once
    the ancestors are added. -/
theorem taintAt_joinTrees {a : Finset α} {l r : Tree (Finset α)} {p p' : List Label}
    (h : Redirect w a l r p p') :
    a ∪ taintAt p (optionNodeTree (plainSet w)
        (joinTrees (plainSet w) id a none l r)) =
      a ∪ (taintAt p' l ∪ taintAt p' r) := by
  -- the node of the join, also where nothing is left of it
  have hnode : ∀ (a : Finset α) (l r : Tree (Finset α)) (p : List Label),
      taintAt p (optionNodeTree (plainSet w)
        (joinTrees (plainSet w) id a none l r)) =
      taintAt p (.node ((l.element ∪ r.element) \ a)
        (joinChildren (plainSet w) id (a ∪ (l.element ∪ r.element)) none
          l.children r.children)) := by
    intro a l r p
    rw [joinTrees_plain]
    obtain ⟨hn, hc, he⟩ | ⟨hn, -⟩ :=
      createNodeOption_cases (plainSet w) ((l.element ∪ r.element) \ a)
        (joinChildren (plainSet w) id (a ∪ (l.element ∪ r.element)) none
          l.children r.children)
    · rw [setElement_isBottom, decide_eq_true_eq] at he
      rw [hn, hc, he]
      rfl
    · rw [hn]
      rfl
  induction h with
  | nil a l r => rw [hnode, taintAt_nil, element_node, Finset.union_sdiff_self_eq_union]; rfl
  | @keep a l r k p p' hk h ih =>
    have hlook : lookupTree (plainSet w) (joinChildren
          (plainSet w) id (a ∪ (l.element ∪ r.element)) none l.children
          r.children) k =
        optionNodeTree (plainSet w) (joinLookups w
          (a ∪ (l.element ∪ r.element)) l.children r.children k) := by
      cases k with
      | index i => exact lookupTree_joinChildren_kept _ _ _ (hk i rfl)
      | anyIndex => exact lookupTree_joinChildren_own _ _ _ (by simp)
      | field f => exact lookupTree_joinChildren_own _ _ _ (by simp)
    rw [hnode, taintAt_cons w k p, element_node, children_node, hlook,
      ← Finset.union_assoc, Finset.union_sdiff_self_eq_union, joinLookups, ih,
      taintAt_cons w k p' l, taintAt_cons w k p' r]
    simp only [Finset.union_assoc, Finset.union_left_comm]
  | @drop a l r i j p p' hi hj h ih =>
    have hl : lookupTree (plainSet w) l.children (.index j) =
        lookupTree (plainSet w) l.children .anyIndex := by
      rw [lookupTree, lookup_index_of_none hj.1]
      rfl
    have hr : lookupTree (plainSet w) r.children (.index j) =
        lookupTree (plainSet w) r.children .anyIndex := by
      rw [lookupTree, lookup_index_of_none hj.2]
      rfl
    rw [hnode, taintAt_cons w (.index i) p, element_node, children_node,
      lookupTree_joinChildren_dropped _ _ _ hi, ← Finset.union_assoc,
      Finset.union_sdiff_self_eq_union, joinLookups, ih,
      taintAt_cons w (.index j) p' l,
      taintAt_cons w (.index j) p' r, hl, hr]
    simp only [Finset.union_assoc, Finset.union_left_comm]

/-! ## 4. Reads of a join -/

/-- The cases in which `join` returns one of its arguments as it is. -/
def Shortcut (w : Finset α → Finset α) (phys : PhysEq (Tree (Finset α)))
    (l r : Tree (Finset α)) : Prop :=
  phys.test l r ∨ isBottom (plainSet w) r ∨
    isBottom (plainSet w) l

/-- The root of what a path reads. -/
def readRoot (w : Finset α → Finset α) (p : List Label) (t : Tree (Finset α)) :
    Finset α := (read (plainSet w) (fun _ e => e) p t).element

theorem taintAt_of_isBottom {t : Tree (Finset α)} (h : isBottom (plainSet w) t)
    (p : List Label) : taintAt p t = ∅ := by
  obtain ⟨e, c⟩ := t
  rw [isBottom, isEmptyTree, isEmptyInfo, Bool.and_eq_true, SortedMap.isEmpty_iff_eq] at h
  simp only [children_node, element_node, setElement_isBottom, decide_eq_true_eq] at h
  rw [h.1, h.2]
  exact taintAt_emptyTree w p

/-- A shortcut reads the union of the two sides everywhere. -/
theorem taintAt_join_of_shortcut {phys : PhysEq (Tree (Finset α))} {l r : Tree (Finset α)}
    (h : Shortcut w phys l r) (p : List Label) :
    taintAt p (join (plainSet w) phys l r) = taintAt p l ∪ taintAt p r := by
  unfold join
  by_cases hlr : (phys.test l r || isBottom (plainSet w) r) = true
  · rw [if_pos hlr]
    rcases Bool.or_eq_true _ _ ▸ hlr with hl | hr
    · rw [← phys.sound hl, Finset.union_self]
    · rw [taintAt_of_isBottom hr, Finset.union_empty]
  · rw [if_neg hlr]
    rw [Bool.or_eq_true, not_or] at hlr
    have hl := (h.resolve_left hlr.1).resolve_left hlr.2
    rw [if_pos hl, taintAt_of_isBottom hl, Finset.empty_union]

/-- Otherwise a path reads the union of the two sides at the redirected path. -/
theorem taintAt_join_of_redirect {phys : PhysEq (Tree (Finset α))} {l r : Tree (Finset α)}
    (h : ¬ Shortcut w phys l r) {p p' : List Label}
    (hp : Redirect w ∅ l r p p') :
    taintAt p (join (plainSet w) phys l r) = taintAt p' l ∪ taintAt p' r := by
  simp only [Shortcut, not_or] at h
  have := taintAt_joinTrees hp
  rw [Finset.empty_union, Finset.empty_union] at this
  unfold join
  rw [if_neg (by rw [Bool.or_eq_true, not_or]; exact ⟨h.1, h.2.1⟩), if_neg h.2.2]
  exact this

theorem readRoot_eq {p : List Label} (hp : ∀ k ∈ p, k.Concrete) (t : Tree (Finset α)) :
    readRoot w p t = taintAt p t := element_read w hp t

/-- The trees above a join: the upper bounds that give each dropped index what its redirection
    reads in the two sides. -/
theorem join_lessOrEqual_iff (phys : PhysEq (Tree (Finset α))) (l r u : Tree (Finset α)) :
    lessOrEqual (plainSet w) (join (plainSet w) phys l r) u ↔
      lessOrEqual (plainSet w) l u ∧
      lessOrEqual (plainSet w) r u ∧
      (¬ Shortcut w phys l r → ∀ p p' : List Label, (∀ k ∈ p, k.Concrete) →
        Redirect w ∅ l r p p' →
        readRoot w p' l ∪ readRoot w p' r ⊆
          readRoot w p u) := by
  have hub := join_upper_bound (setElement_lawful w .identity id)
    (setElement_lawfulSink w .identity id) phys l r
  simp only [lessOrEqual_iff_read] at hub ⊢
  constructor
  · intro h
    refine ⟨fun p hp => (hub.1 p hp).trans (h p hp), fun p hp => (hub.2 p hp).trans (h p hp),
      fun hs p p' hp hr => ?_⟩
    have := h p hp
    rwa [element_read _ hp, taintAt_join_of_redirect hs hr, ← readRoot_eq (hr.concrete hp),
      ← readRoot_eq (hr.concrete hp)] at this
  · rintro ⟨hl, hr, hu⟩ p hp
    by_cases hs : Shortcut w phys l r
    · rw [element_read _ hp, taintAt_join_of_shortcut hs, ← element_read w hp,
        ← element_read w hp]
      exact Finset.union_subset (hl p hp) (hr p hp)
    · obtain ⟨p', hp'⟩ := Redirect.exists (w := w) ∅ l r p
      rw [element_read _ hp, taintAt_join_of_redirect hs hp', ← readRoot_eq (hp'.concrete hp),
        ← readRoot_eq (hp'.concrete hp)]
      exact hu hs p p' hp hp'

/-- **Reads of a join.** Every path reads at least the union of the two sides. It reads the union
    when no index on it is dropped, and in any case the union at the redirected path. The join is
    below exactly those upper bounds that read as much at the redirections, so it is the least
    upper bound when no index is dropped. -/
theorem read_join (phys : PhysEq (Tree (Finset α))) (l r : Tree (Finset α)) :
    (∀ p : List Label, (∀ k ∈ p, k.Concrete) →
      readRoot w p l ∪ readRoot w p r ⊆
        readRoot w p (join (plainSet w) phys l r) ∧
      (Shortcut w phys l r ∨ Redirect w ∅ l r p p →
        readRoot w p (join (plainSet w) phys l r) =
          readRoot w p l ∪ readRoot w p r) ∧
      (∃ p', Redirect w ∅ l r p p') ∧
      (¬ Shortcut w phys l r → ∀ p', Redirect w ∅ l r p p' →
        readRoot w p (join (plainSet w) phys l r) =
          readRoot w p' l ∪ readRoot w p' r)) ∧
    (∀ u, lessOrEqual (plainSet w)
        (join (plainSet w) phys l r) u ↔
      lessOrEqual (plainSet w) l u ∧
      lessOrEqual (plainSet w) r u ∧
      (¬ Shortcut w phys l r → ∀ p p' : List Label, (∀ k ∈ p, k.Concrete) →
        Redirect w ∅ l r p p' →
        readRoot w p' l ∪ readRoot w p' r ⊆
          readRoot w p u)) ∧
    ((∀ p : List Label, (∀ k ∈ p, k.Concrete) → Redirect w ∅ l r p p) →
      ∀ u, lessOrEqual (plainSet w) l u →
        lessOrEqual (plainSet w) r u →
        lessOrEqual (plainSet w)
          (join (plainSet w) phys l r) u) := by
  have hself : ∀ p : List Label, (∀ k ∈ p, k.Concrete) →
      Shortcut w phys l r ∨ Redirect w ∅ l r p p →
      readRoot w p (join (plainSet w) phys l r) =
        readRoot w p l ∪ readRoot w p r := by
    intro p hp h
    rw [readRoot_eq hp, readRoot_eq hp, readRoot_eq hp]
    by_cases hs : Shortcut w phys l r
    · exact taintAt_join_of_shortcut hs p
    · exact taintAt_join_of_redirect hs (h.resolve_left hs)
  refine ⟨fun p hp => ⟨?_, hself p hp, Redirect.exists ∅ l r p, fun hs p' h => ?_⟩,
    join_lessOrEqual_iff phys l r, fun h u hl hr => ?_⟩
  · have hub := join_upper_bound (setElement_lawful w .identity id)
      (setElement_lawfulSink w .identity id) phys l r
    rw [lessOrEqual_iff_read, lessOrEqual_iff_read] at hub
    exact Finset.union_subset (hub.1 p hp) (hub.2 p hp)
  · rw [readRoot_eq hp, readRoot_eq (h.concrete hp), readRoot_eq (h.concrete hp)]
    exact taintAt_join_of_redirect hs h
  · rw [lessOrEqual_iff_read] at hl hr ⊢
    intro p hp
    exact (hself p hp (Or.inr (h p hp))).subset.trans (Finset.union_subset (hl p hp) (hr p hp))

/-- An index whose taint the other side has at the root is dropped and then reads `[*]`: the join
    adds taint `0` at `[i]`, and it is not below an upper bound that keeps the index. -/
theorem read_join_dropped_index :
    let l : Tree (Finset ℕ) := .node ∅
      ((SortedMap.singleton .anyIndex (createLeaf {0})).add (.index "i") (createLeaf {1}))
    let r : Tree (Finset ℕ) := createLeaf {1}
    let u : Tree (Finset ℕ) := .node {1}
      ((SortedMap.singleton .anyIndex (createLeaf {0})).add (.index "i") (createLeaf {2}))
    let joined := join (plainSet id) (.never _) l r
    readRoot id [.index "i"] l ∪ readRoot id [.index "i"] r = {1} ∧
      readRoot id [.index "i"] joined = {0, 1} ∧
      lessOrEqual (plainSet id) l u ∧ lessOrEqual (plainSet id) r u ∧
      ¬ lessOrEqual (plainSet id) joined u := by
  decide +kernel

end Join

end Pysa
