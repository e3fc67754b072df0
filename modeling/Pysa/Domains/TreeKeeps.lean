/-
  Subject: WHAT READS AND STORES KEEP (`abstractTreeDomain.ml`, `read_refined`, `create_tree`,
    `assign`).

  * `taintAt_subset_readRefined` -- **a read keeps what its instances hold**;
  * `taintAt_subset_createTree_of_matches` -- so does a tree hung below a label;
  * `taintAt_subset_assign_nil` -- and an assignment to a whole tree.
-/
import Pysa.Domains.TreeAssignRead
import Pysa.Domains.TreePathMap

namespace Pysa

open Pysa.Tree

universe u

variable {α : Type u} [DecidableEq α] {w : Finset α → Finset α}

/-! ## 1. Reads -/

section Folds

variable {A B : Type*} {step : B → A → B}

/-- What every step keeps is seen at the end of a fold that starts with it or meets it. -/
theorem foldl_seen (seen : B → Prop) (hkeep : ∀ acc x, seen acc → seen (step acc x))
    (entries : List A) {init : B}
    (h : seen init ∨ ∃ x ∈ entries, ∀ acc, seen (step acc x)) : seen (entries.foldl step init) := by
  induction entries generalizing init with
  | nil => exact h.resolve_right fun ⟨_, hx, _⟩ => absurd hx List.not_mem_nil
  | cons x rest ih =>
    rw [List.foldl_cons]
    refine ih ?_
    rcases h with h | ⟨y, hy, h⟩
    · exact .inl (hkeep init x h)
    · rcases List.mem_cons.mp hy with rfl | hy
      · exact .inl (h init)
      · exact .inr ⟨y, hy, h⟩

end Folds

theorem lessOrEqual_iff_taintAt (l r : Tree (Finset α)) :
    lessOrEqual (plainSet w) l r ↔
      ∀ q : List Label, (∀ k ∈ q, k.Concrete) → taintAt q l ⊆ taintAt q r := by
  rw [lessOrEqual, lessOrEqualTree_iff_taintAt]
  simp only [setElement_bottom, Finset.empty_union]

theorem taintAt_joinOptionTrees {q : List Label} (hq : ∀ k ∈ q, k.Concrete)
    (l r : Option (Tree (Finset α))) :
    taintAt q (optionNodeTree (plainSet w) l) ∪ taintAt q (optionNodeTree (plainSet w) r) ⊆
      taintAt q (optionNodeTree (plainSet w)
        (joinOptionTrees (plainSet w) id (plainSet w).bottom none l r)) := by
  have L := setElement_lawful (α := α) w .identity id
  have S := setElement_lawfulSink (α := α) w .identity id
  have hle : ∀ t, l = some t ∨ r = some t → taintAt q t ⊆ taintAt q (optionNodeTree (plainSet w)
      (joinOptionTrees (plainSet w) id (plainSet w).bottom none l r)) := by
    intro t ht
    refine (lessOrEqual_iff_taintAt (w := w) _ _).mp ?_ q hq
    exact le_joinOptionTrees (fun t => prune_le L S t (sinkClosed_bottom L) (L.refl _))
      (fun l' r' _ _ => joinTrees_le L S l' r' (sinkClosed_bottom L) (L.refl _))
      (fun r' hne _ => absurd rfl hne) ht
  refine Finset.union_subset ?_ ?_
  · cases l with
    | none => exact (taintAt_emptyTree w q).trans_subset (Finset.empty_subset _)
    | some t => exact hle t (.inl rfl)
  · cases r with
    | none => exact (taintAt_emptyTree w q).trans_subset (Finset.empty_subset _)
    | some t => exact hle t (.inr rfl)

/-- What a raw read has met on a path: the elements above it and the subtree. -/
def rawTaintAt (w : Finset α → Finset α) (q : List Label)
    (raw : Finset α × Option (Tree (Finset α))) : Finset α :=
  raw.1 ∪ taintAt q (optionNodeTree (plainSet w) raw.2)

theorem rawTaintAt_join {q : List Label} (hq : ∀ k ∈ q, k.Concrete)
    (acc result : Finset α × Option (Tree (Finset α))) :
    rawTaintAt w q acc ∪ rawTaintAt w q result ⊆
      rawTaintAt w q ((plainSet w).join result.1 acc.1,
        joinOptionTrees (plainSet w) id (plainSet w).bottom none acc.2 result.2) := by
  have htrees := taintAt_joinOptionTrees (w := w) hq acc.2 result.2
  rw [Finset.union_subset_iff] at htrees
  simp only [rawTaintAt, setElement_join]
  refine Finset.union_subset ?_ ?_
  · exact Finset.union_subset_union Finset.subset_union_right htrees.1
  · exact Finset.union_subset_union Finset.subset_union_left htrees.2

/-- **A raw read keeps what its instances hold**, together with the elements above it. -/
theorem taintAt_subset_readRawRefined {path : List Label.Refined} {p : List Label}
    (hp : Instance path p) {q : List Label} (hq : ∀ k ∈ q, k.Concrete) (a : Finset α)
    (t : Tree (Finset α)) :
    a ∪ taintAt (p ++ q) t ⊆
      rawTaintAt w q (readRawRefined (plainSet w) (fun _ e => e) false a path t) := by
  induction hp generalizing a t with
  | nil =>
    rw [readRawRefined, rawTaintAt, optionNodeTree_createNodeOption]
    exact Finset.Subset.refl _
  | @cons l k path p hk _ ih =>
    rw [List.cons_append, taintAt, ← Finset.union_assoc]
    have hconcrete : ∀ k : Label, k.Concrete →
        a ∪ t.element ∪ ((lookup t.children k).map (taintAt (p ++ q))).getD ∅ ⊆
          rawTaintAt w q (readRawRefined (plainSet w) (fun _ e => e) false a
            (Label.Refined.toRefined k :: path) t) := by
      intro k hk
      rw [readRawRefined_concrete_cons w hk]
      cases lookup t.children k with
      | some s => exact ih (a ∪ t.element) s
      | none =>
        rw [Option.map_none, Option.getD_none, Finset.union_empty]
        exact Finset.subset_union_left
    cases hk with
    | field f => exact hconcrete (.field f) trivial
    | index i => exact hconcrete (.index i) trivial
    | @anyIndex excluded i hi =>
      rw [readRawRefined]
      simp only [ancestors_eq_union, Bool.not_false, if_true]
      rw [SortedMap.fold_eq_foldl]
      generalize hX : a ∪ t.element ∪
        ((lookup t.children (.index i)).map (taintAt (p ++ q))).getD ∅ = X
      have hread : ∀ s, lookup t.children (.index i) = some s → X ⊆ rawTaintAt w q
          (readRawRefined (plainSet w) (fun _ e => e) false (a ∪ t.element) path s) := by
        intro s hs
        rw [← hX, hs]
        exact ih _ s
      have hstep := fun acc s => Finset.union_subset_iff.mp (rawTaintAt_join (w := w) hq acc
        (readRawRefined (plainSet w) (fun _ e => e) false (a ∪ t.element) path s))
      refine foldl_seen (fun acc => X ⊆ rawTaintAt w q acc) (fun acc binding hacc => ?_) _ ?_
      · obtain ⟨k, s⟩ := binding
        cases k with
        | anyIndex => exact hacc.trans (hstep acc s).1
        | field f => exact hacc
        | index j =>
          dsimp only
          by_cases hj : j ∈ excluded
          · rw [if_pos hj]
            exact hacc
          · rw [if_neg hj]
            exact hacc.trans (hstep acc s).1
      · cases hown : t.children.find? (.index i) with
        | some s =>
          refine .inr ⟨(.index i, s), SortedMap.mem_bindings.mpr hown, fun acc => ?_⟩
          dsimp only
          rw [if_neg hi]
          exact (hread s (lookup_of_find? hown)).trans (hstep acc s).2
        | none =>
          cases hstar : t.children.find? .anyIndex with
          | some s =>
            refine .inr ⟨(.anyIndex, s), SortedMap.mem_bindings.mpr hstar, fun acc => ?_⟩
            exact (hread s ((lookup_index_of_none hown).trans hstar)).trans (hstep acc s).2
          | none =>
            left
            rw [← hX, lookup_index_of_none hown, hstar, Option.map_none, Option.getD_none,
              Finset.union_empty]
            exact Finset.subset_union_left

/-- **A read keeps what its instances hold.** -/
theorem taintAt_subset_readRefined {path : List Label.Refined} {p : List Label}
    (hp : Instance path p) {q : List Label} (hq : ∀ k ∈ q, k.Concrete) (t : Tree (Finset α)) :
    taintAt (p ++ q) t ⊆ taintAt q (readRefined (plainSet w) (fun _ e => e) path t) := by
  have L := setElement_lawful (α := α) w .identity id
  have S := setElement_lawfulSink (α := α) w .identity id
  have hraw := taintAt_subset_readRawRefined (w := w) hp hq ∅ t
  rw [Finset.empty_union] at hraw
  refine hraw.trans ?_
  rw [readRefined, rawTaintAt]
  obtain ⟨hleaf, hsub⟩ := joinTrees_le L S
    (createLeaf (readTreeRawRefined (plainSet w) (fun _ e => e) false path t).1)
    (readTreeRawRefined (plainSet w) (fun _ e => e) false path t).2
    (sinkClosed_bottom L) (L.refl _)
  refine Finset.union_subset ?_ ((lessOrEqual_iff_taintAt _ _).mp hsub q hq)
  exact (element_subset_taintAt q (createLeaf _)).trans
    ((lessOrEqual_iff_taintAt _ _).mp hleaf q hq)

/-- A read of one label reads on below what the label stands for. -/
theorem readRoot_subset_read {l k : Label} (hk : (Label.Refined.toRefined l).Matches k) {q : List Label}
    (hq : ∀ k ∈ q, k.Concrete) (t : Tree (Finset α)) :
    readRoot w (k :: q) t ⊆ readRoot w q (read (plainSet w) (fun _ e => e) [l] t) := by
  rw [readRoot_eq hq, readRoot_eq (List.forall_mem_cons.mpr ⟨hk.concrete, hq⟩), read]
  exact taintAt_subset_readRefined (.cons hk .nil) hq t

/-- A tree hung below a label is read there. -/
theorem taintAt_subset_createTree (k : Label) (q : List Label) (t : Tree (Finset α)) :
    taintAt q t ⊆ taintAt (k :: q) (createTree (plainSet w) [k] t) := by
  rw [createTree]
  cases ht : isEmptyTree (plainSet w) t with
  | true =>
    rw [taintAt_of_isBottom (w := w) ht]
    exact Finset.empty_subset _
  | false =>
    have hfind : (SortedMap.singleton k t).find? k = some t := by
      rw [SortedMap.find?_singleton, if_pos rfl]
    rw [createTreeOption_of_not_empty ht, optionNodeTree, createTreeOption.createTreeInternal,
      createTreeOption.createTreeInternal, taintAt, children_node, lookup_of_find? hfind]
    exact Finset.subset_union_right

/-- A tree hung below a label is read at every label that it stands for. -/
theorem taintAt_subset_createTree_of_matches {l k : Label}
    (hk : (Label.Refined.toRefined l).Matches k) (q : List Label) (t : Tree (Finset α)) :
    taintAt q t ⊆ taintAt (k :: q) (createTree (plainSet w) [l] t) := by
  cases l with
  | index i =>
    cases hk
    exact taintAt_subset_createTree (.index i) q t
  | field f =>
    cases hk
    exact taintAt_subset_createTree (.field f) q t
  | anyIndex =>
    cases hk with
    | @anyIndex _ i _ =>
      have hlookup : lookup (SortedMap.singleton Label.anyIndex t) (.index i) = some t := by
        have hindex : (SortedMap.singleton Label.anyIndex t).find? (.index i) = none := by
          rw [SortedMap.find?_singleton, if_neg (by simp)]
        rw [lookup_index_of_none hindex, SortedMap.find?_singleton, if_pos rfl]
      rw [createTree]
      cases ht : isEmptyTree (plainSet w) t with
      | true =>
        rw [taintAt_of_isBottom (w := w) ht]
        exact Finset.empty_subset _
      | false =>
        rw [createTreeOption_of_not_empty ht, optionNodeTree,
          createTreeOption.createTreeInternal, createTreeOption.createTreeInternal, taintAt,
          children_node, hlookup]
        exact Finset.subset_union_right

/-! ## 2. Stores -/

theorem sinkClosed_plainSet (a : Finset α) : SinkClosed (plainSet w) a :=
  (setElement_lawful (α := α) w .identity id).refl a

theorem taintAt_subset_pruneTree (a : Finset α) (t : Tree (Finset α)) {q : List Label}
    (hq : ∀ k ∈ q, k.Concrete) :
    taintAt q t ⊆ a ∪ taintAt q (optionNodeTree (plainSet w) (pruneTree (plainSet w) a t)) :=
  (lessOrEqualTree_iff_taintAt w _ _ _).mp (prune_le (setElement_lawful _ _ _)
    (setElement_lawfulSink _ _ _) t (sinkClosed_plainSet a)
    ((setElement_lawful _ _ _).refl a)) q hq

/-- A strong assignment to a whole tree puts the new one there. -/
theorem taintAt_subset_assign_nil (tree subtree : Tree (Finset α)) {q : List Label}
    (hq : ∀ k ∈ q, k.Concrete) :
    taintAt q subtree ⊆ taintAt q (assign (plainSet w) false tree [] subtree) := by
  have L := setElement_lawful (α := α) w .identity id
  have S := setElement_lawfulSink (α := α) w .identity id
  have hprune := assignAt_nil (w := w) subtree (plainSet w).bottom tree
  rw [assignAt] at hprune
  rw [assign, if_neg Bool.false_ne_true, assignTreePath, hprune]
  exact (lessOrEqual_iff_taintAt _ _).mp
    (prune_le L S subtree (sinkClosed_bottom L) (L.refl _)) q hq

/-- A weak assignment to a whole tree joins the new one to it. -/
theorem taintAt_subset_assign_weak_nil (tree subtree : Tree (Finset α)) {q : List Label}
    (hq : ∀ k ∈ q, k.Concrete) :
    taintAt q subtree ⊆ taintAt q (assign (plainSet w) true tree [] subtree) := by
  rw [assign, if_pos rfl, joinTreePath]
  by_cases hbottom : isBottom (plainSet w) subtree = true
  · rw [taintAt_of_isBottom (w := w) hbottom]
    exact Finset.empty_subset _
  · rw [if_neg hbottom, assignOrJoinPath]
    split
    · rw [bind_createTreeOption_nil]
      have hprune := taintAt_subset_pruneTree (w := w) ∅ subtree hq
      rwa [Finset.empty_union] at hprune
    · have hjoin := taintAt_joinOptionTrees (w := w) hq (some tree) (some subtree)
      rw [joinOptionTrees] at hjoin
      rw [if_pos rfl]
      exact Finset.subset_union_right.trans hjoin

theorem mapElements_id {E : Type u} : ∀ t : Tree E, mapElements id t = t
  | .node e ⟨keys, sorted, get⟩ => by
      rw [mapElements]
      congr 2
      funext k
      exact mapElements_id (get k)

end Pysa
