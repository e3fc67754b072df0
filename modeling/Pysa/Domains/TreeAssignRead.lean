/-
  Subject: READING AFTER A STRONG ASSIGNMENT (`abstractTreeDomain.ml`, `assign_or_join_path`,
    `assign ~weak:false`) to a path of fields and indices.

  * `assignAt_eq_none_iff` -- when nothing is left of a subtree that is assigned to;
  * `readRoot_assign` -- **put-get**: at and below the path the elements above it and the new
    subtree are read, and a `[*]` beside the path where nothing is left;
  * `readRoot_assign_frame` -- **frame**: a path that goes another way reads what it read, unless
    the write creates or removes an index beside `[*]` that the two share.
-/
import Pysa.Domains.TreeReadRefined

namespace Pysa

open Pysa.Tree

universe u

variable {α : Type u} [DecidableEq α] {w : Finset α → Finset α}

/-! ## 1. One level -/

/-- The child of this name, a leaf without an element where there is none. -/
def ownChild (t : Tree (Finset α)) (k : Label) : Tree (Finset α) :=
  (t.children.find? k).getD (createLeaf ∅)

/-- The elements of the nodes above a path. -/
def above (t : Tree (Finset α)) (p : List Label) : Finset α :=
  (strictAncestors t p).foldr (· ∪ ·) ∅

/-- A strong assignment below ancestors; `none` where nothing is left. -/
def assignAt (w : Finset α → Finset α) (subtree : Tree (Finset α)) (p : List Label)
    (a : Finset α) (t : Tree (Finset α)) : Option (Tree (Finset α)) :=
  assignOrJoinPath (plainSet w) subtree p false a t

@[simp] theorem above_nil (t : Tree (Finset α)) : above t [] = ∅ := rfl

theorem above_createLeaf_empty (p : List Label) :
    above (createLeaf ∅ : Tree (Finset α)) p = ∅ := by
  cases p with
  | nil => rfl
  | cons k rest =>
    rw [above, strictAncestors, createLeaf, children_node, SortedMap.find?_empty]
    exact Finset.union_empty _

theorem above_cons (t : Tree (Finset α)) (k : Label) (rest : List Label) :
    above t (k :: rest) = t.element ∪ above (ownChild t k) rest := by
  rw [ownChild]
  cases hk : t.children.find? k with
  | some s =>
    rw [above, strictAncestors_cons hk]
    rfl
  | none =>
    rw [above, strictAncestors, hk, Option.getD_none, above_createLeaf_empty]
    rfl

theorem assignAt_nil (subtree : Tree (Finset α)) (a : Finset α) (t : Tree (Finset α)) :
    assignAt w subtree [] a t = pruneTree (plainSet w) a subtree := by
  rw [assignAt]
  by_cases ht : isEmptyTree (plainSet w) t = true
  · rw [assignOrJoinPath_empty ht, bind_createTreeOption_nil]
  · rw [assignOrJoinPath, if_neg ht]
    rfl

theorem assignAt_cons {k : Label} (hk : k.Concrete) (subtree : Tree (Finset α))
    (rest : List Label) (a : Finset α) (t : Tree (Finset α)) :
    assignAt w subtree (k :: rest) a t = createNodeOption (plainSet w) t.element
      (t.children.setOrRemove k (assignAt w subtree rest (a ∪ t.element) (ownChild t k))) := by
  have hany : k ≠ .anyIndex := fun h => by
    rw [h] at hk
    exact hk
  have h := assignOrJoinPath_cons (w := w) (e := t.element) (a := a) (c := t.children)
    (fun h => absurd h hany) subtree rest false
  rw [optionNodeTree_createNodeOption, decide_eq_false hany] at h
  rw [assignAt, h, optionNodeTree_eq]
  rfl

/-- What a label finds after an assignment to a child. -/
theorem taintAt_assignAt_cons {k : Label} (hk : k.Concrete) (subtree : Tree (Finset α))
    (rest : List Label) (a : Finset α) (t : Tree (Finset α)) (l : Label) (q : List Label) :
    taintAt (l :: q) (optionNodeTree (plainSet w) (assignAt w subtree (k :: rest) a t)) =
      t.element ∪ taintAt q (childAt (t.children.setOrRemove k
        (assignAt w subtree rest (a ∪ t.element) (ownChild t k))) l) := by
  rw [assignAt_cons hk, taintAt_createNodeOption, taintAt_childAt]
  rfl

omit [DecidableEq α] in
theorem childAt_setOrRemove_some {k : Label} (c : LabelMap (Finset α)) (s : Tree (Finset α)) :
    childAt (c.setOrRemove k (some s)) k = s := by
  refine childAt_of_find? ?_
  rw [SortedMap.find?_setOrRemove, if_pos rfl]

/-- What is found under a name that was removed: what `[*]` finds, for an index. -/
def beneath (t : Tree (Finset α)) : Label → Tree (Finset α)
  | .index _ => ownChild t .anyIndex
  | _ => createLeaf ∅

omit [DecidableEq α] in
theorem childAt_setOrRemove_none {k : Label} (hk : k.Concrete) (t : Tree (Finset α)) :
    childAt (t.children.setOrRemove k none) k = beneath t k := by
  have hnone : (t.children.setOrRemove k none).find? k = none := by
    rw [SortedMap.find?_setOrRemove, if_pos rfl]
  cases k with
  | anyIndex => exact hk.elim
  | index i =>
    rw [childAt_index_of_none hnone, childAt, lookup_anyIndex, SortedMap.find?_setOrRemove,
      if_neg (by simp)]
    rfl
  | field f =>
    rw [childAt, lookup_field, hnone]
    rfl

omit [DecidableEq α] in
/-- An assignment to one name is not seen under another. -/
theorem childAt_setOrRemove_ne {k l : Label} (hk : k.Concrete) (hkl : l ≠ k)
    (t : Tree (Finset α)) (s : Option (Tree (Finset α))) :
    childAt (t.children.setOrRemove k s) l = childAt t.children l := by
  have hany : Label.anyIndex ≠ k := fun h => by
    rw [← h] at hk
    exact hk
  have hlookup : lookup (t.children.setOrRemove k s) l = lookup t.children l := by
    cases l with
    | anyIndex => rw [lookup_anyIndex, lookup_anyIndex, SortedMap.find?_setOrRemove, if_neg hany]
    | index i =>
      rw [lookup, lookup, SortedMap.find?_setOrRemove, SortedMap.find?_setOrRemove, if_neg hkl,
        if_neg hany]
    | field f => rw [lookup_field, lookup_field, SortedMap.find?_setOrRemove, if_neg hkl]
  rw [childAt, childAt, hlookup]

/-! ## 2. When nothing is left -/

/-- The tree has something else than what is at or below the path. -/
def HoldsOff : Tree (Finset α) → List Label → Prop
  | _, [] => False
  | t, k :: rest => t.element ≠ ∅ ∨ (∃ l ∈ t.children.keys, l ≠ k) ∨ HoldsOff (ownChild t k) rest

instance HoldsOff.decidable : (t : Tree (Finset α)) → (p : List Label) → Decidable (HoldsOff t p)
  | _, [] => isFalse id
  | t, k :: rest =>
    haveI := HoldsOff.decidable (ownChild t k) rest
    inferInstanceAs (Decidable (t.element ≠ ∅ ∨ (∃ l ∈ t.children.keys, l ≠ k) ∨ _))

/-- **Nothing is left** of a tree where the elements above say all that is assigned, and the tree
    has nothing else. -/
theorem assignAt_eq_none_iff {p : List Label} (hp : ∀ k ∈ p, k.Concrete)
    (subtree : Tree (Finset α)) (a : Finset α) (t : Tree (Finset α)) :
    assignAt w subtree p a t = none ↔ Covered (a ∪ above t p) subtree ∧ ¬ HoldsOff t p := by
  induction p generalizing a t with
  | nil =>
    rw [assignAt_nil, pruneTree_eq_none_iff, above_nil, Finset.union_empty]
    exact (and_iff_left id).symm
  | cons k rest ih =>
    rw [List.forall_mem_cons] at hp
    have hnode : assignAt w subtree (k :: rest) a t = none ↔ t.element = ∅ ∧
        (∀ l, l ≠ k → t.children.find? l = none) ∧
        assignAt w subtree rest (a ∪ t.element) (ownChild t k) = none := by
      rw [assignAt_cons hp.1]
      obtain ⟨h, hc, he⟩ | ⟨h, hne⟩ := createNodeOption_cases (plainSet w) t.element
        (t.children.setOrRemove k (assignAt w subtree rest (a ∪ t.element) (ownChild t k)))
      all_goals rw [setElement_isBottom, decide_eq_true_eq] at *
      all_goals rw [h]
      · have hfind := fun l => (congrArg (SortedMap.find? l) hc).trans (SortedMap.find?_empty l)
        simp only [SortedMap.find?_setOrRemove] at hfind
        refine iff_of_true rfl ⟨he, fun l hl => ?_, ?_⟩
        · have := hfind l
          rwa [if_neg hl] at this
        · have := hfind k
          rwa [if_pos rfl] at this
      · refine iff_of_false (Option.some_ne_none _) fun hall => hne ⟨?_, hall.1⟩
        refine SortedMap.ext_find? fun l => ?_
        rw [SortedMap.find?_setOrRemove, SortedMap.find?_empty]
        split
        · exact hall.2.2
        · rename_i hl
          exact hall.2.1 l hl
    have hothers : (∀ l, l ≠ k → t.children.find? l = none) ↔
        ¬ ∃ l ∈ t.children.keys, l ≠ k := by
      simp only [SortedMap.find?_eq_none, not_exists, not_and]
      exact forall_congr' fun l => imp_not_comm
    rw [hnode, hothers, ih hp.2, above_cons, HoldsOff, Finset.union_assoc, not_or, not_or, not_not]
    tauto

/-! ## 3. Put-get -/

/-- Where something is left, the path reads the elements above it and the pruned subtree. -/
theorem taintAt_assignAt_of_not_covered {p r r' : List Label} (hp : ∀ k ∈ p, k.Concrete)
    {subtree : Tree (Finset α)} {a : Finset α} {t : Tree (Finset α)}
    (hs : ¬ Covered (a ∪ above t p) subtree) (hr : PruneRedirect (a ∪ above t p) subtree r r') :
    a ∪ taintAt (p ++ r) (optionNodeTree (plainSet w) (assignAt w subtree p a t)) =
      a ∪ above t p ∪ taintAt r' subtree := by
  induction p generalizing a t with
  | nil =>
    rw [above_nil, Finset.union_empty] at hr ⊢
    rw [List.nil_append, assignAt_nil]
    exact taintAt_pruneTree hr
  | cons k rest ih =>
    rw [List.forall_mem_cons] at hp
    rw [above_cons, ← Finset.union_assoc] at hs hr ⊢
    obtain ⟨s, hchild⟩ := Option.ne_none_iff_exists'.mp fun hnone =>
      hs ((assignAt_eq_none_iff (w := w) hp.2 subtree _ _).mp hnone).1
    have hrest := ih hp.2 hs hr
    rw [hchild] at hrest
    rw [List.cons_append, taintAt_assignAt_cons hp.1, hchild, childAt_setOrRemove_some,
      ← Finset.union_assoc]
    exact hrest

/-- What is read at the path and below it where nothing is left: the `[*]` beside the highest name
    that is removed. -/
def beside : Tree (Finset α) → List Label → List Label → Finset α
  | _, [], _ => ∅
  | t, k :: rest, r =>
    if HoldsOff (ownChild t k) rest then beside (ownChild t k) rest r
    else taintAt (rest ++ r) (beneath t k)

theorem above_eq_empty {t : Tree (Finset α)} {p : List Label} (h : ¬ HoldsOff t p) :
    above t p = ∅ := by
  induction p generalizing t with
  | nil => rfl
  | cons k rest ih =>
    rw [HoldsOff, not_or, not_or, not_not] at h
    rw [above_cons, h.1, ih h.2.2, Finset.union_empty]

/-- Where the elements above say all that is assigned, the path reads them and what is beside. -/
theorem taintAt_assignAt_of_covered {p : List Label} (hp : ∀ k ∈ p, k.Concrete) (r : List Label)
    {subtree : Tree (Finset α)} {a : Finset α} {t : Tree (Finset α)}
    (hs : Covered (a ∪ above t p) subtree) :
    a ∪ taintAt (p ++ r) (optionNodeTree (plainSet w) (assignAt w subtree p a t)) =
      a ∪ above t p ∪ beside t p r := by
  induction p generalizing a t with
  | nil =>
    rw [above_nil, Finset.union_empty] at hs ⊢
    rw [List.nil_append, assignAt_nil, (pruneTree_eq_none_iff a subtree).mpr hs, optionNodeTree,
      taintAt_emptyTree, beside]
  | cons k rest ih =>
    rw [List.forall_mem_cons] at hp
    rw [above_cons, ← Finset.union_assoc] at hs ⊢
    rw [List.cons_append, taintAt_assignAt_cons hp.1, ← Finset.union_assoc, beside]
    by_cases hoff : HoldsOff (ownChild t k) rest
    · obtain ⟨s, hchild⟩ := Option.ne_none_iff_exists'.mp fun hnone =>
        ((assignAt_eq_none_iff (w := w) hp.2 subtree _ _).mp hnone).2 hoff
      have hrest := ih hp.2 hs
      rw [hchild] at hrest
      rw [hchild, childAt_setOrRemove_some, if_pos hoff]
      exact hrest
    · rw [(assignAt_eq_none_iff hp.2 subtree _ _).mpr ⟨hs, hoff⟩, childAt_setOrRemove_none hp.1,
        if_neg hoff, above_eq_empty hoff, Finset.union_empty]

theorem instance_append {p r p' : List Label} (hp : ∀ k ∈ p, k.Concrete) :
    Instance (Label.Refined.toRefinedPath (p ++ r)) p' ↔
      ∃ r', Instance (Label.Refined.toRefinedPath r) r' ∧ p' = p ++ r' := by
  rw [Label.Refined.toRefinedPath, List.map_append]
  constructor
  · intro h
    have hp₁ := (List.forall₂_take_append _ _ _ h.flip).flip
    refine ⟨_, (List.forall₂_drop_append _ _ _ h.flip).flip, ?_⟩
    have htake := List.take_append_drop (Label.Refined.toRefinedPath p).length p'
    exact htake.symm.trans (congrArg (· ++ _) ((instance_toRefinedPath hp).mp hp₁))
  · intro h
    obtain ⟨r', hr', rfl⟩ := h
    exact List.rel_append ((instance_toRefinedPath hp).mpr rfl) hr'

/-- A read at or below a concrete path is a read there of the instances of what follows it. -/
theorem mem_readRoot_append {p : List Label} (hp : ∀ k ∈ p, k.Concrete) (r : List Label)
    (t : Tree (Finset α)) (x : α) :
    x ∈ readRoot w (p ++ r) t ↔
      ∃ r₁, Instance (Label.Refined.toRefinedPath r) r₁ ∧ x ∈ taintAt (p ++ r₁) t := by
  rw [mem_readRoot]
  constructor
  · intro h
    obtain ⟨p', hp', hx⟩ := h
    obtain ⟨r₁, hr₁, rfl⟩ := (instance_append hp).mp hp'
    exact ⟨r₁, hr₁, hx⟩
  · intro h
    obtain ⟨r₁, hr₁, hx⟩ := h
    exact ⟨p ++ r₁, (instance_append hp).mpr ⟨r₁, hr₁, rfl⟩, hx⟩

/-- What does not depend on the instance comes out. -/
theorem exists_instance_or_iff (path : List Label.Refined) (c : Prop) (P : List Label → Prop) :
    (∃ p, Instance path p ∧ (c ∨ P p)) ↔ c ∨ ∃ p, Instance path p ∧ P p := by
  obtain ⟨p, hp⟩ := exists_instance path
  simp only [and_or_left, exists_or]
  exact or_congr_left ⟨fun h => h.choose_spec.2, fun h => ⟨p, hp, h⟩⟩

/-- **Put-get.** At the path and below it, the elements above it and the pruned subtree are read;
    where these elements say all of the subtree, what is beside the path. -/
theorem readRoot_assign (w : Finset α → Finset α) (t subtree : Tree (Finset α)) (p : List Label)
    (hp : ∀ k ∈ p, k.Concrete) :
    (¬ Covered (above t p) subtree →
      readRoot w p (assign (plainSet w) false t p subtree) = above t p ∪ subtree.element ∧
      ∀ r x, x ∈ readRoot w (p ++ r) (assign (plainSet w) false t p subtree) ↔
        x ∈ above t p ∨ ∃ r₁ r₂, Instance (Label.Refined.toRefinedPath r) r₁ ∧
          PruneRedirect (above t p) subtree r₁ r₂ ∧ x ∈ readRoot w r₂ subtree) ∧
    (Covered (above t p) subtree →
      readRoot w p (assign (plainSet w) false t p subtree) = above t p ∪ beside t p [] ∧
      ∀ r x, x ∈ readRoot w (p ++ r) (assign (plainSet w) false t p subtree) ↔
        x ∈ above t p ∨ ∃ r₁, Instance (Label.Refined.toRefinedPath r) r₁ ∧ x ∈ beside t p r₁) := by
  have hassign : assign (plainSet w) false t p subtree =
      optionNodeTree (plainSet w) (assignAt w subtree p ∅ t) := rfl
  refine ⟨fun hs => ?_, fun hs => ?_⟩
  · have hget : ∀ {r₁ r₂}, PruneRedirect (above t p) subtree r₁ r₂ →
        taintAt (p ++ r₁) (optionNodeTree (plainSet w) (assignAt w subtree p ∅ t)) =
          above t p ∪ taintAt r₂ subtree := by
      intro r₁ r₂ hr
      have := taintAt_assignAt_of_not_covered (w := w) hp (a := ∅) (by rwa [Finset.empty_union])
        (by rwa [Finset.empty_union])
      rwa [Finset.empty_union, Finset.empty_union] at this
    refine ⟨?_, fun r x => ?_⟩
    · have := hget (.nil (above t p) subtree)
      rw [List.append_nil] at this
      rw [hassign, readRoot_eq hp, this]
      rfl
    · rw [hassign, mem_readRoot_append hp]
      simp only [exists_and_left]
      rw [← exists_instance_or_iff]
      refine exists_congr fun r₁ => and_congr_right fun hr₁ => ?_
      constructor
      · intro hx
        obtain ⟨r₂, hr₂⟩ := PruneRedirect.exists (above t p) subtree r₁
        rw [hget hr₂, Finset.mem_union, ← readRoot_eq (w := w) (hr₂.concrete hr₁.concrete)] at hx
        exact hx.imp_right fun hx => ⟨r₂, hr₂, hx⟩
      · intro hx
        rcases hx with hx | ⟨r₂, hr₂, hx⟩
        · obtain ⟨r₂, hr₂⟩ := PruneRedirect.exists (above t p) subtree r₁
          exact hget hr₂ ▸ Finset.mem_union_left _ hx
        · rw [readRoot_eq (hr₂.concrete hr₁.concrete)] at hx
          exact hget hr₂ ▸ Finset.mem_union_right _ hx
  · have hget : ∀ r₁, taintAt (p ++ r₁) (optionNodeTree (plainSet w) (assignAt w subtree p ∅ t)) =
        above t p ∪ beside t p r₁ := by
      intro r₁
      have := taintAt_assignAt_of_covered (w := w) hp r₁ (a := ∅) (by rwa [Finset.empty_union])
      rwa [Finset.empty_union, Finset.empty_union] at this
    refine ⟨?_, fun r x => ?_⟩
    · have := hget []
      rw [List.append_nil] at this
      rw [hassign, readRoot_eq hp, this]
    · rw [hassign, mem_readRoot_append hp, ← exists_instance_or_iff]
      simp only [hget, Finset.mem_union]

/-- The law at a field of a tree with nothing above it. -/
theorem readRoot_assign_field :
    let t : Tree (Finset ℕ) := createTree (plainSet id) [.field "f"] (createLeaf {0})
    let s : Tree (Finset ℕ) := createLeaf {1}
    (¬ Covered (above t [.field "f"]) s →
      readRoot id [.field "f"] (assign (plainSet id) false t [.field "f"] s) =
        above t [.field "f"] ∪ s.element ∧
      ∀ r x, x ∈ readRoot id ([.field "f"] ++ r) (assign (plainSet id) false t [.field "f"] s) ↔
        x ∈ above t [.field "f"] ∨ ∃ r₁ r₂, Instance (Label.Refined.toRefinedPath r) r₁ ∧
          PruneRedirect (above t [.field "f"]) s r₁ r₂ ∧ x ∈ readRoot id r₂ s) ∧
    (Covered (above t [.field "f"]) s →
      readRoot id [.field "f"] (assign (plainSet id) false t [.field "f"] s) =
        above t [.field "f"] ∪ beside t [.field "f"] [] ∧
      ∀ r x, x ∈ readRoot id ([.field "f"] ++ r) (assign (plainSet id) false t [.field "f"] s) ↔
        x ∈ above t [.field "f"] ∨
          ∃ r₁, Instance (Label.Refined.toRefinedPath r) r₁ ∧ x ∈ beside t [.field "f"] r₁) :=
  readRoot_assign id _ _ [.field "f"] (by decide)

/-- Assigning nothing to an index beside `[*]` leaves the index to `[*]`. -/
theorem readRoot_assign_bottom :
    let t : Tree (Finset ℕ) := .node ∅ (.singleton .anyIndex (createLeaf {0}))
    isMinimal (plainSet id) ∅ t = true ∧ above t [.index "i"] = ∅ ∧
    readRoot id [.index "i"] (assign (plainSet id) false t [.index "i"] (createLeaf ∅)) = {0} := by
  decide +kernel

/-! ## 4. The frame -/

/-- The paths that a write to `p` disturbs beside it, and what they read then. It disturbs the paths
    through an index that it creates or removes beside `[*]`; `kept` says that the subtree is not
    all said by the elements above. -/
inductive Disturbed (kept : Prop) : Tree (Finset α) → List Label → List Label → Finset α → Prop
  | created {t i p q} (hkept : kept) (hi : t.children.find? (.index i) = none)
      (hstar : t.children.find? .anyIndex ≠ none) :
      Disturbed kept t (.index i :: p) (.index i :: q) t.element
  | removed {t i s p q} (hkept : ¬ kept) (hi : t.children.find? (.index i) = some s)
      (hs : ¬ HoldsOff s p) (hstar : t.children.find? .anyIndex ≠ none) :
      Disturbed kept t (.index i :: p) (.index i :: q)
        (t.element ∪ taintAt q (ownChild t .anyIndex))
  | deeper {t k s p q x} (hk : t.children.find? k = some s) (hs : kept ∨ HoldsOff s p)
      (h : Disturbed kept s p q x) : Disturbed kept t (k :: p) (k :: q) (t.element ∪ x)

omit [DecidableEq α] in
theorem childAt_eq_ownChild {t : Tree (Finset α)} (hstar : t.children.find? .anyIndex = none)
    (k : Label) : childAt t.children k = ownChild t k := by
  cases k with
  | anyIndex => rfl
  | field f => rfl
  | index i => rw [childAt, lookup, hstar, Option.or_none, ownChild]

omit [DecidableEq α] in
theorem childAt_eq_beneath {t : Tree (Finset α)} {k : Label} (hk : k.Concrete)
    (hnone : t.children.find? k = none) : childAt t.children k = beneath t k := by
  cases k with
  | anyIndex => exact hk.elim
  | index i => exact childAt_index_of_none hnone
  | field f =>
    rw [childAt, lookup_field, hnone]
    rfl

theorem taintAt_createLeaf_empty (q : List Label) : taintAt q (createLeaf (∅ : Finset α)) = ∅ :=
  taintAt_emptyTree id q

omit [DecidableEq α] in
theorem ownChild_of_find? {t s : Tree (Finset α)} {k : Label} (hk : t.children.find? k = some s) :
    ownChild t k = s := by
  rw [ownChild, hk]
  rfl

omit [DecidableEq α] in
theorem ownChild_of_none {t : Tree (Finset α)} {k : Label} (hk : t.children.find? k = none) :
    ownChild t k = createLeaf ∅ := by
  rw [ownChild, hk]
  rfl

/-- A tree that holds nothing off a path reads nothing beside it. -/
theorem taintAt_eq_empty {p q : List Label} (hp : ∀ k ∈ p, k.Concrete) (hpq : ¬ p <+: q)
    (hqp : ¬ q <+: p) {t : Tree (Finset α)} (h : ¬ HoldsOff t p) : taintAt q t = ∅ := by
  induction p generalizing q t with
  | nil => exact absurd (List.nil_prefix) hpq
  | cons k rest ih =>
    rw [List.forall_mem_cons] at hp
    rw [HoldsOff, not_or, not_or, not_not] at h
    obtain ⟨he, hothers, hrest⟩ := h
    have honly : ∀ l, l ≠ k → t.children.find? l = none := fun l hl =>
      SortedMap.find?_eq_none.mpr fun hmem => hothers ⟨l, hmem, hl⟩
    have hstar : t.children.find? .anyIndex = none := honly _ fun h => by
      rw [← h] at hp
      exact hp.1
    cases q with
    | nil => exact absurd (List.nil_prefix) hqp
    | cons l qs =>
      rw [taintAt_childAt, he, Finset.empty_union, childAt_eq_ownChild hstar]
      by_cases hl : l = k
      · subst hl
        rw [List.cons_prefix_cons, and_iff_right rfl] at hpq hqp
        exact ih hp.2 hpq hqp hrest
      · rw [ownChild_of_none (honly l hl), taintAt_createLeaf_empty]

theorem not_disturbed_createLeaf {kept : Prop} {e : Finset α} {p q : List Label} {x : Finset α} :
    ¬ Disturbed kept (createLeaf e) p q x := by
  intro h
  cases h with
  | created _ _ hstar => exact hstar (SortedMap.find?_empty _)
  | removed _ _ _ hstar => exact hstar (SortedMap.find?_empty _)
  | deeper hk _ _ =>
    rw [createLeaf, children_node, SortedMap.find?_empty] at hk
    cases hk

omit [DecidableEq α] in
theorem not_holdsOff_createLeaf (p : List Label) :
    ¬ HoldsOff (createLeaf (∅ : Finset α)) p := by
  induction p with
  | nil => exact id
  | cons k rest ih =>
    rw [HoldsOff, ownChild_of_none (SortedMap.find?_empty k), not_or, not_or, not_not]
    refine ⟨rfl, fun h => ?_, ih⟩
    obtain ⟨l, hl, -⟩ := h
    exact List.not_mem_nil hl

omit [DecidableEq α] in
theorem beneath_eq_createLeaf {t : Tree (Finset α)} {k : Label}
    (h : ∀ i, k = .index i → t.children.find? .anyIndex = none) : beneath t k = createLeaf ∅ := by
  cases k with
  | anyIndex => rfl
  | field f => rfl
  | index i => exact ownChild_of_none (h i rfl)

/-- What a path beside a write to `p` reads after it, if it reads `y` then. -/
def Framed (kept : Prop) (t : Tree (Finset α)) (p q : List Label) (y : Finset α) : Prop :=
  (∀ x, Disturbed kept t p q x → y = x) ∧ ((∀ x, ¬ Disturbed kept t p q x) → y = taintAt q t)

theorem Framed.createLeaf {kept : Prop} {p q : List Label} {y : Finset α}
    (h : Framed kept (createLeaf ∅) p q y) : y = ∅ :=
  (h.2 fun _ => not_disturbed_createLeaf).trans (taintAt_createLeaf_empty q)

/-- Where nothing is left under a name, it is removed, or stays absent. -/
theorem framed_removed {kept : Prop} {k : Label} {p q : List Label} {t : Tree (Finset α)}
    (hk : k.Concrete) (hp : ∀ k ∈ p, k.Concrete) (hpq : ¬ p <+: q) (hqp : ¬ q <+: p)
    (hlost : ¬ kept) (hoff : ¬ HoldsOff (ownChild t k) p) :
    Framed kept t (k :: p) (k :: q) (t.element ∪ taintAt q (beneath t k)) := by
  refine ⟨fun x hx => ?_, fun hx => ?_⟩
  · cases hx with
    | created h _ _ => exact absurd h hlost
    | removed _ _ _ _ => rfl
    | deeper hs h _ =>
      rw [ownChild_of_find? hs] at hoff
      exact absurd h (not_or.mpr ⟨hlost, hoff⟩)
  · rw [taintAt_childAt]
    cases hown : t.children.find? k with
    | none => rw [childAt_eq_beneath hk hown]
    | some s =>
      rw [ownChild_of_find? hown] at hoff
      rw [childAt_of_find? hown, taintAt_eq_empty hp hpq hqp hoff, beneath_eq_createLeaf,
        taintAt_createLeaf_empty]
      intro i hi
      subst hi
      by_contra hstar
      exact hx _ (.removed hlost hown hoff hstar)

/-- Where something is left under a name, the paths through it are those of the child. -/
theorem framed_child {kept : Prop} {k : Label} {p q : List Label} {t : Tree (Finset α)}
    {y : Finset α} (hk : k.Concrete) (hleft : kept ∨ HoldsOff (ownChild t k) p)
    (h : Framed kept (ownChild t k) p q y) :
    Framed kept t (k :: p) (k :: q) (t.element ∪ y) := by
  refine ⟨fun x hx => ?_, fun hx => ?_⟩
  · cases hx with
    | created _ hi _ =>
      rw [ownChild_of_none hi] at h
      rw [h.createLeaf, Finset.union_empty]
    | removed hlost hi hs _ =>
      rw [ownChild_of_find? hi] at hleft
      exact absurd hleft (not_or.mpr ⟨hlost, hs⟩)
    | deeper hs _ hd =>
      rw [ownChild_of_find? hs] at h
      rw [h.1 _ hd]
  · rw [taintAt_childAt]
    cases hown : t.children.find? k with
    | some s =>
      rw [ownChild_of_find? hown] at h hleft
      rw [childAt_of_find? hown, h.2 fun x hd => hx _ (.deeper hown hleft hd)]
    | none =>
      rw [ownChild_of_none hown] at h hleft
      rw [h.createLeaf, childAt_eq_beneath hk hown, beneath_eq_createLeaf,
        taintAt_createLeaf_empty]
      intro i hi
      subst hi
      by_contra hstar
      exact hx _ (.created (hleft.resolve_right (not_holdsOff_createLeaf p)) hown hstar)

/-- **The paths beside an assignment** read what `Disturbed` says, or what they read before. -/
theorem framed_assignAt {kept : Prop} {p q : List Label} (hp : ∀ k ∈ p, k.Concrete)
    (hpq : ¬ p <+: q) (hqp : ¬ q <+: p) {subtree : Tree (Finset α)} {a : Finset α}
    {t : Tree (Finset α)} (hkept : kept ↔ ¬ Covered (a ∪ above t p) subtree) :
    Framed kept t p q (taintAt q (optionNodeTree (plainSet w) (assignAt w subtree p a t))) := by
  induction p generalizing q a t with
  | nil => exact absurd (List.nil_prefix) hpq
  | cons k rest ih =>
    rw [List.forall_mem_cons] at hp
    cases q with
    | nil => exact absurd (List.nil_prefix) hqp
    | cons l qs =>
      rw [taintAt_assignAt_cons hp.1]
      by_cases hl : l = k
      · subst hl
        rw [List.cons_prefix_cons, and_iff_right rfl] at hpq hqp
        rw [above_cons, ← Finset.union_assoc] at hkept
        have hnone_iff := assignAt_eq_none_iff (w := w) hp.2 subtree (a ∪ t.element)
          (ownChild t l)
        cases hchild : assignAt w subtree rest (a ∪ t.element) (ownChild t l) with
        | none =>
          obtain ⟨hcovered, hoff⟩ := hnone_iff.mp hchild
          rw [childAt_setOrRemove_none hp.1]
          exact framed_removed hp.1 hp.2 hpq hqp (fun h => hkept.mp h hcovered) hoff
        | some s =>
          have hleft : kept ∨ HoldsOff (ownChild t l) rest := by
            by_contra h
            rw [not_or, hkept, not_not] at h
            exact Option.some_ne_none s (hchild.symm.trans (hnone_iff.mpr h))
          have hrest := ih hp.2 hpq hqp hkept
          rw [hchild] at hrest
          rw [childAt_setOrRemove_some]
          exact framed_child hp.1 hleft hrest
      · rw [childAt_setOrRemove_ne hp.1 hl, ← taintAt_childAt]
        refine ⟨fun x hx => ?_, fun _ => rfl⟩
        cases hx <;> exact absurd rfl hl

/-- **Frame.** A path that goes another way reads what it read before, unless the write creates or
    removes an index beside `[*]` that the two paths share. -/
theorem readRoot_assign_frame (w : Finset α → Finset α) (t subtree : Tree (Finset α))
    (p q : List Label) (hp : ∀ k ∈ p, k.Concrete) (hq : ∀ k ∈ q, k.Concrete) (hpq : ¬ p <+: q)
    (hqp : ¬ q <+: p) :
    (∀ x, Disturbed (¬ Covered (above t p) subtree) t p q x →
      readRoot w q (assign (plainSet w) false t p subtree) = x) ∧
    ((∀ x, ¬ Disturbed (¬ Covered (above t p) subtree) t p q x) →
      readRoot w q (assign (plainSet w) false t p subtree) = readRoot w q t) := by
  rw [readRoot_eq hq, readRoot_eq hq]
  refine framed_assignAt (a := ∅) hp hpq hqp ?_
  rw [Finset.empty_union]

/-- The frame of a write to a field, for another field. -/
theorem readRoot_assign_frame_field :
    let t : Tree (Finset ℕ) := createTree (plainSet id) [.field "g"] (createLeaf {0})
    let s : Tree (Finset ℕ) := createLeaf {1}
    (∀ x, Disturbed (¬ Covered (above t [.field "f"]) s) t [.field "f"] [.field "g"] x →
      readRoot id [.field "g"] (assign (plainSet id) false t [.field "f"] s) = x) ∧
    ((∀ x, ¬ Disturbed (¬ Covered (above t [.field "f"]) s) t [.field "f"] [.field "g"] x) →
      readRoot id [.field "g"] (assign (plainSet id) false t [.field "f"] s) =
        readRoot id [.field "g"] t) :=
  readRoot_assign_frame id _ _ [.field "f"] [.field "g"] (by decide) (by decide) (by decide)
    (by decide)

/-- A write to `[i].f` creates the index `i`, which no longer reads `[*].g` at `[i].g`. -/
theorem readRoot_assign_creates_index :
    let t : Tree (Finset ℕ) := .node ∅ (.singleton .anyIndex
      (.node ∅ (.singleton (.field "g") (createLeaf {0}))))
    isMinimal (plainSet id) ∅ t = true ∧
    readRoot id [.index "i", .field "g"] t = {0} ∧
    readRoot id [.index "i", .field "g"]
      (assign (plainSet id) false t [.index "i", .field "f"] (createLeaf {1})) = ∅ := by
  decide +kernel

end Pysa
