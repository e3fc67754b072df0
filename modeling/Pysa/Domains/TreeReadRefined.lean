/-
  Subject: READING A PATH WITH `[*]` (`abstractTreeDomain.ml`, `read_raw_refined`).

  * `Instance` -- the concrete paths that a refined path stands for;
  * `Additive` -- what may be observed of a tree through a join: the root, or all that is held;
  * `mem_readRefined` -- **a refined read observes what its instances observe**.
-/
import Pysa.Domains.TreeFilter

namespace Pysa

open Pysa.Tree

universe u

variable {α : Type u} [DecidableEq α]

/-! ## 1. Instances -/

/-- What a fold has seen at its end, if each step adds what one entry shows. -/
theorem foldl_seen_iff {A B : Type*} (seen : B → Prop) {P : A → Prop} {step : B → A → B}
    (hstep : ∀ acc x, seen (step acc x) ↔ seen acc ∨ P x) (entries : List A) (init : B) :
    seen (entries.foldl step init) ↔ seen init ∨ ∃ x ∈ entries, P x := by
  induction entries generalizing init with
  | nil => simp
  | cons x rest ih => rw [List.foldl_cons, ih, hstep, or_assoc, List.exists_mem_cons_iff]

/-- The concrete labels of a refined label; the excluded indices are none of `[*]`. -/
inductive Label.Refined.Matches : Label.Refined → Label → Prop
  | anyIndex {excluded : Finset String} {i : String} (hi : i ∉ excluded) :
      Matches (.anyIndex excluded) (.index i)
  | index (i : String) : Matches (.index i) (.index i)
  | field (f : String) : Matches (.field f) (.field f)

/-- The concrete paths that a refined path stands for. -/
abbrev Instance : List Label.Refined → List Label → Prop := List.Forall₂ Label.Refined.Matches

theorem Label.Refined.Matches.concrete {l : Label.Refined} {k : Label} (h : l.Matches k) :
    k.Concrete := by
  cases h <;> trivial

theorem Instance.concrete {path : List Label.Refined} {p : List Label} (h : Instance path p) :
    ∀ k ∈ p, k.Concrete := by
  induction h with
  | nil => exact fun _ hk => absurd hk List.not_mem_nil
  | cons hk _ ih => exact List.forall_mem_cons.mpr ⟨hk.concrete, ih⟩

/-- A concrete path stands for itself only. -/
theorem instance_toRefinedPath {p : List Label} (hp : ∀ k ∈ p, k.Concrete) {p' : List Label} :
    Instance (Label.Refined.toRefinedPath p) p' ↔ p' = p := by
  induction p generalizing p' with
  | nil => exact List.forall₂_nil_left_iff
  | cons k rest ih =>
    rw [List.forall_mem_cons] at hp
    refine List.forall₂_cons_left_iff.trans ?_
    constructor
    · intro h
      obtain ⟨k', rest', hk, hrest, rfl⟩ := h
      rw [(ih hp.2).mp hrest]
      cases k with
      | anyIndex => exact hp.1.elim
      | index i => cases hk; rfl
      | field f => cases hk; rfl
    · intro h
      refine ⟨k, rest, ?_, (ih hp.2).mpr rfl, h⟩
      cases k with
      | anyIndex => exact hp.1.elim
      | index i => exact .index i
      | field f => exact .field f

/-- An index outside finitely many that a map does not name. -/
theorem exists_fresh_index_notMem {E : Type u} (c : LabelMap E) (excluded : Finset String) :
    ∃ i ∉ excluded, c.find? (.index i) = none := by
  have hinj : Function.Injective Label.index := fun _ _ h => Label.index.inj h
  obtain ⟨i, hi⟩ := Infinite.exists_notMem_finset
    (excluded ∪ c.keys.toFinset.preimage Label.index hinj.injOn)
  rw [Finset.mem_union, not_or, Finset.mem_preimage, List.mem_toFinset] at hi
  exact ⟨i, hi.1, SortedMap.find?_eq_none.mpr hi.2⟩

/-- Every refined path has an instance. -/
theorem exists_instance (path : List Label.Refined) : ∃ p, Instance path p := by
  induction path with
  | nil => exact ⟨[], .nil⟩
  | cons l rest ih =>
    obtain ⟨p, hp⟩ := ih
    cases l with
    | anyIndex excluded =>
      obtain ⟨i, hi⟩ := Infinite.exists_notMem_finset excluded
      exact ⟨.index i :: p, .cons (.anyIndex hi) hp⟩
    | index i => exact ⟨.index i :: p, .cons (.index i) hp⟩
    | field f => exact ⟨.field f :: p, .cons (.field f) hp⟩

/-! ## 2. Observations -/

variable {w : Finset α → Finset α}

/-- An observation that a join of two trees adds up. -/
structure Additive (w : Finset α → Finset α) (obs : Tree (Finset α) → Set α) : Prop where
  leaf : ∀ e, obs (createLeaf e) = ↑e
  join : ∀ l r, obs (optionNodeTree (plainSet w)
    (joinTrees (plainSet w) id (plainSet w).bottom none l r)) = obs l ∪ obs r

namespace Additive

variable {obs : Tree (Finset α) → Set α} (h : Additive w obs)

include h

theorem empty : obs (emptyTree (plainSet w)) = ∅ := (h.leaf ∅).trans Finset.coe_empty

theorem pruneTree (t : Tree (Finset α)) :
    obs (optionNodeTree (plainSet w) (pruneTree (plainSet w) (plainSet w).bottom t)) = obs t := by
  rw [← joinTrees_emptyTree_right, h.join, h.empty, Set.union_empty]

theorem joinOptionTrees (l r : Option (Tree (Finset α))) :
    obs (optionNodeTree (plainSet w)
      (joinOptionTrees (plainSet w) id (plainSet w).bottom none l r)) =
        obs (optionNodeTree (plainSet w) l) ∪ obs (optionNodeTree (plainSet w) r) := by
  cases l with
  | none =>
    cases r with
    | none => rw [Pysa.joinOptionTrees, Set.union_self]
    | some r =>
      rw [Pysa.joinOptionTrees, if_pos rfl, h.pruneTree, optionNodeTree, optionNodeTree,
        h.empty, Set.empty_union]
  | some l =>
    cases r with
    | none =>
      rw [Pysa.joinOptionTrees, h.pruneTree, optionNodeTree, optionNodeTree, h.empty,
        Set.union_empty]
    | some r => rw [Pysa.joinOptionTrees, h.join, optionNodeTree, optionNodeTree]

end Additive

/-- The root is additive. -/
theorem additive_element : Additive w fun t => (t.element : Set α) where
  leaf _ := rfl
  join l r := by rw [element_optionNodeTree_joinTrees, Finset.coe_union]

/-- All that concrete paths read in the tree. -/
def Held (t : Tree (Finset α)) : Set α :=
  {x | ∃ p : List Label, (∀ k ∈ p, k.Concrete) ∧ x ∈ taintAt p t}

theorem disjointFrom_singleton_iff {x : α} (t : Tree (Finset α)) :
    DisjointFrom {x} t ↔ x ∉ Held t := by
  constructor
  · intro ht hx
    obtain ⟨p, -, hx⟩ := hx
    induction p generalizing t with
    | nil => exact Finset.disjoint_singleton_right.mp ht.element hx
    | cons k rest ih =>
      rw [taintAt, Finset.mem_union] at hx
      refine hx.elim (Finset.disjoint_singleton_right.mp ht.element) fun hx => ?_
      cases hs : lookup t.children k with
      | none =>
        rw [hs] at hx
        exact absurd hx (Finset.notMem_empty x)
      | some s =>
        obtain ⟨k', hk'⟩ := exists_find?_of_lookup hs
        rw [hs] at hx
        exact ih s (ht.child hk') hx
  · intro hx
    induction t using Tree.induct with
    | node e c ih =>
      refine .node (Finset.disjoint_singleton_right.mpr fun he => hx ⟨[], by simp, he⟩)
        fun k s hk => ih k s hk fun hs => hx ?_
      obtain ⟨p, hp, hxp⟩ := hs
      obtain ⟨k', hk', hlookup, -⟩ := exists_concrete_label c c k
      refine ⟨k' :: p, List.forall_mem_cons.mpr ⟨hk', hp⟩, ?_⟩
      rw [taintAt, children_node, hlookup, lookup_of_find? hk]
      exact Finset.mem_union_right _ hxp

theorem held_createLeaf (e : Finset α) : Held (createLeaf e) = ↑e := by
  ext x
  constructor
  · intro h
    obtain ⟨p, -, hx⟩ := h
    cases p with
    | nil => exact hx
    | cons k rest =>
      rw [taintAt, createLeaf, children_node, lookup_empty, element_node] at hx
      simpa using hx
  · exact fun hx => ⟨[], by simp, hx⟩

/-- All that is held is additive. -/
theorem additive_held : Additive w Held where
  leaf := held_createLeaf
  join l r := by
    have hge := joinTrees_ge (w := w) (f := id) (fun _ => Finset.Subset.refl _) l r none
      (Finset.Subset.refl (∅ : Finset α))
    rw [lessOrEqualTree_iff_taintAt, lessOrEqualTree_iff_taintAt] at hge
    simp only [Finset.empty_union] at hge
    ext x
    constructor
    · intro hx
      by_contra hnone
      rw [Set.mem_union, not_or] at hnone
      refine (disjointFrom_singleton_iff _).mp ?_ hx
      cases hjoin : joinTrees (plainSet w) id (plainSet w).bottom none l r with
      | none =>
        refine (disjointFrom_singleton_iff _).mpr ?_
        rw [optionNodeTree, emptyTree, held_createLeaf]
        exact Finset.notMem_empty x
      | some s =>
        exact DisjointFrom.joinTrees ((disjointFrom_singleton_iff _).mpr hnone.1)
          ((disjointFrom_singleton_iff _).mpr hnone.2) hjoin
    · intro hx
      rcases hx with ⟨p, hp, hx⟩ | ⟨p, hp, hx⟩
      · exact ⟨p, hp, hge.1 p hp hx⟩
      · exact ⟨p, hp, hge.2 p hp hx⟩

/-! ## 3. Refined reads -/

/-- The elements above the place where a path leads, and what is observed there. -/
def along (obs : Tree (Finset α) → Set α) : List Label → Tree (Finset α) → Set α
  | [], t => obs t
  | k :: rest, t => ↑t.element ∪ along obs rest (childAt t.children k)

theorem along_element (p : List Label) (t : Tree (Finset α)) :
    along (fun t => (t.element : Set α)) p t = ↑(taintAt p t) := by
  induction p generalizing t with
  | nil => rfl
  | cons k rest ih => rw [along, ih, taintAt_childAt, Finset.coe_union]

theorem optionNodeTree_createNodeOption (t : Tree (Finset α)) :
    optionNodeTree (plainSet w) (createNodeOption (plainSet w) t.element t.children) = t := by
  obtain ⟨h, hc, he⟩ | ⟨h, -⟩ := createNodeOption_cases (plainSet w) t.element t.children
  · rw [setElement_isBottom, decide_eq_true_eq] at he
    obtain ⟨e, c⟩ := t
    rw [element_node] at he
    rw [children_node] at hc
    rw [h, he, hc]
    rfl
  · rw [h]
    obtain ⟨e, c⟩ := t
    rfl

omit [DecidableEq α] in
theorem childAt_of_find? {c : LabelMap (Finset α)} {k : Label} {s : Tree (Finset α)}
    (hk : c.find? k = some s) : childAt c k = s := by
  rw [childAt, lookup_of_find? hk]
  rfl

omit [DecidableEq α] in
theorem childAt_index_of_none {c : LabelMap (Finset α)} {i : String}
    (hi : c.find? (.index i) = none) : childAt c (.index i) = childAt c .anyIndex := by
  rw [childAt, lookup_index_of_none hi]
  rfl

theorem along_createLeaf_empty {obs : Tree (Finset α) → Set α} (h : Additive w obs)
    (p : List Label) : along obs p (createLeaf ∅) = ∅ := by
  induction p with
  | nil => exact h.empty
  | cons k rest ih =>
    have hchild : childAt (createLeaf (∅ : Finset α)).children k = createLeaf ∅ := by
      rw [childAt, createLeaf, children_node, lookup_empty]
      rfl
    rw [along, hchild, ih, Set.union_empty]
    exact Finset.coe_empty

/-- The children that a read of `[*]` visits. -/
def VisitedChild (excluded : Finset String) : Label → Prop
  | .anyIndex => True
  | .index i => i ∉ excluded
  | .field _ => False

omit [DecidableEq α] in
/-- A child is visited when it is what some instance of `[*]` finds. -/
theorem exists_visited_iff (excluded : Finset String) (c : LabelMap (Finset α))
    (P : Tree (Finset α) → Prop) (hP : ¬ P (createLeaf ∅)) :
    (∃ binding ∈ c.bindings, VisitedChild excluded binding.1 ∧ P binding.2) ↔
      ∃ k, (Label.Refined.anyIndex excluded).Matches k ∧ P (childAt c k) := by
  constructor
  · intro hbinding
    obtain ⟨⟨k, s⟩, hmem, hvisited, hs⟩ := hbinding
    have hk := SortedMap.mem_bindings.mp hmem
    cases k with
    | anyIndex =>
      obtain ⟨i, hi, hnone⟩ := exists_fresh_index_notMem c excluded
      refine ⟨.index i, .anyIndex hi, ?_⟩
      rw [childAt_index_of_none hnone, childAt_of_find? hk]
      exact hs
    | index i =>
      refine ⟨.index i, .anyIndex hvisited, ?_⟩
      rw [childAt_of_find? hk]
      exact hs
    | field f => exact hvisited.elim
  · intro hmatch
    obtain ⟨k, hk, hs⟩ := hmatch
    cases hk with
    | @anyIndex _ i hi =>
      cases hown : c.find? (.index i) with
      | some s =>
        rw [childAt_of_find? hown] at hs
        exact ⟨(.index i, s), SortedMap.mem_bindings.mpr hown, hi, hs⟩
      | none =>
        rw [childAt_index_of_none hown] at hs
        cases hstar : c.find? .anyIndex with
        | some s =>
          rw [childAt_of_find? hstar] at hs
          exact ⟨(.anyIndex, s), SortedMap.mem_bindings.mpr hstar, trivial, hs⟩
        | none =>
          rw [childAt, lookup_anyIndex, hstar] at hs
          exact absurd hs hP

/-- The first label of an instance is one of the refined label, the others are an instance of the
    rest. -/
theorem mem_instances_cons_iff {obs : Tree (Finset α) → Set α} (l : Label.Refined)
    (rest : List Label.Refined) (a : Finset α) (t : Tree (Finset α)) (x : α) :
    (x ∈ a ∨ ∃ p, Instance (l :: rest) p ∧ x ∈ along obs p t) ↔
      x ∈ a ∪ t.element ∨
        ∃ k, l.Matches k ∧ ∃ p, Instance rest p ∧ x ∈ along obs p (childAt t.children k) := by
  obtain ⟨p₀, hp₀⟩ := exists_instance (l :: rest)
  obtain ⟨k₀, p₀', hk₀, hp₀', rfl⟩ := List.forall₂_cons_left_iff.mp hp₀
  rw [Finset.mem_union, or_assoc]
  refine or_congr_right ⟨fun hx => ?_, fun hx => ?_⟩
  · obtain ⟨p, hp, hx⟩ := hx
    obtain ⟨k, p', hk, hp', rfl⟩ := List.forall₂_cons_left_iff.mp hp
    exact hx.imp_right fun hx => ⟨k, hk, p', hp', hx⟩
  · rcases hx with hx | ⟨k, hk, p, hp, hx⟩
    · exact ⟨k₀ :: p₀', hp₀, Or.inl hx⟩
    · exact ⟨k :: p, .cons hk hp, Or.inr hx⟩

/-- What a read has gathered: the ancestors, and what is observed of the subtree. -/
def Gathered (w : Finset α → Finset α) (obs : Tree (Finset α) → Set α)
    (result : Finset α × Option (Tree (Finset α))) (x : α) : Prop :=
  x ∈ result.1 ∨ x ∈ obs (optionNodeTree (plainSet w) result.2)

theorem gathered_none {obs : Tree (Finset α) → Set α} (h : Additive w obs) (a : Finset α) (x : α) :
    Gathered w obs (a, none) x ↔ x ∈ a := by
  rw [Gathered, optionNodeTree, h.empty]
  exact or_iff_left (Set.notMem_empty x)

/-- One step of the fold over the children. -/
theorem gathered_join {obs : Tree (Finset α) → Set α} (h : Additive w obs)
    (result acc : Finset α × Option (Tree (Finset α))) (x : α) :
    Gathered w obs ((plainSet w).join result.1 acc.1,
      joinOptionTrees (plainSet w) id (plainSet w).bottom none acc.2 result.2) x ↔
    Gathered w obs acc x ∨ Gathered w obs result x := by
  simp only [Gathered, setElement_join, Finset.mem_union, h.joinOptionTrees, Set.mem_union]
  tauto

/-- **Reading visits the instances of the path.** By induction on the path; where it has a `[*]`,
    over the children. -/
theorem gathered_readRawRefined {obs : Tree (Finset α) → Set α} (h : Additive w obs)
    (path : List Label.Refined) (a : Finset α) (t : Tree (Finset α)) (x : α) :
    Gathered w obs (readRawRefined (plainSet w) (fun _ e => e) false a path t) x ↔
      x ∈ a ∨ ∃ p, Instance path p ∧ x ∈ along obs p t := by
  induction path generalizing a t with
  | nil =>
    rw [readRawRefined, Gathered, optionNodeTree_createNodeOption]
    simp [along]
  | cons l rest ih =>
    rw [mem_instances_cons_iff]
    -- where one child is read, the rest of the path is read there
    have hconcrete : ∀ k : Label, k.Concrete → l = .toRefined k → (∀ k', l.Matches k' ↔ k' = k) →
        (Gathered w obs (readRawRefined (plainSet w) (fun _ e => e) false a (l :: rest) t) x ↔
          x ∈ a ∪ t.element ∨
            ∃ k, l.Matches k ∧ ∃ p, Instance rest p ∧ x ∈ along obs p (childAt t.children k)) := by
      intro k hconcrete hl hk
      simp only [hk, exists_eq_left]
      rw [hl, readRawRefined_concrete_cons w hconcrete, childAt]
      cases lookup t.children k with
      | none =>
        rw [Option.elim_none, gathered_none h]
        simp [along_createLeaf_empty h]
      | some s => exact ih _ s
    cases l with
    | anyIndex excluded =>
      rw [readRawRefined]
      simp only [ancestors_eq_union, Bool.not_false, if_true]
      rw [SortedMap.fold_eq_foldl]
      refine (foldl_seen_iff (Gathered w obs · x) (P := fun binding =>
          VisitedChild excluded binding.1 ∧ (x ∈ a ∪ t.element ∨
            ∃ p, Instance rest p ∧ x ∈ along obs p binding.2))
        (fun acc binding => ?_) _ _).trans ?_
      · obtain ⟨k, s⟩ := binding
        have hstep := gathered_join h (readRawRefined (plainSet w) (fun _ e => e) false
          (a ∪ t.element) rest s) acc x
        rw [ih] at hstep
        cases k with
        | anyIndex => exact hstep.trans (or_congr_right (and_iff_right trivial).symm)
        | index i =>
          dsimp only
          by_cases hi : i ∈ excluded
          · rw [if_pos hi]
            exact (or_iff_left fun hx => hx.1 hi).symm
          · rw [if_neg hi]
            exact hstep.trans (or_congr_right (and_iff_right hi).symm)
        | field f => exact (or_iff_left fun hx => hx.1.elim).symm
      · rw [gathered_none h]
        by_cases hx : x ∈ a ∪ t.element
        · exact iff_of_true (Or.inl hx) (Or.inl hx)
        · simp only [hx, false_or]
          refine exists_visited_iff excluded t.children
            (fun s => ∃ p, Instance rest p ∧ x ∈ along obs p s) fun hP => ?_
          obtain ⟨p, -, hp⟩ := hP
          rw [along_createLeaf_empty h] at hp
          exact hp
    | index i =>
      exact hconcrete (.index i) trivial rfl
        fun k' => ⟨fun hk' => by cases hk'; rfl, fun hk' => hk' ▸ .index i⟩
    | field f =>
      exact hconcrete (.field f) trivial rfl
        fun k' => ⟨fun hk' => by cases hk'; rfl, fun hk' => hk' ▸ .field f⟩

/-- **A refined read observes what the instances of the path observe.** -/
theorem mem_readRefined {obs : Tree (Finset α) → Set α} (h : Additive w obs)
    (path : List Label.Refined) (t : Tree (Finset α)) (x : α) :
    x ∈ obs (readRefined (plainSet w) (fun _ e => e) path t) ↔
      ∃ p, Instance path p ∧ x ∈ along obs p t := by
  have hraw := gathered_readRawRefined h path ∅ t x
  rw [readRefined, h.join, Set.mem_union, h.leaf]
  refine hraw.trans (or_iff_right (Finset.notMem_empty x))

/-- The root of a read, also of a path with `[*]`. -/
theorem mem_readRoot (p : List Label) (t : Tree (Finset α)) (x : α) :
    x ∈ readRoot w p t ↔
      ∃ p', Instance (Label.Refined.toRefinedPath p) p' ∧ x ∈ taintAt p' t := by
  refine (mem_readRefined additive_element _ t x).trans (exists_congr fun p' => ?_)
  rw [along_element, Finset.mem_coe]

end Pysa
