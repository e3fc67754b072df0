/-
  Subject: TRANSFORMING THE PATHS OF A TREE (`abstractTreeDomain.ml`, `transform Path Map`).

  * `inTheWay` -- when a later write may take away what an earlier one put at a path;
  * `Kept` -- what a write leaves at its path: the invariant of the later writes;
    `kept_assign` establishes it, `Kept.assign` preserves it;
  * `transformPathMap_ge` -- **the new tree is above every new node that no later one is in the way
    of**.
-/
import Pysa.Domains.TreePaths
import Pysa.Domains.TreeWiden

namespace Pysa

open Pysa.Tree

universe u

variable {E : Type u} (D : Element E)

/-! ## 1. The transformation -/

/-- `transform Path Map`. -/
def transformPathMap (f : List Label × E → List Label × E) (tree : Tree E) : Tree E :=
  filterMapTreePaths D false (fun path _ element => f (path, element)) tree

/-- A write to the first path may take away what is at the second: it replaces a prefix of it, or
    names an index where the second has `[*]`. Below a `[*]` a write joins. -/
def inTheWay : (strong : Bool) → List Label → List Label → Bool
  | strong, [], _ => strong
  | _, _ :: _, [] => false
  | _, .anyIndex :: q, .anyIndex :: p => inTheWay false q p
  | _, .anyIndex :: q, .index _ :: p => inTheWay false q p
  | _, .index _ :: _, .anyIndex :: _ => true
  | strong, k :: q, l :: p => decide (k = l) && inTheWay strong q p

/-! ## 2. What is kept at a path -/

/-- The children that a write reaches: the one of its label, and every index under `[*]`. -/
inductive WrittenAt (children : LabelMap E) : Label → Label → Prop
  | own (k) : WrittenAt children k k
  | named {i} (hi : children.find? (.index i) ≠ none) : WrittenAt children .anyIndex (.index i)

/-- The element is in the tree at the path, and at every index where the path has `[*]`, together
    with the ancestors. -/
def Kept (e : E) : List Label → E → Tree E → Prop
  | [], ra, t => D.lessOrEqual e (D.join ra t.element)
  | k :: rest, ra, t => ∀ k', WrittenAt t.children k k' →
      Kept e rest (D.transformOnSink (D.join ra t.element)) (lookupTreeWithDefault D t k')

variable {D}

theorem lookupTreeWithDefault_eq (t : Tree E) (k : Label) :
    lookupTreeWithDefault D t k = optionNodeTree D (t.children.find? k) := by
  unfold lookupTreeWithDefault
  cases t.children.find? k <;> rfl

theorem lookupTreeWithDefault_empty (e : E) (k : Label) :
    lookupTreeWithDefault D (.node e .empty) k = emptyTree D := by
  rw [lookupTreeWithDefault_eq, children_node, SortedMap.find?_empty]
  rfl

namespace Kept

variable {e : E} {p : List Label} {a ra ra' : E} {t : Tree E}

theorem mono (L : D.Lawful) (S : D.LawfulSink) (h : Kept D e p ra t)
    (hra : D.lessOrEqual ra ra') : Kept D e p ra' t := by
  induction p generalizing ra ra' t with
  | nil => exact L.trans h (L.join_mono hra (L.refl _))
  | cons k rest ih => exact fun k' hk' => ih (h k' hk') (S.mono (L.join_mono hra (L.refl _)))

/-- What the ancestors alone keep is kept in every tree under them. -/
theorem of_empty (L : D.Lawful) (S : D.LawfulSink) (h : Kept D e p ra (emptyTree D))
    (hra : D.lessOrEqual ra ra') (t : Tree E) : Kept D e p ra' t := by
  induction p generalizing ra ra' t with
  | nil => exact L.trans h (L.join_mono hra (L.bottom_le _))
  | cons k rest ih =>
    intro k' _
    have hrest := h k (.own k)
    rw [emptyTree, createLeaf, lookupTreeWithDefault_empty] at hrest
    exact ih hrest (S.mono (L.join_mono hra (L.bottom_le _))) _

theorem createNodeOption (L : D.Lawful) (S : D.LawfulSink) {element : E} {c : LabelMap E}
    (h : Kept D e p ra (.node element c)) :
    Kept D e p ra (optionNodeTree D (createNodeOption D element c)) := by
  obtain ⟨hnone, rfl, hbottom⟩ | ⟨hsome, -⟩ := createNodeOption_cases D element c
  · have hup : D.lessOrEqual (D.join ra element) (D.join ra D.bottom) :=
      L.join_mono (L.refl ra) ((L.isBottom_iff element).mp hbottom)
    rw [hnone]
    cases p with
    | nil => exact L.trans h hup
    | cons k rest =>
      intro k' _
      have hrest := h k (.own k)
      rw [lookupTreeWithDefault_empty] at hrest
      exact hrest.of_empty L S (S.mono hup) _
  · rwa [hsome]

/-- What a label finds in a single child. -/
theorem lookup_singleton {k k' : Label} {s l : Tree E}
    (h : lookup (.singleton k s : LabelMap E) k' = some l) :
    l = s ∧ (k' = k ∨ k = .anyIndex ∧ ∃ i, k' = .index i) := by
  have hfind : ∀ k'', (.singleton k s : LabelMap E).find? k'' = some l → l = s ∧ k'' = k := by
    intro k'' hk''
    rw [SortedMap.find?_singleton] at hk''
    split at hk''
    · rename_i heq
      exact ⟨(Option.some.inj hk'').symm, heq⟩
    · cases hk''
  cases k' with
  | anyIndex => exact (hfind _ h).imp_right Or.inl
  | field f => exact (hfind _ h).imp_right Or.inl
  | index i =>
    rw [lookup, Option.or_eq_some_iff] at h
    rcases h with h | ⟨-, h⟩
    · exact (hfind _ h).imp_right Or.inl
    · exact (hfind _ h).imp_right fun hstar => Or.inr ⟨hstar.symm, i, rfl⟩

/-- What is kept at a path is above the tree of this path. -/
theorem le (L : D.Lawful) (S : D.LawfulSink) (h : Kept D e p ra t) :
    lessOrEqualTree D (createTreeOption.createTreeInternal D p (createLeaf e)) ra t := by
  induction p generalizing ra t with
  | nil =>
    rw [lessOrEqualTree_iff_lookup]
    refine ⟨h, fun k l hl => ?_⟩
    rw [createTreeOption.createTreeInternal, createLeaf, children_node, lookup_empty] at hl
    cases hl
  | cons k rest ih =>
    rw [lessOrEqualTree_iff_lookup]
    refine ⟨L.bottom_le _, fun k' l hl => ?_⟩
    rw [createTreeOption.createTreeInternal, children_node] at hl
    obtain ⟨rfl, hk'⟩ := lookup_singleton hl
    cases hfind : t.children.find? k' with
    | some s =>
      have hwritten : WrittenAt t.children k k' := by
        rcases hk' with rfl | ⟨rfl, i, rfl⟩
        · exact .own k'
        · exact .named (by rw [hfind]; exact Option.some_ne_none s)
      have hrest := ih (h k' hwritten)
      rw [lookupTreeWithDefault_eq, hfind] at hrest
      rw [lookupTree, lookup_of_find? hfind]
      exact hrest
    | none =>
      rcases hk' with rfl | ⟨rfl, i, rfl⟩
      · have hrest := h k' (.own k')
        rw [lookupTreeWithDefault_eq, hfind] at hrest
        exact ih (hrest.of_empty L S (L.refl _) _)
      · have hrest := ih (h .anyIndex (.own _))
        rw [lookupTree, lookup_index_of_none hfind]
        rw [lookupTreeWithDefault_eq] at hrest
        exact hrest

/-- **Pruning keeps**, under ancestors above those it pruned against. -/
theorem pruneTree (L : D.Lawful) (S : D.LawfulSink) (ha : SinkClosed D a)
    (hra : D.lessOrEqual a ra) (h : Kept D e p ra t) :
    Kept D e p ra (optionNodeTree D (pruneTree D a t)) := by
  induction p generalizing a ra t with
  | nil =>
    obtain ⟨he, -, -⟩ := filterByAncestors_spec L S ha hra t.element
    rw [pruneTree_eq]
    refine createNodeOption L S (p := []) ?_
    exact L.trans h (L.join_le (L.le_join_left _ _) he)
  | cons k rest ih =>
    obtain ⟨he, hclosed, hanc⟩ := filterByAncestors_spec L S ha hra t.element
    rw [pruneTree_eq]
    refine createNodeOption L S (p := k :: rest) fun k' hk' => ?_
    have hup := S.mono (L.join_le (L.le_join_left _ _) he)
    have hwritten : WrittenAt t.children k k' := by
      cases hk' with
      | own => exact .own k
      | named hi =>
        refine .named fun hnone => hi ?_
        rw [children_node, SortedMap.find?_filterMap, hnone]
        rfl
    have hrest := h k' hwritten
    rw [lookupTreeWithDefault_eq, children_node, SortedMap.find?_filterMap, element_node]
    rw [lookupTreeWithDefault_eq] at hrest
    cases hfind : t.children.find? k' with
    | none =>
      rw [hfind] at hrest
      exact hrest.of_empty L S hup _
    | some s =>
      rw [hfind] at hrest
      exact ih hclosed hanc (hrest.mono L S hup)

/-- **Joining with a leaf keeps**: the children are pruned. -/
theorem joinTrees_leaf (L : D.Lawful) (S : D.LawfulSink) (ha : SinkClosed D a)
    (hra : D.lessOrEqual a ra) (h : Kept D e p ra t) (e' : E) :
    Kept D e p ra (optionNodeTree D (joinTrees D id a none t (createLeaf e'))) := by
  obtain ⟨he, hclosed, hanc⟩ := filterByAncestors_spec L S ha hra (D.join t.element e')
  have helement := L.trans (L.le_join_left _ _) he
  have hjoin : joinTrees D id a none t (createLeaf e') = Pysa.createNodeOption D
      (filterByAncestors D a (D.join t.element e')).newElement
      (joinChildren D id (filterByAncestors D a (D.join t.element e')).ancestors none
        t.children .empty) := joinTrees_of_not_must D id a rfl t (createLeaf e')
  rw [hjoin]
  refine createNodeOption L S ?_
  cases p with
  | nil => exact L.trans h (L.join_le (L.le_join_left _ _) helement)
  | cons k rest =>
    intro k' hk'
    have hup := S.mono (L.join_le (L.le_join_left _ _) helement)
    have hchild : ∀ k, (joinChildren D id
        (filterByAncestors D a (D.join t.element e')).ancestors none t.children .empty).find? k =
        (t.children.find? k).bind
          (Pysa.pruneTree D (filterByAncestors D a (D.join t.element e')).ancestors) := by
      intro k
      rw [joinChildren_find?, SortedMap.find?_empty, lookup_empty]
      cases hfind : t.children.find? k with
      | none => rw [if_pos ⟨rfl, rfl⟩, Option.bind_none]
      | some s =>
        rw [if_neg (fun h => Option.some_ne_none s h.1), lookup_of_find? hfind, joinOptionTrees,
          Option.bind_some]
    have hwritten : WrittenAt t.children k k' := by
      cases hk' with
      | own => exact .own k
      | named hi =>
        refine .named fun hnone => hi ?_
        rw [children_node, hchild, hnone, Option.bind_none]
    have hrest := h k' hwritten
    rw [lookupTreeWithDefault_eq, children_node, hchild, element_node]
    rw [lookupTreeWithDefault_eq] at hrest
    cases hfind : t.children.find? k' with
    | none =>
      rw [hfind] at hrest
      exact hrest.of_empty L S hup _
    | some s =>
      rw [hfind] at hrest
      exact pruneTree L S hclosed hanc (hrest.mono L S hup)

/-- A leaf hung below a path is kept there, if the ancestors have what it lacks. -/
theorem createTreeInternal (L : D.Lawful) (S : D.LawfulSink) (ha : SinkClosed D a)
    (hra : D.lessOrEqual a ra) {element : E}
    (h : ∀ ra, D.lessOrEqual a ra → D.lessOrEqual e (D.join ra element)) :
    Kept D e p ra (createTreeOption.createTreeInternal D p (createLeaf element)) := by
  induction p generalizing ra with
  | nil => exact h ra hra
  | cons k rest ih =>
    intro k' hk'
    have hdown : D.lessOrEqual a (D.transformOnSink (D.join ra D.bottom)) :=
      L.trans ha (S.mono (L.trans hra (L.le_join_left _ _)))
    have hown : k' = k := by
      cases hk' with
      | own => rfl
      | named hi =>
        rw [createTreeOption.createTreeInternal, children_node, SortedMap.find?_singleton,
          if_neg (by simp)] at hi
        exact absurd rfl hi
    rw [lookupTreeWithDefault_eq, createTreeOption.createTreeInternal, children_node, hown,
      SortedMap.find?_singleton, if_pos rfl]
    exact ih hdown

end Kept

/-! ## 3. One write -/

section Write

variable {e : E} {a ra : E}

/-- One level of an assignment: every child that the write reaches is assigned to. -/
theorem assignOrJoinPath_level {t : Tree E} (ht : ¬ isEmptyTree D t = true) (subtree : Tree E)
    (k : Label) (rest : List Label) (doJoin : Bool) (a : E) :
    ∃ c : LabelMap E,
      assignOrJoinPath D subtree (k :: rest) doJoin a t = createNodeOption D t.element c ∧
      (∀ l, WrittenAt t.children k l → c.find? l =
        assignOrJoinPath D subtree rest (doJoin || decide (k = .anyIndex))
          (D.transformOnSink (D.join a t.element)) (lookupTreeWithDefault D t l)) ∧
      ∀ l, ¬ WrittenAt t.children k l → c.find? l = t.children.find? l := by
  rw [assignOrJoinPath, if_neg ht]
  cases k with
  | anyIndex =>
    refine ⟨_, rfl, fun l hl => ?_, fun l hl => ?_⟩
    · rw [SortedMap.find?_filterMapi, SortedMap.find?_add]
      cases hl with
      | own => simp
      | @named i hi =>
        obtain ⟨s, hs⟩ := Option.ne_none_iff_exists'.mp hi
        rw [if_neg (by simp), hs, lookupTreeWithDefault_eq, hs]
        simp [optionNodeTree]
    · rw [SortedMap.find?_filterMapi, SortedMap.find?_add]
      cases l with
      | anyIndex => exact absurd (.own _) hl
      | index i =>
        have hnone : t.children.find? (.index i) = none := by
          by_contra hi
          exact hl (.named hi)
        rw [if_neg (by simp), hnone]
        rfl
      | field f =>
        rw [if_neg (by simp)]
        cases t.children.find? (.field f) <;> rfl
  | index i =>
    refine ⟨_, rfl, fun l hl => ?_, fun l hl => ?_⟩
    · cases hl
      rw [SortedMap.find?_setOrRemove, if_pos rfl]
      simp
    · rw [SortedMap.find?_setOrRemove, if_neg fun h : l = .index i => hl (h ▸ .own _)]
  | field f =>
    refine ⟨_, rfl, fun l hl => ?_, fun l hl => ?_⟩
    · cases hl
      rw [SortedMap.find?_setOrRemove, if_pos rfl]
      simp
    · rw [SortedMap.find?_setOrRemove, if_neg fun h : l = .field f => hl (h ▸ .own _)]

/-- What is kept in an empty tree is kept by the ancestors. -/
theorem Kept.of_isEmptyTree (L : D.Lawful) (S : D.LawfulSink) {p : List Label} {t : Tree E}
    (ht : isEmptyTree D t = true) (h : Kept D e p ra t) : Kept D e p ra (emptyTree D) := by
  have hnone : Pysa.createNodeOption D t.element t.children = none := by
    rw [isEmptyTree] at ht
    rw [Pysa.createNodeOption, if_pos ht]
  obtain ⟨element, c⟩ := t
  have hnode := h.createNodeOption L S
  rw [element_node, children_node] at hnone
  rwa [hnone] at hnode

/-- The children that a write reaches are those that it reached before it. -/
theorem writtenAt_of_level {t : Tree E} {c : LabelMap E} {k l l' : Label}
    (hother : ∀ l, ¬ WrittenAt t.children k l → c.find? l = t.children.find? l)
    (hl' : WrittenAt c l l') (hway : l = .anyIndex → ∀ i, k ≠ .index i) :
    WrittenAt t.children l l' := by
  cases hl' with
  | own => exact .own l
  | @named i hi =>
    refine .named fun hnone => hi ?_
    rw [hother, hnone]
    intro hwritten
    cases hwritten with
    | own => exact hway rfl i rfl
    | named hi => exact hi hnone

theorem kept_emptyTree (L : D.Lawful) (S : D.LawfulSink) (p : List Label) (ha : SinkClosed D a)
    (hra : D.lessOrEqual a ra)
    (h : ∀ ra, D.lessOrEqual a ra → D.lessOrEqual e (D.join ra D.bottom)) :
    Kept D e p ra (emptyTree D) := by
  induction p generalizing ra with
  | nil => exact h ra hra
  | cons k rest ih =>
    intro k' _
    rw [emptyTree, createLeaf, lookupTreeWithDefault_empty]
    exact ih (L.trans ha (S.mono (L.trans hra (L.le_join_left _ _))))

/-- A write into an empty tree hangs what is left of the leaf below the path. -/
theorem kept_hang (L : D.Lawful) (S : D.LawfulSink) (p : List Label) (ha : SinkClosed D a)
    (hra : D.lessOrEqual a ra) :
    Kept D e p ra (optionNodeTree D
      ((pruneTree D a (createLeaf e)).bind (createTreeOption D p))) := by
  have hleft : ∀ ra, D.lessOrEqual a ra →
      D.lessOrEqual e (D.join ra (filterByAncestors D a e).newElement) := fun ra hra =>
    (filterByAncestors_spec L S ha hra e).1
  rw [pruneTree_createLeaf]
  obtain ⟨hnone, -, hbottom⟩ | ⟨hsome, hne⟩ :=
    createNodeOption_cases D (filterByAncestors D a e).newElement (.empty : LabelMap E)
  · rw [hnone, Option.bind_none]
    exact kept_emptyTree L S p ha hra fun ra hra => L.trans (hleft ra hra)
      (L.join_mono (L.refl ra) ((L.isBottom_iff _).mp hbottom))
  · have hfull : isEmptyTree D (createLeaf (filterByAncestors D a e).newElement) = false := by
      rw [← Bool.not_eq_true]
      intro hempty
      rw [isEmptyTree, isEmptyInfo, Bool.and_eq_true] at hempty
      exact hne ⟨rfl, hempty.2⟩
    rw [hsome, Option.bind_some, createTreeOption, ← createLeaf, hfull]
    exact Kept.createTreeInternal L S ha hra hleft

/-- **A write keeps what it writes.** By induction on the path. -/
theorem kept_assign (L : D.Lawful) (S : D.LawfulSink) (p : List Label) (doJoin : Bool)
    (t : Tree E) (ha : SinkClosed D a) (hra : D.lessOrEqual a ra) :
    Kept D e p ra (optionNodeTree D (assignOrJoinPath D (createLeaf e) p doJoin a t)) := by
  induction p generalizing a ra t doJoin with
  | nil =>
    by_cases ht : isEmptyTree D t = true
    · rw [assignOrJoinPath, if_pos ht]
      exact kept_hang L S [] ha hra
    · rw [assignOrJoinPath, if_neg ht]
      cases doJoin with
      | true =>
        rw [if_pos rfl]
        exact ((lessOrEqualTree_iff D _ _ _).mp (joinTrees_le L S t (createLeaf e) ha hra).2).1
      | false =>
        rw [if_neg Bool.false_ne_true]
        exact Kept.pruneTree L S (p := []) ha hra (L.le_join_right _ _)
  | cons k rest ih =>
    by_cases ht : isEmptyTree D t = true
    · rw [assignOrJoinPath, if_pos ht]
      exact kept_hang L S (k :: rest) ha hra
    · obtain ⟨c, hc, hwritten, hother⟩ :=
        assignOrJoinPath_level ht (createLeaf e) k rest doJoin a
      rw [hc]
      refine Kept.createNodeOption L S fun k' hk' => ?_
      have hk := writtenAt_of_level hother hk' fun h i hi => by
        rw [h] at hi
        cases hi
      rw [lookupTreeWithDefault_eq, children_node, hwritten k' hk]
      exact ih _ _ (S.idempotent _) (S.mono (L.join_mono hra (L.refl _)))

/-- Below a child that both paths reach, the rest of the write is not in the way either. -/
theorem inTheWay_below {children : LabelMap E} {k l l' : Label} {q p : List Label} {strong : Bool}
    (hk : WrittenAt children k l') (hl : WrittenAt children l l')
    (hway : inTheWay strong (k :: q) (l :: p) = false) :
    inTheWay (strong && !decide (k = .anyIndex)) q p = false := by
  cases hk with
  | own =>
    cases hl with
    | own => cases k <;> simpa [inTheWay] using hway
    | named hi =>
      rw [inTheWay] at hway
      cases hway
  | named hi => cases hl <;> simpa [inTheWay] using hway

/-- **A write that is not in the way keeps what is kept.** By induction on the path written to. -/
theorem Kept.assign (L : D.Lawful) (S : D.LawfulSink) {p q : List Label} {doJoin : Bool} (e' : E)
    {t : Tree E} (ha : SinkClosed D a) (hra : D.lessOrEqual a ra) (h : Kept D e p ra t)
    (hway : inTheWay (!doJoin) q p = false) :
    Kept D e p ra (optionNodeTree D (assignOrJoinPath D (createLeaf e') q doJoin a t)) := by
  induction q generalizing p a ra t doJoin with
  | nil =>
    by_cases ht : isEmptyTree D t = true
    · exact (h.of_isEmptyTree L S ht).of_empty L S (L.refl ra) _
    · rw [inTheWay, Bool.not_eq_false'] at hway
      rw [assignOrJoinPath, if_neg ht, if_pos hway]
      exact h.joinTrees_leaf L S ha hra e'
  | cons k rest ih =>
    by_cases ht : isEmptyTree D t = true
    · exact (h.of_isEmptyTree L S ht).of_empty L S (L.refl ra) _
    · obtain ⟨c, hc, hwritten, hother⟩ :=
        assignOrJoinPath_level ht (createLeaf e') k rest doJoin a
      rw [hc]
      refine Kept.createNodeOption L S ?_
      cases p with
      | nil => exact h
      | cons l prest =>
        intro l' hl'
        have hl := writtenAt_of_level hother hl' fun h i hi => by
          rw [h, hi, inTheWay] at hway
          cases hway
        have hrest := h l' hl
        rw [lookupTreeWithDefault_eq, children_node, element_node]
        by_cases hk : WrittenAt t.children k l'
        · rw [hwritten l' hk]
          refine ih (S.idempotent _) (S.mono (L.join_mono hra (L.refl _))) hrest ?_
          rw [Bool.not_or]
          exact inTheWay_below hk hl hway
        · rw [hother l' hk, ← lookupTreeWithDefault_eq]
          exact hrest

end Write

/-! ## 4. All writes -/

/-- Writes that are not in the way keep what is kept. -/
theorem Kept.foldl (L : D.Lawful) (S : D.LawfulSink) {e : E} {p : List Label}
    (writes : List (List Label × E)) {t : Tree E} (h : Kept D e p D.bottom t)
    (hway : ∀ m ∈ writes, D.isBottom m.2 = false → inTheWay true m.1 p = false) :
    Kept D e p D.bottom (writes.foldl (fun t m =>
      if D.isBottom m.2 then t else assignTreePath D t m.1 (createLeaf m.2)) t) := by
  induction writes generalizing t with
  | nil => exact h
  | cons m rest ih =>
    rw [List.forall_mem_cons] at hway
    rw [List.foldl_cons]
    refine ih ?_ hway.2
    split
    · exact h
    · rename_i hm
      rw [Bool.not_eq_true] at hm
      exact h.assign L S m.2 (sinkClosed_bottom L) (L.refl _) (hway.1 hm)

theorem transformPathMap_eq (f : List Label × E → List Label × E) (tree : Tree E) :
    transformPathMap D f tree =
      ((nodes D false tree).map fun n => f (n.path, n.element)).foldl (fun t m =>
        if D.isBottom m.2 then t else assignTreePath D t m.1 (createLeaf m.2)) (emptyTree D) := by
  rw [transformPathMap, filterMapTreePaths, foldTreePaths_eq, List.foldl_map]

/-- **Transforming the paths keeps every new node that no later write is in the way of**, over every
    lawful element domain: the new tree is above the tree of that node. -/
theorem transformPathMap_ge (L : D.Lawful) (S : D.LawfulSink)
    (f : List Label × E → List Label × E) (tree : Tree E)
    (earlier later : List (PathWithAncestors E)) (n : PathWithAncestors E)
    (hn : nodes D false tree = earlier ++ n :: later)
    (hway : ∀ m ∈ later, D.isBottom (f (m.path, m.element)).2 = false →
      inTheWay true (f (m.path, m.element)).1 (f (n.path, n.element)).1 = false) :
    lessOrEqual D (createTree D (f (n.path, n.element)).1 (createLeaf (f (n.path, n.element)).2))
      (transformPathMap D f tree) := by
  have hleaf : isEmptyTree D (createLeaf (f (n.path, n.element)).2) =
      D.isBottom (f (n.path, n.element)).2 := rfl
  by_cases hbottom : D.isBottom (f (n.path, n.element)).2 = true
  · rw [createTree, createTreeOption, hleaf, hbottom]
    have hempty : isBottom D (emptyTree D) = true := (L.isBottom_iff D.bottom).mpr (L.refl _)
    exact lessOrEqual_of_isBottom L hempty _
  · rw [transformPathMap_eq, hn, List.map_append, List.map_cons, List.foldl_append, List.foldl_cons,
      if_neg hbottom, createTree, createTreeOption, hleaf, if_neg hbottom, lessOrEqual]
    refine Kept.le L S (Kept.foldl L S _ ?_ (List.forall_mem_map.mpr hway))
    exact kept_assign L S _ false _ (sinkClosed_bottom L) (L.refl _)

/-- Two fields that are moved below a third: the second write is not in the way of the first. -/
theorem transformPathMap_ge_fields :
    let D := plainSet (id : Finset ℕ → Finset ℕ)
    let t : Tree (Finset ℕ) := .node ∅
      ((SortedMap.singleton (.field "f") (createLeaf {0})).add (.field "g") (createLeaf {1}))
    let f := fun entry : List Label × Finset ℕ => (.field "h" :: entry.1, entry.2)
    lessOrEqual D (createTree D [.field "h", .field "f"] (createLeaf {0})) (transformPathMap D f t) :=
  transformPathMap_ge (setElement_lawful id .identity id) (setElement_lawfulSink id .identity id)
    (fun entry : List Label × Finset ℕ => (.field "h" :: entry.1, entry.2)) _ []
    [⟨[.field "g"], ∅, {1}⟩] ⟨[.field "f"], ∅, {0}⟩ (by decide +kernel) (by decide +kernel)

/-- What is lost: the first of two nodes sent to one path, and what `[*]` says of an index that
    has a child of its own, also when no path changes. -/
theorem transformPathMap_loses :
    let D := plainSet (id : Finset ℕ → Finset ℕ)
    let fields : Tree (Finset ℕ) := .node ∅
      ((SortedMap.singleton (.field "f") (createLeaf {0})).add (.field "g") (createLeaf {1}))
    let indices : Tree (Finset ℕ) := .node ∅
      ((SortedMap.singleton .anyIndex (createLeaf {0})).add (.index "i") (createLeaf {1}))
    ¬ lessOrEqual D (createTree D [.field "h"] (createLeaf {0}))
        (transformPathMap D (fun entry => ([.field "h"], entry.2)) fields) ∧
      ¬ lessOrEqual D (createTree D [.anyIndex] (createLeaf {0}))
        (transformPathMap D id indices) := by
  decide +kernel

end Pysa
