/-
  Subject: PARTITIONING A TREE (`abstractTreeDomain.ml`, `partition` with `By`).

  * `picked` -- the tree of what one class takes of each node, with all the branches;
  * `Writes` -- a run of writes, whatever ancestors they prune against;
  * `writes_spec` -- writing the nodes of a class in their order loses nothing of them, and leaves
    of each node what its class took or that without some ancestors;
  * `partition_sound` -- **a tree is below the join of its classes, and what a class has at a path
    comes from what was filed under its key there.**
-/
import Pysa.Domains.MapDomain
import Pysa.Domains.TreeParts
import Pysa.Domains.TreePathMap

namespace Pysa

open Pysa.Tree

universe u

variable {E : Type u} (D : Element E) {K P : Type u}

/-! ## 1. The operation -/

section Operations

variable [DecidableEq K]

/-- `Path, By`. -/
def partitionPath (f : List Label × E → K) (tree : Tree E) : AssocMap K (Tree E) :=
  foldTreePaths D false ∅ (fun path _ element result =>
    result.update (f (path, element)) (updatePartition D path element)) tree

/-- `PathWithAncestors, By`. -/
def partitionPathWithAncestors (f : PathWithAncestors E → K) (tree : Tree E) :
    AssocMap K (Tree E) :=
  foldTreePaths D true ∅ (fun path ancestors element result =>
    result.update (f ⟨path, ancestors, element⟩) (updatePartition D path element)) tree

/-- A part of the element domain: `Element.partition` on it with `By`, and the parts of an element. -/
structure ElementPart (E K P : Type u) where
  partition (f : P → K) (element : E) : AssocMap K E
  IsPart : P → E → Prop

/-- The classes of an element lose nothing, and have the parts of their key. -/
structure ElementPart.Lawful (Q : ElementPart E K P) : Prop where
  le_of_classes : ∀ {f e x}, (∀ key cls, (Q.partition f e).lookup key = some cls →
    D.lessOrEqual cls x = true) → D.lessOrEqual e x = true
  key : ∀ {f e key cls part}, (Q.partition f e).lookup key = some cls → Q.IsPart part cls →
    f part = key

/-- A part of the element, `By`. -/
def partitionElement (Q : ElementPart E K P) (f : P → K) (tree : Tree E) : AssocMap K (Tree E) :=
  foldTreePaths D false ∅ (fun path _ element result =>
    (Q.partition f element).entries.foldl (fun map entry =>
      map.update entry.1 (updatePartition D path entry.2)) result) tree

end Operations

/-! ## 2. What a class takes -/

/-- The tree of what is picked of each node, with all its branches. -/
def picked : (List Label → E → Option E) → Tree E → Tree E
  | pick, .node e ⟨keys, sorted, get⟩ =>
    .node (if D.isBottom e then D.bottom else (pick [] e).getD D.bottom)
      ⟨keys, sorted, fun k => picked (fun path => pick (k.1 :: path)) (get k)⟩

/-- What is picked of the nodes, in the order of the traversal. -/
def pickedNodes (pick : List Label → E → Option E) (t : Tree E) : List (List Label × E) :=
  (nodes D false t).filterMap fun n => (pick n.path n.element).map (n.path, ·)

variable {D} {pick : List Label → E → Option E}

theorem element_picked (pick : List Label → E → Option E) (e : E) (c : LabelMap E) :
    (picked D pick (.node e c)).element =
      if D.isBottom e then D.bottom else (pick [] e).getD D.bottom := by
  obtain ⟨keys, sorted, get⟩ := c
  rw [picked, element_node]

theorem find?_picked (pick : List Label → E → Option E) (e : E) (c : LabelMap E) (k : Label) :
    (picked D pick (.node e c)).children.find? k =
      (c.find? k).map (picked D fun path => pick (k :: path)) := by
  obtain ⟨keys, sorted, get⟩ := c
  rw [picked, children_node]
  by_cases hk : k ∈ keys
  · rw [SortedMap.find?_of_mem hk, SortedMap.find?_of_mem hk]
    rfl
  · rw [SortedMap.find?_eq_none.mpr hk, SortedMap.find?_eq_none.mpr hk]
    rfl

theorem pickedNodes_node (pick : List Label → E → Option E) (e : E) (c : LabelMap E) :
    pickedNodes D pick (.node e c) =
      (if D.isBottom e then [] else (pick [] e).toList.map fun d => ([], d)) ++
        c.bindings.flatMap fun binding =>
          (pickedNodes D (fun path => pick (binding.1 :: path)) binding.2).map fun w =>
            (binding.1 :: w.1, w.2) := by
  rw [pickedNodes, nodes, nodesFrom_eq, List.filterMap_append, element_node, children_node]
  congr 1
  · split
    · rfl
    · cases hpick : pick [] e <;> simp [hpick]
  · rw [List.filterMap_flatMap]
    refine List.flatMap_congr fun binding _ => ?_
    have hpath : nodesFrom D false (nextAncestors D false D.bottom e) ([] ++ [binding.1]) binding.2 =
        (nodes D false binding.2).map fun n => { n with path := [binding.1] ++ n.path } :=
      nodesFrom_path D false D.bottom [binding.1] binding.2
    rw [hpath, pickedNodes, List.filterMap_map, List.map_filterMap]
    refine List.filterMap_congr fun n _ => ?_
    simp only [Function.comp_apply, List.cons_append, List.nil_append, Option.map_map]
    rfl

/-! ## 3. Runs of writes -/

variable (D) in
/-- One write of a leaf: into no tree, or an assignment under some ancestors below `ra`. -/
inductive Write (ra : E) (doJoin : Bool) (path : List Label) (d : E) :
    Option (Tree E) → Option (Tree E) → Prop
  | create : Write ra doJoin path d none (createTreeOption D path (createLeaf d))
  | assign {a : E} {t : Option (Tree E)} (ha : SinkClosed D a) (hra : D.lessOrEqual a ra = true) :
      Write ra doJoin path d t
        (assignOrJoinPath D (createLeaf d) path doJoin a (optionNodeTree D t))

variable (D) in
inductive Writes (ra : E) (doJoin : Bool) :
    List (List Label × E) → Option (Tree E) → Option (Tree E) → Prop
  | nil (t) : Writes ra doJoin [] t t
  | cons {path d rest t t' t''} (h : Write D ra doJoin path d t t')
      (hrest : Writes ra doJoin rest t' t'') : Writes ra doJoin ((path, d) :: rest) t t''

variable {ra ra' : E} {doJoin : Bool}

theorem Write.mono (L : D.Lawful) {path : List Label} {d : E} {t t' : Option (Tree E)}
    (h : Write D ra doJoin path d t t') (hra : D.lessOrEqual ra ra' = true) :
    Write D ra' doJoin path d t t' := by
  cases h with
  | create => exact .create
  | assign ha hle => exact .assign ha (L.trans hle hra)

theorem Writes.mono (L : D.Lawful) {writes : List (List Label × E)} {t t' : Option (Tree E)}
    (h : Writes D ra doJoin writes t t') (hra : D.lessOrEqual ra ra' = true) :
    Writes D ra' doJoin writes t t' := by
  induction h with
  | nil t => exact .nil t
  | cons h _ ih => exact .cons (h.mono L hra) ih

theorem Writes.append {first second : List (List Label × E)} {t t'' : Option (Tree E)}
    (h : Writes D ra doJoin (first ++ second) t t'') :
    ∃ t', Writes D ra doJoin first t t' ∧ Writes D ra doJoin second t' t'' := by
  induction first generalizing t with
  | nil => exact ⟨t, .nil t, h⟩
  | cons w rest ih =>
    cases h with
    | cons h hrest =>
      obtain ⟨t', hfirst, hsecond⟩ := ih hrest
      exact ⟨t', .cons h hfirst, hsecond⟩

theorem Writes.trans {first second : List (List Label × E)} {t t' t'' : Option (Tree E)}
    (h : Writes D ra doJoin first t t') (h' : Writes D ra doJoin second t' t'') :
    Writes D ra doJoin (first ++ second) t t'' := by
  induction h with
  | nil t => exact h'
  | cons h _ ih => exact .cons h (ih h')

variable (D) in
/-- What a run of writes below the label `k` does to a node. -/
structure Below (ra : E) (doJoin : Bool) (k : Label) (writes : List (List Label × E))
    (t t' : Tree E) : Prop where
  le : D.lessOrEqual t.element t'.element = true
  element : D.isBottom t'.element = false → t'.element = t.element
  other : ∀ l, l ≠ k → t'.children.find? l = t.children.find? l
  child : Writes D (D.transformOnSink (D.join ra t'.element)) (doJoin || decide (k = .anyIndex))
    writes (t.children.find? k) (t'.children.find? k)

theorem find?_createTreeInternal (k l : Label) (path : List Label) (t : Tree E) :
    (createTreeOption.createTreeInternal D (k :: path) t).children.find? l =
      if l = k then some (createTreeOption.createTreeInternal D path t) else none := by
  rw [createTreeOption.createTreeInternal, children_node, SortedMap.find?_singleton]
  congr

/-- Hanging a tree below a path hangs it below the rest of the path in the child. -/
theorem find?_createTreeOption (k l : Label) (path : List Label) (t : Tree E) :
    (optionNodeTree D (createTreeOption D (k :: path) t)).children.find? l =
      if l = k then createTreeOption D path t else none := by
  unfold createTreeOption
  by_cases ht : isEmptyTree D t = true
  · rw [if_pos ht, if_pos ht, optionNodeTree, children_emptyTree, SortedMap.find?_empty, ite_self]
  · rw [if_neg ht, if_neg ht]
    exact find?_createTreeInternal k l path t

theorem element_createTreeOption (k : Label) (path : List Label) (t : Tree E) :
    (optionNodeTree D (createTreeOption D (k :: path) t)).element = D.bottom := by
  unfold createTreeOption
  split <;> rfl

theorem isEmptyTree_emptyTree (L : D.Lawful) : isEmptyTree D (emptyTree D) = true :=
  Bool.and_eq_true_iff.mpr ⟨rfl, (L.isBottom_iff _).mpr (L.refl _)⟩

/-- A write below a label is a write to the child of this label. -/
theorem Write.belowLabel (L : D.Lawful) (S : D.LawfulSink) {k : Label} {path : List Label} {d : E}
    {t t' : Option (Tree E)} (h : Write D ra doJoin (k :: path) d t t')
    (hk : k = .anyIndex → ∀ i, (optionNodeTree D t).children.find? (.index i) = none) :
    Below D ra doJoin k [(path, d)] (optionNodeTree D t) (optionNodeTree D t') := by
  have hbottom : D.isBottom D.bottom = true := (L.isBottom_iff _).mpr (L.refl _)
  -- a tree that is hung below the path, where nothing stood
  have hhang (t : Tree E) (s : Option (Tree E)) (ht : isEmptyTree D t = true)
      (hs : Write D (D.transformOnSink (D.join ra D.bottom)) (doJoin || decide (k = .anyIndex)) path
        d none (s.bind (createTreeOption D path))) :
      Below D ra doJoin k [(path, d)] t
        (optionNodeTree D (s.bind (createTreeOption D (k :: path)))) := by
    obtain ⟨hchildren, helement⟩ := Bool.and_eq_true_iff.mp ht
    rw [SortedMap.isEmpty_iff] at hchildren
    have hle (e : E) : D.lessOrEqual t.element e = true :=
      L.trans ((L.isBottom_iff _).mp helement) (L.bottom_le e)
    cases s with
    | none =>
      refine ⟨hle _, fun h => ?_, fun l _ => (hchildren l).symm, ?_⟩
      · rw [Option.bind_none, optionNodeTree, element_emptyTree, hbottom] at h
        cases h
      · rw [hchildren]
        exact .cons hs (.nil _)
    | some s =>
      rw [Option.bind_some] at hs ⊢
      refine ⟨hle _, fun h => ?_, fun l hl => ?_, ?_⟩
      · rw [element_createTreeOption, hbottom] at h
        cases h
      · rw [find?_createTreeOption, if_neg hl, hchildren]
      · rw [element_createTreeOption, find?_createTreeOption, if_pos rfl, hchildren]
        exact .cons hs (.nil _)
  cases h with
  | create => exact hhang (emptyTree D) (some (createLeaf d)) (isEmptyTree_emptyTree L) .create
  | @assign a _ ha hra =>
    by_cases ht : isEmptyTree D (optionNodeTree D t) = true
    · rw [assignOrJoinPath_empty ht]
      refine hhang _ _ ht ?_
      rw [← assignOrJoinPath_empty (isEmptyTree_emptyTree L) (createLeaf d) path
        (doJoin || decide (k = .anyIndex)) a]
      refine .assign (t := none) ha ?_
      exact L.trans ha (S.mono (L.trans hra (L.le_join_left _ _)))
    · obtain ⟨c, hc, hwritten, hother⟩ :=
        assignOrJoinPath_level ht (createLeaf d) k path doJoin a
      have hunwritten (l : Label) (hl : l ≠ k) :
          c.find? l = (optionNodeTree D t).children.find? l := by
        refine hother l fun hw => ?_
        cases hw with
        | own => exact hl rfl
        | named hi => exact hi (hk rfl _)
      have hchild := hwritten k (.own k)
      rw [lookupTreeWithDefault_eq] at hchild
      rw [hc]
      obtain ⟨hnone, rfl, he⟩ | ⟨hsome, -⟩ := createNodeOption_cases D
        (optionNodeTree D t).element c
      · rw [hnone]
        have hle := L.trans ((L.isBottom_iff _).mp he) (L.bottom_le D.bottom)
        refine ⟨hle, fun h => ?_, fun l hl => ?_, ?_⟩
        · rw [optionNodeTree, element_emptyTree, hbottom] at h
          cases h
        · rw [← hunwritten l hl]
          rfl
        · rw [optionNodeTree, children_emptyTree, hchild]
          exact .cons (.assign (S.idempotent _) (S.mono (L.join_mono hra hle))) (.nil _)
      · rw [hsome]
        refine ⟨L.refl _, fun _ => rfl, hunwritten, ?_⟩
        rw [optionNodeTree, children_node, element_node, hchild]
        exact .cons (.assign (S.idempotent _) (S.mono (L.join_mono hra (L.refl _)))) (.nil _)

theorem Below.append (L : D.Lawful) (S : D.LawfulSink) {k : Label}
    {first second : List (List Label × E)} {t t' t'' : Tree E} (h : Below D ra doJoin k first t t')
    (h' : Below D ra doJoin k second t' t'') : Below D ra doJoin k (first ++ second) t t'' where
  le := L.trans h.le h'.le
  element := fun hbottom => by
    have helement := h'.element hbottom
    rw [helement] at hbottom ⊢
    exact h.element hbottom
  other := fun l hl => (h'.other l hl).trans (h.other l hl)
  child := (h.child.mono L (S.mono (L.join_mono (L.refl ra) h'.le))).trans h'.child

theorem Writes.belowLabel (L : D.Lawful) (S : D.LawfulSink) {k : Label} {writes : List (List Label × E)}
    {t t' : Option (Tree E)}
    (h : Writes D ra doJoin (writes.map fun w => (k :: w.1, w.2)) t t')
    (hk : k = .anyIndex → ∀ i, (optionNodeTree D t).children.find? (.index i) = none) :
    Below D ra doJoin k writes (optionNodeTree D t) (optionNodeTree D t') := by
  induction writes generalizing t with
  | nil =>
    cases h
    exact ⟨L.refl _, fun _ => rfl, fun _ _ => rfl, .nil _⟩
  | cons w rest ih =>
    cases h with
    | @cons _ _ _ _ s _ hw hrest =>
      have hfirst := hw.belowLabel L S hk
      refine hfirst.append L S (ih hrest fun hany i => ?_)
      rw [hfirst.other _ (by rw [hany]; exact Label.noConfusion), hk hany]

/-! ## 4. What the writes of a class leave -/

/-- What is left of an element: all of it, or what some ancestors do not have. -/
def Reduced (D : Element E) (d e : E) : Prop := e = d ∨ ∃ a, e = D.subtract a d

/-- The write at the root, where nothing stands. -/
theorem Write.root (L : D.Lawful) (S : D.LawfulSink) {d : E} {t : Option (Tree E)}
    (h : Write D ra doJoin [] d none t) :
    (∀ l, (optionNodeTree D t).children.find? l = none) ∧
      D.lessOrEqual d (D.join ra (optionNodeTree D t).element) = true ∧
      (D.isBottom (optionNodeTree D t).element = false →
        Reduced D d (optionNodeTree D t).element) := by
  have hbottom : D.isBottom D.bottom = true := (L.isBottom_iff _).mpr (L.refl _)
  -- a leaf that is hung at the root, if there is anything in it
  have hleaf (e : E) : (∀ l, (optionNodeTree D (createTreeOption D [] (createLeaf e))).children.find?
      l = none) ∧ D.lessOrEqual e (optionNodeTree D (createTreeOption D [] (createLeaf e))).element =
        true ∧ (D.isBottom (optionNodeTree D (createTreeOption D [] (createLeaf e))).element = false →
          (optionNodeTree D (createTreeOption D [] (createLeaf e))).element = e) := by
    unfold createTreeOption
    split
    · rename_i hempty
      refine ⟨fun l => SortedMap.find?_empty l, ?_, fun h => ?_⟩
      · rw [isEmptyTree, isEmptyInfo, Bool.and_eq_true] at hempty
        exact (L.isBottom_iff e).mp hempty.2
      · rw [optionNodeTree, element_emptyTree, hbottom] at h
        cases h
    · exact ⟨fun l => SortedMap.find?_empty l, L.refl e, fun _ => rfl⟩
  cases h with
  | create =>
    obtain ⟨hchildren, hle, helement⟩ := hleaf d
    exact ⟨hchildren, L.trans hle (L.le_join_right _ _), fun h => Or.inl (helement h)⟩
  | @assign a _ ha hra =>
    obtain ⟨hd, -, -⟩ := filterByAncestors_spec L S ha hra d
    rw [optionNodeTree, assignOrJoinPath_empty (isEmptyTree_emptyTree L), pruneTree_createLeaf]
    obtain ⟨hnone, -, he⟩ | ⟨hsome, he⟩ := createNodeOption_cases D
      (filterByAncestors D a d).newElement (.empty : LabelMap E)
    · rw [hnone, Option.bind_none]
      refine ⟨fun l => SortedMap.find?_empty l, ?_, fun h => ?_⟩
      · exact L.trans hd (L.join_mono (L.refl ra) ((L.isBottom_iff _).mp he))
      · rw [optionNodeTree, element_emptyTree, hbottom] at h
        cases h
    · rw [hsome, Option.bind_some]
      obtain ⟨hchildren, hle, helement⟩ := hleaf (filterByAncestors D a d).newElement
      refine ⟨hchildren, L.trans hd (L.join_mono (L.refl ra) hle), fun h => Or.inr ⟨a, ?_⟩⟩
      refine (helement h).trans ?_
      unfold filterByAncestors at he ⊢
      dsimp only at he ⊢
      split
      · rename_i hcovered
        rw [if_pos hcovered] at he
        exact absurd ⟨rfl, hbottom⟩ he
      · rfl

theorem Writes.children (L : D.Lawful) (S : D.LawfulSink) {A : Type u}
    (writesOf : Label → A → List (List Label × E)) {bindings : List (Label × A)}
    {t t' : Option (Tree E)} (hsorted : bindings.Pairwise (·.1 < ·.1))
    (hfresh : ∀ binding ∈ bindings, (optionNodeTree D t).children.find? binding.1 = none ∧
      (binding.1 = .anyIndex → ∀ i, (optionNodeTree D t).children.find? (.index i) = none))
    (h : Writes D ra doJoin (bindings.flatMap fun binding =>
      (writesOf binding.1 binding.2).map fun w => (binding.1 :: w.1, w.2)) t t') :
    D.lessOrEqual (optionNodeTree D t).element (optionNodeTree D t').element = true ∧
      (D.isBottom (optionNodeTree D t').element = false →
        (optionNodeTree D t').element = (optionNodeTree D t).element) ∧
      (∀ l, (∀ binding ∈ bindings, binding.1 ≠ l) →
        (optionNodeTree D t').children.find? l = (optionNodeTree D t).children.find? l) ∧
      ∀ binding ∈ bindings, Writes D (D.transformOnSink (D.join ra (optionNodeTree D t').element))
        (doJoin || decide (binding.1 = .anyIndex)) (writesOf binding.1 binding.2) none
        ((optionNodeTree D t').children.find? binding.1) := by
  induction bindings generalizing t with
  | nil =>
    cases h
    exact ⟨L.refl _, fun _ => rfl, fun _ _ => rfl, fun _ h => (List.not_mem_nil h).elim⟩
  | cons binding rest ih =>
    rw [List.flatMap_cons] at h
    rw [List.pairwise_cons] at hsorted
    rw [List.forall_mem_cons] at hfresh
    obtain ⟨t₁, hfirst, hrest⟩ := h.append
    have hbelow := hfirst.belowLabel L S hfresh.1.2
    have hne (next : Label × A) (hnext : next ∈ rest) : next.1 ≠ binding.1 :=
      ne_of_gt (hsorted.1 next hnext)
    obtain ⟨hle, helement, hother, hchildren⟩ := ih hsorted.2 (fun next hnext => by
      refine ⟨(hbelow.other _ (hne next hnext)).trans (hfresh.2 next hnext).1, fun hany => ?_⟩
      have hlt := hsorted.1 next hnext
      rw [hany] at hlt
      exact absurd hlt (not_lt_of_ge (Label.anyIndex_le _))) hrest
    refine ⟨L.trans hbelow.le hle, fun hbottom => ?_, fun l hl => ?_, ?_⟩
    · have heq := helement hbottom
      rw [heq] at hbottom ⊢
      exact hbelow.element hbottom
    · rw [List.forall_mem_cons] at hl
      exact (hother l hl.2).trans (hbelow.other l (Ne.symm hl.1))
    · rw [List.forall_mem_cons]
      refine ⟨?_, hchildren⟩
      rw [hother binding.1 hne]
      have hchild := hbelow.child
      rw [hfresh.1.1] at hchild
      exact hchild.mono L (S.mono (L.join_mono (L.refl ra) hle))

/-- **What the writes of a class leave**: they lose nothing, and a node holds what the class took
    there, or that without some ancestors. By induction on the tree. -/
theorem writes_spec (L : D.Lawful) (S : D.LawfulSink) (t : Tree E)
    (pick : List Label → E → Option E) {ra : E} {doJoin : Bool} {t' : Option (Tree E)}
    (h : Writes D ra doJoin (pickedNodes D pick t) none t') :
    lessOrEqualTree D (picked D pick t) ra (optionNodeTree D t') = true ∧
      ∀ path s, subtreeAt (optionNodeTree D t') path = some s → D.isBottom s.element = false →
        ∃ s' d, subtreeAt t path = some s' ∧ D.isBottom s'.element = false ∧
          pick path s'.element = some d ∧ Reduced D d s.element := by
  induction t using Tree.induct generalizing pick ra doJoin t' with
  | node e c ih =>
    rw [pickedNodes_node] at h
    obtain ⟨t₀, hroot, hchildren⟩ := h.append
    -- the write at the root, if there is one
    obtain ⟨hnone, hle, helement⟩ : (∀ l, (optionNodeTree D t₀).children.find? l = none) ∧
        D.lessOrEqual (picked D pick (.node e c)).element
          (D.join ra (optionNodeTree D t₀).element) = true ∧
        (D.isBottom (optionNodeTree D t₀).element = false → D.isBottom e = false ∧
          ∃ d, pick [] e = some d ∧ Reduced D d (optionNodeTree D t₀).element) := by
      have hbottom : D.isBottom D.bottom = true := (L.isBottom_iff _).mpr (L.refl _)
      have hstay : D.isBottom (emptyTree D).element = false → False := fun h => by
        rw [element_emptyTree, hbottom] at h
        cases h
      rw [element_picked]
      by_cases he : D.isBottom e = true
      · rw [if_pos he] at hroot ⊢
        cases hroot
        exact ⟨fun l => SortedMap.find?_empty l, L.bottom_le _, fun h => (hstay h).elim⟩
      · rw [if_neg he] at hroot ⊢
        cases hpick : pick [] e with
        | none =>
          rw [hpick] at hroot
          cases hroot
          exact ⟨fun l => SortedMap.find?_empty l, L.bottom_le _, fun h => (hstay h).elim⟩
        | some d =>
          rw [hpick] at hroot
          cases hroot with
          | cons hw hrest =>
            cases hrest
            obtain ⟨hnone, hle, hreduced⟩ := hw.root L S
            exact ⟨hnone, hle, fun h => ⟨eq_false_of_ne_true he, d, rfl, hreduced h⟩⟩
    obtain ⟨hup, hsame, hother, hbelow⟩ := hchildren.children L S
      (fun k s => pickedNodes D (fun path => pick (k :: path)) s) (SortedMap.sorted_bindings c)
      fun binding _ => ⟨hnone _, fun _ _ => hnone _⟩
    have hchild (k : Label) (s : Tree E) (hk : c.find? k = some s) :=
      ih k s hk _ (hbelow (k, s) (SortedMap.mem_bindings.mpr hk))
    -- a child of the new node is one of the old node
    have hkeys (k : Label) (hk : c.find? k = none) :
        (optionNodeTree D t').children.find? k = none := by
      rw [hother k fun binding hbinding heq => ?_, hnone]
      rw [← heq, SortedMap.mem_bindings.mp hbinding] at hk
      cases hk
    constructor
    · rw [lessOrEqualTree_iff]
      refine ⟨L.trans hle (L.join_mono (L.refl ra) hup),
        (lessOrEqualChildren_iff_find? D _ _ _).mpr ⟨fun k l hl => ?_, fun i l r hi hr _ => ?_⟩⟩
      · rw [find?_picked] at hl
        obtain ⟨s, hs, rfl⟩ := Option.map_eq_some_iff.mp hl
        have hs' := (hchild k s hs).1
        cases hfind : (optionNodeTree D t').children.find? k with
        | some r =>
          rw [hfind] at hs'
          rw [lookupTree, lookup_of_find? hfind]
          exact hs'
        | none =>
          rw [hfind] at hs'
          exact lessOrEqualTree_empty L S hs' (L.refl _) _
      · rw [find?_picked, Option.map_eq_none_iff] at hi
        rw [hkeys _ hi] at hr
        cases hr
    · intro path s hs hbottom
      cases path with
      | nil =>
        obtain rfl := Option.some.inj hs
        have heq := hsame hbottom
        rw [heq] at hbottom ⊢
        obtain ⟨he, d, hpick, hreduced⟩ := helement hbottom
        exact ⟨.node e c, d, rfl, he, hpick, hreduced⟩
      | cons k rest =>
        rw [subtreeAt_cons] at hs
        obtain ⟨r, hr, hs⟩ := Option.bind_eq_some_iff.mp hs
        cases hk : c.find? k with
        | none =>
          rw [hkeys k hk] at hr
          cases hr
        | some s₀ =>
          have hs₀ := (hchild k s₀ hk).2
          rw [hr] at hs₀
          obtain ⟨s', d, hs', hrest⟩ := hs₀ rest s hs hbottom
          refine ⟨s', d, ?_, hrest⟩
          rw [subtreeAt_cons, children_node, hk]
          exact hs'

/-! ## 5. The classes of a partition -/

/-- A tree is covered when its classes are. -/
theorem le_of_picked (L : D.Lawful) {ι : Type*} (picks : ι → List Label → E → Option E)
    (hcover : ∀ path e x, (∀ i d, picks i path e = some d → D.lessOrEqual d x = true) →
      D.lessOrEqual e x = true) {t r : Tree E} {ra : E}
    (h : ∀ i, lessOrEqualTree D (picked D (picks i) t) ra r = true) :
    lessOrEqualTree D t ra r = true := by
  induction t using Tree.induct generalizing picks r ra with
  | node e c ih =>
    simp only [lessOrEqualTree_iff, element_picked] at h ⊢
    refine ⟨?_, (lessOrEqualChildren_iff_find? D _ _ _).mpr ⟨fun k s hk => ?_,
      fun i s r' hi hr hs => ?_⟩⟩
    · by_cases he : D.isBottom e = true
      · exact L.trans ((L.isBottom_iff e).mp he) (L.bottom_le _)
      · refine hcover [] e _ fun i d hd => ?_
        have hle := (h i).1
        rw [if_neg he, hd] at hle
        exact hle
    · refine ih k s hk (fun i path => picks i (k :: path))
        (fun path e x => hcover (k :: path) e x) fun i => ?_
      refine ((lessOrEqualChildren_iff_find? D _ _ _).mp (h i).2).1 k _ ?_
      rw [find?_picked, ← children_node e c, hk]
      rfl
    · refine ih .anyIndex s hs (fun j path => picks j (.anyIndex :: path))
        (fun path e x => hcover (.anyIndex :: path) e x) fun j => ?_
      refine ((lessOrEqualChildren_iff_find? D _ _ _).mp (h j).2).2 i _ r' ?_ hr ?_
      · rw [find?_picked, ← children_node e c, hi]
        rfl
      · rw [find?_picked, ← children_node e c, hs]
        rfl

section Classes

variable [DecidableEq K]

variable (D) in
/-- The tree of the writes to a class. -/
def classTree (writes : List (List Label × E)) (existing : Option (Tree E)) : Option (Tree E) :=
  writes.foldl (fun existing w => some (updatePartition D w.1 w.2 existing)) existing

/-- The elements of a node are distributed to their classes. -/
theorem lookup_distribute (path : List Label) (classes : AssocMap K E)
    (result : AssocMap K (Tree E)) (key : K) :
    (classes.entries.foldl (fun map entry =>
      map.update entry.1 (updatePartition D path entry.2)) result).lookup key =
      classTree D ((classes.lookup key).toList.map fun d => (path, d)) (result.lookup key) := by
  have hlist (entries : List (Sigma fun _ : K => E)) (hnodup : entries.NodupKeys)
      (result : AssocMap K (Tree E)) :
      (entries.foldl (fun map entry =>
        AssocMap.update entry.1 (updatePartition D path entry.2) map) result).lookup key =
        classTree D ((entries.dlookup key).toList.map fun d => (path, d)) (result.lookup key) := by
    induction entries generalizing result with
    | nil => rfl
    | cons entry rest ih =>
      obtain ⟨hfresh, hrest⟩ := List.nodupKeys_cons.mp hnodup
      rw [List.foldl_cons, ih hrest, AssocMap.lookup_update]
      by_cases hkey : key = entry.1
      · subst hkey
        rw [List.dlookup_eq_none.mpr hfresh, List.dlookup_cons_eq, if_pos rfl]
        rfl
      · rw [if_neg hkey, List.dlookup_cons_ne _ _ hkey]
  exact hlist classes.entries classes.nodupKeys result

/-- The class of a key is the tree of what its nodes gave to it. -/
theorem lookup_foldl_distribute (classes : PathWithAncestors E → AssocMap K E)
    (visited : List (PathWithAncestors E)) (result : AssocMap K (Tree E)) (key : K) :
    (visited.foldl (fun result n => (classes n).entries.foldl (fun map entry =>
      map.update entry.1 (updatePartition D n.path entry.2)) result) result).lookup key =
      classTree D (visited.filterMap fun n => ((classes n).lookup key).map (n.path, ·))
        (result.lookup key) := by
  induction visited generalizing result with
  | nil => rfl
  | cons n rest ih =>
    rw [List.foldl_cons, ih, lookup_distribute, List.filterMap_cons]
    cases (classes n).lookup key <;> rfl

/-- The writes to a class, as a run. -/
theorem writes_classTree (L : D.Lawful) (writes : List (List Label × E)) :
    ∃ t, Writes D D.bottom false writes none t ∧
      ((classTree D writes none = none ∧ t = none) ∨
        classTree D writes none = some (optionNodeTree D t)) := by
  have hrun (writes : List (List Label × E)) (t : Option (Tree E)) (existing : Option (Tree E))
      (h : (existing = none ∧ t = none) ∨ existing = some (optionNodeTree D t)) :
      ∃ t', Writes D D.bottom false writes t t' ∧
        ((classTree D writes existing = none ∧ t' = none) ∨
          classTree D writes existing = some (optionNodeTree D t')) := by
    induction writes generalizing t existing with
    | nil => exact ⟨t, .nil t, h⟩
    | cons w rest ih =>
      rcases h with ⟨rfl, rfl⟩ | rfl
      · obtain ⟨t', hrest, hclass⟩ := ih _
          (some (updatePartition D w.1 w.2 none)) (Or.inr rfl)
        exact ⟨t', .cons .create hrest, hclass⟩
      · obtain ⟨t', hrest, hclass⟩ := ih _
          (some (updatePartition D w.1 w.2 (some (optionNodeTree D t)))) (Or.inr rfl)
        exact ⟨t', .cons (.assign (sinkClosed_bottom L) (L.refl _)) hrest, hclass⟩
  exact hrun writes none none (Or.inl ⟨rfl, rfl⟩)

/-- A partition `By`, by the part that its function reads. -/
inductive PartitionOperation (E K P : Type u) where
  | path (f : List Label × E → K)
  | pathWithAncestors (f : PathWithAncestors E → K)
  | element (f : P → K)

variable (D) in
def PartitionOperation.run (Q : ElementPart E K P) :
    PartitionOperation E K P → Tree E → AssocMap K (Tree E)
  | .path f => partitionPath D f
  | .pathWithAncestors f => partitionPathWithAncestors D f
  | .element f => partitionElement D Q f

variable (D) in
/-- What of an element that stands at a path is filed under a key. -/
def PartitionOperation.filed (Q : ElementPart E K P) (t : Tree E) (key : K) :
    PartitionOperation E K P → List Label → E → Option E
  | .path f, p, e => if f (p, e) = key then some e else none
  | .pathWithAncestors f, p, e => if f ⟨p, ancestorsAt D true t p, e⟩ = key then some e else none
  | .element f, _, e => (Q.partition f e).lookup key

/-- The class of a key holds what is filed under it, node by node. -/
theorem PartitionOperation.lookup_run (Q : ElementPart E K P) (op : PartitionOperation E K P)
    (t : Tree E) (key : K) :
    (op.run D Q t).lookup key = classTree D (pickedNodes D (op.filed D Q t key) t) none := by
  have hsingle (classOf : PathWithAncestors E → K) (visited : List (PathWithAncestors E)) :
      (visited.foldl (fun result n =>
        AssocMap.update (classOf n) (updatePartition D n.path n.element) result) ∅).lookup key =
        classTree D (visited.filterMap fun n =>
          (if classOf n = key then some n.element else none).map (n.path, ·)) none := by
    refine (lookup_foldl_distribute (fun n => AList.singleton (classOf n) n.element) visited ∅
      key).trans (congrArg (classTree D · none) (List.filterMap_congr fun n _ => ?_))
    rw [AssocMap.lookup_singleton]
    by_cases hkey : classOf n = key
    · rw [if_pos hkey, if_pos hkey.symm]
    · rw [if_neg hkey, if_neg (Ne.symm hkey)]
  cases op with
  | path f =>
    rw [run, partitionPath, foldTreePaths_eq]
    exact hsingle (fun n => f (n.path, n.element)) _
  | pathWithAncestors f =>
    rw [run, partitionPathWithAncestors, foldTreePaths_eq]
    refine (hsingle f _).trans (congrArg (classTree D · none) ?_)
    rw [pickedNodes, nodes_false_eq, List.filterMap_map]
    refine List.filterMap_congr fun n hn => ?_
    obtain ⟨_, -, -, -, hancestors⟩ := (mem_nodes D true t n).mp hn
    simp only [Function.comp_apply, filed, ← hancestors]
  | element f =>
    rw [run, partitionElement, foldTreePaths_eq]
    exact lookup_foldl_distribute (fun n => Q.partition f n.element) _ ∅ key

/-- What is filed under the keys covers the element. -/
theorem PartitionOperation.le_of_filed {Q : ElementPart E K P} (hQ : Q.Lawful D)
    (op : PartitionOperation E K P) (t : Tree E) (path : List Label) (e x : E)
    (h : ∀ key d, op.filed D Q t key path e = some d → D.lessOrEqual d x = true) :
    D.lessOrEqual e x = true := by
  cases op with
  | path f => exact h _ e (if_pos rfl)
  | pathWithAncestors f => exact h _ e (if_pos rfl)
  | element f => exact hQ.le_of_classes h

end Classes

/-- A tree of a list is below the join of the list. -/
theorem le_foldl_join (L : D.Lawful) (S : D.LawfulSink) (phys : PhysEq (Tree E))
    {trees : List (Tree E)} {t acc : Tree E} (h : t ∈ trees ∨ lessOrEqual D t acc = true) :
    lessOrEqual D t (trees.foldl (join D phys) acc) = true := by
  induction trees generalizing acc with
  | nil => exact h.resolve_left List.not_mem_nil
  | cons first rest ih =>
    obtain ⟨hacc, hfirst⟩ := join_upper_bound L S phys acc first
    rw [List.foldl_cons]
    refine ih ?_
    rcases h with h | h
    · rcases List.mem_cons.mp h with rfl | h
      · exact Or.inr hfirst
      · exact Or.inl h
    · exact Or.inr (lessOrEqualTree_trans L S h hacc (L.refl _))

/-- **Partitioning a tree loses nothing.** The tree is below the join of its classes, in any order;
    what a class holds at a path is what was filed under its key there, or that without some
    ancestors; and where removing ancestors adds no parts, the parts of a class have its key. -/
theorem partition_sound [DecidableEq K] (L : D.Lawful) (S : D.LawfulSink) (phys : PhysEq (Tree E))
    {Q : ElementPart E K P} (hQ : Q.Lawful D) (op : PartitionOperation E K P) (t : Tree E) :
    (∀ trees : List (Tree E), trees.Perm ((op.run D Q t).entries.map (·.2)) →
      lessOrEqual D t (trees.foldl (join D phys) (emptyTree D)) = true) ∧
    (∀ key cls, (op.run D Q t).lookup key = some cls → ∀ path s, subtreeAt cls path = some s →
      D.isBottom s.element = false → ∃ s' d, subtreeAt t path = some s' ∧
        D.isBottom s'.element = false ∧ op.filed D Q t key path s'.element = some d ∧
          Reduced D d s.element) ∧
    ∀ f, op = .element f → (∀ a e part, Q.IsPart part (D.subtract a e) → Q.IsPart part e) →
      ∀ key cls, (op.run D Q t).lookup key = some cls → ∀ path s, subtreeAt cls path = some s →
        D.isBottom s.element = false → ∀ part, Q.IsPart part s.element → f part = key := by
  have hspec (key : K) : ∃ t', (((op.run D Q t).lookup key = none ∧ t' = none) ∨
      (op.run D Q t).lookup key = some (optionNodeTree D t')) ∧
      lessOrEqualTree D (picked D (op.filed D Q t key) t) D.bottom (optionNodeTree D t') = true ∧
      ∀ path s, subtreeAt (optionNodeTree D t') path = some s → D.isBottom s.element = false →
        ∃ s' d, subtreeAt t path = some s' ∧ D.isBottom s'.element = false ∧
          op.filed D Q t key path s'.element = some d ∧ Reduced D d s.element := by
    obtain ⟨t', hwrites, hclass⟩ := writes_classTree L (pickedNodes D (op.filed D Q t key) t)
    rw [← op.lookup_run] at hclass
    exact ⟨t', hclass, writes_spec L S t (op.filed D Q t key) hwrites⟩
  have hfiled : ∀ key cls, (op.run D Q t).lookup key = some cls → ∀ path s,
      subtreeAt cls path = some s → D.isBottom s.element = false → ∃ s' d,
        subtreeAt t path = some s' ∧ D.isBottom s'.element = false ∧
          op.filed D Q t key path s'.element = some d ∧ Reduced D d s.element := by
    intro key cls hcls path s hs hbottom
    obtain ⟨t', ⟨hnone, -⟩ | hsome, -, hnodes⟩ := hspec key
    · rw [hnone] at hcls
      cases hcls
    · obtain rfl := Option.some.inj (hcls.symm.trans hsome)
      exact hnodes path s hs hbottom
  refine ⟨fun trees hperm => ?_, hfiled, fun f hf hsubtract key cls hcls path s hs hbottom part
    hpart => ?_⟩
  · refine le_of_picked L (fun key => op.filed D Q t key)
      (fun path e x h => op.le_of_filed hQ t path e x h) fun key => ?_
    obtain ⟨t', hclass, hpicked, -⟩ := hspec key
    refine lessOrEqualTree_trans L S hpicked ?_ (L.refl _)
    rcases hclass with ⟨-, rfl⟩ | hsome
    · exact lessOrEqual_of_isBottom L (isEmptyTree_emptyTree L) _
    · refine le_foldl_join L S phys (Or.inl (hperm.mem_iff.mpr ?_))
      exact List.mem_map.mpr ⟨_, AList.mem_lookup_iff.mp hsome, rfl⟩
  · obtain ⟨s', d, -, -, hd, hreduced⟩ := hfiled key cls hcls path s hs hbottom
    subst hf
    refine hQ.key hd ?_
    rcases hreduced with heq | ⟨a, heq⟩
    · exact heq ▸ hpart
    · exact hsubtract a d part (heq ▸ hpart)

/-! ## 6. Sets and maps as elements -/

/-- A domain as the element of a tree, with no transformation on the way. -/
def AbstractDomain.toElement {T : Type u} (A : AbstractDomain T) : Element T where
  bottom := A.bottom
  isBottom := A.isBottom
  join := A.join
  widen := A.widen
  lessOrEqual := A.lessOrEqual
  subtract := A.subtract
  transformOnWideningCollapse := id
  transformOnSink := id
  transformOnHoist := id

theorem AbstractDomain.Lawful.toElement {T : Type u} {A : AbstractDomain T} (h : A.Lawful) :
    A.toElement.Lawful where
  refl := h.refl
  trans := h.trans
  bottom_le := h.bottom_le
  isBottom_iff := h.isBottom_iff
  le_join_left := h.le_join_left
  le_join_right := h.le_join_right
  join_le := h.join_le
  subtract_le a b := h.subtract_le b a
  le_subtract_join a b := h.le_join_subtract b a

theorem AbstractDomain.Lawful.toElementSink {T : Type u} {A : AbstractDomain T} (h : A.Lawful) :
    A.toElement.LawfulSink where
  mono := id
  reductive := h.refl
  idempotent := h.refl
  join _ _ := h.refl _

/-- The members of a set. -/
def setPart {α κ : Type u} [LinearOrder α] [DecidableEq κ] : ElementPart (SortedSet α) κ α where
  partition := SetDomain.partition
  IsPart x set := x ∈ set

theorem setPart_lawful {α κ : Type u} [LinearOrder α] [DecidableEq κ]
    (phys : PhysEq (SortedSet α)) :
    (setPart : ElementPart (SortedSet α) κ α).Lawful (SetDomain.domain phys).toElement where
  le_of_classes {f e x} h := by
    refine SetDomain.lessOrEqual_iff.mpr fun y hy => ?_
    have hmem : y ∈ ((SetDomain.partition f e).lookup (f y)).getD .empty :=
      SetDomain.mem_partition.mpr ⟨hy, rfl⟩
    cases hcls : (SetDomain.partition f e).lookup (f y) with
    | none =>
      rw [hcls] at hmem
      exact absurd hmem (SortedSet.notMem_empty y)
    | some cls =>
      rw [hcls] at hmem
      exact SetDomain.lessOrEqual_iff.mp (h _ cls hcls) y hmem
  key {f e key cls part} hcls hpart := by
    have hmem : part ∈ ((SetDomain.partition f e).lookup key).getD .empty := by
      rw [show (SetDomain.partition f e).lookup key = some cls from hcls]
      exact hpart
    exact (SetDomain.mem_partition.mp hmem).2

/-- A set-valued tree, by the parity of its members. -/
theorem partition_sound_parity :
    let D := (SetDomain.domain (.never (SortedSet ℕ))).toElement
    let t : Tree (SortedSet ℕ) := .node (.singleton 1)
      (.singleton (.field "f") (createLeaf (.ofList [1, 2])))
    ∀ key cls, (partitionElement D setPart (· % 2) t).lookup key = some cls →
      ∀ path s, subtreeAt cls path = some s → D.isBottom s.element = false →
        ∀ part ∈ s.element, part % 2 = key :=
  (partition_sound (SetDomain.lawful (.never _)).toElement (SetDomain.lawful (.never _)).toElementSink
    (.never _) (setPart_lawful (.never _)) (.element (· % 2)) _).2.2 (· % 2) rfl
    fun _ _ _ hpart => (SetDomain.mem_subtract.mp hpart).1

/-- The keys of a map with their values; `KeyValue, By` of the map domain. -/
def keyValuePart {α V κ : Type u} [LinearOrder α] [DecidableEq κ] (A : AbstractDomain V)
    (strict : Bool) : ElementPart (SortedMap α V) κ (α × V) where
  partition f map := map.fold (fun key data result =>
    AssocMap.update (f (key, data)) (MapDomain.updatePartition A strict (key, data)) result) ∅
  IsPart part map := part ∈ map.bindings

/-- The root has the value 1 and so takes it out of its child: the child is filed under the key of
    what it was, in a partition by paths and in one by the parts of a map. -/
theorem partition_reduces :
    (let D := plainSet (id : Finset ℕ → Finset ℕ)
      let t : Tree (Finset ℕ) := .node {1} (.singleton (.field "f") (createLeaf {1, 2}))
      let f := fun part : List Label × Finset ℕ => decide (1 ∈ part.2)
      ∃ cls s, (partitionPath D f t).lookup true = some cls ∧
        subtreeAt cls [.field "f"] = some s ∧ D.isBottom s.element = false ∧
          f ([.field "f"], s.element) = false) ∧
    (let A := SetDomain.domain (.never (SortedSet ℕ))
      let D := (MapDomain.domain A true (.never (SortedMap ℕ (SortedSet ℕ))) (.never _)).toElement
      let t : Tree (SortedMap ℕ (SortedSet ℕ)) := .node (.singleton 0 (.singleton 1))
        (.singleton (.field "f") (createLeaf (.singleton 0 (.ofList [1, 2]))))
      let f := fun part : ℕ × SortedSet ℕ => part.2.any (· == 1)
      ∃ cls s part, (partitionElement D (keyValuePart A true) f t).lookup true = some cls ∧
        subtreeAt cls [.field "f"] = some s ∧ (keyValuePart A true : ElementPart _ Bool _).IsPart part s.element ∧
          f part = false) := by
  constructor
  · intro D t f
    have h : (((partitionPath D f t).lookup true).bind fun cls =>
        subtreeAt cls [.field "f"]).map Tree.element = some {2} := by decide +kernel
    obtain ⟨s, hs, helement⟩ := Option.map_eq_some_iff.mp h
    obtain ⟨cls, hcls, hs⟩ := Option.bind_eq_some_iff.mp hs
    refine ⟨cls, s, hcls, hs, ?_⟩
    rw [helement]
    decide
  · intro A D t f
    have h : (((partitionElement D (keyValuePart A true) f t).lookup true).bind fun cls =>
        subtreeAt cls [.field "f"]).map (fun s => s.element.bindings.map f) = some [false] := by
      decide +kernel
    obtain ⟨s, hs, hparts⟩ := Option.map_eq_some_iff.mp h
    obtain ⟨cls, hcls, hs⟩ := Option.bind_eq_some_iff.mp hs
    obtain ⟨part, hpart, hf⟩ := List.mem_map.mp (hparts ▸ List.mem_singleton_self false)
    exact ⟨cls, s, part, hcls, hs, hpart, hf⟩

end Pysa
