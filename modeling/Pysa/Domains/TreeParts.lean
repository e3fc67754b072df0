/-
  Subject: THE PART `PathWithAncestors` (`abstractTreeDomain.ml`, `transform`, `reduce` and
    `partition` of the domain).

  A callback may have effects, so it reads and writes a state; with a log as the state, the
  arguments that it was handed are the result.

  * `transformMap` to `partitionContext` -- the operations, directly on the part and with it as the
    context of an operation on the element domain;
  * `PathOperation.handed` -- what an operation hands to its callback;
  * `OnePerNode` -- each node with an element once, with the ancestors that stand above it;
  * `handed_onePerNode_iff` -- **which operations hand this out, and when**.
-/
import Pysa.Domains.SetElement
import Pysa.Domains.TreePaths
import Pysa.Lib.AssocMap

namespace Pysa

open Pysa.Tree

universe u

variable {E : Type u} (D : Element E) {F B K S : Type u}

/-! ## 1. The operations -/

section Operations

/-- `filter_map_tree_paths`, with a callback that has effects. -/
def filterMapTreePathsWithEffects (f : PathWithAncestors E → S → (List Label × E) × S)
    (tree : Tree E) (state : S) : Tree E × S :=
  foldTreePaths D true (emptyTree D, state) (fun path ancestors element accumulator =>
    let result := f ⟨path, ancestors, element⟩ accumulator.2
    (if D.isBottom result.1.2 then accumulator.1
      else assignTreePath D accumulator.1 result.1.1 (createLeaf result.1.2), result.2)) tree

def transformMap (f : PathWithAncestors E → S → PathWithAncestors E × S) (tree : Tree E) (state : S) :
    Tree E × S :=
  filterMapTreePathsWithEffects D (fun node state =>
    let result := f node state
    ((result.1.path, result.1.element), result.2)) tree state

def transformFilter (f : PathWithAncestors E → S → Bool × S) (tree : Tree E) (state : S) :
    Tree E × S :=
  filterMapTreePathsWithEffects D (fun node state =>
    let result := f node state
    ((node.path, if result.1 then node.element else D.bottom), result.2)) tree state

def transformFilterMap (f : PathWithAncestors E → S → Option (PathWithAncestors E) × S)
    (tree : Tree E) (state : S) : Tree E × S :=
  filterMapTreePathsWithEffects D (fun node state =>
    let result := f node state
    (match result.1 with
      | some node => (node.path, node.element)
      | none => (node.path, D.bottom), result.2)) tree state

/-- `Context (PathWithAncestors, op)`; `elementTransform` is `op` on the element domain. -/
def transformContext (elementTransform : F → E → E) (f : PathWithAncestors E → S → F × S)
    (tree : Tree E) (state : S) : Tree E × S :=
  filterMapTreePathsWithEffects D (fun node state =>
    let result := f node state
    ((node.path, elementTransform result.1 node.element), result.2)) tree state

def reduceAcc (f : PathWithAncestors E → B → S → B × S) (init : B) (tree : Tree E) (state : S) :
    B × S :=
  foldTreePaths D true (init, state) (fun path ancestors element accumulator =>
    f ⟨path, ancestors, element⟩ accumulator.1 accumulator.2) tree

/-- Once the answer is true, the callback is not asked again. -/
def reduceExists (f : PathWithAncestors E → S → Bool × S) (init : Bool) (tree : Tree E)
    (state : S) : Bool × S :=
  if init then (init, state)
  else
    foldTreePaths D true (init, state) (fun path ancestors element accumulator =>
      if accumulator.1 then accumulator else f ⟨path, ancestors, element⟩ accumulator.2) tree

def reduceContext (elementReduce : F → B → E → B) (f : PathWithAncestors E → S → F × S) (init : B)
    (tree : Tree E) (state : S) : B × S :=
  foldTreePaths D true (init, state) (fun path ancestors element accumulator =>
    let result := f ⟨path, ancestors, element⟩ accumulator.2
    (elementReduce result.1 accumulator.1 element, result.2)) tree

/-- `update` of `partition`: the element at its path in the tree of its key. -/
def updatePartition (path : List Label) (element : E) (existing : Option (Tree E)) : Tree E :=
  let leaf := createLeaf element
  match existing with
  | none => createTree D path leaf
  | some tree => assignTreePath D tree path leaf

variable [DecidableEq K]

def partitionBy (f : PathWithAncestors E → S → K × S) (tree : Tree E) (state : S) :
    AssocMap K (Tree E) × S :=
  foldTreePaths D true (∅, state) (fun path ancestors element accumulator =>
    let result := f ⟨path, ancestors, element⟩ accumulator.2
    (accumulator.1.update result.1 (updatePartition D path element), result.2)) tree

def partitionByFilter (f : PathWithAncestors E → S → Option K × S) (tree : Tree E) (state : S) :
    AssocMap K (Tree E) × S :=
  foldTreePaths D true (∅, state) (fun path ancestors element accumulator =>
    let result := f ⟨path, ancestors, element⟩ accumulator.2
    (match result.1 with
      | none => accumulator.1
      | some key => accumulator.1.update key (updatePartition D path element), result.2)) tree

/-- `Context (PathWithAncestors, op)` of `partition`, whose traversal is without ancestors. -/
def partitionContext (elementPartition : F → E → AssocMap K E)
    (f : PathWithAncestors E → S → F × S) (tree : Tree E) (state : S) : AssocMap K (Tree E) × S :=
  foldTreePaths D false (∅, state) (fun path ancestors element accumulator =>
    let result := f ⟨path, ancestors, element⟩ accumulator.2
    ((elementPartition result.1 element).entries.foldl (fun map entry =>
      map.update entry.1 (updatePartition D path entry.2)) accumulator.1, result.2)) tree

end Operations

/-! ## 2. What is handed to the callback -/

/-- The operations that read the part, with the answers of their callback. -/
inductive PathOperation (E F B K : Type u) where
  | transformMap (answer : PathWithAncestors E → PathWithAncestors E)
  | transformFilter (answer : PathWithAncestors E → Bool)
  | transformFilterMap (answer : PathWithAncestors E → Option (PathWithAncestors E))
  | transformContext (elementTransform : F → E → E) (answer : PathWithAncestors E → F)
  | reduceAcc (answer : PathWithAncestors E → B → B) (init : B)
  | reduceExists (answer : PathWithAncestors E → Bool) (init : Bool)
  | reduceContext (elementReduce : F → B → E → B) (answer : PathWithAncestors E → F) (init : B)
  | partitionBy (answer : PathWithAncestors E → K)
  | partitionByFilter (answer : PathWithAncestors E → Option K)
  | partitionContext (elementPartition : F → E → AssocMap K E) (answer : PathWithAncestors E → F)

/-- A callback that logs what it is handed. -/
def logged {A : Type u} (answer : PathWithAncestors E → A) (node : PathWithAncestors E)
    (log : List (PathWithAncestors E)) : A × List (PathWithAncestors E) :=
  (answer node, log ++ [node])

def PathOperation.handed [DecidableEq K] (tree : Tree E) :
    PathOperation E F B K → List (PathWithAncestors E)
  | transformMap answer => (Pysa.transformMap D (logged answer) tree []).2
  | transformFilter answer =>
    (Pysa.transformFilter D (fun node log => (answer node, log ++ [node])) tree []).2
  | transformFilterMap answer => (Pysa.transformFilterMap D (logged answer) tree []).2
  | transformContext elementTransform answer =>
    (Pysa.transformContext D elementTransform (logged answer) tree []).2
  | reduceAcc answer init =>
    (Pysa.reduceAcc D (fun node accumulator log => (answer node accumulator, log ++ [node])) init
      tree []).2
  | reduceExists answer init =>
    (Pysa.reduceExists D (fun node log => (answer node, log ++ [node])) init tree []).2
  | reduceContext elementReduce answer init =>
    (Pysa.reduceContext D elementReduce (logged answer) init tree []).2
  | partitionBy answer => (Pysa.partitionBy D (logged answer) tree []).2
  | partitionByFilter answer => (Pysa.partitionByFilter D (logged answer) tree []).2
  | partitionContext elementPartition answer =>
    (Pysa.partitionContext D elementPartition (logged answer) tree []).2

/-- Each node with an element once, with the ancestors that stand above it. -/
structure OnePerNode (tree : Tree E) (handed : List (PathWithAncestors E)) : Prop where
  once : (handed.map (·.path)).Nodup
  mem_iff : ∀ n, n ∈ handed ↔ ∃ s, subtreeAt tree n.path = some s ∧
    D.isBottom s.element = false ∧ n.element = s.element ∧
      n.ancestors = ancestorsAt D true tree n.path

theorem onePerNode_nodes (tree : Tree E) : OnePerNode D tree (nodes D true tree) :=
  ⟨nodup_nodes D true tree, mem_nodes D true tree⟩

theorem onePerNode_of_eq {tree : Tree E} {handed : List (PathWithAncestors E)}
    (h : handed = nodes D true tree) : OnePerNode D tree handed := by
  rw [h]
  exact onePerNode_nodes D tree

/-! ## 3. The logs -/

/-- A traversal that logs each node logs the list of nodes. -/
theorem log_foldTreePaths {A : Type u} (withAncestors : Bool)
    {f : List Label → E → E → A × List (PathWithAncestors E) → A × List (PathWithAncestors E)}
    (hf : ∀ path ancestors element accumulator, (f path ancestors element accumulator).2 =
      accumulator.2 ++ [⟨path, ancestors, element⟩])
    (init : A × List (PathWithAncestors E)) (tree : Tree E) :
    (foldTreePaths D withAncestors init f tree).2 = init.2 ++ nodes D withAncestors tree := by
  rw [foldTreePaths_eq]
  generalize nodes D withAncestors tree = visited
  induction visited generalizing init with
  | nil => exact (List.append_nil init.2).symm
  | cons first rest ih =>
    rw [List.foldl_cons, ih, hf, List.append_assoc]
    rfl

/-- The nodes up to the first one that is accepted. -/
def untilAccepted {A : Type u} (answer : A → Bool) : List A → List A
  | [] => []
  | first :: rest => if answer first then [first] else first :: untilAccepted answer rest

theorem untilAccepted_initial {A : Type u} (answer : A → Bool) (visited : List A) :
    untilAccepted answer visited <+: visited := by
  induction visited with
  | nil => exact List.prefix_refl _
  | cons first rest ih =>
    rw [untilAccepted]
    split
    · exact ⟨rest, rfl⟩
    · exact (List.prefix_cons_inj first).mpr ih

theorem untilAccepted_eq_self_iff {A : Type u} (answer : A → Bool) (visited : List A) :
    untilAccepted answer visited = visited ↔ ∀ node ∈ visited.dropLast, answer node = false := by
  induction visited with
  | nil => simp [untilAccepted]
  | cons first rest ih =>
    cases rest with
    | nil => simp [untilAccepted]
    | cons next rest =>
      rw [untilAccepted, List.dropLast_cons_cons, List.forall_mem_cons, ← ih]
      cases answer first with
      | true => simp
      | false => simp

theorem log_reduceExists (answer : PathWithAncestors E → Bool) (init : Bool) (tree : Tree E) :
    (reduceExists D (fun node log => (answer node, log ++ [node])) init tree []).2 =
      if init then [] else untilAccepted answer (nodes D true tree) := by
  unfold reduceExists
  cases init with
  | true => rfl
  | false =>
    rw [if_neg Bool.false_ne_true, if_neg Bool.false_ne_true, foldTreePaths_eq]
    have hdone : ∀ (visited log : List (PathWithAncestors E)),
        visited.foldl (fun accumulator n => if accumulator.1 then accumulator
          else (answer ⟨n.path, n.ancestors, n.element⟩,
            accumulator.2 ++ [⟨n.path, n.ancestors, n.element⟩])) (true, log) = (true, log) := by
      intro visited log
      induction visited with
      | nil => rfl
      | cons first rest ih => exact ih
    have hlog : ∀ (visited log : List (PathWithAncestors E)),
        (visited.foldl (fun accumulator n => if accumulator.1 then accumulator
          else (answer ⟨n.path, n.ancestors, n.element⟩,
            accumulator.2 ++ [⟨n.path, n.ancestors, n.element⟩])) (false, log)).2 =
          log ++ untilAccepted answer visited := by
      intro visited
      induction visited with
      | nil => exact fun log => (List.append_nil log).symm
      | cons first rest ih =>
        intro log
        rw [List.foldl_cons, if_neg Bool.false_ne_true, untilAccepted]
        cases hanswer : answer first with
        | true => rw [hdone, if_pos rfl]
        | false =>
          rw [ih, if_neg Bool.false_ne_true, List.append_assoc]
          rfl
    exact hlog (nodes D true tree) []

/-- Without ancestors the traversal visits the same nodes, with the ancestors it started from. -/
theorem nodesFrom_false (t : Tree E) (start ancestors : E) (path : List Label) :
    nodesFrom D false start path t =
      (nodesFrom D true ancestors path t).map fun n => { n with ancestors := start } := by
  induction t using Tree.induct generalizing ancestors path with
  | node e c ih =>
    rw [nodesFrom_eq, nodesFrom_eq, List.map_append, List.map_flatMap, element_node, children_node]
    congr 1
    · split <;> rfl
    · refine List.flatMap_congr fun binding hbinding => ?_
      exact ih binding.1 binding.2 (SortedMap.mem_bindings.mp hbinding) _ _

/-! ## 4. Which operations hand out each node with its ancestors -/

/-- When an operation hands out each node with its ancestors: always, except that `Exists` stops at
    the first accepted node, and that the context of `partition` is without ancestors. -/
def PathOperation.Complete (tree : Tree E) : PathOperation E F B K → Prop
  | reduceExists answer init => nodes D true tree = [] ∨
    init = false ∧ ∀ node ∈ (nodes D true tree).dropLast, answer node = false
  | partitionContext _ _ => ∀ path s, subtreeAt tree path = some s →
    D.isBottom s.element = false → ancestorsAt D true tree path = D.bottom
  | _ => True

theorem perm_nodes_of_onePerNode {tree : Tree E} {handed : List (PathWithAncestors E)}
    (h : OnePerNode D tree handed) : handed.Perm (nodes D true tree) := by
  refine (List.perm_ext_iff_of_nodup h.once.of_map (nodup_nodes D true tree).of_map).mpr ?_
  intro n
  rw [h.mem_iff, mem_nodes]

theorem nodes_false_eq (tree : Tree E) :
    nodes D false tree = (nodes D true tree).map fun n => { n with ancestors := D.bottom } :=
  nodesFrom_false D tree D.bottom D.bottom []

theorem bottom_of_perm_nodes_false {tree : Tree E}
    (h : (nodes D false tree).Perm (nodes D true tree)) {path : List Label} {s : Tree E}
    (hs : subtreeAt tree path = some s) (hbottom : D.isBottom s.element = false) :
    ancestorsAt D true tree path = D.bottom := by
  have hmem : ⟨path, ancestorsAt D true tree path, s.element⟩ ∈ nodes D true tree :=
    (mem_nodes D true tree _).mpr ⟨s, hs, hbottom, rfl, rfl⟩
  rw [← h.mem_iff, nodes_false_eq] at hmem
  obtain ⟨n, -, hn⟩ := List.mem_map.mp hmem
  rw [PathWithAncestors.mk.injEq] at hn
  exact hn.2.1.symm

theorem nodes_false_of_bottom {tree : Tree E} (h : ∀ path s, subtreeAt tree path = some s →
    D.isBottom s.element = false → ancestorsAt D true tree path = D.bottom) :
    nodes D false tree = nodes D true tree := by
  rw [nodes_false_eq]
  refine (List.map_congr_left fun n hn => ?_).trans (List.map_id _)
  obtain ⟨s, hs, hbottom, -, hancestors⟩ := (mem_nodes D true tree n).mp hn
  rw [id, ← h n.path s hs hbottom, ← hancestors]

theorem complete_of_perm {answer : PathWithAncestors E → Bool} {init : Bool}
    {visited : List (PathWithAncestors E)}
    (h : (if init then [] else untilAccepted answer visited).Perm visited) :
    visited = [] ∨ init = false ∧ ∀ node ∈ visited.dropLast, answer node = false := by
  cases init with
  | true => exact Or.inl h.nil_eq.symm
  | false =>
    right
    rw [if_neg Bool.false_ne_true] at h
    exact ⟨rfl, (untilAccepted_eq_self_iff answer visited).mp
      ((untilAccepted_initial answer visited).eq_of_length h.length_eq)⟩

variable [DecidableEq K]

/-- **An operation hands out each node with an element once, with its strict ancestors, exactly
    when** it is none of the two exceptions or these make no difference; and all these operations
    hand out the same list. -/
theorem handed_onePerNode_iff (op : PathOperation E F B K) (tree : Tree E) :
    (OnePerNode D tree (op.handed D tree) ↔ op.Complete D tree) ∧
      (op.Complete D tree → op.handed D tree = nodes D true tree) := by
  have hregular : op.handed D tree = nodes D true tree →
      (OnePerNode D tree (op.handed D tree) ↔ True) ∧ (True → op.handed D tree = nodes D true tree) :=
    fun h => ⟨⟨fun _ => trivial, fun _ => onePerNode_of_eq D h⟩, fun _ => h⟩
  cases op with
  | transformMap answer => exact hregular (log_foldTreePaths D true (fun _ _ _ _ => rfl) _ tree)
  | transformFilter answer => exact hregular (log_foldTreePaths D true (fun _ _ _ _ => rfl) _ tree)
  | transformFilterMap answer => exact hregular (log_foldTreePaths D true (fun _ _ _ _ => rfl) _ tree)
  | transformContext elementTransform answer =>
    exact hregular (log_foldTreePaths D true (fun _ _ _ _ => rfl) _ tree)
  | reduceAcc answer init => exact hregular (log_foldTreePaths D true (fun _ _ _ _ => rfl) _ tree)
  | reduceContext elementReduce answer init =>
    exact hregular (log_foldTreePaths D true (fun _ _ _ _ => rfl) _ tree)
  | partitionBy answer => exact hregular (log_foldTreePaths D true (fun _ _ _ _ => rfl) _ tree)
  | partitionByFilter answer => exact hregular (log_foldTreePaths D true (fun _ _ _ _ => rfl) _ tree)
  | reduceExists answer init =>
    have hhanded := log_reduceExists D answer init tree
    have hcomplete : (nodes D true tree = [] ∨ init = false ∧
        ∀ node ∈ (nodes D true tree).dropLast, answer node = false) →
        (reduceExists D (fun node log => (answer node, log ++ [node])) init tree []).2 =
          nodes D true tree := by
      intro h
      rw [hhanded]
      rcases h with hnil | ⟨rfl, hanswer⟩
      · rw [hnil]
        split <;> rfl
      · rw [if_neg Bool.false_ne_true]
        exact (untilAccepted_eq_self_iff answer _).mpr hanswer
    refine ⟨⟨fun h => ?_, fun h => ?_⟩, hcomplete⟩
    · have hperm : (if init then [] else untilAccepted answer (nodes D true tree)).Perm
          (nodes D true tree) := by
        rw [← hhanded]
        exact perm_nodes_of_onePerNode D h
      exact complete_of_perm hperm
    · exact onePerNode_of_eq D (hcomplete h)
  | partitionContext elementPartition answer =>
    have hhanded : (partitionContext D elementPartition (logged answer) tree []).2 =
        nodes D false tree := log_foldTreePaths D false (fun _ _ _ _ => rfl) _ tree
    refine ⟨⟨fun h path s => ?_, fun h => ?_⟩,
      fun h => hhanded.trans (nodes_false_of_bottom D h)⟩
    · have hperm := perm_nodes_of_onePerNode D h
      exact bottom_of_perm_nodes_false D (hhanded ▸ hperm)
    · exact onePerNode_of_eq D (hhanded.trans (nodes_false_of_bottom D h))

/-- In the context of `partition` the child of a node with an element is handed out without its
    ancestors; in the context of `reduce` it has them. -/
theorem handed_partitionContext_drops :
    let D : Element (Finset ℕ) := setElement id .identity id
    let t : Tree (Finset ℕ) := .node {0} (.singleton (.index "i") (createLeaf {1}))
    let reduced : PathOperation (Finset ℕ) Unit Unit Unit :=
      .reduceContext (fun _ _ _ => ()) (fun _ => ()) ()
    let partitioned : PathOperation (Finset ℕ) Unit Unit Unit :=
      .partitionContext (fun _ _ => ∅) (fun _ => ())
    reduced.handed D t = [⟨[], ∅, {0}⟩, ⟨[.index "i"], {0}, {1}⟩] ∧
      partitioned.handed D t = [⟨[], ∅, {0}⟩, ⟨[.index "i"], ∅, {1}⟩] ∧
      ¬ OnePerNode D t (partitioned.handed D t) := by
  intro D t reduced partitioned
  have hpartitioned : partitioned.handed D t = [⟨[], ∅, {0}⟩, ⟨[.index "i"], ∅, {1}⟩] := by
    decide +kernel
  refine ⟨by decide +kernel, hpartitioned, fun h => ?_⟩
  have hmem : (⟨[.index "i"], ∅, {1}⟩ : PathWithAncestors (Finset ℕ)) ∈ partitioned.handed D t := by
    rw [hpartitioned]
    exact List.mem_cons_of_mem _ (List.mem_singleton_self _)
  obtain ⟨-, -, -, -, hancestors⟩ := (h.mem_iff _).mp hmem
  revert hancestors
  decide +kernel

end Pysa
