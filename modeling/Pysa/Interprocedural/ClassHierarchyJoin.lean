/-
  Subject: JOINING CLASS HIERARCHIES: the graph of the edges of both sides.

  * `join`, `fromEdges` -- `Heap.join`, and the fold of `Heap.add` that builds a graph;
  * `Represents` -- what a graph says about an edge relation: the children, the keys, and that the
    roots are the nodes that are no node's child. A graph is determined by what it represents
    (`Represents.ext`);
  * `Represents.add`, `Represents.join` -- `add` inserts one edge, and `join` is the union;
  * `join_eq_fromEdges` -- **a join of two folds is the fold of the edges of both, in any order.**
-/
import Pysa.Interprocedural.ClassHierarchyGraph

namespace Pysa.ClassHierarchyGraph

/-! ## 1. Joining two graphs -/

/-- The edges of one parent of the right graph: `add_edges`. -/
def addEdges (parentRight : ClassId) (childrenRight : ClassIdSet) (graph : ClassHierarchyGraph) :
    ClassHierarchyGraph :=
  if childrenRight.isEmpty ∧ (graph.edges.find? parentRight).isNone then
    { graph with edges := graph.edges.add parentRight .empty }
  else
    { edges := graph.edges.update parentRight fun
        | some childrenLeft => some (childrenLeft.union childrenRight)
        | none => some childrenRight
      -- the roots that now have incoming edges are dropped
      roots := graph.roots.diff childrenRight }

/-- A root of the right graph, unless it is a node of the left one: `add_root`. -/
def addRoot (edgesLeft : ClassIdMap ClassIdSet) (rootRight : ClassId) (accumulator : ClassIdSet) :
    ClassIdSet :=
  if (edgesLeft.find? rootRight).isSome then accumulator else accumulator.add rootRight

def join (left right : ClassHierarchyGraph) : ClassHierarchyGraph :=
  let joined := right.edges.fold addEdges left
  { joined with roots := right.roots.fold (addRoot left.edges) joined.roots }

/-- The graph of a list of edges, as `from_module` builds it. -/
def fromEdges (edges : List (ClassId × ClassId)) : ClassHierarchyGraph :=
  edges.foldl (fun accumulator edge => accumulator.add edge.1 edge.2) empty

/-! ## 2. The edge relation that a graph represents -/

/-- `node` is an endpoint of an edge. -/
def Incident (edge : ClassId → ClassId → Prop) (node : ClassId) : Prop :=
  ∃ other, edge node other ∨ edge other node

structure Represents (graph : ClassHierarchyGraph) (edge : ClassId → ClassId → Prop) : Prop where
  child : ∀ parent child, graph.Child parent child ↔ edge parent child
  keys : ∀ node, node ∈ graph.edges.keys ↔ Incident edge node
  roots : ∀ node, node ∈ graph.roots ↔ Incident edge node ∧ ∀ parent, ¬ edge parent node

variable {graph graph' : ClassHierarchyGraph} {edge edge' : ClassId → ClassId → Prop}

theorem find?_of_children {node : ClassId} (h : node ∈ graph.edges.keys) :
    graph.edges.find? node = some (graph.children node) := by
  obtain ⟨children, hchildren⟩ := Option.isSome_iff_exists.mp (SortedMap.isSome_find?.mpr h)
  unfold ClassHierarchyGraph.children
  rw [hchildren]
  rfl

/-- A graph is determined by its children, its keys and its roots. -/
theorem ext_graph (hchild : ∀ a b, graph.Child a b ↔ graph'.Child a b)
    (hkeys : ∀ node, node ∈ graph.edges.keys ↔ node ∈ graph'.edges.keys)
    (hroots : ∀ node, node ∈ graph.roots ↔ node ∈ graph'.roots) : graph = graph' := by
  have hedges : graph.edges = graph'.edges := by
    refine SortedMap.ext_find? fun node => ?_
    by_cases hnode : node ∈ graph.edges.keys
    · rw [find?_of_children hnode, find?_of_children ((hkeys node).mp hnode)]
      exact congrArg some (SortedSet.ext (hchild node))
    · rw [SortedMap.find?_eq_none.mpr hnode,
        SortedMap.find?_eq_none.mpr fun h => hnode ((hkeys node).mpr h)]
  have hroots := SortedSet.ext hroots
  cases graph
  cases graph'
  cases hedges
  cases hroots
  rfl

theorem Represents.ext (h : graph.Represents edge) (h' : graph'.Represents edge) :
    graph = graph' :=
  ext_graph (fun a b => (h.child a b).trans (h'.child a b).symm)
    (fun node => (h.keys node).trans (h'.keys node).symm)
    (fun node => (h.roots node).trans (h'.roots node).symm)

theorem Represents.congr (h : graph.Represents edge) (heq : ∀ a b, edge a b ↔ edge' a b) :
    graph.Represents edge' := by
  obtain rfl : edge = edge' := funext fun a => funext fun b => propext (heq a b)
  exact h

theorem Represents.empty : empty.Represents fun _ _ => False where
  child := fun _ b => iff_of_false (SortedSet.notMem_empty b) id
  keys := fun _ => iff_of_false List.not_mem_nil fun ⟨_, h⟩ => h.elim id id
  roots := fun node => iff_of_false (SortedSet.notMem_empty node) fun ⟨⟨_, h⟩, _⟩ => h.elim id id

theorem incident_insert {parent child node : ClassId} :
    Incident (fun a b => edge a b ∨ a = parent ∧ b = child) node ↔
      node = child ∨ node = parent ∨ Incident edge node := by
  constructor
  · rintro ⟨other, (h | ⟨rfl, -⟩) | (h | ⟨-, rfl⟩)⟩
    · exact Or.inr (Or.inr ⟨other, Or.inl h⟩)
    · exact Or.inr (Or.inl rfl)
    · exact Or.inr (Or.inr ⟨other, Or.inr h⟩)
    · exact Or.inl rfl
  · rintro (rfl | rfl | ⟨other, h | h⟩)
    · exact ⟨parent, Or.inr (Or.inr ⟨rfl, rfl⟩)⟩
    · exact ⟨child, Or.inl (Or.inr ⟨rfl, rfl⟩)⟩
    · exact ⟨other, Or.inl (Or.inl h)⟩
    · exact ⟨other, Or.inr (Or.inl h)⟩

/-- `add` inserts the edge. -/
theorem Represents.add (h : graph.Represents edge) (parent child : ClassId) :
    (graph.add parent child).Represents fun a b => edge a b ∨ a = parent ∧ b = child where
  child := fun a b => child_add.trans (or_congr (h.child a b) Iff.rfl)
  keys := fun node => by rw [mem_keys_add, incident_insert, h.keys]
  roots := fun node => by
    rw [incident_insert]
    -- a parent that is no key yet is a new root, and the child is a root no longer
    have hnew : node ∈ (graph.add parent child).roots ↔
        (node ∈ graph.roots ∨ node = parent ∧ ¬ Incident edge parent) ∧ node ≠ child := by
      unfold ClassHierarchyGraph.add
      dsimp only
      rw [SortedSet.mem_remove, ← h.keys]
      split
      · rename_i hkey
        rw [SortedMap.isSome_find?] at hkey
        simp [hkey]
      · rename_i hkey
        rw [SortedMap.isSome_find?] at hkey
        simp [hkey, or_comm]
    rw [hnew, h.roots]
    constructor
    · rintro ⟨⟨hincident, hroot⟩ | ⟨rfl, hfresh⟩, hne⟩
      · exact ⟨Or.inr (Or.inr hincident), fun a ha =>
          ha.elim (hroot a) fun ha => hne ha.2⟩
      · exact ⟨Or.inr (Or.inl rfl), fun a ha =>
          ha.elim (fun ha => hfresh ⟨a, Or.inr ha⟩) fun ha => hne ha.2⟩
    · rintro ⟨hnode, hroot⟩
      have hne : node ≠ child := fun heq => hroot parent (Or.inr ⟨rfl, heq⟩)
      refine ⟨?_, hne⟩
      by_cases hincident : Incident edge node
      · exact Or.inl ⟨hincident, fun a ha => hroot a (Or.inl ha)⟩
      · obtain rfl : node = parent := (hnode.resolve_left hne).resolve_right hincident
        exact Or.inr ⟨rfl, hincident⟩

/-- The fold of `add` represents the edges of the list. -/
theorem represents_fromEdges (edges : List (ClassId × ClassId)) :
    (fromEdges edges).Represents fun a b => (a, b) ∈ edges := by
  have key (edges : List (ClassId × ClassId)) (graph : ClassHierarchyGraph)
      (edge : ClassId → ClassId → Prop) (h : graph.Represents edge) :
      (edges.foldl (fun accumulator edge => accumulator.add edge.1 edge.2) graph).Represents
        fun a b => edge a b ∨ (a, b) ∈ edges := by
    induction edges generalizing graph edge with
    | nil => exact h.congr fun a b => by simp
    | cons first rest ih =>
      refine (ih _ _ (h.add first.1 first.2)).congr fun a b => ?_
      rw [List.mem_cons, Prod.ext_iff, or_assoc]
  exact (key edges _ _ Represents.empty).congr fun a b => by simp

/-! ## 3. The join represents the union -/

theorem find?_addEdges (parent : ClassId) (children : ClassIdSet) (node : ClassId) :
    (addEdges parent children graph).edges.find? node =
      if node = parent then some ((graph.children parent).union children)
      else graph.edges.find? node := by
  unfold addEdges ClassHierarchyGraph.children
  split
  · rename_i h
    obtain ⟨hempty, hnone⟩ := h
    rw [Option.isNone_iff_eq_none] at hnone
    rw [SortedMap.find?_add, hnone]
    refine if_congr Iff.rfl (congrArg some (SortedSet.ext fun x => ?_)) rfl
    rw [SortedSet.mem_union]
    exact iff_of_false (SortedSet.notMem_empty x) fun h =>
      h.elim (SortedSet.notMem_empty x) (SortedSet.isEmpty_iff.mp hempty x)
  · rw [SortedMap.find?_update]
    refine if_congr Iff.rfl ?_ rfl
    cases graph.edges.find? parent with
    | none =>
      refine congrArg some (SortedSet.ext fun x => ?_)
      rw [SortedSet.mem_union]
      exact (or_iff_right (SortedSet.notMem_empty x)).symm
    | some childrenLeft => rfl

theorem mem_roots_addEdges {parent node : ClassId} {children : ClassIdSet} :
    node ∈ (addEdges parent children graph).roots ↔ node ∈ graph.roots ∧ node ∉ children := by
  unfold addEdges
  split
  · rename_i h
    exact (and_iff_left (SortedSet.isEmpty_iff.mp h.1 node)).symm
  · exact SortedSet.mem_diff

theorem child_addEdges {parent a b : ClassId} {children : ClassIdSet} :
    (addEdges parent children graph).Child a b ↔ graph.Child a b ∨ a = parent ∧ b ∈ children := by
  unfold Child
  rw [ClassHierarchyGraph.children, find?_addEdges]
  by_cases ha : a = parent
  · subst ha
    rw [if_pos rfl, setOfChildren, SortedSet.mem_union, and_iff_right rfl]
  · rw [if_neg ha]
    exact ⟨Or.inl, fun h => h.resolve_right fun h => ha h.1⟩

theorem mem_keys_addEdges {parent node : ClassId} {children : ClassIdSet} :
    node ∈ (addEdges parent children graph).edges.keys ↔
      node ∈ graph.edges.keys ∨ node = parent := by
  rw [← SortedMap.isSome_find?, find?_addEdges, ← SortedMap.isSome_find?]
  split <;> simp_all

/-- What the fold of `add_edges` over the bindings of the right graph leaves. -/
theorem foldl_addEdges (bindings : List (ClassId × ClassIdSet)) (graph : ClassHierarchyGraph) :
    let joined := bindings.foldl (fun graph binding => addEdges binding.1 binding.2 graph) graph
    (∀ a b, joined.Child a b ↔ graph.Child a b ∨ ∃ children, (a, children) ∈ bindings ∧
      b ∈ children) ∧
    (∀ node, node ∈ joined.edges.keys ↔ node ∈ graph.edges.keys ∨
      ∃ children, (node, children) ∈ bindings) ∧
    ∀ node, node ∈ joined.roots ↔ node ∈ graph.roots ∧
      ∀ binding ∈ bindings, node ∉ binding.2 := by
  induction bindings generalizing graph with
  | nil => simp
  | cons first rest ih =>
    obtain ⟨hchild, hkeys, hroots⟩ := ih (addEdges first.1 first.2 graph)
    refine ⟨fun a b => ?_, fun node => ?_, fun node => ?_⟩
    · rw [List.foldl_cons, hchild, child_addEdges, or_assoc]
      refine or_congr Iff.rfl ?_
      constructor
      · rintro (⟨rfl, hb⟩ | ⟨children, hmem, hb⟩)
        · exact ⟨first.2, List.mem_cons_self, hb⟩
        · exact ⟨children, List.mem_cons_of_mem _ hmem, hb⟩
      · rintro ⟨children, hmem, hb⟩
        rcases List.mem_cons.mp hmem with rfl | hmem
        · exact Or.inl ⟨rfl, hb⟩
        · exact Or.inr ⟨children, hmem, hb⟩
    · rw [List.foldl_cons, hkeys, mem_keys_addEdges, or_assoc]
      refine or_congr Iff.rfl ?_
      constructor
      · rintro (rfl | ⟨children, hmem⟩)
        · exact ⟨first.2, List.mem_cons_self⟩
        · exact ⟨children, List.mem_cons_of_mem _ hmem⟩
      · rintro ⟨children, hmem⟩
        rcases List.mem_cons.mp hmem with rfl | hmem
        · exact Or.inl rfl
        · exact Or.inr ⟨children, hmem⟩
    · rw [List.foldl_cons, hroots, mem_roots_addEdges, and_assoc, List.forall_mem_cons]

theorem mem_fold_addRoot {edgesLeft : ClassIdMap ClassIdSet} {rootsRight roots : ClassIdSet}
    {node : ClassId} :
    node ∈ rootsRight.fold (addRoot edgesLeft) roots ↔
      node ∈ roots ∨ node ∈ rootsRight ∧ node ∉ edgesLeft.keys := by
  unfold SortedSet.fold
  rw [show node ∈ rootsRight ↔ node ∈ rootsRight.elements from Iff.rfl]
  generalize rootsRight.elements = elements
  induction elements generalizing roots with
  | nil => simp
  | cons first rest ih =>
    rw [List.foldl_cons, ih, List.mem_cons, addRoot]
    by_cases hfirst : first ∈ edgesLeft.keys
    · rw [if_pos (SortedMap.isSome_find?.mpr hfirst)]
      refine or_congr Iff.rfl (and_congr_left fun hnode => ?_)
      exact (or_iff_right fun (heq : node = first) => hnode (heq ▸ hfirst)).symm
    · rw [if_neg fun h => hfirst (SortedMap.isSome_find?.mp h), SortedSet.mem_add,
        or_comm (a := node = first), or_assoc]
      refine or_congr Iff.rfl ?_
      constructor
      · rintro (rfl | ⟨hrest, hkey⟩)
        · exact ⟨Or.inl rfl, hfirst⟩
        · exact ⟨Or.inr hrest, hkey⟩
      · rintro ⟨rfl | hrest, hkey⟩
        · exact Or.inl rfl
        · exact Or.inr ⟨hrest, hkey⟩

theorem child_iff_bindings {a b : ClassId} :
    graph.Child a b ↔ ∃ children, (a, children) ∈ graph.edges.bindings ∧ b ∈ children := by
  unfold Child ClassHierarchyGraph.children
  cases hfind : graph.edges.find? a with
  | none =>
    refine iff_of_false (SortedSet.notMem_empty b) ?_
    rintro ⟨children, hmem, -⟩
    rw [SortedMap.mem_bindings, hfind] at hmem
    cases hmem
  | some children =>
    constructor
    · exact fun hb => ⟨children, SortedMap.mem_bindings.mpr hfind, hb⟩
    · rintro ⟨children', hmem, hb⟩
      rw [SortedMap.mem_bindings, hfind] at hmem
      cases hmem
      exact hb

theorem key_iff_bindings {node : ClassId} :
    node ∈ graph.edges.keys ↔ ∃ children, (node, children) ∈ graph.edges.bindings := by
  simp only [SortedMap.mem_bindings, ← SortedMap.isSome_find?, Option.isSome_iff_exists]

theorem incident_union {node : ClassId} :
    Incident (fun a b => edge a b ∨ edge' a b) node ↔ Incident edge node ∨ Incident edge' node := by
  constructor
  · rintro ⟨other, (h | h) | (h | h)⟩
    · exact Or.inl ⟨other, Or.inl h⟩
    · exact Or.inr ⟨other, Or.inl h⟩
    · exact Or.inl ⟨other, Or.inr h⟩
    · exact Or.inr ⟨other, Or.inr h⟩
  · rintro (⟨other, h | h⟩ | ⟨other, h | h⟩)
    · exact ⟨other, Or.inl (Or.inl h)⟩
    · exact ⟨other, Or.inr (Or.inl h)⟩
    · exact ⟨other, Or.inl (Or.inr h)⟩
    · exact ⟨other, Or.inr (Or.inr h)⟩

/-- `join` is the union of the edges. -/
theorem Represents.join {left right : ClassHierarchyGraph} (hleft : left.Represents edge)
    (hright : right.Represents edge') :
    (left.join right).Represents fun a b => edge a b ∨ edge' a b := by
  have hfold : right.edges.fold addEdges left =
      right.edges.bindings.foldl (fun graph binding => addEdges binding.1 binding.2 graph) left :=
    SortedMap.fold_eq_foldl addEdges left right.edges
  obtain ⟨hchild, hkeys, hroots⟩ := foldl_addEdges right.edges.bindings left
  rw [← hfold] at hchild hkeys hroots
  refine ⟨fun a b => ?_, fun node => ?_, fun node => ?_⟩
  · refine (hchild a b).trans ?_
    rw [← child_iff_bindings, hleft.child, hright.child]
  · refine (hkeys node).trans ?_
    rw [← key_iff_bindings, hleft.keys, hright.keys, incident_union]
  · -- a root of one side stays a root unless the other side has an edge to it
    have hmem : node ∈ (left.join right).roots ↔
        (node ∈ left.roots ∧ ∀ a, ¬ edge' a node) ∨
          node ∈ right.roots ∧ node ∉ left.edges.keys := by
      refine mem_fold_addRoot.trans (or_congr ((hroots node).trans (and_congr_right fun _ => ?_))
        Iff.rfl)
      constructor
      · intro h a ha
        obtain ⟨children, hbinding, hb⟩ := child_iff_bindings.mp ((hright.child a node).mpr ha)
        exact h _ hbinding hb
      · intro h binding hbinding hb
        exact h binding.1 ((hright.child _ _).mp (child_iff_bindings.mpr ⟨_, hbinding, hb⟩))
    rw [hmem, hleft.roots, hright.roots, hleft.keys, incident_union]
    constructor
    · rintro (⟨⟨hnode, hroot⟩, hroot'⟩ | ⟨⟨hnode, hroot'⟩, hkey⟩)
      · exact ⟨Or.inl hnode, fun a ha => ha.elim (hroot a) (hroot' a)⟩
      · exact ⟨Or.inr hnode, fun a ha => ha.elim (fun ha => hkey ⟨a, Or.inr ha⟩) (hroot' a)⟩
    · rintro ⟨hnode, hroot⟩
      by_cases hkey : Incident edge node
      · exact Or.inl ⟨⟨hkey, fun a ha => hroot a (Or.inl ha)⟩, fun a ha => hroot a (Or.inr ha)⟩
      · exact Or.inr ⟨⟨hnode.resolve_left hkey, fun a ha => hroot a (Or.inr ha)⟩, hkey⟩

/-! ## 4. Order of insertion -/

/-- The nodes of a graph that represents a relation are its keys. -/
theorem Represents.mem_nodes (h : graph.Represents edge) {node : ClassId} :
    node ∈ graph.nodes ↔ Incident edge node := by
  constructor
  · refine fun hnode => SortedMap.fold_induction
      (fun nodes => node ∈ nodes → Incident edge node) ?_ ?_ hnode
    · exact fun hroot => ((h.roots node).mp hroot).1
    · intro parent children nodes hfind ih hnode
      rcases SortedSet.mem_add.mp hnode with rfl | hnode
      · exact (h.keys node).mp (SortedMap.mem_of_find? hfind)
      · refine (SortedSet.mem_union.mp hnode).elim ih fun hchild => ?_
        refine ⟨parent, Or.inr ((h.child parent node).mp ?_)⟩
        exact child_iff_bindings.mpr ⟨children, SortedMap.mem_bindings.mpr hfind, hchild⟩
  · rintro ⟨other, hedge | hedge⟩
    · by_cases hroot : ∀ parent, ¬ edge parent node
      · exact root_mem_nodes ((h.roots node).mpr ⟨⟨other, Or.inl hedge⟩, hroot⟩)
      · obtain ⟨parent, hparent⟩ := not_forall_not.mp hroot
        exact child_mem_nodes ((h.child parent node).mpr hparent)
    · exact child_mem_nodes ((h.child other node).mpr hedge)

/-- **Insertion order does not matter, and the roots are the nodes that are no node's child.** -/
theorem join_fromEdges (edges₁ edges₂ edges : List (ClassId × ClassId))
    (hperm : edges.Perm (edges₁ ++ edges₂)) :
    (fromEdges edges₁).join (fromEdges edges₂) = fromEdges edges ∧
      ∀ node, node ∈ (fromEdges edges).roots ↔
        node ∈ (fromEdges edges).nodes ∧ ∀ parent, ¬ (fromEdges edges).Child parent node := by
  have h := represents_fromEdges edges
  constructor
  · refine ((represents_fromEdges edges₁).join (represents_fromEdges edges₂)).ext
      (h.congr fun a b => ?_)
    rw [hperm.mem_iff, List.mem_append]
  · intro node
    rw [h.roots, h.mem_nodes]
    exact and_congr_right fun _ => forall_congr' fun parent => not_congr (h.child parent node).symm

/-- A root of the left graph that is a child in the right one. -/
theorem join_fromEdges_demoted :
    let a : ClassId := ⟨0, 0⟩
    let b : ClassId := ⟨0, 1⟩
    let c : ClassId := ⟨1, 0⟩
    (fromEdges [(b, c)]).join (fromEdges [(a, b)]) = fromEdges [(a, b), (b, c)] ∧
      ∀ node, node ∈ (fromEdges [(a, b), (b, c)]).roots ↔
        node ∈ (fromEdges [(a, b), (b, c)]).nodes ∧
          ∀ parent, ¬ (fromEdges [(a, b), (b, c)]).Child parent node :=
  join_fromEdges _ _ _ (List.Perm.swap _ _ [])

end Pysa.ClassHierarchyGraph
